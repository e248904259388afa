import Bfd.BrokerRun
import Bfd.BrokerCalls
import Bfd.Intervals
import Bfd.NeighborRuns

/-! # `bfd_reconfigure`

A new configuration is taken without a restart when the switches that fix the engine's
sockets are unchanged. `bfd_reconfigure_iface` then gives every binding of `iface_list` the
interface configuration the new configuration picks for it, and marks it `changed` when one of
the seven fields it compares differs; every session whose binding is marked is reconfigured
from its binding and the options of the head of its request list (`bfd_reconfigure_session`).
Last, `bfd_reconfigure_neighbors` walks the neighbours through the broker: its outer walk
releases the request of every old neighbour it stops (`bfd_request_free`), which may be the
head of a session shared with other requests, or the last request of a session, which then
goes; its last walk makes a request for every new neighbour it starts (`bfd_request_session`),
which may make a session and a binding. `p->p.cf` is still the old configuration then
(`bfd_reconfigure_neighbors` calls it `old`), so a binding made there takes the configuration
the old one picks.

The comment in `bfd_reconfigure_iface` asks that any configuration change trigger
`bfd_reconfigure_session`; the test compares exactly the fields `bfd_merge_options` reads. So
every session of the engine runs after the call with its binding's new configuration merged
with the options of the head request it had at the call exactly when it did before with the
old one or its binding was marked, and every session the neighbour walk makes is a new session
on its binding's configuration with no options (`reconfigure_keeps_sessions_in_sync`). What
the walk does to a session's head, and to the bindings it makes, it leaves unreconfigured. -/
namespace Bfd

/-- What `bfd_reconfigure` reads of a BFD configuration: the broker's view, the two switches
besides the accept switches that fix the sockets, and the neighbour list. -/
structure ProtoConfig extends BfdConfig where
  strictBind : Bool
  zeroUdp6ChecksumRx : Bool
  neighbors : List NeighborConfig

/-- The first test of `bfd_reconfigure`: a change of one of these switches needs a restart. -/
def needsRestart (new old : ProtoConfig) : Bool :=
  new.acceptIpv4 != old.acceptIpv4 || new.acceptIpv6 != old.acceptIpv6 ||
    new.acceptDirect != old.acceptDirect || new.acceptMultihop != old.acceptMultihop ||
    new.strictBind != old.strictBind || new.zeroUdp6ChecksumRx != old.zeroUdp6ChecksumRx

/-- The test of `bfd_reconfigure_iface`. -/
def ifaceChanged (new old : IfaceConfig) : Bool :=
  new.minRxInt != old.minRxInt || new.minTxInt != old.minTxInt ||
    new.idleTxInt != old.idleTxInt || new.multiplier != old.multiplier ||
    new.passive != old.passive || new.authType != old.authType || new.passwords != old.passwords

/-- The seven fields are all of an interface configuration: the test is inequality. -/
theorem ifaceChanged_eq_false {new old : IfaceConfig} : ifaceChanged new old = false ↔ new = old := by
  cases new; cases old
  simp only [ifaceChanged, Bool.or_eq_false_iff, bne_eq_false_iff_eq, IfaceConfig.mk.injEq]
  tauto

@[simp] theorem reconfigureSession_cf (s : Session) (cf : SessionConfig) (now : ℕ+) :
    (Bfd.bfdReconfigureSession s cf now).cf = cf := by
  simp [Bfd.bfdReconfigureSession, bfdSessionControlTxTimer]

@[simp] theorem addSession_cf (cf : SessionConfig) (now : ℕ+) : (Bfd.bfdAddSession cf now).cf = cf := by
  simp [Bfd.bfdAddSession, bfdSessionControlTxTimer, bfdSessionUpdateTxInterval]

/-! ## A binding and its sessions -/

namespace SessionNode

variable {nc : BfdConfig} {now : ℕ+} {o : Option BfdOptions} {sn : SessionNode}

/-- The session runs with its binding's configuration merged with options `opts`, as
`bfd_reconfigure_session` sets it from a head request with options `opts`. -/
def RunsWith (sn : SessionNode) (opts : BfdOptions) : Prop :=
  sn.core.cf = bfdMergeOptions sn.ifaceCf opts

/-- A session after `bfd_reconfigure_iface` on its binding and its turn of the session walk,
the options of its head request being `o`. -/
def rebind (nc : BfdConfig) (now : ℕ+) (o : Option BfdOptions) (sn : SessionNode) : SessionNode :=
  let new := nc.ifaceConfig sn.iface
  { sn with
    ifaceCf := new
    core := match o with
      | some opts =>
        if ifaceChanged new sn.ifaceCf then
          Bfd.bfdReconfigureSession sn.core (bfdMergeOptions new opts) now
        else sn.core
      | none => sn.core }

/-- A binding already on the new configuration is not marked again. -/
theorem rebind_rebind : (sn.rebind nc now o).rebind nc now o = sn.rebind nc now o := by
  have hc : ifaceChanged (nc.ifaceConfig sn.iface) (nc.ifaceConfig sn.iface) = false :=
    ifaceChanged_eq_false.2 rfl
  cases o <;> simp only [rebind, hc, Bool.false_eq_true, if_false]

/-- After its turn a session runs with its binding's configuration merged with its head's
options exactly when it did before or its binding was marked. -/
theorem rebind_runsWith {opts : BfdOptions} :
    (sn.rebind nc now (some opts)).RunsWith opts ↔
      sn.RunsWith opts ∨ ifaceChanged (nc.ifaceConfig sn.iface) sn.ifaceCf = true := by
  cases hc : ifaceChanged (nc.ifaceConfig sn.iface) sn.ifaceCf with
  | true => simp [rebind, RunsWith, hc]
  | false =>
    simp only [rebind, RunsWith, hc, Bool.false_eq_true, if_false, or_false]
    rw [ifaceChanged_eq_false.1 hc]

theorem followsConfig_rebind (h : FollowsConfig sn.core) : FollowsConfig (sn.rebind nc now o).core := by
  cases o with
  | none => exact h
  | some opts =>
    dsimp only [rebind]
    split_ifs
    exacts [followsConfig_reconfigure _, h]

/-- A session after the binding walk of engine `p`: its turn if it is `p`'s. -/
def turn (p : Nat) (nc : BfdConfig) (now : ℕ+) (o : Option BfdOptions) (sn : SessionNode) :
    SessionNode :=
  if sn.engine = p then sn.rebind nc now o else sn

section Turn
variable {p : Nat}

@[simp] theorem turn_engine : (sn.turn p nc now o).engine = sn.engine := by
  unfold turn; split_ifs <;> rfl
@[simp] theorem turn_localAddr : (sn.turn p nc now o).localAddr = sn.localAddr := by
  unfold turn; split_ifs <;> rfl
@[simp] theorem turn_iface : (sn.turn p nc now o).iface = sn.iface := by
  unfold turn; split_ifs <;> rfl

theorem turn_ifaceCf : (sn.turn p nc now o).ifaceCf =
    if sn.engine = p then nc.ifaceConfig sn.iface else sn.ifaceCf := by
  unfold turn; split_ifs <;> rfl

theorem turn_runsWith {opts : BfdOptions} : (sn.turn p nc now (some opts)).RunsWith opts ↔
    sn.RunsWith opts ∨ sn.engine = p ∧ ifaceChanged (nc.ifaceConfig sn.iface) sn.ifaceCf = true := by
  unfold turn
  by_cases he : sn.engine = p
  · simpa [he] using rebind_runsWith
  · simp [he]

theorem followsConfig_turn (h : FollowsConfig sn.core) : FollowsConfig (sn.turn p nc now o).core := by
  unfold turn; split_ifs
  exacts [followsConfig_rebind h, h]

end Turn

end SessionNode

namespace Broker

variable {b c d : Broker} {nc : BfdConfig} {now : ℕ+} {i j : Nat} {sn sn' : SessionNode}

/-- The options of the head of session `i`'s request list. -/
def headOpts (b : Broker) (i : Nat) : Option BfdOptions :=
  (b.requestsOf i).head?.bind fun r => (b.reqs r).map Request.opts

/-- `bfd_reconfigure_iface` on session `i`'s binding, then the session walk's turn for `i`:
the binding takes the configuration the new configuration picks for its interface, and the
session is reconfigured when that differs from the binding's old one. The sessions of a
binding see the same two configurations, so this, session by session, is what the two walks
of `bfd_reconfigure` do. -/
def reconfigureBinding (nc : BfdConfig) (now : ℕ+) (b : Broker) (i : Nat) : Broker :=
  match b.sess i with
  | some sn =>
    let new := nc.ifaceConfig sn.iface
    let b := b.setSess i (some { sn with ifaceCf := new })
    if ifaceChanged new sn.ifaceCf then b.bfdReconfigureSession i now else b
  | none => b

theorem reconfigureSession_eq (b : Broker) (i : Nat) (now : ℕ+) :
    b.bfdReconfigureSession i now = b ∨ ∃ y, b.bfdReconfigureSession i now = b.setSess i y := by
  unfold bfdReconfigureSession
  repeat' split
  exacts [.inr ⟨_, rfl⟩, .inl rfl, .inl rfl, .inl rfl]

theorem reconfigureBinding_eq (nc : BfdConfig) (now : ℕ+) (b : Broker) (i : Nat) :
    ∃ y, b.reconfigureBinding nc now i = b.setSess i y ∨ b.reconfigureBinding nc now i = b := by
  unfold reconfigureBinding
  split
  · dsimp only
    split_ifs
    · rcases reconfigureSession_eq (b.setSess i (some _)) i now with e | ⟨y, e⟩ <;> rw [e]
      exacts [⟨_, .inl rfl⟩, ⟨y, .inl (by simp [setSess])⟩]
    · exact ⟨_, .inl rfl⟩
  · exact ⟨none, .inr rfl⟩

theorem reconfigureBinding_sess (j : Nat) : (b.reconfigureBinding nc now i).sess j =
    if j = i then (b.sess i).map (SessionNode.rebind nc now (b.headOpts i)) else b.sess j := by
  unfold reconfigureBinding
  cases hs : b.sess i with
  | none => split_ifs with h <;> simp [h, hs]
  | some sn =>
    have hl : b.requestsOf i = sn.requestList := requestsOf_eq hs
    dsimp only
    split_ifs with hc hj hj
    · subst hj
      unfold bfdReconfigureSession headOpts
      rw [hl]
      simp only [setSess_sess, Function.update_same, setSess_reqs, hs, Option.map_some']
      cases hrl : sn.requestList with
      | nil => simp [SessionNode.rebind, hrl]
      | cons r l => cases hr : b.reqs r <;> simp [SessionNode.rebind, hc, hr, hrl]
    · rcases reconfigureSession_eq (b.setSess i (some { sn with ifaceCf := nc.ifaceConfig sn.iface }))
        i now with e | ⟨y, e⟩ <;> simp [e, Function.update_noteq hj]
    · subst hj
      simp only [setSess_sess, Function.update_same, Option.map_some', Option.some.injEq]
      cases b.headOpts j <;> simp [SessionNode.rebind, hc]
    · simp [Function.update_noteq hj]

theorem reconfigureBinding_frame (nc : BfdConfig) (now : ℕ+) (b : Broker) (i : Nat) :
    (b.reconfigureBinding nc now i).reqs = b.reqs ∧ (b.reconfigureBinding nc now i).engines = b.engines ∧
      (b.reconfigureBinding nc now i).nextId = b.nextId := by
  obtain ⟨y, e | e⟩ := reconfigureBinding_eq nc now b i <;> rw [e] <;> exact ⟨rfl, rfl, rfl⟩

theorem reconfigureBinding_headOpts (j : Nat) :
    (b.reconfigureBinding nc now i).headOpts j = b.headOpts j := by
  have hl : (b.reconfigureBinding nc now i).requestsOf j = b.requestsOf j := by
    simp only [requestsOf, reconfigureBinding_sess]
    split_ifs with h
    · subst h; cases b.sess j <;> rfl
    · rfl
  simp only [headOpts, hl, (reconfigureBinding_frame nc now b i).1]

/-- The binding walk over a list of sessions: each session on the list has had its turn, as
often as it is on the list, and every other is as it was. -/
theorem foldl_reconfigureBinding (nc : BfdConfig) (now : ℕ+) (L : List Nat) (b : Broker) :
    (L.foldl (reconfigureBinding nc now) b).reqs = b.reqs ∧
    (L.foldl (reconfigureBinding nc now) b).engines = b.engines ∧
    (L.foldl (reconfigureBinding nc now) b).nextId = b.nextId ∧
    ∀ j, (L.foldl (reconfigureBinding nc now) b).sess j =
      if j ∈ L then (b.sess j).map (SessionNode.rebind nc now (b.headOpts j)) else b.sess j := by
  induction L generalizing b with
  | nil => simp
  | cons i L ih =>
    obtain ⟨hr, he, hn, hs⟩ := ih (b.reconfigureBinding nc now i)
    obtain ⟨hr', he', hn'⟩ := reconfigureBinding_frame nc now b i
    refine ⟨hr.trans hr', he.trans he', hn.trans hn', fun j => ?_⟩
    rw [List.foldl_cons, hs j, reconfigureBinding_headOpts, reconfigureBinding_sess]
    by_cases hj : j = i
    · subst hj
      by_cases hL : j ∈ L
      · simp [hL, Option.map_map, Function.comp_def, SessionNode.rebind_rebind]
      · simp [hL]
    · simp [hj]

/-! ## The broker calls of the neighbour walk -/

/-- Every session of `c` is one of `b`, its request list perhaps changed. -/
def Relisted (b c : Broker) : Prop :=
  ∀ i sn', c.sess i = some sn' → ∃ sn, b.sess i = some sn ∧ sn' = { sn with requestList := sn'.requestList }

theorem Relisted.refl (b : Broker) : Relisted b b := fun _ sn' h => ⟨sn', h, rfl⟩

theorem Relisted.trans (h₁ : Relisted b c) (h₂ : Relisted c d) : Relisted b d := fun i sn'' h => by
  obtain ⟨sn', h', e₂⟩ := h₂ i sn'' h
  obtain ⟨sn, h, e₁⟩ := h₁ i sn' h'
  exact ⟨sn, h, e₂.trans (congrArg (fun x => { x with requestList := sn''.requestList }) e₁)⟩

theorem Relisted.congr (h : Relisted b c) (e : d.sess = c.sess) : Relisted b d :=
  fun i sn' hs => h i sn' (e ▸ hs)

theorem relisted_setSess {y : Option SessionNode}
    (hy : ∀ sn', y = some sn' → ∃ sn, b.sess i = some sn ∧ sn' = { sn with requestList := sn'.requestList }) :
    Relisted b (b.setSess i y) := fun j sn' hs => by
  by_cases hj : j = i
  · subst hj; exact hy sn' (by simpa using hs)
  · exact ⟨sn', by simpa [Function.update_noteq hj] using hs, rfl⟩

theorem relisted_setList (hs : b.sess i = some sn) (l : List Nat) :
    Relisted b (b.setSess i (some { sn with requestList := l })) :=
  relisted_setSess fun _ e => ⟨sn, hs, by cases e; rfl⟩

theorem relisted_remNode (r : Nat) : Relisted b (b.remNode r) := by
  unfold remNode
  split
  · split
    exacts [relisted_setList ‹_› _, Relisted.refl b]
  · exact (Relisted.refl b).congr rfl

theorem relisted_addTail (s : Option Nat) (r : Nat) : Relisted b (b.addTail s r) := by
  unfold addTail
  split
  · exact (Relisted.refl b).congr rfl
  · split
    exacts [relisted_setList ‹_› _, Relisted.refl b]

theorem relisted_moveTo (r : Nat) (s : Option Nat) : Relisted b (b.moveTo r s) := by
  unfold moveTo
  dsimp only
  split
  · exact ((relisted_remNode r).trans (relisted_addTail s r)).congr rfl
  · exact relisted_remNode r

theorem relisted_requestNotify (r : Nat) (state remote : BfdState) (diag : Nat) :
    Relisted b (b.bfdRequestNotify r state remote diag id) := by
  unfold bfdRequestNotify
  split
  · exact Relisted.refl b
  · split_ifs
    exacts [Relisted.refl b, (Relisted.refl b).congr rfl]

theorem relisted_removeSession (i : Nat) : Relisted b (b.bfdRemoveSession i) :=
  fun _ sn' h => ⟨sn', removeSession_sess_some h, rfl⟩

/-- `bfd_request_free` only takes a request off its session's list, and may remove the
session. -/
theorem relisted_requestFree (r : Nat) : Relisted b (b.bfdRequestFree r) := by
  unfold bfdRequestFree
  split
  · exact Relisted.refl b
  · have hu : Relisted b ((b.remNode r).setReq r none) := (relisted_remNode r).congr rfl
    dsimp only
    repeat' split
    all_goals first | exact hu.trans (relisted_removeSession _) | exact hu

/-- The writes of `bfd_request_session` and `bfd_request_free` raise the identifier counter and
leave every engine's configuration. -/
theorem reqFrame_engineCf :
    ReqFrame fun b c => b.nextId ≤ c.nextId ∧ ∀ q, (c.engines q).cf = (b.engines q).cf where
  refl _ := ⟨le_rfl, fun _ => rfl⟩
  trans h₁ h₂ := ⟨h₁.1.trans h₂.1, fun q => (h₂.2 q).trans (h₁.2 q)⟩
  setReq _ _ _ _ := ⟨le_rfl, fun _ => rfl⟩
  remNode _ _ := ⟨by rw [remNode_nextId], fun _ => by rw [remNode_engines]⟩
  addTail _ _ _ := ⟨by rw [addTail_nextId], fun _ => by rw [addTail_engines]⟩
  allocate _ := ⟨Nat.le_succ _, fun _ => rfl⟩
  addSession _ _ _ _ := ⟨Nat.le_succ _, fun _ => addSession_cf _⟩
  removeSession b i := by
    cases hs : b.sess i with
    | none => simp [bfdRemoveSession, hs]
    | some sn => exact ⟨by rw [removeSession_nextId], fun q => removeSession_cf hs q⟩

/-- `bfd_get_iface`'s configuration is that of a session registered with the engine on the
binding, or, for a new binding, the one the engine's configuration picks. -/
theorem bfdGetIface_cases (b : Broker) (p localAddr : Nat) (iface : Option Nat) :
    b.bfdGetIface p localAddr iface = (b.engines p).cf.ifaceConfig iface ∨
      ∃ j sn, j ∈ (b.engines p).sessions ∧ b.sess j = some sn ∧ sn.localAddr = localAddr ∧
        sn.iface = iface ∧ sn.ifaceCf = b.bfdGetIface p localAddr iface := by
  unfold bfdGetIface
  cases e : (b.engines p).sessions.findSome? fun i => (b.sess i).bind fun sn =>
      if sn.localAddr = localAddr ∧ sn.iface = iface then some sn.ifaceCf else none with
  | none => exact .inl rfl
  | some cf =>
    right
    obtain ⟨j, hj, hf⟩ := List.exists_of_findSome?_eq_some e
    cases hs : b.sess j with
    | none => rw [hs] at hf; cases hf
    | some sn =>
      rw [hs] at hf
      simp only [Option.some_bind] at hf
      split_ifs at hf with hk
      cases hf
      exact ⟨j, sn, hj, hs, hk.1, hk.2, rfl⟩

theorem relisted_notifyOfSession (r i : Nat) : Relisted b (b.notifyOfSession r i id) := by
  unfold notifyOfSession
  split
  exacts [relisted_requestNotify _ _ _ _, Relisted.refl b]

/-- `bfd_submit_request` ends in the wait list or in the first engine that takes the request. -/
theorem submit_go_cases (b : Broker) (r : Nat) (hook : Broker → Broker) (now : ℕ+) :
    ∀ l, bfdSubmitRequest.go b r hook now l = b.park r hook ∨
      ∃ p, b.bfdAddRequest p r hook now = some (bfdSubmitRequest.go b r hook now l)
  | [] => .inl rfl
  | p :: ps => by
    simp only [bfdSubmitRequest.go]
    split
    · next b' e => exact .inr ⟨p, e⟩
    · exact submit_go_cases b r hook now ps

/-- The sessions `bfd_add_request` with no hook leaves: those there were, their request lists
perhaps changed, and the one it made under the next identifier. -/
theorem addRequest_sess {p r : Nat} {req : Request} (hr : b.reqs r = some req)
    (e : b.bfdAddRequest p r id now = some c) (h : c.sess i = some sn') :
    (∃ sn, b.sess i = some sn ∧ sn' = { sn with requestList := sn'.requestList }) ∨
      (i = b.nextId ∧ sn'.engine = p ∧ sn'.localAddr = req.localAddr ∧ sn'.iface = req.iface ∧
        sn'.ifaceCf = b.bfdGetIface p req.localAddr req.iface ∧
        sn'.core = Bfd.bfdAddSession (bfdMergeOptions sn'.ifaceCf req.opts) now) := by
  unfold bfdAddRequest at e
  rw [hr] at e
  dsimp only at e
  split_ifs at e
  cases e
  obtain ⟨sn₁, h₁, e₁⟩ := ((relisted_moveTo r _).trans (relisted_notifyOfSession r _)) i sn' h
  unfold findOrAddSession at h₁
  split at h₁
  · exact .inl ⟨sn₁, h₁, e₁⟩
  · by_cases hi : i = b.nextId
    · subst hi
      simp only [Broker.bfdAddSession, setEngine_sess, setSess_sess, Function.update_same,
        Option.some.injEq] at h₁
      subst h₁
      rw [e₁]
      exact .inr ⟨rfl, rfl, rfl, rfl, rfl, rfl⟩
    · rw [addSession_sess_old hi] at h₁
      exact .inl ⟨sn₁, h₁, e₁⟩

/-- The sessions a `bfd_request_session` with no hook leaves: those there were, their request
lists perhaps changed, and the one it made for the request, under the identifier after the
request's, on the binding `bfd_get_iface` gave it, a new session on the binding's
configuration merged with the request's options. -/
theorem requestSession_sess {addr localAddr : Nat} {iface vrf : Option Nat} {opts : BfdOptions}
    (h : (b.bfdRequestSession addr localAddr iface vrf opts now).sess i = some sn') :
    (∃ sn, b.sess i = some sn ∧ sn' = { sn with requestList := sn'.requestList }) ∨
      (i = b.nextId + 1 ∧ sn'.localAddr = localAddr ∧ sn'.iface = iface ∧
        sn'.ifaceCf = b.bfdGetIface sn'.engine localAddr iface ∧
        sn'.core = Bfd.bfdAddSession (bfdMergeOptions sn'.ifaceCf opts) now) := by
  let req : Request :=
    { addr, localAddr, iface, vrf, opts, state := .adminDown, diag := 0, oldState := .adminDown,
      down := false, session := none }
  let b₁ : Broker := ({ b with nextId := b.nextId + 1 }).setReq b.nextId (some req)
  have h' : (bfdSubmitRequest.go b₁ b.nextId id now b₁.protoList).sess i = some sn' := h
  rcases submit_go_cases b₁ b.nextId id now b₁.protoList with e | ⟨p, e⟩
  · rw [e] at h'
    have hp : Relisted b₁ (b₁.park b.nextId id) :=
      (relisted_moveTo _ _).trans (relisted_requestNotify _ _ _ _)
    exact .inl (hp i sn' h')
  · rcases addRequest_sess (by simp [b₁] : b₁.reqs b.nextId = some req) e h' with
      hk | ⟨hi, hp, hl, hif, hc, hcore⟩
    · exact .inl hk
    · exact .inr ⟨hi, hl, hif, by rw [hp]; exact hc, hcore⟩

/-! ## The phases of `bfd_reconfigure` -/

variable {ex : Nat → Nat → Prop}

theorem Inv.reconfigureBinding (h : Inv b ex) (i : Nat) :
    Inv (Broker.reconfigureBinding nc now b i) ex := by
  unfold Broker.reconfigureBinding
  split
  · next sn hs =>
    have h' : Inv (b.setSess i (some { sn with ifaceCf := nc.ifaceConfig sn.iface })) ex := by
      refine h.congr rfl (fun j => ?_) (fun j => ?_) rfl (fun _ => rfl) rfl rfl rfl rfl
      · by_cases hj : j = i
        · subst hj; simp [infoOf, hs, SessionNode.info]
        · simp [infoOf, Function.update_noteq hj]
      · rw [requestsOf_setSess]
        split_ifs with hj
        · subst hj; simp [requestsOf_eq hs]
        · rfl
    dsimp only
    split_ifs
    exacts [h'.reconfigureSession i, h']
  · exact h

theorem Inv.foldl_reconfigureBinding (h : Inv b ex) (L : List Nat) :
    Inv (L.foldl (Broker.reconfigureBinding nc now) b) ex := by
  induction L generalizing b with
  | nil => exact h
  | cons i L ih => exact ih (h.reconfigureBinding i)

theorem foldl_reconfigureBinding_notifier (L : List Nat) (b : Broker) :
    (L.foldl (reconfigureBinding nc now) b).notifier = b.notifier := by
  induction L generalizing b with
  | nil => rfl
  | cons i L ih =>
    rw [List.foldl_cons, ih]
    obtain ⟨y, e | e⟩ := reconfigureBinding_eq nc now b i <;> rw [e]; rfl

/-- `rfree` of the request a neighbour held: `bfd_request_free` of the broker request its
handle names. -/
def releaseHandle (reqIds : List Nat) (b : Broker) (h : Nat) : Broker :=
  match reqIds[h]? with
  | some r => b.bfdRequestFree r
  | none => b

/-- A neighbour's `bfd_request_session`, with the protocol's VRF, no options and no hook; the
handle of the request made names the new broker request. -/
def makeRequest (vrf : Option Nat) (now : ℕ+) (bi : Broker × List Nat) (a : RequestArgs) :
    Broker × List Nat :=
  (bi.1.bfdRequestSession a.addr a.localAddr a.iface vrf {} now, bi.2 ++ [bi.1.nextId])

theorem removeSession_idle (hi : b.notifier = .idle) (i : Nat) :
    (b.bfdRemoveSession i).notifier = .idle := by
  unfold bfdRemoveSession
  split
  · exact hi
  · dsimp only; split_ifs <;> simp [hi, Notifier.eraseTmp]

/-- What the releases of the neighbour walk keep of the broker `b` they start from, which has
the invariant with the notifier idle: the invariant, the idle notifier, the sessions but for
their request lists, and the engines' configurations. -/
structure Released (b c : Broker) : Prop where
  inv : Inv c noExcuse
  idle : c.notifier = .idle
  relisted : Relisted b c
  nextId : b.nextId ≤ c.nextId
  cf : ∀ q, (c.engines q).cf = (b.engines q).cf

theorem Released.releaseHandle (h : Released b c) (ids : List Nat) (hd : Nat) :
    Released b (c.releaseHandle ids hd) := by
  unfold Broker.releaseHandle
  split
  · next r _ =>
    have hc : c.notifier.cursor ≠ some r := by simp [h.idle, Notifier.cursor]
    have hk := reqFrame_engineCf.requestFree c r
    refine ⟨h.inv.requestFree hc, ?_, h.relisted.trans (relisted_requestFree r),
      h.nextId.trans hk.1, fun q => (hk.2 q).trans (h.cf q)⟩
    have hu : ((c.remNode r).setReq r none).notifier = .idle := by simp [h.idle]
    unfold bfdRequestFree
    split
    · exact h.idle
    · dsimp only
      repeat' split
      all_goals first | exact removeSession_idle hu _ | exact hu
  · exact h

theorem Released.foldl (h : Released b c) (ids : List Nat) (l : List Nat) :
    Released b (l.foldl (Broker.releaseHandle ids) c) := by
  induction l generalizing c with
  | nil => exact h
  | cons hd l ih => exact ih (h.releaseHandle ids hd)

/-- What the makes of the neighbour walk keep of the broker `b` they start from: the
invariant, the engines' configurations, and the sessions but for their request lists; every
other session is new, with no options, on a binding of its own with the configuration its
engine's configuration picks or on the binding of a session of `b`, with its configuration. -/
structure Made (now : ℕ+) (b c : Broker) : Prop where
  inv : Inv c noExcuse
  nextId : b.nextId ≤ c.nextId
  cf : ∀ q, (c.engines q).cf = (b.engines q).cf
  sess : ∀ i sn', c.sess i = some sn' →
    (∃ sn, b.sess i = some sn ∧ sn' = { sn with requestList := sn'.requestList }) ∨
      (b.nextId ≤ i ∧ sn'.core = Bfd.bfdAddSession (bfdMergeOptions sn'.ifaceCf {}) now ∧
        (sn'.ifaceCf = (b.engines sn'.engine).cf.ifaceConfig sn'.iface ∨
          ∃ j sn, b.sess j = some sn ∧ sn.engine = sn'.engine ∧ sn.localAddr = sn'.localAddr ∧
            sn.iface = sn'.iface ∧ sn.ifaceCf = sn'.ifaceCf))

theorem Made.requestSession (h : Made now b c) (addr localAddr : Nat) (iface vrf : Option Nat) :
    Made now b (c.bfdRequestSession addr localAddr iface vrf {} now) := by
  have hk := reqFrame_engineCf.requestSession c addr localAddr iface vrf {} now
  refine ⟨h.inv.requestSession addr localAddr iface vrf {}, h.nextId.trans hk.1,
    fun q => (hk.2 q).trans (h.cf q), fun i sn' hs => ?_⟩
  rcases requestSession_sess hs with ⟨sn, hc, e⟩ | ⟨hi, hl, hif, hcf, hcore⟩
  · -- a session of `c`: its request list may have changed
    rcases h.sess i sn hc with ⟨sn₀, hb, e₀⟩ | ⟨hi, hcore, hbind⟩
    · exact .inl ⟨sn₀, hb, e.trans (congrArg (fun x => { x with requestList := sn'.requestList }) e₀)⟩
    · rw [e]; exact .inr ⟨hi, hcore, hbind⟩
  · -- the new one, on the binding `bfd_get_iface` found
    refine .inr ⟨by have := h.nextId; omega, hcore, ?_⟩
    rcases bfdGetIface_cases c sn'.engine localAddr iface with e | ⟨j, snj, hj, hsj, hjl, hji, hjc⟩
    · exact .inl (hcf.trans (e.trans (by rw [h.cf, hif])))
    · have he : snj.engine = sn'.engine := h.inv.core.registry.engine_of _ j snj hj hsj
      rcases h.sess j snj hsj with ⟨sn₀, hb, e₀⟩ | ⟨-, -, hbind⟩
      · rw [e₀] at he hjl hji hjc
        exact .inr ⟨j, sn₀, hb, he, hjl.trans hl.symm, hji.trans hif.symm, hjc.trans hcf.symm⟩
      · rw [he, hjl, hji, hjc, ← hcf, ← hl, ← hif] at hbind
        exact hbind

theorem Made.foldl (h : Made now b c) (vrf : Option Nat) (ids : List Nat) (l : List RequestArgs) :
    Made now b (l.foldl (Broker.makeRequest vrf now) (c, ids)).1 := by
  induction l generalizing c ids with
  | nil => exact h
  | cons a l ih => exact ih (h.requestSession a.addr a.localAddr a.iface vrf) _

/-- The broker's side of `bfd_reconfigure` of engine `p` to the configuration `nc`: the binding
and session walks, the neighbour walk's releases of the handles `frees` and its makes `makes`
(handle `h` names request `ids[h]`), and last the new configuration. -/
def reconfigureEngine (b : Broker) (p : Nat) (nc : BfdConfig) (vrf : Option Nat) (now : ℕ+)
    (ids frees : List Nat) (makes : List RequestArgs) : Broker × List Nat :=
  let b := (b.engines p).sessions.foldl (reconfigureBinding nc now) b
  let b := frees.foldl (releaseHandle ids) b
  let bi := makes.foldl (makeRequest vrf now) (b, ids)
  (bi.1.setEngine p { bi.1.engines p with cf := nc }, bi.2)

/-- A session of `b` after the binding walk of engine `p`: its turn if it is `p`'s. -/
theorem Registry.bindingWalk (h : Registry b) (p : Nat) (hs : b.sess j = some sn) :
    ((b.engines p).sessions.foldl (reconfigureBinding nc now) b).sess j =
      some (sn.turn p nc now (b.headOpts j)) := by
  rw [(foldl_reconfigureBinding nc now _ b).2.2.2 j, hs]
  by_cases he : sn.engine = p
  · simp [SessionNode.turn, he, he ▸ h.registered j sn hs]
  · have hj : j ∉ (b.engines p).sessions := fun hm => he (h.engine_of p j sn hm hs)
    simp [SessionNode.turn, he, hj]

/-- Over `bfd_reconfigure`'s calls from a reachable broker with the notifier idle, whatever
the neighbour walk releases and makes: a session kept has its binding's new configuration if
it is the engine's, and runs with it merged with its old head's options exactly when it ran so
with the old one or its binding was marked; a session made is new, with no options, on a
binding of its own with the configuration its engine's configuration picked, or on the binding
of a session there was, with that one's configuration after the binding walk. -/
theorem reconfigureEngine_sess (hb : b.Reachable) (hi : b.notifier = .idle) (p : Nat)
    (nc : BfdConfig) (vrf : Option Nat) (ids frees : List Nat) (makes : List RequestArgs)
    (hs : (b.reconfigureEngine p nc vrf now ids frees makes).1.sess i = some sn') :
    (∃ sn, b.sess i = some sn ∧
      sn'.ifaceCf = (if sn.engine = p then nc.ifaceConfig sn.iface else sn.ifaceCf) ∧
      (∀ o, b.headOpts i = some o → (sn'.RunsWith o ↔ sn.RunsWith o ∨
        sn.engine = p ∧ ifaceChanged (nc.ifaceConfig sn.iface) sn.ifaceCf = true)) ∧
      (FollowsConfig sn.core → FollowsConfig sn'.core)) ∨
    (b.nextId ≤ i ∧ sn'.core = Bfd.bfdAddSession (bfdMergeOptions sn'.ifaceCf {}) now ∧
      (sn'.ifaceCf = (b.engines sn'.engine).cf.ifaceConfig sn'.iface ∨
        ∃ j sn, b.sess j = some sn ∧ sn.engine = sn'.engine ∧ sn.localAddr = sn'.localAddr ∧
          sn.iface = sn'.iface ∧
          sn'.ifaceCf = (if sn.engine = p then nc.ifaceConfig sn.iface else sn.ifaceCf))) := by
  have h₀ := hb.inv
  obtain ⟨-, hAe, hAn, -⟩ := foldl_reconfigureBinding nc now (b.engines p).sessions b
  have hA : Released ((b.engines p).sessions.foldl (reconfigureBinding nc now) b)
      ((b.engines p).sessions.foldl (reconfigureBinding nc now) b) :=
    ⟨h₀.foldl_reconfigureBinding _, by rw [foldl_reconfigureBinding_notifier, hi],
      Relisted.refl _, le_rfl, fun _ => rfl⟩
  have hB := hA.foldl ids frees
  have hC := (show Made now (frees.foldl (releaseHandle ids) _) _ from
    ⟨hB.inv, le_rfl, fun _ => rfl, fun _ sn h => .inl ⟨sn, h, rfl⟩⟩).foldl vrf ids makes
  -- a session there is before the makes is one of `b` after its turn of the binding walk
  have hold : ∀ j sn₁, (frees.foldl (releaseHandle ids)
      ((b.engines p).sessions.foldl (reconfigureBinding nc now) b)).sess j = some sn₁ →
      ∃ sn, b.sess j = some sn ∧
        sn₁ = { sn.turn p nc now (b.headOpts j) with requestList := sn₁.requestList } :=
    fun j sn₁ h => by
      obtain ⟨snA, hA', e⟩ := hB.relisted j sn₁ h
      cases hs' : b.sess j with
      | none => simp [(foldl_reconfigureBinding nc now _ b).2.2.2 j, hs'] at hA'
      | some sn =>
        rw [h₀.core.registry.bindingWalk p hs', Option.some.injEq] at hA'
        exact ⟨sn, rfl, hA' ▸ e⟩
  rcases hC.sess i sn' hs with ⟨snB, hbB, e⟩ | ⟨hi', hcore, hbind⟩
  · -- a session of `b`
    obtain ⟨sn, hb', e'⟩ := hold i snB hbB
    rw [e'] at e
    refine .inl ⟨sn, hb', by rw [e]; exact SessionNode.turn_ifaceCf, fun o ho => ?_,
      fun hf => by rw [e]; exact SessionNode.followsConfig_turn hf⟩
    rw [e, ho]
    exact SessionNode.turn_runsWith
  · -- a session the neighbour walk made
    refine .inr ⟨le_trans (hAn ▸ hB.nextId) hi', hcore, ?_⟩
    rcases hbind with hown | ⟨j, snB, hbB, he, hl, hif, hc⟩
    · exact .inl (by rw [hown, hB.cf, hAe])
    · obtain ⟨sn, hb', e'⟩ := hold j snB hbB
      rw [e'] at he hl hif hc
      simp only [SessionNode.turn_engine, SessionNode.turn_localAddr, SessionNode.turn_iface] at he hl hif
      exact .inr ⟨j, sn, hb', he, hl, hif, hc.symm.trans SessionNode.turn_ifaceCf⟩

end Broker

/-! ## The reconfiguration -/

/-- A running BFD protocol as `bfd_reconfigure` reads it: its engine in the broker, its
configuration `p->p.cf`, the neighbours of its configuration, and the broker request each
neighbour request handle names. -/
structure ProtoState where
  engine : Nat
  cf : ProtoConfig
  neigh : NState
  reqIds : List Nat

/-- `bfd_reconfigure` of protocol `ps` in broker `b`, `none` where the new configuration needs
a restart. Every binding of the engine takes the new configuration and its sessions are
reconfigured where it changed; then the neighbour walk runs through the broker, its outer walk
releasing the requests of the old neighbours it stops, its last walk making the requests of
the new neighbours it starts. Once it returns, the protocol core makes the new configuration
the running one. -/
def bfdReconfigure (c : NeighCache) (now : ℕ+) (nc : ProtoConfig) (ps : ProtoState) (b : Broker) :
    Option (ProtoState × Broker) :=
  if needsRestart nc ps.cf then none
  else
    let st := { ps.neigh with new := nc.neighbors.map NeighborConfig.toNeighbor }
    let st₁ := (List.range st.old.length).foldl NState.reconfigureOne st
    let st₂ := (List.range st₁.new.length).foldl (NState.startIfInactive c) st₁
    let bi := b.reconfigureEngine ps.engine nc.toBfdConfig ps.cf.vrf now ps.reqIds
      (st₁.freed.drop st.freed.length) (st₂.made.drop st₁.made.length)
    some (⟨ps.engine, nc, st₂.commit, bi.2⟩, bi.1)

/-- A reconfiguration that needs no restart returns. Afterwards a session the engine had runs
with its binding's new configuration merged with the options of the head request it had at the
call exactly when it ran with its old one so or its binding was marked, and its stashed
intervals keep following its options; the other sessions keep their bindings and cores. A
session the neighbour walk made is a new session with no options, on a binding it shares with
a session of its engine before the call, with that binding's configuration after the call, or
on a binding of its own, with the configuration the engine's configuration before the call
picks. -/
theorem reconfigure_keeps_sessions_in_sync (c : NeighCache) (now : ℕ+) (nc : ProtoConfig)
    (ps : ProtoState) {b : Broker} (hb : b.Reachable) (hi : b.notifier = .idle)
    (hr : needsRestart nc ps.cf = false) :
    ∃ ps' b', bfdReconfigure c now nc ps b = some (ps', b') ∧
      ∀ i sn', b'.sess i = some sn' →
        (∃ sn, b.sess i = some sn ∧
          sn'.ifaceCf = (if sn.engine = ps.engine then nc.ifaceConfig sn.iface else sn.ifaceCf) ∧
          (∀ o, b.headOpts i = some o → (sn'.RunsWith o ↔ sn.RunsWith o ∨
            sn.engine = ps.engine ∧ ifaceChanged (nc.ifaceConfig sn.iface) sn.ifaceCf = true)) ∧
          (FollowsConfig sn.core → FollowsConfig sn'.core)) ∨
        (b.nextId ≤ i ∧ sn'.core = Bfd.bfdAddSession (bfdMergeOptions sn'.ifaceCf {}) now ∧
          (sn'.ifaceCf = (b.engines sn'.engine).cf.ifaceConfig sn'.iface ∨
            ∃ j sn, b.sess j = some sn ∧ sn.engine = sn'.engine ∧ sn.localAddr = sn'.localAddr ∧
              sn.iface = sn'.iface ∧ sn'.ifaceCf =
                (if sn.engine = ps.engine then nc.ifaceConfig sn.iface else sn.ifaceCf))) := by
  simp only [bfdReconfigure, hr, Bool.false_eq_true, if_false]
  exact ⟨_, _, rfl, fun i sn' hs => Broker.reconfigureEngine_sess hb hi _ _ _ _ _ _ hs⟩

section Example

open Broker

/-- Engine 0 of the example run, with no neighbours. -/
def openProto : ProtoState :=
  ⟨0, { openConfig with strictBind := false, zeroUdp6ChecksumRx := false, neighbors := [] },
    ⟨[], [], fun _ => none, [], []⟩, []⟩

/-- The example configuration with intervals of 50 ms and a multihop neighbour for address 9
from local address 5. -/
def fastConfig : ProtoConfig :=
  { openConfig with
    ifaceConfig := fun _ => ⟨50, 50, 1000, 3, false, 0, 0⟩
    strictBind := false
    zeroUdp6ChecksumRx := false
    neighbors := [⟨9, 5, none, true⟩] }

/-- A neighbour cache with no entries. -/
def emptyCache : NeighCache := ⟨fun _ _ => none, fun _ => false, fun _ => 0, fun _ => none⟩

theorem reconfigure_keeps_sessions_in_sync_fast :
    (init.run attachRun).notifier = .idle ∧ needsRestart fastConfig openProto.cf = false ∧
    ∃ ps' b', bfdReconfigure emptyCache 1 fastConfig openProto (init.run attachRun) =
        some (ps', b') ∧
      ∀ i sn', b'.sess i = some sn' →
        (∃ sn, (init.run attachRun).sess i = some sn ∧
          sn'.ifaceCf = (if sn.engine = openProto.engine then fastConfig.ifaceConfig sn.iface
            else sn.ifaceCf) ∧
          (∀ o, (init.run attachRun).headOpts i = some o → (sn'.RunsWith o ↔ sn.RunsWith o ∨
            sn.engine = openProto.engine ∧
              ifaceChanged (fastConfig.ifaceConfig sn.iface) sn.ifaceCf = true)) ∧
          (FollowsConfig sn.core → FollowsConfig sn'.core)) ∨
        ((init.run attachRun).nextId ≤ i ∧
          sn'.core = Bfd.bfdAddSession (bfdMergeOptions sn'.ifaceCf {}) 1 ∧
          (sn'.ifaceCf = ((init.run attachRun).engines sn'.engine).cf.ifaceConfig sn'.iface ∨
            ∃ j sn, (init.run attachRun).sess j = some sn ∧ sn.engine = sn'.engine ∧
              sn.localAddr = sn'.localAddr ∧ sn.iface = sn'.iface ∧ sn'.ifaceCf =
                (if sn.engine = openProto.engine then fastConfig.ifaceConfig sn.iface
                  else sn.ifaceCf))) :=
  ⟨rfl, rfl, reconfigure_keeps_sessions_in_sync emptyCache 1 fastConfig openProto
    ⟨attachRun, rfl⟩ rfl rfl⟩

/-- Session 2 takes the new intervals, while session 4, made for the new neighbour on a binding
of its own, takes those of the configuration before the call. -/
example : ((bfdReconfigure emptyCache 1 fastConfig openProto (init.run attachRun)).map fun x =>
      ((x.2.sess 2).map (·.ifaceCf), (x.2.sess 4).map (·.ifaceCf))) =
    some (some (fastConfig.ifaceConfig none), some (openConfig.ifaceConfig none)) := by
  rfl

end Example

end Bfd
