import Bfd.BrokerQueues
import Bfd.RegistryInv

/-! # The indexes of a running engine

What `bfd_add_request` and `bfd_remove_session` keep of an engine's indexes, over every run
of the broker: the sessions an engine registers have pairwise distinct keys `(addr, ifindex)`,
because `bfd_add_request` looks the key up before it makes a session. With the queue
invariant (`Queued`: every session on the engine's notify list or on the notifier's local list
is a linked session of that engine, queued once) and the registry's invariant (`Tables.Inv`)
this is what a running engine's indexes satisfy. -/
namespace Bfd

namespace Broker

variable {b b' : Broker}

/-- The engines' indexes: the registered sessions of an engine have distinct keys, and
identifiers at or past the counter are in no registry. -/
structure Indexed (b : Broker) : Prop where
  keys : ∀ p, ∀ i ∈ (b.engines p).sessions, ∀ j ∈ (b.engines p).sessions, ∀ x y,
    b.shapeOf i = some x → b.shapeOf j = some y → x.addr = y.addr → x.ifindex = y.ifindex → i = j
  sessionsLt : ∀ p, ∀ i ∈ (b.engines p).sessions, i < b.nextId

/-- A step that registers no session and changes no session's engine or key keeps the
indexes; a session it frees may stay registered nowhere. -/
theorem Indexed.of_frame (h : Indexed b)
    (hs : ∀ p, (b'.engines p).sessions ⊆ (b.engines p).sessions)
    (hsh : ∀ i, i < b.nextId → b'.shapeOf i = b.shapeOf i ∨ b'.shapeOf i = none)
    (hn : b.nextId ≤ b'.nextId) : Indexed b' where
  keys p i hi' j hj x y hx hy := by
    have hx' : b.shapeOf i = some x := by
      rcases hsh i (h.sessionsLt p i (hs p hi')) with e | e <;> rw [e] at hx
      exacts [hx, by cases hx]
    have hy' : b.shapeOf j = some y := by
      rcases hsh j (h.sessionsLt p j (hs p hj)) with e | e <;> rw [e] at hy
      exacts [hy, by cases hy]
    exact h.keys p i (hs p hi') j (hs p hj) x y hx' hy'
  sessionsLt p i hm := lt_of_lt_of_le (h.sessionsLt p i (hs p hm)) hn

/-- A step that leaves the registries and every session's engine and key alone. -/
theorem Indexed.congr (h : Indexed b) (hs : ∀ p, (b'.engines p).sessions = (b.engines p).sessions)
    (hsh : ∀ i, b'.shapeOf i = b.shapeOf i) (hn : b.nextId ≤ b'.nextId) : Indexed b' :=
  h.of_frame (fun p => (hs p) ▸ List.Subset.refl _) (fun i _ => Or.inl (hsh i)) hn

/-- `IxOk f`: `f` keeps the indexes, from any broker. -/
def IxOk (f : Broker → Broker) : Prop := ∀ b, Indexed b → Indexed (f b)

/-! ## Request lists and requests -/

theorem Indexed.setReq (h : Indexed b) (r : Nat) (x : Option Request) : Indexed (b.setReq r x) :=
  h.congr (fun _ => rfl) (fun _ => rfl) le_rfl

theorem Indexed.bumpId (h : Indexed b) : Indexed { b with nextId := b.nextId + 1 } :=
  h.congr (fun _ => rfl) (fun _ => rfl) (Nat.le_succ _)

theorem Indexed.remNode (h : Indexed b) (r : Nat) : Indexed (b.remNode r) :=
  h.congr (fun p => by rw [remNode_engines]) (fun j => by rw [shapeOf, remNode_infoOf]; rfl)
    (by rw [remNode_nextId])

theorem moveTo_infoOf_any (r : Nat) (s : Option Nat) (j : Nat) :
    (b.moveTo r s).infoOf j = b.infoOf j := by
  cases hr : b.reqs r with
  | some req => exact moveTo_infoOf hr j
  | none =>
    have : b.moveTo r s = b.remNode r := by simp [moveTo, hr]
    rw [this, remNode_infoOf]

theorem Indexed.moveTo (h : Indexed b) (r : Nat) (s : Option Nat) : Indexed (b.moveTo r s) :=
  h.congr (fun p => by rw [moveTo_engines]) (fun j => by rw [shapeOf, moveTo_infoOf_any]; rfl)
    (by rw [moveTo_nextId])

theorem Indexed.reconfigureSession (h : Indexed b) (i : Nat) (now : ℕ+) :
    Indexed (b.bfdReconfigureSession i now) := by
  unfold bfdReconfigureSession
  split
  · next sn hs =>
    split
    · split
      · refine h.congr (fun _ => rfl) (fun j => ?_) le_rfl
        by_cases hj : j = i
        · subst hj; simp [shapeOf, infoOf, hs, SessionNode.info, SessionInfo.shape]
        · simp [shapeOf, infoOf, Function.update_noteq hj]
      · exact h
    · exact h
  · exact h

/-! ## Sessions -/

/-- `bfd_add_request`'s lookup: a session is made only for a key no session of the engine
has, under a fresh identifier, unlinked. -/
theorem Indexed.findOrAdd (h : Indexed b) (p : Nat) (req : Request) (now : ℕ+) :
    Indexed (b.findOrAddSession p req now).1 := by
  unfold findOrAddSession
  split
  · exact h
  next hfind =>
    have hold : ∀ j, j < b.nextId → (b.bfdAddSession p req now).1.infoOf j = b.infoOf j :=
      fun j hj => by simp only [infoOf, addSession_sess_old (Nat.ne_of_lt hj)]
    obtain ⟨sn, hsn, hsp, hsa, hsi, -⟩ := addSession_sess_new b p req now
    -- no session of `p` had the key
    have hfree : ∀ j ∈ (b.engines p).sessions, ∀ y, b.shapeOf j = some y → y.addr = req.addr →
        y.ifindex = req.ifindex → False := fun j hj y hy ha hi => by
      obtain ⟨x, hx, rfl⟩ := Option.map_eq_some'.1 hy
      obtain ⟨sn', hs', rfl⟩ := Option.map_eq_some'.1 hx
      exact List.find?_eq_none.1 hfind j hj (by simp [hs', SessionNode.info, SessionInfo.shape] at ha hi ⊢; simp [ha, hi])
    have hnew : (b.bfdAddSession p req now).1.shapeOf b.nextId = some ⟨p, req.addr, req.ifindex⟩ := by
      simp [shapeOf, infoOf, hsn, SessionNode.info, SessionInfo.shape, hsp, hsa, hsi]
    refine ⟨fun q i hi j hj x y hx hy ha hif => ?_, fun q i hi => ?_⟩
    · rcases addSession_mem hi with hi' | ⟨rfl, rfl⟩ <;>
        rcases addSession_mem hj with hj' | ⟨hqp, rfl⟩
      · rw [shapeOf, hold i (h.sessionsLt _ i hi')] at hx
        rw [shapeOf, hold j (h.sessionsLt _ j hj')] at hy
        exact h.keys q i hi' j hj' x y hx hy ha hif
      · rw [hnew] at hy; cases hy
        rw [shapeOf, hold i (h.sessionsLt _ i hi')] at hx
        exact (hfree i (hqp ▸ hi') x hx ha hif).elim
      · rw [hnew] at hx; cases hx
        rw [shapeOf, hold j (h.sessionsLt _ j hj')] at hy
        exact (hfree j hj' y hy ha.symm hif.symm).elim
      · rfl
    · rcases addSession_mem hi with hi' | ⟨-, rfl⟩
      · simp only [addSession_nextId]; exact Nat.lt_succ_of_lt (h.sessionsLt q i hi')
      · simp

/-- `bfd_remove_session`: the session leaves its engine's registry. -/
theorem Indexed.removeSession (h : Indexed b) (i : Nat) : Indexed (b.bfdRemoveSession i) := by
  cases hs : b.sess i with
  | none => simpa [bfdRemoveSession, hs] using h
  | some sn =>
    refine h.of_frame (fun p => ?_) (fun j _ => ?_) (by rw [removeSession_nextId])
    · rw [removeSession_sessions hs]; split_ifs
      exacts [fun _ hm => List.mem_of_mem_erase hm, List.Subset.refl _]
    · by_cases hj : j = i
      · subst hj; right; simp [shapeOf, infoOf, removeSession_sess hs]
      · left; simp [shapeOf, infoOf, removeSession_sess_old hs hj]

/-! ## Request operations -/

section Requests
variable {hook : Broker → Broker} {now : ℕ+}

theorem ixOk_foldl {α : Type} (f : Broker → α → Broker) (hf : ∀ a, IxOk fun b => f b a) :
    ∀ (l : List α) (b : Broker), Indexed b → Indexed (l.foldl f b)
  | [], _, h => h
  | a :: l, b, h => ixOk_foldl f hf l _ (hf a b h)

theorem Indexed.requestNotify (h : Indexed b) (hk : IxOk hook) (r : Nat) (st rem : BfdState)
    (diag : Nat) : Indexed (b.bfdRequestNotify r st rem diag hook) := by
  unfold bfdRequestNotify
  split
  · exact h
  · split_ifs
    exacts [h, hk _ (h.setReq _ _)]

theorem Indexed.notifyOfSession (h : Indexed b) (hk : IxOk hook) (r i : Nat) :
    Indexed (b.notifyOfSession r i hook) := by
  unfold Broker.notifyOfSession; split
  exacts [h.requestNotify hk _ _ _ _, h]

theorem Indexed.addRequest (h : Indexed b) (hk : IxOk hook) {p r : Nat} {b' : Broker}
    (ha : b.bfdAddRequest p r hook now = some b') : Indexed b' := by
  unfold bfdAddRequest at ha
  split at ha
  · cases ha
  · split_ifs at ha
    cases ha
    exact ((h.findOrAdd p _ now).moveTo r _).notifyOfSession hk r _

theorem ixOk_submit (hk : IxOk hook) (r : Nat) : IxOk fun b => b.bfdSubmitRequest r hook now := by
  intro b h
  show Indexed (bfdSubmitRequest.go b r hook now b.protoList)
  generalize b.protoList = l
  induction l with
  | nil => exact (h.moveTo r none).requestNotify hk r _ _ _
  | cons p ps ih =>
    simp only [bfdSubmitRequest.go]
    split
    · exact h.addRequest hk ‹_›
    · exact ih

theorem Indexed.requestFree (h : Indexed b) (r : Nat) : Indexed (b.bfdRequestFree r) := by
  unfold bfdRequestFree
  split
  · exact h
  · have h' := (h.remNode r).setReq r none
    dsimp only
    split
    · split
      · split_ifs
        exacts [h'.removeSession _, h']
      · exact h'
    · exact h'

theorem Indexed.requestSession (h : Indexed b) (addr localAddr : Nat) (iface vrf : Option Nat)
    (opts : BfdOptions) (now : ℕ+) :
    Indexed (b.bfdRequestSession addr localAddr iface vrf opts now) :=
  ixOk_submit (fun _ => id) _ _ (h.bumpId.setReq _ _)

theorem Indexed.updateRequest (h : Indexed b) (r : Nat) (opts : BfdOptions) (now : ℕ+) :
    Indexed (b.bfdUpdateRequest r opts now) := by
  unfold bfdUpdateRequest
  split
  · exact h
  · split_ifs
    · exact h
    · split
      exacts [(h.setReq _ _).reconfigureSession _ _, h.setReq _ _]

theorem ixOk_runHook (r : Nat) (acts : List HookAct) : IxOk (runHook r acts now) :=
  ixOk_foldl _ (fun act b h => by
    cases act
    exacts [h.requestSession _ _ _ _ _ _, h.updateRequest _ _ _, h.requestFree r]) acts

end Requests

/-! ## Engines -/

theorem Indexed.takeRequests (h : Indexed b) (p : Nat) (plan : Nat → List HookAct) (now : ℕ+) :
    Indexed (b.bfdTakeRequests p plan now) :=
  ixOk_foldl _ (fun r b h => by
    dsimp only
    cases ha : b.bfdAddRequest p r (runHook r (plan r) now) now with
    | none => exact h
    | some b' => exact h.addRequest (ixOk_runHook r (plan r)) ha) _ _ h

theorem Indexed.dropRequests (h : Indexed b) (p : Nat) (plan : Nat → List HookAct) (now : ℕ+) :
    Indexed (b.bfdDropRequests p plan now) :=
  ixOk_foldl _ (fun _ _ h => ixOk_foldl _ (fun r => ixOk_submit (ixOk_runHook r (plan r)) r) _ _ h)
    _ _ h

/-- `bfd_start`: the new engine's registry and notify list are empty. -/
theorem Indexed.start (h : Indexed b) (cf : BfdConfig) (plan : Nat → List HookAct) (now : ℕ+) :
    Indexed (b.bfdStart cf plan now) := by
  unfold bfdStart
  refine Indexed.takeRequests ?_ _ _ _
  refine h.of_frame (fun q => ?_) (fun _ _ => Or.inl rfl) (Nat.le_succ _)
  simp only [setEngine_engines, Function.update_apply]
  split_ifs
  exacts [List.nil_subset _, List.Subset.refl _]

theorem Indexed.shutdown (h : Indexed b) (p : Nat) (plan : Nat → List HookAct) (now : ℕ+) :
    Indexed (b.bfdShutdown p plan now) := by
  unfold bfdShutdown
  refine Indexed.dropRequests ?_ _ _ _
  exact h.congr (fun _ => rfl) (fun _ => rfl) le_rfl

/-! ## The BFD thread and the notifier -/

/-- A write of a session that keeps its engine and key. -/
theorem Indexed.setSess (h : Indexed b) {i : Nat} {sn : SessionNode} (hs : b.sess i = some sn)
    (sn' : SessionNode) (he : sn'.engine = sn.engine) (ha : sn'.addr = sn.addr)
    (hif : sn'.ifindex = sn.ifindex) : Indexed (b.setSess i (some sn')) :=
  h.congr (fun _ => rfl) (fun j => by
    by_cases hj : j = i
    · subst hj; simp [shapeOf, infoOf, hs, SessionNode.info, SessionInfo.shape, he, ha, hif]
    · simp [shapeOf, infoOf, Function.update_noteq hj]) le_rfl

/-- A write of an engine's lists and flags. -/
theorem Indexed.setEngine (h : Indexed b) (p : Nat) {e : Engine}
    (hs : e.sessions = (b.engines p).sessions) : Indexed (b.setEngine p e) :=
  h.congr (fun q => by by_cases hqp : q = p <;> simp [hqp, hs, Function.update_noteq]) (fun _ => rfl)
    le_rfl

theorem Indexed.setNotifier (h : Indexed b) (n : Notifier) : Indexed { b with notifier := n } :=
  h.congr (fun _ => rfl) (fun _ => rfl) le_rfl

/-- The BFD thread changes a session's core and, when it links, its engine's notify list. -/
theorem Indexed.threadStep (h : Indexed b) (p i : Nat) (now : ℕ+) (ev : SessionEvent) :
    Indexed (b.threadStep p i now ev) := by
  unfold Broker.threadStep
  split
  · next sn hs =>
    have h1 := h.setSess hs { sn with core := sessionStep sn.core now ev } rfl rfl rfl
    split_ifs
    · dsimp only; split_ifs
      exacts [h1.setEngine p rfl, h1]
    · exact h
  · exact h

theorem Indexed.drain (h : Indexed b) (p : Nat) : Indexed (b.notifyDrain p) :=
  (h.setEngine p (e := { b.engines p with pipe := false }) rfl).setNotifier _

theorem Indexed.splice (h : Indexed b) (p : Nat) : Indexed (b.notifySplice p) :=
  (h.setEngine p (e := { b.engines p with notifyList := [] }) rfl).setNotifier _

theorem Indexed.pick (h : Indexed b) (p : Nat) : ∀ tmp, Indexed (b.notifyPick p tmp)
  | [] => h.setNotifier _
  | i :: tmp => by
    rw [notifyPick]
    split
    · next sn hs =>
      exact (h.setSess hs { sn with core := { sn.core with linked := false }, notifyRunning := true }
        rfl rfl rfl).setNotifier _
    · exact h.setNotifier _

theorem Indexed.deliver (h : Indexed b) {p i n : Nat} {tmp : List Nat}
    {snap : BfdState × BfdState × Nat} (acts : List HookAct) (now : ℕ+) :
    Indexed (b.notifyDeliver p tmp i snap n acts now) :=
  (h.setNotifier _).requestNotify (ixOk_runHook n acts) _ _ _ _

theorem Indexed.finish (h : Indexed b) (p : Nat) (tmp : List Nat) (i : Nat) :
    Indexed (b.notifyFinish p tmp i) := by
  unfold notifyFinish
  split
  · next sn hs =>
    have h' : Indexed { b.setSess i (some { sn with notifyRunning := false }) with
        notifier := .walking p tmp } :=
      (h.setSess hs { sn with notifyRunning := false } rfl rfl rfl).setNotifier _
    dsimp only
    split_ifs
    exacts [h'.removeSession i, h']
  · exact h.setNotifier _

/-! ## Runs -/

theorem Indexed.init : Indexed init where
  keys _ _ h := by simp [Broker.init, Engine.unused] at h
  sessionsLt _ _ h := by simp [Broker.init, Engine.unused] at h

theorem Indexed.step (h : Indexed b) (a : Action) : Indexed (b.step a) := by
  cases a with
  | thread p i now ev => simp only [Broker.step]; split; exacts [h.threadStep p i now ev, h]
  | kick p => simp only [Broker.step]; split; exacts [h.setEngine p rfl, h]
  | drain p => simp only [Broker.step]; split; exacts [h.drain p, h]
  | splice => simp only [Broker.step]; split; exacts [h.splice _, h]
  | pick => simp only [Broker.step]; split; exacts [h.pick _ _, h]
  | deliver acts now => simp only [Broker.step]; split; exacts [h.deliver acts now, h]
  | finish => simp only [Broker.step]; split; exacts [h.finish _ _ _, h]
  | request addr localAddr iface vrf opts now =>
    simp only [Broker.step]; split; exacts [h.requestSession addr localAddr iface vrf opts now, h]
  | update r opts now => simp only [Broker.step]; split; exacts [h.updateRequest r opts now, h]
  | free r => simp only [Broker.step]; split; exacts [h.requestFree r, h]
  | start cf plan now => simp only [Broker.step]; split; exacts [h.start cf plan now, h]
  | shutdown p plan now => simp only [Broker.step]; split; exacts [h.shutdown p plan now, h]

/-- Every reachable broker keeps the engines' indexes. -/
theorem Reachable.indexed (hb : b.Reachable) : Indexed b := by
  obtain ⟨as, rfl⟩ := hb
  suffices ∀ b, Indexed b → Indexed (b.run as) from this _ Indexed.init
  induction as with
  | nil => exact fun _ h => h
  | cons a as ih => exact fun b h => ih _ (h.step a)

/-- Engine `p`'s indexes: its sessions have pairwise distinct keys, and every session on its
notify list or on the notifier's local list is one of them. -/
def EngineIndexed (b : Broker) (p : Nat) : Prop :=
  (∀ i ∈ (b.engines p).sessions, ∀ j ∈ (b.engines p).sessions, ∃ sn sn',
    b.sess i = some sn ∧ b.sess j = some sn' ∧
    (sn.addr = sn'.addr → sn.ifindex = sn'.ifindex → i = j)) ∧
  ∀ i ∈ (b.engines p).notifyList ++ b.notifier.tmpOf p, i ∈ (b.engines p).sessions

/-- The registry's keys come from `Indexed`; that a queued session is registered comes from
`Queued`, which makes it a live session of the engine, and the registry. -/
theorem Indexed.engineIndexed (h : Indexed b) (hq : Queued b) (hr : Registry b) (p : Nat) :
    b.EngineIndexed p := by
  have hsess : ∀ i ∈ (b.engines p).sessions, ∃ sn, b.sess i = some sn :=
    fun i hm => Option.ne_none_iff_exists'.1 (hr.live p i hm)
  refine ⟨fun i hm j hm' => ?_, fun i hi => ?_⟩
  · obtain ⟨⟨sn, hs⟩, ⟨sn', hs'⟩⟩ := And.intro (hsess i hm) (hsess j hm')
    exact ⟨sn, sn', hs, hs', h.keys p i hm j hm' (SessionInfo.shape sn.info) (SessionInfo.shape sn'.info) (by simp [shapeOf, infoOf, hs])
      (by simp [shapeOf, infoOf, hs'])⟩
  · obtain ⟨sn, hs, e⟩ := Option.map_eq_some'.1 (hq.linked p i hi)
    obtain ⟨rfl, -⟩ := Prod.mk.inj e
    exact hr.registered i sn hs

/-- The indexes of a running engine, at every reachable state: in the registry after any
creations through `bfd_add_request` and any removals, and in the broker after any
interleaving of requests, releases, the BFD thread and the notifier's dispatches. -/
theorem engine_indexes_consistent (ops : List RegOp) (hops : ∀ o ∈ ops, o.viaRequest = true)
    (b : Broker) (hb : b.Reachable) :
    (Tables.empty.run ops).IndexesAgree ∧ ∀ p, b.EngineIndexed p :=
  ⟨(Tables.inv_empty.run ops).indexesAgree (Tables.keysUnique_empty.run Tables.inv_empty ops hops),
    hb.indexed.engineIndexed hb.queued hb.inv.core.registry⟩

/-- At one request's session, and a registry that made two sessions and removed one. -/
theorem engine_indexes_consistent_attached :
    (∀ o ∈ [RegOp.addRequest 1 0 none 7, .addRequest 2 0 none 7, .removeSession 0],
        o.viaRequest = true) ∧ (init.run attachRun).Reachable ∧
      (Tables.empty.run [.addRequest 1 0 none 7, .addRequest 2 0 none 7, .removeSession 0]).IndexesAgree ∧
      ∀ p, (init.run attachRun).EngineIndexed p :=
  ⟨by decide, ⟨_, rfl⟩, engine_indexes_consistent _ (by decide) _ ⟨_, rfl⟩⟩

end Broker

end Bfd
