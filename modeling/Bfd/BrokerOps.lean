import Bfd.BrokerInv

/-! # The request operations keep the invariant

`bfd_add_request`, `bfd_submit_request`, `bfd_request_session`, `bfd_update_request` and
`bfd_request_free`, with the hooks they call. A request moves between lists through
`moveTo`, which keeps every component of the invariant given where the request goes; a
session `bfd_add_request` makes is empty only until the request joins it. -/
namespace Bfd

namespace Notifier

theorem mem_pendingOf {n : Notifier} {i q : Nat} {l : List Nat} :
    q ∈ n.pendingOf i l ↔ ∃ c, n.dispatched = some i ∧ n.cursor = some c ∧ q ∈ suffixFrom c l := by
  cases n with
  | dispatching p tmp j snap cur =>
    cases cur <;> by_cases hj : j = i <;> simp [pendingOf, dispatched, cursor, hj]
  | _ => simp [pendingOf, dispatched]

end Notifier

namespace Broker

variable {b : Broker} {r : Nat} {req : Request} {s : Option Nat} {ex : Nat → Nat → Prop}

/-- A list a request can join: the wait list, or a live session's. -/
def Target (b : Broker) (s : Option Nat) : Prop := ∀ i, s = some i → b.sess i ≠ none

/-- Request `r` can leave its list without emptying a session of a running engine: it waits,
is new, or sits in a live session of a stopped engine. -/
def Detachable (b : Broker) (r : Nat) : Prop :=
  ∀ i, b.ptr r = some (some i) → ∃ sn, b.sess i = some sn ∧ sn.engine ∉ b.protoList

/-- The core invariant while request `r` is being placed: `r` may be on no list and where it
may not stay, and session `i`, which `bfd_add_session` has just made, may be empty. -/
structure Staged (b : Broker) (ex : Nat → Nat → Prop) (r : Nat) (i : Option Nat) : Prop where
  lists : ListsOff b r
  fresh : Fresh b
  registry : Registry b
  walk : Walk b
  placed : ∀ q req, q ≠ r → b.reqs q = some req → b.PlacedAt ex q req
  nonempty : ∀ j sn, i ≠ some j → b.sess j = some sn → sn.engine ∈ b.protoList →
    sn.requestList ≠ [] ∨ sn.notifyRunning = true
  removed : ∀ sn ∈ b.removedLog, sn.requestList = [] ∧ sn.notifyRunning = false
  notified : Notified b

theorem Core.staged (h : Core b ex) (r : Nat) : Staged b ex r none :=
  ⟨h.lists.off r, h.fresh, h.registry, h.walk, fun q req _ => h.placed q req,
    fun j sn _ => h.populated.nonempty j sn, h.populated.removed, h.notified⟩

theorem Staged.any (h : Staged b ex r none) (i : Option Nat) : Staged b ex r i :=
  { h with nonempty := fun j sn _ => h.nonempty j sn (by simp) }

/-! ## Moving a request -/

section MoveTo
variable (hr : b.reqs r = some req)
include hr

theorem Fresh.moveTo (h : Fresh b) : Fresh (b.moveTo r s) :=
  h.congr (fun q hq => by rw [moveTo_reqs hr, Function.update_noteq (by rintro rfl; simp [hr] at hq)]; exact hq)
    (shapeOf_congr (moveTo_infoOf hr)) (moveTo_protoList s) (moveTo_nextId s)

theorem Registry.moveTo (h : Registry b) : Registry (b.moveTo r s) :=
  h.congr (shapeOf_congr (moveTo_infoOf hr)) (fun _ => by rw [moveTo_engines]) (moveTo_protoList s)

theorem Notified.moveTo (h : Notified b) : Notified (b.moveTo r s) :=
  h.congr (moveTo_infoOf hr) (fun _ => by rw [moveTo_engines]) (moveTo_protoList s)
    (moveTo_notifier s)

theorem Placed.moveTo (h : ∀ q rq, q ≠ r → b.reqs q = some rq → b.PlacedAt ex q rq)
    (ht : b.PlacedAt ex r { req with session := s }) : Placed (b.moveTo r s) ex := by
  intro q rq hq
  rw [moveTo_reqs hr] at hq
  by_cases hqr : q = r
  · subst hqr; rw [Function.update_same] at hq; cases hq
    exact ht.congr (shapeOf_congr (moveTo_infoOf hr)) (fun _ => by rw [moveTo_engines]) (moveTo_protoList s)
  · rw [Function.update_noteq hqr] at hq
    exact (h q rq hqr hq).congr (shapeOf_congr (moveTo_infoOf hr)) (fun _ => by rw [moveTo_engines])
      (moveTo_protoList s)

variable (hs : Target b s)
include hs

theorem mem_requestsOf_moveTo {j n : Nat} (hn : n ≠ r) (hm : n ∈ b.requestsOf j) :
    n ∈ (b.moveTo r s).requestsOf j := by
  have := moveTo_listAt hr hs (some j)
  simp only [listAt_some] at this
  rw [this]; split_ifs <;> simp [List.mem_erase_of_ne hn, hm]

theorem Walk.moveTo (h : Walk b) (hc : b.notifier.cursor ≠ some r) : Walk (b.moveTo r s) :=
  h.congr (runningOf_congr (moveTo_infoOf hr)) (by rw [moveTo_notifier]) (by rw [moveTo_notifier])
    fun _ _ _ hn hm =>
    mem_requestsOf_moveTo hr hs (fun e => hc (e ▸ hn)) hm

theorem populated_moveTo (hne : ∀ j sn, s ≠ some j → b.sess j = some sn →
      sn.engine ∈ b.protoList → sn.requestList ≠ [] ∨ sn.notifyRunning = true)
    (hlog : ∀ sn ∈ b.removedLog, sn.requestList = [] ∧ sn.notifyRunning = false)
    (hd : Detachable b r) : Populated (b.moveTo r s) := by
  refine ⟨fun j sn' hsn hp => ?_, by simpa using hlog⟩
  obtain ⟨sn, hb, e⟩ := sess_of_infoOf (moveTo_infoOf hr j) hsn
  obtain ⟨e1, -, -, e5, -, -⟩ := SessionNode.eq_of_info e
  rw [moveTo_protoList, e1] at hp
  have := moveTo_listAt hr hs (some j)
  simp only [listAt_some] at this
  rw [← requestsOf_eq hsn, this, e5, requestsOf_eq hb]
  by_cases hj : some j = s
  · left; simp [hj]
  · by_cases hsj : req.session = some j
    · obtain ⟨sn1, h1, h2⟩ := hd j (by simp [ptr, hr, hsj])
      rw [hb] at h1; cases h1; exact absurd hp h2
    · simp only [hsj, hj, if_false, List.append_nil]
      exact hne j sn (Ne.symm hj) hb hp

theorem DeliveredAt.moveTo {q : Nat} (h : b.DeliveredAt q) (hw : Walk b) (hq : q ≠ r)
    (hc : b.notifier.cursor ≠ some r) : (b.moveTo r s).DeliveredAt q := by
  intro rq i sn' h1 h2 h3
  rw [moveTo_reqs hr, Function.update_noteq hq] at h1
  obtain ⟨sn, hb, e⟩ := sess_of_infoOf (moveTo_infoOf hr i) h3
  obtain ⟨-, -, -, -, e4, e5⟩ := SessionNode.eq_of_info e
  rw [e4, e5, moveTo_notifier]
  refine (h rq i sn h1 h2 hb).imp_right (.imp_right fun h0 => ?_)
  obtain ⟨c, hdi, hcu, hm⟩ := Notifier.mem_pendingOf.1 h0
  have hcr : c ≠ r := fun e => hc (e ▸ hcu)
  have hcl : c ∈ sn.requestList := requestsOf_eq hb ▸ hw.cursor i c hdi hcu
  refine Notifier.mem_pendingOf.2 ⟨c, hdi, hcu, ?_⟩
  have := moveTo_listAt hr hs (some i)
  simp only [listAt_some, requestsOf_eq h3, requestsOf_eq hb] at this
  rw [this]
  have hc' : c ∈ (if req.session = some i then sn.requestList.erase r else sn.requestList) := by
    split_ifs <;> simp [List.mem_erase_of_ne hcr, hcl]
  rw [suffixFrom_append hc']
  apply List.mem_append_left
  split_ifs
  exacts [mem_suffixFrom_erase hq hcr hm, hm]

end MoveTo

/-! ## A new session -/

section AddSession
variable {p : Nat} {now : ℕ+}

theorem bfdAddSession_linked (cf : SessionConfig) :
    (Bfd.bfdAddSession cf now).linked = false := by
  simp only [Bfd.bfdAddSession, bfdSessionControlTxTimer, bfdSessionUpdateTxInterval]

@[simp] theorem addSession_snd : (b.bfdAddSession p req now).2 = b.nextId := rfl
@[simp] theorem addSession_reqs : (b.bfdAddSession p req now).1.reqs = b.reqs := rfl
@[simp] theorem addSession_protoList : (b.bfdAddSession p req now).1.protoList = b.protoList := rfl
@[simp] theorem addSession_waitList : (b.bfdAddSession p req now).1.waitList = b.waitList := rfl
@[simp] theorem addSession_notifier : (b.bfdAddSession p req now).1.notifier = b.notifier := rfl
@[simp] theorem addSession_nextId : (b.bfdAddSession p req now).1.nextId = b.nextId + 1 := rfl
@[simp] theorem addSession_removedLog :
    (b.bfdAddSession p req now).1.removedLog = b.removedLog := rfl

theorem addSession_sess_old {j : Nat} (hj : j ≠ b.nextId) :
    (b.bfdAddSession p req now).1.sess j = b.sess j := by
  simp [bfdAddSession, Function.update_apply, hj]

/-- The new session: engine `p`'s, under the request's key, with no request, not walked and
not linked. -/
theorem addSession_sess_new (b : Broker) (p : Nat) (req : Request) (now : ℕ+) :
    ∃ sn, (b.bfdAddSession p req now).1.sess b.nextId = some sn ∧
    sn.engine = p ∧ sn.addr = req.addr ∧ sn.ifindex = req.ifindex ∧ sn.requestList = [] ∧
      sn.notifyRunning = false ∧ sn.core.linked = false := by
  simp [bfdAddSession, bfdAddSession_linked]

theorem addSession_engines (q : Nat) : (b.bfdAddSession p req now).1.engines q =
    if q = p then { b.engines p with sessions := (b.engines p).sessions ++ [b.nextId] }
    else b.engines q := by
  simp [bfdAddSession, Function.update_apply]

/-- A session listed after `bfd_add_session` was listed before, or is the new one. -/
theorem addSession_mem {q j : Nat} (hj : j ∈ ((b.bfdAddSession p req now).1.engines q).sessions) :
    j ∈ (b.engines q).sessions ∨ q = p ∧ j = b.nextId := by
  rw [addSession_engines] at hj
  split_ifs at hj with hq
  · subst hq; simpa using hj
  · exact .inl hj

theorem addSession_signal (q : Nat) :
    ((b.bfdAddSession p req now).1.engines q).signal = (b.engines q).signal := by
  rw [addSession_engines]; split_ifs with h <;> simp [Engine.signal, h]

theorem addSession_cf (q : Nat) :
    ((b.bfdAddSession p req now).1.engines q).cf = (b.engines q).cf := by
  rw [addSession_engines]; split_ifs with h <;> simp [h]

theorem addSession_requestsOf (h : Fresh b) (j : Nat) :
    (b.bfdAddSession p req now).1.requestsOf j = b.requestsOf j := by
  by_cases hj : j = b.nextId
  · subst hj
    obtain ⟨sn, h1, -, -, -, h2, -⟩ := addSession_sess_new b p req now
    rw [requestsOf_eq h1, h2, requestsOf_none (h.sess _ le_rfl)]
  · simp only [requestsOf, addSession_sess_old hj]

/-- No request but the one being placed points at the session `bfd_add_session` is about to
make. -/
theorem Staged.session_ne_new {i : Option Nat} (h : Staged b ex r i) {q : Nat} {rq : Request}
    (hq : b.reqs q = some rq) (hqr : q ≠ r) : rq.session ≠ some b.nextId := fun hs => by
  have := (h.lists.mem_iff (some b.nextId) q hqr).2 (by simp [ptr, hq, hs])
  rw [listAt_some, requestsOf_none (h.fresh.sess _ le_rfl)] at this
  exact List.not_mem_nil _ this

/-- A session after `bfd_add_session` is the new one, engine `p`'s with no request, not
walked and not linked, or one that was there before. -/
theorem addSession_sess_cases {j : Nat} {sn : SessionNode}
    (hs : (b.bfdAddSession p req now).1.sess j = some sn) :
    (j = b.nextId ∧ sn.engine = p ∧ sn.notifyRunning = false ∧ sn.core.linked = false) ∨
      (j ≠ b.nextId ∧ b.sess j = some sn) := by
  by_cases hj : j = b.nextId
  · subst hj
    obtain ⟨sn0, h0, e0, -, -, -, r0, l0⟩ := addSession_sess_new b p req now
    obtain rfl : sn0 = sn := Option.some.inj (h0.symm.trans hs)
    exact .inl ⟨rfl, e0, r0, l0⟩
  · exact .inr ⟨hj, by rwa [addSession_sess_old hj] at hs⟩

theorem Fresh.addSession (h : Fresh b) (hp : p ∈ b.protoList) :
    Fresh (b.bfdAddSession p req now).1 := by
  refine ⟨fun n hn => h.req n (by simp at hn; omega), fun n hn => ?_, fun j sn hs => ?_,
    fun q hq => by have := h.proto q hq; simp; omega⟩
  · simp only [addSession_nextId] at hn
    rw [addSession_sess_old (by omega)]; exact h.sess n (by omega)
  · simp only [addSession_nextId]
    rcases addSession_sess_cases hs with ⟨-, e, -⟩ | ⟨-, hb⟩
    · have := h.proto p hp; omega
    · have := h.engine j sn hb; omega

theorem Registry.addSession (h : Registry b) (hn : b.sess b.nextId = none) :
    Registry (b.bfdAddSession p req now).1 := by
  refine ⟨fun j sn hs => ?_, fun q j sn hm hs => ?_, fun q j hm => ?_, fun q => ?_,
    h.proto_nodup⟩
  · rw [addSession_engines]
    rcases addSession_sess_cases hs with ⟨rfl, e, -⟩ | ⟨-, hb⟩
    · rw [e]; simp
    · have := h.registered j sn hb
      split_ifs with he
      · rw [← he]; simp [this]
      · exact this
  · rw [addSession_engines] at hm
    rcases addSession_sess_cases hs with ⟨rfl, e, -⟩ | ⟨hj, hb⟩
    · split_ifs at hm with hq
      · exact e.trans hq.symm
      · exact absurd hn (h.live q _ hm)
    · refine h.engine_of q j sn ?_ hb
      split_ifs at hm with hq
      · subst hq; simpa [hj] using hm
      · exact hm
  · rw [addSession_engines] at hm
    by_cases hj : j = b.nextId
    · obtain ⟨sn0, h0, -⟩ := addSession_sess_new b p req now
      simp [hj, h0]
    · rw [addSession_sess_old hj]
      split_ifs at hm with hq
      · subst hq; exact h.live _ j (by simpa [hj] using hm)
      · exact h.live q j hm
  · rw [addSession_engines]
    split_ifs
    · exact nodup_append_single (h.nodup p) fun hm => h.live p _ hm hn
    · exact h.nodup q

theorem Walk.addSession (h : Walk b) (hf : Fresh b) : Walk (b.bfdAddSession p req now).1 := by
  have hlive : ∀ j, b.notifier.dispatched = some j → j ≠ b.nextId := fun j hd hj =>
    h.alive j hd (hj ▸ hf.sess _ le_rfl)
  refine ⟨fun j sn hs => ?_, fun j hd => ?_, fun j n hd hc => ?_⟩
  · rcases addSession_sess_cases hs with ⟨rfl, -, hr, -⟩ | ⟨-, hb⟩
    · simp only [addSession_notifier, hr, Bool.false_eq_true, false_iff]
      exact fun hd => hlive _ hd rfl
    · exact h.running j sn hb
  · rw [addSession_sess_old (hlive j hd)]; exact h.alive j hd
  · rw [addSession_requestsOf hf]; exact h.cursor j n hd hc

theorem Notified.addSession (h : Notified b) (hw : Walk b) (hn : b.sess b.nextId = none) :
    Notified (b.bfdAddSession p req now).1 := by
  refine ⟨fun j sn hs hl => ?_, fun q hq => ?_, fun q tmp j snap cur sn hd hs hl => ?_⟩
  · rcases addSession_sess_cases hs with ⟨-, -, -, hl'⟩ | ⟨-, hb⟩
    · rw [hl'] at hl; cases hl
    · rw [← Engine.notifyList_signal, addSession_signal, Engine.notifyList_signal]
      exact h.listed j sn hb hl
  · simp only [← Engine.notifyList_signal, ← Engine.pipe_signal, ← Engine.kickPending_signal,
      addSession_signal]
    exact h.kicked q hq
  · have hd' : b.notifier = _ := hd
    rcases addSession_sess_cases hs with ⟨rfl, -⟩ | ⟨-, hb⟩
    · exact absurd hn (hw.alive _ (by rw [hd']; rfl))
    · exact h.snapshot q tmp j snap cur sn hd hb hl

theorem Staged.addSession (h : Staged b ex r none) (hp : p ∈ b.protoList) :
    Staged (b.bfdAddSession p req now).1 ex r (some b.nextId) := by
  have hn := h.fresh.sess _ le_rfl
  have hl : ∀ t, (b.bfdAddSession p req now).1.listAt t = b.listAt t := fun t => by
    cases t
    · rfl
    · simp only [listAt_some, addSession_requestsOf h.fresh]
  refine ⟨⟨fun t q hq => ?_, fun t => ?_, fun t => ?_⟩, h.fresh.addSession hp,
    h.registry.addSession hn, h.walk.addSession h.fresh, fun q rq hqr hq => ?_,
    fun j sn hj hs hp' => ?_, by simpa using h.removed, h.notified.addSession h.walk hn⟩
  · rw [hl]; exact h.lists.mem_iff t q hq
  · rw [hl]; exact h.lists.mem_own t
  · rw [hl]; exact h.lists.nodup t
  · refine ⟨fun hs q' hq' => by rw [addSession_cf]; exact (h.placed q rq hqr hq).1 hs q' hq', ?_⟩
    intro j sn hs hsn
    rcases addSession_sess_cases hsn with ⟨rfl, -⟩ | ⟨-, hb⟩
    · exact absurd hs (h.session_ne_new hq hqr)
    · rw [addSession_cf]; exact (h.placed q rq hqr hq).2 j sn hs hb
  · rcases addSession_sess_cases hs with ⟨rfl, -⟩ | ⟨-, hb⟩
    · exact absurd rfl hj
    · exact h.nonempty j sn (by simp) hb hp'

theorem DeliveredAt.addSession (h : Staged b ex r none) {q : Nat} (hqr : q ≠ r)
    (hd : b.DeliveredAt q) : (b.bfdAddSession p req now).1.DeliveredAt q := by
  intro rq j sn h1 h2 h3
  have hj : j ≠ b.nextId := fun hj => h.session_ne_new h1 hqr (hj ▸ h2)
  rw [addSession_sess_old hj] at h3
  rw [addSession_notifier, ← requestsOf_eq h3]
  simpa [requestsOf_eq h3] using hd rq j sn h1 h2 h3

end AddSession

/-! ## Placing a request -/

section Place
variable {hook : Broker → Broker} {p : Nat} {now : ℕ+}

/-- Where request `r` is placed, the invariant's core holds again. -/
theorem Staged.moveTo (h : Staged b ex r s) (hr : b.reqs r = some req) (hs : Target b s)
    (ht : b.PlacedAt ex r { req with session := s }) (hd : Detachable b r)
    (hc : b.notifier.cursor ≠ some r) : Core (b.moveTo r s) ex :=
  ⟨h.lists.moveTo hr hs, h.fresh.moveTo hr, h.registry.moveTo hr, h.walk.moveTo hr hs hc,
    Placed.moveTo hr h.placed ht, populated_moveTo hr hs h.nonempty h.removed hd,
    h.notified.moveTo hr⟩

theorem Inv.staged (h : Inv b ex) (r : Nat) :
    Staged b ex r none ∧ ∀ q, q ≠ r → b.DeliveredAt q :=
  ⟨h.core.staged r, fun q _ => h.delivered q⟩

/-- `bfd_add_request` from its `add_tail` on: the request joins session `i` and is notified
of its state. -/
theorem Inv.attachNotify {i : Nat} {sn : SessionNode} (h : Staged b ex r (some i))
    (hd : ∀ q, q ≠ r → b.DeliveredAt q) (hr : b.reqs r = some req) (hi : b.sess i = some sn)
    (ht : b.PlacedAt ex r { req with session := some i }) (hdet : Detachable b r)
    (hk : HookOk ex r hook) (hc : b.notifier.cursor ≠ some r) :
    Inv ((b.moveTo r (some i)).notifyOfSession r i hook) ex := by
  have hs : Target b (some i) := by rintro j ⟨⟩; simp [hi]
  obtain ⟨sn', hi', -⟩ := sess_of_infoOf (moveTo_infoOf (s := some i) hr i).symm hi
  unfold notifyOfSession
  rw [hi']
  refine Inv.requestNotify (h.moveTo hr hs ht hdet hc)
    (fun q hq => (hd q hq).moveTo hr hs h.walk hq hc) hk (by rwa [moveTo_notifier]) ?_
  intro rq j sn2 h1 h2 h3
  rw [moveTo_reqs hr, Function.update_same] at h1; cases h1
  cases h2; rw [hi'] at h3; cases h3
  exact Or.inr (Or.inl rfl)

/-- Request `req` may join session `i` of a running engine that accepts it, under its key. -/
theorem placedAt_attach {i : Nat} {sn : SessionNode} (hi : b.sess i = some sn)
    (hp : sn.engine ∈ b.protoList) (ha : bfdAccepts (b.engines sn.engine).cf req = true)
    (hk : sn.addr = req.addr ∧ sn.ifindex = req.ifindex) :
    b.PlacedAt ex r { req with session := some i } := by
  refine ⟨fun e => (by cases e), fun j sn' e hs => ?_⟩
  cases e; rw [hi] at hs; cases hs; exact ⟨Or.inl hp, ha, hk⟩

theorem bfdFindSessionByAddr_some {addr ifindex i : Nat}
    (h : b.bfdFindSessionByAddr p addr ifindex = some i) : i ∈ (b.engines p).sessions ∧
      ∃ sn, b.sess i = some sn ∧ sn.addr = addr ∧ sn.ifindex = ifindex := by
  refine ⟨List.mem_of_find?_eq_some h, ?_⟩
  have := List.find?_some h
  cases hs : b.sess i with
  | none => simp [hs] at this
  | some sn => simp only [hs, Option.any_some, Bool.and_eq_true, beq_iff_eq] at this; exact ⟨sn, rfl, this⟩

theorem Detachable.addSession (hd : Detachable b r) (hf : Fresh b) :
    Detachable (b.bfdAddSession p req now).1 r := fun i hi => by
  obtain ⟨sn, h1, h2⟩ := hd i hi
  have hj : i ≠ b.nextId := fun e => by rw [e, hf.sess _ le_rfl] at h1; cases h1
  exact ⟨sn, by rw [addSession_sess_old hj, h1], h2⟩

theorem addRequest_eq_none (hr : b.reqs r = some req) :
    b.bfdAddRequest p r hook now = none ↔ bfdAccepts (b.engines p).cf req = false := by
  simp only [bfdAddRequest, hr]; split_ifs with h <;> simp [h]

/-- `bfd_add_request` by a running engine that accepts the request. -/
theorem Inv.addRequest {b' : Broker} (h : Staged b ex r none) (hd : ∀ q, q ≠ r → b.DeliveredAt q)
    (hp : p ∈ b.protoList) (hdet : Detachable b r) (hk : HookOk ex r hook)
    (hc : b.notifier.cursor ≠ some r) (ha : b.bfdAddRequest p r hook now = some b') :
    Inv b' ex := by
  unfold bfdAddRequest at ha
  split at ha
  · cases ha
  · next req hr =>
    split_ifs at ha with hacc
    cases ha
    cases hf : b.bfdFindSessionByAddr p req.addr req.ifindex with
    | some i =>
      simp only [findOrAddSession, hf]
      obtain ⟨hm, sn, hs, hk'⟩ := bfdFindSessionByAddr_some hf
      have he := h.registry.engine_of p i sn hm hs
      exact Inv.attachNotify (h.any _) hd hr hs
        (placedAt_attach hs (he ▸ hp) (he ▸ hacc) hk') hdet hk hc
    | none =>
      simp only [findOrAddSession, hf]
      obtain ⟨sn0, h0, e0, a0, i0, -⟩ := addSession_sess_new b p req now
      refine Inv.attachNotify (h.addSession hp) (fun q hq => (hd q hq).addSession h hq) hr h0
        (placedAt_attach h0 (e0 ▸ hp) ?_ ⟨a0, i0⟩) (hdet.addSession h.fresh) hk hc
      rw [e0, addSession_cf]; exact hacc

/-- The end of `bfd_submit_request`, for a request every running engine rejects. -/
theorem Inv.park (h : Staged b ex r none) (hd : ∀ q, q ≠ r → b.DeliveredAt q)
    (hr : b.reqs r = some req)
    (hrej : ∀ p ∈ b.protoList, bfdAccepts (b.engines p).cf req = false ∨ ex p r)
    (hdet : Detachable b r) (hk : HookOk ex r hook) (hc : b.notifier.cursor ≠ some r) :
    Inv (b.park r hook) ex := by
  have hs : Target b none := by rintro j ⟨⟩
  refine Inv.requestNotify (h.moveTo hr hs ⟨fun _ => hrej, fun _ _ e => by cases e⟩ hdet hc)
    (fun q hq => (hd q hq).moveTo hr hs h.walk hq hc) hk (by rwa [moveTo_notifier]) ?_
  intro rq j sn h1 h2 _
  rw [moveTo_reqs hr, Function.update_same] at h1; cases h1; cases h2

/-- `bfd_submit_request`: the request ends in a session of the first running engine that
accepts it, or waits. -/
theorem Inv.submit (h : Staged b ex r none) (hd : ∀ q, q ≠ r → b.DeliveredAt q)
    (hr : b.reqs r ≠ none) (hdet : Detachable b r) (hk : HookOk ex r hook)
    (hc : b.notifier.cursor ≠ some r) : Inv (b.bfdSubmitRequest r hook now) ex := by
  obtain ⟨req, hr⟩ := Option.ne_none_iff_exists'.1 hr
  suffices ∀ ps, (∀ p ∈ b.protoList, p ∉ ps → bfdAccepts (b.engines p).cf req = false) →
      (∀ p ∈ ps, p ∈ b.protoList) → Inv (bfdSubmitRequest.go b r hook now ps) ex from
    this _ (fun p hp hn => absurd hp hn) fun _ hp => hp
  intro ps
  induction ps with
  | nil =>
    intro hrej _
    exact Inv.park h hd hr (fun p hp => Or.inl (hrej p hp (List.not_mem_nil p))) hdet hk hc
  | cons p ps ih =>
    intro hrej hsub
    simp only [bfdSubmitRequest.go]
    split
    · next b' ha => exact Inv.addRequest h hd (hsub p (List.mem_cons_self p ps)) hdet hk hc ha
    · next ha =>
      refine ih (fun q hq hn => ?_) fun q hq => hsub q (List.mem_cons_of_mem p hq)
      by_cases hqp : q = p
      · subst hqp; exact (addRequest_eq_none hr).1 ha
      · exact hrej q hq (by simp [hqp, hn])

end Place

/-! ## What placing a request leaves alone -/

section Kept
variable {hook : Broker → Broker} {p : Nat} {now : ℕ+}

theorem kept_moveTo (r : Nat) (s : Option Nat) (b : Broker) : Kept r b (b.moveTo r s) := by
  cases hr : b.reqs r with
  | none =>
    have e : b.moveTo r s = b.remNode r := by simp [moveTo, hr]
    rw [e]
    exact ⟨by simp, by simp, by simp, fun q _ _ => by simp [ptr],
      fun i sn' _ => engine_of_infoOf remNode_infoOf i sn'⟩
  | some req =>
    exact ⟨by simp, by simp, by simp, fun q hq _ => by rw [ptr_moveTo hr, if_neg hq],
      fun i sn' _ => engine_of_infoOf (moveTo_infoOf hr) i sn'⟩

theorem kept_setReq (r : Nat) (x : Option Request) (b : Broker) : Kept r b (b.setReq r x) :=
  ⟨rfl, rfl, le_rfl, fun q hq _ => by simp [ptr, Function.update_noteq hq],
    fun _ _ _ h => ⟨_, h, rfl⟩⟩

theorem kept_addSession {req : Request} (r : Nat) (b : Broker) :
    Kept r b (b.bfdAddSession p req now).1 :=
  ⟨rfl, rfl, by simp, fun _ _ _ => rfl, fun i sn' hi h =>
    ⟨sn', by rwa [addSession_sess_old (Nat.ne_of_lt hi)] at h, rfl⟩⟩

theorem kept_requestNotify {st rem : BfdState} {diag : Nat} (hk : ∀ b, Kept r b (hook b)) :
    Kept r b (b.bfdRequestNotify r st rem diag hook) := by
  unfold bfdRequestNotify
  split
  · exact Kept.refl r b
  · split_ifs
    · exact Kept.refl r b
    · exact (kept_setReq r _ b).trans (hk _)

theorem kept_addRequest {b' : Broker} (hk : ∀ b, Kept r b (hook b))
    (ha : b.bfdAddRequest p r hook now = some b') : Kept r b b' := by
  unfold bfdAddRequest at ha
  split at ha
  · cases ha
  · next req hr =>
    split_ifs at ha
    cases ha
    have hn : ∀ b₁ : Broker, ∀ i, Kept r b₁ ((b₁.moveTo r (some i)).notifyOfSession r i hook) :=
      fun b₁ i => (kept_moveTo r (some i) b₁).trans <| by
        unfold notifyOfSession; split
        · exact kept_requestNotify hk
        · exact Kept.refl r _
    cases hf : b.bfdFindSessionByAddr p req.addr req.ifindex with
    | some i => simp only [findOrAddSession, hf]; exact hn b i
    | none =>
      simp only [findOrAddSession, hf]
      exact (kept_addSession r b).trans (hn _ _)

theorem kept_submit (hk : ∀ b, Kept r b (hook b)) : Kept r b (b.bfdSubmitRequest r hook now) := by
  suffices ∀ ps, Kept r b (bfdSubmitRequest.go b r hook now ps) from this _
  intro ps
  induction ps with
  | nil => exact (kept_moveTo r none b).trans (kept_requestNotify hk)
  | cons p ps ih =>
    simp only [bfdSubmitRequest.go]
    split
    · next b' ha => exact kept_addRequest hk ha
    · exact ih

end Kept

end Broker
end Bfd
