import Bfd.BrokerOps

/-! # The calls a client makes

`bfd_request_session`, `bfd_update_request` and `bfd_request_free` keep the invariant; the
last from any state whose walk is not at the request it frees. A hook makes these calls, so
each of them is a hook the broker may call (`hookOk_runHook`). -/
namespace Bfd

namespace Notifier

theorem dispatched_of_cursor {n : Notifier} {c : Nat} (h : n.cursor = some c) :
    ∃ i, n.dispatched = some i := by
  cases n <;> simp_all [cursor, dispatched]


@[simp] theorem dispatched_eraseTmp (n : Notifier) (i : Nat) :
    (n.eraseTmp i).dispatched = n.dispatched := by
  cases n <;> rfl

@[simp] theorem cursor_eraseTmp (n : Notifier) (i : Nat) : (n.eraseTmp i).cursor = n.cursor := by
  cases n <;> rfl

@[simp] theorem pendingOf_eraseTmp (n : Notifier) (i j : Nat) (l : List Nat) :
    (n.eraseTmp i).pendingOf j l = n.pendingOf j l := by
  cases n with
  | dispatching p tmp s snap cur => cases cur <;> rfl
  | _ => rfl

theorem tmpOf_eraseTmp (n : Notifier) (i p : Nat) :
    (n.eraseTmp i).tmpOf p = (n.tmpOf p).erase i := by
  cases n <;> simp only [eraseTmp, tmpOf, List.erase_nil] <;> split_ifs <;> rfl

theorem eraseTmp_drained {n : Notifier} {i p : Nat} (h : n = .drained p) :
    n.eraseTmp i = .drained p := by
  subst h; rfl

theorem eraseTmp_eq_dispatching {n : Notifier} {i p j : Nat} {tmp : List Nat}
    {snap : BfdState × BfdState × Nat} {cur : Option Nat}
    (h : n.eraseTmp i = .dispatching p tmp j snap cur) :
    ∃ tmp', n = .dispatching p tmp' j snap cur := by
  cases n <;> simp only [eraseTmp, reduceCtorEq] at h
  · next p' tmp' j' snap' cur' =>
    simp only [dispatching.injEq] at h
    obtain ⟨rfl, -, rfl, rfl, rfl⟩ := h
    exact ⟨tmp', rfl⟩

end Notifier

namespace Broker

variable {b : Broker} {r : Nat} {req : Request} {ex : Nat → Nat → Prop} {now : ℕ+}

/-- The walk's cursor is a live request. -/
theorem Core.cursor_ne (h : Core b ex) {q : Nat} (hq : b.reqs q = none) :
    b.notifier.cursor ≠ some q := fun hc => by
  obtain ⟨i, hd⟩ := Notifier.dispatched_of_cursor hc
  have := (h.lists.mem_iff (some i) q).1 (h.walk.cursor i q hd hc)
  simp [ptr, hq] at this

/-! ## Options -/

/-- A write of a request's fields that keeps its key, its session and its state. -/
theorem Inv.write (h : Inv b ex) (hr : b.reqs r = some req) {req' : Request}
    (ha : req'.addr = req.addr) (hi : req'.iface = req.iface) (hv : req'.vrf = req.vrf)
    (hs : req'.session = req.session) (hst : req'.state = req.state) :
    Inv (b.setReq r (some req')) ex := by
  refine ⟨h.core.write hr ha hi hv hs, fun q => ?_⟩
  by_cases hq : q = r
  · subst hq; intro rq i sn h1 h2 h3
    simp only [setReq_reqs, Function.update_same, Option.some.injEq] at h1; subst h1
    rw [hst]; exact h.delivered q req i sn hr (hs ▸ h2) h3
  · exact (h.delivered q).congr (by simp [Function.update_noteq hq]) (fun _ => rfl) (fun _ => rfl)
      fun _ _ => rfl

/-- `bfd_reconfigure_session` changes neither the state nor the link of the session. -/
theorem Inv.reconfigureSession (h : Inv b ex) (i : Nat) :
    Inv (b.bfdReconfigureSession i now) ex := by
  unfold bfdReconfigureSession
  split
  · next sn hs =>
    split
    · split
      · refine h.congr rfl (fun j => ?_) (fun j => ?_) rfl (fun _ => rfl) rfl rfl rfl rfl
        · by_cases hj : j = i
          · subst hj; simp [infoOf, hs, SessionNode.info]
          · simp [infoOf, Function.update_noteq hj]
        · rw [requestsOf_setSess]
          split_ifs with hj
          · subst hj; simp [requestsOf_eq hs]
          · rfl
      · exact h
    · exact h
  · exact h

theorem Inv.updateRequest (h : Inv b ex) (r : Nat) (opts : BfdOptions) :
    Inv (b.bfdUpdateRequest r opts now) ex := by
  unfold bfdUpdateRequest
  split
  · exact h
  · next req hr =>
    split_ifs
    · exact h
    · have h' : Inv (b.setReq r (some { req with opts })) ex := h.write hr rfl rfl rfl rfl rfl
      split
      · exact h'.reconfigureSession _
      · exact h'

/-! ## A new request -/

/-- The request `bfd_request_session` allocates is on no list until it is submitted. -/
theorem Inv.allocate (h : Inv b ex) (req : Request) :
    Staged ({ b with nextId := b.nextId + 1 }.setReq b.nextId (some req)) ex b.nextId none ∧
      ∀ q, q ≠ b.nextId →
        ({ b with nextId := b.nextId + 1 }.setReq b.nextId (some req)).DeliveredAt q := by
  have hr0 : b.reqs b.nextId = none := h.core.fresh.req _ le_rfl
  have hreq : ∀ q, q ≠ b.nextId →
      ({ b with nextId := b.nextId + 1 }.setReq b.nextId (some req)).reqs q = b.reqs q :=
    fun q hq => by simp [Function.update_noteq hq]
  have hl : ∀ t, ({ b with nextId := b.nextId + 1 }.setReq b.nextId (some req)).listAt t =
      b.listAt t := fun t => by cases t <;> rfl
  refine ⟨⟨⟨fun t q hq => ?_, fun t hm => ?_, fun t => ?_⟩, ⟨fun n hn => ?_, fun n hn => ?_,
    fun i sn hs' => ?_, fun p hp => ?_⟩, h.core.registry.congr (fun _ => rfl) (fun _ => rfl) rfl,
    h.core.walk.congr (fun _ => rfl) rfl rfl (fun _ _ _ _ hm => hm), fun q rq hq h1 => ?_,
    fun j sn _ => h.core.populated.nonempty j sn, h.core.populated.removed,
    h.core.notified.congr (fun _ => rfl) (fun _ => rfl) rfl rfl⟩, fun q hq => ?_⟩
  · rw [hl, h.core.lists.mem_iff t q]; simp only [ptr, hreq q hq]
  · have := (h.core.lists.mem_iff t _).1 (hl t ▸ hm); simp [ptr, hr0] at this
  · rw [hl]; exact h.core.lists.nodup t
  · simp only [setReq_nextId] at hn; rw [hreq n (by omega)]; exact h.core.fresh.req n (by omega)
  · exact h.core.fresh.sess n (by simp at hn; omega)
  · have := h.core.fresh.engine i sn hs'; simp; omega
  · have := h.core.fresh.proto p hp; simp; omega
  · exact (h.core.placed q rq (by rwa [hreq q hq] at h1)).congr (fun _ => rfl) (fun _ => rfl) rfl
  · exact (h.delivered q).congr (hreq q hq) (fun _ => rfl) (fun _ => rfl) fun _ _ => rfl

theorem Inv.requestSession (h : Inv b ex) (addr localAddr : Nat) (iface vrf : Option Nat)
    (opts : BfdOptions) : Inv (b.bfdRequestSession addr localAddr iface vrf opts now) ex := by
  obtain ⟨hs, hd⟩ :=
    h.allocate ⟨addr, localAddr, iface, vrf, opts, .adminDown, 0, .adminDown, false, none⟩
  exact Inv.submit hs hd (by simp) (fun i hi => by simp [ptr] at hi) (hookOk_id ex _)
    (h.core.cursor_ne (h.core.fresh.req _ le_rfl))

/-! ## Removing a session -/


section RemoveSession
variable {i : Nat} {sn : SessionNode}

@[simp] theorem removeSession_reqs : (b.bfdRemoveSession i).reqs = b.reqs := by
  unfold bfdRemoveSession; split <;> rfl
@[simp] theorem removeSession_protoList : (b.bfdRemoveSession i).protoList = b.protoList := by
  unfold bfdRemoveSession; split <;> rfl
@[simp] theorem removeSession_waitList : (b.bfdRemoveSession i).waitList = b.waitList := by
  unfold bfdRemoveSession; split <;> rfl
@[simp] theorem removeSession_nextId : (b.bfdRemoveSession i).nextId = b.nextId := by
  unfold bfdRemoveSession; split <;> rfl
@[simp] theorem removeSession_cursor :
    (b.bfdRemoveSession i).notifier.cursor = b.notifier.cursor := by
  unfold bfdRemoveSession; split
  · rfl
  · dsimp only; split <;> simp

theorem removeSession_sess_some {j : Nat} {sn' : SessionNode}
    (h : (b.bfdRemoveSession i).sess j = some sn') : b.sess j = some sn' := by
  unfold bfdRemoveSession at h
  split at h
  · exact h
  · simp only [setEngine_sess, setSess_sess, Function.update_apply] at h
    split_ifs at h
    exact h

theorem kept_removeSession (r i : Nat) (b : Broker) : Kept r b (b.bfdRemoveSession i) :=
  ⟨by simp, by simp, by simp, fun _ _ _ => by simp [ptr],
    fun _ _ _ h => ⟨_, removeSession_sess_some h, rfl⟩⟩

variable (hs : b.sess i = some sn)
include hs

theorem removeSession_sess : (b.bfdRemoveSession i).sess = Function.update b.sess i none := by
  simp [bfdRemoveSession, hs]

theorem removeSession_sessions (p : Nat) : ((b.bfdRemoveSession i).engines p).sessions =
    if p = sn.engine then (b.engines p).sessions.erase i else (b.engines p).sessions := by
  simp only [bfdRemoveSession, hs, setEngine_engines, Function.update_apply]
  split_ifs with h <;> simp [h]

theorem removeSession_notifyList (p : Nat) : ((b.bfdRemoveSession i).engines p).notifyList =
    if p = sn.engine ∧ sn.core.linked then (b.engines p).notifyList.erase i
    else (b.engines p).notifyList := by
  simp only [bfdRemoveSession, hs, setEngine_engines, Function.update_apply]
  by_cases h : p = sn.engine <;> simp [h]

theorem removeSession_cf (p : Nat) : ((b.bfdRemoveSession i).engines p).cf = (b.engines p).cf := by
  simp only [bfdRemoveSession, hs, setEngine_engines, Function.update_apply]
  split_ifs with h <;> simp [h]

theorem removeSession_pipe (p : Nat) :
    ((b.bfdRemoveSession i).engines p).pipe = (b.engines p).pipe := by
  simp only [bfdRemoveSession, hs, setEngine_engines, Function.update_apply]
  split_ifs with h <;> simp [h]

theorem removeSession_kickPending (p : Nat) :
    ((b.bfdRemoveSession i).engines p).kickPending = (b.engines p).kickPending := by
  simp only [bfdRemoveSession, hs, setEngine_engines, Function.update_apply]
  split_ifs with h <;> simp [h]

theorem removeSession_notifier : (b.bfdRemoveSession i).notifier =
    if sn.core.linked then b.notifier.eraseTmp i else b.notifier := by
  simp [bfdRemoveSession, hs]

theorem removeSession_removedLog : (b.bfdRemoveSession i).removedLog = b.removedLog ++ [sn] := by
  simp [bfdRemoveSession, hs]

theorem removeSession_dispatched :
    (b.bfdRemoveSession i).notifier.dispatched = b.notifier.dispatched := by
  rw [removeSession_notifier hs]; split_ifs <;> simp

theorem removeSession_pendingOf (j : Nat) (l : List Nat) :
    (b.bfdRemoveSession i).notifier.pendingOf j l = b.notifier.pendingOf j l := by
  rw [removeSession_notifier hs]; split_ifs <;> simp

theorem removeSession_sess_old {j : Nat} (hj : j ≠ i) :
    (b.bfdRemoveSession i).sess j = b.sess j := by
  rw [removeSession_sess hs, Function.update_noteq hj]

theorem removeSession_sess_ne {j : Nat} {sn' : SessionNode}
    (h : (b.bfdRemoveSession i).sess j = some sn') : j ≠ i ∧ b.sess j = some sn' := by
  rw [removeSession_sess hs] at h
  by_cases hj : j = i
  · subst hj; simp at h
  · exact ⟨hj, by rwa [Function.update_noteq hj] at h⟩

/-- The session leaves the engine's registry and notify list, and nothing else does. -/
theorem mem_removeSession_sessions {p j : Nat} (hj : j ≠ i) :
    j ∈ ((b.bfdRemoveSession i).engines p).sessions ↔ j ∈ (b.engines p).sessions := by
  rw [removeSession_sessions hs]; split_ifs <;> simp [List.mem_erase_of_ne hj]

theorem mem_removeSession_notifyList {p j : Nat} (hj : j ≠ i) :
    j ∈ ((b.bfdRemoveSession i).engines p).notifyList ↔ j ∈ (b.engines p).notifyList := by
  rw [removeSession_notifyList hs]; split_ifs <;> simp [List.mem_erase_of_ne hj]

theorem removeSession_requestsOf (he : sn.requestList = []) (j : Nat) :
    (b.bfdRemoveSession i).requestsOf j = b.requestsOf j := by
  by_cases hj : j = i
  · subst hj; rw [requestsOf_none (by simp [removeSession_sess hs]), requestsOf_eq hs, he]
  · simp [requestsOf, removeSession_sess_old hs hj]

theorem Fresh.removeSession (h : Fresh b) : Fresh (b.bfdRemoveSession i) := by
  refine ⟨fun n hn => ?_, fun n hn => ?_, fun j sn' hs' => ?_, fun p hp => ?_⟩
  · rw [removeSession_reqs]; exact h.req n (by simpa using hn)
  · simp only [removeSession_nextId] at hn
    rw [removeSession_sess hs, Function.update_apply]; split_ifs
    · rfl
    · exact h.sess n hn
  · simpa using h.engine j sn' (removeSession_sess_ne hs hs').2
  · simpa using h.proto p (by simpa using hp)

theorem Registry.removeSession (h : Registry b) : Registry (b.bfdRemoveSession i) := by
  refine ⟨fun j sn' hs' => ?_, fun p j sn' hm hs' => ?_, fun p j hm => ?_, fun p => ?_,
    by simpa using h.proto_nodup⟩
  · obtain ⟨hj, hb⟩ := removeSession_sess_ne hs hs'
    exact (mem_removeSession_sessions hs hj).2 (h.registered j sn' hb)
  · obtain ⟨hj, hb⟩ := removeSession_sess_ne hs hs'
    exact h.engine_of p j sn' ((mem_removeSession_sessions hs hj).1 hm) hb
  · have hj : j ≠ i := by
      rintro rfl
      rw [removeSession_sessions hs] at hm
      split_ifs at hm with hp
      · exact (h.nodup p).not_mem_erase hm
      · exact hp (h.engine_of p j sn hm hs).symm
    rw [removeSession_sess_old hs hj]
    exact h.live p j ((mem_removeSession_sessions hs hj).1 hm)
  · rw [removeSession_sessions hs]; split_ifs
    · exact (h.nodup p).erase i
    · exact h.nodup p

/-- The notifier walks neither the removed session nor, past it, a request of its. -/
theorem Walk.removeSession (h : Walk b) (he : sn.requestList = [])
    (hn : sn.notifyRunning = false) : Walk (b.bfdRemoveSession i) := by
  have hni : b.notifier.dispatched ≠ some i := fun hdi => by
    have := (h.running i sn hs).2 hdi; rw [hn] at this; cases this
  refine ⟨fun j sn' hs' => ?_, fun j hdj => ?_, fun j n hdj hc => ?_⟩
  · rw [removeSession_dispatched hs]
    exact h.running j sn' (removeSession_sess_ne hs hs').2
  · rw [removeSession_dispatched hs] at hdj
    rw [removeSession_sess_old hs (fun e => hni (e ▸ hdj))]
    exact h.alive j hdj
  · rw [removeSession_dispatched hs] at hdj
    rw [removeSession_requestsOf hs he]
    exact h.cursor j n hdj (by simpa using hc)

/-- A linked session leaves both its engine's notify list and the notifier's local list. -/
theorem Notified.removeSession (h : Notified b) : Notified (b.bfdRemoveSession i) := by
  refine ⟨fun j sn' hs' hlk => ?_, fun p hp hne => ?_,
    fun p tmp j snap cur sn' hdi hs' hlk => ?_⟩
  · obtain ⟨hj, hb⟩ := removeSession_sess_ne hs hs'
    rw [mem_removeSession_notifyList hs hj, removeSession_notifier hs]
    split_ifs
    · rw [Notifier.tmpOf_eraseTmp, List.mem_erase_of_ne hj]; exact h.listed j sn' hb hlk
    · exact h.listed j sn' hb hlk
  · have hne' : (b.engines p).notifyList ≠ [] := by
      rw [removeSession_notifyList hs] at hne; split_ifs at hne
      · intro e; simp [e] at hne
      · exact hne
    rw [removeSession_pipe hs, removeSession_kickPending hs, removeSession_notifier hs]
    rcases h.kicked p (by simpa using hp) hne' with e | e | e
    · exact Or.inl e
    · exact Or.inr (Or.inl e)
    · split_ifs
      · exact Or.inr (Or.inr (Notifier.eraseTmp_drained e))
      · exact Or.inr (Or.inr e)
  · rw [removeSession_notifier hs] at hdi
    obtain ⟨-, hb⟩ := removeSession_sess_ne hs hs'
    split_ifs at hdi
    · obtain ⟨tmp', e⟩ := Notifier.eraseTmp_eq_dispatching hdi
      exact h.snapshot p tmp' j snap cur sn' e hb hlk
    · exact h.snapshot p tmp j snap cur sn' hdi hb hlk

/-- `bfd_remove_session` of an empty session the notifier is not walking keeps the invariant,
where only that session may have been empty. -/
theorem Inv.removeSession {t : Nat} (h : Staged b ex t (some i)) (ht : b.reqs t = none)
    (hd : ∀ q, b.DeliveredAt q) (he : sn.requestList = []) (hn : sn.notifyRunning = false) :
    Inv (b.bfdRemoveSession i) ex := by
  have hl : ∀ s, (b.bfdRemoveSession i).listAt s = b.listAt s := fun s => by
    cases s
    · simp
    · simp [removeSession_requestsOf hs he]
  refine ⟨⟨⟨fun s q => ?_, fun s => by rw [hl]; exact h.lists.nodup s⟩,
    h.fresh.removeSession hs, h.registry.removeSession hs, h.walk.removeSession hs he hn,
    fun q rq hq => ?_, ⟨fun j sn' hs' hp => ?_, fun sn' hm => ?_⟩,
    h.notified.removeSession hs⟩, fun q => ?_⟩
  -- lists: request `t` was on none
  · rw [hl]
    by_cases hq : q = t
    · subst hq
      constructor
      · intro hm; have := h.lists.mem_own s hm; simp [ptr, ht] at this
      · simp [ptr, ht]
    · simpa [ptr] using h.lists.mem_iff s q hq
  -- placed
  · have hqt : q ≠ t := by rintro rfl; simp [ht] at hq
    have hp := h.placed q rq hqt (by simpa using hq)
    refine ⟨fun hn' p hp' => ?_, fun j sn' e hs' => ?_⟩
    · rw [removeSession_cf hs]; exact hp.1 hn' p (by simpa using hp')
    · rw [removeSession_cf hs, removeSession_protoList]
      exact hp.2 j sn' e (removeSession_sess_ne hs hs').2
  -- populated: session `i` was the only one allowed to be empty, and it is gone
  · obtain ⟨hj, hb⟩ := removeSession_sess_ne hs hs'
    exact h.nonempty j sn' (by simpa using Ne.symm hj) hb (by simpa using hp)
  · rw [removeSession_removedLog hs, List.mem_append, List.mem_singleton] at hm
    rcases hm with hm | rfl
    · exact h.removed sn' hm
    · exact ⟨he, hn⟩
  -- delivered
  · intro rq j sn' h1 h2 h3
    rw [removeSession_pendingOf hs]
    exact hd q rq j sn' (by simpa using h1) h2 (removeSession_sess_ne hs h3).2

end RemoveSession

/-! ## Freeing a request -/

/-- The invariant, once the request to place is gone and the possibly empty session is not. -/
theorem Staged.inv {t : Nat} {i : Option Nat} (h : Staged b ex t i) (ht : b.reqs t = none)
    (hd : ∀ q, b.DeliveredAt q) (hi : ∀ j sn, i = some j → b.sess j = some sn →
      sn.engine ∈ b.protoList → sn.requestList ≠ [] ∨ sn.notifyRunning = true) : Inv b ex := by
  refine ⟨⟨⟨fun s q => ?_, h.lists.nodup⟩, h.fresh, h.registry, h.walk, fun q rq hq => ?_,
    ⟨fun j sn hs hp => ?_, h.removed⟩, h.notified⟩, hd⟩
  · by_cases hq : q = t
    · subst hq
      exact ⟨fun hm => by simpa [ptr, ht] using h.lists.mem_own s hm, by simp [ptr, ht]⟩
    · exact h.lists.mem_iff s q hq
  · exact h.placed q rq (by rintro rfl; simp [ht] at hq) hq
  · by_cases hj : i = some j
    · exact hi j sn hj hs hp
    · exact h.nonempty j sn hj hs hp

/-- `rem_node` and the freeing of the request: its session may be left empty. -/
theorem Inv.unlink (h : Inv b ex) (hr : b.reqs r = some req) (hc : b.notifier.cursor ≠ some r) :
    Staged ((b.remNode r).setReq r none) ex r req.session ∧
      ∀ q, ((b.remNode r).setReq r none).DeliveredAt q := by
  have hlo : b.listOf r = req.session := by simp [listOf, hr]
  have hl : ∀ t, ((b.remNode r).setReq r none).listAt t =
      if req.session = t then (b.listAt t).erase r else b.listAt t := fun t => by
    rw [← hlo, ← remNode_listAt]; cases t <;> rfl
  have hi : ∀ j, ((b.remNode r).setReq r none).infoOf j = b.infoOf j := fun j => remNode_infoOf j
  have hreq : ∀ q, q ≠ r → ((b.remNode r).setReq r none).reqs q = b.reqs q := fun q hq => by
    simp [Function.update_noteq hq]
  have hmem : ∀ t n, n ≠ r → n ∈ b.listAt t → n ∈ ((b.remNode r).setReq r none).listAt t :=
    fun t n hn hm => by rw [hl]; split_ifs <;> simp [List.mem_erase_of_ne hn, hm]
  have hc' : ∀ j c, b.notifier.dispatched = some j → b.notifier.cursor = some c → c ≠ r :=
    fun _ _ _ e hcr => hc (hcr ▸ e)
  have hsh := shapeOf_congr hi
  refine ⟨⟨⟨fun t q hq => ?_, fun t hm => ?_, fun t => ?_⟩, h.core.fresh.congr (fun q hq => ?_) hsh
    (by simp) (by simp), h.core.registry.congr hsh (by simp) (by simp),
    h.core.walk.congr (runningOf_congr hi) (by simp) (by simp) fun j hd n hn hm => ?_,
    fun q rq hq h1 => ?_,
    fun j sn hj hs hp => ?_, by simpa using h.core.populated.removed,
    h.core.notified.congr hi (by simp) (by simp) (by simp)⟩, fun q => ?_⟩
  · have hp : ((b.remNode r).setReq r none).ptr q = b.ptr q := by simp [ptr, hreq q hq]
    rw [hp, ← h.core.lists.mem_iff t q, hl]
    split_ifs <;> simp [List.mem_erase_of_ne hq]
  · rw [hl] at hm
    split_ifs at hm with he
    · exact absurd hm ((h.core.lists.nodup t).not_mem_erase)
    · have := (h.core.lists.mem_iff t r).1 hm; simp [ptr, hr] at this; exact absurd this he
  · rw [hl]; split_ifs
    exacts [(h.core.lists.nodup t).erase r, h.core.lists.nodup t]
  · by_cases hqr : q = r
    · subst hqr; simp
    · rwa [hreq q hqr]
  · exact hmem (some j) n (hc' j n hd hn) hm
  · exact (h.core.placed q rq (by rwa [hreq q hq] at h1)).congr hsh (by simp) (by simp)
  · obtain ⟨sn0, hb, e⟩ := sess_of_infoOf (hi j) hs
    obtain ⟨e1, -, -, e4, -, -⟩ := SessionNode.eq_of_info e
    have hlj : sn.requestList = sn0.requestList := by
      rw [← requestsOf_eq hs, ← listAt_some, hl, if_neg hj, listAt_some, requestsOf_eq hb]
    rw [hlj, e4]
    exact h.core.populated.nonempty j sn0 hb (by simpa [e1] using hp)
  · by_cases hqr : q = r
    · subst hqr; intro rq; simp
    intro rq j sn h1 h2 h3
    rw [hreq q hqr] at h1
    obtain ⟨sn0, hb, e⟩ := sess_of_infoOf (hi j) h3
    obtain ⟨-, -, -, -, e5, e6⟩ := SessionNode.eq_of_info e
    rw [e5, e6, show ((b.remNode r).setReq r none).notifier = b.notifier by simp]
    refine (h.delivered q rq j sn0 h1 h2 hb).imp_right (.imp_right fun h0 => ?_)
    obtain ⟨c, hdi, hcu, hm⟩ := Notifier.mem_pendingOf.1 h0
    refine Notifier.mem_pendingOf.2 ⟨c, hdi, hcu, ?_⟩
    rw [← requestsOf_eq h3, ← listAt_some, hl, listAt_some, requestsOf_eq hb]
    split_ifs
    exacts [mem_suffixFrom_erase hqr (hc' j c hdi hcu) hm, hm]

/-- `bfd_request_free`, from a state whose walk is not at the request. -/
theorem Inv.requestFree (h : Inv b ex) (hc : b.notifier.cursor ≠ some r) :
    Inv (b.bfdRequestFree r) ex := by
  unfold bfdRequestFree
  split
  · exact h
  · next req hr =>
    obtain ⟨hst, hd⟩ := h.unlink hr hc
    have ht : ((b.remNode r).setReq r none).reqs r = none := by simp
    dsimp only
    split
    · next i hi =>
      rw [hi] at hst
      split
      · next sn hs =>
        split_ifs with hem
        · exact Inv.removeSession hs hst ht hd hem.1 hem.2
        · refine hst.inv ht hd fun j sn' e hs' _ => ?_
          cases e; rw [hs] at hs'; cases hs'
          exact (not_and_or.1 hem).imp id fun h => by simpa using h
      · next hs => exact hst.inv ht hd fun j sn' e hs' => by cases e; simp [hs] at hs'
    · next hi => rw [hi] at hst; exact hst.inv ht hd fun j sn' e => by cases e

/-! ## The calls as hooks -/

section Hooks
variable {addr localAddr : Nat} {iface vrf : Option Nat} {opts : BfdOptions}

/-- `bfd_request_session` moves no request that existed before it. -/
theorem kept_requestSession (r : Nat) (b : Broker) :
    Kept r b (b.bfdRequestSession addr localAddr iface vrf opts now) := by
  have hk : Kept b.nextId _ (b.bfdRequestSession addr localAddr iface vrf opts now) :=
    kept_submit fun _ => Kept.refl _ _
  refine ⟨hk.cursor, hk.protoList, le_trans (by simp) hk.nextId, fun q _ hq => ?_,
    fun i sn' hi h => hk.engine i sn' (by simp; omega) h⟩
  rw [hk.ptr q (by omega) (by simp; omega)]
  simp [ptr, Function.update_noteq (show q ≠ b.nextId by omega)]

theorem kept_reconfigureSession (r i : Nat) (b : Broker) :
    Kept r b (b.bfdReconfigureSession i now) := by
  unfold bfdReconfigureSession
  split
  · next sn hs =>
    repeat' split
    all_goals refine ⟨rfl, rfl, le_rfl, fun _ _ _ => rfl, fun j sn' _ h => ?_⟩
    · by_cases hj : j = i
      · subst hj; simp only [setSess_sess, Function.update_same, Option.some.injEq] at h
        exact ⟨sn, hs, by rw [← h]⟩
      · exact ⟨sn', by simpa [Function.update_noteq hj] using h, rfl⟩
    all_goals exact ⟨sn', h, rfl⟩
  · exact Kept.refl r b

theorem kept_updateRequest (r q : Nat) (b : Broker) :
    Kept r b (b.bfdUpdateRequest q opts now) := by
  unfold bfdUpdateRequest
  split
  · exact Kept.refl r b
  · next req hr =>
    split_ifs
    · exact Kept.refl r b
    · have hs : Kept r b (b.setReq q (some { req with opts })) :=
        ⟨rfl, rfl, le_rfl, fun n _ _ => by
          by_cases hn : n = q
          · subst hn; simp [ptr, hr]
          · simp [ptr, Function.update_noteq hn], fun _ _ _ h => ⟨_, h, rfl⟩⟩
      split
      · exact hs.trans (kept_reconfigureSession r _ _)
      · exact hs

theorem kept_requestFree (r : Nat) (b : Broker) : Kept r b (b.bfdRequestFree r) := by
  unfold bfdRequestFree
  split
  · exact Kept.refl r b
  · dsimp only
    have hu : Kept r b ((b.remNode r).setReq r none) :=
      ⟨by simp, by simp, by simp, fun q hq _ => by simp [ptr, Function.update_noteq hq],
        fun i sn' _ => engine_of_infoOf remNode_infoOf i sn'⟩
    repeat' split
    all_goals first | exact hu.trans (kept_removeSession r _ _) | exact hu

theorem ptr_requestFree (r : Nat) (b : Broker) :
    (b.bfdRequestFree r).ptr r = b.ptr r ∨ (b.bfdRequestFree r).ptr r = none := by
  unfold bfdRequestFree
  split
  · exact Or.inl rfl
  · right; dsimp only
    repeat' split
    all_goals simp [ptr]

variable (ex)

/-- Every call a hook can make is a hook the broker may call. -/
theorem hookOk_hookCall (r : Nat) (act : HookAct) : HookOk ex r (fun b => hookCall r now b act) := by
  cases act with
  | request addr localAddr iface vrf opts =>
    exact ⟨fun b h _ => h.requestSession addr localAddr iface vrf opts, kept_requestSession r,
      fun b hn => Or.inl (Kept.ptr_all (fun r' => kept_requestSession r' b) hn)⟩
  | update q opts =>
    exact ⟨fun b h _ => h.updateRequest q opts, kept_updateRequest r q,
      fun b hn => Or.inl (Kept.ptr_all (fun r' => kept_updateRequest r' q b) hn)⟩
  | free => exact ⟨fun b h hc => h.requestFree hc, kept_requestFree r, fun b _ => ptr_requestFree r b⟩

theorem hookOk_runHook (r : Nat) (acts : List HookAct) : HookOk ex r (runHook r acts now) := by
  induction acts with
  | nil => exact hookOk_id ex r
  | cons act acts ih => exact (hookOk_hookCall ex r act).comp ih

end Hooks

end Broker
end Bfd
