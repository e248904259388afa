import Bfd.BrokerEngine

/-! # The BFD thread and the notifier

A BFD thread changes the core of a session of its engine and, when the change links the
session, puts it on the engine's notify list and kicks the pipe. The main thread's
`bfd_notify_hook` drains the pipe, splices the notify list, and walks the requests of each
session it unlinks. Every step keeps the invariant. -/
namespace Bfd

namespace Notifier

/-- Moving the cursor past `n` leaves every other request the walk has still to reach. -/
theorem pendingOf_advance {p i n q : Nat} {tmp : List Nat}
    {snap : BfdState × BfdState × Nat} {l : List Nat} (hl : l.Nodup) (hn : n ∈ l) (hq : q ≠ n)
    (j : Nat) (h : q ∈ (dispatching p tmp i snap (some n)).pendingOf j l) :
    q ∈ (dispatching p tmp i snap (listNext n l)).pendingOf j l := by
  simp only [pendingOf] at h
  split_ifs at h with hj
  · rw [suffixFrom_listNext hl hn, List.mem_cons] at h
    have h' := h.resolve_left hq
    cases hm : listNext n l with
    | none => rw [hm] at h'; cases h'
    | some m => rw [hm] at h'; simpa [pendingOf, hj] using h'
  · cases h

end Notifier

namespace Broker

variable {b : Broker} {ex : Nat → Nat → Prop}

/-- The components a step that touches only the cores, the notify lists, the pipes and the
notifier's state carries over; the notification itself is shown for each step. -/
theorem Core.congrShape {b' : Broker} (h : Core b ex) (hn : Notified b') (hr : b'.reqs = b.reqs)
    (hi : ∀ j, b'.shapeOf j = b.shapeOf j) (hrun : ∀ j, b'.runningOf j = b.runningOf j)
    (hl : ∀ j, b'.requestsOf j = b.requestsOf j) (hw : b'.waitList = b.waitList)
    (hs : ∀ p, (b'.engines p).sessions = (b.engines p).sessions)
    (hcf : ∀ p, (b'.engines p).cf = (b.engines p).cf) (hp : b'.protoList = b.protoList)
    (hd : b'.notifier.dispatched = b.notifier.dispatched)
    (hc : b'.notifier.cursor = b.notifier.cursor) (hid : b'.nextId = b.nextId)
    (hlog : b'.removedLog = b.removedLog) : Core b' ex :=
  ⟨h.lists.congr (fun q => by simp [ptr, hr]) (fun t => by cases t <;> simp [hw, hl]),
    h.fresh.congr (fun q => by rw [hr]; exact id) hi hp hid, h.registry.congr hi hs hp,
    h.walk.congr hrun hd hc (fun j _ n _ hm => by rwa [hl]), h.placed.congr hr hi hcf hp,
    h.populated.congr hi hrun hl hp hlog, hn⟩

/-! ## The BFD thread -/

section Thread
variable {i p : Nat} {sn : SessionNode} {c : Session}

theorem setCore_shapeOf (hs : b.sess i = some sn) (j : Nat) :
    (b.setSess i (some { sn with core := c })).shapeOf j = b.shapeOf j := by
  by_cases hj : j = i
  · subst hj; simp [shapeOf, infoOf, hs, SessionNode.info, SessionInfo.shape]
  · simp [shapeOf, infoOf, Function.update_noteq hj]

theorem setCore_runningOf (hs : b.sess i = some sn) (j : Nat) :
    (b.setSess i (some { sn with core := c })).runningOf j = b.runningOf j := by
  by_cases hj : j = i
  · subst hj; simp [runningOf, infoOf, hs, SessionNode.info]
  · simp [runningOf, infoOf, Function.update_noteq hj]

theorem setCore_requestsOf (hs : b.sess i = some sn) (j : Nat) :
    (b.setSess i (some { sn with core := c })).requestsOf j = b.requestsOf j := by
  rw [requestsOf_setSess]
  split_ifs with hj
  · subst hj; simp [requestsOf_eq hs]
  · rfl

theorem setCore_sess_ne (hs : b.sess i = some sn) {j : Nat} {sn' : SessionNode}
    (h : (b.setSess i (some { sn with core := c })).sess j = some sn') :
    (j = i ∧ sn' = { sn with core := c }) ∨ (j ≠ i ∧ b.sess j = some sn') := by
  by_cases hj : j = i
  · subst hj; simp at h; exact Or.inl ⟨rfl, h.symm⟩
  · rw [setSess_sess, Function.update_noteq hj] at h; exact Or.inr ⟨hj, h⟩

/-- A linked core: its requests need not have its state. -/
theorem DeliveredAt.setLinked (hd : ∀ q, b.DeliveredAt q) (hs : b.sess i = some sn)
    (hc : c.linked = true) (q : Nat) : (b.setSess i (some { sn with core := c })).DeliveredAt q := by
  intro rq j sn' h1 h2 h3
  rcases setCore_sess_ne hs h3 with ⟨rfl, rfl⟩ | ⟨-, hb⟩
  · exact Or.inl hc
  · simpa [setCore_requestsOf hs, requestsOf_eq hb] using hd q rq j sn' h1 h2 hb

theorem Notified.setLinked (h : Notified b) (hs : b.sess i = some sn) (hc : c.linked = true)
    (hl : sn.core.linked = true) : Notified (b.setSess i (some { sn with core := c })) := by
  refine ⟨fun j sn' hj hl' => ?_, h.kicked, fun p tmp j snap cur sn' hd hj hl' => ?_⟩
  · rcases setCore_sess_ne hs hj with ⟨rfl, rfl⟩ | ⟨-, hb⟩
    · exact h.listed j sn hs hl
    · exact h.listed j sn' hb hl'
  · rcases setCore_sess_ne hs hj with ⟨rfl, rfl⟩ | ⟨-, hb⟩
    · simp [hc] at hl'
    · exact h.snapshot p tmp j snap cur sn' hd hb hl'

/-- `bfd_session_update_state` on an unlinked session: the session joins the tail of its
engine's notify list and the kick is pending. -/
theorem Notified.link (h : Notified b) (hs : b.sess i = some sn) (hc : c.linked = true) :
    Notified ((b.setSess i (some { sn with core := c })).setEngine sn.engine
      { b.engines sn.engine with
        notifyList := (b.engines sn.engine).notifyList ++ [i], kickPending := true }) := by
  refine ⟨fun j sn' hj hl' => ?_, fun q hq hne => ?_, fun p tmp j snap cur sn' hd hj hl' => ?_⟩
  · simp only [setEngine_sess, setEngine_engines, setEngine_notifier] at hj ⊢
    rcases setCore_sess_ne hs hj with ⟨rfl, rfl⟩ | ⟨-, hb⟩
    · simp
    · rcases h.listed j sn' hb hl' with hm | hm
      · left
        by_cases he : sn'.engine = sn.engine
        · rw [he, Function.update_same]; simp [← he, hm]
        · rwa [Function.update_noteq he]
      · exact Or.inr hm
  · simp only [setEngine_engines, setEngine_protoList, setEngine_notifier] at hq hne ⊢
    by_cases he : q = sn.engine
    · subst he; simp
    · rw [Function.update_noteq he] at hne ⊢; exact h.kicked q hq hne
  · simp only [setEngine_sess, setEngine_notifier] at hj hd
    rcases setCore_sess_ne hs hj with ⟨rfl, rfl⟩ | ⟨-, hb⟩
    · simp [hc] at hl'
    · exact h.snapshot p tmp j snap cur sn' hd hb hl'

/-- One event of the BFD thread of engine `p` on its session `i`. -/
theorem Inv.threadStep (h : Inv b ex) (p i : Nat) (now : ℕ+) (ev : SessionEvent) :
    Inv (b.threadStep p i now ev) ex := by
  unfold Broker.threadStep
  split
  · next sn hs =>
    have hsh := setCore_shapeOf (c := sessionStep sn.core now ev) hs
    have hrun := setCore_runningOf (c := sessionStep sn.core now ev) hs
    have hl := setCore_requestsOf (c := sessionStep sn.core now ev) hs
    have hlink : (sessionStep sn.core now ev).linked = _ := sessionStep_linked ev
    split_ifs with he
    · subst he
      dsimp only
      split_ifs with hlk
      · -- the change links the session
        have hcl : (sessionStep sn.core now ev).linked = true := hlk.2
        refine ⟨h.core.congrShape (h.core.notified.link hs hcl) rfl hsh hrun hl rfl
          (fun q => ?_) (fun q => ?_) rfl rfl rfl rfl rfl, fun q => ?_⟩
        · by_cases hq : q = sn.engine
          · subst hq; simp
          · simp [Function.update_noteq hq]
        · by_cases hq : q = sn.engine
          · subst hq; simp
          · simp [Function.update_noteq hq]
        · exact (DeliveredAt.setLinked h.delivered hs hcl q).congr rfl (fun _ => rfl)
            (fun _ => rfl) fun _ _ => rfl
      · by_cases hl0 : sn.core.linked = true
        · -- already linked: it stays linked
          have hcl : (sessionStep sn.core now ev).linked = true := by simp [hlink, hl0]
          exact ⟨h.core.congrShape (h.core.notified.setLinked hs hcl hl0) rfl hsh hrun hl rfl
            (fun _ => rfl) (fun _ => rfl) rfl rfl rfl rfl rfl,
            DeliveredAt.setLinked h.delivered hs hcl⟩
        · -- not linked before nor after: the state has not changed
          have hcl : (sessionStep sn.core now ev).linked = false := by
            simpa [hl0] using hlk
          have hst : (sessionStep sn.core now ev).locState = sn.core.locState := by
            simpa [hcl, hl0] using hlink
          refine h.congr rfl (fun j => ?_) hl rfl (fun _ => rfl) rfl rfl rfl rfl
          by_cases hj : j = i
          · subst hj; simp [infoOf, hs, SessionNode.info, hcl, hst, hl0]
          · simp [infoOf, Function.update_noteq hj]
    · exact h
  · exact h

end Thread

/-! ## The pipe -/

section Pipe
variable {p : Nat}

/-- An engine update that keeps what `Core.congrShape` reads of the engines. -/
theorem engine_update_sessions {e : Engine} (he : e.sessions = (b.engines p).sessions) (q : Nat) :
    ((b.setEngine p e).engines q).sessions = (b.engines q).sessions := by
  by_cases hq : q = p
  · subst hq; simpa using he
  · simp [Function.update_noteq hq]

theorem engine_update_cf {e : Engine} (he : e.cf = (b.engines p).cf) (q : Nat) :
    ((b.setEngine p e).engines q).cf = (b.engines q).cf := by
  by_cases hq : q = p
  · subst hq; simpa using he
  · simp [Function.update_noteq hq]

/-- `bfd_notify_kick`. -/
theorem Inv.kick (h : Inv b ex) (p : Nat) : Inv (b.notifyKick p) ex := by
  have hn := h.core.notified
  refine ⟨h.core.congrShape ⟨fun j sn hj hl => ?_, fun q hq hne => ?_, hn.snapshot⟩ rfl
    (fun _ => rfl) (fun _ => rfl) (fun _ => rfl) rfl (engine_update_sessions rfl)
    (engine_update_cf rfl) rfl rfl rfl rfl rfl, fun q => (h.delivered q).congr rfl
    (fun _ => rfl) (fun _ => rfl) fun _ _ => rfl⟩
  · by_cases he : sn.engine = p
    · simpa [notifyKick, he] using hn.listed j sn hj hl
    · simpa [notifyKick, Function.update_noteq he] using hn.listed j sn hj hl
  · by_cases hq' : q = p
    · subst hq'; simp [notifyKick]
    · simp only [notifyKick, setEngine_engines, Function.update_noteq hq'] at hne ⊢
      exact hn.kicked q hq hne

/-- `pipe_drain` at the start of `bfd_notify_hook`, on an idle notifier. -/
theorem Inv.drain (h : Inv b ex) (hi : b.notifier = .idle) (p : Nat) :
    Inv (b.notifyDrain p) ex := by
  have hn := h.core.notified
  refine ⟨h.core.congrShape ⟨fun j sn hj hl => ?_, fun q hq hne => ?_, fun _ _ _ _ _ _ e => ?_⟩
    rfl (fun _ => rfl) (fun _ => rfl) (fun _ => rfl) rfl (engine_update_sessions rfl)
    (engine_update_cf rfl) rfl (by simp [notifyDrain, hi, Notifier.dispatched])
    (by simp [notifyDrain, hi, Notifier.cursor]) rfl rfl,
    fun q => (h.delivered q).congr rfl (fun _ => rfl) (fun _ => rfl)
      fun _ _ => by simp [notifyDrain, hi, Notifier.pendingOf]⟩
  · have hl' := hn.listed j sn hj hl
    simp only [hi, Notifier.tmpOf, List.not_mem_nil, or_false] at hl'
    left
    by_cases he : sn.engine = p
    · simpa [notifyDrain, he] using hl'
    · simpa [notifyDrain, Function.update_noteq he] using hl'
  · by_cases hq' : q = p
    · subst hq'; simp [notifyDrain]
    · simp only [notifyDrain, setEngine_engines, Function.update_noteq hq'] at hne ⊢
      have := hn.kicked q hq hne
      simp only [hi, reduceCtorEq, or_false] at this
      exact this.imp_right Or.inl
  · simp [notifyDrain] at e

/-- Under the lock the notify list of the drained engine becomes the notifier's. -/
theorem Inv.splice (h : Inv b ex) (hd : b.notifier = .drained p) : Inv (b.notifySplice p) ex := by
  have hn := h.core.notified
  refine ⟨h.core.congrShape ⟨fun j sn hj hl => ?_, fun q hq hne => ?_, fun _ _ _ _ _ _ e => ?_⟩
    rfl (fun _ => rfl) (fun _ => rfl) (fun _ => rfl) rfl (engine_update_sessions rfl)
    (engine_update_cf rfl) rfl (by simp [notifySplice, hd, Notifier.dispatched])
    (by simp [notifySplice, hd, Notifier.cursor]) rfl rfl,
    fun q => (h.delivered q).congr rfl (fun _ => rfl) (fun _ => rfl)
      fun _ _ => by simp [notifySplice, hd, Notifier.pendingOf]⟩
  · have hl' := hn.listed j sn hj hl
    simp only [hd, Notifier.tmpOf, List.not_mem_nil, or_false] at hl'
    by_cases he : sn.engine = p
    · right; simpa [notifySplice, Notifier.tmpOf, he] using hl'
    · left; simpa [notifySplice, Function.update_noteq he] using hl'
  · by_cases hq' : q = p
    · subst hq'; simp [notifySplice] at hne
    · simp only [notifySplice, setEngine_engines, Function.update_noteq hq'] at hne ⊢
      rcases hn.kicked q hq hne with e | e | e
      · exact Or.inl e
      · exact Or.inr (Or.inl e)
      · rw [hd] at e; cases e; exact absurd rfl hq'
  · simp [notifySplice] at e

end Pipe

/-! ## The walk -/

theorem listNext_ne_self {n : Nat} : ∀ {l : List Nat}, l.Nodup → listNext n l ≠ some n
  | [], _ => by simp [listNext]
  | [_], _ => by simp [listNext]
  | x :: y :: l, hl => by
    rw [listNext_cons_cons]
    split_ifs with hx
    · subst hx
      intro e; cases e
      exact (List.nodup_cons.1 hl).1 (List.mem_cons_self _ _)
    · exact listNext_ne_self (List.nodup_cons.1 hl).2

section Walk
variable {p i : Nat} {tmp : List Nat} {sn : SessionNode}

/-- The notifier moves on to a state of the same kind whose local list keeps every live
linked session it had. -/
theorem Notified.setNotifier (h : Notified b) {n : Notifier}
    (hl : ∀ j sn, b.sess j = some sn → sn.core.linked = true →
      j ∈ b.notifier.tmpOf sn.engine → j ∈ n.tmpOf sn.engine)
    (hk : ∀ p, b.notifier = .drained p → n = .drained p)
    (hs : ∀ p tmp i snap cur, n = .dispatching p tmp i snap cur →
      ∃ tmp' cur', b.notifier = .dispatching p tmp' i snap cur') :
    Notified { b with notifier := n } where
  listed j sn hj hlk := (h.listed j sn hj hlk).imp_right (hl j sn hj hlk)
  kicked q hq hne := (h.kicked q hq hne).imp_right (Or.imp_right (hk q))
  snapshot p tmp j snap cur sn hd hj hlk :=
    let ⟨_, _, e⟩ := hs p tmp j snap cur hd
    h.snapshot _ _ j snap _ sn e hj hlk

theorem setSess_shapeOf {sn' : SessionNode} (hs : b.sess i = some sn)
    (he : sn'.engine = sn.engine ∧ sn'.addr = sn.addr ∧ sn'.ifindex = sn.ifindex) (j : Nat) :
    (b.setSess i (some sn')).shapeOf j = b.shapeOf j := by
  by_cases hj : j = i
  · subst hj; simp [shapeOf, infoOf, hs, SessionNode.info, SessionInfo.shape, he]
  · simp [shapeOf, infoOf, Function.update_noteq hj]

theorem setSess_requestsOf_same {sn' : SessionNode} (hs : b.sess i = some sn)
    (hl : sn'.requestList = sn.requestList) (j : Nat) :
    (b.setSess i (some sn')).requestsOf j = b.requestsOf j := by
  rw [requestsOf_setSess]
  split_ifs with hj
  · subst hj; simp [requestsOf_eq hs, hl]
  · rfl

theorem setSess_sess_cases {sn sn' : SessionNode} {j : Nat}
    (h : (b.setSess i (some sn)).sess j = some sn') :
    (j = i ∧ sn' = sn) ∨ (j ≠ i ∧ b.sess j = some sn') := by
  by_cases hj : j = i
  · subst hj; simp at h; exact Or.inl ⟨rfl, h.symm⟩
  · rw [setSess_sess, Function.update_noteq hj] at h; exact Or.inr ⟨hj, h⟩

/-- The notifier leaves a walking state for one that walks no session, and its local list
keeps every live session of the old one. -/
theorem Inv.leaveWalking (h : Inv b ex) (hw : b.notifier = .walking p tmp) {n : Notifier}
    (hn : n = .idle ∨ ∃ tmp', n = .walking p tmp')
    (hm : ∀ j sn, b.sess j = some sn → j ∈ tmp → j ∈ n.tmpOf p) :
    Inv { b with notifier := n } ex := by
  have hd : n.dispatched = none ∧ n.cursor = none ∧ ∀ j l, n.pendingOf j l = [] := by
    rcases hn with rfl | ⟨_, rfl⟩ <;> simp [Notifier.dispatched, Notifier.cursor, Notifier.pendingOf]
  refine ⟨h.core.congrShape (h.core.notified.setNotifier (fun j sn hj _ hj' => ?_)
      (fun _ e => by simp [hw] at e) (fun _ _ _ _ _ e => ?_)) rfl (fun _ => rfl) (fun _ => rfl)
      (fun _ => rfl) rfl (fun _ => rfl) (fun _ => rfl) rfl
      (show n.dispatched = _ by rw [hd.1, hw]; rfl) (show n.cursor = _ by rw [hd.2.1, hw]; rfl)
      rfl rfl,
    fun q => (h.delivered q).congr rfl (fun _ => rfl) (fun _ => rfl)
      fun j l => show n.pendingOf j l = _ by rw [hd.2.2, hw]; rfl⟩
  · simp only [hw, Notifier.tmpOf] at hj'
    split_ifs at hj' with hp
    · exact hp ▸ hm j sn hj hj'
    · cases hj'
  · rcases hn with rfl | ⟨_, rfl⟩ <;> cases e

/-- `WALK_LIST_FIRST`: the next session of the notifier's list is unlinked and its state read
under the lock, and the walk of its requests begins at the head of its list. -/
theorem Inv.pick (h : Inv b ex) (hw : b.notifier = .walking p tmp) : Inv (b.notifyPick p tmp) ex := by
  cases tmp with
  | nil => exact h.leaveWalking hw (.inl rfl) fun _ _ _ hm => by cases hm
  | cons i tmp =>
    have hn := h.core.notified
    -- no session is being walked
    have hnr : ∀ j sn, b.sess j = some sn → sn.notifyRunning = false := fun j sn hj => by
      simpa [hw, Notifier.dispatched] using h.core.walk.running j sn hj
    simp only [notifyPick]
    split
    · next sn hs =>
      have hsh : ∀ j, (b.setSess i (some
          { sn with core := { sn.core with linked := false }, notifyRunning := true })).shapeOf j =
          b.shapeOf j := setSess_shapeOf hs ⟨rfl, rfl, rfl⟩
      have hl : ∀ j, (b.setSess i (some
          { sn with core := { sn.core with linked := false }, notifyRunning := true })).requestsOf j =
          b.requestsOf j := setSess_requestsOf_same hs rfl
      have hls : ∀ t, (b.setSess i (some
          { sn with core := { sn.core with linked := false }, notifyRunning := true })).listAt t =
          b.listAt t := fun t => by cases t <;> simp [hl]
      refine ⟨⟨h.core.lists.congr (fun _ => rfl) hls, h.core.fresh.congr (fun _ => id) hsh rfl rfl,
        h.core.registry.congr hsh (fun _ => rfl) rfl,
        ⟨fun j sn' hj => ?_, fun j hd => ?_, fun j n hd hc => ?_⟩,
        h.core.placed.congr rfl hsh (fun _ => rfl) rfl,
        ⟨fun j sn' hj hp => ?_, h.core.populated.removed⟩,
        ⟨fun j sn' hj hlk => ?_, fun q hq hne => ?_, fun p' tmp' j snap cur sn' hd hj hlk => ?_⟩⟩,
        fun q => ?_⟩
      -- walk
      · rcases setSess_sess_cases hj with ⟨rfl, rfl⟩ | ⟨hji, hb⟩
        · simp [Notifier.dispatched]
        · simp [Notifier.dispatched, hnr j sn' hb, Ne.symm hji]
      · simp only [Notifier.dispatched, Option.some.injEq] at hd; subst hd; simp
      · simp only [Notifier.dispatched, Notifier.cursor, Option.some.injEq] at hd hc; subst hd
        simpa [requestsOf] using List.mem_of_mem_head? hc
      -- populated
      · rcases setSess_sess_cases hj with ⟨rfl, rfl⟩ | ⟨-, hb⟩
        · exact Or.inr rfl
        · exact h.core.populated.nonempty j sn' hb hp
      -- notified
      · rcases setSess_sess_cases hj with ⟨rfl, rfl⟩ | ⟨hji, hb⟩
        · cases hlk
        · refine (hn.listed j sn' hb hlk).imp (by simpa using ·) fun hm => ?_
          simp only [hw, Notifier.tmpOf] at hm ⊢
          split_ifs at hm ⊢
          · exact (List.mem_cons.1 hm).resolve_left hji
          · exact hm
      · simpa [hw] using hn.kicked q hq hne
      · simp only [Notifier.dispatching.injEq] at hd
        obtain ⟨-, -, rfl, rfl, -⟩ := hd
        rcases setSess_sess_cases hj with ⟨-, rfl⟩ | ⟨hji, -⟩
        · rfl
        · exact absurd rfl hji
      -- delivered: every request of the session is still to be reached
      · intro rq j sn' h1 h2 h3
        rcases setSess_sess_cases h3 with ⟨rfl, rfl⟩ | ⟨hji, hb⟩
        · have h1' : b.reqs q = some rq := h1
          have hq : q ∈ sn.requestList := by
            rw [← requestsOf_eq hs]; exact (h.core.lists.mem_iff (some j) q).2 (by simp [ptr, h1', h2])
          have hc := List.head?_eq_head (List.ne_nil_of_mem hq)
          right; right
          show q ∈ Notifier.pendingOf j sn.requestList (.dispatching p tmp j _ sn.requestList.head?)
          rw [hc]
          simpa [Notifier.pendingOf, suffixFrom_head _ _ hc] using hq
        · exact (h.delivered q rq j sn' h1 h2 hb).imp_right
            (.imp_right fun h0 => by simp [hw, Notifier.pendingOf] at h0)
    · next hs =>
      refine h.leaveWalking hw (.inr ⟨tmp, rfl⟩) fun j sn hj hm => ?_
      have hji : j ≠ i := by rintro rfl; rw [hs] at hj; cases hj
      simpa [Notifier.tmpOf] using (List.mem_cons.1 hm).resolve_left hji

/-- One turn of `WALK_LIST_DELSAFE`: the cursor moves past request `n`, which is notified of the
state read under the lock, and its hook makes its calls. -/
theorem Inv.deliver {snap : BfdState × BfdState × Nat} {n : Nat} (h : Inv b ex)
    (hd : b.notifier = .dispatching p tmp i snap (some n)) (acts : List HookAct) (now : ℕ+) :
    Inv (b.notifyDeliver p tmp i snap n acts now) ex := by
  have hwk := h.core.walk
  have hdi : b.notifier.dispatched = some i := by simp [hd, Notifier.dispatched]
  obtain ⟨sn, hs⟩ := Option.ne_none_iff_exists'.1 (hwk.alive i hdi)
  have hnl : n ∈ sn.requestList :=
    requestsOf_eq hs ▸ hwk.cursor i n hdi (by simp [hd, Notifier.cursor])
  have hnd : sn.requestList.Nodup := requestsOf_eq hs ▸ h.core.lists.nodup (some i)
  -- the broker with the cursor past `n`
  have hcore :
      Core { b with notifier := .dispatching p tmp i snap (listNext n (b.requestsOf i)) } ex :=
    ⟨h.core.lists.congr (fun _ => rfl) (fun t => by cases t <;> rfl),
      h.core.fresh.congr (fun _ => id) (fun _ => rfl) rfl rfl,
      h.core.registry.congr (fun _ => rfl) (fun _ => rfl) rfl,
      ⟨fun j sn' hj => by simpa [hd, Notifier.dispatched] using hwk.running j sn' hj,
        fun j hj => hwk.alive j (by simpa [hd, Notifier.dispatched] using hj), fun j m hj hm => by
          simp only [Notifier.dispatched, Notifier.cursor, Option.some.injEq] at hj hm
          subst hj; exact listNext_mem hm⟩,
      h.core.placed.congr rfl (fun _ => rfl) (fun _ => rfl) rfl,
      h.core.populated.congr (fun _ => rfl) (fun _ => rfl) (fun _ => rfl) rfl rfl,
      h.core.notified.setNotifier (fun j sn' _ _ hm => by simpa [hd, Notifier.tmpOf] using hm)
        (fun _ e => by simp [hd] at e) fun p' tmp' j snap' cur e => by
          simp only [Notifier.dispatching.injEq] at e
          obtain ⟨rfl, rfl, rfl, rfl, -⟩ := e
          exact ⟨tmp, _, hd⟩⟩
  refine Inv.requestNotify hcore (fun q hq => ?_) (hookOk_runHook ex n acts) ?_ ?_
  · -- the others: the walk has moved past `n` only
    intro rq j sn' h1 h2 h3
    refine (h.delivered q rq j sn' h1 h2 h3).imp_right (.imp_right fun h0 => ?_)
    rw [hd] at h0
    by_cases hji : j = i
    · subst hji
      obtain rfl : sn' = sn := Option.some.inj ((show b.sess j = some sn' from h3).symm.trans hs)
      show q ∈ Notifier.pendingOf j sn'.requestList
        (.dispatching p tmp j snap (listNext n (b.requestsOf j)))
      rw [requestsOf_eq hs]; exact Notifier.pendingOf_advance hnd hnl hq j h0
    · simp [Notifier.pendingOf, Ne.symm hji] at h0
  · show listNext n (b.requestsOf i) ≠ some n
    rw [requestsOf_eq hs]; exact listNext_ne_self hnd
  · -- `n` itself gets the state read under the lock
    intro rq j sn' h1 h2 h3
    have hp := (h.core.lists.mem_iff (some i) n).1 (by rwa [listAt_some, requestsOf_eq hs])
    rw [ptr, show b.reqs n = some rq from h1, Option.map_some', h2] at hp
    have hji : j = i := by simpa using hp
    subst hji
    obtain rfl : sn' = sn := Option.some.inj ((show b.sess j = some sn' from h3).symm.trans hs)
    by_cases hl : sn'.core.linked = true
    · exact Or.inl hl
    · exact Or.inr (Or.inl (h.core.notified.snapshot p tmp j snap _ sn' hd hs (by simpa using hl)))

/-- The end of the walk of session `i`: `notify_running` is cleared, and the session is removed
if the hooks freed all its requests. -/
theorem Inv.finish {snap : BfdState × BfdState × Nat} (h : Inv b ex)
    (hd : b.notifier = .dispatching p tmp i snap none) : Inv (b.notifyFinish p tmp i) ex := by
  have hwk := h.core.walk
  have hn := h.core.notified
  have hdi : b.notifier.dispatched = some i := by simp [hd, Notifier.dispatched]
  unfold notifyFinish
  split
  · next sn hs =>
    have hsh : ∀ j, (b.setSess i (some { sn with notifyRunning := false })).shapeOf j = b.shapeOf j :=
      setSess_shapeOf hs ⟨rfl, rfl, rfl⟩
    have hl : ∀ j, (b.setSess i (some { sn with notifyRunning := false })).requestsOf j =
        b.requestsOf j := setSess_requestsOf_same hs rfl
    have hst : Staged { b.setSess i (some { sn with notifyRunning := false }) with
        notifier := .walking p tmp } ex b.nextId (some i) := by
      refine ⟨Lists.off ?_ _, h.core.fresh.congr (fun _ => id) hsh rfl rfl,
        h.core.registry.congr hsh (fun _ => rfl) rfl,
        ⟨fun j sn' hj => ?_, fun j e => (by simp [Notifier.dispatched] at e),
          fun j _ e => (by simp [Notifier.dispatched] at e)⟩,
        fun q rq _ hq => (h.core.placed q rq hq).congr hsh (fun _ => rfl) rfl,
        fun j sn' hji hj hp => ?_, h.core.populated.removed,
        ⟨fun j sn' hj hlk => ?_, fun q hq hne => ?_, fun _ _ _ _ _ _ e => (by cases e)⟩⟩
      · exact h.core.lists.congr (fun _ => rfl) fun t => by cases t; rfl; exact hl _
      · rcases setSess_sess_cases hj with ⟨rfl, rfl⟩ | ⟨hji, hb⟩
        · simp [Notifier.dispatched]
        · simpa [hd, Notifier.dispatched, Ne.symm hji] using hwk.running j sn' hb
      · rcases setSess_sess_cases hj with ⟨rfl, -⟩ | ⟨-, hb⟩
        · exact absurd rfl hji
        · exact h.core.populated.nonempty j sn' hb hp
      · rcases setSess_sess_cases hj with ⟨rfl, rfl⟩ | ⟨-, hb⟩
        · simpa [hd, Notifier.tmpOf] using hn.listed j sn hs hlk
        · simpa [hd, Notifier.tmpOf] using hn.listed j sn' hb hlk
      · simpa [hd] using hn.kicked q hq hne
    have hdl : ∀ q, DeliveredAt { b.setSess i (some { sn with notifyRunning := false }) with
        notifier := .walking p tmp } q := fun q rq j sn' h1 h2 h3 => by
      simp only [Notifier.pendingOf, List.not_mem_nil, or_false]
      rcases setSess_sess_cases h3 with ⟨rfl, rfl⟩ | ⟨-, hb⟩
      · simpa [hd, Notifier.pendingOf] using h.delivered q rq j sn h1 h2 hs
      · simpa [hd, Notifier.pendingOf] using h.delivered q rq j sn' h1 h2 hb
    have ht : b.reqs b.nextId = none := h.core.fresh.req _ le_rfl
    dsimp only
    split_ifs with he
    · have hs1 : ({ b.setSess i (some { sn with notifyRunning := false }) with
          notifier := Notifier.walking p tmp } : Broker).sess i =
          some { sn with notifyRunning := false } := by simp
      exact Inv.removeSession hs1 hst ht hdl he rfl
    · exact hst.inv ht hdl fun j sn' e hs' _ => by
        cases e; simp only [setSess_sess, Function.update_same, Option.some.injEq] at hs'
        subst hs'; exact Or.inl he
  · next hs => exact absurd hs (hwk.alive i hdi)

end Walk

end Broker
end Bfd
