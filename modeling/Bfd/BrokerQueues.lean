import Mathlib.Data.List.Nodup
import Bfd.BrokerRun
import Bfd.BrokerCalls

/-! # The notify queues

`bfd_session_update_state` links a session's node `s->n` onto its engine's notify list when
`NODE_VALID(&s->n)` is false; `bfd_notify_hook` moves the list into its local `tmp_list` and
unlinks each session it walks; `bfd_remove_session` unlinks a linked session before freeing
it. The node is intrusive: linking a node that is on a list, or freeing a session whose node is
on one, corrupts the list. Over every interleaving, the queue of each engine (its notify list,
then the notifier's local list while it runs for the engine) holds each session once at most,
and holds exactly the live sessions of the engine whose node is linked.

`Queued` is the invariant. The main thread's calls keep it because their writes do
(`CallFrame`); the notifier's steps and the thread's are proved here, then `step` and `run`.
The other direction, that a linked session is queued, is part of the broker invariant
`Notified`. -/
namespace Bfd

namespace Broker

variable {b c : Broker} {i p : Nat}

/-- The sessions waiting for engine `p`'s notifier: its notify list, then the notifier's local
list while it runs for `p`. -/
def queueOf (b : Broker) (p : Nat) : List Nat := (b.engines p).notifyList ++ b.notifier.tmpOf p

/-- The engine of each live session and whether its node is linked. -/
def linkOf (b : Broker) (i : Nat) : Option (Nat × Bool) :=
  (b.sess i).map fun sn => (sn.engine, sn.core.linked)

/-- Every queue holds each session once at most, and only live sessions of its engine whose
node is linked; no session has an identifier not yet given out. -/
structure Queued (b : Broker) : Prop where
  fresh : ∀ n, b.nextId ≤ n → b.sess n = none
  nodup : ∀ p, (b.queueOf p).Nodup
  linked : ∀ p i, i ∈ b.queueOf p → b.linkOf i = some (p, true)

theorem Queued.not_mem (h : Queued b) {x : Nat × Bool} (hl : b.linkOf i = some x)
    (hx : x.2 = false) (p : Nat) : i ∉ b.queueOf p := fun hi => by
  rw [h.linked p i hi, Option.some.injEq] at hl
  subst hl; cases hx

theorem Queued.engine_eq (h : Queued b) {q : Nat} (hp : i ∈ b.queueOf p)
    (hq : i ∈ b.queueOf q) :
    p = q := by
  have e := (h.linked p i hp).symm.trans (h.linked q i hq)
  simp only [Option.some.injEq, Prod.mk.injEq] at e
  exact e.1

theorem Queued.sess_ne (h : Queued b) {sn : SessionNode} (hs : b.sess i = some sn) {n : Nat}
    (hn : b.nextId ≤ n) : n ≠ i := by
  rintro rfl; rw [h.fresh n hn] at hs; cases hs

theorem Queued.lt_of_mem (h : Queued b) (hi : i ∈ b.queueOf p) : i < b.nextId := by
  by_contra hn
  have hl := h.linked p i hi
  simp [linkOf, h.fresh i (by omega)] at hl

theorem Queued.of_frame (h : Queued b) (hf : ∀ n, c.nextId ≤ n → c.sess n = none)
    (hq : ∀ p, (c.queueOf p).Sublist (b.queueOf p))
    (hl : ∀ p i, i ∈ c.queueOf p → c.linkOf i = b.linkOf i) : Queued c :=
  ⟨hf, fun p => (h.nodup p).sublist (hq p),
    fun p i hi => (hl p i hi).trans (h.linked p i ((hq p).subset hi))⟩

/-- A call that adds to no queue, changes no session's engine or link, and gives out no
identifier backwards. -/
theorem Queued.congr (h : Queued b) (hn : b.nextId ≤ c.nextId)
    (hl : ∀ i, c.linkOf i = b.linkOf i)
    (hq : ∀ p, (c.queueOf p).Sublist (b.queueOf p)) : Queued c :=
  h.of_frame (fun n hn' => by simpa [linkOf, h.fresh n (hn.trans hn')] using hl n) hq
    fun _ i _ => hl i

theorem Queued.of_erase (h : Queued b) (hf : ∀ n, c.nextId ≤ n → c.sess n = none)
    (hq : ∀ q, c.queueOf q = (b.queueOf q).erase i)
    (hl : ∀ j, j ≠ i → c.linkOf j = b.linkOf j) :
    Queued c :=
  h.of_frame hf (fun q => hq q ▸ List.erase_sublist _ _) fun q j hj =>
    hl j ((h.nodup q).mem_erase_iff.1 (hq q ▸ hj)).1

theorem queueOf_setEngine {e : Engine} (he : e.notifyList = (b.engines p).notifyList) (q : Nat) :
    (b.setEngine p e).queueOf q = b.queueOf q := by
  by_cases hq : q = p
  · subst hq; simp [queueOf, he]
  · simp [queueOf, Function.update_noteq hq]

/-! ## Writing a session in place -/

/-- A session written in place keeps its engine, and its node stays linked if it was. -/
theorem Queued.setSess (h : Queued b) {sn : SessionNode} (hs : b.sess i = some sn)
    (sn' : SessionNode) (he : sn'.engine = sn.engine)
    (hk : sn.core.linked = true → sn'.core.linked = true) :
    Queued (b.setSess i (some sn')) := by
  refine h.of_frame (fun n hn => ?_) (fun _ => List.Sublist.refl _) (fun q j hj => ?_)
  · simp only [setSess_sess, setSess_nextId] at hn ⊢
    rw [Function.update_noteq (h.sess_ne hs hn)]
    exact h.fresh n hn
  · by_cases hji : j = i
    · subst hji
      have hl := h.linked q j hj
      simp only [linkOf, hs, Option.map_some', Option.some.injEq, Prod.mk.injEq] at hl
      simp only [linkOf, setSess_sess, Function.update_same, hs, Option.map_some', he, hk hl.2,
        hl.2]
    · simp only [linkOf, setSess_sess, Function.update_noteq hji]

theorem Queued.setList (h : Queued b) {sn : SessionNode} (hs : b.sess i = some sn)
    (l : List Nat) : Queued (b.setSess i (some { sn with requestList := l })) :=
  h.setSess hs _ rfl id

theorem Queued.remNode (h : Queued b) (r : Nat) : Queued (b.remNode r) := by
  unfold Broker.remNode
  split
  · split
    · exact h.setList ‹_› _
    · exact h
  · exact h.congr le_rfl (fun _ => rfl) fun _ => List.Sublist.refl _

theorem Queued.addTail (h : Queued b) (s : Option Nat) (r : Nat) : Queued (b.addTail s r) := by
  unfold Broker.addTail
  split
  · exact h.congr le_rfl (fun _ => rfl) fun _ => List.Sublist.refl _
  · split
    · exact h.setList ‹_› _
    · exact h

/-! ## Making and removing a session -/

theorem addSession_queueOf {req : Request} {now : ℕ+} (q : Nat) :
    (b.bfdAddSession p req now).1.queueOf q = b.queueOf q := by
  simp only [queueOf, addSession_engines, addSession_notifier]
  split_ifs with hq <;> simp [hq]

/-- A new session's node is not linked, and its identifier is on no queue. -/
theorem Queued.addSession (h : Queued b) (p : Nat) (req : Request) (now : ℕ+) :
    Queued (b.bfdAddSession p req now).1 := by
  refine h.of_frame (fun n hn => ?_) (fun q => by rw [addSession_queueOf]) (fun q j hj => ?_)
  · rw [addSession_nextId] at hn
    rw [addSession_sess_old (by omega)]
    exact h.fresh n (by omega)
  · rw [addSession_queueOf] at hj
    simp only [linkOf, addSession_sess_old (Nat.ne_of_lt (h.lt_of_mem hj))]

/-- `bfd_remove_session` takes a linked session off its queue, the only one it is on. -/
theorem Queued.removeSession_queueOf (h : Queued b) {sn : SessionNode} (hs : b.sess i = some sn)
    (q : Nat) : (b.bfdRemoveSession i).queueOf q = (b.queueOf q).erase i := by
  simp only [queueOf, removeSession_notifyList hs, removeSession_notifier hs]
  by_cases hk : sn.core.linked
  · simp only [hk, and_true, if_true, Notifier.tmpOf_eraseTmp]
    by_cases hq : q = sn.engine
    · have hn := h.nodup q
      rw [if_pos hq]
      by_cases hi : i ∈ (b.engines q).notifyList
      · rw [List.erase_append_left _ hi,
          List.erase_of_not_mem (List.disjoint_of_nodup_append hn hi)]
      · rw [List.erase_append_right _ hi, List.erase_of_not_mem hi]
    · have hni : i ∉ (b.engines q).notifyList ++ b.notifier.tmpOf q := fun hi => hq (by
        have hl := h.linked q i hi
        simp only [linkOf, hs, Option.map_some', Option.some.injEq, Prod.mk.injEq] at hl
        exact hl.1.symm)
      rw [if_neg hq, List.erase_of_not_mem hni,
        List.erase_of_not_mem fun hi => hni (List.mem_append_right _ hi)]
  · have hni : i ∉ (b.engines q).notifyList ++ b.notifier.tmpOf q :=
      h.not_mem (x := (sn.engine, false)) (by simp [linkOf, hs, hk]) rfl q
    simp only [hk, and_false, if_false, Bool.false_eq_true]
    exact (List.erase_of_not_mem hni).symm

theorem Queued.removeSession (h : Queued b) (i : Nat) : Queued (b.bfdRemoveSession i) := by
  cases hs : b.sess i with
  | none => simpa [bfdRemoveSession, hs] using h
  | some sn =>
    refine h.of_erase (fun n hn => ?_) (h.removeSession_queueOf hs) fun j hj => ?_
    · rw [removeSession_nextId] at hn
      rw [removeSession_sess hs, Function.update_noteq (h.sess_ne hs hn)]
      exact h.fresh n hn
    · simp only [linkOf, removeSession_sess hs, Function.update_noteq hj]

/-! ## The calls of the main thread and the hooks -/

/-- A reconfiguration leaves the node as it is. -/
theorem Queued.reconfigureSession (h : Queued b) (i : Nat) (now : ℕ+) :
    Queued (b.bfdReconfigureSession i now) := by
  unfold bfdReconfigureSession
  split
  · next sn hs =>
    repeat' split
    · exact h.setSess hs _ rfl fun hk => by simpa using hk
    all_goals exact h
  · exact h

/-- The main thread's writes keep the queues sound. -/
theorem callFrame_queued : CallFrame fun b c => Queued b → Queued c where
  refl _ h := h
  trans h₁ h₂ h := h₂ (h₁ h)
  setReq _ _ _ _ h := h.congr le_rfl (fun _ => rfl) fun _ => List.Sublist.refl _
  remNode _ r h := h.remNode r
  addTail _ s r h := h.addTail s r
  allocate _ h := h.congr (Nat.le_succ _) (fun _ => rfl) fun _ => List.Sublist.refl _
  addSession _ p req now h := h.addSession p req now
  reconfigureSession _ i now h := h.reconfigureSession i now
  removeSession _ i h := h.removeSession i
  addEngine b _ h := h.congr (Nat.le_succ _) (fun _ => rfl) fun q => by
    by_cases hq : q = b.nextId
    · subst hq
      simp [queueOf]
    · simp [queueOf, Function.update_noteq hq]
  leave _ _ h := h.congr le_rfl (fun _ => rfl) fun _ => List.Sublist.refl _

/-! ## The BFD thread and the notifier -/

/-- A node that becomes linked joins the tail of its engine's notify list; it was on no
queue. -/
theorem Queued.enqueue (h : Queued b) (hl : b.linkOf i = some (p, true)) (hn : i ∉ b.queueOf p)
    {e : Engine} (he : e.notifyList = (b.engines p).notifyList ++ [i]) :
    Queued (b.setEngine p e) where
  fresh := h.fresh
  nodup q := by
    by_cases hq : q = p
    · subst hq
      simp only [queueOf, setEngine_engines, setEngine_notifier, Function.update_same, he,
        List.append_assoc, List.singleton_append]
      exact List.nodup_middle.2 (List.nodup_cons.2 ⟨hn, h.nodup q⟩)
    · simpa [queueOf, Function.update_noteq hq] using h.nodup q
  linked q j hj := by
    by_cases hq : q = p
    · subst hq
      simp only [queueOf, setEngine_engines, setEngine_notifier, Function.update_same, he,
        List.mem_append, List.mem_singleton] at hj
      rcases hj with (hj | rfl) | hj
      · exact h.linked q j (List.mem_append_left _ hj)
      · exact hl
      · exact h.linked q j (List.mem_append_right _ hj)
    · exact h.linked q j (by simpa [queueOf, Function.update_noteq hq] using hj)

/-- The node is linked only on a change of state that finds it unlinked, and a step never
unlinks it. -/
theorem Queued.threadStep (h : Queued b) (p i : Nat) (now : ℕ+) (ev : SessionEvent) :
    Queued (b.threadStep p i now ev) := by
  unfold Broker.threadStep
  split
  · next sn hs =>
    have h' := h.setSess hs { sn with core := sessionStep sn.core now ev } rfl fun hk => by
      simp [sessionStep_linked, hk]
    dsimp only
    split_ifs with he hl
    · refine h'.enqueue ?_ (h.not_mem (x := (sn.engine, false)) ?_ rfl p) rfl
      · simp [linkOf, he, hl.2]
      · simp [linkOf, hs, hl.1]
    · exact h'
    · exact h
  · exact h

theorem queueOf_notifyKick (q : Nat) : (b.notifyKick p).queueOf q = b.queueOf q := by
  unfold notifyKick
  apply queueOf_setEngine
  rfl

theorem Queued.kick (h : Queued b) (p : Nat) : Queued (b.notifyKick p) :=
  h.congr le_rfl (fun _ => rfl) fun q => by rw [queueOf_notifyKick]

/-- The drain leaves the notifier with no local list. -/
theorem Queued.drain (h : Queued b) (p : Nat) : Queued (b.notifyDrain p) :=
  h.congr le_rfl (fun _ => rfl) fun q => by
    have e : (b.notifyDrain p).queueOf q = (b.engines q).notifyList := by
      by_cases hq : q = p
      · subst hq; simp [queueOf, notifyDrain, Notifier.tmpOf]
      · simp [queueOf, notifyDrain, Notifier.tmpOf, Function.update_noteq hq]
    rw [e]
    exact List.sublist_append_left _ _

/-- The splice moves the notify list into the notifier's local list. -/
theorem Queued.splice (h : Queued b) (hd : b.notifier = .drained p) : Queued (b.notifySplice p) :=
  h.congr le_rfl (fun _ => rfl) fun q => by
    by_cases hq : q = p
    · subst hq; simp [queueOf, notifySplice, hd, Notifier.tmpOf]
    · simp [queueOf, notifySplice, hd, Notifier.tmpOf, Function.update_noteq hq, Ne.symm hq]

/-- The walk takes the first session off the local list and unlinks its node. -/
theorem Queued.pick (h : Queued b) {tmp : List Nat} (hw : b.notifier = .walking p tmp) :
    Queued (b.notifyPick p tmp) := by
  cases tmp with
  | nil =>
    exact h.congr le_rfl (fun _ => rfl) fun q => by
      simp [queueOf, notifyPick, hw, Notifier.tmpOf]
  | cons i tmp =>
    have hq : ∀ q, (b.engines q).notifyList ++ Notifier.tmpOf q (.walking p tmp) =
        (b.queueOf q).erase i := fun q => by
      by_cases hqp : p = q
      · subst hqp
        have hn : (i :: ((b.engines p).notifyList ++ tmp)).Nodup :=
          List.nodup_middle.1 (by simpa [queueOf, hw, Notifier.tmpOf] using h.nodup p)
        have hi : i ∉ (b.engines p).notifyList := fun hi =>
          (List.nodup_cons.1 hn).1 (List.mem_append_left _ hi)
        simp only [queueOf, hw, Notifier.tmpOf, if_true]
        rw [List.erase_append_right _ hi, List.erase_cons_head]
      · have hi : i ∈ b.queueOf p := by simp [queueOf, hw, Notifier.tmpOf]
        have hni : i ∉ b.queueOf q := fun hi' => hqp (h.engine_eq hi hi')
        rw [List.erase_of_not_mem hni]
        simp [queueOf, hw, Notifier.tmpOf, hqp]
    dsimp only [notifyPick]
    split
    · next sn hs =>
      refine h.of_erase (fun n hn => ?_) (fun q => hq q) fun j hj => ?_
      · simp only [setSess_sess, setSess_nextId] at hn ⊢
        rw [Function.update_noteq (h.sess_ne hs hn)]
        exact h.fresh n hn
      · simp only [linkOf, setSess_sess, Function.update_noteq hj]
    · exact h.of_erase h.fresh (fun q => hq q) fun _ _ => rfl

theorem Queued.deliver (h : Queued b) {tmp : List Nat} {i n : Nat}
    {snap : BfdState × BfdState × Nat} (hd : b.notifier = .dispatching p tmp i snap (some n))
    (acts : List HookAct) (now : ℕ+) : Queued (b.notifyDeliver p tmp i snap n acts now) := by
  unfold notifyDeliver
  refine callFrame_queued.requestNotify (callFrame_queued.runHook n acts now)
    (fun _ _ h' => h'.congr le_rfl (fun _ => rfl) fun _ => List.Sublist.refl _) ?_
  exact h.congr le_rfl (fun _ => rfl) fun q => by simp [queueOf, hd, Notifier.tmpOf]

/-- After the walk of a session, the session is removed if its requests are gone. -/
theorem Queued.finish (h : Queued b) {tmp : List Nat} {i : Nat}
    {snap : BfdState × BfdState × Nat} (hd : b.notifier = .dispatching p tmp i snap none) :
    Queued (b.notifyFinish p tmp i) := by
  unfold notifyFinish
  split
  · next sn hs =>
    have h' : Queued { b.setSess i (some { sn with notifyRunning := false }) with
        notifier := .walking p tmp } :=
      (h.setSess hs { sn with notifyRunning := false } rfl id).congr le_rfl (fun _ => rfl)
        fun q => by
        simp [queueOf, hd, Notifier.tmpOf]
    dsimp only
    split_ifs
    exacts [h'.removeSession i, h']
  · exact h.congr le_rfl (fun _ => rfl) fun q => by simp [queueOf, hd, Notifier.tmpOf]

theorem Queued.step (h : Queued b) (a : Action) : Queued (b.step a) := by
  cases a with
  | thread p i now ev => simp only [Broker.step]; split; exacts [h.threadStep p i now ev, h]
  | kick p => simp only [Broker.step]; split; exacts [h.kick p, h]
  | drain p => simp only [Broker.step]; split; exacts [h.drain p, h]
  | splice => simp only [Broker.step]; split; exacts [h.splice ‹_›, h]
  | pick => simp only [Broker.step]; split; exacts [h.pick ‹_›, h]
  | deliver acts now => simp only [Broker.step]; split; exacts [h.deliver ‹_› acts now, h]
  | finish => simp only [Broker.step]; split; exacts [h.finish ‹_›, h]
  | request addr localAddr iface vrf opts now =>
    simp only [Broker.step]; split
    exacts [callFrame_queued.requestSession _ addr localAddr iface vrf opts now h, h]
  | update r opts now =>
    simp only [Broker.step]; split; exacts [callFrame_queued.updateRequest _ r opts now h, h]
  | free r => simp only [Broker.step]; split; exacts [callFrame_queued.requestFree _ r h, h]
  | start cf plan now =>
    simp only [Broker.step]; split; exacts [callFrame_queued.start _ cf plan now h, h]
  | shutdown p plan now =>
    simp only [Broker.step]; split; exacts [callFrame_queued.shutdown _ p plan now h, h]

theorem Reachable.queued (hb : b.Reachable) : Queued b := by
  obtain ⟨as, rfl⟩ := hb
  refine callFrame_queued.foldl (fun _ a hc => hc.step a) as _ ⟨fun _ _ => rfl, fun _ => ?_, ?_⟩
  · simp [queueOf, init, Engine.unused, Notifier.tmpOf]
  · intro _ _ hi
    simp [queueOf, init, Engine.unused, Notifier.tmpOf] at hi

/-- Over every interleaving, each engine's queue (its notify list, then the notifier's local
list while it runs for the engine) holds each session once at most, and holds exactly the live
sessions of the engine whose node is linked: the BFD thread never links a node that is on a
list, and no session is freed while its node is on one. -/
theorem notify_queue_exactly_linked (hb : b.Reachable) (p : Nat) :
    ((b.engines p).notifyList ++ b.notifier.tmpOf p).Nodup ∧
      ∀ i, i ∈ (b.engines p).notifyList ++ b.notifier.tmpOf p ↔
        ∃ sn, b.sess i = some sn ∧ sn.engine = p ∧ sn.core.linked = true := by
  have h := hb.queued
  refine ⟨h.nodup p, fun i => ⟨fun hi => ?_, ?_⟩⟩
  · have hl := h.linked p i hi
    simp only [linkOf, Option.map_eq_some', Prod.mk.injEq] at hl
    exact hl
  · rintro ⟨sn, hs, rfl, hk⟩
    rcases hb.inv.core.notified.listed i sn hs hk with hl | hl
    exacts [List.mem_append_left _ hl, List.mem_append_right _ hl]

/-- The peer of session 2 says Down: the session goes to Init and is queued once. -/
def linkRun : List Action := attachRun ++ [.thread 0 2 2 (.rx (examplePacket .down 0))]

theorem notify_queue_exactly_linked_after_rx :
    (((init.run linkRun).engines 0).notifyList ++ (init.run linkRun).notifier.tmpOf 0).Nodup ∧
      ∀ i, i ∈ ((init.run linkRun).engines 0).notifyList ++
          (init.run linkRun).notifier.tmpOf 0 ↔
        ∃ sn, (init.run linkRun).sess i = some sn ∧ sn.engine = 0 ∧ sn.core.linked = true :=
  notify_queue_exactly_linked ⟨linkRun, rfl⟩ 0

example : ((init.run linkRun).engines 0).notifyList = [2] := rfl

end Broker

end Bfd
