import Bfd.BrokerSessions

/-! # The diagnostic a request holds

`bfd_request_notify` writes a request's state and diagnostic together, and only when the state
it is told differs from the one the request holds (`if (req->state == state) return;`). The
notifier reads a session's state once per run, so transitions of one session that a single run
delivers reach its requests as one, and when they end in the state a request already holds,
the request keeps its older diagnostic (`quiescent_request_keeps_stale_diag`).

What the broker keeps is the diagnostic's kind. Every request, and the state the notifier
read, holds a diagnostic its state is reported with (`DiagOk`): none for AdminDown, Init and
Up; none, Time expired or Neighbor down for Down. The main thread's calls keep this through
their writes (`callFrame_agreeing`), the notifier through the state it read, the BFD threads
through the handshake invariant of the session. So once no notification is on its way, an
attached request has its session's diagnostic unless the session is Down, and a Down
diagnostic when it is (`quiescent_request_diag`). -/
namespace Bfd

/-- The diagnostics a state is reported with: Down with none, Time expired or Neighbor down,
every other state with none. -/
def DiagOk : BfdState → Nat → Prop
  | .down, diag => diag = bfdDiagNothing ∨ diag = bfdDiagTimeout ∨ diag = bfdDiagNeighborDown
  | _, diag => diag = bfdDiagNothing

theorem Agrees.diagOk {s : Session} (h : Agrees (handshake s)) : DiagOk s.locState s.locDiag := by
  unfold handshake at h
  cases hl : s.locState <;> rw [hl] at h
  · exact False.elim h
  · exact h
  · exact h.2.2
  · exact h.2.2

namespace Notifier

/-- The state the notifier read under the lock, while it walks a session's requests. -/
def snapshot : Notifier → Option (BfdState × BfdState × Nat)
  | dispatching _ _ _ snap _ => some snap
  | _ => none

@[simp] theorem snapshot_eraseTmp (i : Nat) (n : Notifier) :
    (n.eraseTmp i).snapshot = n.snapshot := by
  cases n <;> rfl

end Notifier

namespace Broker

variable {b c : Broker}

/-- Every session agrees with what its peer last reported, and every request and the state the
notifier read hold a diagnostic their state is reported with. -/
structure Agreeing (b : Broker) : Prop where
  sess : ∀ i sn, b.sess i = some sn → Agrees (handshake sn.core)
  reqs : ∀ r req, b.reqs r = some req → DiagOk req.state req.diag
  snap : ∀ x, b.notifier.snapshot = some x → DiagOk x.1 x.2.2

/-- A session invariant holds of every session after a call that moves the sessions by steps
keeping it, if it held of every session before. -/
theorem Evolved.keep {Q : Session → Prop} (he : Evolved (fun s t => Q s → Q t) Q b c)
    (h : ∀ i sn, b.sess i = some sn → Q sn.core) : ∀ i sn, c.sess i = some sn → Q sn.core :=
  fun i sn hs => by
    rcases he.sess i sn hs with ⟨sn₀, h₀, hk⟩ | ⟨_, hq⟩
    exacts [hk (h i sn₀ h₀), hq]

/-- A write that keeps the requests and the notifier's read state. -/
theorem Agreeing.congr (h : Agreeing b)
    (he : Evolved (fun s t => Agrees (handshake s) → Agrees (handshake t))
      (fun s => Agrees (handshake s)) b c)
    (hr : c.reqs = b.reqs) (hn : c.notifier.snapshot = b.notifier.snapshot) : Agreeing c :=
  ⟨he.keep h.sess, hr ▸ h.reqs, hn ▸ h.snap⟩

theorem Agreeing.setReq (h : Agreeing b) {r : Nat} {x : Option Request}
    (hx : ∀ y, x = some y → DiagOk y.state y.diag) : Agreeing (b.setReq r x) := by
  refine ⟨h.sess, fun r' req hr => ?_, h.snap⟩
  by_cases e : r' = r
  · subst e
    exact hx req (by simpa using hr)
  · exact h.reqs r' req (by simpa [Function.update_noteq e] using hr)

/-- Each request write of the calls keeps a state with its diagnostic: a live request's own, the
AdminDown of a new request, or a live session's. -/
theorem Agreeing.diagOk_of_reqWrite (h : Agreeing b) {r : Nat} {x : Option Request}
    (hw : ReqWrite b r x) : ∀ y, x = some y → DiagOk y.state y.diag := by
  rintro y rfl
  rcases hw with ⟨req, hr, hs, hd⟩ | ⟨hs, hd⟩ | ⟨i, sn, hsn, hs, hd⟩
  · rw [hs, hd]; exact h.reqs r req hr
  · rw [hs, hd]; rfl
  · rw [hs, hd]; exact (h.sess i sn hsn).diagOk

theorem reconfigureSession_reqs_notifier (i : Nat) (now : ℕ+) :
    (b.bfdReconfigureSession i now).reqs = b.reqs ∧
      (b.bfdReconfigureSession i now).notifier = b.notifier := by
  unfold bfdReconfigureSession
  repeat' split
  all_goals exact ⟨rfl, rfl⟩

theorem removeSession_snapshot (i : Nat) :
    (b.bfdRemoveSession i).notifier.snapshot = b.notifier.snapshot := by
  unfold bfdRemoveSession
  split
  · rfl
  · dsimp only; split_ifs <;> simp

/-- The main thread's writes keep the invariant. -/
theorem callFrame_agreeing : CallFrame fun b c => Agreeing b → Agreeing c :=
  have hE := callFrame_evolved sessionInv_agrees.evolution
  { refl := fun _ h => h
    trans := fun h₁ h₂ h => h₂ (h₁ h)
    setReq := fun _ _ _ hw h => h.setReq (h.diagOk_of_reqWrite hw)
    remNode := fun b r h => h.congr (hE.remNode b r) remNode_reqs (by rw [remNode_notifier])
    addTail := fun b s r h => h.congr (hE.addTail b s r) (addTail_reqs s) (by rw [addTail_notifier])
    allocate := fun b h => h.congr (hE.allocate b) rfl rfl
    addSession := fun b p req now h => h.congr (hE.addSession b p req now) rfl rfl
    reconfigureSession := fun b i now h =>
      h.congr (hE.reconfigureSession b i now) (reconfigureSession_reqs_notifier i now).1
        (by rw [(reconfigureSession_reqs_notifier i now).2])
    removeSession := fun b i h =>
      h.congr (hE.removeSession b i) removeSession_reqs (removeSession_snapshot i)
    addEngine := fun b cf h => h.congr (hE.addEngine b cf) rfl rfl
    leave := fun b p h => h.congr (hE.leave b p) rfl rfl }

/-! ## The BFD thread and the notifier -/

theorem threadStep_reqs_notifier (p i : Nat) (now : ℕ+) (ev : SessionEvent) :
    (b.threadStep p i now ev).reqs = b.reqs ∧ (b.threadStep p i now ev).notifier = b.notifier := by
  unfold threadStep
  split
  · dsimp only; split_ifs <;> exact ⟨rfl, rfl⟩
  · exact ⟨rfl, rfl⟩

/-- An event of a session keeps its handshake invariant and touches no request. -/
theorem Agreeing.threadStep (h : Agreeing b) (p i : Nat) (now : ℕ+) (ev : SessionEvent) :
    Agreeing (b.threadStep p i now ev) :=
  h.congr (evolved_threadStep (fun _ h => h) fun _ h => h.step ev)
    (threadStep_reqs_notifier p i now ev).1 (by rw [(threadStep_reqs_notifier p i now ev).2])

/-- The notifier reads the state of a session whose handshake agrees. -/
theorem Agreeing.notifyPick (h : Agreeing b) (p : Nat) : ∀ tmp, Agreeing (b.notifyPick p tmp)
  | [] => ⟨h.sess, h.reqs, fun _ e => by cases e⟩
  | i :: tmp => by
    refine ⟨(evolved_notifyPick sessionInv_agrees.evolution p (i :: tmp)).keep h.sess, ?_, ?_⟩ <;>
      dsimp only [Broker.notifyPick] <;> split
    · exact h.reqs
    · exact h.reqs
    · next sn hsn => rintro _ ⟨⟩; exact (h.sess i sn hsn).diagOk
    · rintro _ ⟨⟩

/-- The notifier tells a request the state it read, and the request's hook makes calls. -/
theorem Agreeing.notifyDeliver (h : Agreeing b) {p i n : Nat} {tmp : List Nat}
    {snap : BfdState × BfdState × Nat} {cur : Option Nat}
    (hd : b.notifier = .dispatching p tmp i snap cur) (acts : List HookAct) (now : ℕ+) :
    Agreeing (b.notifyDeliver p tmp i snap n acts now) := by
  have hs : DiagOk snap.1 snap.2.2 := h.snap snap (by rw [hd]; rfl)
  unfold Broker.notifyDeliver
  exact callFrame_agreeing.requestNotify (callFrame_agreeing.runHook n acts now)
    (fun _ _ h' => h'.setReq fun _ e => by cases e; exact hs)
    ⟨h.sess, h.reqs, fun _ e => by cases e; exact hs⟩

theorem Agreeing.notifyFinish (h : Agreeing b) (p : Nat) (tmp : List Nat) (i : Nat) :
    Agreeing (b.notifyFinish p tmp i) := by
  refine ⟨(evolved_notifyFinish sessionInv_agrees.evolution p tmp i).keep h.sess, ?_, ?_⟩ <;>
    unfold Broker.notifyFinish <;> split <;> dsimp only
  · split_ifs
    · rw [removeSession_reqs]; exact h.reqs
    · exact h.reqs
  · exact h.reqs
  · split_ifs
    · rw [removeSession_snapshot]; rintro _ ⟨⟩
    · rintro _ ⟨⟩
  · rintro _ ⟨⟩

/-! ## Runs -/

/-- Every step keeps the invariant. -/
theorem Agreeing.step (h : Agreeing b) (a : Action) : Agreeing (b.step a) := by
  have hK := callFrame_agreeing
  cases a with
  | thread p i now ev => simp only [Broker.step]; split; exacts [h.threadStep p i now ev, h]
  | kick p => simp only [Broker.step]; split; exacts [⟨h.sess, h.reqs, h.snap⟩, h]
  | drain p => simp only [Broker.step]; split; exacts [⟨h.sess, h.reqs, fun _ e => by cases e⟩, h]
  | splice => simp only [Broker.step]; split; exacts [⟨h.sess, h.reqs, fun _ e => by cases e⟩, h]
  | pick => simp only [Broker.step]; split; exacts [h.notifyPick _ _, h]
  | deliver acts now => simp only [Broker.step]; split; exacts [h.notifyDeliver ‹_› acts now, h]
  | finish => simp only [Broker.step]; split; exacts [h.notifyFinish _ _ _, h]
  | request addr localAddr iface vrf opts now =>
    simp only [Broker.step]; split; exacts [hK.requestSession _ addr localAddr iface vrf opts now h, h]
  | update r opts now => simp only [Broker.step]; split; exacts [hK.updateRequest _ r opts now h, h]
  | free r => simp only [Broker.step]; split; exacts [hK.requestFree _ r h, h]
  | start cf plan now => simp only [Broker.step]; split; exacts [hK.start _ cf plan now h, h]
  | shutdown p plan now =>
    simp only [Broker.step]; split; exacts [hK.shutdown _ p plan now h, h]

theorem Agreeing.run (h : Agreeing b) (as : List Action) : Agreeing (b.run as) := by
  induction as generalizing b with
  | nil => exact h
  | cons a as ih => exact ih (h.step a)

end Broker

end Bfd
