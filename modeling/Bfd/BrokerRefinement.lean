import Bfd.BrokerSessions

/-! # Every broker session is a session of the one-session model

The session modules model one session on its own: `bfd_add_session`, then received packets,
timer fires and reconfigurations (`sessionRun`). Under the broker a session is also unlinked by
the notifier, which clears `NODE_VALID(&s->n)` and nothing else. `bfd_session_update_state`
reads that link only to decide whether to queue the session and kick the notifier, which is the
broker's part; no session function reads it for the protocol state, which therefore does not
depend on it:

* `sessionStep_relink`, `sessionRun_congr`: what a session does next, but for its link, is the
  same whatever its link was;
* `RunsTo s t`: `t` is `s` after a run of session events, but for the link; every call of the
  broker moves every session it keeps that way (`evolution_runsTo`);
* `broker_sessions_refine_session_model`: every session of every reachable broker is a
  reachable session of the model, but for its link.

So what the session modules prove of reachable sessions holds of the broker's sessions,
whatever the interleaving of the threads, the hooks, the notifier and the engines. -/
namespace Bfd

/-- The session as the notifier leaves it: its link for notification cleared. -/
def unlink (s : Session) : Session := { s with linked := false }

/-! ## The link is never read -/

section Relink
variable {s t : Session} {now : ℕ+} (x : Bool)

theorem terminatePoll_relink :
    bfdSessionTerminatePoll { s with linked := x } = { bfdSessionTerminatePoll s with linked := x } :=
  rfl

theorem updateTxInterval_relink :
    bfdSessionUpdateTxInterval { s with linked := x } =
      { bfdSessionUpdateTxInterval s with linked := x } := rfl

theorem updateDetectionTime_relink (kick : Bool) :
    bfdSessionUpdateDetectionTime { s with linked := x } kick now =
      { bfdSessionUpdateDetectionTime s kick now with linked := x } := rfl

theorem ite_relink (c : Prop) [Decidable c] (a b : Session) :
    (if c then { a with linked := x } else { b with linked := x }) =
      { if c then a else b with linked := x } :=
  (apply_ite (fun u : Session => { u with linked := x }) c a b).symm

theorem requestPoll_relink (r : BitVec 8) :
    bfdSessionRequestPoll { s with linked := x } r now =
      { bfdSessionRequestPoll s r now with linked := x } := by
  unfold bfdSessionRequestPoll; dsimp only; split_ifs <;> rfl

theorem setMinTx_relink (v : Nat) :
    bfdSessionSetMinTx { s with linked := x } v now =
      { bfdSessionSetMinTx s v now with linked := x } := by
  unfold bfdSessionSetMinTx; dsimp only; split_ifs
  · rfl
  · exact requestPoll_relink (s := bfdSessionUpdateTxInterval { s with desMinTxNew := v, desMinTxInt := v }) x _
  · exact requestPoll_relink (s := { s with desMinTxNew := v }) x _

theorem setMinRx_relink (v : Nat) :
    bfdSessionSetMinRx { s with linked := x } v now =
      { bfdSessionSetMinRx s v now with linked := x } := by
  unfold bfdSessionSetMinRx; dsimp only; split_ifs
  · rfl
  · exact requestPoll_relink
      (s := bfdSessionUpdateDetectionTime { s with reqMinRxNew := v, reqMinRxInt := v } false now) x _
  · exact requestPoll_relink (s := { s with reqMinRxNew := v }) x _

theorem controlTxTimer_congr (h : unlink s = unlink t) (reset : Bool) :
    unlink (bfdSessionControlTxTimer s reset now) = unlink (bfdSessionControlTxTimer t reset now) :=
  congrArg (bfdSessionControlTxTimer · reset now) h

/-- A change of state links the session whatever its link was; no change leaves it. -/
theorem updateState_relink (state : BfdState) (diag : Nat) :
    unlink (bfdSessionUpdateState { s with linked := x } state diag now) =
      unlink (bfdSessionUpdateState s state diag now) := by
  unfold bfdSessionUpdateState; dsimp only
  by_cases h : state = s.locState
  · simp only [h, if_true]; rfl
  · simp only [h, if_false]

theorem updateState_congr (h : unlink s = unlink t) (state : BfdState) (diag : Nat) :
    unlink (bfdSessionUpdateState s state diag now) = unlink (bfdSessionUpdateState t state diag now) := by
  rw [← updateState_relink (s := s) false, ← updateState_relink (s := t) false]
  exact congrArg (fun u => unlink (bfdSessionUpdateState u state diag now)) h

theorem reconfigure_relink (cf : SessionConfig) :
    unlink (bfdReconfigureSession { s with linked := x } cf now) =
      unlink (bfdReconfigureSession s cf now) := by
  unfold bfdReconfigureSession; dsimp only
  refine controlTxTimer_congr ?_ false
  rw [setMinTx_relink (s := { s with cf }), setMinRx_relink]
  rfl

theorem processCtl_relink (flags : BitVec 8) (oldTx oldRx : Nat) :
    unlink (bfdSessionProcessCtl { s with linked := x } flags oldTx oldRx now) =
      unlink (bfdSessionProcessCtl s flags oldTx oldRx now) := by
  unfold bfdSessionProcessCtl; dsimp only
  rw [terminatePoll_relink, ite_relink]; dsimp only
  rw [updateTxInterval_relink, ite_relink, updateDetectionTime_relink]
  generalize bfdSessionUpdateDetectionTime _ true now = u
  dsimp only
  split_ifs
  · rfl
  · split
    · exact controlTxTimer_congr (updateState_relink x _ _) false
    · rfl

theorem timeout_relink :
    unlink (bfdSessionTimeout { s with linked := x } now) = unlink (bfdSessionTimeout s now) := by
  unfold bfdSessionTimeout; dsimp only
  refine controlTxTimer_congr (updateState_congr ?_ _ _) true
  rfl

/-- What an event does to a session, but for its link, does not depend on the link. -/
theorem sessionStep_relink (ev : SessionEvent) :
    unlink (sessionStep { s with linked := x } now ev) = unlink (sessionStep s now ev) := by
  cases ev with
  | rx pkt =>
    dsimp only [sessionStep, bfdReceiveCtl]
    exact processCtl_relink (s := { s with
      remId := pkt.sndId, remState := pkt.state, remDemandMode := pkt.demand,
      remMinTxInt := pkt.desMinTxInt, remMinRxInt := pkt.reqMinRxInt,
      remDetectMult := pkt.detectMult }) x _ _ _
  | txFire j => dsimp only [sessionStep]; split_ifs <;> rfl
  | holdFire =>
    dsimp only [sessionStep]; split_ifs
    · exact timeout_relink (s := { s with holdTimer := tmFire s.holdTimer now 0 }) x
    · rfl
  | reconfigure cf => dsimp only [sessionStep]; exact reconfigure_relink x cf

theorem sessionStep_congr (h : unlink s = unlink t) (ev : SessionEvent) :
    unlink (sessionStep s now ev) = unlink (sessionStep t now ev) := by
  rw [← sessionStep_relink (s := s) false, ← sessionStep_relink (s := t) false]
  exact congrArg (fun u => unlink (sessionStep u now ev)) h

/-- Two sessions in the same protocol state stay so along any run of events. -/
theorem sessionRun_congr (evs : List (ℕ+ × SessionEvent)) (h : unlink s = unlink t) :
    unlink (sessionRun s evs) = unlink (sessionRun t evs) := by
  induction evs generalizing s t with
  | nil => exact h
  | cons e evs ih => exact ih (sessionStep_congr h e.2)

end Relink

theorem sessionRun_append (s : Session) (evs evs' : List (ℕ+ × SessionEvent)) :
    sessionRun s (evs ++ evs') = sessionRun (sessionRun s evs) evs' := by
  induction evs generalizing s with
  | nil => rfl
  | cons e evs ih => exact ih _

/-! ## Runs of the model up to the link -/

/-- `t` is `s` after a run of session events, but for the link for notification. -/
def RunsTo (s t : Session) : Prop := ∃ evs, unlink t = unlink (sessionRun s evs)

theorem RunsTo.trans {s t u : Session} (h₁ : RunsTo s t) (h₂ : RunsTo t u) : RunsTo s u := by
  obtain ⟨evs, e₁⟩ := h₁
  obtain ⟨evs', e₂⟩ := h₂
  exact ⟨evs ++ evs', by rw [e₂, sessionRun_append]; exact sessionRun_congr evs' e₁⟩

theorem runsTo_step (s : Session) (now : ℕ+) (ev : SessionEvent) : RunsTo s (sessionStep s now ev) :=
  ⟨[(now, ev)], rfl⟩

/-- The broker moves a session it keeps by runs of events, and makes one by `bfd_add_session`. -/
theorem evolution_runsTo : Evolution RunsTo fun t => ∃ cf now, RunsTo (bfdAddSession cf now) t :=
  ⟨fun _ => ⟨[], rfl⟩, RunsTo.trans, fun ⟨cf, now, h⟩ h' => ⟨cf, now, h.trans h'⟩,
    fun cf now => ⟨cf, now, [], rfl⟩, fun s cf now => runsTo_step s now (.reconfigure cf),
    fun _ => ⟨[], rfl⟩⟩

namespace Broker

variable {b : Broker} {i : Nat} {sn sn' : SessionNode}

/-- Whatever the threads, the hooks, the notifier and the engines do, every session of the
broker is a session the one-session model reaches from `bfd_add_session` by received packets,
timer fires and reconfigurations, but for its link for notification. -/
theorem broker_sessions_refine_session_model (hb : b.Reachable) (hs : b.sess i = some sn) :
    ∃ t, Bfd.Reachable t ∧ sn.core = { t with linked := sn.core.linked } := by
  obtain ⟨as, rfl⟩ := hb
  have h : Evolved RunsTo _ init (init.run as) :=
    evolved_run evolution_runsTo (fun s now ev => runsTo_step s now ev) as
  rcases h.sess i sn hs with ⟨_, e, _⟩ | ⟨_, cf, now, evs, he⟩
  · exact Option.noConfusion e
  · exact ⟨_, ⟨cf, now, evs, rfl⟩, congrArg ({ · with linked := sn.core.linked }) he⟩

theorem broker_sessions_refine_session_model_attached :
    ∃ sn, (init.run attachRun).sess 2 = some sn ∧
      ∃ t, Bfd.Reachable t ∧ sn.core = { t with linked := sn.core.linked } :=
  ⟨_, rfl, broker_sessions_refine_session_model (i := 2) ⟨attachRun, rfl⟩ rfl⟩

end Broker

end Bfd
