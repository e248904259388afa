import Bfd.Session

/-! # What the session functions leave alone

`bfd_session_update_state` is the only writer of `loc_state`, and it always leaves the
state it was asked for; the poll and setter functions keep the peer's discriminator and
the fields of the other direction. -/
namespace Bfd

variable {s : Session} {now : ℕ+}

@[simp] theorem requestPoll_locState (r : BitVec 8) :
    (bfdSessionRequestPoll s r now).locState = s.locState := by
  unfold bfdSessionRequestPoll; split_ifs <;> rfl

@[simp] theorem requestPoll_remId (r : BitVec 8) :
    (bfdSessionRequestPoll s r now).remId = s.remId := by
  unfold bfdSessionRequestPoll; split_ifs <;> rfl

@[simp] theorem requestPoll_desMinTxInt (r : BitVec 8) :
    (bfdSessionRequestPoll s r now).desMinTxInt = s.desMinTxInt := by
  unfold bfdSessionRequestPoll; split_ifs <;> rfl

@[simp] theorem requestPoll_desMinTxNew (r : BitVec 8) :
    (bfdSessionRequestPoll s r now).desMinTxNew = s.desMinTxNew := by
  unfold bfdSessionRequestPoll; split_ifs <;> rfl

@[simp] theorem requestPoll_reqMinRxInt (r : BitVec 8) :
    (bfdSessionRequestPoll s r now).reqMinRxInt = s.reqMinRxInt := by
  unfold bfdSessionRequestPoll; split_ifs <;> rfl

@[simp] theorem requestPoll_reqMinRxNew (r : BitVec 8) :
    (bfdSessionRequestPoll s r now).reqMinRxNew = s.reqMinRxNew := by
  unfold bfdSessionRequestPoll; split_ifs <;> rfl

@[simp] theorem setMinTx_locState (v : Nat) : (bfdSessionSetMinTx s v now).locState = s.locState := by
  unfold bfdSessionSetMinTx; dsimp only; split_ifs <;> simp [bfdSessionUpdateTxInterval]

@[simp] theorem setMinTx_remId (v : Nat) : (bfdSessionSetMinTx s v now).remId = s.remId := by
  unfold bfdSessionSetMinTx; dsimp only; split_ifs <;> simp [bfdSessionUpdateTxInterval]

@[simp] theorem setMinTx_reqMinRxInt (v : Nat) :
    (bfdSessionSetMinTx s v now).reqMinRxInt = s.reqMinRxInt := by
  unfold bfdSessionSetMinTx; dsimp only; split_ifs <;> simp [bfdSessionUpdateTxInterval]

@[simp] theorem setMinTx_reqMinRxNew (v : Nat) :
    (bfdSessionSetMinTx s v now).reqMinRxNew = s.reqMinRxNew := by
  unfold bfdSessionSetMinTx; dsimp only; split_ifs <;> simp [bfdSessionUpdateTxInterval]

@[simp] theorem setMinRx_locState (v : Nat) : (bfdSessionSetMinRx s v now).locState = s.locState := by
  unfold bfdSessionSetMinRx; dsimp only; split_ifs <;> simp [bfdSessionUpdateDetectionTime]

@[simp] theorem setMinRx_remId (v : Nat) : (bfdSessionSetMinRx s v now).remId = s.remId := by
  unfold bfdSessionSetMinRx; dsimp only; split_ifs <;> simp [bfdSessionUpdateDetectionTime]

@[simp] theorem setMinRx_desMinTxInt (v : Nat) :
    (bfdSessionSetMinRx s v now).desMinTxInt = s.desMinTxInt := by
  unfold bfdSessionSetMinRx; dsimp only; split_ifs <;> simp [bfdSessionUpdateDetectionTime]

@[simp] theorem setMinRx_desMinTxNew (v : Nat) :
    (bfdSessionSetMinRx s v now).desMinTxNew = s.desMinTxNew := by
  unfold bfdSessionSetMinRx; dsimp only; split_ifs <;> simp [bfdSessionUpdateDetectionTime]

/-- The fields the detection timer is computed from. -/
def holdFields (s : Session) : Timer × Nat × Nat × Nat × Nat :=
  (s.holdTimer, s.lastRx, s.reqMinRxInt, s.remMinTxInt, s.remDetectMult)

@[simp] theorem requestPoll_holdFields (r : BitVec 8) :
    holdFields (bfdSessionRequestPoll s r now) = holdFields s := by
  unfold bfdSessionRequestPoll; split_ifs <;> rfl

@[simp] theorem setMinTx_holdFields (v : Nat) :
    holdFields (bfdSessionSetMinTx s v now) = holdFields s := by
  unfold bfdSessionSetMinTx; dsimp only; split_ifs <;> (try rw [requestPoll_holdFields]) <;> rfl

@[simp] theorem updateState_holdFields (state : BfdState) (diag : Nat) :
    holdFields (bfdSessionUpdateState s state diag now) = holdFields s := by
  unfold bfdSessionUpdateState; dsimp only; split_ifs <;> (try simp only [setMinTx_holdFields]) <;> rfl

@[simp] theorem updateState_holdTimer (state : BfdState) (diag : Nat) :
    (bfdSessionUpdateState s state diag now).holdTimer = s.holdTimer :=
  congrArg Prod.fst (updateState_holdFields state diag)

/-- Whatever the old state, the session is left in the state it was asked for. -/
@[simp] theorem updateState_locState (state : BfdState) (diag : Nat) :
    (bfdSessionUpdateState s state diag now).locState = state := by
  unfold bfdSessionUpdateState; dsimp only; split_ifs <;> simp_all

@[simp] theorem updateState_remId (state : BfdState) (diag : Nat) :
    (bfdSessionUpdateState s state diag now).remId = s.remId := by
  unfold bfdSessionUpdateState; dsimp only; split_ifs <;> simp

/-! ## The link for notification

`bfd_session_update_state` is also the only writer of `NODE_VALID(&s->n)` on the session
thread: it links the session exactly when the state changes. -/

@[simp] theorem requestPoll_linked (r : BitVec 8) :
    (bfdSessionRequestPoll s r now).linked = s.linked := by
  unfold bfdSessionRequestPoll; split_ifs <;> rfl

@[simp] theorem setMinTx_linked (v : Nat) : (bfdSessionSetMinTx s v now).linked = s.linked := by
  unfold bfdSessionSetMinTx; dsimp only; split_ifs <;> simp [bfdSessionUpdateTxInterval]

@[simp] theorem setMinRx_linked (v : Nat) : (bfdSessionSetMinRx s v now).linked = s.linked := by
  unfold bfdSessionSetMinRx; dsimp only; split_ifs <;> simp [bfdSessionUpdateDetectionTime]

theorem updateState_linked (state : BfdState) (diag : Nat) :
    (bfdSessionUpdateState s state diag now).linked = (s.linked || decide (state ≠ s.locState)) := by
  unfold bfdSessionUpdateState; dsimp only; split_ifs <;> simp_all

@[simp] theorem reconfigure_locState (cf : SessionConfig) :
    (bfdReconfigureSession s cf now).locState = s.locState := by
  simp [bfdReconfigureSession, bfdSessionControlTxTimer]

@[simp] theorem reconfigure_linked (cf : SessionConfig) :
    (bfdReconfigureSession s cf now).linked = s.linked := by
  simp [bfdReconfigureSession, bfdSessionControlTxTimer]

theorem processCtl_linked (flags : BitVec 8) (oldTx oldRx : Nat) :
    (bfdSessionProcessCtl s flags oldTx oldRx now).linked =
      (s.linked || decide ((bfdSessionProcessCtl s flags oldTx oldRx now).locState ≠ s.locState)) := by
  unfold bfdSessionProcessCtl; dsimp only
  generalize hs2 : bfdSessionUpdateDetectionTime _ true now = s2
  have hl : s2.locState = s.locState ∧ s2.linked = s.linked := by
    rw [← hs2]
    split_ifs <;> simp [bfdSessionUpdateDetectionTime, bfdSessionUpdateTxInterval, bfdSessionTerminatePoll]
  split_ifs
  · simp [hl]
  · split <;> simp [bfdSessionControlTxTimer, updateState_linked, hl]

/-- After any event a session is linked exactly when it was before or its state changed. -/
theorem sessionStep_linked (ev : SessionEvent) :
    (sessionStep s now ev).linked =
      (s.linked || decide ((sessionStep s now ev).locState ≠ s.locState)) := by
  cases ev with
  | rx pkt => dsimp only [sessionStep, bfdReceiveCtl]; exact processCtl_linked _ _ _
  | txFire j => dsimp only [sessionStep]; split_ifs <;> simp [bfdTxTimerHook]
  | holdFire =>
    dsimp only [sessionStep]; split_ifs
    · simp [bfdSessionTimeout, bfdSessionControlTxTimer, updateState_linked]
    · simp
  | reconfigure cf => simp [sessionStep]

/-- A detection timeout always leaves the session Down. -/
@[simp] theorem timeout_locState : (bfdSessionTimeout s now).locState = .down := by
  simp [bfdSessionTimeout, bfdSessionControlTxTimer]

@[simp] theorem timeout_holdTimer : (bfdSessionTimeout s now).holdTimer = s.holdTimer := by
  simp [bfdSessionTimeout, bfdSessionControlTxTimer]

end Bfd
