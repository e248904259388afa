import Bfd.Frame

/-! # The TX and detection timers

The detection timer, whenever armed, expires one detection time
`max(req_min_rx_int, rem_min_tx_int) · rem_detect_mult` after the last received packet,
over every run. That time can be zero: after a detection timeout has zeroed the remote
multiplier, a reconfiguration that moves `req_min_rx_int` re-arms the timer from the stale
`last_rx`. The TX timer runs exactly when none of the stop conditions of
`bfd_session_control_tx_timer` holds, after every event but one: a fire of a TX timer whose
period is zero, which stops it. -/
namespace Bfd

/-! ## The detection timer -/

/-- `timeout` of `bfd_session_update_detection_time`, a 64-bit product of a 32-bit interval
and an 8-bit multiplier: it never overflows. -/
def detectionTime (s : Session) : Nat := max s.reqMinRxInt s.remMinTxInt * s.remDetectMult

/-- The detection timer is one-shot; when armed it was armed by a received packet, and it
expires one detection time after the last one. -/
structure HoldInv (s : Session) : Prop where
  oneShot : s.holdTimer.recurrent = 0
  lastRx : tmActive s.holdTimer = true → s.lastRx ≠ 0
  expires : tmActive s.holdTimer = true → s.holdTimer.expires = s.lastRx + detectionTime s

theorem HoldInv.congr {s t : Session} (h : HoldInv s) (e : holdFields t = holdFields s) :
    HoldInv t := by
  simp only [holdFields, Prod.mk.injEq] at e
  obtain ⟨e1, e2, e3, e4, e5⟩ := e
  exact ⟨e1 ▸ h.1, by simpa only [e1, e2] using h.2,
    by simpa only [detectionTime, e1, e2, e3, e4, e5] using h.3⟩

variable {s : Session} {now : ℕ+}

/-- `bfd_session_update_detection_time` re-arms from the current intervals whatever was armed
before: after a kick always, without one as long as only a packet armed the timer. -/
theorem holdInv_updateDetectionTime (h0 : s.holdTimer.recurrent = 0) {kick : Bool}
    (h : kick = true ∨ (tmActive s.holdTimer = true → s.lastRx ≠ 0)) :
    HoldInv (bfdSessionUpdateDetectionTime s kick now) := by
  unfold bfdSessionUpdateDetectionTime; dsimp only
  refine ⟨by split_ifs <;> simpa using h0, ?_, ?_⟩ <;> split_ifs <;> simp_all [detectionTime]

theorem HoldInv.setMinRx (h : HoldInv s) (v : Nat) : HoldInv (bfdSessionSetMinRx s v now) := by
  unfold bfdSessionSetMinRx; dsimp only
  split_ifs
  · exact h
  all_goals refine HoldInv.congr ?_ (requestPoll_holdFields _)
  · exact holdInv_updateDetectionTime (by exact h.oneShot) (Or.inr (by exact h.lastRx))
  · exact h.congr rfl

/-- A packet always leaves the detection timer consistent: it kicks it after any commit of
`req_min_rx_int`, and nothing after the kick moves its inputs. -/
theorem holdInv_processCtl (h0 : s.holdTimer.recurrent = 0) (flags : BitVec 8) (oldTx oldRx : Nat) :
    HoldInv (bfdSessionProcessCtl s flags oldTx oldRx now) := by
  unfold bfdSessionProcessCtl; dsimp only
  generalize hs2 : bfdSessionUpdateDetectionTime _ true now = s2
  have h2 : HoldInv s2 := by
    rw [← hs2]; refine holdInv_updateDetectionTime ?_ (Or.inl rfl)
    split_ifs <;> exact h0
  split_ifs
  · exact h2
  · split
    · exact h2.congr (updateState_holdFields _ _)
    · exact h2.congr rfl

/-- The fire of the one-shot detection timer stops it before `bfd_session_timeout` zeroes the
remote fields it was computed from. -/
theorem HoldInv.holdFire (h : HoldInv s) :
    HoldInv (bfdSessionTimeout { s with holdTimer := tmFire s.holdTimer now 0 } now) := by
  have hs : (bfdSessionTimeout { s with holdTimer := tmFire s.holdTimer now 0 } now).holdTimer =
      tmStop s.holdTimer := by simp [tmFire, h.oneShot]
  refine ⟨by rw [hs]; exact h.oneShot, ?_, ?_⟩ <;> intro ha <;> rw [hs] at ha <;> simp at ha

theorem HoldInv.reconfigure (h : HoldInv s) (cf : SessionConfig) :
    HoldInv (bfdReconfigureSession s cf now) := by
  unfold bfdReconfigureSession; dsimp only
  have h1 : HoldInv (bfdSessionSetMinTx { s with cf }
      (if s.locState = .up then cf.minTxInt else cf.idleTxInt) now) :=
    h.congr (setMinTx_holdFields _)
  exact (h1.setMinRx _).congr rfl

theorem HoldInv.step (h : HoldInv s) (ev : SessionEvent) : HoldInv (sessionStep s now ev) := by
  cases ev with
  | rx pkt =>
    dsimp only [sessionStep, bfdReceiveCtl]
    exact holdInv_processCtl (by exact h.oneShot) _ _ _
  | txFire j => dsimp only [sessionStep]; split_ifs; exacts [h.congr rfl, h]
  | holdFire => dsimp only [sessionStep]; split_ifs; exacts [h.holdFire, h]
  | reconfigure cf => exact h.reconfigure cf

theorem holdInv_addSession (cf : SessionConfig) (now : ℕ+) : HoldInv (bfdAddSession cf now) :=
  have h0 : ¬tmActive (bfdAddSession cf now).holdTimer = true := show ¬tmActive {} = true by decide
  ⟨rfl, fun h => absurd h h0, fun h => absurd h h0⟩

theorem HoldInv.run (h : HoldInv s) (evs : List (ℕ+ × SessionEvent)) :
    HoldInv (sessionRun s evs) := by
  induction evs generalizing s with
  | nil => exact h
  | cons e es ih => exact ih (h.step e.2)

/-- Over every run the detection timer is one-shot and, when armed, was armed by a received
packet and expires exactly one detection time, computed from the current intervals and
multiplier, after the last one. -/
theorem hold_timer_tracks_last_packet (cf : SessionConfig) (now : ℕ+)
    (evs : List (ℕ+ × SessionEvent)) :
    let s := sessionRun (bfdAddSession cf now) evs
    s.holdTimer.recurrent = 0 ∧ (tmActive s.holdTimer = true → s.lastRx ≠ 0 ∧
      s.holdTimer.expires = s.lastRx + max s.reqMinRxInt s.remMinTxInt * s.remDetectMult) :=
  let h := (holdInv_addSession cf now).run evs
  ⟨h.oneShot, fun ha => ⟨h.lastRx ha, h.expires ha⟩⟩

/-- A detection timeout zeroes the remote multiplier but keeps `last_rx`; a reconfiguration
then moves `req_min_rx_int`. -/
def holdRearmRun : Session :=
  sessionRun (bfdAddSession exampleConfig 1)
    [(10, .rx (examplePacket .init 0)), (400, .holdFire),
      (500, .reconfigure { exampleConfig with minRxInt := 200 })]

/-- The reconfiguration re-arms the detection timer at `last_rx + 0`, in the past, with no
remote multiplier. -/
theorem reconfigure_after_timeout_rearms_hold :
    tmActive holdRearmRun.holdTimer = true ∧ holdRearmRun.remDetectMult = 0 ∧
      holdRearmRun.holdTimer.expires = holdRearmRun.lastRx := by
  decide

/-! ## The TX timer -/

/-- The TX timer runs exactly when no stop condition holds, `last_tx` is set only while it
runs, and the session is never administratively down. -/
structure TxInv (s : Session) : Prop where
  armed : tmActive s.txTimer = true ↔ ¬txStopped s
  lastTx : s.lastTx ≠ 0 → tmActive s.txTimer = true
  notAdminDown : s.locState ≠ .adminDown

/-- `bfd_session_control_tx_timer` settles the timer from the stop conditions alone. -/
theorem txInv_controlTxTimer (hl : s.locState ≠ .adminDown) (reset : Bool) :
    TxInv (bfdSessionControlTxTimer s reset now) := by
  refine ⟨?_, ?_, hl⟩
  · show tmActive (if txStopped s then _ else _) = true ↔ ¬txStopped s
    split_ifs <;> simp_all
  · show (if txStopped s ∨ _ then 0 else s.lastTx) ≠ 0 → tmActive (if txStopped s then _ else _) = true
    split_ifs <;> simp_all

theorem bfdNextState_ne_adminDown {loc rem state : BfdState} {diag : Nat}
    (h : bfdNextState loc rem = some (state, diag)) : state ≠ .adminDown := by
  cases loc <;> simp only [bfdNextState] at h <;> (try split_ifs at h) <;> cases h <;> decide

theorem txInv_processCtl (hl : s.locState ≠ .adminDown) (flags : BitVec 8) (oldTx oldRx : Nat) :
    TxInv (bfdSessionProcessCtl s flags oldTx oldRx now) := by
  unfold bfdSessionProcessCtl; dsimp only
  generalize hs2 : bfdSessionUpdateDetectionTime _ true now = s2
  have hl2 : s2.locState = s.locState := by rw [← hs2]; split_ifs <;> rfl
  rw [if_neg (by rw [hl2]; exact hl)]
  refine txInv_controlTxTimer ?_ _
  cases hn : bfdNextState s2.locState s2.remState with
  | none => exact hl2 ▸ hl
  | some p =>
    obtain ⟨state, diag⟩ := p
    simpa using bfdNextState_ne_adminDown hn

theorem txInv_timeout : TxInv (bfdSessionTimeout s now) := by
  unfold bfdSessionTimeout; dsimp only
  exact txInv_controlTxTimer (by simp) true

theorem TxInv.reconfigure (h : TxInv s) (cf : SessionConfig) :
    TxInv (bfdReconfigureSession s cf now) :=
  txInv_controlTxTimer (by simpa using h.notAdminDown) false

/-- The one event after which the TX timer can disagree with the stop conditions: a fire of
an armed TX timer whose period is zero. -/
def FiresOneShot (s : Session) : SessionEvent → Prop
  | .txFire _ => tmActive s.txTimer = true ∧ s.txTimer.recurrent = 0
  | _ => False

theorem TxInv.step (h : TxInv s) {ev : SessionEvent} (hf : ¬FiresOneShot s ev) :
    TxInv (sessionStep s now ev) := by
  cases ev with
  | rx pkt =>
    dsimp only [sessionStep, bfdReceiveCtl]
    exact txInv_processCtl (by exact h.notAdminDown) _ _ _
  | txFire j =>
    simp only [FiresOneShot, not_and] at hf
    dsimp only [sessionStep]
    split_ifs with ha
    · have hr : tmActive (tmFire s.txTimer now j) = true := by
        simpa using (tmFire_active s.txTimer now j).2 (hf ha)
      exact ⟨⟨fun _ => h.armed.1 ha, fun _ => hr⟩, fun _ => hr, h.notAdminDown⟩
    · exact h
  | holdFire => dsimp only [sessionStep]; split_ifs; exacts [txInv_timeout, h]
  | reconfigure cf => exact h.reconfigure cf

theorem TxInv.withLastStateChange (h : TxInv s) (t : Nat) : TxInv { s with lastStateChange := t } :=
  ⟨h.1, h.2, h.3⟩

theorem txInv_addSession (cf : SessionConfig) (now : ℕ+) : TxInv (bfdAddSession cf now) :=
  TxInv.withLastStateChange (txInv_controlTxTimer (by intro h; cases h) true) now

theorem TxInv.run (h : TxInv s) (evs : List (ℕ+ × SessionEvent))
    (hf : Along (fun s ev => ¬FiresOneShot s ev) s evs) : TxInv (sessionRun s evs) := by
  induction evs generalizing s with
  | nil => exact h
  | cons e es ih => exact ih (h.step hf.1) hf.2

/-- Along every run in which no armed zero-period TX timer fires, the TX timer runs exactly
when no stop condition holds and `last_tx` is set only while it runs. -/
theorem tx_timer_follows_stop_conditions (cf : SessionConfig) (now : ℕ+)
    (evs : List (ℕ+ × SessionEvent))
    (hf : Along (fun s ev => ¬FiresOneShot s ev) (bfdAddSession cf now) evs) :
    let s := sessionRun (bfdAddSession cf now) evs
    (tmActive s.txTimer = true ↔ ¬txStopped s) ∧ (s.lastTx ≠ 0 → tmActive s.txTimer = true) :=
  let h := (txInv_addSession cf now).run evs hf
  ⟨h.armed, h.lastTx⟩

/-- A peer saying Down, then a fire of the TX timer. -/
theorem tx_timer_follows_stop_conditions_bring_up :
    Along (fun s ev => ¬FiresOneShot s ev) (bfdAddSession exampleConfig 1)
        [(10, .rx (examplePacket .down 0)), (20, .txFire 0)] ∧
      let s := sessionRun (bfdAddSession exampleConfig 1)
        [(10, .rx (examplePacket .down 0)), (20, .txFire 0)]
      (tmActive s.txTimer = true ↔ ¬txStopped s) ∧ (s.lastTx ≠ 0 → tmActive s.txTimer = true) :=
  have h : Along (fun s ev => ¬FiresOneShot s ev) (bfdAddSession exampleConfig 1)
      [(10, .rx (examplePacket .down 0)), (20, .txFire 0)] := by
    simp only [Along, FiresOneShot]; decide
  ⟨h, tx_timer_follows_stop_conditions _ _ _ h⟩

/-- The half of `TxInv` that every event keeps, the fire of a one-shot timer included: the TX
timer is off while a stop condition holds, and the session is never administratively down. -/
structure TxSafe (s : Session) : Prop where
  stopped : txStopped s → tmActive s.txTimer = false
  notAdminDown : s.locState ≠ .adminDown

theorem TxInv.txSafe (h : TxInv s) : TxSafe s :=
  ⟨fun hs => Bool.eq_false_iff.2 fun ha => h.armed.1 ha hs, h.notAdminDown⟩

/-- A fire only happens while the timer runs, so no stop condition held, and the fire changes
none of them. -/
theorem TxSafe.step (h : TxSafe s) (ev : SessionEvent) : TxSafe (sessionStep s now ev) := by
  cases ev with
  | rx pkt =>
    dsimp only [sessionStep, bfdReceiveCtl]
    exact (txInv_processCtl (by exact h.notAdminDown) _ _ _).txSafe
  | txFire j =>
    dsimp only [sessionStep]
    split_ifs with ha
    · exact ⟨fun hs => absurd ha (by simp [h.stopped hs]), h.notAdminDown⟩
    · exact h
  | holdFire => dsimp only [sessionStep]; split_ifs; exacts [txInv_timeout.txSafe, h]
  | reconfigure cf =>
    dsimp only [sessionStep, bfdReconfigureSession]
    exact (txInv_controlTxTimer (by simpa using h.notAdminDown) false).txSafe

theorem TxSafe.run (h : TxSafe s) (evs : List (ℕ+ × SessionEvent)) : TxSafe (sessionRun s evs) := by
  induction evs generalizing s with
  | nil => exact h
  | cons e es ih => exact ih (h.step e.2)

/-- Whatever the run, the TX timer is off while a stop condition holds: while the session is
passive and has not heard its peer, while the peer asks for no packets, and while both ends
are Up in demand mode with no poll. No periodic control packet is sent then. -/
theorem tx_timer_off_while_stopped (cf : SessionConfig) (now : ℕ+) (evs : List (ℕ+ × SessionEvent))
    (hs : txStopped (sessionRun (bfdAddSession cf now) evs)) :
    tmActive (sessionRun (bfdAddSession cf now) evs).txTimer = false :=
  (((txInv_addSession cf now).txSafe).run evs).stopped hs

/-- A peer that asks for no packets (`rem_min_rx_int = 0`) stops the TX timer. -/
theorem tx_timer_off_while_stopped_silent_peer :
    txStopped (sessionRun (bfdAddSession exampleConfig 1)
      [(10, .rx ⟨.down, 5, false, 100, 0, 3, 0, by decide, by decide⟩)]) ∧
    tmActive (sessionRun (bfdAddSession exampleConfig 1)
      [(10, .rx ⟨.down, 5, false, 100, 0, 3, 0, by decide, by decide⟩)]).txTimer = false :=
  ⟨by decide, tx_timer_off_while_stopped _ _ _ (by decide)⟩

/-- With a zero idle TX interval and a peer asking for no packets (`rem_min_rx_int = 0`),
`bfd_session_update_tx_interval` sets the TX period to zero. A detection timeout then forces
`rem_min_rx_int = 1` and restarts the timer without refreshing that period; the timer fires. -/
def staleTxRun : Session :=
  sessionRun (bfdAddSession { exampleConfig with idleTxInt := 0 } 1)
    [(10, .rx ⟨.down, 5, false, 100, 0, 3, 0, by decide, by decide⟩), (400, .holdFire),
      (401, .txFire 0)]

/-- The zero-period timer stopped at its first fire: it is off while no stop condition
holds, with `last_tx` set. -/
theorem stale_tx_period_stops_timer :
    ¬txStopped staleTxRun ∧ tmActive staleTxRun.txTimer = false ∧ staleTxRun.lastTx ≠ 0 := by
  decide

end Bfd
