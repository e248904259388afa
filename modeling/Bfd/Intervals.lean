import Bfd.Frame

/-! # The desired intervals and the TX period

The stashed intervals follow the session's configuration over every run: the desired TX
interval is `min_tx_int` while Up and `idle_tx_int` otherwise, the required RX interval,
the multiplier and the passive flag are the configured ones. The TX timer's period and
jitter range follow the negotiated interval after every event but one: a detection timeout
lowers `rem_min_rx_int` to 1 and keeps the period computed from the old value. -/
namespace Bfd

variable {s : Session} {now : ℕ+}

/-! ## The configured intervals -/

/-- `des_min_tx_new` as `bfd_session_update_state` and `bfd_reconfigure_session` choose it. -/
def desiredTx (s : Session) : Nat := if s.locState = .up then s.cf.minTxInt else s.cf.idleTxInt

/-- The stashed values follow the configuration: the idle/active rule for the TX interval,
the configured RX interval, multiplier and passive flag. -/
structure FollowsConfig (s : Session) : Prop where
  desMinTxNew : s.desMinTxNew = desiredTx s
  reqMinRxNew : s.reqMinRxNew = s.cf.minRxInt
  detectMult : s.detectMult = s.cf.multiplier
  passive : s.passive = s.cf.passive

/-- The fields `FollowsConfig` reads. -/
def configFields (s : Session) : SessionConfig × BfdState × Nat × Nat × Nat × Bool :=
  (s.cf, s.locState, s.desMinTxNew, s.reqMinRxNew, s.detectMult, s.passive)

theorem FollowsConfig.of_configFields {t : Session} {cf : SessionConfig} {st : BfdState}
    {n r d : Nat} {p : Bool} (e : configFields t = (cf, st, n, r, d, p))
    (hn : n = if st = .up then cf.minTxInt else cf.idleTxInt) (hr : r = cf.minRxInt)
    (hd : d = cf.multiplier) (hp : p = cf.passive) : FollowsConfig t := by
  simp only [configFields, Prod.mk.injEq] at e
  obtain ⟨rfl, rfl, rfl, rfl, rfl, rfl⟩ := e
  exact ⟨hn, hr, hd, hp⟩

theorem FollowsConfig.congr {t : Session} (h : FollowsConfig s)
    (e : configFields t = configFields s) : FollowsConfig t :=
  .of_configFields e h.1 h.2 h.3 h.4

@[simp] theorem controlTxTimer_configFields (reset : Bool) :
    configFields (bfdSessionControlTxTimer s reset now) = configFields s := rfl

@[simp] theorem requestPoll_configFields (r : BitVec 8) :
    configFields (bfdSessionRequestPoll s r now) = configFields s := by
  unfold bfdSessionRequestPoll; split_ifs <;> rfl

/-- `bfd_session_set_min_tx` stashes its value, applied at once or not. -/
theorem setMinTx_configFields (v : Nat) :
    configFields (bfdSessionSetMinTx s v now) =
      (s.cf, s.locState, v, s.reqMinRxNew, s.detectMult, s.passive) := by
  unfold bfdSessionSetMinTx; dsimp only
  split_ifs with hv
  · simp [configFields, hv]
  all_goals rw [requestPoll_configFields]; rfl

/-- `bfd_session_set_min_rx` stashes its value, applied at once or not. -/
theorem setMinRx_configFields (v : Nat) :
    configFields (bfdSessionSetMinRx s v now) =
      (s.cf, s.locState, s.desMinTxNew, v, s.detectMult, s.passive) := by
  unfold bfdSessionSetMinRx; dsimp only
  split_ifs with hv
  · simp [configFields, hv]
  all_goals rw [requestPoll_configFields]; rfl

@[simp] theorem setMinTx_cf (v : Nat) : (bfdSessionSetMinTx s v now).cf = s.cf :=
  congrArg (·.1) (setMinTx_configFields v)

@[simp] theorem setMinTx_desMinTxNew (v : Nat) : (bfdSessionSetMinTx s v now).desMinTxNew = v :=
  congrArg (·.2.2.1) (setMinTx_configFields v)

@[simp] theorem setMinRx_cf (v : Nat) : (bfdSessionSetMinRx s v now).cf = s.cf :=
  congrArg (·.1) (setMinRx_configFields v)

@[simp] theorem setMinRx_reqMinRxNew (v : Nat) : (bfdSessionSetMinRx s v now).reqMinRxNew = v :=
  congrArg (·.2.2.2.1) (setMinRx_configFields v)

/-- The idle/active swap of `bfd_session_update_state`: entering Up stashes `min_tx_int`,
leaving it stashes `idle_tx_int`, and a change between two other states keeps the idle
value. -/
theorem FollowsConfig.updateState (h : FollowsConfig s) (state : BfdState) (diag : Nat) :
    FollowsConfig (bfdSessionUpdateState s state diag now) := by
  obtain ⟨hn, hr, hd, hp⟩ := h
  unfold bfdSessionUpdateState; dsimp only
  split_ifs with h1 h2 h3 h3
  · exact ⟨hn, hr, hd, hp⟩
  · exact absurd (h3.trans h2.symm) h1
  · exact .of_configFields (setMinTx_configFields _) (by simp [h3]) hr hd hp
  · exact .of_configFields (setMinTx_configFields _) (by simp [h3]) hr hd hp
  · exact .of_configFields
      (show configFields _ = (s.cf, state, s.desMinTxNew, s.reqMinRxNew, s.detectMult, s.passive)
        from rfl) (by simp [hn, desiredTx, h2, h3]) hr hd hp

theorem FollowsConfig.processCtl (h : FollowsConfig s) (flags : BitVec 8) (oldTx oldRx : Nat) :
    FollowsConfig (bfdSessionProcessCtl s flags oldTx oldRx now) := by
  unfold bfdSessionProcessCtl; dsimp only
  generalize hs2 : bfdSessionUpdateDetectionTime _ true now = s2
  have h2 : FollowsConfig s2 := h.congr (by rw [← hs2]; split_ifs <;> rfl)
  split_ifs
  · exact h2
  · refine FollowsConfig.congr ?_ (controlTxTimer_configFields _)
    split
    · exact h2.updateState _ _
    · exact h2

theorem FollowsConfig.timeout (h : FollowsConfig s) : FollowsConfig (bfdSessionTimeout s now) := by
  unfold bfdSessionTimeout; dsimp only
  refine FollowsConfig.congr ?_ (controlTxTimer_configFields _)
  exact FollowsConfig.updateState (h.congr (by rfl)) _ _

/-- `bfd_reconfigure_session` stashes the new options whatever the setters apply now. -/
theorem followsConfig_reconfigure (cf : SessionConfig) :
    FollowsConfig (bfdReconfigureSession s cf now) := by
  unfold bfdReconfigureSession
  constructor <;> simp [bfdSessionControlTxTimer, desiredTx]

theorem FollowsConfig.step (h : FollowsConfig s) (ev : SessionEvent) :
    FollowsConfig (sessionStep s now ev) := by
  cases ev with
  | rx pkt =>
    dsimp only [sessionStep, bfdReceiveCtl]
    exact FollowsConfig.processCtl (h.congr (by rfl)) _ _ _
  | txFire j =>
    dsimp only [sessionStep]; split_ifs
    · exact h.congr rfl
    · exact h
  | holdFire =>
    dsimp only [sessionStep]; split_ifs
    · exact FollowsConfig.timeout (h.congr (by rfl))
    · exact h
  | reconfigure cf => exact followsConfig_reconfigure cf

theorem followsConfig_addSession (cf : SessionConfig) (now : ℕ+) :
    FollowsConfig (bfdAddSession cf now) :=
  ⟨rfl, rfl, rfl, rfl⟩

theorem FollowsConfig.run (h : FollowsConfig s) (evs : List (ℕ+ × SessionEvent)) :
    FollowsConfig (sessionRun s evs) := by
  induction evs generalizing s with
  | nil => exact h
  | cons e es ih => exact ih (h.step e.2)

/-- Over every run, the stashed intervals follow the idle/active rule and the session's
current options. -/
theorem desired_intervals_follow_config (cf : SessionConfig) (now : ℕ+)
    (evs : List (ℕ+ × SessionEvent)) :
    let s := sessionRun (bfdAddSession cf now) evs
    s.desMinTxNew = (if s.locState = .up then s.cf.minTxInt else s.cf.idleTxInt) ∧
      s.reqMinRxNew = s.cf.minRxInt ∧ s.detectMult = s.cf.multiplier ∧
      s.passive = s.cf.passive :=
  let h := (followsConfig_addSession cf now).run evs
  ⟨h.1, h.2, h.3, h.4⟩

/-! ## The TX period -/

/-- `T` of `bfd_session_update_tx_interval`: the interval negotiated for transmission. -/
def txInterval (s : Session) : Nat := max s.desMinTxInt s.remMinRxInt

/-- The period and jitter range `bfd_session_update_tx_interval` gives a timer for the interval
`T`: fires fall in `[T - T/4, T - T/10]`, 75 to 90 per cent of `T`. -/
def PeriodOf (T : Nat) (t : Timer) : Prop :=
  t.recurrent = T - T / 4 ∧ t.randomize = T / 4 - T / 10

/-- The TX timer's period and jitter range are those of the current interval. -/
def TxPeriod (s : Session) : Prop := PeriodOf (txInterval s) s.txTimer

instance (s : Session) : Decidable (TxPeriod s) := inferInstanceAs (Decidable (_ ∧ _))

/-- The fields `TxPeriod` reads. -/
def periodFields (s : Session) : Nat × Nat × Nat × Nat :=
  (s.txTimer.recurrent, s.txTimer.randomize, s.desMinTxInt, s.remMinRxInt)

theorem TxPeriod.congr {t : Session} (h : TxPeriod s) (e : periodFields t = periodFields s) :
    TxPeriod t := by
  simp only [periodFields, Prod.mk.injEq] at e
  obtain ⟨e1, e2, e3, e4⟩ := e
  unfold TxPeriod PeriodOf txInterval at *
  rw [e1, e2, e3, e4]; exact h

theorem txPeriod_updateTxInterval (s : Session) : TxPeriod (bfdSessionUpdateTxInterval s) := by
  unfold TxPeriod PeriodOf txInterval bfdSessionUpdateTxInterval
  refine ⟨?_, ?_⟩ <;> split_ifs <;> simp <;> omega

@[simp] theorem controlTxTimer_periodFields (reset : Bool) :
    periodFields (bfdSessionControlTxTimer s reset now) = periodFields s := by
  unfold bfdSessionControlTxTimer periodFields; dsimp only; split_ifs <;> rfl

@[simp] theorem requestPoll_periodFields (r : BitVec 8) :
    periodFields (bfdSessionRequestPoll s r now) = periodFields s := by
  unfold bfdSessionRequestPoll; split_ifs <;> (try rw [controlTxTimer_periodFields]) <;> rfl

@[simp] theorem setMinRx_periodFields (v : Nat) :
    periodFields (bfdSessionSetMinRx s v now) = periodFields s := by
  unfold bfdSessionSetMinRx; dsimp only; split_ifs <;> (try rw [requestPoll_periodFields]) <;> rfl

/-- A change of `des_min_tx_int` is always followed by `bfd_session_update_tx_interval`. -/
theorem TxPeriod.setMinTx (h : TxPeriod s) (v : Nat) : TxPeriod (bfdSessionSetMinTx s v now) := by
  unfold bfdSessionSetMinTx; dsimp only
  split_ifs
  · exact h
  · exact (txPeriod_updateTxInterval _).congr (requestPoll_periodFields _)
  · exact h.congr (by rw [requestPoll_periodFields]; rfl)

theorem TxPeriod.updateState (h : TxPeriod s) (state : BfdState) (diag : Nat) :
    TxPeriod (bfdSessionUpdateState s state diag now) := by
  unfold bfdSessionUpdateState; dsimp only
  split_ifs
  · exact h
  · exact (TxPeriod.setMinTx (h.congr (by rfl)) _).setMinTx _
  · exact TxPeriod.setMinTx (h.congr (by rfl)) _
  · exact TxPeriod.setMinTx (h.congr (by rfl)) _
  · exact h.congr (by rfl)

/-- Control packet processing recomputes the period whenever either side of `T` moved since
`old_tx_int` and `old_rx_int`, the values the timer was set from. -/
theorem txPeriod_processCtl {flags : BitVec 8} {oldTx oldRx : Nat}
    (h : PeriodOf (max oldTx oldRx) s.txTimer) :
    TxPeriod (bfdSessionProcessCtl s flags oldTx oldRx now) := by
  unfold bfdSessionProcessCtl; dsimp only
  generalize hs1 : (if s.pollActive ≠ 0 ∧ flags &&& bfdFlagFinal ≠ 0 then bfdSessionTerminatePoll s
    else s) = s1
  have ht : s1.txTimer = s.txTimer := by rw [← hs1]; split_ifs <;> rfl
  have h2 : TxPeriod (if s1.desMinTxInt ≠ oldTx ∨ s1.remMinRxInt ≠ oldRx then
      bfdSessionUpdateTxInterval s1 else s1) := by
    split_ifs with hc
    · exact txPeriod_updateTxInterval s1
    · push_neg at hc
      unfold TxPeriod txInterval; rw [ht, hc.1, hc.2]; exact h
  generalize hs3 : bfdSessionUpdateDetectionTime _ true now = s3
  have h3 : TxPeriod s3 := hs3 ▸ h2.congr rfl
  split_ifs
  · exact h3
  · refine TxPeriod.congr ?_ (controlTxTimer_periodFields _)
    split
    · exact h3.updateState _ _
    · exact h3

/-- The one event that can leave the TX period stale: a fire of the armed detection timer,
whose hook `bfd_session_timeout` sets `rem_min_rx_int` to 1. -/
def TimesOut (s : Session) : SessionEvent → Prop
  | .holdFire => tmActive s.holdTimer = true
  | _ => False

theorem TxPeriod.step (h : TxPeriod s) {ev : SessionEvent} (hf : ¬TimesOut s ev) :
    TxPeriod (sessionStep s now ev) := by
  cases ev with
  | rx pkt => exact txPeriod_processCtl h
  | txFire j =>
    dsimp only [sessionStep]; split_ifs
    · exact h.congr (by simp [periodFields, bfdTxTimerHook])
    · exact h
  | holdFire => simp only [TimesOut] at hf; simpa [sessionStep, hf] using h
  | reconfigure cf =>
    dsimp only [sessionStep, bfdReconfigureSession]
    refine TxPeriod.congr ?_ (controlTxTimer_periodFields _)
    exact TxPeriod.congr ((h.congr (t := { s with cf }) rfl).setMinTx _)
      (setMinRx_periodFields _)

theorem txPeriod_addSession (cf : SessionConfig) (now : ℕ+) : TxPeriod (bfdAddSession cf now) :=
  (txPeriod_updateTxInterval _).congr (controlTxTimer_periodFields _)

theorem TxPeriod.run (h : TxPeriod s) (evs : List (ℕ+ × SessionEvent))
    (hf : Along (fun s ev => ¬TimesOut s ev) s evs) : TxPeriod (sessionRun s evs) := by
  induction evs generalizing s with
  | nil => exact h
  | cons e es ih => exact ih (h.step hf.1) hf.2

/-- Along every run in which the detection timer never fires, the TX timer's period and jitter
range are those of the negotiated interval `T = max(des_min_tx_int, rem_min_rx_int)`: every
transmission falls within 75 to 90 per cent of `T`. -/
theorem tx_period_follows_interval (cf : SessionConfig) (now : ℕ+) (evs : List (ℕ+ × SessionEvent))
    (hf : Along (fun s ev => ¬TimesOut s ev) (bfdAddSession cf now) evs) :
    TxPeriod (sessionRun (bfdAddSession cf now) evs) :=
  (txPeriod_addSession cf now).run evs hf

/-- A peer asking for a 2 s receive interval, then a fire of the TX timer. -/
theorem tx_period_follows_interval_slow_peer :
    Along (fun s ev => ¬TimesOut s ev) (bfdAddSession exampleConfig 1)
        [(10, .rx ⟨.down, 5, false, 100, 2000, 3, 0, by decide, by decide⟩), (20, .txFire 0)] ∧
      TxPeriod (sessionRun (bfdAddSession exampleConfig 1)
        [(10, .rx ⟨.down, 5, false, 100, 2000, 3, 0, by decide, by decide⟩), (20, .txFire 0)]) :=
  have h : Along (fun s ev => ¬TimesOut s ev) (bfdAddSession exampleConfig 1)
      [(10, .rx ⟨.down, 5, false, 100, 2000, 3, 0, by decide, by decide⟩), (20, .txFire 0)] := by
    simp only [Along, TimesOut]; decide
  ⟨h, tx_period_follows_interval _ _ _ h⟩

/-- A peer asking for a 2 s receive interval lifts the TX interval of an Init session over its
1 s idle interval. -/
def slowPeerRun : Session :=
  sessionRun (bfdAddSession exampleConfig 1)
    [(10, .rx ⟨.down, 5, false, 100, 2000, 3, 0, by decide, by decide⟩)]

/-- The detection timeout drops the interval to the idle 1 s, and the session stays below Up, so
no setter recomputes the period: the timer keeps firing every 1.5 s, 150 per cent of it. -/
theorem timeout_keeps_stale_tx_period :
    TxPeriod slowPeerRun ∧ txInterval slowPeerRun = 2000 ∧
      txInterval (sessionStep slowPeerRun 400 .holdFire) = 1000 ∧
      (sessionStep slowPeerRun 400 .holdFire).txTimer.recurrent = 1500 ∧
      ¬TxPeriod (sessionStep slowPeerRun 400 .holdFire) := by
  decide

end Bfd
