import Bfd.Session
import Mathlib.Data.Fintype.Basic

/-! # The poll sequence invariant

Over every run of a session: the current TX interval never exceeds the desired one, the
current RX interval never falls below the desired one, both poll masks hold only the TX
and RX bits, a scheduled poll has an active one to be drained by, and a poll is only
active towards a peer whose discriminator is known. One preservation lemma per function
of the session thread, then one per event, then the run. -/
namespace Bfd

/-! ## Poll masks -/

/-- Every bit of a poll mask is the TX or the RX bit. -/
def PollMask (m : BitVec 8) : Prop := m &&& ~~~(bfdPollTx ||| bfdPollRx) = 0

instance (m : BitVec 8) : Decidable (PollMask m) := by unfold PollMask; infer_instance

set_option maxRecDepth 4000 in
theorem pollMask_iff (m : BitVec 8) : PollMask m ↔ m = 0 ∨ m = 1 ∨ m = 2 ∨ m = 3 := by
  revert m; decide

theorem PollMask.or {a b : BitVec 8} (ha : PollMask a) (hb : PollMask b) : PollMask (a ||| b) := by
  rcases (pollMask_iff a).1 ha with rfl | rfl | rfl | rfl <;>
    rcases (pollMask_iff b).1 hb with rfl | rfl | rfl | rfl <;> decide

theorem pollMask_zero : PollMask 0 := by decide

/-- A bit of `b` set in `x` stays set in `x ||| y`. -/
theorem or_and_ne_zero_of_and {x b : BitVec 8} (y : BitVec 8) (h : x &&& b ≠ 0) :
    (x ||| y) &&& b ≠ 0 := fun h' => h <| BitVec.eq_of_getLsbD_eq fun i => by
  have := congrArg (BitVec.getLsbD · i) h'
  simp only [BitVec.getLsbD_and, BitVec.getLsbD_or] at this ⊢
  cases hx : x.getLsbD i <;> simp_all

/-- The two requests `bfd_session_request_poll` is called with. -/
def PollRequest (r : BitVec 8) : Prop := r = bfdPollTx ∨ r = bfdPollRx

theorem PollRequest.mask {r : BitVec 8} (h : PollRequest r) : PollMask r := by
  rcases h with rfl | rfl <;> decide

/-! ## The invariant -/

structure PollInv (s : Session) : Prop where
  tx_le : s.desMinTxInt ≤ s.desMinTxNew
  rx_ge : s.reqMinRxNew ≤ s.reqMinRxInt
  active_mask : PollMask s.pollActive
  scheduled_mask : PollMask s.pollScheduled
  scheduled_active : s.pollScheduled ≠ 0 → s.pollActive ≠ 0
  active_remId : s.pollActive ≠ 0 → s.remId ≠ 0

/-- The fields `PollInv` reads. -/
def pollFields (s : Session) : Nat × Nat × Nat × Nat × Nat × BitVec 8 × BitVec 8 :=
  (s.remId, s.desMinTxInt, s.desMinTxNew, s.reqMinRxInt, s.reqMinRxNew, s.pollActive,
    s.pollScheduled)

theorem PollInv.congr {s t : Session} (h : PollInv s) (e : pollFields t = pollFields s) :
    PollInv t := by
  simp only [pollFields, Prod.mk.injEq] at e
  obtain ⟨e1, e2, e3, e4, e5, e6, e7⟩ := e
  exact ⟨e2 ▸ e3 ▸ h.1, e4 ▸ e5 ▸ h.2, e6 ▸ h.3, e7 ▸ h.4, e6 ▸ e7 ▸ h.5, e1 ▸ e6 ▸ h.6⟩

variable {s : Session} {now : ℕ+}

theorem PollInv.updateTxInterval (h : PollInv s) : PollInv (bfdSessionUpdateTxInterval s) :=
  ⟨h.1, h.2, h.3, h.4, h.5, h.6⟩

theorem PollInv.updateDetectionTime (h : PollInv s) (kick : Bool) :
    PollInv (bfdSessionUpdateDetectionTime s kick now) := ⟨h.1, h.2, h.3, h.4, h.5, h.6⟩

theorem PollInv.controlTxTimer (h : PollInv s) (reset : Bool) :
    PollInv (bfdSessionControlTxTimer s reset now) := ⟨h.1, h.2, h.3, h.4, h.5, h.6⟩

theorem PollInv.requestPoll (h : PollInv s) {r : BitVec 8} (hr : PollRequest r) :
    PollInv (bfdSessionRequestPoll s r now) := by
  unfold bfdSessionRequestPoll
  split_ifs with h0 h1
  · exact h
  · exact ⟨h.1, h.2, h.3, h.4.or hr.mask, fun _ => h1, h.6⟩
  · exact ⟨h.1, h.2, h.4.or hr.mask, pollMask_zero, fun h => absurd rfl h,
      fun _ => h0⟩

theorem PollInv.terminatePoll (h : PollInv s) : PollInv (bfdSessionTerminatePoll s) := by
  refine ⟨?_, ?_, h.4, pollMask_zero, fun h => absurd rfl h, fun ha => h.6 (h.5 ha)⟩ <;>
    simp only [bfdSessionTerminatePoll] <;> split_ifs
  exacts [le_rfl, h.1, le_rfl, h.2]

theorem PollInv.setMinTx (h : PollInv s) (val : Nat) : PollInv (bfdSessionSetMinTx s val now) := by
  unfold bfdSessionSetMinTx; dsimp only
  split_ifs with h0 h1
  · exact h
  · refine PollInv.requestPoll ?_ (Or.inl rfl)
    exact ⟨le_rfl, h.2, h.3, h.4, h.5, h.6⟩
  · simp only [ne_eq, not_or, not_not, not_lt] at h1
    refine PollInv.requestPoll ?_ (Or.inl rfl)
    exact ⟨h1.2, h.2, h.3, h.4, h.5, h.6⟩

theorem PollInv.setMinRx (h : PollInv s) (val : Nat) : PollInv (bfdSessionSetMinRx s val now) := by
  unfold bfdSessionSetMinRx; dsimp only
  split_ifs with h0 h1
  · exact h
  · refine PollInv.requestPoll ?_ (Or.inr rfl)
    exact ⟨h.1, le_rfl, h.3, h.4, h.5, h.6⟩
  · simp only [ne_eq, not_or, not_not, not_lt] at h1
    refine PollInv.requestPoll ?_ (Or.inr rfl)
    exact ⟨h.1, h1.2, h.3, h.4, h.5, h.6⟩

theorem PollInv.updateState (h : PollInv s) (state : BfdState) (diag : Nat) :
    PollInv (bfdSessionUpdateState s state diag now) := by
  have h1 : PollInv { s with
      locState := state, locDiag := diag, lastStateChange := now, linked := true } :=
    ⟨h.1, h.2, h.3, h.4, h.5, h.6⟩
  unfold bfdSessionUpdateState; dsimp only
  split_ifs
  · exact h
  · exact (h1.setMinTx _).setMinTx _
  · exact h1.setMinTx _
  · exact h1.setMinTx _
  · exact h1

theorem PollInv.processCtl (h : PollInv s) (flags : BitVec 8) (oldTx oldRx : Nat) :
    PollInv (bfdSessionProcessCtl s flags oldTx oldRx now) := by
  unfold bfdSessionProcessCtl; dsimp only
  generalize hs1 : (if s.pollActive ≠ 0 ∧ flags &&& bfdFlagFinal ≠ 0 then
    bfdSessionTerminatePoll s else s) = s1
  have h1 : PollInv s1 := by rw [← hs1]; split_ifs; exacts [h.terminatePoll, h]
  generalize hs2 : bfdSessionUpdateDetectionTime (if s1.desMinTxInt ≠ oldTx ∨
    s1.remMinRxInt ≠ oldRx then bfdSessionUpdateTxInterval s1 else s1) true now = s2
  have h2 : PollInv s2 := by
    rw [← hs2]; refine PollInv.updateDetectionTime ?_ _; split_ifs; exacts [h1.updateTxInterval, h1]
  split_ifs
  · exact h2
  · refine PollInv.controlTxTimer ?_ _; split; exacts [h2.updateState _ _, h2]

theorem PollInv.timeout (h : PollInv s) : PollInv (bfdSessionTimeout s now) := by
  unfold bfdSessionTimeout; dsimp only
  refine PollInv.controlTxTimer (PollInv.updateState ?_ _ _) _
  exact ⟨h.1, h.2, pollMask_zero, pollMask_zero, fun h => absurd rfl h, fun h => absurd rfl h⟩

theorem PollInv.reconfigure (h : PollInv s) (cf : SessionConfig) :
    PollInv (bfdReconfigureSession s cf now) := by
  have h0 : PollInv { s with cf } := h.congr rfl
  unfold bfdReconfigureSession; dsimp only
  apply PollInv.controlTxTimer
  exact ((h0.setMinTx _).setMinRx _).congr rfl

/-- The codec's non-zero discriminator is what keeps an active poll's peer known. -/
theorem PollInv.receiveCtl (h : PollInv s) (pkt : CtlPacket) :
    PollInv (bfdReceiveCtl s pkt now) := by
  apply PollInv.processCtl
  exact ⟨h.1, h.2, h.3, h.4, h.5, fun _ => pkt.sndId_ne⟩

theorem PollInv.step (h : PollInv s) (ev : SessionEvent) :
    PollInv (sessionStep s now ev) := by
  cases ev with
  | rx pkt => exact h.receiveCtl pkt
  | txFire j => dsimp only [sessionStep]; split_ifs; exacts [h.congr rfl, h]
  | holdFire => dsimp only [sessionStep]; split_ifs; exacts [PollInv.timeout (h.congr rfl), h]
  | reconfigure cf => exact h.reconfigure cf

theorem pollInv_addSession (cf : SessionConfig) (now : ℕ+) : PollInv (bfdAddSession cf now) :=
  ⟨le_rfl, le_rfl, pollMask_zero, pollMask_zero, fun h => absurd rfl h, fun h => absurd rfl h⟩

theorem PollInv.run (h : PollInv s) (evs : List (ℕ+ × SessionEvent)) :
    PollInv (sessionRun s evs) := by
  induction evs generalizing s with
  | nil => exact h
  | cons e es ih => exact ih (h.step e.2)

/-- The poll invariant: after any run of `bfd_add_session` followed by received packets,
timer fires and reconfigurations, the current intervals lag the desired ones only in the
safe direction, the poll masks stay within {TX, RX}, a scheduled poll has an active one, and
an active poll has a known peer. -/
theorem reachable_poll_invariant (cf : SessionConfig) (now : ℕ+)
    (evs : List (ℕ+ × SessionEvent)) :
    let s := sessionRun (bfdAddSession cf now) evs
    s.desMinTxInt ≤ s.desMinTxNew ∧ s.reqMinRxNew ≤ s.reqMinRxInt ∧
      s.pollActive &&& ~~~(bfdPollTx ||| bfdPollRx) = 0 ∧
      s.pollScheduled &&& ~~~(bfdPollTx ||| bfdPollRx) = 0 ∧
      (s.pollScheduled ≠ 0 → s.pollActive ≠ 0) ∧ (s.pollActive ≠ 0 → s.remId ≠ 0) :=
  let h := (pollInv_addSession cf now).run evs
  ⟨h.1, h.2, h.3, h.4, h.5, h.6⟩

end Bfd
