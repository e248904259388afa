import Bfd.Poll
import Bfd.Frame

/-! # A postponed interval takes effect only through its poll sequence

While Up, `des_min_tx_int` only decreases and `req_min_rx_int` only increases, except at
the Final packet that ends a poll sequence carrying the TX (resp. RX) change; that packet
commits the desired value, which stayed the same for the whole sequence. A change of the
desired value during a sequence schedules its bit, and a scheduled bit blocks the commit:
the two facts behind the law are `WithinPoll` (what a step inside a sequence can do) and
the commit lemmas of the Up-to-Up steps. -/
namespace Bfd

/-! ## Bits of the poll masks -/

theorem or_tx_and_tx (a : BitVec 8) : (a ||| bfdPollTx) &&& bfdPollTx ≠ 0 := by
  rw [BitVec.or_comm]; exact or_and_ne_zero_of_and a (by decide)

theorem or_rx_and_rx (a : BitVec 8) : (a ||| bfdPollRx) &&& bfdPollRx ≠ 0 := by
  rw [BitVec.or_comm]; exact or_and_ne_zero_of_and a (by decide)

/-- The bit of a request is in the `poll_done` of `bfd_session_terminate_poll` iff it is
active and not scheduled again. -/
theorem pollDone_iff {a b r : BitVec 8} (ha : PollMask a) (hb : PollMask b) (hr : PollRequest r) :
    (a &&& ~~~b) &&& r ≠ 0 ↔ a &&& r ≠ 0 ∧ b &&& r = 0 := by
  rcases (pollMask_iff a).1 ha with rfl | rfl | rfl | rfl <;>
    rcases (pollMask_iff b).1 hb with rfl | rfl | rfl | rfl <;>
    rcases hr with rfl | rfl <;> decide

/-! ## Steps inside a poll sequence -/

/-- What a step that does not end the running poll sequence can do: the active mask stays,
scheduled bits stay, and a desired interval changes only with its bit scheduled. -/
structure WithinPoll (s t : Session) : Prop where
  active : t.pollActive = s.pollActive
  tx_kept : s.pollScheduled &&& bfdPollTx ≠ 0 → t.pollScheduled &&& bfdPollTx ≠ 0
  rx_kept : s.pollScheduled &&& bfdPollRx ≠ 0 → t.pollScheduled &&& bfdPollRx ≠ 0
  tx_new : t.desMinTxNew ≠ s.desMinTxNew → t.pollScheduled &&& bfdPollTx ≠ 0
  rx_new : t.reqMinRxNew ≠ s.reqMinRxNew → t.pollScheduled &&& bfdPollRx ≠ 0

theorem WithinPoll.of_fields {s t : Session} (e : pollFields t = pollFields s) : WithinPoll s t := by
  simp only [pollFields, Prod.mk.injEq] at e
  obtain ⟨-, -, e3, -, e5, e6, e7⟩ := e
  exact ⟨e6, e7 ▸ id, e7 ▸ id, fun h => (h e3).elim, fun h => (h e5).elim⟩

theorem WithinPoll.trans {s t u : Session} (h : WithinPoll s t) (h' : WithinPoll t u) :
    WithinPoll s u where
  active := h'.active.trans h.active
  tx_kept := h'.tx_kept ∘ h.tx_kept
  rx_kept := h'.rx_kept ∘ h.rx_kept
  tx_new hn := by
    by_cases e : u.desMinTxNew = t.desMinTxNew
    · exact h'.tx_kept (h.tx_new (e ▸ hn))
    · exact h'.tx_new e
  rx_new hn := by
    by_cases e : u.reqMinRxNew = t.reqMinRxNew
    · exact h'.rx_kept (h.rx_new (e ▸ hn))
    · exact h'.rx_new e

theorem WithinPoll.active_ne {s t : Session} (h : WithinPoll s t) (ha : s.pollActive ≠ 0) :
    t.pollActive ≠ 0 :=
  fun h0 => ha (h.active ▸ h0)

theorem WithinPoll.congr_left {s t u : Session} (e : pollFields t = pollFields s)
    (h : WithinPoll t u) : WithinPoll s u :=
  (WithinPoll.of_fields e).trans h

variable {s : Session} {now : ℕ+}

/-- With a poll active towards a known peer, a poll request only schedules its bit. -/
theorem requestPoll_of_active (r : BitVec 8) (hid : s.remId ≠ 0) (ha : s.pollActive ≠ 0) :
    bfdSessionRequestPoll s r now = { s with pollScheduled := s.pollScheduled ||| r } := by
  unfold bfdSessionRequestPoll; rw [if_neg hid, if_pos ha]

theorem withinPoll_setMinTx (hid : s.remId ≠ 0) (ha : s.pollActive ≠ 0) (v : Nat) :
    WithinPoll s (bfdSessionSetMinTx s v now) := by
  unfold bfdSessionSetMinTx; dsimp only
  split_ifs
  · exact WithinPoll.of_fields rfl
  all_goals
    rw [requestPoll_of_active]
    · exact ⟨rfl, or_and_ne_zero_of_and _, or_and_ne_zero_of_and _, fun _ => or_tx_and_tx _,
        fun h => (h rfl).elim⟩
    exacts [hid, ha]

theorem withinPoll_setMinRx (hid : s.remId ≠ 0) (ha : s.pollActive ≠ 0) (v : Nat) :
    WithinPoll s (bfdSessionSetMinRx s v now) := by
  unfold bfdSessionSetMinRx; dsimp only
  split_ifs
  · exact WithinPoll.of_fields rfl
  all_goals
    rw [requestPoll_of_active]
    · exact ⟨rfl, or_and_ne_zero_of_and _, or_and_ne_zero_of_and _, fun h => (h rfl).elim,
        fun _ => or_rx_and_rx _⟩
    exacts [hid, ha]

theorem withinPoll_updateState (hid : s.remId ≠ 0) (ha : s.pollActive ≠ 0) (state : BfdState)
    (diag : Nat) : WithinPoll s (bfdSessionUpdateState s state diag now) := by
  unfold bfdSessionUpdateState; dsimp only
  split_ifs <;> first
    | exact WithinPoll.of_fields rfl
    | (refine WithinPoll.congr_left ?_ (withinPoll_setMinTx ?_ ?_ _); exacts [rfl, hid, ha])
    | (exfalso; simp_all)

/-- A packet without the Final flag, or one that arrives with no poll to end. -/
theorem withinPoll_processCtl (hid : s.remId ≠ 0) (ha : s.pollActive ≠ 0) {flags : BitVec 8}
    (hf : ¬(s.pollActive ≠ 0 ∧ flags &&& bfdFlagFinal ≠ 0)) (oldTx oldRx : Nat) :
    WithinPoll s (bfdSessionProcessCtl s flags oldTx oldRx now) := by
  unfold bfdSessionProcessCtl; dsimp only
  rw [if_neg hf]
  generalize hs2 : bfdSessionUpdateDetectionTime (if s.desMinTxInt ≠ oldTx ∨
    s.remMinRxInt ≠ oldRx then bfdSessionUpdateTxInterval s else s) true now = s2
  have e2 : pollFields s2 = pollFields s := by rw [← hs2]; split_ifs <;> rfl
  have h2 := WithinPoll.of_fields e2
  simp only [pollFields, Prod.mk.injEq] at e2
  split_ifs
  · exact h2
  · split
    · exact h2.trans ((withinPoll_updateState (e2.1 ▸ hid) (h2.active_ne ha) _ _).trans
        (WithinPoll.of_fields rfl))
    · exact h2.trans (WithinPoll.of_fields rfl)

theorem withinPoll_reconfigure (hid : s.remId ≠ 0) (ha : s.pollActive ≠ 0) (cf : SessionConfig) :
    WithinPoll s (bfdReconfigureSession s cf now) := by
  unfold bfdReconfigureSession; dsimp only
  have h1 : WithinPoll s (bfdSessionSetMinTx { s with cf }
      (if s.locState = .up then cf.minTxInt else cf.idleTxInt) now) := by
    refine WithinPoll.congr_left ?_ (withinPoll_setMinTx ?_ ?_ _); exacts [rfl, hid, ha]
  exact (h1.trans (withinPoll_setMinRx (by simpa using hid) (h1.active_ne ha) cf.minRxInt)).trans
    (WithinPoll.of_fields rfl)

/-- The events that end the running poll sequence: a Final packet while a poll is active,
and a detection timeout. -/
def EndsPoll (s : Session) : SessionEvent → Prop
  | .rx pkt => s.pollActive ≠ 0 ∧ pkt.flags &&& bfdFlagFinal ≠ 0
  | .holdFire => tmActive s.holdTimer = true
  | _ => False

theorem withinPoll_step (h : PollInv s) (ha : s.pollActive ≠ 0) {ev : SessionEvent}
    (he : ¬EndsPoll s ev) : WithinPoll s (sessionStep s now ev) := by
  have hid := h.active_remId ha
  cases ev with
  | rx pkt =>
    have h1 : WithinPoll s { s with
        remId := pkt.sndId, remState := pkt.state, remDemandMode := pkt.demand,
        remMinTxInt := pkt.desMinTxInt, remMinRxInt := pkt.reqMinRxInt,
        remDetectMult := pkt.detectMult } :=
      ⟨rfl, id, id, fun h => (h rfl).elim, fun h => (h rfl).elim⟩
    dsimp only [sessionStep, bfdReceiveCtl]
    refine h1.trans (withinPoll_processCtl ?_ ?_ ?_ _ _)
    exacts [pkt.sndId_ne, ha, he]
  | txFire j => dsimp only [sessionStep]; split_ifs <;> exact WithinPoll.of_fields rfl
  | holdFire =>
    simp only [EndsPoll, Bool.not_eq_true] at he
    simp only [sessionStep, he]
    exact WithinPoll.of_fields rfl
  | reconfigure cf => exact withinPoll_reconfigure hid ha cf

/-- No event of `win`, run from `s`, ends the poll sequence running when it arrives. -/
def NoEnd : Session → List (ℕ+ × SessionEvent) → Prop := Along fun s ev => ¬EndsPoll s ev

theorem withinPoll_run (h : PollInv s) (ha : s.pollActive ≠ 0) (win : List (ℕ+ × SessionEvent))
    (hw : NoEnd s win) : WithinPoll s (sessionRun s win) := by
  induction win generalizing s with
  | nil => exact WithinPoll.of_fields rfl
  | cons e win ih =>
    obtain ⟨he, hw⟩ := hw
    have h1 : WithinPoll s (sessionStep s e.1 e.2) := withinPoll_step h ha he
    exact h1.trans (ih (h.step e.2) (h1.active_ne ha) hw)

/-! ## Steps across which the session stays Up -/

/-- The event is a Final packet that commits the change of bit `r`: the bit is active in
the running poll sequence and not scheduled again. -/
def FinalCommits (r : BitVec 8) (s : Session) : SessionEvent → Prop
  | .rx pkt => pkt.flags &&& bfdFlagFinal ≠ 0 ∧ s.pollActive &&& r ≠ 0 ∧ s.pollScheduled &&& r = 0
  | _ => False

instance (r : BitVec 8) (s : Session) : (ev : SessionEvent) → Decidable (FinalCommits r s ev)
  | .rx _ => inferInstanceAs (Decidable (_ ∧ _ ∧ _))
  | .txFire _ => isFalse id
  | .holdFire => isFalse id
  | .reconfigure _ => isFalse id

theorem bfdNextState_up {rem state : BfdState} {diag : Nat}
    (h : bfdNextState .up rem = some (state, diag)) : state = .down := by
  simp only [bfdNextState] at h; split_ifs at h; cases h; rfl

/-- A packet that leaves an Up session Up takes no transition: of the current intervals,
only the poll termination touches them. -/
theorem processCtl_stays_up (hu : s.locState = .up) {flags : BitVec 8} {oldTx oldRx : Nat}
    (hu' : (bfdSessionProcessCtl s flags oldTx oldRx now).locState = .up) :
    let s1 := if s.pollActive ≠ 0 ∧ flags &&& bfdFlagFinal ≠ 0 then bfdSessionTerminatePoll s else s
    (bfdSessionProcessCtl s flags oldTx oldRx now).desMinTxInt = s1.desMinTxInt ∧
      (bfdSessionProcessCtl s flags oldTx oldRx now).reqMinRxInt = s1.reqMinRxInt := by
  unfold bfdSessionProcessCtl at hu' ⊢; dsimp only at hu' ⊢
  generalize hs1 : (if s.pollActive ≠ 0 ∧ flags &&& bfdFlagFinal ≠ 0 then
    bfdSessionTerminatePoll s else s) = s1 at hu' ⊢
  have hl1 : s1.locState = .up := by rw [← hs1]; split_ifs <;> exact hu
  generalize hs2 : bfdSessionUpdateDetectionTime (if s1.desMinTxInt ≠ oldTx ∨
    s1.remMinRxInt ≠ oldRx then bfdSessionUpdateTxInterval s1 else s1) true now = s2 at hu' ⊢
  have e2 : s2.locState = s1.locState ∧ s2.desMinTxInt = s1.desMinTxInt ∧
      s2.reqMinRxInt = s1.reqMinRxInt := by
    rw [← hs2]; split_ifs <;> exact ⟨rfl, rfl, rfl⟩
  rw [e2.1, hl1, if_neg (by decide)] at hu' ⊢
  cases hn : bfdNextState .up s2.remState with
  | none => simp only [hn] at hu' ⊢; exact ⟨e2.2.1, e2.2.2⟩
  | some p =>
    obtain ⟨state, diag⟩ := p
    simp only [hn, bfdSessionControlTxTimer, updateState_locState] at hu'
    exact absurd (bfdNextState_up hn) (by rw [hu']; decide)

theorem setMinTx_desMinTxInt_le (hu : s.locState = .up) (v : Nat) :
    (bfdSessionSetMinTx s v now).desMinTxInt ≤ s.desMinTxInt := by
  unfold bfdSessionSetMinTx; dsimp only
  split_ifs with h0 h1 <;> simp only [bfdSessionUpdateTxInterval, requestPoll_desMinTxInt, le_refl]
  simp only [hu, ne_eq, not_true_eq_false, false_or] at h1; omega

theorem setMinRx_reqMinRxInt_ge (hu : s.locState = .up) (v : Nat) :
    s.reqMinRxInt ≤ (bfdSessionSetMinRx s v now).reqMinRxInt := by
  unfold bfdSessionSetMinRx; dsimp only
  split_ifs with h0 h1 <;> simp only [bfdSessionUpdateDetectionTime, requestPoll_reqMinRxInt,
    le_refl]
  simp only [hu, ne_eq, not_true_eq_false, false_or] at h1; omega

theorem terminatePoll_desMinTxInt (ha : PollMask s.pollActive) (hb : PollMask s.pollScheduled) :
    (bfdSessionTerminatePoll s).desMinTxInt = if s.pollActive &&& bfdPollTx ≠ 0 ∧
      s.pollScheduled &&& bfdPollTx = 0 then s.desMinTxNew else s.desMinTxInt := by
  simp only [bfdSessionTerminatePoll, pollDone_iff ha hb (Or.inl rfl)]

theorem terminatePoll_reqMinRxInt (ha : PollMask s.pollActive) (hb : PollMask s.pollScheduled) :
    (bfdSessionTerminatePoll s).reqMinRxInt = if s.pollActive &&& bfdPollRx ≠ 0 ∧
      s.pollScheduled &&& bfdPollRx = 0 then s.reqMinRxNew else s.reqMinRxInt := by
  simp only [bfdSessionTerminatePoll, pollDone_iff ha hb (Or.inr rfl)]

theorem ne_zero_of_and_ne_zero {a r : BitVec 8} (h : a &&& r ≠ 0) : a ≠ 0 := by
  rintro rfl; exact h BitVec.zero_and

/-- An Up packet that keeps the session Up changes a current interval only by committing
its poll bit. -/
theorem receiveCtl_up (h : PollInv s) (hu : s.locState = .up) (pkt : CtlPacket)
    (hu' : (bfdReceiveCtl s pkt now).locState = .up) :
    (bfdReceiveCtl s pkt now).desMinTxInt =
        (if FinalCommits bfdPollTx s (.rx pkt) then s.desMinTxNew else s.desMinTxInt) ∧
      (bfdReceiveCtl s pkt now).reqMinRxInt =
        (if FinalCommits bfdPollRx s (.rx pkt) then s.reqMinRxNew else s.reqMinRxInt) := by
  unfold bfdReceiveCtl at hu' ⊢
  obtain ⟨e1, e2⟩ := processCtl_stays_up (by exact hu) hu'
  rw [e1, e2]
  simp only [FinalCommits]
  by_cases hc : s.pollActive ≠ 0 ∧ pkt.flags &&& bfdFlagFinal ≠ 0
  · rw [if_pos hc, terminatePoll_desMinTxInt, terminatePoll_reqMinRxInt]
    · simp only [hc.2, ne_eq, not_false_eq_true, true_and]
    all_goals first | exact h.3 | exact h.4
  · rw [if_neg hc, if_neg, if_neg]
    · exact ⟨rfl, rfl⟩
    all_goals exact fun ⟨hf, ha, _⟩ => hc ⟨ne_zero_of_and_ne_zero ha, hf⟩

theorem FinalCommits.scheduled {r : BitVec 8} {ev : SessionEvent} (hc : FinalCommits r s ev) :
    s.pollScheduled &&& r = 0 := by
  cases ev with
  | rx pkt => exact hc.2.2
  | _ => exact hc.elim

/-- Across a step that keeps the session Up, `des_min_tx_int` rises (and `req_min_rx_int`
falls) only by the commit of a Final packet, to the desired value. -/
theorem upStep_intervals (h : PollInv s) (hu : s.locState = .up) (ev : SessionEvent)
    (hu' : (sessionStep s now ev).locState = .up) :
    ((FinalCommits bfdPollTx s ev → (sessionStep s now ev).desMinTxInt = s.desMinTxNew) ∧
      (¬FinalCommits bfdPollTx s ev → (sessionStep s now ev).desMinTxInt ≤ s.desMinTxInt)) ∧
    ((FinalCommits bfdPollRx s ev → (sessionStep s now ev).reqMinRxInt = s.reqMinRxNew) ∧
      (¬FinalCommits bfdPollRx s ev → s.reqMinRxInt ≤ (sessionStep s now ev).reqMinRxInt)) := by
  cases ev with
  | rx pkt =>
    obtain ⟨e1, e2⟩ := receiveCtl_up h hu pkt hu'
    simp only [sessionStep, e1, e2]
    exact ⟨⟨fun hc => if_pos hc, fun hc => (if_neg hc).le⟩,
      ⟨fun hc => if_pos hc, fun hc => (if_neg hc).ge⟩⟩
  | txFire j =>
    simp only [FinalCommits, sessionStep, not_false_eq_true, true_implies, false_implies, true_and]
    split_ifs <;> simp [bfdTxTimerHook]
  | holdFire =>
    simp only [sessionStep] at hu' ⊢
    split_ifs at hu' ⊢
    · simp at hu'
    · simp [FinalCommits]
  | reconfigure cf =>
    simp only [FinalCommits, sessionStep, not_false_eq_true, true_implies, false_implies, true_and]
    unfold bfdReconfigureSession
    simp only [bfdSessionControlTxTimer, setMinRx_desMinTxInt]
    refine ⟨setMinTx_desMinTxInt_le (by exact hu) _, ?_⟩
    calc s.reqMinRxInt = (bfdSessionSetMinTx { s with cf }
          (if s.locState = .up then cf.minTxInt else cf.idleTxInt) now).reqMinRxInt := by simp
      _ ≤ _ := setMinRx_reqMinRxInt_ge (by simpa using hu) _

/-! ## Over runs -/

/-- An interval change in the unsafe direction takes effect only through its poll. Split
any run of a session as `pre`, then `win`, then one event. If the session is Up before and
after that event, `des_min_tx_int` does not increase and `req_min_rx_int` does not
decrease, except at a Final packet that commits the TX (resp. RX) bit; then the new value
is the desired value of every state of the committed poll sequence, that is every state
after `pre` with a poll active from which no event of `win` ended the sequence. -/
theorem up_interval_commit (cf : SessionConfig) (now : ℕ+) (pre win : List (ℕ+ × SessionEvent))
    (t : ℕ+) (ev : SessionEvent) :
    let sj := sessionRun (bfdAddSession cf now) pre
    let sk := sessionRun sj win
    let sk' := sessionStep sk t ev
    sk.locState = .up → sk'.locState = .up →
      ((¬FinalCommits bfdPollTx sk ev → sk'.desMinTxInt ≤ sk.desMinTxInt) ∧
        (FinalCommits bfdPollTx sk ev → sj.pollActive ≠ 0 → NoEnd sj win →
          sk'.desMinTxInt = sj.desMinTxNew)) ∧
      ((¬FinalCommits bfdPollRx sk ev → sk.reqMinRxInt ≤ sk'.reqMinRxInt) ∧
        (FinalCommits bfdPollRx sk ev → sj.pollActive ≠ 0 → NoEnd sj win →
          sk'.reqMinRxInt = sj.reqMinRxNew)) := by
  intro sj sk sk' hu hu'
  have hj : PollInv sj := (pollInv_addSession cf now).run pre
  obtain ⟨⟨tx1, tx2⟩, ⟨rx1, rx2⟩⟩ := upStep_intervals (hj.run win) hu ev hu'
  refine ⟨⟨tx2, fun hc ha hw => ?_⟩, ⟨rx2, fun hc ha hw => ?_⟩⟩ <;>
    have hwin := withinPoll_run hj ha win hw
  -- a change of the desired value inside the sequence would have scheduled the bit again
  · rw [tx1 hc]; by_contra hne; exact hwin.tx_new hne hc.scheduled
  · rw [rx1 hc]; by_contra hne; exact hwin.rx_new hne hc.scheduled

/-- Raising the TX interval of an Up session to 500 is postponed behind the running poll
sequence and committed by the Final packet that ends the next one. -/
theorem up_interval_commit_reconfigured :
    let sj := sessionRun (bfdAddSession exampleConfig 1) [(10, .rx (examplePacket .init 0)),
      (20, .reconfigure { exampleConfig with minTxInt := 500 }),
      (30, .rx (examplePacket .up bfdFlagFinal))]
    let ev : SessionEvent := .rx (examplePacket .up bfdFlagFinal)
    let sk' := sessionStep (sessionRun sj []) 40 ev
    (sessionRun sj []).locState = .up ∧ sk'.locState = .up ∧
      FinalCommits bfdPollTx (sessionRun sj []) ev ∧ sj.pollActive ≠ 0 ∧ NoEnd sj [] ∧
      sk'.desMinTxInt = sj.desMinTxNew ∧ sk'.desMinTxInt = 500 :=
  ⟨by decide, by decide, by decide, by decide, trivial,
    (up_interval_commit exampleConfig 1 _ [] 40 _ (by decide) (by decide)).1.2 (by decide)
      (by decide) trivial, by decide⟩

/-! ## A poll abandoned by a detection timeout -/

/-- An RX interval lowered while Up waits for a poll; a detection timeout clears both poll
masks, and a second reconfiguration with the same value meets a Down session. -/
def rxOrphanRun : Session :=
  sessionRun (bfdAddSession exampleConfig 1)
    [(10, .rx (examplePacket .init 0)), (20, .reconfigure { exampleConfig with minRxInt := 50 }),
      (400, .holdFire), (500, .reconfigure { exampleConfig with minRxInt := 50 })]

/-- The session is left Down with the lowered value stashed and no poll bit to commit it:
`bfd_session_set_min_rx` returned at once on a value equal to `req_min_rx_new`. -/
theorem timeout_orphans_rx_change :
    rxOrphanRun.locState = .down ∧ rxOrphanRun.reqMinRxInt = 100 ∧
      rxOrphanRun.reqMinRxNew = 50 ∧ rxOrphanRun.pollActive = 0 ∧
      rxOrphanRun.pollScheduled = 0 := by
  decide

end Bfd
