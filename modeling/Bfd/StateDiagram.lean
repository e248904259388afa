import Mathlib.Data.List.Chain
import Bfd.Frame

/-! # The session state diagram

`bfd_session_process_ctl` and `bfd_session_timeout` move a session along the state diagram of
RFC 5880 (section 6.2), and `bfd_session_update_state` sets the diagnostic with the state. Over
every run from `bfd_add_session`:

* the local state agrees with what the peer last reported: Init only after the peer said Down,
  Up only while the peer says Init or Up, and in both the peer's discriminator is known and
  there is no diagnostic; a Down session's diagnostic is none, Time expired or Neighbor down;
* the states the session goes through form a path of the diagram, each change setting the
  diagnostic the RFC gives it.

All of it is read off the four handshake fields, which only `bfd_session_update_state`, the
packet and the timeout write. -/
namespace Bfd

/-- The handshake fields: the local and remote states, the local diagnostic and the peer's
discriminator. -/
def handshake (s : Session) : BfdState × BfdState × Nat × Nat :=
  (s.locState, s.remState, s.locDiag, s.remId)

variable {s : Session} {now : ℕ+}

/-! ## Who writes the handshake -/

@[simp] theorem requestPoll_handshake (r : BitVec 8) :
    handshake (bfdSessionRequestPoll s r now) = handshake s := by
  unfold bfdSessionRequestPoll; split_ifs <;> rfl

@[simp] theorem setMinTx_handshake (v : Nat) :
    handshake (bfdSessionSetMinTx s v now) = handshake s := by
  unfold bfdSessionSetMinTx; dsimp only; split_ifs <;> simp only [requestPoll_handshake] <;> rfl

@[simp] theorem setMinRx_handshake (v : Nat) :
    handshake (bfdSessionSetMinRx s v now) = handshake s := by
  unfold bfdSessionSetMinRx; dsimp only; split_ifs <;> simp only [requestPoll_handshake] <;> rfl

@[simp] theorem controlTxTimer_handshake (reset : Bool) :
    handshake (bfdSessionControlTxTimer s reset now) = handshake s := rfl

@[simp] theorem updateTxInterval_handshake :
    handshake (bfdSessionUpdateTxInterval s) = handshake s := rfl

@[simp] theorem updateDetectionTime_handshake (kick : Bool) :
    handshake (bfdSessionUpdateDetectionTime s kick now) = handshake s := rfl

@[simp] theorem terminatePoll_handshake : handshake (bfdSessionTerminatePoll s) = handshake s := rfl

/-- `bfd_session_update_state` moves the session to `state` with `diag`, unless it is there. -/
theorem updateState_handshake (state : BfdState) (diag : Nat) :
    handshake (bfdSessionUpdateState s state diag now) =
      if state = s.locState then handshake s else (state, s.remState, diag, s.remId) := by
  unfold bfdSessionUpdateState; dsimp only
  split_ifs <;> first | rfl | (simp only [setMinTx_handshake]; rfl)

/-- A packet moves an administratively enabled session along `bfd_next_state`, with the
remote state as the packet left it. -/
theorem processCtl_handshake (flags : BitVec 8) (oldTx oldRx : Nat) :
    handshake (bfdSessionProcessCtl s flags oldTx oldRx now) =
      if s.locState = .adminDown then handshake s
      else match bfdNextState s.locState s.remState with
        | some (state, diag) =>
          if state = s.locState then handshake s else (state, s.remState, diag, s.remId)
        | none => handshake s := by
  unfold bfdSessionProcessCtl; dsimp only
  generalize hs2 : bfdSessionUpdateDetectionTime _ true now = s2
  have e : handshake s2 = handshake s := by
    rw [← hs2]; split_ifs <;> simp only [updateDetectionTime_handshake, updateTxInterval_handshake,
      terminatePoll_handshake]
  have hl : s2.locState = s.locState := congrArg Prod.fst e
  have hr : s2.remState = s.remState := congrArg (·.2.1) e
  have hi : s2.remId = s.remId := congrArg (·.2.2.2) e
  rw [hl, hr]
  split_ifs
  · exact e
  · cases hn : bfdNextState s.locState s.remState with
    | none => exact e
    | some p => simp only [controlTxTimer_handshake, updateState_handshake, hl, hr, hi, e]

theorem timeout_handshake :
    handshake (bfdSessionTimeout s now) =
      if s.locState = .down then (.down, .down, s.locDiag, 0) else (.down, .down, bfdDiagTimeout, 0) := by
  unfold bfdSessionTimeout; dsimp only
  rw [controlTxTimer_handshake, updateState_handshake]
  split_ifs with h h' h' <;> first | rfl | simp_all [handshake]

@[simp] theorem reconfigure_handshake (cf : SessionConfig) :
    handshake (bfdReconfigureSession s cf now) = handshake s := by
  unfold bfdReconfigureSession; dsimp only
  rw [controlTxTimer_handshake]
  exact (setMinRx_handshake _).trans ((setMinTx_handshake _).trans rfl)

/-! ## The handshake invariant -/

/-- What the handshake fields say of a session: never AdminDown; Init after the peer said Down,
Up while it says Init or Up, both with the peer's discriminator known and no diagnostic; Down
with no diagnostic, Time expired or Neighbor down. -/
def Agrees : BfdState × BfdState × Nat × Nat → Prop
  | (.adminDown, _, _, _) => False
  | (.down, _, diag, _) =>
    diag = bfdDiagNothing ∨ diag = bfdDiagTimeout ∨ diag = bfdDiagNeighborDown
  | (.init, rem, diag, id) => rem = .down ∧ id ≠ 0 ∧ diag = bfdDiagNothing
  | (.up, rem, diag, id) => (rem = .init ∨ rem = .up) ∧ id ≠ 0 ∧ diag = bfdDiagNothing

/-- A packet from peer `id` reporting state `rem`, processed by a session whose handshake
agreed, leaves one that agrees. -/
theorem agrees_packet {a rem rem₀ : BfdState} {d id id₀ : Nat} (hid : id ≠ 0)
    (h : Agrees (a, rem₀, d, id₀)) :
    Agrees (if a = .adminDown then (a, rem, d, id)
      else match bfdNextState a rem with
        | some (state, diag) => if state = a then (a, rem, d, id) else (state, rem, diag, id)
        | none => (a, rem, d, id)) := by
  cases a <;> cases rem <;> simp_all [Agrees, bfdNextState, BfdState.toNat]

theorem Agrees.receiveCtl (h : Agrees (handshake s)) (pkt : CtlPacket) :
    Agrees (handshake (bfdReceiveCtl s pkt now)) := by
  unfold bfdReceiveCtl; rw [processCtl_handshake]
  exact agrees_packet pkt.sndId_ne h

theorem Agrees.timeout (h : Agrees (handshake s)) : Agrees (handshake (bfdSessionTimeout s now)) := by
  rw [timeout_handshake]
  split_ifs with hd
  · unfold handshake at h; rw [hd] at h; exact h
  · exact .inr (.inl rfl)

theorem Agrees.step (h : Agrees (handshake s)) (ev : SessionEvent) :
    Agrees (handshake (sessionStep s now ev)) := by
  cases ev with
  | rx pkt => exact h.receiveCtl pkt
  | txFire j => dsimp only [sessionStep]; split_ifs <;> exact h
  | holdFire =>
    dsimp only [sessionStep]; split_ifs
    · exact Agrees.timeout (s := { s with holdTimer := _ }) h
    · exact h
  | reconfigure cf => simpa [sessionStep] using h

theorem agrees_addSession (cf : SessionConfig) (now : ℕ+) :
    Agrees (handshake (bfdAddSession cf now)) :=
  .inl rfl

theorem Agrees.run (h : Agrees (handshake s)) (evs : List (ℕ+ × SessionEvent)) :
    Agrees (handshake (sessionRun s evs)) := by
  induction evs generalizing s with
  | nil => exact h
  | cons e es ih => exact ih (h.step e.2)

/-- Over every run from `bfd_add_session`, a session's state agrees with what its peer last
reported, as the three-way handshake of RFC 5880 has it: Init only after the peer said Down,
Up only while the peer says Init or Up, both with the peer's discriminator known and no
diagnostic; Down with no diagnostic, Time expired or Neighbor down; never AdminDown. -/
theorem session_state_agrees_with_peer (cf : SessionConfig) (now : ℕ+)
    (evs : List (ℕ+ × SessionEvent)) :
    let s := sessionRun (bfdAddSession cf now) evs
    s.locState ≠ .adminDown ∧
      (s.locState = .down →
        s.locDiag = bfdDiagNothing ∨ s.locDiag = bfdDiagTimeout ∨ s.locDiag = bfdDiagNeighborDown) ∧
      (s.locState = .init → s.remState = .down ∧ s.remId ≠ 0 ∧ s.locDiag = bfdDiagNothing) ∧
      (s.locState = .up →
        (s.remState = .init ∨ s.remState = .up) ∧ s.remId ≠ 0 ∧ s.locDiag = bfdDiagNothing) := by
  have h := (agrees_addSession cf now).run evs
  generalize sessionRun (bfdAddSession cf now) evs = s at h ⊢
  unfold handshake at h
  cases hl : s.locState <;> simp only [hl, Agrees] at h <;> simp [hl, h]

/-! ## The state diagram -/

/-- The changes of state of the diagram of RFC 5880 (section 6.2) between the states of a
session under no administrative control, with the diagnostic `bfd.c` sets on each: Down to
Init, and Down or Init to Up, with none; Init or Up to Down because the detection time expired
or the neighbor signalled the session down. -/
def DiagramEdge : BfdState → BfdState → Nat → Prop
  | .down, .init, d | .down, .up, d | .init, .up, d => d = bfdDiagNothing
  | .init, .down, d | .up, .down, d => d = bfdDiagTimeout ∨ d = bfdDiagNeighborDown
  | _, _, _ => False

/-- From `s` to `t` the session stays in its state with its diagnostic, or takes an edge of the
diagram. -/
def DiagramStep (s t : Session) : Prop :=
  (t.locState = s.locState ∧ t.locDiag = s.locDiag) ∨ DiagramEdge s.locState t.locState t.locDiag

theorem bfdNextState_edge {a rem state : BfdState} {diag : Nat}
    (h : bfdNextState a rem = some (state, diag)) (hne : state ≠ a) : DiagramEdge a state diag := by
  cases a <;> cases rem <;> simp [bfdNextState, BfdState.toNat] at h <;> obtain ⟨rfl, rfl⟩ := h <;>
    simp_all [DiagramEdge]

theorem diagramStep_of_handshake {t : Session} {a rem : BfdState} {d id : Nat}
    (e : handshake t = (a, rem, d, id))
    (h : (a = s.locState ∧ d = s.locDiag) ∨ DiagramEdge s.locState a d) : DiagramStep s t := by
  simp only [handshake, Prod.mk.injEq] at e
  rw [DiagramStep, e.1, e.2.2.1]; exact h

/-- Every event moves a session that is not AdminDown along the diagram. -/
theorem diagramStep_step (ha : s.locState ≠ .adminDown) (ev : SessionEvent) :
    DiagramStep s (sessionStep s now ev) := by
  cases ev with
  | rx pkt =>
    show DiagramStep s (bfdReceiveCtl s pkt now)
    unfold bfdReceiveCtl
    have e : handshake (bfdSessionProcessCtl { s with
        remId := pkt.sndId, remState := pkt.state, remDemandMode := pkt.demand,
        remMinTxInt := pkt.desMinTxInt, remMinRxInt := pkt.reqMinRxInt,
        remDetectMult := pkt.detectMult } pkt.flags s.desMinTxInt s.remMinRxInt now) = _ :=
      processCtl_handshake pkt.flags s.desMinTxInt s.remMinRxInt
    dsimp only at e; rw [if_neg ha] at e
    cases hn : bfdNextState s.locState pkt.state with
    | none => rw [hn] at e; exact diagramStep_of_handshake e (.inl ⟨rfl, rfl⟩)
    | some p =>
      obtain ⟨state, diag⟩ := p
      rw [hn] at e; dsimp only at e
      split_ifs at e with hs
      · exact diagramStep_of_handshake e (.inl ⟨rfl, rfl⟩)
      · exact diagramStep_of_handshake e (.inr (bfdNextState_edge hn hs))
  | txFire j => dsimp only [sessionStep]; split_ifs <;> exact .inl ⟨rfl, rfl⟩
  | holdFire =>
    dsimp only [sessionStep]; split_ifs
    · have e : handshake (bfdSessionTimeout { s with holdTimer := tmFire s.holdTimer now 0 } now) = _ :=
        timeout_handshake
      dsimp only at e
      by_cases hd : s.locState = .down
      · rw [if_pos hd] at e; exact diagramStep_of_handshake e (.inl ⟨hd.symm, rfl⟩)
      · rw [if_neg hd] at e
        refine diagramStep_of_handshake e (.inr ?_)
        cases hl : s.locState <;> simp_all [DiagramEdge]
    · exact .inl ⟨rfl, rfl⟩
  | reconfigure cf =>
    exact diagramStep_of_handshake (reconfigure_handshake cf) (.inl ⟨rfl, rfl⟩)

/-- The sessions a run goes through, the first being `s`. -/
def sessionTrace (s : Session) : List (ℕ+ × SessionEvent) → List Session
  | [] => [s]
  | (now, ev) :: evs => s :: sessionTrace (sessionStep s now ev) evs

theorem sessionTrace_head? (s : Session) (evs : List (ℕ+ × SessionEvent)) :
    (sessionTrace s evs).head? = some s := by
  cases evs <;> rfl

theorem Agrees.locState_ne (h : Agrees (handshake s)) : s.locState ≠ .adminDown := by
  unfold handshake at h; intro hl; rw [hl] at h; exact h

theorem Agrees.trace (h : Agrees (handshake s)) (evs : List (ℕ+ × SessionEvent)) :
    (sessionTrace s evs).Chain' DiagramStep := by
  induction evs generalizing s with
  | nil => exact List.chain'_singleton s
  | cons e es ih =>
    refine List.chain'_cons'.2 ⟨fun t ht => ?_, ih (h.step e.2)⟩
    rw [sessionTrace_head?, Option.mem_some_iff] at ht
    exact ht ▸ diagramStep_step h.locState_ne e.2

/-- Every run from `bfd_add_session` follows the state diagram of RFC 5880: each event leaves
the state and diagnostic as they were, or takes Down to Init, Down or Init to Up with no
diagnostic, or Init or Up to Down with Time expired or Neighbor down. -/
theorem session_follows_state_diagram (cf : SessionConfig) (now : ℕ+)
    (evs : List (ℕ+ × SessionEvent)) :
    (sessionTrace (bfdAddSession cf now) evs).Chain' DiagramStep :=
  (agrees_addSession cf now).trace evs

/-- The three-way handshake: the peer says Down, then Up; the session goes Down, Init, Up. -/
example : (sessionTrace (bfdAddSession exampleConfig 1)
    [(2, .rx (examplePacket .down 0)), (3, .rx (examplePacket .up 0))]).map Session.locState =
      [.down, .init, .up] :=
  rfl

end Bfd
