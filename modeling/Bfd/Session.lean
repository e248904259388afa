import Bfd.Basic

/-! # The session state machine

The fields of `struct bfd_session` that the session thread reads and writes, and the
functions of `bfd.c` that run on them: the timer control, the poll sequence, the interval
setters, the state change, control packet processing and the detection timeout. Each
function is written as the C code computes it; `bfd_send_ctl` and the tracing calls write
no field of the model and are left out. `linked` is `NODE_VALID(&s->n)`: whether the
session sits on the notify list (or on the notifier's local copy of it). -/
namespace Bfd

structure Session where
  cf : SessionConfig
  locState : BfdState
  remState : BfdState
  locDiag : Nat
  lastStateChange : Nat
  remId : Nat
  desMinTxInt : Nat
  desMinTxNew : Nat
  reqMinRxInt : Nat
  reqMinRxNew : Nat
  remMinTxInt : Nat
  remMinRxInt : Nat
  remDetectMult : Nat
  remDemandMode : Bool
  detectMult : Nat
  passive : Bool
  pollActive : BitVec 8
  pollScheduled : BitVec 8
  rxCsnKnown : Bool
  lastTx : Nat
  lastRx : Nat
  txTimer : Timer
  holdTimer : Timer
  linked : Bool
  deriving DecidableEq, Repr

/-! ## Timers -/

def bfdSessionUpdateTxInterval (s : Session) : Session :=
  let txInt := max s.desMinTxInt s.remMinRxInt
  let txIntL := txInt - txInt / 4
  let txIntH := txInt - txInt / 10
  let t := { s.txTimer with recurrent := txIntL, randomize := txIntH - txIntL }
  { s with txTimer := if s.lastTx = 0 then t else tmSet t (s.lastTx + txIntL) }

def bfdSessionUpdateDetectionTime (s : Session) (kick : Bool) (now : ℕ+) : Session :=
  let timeout := max s.reqMinRxInt s.remMinTxInt * s.remDetectMult
  let lastRx := if kick then (now : Nat) else s.lastRx
  { s with
    lastRx
    holdTimer := if lastRx = 0 then s.holdTimer else tmSet s.holdTimer (lastRx + timeout) }

/-- The three `goto stop` tests of `bfd_session_control_tx_timer`. -/
def txStopped (s : Session) : Prop :=
  (s.passive ∧ s.remId = 0) ∨
    (s.remDemandMode ∧ s.pollActive = 0 ∧ s.locState = .up ∧ s.remState = .up) ∨
    s.remMinRxInt = 0

instance (s : Session) : Decidable (txStopped s) := by unfold txStopped; infer_instance

/-- Stopping clears `last_tx`; a reset, or a stopped timer that should run, restarts the
timer now with `last_tx` cleared; a running timer is left alone. -/
def bfdSessionControlTxTimer (s : Session) (reset : Bool) (now : ℕ+) : Session :=
  let start := reset ∨ tmActive s.txTimer = false
  { s with
    txTimer :=
      if txStopped s then tmStop s.txTimer
      else if start then tmStart s.txTimer now 0 else s.txTimer
    lastTx := if txStopped s ∨ start then 0 else s.lastTx }

/-! ## The poll sequence -/

def bfdSessionRequestPoll (s : Session) (request : BitVec 8) (now : ℕ+) : Session :=
  if s.remId = 0 then s
  else if s.pollActive ≠ 0 then { s with pollScheduled := s.pollScheduled ||| request }
  else
    bfdSessionControlTxTimer
      { s with pollActive := s.pollScheduled ||| request, pollScheduled := 0 } true now

def bfdSessionTerminatePoll (s : Session) : Session :=
  let pollDone := s.pollActive &&& ~~~s.pollScheduled
  { s with
    desMinTxInt := if pollDone &&& bfdPollTx ≠ 0 then s.desMinTxNew else s.desMinTxInt
    reqMinRxInt := if pollDone &&& bfdPollRx ≠ 0 then s.reqMinRxNew else s.reqMinRxInt
    pollActive := s.pollScheduled
    pollScheduled := 0 }

/-- A raise of `des_min_tx_int` while Up waits for the poll sequence. -/
def bfdSessionSetMinTx (s : Session) (val : Nat) (now : ℕ+) : Session :=
  if val = s.desMinTxNew then s
  else
    let s := { s with desMinTxNew := val }
    let s := if s.locState ≠ .up ∨ val < s.desMinTxInt then
      bfdSessionUpdateTxInterval { s with desMinTxInt := val } else s
    bfdSessionRequestPoll s bfdPollTx now

/-- A decrease of `req_min_rx_int` while Up waits for the poll sequence. -/
def bfdSessionSetMinRx (s : Session) (val : Nat) (now : ℕ+) : Session :=
  if val = s.reqMinRxNew then s
  else
    let s := { s with reqMinRxNew := val }
    let s := if s.locState ≠ .up ∨ s.reqMinRxInt < val then
      bfdSessionUpdateDetectionTime { s with reqMinRxInt := val } false now else s
    bfdSessionRequestPoll s bfdPollRx now

/-! ## State changes -/

/-- The locked part sets the published fields and links the session for notification; the
idle/active TX swap follows. The kick of the notify pipe is the broker's. -/
def bfdSessionUpdateState (s : Session) (state : BfdState) (diag : Nat) (now : ℕ+) : Session :=
  let oldState := s.locState
  if state = oldState then s
  else
    let s := { s with locState := state, locDiag := diag, lastStateChange := now, linked := true }
    let s := if state = .up then bfdSessionSetMinTx s s.cf.minTxInt now else s
    if oldState = .up then bfdSessionSetMinTx s s.cf.idleTxInt now else s

/-- The `switch` of `bfd_session_process_ctl`: the next state with its diagnostic, `none`
where `next_state` stays `0`. -/
def bfdNextState (loc rem : BfdState) : Option (BfdState × Nat) :=
  match loc with
  | .adminDown => none
  | .down =>
    if rem = .down then some (.init, bfdDiagNothing)
    else if rem = .init then some (.up, bfdDiagNothing)
    else none
  | .init =>
    if rem = .adminDown then some (.down, bfdDiagNeighborDown)
    else if BfdState.init.toNat ≤ rem.toNat then some (.up, bfdDiagNothing)
    else none
  | .up =>
    if rem.toNat ≤ BfdState.down.toNat then some (.down, bfdDiagNeighborDown) else none

def bfdSessionProcessCtl (s : Session) (flags : BitVec 8) (oldTxInt oldRxInt : Nat)
    (now : ℕ+) : Session :=
  let s := if s.pollActive ≠ 0 ∧ flags &&& bfdFlagFinal ≠ 0 then bfdSessionTerminatePoll s else s
  let s := if s.desMinTxInt ≠ oldTxInt ∨ s.remMinRxInt ≠ oldRxInt then
    bfdSessionUpdateTxInterval s else s
  let s := bfdSessionUpdateDetectionTime s true now
  if s.locState = .adminDown then s
  else
    let s := match bfdNextState s.locState s.remState with
      | some (state, diag) => bfdSessionUpdateState s state diag now
      | none => s
    bfdSessionControlTxTimer s false now

def bfdSessionTimeout (s : Session) (now : ℕ+) : Session :=
  let s := { s with
    remState := .down, remId := 0, remMinTxInt := 0, remMinRxInt := 1, remDemandMode := false,
    remDetectMult := 0, rxCsnKnown := false, pollActive := 0, pollScheduled := 0 }
  let s := bfdSessionUpdateState s .down bfdDiagTimeout now
  bfdSessionControlTxTimer s true now

/-! ## Creation, reconfiguration and events -/

/-- The session `bfd_add_session` initialises from its merged options (RFC 5880 6.8.1); the
registry part is the broker's. `sl_allocz` zeroes every other field and `tm_new_init`
creates both timers stopped and one-shot. -/
def bfdAddSession (cf : SessionConfig) (now : ℕ+) : Session :=
  let s : Session :=
    { cf, locState := .down, remState := .down, locDiag := 0, lastStateChange := 0, remId := 0,
      desMinTxInt := cf.idleTxInt, desMinTxNew := cf.idleTxInt,
      reqMinRxInt := cf.minRxInt, reqMinRxNew := cf.minRxInt,
      remMinTxInt := 0, remMinRxInt := 1, remDetectMult := 0, remDemandMode := false,
      detectMult := cf.multiplier, passive := cf.passive, pollActive := 0, pollScheduled := 0,
      rxCsnKnown := false, lastTx := 0, lastRx := 0, txTimer := {}, holdTimer := {},
      linked := false }
  { bfdSessionControlTxTimer (bfdSessionUpdateTxInterval s) true now with lastStateChange := now }

/-- The body of `bfd_reconfigure_session` after the merge: `cf` is
`bfd_merge_options(s->ifa->cf, &req->opts)` for the head request, which the broker reads. -/
def bfdReconfigureSession (s : Session) (cf : SessionConfig) (now : ℕ+) : Session :=
  let s := { s with cf }
  let tx := if s.locState = .up then cf.minTxInt else cf.idleTxInt
  let s := bfdSessionSetMinTx s tx now
  let s := bfdSessionSetMinRx s cf.minRxInt now
  bfdSessionControlTxTimer { s with detectMult := cf.multiplier, passive := cf.passive } false now

def bfdTxTimerHook (s : Session) (now : ℕ+) : Session := { s with lastTx := now }

/-- Modelled from the spec: the receive path of `packets.c` is not under src/. A control
packet that passed the codec's validation: my discriminator and detect multiplier are
non-zero. -/
structure CtlPacket where
  state : BfdState
  sndId : Nat
  demand : Bool
  desMinTxInt : Nat
  reqMinRxInt : Nat
  detectMult : Nat
  flags : BitVec 8
  sndId_ne : sndId ≠ 0
  detectMult_ne : detectMult ≠ 0

/-- Modelled from the spec: a received packet overwrites the remote fields and is processed
with the intervals from before it. -/
def bfdReceiveCtl (s : Session) (pkt : CtlPacket) (now : ℕ+) : Session :=
  let s' := { s with
    remId := pkt.sndId, remState := pkt.state, remDemandMode := pkt.demand,
    remMinTxInt := pkt.desMinTxInt, remMinRxInt := pkt.reqMinRxInt,
    remDetectMult := pkt.detectMult }
  bfdSessionProcessCtl s' pkt.flags s.desMinTxInt s.remMinRxInt now

/-- What happens to one session on the BFD thread, or under `birdloop_enter` from the main
thread: a received packet, a fire of either timer, a reconfiguration. -/
inductive SessionEvent where
  | rx (pkt : CtlPacket)
  | txFire (jitter : Nat)
  | holdFire
  | reconfigure (cf : SessionConfig)

/-- A timer fires only while armed; the hold timer's hook is `bfd_session_timeout`. -/
def sessionStep (s : Session) (now : ℕ+) : SessionEvent → Session
  | .rx pkt => bfdReceiveCtl s pkt now
  | .txFire j =>
    if tmActive s.txTimer then bfdTxTimerHook { s with txTimer := tmFire s.txTimer now j } now
    else s
  | .holdFire =>
    if tmActive s.holdTimer then bfdSessionTimeout { s with holdTimer := tmFire s.holdTimer now 0 } now
    else s
  | .reconfigure cf => bfdReconfigureSession s cf now

def sessionRun (s : Session) : List (ℕ+ × SessionEvent) → Session
  | [] => s
  | (now, e) :: es => sessionRun (sessionStep s now e) es

/-- Every event of a run, from `s`, satisfies `P` in the state it arrives in. -/
def Along (P : Session → SessionEvent → Prop) : Session → List (ℕ+ × SessionEvent) → Prop
  | _, [] => True
  | s, (now, ev) :: evs => P s ev ∧ Along P (sessionStep s now ev) evs

/-- The sessions a run of events can reach from `bfd_add_session`. -/
def Reachable (s : Session) : Prop :=
  ∃ cf now evs, s = sessionRun (bfdAddSession cf now) evs

/-! ## An example session -/

/-- Intervals of 100 ms once Up, an idle TX interval of 1 s, multiplier 3. -/
def exampleConfig : SessionConfig :=
  { minRxInt := 100, minTxInt := 100, idleTxInt := 1000, multiplier := 3, passive := false,
    authType := 0, passwords := 0 }

/-- A packet of a peer with discriminator 5 and the example intervals. -/
def examplePacket (state : BfdState) (flags : BitVec 8) : CtlPacket :=
  ⟨state, 5, false, 100, 100, 3, flags, by decide, by decide⟩

end Bfd
