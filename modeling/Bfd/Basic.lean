import Mathlib.Data.PNat.Defs

/-! # BFD constants, timers and session options

The vocabulary shared by the session engine (`bfd.c`): session states in the order of
`bfd_state_names`, the diagnostic codes and flag bits the engine reads, the microsecond
timers of the BFD thread, and the option merge `bfd_merge_options`. Clock readings are
positive (`ℕ+`): the monotonic clock counts from boot, and the engine uses `0` in
`last_tx` and `last_rx` for "no event yet". -/
namespace Bfd

/-- `loc_state` and `rem_state`, numbered as in `bfd_state_names`. -/
inductive BfdState where
  | adminDown
  | down
  | init
  | up
  deriving DecidableEq, Repr

def BfdState.toNat : BfdState → Nat
  | .adminDown => 0
  | .down => 1
  | .init => 2
  | .up => 3

/-- Modelled from the spec: `bfd.h` is not under src/; the RFC 5880 diagnostic codes. -/
def bfdDiagNothing : Nat := 0

/-- Modelled from the spec: `bfd.h` is not under src/; "Time expired". -/
def bfdDiagTimeout : Nat := 1

/-- Modelled from the spec: `bfd.h` is not under src/; "Neighbor down". -/
def bfdDiagNeighborDown : Nat := 3

/-- Modelled from the spec: `bfd.h` is not under src/. The poll masks are "two-bit masks
over {TX-change, RX-change}". -/
def bfdPollTx : BitVec 8 := 1

/-- Modelled from the spec: `bfd.h` is not under src/; the RX-change bit of a poll mask. -/
def bfdPollRx : BitVec 8 := 2

/-- Modelled from the spec: `bfd.h` is not under src/. Byte 1 of a control packet holds the
flags Poll, Final, C, A, D, M from bit 5 down to bit 0. -/
def bfdFlagPoll : BitVec 8 := 0x20

/-- Modelled from the spec: `bfd.h` is not under src/; the Final flag, bit 4 of byte 1. -/
def bfdFlagFinal : BitVec 8 := 0x10

/-! ## Timers -/

/-- Modelled from the spec: the timer library (`lib/timer.c`) is not under src/. Every armed
timer "is backed by a deadline": `expires` is that deadline and `0` means stopped, as
`tm_active` reads it. `recurrent` and `randomize` are the period and jitter range with
which a fire re-arms the timer; a timer whose period is `0` is one-shot. -/
structure Timer where
  expires : Nat := 0
  recurrent : Nat := 0
  randomize : Nat := 0
  deriving DecidableEq, Repr

def tmActive (t : Timer) : Bool := t.expires != 0

def tmSet (t : Timer) (when : Nat) : Timer := { t with expires := when }

def tmStart (t : Timer) (now : ℕ+) (after : Nat) : Timer := tmSet t (now + after)

def tmStop (t : Timer) : Timer := { t with expires := 0 }

/-- Modelled from the spec: a due timer fires; a recurrent one is re-armed one period after
its deadline (or after `now` if that is already past), plus `jitter` taken in
`[0, randomize]`; a one-shot timer is stopped. -/
def tmFire (t : Timer) (now : ℕ+) (jitter : Nat) : Timer :=
  if t.recurrent = 0 then tmStop t
  else tmSet t (max (t.expires + t.recurrent) (now + t.recurrent) + jitter % (t.randomize + 1))

@[simp] theorem tmActive_iff (t : Timer) : tmActive t = true ↔ t.expires ≠ 0 := by
  simp [tmActive]

@[simp] theorem tmSet_expires (t : Timer) (w : Nat) : (tmSet t w).expires = w := rfl
@[simp] theorem tmSet_recurrent (t : Timer) (w : Nat) : (tmSet t w).recurrent = t.recurrent := rfl
@[simp] theorem tmSet_randomize (t : Timer) (w : Nat) : (tmSet t w).randomize = t.randomize := rfl
@[simp] theorem tmStart_expires (t : Timer) (now : ℕ+) (a : Nat) :
    (tmStart t now a).expires = now + a := rfl
@[simp] theorem tmStart_recurrent (t : Timer) (now : ℕ+) (a : Nat) :
    (tmStart t now a).recurrent = t.recurrent := rfl
@[simp] theorem tmStart_randomize (t : Timer) (now : ℕ+) (a : Nat) :
    (tmStart t now a).randomize = t.randomize := rfl
@[simp] theorem tmStop_expires (t : Timer) : (tmStop t).expires = 0 := rfl
@[simp] theorem tmStop_recurrent (t : Timer) : (tmStop t).recurrent = t.recurrent := rfl
@[simp] theorem tmStop_randomize (t : Timer) : (tmStop t).randomize = t.randomize := rfl

/-- A recurrent timer stays armed across a fire; a one-shot timer is stopped by it. -/
theorem tmFire_active (t : Timer) (now : ℕ+) (j : Nat) :
    (tmFire t now j).expires ≠ 0 ↔ t.recurrent ≠ 0 := by
  unfold tmFire
  split
  · simp_all
  · simp only [tmSet_expires]; omega

@[simp] theorem tmFire_recurrent (t : Timer) (now : ℕ+) (j : Nat) :
    (tmFire t now j).recurrent = t.recurrent := by
  unfold tmFire; split <;> rfl

@[simp] theorem tmFire_randomize (t : Timer) (now : ℕ+) (j : Nat) :
    (tmFire t now j).randomize = t.randomize := by
  unfold tmFire; split <;> rfl

/-! ## Options -/

/-- `struct bfd_session_config`: the effective options of one session. `passwords` is the
password list pointer, `0` for `NULL`. -/
structure SessionConfig where
  minRxInt : Nat
  minTxInt : Nat
  idleTxInt : Nat
  multiplier : Nat
  passive : Bool
  authType : Nat
  passwords : Nat
  deriving DecidableEq, Repr

/-- `struct bfd_iface_config`, the fields `bfd_merge_options` and `bfd_reconfigure_iface`
read. -/
structure IfaceConfig where
  minRxInt : Nat
  minTxInt : Nat
  idleTxInt : Nat
  multiplier : Nat
  passive : Bool
  authType : Nat
  passwords : Nat
  deriving DecidableEq, Repr

/-- `struct bfd_options` of a request: `0` leaves an interval, the multiplier, the
authentication type or the passwords unset, and `passiveSet` says whether `passive` is. -/
structure BfdOptions where
  minRxInt : Nat := 0
  minTxInt : Nat := 0
  idleTxInt : Nat := 0
  multiplier : Nat := 0
  passive : Bool := false
  passiveSet : Bool := false
  authType : Nat := 0
  passwords : Nat := 0
  deriving DecidableEq, Repr

/-- C's `a ?: b`. -/
def orElse (a b : Nat) : Nat := if a ≠ 0 then a else b

def bfdMergeOptions (cf : IfaceConfig) (opts : BfdOptions) : SessionConfig where
  minRxInt := orElse opts.minRxInt cf.minRxInt
  minTxInt := orElse opts.minTxInt cf.minTxInt
  idleTxInt := orElse opts.idleTxInt cf.idleTxInt
  multiplier := orElse opts.multiplier cf.multiplier
  passive := if opts.passiveSet then opts.passive else cf.passive
  authType := orElse opts.authType cf.authType
  passwords := orElse opts.passwords cf.passwords

end Bfd
