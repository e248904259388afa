import Bfd.BrokerRun
import Bfd.BrokerCalls
import Bfd.StateDiagram
import Bfd.Poll
import Bfd.Timers
import Bfd.Intervals

/-! # The sessions' protocol state under the broker

The state-diagram and poll modules prove their invariants of one session run on its own: from
`bfd_add_session`, through received packets, timer fires and reconfigurations. In the broker
the same sessions are reached by every thread: the BFD threads step them, the notifier unlinks
them, the main thread and the hooks it calls create, reconfigure and free them, and engines
start and shut down. This module follows each session through every broker call:

* `Evolved R N b b'`: every session of `b'` is the session of `b` under the same identifier,
  its protocol state moved by `R`, or a new one, under an identifier `b` had not given out,
  whose state has `N`;
* `Evolution R N`: what `R` and `N` need for every call but an event of a BFD thread, which
  steps a session. The main thread's calls follow from their writes (`CallFrame`); the
  notifier's steps and the thread's are proved here, then `step` and `run`.

Three results follow. Every invariant of one session holds of every session of every
reachable broker, whatever the interleaving (the handshake and the poll invariants are the two
instances); no step but a BFD thread's changes the handshake fields of a session; and every
step moves every session it keeps along the state diagram of RFC 5880. -/
namespace Bfd

/-- What a property of one session needs to hold of every session the broker has: it holds of
a new session, every event of the session keeps it, and clearing the notify link keeps it. -/
structure SessionInv (Q : Session → Prop) : Prop where
  add : ∀ cf now, Q (bfdAddSession cf now)
  step : ∀ s now ev, Q s → Q (sessionStep s now ev)
  unlink : ∀ s, Q s → Q { s with linked := false }

/-- What the broker may do to the protocol state of a session it keeps, `R`, and what holds of
one it makes, `N`: `R` is a preorder that holds across a reconfiguration and the clearing of
the notify link; `N` holds of `bfd_add_session` and `R` keeps it. -/
structure Evolution (R : Session → Session → Prop) (N : Session → Prop) : Prop where
  refl : ∀ s, R s s
  trans : ∀ {s t u}, R s t → R t u → R s u
  new : ∀ {s t}, N s → R s t → N t
  add : ∀ cf now, N (bfdAddSession cf now)
  reconfigure : ∀ s cf now, R s (bfdReconfigureSession s cf now)
  unlink : ∀ s, R s { s with linked := false }

/-- A session invariant, as the broker moves the sessions: it is kept. -/
theorem SessionInv.evolution {Q : Session → Prop} (hQ : SessionInv Q) :
    Evolution (fun s t => Q s → Q t) Q :=
  ⟨fun _ h => h, fun h₁ h₂ q => h₂ (h₁ q), fun q h => h q, hQ.add,
    fun s cf now => hQ.step s now (.reconfigure cf), hQ.unlink⟩

namespace Broker

variable {R : Session → Session → Prop} {N : Session → Prop} {b c d : Broker}

/-- Every session of `b'` is the session of `b` under the same identifier, its protocol state
moved by `R`, or a new one, under an identifier `b` had not given out, with `N`. -/
structure Evolved (R : Session → Session → Prop) (N : Session → Prop) (b b' : Broker) :
    Prop where
  nextId : b.nextId ≤ b'.nextId
  sess : ∀ i sn', b'.sess i = some sn' →
    (∃ sn, b.sess i = some sn ∧ R sn.core sn'.core) ∨ (b.nextId ≤ i ∧ N sn'.core)

theorem Evolved.congr (h : Evolved R N b c) (e : d.sess = c.sess) (hn : c.nextId ≤ d.nextId) :
    Evolved R N b d :=
  ⟨h.nextId.trans hn, fun i sn' hs => h.sess i sn' (e ▸ hs)⟩

/-! ## Writing the session table -/

section Table
variable (hr : ∀ s, R s s)
include hr

theorem evolved_self : Evolved R N b b := ⟨le_rfl, fun _ sn hs => .inl ⟨sn, hs, hr _⟩⟩

theorem evolved_of_sess (e : c.sess = b.sess) (hn : b.nextId ≤ c.nextId) : Evolved R N b c :=
  (evolved_self hr).congr e hn

theorem evolved_setSess {i : Nat} {y : Option SessionNode}
    (hy : ∀ sn', y = some sn' →
      (∃ sn, b.sess i = some sn ∧ R sn.core sn'.core) ∨ (b.nextId ≤ i ∧ N sn'.core)) :
    Evolved R N b (b.setSess i y) := by
  refine ⟨le_rfl, fun j sn' hs => ?_⟩
  by_cases hj : j = i
  · subst hj
    exact hy sn' (by simpa using hs)
  · exact .inl ⟨sn', by simpa [Function.update_noteq hj] using hs, hr _⟩

theorem evolved_update {i : Nat} {sn : SessionNode} (hs : b.sess i = some sn) (sn' : SessionNode)
    (h : R sn.core sn'.core) : Evolved R N b (b.setSess i (some sn')) :=
  evolved_setSess hr fun _ e => .inl ⟨sn, hs, Option.some.inj e ▸ h⟩

/-- A session made under the next identifier. -/
theorem evolved_new (sn : SessionNode) (h : N sn.core) :
    Evolved R N b (b.setSess b.nextId (some sn)) :=
  evolved_setSess hr fun _ e => .inr ⟨le_rfl, Option.some.inj e ▸ h⟩

/-- Writing a session's request list leaves its protocol state. -/
theorem evolved_setList {i : Nat} {sn : SessionNode} (hs : b.sess i = some sn) (l : List Nat) :
    Evolved R N b (b.setSess i (some { sn with requestList := l })) :=
  evolved_update hr hs _ (hr _)

theorem evolved_remNode (r : Nat) : Evolved R N b (b.remNode r) := by
  unfold remNode
  split
  · split
    · exact evolved_setList hr ‹_› _
    · exact evolved_self hr
  · exact evolved_of_sess hr rfl le_rfl

theorem evolved_addTail (s : Option Nat) (r : Nat) : Evolved R N b (b.addTail s r) := by
  unfold addTail
  split
  · exact evolved_of_sess hr rfl le_rfl
  · split
    · exact evolved_setList hr ‹_› _
    · exact evolved_self hr

theorem evolved_removeSession (i : Nat) : Evolved R N b (b.bfdRemoveSession i) := by
  unfold bfdRemoveSession
  split
  · exact evolved_self hr
  · exact (evolved_setSess hr fun _ e => Option.noConfusion e).congr rfl le_rfl

/-- An event the BFD thread handles is a step of the session. -/
theorem evolved_threadStep {p i : Nat} {now : ℕ+} {ev : SessionEvent}
    (hs : ∀ s, R s (sessionStep s now ev)) : Evolved R N b (b.threadStep p i now ev) := by
  unfold threadStep
  split
  · next sn hsn =>
    have h : Evolved R N b (b.setSess i (some { sn with core := sessionStep sn.core now ev })) :=
      evolved_update hr hsn _ (hs _)
    dsimp only
    split_ifs
    exacts [h.congr rfl le_rfl, h, evolved_self hr]
  · exact evolved_self hr

theorem evolved_step_thread {p i : Nat} {now : ℕ+} {ev : SessionEvent}
    (hs : ∀ s, R s (sessionStep s now ev)) : Evolved R N b (b.step (.thread p i now ev)) := by
  simp only [Broker.step]
  split
  exacts [evolved_threadStep hr hs, evolved_self hr]

end Table

/-! ## The calls of the main thread, the hooks and the notifier -/

section Calls
variable (hf : Evolution R N)
include hf

theorem Evolved.trans (h₁ : Evolved R N b c) (h₂ : Evolved R N c d) : Evolved R N b d := by
  refine ⟨h₁.nextId.trans h₂.nextId, fun i sn'' hs => ?_⟩
  rcases h₂.sess i sn'' hs with ⟨sn', hc, hr'⟩ | ⟨hi, hn⟩
  · rcases h₁.sess i sn' hc with ⟨sn, hb, hr⟩ | ⟨hi, hn⟩
    · exact .inl ⟨sn, hb, hf.trans hr hr'⟩
    · exact .inr ⟨hi, hf.new hn hr'⟩
  · exact .inr ⟨h₁.nextId.trans hi, hn⟩

theorem evolved_addSession (p : Nat) (req : Request) (now : ℕ+) :
    Evolved R N b (b.bfdAddSession p req now).1 := by
  refine (evolved_new hf.refl _ ?_).congr rfl (Nat.le_succ _)
  exact hf.add _ now

/-- The broker's reconfiguration of a session is the session's own. -/
theorem evolved_reconfigureSession (i : Nat) (now : ℕ+) :
    Evolved R N b (b.bfdReconfigureSession i now) := by
  unfold bfdReconfigureSession
  split
  · next sn hs =>
    repeat' split
    · exact evolved_update hf.refl hs _ (hf.reconfigure _ _ now)
    all_goals exact evolved_self hf.refl
  · exact evolved_self hf.refl

/-- The main thread's writes move the sessions only by `R`. -/
theorem callFrame_evolved : CallFrame (Evolved R N) where
  refl _ := evolved_self hf.refl
  trans := Evolved.trans hf
  setReq _ _ _ _ := evolved_of_sess hf.refl rfl le_rfl
  remNode _ := evolved_remNode hf.refl
  addTail _ := evolved_addTail hf.refl
  allocate _ := evolved_of_sess hf.refl rfl (Nat.le_succ _)
  addSession _ := evolved_addSession hf
  reconfigureSession _ := evolved_reconfigureSession hf
  removeSession _ := evolved_removeSession hf.refl
  addEngine _ _ := evolved_of_sess hf.refl rfl (Nat.le_succ _)
  leave _ _ := evolved_of_sess hf.refl rfl le_rfl

/-- The notifier only clears a session's link. -/
theorem evolved_notifyPick (p : Nat) (tmp : List Nat) : Evolved R N b (b.notifyPick p tmp) := by
  cases tmp with
  | nil => exact evolved_of_sess hf.refl rfl le_rfl
  | cons i tmp =>
    dsimp only [notifyPick]
    split
    · next sn hs =>
      refine (evolved_update hf.refl hs _ ?_).congr rfl le_rfl
      exact hf.unlink _
    · exact evolved_of_sess hf.refl rfl le_rfl

theorem evolved_notifyFinish (p : Nat) (tmp : List Nat) (i : Nat) :
    Evolved R N b (b.notifyFinish p tmp i) := by
  unfold notifyFinish
  split
  · next sn hs =>
    have h : Evolved R N b { b.setSess i (some { sn with notifyRunning := false }) with
        notifier := .walking p tmp } :=
      (evolved_update hf.refl hs { sn with notifyRunning := false } (hf.refl _)).congr rfl le_rfl
    dsimp only
    split_ifs
    exacts [h.trans hf (evolved_removeSession hf.refl i), h]
  · exact evolved_of_sess hf.refl rfl le_rfl

/-- Every step but an event of a BFD thread moves the sessions only by `R`; an event does too
where `R` holds across the session's step. -/
theorem evolved_step (a : Action)
    (hs : ∀ p i now ev, a = .thread p i now ev → ∀ s, R s (sessionStep s now ev)) :
    Evolved R N b (b.step a) := by
  have hb : Evolved R N b b := evolved_self hf.refl
  have hK := callFrame_evolved hf
  cases a with
  | thread p i now ev => exact evolved_step_thread hf.refl (hs p i now ev rfl)
  | kick p => simp only [Broker.step]; split; exacts [evolved_of_sess hf.refl rfl le_rfl, hb]
  | drain p => simp only [Broker.step]; split; exacts [evolved_of_sess hf.refl rfl le_rfl, hb]
  | splice => simp only [Broker.step]; split; exacts [evolved_of_sess hf.refl rfl le_rfl, hb]
  | pick => simp only [Broker.step]; split; exacts [evolved_notifyPick hf _ _, hb]
  | deliver acts now =>
    simp only [Broker.step]; split
    · unfold notifyDeliver
      refine hK.trans ?_ (hK.requestNotify (hK.runHook _ acts now) fun _ _ => ?_)
      exacts [evolved_of_sess hf.refl rfl le_rfl, evolved_of_sess hf.refl rfl le_rfl]
    · exact hb
  | finish => simp only [Broker.step]; split; exacts [evolved_notifyFinish hf _ _ _, hb]
  | request addr localAddr iface vrf opts now =>
    simp only [Broker.step]; split; exacts [hK.requestSession _ addr localAddr iface vrf opts now, hb]
  | update r opts now => simp only [Broker.step]; split; exacts [hK.updateRequest _ r opts now, hb]
  | free r => simp only [Broker.step]; split; exacts [hK.requestFree _ r, hb]
  | start cf plan now => simp only [Broker.step]; split; exacts [hK.start _ cf plan now, hb]
  | shutdown p plan now => simp only [Broker.step]; split; exacts [hK.shutdown _ p plan now, hb]

theorem evolved_run (hs : ∀ s now ev, R s (sessionStep s now ev)) (as : List Action) :
    Evolved R N b (b.run as) :=
  (callFrame_evolved hf).foldl (fun _ a => evolved_step hf a fun _ _ now ev _ s => hs s now ev) as b

end Calls

variable {i : Nat} {sn sn' : SessionNode}

/-- A reachable broker gives out no identifier twice, so a session it keeps across a call is
the one it had. -/
theorem Reachable.kept (hb : b.Reachable) (h : Evolved R N b c) (hs : b.sess i = some sn)
    (hs' : c.sess i = some sn') : R sn.core sn'.core := by
  rcases h.sess i sn' hs' with ⟨sn₀, e, hr⟩ | ⟨hi, _⟩
  · obtain rfl := Option.some.inj (hs.symm.trans e)
    exact hr
  · exact absurd (hb.inv.core.fresh.lt_of_sess hs) (not_lt.2 hi)

/-! ## Every session invariant holds of every session -/

/-- Every invariant of one session holds of every session of every reachable broker. -/
theorem Reachable.session {Q : Session → Prop} (hQ : SessionInv Q) (hb : b.Reachable)
    (hs : b.sess i = some sn) : Q sn.core := by
  obtain ⟨as, rfl⟩ := hb
  have h : Evolved _ Q init (init.run as) := evolved_run hQ.evolution hQ.step as
  rcases h.sess i sn hs with ⟨_, e, _⟩ | ⟨_, hq⟩
  · exact Option.noConfusion e
  · exact hq

theorem sessionInv_agrees : SessionInv fun s => Agrees (handshake s) :=
  ⟨agrees_addSession, fun _ _ ev h => h.step ev, fun _ h => h⟩

theorem sessionInv_poll : SessionInv PollInv :=
  ⟨pollInv_addSession, fun _ _ ev h => h.step ev, fun _ h => h.congr rfl⟩

/-- Whatever the threads, the hooks and the engines do, every session's state agrees with
what its peer last reported, as the three-way handshake has it: never AdminDown; Init only
after the peer said Down, Up only while the peer says Init or Up, both with the peer's
discriminator known and no diagnostic; Down with no diagnostic, Time expired or Neighbor
down. -/
theorem broker_sessions_agree_with_peer (hb : b.Reachable) (hs : b.sess i = some sn) :
    sn.core.locState ≠ .adminDown ∧
      (sn.core.locState = .down → sn.core.locDiag = bfdDiagNothing ∨
        sn.core.locDiag = bfdDiagTimeout ∨ sn.core.locDiag = bfdDiagNeighborDown) ∧
      (sn.core.locState = .init →
        sn.core.remState = .down ∧ sn.core.remId ≠ 0 ∧ sn.core.locDiag = bfdDiagNothing) ∧
      (sn.core.locState = .up → (sn.core.remState = .init ∨ sn.core.remState = .up) ∧
        sn.core.remId ≠ 0 ∧ sn.core.locDiag = bfdDiagNothing) := by
  have h := hb.session sessionInv_agrees hs
  generalize sn.core = s at h ⊢
  unfold handshake at h
  cases hl : s.locState <;> simp only [hl, Agrees] at h <;> simp [hl, h]

/-- The session engine 0 makes for a request of address 7. -/
theorem broker_sessions_agree_with_peer_attached :
    ∃ sn, (init.run attachRun).sess 2 = some sn ∧
      (sn.core.locState ≠ .adminDown ∧
      (sn.core.locState = .down → sn.core.locDiag = bfdDiagNothing ∨
        sn.core.locDiag = bfdDiagTimeout ∨ sn.core.locDiag = bfdDiagNeighborDown) ∧
      (sn.core.locState = .init →
        sn.core.remState = .down ∧ sn.core.remId ≠ 0 ∧ sn.core.locDiag = bfdDiagNothing) ∧
      (sn.core.locState = .up → (sn.core.remState = .init ∨ sn.core.remState = .up) ∧
        sn.core.remId ≠ 0 ∧ sn.core.locDiag = bfdDiagNothing)) :=
  ⟨_, rfl, broker_sessions_agree_with_peer (i := 2) ⟨attachRun, rfl⟩ rfl⟩

/-- Whatever the threads, the hooks and the engines do, every session keeps the poll
invariant: the current intervals lag the desired ones only in the safe direction, the poll
masks hold only the TX and RX bits, a scheduled poll has an active one, and an active poll
has a known peer. -/
theorem broker_sessions_poll_invariant (hb : b.Reachable) (hs : b.sess i = some sn) :
    sn.core.desMinTxInt ≤ sn.core.desMinTxNew ∧ sn.core.reqMinRxNew ≤ sn.core.reqMinRxInt ∧
      sn.core.pollActive &&& ~~~(bfdPollTx ||| bfdPollRx) = 0 ∧
      sn.core.pollScheduled &&& ~~~(bfdPollTx ||| bfdPollRx) = 0 ∧
      (sn.core.pollScheduled ≠ 0 → sn.core.pollActive ≠ 0) ∧
      (sn.core.pollActive ≠ 0 → sn.core.remId ≠ 0) := by
  have h := hb.session sessionInv_poll hs
  exact ⟨h.1, h.2, h.3, h.4, h.5, h.6⟩

theorem broker_sessions_poll_invariant_attached :
    ∃ sn, (init.run attachRun).sess 2 = some sn ∧
      (sn.core.desMinTxInt ≤ sn.core.desMinTxNew ∧
      sn.core.reqMinRxNew ≤ sn.core.reqMinRxInt ∧
      sn.core.pollActive &&& ~~~(bfdPollTx ||| bfdPollRx) = 0 ∧
      sn.core.pollScheduled &&& ~~~(bfdPollTx ||| bfdPollRx) = 0 ∧
      (sn.core.pollScheduled ≠ 0 → sn.core.pollActive ≠ 0) ∧
      (sn.core.pollActive ≠ 0 → sn.core.remId ≠ 0)) :=
  ⟨_, rfl, broker_sessions_poll_invariant (i := 2) ⟨attachRun, rfl⟩ rfl⟩

theorem sessionInv_hold : SessionInv HoldInv :=
  ⟨holdInv_addSession, fun _ _ ev h => h.step ev, fun _ h => h.congr rfl⟩

theorem sessionInv_followsConfig : SessionInv FollowsConfig :=
  ⟨followsConfig_addSession, fun _ _ ev h => h.step ev, fun _ h => h.congr rfl⟩

/-- Whatever the threads, the hooks and the engines do, every session's derived fields stay
in step with what they are derived from: the detection timer is one-shot and, when armed, was
armed by a received packet and expires one detection time after the last one; the stashed TX
and RX intervals, the multiplier and the passive flag follow the session's configuration. -/
theorem broker_sessions_derived_fields (hb : b.Reachable) (hs : b.sess i = some sn) :
    sn.core.holdTimer.recurrent = 0 ∧
    (tmActive sn.core.holdTimer = true → sn.core.lastRx ≠ 0 ∧ sn.core.holdTimer.expires =
      sn.core.lastRx + max sn.core.reqMinRxInt sn.core.remMinTxInt * sn.core.remDetectMult) ∧
    sn.core.desMinTxNew =
      (if sn.core.locState = .up then sn.core.cf.minTxInt else sn.core.cf.idleTxInt) ∧
    sn.core.reqMinRxNew = sn.core.cf.minRxInt ∧ sn.core.detectMult = sn.core.cf.multiplier ∧
    sn.core.passive = sn.core.cf.passive := by
  have h := hb.session sessionInv_hold hs
  have h' := hb.session sessionInv_followsConfig hs
  exact ⟨h.oneShot, fun ha => ⟨h.lastRx ha, h.expires ha⟩, h'.1, h'.2, h'.3, h'.4⟩

theorem broker_sessions_derived_fields_attached :
    ∃ sn, (init.run attachRun).sess 2 = some sn ∧
      (sn.core.holdTimer.recurrent = 0 ∧
        (tmActive sn.core.holdTimer = true → sn.core.lastRx ≠ 0 ∧ sn.core.holdTimer.expires =
          sn.core.lastRx + max sn.core.reqMinRxInt sn.core.remMinTxInt * sn.core.remDetectMult) ∧
        sn.core.desMinTxNew =
          (if sn.core.locState = .up then sn.core.cf.minTxInt else sn.core.cf.idleTxInt) ∧
        sn.core.reqMinRxNew = sn.core.cf.minRxInt ∧ sn.core.detectMult = sn.core.cf.multiplier ∧
        sn.core.passive = sn.core.cf.passive) :=
  ⟨_, rfl, broker_sessions_derived_fields (i := 2) ⟨attachRun, rfl⟩ rfl⟩

theorem sessionInv_txSafe : SessionInv TxSafe :=
  ⟨fun cf now => (txInv_addSession cf now).txSafe, fun _ _ ev h => h.step ev,
    fun _ h => ⟨h.stopped, h.notAdminDown⟩⟩

/-- Whatever the threads, the hooks and the engines do, no session's TX timer runs while a stop
condition holds: while it is passive and has not heard its peer, while the peer asks for no
packets, or while both ends are Up in demand mode with no poll. -/
theorem broker_sessions_tx_off_while_stopped (hb : b.Reachable) (hs : b.sess i = some sn)
    (ht : txStopped sn.core) : tmActive sn.core.txTimer = false :=
  (hb.session sessionInv_txSafe hs).stopped ht

/-- The peer of the session engine 0 made for address 7 asks for no packets. -/
def silentPeerRun : List Action :=
  attachRun ++ [.thread 0 2 2 (.rx ⟨.down, 5, false, 100, 0, 3, 0, by decide, by decide⟩)]

theorem broker_sessions_tx_off_while_stopped_silent_peer :
    ∃ sn, (init.run silentPeerRun).sess 2 = some sn ∧ txStopped sn.core ∧
      tmActive sn.core.txTimer = false :=
  ⟨_, rfl, by decide,
    broker_sessions_tx_off_while_stopped (i := 2) ⟨silentPeerRun, rfl⟩ rfl (by decide)⟩

/-! ## Who moves a session along the state diagram -/

/-- The handshake fields as they were. -/
def SameHandshake (s t : Session) : Prop := handshake t = handshake s

theorem evolution_sameHandshake : Evolution SameHandshake fun _ => True :=
  ⟨fun _ => rfl, fun h₁ h₂ => h₂.trans h₁, fun _ _ => trivial, fun _ _ => trivial,
    fun _ _ _ => reconfigure_handshake _, fun _ => rfl⟩

/-- A step that is no event of a BFD thread keeps the handshake fields of every session. -/
theorem Reachable.handshake_of_step (hb : b.Reachable) {a : Action}
    (ha : ∀ p i now ev, a ≠ .thread p i now ev) (hs : b.sess i = some sn)
    (hs' : (b.step a).sess i = some sn') : handshake sn'.core = handshake sn.core :=
  hb.kept (evolved_step evolution_sameHandshake a fun p i now ev e => absurd e (ha p i now ev))
    hs hs'

/-- Only the BFD threads change what a session reports: every other step (the main thread's
requests, updates and frees, the hooks they call, the notifier, an engine's start or shutdown)
leaves the state, the remote state, the diagnostic and the peer's discriminator of every
session it keeps as they were. -/
theorem main_thread_keeps_session_state (hb : b.Reachable) (a : Action)
    (ha : ∀ p i now ev, a ≠ .thread p i now ev) (hs : b.sess i = some sn)
    (hs' : (b.step a).sess i = some sn') :
    sn'.core.locState = sn.core.locState ∧ sn'.core.remState = sn.core.remState ∧
      sn'.core.locDiag = sn.core.locDiag ∧ sn'.core.remId = sn.core.remId := by
  simpa only [handshake, Prod.mk.injEq] using hb.handshake_of_step ha hs hs'

/-- A request's new options reconfigure its session and leave what it reports. -/
theorem main_thread_keeps_session_state_update :
    ∃ sn sn', (init.run attachRun).sess 2 = some sn ∧
      ((init.run attachRun).step (.update 1 { minTxInt := 50 } 2)).sess 2 = some sn' ∧
      sn'.core.locState = sn.core.locState ∧ sn'.core.remState = sn.core.remState ∧
        sn'.core.locDiag = sn.core.locDiag ∧ sn'.core.remId = sn.core.remId :=
  ⟨_, _, rfl, rfl, main_thread_keeps_session_state (i := 2) ⟨attachRun, rfl⟩
    (.update 1 { minTxInt := 50 } 2) (fun _ _ _ _ e => Action.noConfusion e) rfl rfl⟩

/-- Whatever the interleaving, every step moves every session it keeps along the state
diagram of RFC 5880: it stays in its state with its diagnostic, or goes from Down to Init, from
Down or Init to Up with no diagnostic, or from Init or Up to Down with Time expired or
Neighbor down. -/
theorem broker_sessions_follow_state_diagram (hb : b.Reachable) (a : Action)
    (hs : b.sess i = some sn) (hs' : (b.step a).sess i = some sn') :
    DiagramStep sn.core sn'.core := by
  by_cases ht : ∃ p j now ev, a = .thread p j now ev
  · obtain ⟨p, j, now, ev, rfl⟩ := ht
    have h : Evolved (fun s t => Agrees (handshake s) → DiagramStep s t) (fun _ => True) b
        (b.step (.thread p j now ev)) :=
      evolved_step_thread (fun _ _ => .inl ⟨rfl, rfl⟩) fun _ ha =>
        diagramStep_step ha.locState_ne ev
    exact hb.kept h hs hs' (hb.session sessionInv_agrees hs)
  · push_neg at ht
    exact diagramStep_of_handshake (hb.handshake_of_step ht hs hs') (.inl ⟨rfl, rfl⟩)

/-- The peer says Down and the BFD thread takes the session to Init. -/
theorem broker_sessions_follow_state_diagram_rx :
    ∃ sn sn', (init.run attachRun).sess 2 = some sn ∧
      ((init.run attachRun).step (.thread 0 2 2 (.rx (examplePacket .down 0)))).sess 2 =
        some sn' ∧ DiagramStep sn.core sn'.core :=
  ⟨_, _, rfl, rfl, broker_sessions_follow_state_diagram (i := 2) ⟨attachRun, rfl⟩
    (.thread 0 2 2 (.rx (examplePacket .down 0))) rfl rfl⟩

/-- There the session goes from Down to Init. -/
example : ((init.run attachRun).sess 2).map (fun sn => sn.core.locState) = some .down ∧
    (((init.run attachRun).step (.thread 0 2 2 (.rx (examplePacket .down 0)))).sess 2).map
      (fun sn => sn.core.locState) = some .init :=
  ⟨rfl, rfl⟩

end Broker

end Bfd
