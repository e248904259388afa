import Bfd.BrokerNotify

/-! # Runs of the broker

Every step keeps the invariant and the empty broker has it, so every reachable broker has
it. What the invariant says at the control thread's boundaries follows: each live request
sits on the one list its pointer names, as `bfd_submit_request` placed it; each session of a
running engine has a request unless the notifier walks it, and `bfd_remove_session` only
ever frees an empty session the notifier is done with; and once no notification is on its
way, every attached request has its session's state. -/
namespace Bfd

namespace Broker

variable {b : Broker}

theorem Inv.init : Inv Broker.init noExcuse where
  core :=
    { lists := ⟨fun s r => by cases s <;> simp [listAt, requestsOf, ptr, Broker.init],
        fun s => by cases s <;> simp [listAt, requestsOf, Broker.init]⟩
      fresh := ⟨fun _ _ => rfl, fun _ _ => rfl, fun _ _ h => (by cases h),
        fun _ h => (by cases h)⟩
      registry := ⟨fun _ _ h => (by cases h), fun _ _ _ h => (by cases h),
        fun _ _ h => (by cases h), fun _ => List.nodup_nil, List.nodup_nil⟩
      walk := ⟨fun _ _ h => (by cases h), fun _ h => (by cases h), fun _ _ h => (by cases h)⟩
      placed := fun _ _ h => by cases h
      populated := ⟨fun _ _ h => (by cases h), fun _ h => (by cases h)⟩
      notified := ⟨fun _ _ h => (by cases h), fun _ h => (by cases h),
        fun _ _ _ _ _ _ h => (by cases h)⟩ }
  delivered := fun _ _ _ _ h => by cases h

/-- Each action keeps the invariant: a step blocked by its guard changes nothing, and the
guard of every other step is what its preservation lemma asks for. -/
theorem Inv.step (h : Inv b noExcuse) (a : Action) : Inv (b.step a) noExcuse := by
  have hc : b.notifier = .idle → b.notifier.cursor = none := fun e => by rw [e]; rfl
  cases a with
  | thread p i now ev => simp only [Broker.step]; split; exacts [h.threadStep p i now ev, h]
  | kick p => simp only [Broker.step]; split; exacts [h.kick p, h]
  | drain p =>
    simp only [Broker.step]; split
    next hg => exact h.drain hg.1 p
    next => exact h
  | splice => simp only [Broker.step]; split; exacts [h.splice ‹_›, h]
  | pick => simp only [Broker.step]; split; exacts [h.pick ‹_›, h]
  | deliver acts now => simp only [Broker.step]; split; exacts [h.deliver ‹_› acts now, h]
  | finish => simp only [Broker.step]; split; exacts [h.finish ‹_›, h]
  | request addr localAddr iface vrf opts now =>
    simp only [Broker.step]; split; exacts [h.requestSession addr localAddr iface vrf opts, h]
  | update r opts now => simp only [Broker.step]; split; exacts [h.updateRequest r opts, h]
  | free r => simp only [Broker.step]; split; exacts [h.requestFree (by simp [hc ‹_›]), h]
  | start cf plan now => simp only [Broker.step]; split; exacts [h.start (hc ‹_›) cf plan now, h]
  | shutdown p plan now =>
    simp only [Broker.step]; split
    next hg => exact h.shutdown (hc hg.1) p plan now
    next => exact h

theorem Inv.run (h : Inv b noExcuse) (as : List Action) : Inv (b.run as) noExcuse := by
  induction as generalizing b with
  | nil => exact h
  | cons a as ih => exact ih (h.step a)

/-- Every reachable broker has the invariant. -/
theorem Reachable.inv (hb : b.Reachable) : Inv b noExcuse := by
  obtain ⟨as, rfl⟩ := hb
  exact Inv.init.run as

/-! ## At the control thread's boundaries -/

/-- An engine that accepts every request, under the example interface configuration. -/
def openConfig : BfdConfig :=
  ⟨false, none, true, true, true, true, fun _ => ⟨100, 100, 1000, 3, false, 0, 0⟩⟩

/-- Hooks that make no calls. -/
def quietHooks : Nat → List HookAct := fun _ => []

/-- Engine 0 starts and a multihop request for address 7 makes session 2. -/
def attachRun : List Action := [.start openConfig quietHooks 1, .request 7 0 none none {} 1]

/-- Every live request is on the one list its pointer names. A waiting request is rejected by
every running engine; an attached one is in a session registered in a running engine that
accepts it, under the request's key. -/
theorem request_placed (hb : b.Reachable) {r : Nat} {req : Request} (hr : b.reqs r = some req) :
    (r ∈ b.waitList ↔ req.session = none) ∧ (∀ i, r ∈ b.requestsOf i ↔ req.session = some i) ∧
    (req.session = none → ∀ p ∈ b.protoList, bfdAccepts (b.engines p).cf req = false) ∧
    ∀ i, req.session = some i → ∃ sn, b.sess i = some sn ∧ sn.engine ∈ b.protoList ∧
      i ∈ (b.engines sn.engine).sessions ∧ bfdAccepts (b.engines sn.engine).cf req = true ∧
      sn.addr = req.addr ∧ sn.ifindex = req.ifindex := by
  have h := hb.inv.core
  have hp : b.ptr r = some req.session := by simp [ptr, hr]
  have hon : ∀ s, r ∈ b.listAt s ↔ req.session = s := fun s => by
    rw [h.lists.mem_iff, hp, Option.some.injEq]
  refine ⟨hon none, fun i => hon (some i), fun hs p hq => ?_, fun i hs => ?_⟩
  · exact ((h.placed r req hr).1 hs p hq).resolve_right not_false
  · obtain ⟨sn, hsn⟩ := h.lists.sess_of_ptr (hs ▸ hp)
    obtain ⟨he, ha⟩ := (h.placed r req hr).2 i sn hs hsn
    exact ⟨sn, hsn, he.resolve_right not_false, h.registry.registered i sn hsn, ha⟩

theorem request_placed_attached :
    ∃ req, (init.run attachRun).reqs 1 = some req ∧
      ((1 ∈ (init.run attachRun).waitList ↔ req.session = none) ∧
        (∀ i, 1 ∈ (init.run attachRun).requestsOf i ↔ req.session = some i) ∧
        (req.session = none → ∀ p ∈ (init.run attachRun).protoList,
          bfdAccepts ((init.run attachRun).engines p).cf req = false) ∧
        ∀ i, req.session = some i → ∃ sn, (init.run attachRun).sess i = some sn ∧
          sn.engine ∈ (init.run attachRun).protoList ∧
          i ∈ ((init.run attachRun).engines sn.engine).sessions ∧
          bfdAccepts ((init.run attachRun).engines sn.engine).cf req = true ∧
          sn.addr = req.addr ∧ sn.ifindex = req.ifindex) :=
  ⟨_, rfl, request_placed ⟨attachRun, rfl⟩ rfl⟩

/-- A session of a running engine has a request unless the notifier walks it, and every
session `bfd_remove_session` freed had no request and was not being walked. -/
theorem session_populated (hb : b.Reachable) :
    (∀ p ∈ b.protoList, ∀ i ∈ (b.engines p).sessions, ∀ sn, b.sess i = some sn →
      sn.requestList ≠ [] ∨ sn.notifyRunning = true) ∧
    ∀ sn ∈ b.removedLog, sn.requestList = [] ∧ sn.notifyRunning = false := by
  have h := hb.inv.core
  exact ⟨fun p hp i hi sn hs =>
    h.populated.nonempty i sn hs (h.registry.engine_of p i sn hi hs ▸ hp), h.populated.removed⟩

theorem session_populated_after_free :
    (∀ p ∈ (init.run (attachRun ++ [.free 1])).protoList,
      ∀ i ∈ ((init.run (attachRun ++ [.free 1])).engines p).sessions,
      ∀ sn, (init.run (attachRun ++ [.free 1])).sess i = some sn →
        sn.requestList ≠ [] ∨ sn.notifyRunning = true) ∧
    ∀ sn ∈ (init.run (attachRun ++ [.free 1])).removedLog,
      sn.requestList = [] ∧ sn.notifyRunning = false :=
  session_populated ⟨attachRun ++ [.free 1], rfl⟩

/-- An attached request has its session's state once its engine's BFD thread has kicked the
pipe after its last link, the pipe has been read and the notifier is back. -/
theorem Inv.state_of_quiet (h : Inv b noExcuse)
    (hq : ∀ p ∈ b.protoList, (b.engines p).pipe = false ∧ (b.engines p).kickPending = false)
    (hi : b.notifier = .idle) {r i : Nat} {req : Request} {sn : SessionNode}
    (hr : b.reqs r = some req) (hs : req.session = some i) (hsn : b.sess i = some sn) :
    req.state = sn.core.locState := by
  have hp : sn.engine ∈ b.protoList :=
    ((h.core.placed r req hr).2 i sn hs hsn).1.resolve_right not_false
  rcases h.delivered r req i sn hr hs hsn with hl | he | hw
  · -- a linked session is on its engine's notify list, so a pipe or a kick is pending
    have hm : i ∈ (b.engines sn.engine).notifyList := by
      simpa [hi, Notifier.tmpOf] using h.core.notified.listed i sn hsn hl
    rcases h.core.notified.kicked _ hp (List.ne_nil_of_mem hm) with hk | hk | hk
    · simp [(hq _ hp).1] at hk
    · simp [(hq _ hp).2] at hk
    · simp [hi] at hk
  · exact he
  · simp [hi, Notifier.pendingOf] at hw

/-- No state change is lost: once every running engine's BFD thread has kicked the pipe after
its last link, every pipe has been read and the notifier is back, every attached request has
its session's state. -/
theorem quiescent_request_state (hb : b.Reachable)
    (hq : ∀ p ∈ b.protoList, (b.engines p).pipe = false ∧ (b.engines p).kickPending = false)
    (hi : b.notifier = .idle) {r i : Nat} {req : Request} {sn : SessionNode}
    (hr : b.reqs r = some req) (hs : req.session = some i) (hsn : b.sess i = some sn) :
    req.state = sn.core.locState :=
  hb.inv.state_of_quiet hq hi hr hs hsn

/-- Session 2 goes Init, and the notifier delivers that to request 1 and returns. -/
def deliveredRun : List Action :=
  attachRun ++
    [.thread 0 2 10 (.rx (examplePacket .down 0)), .kick 0, .drain 0, .splice, .pick,
      .deliver [] 10, .finish, .pick]

theorem quiescent_request_state_delivered :
    ∃ req sn, (init.run deliveredRun).reqs 1 = some req ∧ req.session = some 2 ∧
      (init.run deliveredRun).sess 2 = some sn ∧ sn.core.locState = .init ∧
      req.state = sn.core.locState :=
  ⟨_, _, rfl, rfl, rfl, rfl,
    @quiescent_request_state _ ⟨deliveredRun, rfl⟩ (by decide) rfl 1 2 _ _ rfl rfl rfl⟩

/-- The hook of request 1 makes request 4 on session 2 while the notifier walks session 2
with the state `Init` it read before the session went Up. -/
def hookAttachRun : List Action :=
  attachRun ++
    [.request 7 0 none none {} 1, .thread 0 2 10 (.rx (examplePacket .down 0)), .kick 0,
      .drain 0, .splice, .pick, .thread 0 2 20 (.rx (examplePacket .init 0)), .kick 0,
      .deliver [.request 7 0 none none {}] 20, .deliver [] 20, .deliver [] 20]

/-- Between two quiescent brokers a request may hold states out of their order: request 4
is attached to session 2 in state Up, the session stays Up, and the walk then delivers to
request 4 the older state Init. -/
theorem hook_request_receives_older_state :
    ((init.run (hookAttachRun.take 8)).sess 2).map (fun sn => sn.core.locState) = some .init ∧
    ((init.run (hookAttachRun.take 11)).reqs 4).map (fun q => (q.session, q.state)) =
      some (some 2, .up) ∧
    [11, 12, 13].all (fun k =>
      ((init.run (hookAttachRun.take k)).sess 2).map (fun sn => sn.core.locState) = some .up) ∧
    ((init.run hookAttachRun).reqs 4).map (fun q => (q.session, q.oldState, q.state)) =
      some (some 2, .up, .init) := by
  decide

/-- Session 2 goes Up and request 1 learns it; a packet reporting AdminDown takes the session
Down, and a packet reporting Up arrives before the notifier reads the session. -/
def remoteChangeRun : List Action :=
  attachRun ++
    [.thread 0 2 10 (.rx (examplePacket .down 0)), .kick 0, .drain 0, .splice, .pick,
      .deliver [] 10, .finish, .pick,
      .thread 0 2 20 (.rx (examplePacket .init 0)), .kick 0, .drain 0, .splice, .pick,
      .deliver [] 20, .finish, .pick,
      .thread 0 2 30 (.rx (examplePacket .adminDown 0)), .kick 0,
      .thread 0 2 40 (.rx (examplePacket .up 0)), .drain 0, .splice, .pick, .deliver [] 50]

/-- The remote state is read when the notifier unlinks the session, not when the session
changed state: the session leaves Up on a packet reporting AdminDown and never returns, yet
request 1 is told Up to Down with the down flag set. -/
theorem adminDown_transition_delivered_as_down :
    ((init.run (remoteChangeRun.take 18)).sess 2).map (fun sn => sn.core.locState) = some .up ∧
    ((init.run (remoteChangeRun.take 18)).reqs 1).map Request.state = some .up ∧
    ((init.run (remoteChangeRun.take 19)).sess 2).map
      (fun sn => (sn.core.locState, sn.core.remState)) = some (.down, .adminDown) ∧
    (List.range 7).all (fun k =>
      ((init.run (remoteChangeRun.take (19 + k))).sess 2).map (fun sn => sn.core.locState) =
        some .down) ∧
    ((init.run remoteChangeRun).reqs 1).map (fun q => (q.oldState, q.state, q.down)) =
      some (.up, .down, true) := by
  decide

/-! ## What the broker does not keep current -/

/-- Two requests for address 7 with different TX intervals share session 2, which was made
with the first one's options; then the first is released. -/
def headReleaseRun : List Action :=
  [.start openConfig quietHooks 1, .request 7 0 none none { minTxInt := 200 } 1,
    .request 7 0 none none { minTxInt := 300 } 1, .free 1]

/-- `bfd_request_free` does not reconfigure the session when it removes the head request: the
session's options still come from the released request, not from its new head 3. -/
theorem head_release_keeps_stale_options :
    ∃ sn q, (init.run headReleaseRun).sess 2 = some sn ∧ (init.run headReleaseRun).reqs 3 = some q ∧
      0 ∈ (init.run headReleaseRun).protoList ∧ 2 ∈ ((init.run headReleaseRun).engines 0).sessions ∧
      sn.requestList = [3] ∧ sn.core.cf.minTxInt = 200 ∧ q.opts.minTxInt = 300 ∧
      sn.core.cf ≠ bfdMergeOptions sn.ifaceCf q.opts :=
  ⟨_, _, rfl, rfl, by decide, by decide, rfl, rfl, rfl, by decide⟩

end Broker

end Bfd
