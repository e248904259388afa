import Bfd.BrokerRun

/-! # The notifier brings every request up to date

From every reachable broker, the kicks and the notifier's own steps, with hooks that make no
calls, reach a broker with no pending kick, no unread pipe and an idle notifier. They move no
request and change no session's state, so every attached request then has the state its
session had at the start: once a state change has linked its session, the main thread
delivers it without any further step of a BFD thread.

The walk of `bfd_notify_hook` ends because each of its steps lowers `walkCost`: two steps
for every session of the local list and one for every request of it, one for every request
the walk has still to reach, and the return. -/
namespace Bfd

/-- The kicks and the notifier's steps, with hooks that make no calls. -/
def Action.notifies : Action → Bool
  | .kick _ | .drain _ | .splice | .pick | .finish => true
  | .deliver acts _ => acts.isEmpty
  | _ => false

namespace Broker

variable {b b' b'' : Broker} {ex : Nat → Nat → Prop}

theorem run_append (b : Broker) (as bs : List Action) : b.run (as ++ bs) = (b.run as).run bs :=
  List.foldl_append _ _ _ _

theorem Reachable.run (hb : b.Reachable) (as : List Action) : (b.run as).Reachable := by
  obtain ⟨as0, rfl⟩ := hb
  exact ⟨as0 ++ as, (run_append _ _ _).symm⟩

theorem run_cons (b : Broker) (a : Action) (as : List Action) : b.run (a :: as) = (b.step a).run as :=
  rfl

section Steps
variable {p i r : Nat} {tmp : List Nat} {snap : BfdState × BfdState × Nat}

theorem step_deliver (hn : b.notifier = .dispatching p tmp i snap (some r)) (acts : List HookAct)
    (now : ℕ+) : b.step (.deliver acts now) = b.notifyDeliver p tmp i snap r acts now := by
  simp [Broker.step, hn]

theorem step_finish (hn : b.notifier = .dispatching p tmp i snap none) :
    b.step .finish = b.notifyFinish p tmp i := by
  simp [Broker.step, hn]

end Steps

/-! ## What the notifier keeps -/

/-- Every request's pointer, the running engines, and the state of every session still
there. -/
structure Keeps (b b' : Broker) : Prop where
  ptr : b'.ptr = b.ptr
  protoList : b'.protoList = b.protoList
  state : ∀ i sn', b'.sess i = some sn' →
    ∃ sn, b.sess i = some sn ∧ sn'.core.locState = sn.core.locState

theorem Keeps.refl (b : Broker) : Keeps b b := ⟨rfl, rfl, fun _ sn h => ⟨sn, h, rfl⟩⟩

theorem Keeps.trans (h : Keeps b b') (h' : Keeps b' b'') : Keeps b b'' :=
  ⟨h'.ptr.trans h.ptr, h'.protoList.trans h.protoList, fun i sn'' hs =>
    let ⟨sn', hs', e'⟩ := h'.state i sn'' hs
    let ⟨sn, hs0, e⟩ := h.state i sn' hs'
    ⟨sn, hs0, e'.trans e⟩⟩

theorem Keeps.of_sess (hr : b'.reqs = b.reqs) (hs : b'.sess = b.sess)
    (hp : b'.protoList = b.protoList) : Keeps b b' :=
  ⟨by unfold Broker.ptr; rw [hr], hp, fun _ sn h => ⟨sn, hs ▸ h, rfl⟩⟩

/-- No pipe is written or read and no kick is made. -/
def SameFlags (b b' : Broker) : Prop :=
  ∀ p, (b'.engines p).pipe = (b.engines p).pipe ∧
    (b'.engines p).kickPending = (b.engines p).kickPending

theorem SameFlags.refl (b : Broker) : SameFlags b b := fun _ => ⟨rfl, rfl⟩

theorem SameFlags.trans (h : SameFlags b b') (h' : SameFlags b' b'') : SameFlags b b'' :=
  fun p => ⟨(h' p).1.trans (h p).1, (h' p).2.trans (h p).2⟩

/-! ## The cost of the walk -/

/-- Two steps for each session of a local list and one for each of its requests. -/
def listCost (b : Broker) (l : List Nat) : Nat :=
  l.foldr (fun j c => (b.requestsOf j).length + 2 + c) 0

/-- How many steps the notifier has still to take before it is idle. -/
def walkCost (b : Broker) : Nat :=
  match b.notifier with
  | .idle => 0
  | .drained p => b.listCost (b.engines p).notifyList + 2
  | .walking _ tmp => b.listCost tmp + 1
  | .dispatching _ tmp i _ cur =>
    (cur.map fun c => (suffixFrom c (b.requestsOf i)).length).getD 0 + b.listCost tmp + 2

@[simp] theorem requestsOf_setNotifier (n : Notifier) :
    ({ b with notifier := n } : Broker).requestsOf = b.requestsOf := rfl

@[simp] theorem listCost_setNotifier (n : Notifier) :
    ({ b with notifier := n } : Broker).listCost = b.listCost := rfl

@[simp] theorem listCost_cons (j : Nat) (l : List Nat) :
    b.listCost (j :: l) = (b.requestsOf j).length + 2 + b.listCost l := rfl

theorem listCost_congr (h : ∀ j, b'.requestsOf j = b.requestsOf j) (l : List Nat) :
    b'.listCost l = b.listCost l := by
  simp only [listCost, h]

theorem listCost_erase_le (i : Nat) : ∀ l : List Nat, b.listCost (l.erase i) ≤ b.listCost l
  | [] => le_rfl
  | j :: l => by
    rw [List.erase_cons]
    split
    · simp
    · simp only [listCost_cons]; have := listCost_erase_le i l; omega

/-- The walk of a list starts at its head and reaches every request of it. -/
theorem head_suffixFrom_length (l : List Nat) :
    (l.head?.map fun c => (suffixFrom c l).length).getD 0 = l.length := by
  cases l <;> simp [suffixFrom]

/-- Moving the cursor past a request of the list leaves one request fewer to reach. -/
theorem listNext_suffixFrom_length {n : Nat} {l : List Nat} (hl : l.Nodup) (hn : n ∈ l) :
    ((listNext n l).map fun c => (suffixFrom c l).length).getD 0 + 1 =
      (suffixFrom n l).length := by
  rw [suffixFrom_listNext hl hn]
  cases listNext n l <;> simp

/-! ## Each step of the walk advances -/

/-- A step of the walk that keeps what `Keeps` and `SameFlags` say and lowers the cost. -/
structure Advances (b b' : Broker) : Prop where
  keeps : Keeps b b'
  flags : SameFlags b b'
  cost : b'.walkCost < b.walkCost

section Walk
variable {p i : Nat} {tmp : List Nat} {snap : BfdState × BfdState × Nat}

/-- `bfd_request_notify` whose hook makes no calls writes at most the request's own record. -/
theorem bfdRequestNotify_cases (hook : Broker → Broker) (hh : ∀ x, hook x = x) (n : Nat)
    (st rm : BfdState) (dg : Nat) :
    b.bfdRequestNotify n st rm dg hook = b ∨ ∃ req, b.reqs n = some req ∧
      b.bfdRequestNotify n st rm dg hook = b.setReq n (some (req.notify st rm dg)) := by
  unfold bfdRequestNotify
  split
  · exact .inl rfl
  · next req hr =>
    split_ifs
    · exact .inl rfl
    · exact .inr ⟨req, hr, hh _⟩

theorem advances_splice (hd : b.notifier = .drained p) : Advances b (b.step .splice) := by
  have e : b.step .splice = b.notifySplice p := by simp only [Broker.step, hd]
  have hc : b.walkCost = b.listCost (b.engines p).notifyList + 2 := by simp only [walkCost, hd]
  rw [e]
  refine ⟨Keeps.of_sess rfl rfl rfl, fun q => ?_, ?_⟩
  · by_cases hq : q = p
    · subst hq; simp [notifySplice]
    · simp [notifySplice, Function.update_noteq hq]
  · have : (b.notifySplice p).walkCost = b.listCost (b.engines p).notifyList + 1 := rfl
    omega

theorem advances_pick (hw : b.notifier = .walking p tmp) : Advances b (b.step .pick) := by
  have e : b.step .pick = b.notifyPick p tmp := by simp only [Broker.step, hw]
  have hc : b.walkCost = b.listCost tmp + 1 := by simp only [walkCost, hw]
  rw [e]
  cases tmp with
  | nil =>
    have : (b.notifyPick p []).walkCost = 0 := rfl
    exact ⟨Keeps.of_sess rfl rfl rfl, SameFlags.refl b, by omega⟩
  | cons i tmp =>
    simp only [notifyPick]
    split
    · next sn hs =>
      -- the session is unlinked and marked, and its walk begins
      have hl := setSess_requestsOf_same hs
        (show ({ sn with core := { sn.core with linked := false }, notifyRunning := true } :
          SessionNode).requestList = sn.requestList from rfl)
      refine ⟨⟨rfl, rfl, fun j sn' hj => ?_⟩, SameFlags.refl b, ?_⟩
      · rcases setSess_sess_cases hj with ⟨rfl, rfl⟩ | ⟨-, hb⟩
        exacts [⟨sn, hs, rfl⟩, ⟨sn', hb, rfl⟩]
      · rw [hc]
        simp only [walkCost, requestsOf_setNotifier, listCost_setNotifier, hl, listCost_congr hl,
          requestsOf_eq hs, head_suffixFrom_length, listCost_cons]
        omega
    · next hs =>
      refine ⟨Keeps.of_sess rfl rfl rfl, SameFlags.refl b, ?_⟩
      rw [hc]
      simp only [walkCost, listCost_setNotifier, listCost_cons, requestsOf_none hs]
      omega

theorem advances_deliver {n : Nat} (h : Inv b ex)
    (hd : b.notifier = .dispatching p tmp i snap (some n)) (now : ℕ+) :
    Advances b (b.step (.deliver [] now)) := by
  have hc : b.walkCost = (suffixFrom n (b.requestsOf i)).length + b.listCost tmp + 2 := by
    simp only [walkCost, hd, Option.map_some', Option.getD_some]
  have hn : n ∈ b.requestsOf i :=
    h.core.walk.cursor i n (by simp [hd, Notifier.dispatched]) (by simp [hd, Notifier.cursor])
  have hlen := listNext_suffixFrom_length
    (show (b.requestsOf i).Nodup from h.core.lists.nodup (some i)) hn
  -- the cursor moves on, then only the request's own record may be written
  have hb1 : Advances b
      { b with notifier := .dispatching p tmp i snap (listNext n (b.requestsOf i)) } :=
    ⟨Keeps.of_sess rfl rfl rfl, SameFlags.refl b, by
      rw [hc]; simp only [walkCost, requestsOf_setNotifier, listCost_setNotifier]; omega⟩
  rw [step_deliver hd]
  unfold notifyDeliver
  rcases bfdRequestNotify_cases
      (b := { b with notifier := .dispatching p tmp i snap (listNext n (b.requestsOf i)) })
      (runHook n [] now) (fun _ => rfl) n snap.1 snap.2.1 snap.2.2 with e' | ⟨req, hr, e'⟩ <;>
    rw [e']
  · exact hb1
  · refine ⟨hb1.keeps.trans ⟨funext fun q => ?_, rfl, fun _ sn h => ⟨sn, h, rfl⟩⟩, hb1.flags,
      hb1.cost⟩
    have hr' : b.reqs n = some req := hr
    by_cases hq : q = n
    · subst hq; simp [ptr, hr', Request.notify]
    · simp [ptr, Function.update_noteq hq]

/-- The walk of session `i` is over: `notify_running` is cleared and the notifier returns to
its local list. -/
theorem Advances.of_unmark {sn : SessionNode} {b1 : Broker}
    (hd : b.notifier = .dispatching p tmp i snap none) (hs : b.sess i = some sn)
    (hr : b1.reqs = b.reqs)
    (hss : b1.sess = Function.update b.sess i (some { sn with notifyRunning := false }))
    (he : b1.engines = b.engines) (hp : b1.protoList = b.protoList)
    (hn : b1.notifier = .walking p tmp) : Advances b b1 := by
  have hl : ∀ j, b1.requestsOf j = b.requestsOf j := fun j => by
    simp only [requestsOf, hss, Function.update_apply]
    split_ifs with hj
    · subst hj; simp [hs]
    · rfl
  refine ⟨⟨by unfold Broker.ptr; rw [hr], hp, fun j sn' hj => ?_⟩,
    fun q => by rw [he]; exact ⟨rfl, rfl⟩, ?_⟩
  · rw [hss, Function.update_apply] at hj
    split_ifs at hj with hji
    · subst hji; cases hj; exact ⟨sn, hs, rfl⟩
    · exact ⟨sn', hj, rfl⟩
  · have h1 : b1.walkCost = b1.listCost tmp + 1 := by simp only [walkCost, hn]
    have h2 : b.walkCost = b.listCost tmp + 2 := by simp only [walkCost, hd]; simp
    rw [h1, h2, listCost_congr hl]
    omega

/-- A session whose hooks freed all its requests is removed after its walk. -/
theorem Advances.of_unmark_remove {sn : SessionNode} {b1 : Broker}
    (hd : b.notifier = .dispatching p tmp i snap none) (hs : b.sess i = some sn)
    (hr : b1.reqs = b.reqs)
    (hss : b1.sess = Function.update b.sess i (some { sn with notifyRunning := false }))
    (he : b1.engines = b.engines) (hp : b1.protoList = b.protoList)
    (hn : b1.notifier = .walking p tmp) (hl0 : sn.requestList = []) :
    Advances b (b1.bfdRemoveSession i) := by
  have ha := Advances.of_unmark hd hs hr hss he hp hn
  have hs1 : b1.sess i = some { sn with notifyRunning := false } := by rw [hss]; simp
  have hl := removeSession_requestsOf hs1 hl0
  -- the removal keeps every request list and at most drops the session from the local list
  have hc : (b1.bfdRemoveSession i).walkCost ≤ b1.listCost tmp + 1 := by
    unfold walkCost
    rw [removeSession_notifier hs1, hn]
    split_ifs
    · simp only [Notifier.eraseTmp, listCost_congr hl]
      exact Nat.add_le_add_right (listCost_erase_le i tmp) 1
    · simp only [listCost_congr hl]; exact le_rfl
  have h1 : b1.walkCost = b1.listCost tmp + 1 := by simp only [walkCost, hn]
  refine ⟨ha.keeps.trans ⟨by unfold Broker.ptr; rw [removeSession_reqs], by simp,
    fun j sn' hj => ⟨sn', removeSession_sess_some hj, rfl⟩⟩,
    ha.flags.trans fun q => ⟨removeSession_pipe hs1 q, removeSession_kickPending hs1 q⟩, ?_⟩
  have := ha.cost
  omega

theorem advances_finish (hd : b.notifier = .dispatching p tmp i snap none) :
    Advances b (b.step .finish) := by
  rw [step_finish hd]
  unfold notifyFinish
  split
  · next sn hs =>
    split_ifs with he
    exacts [Advances.of_unmark_remove hd hs rfl rfl rfl rfl rfl he,
      Advances.of_unmark hd hs rfl rfl rfl rfl rfl]
  · have hc : b.walkCost = b.listCost tmp + 2 := by simp only [walkCost, hd]; simp
    refine ⟨Keeps.of_sess rfl rfl rfl, SameFlags.refl b, ?_⟩
    rw [hc]; simp only [walkCost, listCost_setNotifier]; omega

end Walk

/-- While the notifier is away from idle, one of its steps advances. -/
theorem Inv.exists_advance (h : Inv b ex) (hi : b.notifier ≠ .idle) :
    ∃ a, a.notifies ∧ Advances b (b.step a) := by
  cases hn : b.notifier with
  | idle => exact absurd hn hi
  | drained p => exact ⟨.splice, rfl, advances_splice hn⟩
  | walking p tmp => exact ⟨.pick, rfl, advances_pick hn⟩
  | dispatching p tmp i snap cur =>
    cases cur with
    | none => exact ⟨.finish, rfl, advances_finish hn⟩
    | some n => exact ⟨.deliver [] 1, rfl, advances_deliver h hn 1⟩

/-- The notifier's steps bring it back to idle. -/
theorem Inv.exists_walk : ∀ (n : Nat) {b : Broker}, b.walkCost ≤ n → Inv b noExcuse →
    ∃ as, (∀ a ∈ as, a.notifies) ∧ (b.run as).notifier = .idle ∧ Keeps b (b.run as) ∧
      SameFlags b (b.run as)
  | n, b, hc, h => by
    by_cases hi : b.notifier = .idle
    · exact ⟨[], by simp, hi, Keeps.refl b, SameFlags.refl b⟩
    · obtain ⟨a, ha, hadv⟩ := h.exists_advance hi
      cases n with
      | zero => have := hadv.cost; omega
      | succ n =>
        obtain ⟨as, has, hid, hk, hf⟩ := Inv.exists_walk n (by have := hadv.cost; omega) (h.step a)
        exact ⟨a :: as, by simpa [ha] using has, hid, hadv.keeps.trans hk, hadv.flags.trans hf⟩

/-! ## Every engine -/

section Engine
variable {p : Nat}

/-- The kick of engine `p`, if one is pending, and the drain of its pipe, if it was written,
leave neither behind. -/
theorem kick_drain (hi : b.notifier = .idle) (hp : p ∈ b.protoList) :
    Keeps b ((b.step (.kick p)).step (.drain p)) ∧
      (((b.step (.kick p)).step (.drain p)).engines p).pipe = false ∧
      (((b.step (.kick p)).step (.drain p)).engines p).kickPending = false ∧
      ∀ q ≠ p, ((b.step (.kick p)).step (.drain p)).engines q = b.engines q := by
  have hk : ∃ e, b.step (.kick p) = b.setEngine p e ∧ e.kickPending = false ∧
      (e.pipe = false → (b.engines p).pipe = false) := by
    cases hkp : (b.engines p).kickPending
    · exact ⟨b.engines p, by simp [Broker.step, hkp, setEngine], hkp, id⟩
    · exact ⟨_, by simp only [Broker.step, hkp, if_true]; rfl, rfl, fun e => by cases e⟩
  obtain ⟨e, he, hek, -⟩ := hk
  simp only [he]
  by_cases hpe : e.pipe = true
  · have hd : (b.setEngine p e).step (.drain p) = (b.setEngine p e).notifyDrain p := by
      simp [Broker.step, hi, hp, hpe]
    rw [hd]
    refine ⟨Keeps.of_sess rfl rfl rfl, by simp [notifyDrain], by simp [notifyDrain, hek],
      fun q hq => by simp [notifyDrain, Function.update_noteq hq]⟩
  · have hd : (b.setEngine p e).step (.drain p) = b.setEngine p e := by
      simp [Broker.step, hpe]
    rw [hd]
    exact ⟨Keeps.of_sess rfl rfl rfl, by simpa using hpe, by simp [hek],
      fun q hq => by simp [Function.update_noteq hq]⟩

/-- Engine `p` ends with no pending kick and no unread pipe, the other engines as they were. -/
theorem Inv.exists_quiet_engine (h : Inv b noExcuse) (hi : b.notifier = .idle)
    (hp : p ∈ b.protoList) :
    ∃ as, (∀ a ∈ as, a.notifies) ∧ (b.run as).notifier = .idle ∧ Keeps b (b.run as) ∧
      ((b.run as).engines p).pipe = false ∧ ((b.run as).engines p).kickPending = false ∧
      ∀ q ≠ p, ((b.run as).engines q).pipe = (b.engines q).pipe ∧
        ((b.run as).engines q).kickPending = (b.engines q).kickPending := by
  obtain ⟨hk, hpf, hkf, ho⟩ := kick_drain hi hp
  obtain ⟨as, has, hid, hk', hf⟩ := Inv.exists_walk _ le_rfl ((h.step (.kick p)).step (.drain p))
  refine ⟨.kick p :: .drain p :: as, by simpa [Action.notifies] using has, hid, hk.trans hk',
    (hf p).1.trans hpf, (hf p).2.trans hkf, fun q hq => ?_⟩
  rw [← ho q hq]
  exact hf q

/-- Every engine of `ps` ends with no pending kick and no unread pipe, the other engines as
they were. -/
theorem Inv.exists_quiet : ∀ (ps : List Nat) {b : Broker}, Inv b noExcuse →
    b.notifier = .idle → (∀ p ∈ ps, p ∈ b.protoList) → ∃ as, (∀ a ∈ as, a.notifies) ∧ (b.run as).notifier = .idle ∧ Keeps b (b.run as) ∧
      (∀ p ∈ ps, ((b.run as).engines p).pipe = false ∧
        ((b.run as).engines p).kickPending = false) ∧
      ∀ q ∉ ps, ((b.run as).engines q).pipe = (b.engines q).pipe ∧
        ((b.run as).engines q).kickPending = (b.engines q).kickPending
  | [], b, _, hi, _ => ⟨[], by simp, hi, Keeps.refl b, by simp, fun _ _ => ⟨rfl, rfl⟩⟩
  | p :: ps, b, h, hi, hps => by
    obtain ⟨as1, ha1, hi1, hk1, hp1, hk1', ho1⟩ :=
      h.exists_quiet_engine hi (hps p (List.mem_cons_self p ps))
    obtain ⟨as2, ha2, hi2, hk2, hq2, ho2⟩ := (h.run as1).exists_quiet ps hi1 fun q hq => by
      rw [hk1.protoList]; exact hps q (List.mem_cons_of_mem p hq)
    refine ⟨as1 ++ as2, fun a ha => (List.mem_append.1 ha).elim (ha1 a) (ha2 a), ?_, ?_,
      fun q hq => ?_, fun q hq => ?_⟩ <;> rw [run_append]
    · exact hi2
    · exact hk1.trans hk2
    · by_cases hqs : q ∈ ps
      · exact hq2 q hqs
      · rcases List.mem_cons.1 hq with rfl | hq'
        · rw [(ho2 q hqs).1, (ho2 q hqs).2]; exact ⟨hp1, hk1'⟩
        · exact absurd hq' hqs
    · have hqp : q ≠ p := fun e => hq (e ▸ List.mem_cons_self p ps)
      have hqs : q ∉ ps := fun e => hq (List.mem_cons_of_mem p e)
      rw [(ho2 q hqs).1, (ho2 q hqs).2]
      exact ho1 q hqp

end Engine

/-- No state change is lost: from every reachable broker the kicks and the notifier's
steps alone, with hooks that make no calls, give every attached request the state its session
has, and move no request. -/
theorem notifier_delivers_session_state (hb : b.Reachable) :
    ∃ as : List Action, (∀ a ∈ as, a.notifies) ∧
      ∀ r req i sn, b.reqs r = some req → req.session = some i → b.sess i = some sn →
        ∃ req', (b.run as).reqs r = some req' ∧ req'.session = some i ∧
          req'.state = sn.core.locState := by
  have h := hb.inv
  -- first the walk under way, then every running engine
  obtain ⟨as1, ha1, hi1, hk1, -⟩ := Inv.exists_walk _ le_rfl h
  obtain ⟨as2, ha2, hi2, hk2, hq2, -⟩ := (h.run as1).exists_quiet _ hi1 fun p hp => hp
  refine ⟨as1 ++ as2, fun a ha => (List.mem_append.1 ha).elim (ha1 a) (ha2 a),
    fun r req i sn hr hs hsn => ?_⟩
  rw [run_append]
  have hk := hk1.trans hk2
  have h' := ((hb.run as1).run as2).inv
  have hp : ((b.run as1).run as2).ptr r = some (some i) := by rw [hk.ptr]; simp [ptr, hr, hs]
  obtain ⟨rq, hrq, hrs⟩ := exists_of_ptr hp
  obtain ⟨sn', hsn'⟩ := h'.core.lists.sess_of_ptr hp
  obtain ⟨sn0, h0, e⟩ := hk.state i sn' hsn'
  obtain rfl : sn0 = sn := Option.some.inj (h0.symm.trans hsn)
  refine ⟨rq, hrq, hrs, e ▸ h'.state_of_quiet (fun p hp => ?_) hi2 hrq hrs hsn'⟩
  rw [hk2.protoList] at hp
  exact hq2 p hp

theorem notifier_delivers_after_hook_attach :
    ∃ as : List Action, (∀ a ∈ as, a.notifies) ∧
      ∀ r req i sn, (init.run hookAttachRun).reqs r = some req → req.session = some i →
        (init.run hookAttachRun).sess i = some sn →
        ∃ req', ((init.run hookAttachRun).run as).reqs r = some req' ∧ req'.session = some i ∧
          req'.state = sn.core.locState :=
  notifier_delivers_session_state ⟨hookAttachRun, rfl⟩

end Broker

end Bfd
