import Bfd.BrokerProgress
import Mathlib.Data.Fintype.Basic

/-! # A hook that releases its own request

`bfd_notify_hook` walks a session's requests with `WALK_LIST_DELSAFE`, reading the next request
before it notifies the current one, and `bfd_request_free` leaves in place a session whose
`notify_running` is set: the notifier removes it after the walk if its list ended empty. So a
hook may release its own request during the callback, and doing so is the same as releasing
it right after the dispatch of the session, in the same order (`self_release_deferred`).

The proof moves each release past what follows it: the release of a request already visited
commutes with the delivery to a later one (`deliver_release`); a release during the callback
is the delivery followed by the release (`deliver_free`); and the end of the walk, which
removes an emptied session, absorbs a release made before it (`finish_release`). -/

namespace Bfd

/-- What `bfd_request_notify` leaves in a request for the state snapshot `snap`. -/
def Request.delivered (snap : BfdState × BfdState × Nat) (q : Request) : Request :=
  if snap.1 = q.state then q else q.notify snap.1 snap.2.1 snap.2.2

namespace Broker

/-- The notifier's steps for the session at the head of its local list: `WALK_LIST_FIRST`,
one delivery to each request of `l`, whose hook makes the calls `plan r`, and the end of the
walk. -/
def dispatchActions (plan : Nat → List HookAct) (l : List Nat) (now : ℕ+) : List Action :=
  .pick :: l.map (fun r => .deliver (plan r) now) ++ [.finish]

/-- Hooks of which those of the requests `R` release their own request and the others make
no calls. -/
def releasing (R : List Nat) : Nat → List HookAct := fun r => if r ∈ R then [.free] else []

/-- What `bfd_request_free` does to the request itself: it leaves its list and is freed. -/
def release (b : Broker) (r : Nat) : Broker := (b.remNode r).setReq r none

attribute [ext] Broker

variable {c : Broker} {p i r v : Nat} {tmp : List Nat} {snap : BfdState × BfdState × Nat}
  {now : ℕ+} {q : Request} {s : SessionNode}

theorem release_eq (hq : c.reqs v = some q) (hqs : q.session = some i) (hs : c.sess i = some s) :
    c.release v =
      (c.setSess i (some { s with requestList := s.requestList.erase v })).setReq v none := by
  simp [release, remNode, hq, hqs, hs]

/-- `bfd_request_free` of an attached request: the release, and the removal of the session if
its list is left empty and the notifier is not walking it. -/
theorem requestFree_eq (hq : c.reqs v = some q) (hqs : q.session = some i) (hs : c.sess i = some s) :
    c.bfdRequestFree v =
      if s.requestList.erase v = [] ∧ s.notifyRunning = false then (c.release v).bfdRemoveSession i
      else c.release v := by
  simp [bfdRequestFree, hq, hqs, release_eq hq hqs hs, remNode, hs]

/-- While the notifier walks the session, `bfd_request_free` leaves the session in place. -/
theorem requestFree_running (hq : c.reqs v = some q) (hqs : q.session = some i)
    (hs : c.sess i = some s) (hrun : s.notifyRunning = true) : c.bfdRequestFree v = c.release v := by
  simp [requestFree_eq hq hqs hs, hrun]

/-- The end of the walk of session `i`. -/
theorem notifyFinish_eq (hs : c.sess i = some s) :
    c.notifyFinish p tmp i =
      if s.requestList = [] then
        ({ c.setSess i (some { s with notifyRunning := false }) with notifier := .walking p tmp } :
          Broker).bfdRemoveSession i
      else { c.setSess i (some { s with notifyRunning := false }) with notifier := .walking p tmp } := by
  simp [notifyFinish, hs]

/-- A release during the callback is the delivery followed by the release. -/
theorem deliver_free (hq : c.reqs r = some q) (hd : snap.1 ≠ q.state) (hqs : q.session = some i)
    (hs : c.sess i = some s) (hrun : s.notifyRunning = true) :
    c.notifyDeliver p tmp i snap r [.free] now = (c.notifyDeliver p tmp i snap r [] now).release r := by
  simp only [notifyDeliver, bfdRequestNotify, hq, if_neg hd, runHook, List.foldl, hookCall]
  exact requestFree_running (q := q.notify snap.1 snap.2.1 snap.2.2) (by simp) hqs hs hrun

/-- A delivery whose hook makes no calls moves the cursor and writes the request's state. -/
theorem notifyDeliver_quiet (c : Broker) (p : Nat) (tmp : List Nat) (i : Nat)
    (snap : BfdState × BfdState × Nat) (r : Nat) (now : ℕ+) :
    c.notifyDeliver p tmp i snap r [] now =
      { c with notifier := .dispatching p tmp i snap (listNext r (c.requestsOf i)) }.setReq r
        ((c.reqs r).map (Request.delivered snap)) := by
  unfold notifyDeliver bfdRequestNotify
  cases hr : c.reqs r with
  | none => ext1 <;> simp [hr, Function.update_eq_self_iff]
  | some q =>
    by_cases h : snap.1 = q.state <;> ext1 <;>
      simp [hr, h, Request.delivered, runHook, Function.update_eq_self_iff]

/-- The release of a request already visited commutes with the delivery to a later one. -/
theorem deliver_release (hv : v ≠ r) (hq : c.reqs v = some q) (hqs : q.session = some i)
    (hs : c.sess i = some s) (hnext : listNext r (s.requestList.erase v) = listNext r s.requestList) :
    (c.release v).notifyDeliver p tmp i snap r [] now =
      (c.notifyDeliver p tmp i snap r [] now).release v := by
  rw [notifyDeliver_quiet, notifyDeliver_quiet, release_eq hq hqs hs,
    release_eq (by simp [Function.update_noteq hv, hq]) hqs (by simpa using hs)]
  ext1 <;> simp [Function.update_comm hv, Function.update_noteq (Ne.symm hv), requestsOf, hs, hnext]

/-- The end of the walk absorbs a release made before it: it removes the session if the
release emptied its list, as the release does once the walk is over. -/
theorem finish_release (hq : c.reqs v = some q) (hqs : q.session = some i) (hs : c.sess i = some s)
    (hv : v ∈ s.requestList) :
    (c.release v).notifyFinish p tmp i = (c.notifyFinish p tmp i).bfdRequestFree v := by
  have hs' : (c.release v).sess i = some { s with requestList := s.requestList.erase v } := by
    simp [release_eq hq hqs hs]
  -- after the walk, the session is left in place with its list; its request is released
  have hq' : ({ c.setSess i (some { s with notifyRunning := false }) with
      notifier := .walking p tmp } : Broker).reqs v = some q := hq
  have hs'' : ({ c.setSess i (some { s with notifyRunning := false }) with
      notifier := .walking p tmp } : Broker).sess i = some { s with notifyRunning := false } := by simp
  have hD : ({ (c.release v).setSess i
        (some { s with requestList := s.requestList.erase v, notifyRunning := false }) with
        notifier := .walking p tmp } : Broker) =
      ({ c.setSess i (some { s with notifyRunning := false }) with
        notifier := .walking p tmp } : Broker).release v := by
    rw [release_eq hq hqs hs, release_eq hq' hqs hs'']
    ext1 <;> simp
  rw [notifyFinish_eq hs', notifyFinish_eq hs, if_neg (List.ne_nil_of_mem hv),
    requestFree_eq hq' hqs hs'']
  simp only [hD, and_true]

/-! ## The walk -/

theorem delivered_state (snap : BfdState × BfdState × Nat) (q : Request) :
    (q.delivered snap).state = snap.1 := by
  unfold Request.delivered; split_ifs with h
  exacts [h.symm, rfl]

theorem delivered_session (snap : BfdState × BfdState × Nat) (q : Request) :
    (q.delivered snap).session = q.session := by
  unfold Request.delivered; split_ifs <;> rfl

/-- `WALK_LIST_DELSAFE` reads, after request `r`, the request that follows it. -/
theorem listNext_append {r : Nat} {Rs : List Nat} :
    ∀ {V : List Nat}, (V ++ r :: Rs).Nodup → listNext r (V ++ r :: Rs) = Rs.head?
  | [], _ => by cases Rs <;> simp [listNext]
  | x :: V, hnd => by
    have hx : x ≠ r := fun h => (List.nodup_cons.1 hnd).1 (h ▸ by simp)
    obtain ⟨y, l, hyl⟩ : ∃ y l, V ++ r :: Rs = y :: l := by cases V <;> simp
    rw [List.cons_append, hyl, listNext_cons_cons, if_neg hx, ← hyl]
    exact listNext_append (List.nodup_cons.1 hnd).2

/-- The releases of requests of session `i`, in turn, touch only their own records and
session `i`'s list. -/
theorem foldl_release_frame : ∀ (W : List Nat) {c : Broker} {s : SessionNode}, c.sess i = some s →
    W.Nodup → (∀ w ∈ W, ∃ q, c.reqs w = some q ∧ q.session = some i) →
      (W.foldl release c).notifier = c.notifier ∧
      (∀ x, x ∉ W → (W.foldl release c).reqs x = c.reqs x) ∧
      (W.foldl release c).sess i = some { s with requestList := W.foldl List.erase s.requestList }
  | [], _, _, hs, _, _ => ⟨rfl, fun _ _ => rfl, by simpa using hs⟩
  | w :: W, c, s, hs, hnd, hlive => by
    obtain ⟨q, hq, hqs⟩ := hlive w (List.mem_cons_self _ _)
    have hw : w ∉ W := (List.nodup_cons.1 hnd).1
    have hrel := release_eq hq hqs hs
    have hs' : (c.release w).sess i = some { s with requestList := s.requestList.erase w } := by
      simp [hrel]
    obtain ⟨h1, h2, h3⟩ := foldl_release_frame W hs' (List.nodup_cons.1 hnd).2 fun x hx => by
      have hxw : x ≠ w := fun h => hw (h ▸ hx)
      simpa [hrel, Function.update_noteq hxw] using hlive x (List.mem_cons_of_mem _ hx)
    refine ⟨by rw [List.foldl_cons, h1]; simp [hrel], fun x hx => ?_, h3⟩
    have hxw : x ≠ w := fun h => hx (h ▸ List.mem_cons_self _ _)
    rw [List.foldl_cons, h2 x (fun h => hx (List.mem_cons_of_mem _ h)), hrel]
    simp [Function.update_noteq hxw]

/-- The releases made so far commute with the delivery to the next request. -/
theorem deliver_release_foldl {Rs : List Nat} :
    ∀ (W : List Nat) {c : Broker} {s : SessionNode} {V : List Nat}, c.sess i = some s →
      s.requestList = V ++ r :: Rs → s.requestList.Nodup → W ⊆ V → W.Nodup →
      (∀ w ∈ W, ∃ q, c.reqs w = some q ∧ q.session = some i) →
      (W.foldl release c).notifyDeliver p tmp i snap r [] now =
        W.foldl release (c.notifyDeliver p tmp i snap r [] now)
  | [], _, _, _, _, _, _, _, _, _ => rfl
  | w :: W, c, s, V, hs, hl, hnd, hsub, hWn, hlive => by
    obtain ⟨q, hq, hqs⟩ := hlive w (List.mem_cons_self _ _)
    have hwV : w ∈ V := hsub (List.mem_cons_self _ _)
    have hw : w ∉ W := (List.nodup_cons.1 hWn).1
    have hwr : w ≠ r := fun h =>
      (List.nodup_append.1 (hl ▸ hnd)).2.2 (h ▸ hwV) (List.mem_cons_self _ _)
    have hl' : s.requestList.erase w = V.erase w ++ r :: Rs := by
      rw [hl, List.erase_append_left _ hwV]
    have hnd' := hnd.erase w
    have hnext : listNext r (s.requestList.erase w) = listNext r s.requestList := by
      rw [hl', listNext_append (hl' ▸ hnd'), hl, listNext_append (hl ▸ hnd)]
    have hrel := release_eq hq hqs hs
    rw [List.foldl_cons, List.foldl_cons, ← deliver_release hwr hq hqs hs hnext]
    refine deliver_release_foldl W (s := { s with requestList := s.requestList.erase w })
      (by simp [hrel]) hl' hnd' (fun x hx => ?_) (List.nodup_cons.1 hWn).2 fun x hx => ?_
    · have hxw : x ≠ w := fun h => hw (h ▸ hx)
      exact (List.mem_erase_of_ne hxw).2 (hsub (List.mem_cons_of_mem _ hx))
    · have hxw : x ≠ w := fun h => hw (h ▸ hx)
      simpa [hrel, Function.update_noteq hxw] using hlive x (List.mem_cons_of_mem _ hx)

/-- The end of the walk absorbs the releases made during it. -/
theorem finish_release_foldl :
    ∀ (W : List Nat) {c : Broker} {s : SessionNode}, c.sess i = some s → W ⊆ s.requestList →
      W.Nodup → (∀ w ∈ W, ∃ q, c.reqs w = some q ∧ q.session = some i) →
      (W.foldl release c).notifyFinish p tmp i = W.foldl bfdRequestFree (c.notifyFinish p tmp i)
  | [], _, _, _, _, _, _ => rfl
  | w :: W, c, s, hs, hsub, hWn, hlive => by
    obtain ⟨q, hq, hqs⟩ := hlive w (List.mem_cons_self _ _)
    have hw : w ∉ W := (List.nodup_cons.1 hWn).1
    have hrel := release_eq hq hqs hs
    rw [List.foldl_cons, List.foldl_cons, ← finish_release hq hqs hs (hsub (List.mem_cons_self _ _))]
    refine finish_release_foldl W (s := { s with requestList := s.requestList.erase w })
      (by simp [hrel]) (fun x hx => ?_) (List.nodup_cons.1 hWn).2 fun x hx => ?_
    · have hxw : x ≠ w := fun h => hw (h ▸ hx)
      exact (List.mem_erase_of_ne hxw).2 (hsub (List.mem_cons_of_mem _ hx))
    · have hxw : x ≠ w := fun h => hw (h ▸ hx)
      simpa [hrel, Function.update_noteq hxw] using hlive x (List.mem_cons_of_mem _ hx)

/-- The walk of session `i` with hooks that make no calls: every request still to be reached
gets the snapshot, and the cursor runs out. -/
theorem run_quiet (now : ℕ+) : ∀ (Rs : List Nat) {c : Broker} {V : List Nat},
    c.notifier = .dispatching p tmp i snap Rs.head? → c.sess i = some s →
      s.requestList = V ++ Rs → s.requestList.Nodup →
      (c.run (Rs.map fun _ => .deliver [] now)).sess = c.sess ∧
      (c.run (Rs.map fun _ => .deliver [] now)).notifier = .dispatching p tmp i snap none ∧
      ∀ x, (c.run (Rs.map fun _ => .deliver [] now)).reqs x =
        if x ∈ Rs then (c.reqs x).map (Request.delivered snap) else c.reqs x
  | [], _, _, hn, _, _, _ => ⟨rfl, hn, fun x => by simp [Broker.run]⟩
  | r :: Rs, c, V, hn, hs, hl, hnd => by
    have hr : r ∉ Rs := (List.nodup_cons.1 (List.nodup_append.1 (hl ▸ hnd)).2.1).1
    have hnext : listNext r (c.requestsOf i) = Rs.head? := by
      rw [requestsOf_eq hs, hl, listNext_append (hl ▸ hnd)]
    obtain ⟨h1, h2, h3⟩ := run_quiet now Rs (c := c.notifyDeliver p tmp i snap r [] now) (V := V ++ [r])
      (by rw [notifyDeliver_quiet, hnext]; rfl) (by rw [notifyDeliver_quiet]; exact hs)
      (by simp [hl]) hnd
    rw [List.map_cons, run_cons, step_deliver hn]
    refine ⟨h1.trans (by rw [notifyDeliver_quiet]; rfl), h2, fun x => ?_⟩
    rw [h3 x, notifyDeliver_quiet]
    by_cases hx : x = r
    · subst hx; simp [hr]
    · simp [hx, Function.update_noteq hx]

/-- The walk of session `i` when the hooks of the requests `R` release their own request is
the walk with hooks that make no calls, followed by those releases in the order of the list. -/
theorem run_releasing (R : List Nat) (now : ℕ+) : ∀ (Rs : List Nat) {c : Broker} {V W : List Nat},
    c.notifier = .dispatching p tmp i snap Rs.head? → c.sess i = some s →
      s.requestList = V ++ Rs → s.requestList.Nodup → s.notifyRunning = true → W ⊆ V → W.Nodup →
      (∀ x ∈ s.requestList, ∃ q, c.reqs x = some q ∧ q.session = some i) →
      (∀ x ∈ Rs, x ∈ R → ∀ q, c.reqs x = some q → snap.1 ≠ q.state) →
      (W.foldl release c).run (Rs.map fun x => .deliver (releasing R x) now) =
        (W ++ Rs.filter (· ∈ R)).foldl release (c.run (Rs.map fun _ => .deliver [] now))
  | [], _, _, _, _, _, _, _, _, _, _, _, _ => by simp [Broker.run]
  | r :: Rs, c, V, W, hn, hs, hl, hnd, hrun, hsub, hWn, hlive, hdiff => by
    have hl' : s.requestList = V ++ r :: Rs := hl
    have hrV : r ∉ V := fun h => (List.nodup_append.1 (hl ▸ hnd)).2.2 h (List.mem_cons_self _ _)
    have hr : r ∉ Rs := (List.nodup_cons.1 (List.nodup_append.1 (hl ▸ hnd)).2.1).1
    have hrW : r ∉ W := fun h => hrV (hsub h)
    have hWlive : ∀ w ∈ W, ∃ q, c.reqs w = some q ∧ q.session = some i := fun w hw =>
      hlive w (hl ▸ List.mem_append_left _ (hsub hw))
    obtain ⟨hfn, hfr, hfs⟩ := foldl_release_frame W hs hWn hWlive
    have hnext : listNext r (c.requestsOf i) = Rs.head? := by
      rw [requestsOf_eq hs, hl, listNext_append (hl ▸ hnd)]
    -- the delivery to `r`, with the releases so far moved after it
    have hstepA : (W.foldl release c).step (.deliver (releasing R r) now) =
        (W ++ if r ∈ R then [r] else []).foldl release (c.notifyDeliver p tmp i snap r [] now) := by
      rw [step_deliver (hfn.trans hn)]
      by_cases hR : r ∈ R
      · obtain ⟨q, hq, hqs⟩ := hlive r (by rw [hl]; simp)
        simp only [releasing, if_pos hR, List.foldl_append, List.foldl_cons, List.foldl_nil]
        rw [deliver_free (by rw [hfr r hrW, hq]) (hdiff r (List.mem_cons_self _ _) hR q hq) hqs hfs
            hrun, deliver_release_foldl W hs hl' hnd hsub hWn hWlive]
      · simp only [releasing, if_neg hR, List.append_nil]
        exact deliver_release_foldl W hs hl' hnd hsub hWn hWlive
    have hc1 : ∀ x, (c.notifyDeliver p tmp i snap r [] now).reqs x =
        if x = r then (c.reqs r).map (Request.delivered snap) else c.reqs x := fun x => by
      rw [notifyDeliver_quiet]; by_cases hx : x = r <;> simp [hx, Function.update_noteq]
    have ih := run_releasing R now Rs (c := c.notifyDeliver p tmp i snap r [] now) (V := V ++ [r])
      (W := W ++ if r ∈ R then [r] else [])
      (by rw [notifyDeliver_quiet, hnext]; rfl) (by rw [notifyDeliver_quiet]; exact hs)
      (by simp [hl]) hnd hrun
      (List.append_subset.2 ⟨hsub.trans (List.subset_append_left _ _), by split_ifs <;> simp⟩)
      (by split_ifs <;> simp [List.nodup_append, hWn, hrW])
      (fun x hx => by
        obtain ⟨q, hq, hqs⟩ := hlive x hx
        by_cases hxr : x = r
        · subst hxr; exact ⟨q.delivered snap, by simp [hc1, hq], by rw [delivered_session, hqs]⟩
        · exact ⟨q, by rw [hc1, if_neg hxr, hq], hqs⟩)
      (fun x hx hxR q hq => by
        have hxr : x ≠ r := fun h => hr (h ▸ hx)
        rw [hc1, if_neg hxr] at hq
        exact hdiff x (List.mem_cons_of_mem _ hx) hxR q hq)
    rw [List.map_cons, run_cons, hstepA, ih, List.map_cons, run_cons, step_deliver hn, List.filter_cons]
    by_cases hR : r ∈ R <;> simp [hR]

@[simp] theorem notifyFinish_reqs (c : Broker) (p : Nat) (tmp : List Nat) (i : Nat) :
    (c.notifyFinish p tmp i).reqs = c.reqs := by
  unfold notifyFinish; split
  · dsimp only; split_ifs <;> simp
  · rfl

/-! ## The dispatch of a session -/

/-- The requests of a session of a reachable broker are live, point to it, and are listed
once. -/
theorem Inv.attached {b : Broker} {ex : Nat → Nat → Prop} (h : Inv b ex) {sn : SessionNode}
    (hs : b.sess i = some sn) : sn.requestList.Nodup ∧
      ∀ x ∈ sn.requestList, ∃ q, b.reqs x = some q ∧ q.session = some i := by
  refine ⟨by simpa [requestsOf_eq hs] using h.core.lists.nodup (some i), fun x hx => ?_⟩
  have := (h.core.lists.mem_iff (some i) x).1 (by simpa [requestsOf_eq hs] using hx)
  simpa [ptr] using this

/-- `WALK_LIST_FIRST` unlinks the session, marks it walked and reads its state. -/
theorem step_pick {b : Broker} {sn : SessionNode} (hw : b.notifier = .walking p (i :: tmp))
    (hs : b.sess i = some sn) :
    b.step .pick =
      { b.setSess i (some { sn with
          core := { sn.core with linked := false }, notifyRunning := true }) with
        notifier := .dispatching p tmp i (sn.core.locState, sn.core.remState, sn.core.locDiag)
          sn.requestList.head? } := by
  simp [Broker.step, hw, notifyPick, hs]

theorem run_dispatch (b : Broker) (plan : Nat → List HookAct) (l : List Nat) (now : ℕ+) :
    b.run (dispatchActions plan l now) =
      ((b.step .pick).run (l.map fun r => .deliver (plan r) now)).step .finish := by
  rw [dispatchActions, run_append, run_cons]; rfl

/-- The releases leave a list empty exactly when they release all of it. -/
theorem foldl_erase_eq_nil {l : List Nat} (hnd : l.Nodup) (R : List Nat) :
    (l.filter (· ∈ R)).foldl List.erase l = [] ↔ ∀ r ∈ l, r ∈ R := by
  rw [← List.diff_eq_foldl, hnd.diff_eq_filter, List.filter_eq_nil_iff]
  exact forall₂_congr fun r hr => by simp [hr]

/-- A hook that releases its own request during the callback has the effect of releasing it
right after the dispatch of the session, in the same order: the brokers are equal. Every
request attached when the dispatch began that is not released has the session's state, and
the session is removed exactly when all its requests were released. -/
theorem self_release_deferred {b : Broker} {p i : Nat} {tmp : List Nat} {sn : SessionNode}
    (hb : b.Reachable) (hw : b.notifier = .walking p (i :: tmp)) (hs : b.sess i = some sn)
    (R : List Nat)
    (hR : ∀ r ∈ sn.requestList, r ∈ R → (b.reqs r).all fun q => q.state ≠ sn.core.locState)
    (now : ℕ+) :
    b.run (dispatchActions (releasing R) sn.requestList now) =
        (sn.requestList.filter (· ∈ R)).foldl bfdRequestFree
          (b.run (dispatchActions quietHooks sn.requestList now)) ∧
      (∀ r ∈ sn.requestList, r ∉ R → ∃ q,
        (b.run (dispatchActions (releasing R) sn.requestList now)).reqs r = some q ∧
          q.state = sn.core.locState) ∧
      ((b.run (dispatchActions (releasing R) sn.requestList now)).sess i = none ↔
        ∀ r ∈ sn.requestList, r ∈ R) := by
  obtain ⟨hnd, hlive⟩ := hb.inv.attached hs
  have hpick := step_pick hw hs
  have hs1 : (b.step .pick).sess i = some { sn with
      core := { sn.core with linked := false }, notifyRunning := true } := by rw [hpick]; simp
  -- the walk with hooks that make no calls, and the releases the hooks made during it
  obtain ⟨hsB, hnB, hrB⟩ := run_quiet now sn.requestList (c := b.step .pick) (V := [])
    (by rw [hpick]) hs1 (by simp) hnd
  have hA := run_releasing R now sn.requestList (c := b.step .pick) (V := []) (W := [])
    (by rw [hpick]) hs1 (by simp) hnd rfl (List.nil_subset _) List.nodup_nil
    (fun x hx => by rw [hpick]; exact hlive x hx)
    (fun x hx hxR q hq => by
      have h' := hR x hx hxR
      rw [hpick] at hq
      rw [show b.reqs x = some q from hq] at h'
      exact Ne.symm (by simpa using h'))
  simp only [List.foldl_nil, List.nil_append] at hA
  have hVRsub : sn.requestList.filter (· ∈ R) ⊆ sn.requestList := List.filter_subset' _
  have hliveB : ∀ w ∈ sn.requestList.filter (· ∈ R), ∃ q,
      (((b.step .pick).run (sn.requestList.map fun _ => .deliver [] now))).reqs w = some q ∧
        q.session = some i := fun w hw' => by
    obtain ⟨q, hq, hqs⟩ := hlive w (hVRsub hw')
    exact ⟨q.delivered (sn.core.locState, sn.core.remState, sn.core.locDiag),
      by rw [hrB, if_pos (hVRsub hw'), hpick]; simp [hq], by rw [delivered_session, hqs]⟩
  have hsB' := (congrFun hsB i).trans hs1
  obtain ⟨hfn, hfr, hfs⟩ := foldl_release_frame _ hsB' (hnd.filter _) hliveB
  -- the dispatch with the releasing hooks ends with the releases absorbed by the end of the walk
  have hA' : b.run (dispatchActions (releasing R) sn.requestList now) =
      ((sn.requestList.filter (· ∈ R)).foldl release
        ((b.step .pick).run (sn.requestList.map fun _ => .deliver [] now))).notifyFinish p tmp i := by
    rw [run_dispatch, hA]; exact step_finish (hfn.trans hnB)
  refine ⟨?_, fun r hr hrR => ?_, ?_⟩
  · rw [hA', run_dispatch, show quietHooks = fun _ => [] from rfl, step_finish hnB]
    exact finish_release_foldl _ hsB' hVRsub (hnd.filter _) hliveB
  · obtain ⟨q, hq, -⟩ := hlive r hr
    refine ⟨q.delivered (sn.core.locState, sn.core.remState, sn.core.locDiag), ?_,
      delivered_state _ _⟩
    rw [hA', notifyFinish_reqs, hfr r (by simp [hrR]), hrB, if_pos hr, hpick]
    simp [hq]
  · rw [hA', notifyFinish_eq hfs]
    split_ifs with he
    · rw [removeSession_sess (Function.update_same _ _ _), Function.update_same]
      exact iff_of_true rfl ((foldl_erase_eq_nil hnd R).1 he)
    · exact iff_of_false (by simp) fun h' => he ((foldl_erase_eq_nil hnd R).2 h')

/-- Engine 0 attaches three requests to session 2 for address 7; a packet takes the session
to Init and the notifier takes it up. -/
def releaseRun : List Action :=
  [.start openConfig quietHooks 1, .request 7 0 none none {} 1, .request 7 0 none none {} 1,
    .request 7 0 none none {} 1, .thread 0 2 10 (.rx (examplePacket .down 0)), .kick 0, .drain 0,
    .splice]

/-- Session 2 as the notifier finds it. -/
def releaseSession : SessionNode := ((init.run releaseRun).sess 2).get (by decide)

/-- The hooks of the first and the last of its three requests release them. -/
theorem self_release_deferred_first_last :
    (init.run releaseRun).Reachable ∧ (init.run releaseRun).notifier = .walking 0 [2] ∧
    (init.run releaseRun).sess 2 = some releaseSession ∧
    (∀ r ∈ releaseSession.requestList, r ∈ [1, 4] →
      ((init.run releaseRun).reqs r).all fun q => q.state ≠ releaseSession.core.locState) ∧
    ((init.run releaseRun).run (dispatchActions (releasing [1, 4]) releaseSession.requestList 20) =
        (releaseSession.requestList.filter (· ∈ [1, 4])).foldl bfdRequestFree
          ((init.run releaseRun).run (dispatchActions quietHooks releaseSession.requestList 20)) ∧
      (∀ r ∈ releaseSession.requestList, r ∉ [1, 4] → ∃ q,
        ((init.run releaseRun).run
          (dispatchActions (releasing [1, 4]) releaseSession.requestList 20)).reqs r = some q ∧
          q.state = releaseSession.core.locState) ∧
      (((init.run releaseRun).run
          (dispatchActions (releasing [1, 4]) releaseSession.requestList 20)).sess 2 = none ↔
        ∀ r ∈ releaseSession.requestList, r ∈ [1, 4])) := by
  have hw : (init.run releaseRun).notifier = .walking 0 [2] := by decide
  have hs : (init.run releaseRun).sess 2 = some releaseSession := (Option.some_get _).symm
  have hR : ∀ r ∈ releaseSession.requestList, r ∈ [1, 4] →
      ((init.run releaseRun).reqs r).all fun q => q.state ≠ releaseSession.core.locState := by
    decide
  exact ⟨⟨_, rfl⟩, hw, hs, hR, self_release_deferred ⟨_, rfl⟩ hw hs [1, 4] hR 20⟩

end Broker

end Bfd
