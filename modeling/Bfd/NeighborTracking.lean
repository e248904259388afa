import Bfd.Neighbors

/-! # What the neighbour cache's entries say

The invariant the neighbour code keeps, and what each of its functions does to it. A neighbour
holds what the cache says (`Holds`): one not started holds nothing; a started one owns no entry
if it is multihop, and holds a request exactly when it is multihop or owns an entry whose scope
is positive. Each entry's `data` names a neighbour, the one that owns the entry (`Tracks`).
`bfd_start_neighbor`, `bfd_neigh_notify` and `bfd_stop_neighbor` each rewrite one neighbour and
at most one entry; their spec lemmas say how, and the `Tracks` lemmas that each keeps the
invariant for the neighbours a walk has not yet visited. -/

namespace Bfd

/-- The cache once entry `nb`'s scope is positive or not. -/
def NeighCache.setUp (c : NeighCache) (nb : Nat) (up : Bool) : NeighCache :=
  { c with up := Function.update c.up nb up }

/-- A neighbour of the running configuration. -/
def NRef.IsOld : NRef → Prop
  | .old _ => True
  | .new _ => False

/-- A neighbour of the configuration being installed. -/
def NRef.IsNew : NRef → Prop
  | .old _ => False
  | .new _ => True

namespace NState

/-! ## The invariant -/

/-- The cache entry neighbour `r` owns. -/
def neighOf (st : NState) (r : NRef) : Option Nat := (st.get r).bind BfdNeighbor.neigh

/-- What a neighbour holds while the cache is `c`. One not started holds nothing. A started one
owns no cache entry if it is multihop, and holds a request exactly when it is multihop or owns
an entry whose scope is positive. -/
def Holds (c : NeighCache) (n : BfdNeighbor) : Prop :=
  if n.active then
    (n.multihop = true → n.neigh = none) ∧ n.req.isSome = (n.multihop || n.neigh.any c.up)
  else n.neigh = none ∧ n.req = none

/-- The neighbours `live` picks hold what the cache `c` says, every cache entry's `data` names
one of them, and it names the one that owns the entry. -/
structure Tracks (c : NeighCache) (st : NState) (live : NRef → Prop) : Prop where
  holds : ∀ r n, live r → st.get r = some n → Holds c n
  names : ∀ nb r, st.data nb = some r → live r
  back : ∀ nb r, live r → (st.data nb = some r ↔ st.neighOf r = some nb)

/-- The running neighbours: all started, tracking the cache, and holding, with the released
ones, every request made exactly once. -/
structure Running (c : NeighCache) (st : NState) : Prop where
  tracks : Tracks c st NRef.IsOld
  active : ∀ n ∈ st.old, n.active = true
  ledger : (heldReqs st.old ++ st.freed).Perm (List.range st.made.length)

/-! ## Rewriting one neighbour -/

variable {st : NState} {r : NRef} {n : BfdNeighbor}

theorem get_modify (st : NState) (r : NRef) (f : BfdNeighbor → BfdNeighbor) (r' : NRef) :
    (st.modify r f).get r' = if r' = r then (st.get r').map f else st.get r' := by
  cases r <;> cases r' <;> simp only [get, modify, List.getElem?_modify, NRef.old.injEq,
    NRef.new.injEq, reduceCtorEq, if_false] <;> split_ifs <;> simp_all

@[simp] theorem setData_get (nb : Nat) (v : Option NRef) (r : NRef) :
    (st.setData nb v).get r = st.get r := by cases r <;> rfl

@[simp] theorem requestSession_get (a l : Nat) (i : Option Nat) (r : NRef) :
    (st.requestSession a l i).1.get r = st.get r := by cases r <;> rfl

@[simp] theorem rfree_get (q : Option Nat) (r : NRef) : (st.rfree q).get r = st.get r := by
  cases r <;> rfl

@[simp] theorem rfree_data (q : Option Nat) : (st.rfree q).data = st.data := rfl

/-- The lists after a turn that rewrote neighbour `r` as `n1` and nothing else. -/
theorem lists_of_get {st' : NState} (hr : st.get r = some n) {n1 : BfdNeighbor}
    (h : ∀ r', st'.get r' = if r' = r then some n1 else st.get r') :
    st'.old = (st.modify r fun _ => n1).old ∧ st'.new = (st.modify r fun _ => n1).new := by
  have key : ∀ r', st'.get r' = (st.modify r fun _ => n1).get r' := fun r' => by
    rw [h, get_modify]; split_ifs with hi
    · subst hi; simp [hr]
    · rfl
  exact ⟨List.ext_getElem? fun i => key (.old i), List.ext_getElem? fun i => key (.new i)⟩

/-- `bfd_start_neighbor` on a neighbour that holds nothing: it becomes a started neighbour `n1`
holding what the cache says, and either keeps owning no entry or takes entry `nb`, which no
neighbour owned; a request is made for it, or none. -/
theorem startNeighbor_spec (c : NeighCache) (hr : st.get r = some n) (hq : n.req = none)
    (hn : n.neigh = none) :
    ∃ n1, (∀ r', (st.bfdStartNeighbor c r).get r' = if r' = r then some n1 else st.get r') ∧
      n1.toNeighborConfig = n.toNeighborConfig ∧ n1.active = true ∧ Holds c n1 ∧
      (st.bfdStartNeighbor c r).freed = st.freed ∧
      ((n1.neigh = none ∧ (st.bfdStartNeighbor c r).data = st.data) ∨
        ∃ nb, st.data nb = none ∧ n1.neigh = some nb ∧
          (st.bfdStartNeighbor c r).data = Function.update st.data nb (some r)) ∧
      ((n1.req = none ∧ (st.bfdStartNeighbor c r).made = st.made) ∨
        (n1.req = some st.made.length ∧
          (st.bfdStartNeighbor c r).made.length = st.made.length + 1)) := by
  generalize e : st.bfdStartNeighbor c r = st'
  unfold bfdStartNeighbor at e
  simp only [hr] at e
  split at e
  · next hm =>
    subst e
    refine ⟨{ n with active := true, req := some st.made.length }, fun r' => ?_, rfl, rfl,
      by simp [Holds, hm, hn], by simp, .inl ⟨hn, by simp⟩, .inr ⟨rfl, by simp⟩⟩
    simp only [get_modify, requestSession_get]; split_ifs with h <;> simp [h, hr]
  · next hm =>
    have keep : ∀ st' : NState, st' = st.modify r (fun n => { n with active := true }) →
        ∃ n1, (∀ r', st'.get r' = if r' = r then some n1 else st.get r') ∧
          n1.toNeighborConfig = n.toNeighborConfig ∧ n1.active = true ∧ Holds c n1 ∧
          st'.freed = st.freed ∧ ((n1.neigh = none ∧ st'.data = st.data) ∨
            ∃ nb, st.data nb = none ∧ n1.neigh = some nb ∧
              st'.data = Function.update st.data nb (some r)) ∧
          ((n1.req = none ∧ st'.made = st.made) ∨
            (n1.req = some st.made.length ∧ st'.made.length = st.made.length + 1)) := by
      rintro _ rfl
      refine ⟨{ n with active := true }, fun r' => ?_, rfl, rfl, by simp [Holds, hm, hn, hq],
        by simp, .inl ⟨hn, by simp⟩, .inl ⟨hq, by simp⟩⟩
      simp only [get_modify]; split_ifs with h <;> simp [h, hr]
    split at e
    · exact keep _ e.symm
    · next nb _ =>
      split at e
      · exact keep _ e.symm
      · next hd =>
        have hd' : st.data nb = none := by simpa using hd
        split at e <;> subst e
        · next hu =>
          simp only [bfdNeighNotify, setData_data, Function.update_same, setData_get, get_modify,
            if_true, Option.map_some', hr, hu, hq]
          refine ⟨{ n with active := true, neigh := some nb, req := some st.made.length },
            fun r' => ?_, rfl, rfl, by simp [Holds, hm, hu], by simp,
            .inr ⟨nb, hd', rfl, by simp⟩, .inr ⟨rfl, by simp⟩⟩
          simp only [get_modify, requestSession_get, setData_get]
          split_ifs with h <;> simp [h, hr]
        · next hu =>
          refine ⟨{ n with active := true, neigh := some nb }, fun r' => ?_, rfl, rfl,
            by simp [Holds, hm, hu, hq], by simp, .inr ⟨nb, hd', rfl, by simp⟩,
            .inl ⟨hq, by simp⟩⟩
          simp only [get_modify, setData_get]; split_ifs with h <;> simp [h, hr]

theorem neighOf_of_get {st' : NState} {n1 : BfdNeighbor}
    (h : ∀ r', st'.get r' = if r' = r then some n1 else st.get r') (r' : NRef) :
    st'.neighOf r' = if r' = r then n1.neigh else st.neighOf r' := by
  simp only [neighOf, h]; split_ifs <;> rfl

theorem Tracks.neigh_of_get (h : Tracks c st live) (hl : live r) (hr : st.get r = some n) :
    ∀ nb, st.data nb = some r ↔ n.neigh = some nb := fun nb => by
  rw [h.back nb r hl, neighOf, hr]; rfl

section Rewrite
variable {c c' : NeighCache} {live : NRef → Prop} {st' : NState} {n1 : BfdNeighbor}

/-- Rewriting a neighbour that keeps the entry it owns, while the cache may change at entries
that no other neighbour owns. -/
theorem Tracks.rewrite_keep (h : Tracks c st live) (hr : st.get r = some n)
    (hget : ∀ r', st'.get r' = if r' = r then some n1 else st.get r') (hn : n1.neigh = n.neigh)
    (hdata : st'.data = st.data) (hH : live r → Holds c' n1)
    (hother : ∀ r' m, live r' → r' ≠ r → st.get r' = some m → Holds c m → Holds c' m) :
    Tracks c' st' live := by
  refine ⟨fun r' m hl hm => ?_, fun nb r' hd => h.names nb r' (hdata ▸ hd), fun nb r' hl => ?_⟩
  · rw [hget] at hm; split_ifs at hm with hr'
    · cases hm; exact hH (hr' ▸ hl)
    · exact hother r' m hl hr' hm (h.holds r' m hl hm)
  · rw [hdata, h.back nb r' hl, neighOf_of_get hget]; split_ifs with hr'
    · subst hr'; rw [neighOf, hr, hn]; rfl
    · rfl

/-- Rewriting a neighbour that owned no entry so that it takes entry `nb`, which no neighbour
owned. -/
theorem Tracks.rewrite_take (h : Tracks c st live) (hl : live r) (hr : st.get r = some n)
    (hget : ∀ r', st'.get r' = if r' = r then some n1 else st.get r') (hn : n.neigh = none)
    {nb : Nat} (hfree : st.data nb = none) (hn1 : n1.neigh = some nb)
    (hdata : st'.data = Function.update st.data nb (some r)) (hH : Holds c n1) :
    Tracks c st' live := by
  have hown := h.neigh_of_get hl hr
  refine ⟨fun r' m hl' hm => ?_, fun nb' r' hd => ?_, fun nb' r' hl' => ?_⟩
  · rw [hget] at hm; split_ifs at hm with hr'
    · cases hm; exact hH
    · exact h.holds r' m hl' hm
  · rw [hdata] at hd
    by_cases e : nb' = nb
    · subst e; rw [Function.update_same] at hd; cases hd; exact hl
    · rw [Function.update_noteq e] at hd; exact h.names nb' r' hd
  · rw [hdata, neighOf_of_get hget]
    by_cases e : nb' = nb
    · subst e; rw [Function.update_same]; split_ifs with hr'
      · subst hr'; simp [hn1]
      · rw [← h.back nb' r' hl', hfree]; simp [Ne.symm hr']
    · rw [Function.update_noteq e]; split_ifs with hr'
      · subst hr'; rw [hown, hn, hn1]; simp [Ne.symm e]
      · exact h.back nb' r' hl'

end Rewrite

/-- Starting a neighbour that was not started keeps the tracking. -/
theorem Tracks.start {c : NeighCache} {live : NRef → Prop} (h : Tracks c st live) (hl : live r)
    (hr : st.get r = some n) (ha : n.active = false) : Tracks c (st.bfdStartNeighbor c r) live := by
  have hH := h.holds r n hl hr
  simp only [Holds, ha, if_false, Bool.false_eq_true] at hH
  obtain ⟨n1, hget, -, -, hH1, -, hdata, -⟩ := startNeighbor_spec c hr hH.2 hH.1
  rcases hdata with ⟨hn1, hd⟩ | ⟨nb, hfree, hn1, hd⟩
  · exact h.rewrite_keep hr hget (hn1.trans hH.1.symm) hd (fun _ => hH1) fun _ _ _ _ _ => id
  · exact h.rewrite_take hl hr hget hH.1 hfree hn1 hd hH1

/-- `bfd_neigh_notify` for entry `nb`, owned by neighbour `r`: the neighbour makes a request if
the scope is positive and it has none, and releases its request if the scope is not positive;
it holds a request afterwards exactly when the scope is positive. -/
theorem neighNotify_spec (c : NeighCache) {nb : Nat} (hd : st.data nb = some r)
    (hr : st.get r = some n) :
    ∃ n1, (∀ r', (st.bfdNeighNotify c nb).get r' = if r' = r then some n1 else st.get r') ∧
      n1.toNeighborConfig = n.toNeighborConfig ∧ n1.active = n.active ∧ n1.neigh = n.neigh ∧
      (st.bfdNeighNotify c nb).data = st.data ∧ n1.req.isSome = c.up nb ∧
      ((n1.req = n.req ∧ (st.bfdNeighNotify c nb).made = st.made ∧
          (st.bfdNeighNotify c nb).freed = st.freed) ∨
        (n.req = none ∧ n1.req = some st.made.length ∧
          (st.bfdNeighNotify c nb).made.length = st.made.length + 1 ∧
          (st.bfdNeighNotify c nb).freed = st.freed) ∨
        ∃ q, n.req = some q ∧ n1.req = none ∧ (st.bfdNeighNotify c nb).made = st.made ∧
          (st.bfdNeighNotify c nb).freed = st.freed ++ [q]) := by
  have same : ∀ r', st.get r' = if r' = r then some n else st.get r' := fun r' => by
    split_ifs with h; exacts [h ▸ hr, rfl]
  generalize e : st.bfdNeighNotify c nb = st'
  unfold bfdNeighNotify at e
  simp only [hd, hr] at e
  split at e
  · next hu =>
    split at e <;> subst e
    · next hq =>
      refine ⟨{ n with req := some st.made.length }, fun r' => ?_, rfl, rfl, rfl, by simp,
        by simp [hu], .inr (.inl ⟨hq, rfl, by simp, by simp⟩)⟩
      simp only [get_modify, requestSession_get]; split_ifs with h <;> simp [h, hr]
    · next hq =>
      obtain ⟨q, hq'⟩ := Option.ne_none_iff_exists'.1 hq
      exact ⟨n, same, rfl, rfl, rfl, rfl, by simp [hq', hu], .inl ⟨rfl, rfl, rfl⟩⟩
  · next hu =>
    split at e <;> subst e
    · next q hq =>
      refine ⟨{ n with req := none }, fun r' => ?_, rfl, rfl, rfl, by simp, by simp [hu],
        .inr (.inr ⟨q, hq, rfl, by simp, by simp⟩)⟩
      simp only [get_modify, rfree_get]; split_ifs with h <;> simp [h, hr]
    · next hq => exact ⟨n, same, rfl, rfl, rfl, rfl, by simp [hq, hu], .inl ⟨rfl, rfl, rfl⟩⟩

theorem holds_setUp {c : NeighCache} {m : BfdNeighbor} {nb : Nat} (hm : m.neigh ≠ some nb)
    (b : Bool) : Holds (c.setUp nb b) m ↔ Holds c m := by
  have : m.neigh.any (c.setUp nb b).up = m.neigh.any c.up := by
    cases e : m.neigh with
    | none => rfl
    | some x => simp [NeighCache.setUp, Function.update_noteq (show x ≠ nb by rintro rfl; exact hm e)]
  simp only [Holds, this]

/-- A change of the scope of an entry no neighbour owns keeps the tracking. -/
theorem Tracks.setUp_of_free {c : NeighCache} {live : NRef → Prop} (h : Tracks c st live)
    {nb : Nat} (hd : st.data nb = none) (b : Bool) : Tracks (c.setUp nb b) st live :=
  ⟨fun r m hl hm => (holds_setUp (fun e => by simp [(h.neigh_of_get hl hm nb).2 e] at hd) b).2
    (h.holds r m hl hm), h.names, h.back⟩

/-- A change of entry `nb`'s scope, and the `bfd_neigh_notify` that follows, keep the tracking. -/
theorem Tracks.notify {c : NeighCache} {live : NRef → Prop} (h : Tracks c st live) (nb : Nat)
    (b : Bool) : Tracks (c.setUp nb b) (st.bfdNeighNotify (c.setUp nb b) nb) live := by
  cases hd : st.data nb with
  | none =>
    have : st.bfdNeighNotify (c.setUp nb b) nb = st := by simp [bfdNeighNotify, hd]
    rw [this]; exact h.setUp_of_free hd b
  | some r =>
    have hl := h.names nb r hd
    obtain ⟨n, hr, hn⟩ : ∃ n, st.get r = some n ∧ n.neigh = some nb := by
      have := (h.back nb r hl).1 hd
      simp only [neighOf, Option.bind_eq_some] at this; exact this
    obtain ⟨n1, hget, hcf, hact, hneigh, hdata, hreq, -⟩ := neighNotify_spec (c.setUp nb b) hd hr
    refine h.rewrite_keep hr hget hneigh hdata (fun _ => ?_) fun r' m hl' hne hm hH =>
      (holds_setUp (fun e => hne (Option.some.inj
        (((h.neigh_of_get hl' hm nb).2 e).symm.trans hd))) b).2 hH
    have hH := h.holds r n hl hr
    have hm : n.multihop = false := by
      cases e : n.multihop
      · rfl
      · simp only [Holds] at hH; split_ifs at hH <;> simp_all
    have ha : n.active = true := by
      cases e : n.active
      · simp [Holds, e, hn] at hH
      · rfl
    have hm1 : n1.multihop = false := by rw [← hm]; exact congrArg NeighborConfig.multihop hcf
    simp [Holds, hact, ha, hm1, hreq, hneigh, hn]

theorem Tracks.congr_live {c : NeighCache} {live live' : NRef → Prop} (h : Tracks c st live)
    (e : ∀ r, live' r ↔ live r) : Tracks c st live' :=
  ⟨fun r n hl => h.holds r n ((e r).1 hl), fun nb r hd => (e r).2 (h.names nb r hd),
    fun nb r hl => h.back nb r ((e r).1 hl)⟩

section Retire
variable {c : NeighCache} {live : NRef → Prop} {st' : NState} {n1 : BfdNeighbor} {r₀ : NRef}

/-- Rewriting neighbour `r₀` and clearing the entry it owned: the others track as before. -/
theorem Tracks.rewrite_drop (h : Tracks c st live)
    (hget : ∀ r', st'.get r' = if r' = r₀ then some n1 else st.get r')
    (hdata : ∀ nb, st'.data nb = if st.data nb = some r₀ then none else st.data nb) :
    Tracks c st' fun r' => live r' ∧ r' ≠ r₀ := by
  refine ⟨fun r' m hl hm => ?_, fun nb r' hd => ?_, fun nb r' hl => ?_⟩
  · rw [hget, if_neg hl.2] at hm; exact h.holds r' m hl.1 hm
  · rw [hdata] at hd; split_ifs at hd with e
    exact ⟨h.names nb r' hd, fun e' => e (e' ▸ hd)⟩
  · rw [hdata, neighOf_of_get hget, if_neg hl.2, ← h.back nb r' hl.1]
    split_ifs with e
    · simp only [reduceCtorEq, false_iff]; intro e'; exact hl.2 (Option.some.inj (e'.symm.trans e))
    · rfl

/-- Rewriting the neighbour `r`, which owned nothing, so that it owns what `r₀` owned, the
entry naming `r₀` now naming `r`: `r₀` drops out. -/
theorem Tracks.rewrite_transfer (h : Tracks c st live) (hl : live r) (hr : st.get r = some n)
    (hn : n.neigh = none) {o : BfdNeighbor} (hne : r ≠ r₀) (hl₀ : live r₀)
    (hr₀ : st.get r₀ = some o)
    (hget : ∀ r', st'.get r' = if r' = r then some n1 else st.get r') (hn1 : n1.neigh = o.neigh)
    (hdata : ∀ nb, st'.data nb = if st.data nb = some r₀ then some r else st.data nb)
    (hH : Holds c n1) : Tracks c st' fun r' => live r' ∧ r' ≠ r₀ := by
  refine ⟨fun r' m hl' hm => ?_, fun nb r' hd => ?_, fun nb r' hl' => ?_⟩
  · rw [hget] at hm; split_ifs at hm with e
    · cases hm; exact hH
    · exact h.holds r' m hl'.1 hm
  · rw [hdata] at hd; split_ifs at hd with e
    · cases hd; exact ⟨hl, hne⟩
    · exact ⟨h.names nb r' hd, fun e' => e (e' ▸ hd)⟩
  · rw [hdata, neighOf_of_get hget]
    split_ifs with e₁ e₂ e₂
    · subst e₂; simp only [true_iff, hn1]; exact (h.neigh_of_get hl₀ hr₀ nb).1 e₁
    · simp only [Option.some.injEq, Ne.symm e₂, false_iff]
      intro e'; exact hl'.2 (Option.some.inj (((h.back nb r' hl'.1).2 e').symm.trans e₁))
    · subst e₂; rw [hn1, ← h.neigh_of_get hl₀ hr₀ nb, h.neigh_of_get hl hr nb, hn]
      simp [e₁]
    · exact h.back nb r' hl'.1

end Retire

/-- `bfd_stop_neighbor` on neighbour `r`: it gives up its entry and its request, which is
released. -/
theorem stopNeighbor_spec (hr : st.get r = some n) :
    (∀ r', (st.bfdStopNeighbor r).get r' =
        if r' = r then some { n with neigh := none, req := none } else st.get r') ∧
      (st.bfdStopNeighbor r).data =
        (match n.neigh with
          | some nb => Function.update st.data nb none
          | none => st.data) ∧
      (st.bfdStopNeighbor r).freed = st.freed ++ n.req.toList ∧
      (st.bfdStopNeighbor r).made = st.made := by
  unfold bfdStopNeighbor
  simp only [hr]
  cases hn : n.neigh <;> refine ⟨fun r' => ?_, by simp, by simp, by simp⟩ <;>
    simp only [get_modify, rfree_get, setData_get] <;> split_ifs with h <;> simp [h, hr]
/-- Stopping neighbour `r`, which tracks: the others keep tracking. -/
theorem Tracks.stop {c : NeighCache} {live : NRef → Prop} (h : Tracks c st live) (hl : live r)
    (hr : st.get r = some n) : Tracks c (st.bfdStopNeighbor r) fun r' => live r' ∧ r' ≠ r := by
  have hown := h.neigh_of_get hl hr
  obtain ⟨hget, hdata, -⟩ := stopNeighbor_spec hr
  refine h.rewrite_drop hget fun nb => ?_
  rw [hdata]
  by_cases e : st.data nb = some r
  · simp [if_pos e, (hown nb).1 e]
  · rw [if_neg e]
    cases hon : n.neigh with
    | none => rfl
    | some nb' =>
      exact Function.update_noteq (show nb ≠ nb' by rintro rfl; exact e ((hown nb).2 hon)) _ _

end NState

end Bfd
