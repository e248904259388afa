import Bfd.NeighborTracking

/-! # Neighbours over whole runs

`bfd_start` starts the neighbours of the configuration. Afterwards the neighbour cache calls
`bfd_neigh_notify` whenever an entry's scope changes, `bfd_reconfigure` runs
`bfd_reconfigure_neighbors` after which the new configuration is the running one, and
`bfd_shutdown` stops every neighbour. Over every such run, from any configuration:

* each cache entry's `data` names the neighbour that owns it, and no other neighbour owns it;
* a multihop neighbour holds a request, and any other holds one exactly when it owns an entry
  whose scope is positive;
* every request the neighbours made is held by exactly one of them or was released once,

as long as no configuration that a reconfiguration replaces has two equal neighbours
(`reconfigure_leaks_twin_request` is a run that loses a request without it). The shutdown that
ends such a run releases every request made, each exactly once. -/

namespace Bfd

/-- What happens around the running neighbours: the scope of neighbour cache entry `nb`
becomes positive or not, and the cache calls `bfd_neigh_notify`; or the protocol is
reconfigured with the neighbours `cf`. -/
inductive NeighEvent where
  | scope (nb : Nat) (up : Bool)
  | reconfigure (cf : List NeighborConfig)
  deriving DecidableEq, Repr

namespace NState

variable {st : NState} {r : NRef} {n : BfdNeighbor}

/-- After `bfd_reconfigure` returns, the protocol core makes the new configuration the running
one and frees the old: the new neighbours run, and an entry naming one of them keeps naming it.
An entry naming an old neighbour would dangle; none does (`Tracks.commit`). -/
def commit (st : NState) : NState :=
  { st with
    old := st.new
    new := []
    data := fun nb => match st.data nb with
      | some (.new j) => some (.old j)
      | _ => none }

@[simp] theorem commit_old (st : NState) : st.commit.old = st.new := rfl
@[simp] theorem commit_made (st : NState) : st.commit.made = st.made := rfl
@[simp] theorem commit_freed (st : NState) : st.commit.freed = st.freed := rfl

/-- The neighbour walk of `bfd_shutdown`: every neighbour of the running configuration is
stopped. -/
def bfdStopNeighbors (st : NState) : NState :=
  (List.range st.old.length).foldl (fun st i => st.bfdStopNeighbor (.old i)) st

/-- One event, with the cache as it is after it. -/
def neighStep : NeighCache × NState → NeighEvent → NeighCache × NState
  | (c, st), .scope nb up => (c.setUp nb up, st.bfdNeighNotify (c.setUp nb up) nb)
  | (c, st), .reconfigure cf => (c, (st.reconfigured c cf).commit)

def neighRun (cs : NeighCache × NState) (evs : List NeighEvent) : NeighCache × NState :=
  evs.foldl neighStep cs

/-- The configurations the reconfigurations of a run replace, the first being `cf`. -/
def replaced : List NeighborConfig → List NeighEvent → List (List NeighborConfig)
  | _, [] => []
  | cf, .scope _ _ :: evs => replaced cf evs
  | cf, .reconfigure cf' :: evs => cf :: replaced cf' evs

/-! ## The outer walk of `bfd_reconfigure_neighbors` -/

/-- The neighbours the outer walk has yet to hand on before turn `k`, the old ones from `k`
on, and every new one. -/
def Pending (k : Nat) : NRef → Prop
  | .old i => k ≤ i
  | .new _ => True

theorem pending_succ (k : Nat) (r : NRef) : Pending (k + 1) r ↔ Pending k r ∧ r ≠ .old k := by
  cases r with
  | old i => simp only [Pending, ne_eq, NRef.old.injEq]; omega
  | new j => simp [Pending]

variable {c : NeighCache} {k : Nat}

/-- A turn of the outer walk: old neighbour `k` hands its entry and request to the first equal
new neighbour, which had none, or is stopped; the others keep tracking. -/
theorem Tracks.handOn (h : Tracks c st (Pending k)) (hw : Walking st k)
    (hact : ∀ o ∈ st.old.drop k, o.active = true) (hk : k < st.old.length) :
    Tracks c (st.reconfigureOne k) (Pending (k + 1)) := by
  obtain ⟨o, ho⟩ : ∃ o, st.old[k]? = some o := ⟨_, List.getElem?_eq_getElem hk⟩
  have hmem : o ∈ st.old.drop k := by
    rw [List.drop_eq_getElem_cons hk, (List.getElem?_eq_some_iff.1 ho).2]
    exact List.mem_cons_self _ _
  have hl₀ : Pending k (.old k) := le_refl k
  have hH₀ := h.holds (.old k) o hl₀ ho
  simp only [Holds, hact o hmem, if_true] at hH₀
  -- the entry of `o` is the one naming it
  have hown := h.neigh_of_get hl₀ ho
  refine Tracks.congr_live ?_ (pending_succ k)
  unfold reconfigureOne
  simp only [ho]
  split
  · next j hj =>
    obtain ⟨hj', hsame, -⟩ := hw.match_fresh ho hj
    have hnj : st.get (.new j) = some st.new[j] := List.getElem?_eq_getElem hj'
    have hna : st.new[j].active = false := by
      cases ha : st.new[j].active
      · rfl
      · simp [hw.taken _ (List.getElem_mem hj') ha o hmem] at hsame
    have hHj := h.holds (.new j) _ trivial hnj
    simp only [Holds, hna, if_false, Bool.false_eq_true] at hHj
    have hcf := (bfdSameNeighbor_iff _ _).1 hsame
    have hm : st.new[j].multihop = o.multihop := congrArg NeighborConfig.multihop hcf
    let n1 : BfdNeighbor := { st.new[j] with neigh := o.neigh, req := o.req, active := true }
    have hH1 : Holds c n1 := by simpa [Holds, n1, hm] using hH₀
    have hget : ∀ r', (st.modify (.new j) fun nn =>
        { nn with neigh := o.neigh, req := o.req, active := true }).get r' =
        if r' = .new j then some n1 else st.get r' := fun r' => by
      rw [get_modify]; split_ifs with e
      · subst e; simp [hnj, n1]
      · rfl
    split
    · next nb hon =>
      refine h.rewrite_transfer (show Pending k (.new j) from trivial) hnj hHj.1 (by simp) hl₀ ho
        (fun r' => by rw [setData_get, hget]) (show n1.neigh = o.neigh from rfl) (fun nb' => ?_) hH1
      rw [setData_data, modify_data]
      by_cases e : nb' = nb
      · subst e; simp [(hown nb').2 hon]
      · rw [Function.update_noteq e, if_neg]; rw [hown, hon]; simpa using Ne.symm e
    · next hon =>
      refine h.rewrite_transfer (show Pending k (.new j) from trivial) hnj hHj.1 (by simp) hl₀ ho
        hget (show n1.neigh = o.neigh from rfl) (fun nb' => ?_) hH1
      rw [modify_data, if_neg]; rw [hown, hon]; simp
  · exact h.stop hl₀ (show st.get (.old k) = some o from ho)

theorem reconfigureOne_drop (hk : k < st.old.length) :
    (st.reconfigureOne k).old.drop (k + 1) = st.old.drop (k + 1) := by
  rcases reconfigureOne_cases (List.getElem?_eq_getElem hk) with ⟨-, -, hold, -⟩ | ⟨-, hold, -⟩ <;>
    rw [hold]
  exact drop_modify_self _

/-- The outer walk up to turn `k`: the old neighbours not yet visited are as they were. -/
theorem Tracks.handOnAll (h : Tracks c st (Pending 0)) (hw : Walking st 0)
    (hact : ∀ o ∈ st.old, o.active = true) : ∀ k ≤ st.old.length,
    Tracks c ((List.range k).foldl reconfigureOne st) (Pending k) ∧
      ∀ o ∈ ((List.range k).foldl reconfigureOne st).old.drop k, o.active = true
  | 0, _ => ⟨h, by simpa using hact⟩
  | k + 1, hk => by
    obtain ⟨ht, ha⟩ := Tracks.handOnAll h hw hact k (by omega)
    obtain ⟨hwk, -, -, hlen, -⟩ := hw.run k (by omega)
    have hk' : k < ((List.range k).foldl reconfigureOne st).old.length := by omega
    rw [List.range_succ, List.foldl_append, List.foldl_cons, List.foldl_nil]
    refine ⟨ht.handOn hwk ha hk', fun o ho => ha o ?_⟩
    rw [reconfigureOne_drop hk'] at ho
    exact List.drop_subset_drop_left _ (Nat.le_succ k) ho

/-- After the outer walk no entry names an old neighbour. -/
theorem Tracks.past_end (h : Tracks c st (Pending st.old.length)) : Tracks c st NRef.IsNew := by
  have up : ∀ r, NRef.IsNew r → Pending st.old.length r := fun r hr => by
    cases r with
    | old i => exact hr.elim
    | new j => trivial
  refine ⟨fun r n hl => h.holds r n (up r hl), fun nb r hd => ?_,
    fun nb r hl => h.back nb r (up r hl)⟩
  cases r with
  | new j => trivial
  | old i =>
    have hl := h.names nb _ hd
    obtain ⟨n, hn, -⟩ := Option.bind_eq_some.1 ((h.back nb _ hl).1 hd)
    exact absurd hl (by simp only [Pending]; have := (List.getElem?_eq_some_iff.1 hn).1; omega)

/-! ## The ledger -/

theorem perm_range_cons {l : List Nat} {m : Nat} (h : l.Perm (List.range m)) :
    (m :: l).Perm (List.range (m + 1)) := by
  rw [List.range_succ]; exact (h.cons m).trans (List.perm_append_singleton m _).symm

section Ledger
variable {L : List BfdNeighbor} {F : List Nat} {m j : Nat} {x n1 : BfdNeighbor}

/-- Neighbour `j`, which held no request, rewritten as `n1`, which holds none or the one made
now. -/
theorem ledger_set {m' : Nat} (hj : L[j]? = some x) (hx : x.req = none)
    (h : (heldReqs L ++ F).Perm (List.range m))
    (hm : (n1.req = none ∧ m' = m) ∨ (n1.req = some m ∧ m' = m + 1)) :
    (heldReqs (L.set j n1) ++ F).Perm (List.range m') := by
  obtain ⟨hlt, rfl⟩ := List.getElem?_eq_some_iff.1 hj
  have hp := heldReqs_set hlt n1
  rw [hx] at hp
  rcases hm with ⟨hn, rfl⟩ | ⟨hn, rfl⟩ <;> rw [hn] at hp <;> simp only [Option.toList,
    List.append_nil, List.nil_append, List.singleton_append] at hp
  · exact (hp.append_right F).trans h
  · exact (hp.append_right F).trans (perm_range_cons h)

/-- Neighbour `j` rewritten as `n1`, which holds the request `j` held. -/
theorem ledger_keep (hj : L[j]? = some x) (hx : n1.req = x.req)
    (h : (heldReqs L ++ F).Perm (List.range m)) :
    (heldReqs (L.set j n1) ++ F).Perm (List.range m) := by
  obtain ⟨hlt, rfl⟩ := List.getElem?_eq_some_iff.1 hj
  have hp := heldReqs_set hlt n1
  rw [hx] at hp
  refine List.Perm.trans (List.perm_iff_count.2 fun a => ?_) h
  have := List.perm_iff_count.1 hp a
  simp only [List.count_append] at this ⊢; omega

/-- Neighbour `j` rewritten as `n1`, which holds no request, the one `j` held released. -/
theorem ledger_release (hj : L[j]? = some x) (hn1 : n1.req = none)
    (h : (heldReqs L ++ F).Perm (List.range m)) :
    (heldReqs (L.set j n1) ++ (F ++ x.req.toList)).Perm (List.range m) := by
  obtain ⟨hlt, rfl⟩ := List.getElem?_eq_some_iff.1 hj
  have hp := heldReqs_set hlt n1
  rw [hn1] at hp
  refine List.Perm.trans (List.perm_iff_count.2 fun a => ?_) h
  have := List.perm_iff_count.1 hp a
  simp only [List.count_append, Option.toList, List.count_nil] at this ⊢; omega

end Ledger

/-- What a neighbour's configuration says, across a list. -/
theorem configs_set {L : List BfdNeighbor} {j : Nat} {x n1 : BfdNeighbor} (hj : L[j]? = some x)
    (h : n1.toNeighborConfig = x.toNeighborConfig) :
    (L.set j n1).map BfdNeighbor.toNeighborConfig = L.map BfdNeighbor.toNeighborConfig := by
  refine List.ext_getElem? fun i => ?_
  simp only [List.getElem?_map, List.getElem?_set]
  split_ifs with e₁ e₂
  · subst e₁; simp [hj, h]
  · exact absurd (List.getElem?_eq_some_iff.1 hj).1 (e₁ ▸ e₂)
  · rfl

/-! ## The last walk of `bfd_reconfigure_neighbors` -/

theorem modify_const_new {j : Nat} {x n1 : BfdNeighbor} (hj : st.new[j]? = some x) :
    (st.modify (.new j) fun _ => n1).new = st.new.set j n1 :=
  modify_eq_set_of hj _

theorem modify_const_old {i : Nat} {x n1 : BfdNeighbor} (hi : st.old[i]? = some x) :
    (st.modify (.old i) fun _ => n1).old = st.old.set i n1 :=
  modify_eq_set_of hi _

/-- A turn of the last walk starts new neighbour `j` unless it was started already. -/
theorem Tracks.startInactive (h : Tracks c st NRef.IsNew) (j : Nat) :
    Tracks c (st.startIfInactive c j) NRef.IsNew := by
  unfold startIfInactive
  split
  · next n hj =>
    split
    · exact h
    · next ha =>
      exact h.start (show NRef.IsNew (.new j) from trivial) (show st.get (.new j) = some n from hj)
        (by simpa using ha)
  · exact h

/-- The last walk's turn at `j`: new neighbour `j` ends up started, with a request made now or
none; nothing is released. -/
theorem startInactive_spec (h : Tracks c st NRef.IsNew) (j : Nat) :
    (st.startIfInactive c j = st ∧ st.new[j]?.all BfdNeighbor.active) ∨
      ∃ n n1, st.new[j]? = some n ∧ n.req = none ∧ n1.active = true ∧
        n1.toNeighborConfig = n.toNeighborConfig ∧
        (st.startIfInactive c j).new = st.new.set j n1 ∧
        (st.startIfInactive c j).freed = st.freed ∧
        ((n1.req = none ∧ (st.startIfInactive c j).made = st.made) ∨
          (n1.req = some st.made.length ∧
            (st.startIfInactive c j).made.length = st.made.length + 1)) := by
  unfold startIfInactive
  split
  · next n hj =>
    split
    · next ha => exact .inl ⟨rfl, by simp [hj, ha]⟩
    · next ha =>
      have hH := h.holds (.new j) n trivial hj
      simp only [Holds, ha, if_false, Bool.false_eq_true] at hH
      obtain ⟨n1, hget, hcf, hact, -, hfreed, -, hreq⟩ :=
        startNeighbor_spec c (show st.get (.new j) = some n from hj) hH.2 hH.1
      refine .inr ⟨n, n1, hj, hH.2, hact, hcf, ?_, hfreed, hreq⟩
      rw [(lists_of_get (show st.get (.new j) = some n from hj) hget).2, modify_const_new hj]
  · next hj => exact .inl ⟨rfl, by simp [hj]⟩

/-- The last walk over the positions `l`: it keeps the tracking and the ledger and the new
neighbours' configurations, and leaves started every new neighbour at a position of `l`. -/
theorem Tracks.startAll (h : Tracks c st NRef.IsNew)
    (hl : (heldReqs st.new ++ st.freed).Perm (List.range st.made.length)) : ∀ l : List Nat,
    Tracks c (l.foldl (startIfInactive c) st) NRef.IsNew ∧
      (heldReqs (l.foldl (startIfInactive c) st).new ++ (l.foldl (startIfInactive c) st).freed).Perm
        (List.range (l.foldl (startIfInactive c) st).made.length) ∧
      (∀ j, (j ∈ l ∨ st.new[j]?.all BfdNeighbor.active) →
        (l.foldl (startIfInactive c) st).new[j]?.all BfdNeighbor.active) ∧
      (l.foldl (startIfInactive c) st).new.map BfdNeighbor.toNeighborConfig =
        st.new.map BfdNeighbor.toNeighborConfig := by
  intro l
  induction l generalizing st with
  | nil => exact ⟨h, hl, fun j hj => hj.resolve_left (List.not_mem_nil j), rfl⟩
  | cons j l ih =>
    -- the turn at `j`, then the rest
    have step : (heldReqs (st.startIfInactive c j).new ++ (st.startIfInactive c j).freed).Perm
          (List.range (st.startIfInactive c j).made.length) ∧
        (st.startIfInactive c j).new[j]?.all BfdNeighbor.active ∧
        (∀ j' : Nat, st.new[j']?.all BfdNeighbor.active →
          (st.startIfInactive c j).new[j']?.all BfdNeighbor.active) ∧
        (st.startIfInactive c j).new.map BfdNeighbor.toNeighborConfig =
          st.new.map BfdNeighbor.toNeighborConfig := by
      rcases startInactive_spec h j with ⟨e, ha⟩ | ⟨n, n1, hj, hq, hact, hcf, hnew, hfreed, hreq⟩
      · rw [e]; exact ⟨hl, ha, fun _ => id, rfl⟩
      · have hlt := (List.getElem?_eq_some_iff.1 hj).1
        rw [hnew, hfreed]
        refine ⟨?_, by simp [List.getElem?_set, hlt, hact], fun j' hj' => ?_, configs_set hj hcf⟩
        · rcases hreq with ⟨hn, hm⟩ | ⟨hn, hm⟩
          · exact ledger_set hj hq hl (.inl ⟨hn, by rw [hm]⟩)
          · exact ledger_set hj hq hl (.inr ⟨hn, hm⟩)
        · rw [List.getElem?_set]; split_ifs <;> simp [hact, hj']
    obtain ⟨hl', ha, hkeep, hcfg⟩ := step
    obtain ⟨h1, h2, h3, h4⟩ := ih (h.startInactive j) hl'
    refine ⟨h1, h2, fun j' hj' => h3 j' ?_, h4.trans hcfg⟩
    rcases hj' with hj' | hj'
    · rcases List.mem_cons.1 hj' with rfl | hj'
      exacts [.inr ha, .inl hj']
    · exact .inr (hkeep j' hj')

/-! ## The new configuration runs -/

/-- Once the new configuration runs, the entries name the running neighbours they named. -/
theorem Tracks.commit (h : Tracks c st NRef.IsNew) : Tracks c st.commit NRef.IsOld := by
  have hdata : ∀ nb i, st.commit.data nb = some (.old i) ↔ st.data nb = some (.new i) :=
    fun nb i => by
      dsimp only [NState.commit]
      cases st.data nb with
      | none => simp
      | some r => cases r <;> simp
  refine ⟨fun r n hl hr => ?_, fun nb r hd => ?_, fun nb r hl => ?_⟩
  · cases r with
    | old i => exact h.holds (.new i) n trivial hr
    | new j => exact hl.elim
  · cases r with
    | old i => trivial
    | new j =>
      dsimp only [NState.commit] at hd
      cases e : st.data nb with
      | none => simp [e] at hd
      | some r => cases r <;> simp [e] at hd
  · cases r with
    | old i => rw [hdata, h.back nb (.new i) trivial]; rfl
    | new j => exact hl.elim

theorem reconfigureOne_configs (i : Nat) :
    (st.reconfigureOne i).new.map BfdNeighbor.toNeighborConfig =
      st.new.map BfdNeighbor.toNeighborConfig := by
  cases ho : st.old[i]? with
  | none => simp [reconfigureOne, ho]
  | some o =>
    rcases reconfigureOne_cases ho with ⟨j, hj, -, hnew, -⟩ | ⟨-, -, hnew, -⟩ <;> rw [hnew]
    have hj' := (List.findIdx?_eq_some_iff_getElem.1 hj).1
    rw [modify_eq_set_of (List.getElem?_eq_getElem hj')]
    exact configs_set (List.getElem?_eq_getElem hj') rfl

theorem handOnAll_configs (k : Nat) :
    ((List.range k).foldl reconfigureOne st).new.map BfdNeighbor.toNeighborConfig =
      st.new.map BfdNeighbor.toNeighborConfig := by
  induction k with
  | zero => rfl
  | succ k ih =>
    rw [List.range_succ, List.foldl_append, List.foldl_cons, List.foldl_nil, reconfigureOne_configs,
      ih]

section Install
variable {c : NeighCache} (cf : List NeighborConfig)

theorem fresh_of_install {n : BfdNeighbor} (hn : n ∈ cf.map NeighborConfig.toNeighbor) :
    n.active = false ∧ n.neigh = none ∧ n.req = none := by
  obtain ⟨x, -, rfl⟩ := List.mem_map.1 hn
  exact ⟨rfl, rfl, rfl⟩

/-- The new neighbours, allocated as the configuration `cf` gives them, hold nothing and name
no entry; the running ones keep tracking. -/
theorem Running.install (h : Running c st) :
    Tracks c { st with new := cf.map NeighborConfig.toNeighbor } (Pending 0) := by
  have hget : ∀ j n, { st with new := cf.map NeighborConfig.toNeighbor }.get (.new j) = some n →
      n.active = false ∧ n.neigh = none ∧ n.req = none :=
    fun j n hn => fresh_of_install cf (List.getElem?_mem hn)
  refine ⟨fun r n _ hr => ?_, fun nb r hd => ?_, fun nb r _ => ?_⟩
  · cases r with
    | old i => exact h.tracks.holds (.old i) n trivial hr
    | new j => simp [Holds, hget j n hr]
  · cases r with
    | old i => exact Nat.zero_le i
    | new j => exact (h.tracks.names nb _ hd).elim
  · cases r with
    | old i => exact h.tracks.back nb (.old i) trivial
    | new j =>
      have : { st with new := cf.map NeighborConfig.toNeighbor }.neighOf (.new j) = none := by
        cases e : { st with new := cf.map NeighborConfig.toNeighbor }.get (.new j) with
        | none => simp [neighOf, e]
        | some n => simp [neighOf, e, (hget j n e).2.1]
      rw [this]; simp only [reduceCtorEq, iff_false]
      exact fun hd => (h.tracks.names nb _ hd).elim

/-- Running neighbours no two of which are equal, and the new ones as allocated: the outer walk
may start. -/
theorem walking_install (hd : (st.old.map BfdNeighbor.toNeighborConfig).Nodup) :
    Walking { st with new := cf.map NeighborConfig.toNeighbor } 0 :=
  ⟨fun n hn _ => (fresh_of_install cf hn).2.2,
    fun n hn ha => by simp [(fresh_of_install cf hn).1] at ha,
    by simpa using (List.pairwise_map.1 hd).imp fun hne =>
      Bool.eq_false_iff.2 fun e => hne ((bfdSameNeighbor_iff _ _).1 e)⟩

/-- The outer walk of `bfd_reconfigure_neighbors` from running neighbours no two of which are
equal: afterwards the entries name new neighbours only, which have the configurations `cf` and
hold, with the released ones, every request made exactly once. -/
theorem Running.outerWalk (h : Running c st) (hd : (st.old.map BfdNeighbor.toNeighborConfig).Nodup) :
    Tracks c ((List.range st.old.length).foldl reconfigureOne
        { st with new := cf.map NeighborConfig.toNeighbor }) NRef.IsNew ∧
      (heldReqs ((List.range st.old.length).foldl reconfigureOne
          { st with new := cf.map NeighborConfig.toNeighbor }).new ++
        ((List.range st.old.length).foldl reconfigureOne
          { st with new := cf.map NeighborConfig.toNeighbor }).freed).Perm
        (List.range ((List.range st.old.length).foldl reconfigureOne
          { st with new := cf.map NeighborConfig.toNeighbor }).made.length) ∧
      ((List.range st.old.length).foldl reconfigureOne
          { st with new := cf.map NeighborConfig.toNeighbor }).new.map
        BfdNeighbor.toNeighborConfig = cf := by
  have hw0 := walking_install cf hd
  obtain ⟨-, hl1, -, hlen, hmade⟩ := hw0.run st.old.length le_rfl
  obtain ⟨ht1, -⟩ := (h.install cf).handOnAll hw0 h.active st.old.length le_rfl
  have hcfg : ((List.range st.old.length).foldl reconfigureOne
      { st with new := cf.map NeighborConfig.toNeighbor }).new.map BfdNeighbor.toNeighborConfig =
        (cf.map NeighborConfig.toNeighbor).map BfdNeighbor.toNeighborConfig :=
    handOnAll_configs _
  generalize (List.range st.old.length).foldl reconfigureOne
    { st with new := cf.map NeighborConfig.toNeighbor } = st1 at hl1 hlen hmade ht1 hcfg ⊢
  refine ⟨(hlen ▸ ht1).past_end, ?_, by simp [hcfg, Function.comp_def, NeighborConfig.toNeighbor]⟩
  have h0 : heldReqs (cf.map NeighborConfig.toNeighbor) = [] := by
    simp [heldReqs, List.filterMap_map, NeighborConfig.toNeighbor]
  simp only [NState.ledger, h0, List.drop_zero, List.nil_append, ← hlen, List.drop_length,
    heldReqs_nil, List.append_nil] at hl1
  rw [hmade]
  exact hl1.trans (List.perm_append_comm.trans h.ledger)

end Install

/-- A reconfiguration of running neighbours no two of which are equal: the neighbours of the new
configuration `cf` run, tracking the cache, and with the released ones hold every request made
exactly once. -/
theorem Running.reconfigure (h : Running c st)
    (hd : (st.old.map BfdNeighbor.toNeighborConfig).Nodup) (cf : List NeighborConfig) :
    Running c (st.reconfigured c cf).commit ∧
      (st.reconfigured c cf).commit.old.map BfdNeighbor.toNeighborConfig = cf := by
  obtain ⟨ht1, hl1, hcfg1⟩ := h.outerWalk cf hd
  unfold reconfigured bfdReconfigureNeighbors
  generalize (List.range st.old.length).foldl reconfigureOne
    { st with new := cf.map NeighborConfig.toNeighbor } = st1 at ht1 hl1 hcfg1 ⊢
  obtain ⟨ht2, hl2, hact2, hcfg2⟩ := ht1.startAll hl1 (List.range st1.new.length)
  refine ⟨⟨ht2.commit, fun n hn => ?_, hl2⟩, hcfg2.trans hcfg1⟩
  -- every new neighbour was started by the last walk
  obtain ⟨j, hj⟩ := List.mem_iff_getElem?.1 hn
  simp only [commit_old] at hj
  have hlt : j < st1.new.length := by
    have := (List.getElem?_eq_some_iff.1 hj).1
    rwa [← List.length_map _ BfdNeighbor.toNeighborConfig, hcfg2, List.length_map] at this
  simpa [hj] using hact2 j (.inl (List.mem_range.2 hlt))

/-- A change of scope of entry `nb`: the running neighbours keep running with their
configurations, and track the cache as it is now. -/
theorem Running.scope (h : Running c st) (nb : Nat) (b : Bool) :
    Running (c.setUp nb b) (st.bfdNeighNotify (c.setUp nb b) nb) ∧
      (st.bfdNeighNotify (c.setUp nb b) nb).old.map BfdNeighbor.toNeighborConfig =
        st.old.map BfdNeighbor.toNeighborConfig := by
  have ht := h.tracks.notify nb b
  have same (e : st.bfdNeighNotify (c.setUp nb b) nb = st) :
      Running (c.setUp nb b) (st.bfdNeighNotify (c.setUp nb b) nb) ∧
        (st.bfdNeighNotify (c.setUp nb b) nb).old.map BfdNeighbor.toNeighborConfig =
          st.old.map BfdNeighbor.toNeighborConfig := by
    rw [e] at ht ⊢; exact ⟨⟨ht, h.active, h.ledger⟩, rfl⟩
  cases hd : st.data nb with
  | none => exact same (by simp [bfdNeighNotify, hd])
  | some r =>
    cases r with
    | new j => exact (h.tracks.names nb _ hd).elim
    | old i =>
    cases hr : st.get (.old i) with
    | none => exact same (by simp [bfdNeighNotify, hd, hr])
    | some n =>
    obtain ⟨n1, hget, hcf, hact, -, -, -, hout⟩ := neighNotify_spec (c.setUp nb b) hd hr
    have hi : st.old[i]? = some n := hr
    have hold : (st.bfdNeighNotify (c.setUp nb b) nb).old = st.old.set i n1 := by
      rw [(lists_of_get hr hget).1, modify_const_old hi]
    refine ⟨⟨ht, fun m hm => ?_, ?_⟩, by rw [hold]; exact configs_set hi hcf⟩
    · rw [hold] at hm
      rcases List.mem_or_eq_of_mem_set hm with hm | rfl
      exacts [h.active m hm, hact ▸ h.active n (List.getElem?_mem hi)]
    · rw [hold]
      rcases hout with ⟨hq, hm, hf⟩ | ⟨hq, hq1, hm, hf⟩ | ⟨q, hq, hq1, hm, hf⟩
      · rw [hm, hf]; exact ledger_keep hi hq h.ledger
      · rw [hf]; exact ledger_set hi hq h.ledger (.inr ⟨hq1, hm⟩)
      · have hrel := ledger_release hi hq1 h.ledger
        rw [hq] at hrel
        rwa [hm, hf]

/-! ## `bfd_start` -/

/-- The walk of `bfd_start` before neighbour `k`: the neighbours of `cf` are there, those
before `k` started and the others not yet, all tracking the cache, and with the released ones
holding every request made exactly once. -/
structure StartWalk (c : NeighCache) (cf : List NeighborConfig) (k : Nat) (st : NState) : Prop where
  tracks : Tracks c st NRef.IsOld
  ledger : (heldReqs st.old ++ st.freed).Perm (List.range st.made.length)
  configs : st.old.map BfdNeighbor.toNeighborConfig = cf
  started : ∀ i < k, ∀ n, st.old[i]? = some n → n.active = true
  fresh : ∀ i, k ≤ i → ∀ n, st.old[i]? = some n → n.active = false

/-- A turn of the walk of `bfd_start`. -/
theorem StartWalk.step {cf : List NeighborConfig} {k : Nat} (h : StartWalk c cf k st)
    (hk : k < st.old.length) : StartWalk c cf (k + 1) (st.bfdStartNeighbor c (.old k)) := by
  obtain ⟨n, hr⟩ : ∃ n, st.old[k]? = some n := ⟨_, List.getElem?_eq_getElem hk⟩
  have ha := h.fresh k le_rfl n hr
  have hH := h.tracks.holds (.old k) n trivial hr
  simp only [Holds, ha, if_false, Bool.false_eq_true] at hH
  obtain ⟨n1, hget, hcf, hact, -, hfreed, -, hreq⟩ :=
    startNeighbor_spec c (show st.get (.old k) = some n from hr) hH.2 hH.1
  have hold : (st.bfdStartNeighbor c (.old k)).old = st.old.set k n1 := by
    rw [(lists_of_get (show st.get (.old k) = some n from hr) hget).1, modify_const_old hr]
  have other : ∀ i, i ≠ k → (st.bfdStartNeighbor c (.old k)).old[i]? = st.old[i]? := fun i hi => by
    rw [hold, List.getElem?_set_ne (Ne.symm hi)]
  refine ⟨h.tracks.start trivial hr ha, ?_, by rw [hold, configs_set hr hcf, h.configs],
    fun i hi m hm => ?_, fun i hi m hm => ?_⟩
  · rw [hold, hfreed]
    rcases hreq with ⟨hn, hm⟩ | ⟨hn, hm⟩
    · exact ledger_set hr hH.2 h.ledger (.inl ⟨hn, by rw [hm]⟩)
    · exact ledger_set hr hH.2 h.ledger (.inr ⟨hn, hm⟩)
  · by_cases e : i = k
    · subst e
      rw [hold, List.getElem?_set_self hk] at hm
      exact Option.some.inj hm ▸ hact
    · rw [other i e] at hm; exact h.started i (by omega) m hm
  · rw [other i (by omega)] at hm; exact h.fresh i (by omega) m hm

/-- The neighbours of `cf` before `bfd_start` starts them. -/
theorem startWalk_zero (c : NeighCache) (cf : List NeighborConfig) :
    StartWalk c cf 0 ⟨cf.map NeighborConfig.toNeighbor, [], fun _ => none, [], []⟩ := by
  have hfresh : ∀ i (n : BfdNeighbor), (cf.map NeighborConfig.toNeighbor)[i]? = some n →
      n.active = false ∧ n.neigh = none ∧ n.req = none := fun i n hn => by
    obtain ⟨x, -, rfl⟩ := List.mem_map.1 (List.getElem?_mem hn)
    exact ⟨rfl, rfl, rfl⟩
  refine ⟨⟨fun r n _ hr => ?_, fun nb r hd => Option.noConfusion hd, fun nb r _ => ?_⟩, by simp [heldReqs,
    List.filterMap_map, NeighborConfig.toNeighbor], by simp [Function.comp_def,
    NeighborConfig.toNeighbor], fun i hi => absurd hi (Nat.not_lt_zero i),
    fun i _ n hn => (hfresh i n hn).1⟩
  · cases r with
    | old i => simp [Holds, hfresh i n hr]
    | new j => simp at hr
  · cases r with
    | old i =>
      cases e : (cf.map NeighborConfig.toNeighbor)[i]? with
      | none => simp [neighOf, e]
      | some n => simp [neighOf, e, (hfresh i n e).2.1]
    | new j => simp [neighOf]

theorem StartWalk.length {cf : List NeighborConfig} {k : Nat} (h : StartWalk c cf k st) :
    st.old.length = cf.length := by
  rw [← h.configs, List.length_map]

theorem StartWalk.run {cf : List NeighborConfig} (h : StartWalk c cf 0 st) :
    ∀ k ≤ st.old.length,
      StartWalk c cf k ((List.range k).foldl (fun st i => st.bfdStartNeighbor c (.old i)) st)
  | 0, _ => h
  | k + 1, hk => by
    have hk' := StartWalk.run h k (by omega)
    rw [List.range_succ, List.foldl_append, List.foldl_cons, List.foldl_nil]
    exact hk'.step (by rw [hk'.length, ← h.length]; omega)

/-- After `bfd_start` the neighbours of `cf` run, tracking the cache, and hold every request
made exactly once. -/
theorem started_running (c : NeighCache) (cf : List NeighborConfig) :
    Running c (started c cf) ∧ (started c cf).old.map BfdNeighbor.toNeighborConfig = cf := by
  have h0 := startWalk_zero c cf
  have h := h0.run _ le_rfl
  refine ⟨⟨h.tracks, fun n hn => ?_, h.ledger⟩, h.configs⟩
  obtain ⟨i, hi⟩ := List.mem_iff_getElem?.1 hn
  have hlt := (List.getElem?_eq_some_iff.1 hi).1
  rw [show (started c cf).old.length = cf.length from h.length] at hlt
  exact h.started i (by simpa using hlt) n hi

/-! ## `bfd_shutdown` -/

/-- The walk of `bfd_shutdown` before neighbour `k`: the neighbours before `k` hold no request,
the others track the cache, and with the released ones they hold every request made, `m`
of them, exactly once. -/
structure StopWalk (c : NeighCache) (m len k : Nat) (st : NState) : Prop where
  tracks : Tracks c st fun r => NRef.IsOld r ∧ Pending k r
  ledger : (heldReqs st.old ++ st.freed).Perm (List.range m)
  made : st.made.length = m
  length : st.old.length = len
  stopped : ∀ i < k, ∀ n, st.old[i]? = some n → n.req = none

/-- A turn of the walk of `bfd_shutdown`. -/
theorem StopWalk.step {m len k : Nat} (h : StopWalk c m len k st) (hk : k < st.old.length) :
    StopWalk c m len (k + 1) (st.bfdStopNeighbor (.old k)) := by
  obtain ⟨n, hr⟩ : ∃ n, st.old[k]? = some n := ⟨_, List.getElem?_eq_getElem hk⟩
  obtain ⟨hget, -, hfreed, hmade⟩ := stopNeighbor_spec (show st.get (.old k) = some n from hr)
  have hold : (st.bfdStopNeighbor (.old k)).old = st.old.set k { n with neigh := none, req := none } := by
    rw [(lists_of_get (show st.get (.old k) = some n from hr) hget).1, modify_const_old hr]
  refine ⟨?_, ?_, by rw [hmade, h.made], by rw [hold, List.length_set, h.length],
    fun i hi m hm => ?_⟩
  · refine (h.tracks.stop (show NRef.IsOld (.old k) ∧ Pending k (.old k) from ⟨trivial, le_refl k⟩)
      hr).congr_live fun r => ?_
    rw [pending_succ]; exact and_assoc.symm
  · rw [hold, hfreed]; exact ledger_release hr rfl h.ledger
  · rw [hold, List.getElem?_set] at hm
    split_ifs at hm with e
    · simp only [Option.some.injEq] at hm; exact hm ▸ rfl
    · exact h.stopped i (by omega) m hm

theorem StopWalk.run (h : StopWalk c m len 0 st) :
    ∀ k ≤ len, StopWalk c m len k ((List.range k).foldl (fun st i => st.bfdStopNeighbor (.old i)) st)
  | 0, _ => h
  | k + 1, hk => by
    have hk' := StopWalk.run h k (by omega)
    rw [List.range_succ, List.foldl_append, List.foldl_cons, List.foldl_nil]
    exact hk'.step (by rw [hk'.length]; omega)

/-- At the end of the walk of `bfd_shutdown` no cache entry names a neighbour and no neighbour
holds a request: every request made was released, each once. -/
theorem StopWalk.done {m len : Nat} (h : StopWalk c m len len st) :
    (∀ nb, st.data nb = none) ∧ heldReqs st.old = [] ∧ st.freed.Perm (List.range m) := by
  have hheld : heldReqs st.old = [] := List.filterMap_eq_nil_iff.2 fun n hn => by
    obtain ⟨i, hi⟩ := List.mem_iff_getElem?.1 hn
    exact h.stopped i (h.length ▸ (List.getElem?_eq_some_iff.1 hi).1) n hi
  refine ⟨fun nb => ?_, hheld, by simpa [hheld] using h.ledger⟩
  cases hd : st.data nb with
  | none => rfl
  | some r =>
    have hl := h.tracks.names nb r hd
    obtain ⟨n, hn, -⟩ := Option.bind_eq_some.1 ((h.tracks.back nb r hl).1 hd)
    cases r with
    | new j => exact hl.1.elim
    | old i =>
      have := (List.getElem?_eq_some_iff.1 hn).1
      have := h.length
      exact absurd hl.2 (by simp only [Pending]; omega)

theorem Running.stopWalk (h : Running c st) : StopWalk c st.made.length st.old.length 0 st :=
  ⟨h.tracks.congr_live fun r => by cases r <;> simp [Pending, NRef.IsOld], h.ledger, rfl, rfl,
    fun i hi => absurd hi (Nat.not_lt_zero i)⟩

/-- `bfd_shutdown` of running neighbours: no cache entry names one of them afterwards, none
holds a request, and every request they made was released exactly once. -/
theorem Running.shutdown (h : Running c st) :
    (∀ nb, st.bfdStopNeighbors.data nb = none) ∧ heldReqs st.bfdStopNeighbors.old = [] ∧
      st.bfdStopNeighbors.freed.Perm (List.range st.made.length) :=
  (h.stopWalk.run st.old.length le_rfl).done

/-! ## Whole runs -/

/-- From running neighbours of configuration `cf`, over every run in which no configuration a
reconfiguration replaces has two equal neighbours, the neighbours keep running. -/
theorem Running.run : ∀ {c : NeighCache} {st : NState} {cf : List NeighborConfig}
    (evs : List NeighEvent), Running c st → st.old.map BfdNeighbor.toNeighborConfig = cf →
    (∀ cf' ∈ replaced cf evs, cf'.Nodup) →
    Running (neighRun (c, st) evs).1 (neighRun (c, st) evs).2
  | _, _, _, [], h, _, _ => h
  | c, st, _, .scope nb b :: evs, h, hcf, hd => by
    obtain ⟨h', hcf'⟩ := h.scope nb b
    exact Running.run evs h' (hcf'.trans hcf) hd
  | c, st, cf, .reconfigure cf' :: evs, h, hcf, hd => by
    obtain ⟨h', hcf'⟩ := h.reconfigure (hcf ▸ hd cf (List.mem_cons_self _ _)) cf'
    exact Running.run evs h' hcf' fun x hx => hd x (List.mem_cons_of_mem _ hx)

/-- Over every run from `bfd_start` with configuration `cf`, as long as no configuration a
reconfiguration replaces has two equal neighbours: every neighbour of the running configuration
is started; one holds a request exactly when it is multihop or owns a cache entry whose scope is
positive, and a multihop one owns none; each cache entry names the neighbour that owns it; and
the neighbours hold, with the released ones, every request made exactly once. -/
theorem neighbors_run_tracked (c : NeighCache) (cf : List NeighborConfig) (evs : List NeighEvent)
    (hd : ∀ cf' ∈ replaced cf evs, cf'.Nodup) :
    Running (neighRun (c, started c cf) evs).1 (neighRun (c, started c cf) evs).2 :=
  Running.run evs (started_running c cf).1 (started_running c cf).2 hd

/-- A cache in which address 10 is on interface 1 with entry 4, whose scope starts out not
positive. -/
def lanCache : NeighCache :=
  ⟨fun a _ => if a = 10 then some 4 else none, fun _ => false, fun _ => 5, fun _ => some 1⟩

/-- A direct neighbour on the cache's interface and a multihop one. -/
def lanConfig : List NeighborConfig := [⟨10, 0, some 1, false⟩, ⟨20, 7, none, true⟩]

/-- Entry 4 comes up, the multihop neighbour is removed, and entry 4 goes down and comes up
again. -/
def lanEvents : List NeighEvent :=
  [.scope 4 true, .reconfigure [⟨10, 0, some 1, false⟩], .scope 4 false, .scope 4 true]

theorem neighbors_run_tracked_lan :
    (∀ cf' ∈ replaced lanConfig lanEvents, cf'.Nodup) ∧
      Running (neighRun (lanCache, started lanCache lanConfig) lanEvents).1
        (neighRun (lanCache, started lanCache lanConfig) lanEvents).2 :=
  ⟨by decide, neighbors_run_tracked lanCache lanConfig lanEvents (by decide)⟩

/-- The shutdown that ends such a run: no cache entry names a neighbour afterwards, no
neighbour holds a request, and every request made over the whole run was released exactly
once. -/
theorem shutdown_releases_every_request (c : NeighCache) (cf : List NeighborConfig)
    (evs : List NeighEvent) (hd : ∀ cf' ∈ replaced cf evs, cf'.Nodup) :
    (∀ nb, (neighRun (c, started c cf) evs).2.bfdStopNeighbors.data nb = none) ∧
      heldReqs (neighRun (c, started c cf) evs).2.bfdStopNeighbors.old = [] ∧
      (neighRun (c, started c cf) evs).2.bfdStopNeighbors.freed.Perm
        (List.range (neighRun (c, started c cf) evs).2.made.length) :=
  (Running.run evs (started_running c cf).1 (started_running c cf).2 hd).shutdown

theorem shutdown_releases_every_request_lan :
    (∀ cf' ∈ replaced lanConfig lanEvents, cf'.Nodup) ∧
      (neighRun (lanCache, started lanCache lanConfig) lanEvents).2.bfdStopNeighbors.freed.Perm
        (List.range (neighRun (lanCache, started lanCache lanConfig) lanEvents).2.made.length) :=
  ⟨by decide, (shutdown_releases_every_request lanCache lanConfig lanEvents (by decide)).2.2⟩

/-- The run made three requests: the multihop neighbour's at the start, released when it was
removed, and the direct neighbour's once each time its entry came up; the shutdown releases the
last. -/
example : (neighRun (lanCache, started lanCache lanConfig) lanEvents).2.made.length = 3 ∧
    (neighRun (lanCache, started lanCache lanConfig) lanEvents).2.bfdStopNeighbors.freed =
      [0, 1, 2] := by
  decide
end NState

end Bfd
