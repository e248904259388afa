import Bfd.Basic
import Mathlib.Data.Fintype.Basic

/-! # Configured neighbours across a reconfiguration

The neighbours of the configuration (`struct bfd_neighbor`): each holds the neighbour cache
entry it owns and the request it made. `bfd_start` starts every neighbour of the running
configuration; `bfd_reconfigure_neighbors` walks the old configuration's neighbours and, for
each, the new configuration's: the first equal new neighbour (`bfd_same_neighbor`) takes the
old one's cache entry and request, and an old neighbour with no equal new one is stopped;
then every new neighbour not taken over is started.

A request is a handle into the list of `bfd_request_session` calls; `rfree` appends it to the
released ones. When no two old neighbours are equal, the walk moves every old request to
exactly one new neighbour or releases it, and no two new neighbours share one
(`reconfigure_moves_requests`). Equal old neighbours, which the configuration admits, break
it: the second overwrites the request the first handed over. -/

namespace Bfd

/-- What the configuration gives of a neighbour (`addr`, `local`, `iface`, `multihop`): the
fields `bfd_same_neighbor` compares. -/
structure NeighborConfig where
  addr : Nat
  localAddr : Nat
  iface : Option Nat
  multihop : Bool
  deriving DecidableEq, Repr, Inhabited

/-- A neighbour of the configuration, with what the protocol keeps in it: the neighbour cache
entry it owns (`neigh`), its request (`req`) and whether it was started (`active`). -/
structure BfdNeighbor extends NeighborConfig where
  neigh : Option Nat := none
  req : Option Nat := none
  active : Bool := false
  deriving DecidableEq, Repr, Inhabited

/-- A neighbour as the configuration allocates it: zeroed but for its configuration. -/
def NeighborConfig.toNeighbor (c : NeighborConfig) : BfdNeighbor := { toNeighborConfig := c }

/-- `bfd_same_neighbor`. -/
def bfdSameNeighbor (x y : BfdNeighbor) : Bool :=
  x.addr == y.addr && x.localAddr == y.localAddr && x.iface == y.iface &&
    x.multihop == y.multihop

theorem bfdSameNeighbor_iff (x y : BfdNeighbor) :
    bfdSameNeighbor x y = true ↔ x.toNeighborConfig = y.toNeighborConfig := by
  obtain ⟨⟨⟩, _⟩ := x; obtain ⟨⟨⟩, _⟩ := y
  simp [bfdSameNeighbor, and_assoc]

/-- A neighbour of the old (running) configuration or of the new one, by position. -/
inductive NRef where
  | old (i : Nat)
  | new (i : Nat)
  deriving DecidableEq, Repr

/-- What the neighbour cache answers: `neigh_find(&p->p, addr, iface, NEF_STICKY)`, whether an
entry's scope is positive, and the entry's interface address (`nb->ifa->ip`) and interface. -/
structure NeighCache where
  find : Nat → Option Nat → Option Nat
  up : Nat → Bool
  ip : Nat → Nat
  iface : Nat → Option Nat

/-- The arguments of a neighbour's `bfd_request_session`. -/
structure RequestArgs where
  addr : Nat
  localAddr : Nat
  iface : Option Nat
  deriving DecidableEq, Repr

/-- The neighbours of the two configurations, the `data` field of each neighbour cache entry,
the requests made (a request is its position in `made`) and the requests released, in order. -/
structure NState where
  old : List BfdNeighbor
  new : List BfdNeighbor
  data : Nat → Option NRef
  made : List RequestArgs
  freed : List Nat

namespace NState

def get (st : NState) : NRef → Option BfdNeighbor
  | .old i => st.old[i]?
  | .new i => st.new[i]?

def modify (st : NState) (r : NRef) (f : BfdNeighbor → BfdNeighbor) : NState :=
  match r with
  | .old i => { st with old := st.old.modify f i }
  | .new i => { st with new := st.new.modify f i }

def setData (st : NState) (nb : Nat) (v : Option NRef) : NState :=
  { st with data := Function.update st.data nb v }

/-- `bfd_request_session` for a neighbour: the new request's handle. -/
def requestSession (st : NState) (addr localAddr : Nat) (iface : Option Nat) : NState × Nat :=
  ({ st with made := st.made ++ [⟨addr, localAddr, iface⟩] }, st.made.length)

/-- `rfree` of a neighbour's request, which does nothing on `NULL`. -/
def rfree (st : NState) (req : Option Nat) : NState := { st with freed := st.freed ++ req.toList }

/-- `bfd_neigh_notify`: the neighbour owning cache entry `nb` makes its request when the entry's
scope becomes positive, and releases it when the scope ends. -/
def bfdNeighNotify (c : NeighCache) (st : NState) (nb : Nat) : NState :=
  match st.data nb with
  | none => st
  | some r =>
    match st.get r with
    | none => st
    | some n =>
      if c.up nb then
        if n.req = none then
          let loc := if n.localAddr ≠ 0 then n.localAddr else c.ip nb
          let (st, h) := st.requestSession n.addr loc (c.iface nb)
          st.modify r fun n => { n with req := some h }
        else st
      else
        match n.req with
        | some h => (st.rfree (some h)).modify r fun n => { n with req := none }
        | none => st

/-- `bfd_start_neighbor`: a multihop neighbour makes its request at once; another takes its
cache entry, unless the address is invalid or the entry has an owner already (a duplicate
neighbour, which is reported and left without a request). -/
def bfdStartNeighbor (c : NeighCache) (st : NState) (r : NRef) : NState :=
  match st.get r with
  | none => st
  | some n =>
    let st := st.modify r fun n => { n with active := true }
    if n.multihop then
      let (st, h) := st.requestSession n.addr n.localAddr none
      st.modify r fun n => { n with req := some h }
    else
      match c.find n.addr n.iface with
      | none => st
      | some nb =>
        if (st.data nb).isSome then st
        else
          let st := (st.modify r fun n => { n with neigh := some nb }).setData nb (some r)
          if c.up nb then st.bfdNeighNotify c nb else st

/-- `bfd_stop_neighbor`: the neighbour gives up its cache entry and releases its request. -/
def bfdStopNeighbor (st : NState) (r : NRef) : NState :=
  match st.get r with
  | none => st
  | some n =>
    let st := match n.neigh with
      | some nb => st.setData nb none
      | none => st
    (st.rfree n.req).modify r fun n => { n with neigh := none, req := none }

/-- One turn of the outer walk of `bfd_reconfigure_neighbors`: the first new neighbour equal
to old neighbour `i` takes over its cache entry and request, or `i` is stopped. -/
def reconfigureOne (st : NState) (i : Nat) : NState :=
  match st.old[i]? with
  | none => st
  | some o =>
    match st.new.findIdx? (bfdSameNeighbor · o) with
    | some j =>
      let st := st.modify (.new j) fun nn =>
        { nn with neigh := o.neigh, req := o.req, active := true }
      match o.neigh with
      | some nb => st.setData nb (some (.new j))
      | none => st
    | none => st.bfdStopNeighbor (.old i)

/-- One turn of the last walk of `bfd_reconfigure_neighbors`. -/
def startIfInactive (c : NeighCache) (st : NState) (j : Nat) : NState :=
  match st.new[j]? with
  | some nn => if nn.active then st else st.bfdStartNeighbor c (.new j)
  | none => st

/-- `bfd_reconfigure_neighbors`. -/
def bfdReconfigureNeighbors (c : NeighCache) (st : NState) : NState :=
  let st := (List.range st.old.length).foldl reconfigureOne st
  (List.range st.new.length).foldl (startIfInactive c) st

/-- The neighbour walk of `bfd_start`, over the running configuration. -/
def bfdStartNeighbors (c : NeighCache) (st : NState) : NState :=
  (List.range st.old.length).foldl (fun st i => st.bfdStartNeighbor c (.old i)) st

/-- A protocol started with configuration `cf`, before any reconfiguration. -/
def started (c : NeighCache) (cf : List NeighborConfig) : NState :=
  bfdStartNeighbors c ⟨cf.map NeighborConfig.toNeighbor, [], fun _ => none, [], []⟩

/-- The reconfiguration of a running protocol to configuration `cf`. -/
def reconfigured (c : NeighCache) (st : NState) (cf : List NeighborConfig) : NState :=
  bfdReconfigureNeighbors c { st with new := cf.map NeighborConfig.toNeighbor }

/-! ## What each operation changes -/

@[simp] theorem get_old (st : NState) (i : Nat) : st.get (.old i) = st.old[i]? := rfl
@[simp] theorem get_new (st : NState) (j : Nat) : st.get (.new j) = st.new[j]? := rfl

section Fields

variable (st : NState) (f : BfdNeighbor → BfdNeighbor)

@[simp] theorem modify_old_old (i : Nat) : (st.modify (.old i) f).old = st.old.modify f i := rfl
@[simp] theorem modify_old_new (i : Nat) : (st.modify (.old i) f).new = st.new := rfl
@[simp] theorem modify_new_old (j : Nat) : (st.modify (.new j) f).old = st.old := rfl
@[simp] theorem modify_new_new (j : Nat) : (st.modify (.new j) f).new = st.new.modify f j := rfl
@[simp] theorem modify_made (r : NRef) : (st.modify r f).made = st.made := by cases r <;> rfl
@[simp] theorem modify_freed (r : NRef) : (st.modify r f).freed = st.freed := by cases r <;> rfl
@[simp] theorem modify_data (r : NRef) : (st.modify r f).data = st.data := by cases r <;> rfl

variable (nb : Nat) (v : Option NRef)

@[simp] theorem setData_old : (st.setData nb v).old = st.old := rfl
@[simp] theorem setData_new : (st.setData nb v).new = st.new := rfl
@[simp] theorem setData_made : (st.setData nb v).made = st.made := rfl
@[simp] theorem setData_freed : (st.setData nb v).freed = st.freed := rfl
@[simp] theorem setData_data : (st.setData nb v).data = Function.update st.data nb v := rfl

variable (a l : Nat) (i : Option Nat)

@[simp] theorem requestSession_old : (st.requestSession a l i).1.old = st.old := rfl
@[simp] theorem requestSession_new : (st.requestSession a l i).1.new = st.new := rfl
@[simp] theorem requestSession_made :
    (st.requestSession a l i).1.made = st.made ++ [⟨a, l, i⟩] := rfl
@[simp] theorem requestSession_freed : (st.requestSession a l i).1.freed = st.freed := rfl
@[simp] theorem requestSession_data : (st.requestSession a l i).1.data = st.data := rfl
@[simp] theorem requestSession_handle : (st.requestSession a l i).2 = st.made.length := rfl

variable (r : Option Nat)

@[simp] theorem rfree_old : (st.rfree r).old = st.old := rfl
@[simp] theorem rfree_new : (st.rfree r).new = st.new := rfl
@[simp] theorem rfree_made : (st.rfree r).made = st.made := rfl
@[simp] theorem rfree_freed : (st.rfree r).freed = st.freed ++ r.toList := rfl

end Fields

variable {st : NState}

theorem modify_eq_set_of {l : List BfdNeighbor} {j : Nat} {x : BfdNeighbor} (hj : l[j]? = some x)
    (f : BfdNeighbor → BfdNeighbor) : l.modify f j = l.set j (f x) := by
  rw [List.modify_eq_set, hj]; rfl

theorem modify_set {l : List BfdNeighbor} {j : Nat} (hj : j < l.length) (x : BfdNeighbor)
    (f : BfdNeighbor → BfdNeighbor) : (l.set j x).modify f j = l.set j (f x) := by
  rw [modify_eq_set_of (List.getElem?_set_self hj), List.set_set]

/-- `bfd_stop_neighbor` on old neighbour `i`. -/
theorem stopNeighbor_old {i : Nat} {o : BfdNeighbor} (ho : st.old[i]? = some o) :
    (st.bfdStopNeighbor (.old i)).old = st.old.modify (fun n => { n with neigh := none, req := none }) i ∧
      (st.bfdStopNeighbor (.old i)).new = st.new ∧
      (st.bfdStopNeighbor (.old i)).freed = st.freed ++ o.req.toList := by
  simp only [bfdStopNeighbor, get_old, ho]
  split <;> simp

/-- A turn of the outer walk hands old neighbour `i`'s cache entry and request to the first
equal new neighbour, or stops `i`, releasing its request. -/
theorem reconfigureOne_cases {i : Nat} {o : BfdNeighbor} (ho : st.old[i]? = some o) :
    (∃ j, st.new.findIdx? (bfdSameNeighbor · o) = some j ∧ (st.reconfigureOne i).old = st.old ∧
      (st.reconfigureOne i).new =
        st.new.modify (fun nn => { nn with neigh := o.neigh, req := o.req, active := true }) j ∧
      (st.reconfigureOne i).freed = st.freed) ∨
    (st.new.findIdx? (bfdSameNeighbor · o) = none ∧
      (st.reconfigureOne i).old = st.old.modify (fun n => { n with neigh := none, req := none }) i ∧
      (st.reconfigureOne i).new = st.new ∧ (st.reconfigureOne i).freed = st.freed ++ o.req.toList) := by
  simp only [reconfigureOne, ho]
  split
  · next j hj => exact .inl ⟨j, hj, by split <;> simp⟩
  · next hn => exact .inr ⟨hn, stopNeighbor_old ho⟩

/-- `bfd_start_neighbor` on new neighbour `j` starts it and gives it, at most, a request made
now; it releases nothing. -/
theorem startNeighbor_new (c : NeighCache) {j : Nat} {n : BfdNeighbor} (hj : st.new[j]? = some n) :
    ∃ n', (st.bfdStartNeighbor c (.new j)).new = st.new.set j n' ∧
      n'.toNeighborConfig = n.toNeighborConfig ∧ n'.active = true ∧
      ((n'.req = n.req ∧ st.made.length ≤ (st.bfdStartNeighbor c (.new j)).made.length) ∨
        (n'.req = some st.made.length ∧
          st.made.length < (st.bfdStartNeighbor c (.new j)).made.length)) ∧
      (st.bfdStartNeighbor c (.new j)).freed = st.freed := by
  have hlt : j < st.new.length := (List.getElem?_eq_some_iff.1 hj).1
  unfold bfdStartNeighbor
  simp only [get_new, hj]
  split
  · exact ⟨{ n with active := true, req := some st.made.length },
      by simp [modify_eq_set_of hj, modify_set hlt], rfl, rfl, .inr ⟨rfl, by simp⟩, by simp⟩
  · split
    · exact ⟨{ n with active := true }, by simp [modify_eq_set_of hj], rfl, rfl,
        .inl ⟨rfl, by simp⟩, by simp⟩
    · next nb _ =>
      split
      · exact ⟨{ n with active := true }, by simp [modify_eq_set_of hj], rfl, rfl,
          .inl ⟨rfl, by simp⟩, by simp⟩
      · split
        · simp only [bfdNeighNotify, setData_data, Function.update_same, get_new, setData_new,
            modify_new_new, modify_eq_set_of hj, modify_set hlt, List.getElem?_set_self hlt, *,
            if_true]
          split
          · exact ⟨{ n with active := true, neigh := some nb, req := some st.made.length },
              by simp [modify_eq_set_of hj, modify_set hlt], rfl, rfl, .inr ⟨rfl, by simp⟩, by simp⟩
          · exact ⟨{ n with active := true, neigh := some nb },
              by simp [modify_eq_set_of hj, modify_set hlt], rfl, rfl,
              .inl ⟨rfl, by simp⟩, by simp⟩
        · exact ⟨{ n with active := true, neigh := some nb },
            by simp [modify_eq_set_of hj, modify_set hlt], rfl, rfl, .inl ⟨rfl, by simp⟩, by simp⟩

end NState


/-! ## Where the requests go -/

/-- The requests a list of neighbours holds. -/
def heldReqs (l : List BfdNeighbor) : List Nat := l.filterMap BfdNeighbor.req

@[simp] theorem heldReqs_nil : heldReqs [] = [] := rfl

theorem heldReqs_cons (n : BfdNeighbor) (l : List BfdNeighbor) : heldReqs (n :: l) = n.req.toList ++ heldReqs l := by
  cases h : n.req <;> simp [heldReqs, h]

theorem heldReqs_append (l l' : List BfdNeighbor) : heldReqs (l ++ l') = heldReqs l ++ heldReqs l' :=
  List.filterMap_append _ _ _

/-- Writing neighbour `j` trades its request for the new value's. -/
theorem heldReqs_set {l : List BfdNeighbor} {j : Nat} (hj : j < l.length) (x : BfdNeighbor) :
    (heldReqs (l.set j x) ++ l[j].req.toList).Perm (x.req.toList ++ heldReqs l) := by
  conv_rhs => rw [← List.take_append_drop j l, List.drop_eq_getElem_cons hj]
  rw [List.set_eq_take_cons_drop _ hj]
  simp only [heldReqs_append, heldReqs_cons]
  exact List.perm_iff_count.2 fun _ => by simp only [List.count_append]; omega

theorem drop_modify_self {l : List BfdNeighbor} {k : Nat} (f : BfdNeighbor → BfdNeighbor) :
    (l.modify f k).drop (k + 1) = l.drop (k + 1) :=
  List.ext_getElem? fun i => by simp [List.getElem?_modify, show k ≠ k + 1 + i by omega]

namespace NState

/-- What the outer walk accounts for before turn `k`: the requests of the new neighbours, the
released ones, and those of the old neighbours it has not visited. -/
def ledger (st : NState) (k : Nat) : List Nat := heldReqs st.new ++ st.freed ++ heldReqs (st.old.drop k)

/-- Before turn `k` of the outer walk: a new neighbour not taken over holds no request, one
taken over is equal to no old neighbour still to come, and those are pairwise distinct. -/
structure Walking (st : NState) (k : Nat) : Prop where
  fresh : ∀ n ∈ st.new, n.active = false → n.req = none
  taken : ∀ n ∈ st.new, n.active = true → ∀ o ∈ st.old.drop k, bfdSameNeighbor n o = false
  distinct : (st.old.drop k).Pairwise fun x y => bfdSameNeighbor x y = false

variable {st : NState} {k : Nat}

/-- The first new neighbour equal to old neighbour `k` has not been taken over yet. -/
theorem Walking.match_fresh (h : Walking st k) {o : BfdNeighbor} (ho : st.old[k]? = some o)
    {j : Nat} (hj : st.new.findIdx? (bfdSameNeighbor · o) = some j) :
    ∃ hj' : j < st.new.length, bfdSameNeighbor st.new[j] o = true ∧ st.new[j].req = none := by
  obtain ⟨hj', hs, -⟩ := List.findIdx?_eq_some_iff_getElem.1 hj
  refine ⟨hj', hs, h.fresh _ (List.getElem_mem hj') ?_⟩
  cases ha : st.new[j].active
  · rfl
  · have hmem : o ∈ st.old.drop k := by
      rw [List.drop_eq_getElem_cons (List.getElem?_eq_some_iff.1 ho).1]
      exact List.mem_cons.2 (.inl (List.getElem?_eq_some_iff.1 ho).2.symm)
    simp [h.taken _ (List.getElem_mem hj') ha o hmem] at hs

/-- One turn keeps the walk's invariant and its account, and only appends to the released
requests. -/
theorem Walking.turn (h : Walking st k) (hk : k < st.old.length) :
    Walking (st.reconfigureOne k) (k + 1) ∧
      ((st.reconfigureOne k).ledger (k + 1)).Perm (st.ledger k) ∧
      st.freed <+: (st.reconfigureOne k).freed ∧
      (st.reconfigureOne k).old.length = st.old.length ∧ (st.reconfigureOne k).made = st.made := by
  have ho : st.old[k]? = some st.old[k] := List.getElem?_eq_getElem hk
  have hdrop := List.drop_eq_getElem_cons hk
  have hlater : ∀ o, o ∈ st.old.drop (k + 1) → o ∈ st.old.drop k := fun o h => by
    rw [hdrop]; exact List.mem_cons_of_mem _ h
  have hdist := h.distinct
  rw [hdrop, List.pairwise_cons] at hdist
  have hmade : (st.reconfigureOne k).made = st.made := by
    simp only [reconfigureOne, ho]; split
    · split <;> simp
    · simp only [bfdStopNeighbor, get_old, ho]; split <;> simp
  rcases reconfigureOne_cases ho with ⟨j, hj, hold, hnew, hfreed⟩ | ⟨hj, hold, hnew, hfreed⟩
  · -- the first equal new neighbour `j` takes over old neighbour `k`
    obtain ⟨hj', hsame, hreq⟩ := h.match_fresh ho hj
    rw [bfdSameNeighbor_iff] at hsame
    rw [modify_eq_set_of (List.getElem?_eq_getElem hj')] at hnew
    refine ⟨⟨fun n hn hna => ?_, fun n hn hna o' ho' => ?_, ?_⟩, ?_, by rw [hfreed], by rw [hold],
      hmade⟩
    · rw [hnew] at hn
      rcases List.mem_or_eq_of_mem_set hn with hn | rfl
      exacts [h.fresh n hn hna, absurd hna (by simp)]
    · rw [hnew] at hn
      rw [hold] at ho'
      rcases List.mem_or_eq_of_mem_set hn with hn | rfl
      · exact h.taken n hn hna o' (hlater o' ho')
      · -- equal to `k`'s match, so equal to `k`, which is distinct from every later one
        refine Bool.eq_false_iff.2 fun hn' => ?_
        have hk' := hdist.1 o' ho'
        rw [bfdSameNeighbor_iff] at hn'
        rw [Bool.eq_false_iff, ne_eq, bfdSameNeighbor_iff] at hk'
        exact hk' (hsame.symm.trans hn')
    · rw [hold]; exact hdist.2
    · have hp := heldReqs_set hj'
        { st.new[j] with neigh := st.old[k].neigh, req := st.old[k].req, active := true }
      rw [hreq, ← hnew] at hp
      dsimp only at hp
      rw [Option.toList_none, List.append_nil] at hp
      simp only [ledger, hold, hfreed, hdrop, heldReqs_cons]
      exact List.perm_iff_count.2 fun a => by
        have := List.perm_iff_count.1 hp a
        simp only [List.count_append] at this ⊢; omega
  · -- no new neighbour equals `k`: it is stopped
    refine ⟨⟨?_, ?_, ?_⟩, ?_, by rw [hfreed]; exact List.prefix_append _ _, by rw [hold]; simp, hmade⟩
    · rw [hnew]; exact h.fresh
    · rw [hnew, hold, drop_modify_self]
      exact fun n hn hna o' ho' => h.taken n hn hna o' (hlater o' ho')
    · rw [hold, drop_modify_self]; exact hdist.2
    · simp only [ledger, hold, hnew, hfreed, drop_modify_self, hdrop, heldReqs_cons, List.append_assoc]
      exact List.Perm.refl _

/-- The outer walk, run to its end over the old neighbours. -/
theorem Walking.run (h : Walking st 0) : ∀ k ≤ st.old.length,
    Walking ((List.range k).foldl reconfigureOne st) k ∧
      (((List.range k).foldl reconfigureOne st).ledger k).Perm (st.ledger 0) ∧
      st.freed <+: ((List.range k).foldl reconfigureOne st).freed ∧
      ((List.range k).foldl reconfigureOne st).old.length = st.old.length ∧
      ((List.range k).foldl reconfigureOne st).made = st.made
  | 0, _ => ⟨h, .refl _, List.prefix_refl _, rfl, rfl⟩
  | k + 1, hk => by
    obtain ⟨hw, hl, hp, hlen, hm⟩ := Walking.run h k (by omega)
    obtain ⟨hw', hl', hp', hlen', hm'⟩ := hw.turn (by omega)
    rw [List.range_succ, List.foldl_append, List.foldl_cons, List.foldl_nil]
    exact ⟨hw', hl'.trans hl, hp.trans hp', hlen'.trans hlen, hm'.trans hm⟩

/-- During the last walk: a neighbour not started holds no request, and the requests held
are pairwise distinct and were all made already. -/
structure Starting (st : NState) : Prop where
  fresh : ∀ n ∈ st.new, n.active = false → n.req = none
  nodup : (heldReqs st.new).Nodup
  made : ∀ h ∈ heldReqs st.new, h < st.made.length

/-- Starting a neighbour gives it a request made now, so distinct from every held one; it takes
none away and releases none. -/
theorem Starting.turn (h : Starting st) (c : NeighCache) (j : Nat) :
    Starting (st.startIfInactive c j) ∧ heldReqs st.new ⊆ heldReqs (st.startIfInactive c j).new ∧
      (st.startIfInactive c j).freed = st.freed := by
  unfold startIfInactive
  split
  · next n hj =>
    split
    · exact ⟨h, List.Subset.refl _, rfl⟩
    · next hna =>
      obtain ⟨hlt, hn⟩ := List.getElem?_eq_some_iff.1 hj
      have hreq : n.req = none := h.fresh n (hn ▸ List.getElem_mem hlt) (by simpa using hna)
      obtain ⟨n', hnew, -, hact, hcase, hfreed⟩ := startNeighbor_new c hj
      have hp := heldReqs_set hlt n'
      rw [hn, hreq, ← hnew, Option.toList_none, List.append_nil] at hp
      refine ⟨⟨fun m hm hma => ?_, ?_, fun x hx => ?_⟩,
        fun x hx => hp.symm.subset (List.mem_append_right _ hx), hfreed⟩
      · rw [hnew] at hm
        rcases List.mem_or_eq_of_mem_set hm with hm | rfl
        exacts [h.fresh m hm hma, absurd hma (by simp [hact])]
      · rcases hcase with ⟨hr, -⟩ | ⟨hr, -⟩
        · rw [hr, hreq] at hp; exact hp.nodup_iff.2 h.nodup
        · rw [hr] at hp
          exact hp.nodup_iff.2 (List.nodup_cons.2 ⟨fun hm => lt_irrefl _ (h.made _ hm), h.nodup⟩)
      · have hx' := hp.subset hx
        rcases hcase with ⟨hr, hle⟩ | ⟨hr, hgt⟩
        · rw [hr, hreq, Option.toList_none, List.nil_append] at hx'
          exact lt_of_lt_of_le (h.made x hx') hle
        · rw [hr] at hx'
          rcases List.mem_cons.1 hx' with rfl | hx'
          exacts [hgt, lt_trans (h.made x hx') hgt]
  · exact ⟨h, List.Subset.refl _, rfl⟩

theorem Starting.run (h : Starting st) (c : NeighCache) (l : List Nat) :
    Starting (l.foldl (startIfInactive c) st) ∧ heldReqs st.new ⊆ heldReqs (l.foldl (startIfInactive c) st).new ∧
      (l.foldl (startIfInactive c) st).freed = st.freed := by
  induction l generalizing st with
  | nil => exact ⟨h, List.Subset.refl _, rfl⟩
  | cons j l ih =>
    obtain ⟨h', hs, hf⟩ := h.turn c j
    obtain ⟨h'', hs', hf'⟩ := ih h'
    exact ⟨h'', hs.trans hs', hf'.trans hf⟩

/-- When no two old neighbours are equal, the reconfiguration moves every old neighbour's
request to exactly one new neighbour or releases it: the requests the new neighbours hold are
pairwise distinct. -/
theorem reconfigure_moves_requests (c : NeighCache) (st : NState) (cf : List NeighborConfig)
    (hd : st.old.Pairwise fun x y => bfdSameNeighbor x y = false) (hn : (heldReqs st.old).Nodup)
    (hm : ∀ h ∈ heldReqs st.old, h < st.made.length) :
    (∀ h ∈ heldReqs st.old, h ∈ (st.reconfigured c cf).freed ∨ h ∈ heldReqs (st.reconfigured c cf).new) ∧
      (heldReqs (st.reconfigured c cf).new).Nodup := by
  have hcf : ∀ n ∈ cf.map NeighborConfig.toNeighbor, n.active = false ∧ n.req = none := by
    simp [NeighborConfig.toNeighbor]
  have h0 : Walking { st with new := cf.map NeighborConfig.toNeighbor } 0 :=
    ⟨fun n hn _ => (hcf n hn).2, fun n hn ha => by simp [(hcf n hn).1] at ha, hd⟩
  obtain ⟨hw, hl, ⟨l, hfreed⟩, hlen, hmade⟩ := h0.run _ le_rfl
  unfold reconfigured bfdReconfigureNeighbors
  generalize (List.range _).foldl reconfigureOne _ = st1 at hw hl hfreed hlen hmade ⊢
  -- the outer walk moved each old request to a new neighbour or to the released ones
  have hreqs0 : heldReqs (cf.map NeighborConfig.toNeighbor) = [] := by
    simp [heldReqs, List.filterMap_map, NeighborConfig.toNeighbor]
  have hdrop : st1.old.drop st.old.length = [] := List.drop_eq_nil_of_le hlen.le
  have hperm : (heldReqs st1.new ++ l).Perm (heldReqs st.old) := by
    simp only [ledger, hreqs0, List.drop_zero, ← hfreed, hdrop, heldReqs_nil] at hl
    exact List.perm_iff_count.2 fun a => by
      have := List.perm_iff_count.1 hl a
      simp only [List.count_append, List.count_nil] at this ⊢; omega
  have hs1 : Starting st1 :=
    ⟨hw.fresh, (hperm.nodup_iff.2 hn).of_append_left,
      fun h hh => hmade ▸ hm h (hperm.subset (List.mem_append_left _ hh))⟩
  obtain ⟨hs, hsub, hfr⟩ := hs1.run c (List.range st1.new.length)
  refine ⟨fun h hh => ?_, hs.nodup⟩
  rcases List.mem_append.1 (hperm.symm.subset hh) with hh | hh
  · exact .inr (hsub hh)
  · exact .inl (by rw [hfr, ← hfreed]; exact List.mem_append_right _ hh)

/-- Two equal multihop neighbours: `bfd_start_neighbor` starts each with a request of its own. -/
def twinMultihop : NeighborConfig := ⟨1, 2, none, true⟩

/-- A neighbour cache that finds no address; multihop neighbours never ask it. -/
def emptyCache : NeighCache := ⟨fun _ _ => none, fun _ => false, fun _ => 0, fun _ => none⟩

/-- The protocol started with the two equal neighbours. -/
def twinStarted : NState := started emptyCache [twinMultihop, twinMultihop]

/-- Reconfigured to one such neighbour, both old neighbours hand their request to it: the
second overwrites the first's, which is neither released nor held by any new neighbour. -/
theorem reconfigure_leaks_twin_request :
    heldReqs twinStarted.old = [0, 1] ∧ (twinStarted.reconfigured emptyCache [twinMultihop]).freed = [] ∧
      heldReqs (twinStarted.reconfigured emptyCache [twinMultihop]).new = [1] := by
  decide

/-- Two different multihop neighbours, started. -/
def pairStarted : NState := started emptyCache [twinMultihop, ⟨3, 2, none, true⟩]

/-- Reconfigured to the first of them, its request moves to the new neighbour and the other's
is released. -/
theorem reconfigure_moves_requests_pair :
    pairStarted.old.Pairwise (fun x y => bfdSameNeighbor x y = false) ∧
      (heldReqs pairStarted.old).Nodup ∧ (∀ h ∈ heldReqs pairStarted.old, h < pairStarted.made.length) ∧
      (∀ h ∈ heldReqs pairStarted.old, h ∈ (pairStarted.reconfigured emptyCache [twinMultihop]).freed ∨
        h ∈ heldReqs (pairStarted.reconfigured emptyCache [twinMultihop]).new) ∧
      (heldReqs (pairStarted.reconfigured emptyCache [twinMultihop]).new).Nodup :=
  have hd : pairStarted.old.Pairwise (fun x y => bfdSameNeighbor x y = false) := by decide
  have hn : (heldReqs pairStarted.old).Nodup := by decide
  have hm : ∀ h ∈ heldReqs pairStarted.old, h < pairStarted.made.length := by decide
  ⟨hd, hn, hm, reconfigure_moves_requests emptyCache pairStarted [twinMultihop] hd hn hm⟩

end NState

end Bfd
