import Bfd.Broker
import Bfd.Frame

/-! # What the broker's operations change

The invariants read a request through its session pointer `ptr`, and the lists through
`listAt`: the wait list for the pointer `none`, a session's request list for `some i`. A
session is read through `info`: what the invariants read of it besides its request list. Each
operation gets one lemma for each of these views. -/
namespace Bfd

/-- What the invariants read of a session besides its request list: its engine, its key, the
notifier's flag, and the link and state of its core. -/
structure SessionInfo where
  engine : Nat
  addr : Nat
  ifindex : Nat
  notifyRunning : Bool
  linked : Bool
  locState : BfdState
  deriving DecidableEq, Repr

def SessionNode.info (sn : SessionNode) : SessionInfo :=
  ⟨sn.engine, sn.addr, sn.ifindex, sn.notifyRunning, sn.core.linked, sn.core.locState⟩

@[simp] theorem SessionNode.info_withList (sn : SessionNode) (l : List Nat) :
    { sn with requestList := l }.info = sn.info := rfl

theorem SessionNode.eq_of_info {sn sn' : SessionNode} (e : sn'.info = sn.info) :
    sn'.engine = sn.engine ∧ sn'.addr = sn.addr ∧ sn'.ifindex = sn.ifindex ∧
      sn'.notifyRunning = sn.notifyRunning ∧ sn'.core.linked = sn.core.linked ∧
        sn'.core.locState = sn.core.locState := by
  simpa only [SessionNode.info, SessionInfo.mk.injEq] using e

namespace Broker

/-- The session pointer of a live request. -/
def ptr (b : Broker) (r : Nat) : Option (Option Nat) := (b.reqs r).map Request.session

/-- The list a request with session pointer `s` belongs on. -/
def listAt (b : Broker) : Option Nat → List Nat
  | none => b.waitList
  | some i => b.requestsOf i

/-- What the invariants read of the sessions besides their lists. -/
def infoOf (b : Broker) (i : Nat) : Option SessionInfo := (b.sess i).map SessionNode.info

/-- What the registry and the placement of requests read of a session: its engine and its
key. -/
structure SessionShape where
  engine : Nat
  addr : Nat
  ifindex : Nat
  deriving DecidableEq, Repr

def SessionInfo.shape (x : SessionInfo) : SessionShape := ⟨x.engine, x.addr, x.ifindex⟩

/-- The sessions as the registry and the placement of requests read them. -/
def shapeOf (b : Broker) (i : Nat) : Option SessionShape := (b.infoOf i).map SessionInfo.shape

/-- The sessions as the notifier's walk reads them: whether it is walking each. -/
def runningOf (b : Broker) (i : Nat) : Option Bool := (b.infoOf i).map SessionInfo.notifyRunning

variable {b : Broker}

@[simp] theorem listAt_none : b.listAt none = b.waitList := rfl
@[simp] theorem listAt_some (i : Nat) : b.listAt (some i) = b.requestsOf i := rfl

theorem requestsOf_eq {i : Nat} {sn : SessionNode} (h : b.sess i = some sn) :
    b.requestsOf i = sn.requestList := by simp [requestsOf, h]

theorem requestsOf_none {i : Nat} (h : b.sess i = none) : b.requestsOf i = [] := by
  simp [requestsOf, h]

/-! ## The three setters -/

section Setters
variable (r i p : Nat) (x : Option Request) (y : Option SessionNode) (e : Engine)

@[simp] theorem setReq_reqs : (b.setReq r x).reqs = Function.update b.reqs r x := rfl
@[simp] theorem setReq_sess : (b.setReq r x).sess = b.sess := rfl
@[simp] theorem setReq_engines : (b.setReq r x).engines = b.engines := rfl
@[simp] theorem setReq_protoList : (b.setReq r x).protoList = b.protoList := rfl
@[simp] theorem setReq_waitList : (b.setReq r x).waitList = b.waitList := rfl
@[simp] theorem setReq_notifier : (b.setReq r x).notifier = b.notifier := rfl
@[simp] theorem setReq_nextId : (b.setReq r x).nextId = b.nextId := rfl
@[simp] theorem setReq_removedLog : (b.setReq r x).removedLog = b.removedLog := rfl
@[simp] theorem setReq_requestsOf : (b.setReq r x).requestsOf = b.requestsOf := rfl

@[simp] theorem setSess_reqs : (b.setSess i y).reqs = b.reqs := rfl
@[simp] theorem setSess_sess : (b.setSess i y).sess = Function.update b.sess i y := rfl
@[simp] theorem setSess_engines : (b.setSess i y).engines = b.engines := rfl
@[simp] theorem setSess_protoList : (b.setSess i y).protoList = b.protoList := rfl
@[simp] theorem setSess_waitList : (b.setSess i y).waitList = b.waitList := rfl
@[simp] theorem setSess_notifier : (b.setSess i y).notifier = b.notifier := rfl
@[simp] theorem setSess_nextId : (b.setSess i y).nextId = b.nextId := rfl
@[simp] theorem setSess_removedLog : (b.setSess i y).removedLog = b.removedLog := rfl

@[simp] theorem setEngine_reqs : (b.setEngine p e).reqs = b.reqs := rfl
@[simp] theorem setEngine_sess : (b.setEngine p e).sess = b.sess := rfl
@[simp] theorem setEngine_engines : (b.setEngine p e).engines = Function.update b.engines p e :=
  rfl
@[simp] theorem setEngine_protoList : (b.setEngine p e).protoList = b.protoList := rfl
@[simp] theorem setEngine_waitList : (b.setEngine p e).waitList = b.waitList := rfl
@[simp] theorem setEngine_notifier : (b.setEngine p e).notifier = b.notifier := rfl
@[simp] theorem setEngine_nextId : (b.setEngine p e).nextId = b.nextId := rfl
@[simp] theorem setEngine_removedLog : (b.setEngine p e).removedLog = b.removedLog := rfl
@[simp] theorem setEngine_requestsOf : (b.setEngine p e).requestsOf = b.requestsOf := rfl

theorem requestsOf_setSess (j : Nat) :
    (b.setSess i y).requestsOf j =
      if j = i then (y.map SessionNode.requestList).getD [] else b.requestsOf j := by
  by_cases h : j = i <;> simp [requestsOf, Function.update_apply, h]

end Setters

/-! ## Unlinking and linking a request -/

variable {r : Nat}

/-- The pointer `rem_node` reads: `none` for the wait list and for a self-linked request. -/
def listOf (b : Broker) (r : Nat) : Option Nat := (b.reqs r).bind Request.session

theorem remNode_listAt (s : Option Nat) :
    (b.remNode r).listAt s = if b.listOf r = s then (b.listAt s).erase r else b.listAt s := by
  unfold remNode listOf
  split
  next i hi =>
    rw [hi]
    split
    next sn hs =>
      cases s with
      | none => simp
      | some j =>
        by_cases hj : j = i
        · subst hj; simp [requestsOf_setSess, hs, requestsOf_eq hs]
        · simp [requestsOf_setSess, hj, Ne.symm hj]
    next hs =>
      cases s with
      | none => simp
      | some j =>
        by_cases hj : j = i
        · subst hj; simp [requestsOf_none hs]
        · simp [Ne.symm hj]
  next hi => rw [hi]; cases s <;> simp [listAt, requestsOf]

theorem remNode_infoOf (j : Nat) : (b.remNode r).infoOf j = b.infoOf j := by
  unfold remNode infoOf
  split
  next i _ =>
    split
    next sn hs => by_cases hj : j = i <;> simp [Function.update_apply, hj, hs]
    next => rfl
  next => rfl

@[simp] theorem remNode_reqs : (b.remNode r).reqs = b.reqs := by
  unfold remNode; split <;> (try split) <;> rfl

@[simp] theorem remNode_engines : (b.remNode r).engines = b.engines := by
  unfold remNode; split <;> (try split) <;> rfl

@[simp] theorem remNode_protoList : (b.remNode r).protoList = b.protoList := by
  unfold remNode; split <;> (try split) <;> rfl

@[simp] theorem remNode_notifier : (b.remNode r).notifier = b.notifier := by
  unfold remNode; split <;> (try split) <;> rfl

@[simp] theorem remNode_nextId : (b.remNode r).nextId = b.nextId := by
  unfold remNode; split <;> (try split) <;> rfl

@[simp] theorem remNode_removedLog : (b.remNode r).removedLog = b.removedLog := by
  unfold remNode; split <;> (try split) <;> rfl

theorem addTail_listAt {s : Option Nat} (hs : ∀ i, s = some i → b.sess i ≠ none)
    (t : Option Nat) :
    (b.addTail s r).listAt t = if t = s then b.listAt t ++ [r] else b.listAt t := by
  cases s with
  | none => cases t <;> simp [addTail, listAt, requestsOf]
  | some i =>
    obtain ⟨sn, hsn⟩ := Option.ne_none_iff_exists'.1 (hs i rfl)
    simp only [addTail, hsn]
    cases t with
    | none => simp
    | some j =>
      by_cases hj : j = i
      · subst hj; simp [requestsOf_setSess, requestsOf_eq hsn]
      · simp [requestsOf_setSess, hj]

theorem addTail_infoOf (s : Option Nat) (j : Nat) : (b.addTail s r).infoOf j = b.infoOf j := by
  cases s with
  | none => rfl
  | some i =>
    simp only [addTail, infoOf]
    split
    next sn hs => by_cases hj : j = i <;> simp [Function.update_apply, hj, hs]
    next => rfl

section AddTail
variable (s : Option Nat)

@[simp] theorem addTail_reqs : (b.addTail s r).reqs = b.reqs := by
  cases s <;> simp only [addTail]; split <;> rfl
@[simp] theorem addTail_engines : (b.addTail s r).engines = b.engines := by
  cases s <;> simp only [addTail]; split <;> rfl
@[simp] theorem addTail_protoList : (b.addTail s r).protoList = b.protoList := by
  cases s <;> simp only [addTail]; split <;> rfl
@[simp] theorem addTail_notifier : (b.addTail s r).notifier = b.notifier := by
  cases s <;> simp only [addTail]; split <;> rfl
@[simp] theorem addTail_nextId : (b.addTail s r).nextId = b.nextId := by
  cases s <;> simp only [addTail]; split <;> rfl
@[simp] theorem addTail_removedLog : (b.addTail s r).removedLog = b.removedLog := by
  cases s <;> simp only [addTail]; split <;> rfl

end AddTail

/-- `moveTo` as `rem_node` followed by `add_tail` and the pointer write. -/
theorem moveTo_eq {req : Request} (hr : b.reqs r = some req) (s : Option Nat) :
    b.moveTo r s = ((b.remNode r).addTail s r).setReq r (some { req with session := s }) := by
  simp [moveTo, hr]

section MoveTo
variable {req : Request} (hr : b.reqs r = some req) {s : Option Nat}
include hr

theorem moveTo_reqs :
    (b.moveTo r s).reqs = Function.update b.reqs r (some { req with session := s }) := by
  simp [moveTo_eq hr]

/-- The request leaves the list of its old pointer and joins the tail of the list of `s`. -/
theorem moveTo_listAt (hs : ∀ i, s = some i → b.sess i ≠ none) (t : Option Nat) :
    (b.moveTo r s).listAt t =
      (if req.session = t then (b.listAt t).erase r else b.listAt t) ++
        (if t = s then [r] else []) := by
  have hs' : ∀ i, s = some i → (b.remNode r).sess i ≠ none := fun i hi h0 => by
    have h1 : (b.remNode r).infoOf i = b.infoOf i := remNode_infoOf i
    simp only [infoOf, h0, Option.map_none'] at h1
    exact hs i hi (Option.map_eq_none'.1 h1.symm)
  have hl : b.listOf r = req.session := by simp [listOf, hr]
  rw [moveTo_eq hr]
  show ((b.remNode r).addTail s r).listAt t = _
  rw [addTail_listAt hs', remNode_listAt, hl]
  split_ifs <;> simp

theorem moveTo_infoOf (j : Nat) : (b.moveTo r s).infoOf j = b.infoOf j := by
  rw [moveTo_eq hr]
  exact (addTail_infoOf s j).trans (remNode_infoOf j)

end MoveTo

section MoveToFields
variable (s : Option Nat)

@[simp] theorem moveTo_engines : (b.moveTo r s).engines = b.engines := by
  unfold moveTo; dsimp only; split <;> simp
@[simp] theorem moveTo_protoList : (b.moveTo r s).protoList = b.protoList := by
  unfold moveTo; dsimp only; split <;> simp
@[simp] theorem moveTo_notifier : (b.moveTo r s).notifier = b.notifier := by
  unfold moveTo; dsimp only; split <;> simp
@[simp] theorem moveTo_nextId : (b.moveTo r s).nextId = b.nextId := by
  unfold moveTo; dsimp only; split <;> simp
@[simp] theorem moveTo_removedLog : (b.moveTo r s).removedLog = b.removedLog := by
  unfold moveTo; dsimp only; split <;> simp

end MoveToFields

/-! ## Sessions through their `info` -/

theorem sess_of_infoOf {b' : Broker} {j : Nat} (h : b'.infoOf j = b.infoOf j)
    {sn' : SessionNode} (hs : b'.sess j = some sn') : ∃ sn, b.sess j = some sn ∧ sn'.info = sn.info := by
  unfold infoOf at h
  rw [hs] at h
  cases hb : b.sess j with
  | none => rw [hb] at h; cases h
  | some sn => rw [hb] at h; exact ⟨sn, rfl, Option.some.inj h⟩

theorem shapeOf_congr {b' : Broker} (h : ∀ j, b'.infoOf j = b.infoOf j) (j : Nat) :
    b'.shapeOf j = b.shapeOf j := by
  simp [shapeOf, h]

theorem runningOf_congr {b' : Broker} (h : ∀ j, b'.infoOf j = b.infoOf j) (j : Nat) :
    b'.runningOf j = b.runningOf j := by
  simp [runningOf, h]

theorem sess_of_shapeOf {b' : Broker} {j : Nat} (h : b'.shapeOf j = b.shapeOf j)
    {sn' : SessionNode} (hs : b'.sess j = some sn') : ∃ sn, b.sess j = some sn ∧
      sn'.engine = sn.engine ∧ sn'.addr = sn.addr ∧ sn'.ifindex = sn.ifindex := by
  unfold shapeOf infoOf at h
  rw [hs] at h
  cases hb : b.sess j with
  | none => rw [hb] at h; cases h
  | some sn =>
    rw [hb] at h
    simp only [Option.map_some', Option.some.injEq, SessionNode.info, SessionInfo.shape,
      SessionShape.mk.injEq] at h
    exact ⟨sn, rfl, h⟩

theorem sess_none_of_shapeOf {b' : Broker} {j : Nat} (h : b'.shapeOf j = b.shapeOf j) :
    b'.sess j = none ↔ b.sess j = none := by
  unfold shapeOf infoOf at h
  cases h1 : b'.sess j <;> cases h2 : b.sess j <;> simp_all

theorem sess_of_runningOf {b' : Broker} {j : Nat} (h : b'.runningOf j = b.runningOf j)
    {sn' : SessionNode} (hs : b'.sess j = some sn') :
    ∃ sn, b.sess j = some sn ∧ sn'.notifyRunning = sn.notifyRunning := by
  unfold runningOf infoOf at h
  rw [hs] at h
  cases hb : b.sess j with
  | none => rw [hb] at h; cases h
  | some sn =>
    rw [hb] at h
    simp only [Option.map_some', Option.some.injEq, SessionNode.info] at h
    exact ⟨sn, rfl, h⟩

theorem sess_none_of_runningOf {b' : Broker} {j : Nat} (h : b'.runningOf j = b.runningOf j) :
    b'.sess j = none ↔ b.sess j = none := by
  unfold runningOf infoOf at h
  cases h1 : b'.sess j <;> cases h2 : b.sess j <;> simp_all

end Broker

end Bfd
