import Bfd.BrokerFrame

/-! # The broker's invariant

What holds in every reachable broker, in dependency order: the lists agree with the
requests' session pointers (`Lists`); identifiers at or past the counter are unused
(`Fresh`); every session is registered in its engine (`Registry`); `notify_running` marks
exactly the session the notifier walks, whose next request is on its list (`Walk`); a waiting
request is rejected by every running engine and an attached one sits in a session of a
running engine that accepts it, under its key (`Placed`); a session of a running engine has
a request unless the notifier walks it (`Populated`); a linked session is on a notify list
whose pipe will be read (`Notified`), and a request of an unlinked session has the session's
state unless the walk has still to reach it (`Delivered`).

`Placed` takes the requests it excuses as a parameter: while `bfd_start` walks the wait list
the requests it has not reached may be accepted by the new engine, and while
`bfd_shutdown` hands requests back the ones it has not reached still sit in the stopped
engine's sessions. -/
namespace Bfd

/-! ## The walk over a request list -/

/-- The part of `l` from `c` on. -/
def suffixFrom (c : Nat) : List Nat → List Nat
  | [] => []
  | x :: l => if x = c then x :: l else suffixFrom c l

theorem suffixFrom_cons (c x : Nat) (l : List Nat) :
    suffixFrom c (x :: l) = if x = c then x :: l else suffixFrom c l := rfl

theorem listNext_cons_cons (n x y : Nat) (l : List Nat) :
    listNext n (x :: y :: l) = if x = n then some y else listNext n (y :: l) := rfl

theorem suffixFrom_append {c : Nat} {l : List Nat} (hc : c ∈ l) (m : List Nat) :
    suffixFrom c (l ++ m) = suffixFrom c l ++ m := by
  induction l with
  | nil => simp at hc
  | cons x l ih =>
    simp only [List.cons_append, suffixFrom]
    split
    · rfl
    · exact ih ((List.mem_cons.1 hc).resolve_left (Ne.symm ‹_›))

theorem mem_suffixFrom_erase {c x y : Nat} (hx : x ≠ y) (hc : c ≠ y) :
    ∀ {l : List Nat}, x ∈ suffixFrom c l → x ∈ suffixFrom c (l.erase y)
  | [] => id
  | z :: l => by
    by_cases hz : z = y
    · subst hz
      have hzc : z ≠ c := fun e => hc e.symm
      rw [List.erase_cons_head]
      simp only [suffixFrom, hzc, if_false]
      exact id
    · rw [List.erase_cons_tail (by simpa using hz)]
      by_cases hzc : z = c
      · simp only [suffixFrom, hzc, if_true]
        intro h
        rcases List.mem_cons.1 h with rfl | h
        · exact List.mem_cons_self _ _
        · exact List.mem_cons_of_mem _ ((List.mem_erase_of_ne hx).2 h)
      · simp only [suffixFrom, hzc, if_false]
        exact mem_suffixFrom_erase hx hc

theorem suffixFrom_head (l : List Nat) : ∀ c, l.head? = some c → suffixFrom c l = l := by
  cases l with
  | nil => simp
  | cons x l => intro c h; simp only [List.head?_cons, Option.some.injEq] at h; simp [suffixFrom, h]

theorem listNext_mem {n m : Nat} : ∀ {l : List Nat}, listNext n l = some m → m ∈ l
  | [] => by simp [listNext]
  | [_] => by simp [listNext]
  | x :: y :: l => by
    by_cases hx : x = n
    · simp only [listNext, hx, if_true, Option.some.injEq]
      intro h; subst h; simp
    · simp only [listNext, hx, if_false]
      exact fun h => List.mem_cons_of_mem x (listNext_mem h)

/-- In a list without repeats, the part from `n` is `n` followed by the part from the next
request. -/
theorem suffixFrom_listNext {n : Nat} :
    ∀ {l : List Nat}, l.Nodup → n ∈ l →
      suffixFrom n l = n :: (match listNext n l with
        | some m => suffixFrom m l
        | none => [])
  | [], _, h => by simp at h
  | [x], _, h => by
    simp only [List.mem_singleton] at h; subst h; simp [suffixFrom, listNext]
  | x :: y :: l, hd, h => by
    obtain ⟨hx, hd'⟩ := List.nodup_cons.1 hd
    by_cases hxn : x = n
    · subst hxn
      have hxy : x ≠ y := fun e => hx (e ▸ List.mem_cons_self _ _)
      rw [suffixFrom_cons, if_pos rfl, listNext_cons_cons, if_pos rfl]
      dsimp only
      rw [suffixFrom_cons, if_neg hxy, suffixFrom_cons, if_pos rfl]
    · have ih := suffixFrom_listNext hd' ((List.mem_cons.1 h).resolve_left (Ne.symm hxn))
      rw [suffixFrom_cons, if_neg hxn, listNext_cons_cons, if_neg hxn, ih]
      cases hn : listNext n (y :: l) with
      | none => rfl
      | some m =>
        have hxm : x ≠ m := fun e => hx (e ▸ listNext_mem hn)
        dsimp only
        rw [suffixFrom_cons m x, if_neg hxm]

theorem nodup_append_single {l : List Nat} {r : Nat} (hl : l.Nodup) (hr : r ∉ l) :
    (l ++ [r]).Nodup :=
  List.pairwise_append.2 ⟨hl, List.pairwise_singleton _ _, fun a ha b hb => by
    rw [List.mem_singleton] at hb; subst hb; exact fun e => hr (e ▸ ha)⟩

namespace Notifier

/-- The session whose requests the notifier walks. -/
def dispatched : Notifier → Option Nat
  | dispatching _ _ s _ _ => some s
  | _ => none

/-- The requests on list `l` of session `i` that the walk has still to reach. -/
def pendingOf (i : Nat) (l : List Nat) : Notifier → List Nat
  | dispatching _ _ j _ (some c) => if j = i then suffixFrom c l else []
  | _ => []

end Notifier

/-- What the notification reads of an engine: its notify list, its pipe and its pending
kick. -/
def Engine.signal (e : Engine) : List Nat × Bool × Bool := (e.notifyList, e.pipe, e.kickPending)

theorem Engine.notifyList_signal (e : Engine) : e.signal.1 = e.notifyList := rfl
theorem Engine.pipe_signal (e : Engine) : e.signal.2.1 = e.pipe := rfl
theorem Engine.kickPending_signal (e : Engine) : e.signal.2.2 = e.kickPending := rfl

namespace Broker

/-! ## The invariant -/

/-- Every list holds, once each, exactly the live requests whose pointer names it. -/
structure Lists (b : Broker) : Prop where
  mem_iff : ∀ s r, r ∈ b.listAt s ↔ b.ptr r = some s
  nodup : ∀ s, (b.listAt s).Nodup

structure Fresh (b : Broker) : Prop where
  req : ∀ n, b.nextId ≤ n → b.reqs n = none
  sess : ∀ n, b.nextId ≤ n → b.sess n = none
  engine : ∀ i sn, b.sess i = some sn → sn.engine < b.nextId
  proto : ∀ p ∈ b.protoList, p < b.nextId

structure Registry (b : Broker) : Prop where
  registered : ∀ i sn, b.sess i = some sn → i ∈ (b.engines sn.engine).sessions
  engine_of : ∀ p i sn, i ∈ (b.engines p).sessions → b.sess i = some sn → sn.engine = p
  live : ∀ p i, i ∈ (b.engines p).sessions → b.sess i ≠ none
  nodup : ∀ p, (b.engines p).sessions.Nodup
  proto_nodup : b.protoList.Nodup

structure Walk (b : Broker) : Prop where
  running : ∀ i sn, b.sess i = some sn →
    (sn.notifyRunning = true ↔ b.notifier.dispatched = some i)
  alive : ∀ i, b.notifier.dispatched = some i → b.sess i ≠ none
  cursor : ∀ i n, b.notifier.dispatched = some i → b.notifier.cursor = some n →
    n ∈ b.requestsOf i

/-- Where request `r` with fields `req` may be: waiting and rejected by every running
engine, or in a session of a running engine that accepts it, under its key. `ex` excuses. -/
def PlacedAt (b : Broker) (ex : Nat → Nat → Prop) (r : Nat) (req : Request) : Prop :=
  (req.session = none → ∀ p ∈ b.protoList, bfdAccepts (b.engines p).cf req = false ∨ ex p r) ∧
  ∀ i sn, req.session = some i → b.sess i = some sn →
    (sn.engine ∈ b.protoList ∨ ex sn.engine r) ∧ bfdAccepts (b.engines sn.engine).cf req = true ∧
      sn.addr = req.addr ∧ sn.ifindex = req.ifindex

def Placed (b : Broker) (ex : Nat → Nat → Prop) : Prop :=
  ∀ r req, b.reqs r = some req → b.PlacedAt ex r req

structure Populated (b : Broker) : Prop where
  nonempty : ∀ i sn, b.sess i = some sn → sn.engine ∈ b.protoList →
    sn.requestList ≠ [] ∨ sn.notifyRunning = true
  removed : ∀ sn ∈ b.removedLog, sn.requestList = [] ∧ sn.notifyRunning = false

structure Notified (b : Broker) : Prop where
  listed : ∀ i sn, b.sess i = some sn → sn.core.linked = true →
    i ∈ (b.engines sn.engine).notifyList ∨ i ∈ b.notifier.tmpOf sn.engine
  kicked : ∀ p ∈ b.protoList, (b.engines p).notifyList ≠ [] →
    (b.engines p).pipe = true ∨ (b.engines p).kickPending = true ∨ b.notifier = .drained p
  snapshot : ∀ p tmp i snap cur sn, b.notifier = .dispatching p tmp i snap cur →
    b.sess i = some sn → sn.core.linked = false → snap.1 = sn.core.locState

/-- Request `r` has the state of its session, unless the session is linked or the walk has
still to reach `r`. -/
def DeliveredAt (b : Broker) (r : Nat) : Prop :=
  ∀ req i sn, b.reqs r = some req → req.session = some i → b.sess i = some sn →
    sn.core.linked = true ∨ req.state = sn.core.locState ∨
      r ∈ b.notifier.pendingOf i sn.requestList

/-- Everything but the delivery of states to requests. -/
structure Core (b : Broker) (ex : Nat → Nat → Prop) : Prop where
  lists : Lists b
  fresh : Fresh b
  registry : Registry b
  walk : Walk b
  placed : Placed b ex
  populated : Populated b
  notified : Notified b

structure Inv (b : Broker) (ex : Nat → Nat → Prop) : Prop where
  core : Core b ex
  delivered : ∀ r, b.DeliveredAt r

variable {b : Broker} {r : Nat} {req : Request} {s : Option Nat}

/-! ## Lists -/

/-- The lists agree with the pointers, except that request `r` may be on no list: a request
`bfd_request_session` has made and not yet submitted. -/
structure ListsOff (b : Broker) (r : Nat) : Prop where
  mem_iff : ∀ s q, q ≠ r → (q ∈ b.listAt s ↔ b.ptr q = some s)
  mem_own : ∀ s, r ∈ b.listAt s → b.ptr r = some s
  nodup : ∀ s, (b.listAt s).Nodup

theorem Lists.off (h : Lists b) (r : Nat) : ListsOff b r :=
  ⟨fun s q _ => h.mem_iff s q, fun s => (h.mem_iff s r).1, h.nodup⟩

theorem ptr_moveTo (hr : b.reqs r = some req) (q : Nat) :
    (b.moveTo r s).ptr q = if q = r then some s else b.ptr q := by
  by_cases hq : q = r <;> simp [ptr, moveTo_reqs hr, Function.update_apply, hq]

theorem ListsOff.moveTo (h : ListsOff b r) (hr : b.reqs r = some req)
    (hs : ∀ i, s = some i → b.sess i ≠ none) : Lists (b.moveTo r s) := by
  have hold : ∀ t, r ∈ b.listAt t → req.session = t := fun t ht => by
    simpa [ptr, hr] using h.mem_own t ht
  constructor
  · intro t q
    rw [moveTo_listAt hr hs, ptr_moveTo hr]
    by_cases hq : q = r
    · subst hq
      simp only [List.mem_append, if_true, Option.some.injEq]
      constructor
      · rintro (h1 | h1)
        · split_ifs at h1 with h2
          · exact absurd h1 ((h.nodup t).not_mem_erase)
          · exact absurd (hold t h1) h2
        · split_ifs at h1 with h2
          · exact h2.symm
          · simp at h1
      · rintro rfl; simp
    · simp only [List.mem_append, hq, if_false, ← h.mem_iff t q hq]
      split_ifs <;> simp [List.mem_erase_of_ne hq, hq]
  · intro t
    rw [moveTo_listAt hr hs]
    have hne : req.session ≠ t → r ∉ b.listAt t := fun h2 h1 => h2 (hold t h1)
    split_ifs with h1 h2 h2
    · exact nodup_append_single ((h.nodup t).erase r) (h.nodup t).not_mem_erase
    · simpa using (h.nodup t).erase r
    · exact nodup_append_single (h.nodup t) (hne h1)
    · simpa using h.nodup t

/-! ## Components that an operation leaves alone

Each component reads a few views of the broker; when those agree, it carries over. Sessions
are compared through `shapeOf` (engine and key), `runningOf` (the walk's flag) and `infoOf`
(these and the link and state of the core), whichever the component reads. -/

section Congr
variable {b' : Broker}

theorem Lists.congr (h : Lists b) (hp : ∀ q, b'.ptr q = b.ptr q)
    (hl : ∀ t, b'.listAt t = b.listAt t) : Lists b' :=
  ⟨fun t q => by rw [hl, hp]; exact h.mem_iff t q, fun t => by rw [hl]; exact h.nodup t⟩

theorem Fresh.congr (h : Fresh b) (hr : ∀ q, b.reqs q = none → b'.reqs q = none)
    (hi : ∀ j, b'.shapeOf j = b.shapeOf j) (hp : b'.protoList = b.protoList)
    (hn : b'.nextId = b.nextId) : Fresh b' where
  req n hn' := hr n (h.req n (hn ▸ hn'))
  sess n hn' := (sess_none_of_shapeOf (hi n)).2 (h.sess n (hn ▸ hn'))
  engine i sn' hs := by
    obtain ⟨sn, hb, e, -⟩ := sess_of_shapeOf (hi i) hs
    rw [hn, e]
    exact h.engine i sn hb
  proto p hm := hn ▸ h.proto p (hp ▸ hm)

theorem Registry.congr (h : Registry b) (hi : ∀ j, b'.shapeOf j = b.shapeOf j)
    (he : ∀ p, (b'.engines p).sessions = (b.engines p).sessions)
    (hp : b'.protoList = b.protoList) : Registry b' where
  registered i sn' hs := by
    obtain ⟨sn, hb, e, -⟩ := sess_of_shapeOf (hi i) hs
    rw [he, e]
    exact h.registered i sn hb
  engine_of p i sn' hm hs := by
    obtain ⟨sn, hb, e, -⟩ := sess_of_shapeOf (hi i) hs
    rw [he] at hm
    exact e.trans (h.engine_of p i sn hm hb)
  live p i hm := by
    rw [he] at hm
    exact fun h0 => h.live p i hm ((sess_none_of_shapeOf (hi i)).1 h0)
  nodup p := by rw [he]; exact h.nodup p
  proto_nodup := hp ▸ h.proto_nodup

theorem Walk.congr (h : Walk b) (hi : ∀ j, b'.runningOf j = b.runningOf j)
    (hd : b'.notifier.dispatched = b.notifier.dispatched)
    (hc : b'.notifier.cursor = b.notifier.cursor) (hl : ∀ j, b.notifier.dispatched = some j →
      ∀ n, b.notifier.cursor = some n → n ∈ b.requestsOf j → n ∈ b'.requestsOf j) : Walk b' where
  running i sn' hs := by
    obtain ⟨sn, hb, e⟩ := sess_of_runningOf (hi i) hs
    rw [hd, e]
    exact h.running i sn hb
  alive i hd' := fun h0 => h.alive i (hd ▸ hd') ((sess_none_of_runningOf (hi i)).1 h0)
  cursor i n hd' hc' := hl i (hd ▸ hd') n (hc ▸ hc') (h.cursor i n (hd ▸ hd') (hc ▸ hc'))

theorem PlacedAt.congr {ex : Nat → Nat → Prop} {q : Nat} {req : Request} (h : b.PlacedAt ex q req)
    (hi : ∀ j, b'.shapeOf j = b.shapeOf j) (he : ∀ p, (b'.engines p).cf = (b.engines p).cf)
    (hp : b'.protoList = b.protoList) : b'.PlacedAt ex q req := by
  refine ⟨fun hn => by rw [hp]; simp only [he]; exact h.1 hn, fun i sn' hs hsn => ?_⟩
  obtain ⟨sn, hb, e1, e2, e3⟩ := sess_of_shapeOf (hi i) hsn
  rw [e1, e2, e3, hp, he]
  exact h.2 i sn hs hb

theorem Placed.congr {ex : Nat → Nat → Prop} (h : Placed b ex) (hr : b'.reqs = b.reqs)
    (hi : ∀ j, b'.shapeOf j = b.shapeOf j) (he : ∀ p, (b'.engines p).cf = (b.engines p).cf)
    (hp : b'.protoList = b.protoList) : Placed b' ex :=
  fun q req hq => (h q req (hr ▸ hq)).congr hi he hp

theorem Populated.congr (h : Populated b) (hi : ∀ j, b'.shapeOf j = b.shapeOf j)
    (hr : ∀ j, b'.runningOf j = b.runningOf j) (hl : ∀ j, b'.requestsOf j = b.requestsOf j)
    (hp : b'.protoList = b.protoList) (hlog : b'.removedLog = b.removedLog) : Populated b' := by
  refine ⟨fun i sn' hs hm => ?_, fun sn h1 => h.removed sn (hlog ▸ h1)⟩
  obtain ⟨sn, hb, e1, -⟩ := sess_of_shapeOf (hi i) hs
  obtain ⟨sn₀, hb₀, e4⟩ := sess_of_runningOf (hr i) hs
  rw [hb] at hb₀; cases hb₀
  rw [← requestsOf_eq hs, hl, requestsOf_eq hb, e4]
  exact h.nonempty i sn hb (e1 ▸ hp ▸ hm)

theorem Notified.congr (h : Notified b) (hi : ∀ j, b'.infoOf j = b.infoOf j)
    (he : ∀ p, (b'.engines p).signal = (b.engines p).signal) (hp : b'.protoList = b.protoList)
    (hn : b'.notifier = b.notifier) : Notified b' where
  listed i sn' hs hl := by
    obtain ⟨sn, hb, e⟩ := sess_of_infoOf (hi i) hs
    obtain ⟨e1, -, -, -, e2, -⟩ := SessionNode.eq_of_info e
    rw [e1, ← Engine.notifyList_signal, he, Engine.notifyList_signal, hn]
    exact h.listed i sn hb (e2 ▸ hl)
  kicked p hm := by
    rw [← Engine.notifyList_signal, ← Engine.pipe_signal, ← Engine.kickPending_signal, he,
      Engine.notifyList_signal, Engine.pipe_signal, Engine.kickPending_signal, hn]
    exact h.kicked p (hp ▸ hm)
  snapshot p tmp i snap cur sn' hd hs hl := by
    obtain ⟨sn, hb, e⟩ := sess_of_infoOf (hi i) hs
    obtain ⟨-, -, -, -, e2, e3⟩ := SessionNode.eq_of_info e
    rw [e2] at hl; rw [e3]
    exact h.snapshot p tmp i snap cur sn (hn ▸ hd) hb hl

theorem DeliveredAt.congr {q : Nat} (h : b.DeliveredAt q) (hr : b'.reqs q = b.reqs q)
    (hi : ∀ j, b'.infoOf j = b.infoOf j) (hl : ∀ j, b'.requestsOf j = b.requestsOf j)
    (hn : ∀ j l, b'.notifier.pendingOf j l = b.notifier.pendingOf j l) : b'.DeliveredAt q := by
  intro req i sn' h1 h2 h3
  obtain ⟨sn, hb, e⟩ := sess_of_infoOf (hi i) h3
  obtain ⟨-, -, -, -, e5, e6⟩ := SessionNode.eq_of_info e
  rw [hn, e5, e6, ← requestsOf_eq h3, hl, requestsOf_eq hb]
  exact h req i sn (hr ▸ h1) h2 hb

/-- An operation that changes nothing the invariant reads keeps it. -/
theorem Inv.congr {ex : Nat → Nat → Prop} (h : Inv b ex) (hr : b'.reqs = b.reqs)
    (hi : ∀ j, b'.infoOf j = b.infoOf j) (hl : ∀ j, b'.requestsOf j = b.requestsOf j)
    (hw : b'.waitList = b.waitList) (he : ∀ p, b'.engines p = b.engines p)
    (hp : b'.protoList = b.protoList) (hn : b'.notifier = b.notifier)
    (hid : b'.nextId = b.nextId) (hlog : b'.removedLog = b.removedLog) : Inv b' ex := by
  have hls : ∀ t, b'.listAt t = b.listAt t := fun t => by cases t <;> simp [hw, hl]
  have hsh := shapeOf_congr hi
  have hrun := runningOf_congr hi
  exact ⟨⟨h.core.lists.congr (fun q => by simp [ptr, hr]) hls,
    h.core.fresh.congr (fun q => by rw [hr]; exact id) hsh hp hid,
    h.core.registry.congr hsh (by simp [he]) hp,
    h.core.walk.congr hrun (by rw [hn]) (by rw [hn]) (fun j _ n _ hm => by rwa [hl]),
    h.core.placed.congr hr hsh (by simp [he]) hp, h.core.populated.congr hsh hrun hl hp hlog,
    h.core.notified.congr hi (by simp [he]) hp hn⟩,
    fun q => (h.delivered q).congr (by rw [hr]) hi hl (by simp [hn])⟩

end Congr

/-! ## Hooks -/

/-- What a broker call leaves alone, request `r` apart: the walk's cursor, the engine list,
the session pointer of every older request, and the engine of every older session that is
still there. -/
structure Kept (r : Nat) (b b' : Broker) : Prop where
  cursor : b'.notifier.cursor = b.notifier.cursor
  protoList : b'.protoList = b.protoList
  nextId : b.nextId ≤ b'.nextId
  ptr : ∀ q, q ≠ r → q < b.nextId → b'.ptr q = b.ptr q
  engine : ∀ i sn', i < b.nextId → b'.sess i = some sn' →
    ∃ sn, b.sess i = some sn ∧ sn'.engine = sn.engine

theorem Kept.refl (r : Nat) (b : Broker) : Kept r b b :=
  ⟨rfl, rfl, le_rfl, fun _ _ _ => rfl, fun _ _ _ h => ⟨_, h, rfl⟩⟩

theorem Kept.trans {r : Nat} {b₁ b₂ b₃ : Broker} (h₁ : Kept r b₁ b₂) (h₂ : Kept r b₂ b₃) :
    Kept r b₁ b₃ where
  cursor := h₂.cursor.trans h₁.cursor
  protoList := h₂.protoList.trans h₁.protoList
  nextId := h₁.nextId.trans h₂.nextId
  ptr q hq hn := (h₂.ptr q hq (lt_of_lt_of_le hn h₁.nextId)).trans (h₁.ptr q hq hn)
  engine i sn₃ hi h₃ := by
    obtain ⟨sn₂, h₂', e₂⟩ := h₂.engine i sn₃ (lt_of_lt_of_le hi h₁.nextId) h₃
    obtain ⟨sn₁, h₁', e₁⟩ := h₁.engine i sn₂ hi h₂'
    exact ⟨sn₁, h₁', e₂.trans e₁⟩

/-- A call that changes no session's `info` keeps the engine of every session. -/
theorem engine_of_infoOf {b b' : Broker} (hi : ∀ j, b'.infoOf j = b.infoOf j) (i : Nat)
    (sn' : SessionNode) (hs : b'.sess i = some sn') : ∃ sn, b.sess i = some sn ∧ sn'.engine = sn.engine :=
  let ⟨sn, hb, e⟩ := sess_of_infoOf (hi i) hs
  ⟨sn, hb, (SessionNode.eq_of_info e).1⟩

/-- A call that keeps every request but any one keeps them all. -/
theorem Kept.ptr_all {b b' : Broker} (h : ∀ r, Kept r b b') {q : Nat} (hq : q < b.nextId) :
    b'.ptr q = b.ptr q :=
  (h (q + 1)).ptr q (by omega) hq

/-- What the broker asks of request `r`'s hook: from a state of the invariant whose walk is
not at `r`, it keeps the invariant; it keeps what `Kept` names, and moves `r` only off its
list. -/
structure HookOk (ex : Nat → Nat → Prop) (r : Nat) (hook : Broker → Broker) : Prop where
  inv : ∀ b, Inv b ex → b.notifier.cursor ≠ some r → Inv (hook b) ex
  kept : ∀ b, Kept r b (hook b)
  ptr_own : ∀ b, r < b.nextId → (hook b).ptr r = b.ptr r ∨ (hook b).ptr r = none

theorem hookOk_id (ex : Nat → Nat → Prop) (r : Nat) : HookOk ex r id :=
  ⟨fun _ h _ => h, Kept.refl r, fun _ _ => Or.inl rfl⟩

theorem HookOk.comp {ex : Nat → Nat → Prop} {r : Nat} {f g : Broker → Broker}
    (hf : HookOk ex r f) (hg : HookOk ex r g) : HookOk ex r (g ∘ f) where
  inv b h hc := hg.inv _ (hf.inv b h hc) (by rwa [(hf.kept b).cursor])
  kept b := (hf.kept b).trans (hg.kept _)
  ptr_own b hn := by
    rcases hf.ptr_own b hn with e | e <;>
      rcases hg.ptr_own (f b) (lt_of_lt_of_le hn (hf.kept b).nextId) with e' | e' <;>
      simp only [Function.comp_apply, e', e, true_or, or_true]

/-! ## Writing a request's fields -/

theorem bfdAccepts_congr (cf : BfdConfig) {req req' : Request} (ha : req'.addr = req.addr)
    (hi : req'.iface = req.iface) (hv : req'.vrf = req.vrf) :
    bfdAccepts cf req' = bfdAccepts cf req := by
  simp only [bfdAccepts, ha, hi, hv]

variable {ex : Nat → Nat → Prop}

theorem PlacedAt.write {q : Nat} {req req' : Request} (h : b.PlacedAt ex q req)
    (ha : req'.addr = req.addr) (hi : req'.iface = req.iface) (hv : req'.vrf = req.vrf)
    (hs : req'.session = req.session) : b.PlacedAt ex q req' := by
  have hx : req'.ifindex = req.ifindex := by simp [Request.ifindex, hi]
  refine ⟨fun hn p hp => ?_, fun i sn h1 h2 => ?_⟩
  · rw [bfdAccepts_congr _ ha hi hv]; exact h.1 (hs ▸ hn) p hp
  · rw [bfdAccepts_congr _ ha hi hv, ha, hx]; exact h.2 i sn (hs ▸ h1) h2

/-- A write of the fields `bfd_request_notify` or `bfd_update_request` change. -/
theorem Core.write (h : Core b ex) (hr : b.reqs r = some req) {req' : Request}
    (ha : req'.addr = req.addr) (hi : req'.iface = req.iface) (hv : req'.vrf = req.vrf)
    (hs : req'.session = req.session) : Core (b.setReq r (some req')) ex := by
  have hreq : ∀ q, q ≠ r → (b.setReq r (some req')).reqs q = b.reqs q := fun q hq => by
    simp [Function.update_apply, hq]
  refine ⟨h.lists.congr (fun q => ?_) (fun t => by cases t <;> rfl), h.fresh.congr (fun q => ?_)
    (fun _ => rfl) rfl rfl, h.registry.congr (fun _ => rfl) (fun _ => rfl) rfl,
    h.walk.congr (fun _ => rfl) rfl rfl (fun _ _ _ _ hm => hm), fun q rq hq => ?_,
    h.populated.congr (fun _ => rfl) (fun _ => rfl) (fun _ => rfl) rfl rfl, h.notified.congr (fun _ => rfl) (fun _ => rfl) rfl rfl⟩
  · by_cases hq : q = r
    · subst hq; simp [ptr, hr, hs]
    · simp [ptr, hreq q hq]
  · by_cases hq : q = r
    · subst hq; simp [hr]
    · rw [hreq q hq]; exact id
  · by_cases hqr : q = r
    · subst hqr
      simp only [setReq_reqs, Function.update_same, Option.some.injEq] at hq; subst hq
      exact (h.placed q req hr).write ha hi hv hs
    · rw [hreq q hqr] at hq; exact h.placed q rq hq

/-- `bfd_request_notify` with a state `st` the request's session has, unless the session is
linked or the walk has still to reach the request: the invariant holds after it, hook
included. -/
theorem Inv.requestNotify {hook : Broker → Broker} {st rem : BfdState} {diag : Nat}
    (h : Core b ex) (hd : ∀ q, q ≠ r → b.DeliveredAt q) (hk : HookOk ex r hook)
    (hc : b.notifier.cursor ≠ some r)
    (hst : ∀ req i sn, b.reqs r = some req → req.session = some i → b.sess i = some sn →
      sn.core.linked = true ∨ st = sn.core.locState ∨ r ∈ b.notifier.pendingOf i sn.requestList) :
    Inv (b.bfdRequestNotify r st rem diag hook) ex := by
  unfold bfdRequestNotify
  split
  · next hr => exact ⟨h, fun q => if hq : q = r then fun req => by simp [hq, hr] else hd q hq⟩
  · next req hr =>
    split_ifs with he
    · refine ⟨h, fun q => if hq : q = r then ?_ else hd q hq⟩
      subst hq; intro req' i sn h1 h2 h3
      rw [hr] at h1; cases h1
      rw [← he]; exact hst req i sn hr h2 h3
    · refine hk.inv _ ⟨h.write hr rfl rfl rfl rfl, fun q => ?_⟩ hc
      by_cases hq : q = r
      · subst hq; intro req' i sn h1 h2 h3
        simp only [setReq_reqs, Function.update_same, Option.some.injEq] at h1; subst h1
        exact hst req i sn hr h2 h3
      · exact (hd q hq).congr (by simp [Function.update_apply, hq]) (fun _ => rfl) (fun _ => rfl)
          fun _ _ => rfl

end Broker

end Bfd
