import Bfd.Basic
import Mathlib.Data.Fintype.Basic

/-! # The session registry of one engine

The registry part of `bfd.c`: the two hash tables of a `struct bfd_proto`
(`session_hash_id` by discriminator, `session_hash_ip` by `(addr, ifindex)`), its
`iface_list` of interface bindings with their use counts, and the functions that keep them:
`bfd_get_free_id`, `bfd_get_iface`, `bfd_free_iface`, and the registry part of
`bfd_add_session`, `bfd_remove_session` and `bfd_add_request`. A hash table is the list of
the sessions it holds; `HASH_FIND` returns one of them with the key. Pointers are numbers
drawn from one counter, so a freed pointer never comes back.

The loop of `bfd_get_free_id` is unbounded in C. It is modelled with `2^32` probes, which try
every 32-bit value once: on a registry with fewer than `2^32 - 1` sessions the loop returns,
with the first free value from its random start on. -/
namespace Bfd

/-- A `struct bfd_session` as the registry code sees it: its hash key `(addr, ifindex)`, its
discriminator `loc_id` and its interface binding `ifa`. -/
structure SessionEntry where
  addr : Nat
  ifindex : Nat
  locId : BitVec 32
  ifa : Nat
  deriving DecidableEq, Repr

/-- A `struct bfd_iface`: the local address and the interface (its index, `none` for a
multihop binding) it was made for, and its use count `uc`. Modelled from the spec: `bfd.h`
is not under src/, so `uc` is taken unbounded; it never goes below 1 on a listed binding,
so `--ifa->uc` never wraps. -/
structure IfaceEntry where
  localAddr : Nat
  iface : Option Nat
  uc : Nat
  deriving DecidableEq, Repr

/-- The registry of one `struct bfd_proto`: the allocated sessions and bindings, the two
hash tables and `iface_list` as lists of pointers, and the next fresh pointer. -/
structure Tables where
  sess : Nat → Option SessionEntry
  ifas : Nat → Option IfaceEntry
  hashId : List Nat
  hashIp : List Nat
  ifaceList : List Nat
  next : Nat

namespace Tables

/-- The registry of an engine `bfd_start` has just set up. -/
def empty : Tables := ⟨fun _ => none, fun _ => none, [], [], [], 0⟩

/-- `bfd_find_session_by_id`: `HASH_FIND` over `session_hash_id`. -/
def bfdFindSessionById (t : Tables) (id : BitVec 32) : Option Nat :=
  t.hashId.find? fun s => (t.sess s).any fun e => e.locId == id

/-- `bfd_find_session_by_addr`: `HASH_FIND` over `session_hash_ip`. -/
def bfdFindSessionByAddr (t : Tables) (addr ifindex : Nat) : Option Nat :=
  t.hashIp.find? fun s => (t.sess s).any fun e => e.addr == addr && e.ifindex == ifindex

/-- The loop of `bfd_get_free_id` from `id`, for at most `fuel` probes: it stops at the first
value that is non-zero and no session's discriminator, and `id++` wraps at `2^32`. -/
def probeId (t : Tables) : Nat → BitVec 32 → Option (BitVec 32)
  | 0, _ => none
  | fuel + 1, id =>
    if id ≠ 0 ∧ t.bfdFindSessionById id = none then some id else t.probeId fuel (id + 1)

/-- `bfd_get_free_id`, started from the value `r` of `random_u32()`. The C loop has no bound;
`2^32` probes try every value once, so `none` is where the loop would never return. -/
def bfdGetFreeId (t : Tables) (r : BitVec 32) : Option (BitVec 32) := t.probeId (2 ^ 32) r

/-- `bfd_get_iface`: the binding for `(local, iface)` is used once more, or a new binding
with one use joins the tail of `iface_list`. -/
def bfdGetIface (t : Tables) (localAddr : Nat) (iface : Option Nat) : Tables × Nat :=
  match t.ifaceList.find? fun a => (t.ifas a).any fun f => f.localAddr == localAddr && f.iface == iface with
  | some a => ({ t with ifas := Function.update t.ifas a ((t.ifas a).map fun f => { f with uc := f.uc + 1 }) }, a)
  | none =>
    ({ t with
        ifas := Function.update t.ifas t.next (some ⟨localAddr, iface, 1⟩)
        ifaceList := t.ifaceList ++ [t.next]
        next := t.next + 1 }, t.next)

/-- `bfd_free_iface`: one use fewer; with its last use the binding leaves `iface_list` and is
freed. -/
def bfdFreeIface (t : Tables) (a : Nat) : Tables :=
  match t.ifas a with
  | none => t
  | some f =>
    if f.uc - 1 ≠ 0 then { t with ifas := Function.update t.ifas a (some { f with uc := f.uc - 1 }) }
    else { t with ifas := Function.update t.ifas a none, ifaceList := t.ifaceList.erase a }

/-- The registry part of `bfd_add_session`: the binding first, then the session with a free
discriminator (chosen before the session is in either table), inserted in both tables.
`none` where `bfd_get_free_id` would not return. -/
def bfdAddSession (t : Tables) (addr localAddr : Nat) (iface : Option Nat) (r : BitVec 32) :
    Option (Tables × Nat) :=
  let (t, a) := t.bfdGetIface localAddr iface
  let s := t.next
  match t.bfdGetFreeId r with
  | none => none
  | some id =>
    some ({ t with
      sess := Function.update t.sess s (some ⟨addr, iface.getD 0, id, a⟩)
      hashId := t.hashId ++ [s]
      hashIp := t.hashIp ++ [s]
      next := s + 1 }, s)

/-- The registry part of `bfd_remove_session`: the binding loses a use and the session leaves
both tables and is freed. -/
def bfdRemoveSession (t : Tables) (s : Nat) : Tables :=
  match t.sess s with
  | none => t
  | some e =>
    let t := t.bfdFreeIface e.ifa
    { t with sess := Function.update t.sess s none, hashId := t.hashId.erase s, hashIp := t.hashIp.erase s }

/-- The registry part of `bfd_add_request`: the session of the request's key, created if
there is none. -/
def bfdAddRequest (t : Tables) (addr localAddr : Nat) (iface : Option Nat) (r : BitVec 32) :
    Option (Tables × Nat) :=
  match t.bfdFindSessionByAddr addr (iface.getD 0) with
  | some s => some (t, s)
  | none => t.bfdAddSession addr localAddr iface r

end Tables

/-- What changes an engine's registry: a session made by `bfd_add_session`, a request's
`bfd_add_request` (which makes one only if its key has none), and `bfd_remove_session` of a
registered session, from `bfd_request_free` or the notifier. `r` is the value of
`random_u32()`. -/
inductive RegOp where
  | addSession (addr localAddr : Nat) (iface : Option Nat) (r : BitVec 32)
  | addRequest (addr localAddr : Nat) (iface : Option Nat) (r : BitVec 32)
  | removeSession (s : Nat)

/-- Creations through `bfd_add_request` only, which looks the key up first. -/
def RegOp.viaRequest : RegOp → Bool
  | .addSession .. => false
  | _ => true

namespace Tables

/-- An operation whose `bfd_get_free_id` would not return leaves the registry as it was. -/
def step (t : Tables) : RegOp → Tables
  | .addSession addr localAddr iface r => ((t.bfdAddSession addr localAddr iface r).map Prod.fst).getD t
  | .addRequest addr localAddr iface r => ((t.bfdAddRequest addr localAddr iface r).map Prod.fst).getD t
  | .removeSession s => if s ∈ t.hashId then t.bfdRemoveSession s else t

def run (t : Tables) (ops : List RegOp) : Tables := ops.foldl step t

/-! ## The free discriminator -/

/-- The test of the loop in `bfd_get_free_id`. -/
def Free (t : Tables) (id : BitVec 32) : Prop := id ≠ 0 ∧ t.bfdFindSessionById id = none

variable {t : Tables}

/-- `HASH_FIND` finds nothing exactly when no session of the table has the discriminator. -/
theorem findById_eq_none {id : BitVec 32} :
    t.bfdFindSessionById id = none ↔ ∀ s ∈ t.hashId, ∀ e, t.sess s = some e → e.locId ≠ id := by
  simp only [bfdFindSessionById, List.find?_eq_none]
  refine forall₂_congr fun s _ => ?_
  cases t.sess s <;> simp

theorem add_ofNat_succ (id : BitVec 32) (k : Nat) :
    id + 1 + BitVec.ofNat 32 k = id + BitVec.ofNat 32 (k + 1) := by
  bv_omega

/-- A probe that returns gives the first free value from its start, `k` steps on. -/
theorem probeId_some {fuel : Nat} {id v : BitVec 32} (h : t.probeId fuel id = some v) :
    ∃ k < fuel, v = id + BitVec.ofNat 32 k ∧ t.Free v ∧
      ∀ j < k, ¬t.Free (id + BitVec.ofNat 32 j) := by
  induction fuel generalizing id with
  | zero => simp [probeId] at h
  | succ fuel ih =>
    unfold probeId at h
    split_ifs at h with hf
    · cases h
      exact ⟨0, by omega, by simp, hf, fun j hj => absurd hj (by omega)⟩
    · obtain ⟨k, hk, rfl, hv, hj⟩ := ih h
      refine ⟨k + 1, by omega, add_ofNat_succ id k, hv, fun j hj' => ?_⟩
      cases j with
      | zero => simpa [Free] using hf
      | succ j => exact add_ofNat_succ id j ▸ hj j (by omega)

/-- A probe that runs out of fuel found every value it tried taken. -/
theorem probeId_none {fuel : Nat} {id : BitVec 32} (h : t.probeId fuel id = none) :
    ∀ k < fuel, ¬t.Free (id + BitVec.ofNat 32 k) := by
  induction fuel generalizing id with
  | zero => intro k hk; omega
  | succ fuel ih =>
    unfold probeId at h
    split_ifs at h with hf
    intro k hk
    cases k with
    | zero => simpa [Free] using hf
    | succ k => exact add_ofNat_succ id k ▸ ih h k (by omega)

/-- A list holding every non-zero 32-bit value has at least `2^32 - 1` entries. -/
theorem length_of_nonzero_mem {U : List (BitVec 32)} (h : ∀ v : BitVec 32, v ≠ 0 → v ∈ U) :
    2 ^ 32 - 1 ≤ U.length := by
  have hL : ((List.range (2 ^ 32 - 1)).map fun n => BitVec.ofNat 32 (n + 1)).Nodup :=
    (List.nodup_range _).map_on fun a ha b hb e => by
      rw [List.mem_range] at ha hb
      have := congrArg BitVec.toNat e
      simp only [BitVec.toNat_ofNat] at this
      omega
  have hsub : ((List.range (2 ^ 32 - 1)).map fun n => BitVec.ofNat 32 (n + 1)) ⊆ U := by
    intro v hv
    obtain ⟨n, hn, rfl⟩ := List.mem_map.1 hv
    rw [List.mem_range] at hn
    refine h _ fun e => ?_
    have := congrArg BitVec.toNat e
    simp at this
    omega
  have := (List.subperm_of_subset hL hsub).length_le
  rwa [List.length_map, List.length_range] at this

/-- With fewer than `2^32 - 1` sessions some non-zero value is free, and the `2^32` probes from
any start reach it. -/
theorem bfdGetFreeId_isSome (ht : t.hashId.length < 2 ^ 32 - 1) (r : BitVec 32) :
    ∃ v, t.bfdGetFreeId r = some v := by
  cases h : t.bfdGetFreeId r with
  | some v => exact ⟨v, rfl⟩
  | none =>
    have hn := probeId_none h
    have hU : 2 ^ 32 - 1 ≤ (t.hashId.filterMap fun s => (t.sess s).map SessionEntry.locId).length := by
      refine length_of_nonzero_mem fun v hv => ?_
      have hk := hn (v - r).toNat (BitVec.isLt _)
      rw [show r + BitVec.ofNat 32 (v - r).toNat = v by bv_omega, Free, findById_eq_none] at hk
      push_neg at hk
      obtain ⟨s, hs, e, he, rfl⟩ := hk hv
      exact List.mem_filterMap.2 ⟨s, hs, by simp [he]⟩
    exact absurd (hU.trans (List.length_filterMap_le _ _)) (by omega)

/-- On a registry with fewer than `2^32 - 1` sessions, `bfd_get_free_id` from any random start
`r` returns, after `k + 1` probes, the value `r + k`: non-zero, no session's discriminator,
and every value it passed on the way was zero or some session's discriminator. -/
theorem free_id_first_unused (t : Tables) (r : BitVec 32) (ht : t.hashId.length < 2 ^ 32 - 1) :
    ∃ k < 2 ^ 32, t.bfdGetFreeId r = some (r + BitVec.ofNat 32 k) ∧
      r + BitVec.ofNat 32 k ≠ 0 ∧
      (∀ s ∈ t.hashId, ∀ e, t.sess s = some e → e.locId ≠ r + BitVec.ofNat 32 k) ∧
      ∀ j < k, r + BitVec.ofNat 32 j = 0 ∨
        ∃ s ∈ t.hashId, ∃ e, t.sess s = some e ∧ e.locId = r + BitVec.ofNat 32 j := by
  obtain ⟨v, hv⟩ := bfdGetFreeId_isSome ht r
  obtain ⟨k, hk, rfl, ⟨h0, hf⟩, hj⟩ := probeId_some hv
  refine ⟨k, hk, hv, h0, findById_eq_none.1 hf, fun j hjk => ?_⟩
  have := hj j hjk
  rw [Free, findById_eq_none] at this
  push_neg at this
  by_cases hz : r + BitVec.ofNat 32 j = 0
  · exact Or.inl hz
  · exact Or.inr (this hz)

/-- From a start of 0, the loop skips 0 and returns 1 on an empty registry. -/
theorem free_id_skips_zero :
    empty.hashId.length < 2 ^ 32 - 1 ∧
      ∃ k < 2 ^ 32, empty.bfdGetFreeId 0 = some (0 + BitVec.ofNat 32 k) ∧
        0 + BitVec.ofNat 32 k ≠ 0 ∧
        (∀ s ∈ empty.hashId, ∀ e, empty.sess s = some e → e.locId ≠ 0 + BitVec.ofNat 32 k) ∧
        ∀ j < k, 0 + BitVec.ofNat 32 j = 0 ∨
          ∃ s ∈ empty.hashId, ∃ e, empty.sess s = some e ∧ e.locId = 0 + BitVec.ofNat 32 j :=
  ⟨by decide, free_id_first_unused empty 0 (by decide)⟩

end Tables

end Bfd
