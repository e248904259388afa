import Bfd.BrokerIndex

/-! # The broker's registries refine the registry model

`Tables` models one engine's registry alone: the two hash tables, the bindings with their use
counts, the discriminators. The broker keeps the same registry as each engine's session list,
with each session's key and binding in the session. Here the two are tied. A registry of the
model is an engine's registry in the broker under a naming of its session pointers by the
broker's identifiers when `session_hash_ip` lists, through the naming, the engine's sessions in
order, each pointer with its session's key `(addr, ifindex)` and its binding's local address and
interface. From such a registry, every broker step, whatever thread takes it, is matched by a
history of `bfd_add_session` and `bfd_remove_session` calls after which the registry is the
engine's again: a pointer stays exactly when its session stays, and keeps naming it; the
pointers added are fresh. By induction the same holds along every run.

The broker keeps no discriminators, and `bfd_get_free_id` returns only while fewer than
`2^32 - 1` sessions are registered; the broker's identifier counter is taken below that bound,
which bounds every engine's sessions along the run. -/
namespace Bfd

/-- A registered session as both models read it: its key and its binding's local address and
interface. -/
structure RegEntry where
  addr : Nat
  ifindex : Nat
  localAddr : Nat
  iface : Option Nat
  deriving DecidableEq, Repr

/-- The calls the broker's registry makes itself: `bfd_add_session` (after its own lookup) and
`bfd_remove_session`. -/
def RegOp.direct : RegOp → Bool
  | .addRequest .. => false
  | _ => true

namespace Tables

/-- Session `s` with its binding's key. -/
def entryOf (t : Tables) (s : Nat) : Option RegEntry :=
  (t.sess s).bind fun e => (t.ifas e.ifa).map fun f => ⟨e.addr, e.ifindex, f.localAddr, f.iface⟩

variable {t : Tables} {s : Nat}

theorem run_append (t : Tables) (ops ops' : List RegOp) : t.run (ops ++ ops') = (t.run ops).run ops' :=
  List.foldl_append _ _ _ _

theorem Inv.length_hashIp (h : Inv t) : t.hashIp.length = t.hashId.length :=
  ((List.perm_ext_iff_of_nodup h.nodupIp h.nodupId).2 fun s => by rw [h.hashIp, h.hashId]).length_eq

theorem Inv.lt_next (h : Inv t) (hs : s ∈ t.hashIp) : s < t.next :=
  Nat.lt_of_not_le fun hn => (h.hashIp s).1 hs (h.freshSess s hn)

/-- The binding `bfd_get_iface` returns had the key it was asked for, if it was there. -/
theorem Inv.getIface_key (h : Inv t) (localAddr : Nat) (iface : Option Nat) (f : IfaceEntry)
    (hf : t.ifas (t.bfdGetIface localAddr iface).2 = some f) :
    f.localAddr = localAddr ∧ f.iface = iface := by
  unfold bfdGetIface at hf
  split at hf
  · next a hfind =>
    have hp := List.find?_some hfind
    simpa [hf] using hp
  · simp [h.freshIfa _ le_rfl] at hf

/-- `bfd_add_session` on a registry with fewer than `2^32 - 1` sessions returns: its session
joins the tail of `session_hash_ip` under a fresh pointer, and every other session keeps its
entry, its binding's key included. -/
theorem Inv.addSession_step (h : Inv t) (ht : t.hashId.length < 2 ^ 32 - 1)
    (addr localAddr : Nat) (iface : Option Nat) :
    ∃ s₀, t.next ≤ s₀ ∧ t.next ≤ (t.step (.addSession addr localAddr iface 0)).next ∧
      (t.step (.addSession addr localAddr iface 0)).hashIp = t.hashIp ++ [s₀] ∧
      (t.step (.addSession addr localAddr iface 0)).entryOf s₀ =
        some ⟨addr, iface.getD 0, localAddr, iface⟩ ∧
      ∀ s ∈ t.hashIp, (t.step (.addSession addr localAddr iface 0)).entryOf s = t.entryOf s := by
  have g := h.getIface localAddr iface
  have hk := h.getIface_key localAddr iface
  simp only [Tables.step, bfdAddSession]
  generalize t.bfdGetIface localAddr iface = q at g hk ⊢
  obtain ⟨t₁, a⟩ := q
  obtain ⟨id, hid⟩ := bfdGetFreeId_isSome (t := t₁) (g.hashId ▸ ht) 0
  dsimp only at g hk ⊢
  rw [hid]
  simp only [Option.map_some', Option.getD_some]
  refine ⟨t₁.next, g.next, Nat.le_succ_of_le g.next, congrArg (· ++ [t₁.next]) g.hashIp,
    by simp [entryOf, g.got], fun s' hs' => ?_⟩
  have hne : s' ≠ t₁.next := fun e => (h.hashIp s').1 hs' (e ▸ h.freshSess _ g.next)
  simp only [entryOf, Function.update_noteq hne, g.sess]
  cases hs : t.sess s' with
  | none => rfl
  | some e =>
    by_cases ha : e.ifa = a
    · obtain ⟨f, hf⟩ := Option.ne_none_iff_exists'.1 (h.bound s' e hs)
      rw [ha] at hf
      obtain ⟨hl, hi⟩ := hk f hf
      simp [ha, g.got, hf, hl, hi]
    · simp [g.other _ ha]

@[simp] theorem bfdFreeIface_hashIp (t : Tables) (a : Nat) : (t.bfdFreeIface a).hashIp = t.hashIp := by
  unfold bfdFreeIface; split
  · rfl
  · split_ifs <;> rfl

@[simp] theorem bfdFreeIface_next (t : Tables) (a : Nat) : (t.bfdFreeIface a).next = t.next := by
  unfold bfdFreeIface; split
  · rfl
  · split_ifs <;> rfl

/-- A binding that `bfd_remove_session` leaves allocated keeps its key. -/
theorem removeSession_ifas_key {e : SessionEntry} (hs : t.sess s = some e) (a : Nat)
    {g : IfaceEntry} (hg : (t.bfdRemoveSession s).ifas a = some g) :
    ∃ f, t.ifas a = some f ∧ g.localAddr = f.localAddr ∧ g.iface = f.iface := by
  unfold bfdRemoveSession at hg
  rw [hs] at hg
  dsimp only at hg
  cases hf : t.ifas e.ifa with
  | none => simp only [bfdFreeIface, hf] at hg; exact ⟨g, hg, rfl, rfl⟩
  | some f =>
    rw [bfdFreeIface_of hf] at hg
    by_cases ha : a = e.ifa
    · subst ha
      split_ifs at hg <;> simp at hg
      exact ⟨f, hf, by rw [← hg], by rw [← hg]⟩
    · split_ifs at hg <;> simp only [Function.update_noteq ha] at hg <;> exact ⟨g, hg, rfl, rfl⟩

/-- `bfd_remove_session` of a registered session drops its pointer from `session_hash_ip` and
draws none; every other session keeps its entry, since the binding it shares, if any, keeps a
use. -/
theorem Inv.removeSession_step (h : Inv t) (hs : s ∈ t.hashIp) :
    (t.step (.removeSession s)).hashIp = t.hashIp.erase s ∧
      (t.step (.removeSession s)).next = t.next ∧
      ∀ s' ∈ t.hashIp.erase s, (t.step (.removeSession s)).entryOf s' = t.entryOf s' := by
  obtain ⟨e, he⟩ := Option.ne_none_iff_exists'.1 ((h.hashIp s).1 hs)
  obtain ⟨hi, hsess, -⟩ := h.removeSession he
  have hstep : t.step (.removeSession s) = t.bfdRemoveSession s := by
    simp [Tables.step, (h.hashId s).2 (by simp [he])]
  rw [hstep]
  refine ⟨by simp [bfdRemoveSession, he], by simp [bfdRemoveSession, he], fun s' hs' => ?_⟩
  have hne : s' ≠ s := ((h.nodupIp.mem_erase_iff).1 hs').1
  have hs'' : (t.bfdRemoveSession s).sess s' = t.sess s' := by
    rw [hsess, Function.update_noteq hne]
  simp only [entryOf, hs'']
  cases hx : t.sess s' with
  | none => rfl
  | some e' =>
    obtain ⟨g, hg⟩ := Option.ne_none_iff_exists'.1 (hi.bound s' e' (hs''.trans hx))
    obtain ⟨f, hf, hl, hif⟩ := removeSession_ifas_key he _ hg
    simp [hg, hf, hl, hif]

/-- Removing the registered sessions one by one empties `session_hash_ip`. -/
theorem Inv.exists_hashIp_nil : ∀ {t : Tables}, Inv t →
    ∃ ops, (∀ o ∈ ops, RegOp.direct o) ∧ (t.run ops).hashIp = [] ∧ t.next ≤ (t.run ops).next := by
  intro t h
  generalize hn : t.hashIp.length = n
  induction n generalizing t with
  | zero => exact ⟨[], by simp, List.length_eq_zero.1 hn, le_rfl⟩
  | succ n ih =>
    obtain ⟨s, hs⟩ := List.exists_mem_of_length_pos (by omega : 0 < t.hashIp.length)
    obtain ⟨hH, hN, -⟩ := h.removeSession_step hs
    obtain ⟨ops, hd, hnil, hle⟩ := ih (h.step (.removeSession s)).1
      (by rw [hH, List.length_erase_of_mem hs]; omega)
    exact ⟨.removeSession s :: ops, by simpa [RegOp.direct] using hd, hnil, hN.symm.le.trans hle⟩

end Tables

/-- Erasing from `H` the element `f` sends to `i` erases `i` from `H.map f`. -/
theorem exists_erase_map {α β : Type} [DecidableEq α] [DecidableEq β] {f : α → β} {i : β} :
    ∀ {H : List α}, H.Nodup → i ∈ H.map f → ∃ s ∈ H, f s = i ∧ (H.erase s).map f = (H.map f).erase i
  | [], _, hi => absurd hi (List.not_mem_nil _)
  | h :: H, hH, hi => by
    by_cases hh : f h = i
    · exact ⟨h, List.mem_cons_self _ _, hh, by simp [hh]⟩
    · obtain ⟨s, hs, hf, e⟩ := exists_erase_map (List.nodup_cons.1 hH).2
        ((List.mem_cons.1 hi).resolve_left (Ne.symm hh))
      have hsh : h ≠ s := fun e => (List.nodup_cons.1 hH).1 (e ▸ hs)
      refine ⟨s, List.mem_cons_of_mem _ hs, hf, ?_⟩
      rw [List.erase_cons_tail (by simpa using hsh), List.map_cons, List.map_cons,
        List.erase_cons_tail (by simpa using hh), e]

/-- A session as the registry reads it. -/
def SessionNode.entry (sn : SessionNode) : RegEntry := ⟨sn.addr, sn.ifindex, sn.localAddr, sn.iface⟩

/-- What the correspondence reads of a session: its engine, its entry and its binding's
configuration. -/
def SessionNode.regKey (sn : SessionNode) : Nat × RegEntry × IfaceConfig :=
  (sn.engine, sn.entry, sn.ifaceCf)

namespace Broker

/-- Session `i` as the registry reads it. -/
def entryOf (b : Broker) (i : Nat) : Option RegEntry := (b.sess i).map SessionNode.entry

/-- Registry `t` is engine `p`'s in `b` under `f`, which names each pointer's session:
`session_hash_ip` lists, through `f`, the engine's sessions in order, each under its entry. -/
def RegMatch (t : Tables) (b : Broker) (p : Nat) (f : Nat → Nat) : Prop :=
  t.hashIp.map f = (b.engines p).sessions ∧ ∀ s ∈ t.hashIp, t.entryOf s = b.entryOf (f s)

/-- Registry `t'` under `f'` follows `t` under `f` into engine `p`'s registry in `c`: it is that
registry, its new pointers are fresh, a pointer stays exactly when its session stays, and a
pointer that stays names the same session. -/
structure Follows (t t' : Tables) (f f' : Nat → Nat) (c : Broker) (p : Nat) : Prop where
  regMatch : RegMatch t' c p f'
  next : t.next ≤ t'.next
  fresh : ∀ s ∈ t'.hashIp, s ∈ t.hashIp ∨ t.next ≤ s
  stays : ∀ s ∈ t.hashIp, s ∈ t'.hashIp ↔ f s ∈ (c.engines p).sessions
  names : ∀ s ∈ t.hashIp, s ∈ t'.hashIp → f' s = f s

/-- What the correspondence needs of the session lists: each is duplicate-free and holds
allocated sessions of its engine under identifiers already drawn. -/
structure RegOk (b : Broker) : Prop where
  nodup : ∀ p, (b.engines p).sessions.Nodup
  mem : ∀ p i, i ∈ (b.engines p).sessions →
    i < b.nextId ∧ ∃ sn, b.sess i = some sn ∧ sn.engine = p

/-- The bindings: sessions of one engine with one key `(local, iface)` are on one binding
`s->ifa`, and hold its configuration. -/
def Bound (b : Broker) : Prop :=
  ∀ p, ∀ i ∈ (b.engines p).sessions, ∀ j ∈ (b.engines p).sessions, ∀ sn sn',
    b.sess i = some sn → b.sess j = some sn' → sn.localAddr = sn'.localAddr →
      sn.iface = sn'.iface → sn.ifaceCf = sn'.ifaceCf

/-- `c` follows `b` in the registries: the bindings stay one configuration each, a session
listed in `c` was listed in `b` or is new, and from any registry of the model that is engine
`p`'s in `b`, a history of the broker's own calls leads to one that follows it into engine `p`'s
in `c`, while the counter stays below the bound of `bfd_get_free_id`. -/
def RegStep (b c : Broker) : Prop :=
  RegOk b → RegOk c ∧ (Bound b → Bound c) ∧ b.nextId ≤ c.nextId ∧
    (∀ p i, i ∈ (c.engines p).sessions → i ∈ (b.engines p).sessions ∨ b.nextId ≤ i) ∧
    (c.nextId < 2 ^ 32 - 1 → ∀ p (t : Tables) f, t.Inv → RegMatch t b p f →
      ∃ ops f', (∀ o ∈ ops, RegOp.direct o) ∧ Follows t (t.run ops) f f' c p)

variable {b c : Broker}

theorem RegOk.length_le (h : RegOk b) (p : Nat) : (b.engines p).sessions.length ≤ b.nextId := by
  have := ((h.nodup p).subperm fun i hi => List.mem_range.2 (h.mem p i hi).1).length_le
  rwa [List.length_range] at this

/-- Sessions that were listed, each still with its binding, keep the bindings apart. -/
theorem Bound.mono (h : Bound b) (hs : ∀ p, (c.engines p).sessions ⊆ (b.engines p).sessions)
    (hk : ∀ i sn, c.sess i = some sn → ∃ sn₀, b.sess i = some sn₀ ∧
      sn.localAddr = sn₀.localAddr ∧ sn.iface = sn₀.iface ∧ sn.ifaceCf = sn₀.ifaceCf) :
    Bound c := by
  intro p i hi j hj sn sn' hsn hsn' hl hif
  obtain ⟨sn₀, h₀, hl₀, hi₀, hc₀⟩ := hk i sn hsn
  obtain ⟨sn₁, h₁, hl₁, hi₁, hc₁⟩ := hk j sn' hsn'
  rw [hc₀, hc₁]
  exact h p i (hs p hi) j (hs p hj) sn₀ sn₁ h₀ h₁ (by rw [← hl₀, ← hl₁, hl])
    (by rw [← hi₀, ← hi₁, hif])

section Match
variable {t : Tables} {p : Nat} {f : Nat → Nat}

theorem RegMatch.mem (hm : RegMatch t b p f) {s : Nat} (hs : s ∈ t.hashIp) :
    f s ∈ (b.engines p).sessions :=
  hm.1 ▸ List.mem_map_of_mem f hs

/-- A registry stays engine `p`'s under a write that keeps the engine's list and entries. -/
theorem RegMatch.congr (hm : RegMatch t b p f)
    (hs : (c.engines p).sessions = (b.engines p).sessions)
    (he : ∀ j ∈ (b.engines p).sessions, c.entryOf j = b.entryOf j) : RegMatch t c p f :=
  ⟨hs ▸ hm.1, fun s h' => by rw [hm.2 s h', he _ (hm.mem h')]⟩

/-- With no call made, a registry follows itself. -/
theorem RegMatch.follows_self (hm : RegMatch t c p f) : Follows t t f f c p :=
  ⟨hm, le_rfl, fun _ hs => .inl hs, fun _ hs => ⟨fun _ => hm.mem hs, fun _ => hs⟩,
    fun _ _ _ => rfl⟩

/-- The registry follows its engine's list gaining session `i` at its tail, under the key and
binding `bfd_add_session` is called with, by that one call. -/
theorem RegMatch.follows_append (ht : t.Inv) (hm : RegMatch t b p f)
    (hlen : t.hashId.length < 2 ^ 32 - 1) (i addr localAddr : Nat) (iface : Option Nat)
    (hL : (c.engines p).sessions = (b.engines p).sessions ++ [i])
    (he : ∀ j ∈ (b.engines p).sessions, c.entryOf j = b.entryOf j)
    (hi : c.entryOf i = some ⟨addr, iface.getD 0, localAddr, iface⟩) :
    ∃ ops f', (∀ o ∈ ops, RegOp.direct o) ∧ Follows t (t.run ops) f f' c p := by
  obtain ⟨s₀, hs₀, hnext, hH, he₀, hold⟩ := ht.addSession_step hlen addr localAddr iface
  have hrun : t.run [.addSession addr localAddr iface 0] =
    t.step (.addSession addr localAddr iface 0) := rfl
  -- the old pointers keep their sessions under the new naming
  have hf : ∀ s ∈ t.hashIp, Function.update f s₀ i s = f s := fun s hs =>
    Function.update_noteq (fun e => absurd (ht.lt_next hs) (by omega)) _ _
  refine ⟨[.addSession addr localAddr iface 0], Function.update f s₀ i, by simp [RegOp.direct],
    ⟨⟨?_, fun s hs => ?_⟩, hnext, fun s hs => ?_, fun s hs => ?_, fun s hs _ => hf s hs⟩⟩ <;>
    rw [hrun] at * <;> rw [hH] at *
  · rw [List.map_append, List.map_congr_left hf, hm.1, hL]; simp
  · rcases List.mem_append.1 hs with hs | hs
    · rw [hold s hs, hf s hs, hm.2 s hs, he _ (hm.mem hs)]
    · rw [List.mem_singleton.1 hs, he₀, Function.update_same, hi]
  · exact (List.mem_append.1 hs).imp_right fun h' => by rw [List.mem_singleton.1 h']; exact hs₀
  · rw [hL]; exact ⟨fun _ => List.mem_append_left _ (hm.mem hs), fun _ => List.mem_append_left _ hs⟩

/-- The registry follows its engine's list losing session `i` by one `bfd_remove_session`, of
the pointer that names `i`. -/
theorem RegMatch.follows_erase (ht : t.Inv) (hm : RegMatch t b p f)
    (hnd : (b.engines p).sessions.Nodup) {i : Nat} (hi : i ∈ (b.engines p).sessions)
    (hL : (c.engines p).sessions = (b.engines p).sessions.erase i)
    (he : ∀ j, j ≠ i → c.entryOf j = b.entryOf j) :
    ∃ ops f', (∀ o ∈ ops, RegOp.direct o) ∧ Follows t (t.run ops) f f' c p := by
  obtain ⟨s₁, hs₁, hf₁, hmap⟩ := exists_erase_map ht.nodupIp (hm.1 ▸ hi : i ∈ t.hashIp.map f)
  obtain ⟨hH, hN, hold⟩ := ht.removeSession_step hs₁
  have hrun : t.run [.removeSession s₁] = t.step (.removeSession s₁) := rfl
  -- a pointer other than `s₁` names a session other than `i`
  have hne : ∀ s ∈ t.hashIp.erase s₁, f s ≠ i := fun s hs => by
    have := List.mem_map_of_mem f hs
    rw [hmap, hm.1] at this
    exact (hnd.mem_erase_iff.1 this).1
  refine ⟨[.removeSession s₁], f, by simp [RegOp.direct],
    ⟨⟨?_, fun s hs => ?_⟩, ?_, fun s hs => ?_, fun s hs => ?_, fun _ _ _ => rfl⟩⟩ <;>
    rw [hrun] at * <;> rw [hH] at *
  · rw [hmap, hm.1, hL]
  · rw [hold s hs, hm.2 s (List.mem_of_mem_erase hs), he _ (hne s hs)]
  · exact hN.ge
  · exact .inl (List.mem_of_mem_erase hs)
  · rw [hL, hnd.mem_erase_iff, ht.nodupIp.mem_erase_iff]
    exact ⟨fun e => ⟨hne s (ht.nodupIp.mem_erase_iff.2 e), hm.mem hs⟩,
      fun e => ⟨fun h₁ => e.1 (h₁ ▸ hf₁), hs⟩⟩

/-- The registry follows its engine's list emptied by removing every pointer. -/
theorem RegMatch.follows_clear (ht : t.Inv) (hL : (c.engines p).sessions = []) :
    ∃ ops f', (∀ o ∈ ops, RegOp.direct o) ∧ Follows t (t.run ops) f f' c p := by
  obtain ⟨ops, hd, hnil, hle⟩ := ht.exists_hashIp_nil
  exact ⟨ops, f, hd, ⟨by simp [RegMatch, hnil, hL], hle, by simp [hnil], fun s _ => by simp [hnil, hL],
    by simp [hnil]⟩⟩

end Match

theorem RegStep.trans {d : Broker} (h₁ : RegStep b c) (h₂ : RegStep c d) : RegStep b d := by
  intro hb
  obtain ⟨hc, hB₁, hbc, hL₁, s₁⟩ := h₁ hb
  obtain ⟨hd, hB₂, hcd, hL₂, s₂⟩ := h₂ hc
  refine ⟨hd, hB₂ ∘ hB₁, hbc.trans hcd, fun p i hi => ?_, fun hn p t f ht hm => ?_⟩
  · exact (hL₂ p i hi).elim (hL₁ p i) fun h => .inr (hbc.trans h)
  obtain ⟨ops, f₁, hd₁, F₁⟩ := s₁ (lt_of_le_of_lt hcd hn) p t f ht hm
  obtain ⟨ops', f₂, hd₂, F₂⟩ := s₂ hn p _ f₁ (ht.run ops) F₁.regMatch
  -- a pointer of `t` in the last registry was in the middle one, since new pointers are fresh
  have hmid : ∀ s ∈ t.hashIp, s ∈ ((t.run ops).run ops').hashIp → s ∈ (t.run ops).hashIp :=
    fun s hs hs₂ => (F₂.fresh s hs₂).resolve_right fun hle => by
      have := ht.lt_next hs; have := F₁.next; omega
  refine ⟨ops ++ ops', f₂, List.forall_mem_append.2 ⟨hd₁, hd₂⟩, ?_⟩
  rw [Tables.run_append]
  refine ⟨F₂.regMatch, F₁.next.trans F₂.next, fun s hs => ?_, fun s hs => ⟨fun hs₂ => ?_, fun hf => ?_⟩,
    fun s hs hs₂ => ?_⟩
  · exact (F₂.fresh s hs).elim (F₁.fresh s) fun h => .inr (F₁.next.trans h)
  · have h₁ := hmid s hs hs₂
    rw [← F₁.names s hs h₁]; exact (F₂.stays s h₁).1 hs₂
  · -- a session of `b` listed in `d` is listed in `c`, since new identifiers are fresh
    have hfc : f s ∈ (c.engines p).sessions := (hL₂ p _ hf).resolve_right fun hle => by
      have := (hb.mem p _ (hm.mem hs)).1; omega
    have h₁ := (F₁.stays s hs).2 hfc
    exact (F₂.stays s h₁).2 (by rw [F₁.names s hs h₁]; exact hf)
  · have h₁ := hmid s hs hs₂
    rw [F₂.names s h₁ hs₂, F₁.names s hs h₁]

/-- A write that keeps every session list, what the registry reads of every session, and the
counter's order. -/
theorem regStep_of_keys (hs : ∀ p, (c.engines p).sessions = (b.engines p).sessions)
    (hk : ∀ i, (c.sess i).map SessionNode.regKey = (b.sess i).map SessionNode.regKey)
    (hn : b.nextId ≤ c.nextId) : RegStep b c := by
  have he : ∀ i, c.entryOf i = b.entryOf i := fun i => by
    simpa [entryOf, Option.map_map, Function.comp_def, SessionNode.regKey] using
      congrArg (Option.map fun x => x.2.1) (hk i)
  have hsn : ∀ i sn, c.sess i = some sn → ∃ sn₀, b.sess i = some sn₀ ∧ sn.regKey = sn₀.regKey :=
    fun i sn h => by
      have hk' := hk i
      rw [h] at hk'
      obtain ⟨sn₀, h₀, e⟩ := Option.map_eq_some'.1 hk'.symm
      exact ⟨sn₀, h₀, e.symm⟩
  refine fun h => ⟨⟨fun p => hs p ▸ h.nodup p, fun p i hi => ?_⟩,
    fun hB => hB.mono (fun p => (hs p) ▸ List.Subset.refl _) fun i sn h' => ?_, hn,
    fun p i hi => .inl (hs p ▸ hi), fun _ p _ f _ hm =>
    ⟨[], f, by simp, (hm.congr (hs p) fun j _ => he j).follows_self⟩⟩
  · obtain ⟨hlt, sn, hsn', rfl⟩ := h.mem p i (hs p ▸ hi)
    have hk' := hk i
    rw [hsn'] at hk'
    obtain ⟨sn', hsn'', e⟩ := Option.map_eq_some'.1 hk'
    exact ⟨lt_of_lt_of_le hlt hn, sn', hsn'', congrArg Prod.fst e⟩
  · obtain ⟨sn₀, h₀, e⟩ := hsn i sn h'
    simp only [SessionNode.regKey, SessionNode.entry, Prod.mk.injEq, RegEntry.mk.injEq] at e
    exact ⟨sn₀, h₀, e.2.1.2.2.1, e.2.1.2.2.2, e.2.2⟩

theorem regStep_refl (b : Broker) : RegStep b b := regStep_of_keys (fun _ => rfl) (fun _ => rfl) le_rfl

/-- A write of a session that keeps its engine and entry. -/
theorem regStep_setSess {i : Nat} {sn : SessionNode} (hs : b.sess i = some sn) (sn' : SessionNode)
    (hk : sn'.regKey = sn.regKey) : RegStep b (b.setSess i (some sn')) :=
  regStep_of_keys (fun _ => rfl) (fun j => by
    by_cases hj : j = i
    · subst hj; simp [hs, hk]
    · simp [Function.update_noteq hj]) le_rfl

/-- A write of an engine's lists and flags. -/
theorem regStep_setEngine (p : Nat) {e : Engine} (hs : e.sessions = (b.engines p).sessions) :
    RegStep b (b.setEngine p e) :=
  regStep_of_keys (fun q => by by_cases hq : q = p <;> simp [hq, hs, Function.update_noteq])
    (fun _ => rfl) le_rfl

theorem regStep_setNotifier (n : Notifier) : RegStep b { b with notifier := n } :=
  regStep_of_keys (fun _ => rfl) (fun _ => rfl) le_rfl

/-- A write of a request list changes no entry. -/
theorem remNode_regKey (b : Broker) (r j : Nat) :
    ((b.remNode r).sess j).map SessionNode.regKey = (b.sess j).map SessionNode.regKey := by
  unfold remNode
  split
  next i _ =>
    split
    next sn hs => by_cases hj : j = i <;> simp [Function.update_apply, hj, hs, SessionNode.regKey,
      SessionNode.entry]
    next => rfl
  next => rfl

theorem addTail_regKey (b : Broker) (s : Option Nat) (r j : Nat) :
    ((b.addTail s r).sess j).map SessionNode.regKey = (b.sess j).map SessionNode.regKey := by
  cases s with
  | none => rfl
  | some i =>
    simp only [addTail]
    split
    next sn hs => by_cases hj : j = i <;> simp [Function.update_apply, hj, hs, SessionNode.regKey,
      SessionNode.entry]
    next => rfl

/-- The binding a new session of engine `p` takes when a session of `p` has the key: the
configuration one such session holds. -/
theorem bfdGetIface_of_mem {p j localAddr : Nat} {iface : Option Nat} {sn : SessionNode}
    (hj : j ∈ (b.engines p).sessions) (hs : b.sess j = some sn) (hl : sn.localAddr = localAddr)
    (hif : sn.iface = iface) : ∃ k ∈ (b.engines p).sessions, ∃ sk, b.sess k = some sk ∧
      sk.localAddr = localAddr ∧ sk.iface = iface ∧ b.bfdGetIface p localAddr iface = sk.ifaceCf := by
  unfold bfdGetIface
  cases e : (b.engines p).sessions.findSome? fun i => (b.sess i).bind fun sn =>
      if sn.localAddr = localAddr ∧ sn.iface = iface then some sn.ifaceCf else none with
  | none =>
    have := List.findSome?_eq_none_iff.1 e j hj
    simp [hs, hl, hif] at this
  | some cf =>
    obtain ⟨k, hk, hf⟩ := List.exists_of_findSome?_eq_some e
    cases hsk : b.sess k with
    | none => simp [hsk] at hf
    | some sk =>
      simp only [hsk, Option.some_bind] at hf
      split_ifs at hf with hkey
      cases hf
      exact ⟨k, hk, sk, hsk, hkey.1, hkey.2, rfl⟩

/-! ## Sessions made and removed -/

section AddSession
variable {p : Nat} {req : Request} {now : ℕ+}

/-- The new session of `bfd_add_session`: engine `p`'s, under the request's key and binding,
with the configuration `bfd_get_iface` gives it. -/
theorem addSession_new_entry (b : Broker) (p : Nat) (req : Request) (now : ℕ+) :
    ∃ sn, (b.bfdAddSession p req now).1.sess b.nextId = some sn ∧ sn.engine = p ∧
      sn.entry = ⟨req.addr, req.ifindex, req.localAddr, req.iface⟩ ∧
      sn.ifaceCf = b.bfdGetIface p req.localAddr req.iface := by
  simp [bfdAddSession, SessionNode.entry]

theorem RegOk.addSession_sess (h : RegOk b) {q j : Nat} (hj : j ∈ (b.engines q).sessions) :
    (b.bfdAddSession p req now).1.sess j = b.sess j :=
  addSession_sess_old (Nat.ne_of_lt (h.mem q j hj).1)

theorem RegOk.addSession (h : RegOk b) : RegOk (b.bfdAddSession p req now).1 where
  nodup q := by
    rw [addSession_engines]; split_ifs with hq
    · subst hq; exact (h.nodup q).append (List.nodup_singleton _)
        (List.disjoint_singleton.2 fun hm => lt_irrefl _ (h.mem q _ hm).1)
    · exact h.nodup q
  mem q j hj := by
    rcases addSession_mem hj with hj | ⟨rfl, rfl⟩
    · obtain ⟨hlt, hx⟩ := h.mem q j hj
      exact ⟨Nat.lt_succ_of_lt hlt, by rw [h.addSession_sess hj]; exact hx⟩
    · obtain ⟨sn, hsn, hsp, -⟩ := addSession_new_entry b q req now
      exact ⟨Nat.lt_succ_self _, sn, hsn, hsp⟩

/-- The new session takes the configuration of the sessions on its binding, if there are any. -/
theorem Bound.addSession (hB : Bound b) (h : RegOk b) : Bound (b.bfdAddSession p req now).1 := by
  obtain ⟨sn, hsn, -, he, hc₀⟩ := addSession_new_entry b p req now
  have hl₀ : sn.localAddr = req.localAddr := congrArg RegEntry.localAddr he
  have hi₀ : sn.iface = req.iface := congrArg RegEntry.iface he
  have hnew : ∀ j ∈ (b.engines p).sessions, ∀ sj, b.sess j = some sj →
      sn.localAddr = sj.localAddr → sn.iface = sj.iface → sn.ifaceCf = sj.ifaceCf :=
    fun j hj sj hsj hl hif => by
      obtain ⟨k, hk, sk, hsk, hkl, hki, e⟩ := bfdGetIface_of_mem hj hsj (hl ▸ hl₀) (hif ▸ hi₀)
      rw [hc₀, e]
      exact hB p k hk j hj sk sj hsk hsj (by rw [hkl, ← hl₀, hl]) (by rw [hki, ← hi₀, hif])
  intro q i hi j hj si sj hsi hsj hl hif
  rcases addSession_mem hi with hio | ⟨rfl, rfl⟩ <;> rcases addSession_mem hj with hjo | ⟨hq, rfl⟩
  · rw [h.addSession_sess hio] at hsi; rw [h.addSession_sess hjo] at hsj
    exact hB q i hio j hjo si sj hsi hsj hl hif
  · subst hq; rw [hsn] at hsj; cases hsj; rw [h.addSession_sess hio] at hsi
    exact (hnew i hio si hsi hl.symm hif.symm).symm
  · rw [hsn] at hsi; cases hsi; rw [h.addSession_sess hjo] at hsj
    exact hnew j hjo sj hsj hl hif
  · rw [hsn] at hsi hsj; cases hsi; cases hsj; rfl

end AddSession

/-- `bfd_add_session`: engine `p`'s registry gains the new session at its tail, as the model's
`bfd_add_session` adds it, under a fresh pointer, to the tail of `session_hash_ip`. -/
theorem regStep_addSession (b : Broker) (p : Nat) (req : Request) (now : ℕ+) :
    RegStep b (b.bfdAddSession p req now).1 := by
  intro h
  refine ⟨h.addSession, fun hB => hB.addSession h, Nat.le_succ _,
    fun q j hj => ?_, fun hn q t f ht hm => ?_⟩
  · rcases addSession_mem hj with hj | ⟨-, rfl⟩
    exacts [.inl hj, .inr le_rfl]
  have hsame : ∀ j ∈ (b.engines q).sessions, (b.bfdAddSession p req now).1.entryOf j = b.entryOf j :=
    fun j hj => by simp [entryOf, h.addSession_sess hj]
  by_cases hq : q = p
  · subst hq
    obtain ⟨sn, hsn, -, he, -⟩ := addSession_new_entry b q req now
    have hlen : t.hashId.length < 2 ^ 32 - 1 := by
      have := congrArg List.length hm.1
      have := h.length_le q
      have := ht.length_hashIp
      simp only [List.length_map, addSession_nextId] at *
      omega
    exact hm.follows_append ht hlen _ req.addr req.localAddr req.iface
      (by rw [addSession_engines, if_pos rfl]) hsame (by simp [entryOf, hsn, he, Request.ifindex])
  · exact ⟨[], f, by simp, (hm.congr (by simp [addSession_engines, hq]) hsame).follows_self⟩

/-- `bfd_remove_session`: the session leaves its engine's registry, as the model's
`bfd_remove_session` removes the pointer that names it. -/
theorem regStep_removeSession (b : Broker) (i : Nat) : RegStep b (b.bfdRemoveSession i) := by
  cases hs : b.sess i with
  | none => simpa [bfdRemoveSession, hs] using regStep_refl b
  | some sn =>
  intro h
  -- a session listed after the removal was listed before, and is not `i`
  have hkept : ∀ q j, j ∈ ((b.bfdRemoveSession i).engines q).sessions →
      j ∈ (b.engines q).sessions ∧ j ≠ i := fun q j hj => by
    rw [removeSession_sessions hs] at hj
    split_ifs at hj with hq
    · exact (h.nodup q).mem_erase_iff.1 hj |>.symm
    · refine ⟨hj, fun e => hq ?_⟩
      obtain ⟨-, sn', hs', he⟩ := h.mem q j hj
      rw [e, hs] at hs'
      cases hs'; exact he.symm
  have hsame : ∀ j, j ≠ i → (b.bfdRemoveSession i).entryOf j = b.entryOf j :=
    fun j hj => by simp [entryOf, removeSession_sess_old hs hj]
  refine ⟨⟨fun q => ?_, fun q j hj => ?_⟩, fun hB => hB.mono (fun q j hj => (hkept q j hj).1)
    fun j sj h' => ⟨sj, (removeSession_sess_ne hs h').2, rfl, rfl, rfl⟩,
    by rw [removeSession_nextId], fun q j hj => .inl (hkept q j hj).1, fun _ q t f ht hm => ?_⟩
  · rw [removeSession_sessions hs]; split_ifs
    exacts [(h.nodup q).erase i, h.nodup q]
  · obtain ⟨hj', hji⟩ := hkept q j hj
    rw [removeSession_nextId, removeSession_sess_old hs hji]; exact h.mem q j hj'
  by_cases hi : i ∈ (b.engines q).sessions
  · have hq : sn.engine = q := by
      obtain ⟨-, sn', hs', he⟩ := h.mem q i hi
      rw [hs] at hs'; cases hs'; exact he
    exact hm.follows_erase ht (h.nodup q) hi (by rw [removeSession_sessions hs, if_pos hq.symm])
      hsame
  · have hL : ((b.bfdRemoveSession i).engines q).sessions = (b.engines q).sessions := by
      rw [removeSession_sessions hs]; split_ifs
      exacts [List.erase_of_not_mem hi, rfl]
    exact ⟨[], f, by simp, (hm.congr hL fun j hj =>
      hsame j fun e => hi (e ▸ hj)).follows_self⟩

/-- `bfd_start`'s new engine: its registry starts empty, as the model's does once every
pointer is removed. -/
theorem regStep_addEngine (b : Broker) (cf : BfdConfig) :
    RegStep b { b.setEngine b.nextId ⟨cf, [], [], false, false⟩ with
      protoList := b.protoList ++ [b.nextId], nextId := b.nextId + 1 } := by
  intro h
  refine ⟨⟨fun q => ?_, fun q j hj => ?_⟩, fun hB => hB.mono (fun q j hj => ?_)
    fun j sj h' => ⟨sj, h', rfl, rfl, rfl⟩, Nat.le_succ _, fun q j hj => ?_,
    fun _ q t f ht hm => ?_⟩ <;> by_cases hq : q = b.nextId
  · subst hq; simp
  · simpa [Function.update_noteq hq] using h.nodup q
  · subst hq; simp at hj
  · simp only [setEngine_engines, Function.update_noteq hq] at hj
    exact (h.mem q j hj).imp_left Nat.lt_succ_of_lt
  · subst hq; simp at hj
  · simpa [Function.update_noteq hq] using hj
  · subst hq; simp at hj
  · simp only [setEngine_engines, Function.update_noteq hq] at hj; exact .inl hj
  · subst hq; exact RegMatch.follows_clear ht (by simp)
  · refine ⟨[], f, by simp, RegMatch.follows_self ?_⟩
    exact hm.congr (by simp [Function.update_noteq hq]) fun _ _ => rfl

/-- The main thread's writes keep the registries matched. -/
theorem callFrame_regStep : CallFrame RegStep where
  refl := regStep_refl
  trans := RegStep.trans
  setReq _ _ _ _ := regStep_of_keys (fun _ => rfl) (fun _ => rfl) le_rfl
  remNode b r := regStep_of_keys (fun _ => by rw [remNode_engines]) (remNode_regKey b r)
    (by rw [remNode_nextId])
  addTail b s r := regStep_of_keys (fun _ => by rw [addTail_engines]) (addTail_regKey b s r)
    (by rw [addTail_nextId])
  allocate _ := regStep_of_keys (fun _ => rfl) (fun _ => rfl) (Nat.le_succ _)
  addSession := regStep_addSession
  removeSession := regStep_removeSession
  reconfigureSession b i now := by
    unfold bfdReconfigureSession
    split
    · next sn hs =>
      split
      · split
        exacts [regStep_setSess hs _ rfl, regStep_refl b]
      · exact regStep_refl b
    · exact regStep_refl b
  addEngine := regStep_addEngine
  leave _ _ := regStep_of_keys (fun _ => rfl) (fun _ => rfl) le_rfl

/-! ## The BFD thread and the notifier -/

theorem regStep_threadStep (b : Broker) (p i : Nat) (now : ℕ+) (ev : SessionEvent) :
    RegStep b (b.threadStep p i now ev) := by
  unfold Broker.threadStep
  split
  · next sn hs =>
    have h₁ := regStep_setSess hs { sn with core := sessionStep sn.core now ev } rfl
    split_ifs
    · dsimp only; split_ifs
      exacts [h₁.trans (regStep_setEngine p rfl), h₁]
    · exact regStep_refl b
  · exact regStep_refl b

theorem regStep_drain (b : Broker) (p : Nat) : RegStep b (b.notifyDrain p) :=
  (regStep_setEngine p (e := { b.engines p with pipe := false }) rfl).trans (regStep_setNotifier _)

theorem regStep_splice (b : Broker) (p : Nat) : RegStep b (b.notifySplice p) :=
  (regStep_setEngine p (e := { b.engines p with notifyList := [] }) rfl).trans
    (regStep_setNotifier _)

theorem regStep_pick (b : Broker) (p : Nat) : ∀ tmp, RegStep b (b.notifyPick p tmp)
  | [] => regStep_setNotifier _
  | i :: tmp => by
    rw [notifyPick]
    split
    · next sn hs =>
      exact (regStep_setSess hs
        { sn with core := { sn.core with linked := false }, notifyRunning := true } rfl).trans
        (regStep_setNotifier _)
    · exact regStep_setNotifier _

theorem regStep_finish (b : Broker) (p : Nat) (tmp : List Nat) (i : Nat) :
    RegStep b (b.notifyFinish p tmp i) := by
  unfold notifyFinish
  split
  · next sn hs =>
    have h' := (regStep_setSess hs { sn with notifyRunning := false } rfl).trans
      (regStep_setNotifier (.walking p tmp))
    dsimp only
    split_ifs
    exacts [h'.trans (regStep_removeSession _ i), h']
  · exact regStep_setNotifier _

/-- Every step of the broker, whatever thread takes it. -/
theorem regStep_step (b : Broker) (a : Action) : RegStep b (b.step a) := by
  cases a with
  | thread p i now ev =>
    simp only [Broker.step]; split; exacts [regStep_threadStep b p i now ev, regStep_refl b]
  | kick p => simp only [Broker.step]; split; exacts [regStep_setEngine p rfl, regStep_refl b]
  | drain p =>
    simp only [Broker.step]; split
    exacts [regStep_drain b p, regStep_refl b]
  | splice =>
    simp only [Broker.step]; split
    exacts [regStep_splice b _, regStep_refl b]
  | pick => simp only [Broker.step]; split; exacts [regStep_pick b _ _, regStep_refl b]
  | deliver acts now =>
    simp only [Broker.step]; split
    · exact (regStep_setNotifier _).trans (callFrame_regStep.requestNotify
        (callFrame_regStep.runHook _ acts now) fun _ _ =>
          regStep_of_keys (fun _ => rfl) (fun _ => rfl) le_rfl)
    · exact regStep_refl b
  | finish => simp only [Broker.step]; split; exacts [regStep_finish b _ _ _, regStep_refl b]
  | request addr localAddr iface vrf opts now =>
    simp only [Broker.step]; split
    exacts [callFrame_regStep.requestSession b addr localAddr iface vrf opts now, regStep_refl b]
  | update r opts now =>
    simp only [Broker.step]; split
    exacts [callFrame_regStep.updateRequest b r opts now, regStep_refl b]
  | free r =>
    simp only [Broker.step]; split; exacts [callFrame_regStep.requestFree b r, regStep_refl b]
  | start cf plan now =>
    simp only [Broker.step]; split; exacts [callFrame_regStep.start b cf plan now, regStep_refl b]
  | shutdown p plan now =>
    simp only [Broker.step]; split
    exacts [callFrame_regStep.shutdown b p plan now, regStep_refl b]

theorem RegOk.init : RegOk init where
  nodup _ := by simp [Broker.init, Engine.unused]
  mem _ _ h := by simp [Broker.init, Engine.unused] at h

theorem Reachable.regOk (hb : b.Reachable) : RegOk b :=
  ⟨hb.inv.core.registry.nodup, fun p i hi => ⟨hb.indexed.sessionsLt p i hi, by
    obtain ⟨sn, hs⟩ := Option.ne_none_iff_exists'.1 (hb.inv.core.registry.live p i hi)
    exact ⟨sn, hs, hb.inv.core.registry.engine_of p i sn hi hs⟩⟩⟩

theorem Bound.init : Bound init := fun _ i hi => by simp [Broker.init, Engine.unused] at hi

/-! ## The simulation -/

/-- A forward simulation of the broker by the registry model, engine by engine: from a
reachable broker, whatever step a thread takes, a registry of the model that is engine `p`'s
under a naming `f` of its pointers is carried by a history of `bfd_add_session` and
`bfd_remove_session` calls to one that is engine `p`'s after the step, under a naming that keeps
every pointer that stays on its session; a pointer stays exactly when its session does, and the
pointers added are fresh. This holds while the broker has drawn fewer than `2^32 - 1`
identifiers. -/
theorem broker_step_simulated_by_registry (hb : b.Reachable) (a : Action)
    (hn : (b.step a).nextId < 2 ^ 32 - 1) (p : Nat) {t : Tables} {f : Nat → Nat} (ht : t.Inv)
    (hm : RegMatch t b p f) :
    ∃ ops f', (∀ o ∈ ops, RegOp.direct o) ∧ Follows t (t.run ops) f f' (b.step a) p :=
  (regStep_step b a hb.regOk).2.2.2.2 hn p t f ht hm

/-- The registry the attached session of `attachRun` makes in the model. -/
def attachRegistry : Tables := Tables.empty.run [.addSession 7 0 none 0]

theorem attachRegistry_match : RegMatch attachRegistry (init.run attachRun) 0 (fun _ => 2) :=
  ⟨by decide, by decide⟩

theorem broker_step_simulated_by_registry_free :
    (init.run attachRun).Reachable ∧ ((init.run attachRun).step (.free 1)).nextId < 2 ^ 32 - 1 ∧
      attachRegistry.Inv ∧ RegMatch attachRegistry (init.run attachRun) 0 (fun _ => 2) ∧
      ∃ ops f', (∀ o ∈ ops, RegOp.direct o) ∧
        Follows attachRegistry (attachRegistry.run ops) (fun _ => 2) f'
          ((init.run attachRun).step (.free 1)) 0 :=
  ⟨⟨_, rfl⟩, by decide, Tables.inv_empty.run _, attachRegistry_match,
    broker_step_simulated_by_registry ⟨_, rfl⟩ (.free 1) (by decide) 0 (Tables.inv_empty.run _)
      attachRegistry_match⟩

/-- The simulation over a whole run: from a reachable broker, through any sequence of steps,
the registry follows engine `p`'s, each pointer that stays naming its session, while the broker
has drawn fewer than `2^32 - 1` identifiers. -/
theorem broker_run_simulated_by_registry (hb : b.Reachable) (as : List Action)
    (hn : (b.run as).nextId < 2 ^ 32 - 1) (p : Nat) {t : Tables} {f : Nat → Nat} (ht : t.Inv)
    (hm : RegMatch t b p f) :
    ∃ ops f', (∀ o ∈ ops, RegOp.direct o) ∧ Follows t (t.run ops) f f' (b.run as) p :=
  (callFrame_regStep.foldl (fun c a => regStep_step c a) as b hb.regOk).2.2.2.2 hn p t f ht hm

theorem broker_run_simulated_by_registry_replace :
    (init.run attachRun).Reachable ∧
      ((init.run attachRun).run [.request 8 0 none none {} 1, .free 1]).nextId < 2 ^ 32 - 1 ∧
      attachRegistry.Inv ∧ RegMatch attachRegistry (init.run attachRun) 0 (fun _ => 2) ∧
      ∃ ops f', (∀ o ∈ ops, RegOp.direct o) ∧
        Follows attachRegistry (attachRegistry.run ops) (fun _ => 2) f'
          ((init.run attachRun).run [.request 8 0 none none {} 1, .free 1]) 0 :=
  ⟨⟨_, rfl⟩, by decide, Tables.inv_empty.run _, attachRegistry_match,
    broker_run_simulated_by_registry ⟨_, rfl⟩ _ (by decide) 0 (Tables.inv_empty.run _)
      attachRegistry_match⟩

/-! ## One configuration per binding -/

end Broker

end Bfd
