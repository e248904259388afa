import Bfd.Registry

/-! # The registry's invariant

Whatever sequence of creations and removals an engine's registry goes through, the two hash
tables hold the same sessions, once each; their discriminators are non-zero and pairwise
distinct, because `bfd_get_free_id` skips zero and every discriminator in the table; each
binding of `iface_list` is the only one for its `(local, iface)`, and its use count is the
number of registered sessions bound to it. A binding therefore exists exactly while some
session uses it: `bfd_free_iface` frees it with the removal of its last session. When every
creation goes through `bfd_add_request`, which looks the key up first, the keys
`(addr, ifindex)` are pairwise distinct as well. -/
namespace Bfd

namespace Tables

variable {t t' : Tables}

/-- The registered sessions bound to binding `a`: what its use count counts. -/
def users (t : Tables) (a : Nat) : Nat :=
  t.hashId.countP fun s => (t.sess s).any fun e => e.ifa == a

/-- What holds of an engine's registry after any sequence of creations and removals. -/
structure Inv (t : Tables) : Prop where
  hashId : ∀ s, s ∈ t.hashId ↔ t.sess s ≠ none
  hashIp : ∀ s, s ∈ t.hashIp ↔ t.sess s ≠ none
  nodupId : t.hashId.Nodup
  nodupIp : t.hashIp.Nodup
  freshSess : ∀ n, t.next ≤ n → t.sess n = none
  freshIfa : ∀ n, t.next ≤ n → t.ifas n = none
  locId : ∀ s e, t.sess s = some e → e.locId ≠ 0
  locIdInj : ∀ s s' e e', t.sess s = some e → t.sess s' = some e' → e.locId = e'.locId → s = s'
  ifaceList : ∀ a, a ∈ t.ifaceList ↔ t.ifas a ≠ none
  ifaceNodup : t.ifaceList.Nodup
  ifaceKey : ∀ a a' f f', t.ifas a = some f → t.ifas a' = some f' →
    f.localAddr = f'.localAddr → f.iface = f'.iface → a = a'
  uc : ∀ a f, t.ifas a = some f → f.uc = t.users a ∧ 1 ≤ f.uc
  bound : ∀ s e, t.sess s = some e → t.ifas e.ifa ≠ none

/-- Registered sessions have pairwise distinct keys `(addr, ifindex)`. -/
def KeysUnique (t : Tables) : Prop :=
  ∀ s s' e e', t.sess s = some e → t.sess s' = some e' → e.addr = e'.addr →
    e.ifindex = e'.ifindex → s = s'

theorem inv_empty : Inv empty :=
  { hashId := fun _ => by simp [empty], hashIp := fun _ => by simp [empty]
    nodupId := List.nodup_nil, nodupIp := List.nodup_nil
    freshSess := fun _ _ => rfl, freshIfa := fun _ _ => rfl
    locId := fun _ _ h => (by cases h), locIdInj := fun _ _ _ _ h => (by cases h)
    ifaceList := fun _ => by simp [empty], ifaceNodup := List.nodup_nil
    ifaceKey := fun _ _ _ _ h => (by cases h), uc := fun _ _ h => (by cases h)
    bound := fun _ _ h => (by cases h) }

theorem keysUnique_empty : KeysUnique empty := fun _ _ _ _ h => by cases h

/-! ## Use counts -/

/-- A session outside the table does not change the count, whatever it is bound to. -/
theorem countP_update_of_not_mem {l : List Nat} {s : Nat} (hs : s ∉ l)
    (f : Nat → Option SessionEntry) (v : Option SessionEntry) (a : Nat) :
    l.countP (fun x => (Function.update f s v x).any fun e => e.ifa == a) =
      l.countP (fun x => (f x).any fun e => e.ifa == a) :=
  List.countP_congr fun x hx => by
    rw [Function.update_noteq (fun (e : x = s) => hs (e ▸ hx))]

/-- Inserting session `s` bound to `e.ifa` adds one user to that binding. -/
theorem users_insert (h : Inv t) {s : Nat} (hs : t.sess s = none) (e : SessionEntry) (a : Nat) :
    (t.hashId ++ [s]).countP (fun x => (Function.update t.sess s (some e) x).any fun e => e.ifa == a) =
      t.users a + if e.ifa = a then 1 else 0 := by
  have hn : s ∉ t.hashId := fun hm => (h.hashId s).1 hm hs
  rw [List.countP_append, countP_update_of_not_mem hn, List.countP_singleton]
  simp [users]

/-- Removing registered session `s` takes one user from its binding. -/
theorem users_erase (h : Inv t) {s : Nat} {e : SessionEntry} (hs : t.sess s = some e) (a : Nat) :
    (t.hashId.erase s).countP (fun x => (Function.update t.sess s none x).any fun e => e.ifa == a) =
      t.users a - if e.ifa = a then 1 else 0 := by
  have hm : s ∈ t.hashId := (h.hashId s).2 (by simp [hs])
  rw [countP_update_of_not_mem (h.nodupId.not_mem_erase)]
  have hp := (List.perm_cons_erase hm).countP_eq fun x => (t.sess x).any fun e => e.ifa == a
  rw [List.countP_cons] at hp
  simp only [users, hp, hs, Option.any_some, beq_iff_eq]
  split <;> omega

/-- A binding in use is allocated. -/
theorem Inv.ifas_of_users (h : Inv t) {a : Nat} (hu : t.users a ≠ 0) : t.ifas a ≠ none := by
  obtain ⟨s, -, hs⟩ := List.countP_pos_iff.1 (Nat.pos_of_ne_zero hu)
  cases he : t.sess s with
  | none => simp [he] at hs
  | some e =>
    simp only [he, Option.any_some, beq_iff_eq] at hs
    exact hs ▸ h.bound s e he

/-! ## `bfd_get_iface` -/

/-- What `bfd_get_iface` hands to `bfd_add_session`: the sessions as they were, and a binding
for the key with one use more than it has registered sessions; every other binding is as it
was, and `iface_list` still lists the allocated bindings, one per key. -/
structure GotIface (t t₁ : Tables) (localAddr : Nat) (iface : Option Nat) (a : Nat) : Prop where
  sess : t₁.sess = t.sess
  hashId : t₁.hashId = t.hashId
  hashIp : t₁.hashIp = t.hashIp
  next : t.next ≤ t₁.next
  freshIfa : ∀ n, t₁.next ≤ n → t₁.ifas n = none
  got : t₁.ifas a = some ⟨localAddr, iface, t.users a + 1⟩
  other : ∀ b, b ≠ a → t₁.ifas b = t.ifas b
  ifaceList : ∀ b, b ∈ t₁.ifaceList ↔ t₁.ifas b ≠ none
  ifaceNodup : t₁.ifaceList.Nodup
  ifaceKey : ∀ b b' f f', t₁.ifas b = some f → t₁.ifas b' = some f' →
    f.localAddr = f'.localAddr → f.iface = f'.iface → b = b'

/-- The bindings after `bfd_get_iface` returns `a`: only `a` changed, it has the key and one use
more than it has sessions, and it is the only binding with the key. -/
theorem Inv.gotIface {localAddr : Nat} {iface : Option Nat} (h : Inv t)
    {F : Nat → Option IfaceEntry} {L : List Nat} {n a : Nat} (hn : t.next ≤ n)
    (hfresh : ∀ m, n ≤ m → F m = none) (hg : F a = some ⟨localAddr, iface, t.users a + 1⟩)
    (ho : ∀ b, b ≠ a → F b = t.ifas b) (hL : ∀ b, b ∈ L ↔ F b ≠ none) (hnd : L.Nodup)
    (hkey : ∀ b f, t.ifas b = some f → f.localAddr = localAddr → f.iface = iface → b = a) :
    GotIface t ⟨t.sess, F, t.hashId, t.hashIp, L, n⟩ localAddr iface a := by
  refine ⟨rfl, rfl, rfl, hn, hfresh, hg, ho, hL, hnd, fun b b' f f' hb hb' hl hi => ?_⟩
  dsimp only at hb hb'
  -- a binding other than `a` with the key of `a` was there before and has the key
  have key : ∀ c g, F c = some g → g.localAddr = localAddr → g.iface = iface → c = a :=
    fun c g hc hl hi => by_contra fun hca => absurd (hkey c g (ho c hca ▸ hc) hl hi) hca
  by_cases ha : b = a
  · subst ha; rw [hg] at hb; cases hb; exact (key b' f' hb' hl.symm hi.symm).symm
  by_cases ha' : b' = a
  · subst ha'; rw [hg] at hb'; cases hb'; exact key b f hb hl hi
  exact h.ifaceKey b b' f f' (ho b ha ▸ hb) (ho b' ha' ▸ hb') hl hi

theorem Inv.getIface (h : Inv t) (localAddr : Nat) (iface : Option Nat) :
    GotIface t (t.bfdGetIface localAddr iface).1 localAddr iface (t.bfdGetIface localAddr iface).2 := by
  unfold bfdGetIface
  split
  next a hfind =>
    -- the binding of the key gets one more use
    have hp := List.find?_some hfind
    obtain ⟨f, hf⟩ : ∃ f, t.ifas a = some f := Option.ne_none_iff_exists'.1
      ((h.ifaceList a).1 (List.mem_of_find?_eq_some hfind))
    simp only [hf, Option.any_some, Bool.and_eq_true, beq_iff_eq] at hp
    have ho : ∀ b, b ≠ a → Function.update t.ifas a ((t.ifas a).map fun f => { f with uc := f.uc + 1 }) b =
        t.ifas b := fun b hb => Function.update_noteq hb _ _
    refine h.gotIface le_rfl (fun m hm => ?_) ?_ ho (fun b => ?_) h.ifaceNodup
      fun b g hb hl hi => h.ifaceKey b a g f hb hf (hl.trans hp.1.symm) (hi.trans hp.2.symm)
    · rw [ho m (fun e => by subst e; simp [h.freshIfa _ hm] at hf)]; exact h.freshIfa m hm
    · rw [Function.update_same, hf, ← hp.1, ← hp.2, ← (h.uc a f hf).1]; rfl
    · by_cases hba : b = a
      · subst hba; simp [(h.ifaceList b).2 (by simp [hf]), hf]
      · rw [ho b hba]; exact h.ifaceList b
  next hfind =>
    -- a new binding for the key joins the tail of the list
    have hnone : t.ifas t.next = none := h.freshIfa _ le_rfl
    have hu : t.users t.next = 0 := by
      by_contra hu; exact h.ifas_of_users hu hnone
    refine h.gotIface (Nat.le_succ _) (fun m hm => ?_) (by simp [hu])
      (fun b hb => Function.update_noteq hb _ _) (fun b => ?_)
      (List.concat_eq_append _ _ ▸ h.ifaceNodup.concat (fun hm => (h.ifaceList _).1 hm hnone))
      fun b g hb hl hi => absurd (by simp [hb, hl, hi])
        (List.find?_eq_none.1 hfind b ((h.ifaceList b).2 (by simp [hb])))
    · rw [Function.update_noteq (by omega)]; exact h.freshIfa m (by omega)
    · by_cases hb : b = t.next
      · subst hb; simp
      · simp [Function.update_noteq hb, h.ifaceList b, hb]

/-! ## Creation and removal -/

section AddSession
variable {addr localAddr : Nat} {iface : Option Nat} {r : BitVec 32} {s : Nat} {t₁ : Tables}
  {a : Nat}

/-- The insertion that ends `bfd_add_session`: a session bound to the binding `bfd_get_iface`
returned, with a non-zero discriminator no registered session has, under the fresh pointer,
into both tables. -/
theorem Inv.insert (h : Inv t) (g : GotIface t t₁ localAddr iface a) {e : SessionEntry}
    (hea : e.ifa = a) (h0 : e.locId ≠ 0)
    (hfree : ∀ x ∈ t.hashId, ∀ e', t.sess x = some e' → e'.locId ≠ e.locId) :
    Inv ⟨Function.update t.sess t₁.next (some e), t₁.ifas, t.hashId ++ [t₁.next],
      t.hashIp ++ [t₁.next], t₁.ifaceList, t₁.next + 1⟩ := by
  have hs : t.sess t₁.next = none := h.freshSess _ g.next
  have hn : t₁.next ∉ t.hashId := fun hm => (h.hashId _).1 hm hs
  have hn' : t₁.next ∉ t.hashIp := fun hm => (h.hashIp _).1 hm hs
  -- a session is the new one, or an old one as it was
  have hcases : ∀ x e', Function.update t.sess t₁.next (some e) x = some e' →
      (x = t₁.next ∧ e' = e) ∨ (x ≠ t₁.next ∧ t.sess x = some e') := fun x e' hx => by
    by_cases hx' : x = t₁.next
    · subst hx'; rw [Function.update_same] at hx; exact Or.inl ⟨rfl, (Option.some.inj hx).symm⟩
    · rw [Function.update_noteq hx'] at hx; exact Or.inr ⟨hx', hx⟩
  have hmem : ∀ l : List Nat, (∀ x, x ∈ l ↔ t.sess x ≠ none) →
      ∀ x, x ∈ l ++ [t₁.next] ↔ Function.update t.sess t₁.next (some e) x ≠ none := fun l hl x => by
    by_cases hx : x = t₁.next
    · subst hx; simp
    · simp [Function.update_noteq hx, hl x, hx]
  have hreg : ∀ y e', t.sess y = some e' → y ∈ t.hashId := fun y e' hy => (h.hashId y).2 (by simp [hy])
  constructor <;> dsimp only
  · exact hmem _ h.hashId
  · exact hmem _ h.hashIp
  · rw [← List.concat_eq_append]; exact h.nodupId.concat hn
  · rw [← List.concat_eq_append]; exact h.nodupIp.concat hn'
  · intro m hm
    rw [Function.update_noteq (by omega)]; exact h.freshSess m (by have := g.next; omega)
  · exact fun m hm => g.freshIfa m (by omega)
  · intro x e' hx
    rcases hcases x e' hx with ⟨-, rfl⟩ | ⟨-, hx⟩
    exacts [h0, h.locId x e' hx]
  · intro x x' e₁ e₂ hx hx' hl
    rcases hcases x e₁ hx with ⟨rfl, rfl⟩ | ⟨-, h₁⟩ <;>
      rcases hcases x' e₂ hx' with ⟨rfl, rfl⟩ | ⟨-, h₂⟩
    · rfl
    · exact absurd hl.symm (hfree x' (hreg x' _ h₂) _ h₂)
    · exact absurd hl (hfree x (hreg x _ h₁) _ h₁)
    · exact h.locIdInj x x' _ _ h₁ h₂ hl
  · exact g.ifaceList
  · exact g.ifaceNodup
  · exact g.ifaceKey
  · -- the binding of the new session counts it; every other binding keeps its count
    intro b f hb
    dsimp only [users]
    rw [users_insert h hs e b]
    by_cases hba : b = a
    · subst hba; rw [g.got] at hb; cases hb; simp [hea]
    · rw [g.other b hba] at hb
      simp only [hea, Ne.symm hba, if_false, Nat.add_zero]; exact h.uc b f hb
  · intro x e' hx
    rcases hcases x e' hx with ⟨-, rfl⟩ | ⟨-, hx⟩
    · rw [hea, g.got]; simp
    · by_cases hba : e'.ifa = a
      · rw [hba, g.got]; simp
      · rw [g.other _ hba]; exact h.bound x e' hx

/-- `bfd_add_session` keeps the invariant. The new session `s` was unallocated; it has the
request's key, and every allocated binding stays allocated. -/
theorem Inv.addSession (h : Inv t) (he : t.bfdAddSession addr localAddr iface r = some (t', s)) :
    Inv t' ∧ t.sess s = none ∧
      (∃ e, t'.sess = Function.update t.sess s (some e) ∧ e.addr = addr ∧ e.ifindex = iface.getD 0) ∧
      ∀ b, t.ifas b ≠ none → t'.ifas b ≠ none := by
  have g := h.getIface localAddr iface
  unfold bfdAddSession at he
  generalize t.bfdGetIface localAddr iface = p at g he
  obtain ⟨t₁, a⟩ := p
  dsimp only at g he
  split at he
  · cases he
  next id hid =>
    cases he
    obtain ⟨k, -, rfl, ⟨h0, hfree⟩, -⟩ := probeId_some hid
    rw [findById_eq_none, g.sess, g.hashId] at hfree
    have hi := h.insert g (e := ⟨addr, iface.getD 0, r + BitVec.ofNat 32 k, a⟩) rfl h0 hfree
    rw [← g.sess, ← g.hashId, ← g.hashIp] at hi
    refine ⟨hi, h.freshSess _ g.next, ⟨_, by rw [g.sess], rfl, rfl⟩, fun b hb => ?_⟩
    by_cases hba : b = a
    · subst hba; dsimp only; rw [g.got]; simp
    · dsimp only; rw [g.other b hba]; exact hb

end AddSession

section RemoveSession
variable {s : Nat} {e : SessionEntry}

/-- What `bfd_free_iface` does to the binding of a removed session. -/
theorem bfdFreeIface_of {a : Nat} {f : IfaceEntry} (hf : t.ifas a = some f) :
    t.bfdFreeIface a =
      if f.uc - 1 ≠ 0 then { t with ifas := Function.update t.ifas a (some { f with uc := f.uc - 1 }) }
      else { t with ifas := Function.update t.ifas a none, ifaceList := t.ifaceList.erase a } := by
  simp only [bfdFreeIface, hf]

/-- The removal that ends `bfd_remove_session`, after `bfd_free_iface`: the bindings `F`
and the list `L` are those of `t` with the session's binding losing one use. -/
theorem Inv.unregister (h : Inv t) (hs : t.sess s = some e) {F : Nat → Option IfaceEntry}
    {L : List Nat} (hL : ∀ b, b ∈ L ↔ F b ≠ none) (hnd : L.Nodup)
    (ho : ∀ b, b ≠ e.ifa → F b = t.ifas b)
    (hF : ∀ g, F e.ifa = some g → ∃ f, t.ifas e.ifa = some f ∧ g.localAddr = f.localAddr ∧
      g.iface = f.iface ∧ g.uc = f.uc - 1 ∧ 1 ≤ g.uc)
    (hlast : F e.ifa = none → t.users e.ifa = 1) :
    Inv ⟨Function.update t.sess s none, F, t.hashId.erase s, t.hashIp.erase s, L, t.next⟩ := by
  have hcases : ∀ x e', Function.update t.sess s none x = some e' → x ≠ s ∧ t.sess x = some e' :=
    fun x e' hx => by
      by_cases hxs : x = s
      · subst hxs; simp at hx
      · rw [Function.update_noteq hxs] at hx; exact ⟨hxs, hx⟩
  have hmem : ∀ l : List Nat, l.Nodup → (∀ x, x ∈ l ↔ t.sess x ≠ none) →
      ∀ x, x ∈ l.erase s ↔ Function.update t.sess s none x ≠ none := fun l hl hm x => by
    by_cases hxs : x = s
    · subst hxs; simp [hl.not_mem_erase]
    · simp [hl.mem_erase_iff, hxs, hm x, Function.update_noteq hxs]
  have hold : ∀ b g, F b = some g → ∃ f, t.ifas b = some f ∧ g.localAddr = f.localAddr ∧
      g.iface = f.iface := fun b g hb => by
    by_cases hb' : b = e.ifa
    · subst hb'; obtain ⟨f, hf, hl, hi, -⟩ := hF g hb; exact ⟨f, hf, hl, hi⟩
    · rw [ho b hb'] at hb; exact ⟨g, hb, rfl, rfl⟩
  constructor <;> dsimp only
  · exact hmem _ h.nodupId h.hashId
  · exact hmem _ h.nodupIp h.hashIp
  · exact h.nodupId.erase s
  · exact h.nodupIp.erase s
  · intro m hm
    by_cases hms : m = s
    · subst hms; simp
    · rw [Function.update_noteq hms]; exact h.freshSess m hm
  · intro m hm
    cases hFm : F m with
    | none => rfl
    | some g => obtain ⟨f, hf, -⟩ := hold m g hFm; simp [h.freshIfa m hm] at hf
  · exact fun x e' hx => h.locId x e' (hcases x e' hx).2
  · exact fun x x' e₁ e₂ hx hx' => h.locIdInj x x' e₁ e₂ (hcases x e₁ hx).2 (hcases x' e₂ hx').2
  · exact hL
  · exact hnd
  · intro b b' g g' hb hb' hl hi
    obtain ⟨f, hf, hl₁, hi₁⟩ := hold b g hb
    obtain ⟨f', hf', hl₂, hi₂⟩ := hold b' g' hb'
    exact h.ifaceKey b b' f f' hf hf' (by rw [← hl₁, ← hl₂, hl]) (by rw [← hi₁, ← hi₂, hi])
  · intro b g hb
    dsimp only [users]
    rw [users_erase h hs b]
    by_cases hb' : b = e.ifa
    · subst hb'
      obtain ⟨f, hf, -, -, hg, hg1⟩ := hF g hb
      have := (h.uc _ f hf).1
      simp only [if_true]; omega
    · rw [ho b hb'] at hb
      simp only [Ne.symm hb', if_false, Nat.sub_zero]; exact h.uc b g hb
  · intro x e' hx
    obtain ⟨hxs, hx⟩ := hcases x e' hx
    by_cases hb' : e'.ifa = e.ifa
    · -- two sessions bound to one binding: it has another use left
      rw [hb']
      intro hn
      have : 0 < (t.hashId.erase s).countP
          fun y => (Function.update t.sess s none y).any fun e'' => e''.ifa == e.ifa :=
        List.countP_pos_iff.2 ⟨x, (h.nodupId.mem_erase_iff).2 ⟨hxs, (h.hashId x).2 (by simp [hx])⟩,
          by simp [Function.update_noteq hxs, hx, hb']⟩
      rw [users_erase h hs, if_pos rfl, hlast hn] at this
      omega
    · rw [ho _ hb']; exact h.bound x e' hx

/-- `bfd_remove_session` keeps the invariant: the session is unregistered and freed, every
other binding is left alone, and the session's binding is freed exactly when the session was
its last user. -/
theorem Inv.removeSession (h : Inv t) (hs : t.sess s = some e) :
    Inv (t.bfdRemoveSession s) ∧ (t.bfdRemoveSession s).sess = Function.update t.sess s none ∧
      (∀ b, b ≠ e.ifa → (t.bfdRemoveSession s).ifas b = t.ifas b) ∧
      ((t.bfdRemoveSession s).ifas e.ifa = none ↔ t.users e.ifa = 1) := by
  obtain ⟨f, hf⟩ := Option.ne_none_iff_exists'.1 (h.bound s e hs)
  obtain ⟨hu, h1⟩ := h.uc _ f hf
  have hmem : e.ifa ∈ t.ifaceList := (h.ifaceList _).2 (by simp [hf])
  unfold bfdRemoveSession
  rw [hs]; dsimp only
  rw [bfdFreeIface_of hf]
  split_ifs with hk
  · refine ⟨h.unregister hs (F := Function.update t.ifas e.ifa _) (fun b => ?_) h.ifaceNodup
      (fun b hb => Function.update_noteq hb _ _) (fun g hg => ?_) (by simp), rfl,
      fun b hb => Function.update_noteq hb _ _, by simp; omega⟩
    · by_cases hb : b = e.ifa
      · subst hb; simp [hmem]
      · rw [Function.update_noteq hb]; exact h.ifaceList b
    · rw [Function.update_same] at hg; cases hg
      exact ⟨f, hf, rfl, rfl, rfl, show 1 ≤ f.uc - 1 by omega⟩
  · refine ⟨h.unregister hs (F := Function.update t.ifas e.ifa none) (fun b => ?_)
      (h.ifaceNodup.erase _) (fun b hb => Function.update_noteq hb _ _) (fun g hg => by simp at hg)
      (fun _ => by omega), rfl, fun b hb => Function.update_noteq hb _ _, by simp; omega⟩
    by_cases hb : b = e.ifa
    · subst hb; simp [h.ifaceNodup.not_mem_erase]
    · rw [Function.update_noteq hb, h.ifaceNodup.mem_erase_iff]; simp [hb, h.ifaceList b]

end RemoveSession

/-! ## Runs -/

section Runs
variable {addr localAddr : Nat} {iface : Option Nat} {r : BitVec 32} {s : Nat}

/-- `bfd_add_request` finds the session of the key, or makes one. -/
theorem Inv.addRequest (h : Inv t) (he : t.bfdAddRequest addr localAddr iface r = some (t', s)) :
    Inv t' ∧ ∀ b, t.ifas b ≠ none → t'.ifas b ≠ none := by
  unfold bfdAddRequest at he
  split at he
  · cases he; exact ⟨h, fun _ => id⟩
  · obtain ⟨hi, -, -, hb⟩ := h.addSession he; exact ⟨hi, hb⟩

/-- The effect of one operation on the invariant and on the allocated bindings: a creation
keeps every binding, a removal frees the binding of the session exactly when the session was
its last user. -/
theorem Inv.step (h : Inv t) (o : RegOp) :
    Inv (t.step o) ∧ ∀ a, t.ifas a ≠ none → ((t.step o).ifas a = none ↔
      ∃ s e, o = .removeSession s ∧ t.sess s = some e ∧ e.ifa = a ∧ t.users a = 1) := by
  cases o with
  | addSession addr localAddr iface r =>
    simp only [Tables.step]
    cases he : t.bfdAddSession addr localAddr iface r with
    | none => exact ⟨h, fun a ha => by simpa using ha⟩
    | some p =>
      obtain ⟨hi, -, -, hb⟩ := h.addSession he
      exact ⟨hi, fun a ha => by simpa using hb a ha⟩
  | addRequest addr localAddr iface r =>
    simp only [Tables.step]
    cases he : t.bfdAddRequest addr localAddr iface r with
    | none => exact ⟨h, fun a ha => by simpa using ha⟩
    | some p =>
      obtain ⟨hi, hb⟩ := h.addRequest he
      exact ⟨hi, fun a ha => by simpa using hb a ha⟩
  | removeSession s =>
    simp only [Tables.step]
    split_ifs with hs
    · obtain ⟨e, he⟩ := Option.ne_none_iff_exists'.1 ((h.hashId s).1 hs)
      obtain ⟨hi, -, ho, hlast⟩ := h.removeSession he
      refine ⟨hi, fun a ha => ?_⟩
      by_cases hea : e.ifa = a
      · subst hea; rw [hlast]
        exact ⟨fun hu => ⟨s, e, rfl, he, rfl, hu⟩, fun ⟨_, _, hs', he', hu⟩ => by
          cases hs'; exact hu.2⟩
      · rw [ho a (Ne.symm hea)]
        refine ⟨fun hn => absurd hn ha, fun ⟨_, _, hs', he', hu⟩ => ?_⟩
        cases hs'; rw [he] at he'; cases he'; exact absurd hu.1 hea
    · refine ⟨h, fun a ha => ⟨fun hn => absurd hn ha, fun ⟨_, e, hs', he', _⟩ => ?_⟩⟩
      cases hs'; exact absurd ((h.hashId _).2 (by simp [he'])) hs

theorem Inv.run (h : Inv t) (ops : List RegOp) : Inv (t.run ops) := by
  induction ops generalizing t with
  | nil => exact h
  | cons o os ih => exact ih (h.step o).1

theorem KeysUnique.of_sess (hk : KeysUnique t) (hs : t'.sess = t.sess) : KeysUnique t' :=
  fun x x' e e' hx hx' => hk x x' e e' (hs ▸ hx) (hs ▸ hx')

/-- A request's `bfd_add_request` makes a session only for a key no session has. -/
theorem KeysUnique.addRequest (h : Inv t) (hk : KeysUnique t)
    (he : t.bfdAddRequest addr localAddr iface r = some (t', s)) : KeysUnique t' := by
  unfold bfdAddRequest at he
  split at he
  · cases he; exact hk
  next hfind =>
    obtain ⟨-, -, ⟨e, hsess, ha, hi⟩, -⟩ := h.addSession he
    have hnew : ∀ x e', t.sess x = some e' → e'.addr = e.addr → e'.ifindex = e.ifindex → False :=
      fun x e' hx hea hei => List.find?_eq_none.1 hfind x ((h.hashIp x).2 (by simp [hx]))
        (by simp [hx, hea, hei, ha, hi])
    intro x x' e₁ e₂ hx hx' hl hi'
    rw [hsess] at hx hx'
    by_cases hxs : x = s <;> by_cases hxs' : x' = s
    · rw [hxs, hxs']
    · subst hxs; rw [Function.update_same] at hx; cases hx
      rw [Function.update_noteq hxs'] at hx'
      exact (hnew x' e₂ hx' hl.symm hi'.symm).elim
    · subst hxs'; rw [Function.update_same] at hx'; cases hx'
      rw [Function.update_noteq hxs] at hx
      exact (hnew x e₁ hx hl hi').elim
    · rw [Function.update_noteq hxs] at hx; rw [Function.update_noteq hxs'] at hx'
      exact hk x x' e₁ e₂ hx hx' hl hi'

theorem KeysUnique.step (h : Inv t) (hk : KeysUnique t) {o : RegOp} (ho : o.viaRequest = true) :
    KeysUnique (t.step o) := by
  cases o with
  | addSession => cases ho
  | addRequest addr localAddr iface r =>
    simp only [Tables.step]
    cases he : t.bfdAddRequest addr localAddr iface r with
    | none => exact hk
    | some p => exact hk.addRequest h he
  | removeSession s =>
    simp only [Tables.step]
    split_ifs with hs
    · obtain ⟨e, he⟩ := Option.ne_none_iff_exists'.1 ((h.hashId s).1 hs)
      intro x x' e₁ e₂ hx hx'
      rw [(h.removeSession he).2.1] at hx hx'
      by_cases hxs : x = s
      · subst hxs; simp at hx
      by_cases hxs' : x' = s
      · subst hxs'; simp at hx'
      rw [Function.update_noteq hxs] at hx; rw [Function.update_noteq hxs'] at hx'
      exact hk x x' e₁ e₂ hx hx'
    · exact hk

theorem KeysUnique.run (h : Inv t) (hk : KeysUnique t) (ops : List RegOp)
    (ho : ∀ o ∈ ops, o.viaRequest = true) : KeysUnique (t.run ops) := by
  induction ops generalizing t with
  | nil => exact hk
  | cons o os ih =>
    exact ih (h.step o).1 (hk.step h (ho o (List.mem_cons_self _ _)))
      fun o' ho' => ho o' (List.mem_cons_of_mem _ ho')

end Runs

/-- The registry's indexes agree: the two hash tables hold the same sessions, whose
discriminators are non-zero and pairwise distinct and whose keys are pairwise distinct. -/
def IndexesAgree (t : Tables) : Prop :=
  (∀ s, s ∈ t.hashId ↔ s ∈ t.hashIp) ∧
  ∀ s ∈ t.hashId, ∀ s' ∈ t.hashId, ∃ e e', t.sess s = some e ∧ t.sess s' = some e' ∧
    e.locId ≠ 0 ∧ (e.locId = e'.locId → s = s') ∧
    (e.addr = e'.addr → e.ifindex = e'.ifindex → s = s')

theorem Inv.indexesAgree (h : Inv t) (hk : KeysUnique t) : IndexesAgree t := by
  have hsess : ∀ s ∈ t.hashId, ∃ e, t.sess s = some e :=
    fun s hs => Option.ne_none_iff_exists'.1 ((h.hashId s).1 hs)
  refine ⟨fun s => (h.hashId s).trans (h.hashIp s).symm, fun s hs s' hs' => ?_⟩
  obtain ⟨⟨e, he⟩, ⟨e', he'⟩⟩ := And.intro (hsess s hs) (hsess s' hs')
  exact ⟨e, e', he, he', h.locId s e he, h.locIdInj s s' e e' he he', hk s s' e e' he he'⟩

/-- Whatever sessions `bfd_add_session` makes and `bfd_remove_session` removes, `iface_list`
has one binding per `(local, iface)`; each binding's use count is the number of registered
sessions bound to it and at least 1; every registered session's binding is listed; and the
next operation frees a listed binding exactly when it removes the binding's last session. -/
theorem iface_bindings_counted (ops : List RegOp) :
    let t := empty.run ops
    (∀ a ∈ t.ifaceList, ∀ a' ∈ t.ifaceList, ∀ f f', t.ifas a = some f → t.ifas a' = some f' →
      f.localAddr = f'.localAddr → f.iface = f'.iface → a = a') ∧
    (∀ a ∈ t.ifaceList, ∃ f, t.ifas a = some f ∧ f.uc = t.users a ∧ 1 ≤ f.uc) ∧
    (∀ s ∈ t.hashId, ∃ e, t.sess s = some e ∧ e.ifa ∈ t.ifaceList) ∧
    ∀ o a, a ∈ t.ifaceList → ((t.step o).ifas a = none ↔
      ∃ s e, o = .removeSession s ∧ t.sess s = some e ∧ e.ifa = a ∧ t.users a = 1) := by
  have h := inv_empty.run ops
  refine ⟨fun a _ a' _ => h.ifaceKey a a', fun a ha => ?_, fun s hs => ?_,
    fun o a ha => (h.step o).2 a ((h.ifaceList a).1 ha)⟩
  · obtain ⟨f, hf⟩ := Option.ne_none_iff_exists'.1 ((h.ifaceList a).1 ha)
    exact ⟨f, hf, h.uc a f hf⟩
  · obtain ⟨e, he⟩ := Option.ne_none_iff_exists'.1 ((h.hashId s).1 hs)
    exact ⟨e, he, (h.ifaceList _).2 (h.bound s e he)⟩

/-! ## Lookups -/

/-- `HASH_FIND` over a table that lists exactly the registered sessions, for a key at most one
of them has: it finds a session exactly when that session is registered under the key. -/
theorem find?_eq_some_iff {L : List Nat} (hL : ∀ s, s ∈ L ↔ t.sess s ≠ none)
    (P : SessionEntry → Bool)
    (hu : ∀ s s' e e', t.sess s = some e → t.sess s' = some e' → P e → P e' → s = s') (s : Nat) :
    L.find? (fun s => (t.sess s).any P) = some s ↔ ∃ e, t.sess s = some e ∧ P e = true := by
  have found : ∀ {s}, L.find? (fun s => (t.sess s).any P) = some s →
      ∃ e, t.sess s = some e ∧ P e = true := fun {s} hf => by
    have hp := List.find?_some hf
    cases hs : t.sess s with
    | none => simp [hs] at hp
    | some e => exact ⟨e, rfl, by simpa [hs] using hp⟩
  refine ⟨found, fun ⟨e, he, hp⟩ => ?_⟩
  cases hf : L.find? (fun s => (t.sess s).any P) with
  | none =>
    have := List.find?_eq_none.1 hf s ((hL s).2 (by simp [he]))
    simp [he, hp] at this
  | some s' =>
    obtain ⟨e', he', hp'⟩ := found hf
    rw [hu s' s e' e he' he hp' hp]

/-- `bfd_find_session_by_id` finds a session exactly under its own discriminator. -/
theorem Inv.findById_iff (h : Inv t) (id : BitVec 32) (s : Nat) :
    t.bfdFindSessionById id = some s ↔ ∃ e, t.sess s = some e ∧ e.locId = id := by
  simpa using find?_eq_some_iff h.hashId (fun e => e.locId == id)
    (fun s s' e e' he he' hp hp' =>
      h.locIdInj s s' e e' he he' ((beq_iff_eq.1 hp).trans (beq_iff_eq.1 hp').symm)) s

/-- With keys pairwise distinct, `bfd_find_session_by_addr` finds a session exactly under its
own key. -/
theorem Inv.findByAddr_iff (h : Inv t) (hk : KeysUnique t) (addr ifindex s : Nat) :
    t.bfdFindSessionByAddr addr ifindex = some s ↔
      ∃ e, t.sess s = some e ∧ e.addr = addr ∧ e.ifindex = ifindex := by
  simpa using find?_eq_some_iff h.hashIp (fun e => e.addr == addr && e.ifindex == ifindex)
    (fun s s' e e' he he' hp hp' => by
      simp only [Bool.and_eq_true, beq_iff_eq] at hp hp'
      exact hk s s' e e' he he' (hp.1.trans hp'.1.symm) (hp.2.trans hp'.2.symm)) s

/-- Whatever sessions were made and removed, `bfd_find_session_by_id` finds a session exactly
under the discriminator it is registered with: the receive path's lookup by `your_discr` never
returns another session. -/
theorem registry_finds_by_id (ops : List RegOp) (id : BitVec 32) (s : Nat) :
    (empty.run ops).bfdFindSessionById id = some s ↔
      ∃ e, (empty.run ops).sess s = some e ∧ e.locId = id :=
  (inv_empty.run ops).findById_iff id s

/-- When every session is made through `bfd_add_request`, `bfd_find_session_by_addr` finds a
session exactly under the key `(addr, ifindex)` it is registered with. -/
theorem registry_finds_by_key (ops : List RegOp) (ho : ∀ o ∈ ops, o.viaRequest = true)
    (addr ifindex s : Nat) :
    (empty.run ops).bfdFindSessionByAddr addr ifindex = some s ↔
      ∃ e, (empty.run ops).sess s = some e ∧ e.addr = addr ∧ e.ifindex = ifindex :=
  (inv_empty.run ops).findByAddr_iff (keysUnique_empty.run inv_empty ops ho) addr ifindex s

theorem registry_finds_by_key_twice :
    (∀ o ∈ [RegOp.addRequest 10 1 (some 2) 7, .addRequest 10 1 (some 2) 9], o.viaRequest = true) ∧
      ((empty.run [.addRequest 10 1 (some 2) 7, .addRequest 10 1 (some 2) 9]).bfdFindSessionByAddr
          10 2 = some 1 ↔
        ∃ e, (empty.run [.addRequest 10 1 (some 2) 7, .addRequest 10 1 (some 2) 9]).sess 1 = some e ∧
          e.addr = 10 ∧ e.ifindex = 2) :=
  ⟨by decide, registry_finds_by_key _ (by decide) 10 2 1⟩

/-- Two requests for one key share its session (pointer 1, after binding 0), found under the key
and under the discriminator the first probe gave it. -/
example : (empty.run [.addRequest 10 1 (some 2) 7, .addRequest 10 1 (some 2) 9]).bfdFindSessionByAddr
      10 2 = some 1 ∧
    (empty.run [.addRequest 10 1 (some 2) 7, .addRequest 10 1 (some 2) 9]).bfdFindSessionById 7 =
      some 1 := by
  decide

end Tables

end Bfd
