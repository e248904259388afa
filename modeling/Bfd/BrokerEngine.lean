import Bfd.BrokerRequest

/-! # Engines starting and stopping

`bfd_start` offers each waiting request to the new engine, `bfd_shutdown` hands back every
request of the stopped engine's sessions. Both walk a list while hooks run, so each has a loop
invariant: the requests still to be offered are the ones the invariant excuses. At rest no
request is excused (`noExcuse`). -/
namespace Bfd
namespace Broker

variable {b : Broker} {r : Nat} {ex ex' : Nat → Nat → Prop} {now : ℕ+}
  {plan : Nat → List HookAct}

/-- No request is excused. -/
def noExcuse : Nat → Nat → Prop := fun _ _ => False

/-- While engine `p` takes requests: those of `rest` may still wait although `p` accepts them. -/
def takeEx (p : Nat) (rest : List Nat) : Nat → Nat → Prop := fun q r => q = p ∧ r ∈ rest

/-- While engine `p` drops requests: the requests older than `N` may sit in `p`'s sessions. -/
def dropEx (p N : Nat) : Nat → Nat → Prop := fun q r => q = p ∧ r < N

/-! ## Excuses -/

theorem PlacedAt.mono {q : Nat} {req : Request} (h : b.PlacedAt ex q req)
    (hm : ∀ p, ex p q → ex' p q) : b.PlacedAt ex' q req :=
  ⟨fun hs p hp => (h.1 hs p hp).imp_right (hm p), fun i sn h1 h2 =>
    let ⟨h3, h4⟩ := h.2 i sn h1 h2
    ⟨h3.imp_right (hm _), h4⟩⟩

theorem Inv.mono (h : Inv b ex) (hm : ∀ p q, ex p q → ex' p q) : Inv b ex' :=
  ⟨{ h.core with placed := fun q rq hq => (h.core.placed q rq hq).mono (hm · q) }, h.delivered⟩

theorem Inv.remap (h : Inv b ex)
    (hm : ∀ q rq, b.reqs q = some rq → b.PlacedAt ex q rq → b.PlacedAt ex' q rq) : Inv b ex' :=
  ⟨{ h.core with placed := fun q rq hq => hm q rq hq (h.core.placed q rq hq) }, h.delivered⟩

theorem Inv.stagedMono (h : Inv b ex) (hm : ∀ p q, q ≠ r → ex p q → ex' p q) :
    Staged b ex' r none :=
  { h.core.staged r with
    placed := fun q rq hq h1 => (h.core.placed q rq h1).mono fun p => hm p q hq }

theorem Fresh.lt_of_ptr (h : Fresh b) {q : Nat} {s : Option Nat} (hq : b.ptr q = some s) :
    q < b.nextId := by
  by_contra hn
  simp [ptr, h.req q (by omega)] at hq

theorem exists_of_ptr {q : Nat} {s : Option Nat} (h : b.ptr q = some s) :
    ∃ rq, b.reqs q = some rq ∧ rq.session = s := by
  simpa [ptr] using h

theorem Fresh.lt_of_sess (h : Fresh b) {i : Nat} {sn : SessionNode} (hs : b.sess i = some sn) :
    i < b.nextId := by
  by_contra hn
  rw [h.sess i (by omega)] at hs; cases hs

theorem Lists.sess_of_ptr (h : Lists b) {q i : Nat} (hq : b.ptr q = some (some i)) :
    ∃ sn, b.sess i = some sn := by
  have hm := (h.mem_iff (some i) q).2 hq
  cases hs : b.sess i with
  | none => rw [listAt_some, requestsOf_none hs] at hm; cases hm
  | some sn => exact ⟨sn, rfl⟩

/-! ## Taking requests -/

section Take
variable {p : Nat}

/-- One turn of `bfd_take_requests`: request `r` joins a session of `p`, or `p` rejects it. -/
theorem Inv.takeOne (plan : Nat → List HookAct) (now : ℕ+) {rest : List Nat}
    (h : Inv b (takeEx p (r :: rest)))
    (hp : p ∈ b.protoList) (hc : b.notifier.cursor = none) (hw : b.ptr r = some none) :
    Inv ((b.bfdAddRequest p r (runHook r (plan r) now) now).getD b) (takeEx p rest) ∧
      Kept r b ((b.bfdAddRequest p r (runHook r (plan r) now) now).getD b) := by
  have hk : HookOk (takeEx p rest) r (runHook r (plan r) now) := hookOk_runHook _ r (plan r)
  cases ha : b.bfdAddRequest p r (runHook r (plan r) now) now with
  | some b' =>
    refine ⟨Inv.addRequest (h.stagedMono fun p' q hq e => ⟨e.1, ?_⟩) (fun q _ => h.delivered q) hp
      (fun i hi => by simp [hw] at hi) hk (by simp [hc]) ha, kept_addRequest hk.kept ha⟩
    exact (List.mem_cons.1 e.2).resolve_left hq
  | none =>
    refine ⟨h.remap fun q rq hq hpl => ?_, Kept.refl r b⟩
    by_cases hqr : q = r
    · subst hqr
      have hs : rq.session = none := by simpa [ptr, hq] using hw
      refine ⟨fun _ p' hp' => ?_, fun i sn e => by simp [hs] at e⟩
      by_cases e : p' = p
      · subst e; exact Or.inl ((addRequest_eq_none hq).1 ha)
      · exact (hpl.1 hs p' hp').imp_right fun h' => absurd h'.1 e
    · exact hpl.mono fun p' e => ⟨e.1, (List.mem_cons.1 e.2).resolve_left hqr⟩

theorem Inv.take : ∀ (rest : List Nat) (b : Broker), Inv b (takeEx p rest) → p ∈ b.protoList →
    b.notifier.cursor = none → rest.Nodup → (∀ q ∈ rest, b.ptr q = some none) →
    Inv (rest.foldl (fun b r => (b.bfdAddRequest p r (runHook r (plan r) now) now).getD b) b)
      noExcuse
  | [], b, h, _, _, _, _ => h.mono fun _ _ e => by simp [takeEx] at e
  | r :: rest, b, h, hp, hc, hn, hw => by
    obtain ⟨h', hk⟩ := h.takeOne plan now hp hc (hw r (List.mem_cons_self r rest))
    refine Inv.take rest _ h' (hk.protoList ▸ hp) (hk.cursor ▸ hc) (List.nodup_cons.1 hn).2
      fun q hq => ?_
    have hq' := hw q (List.mem_cons_of_mem r hq)
    rw [hk.ptr q (fun e => (List.nodup_cons.1 hn).1 (e ▸ hq)) (h.core.fresh.lt_of_ptr hq'), hq']

end Take

/-! ## Starting an engine -/

section Start
variable {cf : BfdConfig}

/-- The broker `bfd_start` hands to `bfd_take_requests`: the new engine is on the list, every
waiting request is excused until the engine has seen it. -/
theorem Inv.addEngine (h : Inv b noExcuse) (cf : BfdConfig) :
    Inv { b.setEngine b.nextId ⟨cf, [], [], false, false⟩ with
      protoList := b.protoList ++ [b.nextId], nextId := b.nextId + 1 }
      (takeEx b.nextId b.waitList) := by
  have hne : ∀ i sn, b.sess i = some sn → sn.engine ≠ b.nextId := fun i sn hs =>
    Nat.ne_of_lt (h.core.fresh.engine i sn hs)
  have hpn : b.nextId ∉ b.protoList := fun hm => lt_irrefl _ (h.core.fresh.proto _ hm)
  have hreg := h.core.registry
  refine ⟨⟨h.core.lists.congr (fun _ => rfl) (fun t => by cases t <;> rfl),
    ⟨fun n hn => h.core.fresh.req n (by simp at hn; omega),
      fun n hn => h.core.fresh.sess n (by simp at hn; omega),
      fun i sn hs => by have := h.core.fresh.engine i sn hs; simp; omega,
      fun q hq => ?_⟩,
    ⟨fun i sn hs => ?_, fun q i sn hm hs => ?_, fun q i hm => ?_, fun q => ?_, ?_⟩,
    h.core.walk.congr (fun _ => rfl) rfl rfl (fun _ _ _ _ hm => hm), fun q rq hq => ?_,
    ⟨fun i sn hs hp => ?_, h.core.populated.removed⟩,
    ⟨fun i sn hs hl => ?_, fun q hq hl => ?_, h.core.notified.snapshot⟩⟩,
    fun q => (h.delivered q).congr rfl (fun _ => rfl) (fun _ => rfl) fun _ _ => rfl⟩
  -- fresh
  · simp only [List.mem_append, List.mem_singleton] at hq
    rcases hq with hq | rfl
    · have := h.core.fresh.proto q hq; simp; omega
    · simp
  -- registry
  · simpa [Function.update_noteq (hne i sn hs)] using hreg.registered i sn hs
  · by_cases hq : q = b.nextId
    · subst hq; simp at hm
    · simp only [setEngine_engines, Function.update_noteq hq] at hm
      exact hreg.engine_of q i sn hm hs
  · by_cases hq : q = b.nextId
    · subst hq; simp at hm
    · simp only [setEngine_engines, Function.update_noteq hq] at hm
      exact hreg.live q i hm
  · by_cases hq : q = b.nextId
    · subst hq; simp
    · simpa [Function.update_noteq hq] using hreg.nodup q
  · exact nodup_append_single hreg.proto_nodup hpn
  -- placed
  · have hq' : b.reqs q = some rq := hq
    have hpl := h.core.placed q rq hq'
    refine ⟨fun hs p' hp' => ?_, fun i sn h1 h2 => ?_⟩
    · simp only [List.mem_append, List.mem_singleton] at hp'
      rcases hp' with hp' | rfl
      · have hp'n : p' ≠ b.nextId := fun e => hpn (e ▸ hp')
        left; simpa [Function.update_noteq hp'n, noExcuse] using hpl.1 hs p' hp'
      · exact Or.inr ⟨rfl, (h.core.lists.mem_iff none q).2 (by simp [ptr, hq', hs])⟩
    · obtain ⟨h3, h4⟩ := hpl.2 i sn h1 h2
      have h5 : sn.engine ∈ b.protoList := h3.resolve_right id
      refine ⟨Or.inl (List.mem_append_left _ h5), ?_⟩
      simpa [Function.update_noteq (hne i sn h2)] using h4
  -- populated
  · simp only [List.mem_append, List.mem_singleton] at hp
    exact h.core.populated.nonempty i sn hs (hp.resolve_right (hne i sn hs))
  -- notified
  · simpa [Function.update_noteq (hne i sn hs)] using h.core.notified.listed i sn hs hl
  · simp only [List.mem_append, List.mem_singleton] at hq
    rcases hq with hq | rfl
    · have hqn : q ≠ b.nextId := fun e => hpn (e ▸ hq)
      simp only [setEngine_engines, Function.update_noteq hqn] at hl ⊢
      exact h.core.notified.kicked q hq hl
    · simp at hl

/-- `bfd_start`, from an idle notifier. -/
theorem Inv.start (h : Inv b noExcuse) (hc : b.notifier.cursor = none) (cf : BfdConfig)
    (plan : Nat → List HookAct) (now : ℕ+) : Inv (b.bfdStart cf plan now) noExcuse :=
  Inv.take _ _ (h.addEngine cf) (by simp) hc (h.core.lists.nodup none)
    fun q hq => (h.core.lists.mem_iff none q).1 hq

end Start

/-! ## Stopping an engine -/

section Drop
variable {p N i : Nat} {ss : List Nat}

/-- Request `q` sits on session `j`, a session of engine `p`. -/
def OnEngine (b : Broker) (p q j : Nat) : Prop :=
  ∃ sn, b.ptr q = some (some j) ∧ b.sess j = some sn ∧ sn.engine = p

/-- `bfd_drop_requests` of the stopped engine `p` with the sessions `ss` still to walk: the
requests older than `N` are excused on `p`'s sessions. -/
structure Dropping (b : Broker) (p N : Nat) (ss : List Nat) : Prop where
  inv : Inv b (dropEx p N)
  stopped : p ∉ b.protoList
  cursor : b.notifier.cursor = none
  bound : N ≤ b.nextId
  sessions : ∀ j ∈ ss, j < b.nextId ∧ ∀ sn, b.sess j = some sn → sn.engine = p

/-- One submission of `bfd_drop_requests`: the request leaves `p`'s session for a running
engine's or the wait list, and no request joins a session of `p`. -/
theorem Dropping.submitOne (plan : Nat → List HookAct) (now : ℕ+)
    (h : Dropping b p N (i :: ss)) (hw : b.ptr r = some (some i)) :
    Dropping (b.bfdSubmitRequest r (runHook r (plan r) now) now) p N (i :: ss) ∧
      Kept r b (b.bfdSubmitRequest r (runHook r (plan r) now) now) ∧
      ∀ q j, OnEngine (b.bfdSubmitRequest r (runHook r (plan r) now) now) p q j →
        q ≠ r ∧ OnEngine b p q j := by
  -- while `r` is submitted, it is not excused
  have hk : HookOk (fun p' q => p' = p ∧ q < N ∧ q ≠ r) r (runHook r (plan r) now) :=
    hookOk_runHook _ r (plan r)
  have hkept : Kept r b (b.bfdSubmitRequest r (runHook r (plan r) now) now) :=
    kept_submit hk.kept
  obtain ⟨sn, hsn⟩ := h.inv.core.lists.sess_of_ptr hw
  have hinv : Inv (b.bfdSubmitRequest r (runHook r (plan r) now) now)
      (fun p' q => p' = p ∧ q < N ∧ q ≠ r) :=
    Inv.submit (h.inv.stagedMono fun p' q hq e => ⟨e.1, e.2, hq⟩)
    (fun q _ => h.inv.delivered q) (fun h0 => by simp [ptr, h0] at hw)
    (fun j hj => by
      rw [hw] at hj; cases hj
      exact ⟨sn, hsn, ((h.sessions i (List.mem_cons_self i ss)).2 sn hsn).symm ▸ h.stopped⟩)
    hk (by simp [h.cursor])
  refine ⟨⟨hinv.mono fun p' q e => ⟨e.1, e.2.1⟩, hkept.protoList ▸ h.stopped,
    hkept.cursor ▸ h.cursor, h.bound.trans hkept.nextId, fun j hj => ?_⟩, hkept, ?_⟩
  · obtain ⟨hlt, he⟩ := h.sessions j hj
    refine ⟨lt_of_lt_of_le hlt hkept.nextId, fun sn' hs' => ?_⟩
    obtain ⟨sn, hb, e⟩ := hkept.engine j sn' hlt hs'
    exact e.trans (he sn hb)
  · rintro q j ⟨sn', hq, hs', he⟩
    obtain ⟨rq, hrq, hrs⟩ := exists_of_ptr hq
    obtain ⟨hp, -⟩ := (hinv.core.placed q rq hrq).2 j sn' hrs hs'
    obtain ⟨-, hqN, hqr⟩ := hp.resolve_left (hkept.protoList ▸ he ▸ h.stopped)
    have hq' : b.ptr q = some (some j) :=
      (hkept.ptr q hqr (lt_of_lt_of_le hqN h.bound)).symm.trans hq
    obtain ⟨sn, hb⟩ := h.inv.core.lists.sess_of_ptr hq'
    obtain ⟨sn₀, hb₀, e⟩ := hkept.engine j sn' (h.inv.core.fresh.lt_of_sess hb) hs'
    exact ⟨hqr, sn₀, hq', hb₀, e ▸ he⟩

/-- The requests of session `i`, submitted one by one. -/
theorem Dropping.inner (plan : Nat → List HookAct) (now : ℕ+) : ∀ (l : List Nat) (b : Broker),
    Dropping b p N (i :: ss) → (∀ q ∈ l, b.ptr q = some (some i)) → l.Nodup →
    (∀ q j, OnEngine b p q j → q ∈ l ∨ j ∈ ss) →
    Dropping (l.foldl (fun b r => b.bfdSubmitRequest r (runHook r (plan r) now) now) b) p N ss ∧
      ∀ q j, OnEngine (l.foldl (fun b r => b.bfdSubmitRequest r (runHook r (plan r) now) now) b)
        p q j → j ∈ ss
  | [], b, h, _, _, hl =>
    ⟨{ h with sessions := fun j hj => h.sessions j (List.mem_cons_of_mem i hj) },
      fun q j hq => (hl q j hq).resolve_left (List.not_mem_nil q)⟩
  | r :: l, b, h, hw, hn, hl => by
    obtain ⟨h', hk, hon⟩ := h.submitOne plan now (hw r (List.mem_cons_self r l))
    refine Dropping.inner plan now l _ h' (fun q hq => ?_) (List.nodup_cons.1 hn).2 fun q j hq => ?_
    · have hq' := hw q (List.mem_cons_of_mem r hq)
      rw [hk.ptr q (fun e => (List.nodup_cons.1 hn).1 (e ▸ hq))
        (h.inv.core.fresh.lt_of_ptr hq'), hq']
    · obtain ⟨hqr, hq'⟩ := hon q j hq
      exact (hl q j hq').imp_left fun hm => (List.mem_cons.1 hm).resolve_left hqr

/-- The sessions of the stopped engine, walked one by one. -/
theorem Dropping.outer (plan : Nat → List HookAct) (now : ℕ+) : ∀ (ss : List Nat) (b : Broker),
    Dropping b p N ss → (∀ q j, OnEngine b p q j → j ∈ ss) →
    Inv (ss.foldl (fun b i => (b.requestsOf i).foldl
      (fun b r => b.bfdSubmitRequest r (runHook r (plan r) now) now) b) b) noExcuse
  | [], b, h, hl => h.inv.remap fun q rq hq hpl => by
    refine ⟨fun hs p' hp' => Or.inl ((hpl.1 hs p' hp').resolve_right ?_), fun j sn h1 h2 => ?_⟩
    · rintro ⟨rfl, -⟩; exact h.stopped hp'
    · obtain ⟨h3, h4⟩ := hpl.2 j sn h1 h2
      refine ⟨Or.inl (h3.resolve_right ?_), h4⟩
      rintro ⟨he, -⟩
      exact List.not_mem_nil j (hl q j ⟨sn, by simp [ptr, hq, h1], h2, he⟩)
  | i :: ss, b, h, hl => by
    have hlists := h.inv.core.lists
    have hleft : ∀ q j, OnEngine b p q j → q ∈ b.requestsOf i ∨ j ∈ ss := fun q j hq => by
      rcases List.mem_cons.1 (hl q j hq) with rfl | hj
      · exact Or.inl ((hlists.mem_iff (some j) q).2 hq.choose_spec.1)
      · exact Or.inr hj
    obtain ⟨h', hl'⟩ := Dropping.inner plan now (b.requestsOf i) b h
      (fun q hq => (hlists.mem_iff (some i) q).1 hq) (hlists.nodup (some i)) hleft
    exact Dropping.outer plan now ss _ h' hl'

/-- The broker `bfd_shutdown` hands to `bfd_drop_requests`. -/
theorem Inv.removeEngine (h : Inv b noExcuse) (hc : b.notifier.cursor = none) (p : Nat) :
    Dropping { b with protoList := b.protoList.erase p } p b.nextId (b.engines p).sessions ∧
      ∀ q j, OnEngine { b with protoList := b.protoList.erase p } p q j →
        j ∈ (b.engines p).sessions := by
  have hreg := h.core.registry
  have hsub : ∀ q, q ∈ b.protoList.erase p → q ∈ b.protoList := fun q => List.mem_of_mem_erase
  refine ⟨⟨⟨⟨h.core.lists.congr (fun _ => rfl) (fun t => by cases t <;> rfl),
    { h.core.fresh with proto := fun q hq => h.core.fresh.proto q (hsub q hq) },
    { hreg with proto_nodup := hreg.proto_nodup.erase p },
    h.core.walk.congr (fun _ => rfl) rfl rfl (fun _ _ _ _ hm => hm), fun q rq hq => ?_,
    ⟨fun i sn hs hp => h.core.populated.nonempty i sn hs (hsub _ hp), h.core.populated.removed⟩,
    { h.core.notified with kicked := fun q hq => h.core.notified.kicked q (hsub q hq) }⟩,
    fun q => (h.delivered q).congr rfl (fun _ => rfl) (fun _ => rfl) fun _ _ => rfl⟩,
    hreg.proto_nodup.not_mem_erase, hc, le_rfl, fun j hj => ?_⟩, ?_⟩
  · have hq' : b.reqs q = some rq := hq
    have hpl := h.core.placed q rq hq'
    refine ⟨fun hs p' hp' => Or.inl ((hpl.1 hs p' (hsub p' hp')).resolve_right id),
      fun j sn h1 h2 => ?_⟩
    obtain ⟨h3, h4⟩ := hpl.2 j sn h1 h2
    refine ⟨?_, h4⟩
    by_cases he : sn.engine = p
    · exact Or.inr ⟨he, h.core.fresh.lt_of_ptr (s := rq.session) (by simp [ptr, hq'])⟩
    · exact Or.inl ((List.mem_erase_of_ne he).2 (h3.resolve_right id))
  · have hl := hreg.live p j hj
    obtain ⟨sn, hs⟩ := Option.ne_none_iff_exists'.1 hl
    exact ⟨h.core.fresh.lt_of_sess hs, fun sn' hs' => hreg.engine_of p j sn' hj hs'⟩
  · rintro q j ⟨sn, -, hs, rfl⟩
    exact hreg.registered j sn hs

/-- `bfd_shutdown`, from an idle notifier. -/
theorem Inv.shutdown (h : Inv b noExcuse) (hc : b.notifier.cursor = none) (p : Nat)
    (plan : Nat → List HookAct) (now : ℕ+) : Inv (b.bfdShutdown p plan now) noExcuse :=
  let ⟨hd, hl⟩ := h.removeEngine hc p
  Dropping.outer plan now _ _ hd hl

end Drop

end Broker
end Bfd
