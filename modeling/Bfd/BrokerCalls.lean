import Bfd.Broker

/-! # The main thread's calls, from their writes

`bfd_request_session`, `bfd_update_request`, `bfd_request_free`, the calls of a hook, and
`bfd_start` and `bfd_shutdown` are built from a few writes: a request's record, the request
lists (`rem_node`, `add_tail`), a new identifier, `bfd_add_session`,
`bfd_reconfigure_session`, `bfd_remove_session`, and an engine's joining or leaving
`bfd_proto_list`. A preorder on brokers that holds across each of these holds across every
call: `CallFrame K` collects the writes, and one lemma per call derives it. An invariant of the
broker is the preorder `fun b c => Inv b → Inv c`; a relation between the sessions before and
after a call is one directly. `bfd_request_session` and `bfd_request_free` with no hook
reconfigure no session and start or stop no engine: `ReqFrame K` collects the writes they are
made of. -/
namespace Bfd

namespace Broker

/-- The request writes of the calls: a release; a write that keeps a live request's state and
diagnostic (a move between lists, new options); a request `ralloc` zeroes, AdminDown with no
diagnostic; and `bfd_request_notify` with AdminDown or with a live session's current state. -/
def ReqWrite (b : Broker) (r : Nat) : Option Request → Prop
  | none => True
  | some x => (∃ req, b.reqs r = some req ∧ x.state = req.state ∧ x.diag = req.diag) ∨
      (x.state = .adminDown ∧ x.diag = 0) ∨
      ∃ i sn, b.sess i = some sn ∧ x.state = sn.core.locState ∧ x.diag = sn.core.locDiag

/-- A preorder on brokers that holds across each write `bfd_request_session` and
`bfd_request_free` are made of. -/
structure ReqFrame (K : Broker → Broker → Prop) : Prop where
  refl : ∀ b, K b b
  trans : ∀ {b c d}, K b c → K c d → K b d
  setReq : ∀ b r x, ReqWrite b r x → K b (b.setReq r x)
  remNode : ∀ b r, K b (b.remNode r)
  addTail : ∀ b s r, K b (b.addTail s r)
  allocate : ∀ b : Broker, K b { b with nextId := b.nextId + 1 }
  addSession : ∀ b p req now, K b (b.bfdAddSession p req now).1
  removeSession : ∀ b i, K b (b.bfdRemoveSession i)

/-- A preorder on brokers that holds across each write the main thread's calls are made of. -/
structure CallFrame (K : Broker → Broker → Prop) extends ReqFrame K : Prop where
  reconfigureSession : ∀ b i now, K b (b.bfdReconfigureSession i now)
  addEngine : ∀ (b : Broker) cf, K b { b.setEngine b.nextId ⟨cf, [], [], false, false⟩ with
    protoList := b.protoList ++ [b.nextId], nextId := b.nextId + 1 }
  leave : ∀ (b : Broker) p, K b { b with protoList := b.protoList.erase p }

namespace ReqFrame

variable {K : Broker → Broker → Prop} (hK : ReqFrame K)
include hK

theorem foldl {α : Type} {f : Broker → α → Broker} (hf : ∀ c x, K c (f c x)) :
    ∀ (l : List α) (c : Broker), K c (l.foldl f c)
  | [], c => hK.refl c
  | x :: l, c => hK.trans (hf c x) (foldl hf l _)

theorem moveTo (b : Broker) (r : Nat) (s : Option Nat) : K b (b.moveTo r s) := by
  unfold Broker.moveTo
  dsimp only
  split
  · next req hr =>
    refine hK.trans (hK.remNode b r) (hK.trans (hK.addTail _ s r) (hK.setReq _ r _ ?_))
    have e : ((b.remNode r).addTail s r).reqs = (b.remNode r).reqs := by
      unfold Broker.addTail; split <;> (try split) <;> rfl
    exact .inl ⟨req, e ▸ hr, rfl, rfl⟩
  · exact hK.remNode b r

/-- `bfd_request_notify` with arguments whose write `K` holds across. -/
theorem requestNotify {hook : Broker → Broker} (hk : ∀ c, K c (hook c)) {b : Broker} {r : Nat}
    {state remote : BfdState} {diag : Nat}
    (hw : ∀ req, b.reqs r = some req → K b (b.setReq r (some (req.notify state remote diag)))) :
    K b (b.bfdRequestNotify r state remote diag hook) := by
  unfold bfdRequestNotify
  split
  · exact hK.refl b
  · next req hr =>
    split_ifs
    exacts [hK.refl b, hK.trans (hw req hr) (hk _)]

theorem addRequest {hook : Broker → Broker} (hk : ∀ c, K c (hook c)) {b b' : Broker}
    {p r : Nat} {now : ℕ+} (e : b.bfdAddRequest p r hook now = some b') : K b b' := by
  unfold bfdAddRequest at e
  split at e
  · exact Option.noConfusion e
  · next req _ =>
    split_ifs at e
    cases e
    have hf : K b (b.findOrAddSession p req now).1 := by
      unfold findOrAddSession
      split
      exacts [hK.refl b, hK.addSession b p req now]
    refine hK.trans hf (hK.trans (hK.moveTo _ r (some (b.findOrAddSession p req now).2)) ?_)
    unfold notifyOfSession
    split
    · next sn hs =>
      exact hK.requestNotify hk fun _ _ => hK.setReq _ r _ (.inr (.inr ⟨_, sn, hs, rfl, rfl⟩))
    · exact hK.refl _

theorem submitRequest {hook : Broker → Broker} (hk : ∀ c, K c (hook c)) (b : Broker) (r : Nat)
    (now : ℕ+) : K b (b.bfdSubmitRequest r hook now) := by
  unfold bfdSubmitRequest
  induction b.protoList with
  | nil =>
    exact hK.trans (hK.moveTo b r none)
      (hK.requestNotify hk fun _ _ => hK.setReq _ r _ (.inr (.inl ⟨rfl, rfl⟩)))
  | cons p ps ih =>
    unfold bfdSubmitRequest.go
    split
    · exact hK.addRequest hk ‹_›
    · exact ih

theorem requestSession (b : Broker) (addr localAddr : Nat) (iface vrf : Option Nat)
    (opts : BfdOptions) (now : ℕ+) : K b (b.bfdRequestSession addr localAddr iface vrf opts now) :=
  hK.trans (hK.allocate b) (hK.trans (hK.setReq _ _ (some _) (.inr (.inl ⟨rfl, rfl⟩)))
    (hK.submitRequest hK.refl _ _ now))

theorem requestFree (b : Broker) (r : Nat) : K b (b.bfdRequestFree r) := by
  unfold bfdRequestFree
  split
  · exact hK.refl b
  · have hu : K b ((b.remNode r).setReq r none) :=
      hK.trans (hK.remNode b r) (hK.setReq _ r _ trivial)
    dsimp only
    repeat' split
    all_goals first | exact hK.trans hu (hK.removeSession _ _) | exact hu

end ReqFrame

namespace CallFrame

variable {K : Broker → Broker → Prop} (hK : CallFrame K)
include hK

theorem updateRequest (b : Broker) (r : Nat) (opts : BfdOptions) (now : ℕ+) :
    K b (b.bfdUpdateRequest r opts now) := by
  unfold bfdUpdateRequest
  split
  · exact hK.refl b
  · split_ifs
    · exact hK.refl b
    · next req hr _ =>
      have hw : K b (b.setReq r (some { req with opts })) := hK.setReq b r _ (.inl ⟨req, hr, rfl, rfl⟩)
      dsimp only
      split
      exacts [hK.trans hw (hK.reconfigureSession _ _ now), hw]

/-- Every hook, whatever calls it makes. -/
theorem runHook (r : Nat) (acts : List HookAct) (now : ℕ+) (b : Broker) :
    K b (Broker.runHook r acts now b) :=
  hK.foldl (fun c act => by
    cases act with
    | request addr localAddr iface vrf opts =>
      exact hK.requestSession c addr localAddr iface vrf opts now
    | update q opts => exact hK.updateRequest c q opts now
    | free => exact hK.requestFree c r) acts b

theorem start (b : Broker) (cf : BfdConfig) (plan : Nat → List HookAct) (now : ℕ+) :
    K b (b.bfdStart cf plan now) := by
  unfold bfdStart bfdTakeRequests
  refine hK.trans (hK.addEngine b cf) (hK.foldl (fun c r => ?_) _ _)
  cases e : c.bfdAddRequest _ r (Broker.runHook r (plan r) now) now with
  | none => exact hK.refl c
  | some c' => exact hK.addRequest (hK.runHook r _ now) e

theorem shutdown (b : Broker) (p : Nat) (plan : Nat → List HookAct) (now : ℕ+) :
    K b (b.bfdShutdown p plan now) :=
  hK.trans (hK.leave b p) (hK.foldl (fun c _ => hK.foldl (fun c' r =>
    hK.submitRequest (hK.runHook r _ now) c' r now) _ c) _ _)

end CallFrame

end Broker

end Bfd
