import Bfd.Session

/-! # The request broker and the notifier

The main-thread side of `bfd.c` and where it meets the BFD threads: BFD requests,
`bfd_wait_list`, `bfd_proto_list` of running BFD protocols (engines), the sessions each
engine registers under `(addr, ifindex)`, and `bfd_notify_hook`, which carries session state
changes to the requests. Pointers are identifiers drawn from one counter, so the identifier
of a freed structure never comes back.

The BFD thread of an engine runs `sessionStep` on the engine's sessions; the locked part of
`bfd_session_update_state` links a session onto the engine's notify list, and the kick of
the notify pipe is the thread's next step. The pipe is a flag. A step of the main thread is
a request operation, the start or the shutdown of an engine, or one step of
`bfd_notify_hook`: draining the pipe, splicing the notify list under the lock, unlinking and
reading the next session under the lock, notifying one request, finishing a session. A
request's hook runs inside the step that notifies it, as the list of broker calls it makes.
Everything else the main thread does holds no lock the BFD thread takes, and commutes with
the BFD thread's steps. -/
namespace Bfd

/-- Modelled from the spec: `ipa_is_ip4` of lib/ip.h, which is not under src/. Addresses
are 128-bit and an IPv4 address is held IPv4-mapped, `::ffff:a.b.c.d`. -/
def ipaIsIp4 (a : Nat) : Bool := a >>> 32 == 0xffff

/-- The fields of `struct bfd_request` the broker reads and writes. The interface and VRF
pointers are the interfaces' indices. -/
structure Request where
  addr : Nat
  localAddr : Nat
  iface : Option Nat
  vrf : Option Nat
  opts : BfdOptions
  state : BfdState
  diag : Nat
  oldState : BfdState
  down : Bool
  session : Option Nat
  deriving DecidableEq, Repr

namespace Request

/-- `req->iface ? req->iface->index : 0`. -/
def ifindex (req : Request) : Nat := req.iface.getD 0

/-- What `bfd_request_notify` writes once the state differs. -/
def notify (req : Request) (state remote : BfdState) (diag : Nat) : Request :=
  { req with
    state, diag
    oldState := req.state
    down := req.state == .up && state == .down && remote != .adminDown }

end Request

/-- What the broker reads of a BFD protocol's configuration: its VRF (`p->p.vrf_set`,
`p->p.vrf`), the four accept switches, and the interface configuration
`bfd_find_iface_config` picks for an interface (`none`: multihop). -/
structure BfdConfig where
  vrfSet : Bool
  vrf : Option Nat
  acceptIpv4 : Bool
  acceptIpv6 : Bool
  acceptDirect : Bool
  acceptMultihop : Bool
  ifaceConfig : Option Nat → IfaceConfig

/-- The three tests `bfd_add_request` starts with: VRF, address family, direct or multihop. -/
def bfdAccepts (cf : BfdConfig) (req : Request) : Bool :=
  !(cf.vrfSet && cf.vrf != req.vrf) &&
    (if ipaIsIp4 req.addr then cf.acceptIpv4 else cf.acceptIpv6) &&
    (if req.iface.isSome then cf.acceptDirect else cf.acceptMultihop)

/-- A `struct bfd_session` as the main thread sees it: its engine (`s->ifa->bfd`), its hash
key, its binding `s->ifa` (the local address and interface `bfd_get_iface` keys it by, and its
configuration `s->ifa->cf`), the session thread's fields, its request list and
`notify_running`. The sessions of one engine with one binding key share the binding. -/
structure SessionNode where
  engine : Nat
  addr : Nat
  ifindex : Nat
  localAddr : Nat
  iface : Option Nat
  ifaceCf : IfaceConfig
  core : Session
  requestList : List Nat
  notifyRunning : Bool
  deriving DecidableEq

/-- A `struct bfd_proto`: its configuration, the sessions of its hash tables, its notify
list, whether its notify pipe holds a byte, and whether its BFD thread has linked a session
and not yet kicked the pipe. -/
structure Engine where
  cf : BfdConfig
  sessions : List Nat
  notifyList : List Nat
  pipe : Bool
  kickPending : Bool

/-- The record of an identifier no engine was started under. -/
def Engine.unused : Engine :=
  ⟨⟨false, none, false, false, false, false, fun _ => ⟨0, 0, 0, 0, false, 0, 0⟩⟩, [], [],
    false, false⟩

/-- Where the main thread is in `bfd_notify_hook` of engine `p`: the pipe drained, the
notify list spliced into `tmp_list`, or walking the requests of session `s` with the state
read under the lock (`loc_state`, `rem_state`, `loc_diag`) and the walk's next request. -/
inductive Notifier where
  | idle
  | drained (p : Nat)
  | walking (p : Nat) (tmp : List Nat)
  | dispatching (p : Nat) (tmp : List Nat) (s : Nat) (snap : BfdState × BfdState × Nat)
      (cur : Option Nat)
  deriving DecidableEq

namespace Notifier

/-- `rem_node(&s->n)` for a session on `tmp_list`. -/
def eraseTmp (i : Nat) : Notifier → Notifier
  | walking p tmp => walking p (tmp.erase i)
  | dispatching p tmp s snap cur => dispatching p (tmp.erase i) s snap cur
  | n => n

/-- The notifier's local list while it runs for engine `p`. -/
def tmpOf (p : Nat) : Notifier → List Nat
  | walking q tmp => if q = p then tmp else []
  | dispatching q tmp _ _ _ => if q = p then tmp else []
  | _ => []

/-- The request the walk visits next. -/
def cursor : Notifier → Option Nat
  | dispatching _ _ _ _ cur => cur
  | _ => none

end Notifier

/-- The broker: live requests and sessions, engine records, the two global lists, the
notifier's progress and the identifier counter. `removedLog` is ghost state, read by no
function: every session `bfd_remove_session` was called on, as it was at the call. -/
structure Broker where
  reqs : Nat → Option Request
  sess : Nat → Option SessionNode
  engines : Nat → Engine
  protoList : List Nat
  waitList : List Nat
  notifier : Notifier
  nextId : Nat
  removedLog : List SessionNode

/-- What a request's hook does when it is called: the broker calls it makes, in order. A
hook may request sessions, update any request, and free its own request. -/
inductive HookAct where
  | request (addr localAddr : Nat) (iface vrf : Option Nat) (opts : BfdOptions)
  | update (r : Nat) (opts : BfdOptions)
  | free

/-- The request after `n` on a list: `n->next` in `WALK_LIST_DELSAFE`, `none` at the end. -/
def listNext (n : Nat) : List Nat → Option Nat
  | x :: y :: l => if x = n then some y else listNext n (y :: l)
  | _ => none

namespace Broker

def setReq (b : Broker) (r : Nat) (req : Option Request) : Broker :=
  { b with reqs := Function.update b.reqs r req }

def setSess (b : Broker) (i : Nat) (sn : Option SessionNode) : Broker :=
  { b with sess := Function.update b.sess i sn }

def setEngine (b : Broker) (p : Nat) (e : Engine) : Broker :=
  { b with engines := Function.update b.engines p e }

/-- The request list of session `i`, empty once it is freed. -/
def requestsOf (b : Broker) (i : Nat) : List Nat := ((b.sess i).map SessionNode.requestList).getD []

/-! ## Sessions -/

/-- `bfd_find_session_by_addr`: the session of engine `p` under the key. -/
def bfdFindSessionByAddr (b : Broker) (p addr ifindex : Nat) : Option Nat :=
  (b.engines p).sessions.find? fun i =>
    (b.sess i).any fun sn => sn.addr == addr && sn.ifindex == ifindex

/-- `bfd_get_iface`, as a new session sees it: the configuration of engine `p`'s binding for
`(local, iface)`, shared with the sessions already on it; for a new binding, the one
`bfd_find_iface_config` picks in the engine's running configuration `p->p.cf`. A binding lives
while a session uses it (`uc`), so the engine's sessions are its bindings' users. -/
def bfdGetIface (b : Broker) (p localAddr : Nat) (iface : Option Nat) : IfaceConfig :=
  ((b.engines p).sessions.findSome? fun i => (b.sess i).bind fun sn =>
    if sn.localAddr = localAddr ∧ sn.iface = iface then some sn.ifaceCf else none).getD
    ((b.engines p).cf.ifaceConfig iface)

/-- `bfd_add_session`: a fresh session of engine `p` under the request's key, on the binding
of the request's local address and interface, initialised from the binding's configuration
merged with the request's options. -/
def bfdAddSession (b : Broker) (p : Nat) (req : Request) (now : ℕ+) : Broker × Nat :=
  let i := b.nextId
  let e := b.engines p
  let ifaceCf := b.bfdGetIface p req.localAddr req.iface
  let sn : SessionNode :=
    { engine := p, addr := req.addr, ifindex := req.ifindex, localAddr := req.localAddr
      iface := req.iface, ifaceCf
      core := Bfd.bfdAddSession (bfdMergeOptions ifaceCf req.opts) now
      requestList := [], notifyRunning := false }
  ({ (b.setSess i (some sn)).setEngine p { e with sessions := e.sessions ++ [i] } with
      nextId := i + 1 }, i)

/-- `bfd_remove_session`: the session leaves the notify list or the notifier's local list if
it is linked, and is unregistered and freed. The caller has emptied its request list. -/
def bfdRemoveSession (b : Broker) (i : Nat) : Broker :=
  match b.sess i with
  | none => b
  | some sn =>
    let e := b.engines sn.engine
    { (b.setSess i none).setEngine sn.engine
        { e with
          sessions := e.sessions.erase i
          notifyList := if sn.core.linked then e.notifyList.erase i else e.notifyList } with
      notifier := if sn.core.linked then b.notifier.eraseTmp i else b.notifier
      removedLog := b.removedLog ++ [sn] }

/-- `bfd_reconfigure_session`: the session takes the options of the head of its request
list. -/
def bfdReconfigureSession (b : Broker) (i : Nat) (now : ℕ+) : Broker :=
  match b.sess i with
  | some sn =>
    match sn.requestList with
    | r :: _ =>
      match b.reqs r with
      | some req =>
        b.setSess i (some { sn with
          core := Bfd.bfdReconfigureSession sn.core (bfdMergeOptions sn.ifaceCf req.opts) now })
      | none => b
    | [] => b
  | none => b

/-! ## Requests -/

/-- `bfd_request_notify`: nothing happens unless the state differs; then the request's
fields are written and its hook runs. -/
def bfdRequestNotify (b : Broker) (r : Nat) (state remote : BfdState) (diag : Nat)
    (hook : Broker → Broker) : Broker :=
  match b.reqs r with
  | none => b
  | some req => if state = req.state then b else hook (b.setReq r (some (req.notify state remote diag)))

/-- `rem_node(&req->n)`: the request leaves its session's request list, or the wait list. -/
def remNode (b : Broker) (r : Nat) : Broker :=
  match (b.reqs r).bind Request.session with
  | some i =>
    match b.sess i with
    | some sn => b.setSess i (some { sn with requestList := sn.requestList.erase r })
    | none => b
  | none => { b with waitList := b.waitList.erase r }

/-- `add_tail` onto the list of session pointer `s`: the wait list, or a request list. -/
def addTail (b : Broker) (s : Option Nat) (r : Nat) : Broker :=
  match s with
  | none => { b with waitList := b.waitList ++ [r] }
  | some i =>
    match b.sess i with
    | some sn => b.setSess i (some { sn with requestList := sn.requestList ++ [r] })
    | none => b

/-- `rem_node(&req->n); add_tail(...); req->session = s;`: the request moves to the tail of
the list of `s`. `bfd_add_request` moves it to a session, `bfd_submit_request` to the wait
list. -/
def moveTo (b : Broker) (r : Nat) (s : Option Nat) : Broker :=
  let b := b.remNode r
  match b.reqs r with
  | some req => (b.addTail s r).setReq r (some { req with session := s })
  | none => b

/-- The session lookup of `bfd_add_request`: the session of the key, or a new one. -/
def findOrAddSession (b : Broker) (p : Nat) (req : Request) (now : ℕ+) : Broker × Nat :=
  match b.bfdFindSessionByAddr p req.addr req.ifindex with
  | some i => (b, i)
  | none => b.bfdAddSession p req now

/-- Under the lock the session's state is read; the request is notified of it. -/
def notifyOfSession (b : Broker) (r i : Nat) (hook : Broker → Broker) : Broker :=
  match b.sess i with
  | some sn => b.bfdRequestNotify r sn.core.locState sn.core.remState sn.core.locDiag hook
  | none => b

/-- `bfd_add_request`: `none` where engine `p` rejects the request (the C function returns
0); otherwise the request joins the session of its key, created if there is none, and is
notified of that session's state. -/
def bfdAddRequest (b : Broker) (p r : Nat) (hook : Broker → Broker) (now : ℕ+) :
    Option Broker :=
  match b.reqs r with
  | none => none
  | some req =>
    if bfdAccepts (b.engines p).cf req then
      let bi := b.findOrAddSession p req now
      some ((bi.1.moveTo r (some bi.2)).notifyOfSession r bi.2 hook)
    else none

/-- The end of `bfd_submit_request`: the request waits on `bfd_wait_list` and is notified
AdminDown. -/
def park (b : Broker) (r : Nat) (hook : Broker → Broker) : Broker :=
  (b.moveTo r none).bfdRequestNotify r .adminDown .adminDown 0 hook

/-- `bfd_submit_request`: the first engine of `bfd_proto_list` that accepts the request
takes it; if none does, it waits. -/
def bfdSubmitRequest (b : Broker) (r : Nat) (hook : Broker → Broker) (now : ℕ+) : Broker :=
  go b.protoList
where
  go : List Nat → Broker
  | [] => b.park r hook
  | p :: ps =>
    match b.bfdAddRequest p r hook now with
    | some b' => b'
    | none => go ps

/-- `bfd_request_session`: a fresh request, zeroed by `ralloc`, submitted before its hook is
set, so that its first notification calls no hook. -/
def bfdRequestSession (b : Broker) (addr localAddr : Nat) (iface vrf : Option Nat)
    (opts : BfdOptions) (now : ℕ+) : Broker :=
  let r := b.nextId
  let req : Request :=
    { addr, localAddr, iface, vrf, opts, state := .adminDown, diag := 0, oldState := .adminDown,
      down := false, session := none }
  ({ b with nextId := r + 1 }.setReq r (some req)).bfdSubmitRequest r id now

/-- `bfd_update_request`: new options reconfigure the request's session, if it has one. -/
def bfdUpdateRequest (b : Broker) (r : Nat) (opts : BfdOptions) (now : ℕ+) : Broker :=
  match b.reqs r with
  | none => b
  | some req =>
    if opts = req.opts then b
    else
      let b := b.setReq r (some { req with opts })
      match req.session with
      | some i => b.bfdReconfigureSession i now
      | none => b

/-- `bfd_request_free`: the request leaves its list and is freed; its session goes too once
its request list is empty, unless the notifier is walking it. -/
def bfdRequestFree (b : Broker) (r : Nat) : Broker :=
  match b.reqs r with
  | none => b
  | some req =>
    let b := (b.remNode r).setReq r none
    match req.session with
    | some i =>
      match b.sess i with
      | some sn =>
        if sn.requestList = [] ∧ sn.notifyRunning = false then b.bfdRemoveSession i else b
      | none => b
    | none => b

/-- One call of request `r`'s hook. -/
def hookCall (r : Nat) (now : ℕ+) (b : Broker) : HookAct → Broker
  | .request addr localAddr iface vrf opts => b.bfdRequestSession addr localAddr iface vrf opts now
  | .update q opts => b.bfdUpdateRequest q opts now
  | .free => b.bfdRequestFree r

/-- Request `r`'s hook making the calls `acts`. -/
def runHook (r : Nat) (acts : List HookAct) (now : ℕ+) (b : Broker) : Broker :=
  acts.foldl (hookCall r now) b

/-! ## Engines -/

/-- `bfd_take_requests`: engine `p` is offered each waiting request in turn, and the hook of
each request it takes makes the calls `plan r`. A request a hook parks during the walk was
rejected by `p` in `bfd_submit_request` already, so walking the wait list as it was at the
start has the effect of the code's walk. -/
def bfdTakeRequests (b : Broker) (p : Nat) (plan : Nat → List HookAct) (now : ℕ+) : Broker :=
  b.waitList.foldl (fun b r => (b.bfdAddRequest p r (runHook r (plan r) now) now).getD b) b

/-- `bfd_drop_requests`: every request of every session of engine `p` is submitted again.
`p` has left `bfd_proto_list`, so neither a submission nor a hook adds to these sessions'
lists, and `WALK_LIST_FIRST` takes the requests of each in the order they were in. -/
def bfdDropRequests (b : Broker) (p : Nat) (plan : Nat → List HookAct) (now : ℕ+) : Broker :=
  (b.engines p).sessions.foldl (fun b i =>
    (b.requestsOf i).foldl (fun b r => b.bfdSubmitRequest r (runHook r (plan r) now) now) b) b

/-- `bfd_start`: a new engine joins the tail of `bfd_proto_list` and takes the waiting
requests it accepts. -/
def bfdStart (b : Broker) (cf : BfdConfig) (plan : Nat → List HookAct) (now : ℕ+) : Broker :=
  let p := b.nextId
  ({ b.setEngine p ⟨cf, [], [], false, false⟩ with
      protoList := b.protoList ++ [p], nextId := p + 1 }).bfdTakeRequests p plan now

/-- `bfd_shutdown`: the engine leaves `bfd_proto_list` and hands its requests back. -/
def bfdShutdown (b : Broker) (p : Nat) (plan : Nat → List HookAct) (now : ℕ+) : Broker :=
  ({ b with protoList := b.protoList.erase p }).bfdDropRequests p plan now

/-! ## The BFD thread and the notifier -/

/-- The BFD thread of engine `p` handles one event of its session `i`. When the state change
links the session, the session joins the tail of the notify list and the thread's next step
is the kick. -/
def threadStep (b : Broker) (p i : Nat) (now : ℕ+) (ev : SessionEvent) : Broker :=
  match b.sess i with
  | some sn =>
    if sn.engine = p then
      let core := sessionStep sn.core now ev
      let b := b.setSess i (some { sn with core })
      if sn.core.linked = false ∧ core.linked = true then
        let e := b.engines p
        b.setEngine p { e with notifyList := e.notifyList ++ [i], kickPending := true }
      else b
    else b
  | none => b

/-- `bfd_notify_kick`: a byte into the pipe. -/
def notifyKick (b : Broker) (p : Nat) : Broker :=
  b.setEngine p { b.engines p with pipe := true, kickPending := false }

/-- `bfd_notify_hook` begins: `pipe_drain`. -/
def notifyDrain (b : Broker) (p : Nat) : Broker :=
  { b.setEngine p { b.engines p with pipe := false } with notifier := .drained p }

/-- Under the lock the notify list becomes `tmp_list`. -/
def notifySplice (b : Broker) (p : Nat) : Broker :=
  { b.setEngine p { b.engines p with notifyList := [] } with
    notifier := .walking p (b.engines p).notifyList }

/-- `WALK_LIST_FIRST`: under the lock the next session is unlinked and its state read, then
its requests are walked with `notify_running` set. The hook returns on an empty list. -/
def notifyPick (b : Broker) (p : Nat) : List Nat → Broker
  | [] => { b with notifier := .idle }
  | i :: tmp =>
    match b.sess i with
    | some sn =>
      { b.setSess i (some { sn with core := { sn.core with linked := false }, notifyRunning := true }) with
        notifier := .dispatching p tmp i (sn.core.locState, sn.core.remState, sn.core.locDiag)
          sn.requestList.head? }
    | none => { b with notifier := .walking p tmp }

/-- One turn of `WALK_LIST_DELSAFE`: the next request is read before request `n` is notified
and its hook makes the calls `acts`. -/
def notifyDeliver (b : Broker) (p : Nat) (tmp : List Nat) (i : Nat)
    (snap : BfdState × BfdState × Nat) (n : Nat) (acts : List HookAct) (now : ℕ+) : Broker :=
  ({ b with notifier := .dispatching p tmp i snap (listNext n (b.requestsOf i)) }).bfdRequestNotify
    n snap.1 snap.2.1 snap.2.2 (runHook n acts now)

/-- After the walk `notify_running` is cleared, and the session is removed if the hooks freed
all its requests. -/
def notifyFinish (b : Broker) (p : Nat) (tmp : List Nat) (i : Nat) : Broker :=
  match b.sess i with
  | some sn =>
    let b := { b.setSess i (some { sn with notifyRunning := false }) with
      notifier := .walking p tmp }
    if sn.requestList = [] then b.bfdRemoveSession i else b
  | none => { b with notifier := .walking p tmp }

end Broker

/-! ## Steps and runs -/

/-- A step of one of the threads. Main-thread operations other than the notifier's steps
wait for the notifier to return. -/
inductive Action where
  | thread (p i : Nat) (now : ℕ+) (ev : SessionEvent)
  | kick (p : Nat)
  | drain (p : Nat)
  | splice
  | pick
  | deliver (acts : List HookAct) (now : ℕ+)
  | finish
  | request (addr localAddr : Nat) (iface vrf : Option Nat) (opts : BfdOptions) (now : ℕ+)
  | update (r : Nat) (opts : BfdOptions) (now : ℕ+)
  | free (r : Nat)
  | start (cf : BfdConfig) (plan : Nat → List HookAct) (now : ℕ+)
  | shutdown (p : Nat) (plan : Nat → List HookAct) (now : ℕ+)

namespace Broker

/-- A step whose thread cannot take it leaves the broker as it is. The BFD thread of a
stopped engine takes no step, nor one between a link and its kick; `birdloop_stop` returns
between two of its events. -/
def step (b : Broker) : Action → Broker
  | .thread p i now ev =>
    if p ∈ b.protoList ∧ (b.engines p).kickPending = false then b.threadStep p i now ev else b
  | .kick p => if (b.engines p).kickPending then b.notifyKick p else b
  | .drain p =>
    if b.notifier = .idle ∧ p ∈ b.protoList ∧ (b.engines p).pipe = true then b.notifyDrain p
    else b
  | .splice =>
    match b.notifier with
    | .drained p => b.notifySplice p
    | _ => b
  | .pick =>
    match b.notifier with
    | .walking p tmp => b.notifyPick p tmp
    | _ => b
  | .deliver acts now =>
    match b.notifier with
    | .dispatching p tmp i snap (some n) => b.notifyDeliver p tmp i snap n acts now
    | _ => b
  | .finish =>
    match b.notifier with
    | .dispatching p tmp i _ none => b.notifyFinish p tmp i
    | _ => b
  | .request addr localAddr iface vrf opts now =>
    if b.notifier = .idle then b.bfdRequestSession addr localAddr iface vrf opts now else b
  | .update r opts now => if b.notifier = .idle then b.bfdUpdateRequest r opts now else b
  | .free r => if b.notifier = .idle then b.bfdRequestFree r else b
  | .start cf plan now => if b.notifier = .idle then b.bfdStart cf plan now else b
  | .shutdown p plan now =>
    if b.notifier = .idle ∧ p ∈ b.protoList ∧ (b.engines p).kickPending = false then
      b.bfdShutdown p plan now
    else b

def run (b : Broker) (as : List Action) : Broker := as.foldl step b

/-- No engine, no request. -/
def init : Broker :=
  ⟨fun _ => none, fun _ => none, fun _ => Engine.unused, [], [], .idle, 0, []⟩

/-- The brokers some interleaving of steps reaches. -/
def Reachable (b : Broker) : Prop := ∃ as, b = init.run as

end Broker

end Bfd
