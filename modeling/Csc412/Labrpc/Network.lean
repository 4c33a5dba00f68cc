import Csc412.Lib.Run

/-!
# The simulated network

`labrpc.go`: ends, servers and the goroutines behind each `Call`. A step is one
action of one goroutine, from a critical section or a rendezvous on an unbuffered
channel to the next one. What `rand` and the clock decide is part of the label:
sleeps take no step of their own, and `time.After` and `time.AfterFunc` may fire at
any moment. `longDelays` only changes how long a timer runs.
-/

namespace Csc412.Labrpc

abbrev Bytes := List (BitVec 8)

/-- `encoding/gob` behind `labgob`, with values `V` of types `T`. `encode` and
`decode` say whether they succeeded; `decode` works on a variable with a value. -/
structure Gob (V T : Type) where
  typeOf : V → T
  zero : T → V
  encode : V → Bytes × Bool
  decode : Bytes → V → V × Bool

/-- What was encoded is decoded into a variable that holds the zero value. -/
def Gob.Lawful {V T : Type} (G : Gob V T) : Prop :=
  ∀ v, (G.encode v).2 = true → G.decode (G.encode v).1 (G.zero (G.typeOf v)) = (v, true)

/-! ## Messages and goroutines -/

/-- `reqMsg`, less its `replyCh`, which belongs to one call. -/
structure ReqMsg (E T : Type) where
  endname : E
  svcMeth : String
  argsType : T
  args : Bytes

structure ReplyMsg where
  ok : Bool
  reply : Bytes
  deriving DecidableEq, Repr

def failure : ReplyMsg := ⟨false, []⟩

/-- The reply type of each method that looks like a handler. -/
structure Service (T : Type) where
  methods : String → Option T

structure Server (T : Type) where
  services : String → Option (Service T)
  -- an `int`
  count : BitVec 64

structure Target (N : Type) where
  servername : N
  server : Nat
  reliable : Bool
  longreordering : Bool

/-- `Call`; it `failed` if the reply could not be decoded. -/
inductive Client where
  | sending
  | waiting
  | returned (ok : Bool)
  | failed
  deriving DecidableEq, Repr

/-- `processReq`: `waiting` in the loop, `leaving` it with a reply or with
`serverDead`, `replying` on `req.replyCh`. -/
inductive ProcessReq (N : Type) where
  | unborn
  | started
  | connected (t : Target N)
  | waiting (t : Target N)
  | leaving (t : Target N) (reply : Option ReplyMsg)
  | replying (m : ReplyMsg)
  | done

/-- The goroutine that runs `server.dispatch` and sends the result on `ech`. -/
inductive Dispatch (V T : Type) where
  | unborn
  | called (server : Nat)
  | running (server : Nat) (replyType : T) (args : V)
  | failed (server : Nat)
  | sending (server : Nat) (m : ReplyMsg)
  | done (server : Nat)

/-- One execution of `Call` with everything the network does for it. -/
structure Call (E N V T : Type) where
  req : ReqMsg E T
  reply : V
  client : Client
  proc : ProcessReq N
  handler : Dispatch V T
  drain : Bool
  timer : Option ReplyMsg

/-- The network, the `Server` objects and the calls, the last two by number. -/
structure Network (E N V T : Type) where
  reliable : Bool
  longDelays : Bool
  longReordering : Bool
  ends : E → Bool
  enabled : E → Bool
  servers : N → Option Nat
  connections : E → Option N
  loop : Bool
  closed : Bool
  count : BitVec 32
  bytes : BitVec 64
  objects : Nat → Option (Server T)
  calls : Nat → Option (Call E N V T)
  fatal : Option String

section
variable {E N V T : Type}

def makeNetwork : Network E N V T where
  reliable := true
  longDelays := false
  longReordering := false
  ends := fun _ => false
  enabled := fun _ => false
  servers := fun _ => none
  connections := fun _ => none
  loop := true
  closed := false
  count := 0
  bytes := 0
  objects := fun _ => none
  calls := fun _ => none
  fatal := none

namespace Network

def fail (s : Network E N V T) (msg : String) : Network E N V T := { s with fatal := some msg }

def setCall (s : Network E N V T) (c : Nat) (k : Call E N V T) : Network E N V T :=
  { s with calls := Function.update s.calls c (some k) }

def addBytes (s : Network E N V T) (bs : Bytes) : Network E N V T :=
  { s with bytes := s.bytes + BitVec.ofNat 64 bs.length }

/-! ## Configuration -/

section
variable [DecidableEq E] [DecidableEq N]

def makeEnd (s : Network E N V T) (endname : E) : Network E N V T :=
  if s.ends endname then s.fail "MakeEnd: %v already exists\n"
  else { s with
    ends := Function.update s.ends endname true
    enabled := Function.update s.enabled endname false
    connections := Function.update s.connections endname none }

def deleteEnd (s : Network E N V T) (endname : E) : Network E N V T :=
  if s.ends endname then { s with
    ends := Function.update s.ends endname false
    enabled := Function.update s.enabled endname false
    connections := Function.update s.connections endname none }
  else s.fail "MakeEnd: %v doesn't exists\n"

def connect (s : Network E N V T) (endname : E) (servername : Option N) : Network E N V T :=
  { s with connections := Function.update s.connections endname servername }

def enable (s : Network E N V T) (endname : E) (enabled : Bool) : Network E N V T :=
  { s with enabled := Function.update s.enabled endname enabled }

def addServer (s : Network E N V T) (servername : N) (rs : Nat) : Network E N V T :=
  { s with servers := Function.update s.servers servername (some rs) }

def deleteServer (s : Network E N V T) (servername : N) : Network E N V T :=
  { s with servers := Function.update s.servers servername none }

end

def cleanup (s : Network E N V T) : Network E N V T :=
  if s.closed then s.fail "close of closed channel" else { s with closed := true }

def makeServer (s : Network E N V T) (rs : Nat) : Network E N V T :=
  { s with objects := Function.update s.objects rs (some ⟨fun _ => none, 0⟩) }

def addService (s : Network E N V T) (rs : Nat) (srv : Server T) (name : String) (svc : Service T) :
    Network E N V T :=
  { s with objects := Function.update s.objects rs (some { srv with
      services := Function.update srv.services name (some svc) }) }

def getCount (s : Network E N V T) (servername : N) : Option Int := do
  let rs ← s.servers servername
  let srv ← s.objects rs
  some srv.count.toInt

def getTotalCount (s : Network E N V T) : Int := s.count.toInt

def getTotalBytes (s : Network E N V T) : Int := s.bytes.toInt

/-! ## One request -/

/-- `readEndnameInfo`, and the test that `processReq` makes on it. -/
def readEndnameInfo (s : Network E N V T) (endname : E) : Option (Target N) :=
  if s.enabled endname then do
    let servername ← s.connections endname
    let server ← s.servers servername
    some ⟨servername, server, s.reliable, s.longReordering⟩
  else none

def isServerDead (s : Network E N V T) (endname : E) (servername : N) (server : Nat) : Bool :=
  s.enabled endname == false || s.servers servername != some server

end Network

def splitSvcMeth (svcMeth : String) : Option (String × String) :=
  let cs := svcMeth.toList
  match (List.range cs.length).reverse.find? fun i => cs[i]? == some '.' with
  | none => none
  | some dot => some (String.ofList (cs.take dot), String.ofList (cs.drop (dot + 1)))

/-- The end of `processReq`: what it sends itself and what it leaves to a timer. -/
def outcome (t : Target N) (reply : Option ReplyMsg) (serverDead drop delay : Bool) :
    ProcessReq N × Option ReplyMsg :=
  match reply with
  | none => (.replying failure, none)
  | some m =>
    if serverDead then (.replying failure, none)
    else if t.reliable = false ∧ drop then (.replying failure, none)
    else if t.longreordering ∧ delay then (.done, some m)
    else (.replying m, none)

inductive Action (V : Type) where
  -- the loop of `MakeNetwork` takes the request, or `Call` sees that it is gone
  | send
  | abort
  | read
  | dropRequest
  | launch
  | dispatch (server : Nat)
  -- the method returns and leaves `v` in its reply
  | finish (v : V)
  -- the loop of `processReq` receives from `ech`, or looks whether the server is dead
  | answer
  | poll
  | drain
  | check (drop delay : Bool)
  -- a message on `replyCh`, from `processReq` or from a timer
  | reply (m : ReplyMsg)
  | fire (m : ReplyMsg)

variable (G : Gob V T)

/-- `Server.dispatch` and `Service.dispatch`, up to the call of the method. -/
def Network.dispatch (s : Network E N V T) (k : Call E N V T) (server : Nat) (rs : Server T) :
    Network E N V T × Call E N V T :=
  let s :=
    { s with objects := Function.update s.objects server (some { rs with count := rs.count + 1 }) }
  let died := { k with handler := .failed server }
  match splitSvcMeth k.req.svcMeth with
  | none => (s.fail "slice bounds out of range [:-1]", died)
  | some (serviceName, methodName) =>
    match rs.services serviceName with
    | none =>
      (s.fail "labrpc.Server.dispatch(): unknown service %v in %v.%v; expecting one of %v\n", died)
    | some service =>
      match service.methods methodName with
      | none =>
        (s.fail "labrpc.Service.dispatch(): unknown method %v in %v; expecting one of %v\n", died)
      | some replyType =>
        let args := (G.decode k.req.args (G.zero k.req.argsType)).1
        (s, { k with handler := .running server replyType args })

def Network.receive (s : Network E N V T) (k : Call E N V T) (rep : ReplyMsg) :
    Network E N V T × Call E N V T :=
  if rep.ok then
    let r := G.decode rep.reply k.reply
    if r.2 then (s, { k with reply := r.1, client := .returned true })
    else (s.fail "ClientEnd.Call(): decode reply: %v\n", { k with reply := r.1, client := .failed })
  else (s, { k with client := .returned false })

/-- The network and the call `k` after an action of one of its goroutines. -/
def Network.act [DecidableEq T] (s : Network E N V T) (k : Call E N V T) :
    Action V → Option (Network E N V T × Call E N V T)
  | .send =>
    if k.client = .sending ∧ s.loop then
      some ({ s.addBytes k.req.args with count := s.count + 1 },
        { k with client := .waiting, proc := .started })
    else none
  | .abort =>
    if k.client = .sending ∧ s.closed then some (s, { k with client := .returned false }) else none
  | .read =>
    match k.proc with
    | .started =>
      match s.readEndnameInfo k.req.endname with
      | some t => some (s, { k with proc := .connected t })
      | none => some (s, { k with proc := .done, timer := some failure })
    | _ => none
  | .dropRequest =>
    match k.proc with
    | .connected t =>
      if t.reliable = false then some (s, { k with proc := .replying failure }) else none
    | _ => none
  | .launch =>
    match k.proc with
    | .connected t => some (s, { k with proc := .waiting t, handler := .called t.server })
    | _ => none
  | .dispatch server =>
    match k.handler with
    | .called server' =>
      if server = server' then (s.objects server).map (s.dispatch G k server) else none
    | _ => none
  | .finish v =>
    match k.handler with
    | .running server replyType _ =>
      if G.typeOf v = replyType
        then some (s, { k with handler := .sending server ⟨true, (G.encode v).1⟩ }) else none
    | _ => none
  | .answer =>
    match k.proc, k.handler with
    | .waiting t, .sending server m => some (s,
      { k with proc := .leaving t (some m), handler := .done server })
    | _, _ => none
  | .poll =>
    match k.proc with
    | .waiting t =>
      if s.isServerDead k.req.endname t.servername t.server then
        some (s, { k with proc := .leaving t none, drain := true })
      else some (s, k)
    | _ => none
  | .drain =>
    match k.handler with
    | .sending server _ => if k.drain
      then some (s, { k with handler := .done server, drain := false }) else none
    | _ => none
  | .check drop delay =>
    match k.proc with
    | .leaving t reply =>
      let serverDead := s.isServerDead k.req.endname t.servername t.server
      let out := outcome t reply serverDead drop delay
      let s := match out.1 with
        | .replying m => s.addBytes m.reply
        | _ => s
      some (s, { k with proc := out.1, timer := out.2 })
    | _ => none
  | .reply m =>
    match k.proc with
    | .replying m' =>
      if m = m' ∧ k.client = .waiting then some (s.receive G { k with proc := .done } m) else none
    | _ => none
  | .fire m =>
    match k.timer with
    | some m' => if m = m' ∧ k.client = .waiting
      then some ((s.addBytes m.reply).receive G { k with timer := none } m)
      else none
    | none => none

/-! ## Steps -/

inductive Label (E N V T : Type) where
  | makeEnd (endname : E)
  | deleteEnd (endname : E)
  | connect (endname : E) (servername : Option N)
  | enable (endname : E) (enabled : Bool)
  | addServer (servername : N) (server : Nat)
  | deleteServer (servername : N)
  | reliable (yes : Bool)
  | longReordering (yes : Bool)
  | longDelays (yes : Bool)
  | cleanup
  | stop
  | makeServer (server : Nat)
  | addService (server : Nat) (name : String) (svc : Service T)
  | call (c : Nat) (endname : E) (svcMeth : String) (args reply : V)
  | act (c : Nat) (a : Action V)

def Network.call (s : Network E N V T) (c : Nat) (endname : E) (svcMeth : String) (args reply : V) :
    Network E N V T :=
  let qb := G.encode args
  if qb.2 then s.setCall c ⟨⟨endname, svcMeth, G.typeOf args, qb.1⟩, reply, .sending, .unborn,
    .unborn, false, none⟩
  else s.fail "gob: encode"

def step [DecidableEq E] [DecidableEq N] [DecidableEq T] (s : Network E N V T) (l : Label E N V T) :
    Option (Network E N V T) :=
  if s.fatal.isSome then none
  else match l with
  | .makeEnd e => some (s.makeEnd e)
  | .deleteEnd e => some (s.deleteEnd e)
  | .connect e n => some (s.connect e n)
  | .enable e b => some (s.enable e b)
  | .addServer n rs => if (s.objects rs).isSome then some (s.addServer n rs) else none
  | .deleteServer n => some (s.deleteServer n)
  | .reliable b => some { s with reliable := b }
  | .longReordering b => some { s with longReordering := b }
  | .longDelays b => some { s with longDelays := b }
  | .cleanup => some s.cleanup
  | .stop => if s.closed ∧ s.loop then some { s with loop := false } else none
  | .makeServer rs => if (s.objects rs).isSome then none else some (s.makeServer rs)
  | .addService rs name svc => (s.objects rs).map fun srv => s.addService rs srv name svc
  | .call c e m args reply => if (s.calls c).isSome then none else some (s.call G c e m args reply)
  | .act c a =>
    match s.calls c with
    | none => none
    | some k => (s.act G k a).map fun r => r.1.setCall c r.2

end

end Csc412.Labrpc
