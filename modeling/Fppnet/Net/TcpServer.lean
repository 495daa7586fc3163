import Fppnet.Library.Run
import Fppnet.Net.ConnectionEffects

/-!
# `net/TcpServer.cpp` and `net/TcpClient.cpp`: connections, their loops and their owner

* `TcpServer` has the map `connections_` from names to connections, `TcpClient` one connection and
  its `Connector`. They run on the base loop; the connections of a server are spread over the loops
  of its `EventLoopThreadPool`;
* `Network` is an owner with its connections, and for each loop the poller, the queue of functors
  and the channel callbacks still to be called. A connection is numbered by the order of creation;
  `log` records when the functions of its life run, and on which thread;
* a functor that is bound to a `shared_ptr` owns its connection, one that is bound to `this` does
  not (`Functor.owns`). `freed` says that the last owner is gone and the destructor has run;
* `step` takes one functor, one channel callback, one call of the user or one step of the owner at a
  time, in any order of the loops and of the user's threads. The results of `read`, `write` and
  `connect` and the masks that the poller reports are arbitrary. A functor gives up its pointer when
  it is taken; `Batches` adds the local vector of `doPendingFunctors`, which keeps it longer.
-/

namespace Fppnet

open Checked Runs TcpConnection

/-- A `TcpConnection*`. -/
abbrev ConnId := ℕ

/-- The loop on which the owner runs. -/
def baseLoop : LoopId := 0

/-- The largest value of an `int`. -/
def INT_MAX : ℕ := 2 ^ 31 - 1

/-- A functor with its arguments. -/
inductive Functor
  | connectEstablished (conn : ConnId)
  | removeConnectionInLoop (conn : ConnId)
  | connectDestroyed (conn : ConnId)
  | writeCompleteCallback (conn : ConnId)
  | sendInLoop (conn : ConnId) (message : List Byte)
  | shutdownInLoop (conn : ConnId)
  deriving DecidableEq

namespace Functor

def conn : Functor → ConnId
  | connectEstablished c | removeConnectionInLoop c | connectDestroyed c
  | writeCompleteCallback c | sendInLoop c _ | shutdownInLoop c => c

/-- The connection that a functor owns: `send` and `shutdown` bind `this`. -/
def owns : Functor → Option ConnId
  | connectEstablished c | removeConnectionInLoop c | connectDestroyed c
  | writeCompleteCallback c => some c
  | sendInLoop _ _ | shutdownInLoop _ => none

end Functor

/-- `EventLoopThreadPool`, after `start`. -/
structure EventLoopThreadPool where
  baseLoop_ : LoopId
  loops_ : List LoopId
  next_ : ℕ
  next_lt : loops_ = [] ∨ next_ < loops_.length

namespace EventLoopThreadPool

/-- The pool of the given loops. -/
def new (loops : List LoopId) : EventLoopThreadPool where
  baseLoop_ := baseLoop
  loops_ := loops
  next_ := 0
  next_lt := by
    cases loops with
    | nil => exact .inl rfl
    | cons l ls => exact .inr (Nat.succ_pos _)

/-- The loops in turn, or the base loop when there is no other. -/
def getNextLoop (p : EventLoopThreadPool) : LoopId × EventLoopThreadPool :=
  if h : p.loops_ = [] then (p.baseLoop_, p)
  else
    (p.loops_.get ⟨p.next_, p.next_lt.resolve_left h⟩,
      { p with
        next_ := if p.loops_.length ≤ p.next_ + 1 then 0 else p.next_ + 1
        next_lt := by
          right
          split_ifs with hn
          · exact List.length_pos_iff.2 h
          · exact Nat.not_le.1 hn })

/-- Every connection goes to a loop of the pool or to the base loop. -/
theorem getNextLoop_mem (p : EventLoopThreadPool) :
    p.getNextLoop.1 = p.baseLoop_ ∨ p.getNextLoop.1 ∈ p.loops_ := by
  by_cases h : p.loops_ = []
  · simp [getNextLoop, h]
  · right
    simp [getNextLoop, h]

theorem getNextLoop_frame (p : EventLoopThreadPool) :
    p.getNextLoop.2.baseLoop_ = p.baseLoop_ ∧ p.getNextLoop.2.loops_ = p.loops_ := by
  by_cases h : p.loops_ = [] <;> simp [getNextLoop, h]

end EventLoopThreadPool

/-- `TcpServer`. -/
structure TcpServer where
  name_ : String
  threadPool_ : EventLoopThreadPool
  nextConnId_ : ℕ
  connections_ : String → Option ConnId

namespace TcpServer

/-- The name of the next connection: `snprintf(buf, sizeof buf, "#%d", nextConnId_)`. -/
def connName (sv : TcpServer) : String := sv.name_ ++ ("#" ++ toString sv.nextConnId_)

/-- `connections_.erase(name)`: the number of entries removed, and the rest. -/
def erase (sv : TcpServer) (name : String) : ℕ × TcpServer :=
  (if (sv.connections_ name).isSome then 1 else 0,
    { sv with connections_ := Function.update sv.connections_ name none })

end TcpServer

/-- `Connector::States`. -/
inductive ConnectorState
  | kDisconnected
  | kConnecting
  | kConnected
  deriving DecidableEq

/-- What `connect` makes of the result of `connect(2)`: it waits for the socket, it tries again
later, or it gives up. -/
inductive ConnectResult
  | connecting
  | retry
  | fatal
  deriving DecidableEq

/-- `Connector`. The timer of `retry` calls `startInLoop`, which is a step of its own. -/
structure Connector where
  connect_ : Bool
  state_ : ConnectorState
  deriving DecidableEq

/-- `TcpClient`. -/
structure TcpClient where
  connector_ : Connector
  retry_ : Bool
  connect_ : Bool
  nextConnId_ : ℕ
  connection_ : Option ConnId

/-- The calls of a user of a `TcpClient`. `connect` goes on with `startInLoop`, `disconnect` with
the `shutdown` of the connection; these are steps of their own. -/
inductive ClientCall
  | connect
  | stop
  | disconnect
  | enableRetry

namespace TcpClient

/-- `snprintf(buf, sizeof buf, ":%s#%d", …)` with a buffer of 32 bytes. -/
def connName (cl : TcpClient) (peerAddr : String) : String :=
  String.ofList ((":" ++ peerAddr ++ "#" ++ toString cl.nextConnId_).toList.take 31)

/-- The flags that a call changes. -/
def call (cl : TcpClient) : ClientCall → TcpClient
  | .connect => { cl with connect_ := true, connector_ := { cl.connector_ with connect_ := true } }
  | .stop => { cl with connect_ := false, connector_ := { cl.connector_ with connect_ := false } }
  | .disconnect => { cl with connect_ := false }
  | .enableRetry => { cl with retry_ := true }

end TcpClient

/-- The owner of the connections. A destroyed server has no member `connections_` any more. -/
inductive Owner
  | server (sv : TcpServer)
  | client (cl : TcpClient)
  | destroyed

/-- The owner holds a pointer to the connection `c` with the given name. -/
def Owner.Holds (o : Owner) (name : String) (c : ConnId) : Prop :=
  match o with
  | .server sv => sv.connections_ name = some c
  | .client cl => cl.connection_ = some c
  | .destroyed => False

instance (o : Owner) (name : String) (c : ConnId) : Decidable (o.Holds name c) := by
  cases o <;> unfold Owner.Holds <;> infer_instance

/-- The functions of the life of a connection. -/
inductive Life
  | established
  | closed
  | removed
  | destroyed
  deriving DecidableEq

/-- One of these functions, with the thread on which it has run. -/
structure Stage where
  life : Life
  thread : LoopId
  deriving DecidableEq

/-- A call of `send` or `shutdown` on a thread other than the loop's, after its test of `state_`.
`shutdown` then sets the state before it queues its functor. -/
inductive UserCall
  | send (conn : ConnId) (message : List Byte)
  | shutdown (conn : ConnId)
  | shuttingDown (conn : ConnId)
  deriving DecidableEq

def UserCall.conn : UserCall → ConnId
  | send c _ | shutdown c | shuttingDown c => c

/-- The results of the system calls that one functor or channel callback makes. -/
structure Answers where
  read : Buffer.ReadResult
  write : WriteResult
  connect : ConnectResult

/-- The result of a connection attempt that `Connector::handleWrite` finds. `handleError` ends an
attempt as a failed one. -/
inductive Attempt
  | failed
  | established (sockfd : ℕ) (peerAddr : String) (writeComplete : Bool)

structure Network where
  owner : Owner
  loops : List LoopId
  accepted : ℕ
  conns : ConnId → TcpConnection
  pollers : LoopId → EPoller ConnId
  functors : LoopId → List Functor
  active : LoopId → List (ConnId × Handler)
  calls : List UserCall
  held : ConnId → ℕ
  freed : ConnId → Bool
  log : ConnId → List Stage

namespace Network

/-- The ways in which the program aborts or goes wrong. -/
inductive Failure
  | connection (f : TcpConnection.Failure)
  | notInLoopThread
  | eraseNotOne
  | connectionDiffers
  | connectorState
  | fillActiveChannels
  | useAfterFree
  | ownerGone
  | signedOverflow
  deriving DecidableEq

/-- An owner without connections. -/
def new (owner : Owner) (loops : List LoopId) : Network where
  owner := owner
  loops := baseLoop :: loops
  accepted := 0
  conns := fun _ => TcpConnection.new baseLoop "" 0 false
  pollers := fun _ => EPoller.empty
  functors := fun _ => []
  active := fun _ => []
  calls := []
  held := fun _ => 0
  freed := fun _ => false
  log := fun _ => []

/-- A server that has been started with the given I/O loops. -/
def ofServer (name : String) (loops : List LoopId) : Network :=
  new (.server ⟨name, EventLoopThreadPool.new loops, 1, fun _ => none⟩) loops

/-- A client. -/
def ofClient : Network := new (.client ⟨⟨false, .kDisconnected⟩, false, true, 1, none⟩) []

/-! ### Running the functions of a connection -/

/-- The context in which a member function of `c` runs. -/
def ctx (s : Network) (thread : LoopId) (c : ConnId) : Ctx ConnId :=
  ⟨thread, c, s.conns c, s.pollers (s.conns c).loop_, []⟩

/-- The state after a member function. -/
def put (s : Network) (x : Ctx ConnId) : Network :=
  { s with
    conns := Function.update s.conns x.self x.conn
    pollers := Function.update s.pollers x.conn.loop_ x.poller }

theorem put_conns (s : Network) {y : Ctx ConnId} {c : ConnId} (h : y.self = c) :
    (s.put y).conns = Function.update s.conns c y.conn := by
  rw [← h]
  rfl

theorem put_pollers (s : Network) {y : Ctx ConnId} {loop : LoopId} (h : y.conn.loop_ = loop) :
    (s.put y).pollers = Function.update s.pollers loop y.poller := by
  rw [← h]
  rfl

def queueInLoop (s : Network) (loop : LoopId) (f : Functor) : Network :=
  { s with functors := Function.update s.functors loop (s.functors loop ++ [f]) }

def record (s : Network) (c : ConnId) (life : Life) (thread : LoopId) : Network :=
  { s with log := Function.update s.log c (s.log c ++ [⟨life, thread⟩]) }

def setOwner (s : Network) (o : Owner) : Network := { s with owner := o }

/-! ### Removing a connection -/

/-- `TcpServer::removeConnectionInLoop`. -/
def removeConnectionInLoop (s : Network) (thread : LoopId) (c : ConnId) :
    Except Failure Network :=
  match s.owner with
  | .server sv => do
    require (thread = baseLoop) .notInLoopThread
    let r := sv.erase (s.conns c).name_
    require (r.1 = 1) .eraseNotOne
    let s := (s.setOwner (.server r.2)).record c .removed thread
    pure (s.queueInLoop (s.conns c).loop_ (.connectDestroyed c))
  | _ => .error .ownerGone

end Network

/-- `startInLoop`, with `connect` and, when the attempt fails at once, `retry`. -/
def Connector.startInLoop (k : Connector) (r : ConnectResult) :
    Except Network.Failure Connector := do
  require (k.state_ = .kDisconnected) .connectorState
  if k.connect_ then
    pure (match r with
      | .connecting => { k with state_ := .kConnecting }
      | .retry => { k with state_ := .kDisconnected }
      | .fatal => k)
  else pure k

def Connector.restart (_ : Connector) (r : ConnectResult) : Except Network.Failure Connector :=
  Connector.startInLoop ⟨true, .kDisconnected⟩ r

namespace Network

/-- `closeCallback_`: the `removeConnection` of the owner. -/
def removeConnection (s : Network) (thread : LoopId) (c : ConnId) (r : ConnectResult) :
    Except Failure Network :=
  match s.owner with
  | .server _ =>
    if thread = baseLoop then s.removeConnectionInLoop thread c
    else pure (s.queueInLoop baseLoop (.removeConnectionInLoop c))
  | .client cl => do
    require (thread = baseLoop) .notInLoopThread
    require (baseLoop = (s.conns c).loop_) .notInLoopThread
    require (cl.connection_ = some c) .connectionDiffers
    let cl := { cl with connection_ := none }
    -- `restart` runs at once, and its attempt may fail at once
    let s := (s.record c .removed thread).queueInLoop baseLoop (.connectDestroyed c)
    if cl.retry_ && cl.connect_ then
      let k ← cl.connector_.restart r
      pure (s.setOwner (.client { cl with connector_ := k }))
    else pure (s.setOwner (.client cl))
  | .destroyed => .error .ownerGone

/-- What a member function has called or queued outside the connection. -/
def perform (s : Network) (thread : LoopId) (c : ConnId) (r : ConnectResult) :
    Call → Except Failure Network
  | .queueWriteComplete => pure (s.queueInLoop (s.conns c).loop_ (.writeCompleteCallback c))
  | .connectionCallback | .messageCallback => pure s
  | .closeCallback => (s.record c .closed thread).removeConnection thread c r

/-- Run a member function, and what it calls. -/
def enact (s : Network) (r : ConnectResult) (e : Except TcpConnection.Failure (Ctx ConnId)) :
    Except Failure Network := do
  let x ← e.mapError .connection
  x.calls.foldlM (fun s call => s.perform x.thread x.self r call) (s.put x)

/-! ### Functors and channel callbacks -/

def runFunctor (s : Network) (thread : LoopId) (a : Answers) : Functor → Except Failure Network
  | .connectEstablished c =>
    (s.record c .established thread).enact a.connect (s.ctx thread c).connectEstablished
  | .removeConnectionInLoop c => s.removeConnectionInLoop thread c
  | .connectDestroyed c =>
    (s.record c .destroyed thread).enact a.connect (s.ctx thread c).connectDestroyed
  | .writeCompleteCallback _ => pure s
  -- these two are bound to `this`, and the connection may be gone when they run
  | .sendInLoop c message => do
    require (s.freed c = false) .useAfterFree
    s.enact a.connect ((s.ctx thread c).sendInLoop message a.write)
  | .shutdownInLoop c => do
    require (s.freed c = false) .useAfterFree
    s.enact a.connect (s.ctx thread c).shutdownInLoop

/-- The callbacks that the constructor of `TcpConnection` sets. `handleError` only logs. -/
def runHandler (x : Ctx ConnId) (a : Answers) :
    Handler → Except TcpConnection.Failure (Ctx ConnId)
  | .close => x.handleClose
  | .error => pure x
  | .read => x.handleRead a.read
  | .write => x.handleWrite a.write

/-- The kernel accepts at most what a functor writes. -/
def LegalFor (a : Answers) : Functor → Prop
  | .sendInLoop _ message => a.write.Legal message.length
  | _ => True

instance (a : Answers) (f : Functor) : Decidable (LegalFor a f) := by
  cases f <;> unfold LegalFor <;> infer_instance

/-! ### The owner -/

/-- The descriptor is not in use. -/
def FreshFd (s : Network) (sockfd : ℕ) : Prop :=
  ∀ c < s.accepted, s.freed c = false → (s.conns c).channel_.fd_ ≠ sockfd

instance (s : Network) (sockfd : ℕ) : Decidable (s.FreshFd sockfd) :=
  inferInstanceAs (Decidable (∀ c < s.accepted, _))

def FreshFor (s : Network) : Attempt → Prop
  | .failed => True
  | .established sockfd _ _ => s.FreshFd sockfd

instance (s : Network) (attempt : Attempt) : Decidable (s.FreshFor attempt) := by
  cases attempt <;> unfold FreshFor <;> infer_instance

/-- A new connection, which `owner` holds. -/
def create (s : Network) (conn : TcpConnection) (owner : Owner) : Network :=
  { s with
    owner := owner
    accepted := s.accepted + 1
    conns := Function.update s.conns s.accepted conn }

theorem create_new (s : Network) (conn : TcpConnection) (owner : Owner) :
    (s.create conn owner).conns s.accepted = conn := Function.update_self _ _ _

theorem create_old (s : Network) (conn : TcpConnection) (owner : Owner) {c : ConnId}
    (hc : c < s.accepted) : (s.create conn owner).conns c = s.conns c :=
  Function.update_of_ne (Nat.ne_of_lt hc) _ _

/-- The answers for a functor or callback that makes no system call, or whose `read` finds the end
of the file. -/
def noAnswers : Answers := ⟨.bytes [], .accepted 0, .connecting⟩

/-- A call of `connectEstablished` on the base loop. -/
def establish (s : Network) (c : ConnId) : Except Failure Network :=
  s.runFunctor baseLoop noAnswers (.connectEstablished c)

/-- The new connection of a server, in `connections_` under its name. -/
def serverCreate (s : Network) (sv : TcpServer) (sockfd : ℕ) (writeComplete : Bool) : Network :=
  s.create
    (TcpConnection.new sv.threadPool_.getNextLoop.1 sv.connName sockfd writeComplete)
    (.server { sv with
      nextConnId_ := sv.nextConnId_ + 1
      threadPool_ := sv.threadPool_.getNextLoop.2
      connections_ := Function.update sv.connections_ sv.connName (some s.accepted) })

theorem serverCreate_new (s : Network) (sv : TcpServer) (sockfd : ℕ) (writeComplete : Bool) :
    (s.serverCreate sv sockfd writeComplete).conns s.accepted =
      TcpConnection.new sv.threadPool_.getNextLoop.1 sv.connName sockfd writeComplete :=
  create_new s _ _

/-- `TcpServer::newConnection`. -/
def serverNewConnection (s : Network) (sv : TcpServer) (sockfd : ℕ) (writeComplete : Bool) :
    Except Failure Network := do
  require (sv.nextConnId_ < INT_MAX) .signedOverflow
  let ioLoop := sv.threadPool_.getNextLoop.1
  let s' := s.serverCreate sv sockfd writeComplete
  if ioLoop = baseLoop then s'.establish s.accepted
  else pure (s'.queueInLoop ioLoop (.connectEstablished s.accepted))

/-- The new connection of a client. -/
def clientCreate (s : Network) (cl : TcpClient) (sockfd : ℕ) (peerAddr : String)
    (writeComplete : Bool) : Network :=
  s.create (TcpConnection.new baseLoop (cl.connName peerAddr) sockfd writeComplete)
    (.client { cl with nextConnId_ := cl.nextConnId_ + 1, connection_ := some s.accepted })

/-- `TcpClient::newConnection`. -/
def clientNewConnection (s : Network) (cl : TcpClient) (sockfd : ℕ) (peerAddr : String)
    (writeComplete : Bool) : Except Failure Network := do
  require (cl.nextConnId_ < INT_MAX) .signedOverflow
  (s.clientCreate cl sockfd peerAddr writeComplete).establish s.accepted

/-- `Connector::handleWrite`: the attempt to connect has ended. -/
def connectorHandleWrite (s : Network) (cl : TcpClient) : Attempt → Except Failure Network
  | .failed =>
    if cl.connector_.state_ = .kConnecting then
      pure (s.setOwner (.client
        { cl with connector_ := { cl.connector_ with state_ := .kDisconnected } }))
    else do
      require (cl.connector_.state_ = .kDisconnected) .connectorState
      pure s
  | .established sockfd peerAddr writeComplete =>
    if cl.connector_.state_ = .kConnecting then
      let cl := { cl with connector_ := { cl.connector_ with state_ := .kConnected } }
      if cl.connector_.connect_ then s.clientNewConnection cl sockfd peerAddr writeComplete
      else pure (s.setOwner (.client cl))
    else do
      require (cl.connector_.state_ = .kDisconnected) .connectorState
      pure s

/-! ### The poller -/

/-- The kernel watches the channel of `c` for the loop. -/
def Watches (s : Network) (loop : LoopId) (c : ConnId) : Prop :=
  ((s.pollers loop).interest (s.conns c).channel_.fd_).map Prod.snd = some c

instance (s : Network) (loop : LoopId) (c : ConnId) : Decidable (s.Watches loop c) :=
  inferInstanceAs (Decidable (_ = _))

/-- The callbacks of one active channel, in the order of `Channel::handleEvent`. -/
def callbacks (s : Network) (p : ConnId × Events) : List (ConnId × Handler) :=
  ((s.conns p.1).channel_.set_revents p.2).handleEvent.map fun h => (p.1, h)

/-- `EPoller::poll`, with the assertion of `fillActiveChannels`, and `handleEvent` of the active
channels in turn. -/
def poll (s : Network) (loop : LoopId) (activeChannels : List (ConnId × Events)) :
    Except Failure Network := do
  require (∀ p ∈ activeChannels, (s.pollers loop).channels_ (s.conns p.1).channel_.fd_ = some p.1)
    .fillActiveChannels
  pure { s with active := Function.update s.active loop (activeChannels.flatMap s.callbacks) }

/-! ### Ownership -/

/-- There is a `shared_ptr` to the connection: the owner's, that of a pending functor, or one that
the user holds, also during a call of `send` or `shutdown`. -/
def Owned (s : Network) (c : ConnId) : Prop :=
  s.owner.Holds (s.conns c).name_ c ∨ (∃ l ∈ s.loops, ∃ f ∈ s.functors l, f.owns = some c) ∨
    0 < s.held c ∨ ∃ u ∈ s.calls, u.conn = c

instance (s : Network) (c : ConnId) : Decidable (s.Owned c) :=
  inferInstanceAs (Decidable (_ ∨ _ ∨ _ ∨ _))

/-- The user may call functions of the connection. -/
def Usable (s : Network) (c : ConnId) : Prop := c < s.accepted ∧ s.freed c = false

instance (s : Network) (c : ConnId) : Decidable (s.Usable c) :=
  inferInstanceAs (Decidable (_ ∧ _))

/-! ### The steps -/

inductive Label
  | newConnection (sockfd : ℕ) (writeComplete : Bool)
  | destroyServer
  | clientCall (call : ClientCall)
  | startInLoop (r : ConnectResult)
  | connectorEvent (attempt : Attempt)
  | poll (loop : LoopId) (activeChannels : List (ConnId × Events))
  | handle (loop : LoopId) (a : Answers)
  | functor (loop : LoopId) (a : Answers)
  | send (c : ConnId) (message : List Byte) (a : Answers)
  | shutdown (c : ConnId) (a : Answers)
  | foreignSend (c : ConnId) (message : List Byte)
  | foreignShutdown (c : ConnId)
  | proceed (u : UserCall)
  | hold (c : ConnId)
  | drop (c : ConnId)
  | free (c : ConnId)

/-- A step of the server on the base loop, or its destruction. -/
def serverStep (s : Network) (sv : TcpServer) : Label → Option (Except Failure Network)
  | .newConnection sockfd writeComplete =>
    if s.FreshFd sockfd then some (s.serverNewConnection sv sockfd writeComplete) else none
  | .destroyServer => some (pure (s.setOwner .destroyed))
  | _ => none

/-- A step of the client on the base loop. The channel of the connector is off the poller once an
attempt has succeeded. -/
def clientStep (s : Network) (cl : TcpClient) : Label → Option (Except Failure Network)
  | .clientCall call => some (pure (s.setOwner (.client (cl.call call))))
  | .startInLoop r =>
    some ((cl.connector_.startInLoop r).map fun k =>
      s.setOwner (.client { cl with connector_ := k }))
  | .connectorEvent attempt =>
    if cl.connector_.state_ ≠ .kConnected ∧ s.FreshFor attempt then
      some (s.connectorHandleWrite cl attempt)
    else none
  | _ => none

/-- A step of a loop: `poll` and the functors wait until the callbacks of the last `poll` have been
called. -/
def loopStep (s : Network) : Label → Option (Except Failure Network)
  | .poll loop activeChannels =>
    if s.active loop = [] ∧ (activeChannels.map Prod.fst).Nodup ∧
      ∀ p ∈ activeChannels, s.Watches loop p.1 then some (s.poll loop activeChannels) else none
  | .handle loop a =>
    match s.active loop with
    | [] => none
    | (c, h) :: rest =>
      if a.write.Legal (s.conns c).outputBuffer_.readableBytes then some do
        require (s.freed c = false) .useAfterFree
        let s := { s with active := Function.update s.active loop rest }
        s.enact a.connect (runHandler (s.ctx loop c) a h)
      else none
  | .functor loop a =>
    match s.active loop, s.functors loop with
    | [], f :: rest =>
      if LegalFor a f then
        some ({ s with functors := Function.update s.functors loop rest }.runFunctor loop a f)
      else none
    | _, _ => none
  | _ => none

/-- A step of the user, on the loop of a connection (`send`, `shutdown`) or on another thread. -/
def userStep (s : Network) : Label → Option (Except Failure Network)
  | .send c message a =>
    if s.Usable c ∧ a.write.Legal message.length then
      some (s.enact a.connect ((s.ctx (s.conns c).loop_ c).send message a.write))
    else none
  | .shutdown c a =>
    if s.Usable c then some (s.enact a.connect (s.ctx (s.conns c).loop_ c).shutdown) else none
  | .foreignSend c message =>
    if s.Usable c ∧ (s.conns c).state_ = .kConnected then
      some (pure { s with calls := .send c message :: s.calls })
    else none
  | .foreignShutdown c =>
    if s.Usable c ∧ (s.conns c).state_ = .kConnected then
      some (pure { s with calls := .shutdown c :: s.calls })
    else none
  | .proceed u =>
    if u ∈ s.calls then
      let s := { s with calls := s.calls.erase u }
      match u with
      | .send c message =>
        some (pure (s.queueInLoop (s.conns c).loop_ (.sendInLoop c message)))
      | .shutdown c =>
        some (pure { s with
          conns := Function.update s.conns c { s.conns c with state_ := .kDisconnecting }
          calls := .shuttingDown c :: s.calls })
      | .shuttingDown c => some (pure (s.queueInLoop (s.conns c).loop_ (.shutdownInLoop c)))
    else none
  | .hold c =>
    if s.Usable c then some (pure { s with held := Function.update s.held c (s.held c + 1) })
    else none
  | .drop c =>
    if 0 < s.held c then some (pure { s with held := Function.update s.held c (s.held c - 1) })
    else none
  | .free c =>
    if s.Usable c ∧ ¬ s.Owned c then
      some (pure { s with freed := Function.update s.freed c true })
    else none
  | _ => none

def step (s : Network) (l : Label) : Option (Except Failure Network) :=
  match l with
  | .newConnection _ _ | .destroyServer =>
    match s.owner with
    | .server sv => s.serverStep sv l
    | _ => none
  | .clientCall _ | .startInLoop _ | .connectorEvent _ =>
    match s.owner with
    | .client cl => s.clientStep cl l
    | _ => none
  | .poll _ _ | .handle _ _ | .functor _ _ => s.loopStep l
  | _ => s.userStep l

/-! ### What a member function leaves behind -/

/-- The state after write-complete callbacks of `c` have been queued. -/
def notified (s : Network) (c : ConnId) (n : ℕ) : Network :=
  { s with
    functors := Function.update s.functors (s.conns c).loop_
      (s.functors (s.conns c).loop_ ++ List.replicate n (.writeCompleteCallback c)) }

theorem notified_zero (s : Network) (c : ConnId) : s.notified c 0 = s := by
  simp [notified]

theorem notified_queue (s : Network) (c : ConnId) (n : ℕ) :
    (s.queueInLoop (s.conns c).loop_ (.writeCompleteCallback c)).notified c n =
      s.notified c (n + 1) := by
  simp [notified, queueInLoop, List.replicate_succ]

/-- Calls other than the close callback at most queue write-complete callbacks. -/
theorem foldlM_perform (s : Network) (thread : LoopId) (c : ConnId) (r : ConnectResult)
    (calls : List Call) (h : .closeCallback ∉ calls) :
    ∃ n, calls.foldlM (fun s call => s.perform thread c r call) s = .ok (s.notified c n) := by
  induction calls generalizing s with
  | nil => exact ⟨0, by rw [notified_zero]; rfl⟩
  | cons k ks ih =>
    obtain ⟨hk, hks⟩ := not_or.1 (fun h' => h (List.mem_cons.2 h'))
    rw [List.foldlM_cons]
    cases k with
    | queueWriteComplete =>
      obtain ⟨n, hn⟩ := ih (s.queueInLoop (s.conns c).loop_ (.writeCompleteCallback c)) hks
      exact ⟨n + 1, by rw [← notified_queue]; exact hn⟩
    | connectionCallback => exact ih s hks
    | messageCallback => exact ih s hks
    | closeCallback => exact absurd rfl hk

/-- A member function that does not call the close callback. -/
theorem enact_plain (s : Network) (r : ConnectResult) {y : Ctx ConnId}
    (h : .closeCallback ∉ y.calls) :
    ∃ n, s.enact r (.ok y) = .ok ((s.put y).notified y.self n) :=
  foldlM_perform (s.put y) y.thread y.self r y.calls h

/-- A member function that ends with the close callback. -/
theorem enact_close (s : Network) (r : ConnectResult) {y : Ctx ConnId}
    (h : y.calls = [.closeCallback]) :
    s.enact r (.ok y) = ((s.put y).record y.self .closed y.thread).removeConnection
      y.thread y.self r := by
  unfold enact
  show y.calls.foldlM _ _ = _
  rw [h, List.foldlM_cons]
  exact bind_pure _

theorem enact_ok {s t : Network} {r : ConnectResult}
    {e : Except TcpConnection.Failure (Ctx ConnId)} (h : s.enact r e = .ok t) :
    ∃ y, e = .ok y := by
  cases e with
  | error f => cases h
  | ok y => exact ⟨y, rfl⟩

/-! ### What a removal does -/

theorem removeConnectionInLoop_ok {s t : Network} {thread : LoopId} {c : ConnId}
    (h : s.removeConnectionInLoop thread c = .ok t) :
    ∃ sv, s.owner = .server sv ∧ thread = baseLoop ∧ (sv.erase (s.conns c).name_).1 = 1 ∧
      t = ((s.setOwner (.server (sv.erase (s.conns c).name_).2)).record c .removed
        thread).queueInLoop (s.conns c).loop_ (.connectDestroyed c) := by
  unfold removeConnectionInLoop at h
  cases ho : s.owner with
  | client cl => rw [ho] at h; cases h
  | destroyed => rw [ho] at h; cases h
  | server sv =>
    rw [ho] at h
    obtain ⟨hth, h⟩ := require_bind_ok.1 h
    obtain ⟨hone, h⟩ := require_bind_ok.1 h
    exact ⟨sv, rfl, hth, hone, (Except.ok.inj h).symm⟩

/-- What the close callback does: the server removes the connection at once, or has its loop do so,
and the client removes it, whatever its connector does next. -/
inductive Removals (s : Network) (thread : LoopId) (c : ConnId) : Network → Prop
  | now {t : Network} (h : s.removeConnectionInLoop thread c = .ok t) : Removals s thread c t
  | later {sv : TcpServer} (ho : s.owner = .server sv) :
      Removals s thread c (s.queueInLoop baseLoop (.removeConnectionInLoop c))
  | client {cl : TcpClient} (ho : s.owner = .client cl) (hth : thread = baseLoop)
      (hloop : baseLoop = (s.conns c).loop_) (hown : cl.connection_ = some c) (k : Connector) :
      Removals s thread c
        (((s.record c .removed thread).queueInLoop baseLoop (.connectDestroyed c)).setOwner
          (.client { cl with connection_ := none, connector_ := k }))

theorem removeConnection_cases {s t : Network} {thread : LoopId} {c : ConnId} {r : ConnectResult}
    (h : s.removeConnection thread c r = .ok t) : s.Removals thread c t := by
  unfold removeConnection at h
  cases ho : s.owner with
  | destroyed => rw [ho] at h; cases h
  | server sv =>
    rw [ho] at h
    simp only at h
    split_ifs at h
    · exact .now h
    · cases h
      exact .later ho
  | client cl =>
    rw [ho] at h
    simp only at h
    obtain ⟨hth, h⟩ := require_bind_ok.1 h
    obtain ⟨hloop, h⟩ := require_bind_ok.1 h
    obtain ⟨hown, h⟩ := require_bind_ok.1 h
    split_ifs at h
    · obtain ⟨k, -, h⟩ := bind_eq_ok.1 h
      cases h
      exact .client ho hth hloop hown k
    · cases h
      exact .client ho hth hloop hown cl.connector_

end Network

end Fppnet
