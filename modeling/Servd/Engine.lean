import Servd.Lib.Transition
import Servd.CommandRoute

/-!
The event loop as a transition system. Every coroutine of the engine is a record
with the point at which it is suspended: one for each accepted connection, one for
each UDP socket and one for each broadcast that has been started. A label resumes
one of them, or is an event from outside (an accepted descriptor, a call of the
application); between two labels any other coroutine may run.

The fields marked as ghost are not in the program. They count what has happened to
a connection, or remember what a request was given, and no step reads them. The calls of
the logger are left out: they throw nothing as long as its column is at least two wide
(`log_throws_iff`). A send that completes without an error counts as a write of the whole
frame, as no sender looks at the number of bytes taken.
-/
namespace Servd

open Coroutine

/-- `static_cast<uint64_t>(-1)`. -/
def noSession : UInt64 := 0xFFFFFFFFFFFFFFFF

/-- A request between the load of its session and the save. -/
structure Request where
  frame : ClientFrame
  -- ghost: the copy of the session as it was loaded
  loaded : Session
  -- ghost: the answers consumed so far
  answers : List Answer
  -- ghost: what happened so far
  events : List RequestEvent
  state : RequestState
  task : Task Unit

namespace Request

def start (srv : Server) (frame : ClientFrame) (transport : TransportType) (session : Session) :
    Request :=
  ⟨frame, session, [], [], .start session, srv.processCommand frame transport⟩

def advance (req : Request) (a : Answer) : Option (Request × List RequestEvent) :=
  (Coroutine.advance requestSem req.state req.task a).map fun (state, task, es) =>
    ({ req with
        state := state, task := task, answers := req.answers ++ [a], events := req.events ++ es },
      es)

end Request

/-- Where the coroutine that serves a connection or a UDP socket is suspended. -/
inductive Phase
  | reading
  | loading (frame : ClientFrame)
  | processing (req : Request)
  | notifying
  | ended

def Phase.loadingFrame : Phase → Option ClientFrame
  | .loading f => some f
  | .reading | .processing _ | .notifying | .ended => none

def Phase.request : Phase → Option Request
  | .processing req => some req
  | .reading | .loading _ | .notifying | .ended => none

structure Conn where
  fd : Fd
  mode : ProtocolMode
  currentSid : UInt64 := noSession
  phase : Phase := .reading
  -- ghost: the session id of the latest frame whose session has been loaded
  latest : Option UInt64 := none
  -- ghost: calls of `close` on the descriptor
  closes : Nat := 0
  -- ghost: decrements of the connection counter
  decrements : Nat := 0

namespace Conn

def isOpen (c : Conn) : Prop := c.closes = 0

def isLive (c : Conn) : Bool :=
  match c.phase with
  | .reading | .loading _ | .processing _ => true
  | .notifying | .ended => false

def hasEnded (c : Conn) : Bool :=
  match c.phase with
  | .ended => true
  | _ => false

instance (c : Conn) : Decidable c.isOpen := inferInstanceAs (Decidable (_ = _))

end Conn

/-- Where a broadcast is suspended: in a write, in `get_or_create` before or after the
record was read, or nowhere any more. -/
inductive CastStage
  | writing
  | fetching
  | fetched (session : Session)
  | done

/-- A running `do_broadcast`, or `do_broadcast_if` when there is a predicate. `rest` is the
part of the snapshot that has not been served; while a record is being fetched its head is
the entry it is fetched for. -/
structure Cast where
  commandId : UInt16
  payload : Bytes
  predicate : Option (Session → Bool)
  rest : List (UInt64 × Fd)
  stage : CastStage

structure DiscoveryPacket where
  magicNumber : UInt32
  action : UInt8
  tcpPort : Int32
  udpPort : Int32
  deriving DecidableEq

structure SockAddr where
  ip : UInt32
  port : UInt16

/-- The application's edit of a reply; it may throw. -/
abbrev DiscoveryResponder := SockAddr → DiscoveryPacket → Except Exc DiscoveryPacket

structure DiscoveryConfig where
  broadcastPort : UInt16 := 9999
  magicNumber : UInt32 := 0x53525644
  respondToClients : Bool := true
  activeAnnounceIfIdle : Nat := 0
  advertisedTcpPort : UInt16 := 0
  advertisedUdpPort : UInt16 := 0
  onDiscoveryRequest : Option DiscoveryResponder := none

def clientLookingForServer : UInt8 := 0x01

def serverAnnouncing : UInt8 := 0x02

structure Engine where
  conns : List Conn := []
  udpLoops : List Phase := []
  sessions : UnorderedMap UInt64 Fd := ∅
  store : InMemorySessionStore := ∅
  activeConnections : Nat := 0
  casts : List Cast := []
  discovery : DiscoveryConfig := {}
  discoveryEnabled : Bool := false
  -- the discovery loop was started and has not ended
  discoveryLoop : Bool := false
  -- the periodic announcement was started
  announceLoop : Bool := false

inductive Worker
  | conn (i : Nat)
  | udp (j : Nat)
  deriving DecidableEq

/-- Both stream connection classes report `TCP`, whatever their listener is. -/
def Worker.transport : Worker → TransportType
  | .conn _ => .tcp
  | .udp _ => .udp

inductive Act
  -- a frame has been read
  | frame (f : ClientFrame)
  -- `get_or_create` returns
  | load
  -- the operation `process_command` waits for is answered
  | progress (a : Answer)
  -- `process_command` has returned and `save` runs
  | save
  -- an exception reaches the loop body: from a read, from the store or out of `process_command`.
  -- Leaving the loop on `running` continues as an exception of a read
  | fail (e : Exc)
  -- the thread pool has run the disconnect callback
  | notified (result : Except Exc Unit)

inductive AppCall
  | enableDiscovery (config : DiscoveryConfig)
  | disableDiscovery
  | reenableDiscovery

inductive Label
  | accept (mode : ProtocolMode) (fd : Fd)
  | work (w : Worker) (act : Act)
  | sendTo (sessionId : UInt64) (commandId : UInt16) (payload : Bytes)
  -- a broadcast starts; `order` is the iteration order of the snapshot
  | broadcast (commandId : UInt16) (payload : Bytes) (predicate : Option (Session → Bool))
      (order : List (UInt64 × Fd))
  | resumeCast (k : Nat) (result : Except Exc Unit)
  | app (call : AppCall)
  | discoveryRequest (client : SockAddr) (req : DiscoveryPacket)
  | announceTick

def Label.request (w : Worker) (f : ClientFrame) : List Label :=
  [.work w (.frame f), .work w .load, .work w .save]

def Label.requestAfter (w : Worker) (f : ClientFrame) (n : Nat) : List Label :=
  [.work w (.frame f), .work w .load] ++ List.replicate n (.work w (.progress {})) ++
    [.work w .save]

inductive Origin
  | reply (i : Nat)
  | sendTo
  | cast (k : Nat)
  deriving DecidableEq

inductive Event
  -- a frame with header session id `sid` is submitted for an open descriptor
  | wrote (origin : Origin) (sid : UInt64) (fd : Fd) (bytes : Bytes)
  | sentDatagram (j : Nat) (bytes : Bytes)
  | request (w : Worker) (e : RequestEvent)
  | saved (w : Worker) (req : Request)
  | closed (fd : Fd)
  | discoveryReply (packet : DiscoveryPacket)
  | announced (packet : DiscoveryPacket)

def Event.isWrite : Event → Bool
  | .wrote _ _ _ _ => true
  | .sentDatagram _ _ | .request _ _ | .saved _ _ | .closed _ | .discoveryReply _
  | .announced _ => false

def Event.isDiscovery : Event → Bool
  | .discoveryReply _ | .announced _ => true
  | .wrote _ _ _ _ | .sentDatagram _ _ | .request _ _ | .saved _ _ | .closed _ => false

namespace Engine

def setConn (s : Engine) (i : Nat) (c : Conn) : Engine :=
  { s with conns := s.conns.set i c }

/-- `sessions_[session_id] = fd`. -/
def registerSession (sessions : UnorderedMap UInt64 Fd) (sessionId : UInt64) (fd : Fd) :
    UnorderedMap UInt64 Fd :=
  sessions.insert sessionId fd

def unregisterSession (sessions : UnorderedMap UInt64 Fd) (sessionId : UInt64) :
    UnorderedMap UInt64 Fd :=
  sessions.erase sessionId

/-- The update of the registry when a frame selects a session. -/
def selectSession (sessions : UnorderedMap UInt64 Fd) (c : Conn) (sessionId : UInt64) :
    UnorderedMap UInt64 Fd :=
  if sessionId ≠ c.currentSid then
    registerSession
      (if c.currentSid ≠ 0 then unregisterSession sessions c.currentSid else sessions)
      sessionId c.fd
  else sessions

def leaveSession (sessions : UnorderedMap UInt64 Fd) (c : Conn) : UnorderedMap UInt64 Fd :=
  if c.currentSid ≠ noSession then unregisterSession sessions c.currentSid else sessions

/-- `--active_connections_` on a `size_t`. -/
def decrement (n : Nat) : Nat := if n = 0 then 2 ^ 64 - 1 else n - 1

def descriptorOpen (s : Engine) (fd : Fd) : Prop := ∃ c ∈ s.conns, c.isOpen ∧ c.fd = fd

instance (s : Engine) (fd : Fd) : Decidable (s.descriptorOpen fd) :=
  inferInstanceAs (Decidable (∃ c ∈ s.conns, c.isOpen ∧ c.fd = fd))

/-- The end of `handle_client` and `text_handle_client`: close, decrement, and resume
discovery if the server has room again. -/
def finish (srv : Server) (s : Engine) (i : Nat) (c : Conn) : Engine :=
  let active := decrement s.activeConnections
  let reenable := 0 < srv.maxClients ∧ active < srv.maxClients ∧ ¬ s.discovery.respondToClients
  { s with
    conns := s.conns.set i
      { c with phase := .ended, closes := c.closes + 1, decrements := c.decrements + 1 }
    activeConnections := active
    discovery := { s.discovery with
      respondToClients := if reenable then true else s.discovery.respondToClients }
    discoveryEnabled := if reenable then true else s.discoveryEnabled }

/-- Only `handle_client` runs the disconnect callback. -/
def notifies (srv : Server) (c : Conn) : Prop :=
  c.mode = .binary ∧ srv.disconnectHandler ∧ c.currentSid ≠ noSession

instance (srv : Server) (c : Conn) : Decidable (notifies srv c) :=
  inferInstanceAs (Decidable (_ ∧ _))

/-- What follows the loop of a connection. With no thread pool, `thread_pool()` throws
outside any `try` block and the coroutine ends there. -/
def teardown (srv : Server) (s : Engine) (i : Nat) (c : Conn) : Engine × List Event :=
  let s' := { s with sessions := leaveSession s.sessions c }
  if notifies srv c then
    if srv.threadPool then (s'.setConn i { c with phase := .notifying }, [])
    else (s'.setConn i { c with phase := .ended }, [])
  else (finish srv s' i c, [.closed c.fd])

/-- An exception `e` can reach the body of the loop in this phase. -/
def canFail : Phase → Exc → Bool
  | .reading, e | .loading _, e => e.isStd
  | .processing req, e =>
      match req.task with
      | .ret _ => e.isStd
      | .throw e' => e' = e
      | .call _ _ => false
  | .notifying, _ | .ended, _ => false

/-- The events of a request on a stream: what the request did, and the bytes it wrote. -/
def streamEvents (i : Nat) (c : Conn) : RequestEvent → List Event
  | .sent h p => [.request (.conn i) (.sent h p),
      .wrote (.reply i) h.sessionId c.fd (encodeFrame c.mode h p)]
  | e => [.request (.conn i) e]

def datagramEvents (j : Nat) : RequestEvent → List Event
  | .sent h p => [.request (.udp j) (.sent h p), .sentDatagram j (binaryFrame h p)]
  | e => [.request (.udp j) e]

def connStep (srv : Server) (s : Engine) (i : Nat) (c : Conn) :
    Act → Option (Engine × List Event)
  | .frame f =>
      match c.phase with
      | .reading => some (s.setConn i { c with phase := .loading f }, [])
      | _ => none
  | .load =>
      match c.phase with
      | .loading f =>
          let sid := f.header.sessionId
          let loaded := s.store.getOrCreate sid
          some ({ s with
            store := loaded.2
            sessions := selectSession s.sessions c sid
            conns := s.conns.set i { c with
              currentSid := sid
              latest := some sid
              phase := .processing (.start srv f .tcp loaded.1) } }, [])
      | _ => none
  | .progress a =>
      match c.phase with
      | .processing req =>
          (req.advance a).map fun (req', es) =>
            (s.setConn i { c with phase := .processing req' }, es.flatMap (streamEvents i c))
      | _ => none
  | .save =>
      match c.phase with
      | .processing req =>
          match req.task with
          | .ret _ =>
              some ({ s with
                store := s.store.save req.state.session
                conns := s.conns.set i { c with phase := .reading } }, [.saved (.conn i) req])
          | _ => none
      | _ => none
  | .fail e =>
      if canFail c.phase e then
        -- anything but a `std::exception` leaves the coroutine, which is detached
        if e.isStd then some (teardown srv s i c)
        else some (s.setConn i { c with phase := .ended }, [])
      else none
  | .notified result =>
      match c.phase, result with
      | .notifying, .ok () => some (finish srv s i c, [.closed c.fd])
      | .notifying, .error _ => some (s.setConn i { c with phase := .ended }, [])
      | _, _ => none

def udpStep (srv : Server) (s : Engine) (j : Nat) (p : Phase) :
    Act → Option (Engine × List Event)
  | .frame f =>
      match p with
      | .reading => some ({ s with udpLoops := s.udpLoops.set j (.loading f) }, [])
      | _ => none
  | .load =>
      match p with
      | .loading f =>
          let loaded := s.store.getOrCreate f.header.sessionId
          some ({ s with
            store := loaded.2
            udpLoops := s.udpLoops.set j (.processing (.start srv f .udp loaded.1)) }, [])
      | _ => none
  | .progress a =>
      match p with
      | .processing req =>
          (req.advance a).map fun (req', es) =>
            ({ s with udpLoops := s.udpLoops.set j (.processing req') },
              es.flatMap (datagramEvents j))
      | _ => none
  | .save =>
      match p with
      | .processing req =>
          match req.task with
          | .ret _ =>
              some ({ s with
                store := s.store.save req.state.session
                udpLoops := s.udpLoops.set j .reading }, [.saved (.udp j) req])
          | _ => none
      | _ => none
  | .fail e =>
      if canFail p e then
        some ({ s with udpLoops := s.udpLoops.set j (if e.isStd then .reading else .ended) }, [])
      else none
  | .notified _ => none

/-- `send_to_session` and the broadcasts write a binary frame straight to a descriptor. The
submission of a descriptor that is not open completes with an error. -/
def submit (s : Engine) (origin : Origin) (sid : UInt64) (fd : Fd) (commandId : UInt16)
    (payload : Bytes) : List Event :=
  if s.descriptorOpen fd then
    [.wrote origin sid fd (binaryFrame ⟨commandId, 0, size32 payload, sid⟩ payload)]
  else []

def nextCast (s : Engine) (k : Nat) (b : Cast) : Cast × List Event :=
  match b.rest with
  | [] => ({ b with stage := .done }, [])
  | (sid, fd) :: rest =>
      match b.predicate with
      | none =>
          ({ b with rest := rest, stage := .writing },
            s.submit (.cast k) sid fd b.commandId b.payload)
      | some _ => ({ b with stage := .fetching }, [])

/-- Resume a broadcast. An exception ends it, whatever it was waiting for. -/
def castStep (s : Engine) (k : Nat) (b : Cast) : Except Exc Unit → Option (Engine × List Event)
  | .error _ =>
      match b.stage with
      | .done => none
      | _ => some ({ s with casts := s.casts.set k { b with stage := .done } }, [])
  | .ok () =>
      match b.stage, b.rest with
      | .writing, _ =>
          let next := s.nextCast k b
          some ({ s with casts := s.casts.set k next.1 }, next.2)
      | .fetching, (sid, _) :: _ =>
          let fetched := s.store.getOrCreate sid
          some ({ s with
            store := fetched.2, casts := s.casts.set k { b with stage := .fetched fetched.1 } }, [])
      | .fetched session, (sid, fd) :: rest =>
          if b.predicate.all (· session) then
            some ({ s with casts := s.casts.set k { b with rest := rest, stage := .writing } },
              s.submit (.cast k) sid fd b.commandId b.payload)
          else
            let next := s.nextCast k { b with rest := rest }
            some ({ s with casts := s.casts.set k next.1 }, next.2)
      | _, _ => none

def appStep (s : Engine) : AppCall → Engine
  | .enableDiscovery config => { s with discovery := config, discoveryEnabled := true }
  | .disableDiscovery => { s with discoveryEnabled := false }
  | .reenableDiscovery => { s with discoveryEnabled := true }

/-- The packet both discovery senders fill in. -/
def discoveryPacket (srv : Server) (cfg : DiscoveryConfig) : DiscoveryPacket where
  magicNumber := cfg.magicNumber
  action := serverAnnouncing
  tcpPort := Int32.ofNat (if cfg.advertisedTcpPort ≠ 0 then cfg.advertisedTcpPort
    else (srv.tcpPorts.head?.map (·.1)).getD 0).toNat
  udpPort := Int32.ofNat (if cfg.advertisedUdpPort ≠ 0 then cfg.advertisedUdpPort
    else srv.udpPorts.head?.getD 0).toNat

def discoveryStep (srv : Server) (s : Engine) (client : SockAddr) (req : DiscoveryPacket) :
    Engine × List Event :=
  if req.magicNumber ≠ s.discovery.magicNumber ∨ req.action ≠ clientLookingForServer ∨
      ¬ s.discovery.respondToClients then (s, [])
  else
    let resp := discoveryPacket srv s.discovery
    match s.discovery.onDiscoveryRequest with
    | none => (s, [.discoveryReply resp])
    | some edit =>
        match edit client resp with
        | .ok resp' => (s, [.discoveryReply resp'])
        | .error (.std _) => (s, [])
        | .error .other => ({ s with discoveryLoop := false }, [])

def step (srv : Server) (s : Engine) : Label → Option (Engine × List Event)
  | .accept mode fd =>
      -- the kernel returns a descriptor that is not open
      if s.descriptorOpen fd then none
      else if 0 < srv.maxClients ∧ srv.maxClients ≤ s.activeConnections then
        some ({ s with
          discovery := { s.discovery with respondToClients := false }
          discoveryEnabled := false }, [.closed fd])
      else
        some ({ s with
          conns := s.conns ++ [{ fd := fd, mode := mode }]
          activeConnections := s.activeConnections + 1 }, [])
  | .work (.conn i) act => s.conns[i]?.bind fun c => s.connStep srv i c act
  | .work (.udp j) act => s.udpLoops[j]?.bind fun p => s.udpStep srv j p act
  | .sendTo sid commandId payload =>
      match s.sessions.lookup sid with
      | none => some (s, [])
      | some fd => some (s, s.submit .sendTo sid fd commandId payload)
  | .broadcast commandId payload predicate order =>
      if order.Perm s.sessions.pairs then
        let k := s.casts.length
        let next := s.nextCast k ⟨commandId, payload, predicate, order, .writing⟩
        some ({ s with casts := s.casts ++ [next.1] }, next.2)
      else none
  | .resumeCast k result => s.casts[k]?.bind fun b => s.castStep k b result
  | .app call => some (s.appStep call, [])
  | .discoveryRequest client req => if s.discoveryLoop then some (s.discoveryStep srv client req)
      else none
  | .announceTick =>
      if s.announceLoop then
        if 0 < s.activeConnections ∨ ¬ s.discoveryEnabled then some (s, [])
        else some (s, [.announced (discoveryPacket srv s.discovery)])
      else none

/-- The engine after `init()`, with the discovery settings made before it. -/
def init (srv : Server) (discovery : DiscoveryConfig) (enabled : Bool) : Engine where
  udpLoops := srv.udpPorts.map fun _ => .reading
  discovery := discovery
  discoveryEnabled := enabled
  discoveryLoop := enabled ∧ discovery.broadcastPort ≠ 0
  announceLoop :=
    enabled ∧ discovery.broadcastPort ≠ 0 ∧ 0 < discovery.activeAnnounceIfIdle

end Engine

end Servd
