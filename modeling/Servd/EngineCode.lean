import Servd.Engine
import Servd.TaskReads

/-!
The coroutines that take connections and datagrams and serve them, as they are nested in each
other. The loops are detached; what they await (`read_frame`, `get_or_create`,
`process_command` with the sends in it, `save`) are tasks with frames of their own. They share
what is in `Shared`, and the event loop may run others wherever one of them waits.
-/
namespace Servd.EngineCode

open Transition TaskFrames Coroutine

/-- What `handle_client` and `text_handle_client` keep in their frame. -/
structure Client where
  -- ghost: the number of the connection
  i : Nat
  fd : Fd
  mode : ProtocolMode
  currentSid : UInt64 := noSession

def Client.conn (k : Client) : Conn := { fd := k.fd, mode := k.mode, currentSid := k.currentSid }

/-- Who is served, with the buffer that `start_udp_loop` receives into. -/
inductive Peer
  | client (k : Client)
  | udp (j : Nat) (buffer : Bytes)

namespace Peer

def worker : Peer → Worker
  | .client k => .conn k.i
  | .udp j _ => .udp j

def events : Peer → RequestEvent → List Event
  | .client k => Engine.streamEvents k.i k.conn
  | .udp j _ => Engine.datagramEvents j

end Peer

/-- A buffer that is sent, on the stream of a descriptor or from the UDP socket `j`. -/
inductive Output
  | stream (fd : Fd) (bytes : Bytes)
  | datagram (j : Nat) (bytes : Bytes)
  deriving DecidableEq

/-- What the coroutines share, the kernel's descriptors included. -/
structure Shared where
  sessions : UnorderedMap UInt64 Fd := ∅
  store : InMemorySessionStore := ∅
  activeConnections : Nat := 0
  discovery : DiscoveryConfig := {}
  discoveryEnabled : Bool := false
  -- the descriptors of the connections so far, and whether they are open
  descriptors : List (Fd × Bool) := []
  -- what the random number generators will give, and what will be found where a header has been
  outside : Nat → Answer := fun _ => {}
  -- ghost: what was done
  log : List Event := []

namespace Shared

def isOpen (g : Shared) (fd : Fd) : Prop := (fd, true) ∈ g.descriptors

def drawn (g : Shared) : Shared := { g with outside := fun n => g.outside (n + 1) }

def logged (g : Shared) (evs : List Event) : Shared := { g with log := g.log ++ evs }

end Shared

/-- The descriptor that `accept` returns depends on what is open, and is not open. -/
structure Kernel where
  accept : Int → List (Fd × Bool) → Fd
  fresh : ∀ res descriptors, (accept res descriptors, true) ∉ descriptors

/-- What the coroutines return. -/
structure Value where
  read : TaskReads.Value := {}
  res : Int := 0
  session : Session := { id := 0 }
  request : Option Request := none

instance : Inhabited Value := ⟨{}⟩

abbrev Outcome := Except Exc Value

/-- What a completion brings; an operation takes the component that is its own. -/
structure Result where
  recv : Completion := .recv []
  res : Int := 0
  answer : Answer := {}
  notified : Except Exc Unit := .ok ()

inductive Operation
  | recv (r : TaskReads.Recv)
  | recvmsg
  | send (out : Output)
  | accept
  -- what application code waits for
  | application
  -- the thread pool's `post_coroutine`
  | post

/-- The points where the coroutines begin and where they go on. -/
inductive Code
  | init (accepting : List ProtocolMode) (udpLoops : List Nat)
  | startAcceptLoop (mode : ProtocolMode)
  | acceptGot (mode : ProtocolMode) (outcome : Outcome)
  | handleClient (fd : Fd) (mode : ProtocolMode)
  | startUdpLoop (j : Nat)
  | frameGot (peer : Peer) (outcome : Outcome)
  | getOrCreate (sessionId : UInt64)
  | sessionGot (peer : Peer) (frame : ClientFrame) (outcome : Outcome)
  | processCommand (peer : Peer) (req : Request)
  | operationGot (peer : Peer) (req : Request) (a : Answer)
  | commandDone (peer : Peer) (outcome : Outcome)
  | save (peer : Peer) (req : Request)
  | saved (peer : Peer) (outcome : Outcome)
  | callbackDone (k : Client) (result : Except Exc Unit)
  | read (c : TaskReads.Code)
  | asyncRecvmsg
  | asyncRecvmsgGot (c : Completion)
  | asyncAccept
  | asyncWrite (fd : Fd) (bytes : Bytes)
  | asyncSendto (j : Nat) (bytes : Bytes)
  | operationDone (res : Int)
  | sendFrame (peer : Peer) (header : FrameHeader) (payload : Bytes)
  | sent (outcome : Outcome)

abbrev EngineInstr := Instr Code Operation Result Value Exc

def liftRead : TaskReads.ReadInstr → EngineInstr
  | .coReturn v => .coReturn { read := v }
  | .throw e => .throw e
  | .operation o k => .operation (.recv o) fun r => .read (k r.recv)
  | .await task k => .await (.read task) fun outcome => .read (k (outcome.map (·.read)))
  | .detach task rest => .detach (.read task) (.read rest)

/-- What a caller does that has nothing left to do itself. -/
def passOn : Outcome → EngineInstr
  | .ok v => .coReturn v
  | .error e => .throw e

/-- The beginning of a turn of the loop. -/
def Peer.loop : Peer → EngineInstr
  | .client k =>
      .await (.read (match k.mode with
        | .binary => .readFrame k.fd
        | .text => .readTextFrame k.fd)) (.frameGot (.client k))
  | .udp j buffer => .await .asyncRecvmsg (.frameGot (.udp j buffer))

/-- `async_recvmsg` returns a `size_t`; its bytes are in the buffer. -/
def Peer.received (peer : Peer) (v : Value) : Peer × Option ClientFrame :=
  match peer with
  | .client k => (.client k, some v.read.frame)
  | .udp j buffer =>
      let buffer := store buffer 0 v.read.data
      (.udp j buffer, decodeDatagram buffer (v.read.bytes % 2 ^ 64).toNat)

/-- The `send_frame` of the peer's connection, from its buffer on. -/
def Peer.send : Peer → FrameHeader → Bytes → Code
  | .client k, header, payload => .asyncWrite k.fd (encodeFrame k.mode header payload)
  | .udp j _, header, payload => .asyncSendto j (binaryFrame header payload)

/-- What the `send_frame` of a header has come to. -/
def sentAnswer (header : FrameHeader) : Outcome → Answer
  | .ok _ => { staleHeader := header }
  | .error (.std what) => { sent := .error what, staleHeader := header }
  | .error .other => { sent := .error "", staleHeader := header }

/-- How an operation of a request goes on. -/
inductive Kind
  -- at once
  | plain
  | random
  | application
  | pushEvent (payload : Bytes)
  | sendFrame (header : FrameHeader) (payload : Bytes)

def kind : Op → Kind
  | .user (.pushEvent _ data) => .pushEvent data
  | .user .await => .application
  | .sendFrame header payload => .sendFrame header payload
  | .generatePrivate | .genIv => .random
  | .user .session | .user (.setAuthenticated _ _) | .user (.setAesKey _) | .user (.getLocal _)
  | .user (.setLocal _ _) | .enterAuthenticator _ | .enterHandler _ => .plain

/-- The request has got the answer of its operation. -/
def Request.answered (req : Request) (o : Op) (k : o.Ans → Task Unit) (a : Answer) :
    Request × List RequestEvent :=
  let r := answerOp req.state a o
  ({ req with
    state := r.2.1
    task := k r.1
    answers := req.answers ++ [a]
    events := req.events ++ r.2.2 }, r.2.2)

/-- `process_command` up to where it waits or ends; `task` is what is left of the request. -/
def processTurn (peer : Peer) : Task Unit → Request → Shared → Shared × EngineInstr
  | .ret (), req, g => (g, .coReturn { request := some req })
  | .throw e, _, g => (g, .throw e)
  | .call o k, req, g =>
      match kind o with
      | .plain =>
          let r := Request.answered req o k {}
          processTurn peer (k (answerOp req.state {} o).1) r.1
            (g.logged (r.2.flatMap peer.events))
      | .random =>
          let r := Request.answered req o k (g.outside 0)
          processTurn peer (k (answerOp req.state (g.outside 0) o).1) r.1
            (g.drawn.logged (r.2.flatMap peer.events))
      | .application => (g, .operation .application fun r => .operationGot peer req r.answer)
      | .pushEvent payload =>
          -- the awaited `send_frame` finds something else where its header has been
          let header := (g.outside 0).staleHeader
          (g.drawn, .await (.sendFrame peer header payload) fun outcome =>
            .operationGot peer req (sentAnswer header outcome))
      | .sendFrame header payload =>
          (g, .await (.sendFrame peer header payload) fun outcome =>
            .operationGot peer req (sentAnswer header outcome))

section Next

variable (srv : Server) (kernel : Kernel) (names : CommandNames) (g : Shared)

/-- The end of `handle_client` and `text_handle_client`. -/
def closeClient (k : Client) : Shared × EngineInstr :=
  let active := Engine.decrement g.activeConnections
  let reenable := 0 < srv.maxClients ∧ active < srv.maxClients ∧ ¬ g.discovery.respondToClients
  ({ g with
    activeConnections := active
    discovery := { g.discovery with
      respondToClients := if reenable then true else g.discovery.respondToClients }
    discoveryEnabled := if reenable then true else g.discoveryEnabled
    descriptors := g.descriptors.set k.i (k.fd, false)
    log := g.log ++ [.closed k.fd] }, .coReturn {})

/-- What follows the loop of a connection. -/
def leaveLoop (k : Client) : Shared × EngineInstr :=
  let g := { g with sessions := Engine.leaveSession g.sessions k.conn }
  if Engine.notifies srv k.conn then
    if srv.threadPool then (g, .operation .post fun r => .callbackDone k r.notified)
    else
      (g, .throw (.std "ThreadPool not enabled. Call enable_thread_pool() before init()."))
  else closeClient srv g k

/-- The `catch` of the loops: a client's loop is left, a UDP socket's goes on. -/
def caught (peer : Peer) (e : Exc) : Shared × EngineInstr :=
  if e.isStd then
    match peer with
    | .client k => leaveLoop srv g k
    | .udp _ _ => (g, peer.loop)
  else (g, .throw e)

def next : Code → Shared × EngineInstr
  | .init (mode :: accepting) udpLoops =>
      (g, .detach (.startAcceptLoop mode) (.init accepting udpLoops))
  | .init [] (j :: udpLoops) => (g, .detach (.startUdpLoop j) (.init [] udpLoops))
  | .init [] [] => (g, .coReturn {})
  | .startAcceptLoop mode => (g, .await .asyncAccept (.acceptGot mode))
  | .acceptGot mode (.ok v) =>
      let fd := kernel.accept v.res g.descriptors
      if 0 < srv.maxClients ∧ srv.maxClients ≤ g.activeConnections then
        ({ g with
          discovery := { g.discovery with respondToClients := false }
          discoveryEnabled := false
          log := g.log ++ [.closed fd] }, .await .asyncAccept (.acceptGot mode))
      else (g, .detach (.handleClient fd mode) (.startAcceptLoop mode))
  | .acceptGot mode (.error e) =>
      (g, if e.isStd then .await .asyncAccept (.acceptGot mode) else .throw e)
  | .handleClient fd mode =>
      ({ g with
        activeConnections := g.activeConnections + 1
        descriptors := g.descriptors ++ [(fd, true)] },
        (Peer.client ⟨g.descriptors.length, fd, mode, noSession⟩).loop)
  | .startUdpLoop j => (g, (Peer.udp j (List.replicate 65536 0)).loop)
  | .frameGot peer (.ok v) =>
      match peer.received v with
      | (peer, none) => (g, peer.loop)
      | (peer, some frame) =>
          (g, .await (.getOrCreate frame.header.sessionId) (.sessionGot peer frame))
  | .frameGot peer (.error e) => caught srv g peer e
  | .getOrCreate sessionId =>
      let loaded := g.store.getOrCreate sessionId
      ({ g with store := loaded.2 }, .coReturn { session := loaded.1 })
  | .sessionGot (.client k) frame (.ok v) =>
      let sid := frame.header.sessionId
      let peer := Peer.client { k with currentSid := sid }
      ({ g with sessions := Engine.selectSession g.sessions k.conn sid },
        .await (.processCommand peer (.start srv frame .tcp v.session)) (.commandDone peer))
  | .sessionGot (.udp j buffer) frame (.ok v) =>
      let peer := Peer.udp j buffer
      (g, .await (.processCommand peer (.start srv frame .udp v.session)) (.commandDone peer))
  | .sessionGot peer _ (.error e) => caught srv g peer e
  | .processCommand peer req => processTurn peer req.task req g
  | .operationGot peer req a =>
      match req.advance a with
      | some (req, es) => processTurn peer req.task req (g.logged (es.flatMap peer.events))
      | none => (g, .coReturn { request := some req })
  | .commandDone peer (.ok v) =>
      match v.request with
      | some req => (g, .await (.save peer req) (.saved peer))
      | none => (g, peer.loop)
  | .commandDone peer (.error e) => caught srv g peer e
  | .save peer req =>
      ({ g with
        store := g.store.save req.state.session
        log := g.log ++ [.saved peer.worker req] }, .coReturn {})
  | .saved peer (.ok _) => (g, peer.loop)
  | .saved peer (.error e) => caught srv g peer e
  | .callbackDone k (.ok ()) => closeClient srv g k
  | .callbackDone _ (.error e) => (g, .throw e)
  | .read c => (g, liftRead (TaskReads.instr names c))
  | .asyncRecvmsg => (g, .operation .recvmsg fun r => .asyncRecvmsgGot r.recv)
  | .asyncRecvmsgGot c => (g, passOn ((TaskReads.asyncReadGot c).map fun v => { read := v }))
  | .asyncAccept => (g, .operation .accept fun r => .operationDone r.res)
  | .asyncWrite fd bytes =>
      (g, .operation (.send (.stream fd bytes)) fun r => .operationDone r.res)
  | .asyncSendto j bytes =>
      (g, .operation (.send (.datagram j bytes)) fun r => .operationDone r.res)
  | .operationDone res => (g, passOn ((awaitResume res).map fun res => { res := res }))
  | .sendFrame peer header payload => (g, .await (peer.send header payload) .sent)
  | .sent outcome => (g, passOn outcome)

end Next

/-! What goes out. -/

/-- The buffer of an event. -/
def outputOf : Event → Option Output
  | .wrote _ _ fd bytes => some (.stream fd bytes)
  | .sentDatagram j bytes => some (.datagram j bytes)
  | .request _ _ | .saved _ _ | .closed _ | .discoveryReply _ | .announced _ => none

def outputs (evs : List Event) : List Output := evs.filterMap outputOf

/-- A buffer has gone out unless its operation has failed. -/
def wentOut {α : Type} (out : Output) : Except Exc α → List Output
  | .ok _ => [out]
  | .error _ => []

/-- What has gone out when the operation completes. -/
def Operation.output : Operation → Result → List Output
  | .send out, r => wentOut out (awaitResume r.res)
  | .recv _, _ | .recvmsg, _ | .accept, _ | .application, _ | .post, _ => []

/-- The buffers of the operations that have completed, in this order. -/
def sentOf (b : Books Operation Result Value Exc) : List Output :=
  b.taken.flatMap fun x => x.2.1.output x.2.2

end Servd.EngineCode
