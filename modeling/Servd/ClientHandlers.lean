import Servd.Engine

/-!
The coroutines that serve clients, each as a whole run. The transition system of the
engine takes them apart at every point where another coroutine may run; here a
coroutine is a function of everything it is given from outside, and its value is the
list of its effects. The store is any store: what it answers is given with each frame.
-/
namespace Servd

open Coroutine

/-- What the outside supplies in one turn of a request loop: the frame that is read, what
`get_or_create` answers, the answers to the operations `process_command` waits for, in their
order, and what `save` answers. -/
structure Arrival where
  frame : ClientFrame
  loaded : Except Exc Session
  answers : Nat → Answer := fun _ => {}
  saved : Except Exc Unit := .ok ()

/-- What is done to the rest of the server, in this order. -/
inductive Effect
  -- `++active_connections_`
  | counted
  -- `get_or_create` is called
  | loaded (sessionId : UInt64)
  | unregistered (sessionId : UInt64)
  | registered (sessionId : UInt64)
  -- `process_command` is called
  | dispatched (frame : ClientFrame)
  | request (e : RequestEvent)
  -- `save` is called
  | saved (session : Session)
  -- the disconnect callback is called
  | disconnected (sessionId : UInt64)
  | closed
  -- `--active_connections_`
  | uncounted
  -- `respond_to_clients = true` and `reenable_discovery()`
  | discoveryResumed

namespace Arrival

def sessionId (a : Arrival) : UInt64 := a.frame.header.sessionId

/-- The run of `process_command` on the session that was loaded. -/
def processed (srv : Server) (transport : TransportType) (a : Arrival) (session : Session) :
    Execution RequestState Exc Unit RequestEvent :=
  exec requestSem (srv.processCommand a.frame transport) (.start session) a.answers

/-- What the bodies of the three loops have in common: load the session, process the frame, save
the session. A stream connection updates the registry in between. -/
def serve (srv : Server) (transport : TransportType) (select : List Effect) (a : Arrival) :
    List Effect × Except Exc Unit :=
  match a.loaded with
  | .error e => ([.loaded a.sessionId], .error e)
  | .ok session =>
      let run := a.processed srv transport session
      let effects := .loaded a.sessionId :: select ++ .dispatched a.frame ::
        run.events.map .request
      match run.result with
      | .error e => (effects, .error e)
      | .ok () => (effects ++ [.saved run.state.session], a.saved)

/-- The value of `current_sid` after the turn. -/
def currentSid (a : Arrival) (currentSid : UInt64) : UInt64 :=
  match a.loaded with
  | .error _ => currentSid
  | .ok _ => a.sessionId

end Arrival

/-- The update of the registry when a frame selects a session. -/
def selectEffects (currentSid sessionId : UInt64) : List Effect :=
  if sessionId ≠ currentSid then
    (if currentSid ≠ 0 then [.unregistered currentSid] else []) ++ [.registered sessionId]
  else []

/-- The `while` loop that `handle_client` and `text_handle_client` both have: its effects, and the
value of `current_sid` with which it is left. After the last frame it is left because the read
throws, or because `running` is false. An exception that is no `std::exception` leaves the
coroutine. -/
def clientLoop (srv : Server) : UInt64 → List Arrival → List Effect × Option UInt64
  | currentSid, [] => ([], some currentSid)
  | currentSid, a :: arrivals =>
      let turn := a.serve srv .tcp (selectEffects currentSid a.sessionId)
      match turn.2 with
      | .ok () =>
          let rest := clientLoop srv (a.currentSid currentSid) arrivals
          (turn.1 ++ rest.1, rest.2)
      | .error (.std _) => (turn.1, some (a.currentSid currentSid))
      | .error .other => (turn.1, none)

/-- What the outside supplies to the coroutine of a stream connection: the frames up to the end of
the stream, how the disconnect callback ends on the thread pool, and the connection counter and
`respond_to_clients` as the end of the coroutine finds them. -/
structure ClientScript where
  arrivals : List Arrival
  notified : Except Exc Unit := .ok ()
  activeConnections : Nat := 1
  respondToClients : Bool := true

/-- `unregister_session(current_sid)` after the loop. -/
def leaveEffects (currentSid : UInt64) : List Effect :=
  if currentSid ≠ noSession then [.unregistered currentSid] else []

/-- The last lines of both coroutines. -/
def closeEffects (srv : Server) (script : ClientScript) : List Effect :=
  let active := Engine.decrement script.activeConnections
  .closed :: .uncounted ::
    if 0 < srv.maxClients ∧ active < srv.maxClients ∧ ¬ script.respondToClients then
      [.discoveryResumed]
    else []

/-- With no thread pool, `thread_pool()` throws outside any `try` block and the coroutine ends
there; so it does if the callback throws. -/
def handleClient (srv : Server) (script : ClientScript) : List Effect :=
  let loop := clientLoop srv noSession script.arrivals
  .counted :: loop.1 ++
    match loop.2 with
    | none => []
    | some currentSid =>
        leaveEffects currentSid ++
          if srv.disconnectHandler ∧ currentSid ≠ noSession then
            if srv.threadPool then
              match script.notified with
              | .ok () => .disconnected currentSid :: closeEffects srv script
              | .error _ => [.disconnected currentSid]
            else []
          else closeEffects srv script

def textHandleClient (srv : Server) (script : ClientScript) : List Effect :=
  let loop := clientLoop srv noSession script.arrivals
  .counted :: loop.1 ++
    match loop.2 with
    | none => []
    | some currentSid => leaveEffects currentSid ++ closeEffects srv script

/-- The frames are those that `decodeDatagram` finds; a `std::exception` ends the turn of its own
datagram only. -/
def startUdpLoop (srv : Server) : List Arrival → List Effect
  | [] => []
  | a :: arrivals =>
      let turn := a.serve srv .udp []
      match turn.2 with
      | .ok () | .error (.std _) => turn.1 ++ startUdpLoop srv arrivals
      | .error .other => turn.1

namespace Arrival

/-- How the turn of the frame ends; this does not depend on the turns before it. -/
def outcome (srv : Server) (transport : TransportType) (a : Arrival) : Except Exc Unit :=
  match a.loaded with
  | .error e => .error e
  | .ok session =>
      match (a.processed srv transport session).result with
      | .error e => .error e
      | .ok () => a.saved

def loads (a : Arrival) : Bool := a.loaded.toBool

theorem serve_snd (srv : Server) (transport : TransportType) (select : List Effect)
    (a : Arrival) : (a.serve srv transport select).2 = a.outcome srv transport := by
  unfold serve outcome
  cases a.loaded with
  | error e => rfl
  | ok session =>
      cases h : (a.processed srv transport session).result <;> simp [h]

end Arrival

/-- The frames up to the first whose turn ends with an exception. -/
def reached (srv : Server) : List Arrival → List Arrival
  | [] => []
  | a :: arrivals =>
      a :: match a.outcome srv .tcp with
        | .ok () => reached srv arrivals
        | .error _ => []

/-- An exception that no loop catches leaves the coroutine. -/
def Escapes (srv : Server) (arrivals : List Arrival) : Prop :=
  ∃ a ∈ reached srv arrivals, a.outcome srv .tcp = .error .other

instance (srv : Server) (arrivals : List Arrival) : Decidable (Escapes srv arrivals) :=
  inferInstanceAs (Decidable (∃ a ∈ reached srv arrivals, _))

/-- The session id of the last frame whose session was loaded. -/
def lastLoaded (srv : Server) (arrivals : List Arrival) : Option UInt64 :=
  (((reached srv arrivals).filter (·.loads)).getLast?).map (·.sessionId)

end Servd
