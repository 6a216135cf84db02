import Servd.ClientHandlers
import Servd.Requests

/-!
The effects of a single step of the engine. A step of a connection does to the state that
all coroutines share what its effects say, and emits the requests among them.
-/
namespace Servd

open Coroutine

def Effect.requestEvent : Effect → Option RequestEvent
  | .request e => some e
  | .counted | .loaded _ | .unregistered _ | .registered _ | .dispatched _ | .saved _
  | .disconnected _ | .closed | .uncounted | .discoveryResumed => none

def requestEffects (es : List Effect) : List RequestEvent := es.filterMap Effect.requestEvent

@[simp] theorem requestEffects_append (es fs : List Effect) :
    requestEffects (es ++ fs) = requestEffects es ++ requestEffects fs :=
  List.filterMap_append

@[simp] theorem requestEffects_request (es : List RequestEvent) :
    requestEffects (es.map .request) = es := by
  rw [requestEffects, List.filterMap_map]
  exact List.filterMap_some

@[simp] theorem requestEffects_select (currentSid sid : UInt64) :
    requestEffects (selectEffects currentSid sid) = [] := by
  unfold selectEffects
  split
  · split <;> rfl
  · rfl

@[simp] theorem requestEffects_leave (currentSid : UInt64) :
    requestEffects (leaveEffects currentSid) = [] := by
  unfold leaveEffects
  split <;> rfl

@[simp] theorem requestEffects_close (srv : Server) (script : ClientScript) :
    requestEffects (closeEffects srv script) = [] := by
  unfold closeEffects
  simp only
  split <;> rfl

namespace Engine

/-- The call of the store from which an exception comes. -/
def failedCall : Phase → List Effect
  | .loading f => [.loaded f.header.sessionId]
  | .processing req =>
      match req.task with
      | .ret _ => [.saved req.state.session]
      | .throw _ | .call _ _ => []
  | .reading | .notifying | .ended => []

/-- The effects of a step inside the body of a loop; `select` is the update of the registry. -/
def turnEffects (select : UInt64 → List Effect) : Phase → Act → List Effect
  | .loading f, .load =>
      .loaded f.header.sessionId :: select f.header.sessionId ++ [.dispatched f]
  | .processing req, .progress a => ((req.advance a).elim [] (·.2)).map .request
  | .processing req, .save => [.saved req.state.session]
  | p, .fail _ => failedCall p
  | _, _ => []

theorem turnEffects_fail (select : UInt64 → List Effect) (p : Phase) (e : Exc) :
    turnEffects select p (.fail e) = failedCall p := by
  cases p <;> rfl

/-- The end of a connection's coroutine, as it finds the counter and the discovery setting. -/
def endEffects (srv : Server) (s : Engine) : List Effect :=
  closeEffects srv
    { arrivals := []
      activeConnections := s.activeConnections
      respondToClients := s.discovery.respondToClients }

/-- The effects of a step of a connection's coroutine. -/
def connEffects (srv : Server) (s : Engine) (c : Conn) (act : Act) : List Effect :=
  turnEffects (selectEffects c.currentSid) c.phase act ++
    match act with
    | .fail e =>
        if e.isStd then
          leaveEffects c.currentSid ++ if notifies srv c then [] else endEffects srv s
        else []
    | .notified result =>
        .disconnected c.currentSid :: if result.toBool then endEffects srv s else []
    | .frame _ | .load | .progress _ | .save => []

section Effects

variable (srv : Server) (s : Engine) {c : Conn} {e : Exc}

theorem connEffects_frame {f : ClientFrame} (hp : c.phase = .reading) :
    connEffects srv s c (.frame f) = [] := by
  simp [connEffects, turnEffects, hp]

theorem connEffects_load {f : ClientFrame} (hp : c.phase = .loading f) :
    connEffects srv s c .load = [.loaded f.header.sessionId] ++
      selectEffects c.currentSid f.header.sessionId ++ [.dispatched f] := by
  simp [connEffects, turnEffects, hp]

theorem connEffects_progress {req req' : Request} {a : Answer} {es : List RequestEvent}
    (hp : c.phase = .processing req) (ha : req.advance a = some (req', es)) :
    connEffects srv s c (.progress a) = es.map .request := by
  simp [connEffects, turnEffects, hp, ha]

theorem connEffects_save {req : Request} (hp : c.phase = .processing req) :
    connEffects srv s c .save = [.saved req.state.session] := by
  simp [connEffects, turnEffects, hp]

theorem connEffects_leave (he : e.isStd = true) (hn : ¬ notifies srv c) :
    connEffects srv s c (.fail e) =
      failedCall c.phase ++ (leaveEffects c.currentSid ++ endEffects srv s) := by
  simp [connEffects, turnEffects, he, hn]

theorem connEffects_notify (he : e.isStd = true) (hn : notifies srv c) :
    connEffects srv s c (.fail e) = failedCall c.phase ++ leaveEffects c.currentSid := by
  simp [connEffects, turnEffects, he, hn]

theorem connEffects_escape (he : ¬ e.isStd = true) :
    connEffects srv s c (.fail e) = failedCall c.phase := by
  simp [connEffects, turnEffects, he]

theorem connEffects_notified (c : Conn) :
    connEffects srv s c (.notified (.ok ())) = .disconnected c.currentSid :: endEffects srv s := by
  simp [connEffects, turnEffects, Except.toBool]

theorem connEffects_notifyFailed (c : Conn) (e : Exc) :
    connEffects srv s c (.notified (.error e)) = [.disconnected c.currentSid] := by
  simp [connEffects, turnEffects, Except.toBool]

end Effects

/-- What an effect of the connection on the descriptor does to the state that all coroutines share.
What becomes of the store is the store's own answer. -/
def applyEffect (fd : Fd) (s : Engine) : Effect → Engine
  | .counted => { s with activeConnections := s.activeConnections + 1 }
  | .unregistered sid => { s with sessions := unregisterSession s.sessions sid }
  | .registered sid => { s with sessions := registerSession s.sessions sid fd }
  | .uncounted => { s with activeConnections := decrement s.activeConnections }
  | .discoveryResumed =>
      { s with
        discovery := { s.discovery with respondToClients := true }
        discoveryEnabled := true }
  | .loaded _ | .dispatched _ | .request _ | .saved _ | .disconnected _ | .closed => s

def applyEffects (fd : Fd) (s : Engine) (es : List Effect) : Engine := es.foldl (applyEffect fd) s

section Apply

variable {srv : Server} {s s' : Engine} {i : Nat} {c : Conn} {act : Act} {evs : List Event}

theorem applyEffects_append (fd : Fd) (s : Engine) (es es' : List Effect) :
    applyEffects fd s (es ++ es') = applyEffects fd (applyEffects fd s es) es' :=
  List.foldl_append

theorem applyEffects_request (fd : Fd) (s : Engine) (es : List RequestEvent) :
    applyEffects fd s (es.map .request) = s := by
  induction es with
  | nil => rfl
  | cons e es ih => exact ih

theorem applyEffects_select (s : Engine) (c : Conn) (sid : UInt64) :
    applyEffects c.fd s (selectEffects c.currentSid sid) =
      { s with sessions := selectSession s.sessions c sid } := by
  unfold selectEffects selectSession
  split
  · split <;> rfl
  · rfl

theorem applyEffects_leave (fd : Fd) (s : Engine) (c : Conn) :
    applyEffects fd s (leaveEffects c.currentSid) =
      { s with sessions := leaveSession s.sessions c } := by
  unfold leaveEffects leaveSession
  split <;> rfl

theorem applyEffects_failedCall (fd : Fd) (s : Engine) (p : Phase) :
    applyEffects fd s (failedCall p) = s := by
  cases p with
  | processing req => cases ht : req.task <;> simp [failedCall, ht] <;> rfl
  | reading | loading f | notifying | ended => rfl

theorem applyEffects_end (srv : Server) (fd : Fd) (s : Engine) (i : Nat) (c : Conn) :
    ∃ c', finish srv s i c = { applyEffects fd s (endEffects srv s) with
      conns := s.conns.set i c', store := s.store } := by
  refine ⟨{ c with phase := .ended, closes := c.closes + 1, decrements := c.decrements + 1 }, ?_⟩
  unfold finish endEffects closeEffects
  simp only
  split <;> rfl

/-- A step of a connection does to the shared state what its effects say. -/
theorem ConnStep.applies (h : ConnStep srv s i c act s' evs) :
    ∃ c' store, s' = { applyEffects c.fd s (connEffects srv s c act) with
      conns := s.conns.set i c', store := store } := by
  cases h with
  | frame f hp =>
      rw [connEffects_frame srv s hp]
      exact ⟨_, s.store, rfl⟩
  | load f hp =>
      have hshared : applyEffects c.fd s (connEffects srv s c .load) =
          { s with sessions := selectSession s.sessions c f.header.sessionId } := by
        rw [connEffects_load srv s hp, applyEffects_append, applyEffects_append]
        exact applyEffects_select s c f.header.sessionId
      rw [hshared]
      exact ⟨_, _, rfl⟩
  | progress a req req' es hp ha =>
      rw [connEffects_progress srv s hp ha, applyEffects_request]
      exact ⟨_, s.store, rfl⟩
  | save req hp ht =>
      rw [connEffects_save srv s hp]
      exact ⟨_, _, rfl⟩
  | leave e hf he hn =>
      rw [connEffects_leave srv s he hn, applyEffects_append, applyEffects_failedCall,
        applyEffects_append, applyEffects_leave]
      obtain ⟨c', hend⟩ := applyEffects_end srv c.fd
        { s with sessions := leaveSession s.sessions c } i c
      exact ⟨c', s.store, hend⟩
  | notify e hf he hn hpool | noPool e hf he hn hpool =>
      rw [connEffects_notify srv s he hn, applyEffects_append, applyEffects_failedCall,
        applyEffects_leave]
      exact ⟨_, s.store, rfl⟩
  | escape e hf he =>
      rw [connEffects_escape srv s he, applyEffects_failedCall]
      exact ⟨_, s.store, rfl⟩
  | notified hp =>
      rw [connEffects_notified]
      obtain ⟨c', hend⟩ := applyEffects_end srv c.fd s i c
      exact ⟨c', s.store, hend⟩
  | notifyFailed e hp =>
      rw [connEffects_notifyFailed]
      exact ⟨_, s.store, rfl⟩

theorem requestEffects_failedCall (p : Phase) : requestEffects (failedCall p) = [] := by
  cases p with
  | processing req => cases ht : req.task <;> simp [failedCall, ht] <;> rfl
  | reading | loading f | notifying | ended => rfl

/-- It emits what its effects say. -/
theorem ConnStep.emits (h : ConnStep srv s i c act s' evs) :
    requestEvents (.conn i) evs = requestEffects (connEffects srv s c act) := by
  cases h with
  | frame f hp =>
      rw [connEffects_frame srv s hp]
      rfl
  | load f hp =>
      rw [connEffects_load srv s hp, requestEffects_append, requestEffects_append,
        requestEffects_select]
      rfl
  | progress a req req' es hp ha =>
      rw [connEffects_progress srv s hp ha, requestEffects_request]
      exact (turnEvents_stream i c es).own
  | save req hp ht =>
      rw [connEffects_save srv s hp]
      rfl
  | leave e hf he hn =>
      rw [connEffects_leave srv s he hn, requestEffects_append, requestEffects_append,
        requestEffects_failedCall, requestEffects_leave, endEffects, requestEffects_close]
      rfl
  | notify e hf he hn hpool | noPool e hf he hn hpool =>
      rw [connEffects_notify srv s he hn, requestEffects_append, requestEffects_failedCall,
        requestEffects_leave]
      rfl
  | escape e hf he =>
      rw [connEffects_escape srv s he, requestEffects_failedCall]
      rfl
  | notified hp =>
      rw [connEffects_notified]
      exact (requestEffects_close srv _).symm
  | notifyFailed e hp =>
      rw [connEffects_notifyFailed]
      rfl

end Apply

end Engine

end Servd
