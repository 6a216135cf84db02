import Servd.Lib.Coroutine
import Servd.Crypto

/-!
What runs inside one request: the context handed to authenticators and handlers,
the operations application code may perform through it, the operations of the
request pipeline itself, and their meaning on the request's own copy of the
session. Everything an operation needs from outside (the result of a send, random
bytes, what application code waits for) is an answer supplied to it.
-/
namespace Servd

open Coroutine

/-- `std::any`, as far as the property bag can tell values apart. -/
abbrev Any := Bytes

/-- The immutable part of a `Context`; the session and the property bag behind it are the
request's state. -/
structure Context where
  header : FrameHeader
  payload : Bytes
  transport : TransportType
  deriving DecidableEq

/-- What application code can do with a `Context` through the documented members of `Session`,
besides waiting for something else. `session()` returns a reference, so a handler could also
assign a whole other `Session` to it; that is not modelled. -/
inductive UserOp
  | session
  | setAuthenticated (state : Bool) (userIdentifier : String)
  | setAesKey (key : AesKey)
  | getLocal (key : String)
  | setLocal (key : String) (value : Any)
  | pushEvent (eventCommandId : UInt16) (data : Bytes)
  | await

def UserOp.Ans : UserOp → Type
  | .session => Session
  | .setAuthenticated _ _ => Unit
  | .setAesKey _ => Unit
  | .getLocal _ => Option Any
  | .setLocal _ _ => Unit
  | .pushEvent _ _ => Except String Unit
  | .await => Bytes

abbrev UserTask := Coro UserOp UserOp.Ans Exc

abbrev Handler := Context → UserTask ResponseFrame

abbrev IAuthenticator := Context → UserTask Bool

/-- The operations of the request pipeline. Entering application code is one of them, so
that a run shows which calls were made. -/
inductive Op
  | user (u : UserOp)
  | sendFrame (header : FrameHeader) (payload : Bytes)
  | generatePrivate
  | genIv
  | enterAuthenticator (ctx : Context)
  | enterHandler (ctx : Context)

def Op.Ans : Op → Type
  | .user u => u.Ans
  | .sendFrame _ _ => Except String Unit
  | .generatePrivate => Except String (Octets 32)
  | .genIv => Except String (Octets 12)
  | .enterAuthenticator _ => Unit
  | .enterHandler _ => Unit

abbrev Task := Coro Op Op.Ans Exc

def UserTask.lift {α : Type} : UserTask α → Task α
  | .ret a => .ret a
  | .throw e => .throw e
  | .call u k => .call (.user u) fun r => UserTask.lift (k r)

namespace Task

/-- Rethrow the `std::exception` of a call that failed. -/
def ofStd {α : Type} : Except String α → Task α
  | .ok a => .ret a
  | .error what => .throw (.std what)

@[simp] theorem ofStd_ok {α : Type} (a : α) : ofStd (.ok a) = .ret a := rfl

def session : Task Session := .call (.user .session) .ret

def setAesKey (key : AesKey) : Task Unit := .call (.user (.setAesKey key)) .ret

def sendFrame (header : FrameHeader) (payload : Bytes) : Task Unit :=
  .call (.sendFrame header payload) ofStd

def generatePrivate : Task (Octets 32) := .call .generatePrivate ofStd

def genIv : Task (Octets 12) := .call .genIv ofStd

def authenticate (authenticator : IAuthenticator) (ctx : Context) : Task Bool :=
  .call (.enterAuthenticator ctx) fun _ => (authenticator ctx).lift

def handle (handler : Handler) (ctx : Context) : Task ResponseFrame :=
  .call (.enterHandler ctx) fun _ => (handler ctx).lift

end Task

/-- Application code comes to no operations of the engine itself. -/
theorem always_lift {α : Type} {P : Op → Prop} (hP : ∀ u, P (.user u)) (c : UserTask α) :
    c.lift.Always P := by
  induction c with
  | ret _ | throw _ => trivial
  | call u k ih => exact ⟨hP u, ih⟩

theorem always_ofStd {α : Type} {P : Op → Prop} (r : Except String α) :
    (Task.ofStd r).Always P := by
  cases r <;> trivial

/-- `DefaultAuthenticator::authenticate`. -/
def defaultAuthenticator : IAuthenticator := fun _ =>
  .call .session fun session => .ret session.authenticated

/-- The state behind a `Context`: the request's copy of the session and the property bag. -/
structure RequestState where
  session : Session
  locals : UnorderedMap String Any

def RequestState.start (session : Session) : RequestState := ⟨session, ∅⟩

/-- What the outside supplies when a waiting operation is resumed; the operation takes the
component that answers it. -/
structure Answer where
  sent : Except String Unit := .ok ()
  privateKey : Except String (Octets 32) := .ok (Octets.ofBytes 32 [])
  iv : Except String (Octets 12) := .ok (Octets.ofBytes 12 [])
  bytes : Bytes := []
  -- what is found where `push_event` had its header
  staleHeader : FrameHeader := ⟨0, 0, 0, 0⟩

inductive RequestEvent
  | authenticatorCalled (ctx : Context) (state : RequestState)
  | handlerCalled (ctx : Context) (state : RequestState)
  | sent (header : FrameHeader) (payload : Bytes)

/-- A send that failed put no frame on the wire. -/
def sentEvents (header : FrameHeader) (payload : Bytes) :
    Except String Unit → List RequestEvent
  | .ok () => [.sent header payload]
  | .error _ => []

/-- `push_event` is no coroutine: it returns the task of `send_frame`, which does not start before
it is awaited, and then reads its header by a reference to a local variable of a call that is
over. So neither the command id nor the size nor the session id that `push_event` has put there
reaches the wire. -/
def answerUser (t : RequestState) (a : Answer) :
    (u : UserOp) → u.Ans × RequestState × List RequestEvent
  | .session => (t.session, t, [])
  | .setAuthenticated state user =>
      ((), { t with session := t.session.setAuthenticated state user }, [])
  | .setAesKey key => ((), { t with session := t.session.setAesKey key }, [])
  | .getLocal key => (t.locals.lookup key, t, [])
  | .setLocal key value => ((), { t with locals := t.locals.insert key value }, [])
  | .pushEvent _ data => (a.sent, t, sentEvents a.staleHeader data a.sent)
  | .await => (a.bytes, t, [])

def answerOp (t : RequestState) (a : Answer) : (o : Op) → o.Ans × RequestState × List RequestEvent
  | .user u => answerUser t a u
  | .sendFrame header payload => (a.sent, t, sentEvents header payload a.sent)
  | .generatePrivate => (a.privateKey, t, [])
  | .genIv => (a.iv, t, [])
  | .enterAuthenticator ctx => ((), t, [.authenticatorCalled ctx t])
  | .enterHandler ctx => ((), t, [.handlerCalled ctx t])

def requestSem : Semantics Op Op.Ans RequestState Answer RequestEvent where
  answer t o a := answerOp t a o

theorem answerOp_session_id (t : RequestState) (a : Answer) (o : Op) :
    (answerOp t a o).2.1.session.id = t.session.id := by
  cases o with
  | user u => cases u <;> rfl
  | sendFrame _ _ | generatePrivate | genIv | enterAuthenticator _ | enterHandler _ => rfl

theorem advance_session_id {α : Type} {t t' : RequestState} {c c' : Task α} {a : Answer}
    {es : List RequestEvent} (h : advance requestSem t c a = some (t', c', es)) :
    t'.session.id = t.session.id := by
  cases c with
  | ret _ | throw _ => simp [advance] at h
  | call o k =>
      simp only [advance, Option.some.injEq, Prod.mk.injEq] at h
      obtain ⟨rfl, -, -⟩ := h
      exact answerOp_session_id t a o

theorem resume_ofStd_ret {α : Type} {t t' : RequestState} {r : Except String α} {b : α}
    {as : List Answer} {es : List RequestEvent}
    (h : resume requestSem t (Task.ofStd r) as = some (t', .ret b, es)) :
    r = .ok b ∧ as = [] ∧ t' = t ∧ es = [] := by
  cases r with
  | ok a =>
      obtain ⟨has, ht, hb, hes⟩ := resume_ret.mp h
      cases hb
      exact ⟨rfl, has, ht, hes⟩
  | error e =>
      obtain ⟨-, -, hb, -⟩ := resume_throw.mp h
      cases hb

structure Endpoint where
  handler : Option Handler := none
  requiresAuth : Bool := false
  allowedTransport : TransportType := .any

structure Router where
  routes : UInt16 → Endpoint

namespace Router

def empty : Router := ⟨fun _ => {}⟩

def update (r : Router) (commandId : UInt16) (f : Endpoint → Endpoint) : Router :=
  ⟨fun c => if c = commandId then f (r.routes c) else r.routes c⟩

def add (r : Router) (commandId : UInt16) (handler : Handler) : Router :=
  r.update commandId fun _ => ⟨some handler, false, .any⟩

def requireAuth (r : Router) (commandId : UInt16) : Router :=
  r.update commandId fun e => { e with requiresAuth := true }

def tcpOnly (r : Router) (commandId : UInt16) : Router :=
  r.update commandId fun e => { e with allowedTransport := .tcp }

def udpOnly (r : Router) (commandId : UInt16) : Router :=
  r.update commandId fun e => { e with allowedTransport := .udp }

def get (r : Router) (commandId : UInt16) : Option (Endpoint × Handler) :=
  (r.routes commandId).handler.map fun h => (r.routes commandId, h)

end Router

end Servd
