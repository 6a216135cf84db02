import Mathlib.Data.List.Induction
import Servd.EncryptedSession

/-!
The gate in front of a handler: an endpoint that requires it has its requests
authenticated, and its transport restriction is checked after that. The engine has
the gate twice, for plain commands and for the commands inside encrypted messages.
Both are the same coroutine up to the reply, so they make the same calls with the
same contexts, and the restrictions that hold are those made since the command was
added last.
-/
namespace Servd

open Coroutine Transition

/-- A call with which the application sets up a command: `Server::add_command`, where the
`std::function` may be empty, or a restriction of the endpoint that one returns. -/
inductive RouterCall
  | addCommand (commandId : UInt16) (handler : Option Handler)
  | requireAuth (commandId : UInt16)
  | tcpOnly (commandId : UInt16)
  | udpOnly (commandId : UInt16)

namespace RouterCall

def apply (r : Router) : RouterCall → Router
  | .addCommand commandId (some handler) => r.add commandId handler
  | .addCommand commandId none => r.update commandId fun _ => {}
  | .requireAuth commandId => r.requireAuth commandId
  | .tcpOnly commandId => r.tcpOnly commandId
  | .udpOnly commandId => r.udpOnly commandId

/-- The transport the call restricts the command to. -/
def restriction (commandId : UInt16) : RouterCall → Option TransportType
  | .tcpOnly c => if c = commandId then some .tcp else none
  | .udpOnly c => if c = commandId then some .udp else none
  | .addCommand _ _ | .requireAuth _ => none

end RouterCall

def Router.build (calls : List RouterCall) : Router := calls.foldl RouterCall.apply .empty

/-- The latest registration of a command, with the restrictions that were added to it. -/
structure Registered (calls : List RouterCall) (commandId : UInt16) (handler : Option Handler)
    (later : List RouterCall) : Prop where
  added : ∃ before, calls = before ++ .addCommand commandId handler :: later
  last : ∀ h, .addCommand commandId h ∉ later

/-- The endpoint has the handler and the restrictions of the latest registration. -/
structure Endpoint.Reflects (ep : Endpoint) (commandId : UInt16) (handler : Option Handler)
    (later : List RouterCall) : Prop where
  handler_eq : ep.handler = handler
  requiresAuth_iff : ep.requiresAuth = true ↔ .requireAuth commandId ∈ later
  allowedTransport_eq : ep.allowedTransport =
    ((later.filterMap (RouterCall.restriction commandId)).getLast?).getD .any

theorem Registered.snoc {calls : List RouterCall} {commandId : UInt16} {handler : Option Handler}
    {later : List RouterCall} (h : Registered calls commandId handler later) {call : RouterCall}
    (hcall : ∀ h, call ≠ .addCommand commandId h) :
    Registered (calls ++ [call]) commandId handler (later ++ [call]) := by
  obtain ⟨before, rfl⟩ := h.added
  refine ⟨⟨before, by simp⟩, ?_⟩
  intro g hg
  rcases List.mem_append.mp hg with hg | hg
  · exact h.last g hg
  · exact hcall g (List.mem_singleton.mp hg).symm

@[simp] theorem Router.build_snoc (calls : List RouterCall) (call : RouterCall) :
    Router.build (calls ++ [call]) = call.apply (Router.build calls) := by
  simp [build]

theorem RouterCall.apply_added (r : Router) (commandId : UInt16) (handler : Option Handler) :
    ((RouterCall.addCommand commandId handler).apply r).routes commandId =
      ⟨handler, false, .any⟩ := by
  cases handler <;> simp [apply, Router.add, Router.update]

/-- One call keeps what the endpoint reflects. -/
theorem Endpoint.Reflects.snoc {r : Router} {commandId : UInt16} {handler : Option Handler}
    {later : List RouterCall} (h : (r.routes commandId).Reflects commandId handler later)
    {call : RouterCall} (hcall : ∀ h, call ≠ .addCommand commandId h) :
    ((call.apply r).routes commandId).Reflects commandId handler (later ++ [call]) := by
  obtain ⟨hh, ha, ht⟩ := h
  cases call with
  | addCommand c g =>
      have hc : commandId ≠ c := by
        rintro rfl
        exact hcall g rfl
      have hroutes : ((RouterCall.addCommand c g).apply r).routes commandId =
          r.routes commandId := by
        cases g <;> simp [RouterCall.apply, Router.add, Router.update, hc]
      rw [hroutes]
      exact ⟨hh, by simpa using ha, by simpa [RouterCall.restriction] using ht⟩
  | requireAuth c =>
      by_cases hc : commandId = c
      · subst hc
        simp only [RouterCall.apply, Router.requireAuth, Router.update, if_true]
        exact ⟨hh, by simp, by simpa [RouterCall.restriction] using ht⟩
      · simp only [RouterCall.apply, Router.requireAuth, Router.update, hc, if_false]
        exact ⟨hh, by simpa [hc] using ha, by simpa [RouterCall.restriction] using ht⟩
  | tcpOnly c =>
      by_cases hc : commandId = c
      · subst hc
        simp only [RouterCall.apply, Router.tcpOnly, Router.update, if_true]
        exact ⟨hh, by simpa using ha, by simp [RouterCall.restriction]⟩
      · simp only [RouterCall.apply, Router.tcpOnly, Router.update, hc, if_false]
        exact ⟨hh, by simpa using ha, by simpa [RouterCall.restriction, Ne.symm hc] using ht⟩
  | udpOnly c =>
      by_cases hc : commandId = c
      · subst hc
        simp only [RouterCall.apply, Router.udpOnly, Router.update, if_true]
        exact ⟨hh, by simpa using ha, by simp [RouterCall.restriction]⟩
      · simp only [RouterCall.apply, Router.udpOnly, Router.update, hc, if_false]
        exact ⟨hh, by simpa using ha, by simpa [RouterCall.restriction, Ne.symm hc] using ht⟩

theorem Registered.reflects {calls : List RouterCall} {commandId : UInt16}
    {handler : Option Handler} {later : List RouterCall}
    (h : Registered calls commandId handler later) :
    ((Router.build calls).routes commandId).Reflects commandId handler later := by
  obtain ⟨⟨before, rfl⟩, hlast⟩ := h
  induction later using List.reverseRecOn with
  | nil =>
      rw [Router.build_snoc, RouterCall.apply_added]
      exact ⟨rfl, by simp, rfl⟩
  | append_singleton later call ih =>
      have hprev := ih fun g hg => hlast g (List.mem_append_left _ hg)
      rw [← List.cons_append, ← List.append_assoc, Router.build_snoc]
      exact hprev.snoc fun g hg => hlast g (by simp [hg])

theorem exists_registered (calls : List RouterCall) (commandId : UInt16) :
    (∃ handler later, Registered calls commandId handler later) ∨
      ((Router.build calls).routes commandId).handler = none := by
  induction calls using List.reverseRecOn with
  | nil => exact .inr rfl
  | append_singleton calls call ih =>
      by_cases hcall : ∃ h, call = .addCommand commandId h
      · obtain ⟨h, rfl⟩ := hcall
        exact .inl ⟨h, [], ⟨calls, rfl⟩, by simp⟩
      · have hother : ∀ h, call ≠ .addCommand commandId h := fun h hc => hcall ⟨h, hc⟩
        rcases ih with ⟨handler, later, hreg⟩ | hnone
        · exact .inl ⟨handler, later ++ [call], hreg.snoc hother⟩
        · refine .inr ?_
          rw [Router.build_snoc]
          cases call with
          | addCommand c g =>
              have hc : commandId ≠ c := by
                rintro rfl
                exact hother g rfl
              cases g <;> simpa [RouterCall.apply, Router.add, Router.update, hc] using hnone
          | requireAuth c | tcpOnly c | udpOnly c =>
              by_cases hc : commandId = c <;>
                simpa [RouterCall.apply, Router.requireAuth, Router.tcpOnly, Router.udpOnly,
                  Router.update, hc] using hnone

theorem Router.get_eq_some {r : Router} {commandId : UInt16} {ep : Endpoint} {handler : Handler} :
    r.get commandId = some (ep, handler) ↔
      r.routes commandId = ep ∧ ep.handler = some handler := by
  simp only [get, Option.map_eq_some_iff, Prod.mk.injEq]
  constructor
  · rintro ⟨h, hh, rfl, rfl⟩
    exact ⟨rfl, hh⟩
  · rintro ⟨rfl, hh⟩
    exact ⟨handler, hh, rfl, rfl⟩

/-- The router finds the latest registration of a command, if that has a handler. -/
theorem Router.get_build (calls : List RouterCall) (commandId : UInt16) :
    (∃ ep handler later, (build calls).get commandId = some (ep, handler) ∧
      Registered calls commandId (some handler) later ∧
      ep.Reflects commandId (some handler) later) ∨
    ((build calls).get commandId = none ∧
      ∀ handler later, ¬ Registered calls commandId (some handler) later) := by
  have notRegistered : ((build calls).routes commandId).handler = none →
      ∀ handler later, ¬ Registered calls commandId (some handler) later := by
    intro hnone handler later hreg
    rw [hreg.reflects.handler_eq] at hnone
    cases hnone
  rcases exists_registered calls commandId with ⟨handler, later, hreg⟩ | hnone
  · have hreflects := hreg.reflects
    cases handler with
    | none =>
        refine .inr ⟨?_, notRegistered hreflects.handler_eq⟩
        simp [get, hreflects.handler_eq]
    | some handler =>
        exact .inl ⟨_, handler, later, Router.get_eq_some.mpr ⟨rfl, hreflects.handler_eq⟩, hreg,
          hreflects⟩
  · exact .inr ⟨by simp [get, hnone], notRegistered hnone⟩

/-- The gate of an endpoint and the handler behind it; nothing if the request is refused. -/
def Server.gate (srv : Server) (ep : Endpoint) (handler : Handler) (ctx : Context) :
    Task (Option ResponseFrame) :=
  srv.admission ep ctx >>= fun admitted =>
    if admitted = true ∧ ep.allows ctx.transport then
      Task.handle handler ctx >>= fun response => .ret (some response)
    else .ret none

def plainReply (cmd : UInt16) (response : ResponseFrame) : Task Unit := do
  let session ← Task.session
  Task.sendFrame ⟨cmd, response.flags, size32 response.payload, session.id⟩ response.payload

def replyWith (reply : ResponseFrame → Task Unit) : Option ResponseFrame → Task Unit
  | none => .ret ()
  | some response => reply response

theorem gate_bind (srv : Server) (ep : Endpoint) (handler : Handler) (ctx : Context)
    (reply : ResponseFrame → Task Unit) :
    srv.gate ep handler ctx >>= replyWith reply =
      srv.admission ep ctx >>= fun admitted =>
        if admitted = true ∧ ep.allows ctx.transport then Task.handle handler ctx >>= reply
        else .ret () := by
  rw [Server.gate, Coro.bind_assoc]
  congr 1
  funext admitted
  split
  · rw [Coro.bind_assoc]
    rfl
  · rfl

theorem handleNormalCommand_eq {srv : Server} {frame : ClientFrame} {ep : Endpoint}
    {handler : Handler} (hget : srv.router.get frame.header.commandId = some (ep, handler))
    (transport : TransportType) :
    srv.handleNormalCommand frame transport =
      srv.gate ep handler ⟨frame.header, frame.payload, transport⟩ >>=
        replyWith (plainReply frame.header.commandId) := by
  rw [gate_bind]
  simp only [Server.handleNormalCommand, hget]
  rfl

theorem doRouteAndSend_gate {srv : Server} {cmd : UInt16} {ep : Endpoint} {handler : Handler}
    (hget : srv.router.get cmd = some (ep, handler)) (transport : TransportType) (key : AesKey)
    (inner : Bytes) :
    srv.doRouteAndSend transport ⟨key⟩ cmd inner = Task.session >>= fun session =>
      srv.gate ep handler (innerContext transport session.id cmd inner) >>=
        replyWith (srv.encryptedReply key cmd) := by
  rw [doRouteAndSend_eq hget]
  congr 1
  funext session
  rw [gate_bind]
  rfl

/-- The event is a call of application code. -/
def RequestEvent.isCall : RequestEvent → Bool
  | .authenticatorCalled _ _ | .handlerCalled _ _ => true
  | .sent _ _ => false

def callsOf (es : List RequestEvent) : List RequestEvent := es.filter (·.isCall)

@[simp] theorem callsOf_append (es fs : List RequestEvent) :
    callsOf (es ++ fs) = callsOf es ++ callsOf fs :=
  List.filter_append es fs

@[simp] theorem callsOf_sentEvents (header : FrameHeader) (payload : Bytes)
    (sent : Except String Unit) : callsOf (sentEvents header payload sent) = [] := by
  cases sent <;> rfl

section Calls

variable {α : Type} {t u : RequestState} {as : List Answer} {es : List RequestEvent}

/-- Application code pushes events, and calls nobody. -/
theorem callsOf_lift {c : UserTask α} {d : Task α}
    (h : resume requestSem t c.lift as = some (u, d, es)) : callsOf es = [] := by
  induction as generalizing t c es with
  | nil =>
      cases h
      rfl
  | cons a as ih =>
      obtain ⟨v, d', es₁, es₂, ha, hr, rfl⟩ := resume_cons_eq_some.mp h
      cases c with
      | ret _ | throw _ => cases ha
      | call o k =>
          cases ha
          rw [callsOf_append, ih hr, List.append_nil]
          cases o with
          | pushEvent cmd data => exact callsOf_sentEvents _ _ _
          | session | setAuthenticated _ _ | setAesKey _ | getLocal _ | setLocal _ _ | await => rfl

/-- Application code is entered with one call. -/
theorem callsOf_enter {o : Op} {c : UserTask α} {d : Task α} {e : RequestEvent}
    (hevent : ∀ a, (requestSem.answer t o a).2.2 = [e]) (he : e.isCall = true)
    (h : resume requestSem t (.call o fun _ => c.lift) as = some (u, d, es)) :
    callsOf es = if as = [] then [] else [e] := by
  cases as with
  | nil =>
      cases h
      rfl
  | cons a as =>
      obtain ⟨v, d', es₁, es₂, ha, hr, rfl⟩ := resume_cons_eq_some.mp h
      cases ha
      rw [callsOf_append, callsOf_lift hr, hevent]
      simp [callsOf, he]

/-- The calls made at the gate of an endpoint: the authenticator if the endpoint requires it, and
the handler if the request was admitted and its transport is allowed. -/
inductive GateCalls (srv : Server) (ep : Endpoint) (ctx : Context) (t : RequestState)
    (answers : List Answer) : List RequestEvent → Prop
  | nobody : GateCalls srv ep ctx t answers []
  | authenticator (hauth : ep.requiresAuth = true) :
      GateCalls srv ep ctx t answers [.authenticatorCalled ctx t]
  | handler (hauth : ep.requiresAuth = false) (hallows : ep.allows ctx.transport) :
      GateCalls srv ep ctx t answers [.handlerCalled ctx t]
  | both {as : List Answer} {u : RequestState} {es : List RequestEvent}
      (hauth : ep.requiresAuth = true) (hallows : ep.allows ctx.transport)
      (hanswers : as <+: answers)
      (hadmitted : resume requestSem t (Task.authenticate srv.authenticator ctx) as =
        some (u, .ret true, es)) :
      GateCalls srv ep ctx t answers [.authenticatorCalled ctx t, .handlerCalled ctx u]

variable {srv : Server} {ep : Endpoint} {handler : Handler} {ctx : Context}

theorem gateCalls_of_admission {c : Task Bool} (answers : List Answer)
    (h : resume requestSem t (srv.admission ep ctx) as = some (u, c, es)) :
    GateCalls srv ep ctx t answers (callsOf es) := by
  unfold Server.admission at h
  split at h
  · rename_i hauth
    rw [callsOf_enter (fun _ => rfl) rfl h]
    split
    · exact .nobody
    · exact .authenticator hauth
  · obtain ⟨-, -, -, rfl⟩ := resume_ret.mp h
    exact .nobody

theorem gateCalls_of_gate {c : Task (Option ResponseFrame)}
    (h : resume requestSem t (srv.gate ep handler ctx) as = some (u, c, es)) :
    GateCalls srv ep ctx t as (callsOf es) := by
  rcases resume_bind_cases h with ⟨c', hgate, -⟩ |
    ⟨as₁, as₂, v, admitted, es₁, es₂, rfl, hgate, hbody, rfl⟩
  · exact gateCalls_of_admission as hgate
  · have hcalls := gateCalls_of_admission (as₁ ++ as₂) hgate
    rw [callsOf_append]
    by_cases hok : admitted = true ∧ ep.allows ctx.transport
    · rw [if_pos hok] at hbody
      obtain ⟨rfl, hallows⟩ := hok
      have hhandler : callsOf es₂ = if as₂ = [] then [] else [.handlerCalled ctx v] := by
        rcases resume_bind_cases hbody with ⟨c', hrun, -⟩ |
          ⟨bs₁, bs₂, w, response, fs₁, fs₂, rfl, hrun, hret, rfl⟩
        · exact callsOf_enter (fun _ => rfl) rfl hrun
        · obtain ⟨rfl, -, -, rfl⟩ := resume_ret.mp hret
          rw [List.append_nil, List.append_nil]
          exact callsOf_enter (fun _ => rfl) rfl hrun
      rw [hhandler]
      split
      · rw [List.append_nil]
        exact hcalls
      · cases hauth : ep.requiresAuth with
        | true =>
            have hrun := hgate
            rw [Server.admission, if_pos hauth] at hrun
            rw [callsOf_enter (fun _ => rfl) rfl hrun]
            split
            · rename_i hnil
              subst hnil
              cases hrun
            · exact .both hauth hallows (List.prefix_append as₁ as₂) hrun
        | false =>
            rw [Server.admission, if_neg (by simp [hauth])] at hgate
            obtain ⟨-, rfl, -, rfl⟩ := resume_ret.mp hgate
            exact .handler hauth hallows
    · rw [if_neg hok] at hbody
      obtain ⟨-, -, -, rfl⟩ := resume_ret.mp hbody
      rw [show callsOf [] = [] from rfl, List.append_nil]
      exact hcalls

end Calls

/-- The plain frame with the command and payload of an encrypted message. -/
def innerFrame (sid : UInt64) (cmd : UInt16) (inner : Bytes) : ClientFrame :=
  ⟨⟨cmd, 0, size32 inner, sid⟩, inner⟩

/-- Both have returned, have thrown the same exception, or wait for the same operation. -/
inductive SamePoint : Task Unit → Task Unit → Prop
  | returned : SamePoint (.ret ()) (.ret ())
  | threw (e : Exc) : SamePoint (.throw e) (.throw e)
  | waiting (o : Op) (k k' : o.Ans → Task Unit) : SamePoint (.call o k) (.call o k')

/-- A run of the plain path, and what the encrypted path does on the same answers, after the reads
of the session in front of its gate. Either no response has come about, or both have come to the
same response, and what they do from there is to send it. -/
inductive SameGate (calls : List RouterCall) (srv : Server) (transport : TransportType)
    (t : RequestState) (frame : ClientFrame) (cmd : UInt16) (inner : Bytes) :
    List Answer → RequestState → Task Unit → List RequestEvent → Prop
  | unknown (hnone : ∀ handler later, ¬ Registered calls cmd (some handler) later)
      (hencrypted : ∀ a, resume requestSem t (srv.processCommand frame transport) [a] =
        some (t, .ret (), [])) :
      SameGate calls srv transport t frame cmd inner [] t (.ret ()) []
  | alongside {ep : Endpoint} {handler : Handler} {later : List RouterCall}
      {answers : List Answer} {u : RequestState} {c d : Task Unit} {es : List RequestEvent}
      (hreg : Registered calls cmd (some handler) later)
      (hep : ep.Reflects cmd (some handler) later)
      (hcalls : GateCalls srv ep (innerContext transport t.session.id cmd inner) t answers
        (callsOf es))
      (hencrypted : ∀ a b, resume requestSem t (srv.processCommand frame transport)
        (a :: b :: answers) = some (u, d, es)) (hpoint : SamePoint c d) :
      SameGate calls srv transport t frame cmd inner answers u c es
  | responded {ep : Endpoint} {handler : Handler} {later : List RouterCall}
      {answers rest : List Answer} {u : RequestState} {c : Task Unit} {es fs : List RequestEvent}
      {response : ResponseFrame} (hreg : Registered calls cmd (some handler) later)
      (hep : ep.Reflects cmd (some handler) later)
      (hcalls : GateCalls srv ep (innerContext transport t.session.id cmd inner) t answers
        (callsOf es))
      (hplain : resume requestSem u (plainReply cmd response) rest = some (u, c, fs))
      (hsent : ∀ x y, resume requestSem u (plainReply cmd response) [x, y] =
        some (u, Task.ofStd y.sent, sentEvents
          ⟨cmd, response.flags, size32 response.payload, u.session.id⟩ response.payload y.sent))
      (hencrypted : ∀ a b z x y iv enc, z.iv = .ok iv →
        srv.botan.sealMessage t.session.aesKey iv
          (Bytes.littleEndian 2 cmd.toNat ++ response.payload) = .ok enc →
        resume requestSem t (srv.processCommand frame transport)
            (a :: b :: answers ++ [z, x, y]) =
          some (u, Task.ofStd y.sent, es ++ sentEvents ⟨cmdEncryptedMessage, response.flags,
            size32 (sealedReply iv enc), u.session.id⟩ (sealedReply iv enc) y.sent)) :
      SameGate calls srv transport t frame cmd inner (answers ++ rest) u c (es ++ fs)

theorem resume_session {β : Type} (t : RequestState) (f : Session → Task β) (a : Answer)
    (as : List Answer) :
    resume requestSem t (Task.session >>= f) (a :: as) = resume requestSem t (f t.session) as := by
  have h : requestSem.answer t (.user .session) a = (t.session, t, []) := rfl
  exact resume_silent h _ as

theorem resume_genIv {β : Type} {a : Answer} {iv : Octets 12} (h : a.iv = .ok iv)
    (t : RequestState) (f : Octets 12 → Task β) (as : List Answer) :
    resume requestSem t (Task.genIv >>= f) (a :: as) = resume requestSem t (f iv) as := by
  have hanswer : requestSem.answer t .genIv a = (.ok iv, t, []) := by
    rw [← h]
    rfl
  exact resume_silent hanswer _ as

theorem resume_handleEncryptedMessage {srv : Server} {frame : ClientFrame} {t : RequestState}
    {cmd : UInt16} {inner : Bytes}
    (hmessage : innerMessage srv.botan t.session.installedKey frame.payload = some (cmd, inner))
    (transport : TransportType) (a : Answer) (as : List Answer) :
    resume requestSem t (srv.handleEncryptedMessage frame transport) (a :: as) =
      resume requestSem t (srv.doRouteAndSend transport ⟨t.session.aesKey⟩ cmd inner) as := by
  rw [Server.handleEncryptedMessage, resume_session]
  cases doDecrypt_cases srv.botan frame.payload t.session with
  | authentic cmd' inner' _ hsome hd =>
      rw [hmessage] at hsome
      cases hsome
      rw [hd, Task.ofStd_ok, Coro.ret_bind]
  | rejected hnone _ | unavailable _ hnone _ =>
      rw [hmessage] at hnone
      cases hnone

section Reply

variable {t u : RequestState} {cmd : UInt16} {response : ResponseFrame}

theorem resume_plainReply (t : RequestState) (cmd : UInt16) (response : ResponseFrame)
    (x y : Answer) :
    resume requestSem t (plainReply cmd response) [x, y] =
      some (t, Task.ofStd y.sent, sentEvents
        ⟨cmd, response.flags, size32 response.payload, t.session.id⟩ response.payload y.sent) := by
  rw [plainReply, resume_session]
  exact resume_cons_eq_some.mpr ⟨_, _, _, [], rfl, rfl, (List.append_nil _).symm⟩

theorem resume_plainReply_state {rest : List Answer} {c : Task Unit} {es : List RequestEvent}
    (h : resume requestSem t (plainReply cmd response) rest = some (u, c, es)) : u = t := by
  cases rest with
  | nil =>
      cases h
      rfl
  | cons x rest =>
      cases rest with
      | nil =>
          cases h
          rfl
      | cons y rest =>
          rw [show x :: y :: rest = [x, y] ++ rest from rfl,
            resume_append (resume_plainReply t cmd response x y)] at h
          obtain ⟨⟨v, d, fs⟩, hrest, heq⟩ := Option.map_eq_some_iff.mp h
          cases heq
          cases hsent : y.sent with
          | ok _ =>
              rw [hsent] at hrest
              exact (resume_ret.mp hrest).2.1
          | error what =>
              rw [hsent] at hrest
              exact (resume_throw.mp hrest).2.1

theorem resume_sealedReply {srv : Server} {key : AesKey} {x y z : Answer} {iv : Octets 12}
    {enc : Bytes} (t : RequestState) (hiv : z.iv = .ok iv)
    (henc : srv.botan.sealMessage key iv
      (Bytes.littleEndian 2 cmd.toNat ++ response.payload) = .ok enc) :
    resume requestSem t (srv.encryptedReply key cmd response) [z, x, y] =
      some (t, Task.ofStd y.sent, sentEvents ⟨cmdEncryptedMessage, response.flags,
        size32 (sealedReply iv enc), t.session.id⟩ (sealedReply iv enc) y.sent) := by
  have hseal : AesGcm.encrypt srv.botan ⟨key⟩ (Bytes.littleEndian 2 cmd.toNat ++ response.payload)
      [] iv.val = .ok enc := (AesGcm.encrypt_no_aad srv.botan ⟨key⟩ _ iv).trans henc
  rw [Server.encryptedReply, resume_genIv hiv, hseal, Task.ofStd_ok, Coro.ret_bind, resume_session]
  exact resume_cons_eq_some.mpr ⟨_, _, _, [], rfl, rfl, (List.append_nil _).symm⟩

end Reply

section SameGate

variable {calls : List RouterCall} {srv : Server} {transport : TransportType} {t : RequestState}
  {frame : ClientFrame} {cmd : UInt16} {inner : Bytes} {ep : Endpoint} {handler : Handler}
  {later : List RouterCall}

theorem resume_encrypted (hframe : frame.header.commandId = cmdEncryptedMessage)
    (hmessage : innerMessage srv.botan t.session.installedKey frame.payload = some (cmd, inner))
    (a : Answer) (as : List Answer) :
    resume requestSem t (srv.processCommand frame transport) (a :: as) =
      resume requestSem t (srv.doRouteAndSend transport ⟨t.session.aesKey⟩ cmd inner) as := by
  rw [Server.processCommand, hframe]
  exact resume_handleEncryptedMessage hmessage transport a as

/-- The encrypted path has done what the gate has done, and goes on as it does. -/
theorem resume_encrypted_gate (hframe : frame.header.commandId = cmdEncryptedMessage)
    (hmessage : innerMessage srv.botan t.session.installedKey frame.payload = some (cmd, inner))
    (hget : srv.router.get cmd = some (ep, handler)) {as : List Answer} {u : RequestState}
    {c : Task (Option ResponseFrame)} {es : List RequestEvent}
    (h : resume requestSem t
      (srv.gate ep handler (innerContext transport t.session.id cmd inner)) as = some (u, c, es))
    (a b : Answer) :
    resume requestSem t (srv.processCommand frame transport) (a :: b :: as) =
      some (u, c >>= replyWith (srv.encryptedReply t.session.aesKey cmd), es) := by
  rw [resume_encrypted hframe hmessage, doRouteAndSend_gate hget, resume_session]
  exact resume_bind h _

theorem sameGate_responded (hframe : frame.header.commandId = cmdEncryptedMessage)
    (hmessage : innerMessage srv.botan t.session.installedKey frame.payload = some (cmd, inner))
    (hget : srv.router.get cmd = some (ep, handler))
    (hreg : Registered calls cmd (some handler) later)
    (hep : ep.Reflects cmd (some handler) later) {as rest : List Answer} {u v : RequestState}
    {response : ResponseFrame} {c : Task Unit} {es fs : List RequestEvent}
    (hgate : resume requestSem t
      (srv.gate ep handler (innerContext transport t.session.id cmd inner)) as =
        some (v, .ret (some response), es))
    (hreply : resume requestSem v (plainReply cmd response) rest = some (u, c, fs)) :
    SameGate calls srv transport t frame cmd inner (as ++ rest) u c (es ++ fs) := by
  obtain rfl := resume_plainReply_state hreply
  refine .responded hreg hep (gateCalls_of_gate hgate) hreply (resume_plainReply u cmd response) ?_
  intro a b z x y iv enc hiv henc
  rw [resume_append (resume_encrypted_gate hframe hmessage hget hgate a b), Coro.ret_bind,
    replyWith, resume_sealedReply u hiv henc]
  rfl

theorem sameGate_of_gate (hframe : frame.header.commandId = cmdEncryptedMessage)
    (hmessage : innerMessage srv.botan t.session.installedKey frame.payload = some (cmd, inner))
    (hget : srv.router.get cmd = some (ep, handler))
    (hreg : Registered calls cmd (some handler) later)
    (hep : ep.Reflects cmd (some handler) later) {as : List Answer} {u : RequestState}
    {c : Task (Option ResponseFrame)} {es : List RequestEvent}
    (hgate : resume requestSem t
      (srv.gate ep handler (innerContext transport t.session.id cmd inner)) as = some (u, c, es)) :
    SameGate calls srv transport t frame cmd inner as u (c >>= replyWith (plainReply cmd)) es := by
  have hcalls := gateCalls_of_gate hgate
  have hencrypted := resume_encrypted_gate hframe hmessage hget hgate
  cases c with
  | ret response =>
      cases response with
      | none => exact .alongside hreg hep hcalls hencrypted .returned
      | some response =>
          have h := sameGate_responded hframe hmessage hget hreg hep hgate
            (resume_nil u (plainReply cmd response))
          rwa [List.append_nil, List.append_nil] at h
  | throw e => exact .alongside hreg hep hcalls hencrypted (.threw e)
  | call o k => exact .alongside hreg hep hcalls hencrypted (.waiting o _ _)

end SameGate

/-- An encrypted message and the plain frame with its inner command and payload go through one
and the same gate, on every schedule of answers: the same calls with the same contexts, the same
session afterwards, the same exception, and the same response under the encryption. -/
theorem encrypted_same_gate (calls : List RouterCall) (srv : Server)
    (hrouter : srv.router = Router.build calls) (transport : TransportType) (t : RequestState)
    (frame : ClientFrame) (hframe : frame.header.commandId = cmdEncryptedMessage) (cmd : UInt16)
    (hcmd : cmd ≠ cmdKeyExchange ∧ cmd ≠ cmdEncryptedMessage) (inner : Bytes)
    (hmessage : innerMessage srv.botan t.session.installedKey frame.payload = some (cmd, inner))
    (answers : List Answer) (u : RequestState) (c : Task Unit) (es : List RequestEvent)
    (h : resume requestSem t
      (srv.processCommand (innerFrame t.session.id cmd inner) transport) answers =
        some (u, c, es)) :
    SameGate calls srv transport t frame cmd inner answers u c es := by
  have hplain : srv.processCommand (innerFrame t.session.id cmd inner) transport =
      srv.handleNormalCommand (innerFrame t.session.id cmd inner) transport := by
    simp [Server.processCommand, innerFrame, hcmd]
  rw [hplain] at h
  rcases Router.get_build calls cmd with ⟨ep, handler, later, hget, hreg, hep⟩ | ⟨hget, hnone⟩
  · rw [← hrouter] at hget
    have hnormal : srv.handleNormalCommand (innerFrame t.session.id cmd inner) transport =
        srv.gate ep handler (innerContext transport t.session.id cmd inner) >>=
          replyWith (plainReply cmd) := handleNormalCommand_eq hget transport
    rw [hnormal] at h
    rcases resume_bind_cases h with ⟨c', hgate, rfl⟩ |
      ⟨as, rest, v, response, es₁, es₂, rfl, hgate, hreply, rfl⟩
    · exact sameGate_of_gate hframe hmessage hget hreg hep hgate
    · cases response with
      | none =>
          obtain ⟨rfl, rfl, rfl, rfl⟩ := resume_ret.mp hreply
          rw [List.append_nil, List.append_nil]
          exact sameGate_of_gate hframe hmessage hget hreg hep hgate
      | some response => exact sameGate_responded hframe hmessage hget hreg hep hgate hreply
  · rw [← hrouter] at hget
    have hunknown : srv.handleNormalCommand (innerFrame t.session.id cmd inner) transport =
        .ret () := by
      simp only [Server.handleNormalCommand, innerFrame, hget]
      rfl
    rw [hunknown] at h
    obtain ⟨rfl, rfl, rfl, rfl⟩ := resume_ret.mp h
    refine .unknown hnone fun a => ?_
    rw [resume_encrypted hframe hmessage, Server.doRouteAndSend, hget]
    rfl

def Recorded.session : Session := { id := 7, hasAesKey := true, aesKey := sharedKey }

/-- The recorded message, and its inner command as a plain frame. -/
theorem encrypted_same_gate_recorded :
    SameGate [.addCommand 1 (some fun ctx => .ret { payload := ctx.payload })] Server.recorded .tcp
      (.start Recorded.session) (Recorded.message 7) 1 [104, 105] [{}, {}, {}]
      (.start Recorded.session) (.ret ())
      [.handlerCalled (innerContext .tcp 7 1 [104, 105]) (.start Recorded.session),
        .sent ⟨1, 0, 2, 7⟩ [104, 105]] :=
  encrypted_same_gate _ Server.recorded rfl .tcp _ (Recorded.message 7) rfl 1
    ⟨by decide, by decide⟩ [104, 105] (by decide +kernel) _ _ _ _ rfl

/-- The context a request asks for: that of its frame, or that of an authentic message in it. -/
inductive Asks (srv : Server) (transport : TransportType) (req : Request) : Context → Prop
  | plain (hcmd : req.frame.header.commandId ≠ cmdKeyExchange ∧
        req.frame.header.commandId ≠ cmdEncryptedMessage) :
      Asks srv transport req ⟨req.frame.header, req.frame.payload, transport⟩
  | encrypted (hcmd : req.frame.header.commandId = cmdEncryptedMessage) {cmd : UInt16}
      {inner : Bytes}
      (hmessage : innerMessage srv.botan req.loaded.installedKey req.frame.payload =
        some (cmd, inner)) :
      Asks srv transport req (innerContext transport req.loaded.id cmd inner)

inductive Listener
  | tcp | unix | udp
  deriving DecidableEq

/-- The coroutines that serve what a listener receives. The connections of a TCP and of a Unix
listener are served alike, and both report TCP. -/
def Listener.Serves : Listener → Worker → Prop
  | .tcp, .conn _ | .unix, .conn _ | .udp, .udp _ => True
  | .tcp, .udp _ | .unix, .udp _ | .udp, .conn _ => False

/-- The endpoint is restricted to another kind of listener. -/
def Endpoint.Excludes (ep : Endpoint) (listener : Listener) : Prop :=
  ep.allowedTransport = .tcp ∧ listener ≠ .tcp ∨ ep.allowedTransport = .udp ∧ listener ≠ .udp

theorem Endpoint.not_allows_of_excludes {ep : Endpoint} {listener : Listener} {w : Worker}
    (hserves : listener.Serves w) (hexcludes : ep.Excludes listener)
    (hunix : ¬ (ep.allowedTransport = .tcp ∧ listener = .unix)) : ¬ ep.allows w.transport := by
  unfold allows
  rcases hexcludes with ⟨hep, hne⟩ | ⟨hep, hne⟩
  · rw [hep]
    cases listener with
    | tcp => exact absurd rfl hne
    | unix => exact absurd ⟨hep, rfl⟩ hunix
    | udp =>
        cases w with
        | conn i => cases hserves
        | udp j => simp [Worker.transport]
  · rw [hep]
    cases w with
    | conn i => simp [Worker.transport]
    | udp j =>
        cases listener with
        | tcp | unix => cases hserves
        | udp => exact absurd rfl hne

/-- A gate that does not let the transport through does what the authenticator does. -/
theorem resume_gate_excluded {srv : Server} {ep : Endpoint} {handler : Handler} {ctx : Context}
    {reply : ResponseFrame → Task Unit} {t u : RequestState} {as : List Answer} {c : Task Unit}
    {es : List RequestEvent} (hno : ¬ ep.allows ctx.transport)
    (h : resume requestSem t (srv.gate ep handler ctx >>= replyWith reply) as = some (u, c, es)) :
    ∃ c', resume requestSem t (srv.admission ep ctx) as = some (u, c', es) := by
  rw [gate_bind] at h
  rcases resume_bind_cases h with ⟨c', hgate, -⟩ | ⟨as₁, as₂, v, admitted, es₁, es₂, rfl, hgate,
    hbody, rfl⟩
  · exact ⟨c', hgate⟩
  · rw [if_neg fun hok => hno hok.2] at hbody
    obtain ⟨rfl, rfl, -, rfl⟩ := resume_ret.mp hbody
    rw [List.append_nil, List.append_nil]
    exact ⟨_, hgate⟩

theorem resume_encrypted_excluded {srv : Server} {transport : TransportType} {frame : ClientFrame}
    {ep : Endpoint} {handler : Handler} {cmd : UInt16} {inner : Bytes} {t u : RequestState}
    {as : List Answer} {c : Task Unit} {es : List RequestEvent}
    (hframe : frame.header.commandId = cmdEncryptedMessage)
    (hmessage : innerMessage srv.botan t.session.installedKey frame.payload = some (cmd, inner))
    (hget : srv.router.get cmd = some (ep, handler)) (hno : ¬ ep.allows transport)
    (h : resume requestSem t (srv.processCommand frame transport) as = some (u, c, es)) :
    ∃ as' c', resume requestSem t
      (srv.admission ep (innerContext transport t.session.id cmd inner)) as' = some (u, c', es) := by
  cases as with
  | nil =>
      cases h
      exact ⟨[], _, rfl⟩
  | cons a as =>
      rw [resume_encrypted hframe hmessage, doRouteAndSend_gate hget] at h
      cases as with
      | nil =>
          cases h
          exact ⟨[], _, rfl⟩
      | cons b as =>
          rw [resume_session] at h
          exact ⟨as, resume_gate_excluded hno h⟩

theorem Request.Consistent.excluded {srv : Server} {transport : TransportType} {req : Request}
    {ctx : Context} {ep : Endpoint} {handler : Handler} (hc : req.Consistent srv transport)
    (hasks : Asks srv transport req ctx)
    (hget : srv.router.get ctx.header.commandId = some (ep, handler))
    (hno : ¬ ep.allows transport) :
    ∃ as c, resume requestSem (.start req.loaded) (srv.admission ep ctx) as =
      some (req.state, c, req.events) := by
  cases hasks with
  | plain hcmd =>
      have hrun := hc.run
      have hplain : srv.processCommand req.frame transport =
          srv.handleNormalCommand req.frame transport := by
        simp [Server.processCommand, hcmd]
      rw [hplain, handleNormalCommand_eq hget] at hrun
      exact ⟨_, resume_gate_excluded hno hrun⟩
  | encrypted hcmd hmessage => exact resume_encrypted_excluded hcmd hmessage hget hno hc.run

/-- What becomes of a request that its endpoint excludes. All that happens is what the
authenticator does, if the endpoint has one asked: the handler is not called and no response is
sent, and the record written back is the one that was loaded, as the authenticator has left it. -/
structure KeptOut (srv : Server) (s : Engine) (w : Worker) (req : Request) (ep : Endpoint)
    (ctx : Context) : Prop where
  handler : ∀ ctx' u, .handlerCalled ctx' u ∉ req.events
  authenticatorOnly : ∃ as c, resume requestSem (.start req.loaded) (srv.admission ep ctx) as =
    some (req.state, c, req.events)
  unasked : ep.requiresAuth = false → req.events = [] ∧ req.state.session = req.loaded
  saved : ∀ s' evs, s.step srv (.work w .save) = some (s', evs) → ∀ sid, s'.store.lookup sid =
    if sid = req.frame.header.sessionId then some req.state.session else s.store.lookup sid
  failed : ∀ e s' evs, s.step srv (.work w (.fail e)) = some (s', evs) → s'.store = s.store

theorem handlerCalled_not_mem_admission {srv : Server} {ep : Endpoint} {ctx ctx' : Context}
    {t u v : RequestState} {as : List Answer} {c : Task Bool} {es : List RequestEvent}
    (h : resume requestSem t (srv.admission ep ctx) as = some (u, c, es)) :
    .handlerCalled ctx' v ∉ es := by
  intro hmem
  have hcall : .handlerCalled ctx' v ∈ callsOf es := List.mem_filter.mpr ⟨hmem, rfl⟩
  unfold Server.admission at h
  split at h
  · rw [callsOf_enter (fun _ => rfl) rfl h] at hcall
    split at hcall <;> simp at hcall
  · obtain ⟨-, -, -, rfl⟩ := resume_ret.mp h
    cases hmem

namespace Engine

/-- In every run, a request that comes in on a listener its endpoint is not for, plain or
encrypted, is kept out; of endpoints restricted to TCP and Unix listeners nothing is said. -/
theorem excluded_keptOut (srv : Server) (discovery : DiscoveryConfig) (enabled : Bool)
    {tr : List (Step Engine Label Event)} {s : Engine}
    (h : Trace (step srv) (init srv discovery enabled) tr s) {w : Worker} {req : Request}
    (hreq : s.inFlight w = some req) {ctx : Context} (hasks : Asks srv w.transport req ctx)
    {ep : Endpoint} {handler : Handler}
    (hget : srv.router.get ctx.header.commandId = some (ep, handler)) {listener : Listener}
    (hserves : listener.Serves w) (hexcludes : ep.Excludes listener)
    (hunix : ¬ (ep.allowedTransport = .tcp ∧ listener = .unix)) :
    KeptOut srv s w req ep ctx := by
  have hc := (requests_run h).2 w req hreq
  obtain ⟨as, c, hrun⟩ := hc.excluded hasks hget
    (Endpoint.not_allows_of_excludes hserves hexcludes hunix)
  refine ⟨fun _ _ => handlerCalled_not_mem_admission hrun, ⟨as, c, hrun⟩, ?_,
    fun s' evs hs => lookup_of_save hreq hc hs, fun e s' evs hs => store_of_fail hs⟩
  intro hauth
  rw [Server.admission, if_neg (by simp [hauth])] at hrun
  obtain ⟨-, hstate, -, hevents⟩ := resume_ret.mp hrun
  exact ⟨hevents, by rw [hstate]; rfl⟩

end Engine

/-- `MyAuth`, the example of the guide: the password "secret" logs the session in. -/
def myAuth : IAuthenticator := fun ctx =>
  if ctx.payload = [115, 101, 99, 114, 101, 116] then
    .call (.setAuthenticated true "admin") fun _ =>
      .call (.setLocal "role" [97, 100, 109, 105, 110]) fun _ => .ret true
  else .ret false

/-- Command 1 requires authentication and is restricted to UDP. -/
def Server.guarded : Server where
  router := Router.build [.addCommand 1 (some fun ctx => .ret { payload := ctx.payload }),
    .requireAuth 1, .udpOnly 1]
  authenticator := myAuth
  botan := .unavailable

/-- Command 1 is restricted to TCP. -/
def Server.tcpOnlyEcho : Server where
  router := Router.build [.addCommand 1 (some fun ctx => .ret { payload := ctx.payload }),
    .tcpOnly 1]
  botan := .unavailable

/-- Command 1 with the password, on session 7. -/
def secretFrame : ClientFrame := ⟨⟨1, 0, 6, 7⟩, [115, 101, 99, 114, 101, 116]⟩

namespace Engine

theorem guarded_run : ∃ tr s req s' evs,
    Trace (step Server.guarded) (init Server.guarded {} false) tr s ∧
    s.inFlight (.conn 0) = some req ∧ req.frame = secretFrame ∧
    s.store.lookup 7 = some req.loaded ∧
    s.step Server.guarded (.work (.conn 0) .save) = some (s', evs) ∧
    req.state.session ≠ req.loaded := by
  obtain ⟨tr, s, htr, hsome, req, hreq, hframe, hstore, hstate⟩ := exists_trace_of_exec
    (step Server.guarded) (init Server.guarded {} false)
    ([.accept .binary 5, .work (.conn 0) (.frame secretFrame), .work (.conn 0) .load] ++
      List.replicate 3 (.work (.conn 0) (.progress {})))
    (fun _ s => (s.step Server.guarded (.work (.conn 0) .save)).isSome = true ∧
      ∃ req ∈ s.inFlight (.conn 0), req.frame = secretFrame ∧
        s.store.lookup 7 = some req.loaded ∧ req.state.session ≠ req.loaded)
    (by decide +kernel)
  obtain ⟨⟨s', evs⟩, hs⟩ := Option.isSome_iff_exists.mp hsome
  exact ⟨tr, s, req, s', evs, htr, hreq, hframe, hstore, hs, hstate⟩

theorem asks_secret {req : Request} (h : req.frame = secretFrame) :
    Asks Server.guarded .tcp req ⟨secretFrame.header, secretFrame.payload, .tcp⟩ := by
  rw [← h]
  exact .plain (by rw [h]; decide)

/-- The password is sent over TCP: the request is kept out. -/
theorem excluded_keptOut_secret :
    ∃ tr s req, Trace (step Server.guarded) (init Server.guarded {} false) tr s ∧
      s.inFlight (.conn 0) = some req ∧ req.frame = secretFrame ∧
      KeptOut Server.guarded s (.conn 0) req (Server.guarded.router.routes 1)
        ⟨secretFrame.header, secretFrame.payload, .tcp⟩ := by
  obtain ⟨tr, s, req, -, -, htr, hreq, hframe, -⟩ := guarded_run
  exact ⟨tr, s, req, htr, hreq, hframe,
    excluded_keptOut Server.guarded {} false htr hreq (asks_secret hframe) rfl
      (show Listener.tcp.Serves (.conn 0) from trivial) (.inr ⟨rfl, by decide⟩) (by decide)⟩

def isHandlerCall : RequestEvent → Bool
  | .handlerCalled _ _ => true
  | .authenticatorCalled _ _ | .sent _ _ => false

theorem tcpOnlyEcho_run : ∃ tr s req ctx u,
    Trace (step Server.tcpOnlyEcho) (init Server.tcpOnlyEcho {} false) tr s ∧
    s.inFlight (.conn 0) = some req ∧ req.frame = .command 1 7 ∧
    .handlerCalled ctx u ∈ req.events := by
  obtain ⟨tr, s, htr, req, hreq, hframe, hcalled⟩ := exists_trace_of_exec
    (step Server.tcpOnlyEcho) (init Server.tcpOnlyEcho {} false)
    [.accept .binary 5, .work (.conn 0) (.frame (.command 1 7)), .work (.conn 0) .load,
      .work (.conn 0) (.progress {})]
    (fun _ s => ∃ req ∈ s.inFlight (.conn 0), req.frame = .command 1 7 ∧
      req.events.any isHandlerCall = true) (by decide +kernel)
  obtain ⟨e, he, hcall⟩ := List.any_eq_true.mp hcalled
  cases e with
  | handlerCalled ctx u => exact ⟨tr, s, req, ctx, u, htr, hreq, hframe, he⟩
  | authenticatorCalled _ _ | sent _ _ => cases hcall

/-- The password is sent over TCP for the command that is restricted to UDP: the request is
refused, and the session is logged in. And a command that is restricted to TCP is handled for a
client of a Unix listener. -/
theorem not_excluded_unchanged :
    (¬ ∀ srv discovery enabled tr s, Trace (step srv) (init srv discovery enabled) tr s →
      ∀ w req ctx ep handler listener, s.inFlight w = some req → Asks srv w.transport req ctx →
        srv.router.get ctx.header.commandId = some (ep, handler) → listener.Serves w →
        ep.Excludes listener → ∀ s' evs, s.step srv (.work w .save) = some (s', evs) →
          s.store.lookup req.frame.header.sessionId = some req.loaded →
          s'.store.lookup req.frame.header.sessionId =
            s.store.lookup req.frame.header.sessionId) ∧
    ¬ ∀ srv discovery enabled tr s, Trace (step srv) (init srv discovery enabled) tr s →
      ∀ w req ctx ep handler listener, s.inFlight w = some req → Asks srv w.transport req ctx →
        srv.router.get ctx.header.commandId = some (ep, handler) → listener.Serves w →
        ep.Excludes listener → ∀ ctx' u, .handlerCalled ctx' u ∉ req.events := by
  constructor
  · intro h
    obtain ⟨tr, s, req, s', evs, htr, hreq, hframe, hstore, hs, hstate⟩ := guarded_run
    have hsid : req.frame.header.sessionId = 7 := by rw [hframe]; rfl
    have hsame := h Server.guarded {} false tr s htr (.conn 0) req _ _ _ .tcp hreq
      (asks_secret hframe) rfl trivial (.inr ⟨rfl, by decide⟩) s' evs hs (hsid ▸ hstore)
    rw [lookup_of_save hreq ((requests_run htr).2 _ _ hreq) hs, if_pos rfl, hsid, hstore] at hsame
    exact hstate (Option.some.inj hsame)
  · intro h
    obtain ⟨tr, s, req, ctx, u, htr, hreq, hframe, hcalled⟩ := tcpOnlyEcho_run
    have hasks : Asks Server.tcpOnlyEcho .tcp req ⟨req.frame.header, req.frame.payload, .tcp⟩ :=
      .plain (by rw [hframe]; decide)
    rw [hframe] at hasks
    exact h Server.tcpOnlyEcho {} false tr s htr (.conn 0) req _ _ _ .unix hreq hasks rfl trivial
      (.inl ⟨rfl, by decide⟩) ctx u hcalled

end Engine

end Servd
