import Servd.BroadcastRuns
import Servd.Grants
import Servd.Logger

/-!
The server of `app/main.cpp`: a public command, a login over TCP, and an alert that is
broadcast every ten seconds to the sessions that are logged in. All that ever leaves it,
on whatever connection and in whatever order the event loop works, is what its handlers
answer and the alert, and the alert is for sessions that have logged in.
-/
namespace Servd.Application

open Coroutine Transition

def cmdPing : UInt16 := 0x01

def cmdLogin : UInt16 := 0x02

def cmdSysAlert : UInt16 := 0x99

/-- The value of the enumerator. -/
def transportId : TransportType → Nat
  | .any => 0
  | .tcp => 1
  | .udp => 2
  | .unix => 3

def pong (transport : TransportType) : Bytes :=
  ascii "PONG! From transport ID " ++ Bytes.decimal (transportId transport)

def ping : Handler := fun ctx => .ret { payload := pong ctx.transport }

def login : Handler := fun _ =>
  .call (.setAuthenticated true "SuperAdmin") fun _ =>
    -- the id is printed
    .call .session fun _ => .ret { payload := [] }

def router : Router :=
  ((Router.empty.add cmdPing ping).add cmdLogin login).tcpOnly cmdLogin

def app (B : Botan) : Server where
  router := router
  botan := B
  tcpPorts := [(8080, .binary)]
  udpPorts := [8081]

def alert : Bytes := ascii "System alert: All is well!"

/-- What can happen to the event loop while `main` is in `run()`: both stream listeners are binary,
and the only thing the application does by itself is the periodic broadcast. -/
def Does : Label → Prop
  | .accept mode _ => mode = .binary
  | .broadcast commandId payload predicate _ =>
      commandId = cmdSysAlert ∧ payload = alert ∧ predicate = some (·.authenticated)
  | .sendTo _ _ _ | .app _ => False
  | .work _ _ | .resumeCast _ _ | .discoveryRequest _ _ | .announceTick => True

/-- The answer of the handler of a command. -/
inductive Answers (transport : TransportType) : UInt16 → Bytes → Prop
  | ping : Answers transport cmdPing (pong transport)
  | login (h : transport = .tcp) : Answers transport cmdLogin []

/-- What is sent in answer to a request. -/
inductive Reply (B : Botan) (transport : TransportType) : FrameHeader → Bytes → Prop
  | plain (cmd : UInt16) (sid : UInt64) (payload : Bytes) (h : Answers transport cmd payload) :
      Reply B transport ⟨cmd, 0, size32 payload, sid⟩ payload
  | keyExchange (sid : UInt64) (key : Octets 32) :
      Reply B transport ⟨cmdKeyExchange, 0, 32, sid⟩ key.val
  | encrypted (cmd : UInt16) (sid : UInt64) (payload : Bytes) (key : AesKey) (iv : Octets 12)
      (enc : Bytes) (h : Answers transport cmd payload)
      (henc : AesGcm.encrypt B ⟨key⟩ (Bytes.littleEndian 2 cmd.toNat ++ payload) [] iv.val = .ok enc) :
      Reply B transport ⟨cmdEncryptedMessage, 0, size32 (sealedReply iv enc), sid⟩ (sealedReply iv enc)

/-- The operation sends nothing but what `R` says. -/
def SendsOnly (R : FrameHeader → Bytes → Prop) : Op → Prop
  | .sendFrame header payload => R header payload
  | .user (.pushEvent _ _) => False
  | .user .session | .user (.setAuthenticated _ _) | .user (.setAesKey _) | .user (.getLocal _)
  | .user (.setLocal _ _) | .user .await => True
  | .generatePrivate | .genIv | .enterAuthenticator _ | .enterHandler _ => True

section Sends

variable {B : Botan} {transport : TransportType} {cmd : UInt16} {ep : Endpoint} {handler : Handler}

theorem router_get (h : router.get cmd = some (ep, handler)) :
    ep.requiresAuth = false ∧ (cmd = cmdPing ∧ handler = ping ∨
      cmd = cmdLogin ∧ handler = login ∧ ep.allowedTransport = .tcp) := by
  obtain ⟨rfl, hhandler⟩ := Router.get_eq_some.mp h
  by_cases hlogin : cmd = cmdLogin
  · subst hlogin
    cases hhandler
    exact ⟨rfl, .inr ⟨rfl, rfl, rfl⟩⟩
  · by_cases hping : cmd = cmdPing
    · subst hping
      cases hhandler
      exact ⟨rfl, .inl ⟨rfl, rfl⟩⟩
    · simp [router, Router.add, Router.tcpOnly, Router.update, Router.empty, hlogin, hping]
        at hhandler

/-- Behind the gate stands the handler of the command, and its answer goes out. -/
theorem always_gate {R : FrameHeader → Bytes → Prop} (h : router.get cmd = some (ep, handler))
    (ctx : Context) (hctx : ctx.transport = transport) {reply : ResponseFrame → Task Unit}
    (hreply : ∀ payload, Answers transport cmd payload →
      (reply { payload := payload }).Always (SendsOnly R)) :
    ((app B).gate ep handler ctx >>= replyWith reply).Always (SendsOnly R) := by
  subst hctx
  obtain ⟨hauth, hcmd⟩ := router_get h
  have hadmission : (app B).admission ep ctx = .ret true := by
    rw [Server.admission, hauth]
    rfl
  rw [gate_bind, hadmission]
  change Coro.Always _ (if true = true ∧ ep.allows ctx.transport then _ else _)
  split
  · rename_i hallowed
    rcases hcmd with ⟨rfl, rfl⟩ | ⟨rfl, rfl, htcp⟩
    · exact ⟨trivial, fun _ => hreply _ .ping⟩
    · have htransport : ctx.transport = .tcp := by
        rcases hallowed.2 with hany | hsame
        · rw [htcp] at hany
          cases hany
        · rw [← hsame, htcp]
      exact ⟨trivial, fun _ => ⟨trivial, fun _ => ⟨trivial, fun _ => hreply [] (.login htransport)⟩⟩⟩
  · trivial

theorem always_processCommand (B : Botan) (frame : ClientFrame) (transport : TransportType) :
    ((app B).processCommand frame transport).Always (SendsOnly (Reply B transport)) := by
  have hofStd : ∀ {α : Type} (r : Except String α) (f : α → Task Unit),
      (∀ a, r = .ok a → (f a).Always (SendsOnly (Reply B transport))) →
        (Task.ofStd r >>= f).Always (SendsOnly (Reply B transport)) := by
    intro α r f hf
    cases r with
    | ok a => exact hf a rfl
    | error _ => trivial
  unfold Server.processCommand
  split
  · unfold Server.handleKeyExchange
    split
    · trivial
    · refine Coro.always_bind ⟨trivial, always_ofStd⟩ fun serverPriv => ?_
      refine hofStd _ _ fun serverPub _ => hofStd _ _ fun shared _ => ?_
      exact ⟨trivial, fun _ => ⟨trivial, fun session => ⟨.keyExchange _ _, always_ofStd⟩⟩⟩
  · split
    · refine Coro.always_bind ⟨trivial, fun _ => trivial⟩ fun session => ?_
      refine hofStd _ _ fun msg _ => ?_
      cases msg with
      | none => trivial
      | some m =>
          obtain ⟨⟨key⟩, cmd, inner⟩ := m
          change ((app B).doRouteAndSend transport ⟨key⟩ cmd inner).Always _
          cases hget : (app B).router.get cmd with
          | none =>
              simp only [Server.doRouteAndSend, hget]
              trivial
          | some found =>
              obtain ⟨ep, handler⟩ := found
              rw [doRouteAndSend_gate hget]
              refine Coro.always_bind ⟨trivial, fun _ => trivial⟩ fun session => ?_
              refine always_gate hget (innerContext transport session.id cmd inner) rfl fun payload hpayload => ?_
              refine Coro.always_bind ⟨trivial, always_ofStd⟩ fun iv => ?_
              refine hofStd _ _ fun enc henc => ?_
              exact ⟨trivial, fun _ =>
                ⟨.encrypted cmd _ payload key iv enc hpayload henc, always_ofStd⟩⟩
    · cases hget : (app B).router.get frame.header.commandId with
      | none =>
          simp only [Server.handleNormalCommand, hget]
          trivial
      | some found =>
          obtain ⟨ep, handler⟩ := found
          rw [handleNormalCommand_eq hget]
          refine always_gate hget ⟨frame.header, frame.payload, transport⟩ rfl fun payload hpayload => ?_
          exact ⟨trivial, fun _ => ⟨.plain _ _ payload hpayload, always_ofStd⟩⟩

/-- What a request sends next. -/
theorem sent_of_advance {R : FrameHeader → Bytes → Prop} {t t' : RequestState} {c c' : Task Unit}
    {a : Answer} {es : List RequestEvent} (hc : c.Always (SendsOnly R))
    (h : Coroutine.advance requestSem t c a = some (t', c', es)) {header : FrameHeader}
    {payload : Bytes} (hsent : .sent header payload ∈ es) : R header payload := by
  cases c with
  | ret _ | throw _ => cases h
  | call o k =>
      cases h
      have hop := hc.1
      cases o with
      | user u =>
          cases u with
          | pushEvent _ _ => exact hop.elim
          | session | setAuthenticated _ _ | setAesKey _ | getLocal _ | setLocal _ _ | await =>
              cases hsent
      | generatePrivate | genIv => cases hsent
      | enterAuthenticator _ | enterHandler _ => simp [requestSem, answerOp] at hsent
      | sendFrame header' payload' =>
          change _ ∈ sentEvents header' payload' a.sent at hsent
          cases hanswer : a.sent with
          | error _ =>
              rw [hanswer] at hsent
              cases hsent
          | ok u =>
              rw [hanswer] at hsent
              simp only [sentEvents, List.mem_singleton, RequestEvent.sent.injEq] at hsent
              obtain ⟨rfl, rfl⟩ := hsent
              exact hop

end Sends

/-- Only the handler of the login logs in, and only over TCP. -/
def Grants (callee : Callee) (ctx : Context) : Prop :=
  callee = .handler ∧ ctx.header.commandId = cmdLogin ∧ ctx.transport = .tcp

theorem grantsOnly (B : Botan) : (app B).GrantsOnly Grants where
  authenticator ctx _ := ⟨rfl, fun _ => trivial⟩
  handler ctx ep handler hget hallows hgrants := by
    rcases (router_get hget).2 with ⟨-, rfl⟩ | ⟨hcmd, rfl, htcp⟩
    · trivial
    · rcases hallows with hany | hsame
      · rw [htcp] at hany
        cases hany
      · exact absurd ⟨rfl, hcmd, hsame.symm.trans htcp⟩ hgrants

/-- Streams are binary and broadcasts are alerts. -/
structure Sound (s : Engine) : Prop where
  modes : ∀ c ∈ s.conns, c.mode = .binary
  casts : ∀ b ∈ s.casts, b.message = (cmdSysAlert, alert, some (·.authenticated))

theorem castStep_message {s s' : Engine} {k : Nat} {b : Cast} {r : Except Exc Unit}
    {evs : List Event} (h : s.castStep k b r = some (s', evs)) :
    ∃ b', s'.casts = s.casts.set k b' ∧ b'.message = b.message := by
  cases Engine.castStep_cases h with
  | thrown _ _ | fetched _ _ _ _ | chosen _ _ _ _ _ _ => exact ⟨_, rfl, rfl⟩
  | written _ | skipped _ _ _ _ _ _ => exact ⟨_, rfl, Engine.nextCast_message s k _⟩

theorem sound_step {B : Botan} {s s' : Engine} {a : Label} {evs : List Event} (h : Sound s)
    (ha : Does a) (hs : s.step (app B) a = some (s', evs)) : Sound s' := by
  cases Engine.step_form hs with
  | rejected _ _ _ _ | sentTo _ _ _ | settings _ _ _ => exact ⟨h.modes, h.casts⟩
  | accepted mode fd _ _ =>
      refine ⟨fun c hc => ?_, h.casts⟩
      rcases List.mem_append.mp hc with hc | hc
      · exact h.modes c hc
      · rw [List.mem_singleton] at hc
        subst hc
        exact ha
  | @conn i c act _ _ hc hstep =>
      obtain ⟨c', hconns, -, hmode, -⟩ := hstep.conns_eq
      refine ⟨fun d hd => ?_, ?_⟩
      · rw [hconns] at hd
        rcases List.mem_or_eq_of_mem_set hd with hd | rfl
        · exact h.modes d hd
        · exact hmode.trans (h.modes c (List.mem_of_getElem? hc))
      · cases hstep <;> exact h.casts
  | udp _ hstep => cases hstep <;> exact ⟨h.modes, h.casts⟩
  | castStarted commandId payload predicate order _ =>
      refine ⟨h.modes, fun b hb => ?_⟩
      obtain ⟨rfl, rfl, rfl⟩ := ha
      rcases List.mem_append.mp hb with hb | hb
      · exact h.casts b hb
      · rw [List.mem_singleton] at hb
        subst hb
        exact Engine.nextCast_message s _ _
  | @castResumed k b r _ _ hb hstep =>
      obtain ⟨b', hcasts, hmessage⟩ := castStep_message hstep
      refine ⟨(Engine.castStep_frame hstep).1 ▸ h.modes, fun d hd => ?_⟩
      rw [hcasts] at hd
      rcases List.mem_or_eq_of_mem_set hd with hd | rfl
      · exact h.casts d hd
      · exact hmessage.trans (h.casts b (List.mem_of_getElem? hb))

section Runs

variable {B : Botan} {tr : List (Step Engine Label Event)} {s : Engine}

theorem sound_run (h : Trace (Engine.step (app B)) (Engine.init (app B) {} false) tr s)
    (hdoes : ∀ x ∈ tr, Does x.label) : Sound s := by
  refine (h.invariant Sound (fun _ a => Does a) ?_ ?_ ?_).1
  · exact ⟨by simp [Engine.init], by simp [Engine.init]⟩
  · exact fun _ _ _ _ hinv hdo hs => sound_step hinv hdo hs
  · exact hdoes

/-- What a request in flight sends is a reply. -/
theorem reply_of_progress (hc : Engine.RequestsConsistent (app B) s) {w : Worker}
    {req req' : Request} (hreq : s.inFlight w = some req) {ans : Answer} {es : List RequestEvent}
    (ha : req.advance ans = some (req', es)) {header : FrameHeader} {payload : Bytes}
    (hsent : .sent header payload ∈ es) : Reply B w.transport header payload := by
  obtain ⟨state, task, hadv, -⟩ := Request.advance_eq_some.mp ha
  exact sent_of_advance (always_resume (always_processCommand B req.frame w.transport)
    (hc w req hreq).run) hadv hsent

end Runs

/-- A login handler has run for the session, on a stream. -/
def LoggedIn (evs : List Event) (sid : UInt64) : Prop :=
  ∃ i ctx t, .request (.conn i) (.handlerCalled ctx t) ∈ evs ∧
    ctx.header.commandId = cmdLogin ∧ t.session.id = sid

theorem loggedIn_of_granted {evs : List Event} {sid : UInt64}
    (h : Engine.Granted Grants evs sid) : LoggedIn evs sid := by
  obtain ⟨w, callee, ctx, t, he, htransport, hsid, rfl, hcmd, htcp⟩ := h
  cases w with
  | conn i => exact ⟨i, ctx, t, he, hcmd, hsid⟩
  | udp j => cases htcp.symm.trans htransport

/-- What the server puts on its sockets, after the events that have happened before. -/
inductive Output (B : Botan) (before : List Event) : Event → Prop
  | reply (i : Nat) (fd : Fd) (header : FrameHeader) (payload : Bytes)
      (h : Reply B .tcp header payload) :
      Output B before (.wrote (.reply i) header.sessionId fd (binaryFrame header payload))
  | datagram (j : Nat) (header : FrameHeader) (payload : Bytes) (h : Reply B .udp header payload) :
      Output B before (.sentDatagram j (binaryFrame header payload))
  | alert (k : Nat) (sid : UInt64) (fd : Fd) (h : LoggedIn before sid) :
      Output B before (.wrote (.cast k) sid fd (binaryFrame ⟨cmdSysAlert, 0, 26, sid⟩ alert))

section Outputs

variable {B : Botan} {s s' : Engine} {a : Label} {evs before : List Event}

theorem output_datagram (hc : Engine.RequestsConsistent (app B) s)
    (hs : s.step (app B) a = some (s', evs)) {j : Nat} {bytes : Bytes}
    (hev : .sentDatagram j bytes ∈ evs) : Output B before (.sentDatagram j bytes) := by
  cases Engine.step_form hs with
  | accepted _ _ _ _ | rejected _ _ _ _ => simp at hev
  | conn hconn hstep =>
      cases hstep with
      | progress ans req req' es hp ha =>
          obtain ⟨e, -, hev⟩ := List.mem_flatMap.mp hev
          cases e <;> simp [Engine.streamEvents] at hev
      | frame _ _ | load _ _ | save _ _ _ | leave _ _ _ _ | notify _ _ _ _ _ | noPool _ _ _ _ _
      | escape _ _ _ | notified _ | notifyFailed _ _ => simp at hev
  | @udp j' p act _ _ hp hstep =>
      cases hstep with
      | frame _ _ | load _ _ | save _ _ _ | fail _ _ => simp at hev
      | progress ans req req' es hreq ha =>
          obtain ⟨e, he, hev⟩ := List.mem_flatMap.mp hev
          cases e with
          | authenticatorCalled _ _ | handlerCalled _ _ => simp [Engine.datagramEvents] at hev
          | sent header payload =>
              simp only [Engine.datagramEvents, List.mem_cons, reduceCtorEq, Event.sentDatagram.injEq,
                List.not_mem_nil, or_false, false_or] at hev
              obtain ⟨rfl, rfl⟩ := hev
              have hflight : s.inFlight (.udp j) = some req := by
                simp [Engine.inFlight, Engine.phaseOf, hp, hreq, Phase.request]
              exact .datagram j header payload (reply_of_progress hc hflight ha he)
  | sentTo sid commandId payload =>
      cases hl : s.sessions.lookup sid with
      | none => simp [hl] at hev
      | some fd =>
          rw [hl] at hev
          cases Engine.submit_isWrite _ hev
  | castStarted _ _ _ _ _ => cases Engine.nextCast_isWrite _ hev
  | castResumed _ hstep => cases Engine.castStep_isWrite hstep _ hev
  | settings _ hquiet _ => cases hquiet _ hev

/-- The send of a broadcast is the alert. -/
theorem castSend_alert {k : Nat} {b : Cast} {d : Engine.DirectSend}
    (hb : b.message = (cmdSysAlert, alert, some (·.authenticated)))
    (h : Engine.castSend k b = some d) :
    d.bytes = binaryFrame ⟨cmdSysAlert, 0, 26, d.sid⟩ alert := by
  simp only [Cast.message, Prod.mk.injEq] at hb
  obtain ⟨hcmd, hpayload, -⟩ := hb
  have hsize : size32 alert = 26 := by decide
  unfold Engine.castSend at h
  split at h
  · split at h
    · cases h
      simp [Engine.DirectSend.bytes, hcmd, hpayload, hsize]
    · cases h
  · split at h
    · cases h
      simp [Engine.DirectSend.bytes, hcmd, hpayload, hsize]
    · cases h
  · cases h

theorem output_wrote (hsound : Sound s) (hc : Engine.RequestsConsistent (app B) s)
    (hprovenance : Engine.Provenance Grants before s) (ha : Does a)
    (hs : s.step (app B) a = some (s', evs)) {origin : Origin} {sid : UInt64} {fd : Fd}
    {bytes : Bytes} (hev : .wrote origin sid fd bytes ∈ evs) :
    Output B before (.wrote origin sid fd bytes) := by
  cases Engine.wrote_cases hs hev with
  | reply i c ans req req' es header payload hconn hp hadv hsent =>
      have hflight : s.inFlight (.conn i) = some req := by
        simp [Engine.inFlight, Engine.phaseOf, hconn, hp, Phase.request]
      rw [hsound.modes c (List.mem_of_getElem? hconn)]
      exact .reply i c.fd header payload (reply_of_progress hc hflight hadv hsent)
  | direct d hd _ =>
      cases a with
      | sendTo _ _ _ => exact ha.elim
      | accept _ _ | work _ _ | app _ | discoveryRequest _ _ | announceTick => cases hd
      | broadcast commandId payload predicate order =>
          obtain ⟨-, -, hpredicate⟩ := ha
          obtain ⟨-, -, -, htested⟩ := Engine.castSend_eq_some hd
          obtain ⟨session, hst, -⟩ := htested _ hpredicate
          cases hst
      | resumeCast k result =>
          cases result with
          | error e => cases hd
          | ok u =>
              obtain ⟨b, hb, hd⟩ := Option.bind_eq_some_iff.mp hd
              have hmem := List.mem_of_getElem? hb
              have hmessage := hsound.casts b hmem
              have hpredicate : b.predicate = some (·.authenticated) := congrArg (·.2.2) hmessage
              obtain ⟨horigin, -, -, htested⟩ := Engine.castSend_eq_some hd
              obtain ⟨session, hst, hid, hauth⟩ := htested _ hpredicate
              obtain ⟨sid, hsid, hgranted⟩ := hprovenance.casts b hmem session hst hauth
              rw [Option.mem_def, hid] at hsid
              cases hsid
              rw [horigin, castSend_alert hmessage hd]
              exact .alert k d.sid d.fd (loggedIn_of_granted hgranted)

end Outputs

/-- In every run of the server, whatever its clients send and in whatever order its coroutines go on:
all that it puts on a stream or into a datagram is the answer of a handler (plain, or encrypted
under some key), a key exchange, or the alert; the alert goes to sessions on which a login had
been handled on a stream before, and no other session is ever authenticated. -/
theorem application_outputs (B : Botan) (tr : List (Step Engine Label Event)) (s : Engine)
    (h : Trace (Engine.step (app B)) (Engine.init (app B) {} false) tr s)
    (hdoes : ∀ x ∈ tr, Does x.label) :
    (∀ before x after, tr = before ++ x :: after →
      ∀ ev ∈ x.events, Engine.IsOutput ev → Output B (eventsOf before) ev) ∧
    ∀ sid record, s.store.lookup sid = some record → record.authenticated = true →
      LoggedIn (eventsOf tr) sid := by
  refine ⟨?_, fun sid record hl hauth => ?_⟩
  · rintro before x after rfl ev hev hout
    obtain ⟨m, hbefore, hafter⟩ := h.split
    obtain ⟨rfl, hstep, -⟩ := hafter.split_cons
    have hsound := sound_run hbefore fun y hy => hdoes y (List.mem_append_left _ hy)
    have hc := (Engine.requests_run hbefore).2
    rcases hout with ⟨origin, sid, fd, bytes, rfl⟩ | ⟨j, bytes, rfl⟩
    · exact output_wrote hsound hc (Engine.provenance_run (grantsOnly B) hbefore)
        (hdoes x (by simp)) hstep hev
    · exact output_datagram hc hstep hev
  · exact loggedIn_of_granted ((Engine.provenance_run (grantsOnly B) h).store sid record hl hauth)

/-- Session 7 logs in on a stream and session 8 in a datagram, and then the alert is due. -/
def alertLabels : List Label :=
  [.accept .binary 5, .work (.conn 0) (.frame (.command cmdLogin 7)), .work (.conn 0) .load] ++
    List.replicate 5 (.work (.conn 0) (.progress {})) ++
    [.work (.conn 0) .save, .work (.udp 0) (.frame (.command cmdLogin 8)), .work (.udp 0) .load,
      .work (.udp 0) .save, .broadcast cmdSysAlert alert (some (·.authenticated)) [(7, 5)],
      .resumeCast 0 (.ok ()), .resumeCast 0 (.ok ())]

theorem does_alertLabels : ∀ a ∈ alertLabels, Does a := by
  intro a ha
  simp only [alertLabels, List.mem_append, List.mem_replicate, List.mem_cons, List.not_mem_nil,
    or_false] at ha
  rcases ha with ((rfl | rfl | rfl) | ⟨-, rfl⟩) | rfl | rfl | rfl | rfl | rfl | rfl | rfl
  case inr.inr.inr.inr.inr.inl => exact ⟨rfl, rfl, rfl⟩
  all_goals trivial

def isAlert : Event → Bool
  | .wrote (.cast 0) sid fd _ => sid = 7 ∧ fd = 5
  | _ => false

theorem application_outputs_alert : ∃ tr s,
    Trace (Engine.step (app .unavailable)) (Engine.init (app .unavailable) {} false) tr s ∧
      (eventsOf tr).countP isAlert = 1 ∧ (s.record 8).authenticated = false ∧
      LoggedIn (eventsOf tr) 7 := by
  obtain ⟨⟨tr, s⟩, hexec, halert, hrecord, hother⟩ : ∃ r ∈ exec (Engine.step (app .unavailable))
      (Engine.init (app .unavailable) {} false) alertLabels,
      (eventsOf r.1).countP isAlert = 1 ∧
      (∃ record ∈ r.2.store.lookup 7, record.authenticated = true) ∧
      (r.2.record 8).authenticated = false := by decide +kernel
  obtain ⟨record, hl, hauth⟩ := hrecord
  have htr := trace_of_exec hexec
  have hdoes : ∀ x ∈ tr, Does x.label := fun x hx =>
    does_alertLabels x.label (labels_of_exec hexec ▸ List.mem_map_of_mem hx)
  exact ⟨tr, s, htr, halert, hother,
    (application_outputs .unavailable tr s htr hdoes).2 7 record hl hauth⟩

end Servd.Application
