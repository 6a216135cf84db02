import Mathlib.Data.List.Forall2
import Mathlib.Data.List.ReduceOption
import Servd.Conversation
import Servd.LifeCycle

/-!
Requests and replies. As long as the application pushes nothing of its own, the frames
that go back through a connection are the replies to its requests, in their order and
at most one for each; and which requests get one is decided by the frame, the gate and
the handler.
-/
namespace Servd

open Coroutine

/-- What is assumed of the handlers: they push no events, and what they return leaves room for the
command, the IV and the tag of an encrypted reply. -/
structure Server.HandlersReply (srv : Server) : Prop where
  pushless : ∀ cmd ep handler, srv.router.get cmd = some (ep, handler) → ∀ ctx,
    (handler ctx).Pushless
  fits : ∀ cmd ep handler, srv.router.get cmd = some (ep, handler) → ∀ ctx,
    (handler ctx).Returns fun response => response.payload.length < 2 ^ 32 - 30

/-- Key agreement and encryption succeed, and an encryption is as long as its message and a tag. -/
structure Botan.Succeeds (B : Botan) : Prop where
  publicValue : ∀ priv, ∃ pub, B.publicValue priv = .ok pub
  deriveKey : ∀ priv pub, ∃ key, B.deriveKey priv pub = .ok key
  sealMessage : ∀ key iv message, ∃ enc, B.sealMessage key iv message = .ok enc ∧
    enc.length = message.length + AesGcm.tagSize

/-- Sends succeed, and so do the calls that need random bytes. -/
structure Answer.Succeeds (a : Answer) : Prop where
  sent : a.sent = .ok ()
  privateKey : ∃ key, a.privateKey = .ok key
  iv : ∃ iv, a.iv = .ok iv

/-- The store returns the session it is asked for, and what the request waits for succeeds. -/
structure Arrival.Succeeds (a : Arrival) : Prop where
  session_id : ∀ session, a.loaded = .ok session → session.id = a.sessionId
  answers : ∀ n, (a.answers n).Succeeds

section Exec

variable {α : Type} {t : RequestState} {stream : Nat → Answer}

theorem exec_session_id (c : Task α) (t : RequestState) (stream : Nat → Answer) :
    (exec requestSem c t stream).state.session.id = t.session.id :=
  resume_session_id (resume_exec c t stream)

theorem exec_sendFrame (h : (stream 0).Succeeds) (header : FrameHeader) (payload : Bytes) :
    exec requestSem (Task.sendFrame header payload) t stream =
      ⟨t, .ok (), [.sent header payload], 1⟩ := by
  have hanswer : requestSem.answer t (.sendFrame header payload) (stream 0) =
      (.ok (), t, [.sent header payload]) := by
    simp only [requestSem, answerOp, h.sent]
    rfl
  exact exec_call hanswer Task.ofStd

theorem exec_genIv {iv : Octets 12} (h : (stream 0).iv = .ok iv) :
    exec requestSem Task.genIv t stream = ⟨t, .ok iv, [], 1⟩ := by
  have hanswer : requestSem.answer t .genIv (stream 0) = (.ok iv, t, []) := by
    simp only [requestSem, answerOp, h]
  exact exec_call hanswer Task.ofStd

theorem exec_generatePrivate {key : Octets 32} (h : (stream 0).privateKey = .ok key) :
    exec requestSem Task.generatePrivate t stream = ⟨t, .ok key, [], 1⟩ := by
  have hanswer : requestSem.answer t .generatePrivate (stream 0) = (.ok key, t, []) := by
    simp only [requestSem, answerOp, h]
  exact exec_call hanswer Task.ofStd

theorem exec_setAesKey (key : AesKey) (f : Unit → Task α) (t : RequestState)
    (stream : Nat → Answer) :
    exec requestSem (Task.setAesKey key >>= f) t stream =
      { exec requestSem (f ()) { t with session := t.session.setAesKey key }
          (fun n => stream (n + 1)) with
        consumed := (exec requestSem (f ()) { t with session := t.session.setAesKey key }
          fun n => stream (n + 1)).consumed + 1 } :=
  rfl

/-- For every response that leaves the room for it, one frame is sent, of the command and for the
session, and of the size it declares. -/
def Replying (cmd : UInt16) (sid : UInt64) (reply : ResponseFrame → Task Unit) : Prop :=
  ∀ (response : ResponseFrame) (t : RequestState) (stream : Nat → Answer),
    response.payload.length < 2 ^ 32 - 30 → t.session.id = sid → (∀ n, (stream n).Succeeds) →
    ∃ header payload,
      (exec requestSem (reply response) t stream).events = [.sent header payload] ∧
      header.commandId = cmd ∧ header.sessionId = sid ∧
      header.payloadLength.toNat = payload.length

theorem replying_plainReply (cmd : UInt16) (sid : UInt64) :
    Replying cmd sid (plainReply cmd) := by
  intro response t stream hfits hsid h
  refine ⟨⟨cmd, response.flags, size32 response.payload, t.session.id⟩, response.payload, ?_, rfl,
    hsid, toNat_size32_of_lt (by omega)⟩
  rw [plainReply, exec_session, exec_sendFrame (h 1)]

theorem replying_encryptedReply {srv : Server} (hB : srv.botan.Succeeds) (key : AesKey)
    (cmd : UInt16) (sid : UInt64) :
    Replying cmdEncryptedMessage sid (srv.encryptedReply key cmd) := by
  intro response t stream hfits hsid h
  obtain ⟨iv, hiv⟩ := (h 0).iv
  obtain ⟨enc, henc, hlength⟩ :=
    hB.sealMessage key iv (Bytes.littleEndian 2 cmd.toNat ++ response.payload)
  rw [List.length_append, Bytes.length_littleEndian, AesGcm.tagSize] at hlength
  have hout := length_sealedReply iv (show 16 ≤ enc.length by omega)
  have hgen := exec_genIv (t := t) hiv
  refine ⟨⟨cmdEncryptedMessage, response.flags, size32 (sealedReply iv enc), t.session.id⟩,
    sealedReply iv enc, ?_, rfl, hsid, toNat_size32_of_lt (by omega)⟩
  rw [Server.encryptedReply, exec_bind_of_ok _ _ _ _ (by rw [hgen]), hgen,
    AesGcm.encrypt_no_aad, henc, Task.ofStd_ok, Coro.ret_bind, exec_session,
    exec_sendFrame (h 2)]
  rfl

end Exec

section Gate

variable {α : Type} {srv : Server} {ep : Endpoint} {handler : Handler} {ctx : Context}

/-- Entering application code is an event, and no frame. -/
theorem framesSent_enter {c : UserTask α} {o : Op} (hc : c.Pushless) (ho : o.Silent)
    (t : RequestState) (stream : Nat → Answer) :
    framesSent (exec requestSem (.call o fun _ => c.lift) t stream).events = [] :=
  framesSent_of_silent (c := .call o fun _ => c.lift) ⟨ho, fun _ => hc.always_silent⟩
    (resume_exec _ t stream)

theorem framesSent_bind {β : Type} {c : Task α} {f : α → Task β} {t : RequestState}
    {stream : Nat → Answer} (hc : framesSent (exec requestSem c t stream).events = []) :
    framesSent (exec requestSem (c >>= f) t stream).events =
      match (exec requestSem c t stream).result with
      | .ok a => framesSent (exec requestSem (f a) (exec requestSem c t stream).state
          fun n => stream (n + (exec requestSem c t stream).consumed)).events
      | .error _ => [] := by
  cases h : (exec requestSem c t stream).result with
  | ok a =>
      rw [exec_bind_of_ok c t stream f h]
      simp [Execution.andThen, hc]
  | error e =>
      rw [exec_bind_of_error c t stream f h]
      simp [Execution.andThen, hc]

theorem framesSent_gate (hhandler : (handler ctx).Pushless)
    (hauthenticator : (srv.authenticator ctx).Pushless) (t : RequestState)
    (stream : Nat → Answer) :
    framesSent (exec requestSem (srv.gate ep handler ctx) t stream).events = [] := by
  have hadmission : framesSent (exec requestSem (srv.admission ep ctx) t stream).events = [] := by
    unfold Server.admission
    split
    · exact framesSent_enter (o := .enterAuthenticator ctx) hauthenticator trivial t stream
    · rfl
  rw [Server.gate, framesSent_bind hadmission]
  cases (exec requestSem (srv.admission ep ctx) t stream).result with
  | error e => rfl
  | ok admitted =>
      simp only
      split
      · rw [framesSent_bind (c := Task.handle handler ctx)
          (framesSent_enter (o := .enterHandler ctx) hhandler trivial _ _)]
        cases (exec requestSem (Task.handle handler ctx) _ _).result <;> rfl
      · rfl

theorem returns_lift {P : α → Prop} {c : UserTask α} (hc : c.Returns P) : c.lift.Returns P := by
  induction c with
  | ret a => exact hc
  | throw e => trivial
  | call u k ih => exact fun r => ih r (hc r)

theorem gate_returns {P : ResponseFrame → Prop} (hhandler : (handler ctx).Returns P) :
    (srv.gate ep handler ctx).Returns fun result => ∀ response, result = some response →
      P response := by
  refine Coro.returns_bind (Coro.returns_true _) fun admitted _ => ?_
  split
  · refine Coro.returns_bind (P := P) (fun _ => returns_lift hhandler) fun response hP => ?_
    rintro _ ⟨⟩
    exact hP
  · rintro _ ⟨⟩

end Gate

/-- The request is one that gets a reply: a key exchange with a key, or a registered command whose
gate lets it through to a handler that returns, in a frame of its own or in an encrypted message
that decrypts to it. -/
inductive Arrival.Answerable (srv : Server) (transport : TransportType) (a : Arrival) : Prop
  | keyExchange (hcmd : a.frame.header.commandId = cmdKeyExchange)
      (hsize : a.frame.payload.length = 32)
  | plain {session : Session} {ep : Endpoint} {handler : Handler} {response : ResponseFrame}
      (hcmd : a.frame.header.commandId ≠ cmdKeyExchange ∧
        a.frame.header.commandId ≠ cmdEncryptedMessage) (hload : a.loaded = .ok session)
      (hget : srv.router.get a.frame.header.commandId = some (ep, handler))
      (hgate : (exec requestSem (srv.gate ep handler ⟨a.frame.header, a.frame.payload, transport⟩)
        (.start session) a.answers).result = .ok (some response))
  | encrypted {session : Session} {cmd : UInt16} {inner : Bytes} {ep : Endpoint}
      {handler : Handler} {response : ResponseFrame}
      (hcmd : a.frame.header.commandId = cmdEncryptedMessage) (hload : a.loaded = .ok session)
      (hmessage : innerMessage srv.botan session.installedKey a.frame.payload = some (cmd, inner))
      (hget : srv.router.get cmd = some (ep, handler))
      -- the session is read twice in front of the gate
      (hgate : (exec requestSem (srv.gate ep handler (innerContext transport session.id cmd inner))
        (.start session) fun n => a.answers (n + 2)).result = .ok (some response))

/-- There is a reply if the request is one that gets one, and it has the command and the session
of the request and the size of its own payload. -/
structure Arrival.Replied (srv : Server) (transport : TransportType) (a : Arrival)
    (reply : Option (FrameHeader × Bytes)) : Prop where
  isSome_iff : reply.isSome = true ↔ a.Answerable srv transport
  header : ∀ header payload, reply = some (header, payload) →
    header.commandId = a.frame.header.commandId ∧ header.sessionId = a.sessionId ∧
      header.payloadLength.toNat = payload.length

section Processed

variable {srv : Server} {transport : TransportType} {a : Arrival} {session : Session}

theorem Arrival.replied_none (h : ¬ a.Answerable srv transport) :
    a.Replied srv transport none :=
  ⟨by simp [h], by simp⟩

theorem Arrival.replied_some (h : a.Answerable srv transport) {header : FrameHeader}
    {payload : Bytes} (hcmd : header.commandId = a.frame.header.commandId)
    (hsid : header.sessionId = a.sessionId)
    (hsize : header.payloadLength.toNat = payload.length) :
    a.Replied srv transport (some (header, payload)) := by
  refine ⟨by simp [h], ?_⟩
  intro header' payload' heq
  cases heq
  exact ⟨hcmd, hsid, hsize⟩

section Admitted

variable {ep : Endpoint} {handler : Handler} {ctx : Context}
  (hhandler : (handler ctx).Pushless) (hauthenticator : (srv.authenticator ctx).Pushless)

include hhandler hauthenticator

/-- What a gate and the reply behind it send. -/
theorem framesSent_replyWith (reply : ResponseFrame → Task Unit) (t : RequestState)
    (stream : Nat → Answer) :
    framesSent (exec requestSem (srv.gate ep handler ctx >>= replyWith reply) t stream).events =
      match (exec requestSem (srv.gate ep handler ctx) t stream).result with
      | .ok (some response) =>
          framesSent (exec requestSem (reply response)
            (exec requestSem (srv.gate ep handler ctx) t stream).state
            fun n => stream (n + (exec requestSem (srv.gate ep handler ctx) t stream).consumed)).events
      | .ok none | .error _ => [] := by
  rw [framesSent_bind (framesSent_gate hhandler hauthenticator t stream)]
  cases (exec requestSem (srv.gate ep handler ctx) t stream).result with
  | error e => rfl
  | ok result => cases result <;> rfl

/-- A request that comes to a gate gets its reply if the gate lets it through. -/
theorem exists_reply_gate {t : RequestState} {stream : Nat → Answer}
    {reply : ResponseFrame → Task Unit}
    (hfits : (handler ctx).Returns fun response => response.payload.length < 2 ^ 32 - 30)
    (hreply : Replying a.frame.header.commandId a.sessionId reply)
    (hsid : t.session.id = a.sessionId) (hstream : ∀ n, (stream n).Succeeds)
    (hanswerable : a.Answerable srv transport ↔ ∃ response,
      (exec requestSem (srv.gate ep handler ctx) t stream).result = .ok (some response)) :
    ∃ r, a.Replied srv transport r ∧
      framesSent (exec requestSem (srv.gate ep handler ctx >>= replyWith reply) t stream).events =
        r.toList := by
  rw [framesSent_replyWith hhandler hauthenticator]
  cases hgate : (exec requestSem (srv.gate ep handler ctx) t stream).result with
  | error e => exact ⟨none, Arrival.replied_none (by simp [hanswerable, hgate]), rfl⟩
  | ok result =>
      cases result with
      | none => exact ⟨none, Arrival.replied_none (by simp [hanswerable, hgate]), rfl⟩
      | some response =>
          have hroom := result_of_returns (gate_returns hfits) hgate response rfl
          obtain ⟨header, payload, hevents, hcmd, hsession, hsize⟩ := hreply response _ _ hroom
            ((exec_session_id _ t stream).trans hsid) fun n => hstream _
          refine ⟨some (header, payload), Arrival.replied_some ?_ hcmd hsession hsize, ?_⟩
          · exact hanswerable.mpr ⟨response, hgate⟩
          · simp only
            rw [hevents]
            rfl

end Admitted

theorem exists_reply_keyExchange (hB : srv.botan.Succeeds) (ha : a.Succeeds)
    (hload : a.loaded = .ok session) (hcmd : a.frame.header.commandId = cmdKeyExchange) :
    ∃ reply, a.Replied srv transport reply ∧
      framesSent (a.processed srv transport session).events = reply.toList := by
  have hanswerable : a.Answerable srv transport ↔ a.frame.payload.length = 32 := by
    constructor
    · intro h
      cases h with
      | keyExchange _ hsize => exact hsize
      | plain hother _ _ _ => exact absurd hcmd hother.1
      | encrypted hother _ _ _ _ =>
          rw [hcmd] at hother
          cases hother
    · exact .keyExchange hcmd
  have hprocess : srv.processCommand a.frame transport = srv.handleKeyExchange a.frame :=
    if_pos hcmd
  rw [Arrival.processed, hprocess]
  by_cases hsize : a.frame.payload.length = 32
  · obtain ⟨priv, hpriv⟩ := (ha.answers 0).privateKey
    obtain ⟨pub, hpub⟩ := hB.publicValue priv
    obtain ⟨key, hkey⟩ := hB.deriveKey priv (Octets.ofBytes 32 a.frame.payload)
    have hpublic : X25519.publicKey srv.botan priv = .ok (Octets.ofBytes 32 pub) := by
      rw [X25519.publicKey, hpub]
      rfl
    have hshared : X25519.sharedSecret srv.botan priv (Octets.ofBytes 32 a.frame.payload) =
        .ok (Octets.ofBytes 32 key) := by
      rw [X25519.sharedSecret, hkey]
      rfl
    have hgen := exec_generatePrivate (t := .start session) hpriv
    rw [Server.handleKeyExchange, if_neg (by simp [hsize])]
    simp only
    rw [exec_bind_of_ok _ _ _ _ (by rw [hgen]), hgen]
    simp only [hpublic, hshared, Task.ofStd_ok, Coro.ret_bind]
    rw [exec_setAesKey, exec_session, exec_sendFrame (ha.answers 3)]
    refine ⟨some (_, _), Arrival.replied_some (hanswerable.mpr hsize) hcmd.symm ?_ ?_, rfl⟩
    · exact ha.session_id session hload
    · exact (Octets.ofBytes 32 pub).property.symm
  · refine ⟨none, Arrival.replied_none (by simp [hanswerable, hsize]), ?_⟩
    rw [Server.handleKeyExchange, if_pos hsize]
    rfl

theorem exists_reply_plain (hsrv : srv.HandlersReply)
    (hauthenticator : ∀ ctx, (srv.authenticator ctx).Pushless) (ha : a.Succeeds)
    (hload : a.loaded = .ok session)
    (hcmd : a.frame.header.commandId ≠ cmdKeyExchange ∧
      a.frame.header.commandId ≠ cmdEncryptedMessage) :
    ∃ reply, a.Replied srv transport reply ∧
      framesSent (a.processed srv transport session).events = reply.toList := by
  have hprocess : srv.processCommand a.frame transport =
      srv.handleNormalCommand a.frame transport := by
    simp [Server.processCommand, hcmd]
  rw [Arrival.processed, hprocess]
  have hanswerable : a.Answerable srv transport ↔ ∃ ep handler response,
      srv.router.get a.frame.header.commandId = some (ep, handler) ∧
      (exec requestSem (srv.gate ep handler ⟨a.frame.header, a.frame.payload, transport⟩)
        (.start session) a.answers).result = .ok (some response) := by
    constructor
    · intro h
      cases h with
      | keyExchange hother _ => exact absurd hother hcmd.1
      | encrypted hother _ _ _ _ => exact absurd hother hcmd.2
      | plain _ hload' hget hgate =>
          rw [hload] at hload'
          cases hload'
          exact ⟨_, _, _, hget, hgate⟩
    · rintro ⟨ep, handler, response, hget, hgate⟩
      exact .plain hcmd hload hget hgate
  cases hget : srv.router.get a.frame.header.commandId with
  | none =>
      refine ⟨none, Arrival.replied_none (by simp [hanswerable, hget]), ?_⟩
      simp only [Server.handleNormalCommand, hget]
      rfl
  | some found =>
      obtain ⟨ep, handler⟩ := found
      rw [handleNormalCommand_eq hget]
      exact exists_reply_gate (hsrv.pushless _ ep handler hget _) (hauthenticator _)
        (hsrv.fits _ ep handler hget _) (replying_plainReply _ _) (ha.session_id session hload)
        ha.answers (by simp [hanswerable, hget])

theorem exists_reply_encrypted (hsrv : srv.HandlersReply)
    (hauthenticator : ∀ ctx, (srv.authenticator ctx).Pushless) (hB : srv.botan.Succeeds)
    (ha : a.Succeeds) (hload : a.loaded = .ok session)
    (hcmd : a.frame.header.commandId = cmdEncryptedMessage) :
    ∃ reply, a.Replied srv transport reply ∧
      framesSent (a.processed srv transport session).events = reply.toList := by
  have hprocess : srv.processCommand a.frame transport =
      srv.handleEncryptedMessage a.frame transport := by
    rw [Server.processCommand, hcmd]
    rfl
  have hanswerable : a.Answerable srv transport ↔ ∃ cmd inner ep handler response,
      innerMessage srv.botan session.installedKey a.frame.payload = some (cmd, inner) ∧
      srv.router.get cmd = some (ep, handler) ∧
      (exec requestSem (srv.gate ep handler (innerContext transport session.id cmd inner))
        (.start session) fun n => a.answers (n + 2)).result = .ok (some response) := by
    constructor
    · intro h
      cases h with
      | keyExchange hother _ =>
          rw [hcmd] at hother
          cases hother
      | plain hother _ _ _ => exact absurd hcmd hother.2
      | encrypted _ hload' hmessage hget hgate =>
          rw [hload] at hload'
          cases hload'
          exact ⟨_, _, _, _, _, hmessage, hget, hgate⟩
    · rintro ⟨cmd, inner, ep, handler, response, hmessage, hget, hgate⟩
      exact .encrypted hcmd hload hmessage hget hgate
  rw [Arrival.processed, hprocess, Server.handleEncryptedMessage, exec_session]
  simp only [show (RequestState.start session).session = session from rfl]
  cases doDecrypt_cases srv.botan a.frame.payload session with
  | rejected hnone hd | unavailable what hnone hd =>
      rw [hd]
      exact ⟨none, Arrival.replied_none (by simp [hanswerable, hnone]), rfl⟩
  | authentic cmd inner _ hmessage hd =>
      rw [hd, Task.ofStd_ok, Coro.ret_bind]
      simp only
      cases hget : srv.router.get cmd with
      | none =>
          refine ⟨none, Arrival.replied_none (by simp [hanswerable, hmessage, hget]), ?_⟩
          simp only [Server.doRouteAndSend, hget]
          rfl
      | some found =>
          obtain ⟨ep, handler⟩ := found
          have hadmitted : a.Answerable srv transport ↔ ∃ response,
              (exec requestSem (srv.gate ep handler (innerContext transport session.id cmd inner))
                (.start session) fun n => a.answers (n + 2)).result = .ok (some response) := by
            simp [hanswerable, hmessage, hget]
          rw [doRouteAndSend_gate hget, exec_session]
          exact exists_reply_gate (hsrv.pushless _ ep handler hget _) (hauthenticator _)
            (hsrv.fits _ ep handler hget _) (hcmd ▸ replying_encryptedReply hB _ cmd _)
            (ha.session_id session hload) (fun n => ha.answers _) hadmitted

/-- A request that is processed gets one reply or none. -/
theorem exists_reply (transport : TransportType) (hsrv : srv.HandlersReply)
    (hauthenticator : ∀ ctx, (srv.authenticator ctx).Pushless) (hB : srv.botan.Succeeds)
    (ha : a.Succeeds) (hload : a.loaded = .ok session) :
    ∃ reply, a.Replied srv transport reply ∧
      framesSent (a.processed srv transport session).events = reply.toList := by
  by_cases hkey : a.frame.header.commandId = cmdKeyExchange
  · exact exists_reply_keyExchange hB ha hload hkey
  · by_cases hencrypted : a.frame.header.commandId = cmdEncryptedMessage
    · exact exists_reply_encrypted hsrv hauthenticator hB ha hload hencrypted
    · exact exists_reply_plain hsrv hauthenticator ha hload ⟨hkey, hencrypted⟩

end Processed

def Effect.sentFrame : Effect → Option (FrameHeader × Bytes)
  | .request e => e.sentFrame
  | .counted | .loaded _ | .unregistered _ | .registered _ | .dispatched _ | .saved _
  | .disconnected _ | .closed | .uncounted | .discoveryResumed => none

def sentFrames (es : List Effect) : List (FrameHeader × Bytes) := es.filterMap Effect.sentFrame

@[simp] theorem sentFrames_append (es fs : List Effect) :
    sentFrames (es ++ fs) = sentFrames es ++ sentFrames fs :=
  List.filterMap_append

@[simp] theorem sentFrames_request (es : List RequestEvent) :
    sentFrames (es.map .request) = framesSent es :=
  List.filterMap_map

/-- The frames sent are the replies to the frames dispatched, in their order and one or none for
each. -/
def Correspond (srv : Server) (transport : TransportType) (arrivals : List Arrival)
    (es : List Effect) : Prop :=
  ∃ (requests : List Arrival) (replies : List (Option (FrameHeader × Bytes))),
    requests.Sublist arrivals ∧ dispatchedFrames es = requests.map (·.frame) ∧
      List.Forall₂ (Arrival.Replied srv transport) requests replies ∧
      sentFrames es = replies.reduceOption

section Correspond

variable {srv : Server} {transport : TransportType} {arrivals later : List Arrival}
  {es fs : List Effect}

theorem correspond_silent (hdispatched : dispatchedFrames es = []) (hsent : sentFrames es = []) :
    Correspond srv transport arrivals es :=
  ⟨[], [], List.nil_sublist _, hdispatched, .nil, hsent⟩

/-- The requests may be followed by others that are not served. -/
theorem Correspond.append_arrivals (h : Correspond srv transport arrivals es)
    (later : List Arrival) : Correspond srv transport (arrivals ++ later) es := by
  obtain ⟨requests, replies, hsub, hserved⟩ := h
  exact ⟨requests, replies, hsub.trans (List.sublist_append_left _ _), hserved⟩

theorem Correspond.append (h : Correspond srv transport arrivals es)
    (h' : Correspond srv transport later fs) :
    Correspond srv transport (arrivals ++ later) (es ++ fs) := by
  obtain ⟨requests, replies, hsub, hdispatched, hreplied, hsent⟩ := h
  obtain ⟨requests', replies', hsub', hdispatched', hreplied', hsent'⟩ := h'
  refine ⟨requests ++ requests', replies ++ replies', hsub.append hsub', ?_,
    List.rel_append hreplied hreplied', ?_⟩
  · rw [dispatchedFrames_append, hdispatched, hdispatched', List.map_append]
  · rw [sentFrames_append, hsent, hsent', List.reduceOption_append]

theorem correspond_serve (transport : TransportType) (hsrv : srv.HandlersReply)
    (hauthenticator : ∀ ctx, (srv.authenticator ctx).Pushless) (hB : srv.botan.Succeeds)
    {select : List Effect} (hselect : dispatchedFrames select = [] ∧ sentFrames select = [])
    {a : Arrival} (ha : a.Succeeds) :
    Correspond srv transport [a] (a.serve srv transport select).1 := by
  unfold Arrival.serve
  cases hload : a.loaded with
  | error e => exact correspond_silent rfl rfl
  | ok session =>
      obtain ⟨reply, hreplied, hframes⟩ :=
        exists_reply transport hsrv hauthenticator hB ha hload
      have hrequest : Correspond srv transport [a]
          (.dispatched a.frame :: (a.processed srv transport session).events.map .request) := by
        refine ⟨[a], [reply], List.Sublist.refl _, ?_, .cons hreplied .nil, ?_⟩
        · exact congrArg (a.frame :: ·) (dispatchedFrames_request _)
        · refine (sentFrames_request _).trans (hframes.trans ?_)
          cases reply <;> rfl
      have hbefore : Correspond srv transport [] (.loaded a.sessionId :: select) :=
        correspond_silent hselect.1 hselect.2
      have hturn := hbefore.append hrequest
      simp only
      cases (a.processed srv transport session).result with
      | error e => exact hturn
      | ok _ =>
          have hsaved : Correspond srv transport []
              [.saved (a.processed srv transport session).state.session] :=
            correspond_silent rfl rfl
          exact hturn.append hsaved

theorem sentFrames_of_isEnd (h : ∀ e ∈ es, e.IsEnd) : sentFrames es = [] := by
  refine List.filterMap_eq_nil_iff.mpr fun e he => ?_
  have hend := h e he
  cases e with
  | unregistered _ | disconnected _ | closed | uncounted | discoveryResumed => rfl
  | counted | loaded _ | registered _ | dispatched _ | request _ | saved _ => cases hend

theorem sentFrames_selectEffects (currentSid sid : UInt64) :
    sentFrames (selectEffects currentSid sid) = [] := by
  unfold selectEffects
  split
  · split <;> rfl
  · rfl

theorem correspond_clientLoop (hsrv : srv.HandlersReply)
    (hauthenticator : ∀ ctx, (srv.authenticator ctx).Pushless) (hB : srv.botan.Succeeds)
    (harrivals : ∀ a ∈ arrivals, a.Succeeds) (currentSid : UInt64) :
    Correspond srv .tcp arrivals (clientLoop srv currentSid arrivals).1 := by
  induction arrivals generalizing currentSid with
  | nil => exact correspond_silent rfl rfl
  | cons a arrivals ih =>
      have hturn := correspond_serve .tcp hsrv hauthenticator hB
        ⟨(silent_selectEffects currentSid a.sessionId).1,
          sentFrames_selectEffects currentSid a.sessionId⟩ (harrivals a (by simp))
      simp only [clientLoop]
      cases (a.serve srv .tcp (selectEffects currentSid a.sessionId)).2 with
      | ok _ => exact hturn.append (ih (fun b hb => harrivals b (by simp [hb])) _)
      | error e =>
          cases e with
          | std what | other => exact hturn.append_arrivals arrivals

theorem correspond_startUdpLoop (hsrv : srv.HandlersReply)
    (hauthenticator : ∀ ctx, (srv.authenticator ctx).Pushless) (hB : srv.botan.Succeeds)
    (harrivals : ∀ a ∈ arrivals, a.Succeeds) :
    Correspond srv .udp arrivals (startUdpLoop srv arrivals) := by
  induction arrivals with
  | nil => exact correspond_silent rfl rfl
  | cons a arrivals ih =>
      have hturn := @correspond_serve srv .udp hsrv hauthenticator hB [] ⟨rfl, rfl⟩ a
        (harrivals a (by simp))
      have hrest := hturn.append (ih fun b hb => harrivals b (by simp [hb]))
      simp only [startUdpLoop]
      cases (a.serve srv .udp []).2 with
      | ok _ => exact hrest
      | error e =>
          cases e with
          | std what => exact hrest
          | other => exact hturn.append_arrivals arrivals

end Correspond

/-- On every stream connection and every UDP socket, the frames sent back are the replies to the
requests processed, in their order and at most one for each: as long as neither the handlers nor
the authenticator push events of their own, and everything that is waited for succeeds. -/
theorem requests_replies_correspond (srv : Server) (hsrv : srv.HandlersReply)
    (hauthenticator : ∀ ctx, (srv.authenticator ctx).Pushless) (hB : srv.botan.Succeeds)
    (mode : ProtocolMode) (script : ClientScript) (hscript : ∀ a ∈ script.arrivals, a.Succeeds)
    (datagrams : List Arrival) (hdatagrams : ∀ a ∈ datagrams, a.Succeeds) :
    Correspond srv .tcp script.arrivals (serveStream mode srv script) ∧
      Correspond srv .udp datagrams (startUdpLoop srv datagrams) := by
  refine ⟨?_, correspond_startUdpLoop hsrv hauthenticator hB hdatagrams⟩
  obtain ⟨tail, hsplit, hend⟩ := serveStream_split mode srv script
  have hquiet : Correspond srv .tcp [] tail :=
    correspond_silent (dispatchedFrames_of_isEnd hend) (sentFrames_of_isEnd hend)
  have hloop := correspond_clientLoop hsrv hauthenticator hB hscript noSession
  have hcounted : Correspond srv .tcp [] [.counted] := correspond_silent rfl rfl
  rw [hsplit]
  simpa using (hcounted.append hloop).append hquiet

namespace Recorded

theorem botan_succeeds : botan.Succeeds where
  publicValue _ := ⟨_, rfl⟩
  deriveKey _ _ := ⟨_, rfl⟩
  sealMessage key iv message := ⟨_, rfl, length_encrypted key iv message⟩

theorem answer_succeeds : answer.Succeeds := ⟨rfl, ⟨_, rfl⟩, _, rfl⟩

/-- A frame on session 7 to a store and a network that work. -/
def arrival (frame : ClientFrame) : Arrival where
  frame := frame
  loaded := .ok { id := frame.header.sessionId }
  answers := fun _ => answer

theorem arrival_succeeds (frame : ClientFrame) : (arrival frame).Succeeds := by
  refine ⟨?_, fun _ => answer_succeeds⟩
  rintro session ⟨⟩
  rfl

end Recorded

/-- Command 1 answers with an empty payload, and requires authentication. -/
def Server.greeter (authenticator : IAuthenticator) : Server where
  router := (Router.empty.add 1 fun _ => .ret { payload := [] }).requireAuth 1
  authenticator := authenticator
  botan := Recorded.botan

theorem Server.greeter_handlersReply (authenticator : IAuthenticator) :
    (greeter authenticator).HandlersReply := by
  have hhandler : ∀ cmd ep handler, (greeter authenticator).router.get cmd = some (ep, handler) →
      handler = fun _ => .ret { payload := [] } := by
    intro cmd ep handler hget
    obtain ⟨hep, hsome⟩ := Router.get_eq_some.mp hget
    subst hep
    by_cases hcmd : cmd = 1
    · subst hcmd
      cases hsome
      rfl
    · simp [greeter, Router.requireAuth, Router.add, Router.update, Router.empty, hcmd] at hsome
  constructor
  · intro cmd ep handler hget ctx
    rw [hhandler cmd ep handler hget]
    trivial
  · intro cmd ep handler hget ctx
    rw [hhandler cmd ep handler hget]
    exact (by decide : 0 < 2 ^ 32 - 30)

/-- A key exchange and command 1, on a session that is not logged in. -/
theorem requests_replies_correspond_greeter :
    Correspond (.greeter defaultAuthenticator) .tcp
      ([Recorded.keyExchange 7, .command 1 7].map Recorded.arrival)
      (serveStream .text (.greeter defaultAuthenticator)
        { arrivals := [Recorded.keyExchange 7, .command 1 7].map Recorded.arrival }) :=
  (requests_replies_correspond (.greeter defaultAuthenticator)
    (Server.greeter_handlersReply defaultAuthenticator)
    (fun _ => ⟨rfl, fun _ => trivial⟩) Recorded.botan_succeeds .text
    { arrivals := [Recorded.keyExchange 7, .command 1 7].map Recorded.arrival }
    (by
      intro a ha
      obtain ⟨frame, -, rfl⟩ := List.mem_map.mp ha
      exact Recorded.arrival_succeeds frame)
    [] (by simp)).1

/-- An authenticator that pushes an event makes two frames of one request. -/
theorem not_requests_replies_correspond :
    ¬ ∀ (srv : Server) (mode : ProtocolMode) (script : ClientScript), srv.HandlersReply →
      srv.botan.Succeeds → (∀ a ∈ script.arrivals, a.Succeeds) →
      Correspond srv .tcp script.arrivals (serveStream mode srv script) := by
  intro h
  obtain ⟨requests, replies, -, hdispatched, hreplied, hsent⟩ := h
    (.greeter fun _ => .call (.pushEvent 9 []) fun _ => .ret true) .binary
    { arrivals := [Recorded.arrival (.command 1 7)] } (Server.greeter_handlersReply _)
    Recorded.botan_succeeds
    (by
      intro a ha
      obtain rfl := List.mem_singleton.mp ha
      exact Recorded.arrival_succeeds _)
  have hone := congrArg List.length hdispatched
  have htwo := congrArg List.length hsent
  have hlength := hreplied.length_eq
  have hle := List.reduceOption_length_le replies
  rw [List.length_map] at hone
  have hdispatchedOnce : (dispatchedFrames (serveStream .binary
      (.greeter fun _ => .call (.pushEvent 9 []) fun _ => .ret true)
      { arrivals := [Recorded.arrival (.command 1 7)] })).length = 1 := rfl
  have hsentTwice : (sentFrames (serveStream .binary
      (.greeter fun _ => .call (.pushEvent 9 []) fun _ => .ret true)
      { arrivals := [Recorded.arrival (.command 1 7)] })).length = 2 := rfl
  omega

end Servd
