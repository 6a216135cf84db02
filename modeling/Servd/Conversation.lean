import Servd.Client
import Servd.Confidentiality
import Servd.Ledger

/-!
An encrypted session from end to end. A client that has a session to itself exchanges
keys and then sends encrypted messages. The key the server has derived stays in the
record between the requests, each message reaches its handler as the client has
written it, and each reply opens, under the client's key, to what the handler has
answered.
-/
namespace Servd

open Coroutine Transition

def RequestEvent.sentFrame : RequestEvent → Option (FrameHeader × Bytes)
  | .sent header payload => some (header, payload)
  | .authenticatorCalled _ _ | .handlerCalled _ _ => none

def framesSent (es : List RequestEvent) : List (FrameHeader × Bytes) :=
  es.filterMap (·.sentFrame)

@[simp] theorem framesSent_append (es fs : List RequestEvent) :
    framesSent (es ++ fs) = framesSent es ++ framesSent fs :=
  List.filterMap_append

@[simp] theorem framesSent_handlerCalled (ctx : Context) (t : RequestState)
    (es : List RequestEvent) : framesSent (.handlerCalled ctx t :: es) = framesSent es := rfl

def UserOp.isPush : UserOp → Bool
  | .pushEvent _ _ => true
  | .session | .setAuthenticated _ _ | .setAesKey _ | .getLocal _ | .setLocal _ _ | .await => false

def UserTask.Pushless {α : Type} (c : UserTask α) : Prop := c.Always fun u => u.isPush = false

/-- The operation puts no frame on the connection. -/
def Op.Silent : Op → Prop
  | .user u => u.isPush = false
  | .sendFrame _ _ => False
  | .generatePrivate | .genIv | .enterAuthenticator _ | .enterHandler _ => True

theorem UserTask.Pushless.always_silent {α : Type} {c : UserTask α} (h : c.Pushless) :
    c.lift.Always Op.Silent := by
  induction c with
  | ret _ | throw _ => trivial
  | call u k ih => exact ⟨h.1, fun r => ih r (h.2 r)⟩

theorem framesSent_of_silent {α : Type} {c c' : Task α} {t t' : RequestState} {as : List Answer}
    {es : List RequestEvent} (hc : c.Always Op.Silent)
    (h : resume requestSem t c as = some (t', c', es)) : framesSent es = [] := by
  refine List.filterMap_eq_nil_iff.mpr fun e he => ?_
  cases e with
  | authenticatorCalled _ _ | handlerCalled _ _ => rfl
  | sent header payload =>
      obtain ⟨before, a, after, u, o, k, fs, rfl, hrun, hemit⟩ := resume_emitted h he
      have hsilent : o.Silent := (always_resume hc hrun).1
      rcases sent_cases hemit with ⟨eventCommandId, rfl⟩ | rfl
      · cases hsilent
      · exact hsilent.elim

/-- The send succeeds, and the random numbers can be drawn; `server` is the ephemeral key. -/
structure Answer.Good (server : Octets 32) (a : Answer) : Prop where
  sent : a.sent = .ok ()
  privateKey : a.privateKey = .ok server
  iv : ∃ iv, a.iv = .ok iv

instance (server : Octets 32) (a : Answer) : Decidable (a.Good server) :=
  decidable_of_iff
    (a.sent.isOk = true ∧ a.privateKey.toOption = some server ∧ a.iv.isOk = true) <| by
    obtain ⟨sent, privateKey, iv, bytes⟩ := a
    constructor
    · intro h
      cases sent <;> cases privateKey <;> cases iv <;>
        simp_all [Except.isOk, Except.toBool, Except.toOption]
      exact ⟨rfl, rfl, _, rfl⟩
    · intro h
      obtain ⟨rfl, rfl, iv, rfl⟩ := h
      exact ⟨rfl, rfl, rfl⟩

/-- As long as sends succeed, the handlers return and leave the key of the session alone, and the
response to a request that fits into a message fits into one. -/
def Server.HandlersReturn (srv : Server) : Prop :=
  ∀ cmd ep handler, srv.router.get cmd = some (ep, handler) → ∀ ctx t,
    ctx.payload.length + 2 < maxInner → Ensures requestSem (fun a => a.sent = .ok ())
      (fun t' response => t'.session.installedKey = t.session.installedKey ∧
        response.payload.length + 2 < maxInner) t (handler ctx).lift

/-- The authenticator, which has the same access to the session, returns and leaves the key alone
as well. -/
def Server.AuthenticatorReturns (srv : Server) : Prop :=
  ∀ ctx t, Ensures requestSem (fun a => a.sent = .ok ())
    (fun t' _ => t'.session.installedKey = t.session.installedKey) t (srv.authenticator ctx).lift

/-- Application code pushes no events. -/
structure Server.Pushless (srv : Server) : Prop where
  authenticator : ∀ ctx, (srv.authenticator ctx).Pushless
  handler : ∀ cmd ep handler, srv.router.get cmd = some (ep, handler) → ∀ ctx,
    (handler ctx).Pushless

structure Server.WellBehaved (srv : Server) : Prop where
  handler : srv.HandlersReturn
  authenticator : srv.AuthenticatorReturns
  pushless : srv.Pushless

theorem Octets.ofBytes_self {n : Nat} (o : Octets n) : Octets.ofBytes n o.val = o :=
  Subtype.ext (Octets.ofBytes_val o.property)

section Requests

variable {srv : Server} {L : ClientLibrary} {client server serverPub : Octets 32} {sid : UInt64}
  {t t' : RequestState} {as : List Answer} {es : List RequestEvent}

theorem ensures_ofStd {α : Type} {good : Answer → Prop} {Q : RequestState → α → Prop}
    {r : Except String α} {a : α} (hr : r = .ok a) (hQ : Q t a) :
    Ensures requestSem good Q t (Task.ofStd r) := by
  rw [hr]
  exact hQ

def Task.installAndSend (shared pub : Octets 32) : Task Unit := do
  Task.setAesKey shared
  let session ← Task.session
  Task.sendFrame ⟨cmdKeyExchange, 0, 32, session.id⟩ pub.val

def Server.agreeWith (srv : Server) (clientPub priv : Octets 32) : Task Unit := do
  let pub ← Task.ofStd (X25519.publicKey srv.botan priv)
  let shared ← Task.ofStd (X25519.sharedSecret srv.botan priv clientPub)
  Task.installAndSend shared pub

theorem keyExchange_eq (srv : Server) (clientPub : Octets 32) (sid : UInt64) :
    srv.handleKeyExchange (Client.frame cmdKeyExchange clientPub.val sid) =
      Task.generatePrivate >>= srv.agreeWith clientPub := by
  have hlength : clientPub.val.length = 32 := clientPub.property
  rw [Server.handleKeyExchange, if_neg (by simp [Client.frame, hlength])]
  simp only [Client.frame, Octets.ofBytes_self]
  rfl

theorem agreeWith_eq (hL : Interoperates srv.botan L)
    (hpub : srv.botan.publicValue server = .ok serverPub.val) (client : Octets 32) :
    srv.agreeWith (L.publicKey client) server =
      Task.installAndSend (L.exchange client serverPub) serverPub := by
  have hshared := hL.agreement client server serverPub hpub
  simp [Server.agreeWith, X25519.publicKey, X25519.sharedSecret, hpub, hshared, Except.map,
    Octets.ofBytes_self]

theorem ensures_keyExchange (hL : Interoperates srv.botan L)
    (hpub : srv.botan.publicValue server = .ok serverPub.val) (t : RequestState) :
    Ensures requestSem (Answer.Good server)
      (fun t' _ => t'.session.installedKey = some (L.exchange client serverPub)) t
      (srv.handleKeyExchange (Client.frame cmdKeyExchange (L.publicKey client).val sid)) := by
  rw [keyExchange_eq]
  intro a ha
  change Ensures requestSem _ _ t (Task.ofStd a.privateKey >>= _)
  rw [ha.privateKey, Task.ofStd_ok, Coro.ret_bind, agreeWith_eq hL hpub]
  intro b _ c _ d hd
  exact ensures_ofStd hd.sent rfl

theorem resume_keyExchange (hL : Interoperates srv.botan L)
    (hpub : srv.botan.publicValue server = .ok serverPub.val)
    (hgood : ∀ a ∈ as, a.Good server)
    (h : resume requestSem t
      (srv.handleKeyExchange (Client.frame cmdKeyExchange (L.publicKey client).val sid)) as =
        some (t', .ret (), es)) :
    es = [.sent ⟨cmdKeyExchange, 0, 32, t.session.id⟩ serverPub.val] := by
  rw [keyExchange_eq] at h
  obtain ⟨a, as', es', rfl, hrest, rfl⟩ := resume_call_ret.mp h
  change resume requestSem t (Task.ofStd a.privateKey >>= _) as' = _ at hrest
  rw [(hgood a (by simp)).privateKey, Task.ofStd_ok, Coro.ret_bind, agreeWith_eq hL hpub] at hrest
  obtain ⟨b, bs, es₁, rfl, hrest, rfl⟩ := resume_call_bind_ret.mp hrest
  obtain ⟨c, cs, es₂, rfl, hsend, rfl⟩ := resume_call_bind_ret.mp hrest
  obtain ⟨d, ds, es₃, rfl, hlast, rfl⟩ := resume_call_ret.mp hsend
  obtain ⟨hsent, rfl, rfl, rfl⟩ := resume_ofStd_ret hlast
  have hsent : d.sent = .ok () := hsent
  simp [requestSem, answerOp, answerUser, hsent, sentEvents]

theorem ensures_encryptedReply (hL : Interoperates srv.botan L) (key : AesKey) (cmd : UInt16)
    {response : ResponseFrame} (hsize : response.payload.length + 2 < maxInner)
    (t : RequestState) :
    Ensures requestSem (Answer.Good server) (fun t' _ => t' = t) t
      (srv.encryptedReply key cmd response) := by
  have hlength : (Bytes.littleEndian 2 cmd.toNat ++ response.payload).length < maxInner := by
    rw [List.length_append, Bytes.length_littleEndian, Nat.add_comm]
    exact hsize
  intro a ha
  obtain ⟨iv, hiv⟩ := ha.iv
  obtain ⟨out, hout, -, -⟩ := hL.sealed key iv _ hlength
  change Ensures requestSem _ _ t (Task.ofStd a.iv >>= _)
  rw [hiv, Task.ofStd_ok, Coro.ret_bind, AesGcm.encrypt_no_aad, hout, Task.ofStd_ok, Coro.ret_bind]
  intro b _ c hc
  exact ensures_ofStd hc.sent rfl

theorem ensures_admission (hwell : srv.WellBehaved) (ep : Endpoint) (ctx : Context)
    (t : RequestState) :
    Ensures requestSem (Answer.Good server)
      (fun t' _ => t'.session.installedKey = t.session.installedKey) t (srv.admission ep ctx) := by
  unfold Server.admission
  split
  · intro a _
    exact (hwell.authenticator ctx t).mono (fun _ h => h.sent) (fun _ _ h => h)
  · exact rfl

theorem ensures_doRouteAndSend (hL : Interoperates srv.botan L) (hwell : srv.WellBehaved)
    (transport : TransportType) (key : AesKey) (cmd : UInt16) {inner : Bytes}
    (hinner : inner.length + 2 < maxInner) (t : RequestState) :
    Ensures requestSem (Answer.Good server)
      (fun t' _ => t'.session.installedKey = t.session.installedKey) t
      (srv.doRouteAndSend transport ⟨key⟩ cmd inner) := by
  cases hget : srv.router.get cmd with
  | none =>
      simp only [Server.doRouteAndSend, hget]
      exact rfl
  | some entry =>
      obtain ⟨ep, handler⟩ := entry
      rw [doRouteAndSend_eq hget]
      intro a _
      refine (ensures_admission hwell ep _ t).bind fun u admitted hu => ?_
      split
      · intro b _
        refine ((hwell.handler cmd ep handler hget _ u hinner).mono
          (fun _ h => Answer.Good.sent h) fun _ _ h => h).bind fun v response hv => ?_
        refine (ensures_encryptedReply hL key cmd hv.2 v).mono (fun _ h => h) fun v' _ hv' => ?_
        rw [hv', hv.1, hu]
      · exact hu

/-- Whatever its payload is, an encrypted message is processed to its end and leaves the key of
the session alone. -/
theorem ensures_encryptedMessage (hL : Interoperates srv.botan L) (hwell : srv.WellBehaved)
    {frame : ClientFrame} (hframe : frame.payload.length < 2 ^ 32) (transport : TransportType)
    (t : RequestState) :
    Ensures requestSem (Answer.Good server)
      (fun t' _ => t'.session.installedKey = t.session.installedKey) t
      (srv.handleEncryptedMessage frame transport) := by
  intro a _
  change Ensures requestSem _ _ t
    (Task.ofStd (doDecrypt srv.botan frame.payload t.session) >>= _)
  cases doDecrypt_cases srv.botan frame.payload t.session with
  | authentic cmd inner _ hmessage hd =>
      have hlength := length_of_innerMessage hmessage
      have hinner : inner.length + 2 < maxInner := by
        unfold maxInner
        omega
      rw [hd]
      exact ensures_doRouteAndSend hL hwell transport t.session.aesKey cmd hinner t
  | rejected _ hd =>
      rw [hd]
      exact rfl
  | unavailable what _ hd => exact absurd hd (doDecrypt_ne_error hL.available)

end Requests

/-- The handler of an inner command was called with the client's command and payload, and the
client reads in the reply that followed what the handler has returned. -/
def Answered (L : ClientLibrary) (key : AesKey) (sid : UInt64) (m : ClientMessage)
    (handler : Handler) (u : RequestState) (answers : List Answer) (events : List RequestEvent) :
    Prop :=
  ∃ v response handlerAnswers handlerEvents header reply,
    handlerAnswers <:+: answers ∧
    resume requestSem u (handler (innerContext .tcp sid m.commandId m.payload)).lift
      handlerAnswers = some (v, .ret response, handlerEvents) ∧
    framesSent handlerEvents = [] ∧
    events = .handlerCalled (innerContext .tcp sid m.commandId m.payload) u :: handlerEvents ++
      [.sent header reply] ∧
    header.commandId = cmdEncryptedMessage ∧ header.flags = response.flags ∧
    header.sessionId = sid ∧
    (∀ rest, Client.recvFrame (binaryFrame header reply ++ rest) = some (header, reply, rest)) ∧
    Client.openReply L key reply =
      some (Bytes.littleEndian 2 m.commandId.toNat ++ response.payload)

/-- What a message whose inner command is registered has done in the end. The admission test of
the endpoint has run on the request's own answers; if it has admitted the command, the handler
was called and its response sent. -/
def Served (srv : Server) (L : ClientLibrary) (key : AesKey) (sid : UInt64) (m : ClientMessage)
    (t : RequestState) (answers : List Answer) (events : List RequestEvent) : Prop :=
  ∀ ep handler, srv.router.get m.commandId = some (ep, handler) →
    ∃ u admitted first second gateAnswers rest gateEvents restEvents,
      answers = first :: second :: gateAnswers ++ rest ∧
      resume requestSem t (srv.admission ep (innerContext .tcp sid m.commandId m.payload))
        gateAnswers = some (u, .ret admitted, gateEvents) ∧
      framesSent gateEvents = [] ∧ events = gateEvents ++ restEvents ∧
      (admitted = true → ep.allows .tcp → Answered L key sid m handler u rest restEvents)

section Completed

variable {srv : Server} {L : ClientLibrary} {client server serverPub : Octets 32} {sid : UInt64}
  {messages : List ClientMessage} {req : Request}

structure Request.Completed (srv : Server) (server : Octets 32) (req : Request) : Prop where
  consistent : req.Consistent srv .tcp
  returned : req.task = .ret ()
  good : ∀ a ∈ req.answers, a.Good server

theorem Request.Completed.run (h : req.Completed srv server) :
    resume requestSem (.start req.loaded) (srv.processCommand req.frame .tcp) req.answers =
      some (req.state, .ret (), req.events) :=
  h.returned ▸ h.consistent.run

theorem processCommand_keyExchange (srv : Server) (payload : Bytes) (sid : UInt64) :
    srv.processCommand (Client.frame cmdKeyExchange payload sid) .tcp =
      srv.handleKeyExchange (Client.frame cmdKeyExchange payload sid) := rfl

theorem processCommand_message (srv : Server) (payload : Bytes) (sid : UInt64) :
    srv.processCommand (Client.frame cmdEncryptedMessage payload sid) .tcp =
      srv.handleEncryptedMessage (Client.frame cmdEncryptedMessage payload sid) .tcp := rfl

theorem reply_readable (hL : Interoperates srv.botan L) {key : AesKey} {cmd : UInt16}
    {response : ResponseFrame} {iv : Octets 12} {out : Bytes}
    (hsize : response.payload.length + 2 < maxInner)
    (hseal : srv.botan.sealMessage key iv (Bytes.littleEndian 2 cmd.toNat ++ response.payload) =
      .ok out) (flags : UInt16) (sid : UInt64) :
    (∀ rest, Client.recvFrame (binaryFrame
      ⟨cmdEncryptedMessage, flags, size32 (sealedReply iv out), sid⟩ (sealedReply iv out) ++ rest) =
        some (⟨cmdEncryptedMessage, flags, size32 (sealedReply iv out), sid⟩, sealedReply iv out,
          rest)) ∧
    Client.openReply L key (sealedReply iv out) =
      some (Bytes.littleEndian 2 cmd.toNat ++ response.payload) := by
  have hlength : (Bytes.littleEndian 2 cmd.toNat ++ response.payload).length < maxInner := by
    rw [List.length_append, Bytes.length_littleEndian, Nat.add_comm]
    exact hsize
  obtain ⟨hopen, hfits⟩ := hL.openReply_sealedReply hlength hseal
  refine ⟨fun rest => Client.recvFrame_binaryFrame ?_ rest, hopen⟩
  exact toNat_size32_of_lt hfits

theorem framesSent_admission (hpushless : srv.Pushless) {ep : Endpoint} {ctx : Context}
    {t t' : RequestState} {admitted : Bool} {as : List Answer} {es : List RequestEvent}
    (h : resume requestSem t (srv.admission ep ctx) as = some (t', .ret admitted, es)) :
    framesSent es = [] := by
  refine framesSent_of_silent (c := srv.admission ep ctx) ?_ h
  unfold Server.admission
  split
  · exact ⟨trivial, fun _ => (hpushless.authenticator ctx).always_silent⟩
  · trivial

theorem Routed.served (hL : Interoperates srv.botan L) (hwell : srv.WellBehaved) {key : AesKey}
    {m : ClientMessage} {t t' : RequestState} {as : List Answer} {es : List RequestEvent}
    (h : Routed srv .tcp key m.commandId m.payload t as t' es) (hid : t.session.id = sid)
    (hsize : m.inner.length < maxInner) (hgood : ∀ a ∈ as, a.Good server) (first : Answer) :
    Served srv L key sid m t (first :: as) es := by
  intro ep handler hget
  subst hid
  cases h with
  | unknown hnone =>
      rw [hget] at hnone
      cases hnone
  | @refused _ _ a as _ admitted _ hget' hgate hno =>
      cases hget.symm.trans hget'
      exact ⟨t', admitted, first, a, as, [], es, [], by simp, hgate,
        framesSent_admission hwell.pushless hgate, by simp,
        fun hadmitted hallows => absurd ⟨hadmitted, hallows⟩ hno⟩
  | @handled _ _ a b c d e as bs u _ response es fs iv out hget' hgate hallows hhandler hiv hseal =>
      cases hget.symm.trans hget'
      refine ⟨u, true, first, a, as, b :: bs ++ [c, d, e], es, _, by simp, hgate,
        framesSent_admission hwell.pushless hgate, List.append_assoc _ _ _, fun _ _ => ?_⟩
      have hresponse : response.payload.length + 2 < maxInner :=
        ((hwell.handler m.commandId ep handler hget _ u (m.length_inner ▸ hsize)).of_resume
          (fun x hx => (hgood x (by simp [hx])).sent) hhandler).2
      have hquiet : framesSent fs = [] := framesSent_of_silent
        (hwell.pushless.handler m.commandId ep handler hget _).always_silent hhandler
      obtain ⟨hreceived, hopened⟩ :=
        reply_readable hL hresponse hseal response.flags t.session.id
      exact ⟨t', response, bs, fs, _, _, ⟨[b], [c, d, e], by simp⟩, hhandler, hquiet, rfl, rfl, rfl,
        rfl, hreceived, hopened⟩

/-- A message sends nothing but the reply to it. -/
theorem Routed.framesSent_le (hpushless : srv.Pushless) {key : AesKey} {cmd : UInt16}
    {inner : Bytes} {t t' : RequestState} {as : List Answer} {es : List RequestEvent}
    (h : Routed srv .tcp key cmd inner t as t' es) : (framesSent es).length ≤ 1 := by
  cases h with
  | unknown _ => exact Nat.zero_le 1
  | refused hget hgate hno =>
      rw [framesSent_admission hpushless hgate]
      exact Nat.zero_le 1
  | @handled ep handler _ _ _ _ _ _ _ _ _ _ _ fs _ _ hget hgate _ hhandler _ _ =>
      have hquiet : framesSent fs = [] := framesSent_of_silent
        (hpushless.handler cmd ep handler hget _).always_silent hhandler
      rw [List.append_assoc, framesSent_append, framesSent_admission hpushless hgate,
        List.nil_append, List.cons_append, framesSent_handlerCalled, framesSent_append, hquiet]
      exact le_refl 1

theorem routed_of_completed (hL : Interoperates srv.botan L) {key : AesKey} {m : ClientMessage}
    (hsize : m.inner.length < maxInner) (h : req.Completed srv server)
    (hframe : req.frame = Client.frame cmdEncryptedMessage (m.outerPayload L key) sid)
    (hkey : req.loaded.installedKey = some key) :
    ∃ first as, req.answers = first :: as ∧
      Routed srv .tcp key m.commandId m.payload (.start req.loaded) as req.state req.events := by
  have hrun := h.run
  rw [hframe, processCommand_message] at hrun
  have hmessage : innerMessage srv.botan (RequestState.start req.loaded).session.installedKey
      (m.outerPayload L key) = some (m.commandId, m.payload) := by
    rw [← hL.innerMessage_outerPayload key m hsize]
    exact congrArg (innerMessage srv.botan · _) hkey
  have hkey' : (RequestState.start req.loaded).session.aesKey = key := by
    unfold Session.installedKey at hkey
    split at hkey <;> cases hkey
    rfl
  obtain ⟨first, as, hanswers, hrouted⟩ := routed_of_authentic hmessage hrun
  rw [hkey'] at hrouted
  exact ⟨first, as, hanswers, hrouted⟩

theorem served_of_completed (hL : Interoperates srv.botan L) (hwell : srv.WellBehaved)
    {key : AesKey} {m : ClientMessage} (hsize : m.inner.length < maxInner)
    (h : req.Completed srv server)
    (hframe : req.frame = Client.frame cmdEncryptedMessage (m.outerPayload L key) sid)
    (hkey : req.loaded.installedKey = some key) :
    Served srv L key sid m (.start req.loaded) req.answers req.events ∧
      (framesSent req.events).length ≤ 1 := by
  have hid : (RequestState.start req.loaded).session.id = sid := by
    have hid := h.consistent.loaded_id
    rw [hframe] at hid
    exact hid
  obtain ⟨first, as, hanswers, hrouted⟩ := routed_of_completed hL hsize h hframe hkey
  have hgood := h.good
  rw [hanswers] at hgood ⊢
  exact ⟨hrouted.served hL hwell hid hsize (fun a ha => hgood a (by simp [ha])) first,
    hrouted.framesSent_le hwell.pushless⟩

theorem installedKey_of_completed (hL : Interoperates srv.botan L) (hwell : srv.WellBehaved)
    (hpub : srv.botan.publicValue server = .ok serverPub.val) (h : req.Completed srv server)
    (hsize : ∀ m ∈ messages, m.inner.length < maxInner) {n : Nat}
    (hframe : (Client.conversation L client serverPub sid messages)[n]? = some req.frame)
    (hkey : 0 < n → req.loaded.installedKey = some (L.exchange client serverPub)) :
    req.state.session.installedKey = some (L.exchange client serverPub) := by
  have hrun := h.run
  cases n with
  | zero =>
      have hframe : Client.frame cmdKeyExchange (L.publicKey client).val sid = req.frame := by
        simpa [Client.conversation] using hframe
      rw [← hframe, processCommand_keyExchange] at hrun
      exact (ensures_keyExchange hL hpub _).of_resume h.good hrun
  | succ n =>
      simp only [Client.conversation, List.getElem?_cons_succ, List.getElem?_map,
        Option.map_eq_some_iff] at hframe
      obtain ⟨m, hm, hframe⟩ := hframe
      have hlength := hL.length_outerPayload (L.exchange client serverPub)
        (hsize m (List.mem_of_getElem? hm))
      rw [← hframe, processCommand_message] at hrun
      have hkept := (ensures_encryptedMessage hL hwell hlength .tcp _).of_resume h.good hrun
      exact hkept.trans (hkey (Nat.succ_pos n))

theorem ensures_conversation (hL : Interoperates srv.botan L) (hwell : srv.WellBehaved)
    (hpub : srv.botan.publicValue server = .ok serverPub.val)
    (hsize : ∀ m ∈ messages, m.inner.length < maxInner) {f : ClientFrame}
    (hf : f ∈ Client.conversation L client serverPub sid messages) (t : RequestState) :
    Ensures requestSem (Answer.Good server) (fun _ _ => True) t (srv.processCommand f .tcp) := by
  rcases List.mem_cons.mp hf with rfl | hf
  · exact (ensures_keyExchange hL hpub t).mono (fun _ h => h) fun _ _ _ => trivial
  · obtain ⟨m, hm, rfl⟩ := List.mem_map.mp hf
    have hlength := hL.length_outerPayload (L.exchange client serverPub) (hsize m hm)
    exact (ensures_encryptedMessage hL hwell hlength .tcp t).mono (fun _ h => h)
      fun _ _ _ => trivial

end Completed

namespace Engine

theorem Ledger.frame_at {i : Nat} {tr : List (Step Engine Label Event)} {s : Engine}
    {frames : List ClientFrame} (h : Ledger i tr s) (hframes : framesRead (.conn i) tr <+: frames)
    {f : ClientFrame} (hf : s.pendingFrame (.conn i) = some f) :
    frames[(completedBy (.conn i) (eventsOf tr)).length]? = some f := by
  obtain ⟨more, _, hread, -, -⟩ := h
  obtain ⟨rest, rfl⟩ := hframes
  simp [hread, hf]

theorem Ledger.completed_at {i : Nat} {tr : List (Step Engine Label Event)} {s : Engine}
    {frames : List ClientFrame} (h : Ledger i tr s) (hframes : framesRead (.conn i) tr <+: frames)
    {n : Nat} {req : Request} (hreq : (completedBy (.conn i) (eventsOf tr))[n]? = some req) :
    frames[n]? = some req.frame := by
  obtain ⟨more, _, hread, -, -⟩ := h
  obtain ⟨rest, rfl⟩ := hframes
  have hn : n < (completedBy (.conn i) (eventsOf tr)).length :=
    (List.getElem?_eq_some_iff.mp hreq).1
  rw [hread, List.append_assoc, List.append_assoc,
    List.getElem?_append_left (by simpa using hn), List.getElem?_map, hreq]
  rfl

/-- The shared key is in force: the record holds it once the first request has been saved, and
all later requests have loaded it. -/
structure KeyInForce (srv : Server) (server : Octets 32) (key : AesKey) (i : Nat) (sid : UInt64)
    (tr : List (Step Engine Label Event)) (s : Engine) : Prop where
  held : completedBy (.conn i) (eventsOf tr) ≠ [] → (s.record sid).installedKey = some key
  each : ∀ n req, (completedBy (.conn i) (eventsOf tr))[n]? = some req →
    req.Completed srv server ∧ (0 < n → req.loaded.installedKey = some key)
  current : ∀ req, s.inFlight (.conn i) = some req → ∀ a ∈ req.answers, a.Good server

/-- The operations of the connection's requests succeed. -/
def AnswersGood (server : Octets 32) (i : Nat) : Label → Prop
  | .work (.conn j) (.progress ans) => j = i → ans.Good server
  | _ => True

instance (server : Octets 32) (i : Nat) : (a : Label) → Decidable (AnswersGood server i a)
  | .work (.conn j) (.progress ans) => inferInstanceAs (Decidable (j = i → ans.Good server))
  | .work (.udp _) _ | .work (.conn _) (.frame _) | .work (.conn _) .load
  | .work (.conn _) .save | .work (.conn _) (.fail _) | .work (.conn _) (.notified _)
  | .accept _ _ | .sendTo _ _ _ | .broadcast _ _ _ _ | .resumeCast _ _ | .app _
  | .discoveryRequest _ _ | .announceTick => inferInstanceAs (Decidable True)

theorem answers_step {srv : Server} {s s' : Engine} {a : Label} {evs : List Event} {i : Nat}
    {server : Octets 32} (hs : s.step srv a = some (s', evs)) (hgood : AnswersGood server i a)
    (h : ∀ req, s.inFlight (.conn i) = some req → ∀ a ∈ req.answers, a.Good server) :
    ∀ req, s'.inFlight (.conn i) = some req → ∀ a ∈ req.answers, a.Good server := by
  intro req hreq
  rcases inFlight_step hs hreq with hbefore | ⟨f, rfl⟩ | ⟨ans, before, es, rfl, hbefore, hadv⟩
  · exact h req hbefore
  · simp [Request.start]
  · obtain ⟨state, task, -, rfl⟩ := Request.advance_eq_some.mp hadv
    intro b hb
    rcases List.mem_append.mp hb with hb | hb
    · exact h before hbefore b hb
    · rw [List.mem_singleton.mp hb]
      exact hgood rfl

section Run

variable {srv : Server} {L : ClientLibrary} {client server serverPub : Octets 32} {sid : UInt64}
  {messages : List ClientMessage} {i : Nat} {tr : List (Step Engine Label Event)} {s s' : Engine}
  {a : Label} {evs : List Event}

theorem KeyInForce.step (hL : Interoperates srv.botan L) (hwell : srv.WellBehaved)
    (hpub : srv.botan.publicValue server = .ok serverPub.val)
    (hsize : ∀ m ∈ messages, m.inner.length < maxInner)
    (h : KeyInForce srv server (L.exchange client serverPub) i sid tr s) (hledger : Ledger i tr s)
    (hframes : framesRead (.conn i) tr <+: Client.conversation L client serverPub sid messages)
    (hsole : SoleUse s i sid) (hr : RequestsConsistent srv s) (hgood : AnswersGood server i a)
    (hs : s.step srv a = some (s', evs)) :
    KeyInForce srv server (L.exchange client serverPub) i sid (tr ++ [⟨s, a, evs, s'⟩]) s' := by
  have hcurrent := answers_step hs hgood h.current
  rcases record_step hsole hr hs with ⟨hrecord, hnone⟩ | ⟨req, hreq, htask, -, hsaved, hrecord⟩
  · have hdone : completedBy (.conn i) (eventsOf (tr ++ [⟨s, a, evs, s'⟩])) =
        completedBy (.conn i) (eventsOf tr) := by
      rw [eventsOf_snoc, completedBy_append, hnone, List.append_nil]
    refine ⟨?_, ?_, hcurrent⟩
    · rw [hdone, hrecord]
      exact h.held
    · rw [hdone]
      exact h.each
  · have hdone : completedBy (.conn i) (eventsOf (tr ++ [⟨s, a, evs, s'⟩])) =
        completedBy (.conn i) (eventsOf tr) ++ [req] := by
      rw [eventsOf_snoc, completedBy_append, hsaved]
    have hframe := hledger.frame_at hframes (pendingFrame_of_inFlight hreq)
    have hsid : req.frame.header.sessionId = sid :=
      Client.sessionId_of_mem_conversation (List.mem_of_getElem? hframe)
    have hcompleted : req.Completed srv server :=
      ⟨hr (.conn i) req hreq, htask, h.current req hreq⟩
    -- a later request has loaded the record, and the record held the key
    have hloaded : 0 < (completedBy (.conn i) (eventsOf tr)).length →
        req.loaded.installedKey = some (L.exchange client serverPub) := by
      intro hpos
      rw [hsole.current req hreq hsid]
      exact h.held (List.ne_nil_of_length_pos hpos)
    refine ⟨fun _ => ?_, ?_, hcurrent⟩
    · rw [hrecord hsid]
      exact installedKey_of_completed hL hwell hpub hcompleted hsize hframe hloaded
    · intro n req' hreq'
      rw [hdone] at hreq'
      cases getElem?_snoc_eq_some.mp hreq' with
      | inl hold => exact h.each n req' hold
      | inr hnew =>
          obtain ⟨rfl, rfl⟩ := hnew
          exact ⟨hcompleted, hloaded⟩

theorem keyInForce_run {discovery : DiscoveryConfig} {enabled : Bool}
    (hL : Interoperates srv.botan L) (hwell : srv.WellBehaved)
    (hpub : srv.botan.publicValue server = .ok serverPub.val)
    (hsize : ∀ m ∈ messages, m.inner.length < maxInner)
    (h : Trace (Engine.step srv) (init srv discovery enabled) tr s)
    (halone : ∀ x ∈ tr, ReadsAlone i sid x.label)
    (hgood : ∀ x ∈ tr, AnswersGood server i x.label)
    (hframes : framesRead (.conn i) tr <+: Client.conversation L client serverPub sid messages) :
    KeyInForce srv server (L.exchange client serverPub) i sid tr s := by
  induction h with
  | nil =>
      refine ⟨fun hne => absurd rfl hne, ?_, ?_⟩
      · intro n req hreq
        cases hreq
      · intro req hreq
        rw [inFlight_init] at hreq
        cases hreq
  | @snoc tr s s' a evs htr hstep ih =>
      have halone' : ∀ x ∈ tr, ReadsAlone i sid x.label :=
        fun x hx => halone x (List.mem_append_left _ hx)
      have hframes' : framesRead (.conn i) tr <+:
          Client.conversation L client serverPub sid messages := by
        rw [framesRead_snoc] at hframes
        exact (List.prefix_append _ _).trans hframes
      refine (ih halone' (fun x hx => hgood x (List.mem_append_left _ hx)) hframes').step hL hwell
        hpub hsize (ledger_run i htr) hframes' (soleUse_run htr halone') (requests_run htr).2
        (hgood ⟨s, a, evs, s'⟩ (by simp)) hstep

/-- Resumed with the answers of the stream, and nothing else, the connection completes the frame. -/
def Completes (srv : Server) (s : Engine) (i : Nat) (stream : Nat → Answer) (f : ClientFrame) :
    Prop :=
  ∃ n start tr s' req, (start = [] ∨ start = [.work (.conn i) .load]) ∧
    exec (Engine.step srv) s (start ++ resumeLabels i ((List.range n).map stream)) =
      some (tr, s') ∧
    completedBy (.conn i) (eventsOf tr) = [req] ∧ req.frame = f

theorem completes_of_pending (hL : Interoperates srv.botan L) (hwell : srv.WellBehaved)
    (hpub : srv.botan.publicValue server = .ok serverPub.val)
    (hsize : ∀ m ∈ messages, m.inner.length < maxInner) {f : ClientFrame}
    (hf : f ∈ Client.conversation L client serverPub sid messages)
    (hpending : s.pendingFrame (.conn i) = some f) (hr : RequestsConsistent srv s)
    (hanswers : ∀ req, s.inFlight (.conn i) = some req → ∀ a ∈ req.answers, a.Good server)
    (stream : Nat → Answer) (hstream : ∀ n, (stream n).Good server) :
    Completes srv s i stream f := by
  obtain ⟨p, hp, hframe⟩ := Option.bind_eq_some_iff.mp hpending
  obtain ⟨c, hc, hphase⟩ := Option.map_eq_some_iff.mp hp
  cases p with
  | loading f' =>
      obtain rfl : f' = f := Option.some.inj hframe
      obtain ⟨s₁, c₁, hload, hc₁, hphase₁⟩ := load_enabled srv hc hphase
      obtain ⟨n, state, u, es, hrun, -⟩ := (ensures_conversation hL hwell hpub hsize hf
        (.start (s.store.getOrCreate f'.header.sessionId).1)).exists_resume stream hstream
      obtain ⟨tr, s', req, hexec, hdone, hsame⟩ := exec_resumeLabels hc₁ hphase₁ hrun
      exact ⟨n, [.work (.conn i) .load], _, s', req, .inr rfl, exec_cons hload hexec, hdone, hsame⟩
  | processing req =>
      obtain rfl : req.frame = f := Option.some.inj hframe
      have hreq : s.inFlight (.conn i) = some req := by
        simp [inFlight, hp, Phase.request]
      have hensures := (ensures_conversation hL hwell hpub hsize hf (.start req.loaded)).of_resume
        (hanswers req hreq) (hr (.conn i) req hreq).run
      obtain ⟨n, state, u, es, hrun, -⟩ := hensures.exists_resume stream hstream
      obtain ⟨tr, s', req', hexec, hdone, hsame⟩ := exec_resumeLabels hc hphase hrun
      exact ⟨n, [], tr, s', req', .inl rfl, hexec, hdone, hsame⟩
  | reading | notifying | ended => cases hframe

end Run

/-- An encrypted session works from end to end, on a connection that has come to state `s`. -/
structure EndToEnd (srv : Server) (L : ClientLibrary) (client server serverPub : Octets 32)
    (sid : UInt64) (messages : List ClientMessage) (i : Nat)
    (tr : List (Step Engine Label Event)) (s : Engine) : Prop where
  -- the server reads the frames the client sends
  read : ∀ cmd payload, Client.frame cmd payload sid ∈
    Client.conversation L client serverPub sid messages → ∀ headerChunks payloadChunks rest,
    Delivers ((Client.sendFrame cmd payload sid).take 16) headerChunks →
    Delivers ((Client.sendFrame cmd payload sid).drop 16) payloadChunks →
    readFrame (headerChunks.map .recv ++ (payloadChunks.map .recv ++ rest)) =
      .returned (Client.frame cmd payload sid) rest
  -- the requests are completed in the order of the frames
  ordered : (completedBy (.conn i) (eventsOf tr)).map (·.frame) <+:
    Client.conversation L client serverPub sid messages
  -- what they send is on the wire in that order
  written : ((completedBy (.conn i) (eventsOf tr)).flatMap (·.events)).filterMap
    (wireFrame .binary) <+: framesWritten i (eventsOf tr)
  -- what a request sends is at most one frame, its reply
  single : ∀ req ∈ completedBy (.conn i) (eventsOf tr), (framesSent req.events).length ≤ 1
  -- the answer to the key exchange is the public value of the server's key
  exchanged : ∀ req, (completedBy (.conn i) (eventsOf tr))[0]? = some req →
    req.events = [.sent ⟨cmdKeyExchange, 0, 32, sid⟩ serverPub.val] ∧
    ∀ rest, Client.recvFrame (binaryFrame ⟨cmdKeyExchange, 0, 32, sid⟩ serverPub.val ++ rest) =
      some (⟨cmdKeyExchange, 0, 32, sid⟩, serverPub.val, rest)
  -- every message is served under the key the client has derived
  served : ∀ n req m, (completedBy (.conn i) (eventsOf tr))[n + 1]? = some req →
    messages[n]? = some m → Served srv L (L.exchange client serverPub) sid m (.start req.loaded)
      req.answers req.events
  -- a frame that has been read is completed
  completes : ∀ f, s.pendingFrame (.conn i) = some f → ∀ stream : Nat → Answer,
    (∀ n, (stream n).Good server) → Completes srv s i stream f

/-- For all keys, session ids and messages: in every run in which a binary connection has the
session to itself, its operations succeed and the client's frames arrive on it, the session works
from end to end. -/
theorem encrypted_session_endToEnd {srv : Server} {L : ClientLibrary}
    (hL : Interoperates srv.botan L) (hwell : srv.WellBehaved)
    {client server serverPub : Octets 32}
    (hpub : srv.botan.publicValue server = .ok serverPub.val) {sid : UInt64}
    {messages : List ClientMessage} (hsize : ∀ m ∈ messages, m.inner.length < maxInner)
    {discovery : DiscoveryConfig} {enabled : Bool} {tr : List (Step Engine Label Event)}
    {s : Engine} (h : Trace (step srv) (init srv discovery enabled) tr s) {i : Nat}
    (hbinary : ∀ c, s.conns[i]? = some c → c.mode = .binary)
    (halone : ∀ x ∈ tr, ReadsAlone i sid x.label)
    (hgood : ∀ x ∈ tr, AnswersGood server i x.label)
    (hframes : framesRead (.conn i) tr <+: Client.conversation L client serverPub sid messages) :
    EndToEnd srv L client server serverPub sid messages i tr s := by
  have hledger := ledger_run i h
  have hforce := keyInForce_run hL hwell hpub hsize h halone hgood hframes
  have hexchanged : ∀ req, (completedBy (.conn i) (eventsOf tr))[0]? = some req →
      req.events = [.sent ⟨cmdKeyExchange, 0, 32, sid⟩ serverPub.val] := by
    intro req hreq
    obtain ⟨hcompleted, -⟩ := hforce.each 0 req hreq
    have hframe : Client.frame cmdKeyExchange (L.publicKey client).val sid = req.frame := by
      simpa [Client.conversation] using hledger.completed_at hframes hreq
    have hid : (RequestState.start req.loaded).session.id = sid := by
      have hid := hcompleted.consistent.loaded_id
      rw [← hframe] at hid
      exact hid
    have hrun := hcompleted.run
    rw [← hframe, processCommand_keyExchange] at hrun
    rw [resume_keyExchange hL hpub hcompleted.good hrun, hid]
  have hserved : ∀ n req m, (completedBy (.conn i) (eventsOf tr))[n + 1]? = some req →
      messages[n]? = some m → Served srv L (L.exchange client serverPub) sid m
        (.start req.loaded) req.answers req.events ∧ (framesSent req.events).length ≤ 1 := by
    intro n req m hreq hm
    obtain ⟨hcompleted, hkey⟩ := hforce.each (n + 1) req hreq
    have hframe := hledger.completed_at hframes hreq
    simp only [Client.conversation, List.getElem?_cons_succ, List.getElem?_map, hm,
      Option.map_some, Option.some.injEq] at hframe
    exact served_of_completed hL hwell (hsize m (List.mem_of_getElem? hm)) hcompleted hframe.symm
      (hkey (Nat.succ_pos n))
  constructor
  · intro cmd payload hmem headerChunks payloadChunks rest hheader hpayload
    refine Client.readFrame_sendFrame cmd sid ?_ hheader hpayload rest
    rcases List.mem_cons.mp hmem with heq | hmem
    · obtain ⟨-, rfl⟩ := ClientFrame.mk.inj heq
      rw [(L.publicKey client).property]
      decide
    · obtain ⟨m, hm, heq⟩ := List.mem_map.mp hmem
      obtain ⟨-, rfl⟩ := ClientFrame.mk.inj heq
      exact hL.length_outerPayload _ (hsize m hm)
  · obtain ⟨frames, _, hread, -, -⟩ := hledger
    rw [hread, List.append_assoc] at hframes
    exact (List.prefix_append _ _).trans hframes
  · obtain ⟨_, events, -, hevents, -⟩ := hledger
    rw [framesWritten_run h hbinary, hevents, List.append_assoc, List.filterMap_append]
    exact List.prefix_append _ _
  · intro req hreq
    obtain ⟨n, hn⟩ := List.mem_iff_getElem?.mp hreq
    cases n with
    | zero =>
        rw [hexchanged req hn]
        exact le_refl 1
    | succ n =>
        have hframe := hledger.completed_at hframes hn
        simp only [Client.conversation, List.getElem?_cons_succ, List.getElem?_map,
          Option.map_eq_some_iff] at hframe
        obtain ⟨m, hm, -⟩ := hframe
        exact (hserved n req m hn hm).2
  · exact fun req hreq =>
      ⟨hexchanged req hreq, Client.recvFrame_binaryFrame serverPub.property.symm⟩
  · exact fun n req m hreq hm => (hserved n req m hreq hm).1
  · intro f hf stream hstream
    have hmem := List.mem_of_getElem? (hledger.frame_at hframes hf)
    exact completes_of_pending hL hwell hpub hsize hmem hf (requests_run h).2 hforce.current
      stream hstream

end Engine

namespace Recorded

def library : ClientLibrary where
  publicKey := publicOf
  exchange := agree
  encrypt := encrypted
  decrypt k iv output := (decrypted k iv output).toOption

theorem publicOf_eq_clientPub {x : Octets 32} : publicOf x = clientPub ↔ x = clientPriv := by
  unfold publicOf
  split_ifs <;> simp_all +decide

theorem publicOf_eq_serverPub {x : Octets 32} : publicOf x = serverPub ↔ x = serverPriv := by
  unfold publicOf
  split_ifs <;> simp_all +decide

theorem agree_comm (client server : Octets 32) :
    agree server (publicOf client) = agree client (publicOf server) := by
  refine if_congr ?_ rfl rfl
  rw [publicOf_eq_serverPub, publicOf_eq_clientPub, publicOf_eq_serverPub, publicOf_eq_clientPub]
  tauto

theorem length_encrypted (k : AesKey) (iv : Octets 12) (m : Bytes) :
    (encrypted k iv m).length = m.length + 16 := by
  unfold encrypted
  split_ifs with h₁ h₂
  · rw [h₁.2.2]
    rfl
  · rw [h₂.2.2]
    rfl
  · simp [zeroTag]

theorem decrypted_encrypted (k : AesKey) (iv : Octets 12) (m : Bytes) :
    decrypted k iv (encrypted k iv m) = .ok m := by
  -- the tags of the recorded outputs are not zero
  have hzero : (m ++ zeroTag).drop ((m ++ zeroTag).length - 16) = zeroTag := by
    simp [zeroTag]
  have hne : ∀ output, output.drop (output.length - 16) ≠ zeroTag → m ++ zeroTag ≠ output := by
    intro output htag heq
    exact htag (heq ▸ hzero)
  unfold encrypted
  split_ifs with h₁ h₂
  · obtain ⟨rfl, rfl, rfl⟩ := h₁
    exact if_pos ⟨rfl, rfl, rfl⟩
  · obtain ⟨rfl, rfl, rfl⟩ := h₂
    unfold decrypted
    rw [if_neg (by decide), if_pos ⟨rfl, rfl, rfl⟩]
  · unfold decrypted
    rw [if_neg fun h => hne _ (by decide) h.2.2, if_neg fun h => hne _ (by decide) h.2.2,
      if_pos hzero]
    simp [zeroTag]

theorem interoperates : Interoperates botan library where
  available := rfl
  publicValue priv := ⟨publicOf priv, rfl⟩
  agreement := by
    intro client server pub hpub
    obtain rfl : publicOf server = pub := Subtype.ext (Except.ok.inj hpub)
    exact congrArg (fun k : Octets 32 => Except.ok k.val) (agree_comm client server)
  length_encrypt k iv m _ := length_encrypted k iv m
  open_encrypt k iv m _ := decrypted_encrypted k iv m
  sealed k iv m _ := by
    refine ⟨encrypted k iv m, rfl, length_encrypted k iv m, ?_⟩
    simp [library, decrypted_encrypted, Except.toOption]

theorem handler_eq_echo {cmd : UInt16} {ep : Endpoint} {handler : Handler}
    (hget : Server.recorded.router.get cmd = some (ep, handler)) :
    handler = fun ctx => .ret { payload := ctx.payload } := by
  simp only [Server.recorded, Server.echo, Router.get, Router.add, Router.update, Router.empty,
    Option.map_eq_some_iff, Prod.mk.injEq] at hget
  obtain ⟨h, hh, -, rfl⟩ := hget
  split at hh <;> cases hh
  rfl

theorem handlersReturn : Server.recorded.HandlersReturn := by
  intro cmd ep handler hget ctx t hsize
  obtain rfl := handler_eq_echo hget
  exact ⟨rfl, hsize⟩

theorem wellBehaved : Server.recorded.WellBehaved where
  handler := handlersReturn
  authenticator := by
    intro ctx t a _
    exact rfl
  pushless :=
    { authenticator := fun _ => ⟨rfl, fun _ => trivial⟩
      handler := by
        intro cmd ep handler hget ctx
        obtain rfl := handler_eq_echo hget
        trivial }

end Recorded

namespace Engine

theorem encrypted_session_recorded :
    ∃ tr s, Trace (step Server.recorded) (init Server.recorded {} false) tr s ∧
      (completedBy (.conn 0) (eventsOf tr)).length = 2 ∧
      EndToEnd Server.recorded Recorded.library Recorded.clientPriv Recorded.serverPriv
        Recorded.serverPub 7 [⟨1, [104, 105], Recorded.request.iv⟩] 0 tr s := by
  obtain ⟨tr, s, htr, hdone, hbinary, halone, hgood, hframes⟩ := exists_trace_of_exec
    (step Server.recorded) (init Server.recorded {} false)
    (.accept .binary 5 :: Recorded.labels (.conn 0) (Recorded.keyExchange 7) 4 ++
      .work (.conn 0) .save :: Recorded.labels (.conn 0) (Recorded.message 7) 6 ++
      [.work (.conn 0) .save])
    (fun tr s => (completedBy (.conn 0) (eventsOf tr)).length = 2 ∧
      (∀ c ∈ s.conns[0]?, c.mode = .binary) ∧
      (∀ x ∈ tr, ReadsAlone 0 7 x.label) ∧
      (∀ x ∈ tr, AnswersGood Recorded.serverPriv 0 x.label) ∧
      framesRead (.conn 0) tr = Client.conversation Recorded.library Recorded.clientPriv
        Recorded.serverPub 7 [⟨1, [104, 105], Recorded.request.iv⟩]) (by decide +kernel)
  exact ⟨tr, s, htr, hdone, encrypted_session_endToEnd Recorded.interoperates Recorded.wellBehaved
    rfl (by decide) htr hbinary halone hgood (hframes ▸ List.prefix_refl _)⟩

end Engine

/-- The recorded message. -/
def Recorded.clientMessage : ClientMessage := ⟨1, [104, 105], Recorded.request.iv⟩

/-- The recorded server, whose command 1 needs authentication by an authenticator that installs a
key of its own. -/
def Server.rekeying : Server :=
  { Server.recorded with
    router := Server.recorded.router.requireAuth 1
    authenticator := fun _ => .call (.setAesKey (Recorded.key 0)) fun _ => .ret true }

namespace Recorded

theorem handler_of_rekeying {cmd : UInt16} {ep : Endpoint} {handler : Handler}
    (hget : Server.rekeying.router.get cmd = some (ep, handler)) :
    handler = fun ctx => .ret { payload := ctx.payload } := by
  simp only [Server.rekeying, Server.recorded, Server.echo, Router.get, Router.requireAuth,
    Router.add, Router.update, Router.empty, Option.map_eq_some_iff, Prod.mk.injEq] at hget
  obtain ⟨h, hh, -, rfl⟩ := hget
  split at hh <;> cases hh
  rfl

theorem rekeying_handlersReturn : Server.rekeying.HandlersReturn := by
  intro cmd ep handler hget ctx t hsize
  obtain rfl := handler_of_rekeying hget
  exact ⟨rfl, hsize⟩

theorem rekeying_pushless : Server.rekeying.Pushless where
  authenticator := fun _ => ⟨rfl, fun _ => trivial⟩
  handler := by
    intro cmd ep handler hget ctx
    obtain rfl := handler_of_rekeying hget
    trivial

theorem pushing_handlersReturn : Server.pushing.HandlersReturn := by
  intro cmd ep handler hget ctx t hsize
  simp only [Server.pushing, Router.get, Router.add, Router.update, Router.empty,
    Option.map_eq_some_iff, Prod.mk.injEq] at hget
  obtain ⟨h, hh, -, rfl⟩ := hget
  split at hh <;> cases hh
  intro a _
  exact ⟨rfl, hsize⟩

end Recorded

namespace Engine

/-- Encrypted sessions work from end to end, if so much is assumed of the server and of the
answers to the operations of the connection. -/
def EndToEndUnder (assumed : Server → Prop) (answers : Octets 32 → Nat → Label → Prop) : Prop :=
  ∀ (srv : Server) (L : ClientLibrary) (client server serverPub : Octets 32) (sid : UInt64)
    (messages : List ClientMessage) (discovery : DiscoveryConfig) (enabled : Bool)
    (tr : List (Step Engine Label Event)) (s : Engine) (i : Nat), Interoperates srv.botan L →
    assumed srv → srv.botan.publicValue server = .ok serverPub.val →
    (∀ m ∈ messages, m.inner.length < maxInner) →
    Trace (step srv) (init srv discovery enabled) tr s →
    (∀ c, s.conns[i]? = some c → c.mode = .binary) →
    (∀ x ∈ tr, ReadsAlone i sid x.label) → (∀ x ∈ tr, answers server i x.label) →
    framesRead (.conn i) tr <+: Client.conversation L client serverPub sid messages →
    EndToEnd srv L client server serverPub sid messages i tr s

theorem EndToEndUnder.mono {assumed assumed' : Server → Prop}
    {answers answers' : Octets 32 → Nat → Label → Prop} (h : EndToEndUnder assumed answers)
    (hassumed : ∀ srv, assumed' srv → assumed srv)
    (hanswers : ∀ server i a, answers' server i a → answers server i a) :
    EndToEndUnder assumed' answers' := by
  intro srv L client server serverPub sid messages discovery enabled tr s i hL hsrv hpub hsize htr
    hbinary halone hgood
  exact h srv L client server serverPub sid messages discovery enabled tr s i hL
    (hassumed srv hsrv) hpub hsize htr hbinary halone fun x hx => hanswers _ _ _ (hgood x hx)

/-- The authenticator replaces the key with the first message, and the second one is not
served. -/
theorem not_endToEnd_rekeying :
    ¬ EndToEndUnder (fun srv => srv.HandlersReturn ∧ srv.Pushless) AnswersGood := by
  intro h
  obtain ⟨tr, s, htr, hdone, hbinary, halone, hgood, hframes⟩ := exists_trace_of_exec
    (step Server.rekeying) (init Server.rekeying {} false)
    (.accept .binary 5 :: Recorded.labels (.conn 0) (Recorded.keyExchange 7) 4 ++
      .work (.conn 0) .save :: Recorded.labels (.conn 0) (Recorded.message 7) 8 ++
      .work (.conn 0) .save :: Recorded.labels (.conn 0) (Recorded.message 7) 1 ++
      [.work (.conn 0) .save])
    (fun tr s => (completedBy (.conn 0) (eventsOf tr)).map (·.events.length) = [1, 3, 0] ∧
      (∀ c ∈ s.conns[0]?, c.mode = .binary) ∧
      (∀ x ∈ tr, ReadsAlone 0 7 x.label) ∧
      (∀ x ∈ tr, AnswersGood Recorded.serverPriv 0 x.label) ∧
      framesRead (.conn 0) tr = Client.conversation Recorded.library Recorded.clientPriv
        Recorded.serverPub 7 [Recorded.clientMessage, Recorded.clientMessage])
    (by decide +kernel)
  have hworks := h Server.rekeying Recorded.library Recorded.clientPriv Recorded.serverPriv
    Recorded.serverPub 7 [Recorded.clientMessage, Recorded.clientMessage] {} false tr s 0
    Recorded.interoperates ⟨Recorded.rekeying_handlersReturn, Recorded.rekeying_pushless⟩ rfl
    (by decide) htr hbinary halone hgood (hframes ▸ List.prefix_refl _)
  obtain ⟨exchange, rest, hlist, -, hrest⟩ := List.map_eq_cons_iff.mp hdone
  obtain ⟨first, rest, rfl, -, hrest⟩ := List.map_eq_cons_iff.mp hrest
  obtain ⟨second, rest, rfl, hsecond, -⟩ := List.map_eq_cons_iff.mp hrest
  obtain ⟨u, admitted, _, _, gateAnswers, _, gateEvents, restEvents, -, hgate, -, hevents, -⟩ :=
    hworks.served 1 second Recorded.clientMessage (by rw [hlist]; rfl) rfl _ _ rfl
  have hcalled := authenticatorCalled_of_admission rfl hgate
  rw [List.length_eq_zero_iff.mp hsecond] at hevents
  rw [(List.append_eq_nil_iff.mp hevents.symm).1] at hcalled
  cases hcalled

/-- A handler that pushes an event has two frames sent for one message. -/
theorem not_endToEnd_pushing :
    ¬ EndToEndUnder (fun srv => srv.HandlersReturn ∧ srv.AuthenticatorReturns) AnswersGood := by
  intro h
  obtain ⟨tr, s, htr, hdone, hbinary, halone, hgood, hframes⟩ := exists_trace_of_exec
    (step Server.pushing) (init Server.pushing {} false)
    (.accept .binary 5 :: Recorded.labels (.conn 0) (Recorded.keyExchange 7) 4 ++
      .work (.conn 0) .save :: Recorded.labels (.conn 0) (Recorded.message 7) 7 ++
      [.work (.conn 0) .save])
    (fun tr s => (∃ req ∈ completedBy (.conn 0) (eventsOf tr),
        (framesSent req.events).length = 2) ∧
      (∀ c ∈ s.conns[0]?, c.mode = .binary) ∧
      (∀ x ∈ tr, ReadsAlone 0 7 x.label) ∧
      (∀ x ∈ tr, AnswersGood Recorded.serverPriv 0 x.label) ∧
      framesRead (.conn 0) tr = Client.conversation Recorded.library Recorded.clientPriv
        Recorded.serverPub 7 [Recorded.clientMessage])
    (by decide +kernel)
  have hworks := h Server.pushing Recorded.library Recorded.clientPriv Recorded.serverPriv
    Recorded.serverPub 7 [Recorded.clientMessage] {} false tr s 0 Recorded.interoperates
    ⟨Recorded.pushing_handlersReturn, fun _ _ _ _ => rfl⟩ rfl
    (by decide) htr hbinary halone hgood (hframes ▸ List.prefix_refl _)
  obtain ⟨req, hreq, htwo⟩ := hdone
  have hone := hworks.single req hreq
  omega

/-- The answers to the operations of the connection's requests have the property. -/
def AnswersMeet (P : Answer → Prop) (i : Nat) : Label → Prop
  | .work (.conn j) (.progress ans) => j = i → P ans
  | _ => True

instance (P : Answer → Prop) [DecidablePred P] (i : Nat) :
    (a : Label) → Decidable (AnswersMeet P i a)
  | .work (.conn j) (.progress ans) => inferInstanceAs (Decidable (j = i → P ans))
  | .work (.udp _) _ | .work (.conn _) (.frame _) | .work (.conn _) .load
  | .work (.conn _) .save | .work (.conn _) (.fail _) | .work (.conn _) (.notified _)
  | .accept _ _ | .sendTo _ _ _ | .broadcast _ _ _ _ | .resumeCast _ _ | .app _
  | .discoveryRequest _ _ | .announceTick => inferInstanceAs (Decidable True)

def Answer.Sent (a : Answer) : Prop := a.sent.isOk = true

instance : DecidablePred Answer.Sent := fun a => inferInstanceAs (Decidable (a.sent.isOk = true))

def Answer.Drawn (server : Octets 32) (a : Answer) : Prop :=
  a.privateKey.toOption = some server ∧ a.iv.isOk = true

instance (server : Octets 32) : DecidablePred (Answer.Drawn server) := fun a =>
  inferInstanceAs (Decidable (a.privateKey.toOption = some server ∧ a.iv.isOk = true))

theorem not_completes_of_stuck {srv : Server} {s : Engine} {i : Nat} {a : Answer}
    {f : ClientFrame} (hstuck : ∀ act ∈ [Act.load, .save, .progress a],
      (s.step srv (.work (.conn i) act)).isNone = true) :
    ¬ Completes srv s i (fun _ => a) f := by
  rintro ⟨n, start, tr, s', req, hstart, hexec, -, -⟩
  -- none of the labels that could come first is enabled
  have hfirst : ∃ act ∈ [Act.load, .save, .progress a], ∃ labels,
      start ++ resumeLabels i ((List.range n).map fun _ => a) =
        .work (.conn i) act :: labels := by
    rcases hstart with rfl | rfl
    · cases n with
      | zero => exact ⟨.save, by simp, [], rfl⟩
      | succ n =>
          refine ⟨.progress a, by simp, ?_⟩
          rw [List.range_succ_eq_map]
          exact ⟨_, rfl⟩
    · exact ⟨.load, by simp, _, rfl⟩
  obtain ⟨act, hact, labels, hlabels⟩ := hfirst
  rw [hlabels] at hexec
  obtain ⟨m, evs, rest, hstep, -, -⟩ := exec_cons_eq_some hexec
  have hnone := hstuck act hact
  rw [hstep] at hnone
  cases hnone

/-- A key exchange of which an operation fails is never completed. -/
theorem not_endToEnd_of_stuck {answers : Octets 32 → Nat → Label → Prop}
    (h : ∃ tr s, Trace (step Server.recorded) (init Server.recorded {} false) tr s ∧
      s.pendingFrame (.conn 0) = some (Recorded.keyExchange 7) ∧
      (∀ act ∈ [Act.load, .save, .progress Recorded.answer],
        (s.step Server.recorded (.work (.conn 0) act)).isNone = true) ∧
      (∀ c ∈ s.conns[0]?, c.mode = .binary) ∧ (∀ x ∈ tr, ReadsAlone 0 7 x.label) ∧
      (∀ x ∈ tr, answers Recorded.serverPriv 0 x.label) ∧
      framesRead (.conn 0) tr = Client.conversation Recorded.library Recorded.clientPriv
        Recorded.serverPub 7 []) : ¬ EndToEndUnder Server.WellBehaved answers := by
  intro hall
  obtain ⟨tr, s, htr, hpending, hstuck, hbinary, halone, hanswers, hframes⟩ := h
  have hworks := hall Server.recorded Recorded.library Recorded.clientPriv Recorded.serverPriv
    Recorded.serverPub 7 [] {} false tr s 0 Recorded.interoperates Recorded.wellBehaved rfl
    (by decide) htr hbinary halone hanswers (hframes ▸ List.prefix_refl _)
  exact not_completes_of_stuck hstuck (hworks.completes _ hpending (fun _ => Recorded.answer)
    fun _ => ⟨rfl, rfl, _, rfl⟩)

theorem not_endToEnd_unsent :
    ¬ EndToEndUnder Server.WellBehaved fun server => AnswersMeet (Answer.Drawn server) :=
  not_endToEnd_of_stuck (exists_trace_of_exec
    (step Server.recorded) (init Server.recorded {} false)
    (.accept .binary 5 :: Recorded.labels (.conn 0) (Recorded.keyExchange 7) 3 ++
      [.work (.conn 0) (.progress { Recorded.answer with sent := .error "EPIPE" })])
    _ (by decide +kernel))

theorem not_endToEnd_undrawn :
    ¬ EndToEndUnder Server.WellBehaved fun _ => AnswersMeet Answer.Sent :=
  not_endToEnd_of_stuck (exists_trace_of_exec
    (step Server.recorded) (init Server.recorded {} false)
    (.accept .binary 5 :: Recorded.labels (.conn 0) (Recorded.keyExchange 7) 0 ++
      [.work (.conn 0) (.progress
        { Recorded.answer with privateKey := .error "getrandom() failed" })])
    _ (by decide +kernel))

/-- What is assumed of the handlers alone is not enough, and each of the other assumptions is
needed: an authenticator that leaves the key alone, no pushes, sends that succeed, and random
numbers that can be drawn. -/
theorem not_encrypted_session_endToEnd :
    ¬ EndToEndUnder Server.HandlersReturn (fun _ _ _ => True) ∧
    ¬ EndToEndUnder (fun srv => srv.HandlersReturn ∧ srv.Pushless) AnswersGood ∧
    ¬ EndToEndUnder (fun srv => srv.HandlersReturn ∧ srv.AuthenticatorReturns) AnswersGood ∧
    ¬ EndToEndUnder Server.WellBehaved (fun server => AnswersMeet (Answer.Drawn server)) ∧
    ¬ EndToEndUnder Server.WellBehaved (fun _ => AnswersMeet Answer.Sent) :=
  ⟨fun h => not_endToEnd_unsent (h.mono (fun _ hwell => hwell.handler) fun _ _ _ _ => trivial),
    not_endToEnd_rekeying, not_endToEnd_pushing, not_endToEnd_unsent, not_endToEnd_undrawn⟩

end Engine

end Servd
