import Servd.Context

/-!
The processing of one decoded frame: key exchange, encrypted messages and normal
commands. The admission test of an endpoint is written out in both places where
the engine has it.
-/
namespace Servd

open Coroutine

/-- What the application has set up before `init()`. Whether a disconnect callback and a
thread pool exist is all the engine looks at before it runs the callback. -/
structure Server where
  router : Router
  authenticator : IAuthenticator := defaultAuthenticator
  botan : Botan
  disconnectHandler : Bool := false
  threadPool : Bool := false
  maxClients : Nat := 0
  tcpPorts : List (UInt16 × ProtocolMode) := []
  udpPorts : List UInt16 := []

def Server.bare : Server where
  router := .empty
  botan := .unavailable

def Server.echo : Server where
  router := Router.empty.add 1 fun ctx => .ret { payload := ctx.payload }
  botan := .unavailable

/-- A server that logs a session in with command 1, and answers command 2 with the payload of
the request. -/
def Server.login : Server where
  router := (Router.empty.add 1 fun _ => .call (.setAuthenticated true "alice") fun _ =>
    .ret { payload := [] }).add 2 fun ctx => .ret { payload := ctx.payload }
  botan := .unavailable

structure DecryptedMessage where
  cipher : AesGcm
  innerCmd : UInt16
  innerPayload : Bytes

def doDecrypt (B : Botan) (payload : Bytes) (session : Session) :
    Except String (Option DecryptedMessage) :=
  if ¬ session.hasAesKey ∨ payload.length < AesGcm.nonceSize + AesGcm.tagSize then .ok none
  else
    let iv := payload.take AesGcm.nonceSize
    let tag := (payload.drop AesGcm.nonceSize).take AesGcm.tagSize
    let ct := payload.drop (AesGcm.nonceSize + AesGcm.tagSize)
    match AesGcm.create B session.aesKey with
    | .error e => .error e
    | .ok cipher =>
        match cipher.decrypt B (ct ++ tag) [] iv with
        | .error _ => .ok none
        | .ok pt =>
            if pt.length < 2 then .ok none
            else .ok (some ⟨cipher, UInt16.ofNat (Bytes.ofLittleEndian (pt.take 2)), pt.drop 2⟩)

/-- The outer payload of an encrypted reply: IV, tag, ciphertext. -/
def sealedReply (iv : Octets 12) (enc : Bytes) : Bytes :=
  iv.val ++ enc.drop (enc.length - AesGcm.tagSize) ++ enc.take (enc.length - AesGcm.tagSize)

namespace Server

def handleKeyExchange (srv : Server) (frame : ClientFrame) : Task Unit :=
  if frame.payload.length ≠ 32 then pure ()
  else do
    let clientPub := Octets.ofBytes 32 frame.payload
    let serverPriv ← Task.generatePrivate
    let serverPub ← Task.ofStd (X25519.publicKey srv.botan serverPriv)
    let shared ← Task.ofStd (X25519.sharedSecret srv.botan serverPriv clientPub)
    Task.setAesKey shared
    let session ← Task.session
    Task.sendFrame ⟨cmdKeyExchange, 0, 32, session.id⟩ serverPub.val

def doRouteAndSend (srv : Server) (transport : TransportType) (cipher : AesGcm)
    (innerCmd : UInt16) (innerPayload : Bytes) : Task Unit :=
  match srv.router.get innerCmd with
  | none => pure ()
  | some (ep, handler) => do
      let session ← Task.session
      let ctx : Context :=
        ⟨⟨innerCmd, 0, size32 innerPayload, session.id⟩, innerPayload, transport⟩
      let authenticated ←
        (if ep.requiresAuth then Task.authenticate srv.authenticator ctx else pure true)
      if authenticated ∧ (ep.allowedTransport = .any ∨ ep.allowedTransport = transport) then
        let response ← Task.handle handler ctx
        let inner := Bytes.littleEndian 2 innerCmd.toNat ++ response.payload
        let ivOut ← Task.genIv
        let enc ← Task.ofStd (cipher.encrypt srv.botan inner [] ivOut.val)
        let out := sealedReply ivOut enc
        let session ← Task.session
        Task.sendFrame ⟨cmdEncryptedMessage, response.flags, size32 out, session.id⟩ out
      else pure ()

def handleEncryptedMessage (srv : Server) (frame : ClientFrame) (transport : TransportType) :
    Task Unit := do
  let session ← Task.session
  let msg ← Task.ofStd (doDecrypt srv.botan frame.payload session)
  match msg with
  | none => pure ()
  | some m => srv.doRouteAndSend transport m.cipher m.innerCmd m.innerPayload

def handleNormalCommand (srv : Server) (frame : ClientFrame) (transport : TransportType) :
    Task Unit :=
  match srv.router.get frame.header.commandId with
  | none => pure ()
  | some (endpoint, handler) => do
      let ctx : Context := ⟨frame.header, frame.payload, transport⟩
      let authenticated ←
        (if endpoint.requiresAuth then Task.authenticate srv.authenticator ctx else pure true)
      if authenticated ∧
          (endpoint.allowedTransport = .any ∨ endpoint.allowedTransport = transport) then
        let response ← Task.handle handler ctx
        let session ← Task.session
        Task.sendFrame
          ⟨frame.header.commandId, response.flags, size32 response.payload, session.id⟩
          response.payload
      else pure ()

def processCommand (srv : Server) (frame : ClientFrame) (transport : TransportType) :
    Task Unit :=
  if frame.header.commandId = cmdKeyExchange then srv.handleKeyExchange frame
  else if frame.header.commandId = cmdEncryptedMessage then
    srv.handleEncryptedMessage frame transport
  else srv.handleNormalCommand frame transport

end Server

/-- A rule for what holds of every command: `Q` of the whole follows from `P` of the pieces it is
bound together from. The last piece may be the reply, whose header states the size of its payload. -/
structure Server.CommandRule (srv : Server) (P : (α : Type) → Task α → Prop)
    (Q : Task Unit → Prop) : Prop where
  ret : ∀ (α : Type) (a : α), P α (.ret a)
  ofStd : ∀ (α : Type) (r : Except String α), P α (Task.ofStd r)
  generatePrivate : P _ Task.generatePrivate
  genIv : P _ Task.genIv
  session : P _ Task.session
  setAesKey : ∀ key, P _ (Task.setAesKey key)
  authenticate : ∀ ctx, P _ (Task.authenticate srv.authenticator ctx)
  handle : ∀ cmd ep handler, srv.router.get cmd = some (ep, handler) →
    ∀ ctx, P _ (Task.handle handler ctx)
  done : Q (.ret ())
  send : ∀ header payload, header.payloadLength = size32 payload → Q (Task.sendFrame header payload)
  bind : ∀ (α : Type) (c : Task α) (f : α → Task Unit), P α c → (∀ a, Q (f a)) → Q (c >>= f)

namespace Server.CommandRule

variable {srv : Server} {P : (α : Type) → Task α → Prop} {Q : Task Unit → Prop}
  (h : srv.CommandRule P Q)

include h

theorem handleKeyExchange (frame : ClientFrame) : Q (srv.handleKeyExchange frame) := by
  unfold Server.handleKeyExchange
  split
  · exact h.done
  · refine h.bind _ _ _ h.generatePrivate fun serverPriv => ?_
    refine h.bind _ _ _ (h.ofStd _ _) fun serverPub => ?_
    refine h.bind _ _ _ (h.ofStd _ _) fun shared => ?_
    refine h.bind _ _ _ (h.setAesKey shared) fun _ => ?_
    refine h.bind _ _ _ h.session fun session => ?_
    exact h.send _ _ (by simp [size32, serverPub.property])

theorem doRouteAndSend (transport : TransportType) (cipher : AesGcm) (innerCmd : UInt16)
    (innerPayload : Bytes) : Q (srv.doRouteAndSend transport cipher innerCmd innerPayload) := by
  unfold Server.doRouteAndSend
  split
  · exact h.done
  · rename_i ep handler hget
    refine h.bind _ _ _ h.session fun session => ?_
    dsimp only
    refine h.bind _ _ _ ?_ fun authenticated => ?_
    · split
      · exact h.authenticate _
      · exact h.ret _ _
    · split
      · refine h.bind _ _ _ (h.handle _ _ _ hget _) fun response => ?_
        refine h.bind _ _ _ h.genIv fun ivOut => ?_
        refine h.bind _ _ _ (h.ofStd _ _) fun enc => ?_
        exact h.bind _ _ _ h.session fun session' => h.send _ _ rfl
      · exact h.done

theorem handleNormalCommand (frame : ClientFrame) (transport : TransportType) :
    Q (srv.handleNormalCommand frame transport) := by
  unfold Server.handleNormalCommand
  split
  · exact h.done
  · rename_i endpoint handler hget
    dsimp only
    refine h.bind _ _ _ ?_ fun authenticated => ?_
    · split
      · exact h.authenticate _
      · exact h.ret _ _
    · split
      · refine h.bind _ _ _ (h.handle _ _ _ hget _) fun response => ?_
        exact h.bind _ _ _ h.session fun session => h.send _ _ rfl
      · exact h.done

theorem processCommand (frame : ClientFrame) (transport : TransportType) :
    Q (srv.processCommand frame transport) := by
  unfold Server.processCommand
  split
  · exact h.handleKeyExchange frame
  · split
    · refine h.bind _ _ _ h.session fun session => ?_
      refine h.bind _ _ _ (h.ofStd _ _) fun msg => ?_
      split
      · exact h.done
      · exact h.doRouteAndSend _ _ _ _
    · exact h.handleNormalCommand frame transport

end Server.CommandRule

end Servd
