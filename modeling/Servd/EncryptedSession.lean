import Servd.Serialisation

/-!
Encrypted messages. Whether one is accepted is decided by its payload and by the key
in the record its request has loaded, and by nothing else: the engine keeps no trace
of the messages it has seen. A message that does not authenticate has no effect. One
that does is routed each time it is received.
-/
namespace Servd

open Coroutine Transition

def Session.installedKey (session : Session) : Option AesKey :=
  if session.hasAesKey then some session.aesKey else none

/-- The plaintext of an outer payload, which is IV, tag, ciphertext, if it is authentic. -/
def openPayload (B : Botan) (key : AesKey) (payload : Bytes) : Option Bytes :=
  if B.gcmAvailable ∧ 28 ≤ payload.length then
    (B.openMessage key (Octets.ofBytes 12 payload)
      (payload.drop 28 ++ (payload.drop 12).take 16)).toOption.map (·.take (payload.length - 28))
  else none

/-- The inner command id and payload of an outer payload, if it is authentic. -/
def innerMessage (B : Botan) (key : Option AesKey) (payload : Bytes) : Option (UInt16 × Bytes) :=
  (key.bind (openPayload B · payload)).bind fun pt =>
    if pt.length < 2 then none
    else some (UInt16.ofNat (Bytes.ofLittleEndian (pt.take 2)), pt.drop 2)

theorem innerMessage_of_open {B : Botan} {key : AesKey} {payload pt : Bytes}
    (h : openPayload B key payload = some pt) :
    innerMessage B (some key) payload = if pt.length < 2 then none
      else some (UInt16.ofNat (Bytes.ofLittleEndian (pt.take 2)), pt.drop 2) := by
  rw [innerMessage, Option.bind_some, h, Option.bind_some]

theorem length_of_innerMessage {B : Botan} {key : Option AesKey} {payload inner : Bytes}
    {cmd : UInt16} (h : innerMessage B key payload = some (cmd, inner)) :
    inner.length + 30 ≤ payload.length := by
  simp only [innerMessage, Option.bind_eq_some_iff] at h
  obtain ⟨pt, ⟨k, -, hopen⟩, hpt⟩ := h
  unfold openPayload at hopen
  split at hopen
  · rename_i hlong
    obtain ⟨buf, -, rfl⟩ := Option.map_eq_some_iff.mp hopen
    split at hpt
    · cases hpt
    · cases hpt
      simp only [List.length_take, List.length_drop] at *
      omega
  · cases hopen

theorem Octets.ofBytes_take {n : Nat} {bs : Bytes} (h : n ≤ bs.length) :
    (Octets.ofBytes n bs).val = bs.take n := by
  simp [Octets.ofBytes, List.take_append_of_le_length h]

theorem decrypt_reassembled (B : Botan) (key : AesKey) {payload : Bytes}
    (hB : B.gcmAvailable = true) (h : 28 ≤ payload.length) :
    (AesGcm.decrypt B ⟨key⟩ (payload.drop 28 ++ (payload.drop 12).take 16) []
      (payload.take 12)).toOption = openPayload B key payload := by
  have hiv : (payload.take 12).length = AesGcm.nonceSize := by
    simp only [List.length_take, AesGcm.nonceSize]
    omega
  have hlength : (payload.drop 28 ++ (payload.drop 12).take 16).length = payload.length - 28 + 16 := by
    simp only [List.length_append, List.length_drop, List.length_take]
    omega
  have hoctets : Octets.ofBytes 12 payload = ⟨payload.take 12, hiv⟩ :=
    Subtype.ext (Octets.ofBytes_take (by omega))
  simp only [AesGcm.decrypt, hiv, dite_true, hlength, AesGcm.tagSize, openPayload, hB, h,
    hoctets, true_and, if_true, List.nil_append]
  rw [if_neg (by omega)]
  cases B.openMessage key ⟨payload.take 12, hiv⟩
      (payload.drop 28 ++ (payload.drop 12).take 16) with
  | error e => rfl
  | ok buf => simp [Except.map, Except.toOption]

/-- What `do_decrypt` finds in a payload. -/
inductive Decrypted (B : Botan) (payload : Bytes) (session : Session) : Prop
  | authentic (cmd : UInt16) (inner : Bytes) (hkey : session.installedKey = some session.aesKey)
      (hmessage : innerMessage B session.installedKey payload = some (cmd, inner))
      (h : doDecrypt B payload session = .ok (some ⟨⟨session.aesKey⟩, cmd, inner⟩))
  | rejected (hmessage : innerMessage B session.installedKey payload = none)
      (h : doDecrypt B payload session = .ok none)
  | unavailable (what : String) (hmessage : innerMessage B session.installedKey payload = none)
      (h : doDecrypt B payload session = .error what)

theorem doDecrypt_cases (B : Botan) (payload : Bytes) (session : Session) :
    Decrypted B payload session := by
  by_cases hno : ¬ session.hasAesKey ∨ payload.length < AesGcm.nonceSize + AesGcm.tagSize
  · refine .rejected ?_ (if_pos hno)
    simp only [AesGcm.nonceSize, AesGcm.tagSize] at hno
    rcases hno with hkey | hshort
    · simp [innerMessage, Session.installedKey, hkey]
    · have hclosed : ∀ key, openPayload B key payload = none := fun key =>
        if_neg fun hlong => by omega
      simp [innerMessage, hclosed]
  · obtain ⟨hkey, hlength⟩ := not_or.mp hno
    have hinstalled : session.installedKey = some session.aesKey := if_pos (not_not.mp hkey)
    simp only [AesGcm.nonceSize, AesGcm.tagSize, Nat.not_lt] at hlength
    have hdef : doDecrypt B payload session = _ := if_neg hno
    simp only [AesGcm.nonceSize, AesGcm.tagSize] at hdef
    cases hB : B.gcmAvailable with
    | false =>
        refine .unavailable "AesGcm: Botan AES-256/GCM not available" ?_ ?_
        · simp [innerMessage, hinstalled, openPayload, hB]
        · simp [hdef, AesGcm.create, hB]
    | true =>
        have hopen := decrypt_reassembled B session.aesKey hB hlength
        have hcreate : AesGcm.create B session.aesKey = .ok ⟨session.aesKey⟩ := if_pos hB
        simp only [hcreate] at hdef
        cases hd : AesGcm.decrypt B ⟨session.aesKey⟩ (payload.drop 28 ++ (payload.drop 12).take 16)
            [] (payload.take 12) with
        | error e =>
            rw [hd] at hopen hdef
            refine .rejected ?_ hdef
            simp [innerMessage, hinstalled, ← hopen, Except.toOption]
        | ok pt =>
            rw [hd] at hopen hdef
            have hinner := innerMessage_of_open hopen.symm
            rw [← hinstalled] at hinner
            by_cases hpt : pt.length < 2
            · exact .rejected (hinner.trans (if_pos hpt)) (hdef.trans (if_pos hpt))
            · exact .authentic _ _ hinstalled (hinner.trans (if_neg hpt))
                (hdef.trans (if_neg hpt))

theorem doDecrypt_ne_error {B : Botan} (hB : B.gcmAvailable = true) {payload : Bytes}
    {session : Session} {what : String} : doDecrypt B payload session ≠ .error what := by
  intro h
  unfold doDecrypt at h
  split at h
  · cases h
  · rw [AesGcm.create, if_pos hB] at h
    simp only at h
    split at h
    · cases h
    · split at h <;> cases h

def innerContext (transport : TransportType) (sid : UInt64) (cmd : UInt16) (inner : Bytes) :
    Context :=
  ⟨⟨cmd, 0, size32 inner, sid⟩, inner, transport⟩

def Server.admission (srv : Server) (ep : Endpoint) (ctx : Context) : Task Bool :=
  if ep.requiresAuth then Task.authenticate srv.authenticator ctx else pure true

def Endpoint.allows (ep : Endpoint) (transport : TransportType) : Prop :=
  ep.allowedTransport = .any ∨ ep.allowedTransport = transport

instance (ep : Endpoint) (transport : TransportType) : Decidable (ep.allows transport) :=
  inferInstanceAs (Decidable (_ ∨ _))

/-- What an authentic message has done when its routing has come to its end: the answers it
consumed, the state it has left and its events. -/
inductive Routed (srv : Server) (transport : TransportType) (key : AesKey) (cmd : UInt16)
    (inner : Bytes) (t : RequestState) : List Answer → RequestState → List RequestEvent → Prop
  | unknown (hget : srv.router.get cmd = none) : Routed srv transport key cmd inner t [] t []
  | refused {ep : Endpoint} {handler : Handler} {a : Answer} {as : List Answer}
      {u : RequestState} {admitted : Bool} {es : List RequestEvent}
      (hget : srv.router.get cmd = some (ep, handler))
      (hgate : resume requestSem t
        (srv.admission ep (innerContext transport t.session.id cmd inner)) as =
          some (u, .ret admitted, es))
      (hno : ¬ (admitted = true ∧ ep.allows transport)) :
      Routed srv transport key cmd inner t (a :: as) u es
  | handled {ep : Endpoint} {handler : Handler} {a b c d e : Answer} {as bs : List Answer}
      {u v : RequestState} {response : ResponseFrame} {es fs : List RequestEvent}
      {iv : Octets 12} {enc : Bytes} (hget : srv.router.get cmd = some (ep, handler))
      (hgate : resume requestSem t
        (srv.admission ep (innerContext transport t.session.id cmd inner)) as =
          some (u, .ret true, es))
      (hallows : ep.allows transport)
      (hhandler : resume requestSem u
        (handler (innerContext transport t.session.id cmd inner)).lift bs =
          some (v, .ret response, fs))
      (hiv : c.iv = .ok iv)
      (hseal : srv.botan.sealMessage key iv
        (Bytes.littleEndian 2 cmd.toNat ++ response.payload) = .ok enc) :
      Routed srv transport key cmd inner t (a :: as ++ b :: bs ++ [c, d, e]) v
        (es ++ .handlerCalled (innerContext transport t.session.id cmd inner) u :: fs ++
          [.sent ⟨cmdEncryptedMessage, response.flags, size32 (sealedReply iv enc), t.session.id⟩
            (sealedReply iv enc)])

def Server.encryptedReply (srv : Server) (key : AesKey) (cmd : UInt16) (response : ResponseFrame) :
    Task Unit := do
  let ivOut ← Task.genIv
  let enc ← Task.ofStd (AesGcm.encrypt srv.botan ⟨key⟩
    (Bytes.littleEndian 2 cmd.toNat ++ response.payload) [] ivOut.val)
  let session ← Task.session
  Task.sendFrame ⟨cmdEncryptedMessage, response.flags, size32 (sealedReply ivOut enc), session.id⟩
    (sealedReply ivOut enc)

theorem doRouteAndSend_eq {srv : Server} {cmd : UInt16} {ep : Endpoint} {handler : Handler}
    (hget : srv.router.get cmd = some (ep, handler)) (transport : TransportType) (key : AesKey)
    (inner : Bytes) :
    srv.doRouteAndSend transport ⟨key⟩ cmd inner = Task.session >>= fun session =>
      srv.admission ep (innerContext transport session.id cmd inner) >>= fun admitted =>
        if admitted = true ∧ ep.allows transport then
          Task.handle handler (innerContext transport session.id cmd inner) >>=
            srv.encryptedReply key cmd
        else .ret () := by
  simp only [Server.doRouteAndSend, hget]
  rfl

theorem resume_encryptedReply {srv : Server} {key : AesKey} {cmd : UInt16}
    {response : ResponseFrame} {t t' : RequestState} {as : List Answer} {es : List RequestEvent}
    (h : resume requestSem t (srv.encryptedReply key cmd response) as = some (t', .ret (), es)) :
    ∃ c d e iv enc, as = [c, d, e] ∧ t' = t ∧ c.iv = .ok iv ∧
      srv.botan.sealMessage key iv (Bytes.littleEndian 2 cmd.toNat ++ response.payload) =
        .ok enc ∧
      es = [.sent
        ⟨cmdEncryptedMessage, response.flags, size32 (sealedReply iv enc), t.session.id⟩
        (sealedReply iv enc)] := by
  obtain ⟨c, cs, fs, rfl, hrest, rfl⟩ := resume_call_ret.mp h
  obtain ⟨as₁, as₂, u, iv, es₁, es₂, rfl, hiv, htail, rfl⟩ := resume_bind_ret hrest
  obtain ⟨hok, rfl, rfl, rfl⟩ := resume_ofStd_ret hiv
  obtain ⟨bs₁, bs₂, v, enc, fs₁, fs₂, rfl, henc, hsend, rfl⟩ := resume_bind_ret htail
  obtain ⟨hseal, rfl, rfl, rfl⟩ := resume_ofStd_ret henc
  obtain ⟨d, ds, gs, rfl, hframe, rfl⟩ := resume_call_bind_ret.mp hsend
  obtain ⟨e, hs, ks, rfl, hlast, rfl⟩ := resume_call_ret.mp hframe
  obtain ⟨hsent, rfl, rfl, rfl⟩ := resume_ofStd_ret hlast
  rw [AesGcm.encrypt_no_aad] at hseal
  refine ⟨c, d, e, iv, enc, rfl, rfl, hok, hseal, ?_⟩
  have hsent : e.sent = .ok () := hsent
  simp [requestSem, answerOp, answerUser, hsent, sentEvents]

theorem routed_of_resume {srv : Server} {transport : TransportType} {key : AesKey}
    {cmd : UInt16} {inner : Bytes} {t t' : RequestState} {as : List Answer}
    {es : List RequestEvent}
    (h : resume requestSem t (srv.doRouteAndSend transport ⟨key⟩ cmd inner) as =
      some (t', .ret (), es)) : Routed srv transport key cmd inner t as t' es := by
  cases hget : srv.router.get cmd with
  | none =>
      simp only [Server.doRouteAndSend, hget] at h
      obtain ⟨rfl, rfl, -, rfl⟩ := resume_ret.mp h
      exact .unknown hget
  | some entry =>
      obtain ⟨ep, handler⟩ := entry
      rw [doRouteAndSend_eq hget] at h
      obtain ⟨a, as', es', rfl, hrest, rfl⟩ := resume_call_bind_ret.mp h
      obtain ⟨as₁, as₂, u, admitted, es₁, es₂, rfl, hgate, hbody, rfl⟩ := resume_bind_ret hrest
      by_cases hok : admitted = true ∧ ep.allows transport
      · rw [if_pos hok] at hbody
        obtain ⟨b, bs, fs, rfl, hcall, rfl⟩ := resume_call_ret.mp hbody
        obtain ⟨bs₁, bs₂, v, response, fs₁, fs₂, rfl, hhandler, hsend, rfl⟩ :=
          resume_bind_ret hcall
        obtain ⟨c, d, e, iv, enc, rfl, rfl, hiv, hseal, rfl⟩ := resume_encryptedReply hsend
        have hid : t'.session.id = t.session.id :=
          (resume_session_id hhandler).trans (resume_session_id hgate)
        obtain ⟨rfl, hallows⟩ := hok
        have hrouted := Routed.handled (a := a) (b := b) (d := d) (e := e) hget hgate hallows
          hhandler hiv hseal
        simpa [requestSem, answerOp, answerUser, hid] using hrouted
      · rw [if_neg hok] at hbody
        obtain ⟨rfl, rfl, -, rfl⟩ := resume_ret.mp hbody
        have hrouted : Routed srv transport key cmd inner t (a :: as₁) t' es₁ :=
          .refused hget hgate hok
        simpa [requestSem, answerOp, answerUser] using hrouted

section Message

variable {srv : Server} {frame : ClientFrame} {transport : TransportType} {t t' : RequestState}
  {as : List Answer} {es : List RequestEvent}

theorem resume_rejected {c : Task Unit}
    (hmessage : innerMessage srv.botan t.session.installedKey frame.payload = none)
    (h : resume requestSem t (srv.handleEncryptedMessage frame transport) as =
      some (t', c, es)) : t' = t ∧ es = [] := by
  cases as with
  | nil =>
      cases h
      exact ⟨rfl, rfl⟩
  | cons a as =>
      obtain ⟨u, d, es₁, es₂, ha, hr, rfl⟩ := resume_cons_eq_some.mp h
      cases ha
      change resume requestSem t (Task.ofStd (doDecrypt srv.botan frame.payload t.session) >>= _) as
        = _ at hr
      cases doDecrypt_cases srv.botan frame.payload t.session with
      | authentic cmd inner _ hsome _ =>
          rw [hmessage] at hsome
          cases hsome
      | rejected _ hd =>
          rw [hd] at hr
          obtain ⟨-, rfl, -, rfl⟩ := resume_ret.mp hr
          exact ⟨rfl, rfl⟩
      | unavailable what _ hd =>
          rw [hd] at hr
          obtain ⟨-, rfl, -, rfl⟩ := resume_throw.mp hr
          exact ⟨rfl, rfl⟩

theorem routed_of_authentic {cmd : UInt16} {inner : Bytes}
    (hmessage : innerMessage srv.botan t.session.installedKey frame.payload = some (cmd, inner))
    (h : resume requestSem t (srv.handleEncryptedMessage frame transport) as =
      some (t', .ret (), es)) :
    ∃ a as', as = a :: as' ∧ Routed srv transport t.session.aesKey cmd inner t as' t' es := by
  obtain ⟨a, as', es', rfl, hrest, rfl⟩ := resume_call_bind_ret.mp h
  change resume requestSem t (Task.ofStd (doDecrypt srv.botan frame.payload t.session) >>= _) as'
    = _ at hrest
  cases doDecrypt_cases srv.botan frame.payload t.session with
  | authentic cmd' inner' _ hsome hd =>
      rw [hmessage] at hsome
      cases hsome
      rw [hd] at hrest
      exact ⟨a, as', rfl, routed_of_resume hrest⟩
  | rejected hnone _ | unavailable _ hnone _ =>
      rw [hmessage] at hnone
      cases hnone

end Message

section Routing

variable {srv : Server} {transport : TransportType} {key : AesKey} {cmd : UInt16}
  {inner : Bytes} {t t' : RequestState} {as : List Answer} {es : List RequestEvent}
  {ep : Endpoint} {handler : Handler}

theorem authenticatorCalled_of_admission {ctx : Context} {u : RequestState} {admitted : Bool}
    (hauth : ep.requiresAuth = true)
    (h : resume requestSem t (srv.admission ep ctx) as = some (u, .ret admitted, es)) :
    .authenticatorCalled ctx t ∈ es := by
  rw [Server.admission, if_pos hauth] at h
  obtain ⟨a, as', es', -, -, rfl⟩ := resume_call_ret.mp h
  simp [requestSem, answerOp]

theorem Routed.authenticatorCalled (h : Routed srv transport key cmd inner t as t' es)
    (hget : srv.router.get cmd = some (ep, handler)) (hauth : ep.requiresAuth = true) :
    .authenticatorCalled (innerContext transport t.session.id cmd inner) t ∈ es := by
  cases h with
  | unknown hnone =>
      rw [hget] at hnone
      cases hnone
  | refused hget' hgate hno =>
      cases hget.symm.trans hget'
      exact authenticatorCalled_of_admission hauth hgate
  | handled hget' hgate hallows hhandler hiv hseal =>
      cases hget.symm.trans hget'
      have hcalled := authenticatorCalled_of_admission hauth hgate
      simp [hcalled]

theorem Routed.answered (h : Routed srv transport key cmd inner t as t' es)
    (hget : srv.router.get cmd = some (ep, handler)) (hauth : ep.requiresAuth = false)
    (hallows : ep.allows transport) :
    (∃ u, .handlerCalled (innerContext transport t.session.id cmd inner) u ∈ es) ∧
      ∃ header reply, header.commandId = cmdEncryptedMessage ∧ .sent header reply ∈ es := by
  cases h with
  | unknown hnone =>
      rw [hget] at hnone
      cases hnone
  | refused hget' hgate hno =>
      cases hget.symm.trans hget'
      simp only [Server.admission, hauth] at hgate
      obtain ⟨-, -, hret, -⟩ := resume_ret.mp hgate
      cases hret
      exact absurd ⟨rfl, hallows⟩ hno
  | handled hget' hgate hallows' hhandler hiv hseal =>
      refine ⟨⟨_, List.mem_append_left _ (List.mem_append_right _ List.mem_cons_self)⟩, ?_⟩
      exact ⟨⟨cmdEncryptedMessage, _, _, _⟩, _, rfl,
        List.mem_append_right _ (List.mem_singleton_self _)⟩

end Routing

/-! A handshake and a message that a real library has produced. The calls below return what it
returned on these inputs; on any other input they agree with each other, and nothing more. -/

namespace Recorded

def key (n : Nat) : Octets 32 := Octets.ofBytes 32 (Bytes.littleEndian 32 n)

def clientPriv : Octets 32 :=
  key 0x201f1e1d1c1b1a191817161514131211100f0e0d0c0b0a090807060504030201

def clientPub : Octets 32 :=
  key 0x7c1c6db8b2c0df0bed53a86ad14a3726b46ce8101bdc55b7c8932014bc7ca307

def serverPriv : Octets 32 :=
  key 0x403f3e3d3c3b3a393837363534333231302f2e2d2c2b2a292827262524232221

def serverPub : Octets 32 :=
  key 0x7ba6f168a7a1d45aad2b74e5b01ca36d0ab3f95d5eedaacb32975450f4af6958

def sharedKey : Octets 32 :=
  key 0x779e1521c41f39e3cd64956a8bf887790adcb5e9d14cdcb2b158f0c8c3c74da8

structure Encryption where
  iv : Octets 12
  message : Bytes
  output : Bytes

/-- The client's message, command 1 with a payload of two bytes, and the server's reply. -/
def request : Encryption where
  iv := Octets.ofBytes 12 [1, 2, 3, 4, 5, 6, 7, 8, 9, 10, 11, 12]
  message := [1, 0, 104, 105]
  output := [163, 104, 63, 70, 35, 162, 104, 112, 249, 103, 82, 108, 243, 148, 1, 64, 6, 150, 111,
    29]

def reply : Encryption where
  iv := Octets.ofBytes 12 [13, 14, 15, 16, 17, 18, 19, 20, 21, 22, 23, 24]
  message := [1, 0, 104, 105]
  output := [160, 72, 146, 65, 160, 144, 113, 115, 3, 1, 241, 133, 104, 178, 22, 146, 77, 114, 12,
    26]

def publicOf (priv : Octets 32) : Octets 32 :=
  if priv = clientPriv then clientPub
  else if priv = clientPub then clientPriv
  else if priv = serverPriv then serverPub
  else if priv = serverPub then serverPriv
  else priv

def agree (priv pub : Octets 32) : Octets 32 :=
  if (priv = clientPriv ∧ pub = serverPub) ∨ (priv = serverPriv ∧ pub = clientPub) then sharedKey
  else key 0

def zeroTag : Bytes := List.replicate 16 0

def encrypted (k : AesKey) (iv : Octets 12) (message : Bytes) : Bytes :=
  if k = sharedKey ∧ iv = request.iv ∧ message = request.message then request.output
  else if k = sharedKey ∧ iv = reply.iv ∧ message = reply.message then reply.output
  else message ++ zeroTag

def decrypted (k : AesKey) (iv : Octets 12) (output : Bytes) : Except String Bytes :=
  if k = sharedKey ∧ iv = request.iv ∧ output = request.output then .ok request.message
  else if k = sharedKey ∧ iv = reply.iv ∧ output = reply.output then .ok reply.message
  else if output.drop (output.length - 16) = zeroTag then .ok (output.take (output.length - 16))
  else .error "Invalid authentication tag"

def botan : Botan where
  gcmAvailable := true
  sealMessage k iv message := .ok (encrypted k iv message)
  openMessage := decrypted
  publicValue priv := .ok (publicOf priv).val
  deriveKey priv pub := .ok (agree priv pub).val

def keyExchange (sid : UInt64) : ClientFrame := ⟨⟨cmdKeyExchange, 0, 32, sid⟩, clientPub.val⟩

def message (sid : UInt64) : ClientFrame :=
  ⟨⟨cmdEncryptedMessage, 0, 32, sid⟩, sealedReply request.iv request.output⟩

def answer : Answer := { privateKey := .ok serverPriv, iv := .ok reply.iv }

def labels (w : Worker) (f : ClientFrame) (n : Nat) : List Label :=
  [.work w (.frame f), .work w .load] ++ List.replicate n (.work w (.progress answer))

end Recorded

def Server.recorded : Server := { Server.echo with botan := Recorded.botan }

namespace Engine

/-- In every run, what becomes of an encrypted message is decided by its payload and the key of
the record its request has loaded. If it is not authentic under the key, it calls nobody, gets
no reply and leaves the session as it is. If it is, the inner command is routed, each time the
payload is received. -/
theorem encrypted_message_decided (srv : Server) (discovery : DiscoveryConfig) (enabled : Bool)
    {tr : List (Step Engine Label Event)} {s : Engine}
    (h : Trace (step srv) (init srv discovery enabled) tr s) {w : Worker} {req : Request}
    (hreq : s.inFlight w = some req) (hcmd : req.frame.header.commandId = cmdEncryptedMessage) :
    (innerMessage srv.botan req.loaded.installedKey req.frame.payload = none →
      req.events = [] ∧ req.state.session = req.loaded) ∧
    ∀ cmd inner, innerMessage srv.botan req.loaded.installedKey req.frame.payload =
        some (cmd, inner) → req.task = .ret () →
      ∀ ep handler, srv.router.get cmd = some (ep, handler) →
        (ep.requiresAuth = true → ∃ u, .authenticatorCalled
          (innerContext w.transport req.frame.header.sessionId cmd inner) u ∈ req.events) ∧
        (ep.requiresAuth = false → ep.allows w.transport →
          (∃ u, .handlerCalled
            (innerContext w.transport req.frame.header.sessionId cmd inner) u ∈ req.events) ∧
          ∃ header reply, header.commandId = cmdEncryptedMessage ∧
            .sent header reply ∈ req.events) := by
  have hc := (requests_run h).2 w req hreq
  have hrun : resume requestSem (.start req.loaded)
      (srv.handleEncryptedMessage req.frame w.transport) req.answers =
        some (req.state, req.task, req.events) := by
    rw [← hc.run, Server.processCommand, hcmd]
    rfl
  constructor
  · intro hmessage
    obtain ⟨hstate, hevents⟩ := resume_rejected hmessage hrun
    exact ⟨hevents, by rw [hstate]; rfl⟩
  · intro cmd inner hmessage htask ep handler hget
    rw [htask] at hrun
    obtain ⟨a, as', -, hrouted⟩ := routed_of_authentic hmessage hrun
    rw [← hc.loaded_id]
    exact ⟨fun hauth => ⟨_, hrouted.authenticatorCalled hget hauth⟩, hrouted.answered hget⟩

theorem encrypted_message_decided_recorded :
    ∃ tr s req, Trace (step Server.recorded) (init Server.recorded {} false) tr s ∧
      s.inFlight (.conn 0) = some req ∧
      (∃ u, .handlerCalled (innerContext .tcp 7 1 [104, 105]) u ∈ req.events) ∧
      ∃ header reply, header.commandId = cmdEncryptedMessage ∧
        .sent header reply ∈ req.events := by
  obtain ⟨tr, s, htr, req, hreq, hframe, hmessage, htask⟩ := exists_trace_of_exec
    (step Server.recorded) (init Server.recorded {} false)
    (.accept .binary 5 :: Recorded.labels (.conn 0) (Recorded.keyExchange 7) 4 ++
      .work (.conn 0) .save :: Recorded.labels (.conn 0) (Recorded.message 7) 6)
    (fun _ s => ∃ req ∈ s.inFlight (.conn 0), req.frame = Recorded.message 7 ∧
      innerMessage Server.recorded.botan req.loaded.installedKey req.frame.payload =
        some (1, [104, 105]) ∧
      req.task.result = some ()) (by decide +kernel)
  have hrouted := (encrypted_message_decided Server.recorded {} false htr hreq
    (by rw [hframe]; rfl)).2 1 [104, 105] hmessage (Coro.result_eq_some.mp htask) _ _ rfl
  rw [hframe] at hrouted
  exact ⟨tr, s, req, htr, hreq, hrouted.2 rfl (.inl rfl)⟩

def savedRequest : Event → Option (Worker × Request)
  | .saved w req => some (w, req)
  | .wrote _ _ _ _ | .sentDatagram _ _ | .request _ _ | .closed _ | .discoveryReply _
  | .announced _ => none

def completed (evs : List Event) : List (Worker × Request) := evs.filterMap savedRequest

def completedOn (sid : UInt64) (evs : List Event) : List Request :=
  ((completed evs).map Prod.snd).filter (·.frame.header.sessionId = sid)

/-- A message is sent on one connection, and its frame once more on another one. The handler
runs and a reply is sent both times, under one and the same key. -/
theorem not_replay_rejected :
    ¬ ∀ srv discovery enabled tr s, Trace (step srv) (init srv discovery enabled) tr s →
      ∀ sid key before first between second after,
        completedOn sid (eventsOf tr) = before ++ first :: between ++ second :: after →
        (∀ q ∈ first :: between ++ [second], q.loaded.installedKey = some key ∧
          q.state.session.installedKey = some key) →
        first.frame.header.commandId = cmdEncryptedMessage →
        second.frame.header.commandId = cmdEncryptedMessage →
        second.frame.payload = first.frame.payload → second.events = [] := by
  intro h
  obtain ⟨tr, s, htr, hdone, hkeys⟩ := exists_trace_of_exec
    (step Server.recorded) (init Server.recorded {} false)
    ([.accept .binary 5, .accept .binary 6] ++
      Recorded.labels (.conn 0) (Recorded.keyExchange 7) 4 ++ [.work (.conn 0) .save] ++
      Recorded.labels (.conn 0) (Recorded.message 7) 6 ++ [.work (.conn 0) .save] ++
      Recorded.labels (.conn 1) (Recorded.message 7) 6 ++ [.work (.conn 1) .save])
    (fun tr _ =>
      (completedOn 7 (eventsOf tr)).map (fun q => (q.frame, q.events.length)) =
        [(Recorded.keyExchange 7, 1), (Recorded.message 7, 2), (Recorded.message 7, 2)] ∧
      ∀ q ∈ (completedOn 7 (eventsOf tr)).tail,
        q.loaded.installedKey = some Recorded.sharedKey ∧
          q.state.session.installedKey = some Recorded.sharedKey)
    (by decide +kernel)
  obtain ⟨exchange, rest, hlist, -, hrest⟩ := List.map_eq_cons_iff.mp hdone
  obtain ⟨first, rest, rfl, hfirst, hrest⟩ := List.map_eq_cons_iff.mp hrest
  obtain ⟨second, rest, rfl, hsecond, hrest⟩ := List.map_eq_cons_iff.mp hrest
  obtain rfl := List.map_eq_nil_iff.mp hrest
  simp only [Prod.mk.injEq] at hfirst hsecond
  rw [hlist] at hkeys
  have hnone := h Server.recorded {} false tr s htr 7 Recorded.sharedKey [exchange] first [] second
    [] hlist hkeys (by rw [hfirst.1]; rfl) (by rw [hsecond.1]; rfl)
    (by rw [hfirst.1, hsecond.1])
  simp [hnone] at hsecond

end Engine

end Servd
