import Servd.Gate

/-!
The decryption of an encrypted message, slice by slice. `doDecryptChecked` is
`do_decrypt` with every slice and copy in it checked against the bounds of its
buffers; no payload makes one of the checks fail. Only a payload that is authentic
under the key of the session comes to the router, with the command and the inner
payload of its plaintext.
-/
namespace Servd

open Coroutine

/-- `AesGcm::decrypt`, where a copy outside of its buffers is no result. -/
def AesGcm.decryptChecked (B : Botan) (cipher : AesGcm) (ciphertextWithTag aad nonce : Bytes) :
    Option (Except String Bytes) :=
  if h : nonce.length = nonceSize then
    if ciphertextWithTag.length < tagSize then
      some (.error "AesGcm: ciphertext too short (no tag)")
    else do
      let ctLen := ciphertextWithTag.length - tagSize
      let buf ← Bytes.memcpy (List.replicate ciphertextWithTag.length 0) 0 ciphertextWithTag
        ciphertextWithTag.length
      let aadBuf ← Bytes.memcpy (List.replicate aad.length 0) 0 aad aad.length
      match B.openMessage cipher.key ⟨nonce, h⟩ (aadBuf ++ buf) with
      | .error e => some (.error e)
      | .ok buf => do
          let out ← Bytes.memcpy (List.replicate ctLen 0) 0 (buf.drop aad.length) ctLen
          some (.ok out)
  else some (.error "AesGcm: nonce must be 12 bytes")

/-- `do_decrypt`, where a slice or a copy outside of its buffers is no result. -/
def doDecryptChecked (B : Botan) (payload : Bytes) (session : Session) :
    Option (Except String (Option DecryptedMessage)) :=
  if ¬ session.hasAesKey ∨ payload.length < AesGcm.nonceSize + AesGcm.tagSize then
    some (.ok none)
  else do
    let iv ← Bytes.subspan payload 0 AesGcm.nonceSize
    let tag ← Bytes.subspan payload AesGcm.nonceSize AesGcm.tagSize
    let ct ← Bytes.subspan payload (AesGcm.nonceSize + AesGcm.tagSize)
      (payload.length - (AesGcm.nonceSize + AesGcm.tagSize))
    let aei ← Bytes.memcpy (List.replicate (ct.length + AesGcm.tagSize) 0) 0 ct ct.length
    let aei ← Bytes.memcpy aei ct.length tag AesGcm.tagSize
    match AesGcm.create B session.aesKey with
    | .error e => some (.error e)
    | .ok cipher => do
        let pt ← cipher.decryptChecked B aei [] iv
        match pt with
        | .error _ => some (.ok none)
        | .ok pt =>
            if pt.length < 2 then some (.ok none)
            else do
              let innerCmd ← Bytes.memcpy (List.replicate 2 0) 0 pt 2
              let innerPayload ← Bytes.memcpy (List.replicate (pt.length - 2) 0) 0 (pt.drop 2)
                (pt.length - 2)
              some (.ok (some ⟨cipher, UInt16.ofNat (Bytes.ofLittleEndian innerCmd),
                innerPayload⟩))

/-- Opening a message gives its length less the tag, or throws. -/
def Botan.OpensToLength (B : Botan) : Prop :=
  ∀ key iv message plaintext, B.openMessage key iv message = .ok plaintext →
    plaintext.length + AesGcm.tagSize = message.length

theorem AesGcm.decryptChecked_eq {B : Botan} (hB : B.OpensToLength) (cipher : AesGcm)
    (ciphertextWithTag aad nonce : Bytes) :
    cipher.decryptChecked B ciphertextWithTag aad nonce =
      some (cipher.decrypt B ciphertextWithTag aad nonce) := by
  unfold decryptChecked decrypt
  split
  · rename_i hnonce
    split
    · rfl
    · rename_i hlong
      rw [Bytes.memcpy_all (Nat.le_refl _), Bytes.memcpy_all (Nat.le_refl _), List.take_length,
        List.take_length]
      simp only [Option.bind_eq_bind, Option.bind_some]
      cases hopen : B.openMessage cipher.key ⟨nonce, hnonce⟩ (aad ++ ciphertextWithTag) with
      | error e => rfl
      | ok buf =>
          have hlength := hB _ _ _ _ hopen
          have hfits : ciphertextWithTag.length - tagSize ≤ (buf.drop aad.length).length := by
            simp only [List.length_append, List.length_drop] at hlength ⊢
            omega
          simp only [Bytes.memcpy_all hfits, Option.bind_some]
          rfl
  · rfl

/-- No slice and no copy of `do_decrypt` is out of bounds. -/
theorem doDecryptChecked_eq {B : Botan} (hB : B.OpensToLength) (payload : Bytes)
    (session : Session) :
    doDecryptChecked B payload session = some (doDecrypt B payload session) := by
  unfold doDecryptChecked doDecrypt
  split
  · rfl
  · rename_i hlong
    have hlength : AesGcm.nonceSize + AesGcm.tagSize ≤ payload.length :=
      Nat.le_of_not_lt fun hshort => hlong (.inr hshort)
    have hiv : AesGcm.nonceSize ≤ payload.length := by
      simp only [AesGcm.nonceSize, AesGcm.tagSize] at hlength ⊢
      omega
    have htag : ((payload.drop AesGcm.nonceSize).take AesGcm.tagSize).length = AesGcm.tagSize := by
      simp only [List.length_take, List.length_drop]
      omega
    have hct : (payload.drop (AesGcm.nonceSize + AesGcm.tagSize)).take
        (payload.length - (AesGcm.nonceSize + AesGcm.tagSize)) =
        payload.drop (AesGcm.nonceSize + AesGcm.tagSize) :=
      List.take_of_length_le (by simp)
    have haei := Bytes.memcpy_append (payload.drop (AesGcm.nonceSize + AesGcm.tagSize))
      ((payload.drop AesGcm.nonceSize).take AesGcm.tagSize)
    rw [htag] at haei
    obtain ⟨aei, hfirst, hsecond⟩ := Option.bind_eq_some_iff.mp haei
    rw [Bytes.subspan_eq (by omega), Bytes.subspan_eq hlength,
      Bytes.subspan_eq (by omega), hct]
    simp only [Option.bind_eq_bind, Option.bind_some, List.drop_zero, hfirst, hsecond]
    cases AesGcm.create B session.aesKey with
    | error e => rfl
    | ok cipher =>
        simp only [AesGcm.decryptChecked_eq hB, Option.bind_some]
        cases cipher.decrypt B (payload.drop (AesGcm.nonceSize + AesGcm.tagSize) ++
            (payload.drop AesGcm.nonceSize).take AesGcm.tagSize) []
            (payload.take AesGcm.nonceSize) with
        | error e => rfl
        | ok pt =>
            simp only
            split
            · rfl
            · rename_i hpt
              have hrest : pt.length - 2 ≤ (pt.drop 2).length := by simp
              rw [Bytes.memcpy_all (by omega), Bytes.memcpy_all hrest]
              simp only [Option.bind_some]
              rw [List.take_of_length_le (show (pt.drop 2).length ≤ pt.length - 2 by simp)]

/-- The payload opens under the key of the session to a plaintext with a command. The nonce, the
tag and the ciphertext stand in it in this order; the tag goes behind the ciphertext again. -/
structure Authentic (B : Botan) (session : Session) (payload plaintext : Bytes) : Prop where
  key : session.hasAesKey = true
  long : 28 ≤ payload.length
  available : B.gcmAvailable = true
  opens : ∃ nonce : Octets 12, nonce.val = payload.take 12 ∧
    B.openMessage session.aesKey nonce (payload.drop 28 ++ (payload.drop 12).take 16) =
      .ok plaintext
  command : 2 ≤ plaintext.length

theorem openPayload_eq_some {B : Botan} (hB : B.OpensToLength) {key : AesKey}
    {payload plaintext : Bytes} :
    openPayload B key payload = some plaintext ↔ B.gcmAvailable = true ∧ 28 ≤ payload.length ∧
      ∃ nonce : Octets 12, nonce.val = payload.take 12 ∧
        B.openMessage key nonce (payload.drop 28 ++ (payload.drop 12).take 16) =
          .ok plaintext := by
  unfold openPayload
  split
  · rename_i hlong
    have hnonce : (Octets.ofBytes 12 payload).val = payload.take 12 :=
      Octets.ofBytes_take (by omega)
    have hall : ∀ nonce buf, B.openMessage key nonce
        (payload.drop 28 ++ (payload.drop 12).take 16) = .ok buf →
        buf.take (payload.length - 28) = buf := by
      intro nonce buf hopen
      have hlength := hB _ _ _ _ hopen
      simp only [AesGcm.tagSize, List.length_append, List.length_drop, List.length_take]
        at hlength
      exact List.take_of_length_le (by omega)
    constructor
    · intro h
      obtain ⟨buf, hbuf, rfl⟩ := Option.map_eq_some_iff.mp h
      cases hopen : B.openMessage key (Octets.ofBytes 12 payload)
          (payload.drop 28 ++ (payload.drop 12).take 16) with
      | error e =>
          rw [hopen] at hbuf
          cases hbuf
      | ok out =>
          rw [hopen] at hbuf
          cases hbuf
          rw [hall _ _ hopen]
          exact ⟨hlong.1, hlong.2, _, hnonce, hopen⟩
    · rintro ⟨-, -, nonce, hval, hopen⟩
      obtain rfl : nonce = Octets.ofBytes 12 payload := Subtype.ext (hval.trans hnonce.symm)
      rw [hopen]
      exact congrArg some (hall _ _ hopen)
  · rename_i hno
    constructor
    · intro h
      cases h
    · rintro ⟨havailable, hlong, -⟩
      exact absurd ⟨havailable, hlong⟩ hno

theorem innerMessage_eq_some {B : Botan} (hB : B.OpensToLength) {session : Session}
    {payload : Bytes} {cmd : UInt16} {inner : Bytes} :
    innerMessage B session.installedKey payload = some (cmd, inner) ↔
      ∃ plaintext, Authentic B session payload plaintext ∧
        cmd = UInt16.ofNat (Bytes.ofLittleEndian (plaintext.take 2)) ∧
        inner = plaintext.drop 2 := by
  have hkey : ∀ key, session.installedKey = some key ↔
      session.hasAesKey = true ∧ session.aesKey = key := by
    intro key
    unfold Session.installedKey
    split <;> simp [*]
  simp only [innerMessage, Option.bind_eq_some_iff, hkey, openPayload_eq_some hB]
  constructor
  · rintro ⟨plaintext, ⟨key, ⟨hhas, rfl⟩, havailable, hlong, hopens⟩, hpt⟩
    split at hpt
    · cases hpt
    · rename_i hcommand
      cases hpt
      exact ⟨plaintext, ⟨hhas, hlong, havailable, hopens, Nat.le_of_not_lt hcommand⟩, rfl, rfl⟩
  · rintro ⟨plaintext, h, rfl, rfl⟩
    exact ⟨plaintext, ⟨_, ⟨h.key, rfl⟩, h.available, h.long, h.opens⟩,
      if_neg (Nat.not_lt.mpr h.command)⟩

/-- Whatever the router holds, the message does what the routing of the inner command and
payload does. -/
def Server.Routes (srv : Server) (frame : ClientFrame) (transport : TransportType)
    (t : RequestState) (cmd : UInt16) (inner : Bytes) : Prop :=
  ∀ router a as,
    resume requestSem t ({ srv with router := router }.handleEncryptedMessage frame transport)
        (a :: as) =
      resume requestSem t
        ({ srv with router := router }.doRouteAndSend transport ⟨t.session.aesKey⟩ cmd inner) as

section Routes

variable {srv : Server} {frame : ClientFrame} {transport : TransportType} {t : RequestState}
  {cmd : UInt16} {inner : Bytes}

/-- A message that is not authentic reads the session and is over. -/
theorem resume_rejected_over
    (hmessage : innerMessage srv.botan t.session.installedKey frame.payload = none) (a : Answer) :
    ∃ c, resume requestSem t (srv.handleEncryptedMessage frame transport) [a] =
      some (t, c, []) ∧ (c = .ret () ∨ ∃ what, c = .throw (.std what)) := by
  rw [Server.handleEncryptedMessage, resume_session]
  cases doDecrypt_cases srv.botan frame.payload t.session with
  | authentic cmd inner _ hsome _ =>
      rw [hmessage] at hsome
      cases hsome
  | rejected _ hd =>
      rw [hd]
      exact ⟨_, rfl, .inl rfl⟩
  | unavailable what _ hd =>
      rw [hd]
      exact ⟨_, rfl, .inr ⟨what, rfl⟩⟩

/-- The router with nothing but a handler of the command. -/
def Router.only (cmd : UInt16) : Router := Router.empty.add cmd fun _ => .ret { payload := [] }

theorem Router.get_only_ne {cmd cmd' : UInt16} (h : cmd' ≠ cmd) : (only cmd).get cmd' = none := by
  simp [only, get, add, update, empty, h]

theorem resume_doRouteAndSend_only (srv : Server) (transport : TransportType) (key : AesKey)
    (cmd : UInt16) (inner : Bytes) (t : RequestState) (a b : Answer) :
    ∃ c, resume requestSem t
      ({ srv with router := .only cmd }.doRouteAndSend transport ⟨key⟩ cmd inner) [a, b] =
        some (t, c, [.handlerCalled (innerContext transport t.session.id cmd inner) t]) := by
  have hget : (Router.only cmd).get cmd =
      some (⟨some fun _ => .ret { payload := [] }, false, .any⟩, fun _ => .ret { payload := [] }) := by
    simp [Router.only, Router.get, Router.add, Router.update]
  rw [@doRouteAndSend_gate { srv with router := .only cmd } _ _ _ hget, resume_session]
  exact ⟨_, rfl⟩

theorem Server.Routes.innerMessage (h : srv.Routes frame transport t cmd inner) :
    innerMessage srv.botan t.session.installedKey frame.payload = some (cmd, inner) := by
  obtain ⟨c, hprobe⟩ := resume_doRouteAndSend_only srv transport t.session.aesKey cmd inner t {} {}
  have hrun := (h (.only cmd) {} [{}, {}]).trans hprobe
  cases hmessage : Servd.innerMessage srv.botan t.session.installedKey frame.payload with
  | none =>
      obtain ⟨-, ⟨⟩⟩ := @resume_rejected { srv with router := .only cmd } _ _ _ _ _ _ _ hmessage hrun
  | some found =>
      obtain ⟨cmd', inner'⟩ := found
      rw [@resume_handleEncryptedMessage { srv with router := .only cmd } _ _ _ _ hmessage] at hrun
      by_cases hcmd : cmd' = cmd
      · subst hcmd
        obtain ⟨d, hfound⟩ :=
          resume_doRouteAndSend_only srv transport t.session.aesKey cmd' inner' t {} {}
        rw [hfound] at hrun
        simp only [Option.some.injEq, Prod.mk.injEq, List.cons.injEq, RequestEvent.handlerCalled.injEq,
          innerContext, Context.mk.injEq] at hrun
        rw [hrun.2.2.1.1.2.1]
      · simp only [Server.doRouteAndSend, Router.get_only_ne hcmd] at hrun
        obtain ⟨has, -⟩ := resume_ret.mp hrun
        cases has

theorem routes_iff_innerMessage :
    srv.Routes frame transport t cmd inner ↔
      innerMessage srv.botan t.session.installedKey frame.payload = some (cmd, inner) :=
  ⟨fun h => h.innerMessage, fun h router a as =>
    @resume_handleEncryptedMessage { srv with router := router } _ _ _ _ h transport a as⟩

end Routes

/-- An encrypted message is routed if and only if its payload is authentic under the key of its
session, and then with the command and the payload that its plaintext has. Otherwise it reads the
session and is over: nobody is called, nothing is sent and nothing is changed. Every slice and
every copy is within its buffers, whatever the payload. -/
theorem encrypted_message_authentic (srv : Server) (hB : srv.botan.OpensToLength)
    (frame : ClientFrame) (transport : TransportType) (t : RequestState) :
    (∀ cmd inner, srv.Routes frame transport t cmd inner ↔
      ∃ plaintext, Authentic srv.botan t.session frame.payload plaintext ∧
        cmd = UInt16.ofNat (Bytes.ofLittleEndian (plaintext.take 2)) ∧
        inner = plaintext.drop 2) ∧
    ((∀ plaintext, ¬ Authentic srv.botan t.session frame.payload plaintext) →
      (∀ a, ∃ c, resume requestSem t (srv.handleEncryptedMessage frame transport) [a] =
        some (t, c, []) ∧ (c = .ret () ∨ ∃ what, c = .throw (.std what))) ∧
      ∀ as t' c es, resume requestSem t (srv.handleEncryptedMessage frame transport) as =
        some (t', c, es) → t' = t ∧ es = []) ∧
    doDecryptChecked srv.botan frame.payload t.session =
      some (doDecrypt srv.botan frame.payload t.session) := by
  refine ⟨fun cmd inner => routes_iff_innerMessage.trans (innerMessage_eq_some hB), ?_,
    doDecryptChecked_eq hB frame.payload t.session⟩
  intro hno
  have hnone : innerMessage srv.botan t.session.installedKey frame.payload = none := by
    cases hmessage : innerMessage srv.botan t.session.installedKey frame.payload with
    | none => rfl
    | some found =>
        obtain ⟨plaintext, hauthentic, -⟩ := (innerMessage_eq_some hB).mp hmessage
        exact absurd hauthentic (hno plaintext)
  exact ⟨resume_rejected_over hnone, fun as t' c es h => resume_rejected hnone h⟩

theorem Recorded.opensToLength : Recorded.botan.OpensToLength := by
  intro key iv message plaintext h
  simp only [Recorded.botan, Recorded.decrypted] at h
  split at h
  · rename_i hrequest
    cases h
    rw [hrequest.2.2]
    rfl
  · split at h
    · rename_i hreply
      cases h
      rw [hreply.2.2]
      rfl
    · split at h
      · rename_i htag
        cases h
        have hlength := congrArg List.length htag
        simp only [List.length_drop, Recorded.zeroTag, List.length_replicate] at hlength
        simp only [List.length_take, AesGcm.tagSize]
        omega
      · cases h

/-- The recorded message is routed to command 1. -/
theorem encrypted_message_authentic_recorded :
    Server.recorded.Routes (Recorded.message 7) .tcp (.start Recorded.session) 1 [104, 105] := by
  refine ((encrypted_message_authentic Server.recorded Recorded.opensToLength (Recorded.message 7)
    .tcp (.start Recorded.session)).1 1 [104, 105]).mpr ⟨Recorded.request.message, ?_, rfl, rfl⟩
  exact ⟨rfl, by decide, rfl, ⟨Recorded.request.iv, by decide, by decide⟩, by decide⟩

end Servd
