import Servd.StreamInput
import Servd.EncryptedSession

/-!
The client of `examples/test_encryption.py`: the frames it sends, how it cuts up the
replies, and what it relies on. Its cryptographic library is a parameter, like the
server's. What the two must have in common is `Interoperates`.
-/
namespace Servd

structure ClientLibrary where
  publicKey : Octets 32 → Octets 32
  exchange : Octets 32 → Octets 32 → Octets 32
  encrypt : AesKey → Octets 12 → Bytes → Bytes
  decrypt : AesKey → Octets 12 → Bytes → Option Bytes

/-- Inner messages are smaller than this, so that the size of the outer payload fits into a
header. -/
def maxInner : Nat := 2 ^ 32 - 28

/-- Both libraries implement X25519 and AES-256-GCM: agreement is symmetric, decryption inverts
encryption, and the tag is the last 16 bytes of the output. -/
structure Interoperates (B : Botan) (L : ClientLibrary) : Prop where
  available : B.gcmAvailable = true
  publicValue : ∀ priv, ∃ pub : Octets 32, B.publicValue priv = .ok pub.val
  agreement : ∀ (client server pub : Octets 32), B.publicValue server = .ok pub.val →
    B.deriveKey server (L.publicKey client) = .ok (L.exchange client pub).val
  length_encrypt : ∀ key iv m, m.length < maxInner → (L.encrypt key iv m).length = m.length + 16
  open_encrypt : ∀ key iv m, m.length < maxInner →
    B.openMessage key iv (L.encrypt key iv m) = .ok m
  sealed : ∀ key iv m, m.length < maxInner → ∃ out, B.sealMessage key iv m = .ok out ∧
    out.length = m.length + 16 ∧ L.decrypt key iv out = some m

structure ClientMessage where
  commandId : UInt16
  payload : Bytes
  iv : Octets 12

namespace ClientMessage

/-- `struct.pack("<H", cmd) + payload`. -/
def inner (m : ClientMessage) : Bytes := Bytes.littleEndian 2 m.commandId.toNat ++ m.payload

/-- `iv + tag + ct_body`, with `ct[-16:]` and `ct[:-16]` for the last two. -/
def outerPayload (L : ClientLibrary) (key : AesKey) (m : ClientMessage) : Bytes :=
  let ct := L.encrypt key m.iv m.inner
  m.iv.val ++ ct.drop (ct.length - 16) ++ ct.take (ct.length - 16)

end ClientMessage

namespace Client

/-- What `send_frame` sends, as the server will read it. -/
def frame (cmd : UInt16) (payload : Bytes) (sid : UInt64) : ClientFrame :=
  ⟨⟨cmd, 0, UInt32.ofNat payload.length, sid⟩, payload⟩

/-- `struct.pack("<HHIQ", cmd, 0, len(payload), session_id) + payload`. -/
def sendFrame (cmd : UInt16) (payload : Bytes) (sid : UInt64) : Bytes :=
  Bytes.littleEndian 2 cmd.toNat ++ Bytes.littleEndian 2 0 ++
    Bytes.littleEndian 4 payload.length ++ Bytes.littleEndian 8 sid.toNat ++ payload

/-- `recv_exact`; `none` if the stream ends before. -/
def recvExact (n : Nat) (stream : Bytes) : Option (Bytes × Bytes) :=
  if n ≤ stream.length then some (stream.take n, stream.drop n) else none

/-- `recv_frame`: the header fields and the payload, and the rest of the stream. -/
def recvFrame (stream : Bytes) : Option (FrameHeader × Bytes × Bytes) := do
  let (header, rest) ← recvExact 16 stream
  let h := FrameHeader.ofBytes header
  let (payload, rest) ← recvExact h.payloadLength.toNat rest
  pure (h, payload, rest)

/-- `resp[:12]`, `resp[12:28]` and `resp[28:]`, the last two reassembled and decrypted. -/
def openReply (L : ClientLibrary) (key : AesKey) (resp : Bytes) : Option Bytes :=
  L.decrypt key (Octets.ofBytes 12 resp) (resp.drop 28 ++ (resp.drop 12).take 16)

/-- The frames of a session: the key exchange, then the messages under the key the client
derives from the server's public value. -/
def conversation (L : ClientLibrary) (client serverPub : Octets 32) (sid : UInt64)
    (messages : List ClientMessage) : List ClientFrame :=
  frame cmdKeyExchange (L.publicKey client).val sid ::
    messages.map fun m =>
      frame cmdEncryptedMessage (m.outerPayload L (L.exchange client serverPub)) sid

theorem sessionId_of_mem_conversation {L : ClientLibrary} {client serverPub : Octets 32}
    {sid : UInt64} {messages : List ClientMessage} {f : ClientFrame}
    (h : f ∈ conversation L client serverPub sid messages) : f.header.sessionId = sid := by
  rcases List.mem_cons.mp h with rfl | h
  · rfl
  · obtain ⟨m, -, rfl⟩ := List.mem_map.mp h
    rfl

end Client

/-! IV, tag and ciphertext, put together by one side and cut up by the other. -/

section Slices

variable (iv : Octets 12) {out : Bytes}

theorem length_sealedReply (h : 16 ≤ out.length) : (sealedReply iv out).length = out.length + 12 := by
  have hiv : iv.val.length = 12 := iv.property
  simp only [sealedReply, AesGcm.tagSize, List.length_append, List.length_drop, List.length_take, hiv]
  omega

theorem drop_sealedReply (h : 16 ≤ out.length) :
    (sealedReply iv out).drop 28 ++ ((sealedReply iv out).drop 12).take 16 = out := by
  have hiv : iv.val.length = 12 := iv.property
  have htag : (out.drop (out.length - 16)).length = 16 := by
    rw [List.length_drop]
    omega
  have hrest : (sealedReply iv out).drop 12 =
      out.drop (out.length - 16) ++ out.take (out.length - 16) := by
    rw [sealedReply, List.append_assoc, List.drop_append_of_le_length (by omega),
      List.drop_of_length_le (by omega), List.nil_append]
    rfl
  have hbody : (sealedReply iv out).drop 28 = out.take (out.length - 16) := by
    rw [show 28 = 12 + 16 from rfl, ← List.drop_drop, hrest, List.drop_append_of_le_length (by omega),
      List.drop_of_length_le (by omega), List.nil_append]
  have htake : ((sealedReply iv out).drop 12).take 16 = out.drop (out.length - 16) := by
    rw [hrest, List.take_append_of_le_length (by omega), List.take_of_length_le (by omega)]
  rw [hbody, htake, List.take_append_drop]

theorem ofBytes_sealedReply (out : Bytes) : Octets.ofBytes 12 (sealedReply iv out) = iv := by
  have hiv : iv.val.length = 12 := iv.property
  apply Subtype.ext
  rw [Octets.ofBytes_take (by simp [sealedReply, hiv]), sealedReply, List.append_assoc,
    List.take_append_of_le_length (by omega), List.take_of_length_le (by omega)]

end Slices

section Exchange

variable {B : Botan} {L : ClientLibrary}

theorem ClientMessage.length_inner (m : ClientMessage) :
    m.inner.length = m.payload.length + 2 := by
  rw [inner, List.length_append, Bytes.length_littleEndian, Nat.add_comm]

theorem Interoperates.length_outerPayload (h : Interoperates B L) (key : AesKey)
    {m : ClientMessage} (hsize : m.inner.length < maxInner) :
    (m.outerPayload L key).length < 2 ^ 32 := by
  have hlength := h.length_encrypt key m.iv m.inner hsize
  have htotal := length_sealedReply m.iv (by omega : 16 ≤ (L.encrypt key m.iv m.inner).length)
  change (sealedReply m.iv (L.encrypt key m.iv m.inner)).length < 2 ^ 32
  unfold maxInner at hsize
  omega

theorem Interoperates.innerMessage_outerPayload (h : Interoperates B L) (key : AesKey)
    (m : ClientMessage) (hsize : m.inner.length < maxInner) :
    innerMessage B (some key) (m.outerPayload L key) = some (m.commandId, m.payload) := by
  have hlength := h.length_encrypt key m.iv m.inner hsize
  have houter : m.outerPayload L key = sealedReply m.iv (L.encrypt key m.iv m.inner) := rfl
  have htotal := length_sealedReply m.iv (by omega : 16 ≤ (L.encrypt key m.iv m.inner).length)
  have hopen : openPayload B key (m.outerPayload L key) = some m.inner := by
    rw [openPayload, if_pos ⟨h.available, by rw [houter]; omega⟩, houter, ofBytes_sealedReply,
      drop_sealedReply _ (by omega), h.open_encrypt key m.iv m.inner hsize]
    simp only [Except.toOption, Option.map_some, Option.some.injEq]
    exact List.take_of_length_le (by omega)
  have hcmd : m.inner.take 2 = Bytes.littleEndian 2 m.commandId.toNat := by
    rw [ClientMessage.inner, List.take_append_of_le_length (by simp),
      List.take_of_length_le (by simp)]
  have hpayload : m.inner.drop 2 = m.payload := by
    rw [ClientMessage.inner, List.drop_append_of_le_length (by simp),
      List.drop_of_length_le (by simp), List.nil_append]
  have hvalue : Bytes.ofLittleEndian (Bytes.littleEndian 2 m.commandId.toNat) =
      m.commandId.toNat := by
    rw [Bytes.ofLittleEndian_littleEndian]
    exact Nat.mod_eq_of_lt m.commandId.toNat_lt
  have hlong : ¬ m.inner.length < 2 := by
    rw [m.length_inner]
    omega
  rw [innerMessage_of_open hopen, if_neg hlong, hcmd, hpayload, hvalue, UInt16.ofNat_toNat]

theorem Interoperates.openReply_sealedReply (h : Interoperates B L) {key : AesKey}
    {iv : Octets 12} {inner out : Bytes} (hsize : inner.length < maxInner)
    (hseal : B.sealMessage key iv inner = .ok out) :
    Client.openReply L key (sealedReply iv out) = some inner ∧
      (sealedReply iv out).length < 2 ^ 32 := by
  obtain ⟨out', hout, hlength, hdecrypt⟩ := h.sealed key iv inner hsize
  cases hseal.symm.trans hout
  refine ⟨?_, ?_⟩
  · rw [Client.openReply, ofBytes_sealedReply, drop_sealedReply _ (by omega), hdecrypt]
  · have hbound : inner.length < 2 ^ 32 - 28 := hsize
    rw [length_sealedReply _ (by omega)]
    omega

end Exchange

theorem Client.recvFrame_binaryFrame {h : FrameHeader} {payload : Bytes}
    (hlength : h.payloadLength.toNat = payload.length) (rest : Bytes) :
    Client.recvFrame (binaryFrame h payload ++ rest) = some (h, payload, rest) := by
  have hheader : Client.recvExact 16 (binaryFrame h payload ++ rest) =
      some (h.bytes, payload ++ rest) := by
    have hsize : h.bytes.length = 16 := h.length_bytes
    rw [binaryFrame, List.append_assoc, Client.recvExact, if_pos (by simp [hsize])]
    rw [List.take_append_of_le_length (by omega), List.take_of_length_le (by omega),
      List.drop_append_of_le_length (by omega), List.drop_of_length_le (by omega), List.nil_append]
  have hpayload : Client.recvExact payload.length (payload ++ rest) = some (payload, rest) := by
    simp [Client.recvExact]
  have hfields : FrameHeader.ofBytes h.bytes = h := by
    simpa using FrameHeader.ofBytes_bytes_append h []
  simp [Client.recvFrame, hheader, hfields, hlength, hpayload]

theorem Client.sendFrame_eq (cmd : UInt16) {payload : Bytes} (sid : UInt64)
    (hsize : payload.length < 2 ^ 32) :
    Client.sendFrame cmd payload sid =
      (Client.frame cmd payload sid).header.bytes ++ payload := by
  have hlength : (UInt32.ofNat payload.length).toNat = payload.length := toNat_size32_of_lt hsize
  simp only [Client.sendFrame, Client.frame, FrameHeader.bytes, hlength]
  rfl

/-- However the kernel cuts it up, the server reads what the client sends as one frame. -/
theorem Client.readFrame_sendFrame (cmd : UInt16) {payload : Bytes} (sid : UInt64)
    (hsize : payload.length < 2 ^ 32) {headerChunks payloadChunks : List Bytes}
    (hheader : Delivers ((Client.sendFrame cmd payload sid).take 16) headerChunks)
    (hpayload : Delivers ((Client.sendFrame cmd payload sid).drop 16) payloadChunks)
    (rest : List Completion) :
    readFrame (headerChunks.map .recv ++ (payloadChunks.map .recv ++ rest)) =
      .returned (Client.frame cmd payload sid) rest := by
  have hlength : (Client.frame cmd payload sid).header.payloadLength.toNat = payload.length :=
    toNat_size32_of_lt hsize
  have hbytes : (Client.frame cmd payload sid).header.bytes.length = 16 :=
    FrameHeader.length_bytes _
  rw [Client.sendFrame_eq cmd sid hsize] at hheader hpayload
  rw [List.take_append_of_le_length (by omega), List.take_of_length_le (by omega)] at hheader
  rw [List.drop_append_of_le_length (by omega), List.drop_of_length_le (by omega),
    List.nil_append] at hpayload
  exact readFrame_chunks hlength hheader hpayload rest

end Servd
