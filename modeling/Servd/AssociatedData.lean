import Servd.Crypto

/-!
`AesGcm` over a cipher mode that is given its message in pieces. Of the mode we have the
key stream and the tag as parameters, and what its calls do with them: each piece is
xored in place as the next bytes of the message, and the tag is over the whole ciphertext and
over the associated data, which only `set_associated_data` sets. `AesGcm` never calls that.
It passes the associated data to `update`: both sides take it for the first bytes of the
message, the encryption for plaintext and the decryption for ciphertext.
-/
namespace Servd

/-- AES-256 in Galois/counter mode: the bytes of the key stream, and the tag over associated data and
ciphertext. -/
structure Gcm where
  keystream : AesKey → Octets 12 → Nat → UInt8
  tag : AesKey → Octets 12 → Bytes → Bytes → Octets 16

inductive CipherDir
  | encryption
  | decryption

structure CipherMode where
  gcm : Gcm
  dir : CipherDir
  key : AesKey
  associated : Bytes := []

namespace CipherMode

/-- A mode within a message, with the ciphertext so far. -/
structure Message where
  mode : CipherMode
  nonce : Octets 12
  ciphertext : Bytes := []

def start (mode : CipherMode) (nonce : Octets 12) : Message := ⟨mode, nonce, []⟩

namespace Message

def xor (m : Message) (buf : Bytes) : Bytes :=
  Bytes.xorStream (m.mode.gcm.keystream m.mode.key m.nonce) m.ciphertext.length buf

def tag (m : Message) : Octets 16 :=
  m.mode.gcm.tag m.mode.key m.nonce m.mode.associated m.ciphertext

/-- The message after a further piece. The buffer then holds `xor m buf`. -/
def update (m : Message) (buf : Bytes) : Message :=
  match m.mode.dir with
  | .encryption => { m with ciphertext := m.ciphertext ++ m.xor buf }
  | .decryption => { m with ciphertext := m.ciphertext ++ buf }

def finish (m : Message) (buf : Bytes) : Except String Bytes :=
  match m.mode.dir with
  | .encryption => .ok (m.xor buf ++ (m.update buf).tag.val)
  | .decryption =>
      if buf.length < 16 then .error "input did not include the tag"
      else
        let text := buf.take (buf.length - 16)
        if (m.update text).tag.val = buf.drop (buf.length - 16) then .ok (m.xor text)
        else .error "GCM tag check failed"

end Message

end CipherMode

namespace AesGcm

/-- The two modes that an `AesGcm` holds. -/
structure Modes where
  enc : CipherMode
  dec : CipherMode

namespace Modes

/-- The constructor; the size check of the key is in its type. -/
def create (gcm : Gcm) (key : AesKey) : Modes :=
  ⟨{ gcm, dir := .encryption, key }, { gcm, dir := .decryption, key }⟩

def encrypt (modes : Modes) (plaintext aad nonce : Bytes) : Except String Bytes :=
  if h : nonce.length = nonceSize then
    let message := modes.enc.start ⟨nonce, h⟩
    let message := if aad = [] then message else message.update aad
    message.finish plaintext
  else .error "AesGcm: nonce must be 12 bytes"

def decrypt (modes : Modes) (ciphertextWithTag aad nonce : Bytes) : Except String Bytes :=
  if h : nonce.length = nonceSize then
    if ciphertextWithTag.length < tagSize then
      .error "AesGcm: ciphertext too short (no tag)"
    else
      let message := modes.dec.start ⟨nonce, h⟩
      let message := if aad = [] then message else message.update aad
      (message.finish ciphertextWithTag).map (·.take (ciphertextWithTag.length - tagSize))
  else .error "AesGcm: nonce must be 12 bytes"

end Modes

end AesGcm

/-- The Botan calls for whole messages, by the mode. -/
def Gcm.botan (gcm : Gcm) (B : Botan) : Botan :=
  { B with
    gcmAvailable := true
    sealMessage := fun key nonce msg => ((AesGcm.Modes.create gcm key).enc.start nonce).finish msg
    openMessage := fun key nonce msg => ((AesGcm.Modes.create gcm key).dec.start nonce).finish msg }

namespace CipherMode.Message

variable (m : Message)

theorem update_nil : m.update [] = m := by
  unfold update xor
  cases m.mode.dir <;> simp [Bytes.xorStream]

theorem finish_encryption {m : Message} (h : m.mode.dir = .encryption) (buf : Bytes) :
    m.finish buf = .ok (m.xor buf ++ (m.update buf).tag.val) := by
  rw [finish, h]

theorem finish_decryption {m : Message} (h : m.mode.dir = .decryption) (text : Bytes)
    (tag : Octets 16) :
    m.finish (text ++ tag.val) =
      if (m.update text).tag = tag then .ok (m.xor text) else .error "GCM tag check failed" := by
  have hlength : (text ++ tag.val).length - 16 = text.length := by
    rw [List.length_append, tag.property, Nat.add_sub_cancel]
  have henough : ¬ (text ++ tag.val).length < 16 := by
    rw [List.length_append, tag.property]
    omega
  rw [finish, h]
  simp only [if_neg henough, hlength, List.take_left', List.drop_left', Subtype.val_inj]

end CipherMode.Message

namespace AesGcm.Modes

/-- The check for empty associated data makes no difference. -/
theorem update_unless_nil (m : CipherMode.Message) (aad : Bytes) :
    (if aad = [] then m else m.update aad) = m.update aad := by
  split
  · rename_i h
    rw [h, m.update_nil]
  · rfl

section Calls

variable (gcm : Gcm) (key : AesKey) (nonce : Octets 12) (aad : Bytes)

/-- A text xored as what follows the associated data in its message. -/
def textAfter (text : Bytes) : Bytes :=
  Bytes.xorStream (gcm.keystream key nonce) aad.length text

/-- The associated data as the encryption leaves it in the message. -/
def sealedAad : Bytes := Bytes.xorStream (gcm.keystream key nonce) 0 aad

theorem length_textAfter (text : Bytes) : (textAfter gcm key nonce aad text).length = text.length :=
  Bytes.length_xorStream _ _ _

theorem length_sealedAad : (sealedAad gcm key nonce aad).length = aad.length :=
  Bytes.length_xorStream _ _ _

theorem encrypt_create (plaintext : Bytes) :
    (create gcm key).encrypt plaintext aad nonce.val =
      .ok (textAfter gcm key nonce aad plaintext ++
        (gcm.tag key nonce [] (sealedAad gcm key nonce aad ++
          textAfter gcm key nonce aad plaintext)).val) := by
  have hnonce : nonce.val.length = nonceSize := nonce.property
  have htext : (((create gcm key).enc.start nonce).update aad).xor plaintext =
      textAfter gcm key nonce aad plaintext := by
    change Bytes.xorStream _ (sealedAad gcm key nonce aad).length plaintext = _
    rw [length_sealedAad]
    rfl
  rw [encrypt, dif_pos hnonce]
  dsimp only
  rw [update_unless_nil, CipherMode.Message.finish_encryption rfl, ← htext]
  rfl

theorem decrypt_create (text : Bytes) (tag : Octets 16) :
    (create gcm key).decrypt (text ++ tag.val) aad nonce.val =
      if gcm.tag key nonce [] (aad ++ text) = tag then .ok (textAfter gcm key nonce aad text)
      else .error "GCM tag check failed" := by
  have hnonce : nonce.val.length = nonceSize := nonce.property
  have hlength : (text ++ tag.val).length = text.length + tagSize := by
    rw [List.length_append, tag.property, tagSize]
  have henough : ¬ (text ++ tag.val).length < tagSize := by omega
  rw [decrypt, dif_pos hnonce, if_neg henough]
  dsimp only
  rw [update_unless_nil, CipherMode.Message.finish_decryption rfl, hlength, Nat.add_sub_cancel]
  change Except.map _ (if gcm.tag key nonce [] (aad ++ text) = tag then
    .ok (textAfter gcm key nonce aad text) else _) = _
  split
  · have htake : (textAfter gcm key nonce aad text).take text.length =
        textAfter gcm key nonce aad text :=
      List.take_of_length_le (length_textAfter gcm key nonce aad text).le
    exact congrArg Except.ok htake
  · rfl

theorem xor_message (m : CipherMode.Message) (hm : m.ciphertext = []) (text : Bytes) :
    m.xor (aad ++ text) = sealedAad m.mode.gcm m.mode.key m.nonce aad ++
      textAfter m.mode.gcm m.mode.key m.nonce aad text := by
  rw [CipherMode.Message.xor, hm, Bytes.xorStream_append, List.length_nil, Nat.zero_add]
  rfl

/-- The calls in pieces are those of `AesGcm` over the calls for whole messages. -/
theorem encrypt_eq (B : Botan) (plaintext : Bytes) :
    (create gcm key).encrypt plaintext aad nonce.val =
      AesGcm.encrypt (gcm.botan B) ⟨key⟩ plaintext aad nonce.val := by
  have hnonce : nonce.val.length = nonceSize := nonce.property
  have hseal : (gcm.botan B).sealMessage key nonce (aad ++ plaintext) =
      .ok (sealedAad gcm key nonce aad ++ textAfter gcm key nonce aad plaintext ++
        (gcm.tag key nonce [] (sealedAad gcm key nonce aad ++
          textAfter gcm key nonce aad plaintext)).val) := by
    change ((create gcm key).enc.start nonce).finish (aad ++ plaintext) = _
    have hxor : ((create gcm key).enc.start nonce).xor (aad ++ plaintext) =
        sealedAad gcm key nonce aad ++ textAfter gcm key nonce aad plaintext :=
      xor_message aad _ rfl plaintext
    rw [CipherMode.Message.finish_encryption rfl, ← hxor]
    rfl
  have hdrop : ∀ rest, (sealedAad gcm key nonce aad ++ rest).drop aad.length = rest :=
    fun rest => List.drop_left' (length_sealedAad gcm key nonce aad)
  rw [encrypt_create, AesGcm.encrypt, dif_pos hnonce, hseal, Except.map, List.append_assoc, hdrop]

theorem decrypt_eq (B : Botan) (text : Bytes) (tag : Octets 16) :
    (create gcm key).decrypt (text ++ tag.val) aad nonce.val =
      AesGcm.decrypt (gcm.botan B) ⟨key⟩ (text ++ tag.val) aad nonce.val := by
  have hnonce : nonce.val.length = nonceSize := nonce.property
  have hlength : (text ++ tag.val).length = text.length + tagSize := by
    rw [List.length_append, tag.property, tagSize]
  have henough : ¬ (text ++ tag.val).length < tagSize := by omega
  have hopen : (gcm.botan B).openMessage key nonce (aad ++ (text ++ tag.val)) =
      if gcm.tag key nonce [] (aad ++ text) = tag then
        .ok (sealedAad gcm key nonce aad ++ textAfter gcm key nonce aad text)
      else .error "GCM tag check failed" := by
    change ((create gcm key).dec.start nonce).finish (aad ++ (text ++ tag.val)) = _
    rw [← List.append_assoc, CipherMode.Message.finish_decryption rfl, xor_message aad _ rfl]
    rfl
  have hdrop : ((sealedAad gcm key nonce aad ++ textAfter gcm key nonce aad text).drop
      aad.length).take text.length = textAfter gcm key nonce aad text := by
    rw [List.drop_left' (length_sealedAad gcm key nonce aad),
      List.take_of_length_le (length_textAfter gcm key nonce aad text).le]
  rw [decrypt_create, AesGcm.decrypt, dif_pos hnonce, if_neg henough, hopen, hlength,
    Nat.add_sub_cancel]
  split
  · exact congrArg Except.ok hdrop.symm
  · rfl

end Calls

/-- Encryption adds a tag, and decryption with the same associated data takes it off again. -/
def RoundTrips (gcm : Gcm) (key : AesKey) (nonce : Octets 12) (plaintext aad : Bytes) : Prop :=
  ∃ out, (create gcm key).encrypt plaintext aad nonce.val = .ok out ∧
    out.length = plaintext.length + tagSize ∧
    (create gcm key).decrypt out aad nonce.val = .ok plaintext

theorem roundTrips_iff_tags (gcm : Gcm) (key : AesKey) (nonce : Octets 12)
    (plaintext aad : Bytes) :
    RoundTrips gcm key nonce plaintext aad ↔
      gcm.tag key nonce [] (aad ++ textAfter gcm key nonce aad plaintext) =
        gcm.tag key nonce [] (sealedAad gcm key nonce aad ++
          textAfter gcm key nonce aad plaintext) := by
  have hback : textAfter gcm key nonce aad (textAfter gcm key nonce aad plaintext) = plaintext :=
    Bytes.xorStream_xorStream _ _ _
  constructor
  · rintro ⟨out, henc, -, hdec⟩
    rw [encrypt_create] at henc
    cases henc
    rw [decrypt_create] at hdec
    split at hdec
    · assumption
    · cases hdec
  · intro htags
    refine ⟨_, encrypt_create gcm key nonce aad plaintext, ?_, ?_⟩
    · rw [List.length_append, length_textAfter, (gcm.tag key nonce [] _).property, tagSize]
    · rw [decrypt_create, if_pos htags, hback]

/-- The decryption checks the tag over other bytes than the encryption has computed it over, unless
there is no associated data. -/
theorem roundTrips_iff (gcm : Gcm) (key : AesKey) (nonce : Octets 12) (plaintext aad : Bytes) :
    RoundTrips gcm key nonce plaintext aad ↔
      aad = [] ∨
        gcm.tag key nonce [] (aad ++ textAfter gcm key nonce aad plaintext) =
          gcm.tag key nonce [] (sealedAad gcm key nonce aad ++
            textAfter gcm key nonce aad plaintext) := by
  rw [roundTrips_iff_tags]
  refine ⟨.inr, ?_⟩
  rintro (rfl | htags)
  · rfl
  · exact htags

/-- What AES-256 in GCM gives for the zero key and nonce, and the two ciphertexts the tag is taken
over. -/
def aes256Gcm : Gcm where
  keystream _ _ n := [0xce, 0xa7].getD n 0
  tag _ _ _ ciphertext := Octets.ofBytes 16
    (if ciphertext = [0xce, 0xa7] then
      [0x95, 0x7c, 0x05, 0xe5, 0x8a, 0x61, 0xbd, 0x27, 0x15, 0x36, 0xef, 0x0c, 0x15, 0x58, 0x2f, 0xe2]
    else
      [0xc2, 0x2a, 0x79, 0xc1, 0x41, 0x45, 0xf2, 0x3b, 0xf9, 0xa3, 0x66, 0x76, 0x15, 0x24, 0x82, 0x1e])

/-- One zero byte, with one zero byte of associated data. The encryption has the tag of `ce a7`, the
decryption that of `00 a7`. -/
theorem not_roundTrips_aad :
    ¬ RoundTrips aes256Gcm (Octets.ofBytes 32 []) (Octets.ofBytes 12 []) [0] [0] := by
  rw [roundTrips_iff_tags]
  decide

end AesGcm.Modes

end Servd
