import Servd.Protocol
import Servd.Session

/-!
The cryptographic wrappers. Botan itself is a parameter: a table of the calls the
wrappers make, each of which returns bytes or throws a `std::exception`, given here
by its message. `AesGcm` and `X25519` are the code around it: the size checks, the
copies into fixed-size blocks, and the order in which associated data and text are
handed to the cipher mode.
-/
namespace Servd

/-- The Botan calls used. `sealMessage key nonce msg` is the output of a whole encryption,
ciphertext then tag; `openMessage` is the inverse call and throws on a bad tag. -/
structure Botan where
  gcmAvailable : Bool
  sealMessage : AesKey → Octets 12 → Bytes → Except String Bytes
  openMessage : AesKey → Octets 12 → Bytes → Except String Bytes
  publicValue : Octets 32 → Except String Bytes
  deriveKey : Octets 32 → Octets 32 → Except String Bytes

def Botan.unavailable : Botan where
  gcmAvailable := false
  sealMessage _ _ _ := .error "not available"
  openMessage _ _ _ := .error "not available"
  publicValue _ := .error "not available"
  deriveKey _ _ := .error "not available"

structure AesGcm where
  key : AesKey

namespace AesGcm

def nonceSize : Nat := 12

def tagSize : Nat := 16

/-- The constructor; the size check of the key is in its type. -/
def create (B : Botan) (key : AesKey) : Except String AesGcm :=
  if B.gcmAvailable then .ok ⟨key⟩
  else .error "AesGcm: Botan AES-256/GCM not available"

/-- `start(nonce)`, `update(aad)`, `finish(plaintext)`. The associated data goes through
`update`, so it is encrypted as the first part of the message and its part of the output
is dropped. -/
def encrypt (B : Botan) (cipher : AesGcm) (plaintext aad nonce : Bytes) : Except String Bytes :=
  if h : nonce.length = nonceSize then
    (B.sealMessage cipher.key ⟨nonce, h⟩ (aad ++ plaintext)).map (·.drop aad.length)
  else .error "AesGcm: nonce must be 12 bytes"

def decrypt (B : Botan) (cipher : AesGcm) (ciphertextWithTag aad nonce : Bytes) :
    Except String Bytes :=
  if h : nonce.length = nonceSize then
    if ciphertextWithTag.length < tagSize then
      .error "AesGcm: ciphertext too short (no tag)"
    else
      (B.openMessage cipher.key ⟨nonce, h⟩ (aad ++ ciphertextWithTag)).map fun buf =>
        (buf.drop aad.length).take (ciphertextWithTag.length - tagSize)
  else .error "AesGcm: nonce must be 12 bytes"

theorem encrypt_no_aad (B : Botan) (cipher : AesGcm) (plaintext : Bytes) (nonce : Octets 12) :
    encrypt B cipher plaintext [] nonce.val = B.sealMessage cipher.key nonce plaintext := by
  have h : nonce.val.length = nonceSize := nonce.property
  simp only [encrypt, h, dite_true, List.nil_append, List.length_nil]
  cases B.sealMessage cipher.key nonce plaintext with
  | ok out => simp [Except.map]
  | error e => rfl

end AesGcm

namespace X25519

def publicKey (B : Botan) (privateKey : Octets 32) : Except String (Octets 32) :=
  (B.publicValue privateKey).map (Octets.ofBytes 32)

def sharedSecret (B : Botan) (privateKey publicKey : Octets 32) : Except String (Octets 32) :=
  (B.deriveKey privateKey publicKey).map (Octets.ofBytes 32)

end X25519

end Servd
