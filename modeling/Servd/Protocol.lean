import Servd.Lib.Bytes

/-!
The wire protocol: frame headers, the frames decoded from a client, and the bytes
each kind of connection writes for a frame. Headers are packed and little-endian;
a text connection prints three decimal fields and the payload, each on a line.
-/
namespace Servd

abbrev Fd := Nat

inductive TransportType
  | any | tcp | udp | unix
  deriving DecidableEq

inductive ProtocolMode
  | binary | text
  deriving DecidableEq

/-- What a C++ computation throws: a `std::exception` with its message, or any other value. -/
inductive Exc
  | std (what : String)
  | other
  deriving DecidableEq

/-- `catch (const std::exception&)` takes it. -/
def Exc.isStd : Exc → Bool
  | .std _ => true
  | .other => false

structure FrameHeader where
  commandId : UInt16
  flags : UInt16
  payloadLength : UInt32
  sessionId : UInt64
  deriving DecidableEq

structure ResponseFrame where
  flags : UInt16 := 0
  payload : Bytes
  deriving DecidableEq

structure ClientFrame where
  header : FrameHeader
  payload : Bytes
  deriving DecidableEq

def ClientFrame.command (commandId : UInt16) (sessionId : UInt64) : ClientFrame :=
  ⟨⟨commandId, 0, 0, sessionId⟩, []⟩

def cmdKeyExchange : UInt16 := 0x00F0

def cmdEncryptedMessage : UInt16 := 0x00F1

/-- `sizeof(FrameHeader)`. -/
def headerSize : Nat := 16

/-- `static_cast<uint32_t>(payload.size())`. -/
def size32 (payload : Bytes) : UInt32 := UInt32.ofNat payload.length

theorem toNat_size32 (payload : Bytes) : (size32 payload).toNat = payload.length % 2 ^ 32 :=
  UInt32.toNat_ofNat'

theorem toNat_size32_of_lt {payload : Bytes} (h : payload.length < 2 ^ 32) :
    (size32 payload).toNat = payload.length := by
  rw [toNat_size32, Nat.mod_eq_of_lt h]

namespace FrameHeader

def bytes (h : FrameHeader) : Bytes :=
  Bytes.littleEndian 2 h.commandId.toNat ++ Bytes.littleEndian 2 h.flags.toNat ++
    Bytes.littleEndian 4 h.payloadLength.toNat ++ Bytes.littleEndian 8 h.sessionId.toNat

def ofBytes (bs : Bytes) : FrameHeader where
  commandId := UInt16.ofNat (Bytes.ofLittleEndian (bs.take 2))
  flags := UInt16.ofNat (Bytes.ofLittleEndian ((bs.drop 2).take 2))
  payloadLength := UInt32.ofNat (Bytes.ofLittleEndian ((bs.drop 4).take 4))
  sessionId := UInt64.ofNat (Bytes.ofLittleEndian ((bs.drop 8).take 8))

@[simp] theorem length_bytes (h : FrameHeader) : h.bytes.length = headerSize := by
  simp [bytes, headerSize]

theorem ofBytes_bytes_append (h : FrameHeader) (rest : Bytes) :
    ofBytes (h.bytes ++ rest) = h := by
  have hc : h.commandId.toNat < 2 ^ 16 := h.commandId.toNat_lt
  have hf : h.flags.toNat < 2 ^ 16 := h.flags.toNat_lt
  have hp : h.payloadLength.toNat < 2 ^ 32 := h.payloadLength.toNat_lt
  have hs : h.sessionId.toNat < 2 ^ 64 := h.sessionId.toNat_lt
  have take_le : ∀ (w n : Nat) (tl : Bytes),
      (Bytes.littleEndian w n ++ tl).take w = Bytes.littleEndian w n := by
    intro w n tl
    rw [List.take_append_of_le_length (by simp), List.take_of_length_le (by simp)]
  have drop_le : ∀ (w n : Nat) (tl : Bytes), (Bytes.littleEndian w n ++ tl).drop w = tl := by
    intro w n tl
    rw [List.drop_append_of_le_length (by simp), List.drop_of_length_le (by simp),
      List.nil_append]
  simp only [ofBytes, bytes, List.append_assoc]
  rw [show (4 : Nat) = 2 + 2 from rfl, show (8 : Nat) = 2 + 2 + 4 from rfl]
  simp only [← List.drop_drop, drop_le, take_le, Bytes.ofLittleEndian_littleEndian]
  rw [Nat.mod_eq_of_lt (by omega), Nat.mod_eq_of_lt (by omega), Nat.mod_eq_of_lt (by omega),
    Nat.mod_eq_of_lt (by omega)]
  simp

theorem ofBytes_append {bs : Bytes} (h : bs.length = headerSize) (rest : Bytes) :
    ofBytes (bs ++ rest) = ofBytes bs := by
  have field : ∀ w n, w + n ≤ headerSize →
      ((bs ++ rest).drop w).take n = (bs.drop w).take n := by
    intro w n hle
    rw [List.drop_append_of_le_length (by omega),
      List.take_append_of_le_length (by rw [List.length_drop]; omega)]
  have first := field 0 2 (by decide)
  rw [List.drop_zero, List.drop_zero] at first
  simp only [ofBytes, first, field 2 2 (by decide), field 4 4 (by decide), field 8 8 (by decide)]

end FrameHeader

/-- The buffer `UringTcpConnection::send_frame`, `UringUdpConnection::send_frame`,
`send_to_session` and the broadcasts fill: the header, then the payload. -/
def binaryFrame (h : FrameHeader) (payload : Bytes) : Bytes :=
  h.bytes ++ payload

def newline : UInt8 := 10

def blank : UInt8 := 32

/-- What `TextTcpConnection::send_frame` prints. -/
def textFrame (h : FrameHeader) (payload : Bytes) : Bytes :=
  Bytes.decimal h.commandId.toNat ++ [blank] ++ Bytes.decimal h.flags.toNat ++ [blank] ++
    Bytes.decimal h.sessionId.toNat ++ [newline] ++ payload ++ [newline]

/-- The bytes `IConnection::send_frame` puts on a stream accepted in the given mode. -/
def encodeFrame : ProtocolMode → FrameHeader → Bytes → Bytes
  | .binary => binaryFrame
  | .text => textFrame

theorem newline_not_mem_decimal (n : Nat) : newline ∉ Bytes.decimal n := by
  intro h
  exact absurd (Bytes.decimal_isDigit n newline h) (by decide)

theorem textFrame_count_newline (h : FrameHeader) (payload : Bytes) :
    (textFrame h payload).count newline = payload.count newline + 2 := by
  have hblank : [blank].count newline = 0 := by decide
  have hnewline : [newline].count newline = 1 := by decide
  simp only [textFrame, List.count_append, hblank, hnewline,
    List.count_eq_zero_of_not_mem (newline_not_mem_decimal _)]
  omega

theorem binaryFrame_flags_byte (h : FrameHeader) (payload : Bytes) :
    (binaryFrame h payload)[2]? = some (UInt8.ofNat h.flags.toNat) := by
  simp [binaryFrame, FrameHeader.bytes, Bytes.littleEndian]

/-- A text frame has no zero among its first five bytes: they belong to its header line. -/
theorem textFrame_prefix_ne_zero (h : FrameHeader) (payload : Bytes) :
    ∀ i < 5, (textFrame h payload)[i]? ≠ some 0 := by
  have line : ∀ b ∈ Bytes.decimal h.commandId.toNat ++ [blank] ++ Bytes.decimal h.flags.toNat ++
      [blank] ++ Bytes.decimal h.sessionId.toNat, b ≠ 0 := by
    have digits : ∀ n, ∀ b ∈ Bytes.decimal n, b ≠ 0 := by
      rintro n b hb rfl
      exact absurd (Bytes.decimal_isDigit n 0 hb) (by decide)
    intro b hb
    simp only [List.mem_append, List.mem_singleton, blank] at hb
    rcases hb with (((hb | rfl) | hb) | rfl) | hb
    · exact digits _ b hb
    · decide
    · exact digits _ b hb
    · decide
    · exact digits _ b hb
  have length : 5 ≤ (Bytes.decimal h.commandId.toNat ++ [blank] ++
      Bytes.decimal h.flags.toNat ++ [blank] ++ Bytes.decimal h.sessionId.toNat).length := by
    have h₁ := List.length_pos_of_ne_nil (Bytes.decimal_ne_nil h.commandId.toNat)
    have h₂ := List.length_pos_of_ne_nil (Bytes.decimal_ne_nil h.flags.toNat)
    have h₃ := List.length_pos_of_ne_nil (Bytes.decimal_ne_nil h.sessionId.toNat)
    simp only [List.length_append, List.length_singleton]
    omega
  intro i hi hzero
  rw [textFrame, List.append_assoc, List.append_assoc, List.getElem?_append_left (by omega)]
    at hzero
  exact line 0 (List.mem_of_getElem? hzero) rfl

end Servd
