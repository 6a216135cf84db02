import Servd.Lib.Reader
import Servd.Protocol
import Servd.Session

/-!
Reading frames from a stream. A reader consumes the completions of its `recv`
operations in order; a text connection asks for one byte at a time. The header line
of a text frame goes through `std::istringstream` and `std::from_chars`, which are
written out here with their classic-locale meaning.
-/
namespace Servd

/-- How a `recv` completes: with the bytes it put into the buffer, none at the end of the
stream, or with an error. -/
inductive Completion
  | recv (data : Bytes)
  | error (errno : Nat)
  deriving DecidableEq

namespace Completion

/-- `cqe->res`. -/
def res : Completion → Int
  | .recv data => data.length
  | .error errno => -errno

def data : Completion → Bytes
  | .recv data => data
  | .error _ => []

end Completion

def etime : Int := 62

/-- `UringOperation::await_resume`. The text of a `system_error` goes on with the system's
name for the error. -/
def awaitResume (cqeRes : Int) : Except Exc Int :=
  if cqeRes < 0 ∧ cqeRes ≠ -etime then .error (.std "io_uring operation failed")
  else .ok cqeRes

abbrev IoReader := Reader Completion Exc

def store (buffer : Bytes) (pos : Nat) (data : Bytes) : Bytes :=
  buffer.take pos ++ data ++ buffer.drop (pos + data.length)

/-- The loop of `async_read_exact`; `totalRead` is a `size_t`, and adding an `int` to it wraps
around. -/
def asyncReadExactLoop (totalRead : Nat) (buffer : Bytes) : IoReader Bytes
  | [] => if totalRead < buffer.length then .waiting else .returned buffer []
  | c :: script =>
      if totalRead < buffer.length then
        match awaitResume c.res with
        | .error e => .threw e script
        | .ok bytes =>
            if bytes = 0 then .threw (.std "Connection closed by client") script
            else
              asyncReadExactLoop ((totalRead + bytes) % 2 ^ 64).toNat
                (store buffer totalRead c.data) script
      else .returned buffer (c :: script)

def asyncReadExact (buffer : Bytes) : IoReader Bytes := asyncReadExactLoop 0 buffer

def readFrame : IoReader ClientFrame := do
  let header ← asyncReadExact (List.replicate headerSize 0)
  let h := FrameHeader.ofBytes header
  let payload := List.replicate h.payloadLength.toNat 0
  if 0 < h.payloadLength then
    let payload ← asyncReadExact payload
    pure ⟨h, payload⟩
  else pure ⟨h, payload⟩

/-- The loop of `read_text_line`; `c` is the character buffer, which is never reset. Every
turn consumes a completion, so `fuel` bounds the turns by the completions. -/
def readTextLineLoop : Nat → UInt8 → Bytes → IoReader Bytes
  | 0, _, _ => fun _ => .waiting
  | fuel + 1, c, line => do
      let buffer ← asyncReadExact [c]
      let c := buffer.headD c
      if c = newline then pure line else readTextLineLoop fuel c (line ++ [c])

def readTextLine : IoReader Bytes := fun script =>
  readTextLineLoop (script.length + 1) 0 [] script

/-- `std::isspace` in the classic locale. -/
def isSpace (b : UInt8) : Bool := b = 32 || (9 ≤ b && b ≤ 13)

def isDigit (b : UInt8) : Bool := 48 ≤ b && b ≤ 57

/-- `iss >> token`: skip white space, then take everything up to the next white space. -/
def extractToken (line : Bytes) : Bytes × Bytes :=
  (line.dropWhile isSpace).span fun b => !isSpace b

def digitsValue (digits : Bytes) : Nat :=
  digits.foldl (fun n b => 10 * n + (b.toNat - 48)) 0

/-- `std::from_chars` for a `uint16_t`: the longest prefix of digits, if there is one and its
value fits. What follows it is ignored. -/
def fromChars (token : Bytes) : Option UInt16 :=
  let digits := token.takeWhile isDigit
  if digits = [] ∨ 2 ^ 16 ≤ digitsValue digits then none
  else some (UInt16.ofNat (digitsValue digits))

/-- `iss >> sid` for a `uint64_t` that holds 0: no numeral leaves 0, a numeral that does not
fit gives the largest value, and a minus sign negates modulo 2^64. -/
def extractUInt64 (line : Bytes) : UInt64 :=
  let text := line.dropWhile isSpace
  let unsigned := if text.head? = some 43 ∨ text.head? = some 45 then text.drop 1 else text
  let digits := unsigned.takeWhile isDigit
  if digits = [] then 0
  else if 2 ^ 64 ≤ digitsValue digits then 0xFFFFFFFFFFFFFFFF
  else if text.head? = some 45 then -UInt64.ofNat (digitsValue digits)
  else UInt64.ofNat (digitsValue digits)

abbrev CommandNames := UnorderedMap Bytes UInt16

/-- The command and session of a header line, if it is accepted. -/
def parseTextHeader (names : CommandNames) (headerLine : Bytes) : Option (UInt16 × UInt64) :=
  let (token, rest) := extractToken headerLine
  match fromChars token with
  | some cmd => some (cmd, extractUInt64 rest)
  | none => (names.lookup token).map fun cmd => (cmd, extractUInt64 rest)

def readTextFrame (names : CommandNames) : IoReader ClientFrame := do
  let headerLine ← readTextLine
  match parseTextHeader names headerLine with
  | none => pure ⟨⟨0, 0, 0, 0⟩, []⟩
  | some (cmd, sid) => do
      let payloadLine ← readTextLine
      let length := size32 payloadLine
      pure ⟨⟨cmd, 0, length, sid⟩, payloadLine.take length.toNat⟩

/-- The frame `start_udp_loop` takes out of its buffer, where a datagram of `bytes` bytes stands in
front of what earlier ones have left there. -/
def decodeDatagram (buffer : Bytes) (bytes : Nat) : Option ClientFrame :=
  if bytes < headerSize then none
  else
    let header := FrameHeader.ofBytes buffer
    let pl := min header.payloadLength (UInt32.ofNat (bytes - headerSize))
    some ⟨{ header with payloadLength := pl }, (buffer.drop headerSize).take pl.toNat⟩

end Servd
