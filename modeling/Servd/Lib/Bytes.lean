import Mathlib.Data.List.Basic
import Mathlib.Algebra.Order.Group.Nat
import Mathlib.Tactic.Ring

/-!
Byte strings: fixed-width little-endian numbers, decimal numerals, slices and copies
that stay inside their buffers, and blocks of a fixed size. Nothing here depends on a
protocol; a message format is a concatenation of these pieces and is read back by the
lemmas below.
-/
namespace Servd

abbrev Bytes := List UInt8

namespace Bytes

/-- The low `width` bytes of `n`, least significant first. -/
def littleEndian : Nat → Nat → Bytes
  | 0, _ => []
  | width + 1, n => UInt8.ofNat n :: littleEndian width (n / 256)

def ofLittleEndian : Bytes → Nat
  | [] => 0
  | b :: bs => b.toNat + 256 * ofLittleEndian bs

@[simp] theorem length_littleEndian (width n : Nat) : (littleEndian width n).length = width := by
  induction width generalizing n with
  | zero => rfl
  | succ width ih => simp [littleEndian, ih]

theorem ofLittleEndian_littleEndian (width n : Nat) :
    ofLittleEndian (littleEndian width n) = n % 256 ^ width := by
  induction width generalizing n with
  | zero => simp [littleEndian, ofLittleEndian, Nat.mod_one]
  | succ width ih =>
      simp only [littleEndian, ofLittleEndian, ih]
      rw [Nat.pow_succ, Nat.mul_comm (256 ^ width), Nat.mod_mul]
      rfl

def digit (d : Nat) : UInt8 := UInt8.ofNat (48 + d % 10)

def IsDigit (b : UInt8) : Prop := 48 ≤ b.toNat ∧ b.toNat ≤ 57

instance (b : UInt8) : Decidable (IsDigit b) :=
  inferInstanceAs (Decidable (_ ∧ _))

private def decimalAux : Nat → Nat → Bytes → Bytes
  | 0, _, acc => acc
  | fuel + 1, n, acc =>
      if n / 10 = 0 then digit n :: acc else decimalAux fuel (n / 10) (digit n :: acc)

def decimal (n : Nat) : Bytes := decimalAux (n + 1) n []

theorem isDigit_digit (d : Nat) : IsDigit (digit d) := by
  have h : (digit d).toNat = 48 + d % 10 := by
    simp only [digit, UInt8.toNat_ofNat']
    omega
  exact ⟨by omega, by omega⟩

private theorem decimalAux_isDigit (fuel n : Nat) (acc : Bytes) (h : ∀ b ∈ acc, IsDigit b) :
    ∀ b ∈ decimalAux fuel n acc, IsDigit b := by
  induction fuel generalizing n acc with
  | zero => exact h
  | succ fuel ih =>
      have hcons : ∀ b ∈ digit n :: acc, IsDigit b := by
        intro b hb
        rcases List.mem_cons.mp hb with rfl | hb
        · exact isDigit_digit n
        · exact h b hb
      simp only [decimalAux]
      split
      · exact hcons
      · exact ih (n / 10) (digit n :: acc) hcons

private theorem decimalAux_ne_nil (fuel n : Nat) (acc : Bytes) (h : acc ≠ [] ∨ 0 < fuel) :
    decimalAux fuel n acc ≠ [] := by
  induction fuel generalizing n acc with
  | zero => simpa [decimalAux] using h
  | succ fuel ih =>
      simp only [decimalAux]
      split
      · simp
      · exact ih (n / 10) (digit n :: acc) (Or.inl (by simp))

private theorem foldl_decimalAux (fuel n : Nat) (acc : Bytes) (h : n < fuel) :
    (decimalAux fuel n acc).foldl (fun v b => 10 * v + (b.toNat - 48)) 0 =
      acc.foldl (fun v b => 10 * v + (b.toNat - 48)) n := by
  induction fuel generalizing n acc with
  | zero => cases h
  | succ fuel ih =>
      have hdigit : (digit n).toNat - 48 = n % 10 := by
        simp only [digit, UInt8.toNat_ofNat']
        omega
      simp only [decimalAux]
      split
      · rw [List.foldl_cons, hdigit]
        congr 1
        omega
      · rw [ih (n / 10) (digit n :: acc) (by omega), List.foldl_cons, hdigit]
        congr 1
        omega

/-- The digits of a numeral add up to the number. -/
theorem foldl_decimal (n : Nat) :
    (decimal n).foldl (fun v b => 10 * v + (b.toNat - 48)) 0 = n :=
  foldl_decimalAux (n + 1) n [] (Nat.lt_succ_self n)

theorem decimal_isDigit (n : Nat) : ∀ b ∈ decimal n, IsDigit b :=
  decimalAux_isDigit (n + 1) n [] (by simp)

theorem decimal_ne_nil (n : Nat) : decimal n ≠ [] :=
  decimalAux_ne_nil (n + 1) n [] (Or.inr (Nat.succ_pos n))

/-- The slice of a given size at an offset; there is none outside the string. -/
def subspan (bs : Bytes) (offset count : Nat) : Option Bytes :=
  if offset + count ≤ bs.length then some ((bs.drop offset).take count) else none

/-- Overwrite a part of a buffer with the first bytes of another string. Both must be long
enough. -/
def memcpy (buffer : Bytes) (offset : Nat) (src : Bytes) (count : Nat) : Option Bytes :=
  if offset + count ≤ buffer.length ∧ count ≤ src.length then
    some (buffer.take offset ++ src.take count ++ buffer.drop (offset + count))
  else none

theorem subspan_eq {bs : Bytes} {offset count : Nat} (h : offset + count ≤ bs.length) :
    subspan bs offset count = some ((bs.drop offset).take count) := if_pos h

/-- A copy that fills a buffer of its own size. -/
theorem memcpy_all {n : Nat} {src : Bytes} (h : n ≤ src.length) :
    memcpy (List.replicate n 0) 0 src n = some (src.take n) := by
  rw [memcpy, if_pos ⟨by simp, h⟩]
  simp

/-- Two copies that fill a buffer one after the other. -/
theorem memcpy_append (xs ys : Bytes) :
    (memcpy (List.replicate (xs.length + ys.length) 0) 0 xs xs.length).bind
      (memcpy · xs.length ys ys.length) = some (xs ++ ys) := by
  have hfirst : memcpy (List.replicate (xs.length + ys.length) 0) 0 xs xs.length =
      some (xs ++ List.replicate ys.length 0) := by
    rw [memcpy, if_pos ⟨by simp, Nat.le_refl _⟩]
    simp
  rw [hfirst, Option.bind_some, memcpy, if_pos ⟨by simp, Nat.le_refl _⟩]
  simp

/-- A string xored with a stream of bytes, from byte `n` of the stream on. -/
def xorStream (stream : Nat → UInt8) : Nat → Bytes → Bytes
  | _, [] => []
  | n, b :: bs => (b ^^^ stream n) :: xorStream stream (n + 1) bs

@[simp] theorem length_xorStream (stream : Nat → UInt8) (n : Nat) (bs : Bytes) :
    (xorStream stream n bs).length = bs.length := by
  induction bs generalizing n with
  | nil => rfl
  | cons b bs ih => rw [xorStream, List.length_cons, ih, List.length_cons]

theorem xorStream_append (stream : Nat → UInt8) (n : Nat) (xs ys : Bytes) :
    xorStream stream n (xs ++ ys) =
      xorStream stream n xs ++ xorStream stream (n + xs.length) ys := by
  induction xs generalizing n with
  | nil => rfl
  | cons x xs ih =>
      rw [List.cons_append, xorStream, ih, xorStream, List.cons_append, List.length_cons,
        Nat.add_assoc n 1, Nat.add_comm 1]

/-- The same stream takes itself away again. -/
theorem xorStream_xorStream (stream : Nat → UInt8) (n : Nat) (bs : Bytes) :
    xorStream stream n (xorStream stream n bs) = bs := by
  induction bs generalizing n with
  | nil => rfl
  | cons b bs ih =>
      rw [xorStream, xorStream, ih, UInt8.xor_assoc, UInt8.xor_self, UInt8.xor_zero]

end Bytes

/-- A byte string of a fixed size, as `std::array<uint8_t, n>` holds one. -/
abbrev Octets (n : Nat) := { bs : Bytes // bs.length = n }

def Octets.ofBytes (n : Nat) (bs : Bytes) : Octets n :=
  ⟨(bs ++ List.replicate n 0).take n, by simp⟩

theorem Octets.ofBytes_val {n : Nat} {bs : Bytes} (h : bs.length = n) :
    (Octets.ofBytes n bs).val = bs := by
  subst h
  simp [Octets.ofBytes]

end Servd
