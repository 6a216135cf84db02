import Servd.Lib.Text
import Servd.TextAdapter

/-!
The grammar of a text header line: a token, white space and a session id, where the token is
a command number or the registered name of a command. `parse_text_header` takes the token
and the numerals by their longest prefixes, does not look at what is behind them, and does
not ask whether there was a session id at all. So it accepts every line of the grammar and
others too, and on some it takes a name for a number.
-/
namespace Servd

def Blank (bs : Bytes) : Prop := ∀ b ∈ bs, isSpace b = true

/-- A decimal numeral, from its first digit to its last. -/
structure Numeral (digits : Bytes) (n : Nat) : Prop where
  nonempty : digits ≠ []
  digit : ∀ b ∈ digits, isDigit b = true
  value : digitsValue digits = n

/-- What stands behind the token of a header line. -/
def SessionField (rest : Bytes) (sid : UInt64) : Prop :=
  ∃ gap numeral trail, rest = gap ++ numeral ++ trail ∧ gap ≠ [] ∧ Blank gap ∧
    Numeral numeral sid.toNat ∧ Blank trail

def CommandToken (names : CommandNames) (token : Bytes) (cmd : UInt16) : Prop :=
  Numeral token cmd.toNat ∨ names.lookup token = some cmd

/-- The lines of the grammar. -/
def HeaderLine (names : CommandNames) (line : Bytes) (cmd : UInt16) (sid : UInt64) : Prop :=
  ∃ lead token rest, line = lead ++ token ++ rest ∧ Blank lead ∧ token ≠ [] ∧
    (∀ b ∈ token, isSpace b = false) ∧ CommandToken names token cmd ∧ SessionField rest sid

theorem isSpace_of_digit {b : UInt8} (h : isDigit b = true) : isSpace b = false :=
  isSpace_of_isDigit ((isDigit_iff b).mp h)

theorem dropWhile_blank {lead : Bytes} (h : Blank lead) (rest : Bytes) :
    (lead ++ rest).dropWhile isSpace = rest.dropWhile isSpace :=
  List.dropWhile_append_of_pos h

section Field

variable {rest numeral trail : Bytes} {sid : UInt64}

/-- The digits of a numeral end where white space begins. -/
theorem takeWhile_numeral {n : Nat} (h : Numeral numeral n) (htrail : Blank trail) :
    (numeral ++ trail).takeWhile isDigit = numeral := by
  rw [List.takeWhile_append_of_pos h.digit]
  cases trail with
  | nil => simp
  | cons b bs =>
      have hb : isDigit b = false := by
        cases hdigit : isDigit b with
        | false => rfl
        | true =>
            have hspace := htrail b (by simp)
            rw [isSpace_of_digit hdigit] at hspace
            cases hspace
      rw [List.takeWhile_cons_of_neg (by simp [hb]), List.append_nil]

theorem Numeral.head {n : Nat} (h : Numeral numeral n) (trail : Bytes) :
    ∃ b, (numeral ++ trail).head? = some b ∧ isDigit b = true := by
  cases numeral with
  | nil => exact absurd rfl h.nonempty
  | cons b bs => exact ⟨b, rfl, h.digit b (by simp)⟩

/-- A numeral is read as it stands: there is neither white space nor a sign in front of it. -/
theorem Numeral.unsigned {n : Nat} (h : Numeral numeral n) (trail : Bytes) :
    (numeral ++ trail).dropWhile isSpace = numeral ++ trail ∧
      (numeral ++ trail).head? ≠ some 43 ∧ (numeral ++ trail).head? ≠ some 45 := by
  obtain ⟨b, hhead, hdigit⟩ := h.head trail
  have hsign : ∀ sign : UInt8, isDigit sign = false → (numeral ++ trail).head? ≠ some sign := by
    intro sign hsign heq
    rw [hhead] at heq
    cases heq
    rw [hdigit] at hsign
    cases hsign
  refine ⟨Text.dropWhile_of_head fun c hc => ?_, hsign 43 (by decide), hsign 45 (by decide)⟩
  rw [hhead] at hc
  cases hc
  exact isSpace_of_digit hdigit

theorem extractUInt64_of_field (h : SessionField rest sid) : extractUInt64 rest = sid := by
  obtain ⟨gap, numeral, trail, rfl, -, hgap, hnumeral, htrail⟩ := h
  obtain ⟨hstart, hplus, hminus⟩ := hnumeral.unsigned trail
  have htext : (gap ++ numeral ++ trail).dropWhile isSpace = numeral ++ trail := by
    rw [List.append_assoc, dropWhile_blank hgap, hstart]
  have hfits := sid.toNat_lt
  simp only [extractUInt64, htext, hplus, hminus, or_self, if_false,
    takeWhile_numeral hnumeral htrail, hnumeral.nonempty, hnumeral.value]
  rw [if_neg (by omega), UInt64.ofNat_toNat]

theorem sessionField_nil : ¬ SessionField [] sid := by
  rintro ⟨gap, numeral, trail, hrest, hgap, -⟩
  simp [hgap] at hrest

theorem SessionField.head (h : SessionField rest sid) :
    ∃ b bs, rest = b :: bs ∧ isSpace b = true := by
  obtain ⟨gap, numeral, trail, rfl, hne, hgap, -⟩ := h
  cases gap with
  | nil => exact absurd rfl hne
  | cons b bs => exact ⟨b, bs ++ numeral ++ trail, by simp, hgap b (by simp)⟩

end Field

/-- A line is white space, the token that is extracted from it, and what is behind it. -/
theorem extractToken_spec (line : Bytes) :
    ∃ lead, line = lead ++ (extractToken line).1 ++ (extractToken line).2 ∧ Blank lead ∧
      (∀ b ∈ (extractToken line).1, isSpace b = false) ∧
      ((extractToken line).1 = [] → (extractToken line).2 = []) := by
  refine ⟨line.takeWhile isSpace, ?_, fun b hb => List.mem_takeWhile_imp hb, ?_, ?_⟩
  · rw [extractToken, List.span_eq_takeWhile_dropWhile, List.append_assoc,
      List.takeWhile_append_dropWhile, List.takeWhile_append_dropWhile]
  · intro b hb
    rw [extractToken, List.span_eq_takeWhile_dropWhile] at hb
    simpa using List.mem_takeWhile_imp hb
  · rw [extractToken, List.span_eq_takeWhile_dropWhile]
    cases htext : line.dropWhile isSpace with
    | nil => simp
    | cons b bs =>
        have hb : isSpace b = false := by
          have hhead := List.head_dropWhile_not (p := isSpace) (l := line) (by simp [htext])
          simpa [htext] using hhead
        intro hempty
        simp [hb] at hempty

section Line

variable {names : CommandNames} {line : Bytes} {cmd : UInt16} {sid : UInt64}

/-- The parts of a line of the grammar are the ones that are extracted from it. -/
theorem headerLine_iff : HeaderLine names line cmd sid ↔
    CommandToken names (extractToken line).1 cmd ∧ SessionField (extractToken line).2 sid := by
  constructor
  · rintro ⟨lead, token, rest, rfl, hlead, hne, hspace, hcommand, hfield⟩
    obtain ⟨b, bs, rfl, hb⟩ := hfield.head
    rw [extractToken_parts hlead hne hspace hb]
    exact ⟨hcommand, hfield⟩
  · intro h
    obtain ⟨hcommand, hfield⟩ := h
    obtain ⟨lead, hline, hlead, hspace, hempty⟩ := extractToken_spec line
    refine ⟨lead, _, _, hline, hlead, ?_, hspace, hcommand, hfield⟩
    intro hnil
    rw [hempty hnil] at hfield
    exact sessionField_nil hfield

theorem fromChars_of_numeral {token : Bytes} (h : Numeral token cmd.toNat) :
    fromChars token = some cmd := by
  have hdigits : token.takeWhile isDigit = token := List.takeWhile_eq_self_iff.mpr h.digit
  have hfits := cmd.toNat_lt
  simp only [fromChars, hdigits, h.nonempty, h.value, false_or]
  rw [if_neg (by omega), UInt16.ofNat_toNat]

theorem numeral_of_fromChars {token : Bytes} (h : fromChars token = some cmd)
    (hall : token.all isDigit = true) : Numeral token cmd.toNat := by
  have hdigit : ∀ b ∈ token, isDigit b = true := List.all_eq_true.mp hall
  have hdigits : token.takeWhile isDigit = token := List.takeWhile_eq_self_iff.mpr hdigit
  simp only [fromChars, hdigits] at h
  split at h
  · cases h
  · rename_i hok
    obtain ⟨hne, hfits⟩ := not_or.mp hok
    cases h
    refine ⟨hne, hdigit, ?_⟩
    rw [UInt16.toNat_ofNat', Nat.mod_eq_of_lt (by omega)]

/-- The command that `parse_text_header` takes a token for. -/
def readCommand (names : CommandNames) (token : Bytes) : Option UInt16 :=
  (fromChars token).or (names.lookup token)

theorem parseTextHeader_eq (names : CommandNames) (line : Bytes) :
    parseTextHeader names line = (readCommand names (extractToken line).1).map fun cmd =>
      (cmd, extractUInt64 (extractToken line).2) := by
  simp only [parseTextHeader, readCommand]
  cases fromChars (extractToken line).1 <;> rfl

/-- The token means one command only, also if its leading digits are read as a number: it is all
digits and no name, or the name of just that command. -/
def Unambiguous (names : CommandNames) (token : Bytes) : Prop :=
  ∀ cmd, fromChars token = some cmd →
    names.lookup token = some cmd ∨ (token.all isDigit = true ∧ names.lookup token = none)

/-- The token is neither a number nor a name; or it is unambiguous, and a session id and nothing
else stands behind it. -/
def PlainLine (names : CommandNames) (line : Bytes) : Prop :=
  (fromChars (extractToken line).1 = none ∧ names.lookup (extractToken line).1 = none) ∨
    (Unambiguous names (extractToken line).1 ∧ ∃ sid, SessionField (extractToken line).2 sid)

theorem readCommand_of_commandToken (hplain : Unambiguous names (extractToken line).1)
    (h : CommandToken names (extractToken line).1 cmd) :
    readCommand names (extractToken line).1 = some cmd := by
  rcases h with hnumeral | hname
  · rw [readCommand, fromChars_of_numeral hnumeral, Option.some_or]
  · cases hchars : fromChars (extractToken line).1 with
    | none => rw [readCommand, hchars, hname, Option.none_or]
    | some cmd' =>
        rcases hplain cmd' hchars with hsame | ⟨-, hnone⟩
        · rw [readCommand, hchars, Option.some_or, ← hsame, hname]
        · rw [hname] at hnone
          cases hnone

theorem commandToken_of_readCommand (hplain : Unambiguous names (extractToken line).1)
    (h : readCommand names (extractToken line).1 = some cmd) :
    CommandToken names (extractToken line).1 cmd := by
  rcases Option.or_eq_some_iff.mp h with hchars | ⟨-, hname⟩
  · rcases hplain cmd hchars with hname | ⟨hall, -⟩
    · exact .inr hname
    · exact .inl (numeral_of_fromChars hchars hall)
  · exact .inr hname

theorem readCommand_eq_none : readCommand names (extractToken line).1 = none ↔
    fromChars (extractToken line).1 = none ∧ names.lookup (extractToken line).1 = none :=
  Option.or_eq_none_iff

theorem grammar_of_plainLine (h : PlainLine names line) (cmd : UInt16) (sid : UInt64) :
    parseTextHeader names line = some (cmd, sid) ↔ HeaderLine names line cmd sid := by
  rw [headerLine_iff, parseTextHeader_eq, Option.map_eq_some_iff]
  rcases h with hrejected | ⟨hplain, sid', hfield⟩
  · rw [readCommand_eq_none.mpr hrejected]
    constructor
    · rintro ⟨_, hnone, -⟩
      cases hnone
    · rintro ⟨hnumeral | hname, -⟩
      · rw [fromChars_of_numeral hnumeral] at hrejected
        cases hrejected.1
      · rw [hname] at hrejected
        cases hrejected.2
  · constructor
    · rintro ⟨cmd', hread, heq⟩
      cases heq
      rw [extractUInt64_of_field hfield]
      exact ⟨commandToken_of_readCommand hplain hread, hfield⟩
    · rintro ⟨hcommand, hfield'⟩
      exact ⟨cmd, readCommand_of_commandToken hplain hcommand,
        by rw [extractUInt64_of_field hfield']⟩

theorem plainLine_of_grammar
    (h : ∀ cmd sid, parseTextHeader names line = some (cmd, sid) ↔ HeaderLine names line cmd sid) :
    PlainLine names line := by
  cases hread : readCommand names (extractToken line).1 with
  | none => exact .inl (readCommand_eq_none.mp hread)
  | some cmd =>
      have hparse : parseTextHeader names line =
          some (cmd, extractUInt64 (extractToken line).2) := by
        rw [parseTextHeader_eq, hread, Option.map_some]
      obtain ⟨hcommand, hfield⟩ := headerLine_iff.mp ((h _ _).mp hparse)
      refine .inr ⟨?_, _, hfield⟩
      intro cmd' hchars
      have hcmd : cmd' = cmd := by
        rw [readCommand, hchars, Option.some_or] at hread
        exact Option.some.inj hread
      subst hcmd
      -- a name for the token is a second reading of it, which must agree with the number
      cases hname : names.lookup (extractToken line).1 with
      | none =>
          rcases hcommand with hnumeral | hname'
          · exact .inr ⟨List.all_eq_true.mpr hnumeral.digit, rfl⟩
          · rw [hname] at hname'
            cases hname'
      | some cmd =>
          have hother := (h cmd _).mpr (headerLine_iff.mpr ⟨.inr hname, hfield⟩)
          rw [hparse] at hother
          cases hother
          exact .inl rfl

end Line

/-- `parse_text_header` accepts exactly the grammar on the plain lines, and on no other line. -/
theorem parseTextHeader_grammar_iff (names : CommandNames) (line : Bytes) :
    (∀ cmd sid, parseTextHeader names line = some (cmd, sid) ↔ HeaderLine names line cmd sid) ↔
      PlainLine names line :=
  ⟨plainLine_of_grammar, grammar_of_plainLine⟩

/-- With the name "2fast" for command 7, the line "2fast 1" is read as one for command 2. -/
theorem not_parseTextHeader_grammar :
    ¬ ∀ names line cmd sid,
      parseTextHeader names line = some (cmd, sid) ↔ HeaderLine names line cmd sid := by
  intro h
  have hname : (addCommandName ∅ [50, 102, 97, 115, 116] 7).lookup [50, 102, 97, 115, 116] =
      some 7 := by decide +kernel
  have hline : HeaderLine (addCommandName ∅ [50, 102, 97, 115, 116] 7)
      [50, 102, 97, 115, 116, 32, 49] 7 1 :=
    ⟨[], [50, 102, 97, 115, 116], [32, 49], rfl, by simp [Blank], by simp, by simp [isSpace],
      .inr hname, [32], [49], [], rfl, by simp, by simp [Blank, isSpace],
      ⟨by simp, by simp [isDigit], by decide⟩, by simp [Blank]⟩
  have hparse : parseTextHeader (addCommandName ∅ [50, 102, 97, 115, 116] 7)
      [50, 102, 97, 115, 116, 32, 49] = some (2, 1) := by decide +kernel
  have hother := (h _ _ _ _).mpr hline
  rw [hparse] at hother
  exact absurd hother (by decide)

end Servd
