import Mathlib.Data.List.TakeDrop
import Mathlib.Data.List.TakeWhile
import Servd.TextFraming
import Servd.StreamInput

/-!
Text mode as an adapter of binary mode. A request is written as two lines, with the
command as a number or by a registered name, and `read_text_frame` decodes it to the
frame that `read_frame` decodes from its binary encoding with flags 0.
-/
namespace Servd

/-- `Server::add_command_name`. -/
def addCommandName (names : CommandNames) (name : Bytes) (commandId : UInt16) : CommandNames :=
  names.insert name commandId

/-- What a client asks for, and the name it writes for the command if it does not write the
number. -/
structure TextRequest where
  commandId : UInt16
  sessionId : UInt64
  payload : Bytes
  name : Option Bytes := none

namespace TextRequest

def token (r : TextRequest) : Bytes := r.name.getD (Bytes.decimal r.commandId.toNat)

def headerLine (r : TextRequest) : Bytes :=
  r.token ++ blank :: Bytes.decimal r.sessionId.toNat

def text (r : TextRequest) : Bytes := r.headerLine ++ newline :: (r.payload ++ [newline])

def frame (r : TextRequest) : ClientFrame :=
  ⟨⟨r.commandId, 0, size32 r.payload, r.sessionId⟩, r.payload⟩

/-- A name that is read as a name: one token, and not the beginning of a number. -/
structure Named (names : CommandNames) (commandId : UInt16) (name : Bytes) : Prop where
  registered : names.lookup name = some commandId
  nonempty : name ≠ []
  noSpace : ∀ b ∈ name, isSpace b = false
  noDigit : ∀ b, name.head? = some b → isDigit b = false

structure WellFormed (names : CommandNames) (r : TextRequest) : Prop where
  oneLine : newline ∉ r.payload
  size : r.payload.length < 2 ^ 32
  named : ∀ name, r.name = some name → Named names r.commandId name

end TextRequest

theorem isDigit_iff (b : UInt8) : isDigit b = true ↔ Bytes.IsDigit b := by
  simp [isDigit, Bytes.IsDigit, UInt8.le_iff_toNat_le]

theorem isSpace_of_isDigit {b : UInt8} (h : Bytes.IsDigit b) : isSpace b = false := by
  have h32 : b ≠ 32 := by
    rintro rfl
    exact absurd h (by decide)
  have h13 : ¬ b ≤ 13 := by
    rw [UInt8.le_iff_toNat_le]
    have := h.1
    simp only [UInt8.reduceToNat]
    omega
  simp [isSpace, h32, h13]

theorem takeWhile_decimal (n : Nat) : (Bytes.decimal n).takeWhile isDigit = Bytes.decimal n :=
  List.takeWhile_eq_self_iff.mpr fun b hb => (isDigit_iff b).mpr (Bytes.decimal_isDigit n b hb)

theorem decimal_head {n : Nat} {b : UInt8} (h : (Bytes.decimal n).head? = some b) :
    Bytes.IsDigit b :=
  Bytes.decimal_isDigit n b (List.mem_of_mem_head? h)

theorem fromChars_decimal (c : UInt16) : fromChars (Bytes.decimal c.toNat) = some c := by
  have hvalue : digitsValue (Bytes.decimal c.toNat) = c.toNat := Bytes.foldl_decimal c.toNat
  have hfits := c.toNat_lt
  simp only [fromChars, takeWhile_decimal, hvalue]
  rw [if_neg (by simp only [Bytes.decimal_ne_nil, false_or]; omega), UInt16.ofNat_toNat]

theorem fromChars_name {name : Bytes} (h : ∀ b, name.head? = some b → isDigit b = false) :
    fromChars name = none := by
  have hdigits : name.takeWhile isDigit = [] := by
    cases name with
    | nil => rfl
    | cons b bs => rw [List.takeWhile_cons, h b rfl, if_neg (by decide)]
  simp only [fromChars, hdigits, true_or, if_true]

theorem extractUInt64_decimal (s : UInt64) :
    extractUInt64 (blank :: Bytes.decimal s.toNat) = s := by
  have hvalue : digitsValue (Bytes.decimal s.toNat) = s.toNat := Bytes.foldl_decimal s.toNat
  have hfits := s.toNat_lt
  have htext : (blank :: Bytes.decimal s.toNat).dropWhile isSpace = Bytes.decimal s.toNat := by
    rw [List.dropWhile_cons_of_pos (by decide)]
    cases hdigits : Bytes.decimal s.toNat with
    | nil => rfl
    | cons b bs =>
        have hb := isSpace_of_isDigit (decimal_head (n := s.toNat) (by rw [hdigits]; rfl))
        rw [List.dropWhile_cons_of_neg (by simp [hb])]
  have hsign : ∀ sign : UInt8, ¬ Bytes.IsDigit sign →
      (Bytes.decimal s.toNat).head? ≠ some sign := fun sign h hhead => h (decimal_head hhead)
  have hplus := hsign 43 (by decide)
  have hminus := hsign 45 (by decide)
  simp only [extractUInt64, htext, hplus, hminus, or_self, if_false, takeWhile_decimal,
    Bytes.decimal_ne_nil, hvalue]
  rw [if_neg (by omega), UInt64.ofNat_toNat]

/-- White space in front is skipped, and a token is taken up to the white space behind it. -/
theorem extractToken_parts {lead token : Bytes} (hlead : ∀ b ∈ lead, isSpace b = true)
    (hne : token ≠ []) (hspace : ∀ b ∈ token, isSpace b = false) {b : UInt8}
    (hb : isSpace b = true) (rest : Bytes) :
    extractToken (lead ++ token ++ b :: rest) = (token, b :: rest) := by
  have hstart : (lead ++ token ++ b :: rest).dropWhile isSpace = token ++ b :: rest := by
    rw [List.append_assoc, List.dropWhile_append_of_pos hlead]
    cases token with
    | nil => exact absurd rfl hne
    | cons c cs =>
        rw [List.cons_append, List.dropWhile_cons_of_neg (by simp [hspace c])]
  have hkept : ∀ c ∈ token, (!isSpace c) = true := fun c hc => by simp [hspace c hc]
  rw [extractToken, hstart, List.span_eq_takeWhile_dropWhile,
    List.takeWhile_append_of_pos hkept, List.dropWhile_append_of_pos hkept,
    List.takeWhile_cons_of_neg (by simp [hb]), List.dropWhile_cons_of_neg (by simp [hb]),
    List.append_nil]

theorem nextLine_append {line : Bytes} (h : newline ∉ line) (rest : Bytes) :
    nextLine (line ++ newline :: rest) = some (line, rest) := by
  induction line with
  | nil => simp [nextLine]
  | cons b line ih =>
      have hb : b ≠ newline := fun hb => h (by simp [hb])
      rw [List.cons_append, nextLine, if_neg hb, ih fun hmem => h (List.mem_cons_of_mem b hmem)]
      rfl

namespace TextRequest

variable {names : CommandNames} {r : TextRequest}

theorem token_ne_nil (h : r.WellFormed names) : r.token ≠ [] := by
  unfold token
  cases hname : r.name with
  | none => exact Bytes.decimal_ne_nil _
  | some name => exact (h.named name hname).nonempty

theorem token_noSpace (h : r.WellFormed names) : ∀ b ∈ r.token, isSpace b = false := by
  unfold token
  cases hname : r.name with
  | none => exact fun b hb => isSpace_of_isDigit (Bytes.decimal_isDigit _ b hb)
  | some name => exact (h.named name hname).noSpace

theorem newline_not_mem_headerLine (h : r.WellFormed names) : newline ∉ r.headerLine := by
  intro hmem
  simp only [headerLine, List.mem_append, List.mem_cons] at hmem
  rcases hmem with hmem | hmem | hmem
  · exact absurd (token_noSpace h newline hmem) (by decide)
  · exact absurd hmem (by decide)
  · exact newline_not_mem_decimal _ hmem

/-- The number is read as a number, and the name is looked up because it is none. -/
theorem parseTextHeader_headerLine (h : r.WellFormed names) :
    parseTextHeader names r.headerLine = some (r.commandId, r.sessionId) := by
  have htoken : extractToken r.headerLine =
      (r.token, blank :: Bytes.decimal r.sessionId.toNat) :=
    @extractToken_parts [] _ (by simp) (token_ne_nil h) (token_noSpace h) _ (by decide) _
  rw [parseTextHeader, htoken]
  simp only [extractUInt64_decimal]
  cases hname : r.name with
  | none =>
      have htoken : r.token = Bytes.decimal r.commandId.toNat := by rw [token, hname]; rfl
      rw [htoken, fromChars_decimal]
  | some name =>
      have htoken : r.token = name := by rw [token, hname]; rfl
      have hnamed := h.named name hname
      rw [htoken, fromChars_name hnamed.noDigit, hnamed.registered]
      rfl

theorem readTextFrame_text (h : r.WellFormed names) (rest : Bytes) :
    readTextFrame names (ofStream (r.text ++ rest)) = .returned r.frame (ofStream rest) := by
  have hheader : nextLine (r.text ++ rest) =
      some (r.headerLine, r.payload ++ newline :: rest) := by
    rw [text, List.append_assoc, List.cons_append, nextLine_append (newline_not_mem_headerLine h),
      List.append_assoc, List.singleton_append]
  refine (readTextFrame_accepted hheader (parseTextHeader_headerLine h)).mpr
    ⟨r.payload, rest, nextLine_append h.oneLine rest, rfl, ?_⟩
  rw [Nat.mod_eq_of_lt h.size, List.take_length, frame]

theorem readTextFrame_end (names : CommandNames) :
    readTextFrame names (ofStream []) = .threw closedByClient [] :=
  Reader.bind_of_threw (readTextLine_ofStream []) _

theorem readTextFrame_texts {requests : List TextRequest}
    (h : ∀ r ∈ requests, r.WellFormed names) :
    (readTextFrame names).replicate requests.length (ofStream (requests.flatMap (·.text))) =
      .returned (requests.map (·.frame)) (ofStream []) := by
  induction requests with
  | nil => rfl
  | cons r requests ih =>
      rw [List.flatMap_cons]
      exact Reader.replicate_succ_eq_returned.mpr ⟨r.frame, _, _,
        readTextFrame_text (h r (by simp)) _, ih fun r' hr' => h r' (by simp [hr']), rfl⟩

theorem frame_sized (h : r.WellFormed names) : r.frame.Sized :=
  toNat_size32_of_lt h.size

end TextRequest

theorem cutOff_nil : CutOff [] :=
  ⟨⟨⟨0, 0, 0, 0⟩, []⟩, by decide, by decide, by decide⟩

/-- However the binary stream arrives, the two decoders return the same frames for a list of
requests, one for each, and then throw the same exception at the end of their streams. -/
theorem readTextFrame_agrees_readFrame (names : CommandNames) (requests : List TextRequest)
    (hwf : ∀ r ∈ requests, r.WellFormed names) (script : List Completion)
    (h : FrameRecvs (requests.flatMap (·.frame.encoded)) script) :
    ∃ frames rest rest', frames = requests.map (·.frame) ∧
      readFrame.replicate requests.length script = .returned frames rest ∧
      readFrame rest = .threw closedByClient [] ∧
      (readTextFrame names).replicate requests.length (ofStream (requests.flatMap (·.text))) =
        .returned frames rest' ∧
      readTextFrame names rest' = .threw closedByClient [] := by
  have hsized : ∀ f ∈ requests.map (·.frame), f.Sized := by
    intro f hf
    obtain ⟨r, hr, rfl⟩ := List.mem_map.mp hf
    exact TextRequest.frame_sized (hwf r hr)
  have hstream : FrameRecvs ((requests.map (·.frame)).flatMap (·.encoded) ++ []) script := by
    rwa [List.append_nil, List.flatMap_map]
  obtain ⟨rest, hread, hrest⟩ := readFrame_encoded hsized hstream
  rw [List.length_map] at hread
  exact ⟨requests.map (·.frame), rest, ofStream [], rfl, hread, readFrame_cutOff cutOff_nil hrest,
    TextRequest.readTextFrame_texts hwf, TextRequest.readTextFrame_end names⟩

/-- The requests "258 7", "x" and "hi 18446744073709551615", "", where "hi" is the name of
command 1. -/
theorem readTextFrame_agrees_readFrame_hi :
    ∃ frames rest rest', frames = [⟨⟨258, 0, 1, 7⟩, [120]⟩,
        ⟨⟨1, 0, 0, 18446744073709551615⟩, []⟩] ∧
      readFrame.replicate 2 [.recv [2, 1, 0, 0, 1, 0, 0, 0, 7, 0, 0, 0, 0, 0, 0, 0], .recv [120],
          .recv [1, 0, 0, 0, 0, 0, 0, 0, 255, 255, 255, 255, 255, 255, 255, 255], .recv []] =
        .returned frames rest ∧
      readFrame rest = .threw closedByClient [] ∧
      (readTextFrame (addCommandName ∅ [104, 105] 1)).replicate 2 (ofStream
          ([50, 53, 56, 32, 55, 10, 120, 10, 104, 105, 32, 49, 56, 52, 52, 54, 55, 52, 52, 48, 55,
            51, 55, 48, 57, 53, 53, 49, 54, 49, 53, 10, 10])) = .returned frames rest' ∧
      readTextFrame (addCommandName ∅ [104, 105] 1) rest' = .threw closedByClient [] :=
  readTextFrame_agrees_readFrame (addCommandName ∅ [104, 105] 1)
    [⟨258, 7, [120], none⟩, ⟨1, 18446744073709551615, [], some [104, 105]⟩]
    (by
      intro r hr
      simp only [List.mem_cons, List.not_mem_nil, or_false] at hr
      rcases hr with rfl | rfl
      · exact ⟨by decide, by decide, by simp⟩
      · refine ⟨by decide, by decide, ?_⟩
        rintro _ ⟨⟩
        refine ⟨by decide, by decide, by decide +kernel, ?_⟩
        rintro _ ⟨⟩
        rfl)
    _
    (.frame
      (recvs_of_delivers [2, 1, 0, 0, 1, 0, 0, 0, 7, 0, 0, 0, 0, 0, 0, 0]
        (120 :: [1, 0, 0, 0, 0, 0, 0, 0, 255, 255, 255, 255, 255, 255, 255, 255])
        [[2, 1, 0, 0, 1, 0, 0, 0, 7, 0, 0, 0, 0, 0, 0, 0]] ⟨by decide, rfl⟩)
      (recvs_of_delivers [120] [1, 0, 0, 0, 0, 0, 0, 0, 255, 255, 255, 255, 255, 255, 255, 255]
        [[120]] ⟨by decide, rfl⟩)
      (.frame
        (recvs_of_delivers [1, 0, 0, 0, 0, 0, 0, 0, 255, 255, 255, 255, 255, 255, 255, 255] []
          [[1, 0, 0, 0, 0, 0, 0, 0, 255, 255, 255, 255, 255, 255, 255, 255]] ⟨by decide, rfl⟩)
        (recvs_of_delivers [] [] [] ⟨by decide, rfl⟩)
        (.closedInHeader (.closed (by decide) .closed))))

end Servd
