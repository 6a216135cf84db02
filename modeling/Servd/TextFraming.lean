import Servd.FrameIO

/-!
The framing of a text connection. A client's byte stream is a sequence of lines, and
a frame is two of them. `read_text_frame` returns after the header line when it
rejects it, so from the first rejected header on every payload line is read as a
header. Without one, the `k`-th frame is read from the lines `2k` and `2k + 1`.
-/
namespace Servd

def nextLine : Bytes → Option (Bytes × Bytes)
  | [] => none
  | b :: bs => if b = newline then some ([], bs) else (nextLine bs).map fun (l, r) => (b :: l, r)

def skipLines : Nat → Bytes → Option Bytes
  | 0, bs => some bs
  | n + 1, bs => (nextLine bs).bind fun (_, rest) => skipLines n rest

def lineAt (n : Nat) (bs : Bytes) : Option Bytes :=
  (skipLines n bs).bind fun rest => (nextLine rest).map (·.1)

theorem length_of_nextLine {bs line rest : Bytes} (h : nextLine bs = some (line, rest)) :
    rest.length < bs.length := by
  induction bs generalizing line with
  | nil => cases h
  | cons b bs ih =>
      simp only [nextLine] at h
      split at h
      · cases h
        simp
      · simp only [Option.map_eq_some_iff, Prod.exists, Prod.mk.injEq] at h
        obtain ⟨l, r, hl, -, rfl⟩ := h
        have := ih hl
        simp only [List.length_cons]
        omega

/-- The completions of one-byte reads on a stream that ends after `bs`. -/
def ofStream (bs : Bytes) : List Completion :=
  bs.map (fun b => .recv [b]) ++ [.recv []]

@[simp] theorem length_ofStream (bs : Bytes) : (ofStream bs).length = bs.length + 1 := by
  simp [ofStream]

@[simp] theorem ofStream_cons (b : UInt8) (bs : Bytes) :
    ofStream (b :: bs) = .recv [b] :: ofStream bs := rfl

theorem asyncReadExact_byte (c b : UInt8) (script : List Completion) :
    asyncReadExact [c] (.recv [b] :: script) = .returned [b] script := by
  cases script <;>
    simp [asyncReadExact, asyncReadExactLoop, awaitResume, Completion.res, Completion.data, store]

theorem asyncReadExact_end (c : UInt8) (script : List Completion) :
    asyncReadExact [c] (.recv [] :: script) =
      .threw (.std "Connection closed by client") script := by
  simp [asyncReadExact, asyncReadExactLoop, awaitResume, Completion.res]

theorem readTextLineLoop_ofStream (fuel : Nat) (c : UInt8) (line bs : Bytes)
    (hfuel : bs.length < fuel) :
    readTextLineLoop fuel c line (ofStream bs) =
      match nextLine bs with
      | some (l, rest) => .returned (line ++ l) (ofStream rest)
      | none => .threw (.std "Connection closed by client") [] := by
  induction bs generalizing fuel c line with
  | nil =>
      cases fuel with
      | zero => cases hfuel
      | succ fuel => exact Reader.bind_of_threw (asyncReadExact_end c []) _
  | cons b bs ih =>
      cases fuel with
      | zero => cases hfuel
      | succ fuel =>
          have hread : readTextLineLoop (fuel + 1) c line (ofStream (b :: bs)) =
              (if b = newline then pure line else readTextLineLoop fuel b (line ++ [b]))
                (ofStream bs) :=
            Reader.bind_of_returned (asyncReadExact_byte c b (ofStream bs)) _
          rw [hread]
          simp only [List.length_cons] at hfuel
          by_cases hb : b = newline
          · simp [hb, nextLine]
          · rw [if_neg hb, ih fuel b (line ++ [b]) (by omega)]
            simp only [nextLine, hb, if_false]
            cases nextLine bs with
            | none => rfl
            | some lr => simp

theorem readTextLine_ofStream (bs : Bytes) :
    readTextLine (ofStream bs) =
      match nextLine bs with
      | some (line, rest) => .returned line (ofStream rest)
      | none => .threw (.std "Connection closed by client") [] := by
  unfold readTextLine
  rw [readTextLineLoop_ofStream _ _ _ _ (by rw [length_ofStream]; omega)]
  rfl

/-- The frame read from a header line and a payload line. A rejected header line leaves the
header fields open. -/
def FromLines (names : CommandNames) (headerLine payloadLine : Bytes) (f : ClientFrame) : Prop :=
  f.payload = payloadLine.take (payloadLine.length % 2 ^ 32) ∧
    ∀ cmd sid, parseTextHeader names headerLine = some (cmd, sid) →
      f.header = ⟨cmd, 0, size32 payloadLine, sid⟩

theorem readTextLine_of_nextLine {bs line rest : Bytes} (h : nextLine bs = some (line, rest)) :
    readTextLine (ofStream bs) = .returned line (ofStream rest) := by
  rw [readTextLine_ofStream, h]

theorem nextLine_of_readTextLine {bs line : Bytes} {mid : List Completion}
    (h : readTextLine (ofStream bs) = .returned line mid) :
    ∃ rest, nextLine bs = some (line, rest) ∧ mid = ofStream rest := by
  rw [readTextLine_ofStream] at h
  cases hl : nextLine bs with
  | none => simp [hl] at h
  | some lr =>
      simp only [hl, Reading.returned.injEq] at h
      obtain ⟨rfl, rfl⟩ := h
      exact ⟨lr.2, rfl, rfl⟩

theorem readTextFrame_accepted {names : CommandNames} {bs headerLine rest : Bytes}
    {cmd : UInt16} {sid : UInt64} (hline : nextLine bs = some (headerLine, rest))
    (hparse : parseTextHeader names headerLine = some (cmd, sid)) {f : ClientFrame}
    {mid : List Completion} :
    readTextFrame names (ofStream bs) = .returned f mid ↔
      ∃ payloadLine rest', nextLine rest = some (payloadLine, rest') ∧ mid = ofStream rest' ∧
        f = ⟨⟨cmd, 0, size32 payloadLine, sid⟩,
          payloadLine.take (payloadLine.length % 2 ^ 32)⟩ := by
  unfold readTextFrame
  rw [Reader.bind_of_returned (readTextLine_of_nextLine hline)]
  simp only [hparse, Reader.bind_eq_returned, Reader.pure_apply, Reading.returned.injEq, toNat_size32]
  constructor
  · intro h
    obtain ⟨payloadLine, m, hread, rfl, rfl⟩ := h
    obtain ⟨rest', hpayload, rfl⟩ := nextLine_of_readTextLine hread
    exact ⟨payloadLine, rest', hpayload, rfl, rfl⟩
  · intro h
    obtain ⟨payloadLine, rest', hpayload, rfl, rfl⟩ := h
    exact ⟨payloadLine, ofStream rest', readTextLine_of_nextLine hpayload, rfl, rfl⟩

theorem readTextFrame_rejected {names : CommandNames} {bs headerLine rest : Bytes}
    (hline : nextLine bs = some (headerLine, rest))
    (hparse : parseTextHeader names headerLine = none) :
    readTextFrame names (ofStream bs) = .returned ⟨⟨0, 0, 0, 0⟩, []⟩ (ofStream rest) := by
  unfold readTextFrame
  rw [Reader.bind_of_returned (readTextLine_of_nextLine hline), hparse]
  rfl

theorem nextLine_of_readTextFrame {names : CommandNames} {bs : Bytes} {f : ClientFrame}
    {mid : List Completion} (h : readTextFrame names (ofStream bs) = .returned f mid) :
    ∃ headerLine rest, nextLine bs = some (headerLine, rest) := by
  unfold readTextFrame at h
  obtain ⟨headerLine, m, hread, -⟩ := Reader.bind_eq_returned.mp h
  obtain ⟨rest, hline, -⟩ := nextLine_of_readTextLine hread
  exact ⟨headerLine, rest, hline⟩

/-- However often `read_text_frame` is called, it consumes two lines for a call, and the
`k`-th frame comes from the lines `2k` and `2k + 1`. -/
def InSync (names : CommandNames) (bs : Bytes) : Prop :=
  ∀ n frames mid, (readTextFrame names).replicate n (ofStream bs) = .returned frames mid →
    (∃ rest, skipLines (2 * n) bs = some rest ∧ mid = ofStream rest) ∧
      ∀ k f, frames[k]? = some f → ∃ headerLine payloadLine,
        lineAt (2 * k) bs = some headerLine ∧ lineAt (2 * k + 1) bs = some payloadLine ∧
          FromLines names headerLine payloadLine f

def HeadersAccepted (names : CommandNames) (bs : Bytes) : Prop :=
  ∀ k headerLine, lineAt (2 * k) bs = some headerLine →
    (parseTextHeader names headerLine).isSome = true

section TwoLines

variable {bs headerLine payloadLine mid rest : Bytes}

theorem skipLines_two (hheader : nextLine bs = some (headerLine, mid))
    (hpayload : nextLine mid = some (payloadLine, rest)) (n : Nat) :
    skipLines (2 * (n + 1)) bs = skipLines (2 * n) rest := by
  rw [show 2 * (n + 1) = 2 * n + 1 + 1 from by omega]
  simp [skipLines, hheader, hpayload]

theorem lineAt_two (hheader : nextLine bs = some (headerLine, mid))
    (hpayload : nextLine mid = some (payloadLine, rest)) (n : Nat) :
    lineAt (n + 2) bs = lineAt n rest := by
  simp [lineAt, skipLines, hheader, hpayload]

end TwoLines

theorem inSync_of_headersAccepted {names : CommandNames} {bs : Bytes}
    (h : HeadersAccepted names bs) : InSync names bs := by
  intro n
  induction n generalizing bs with
  | zero =>
      intro frames mid hread
      cases hread
      exact ⟨⟨bs, rfl, rfl⟩, by simp⟩
  | succ n ih =>
      intro frames mid hread
      obtain ⟨f, frames', m, hfirst, hrest, rfl⟩ := Reader.replicate_succ_eq_returned.mp hread
      obtain ⟨headerLine, rest₁, hheader⟩ := nextLine_of_readTextFrame hfirst
      have hparse := h 0 headerLine (by simp [lineAt, skipLines, hheader])
      obtain ⟨⟨cmd, sid⟩, hparse⟩ := Option.isSome_iff_exists.mp hparse
      obtain ⟨payloadLine, rest, hpayload, rfl, rfl⟩ :=
        (readTextFrame_accepted hheader hparse).mp hfirst
      have hsub : HeadersAccepted names rest := fun k line hline =>
        h (k + 1) line (by rw [Nat.mul_add, lineAt_two hheader hpayload, hline])
      obtain ⟨hskip, hframes⟩ := ih hsub frames' mid hrest
      refine ⟨by rwa [skipLines_two hheader hpayload], ?_⟩
      intro k g hk
      cases k with
      | zero =>
          simp only [List.getElem?_cons_zero, Option.some.injEq] at hk
          subst hk
          refine ⟨headerLine, payloadLine, by simp [lineAt, skipLines, hheader],
            by simp [lineAt, skipLines, hheader, hpayload], rfl, ?_⟩
          intro cmd' sid' hparse'
          rw [hparse] at hparse'
          cases hparse'
          rfl
      | succ k =>
          simp only [List.getElem?_cons_succ] at hk
          obtain ⟨hl, pl, hhl, hpl, hfrom⟩ := hframes k g hk
          refine ⟨hl, pl, ?_, ?_, hfrom⟩
          · rw [Nat.mul_add, lineAt_two hheader hpayload, hhl]
          · rw [show 2 * (k + 1) + 1 = 2 * k + 1 + 2 from by omega,
              lineAt_two hheader hpayload, hpl]

theorem inSync_first {names : CommandNames} {bs headerLine rest : Bytes}
    (h : InSync names bs) (hheader : nextLine bs = some (headerLine, rest)) :
    ∃ cmd sid, parseTextHeader names headerLine = some (cmd, sid) := by
  cases hparse : parseTextHeader names headerLine with
  | some r => exact ⟨r.1, r.2, rfl⟩
  | none =>
      exfalso
      have hread : (readTextFrame names).replicate 1 (ofStream bs) =
          .returned [⟨⟨0, 0, 0, 0⟩, []⟩] (ofStream rest) :=
        Reader.replicate_succ_eq_returned.mpr
          ⟨_, [], ofStream rest, readTextFrame_rejected hheader hparse, rfl, rfl⟩
      obtain ⟨⟨rest', hskip, hmid⟩, -⟩ := h 1 _ _ hread
      simp only [skipLines, hheader, Option.bind_some, Option.bind_eq_some_iff,
        Prod.exists, Option.some.injEq] at hskip
      obtain ⟨payloadLine, _, hpayload, rfl⟩ := hskip
      have hlt := length_of_nextLine hpayload
      have heq := congrArg List.length hmid
      simp only [length_ofStream] at heq
      omega

theorem inSync_rest {names : CommandNames} {bs headerLine mid payloadLine rest : Bytes}
    (h : InSync names bs) (hheader : nextLine bs = some (headerLine, mid))
    (hpayload : nextLine mid = some (payloadLine, rest)) : InSync names rest := by
  intro n frames script hread
  obtain ⟨cmd, sid, hparse⟩ := inSync_first h hheader
  have hfirst := (readTextFrame_accepted hheader hparse).mpr
    ⟨payloadLine, rest, hpayload, rfl, rfl⟩
  obtain ⟨hskip, hframes⟩ := h (n + 1) _ script
    (Reader.replicate_succ_eq_returned.mpr ⟨_, frames, ofStream rest, hfirst, hread, rfl⟩)
  refine ⟨by rwa [skipLines_two hheader hpayload] at hskip, ?_⟩
  intro k f hk
  obtain ⟨hl, pl, hhl, hpl, hfrom⟩ := hframes (k + 1) f (by simpa using hk)
  refine ⟨hl, pl, ?_, ?_, hfrom⟩
  · rwa [Nat.mul_add, lineAt_two hheader hpayload] at hhl
  · rwa [show 2 * (k + 1) + 1 = 2 * k + 1 + 2 from by omega,
      lineAt_two hheader hpayload] at hpl

theorem headersAccepted_of_inSync {names : CommandNames} {bs : Bytes}
    (h : InSync names bs) : HeadersAccepted names bs := by
  intro k
  induction k generalizing bs with
  | zero =>
      intro headerLine hline
      simp only [lineAt, skipLines, Option.bind_some, Option.map_eq_some_iff,
        Prod.exists, exists_and_right, exists_eq_right] at hline
      obtain ⟨rest, hheader⟩ := hline
      obtain ⟨cmd, sid, hparse⟩ := inSync_first h hheader
      rw [hparse]
      rfl
  | succ k ih =>
      intro headerLine hline
      have hlines : ∃ l m p r, nextLine bs = some (l, m) ∧ nextLine m = some (p, r) := by
        rw [show 2 * (k + 1) = 2 * k + 1 + 1 from by omega] at hline
        simp only [lineAt, skipLines, Option.bind_eq_some_iff, Prod.exists] at hline
        obtain ⟨_, ⟨l, m, hl, p, r, hp, -⟩, -⟩ := hline
        exact ⟨l, m, p, r, hl, hp⟩
      obtain ⟨l, m, p, r, hl, hp⟩ := hlines
      refine ih (inSync_rest h hl hp) headerLine ?_
      rwa [Nat.mul_add, lineAt_two hl hp] at hline

/-- A text stream is read in step exactly if every line in the place of a header is
accepted. -/
theorem inSync_iff_headersAccepted (names : CommandNames) (bs : Bytes) :
    InSync names bs ↔ HeadersAccepted names bs :=
  ⟨headersAccepted_of_inSync, inSync_of_headersAccepted⟩

/-- The stream "hi", "1 7", "x" with no command names: the first header is rejected, and the
payload line "1 7" is read as the header of the next frame. -/
theorem not_inSync_rejected_header : ¬ ∀ names bs, InSync names bs := by
  intro h
  obtain ⟨cmd, sid, hparse⟩ := inSync_first
    (h ∅ [104, 105, newline, 49, 32, 55, newline, 120, newline]) rfl
  have hnone : parseTextHeader ∅ [104, 105] = none := by decide
  rw [hnone] at hparse
  cases hparse

end Servd
