import Servd.StreamInput

/-!
`async_read_exact` on every completion code. The loop adds the signed result of a `recv`
to an unsigned total, and `await_resume` throws on every negative result but one: it lets
the code of an expired timer through. On that code the total is no longer the number of
bytes that have been received.
-/
namespace Servd

/-- The completions that the loop consumes, each with `total_read` as it is when the `recv` is
submitted. -/
def recvsAt (size : Nat) : Nat → List Completion → List (Nat × Completion)
  | _, [] => []
  | totalRead, c :: script =>
      if totalRead < size then
        (totalRead, c) ::
          match awaitResume c.res with
          | .error _ => []
          | .ok bytes =>
              if bytes = 0 then []
              else recvsAt size ((totalRead + bytes) % 2 ^ 64).toNat script
      else []

/-- A `recv` brings no more than it has asked for: what is missing of the buffer. -/
def RecvsFit (size : Nat) (script : List Completion) : Prop :=
  ∀ x ∈ recvsAt size 0 script, x.2.data.length ≤ size - x.1

/-- What `async_read_exact` is for. In `bounded`, the sum is the one of `total_read += bytes`, where
the `int` has been converted to a `size_t`: it stays within the buffer, so it does not wrap
around. -/
structure ReadsExactly (buffer : Bytes) (script : List Completion) : Prop where
  bounded : ∀ x ∈ recvsAt buffer.length 0 script, ∀ bytes, awaitResume x.2.res = .ok bytes →
    x.1 + (bytes % 2 ^ 64).toNat ≤ buffer.length
  filled : ∀ out rest, asyncReadExact buffer script = .returned out rest →
    out.length = buffer.length ∧
      ∃ received : List Bytes, script = received.map .recv ++ rest ∧ received.flatten = out
  -- every completion brings a byte, so the loop is not left waiting for ever
  ends : asyncReadExact buffer script = .waiting → script.length < buffer.length

/-- The code of an expired timer does not come while bytes are missing: not behind completions that
have each brought some bytes, but not yet all. -/
def NoTimeout (size : Nat) (script : List Completion) : Prop :=
  ∀ (chunks : List Bytes) c rest, script = chunks.map .recv ++ c :: rest → (∀ chunk ∈ chunks, chunk ≠ []) →
    c.res = -etime → size ≤ chunks.flatten.length

section Turns

variable {size : Nat} {chunk : Bytes} {script : List Completion}

theorem recvsAt_recv {totalRead : Nat} (hlt : totalRead < size) (hne : chunk ≠ [])
    (hsize : totalRead + chunk.length < 2 ^ 64) :
    recvsAt size totalRead (.recv chunk :: script) =
      (totalRead, .recv chunk) :: recvsAt size (totalRead + chunk.length) script := by
  have hpos : 0 < chunk.length := List.length_pos_of_ne_nil hne
  have hok : awaitResume (Completion.recv chunk).res = .ok chunk.length :=
    if_neg (by simp only [Completion.res]; omega)
  have htotal : ((totalRead + (chunk.length : Int)) % 2 ^ 64).toNat = totalRead + chunk.length := by
    omega
  rw [recvsAt, if_pos hlt, hok]
  simp only [htotal]
  rw [if_neg (by omega)]

theorem mem_recvsAt_head {totalRead : Nat} {c : Completion} (hlt : totalRead < size) :
    (totalRead, c) ∈ recvsAt size totalRead (c :: script) := by
  rw [recvsAt, if_pos hlt]
  exact List.mem_cons_self

theorem recvsAt_chunks (chunks : List Bytes) (hne : ∀ chunk ∈ chunks, chunk ≠ []) (totalRead : Nat)
    (hlt : totalRead + chunks.flatten.length < size) (hsize : size < 2 ^ 64)
    (script : List Completion) :
    ∃ turns, recvsAt size totalRead (chunks.map .recv ++ script) =
      turns ++ recvsAt size (totalRead + chunks.flatten.length) script := by
  induction chunks generalizing totalRead with
  | nil => exact ⟨[], by simp⟩
  | cons chunk chunks ih =>
      rw [List.flatten_cons, List.length_append] at hlt
      obtain ⟨turns, hturns⟩ := ih (fun c hc => hne c (by simp [hc])) (totalRead + chunk.length)
        (by omega)
      refine ⟨(totalRead, .recv chunk) :: turns, ?_⟩
      rw [List.map_cons, List.cons_append,
        recvsAt_recv (by omega) (hne chunk (by simp)) (by omega), hturns, List.flatten_cons,
        List.length_append, List.cons_append, Nat.add_assoc]

theorem NoTimeout.tail (h : NoTimeout size (.recv chunk :: script)) (hne : chunk ≠ []) :
    NoTimeout (size - chunk.length) script := by
  intro chunks c rest hscript hchunks hc
  have hall : ∀ d ∈ chunk :: chunks, d ≠ [] := by
    intro d hd
    cases List.mem_cons.mp hd with
    | inl heq => exact heq ▸ hne
    | inr hd => exact hchunks d hd
  have hle := h (chunk :: chunks) c rest (by rw [hscript]; rfl) hall hc
  rw [List.flatten_cons, List.length_append] at hle
  omega

end Turns

/-- The negative code that is not thrown. -/
theorem awaitResume_etime : awaitResume (-etime) = .ok (-62) := rfl

/-- If the code of an expired timer comes too early, the sum is near 2^64. -/
theorem noTimeout_of_readsExactly {buffer : Bytes} {script : List Completion}
    (hsize : buffer.length < 2 ^ 63) (h : ReadsExactly buffer script) :
    NoTimeout buffer.length script := by
  rintro chunks c rest rfl hne hc
  by_contra hlt
  obtain ⟨turns, hturns⟩ := recvsAt_chunks chunks hne 0
    (by omega : 0 + chunks.flatten.length < buffer.length) (by omega) (c :: rest)
  have hmem : (0 + chunks.flatten.length, c) ∈
      recvsAt buffer.length 0 (chunks.map .recv ++ c :: rest) := by
    rw [hturns]
    exact List.mem_append_right _ (mem_recvsAt_head (by omega))
  have hsum := h.bounded _ hmem (-62) (by rw [hc]; exact awaitResume_etime)
  omega

section Loop

variable {got blank : Bytes} {script : List Completion}

/-- What the loop guarantees when some bytes have been received and others are missing. -/
structure LoopExact (got blank : Bytes) (script : List Completion) : Prop where
  bounded : ∀ x ∈ recvsAt (got ++ blank).length got.length script, ∀ bytes,
    awaitResume x.2.res = .ok bytes → x.1 + (bytes % 2 ^ 64).toNat ≤ (got ++ blank).length
  filled : ∀ out rest, asyncReadExactLoop got.length (got ++ blank) script = .returned out rest →
    out.length = (got ++ blank).length ∧
      ∃ received : List Bytes, script = received.map .recv ++ rest ∧ got ++ received.flatten = out
  ends : asyncReadExactLoop got.length (got ++ blank) script = .waiting →
    script.length < blank.length

theorem loopExact_full (script : List Completion) : LoopExact got [] script := by
  have hdone : asyncReadExactLoop got.length (got ++ []) script = .returned got script := by
    cases script <;> simp [asyncReadExactLoop]
  have hturns : recvsAt (got ++ []).length got.length script = [] := by
    cases script <;> simp [recvsAt]
  refine ⟨?_, ?_, ?_⟩
  · rw [hturns]
    simp
  · intro out rest h
    rw [hdone] at h
    cases h
    exact ⟨by simp, [], rfl, by simp⟩
  · intro h
    rw [hdone] at h
    cases h

/-- The completion that ends the loop with an exception. -/
theorem loopExact_threw {c : Completion} {e : Exc} (hblank : blank ≠ [])
    (hthrows : asyncReadExactLoop got.length (got ++ blank) (c :: script) = .threw e script)
    (hadded : ∀ bytes, awaitResume c.res = .ok bytes → bytes = 0) :
    LoopExact got blank (c :: script) := by
  have hpos : 0 < blank.length := List.length_pos_of_ne_nil hblank
  refine ⟨?_, by simp [hthrows], by simp [hthrows]⟩
  have hturns : recvsAt (got ++ blank).length got.length (c :: script) = [(got.length, c)] := by
    rw [recvsAt, if_pos (by rw [List.length_append]; omega)]
    cases hresume : awaitResume c.res with
    | error e => rfl
    | ok bytes => simp [hadded bytes hresume]
  intro x hx bytes hbytes
  rw [hturns, List.mem_singleton] at hx
  subst hx
  simp [hadded bytes hbytes]

theorem loopExact_recv {chunk : Bytes} (hne : chunk ≠ []) (hfits : chunk.length ≤ blank.length)
    (hsize : (got ++ blank).length < 2 ^ 64)
    (h : LoopExact (got ++ chunk) (blank.drop chunk.length) script) :
    LoopExact got blank (.recv chunk :: script) := by
  have hpos : 0 < chunk.length := List.length_pos_of_ne_nil hne
  have hlength : (got ++ chunk ++ blank.drop chunk.length).length = (got ++ blank).length := by
    simp only [List.length_append, List.length_drop]
    omega
  have hstep := asyncReadExactLoop_recv hne hfits hsize script
  have hturns : recvsAt (got ++ blank).length got.length (.recv chunk :: script) =
      (got.length, .recv chunk) :: recvsAt (got ++ blank).length (got ++ chunk).length script := by
    simp only [List.length_append] at hsize ⊢
    exact recvsAt_recv (by omega) hne (by omega)
  refine ⟨?_, ?_, ?_⟩
  · intro x hx bytes hbytes
    rw [hturns] at hx
    cases List.mem_cons.mp hx with
    | inl hfirst =>
        subst hfirst
        cases hbytes
        simp only [Completion.res, List.length_append] at hsize ⊢
        omega
    | inr hx =>
        rw [← hlength] at hx ⊢
        exact h.bounded x hx bytes hbytes
  · intro out rest hout
    rw [hstep] at hout
    obtain ⟨hfull, received, rfl, rfl⟩ := h.filled out rest hout
    exact ⟨by rw [hfull, hlength], chunk :: received, rfl, by simp⟩
  · intro hwaiting
    rw [hstep] at hwaiting
    have hrest := h.ends hwaiting
    rw [List.length_drop] at hrest
    rw [List.length_cons]
    omega

/-- By induction on the completions; what is missing shrinks with every one that is not an error. -/
theorem loopExact_of_noTimeout (hsize : (got ++ blank).length < 2 ^ 63)
    (hfits : ∀ x ∈ recvsAt (got ++ blank).length got.length script,
      x.2.data.length ≤ (got ++ blank).length - x.1)
    (h : NoTimeout blank.length script) : LoopExact got blank script := by
  induction script generalizing got blank with
  | nil =>
      by_cases hblank : blank = []
      · subst hblank
        exact loopExact_full []
      · have hpos : 0 < blank.length := List.length_pos_of_ne_nil hblank
        have hwaiting : asyncReadExactLoop got.length (got ++ blank) [] = .waiting := by
          rw [asyncReadExactLoop, if_pos (by rw [List.length_append]; omega)]
        exact ⟨by simp [recvsAt], by simp [hwaiting], fun _ => hpos⟩
  | cons c script ih =>
      by_cases hblank : blank = []
      · subst hblank
        exact loopExact_full (c :: script)
      · have hpos : 0 < blank.length := List.length_pos_of_ne_nil hblank
        have hlt : got.length < (got ++ blank).length := by
          rw [List.length_append]
          omega
        cases c with
        | error errno =>
            by_cases hzero : errno = 0
            · subst hzero
              refine loopExact_threw hblank (e := closedByClient) ?_ ?_
              · rw [asyncReadExactLoop, if_pos hlt]
                rfl
              · rintro bytes ⟨⟩
                rfl
            · have hthrows : awaitResume (Completion.error errno).res =
                  .error (.std "io_uring operation failed") := by
                refine if_pos ⟨by simp only [Completion.res]; omega, fun htimeout => ?_⟩
                have hle := h [] (.error errno) script rfl (by simp) htimeout
                simp only [List.flatten_nil, List.length_nil] at hle
                omega
              refine loopExact_threw hblank (e := .std "io_uring operation failed") ?_ ?_
              · rw [asyncReadExactLoop, if_pos hlt, hthrows]
              · intro bytes hbytes
                rw [hthrows] at hbytes
                cases hbytes
        | recv chunk =>
            by_cases hne : chunk = []
            · subst hne
              refine loopExact_threw hblank (e := closedByClient) ?_ ?_
              · rw [asyncReadExactLoop, if_pos hlt]
                rfl
              · rintro bytes ⟨⟩
                rfl
            · have hchunk : chunk.length ≤ blank.length := by
                have hfirst := hfits (got.length, .recv chunk) (mem_recvsAt_head hlt)
                simp only [Completion.data, List.length_append] at hfirst
                omega
              have hlength : (got ++ chunk ++ blank.drop chunk.length).length =
                  (got ++ blank).length := by
                simp only [List.length_append, List.length_drop]
                omega
              refine loopExact_recv hne hchunk (by omega) (ih ?_ ?_ ?_)
              · rw [hlength]
                exact hsize
              · rw [hlength]
                intro x hx
                rw [recvsAt_recv hlt hne (by rw [List.length_append] at hsize; omega)] at hfits
                have hcount : (got ++ chunk).length = got.length + chunk.length :=
                  List.length_append
                rw [hcount] at hx
                exact hfits x (List.mem_cons_of_mem _ hx)
              · rw [List.length_drop]
                exact h.tail hne

end Loop

/-- For every buffer and all completions, `async_read_exact` returns with a full buffer or throws,
and its total stays within the buffer, if and only if the code of an expired timer does not come
before the last byte. The sizes are those of objects, which are below 2^63. -/
theorem asyncReadExact_exact_iff (buffer : Bytes) (hsize : buffer.length < 2 ^ 63)
    (script : List Completion) (hfits : RecvsFit buffer.length script) :
    ReadsExactly buffer script ↔ NoTimeout buffer.length script := by
  constructor
  · exact noTimeout_of_readsExactly hsize
  · intro h
    have hloop : LoopExact [] buffer script := loopExact_of_noTimeout hsize hfits h
    exact ⟨hloop.bounded, hloop.filled, hloop.ends⟩

/-- A header in two pieces, and a code that comes only afterwards. -/
theorem asyncReadExact_exact_pieces :
    ReadsExactly [0, 0, 0] [.recv [7, 8], .recv [9], .error 62] := by
  refine (asyncReadExact_exact_iff [0, 0, 0] (by decide) _ (by unfold RecvsFit; decide)).mpr ?_
  intro chunks c rest hscript hne hc
  match chunks, hscript with
  | [], hscript =>
      cases hscript
      exact absurd hc (by decide)
  | [first], hscript =>
      cases hscript
      exact absurd hc (by decide)
  | [first, second], hscript =>
      cases hscript
      decide
  | first :: second :: third :: chunks, hscript => cases hscript

/-- A 16-byte header is asked for and the first completion has the code of an expired timer: the
read returns with nothing received. -/
theorem not_asyncReadExact_exact :
    ¬ ∀ (buffer : Bytes) (script : List Completion), buffer.length < 2 ^ 63 →
      RecvsFit buffer.length script → ReadsExactly buffer script := by
  intro h
  have hexact := h (List.replicate headerSize 0) [.error 62] (by decide)
    (by unfold RecvsFit; decide)
  obtain ⟨-, received, hscript, -⟩ := hexact.filled (List.replicate headerSize 0) [] rfl
  cases received <;> cases hscript

end Servd
