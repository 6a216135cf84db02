import Servd.FrameIO
import Servd.TaskReaders

/-!
The reading coroutines as they are nested in each other: `read_frame` and `read_text_line`
await `async_read_exact`, which awaits `async_read`, which waits for the completion of a
`recv`. Each of them has a frame of its own. Run by the event loop, next to any number of
others, they read the frames that the readers of `FrameIO` read.
-/
namespace Servd.TaskReads

open Transition TaskFrames

/-- What the coroutines return; a `recv` leaves its bytes in the caller's buffer, and they are
returned here with their number. -/
structure Value where
  bytes : Int := 0
  data : Bytes := []
  frame : ClientFrame := ⟨⟨0, 0, 0, 0⟩, []⟩
  deriving Inhabited

/-- The points where the coroutines begin and where they go on; each has the descriptor that it was
called for. -/
inductive Code
  | asyncRead (fd : Fd) (size : Nat)
  | asyncReadGot (fd : Fd) (c : Completion)
  | asyncReadExact (fd : Fd) (totalRead : Nat) (buffer : Bytes)
  | asyncReadExactGot (fd : Fd) (totalRead : Nat) (buffer : Bytes) (outcome : Except Exc Value)
  | readFrame (fd : Fd)
  | readFrameHeader (fd : Fd) (outcome : Except Exc Value)
  | readFramePayload (fd : Fd) (header : FrameHeader) (outcome : Except Exc Value)
  | readTextLine (fd : Fd) (c : UInt8) (line : Bytes)
  | readTextLineGot (fd : Fd) (c : UInt8) (line : Bytes) (outcome : Except Exc Value)
  | readTextFrame (fd : Fd)
  | readTextFrameHeader (fd : Fd) (outcome : Except Exc Value)
  | readTextFramePayload (fd : Fd) (cmd : UInt16) (sid : UInt64) (outcome : Except Exc Value)

namespace Code

def fd : Code → Fd
  | .asyncRead fd _ | .asyncReadGot fd _ | .asyncReadExact fd _ _ | .asyncReadExactGot fd _ _ _
  | .readFrame fd | .readFrameHeader fd _ | .readFramePayload fd _ _ | .readTextLine fd _ _
  | .readTextLineGot fd _ _ _ | .readTextFrame fd | .readTextFrameHeader fd _
  | .readTextFramePayload fd _ _ _ => fd

end Code

/-- `io_uring_prep_recv`, for so many bytes. -/
structure Recv where
  fd : Fd
  size : Nat
  deriving DecidableEq

abbrev ReadInstr := Instr Code Recv Completion Value Exc

def asyncReadGot (c : Completion) : Except Exc Value :=
  (awaitResume c.res).map fun bytes => { bytes := bytes, data := c.data }

/-- Nothing in these bodies catches an exception. -/
def onValue (outcome : Except Exc Value) (f : Value → ReadInstr) : ReadInstr :=
  match outcome with
  | .ok v => f v
  | .error e => .throw e

def asyncReadExactTurn (fd : Fd) (totalRead : Nat) (buffer : Bytes) : ReadInstr :=
  if totalRead < buffer.length then
    .await (.asyncRead fd (buffer.length - totalRead)) (.asyncReadExactGot fd totalRead buffer)
  else .coReturn { data := buffer }

def readTextLineTurn (fd : Fd) (c : UInt8) (line : Bytes) : ReadInstr :=
  .await (.asyncReadExact fd 0 [c]) (.readTextLineGot fd c line)

def instr (names : CommandNames) : Code → ReadInstr
  | .asyncRead fd size => .operation ⟨fd, size⟩ (.asyncReadGot fd)
  | .asyncReadGot _ c => onValue (asyncReadGot c) .coReturn
  | .asyncReadExact fd totalRead buffer => asyncReadExactTurn fd totalRead buffer
  | .asyncReadExactGot fd totalRead buffer outcome =>
      onValue outcome fun v =>
        if v.bytes = 0 then .throw (.std "Connection closed by client")
        else asyncReadExactTurn fd ((totalRead + v.bytes) % 2 ^ 64).toNat
          (store buffer totalRead v.data)
  | .readFrame fd =>
      .await (.asyncReadExact fd 0 (List.replicate headerSize 0)) (.readFrameHeader fd)
  | .readFrameHeader fd outcome =>
      onValue outcome fun v =>
        let h := FrameHeader.ofBytes v.data
        let payload := List.replicate h.payloadLength.toNat 0
        if 0 < h.payloadLength then .await (.asyncReadExact fd 0 payload) (.readFramePayload fd h)
        else .coReturn { frame := ⟨h, payload⟩ }
  | .readFramePayload _ h outcome =>
      onValue outcome fun v => .coReturn { frame := ⟨h, v.data⟩ }
  | .readTextLine fd c line => readTextLineTurn fd c line
  | .readTextLineGot fd c line outcome =>
      onValue outcome fun v =>
        if v.data.headD c = newline then .coReturn { data := line }
        else readTextLineTurn fd (v.data.headD c) (line ++ [v.data.headD c])
  | .readTextFrame fd => .await (.readTextLine fd 0 []) (.readTextFrameHeader fd)
  | .readTextFrameHeader fd outcome =>
      onValue outcome fun v =>
        match parseTextHeader names v.data with
        | none => .coReturn {}
        | some (cmd, sid) => .await (.readTextLine fd 0 []) (.readTextFramePayload fd cmd sid)
  | .readTextFramePayload _ cmd sid outcome =>
      onValue outcome fun v =>
        let length := size32 v.data
        .coReturn { frame := ⟨⟨cmd, 0, length, sid⟩, v.data.take length.toNat⟩ }

/-- They share nothing but the names of the commands, which do not change. -/
def code (names : CommandNames) (g : Unit) (c : Code) : Unit × ReadInstr := (g, instr names c)

/-- `read_text_line` from some point on. -/
def readTextLineFrom (c : UInt8) (line : Bytes) : IoReader Bytes := fun script =>
  readTextLineLoop (script.length + 1) c line script

/-- An exception goes to the caller. -/
def onOutcome (outcome : Except Exc Value) (f : Value → IoReader Value) : IoReader Value :=
  match outcome with
  | .ok v => f v
  | .error e => .throw e

def toData (r : IoReader Bytes) : IoReader Value := do
  let data ← r
  pure { data := data }

def toFrame (r : IoReader ClientFrame) : IoReader Value := do
  let frame ← r
  pure { frame := frame }

/-- What is left to read at a point. -/
def meaning (names : CommandNames) : Code → IoReader Value
  | .asyncRead _ _ => .receive fun c => .ofExcept (asyncReadGot c)
  | .asyncReadGot _ c => .ofExcept (asyncReadGot c)
  | .asyncReadExact _ totalRead buffer => toData (asyncReadExactLoop totalRead buffer)
  | .asyncReadExactGot _ totalRead buffer outcome =>
      onOutcome outcome fun v =>
        if v.bytes = 0 then .throw (.std "Connection closed by client")
        else toData (asyncReadExactLoop ((totalRead + v.bytes) % 2 ^ 64).toNat
          (store buffer totalRead v.data))
  | .readFrame _ => toFrame Servd.readFrame
  | .readFrameHeader _ outcome =>
      onOutcome outcome fun v =>
        let h := FrameHeader.ofBytes v.data
        let payload := List.replicate h.payloadLength.toNat 0
        if 0 < h.payloadLength then
          toFrame do
            let payload ← Servd.asyncReadExact payload
            pure ⟨h, payload⟩
        else .ret { frame := ⟨h, payload⟩ }
  | .readFramePayload _ h outcome =>
      onOutcome outcome fun v => .ret { frame := ⟨h, v.data⟩ }
  | .readTextLine _ c line => toData (readTextLineFrom c line)
  | .readTextLineGot _ c line outcome =>
      onOutcome outcome fun v =>
        if v.data.headD c = newline then .ret { data := line }
        else toData (readTextLineFrom (v.data.headD c) (line ++ [v.data.headD c]))
  | .readTextFrame _ => toFrame (Servd.readTextFrame names)
  | .readTextFrameHeader _ outcome =>
      onOutcome outcome fun v =>
        match parseTextHeader names v.data with
        | none => .ret {}
        | some (cmd, sid) =>
            toFrame do
              let payloadLine ← Servd.readTextLine
              pure ⟨⟨cmd, 0, size32 payloadLine, sid⟩,
                payloadLine.take (size32 payloadLine).toNat⟩
  | .readTextFramePayload _ cmd sid outcome =>
      onOutcome outcome fun v =>
        .ret { frame := ⟨⟨cmd, 0, size32 v.data, sid⟩, v.data.take (size32 v.data).toNat⟩ }

/-- A reader that goes on with what another one has read, as a coroutine that awaits it. -/
theorem toFrame_bind (r : IoReader Bytes) (f : Bytes → IoReader ClientFrame) :
    toFrame (r >>= f) =
      (toData r).tryBind fun outcome => onOutcome outcome fun v => toFrame (f v.data) := by
  funext script
  change Reader.bind (Reader.bind r f) _ script = Reader.tryBind (Reader.bind r _) _ script
  unfold Reader.bind Reader.tryBind
  dsimp only
  cases r script <;> rfl

theorem asyncReadExactLoop_length {totalRead : Nat} {buffer out : Bytes}
    {script rest : List Completion}
    (h : asyncReadExactLoop totalRead buffer script = .returned out rest) :
    rest.length ≤ script.length := by
  induction script generalizing totalRead buffer with
  | nil =>
      rw [asyncReadExactLoop] at h
      split at h <;> cases h
      exact Nat.le_refl _
  | cons c script ih =>
      rw [asyncReadExactLoop] at h
      split at h
      · cases hres : awaitResume c.res with
        | error e =>
            rw [hres] at h
            cases h
        | ok bytes =>
            rw [hres] at h
            dsimp only at h
            split at h
            · cases h
            · exact Nat.le_succ_of_le (ih h)
      · cases h
        exact Nat.le_refl _

/-- A byte is not read without a completion. -/
theorem asyncReadExact_byte_length {c : UInt8} {out : Bytes} {script rest : List Completion}
    (h : asyncReadExact [c] script = .returned out rest) : rest.length < script.length := by
  cases script with
  | nil => cases h
  | cons d script =>
      rw [asyncReadExact, asyncReadExactLoop, if_pos (by simp)] at h
      cases hres : awaitResume d.res with
      | error e =>
          rw [hres] at h
          cases h
      | ok bytes =>
          rw [hres] at h
          dsimp only at h
          split at h
          · cases h
          · exact Nat.lt_succ_of_le (asyncReadExactLoop_length h)

/-- The fuel does not matter, as long as there is more of it than there are completions. -/
theorem readTextLineLoop_eq (fuel : Nat) (c : UInt8) (line : Bytes) (script : List Completion)
    (hfuel : script.length < fuel) :
    readTextLineLoop fuel c line script = readTextLineFrom c line script := by
  induction fuel using Nat.strongRecOn generalizing c line script with
  | ind fuel ih =>
      cases fuel with
      | zero => cases hfuel
      | succ fuel =>
          change Reader.bind (asyncReadExact [c]) _ script =
            Reader.bind (asyncReadExact [c]) _ script
          unfold Reader.bind
          cases hr : asyncReadExact [c] script with
          | threw _ _ | waiting => rfl
          | returned buffer rest =>
              have hrest := asyncReadExact_byte_length hr
              dsimp only
              split
              · rfl
              · rw [ih fuel (Nat.lt_succ_self _) _ _ rest (by omega),
                  ih script.length hfuel _ _ rest hrest]

section Means

variable {names : CommandNames}

theorem means_onValue {outcome : Except Exc Value} {f : Value → ReadInstr}
    {r : Value → IoReader Value} (h : ∀ v, (f v).Means (meaning names) (r v)) :
    (onValue outcome f).Means (meaning names) (onOutcome outcome r) := by
  cases outcome with
  | ok v => exact h v
  | error e => rfl

theorem means_asyncReadExactTurn (fd : Fd) (totalRead : Nat) (buffer : Bytes) :
    (asyncReadExactTurn fd totalRead buffer).Means (meaning names)
      (toData (asyncReadExactLoop totalRead buffer)) := by
  unfold asyncReadExactTurn
  split
  · rename_i hlt
    refine funext fun script => ?_
    change Reader.bind (asyncReadExactLoop totalRead buffer) _ script = _
    cases script with
    | nil =>
        simp only [Reader.bind, asyncReadExactLoop, if_pos hlt]
        rfl
    | cons c script =>
        simp only [Reader.bind, asyncReadExactLoop, if_pos hlt, meaning, Reader.tryBind_receive,
          Reader.receive, Reader.tryBind_ofExcept, asyncReadGot]
        cases hres : awaitResume c.res with
        | error e => rfl
        | ok bytes =>
            simp only [Except.map, onOutcome]
            by_cases hbytes : bytes = 0
            · rw [if_pos hbytes, if_pos hbytes]
              rfl
            · rw [if_neg hbytes, if_neg hbytes]
              rfl
  · rename_i hlt
    refine funext fun script => ?_
    change Reader.bind (asyncReadExactLoop totalRead buffer) _ script = _
    cases script with
    | nil | cons _ _ =>
        simp only [Reader.bind, asyncReadExactLoop, if_neg hlt]
        rfl

theorem means_readTextLineTurn (fd : Fd) (c : UInt8) (line : Bytes) :
    (readTextLineTurn fd c line).Means (meaning names) (toData (readTextLineFrom c line)) := by
  refine funext fun script => ?_
  change Reader.bind (Reader.bind (asyncReadExact [c]) _) _ script =
    Reader.tryBind (Reader.bind (asyncReadExact [c]) _) _ script
  unfold Reader.bind Reader.tryBind
  dsimp only
  cases hr : asyncReadExact [c] script with
  | threw _ _ | waiting => rfl
  | returned buffer rest =>
      have hrest := asyncReadExact_byte_length hr
      simp only [Reader.pure_apply, onOutcome, meaning]
      by_cases hnewline : buffer.headD c = newline
      · rw [if_pos hnewline, if_pos hnewline]
        rfl
      · rw [if_neg hnewline, if_neg hnewline,
          readTextLineLoop_eq script.length _ _ rest hrest]
        rfl

theorem means (names : CommandNames) : Means (code names) (meaning names) := by
  intro g point
  cases point with
  | asyncRead fd size => rfl
  | asyncReadGot fd c =>
      change (onValue (asyncReadGot c) .coReturn).Means _ (.ofExcept (asyncReadGot c))
      cases asyncReadGot c <;> rfl
  | asyncReadExact fd totalRead buffer => exact means_asyncReadExactTurn fd totalRead buffer
  | asyncReadExactGot fd totalRead buffer outcome =>
      refine means_onValue fun v => ?_
      split
      · rfl
      · exact means_asyncReadExactTurn _ _ _
  | readFrame fd =>
      refine (toFrame_bind _ _).trans (congrArg (Reader.tryBind _) (funext fun outcome => ?_))
      cases outcome with
      | error e => rfl
      | ok v =>
          simp only [onOutcome, meaning]
          split
          · rfl
          · rfl
  | readFrameHeader fd outcome =>
      refine means_onValue fun v => ?_
      dsimp only
      split
      · exact toFrame_bind _ _
      · rfl
  | readFramePayload fd h outcome => exact means_onValue fun v => rfl
  | readTextLine fd c line => exact means_readTextLineTurn fd c line
  | readTextLineGot fd c line outcome =>
      refine means_onValue fun v => ?_
      split
      · rfl
      · exact means_readTextLineTurn _ _ _
  | readTextFrame fd =>
      refine (toFrame_bind _ _).trans (congrArg (Reader.tryBind _) (funext fun outcome => ?_))
      cases outcome with
      | error e => rfl
      | ok v =>
          simp only [onOutcome, meaning]
          cases parseTextHeader names v.data with
          | none => rfl
          | some x => rfl
  | readTextFrameHeader fd outcome =>
      refine means_onValue fun v => ?_
      cases parseTextHeader names v.data with
      | none => rfl
      | some x => exact toFrame_bind _ _
  | readTextFramePayload fd cmd sid outcome => exact means_onValue fun v => rfl

end Means

/-- Every coroutine reads from the descriptor that it was called for. -/
theorem keeps (names : CommandNames) : Keeps Code.fd Recv.fd (code names) := by
  have hvalue : ∀ {outcome : Except Exc Value} {f : Value → ReadInstr} {fd : Fd},
      (∀ v, (f v).Keeps Code.fd Recv.fd fd) → (onValue outcome f).Keeps Code.fd Recv.fd fd := by
    intro outcome f fd h
    cases outcome with
    | ok v => exact h v
    | error e => trivial
  have hexact : ∀ fd totalRead buffer,
      (asyncReadExactTurn fd totalRead buffer).Keeps Code.fd Recv.fd fd := by
    intro fd totalRead buffer
    unfold asyncReadExactTurn
    split
    · exact ⟨rfl, fun _ => rfl⟩
    · trivial
  intro g point
  cases point with
  | asyncRead fd size | readFrame fd | readTextLine fd c line | readTextFrame fd =>
      exact ⟨rfl, fun _ => rfl⟩
  | asyncReadGot _ _ | readFramePayload _ _ _ | readTextFramePayload _ _ _ _ =>
      exact hvalue fun _ => trivial
  | asyncReadExact fd totalRead buffer => exact hexact fd totalRead buffer
  | asyncReadExactGot fd totalRead buffer outcome =>
      refine hvalue fun v => ?_
      split
      · trivial
      · exact hexact _ _ _
  | readFrameHeader fd outcome =>
      refine hvalue fun v => ?_
      dsimp only
      split
      · exact ⟨rfl, fun _ => rfl⟩
      · trivial
  | readTextLineGot fd c line outcome =>
      refine hvalue fun v => ?_
      split
      · trivial
      · exact ⟨rfl, fun _ => rfl⟩
  | readTextFrameHeader fd outcome =>
      refine hvalue fun v => ?_
      split
      · trivial
      · exact ⟨rfl, fun _ => rfl⟩

/-- Call `i`, which reads from `fd`, has ended as a reading says and has no operation in the ring,
or it has not ended because the reading waits, and one `recv` of its own is in the ring. -/
def Stands (b : Books Recv Completion Value Exc) (i : Nat) (fd : Fd) :
    Reading Completion Exc ClientFrame → Prop
  | .returned frame rest =>
      ((∃ v, (i, .ok v) ∈ b.ended ∧ v.frame = frame) ∧ b.ringOf i = []) ∧ rest = []
  | .threw e rest => ((i, .error e) ∈ b.ended ∧ b.ringOf i = []) ∧ rest = []
  | .waiting => i ∉ b.ended.map (·.1) ∧ ∃ size, b.ringOf i = [⟨fd, size⟩]

theorem stands_of_meaning {b : Books Recv Completion Value Exc} {names : CommandNames} {i : Nat}
    (root : Code) {r : IoReader ClientFrame} (hmeaning : meaning names root = toFrame r)
    (h : b.Stands Code.fd Recv.fd (meaning names) i root) :
    Stands b i root.fd (r (Books.shareOf b.taken i)) := by
  rw [Books.Stands, hmeaning] at h
  generalize Books.shareOf b.taken i = script at h
  cases hr : r script with
  | returned frame rest =>
      have htoFrame : toFrame r script = .returned { frame := frame } rest :=
        Reader.bind_of_returned hr _
      rw [htoFrame] at h
      rcases h with ⟨outcome, hmem, hring, heq⟩ | ⟨-, -, heq⟩
      · cases outcome with
        | ok v =>
            cases heq
            exact ⟨⟨⟨_, hmem, rfl⟩, hring⟩, rfl⟩
        | error e => cases heq
      · cases heq
  | threw e rest =>
      have htoFrame : toFrame r script = .threw e rest := Reader.bind_of_threw hr _
      rw [htoFrame] at h
      rcases h with ⟨outcome, hmem, hring, heq⟩ | ⟨-, -, heq⟩
      · cases outcome with
        | ok v => cases heq
        | error e =>
            cases heq
            exact ⟨⟨hmem, hring⟩, rfl⟩
      · cases heq
  | waiting =>
      have htoFrame : toFrame r script = .waiting := by
        change Reader.bind r _ script = _
        simp only [Reader.bind, hr]
      rw [htoFrame] at h
      rcases h with ⟨outcome, -, -, heq⟩ | ⟨hnot, ⟨⟨fd, size⟩, hring, hfd⟩, -⟩
      · cases outcome <;> cases heq
      · exact ⟨hnot, size, hfd ▸ hring⟩

/-- Any number of connections read at once. When the event loop waits, every `read_frame` and every
`read_text_frame` that was called has made of the completions of its own operations what its
reader makes of them, and one `recv` on its own descriptor is in the ring for each that has not
ended. -/
theorem frames_read_on_runtime (names : CommandNames)
    (tr : List (Step (Machine Unit Code Recv Completion Value Exc)
      (TaskFrames.Label Code Completion) (TaskFrames.Event Recv Value Exc)))
    (m : Machine Unit Code Recv Completion Value Exc)
    (h : Trace (Machine.step (code names)) (.start ()) tr m) (hidle : m.stack = []) :
    (booksOf tr).ring.map (·.2) = m.ring.map (·.2) ∧
      (booksOf tr).taken.map (·.2.2) = completionsOf tr ∧
      (booksOf tr).ended.map (·.2) = outcomesOf tr ∧ ((booksOf tr).ended.map (·.1)).Nodup ∧
      ∀ i fd,
        ((callsOf tr)[i]? = some (.readFrame fd) →
          Stands (booksOf tr) i fd (readFrame (Books.shareOf (booksOf tr).taken i))) ∧
        ((callsOf tr)[i]? = some (.readTextFrame fd) →
          Stands (booksOf tr) i fd (readTextFrame names (Books.shareOf (booksOf tr).taken i))) := by
  obtain ⟨hring, hcompletions, houtcomes, hnodup, hread⟩ :=
    coroutines_read_their_completions (means names) (keeps names) () tr m h hidle
  refine ⟨hring, hcompletions, houtcomes, hnodup, fun i fd => ⟨?_, ?_⟩⟩
  · exact fun hi => stands_of_meaning (.readFrame fd) rfl (hread i _ hi)
  · exact fun hi => stands_of_meaning (.readTextFrame fd) rfl (hread i _ hi)

/-- Two connections and then a third one: a header comes in two parts, and between them an empty
line on the other connection. -/
def readingLabels : List (TaskFrames.Label Code Completion) :=
  [.call (.readFrame 5), .run, .run, .run, .call (.readTextFrame 6), .run, .run, .run, .run,
    .complete 0 (.recv (List.replicate 10 0)), .run, .run, .run,
    .complete 0 (.recv [newline]), .run, .run, .run, .run,
    .complete 0 (.recv (List.replicate 6 0)), .run, .run, .run,
    .call (.readFrame 7), .run, .run, .run]

theorem frames_read_on_runtime_two : ∃ tr m,
    Trace (Machine.step (code ∅)) (.start ()) tr m ∧ tr.map (·.label) = readingLabels ∧
      m.ring.map (·.2) = [⟨7, 16⟩] ∧ (booksOf tr).ended.map (·.1) = [1, 0] ∧
      Stands (booksOf tr) 0 5
        (readFrame [.recv (List.replicate 10 0), .recv (List.replicate 6 0)]) ∧
      Stands (booksOf tr) 1 6 (readTextFrame ∅ [.recv [newline]]) ∧
      Stands (booksOf tr) 2 7 (readFrame []) := by
  obtain ⟨tr, m, htr, hlabels, hidle, hring, hended, hfirst, hsecond, hthird⟩ :=
    exists_labelled_trace (Machine.step (code ∅)) (.start ()) readingLabels
    (fun tr m => m.stack.length = 0 ∧ m.ring.map (·.2) = [⟨7, 16⟩] ∧
      (booksOf tr).ended.map (·.1) = [1, 0] ∧ Books.shareOf (booksOf tr).taken 0 =
        [.recv (List.replicate 10 0), .recv (List.replicate 6 0)] ∧
      Books.shareOf (booksOf tr).taken 1 = [.recv [newline]] ∧
      Books.shareOf (booksOf tr).taken 2 = [])
    (by decide +kernel)
  have hcalls : callsOf tr = readingLabels.filterMap TaskFrames.Label.task := by
    rw [← hlabels, List.filterMap_map]
    rfl
  have hread := (frames_read_on_runtime ∅ tr m htr (List.eq_nil_of_length_eq_zero hidle)).2.2.2.2
  rw [hcalls] at hread
  exact ⟨tr, m, htr, hlabels, hring, hended, hfirst ▸ (hread 0 5).1 rfl,
    hsecond ▸ (hread 1 6).2 rfl, hthird ▸ (hread 2 7).1 rfl⟩

end Servd.TaskReads
