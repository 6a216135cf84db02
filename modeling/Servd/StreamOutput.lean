import Servd.Writes
import Servd.FrameIO

/-!
The bytes a stream really takes. Every sender hands its encoded frame to
`async_write`, which submits one `send` and returns what it reports; nobody looks at
the count. So a stream holds whole frames exactly as long as the kernel takes every
buffer at once.
-/
namespace Servd

/-- How a `send` completes: the kernel has taken that many bytes of the buffer, or reports an
error and has taken none. -/
inductive SendCompletion
  | accepted (count : Nat)
  | error (errno : Nat)
  deriving DecidableEq

namespace SendCompletion

def res : SendCompletion → Int
  | .accepted count => count
  | .error errno => -errno

/-- The bytes of the buffer that are on the stream afterwards. -/
def taken (buffer : Bytes) : SendCompletion → Bytes
  | .accepted count => buffer.take count
  | .error _ => []

def Possible (buffer : Bytes) : SendCompletion → Prop
  | .accepted count => 0 < count ∧ count ≤ buffer.length
  | .error errno => 0 < errno

instance (buffer : Bytes) : (c : SendCompletion) → Decidable (c.Possible buffer)
  | .accepted count => inferInstanceAs (Decidable (0 < count ∧ count ≤ buffer.length))
  | .error errno => inferInstanceAs (Decidable (0 < errno))

/-- `await_resume` throws: any error but `ETIME`. -/
def throws : SendCompletion → Bool
  | .accepted _ => false
  | .error errno => errno ≠ 62

end SendCompletion

/-- One `send` of the buffer, and no second one. -/
def asyncWrite (_buffer : Bytes) (completion : SendCompletion) : Except Exc Int :=
  awaitResume completion.res

/-- One call of a sender for the connection: `send_frame` on the connection object of either
mode, or the write of `send_to_session` or of a broadcast. -/
inductive SendCall
  | sendFrame (mode : ProtocolMode) (header : FrameHeader) (payload : Bytes)
  | direct (send : Engine.DirectSend)

namespace SendCall

def encoded : SendCall → Bytes
  | .sendFrame mode header payload => encodeFrame mode header payload
  | .direct send => send.bytes

def run (call : SendCall) (completion : SendCompletion) : Except Exc Unit :=
  (asyncWrite call.encoded completion).map fun _ => ()

theorem encoded_ne_nil (call : SendCall) : call.encoded ≠ [] := by
  have binary : ∀ h p, binaryFrame h p ≠ [] := by
    intro h p hnil
    have hlength := congrArg List.length hnil
    simp [binaryFrame, headerSize] at hlength
  cases call with
  | sendFrame mode header payload =>
      cases mode with
      | binary => exact binary header payload
      | text => simp [encoded, encodeFrame, textFrame]
  | direct send => exact binary _ _

end SendCall

def streamBytes (calls : List (SendCall × SendCompletion)) : Bytes :=
  calls.flatMap fun p => p.2.taken p.1.encoded

def encodedFrames (calls : List (SendCall × SendCompletion)) : Bytes :=
  calls.flatMap fun p => p.1.encoded

theorem taken_isPrefix (buffer : Bytes) (completion : SendCompletion) :
    completion.taken buffer <+: buffer := by
  cases completion with
  | accepted count => exact List.take_prefix count buffer
  | error errno => exact List.nil_prefix

theorem taken_eq_iff {buffer : Bytes} {completion : SendCompletion} (hne : buffer ≠ [])
    (h : completion.Possible buffer) :
    completion.taken buffer = buffer ↔ completion = .accepted buffer.length := by
  cases completion with
  | accepted count =>
      simp only [SendCompletion.taken, SendCompletion.accepted.injEq]
      constructor
      · intro htake
        have hlength := congrArg List.length htake
        simp only [List.length_take] at hlength
        have hcount := h.2
        omega
      · intro hcount
        rw [hcount, List.take_length]
  | error errno => exact iff_of_false (fun hnil => hne hnil.symm) (by simp)

theorem flatMap_prefix_eq_iff {α : Type} {f g : α → Bytes} {xs : List α}
    (h : ∀ x ∈ xs, f x <+: g x) : xs.flatMap f = xs.flatMap g ↔ ∀ x ∈ xs, f x = g x := by
  have shorter : ∀ ys : List α, (∀ x ∈ ys, f x <+: g x) →
      (ys.flatMap f).length ≤ (ys.flatMap g).length := by
    intro ys hys
    induction ys with
    | nil => simp
    | cons y ys ih =>
        have hy := (hys y (by simp)).length_le
        have hrest := ih fun x hx => hys x (List.mem_cons_of_mem _ hx)
        simp only [List.flatMap_cons, List.length_append]
        omega
  induction xs with
  | nil => simp
  | cons x xs ih =>
      have hx : f x <+: g x := h x (by simp)
      have hxs : ∀ y ∈ xs, f y <+: g y := fun y hy => h y (List.mem_cons_of_mem _ hy)
      simp only [List.flatMap_cons, List.forall_mem_cons, ← ih hxs]
      constructor
      · intro heq
        have hlength := congrArg List.length heq
        simp only [List.length_append] at hlength
        have hle := hx.length_le
        have hrest := shorter xs hxs
        have hfirst : f x = g x := hx.eq_of_length (by omega)
        rw [hfirst] at heq
        exact ⟨hfirst, List.append_cancel_left heq⟩
      · intro heq
        rw [heq.1, heq.2]

theorem SendCall.run_isOk {call : SendCall} {completion : SendCompletion}
    (h : completion.Possible call.encoded) :
    (call.run completion).isOk = true ↔ completion.throws = false := by
  change ((awaitResume completion.res).map fun _ => ()).isOk = true ↔ _
  cases completion with
  | accepted count =>
      have hok : awaitResume (count : Int) = .ok count := if_neg (by omega)
      rw [SendCompletion.res, hok]
      exact iff_of_true rfl rfl
  | error errno =>
      have hpos : 0 < errno := h
      by_cases he : errno = 62
      · subst he
        exact iff_of_true rfl rfl
      · have hthrow : awaitResume (-(errno : Int)) = .error (.std "io_uring operation failed") :=
          if_pos (by unfold etime; omega)
        rw [SendCompletion.res, hthrow]
        exact iff_of_false (by simp [Except.map, Except.isOk, Except.toBool])
          (by simp [SendCompletion.throws, he])

/-- If no call throws, the stream holds exactly the encoded frames. -/
def WholeFrames (calls : List (SendCall × SendCompletion)) : Prop :=
  (∀ p ∈ calls, (p.1.run p.2).isOk = true) → streamBytes calls = encodedFrames calls

/-- The output is whole frames if and only if a call throws or the kernel took every buffer
at once. -/
theorem wholeFrames_iff (calls : List (SendCall × SendCompletion))
    (hpossible : ∀ p ∈ calls, p.2.Possible p.1.encoded) :
    WholeFrames calls ↔ (∃ p ∈ calls, p.2.throws = true) ∨
      ∀ p ∈ calls, p.2 = .accepted p.1.encoded.length := by
  have hbytes : streamBytes calls = encodedFrames calls ↔
      ∀ p ∈ calls, p.2 = .accepted p.1.encoded.length := by
    unfold streamBytes encodedFrames
    rw [flatMap_prefix_eq_iff fun p _ => taken_isPrefix p.1.encoded p.2]
    exact forall₂_congr fun p hp => taken_eq_iff p.1.encoded_ne_nil (hpossible p hp)
  have hreturned : (∀ p ∈ calls, (p.1.run p.2).isOk = true) ↔
      ¬ ∃ p ∈ calls, p.2.throws = true := by
    rw [forall₂_congr fun p hp => SendCall.run_isOk (hpossible p hp)]
    simp
  unfold WholeFrames
  rw [hbytes, hreturned]
  exact Decidable.imp_iff_or_not.trans (by simp [or_comm])

theorem wholeFrames_two_frames :
    WholeFrames [(.sendFrame .binary ⟨1, 0, 1, 7⟩ [5], .accepted 17),
      (.sendFrame .text ⟨2, 0, 0, 7⟩ [], .accepted 7)] :=
  (wholeFrames_iff _ (by decide +kernel)).mpr (.inr (by decide +kernel))

/-- The kernel takes 10 bytes of the first of two frames; nothing throws, and the second
frame follows the torn one. -/
theorem not_wholeFrames_short_write :
    ¬ ∀ calls, (∀ p ∈ calls, SendCompletion.Possible p.1.encoded p.2) → WholeFrames calls := by
  intro h
  have hwhole := h [(.sendFrame .binary ⟨1, 0, 1, 7⟩ [5], .accepted 10),
    (.sendFrame .binary ⟨1, 0, 1, 7⟩ [6], .accepted 17)] (by decide +kernel) (by decide +kernel)
  exact absurd hwhole (by decide +kernel)

end Servd
