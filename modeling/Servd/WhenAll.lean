import Mathlib.Algebra.Order.Group.Nat
import Mathlib.Algebra.Order.Group.Int
import Mathlib.Data.Fintype.Card
import Mathlib.Data.Finset.Card
import Servd.Lib.Transition

/-!
`when_all`. The awaiter resumes the wrappers of the tasks one after the other, and
each wrapper counts down when its task is done: while the wrappers are still being
resumed the awaiter finds the count at the end of its loop, and later the wrapper
that counts down to zero continues the caller. The count is an `int`, and so is the
loop variable with which the vector form creates the wrappers.
-/
namespace Servd.WhenAll

open Transition

/-- The two overloads. -/
inductive Form
  | vector | tuple
  deriving DecidableEq

/-- `static_cast<int>(n)`. -/
def toInt (n : Nat) : Int :=
  if n % 2 ^ 32 < 2 ^ 31 then (n % 2 ^ 32 : Nat) else (n % 2 ^ 32 : Nat) - 2 ^ 32

def intMin : Int := -2 ^ 31

/-- The number of wrappers that are created for `n` tasks. -/
def Form.wrappers : Form → Nat → Nat
  | .vector, n => (toInt n).toNat
  | .tuple, n => n

inductive Status
  | created | running | completed
  deriving DecidableEq

/-- The state shared by the awaiter and the wrappers. -/
structure State (n : Nat) (T : Fin n → Type) (E : Type) where
  remaining : Int
  error : Option E := none
  started : Bool := false
  slots : (i : Fin n) → Option (T i)
  -- the wrappers that the loop of `await_suspend` has resumed
  resumed : Nat := 0
  status : Fin n → Status
  -- a signed overflow has happened
  undefined : Bool := false
  -- ghost: how often the caller has been continued
  continuations : Nat := 0

inductive Label (n : Nat)
  -- the loop of `await_suspend` resumes the next wrapper
  | resume
  -- a task is done, inside the resumption of some wrapper or after the loop
  | complete (i : Fin n)
  -- the loop has ended and `await_suspend` returns
  | suspend

variable {n : Nat} {T : Fin n → Type} {E : Type}

/-- The state in `await_suspend`, with the caller stored. -/
def init (n : Nat) (T : Fin n → Type) (E : Type) : State n T E where
  remaining := toInt n
  slots := fun _ => none
  status := fun _ => .created

namespace State

/-- The rest of a wrapper: the value goes into its slot, or the exception into the state. -/
def store (s : State n T E) (i : Fin n) : Except E (T i) → State n T E
  | .ok value => { s with slots := Function.update s.slots i (some value) }
  | .error e => { s with error := some e }

/-- `FinalAwaiter::await_suspend`. -/
def finalSuspend (s : State n T E) : State n T E :=
  if s.remaining = intMin then { s with undefined := true }
  else
    { s with
      remaining := s.remaining - 1
      continuations := s.continuations +
        if s.remaining - 1 = 0 ∧ s.started = true then 1 else 0 }

/-- `await_resume`: nothing if it dereferences an empty slot. -/
def awaitResume (s : State n T E) : Option (Except E ((i : Fin n) → T i)) :=
  match s.error with
  | some e => some (.error e)
  | none =>
      if h : ∀ i, (s.slots i).isSome = true then some (.ok fun i => (s.slots i).get (h i))
      else none

end State

def step (form : Form) (outcomes : (i : Fin n) → Except E (T i)) (s : State n T E) :
    Label n → Option (State n T E × List Unit)
  | .resume =>
      if h : s.resumed < n then
        if s.undefined = false ∧ s.started = false ∧ s.resumed < form.wrappers n then
          some ({ s with
            resumed := s.resumed + 1
            status := Function.update s.status ⟨s.resumed, h⟩ .running }, [])
        else none
      else none
  | .complete i =>
      if s.undefined = false ∧ s.status i = .running then
        some ((({ s with status := Function.update s.status i .completed }).store i
          (outcomes i)).finalSuspend, [])
      else none
  | .suspend =>
      if s.undefined = false ∧ s.started = false ∧ s.resumed = form.wrappers n then
        some ({ s with
          started := true
          continuations := s.continuations + if s.remaining ≠ 0 then 0 else 1 }, [])
      else none

/-- What `when_all` is to do for its tasks, on every schedule: the caller is continued exactly
once, when all tasks are done, with all values in their places or one of the exceptions. -/
structure Delivers (form : Form) (outcomes : (i : Fin n) → Except E (T i)) : Prop where
  defined : ∀ tr s, Trace (step form outcomes) (init n T E) tr s → s.undefined = false
  once : ∀ tr s, Trace (step form outcomes) (init n T E) tr s → s.continuations ≤ 1
  notEarly : ∀ tr s, Trace (step form outcomes) (init n T E) tr s → 0 < s.continuations →
    ∀ i, s.status i = .completed
  bounded : ∀ tr s, Trace (step form outcomes) (init n T E) tr s → tr.length ≤ 2 * n + 1
  continued : ∀ tr s, Trace (step form outcomes) (init n T E) tr s →
    (∀ a, step form outcomes s a = none) → s.continuations = 1
  values : ∀ tr s, Trace (step form outcomes) (init n T E) tr s → 0 < s.continuations →
    ∀ v : (i : Fin n) → T i, (∀ i, outcomes i = .ok (v i)) → s.awaitResume = some (.ok v)
  rethrows : ∀ tr s, Trace (step form outcomes) (init n T E) tr s → 0 < s.continuations →
    (∃ i e, outcomes i = .error e) → ∃ i e, outcomes i = .error e ∧ s.awaitResume = some (.error e)

theorem toInt_of_lt {n : Nat} (h : n < 2 ^ 31) : toInt n = n := by
  unfold toInt
  split <;> omega

theorem toInt_of_ge {n : Nat} (h : 2 ^ 31 ≤ n) : toInt n + 2 ^ 32 ≤ n := by
  unfold toInt
  split <;> omega

theorem intMin_le_toInt (n : Nat) : intMin ≤ toInt n := by
  unfold toInt intMin
  split <;> omega

theorem toInt_le (n : Nat) : toInt n ≤ n := by
  rcases Nat.lt_or_ge n (2 ^ 31) with h | h
  · exact (toInt_of_lt h).le
  · have := toInt_of_ge h
    omega

theorem wrappers_le (form : Form) (n : Nat) : form.wrappers n ≤ n := by
  cases form with
  | vector =>
      have := toInt_le n
      simp only [Form.wrappers]
      omega
  | tuple => exact Nat.le_refl n

theorem wrappers_of_lt (form : Form) {n : Nat} (h : n < 2 ^ 31) : form.wrappers n = n := by
  cases form with
  | vector => rw [Form.wrappers, toInt_of_lt h, Int.toNat_natCast]
  | tuple => rfl

namespace State

variable {s : State n T E} {i : Fin n} {o : Except E (T i)}

@[simp] theorem store_status : (s.store i o).status = s.status := by cases o <;> rfl

@[simp] theorem store_resumed : (s.store i o).resumed = s.resumed := by cases o <;> rfl

@[simp] theorem store_started : (s.store i o).started = s.started := by cases o <;> rfl

@[simp] theorem store_remaining : (s.store i o).remaining = s.remaining := by cases o <;> rfl

@[simp] theorem store_undefined : (s.store i o).undefined = s.undefined := by cases o <;> rfl

@[simp] theorem store_continuations : (s.store i o).continuations = s.continuations := by
  cases o <;> rfl

/-- Only the count, the continuations and the overflow are the final awaiter's business. -/
theorem finalSuspend_frame (s : State n T E) :
    s.finalSuspend.status = s.status ∧ s.finalSuspend.slots = s.slots ∧
      s.finalSuspend.error = s.error ∧ s.finalSuspend.started = s.started ∧
      s.finalSuspend.resumed = s.resumed := by
  unfold finalSuspend
  split <;> exact ⟨rfl, rfl, rfl, rfl, rfl⟩

def completed (s : State n T E) : Finset (Fin n) :=
  Finset.univ.filter fun i => s.status i = .completed

theorem mem_completed : i ∈ s.completed ↔ s.status i = .completed := by
  simp [completed]

end State

/-- Everything a step can do. -/
inductive StepCase (form : Form) (outcomes : (i : Fin n) → Except E (T i)) (s : State n T E) :
    Label n → State n T E → Prop
  | resume (h : s.resumed < n) (hdefined : s.undefined = false) (hstarted : s.started = false)
      (hwrappers : s.resumed < form.wrappers n) :
      StepCase form outcomes s .resume
        { s with
          resumed := s.resumed + 1
          status := Function.update s.status ⟨s.resumed, h⟩ .running }
  | complete (i : Fin n) (hdefined : s.undefined = false) (hrunning : s.status i = .running) :
      StepCase form outcomes s (.complete i)
        (({ s with status := Function.update s.status i .completed } : State n T E).store i
          (outcomes i)).finalSuspend
  | suspend (hdefined : s.undefined = false) (hstarted : s.started = false)
      (hresumed : s.resumed = form.wrappers n) :
      StepCase form outcomes s .suspend
        { s with
          started := true
          continuations := s.continuations + if s.remaining ≠ 0 then 0 else 1 }

variable {form : Form} {outcomes : (i : Fin n) → Except E (T i)} {s s' : State n T E}
  {a : Label n} {evs : List Unit}

theorem step_cases (h : step form outcomes s a = some (s', evs)) :
    StepCase form outcomes s a s' := by
  cases a with
  | resume =>
      simp only [step] at h
      split at h
      · rename_i hn
        split at h
        · rename_i hok
          cases h
          exact .resume hn hok.1 hok.2.1 hok.2.2
        · cases h
      · cases h
  | complete i =>
      simp only [step] at h
      split at h
      · rename_i hok
        cases h
        exact .complete i hok.1 hok.2
      · cases h
  | suspend =>
      simp only [step] at h
      split at h
      · rename_i hok
        cases h
        exact .suspend hok.1 hok.2.1 hok.2.2
      · cases h

/-- A step either resumes a wrapper, completes a task or ends the loop. -/
def progress (s : State n T E) : Nat :=
  s.resumed + s.completed.card + if s.started = true then 1 else 0

theorem completed_of_running {i : Fin n} (h : s.status i = .running)
    (hs' : s'.status = Function.update s.status i .completed) :
    s'.completed.card = s.completed.card + 1 := by
  have hnot : i ∉ s.completed := by
    rw [State.mem_completed, h]
    decide
  have hinsert : s'.completed = insert i s.completed := by
    ext j
    rw [Finset.mem_insert, State.mem_completed, State.mem_completed, hs']
    by_cases hj : j = i
    · subst hj
      simp
    · simp [hj]
  rw [hinsert, Finset.card_insert_of_notMem hnot]

theorem completed_of_created {i : Fin n} (h : s.status i = .created)
    (hs' : s'.status = Function.update s.status i .running) :
    s'.completed = s.completed := by
  ext j
  rw [State.mem_completed, State.mem_completed, hs']
  by_cases hj : j = i
  · subst hj
    simp [h]
  · simp [hj]

/-- What holds in every state, whatever the number of the tasks. -/
structure Consistent (form : Form) (outcomes : (i : Fin n) → Except E (T i)) (s : State n T E) :
    Prop where
  resumed_le : s.resumed ≤ form.wrappers n
  created : ∀ i, s.status i = .created ↔ s.resumed ≤ i.val
  counted : s.undefined = false → s.remaining = toInt n - s.completed.card
  range : intMin ≤ s.remaining
  stored : ∀ i v, outcomes i = .ok v → s.status i = .completed → s.slots i = some v
  failed : ∀ i e, outcomes i = .error e → s.status i = .completed → s.error.isSome = true
  thrown : ∀ e, s.error = some e → ∃ i, outcomes i = .error e
  allResumed : s.started = true → s.resumed = form.wrappers n

theorem consistent_init : Consistent form outcomes (init n T E) := by
  refine ⟨Nat.zero_le _, by simp [init], ?_, intMin_le_toInt n, by simp [init], by simp [init],
    by simp [init], by simp [init]⟩
  intro _
  simp [init, State.completed]

section Complete

/-- The state in which a task that was running is done. -/
theorem complete_frame (s : State n T E) (i : Fin n) (o : Except E (T i)) :
    let s' := (({ s with status := Function.update s.status i .completed } : State n T E).store i
      o).finalSuspend
    s'.status = Function.update s.status i .completed ∧ s'.started = s.started ∧
      s'.resumed = s.resumed := by
  obtain ⟨hstatus, -, -, hstarted, hresumed⟩ := State.finalSuspend_frame
    (({ s with status := Function.update s.status i .completed } : State n T E).store i o)
  exact ⟨by simpa using hstatus, by simpa using hstarted, by simpa using hresumed⟩

theorem complete_slots (s : State n T E) (i : Fin n) (o : Except E (T i)) :
    let s' := (({ s with status := Function.update s.status i .completed } : State n T E).store i
      o).finalSuspend
    (∀ v, o = .ok v → s'.slots = Function.update s.slots i (some v) ∧ s'.error = s.error) ∧
      ∀ e, o = .error e → s'.slots = s.slots ∧ s'.error = some e := by
  obtain ⟨-, hslots, herror, -, -⟩ := State.finalSuspend_frame
    (({ s with status := Function.update s.status i .completed } : State n T E).store i o)
  refine ⟨?_, ?_⟩
  · rintro v rfl
    exact ⟨hslots, herror⟩
  · rintro e rfl
    exact ⟨hslots, herror⟩

theorem complete_count (s : State n T E) (i : Fin n) (o : Except E (T i)) :
    let s' := (({ s with status := Function.update s.status i .completed } : State n T E).store i
      o).finalSuspend
    (s.remaining = intMin → s'.undefined = true ∧ s'.remaining = s.remaining ∧
      s'.continuations = s.continuations) ∧
    (s.remaining ≠ intMin → s'.undefined = s.undefined ∧ s'.remaining = s.remaining - 1 ∧
      s'.continuations =
        s.continuations + if s.remaining - 1 = 0 ∧ s.started = true then 1 else 0) := by
  unfold State.finalSuspend
  refine ⟨?_, ?_⟩
  · intro h
    rw [if_pos (by simpa using h)]
    exact ⟨rfl, by simp, by simp⟩
  · intro h
    rw [if_neg (by simpa using h)]
    exact ⟨by simp, by simp, by simp⟩

end Complete

theorem Consistent.resume (h : Consistent form outcomes s) (hn : s.resumed < n)
    (hstarted : s.started = false) (hwrappers : s.resumed < form.wrappers n) :
    Consistent form outcomes
      { s with
        resumed := s.resumed + 1
        status := Function.update s.status ⟨s.resumed, hn⟩ .running } := by
  have hcreated : s.status ⟨s.resumed, hn⟩ = .created := (h.created _).mpr (Nat.le_refl _)
  -- the wrapper that is resumed was the first one not yet resumed
  have hstatus : ∀ i, Function.update s.status ⟨s.resumed, hn⟩ .running i = .completed →
      s.status i = .completed := by
    intro i hi
    by_cases hself : i = ⟨s.resumed, hn⟩
    · simp [hself] at hi
    · simpa [hself] using hi
  refine ⟨hwrappers, ?_, ?_, h.range, fun i v ho hi => h.stored i v ho (hstatus i hi),
    fun i e ho hi => h.failed i e ho (hstatus i hi), h.thrown, ?_⟩
  · intro i
    by_cases hself : i = ⟨s.resumed, hn⟩
    · subst hself
      simp
    · have hne : i.val ≠ s.resumed := fun hi => hself (Fin.ext hi)
      simp only [Function.update_of_ne hself, h.created]
      omega
  · intro hdefined
    rw [completed_of_created hcreated rfl]
    exact h.counted hdefined
  · intro hon
    rw [hstarted] at hon
    cases hon

theorem Consistent.complete (h : Consistent form outcomes s) {i : Fin n}
    (hdefined : s.undefined = false) (hrunning : s.status i = .running) :
    Consistent form outcomes
      (({ s with status := Function.update s.status i .completed } : State n T E).store i
        (outcomes i)).finalSuspend := by
  obtain ⟨hstatus, hstarted, hresumed⟩ := complete_frame s i (outcomes i)
  obtain ⟨hvalue, herror⟩ := complete_slots s i (outcomes i)
  obtain ⟨hoverflow, hcount⟩ := complete_count s i (outcomes i)
  generalize (({ s with status := Function.update s.status i .completed } : State n T E).store i
    (outcomes i)).finalSuspend = s' at *
  have hother : ∀ j, j ≠ i → s'.status j = s.status j := by
    intro j hj
    rw [hstatus, Function.update_of_ne hj]
  constructor
  case resumed_le => exact hresumed ▸ h.resumed_le
  case created =>
    intro j
    rw [hresumed]
    by_cases hj : j = i
    · subst hj
      have hnot : ¬ s.resumed ≤ j.val := fun hle => by
        rw [(h.created j).mpr hle] at hrunning
        cases hrunning
      simp [hstatus, hnot]
    · rw [hother j hj, h.created]
  case counted =>
    intro hdef
    by_cases hmin : s.remaining = intMin
    · rw [(hoverflow hmin).1] at hdef
      cases hdef
    · rw [(hcount hmin).2.1, completed_of_running hrunning hstatus, h.counted hdefined]
      omega
  case range =>
    have hrange := h.range
    by_cases hmin : s.remaining = intMin
    · rw [(hoverflow hmin).2.1]
      exact hrange
    · rw [(hcount hmin).2.1]
      omega
  case stored =>
    intro j v ho hj
    by_cases hji : j = i
    · subst hji
      rw [(hvalue v ho).1, Function.update_self]
    · have hslot := h.stored j v ho (hother j hji ▸ hj)
      cases hoi : outcomes i with
      | ok w => rw [(hvalue w hoi).1, Function.update_of_ne hji, hslot]
      | error e => rw [(herror e hoi).1, hslot]
  case failed =>
    intro j e ho hj
    cases hoi : outcomes i with
    | ok w =>
        have hji : j ≠ i := by
          rintro rfl
          rw [ho] at hoi
          cases hoi
        rw [(hvalue w hoi).2]
        exact h.failed j e ho (hother j hji ▸ hj)
    | error e' => rw [(herror e' hoi).2, Option.isSome_some]
  case thrown =>
    intro e he
    cases hoi : outcomes i with
    | ok w =>
        rw [(hvalue w hoi).2] at he
        exact h.thrown e he
    | error e' =>
        rw [(herror e' hoi).2] at he
        cases he
        exact ⟨i, hoi⟩
  case allResumed =>
    intro hon
    rw [hresumed]
    exact h.allResumed (hstarted ▸ hon)

theorem consistent_step (h : Consistent form outcomes s)
    (hs : step form outcomes s a = some (s', evs)) : Consistent form outcomes s' := by
  cases step_cases hs with
  | resume hn hdefined hstarted hwrappers => exact h.resume hn hstarted hwrappers
  | complete i hdefined hrunning => exact h.complete hdefined hrunning
  | suspend hdefined hstarted hresumed =>
      exact ⟨h.resumed_le, h.created, h.counted, h.range, h.stored, h.failed, h.thrown,
        fun _ => hresumed⟩

theorem progress_step (h : Consistent form outcomes s)
    (hs : step form outcomes s a = some (s', evs)) : progress s' = progress s + 1 := by
  cases step_cases hs with
  | resume hn hdefined hstarted hwrappers =>
      have hcreated : s.status ⟨s.resumed, hn⟩ = .created := (h.created _).mpr (Nat.le_refl _)
      unfold progress
      rw [completed_of_created hcreated rfl]
      simp only
      omega
  | complete i hdefined hrunning =>
      obtain ⟨hstatus, hstarted, hresumed⟩ := complete_frame s i (outcomes i)
      simp only [progress, completed_of_running hrunning hstatus, hstarted, hresumed]
      omega
  | suspend hdefined hstarted hresumed =>
      change s.resumed + s.completed.card + 1 = progress s + 1
      simp [progress, hstarted]

/-- Below the range of the count, which is then the number of the tasks not yet done. -/
structure Countdown (s : State n T E) : Prop where
  defined : s.undefined = false
  continued : s.continuations = if s.started = true ∧ s.remaining = 0 then 1 else 0

theorem remaining_pos (h : Consistent form outcomes s) (hn : n < 2 ^ 31)
    (hdefined : s.undefined = false) {i : Fin n} (hi : s.status i ≠ .completed) :
    0 < s.remaining := by
  have hcard : s.completed.card < n := by
    have hlt : s.completed.card < (Finset.univ : Finset (Fin n)).card :=
      Finset.card_lt_card ⟨Finset.subset_univ _, fun hsub =>
        hi (State.mem_completed.mp (hsub (Finset.mem_univ i)))⟩
    rwa [Finset.card_fin] at hlt
  rw [h.counted hdefined, toInt_of_lt hn]
  omega

theorem countdown_step (h : Consistent form outcomes s) (hn : n < 2 ^ 31) (hc : Countdown s)
    (hs : step form outcomes s a = some (s', evs)) : Countdown s' := by
  cases step_cases hs with
  | resume _ hdefined hstarted _ => exact ⟨hdefined, hc.continued⟩
  | suspend hdefined hstarted hresumed =>
      refine ⟨hdefined, ?_⟩
      simp only [hc.continued, hstarted]
      by_cases hzero : s.remaining = 0 <;> simp [hzero]
  | complete i hdefined hrunning =>
      have hpos : 0 < s.remaining := remaining_pos h hn hdefined (by rw [hrunning]; decide)
      have hmin : s.remaining ≠ intMin := by
        unfold intMin
        omega
      obtain ⟨-, hstarted, -⟩ := complete_frame s i (outcomes i)
      obtain ⟨hdef, hrem, hcont⟩ := (complete_count s i (outcomes i)).2 hmin
      refine ⟨hdef.trans hdefined, ?_⟩
      rw [hcont, hstarted, hrem, hc.continued, if_neg (by omega)]
      simp [and_comm]

section Runs

variable {tr : List (Step (State n T E) (Label n) Unit)}

theorem consistent_run (h : Trace (step form outcomes) (init n T E) tr s) :
    Consistent form outcomes s :=
  (h.always (Consistent form outcomes) consistent_init
    fun _ _ _ _ hinv hs => consistent_step hinv hs).1

theorem countdown_run (hn : n < 2 ^ 31) (h : Trace (step form outcomes) (init n T E) tr s) :
    Countdown s := by
  induction h with
  | nil => exact ⟨rfl, rfl⟩
  | snoc htr hs ih => exact countdown_step (consistent_run htr) hn ih hs

theorem length_run (h : Trace (step form outcomes) (init n T E) tr s) :
    tr.length = progress s := by
  induction h with
  | nil => simp [progress, init, State.completed]
  | snoc htr hs ih =>
      rw [progress_step (consistent_run htr) hs, List.length_append, ih]
      rfl

theorem bounded_run (h : Trace (step form outcomes) (init n T E) tr s) :
    tr.length ≤ 2 * n + 1 := by
  have hresumed := Nat.le_trans (consistent_run h).resumed_le (wrappers_le form n)
  have hcard : s.completed.card ≤ n := by
    simpa using Finset.card_le_univ s.completed
  rw [length_run h, progress]
  split <;> omega

/-- Where no step is possible, all wrappers have been resumed and their tasks are done. -/
theorem stuck_cases (h : Consistent form outcomes s) (hdefined : s.undefined = false)
    (hstuck : ∀ a, step form outcomes s a = none) :
    s.started = true ∧ ∀ i : Fin n, i.val < form.wrappers n → s.status i = .completed := by
  have hw := wrappers_le form n
  have hresumed : s.started = false → s.resumed = form.wrappers n := by
    intro hoff
    by_contra hne
    have hlt : s.resumed < form.wrappers n := lt_of_le_of_ne h.resumed_le hne
    have hnone := hstuck .resume
    simp only [step] at hnone
    rw [dif_pos (by omega), if_pos ⟨hdefined, hoff, hlt⟩] at hnone
    cases hnone
  have hstarted : s.started = true := by
    cases hon : s.started with
    | true => rfl
    | false =>
        have hnone := hstuck .suspend
        simp only [step] at hnone
        rw [if_pos ⟨hdefined, hon, hresumed hon⟩] at hnone
        cases hnone
  refine ⟨hstarted, ?_⟩
  intro i hi
  cases hstatus : s.status i with
  | created =>
      have hle := (h.created i).mp hstatus
      rw [h.allResumed hstarted] at hle
      omega
  | running =>
      have hnone := hstuck (.complete i)
      simp only [step] at hnone
      rw [if_pos ⟨hdefined, hstatus⟩] at hnone
      cases hnone
  | completed => rfl

end Runs

section Below

variable {tr : List (Step (State n T E) (Label n) Unit)}

theorem completed_of_continued (hn : n < 2 ^ 31)
    (h : Trace (step form outcomes) (init n T E) tr s) (hcontinued : 0 < s.continuations) :
    ∀ i, s.status i = .completed := by
  have hc := countdown_run hn h
  intro i
  by_contra hi
  have hpos := remaining_pos (consistent_run h) hn hc.defined hi
  rw [hc.continued, if_neg (by omega)] at hcontinued
  cases hcontinued

theorem continued_of_stuck (hn : n < 2 ^ 31)
    (h : Trace (step form outcomes) (init n T E) tr s)
    (hstuck : ∀ a, step form outcomes s a = none) : s.continuations = 1 := by
  have hc := countdown_run hn h
  obtain ⟨hstarted, hdone⟩ := stuck_cases (consistent_run h) hc.defined hstuck
  have hall : s.completed = Finset.univ := by
    ext i
    rw [State.mem_completed, hdone i (by rw [wrappers_of_lt form hn]; exact i.isLt)]
    simp
  have hzero : s.remaining = 0 := by
    rw [(consistent_run h).counted hc.defined, hall, Finset.card_fin, toInt_of_lt hn]
    omega
  rw [hc.continued, if_pos ⟨hstarted, hzero⟩]

theorem awaitResume_values (h : Consistent form outcomes s)
    (hdone : ∀ i, s.status i = .completed) {v : (i : Fin n) → T i}
    (hv : ∀ i, outcomes i = .ok (v i)) : s.awaitResume = some (.ok v) := by
  have herror : s.error = none := by
    cases he : s.error with
    | none => rfl
    | some e =>
        obtain ⟨i, hi⟩ := h.thrown e he
        rw [hv i] at hi
        cases hi
  have hslot : ∀ i, s.slots i = some (v i) := fun i => h.stored i (v i) (hv i) (hdone i)
  simp [State.awaitResume, herror, hslot]

theorem awaitResume_rethrows (h : Consistent form outcomes s)
    (hdone : ∀ i, s.status i = .completed) (hthrew : ∃ i e, outcomes i = .error e) :
    ∃ i e, outcomes i = .error e ∧ s.awaitResume = some (.error e) := by
  obtain ⟨i, e, hi⟩ := hthrew
  obtain ⟨e', he'⟩ := Option.isSome_iff_exists.mp (h.failed i e hi (hdone i))
  obtain ⟨j, hj⟩ := h.thrown e' he'
  exact ⟨j, e', hj, by simp [State.awaitResume, he']⟩

theorem delivers_of_lt (hn : n < 2 ^ 31) : Delivers form outcomes where
  defined := fun _ _ h => (countdown_run hn h).defined
  once := by
    intro tr s h
    rw [(countdown_run hn h).continued]
    split <;> omega
  notEarly := fun _ _ h hcontinued => completed_of_continued hn h hcontinued
  bounded := fun _ _ h => bounded_run h
  continued := fun _ _ h hstuck => continued_of_stuck hn h hstuck
  values := fun _ _ h hcontinued _ hv =>
    awaitResume_values (consistent_run h) (completed_of_continued hn h hcontinued) hv
  rethrows := fun _ _ h hcontinued hthrew =>
    awaitResume_rethrows (consistent_run h) (completed_of_continued hn h hcontinued) hthrew

end Below

/-- From `2^31` tasks on the vector form has no wrapper for the last one, and the tuple form
counts down past the least `int`. -/
theorem lt_of_delivers (h : Delivers form outcomes) : n < 2 ^ 31 := by
  by_contra hge
  have hint := toInt_of_ge (Nat.le_of_not_lt hge)
  have hbound : ∀ tr s, Trace (step form outcomes) (init n T E) tr s → tr.length ≤ 2 * n + 1 :=
    fun _ _ htr => bounded_run htr
  obtain ⟨tr, s, htr, hstuck⟩ := exists_stuck hbound
  have hs := consistent_run htr
  have hdefined := h.defined tr s htr
  obtain ⟨hstarted, hdone⟩ := stuck_cases hs hdefined hstuck
  have hcontinued := h.continued tr s htr hstuck
  have hall := h.notEarly tr s htr (by omega)
  cases form with
  | vector =>
      have hlast := (hs.created ⟨n - 1, by omega⟩).mpr (by
        have hle := hs.resumed_le
        simp only [Form.wrappers] at hle
        simp only
        omega)
      rw [hall] at hlast
      cases hlast
  | tuple =>
      have hcompleted : s.completed = Finset.univ := by
        ext i
        simp [State.mem_completed, hall i]
      have hcount := hs.counted hdefined
      have hrange := hs.range
      rw [hcompleted, Finset.card_fin] at hcount
      unfold intMin at hrange
      omega

/-- For every number of tasks and every assignment of outcomes, `when_all` delivers on every
schedule exactly if the number of the tasks is an `int`. -/
theorem delivers_iff (form : Form) (n : Nat) (T : Fin n → Type) (E : Type)
    (outcomes : (i : Fin n) → Except E (T i)) : Delivers form outcomes ↔ n < 2 ^ 31 :=
  ⟨lt_of_delivers, delivers_of_lt⟩

/-- A vector of `2^31` tasks: no wrapper is created, and the caller waits forever. -/
theorem not_delivers_vector :
    ¬ ∀ (n : Nat) (outcomes : Fin n → Except String Unit), Delivers .vector outcomes := by
  intro h
  exact absurd (lt_of_delivers (h (2 ^ 31) fun _ => .ok ())) (by decide)

end Servd.WhenAll
