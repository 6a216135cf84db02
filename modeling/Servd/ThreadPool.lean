import Mathlib.Data.List.Nodup
import Mathlib.Data.List.Range
import Servd.Lib.Transition

/-!
The thread pool. `enqueue` pushes a function and awaits it: `await_ready` and
`await_suspend` look at what the call shares with the worker that runs the function,
each in a critical section of its own, and the worker publishes its result in
another. A label is one critical section, or the run of a function between two of
them, so the traces are their interleavings. Whichever comes first, the coroutine
goes on once, with the result of its function.
-/
namespace Servd.ThreadPool

open Transition

/-- Where the coroutine of an `enqueue` is: it has pushed its function, `await_ready` was false,
it is suspended, or it has gone on, without suspending or after it. -/
inductive Phase
  | pushed | notReady | suspended | passed | resumed
  deriving DecidableEq

/-- One call of `enqueue`: what its coroutine and its function share, and the coroutine. -/
structure Job (R E : Type) where
  result : Option R := none
  error : Option E := none
  done : Bool := false
  waiter : Bool := false
  phase : Phase := .pushed
  -- posts that the event loop has not taken up
  pending : Nat := 0
  -- ghost: how the runs of the function have ended
  runs : List (Except E R) := []
  -- ghost: calls of `post_cb`, or of `resume` if there is none, for the coroutine
  posts : Nat := 0
  -- ghost: what `await_resume` gave each time the coroutine went on
  continuations : List (Option (Except E R)) := []

inductive Worker (R E : Type)
  | waiting
  | holding (k : Nat)
  | ran (k : Nat) (outcome : Except E R)
  | exited

structure Pool (R E : Type) where
  workers : List (Worker R E)
  tasks : List Nat := []
  stop : Bool := false
  jobs : List (Job R E) := []
  -- ghost: the functions dequeued so far
  dequeued : List Nat := []

variable {R E : Type}

namespace Job

def start : Job R E := {}

/-- `await_resume`: nothing if it dereferences an empty result. -/
def awaitResume (job : Job R E) : Option (Except E R) :=
  match job.error with
  | some e => some (.error e)
  | none => job.result.map .ok

def goOn (job : Job R E) (phase : Phase) : Job R E :=
  { job with phase := phase, continuations := job.continuations ++ [job.awaitResume] }

def awaitReady (job : Job R E) : Job R E :=
  if job.done = true then job.goOn .passed else { job with phase := .notReady }

def awaitSuspend (job : Job R E) : Job R E :=
  if job.done = true then ({ job with waiter := true } : Job R E).goOn .passed
  else { job with waiter := true, phase := .suspended }

def settle (job : Job R E) : Except E R → Job R E
  | .ok value => { job with result := some value, done := true }
  | .error e => { job with error := some e, done := true }

/-- The end of the function's wrapper, under the mutex of the call. -/
def publish (postCb : Bool) (job : Job R E) (outcome : Except E R) : Job R E :=
  if (job.settle outcome).waiter = true then
    if postCb then
      { job.settle outcome with posts := job.posts + 1, pending := job.pending + 1 }
    else ({ job.settle outcome with posts := job.posts + 1 } : Job R E).goOn .resumed
  else job.settle outcome

/-- The event loop resumes the coroutine of a post. -/
def deliver (job : Job R E) : Job R E :=
  ({ job with pending := job.pending - 1 } : Job R E).goOn .resumed

end Job

inductive Label (R E : Type)
  | push
  | awaitReady (k : Nat)
  | awaitSuspend (k : Nat)
  | dequeue (w : Nat)
  -- the function returns or throws
  | run (w : Nat) (outcome : Except E R)
  | publish (w : Nat)
  | deliver (k : Nat)
  | stop
  -- `worker_loop` returns
  | exit (w : Nat)

namespace Pool

def start (threadCount : Nat) : Pool R E where
  workers := List.replicate threadCount .waiting

def setJob (s : Pool R E) (k : Nat) (job : Job R E) : Pool R E :=
  { s with jobs := s.jobs.set k job }

def setWorker (s : Pool R E) (w : Nat) (worker : Worker R E) : Pool R E :=
  { s with workers := s.workers.set w worker }

/-- One critical section of the coroutine of call `k`, in the phase it is for. -/
def onJob (s : Pool R E) (k : Nat) (allowed : Job R E → Bool) (f : Job R E → Job R E) :
    Option (Pool R E × List Unit) :=
  s.jobs[k]?.bind fun job => if allowed job then some (s.setJob k (f job), []) else none

def step (postCb : Bool) (s : Pool R E) : Label R E → Option (Pool R E × List Unit)
  | .push =>
      some ({ s with jobs := s.jobs ++ [Job.start], tasks := s.tasks ++ [s.jobs.length] }, [])
  | .awaitReady k => s.onJob k (·.phase = .pushed) Job.awaitReady
  | .awaitSuspend k => s.onJob k (·.phase = .notReady) Job.awaitSuspend
  | .deliver k => s.onJob k (0 < ·.pending) Job.deliver
  | .dequeue w =>
      match s.workers[w]?, s.tasks with
      | some .waiting, k :: rest =>
          some ({ s.setWorker w (.holding k) with
            tasks := rest, dequeued := s.dequeued ++ [k] }, [])
      | _, _ => none
  | .run w outcome =>
      match s.workers[w]? with
      | some (.holding k) =>
          s.jobs[k]?.map fun job =>
            ((s.setWorker w (.ran k outcome)).setJob k
              { job with runs := job.runs ++ [outcome] }, [])
      | _ => none
  | .publish w =>
      match s.workers[w]? with
      | some (.ran k outcome) =>
          s.jobs[k]?.map fun job =>
            ((s.setWorker w .waiting).setJob k (job.publish postCb outcome), [])
      | _ => none
  | .stop => some ({ s with stop := true }, [])
  | .exit w =>
      match s.workers[w]? with
      | some .waiting =>
          if s.stop = true ∧ s.tasks = [] then some (s.setWorker w .exited, []) else none
      | _ => none

end Pool

/-- What is shared about a call whose function has ended. -/
def Job.settled (outcome : Except E R) : Job R E :=
  ({ runs := [outcome] } : Job R E).settle outcome

/-- The states a call can be in. Either its function has not been published, or it has and the
coroutine has not looked, has been posted, has gone on without suspending, or after a post. -/
inductive Sound (postCb : Bool) : Job R E → Prop
  | unpublished (runs : List (Except E R)) (hruns : runs.length ≤ 1) {waiter : Bool}
      {phase : Phase} (hphase : phase = .pushed ∧ waiter = false ∨
        phase = .notReady ∧ waiter = false ∨ phase = .suspended ∧ waiter = true) :
      Sound postCb { waiter := waiter, phase := phase, runs := runs }
  | unseen (outcome : Except E R) {phase : Phase} (hphase : phase = .pushed ∨ phase = .notReady) :
      Sound postCb { Job.settled outcome with phase := phase }
  | posted (outcome : Except E R) (hcb : postCb = true) :
      Sound postCb { Job.settled outcome with
        waiter := true, phase := .suspended, posts := 1, pending := 1 }
  | passed (outcome : Except E R) (waiter : Bool) :
      Sound postCb { Job.settled outcome with
        waiter := waiter, phase := .passed, continuations := [some outcome] }
  | resumed (outcome : Except E R) :
      Sound postCb { Job.settled outcome with
        waiter := true, phase := .resumed, posts := 1, continuations := [some outcome] }

@[simp] theorem Job.settled_done (outcome : Except E R) : (Job.settled outcome).done = true := by
  cases outcome <;> rfl

namespace Sound

variable {postCb : Bool} {job : Job R E}

theorem awaitReady (h : Sound postCb job) (hphase : job.phase = .pushed) :
    Sound postCb job.awaitReady := by
  cases h with
  | unpublished runs hruns hp =>
      rcases hp with ⟨rfl, rfl⟩ | ⟨rfl, rfl⟩ | ⟨rfl, rfl⟩
      · exact .unpublished runs hruns (.inr (.inl ⟨rfl, rfl⟩))
      · cases hphase
      · cases hphase
  | unseen outcome hp =>
      cases outcome with
      | ok v => exact .passed (.ok v) false
      | error e => exact .passed (.error e) false
  | posted _ _ | passed _ _ | resumed _ => cases hphase

theorem awaitSuspend (h : Sound postCb job) (hphase : job.phase = .notReady) :
    Sound postCb job.awaitSuspend := by
  cases h with
  | unpublished runs hruns hp => exact .unpublished runs hruns (.inr (.inr ⟨rfl, rfl⟩))
  | unseen outcome hp =>
      cases outcome with
      | ok v => exact .passed (.ok v) true
      | error e => exact .passed (.error e) true
  | posted _ _ | passed _ _ | resumed _ => cases hphase

theorem run (h : Sound postCb job) (hdone : job.done = false) (hruns : job.runs = [])
    (outcome : Except E R) : Sound postCb { job with runs := job.runs ++ [outcome] } := by
  cases h with
  | unpublished runs hlength hp =>
      change runs = [] at hruns
      subst hruns
      exact .unpublished [outcome] (Nat.le_refl 1) hp
  | unseen _ _ | posted _ _ | passed _ _ | resumed _ => simp at hdone

theorem publish (h : Sound postCb job) (hdone : job.done = false) {outcome : Except E R}
    (hruns : job.runs = [outcome]) : Sound postCb (job.publish postCb outcome) := by
  cases h with
  | unpublished runs hlength hp =>
      change runs = [outcome] at hruns
      subst hruns
      rcases hp with ⟨rfl, rfl⟩ | ⟨rfl, rfl⟩ | ⟨rfl, rfl⟩
      · cases outcome with
        | ok v => exact .unseen (.ok v) (.inl rfl)
        | error e => exact .unseen (.error e) (.inl rfl)
      · cases outcome with
        | ok v => exact .unseen (.ok v) (.inr rfl)
        | error e => exact .unseen (.error e) (.inr rfl)
      · cases postCb with
        | true =>
            cases outcome with
            | ok v => exact .posted (.ok v) rfl
            | error e => exact .posted (.error e) rfl
        | false =>
            cases outcome with
            | ok v => exact .resumed (.ok v)
            | error e => exact .resumed (.error e)
  | unseen _ _ | posted _ _ | passed _ _ | resumed _ => simp at hdone

theorem deliver (h : Sound postCb job) (hpending : 0 < job.pending) :
    Sound postCb job.deliver := by
  cases h with
  | posted outcome hcb =>
      cases outcome with
      | ok v => exact .resumed (.ok v)
      | error e => exact .resumed (.error e)
  | unpublished _ _ _ => cases hpending
  | unseen outcome _ | passed outcome _ | resumed outcome => cases outcome <;> cases hpending

end Sound

theorem Job.awaitReady_frame (job : Job R E) :
    job.awaitReady.done = job.done ∧ job.awaitReady.runs = job.runs := by
  unfold awaitReady
  split <;> exact ⟨rfl, rfl⟩

theorem Job.awaitSuspend_frame (job : Job R E) :
    job.awaitSuspend.done = job.done ∧ job.awaitSuspend.runs = job.runs := by
  unfold awaitSuspend
  split <;> exact ⟨rfl, rfl⟩

theorem Job.publish_done (postCb : Bool) (job : Job R E) (outcome : Except E R) :
    (job.publish postCb outcome).done = true := by
  unfold publish
  split
  · split <;> cases outcome <;> rfl
  · cases outcome <;> rfl

def Worker.job : Worker R E → Option Nat
  | .holding k => some k
  | .ran k _ => some k
  | .waiting | .exited => none

/-- The runs there have been of the function a worker has. -/
def Worker.runs : Worker R E → List (Except E R)
  | .ran _ outcome => [outcome]
  | .waiting | .holding _ | .exited => []

/-- What holds in every state of a pool. -/
structure Inv (postCb : Bool) (s : Pool R E) : Prop where
  order : s.dequeued ++ s.tasks = List.range s.jobs.length
  sound : ∀ (k : Nat) job, s.jobs[k]? = some job → Sound postCb job
  queued : ∀ k ∈ s.tasks, ∀ job, s.jobs[k]? = some job → job.done = false ∧ job.runs = []
  held : ∀ (w : Nat) worker k, s.workers[w]? = some worker → worker.job = some k → k ∈ s.dequeued ∧
    ∀ job, s.jobs[k]? = some job → job.done = false ∧ job.runs = worker.runs
  distinct : ∀ (w w' : Nat) worker worker' k, s.workers[w]? = some worker →
    s.workers[w']? = some worker' → worker.job = some k → worker'.job = some k → w = w'
  kept : ∀ k ∈ s.dequeued, (∃ (w : Nat) (worker : Worker R E), s.workers[w]? = some worker ∧
    worker.job = some k) ∨ ∀ job, s.jobs[k]? = some job → job.done = true
  stopped : ∀ w : Nat, s.workers[w]? = some .exited → s.stop = true

theorem getElem?_set_iff {α : Type} {l : List α} {i j : Nat} {a b c : α} (h : l[i]? = some c) :
    (l.set i a)[j]? = some b ↔ (j = i ∧ b = a) ∨ (j ≠ i ∧ l[j]? = some b) := by
  have hi : i < l.length := (List.getElem?_eq_some_iff.mp h).1
  by_cases hij : j = i
  · subst hij
    simp [hi, eq_comm]
  · simp [hij, List.getElem?_set_ne (Ne.symm hij)]

/-- A function that some other worker has stays with it. -/
theorem exists_job_set {workers : List (Worker R E)} {w j : Nat} {worker worker' : Worker R E}
    (hw : workers[w]? = some worker) (hne : worker.job ≠ some j)
    (h : ∃ (v : Nat) (u : Worker R E), workers[v]? = some u ∧ u.job = some j) :
    ∃ (v : Nat) (u : Worker R E), (workers.set w worker')[v]? = some u ∧ u.job = some j := by
  obtain ⟨v, u, hv, hjob⟩ := h
  have hvw : v ≠ w := by
    rintro rfl
    rw [hw] at hv
    cases hv
    exact hne hjob
  exact ⟨v, u, (getElem?_set_iff hw).mpr (.inr ⟨hvw, hv⟩), hjob⟩

namespace Inv

variable {postCb : Bool} {s : Pool R E}

theorem lt_of_mem_tasks (h : Inv postCb s) {k : Nat} (hk : k ∈ s.tasks) : k < s.jobs.length :=
  List.mem_range.mp (h.order ▸ List.mem_append_right _ hk)

theorem lt_of_mem_dequeued (h : Inv postCb s) {k : Nat} (hk : k ∈ s.dequeued) :
    k < s.jobs.length :=
  List.mem_range.mp (h.order ▸ List.mem_append_left _ hk)

theorem not_mem_dequeued (h : Inv postCb s) {k : Nat} (hk : k ∈ s.tasks) : k ∉ s.dequeued := by
  have hnodup : (s.dequeued ++ s.tasks).Nodup := h.order ▸ List.nodup_range
  exact fun hd => List.disjoint_of_nodup_append hnodup hd hk

/-- No two workers have one function, if the function a worker takes is not another's. -/
theorem distinct_setWorker (h : Inv postCb s) {w : Nat} {worker worker' : Worker R E}
    (hw : s.workers[w]? = some worker)
    (hfree : ∀ (v : Nat) (u : Worker R E) (j : Nat), v ≠ w → s.workers[v]? = some u →
      worker'.job = some j → u.job ≠ some j) :
    ∀ (v v' : Nat) (u u' : Worker R E) (j : Nat), (s.workers.set w worker')[v]? = some u →
      (s.workers.set w worker')[v']? = some u' → u.job = some j → u'.job = some j → v = v' := by
  intro v v' u u' j hv hv' hj hj'
  rcases (getElem?_set_iff hw).mp hv with ⟨rfl, rfl⟩ | ⟨hne, hold⟩
  · rcases (getElem?_set_iff hw).mp hv' with ⟨rfl, rfl⟩ | ⟨hne', hold'⟩
    · rfl
    · exact absurd hj' (hfree v' u' j hne' hold' hj)
  · rcases (getElem?_set_iff hw).mp hv' with ⟨rfl, rfl⟩ | ⟨hne', hold'⟩
    · exact absurd hj (hfree v u j hne hold hj')
    · exact h.distinct v v' u u' j hold hold' hj hj'

/-- A critical section of a coroutine changes nothing that the workers rely on. -/
theorem setJob (h : Inv postCb s) {k : Nat} {job job' : Job R E} (hk : s.jobs[k]? = some job)
    (hsound : Sound postCb job') (hframe : job'.done = job.done ∧ job'.runs = job.runs) :
    Inv postCb (s.setJob k job') := by
  have hold : ∀ (j : Nat) (g : Job R E), (s.jobs.set k job')[j]? = some g →
      ∃ g', s.jobs[j]? = some g' ∧ g.done = g'.done ∧ g.runs = g'.runs := by
    intro j g hg
    rcases (getElem?_set_iff hk).mp hg with ⟨rfl, rfl⟩ | ⟨-, hg⟩
    · exact ⟨job, hk, hframe⟩
    · exact ⟨g, hg, rfl, rfl⟩
  refine ⟨?_, ?_, ?_, ?_, h.distinct, ?_, h.stopped⟩
  · simpa [Pool.setJob] using h.order
  · intro j g hg
    rcases (getElem?_set_iff hk).mp hg with ⟨-, rfl⟩ | ⟨-, hg⟩
    · exact hsound
    · exact h.sound j g hg
  · intro j hj g hg
    obtain ⟨g', hg', hd, hr⟩ := hold j g hg
    rw [hd, hr]
    exact h.queued j hj g' hg'
  · intro w worker j hw hj
    refine ⟨(h.held w worker j hw hj).1, ?_⟩
    intro g hg
    obtain ⟨g', hg', hd, hr⟩ := hold j g hg
    rw [hd, hr]
    exact (h.held w worker j hw hj).2 g' hg'
  · intro j hj
    refine (h.kept j hj).imp_right ?_
    intro hdone g hg
    obtain ⟨g', hg', hd, -⟩ := hold j g hg
    rw [hd]
    exact hdone g' hg'

theorem push (h : Inv postCb s) :
    Inv postCb { s with jobs := s.jobs ++ [Job.start], tasks := s.tasks ++ [s.jobs.length] } := by
  have hold : ∀ (j : Nat) (g : Job R E), (s.jobs ++ [Job.start])[j]? = some g → j < s.jobs.length →
      s.jobs[j]? = some g := by
    intro j g hg hj
    rwa [List.getElem?_append_left hj] at hg
  have hnew : ∀ (g : Job R E), (s.jobs ++ [Job.start])[s.jobs.length]? = some g → g = Job.start := by
    intro g hg
    simpa [eq_comm] using hg
  refine ⟨?_, ?_, ?_, ?_, h.distinct, ?_, h.stopped⟩
  · rw [← List.append_assoc, h.order, List.length_append, List.length_singleton, List.range_succ]
  · intro j g hg
    rcases Nat.lt_or_ge j s.jobs.length with hj | hj
    · exact h.sound j g (hold j g hg hj)
    · have hlt : j < (s.jobs ++ [Job.start]).length := (List.getElem?_eq_some_iff.mp hg).1
      rw [List.length_append, List.length_singleton] at hlt
      obtain rfl : j = s.jobs.length := by omega
      rw [hnew g hg]
      exact .unpublished [] (Nat.zero_le 1) (.inl ⟨rfl, rfl⟩)
  · intro j hj g hg
    rcases List.mem_append.mp hj with hj | hj
    · exact h.queued j hj g (hold j g hg (h.lt_of_mem_tasks hj))
    · rw [List.mem_singleton.mp hj] at hg
      rw [hnew g hg]
      exact ⟨rfl, rfl⟩
  · intro w worker j hw hj
    obtain ⟨hmem, hjob⟩ := h.held w worker j hw hj
    exact ⟨hmem, fun g hg => hjob g (hold j g hg (h.lt_of_mem_dequeued hmem))⟩
  · intro j hj
    exact (h.kept j hj).imp_right fun hdone g hg =>
      hdone g (hold j g hg (h.lt_of_mem_dequeued hj))

theorem dequeue (h : Inv postCb s) {w k : Nat} {rest : List Nat}
    (hw : s.workers[w]? = some .waiting) (htasks : s.tasks = k :: rest) :
    Inv postCb { s.setWorker w (.holding k) with
      tasks := rest, dequeued := s.dequeued ++ [k] } := by
  have hk : k ∈ s.tasks := by simp [htasks]
  have hnot := h.not_mem_dequeued hk
  -- nobody else has the function that is dequeued
  have hother : ∀ (v : Nat) (worker : Worker R E), s.workers[v]? = some worker →
      worker.job ≠ some k := fun v worker hv hjob => hnot (h.held v worker k hv hjob).1
  refine ⟨?_, h.sound, ?_, ?_, ?_, ?_, ?_⟩
  · simpa [Pool.setWorker, htasks] using h.order
  · intro j hj
    exact h.queued j (by rw [htasks]; exact List.mem_cons_of_mem _ hj)
  · intro v worker j hv hj
    rcases (getElem?_set_iff hw).mp hv with ⟨rfl, rfl⟩ | ⟨-, hv⟩
    · cases hj
      exact ⟨by simp, h.queued k hk⟩
    · obtain ⟨hmem, hjob⟩ := h.held v worker j hv hj
      exact ⟨List.mem_append_left _ hmem, hjob⟩
  · refine h.distinct_setWorker hw fun v u j _ hv hj => ?_
    cases hj
    exact hother v u hv
  · intro j hj
    rcases List.mem_append.mp hj with hj | hj
    · exact (h.kept j hj).imp_left (exists_job_set hw (by simp [Worker.job]))
    · rw [List.mem_singleton.mp hj]
      exact .inl ⟨w, .holding k, (getElem?_set_iff hw).mpr (.inl ⟨rfl, rfl⟩), rfl⟩
  · intro v hv
    rcases (getElem?_set_iff hw).mp hv with ⟨-, hv⟩ | ⟨-, hv⟩
    · cases hv
    · exact h.stopped v hv

/-- The worker that has a function takes its next step with it. -/
theorem setBoth (h : Inv postCb s) {w k : Nat} {worker worker' : Worker R E} {job job' : Job R E}
    (hw : s.workers[w]? = some worker) (hworker : worker.job = some k)
    (hk : s.jobs[k]? = some job) (hsound : Sound postCb job')
    (hexited : worker' ≠ .exited)
    (hnext : worker'.job = some k ∧ job'.done = false ∧ job'.runs = worker'.runs ∨
      worker'.job = none ∧ job'.done = true) :
    Inv postCb ((s.setWorker w worker').setJob k job') := by
  have hmem := (h.held w worker k hw hworker).1
  have hjobs : ∀ (j : Nat) (g : Job R E), j ≠ k → (s.jobs.set k job')[j]? = some g →
      s.jobs[j]? = some g := by
    intro j g hj hg
    rwa [List.getElem?_set_ne (Ne.symm hj)] at hg
  have hself : ∀ g : Job R E, (s.jobs.set k job')[k]? = some g → g = job' := by
    intro g hg
    rcases (getElem?_set_iff hk).mp hg with ⟨-, rfl⟩ | ⟨hne, -⟩
    · rfl
    · exact absurd rfl hne
  -- the other workers have other functions
  have hother : ∀ (v : Nat) (u : Worker R E) (j : Nat), v ≠ w → s.workers[v]? = some u →
      u.job = some j → j ≠ k := by
    rintro v u j hv hu hj rfl
    exact hv (h.distinct v w u worker j hu hw hj hworker)
  constructor
  case order =>
    simpa [Pool.setJob, Pool.setWorker] using h.order
  case sound =>
    intro j g hg
    rcases (getElem?_set_iff hk).mp hg with ⟨-, rfl⟩ | ⟨-, hg⟩
    · exact hsound
    · exact h.sound j g hg
  case queued =>
    intro j hj g hg
    have hne : j ≠ k := by
      rintro rfl
      exact h.not_mem_dequeued hj hmem
    exact h.queued j hj g (hjobs j g hne hg)
  case held =>
    intro v u j hv hj
    rcases (getElem?_set_iff hw).mp hv with ⟨rfl, rfl⟩ | ⟨hne, hv⟩
    · rcases hnext with ⟨hjob, hnotDone, hruns⟩ | ⟨hjob, -⟩
      · rw [hjob] at hj
        cases hj
        refine ⟨hmem, fun g hg => ?_⟩
        rw [hself g hg]
        exact ⟨hnotDone, hruns⟩
      · rw [hjob] at hj
        cases hj
    · obtain ⟨hdeq, hjob⟩ := h.held v u j hv hj
      exact ⟨hdeq, fun g hg => hjob g (hjobs j g (hother v u j hne hv hj) hg)⟩
  case distinct =>
    refine h.distinct_setWorker hw fun v u j hv hu hj huj => ?_
    rcases hnext with ⟨hjob, -⟩ | ⟨hjob, -⟩
    · rw [hjob] at hj
      cases hj
      exact hother v u k hv hu huj rfl
    · rw [hjob] at hj
      cases hj
  case kept =>
    intro j hj
    by_cases hjk : j = k
    · subst hjk
      rcases hnext with ⟨hjob, -⟩ | ⟨-, hdone⟩
      · exact .inl ⟨w, worker', (getElem?_set_iff hw).mpr (.inl ⟨rfl, rfl⟩), hjob⟩
      · refine .inr fun g hg => ?_
        rw [hself g hg]
        exact hdone
    · have hne : worker.job ≠ some j := by
        rw [hworker]
        exact fun heq => hjk (Option.some.inj heq).symm
      rcases h.kept j hj with hheld | hdone
      · exact .inl (exists_job_set hw hne hheld)
      · exact .inr fun g hg => hdone g (hjobs j g hjk hg)
  case stopped =>
    intro v hv
    rcases (getElem?_set_iff hw).mp hv with ⟨-, hv⟩ | ⟨-, hv⟩
    · exact absurd hv.symm hexited
    · exact h.stopped v hv

theorem exit (h : Inv postCb s) {w : Nat} (hw : s.workers[w]? = some .waiting)
    (hstop : s.stop = true) : Inv postCb (s.setWorker w .exited) := by
  refine ⟨h.order, h.sound, h.queued, ?_, ?_, ?_, fun _ _ => hstop⟩
  · intro v u j hv hj
    rcases (getElem?_set_iff hw).mp hv with ⟨-, rfl⟩ | ⟨-, hv⟩
    · cases hj
    · exact h.held v u j hv hj
  · refine h.distinct_setWorker hw fun v u j _ _ hj => ?_
    cases hj
  · intro j hj
    exact (h.kept j hj).imp_left (exists_job_set hw (by simp [Worker.job]))

end Inv

theorem Pool.onJob_eq_some {s s' : Pool R E} {k : Nat} {allowed : Job R E → Bool}
    {f : Job R E → Job R E} {evs : List Unit} (h : s.onJob k allowed f = some (s', evs)) :
    ∃ job, s.jobs[k]? = some job ∧ allowed job = true ∧ s' = s.setJob k (f job) := by
  simp only [onJob, Option.bind_eq_some_iff] at h
  obtain ⟨job, hk, hjob⟩ := h
  split at hjob
  · rename_i hallowed
    cases hjob
    exact ⟨job, hk, hallowed, rfl⟩
  · cases hjob

section Steps

variable {postCb : Bool} {s s' : Pool R E} {evs : List Unit}

theorem inv_run (h : Inv postCb s) {w : Nat} {outcome : Except E R}
    (hs : s.step postCb (.run w outcome) = some (s', evs)) : Inv postCb s' := by
  simp only [Pool.step] at hs
  split at hs
  · rename_i k hw
    obtain ⟨job, hk, hjob⟩ := Option.map_eq_some_iff.mp hs
    cases hjob
    obtain ⟨hdone, hruns⟩ := (h.held w _ k hw rfl).2 job hk
    refine h.setBoth hw rfl hk ((h.sound k job hk).run hdone hruns outcome) (by simp) (.inl ?_)
    exact ⟨rfl, hdone, by rw [hruns]; rfl⟩
  · cases hs

theorem inv_publish (h : Inv postCb s) {w : Nat}
    (hs : s.step postCb (.publish w) = some (s', evs)) : Inv postCb s' := by
  simp only [Pool.step] at hs
  split at hs
  · rename_i k outcome hw
    obtain ⟨job, hk, hjob⟩ := Option.map_eq_some_iff.mp hs
    cases hjob
    obtain ⟨hdone, hruns⟩ := (h.held w _ k hw rfl).2 job hk
    exact h.setBoth hw rfl hk ((h.sound k job hk).publish hdone hruns) (by simp)
      (.inr ⟨rfl, job.publish_done postCb outcome⟩)
  · cases hs

theorem exit_step {w : Nat} (hs : s.step postCb (.exit w) = some (s', evs)) :
    s.workers[w]? = some .waiting ∧ s.stop = true ∧ s.tasks = [] ∧
      s' = s.setWorker w .exited := by
  simp only [Pool.step] at hs
  split at hs
  · rename_i hw
    split at hs
    · rename_i hempty
      cases hs
      exact ⟨hw, hempty.1, hempty.2, rfl⟩
    · cases hs
  · cases hs

theorem inv_step (h : Inv postCb s) {a : Label R E}
    (hs : s.step postCb a = some (s', evs)) : Inv postCb s' := by
  cases a with
  | push =>
      cases hs
      exact h.push
  | awaitReady k =>
      obtain ⟨job, hk, hphase, rfl⟩ := Pool.onJob_eq_some hs
      exact h.setJob hk ((h.sound k job hk).awaitReady (by simpa using hphase))
        job.awaitReady_frame
  | awaitSuspend k =>
      obtain ⟨job, hk, hphase, rfl⟩ := Pool.onJob_eq_some hs
      exact h.setJob hk ((h.sound k job hk).awaitSuspend (by simpa using hphase))
        job.awaitSuspend_frame
  | deliver k =>
      obtain ⟨job, hk, hpending, rfl⟩ := Pool.onJob_eq_some hs
      exact h.setJob hk ((h.sound k job hk).deliver (by simpa using hpending)) ⟨rfl, rfl⟩
  | dequeue w =>
      simp only [Pool.step] at hs
      split at hs
      · rename_i k rest hw htasks
        cases hs
        exact h.dequeue hw htasks
      · cases hs
  | run w outcome => exact inv_run h hs
  | publish w => exact inv_publish h hs
  | stop =>
      cases hs
      exact ⟨h.order, h.sound, h.queued, h.held, h.distinct, h.kept, fun _ _ => rfl⟩
  | exit w =>
      obtain ⟨hw, hstop, -, rfl⟩ := exit_step hs
      exact h.exit hw hstop

theorem inv_start (postCb : Bool) (threadCount : Nat) :
    Inv postCb (Pool.start threadCount : Pool R E) := by
  have hwaiting : ∀ (w : Nat) (worker : Worker R E),
      (List.replicate threadCount Worker.waiting)[w]? = some worker → worker = .waiting := by
    intro w worker hw
    exact (List.mem_replicate.mp (List.mem_of_getElem? hw)).2
  refine ⟨rfl, by simp [Pool.start], by simp [Pool.start], ?_, ?_, by simp [Pool.start], ?_⟩
  · intro w worker k hw hk
    rw [hwaiting w worker hw] at hk
    cases hk
  · intro w w' worker worker' k hw hw' hk hk'
    rw [hwaiting w worker hw] at hk
    cases hk
  · intro w hw
    cases hwaiting w .exited hw

end Steps

/-- The ways a call whose function has ended can be in: its coroutine has not come to its
suspension, has gone on without suspending, or was posted once and goes on when that is taken
up. -/
inductive HandedOver (job : Job R E) : Prop
  | early (hphase : job.phase = .pushed ∨ job.phase = .notReady) (hposts : job.posts = 0)
      (hcontinued : job.continuations = [])
  | passed (hphase : job.phase = .passed) (hposts : job.posts = 0)
      (hcontinued : job.continuations.length = 1)
  | posted (hphase : job.phase = .suspended) (hposts : job.posts = 1) (hpending : job.pending = 1)
      (hcontinued : job.continuations = [])
  | resumed (hphase : job.phase = .resumed) (hposts : job.posts = 1) (hpending : job.pending = 0)
      (hcontinued : job.continuations.length = 1)

/-- What the handoff guarantees for a run of the pool and the state it ends in. -/
structure Handoff (tr : List (Step (Pool R E) (Label R E) Unit)) (s : Pool R E) : Prop where
  inOrder : s.dequeued ++ s.tasks = List.range s.jobs.length
  kept : ∀ k < s.jobs.length, k ∈ s.tasks ∨
    (∃ (w : Nat) (worker : Worker R E), s.workers[w]? = some worker ∧ worker.job = some k) ∨
    ∀ job, s.jobs[k]? = some job → job.done = true
  exits : ∀ x ∈ tr, ∀ w, x.label = .exit w → x.pre.stop = true ∧ x.pre.tasks = [] ∧
    x.pre.dequeued = List.range x.pre.jobs.length
  runOnce : ∀ (k : Nat) job, s.jobs[k]? = some job → job.runs.length ≤ 1
  unpublished : ∀ (k : Nat) job, s.jobs[k]? = some job → job.done = false →
    job.posts = 0 ∧ job.continuations = []
  handedOver : ∀ (k : Nat) job, s.jobs[k]? = some job → job.done = true → HandedOver job
  observed : ∀ (k : Nat) job, s.jobs[k]? = some job → ∀ x ∈ job.continuations,
    ∃ outcome, job.runs = [outcome] ∧ x = some outcome

namespace Sound

variable {postCb : Bool} {job : Job R E}

theorem runs_length (h : Sound postCb job) : job.runs.length ≤ 1 := by
  cases h with
  | unpublished runs hruns _ => exact hruns
  | unseen outcome _ | posted outcome _ | passed outcome _ | resumed outcome =>
      cases outcome <;> exact Nat.le_refl 1

theorem unpublished_of (h : Sound postCb job) (hdone : job.done = false) :
    job.posts = 0 ∧ job.continuations = [] := by
  cases h with
  | unpublished _ _ _ => exact ⟨rfl, rfl⟩
  | unseen _ _ | posted _ _ | passed _ _ | resumed _ => simp at hdone

theorem handedOver (h : Sound postCb job) (hdone : job.done = true) : HandedOver job := by
  cases h with
  | unpublished _ _ _ => cases hdone
  | unseen outcome hphase => cases outcome <;> exact .early hphase rfl rfl
  | posted outcome _ => cases outcome <;> exact .posted rfl rfl rfl rfl
  | passed outcome _ => cases outcome <;> exact .passed rfl rfl rfl
  | resumed outcome => cases outcome <;> exact .resumed rfl rfl rfl rfl

theorem observed (h : Sound postCb job) {x : Option (Except E R)} (hx : x ∈ job.continuations) :
    ∃ outcome, job.runs = [outcome] ∧ x = some outcome := by
  cases h with
  | unpublished _ _ _ => cases hx
  | unseen outcome _ | posted outcome _ => cases outcome <;> cases hx
  | passed outcome _ | resumed outcome =>
      refine ⟨outcome, ?_, by simpa using hx⟩
      cases outcome <;> rfl

end Sound

theorem handoff_of_inv {postCb : Bool} {tr : List (Step (Pool R E) (Label R E) Unit)}
    {s : Pool R E} (h : Inv postCb s) (hpre : ∀ x ∈ tr, Inv postCb x.pre)
    (hsteps : ∀ x ∈ tr, x.pre.step postCb x.label = some (x.post, x.events)) : Handoff tr s where
  inOrder := h.order
  kept := by
    intro k hk
    have hmem : k ∈ s.dequeued ++ s.tasks := h.order ▸ List.mem_range.mpr hk
    rcases List.mem_append.mp hmem with hmem | hmem
    · exact .inr (h.kept k hmem)
    · exact .inl hmem
  exits := by
    intro x hx w hlabel
    have hs := hsteps x hx
    rw [hlabel] at hs
    obtain ⟨-, hstop, htasks, -⟩ := exit_step hs
    have horder := (hpre x hx).order
    rw [htasks, List.append_nil] at horder
    exact ⟨hstop, htasks, horder⟩
  runOnce := fun k job hk => (h.sound k job hk).runs_length
  unpublished := fun k job hk => (h.sound k job hk).unpublished_of
  handedOver := fun k job hk => (h.sound k job hk).handedOver
  observed := fun k job hk _ hx => (h.sound k job hk).observed hx

/-- On every interleaving, with any number of workers and calls: functions are dequeued in their
order, none is dropped, each is run at most once, and each coroutine goes on at most once, after
its function and with its result. -/
theorem handoff_run (postCb : Bool) (threadCount : Nat)
    {tr : List (Step (Pool R E) (Label R E) Unit)} {s : Pool R E}
    (h : Trace (Pool.step postCb) (Pool.start threadCount) tr s) : Handoff tr s := by
  obtain ⟨hs, hall⟩ := h.always (Inv postCb) (inv_start postCb threadCount)
    fun _ _ _ _ hinv hs => inv_step hinv hs
  exact handoff_of_inv hs (fun x hx => (hall x hx).1) h.step_eq

/-- The function ends between `await_ready` and `await_suspend` of the first call, and after both
of the second one. -/
theorem handoff_run_two : ∃ tr s first second,
    Trace (Pool.step true) (Pool.start 1 : Pool Nat String) tr s ∧ Handoff tr s ∧
      s.jobs = [first, second] ∧ first.phase = .passed ∧
      first.continuations = [some (.ok 5)] ∧ second.phase = .resumed ∧
      second.continuations = [some (.error "failed")] := by
  have hexec : exec (Pool.step true) (Pool.start 1 : Pool Nat String)
      [.push, .awaitReady 0, .dequeue 0, .run 0 (.ok 5), .publish 0, .awaitSuspend 0, .push,
        .awaitReady 1, .awaitSuspend 1, .stop, .dequeue 0, .run 0 (.error "failed"), .publish 0,
        .exit 0, .deliver 1] = some (_, _) := rfl
  have htr := trace_of_exec hexec
  exact ⟨_, _, _, _, htr, handoff_run true 1 htr, rfl, rfl, rfl, rfl, rfl⟩

end Servd.ThreadPool
