import Mathlib.Algebra.GroupWithZero.Nat
import Servd.PoolPosts

/-!
The calls of `enqueue` come to an end. The work that the pool and the event loop have left is a
number that every step on it makes smaller, and that only what comes from outside makes larger: a
new call, or something else for which the event loop takes another turn. Where no step is left, a
call is finished or its post is still in the queue, which the event loop looks into only before it
waits: a post that is refused while the event loop waits and nothing is in the ring is never taken
up.
-/
namespace Servd.PoolPosts

open Transition ThreadPool EngineCore

variable {R E : Type}

/-- The steps a coroutine has to take until it goes on. -/
def phaseWork : ThreadPool.Phase → Nat
  | .pushed => 4
  | .notReady => 3
  | .suspended => 2
  | .passed | .resumed => 0

def workerWork : ThreadPool.Worker R E → Nat
  | .holding _ => 2
  | .ran _ _ => 1
  | .waiting | .exited => 0

/-- The work that is left. The event loop drains the queue before it waits again. -/
def State.work (s : State R E) : Nat :=
  (s.pool.jobs.map fun job => phaseWork job.phase).sum + 3 * s.pool.tasks.length +
    (s.pool.workers.map workerWork).sum + if s.waiting = true then 0 else 1

/-- The steps that are work on the calls there are. -/
def works : Label R E → Bool
  | .pool .push | .pool .stop | .pool (.exit _) | .submit | .completeOther | .interrupted => false
  | .pool _ | .publish _ _ | .drain _ | .complete _ => true

/-- The work that the other steps bring: a new call, or another turn of the event loop. -/
def brings : Label R E → Nat
  | .pool .push => 7
  | .completeOther | .interrupted => 1
  | .pool _ | .publish _ _ | .drain _ | .complete _ | .submit => 0

/-- An operation is in the ring, and its completion wakes the event loop. -/
def State.InUse (s : State R E) : Prop := s.ring.submitted ≠ [] ∨ 0 < s.others

instance (s : State R E) : Decidable s.InUse :=
  inferInstanceAs (Decidable (s.ring.submitted ≠ [] ∨ 0 < s.others))

/-- The assumption on `io_uring_get_sqe`: it finds no entry only while an operation is in the
ring. -/
def RefusedInUse (s : State R E) : Label R E → Prop
  | .publish _ sqe => sqe = false → s.InUse
  | .drain sqe => sqe 0 = false → s.InUse
  | .pool _ | .complete _ | .submit | .completeOther | .interrupted => True

instance (s : State R E) : (a : Label R E) → Decidable (RefusedInUse s a)
  | .publish _ sqe => inferInstanceAs (Decidable (sqe = false → s.InUse))
  | .drain sqe => inferInstanceAs (Decidable (sqe 0 = false → s.InUse))
  | .pool _ | .complete _ | .submit | .completeOther | .interrupted =>
      inferInstanceAs (Decidable True)

theorem sum_map_set {α : Type} (f : α → Nat) {l : List α} {i : Nat} {a b : α}
    (h : l[i]? = some a) : ((l.set i b).map f).sum + f a = (l.map f).sum + f b := by
  induction l generalizing i with
  | nil => cases h
  | cons x l ih =>
      cases i with
      | zero =>
          cases h
          simp only [List.set_cons_zero, List.map_cons, List.sum_cons]
          omega
      | succ i =>
          have hrest := ih (by simpa using h)
          simp only [List.set_cons_succ, List.map_cons, List.sum_cons]
          omega

section Work

variable {s s' : State R E} {a : Label R E} {evs : List Unit}

/-- One job and one worker change, and the rest of the pool does not. -/
theorem poolWork_setBoth {pool : Pool R E} {k w : Nat} {job : Job R E}
    {worker : ThreadPool.Worker R E} (hk : pool.jobs[k]? = some job)
    (hw : pool.workers[w]? = some worker) (job' : Job R E)
    (worker' : ThreadPool.Worker R E) (hphase : job'.phase = job.phase) :
    ((((pool.setWorker w worker').setJob k job').jobs.map fun job => phaseWork job.phase).sum =
        (pool.jobs.map fun job => phaseWork job.phase).sum) ∧
      (((pool.setWorker w worker').setJob k job').workers.map workerWork).sum +
        workerWork worker = (pool.workers.map workerWork).sum + workerWork worker' := by
  have hjobs := sum_map_set (fun job => phaseWork job.phase) (b := job') hk
  rw [hphase] at hjobs
  exact ⟨Nat.add_right_cancel hjobs, sum_map_set workerWork hw⟩

/-- A coroutine comes a step further. -/
theorem poolWork_setJob {pool : Pool R E} {k : Nat} {job job' : Job R E}
    (hk : pool.jobs[k]? = some job) (hphase : phaseWork job'.phase < phaseWork job.phase) :
    ((pool.setJob k job').jobs.map fun job => phaseWork job.phase).sum <
      (pool.jobs.map fun job => phaseWork job.phase).sum := by
  have hjobs : ((pool.setJob k job').jobs.map fun job => phaseWork job.phase).sum +
      phaseWork job.phase = _ := sum_map_set (fun job => phaseWork job.phase) hk
  omega

theorem phaseWork_awaitReady {job : Job R E} (h : job.phase = .pushed) :
    phaseWork job.awaitReady.phase < phaseWork job.phase := by
  rw [h]
  unfold Job.awaitReady
  split
  · exact Nat.zero_lt_succ 3
  · exact Nat.lt_succ_self 3

theorem phaseWork_awaitSuspend {job : Job R E} (h : job.phase = .notReady) :
    phaseWork job.awaitSuspend.phase < phaseWork job.phase := by
  rw [h]
  unfold Job.awaitSuspend
  split
  · exact Nat.zero_lt_succ 2
  · exact Nat.lt_succ_self 2

theorem work_pool {a : ThreadPool.Label R E} {pool : Pool R E} {es : List Unit}
    (ha : poolAlone a = true) (hworks : works (.pool a : Label R E) = true)
    (hpool : s.pool.step true a = some (pool, es)) :
    ({ s with pool := pool } : State R E).work < s.work := by
  simp only [State.work]
  cases a with
  | push | stop | exit _ => cases hworks
  | publish _ | deliver _ => cases ha
  | awaitReady k =>
      obtain ⟨job, hk, hphase, rfl⟩ := Pool.onJob_eq_some hpool
      have hpushed : job.phase = .pushed := by simpa using hphase
      have hless := poolWork_setJob hk (phaseWork_awaitReady hpushed)
      have htasks : (s.pool.setJob k job.awaitReady).tasks = s.pool.tasks := rfl
      have hworkers : (s.pool.setJob k job.awaitReady).workers = s.pool.workers := rfl
      rw [htasks, hworkers]
      omega
  | awaitSuspend k =>
      obtain ⟨job, hk, hphase, rfl⟩ := Pool.onJob_eq_some hpool
      have hnotReady : job.phase = .notReady := by simpa using hphase
      have hless := poolWork_setJob hk (phaseWork_awaitSuspend hnotReady)
      have htasks : (s.pool.setJob k job.awaitSuspend).tasks = s.pool.tasks := rfl
      have hworkers : (s.pool.setJob k job.awaitSuspend).workers = s.pool.workers := rfl
      rw [htasks, hworkers]
      omega
  | dequeue w =>
      simp only [Pool.step] at hpool
      split at hpool
      · rename_i k rest hw htasks
        cases hpool
        have hworkers := sum_map_set workerWork (b := .holding k) hw
        simp only [Pool.setWorker, htasks, List.length_cons, workerWork] at hworkers ⊢
        omega
      · cases hpool
  | run w outcome =>
      simp only [Pool.step] at hpool
      split at hpool
      · rename_i k hw
        obtain ⟨job, hk, heq⟩ := Option.map_eq_some_iff.mp hpool
        cases heq
        obtain ⟨hjobs, hworkers⟩ := poolWork_setBoth hk hw
          { job with runs := job.runs ++ [outcome] } (.ran k outcome) rfl
        have htasks : ((s.pool.setWorker w (.ran k outcome)).setJob k
          { job with runs := job.runs ++ [outcome] }).tasks = s.pool.tasks := rfl
        simp only [workerWork] at hworkers
        rw [hjobs, htasks]
        omega
      · cases hpool

theorem work_publish {w k : Nat} {outcome : Except E R} {job : Job R E} (sqe : Bool)
    (hw : s.pool.workers[w]? = some (.ran k outcome)) (hk : s.pool.jobs[k]? = some job) :
    (s.publish w k outcome sqe job).work < s.work := by
  have hphase : (job.publish true outcome).phase = job.phase := by
    cases outcome with
    | ok _ | error _ =>
        simp only [Job.publish, Job.settle]
        split <;> rfl
  obtain ⟨hjobs, hworkers⟩ := poolWork_setBoth hk hw (job.publish true outcome) .waiting hphase
  have hwaiting : (s.publish w k outcome sqe job).waiting = s.waiting := rfl
  have hpool : (s.publish w k outcome sqe job).pool =
      (s.pool.setWorker w .waiting).setJob k (job.publish true outcome) := rfl
  have htasks : ((s.pool.setWorker w .waiting).setJob k (job.publish true outcome)).tasks =
      s.pool.tasks := rfl
  simp only [State.work, hpool, hjobs, htasks, hwaiting]
  simp only [workerWork] at hworkers
  omega

theorem work_pool_outside {a : ThreadPool.Label R E} {pool : Pool R E} {es : List Unit}
    (ha : poolAlone a = true) (hworks : works (.pool a : Label R E) = false)
    (hpool : s.pool.step true a = some (pool, es)) :
    ({ s with pool := pool } : State R E).work ≤ s.work + brings (.pool a : Label R E) := by
  cases a with
  | awaitReady _ | awaitSuspend _ | dequeue _ | run _ _ => cases hworks
  | publish _ | deliver _ => cases ha
  | push =>
      cases hpool
      simp only [State.work, brings, List.map_append, List.map_cons, List.map_nil, List.sum_append,
        List.sum_cons, List.sum_nil, List.length_append, List.length_singleton, Job.start,
        phaseWork]
      omega
  | stop =>
      cases hpool
      exact Nat.le_refl _
  | exit w =>
      obtain ⟨hw, -, -, rfl⟩ := exit_step hpool
      have hworkers := sum_map_set workerWork (b := .exited) hw
      simp only [State.work, Pool.setWorker, brings, workerWork] at hworkers ⊢
      omega

theorem brings_of_works (h : works a = true) : brings a = 0 := by
  cases a with
  | pool a =>
      cases a with
      | push => cases h
      | _ => rfl
  | submit | completeOther | interrupted => cases h
  | publish _ _ | drain _ | complete _ => rfl

/-- Work is done or comes from outside. -/
theorem work_step (h : Inv s) (hstep : s.step a = some (s', evs)) :
    s'.work + (if works a = true then 1 else 0) ≤ s.work + brings a := by
  cases step_cases h hstep with
  | @pool a pool es ha hpool =>
      cases hworks : works (.pool a : Label R E) with
      | true =>
          rw [brings_of_works hworks]
          exact work_pool ha hworks hpool
      | false => exact work_pool_outside ha hworks hpool
  | publish sqe hw hk => exact work_publish sqe hw hk
  | drain hwaiting sqe =>
      simp only [State.work, works, brings, if_true, hwaiting, Bool.false_eq_true, if_false]
      omega
  | @complete hwaiting j op job hop hk hphase hpending =>
      have hjobs : ((s.pool.setJob op.coroutine job.deliver).jobs.map
          fun job => phaseWork job.phase).sum + phaseWork job.phase =
            _ + phaseWork job.deliver.phase := sum_map_set (fun job => phaseWork job.phase) hk
      have hdeliver : phaseWork job.deliver.phase = 0 := rfl
      have htasks : (s.pool.setJob op.coroutine job.deliver).tasks = s.pool.tasks := rfl
      have hworkers : (s.pool.setJob op.coroutine job.deliver).workers = s.pool.workers := rfl
      rw [hphase, hdeliver, phaseWork] at hjobs
      simp only [State.work, works, brings, htasks, hworkers, hwaiting, Bool.false_eq_true, if_true,
        if_false]
      omega
  | submit _ => exact Nat.le_refl _
  | completeOther hwaiting _ | interrupted hwaiting =>
      simp [State.work, works, brings, hwaiting]

theorem stuck_of_work_eq_zero (h : Inv s) (hzero : s.work = 0) :
    ∀ a, works a = true → s.step a = none := by
  intro a hworks
  cases hstep : s.step a with
  | none => rfl
  | some r =>
      have hless := work_step h hstep
      rw [if_pos hworks, brings_of_works hworks, hzero] at hless
      exact absurd hless (Nat.not_succ_le_zero _)

/-- The workers stay. -/
theorem pool_frame {pool pool' : Pool R E} {a : ThreadPool.Label R E} {es : List Unit}
    (h : pool.step true a = some (pool', es)) : pool'.workers.length = pool.workers.length := by
  cases a with
  | push | stop =>
      cases h
      rfl
  | awaitReady _ | awaitSuspend _ | deliver _ =>
      obtain ⟨job, -, -, rfl⟩ := Pool.onJob_eq_some h
      rfl
  | dequeue w =>
      simp only [Pool.step] at h
      split at h
      · cases h
        exact List.length_set
      · cases h
  | run w _ | publish w =>
      simp only [Pool.step] at h
      split at h
      · obtain ⟨job, -, heq⟩ := Option.map_eq_some_iff.mp h
        cases heq
        exact List.length_set
      · cases h
  | exit w =>
      obtain ⟨-, -, -, rfl⟩ := exit_step h
      exact List.length_set

theorem frame_step (h : Inv s) (hstep : s.step a = some (s', evs)) :
    s'.pool.workers.length = s.pool.workers.length := by
  cases step_cases h hstep with
  | pool ha hpool => exact pool_frame hpool
  | publish sqe hw hk => exact List.length_set
  | drain _ _ | complete _ _ _ _ _ | submit _ | completeOther _ _ | interrupted _ => rfl

/-- While the event loop waits with something in the queue, it will be woken. -/
def Kept (s : State R E) : Prop := s.waiting = true → s.ring.pendingPosts ≠ [] → s.InUse

theorem kept_step (h : Inv s) (hkept : Kept s) (hrefused : RefusedInUse s a)
    (hstep : s.step a = some (s', evs)) : Kept s' := by
  cases step_cases h hstep with
  | pool ha hpool => exact hkept
  | @publish w k outcome job sqe hw hk =>
      intro hwaiting hqueue
      have hring : (s.publish w k outcome sqe job).ring =
          if job.waiter = true then (s.ring.postCoroutine k sqe).1 else s.ring := rfl
      rw [hring] at hqueue
      rw [State.InUse, hring]
      split at hqueue
      · rename_i hwaiter
        rw [if_pos hwaiter]
        cases sqe with
        | true => exact .inl (by simp [Ring.postCoroutine])
        | false => exact hrefused rfl
      · rename_i hwaiter
        rw [if_neg hwaiter]
        exact hkept hwaiting hqueue
  | drain _ sqe =>
      intro _ hqueue
      cases hposts : s.ring.pendingPosts with
      | nil => simp [Ring.drainPendingPosts, hposts, drainLoop] at hqueue
      | cons op rest =>
          cases hsqe : sqe 0 with
          | true => exact .inl (by simp [Ring.drainPendingPosts, hposts, drainLoop, hsqe])
          | false =>
              refine (hrefused hsqe).imp_left fun hsubmitted => ?_
              exact List.append_ne_nil_of_left_ne_nil hsubmitted _
  | complete _ _ _ _ _ | completeOther _ _ | interrupted _ =>
      intro hwaiting
      cases hwaiting
  | submit hwaiting =>
      intro hwaiting'
      rw [show s.waiting = true from hwaiting'] at hwaiting
      cases hwaiting

/-- Where no work is left, the event loop waits, and no post is in the ring. -/
theorem waiting_of_stuck (h : Inv s) (hstuck : ∀ a, works a = true → s.step a = none) :
    s.waiting = true ∧ s.ring.submitted = [] := by
  have hwaiting : s.waiting = true := by
    have hnone := hstuck (.drain fun _ => true) rfl
    simpa [State.step, h.defined] using hnone
  have hnone := hstuck (.complete 0) rfl
  exact ⟨hwaiting, by simpa [State.step, h.defined, hwaiting] using hnone⟩

/-- Where no work is left, no worker has a function. -/
theorem waiting_worker_of_stuck [Inhabited R] (h : Inv s) (hstop : s.pool.stop = false)
    (hstuck : ∀ a, works a = true → s.step a = none) {w : Nat} {worker : ThreadPool.Worker R E}
    (hw : s.pool.workers[w]? = some worker) : worker = .waiting := by
  cases worker with
  | waiting => rfl
  | exited =>
      rw [h.pool.stopped w hw] at hstop
      cases hstop
  | holding j =>
      have hlt := h.pool.lt_of_mem_dequeued (h.pool.held w _ j hw rfl).1
      have hnone := hstuck (.pool (.run w (.ok default))) rfl
      simp [State.step, h.defined, poolAlone, Pool.step, hw, hlt] at hnone
  | ran j outcome =>
      have hlt := h.pool.lt_of_mem_dequeued (h.pool.held w _ j hw rfl).1
      have hnone := hstuck (.publish w true) rfl
      simp [State.step, h.defined, hw, hlt] at hnone

/-- Where no work is left, every function has ended. -/
theorem done_of_stuck [Inhabited R] (h : Inv s) (hworkers : s.pool.workers ≠ [])
    (hstop : s.pool.stop = false) (hstuck : ∀ a, works a = true → s.step a = none) {k : Nat}
    {job : Job R E} (hk : s.pool.jobs[k]? = some job) : job.done = true := by
  have htasks : s.pool.tasks = [] := by
    obtain ⟨first, rest, hall⟩ := List.exists_cons_of_ne_nil hworkers
    have hfirst : s.pool.workers[0]? = some first := by simp [hall]
    rw [waiting_worker_of_stuck h hstop hstuck hfirst] at hfirst
    cases htasks : s.pool.tasks with
    | nil => rfl
    | cons j rest =>
        have hnone := hstuck (.pool (.dequeue 0)) rfl
        simp [State.step, h.defined, poolAlone, Pool.step, hfirst, htasks] at hnone
  have hmem : k ∈ s.pool.dequeued := by
    have horder := h.pool.order
    rw [htasks, List.append_nil] at horder
    exact horder ▸ List.mem_range.mpr (List.getElem?_eq_some_iff.mp hk).1
  rcases h.pool.kept k hmem with ⟨w, worker, hw, hjob⟩ | hdone
  · rw [waiting_worker_of_stuck h hstop hstuck hw] at hjob
    cases hjob
  · exact hdone job hk

/-- A coroutine that is suspended although its function has ended was posted, and the engine has the
post. -/
theorem mem_postsOf_of_suspended (h : Inv s) {k : Nat} {job : Job R E}
    (hk : s.pool.jobs[k]? = some job) (hphase : job.phase = .suspended) (hdone : job.done = true) :
    k ∈ postsOf s.ring := by
  cases h.resumption hk with
  | posted _ _ hring _ => exact List.count_pos_iff.mp (by omega)
  | taken hresumed _ _ _ =>
      rw [hphase] at hresumed
      cases hresumed
  | unposted _ hposts _ _ =>
      cases (h.pool.sound k job hk).handedOver hdone with
      | early hearly _ _ => rw [hphase] at hearly; simp at hearly
      | passed hpassed _ _ => rw [hphase] at hpassed; cases hpassed
      | posted _ hone _ _ => omega
      | resumed hresumed _ _ _ => rw [hphase] at hresumed; cases hresumed

/-- Where no work is left, every call has gone on, or has its post in the queue. -/
theorem finished_of_stuck [Inhabited R] (h : Inv s) (hworkers : s.pool.workers ≠ [])
    (hstop : s.pool.stop = false) (hstuck : ∀ a, works a = true → s.step a = none) {k : Nat}
    {job : Job R E} (hk : s.pool.jobs[k]? = some job) :
    (job.phase = .passed ∨ job.phase = .resumed) ∨
      k ∈ s.ring.pendingPosts.map (·.coroutine) := by
  cases hphase : job.phase with
  | passed => exact .inl (.inl rfl)
  | resumed => exact .inl (.inr rfl)
  | pushed =>
      have hnone := hstuck (.pool (.awaitReady k)) rfl
      simp [State.step, h.defined, poolAlone, Pool.step, Pool.onJob, hk, hphase] at hnone
  | notReady =>
      have hnone := hstuck (.pool (.awaitSuspend k)) rfl
      simp [State.step, h.defined, poolAlone, Pool.step, Pool.onJob, hk, hphase] at hnone
  | suspended =>
      have hmem := mem_postsOf_of_suspended h hk hphase (done_of_stuck h hworkers hstop hstuck hk)
      obtain ⟨op, hop, hcoroutine⟩ := List.mem_map.mp hmem
      rcases List.mem_append.mp hop with hop | hop
      · exact .inr (List.mem_map.mpr ⟨op, hop, hcoroutine⟩)
      · rw [(waiting_of_stuck h hstuck).2] at hop
        cases hop

/-- The function of a call that has gone on has run once, and its end is what the coroutine was
told. -/
theorem observed_of_finished {job : Job R E} (h : Sound true job)
    (hfinished : job.phase = .passed ∨ job.phase = .resumed) :
    ∃ outcome, job.runs = [outcome] ∧ job.continuations = [some outcome] := by
  have hcontinued : job.continuations.length = 1 := by
    cases h with
    | unpublished _ _ hphase =>
        rcases hphase with ⟨rfl, -⟩ | ⟨rfl, -⟩ | ⟨rfl, -⟩ <;> simp at hfinished
    | unseen _ hphase => rcases hphase with rfl | rfl <;> simp at hfinished
    | posted _ _ => simp at hfinished
    | passed _ _ | resumed _ => rfl
  obtain ⟨x, hx⟩ := List.length_eq_one_iff.mp hcontinued
  obtain ⟨outcome, hruns, rfl⟩ := h.observed (x := x) (by rw [hx]; exact List.mem_singleton_self x)
  exact ⟨outcome, hruns, hx⟩

end Work

/-- No more is done than there is and comes. -/
theorem work_trace {s s' : State R E} {tr : List (Step (State R E) (Label R E) Unit)}
    (h : Trace State.step s tr s') (hinv : Inv s) :
    Inv s' ∧ s'.work + tr.countP (fun x => works x.label) ≤
      s.work + (tr.map fun x => brings x.label).sum := by
  induction h with
  | nil => exact ⟨hinv, Nat.le_refl _⟩
  | @snoc tr m m' a evs _ hstep ih =>
      obtain ⟨hm, hwork⟩ := ih
      have hlast := work_step hm hstep
      refine ⟨inv_step hm hstep, ?_⟩
      simp only [List.countP_append, List.countP_singleton, List.map_append, List.sum_append,
        List.map_singleton, List.sum_singleton]
      omega

theorem kept_trace {threadCount : Nat} {tr : List (Step (State R E) (Label R E) Unit)}
    {s : State R E} (h : Trace State.step (.start threadCount) tr s)
    (hrefused : ∀ x ∈ tr, RefusedInUse x.pre x.label) : Kept s := by
  have hstart : Kept (.start threadCount : State R E) := fun hwaiting => by cases hwaiting
  have hall := h.invariant (fun s => Inv s ∧ Kept s) RefusedInUse ⟨inv_start threadCount, hstart⟩
    (fun _ _ _ _ hs hrefused hstep =>
      ⟨inv_step hs.1 hstep, kept_step hs.1 hs.2 hrefused hstep⟩) hrefused
  exact hall.1.2

theorem workers_length {threadCount : Nat} {tr : List (Step (State R E) (Label R E) Unit)}
    {s : State R E} (h : Trace State.step (.start threadCount) tr s) :
    s.pool.workers.length = threadCount := by
  have hall := h.always (fun s => Inv s ∧ s.pool.workers.length = threadCount)
    ⟨inv_start threadCount, List.length_replicate⟩
    fun _ _ _ _ hs hstep => ⟨inv_step hs.1 hstep, (frame_step hs.1 hstep).trans hs.2⟩
  exact hall.1.2

/-- One worker and two calls, of which the second is made while the first is being worked on. -/
def twoCalls : Option (List (Step (State Nat String) (Label Nat String) Unit) × State Nat String) :=
  exec State.step (.start 1)
    [.pool .push, .pool (.awaitReady 0), .pool (.dequeue 0), .pool .push, .submit]

theorem twoCalls_isSome : twoCalls.isSome = true := by decide

/-- The rest of it; the first post is refused. -/
def twoCallsEnd : List (Label Nat String) :=
  [.pool (.awaitSuspend 0), .pool (.awaitReady 1), .pool (.awaitSuspend 1), .drain fun _ => true,
    .pool (.run 0 (.ok 5)), .publish 0 false, .completeOther, .pool (.dequeue 0),
    .drain fun _ => true, .pool (.run 0 (.error "failed")), .publish 0 true, .complete 1,
    .drain fun _ => true, .complete 0, .drain fun _ => true]

end Servd.PoolPosts
