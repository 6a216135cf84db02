import Servd.EngineCore
import Servd.ThreadPool

/-!
The thread pool on the event loop. `enable_thread_pool` gives the pool `post_coroutine` as its
callback: a worker that publishes a result posts the waiting coroutine to the ring, and the
event loop resumes it when the operation completes. A turn of the event loop is a drain of the
queued posts and then one completion, and the workers post whenever they come to it. Together
the two hand every result over: what is resumed is always suspended, and nothing is resumed
twice. What the other coroutines have in the ring is a number.
-/
namespace Servd.PoolPosts

open Transition ThreadPool EngineCore

variable {R E : Type}

/-- A coroutine is named by its call of `enqueue`. -/
structure State (R E : Type) where
  pool : Pool R E
  ring : EngineCore.Ring Nat := {}
  -- the operations of other coroutines in the ring
  others : Nat := 0
  -- the event loop has drained the queue, and waits for a completion
  waiting : Bool := false
  -- a coroutine was resumed that was not suspended
  undefined : Bool := false
  -- ghost: the coroutines whose posts the event loop has taken up
  taken : List Nat := []

inductive Label (R E : Type)
  -- a step of the pool by itself
  | pool (a : ThreadPool.Label R E)
  -- `sqe`: there is a free entry for the post, if there is one to make
  | publish (w : Nat) (sqe : Bool)
  | drain (sqe : Nat → Bool)
  | complete (j : Nat)
  -- a coroutine that the event loop has resumed submits an operation
  | submit
  -- one of these completes
  | completeOther
  -- `io_uring_wait_cqe` returns an error
  | interrupted

/-- The steps in which the engine has no part. -/
def poolAlone : ThreadPool.Label R E → Bool
  | .publish _ | .deliver _ => false
  | .push | .awaitReady _ | .awaitSuspend _ | .dequeue _ | .run _ _ | .stop | .exit _ => true

/-- The ring after a completion. -/
def completed (ring : EngineCore.Ring Nat) (j : Nat) : EngineCore.Ring Nat :=
  { ring with submitted := ring.submitted.eraseIdx j }

namespace State

def start (threadCount : Nat) : State R E := { pool := Pool.start threadCount }

/-- The end of a function's wrapper, with `post_coroutine` for the waiting coroutine. -/
def publish (s : State R E) (w k : Nat) (outcome : Except E R) (sqe : Bool) (job : Job R E) :
    State R E :=
  { s with
    pool := (s.pool.setWorker w .waiting).setJob k (job.publish true outcome)
    ring := if job.waiter = true then (s.ring.postCoroutine k sqe).1 else s.ring }

/-- The event loop takes the completion of a post and resumes the coroutine. -/
def complete (s : State R E) (j : Nat) (op : UringOperation Nat) : State R E :=
  let seen : State R E :=
    { s with
      ring := completed s.ring j
      waiting := false
      taken := s.taken ++ [op.coroutine] }
  match s.pool.jobs[op.coroutine]? with
  | some job =>
      if job.phase = .suspended then { seen with pool := s.pool.setJob op.coroutine job.deliver }
      else { seen with undefined := true }
  | none => { seen with undefined := true }

def step (s : State R E) : Label R E → Option (State R E × List Unit)
  | .pool a =>
      if s.undefined = false ∧ poolAlone a = true then
        (s.pool.step true a).map fun (pool, _) => ({ s with pool := pool }, [])
      else none
  | .publish w sqe =>
      match s.undefined, s.pool.workers[w]? with
      | false, some (.ran k outcome) =>
          s.pool.jobs[k]?.map fun job => (s.publish w k outcome sqe job, [])
      | _, _ => none
  | .drain sqe =>
      if s.undefined = false ∧ s.waiting = false then
        some ({ s with ring := (s.ring.drainPendingPosts sqe).1, waiting := true }, [])
      else none
  | .complete j =>
      if s.undefined = false ∧ s.waiting = true then
        s.ring.submitted[j]?.map fun op => (s.complete j op, [])
      else none
  | .submit =>
      if s.undefined = false ∧ s.waiting = false then some ({ s with others := s.others + 1 }, [])
      else none
  | .completeOther =>
      if s.undefined = false ∧ s.waiting = true ∧ 0 < s.others then
        some ({ s with others := s.others - 1, waiting := false }, [])
      else none
  | .interrupted =>
      if s.undefined = false ∧ s.waiting = true then some ({ s with waiting := false }, [])
      else none

end State

/-- A number that the pool keeps about a call. -/
def countAt (f : Job R E → Nat) (pool : Pool R E) (k : Nat) : Nat := (pool.jobs[k]?).elim 0 f

/-- The coroutines whose posts the engine has. -/
def postsOf (ring : EngineCore.Ring Nat) : List Nat :=
  (ring.pendingPosts ++ ring.submitted).map (·.coroutine)

structure Inv (s : State R E) : Prop where
  defined : s.undefined = false
  pool : ThreadPool.Inv true s.pool
  posts : ∀ k, (postsOf s.ring).count k = countAt (·.pending) s.pool k
  taken : ∀ k, s.taken.count k + (postsOf s.ring).count k = countAt (·.posts) s.pool k

section CountAt

variable {f : Job R E → Nat} {pool pool' : Pool R E} {k : Nat} {job job' : Job R E}

theorem countAt_of (hk : pool.jobs[k]? = some job) : countAt f pool k = f job := by
  rw [countAt, hk]
  rfl

theorem countAt_setJob (hk : pool.jobs[k]? = some job) (j : Nat) :
    countAt f (pool.setJob k job') j = if j = k then f job' else countAt f pool j := by
  have hlt : k < pool.jobs.length := (List.getElem?_eq_some_iff.mp hk).1
  by_cases hj : j = k
  · subst hj
    simp [countAt, Pool.setJob, hlt]
  · simp [countAt, Pool.setJob, hj, Ne.symm hj]

/-- A critical section that leaves the number alone. -/
theorem countAt_setJob_same (hk : pool.jobs[k]? = some job) (hf : f job' = f job) (j : Nat) :
    countAt f (pool.setJob k job') j = countAt f pool j := by
  rw [countAt_setJob hk]
  split
  · rename_i hj
    rw [hj, countAt_of hk, hf]
  · rfl

/-- The engine knows everything about the posts: the other steps of the pool make none. -/
theorem countAt_alone {a : ThreadPool.Label R E} {es : List Unit}
    (hf : ∀ job job' : Job R E, job'.pending = job.pending → job'.posts = job.posts →
      f job' = f job) (hstart : f Job.start = 0)
    (h : pool.step true a = some (pool', es)) (ha : poolAlone a = true) (j : Nat) :
    countAt f pool' j = countAt f pool j := by
  cases a with
  | publish _ | deliver _ => cases ha
  | push =>
      cases h
      rcases Nat.lt_trichotomy j pool.jobs.length with hj | hj | hj
      · simp [countAt, List.getElem?_append_left hj]
      · simp [countAt, hj, hstart]
      · rw [countAt, countAt, List.getElem?_eq_none (by simp; omega),
          List.getElem?_eq_none (by omega)]
  | awaitReady k =>
      obtain ⟨job, hk, -, rfl⟩ := Pool.onJob_eq_some h
      refine countAt_setJob_same hk (hf _ _ ?_ ?_) j <;> unfold Job.awaitReady <;> split <;> rfl
  | awaitSuspend k =>
      obtain ⟨job, hk, -, rfl⟩ := Pool.onJob_eq_some h
      refine countAt_setJob_same hk (hf _ _ ?_ ?_) j <;> unfold Job.awaitSuspend <;> split <;> rfl
  | dequeue w =>
      simp only [Pool.step] at h
      split at h
      · cases h
        rfl
      · cases h
  | run w outcome =>
      simp only [Pool.step] at h
      split at h
      · rename_i k hw
        obtain ⟨job, hk, heq⟩ := Option.map_eq_some_iff.mp h
        cases heq
        have hk' : (pool.setWorker w (.ran k outcome)).jobs[k]? = some job := hk
        exact (countAt_setJob_same hk' (hf _ _ (by rfl) (by rfl)) j).trans rfl
      · cases h
  | stop =>
      cases h
      rfl
  | exit w =>
      obtain ⟨-, -, -, rfl⟩ := exit_step h
      rfl

end CountAt

theorem counts_publish (job : Job R E) (outcome : Except E R) :
    (job.publish true outcome).pending = job.pending + (if job.waiter = true then 1 else 0) ∧
      (job.publish true outcome).posts = job.posts + if job.waiter = true then 1 else 0 := by
  cases outcome with
  | ok _ | error _ =>
      simp only [Job.publish, Job.settle]
      split
      · exact ⟨rfl, rfl⟩
      · exact ⟨rfl, rfl⟩

theorem count_postCoroutine (ring : EngineCore.Ring Nat) (k : Nat) (sqe : Bool) (j : Nat) :
    (postsOf (ring.postCoroutine k sqe).1).count j =
      (postsOf ring).count j + if j = k then 1 else 0 := by
  have hone : [k].count j = if j = k then 1 else 0 := by
    by_cases hj : j = k
    · simp [hj]
    · simp [hj, Ne.symm hj]
  cases sqe with
  | true | false =>
      simp only [Ring.postCoroutine, postsOf, List.map_append, List.count_append, if_true,
        Bool.false_eq_true, if_false, List.map_cons, List.map_nil, hone]
      omega

theorem count_drainPendingPosts (ring : EngineCore.Ring Nat) (sqe : Nat → Bool) (j : Nat) :
    (postsOf (ring.drainPendingPosts sqe).1).count j = (postsOf ring).count j := by
  have hqueue := congrArg (fun q => (q.map (·.coroutine)).count j)
    (drainLoop_append sqe 0 ring.pendingPosts)
  simp only [List.map_append, List.count_append] at hqueue
  simp only [Ring.drainPendingPosts, postsOf, List.map_append, List.count_append]
  omega

theorem count_completion (ring : EngineCore.Ring Nat) {j : Nat} {op : UringOperation Nat}
    (hop : ring.submitted[j]? = some op) (k : Nat) :
    (postsOf (completed ring j)).count k +
      (if k = op.coroutine then 1 else 0) = (postsOf ring).count k := by
  obtain ⟨hlt, hget⟩ := List.getElem?_eq_some_iff.mp hop
  have hperm := List.getElem_cons_eraseIdx_perm hlt
  rw [hget] at hperm
  have hcount := (hperm.map (·.coroutine)).count_eq k
  simp only [List.map_cons, List.count_cons, beq_iff_eq, @eq_comm _ op.coroutine k] at hcount
  simp only [postsOf, completed, List.map_append, List.count_append]
  omega

/-- A post that the event loop has not taken up is that of a suspended coroutine. -/
theorem suspended_of_pending {job : Job R E} (h : Sound true job) (hpending : 0 < job.pending) :
    job.phase = .suspended ∧ job.done = true ∧ job.pending = 1 := by
  cases h with
  | posted outcome _ => cases outcome <;> exact ⟨rfl, rfl, rfl⟩
  | unpublished _ _ _ => cases hpending
  | unseen outcome _ | passed outcome _ | resumed outcome => cases outcome <;> cases hpending

/-- The coroutine of a post in the ring is there, and is suspended. -/
theorem Inv.posted {s : State R E} (h : Inv s) {k : Nat} (hk : k ∈ postsOf s.ring) :
    ∃ job, s.pool.jobs[k]? = some job ∧ job.phase = .suspended ∧ job.done = true ∧
      job.pending = 1 := by
  have hcount : 0 < countAt (·.pending) s.pool k := h.posts k ▸ List.count_pos_iff.mpr hk
  cases hjob : s.pool.jobs[k]? with
  | none => simp [countAt, hjob] at hcount
  | some job =>
      rw [countAt_of hjob] at hcount
      exact ⟨job, rfl, suspended_of_pending (h.pool.sound k job hjob) hcount⟩

theorem inv_start (threadCount : Nat) : Inv (State.start threadCount : State R E) := by
  refine ⟨rfl, ThreadPool.inv_start true threadCount, fun k => ?_, fun k => ?_⟩
  · simp [State.start, postsOf, countAt, Pool.start]
  · simp [State.start, postsOf, countAt, Pool.start]

/-- Everything a step can do from a good state; a coroutine that is resumed is suspended. -/
inductive StepCase (s : State R E) : Label R E → State R E → Prop
  | pool {a : ThreadPool.Label R E} {pool : Pool R E} {es : List Unit} (ha : poolAlone a = true)
      (hpool : s.pool.step true a = some (pool, es)) :
      StepCase s (.pool a) { s with pool := pool }
  | publish {w k : Nat} {outcome : Except E R} {job : Job R E} (sqe : Bool)
      (hw : s.pool.workers[w]? = some (.ran k outcome)) (hk : s.pool.jobs[k]? = some job) :
      StepCase s (.publish w sqe) (s.publish w k outcome sqe job)
  | drain (hwaiting : s.waiting = false) (sqe : Nat → Bool) :
      StepCase s (.drain sqe)
        { s with ring := (s.ring.drainPendingPosts sqe).1, waiting := true }
  | complete (hwaiting : s.waiting = true) {j : Nat} {op : UringOperation Nat} {job : Job R E}
      (hop : s.ring.submitted[j]? = some op) (hk : s.pool.jobs[op.coroutine]? = some job)
      (hphase : job.phase = .suspended) (hpending : job.pending = 1) :
      StepCase s (.complete j)
        { s with
          ring := completed s.ring j
          waiting := false
          pool := s.pool.setJob op.coroutine job.deliver
          taken := s.taken ++ [op.coroutine] }
  | submit (hwaiting : s.waiting = false) : StepCase s .submit { s with others := s.others + 1 }
  | completeOther (hwaiting : s.waiting = true) (hothers : 0 < s.others) :
      StepCase s .completeOther { s with others := s.others - 1, waiting := false }
  | interrupted (hwaiting : s.waiting = true) : StepCase s .interrupted { s with waiting := false }

section Steps

variable {s s' : State R E} {a : Label R E} {evs : List Unit}

theorem step_cases (h : Inv s) (hstep : s.step a = some (s', evs)) : StepCase s a s' := by
  cases a with
  | pool a =>
      simp only [State.step] at hstep
      split at hstep
      · rename_i hguard
        obtain ⟨⟨pool, es⟩, hpool, heq⟩ := Option.map_eq_some_iff.mp hstep
        cases heq
        exact .pool hguard.2 hpool
      · cases hstep
  | publish w sqe =>
      simp only [State.step] at hstep
      split at hstep
      · rename_i k outcome _ hw
        obtain ⟨job, hk, heq⟩ := Option.map_eq_some_iff.mp hstep
        cases heq
        exact .publish sqe hw hk
      · cases hstep
  | drain sqe =>
      simp only [State.step] at hstep
      split at hstep
      · rename_i hguard
        cases hstep
        exact .drain hguard.2 sqe
      · cases hstep
  | complete j =>
      simp only [State.step] at hstep
      split at hstep
      · rename_i hguard
        obtain ⟨op, hop, heq⟩ := Option.map_eq_some_iff.mp hstep
        have hmem : op.coroutine ∈ postsOf s.ring :=
          List.mem_map_of_mem (List.mem_append_right _ (List.mem_of_getElem? hop))
        obtain ⟨job, hk, hphase, -, hpending⟩ := h.posted hmem
        simp only [State.complete, hk, if_pos hphase] at heq
        cases heq
        exact .complete hguard.2 hop hk hphase hpending
      · cases hstep
  | submit =>
      simp only [State.step] at hstep
      split at hstep
      · rename_i hguard
        cases hstep
        exact .submit hguard.2
      · cases hstep
  | completeOther =>
      simp only [State.step] at hstep
      split at hstep
      · rename_i hguard
        cases hstep
        exact .completeOther hguard.2.1 hguard.2.2
      · cases hstep
  | interrupted =>
      simp only [State.step] at hstep
      split at hstep
      · rename_i hguard
        cases hstep
        exact .interrupted hguard.2
      · cases hstep

theorem pool_publish {w k : Nat} {outcome : Except E R} {job : Job R E}
    (hw : s.pool.workers[w]? = some (.ran k outcome)) (hk : s.pool.jobs[k]? = some job)
    (sqe : Bool) :
    s.pool.step true (.publish w) = some ((s.publish w k outcome sqe job).pool, []) := by
  simp only [Pool.step, hw, hk, Option.map_some]
  rfl

theorem pool_deliver {k : Nat} {job : Job R E} (hk : s.pool.jobs[k]? = some job)
    (hpending : job.pending = 1) :
    s.pool.step true (.deliver k) = some (s.pool.setJob k job.deliver, []) := by
  simp [Pool.step, Pool.onJob, hk, hpending]

theorem inv_publish (h : Inv s) {w k : Nat} {outcome : Except E R} {job : Job R E} (sqe : Bool)
    (hw : s.pool.workers[w]? = some (.ran k outcome)) (hk : s.pool.jobs[k]? = some job) :
    Inv (s.publish w k outcome sqe job) := by
  obtain ⟨hpending, hposts⟩ := counts_publish job outcome
  have hpool : ∀ (f : Job R E → Nat) j, countAt f (s.publish w k outcome sqe job).pool j =
      if j = k then f (job.publish true outcome) else countAt f s.pool j :=
    fun f j => countAt_setJob hk j
  have hring : ∀ j, (postsOf (s.publish w k outcome sqe job).ring).count j =
      (postsOf s.ring).count j + if j = k ∧ job.waiter = true then 1 else 0 := by
    intro j
    by_cases hwaiter : job.waiter = true
    · have hpost : (s.publish w k outcome sqe job).ring = (s.ring.postCoroutine k sqe).1 :=
        if_pos hwaiter
      rw [hpost, count_postCoroutine]
      simp [hwaiter]
    · have hsame : (s.publish w k outcome sqe job).ring = s.ring := if_neg hwaiter
      simp [hsame, hwaiter]
  refine ⟨h.defined, ThreadPool.inv_step h.pool (pool_publish hw hk sqe), fun j => ?_,
    fun j => ?_⟩
  · rw [hring, hpool, hpending, h.posts j]
    by_cases hj : j = k
    · rw [hj, countAt_of hk]
      simp
    · simp [hj]
  · rw [hring, hpool, hposts, ← Nat.add_assoc]
    have htaken : s.taken.count j + (postsOf s.ring).count j = countAt (·.posts) s.pool j :=
      h.taken j
    change s.taken.count j + (postsOf s.ring).count j + _ = _
    rw [htaken]
    by_cases hj : j = k
    · rw [hj, countAt_of hk]
      simp
    · simp [hj]

theorem inv_complete (h : Inv s) {i : Nat} {op : UringOperation Nat} {job : Job R E}
    (hop : s.ring.submitted[i]? = some op) (hk : s.pool.jobs[op.coroutine]? = some job)
    (hpending : job.pending = 1) :
    Inv ({ s with
      ring := completed s.ring i
      waiting := false
      pool := s.pool.setJob op.coroutine job.deliver
      taken := s.taken ++ [op.coroutine] } : State R E) := by
  have hone : ∀ j, [op.coroutine].count j = if j = op.coroutine then 1 else 0 := by
    intro j
    by_cases hj : j = op.coroutine
    · simp [hj]
    · simp [hj, Ne.symm hj]
  refine ⟨h.defined, ThreadPool.inv_step h.pool (pool_deliver hk hpending), fun j => ?_,
    fun j => ?_⟩
  · have hcount := count_completion s.ring hop j
    rw [h.posts j] at hcount
    rw [countAt_setJob hk]
    split
    · rename_i hj
      subst hj
      have hdeliver : job.deliver.pending = 0 := by
        change job.pending - 1 = 0
        omega
      rw [if_pos rfl, countAt_of hk, hpending] at hcount
      rw [hdeliver]
      exact Nat.succ.inj hcount
    · rename_i hj
      rw [if_neg hj] at hcount
      exact hcount
  · have hcount := count_completion s.ring hop j
    have htaken := h.taken j
    have hposts : countAt (·.posts) (s.pool.setJob op.coroutine job.deliver) j =
        countAt (·.posts) s.pool j := countAt_setJob_same hk (by rfl) j
    change (s.taken ++ [op.coroutine]).count j +
      (postsOf (completed s.ring i)).count j = _
    rw [hposts, List.count_append, hone]
    omega

theorem inv_step (h : Inv s) (hstep : s.step a = some (s', evs)) : Inv s' := by
  cases step_cases h hstep with
  | pool ha hpool =>
      refine ⟨h.defined, ThreadPool.inv_step h.pool hpool, fun j => ?_, fun j => ?_⟩
      · rw [countAt_alone (fun _ _ hp _ => hp) rfl hpool ha j]
        exact h.posts j
      · rw [countAt_alone (fun _ _ _ hp => hp) rfl hpool ha j]
        exact h.taken j
  | publish sqe hw hk => exact inv_publish h sqe hw hk
  | drain _ sqe =>
      have hcount := count_drainPendingPosts s.ring sqe
      refine ⟨h.defined, h.pool, fun j => (hcount j).trans (h.posts j), fun j => ?_⟩
      exact (congrArg (s.taken.count j + ·) (hcount j)).trans (h.taken j)
  | complete _ hop hk hphase hpending => exact inv_complete h hop hk hpending
  | submit _ | completeOther _ _ | interrupted _ => exact ⟨h.defined, h.pool, h.posts, h.taken⟩

end Steps

theorem inv_trace {threadCount : Nat} {tr : List (Step (State R E) (Label R E) Unit)}
    {s : State R E} (h : Trace State.step (.start threadCount) tr s) :
    Inv s ∧ ∀ x ∈ tr, Inv x.pre ∧ Inv x.post :=
  h.always Inv (inv_start threadCount) fun _ _ _ _ hinv hstep => inv_step hinv hstep

/-- The pool's part in a step. -/
def poolShown (x : Step (State R E) (Label R E) Unit) :
    Option (ThreadPool.Label R E × List Unit) :=
  match x.label with
  | .pool a => some (a, [])
  | .publish w _ => some (.publish w, [])
  | .drain _ | .submit | .completeOther | .interrupted => none
  | .complete j => (x.pre.ring.submitted[j]?).map fun op => (.deliver op.coroutine, [])

theorem events_nil {pool pool' : Pool R E} {a : ThreadPool.Label R E} {es : List Unit}
    (h : pool.step true a = some (pool', es)) : es = [] := by
  cases a with
  | push | stop =>
      cases h
      rfl
  | awaitReady _ | awaitSuspend _ | deliver _ =>
      simp only [Pool.step, Pool.onJob, Option.bind_eq_some_iff] at h
      obtain ⟨job, -, h⟩ := h
      split at h <;> cases h
      rfl
  | dequeue w =>
      simp only [Pool.step] at h
      split at h <;> cases h
      rfl
  | run w outcome =>
      simp only [Pool.step] at h
      split at h
      · obtain ⟨job, -, heq⟩ := Option.map_eq_some_iff.mp h
        cases heq
        rfl
      · cases h
  | publish w =>
      simp only [Pool.step] at h
      split at h
      · obtain ⟨job, -, heq⟩ := Option.map_eq_some_iff.mp h
        cases heq
        rfl
      · cases h
  | exit w =>
      simp only [Pool.step] at h
      split at h
      · split at h <;> cases h
        rfl
      · cases h

/-- Seen from the pool, a run with the engine is a run of the pool by itself. -/
theorem exists_poolTrace {threadCount : Nat} {tr : List (Step (State R E) (Label R E) Unit)}
    {s : State R E} (h : Trace State.step (.start threadCount) tr s) :
    ∃ tr', Trace (Pool.step true) (Pool.start threadCount) tr' s.pool ∧
      tr'.map (fun x => (x.label, x.events)) = tr.filterMap poolShown := by
  have hinv := (inv_trace h).2
  obtain ⟨tr', pool, htr', hpool, -, hmap⟩ := h.simulate (Pool.step true)
    (fun s pool => pool = s.pool) poolShown (fun _ => True) rfl
    (fun x hx pool hstep hr hshown => by
      subst hr
      obtain ⟨pre, label, events, post⟩ := x
      have hcase : StepCase pre label post := step_cases (hinv _ hx).1 hstep
      cases hcase with
      | pool _ _ | publish _ _ _ => cases hshown
      | drain _ _ | submit _ | completeOther _ _ | interrupted _ => rfl
      | complete _ hop hk hphase hpending =>
          simp only [poolShown, hop] at hshown
          cases hshown)
    (fun x hx pool b es hstep hr hshown => by
      subst hr
      obtain ⟨pre, label, events, post⟩ := x
      have hcase : StepCase pre label post := step_cases (hinv _ hx).1 hstep
      cases hcase with
      | pool ha hpool =>
          cases hshown
          obtain rfl := events_nil hpool
          exact ⟨_, hpool, rfl, trivial⟩
      | publish sqe hw hk =>
          cases hshown
          exact ⟨_, pool_publish hw hk sqe, rfl, trivial⟩
      | drain _ _ | submit _ | completeOther _ _ | interrupted _ => cases hshown
      | complete _ hop hk hphase hpending =>
          simp only [poolShown, hop, Option.map_some, Option.some.injEq, Prod.mk.injEq] at hshown
          obtain ⟨rfl, rfl⟩ := hshown
          exact ⟨_, pool_deliver hk hpending, rfl, trivial⟩)
  exact ⟨tr', hpool ▸ htr', hmap⟩

/-- The engine's part in a step. -/
def ringShown (x : Step (State R E) (Label R E) Unit) :
    Option (EngineCore.Label Nat × List (EngineCore.Event Nat)) :=
  match x.label with
  | .pool _ | .submit | .completeOther | .interrupted => none
  | .publish w sqe =>
      match x.pre.pool.workers[w]? with
      | some (.ran k _) =>
          if (x.pre.pool.jobs[k]?).any (·.waiter) then
            some (.post k sqe, (x.pre.ring.postCoroutine k sqe).2)
          else none
      | _ => none
  | .drain sqe => some (.drain sqe, (x.pre.ring.drainPendingPosts sqe).2)
  | .complete j => (x.pre.ring.submitted[j]?).map fun op => (.complete j, [.resumed op])

/-- Seen from the engine, the workers are threads that post coroutines. -/
theorem exists_ringTrace {threadCount : Nat} {tr : List (Step (State R E) (Label R E) Unit)}
    {s : State R E} (h : Trace State.step (.start threadCount) tr s) :
    ∃ tr', Trace EngineCore.Ring.step {} tr' s.ring ∧
      tr'.map (fun x => (x.label, x.events)) = tr.filterMap ringShown := by
  have hinv := (inv_trace h).2
  obtain ⟨tr', ring, htr', hring, -, hmap⟩ := h.simulate EngineCore.Ring.step
    (fun s ring => ring = s.ring) ringShown (fun _ => True) rfl
    (fun x hx ring hstep hr hshown => by
      subst hr
      obtain ⟨pre, label, events, post⟩ := x
      have hcase : StepCase pre label post := step_cases (hinv _ hx).1 hstep
      cases hcase with
      | pool _ _ | submit _ | completeOther _ _ | interrupted _ => rfl
      | @publish w k outcome job sqe hw hk =>
          by_cases hwaiter : job.waiter = true
          · simp [ringShown, hw, hk, hwaiter] at hshown
          · exact (if_neg hwaiter).symm
      | drain _ sqe => cases hshown
      | complete _ hop hk hphase hpending =>
          simp only [ringShown, hop] at hshown
          cases hshown)
    (fun x hx ring b es hstep hr hshown => by
      subst hr
      obtain ⟨pre, label, events, post⟩ := x
      have hcase : StepCase pre label post := step_cases (hinv _ hx).1 hstep
      cases hcase with
      | pool _ _ | submit _ | completeOther _ _ | interrupted _ => cases hshown
      | @publish w k outcome job sqe hw hk =>
          by_cases hwaiter : job.waiter = true
          · simp only [ringShown, hw, hk, Option.any_some, hwaiter, if_true, Option.some.injEq,
              Prod.mk.injEq] at hshown
            obtain ⟨rfl, rfl⟩ := hshown
            exact ⟨_, rfl, (if_pos hwaiter).symm, trivial⟩
          · simp [ringShown, hw, hk, hwaiter] at hshown
      | drain _ sqe =>
          cases hshown
          exact ⟨_, rfl, rfl, trivial⟩
      | complete _ hop hk hphase hpending =>
          simp only [ringShown, hop, Option.map_some, Option.some.injEq, Prod.mk.injEq] at hshown
          obtain ⟨rfl, rfl⟩ := hshown
          exact ⟨completed pre.ring _,
            by simp [EngineCore.Ring.step, Ring.completion, hop, completed], rfl, trivial⟩)
  exact ⟨tr', hring ▸ htr', hmap⟩

/-- How a coroutine that waits for a function comes to go on: by itself, or once by the event
loop, which has one post for it and takes it up. -/
inductive Resumption (ring : EngineCore.Ring Nat) (taken : List Nat) (k : Nat) (job : Job R E) :
    Prop
  | unposted (hphase : job.phase ≠ .resumed) (hposts : job.posts = 0)
      (hring : k ∉ postsOf ring) (htaken : k ∉ taken)
  | posted (hphase : job.phase = .suspended) (hposts : job.posts = 1)
      (hring : (postsOf ring).count k = 1) (htaken : k ∉ taken)
  | taken (hphase : job.phase = .resumed) (hposts : job.posts = 1) (hring : k ∉ postsOf ring)
      (htaken : taken.count k = 1)

theorem Inv.resumption {s : State R E} (h : Inv s) {k : Nat} {job : Job R E}
    (hk : s.pool.jobs[k]? = some job) : Resumption s.ring s.taken k job := by
  have hposts := h.posts k
  have htaken := h.taken k
  rw [countAt_of hk] at hposts htaken
  cases h.pool.sound k job hk with
  | unpublished runs hruns hphase =>
      refine .unposted ?_ rfl (List.count_eq_zero.mp hposts) (List.count_eq_zero.mp ?_)
      · rcases hphase with ⟨rfl, -⟩ | ⟨rfl, -⟩ | ⟨rfl, -⟩ <;> simp
      · change _ = 0 at htaken
        omega
  | unseen outcome hphase =>
      have hzero : (Job.settled outcome).pending = 0 ∧ (Job.settled outcome).posts = 0 := by
        cases outcome <;> exact ⟨rfl, rfl⟩
      refine .unposted ?_ hzero.2 (List.count_eq_zero.mp (hposts.trans hzero.1))
        (List.count_eq_zero.mp ?_)
      · rcases hphase with rfl | rfl <;> simp
      · change _ = (Job.settled outcome).posts at htaken
        omega
  | posted outcome _ =>
      refine .posted rfl rfl hposts (List.count_eq_zero.mp ?_)
      change _ = 1 at hposts htaken
      omega
  | passed outcome waiter =>
      have hzero : (Job.settled outcome).pending = 0 ∧ (Job.settled outcome).posts = 0 := by
        cases outcome <;> exact ⟨rfl, rfl⟩
      refine .unposted (by simp) hzero.2 (List.count_eq_zero.mp (hposts.trans hzero.1))
        (List.count_eq_zero.mp ?_)
      change _ = (Job.settled outcome).posts at htaken
      omega
  | resumed outcome =>
      have hzero : (Job.settled outcome).pending = 0 := by cases outcome <;> rfl
      have hring := hposts.trans hzero
      refine .taken rfl rfl (List.count_eq_zero.mp hring) ?_
      change _ = 1 at htaken
      omega

/-- On every interleaving of the workers with the event loop: no coroutine is resumed that is not
suspended, the pool and the engine behave as each does by itself, and every coroutine is
posted at most once and resumed from the ring exactly as often as it is posted and taken up. -/
theorem pool_posts_handed_over (threadCount : Nat)
    (tr : List (Step (State R E) (Label R E) Unit)) (s : State R E)
    (h : Trace State.step (.start threadCount) tr s) :
    s.undefined = false ∧
      (∃ tr', Trace (Pool.step true) (Pool.start threadCount) tr' s.pool ∧
        tr'.map (fun x => (x.label, x.events)) = tr.filterMap poolShown) ∧
      (∃ tr', Trace EngineCore.Ring.step {} tr' s.ring ∧
        tr'.map (fun x => (x.label, x.events)) = tr.filterMap ringShown) ∧
      ∀ k job, s.pool.jobs[k]? = some job → Resumption s.ring s.taken k job :=
  ⟨(inv_trace h).1.defined, exists_poolTrace h, exists_ringTrace h, fun _ _ hk =>
    (inv_trace h).1.resumption hk⟩

/-- A function that ends after its caller has begun to wait, with no free entry for the post. -/
def oneCall : List (Label Nat String) :=
  [.drain fun _ => true, .interrupted, .pool .push, .pool (.awaitReady 0), .pool (.awaitSuspend 0),
    .submit, .drain fun _ => true, .pool (.dequeue 0), .pool (.run 0 (.ok 5)), .publish 0 false,
    .completeOther, .drain fun _ => true, .complete 0]

theorem pool_posts_handed_over_one : ∃ tr s, Trace State.step (.start 1 : State Nat String) tr s ∧
    tr.map (·.label) = oneCall ∧ s.taken = [0] ∧ s.undefined = false ∧
      (∃ tr', Trace (Pool.step true) (Pool.start 1) tr' s.pool ∧
        tr'.map (fun x => (x.label, x.events)) = tr.filterMap poolShown) ∧
      (∃ tr', Trace EngineCore.Ring.step {} tr' s.ring ∧
        tr'.map (fun x => (x.label, x.events)) = tr.filterMap ringShown) ∧
      ∃ job, s.pool.jobs[0]? = some job ∧ job.phase = .resumed ∧
        Resumption s.ring s.taken 0 job := by
  obtain ⟨tr, s, htr, hlabels, htaken, hphase⟩ := exists_labelled_trace State.step
    (.start 1 : State Nat String) oneCall
    (fun _ s => s.taken = [0] ∧ (s.pool.jobs[0]?).map (·.phase) = some .resumed) (by decide)
  obtain ⟨job, hjob, hresumed⟩ := Option.map_eq_some_iff.mp hphase
  obtain ⟨hdefined, hpool, hring, hresumption⟩ := pool_posts_handed_over 1 tr s htr
  exact ⟨tr, s, htr, hlabels, htaken, hdefined, hpool, hring, job, hjob, hresumed,
    hresumption 0 job hjob⟩

end Servd.PoolPosts
