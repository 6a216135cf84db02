import Servd.FrameIO
import Servd.Logger
import Servd.Lib.Coroutine
import Servd.Lib.Transition

/-!
`run()` and `stop()`, and the loops that live on the event loop. `stop()` clears a flag that both
the event loop and the coroutines of the engine test, each when its turn comes; a signal sets
a flag that only the event loop tests. What a stop costs, and which errors a listener, a timer
and a monitor get over, is decided by where these tests stand, and by whether the call of the
logger in a `catch` block throws.
-/
namespace Servd.EventLoop

open Coroutine Transition

inductive Op
  | await
  -- the test of `while (running)`
  | running
  -- `Server::stop`
  | stop
  -- `while (sd_bus_process(bus, nullptr) > 0) {}`
  | process
  -- a call of the logger
  | log (level : LogLevel)

def Op.Ans : Op → Type
  | .await => Int
  | .running => Bool
  | .stop | .process => Unit
  | .log _ => Except Exc Unit

abbrev Code := Coro Op Op.Ans Exc

def resumed (cqeRes : Int) : Code Int :=
  match awaitResume cqeRes with
  | .ok res => .ret res
  | .error e => .throw e

/-- A call of the logger, whose exceptions nobody catches here. -/
def logLine (level : LogLevel) : Code Unit :=
  .call (.log level) fun r =>
    match r with
    | .ok () => .ret ()
    | .error e => .throw e

/-- The blocks `try { ... } catch (const std::exception& e) { ... }`, which log and go on. -/
def catchStd : Code Unit → Code Unit
  | .ret _ => .ret ()
  | .throw e => if e.isStd then logLine .error else .throw e
  | .call o k => .call o fun r => catchStd (k r)

/-- The loops of the engine. A turn begins with an operation in the ring. -/
inductive Service
  -- `start_accept_loop`, `start_udp_loop`, `start_discovery_loop`
  | listener
  -- `periodic_timer_loop`
  | timer
  -- `bus_monitor_loop`
  | monitor
  deriving DecidableEq

namespace Service

def isListener : Service → Bool
  | .listener => true
  | .timer | .monitor => false

/-- The turn that a completion begins. `body` is what a listener does with what it has received, or
the handler of the timer does this time. -/
def turn (body : Int → Code Unit) : Service → Int → Code Unit
  | .listener, res => catchStd (resumed res >>= body)
  | .timer, res => resumed res >>= fun res => catchStd (body res)
  | .monitor, res => resumed res >>= fun mask =>
      if mask < 0 then .ret () else .call .process fun _ => .ret ()

end Service

/-- Why a loop is over: it has found the flag cleared, or an exception has left it, which
`DetachedTask` drops. -/
inductive Reason
  | stopped
  | threw (e : Exc)
  deriving DecidableEq

inductive Status
  -- for the operation that begins its next turn
  | idle
  -- for another one, in a turn
  | waiting (k : Int → Code Unit)
  | ended (why : Reason)

structure Loop where
  service : Service
  status : Status

/-- What a completion resumes. -/
def Loop.resumes (l : Loop) (body : Int → Code Unit) : Option (Int → Code Unit) :=
  match l.status with
  | .idle => some (l.service.turn body)
  | .waiting k => some k
  | .ended _ => none

/-- Where the event loop is. -/
inductive Phase
  | outside | testing | waiting
  deriving DecidableEq

structure State where
  logger : Logger
  running : Bool
  signalReceived : Bool
  phase : Phase
  loops : List Loop
  -- the other coroutines, those of the clients above all, as long as they wait
  guests : List (Option (Int → Code Unit))

inductive Event
  | stop
  deriving DecidableEq

inductive Coroutine
  | loop (i : Nat)
  | guest (j : Nat)

inductive Label
  -- `run()` is called
  | run
  | test
  | interrupted
  -- a completion; `callbacks`: a callback of D-Bus calls `stop()`; `body`: what is done in the turn
  -- that the completion begins, if it begins one
  | complete (c : Coroutine) (res : Int) (callbacks : Bool) (body : Int → Code Unit)
  -- `stop()` on another thread, or outside of `run()`
  | stop
  | signal
  -- another coroutine comes to its first operation
  | spawn (k : Int → Code Unit)
  -- the application sets up the logger
  | configure (logger : Logger)

/-- Where a coroutine comes to when it is resumed. -/
inductive Progress
  | waits (k : Int → Code Unit)
  | returned
  | threw (e : Exc)

def advance (logger : Logger) (callbacks : Bool) : Code Unit → Bool → Progress × Bool × List Event
  | .ret _, running => (.returned, running, [])
  | .throw e, running => (.threw e, running, [])
  | .call .await k, running => (.waits k, running, [])
  | .call .running k, running => advance logger callbacks (k running) running
  | .call (.log level) k, running => advance logger callbacks (k (logger.logged level)) running
  | .call .stop k, _ =>
      let r := advance logger callbacks (k ()) false
      (r.1, r.2.1, .stop :: r.2.2)
  | .call .process k, running =>
      if callbacks then
        let r := advance logger callbacks (k ()) false
        (r.1, r.2.1, .stop :: r.2.2)
      else advance logger callbacks (k ()) running

/-- The end of a turn is the test of `while (running)`. -/
def Progress.status : Progress → Bool → Status
  | .waits k, _ => .waiting k
  | .returned, running => if running then .idle else .ended .stopped
  | .threw e, _ => .ended (.threw e)

def Progress.guest : Progress → Option (Int → Code Unit)
  | .waits k => some k
  | .returned | .threw _ => none

namespace State

/-- After `init()`. -/
def start (services : List Service) (logger : Logger) : State where
  logger := logger
  running := true
  signalReceived := false
  phase := .outside
  loops := services.map fun service => ⟨service, .idle⟩
  guests := []

def complete (s : State) (res : Int) (callbacks : Bool) (body : Int → Code Unit) :
    Coroutine → Option (State × List Event)
  | .loop i =>
      match s.loops[i]?.bind fun l => (l.resumes body).map fun k => (l, k) with
      | some (l, k) =>
          let r := advance s.logger callbacks (k res) s.running
          some ({ s with
            phase := .testing
            running := r.2.1
            loops := s.loops.set i ⟨l.service, r.1.status r.2.1⟩ }, r.2.2)
      | none => none
  | .guest j =>
      match s.guests[j]? with
      | some (some k) =>
          let r := advance s.logger callbacks (k res) s.running
          some ({ s with
            phase := .testing
            running := r.2.1
            guests := s.guests.set j r.1.guest }, r.2.2)
      | _ => none

def step (s : State) : Label → Option (State × List Event)
  | .run =>
      if s.phase = .outside then
        -- if the line about the start cannot be logged, the exception leaves `run()`
        some ({ s with
          phase := if (s.logger.logged .info).isOk then .testing else .outside
          running := true
          signalReceived := false }, [])
      else none
  | .test =>
      if s.phase = .testing then
        if s.running ∧ ¬ s.signalReceived then some ({ s with phase := .waiting }, [])
        else some ({ s with phase := .outside, running := false }, [])
      else none
  | .interrupted => if s.phase = .waiting then some ({ s with phase := .testing }, []) else none
  | .complete c res callbacks body =>
      if s.phase = .waiting then s.complete res callbacks body c else none
  | .stop => some ({ s with running := false }, [.stop])
  | .signal => some ({ s with signalReceived := true }, [])
  | .spawn k => some ({ s with guests := s.guests ++ [some k] }, [])
  | .configure logger => some ({ s with logger := logger }, [])

end State

section Resumption

variable (logger : Logger) (callbacks : Bool) (c : Code Unit)

/-- Nothing on the event loop sets the flag again. -/
theorem advance_running (running : Bool) : (advance logger callbacks c running).2.1 =
    (running && (advance logger callbacks c running).2.2.isEmpty) := by
  induction c generalizing running with
  | ret _ | throw _ => exact (Bool.and_true running).symm
  | call o k ih =>
      cases o with
      | await => exact (Bool.and_true running).symm
      | running => exact ih running running
      | log level => exact ih (logger.logged level) running
      | stop => exact (ih () false).trans (Bool.and_false running).symm
      | process =>
          rw [advance]
          split
          · exact (ih () false).trans (Bool.and_false running).symm
          · exact ih () running

/-- A `std::exception` leaves the code only from a call of the logger that nobody catches. -/
def Guarded : Code Unit → Prop
  | .ret _ => True
  | .throw e => e.isStd = false
  | .call (.log _) k => Guarded (k (.ok ())) ∧ ∀ e, Guarded (k (.error e)) ∨ k (.error e) = .throw e
  | .call .await k => ∀ res, Guarded (k res)
  | .call .running k => ∀ running, Guarded (k running)
  | .call .stop k | .call .process k => Guarded (k ())

theorem guarded_catchStd (c : Code Unit) : Guarded (catchStd c) := by
  induction c with
  | ret _ => trivial
  | throw e =>
      rw [catchStd]
      split
      · exact ⟨trivial, fun e => .inr rfl⟩
      · rename_i hstd
        exact Bool.eq_false_iff.mpr hstd
  | call o k ih =>
      cases o with
      | log level => exact ⟨ih _, fun e => .inl (ih _)⟩
      | await => exact fun res => ih res
      | running => exact fun running => ih running
      | stop | process => exact ih ()

/-- Resumed with whatever result, a coroutine that waits is guarded. -/
def Progress.Guarded : Progress → Prop
  | .waits k => ∀ res, EventLoop.Guarded (k res)
  | .returned => True
  | .threw e => e.isStd = false

variable {logger callbacks c}

theorem logged_of_le (hwidth : 2 ≤ logger.fileColumnWidth) (level : LogLevel) :
    logger.logged level = .ok () :=
  if_neg fun h => UInt64.not_lt.mpr hwidth h.2

/-- Guarded code goes on as guarded code, unless a call of the logger throws. -/
theorem advance_guarded (h : Guarded c) (running : Bool) :
    (advance logger callbacks c running).1.Guarded ∨ logger.fileColumnWidth < 2 ∧
      ∃ e, (advance logger callbacks c running).1 = .threw e := by
  induction c generalizing running with
  | ret _ => exact .inl trivial
  | throw _ => exact .inl h
  | call o k ih =>
      cases o with
      | await => exact .inl h
      | running => exact ih running (h running) running
      | log level =>
          rw [advance]
          cases hlogged : logger.logged level with
          | ok u => exact ih (.ok u) h.1 running
          | error e =>
              rcases h.2 e with hguarded | hthrows
              · exact ih (.error e) hguarded running
              · have hwidth : logger.fileColumnWidth < 2 := by
                  by_contra hwide
                  rw [logged_of_le (UInt64.not_lt.mp hwide)] at hlogged
                  cases hlogged
                rw [hthrows]
                exact .inr ⟨hwidth, e, rfl⟩
      | stop => exact ih () h false
      | process =>
          rw [advance]
          split
          · exact ih () h false
          · exact ih () h running

/-- The results that `await_resume` turns into an exception. -/
def Fails (res : Int) : Prop := res < 0 ∧ res ≠ -etime

theorem resumed_eq {res : Int} (h : ¬ Fails res) : resumed res = .ret res := by
  have hok : awaitResume res = .ok res := if_neg h
  rw [resumed, hok]

theorem guarded_turn {service : Service} {body : Int → Code Unit} {res : Int}
    (h : service.isListener = true ∨ ¬ Fails res) : Guarded (service.turn body res) := by
  cases service with
  | listener => exact guarded_catchStd _
  | timer =>
      rw [Service.turn, resumed_eq (h.resolve_left (by simp [Service.isListener]))]
      exact guarded_catchStd _
  | monitor =>
      rw [Service.turn, resumed_eq (h.resolve_left (by simp [Service.isListener]))]
      rw [Coro.ret_bind]
      split <;> trivial

end Resumption

/-- What a step does. -/
inductive StepCase (s : State) : Label → State → List Event → Prop
  | run (hphase : s.phase = .outside) (phase : Phase) (hnext : phase ≠ .waiting) :
      StepCase s .run { s with phase := phase, running := true, signalReceived := false } []
  | waits (hphase : s.phase = .testing) (hrunning : s.running = true)
      (hsignal : s.signalReceived = false) : StepCase s .test { s with phase := .waiting } []
  | leaves (hphase : s.phase = .testing) (hasked : s.running = false ∨ s.signalReceived = true) :
      StepCase s .test { s with phase := .outside, running := false } []
  | interrupted (hphase : s.phase = .waiting) :
      StepCase s .interrupted { s with phase := .testing } []
  | loop (hphase : s.phase = .waiting) (i : Nat) (l : Loop) (k : Int → Code Unit)
      (hloop : s.loops[i]? = some l) (res : Int) (callbacks : Bool) (body : Int → Code Unit)
      (hk : l.resumes body = some k) (progress : Progress) (running : Bool) (evs : List Event)
      (hadvance : advance s.logger callbacks (k res) s.running = (progress, running, evs)) :
      StepCase s (.complete (.loop i) res callbacks body)
        { s with
          phase := .testing
          running := running
          loops := s.loops.set i ⟨l.service, progress.status running⟩ } evs
  | guest (hphase : s.phase = .waiting) (j : Nat) (k : Int → Code Unit)
      (hguest : s.guests[j]? = some (some k)) (res : Int) (callbacks : Bool)
      (body : Int → Code Unit) (progress : Progress) (running : Bool) (evs : List Event)
      (hadvance : advance s.logger callbacks (k res) s.running = (progress, running, evs)) :
      StepCase s (.complete (.guest j) res callbacks body)
        { s with
          phase := .testing
          running := running
          guests := s.guests.set j progress.guest } evs
  | stop : StepCase s .stop { s with running := false } [.stop]
  | signal : StepCase s .signal { s with signalReceived := true } []
  | spawn (k : Int → Code Unit) : StepCase s (.spawn k) { s with guests := s.guests ++ [some k] } []
  | configure (logger : Logger) : StepCase s (.configure logger) { s with logger := logger } []

section Steps

variable {s s' : State} {a : Label} {evs : List Event}

theorem step_cases (h : s.step a = some (s', evs)) : StepCase s a s' evs := by
  cases a with
  | run =>
      simp only [State.step] at h
      split at h
      · rename_i hphase
        cases h
        exact .run hphase _ (by split <;> simp)
      · cases h
  | test =>
      simp only [State.step] at h
      split at h
      · rename_i hphase
        split at h
        · rename_i hgoes
          cases h
          exact .waits hphase hgoes.1 (Bool.eq_false_iff.mpr hgoes.2)
        · rename_i hends
          cases h
          refine .leaves hphase ?_
          cases hrunning : s.running with
          | false => exact .inl rfl
          | true => exact .inr (by simpa [hrunning] using hends)
      · cases h
  | interrupted =>
      simp only [State.step] at h
      split at h
      · rename_i hphase
        cases h
        exact .interrupted hphase
      · cases h
  | complete c res callbacks body =>
      simp only [State.step] at h
      split at h
      · rename_i hphase
        cases c with
        | loop i =>
            simp only [State.complete] at h
            split at h
            · rename_i l k hresumes
              simp only [Option.bind_eq_some_iff, Option.map_eq_some_iff, Prod.mk.injEq] at hresumes
              obtain ⟨_, hloop, _, hk, rfl, rfl⟩ := hresumes
              cases h
              exact .loop hphase i _ _ hloop res callbacks body hk _ _ _ rfl
            · cases h
        | guest j =>
            simp only [State.complete] at h
            split at h
            · rename_i k hguest
              cases h
              exact .guest hphase j k hguest res callbacks body _ _ _ rfl
            · cases h
      · cases h
  | stop =>
      cases h
      exact .stop
  | signal =>
      cases h
      exact .signal
  | spawn k =>
      cases h
      exact .spawn k
  | configure logger =>
      cases h
      exact .configure logger

end Steps

/-- The event loop has been asked to end. -/
def State.Asked (s : State) : Prop := s.running = false ∨ s.signalReceived = true

/-- One completion can still be taken without a test before it. -/
def State.pending (s : State) : Nat := if s.phase = .waiting then 1 else 0

def Label.isCompletion : Label → Bool
  | .complete _ _ _ _ => true
  | _ => false

def Label.isRun : Label → Bool
  | .run => true
  | _ => false

theorem asked_step {s s' : State} {a : Label} {evs : List Event} (hs : s.Asked)
    (hrun : a.isRun = false) (h : s.step a = some (s', evs)) :
    s'.Asked ∧ [a].countP Label.isCompletion + s'.pending ≤ s.pending := by
  have hresumed : ∀ {callbacks : Bool} {c : Code Unit} {progress : Progress} {running : Bool}
      {evs : List Event}, advance s.logger callbacks c s.running = (progress, running, evs) →
        running = false ∨ s.signalReceived = true := by
    intro callbacks c progress running evs hadvance
    refine hs.imp_left fun hstopped => ?_
    have hrunning := advance_running s.logger callbacks c s.running
    rw [hadvance, hstopped] at hrunning
    exact hrunning
  cases step_cases h with
  | run hphase phase hnext => cases hrun
  | waits hphase hrunning hsignal =>
      rcases hs with hstopped | hsignalled
      · rw [hrunning] at hstopped
        cases hstopped
      · rw [hsignal] at hsignalled
        cases hsignalled
  | leaves hphase hasked => exact ⟨.inl rfl, by simp [State.pending, Label.isCompletion]⟩
  | interrupted hphase => exact ⟨hs, by simp [State.pending, Label.isCompletion]⟩
  | loop hphase i l k hloop res callbacks body hk progress running evs hadvance =>
      exact ⟨hresumed hadvance, by simp [State.pending, hphase, Label.isCompletion]⟩
  | guest hphase j k hguest res callbacks body progress running evs hadvance =>
      exact ⟨hresumed hadvance, by simp [State.pending, hphase, Label.isCompletion]⟩
  | stop => exact ⟨.inl rfl, by simp [State.pending, Label.isCompletion]⟩
  | signal => exact ⟨.inr rfl, by simp [State.pending, Label.isCompletion]⟩
  | spawn _ | configure _ => exact ⟨hs, by simp [State.pending, Label.isCompletion]⟩

theorem asked_run {s s' : State} {tr : List (Step State Label Event)} (hs : s.Asked)
    (hrun : ∀ x ∈ tr, x.label.isRun = false) (h : Trace State.step s tr s') :
    s'.Asked ∧ (tr.map (·.label)).countP Label.isCompletion + s'.pending ≤ s.pending := by
  induction h with
  | nil => exact ⟨hs, by simp⟩
  | @snoc tr m s' a evs htr hstep ih =>
      obtain ⟨hasked, hcount⟩ := ih fun x hx => hrun x (List.mem_append_left _ hx)
      obtain ⟨hasked', hcount'⟩ := asked_step hasked (hrun ⟨m, a, evs, s'⟩ (by simp)) hstep
      refine ⟨hasked', ?_⟩
      rw [List.map_append, List.countP_append, List.map_singleton]
      omega

theorem asked_of_stop {s s' : State} {a : Label} {evs : List Event} (h : s.step a = some (s', evs))
    (hstop : a = .signal ∨ .stop ∈ evs) :
    s'.Asked ∧ (a.isCompletion = true → s'.phase = .testing) := by
  have hresumed : ∀ {callbacks : Bool} {c : Code Unit} {progress : Progress} {running : Bool}
      {evs : List Event}, advance s.logger callbacks c s.running = (progress, running, evs) →
        .stop ∈ evs → running = false := by
    intro callbacks c progress running evs hadvance hmem
    have hrunning := advance_running s.logger callbacks c s.running
    rw [hadvance] at hrunning
    cases evs with
    | nil => cases hmem
    | cons _ _ => exact hrunning.trans (Bool.and_false _)
  cases step_cases h with
  | run _ _ _ | waits _ _ _ | leaves _ _ | interrupted _ | spawn _ | configure _ => simp at hstop
  | loop hphase i l k hloop res callbacks body hk progress running evs hadvance =>
      exact ⟨.inl (hresumed hadvance (hstop.resolve_left (by simp))), fun _ => rfl⟩
  | guest hphase j k hguest res callbacks body progress running evs hadvance =>
      exact ⟨.inl (hresumed hadvance (hstop.resolve_left (by simp))), fun _ => rfl⟩
  | stop => exact ⟨.inl rfl, fun hcompletion => by cases hcompletion⟩
  | signal => exact ⟨.inr rfl, fun hcompletion => by cases hcompletion⟩

/-- After a call of `stop()` or a signal, and until `run()` is called again, at most one completion
is taken, and none when the call was made by a coroutine on the event loop; whatever else happens,
the next test of the event loop is its last. -/
theorem stop_ends_run (services : List Service) (logger : Logger)
    (before after : List (Step State Label Event)) (x : Step State Label Event) (s : State)
    (h : Trace State.step (.start services logger) (before ++ x :: after) s)
    (hstop : x.label = .signal ∨ .stop ∈ x.events) (hrun : ∀ y ∈ after, y.label.isRun = false) :
    (after.map (·.label)).countP Label.isCompletion ≤ (if x.post.phase = .waiting then 1 else 0) ∧
      (x.label.isCompletion = true → (after.map (·.label)).countP Label.isCompletion = 0) ∧
      (s.phase = .testing →
        s.step .test = some ({ s with phase := .outside, running := false }, [])) := by
  obtain ⟨m, -, hafter⟩ := h.split
  obtain ⟨rfl, hstep, hafter⟩ := hafter.split_cons
  obtain ⟨hasked, hphase⟩ := asked_of_stop hstep hstop
  obtain ⟨hasked', hcount⟩ := asked_run hasked hrun hafter
  refine ⟨by simp only [State.pending] at hcount; omega, fun hcompletion => ?_, fun htesting => ?_⟩
  · have hnone : x.post.pending = 0 := by simp [State.pending, hphase hcompletion]
    omega
  · have hends : ¬ (s.running ∧ ¬ s.signalReceived) := by
      rcases hasked' with hstopped | hsignal
      · simp [hstopped]
      · simp [hsignal]
    rw [State.step, if_pos htesting, if_neg hends]

/-- `stop()` on another thread, while a server with one listener waits: the next connection is still
taken, and then the listener is over. -/
def stopWhileWaiting : List Label :=
  [.run, .test, .stop, .complete (.loop 0) 5 false fun _ => .ret (), .test]

theorem stop_ends_run_waiting : ∃ before x after s,
    Trace State.step (.start [.listener] {}) (before ++ x :: after) s ∧
      (before ++ x :: after).map (·.label) = stopWhileWaiting ∧
      (after.map (·.label)).countP Label.isCompletion = 1 ∧ x.post.phase = .waiting ∧
      (after.map (·.label)).countP Label.isCompletion ≤
        if x.post.phase = .waiting then 1 else 0 := by
  have htrace := trace_of_exec (show exec State.step (.start [.listener] {})
    stopWhileWaiting = some (_, _) from rfl)
  exact ⟨[_, _], _, [_, _], _, htrace, rfl, rfl, rfl, (stop_ends_run _ _ [_, _] [_, _] _ _ htrace
    (.inr (List.mem_singleton_self _)) (by simp [Label.isRun])).1⟩

/-! The loops that are lost. -/

def Loop.isStopped (l : Loop) : Bool :=
  match l.status with
  | .ended .stopped => true
  | .idle | .waiting _ | .ended (.threw _) => false

namespace State

/-- The loops that have found the flag cleared. -/
def lost (s : State) : Nat := s.loops.countP Loop.isStopped

/-- The present call of `run()` may still cost a loop. -/
def mayLose (s : State) : Nat :=
  if s.phase = .waiting ∨ s.phase = .testing ∧ s.running = true then 1 else 0

/-- A call of `stop()` has not been noticed yet. -/
def unnoticed (s : State) : Nat := if s.phase = .waiting ∧ s.running = false then 1 else 0

end State

theorem Loop.isStopped_of_resumes {l : Loop} {body : Int → Code Unit} {k : Int → Code Unit}
    (hk : l.resumes body = some k) : l.isStopped = false := by
  obtain ⟨service, status⟩ := l
  cases status with
  | idle | waiting _ => rfl
  | ended why => cases hk

theorem lost_set {loops : List Loop} {i : Nat} {l : Loop} {body : Int → Code Unit}
    {k : Int → Code Unit} (hloop : loops[i]? = some l) (hk : l.resumes body = some k)
    (status : Status) : (loops.set i ⟨l.service, status⟩).countP Loop.isStopped =
      loops.countP Loop.isStopped + if (⟨l.service, status⟩ : Loop).isStopped then 1 else 0 := by
  obtain ⟨hi, hget⟩ := List.getElem?_eq_some_iff.mp hloop
  rw [List.countP_set hi, hget]
  simp [Loop.isStopped_of_resumes hk]

/-- A loop that was resumed has found the flag cleared only if it is cleared. -/
theorem status_isStopped {service : Service} {progress : Progress} {running : Bool}
    (h : (⟨service, progress.status running⟩ : Loop).isStopped = true) : running = false := by
  cases progress with
  | waits _ | threw _ => cases h
  | returned =>
      cases running with
      | false => rfl
      | true => cases h

section Accounts

variable {s : State}

theorem mayLose_le (s : State) : s.mayLose ≤ 1 := by
  rw [State.mayLose]
  split <;> decide

theorem mayLose_of_waiting (h : s.phase = .waiting) : s.mayLose = 1 := if_pos (.inl h)

theorem mayLose_of_stopped (h : s.phase ≠ .waiting) (hstopped : s.running = false) :
    s.mayLose = 0 :=
  if_neg fun hor => hor.elim h fun htesting => by simp [hstopped] at htesting

theorem unnoticed_le (s : State) : s.unnoticed ≤ 1 := by
  rw [State.unnoticed]
  split <;> decide

theorem unnoticed_of_not_waiting (h : s.phase ≠ .waiting) : s.unnoticed = 0 :=
  if_neg fun hand => h hand.1

theorem unnoticed_of_running (h : s.running = true) : s.unnoticed = 0 :=
  if_neg fun hand => by simp [h] at hand

theorem unnoticed_of_stopped (h : s.phase = .waiting) (hstopped : s.running = false) :
    s.unnoticed = 1 := if_pos ⟨h, hstopped⟩

end Accounts

/-- A call of `run()` costs at most one loop, and only with a call of `stop()`. -/
theorem lost_step {s s' : State} {a : Label} {evs : List Event} (h : s.step a = some (s', evs)) :
    s'.lost + s'.mayLose ≤ s.lost + s.mayLose + [a].countP Label.isRun ∧
      s'.lost + s'.unnoticed ≤ s.lost + s.unnoticed + evs.length := by
  cases step_cases h with
  | run hphase phase hnext =>
      rw [unnoticed_of_running rfl]
      exact ⟨Nat.add_le_add (Nat.le_add_right _ _) (mayLose_le _), Nat.le_add_right _ _⟩
  | waits hphase hrunning hsignal =>
      have hmay : s.mayLose = 1 := if_pos (.inr ⟨hphase, hrunning⟩)
      rw [hmay, unnoticed_of_running (s := { s with phase := .waiting }) hrunning]
      exact ⟨Nat.add_le_add_left (mayLose_le _) _, Nat.le_add_right _ _⟩
  | leaves hphase hasked =>
      rw [mayLose_of_stopped (by simp) rfl, unnoticed_of_not_waiting (by simp)]
      exact ⟨Nat.le_add_right_of_le (Nat.le_add_right _ _), Nat.le_add_right _ _⟩
  | interrupted hphase =>
      rw [mayLose_of_waiting hphase, unnoticed_of_not_waiting (by simp)]
      exact ⟨Nat.add_le_add_left (mayLose_le _) _, Nat.le_add_right _ _⟩
  | loop hphase i l k hloop res callbacks body hk progress running evs hadvance =>
      have hrunning := advance_running s.logger callbacks (k res) s.running
      rw [hadvance] at hrunning
      rw [mayLose_of_waiting hphase, unnoticed_of_not_waiting (by simp)]
      simp only [State.lost, lost_set hloop hk]
      split
      · rename_i hstopped
        -- the flag was cleared before this completion or by the coroutine itself
        have hcleared := status_isStopped hstopped
        rw [mayLose_of_stopped (by simp) hcleared]
        refine ⟨Nat.le_add_right _ _, ?_⟩
        cases hbefore : s.running with
        | false =>
            rw [unnoticed_of_stopped hphase hbefore]
            omega
        | true =>
            have hevents : evs ≠ [] := by
              rintro rfl
              simp [hbefore, hcleared] at hrunning
            have hpos := List.length_pos_iff.mpr hevents
            omega
      · exact ⟨Nat.add_le_add_left (mayLose_le _) _, by omega⟩
  | guest hphase j k hguest res callbacks body progress running evs hadvance =>
      rw [mayLose_of_waiting hphase, unnoticed_of_not_waiting (by simp)]
      exact ⟨Nat.add_le_add_left (mayLose_le _) _, Nat.le_add_right_of_le (Nat.le_add_right _ _)⟩
  | stop =>
      refine ⟨Nat.add_le_add_left ?_ _, ?_⟩
      · by_cases hphase : s.phase = .waiting
        · rw [mayLose_of_waiting hphase, mayLose_of_waiting (by exact hphase)]
        · rw [mayLose_of_stopped (by exact hphase) rfl]
          exact Nat.zero_le _
      · exact Nat.add_le_add (Nat.le_add_right _ _) (unnoticed_le _)
  | signal | spawn _ | configure _ => exact ⟨Nat.le_add_right _ _, Nat.le_add_right _ _⟩

theorem lost_run {s s' : State} {tr : List (Step State Label Event)}
    (h : Trace State.step s tr s') :
    s'.lost + s'.mayLose ≤ s.lost + s.mayLose + (tr.map (·.label)).countP Label.isRun ∧
      s'.lost + s'.unnoticed ≤ s.lost + s.unnoticed + (eventsOf tr).length := by
  induction h with
  | nil => exact ⟨Nat.le_refl _, Nat.le_refl _⟩
  | @snoc tr m s' a evs htr hstep ih =>
      obtain ⟨hruns, hstops⟩ := lost_step hstep
      simp only [List.map_append, List.map_cons, List.map_nil, List.countP_append, eventsOf_snoc,
        List.length_append]
      omega

/-- From a call of `run()` until the next one. -/
theorem lost_call {s : State} {x : Step State Label Event} {stretch : List (Step State Label Event)}
    (hlabel : x.label = .run) (hstretch : ∀ y ∈ stretch, y.label.isRun = false)
    (hstep : x.pre.step x.label = some (x.post, x.events))
    (h : Trace State.step x.post stretch s) :
    s.lost ≤ x.pre.lost + 1 ∧ (eventsOf stretch = [] → s.lost ≤ x.pre.lost) := by
  have hnone : (stretch.map (·.label)).countP Label.isRun = 0 := by
    rw [List.countP_eq_zero]
    intro a ha
    obtain ⟨y, hy, rfl⟩ := List.mem_map.mp ha
    simp [hstretch y hy]
  have hcalled : x.post.lost = x.pre.lost ∧ x.post.mayLose ≤ 1 ∧ x.post.unnoticed = 0 := by
    obtain ⟨pre, a, evs, post⟩ := x
    subst hlabel
    have hcase : StepCase pre .run post evs := step_cases hstep
    cases hcase with
    | run hphase phase hnext => exact ⟨rfl, mayLose_le _, unnoticed_of_not_waiting hnext⟩
  obtain ⟨hlost, hmay, hunnoticed⟩ := hcalled
  obtain ⟨hruns, hstops⟩ := lost_run h
  refine ⟨by omega, fun hevents => ?_⟩
  rw [hevents, List.length_nil] at hstops
  omega

/-! The exceptions that end a loop. -/

/-- Outside of any block that catches, the loop's own operation has failed. -/
structure OwnFailure (l : Loop) (res : Int) : Prop where
  idle : l.status = .idle
  unguarded : l.service.isListener = false
  fails : Fails res

/-- A loop that is in a turn is in a block that catches. -/
def Status.Guarded : Status → Prop
  | .waiting k => ∀ res, EventLoop.Guarded (k res)
  | .idle | .ended _ => True

section Exceptions

variable {l : Loop} {k : Int → Code Unit} {body : Int → Code Unit}

theorem resumes_guarded (hguarded : l.status.Guarded) (hk : l.resumes body = some k) (res : Int) :
    OwnFailure l res ∨ Guarded (k res) := by
  obtain ⟨service, status⟩ := l
  cases status with
  | idle =>
      cases hk
      by_cases hcaught : service.isListener = true ∨ ¬ Fails res
      · exact .inr (guarded_turn hcaught)
      · rw [not_or, not_not] at hcaught
        exact .inl ⟨rfl, Bool.eq_false_iff.mpr hcaught.1, hcaught.2⟩
  | waiting k' =>
      cases hk
      exact .inr (hguarded res)
  | ended why => cases hk

/-- The turn ends at once. -/
theorem OwnFailure.throws {res : Int} (h : OwnFailure l res) (hk : l.resumes body = some k) :
    ∃ e, k res = .throw e := by
  obtain ⟨service, status⟩ := l
  obtain ⟨rfl, hunguarded, hfails⟩ := h
  have hthrow : awaitResume res = .error (.std "io_uring operation failed") := if_pos hfails
  cases hk
  cases service with
  | listener => cases hunguarded
  | timer => exact ⟨_, by rw [Service.turn, resumed, hthrow]; rfl⟩
  | monitor => exact ⟨_, by rw [Service.turn, resumed, hthrow]; rfl⟩

theorem Progress.Guarded.status {progress : Progress} (h : progress.Guarded) (running : Bool) :
    (progress.status running).Guarded := by
  cases progress with
  | waits k => exact h
  | returned => cases running <;> trivial
  | threw e => trivial

theorem status_threw {progress : Progress} {running : Bool} {e : Exc}
    (h : progress.status running = .ended (.threw e)) : progress = .threw e := by
  cases progress with
  | waits k => cases h
  | returned => cases running <;> cases h
  | threw e' =>
      cases h
      rfl

/-- What a completion makes of a loop. -/
theorem resumed_status (hguarded : l.status.Guarded) (hk : l.resumes body = some k) {res : Int}
    {logger : Logger} {callbacks running running' : Bool} {progress : Progress}
    {evs : List Event}
    (h : advance logger callbacks (k res) running = (progress, running', evs)) :
    (progress.status running').Guarded ∧ ∀ e, progress.status running' = .ended (.threw e) →
      e.isStd = true → OwnFailure l res ∨ logger.fileColumnWidth < 2 := by
  have hprogress : (advance logger callbacks (k res) running).1 = progress := congrArg Prod.fst h
  rcases resumes_guarded hguarded hk res with hown | hcaught
  · obtain ⟨e, he⟩ := hown.throws hk
    rw [he, advance] at hprogress
    subst hprogress
    exact ⟨trivial, fun _ _ _ => .inl hown⟩
  · have hadvance : (advance logger callbacks (k res) running).1.Guarded ∨
        logger.fileColumnWidth < 2 ∧ ∃ e, (advance logger callbacks (k res) running).1 = .threw e :=
      advance_guarded hcaught running
    rcases hadvance with hgoes | ⟨hwidth, e, he⟩
    · rw [hprogress] at hgoes
      refine ⟨hgoes.status running', fun e hended hstd => ?_⟩
      rw [status_threw hended, Progress.Guarded, hstd] at hgoes
      cases hgoes
    · rw [he] at hprogress
      subst hprogress
      exact ⟨trivial, fun _ _ _ => .inr hwidth⟩

end Exceptions

/-- The completion that has ended the loop at `i`: either the loop's own operation has failed, and
the loop is no listener, or a log call has thrown in the block that catches. -/
def EndedBy (tr : List (Step State Label Event)) (i : Nat) (service : Service) : Prop :=
  ∃ x ∈ tr, ∃ res callbacks body l, x.label = .complete (.loop i) res callbacks body ∧
    x.pre.loops[i]? = some l ∧ l.service = service ∧
      (OwnFailure l res ∨ x.pre.logger.fileColumnWidth < 2)

/-- What is known of the loops after some steps. -/
structure Account (services : List Service) (tr : List (Step State Label Event)) (s : State) :
    Prop where
  services : s.loops.map (·.service) = services
  guarded : ∀ l ∈ s.loops, l.status.Guarded
  threw : ∀ i service e, s.loops[i]? = some ⟨service, .ended (.threw e)⟩ → e.isStd = true →
    EndedBy tr i service

section Account

variable {services : List Service}

theorem lost_start (services : List Service) (logger : Logger) :
    (State.start services logger).lost = 0 := by
  rw [State.lost, List.countP_eq_zero]
  intro l hl
  obtain ⟨service, -, rfl⟩ := List.mem_map.mp hl
  exact Bool.false_ne_true

theorem account_start (logger : Logger) : Account services [] (.start services logger) where
  services := by simp [State.start, Function.comp_def]
  guarded := by
    intro l hl
    obtain ⟨service, -, rfl⟩ := List.mem_map.mp hl
    trivial
  threw := by
    intro i service e hget
    obtain ⟨service', -, heq⟩ := List.mem_map.mp (List.mem_of_getElem? hget)
    cases heq

theorem account_step {tr : List (Step State Label Event)} {s s' : State} {a : Label}
    {evs : List Event} (hs : Account services tr s) (h : s.step a = some (s', evs)) :
    Account services (tr ++ [⟨s, a, evs, s'⟩]) s' := by
  -- what was known of an ended loop stays true
  have hthrew : ∀ i service e, s.loops[i]? = some ⟨service, .ended (.threw e)⟩ → e.isStd = true →
      EndedBy (tr ++ [⟨s, a, evs, s'⟩]) i service := by
    intro i service e hget hstd
    obtain ⟨x, hx, hended⟩ := hs.threw i service e hget hstd
    exact ⟨x, List.mem_append_left _ hx, hended⟩
  cases step_cases h with
  | run _ _ _ | waits _ _ _ | leaves _ _ | interrupted _ | stop | signal | spawn _ | configure _ =>
      exact ⟨hs.services, hs.guarded, hthrew⟩
  | guest _ _ _ _ _ _ _ _ _ _ _ => exact ⟨hs.services, hs.guarded, hthrew⟩
  | loop hphase i l k hloop res callbacks body hk progress running evs hadvance =>
      obtain ⟨hguarded, hends⟩ :=
        resumed_status (hs.guarded _ (List.mem_of_getElem? hloop)) hk hadvance
      refine ⟨?_, ?_, ?_⟩
      · obtain ⟨hi, hget⟩ := List.getElem?_eq_some_iff.mp hloop
        rw [List.map_set, ← hs.services]
        refine List.ext_getElem? fun n => ?_
        rw [List.getElem?_set, List.getElem?_map]
        split
        · rename_i heq
          subst heq
          simp [hi, hget]
        · rfl
      · intro l' hl'
        rcases List.mem_or_eq_of_mem_set hl' with hl' | rfl
        · exact hs.guarded l' hl'
        · exact hguarded
      · intro j service e hget hstd
        rw [List.getElem?_set] at hget
        split at hget
        · rename_i heq
          subst heq
          rw [if_pos (List.getElem?_eq_some_iff.mp hloop).1] at hget
          have heq := Option.some.inj hget
          exact ⟨_, List.mem_append_right _ (List.mem_singleton_self _), res, callbacks, body, l,
            rfl, hloop, congrArg Loop.service heq, hends e (congrArg Loop.status heq) hstd⟩
        · exact hthrew j service e hget hstd

theorem account_run {logger : Logger} {tr : List (Step State Label Event)} {s : State}
    (h : Trace State.step (.start services logger) tr s) : Account services tr s := by
  induction h with
  | nil => exact account_start logger
  | snoc _ hstep ih => exact account_step ih hstep

end Account

end Servd.EventLoop
