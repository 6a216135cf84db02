import Mathlib.Data.List.Perm.Basic
import Mathlib.Data.List.Range
import Servd.Lib.Transition

/-!
The coroutine frames behind `Task` and `DetachedTask`. A coroutine lives in a frame with its
promise, and a handle is all that others know of it: who awaits a `Task` stores its own
handle in the promise of the awaited one and transfers to it, and a `Task` that ends
transfers back. Nothing here knows which coroutine called which; that the stored handles
are always those of live frames, suspended where they are expected to be, is what is proved
about the runs.
-/
namespace Servd.TaskFrames

open Transition

/-- The address of a frame; a frame that is allocated gets one that was not used before. -/
abbrev Handle := Nat

/-- What a coroutine does next at a point of its body. The rest of an `await` is given what
`Task::await_resume` returns or throws. -/
inductive Instr (C O A V ε : Type)
  | coReturn (value : V)
  | throw (e : ε)
  -- `co_await` of a `UringOperation` that has been submitted
  | operation (o : O) (k : A → C)
  -- `co_await` of the `Task` that a call returns
  | await (task : C) (k : Except ε V → C)
  -- a call of a function that returns a `DetachedTask`
  | detach (task rest : C)

/-- `Task::promise_type`. -/
structure Promise (V ε : Type) where
  value : V
  exception : Option ε := none
  continuation : Option Handle := none

inductive Suspension (C A V ε : Type)
  | initial (body : C)
  | operation (k : A → C)
  | await (task : Handle) (k : Except ε V → C)
  | final
  -- on the native stack
  | running

/-- The promise of a `DetachedTask` holds nothing. -/
inductive Frame (C A V ε : Type)
  | task (suspension : Suspension C A V ε) (promise : Promise V ε)
  | detached (suspension : Suspension C A V ε)

structure Machine (S C O A V ε : Type) where
  -- what the coroutines share besides their frames
  globals : S
  heap : Handle → Option (Frame C A V ε) := fun _ => none
  next : Handle := 0
  -- the native stack: the coroutine that runs, over those whose calls have not returned
  stack : List (Handle × C) := []
  -- the operations in the ring, with the handle that is resumed
  ring : List (Handle × O) := []
  -- a handle was used that is not that of a frame suspended there
  undefined : Bool := false

inductive Label (C A : Type)
  -- a function that returns a `DetachedTask` is called from outside of the event loop
  | call (task : C)
  -- the coroutine on top of the native stack goes on
  | run
  -- the event loop takes a completion of the `k`-th operation in the ring
  | complete (k : Nat) (a : A)
  deriving DecidableEq

inductive Event (O V ε : Type)
  | submitted (o : O)
  | detachedEnded (outcome : Except ε V)

variable {S C O A V ε : Type}

namespace Promise

/-- `return_value` and `unhandled_exception`. -/
def settle (p : Promise V ε) : Except ε V → Promise V ε
  | .ok v => { p with value := v }
  | .error e => { p with exception := some e }

/-- `Task::await_resume`. -/
def awaitResume (p : Promise V ε) : Except ε V :=
  match p.exception with
  | some e => .error e
  | none => .ok p.value

end Promise

namespace Frame

def suspension : Frame C A V ε → Suspension C A V ε
  | .task s _ => s
  | .detached s => s

def suspend (s : Suspension C A V ε) : Frame C A V ε → Frame C A V ε
  | .task _ p => .task s p
  | .detached _ => .detached s

end Frame

namespace Machine

def start (globals : S) : Machine S C O A V ε := { globals := globals }

def write (m : Machine S C O A V ε) (h : Handle) (f : Frame C A V ε) : Machine S C O A V ε :=
  { m with heap := Function.update m.heap h (some f) }

def destroy (m : Machine S C O A V ε) (h : Handle) : Machine S C O A V ε :=
  { m with heap := Function.update m.heap h none }

def allocate (m : Machine S C O A V ε) (f : Frame C A V ε) : Machine S C O A V ε :=
  { m with heap := Function.update m.heap m.next (some f), next := m.next + 1 }

def goOn (m : Machine S C O A V ε) (h : Handle) (f : Frame C A V ε) (c : C) :
    Machine S C O A V ε :=
  { m.write h (f.suspend .running) with stack := (h, c) :: m.stack }

/-- The handle is resumed by a symmetric transfer. What an awaiting coroutine does first is
`await_resume`, and the awaited `Task` ends with the expression it stands in. -/
def transfer (m : Machine S C O A V ε) (h : Handle) : Machine S C O A V ε :=
  match m.heap h with
  | none => { m with undefined := true }
  | some f =>
      match f.suspension with
      | .initial body => m.goOn h f body
      | .await task k =>
          match m.heap task with
          | some (.task _ p) => (m.destroy task).goOn h f (k p.awaitResume)
          | _ => { m with undefined := true }
      | _ => { m with undefined := true }

/-- The end of a body. A `Task` is left suspended and transfers to its continuation, if it has one;
the frame of a `DetachedTask` goes away, with an exception if there is one. -/
def finish (m : Machine S C O A V ε) (h : Handle) (outcome : Except ε V) :
    Machine S C O A V ε × List (Event O V ε) :=
  match m.heap h with
  | some (.task _ p) =>
      let ended := m.write h (.task .final (p.settle outcome))
      match p.continuation with
      | some q => (ended.transfer q, [])
      | none => (ended, [])
  | some (.detached _) => (m.destroy h, [.detachedEnded outcome])
  | none => ({ m with undefined := true }, [])

/-- A new frame whose coroutine runs at once. -/
def callDetached (m : Machine S C O A V ε) (task : C) : Machine S C O A V ε :=
  { m.allocate (.detached .running) with stack := (m.next, task) :: m.stack }

/-- The coroutine is at a suspension point; it is no longer on the native stack. -/
def suspendAt (m : Machine S C O A V ε) (h : Handle) (s : Suspension C A V ε) :
    Machine S C O A V ε :=
  match m.heap h with
  | some f => m.write h (f.suspend s)
  | none => { m with undefined := true }

/-- `Task::await_suspend` on behalf of the coroutine `h`. -/
def awaitSuspend (m : Machine S C O A V ε) (task h : Handle) : Machine S C O A V ε :=
  match m.heap task with
  | some (.task s p) => (m.write task (.task s { p with continuation := some h })).transfer task
  | _ => { m with undefined := true }

/-- What the coroutine `h` does next, when it has been taken off the native stack. -/
def run [Inhabited V] (m : Machine S C O A V ε) (h : Handle) :
    Instr C O A V ε → Machine S C O A V ε × List (Event O V ε)
  | .coReturn v => m.finish h (.ok v)
  | .throw e => m.finish h (.error e)
  | .operation o k =>
      ({ m.suspendAt h (.operation k) with ring := m.ring ++ [(h, o)] }, [.submitted o])
  | .await task k =>
      let created := m.allocate (.task (.initial task) { value := default })
      ((created.suspendAt h (.await m.next k)).awaitSuspend m.next h, [])
  | .detach task rest => (({ m with stack := (h, rest) :: m.stack }).callDetached task, [])

/-- The event loop resumes the coroutine of an operation, which goes on with its result. -/
def complete (m : Machine S C O A V ε) (h : Handle) (a : A) : Machine S C O A V ε :=
  match m.heap h with
  | none => { m with undefined := true }
  | some f =>
      match f.suspension with
      | .operation k => m.goOn h f (k a)
      | _ => { m with undefined := true }

/-- `next` is the code: what happens from a point of a body up to the next suspension, call or end. -/
def step [Inhabited V] (next : S → C → S × Instr C O A V ε) (m : Machine S C O A V ε) :
    Label C A → Option (Machine S C O A V ε × List (Event O V ε))
  | .call task =>
      if m.undefined = false ∧ m.stack = [] then some (m.callDetached task, []) else none
  | .run =>
      match m.undefined, m.stack with
      | false, (h, c) :: rest =>
          let next := next m.globals c
          some (({ m with globals := next.1, stack := rest }).run h next.2)
      | _, _ => none
  | .complete k a =>
      match m.undefined, m.stack, m.ring[k]? with
      | false, [], some (h, _) =>
          some (({ m with ring := m.ring.eraseIdx k }).complete h a, [])
      | _, _, _ => none

end Machine

end Servd.TaskFrames
