import Mathlib.Data.List.Basic

/-!
Readers: computations that consume a list of inputs, one after the other. A reader
returns a value, throws, or has consumed everything and waits for the next input.
-/
namespace Servd

inductive Reading (C ε α : Type) where
  | returned (a : α) (rest : List C)
  | threw (e : ε) (rest : List C)
  | waiting

def Reader (C ε α : Type) := List C → Reading C ε α

namespace Reader

variable {C ε α β : Type}

def ret (a : α) : Reader C ε α := fun script => .returned a script

def throw (e : ε) : Reader C ε α := fun script => .threw e script

def bind (r : Reader C ε α) (f : α → Reader C ε β) : Reader C ε β := fun script =>
  match r script with
  | .returned a rest => f a rest
  | .threw e rest => .threw e rest
  | .waiting => .waiting

instance : Monad (Reader C ε) where
  pure := ret
  bind := bind

@[simp] theorem pure_apply (a : α) (script : List C) :
    (pure a : Reader C ε α) script = .returned a script := rfl

theorem bind_of_returned {r : Reader C ε α} {script mid : List C} {a : α}
    (h : r script = .returned a mid) (f : α → Reader C ε β) : (r >>= f) script = f a mid := by
  change bind r f script = _
  simp only [bind, h]

theorem bind_of_threw {r : Reader C ε α} {script rest : List C} {e : ε}
    (h : r script = .threw e rest) (f : α → Reader C ε β) :
    (r >>= f) script = .threw e rest := by
  change bind r f script = _
  simp only [bind, h]

theorem bind_eq_returned {r : Reader C ε α} {f : α → Reader C ε β} {script rest : List C}
    {b : β} : (r >>= f) script = .returned b rest ↔
      ∃ a mid, r script = .returned a mid ∧ f a mid = .returned b rest := by
  change bind r f script = _ ↔ _
  unfold bind
  cases r script with
  | returned a mid => simp
  | threw e mid => simp
  | waiting => simp

/-- The next input, once there is one. -/
def receive (k : C → Reader C ε α) : Reader C ε α
  | [] => .waiting
  | c :: script => k c script

/-- Go on with the value or the exception of a reader. -/
def tryBind (r : Reader C ε α) (f : Except ε α → Reader C ε β) : Reader C ε β := fun script =>
  match r script with
  | .returned a rest => f (.ok a) rest
  | .threw e rest => f (.error e) rest
  | .waiting => .waiting

def ofExcept : Except ε α → Reader C ε α
  | .ok a => ret a
  | .error e => throw e

theorem tryBind_ofExcept (outcome : Except ε α) (f : Except ε α → Reader C ε β) :
    (ofExcept outcome).tryBind f = f outcome := by
  cases outcome <;> rfl

theorem tryBind_receive (k : C → Reader C ε α) (f : Except ε α → Reader C ε β) :
    (receive k).tryBind f = receive fun c => (k c).tryBind f := by
  funext script
  cases script <;> rfl

def replicate (r : Reader C ε α) : Nat → Reader C ε (List α)
  | 0 => pure []
  | n + 1 => do
      let a ← r
      let as ← replicate r n
      pure (a :: as)

theorem replicate_succ_eq_returned {r : Reader C ε α} {n : Nat} {script rest : List C}
    {as : List α} : r.replicate (n + 1) script = .returned as rest ↔
      ∃ a as' mid, r script = .returned a mid ∧ r.replicate n mid = .returned as' rest ∧
        as = a :: as' := by
  simp only [replicate, bind_eq_returned, pure_apply, Reading.returned.injEq]
  constructor
  · rintro ⟨a, mid, ha, as', mid', has, rfl, rfl⟩
    exact ⟨a, as', mid, ha, has, rfl⟩
  · rintro ⟨a, as', mid, ha, has, rfl⟩
    exact ⟨a, mid, ha, as', rest, has, rfl, rfl⟩

end Reader

end Servd
