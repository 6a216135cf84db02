import Mathlib.Data.List.Basic

/-!
Coroutines as trees of awaited operations, and their resumption.

A coroutine either has returned, has thrown, or waits for the answer of one
operation. `resume` feeds a list of raw answers from the outside through a
semantics that interprets each one against a local state; it is the only way a
coroutine makes progress, so a suspended coroutine is exactly what `resume`
returns on a prefix of its answers. The lemmas about `resume` take a run that has
come to its end apart; `Ensures` is the other direction, a postcondition that a
coroutine is sure to come to. A coroutine is a well-founded tree, so a stream of
answers brings it to its end: `exec` is that run.
-/
namespace Servd.Coroutine

inductive Coro (Op : Type) (Ans : Op → Type) (ε α : Type) where
  | ret (a : α)
  | throw (e : ε)
  | call (o : Op) (k : Ans o → Coro Op Ans ε α)

namespace Coro

variable {Op : Type} {Ans : Op → Type} {ε α β : Type}

def bind : Coro Op Ans ε α → (α → Coro Op Ans ε β) → Coro Op Ans ε β
  | .ret a, f => f a
  | .throw e, _ => .throw e
  | .call o k, f => .call o fun r => bind (k r) f

instance : Monad (Coro Op Ans ε) where
  pure := .ret
  bind := bind

@[simp] theorem pure_eq (a : α) : (pure a : Coro Op Ans ε α) = .ret a := rfl

@[simp] theorem ret_bind (a : α) (f : α → Coro Op Ans ε β) :
    (Coro.ret a >>= f) = f a := rfl

@[simp] theorem throw_bind (e : ε) (f : α → Coro Op Ans ε β) :
    (Coro.throw e >>= f) = .throw e := rfl

@[simp] theorem call_bind (o : Op) (k : Ans o → Coro Op Ans ε α) (f : α → Coro Op Ans ε β) :
    (Coro.call o k >>= f) = .call o fun r => k r >>= f := rfl

theorem bind_assoc {γ : Type} (c : Coro Op Ans ε α) (f : α → Coro Op Ans ε β)
    (g : β → Coro Op Ans ε γ) : (c >>= f >>= g) = c >>= fun a => f a >>= g := by
  induction c with
  | ret a | throw e => rfl
  | call o k ih => exact congrArg (Coro.call o) (funext ih)

theorem bind_ret (c : Coro Op Ans ε α) : c >>= Coro.ret = c := by
  induction c with
  | ret _ | throw _ => rfl
  | call o k ih => exact congrArg (Coro.call o) (funext ih)

def result : Coro Op Ans ε α → Option α
  | .ret a => some a
  | .throw _ => none
  | .call _ _ => none

theorem result_eq_some {c : Coro Op Ans ε α} {a : α} : c.result = some a ↔ c = .ret a := by
  cases c <;> simp [result]

/-- Every operation the coroutine can come to satisfies `P`. -/
def Always (P : Op → Prop) : Coro Op Ans ε α → Prop
  | .ret _ => True
  | .throw _ => True
  | .call o k => P o ∧ ∀ r, (k r).Always P

theorem always_bind {P : Op → Prop} {c : Coro Op Ans ε α} {f : α → Coro Op Ans ε β}
    (hc : c.Always P) (hf : ∀ a, (f a).Always P) : (c >>= f).Always P := by
  induction c with
  | ret a => exact hf a
  | throw e => trivial
  | call o k ih => exact ⟨hc.1, fun r => ih r (hc.2 r)⟩

/-- The operations satisfy `P`, up to the first one that satisfies `Q`. -/
def Until (P Q : Op → Prop) : Coro Op Ans ε α → Prop
  | .ret _ => True
  | .throw _ => True
  | .call o k => Q o ∨ P o ∧ ∀ r, (k r).Until P Q

theorem until_of_always {P Q : Op → Prop} {c : Coro Op Ans ε α} (hc : c.Always P) :
    c.Until P Q := by
  induction c with
  | ret _ | throw _ => trivial
  | call o k ih => exact .inr ⟨hc.1, fun r => ih r (hc.2 r)⟩

theorem until_bind {P Q : Op → Prop} {c : Coro Op Ans ε α} {f : α → Coro Op Ans ε β}
    (hc : c.Until P Q) (hf : ∀ a, (f a).Until P Q) : (c >>= f).Until P Q := by
  induction c with
  | ret a => exact hf a
  | throw e => trivial
  | call o k ih =>
      rcases hc with hQ | ⟨hP, hk⟩
      · exact .inl hQ
      · exact .inr ⟨hP, fun r => ih r (hk r)⟩

/-- Every value the coroutine can return satisfies `P`. -/
def Returns (P : α → Prop) : Coro Op Ans ε α → Prop
  | .ret a => P a
  | .throw _ => True
  | .call _ k => ∀ r, (k r).Returns P

theorem returns_bind {P : α → Prop} {Q : β → Prop} {c : Coro Op Ans ε α}
    {f : α → Coro Op Ans ε β} (hc : c.Returns P) (hf : ∀ a, P a → (f a).Returns Q) :
    (c >>= f).Returns Q := by
  induction c with
  | ret a => exact hf a hc
  | throw e => trivial
  | call o k ih => exact fun r => ih r (hc r)

theorem returns_true (c : Coro Op Ans ε α) : c.Returns fun _ => True := by
  induction c with
  | ret _ | throw _ => trivial
  | call o k ih => exact ih

/-- Every exception the coroutine can throw satisfies `P`. -/
def Throws (P : ε → Prop) : Coro Op Ans ε α → Prop
  | .ret _ => True
  | .throw e => P e
  | .call _ k => ∀ r, (k r).Throws P

theorem throws_bind {P : ε → Prop} {c : Coro Op Ans ε α} {f : α → Coro Op Ans ε β}
    (hc : c.Throws P) (hf : ∀ a, (f a).Throws P) : (c >>= f).Throws P := by
  induction c with
  | ret a => exact hf a
  | throw e => exact hc
  | call o k ih => exact fun r => ih r (hc r)

end Coro

/-- How a raw answer `A` from outside answers an operation in local state `τ`: the typed
answer, the new local state and the events emitted. -/
structure Semantics (Op : Type) (Ans : Op → Type) (τ A E : Type) where
  answer : τ → (o : Op) → A → Ans o × τ × List E

variable {Op : Type} {Ans : Op → Type} {ε α β τ A E : Type}

def advance (sem : Semantics Op Ans τ A E) (t : τ) :
    Coro Op Ans ε α → A → Option (τ × Coro Op Ans ε α × List E)
  | .call o k, a =>
      some ((sem.answer t o a).2.1, k (sem.answer t o a).1, (sem.answer t o a).2.2)
  | _, _ => none

theorem always_advance {P : Op → Prop} {sem : Semantics Op Ans τ A E} {t t' : τ}
    {c c' : Coro Op Ans ε α} {a : A} {es : List E} (hc : c.Always P)
    (h : advance sem t c a = some (t', c', es)) : c'.Always P := by
  cases c with
  | ret _ | throw _ => cases h
  | call o k =>
      simp only [advance, Option.some.injEq, Prod.mk.injEq] at h
      obtain ⟨-, rfl, -⟩ := h
      exact hc.2 _

/-- Feed answers in order; every one of them must be consumed. -/
def resume (sem : Semantics Op Ans τ A E) :
    τ → Coro Op Ans ε α → List A → Option (τ × Coro Op Ans ε α × List E)
  | t, c, [] => some (t, c, [])
  | t, c, a :: as =>
      (advance sem t c a).bind fun (t', c', es) =>
        (resume sem t' c' as).map fun (t'', c'', es') => (t'', c'', es ++ es')

variable {sem : Semantics Op Ans τ A E}

@[simp] theorem resume_nil (t : τ) (c : Coro Op Ans ε α) :
    resume sem t c [] = some (t, c, []) := rfl

theorem resume_cons_eq_some {t t'' : τ} {c c'' : Coro Op Ans ε α} {a : A} {as : List A}
    {es : List E} :
    resume sem t c (a :: as) = some (t'', c'', es) ↔
      ∃ t' c' es₁ es₂, advance sem t c a = some (t', c', es₁) ∧
        resume sem t' c' as = some (t'', c'', es₂) ∧ es = es₁ ++ es₂ := by
  simp only [resume, Option.bind_eq_some_iff, Option.map_eq_some_iff, Prod.exists,
    Prod.mk.injEq]
  constructor
  · rintro ⟨t', c', es₁, ha, u, d, es₂, hr, rfl, rfl, rfl⟩
    exact ⟨t', c', es₁, es₂, ha, hr, rfl⟩
  · rintro ⟨t', c', es₁, es₂, ha, hr, rfl⟩
    exact ⟨t', c', es₁, ha, t'', c'', es₂, hr, rfl, rfl, rfl⟩

theorem resume_snoc {t t' t'' : τ} {c c' c'' : Coro Op Ans ε α} {as : List A} {a : A}
    {es es' : List E} (h : resume sem t c as = some (t', c', es))
    (ha : advance sem t' c' a = some (t'', c'', es')) :
    resume sem t c (as ++ [a]) = some (t'', c'', es ++ es') := by
  induction as generalizing t c es with
  | nil =>
      simp only [resume_nil, Option.some.injEq, Prod.mk.injEq] at h
      obtain ⟨rfl, rfl, rfl⟩ := h
      exact resume_cons_eq_some.mpr ⟨t'', c'', es', [], ha, rfl, by simp⟩
  | cons b as ih =>
      obtain ⟨u, d, es₁, es₂, hb, hr, rfl⟩ := resume_cons_eq_some.mp h
      exact resume_cons_eq_some.mpr ⟨u, d, es₁, es₂ ++ es', hb, ih hr, by simp⟩

theorem resume_ret {t t' : τ} {a : α} {c : Coro Op Ans ε α} {as : List A} {es : List E} :
    resume sem t (.ret a) as = some (t', c, es) ↔
      as = [] ∧ t' = t ∧ c = .ret a ∧ es = [] := by
  cases as with
  | nil =>
      simp only [resume_nil, Option.some.injEq, Prod.mk.injEq, true_and]
      constructor
      · rintro ⟨rfl, rfl, rfl⟩
        exact ⟨rfl, rfl, rfl⟩
      · rintro ⟨rfl, rfl, rfl⟩
        exact ⟨rfl, rfl, rfl⟩
  | cons b as => simp [resume, advance]

theorem resume_throw {t t' : τ} {e : ε} {c : Coro Op Ans ε α} {as : List A} {es : List E} :
    resume sem t (.throw e) as = some (t', c, es) ↔
      as = [] ∧ t' = t ∧ c = .throw e ∧ es = [] := by
  cases as with
  | nil =>
      simp only [resume_nil, Option.some.injEq, Prod.mk.injEq, true_and]
      constructor
      · rintro ⟨rfl, rfl, rfl⟩
        exact ⟨rfl, rfl, rfl⟩
      · rintro ⟨rfl, rfl, rfl⟩
        exact ⟨rfl, rfl, rfl⟩
  | cons b as => simp [resume, advance]

theorem resume_call_ret {t t' : τ} {o : Op} {k : Ans o → Coro Op Ans ε α} {b : α}
    {as : List A} {es : List E} :
    resume sem t (.call o k) as = some (t', .ret b, es) ↔
      ∃ a as' es', as = a :: as' ∧
        resume sem (sem.answer t o a).2.1 (k (sem.answer t o a).1) as' = some (t', .ret b, es') ∧
        es = (sem.answer t o a).2.2 ++ es' := by
  cases as with
  | nil => simp
  | cons a as =>
      rw [resume_cons_eq_some]
      simp only [advance, Option.some.injEq, Prod.mk.injEq, List.cons.injEq]
      constructor
      · rintro ⟨u, c, es₁, es₂, ⟨rfl, rfl, rfl⟩, hr, rfl⟩
        exact ⟨a, as, es₂, ⟨rfl, rfl⟩, hr, rfl⟩
      · rintro ⟨_, _, es', ⟨rfl, rfl⟩, hr, rfl⟩
        exact ⟨_, _, _, es', ⟨rfl, rfl, rfl⟩, hr, rfl⟩

theorem resume_call_bind_ret {t t' : τ} {o : Op} {f : Ans o → Coro Op Ans ε β} {b : β}
    {as : List A} {es : List E} :
    resume sem t (.call o .ret >>= f) as = some (t', .ret b, es) ↔
      ∃ a as' es', as = a :: as' ∧
        resume sem (sem.answer t o a).2.1 (f (sem.answer t o a).1) as' = some (t', .ret b, es') ∧
        es = (sem.answer t o a).2.2 ++ es' :=
  resume_call_ret

theorem resume_bind_ret {t t' : τ} {c : Coro Op Ans ε α} {f : α → Coro Op Ans ε β} {b : β}
    {as : List A} {es : List E}
    (h : resume sem t (c >>= f) as = some (t', .ret b, es)) :
    ∃ as₁ as₂ u a es₁ es₂, as = as₁ ++ as₂ ∧
      resume sem t c as₁ = some (u, .ret a, es₁) ∧
      resume sem u (f a) as₂ = some (t', .ret b, es₂) ∧ es = es₁ ++ es₂ := by
  induction c generalizing t as es with
  | ret a => exact ⟨[], as, t, a, [], es, rfl, rfl, h, rfl⟩
  | throw e =>
      rw [Coro.throw_bind, resume_throw] at h
      cases h.2.2.1
  | call o k ih =>
      rw [Coro.call_bind, resume_call_ret] at h
      obtain ⟨a, as', es', rfl, hr, rfl⟩ := h
      obtain ⟨as₁, as₂, v, x, fs₁, fs₂, rfl, hk, hf, rfl⟩ := ih _ hr
      refine ⟨a :: as₁, as₂, v, x, (sem.answer t o a).2.2 ++ fs₁, fs₂, rfl, ?_, hf, by simp⟩
      exact resume_call_ret.mpr ⟨a, as₁, fs₁, rfl, hk, rfl⟩

/-- An operation that emits nothing leaves the rest of the run as it is. -/
theorem resume_silent {t t' : τ} {o : Op} {r : Ans o} {a : A} (h : sem.answer t o a = (r, t', []))
    (k : Ans o → Coro Op Ans ε α) (as : List A) :
    resume sem t (.call o k) (a :: as) = resume sem t' (k r) as := by
  simp only [resume, advance, h, Option.bind_some, List.nil_append]
  exact Option.map_id'

theorem resume_append {t t' : τ} {c c' : Coro Op Ans ε α} {as : List A} {es : List E}
    (h : resume sem t c as = some (t', c', es)) (bs : List A) :
    resume sem t c (as ++ bs) =
      (resume sem t' c' bs).map fun (u, d, es') => (u, d, es ++ es') := by
  induction as generalizing t c es with
  | nil =>
      cases h
      simp
  | cons a as ih =>
      obtain ⟨u, d, es₁, es₂, ha, hr, rfl⟩ := resume_cons_eq_some.mp h
      simp only [List.cons_append, resume, ha, Option.bind_some, ih hr, Option.map_map]
      cases resume sem t' c' bs <;> simp

theorem resume_bind {t t' : τ} {c c' : Coro Op Ans ε α} {as : List A} {es : List E}
    (h : resume sem t c as = some (t', c', es)) (f : α → Coro Op Ans ε β) :
    resume sem t (c >>= f) as = some (t', c' >>= f, es) := by
  induction as generalizing t c es with
  | nil =>
      cases h
      rfl
  | cons a as ih =>
      obtain ⟨u, d, es₁, es₂, ha, hr, rfl⟩ := resume_cons_eq_some.mp h
      cases c with
      | ret _ | throw _ => cases ha
      | call o k =>
          cases ha
          exact resume_cons_eq_some.mpr ⟨_, _, _, es₂, rfl, ih hr, rfl⟩

/-- A run of `c >>= f` is still one of `c`, or `c` has returned and `f` goes on. -/
theorem resume_bind_cases {t t' : τ} {c : Coro Op Ans ε α} {f : α → Coro Op Ans ε β}
    {d : Coro Op Ans ε β} {as : List A} {es : List E}
    (h : resume sem t (c >>= f) as = some (t', d, es)) :
    (∃ c', resume sem t c as = some (t', c', es) ∧ d = c' >>= f) ∨
      ∃ as₁ as₂ u a es₁ es₂, as = as₁ ++ as₂ ∧ resume sem t c as₁ = some (u, .ret a, es₁) ∧
        resume sem u (f a) as₂ = some (t', d, es₂) ∧ es = es₁ ++ es₂ := by
  induction c generalizing t as es with
  | ret a => exact .inr ⟨[], as, t, a, [], es, rfl, rfl, h, rfl⟩
  | throw e =>
      obtain ⟨rfl, rfl, rfl, rfl⟩ := resume_throw.mp h
      exact .inl ⟨.throw e, rfl, rfl⟩
  | call o k ih =>
      cases as with
      | nil =>
          cases h
          exact .inl ⟨.call o k, rfl, rfl⟩
      | cons a as =>
          obtain ⟨u, c', es₁, es₂, ha, hr, rfl⟩ := resume_cons_eq_some.mp h
          cases ha
          rcases ih _ hr with ⟨c', hc, rfl⟩ | ⟨as₁, as₂, v, x, fs₁, fs₂, rfl, hc, hf, rfl⟩
          · exact .inl ⟨c', resume_cons_eq_some.mpr ⟨_, _, _, es₂, rfl, hc, rfl⟩, rfl⟩
          · exact .inr ⟨a :: as₁, as₂, v, x, (sem.answer t o a).2.2 ++ fs₁, fs₂, rfl,
              resume_cons_eq_some.mpr ⟨_, _, _, fs₁, rfl, hc, rfl⟩, hf, by simp⟩

theorem always_resume {P : Op → Prop} {t t' : τ} {c c' : Coro Op Ans ε α} {as : List A}
    {es : List E} (hc : c.Always P) (h : resume sem t c as = some (t', c', es)) :
    c'.Always P := by
  induction as generalizing t c es with
  | nil =>
      cases h
      exact hc
  | cons a as ih =>
      obtain ⟨u, d, es₁, es₂, ha, hr, -⟩ := resume_cons_eq_some.mp h
      exact ih (always_advance hc ha) hr

/-- Every event of a run comes from the answer to one of its operations. -/
theorem resume_emitted {t t' : τ} {c c' : Coro Op Ans ε α} {as : List A} {es : List E} {e : E}
    (h : resume sem t c as = some (t', c', es)) (he : e ∈ es) :
    ∃ as₁ a as₂ u o k es₁, as = as₁ ++ a :: as₂ ∧
      resume sem t c as₁ = some (u, .call o k, es₁) ∧ e ∈ (sem.answer u o a).2.2 := by
  induction as generalizing t c es with
  | nil =>
      cases h
      cases he
  | cons a as ih =>
      obtain ⟨u, d, es₁, es₂, ha, hr, rfl⟩ := resume_cons_eq_some.mp h
      cases c with
      | ret _ | throw _ => cases ha
      | call o k =>
          rcases List.mem_append.mp he with he | he
          · cases ha
            exact ⟨[], a, as, t, o, k, [], rfl, rfl, he⟩
          · obtain ⟨as₁, b, as₂, v, o', k', fs, rfl, hrun, hemit⟩ := ih hr he
            exact ⟨a :: as₁, b, as₂, v, o', k', es₁ ++ fs, rfl,
              resume_cons_eq_some.mpr ⟨u, d, es₁, fs, ha, hrun, rfl⟩, hemit⟩

/-- What the operations before `Q` keep holds along a run that has not come to `Q`. -/
theorem until_resume {P Q : Op → Prop} {I : τ → Prop} {t t' : τ} {c c' : Coro Op Ans ε α}
    {as : List A} {es : List E} (hkeep : ∀ t o a, P o → I t → I (sem.answer t o a).2.1)
    (hc : c.Until P Q) (ht : I t) (h : resume sem t c as = some (t', c', es)) :
    I t' ∨ ∃ u o a, I u ∧ Q o ∧ ∀ e ∈ (sem.answer u o a).2.2, e ∈ es := by
  induction as generalizing t c es with
  | nil =>
      cases h
      exact .inl ht
  | cons a as ih =>
      obtain ⟨u, d, es₁, es₂, ha, hr, rfl⟩ := resume_cons_eq_some.mp h
      cases c with
      | ret _ | throw _ => cases ha
      | call o k =>
          cases ha
          rcases hc with hQ | ⟨hP, hk⟩
          · exact .inr ⟨t, o, a, ht, hQ, fun e he => List.mem_append_left _ he⟩
          · rcases ih (hk _) (hkeep t o a hP ht) hr with hI | ⟨v, o', b, hv, hQ, hes⟩
            · exact .inl hI
            · exact .inr ⟨v, o', b, hv, hQ, fun e he => List.mem_append_right _ (hes e he)⟩

/-- As long as its answers are good, the coroutine never throws, and it can only end in a state
and with a value that satisfy `Q`. -/
def Ensures (sem : Semantics Op Ans τ A E) (good : A → Prop) (Q : τ → α → Prop) :
    τ → Coro Op Ans ε α → Prop
  | t, .ret a => Q t a
  | _, .throw _ => False
  | t, .call o k =>
      ∀ a, good a → Ensures sem good Q (sem.answer t o a).2.1 (k (sem.answer t o a).1)

section Ensures

variable {good good' : A → Prop} {Q : τ → α → Prop} {R : τ → β → Prop} {t t' : τ}
  {c c' : Coro Op Ans ε α}

theorem Ensures.mono {Q' : τ → α → Prop} (h : Ensures sem good Q t c)
    (hgood : ∀ a, good' a → good a) (hQ : ∀ t a, Q t a → Q' t a) :
    Ensures sem good' Q' t c := by
  induction c generalizing t with
  | ret a => exact hQ t a h
  | throw e => exact h
  | call o k ih => exact fun a ha => ih _ (h a (hgood a ha))

theorem Ensures.bind {f : α → Coro Op Ans ε β} (h : Ensures sem good Q t c)
    (hf : ∀ t a, Q t a → Ensures sem good R t (f a)) : Ensures sem good R t (c >>= f) := by
  induction c generalizing t with
  | ret a => exact hf t a h
  | throw e => exact h.elim
  | call o k ih => exact fun a ha => ih _ (h a ha)

theorem Ensures.of_resume {as : List A} {es : List E} (h : Ensures sem good Q t c)
    (hgood : ∀ a ∈ as, good a) (hr : resume sem t c as = some (t', c', es)) :
    Ensures sem good Q t' c' := by
  induction as generalizing t c es with
  | nil =>
      cases hr
      exact h
  | cons a as ih =>
      obtain ⟨u, d, es₁, es₂, ha, hr, -⟩ := resume_cons_eq_some.mp hr
      cases c with
      | ret _ | throw _ => cases ha
      | call o k =>
          cases ha
          exact ih (h a (hgood a (by simp))) (fun b hb => hgood b (by simp [hb])) hr

/-- Fed from any stream of good answers, the coroutine returns. -/
theorem Ensures.exists_resume (h : Ensures sem good Q t c) (stream : Nat → A)
    (hgood : ∀ n, good (stream n)) :
    ∃ n t' a es, resume sem t c ((List.range n).map stream) = some (t', .ret a, es) ∧ Q t' a := by
  induction c generalizing t stream with
  | ret a => exact ⟨0, t, a, [], rfl, h⟩
  | throw e => exact h.elim
  | call o k ih =>
      obtain ⟨n, t', a, es, hr, hQ⟩ := ih _ (h (stream 0) (hgood 0)) (fun n => stream (n + 1))
        fun n => hgood (n + 1)
      refine ⟨n + 1, t', a, (sem.answer t o (stream 0)).2.2 ++ es, ?_, hQ⟩
      rw [List.range_succ_eq_map, List.map_cons, List.map_map]
      exact resume_call_ret.mpr ⟨_, _, es, rfl, hr, rfl⟩

end Ensures

/-- A run that has come to its end. -/
structure Execution (τ ε α E : Type) where
  state : τ
  result : Except ε α
  events : List E
  -- the answers used up
  consumed : Nat

/-- The run on a stream of answers. -/
def exec (sem : Semantics Op Ans τ A E) : Coro Op Ans ε α → τ → (Nat → A) → Execution τ ε α E
  | .ret a, t, _ => ⟨t, .ok a, [], 0⟩
  | .throw e, t, _ => ⟨t, .error e, [], 0⟩
  | .call o k, t, stream =>
      let rest := exec sem (k (sem.answer t o (stream 0)).1) (sem.answer t o (stream 0)).2.1
        fun n => stream (n + 1)
      ⟨rest.state, rest.result, (sem.answer t o (stream 0)).2.2 ++ rest.events, rest.consumed + 1⟩

def Coro.ofResult : Except ε α → Coro Op Ans ε α
  | .ok a => .ret a
  | .error e => .throw e

/-- Do the rest after a run. -/
def Execution.andThen (first : Execution τ ε α E) (next : Execution τ ε β E) :
    Execution τ ε β E :=
  ⟨next.state, next.result, first.events ++ next.events, first.consumed + next.consumed⟩

section Exec

variable (c : Coro Op Ans ε α) (t : τ) (stream : Nat → A)

@[simp] theorem exec_ret (a : α) (t : τ) (stream : Nat → A) :
    exec sem (.ret a : Coro Op Ans ε α) t stream = ⟨t, .ok a, [], 0⟩ := rfl

theorem exec_call {t t' : τ} {stream : Nat → A} {o : Op} {r : Ans o} {es : List E}
    (h : sem.answer t o (stream 0) = (r, t', es)) (k : Ans o → Coro Op Ans ε α) :
    exec sem (.call o k) t stream =
      Execution.andThen
        (⟨t', (exec sem (k r) t' fun n => stream (n + 1)).result, es, 1⟩ : Execution τ ε α E)
        (exec sem (k r) t' fun n => stream (n + 1)) := by
  simp only [exec, h, Execution.andThen, Nat.add_comm 1]

/-- It is the run on the answers it has used up. -/
theorem resume_exec :
    resume sem t c ((List.range (exec sem c t stream).consumed).map stream) =
      some ((exec sem c t stream).state, .ofResult (exec sem c t stream).result,
        (exec sem c t stream).events) := by
  induction c generalizing t stream with
  | ret a | throw e => rfl
  | call o k ih =>
      have hrest := ih (sem.answer t o (stream 0)).1 (sem.answer t o (stream 0)).2.1
        fun n => stream (n + 1)
      simp only [exec, List.range_succ_eq_map, List.map_cons, List.map_map]
      exact resume_cons_eq_some.mpr ⟨_, _, _, _, rfl, hrest, rfl⟩

/-- A run on a stream goes on from where the coroutine is after the first answers of it. -/
theorem exec_of_resume {c c' : Coro Op Ans ε α} {t t' : τ} {stream : Nat → A} {as : List A}
    {es : List E} (h : resume sem t c as = some (t', c', es))
    (hstream : ∀ n a, as[n]? = some a → stream n = a) :
    exec sem c t stream =
      (⟨t', (exec sem c' t' fun n => stream (n + as.length)).result, es, as.length⟩ :
        Execution τ ε α E).andThen (exec sem c' t' fun n => stream (n + as.length)) := by
  induction as generalizing c t stream es with
  | nil =>
      cases h
      simp [Execution.andThen]
  | cons a as ih =>
      obtain ⟨u, d, es₁, es₂, ha, hr, rfl⟩ := resume_cons_eq_some.mp h
      cases c with
      | ret _ | throw _ => cases ha
      | call o k =>
          cases ha
          have hfirst : stream 0 = a := hstream 0 a rfl
          have hnext : ∀ n b, as[n]? = some b → stream (n + 1) = b := fun n b hb =>
            hstream (n + 1) b (by simpa using hb)
          have hrest := ih hr hnext
          simp only [exec, hfirst, hrest, Execution.andThen, List.append_assoc, List.length_cons,
            Nat.add_right_comm, Nat.add_assoc, Nat.add_comm 1]

theorem result_of_returns {P : α → Prop} {a : α} {c : Coro Op Ans ε α} {t : τ} {stream : Nat → A}
    (hc : c.Returns P) (h : (exec sem c t stream).result = .ok a) : P a := by
  induction c generalizing t stream with
  | ret b =>
      cases h
      exact hc
  | throw e => cases h
  | call o k ih => exact ih _ (hc _) h

theorem error_of_throws {P : ε → Prop} {e : ε} {c : Coro Op Ans ε α} {t : τ} {stream : Nat → A}
    (hc : c.Throws P) (h : (exec sem c t stream).result = .error e) : P e := by
  induction c generalizing t stream with
  | ret b => cases h
  | throw e' =>
      cases h
      exact hc
  | call o k ih => exact ih _ (hc _) h

theorem exec_bind_of_ok (f : α → Coro Op Ans ε β) {a : α}
    (h : (exec sem c t stream).result = .ok a) :
    exec sem (c >>= f) t stream = (exec sem c t stream).andThen
      (exec sem (f a) (exec sem c t stream).state
        fun n => stream (n + (exec sem c t stream).consumed)) := by
  induction c generalizing t stream with
  | ret b =>
      cases h
      simp [Execution.andThen]
  | throw e => cases h
  | call o k ih =>
      have hrest := ih _ (sem.answer t o (stream 0)).2.1 (fun n => stream (n + 1)) h
      rw [Coro.call_bind]
      simp only [exec, hrest, Execution.andThen, List.append_assoc, Nat.add_assoc,
        Nat.add_comm 1]

theorem exec_bind_of_error (f : α → Coro Op Ans ε β) {e : ε}
    (h : (exec sem c t stream).result = .error e) :
    exec sem (c >>= f) t stream = (exec sem c t stream).andThen
      ⟨(exec sem c t stream).state, .error e, [], 0⟩ := by
  induction c generalizing t stream with
  | ret b => cases h
  | throw e' =>
      cases h
      rfl
  | call o k ih =>
      have hrest := ih _ (sem.answer t o (stream 0)).2.1 (fun n => stream (n + 1)) h
      rw [Coro.call_bind]
      simp only [exec, hrest, Execution.andThen, List.append_assoc]

end Exec

end Servd.Coroutine
