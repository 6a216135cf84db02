import Mathlib.Data.List.Basic
import Mathlib.Data.List.Induction

/-!
Finite traces of a labelled partial transition function that also emits events.

A trace keeps, for every step, the state before it, its label, the events it
emitted and the state after it, so that a property of runs is a property of the
steps of a list. The rules derive what holds along a whole trace from what one step
does: the invariant rule; its exact form, where a step condition is both what
keeps the invariant and what its survival shows; and the simulation rule, which builds
a trace of another transition function from the steps of this one.
-/
namespace Servd.Transition

variable {σ α ε : Type}

structure Step (σ α ε : Type) where
  pre : σ
  label : α
  events : List ε
  post : σ

/-- The traces of `step` from `s₀`, with the state each one ends in. -/
inductive Trace (step : σ → α → Option (σ × List ε)) (s₀ : σ) :
    List (Step σ α ε) → σ → Prop
  | nil : Trace step s₀ [] s₀
  | snoc {tr : List (Step σ α ε)} {s s' : σ} {a : α} {evs : List ε} :
      Trace step s₀ tr s → step s a = some (s', evs) →
      Trace step s₀ (tr ++ [⟨s, a, evs, s'⟩]) s'

/-- The steps taken from `s` under a list of labels, and the state they end in. -/
def exec (step : σ → α → Option (σ × List ε)) : σ → List α → Option (List (Step σ α ε) × σ)
  | s, [] => some ([], s)
  | s, a :: as =>
      (step s a).bind fun (m, evs) =>
        (exec step m as).map fun (tr, t) => (⟨s, a, evs, m⟩ :: tr, t)

def eventsOf (tr : List (Step σ α ε)) : List ε :=
  tr.flatMap (·.events)

@[simp] theorem eventsOf_snoc (tr : List (Step σ α ε)) (x : Step σ α ε) :
    eventsOf (tr ++ [x]) = eventsOf tr ++ x.events := by
  simp [eventsOf]

variable {step : σ → α → Option (σ × List ε)} {s₀ s : σ} {tr : List (Step σ α ε)}

/-- What every step bounds, the whole trace bounds. -/
theorem countP_eventsOf_le {p : ε → Bool} {q : Step σ α ε → Bool} {tr : List (Step σ α ε)}
    (h : ∀ x ∈ tr, x.events.countP p ≤ [x].countP q) : (eventsOf tr).countP p ≤ tr.countP q := by
  induction tr with
  | nil => exact Nat.le_refl _
  | cons x tr ih =>
      have hrest := ih fun y hy => h y (List.mem_cons_of_mem _ hy)
      have hfirst := h x List.mem_cons_self
      simp only [eventsOf, List.flatMap_cons, List.countP_append] at hrest ⊢
      rw [← List.singleton_append, List.countP_append]
      exact Nat.add_le_add hfirst hrest

theorem exec_cons {s m t : σ} {a : α} {evs : List ε} {as : List α} {tr : List (Step σ α ε)}
    (h : step s a = some (m, evs)) (hrest : exec step m as = some (tr, t)) :
    exec step s (a :: as) = some (⟨s, a, evs, m⟩ :: tr, t) := by
  simp only [exec, h, hrest, Option.bind_some, Option.map_some]

private theorem trace_append_exec {pre : List (Step σ α ε)} {m : σ}
    (h : Trace step s₀ pre m) (as : List α) :
    ∀ {tr : List (Step σ α ε)} {t : σ}, exec step m as = some (tr, t) →
      Trace step s₀ (pre ++ tr) t := by
  induction as generalizing pre m with
  | nil =>
      intro tr t he
      simp only [exec, Option.some.injEq, Prod.mk.injEq] at he
      obtain ⟨rfl, rfl⟩ := he
      simpa using h
  | cons a as ih =>
      intro tr t he
      simp only [exec, Option.bind_eq_some_iff, Option.map_eq_some_iff, Prod.exists,
        Prod.mk.injEq] at he
      obtain ⟨n, evs, hstep, rest, t', hrest, rfl, rfl⟩ := he
      simpa using ih (h.snoc hstep) hrest

theorem trace_of_exec {as : List α} {t : σ} (h : exec step s₀ as = some (tr, t)) :
    Trace step s₀ tr t := by
  simpa using trace_append_exec Trace.nil as h

theorem exists_trace_of_exec (step : σ → α → Option (σ × List ε)) (s₀ : σ) (as : List α)
    (p : List (Step σ α ε) → σ → Prop) [∀ tr s, Decidable (p tr s)]
    (h : (exec step s₀ as).any (fun r => decide (p r.1 r.2)) = true) :
    ∃ tr s, Trace step s₀ tr s ∧ p tr s := by
  cases hr : exec step s₀ as with
  | none => simp [hr] at h
  | some r => exact ⟨r.1, r.2, trace_of_exec hr, by simpa [hr] using h⟩

theorem exec_append {s m t : σ} {as bs : List α} {tr tr' : List (Step σ α ε)}
    (h : exec step s as = some (tr, m)) (h' : exec step m bs = some (tr', t)) :
    exec step s (as ++ bs) = some (tr ++ tr', t) := by
  induction as generalizing s tr with
  | nil =>
      cases h
      exact h'
  | cons a as ih =>
      simp only [exec, Option.bind_eq_some_iff, Option.map_eq_some_iff, Prod.exists,
        Prod.mk.injEq] at h
      obtain ⟨n, evs, hstep, rest, t', hrest, rfl, rfl⟩ := h
      exact exec_cons hstep (ih hrest)

theorem exec_append_eq_some {s t : σ} {as bs : List α} {tr : List (Step σ α ε)}
    (h : exec step s (as ++ bs) = some (tr, t)) :
    ∃ tr₁ m tr₂, exec step s as = some (tr₁, m) ∧ exec step m bs = some (tr₂, t) ∧
      tr = tr₁ ++ tr₂ := by
  induction as generalizing s tr with
  | nil => exact ⟨[], s, tr, rfl, h, rfl⟩
  | cons a as ih =>
      simp only [List.cons_append, exec, Option.bind_eq_some_iff, Option.map_eq_some_iff,
        Prod.exists, Prod.mk.injEq] at h
      obtain ⟨n, evs, hstep, rest, t', hrest, rfl, rfl⟩ := h
      obtain ⟨tr₁, m, tr₂, h₁, h₂, rfl⟩ := ih hrest
      exact ⟨⟨s, a, evs, n⟩ :: tr₁, m, tr₂, exec_cons hstep h₁, h₂, rfl⟩

theorem exec_cons_eq_some {s t : σ} {a : α} {as : List α} {tr : List (Step σ α ε)}
    (h : exec step s (a :: as) = some (tr, t)) :
    ∃ m evs rest, step s a = some (m, evs) ∧ exec step m as = some (rest, t) ∧
      tr = ⟨s, a, evs, m⟩ :: rest := by
  simp only [exec, Option.bind_eq_some_iff, Option.map_eq_some_iff, Prod.exists,
    Prod.mk.injEq] at h
  obtain ⟨m, evs, hstep, rest, t', hrest, rfl, rfl⟩ := h
  exact ⟨m, evs, rest, hstep, hrest, rfl⟩

theorem labels_of_exec {s t : σ} {as : List α} {tr : List (Step σ α ε)}
    (h : exec step s as = some (tr, t)) : tr.map (·.label) = as := by
  induction as generalizing s tr with
  | nil =>
      cases h
      rfl
  | cons a as ih =>
      obtain ⟨m, evs, rest, -, hrest, rfl⟩ := exec_cons_eq_some h
      rw [List.map_cons, ih hrest]

/-- The run of some labels, and what can be computed of it. -/
theorem exists_labelled_trace (step : σ → α → Option (σ × List ε)) (s₀ : σ) (as : List α)
    (p : List (Step σ α ε) → σ → Prop) [∀ tr s, Decidable (p tr s)]
    (h : (exec step s₀ as).any (fun r => decide (p r.1 r.2)) = true) :
    ∃ tr s, Trace step s₀ tr s ∧ tr.map (·.label) = as ∧ p tr s := by
  cases hr : exec step s₀ as with
  | none => simp [hr] at h
  | some r => exact ⟨r.1, r.2, trace_of_exec hr, labels_of_exec hr, by simpa [hr] using h⟩

/-- Repeating a label until it is refused leads to one end only. -/
theorem exec_replicate_unique {s t t' : σ} {a : α} {n n' : Nat} {tr tr' : List (Step σ α ε)}
    (h : exec step s (List.replicate n a) = some (tr, t)) (ht : step t a = none)
    (h' : exec step s (List.replicate n' a) = some (tr', t')) (ht' : step t' a = none) :
    tr' = tr ∧ t' = t := by
  induction n generalizing s tr n' tr' with
  | zero =>
      cases h
      cases n' with
      | zero =>
          cases h'
          exact ⟨rfl, rfl⟩
      | succ n' =>
          obtain ⟨m, evs, rest, hstep, -, -⟩ := exec_cons_eq_some h'
          rw [ht] at hstep
          cases hstep
  | succ n ih =>
      obtain ⟨m, evs, rest, hstep, hrest, rfl⟩ := exec_cons_eq_some h
      cases n' with
      | zero =>
          cases h'
          rw [ht'] at hstep
          cases hstep
      | succ n' =>
          obtain ⟨m', evs', rest', hstep', hrest', rfl⟩ := exec_cons_eq_some h'
          rw [hstep] at hstep'
          cases hstep'
          obtain ⟨rfl, rfl⟩ := ih hrest hrest'
          exact ⟨rfl, rfl⟩

/-- A trace is what its labels execute to. -/
theorem exec_of_trace (h : Trace step s₀ tr s) :
    exec step s₀ (tr.map (·.label)) = some (tr, s) := by
  induction h with
  | nil => rfl
  | snoc _ hstep ih =>
      rw [List.map_append]
      exact exec_append ih (exec_cons hstep rfl)

theorem Trace.append {m t : σ} {tr' : List (Step σ α ε)} (h : Trace step s₀ tr m)
    (h' : Trace step m tr' t) : Trace step s₀ (tr ++ tr') t := by
  have he := exec_append (exec_of_trace h) (exec_of_trace h')
  exact trace_of_exec he

theorem Trace.split {tr tr' : List (Step σ α ε)} {t : σ} (h : Trace step s₀ (tr ++ tr') t) :
    ∃ m, Trace step s₀ tr m ∧ Trace step m tr' t := by
  induction tr' using List.reverseRecOn generalizing t with
  | nil => exact ⟨t, by simpa using h, .nil⟩
  | append_singleton tr' x ih =>
      rw [← List.append_assoc] at h
      generalize hall : tr ++ tr' ++ [x] = all at h
      cases h with
      | nil => simp at hall
      | snoc htr hstep =>
          obtain ⟨rfl, hx⟩ := List.append_inj' hall rfl
          cases hx
          obtain ⟨m, h₁, h₂⟩ := ih htr
          exact ⟨m, h₁, h₂.snoc hstep⟩

theorem Trace.split_cons {x : Step σ α ε} {t : σ} (h : Trace step s₀ (x :: tr) t) :
    x.pre = s₀ ∧ step x.pre x.label = some (x.post, x.events) ∧ Trace step x.post tr t := by
  obtain ⟨pre, a, evs, post⟩ := x
  obtain ⟨m, evs', rest, hstep, hrest, hx⟩ := exec_cons_eq_some (exec_of_trace h)
  cases hx
  exact ⟨rfl, hstep, trace_of_exec hrest⟩

/-- The labels of a trace determine it. -/
theorem Trace.deterministic {tr' : List (Step σ α ε)} {t : σ} (h : Trace step s₀ tr s)
    (h' : Trace step s₀ tr' t) (hlabels : tr'.map (·.label) = tr.map (·.label)) :
    tr' = tr ∧ t = s := by
  have he := exec_of_trace h'
  rw [hlabels, exec_of_trace h] at he
  cases he
  exact ⟨rfl, rfl⟩

/-- A simulation: of every step the other system shows either nothing or one step of its own,
with the label and the events that `shown` says, and of the kind `Q`. -/
theorem Trace.simulate {τ β δ : Type} (step' : τ → β → Option (τ × List δ)) {t₀ : τ}
    (R : σ → τ → Prop) (shown : Step σ α ε → Option (β × List δ)) (Q : Step τ β δ → Prop)
    (h₀ : R s₀ t₀) (h : Trace step s₀ tr s)
    (silent : ∀ x ∈ tr, ∀ t, step x.pre x.label = some (x.post, x.events) → R x.pre t →
      shown x = none → R x.post t)
    (visible : ∀ x ∈ tr, ∀ t b es, step x.pre x.label = some (x.post, x.events) → R x.pre t →
      shown x = some (b, es) → ∃ t', step' t b = some (t', es) ∧ R x.post t' ∧ Q ⟨t, b, es, t'⟩) :
    ∃ tr' t, Trace step' t₀ tr' t ∧ R s t ∧ (∀ y ∈ tr', Q y) ∧
      tr'.map (fun x => (x.label, x.events)) = tr.filterMap shown := by
  induction h with
  | nil => exact ⟨[], t₀, .nil, h₀, by simp, rfl⟩
  | @snoc tr s s' a evs _ hstep ih =>
      obtain ⟨tr', t, htr', hR, hQ, hmap⟩ := ih
        (fun x hx => silent x (List.mem_append_left _ hx))
        (fun x hx => visible x (List.mem_append_left _ hx))
      have hlast : (⟨s, a, evs, s'⟩ : Step σ α ε) ∈ tr ++ [⟨s, a, evs, s'⟩] := by simp
      rw [List.filterMap_append]
      cases hx : shown ⟨s, a, evs, s'⟩ with
      | none => exact ⟨tr', t, htr', silent _ hlast t hstep hR hx, hQ, by simp [hmap, hx]⟩
      | some y =>
          obtain ⟨t', hstep', hR', hQ'⟩ := visible _ hlast t y.1 y.2 hstep hR hx
          refine ⟨_, t', htr'.snoc hstep', hR', ?_, by simp [hmap, hx]⟩
          intro z hz
          rcases List.mem_append.mp hz with hz | hz
          · exact hQ z hz
          · exact List.mem_singleton.mp hz ▸ hQ'

/-- A step condition that preserves `Inv` makes it hold in every state of a trace whose
steps all meet the condition. -/
theorem Trace.invariant (Inv : σ → Prop) (cond : σ → α → Prop) (h₀ : Inv s₀)
    (keep : ∀ s a s' evs, Inv s → cond s a → step s a = some (s', evs) → Inv s')
    (h : Trace step s₀ tr s) (hc : ∀ x ∈ tr, cond x.pre x.label) :
    Inv s ∧ ∀ x ∈ tr, Inv x.pre ∧ Inv x.post := by
  induction h with
  | nil => exact ⟨h₀, by simp⟩
  | @snoc tr s s' a evs _ hstep ih =>
      obtain ⟨hs, hall⟩ := ih fun x hx => hc x (List.mem_append_left _ hx)
      have hcond : cond s a := hc ⟨s, a, evs, s'⟩ (by simp)
      have hs' : Inv s' := keep s a s' evs hs hcond hstep
      refine ⟨hs', ?_⟩
      intro x hx
      rcases List.mem_append.mp hx with hx | hx
      · exact hall x hx
      · rw [List.mem_singleton] at hx
        subst hx
        exact ⟨hs, hs'⟩

theorem Trace.always (Inv : σ → Prop) (h₀ : Inv s₀)
    (keep : ∀ s a s' evs, Inv s → step s a = some (s', evs) → Inv s')
    (h : Trace step s₀ tr s) : Inv s ∧ ∀ x ∈ tr, Inv x.pre ∧ Inv x.post :=
  h.invariant Inv (fun _ _ => True) h₀ (fun s a s' evs hs _ => keep s a s' evs hs)
    (fun _ _ => trivial)

theorem Trace.step_eq (h : Trace step s₀ tr s) :
    ∀ x ∈ tr, step x.pre x.label = some (x.post, x.events) := by
  induction h with
  | nil => simp
  | snoc _ hstep ih =>
      intro x hx
      rcases List.mem_append.mp hx with hx | hx
      · exact ih x hx
      · rw [List.mem_singleton] at hx
        subst hx
        exact hstep

/-- The exact form of the invariant rule. `Aux` is what the step condition keeps besides
`Inv`; a step from a good state that leaves `Inv` intact must have met the condition. -/
theorem Trace.invariant_iff (Inv Aux : σ → Prop) (cond : σ → α → Prop)
    (h₀ : Inv s₀) (a₀ : Aux s₀)
    (keep : ∀ s a s' evs, Inv s → Aux s → cond s a → step s a = some (s', evs) →
      Inv s' ∧ Aux s')
    (needs : ∀ s a s' evs, Inv s → Aux s → step s a = some (s', evs) → Inv s' → cond s a)
    (h : Trace step s₀ tr s) :
    (∀ x ∈ tr, Inv x.post) ↔ ∀ x ∈ tr, cond x.pre x.label := by
  constructor
  · induction h with
    | nil => simp
    | @snoc tr s s' a evs ht hstep ih =>
        intro hinv x hx
        have hprefix := ih fun y hy => hinv y (List.mem_append_left _ hy)
        have hs : Inv s ∧ Aux s :=
          (Trace.invariant (fun s => Inv s ∧ Aux s) cond ⟨h₀, a₀⟩
            (fun s a s' evs hi hc he => keep s a s' evs hi.1 hi.2 hc he) ht hprefix).1
        rcases List.mem_append.mp hx with hx | hx
        · exact hprefix x hx
        · rw [List.mem_singleton] at hx
          subst hx
          exact needs s a s' evs hs.1 hs.2 hstep (hinv ⟨s, a, evs, s'⟩ (by simp))
  · intro hc x hx
    exact ((Trace.invariant (fun s => Inv s ∧ Aux s) cond ⟨h₀, a₀⟩
      (fun s a s' evs hi hc he => keep s a s' evs hi.1 hi.2 hc he) h hc).2 x hx).2.1

/-- If the traces do not grow without bound, one of them ends where no step is possible. -/
theorem exists_stuck {bound : Nat}
    (hbound : ∀ tr s, Trace step s₀ tr s → tr.length ≤ bound) :
    ∃ tr s, Trace step s₀ tr s ∧ ∀ a, step s a = none := by
  by_contra hno
  have longer : ∀ k, ∃ tr s, Trace step s₀ tr s ∧ tr.length = k := by
    intro k
    induction k with
    | zero => exact ⟨[], s₀, .nil, rfl⟩
    | succ k ih =>
        obtain ⟨tr, s, htr, hlength⟩ := ih
        have hstep : ∃ a, step s a ≠ none := by
          by_contra hstuck
          exact hno ⟨tr, s, htr, fun a => by_contra fun ha => hstuck ⟨a, ha⟩⟩
        obtain ⟨a, ha⟩ := hstep
        obtain ⟨⟨s', evs⟩, hs⟩ := Option.ne_none_iff_exists'.mp ha
        exact ⟨_, s', htr.snoc hs, by simp [hlength]⟩
  obtain ⟨tr, s, htr, hlength⟩ := longer (bound + 1)
  have := hbound tr s htr
  omega

end Servd.Transition
