import Servd.Lib.Reader
import Servd.TaskThreads

/-!
What coroutines compute together. A body whose calls are all awaited is a reader of the
completions of its operations, and `Means` says so point by point. Any number of them can
be running, and the event loop takes the completions in any order. Whose operation a
completion is of can be told from outside, and every coroutine is where its reader is after
the completions of its own operations.
-/
namespace Servd.TaskFrames

open Transition

variable {S C O A V ε : Type}

/-- The reader of a point, in terms of the readers of the points it goes on at. -/
def Instr.Means (meaning : C → Reader A ε V) : Instr C O A V ε → Reader A ε V → Prop
  | .coReturn v, r => r = .ret v
  | .throw e, r => r = .throw e
  | .operation _ k, r => r = .receive fun a => meaning (k a)
  | .await task k, r => r = (meaning task).tryBind fun outcome => meaning (k outcome)
  | .detach _ _, _ => False

def Means (next : S → C → S × Instr C O A V ε) (meaning : C → Reader A ε V) : Prop :=
  ∀ g c, (next g c).2.Means meaning (meaning c)

section Keeping

variable {D : Type} (target : C → D) (targetOf : O → D)

/-- The operations of a coroutine are on what it was called for, and so are those of the coroutines
that it awaits. -/
def Instr.Keeps (d : D) : Instr C O A V ε → Prop
  | .coReturn _ | .throw _ => True
  | .operation o k => targetOf o = d ∧ ∀ a, target (k a) = d
  | .await task k => target task = d ∧ ∀ outcome, target (k outcome) = d
  | .detach _ _ => False

def Keeps (next : S → C → S × Instr C O A V ε) : Prop :=
  ∀ g c, (next g c).2.Keeps target targetOf (target c)

end Keeping

/-- A reader inside of some calls. -/
def plug (meaning : C → Reader A ε V) (r : Reader A ε V) :
    List (Except ε V → C) → Reader A ε V
  | [] => r
  | k :: callers => plug meaning (r.tryBind fun outcome => meaning (k outcome)) callers

theorem plug_receive (meaning : C → Reader A ε V) (k : A → Reader A ε V)
    (callers : List (Except ε V → C)) :
    plug meaning (.receive k) callers = .receive fun a => plug meaning (k a) callers := by
  induction callers generalizing k with
  | nil => rfl
  | cons j callers ih => rw [plug, Reader.tryBind_receive, ih]; rfl

inductive Phase (C O A V ε : Type)
  | running (c : C) (callers : List (Except ε V → C))
  | waiting (o : O) (k : A → C) (callers : List (Except ε V → C))
  | ended (outcome : Except ε V)

namespace Phase

def reader (meaning : C → Reader A ε V) : Phase C O A V ε → Reader A ε V
  | .running c callers => plug meaning (meaning c) callers
  | .waiting _ k callers => plug meaning (.receive fun a => meaning (k a)) callers
  | .ended outcome => .ofExcept outcome

/-- What is still to come of the coroutine is on what it was called for. -/
def Keeps {D : Type} (target : C → D) (targetOf : O → D) (d : D) : Phase C O A V ε → Prop
  | .running c callers => target c = d ∧ ∀ k ∈ callers, ∀ outcome, target (k outcome) = d
  | .waiting o k callers => (targetOf o = d ∧ ∀ a, target (k a) = d) ∧
      ∀ k ∈ callers, ∀ outcome, target (k outcome) = d
  | .ended _ => True

end Phase

def Label.task : Label C A → Option C
  | .call task => some task
  | .run | .complete _ _ => none

def Label.answer : Label C A → Option A
  | .complete _ a => some a
  | .call _ | .run => none

def Event.outcome : Event O V ε → Option (Except ε V)
  | .detachedEnded outcome => some outcome
  | .submitted _ => none

/-- What can be told of a run without a look at the frames, by who was called last and whose
operation was completed last: which operations are in the ring, which completions were taken and
how the calls have ended, each with the number of its call. -/
structure Books (O A V ε : Type) where
  calls : Nat := 0
  running : Nat := 0
  ring : List (Nat × O) := []
  taken : List (Nat × O × A) := []
  ended : List (Nat × Except ε V) := []

namespace Books

def record (b : Books O A V ε) : Event O V ε → Books O A V ε
  | .submitted o => { b with ring := b.ring ++ [(b.running, o)] }
  | .detachedEnded outcome => { b with ended := b.ended ++ [(b.running, outcome)] }

def enter (b : Books O A V ε) : Label C A → Books O A V ε
  | .call _ => { b with running := b.calls, calls := b.calls + 1 }
  | .run => b
  | .complete k a =>
      match b.ring[k]? with
      | some (i, o) =>
          { b with
            running := i
            ring := b.ring.eraseIdx k
            taken := b.taken ++ [(i, o, a)] }
      | none => b

/-- The operations of call `i` that are in the ring. -/
def ringOf (b : Books O A V ε) (i : Nat) : List O :=
  b.ring.filterMap fun x => if x.1 = i then some x.2 else none

/-- The completions of the operations of call `i`. -/
def shareOf (taken : List (Nat × O × A)) (i : Nat) : List A :=
  taken.filterMap fun x => if x.1 = i then some x.2.2 else none

end Books

section Observations

variable {σ τ : Type} (tr : List (Step σ (Label C A) (Event O V ε)))

/-- The coroutines that were called, in this order. -/
def callsOf : List C := tr.filterMap (·.label.task)

def completionsOf : List A := tr.filterMap (·.label.answer)

def outcomesOf : List (Except ε V) := (eventsOf tr).filterMap Event.outcome

def booksOf : Books O A V ε :=
  (observed tr).foldl (fun b x => x.2.foldl Books.record (b.enter x.1)) {}

theorem callsOf_snoc (x : Step σ (Label C A) (Event O V ε)) :
    callsOf (tr ++ [x]) = callsOf tr ++ callsOf [x] :=
  List.filterMap_append

theorem completionsOf_snoc (x : Step σ (Label C A) (Event O V ε)) :
    completionsOf (tr ++ [x]) = completionsOf tr ++ completionsOf [x] :=
  List.filterMap_append

theorem outcomesOf_snoc (x : Step σ (Label C A) (Event O V ε)) :
    outcomesOf (tr ++ [x]) = outcomesOf tr ++ outcomesOf [x] := by
  simp [outcomesOf, eventsOf]

theorem booksOf_snoc (x : Step σ (Label C A) (Event O V ε)) :
    booksOf (tr ++ [x]) = x.events.foldl Books.record ((booksOf tr).enter x.label) := by
  simp [booksOf, observed]

/-- What is observed of two runs tells the same about them. -/
theorem told_of_observed {tr' : List (Step τ (Label C A) (Event O V ε))}
    (h : observed tr' = observed tr) : callsOf tr' = callsOf tr ∧
      completionsOf tr' = completionsOf tr ∧ outcomesOf tr' = outcomesOf tr ∧
      booksOf tr' = booksOf tr := by
  have hlabels : tr'.map (·.label) = tr.map (·.label) := by
    simpa [observed, Function.comp_def] using congrArg (List.map Prod.fst) h
  have hevents : tr'.map (·.events) = tr.map (·.events) := by
    simpa [observed, Function.comp_def] using congrArg (List.map Prod.snd) h
  refine ⟨?_, ?_, ?_, by rw [booksOf, booksOf, h]⟩
  · simpa [callsOf, List.filterMap_map, Function.comp_def] using
      congrArg (List.filterMap Label.task) hlabels
  · simpa [completionsOf, List.filterMap_map, Function.comp_def] using
      congrArg (List.filterMap Label.answer) hlabels
  · rw [outcomesOf, outcomesOf, eventsOf, eventsOf, List.flatMap_def, List.flatMap_def, hevents]

end Observations

namespace Books

variable (b : Books O A V ε) (es : List (Event O V ε))

theorem foldl_record_running : (es.foldl record b).running = b.running := by
  induction es generalizing b with
  | nil => rfl
  | cons e es ih => exact (ih _).trans (by cases e <;> rfl)

theorem foldl_record_calls : (es.foldl record b).calls = b.calls := by
  induction es generalizing b with
  | nil => rfl
  | cons e es ih => exact (ih _).trans (by cases e <;> rfl)

theorem foldl_record_taken : (es.foldl record b).taken = b.taken := by
  induction es generalizing b with
  | nil => rfl
  | cons e es ih => exact (ih _).trans (by cases e <;> rfl)

theorem foldl_record_ended :
    (es.foldl record b).ended.map (·.2) = b.ended.map (·.2) ++ es.filterMap Event.outcome := by
  induction es generalizing b with
  | nil => exact (List.append_nil _).symm
  | cons e es ih =>
      rw [List.foldl_cons, ih]
      cases e with
      | submitted o => rfl
      | detachedEnded outcome => simp [record, Event.outcome]

theorem enter_ended (a : Label C A) : (b.enter a).ended = b.ended := by
  cases a with
  | call _ | run => rfl
  | complete k a =>
      rw [enter]
      split <;> rfl

theorem ringOf_eq_nil {i : Nat} (h : i ∉ b.ring.map (·.1)) : b.ringOf i = [] :=
  List.filterMap_eq_nil_iff.mpr fun x hx =>
    if_neg fun heq => h (List.mem_map.mpr ⟨x, hx, heq⟩)

theorem ringOf_eq_singleton {i : Nat} {o : O} (hnodup : (b.ring.map (·.1)).Nodup)
    (h : (i, o) ∈ b.ring) : b.ringOf i = [o] := by
  obtain ⟨front, back, hring⟩ := List.append_of_mem h
  rw [hring, List.map_append, List.map_cons] at hnodup
  have hnot : i ∉ front.map (·.1) ++ back.map (·.1) :=
    (List.nodup_cons.mp (List.perm_middle.nodup_iff.mp hnodup)).1
  have hnone : ∀ x ∈ front ++ back, (if x.1 = i then some x.2 else none : Option O) = none :=
    fun x hx => if_neg fun heq =>
      hnot (List.map_append ▸ List.mem_map.mpr ⟨x, hx, heq⟩)
  rw [ringOf, hring, List.filterMap_append, List.filterMap_cons,
    List.filterMap_eq_nil_iff.mpr fun x hx => hnone x (List.mem_append_left _ hx),
    List.filterMap_eq_nil_iff.mpr fun x hx => hnone x (List.mem_append_right _ hx)]
  simp

end Books

/-- The outcomes that were seen are those of the calls that have ended. -/
theorem booksOf_ended {σ : Type} (tr : List (Step σ (Label C A) (Event O V ε))) :
    (booksOf tr).ended.map (·.2) = outcomesOf tr := by
  induction tr using List.reverseRecOn with
  | nil => rfl
  | append_singleton tr x ih =>
      rw [booksOf_snoc, outcomesOf_snoc, Books.foldl_record_ended, Books.enter_ended, ih]
      simp [outcomesOf, eventsOf]

section Ring

variable {next : S → C → S × Instr C O A V ε} {g : S}

/-- The operations of the books are those that are waited for. -/
theorem booksOf_waiting {tr : List (Step (Threads S C O A V ε) (Label C A) (Event O V ε))}
    {t : Threads S C O A V ε} (h : Trace (Threads.step next) (.start g) tr t) :
    (booksOf tr).ring.map (·.2) = t.waiting.map (·.1) := by
  induction h with
  | nil => rfl
  | @snoc tr t t' a es _ hstep ih =>
      rw [booksOf_snoc]
      cases a with
      | call task =>
          simp only [Threads.step] at hstep
          split at hstep
          · cases hstep
            exact ih
          · cases hstep
      | run =>
          simp only [Threads.step] at hstep
          split at hstep
          · rename_i c callers rest _
            rw [Option.some.injEq] at hstep
            generalize (next t.globals c).2 = instr at hstep
            cases instr with
            | operation o k =>
                cases hstep
                simp [Books.enter, Books.record, ih]
            | coReturn _ | throw _ => cases callers <;> cases hstep <;> exact ih
            | await _ _ | detach _ _ =>
                cases hstep
                exact ih
          · cases hstep
      | complete k a =>
          simp only [Threads.step] at hstep
          split at hstep
          · rename_i o rest callers _ hk
            cases hstep
            have hmem : ((booksOf tr).ring.map (·.2))[k]? = some o := by
              rw [ih, List.getElem?_map, hk]
              rfl
            rw [List.getElem?_map, Option.map_eq_some_iff] at hmem
            obtain ⟨x, hx, -⟩ := hmem
            simp only [Books.enter, hx, List.foldl_nil]
            rw [← List.eraseIdx_map, ih, List.eraseIdx_map]
          · cases hstep

theorem booksOf_ring [Inhabited V]
    {tr : List (Step (Machine S C O A V ε) (Label C A) (Event O V ε))} {m : Machine S C O A V ε}
    (h : Trace (Machine.step next) (.start g) tr m) :
    (booksOf tr).ring.map (·.2) = m.ring.map (·.2) := by
  obtain ⟨tr', t, htr', ⟨act, wait, hr⟩, hobserved⟩ := exists_threads h
  have hbooks := booksOf_waiting htr'
  rw [(told_of_observed tr hobserved).2.2.2, hr.waiting] at hbooks
  rw [hbooks, hr.ring, List.map_map, List.map_map]
  rfl

end Ring

open Books

/-- Each of the coroutines that were called is in one place, and has to do what its reader does
behind the completions it was given. -/
structure Account {D : Type} (target : C → D) (targetOf : O → D) (meaning : C → Reader A ε V)
    (roots : List C) (taken : List (Nat × O × A)) (phases : List (Nat × Phase C O A V ε)) :
    Prop where
  places : (phases.map (·.1)).Perm (List.range roots.length)
  sound : ∀ x ∈ phases, ∀ root, roots[x.1]? = some root →
    x.2.Keeps target targetOf (target root) ∧ ∀ rest,
      meaning root (shareOf taken x.1 ++ rest) = x.2.reader meaning rest
  -- a completion goes to a coroutine that was called
  owners : ∀ x ∈ taken, x.1 < roots.length

section Accounts

variable {D : Type} {target : C → D} {targetOf : O → D} {meaning : C → Reader A ε V}

namespace Account

variable {roots : List C} {taken : List (Nat × O × A)}
  {phases phases' : List (Nat × Phase C O A V ε)} {i : Nat} {p p' : Phase C O A V ε}

theorem perm (h : Account target targetOf meaning roots taken phases)
    (hperm : phases.Perm phases') : Account target targetOf meaning roots taken phases' :=
  ⟨((hperm.map _).symm).trans h.places, fun x hx => h.sound x (hperm.mem_iff.mpr hx), h.owners⟩

theorem reader_eq (h : Account target targetOf meaning roots taken phases) (hp : (i, p) ∈ phases)
    {root : C} (hroot : roots[i]? = some root) :
    meaning root (shareOf taken i) = p.reader meaning [] := by
  simpa using (h.sound (i, p) hp root hroot).2 []

theorem goOn (h : Account target targetOf meaning roots taken ((i, p) :: phases))
    (hkeeps : ∀ d, p.Keeps target targetOf d → p'.Keeps target targetOf d)
    (hreader : p'.reader meaning = p.reader meaning) :
    Account target targetOf meaning roots taken ((i, p') :: phases) := by
  refine ⟨h.places, ?_, h.owners⟩
  intro x hx root hroot
  rcases List.mem_cons.mp hx with rfl | hx
  · obtain ⟨hkept, hread⟩ := h.sound (i, p) List.mem_cons_self root hroot
    exact ⟨hkeeps _ hkept, hreader ▸ hread⟩
  · exact h.sound x (List.mem_cons_of_mem _ hx) root hroot

theorem call (h : Account target targetOf meaning roots taken phases) (root : C) :
    Account target targetOf meaning (roots ++ [root]) taken
      ((roots.length, .running root []) :: phases) := by
  have hnew : shareOf taken roots.length = [] := by
    refine List.filterMap_eq_nil_iff.mpr fun x hx => if_neg ?_
    exact Nat.ne_of_lt (h.owners x hx)
  refine ⟨?_, ?_, ?_⟩
  · rw [List.map_cons, List.length_append, List.length_singleton, List.range_succ]
    exact (h.places.cons _).trans (List.perm_append_singleton _ _).symm
  · intro x hx root' hroot
    rcases List.mem_cons.mp hx with rfl | hx
    · rw [List.getElem?_concat_length] at hroot
      cases hroot
      refine ⟨⟨rfl, by simp⟩, fun rest => ?_⟩
      rw [hnew]
      rfl
    · have hlt : x.1 < roots.length :=
        List.mem_range.mp (h.places.mem_iff.mp (List.mem_map_of_mem hx))
      rw [List.getElem?_append_left hlt] at hroot
      exact h.sound x hx root' hroot
  · intro x hx
    rw [List.length_append]
    exact Nat.lt_add_right _ (h.owners x hx)

theorem take {o : O} {k : A → C} {callers : List (Except ε V → C)}
    (h : Account target targetOf meaning roots taken ((i, .waiting o k callers) :: phases))
    (a : A) :
    Account target targetOf meaning roots (taken ++ [(i, o, a)])
      ((i, .running (k a) callers) :: phases) := by
  have hnodup : (i :: phases.map (·.1)).Nodup := h.places.nodup_iff.mpr List.nodup_range
  have hlt : i < roots.length := List.mem_range.mp (h.places.mem_iff.mp List.mem_cons_self)
  refine ⟨h.places, ?_, ?_⟩
  · intro x hx root hroot
    rcases List.mem_cons.mp hx with rfl | hx
    · obtain ⟨⟨⟨-, hkept⟩, hcallers⟩, hsound⟩ := h.sound _ List.mem_cons_self root hroot
      refine ⟨⟨hkept a, hcallers⟩, fun rest => ?_⟩
      have hshare : shareOf (taken ++ [(i, o, a)]) i = shareOf taken i ++ [a] := by
        simp [shareOf]
      have hread : meaning root (shareOf taken i ++ a :: rest) =
          plug meaning (.receive fun a => meaning (k a)) callers (a :: rest) := hsound (a :: rest)
      rw [hshare, List.append_assoc, List.singleton_append, hread, plug_receive]
      rfl
    · have hne : x.1 ≠ i := ne_of_mem_of_not_mem (List.mem_map_of_mem hx)
        (List.nodup_cons.mp hnodup).1
      have hshare : shareOf (taken ++ [(i, o, a)]) x.1 = shareOf taken x.1 := by
        simp [shareOf, hne.symm]
      rw [hshare]
      exact h.sound x (List.mem_cons_of_mem _ hx) root hroot
  · intro x hx
    rcases List.mem_append.mp hx with hx | hx
    · exact h.owners x hx
    · rw [List.mem_singleton.mp hx]
      exact hlt

end Account

def phasesOf (act : List (Nat × C × List (Except ε V → C)))
    (wait : List (Nat × O × (A → C) × List (Except ε V → C)))
    (ended : List (Nat × Except ε V)) : List (Nat × Phase C O A V ε) :=
  act.map (fun x => (x.1, .running x.2.1 x.2.2)) ++
    (wait.map (fun x => (x.1, .waiting x.2.1 x.2.2.1 x.2.2.2)) ++
      ended.map fun x => (x.1, .ended x.2))

/-- The coroutines of a run, and where each of them is now. -/
structure Told (target : C → D) (targetOf : O → D) (meaning : C → Reader A ε V)
    (act : List (Nat × C × List (Except ε V → C)))
    (wait : List (Nat × O × (A → C) × List (Except ε V → C)))
    (tr : List (Step (Threads S C O A V ε) (Label C A) (Event O V ε)))
    (t : Threads S C O A V ε) : Prop where
  active : t.active = act.map (·.2)
  waiting : t.waiting = wait.map (·.2)
  calls : (booksOf tr).calls = (callsOf tr).length
  runs : ∀ x ∈ act, x.1 = (booksOf tr).running
  ring : (booksOf tr).ring = wait.map fun x => (x.1, x.2.1)
  completions : (booksOf tr).taken.map (·.2.2) = completionsOf tr
  account : Account target targetOf meaning (callsOf tr) (booksOf tr).taken
    (phasesOf act wait (booksOf tr).ended)

namespace Told

variable {act : List (Nat × C × List (Except ε V → C))}
  {wait : List (Nat × O × (A → C) × List (Except ε V → C))}
  {tr : List (Step (Threads S C O A V ε) (Label C A) (Event O V ε))} {t : Threads S C O A V ε}

theorem start (g : S) : Told target targetOf meaning [] []
    ([] : List (Step _ _ (Event O V ε))) (.start g) :=
  ⟨rfl, rfl, rfl, by simp, rfl, rfl, .refl _, by simp [phasesOf, booksOf, observed],
    by simp [booksOf, observed]⟩

theorem call (h : Told target targetOf meaning [] wait tr t) (task : C) (t' : Threads S C O A V ε)
    (hactive : t'.active = [(task, [])]) (hwaiting : t'.waiting = t.waiting) :
    ∃ act', Told target targetOf meaning act' wait (tr ++ [⟨t, .call task, [], t'⟩]) t' := by
  refine ⟨[((callsOf tr).length, task, [])], hactive, hwaiting.trans h.waiting, ?_, ?_, ?_, ?_, ?_⟩
  · rw [booksOf_snoc, callsOf_snoc, List.length_append]
    exact congrArg (· + 1) h.calls
  · intro x hx
    rw [booksOf_snoc, List.mem_singleton.mp hx]
    exact h.calls.symm
  · rw [booksOf_snoc]
    exact h.ring
  · rw [booksOf_snoc, completionsOf_snoc]
    exact h.completions.trans (List.append_nil _).symm
  · rw [booksOf_snoc, callsOf_snoc]
    exact h.account.call task

/-- A coroutine that ran is somewhere else now, and its reader is still the same. -/
theorem ran {i : Nat} {c : C} {callers : List (Except ε V → C)}
    (h : Told target targetOf meaning ((i, c, callers) :: act) wait tr t)
    {act' : List (Nat × C × List (Except ε V → C))}
    {wait' : List (Nat × O × (A → C) × List (Except ε V → C))} {p : Phase C O A V ε}
    {es : List (Event O V ε)} {t' : Threads S C O A V ε} (hactive : t'.active = act'.map (·.2))
    (hwaiting : t'.waiting = wait'.map (·.2))
    (hruns : ∀ x ∈ act', x.1 = i ∨ x ∈ act)
    (hring : (es.foldl record (booksOf tr)).ring = wait'.map fun x => (x.1, x.2.1))
    (hkeeps : ∀ d, (Phase.running c callers : Phase C O A V ε).Keeps target targetOf d →
      p.Keeps target targetOf d)
    (hreader : p.reader meaning = plug meaning (meaning c) callers)
    (hperm : ((i, p) :: phasesOf act wait (booksOf tr).ended).Perm
      (phasesOf act' wait' (es.foldl record (booksOf tr)).ended)) :
    Told target targetOf meaning act' wait' (tr ++ [⟨t, .run, es, t'⟩]) t' := by
  have hbooks : booksOf (tr ++ [⟨t, .run, es, t'⟩]) = es.foldl record (booksOf tr) :=
    booksOf_snoc tr _
  have hcalls : callsOf (tr ++ [⟨t, .run, es, t'⟩]) = callsOf tr :=
    (callsOf_snoc tr _).trans (List.append_nil _)
  refine ⟨hactive, hwaiting, ?_, ?_, ?_, ?_, ?_⟩
  · rw [hbooks, hcalls, foldl_record_calls, h.calls]
  · intro x hx
    rw [hbooks, foldl_record_running]
    rcases hruns x hx with heq | hx
    · exact heq.trans (h.runs _ List.mem_cons_self)
    · exact h.runs x (List.mem_cons_of_mem _ hx)
  · rw [hbooks, hring]
  · rw [hbooks, foldl_record_taken, completionsOf_snoc]
    exact h.completions.trans (List.append_nil _).symm
  · rw [hbooks, hcalls, foldl_record_taken]
    have hhead : Account target targetOf meaning (callsOf tr) (booksOf tr).taken ((i, p) :: _) :=
      h.account.goOn hkeeps hreader
    exact hhead.perm hperm

theorem finish {i : Nat} {c : C} {callers : List (Except ε V → C)}
    (h : Told target targetOf meaning ((i, c, callers) :: act) wait tr t) (g : S)
    (outcome : Except ε V) (hc : meaning c = .ofExcept outcome)
    {r : Threads S C O A V ε × List (Event O V ε)}
    (hr : ({ t with globals := g, active := act.map (·.2) } : Threads S C O A V ε).finish outcome
      callers = r) :
    ∃ act', Told target targetOf meaning act' wait (tr ++ [⟨t, .run, r.2, r.1⟩]) r.1 := by
  subst hr
  cases callers with
  | nil =>
      refine ⟨act, h.ran (p := .ended outcome) rfl h.waiting (fun x hx => .inr hx) h.ring
        (fun _ _ => trivial) hc.symm ?_⟩
      have hended : ([Event.detachedEnded outcome].foldl record (booksOf tr)).ended =
          (booksOf tr).ended ++ [(i, outcome)] := by
        rw [show i = _ from h.runs _ List.mem_cons_self]
        rfl
      rw [Threads.finish, hended]
      simp only [phasesOf, List.map_append, ← List.append_assoc]
      exact (List.perm_append_singleton _ _).symm
  | cons k callers =>
      refine ⟨(i, k outcome, callers) :: act, h.ran (p := .running (k outcome) callers) rfl
        h.waiting ?_ h.ring ?_ ?_ (.refl _)⟩
      · intro x hx
        exact (List.mem_cons.mp hx).imp_left (congrArg Prod.fst)
      · rintro d ⟨-, hcallers⟩
        exact ⟨hcallers k List.mem_cons_self outcome,
          fun k' hk' => hcallers k' (List.mem_cons_of_mem _ hk')⟩
      · simp only [Phase.reader, plug, hc, Reader.tryBind_ofExcept]

theorem run {i : Nat} {c : C} {callers : List (Except ε V → C)}
    (h : Told target targetOf meaning ((i, c, callers) :: act) wait tr t) (g : S)
    {instr : Instr C O A V ε} (hc : instr.Means meaning (meaning c))
    (hkeeps : instr.Keeps target targetOf (target c)) {r : Threads S C O A V ε × List (Event O V ε)}
    (hr : ({ t with globals := g, active := act.map (·.2) } : Threads S C O A V ε).run callers
      instr = r) :
    ∃ act' wait', Told target targetOf meaning act' wait' (tr ++ [⟨t, .run, r.2, r.1⟩]) r.1 := by
  cases instr with
  | coReturn v =>
      obtain ⟨act', htold⟩ := h.finish g (.ok v) hc hr
      exact ⟨act', wait, htold⟩
  | throw e =>
      obtain ⟨act', htold⟩ := h.finish g (.error e) hc hr
      exact ⟨act', wait, htold⟩
  | operation o k =>
      subst hr
      refine ⟨act, wait ++ [(i, o, k, callers)], h.ran (p := .waiting o k callers) rfl ?_
        (fun x hx => .inr hx) ?_ ?_ ?_ ?_⟩
      · simp [Threads.run, h.waiting]
      · have hring : ([Event.submitted o].foldl record (booksOf tr)).ring =
            (booksOf tr).ring ++ [(i, o)] := by
          rw [show i = _ from h.runs _ List.mem_cons_self]
          rfl
        rw [Threads.run, hring, h.ring, List.map_append]
        rfl
      · rintro d ⟨rfl, hcallers⟩
        exact ⟨hkeeps, hcallers⟩
      · rw [show meaning c = .receive fun a => meaning (k a) from hc]
        rfl
      · simp only [Threads.run, List.foldl_cons, List.foldl_nil, record, phasesOf, List.map_append,
          List.map_cons, List.map_nil, List.append_assoc, List.singleton_append]
        rw [← List.append_assoc, ← List.append_assoc]
        exact List.perm_middle.symm
  | await task k =>
      subst hr
      refine ⟨(i, task, k :: callers) :: act, wait, h.ran (p := .running task (k :: callers)) rfl
        h.waiting ?_ h.ring ?_ ?_ (.refl _)⟩
      · intro x hx
        exact (List.mem_cons.mp hx).imp_left (congrArg Prod.fst)
      · rintro d ⟨rfl, hcallers⟩
        refine ⟨hkeeps.1, fun k' hk' outcome => ?_⟩
        rcases List.mem_cons.mp hk' with rfl | hk'
        · exact hkeeps.2 outcome
        · exact hcallers k' hk' outcome
      · rw [show meaning c = (meaning task).tryBind fun o => meaning (k o) from hc]
        rfl
  | detach task rest => exact hc.elim

theorem complete (h : Told target targetOf meaning [] wait tr t) {j : Nat} {o : O} {k : A → C}
    {callers : List (Except ε V → C)} (hj : t.waiting[j]? = some (o, k, callers)) (a : A)
    (t' : Threads S C O A V ε) (hactive : t'.active = [(k a, callers)])
    (hwaiting : t'.waiting = t.waiting.eraseIdx j) :
    ∃ act' wait', Told target targetOf meaning act' wait'
      (tr ++ [⟨t, .complete j a, [], t'⟩]) t' := by
  rw [h.waiting, List.getElem?_map, Option.map_eq_some_iff] at hj
  obtain ⟨⟨i, x⟩, hj, rfl⟩ := hj
  have hcalls : callsOf (tr ++ [⟨t, .complete j a, [], t'⟩]) = callsOf tr :=
    (callsOf_snoc tr _).trans (List.append_nil _)
  -- the books know whose operation it was
  have hbooks : booksOf (tr ++ [⟨t, .complete j a, [], t'⟩]) = { booksOf tr with
      running := i
      ring := (booksOf tr).ring.eraseIdx j
      taken := (booksOf tr).taken ++ [(i, o, a)] } := by
    have hring : (booksOf tr).ring[j]? = some (i, o) := by
      rw [h.ring, List.getElem?_map, hj]
      rfl
    rw [booksOf_snoc, List.foldl_nil, enter, hring]
  refine ⟨[(i, k a, callers)], wait.eraseIdx j, hactive, ?_, ?_, ?_, ?_, ?_, ?_⟩
  · rw [hwaiting, h.waiting, List.eraseIdx_map]
  · rw [hbooks, hcalls]
    exact h.calls
  · intro x hx
    rw [hbooks, List.mem_singleton.mp hx]
  · rw [hbooks, ← List.eraseIdx_map, ← h.ring]
  · rw [hbooks, completionsOf_snoc, List.map_append, h.completions]
    rfl
  · obtain ⟨hlt, hget⟩ := List.getElem?_eq_some_iff.mp hj
    have hperm := ((List.getElem_cons_eraseIdx_perm hlt).symm.map
      fun x => (x.1, (.waiting x.2.1 x.2.2.1 x.2.2.2 : Phase C O A V ε))).append_right
        ((booksOf tr).ended.map fun x => (x.1, .ended x.2))
    rw [hget] at hperm
    rw [hbooks, hcalls]
    exact (h.account.perm hperm).take a

theorem step {next : S → C → S × Instr C O A V ε} (hmeans : Means next meaning)
    (hkeeps : Keeps target targetOf next) (h : Told target targetOf meaning act wait tr t)
    {a : Label C A} {t' : Threads S C O A V ε} {es : List (Event O V ε)}
    (hstep : t.step next a = some (t', es)) :
    ∃ act' wait', Told target targetOf meaning act' wait' (tr ++ [⟨t, a, es, t'⟩]) t' := by
  cases a with
  | call task =>
      simp only [Threads.step] at hstep
      split at hstep
      · rename_i hidle
        cases hstep
        have hnone : act = [] := List.map_eq_nil_iff.mp (h.active.symm.trans hidle)
        subst hnone
        obtain ⟨act', htold⟩ := h.call task { t with active := [(task, [])] } rfl rfl
        exact ⟨act', wait, htold⟩
      · cases hstep
  | run =>
      cases act with
      | nil => simp [Threads.step, h.active] at hstep
      | cons x act =>
          simp only [Threads.step, h.active, List.map_cons, Option.some.injEq] at hstep
          exact h.run _ (hmeans t.globals x.2.1) (hkeeps t.globals x.2.1) hstep
  | complete j a =>
      cases act with
      | cons x act => simp [Threads.step, h.active] at hstep
      | nil =>
          cases hj : t.waiting[j]? with
          | none => simp [Threads.step, h.active, hj] at hstep
          | some x =>
              simp only [Threads.step, h.active, List.map_nil, hj, Option.some.injEq,
                Prod.mk.injEq] at hstep
              obtain ⟨rfl, rfl⟩ := hstep
              exact h.complete hj a
                { t with active := [(x.2.1 a, x.2.2)], waiting := t.waiting.eraseIdx j } rfl rfl

theorem of_trace {next : S → C → S × Instr C O A V ε} (hmeans : Means next meaning)
    (hkeeps : Keeps target targetOf next) {g : S} (h : Trace (Threads.step next) (.start g) tr t) :
    ∃ act wait, Told target targetOf meaning act wait tr t := by
  induction h with
  | nil => exact ⟨[], [], start g⟩
  | snoc _ hstep ih =>
      obtain ⟨act, wait, htold⟩ := ih
      exact htold.step hmeans hkeeps hstep

end Told

/-- Call `i` has ended as its reader says, or waits for one operation as its reader does. -/
def Books.Stands (b : Books O A V ε) (target : C → D) (targetOf : O → D)
    (meaning : C → Reader A ε V) (i : Nat) (root : C) : Prop :=
  (∃ outcome, (i, outcome) ∈ b.ended ∧ b.ringOf i = [] ∧
    meaning root (shareOf b.taken i) = Reader.ofExcept outcome []) ∨
  (i ∉ b.ended.map (·.1) ∧ (∃ o, b.ringOf i = [o] ∧ targetOf o = target root) ∧
    meaning root (shareOf b.taken i) = .waiting)

/-- However the event loop interleaves them, every coroutine that was called is where its own
reader is behind the completions of its own operations, and no completion is left over. -/
theorem coroutines_read_their_completions [Inhabited V] {next : S → C → S × Instr C O A V ε}
    (hmeans : Means next meaning) (hkeeps : Keeps target targetOf next) (g : S)
    (tr : List (Step (Machine S C O A V ε) (Label C A) (Event O V ε))) (m : Machine S C O A V ε)
    (h : Trace (Machine.step next) (.start g) tr m) (hidle : m.stack = []) :
    (booksOf tr).ring.map (·.2) = m.ring.map (·.2) ∧
      (booksOf tr).taken.map (·.2.2) = completionsOf tr ∧
      (booksOf tr).ended.map (·.2) = outcomesOf tr ∧ ((booksOf tr).ended.map (·.1)).Nodup ∧
      ∀ i root, (callsOf tr)[i]? = some root →
        (booksOf tr).Stands target targetOf meaning i root := by
  obtain ⟨tr', t, htr', ⟨acts, waits, hr⟩, hobserved⟩ := exists_threads h
  obtain ⟨hcalls, hcompletions, -, hbooks⟩ := told_of_observed tr hobserved
  obtain ⟨act, wait, htold⟩ := Told.of_trace hmeans hkeeps htr'
  have hacts : acts = [] := List.map_eq_nil_iff.mp (hr.stack.symm.trans hidle)
  have hact : act = [] := by
    have hactive := htold.active
    rw [hr.active, hacts] at hactive
    exact List.map_eq_nil_iff.mp hactive.symm
  subst hact
  have hring := htold.ring
  have haccount := htold.account
  have htaken := htold.completions
  rw [hbooks] at hring haccount htaken
  rw [hcalls] at haccount
  rw [hcompletions] at htaken
  have hplaces := haccount.places
  have hnodup := hplaces.nodup_iff.mpr List.nodup_range
  simp only [phasesOf, List.map_nil, List.nil_append, List.map_append, List.map_map]
    at hnodup hplaces
  obtain ⟨hwaits, hended, hdisjoint⟩ := List.nodup_append.mp hnodup
  have hfirsts : (booksOf tr).ring.map (·.1) = wait.map (·.1) := by
    rw [hring, List.map_map]
    rfl
  refine ⟨booksOf_ring h, htaken, booksOf_ended tr, hended, fun i root hroot => ?_⟩
  have hlt := (List.getElem?_eq_some_iff.mp hroot).1
  rcases List.mem_append.mp (hplaces.mem_iff.mpr (List.mem_range.mpr hlt)) with hi | hi
  · obtain ⟨x, hx, rfl⟩ := List.mem_map.mp hi
    have hmem : (x.1, Phase.waiting x.2.1 x.2.2.1 x.2.2.2) ∈
        phasesOf [] wait (booksOf tr).ended :=
      List.mem_append_right _ (List.mem_append_left _ (List.mem_map.mpr ⟨x, hx, rfl⟩))
    refine .inr ⟨fun hmem => hdisjoint _ hi _ hmem rfl, ⟨x.2.1, ?_, ?_⟩, ?_⟩
    · refine ringOf_eq_singleton _ (hfirsts ▸ hwaits) ?_
      rw [hring]
      exact List.mem_map.mpr ⟨x, hx, rfl⟩
    · exact ((haccount.sound _ hmem root hroot).1).1.1
    · refine (haccount.reader_eq hmem hroot).trans ?_
      rw [Phase.reader, plug_receive]
      rfl
  · obtain ⟨x, hx, rfl⟩ := List.mem_map.mp hi
    have hmem : (x.1, Phase.ended x.2) ∈ phasesOf [] wait (booksOf tr).ended :=
      List.mem_append_right _ (List.mem_append_right _ (List.mem_map.mpr ⟨x, hx, rfl⟩))
    refine .inl ⟨x.2, hx, ringOf_eq_nil _ fun hmem => ?_, haccount.reader_eq hmem hroot⟩
    rw [hfirsts] at hmem
    exact hdisjoint _ hmem _ hi rfl

end Accounts

end Servd.TaskFrames
