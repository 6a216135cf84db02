import Servd.TaskFrames

/-!
Coroutines as threads. Seen from outside, `co_await` of a `Task` is a call: the awaiting
coroutine goes on with the value or the exception of the awaited one. A thread is a point
of a body with the calls it is inside of, and there are no frames, handles or promises. Every
run of the frames is a run of such threads and the other way round; the live frames are
exactly one for each call that has not returned.
-/
namespace Servd.TaskFrames

open Transition

variable {S C O A V ε : Type}

/-- The coroutines that run, the innermost first, and those that wait for an operation; each with
what its callers do when it ends. -/
structure Threads (S C O A V ε : Type) where
  globals : S
  active : List (C × List (Except ε V → C)) := []
  waiting : List (O × (A → C) × List (Except ε V → C)) := []

namespace Threads

def start (globals : S) : Threads S C O A V ε := { globals := globals }

/-- A coroutine ends: its caller goes on, or nobody. -/
def finish (t : Threads S C O A V ε) (outcome : Except ε V) :
    List (Except ε V → C) → Threads S C O A V ε × List (Event O V ε)
  | [] => (t, [.detachedEnded outcome])
  | k :: callers => ({ t with active := (k outcome, callers) :: t.active }, [])

def run (t : Threads S C O A V ε) (callers : List (Except ε V → C)) :
    Instr C O A V ε → Threads S C O A V ε × List (Event O V ε)
  | .coReturn v => t.finish (.ok v) callers
  | .throw e => t.finish (.error e) callers
  | .operation o k => ({ t with waiting := t.waiting ++ [(o, k, callers)] }, [.submitted o])
  | .await task k => ({ t with active := (task, k :: callers) :: t.active }, [])
  | .detach task rest => ({ t with active := (task, []) :: (rest, callers) :: t.active }, [])

def step (next : S → C → S × Instr C O A V ε) (t : Threads S C O A V ε) :
    Label C A → Option (Threads S C O A V ε × List (Event O V ε))
  | .call task =>
      if t.active = [] then some ({ t with active := [(task, [])] }, []) else none
  | .run =>
      match t.active with
      | (c, callers) :: rest =>
          let next := next t.globals c
          some (({ t with globals := next.1, active := rest }).run callers next.2)
      | [] => none
  | .complete k a =>
      match t.active, t.waiting[k]? with
      | [], some (_, rest, callers) =>
          some ({ t with active := [(rest a, callers)], waiting := t.waiting.eraseIdx k }, [])
      | _, _ => none

end Threads

/-- From the frame of `h`, the continuations lead through frames that await one another to that of
a `DetachedTask`. -/
inductive Chain (heap : Handle → Option (Frame C A V ε)) :
    Handle → List (Except ε V → C) → List Handle → Prop
  | root {h : Handle} {s : Suspension C A V ε} (hf : heap h = some (.detached s)) :
      Chain heap h [] [h]
  | caller {h q : Handle} {s : Suspension C A V ε} {v : V} {g : Frame C A V ε}
      {k : Except ε V → C} {callers : List (Except ε V → C)} {handles : List Handle}
      (hf : heap h = some (.task s ⟨v, none, some q⟩)) (hq : heap q = some g)
      (hg : g.suspension = .await h k) (rest : Chain heap q callers handles) :
      Chain heap h (k :: callers) (h :: handles)

/-- The frames of one thread, from the innermost. -/
structure Strand (C V ε : Type) where
  handle : Handle
  callers : List (Except ε V → C)
  handles : List Handle

def Strand.Holds (heap : Handle → Option (Frame C A V ε)) (x : Strand C V ε)
    (s : Suspension C A V ε) : Prop :=
  Chain heap x.handle x.callers x.handles ∧ (heap x.handle).map (·.suspension) = some s

/-- The heap consists of the frames of some threads, each suspended where it is said to be. -/
structure Layout (heap : Handle → Option (Frame C A V ε)) (next : Handle)
    (strands : List (Strand C V ε × Suspension C A V ε)) : Prop where
  holds : ∀ x ∈ strands, x.1.Holds heap x.2
  nodup : (strands.flatMap (·.1.handles)).Nodup
  live : ∀ h, heap h ≠ none ↔ h ∈ strands.flatMap (·.1.handles)
  fresh : ∀ h ∈ strands.flatMap (·.1.handles), h < next

namespace Chain

variable {heap heap' : Handle → Option (Frame C A V ε)} {h : Handle}
  {callers : List (Except ε V → C)} {handles : List Handle}

theorem head_mem (hc : Chain heap h callers handles) : h ∈ handles := by
  cases hc with
  | root _ | caller _ _ _ _ => exact List.mem_cons_self

theorem congr (hc : Chain heap h callers handles) (hheap : ∀ x ∈ handles, heap' x = heap x) :
    Chain heap' h callers handles := by
  induction hc with
  | root hf => exact .root ((hheap _ List.mem_cons_self).trans hf)
  | caller hf hq hg rest ih =>
      have hrest := ih fun x hx => hheap x (List.mem_cons_of_mem _ hx)
      have hcaller := hheap _ (List.mem_cons_of_mem _ rest.head_mem)
      exact .caller ((hheap _ List.mem_cons_self).trans hf) (hcaller.trans hq) hg hrest

theorem update_of_not_mem (hc : Chain heap h callers handles) {x : Handle} (hx : x ∉ handles)
    (f : Option (Frame C A V ε)) : Chain (Function.update heap x f) h callers handles :=
  hc.congr fun _ hy => Function.update_of_ne (ne_of_mem_of_not_mem hy hx) _ _

theorem suspend (hc : Chain heap h callers handles) (hnodup : handles.Nodup)
    {f : Frame C A V ε} (hf : heap h = some f) (s : Suspension C A V ε) :
    Chain (Function.update heap h (some (f.suspend s))) h callers handles := by
  cases hc with
  | root hroot =>
      rw [hf] at hroot
      cases hroot
      exact .root (Function.update_self _ _ _)
  | caller htask hq hg rest =>
      rw [hf] at htask
      cases htask
      have hnot := (List.nodup_cons.mp hnodup).1
      have hne := ne_of_mem_of_not_mem rest.head_mem hnot
      exact .caller (Function.update_self _ _ _) ((Function.update_of_ne hne _ _).trans hq) hg
        (rest.update_of_not_mem hnot _)

end Chain

@[simp] theorem Frame.suspension_suspend (f : Frame C A V ε) (s : Suspension C A V ε) :
    (f.suspend s).suspension = s := by
  cases f <;> rfl

theorem Strand.Holds.update_of_not_mem {heap : Handle → Option (Frame C A V ε)}
    {x : Strand C V ε} {s : Suspension C A V ε} (hx : x.Holds heap s) {h : Handle}
    (hh : h ∉ x.handles) (f : Option (Frame C A V ε)) :
    x.Holds (Function.update heap h f) s := by
  refine ⟨hx.1.update_of_not_mem hh f, ?_⟩
  rw [Function.update_of_ne (ne_of_mem_of_not_mem hx.1.head_mem hh)]
  exact hx.2

theorem not_mem_handles {L : List (Strand C V ε × Suspension C A V ε)} {h : Handle}
    {x : Strand C V ε × Suspension C A V ε} (hh : h ∉ L.flatMap (·.1.handles)) (hx : x ∈ L) :
    h ∉ x.1.handles :=
  fun hmem => hh (List.mem_flatMap.mpr ⟨x, hx, hmem⟩)

namespace Layout

variable {heap : Handle → Option (Frame C A V ε)} {next : Handle}
  {L L' : List (Strand C V ε × Suspension C A V ε)} {x : Strand C V ε}
  {s s' : Suspension C A V ε} {f : Frame C A V ε}

theorem perm (hL : Layout heap next L) (h : L.Perm L') : Layout heap next L' := by
  have hhandles := h.flatMap_right (·.1.handles)
  exact {
    holds := fun x hx => hL.holds x (h.mem_iff.mpr hx)
    nodup := hhandles.nodup_iff.mp hL.nodup
    live := fun h => (hL.live h).trans hhandles.mem_iff
    fresh := fun h hh => hL.fresh h (hhandles.mem_iff.mpr hh) }

theorem next_not_mem (hL : Layout heap next L) : next ∉ L.flatMap (·.1.handles) :=
  fun h => Nat.lt_irrefl _ (hL.fresh _ h)

theorem head_nodup (hL : Layout heap next ((x, s) :: L)) :
    x.handles.Nodup ∧ (L.flatMap (·.1.handles)).Nodup ∧
      ∀ h ∈ x.handles, h ∉ L.flatMap (·.1.handles) := by
  have hnodup := hL.nodup
  rw [List.flatMap_cons, List.nodup_append] at hnodup
  exact ⟨hnodup.1, hnodup.2.1, fun h hx hL => hnodup.2.2 h hx h hL rfl⟩

theorem frame_of_head (hL : Layout heap next ((x, s) :: L)) :
    ∃ f, heap x.handle = some f ∧ f.suspension = s :=
  Option.map_eq_some_iff.mp (hL.holds _ List.mem_cons_self).2

/-- Only the innermost frame of a thread changes, and only in where it is suspended. -/
theorem suspend (hL : Layout heap next ((x, s) :: L)) (hf : heap x.handle = some f)
    (s' : Suspension C A V ε) :
    Layout (Function.update heap x.handle (some (f.suspend s'))) next ((x, s') :: L) := by
  obtain ⟨hnodup, -, hdisjoint⟩ := hL.head_nodup
  obtain ⟨hchain, -⟩ := hL.holds _ List.mem_cons_self
  refine ⟨?_, hL.nodup, ?_, hL.fresh⟩
  · intro y hy
    rcases List.mem_cons.mp hy with rfl | hy
    · exact ⟨hchain.suspend hnodup hf s', by simp⟩
    · have hnot := not_mem_handles (hdisjoint _ hchain.head_mem) hy
      exact (hL.holds y (List.mem_cons_of_mem _ hy)).update_of_not_mem hnot _
  · intro h
    refine Iff.trans ?_ (hL.live h)
    by_cases hh : h = x.handle
    · subst hh
      simp [hf]
    · rw [Function.update_of_ne hh]

theorem allocate (hL : Layout heap next L) (s : Suspension C A V ε) :
    Layout (Function.update heap next (some (.detached s))) (next + 1)
      ((⟨next, [], [next]⟩, s) :: L) := by
  refine ⟨?_, ?_, ?_, ?_⟩
  · intro y hy
    rcases List.mem_cons.mp hy with rfl | hy
    · exact ⟨.root (Function.update_self _ _ _), by simp [Frame.suspension]⟩
    · exact (hL.holds y hy).update_of_not_mem (not_mem_handles hL.next_not_mem hy) _
  · rw [List.flatMap_cons]
    exact List.nodup_cons.mpr ⟨hL.next_not_mem, hL.nodup⟩
  · intro h
    rw [List.flatMap_cons, List.singleton_append, List.mem_cons, ← hL.live h]
    by_cases hh : h = next
    · simp [hh]
    · simp [hh]
  · intro h hh
    rcases List.mem_cons.mp hh with rfl | hh
    · exact Nat.lt_succ_self _
    · exact Nat.lt_succ_of_lt (hL.fresh h hh)

/-- The frame of an awaited `Task` becomes the innermost one. -/
theorem await (hL : Layout heap next ((x, s) :: L)) (hf : heap x.handle = some f) (v : V)
    (k : Except ε V → C) (s' : Suspension C A V ε) :
    Layout
      (Function.update (Function.update heap x.handle (some (f.suspend (.await next k)))) next
        (some (.task s' ⟨v, none, some x.handle⟩)))
      (next + 1) ((⟨next, k :: x.callers, next :: x.handles⟩, s') :: L) := by
  have hawait := hL.suspend hf (.await next k)
  obtain ⟨hchain, -⟩ := hawait.holds _ List.mem_cons_self
  have hnext := hL.next_not_mem
  have hne : x.handle ≠ next := fun heq => hnext (heq ▸ List.mem_append_left _ hchain.head_mem)
  have hnotx : next ∉ x.handles := fun hmem => hnext (List.mem_append_left _ hmem)
  refine ⟨?_, ?_, ?_, ?_⟩
  · intro y hy
    rcases List.mem_cons.mp hy with rfl | hy
    · refine ⟨.caller (Function.update_self _ _ _)
        ((Function.update_of_ne hne _ _).trans (Function.update_self _ _ _)) (by simp)
        (hchain.update_of_not_mem hnotx _), by simp [Frame.suspension]⟩
    · have hnot : next ∉ y.1.handles :=
        not_mem_handles (fun hmem => hnext (List.mem_append_right _ hmem)) hy
      exact (hawait.holds y (List.mem_cons_of_mem _ hy)).update_of_not_mem hnot _
  · exact List.nodup_cons.mpr ⟨hnext, hL.nodup⟩
  · intro h
    rw [List.flatMap_cons, List.cons_append, List.mem_cons]
    refine Iff.trans ?_ (or_congr Iff.rfl (hawait.live h))
    by_cases hh : h = next
    · simp [hh]
    · simp [hh]
  · intro h hh
    rcases List.mem_cons.mp hh with rfl | hh
    · exact Nat.lt_succ_self _
    · exact Nat.lt_succ_of_lt (hL.fresh h hh)

/-- A thread without callers gives up its frame. -/
theorem destroyRoot (hL : Layout heap next ((x, s) :: L)) (hcallers : x.callers = []) :
    heap x.handle = some (.detached s) ∧
      Layout (Function.update heap x.handle none) next L := by
  obtain ⟨h, callers, handles⟩ := x
  cases hcallers
  obtain ⟨-, hrest, hdisjoint⟩ := hL.head_nodup
  obtain ⟨hchain, hsuspension⟩ := hL.holds _ List.mem_cons_self
  simp only at hchain hsuspension
  cases hchain with
  | root hroot =>
      rw [hroot] at hsuspension
      cases hsuspension
      have hnot := hdisjoint h List.mem_cons_self
      refine ⟨hroot, ?_, hrest, ?_, fun y hy => hL.fresh y (List.mem_append_right _ hy)⟩
      · intro y hy
        exact (hL.holds y (List.mem_cons_of_mem _ hy)).update_of_not_mem
          (not_mem_handles hnot hy) _
      · intro y
        by_cases hy : y = h
        · subst hy
          simpa using hnot
        · rw [Function.update_of_ne hy, hL.live, List.flatMap_cons, List.singleton_append,
            List.mem_cons]
          simp [hy]

/-- A `Task` has ended and its caller goes on: the frame of the `Task` is gone, and that of the
caller is the innermost one. -/
theorem destroyTask (hL : Layout heap next ((x, s) :: L)) {k : Except ε V → C}
    {callers : List (Except ε V → C)} (hcallers : x.callers = k :: callers) :
    ∃ v q g handles, heap x.handle = some (.task s ⟨v, none, some q⟩) ∧ q ≠ x.handle ∧
      heap q = some g ∧ g.suspension = .await x.handle k ∧
      ∀ s', Layout
        (Function.update (Function.update heap x.handle none) q (some (g.suspend s'))) next
        ((⟨q, callers, handles⟩, s') :: L) := by
  obtain ⟨h, callers', handles⟩ := x
  cases hcallers
  obtain ⟨hnodup, -, hdisjoint⟩ := hL.head_nodup
  obtain ⟨hchain, hsuspension⟩ := hL.holds _ List.mem_cons_self
  simp only at hchain hsuspension
  cases hchain with
  | @caller _ q s₀ v g k callers handles hf hq hg rest =>
      rw [hf] at hsuspension
      cases hsuspension
      have hnot := (List.nodup_cons.mp hnodup).1
      have hne := ne_of_mem_of_not_mem rest.head_mem hnot
      refine ⟨v, q, g, handles, hf, hne, hq, hg, fun s' => ?_⟩
      have hmid : Layout (Function.update heap h none) next
          ((⟨q, callers, handles⟩, .await h k) :: L) := by
        refine ⟨?_, ?_, ?_, fun y hy => hL.fresh y (List.mem_cons_of_mem _ hy)⟩
        · intro y hy
          rcases List.mem_cons.mp hy with rfl | hy
          · refine ⟨rest.update_of_not_mem hnot _, ?_⟩
            rw [Function.update_of_ne hne, hq, Option.map_some, hg]
          · exact (hL.holds y (List.mem_cons_of_mem _ hy)).update_of_not_mem
              (not_mem_handles (hdisjoint h List.mem_cons_self) hy) _
        · exact (List.nodup_cons.mp hL.nodup).2
        · intro y
          have hh := (List.nodup_cons.mp hL.nodup).1
          by_cases hy : y = h
          · subst hy
            simpa using hh
          · rw [Function.update_of_ne hy, hL.live]
            exact List.mem_cons.trans (or_iff_right hy)
      exact hmid.suspend ((Function.update_of_ne hne _ _).trans hq) s'

end Layout

/-- The frames of the coroutines that run and of those that wait. -/
def strandsOf (act : List (C × Strand C V ε)) (wait : List (O × (A → C) × Strand C V ε)) :
    List (Strand C V ε × Suspension C A V ε) :=
  act.map (fun x => (x.2, .running)) ++ wait.map fun x => (x.2.2, .operation x.2.1)

/-- The machine is where the threads are. Inside a step, `held` is the coroutine that has been taken
off the native stack. -/
structure Represents (held : List (Strand C V ε × Suspension C A V ε))
    (act : List (C × Strand C V ε)) (wait : List (O × (A → C) × Strand C V ε))
    (m : Machine S C O A V ε) (t : Threads S C O A V ε) : Prop where
  defined : m.undefined = false
  globals : m.globals = t.globals
  stack : m.stack = act.map fun x => (x.2.handle, x.1)
  ring : m.ring = wait.map fun x => (x.2.2.handle, x.1)
  active : t.active = act.map fun x => (x.1, x.2.callers)
  waiting : t.waiting = wait.map fun x => (x.1, x.2.1, x.2.2.callers)
  layout : Layout m.heap m.next (held ++ strandsOf act wait)

def Related (m : Machine S C O A V ε) (t : Threads S C O A V ε) : Prop :=
  ∃ act wait, Represents [] act wait m t

theorem awaitResume_settle (v : V) (q : Option Handle) (outcome : Except ε V) :
    ((⟨v, none, q⟩ : Promise V ε).settle outcome).awaitResume = outcome := by
  cases outcome <;> rfl

namespace Represents

variable {act : List (C × Strand C V ε)} {wait : List (O × (A → C) × Strand C V ε)}
  {m : Machine S C O A V ε} {t : Threads S C O A V ε} {x : Strand C V ε}

theorem finish (h : Represents [(x, .running)] act wait m t) (outcome : Except ε V) :
    Related (m.finish x.handle outcome).1 (t.finish outcome x.callers).1 ∧
      (m.finish x.handle outcome).2 = (t.finish outcome x.callers).2 := by
  have hL : Layout m.heap m.next ((x, .running) :: strandsOf act wait) := h.layout
  cases hcallers : x.callers with
  | nil =>
      obtain ⟨hroot, hrest⟩ := hL.destroyRoot hcallers
      simp only [Machine.finish, hroot, Threads.finish, and_true]
      exact ⟨act, wait, h.defined, h.globals, h.stack, h.ring, h.active, h.waiting, hrest⟩
  | cons k callers =>
      obtain ⟨v, q, g, handles, hf, hne, hq, hg, hcaller⟩ := hL.destroyTask hcallers
      have hended : ∀ f, (m.write x.handle f).heap q = some g := fun f =>
        (Function.update_of_ne hne _ _).trans hq
      have htask : ∀ f, (m.write x.handle f).heap x.handle = some f := fun f =>
        Function.update_self _ _ _
      simp only [Machine.finish, hf, Machine.transfer, hended, hg, htask, awaitResume_settle,
        Threads.finish, and_true]
      refine ⟨(k outcome, ⟨q, callers, handles⟩) :: act, wait, h.defined, h.globals, ?_, h.ring, ?_,
        h.waiting, ?_⟩
      · exact congrArg (List.cons _) h.stack
      · exact congrArg (List.cons _) h.active
      · simp only [Machine.goOn, Machine.destroy, Machine.write, Function.update_idem]
        exact hcaller .running

theorem operation (h : Represents [(x, .running)] act wait m t) (o : O) (k : A → C) :
    Related { m.suspendAt x.handle (.operation k) with ring := m.ring ++ [(x.handle, o)] }
      { t with waiting := t.waiting ++ [(o, k, x.callers)] } := by
  have hL : Layout m.heap m.next ((x, .running) :: strandsOf act wait) := h.layout
  obtain ⟨f, hf, -⟩ := hL.frame_of_head
  refine ⟨act, wait ++ [(o, k, x)], ?_⟩
  simp only [Machine.suspendAt, hf]
  refine ⟨h.defined, h.globals, h.stack, ?_, h.active, ?_, ?_⟩
  · simp [h.ring]
  · simp [h.waiting]
  · refine (hL.suspend hf (.operation k)).perm ?_
    simp only [strandsOf, List.map_append, List.map_cons, List.map_nil, List.nil_append,
      ← List.append_assoc]
    exact @List.perm_append_comm _ [_] _

theorem await [Inhabited V] (h : Represents [(x, .running)] act wait m t) (task : C)
    (k : Except ε V → C) :
    Related (((m.allocate (.task (.initial task) { value := default })).suspendAt x.handle
        (.await m.next k)).awaitSuspend m.next x.handle)
      { t with active := (task, k :: x.callers) :: t.active } := by
  have hL : Layout m.heap m.next ((x, .running) :: strandsOf act wait) := h.layout
  obtain ⟨f, hf, -⟩ := hL.frame_of_head
  have hne : x.handle ≠ m.next :=
    ne_of_mem_of_not_mem (List.mem_append_left _ (hL.holds _ List.mem_cons_self).1.head_mem)
      hL.next_not_mem
  have hawait := hL.await hf (default : V) k .running
  refine ⟨(task, ⟨m.next, k :: x.callers, m.next :: x.handles⟩) :: act, wait, ?_⟩
  simp only [Machine.allocate, Machine.suspendAt, Machine.awaitSuspend, Machine.transfer,
    Machine.goOn, Machine.write, Function.update_of_ne hne, hf, Function.update_of_ne hne.symm,
    Function.update_self, Frame.suspension, Function.update_idem]
  refine ⟨h.defined, h.globals, congrArg (List.cons _) h.stack, h.ring, congrArg (List.cons _) h.active,
    h.waiting, ?_⟩
  simp only
  rw [Function.update_comm hne.symm, Function.update_idem]
  exact hawait

theorem callDetached (h : Represents [] act wait m t) (task : C) :
    Related (m.callDetached task) { t with active := (task, []) :: t.active } := by
  refine ⟨(task, ⟨m.next, [], [m.next]⟩) :: act, wait, h.defined, h.globals, ?_, h.ring, ?_, h.waiting, ?_⟩
  · exact congrArg (List.cons _) h.stack
  · exact congrArg (List.cons _) h.active
  · exact h.layout.allocate .running

/-- The coroutine that has been taken off the native stack does what its thread does. -/
theorem run [Inhabited V] (h : Represents [(x, .running)] act wait m t)
    (i : Instr C O A V ε) :
    Related (m.run x.handle i).1 (t.run x.callers i).1 ∧
      (m.run x.handle i).2 = (t.run x.callers i).2 := by
  cases i with
  | coReturn v => exact h.finish (.ok v)
  | throw e => exact h.finish (.error e)
  | operation o k => exact ⟨h.operation o k, rfl⟩
  | await task k => exact ⟨h.await task k, rfl⟩
  | detach task rest =>
      have hback : Represents [] ((rest, x) :: act) wait
          { m with stack := (x.handle, rest) :: m.stack }
          { t with active := (rest, x.callers) :: t.active } :=
        ⟨h.defined, h.globals, congrArg (List.cons _) h.stack, h.ring,
          congrArg (List.cons _) h.active, h.waiting, h.layout⟩
      exact ⟨hback.callDetached task, rfl⟩

theorem complete (h : Represents [] [] wait m t) {k : Nat} {o : O} {rest : A → C}
    (hk : wait[k]? = some (o, rest, x)) (a : A) :
    Related (({ m with ring := m.ring.eraseIdx k }).complete x.handle a)
      { t with active := [(rest a, x.callers)], waiting := t.waiting.eraseIdx k } := by
  have hperm : (wait.map fun x => (x.2.2, (.operation x.2.1 : Suspension C A V ε))).Perm
      ((x, .operation rest) ::
        (wait.eraseIdx k).map fun x => (x.2.2, .operation x.2.1)) := by
    obtain ⟨hlt, hget⟩ := List.getElem?_eq_some_iff.mp hk
    have := (List.getElem_cons_eraseIdx_perm hlt).symm
    rw [hget] at this
    exact this.map _
  have hL := h.layout.perm hperm
  obtain ⟨f, hf, hsuspension⟩ := hL.frame_of_head
  refine ⟨[(rest a, x)], wait.eraseIdx k, ?_⟩
  simp only [Machine.complete, hf, hsuspension]
  refine ⟨h.defined, h.globals, ?_, ?_, rfl, ?_, hL.suspend hf .running⟩
  · exact congrArg (List.cons _) h.stack
  · simp only [Machine.goOn, Machine.write, h.ring, List.eraseIdx_map]
  · rw [h.waiting, List.eraseIdx_map]

end Represents

theorem related_init (g : S) :
    Related (.start g : Machine S C O A V ε) (.start g : Threads S C O A V ε) := by
  refine ⟨[], [], rfl, rfl, rfl, rfl, rfl, rfl, ?_⟩
  refine ⟨by simp [strandsOf], by simp [strandsOf], ?_, by simp [strandsOf]⟩
  simp [strandsOf, Machine.start]

variable [Inhabited V] {next : S → C → S × Instr C O A V ε} {g : S} {m : Machine S C O A V ε}
  {t : Threads S C O A V ε}

/-- A step of the one is a step of the other. -/
theorem related_step (hr : Related m t) (a : Label C A) :
    (m.step next a = none ∧ t.step next a = none) ∨
      ∃ m' t' es, m.step next a = some (m', es) ∧ t.step next a = some (t', es) ∧
        Related m' t' := by
  obtain ⟨act, wait, h⟩ := hr
  cases a with
  | call task =>
      cases act with
      | nil =>
          refine .inr ⟨m.callDetached task, { t with active := [(task, [])] }, [], ?_, ?_, ?_⟩
          · exact if_pos ⟨h.defined, h.stack⟩
          · exact if_pos h.active
          · have hcall := h.callDetached task
            rw [h.active] at hcall
            exact hcall
      | cons x act =>
          have hstack : ¬(m.undefined = false ∧ m.stack = []) := by simp [h.stack]
          have hactive : ¬t.active = [] := by simp [h.active]
          exact .inl ⟨if_neg hstack, if_neg hactive⟩
  | run =>
      cases act with
      | nil => exact .inl ⟨by simp [Machine.step, h.stack], by simp [Threads.step, h.active]⟩
      | cons x act =>
          let m₀ : Machine S C O A V ε :=
            { m with
              globals := (next t.globals x.1).1
              stack := act.map fun x => (x.2.handle, x.1) }
          have hheld : Represents [(x.2, .running)] act wait m₀
              { t with
                globals := (next t.globals x.1).1
                active := act.map fun x => (x.1, x.2.callers) } :=
            ⟨h.defined, rfl, rfl, h.ring, rfl, h.waiting, h.layout⟩
          obtain ⟨hrelated, hevents⟩ := hheld.run (next t.globals x.1).2
          refine .inr ⟨_, _, (m₀.run x.2.handle (next t.globals x.1).2).2, ?_, ?_, hrelated⟩
          · simp only [Machine.step, h.defined, h.stack, List.map_cons, h.globals, m₀]
          · simp only [Threads.step, h.active, List.map_cons, hevents]
  | complete k a =>
      cases act with
      | cons x act =>
          exact .inl ⟨by simp [Machine.step, h.stack], by simp [Threads.step, h.active]⟩
      | nil =>
          cases hk : wait[k]? with
          | none =>
              refine .inl ⟨?_, ?_⟩
              · simp [Machine.step, h.ring, hk]
              · simp [Threads.step, h.waiting, hk]
          | some x =>
              refine .inr ⟨_, _, [], ?_, ?_, h.complete hk a⟩
              · simp [Machine.step, h.defined, h.stack, h.ring, hk]
              · simp [Threads.step, h.active, h.waiting, hk]

/-- What a run shows: the labels, and what happened under each. -/
def observed {σ : Type} (tr : List (Step σ (Label C A) (Event O V ε))) :
    List (Label C A × List (Event O V ε)) :=
  tr.map fun x => (x.label, x.events)

theorem exists_threads {tr : List (Step (Machine S C O A V ε) (Label C A) (Event O V ε))}
    (h : Trace (Machine.step next) (.start g) tr m) :
    ∃ tr' t, Trace (Threads.step next) (.start g) tr' t ∧ Related m t ∧ observed tr' = observed tr := by
  obtain ⟨tr', t, htr', hrelated, -, hobserved⟩ := h.simulate (Threads.step next) Related
    (fun x => some (x.label, x.events)) (fun _ => True) (related_init g)
    (fun _ _ _ _ _ hnone => by cases hnone)
    (fun x _ t b es hstep hr hshown => by
      cases hshown
      rcases related_step hr x.label with ⟨hnone, -⟩ | ⟨m', t', es', hm, ht, hr'⟩
      · rw [hnone] at hstep
        cases hstep
      · rw [hm] at hstep
        cases hstep
        exact ⟨t', ht, hr', trivial⟩)
  exact ⟨tr', t, htr', hrelated, hobserved.trans (List.filterMap_eq_map ▸ rfl)⟩

theorem exists_frames {tr : List (Step (Threads S C O A V ε) (Label C A) (Event O V ε))}
    (h : Trace (Threads.step next) (.start g) tr t) :
    ∃ tr' m, Trace (Machine.step next) (.start g) tr' m ∧ Related m t ∧ observed tr' = observed tr := by
  obtain ⟨tr', m, htr', hrelated, -, hobserved⟩ := h.simulate (Machine.step next)
    (fun t m => Related m t) (fun x => some (x.label, x.events)) (fun _ => True) (related_init g)
    (fun _ _ _ _ _ hnone => by cases hnone)
    (fun x _ m b es hstep hr hshown => by
      cases hshown
      rcases related_step hr x.label with ⟨-, hnone⟩ | ⟨m', t', es', hm, ht, hr'⟩
      · rw [hnone] at hstep
        cases hstep
      · rw [ht] at hstep
        cases hstep
        exact ⟨m', hm, hr', trivial⟩)
  exact ⟨tr', m, htr', hrelated, hobserved.trans (List.filterMap_eq_map ▸ rfl)⟩

/-- The frames and the threads have the same runs. -/
theorem frames_iff_threads (next : S → C → S × Instr C O A V ε)
    (g g' : S) (shown : List (Label C A × List (Event O V ε))) :
    (∃ tr m, Trace (Machine.step next) (.start g) tr m ∧ observed tr = shown ∧
        m.globals = g') ↔
      ∃ tr t, Trace (Threads.step next) (.start g) tr t ∧ observed tr = shown ∧
        t.globals = g' := by
  constructor
  · rintro ⟨tr, m, htr, rfl, rfl⟩
    obtain ⟨tr', t, htr', ⟨act, wait, hr⟩, hobserved⟩ := exists_threads htr
    exact ⟨tr', t, htr', hobserved, hr.globals.symm⟩
  · rintro ⟨tr, t, htr, rfl, rfl⟩
    obtain ⟨tr', m, htr', ⟨act, wait, hr⟩, hobserved⟩ := exists_frames htr
    exact ⟨tr', m, htr', hobserved, hr.globals⟩

/-- No handle is ever used that is not that of a live frame suspended where it is expected, and
every live frame belongs to one coroutine that runs or whose operation is in the ring: a
frame goes away with the call it stands for. -/
theorem frames_owned (next : S → C → S × Instr C O A V ε) (g : S)
    (tr : List (Step (Machine S C O A V ε) (Label C A) (Event O V ε))) (m : Machine S C O A V ε)
    (h : Trace (Machine.step next) (.start g) tr m) :
    m.undefined = false ∧
      ∃ strands : List (Strand C V ε),
        strands.map (·.handle) = m.stack.map (·.1) ++ m.ring.map (·.1) ∧
        (∀ x ∈ strands, Chain m.heap x.handle x.callers x.handles) ∧
        (strands.flatMap (·.handles)).Nodup ∧
        ∀ h, m.heap h ≠ none ↔ h ∈ strands.flatMap (·.handles) := by
  obtain ⟨-, t, -, ⟨act, wait, hr⟩, -⟩ := exists_threads h
  have hhandles : (strandsOf act wait).flatMap (·.1.handles) =
      ((strandsOf act wait).map (·.1)).flatMap (·.handles) := by
    rw [List.flatMap_map]
  refine ⟨hr.defined, (strandsOf act wait).map (·.1), ?_, ?_, ?_, ?_⟩
  · simp only [strandsOf, List.map_append, List.map_map, hr.stack, hr.ring]
    rfl
  · intro x hx
    obtain ⟨y, hy, rfl⟩ := List.mem_map.mp hx
    exact (hr.layout.holds y hy).1
  · exact hhandles ▸ hr.layout.nodup
  · intro h
    exact hhandles ▸ hr.layout.live h

/-- A coroutine that awaits one that waits for an operation. -/
def awaiting : Unit → Fin 3 → Unit × Instr (Fin 3) Unit Int Int Unit
  | g, 0 => (g, .await 1 fun _ => 2)
  | g, 1 => (g, .operation () fun _ => 2)
  | g, 2 => (g, .coReturn 0)

theorem frames_owned_awaiting : ∃ tr m, Trace (Machine.step awaiting) (.start ()) tr m ∧
    m.ring.map (·.1) = [1] ∧ m.undefined = false := by
  obtain ⟨tr, m, htr, hring⟩ := exists_trace_of_exec (Machine.step awaiting) (.start ())
    [.call 0, .run, .run] (fun _ m => m.ring.map (·.1) = [1]) (by decide)
  exact ⟨tr, m, htr, hring, (frames_owned awaiting () tr m htr).1⟩

/-- How deep calls of functions that return a `DetachedTask` are nested in each other. Whatever
a coroutine awaits counts as part of it. -/
structure Ranked (next : S → C → S × Instr C O A V ε) (rank : C → Nat) : Prop where
  operation : ∀ g c o k, (next g c).2 = .operation o k → ∀ a, rank (k a) ≤ rank c
  await : ∀ g c task k, (next g c).2 = .await task k →
    rank task ≤ rank c ∧ ∀ r, rank (k r) ≤ rank c
  detach : ∀ g c task rest, (next g c).2 = .detach task rest →
    rank task < rank c ∧ rank rest ≤ rank c

section Depth

variable (rank : C → Nat) (d : Nat)

def RankLe (r : Nat) (callers : List (Except ε V → C)) : Prop :=
  ∀ k ∈ callers, ∀ outcome, rank (k outcome) ≤ r

/-- On the native stack the ranks go down from the event loop on. -/
def Stacked : List (C × List (Except ε V → C)) → Prop
  | [] => True
  | x :: below =>
      (∃ r, rank x.1 ≤ r ∧ RankLe rank r x.2 ∧ r + below.length ≤ d) ∧ Stacked below

def Threads.Shallow (t : Threads S C O A V ε) : Prop :=
  Stacked rank d t.active ∧
    ∀ x ∈ t.waiting, ∃ r, (∀ a, rank (x.2.1 a) ≤ r) ∧ RankLe rank r x.2.2 ∧ r ≤ d

end Depth

namespace Threads

variable {rank : C → Nat} {d : Nat}

omit [Inhabited V] in
theorem Shallow.finish (h : t.Shallow rank d) {r : Nat} {callers : List (Except ε V → C)}
    (hcallers : RankLe rank r callers) (hr : r + t.active.length ≤ d) (outcome : Except ε V) :
    (t.finish outcome callers).1.Shallow rank d := by
  cases callers with
  | nil => exact h
  | cons k callers =>
      have hhead := hcallers k List.mem_cons_self outcome
      have hrest : RankLe rank r callers := fun j hj => hcallers j (List.mem_cons_of_mem _ hj)
      exact ⟨⟨⟨r, hhead, hrest, hr⟩, h.1⟩, h.2⟩

omit [Inhabited V] in
theorem Shallow.run (hranked : Ranked next rank) (h : t.Shallow rank d) {r : Nat} {c : C}
    {callers : List (Except ε V → C)} (hc : rank c ≤ r) (hcallers : RankLe rank r callers)
    (hr : r + t.active.length ≤ d) : (t.run callers (next g c).2).1.Shallow rank d := by
  cases hi : (next g c).2 with
  | coReturn v => exact h.finish hcallers hr (.ok v)
  | throw e => exact h.finish hcallers hr (.error e)
  | operation o k =>
      refine ⟨h.1, ?_⟩
      intro x hx
      rcases List.mem_append.mp hx with hx | hx
      · exact h.2 x hx
      · rw [List.mem_singleton.mp hx]
        exact ⟨r, fun a => (hranked.operation g c o k hi a).trans hc, hcallers, by omega⟩
  | await task k =>
      obtain ⟨htask, hk⟩ := hranked.await g c task k hi
      have hall : RankLe rank r (k :: callers) := by
        intro j hj outcome
        rcases List.mem_cons.mp hj with rfl | hj
        · exact (hk outcome).trans hc
        · exact hcallers j hj outcome
      exact ⟨⟨⟨r, htask.trans hc, hall, hr⟩, h.1⟩, h.2⟩
  | detach task rest =>
      obtain ⟨htask, hrest⟩ := hranked.detach g c task rest hi
      have hcallee : rank task + ((rest, callers) :: t.active).length ≤ d := by
        rw [List.length_cons]
        omega
      have hnone : RankLe rank (rank task) ([] : List (Except ε V → C)) := by simp [RankLe]
      exact ⟨⟨⟨rank task, Nat.le_refl _, hnone, hcallee⟩, ⟨r, hrest.trans hc, hcallers, hr⟩,
        h.1⟩, h.2⟩

omit [Inhabited V] in
theorem Shallow.step (hranked : Ranked next rank) (h : t.Shallow rank d) {a : Label C A}
    (hcall : ∀ task, a = .call task → rank task ≤ d) {t' : Threads S C O A V ε}
    {es : List (Event O V ε)} (hstep : t.step next a = some (t', es)) : t'.Shallow rank d := by
  obtain ⟨g, active, waiting⟩ := t
  cases a with
  | call task =>
      simp only [Threads.step] at hstep
      split at hstep
      · cases hstep
        exact ⟨⟨⟨d, hcall task rfl, by simp [RankLe], by simp⟩, trivial⟩, h.2⟩
      · cases hstep
  | run =>
      cases active with
      | nil => cases hstep
      | cons x rest =>
          obtain ⟨⟨⟨r, hc, hcallers, hr⟩, hbelow⟩, hwaiting⟩ := h
          have hrest : (⟨(next g x.1).1, rest, waiting⟩ : Threads S C O A V ε).Shallow rank d :=
            ⟨hbelow, hwaiting⟩
          have hrun : _ = t' := congrArg Prod.fst (Option.some.inj hstep)
          subst hrun
          exact hrest.run hranked hc hcallers hr
  | complete k a =>
      cases active with
      | cons x rest => cases hstep
      | nil =>
          cases hk : waiting[k]? with
          | none => simp [Threads.step, hk] at hstep
          | some x =>
              simp only [Threads.step, hk, Option.some.injEq, Prod.mk.injEq] at hstep
              obtain ⟨rfl, rfl⟩ := hstep
              obtain ⟨r, hrest, hcallers, hr⟩ := h.2 x (List.mem_of_getElem? hk)
              exact ⟨⟨⟨r, hrest a, hcallers, hr⟩, trivial⟩, fun y hy =>
                h.2 y (List.mem_of_mem_eraseIdx hy)⟩

end Threads

/-- The native stack does not grow with the calls that are awaited, nor with the time: it is as
deep as the calls that are detached. -/
theorem native_stack_bounded (next : S → C → S × Instr C O A V ε) (rank : C → Nat)
    (hranked : Ranked next rank) (g : S) (d : Nat)
    (tr : List (Step (Machine S C O A V ε) (Label C A) (Event O V ε))) (m : Machine S C O A V ε)
    (h : Trace (Machine.step next) (.start g) tr m)
    (hcalls : ∀ x ∈ tr, ∀ task, x.label = .call task → rank task ≤ d) :
    m.stack.length ≤ d + 1 := by
  obtain ⟨tr', t, htr', ⟨act, wait, hr⟩, hobserved⟩ := exists_threads h
  have hcalls' : ∀ x ∈ tr', ∀ task, x.label = .call task → rank task ≤ d := by
    intro x hx task htask
    have hmem : (x.label, x.events) ∈ observed tr := hobserved ▸ List.mem_map_of_mem hx
    obtain ⟨y, hy, heq⟩ := List.mem_map.mp hmem
    exact hcalls y hy task ((congrArg Prod.fst heq).trans htask)
  have hinit : (.start g : Threads S C O A V ε).Shallow rank d := ⟨trivial, by simp [Threads.start]⟩
  have hshallow : t.Shallow rank d :=
    (htr'.invariant (Threads.Shallow rank d) (fun _ a => ∀ task, a = .call task → rank task ≤ d)
      hinit (fun t a t' es ht ha hstep => ht.step hranked ha hstep) hcalls').1
  have hlength : m.stack.length = t.active.length := by simp [hr.stack, hr.active]
  rw [hlength]
  cases hactive : t.active with
  | nil => simp
  | cons x below =>
      have hstacked := hshallow.1
      rw [hactive] at hstacked
      obtain ⟨⟨r, -, -, hdepth⟩, -⟩ := hstacked
      rw [List.length_cons]
      omega

/-- A loop that accepts connections and calls a handler for each of them. -/
def accepting : Unit → Fin 4 → Unit × Instr (Fin 4) Unit Int Int Unit
  | g, 0 => (g, .operation () fun _ => 1)
  | g, 1 => (g, .detach 2 0)
  | g, 2 => (g, .operation () fun _ => 3)
  | g, 3 => (g, .coReturn 0)

theorem ranked_accepting : Ranked accepting fun c => if c < 2 then 1 else 0 := by
  refine ⟨?_, ?_, ?_⟩
  · intro g c o k h a
    match c with
    | 0 | 2 =>
        cases h
        exact Nat.le_refl _
    | 1 | 3 => cases h
  · intro g c task k h
    match c with
    | 0 | 1 | 2 | 3 => cases h
  · intro g c task rest h
    match c with
    | 1 =>
        cases h
        decide
    | 0 | 2 | 3 => cases h

theorem native_stack_bounded_accepting : ∃ tr m, Trace (Machine.step accepting) (.start ()) tr m ∧
    m.stack.length = 2 ∧ m.stack.length ≤ 1 + 1 := by
  obtain ⟨tr, m, htr, hlength, hcalls⟩ := exists_trace_of_exec (Machine.step accepting)
    (.start ()) [.call 0, .run, .complete 0 5, .run]
    (fun tr m => m.stack.length = 2 ∧ ∀ x ∈ tr, x.label = .call 0 ∨ x.label = .run ∨
      x.label = .complete 0 5) (by decide)
  refine ⟨tr, m, htr, hlength, native_stack_bounded accepting _ ranked_accepting () 1 tr m htr ?_⟩
  intro x hx task htask
  rcases hcalls x hx with hl | hl | hl
  · rw [hl] at htask
    cases htask
    decide
  · rw [hl] at htask
    cases htask
  · rw [hl] at htask
    cases htask

end Servd.TaskFrames
