import Mathlib.Data.List.Nodup
import Mathlib.Data.List.Perm.Basic
import Mathlib.Data.List.Range
import Servd.Lib.Transition

/-!
Posting coroutines to the event loop. A worker thread submits an operation that does
nothing and whose completion resumes the coroutine; if the ring has no free entry, the
operation waits in a queue that the event loop empties as far as it can before it waits for
a completion. The posts and the draining exclude each other, so a label is one of them or
one completion, and the answers of `io_uring_get_sqe` come with the label.
-/
namespace Servd.EngineCore

open Transition

/-- An operation that `post_coroutine` allocates. The number stands for its address: it tells two
posts of one handle apart. -/
structure UringOperation (H : Type) where
  number : Nat
  coroutine : H
  deriving DecidableEq

structure Ring (H : Type) where
  pendingPosts : List (UringOperation H) := []
  -- in the ring and not completed; completions come in any order
  submitted : List (UringOperation H) := []
  -- ghost: operations allocated so far
  posts : Nat := 0

inductive Label (H : Type)
  -- `sqe`: there is a free entry
  | post (h : H) (sqe : Bool)
  -- `sqe n`: there is a free entry when it is asked for after `n` submissions
  | drain (sqe : Nat → Bool)
  -- the `k`-th operation in the ring completes
  | complete (k : Nat)

inductive Event (H : Type)
  | posted (op : UringOperation H)
  | queued (op : UringOperation H)
  | drained (op : UringOperation H)
  -- `io_uring_get_sqe` has returned null to `drain_pending_posts`
  | noSqe
  | resumed (op : UringOperation H)

variable {H : Type}

/-- The loop of `drain_pending_posts` after `n` submissions: what it submits, and what it leaves in the
queue. -/
def drainLoop (sqe : Nat → Bool) : Nat → List (UringOperation H) →
    List (UringOperation H) × List (UringOperation H)
  | _, [] => ([], [])
  | n, op :: rest =>
      if sqe n then
        let tail := drainLoop sqe (n + 1) rest
        (op :: tail.1, tail.2)
      else ([], op :: rest)

namespace Ring

def postCoroutine (s : Ring H) (h : H) (sqe : Bool) : Ring H × List (Event H) :=
  let op : UringOperation H := ⟨s.posts, h⟩
  if sqe then
    ({ s with submitted := s.submitted ++ [op], posts := s.posts + 1 }, [.posted op])
  else
    ({ s with pendingPosts := s.pendingPosts ++ [op], posts := s.posts + 1 },
      [.posted op, .queued op])

def drainPendingPosts (s : Ring H) (sqe : Nat → Bool) : Ring H × List (Event H) :=
  let drained := drainLoop sqe 0 s.pendingPosts
  ({ s with pendingPosts := drained.2, submitted := s.submitted ++ drained.1 },
    drained.1.map .drained ++ if drained.2 = [] then [] else [.noSqe])

/-- The event loop takes a completion, resumes the coroutine and deletes the operation. -/
def completion (s : Ring H) (k : Nat) : Option (Ring H × List (Event H)) :=
  s.submitted[k]?.map fun op => ({ s with submitted := s.submitted.eraseIdx k }, [.resumed op])

def step (s : Ring H) : Label H → Option (Ring H × List (Event H))
  | .post h sqe => some (s.postCoroutine h sqe)
  | .drain sqe => some (s.drainPendingPosts sqe)
  | .complete k => s.completion k

end Ring

/-- The handle of a call of `post_coroutine`. -/
def Label.handle : Label H → Option H
  | .post h _ => some h
  | .drain _ | .complete _ => none

namespace Event

def postedOp : Event H → Option (UringOperation H)
  | .posted op => some op
  | .queued _ | .drained _ | .noSqe | .resumed _ => none

def queuedOp : Event H → Option (UringOperation H)
  | .queued op => some op
  | .posted _ | .drained _ | .noSqe | .resumed _ => none

def drainedOp : Event H → Option (UringOperation H)
  | .drained op => some op
  | .posted _ | .queued _ | .noSqe | .resumed _ => none

def resumedOp : Event H → Option (UringOperation H)
  | .resumed op => some op
  | .posted _ | .queued _ | .drained _ | .noSqe => none

end Event

section Runs

variable (tr : List (Step (Ring H) (Label H) (Event H)))

def postedOf : List (UringOperation H) := (eventsOf tr).filterMap Event.postedOp

def queuedOf : List (UringOperation H) := (eventsOf tr).filterMap Event.queuedOp

def drainedOf : List (UringOperation H) := (eventsOf tr).filterMap Event.drainedOp

def resumedOf : List (UringOperation H) := (eventsOf tr).filterMap Event.resumedOp

end Runs

theorem drainLoop_append (sqe : Nat → Bool) (n : Nat) (queue : List (UringOperation H)) :
    (drainLoop sqe n queue).1 ++ (drainLoop sqe n queue).2 = queue := by
  induction queue generalizing n with
  | nil => rfl
  | cons op rest ih =>
      rw [drainLoop]
      split
      · rw [List.cons_append, ih (n + 1)]
      · rfl

/-- If the loop leaves something in the queue, the entry it asked for last was not there. -/
theorem drainLoop_left (sqe : Nat → Bool) (n : Nat) (queue : List (UringOperation H))
    (h : (drainLoop sqe n queue).2 ≠ []) :
    sqe (n + (drainLoop sqe n queue).1.length) = false := by
  induction queue generalizing n with
  | nil => exact absurd rfl h
  | cons op rest ih =>
      rw [drainLoop] at h ⊢
      split at h
      · rename_i hsqe
        rw [if_pos hsqe, List.length_cons, Nat.add_comm _ 1, ← Nat.add_assoc]
        exact ih (n + 1) h
      · rename_i hsqe
        rw [if_neg hsqe]
        simpa using hsqe

section Snoc

variable (tr : List (Step (Ring H) (Label H) (Event H))) (x : Step (Ring H) (Label H) (Event H))

theorem postedOf_snoc : postedOf (tr ++ [x]) = postedOf tr ++ x.events.filterMap Event.postedOp := by
  rw [postedOf, eventsOf_snoc, List.filterMap_append, postedOf]

theorem queuedOf_snoc : queuedOf (tr ++ [x]) = queuedOf tr ++ x.events.filterMap Event.queuedOp := by
  rw [queuedOf, eventsOf_snoc, List.filterMap_append, queuedOf]

theorem drainedOf_snoc :
    drainedOf (tr ++ [x]) = drainedOf tr ++ x.events.filterMap Event.drainedOp := by
  rw [drainedOf, eventsOf_snoc, List.filterMap_append, drainedOf]

theorem resumedOf_snoc :
    resumedOf (tr ++ [x]) = resumedOf tr ++ x.events.filterMap Event.resumedOp := by
  rw [resumedOf, eventsOf_snoc, List.filterMap_append, resumedOf]

end Snoc

theorem filterMap_drainPendingPosts (s : Ring H) (sqe : Nat → Bool)
    (f : Event H → Option (UringOperation H)) (hf : f .noSqe = none) :
    (s.drainPendingPosts sqe).2.filterMap f =
      (drainLoop sqe 0 s.pendingPosts).1.filterMap fun op => f (.drained op) := by
  have hlast : (if (drainLoop sqe 0 s.pendingPosts).2 = [] then []
      else [Event.noSqe]).filterMap f = [] := by
    split
    · rfl
    · rw [List.filterMap_cons_none hf, List.filterMap_nil]
  rw [Ring.drainPendingPosts, List.filterMap_append, hlast, List.append_nil, List.filterMap_map]
  rfl

/-- What the events of a drain say. -/
theorem drainPendingPosts_events (s : Ring H) (sqe : Nat → Bool) :
    (s.drainPendingPosts sqe).2.filterMap Event.postedOp = [] ∧
      (s.drainPendingPosts sqe).2.filterMap Event.queuedOp = [] ∧
      (s.drainPendingPosts sqe).2.filterMap Event.drainedOp =
        (drainLoop sqe 0 s.pendingPosts).1 ∧
      (s.drainPendingPosts sqe).2.filterMap Event.resumedOp = [] := by
  refine ⟨?_, ?_, ?_, ?_⟩
  · rw [filterMap_drainPendingPosts s sqe _ rfl]
    exact List.filterMap_eq_nil_iff.mpr fun _ _ => rfl
  · rw [filterMap_drainPendingPosts s sqe _ rfl]
    exact List.filterMap_eq_nil_iff.mpr fun _ _ => rfl
  · rw [filterMap_drainPendingPosts s sqe _ rfl]
    exact List.filterMap_some
  · rw [filterMap_drainPendingPosts s sqe _ rfl]
    exact List.filterMap_eq_nil_iff.mpr fun _ _ => rfl

/-- What a run keeps: every operation is in one place, the numbers are those of the posts, and the
queue is what was queued and not drained, in this order. -/
structure Kept (tr : List (Step (Ring H) (Label H) (Event H))) (s : Ring H) : Prop where
  conserved : (s.pendingPosts ++ s.submitted ++ resumedOf tr).Perm (postedOf tr)
  numbers : (postedOf tr).map (·.number) = List.range s.posts
  ordered : queuedOf tr = drainedOf tr ++ s.pendingPosts

section Steps

variable {s s' : Ring H} {tr : List (Step (Ring H) (Label H) (Event H))}

/-- The account goes on by what a step does: what it posts and what it resumes change places, and
what it queues and drains goes through the queue. -/
theorem Kept.snoc (h : Kept tr s) {x : Step (Ring H) (Label H) (Event H)}
    {posted queued drained resumed : List (UringOperation H)}
    (hposted : x.events.filterMap Event.postedOp = posted)
    (hqueued : x.events.filterMap Event.queuedOp = queued)
    (hdrained : x.events.filterMap Event.drainedOp = drained)
    (hresumed : x.events.filterMap Event.resumedOp = resumed)
    (hconserved : (x.post.pendingPosts ++ x.post.submitted ++ resumed).Perm
      (s.pendingPosts ++ s.submitted ++ posted))
    (hnumbers : List.range s.posts ++ posted.map (·.number) = List.range x.post.posts)
    (hordered : s.pendingPosts ++ queued = drained ++ x.post.pendingPosts) :
    Kept (tr ++ [x]) x.post := by
  have behind : ∀ as bs cs : List (UringOperation H), (as ++ (bs ++ cs)).Perm (as ++ cs ++ bs) :=
    fun as bs cs => List.append_assoc as cs bs ▸ List.perm_append_comm.append_left as
  refine ⟨?_, ?_, ?_⟩
  · rw [postedOf_snoc, resumedOf_snoc, hposted, hresumed]
    have hmoved := (behind _ (resumedOf tr) resumed).trans (hconserved.append_right (resumedOf tr))
    have hback := (behind (s.pendingPosts ++ s.submitted) (resumedOf tr) posted).symm
    rw [← List.append_assoc] at hback
    exact hmoved.trans (hback.trans (h.conserved.append_right posted))
  · rw [postedOf_snoc, hposted, List.map_append, h.numbers, hnumbers]
  · rw [queuedOf_snoc, drainedOf_snoc, hqueued, hdrained, h.ordered, List.append_assoc, hordered,
      List.append_assoc]

/-- A new operation goes into the ring or to the end of the queue. -/
theorem Kept.posted (h : Kept tr s) (handle : H) (sqe : Bool) :
    Kept (tr ++ [⟨s, .post handle sqe, (s.postCoroutine handle sqe).2,
      (s.postCoroutine handle sqe).1⟩]) (s.postCoroutine handle sqe).1 := by
  let op : UringOperation H := ⟨s.posts, handle⟩
  have hnumbers : List.range s.posts ++ [s.posts] = List.range (s.posts + 1) :=
    List.range_succ.symm
  cases sqe with
  | true =>
      have hplaces : (s.pendingPosts ++ (s.submitted ++ [op]) ++ []).Perm
          (s.pendingPosts ++ s.submitted ++ [op]) := by
        rw [List.append_nil, List.append_assoc]
      exact h.snoc rfl rfl rfl rfl hplaces hnumbers (List.append_nil _)
  | false =>
      have hplaces : (s.pendingPosts ++ [op] ++ s.submitted ++ []).Perm
          (s.pendingPosts ++ s.submitted ++ [op]) := by
        rw [List.append_nil, List.append_assoc, List.append_assoc]
        exact List.perm_append_comm.append_left _
      exact h.snoc rfl rfl rfl rfl hplaces hnumbers rfl

theorem Kept.drained (h : Kept tr s) (sqe : Nat → Bool) :
    Kept (tr ++ [⟨s, .drain sqe, (s.drainPendingPosts sqe).2, (s.drainPendingPosts sqe).1⟩])
      (s.drainPendingPosts sqe).1 := by
  obtain ⟨hposted, hqueued, hdrained, hresumed⟩ := drainPendingPosts_events s sqe
  have hqueue := drainLoop_append sqe 0 s.pendingPosts
  refine h.snoc hposted hqueued hdrained hresumed ?_ (List.append_nil _)
    ((List.append_nil _).trans hqueue.symm)
  -- what is drained comes from the head of the queue
  have hmoved := @List.perm_append_comm _ ((drainLoop sqe 0 s.pendingPosts).2 ++ s.submitted)
    (drainLoop sqe 0 s.pendingPosts).1
  rw [← List.append_assoc, hqueue, List.append_assoc] at hmoved
  exact hmoved.append_right []

theorem Kept.completed (h : Kept tr s) {k : Nat} {op : UringOperation H}
    (hop : s.submitted[k]? = some op) :
    Kept (tr ++ [⟨s, .complete k, [.resumed op],
      { s with submitted := s.submitted.eraseIdx k }⟩])
      { s with submitted := s.submitted.eraseIdx k } := by
  obtain ⟨hk, hget⟩ := List.getElem?_eq_some_iff.mp hop
  have herase := List.getElem_cons_eraseIdx_perm hk
  rw [hget] at herase
  have hplaces : (s.pendingPosts ++ s.submitted.eraseIdx k ++ [op]).Perm
      (s.pendingPosts ++ s.submitted ++ []) := by
    rw [List.append_nil, List.append_assoc]
    exact (List.perm_append_comm.trans herase).append_left _
  exact h.snoc rfl rfl rfl rfl hplaces (List.append_nil _) (List.append_nil _)

/-- One step keeps the account. -/
theorem Kept.step (h : Kept tr s) {a : Label H} {evs : List (Event H)}
    (hstep : s.step a = some (s', evs)) : Kept (tr ++ [⟨s, a, evs, s'⟩]) s' := by
  cases a with
  | post handle sqe =>
      obtain ⟨rfl, rfl⟩ := Prod.mk.inj (Option.some.inj hstep)
      exact h.posted handle sqe
  | drain sqe =>
      obtain ⟨rfl, rfl⟩ := Prod.mk.inj (Option.some.inj hstep)
      exact h.drained sqe
  | complete k =>
      obtain ⟨op, hop, heq⟩ := Option.map_eq_some_iff.mp hstep
      cases heq
      exact h.completed hop

/-- A whole run keeps the account. -/
theorem kept_of_trace (h : Trace Ring.step {} tr s) : Kept tr s := by
  induction h with
  | nil => exact ⟨.refl _, rfl, rfl⟩
  | snoc _ hstep ih => exact ih.step hstep

/-- After a drain the queue is empty, or the entry asked for last was not there. -/
theorem drained_or_noSqe (s : Ring H) (sqe : Nat → Bool) :
    (s.drainPendingPosts sqe).1.pendingPosts = [] ∨
      Event.noSqe ∈ (s.drainPendingPosts sqe).2 ∧
        sqe ((s.drainPendingPosts sqe).2.filterMap Event.drainedOp).length = false := by
  by_cases hleft : (drainLoop sqe 0 s.pendingPosts).2 = []
  · exact .inl hleft
  · refine .inr ⟨?_, ?_⟩
    · rw [Ring.drainPendingPosts, if_neg hleft]
      exact List.mem_append_right _ (List.mem_singleton_self _)
    · rw [(drainPendingPosts_events s sqe).2.2.1]
      simpa using drainLoop_left sqe 0 s.pendingPosts hleft

theorem nodup_postedOf (h : Kept tr s) : (postedOf tr).Nodup := by
  have hrange : ((postedOf tr).map (·.number)).Nodup := h.numbers ▸ List.nodup_range
  exact hrange.of_map _

/-- The operations are those of the calls. -/
theorem coroutines_postedOf (h : Trace Ring.step {} tr s) :
    (postedOf tr).map (·.coroutine) = (tr.map (·.label)).filterMap Label.handle := by
  induction h with
  | nil => rfl
  | @snoc tr s s' a evs _ hstep ih =>
      rw [postedOf_snoc, List.map_append, ih, List.map_append, List.filterMap_append]
      refine congrArg (_ ++ ·) ?_
      cases a with
      | post handle sqe =>
          obtain ⟨rfl, rfl⟩ := Prod.mk.inj (Option.some.inj hstep)
          cases sqe <;> rfl
      | drain sqe =>
          obtain ⟨rfl, rfl⟩ := Prod.mk.inj (Option.some.inj hstep)
          exact congrArg (List.map _) (drainPendingPosts_events s sqe).1
      | complete k =>
          obtain ⟨op, hop, heq⟩ := Option.map_eq_some_iff.mp hstep
          cases heq
          rfl

/-- No posted coroutine is lost, and none is resumed twice: every run has allocated one operation
for each call, which is in one of the queue, the ring and those resumed; what had to
wait is submitted in the order of its posts; and a drain leaves something in the queue only for want
of an entry. -/
theorem posts_conserved [DecidableEq H] (h : Trace Ring.step {} tr s) :
    (postedOf tr).map (·.coroutine) = (tr.map (·.label)).filterMap Label.handle ∧
      (postedOf tr).Nodup ∧
      (∀ op ∈ postedOf tr,
        s.pendingPosts.count op + s.submitted.count op + (resumedOf tr).count op = 1) ∧
      (∀ op ∉ postedOf tr, op ∉ s.pendingPosts ∧ op ∉ s.submitted ∧ op ∉ resumedOf tr) ∧
      (resumedOf tr).Nodup ∧
      queuedOf tr = drainedOf tr ++ s.pendingPosts ∧
      ∀ x ∈ tr, ∀ sqe, x.label = .drain sqe → x.post.pendingPosts = [] ∨
        Event.noSqe ∈ x.events ∧ sqe (x.events.filterMap Event.drainedOp).length = false := by
  have hkept := kept_of_trace h
  have hnodup := nodup_postedOf hkept
  have hplaces := hkept.conserved.nodup_iff.mpr hnodup
  refine ⟨coroutines_postedOf h, hnodup, ?_, ?_, (List.nodup_append.mp hplaces).2.1,
    hkept.ordered, ?_⟩
  · intro op hop
    rw [← List.count_append, ← List.count_append]
    exact List.count_eq_one_of_mem hplaces (hkept.conserved.mem_iff.mpr hop)
  · intro op hop
    have hnone := mt hkept.conserved.mem_iff.mp hop
    simpa only [List.mem_append, not_or, and_assoc] using hnone
  · rintro ⟨pre, label, evs, post⟩ hx sqe rfl
    have hstep : pre.step (.drain sqe) = some (post, evs) := h.step_eq _ hx
    obtain ⟨rfl, rfl⟩ := Prod.mk.inj (Option.some.inj hstep)
    exact drained_or_noSqe pre sqe

end Steps

/-- Two posts of one handle find no entry; the drain finds one, which completes. -/
theorem posts_conserved_queued : ∃ (tr : List (Step (Ring Nat) (Label Nat) (Event Nat)))
    (s : Ring Nat), Trace Ring.step {} tr s ∧
      (resumedOf tr = [⟨0, 7⟩] ∧ drainedOf tr = [⟨0, 7⟩] ∧ s.pendingPosts = [⟨1, 7⟩]) ∧
      (postedOf tr).map (·.coroutine) = (tr.map (·.label)).filterMap Label.handle ∧
      (resumedOf tr).Nodup ∧ queuedOf tr = drainedOf tr ++ s.pendingPosts := by
  obtain ⟨tr, s, htr, hends⟩ := exists_trace_of_exec (Ring.step (H := Nat)) {}
    [.post 7 false, .post 7 false, .drain (· == 0), .complete 0]
    (fun tr s => resumedOf tr = [⟨0, 7⟩] ∧ drainedOf tr = [⟨0, 7⟩] ∧
      s.pendingPosts = [⟨1, 7⟩]) (by decide)
  obtain ⟨hcalls, -, -, -, hnodup, hordered, -⟩ := posts_conserved htr
  exact ⟨tr, s, htr, hends, hcalls, hnodup, hordered⟩

/-- The operations in the ring complete one after the other. -/
theorem exec_completions (s : Ring H) :
    ∃ tr s', exec Ring.step s (List.replicate s.submitted.length (.complete 0)) = some (tr, s') ∧
      s'.pendingPosts = s.pendingPosts ∧ s'.submitted = [] := by
  obtain ⟨pendingPosts, submitted, posts⟩ := s
  induction submitted with
  | nil => exact ⟨[], _, rfl, rfl, rfl⟩
  | cons op rest ih =>
      obtain ⟨tr, s', hexec, hpending, hsubmitted⟩ := ih
      exact ⟨_, s', exec_cons rfl hexec, hpending, hsubmitted⟩

/-- No post is ever out of reach: one drain that finds its entries, and the completions, resume every
coroutine as often as it was posted. -/
theorem exists_all_resumed {s : Ring H} {tr : List (Step (Ring H) (Label H) (Event H))}
    (h : Trace Ring.step {} tr s) :
    ∃ n tr' s', exec Ring.step s (.drain (fun _ => true) :: List.replicate n (.complete 0)) =
        some (tr', s') ∧
      ((resumedOf (tr ++ tr')).map (·.coroutine)).Perm
        ((tr.map (·.label)).filterMap Label.handle) := by
  let drained : Ring H := (s.drainPendingPosts fun _ => true).1
  have hempty : drained.pendingPosts = [] := by
    by_contra hleft
    have hnoSqe := drainLoop_left (fun _ => true) 0 s.pendingPosts hleft
    cases hnoSqe
  obtain ⟨rest, s', hexec, hpending, hsubmitted⟩ := exec_completions drained
  have hrun : exec Ring.step s (.drain (fun _ => true) ::
      List.replicate drained.submitted.length (.complete 0)) = some (_, s') :=
    exec_cons rfl hexec
  refine ⟨_, _, s', hrun, ?_⟩
  have hall := h.append (trace_of_exec hrun)
  have hkept := (kept_of_trace hall).conserved
  rw [hpending, hempty, hsubmitted, List.nil_append, List.nil_append] at hkept
  -- none of the labels that were added is a post
  have hnone : (List.replicate drained.submitted.length (.complete 0)).filterMap
      (Label.handle (H := H)) = [] :=
    List.filterMap_eq_nil_iff.mpr fun a ha => by rw [List.eq_of_mem_replicate ha]; rfl
  have hhandles := coroutines_postedOf hall
  rw [List.map_append, labels_of_exec hrun, List.filterMap_append,
    List.filterMap_cons_none (by rfl), hnone, List.append_nil] at hhandles
  rw [← hhandles]
  exact hkept.map _

end Servd.EngineCore
