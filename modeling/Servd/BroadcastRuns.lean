import Servd.Broadcast
import Servd.BroadcastWrites

/-!
Broadcasts as whole runs, against the engine that interleaves them. The writes of one
broadcast, put together along a run of the engine, are those of `doBroadcast` or
`doBroadcastIf` over the snapshot it has taken, as long as the store throws nothing.
-/
namespace Servd

open Transition

namespace Engine

section Attempts

variable {k : Nat} {commandId : UInt16} {payload : Bytes} {cqeRes : UInt64 × Fd → Int}

theorem doBroadcast_of_ok {order : List (UInt64 × Fd)}
    (h : ∀ e ∈ order, ¬ WriteFails (cqeRes e)) :
    (doBroadcast k commandId payload cqeRes order).1 = order.map (castWrite k commandId payload) :=
  (doBroadcast_eq_map_iff k commandId payload order).mpr fun e he =>
    h e (List.dropLast_subset _ he)

/-- The first write that fails is the last one. -/
theorem doBroadcast_of_fails {served rest : List (UInt64 × Fd)} {entry : UInt64 × Fd}
    (hserved : ∀ e ∈ served, ¬ WriteFails (cqeRes e)) (hentry : WriteFails (cqeRes entry)) :
    (doBroadcast k commandId payload cqeRes (served ++ entry :: rest)).1 =
      (served ++ [entry]).map (castWrite k commandId payload) := by
  induction served with
  | nil =>
      rw [List.nil_append, doBroadcast, awaitResume_of_fails hentry]
      rfl
  | cons e served ih =>
      rw [List.cons_append, doBroadcast, awaitResume_of_not_fails (hserved e (by simp))]
      simp only [ih fun e he => hserved e (by simp [he]), List.cons_append, List.map_cons]

end Attempts

end Engine

namespace Cast

open Engine

/-- What does not change while the broadcast runs. -/
def message (b : Cast) : UInt16 × Bytes × Option (Session → Bool) :=
  (b.commandId, b.payload, b.predicate)

/-- The broadcast writes to the entry, if `record` is what the store holds. -/
def chooses (b : Cast) (record : UInt64 → Session) (e : UInt64 × Fd) : Bool :=
  b.predicate.all fun p => p (record e.1)

def writes (k : Nat) (b : Cast) (record : UInt64 → Session) (entries : List (UInt64 × Fd)) :
    List DirectSend :=
  (entries.filter (b.chooses record)).map (castWrite k b.commandId b.payload)

/-- `do_broadcast`, or `do_broadcast_if` when there is a predicate. -/
def wholeRun (k : Nat) (b : Cast) (cqeRes : UInt64 × Fd → Int) (record : UInt64 → Session)
    (order : List (UInt64 × Fd)) : List DirectSend × Except Exc Unit :=
  match b.predicate with
  | none => doBroadcast k b.commandId b.payload cqeRes order
  | some predicate => doBroadcastIf k b.commandId b.payload cqeRes record predicate order

section WholeRun

variable {k : Nat} {b : Cast} {record : UInt64 → Session} {order : List (UInt64 × Fd)}

theorem wholeRun_eq (cqeRes : UInt64 × Fd → Int) :
    b.wholeRun k cqeRes record order =
      doBroadcast k b.commandId b.payload cqeRes (order.filter (b.chooses record)) := by
  unfold wholeRun
  split
  · rename_i hp
    have hall : order.filter (b.chooses record) = order :=
      List.filter_eq_self.mpr fun e _ => by simp [chooses, hp]
    rw [hall]
  · rename_i predicate hp
    have hchooses : b.chooses record = fun e => predicate (record e.1) := by
      funext e
      simp [chooses, hp]
    rw [doBroadcastIf_eq, hchooses]

/-- If no write fails, all entries are served. -/
theorem exists_wholeRun_of_ok (k : Nat) (b : Cast) (record : UInt64 → Session)
    (order : List (UInt64 × Fd)) :
    ∃ cqeRes, (b.wholeRun k cqeRes record order).1 = b.writes k record order := by
  refine ⟨fun _ => 0, ?_⟩
  rw [wholeRun_eq]
  exact doBroadcast_of_ok fun _ _ h => absurd h.1 (by decide)

/-- If the write for an entry fails, the entries up to it are served. -/
theorem exists_wholeRun_of_fails (k : Nat) {served : List (UInt64 × Fd)} {entry : UInt64 × Fd}
    (hchosen : b.chooses record entry = true) (hentry : entry ∉ served)
    (rest : List (UInt64 × Fd)) :
    ∃ cqeRes, (b.wholeRun k cqeRes record (served ++ entry :: rest)).1 =
      b.writes k record (served ++ [entry]) := by
  refine ⟨fun e => if e = entry then -1 else 0, ?_⟩
  have hlast : ([entry].filter (b.chooses record)) = [entry] := by simp [hchosen]
  rw [wholeRun_eq, writes, List.filter_append, List.filter_append, hlast,
    List.filter_cons_of_pos hchosen]
  refine doBroadcast_of_fails ?_ ?_
  · intro e he h
    have hne : e ≠ entry := fun heq => hentry (heq ▸ (List.mem_filter.mp he).1)
    simp [WriteFails, hne] at h
  · simp [WriteFails, etime]

end WholeRun

end Cast

namespace Engine

/-- The writes of a broadcast over the snapshot so far, by where it is suspended. -/
def CastServed (k : Nat) (order : List (UInt64 × Fd)) (sends : List DirectSend) (b : Cast) :
    Prop :=
  ∃ record : UInt64 → Session,
    match b.stage with
    | .writing => ∃ served entry, order = served ++ entry :: b.rest ∧
        b.chooses record entry = true ∧ sends = b.writes k record (served ++ [entry])
    | .fetching => ∃ served, order = served ++ b.rest ∧ sends = b.writes k record served
    | .fetched session => ∃ served entry rest, b.rest = entry :: rest ∧
        record entry.1 = session ∧ order = served ++ b.rest ∧ sends = b.writes k record served
    | .done => ∃ cqeRes, sends = (b.wholeRun k cqeRes record order).1

section Served

variable {s s' : Engine} {k : Nat} {b : Cast} {order served : List (UInt64 × Fd)}
  {record : UInt64 → Session} {sends : List DirectSend} {evs : List Event}

theorem nextCast_message (s : Engine) (k : Nat) (b : Cast) :
    (s.nextCast k b).1.message = b.message := by
  obtain ⟨commandId, payload, predicate, rest, _⟩ := b
  cases rest with
  | nil => rfl
  | cons entry rest => cases predicate <;> rfl

theorem nextCast_stage (s : Engine) (k : Nat) (b : Cast) (stage : CastStage) :
    s.nextCast k { b with stage := stage } = s.nextCast k b := by
  obtain ⟨commandId, payload, predicate, rest, _⟩ := b
  cases rest with
  | nil => rfl
  | cons entry rest => cases predicate <;> rfl

/-- The loop goes on with the next entry. -/
theorem castServed_nextCast (horder : order = served ++ b.rest) (hst : b.stage = .writing) :
    CastServed k order (b.writes k record served ++ (castSend k b).toList) (s.nextCast k b).1 := by
  obtain ⟨commandId, payload, predicate, rest, stage⟩ := b
  cases hst
  cases rest with
  | nil =>
      rw [List.append_nil] at horder
      subst horder
      obtain ⟨cqeRes, hrun⟩ := Cast.exists_wholeRun_of_ok k
        ⟨commandId, payload, predicate, [], .done⟩ record order
      exact ⟨record, cqeRes, (List.append_nil _).trans hrun.symm⟩
  | cons entry rest =>
      cases predicate with
      | none =>
          refine ⟨record, served, entry, horder, rfl, ?_⟩
          rw [Cast.writes, Cast.writes, List.filter_append, List.map_append]
          rfl
      | some p => exact ⟨record, served, horder, List.append_nil _⟩

theorem writes_append_of_chooses {entry : UInt64 × Fd} (h : b.chooses record entry = true) :
    b.writes k record (served ++ [entry]) =
      b.writes k record served ++ [castWrite k b.commandId b.payload entry] := by
  simp [Cast.writes, List.filter_append, h]

/-- The records that were read for the entries served are not read again. -/
theorem writes_update {entry : UInt64 × Fd} {rest : List (UInt64 × Fd)}
    (hnodup : ((served ++ entry :: rest).map Prod.fst).Nodup) (session : Session) :
    b.writes k (Function.update record entry.1 session) served = b.writes k record served := by
  have hchooses : ∀ e ∈ served,
      b.chooses (Function.update record entry.1 session) e = b.chooses record e := by
    intro e he
    have hne : e.1 ≠ entry.1 := by
      rw [List.map_append, List.nodup_append] at hnodup
      exact hnodup.2.2 e.1 (List.mem_map_of_mem he) entry.1 (by simp)
    simp only [Cast.chooses, Function.update_of_ne hne]
  rw [Cast.writes, Cast.writes, List.filter_congr hchooses]

section Stages

variable (hnodup : (order.map Prod.fst).Nodup) (h : CastServed k order sends b)

include hnodup h

/-- The write that throws is the last one of the broadcast. -/
theorem CastServed.thrown (hst : b.stage = .writing) :
    CastServed k order sends { b with stage := .done } := by
  obtain ⟨record, h⟩ := h
  simp only [hst] at h
  obtain ⟨served, entry, rfl, hchosen, rfl⟩ := h
  have hentry : entry ∉ served := by
    intro hmem
    rw [List.map_append, List.nodup_append] at hnodup
    exact hnodup.2.2 entry.1 (List.mem_map_of_mem hmem) entry.1 (by simp) rfl
  obtain ⟨cqeRes, hrun⟩ := Cast.exists_wholeRun_of_fails k hchosen hentry b.rest
  exact ⟨record, cqeRes, hrun.symm⟩

theorem CastServed.fetched (hst : b.stage = .fetching) {entry : UInt64 × Fd}
    {rest : List (UInt64 × Fd)} (hr : b.rest = entry :: rest) (session : Session) :
    CastServed k order sends { b with stage := .fetched session } := by
  obtain ⟨record, h⟩ := h
  simp only [hst] at h
  obtain ⟨served, rfl, rfl⟩ := h
  rw [hr] at hnodup
  rw [← writes_update hnodup session]
  exact ⟨_, served, entry, rest, hr, Function.update_self _ _ _, rfl, rfl⟩

end Stages

theorem CastServed.chosen (h : CastServed k order sends b) {session : Session}
    (hst : b.stage = .fetched session) {entry : UInt64 × Fd} {rest : List (UInt64 × Fd)}
    (hr : b.rest = entry :: rest) (hall : b.predicate.all (· session) = true) :
    CastServed k order (sends ++ [castWrite k b.commandId b.payload entry])
      { b with rest := rest, stage := .writing } := by
  obtain ⟨record, h⟩ := h
  simp only [hst] at h
  obtain ⟨served, entry', rest', hr', hrecord, rfl, rfl⟩ := h
  rw [hr] at hr'
  cases hr'
  have hchooses : b.chooses record entry = true := by rw [Cast.chooses, hrecord, hall]
  refine ⟨record, served, entry, by rw [hr], hchooses, ?_⟩
  exact (writes_append_of_chooses hchooses).symm

theorem CastServed.skipped (h : CastServed k order sends b) {session : Session}
    (hst : b.stage = .fetched session) {entry : UInt64 × Fd} {rest : List (UInt64 × Fd)}
    (hr : b.rest = entry :: rest) (hall : ¬ b.predicate.all (· session) = true) :
    CastServed k order sends (s.nextCast k { b with rest := rest }).1 := by
  obtain ⟨record, h⟩ := h
  simp only [hst] at h
  obtain ⟨served, entry', rest', hr', hrecord, rfl, rfl⟩ := h
  rw [hr] at hr'
  cases hr'
  have hskip : b.writes k record (served ++ [entry]) = b.writes k record served := by
    simp [Cast.writes, List.filter_append, Cast.chooses, hrecord, hall]
  -- with a predicate the next entry is not written to at once
  have hnext : castSend k { b with rest := rest, stage := .writing } = none := by
    cases hp : b.predicate with
    | none => simp [hp] at hall
    | some p => cases rest <;> simp [castSend]
  have hserved := @castServed_nextCast s k { b with rest := rest, stage := .writing }
    (served ++ b.rest) (served ++ [entry]) record (by simp [hr]) rfl
  rw [hnext, Option.toList_none, List.append_nil, nextCast_stage s k { b with rest := rest }]
    at hserved
  exact hskip ▸ hserved

theorem CastServed.step (h : CastServed k order sends b)
    (hnodup : (order.map Prod.fst).Nodup) (hb : s.casts[k]? = some b) {r : Except Exc Unit}
    (hanswered : ∀ e, r = .error e → b.stage = .writing)
    (hs : s.castStep k b r = some (s', evs)) :
    ∃ b', s'.casts = s.casts.set k b' ∧ b'.message = b.message ∧
      CastServed k order (sends ++ (s.directSend (.resumeCast k r)).toList) b' := by
  have hsend : s.directSend (.resumeCast k (.ok ())) = castSend k b := by simp [directSend, hb]
  cases castStep_cases hs with
  | thrown e _ =>
      rw [directSend, Option.toList_none, List.append_nil]
      exact ⟨_, rfl, rfl, h.thrown hnodup (hanswered e rfl)⟩
  | written hst =>
      obtain ⟨record, h⟩ := h
      simp only [hst] at h
      obtain ⟨served, entry, horder, hchosen, rfl⟩ := h
      rw [hsend]
      exact ⟨_, rfl, nextCast_message s k b, castServed_nextCast (by simp [horder]) hst⟩
  | fetched entry rest hst hr =>
      have hnone : castSend k b = none := by simp [castSend, hst]
      rw [hsend, hnone, Option.toList_none, List.append_nil]
      exact ⟨_, rfl, rfl, h.fetched hnodup hst hr _⟩
  | chosen session entry rest hst hr hall =>
      have hsent : castSend k b = some (castWrite k b.commandId b.payload entry) := by
        simp [castSend, hst, hr, hall, castWrite]
      rw [hsend, hsent]
      exact ⟨_, rfl, rfl, h.chosen hst hr hall⟩
  | skipped session entry rest hst hr hall =>
      have hnone : castSend k b = none := by simp [castSend, hst, hr, hall]
      rw [hsend, hnone, Option.toList_none, List.append_nil]
      exact ⟨_, rfl, nextCast_message s k _, h.skipped hst hr hall⟩

end Served

/-- What the broadcast submits in a step. -/
def castSends (k : Nat) (s : Engine) (a : Label) : List DirectSend :=
  ((s.directSend a).filter fun d => d.origin = .cast k).toList

/-- What the broadcast submits in a run. -/
def castSendsOf (k : Nat) (tr : List (Step Engine Label Event)) : List DirectSend :=
  tr.flatMap fun x => castSends k x.pre x.label

/-- The exceptions that reach the broadcast come from its writes, not from the store. -/
def StoreAnswers (k : Nat) (s : Engine) (a : Label) : Prop :=
  ∀ e b, a = .resumeCast k (.error e) → s.casts[k]? = some b → b.stage = .writing

/-- The broadcast was started in the run and has served its snapshot as far as its stage says. -/
def CastRan (tr : List (Step Engine Label Event)) (k : Nat) (sends : List DirectSend) (b : Cast) :
    Prop :=
  ∃ x ∈ tr, ∃ order, x.label = .broadcast b.commandId b.payload b.predicate order ∧
    order.Perm x.pre.sessions.pairs ∧ CastServed k order sends b

section Run

variable {srv : Server} {discovery : DiscoveryConfig} {enabled : Bool} {s s' : Engine}
  {tr : List (Step Engine Label Event)} {a : Label} {evs : List Event} {k : Nat} {b : Cast}

theorem castSends_of_castSend {j : Nat} (h : s.directSend a = castSend j b) :
    castSends k s a = if j = k then (castSend j b).toList else [] := by
  unfold castSends
  rw [h]
  cases hd : castSend j b with
  | none => simp
  | some d =>
      have horigin : d.origin = .cast j := (castSend_eq_some hd).1
      simp only [Option.filter_some, horigin, Origin.cast.injEq, decide_eq_true_eq]
      split <;> rfl

theorem CastRan.mono {sends : List DirectSend} (h : CastRan tr k sends b)
    (x : Step Engine Label Event) : CastRan (tr ++ [x]) k sends b := by
  obtain ⟨y, hy, hrest⟩ := h
  exact ⟨y, List.mem_append_left _ hy, hrest⟩

/-- If the broadcast has started, it ran so far as its stage says; if not, it has sent nothing. -/
structure CastKept (tr : List (Step Engine Label Event)) (casts : List Cast) (k : Nat)
    (sends : List DirectSend) : Prop where
  ran : ∀ b, casts[k]? = some b → CastRan tr k sends b
  fresh : casts.length ≤ k → sends = []

section Kept

variable {sends : List DirectSend} (h : CastKept tr s.casts k sends)

include h

theorem CastKept.started {commandId : UInt16} {payload : Bytes}
    {predicate : Option (Session → Bool)} {order : List (UInt64 × Fd)}
    (hperm : order.Perm s.sessions.pairs) (evs : List Event) (s' : Engine) :
    CastKept (tr ++ [⟨s, .broadcast commandId payload predicate order, evs, s'⟩])
      (s.casts ++ [(s.nextCast s.casts.length ⟨commandId, payload, predicate, order, .writing⟩).1])
      k (sends ++ castSends k s (.broadcast commandId payload predicate order)) := by
  let b₀ : Cast := ⟨commandId, payload, predicate, order, .writing⟩
  have hsends : castSends k s (.broadcast commandId payload predicate order) =
      if s.casts.length = k then (castSend s.casts.length b₀).toList else [] :=
    castSends_of_castSend rfl
  rw [hsends]
  refine ⟨?_, ?_⟩
  · intro b hb
    cases getElem?_snoc_eq_some.mp hb with
    | inl hb =>
        rw [if_neg (Nat.ne_of_gt (List.getElem?_eq_some_iff.mp hb).1), List.append_nil]
        exact (h.ran b hb).mono _
    | inr hnew =>
        obtain ⟨rfl, rfl⟩ := hnew
        have hmessage := nextCast_message s s.casts.length b₀
        simp only [Cast.message, Prod.mk.injEq, b₀] at hmessage
        obtain ⟨hcommand, hpayload, hpredicate⟩ := hmessage
        have hserved := @castServed_nextCast s s.casts.length b₀ order []
          (fun sid => { id := sid }) rfl rfl
        rw [if_pos rfl, h.fresh (Nat.le_refl _)]
        refine ⟨_, List.mem_append_right _ (List.mem_singleton_self _), order, ?_, hperm, hserved⟩
        rw [hcommand, hpayload, hpredicate]
  · intro hk
    rw [List.length_append, List.length_singleton] at hk
    rw [if_neg (by omega), h.fresh (by omega)]
    rfl

theorem CastKept.resumed {j : Nat} {r : Except Exc Unit} (hb : s.casts[j]? = some b)
    (hanswers : StoreAnswers k s (.resumeCast j r)) (hs : s.castStep j b r = some (s', evs)) :
    CastKept (tr ++ [⟨s, .resumeCast j r, evs, s'⟩]) s'.casts k
      (sends ++ castSends k s (.resumeCast j r)) := by
  have hsends : castSends k s (.resumeCast j r) =
      if j = k then (s.directSend (.resumeCast j r)).toList else [] := by
    cases r with
    | error e => simp [castSends, directSend]
    | ok u =>
        have hsend : s.directSend (.resumeCast j (.ok u)) = castSend j b := by
          simp [directSend, hb]
        rw [castSends_of_castSend hsend, hsend]
  by_cases hj : j = k
  · subst hj
    obtain ⟨x, hx, order, hlabel, hperm, hserved⟩ := h.ran b hb
    obtain ⟨b', hcasts, hmessage, hserved'⟩ := hserved.step
      (((hperm.map Prod.fst).nodup_iff).mpr x.pre.sessions.nodup_pairs) hb
      (fun e he => hanswers e b (he ▸ rfl) hb) hs
    have hlength : j < s.casts.length := (List.getElem?_eq_some_iff.mp hb).1
    simp only [Cast.message, Prod.mk.injEq] at hmessage
    obtain ⟨hcommand, hpayload, hpredicate⟩ := hmessage
    rw [hsends, if_pos rfl]
    refine ⟨?_, ?_⟩
    · intro d hd
      rw [hcasts, List.getElem?_set_self hlength] at hd
      cases hd
      refine ⟨x, List.mem_append_left _ hx, order, ?_, hperm, hserved'⟩
      rw [hlabel, hcommand, hpayload, hpredicate]
    · intro hle
      rw [hcasts, List.length_set] at hle
      omega
  · obtain ⟨b', hcasts, -⟩ := castStep_spec hs
    rw [hsends, if_neg hj, List.append_nil]
    refine ⟨?_, ?_⟩
    · intro d hd
      rw [hcasts, List.getElem?_set_ne hj] at hd
      exact (h.ran d hd).mono _
    · rw [hcasts, List.length_set]
      exact h.fresh

theorem CastKept.step (hanswers : StoreAnswers k s a) (hs : s.step srv a = some (s', evs)) :
    CastKept (tr ++ [⟨s, a, evs, s'⟩]) s'.casts k (sends ++ castSends k s a) := by
  have hquiet : CastKept (tr ++ [⟨s, a, evs, s'⟩]) s.casts k (sends ++ []) := by
    rw [List.append_nil]
    exact ⟨fun b hb => (h.ran b hb).mono _, h.fresh⟩
  cases step_form hs with
  | accepted _ _ _ _ | rejected _ _ _ _ => exact hquiet
  | conn hc hstep => cases hstep <;> exact hquiet
  | udp hp hstep => cases hstep <;> exact hquiet
  | sentTo sid commandId payload =>
      have hsends : castSends k s (.sendTo sid commandId payload) = [] := by
        cases hl : s.sessions.lookup sid <;> simp [castSends, directSend, hl]
      rw [hsends]
      exact hquiet
  | settings t _ ha =>
      rcases ha with ⟨call, rfl⟩ | ⟨client, req, rfl⟩ | rfl <;> exact hquiet
  | castStarted commandId payload predicate order hperm => exact h.started hperm _ _
  | castResumed hb hstep => exact h.resumed hb hanswers hstep

end Kept

theorem castKept_run (h : Trace (step srv) (init srv discovery enabled) tr s)
    (hanswers : ∀ x ∈ tr, StoreAnswers k x.pre x.label) : CastKept tr s.casts k (castSendsOf k tr) := by
  induction h with
  | nil => exact ⟨by simp [init], fun _ => rfl⟩
  | snoc htr hs ih =>
      simp only [castSendsOf, List.flatMap_append, List.flatMap_singleton]
      exact (ih fun x hx => hanswers x (List.mem_append_left _ hx)).step
        (hanswers _ (List.mem_append_right _ (List.mem_singleton_self _))) hs

/-- However its steps were interleaved with those of the others, a broadcast that has come to its
end has submitted what it does as a whole run over the snapshot of the registry it started with. -/
theorem castSendsOf_done (h : Trace (step srv) (init srv discovery enabled) tr s)
    (hanswers : ∀ x ∈ tr, StoreAnswers k x.pre x.label) (hb : s.casts[k]? = some b)
    (hdone : b.stage = .done) :
    ∃ x ∈ tr, ∃ order cqeRes record,
      x.label = .broadcast b.commandId b.payload b.predicate order ∧
      order.Perm x.pre.sessions.pairs ∧
      castSendsOf k tr = (b.wholeRun k cqeRes record order).1 := by
  obtain ⟨x, hx, order, hlabel, hperm, record, hserved⟩ := (castKept_run h hanswers).ran b hb
  simp only [hdone] at hserved
  obtain ⟨cqeRes, hrun⟩ := hserved
  exact ⟨x, hx, order, cqeRes, record, hlabel, hperm, hrun⟩

end Run

end Engine

end Servd
