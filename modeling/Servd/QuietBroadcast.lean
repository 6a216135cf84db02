import Servd.BroadcastRuns
import Servd.Refinement
import Servd.StreamInput

/-!
Broadcasts with no other step in between. A broadcast whose writes all succeed, and whose
steps follow each other directly, comes to its end and has written to every entry of its
snapshot whose record satisfies the predicate, or to every entry if there is none. As every
session in the registry has a record, the lookups of `do_broadcast_if` create none. What it
has written is read off the events of its steps.
-/
namespace Servd.Engine

open Transition

/-- The broadcast runs to its end: no other step comes in between, and no write fails. -/
def RunsAlone (srv : Server) (s : Engine) (commandId : UInt16) (payload : Bytes)
    (predicate : Option (Session → Bool)) (order : List (UInt64 × Fd))
    (tr : List (Step Engine Label Event)) (t : Engine) : Prop :=
  ∃ n, exec (step srv) s (.broadcast commandId payload predicate order ::
      List.replicate n (.resumeCast s.casts.length (.ok ()))) = some (tr, t) ∧
    ∃ b, t.casts[s.casts.length]? = some b ∧ b.stage = .done

/-- The stored record of the session satisfies the predicate. -/
def Selects (s : Engine) (predicate : Option (Session → Bool)) (sid : UInt64) : Bool :=
  predicate.all fun p => (s.store.lookup sid).any p

/-- What goes straight to a descriptor in the steps of a run. -/
def sendsOf (tr : List (Step Engine Label Event)) : List DirectSend :=
  tr.flatMap fun x => (x.pre.directSend x.label).toList

/-- Resumed again and again, the broadcast comes to its end with these writes, and leaves the store
as it is. -/
def EndsWith (srv : Server) (k : Nat) (u : Engine) (sends : List DirectSend) : Prop :=
  ∃ n tr t b, exec (step srv) u (List.replicate n (.resumeCast k (.ok ()))) = some (tr, t) ∧
    t.casts[k]? = some b ∧ b.stage = .done ∧ t.store = u.store ∧ sendsOf tr = sends

section Alone

variable {srv : Server} {u u' : Engine} {k : Nat} {b : Cast} {sends : List DirectSend}
  {commandId : UInt16} {payload : Bytes} {predicate : Option (Session → Bool)}
  {order rest : List (UInt64 × Fd)} {entry : UInt64 × Fd} {evs : List Event}

theorem directSend_resume (hb : u.casts[k]? = some b) :
    u.directSend (.resumeCast k (.ok ())) = castSend k b := by
  rw [directSend, hb, Option.bind_some]

theorem EndsWith.resumed (hb : u.casts[k]? = some b)
    (hstep : u.castStep k b (.ok ()) = some (u', evs)) (hstore : u'.store = u.store)
    (h : EndsWith srv k u' sends) : EndsWith srv k u ((castSend k b).toList ++ sends) := by
  obtain ⟨n, tr, t, d, hexec, hd, hdone, hstore', rfl⟩ := h
  have hresume : step srv u (.resumeCast k (.ok ())) = some (u', evs) := by
    rw [step, hb, Option.bind_some, hstep]
  refine ⟨n + 1, _, t, d, exec_cons hresume hexec, hd, hdone, hstore'.trans hstore, ?_⟩
  rw [sendsOf, List.flatMap_cons, directSend_resume hb]
  rfl

theorem getElem?_set_cast (hb : u.casts[k]? = some b) (d : Cast) :
    (u.casts.set k d)[k]? = some d :=
  List.getElem?_set_self (List.getElem?_eq_some_iff.mp hb).1

/-- The writes to the entries whose records satisfy the predicate. -/
def selectedWrites (u : Engine) (k : Nat) (b : Cast) : List DirectSend :=
  (b.rest.filter fun e => u.Selects b.predicate e.1).map (castWrite k b.commandId b.payload)

theorem selectedWrites_cons (u : Engine) (k : Nat) (stage stage' : CastStage) :
    u.selectedWrites k ⟨commandId, payload, predicate, entry :: rest, stage⟩ =
      (if u.Selects predicate entry.1 then [castWrite k commandId payload entry] else []) ++
        u.selectedWrites k ⟨commandId, payload, predicate, rest, stage'⟩ := by
  simp only [selectedWrites, List.filter_cons]
  split <;> rfl

/-- From the head of the loop over these entries, the broadcast comes to its end. The write to the
first entry is submitted in the step that comes to the head of the loop, if there is no
predicate. -/
def LoopEnds (srv : Server) (k : Nat) (b : Cast) : Prop :=
  ∀ u : Engine, u.casts[k]? = some (u.nextCast k b).1 →
    (∀ e ∈ b.rest, (u.store.lookup e.1).isSome) →
    ∃ sends, EndsWith srv k u sends ∧ (castSend k b).toList ++ sends = u.selectedWrites k b

theorem LoopEnds.written (h : LoopEnds srv k b) (hst : b.stage = .writing)
    (hb : u.casts[k]? = some b) (hrecorded : ∀ e ∈ b.rest, (u.store.lookup e.1).isSome) :
    EndsWith srv k u (u.selectedWrites k b) := by
  have hstep : u.castStep k b (.ok ()) =
      some ({ u with casts := u.casts.set k (u.nextCast k b).1 }, (u.nextCast k b).2) := by
    simp only [castStep, hst]
  obtain ⟨sends, hends, hsends⟩ := h { u with casts := u.casts.set k (u.nextCast k b).1 }
    (getElem?_set_cast hb _) hrecorded
  have hwhole := hends.resumed hb hstep rfl
  rw [hsends] at hwhole
  exact hwhole

/-- The record is fetched, and the entry is written to or passed over. -/
theorem LoopEnds.fetching {p : Session → Bool}
    (h : LoopEnds srv k ⟨commandId, payload, some p, rest, .writing⟩)
    (hb : u.casts[k]? = some ⟨commandId, payload, some p, entry :: rest, .fetching⟩)
    (hrecorded : ∀ e ∈ entry :: rest, (u.store.lookup e.1).isSome) :
    EndsWith srv k u
      (u.selectedWrites k ⟨commandId, payload, some p, entry :: rest, .fetching⟩) := by
  obtain ⟨record, hrecord⟩ := Option.isSome_iff_exists.mp (hrecorded entry List.mem_cons_self)
  have hrest : ∀ e ∈ rest, (u.store.lookup e.1).isSome := fun e he =>
    hrecorded e (List.mem_cons_of_mem entry he)
  have hfound : u.store.getOrCreate entry.1 = (record, u.store) := by
    simp only [InMemorySessionStore.getOrCreate, hrecord]
  let fetched : Cast := ⟨commandId, payload, some p, entry :: rest, .fetched record⟩
  let u₁ : Engine := { u with casts := u.casts.set k fetched }
  have hfetch : u.castStep k ⟨commandId, payload, some p, entry :: rest, .fetching⟩ (.ok ()) =
      some (u₁, []) := by
    simp only [castStep, hfound, u₁, fetched]
  have hb₁ : u₁.casts[k]? = some fetched := getElem?_set_cast hb _
  have hselects : u.Selects (some p) entry.1 = p record := by
    simp [Selects, hrecord]
  suffices hends : EndsWith srv k u₁ (u.selectedWrites k fetched) from hends.resumed hb hfetch rfl
  let next : Cast := ⟨commandId, payload, some p, rest, .writing⟩
  cases hp : p record with
  | true =>
      have hstep : u₁.castStep k fetched (.ok ()) =
          some ({ u₁ with casts := u₁.casts.set k next },
            u₁.submit (.cast k) entry.1 entry.2 commandId payload) := by
        simp [castStep, fetched, hp, next]
      have hsend : (castSend k fetched).toList = [castWrite k commandId payload entry] := by
        simp [castSend, fetched, hp, castWrite]
      have hwrites : u.selectedWrites k fetched =
          [castWrite k commandId payload entry] ++ u.selectedWrites k next := by
        rw [selectedWrites_cons u k _ .writing, if_pos (hselects.trans hp)]
      have hends := (h.written rfl (u := { u₁ with casts := u₁.casts.set k next })
        (getElem?_set_cast hb₁ _) hrest).resumed hb₁ hstep rfl
      rw [hwrites, ← hsend]
      exact hends
  | false =>
      have hnext : u₁.nextCast k { fetched with rest := rest } = u₁.nextCast k next :=
        nextCast_stage u₁ k next (.fetched record)
      have hstep : u₁.castStep k fetched (.ok ()) =
          some ({ u₁ with casts := u₁.casts.set k (u₁.nextCast k next).1 },
            (u₁.nextCast k next).2) := by
        rw [← hnext]
        simp [castStep, fetched, hp]
      have hsend : castSend k fetched = none := by
        simp [castSend, fetched, hp]
      have hnone : castSend k next = none := by
        cases rest <;> rfl
      have hwrites : u.selectedWrites k fetched = u.selectedWrites k next := by
        rw [selectedWrites_cons u k _ .writing, hselects, hp]
        rfl
      obtain ⟨sends, hends, hsends⟩ := h
        { u₁ with casts := u₁.casts.set k (u₁.nextCast k next).1 } (getElem?_set_cast hb₁ _) hrest
      rw [hnone] at hsends
      have hwhole := hends.resumed hb₁ hstep rfl
      rw [hsend, hsends] at hwhole
      rw [hwrites]
      exact hwhole

theorem loopEnds (rest : List (UInt64 × Fd)) :
    LoopEnds srv k ⟨commandId, payload, predicate, rest, .writing⟩ := by
  induction rest with
  | nil =>
      intro u hb _
      exact ⟨[], ⟨0, [], u, _, rfl, hb, rfl, rfl, rfl⟩, rfl⟩
  | cons entry rest ih =>
      intro u hb hrecorded
      cases predicate with
      | none =>
          exact ⟨_, ih.written rfl hb fun e he => hrecorded e (List.mem_cons_of_mem entry he), rfl⟩
      | some p => exact ⟨_, ih.fetching hb hrecorded, rfl⟩

theorem nextCast_fst (s s' : Engine) (k : Nat) (b : Cast) :
    (s.nextCast k b).1 = (s'.nextCast k b).1 := by
  obtain ⟨commandId, payload, predicate, rest, stage⟩ := b
  cases rest with
  | nil => rfl
  | cons entry rest => cases predicate <;> rfl

theorem step_of_done (hb : u.casts[k]? = some b) (hdone : b.stage = .done) :
    step srv u (.resumeCast k (.ok ())) = none := by
  rw [step, hb, Option.bind_some, castStep]
  simp only [hdone]

end Alone

/-- A broadcast that is left alone comes to its end, and to one end only. -/
theorem runsAlone_of_recorded (srv : Server) (commandId : UInt16) (payload : Bytes)
    (predicate : Option (Session → Bool)) {s : Engine} (hrecorded : s.Recorded)
    {order : List (UInt64 × Fd)} (horder : order.Perm s.sessions.pairs) :
    ∃ tr t, RunsAlone srv s commandId payload predicate order tr t ∧ t.store = s.store ∧
      sendsOf tr = s.selectedWrites s.casts.length
        ⟨commandId, payload, predicate, order, .writing⟩ ∧
      ∀ tr' t', RunsAlone srv s commandId payload predicate order tr' t' → tr' = tr ∧ t' = t := by
  let b : Cast := ⟨commandId, payload, predicate, order, .writing⟩
  let s₁ : Engine := { s with casts := s.casts ++ [(s.nextCast s.casts.length b).1] }
  have hstart : step srv s (.broadcast commandId payload predicate order) =
      some (s₁, (s.nextCast s.casts.length b).2) := by
    rw [step, if_pos horder]
  have hb : s₁.casts[s.casts.length]? = some (s₁.nextCast s.casts.length b).1 := by
    rw [nextCast_fst s₁ s]
    exact List.getElem?_concat_length
  have hrecords : ∀ e ∈ b.rest, (s₁.store.lookup e.1).isSome := by
    intro e he
    exact hrecorded.sessions e.1 e.2 (UnorderedMap.mem_pairs.mp (horder.mem_iff.mp he))
  obtain ⟨sends, ⟨n, tr, t, d, hexec, hd, hdone, hstore, rfl⟩, hsends⟩ :=
    @loopEnds srv _ _ _ _ order s₁ hb hrecords
  refine ⟨_, t, ⟨n, exec_cons hstart hexec, d, hd, hdone⟩, hstore, ?_, ?_⟩
  · rw [sendsOf, List.flatMap_cons]
    exact hsends
  · rintro tr' t' ⟨n', hexec', d', hd', hdone'⟩
    obtain ⟨m, evs, rest, hstep, hrest, rfl⟩ := exec_cons_eq_some hexec'
    rw [hstart] at hstep
    cases hstep
    obtain ⟨rfl, rfl⟩ := exec_replicate_unique hexec (step_of_done hd hdone) hrest
      (step_of_done hd' hdone')
    exact ⟨rfl, rfl⟩

/-- A frame that was put on a descriptor, and the session id in its header. -/
structure Write where
  sid : UInt64
  fd : Fd
  bytes : Bytes

/-- What arrives at the descriptor. -/
def Write.arrived (w : Write) : Fd × Bytes := (w.fd, w.bytes)

def writeOf : Event → Option Write
  | .wrote _ sid fd bytes => some ⟨sid, fd, bytes⟩
  | .sentDatagram _ _ | .request _ _ | .saved _ _ | .closed _ | .discoveryReply _
  | .announced _ => none

def writesOf (evs : List Event) : List Write := evs.filterMap writeOf

/-- Every write of the run is to an open descriptor. -/
def WritesSucceed (tr : List (Step Engine Label Event)) : Prop :=
  ∀ x ∈ tr, ∀ d ∈ x.pre.directSend x.label, x.pre.descriptorOpen d.fd

def DirectSend.write (d : DirectSend) : Write := ⟨d.sid, d.fd, d.bytes⟩

section Written

variable {srv : Server} {s t : Engine} {commandId : UInt16} {payload : Bytes}
  {predicate : Option (Session → Bool)} {order : List (UInt64 × Fd)}
  {tr : List (Step Engine Label Event)}

/-- A step of a broadcast does nothing but its write. -/
theorem events_of_castLabel {s' : Engine} {a : Label} {evs : List Event}
    (ha : (∃ k, a = .resumeCast k (.ok ())) ∨
      a = .broadcast commandId payload predicate order)
    (h : s.step srv a = some (s', evs)) :
    evs = ((s.directSend a).map (DirectSend.events s)).getD [] ∧ s'.conns = s.conns := by
  rcases ha with ⟨k, rfl⟩ | rfl
  · simp only [step, Option.bind_eq_some_iff] at h
    obtain ⟨b, hb, h⟩ := h
    obtain ⟨hconns, -⟩ := castStep_frame h
    refine ⟨?_, hconns⟩
    rw [directSend, hb]
    exact castStep_events h
  · simp only [step] at h
    split at h
    · cases h
      exact ⟨nextCast_events s _ _ rfl, rfl⟩
    · cases h

theorem RunsAlone.label (h : RunsAlone srv s commandId payload predicate order tr t)
    {x : Step Engine Label Event} (hx : x ∈ tr) :
    (∃ k, x.label = .resumeCast k (.ok ())) ∨
      x.label = .broadcast commandId payload predicate order := by
  obtain ⟨n, hexec, -⟩ := h
  have hmem : x.label ∈ tr.map (·.label) := List.mem_map_of_mem hx
  rw [labels_of_exec hexec, List.mem_cons] at hmem
  rcases hmem with hfirst | hrest
  · exact .inr hfirst
  · exact .inl ⟨_, List.eq_of_mem_replicate hrest⟩

/-- A broadcast opens and closes no descriptor. -/
theorem RunsAlone.conns_eq (h : RunsAlone srv s commandId payload predicate order tr t) :
    ∀ x ∈ tr, x.pre.conns = s.conns := by
  have hlabel : ∀ x ∈ tr, _ := fun x hx => h.label hx
  obtain ⟨n, hexec, -⟩ := h
  generalize (Label.broadcast commandId payload predicate order ::
    List.replicate n (.resumeCast s.casts.length (.ok ()))) = labels at hexec
  induction labels generalizing s tr with
  | nil =>
      cases hexec
      simp
  | cons a labels ih =>
      obtain ⟨m, evs, rest, hstep, hrest, rfl⟩ := exec_cons_eq_some hexec
      intro x hx
      cases List.mem_cons.mp hx with
      | inl hx => rw [hx]
      | inr hx =>
          rw [ih (fun y hy => hlabel y (List.mem_cons_of_mem _ hy)) hrest x hx]
          exact (events_of_castLabel (hlabel _ List.mem_cons_self) hstep).2

/-- The events of the run are the writes it has come to. -/
theorem RunsAlone.writesOf_eq (h : RunsAlone srv s commandId payload predicate order tr t)
    (hopen : WritesSucceed tr) : writesOf (eventsOf tr) = (sendsOf tr).map DirectSend.write := by
  have hsteps : ∀ x ∈ tr, writesOf x.events =
      (x.pre.directSend x.label).toList.map DirectSend.write := by
    intro x hx
    obtain ⟨n, hexec, -⟩ := id h
    have hstep := (trace_of_exec hexec).step_eq x hx
    obtain ⟨hevents, -⟩ := events_of_castLabel (h.label hx) hstep
    rw [hevents]
    cases hd : x.pre.directSend x.label with
    | none => rfl
    | some d =>
        have hwrites : d.events x.pre = [.wrote d.origin d.sid d.fd d.bytes] :=
          if_pos (hopen x hx d hd)
        rw [Option.map_some, Option.getD_some, hwrites]
        rfl
  rw [writesOf, eventsOf, sendsOf, List.filterMap_flatMap, List.map_flatMap]
  exact List.flatMap_congr hsteps

/-- All its writes succeed if the descriptors it writes to are open, which they stay. -/
theorem RunsAlone.writesSucceed_iff (h : RunsAlone srv s commandId payload predicate order tr t) :
    WritesSucceed tr ↔ ∀ d ∈ sendsOf tr, s.descriptorOpen d.fd := by
  have hsame : ∀ x ∈ tr, ∀ fd, x.pre.descriptorOpen fd ↔ s.descriptorOpen fd := by
    intro x hx fd
    rw [descriptorOpen, h.conns_eq x hx]
    rfl
  constructor
  · intro hopen d hd
    obtain ⟨x, hx, hd⟩ := List.mem_flatMap.mp hd
    exact (hsame x hx d.fd).mp (hopen x hx d (Option.mem_toList.mp hd))
  · intro hopen x hx d hd
    exact (hsame x hx d.fd).mpr (hopen d (List.mem_flatMap.mpr ⟨x, hx, Option.mem_toList.mpr hd⟩))

/-- What a broadcast that is left alone has done when it has come to its end. -/
theorem RunsAlone.done (h : RunsAlone srv s commandId payload predicate order tr t)
    (hrecorded : s.Recorded) (horder : order.Perm s.sessions.pairs) :
    t.store = s.store ∧
      (WritesSucceed tr ↔ ∀ e ∈ order, s.Selects predicate e.1 = true → s.descriptorOpen e.2) ∧
      (WritesSucceed tr → writesOf (eventsOf tr) =
        (order.filter fun e => s.Selects predicate e.1).map
          fun e => (castWrite s.casts.length commandId payload e).write) := by
  obtain ⟨tr', t', -, hstore, hsends, hunique⟩ :=
    runsAlone_of_recorded srv commandId payload predicate hrecorded horder
  obtain ⟨rfl, rfl⟩ := hunique tr t h
  refine ⟨hstore, ?_, fun hsucceed => ?_⟩
  · rw [h.writesSucceed_iff, hsends]
    simp only [selectedWrites, List.forall_mem_map, List.mem_filter, and_imp]
    rfl
  · rw [h.writesOf_eq hsucceed, hsends, selectedWrites, List.map_map]
    rfl

end Written

theorem filter_castWrite (k : Nat) (commandId : UInt16) (payload : Bytes) (f : UInt64 → Bool)
    (order : List (UInt64 × Fd)) :
    (order.map fun e => (castWrite k commandId payload e).write).filter (fun w => f w.sid) =
      (order.filter fun e => f e.1).map fun e => (castWrite k commandId payload e).write := by
  rw [List.filter_map]
  rfl

/-- The frame of a broadcast can be read, and is the one `send_to_session` would send. -/
theorem castWrite_readable (srv : Server) (k : Nat) (commandId : UInt16) {payload : Bytes}
    (hsize : payload.length < 2 ^ 32) {s : Engine} {entry : UInt64 × Fd}
    (hentry : s.sessions.lookup entry.1 = some entry.2) (hopen : s.descriptorOpen entry.2) :
    (∀ (rest : Bytes) (script : List Completion),
      FrameRecvs ((castWrite k commandId payload entry).write.bytes ++ rest) script →
        ∃ later, readFrame script =
          .returned ⟨⟨commandId, 0, size32 payload, entry.1⟩, payload⟩ later) ∧
      ∃ evs, s.step srv (.sendTo entry.1 commandId payload) = some (s, evs) ∧
        writesOf evs = [(castWrite k commandId payload entry).write] := by
  let f : ClientFrame := ⟨⟨commandId, 0, size32 payload, entry.1⟩, payload⟩
  have hsized : f.Sized := toNat_size32_of_lt hsize
  constructor
  · intro rest script hscript
    have hencoded : (castWrite k commandId payload entry).write.bytes = f.encoded := rfl
    rw [hencoded] at hscript
    obtain ⟨later, hread, -⟩ := frameRecvs_encoded hsized hscript
    exact ⟨later, hread⟩
  · refine ⟨s.submit .sendTo entry.1 entry.2 commandId payload, ?_, ?_⟩
    · rw [step, hentry]
    · rw [submit, if_pos hopen]
      rfl

/-- In every reachable state, a `do_broadcast_if` that is left alone writes what a `do_broadcast`
would write to the sessions whose stored records satisfy the predicate: one frame to each of them,
which is that of `send_to_session`. It leaves the store as it is, as every registered session has a
record. Each of the two comes to its end, and if the descriptors it writes to are open all its
writes succeed. -/
theorem broadcastIf_filters_broadcast (srv : Server) (discovery : DiscoveryConfig) (enabled : Bool)
    {before : List (Step Engine Label Event)} {s : Engine}
    (h : Trace (step srv) (init srv discovery enabled) before s) (commandId : UInt16)
    (payload : Bytes) (hsize : payload.length < 2 ^ 32) (p : Session → Bool)
    {order order' : List (UInt64 × Fd)} (horder : order.Perm s.sessions.pairs)
    (horder' : order'.Perm s.sessions.pairs) :
    (∀ sid fd, s.sessions.lookup sid = some fd → (s.store.lookup sid).isSome) ∧
      (∃ tr t, RunsAlone srv s commandId payload (some p) order tr t ∧
        ((∀ e ∈ order, (s.store.lookup e.1).any p = true → s.descriptorOpen e.2) →
          WritesSucceed tr)) ∧
      (∃ tr t, RunsAlone srv s commandId payload none order' tr t ∧
        ((∀ e ∈ order', s.descriptorOpen e.2) → WritesSucceed tr)) ∧
      ∀ tr t tr' t', RunsAlone srv s commandId payload (some p) order tr t → WritesSucceed tr →
        RunsAlone srv s commandId payload none order' tr' t' → WritesSucceed tr' →
        t.store = s.store ∧
        ((writesOf (eventsOf tr)).map Write.arrived).Perm
          (((writesOf (eventsOf tr')).filter fun w => (s.store.lookup w.sid).any p).map
            Write.arrived) ∧
        ((writesOf (eventsOf tr)).map fun w => (w.sid, w.fd)).Perm
          (s.sessions.pairs.filter fun e => (s.store.lookup e.1).any p) ∧
        ∀ w ∈ writesOf (eventsOf tr),
          (∀ (rest : Bytes) (script : List Completion), FrameRecvs (w.bytes ++ rest) script →
            ∃ later, readFrame script =
              .returned ⟨⟨commandId, 0, size32 payload, w.sid⟩, payload⟩ later) ∧
          ∃ evs, s.step srv (.sendTo w.sid commandId payload) = some (s, evs) ∧
            writesOf evs = [w] := by
  have hrecorded : s.Recorded := ((coherent_init srv discovery enabled).run h).recorded
  obtain ⟨tr, t, hruns, -⟩ :=
    runsAlone_of_recorded srv commandId payload (some p) hrecorded horder
  obtain ⟨tr', t', hruns', -⟩ :=
    runsAlone_of_recorded srv commandId payload none hrecorded horder'
  refine ⟨hrecorded.sessions, ⟨tr, t, hruns, (hruns.done hrecorded horder).2.1.mpr⟩,
    ⟨tr', t', hruns', fun hopen => ?_⟩, ?_⟩
  · exact (hruns'.done hrecorded horder').2.1.mpr fun e he _ => hopen e he
  · intro tr₁ t₁ tr₂ t₂ h₁ hsucceed₁ h₂ hsucceed₂
    obtain ⟨hstore, hopen, hwrites⟩ := h₁.done hrecorded horder
    have hwritten : writesOf (eventsOf tr₁) = (order.filter fun e =>
        (s.store.lookup e.1).any p).map
          fun e => (castWrite s.casts.length commandId payload e).write := hwrites hsucceed₁
    have hwritten' : writesOf (eventsOf tr₂) =
        order'.map fun e => (castWrite s.casts.length commandId payload e).write := by
      have hall : order'.filter (fun e => s.Selects none e.1) = order' :=
        List.filter_eq_self.mpr fun _ _ => rfl
      rw [(h₂.done hrecorded horder').2.2 hsucceed₂, hall]
    have hperm := (horder.trans horder'.symm).filter fun e => (s.store.lookup e.1).any p
    refine ⟨hstore, ?_, ?_, ?_⟩
    · rw [hwritten, hwritten', filter_castWrite _ _ _ fun sid => (s.store.lookup sid).any p]
      exact (hperm.map _).map _
    · have hentries : ∀ entries : List (UInt64 × Fd),
          (entries.map fun e => (castWrite s.casts.length commandId payload e).write).map
            (fun w => (w.sid, w.fd)) = entries := by
        intro entries
        rw [List.map_map]
        exact List.map_id entries
      rw [hwritten, hentries]
      exact horder.filter _
    · intro w hw
      rw [hwritten] at hw
      obtain ⟨entry, hentry, rfl⟩ := List.mem_map.mp hw
      obtain ⟨hmem, hchosen⟩ := List.mem_filter.mp hentry
      exact castWrite_readable srv _ commandId hsize
        (UnorderedMap.mem_pairs.mp (horder.mem_iff.mp hmem))
        (hopen.mp hsucceed₁ entry hmem hchosen)

/-- Two sessions are registered, and one of them satisfies the predicate. -/
theorem broadcastIf_filters_broadcast_seven :
    ∃ before s tr t, Trace (step Server.bare) (init Server.bare {} false) before s ∧
      RunsAlone Server.bare s 3 [1] (some fun r => r.id == 7) [(8, 6), (7, 5)] tr t ∧
      t.store = s.store ∧
      (writesOf (eventsOf tr)).map (fun w => (w.sid, w.fd)) = [(7, 5)] := by
  obtain ⟨before, s, hbefore, horder, hselected, hopen⟩ := exists_trace_of_exec
    (step Server.bare) (init Server.bare {} false)
    ([.accept .binary 5, .accept .binary 6] ++ Label.request (.conn 0) (.command 1 7) ++
      Label.request (.conn 1) (.command 1 8))
    (fun _ s => [(8, 6), (7, 5)].Perm s.sessions.pairs ∧
      s.sessions.pairs.filter (fun e => (s.store.lookup e.1).any fun r => r.id == 7) = [(7, 5)] ∧
      ∀ e ∈ ([(8, 6), (7, 5)] : List (UInt64 × Fd)), s.descriptorOpen e.2)
    (by decide +kernel)
  obtain ⟨-, ⟨tr, t, hruns, hsucceed⟩, ⟨tr', t', hruns', hsucceed'⟩, hboth⟩ :=
    broadcastIf_filters_broadcast Server.bare {} false hbefore 3 [1] (by decide)
      (fun r => r.id == 7) horder horder
  obtain ⟨hstore, -, hentries, -⟩ := hboth tr t tr' t' hruns (hsucceed fun e he _ => hopen e he)
    hruns' (hsucceed' hopen)
  rw [hselected] at hentries
  exact ⟨before, s, tr, t, hbefore, hruns, hstore, List.perm_singleton.mp hentries⟩

end Servd.Engine
