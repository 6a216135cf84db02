import Servd.Broadcast
import Servd.Workers

/-!
The engine refines the workers. `Engine.workers` forgets everything but the phases and
the records; every run of the engine is a run of the workers with the same turns, in
which the requests do the same. The other way round, whatever turns the workers of a run
can take, the engine can take too, once as many clients have connected.

What a broadcast fetches is always there already, since only sessions that have been
loaded are in the registry. So broadcasts do not show.
-/
namespace Servd

open Transition

namespace Engine

/-- Every session in the registry, or in a copy of it that a broadcast works through, has a
record. So a broadcast never inserts one. -/
structure Recorded (s : Engine) : Prop where
  sessions : ∀ sid fd, s.sessions.lookup sid = some fd → (s.store.lookup sid).isSome
  casts : ∀ b ∈ s.casts, ∀ e ∈ b.rest, (s.store.lookup e.1).isSome

/-- The store never loses a record. -/
theorem isSome_lookup_step {srv : Server} {s s' : Engine} {a : Label} {evs : List Event}
    (h : s.step srv a = some (s', evs)) {sid : UInt64} (hl : (s.store.lookup sid).isSome) :
    (s'.store.lookup sid).isSome := by
  have grows : StoreGrows s.store s'.store → (s'.store.lookup sid).isSome := by
    intro hstore
    rcases hstore sid with hsame | ⟨hnone, -⟩
    · rwa [hsame]
    · rw [hnone] at hl
      cases hl
  cases requestCase_step h with
  | load w f _ _ hstore => exact grows (hstore ▸ storeGrows_getOrCreate _ _)
  | progress w ans req req' es _ _ _ _ hstore _ => exact grows (hstore ▸ storeGrows_refl _)
  | save w req _ _ _ _ hstore =>
      rw [hstore]
      by_cases hsid : sid = req.state.session.id
      · subst hsid
        simp
      · rwa [InMemorySessionStore.lookup_save_ne _ _ hsid]
  | other _ hstore _ => exact grows hstore

theorem recorded_sessions_step {srv : Server} {s s' : Engine} {a : Label} {evs : List Event}
    (hr : s.Recorded) (h : s.step srv a = some (s', evs)) :
    ∀ sid fd, s'.sessions.lookup sid = some fd → (s'.store.lookup sid).isSome := by
  have kept : (∀ sid fd, s'.sessions.lookup sid = some fd → s.sessions.lookup sid = some fd) →
      ∀ sid fd, s'.sessions.lookup sid = some fd → (s'.store.lookup sid).isSome :=
    fun hsub sid fd hl => isSome_lookup_step h (hr.sessions sid fd (hsub sid fd hl))
  cases step_cases h with
  | accepted _ _ _ _ | rejected _ _ _ _ => exact kept fun _ _ hl => hl
  | aside _ hsessions _ _ => exact kept fun _ _ hl => hsessions ▸ hl
  | @conn i c act _ _ hc hstep =>
      cases hstep with
      | frame _ _ | progress _ _ _ _ _ _ | save _ _ _ | escape _ _ _ | notified _
      | notifyFailed _ _ => exact kept fun _ _ hl => hl
      | leave _ _ _ _ | notify _ _ _ _ _ | noPool _ _ _ _ _ =>
          exact kept fun _ _ hl => (lookup_of_leaveSession hl).1
      | load f hp =>
          intro sid fd hl
          by_cases hsid : sid = f.header.sessionId
          · subst hsid
            simp [s.store.lookup_getOrCreate_self]
          · refine isSome_lookup_step h (hr.sessions sid fd ?_)
            rw [lookup_selectSession, if_neg hsid] at hl
            split at hl
            · exact hl
            · split at hl
              · cases hl
              · exact hl

theorem recorded_casts_step {srv : Server} {s s' : Engine} {a : Label} {evs : List Event}
    (hr : s.Recorded) (h : s.step srv a = some (s', evs)) :
    ∀ b ∈ s'.casts, ∀ e ∈ b.rest, (s'.store.lookup e.1).isSome := by
  have kept : s'.casts = s.casts → ∀ b ∈ s'.casts, ∀ e ∈ b.rest, (s'.store.lookup e.1).isSome :=
    fun hcasts b hb e he => isSome_lookup_step h (hr.casts b (hcasts ▸ hb) e he)
  cases step_form h with
  | accepted _ _ _ _ | rejected _ _ _ _ | sentTo _ _ _ | settings _ _ _ => exact kept rfl
  | conn hc hstep => cases hstep <;> exact kept rfl
  | udp hp hstep => cases hstep <;> exact kept rfl
  | castStarted commandId payload predicate order hperm =>
      intro b hb e he
      rcases List.mem_append.mp hb with hb | hb
      · exact hr.casts b hb e he
      · rw [List.mem_singleton] at hb
        subst hb
        have hmem := (nextCast_spec s _ _).2.1.subset he
        exact hr.sessions e.1 e.2 (UnorderedMap.mem_pairs.mp (hperm.mem_iff.mp hmem))
  | @castResumed k b _ _ _ hb hstep =>
      obtain ⟨b', hcasts, -, -, hrest, -, -⟩ := castStep_spec hstep
      intro d hd e he
      rw [hcasts] at hd
      refine isSome_lookup_step h ?_
      cases List.mem_or_eq_of_mem_set hd with
      | inl hd => exact hr.casts d hd e he
      | inr hd =>
          subst hd
          exact hr.casts b (List.mem_of_getElem? hb) e (hrest.subset he)

theorem Recorded.step {srv : Server} {s s' : Engine} {a : Label} {evs : List Event}
    (hr : s.Recorded) (h : s.step srv a = some (s', evs)) : s'.Recorded :=
  ⟨recorded_sessions_step hr h, recorded_casts_step hr h⟩

theorem castStep_lookup {s s' : Engine} {k : Nat} {b : Cast} {r : Except Exc Unit}
    {evs : List Event} (hrest : ∀ e ∈ b.rest, (s.store.lookup e.1).isSome)
    (h : s.castStep k b r = some (s', evs)) (sid : UInt64) :
    s'.store.lookup sid = s.store.lookup sid := by
  cases castStep_cases h with
  | thrown _ _ | written _ | chosen _ _ _ _ _ _ | skipped _ _ _ _ _ _ => rfl
  | fetched entry rest _ hr =>
      obtain ⟨record, hrecord⟩ := Option.isSome_iff_exists.mp (hrest entry (by simp [hr]))
      by_cases hsid : sid = entry.1
      · subst hsid
        rw [hrecord]
        exact s.store.lookup_getOrCreate_of_some _ hrecord
      · exact s.store.lookup_getOrCreate_ne hsid

theorem getOrCreate_fst (store : InMemorySessionStore) (sid : UInt64) :
    (store.getOrCreate sid).1 = (store.lookup sid).getD { id := sid } := by
  cases hl : store.lookup sid with
  | some r => rw [InMemorySessionStore.getOrCreate_of_some hl]; rfl
  | none => rw [InMemorySessionStore.getOrCreate_of_none hl]; rfl

/-- What the workers and the records look like from outside the engine. -/
def workers (s : Engine) : Workers where
  records sid := s.store.lookup sid
  phase w := ((s.phaseOf w).map Phase.settled).getD .reading

theorem workers_phase {s : Engine} {w : Worker} {p : Phase} (h : s.phaseOf w = some p) :
    s.workers.phase w = p.settled := by
  simp [workers, h]

theorem workers_eq_put {s s' : Engine} {w : Worker} {sid : Option UInt64} {p : Phase}
    {record : Option Session} (hself : s'.phaseOf w = some p)
    (hothers : ∀ w', w' ≠ w → s'.phaseOf w' = s.phaseOf w')
    (hstore : s'.workers.records = (s.workers.put w sid p.settled record).records) :
    s'.workers = s.workers.put w sid p.settled record := by
  refine Workers.ext hstore (funext fun w' => ?_)
  by_cases hw : w' = w
  · subst hw
    rw [workers_phase hself, Workers.phase_put_self]
  · rw [Workers.phase_put_ne hw]
    simp [workers, hothers w' hw]

theorem workers_records_load (s : Engine) (w : Worker) (sid : UInt64) (p : Phase) :
    (fun k => (s.store.getOrCreate sid).2.lookup k) =
      (s.workers.put w (some sid) p (some ((s.store.lookup sid).getD { id := sid }))).records := by
  funext k
  by_cases hk : k = sid
  · subst hk
    rw [Workers.records_put_self, s.store.lookup_getOrCreate_self, getOrCreate_fst]
  · rw [Workers.records_put_ne (by simpa using Ne.symm hk),
      s.store.lookup_getOrCreate_ne hk]
    rfl

theorem workers_records_save (s : Engine) (w : Worker) (r : Session) (p : Phase) :
    (fun k => (s.store.save r).lookup k) = (s.workers.put w (some r.id) p (some r)).records := by
  funext k
  by_cases hk : k = r.id
  · subst hk
    rw [Workers.records_put_self, InMemorySessionStore.lookup_save_self]
  · rw [Workers.records_put_ne (by simpa using Ne.symm hk),
      InMemorySessionStore.lookup_save_ne _ _ hk]
    rfl

section Turns

variable {srv : Server} {s s' : Engine} {evs : List Event} {act : Act}

/-- A turn in which the records stay as they are. -/
theorem workers_turn {w : Worker} {p p' : Phase} {es : List RequestEvent}
    (hp : s.phaseOf w = some p) (hp' : s'.phaseOf w = some p')
    (hothers : ∀ w', w' ≠ w → s'.phaseOf w' = s.phaseOf w') (hstore : s'.store = s.store)
    (ht : ∀ record, Workers.Turn srv w p.settled record act p'.settled record es) :
    s.workers.step srv (w, act) = some (s'.workers, es) := by
  refine Workers.step_eq_some.mpr ⟨p'.settled, s.workers.recordFor (s.workers.sidOf w act), ?_, ?_⟩
  · rw [workers_phase hp]
    exact ht _
  · refine workers_eq_put hp' hothers ?_
    rw [Workers.records_put_recordFor]
    simp [workers, hstore]

theorem workers_load {w : Worker} {f : ClientFrame} (hp : s.phaseOf w = some (.loading f))
    (hp' : s'.phaseOf w = some (.processing (.start srv f w.transport
      (s.store.getOrCreate f.header.sessionId).1)))
    (hothers : ∀ w', w' ≠ w → s'.phaseOf w' = s.phaseOf w')
    (hstore : s'.store = (s.store.getOrCreate f.header.sessionId).2) :
    s.workers.step srv (w, .load) = some (s'.workers, []) := by
  have hsid : s.workers.sidOf w .load = some f.header.sessionId := by
    simp [Workers.sidOf, workers_phase hp, Phase.settled, Phase.frameOf, Phase.frame]
  rw [getOrCreate_fst] at hp'
  refine Workers.step_eq_some.mpr ⟨?phase, ?record, ?turn, ?state⟩
  case turn =>
    rw [workers_phase hp]
    exact .load f _
  case state =>
    rw [hsid]
    refine workers_eq_put hp' hothers ?_
    exact (hstore ▸ rfl : s'.workers.records = _).trans (workers_records_load s w _ _)

theorem workers_save {w : Worker} {req : Request} (hp : s.phaseOf w = some (.processing req))
    (hp' : s'.phaseOf w = some .reading) (ht : req.task = .ret ())
    (hsession : req.state.session.id = req.frame.header.sessionId)
    (hothers : ∀ w', w' ≠ w → s'.phaseOf w' = s.phaseOf w')
    (hstore : s'.store = s.store.save req.state.session) :
    s.workers.step srv (w, .save) = some (s'.workers, []) := by
  have hsid : s.workers.sidOf w .save = some req.state.session.id := by
    simp [Workers.sidOf, workers_phase hp, Phase.settled, Phase.frameOf, Phase.frame, hsession]
  refine Workers.step_eq_some.mpr ⟨?phase, ?record, ?turn, ?state⟩
  case turn =>
    rw [workers_phase hp]
    exact .save _ ht
  case state =>
    rw [hsid]
    refine workers_eq_put hp' hothers ?_
    exact (hstore ▸ rfl : s'.workers.records = _).trans (workers_records_save s w _ _)

theorem workers_connStep {i : Nat} {c : Conn} (hc : s.conns[i]? = some c)
    (hr : RequestsConsistent srv s) (hact : ∀ r, act ≠ .notified r)
    (h : ConnStep srv s i c act s' evs) :
    s.workers.step srv (.conn i, act) = some (s'.workers, requestEvents (.conn i) evs) := by
  have hi : i < s.conns.length := (List.getElem?_eq_some_iff.mp hc).1
  have before : ∀ {p : Phase}, c.phase = p → s.phaseOf (.conn i) = some p := by
    intro p hp
    simp [phaseOf, hc, hp]
  have after : ∀ {s' : Engine} {c' : Conn} {p : Phase}, s'.conns = s.conns.set i c' →
      c'.phase = p → s'.phaseOf (.conn i) = some p := by
    intro s' c' p hconns hp
    simp [phaseOf, hconns, hi, hp]
  have failed : ∀ {s' : Engine} {c' : Conn} {e : Exc}, canFail c.phase e = true →
      c'.phase.settled = .ended → s'.conns = s.conns.set i c' → s'.udpLoops = s.udpLoops →
      s'.store = s.store → s.workers.step srv (.conn i, .fail e) = some (s'.workers, []) := by
    intro s' c' e hf hended hconns hudp hstore
    refine workers_turn (before rfl) (after hconns rfl) (phaseOf_conn_ne hconns hudp) hstore ?_
    intro record
    rw [hended]
    exact .fail record (by simpa using hf)
  cases h with
  | frame f hp =>
      exact workers_turn (before hp) (after rfl rfl) (phaseOf_conn_ne rfl rfl) rfl (.frame f)
  | load f hp => exact workers_load (before hp) (after rfl rfl) (phaseOf_conn_ne rfl rfl) rfl
  | progress a req req' es hp ha =>
      rw [(turnEvents_stream i c es).own]
      exact workers_turn (before hp) (after rfl rfl) (phaseOf_conn_ne rfl rfl) rfl
        fun record => .progress record ha
  | save req hp ht =>
      have hreq : s.inFlight (.conn i) = some req := by simp [inFlight, before hp, Phase.request]
      exact workers_save (before hp) (after rfl rfl) ht (hr _ req hreq).session_id
        (phaseOf_conn_ne rfl rfl) rfl
  | leave e hf _ _ | noPool e hf _ _ _ | notify e hf _ _ _ => exact failed hf rfl rfl rfl rfl
  | escape e hf _ => exact failed hf rfl rfl rfl rfl
  | notified _ | notifyFailed _ _ => exact absurd rfl (hact _)

theorem workers_udpStep {j : Nat} {p : Phase} (hp : s.udpLoops[j]? = some p)
    (hr : RequestsConsistent srv s) (h : UdpStep srv s j p act s' evs) :
    s.workers.step srv (.udp j, act) = some (s'.workers, requestEvents (.udp j) evs) := by
  have hj : j < s.udpLoops.length := (List.getElem?_eq_some_iff.mp hp).1
  have after : ∀ {s' : Engine} {p' : Phase}, s'.udpLoops = s.udpLoops.set j p' →
      s'.phaseOf (.udp j) = some p' := by
    intro s' p' hudp
    simp [phaseOf, hudp, hj]
  cases h with
  | frame f hread =>
      subst hread
      exact workers_turn hp (after rfl) (phaseOf_udp_ne rfl rfl) rfl (.frame f)
  | load f hload =>
      subst hload
      exact workers_load hp (after rfl) (phaseOf_udp_ne rfl rfl) rfl
  | progress a req req' es hreq ha =>
      subst hreq
      rw [(turnEvents_datagram j es).own]
      exact workers_turn hp (after rfl) (phaseOf_udp_ne rfl rfl) rfl fun record => .progress record ha
  | save req hreq ht =>
      subst hreq
      have hflight : s.inFlight (.udp j) = some req := by simp [inFlight, phaseOf, hp, Phase.request]
      exact workers_save hp (after rfl) ht (hr _ req hflight).session_id (phaseOf_udp_ne rfl rfl) rfl
  | fail e hf =>
      refine workers_turn hp (after rfl) (phaseOf_udp_ne rfl rfl) rfl fun record => ?_
      have hnext : Phase.settled (if e.isStd then .reading else .ended) =
          Worker.afterFail (.udp j) e := by
        cases he : e.isStd <;> simp [Worker.afterFail, Phase.settled, he]
      rw [hnext]
      exact .fail record (by simpa using hf)

theorem workers_step {w : Worker} (hr : RequestsConsistent srv s) (hact : ∀ r, act ≠ .notified r)
    (h : s.step srv (.work w act) = some (s', evs)) :
    s.workers.step srv (w, act) = some (s'.workers, requestEvents w evs) := by
  cases step_form h with
  | conn hc hstep => exact workers_connStep hc hr hact hstep
  | udp hp hstep => exact workers_udpStep hp hr hstep
  | settings _ _ ha => simp at ha

theorem lookup_of_aside {a : Label} (hr : s.Recorded) (hnot : ∀ w act, a ≠ .work w act)
    (h : s.step srv a = some (s', evs)) (sid : UInt64) :
    s'.store.lookup sid = s.store.lookup sid := by
  cases step_form h with
  | accepted _ _ _ _ | rejected _ _ _ _ | sentTo _ _ _ | castStarted _ _ _ _ _
  | settings _ _ _ => rfl
  | castResumed hb hstep => exact castStep_lookup (hr.casts _ (List.mem_of_getElem? hb)) hstep sid
  | conn _ _ | udp _ _ => exact absurd rfl (hnot _ _)

/-- Every other step leaves the workers and the records alone. -/
theorem workers_of_aside {a : Label} (hr : s.Recorded) (hnot : ∀ w act, a ≠ .work w act)
    (h : s.step srv a = some (s', evs)) : s'.workers = s.workers := by
  refine Workers.ext (funext (lookup_of_aside hr hnot h)) (funext fun w => ?_)
  cases phaseCase_step h with
  | work _ _ _ _ => exact absurd rfl (hnot _ _)
  | other _ hphases _ _ _ =>
      rcases hphases w with hsame | ⟨hnone, hnew⟩
      · simp [workers, hsame]
      · simp [workers, hnone, hnew, Phase.settled]

theorem workers_of_notified {w : Worker} {r : Except Exc Unit}
    (h : s.step srv (.work w (.notified r)) = some (s', evs)) : s'.workers = s.workers := by
  cases step_form h with
  | settings _ _ ha => simp at ha
  | udp _ hstep => cases hstep
  | @conn i c _ _ _ hc hstep =>
      obtain ⟨c', hconns, hudp, hstore, hended⟩ : ∃ c' : Conn, s'.conns = s.conns.set i c' ∧
          s'.udpLoops = s.udpLoops ∧ s'.store = s.store ∧
          c'.phase.settled = c.phase.settled := by
        cases hstep with
        | notified hp | notifyFailed _ hp => exact ⟨_, rfl, rfl, rfl, by rw [hp]; rfl⟩
      have hi : i < s.conns.length := (List.getElem?_eq_some_iff.mp hc).1
      have hbefore : s.phaseOf (.conn i) = some c.phase := by simp [phaseOf, hc]
      have hafter : s'.phaseOf (.conn i) = some c'.phase := by simp [phaseOf, hconns, hi]
      refine Workers.ext (by simp [workers, hstore]) (funext fun w => ?_)
      by_cases hw : w = .conn i
      · subst hw
        rw [workers_phase hafter, workers_phase hbefore, hended]
      · simp [workers, phaseOf_conn_ne hconns hudp w hw]

/-- A worker that exists can take every turn that the abstraction lets it take. -/
theorem exists_step_of_workers {w : Worker} {p : Phase} {t : Workers} {es : List RequestEvent}
    (hp : s.phaseOf w = some p) (h : s.workers.step srv (w, act) = some (t, es)) :
    ∃ s' evs, s.step srv (.work w act) = some (s', evs) := by
  obtain ⟨p', record, ht, -⟩ := Workers.step_eq_some.mp h
  rw [workers_phase hp] at ht
  generalize hq : p.settled = q at ht
  cases w with
  | conn i =>
      obtain ⟨c, hc, rfl⟩ := Option.map_eq_some_iff.mp hp
      cases ht with
      | frame f _ =>
          have hphase := Phase.settled_eq hq (by simp)
          simp [step, hc, connStep, hphase]
      | load f _ =>
          have hphase := Phase.settled_eq hq (by simp)
          simp [step, hc, connStep, hphase]
      | progress _ ha =>
          have hphase := Phase.settled_eq hq (by simp)
          simp [step, hc, connStep, hphase, ha]
      | save _ hret =>
          have hphase := Phase.settled_eq hq (by simp)
          simp [step, hc, connStep, hphase, hret]
      | @fail _ e _ hf =>
          rw [← hq, Phase.canFail_settled] at hf
          simp only [step, hc, Option.bind_some, connStep, hf, if_true]
          split <;> exact ⟨_, _, rfl⟩
  | udp j =>
      have hj : s.udpLoops[j]? = some p := hp
      cases ht with
      | frame f _ =>
          have hphase := Phase.settled_eq hq (by simp)
          simp [step, hj, udpStep, hphase]
      | load f _ =>
          have hphase := Phase.settled_eq hq (by simp)
          simp [step, hj, udpStep, hphase]
      | progress _ ha =>
          have hphase := Phase.settled_eq hq (by simp)
          simp [step, hj, udpStep, hphase, ha]
      | save _ hret =>
          have hphase := Phase.settled_eq hq (by simp)
          simp [step, hj, udpStep, hphase, hret]
      | @fail _ e _ hf =>
          rw [← hq, Phase.canFail_settled] at hf
          simp [step, hj, udpStep, hf]

end Turns

/-- What holds in every state of a run and the abstraction rests on. -/
structure Coherent (srv : Server) (s : Engine) : Prop where
  keyed : s.StoreKeyed
  requests : RequestsConsistent srv s
  recorded : s.Recorded

theorem Coherent.step {srv : Server} {s s' : Engine} {a : Label} {evs : List Event}
    (h : Coherent srv s) (hs : s.step srv a = some (s', evs)) : Coherent srv s' := by
  obtain ⟨hkeyed, hrequests⟩ := requests_step h.keyed h.requests hs
  exact ⟨hkeyed, hrequests, h.recorded.step hs⟩

theorem coherent_init (srv : Server) (discovery : DiscoveryConfig) (enabled : Bool) :
    Coherent srv (init srv discovery enabled) := by
  have hnil : Trace (Engine.step srv) (init srv discovery enabled) [] _ := .nil
  obtain ⟨hkeyed, hrequests⟩ := requests_run hnil
  exact ⟨hkeyed, hrequests, by simp [init], by simp [init]⟩

theorem Coherent.run {srv : Server} {s₀ s : Engine} {tr : List (Step Engine Label Event)}
    (h : Coherent srv s₀) (htr : Trace (Engine.step srv) s₀ tr s) : Coherent srv s :=
  (htr.always (Coherent srv) h fun _ _ _ _ hc hs => hc.step hs).1

end Engine

/-- The turn a label is, if it is one; a disconnect callback comes after the last of them. -/
def Label.turn : Label → Option (Worker × Act)
  | .work _ (.notified _) => none
  | .work w act => some (w, act)
  | .accept _ _ | .sendTo _ _ _ | .broadcast _ _ _ _ | .resumeCast _ _ | .app _
  | .discoveryRequest _ _ | .announceTick => none

theorem Label.turn_eq_some {a : Label} {w : Worker} {act : Act} (h : a.turn = some (w, act)) :
    a = .work w act ∧ ∀ r, act ≠ .notified r := by
  cases a with
  | work w' act' =>
      cases act' with
      | notified _ => cases h
      | frame _ | load | progress _ | save | fail _ =>
          cases h
          exact ⟨rfl, by simp⟩
  | accept _ _ | sendTo _ _ _ | broadcast _ _ _ _ | resumeCast _ _ | app _
  | discoveryRequest _ _ | announceTick => cases h

theorem Label.turn_work {w : Worker} {act : Act} (hact : ∀ r, act ≠ .notified r) :
    (Label.work w act).turn = some (w, act) := by
  cases act with
  | notified r => exact absurd rfl (hact r)
  | frame _ | load | progress _ | save | fail _ => rfl

theorem Workers.not_notified {srv : Server} {t₀ t : Workers}
    {tw : List (Step Workers (Worker × Act) RequestEvent)} (h : Trace (Workers.step srv) t₀ tw t) :
    ∀ y ∈ tw, ∀ r, y.label.2 ≠ .notified r := by
  rintro ⟨pre, ⟨w, act⟩, es, post⟩ hy r rfl
  cases h.step_eq _ hy

namespace Engine

/-- The turns of a run, in order. -/
def turnsOf (tr : List (Step Engine Label Event)) : List (Worker × Act) :=
  tr.filterMap (·.label.turn)

theorem turnsOf_eq (tr : List (Step Engine Label Event)) :
    turnsOf tr = (tr.map (·.label)).filterMap Label.turn := by
  rw [List.filterMap_map]
  rfl

@[simp] theorem turnsOf_append (tr tr' : List (Step Engine Label Event)) :
    turnsOf (tr ++ tr') = turnsOf tr ++ turnsOf tr' :=
  List.filterMap_append

def shownTurn (x : Step Engine Label Event) : Option ((Worker × Act) × List RequestEvent) :=
  x.label.turn.map fun l => (l, requestEvents l.1 x.events)

theorem map_fst_shownTurn (tr : List (Step Engine Label Event)) :
    (tr.filterMap shownTurn).map Prod.fst = turnsOf tr := by
  rw [List.map_filterMap]
  refine List.filterMap_congr fun x _ => ?_
  cases h : x.label.turn <;> simp [shownTurn, h]

section Runs

variable {srv : Server} {s₀ s : Engine} {tr : List (Step Engine Label Event)}

theorem workers_silent {s' : Engine} {a : Label} {evs : List Event} (hr : s.Recorded)
    (ha : a.turn = none) (h : s.step srv a = some (s', evs)) : s'.workers = s.workers := by
  by_cases hwork : ∃ w act, a = .work w act
  · obtain ⟨w, act, rfl⟩ := hwork
    cases act with
    | notified r => exact workers_of_notified h
    | frame _ | load | progress _ | save | fail _ => cases ha
  · exact workers_of_aside hr (fun w act hwa => hwork ⟨w, act, hwa⟩) h

/-- A worker stays where it is while others take their turns. -/
theorem workers_phase_other {s' : Engine} {a : Label} {evs : List Event} {w : Worker}
    (hc : Coherent srv s) (ha : ∀ act, a.turn ≠ some (w, act))
    (h : s.step srv a = some (s', evs)) : s'.workers.phase w = s.workers.phase w := by
  cases hturn : a.turn with
  | none => rw [workers_silent hc.recorded hturn h]
  | some l =>
      obtain ⟨w', act⟩ := l
      obtain ⟨rfl, hact⟩ := Label.turn_eq_some hturn
      have hw : w ≠ w' := by
        rintro rfl
        exact ha act hturn
      obtain ⟨p, r, -, hput⟩ := Workers.step_eq_some.mp (workers_step hc.requests hact h)
      rw [hput, Workers.phase_put_ne hw]

/-- Every run of the engine is a run of the workers, with the same turns in the same order, and
the requests do the same in them. -/
theorem workers_trace (h₀ : Coherent srv s₀) (h : Trace (step srv) s₀ tr s) :
    ∃ tr', Trace (Workers.step srv) s₀.workers tr' s.workers ∧
      tr'.map (fun x => (x.label, x.events)) = tr.filterMap shownTurn := by
  have hsim := h.simulate (Workers.step srv) (fun s t => s.workers = t ∧ Coherent srv s)
    shownTurn (fun _ => True) ⟨rfl, h₀⟩ ?silent ?visible
  case silent =>
    rintro x - t hs ⟨rfl, hc⟩ hx
    exact ⟨workers_silent hc.recorded (Option.map_eq_none_iff.mp hx) hs, hc.step hs⟩
  case visible =>
    rintro x - t b es hs ⟨rfl, hc⟩ hx
    obtain ⟨⟨w, act⟩, hturn, hes⟩ := Option.map_eq_some_iff.mp hx
    cases hes
    obtain ⟨hlabel, hact⟩ := Label.turn_eq_some hturn
    rw [hlabel] at hs
    exact ⟨x.post.workers, workers_step hc.requests hact hs, ⟨rfl, hc.step hs⟩, trivial⟩
  obtain ⟨tr', t, htr', ⟨rfl, -⟩, -, hmap⟩ := hsim
  exact ⟨tr', htr', hmap⟩

theorem workers_exec (h₀ : Coherent srv s₀) (h : Trace (step srv) s₀ tr s) :
    ∃ tr', Trace (Workers.step srv) s₀.workers tr' s.workers ∧
      tr'.map (·.label) = turnsOf tr := by
  obtain ⟨tr', htr', hmap⟩ := workers_trace h₀ h
  refine ⟨tr', htr', ?_⟩
  rw [← map_fst_shownTurn, ← hmap, List.map_map]
  rfl

theorem isSome_phaseOf_step {s' : Engine} {a : Label} {evs : List Event} {w : Worker}
    (h : s.step srv a = some (s', evs)) (hw : (s.phaseOf w).isSome) : (s'.phaseOf w).isSome := by
  cases phaseCase_step h with
  | @work w' _ _ _ _ _ _ hp' hothers _ =>
      by_cases hself : w = w'
      · subst hself
        simp [hp']
      · rwa [hothers w hself]
  | other _ hphases _ _ _ =>
      rcases hphases w with hsame | ⟨-, hnew⟩
      · rwa [hsame]
      · simp [hnew]

theorem isSome_phaseOf_work {s' : Engine} {w : Worker} {act : Act} {evs : List Event}
    (h : s.step srv (.work w act) = some (s', evs)) : (s.phaseOf w).isSome := by
  cases phaseCase_step h with
  | work hp _ _ _ => simp [hp]
  | other hnot _ _ _ _ => exact absurd rfl (hnot w act)

theorem isSome_phaseOf_turnsOf (h : Trace (step srv) s₀ tr s) :
    ∀ l ∈ turnsOf tr, (s.phaseOf l.1).isSome := by
  induction h with
  | nil => simp [turnsOf]
  | @snoc tr s s' a evs _ hstep ih =>
      intro l hl
      simp only [turnsOf, List.filterMap_append, List.mem_append] at hl
      rcases hl with hl | hl
      · exact isSome_phaseOf_step hstep (ih l hl)
      · obtain ⟨x, hx, hturn⟩ := List.mem_filterMap.mp hl
        rw [List.mem_singleton] at hx
        subst hx
        obtain ⟨rfl, -⟩ := Label.turn_eq_some hturn
        exact isSome_phaseOf_step hstep (isSome_phaseOf_work hstep)

/-- Whatever turns existing workers can take, the engine can take. -/
theorem exists_trace_of_workers {t : Workers} {tw : List (Step Workers (Worker × Act) RequestEvent)}
    (h₀ : Coherent srv s₀) (h : Trace (Workers.step srv) s₀.workers tw t)
    (hexist : ∀ x ∈ tw, (s₀.phaseOf x.label.1).isSome) :
    ∃ tr s, Trace (step srv) s₀ tr s ∧ s.workers = t ∧
      tr.map (fun x => (x.pre.workers, x.label)) =
        tw.map (fun y => (y.pre, .work y.label.1 y.label.2)) := by
  have hsim : ∃ tr s, Trace (step srv) s₀ tr s ∧ s.workers = t ∧ Coherent srv s ∧
      (∀ w, (s₀.phaseOf w).isSome → (s.phaseOf w).isSome) ∧
      tr.map (fun x => (x.pre.workers, x.label)) =
        tw.map (fun y => (y.pre, .work y.label.1 y.label.2)) := by
    induction h with
    | nil => exact ⟨[], s₀, .nil, rfl, h₀, fun _ h => h, rfl⟩
    | @snoc tw t t' l es htw hstep ih =>
        obtain ⟨tr, s, htr, rfl, hc, hkeep, hmap⟩ :=
          ih fun x hx => hexist x (List.mem_append_left _ hx)
        obtain ⟨w, act⟩ := l
        have hw := hkeep w (hexist ⟨s.workers, (w, act), es, t'⟩ (by simp))
        obtain ⟨p, hp⟩ := Option.isSome_iff_exists.mp hw
        obtain ⟨s', evs, hs⟩ := exists_step_of_workers hp hstep
        have hact : ∀ r, act ≠ .notified r := by
          rintro r rfl
          cases hstep
        have hworkers := workers_step hc.requests hact hs
        rw [hstep] at hworkers
        cases hworkers
        exact ⟨_, s', htr.snoc hs, rfl, hc.step hs,
          fun w' hw' => isSome_phaseOf_step hs (hkeep w' hw'), by simp [hmap]⟩
  obtain ⟨tr, s, htr, hworkers, -, -, hmap⟩ := hsim
  exact ⟨tr, s, htr, hworkers, hmap⟩

end Runs

end Engine

/-- Two servers that process requests alike. -/
structure Server.Alike (srv srv' : Server) : Prop where
  router : srv'.router = srv.router
  authenticator : srv'.authenticator = srv.authenticator
  botan : srv'.botan = srv.botan

theorem Server.Alike.processCommand {srv srv' : Server} (h : srv.Alike srv') (frame : ClientFrame)
    (transport : TransportType) :
    srv'.processCommand frame transport = srv.processCommand frame transport := by
  simp only [Server.processCommand, Server.handleKeyExchange, Server.handleEncryptedMessage,
    Server.doRouteAndSend, Server.handleNormalCommand, h.router, h.authenticator, h.botan]

theorem Server.Alike.workers_step {srv srv' : Server} (h : srv.Alike srv') :
    Workers.step srv' = Workers.step srv := by
  have hturn : ∀ w p record act,
      Workers.turn srv' w p record act = Workers.turn srv w p record act := by
    intro w p record act
    cases act <;> simp only [Workers.turn, Request.start, h.processCommand]
  funext s l
  obtain ⟨w, act⟩ := l
  simp only [Workers.step, hturn]

/-- The server without its limit on the number of clients. -/
def Server.unlimited (srv : Server) : Server := { srv with maxClients := 0 }

theorem Server.alike_unlimited (srv : Server) : srv.Alike srv.unlimited := ⟨rfl, rfl, rfl⟩

/-- Clients connect one after the other, each with the next descriptor. -/
def Label.accepts (modes : List ProtocolMode) : List Label :=
  modes.mapIdx fun i mode => .accept mode i

namespace Engine

section Accepts

variable (srv : Server) (discovery : DiscoveryConfig) (enabled : Bool)

def accepted (modes : List ProtocolMode) : Engine :=
  { init srv discovery enabled with
    conns := modes.mapIdx fun i mode => { fd := i, mode := mode }
    activeConnections := modes.length }

theorem workers_accepted (modes : List ProtocolMode) :
    (accepted srv discovery enabled modes).workers = Workers.start := by
  refine Workers.ext rfl (funext fun w => ?_)
  cases w with
  | conn i =>
      cases hi : modes[i]? <;>
        simp [workers, phaseOf, accepted, Workers.start, hi, Phase.settled]
  | udp j =>
      have hinit : (accepted srv discovery enabled modes).phaseOf (.udp j) =
          (init srv discovery enabled).phaseOf (.udp j) := rfl
      cases hp : (init srv discovery enabled).phaseOf (.udp j) with
      | none => simp [workers, hinit, hp, Workers.start]
      | some p =>
          rw [workers_phase (hinit.trans hp), phaseOf_init hp]
          rfl

theorem workers_init : (init srv discovery enabled).workers = Workers.start :=
  workers_accepted srv discovery enabled []

theorem trace_accepts (hroom : srv.maxClients = 0) (modes : List ProtocolMode) :
    ∃ tr, Trace (step srv) (init srv discovery enabled) tr
        (accepted srv discovery enabled modes) ∧
      tr.map (·.label) = Label.accepts modes := by
  induction modes using List.reverseRecOn with
  | nil => exact ⟨[], .nil, rfl⟩
  | append_singleton modes mode ih =>
      obtain ⟨tr, htr, hlabels⟩ := ih
      have hfd : ¬ (accepted srv discovery enabled modes).descriptorOpen modes.length := by
        rintro ⟨c, hc, -, hlen⟩
        obtain ⟨i, hi, rfl⟩ := List.mem_mapIdx.mp hc
        exact absurd hlen (Nat.ne_of_lt hi)
      have hstep : (accepted srv discovery enabled modes).step srv (.accept mode modes.length) =
          some (accepted srv discovery enabled (modes ++ [mode]), []) := by
        simp only [step, hfd, hroom, Nat.lt_irrefl, false_and, if_false]
        simp [accepted]
      exact ⟨_, htr.snoc hstep, by simp [hlabels, Label.accepts]⟩

end Accepts

theorem udpLoops_length_step {srv : Server} {s s' : Engine} {a : Label} {evs : List Event}
    (h : s.step srv a = some (s', evs)) : s'.udpLoops.length = s.udpLoops.length := by
  cases step_form h with
  | accepted _ _ _ _ | rejected _ _ _ _ | sentTo _ _ _ | castStarted _ _ _ _ _
  | settings _ _ _ => rfl
  | castResumed _ hstep => rw [(castStep_frame hstep).2.1]
  | conn _ hstep => cases hstep <;> rfl
  | udp _ hstep => cases hstep <;> simp

section Realised

variable {srv : Server} {discovery : DiscoveryConfig} {enabled : Bool}
  {tr : List (Step Engine Label Event)} {s : Engine}

theorem udpLoops_length_run (h : Trace (step srv) (init srv discovery enabled) tr s) :
    s.udpLoops.length = srv.udpPorts.length :=
  (h.always (fun s => s.udpLoops.length = srv.udpPorts.length) (by simp [init])
    fun _ _ _ _ hlen hs => (udpLoops_length_step hs).trans hlen).1

/-- The workers of a run are there as well once as many clients have connected. -/
theorem isSome_phaseOf_accepted (h : Trace (step srv) (init srv discovery enabled) tr s)
    {w : Worker} (hw : (s.phaseOf w).isSome) :
    ((accepted srv.unlimited discovery enabled (s.conns.map (·.mode))).phaseOf w).isSome := by
  cases w with
  | conn i => simpa [phaseOf, accepted] using hw
  | udp j =>
      have hlen := udpLoops_length_run h
      simpa [phaseOf, accepted, init, Server.unlimited, hlen] using hw

theorem turn_of_mem_accepts {modes : List ProtocolMode} {a : Label} (h : a ∈ Label.accepts modes) :
    a.turn = none := by
  obtain ⟨i, hi, rfl⟩ := List.mem_mapIdx.mp h
  rfl

theorem turnsOf_of_labels {tr₁ tr₂ : List (Step Engine Label Event)} {modes : List ProtocolMode}
    {ls : List (Worker × Act)} (h₁ : tr₁.map (·.label) = Label.accepts modes)
    (h₂ : tr₂.map (·.label) = ls.map (fun l => .work l.1 l.2))
    (hls : ∀ l ∈ ls, ∀ r, l.2 ≠ .notified r) : turnsOf (tr₁ ++ tr₂) = ls := by
  have hnone : turnsOf tr₁ = [] := by
    refine List.filterMap_eq_nil_iff.mpr fun x hx => ?_
    have hmem : x.label ∈ Label.accepts modes := h₁ ▸ List.mem_map_of_mem hx
    exact turn_of_mem_accepts hmem
  have hall : turnsOf tr₂ = ls := by
    rw [turnsOf_eq, h₂, List.filterMap_map]
    refine (List.filterMap_congr fun l hl => ?_).trans List.filterMap_some
    exact Label.turn_work (hls l hl)
  rw [turnsOf_append, hnone, hall, List.nil_append]

/-- Workers of a run of the engine that take other turns: the engine can take these as well,
after as many clients have connected. -/
theorem exists_run_of_workers (h : Trace (step srv) (init srv discovery enabled) tr s)
    {tw : List (Step Workers (Worker × Act) RequestEvent)} {t : Workers}
    (htw : Trace (Workers.step srv) Workers.start tw t)
    (hexist : ∀ x ∈ tw, (s.phaseOf x.label.1).isSome) :
    ∃ tr' s', Trace (step srv.unlimited) (init srv.unlimited discovery enabled) tr' s' ∧
      s'.workers = t ∧ turnsOf tr' = tw.map (·.label) ∧
      tr'.map (·.label) = Label.accepts (s.conns.map (·.mode)) ++
        (tw.map (·.label)).map (fun l => .work l.1 l.2) ∧
      ∀ x ∈ tr', ∀ l, x.label.turn = some l → ∃ y ∈ tw, y.pre = x.pre.workers ∧ y.label = l := by
  obtain ⟨tr₁, htr₁, hlabels₁⟩ := trace_accepts srv.unlimited discovery enabled rfl
    (s.conns.map (·.mode))
  have hcoherent : Coherent srv.unlimited
      (accepted srv.unlimited discovery enabled (s.conns.map (·.mode))) :=
    (coherent_init _ _ _).run htr₁
  have htw' := htw
  rw [← workers_accepted srv.unlimited discovery enabled (s.conns.map (·.mode)),
    ← srv.alike_unlimited.workers_step] at htw'
  obtain ⟨tr₂, s', htr₂, hworkers, hpres⟩ := exists_trace_of_workers hcoherent htw'
    fun x hx => isSome_phaseOf_accepted h (hexist x hx)
  have hlabels₂ : tr₂.map (·.label) = (tw.map (·.label)).map (fun l => .work l.1 l.2) := by
    have hsnd := congrArg (List.map Prod.snd) hpres
    rw [List.map_map, List.map_map] at hsnd
    rw [List.map_map]
    exact hsnd
  have hturns : turnsOf (tr₁ ++ tr₂) = tw.map (·.label) := by
    refine turnsOf_of_labels hlabels₁ hlabels₂ fun l hl => ?_
    obtain ⟨y, hy, rfl⟩ := List.mem_map.mp hl
    exact Workers.not_notified htw y hy
  refine ⟨tr₁ ++ tr₂, s', htr₁.append htr₂, hworkers, hturns,
    by rw [List.map_append, hlabels₁, hlabels₂], fun x hx l hturn => ?_⟩
  rcases List.mem_append.mp hx with hx | hx
  · have hmem : x.label ∈ Label.accepts (s.conns.map (·.mode)) :=
      hlabels₁ ▸ List.mem_map_of_mem hx
    rw [turn_of_mem_accepts hmem] at hturn
    cases hturn
  · have hmem := List.mem_map_of_mem (f := fun x => (x.pre.workers, x.label)) hx
    rw [hpres] at hmem
    obtain ⟨y, hy, hxy⟩ := List.mem_map.mp hmem
    obtain ⟨hpre, hlabel⟩ := Prod.mk.inj hxy
    obtain ⟨hwork, -⟩ := Label.turn_eq_some hturn
    obtain ⟨hw, hact⟩ := Label.work.inj (hlabel.trans hwork)
    exact ⟨y, hy, hpre, Prod.ext hw hact⟩

end Realised

end Engine

end Servd
