import Servd.Writes

/-!
Requests in flight. Connections and UDP sockets process requests alike: a load copies
the record out of the store, the coroutine advances, and a save writes the copy back.
`PhaseCase` sorts the steps by what they do to the phases of these workers and to the
store, and `RequestCase` by what that means for their requests. A request in flight is
at every moment what its coroutine has become on the answers it was given, from the
record it loaded.
-/
namespace Servd

open Coroutine

/-- The request is where its coroutine is after its answers, started on the record it
loaded, which is the record of its own session id. -/
structure Request.Consistent (srv : Server) (transport : TransportType) (req : Request) :
    Prop where
  run : resume requestSem (.start req.loaded) (srv.processCommand req.frame transport)
    req.answers = some (req.state, req.task, req.events)
  loaded_id : req.loaded.id = req.frame.header.sessionId

theorem resume_session_id {α : Type} {t t' : RequestState} {c c' : Task α} {as : List Answer}
    {es : List RequestEvent} (h : resume requestSem t c as = some (t', c', es)) :
    t'.session.id = t.session.id := by
  induction as generalizing t c es with
  | nil =>
      cases h
      rfl
  | cons a as ih =>
      obtain ⟨u, d, es₁, es₂, ha, hr, -⟩ := resume_cons_eq_some.mp h
      exact (ih hr).trans (advance_session_id ha)

theorem Request.Consistent.session_id {srv : Server} {transport : TransportType} {req : Request}
    (h : req.Consistent srv transport) : req.state.session.id = req.frame.header.sessionId :=
  (resume_session_id h.run).trans h.loaded_id

theorem Request.consistent_start {srv : Server} {transport : TransportType} {f : ClientFrame}
    {session : Session} (h : session.id = f.header.sessionId) :
    (Request.start srv f transport session).Consistent srv transport :=
  ⟨rfl, h⟩

theorem Request.advance_eq_some {req req' : Request} {a : Answer} {es : List RequestEvent} :
    req.advance a = some (req', es) ↔
      ∃ state task, Coroutine.advance requestSem req.state req.task a = some (state, task, es) ∧
        req' = { req with
          state := state, task := task, answers := req.answers ++ [a]
          events := req.events ++ es } := by
  simp only [Request.advance, Option.map_eq_some_iff, Prod.exists, Prod.mk.injEq]
  constructor
  · intro h
    obtain ⟨state, task, es', ha, rfl, rfl⟩ := h
    exact ⟨state, task, ha, rfl⟩
  · intro h
    obtain ⟨state, task, ha, rfl⟩ := h
    exact ⟨state, task, es, ha, rfl, rfl⟩

theorem Request.Consistent.advance {srv : Server} {transport : TransportType}
    {req req' : Request} {a : Answer} {es : List RequestEvent} (h : req.Consistent srv transport)
    (ha : req.advance a = some (req', es)) : req'.Consistent srv transport := by
  obtain ⟨state, task, hadv, rfl⟩ := Request.advance_eq_some.mp ha
  exact ⟨resume_snoc h.run hadv, h.loaded_id⟩

def Phase.frame : Phase → Option ClientFrame
  | .loading f => some f
  | .processing req => some req.frame
  | .reading | .notifying | .ended => none

namespace Engine

def phaseOf (s : Engine) : Worker → Option Phase
  | .conn i => s.conns[i]?.map (·.phase)
  | .udp j => s.udpLoops[j]?

def inFlight (s : Engine) (w : Worker) : Option Request := (s.phaseOf w).bind (·.request)

/-- Records only appear in the store with their default value. -/
def StoreGrows (store store' : InMemorySessionStore) : Prop :=
  ∀ sid, store'.lookup sid = store.lookup sid ∨
    (store.lookup sid = none ∧ store'.lookup sid = some { id := sid })

theorem storeGrows_refl (store : InMemorySessionStore) : StoreGrows store store :=
  fun _ => .inl rfl

theorem storeGrows_getOrCreate (store : InMemorySessionStore) (sid : UInt64) :
    StoreGrows store (store.getOrCreate sid).2 := by
  intro k
  by_cases hk : k = sid
  · subst hk
    cases hl : store.lookup k with
    | some r => exact .inl (store.lookup_getOrCreate_of_some k hl)
    | none =>
        rw [store.lookup_getOrCreate_self, InMemorySessionStore.getOrCreate_of_none hl]
        exact .inr ⟨rfl, rfl⟩
  · exact .inl (store.lookup_getOrCreate_ne hk)

def requestEvent (w : Worker) : Event → Option RequestEvent
  | .request w' e => if w' = w then some e else none
  | .wrote _ _ _ _ | .sentDatagram _ _ | .saved _ _ | .closed _ | .discoveryReply _
  | .announced _ => none

def requestEvents (w : Worker) (evs : List Event) : List RequestEvent :=
  evs.filterMap (requestEvent w)

theorem mem_requestEvents {w : Worker} {e : RequestEvent} {evs : List Event} :
    e ∈ requestEvents w evs ↔ .request w e ∈ evs := by
  simp only [requestEvents, List.mem_filterMap]
  constructor
  · intro h
    obtain ⟨ev, hev, he⟩ := h
    cases ev with
    | request w' e' =>
        simp only [requestEvent, Option.ite_none_right_eq_some, Option.some.injEq] at he
        obtain ⟨rfl, rfl⟩ := he
        exact hev
    | wrote _ _ _ _ | sentDatagram _ _ | saved _ _ | closed _ | discoveryReply _ | announced _ =>
        cases he
  · intro h
    exact ⟨_, h, by simp [requestEvent]⟩

theorem requestEvents_eq_nil {evs : List Event} (h : ∀ w e, .request w e ∉ evs) (w : Worker) :
    requestEvents w evs = [] :=
  List.eq_nil_iff_forall_not_mem.mpr fun e he => h w e (mem_requestEvents.mp he)

@[simp] theorem requestEvents_append (w : Worker) (evs evs' : List Event) :
    requestEvents w (evs ++ evs') = requestEvents w evs ++ requestEvents w evs' :=
  List.filterMap_append

structure TurnEvents (w : Worker) (es : List RequestEvent) (evs : List Event) : Prop where
  own : requestEvents w evs = es
  others : ∀ w', w' ≠ w → requestEvents w' evs = []
  unsaved : ∀ w' req, .saved w' req ∉ evs

def IsOutput (ev : Event) : Prop :=
  (∃ origin sid fd bytes, ev = .wrote origin sid fd bytes) ∨ ∃ j bytes, ev = .sentDatagram j bytes

theorem turnEvents_flatMap {w : Worker} {emit : RequestEvent → List Event}
    (h : ∀ e, ∃ writes, emit e = [.request w e] ++ writes ∧ ∀ x ∈ writes, IsOutput x)
    (es : List RequestEvent) : TurnEvents w es (es.flatMap emit) := by
  induction es with
  | nil => exact ⟨rfl, fun _ _ => rfl, by simp⟩
  | cons e es ih =>
      obtain ⟨writes, hemit, hwrites⟩ := h e
      have hnone : ∀ w' e', .request w' e' ∉ writes := by
        intro w' e' hmem
        rcases hwrites _ hmem with ⟨_, _, _, _, hx⟩ | ⟨_, _, hx⟩ <;> cases hx
      rw [List.flatMap_cons, hemit]
      constructor
      · rw [requestEvents_append, requestEvents_append, requestEvents_eq_nil hnone, ih.own]
        simp [requestEvents, requestEvent]
      · intro w' hw'
        rw [requestEvents_append, requestEvents_append, requestEvents_eq_nil hnone,
          ih.others w' hw']
        simp [requestEvents, requestEvent, Ne.symm hw']
      · intro w' req hmem
        rcases List.mem_append.mp hmem with hmem | hmem
        · rcases List.mem_append.mp hmem with hmem | hmem
          · simp at hmem
          · rcases hwrites _ hmem with ⟨_, _, _, _, hx⟩ | ⟨_, _, hx⟩ <;> cases hx
        · exact ih.unsaved w' req hmem

theorem turnEvents_stream (i : Nat) (c : Conn) (es : List RequestEvent) :
    TurnEvents (.conn i) es (es.flatMap (streamEvents i c)) := by
  refine turnEvents_flatMap (fun e => ?_) es
  cases e with
  | sent h p => exact ⟨[_], rfl, fun x hx => .inl ⟨_, _, _, _, List.mem_singleton.mp hx⟩⟩
  | authenticatorCalled _ _ | handlerCalled _ _ => exact ⟨[], rfl, by simp⟩

theorem turnEvents_datagram (j : Nat) (es : List RequestEvent) :
    TurnEvents (.udp j) es (es.flatMap (datagramEvents j)) := by
  refine turnEvents_flatMap (fun e => ?_) es
  cases e with
  | sent h p => exact ⟨[_], rfl, fun x hx => .inr ⟨_, _, List.mem_singleton.mp hx⟩⟩
  | authenticatorCalled _ _ | handlerCalled _ _ => exact ⟨[], rfl, by simp⟩

/-- What a step of a worker does to its phase and to the store. -/
inductive WorkStep (srv : Server) (s : Engine) (w : Worker) :
    Phase → Act → Phase → InMemorySessionStore → List Event → Prop
  | frame (f : ClientFrame) : WorkStep srv s w .reading (.frame f) (.loading f) s.store []
  | load (f : ClientFrame) : WorkStep srv s w (.loading f) .load
      (.processing (.start srv f w.transport (s.store.getOrCreate f.header.sessionId).1))
      (s.store.getOrCreate f.header.sessionId).2 []
  | progress (a : Answer) (req req' : Request) (es : List RequestEvent) {evs : List Event}
      (ha : req.advance a = some (req', es)) (hevs : TurnEvents w es evs) :
      WorkStep srv s w (.processing req) (.progress a) (.processing req') s.store evs
  | save (req : Request) (ht : req.task = .ret ()) :
      WorkStep srv s w (.processing req) .save .reading (s.store.save req.state.session)
        [.saved w req]
  | drop {p p' : Phase} {act : Act} {evs : List Event} (hact : ∀ f, act ≠ .frame f)
      (hp' : p' = .notifying ∨ p' = .ended ∨ (∃ j, w = .udp j) ∧ p' = .reading)
      (hevs : ∀ w e, .request w e ∉ evs) (hsaved : ∀ w req, .saved w req ∉ evs) :
      WorkStep srv s w p act p' s.store evs

/-- The steps by what they do to the workers' phases and to the store. -/
inductive PhaseCase (srv : Server) (s : Engine) : Label → Engine → List Event → Prop
  | work {w : Worker} {act : Act} {p p' : Phase} {s' : Engine} {evs : List Event}
      (hp : s.phaseOf w = some p) (hp' : s'.phaseOf w = some p')
      (hothers : ∀ w', w' ≠ w → s'.phaseOf w' = s.phaseOf w')
      (hstep : WorkStep srv s w p act p' s'.store evs) : PhaseCase srv s (.work w act) s' evs
  | other {a : Label} {s' : Engine} {evs : List Event} (hnot : ∀ w act, a ≠ .work w act)
      (hphases : ∀ w, s'.phaseOf w = s.phaseOf w ∨
        s.phaseOf w = none ∧ s'.phaseOf w = some .reading)
      (hstore : StoreGrows s.store s'.store) (hevs : ∀ w e, .request w e ∉ evs)
      (hsaved : ∀ w req, .saved w req ∉ evs) : PhaseCase srv s a s' evs

section Replaced

variable {s s' : Engine}

theorem phaseOf_conn_ne {i : Nat} {c' : Conn} (hconns : s'.conns = s.conns.set i c')
    (hudp : s'.udpLoops = s.udpLoops) : ∀ w, w ≠ .conn i → s'.phaseOf w = s.phaseOf w := by
  intro w hw
  cases w with
  | udp j => simp [phaseOf, hudp]
  | conn j =>
      have hij : i ≠ j := fun hij => hw (hij ▸ rfl)
      simp [phaseOf, hconns, List.getElem?_set_ne hij]

theorem phaseOf_udp_ne {j : Nat} {p' : Phase} (hudp : s'.udpLoops = s.udpLoops.set j p')
    (hconns : s'.conns = s.conns) : ∀ w, w ≠ .udp j → s'.phaseOf w = s.phaseOf w := by
  intro w hw
  cases w with
  | conn i => simp [phaseOf, hconns]
  | udp i =>
      have hij : j ≠ i := fun hij => hw (hij ▸ rfl)
      simp [phaseOf, hudp, List.getElem?_set_ne hij]

theorem phaseCase_conn {srv : Server} {i : Nat} {c c' : Conn} {p' : Phase} {act : Act}
    {evs : List Event} (hc : s.conns[i]? = some c) (hconns : s'.conns = s.conns.set i c')
    (hudp : s'.udpLoops = s.udpLoops) (hp' : c'.phase = p')
    (hstep : WorkStep srv s (.conn i) c.phase act p' s'.store evs) :
    PhaseCase srv s (.work (.conn i) act) s' evs := by
  have hi : i < s.conns.length := (List.getElem?_eq_some_iff.mp hc).1
  refine .work ?_ ?_ (phaseOf_conn_ne hconns hudp) hstep
  · simp [phaseOf, hc]
  · simp [phaseOf, hconns, hi, hp']

theorem phaseCase_udp {srv : Server} {j : Nat} {p p' : Phase} {act : Act} {evs : List Event}
    (hp : s.udpLoops[j]? = some p) (hudp : s'.udpLoops = s.udpLoops.set j p')
    (hconns : s'.conns = s.conns) (hstep : WorkStep srv s (.udp j) p act p' s'.store evs) :
    PhaseCase srv s (.work (.udp j) act) s' evs := by
  have hj : j < s.udpLoops.length := (List.getElem?_eq_some_iff.mp hp).1
  refine .work hp ?_ (phaseOf_udp_ne hudp hconns) hstep
  simp [phaseOf, hudp, hj]

end Replaced

theorem phaseCase_connStep {srv : Server} {s s' : Engine} {i : Nat} {c : Conn} {act : Act}
    {evs : List Event} (hc : s.conns[i]? = some c) (hs : ConnStep srv s i c act s' evs) :
    PhaseCase srv s (.work (.conn i) act) s' evs := by
  cases hs with
  | frame f hp => exact phaseCase_conn hc rfl rfl rfl (hp ▸ .frame f)
  | load f hp => exact phaseCase_conn hc rfl rfl rfl (hp ▸ .load f)
  | progress a req req' es hp ha =>
      exact phaseCase_conn hc rfl rfl rfl (hp ▸ .progress a req req' es ha (turnEvents_stream i c es))
  | save req hp ht => exact phaseCase_conn hc rfl rfl rfl (hp ▸ .save req ht)
  | notify _ _ _ _ _ =>
      exact phaseCase_conn hc rfl rfl rfl (.drop (by simp) (.inl rfl) (by simp) (by simp))
  | leave _ _ _ _ | noPool _ _ _ _ _ | escape _ _ _ | notified _ | notifyFailed _ _ =>
      exact phaseCase_conn hc rfl rfl rfl (.drop (by simp) (.inr (.inl rfl)) (by simp) (by simp))

theorem phaseCase_udpStep {srv : Server} {s s' : Engine} {j : Nat} {p : Phase} {act : Act}
    {evs : List Event} (hp : s.udpLoops[j]? = some p) (hs : UdpStep srv s j p act s' evs) :
    PhaseCase srv s (.work (.udp j) act) s' evs := by
  cases hs with
  | frame f hf => exact phaseCase_udp hp rfl rfl (hf ▸ .frame f)
  | load f hf => exact phaseCase_udp hp rfl rfl (hf ▸ .load f)
  | progress a req req' es hreq ha =>
      exact phaseCase_udp hp rfl rfl (hreq ▸ .progress a req req' es ha (turnEvents_datagram j es))
  | save req hreq ht => exact phaseCase_udp hp rfl rfl (hreq ▸ .save req ht)
  | fail e hf =>
      refine phaseCase_udp hp rfl rfl (.drop (by simp) ?_ (by simp) (by simp))
      cases e.isStd with
      | true => exact .inr (.inr ⟨⟨j, rfl⟩, rfl⟩)
      | false => exact .inr (.inl rfl)

theorem castStep_store {s s' : Engine} {k : Nat} {b : Cast} {r : Except Exc Unit}
    {evs : List Event} (h : s.castStep k b r = some (s', evs)) :
    StoreGrows s.store s'.store := by
  cases castStep_cases h with
  | thrown _ _ | written _ | chosen _ _ _ _ _ _ | skipped _ _ _ _ _ _ => exact storeGrows_refl _
  | fetched entry _ _ _ => exact storeGrows_getOrCreate _ _

theorem phaseCase_step {srv : Server} {s s' : Engine} {a : Label} {evs : List Event}
    (h : s.step srv a = some (s', evs)) : PhaseCase srv s a s' evs := by
  -- a step of some other coroutine, with events that are none of a request's
  have aside : ∀ {a : Label} {s' : Engine} {evs : List Event}, (∀ w act, a ≠ .work w act) →
      s'.conns = s.conns → s'.udpLoops = s.udpLoops → StoreGrows s.store s'.store →
      (∀ e ∈ evs, e.isWrite = true ∨ e.isDiscovery = true) → PhaseCase srv s a s' evs := by
    intro a s' evs hnot hconns hudp hstore hevs
    refine .other hnot (fun w => .inl ?_) hstore ?_ ?_
    · cases w <;> simp [phaseOf, hconns, hudp]
    · intro w e he
      simpa [Event.isWrite, Event.isDiscovery] using hevs _ he
    · intro w req he
      simpa [Event.isWrite, Event.isDiscovery] using hevs _ he
  cases step_form h with
  | accepted mode fd hfd hroom =>
      refine .other (by simp) (fun w => ?_) (storeGrows_refl _) (by simp) (by simp)
      cases w with
      | udp j => exact .inl rfl
      | conn i =>
          by_cases hi : i < s.conns.length
          · exact .inl (by simp [phaseOf, List.getElem?_append_left hi])
          · have hnone : s.conns[i]? = none := List.getElem?_eq_none (Nat.le_of_not_lt hi)
            by_cases hlast : i = s.conns.length
            · exact .inr (by simp [phaseOf, hlast])
            · refine .inl ?_
              have hbeyond : (s.conns ++ [({ fd := fd, mode := mode } : Conn)])[i]? = none :=
                List.getElem?_eq_none (by simp; omega)
              simp [phaseOf, hnone, hbeyond]
  | rejected mode fd hfd hfull =>
      refine .other (by simp) (fun w => .inl ?_) (storeGrows_refl _) (by simp) (by simp)
      cases w <;> rfl
  | conn hc hstep => exact phaseCase_connStep hc hstep
  | udp hp hstep => exact phaseCase_udpStep hp hstep
  | sentTo sid commandId payload =>
      refine aside (by simp) rfl rfl (storeGrows_refl _) ?_
      cases s.sessions.lookup sid with
      | none => simp
      | some fd => exact fun e he => .inl (submit_isWrite e he)
  | castStarted commandId payload predicate order hperm =>
      exact aside (by simp) rfl rfl (storeGrows_refl _) fun e he => .inl (nextCast_isWrite e he)
  | castResumed hb hstep =>
      obtain ⟨hconns, hudp, -, -⟩ := castStep_frame hstep
      exact aside (by simp) hconns hudp (castStep_store hstep)
        fun e he => .inl (castStep_isWrite hstep e he)
  | settings t hquiet ha =>
      refine aside ?_ rfl rfl (storeGrows_refl _) fun e he => .inr (hquiet e he)
      intro w act hwork
      subst hwork
      simp at ha

inductive RequestCase (srv : Server) (s : Engine) : Label → Engine → List Event → Prop
  | load (w : Worker) (f : ClientFrame) {s' : Engine}
      (hreq : s'.inFlight w = some (.start srv f w.transport
        (s.store.getOrCreate f.header.sessionId).1))
      (hothers : ∀ w', w' ≠ w → s'.inFlight w' = s.inFlight w')
      (hstore : s'.store = (s.store.getOrCreate f.header.sessionId).2) :
      RequestCase srv s (.work w .load) s' []
  | progress (w : Worker) (ans : Answer) (req req' : Request) (es : List RequestEvent)
      {s' : Engine} {evs : List Event} (hreq : s.inFlight w = some req)
      (ha : req.advance ans = some (req', es)) (hreq' : s'.inFlight w = some req')
      (hothers : ∀ w', w' ≠ w → s'.inFlight w' = s.inFlight w') (hstore : s'.store = s.store)
      (hsaved : ∀ w' req, .saved w' req ∉ evs) :
      RequestCase srv s (.work w (.progress ans)) s' evs
  | save (w : Worker) (req : Request) {s' : Engine} (hreq : s.inFlight w = some req)
      (ht : req.task = .ret ()) (hdone : s'.inFlight w = none)
      (hothers : ∀ w', w' ≠ w → s'.inFlight w' = s.inFlight w')
      (hstore : s'.store = s.store.save req.state.session) :
      RequestCase srv s (.work w .save) s' [.saved w req]
  | other {a : Label} {s' : Engine} {evs : List Event}
      (hreqs : ∀ w, s'.inFlight w = s.inFlight w ∨ s'.inFlight w = none)
      (hstore : StoreGrows s.store s'.store) (hsaved : ∀ w req, .saved w req ∉ evs) :
      RequestCase srv s a s' evs

theorem requestCase_step {srv : Server} {s s' : Engine} {a : Label} {evs : List Event}
    (h : s.step srv a = some (s', evs)) : RequestCase srv s a s' evs := by
  cases phaseCase_step h with
  | @work w act p p' s' evs hp hp' hothers hstep =>
      have hreqs : ∀ w', w' ≠ w → s'.inFlight w' = s.inFlight w' := fun w' hw' => by
        rw [inFlight, hothers w' hw', inFlight]
      have hbefore : s.inFlight w = p.request := by simp [inFlight, hp]
      have hafter : s'.inFlight w = p'.request := by simp [inFlight, hp']
      generalize hstore : s'.store = store at hstep
      cases hstep with
      | load f => exact .load w f hafter hreqs hstore
      | progress a req req' es ha hevs =>
          exact .progress w a req req' es hbefore ha hafter hreqs hstore hevs.unsaved
      | save req ht => exact .save w req hbefore ht hafter hreqs hstore
      | frame f =>
          refine .other (fun w' => ?_) (hstore ▸ storeGrows_refl _) (by simp)
          by_cases hw : w' = w
          · exact .inr (hw ▸ hafter)
          · exact .inl (hreqs w' hw)
      | drop hact hp' hevs hsaved =>
          refine .other (fun w' => ?_) (hstore ▸ storeGrows_refl _) hsaved
          by_cases hw : w' = w
          · subst hw
            rcases hp' with rfl | rfl | ⟨-, rfl⟩ <;> exact .inr hafter
          · exact .inl (hreqs w' hw)
  | other hnot hphases hstore hevs hsaved =>
      refine .other (fun w => ?_) hstore hsaved
      rcases hphases w with hsame | ⟨-, hnew⟩
      · exact .inl (by rw [inFlight, hsame, inFlight])
      · exact .inr (by simp [inFlight, hnew, Phase.request])

def StoreKeyed (s : Engine) : Prop :=
  ∀ sid record, s.store.lookup sid = some record → record.id = sid

def RequestsConsistent (srv : Server) (s : Engine) : Prop :=
  ∀ w req, s.inFlight w = some req → req.Consistent srv w.transport

theorem StoreKeyed.getOrCreate_id {s : Engine} (h : s.StoreKeyed) (sid : UInt64) :
    (s.store.getOrCreate sid).1.id = sid := by
  cases hl : s.store.lookup sid with
  | some record =>
      rw [InMemorySessionStore.getOrCreate_of_some hl]
      exact h sid record hl
  | none => rw [InMemorySessionStore.getOrCreate_of_none hl]

theorem storeKeyed_of_grows {s s' : Engine} (h : s.StoreKeyed)
    (hstore : StoreGrows s.store s'.store) : s'.StoreKeyed := by
  intro sid record hl
  cases hstore sid with
  | inl hsame => exact h sid record (hsame ▸ hl)
  | inr hnew =>
      rw [hnew.2] at hl
      cases hl
      rfl

theorem requests_step {srv : Server} {s s' : Engine} {a : Label} {evs : List Event}
    (hk : s.StoreKeyed) (hr : RequestsConsistent srv s) (hs : s.step srv a = some (s', evs)) :
    s'.StoreKeyed ∧ RequestsConsistent srv s' := by
  -- a worker other than the one that takes the step keeps its request
  have others : ∀ {w : Worker} {req : Option Request},
      (∀ w', w' ≠ w → s'.inFlight w' = s.inFlight w') → s'.inFlight w = req →
      (∀ r, req = some r → r.Consistent srv w.transport) → RequestsConsistent srv s' := by
    intro w req hothers hself hreq w' r hr'
    by_cases hw : w' = w
    · subst hw
      exact hreq r (hself.symm.trans hr')
    · exact hr w' r (hothers w' hw ▸ hr')
  cases requestCase_step hs with
  | load w f hreq hothers hstore =>
      refine ⟨storeKeyed_of_grows hk (hstore ▸ storeGrows_getOrCreate _ _), ?_⟩
      refine others hothers hreq fun r hr' => ?_
      cases hr'
      exact Request.consistent_start (hk.getOrCreate_id _)
  | progress w ans req req' es hreq ha hreq' hothers hstore _ =>
      refine ⟨storeKeyed_of_grows hk (hstore ▸ storeGrows_refl _), ?_⟩
      refine others hothers hreq' fun r hr' => ?_
      cases hr'
      exact (hr w req hreq).advance ha
  | save w req hreq ht hdone hothers hstore =>
      refine ⟨?_, others hothers hdone fun r hr' => by cases hr'⟩
      intro sid record hl
      rw [hstore] at hl
      by_cases hsid : sid = req.state.session.id
      · subst hsid
        rw [InMemorySessionStore.lookup_save_self] at hl
        cases hl
        rfl
      · rw [InMemorySessionStore.lookup_save_ne _ _ hsid] at hl
        exact hk sid record hl
  | other hreqs hstore _ =>
      refine ⟨storeKeyed_of_grows hk hstore, ?_⟩
      intro w req hreq
      cases hreqs w with
      | inl hsame => exact hr w req (hsame ▸ hreq)
      | inr hnone =>
          rw [hnone] at hreq
          cases hreq

theorem save_step {srv : Server} {s s' : Engine} {w : Worker} {evs : List Event}
    (h : s.step srv (.work w .save) = some (s', evs)) :
    ∃ req, s.inFlight w = some req ∧ req.task = .ret () ∧
      s'.store = s.store.save req.state.session ∧ evs = [.saved w req] := by
  cases step_form h with
  | conn hc hstep =>
      cases hstep with
      | save req hp ht => exact ⟨req, by simp [inFlight, phaseOf, hc, hp, Phase.request], ht, rfl, rfl⟩
  | udp hp hstep =>
      cases hstep with
      | save req hreq ht =>
          subst hreq
          exact ⟨req, by simp [inFlight, phaseOf, hp, Phase.request], ht, rfl, rfl⟩
  | settings t hquiet ha => simp at ha

theorem lookup_of_save {srv : Server} {s s' : Engine} {w : Worker} {req : Request}
    {evs : List Event} (hreq : s.inFlight w = some req) (hc : req.Consistent srv w.transport)
    (h : s.step srv (.work w .save) = some (s', evs)) (sid : UInt64) :
    s'.store.lookup sid =
      if sid = req.frame.header.sessionId then some req.state.session
      else s.store.lookup sid := by
  obtain ⟨req', hreq', -, hstore, -⟩ := save_step h
  rw [hreq] at hreq'
  cases hreq'
  rw [hstore, ← hc.session_id]
  split
  · rename_i hsid
    rw [hsid, InMemorySessionStore.lookup_save_self]
  · rename_i hsid
    exact InMemorySessionStore.lookup_save_ne _ _ hsid

theorem store_of_fail {srv : Server} {s s' : Engine} {w : Worker} {e : Exc} {evs : List Event}
    (h : s.step srv (.work w (.fail e)) = some (s', evs)) : s'.store = s.store := by
  cases phaseCase_step h with
  | work hp hp' hothers hstep =>
      generalize hstore : s'.store = store at hstep
      cases hstep with
      | drop _ _ _ _ => rfl
  | other hnot _ _ _ _ => exact absurd rfl (hnot w (.fail e))

/-- At the start every loop reads. -/
theorem phaseOf_init {srv : Server} {discovery : DiscoveryConfig} {enabled : Bool} {w : Worker}
    {p : Phase} (h : (init srv discovery enabled).phaseOf w = some p) : p = .reading := by
  cases w with
  | conn i => cases h
  | udp j =>
      obtain ⟨port, -, rfl⟩ := List.mem_map.mp (List.mem_of_getElem? h)
      rfl

theorem inFlight_init (srv : Server) (discovery : DiscoveryConfig) (enabled : Bool)
    (w : Worker) : (init srv discovery enabled).inFlight w = none := by
  refine Option.bind_eq_none_iff.mpr fun p hp => ?_
  rw [phaseOf_init hp]
  rfl

theorem requests_run {srv : Server} {discovery : DiscoveryConfig} {enabled : Bool}
    {tr : List (Transition.Step Engine Label Event)} {s : Engine}
    (h : Transition.Trace (step srv) (init srv discovery enabled) tr s) :
    s.StoreKeyed ∧ RequestsConsistent srv s := by
  refine (h.always (fun s => s.StoreKeyed ∧ RequestsConsistent srv s) ⟨?_, ?_⟩
    (fun _ _ _ _ hinv hs => requests_step hinv.1 hinv.2 hs)).1
  · simp [StoreKeyed, init]
  · intro w req hreq
    rw [inFlight_init] at hreq
    cases hreq

end Engine

end Servd
