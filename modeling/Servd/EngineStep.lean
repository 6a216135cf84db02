import Servd.Engine

/-!
Inversion of the engine's steps. `ConnStep` lists everything a step of a
connection's coroutine can do; `StepCase` sorts the labels by what they do to the
connections, the session registry and the connection counter. The invariants of
those are proved from these cases and never unfold the step function.
-/
namespace Servd.Engine

open Coroutine

inductive ConnStep (srv : Server) (s : Engine) (i : Nat) (c : Conn) :
    Act → Engine → List Event → Prop
  | frame (f : ClientFrame) (hp : c.phase = .reading) :
      ConnStep srv s i c (.frame f) (s.setConn i { c with phase := .loading f }) []
  | load (f : ClientFrame) (hp : c.phase = .loading f) :
      ConnStep srv s i c .load
        { s with
          store := (s.store.getOrCreate f.header.sessionId).2
          sessions := selectSession s.sessions c f.header.sessionId
          conns := s.conns.set i { c with
            currentSid := f.header.sessionId
            latest := some f.header.sessionId
            phase := .processing
              (.start srv f .tcp (s.store.getOrCreate f.header.sessionId).1) } } []
  | progress (a : Answer) (req req' : Request) (es : List RequestEvent)
      (hp : c.phase = .processing req) (ha : req.advance a = some (req', es)) :
      ConnStep srv s i c (.progress a) (s.setConn i { c with phase := .processing req' })
        (es.flatMap (streamEvents i c))
  | save (req : Request) (hp : c.phase = .processing req) (ht : req.task = .ret ()) :
      ConnStep srv s i c .save
        { s with
          store := s.store.save req.state.session
          conns := s.conns.set i { c with phase := .reading } } [.saved (.conn i) req]
  | leave (e : Exc) (hf : canFail c.phase e) (he : e.isStd) (hn : ¬ notifies srv c) :
      ConnStep srv s i c (.fail e)
        (finish srv { s with sessions := leaveSession s.sessions c } i c) [.closed c.fd]
  | notify (e : Exc) (hf : canFail c.phase e) (he : e.isStd) (hn : notifies srv c)
      (hpool : srv.threadPool) :
      ConnStep srv s i c (.fail e)
        { s with
          sessions := leaveSession s.sessions c
          conns := s.conns.set i { c with phase := .notifying } } []
  | noPool (e : Exc) (hf : canFail c.phase e) (he : e.isStd) (hn : notifies srv c)
      (hpool : ¬ srv.threadPool) :
      ConnStep srv s i c (.fail e)
        { s with
          sessions := leaveSession s.sessions c
          conns := s.conns.set i { c with phase := .ended } } []
  | escape (e : Exc) (hf : canFail c.phase e) (he : ¬ e.isStd) :
      ConnStep srv s i c (.fail e) (s.setConn i { c with phase := .ended }) []
  | notified (hp : c.phase = .notifying) :
      ConnStep srv s i c (.notified (.ok ())) (finish srv s i c) [.closed c.fd]
  | notifyFailed (e : Exc) (hp : c.phase = .notifying) :
      ConnStep srv s i c (.notified (.error e)) (s.setConn i { c with phase := .ended }) []

theorem connStep_cases {srv : Server} {s s' : Engine} {i : Nat} {c : Conn} {act : Act}
    {evs : List Event} (h : s.connStep srv i c act = some (s', evs)) :
    ConnStep srv s i c act s' evs := by
  cases act with
  | frame f =>
      cases hp : c.phase with
      | reading =>
          simp only [connStep, hp, Option.some.injEq, Prod.mk.injEq] at h
          obtain ⟨rfl, rfl⟩ := h
          exact .frame f hp
      | loading _ | processing _ | notifying | ended => simp [connStep, hp] at h
  | load =>
      cases hp : c.phase with
      | loading f =>
          simp only [connStep, hp, Option.some.injEq, Prod.mk.injEq] at h
          obtain ⟨rfl, rfl⟩ := h
          exact .load f hp
      | reading | processing _ | notifying | ended => simp [connStep, hp] at h
  | progress a =>
      cases hp : c.phase with
      | processing req =>
          simp only [connStep, hp, Option.map_eq_some_iff, Prod.exists, Prod.mk.injEq] at h
          obtain ⟨req', es, ha, rfl, rfl⟩ := h
          exact .progress a req req' es hp ha
      | reading | loading _ | notifying | ended => simp [connStep, hp] at h
  | save =>
      cases hp : c.phase with
      | processing req =>
          cases ht : req.task with
          | ret u =>
              simp only [connStep, hp, ht, Option.some.injEq, Prod.mk.injEq] at h
              obtain ⟨rfl, rfl⟩ := h
              exact .save req hp ht
          | throw _ | call _ _ => simp [connStep, hp, ht] at h
      | reading | loading _ | notifying | ended => simp [connStep, hp] at h
  | fail e =>
      simp only [connStep] at h
      split at h
      · rename_i hf
        split at h
        · rename_i he
          simp only [Option.some.injEq, teardown] at h
          split at h
          · rename_i hn
            split at h
            · rename_i hpool
              cases h
              exact .notify e hf he hn hpool
            · rename_i hpool
              cases h
              exact .noPool e hf he hn hpool
          · rename_i hn
            cases h
            exact .leave e hf he hn
        · rename_i he
          cases h
          exact .escape e hf he
      · cases h
  | notified result =>
      cases hp : c.phase with
      | notifying =>
          cases result with
          | ok u =>
              simp only [connStep, hp, Option.some.injEq, Prod.mk.injEq] at h
              obtain ⟨rfl, rfl⟩ := h
              exact .notified hp
          | error e =>
              simp only [connStep, hp, Option.some.injEq, Prod.mk.injEq] at h
              obtain ⟨rfl, rfl⟩ := h
              exact .notifyFailed e hp
      | reading | loading _ | processing _ | ended => simp [connStep, hp] at h

theorem isLive_of_canFail {c : Conn} {e : Exc} (h : canFail c.phase e = true) :
    c.isLive = true := by
  unfold Conn.isLive
  cases hp : c.phase with
  | reading | loading _ | processing _ => rfl
  | notifying | ended => simp [hp, canFail] at h

theorem hasEnded_of_isLive {c : Conn} (h : c.isLive = true) : c.hasEnded = false := by
  unfold Conn.hasEnded
  cases hp : c.phase with
  | reading | loading _ | processing _ | notifying => rfl
  | ended => simp [Conn.isLive, hp] at h

theorem hasEnded_of_canFail {c : Conn} {e : Exc} (h : canFail c.phase e = true) :
    c.hasEnded = false :=
  hasEnded_of_isLive (isLive_of_canFail h)

/-- A step of a connection keeps its descriptor and mode, closes the descriptor only when
the coroutine ends, and never takes an ended coroutine up again. -/
theorem ConnStep.conns_eq {srv : Server} {s s' : Engine} {i : Nat} {c : Conn} {act : Act}
    {evs : List Event} (h : ConnStep srv s i c act s' evs) :
    ∃ c' : Conn, s'.conns = s.conns.set i c' ∧ c'.fd = c.fd ∧ c'.mode = c.mode ∧
      c.closes ≤ c'.closes ∧ c.hasEnded = false ∧
      (c'.hasEnded = false → c'.closes = c.closes ∧ c'.decrements = c.decrements) := by
  cases h with
  | frame f hp | load f hp =>
      exact ⟨_, rfl, rfl, rfl, Nat.le_refl _, by simp [Conn.hasEnded, hp], fun _ => ⟨rfl, rfl⟩⟩
  | progress a req req' es hp ha =>
      exact ⟨_, rfl, rfl, rfl, Nat.le_refl _, by simp [Conn.hasEnded, hp], fun _ => ⟨rfl, rfl⟩⟩
  | save req hp ht =>
      exact ⟨_, rfl, rfl, rfl, Nat.le_refl _, by simp [Conn.hasEnded, hp], fun _ => ⟨rfl, rfl⟩⟩
  | leave e hf he hn =>
      exact ⟨_, rfl, rfl, rfl, Nat.le_succ _, hasEnded_of_canFail hf, fun h => by
        simp [Conn.hasEnded] at h⟩
  | notify e hf he hn hpool | noPool e hf he hn hpool =>
      exact ⟨_, rfl, rfl, rfl, Nat.le_refl _, hasEnded_of_canFail hf, fun _ => ⟨rfl, rfl⟩⟩
  | escape e hf he =>
      exact ⟨_, rfl, rfl, rfl, Nat.le_refl _, hasEnded_of_canFail hf, fun _ => ⟨rfl, rfl⟩⟩
  | notified hp =>
      exact ⟨_, rfl, rfl, rfl, Nat.le_succ _, by simp [Conn.hasEnded, hp], fun h => by
        simp [Conn.hasEnded] at h⟩
  | notifyFailed e hp =>
      exact ⟨_, rfl, rfl, rfl, Nat.le_refl _, by simp [Conn.hasEnded, hp], fun _ => ⟨rfl, rfl⟩⟩

def full (srv : Server) (s : Engine) : Prop :=
  0 < srv.maxClients ∧ srv.maxClients ≤ s.activeConnections

instance (srv : Server) (s : Engine) : Decidable (full srv s) :=
  inferInstanceAs (Decidable (_ ∧ _))

inductive StepCase (srv : Server) (s : Engine) : Label → Engine → List Event → Prop
  | accepted (mode : ProtocolMode) (fd : Fd) (hfd : ¬ s.descriptorOpen fd) (hroom : ¬ full srv s) :
      StepCase srv s (.accept mode fd)
        { s with
          conns := s.conns ++ [{ fd := fd, mode := mode }]
          activeConnections := s.activeConnections + 1 } []
  | rejected (mode : ProtocolMode) (fd : Fd) (hfd : ¬ s.descriptorOpen fd) (hfull : full srv s) :
      StepCase srv s (.accept mode fd)
        { s with
          discovery := { s.discovery with respondToClients := false }
          discoveryEnabled := false } [.closed fd]
  | conn {i : Nat} {c : Conn} {act : Act} {s' : Engine} {evs : List Event}
      (hc : s.conns[i]? = some c) (h : ConnStep srv s i c act s' evs) :
      StepCase srv s (.work (.conn i) act) s' evs
  | aside {a : Label} {s' : Engine} {evs : List Event} (hconns : s'.conns = s.conns)
      (hsessions : s'.sessions = s.sessions)
      (hactive : s'.activeConnections = s.activeConnections)
      (hnot : ∀ i act, a ≠ .work (.conn i) act) : StepCase srv s a s' evs

/-- What a step asks of the connection whose coroutine it resumes. -/
def OnConn (s : Engine) (P : Nat → Conn → Act → Prop) : Label → Prop
  | .work (.conn i) act => ∀ c ∈ s.conns[i]?, P i c act
  | .work (.udp _) _ | .accept _ _ | .sendTo _ _ _ | .broadcast _ _ _ _ | .resumeCast _ _
  | .app _ | .discoveryRequest _ _ | .announceTick => True

instance (s : Engine) (P : Nat → Conn → Act → Prop) [∀ i c act, Decidable (P i c act)] :
    (a : Label) → Decidable (s.OnConn P a)
  | .work (.conn i) act => inferInstanceAs (Decidable (∀ c ∈ s.conns[i]?, P i c act))
  | .work (.udp _) _ | .accept _ _ | .sendTo _ _ _ | .broadcast _ _ _ _ | .resumeCast _ _
  | .app _ | .discoveryRequest _ _ | .announceTick => inferInstanceAs (Decidable True)

theorem onConn_work {s : Engine} {P : Nat → Conn → Act → Prop} {i : Nat} {c : Conn} {act : Act}
    (hc : s.conns[i]? = some c) : s.OnConn P (.work (.conn i) act) ↔ P i c act := by
  simp [OnConn, hc]

theorem onConn_of_ne {s : Engine} {P : Nat → Conn → Act → Prop} {a : Label}
    (h : ∀ i act, a ≠ .work (.conn i) act) : s.OnConn P a := by
  cases a with
  | work w act =>
      cases w with
      | conn i => exact absurd rfl (h i act)
      | udp j => trivial
  | accept _ _ | sendTo _ _ _ | broadcast _ _ _ _ | resumeCast _ _ | app _
  | discoveryRequest _ _ | announceTick => trivial

theorem getElem?_snoc_eq_some {α : Type} {l : List α} {x y : α} {i : Nat} :
    (l ++ [x])[i]? = some y ↔ l[i]? = some y ∨ i = l.length ∧ y = x := by
  by_cases hi : i < l.length
  · simp [List.getElem?_append_left hi, Nat.ne_of_lt hi]
  · have hnone : l[i]? = none := List.getElem?_eq_none (Nat.le_of_not_lt hi)
    rw [List.getElem?_append_right (Nat.le_of_not_lt hi), List.getElem?_singleton, hnone]
    simp only [Option.ite_none_right_eq_some, Option.some.injEq, reduceCtorEq, false_or]
    constructor
    · intro h
      exact ⟨by omega, h.2.symm⟩
    · intro h
      exact ⟨by omega, h.2.symm⟩

theorem getElem?_conns_set {conns : List Conn} {i j : Nat} {c c' d : Conn}
    (hc : conns[i]? = some c) :
    (conns.set i c')[j]? = some d ↔ (j = i ∧ d = c') ∨ (j ≠ i ∧ conns[j]? = some d) := by
  have hi : i < conns.length := (List.getElem?_eq_some_iff.mp hc).1
  by_cases hij : j = i
  · subst hij
    simp [hi, eq_comm]
  · simp [hij, List.getElem?_set_ne (Ne.symm hij)]

inductive UdpStep (srv : Server) (s : Engine) (j : Nat) (p : Phase) :
    Act → Engine → List Event → Prop
  | frame (f : ClientFrame) (hp : p = .reading) :
      UdpStep srv s j p (.frame f) { s with udpLoops := s.udpLoops.set j (.loading f) } []
  | load (f : ClientFrame) (hp : p = .loading f) :
      UdpStep srv s j p .load
        { s with
          store := (s.store.getOrCreate f.header.sessionId).2
          udpLoops := s.udpLoops.set j (.processing
            (.start srv f .udp (s.store.getOrCreate f.header.sessionId).1)) } []
  | progress (a : Answer) (req req' : Request) (es : List RequestEvent)
      (hp : p = .processing req) (ha : req.advance a = some (req', es)) :
      UdpStep srv s j p (.progress a)
        { s with udpLoops := s.udpLoops.set j (.processing req') } (es.flatMap (datagramEvents j))
  | save (req : Request) (hp : p = .processing req) (ht : req.task = .ret ()) :
      UdpStep srv s j p .save
        { s with
          store := s.store.save req.state.session
          udpLoops := s.udpLoops.set j .reading } [.saved (.udp j) req]
  | fail (e : Exc) (hf : canFail p e) :
      UdpStep srv s j p (.fail e)
        { s with udpLoops := s.udpLoops.set j (if e.isStd then .reading else .ended) } []

theorem udpStep_cases {srv : Server} {s s' : Engine} {j : Nat} {p : Phase} {act : Act}
    {evs : List Event} (h : s.udpStep srv j p act = some (s', evs)) :
    UdpStep srv s j p act s' evs := by
  cases act with
  | frame f =>
      cases p with
      | reading =>
          simp only [udpStep, Option.some.injEq, Prod.mk.injEq] at h
          obtain ⟨rfl, rfl⟩ := h
          exact .frame f rfl
      | loading _ | processing _ | notifying | ended => simp [udpStep] at h
  | load =>
      cases p with
      | loading f =>
          simp only [udpStep, Option.some.injEq, Prod.mk.injEq] at h
          obtain ⟨rfl, rfl⟩ := h
          exact .load f rfl
      | reading | processing _ | notifying | ended => simp [udpStep] at h
  | progress a =>
      cases p with
      | processing req =>
          simp only [udpStep, Option.map_eq_some_iff, Prod.exists, Prod.mk.injEq] at h
          obtain ⟨req', es, ha, rfl, rfl⟩ := h
          exact .progress a req req' es rfl ha
      | reading | loading _ | notifying | ended => simp [udpStep] at h
  | save =>
      cases p with
      | processing req =>
          cases ht : req.task with
          | ret u =>
              simp only [udpStep, ht, Option.some.injEq, Prod.mk.injEq] at h
              obtain ⟨rfl, rfl⟩ := h
              exact .save req rfl ht
          | throw _ | call _ _ => simp [udpStep, ht] at h
      | reading | loading _ | notifying | ended => simp [udpStep] at h
  | fail e =>
      simp only [udpStep] at h
      split at h
      · rename_i hf
        cases h
        exact .fail e hf
      · cases h
  | notified _ => simp [udpStep] at h

inductive CastStep (s : Engine) (k : Nat) (b : Cast) :
    Except Exc Unit → Engine → List Event → Prop
  | thrown (e : Exc) (hst : b.stage ≠ .done) :
      CastStep s k b (.error e) { s with casts := s.casts.set k { b with stage := .done } } []
  | written (hst : b.stage = .writing) :
      CastStep s k b (.ok ()) { s with casts := s.casts.set k (s.nextCast k b).1 }
        (s.nextCast k b).2
  | fetched (entry : UInt64 × Fd) (rest : List (UInt64 × Fd)) (hst : b.stage = .fetching)
      (hr : b.rest = entry :: rest) :
      CastStep s k b (.ok ())
        { s with
          store := (s.store.getOrCreate entry.1).2
          casts := s.casts.set k
            { b with stage := .fetched (s.store.getOrCreate entry.1).1 } } []
  | chosen (session : Session) (entry : UInt64 × Fd) (rest : List (UInt64 × Fd))
      (hst : b.stage = .fetched session) (hr : b.rest = entry :: rest)
      (hall : b.predicate.all (· session) = true) :
      CastStep s k b (.ok ())
        { s with casts := s.casts.set k { b with rest := rest, stage := .writing } }
        (s.submit (.cast k) entry.1 entry.2 b.commandId b.payload)
  | skipped (session : Session) (entry : UInt64 × Fd) (rest : List (UInt64 × Fd))
      (hst : b.stage = .fetched session) (hr : b.rest = entry :: rest)
      (hall : ¬ b.predicate.all (· session) = true) :
      CastStep s k b (.ok ())
        { s with casts := s.casts.set k (s.nextCast k { b with rest := rest }).1 }
        (s.nextCast k { b with rest := rest }).2

theorem castStep_cases {s s' : Engine} {k : Nat} {b : Cast} {r : Except Exc Unit}
    {evs : List Event} (h : s.castStep k b r = some (s', evs)) : CastStep s k b r s' evs := by
  cases r with
  | error e =>
      simp only [castStep] at h
      split at h
      · cases h
      · rename_i hst
        cases h
        exact .thrown e hst
  | ok u =>
      obtain ⟨commandId, payload, predicate, rest, stage⟩ := b
      cases stage with
      | writing =>
          cases h
          exact .written rfl
      | done => cases rest <;> cases h
      | fetching =>
          cases rest with
          | nil => cases h
          | cons entry rest =>
              cases h
              exact .fetched entry rest rfl rfl
      | fetched session =>
          cases rest with
          | nil => cases h
          | cons entry rest =>
              simp only [castStep] at h
              split at h
              · rename_i hall
                cases h
                exact .chosen session entry rest rfl rfl hall
              · rename_i hall
                cases h
                exact .skipped session entry rest rfl rfl hall

/-- A broadcast reads the store and changes nothing but that and its own progress. -/
theorem castStep_form {s s' : Engine} {k : Nat} {b : Cast} {r : Except Exc Unit}
    {evs : List Event} (h : s.castStep k b r = some (s', evs)) :
    ∃ store casts, s' = { s with store := store, casts := casts } := by
  cases castStep_cases h <;> exact ⟨_, _, rfl⟩

theorem castStep_frame {s s' : Engine} {k : Nat} {b : Cast} {r : Except Exc Unit}
    {evs : List Event} (h : s.castStep k b r = some (s', evs)) :
    s'.conns = s.conns ∧ s'.udpLoops = s.udpLoops ∧ s'.sessions = s.sessions ∧
      s'.activeConnections = s.activeConnections := by
  obtain ⟨store, casts, rfl⟩ := castStep_form h
  exact ⟨rfl, rfl, rfl, rfl⟩

def withSettings (s t : Engine) : Engine :=
  { s with
    discovery := t.discovery
    discoveryEnabled := t.discoveryEnabled
    discoveryLoop := t.discoveryLoop }

/-- The form of every step, by the coroutine that takes it. -/
inductive StepForm (srv : Server) (s : Engine) : Label → Engine → List Event → Prop
  | accepted (mode : ProtocolMode) (fd : Fd) (hfd : ¬ s.descriptorOpen fd) (hroom : ¬ full srv s) :
      StepForm srv s (.accept mode fd)
        { s with
          conns := s.conns ++ [{ fd := fd, mode := mode }]
          activeConnections := s.activeConnections + 1 } []
  | rejected (mode : ProtocolMode) (fd : Fd) (hfd : ¬ s.descriptorOpen fd) (hfull : full srv s) :
      StepForm srv s (.accept mode fd)
        { s with
          discovery := { s.discovery with respondToClients := false }
          discoveryEnabled := false } [.closed fd]
  | conn {i : Nat} {c : Conn} {act : Act} {s' : Engine} {evs : List Event}
      (hc : s.conns[i]? = some c) (h : ConnStep srv s i c act s' evs) :
      StepForm srv s (.work (.conn i) act) s' evs
  | udp {j : Nat} {p : Phase} {act : Act} {s' : Engine} {evs : List Event}
      (hp : s.udpLoops[j]? = some p) (h : UdpStep srv s j p act s' evs) :
      StepForm srv s (.work (.udp j) act) s' evs
  | sentTo (sid : UInt64) (commandId : UInt16) (payload : Bytes) :
      StepForm srv s (.sendTo sid commandId payload) s
        (((s.sessions.lookup sid).map fun fd => s.submit .sendTo sid fd commandId payload).getD [])
  | castStarted (commandId : UInt16) (payload : Bytes) (predicate : Option (Session → Bool))
      (order : List (UInt64 × Fd)) (hperm : order.Perm s.sessions.pairs) :
      StepForm srv s (.broadcast commandId payload predicate order)
        { s with casts := s.casts ++
          [(s.nextCast s.casts.length ⟨commandId, payload, predicate, order, .writing⟩).1] }
        (s.nextCast s.casts.length ⟨commandId, payload, predicate, order, .writing⟩).2
  | castResumed {k : Nat} {b : Cast} {r : Except Exc Unit} {s' : Engine} {evs : List Event}
      (hb : s.casts[k]? = some b) (h : s.castStep k b r = some (s', evs)) :
      StepForm srv s (.resumeCast k r) s' evs
  | settings {a : Label} {evs : List Event} (t : Engine) (hquiet : ∀ e ∈ evs, e.isDiscovery)
      (ha : (∃ call, a = .app call) ∨ (∃ client req, a = .discoveryRequest client req) ∨
        a = .announceTick) : StepForm srv s a (s.withSettings t) evs

theorem step_form {srv : Server} {s s' : Engine} {a : Label} {evs : List Event}
    (h : s.step srv a = some (s', evs)) : StepForm srv s a s' evs := by
  cases a with
  | accept mode fd =>
      simp only [step] at h
      split at h
      · cases h
      · rename_i hfd
        split at h
        · rename_i hfull
          cases h
          exact .rejected mode fd hfd hfull
        · rename_i hroom
          cases h
          exact .accepted mode fd hfd hroom
  | work w act =>
      cases w with
      | conn i =>
          simp only [step, Option.bind_eq_some_iff] at h
          obtain ⟨c, hc, h⟩ := h
          exact .conn hc (connStep_cases h)
      | udp j =>
          simp only [step, Option.bind_eq_some_iff] at h
          obtain ⟨p, hp, h⟩ := h
          exact .udp hp (udpStep_cases h)
  | sendTo sid commandId payload =>
      have hform : StepForm srv s (.sendTo sid commandId payload) s _ :=
        .sentTo sid commandId payload
      simp only [step] at h
      split at h
      · rename_i hl
        rw [hl] at hform
        cases h
        exact hform
      · rename_i fd hl
        rw [hl] at hform
        cases h
        exact hform
  | broadcast commandId payload predicate order =>
      simp only [step] at h
      split at h
      · rename_i hperm
        cases h
        exact .castStarted commandId payload predicate order hperm
      · cases h
  | resumeCast k result =>
      simp only [step, Option.bind_eq_some_iff] at h
      obtain ⟨b, hb, h⟩ := h
      exact .castResumed hb h
  | app call =>
      simp only [step, Option.some.injEq, Prod.mk.injEq] at h
      obtain ⟨rfl, rfl⟩ := h
      have hset : s.appStep call = s.withSettings (s.appStep call) := by cases call <;> rfl
      rw [hset]
      exact .settings (s.appStep call) (by simp) (.inl ⟨call, rfl⟩)
  | discoveryRequest client req =>
      have ha : (∃ call, Label.discoveryRequest client req = .app call) ∨
          (∃ c r, Label.discoveryRequest client req = .discoveryRequest c r) ∨
          Label.discoveryRequest client req = .announceTick := .inr (.inl ⟨_, _, rfl⟩)
      simp only [step] at h
      split at h
      · simp only [Option.some.injEq, discoveryStep] at h
        split at h
        · cases h
          exact .settings s (by simp) ha
        · split at h
          · cases h
            exact .settings s (by simp [Event.isDiscovery]) ha
          · split at h
            · cases h
              exact .settings s (by simp [Event.isDiscovery]) ha
            · cases h
              exact .settings s (by simp) ha
            · cases h
              exact .settings { s with discoveryLoop := false } (by simp) ha
      · cases h
  | announceTick =>
      simp only [step] at h
      split at h
      · split at h <;> cases h <;> exact .settings s (by simp [Event.isDiscovery]) (.inr (.inr rfl))
      · cases h

/-- The steps sorted by what they do to the connections, the registry and the counter. -/
theorem step_cases {srv : Server} {s s' : Engine} {a : Label} {evs : List Event}
    (h : s.step srv a = some (s', evs)) : StepCase srv s a s' evs := by
  cases step_form h with
  | accepted mode fd hfd hroom => exact .accepted mode fd hfd hroom
  | rejected mode fd hfd hfull => exact .rejected mode fd hfd hfull
  | conn hc h => exact .conn hc h
  | udp hp h => cases h <;> exact .aside rfl rfl rfl (by simp)
  | sentTo _ _ _ => exact .aside rfl rfl rfl (by simp)
  | castStarted _ _ _ _ _ => exact .aside rfl rfl rfl (by simp)
  | castResumed hb h =>
      obtain ⟨hconns, -, hsessions, hactive⟩ := castStep_frame h
      exact .aside hconns hsessions hactive (by simp)
  | settings t hquiet ha =>
      refine .aside rfl rfl rfl ?_
      rintro i act rfl
      simp at ha

/-- A property of single connections that a new one has and no step of a coroutine breaks. -/
theorem forall_conns_step {srv : Server} {s s' : Engine} {a : Label} {evs : List Event}
    {P : Conn → Prop} (h : ∀ c ∈ s.conns, P c)
    (hnew : ∀ mode fd, P { fd := fd, mode := mode })
    (hconn : ∀ i c act s' evs, P c → ConnStep srv s i c act s' evs →
      ∃ c', s'.conns = s.conns.set i c' ∧ P c') (hs : s.step srv a = some (s', evs)) :
    ∀ c ∈ s'.conns, P c := by
  cases step_cases hs with
  | accepted mode fd hfd hroom =>
      intro c hc
      cases List.mem_append.mp hc with
      | inl hc => exact h c hc
      | inr hc => exact List.mem_singleton.mp hc ▸ hnew mode fd
  | rejected mode fd hfd hfull => exact h
  | aside hconns _ _ _ =>
      rw [hconns]
      exact h
  | @conn i c act _ _ hc hstep =>
      obtain ⟨c', hconns, hc'⟩ := hconn i c act s' evs (h c (List.mem_of_getElem? hc)) hstep
      intro d hd
      rw [hconns] at hd
      cases List.mem_or_eq_of_mem_set hd with
      | inl hd => exact h d hd
      | inr hd => exact hd ▸ hc'

end Servd.Engine
