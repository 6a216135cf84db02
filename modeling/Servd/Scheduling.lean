import Servd.LifeCycle
import Servd.StepEffects

/-!
The coroutines as whole runs, against the engine that interleaves them. In a run of the
engine the steps of a connection stand between those of all other coroutines. Taken
together they have the effects that `handleClient` or `textHandleClient` has on what this
one connection was given, and the steps of a UDP socket those of `startUdpLoop`.
-/
namespace Servd

open Coroutine Transition

namespace Request

/-- What the request was given, as the turn of a loop. -/
def arrival (req : Request) (saved : Except Exc Unit) : Arrival where
  frame := req.frame
  loaded := .ok req.loaded
  answers n := req.answers.getD n {}
  saved := saved

/-- The effects of the turn so far. -/
def effects (req : Request) (select : List Effect) : List Effect :=
  .loaded req.frame.header.sessionId :: select ++ .dispatched req.frame ::
    req.events.map .request

section Turn

variable {srv : Server} {transport : TransportType} {req : Request}

theorem processed_arrival (h : req.Consistent srv transport) (saved : Except Exc Unit) :
    ∃ rest, (req.arrival saved).processed srv transport req.loaded =
      (⟨req.state, rest.result, req.events, req.answers.length⟩ :
        Execution RequestState Exc Unit RequestEvent).andThen rest ∧
      ∀ r, req.task = .ofResult r → rest = ⟨req.state, r, [], 0⟩ := by
  refine ⟨_, exec_of_resume h.run fun n a ha => ?_, ?_⟩
  · simp [arrival, List.getD, ha]
  · intro r hr
    rw [hr]
    cases r <;> rfl

theorem processed_of_result (h : req.Consistent srv transport) {r : Except Exc Unit}
    (hr : req.task = .ofResult r) (saved : Except Exc Unit) :
    (req.arrival saved).processed srv transport req.loaded =
      ⟨req.state, r, req.events, req.answers.length⟩ := by
  obtain ⟨rest, hprocessed, hrest⟩ := processed_arrival h saved
  rw [hprocessed, hrest r hr]
  simp [Execution.andThen]

theorem serve_of_ret (h : req.Consistent srv transport) (hr : req.task = .ret ())
    (saved : Except Exc Unit) (select : List Effect) :
    (req.arrival saved).serve srv transport select =
      (req.effects select ++ [.saved req.state.session], saved) := by
  have hprocessed : (req.arrival saved).processed srv transport req.loaded = _ :=
    processed_of_result h (r := .ok ()) hr saved
  simp only [Arrival.serve, show (req.arrival saved).loaded = .ok req.loaded from rfl, hprocessed]
  rfl

theorem serve_of_throw (h : req.Consistent srv transport) {e : Exc} (hr : req.task = .throw e)
    (saved : Except Exc Unit) (select : List Effect) :
    (req.arrival saved).serve srv transport select = (req.effects select, .error e) := by
  have hprocessed : (req.arrival saved).processed srv transport req.loaded = _ :=
    processed_of_result h (r := .error e) hr saved
  simp only [Arrival.serve, show (req.arrival saved).loaded = .ok req.loaded from rfl, hprocessed]
  rfl

/-- What a request has done so far is the beginning of its turn. -/
theorem effects_isPrefix (h : req.Consistent srv transport) (saved : Except Exc Unit)
    (select : List Effect) :
    req.effects select <+: ((req.arrival saved).serve srv transport select).1 := by
  obtain ⟨rest, hprocessed, -⟩ := processed_arrival h saved
  simp only [Arrival.serve, show (req.arrival saved).loaded = .ok req.loaded from rfl, hprocessed,
    Execution.andThen, List.map_append]
  cases rest.result with
  | error e => exact ⟨rest.events.map .request, by simp [effects, Arrival.sessionId, arrival]⟩
  | ok _ =>
      exact ⟨rest.events.map .request ++ [.saved rest.state.session],
        by simp [effects, Arrival.sessionId, arrival]⟩

end Turn

end Request

section Loop

variable {srv : Server} {arrivals : List Arrival} {es : List Effect}

/-- After turns that all end normally the loop goes on with the next frames. -/
theorem clientLoop_append (hok : ∀ a ∈ arrivals, a.outcome srv .tcp = .ok ()) {sid sid' : UInt64}
    (h : clientLoop srv sid arrivals = (es, some sid')) (later : List Arrival) :
    clientLoop srv sid (arrivals ++ later) =
      (es ++ (clientLoop srv sid' later).1, (clientLoop srv sid' later).2) := by
  induction arrivals generalizing sid es with
  | nil =>
      cases h
      rfl
  | cons a arrivals ih =>
      simp only [clientLoop, Arrival.serve_snd, hok a (by simp), Prod.mk.injEq] at h
      have hrest := ih (fun b hb => hok b (by simp [hb])) (Prod.ext rfl h.2)
      simp only [List.cons_append, clientLoop, Arrival.serve_snd, hok a (by simp), hrest, ← h.1,
        List.append_assoc]

theorem clientLoop_singleton (sid : UInt64) (a : Arrival) :
    (clientLoop srv sid [a]).1 = (a.serve srv .tcp (selectEffects sid a.sessionId)).1 := by
  simp only [clientLoop]
  cases (a.serve srv .tcp (selectEffects sid a.sessionId)).2 with
  | ok _ => exact List.append_nil _
  | error e => cases e <;> rfl

/-- The frames were served one after the other, each to the end of its turn. -/
structure Looped (srv : Server) (arrivals : List Arrival) (sid : UInt64) (es : List Effect) :
    Prop where
  ok : ∀ a ∈ arrivals, a.outcome srv .tcp = .ok ()
  loop : clientLoop srv noSession arrivals = (es, some sid)

theorem Looped.nil (srv : Server) : Looped srv [] noSession [] :=
  ⟨by simp, rfl⟩

section Last

variable {sid : UInt64} (h : Looped srv arrivals sid es) {a : Arrival} {turn : List Effect}

include h

theorem Looped.snoc (hserve : a.serve srv .tcp (selectEffects sid a.sessionId) = (turn, .ok ())) :
    Looped srv (arrivals ++ [a]) (a.currentSid sid) (es ++ turn) := by
  have hok : a.outcome srv .tcp = .ok () := by rw [← Arrival.serve_snd, hserve]
  refine ⟨?_, ?_⟩
  · intro b hb
    cases List.mem_append.mp hb with
    | inl hb => exact h.ok b hb
    | inr hb => exact List.mem_singleton.mp hb ▸ hok
  · rw [clientLoop_append h.ok h.loop]
    simp [clientLoop, hserve]

theorem Looped.stop {e : Exc}
    (hserve : a.serve srv .tcp (selectEffects sid a.sessionId) = (turn, .error e)) :
    clientLoop srv noSession (arrivals ++ [a]) =
      (es ++ turn, if e.isStd then some (a.currentSid sid) else none) := by
  rw [clientLoop_append h.ok h.loop]
  cases e <;> simp [clientLoop, hserve, Exc.isStd]

end Last

/-- The datagrams were served one after the other, and none has ended the loop. -/
structure UdpLooped (srv : Server) (arrivals : List Arrival) (es : List Effect) : Prop where
  caught : ∀ a ∈ arrivals, a.outcome srv .udp ≠ .error .other
  loop : startUdpLoop srv arrivals = es

theorem startUdpLoop_append (hcaught : ∀ a ∈ arrivals, a.outcome srv .udp ≠ .error .other)
    (later : List Arrival) :
    startUdpLoop srv (arrivals ++ later) = startUdpLoop srv arrivals ++ startUdpLoop srv later := by
  induction arrivals with
  | nil => rfl
  | cons a arrivals ih =>
      have hrest := ih fun b hb => hcaught b (by simp [hb])
      have ha := hcaught a (by simp)
      simp only [List.cons_append, startUdpLoop, Arrival.serve_snd, hrest]
      cases hout : a.outcome srv .udp with
      | ok _ => exact (List.append_assoc _ _ _).symm
      | error e =>
          cases e with
          | std what => exact (List.append_assoc _ _ _).symm
          | other => exact absurd hout ha

theorem UdpLooped.stop (h : UdpLooped srv arrivals es) (a : Arrival) :
    startUdpLoop srv (arrivals ++ [a]) = es ++ (a.serve srv .udp []).1 := by
  rw [startUdpLoop_append h.caught, h.loop]
  simp only [startUdpLoop]
  cases (a.serve srv .udp []).2 with
  | ok _ => simp
  | error e => cases e <;> simp

theorem UdpLooped.snoc (h : UdpLooped srv arrivals es) {a : Arrival}
    (ha : a.outcome srv .udp ≠ .error .other) :
    UdpLooped srv (arrivals ++ [a]) (es ++ (a.serve srv .udp []).1) := by
  refine ⟨?_, h.stop a⟩
  intro b hb
  cases List.mem_append.mp hb with
  | inl hb => exact h.caught b hb
  | inr hb => exact List.mem_singleton.mp hb ▸ ha

end Loop

namespace Engine

/-- The effects of a connection so far, by the phase of its coroutine. -/
def ConnServed (srv : Server) (c : Conn) (es : List Effect) : Prop :=
  match c.phase with
  | .reading | .loading _ =>
      ∃ arrivals loop, Looped srv arrivals c.currentSid loop ∧ es = .counted :: loop
  | .processing req =>
      c.currentSid = req.frame.header.sessionId ∧
        ∃ arrivals sid loop, Looped srv arrivals sid loop ∧
          es = .counted :: loop ++ req.effects (selectEffects sid req.frame.header.sessionId)
  | .notifying =>
      notifies srv c ∧ srv.threadPool ∧
        ∃ arrivals loop, clientLoop srv noSession arrivals = (loop, some c.currentSid) ∧
          es = .counted :: loop ++ leaveEffects c.currentSid
  | .ended => ∃ script, es = serveStream c.mode srv script

section Conn

variable {srv : Server} {s s' : Engine} {i : Nat} {c : Conn} {act : Act} {evs : List Event}
  {es : List Effect}

section Stream

variable {script : ClientScript} {loop : List Effect}

theorem serveStream_of_escape (mode : ProtocolMode)
    (h : clientLoop srv noSession script.arrivals = (loop, none)) :
    serveStream mode srv script = .counted :: loop := by
  cases mode <;> simp [serveStream, handleClient, textHandleClient, h]

variable (h : clientLoop srv noSession script.arrivals = (loop, some c.currentSid))

include h

theorem serveStream_of_notifies (hn : notifies srv c) :
    serveStream c.mode srv script = .counted :: loop ++ leaveEffects c.currentSid ++
      if srv.threadPool then
        .disconnected c.currentSid ::
          if script.notified.toBool then closeEffects srv script else []
      else [] := by
  have hcalled : srv.disconnectHandler = true ∧ c.currentSid ≠ noSession := hn.2
  rw [hn.1]
  simp only [serveStream, handleClient, h, if_pos hcalled, List.cons_append, List.append_assoc]
  cases script.notified <;> rfl

theorem serveStream_of_not_notifies (hn : ¬ notifies srv c) :
    serveStream c.mode srv script =
      .counted :: loop ++ leaveEffects c.currentSid ++ closeEffects srv script := by
  cases hmode : c.mode with
  | text => simp [serveStream, textHandleClient, h]
  | binary =>
      have hcalled : ¬ (srv.disconnectHandler = true ∧ c.currentSid ≠ noSession) :=
        fun hcalled => hn ⟨hmode, hcalled⟩
      simp [serveStream, handleClient, h, if_neg hcalled]

end Stream

/-- An exception ends the loop, and the turn it comes from is the last one. -/
theorem ConnServed.stop (h : ConnServed srv c es)
    (hr : ∀ req, c.phase = .processing req → req.Consistent srv .tcp) {e : Exc}
    (hf : canFail c.phase e = true) :
    ∃ arrivals loop, es ++ failedCall c.phase = .counted :: loop ∧
      clientLoop srv noSession arrivals = (loop, if e.isStd then some c.currentSid else none) := by
  cases hp : c.phase with
  | reading =>
      simp only [ConnServed, hp] at h
      obtain ⟨arrivals, loop, hloop, rfl⟩ := h
      have hstd : e.isStd = true := by simpa [canFail, hp] using hf
      refine ⟨arrivals, loop, List.append_nil _, ?_⟩
      rw [hloop.loop, if_pos hstd]
  | loading f =>
      simp only [ConnServed, hp] at h
      obtain ⟨arrivals, loop, hloop, rfl⟩ := h
      exact ⟨_, _, rfl, hloop.stop (a := { frame := f, loaded := .error e }) rfl⟩
  | processing req =>
      simp only [ConnServed, hp] at h
      obtain ⟨hsid, arrivals, sid, loop, hloop, rfl⟩ := h
      rw [hsid]
      cases ht : req.task with
      | call o k => simp [canFail, hp, ht] at hf
      | ret u =>
          -- it is `save` that throws
          have hlast := hloop.stop (Request.serve_of_ret (hr req hp) ht (.error e) _)
          exact ⟨_, _, by simp [failedCall, ht, Arrival.sessionId, Request.arrival], hlast⟩
      | throw e' =>
          have he : e' = e := by simpa [canFail, hp, ht] using hf
          subst he
          have hlast := hloop.stop (Request.serve_of_throw (hr req hp) ht (.ok ()) _)
          exact ⟨_, _, by simp [failedCall, ht, Arrival.sessionId, Request.arrival], hlast⟩
  | notifying | ended => simp [hp, canFail] at hf

/-- A step of the coroutine adds its effects. -/
theorem ConnServed.step (h : ConnServed srv c es)
    (hr : ∀ req, c.phase = .processing req → req.Consistent srv .tcp)
    (hstep : ConnStep srv s i c act s' evs) :
    ∃ c', s'.conns = s.conns.set i c' ∧ ConnServed srv c' (es ++ connEffects srv s c act) := by
  cases hstep with
  | frame f hp =>
      simp only [ConnServed, hp] at h
      obtain ⟨arrivals, loop, hloop, rfl⟩ := h
      refine ⟨_, rfl, arrivals, loop, hloop, ?_⟩
      rw [connEffects_frame srv s hp, List.append_nil]
  | load f hp =>
      simp only [ConnServed, hp] at h
      obtain ⟨arrivals, loop, hloop, rfl⟩ := h
      refine ⟨_, rfl, rfl, arrivals, c.currentSid, loop, hloop, ?_⟩
      rw [connEffects_load srv s hp]
      rfl
  | progress a req req' es' hp ha =>
      simp only [ConnServed, hp] at h
      obtain ⟨hsid, arrivals, sid, loop, hloop, rfl⟩ := h
      obtain ⟨state, task, -, rfl⟩ := Request.advance_eq_some.mp ha
      refine ⟨_, rfl, hsid, arrivals, sid, loop, hloop, ?_⟩
      rw [connEffects_progress srv s hp ha]
      simp [Request.effects]
  | save req hp ht =>
      simp only [ConnServed, hp] at h
      obtain ⟨hsid, arrivals, sid, loop, hloop, rfl⟩ := h
      have hturn := hloop.snoc (Request.serve_of_ret (hr req hp) ht (.ok ()) _)
      have hcurrent : (req.arrival (.ok ())).currentSid sid = c.currentSid := hsid.symm
      rw [hcurrent] at hturn
      refine ⟨_, rfl, _, _, hturn, ?_⟩
      rw [connEffects_save srv s hp]
      simp [Arrival.sessionId, Request.arrival]
  | leave e hf he hn =>
      obtain ⟨arrivals, loop, hes, hloop⟩ := h.stop hr hf
      rw [if_pos he] at hloop
      let script : ClientScript :=
        ⟨arrivals, .ok (), s.activeConnections, s.discovery.respondToClients⟩
      have hend : closeEffects srv script = endEffects srv s := rfl
      refine ⟨_, rfl, script, ?_⟩
      rw [@serveStream_of_not_notifies srv c script _ hloop hn, hend, ← hes,
        connEffects_leave srv s he hn]
      simp only [List.append_assoc]
  | notify e hf he hn hpool =>
      obtain ⟨arrivals, loop, hes, hloop⟩ := h.stop hr hf
      rw [if_pos he] at hloop
      refine ⟨_, rfl, hn, hpool, arrivals, loop, hloop, ?_⟩
      rw [connEffects_notify srv s he hn, ← hes, List.append_assoc]
  | noPool e hf he hn hpool =>
      obtain ⟨arrivals, loop, hes, hloop⟩ := h.stop hr hf
      rw [if_pos he] at hloop
      refine ⟨_, rfl, { arrivals := arrivals }, ?_⟩
      rw [@serveStream_of_notifies srv c { arrivals := arrivals } _ hloop hn, if_neg hpool, ← hes,
        connEffects_notify srv s he hn, List.append_nil, List.append_assoc]
  | escape e hf he =>
      obtain ⟨arrivals, loop, hes, hloop⟩ := h.stop hr hf
      rw [if_neg he] at hloop
      refine ⟨_, rfl, { arrivals := arrivals }, ?_⟩
      rw [@serveStream_of_escape srv { arrivals := arrivals } _ _ hloop, ← hes,
        connEffects_escape srv s he]
  | notified hp =>
      simp only [ConnServed, hp] at h
      obtain ⟨hn, hpool, arrivals, loop, hloop, rfl⟩ := h
      let script : ClientScript :=
        ⟨arrivals, .ok (), s.activeConnections, s.discovery.respondToClients⟩
      have hend : closeEffects srv script = endEffects srv s := rfl
      refine ⟨_, rfl, script, ?_⟩
      rw [@serveStream_of_notifies srv c script _ hloop hn, if_pos hpool, hend,
        connEffects_notified]
      rfl
  | notifyFailed e hp =>
      simp only [ConnServed, hp] at h
      obtain ⟨hn, hpool, arrivals, loop, hloop, rfl⟩ := h
      let script : ClientScript := { arrivals := arrivals, notified := .error e }
      refine ⟨_, rfl, script, ?_⟩
      rw [@serveStream_of_notifies srv c script _ hloop hn, if_pos hpool,
        connEffects_notifyFailed]
      rfl

end Conn

/-- The effects of a step that are those of the connection. -/
def stepEffects (srv : Server) (i : Nat) (s : Engine) : Label → List Effect
  | .accept _ _ => if s.conns.length = i ∧ ¬ full srv s then [.counted] else []
  | .work (.conn j) act =>
      if j = i then s.conns[i]?.elim [] fun c => connEffects srv s c act else []
  | .work (.udp _) _ | .sendTo _ _ _ | .broadcast _ _ _ _ | .resumeCast _ _ | .app _
  | .discoveryRequest _ _ | .announceTick => []

/-- The effects of the connection in a run. -/
def effectsOf (srv : Server) (i : Nat) (tr : List (Step Engine Label Event)) : List Effect :=
  tr.flatMap fun x => stepEffects srv i x.pre x.label

section Run

variable {srv : Server} {discovery : DiscoveryConfig} {enabled : Bool} {s s' : Engine}
  {tr : List (Step Engine Label Event)} {a : Label} {evs : List Event}

/-- Every connection was served as its coroutine does it, and the next ones have not begun. -/
structure ConnsServed (srv : Server) (conns : List Conn) (effects : Nat → List Effect) :
    Prop where
  served : ∀ i c, conns[i]? = some c → ConnServed srv c (effects i)
  fresh : ∀ i, conns.length ≤ i → effects i = []

theorem ConnsServed.step {effects : Nat → List Effect} (h : ConnsServed srv s.conns effects)
    (hr : RequestsConsistent srv s) (hs : s.step srv a = some (s', evs)) :
    ConnsServed srv s'.conns fun i => effects i ++ stepEffects srv i s a := by
  have hquiet : ConnsServed srv s.conns fun i => effects i ++ [] := by simpa using h
  cases step_form hs with
  | accepted mode fd hfd hroom =>
      have hold : ∀ i, i ≠ s.conns.length → stepEffects srv i s (.accept mode fd) = [] :=
        fun i hi => if_neg fun hnew => hi hnew.1.symm
      refine ⟨?_, ?_⟩
      · intro i c hc
        cases getElem?_snoc_eq_some.mp hc with
        | inl hc =>
            rw [hold i (Nat.ne_of_lt (List.getElem?_eq_some_iff.mp hc).1), List.append_nil]
            exact h.served i c hc
        | inr hnew =>
            obtain ⟨rfl, rfl⟩ := hnew
            have hcounted : stepEffects srv s.conns.length s (.accept mode fd) = [.counted] :=
              if_pos ⟨rfl, hroom⟩
            rw [h.fresh _ (Nat.le_refl _), hcounted]
            exact ⟨[], [], Looped.nil srv, rfl⟩
      · intro i hi
        rw [List.length_append, List.length_singleton] at hi
        rw [hold i (by omega), h.fresh i (by omega)]
        rfl
  | rejected mode fd hfd hfull =>
      have hnone : ∀ i, stepEffects srv i s (.accept mode fd) = [] :=
        fun i => if_neg fun hnew => hnew.2 hfull
      simp only [hnone]
      exact hquiet
  | @conn j c act _ _ hc hstep =>
      obtain ⟨c', hconns, hserved⟩ := (h.served j c hc).step
        (fun req hp => hr (.conn j) req (by simp [inFlight, phaseOf, hc, hp, Phase.request])) hstep
      have hothers : ∀ i, i ≠ j → stepEffects srv i s (.work (.conn j) act) = [] :=
        fun i hi => if_neg fun hj => hi hj.symm
      have hown : stepEffects srv j s (.work (.conn j) act) = connEffects srv s c act := by
        simp [stepEffects, hc]
      refine ⟨?_, ?_⟩
      · intro i d hd
        rw [hconns] at hd
        cases (getElem?_conns_set hc).mp hd with
        | inl hself =>
            obtain ⟨rfl, rfl⟩ := hself
            rw [hown]
            exact hserved
        | inr hother =>
            rw [hothers i hother.1, List.append_nil]
            exact h.served i d hother.2
      · intro i hi
        rw [hconns, List.length_set] at hi
        have hij : i ≠ j := by
          rintro rfl
          rw [List.getElem?_eq_none hi] at hc
          cases hc
        rw [hothers i hij, h.fresh i hi]
        rfl
  | udp hp hstep => cases hstep <;> exact hquiet
  | sentTo _ _ _ | castStarted _ _ _ _ _ => exact hquiet
  | castResumed hb hstep =>
      rw [(castStep_frame hstep).1]
      exact hquiet
  | settings t _ ha =>
      rcases ha with ⟨call, rfl⟩ | ⟨client, req, rfl⟩ | rfl <;> exact hquiet

theorem connsServed_run (h : Trace (step srv) (init srv discovery enabled) tr s) :
    ConnsServed srv s.conns fun i => effectsOf srv i tr := by
  induction h with
  | nil => exact ⟨by simp [init], fun _ _ => rfl⟩
  | snoc htr hs ih =>
      simp only [effectsOf, List.flatMap_append, List.flatMap_singleton]
      exact ih.step (requests_run htr).2 hs

variable {i : Nat} {c : Conn}

/-- What a connection has done so far is the beginning of what its coroutine does on some frames
and answers. -/
theorem effectsOf_isPrefix (h : Trace (step srv) (init srv discovery enabled) tr s)
    (hc : s.conns[i]? = some c) :
    ∃ script, effectsOf srv i tr <+: serveStream c.mode srv script := by
  have hserved := (connsServed_run h).served i c hc
  cases hp : c.phase with
  | reading | loading f =>
      simp only [ConnServed, hp] at hserved
      obtain ⟨arrivals, loop, hloop, hes⟩ := hserved
      obtain ⟨tail, hsplit, -⟩ := serveStream_split c.mode srv { arrivals := arrivals }
      refine ⟨{ arrivals := arrivals }, ?_⟩
      rw [hes, hsplit, hloop.loop]
      exact List.prefix_append _ _
  | processing req =>
      simp only [ConnServed, hp] at hserved
      obtain ⟨-, arrivals, sid, loop, hloop, hes⟩ := hserved
      have hconsistent := (requests_run h).2 (.conn i) req
        (by simp [inFlight, phaseOf, hc, hp, Phase.request])
      let script : ClientScript := { arrivals := arrivals ++ [req.arrival (.ok ())] }
      obtain ⟨tail, hsplit, -⟩ := serveStream_split c.mode srv script
      have hturn := Request.effects_isPrefix hconsistent (.ok ())
        (selectEffects sid req.frame.header.sessionId)
      refine ⟨script, ?_⟩
      rw [hes, hsplit, clientLoop_append hloop.ok hloop.loop, clientLoop_singleton]
      exact ((List.prefix_append_right_inj (.counted :: loop)).mpr hturn).trans
        (List.prefix_append _ _)
  | notifying =>
      simp only [ConnServed, hp] at hserved
      obtain ⟨hn, -, arrivals, loop, hloop, hes⟩ := hserved
      refine ⟨{ arrivals := arrivals }, ?_⟩
      rw [hes, @serveStream_of_notifies srv c { arrivals := arrivals } _ hloop hn]
      exact List.prefix_append _ _
  | ended =>
      simp only [ConnServed, hp] at hserved
      obtain ⟨script, hes⟩ := hserved
      exact ⟨script, hes ▸ List.prefix_rfl⟩

/-- However its steps were interleaved with those of the others, a connection that has come to its
end has done what its coroutine does on the frames and the answers it was given. -/
theorem effectsOf_ended (h : Trace (step srv) (init srv discovery enabled) tr s)
    (hc : s.conns[i]? = some c) (hended : c.phase = .ended) :
    ∃ script, effectsOf srv i tr = serveStream c.mode srv script := by
  have hserved := (connsServed_run h).served i c hc
  simpa only [ConnServed, hended] using hserved

end Run

/-- The effects of a step that are those of the UDP socket. -/
def datagramEffects (j : Nat) (s : Engine) : Label → List Effect
  | .work (.udp k) act =>
      if k = j then s.udpLoops[j]?.elim [] fun p => turnEffects (fun _ => []) p act else []
  | .work (.conn _) _ | .accept _ _ | .sendTo _ _ _ | .broadcast _ _ _ _ | .resumeCast _ _
  | .app _ | .discoveryRequest _ _ | .announceTick => []

def UdpServed (srv : Server) (es : List Effect) : Phase → Prop
  | .reading | .loading _ => ∃ arrivals, UdpLooped srv arrivals es
  | .processing req => ∃ arrivals loop, UdpLooped srv arrivals loop ∧ es = loop ++ req.effects []
  | .notifying | .ended => ∃ arrivals, startUdpLoop srv arrivals = es

section Udp

variable {srv : Server} {discovery : DiscoveryConfig} {enabled : Bool} {s s' : Engine} {j : Nat}
  {p : Phase} {act : Act} {evs : List Event} {es : List Effect}

/-- The turn that ends with the exception is the last one of the loop or not. -/
theorem udpServed_of_serve {arrivals : List Arrival} {loop turn : List Effect}
    (h : UdpLooped srv arrivals loop) {a : Arrival} {e : Exc}
    (hserve : a.serve srv .udp [] = (turn, .error e)) :
    UdpServed srv (loop ++ turn) (if e.isStd then .reading else .ended) := by
  have houtcome : a.outcome srv .udp = .error e := by rw [← Arrival.serve_snd, hserve]
  have hturn : (a.serve srv .udp []).1 = turn := by rw [hserve]
  cases e with
  | std what =>
      have hnext := h.snoc (a := a) (by simp [houtcome])
      exact ⟨_, hturn ▸ hnext⟩
  | other =>
      have hlast := h.stop a
      exact ⟨_, hturn ▸ hlast⟩

/-- An exception ends the turn it comes from, and the loop with it if it is no `std::exception`. -/
theorem UdpServed.stop (h : UdpServed srv es p)
    (hr : ∀ req, p = .processing req → req.Consistent srv .udp) {e : Exc}
    (hf : canFail p e = true) :
    UdpServed srv (es ++ failedCall p) (if e.isStd then .reading else .ended) := by
  cases p with
  | reading =>
      have hstd : e.isStd = true := hf
      rw [if_pos hstd, failedCall, List.append_nil]
      exact h
  | loading f =>
      obtain ⟨arrivals, hloop⟩ := h
      exact udpServed_of_serve hloop (a := { frame := f, loaded := .error e }) rfl
  | processing req =>
      obtain ⟨arrivals, loop, hloop, rfl⟩ := h
      have hc := hr req rfl
      cases ht : req.task with
      | call o k => simp [canFail, ht] at hf
      | ret u =>
          -- it is `save` that throws
          have hlast := udpServed_of_serve hloop (Request.serve_of_ret hc ht (.error e) [])
          simpa [failedCall, ht] using hlast
      | throw e' =>
          have he : e' = e := by simpa [canFail, ht] using hf
          subst he
          have hlast := udpServed_of_serve hloop (Request.serve_of_throw hc ht (.ok ()) [])
          simpa [failedCall, ht] using hlast
  | notifying | ended => cases hf

theorem UdpServed.step (h : UdpServed srv es p)
    (hr : ∀ req, p = .processing req → req.Consistent srv .udp)
    (hstep : UdpStep srv s j p act s' evs) :
    ∃ p', s'.udpLoops = s.udpLoops.set j p' ∧
      UdpServed srv (es ++ turnEffects (fun _ => []) p act) p' := by
  cases hstep with
  | frame f hp =>
      subst hp
      obtain ⟨arrivals, hloop⟩ := h
      exact ⟨_, rfl, arrivals, by simpa [turnEffects] using hloop⟩
  | load f hp =>
      subst hp
      obtain ⟨arrivals, hloop⟩ := h
      exact ⟨_, rfl, arrivals, es, hloop, rfl⟩
  | progress a req req' es' hp ha =>
      subst hp
      obtain ⟨arrivals, loop, hloop, rfl⟩ := h
      obtain ⟨state, task, -, rfl⟩ := Request.advance_eq_some.mp ha
      refine ⟨_, rfl, arrivals, loop, hloop, ?_⟩
      simp [turnEffects, ha, Request.effects]
  | save req hp ht =>
      subst hp
      obtain ⟨arrivals, loop, hloop, rfl⟩ := h
      have hserve := Request.serve_of_ret (hr req rfl) ht (.ok ()) []
      have hnext := hloop.snoc (a := req.arrival (.ok ())) (by
        rw [← Arrival.serve_snd srv .udp [], hserve]
        simp)
      rw [hserve, ← List.append_assoc] at hnext
      exact ⟨_, rfl, _, hnext⟩
  | fail e hf =>
      rw [turnEffects_fail]
      exact ⟨_, rfl, h.stop hr hf⟩

/-- What the UDP socket has done in a run. -/
def datagramEffectsOf (j : Nat) (tr : List (Step Engine Label Event)) : List Effect :=
  tr.flatMap fun x => datagramEffects j x.pre x.label

theorem udpServed_step {effects : Nat → List Effect}
    (h : ∀ j p, s.udpLoops[j]? = some p → UdpServed srv (effects j) p)
    (hr : RequestsConsistent srv s) {a : Label} (hs : s.step srv a = some (s', evs)) :
    ∀ j p, s'.udpLoops[j]? = some p →
      UdpServed srv (effects j ++ datagramEffects j s a) p := by
  have hquiet : ∀ j p, s.udpLoops[j]? = some p → UdpServed srv (effects j ++ []) p := by
    simpa using h
  cases step_form hs with
  | accepted _ _ _ _ | rejected _ _ _ _ => exact hquiet
  | conn hc hstep => cases hstep <;> exact hquiet
  | sentTo _ _ _ | castStarted _ _ _ _ _ => exact hquiet
  | castResumed hb hstep =>
      rw [(castStep_frame hstep).2.1]
      exact hquiet
  | settings t _ ha =>
      rcases ha with ⟨call, rfl⟩ | ⟨client, req, rfl⟩ | rfl <;> exact hquiet
  | @udp k p act _ _ hp hstep =>
      obtain ⟨p', hloops, hserved⟩ := (h k p hp).step
        (fun req hreq => hr (.udp k) req (by simp [inFlight, phaseOf, hp, hreq, Phase.request]))
        hstep
      have hk : k < s.udpLoops.length := (List.getElem?_eq_some_iff.mp hp).1
      intro j q hq
      rw [hloops] at hq
      by_cases hj : k = j
      · subst hj
        rw [List.getElem?_set_self hk] at hq
        cases hq
        simpa [datagramEffects, hp] using hserved
      · rw [List.getElem?_set_ne hj] at hq
        simpa [datagramEffects, hj] using h j q hq

/-- However its steps were interleaved with those of the others, a UDP socket that waits for a
datagram, or whose loop has ended, has done what the loop does on the datagrams and the answers it
was given. -/
theorem datagramEffectsOf_idle {tr : List (Step Engine Label Event)}
    (h : Trace (step srv) (init srv discovery enabled) tr s) (hp : s.udpLoops[j]? = some p)
    (hidle : p = .reading ∨ p = .ended) :
    ∃ arrivals, datagramEffectsOf j tr = startUdpLoop srv arrivals := by
  have hserved : ∀ j p, s.udpLoops[j]? = some p → UdpServed srv (datagramEffectsOf j tr) p := by
    clear hp
    induction h with
    | nil =>
        intro j p hp
        have hreading : p = .reading := phaseOf_init (w := .udp j) hp
        subst hreading
        exact ⟨[], by simp, rfl⟩
    | snoc htr hs ih =>
        simp only [datagramEffectsOf, List.flatMap_append, List.flatMap_singleton]
        exact udpServed_step ih (requests_run htr).2 hs
  have hown := hserved j p hp
  cases hidle with
  | inl hreading =>
      subst hreading
      obtain ⟨arrivals, hloop⟩ := hown
      exact ⟨arrivals, hloop.loop.symm⟩
  | inr hended =>
      subst hended
      obtain ⟨arrivals, hloop⟩ := hown
      exact ⟨arrivals, hloop.symm⟩

end Udp

end Engine

end Servd
