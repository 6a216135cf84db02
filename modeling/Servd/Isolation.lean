import Servd.Refinement

/-!
Isolation of sessions. A turn depends on nothing but its worker's phase and the record
of its request's session. So the turns of the requests on one session, taken alone, are a
run of their own: `Alone` relates a run to what remains of it when all other requests and
everything that is no request are left out.
-/
namespace Servd

open Transition

namespace Workers

/-- The request the phase is busy with is one on the session. -/
def BusyOn (sid : UInt64) (p : Phase) : Prop := ∃ f ∈ p.frame, f.header.sessionId = sid

theorem not_busyOn_reading (sid : UInt64) : ¬ BusyOn sid .reading := by
  rintro ⟨f, hf, -⟩
  cases hf

/-- `t` is where the workers would be if they had run the requests on the session alone. -/
structure Alone (sid : UInt64) (s t : Workers) : Prop where
  record : t.records sid = s.records sid
  busy : ∀ w, BusyOn sid (s.phase w) → t.phase w = s.phase w
  idle : ∀ w, ¬ BusyOn sid (s.phase w) → t.phase w = .reading ∨ s.phase w = .ended

theorem alone_start (sid : UInt64) : Alone sid start start :=
  ⟨rfl, fun _ _ => rfl, fun _ _ => .inl rfl⟩

theorem busyOn_of_sidOf {sid : UInt64} {s : Workers} {w : Worker} {act : Act}
    (h : s.sidOf w act = some sid) (hact : ∀ f, act ≠ .frame f) : BusyOn sid (s.phase w) := by
  obtain ⟨f, hf, hsid⟩ := Option.map_eq_some_iff.mp h
  refine ⟨f, ?_, hsid⟩
  cases act with
  | frame g => exact absurd rfl (hact g)
  | load | progress _ | save | fail _ | notified _ => exact hf

theorem sidOf_of_busyOn {sid : UInt64} {s : Workers} {w : Worker} {act : Act}
    (h : BusyOn sid (s.phase w)) (hact : ∀ f, act ≠ .frame f) : s.sidOf w act = some sid := by
  obtain ⟨f, hf, hsid⟩ := h
  refine Option.map_eq_some_iff.mpr ⟨f, ?_, hsid⟩
  cases act with
  | frame g => exact absurd rfl (hact g)
  | load | progress _ | save | fail _ | notified _ => exact hf

section Alone

variable {srv : Server} {sid : UInt64} {s s' t : Workers} {w : Worker} {act : Act}
  {es : List RequestEvent}

/-- A worker that takes a turn of a request on the session is where it would be alone. -/
theorem Alone.phase_eq (h : Alone sid s t) {p : Phase} {record record' : Option Session}
    (ht : Turn srv w (s.phase w) record act p record' es) (hsid : s.sidOf w act = some sid) :
    t.phase w = s.phase w := by
  by_cases hact : ∃ f, act = .frame f
  · obtain ⟨f, rfl⟩ := hact
    generalize hp : s.phase w = q at ht
    cases ht with
    | frame f _ =>
        rcases h.idle w (hp ▸ not_busyOn_reading sid) with hread | hended
        · exact hread
        · rw [hp] at hended
          cases hended
  · exact h.busy w (busyOn_of_sidOf hsid fun f hf => hact ⟨f, hf⟩)

theorem Alone.visible (h : Alone sid s t) (hsid : s.sidOf w act = some sid)
    (hs : s.step srv (w, act) = some (s', es)) :
    ∃ t', t.step srv (w, act) = some (t', es) ∧ Alone sid s' t' ∧ t.sidOf w act = some sid := by
  obtain ⟨p, record, ht, rfl⟩ := step_eq_some.mp hs
  have hphase := h.phase_eq ht hsid
  have hsid' : t.sidOf w act = some sid := by rw [sidOf, hphase, ← hsid, sidOf]
  have hrecord : t.recordFor (t.sidOf w act) = s.recordFor (s.sidOf w act) := by
    rw [hsid', hsid]
    exact h.record
  refine ⟨t.put w (some sid) p record, step_eq_some.mpr ⟨p, record, ?_, by rw [hsid']⟩, ?_, hsid'⟩
  · rw [hphase, hrecord]
    exact ht
  · rw [hsid]
    refine ⟨by simp, fun w' hbusy => ?_, fun w' hidle => ?_⟩
    · by_cases hw : w' = w
      · subst hw
        simp
      · rw [phase_put_ne hw] at hbusy ⊢
        rw [phase_put_ne hw]
        exact h.busy w' hbusy
    · by_cases hw : w' = w
      · subst hw
        rw [phase_put_self] at hidle ⊢
        rw [phase_put_self]
        rcases ht.frame_next with hframe | hover
        · obtain ⟨f, hf, hfsid⟩ := Option.map_eq_some_iff.mp hsid
          exact absurd ⟨f, hframe.trans hf, hfsid⟩ hidle
        · exact hover
      · rw [phase_put_ne hw] at hidle ⊢
        rw [phase_put_ne hw]
        exact h.idle w' hidle

theorem Alone.silent (h : Alone sid s t) (hsid : s.sidOf w act ≠ some sid)
    (hs : s.step srv (w, act) = some (s', es)) : Alone sid s' t := by
  obtain ⟨p, record, ht, rfl⟩ := step_eq_some.mp hs
  -- before the turn the worker is not busy on the session, and it is not after it
  have hbefore : ¬ BusyOn sid (s.phase w) := by
    intro hbusy
    by_cases hact : ∃ f, act = .frame f
    · obtain ⟨f, rfl⟩ := hact
      generalize hp : s.phase w = q at ht hbusy
      cases ht with
      | frame f _ => exact not_busyOn_reading sid hbusy
    · exact hsid (sidOf_of_busyOn hbusy fun f hf => hact ⟨f, hf⟩)
  have hafter : ¬ BusyOn sid p := by
    rintro ⟨f, hf, hfsid⟩
    rcases ht.frame_next with hframe | rfl | rfl
    · exact hsid (Option.map_eq_some_iff.mpr ⟨f, hframe.symm.trans hf, hfsid⟩)
    · cases hf
    · cases hf
  refine ⟨?_, fun w' hbusy => ?_, fun w' hidle => ?_⟩
  · rw [records_put_ne hsid]
    exact h.record
  · by_cases hw : w' = w
    · subst hw
      rw [phase_put_self] at hbusy
      exact absurd hbusy hafter
    · rw [phase_put_ne hw] at hbusy ⊢
      exact h.busy w' hbusy
  · by_cases hw : w' = w
    · subst hw
      exact .inl ((h.idle w' hbefore).resolve_right ht.not_ended)
    · rw [phase_put_ne hw] at hidle ⊢
      exact h.idle w' hidle

end Alone

end Workers

/-- What application code is given to look at: header, payload and session. -/
def RequestEvent.context : RequestEvent → Option (FrameHeader × Bytes × Session)
  | .authenticatorCalled ctx state | .handlerCalled ctx state =>
      some (ctx.header, ctx.payload, state.session)
  | .sent _ _ => none

namespace Engine

/-- The session id of the request a step of a worker belongs to. -/
def sidOf (s : Engine) (w : Worker) (act : Act) : Option UInt64 :=
  ((s.phaseOf w).bind (·.frameOf act)).map (·.header.sessionId)

/-- A step of a request on the session, and what the request did in it. -/
def shownOn (sid : UInt64) (x : Step Engine Label Event) :
    Option ((Worker × Act) × List RequestEvent) :=
  x.label.turn.bind fun l =>
    if x.pre.sidOf l.1 l.2 = some sid then some (l, requestEvents l.1 x.events) else none

/-- The steps of the requests on the session. -/
def stepsOn (sid : UInt64) (tr : List (Step Engine Label Event)) : List (Worker × Act) :=
  (tr.filterMap (shownOn sid)).map Prod.fst

/-- The contexts seen by the authenticator and the handlers for requests on the session. -/
def contextsOn (sid : UInt64) (tr : List (Step Engine Label Event)) :
    List (FrameHeader × Bytes × Session) :=
  ((tr.filterMap (shownOn sid)).flatMap Prod.snd).filterMap RequestEvent.context

theorem sidOf_workers {s : Engine} {w : Worker} (hw : (s.phaseOf w).isSome) (act : Act) :
    s.workers.sidOf w act = s.sidOf w act := by
  obtain ⟨p, hp⟩ := Option.isSome_iff_exists.mp hw
  simp [Workers.sidOf, sidOf, workers_phase hp, hp]

section Runs

variable {srv : Server} {discovery : DiscoveryConfig} {enabled : Bool}
  {tr : List (Step Engine Label Event)} {s : Engine}

theorem shownOn_eq_some {sid : UInt64} {x : Step Engine Label Event} {l : Worker × Act}
    {es : List RequestEvent} (hs : x.pre.step srv x.label = some (x.post, x.events))
    (h : shownOn sid x = some (l, es)) :
    x.label = .work l.1 l.2 ∧ (∀ r, l.2 ≠ .notified r) ∧ es = requestEvents l.1 x.events ∧
      x.pre.workers.sidOf l.1 l.2 = some sid := by
  obtain ⟨⟨w, act⟩, hturn, hif⟩ := Option.bind_eq_some_iff.mp h
  obtain ⟨hlabel, hact⟩ := Label.turn_eq_some hturn
  split at hif
  · rename_i hsid
    cases hif
    refine ⟨hlabel, hact, rfl, ?_⟩
    rw [hlabel] at hs
    rw [sidOf_workers (isSome_phaseOf_work hs)]
    exact hsid
  · cases hif

theorem sidOf_of_shownOn_eq_none {sid : UInt64} {x : Step Engine Label Event} {w : Worker}
    {act : Act} (hs : x.pre.step srv x.label = some (x.post, x.events))
    (h : shownOn sid x = none) (hturn : x.label.turn = some (w, act)) :
    x.pre.workers.sidOf w act ≠ some sid := by
  obtain ⟨hlabel, -⟩ := Label.turn_eq_some hturn
  rw [hlabel] at hs
  rw [sidOf_workers (isSome_phaseOf_work hs)]
  intro hsid
  simp [shownOn, hturn, hsid] at h

/-- What remains of a run when only the requests on the session are run. -/
theorem alone_run (h : Trace (step srv) (init srv discovery enabled) tr s) (sid : UInt64) :
    ∃ tw t, Trace (Workers.step srv) Workers.start tw t ∧ t.records sid = s.store.lookup sid ∧
      (∀ y ∈ tw, y.pre.sidOf y.label.1 y.label.2 = some sid) ∧
      tw.map (fun y => (y.label, y.events)) = tr.filterMap (shownOn sid) := by
  have hstart : Workers.Alone sid (init srv discovery enabled).workers Workers.start := by
    rw [workers_init]
    exact Workers.alone_start sid
  have hsim := h.simulate (Workers.step srv)
    (fun s t => Workers.Alone sid s.workers t ∧ Coherent srv s) (shownOn sid)
    (fun y => y.pre.sidOf y.label.1 y.label.2 = some sid)
    ⟨hstart, coherent_init srv discovery enabled⟩ ?silent ?visible
  case silent =>
    rintro x - t hs ⟨halone, hc⟩ hx
    refine ⟨?_, hc.step hs⟩
    cases hturn : x.label.turn with
    | none => exact workers_silent hc.recorded hturn hs ▸ halone
    | some l =>
        obtain ⟨w, act⟩ := l
        have hsid := sidOf_of_shownOn_eq_none hs hx hturn
        obtain ⟨hlabel, hact⟩ := Label.turn_eq_some hturn
        rw [hlabel] at hs
        exact halone.silent hsid (workers_step hc.requests hact hs)
  case visible =>
    rintro x - t ⟨w, act⟩ es hs ⟨halone, hc⟩ hx
    obtain ⟨hlabel, hact, rfl, hsid⟩ := shownOn_eq_some hs hx
    rw [hlabel] at hs
    obtain ⟨t', ht, halone', hsid'⟩ := halone.visible hsid (workers_step hc.requests hact hs)
    exact ⟨t', ht, ⟨halone', hc.step hs⟩, hsid'⟩
  obtain ⟨tw, t, htw, ⟨halone, -⟩, hall, hmap⟩ := hsim
  exact ⟨tw, t, htw, halone.record, hall, hmap⟩

/-- The steps of the requests on a session determine what is seen for it and what is stored. -/
theorem sameSession_of_stepsOn {srv' : Server} {discovery' : DiscoveryConfig} {enabled' : Bool}
    {tr' : List (Step Engine Label Event)} {s' : Engine} (halike : srv.Alike srv')
    (h : Trace (step srv) (init srv discovery enabled) tr s)
    (h' : Trace (step srv') (init srv' discovery' enabled') tr' s') {sid : UInt64}
    (hsteps : stepsOn sid tr' = stepsOn sid tr) :
    contextsOn sid tr' = contextsOn sid tr ∧ s'.store.lookup sid = s.store.lookup sid := by
  obtain ⟨tw, t, htw, hrecord, -, hmap⟩ := alone_run h sid
  obtain ⟨tw', t', htw', hrecord', -, hmap'⟩ := alone_run h' sid
  rw [halike.workers_step] at htw'
  have hlabels : tw'.map (·.label) = tw.map (·.label) := by
    rw [stepsOn, stepsOn, ← hmap, ← hmap', List.map_map, List.map_map] at hsteps
    exact hsteps
  obtain ⟨rfl, rfl⟩ := htw.deterministic htw' hlabels
  refine ⟨?_, hrecord'.symm.trans hrecord⟩
  rw [contextsOn, contextsOn, ← hmap, ← hmap']

/-- All turns of the run are turns of requests on the session. -/
theorem stepsOn_eq_turnsOf {sid : UInt64} {tr : List (Step Engine Label Event)}
    (hall : ∀ x ∈ tr, ∀ l, x.label.turn = some l → x.pre.sidOf l.1 l.2 = some sid) :
    stepsOn sid tr = turnsOf tr := by
  rw [stepsOn, List.map_filterMap]
  refine List.filterMap_congr fun x hx => ?_
  cases hturn : x.label.turn with
  | none => simp [shownOn, hturn]
  | some l => simp [shownOn, hturn, hall x hx l hturn]

/-- The requests on the session can be run alone. -/
theorem exists_run_alone (h : Trace (step srv) (init srv discovery enabled) tr s) (sid : UInt64) :
    ∃ tr' s', Trace (step srv.unlimited) (init srv.unlimited discovery enabled) tr' s' ∧
      tr'.map (·.label) = Label.accepts (s.conns.map (·.mode)) ++
        (stepsOn sid tr).map (fun l => .work l.1 l.2) ∧ stepsOn sid tr' = stepsOn sid tr := by
  obtain ⟨tw, t, htw, -, hall, hmap⟩ := alone_run h sid
  have hlabels : stepsOn sid tr = tw.map (·.label) := by
    rw [stepsOn, ← hmap, List.map_map]
    rfl
  have hexist : ∀ y ∈ tw, (s.phaseOf y.label.1).isSome := by
    intro y hy
    refine isSome_phaseOf_turnsOf h y.label ?_
    have hshown : (y.label, y.events) ∈ tr.filterMap (shownOn sid) :=
      hmap ▸ List.mem_map_of_mem hy
    obtain ⟨x, hx, hon⟩ := List.mem_filterMap.mp hshown
    obtain ⟨l, hturn, hif⟩ := Option.bind_eq_some_iff.mp hon
    split at hif
    · obtain ⟨rfl, -⟩ := Prod.mk.inj (Option.some.inj hif)
      exact List.mem_filterMap.mpr ⟨x, hx, hturn⟩
    · cases hif
  obtain ⟨tr', s', htr', -, hturns, hall', hpres⟩ := exists_run_of_workers h htw hexist
  rw [← hlabels] at hturns hall'
  refine ⟨tr', s', htr', hall', ?_⟩
  rw [← hturns]
  refine stepsOn_eq_turnsOf fun x hx l hturn => ?_
  obtain ⟨y, hy, hpre, rfl⟩ := hpres x hx l hturn
  have hs := htr'.step_eq x hx
  obtain ⟨hwork, -⟩ := Label.turn_eq_some hturn
  rw [hwork] at hs
  rw [← sidOf_workers (isSome_phaseOf_work hs), ← hpre]
  exact hall y hy

end Runs

/-- Sessions are isolated from one another. The steps of the requests on a session determine
what the authenticator and the handlers are given for them and the record that is stored in the
end, in all runs of servers that process requests alike. They can be taken alone: the other
requests, broadcasts and everything else can be left out of the run, if only the connections
are made (on a server without a limit, which a request that is left out might have made room
in). And a record is always stored under its own id. -/
theorem sessions_isolated (srv : Server) (discovery : DiscoveryConfig) (enabled : Bool)
    {tr : List (Step Engine Label Event)} {s : Engine}
    (h : Trace (step srv) (init srv discovery enabled) tr s) (sid : UInt64) :
    (∀ srv' discovery' enabled' tr' s', srv.Alike srv' →
      Trace (step srv') (init srv' discovery' enabled') tr' s' →
      stepsOn sid tr' = stepsOn sid tr →
      contextsOn sid tr' = contextsOn sid tr ∧ s'.store.lookup sid = s.store.lookup sid) ∧
    (∃ tr' s', Trace (step srv.unlimited) (init srv.unlimited discovery enabled) tr' s' ∧
      tr'.map (·.label) = Label.accepts (s.conns.map (·.mode)) ++
        (stepsOn sid tr).map (fun l => .work l.1 l.2) ∧
      contextsOn sid tr' = contextsOn sid tr ∧ s'.store.lookup sid = s.store.lookup sid) ∧
    ∀ k record, s.store.lookup k = some record → record.id = k := by
  refine ⟨fun srv' discovery' enabled' tr' s' halike h' => sameSession_of_stepsOn halike h h', ?_,
    (requests_run h).1⟩
  obtain ⟨tr', s', htr', hlabels, hsteps⟩ := exists_run_alone h sid
  obtain ⟨hcontexts, hrecord⟩ := sameSession_of_stepsOn srv.alike_unlimited h htr' hsteps
  exact ⟨tr', s', htr', hlabels, hcontexts, hrecord⟩

theorem sessions_isolated_login :
    ∃ tr s, Trace (step Server.login) (init Server.login {} false) tr s ∧ tr.length = 18 ∧
      (contextsOn 7 tr).length = 1 ∧ (s.store.lookup 7).any (·.authenticated) ∧
      ∃ tr' s', Trace (step Server.login.unlimited) (init Server.login.unlimited {} false) tr' s' ∧
        tr'.map (·.label) = Label.accepts (s.conns.map (·.mode)) ++
          (stepsOn 7 tr).map (fun l => .work l.1 l.2) ∧
        contextsOn 7 tr' = contextsOn 7 tr ∧ s'.store.lookup 7 = s.store.lookup 7 := by
  obtain ⟨tr, s, htr, hlength, hcontexts, hauth⟩ := exists_trace_of_exec
    (step Server.login) (init Server.login {} false)
    ([.accept .binary 5, .accept .text 6, .work (.conn 0) (.frame (.command 1 7)),
        .work (.conn 1) (.frame (.command 2 8)), .work (.conn 0) .load, .work (.conn 1) .load,
        .broadcast 9 [] (some (·.authenticated)) [(7, 5), (8, 6)],
        .work (.conn 0) (.progress {}), .work (.conn 1) (.progress {}), .resumeCast 0 (.ok ())] ++
      List.replicate 3 (.work (.conn 0) (.progress {})) ++
      List.replicate 2 (.work (.conn 1) (.progress {})) ++
      [.work (.conn 1) .save, .work (.conn 0) .save, .resumeCast 0 (.ok ())])
    (fun tr s => tr.length = 18 ∧ (contextsOn 7 tr).length = 1 ∧
      (s.store.lookup 7).any (·.authenticated)) (by decide +kernel)
  exact ⟨tr, s, htr, hlength, hcontexts, hauth,
    (sessions_isolated Server.login {} false htr 7).2.1⟩

end Engine

end Servd
