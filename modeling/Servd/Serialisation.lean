import Servd.Requests

/-!
Concurrent requests on one session. A request copies the whole record out, runs on
its copy and writes the copy back, with nothing that keeps another request from
doing the same in between. So the record that is held is the result of running some
of the completed requests one after the other: the last one that was saved, the one
that had saved what it loaded, and so on. What is left out is overwritten: it was saved
while the next request of the chain was in flight. The record is the result of all of
them if every request finds, when it is saved, the record it had loaded.
-/
namespace Servd

open Coroutine Transition

/-- A request to be run: its frame and transport, and the answers it gets from outside. -/
structure Job where
  frame : ClientFrame
  transport : TransportType
  answers : List Answer

namespace Job

/-- Run from record `r`, the job comes to its end and leaves record `r'`. -/
def Runs (srv : Server) (job : Job) (r r' : Session) : Prop :=
  ∃ state events, resume requestSem (.start r) (srv.processCommand job.frame job.transport)
    job.answers = some (state, .ret (), events) ∧ state.session = r'

def request (job : Job) : ClientFrame × TransportType := (job.frame, job.transport)

def ofRequest (w : Worker) (req : Request) : Job := ⟨req.frame, w.transport, req.answers⟩

end Job

/-- The jobs run one after the other, each from the record the one before it has left. -/
inductive Serial (srv : Server) : Session → List Job → Session → Prop
  | nil (r : Session) : Serial srv r [] r
  | cons {r m r' : Session} {job : Job} {jobs : List Job} (h : job.Runs srv r m)
      (hrest : Serial srv m jobs r') : Serial srv r (job :: jobs) r'

theorem Serial.eq_of_nil {srv : Server} {r r' : Session} (h : Serial srv r [] r') : r' = r := by
  cases h
  rfl

theorem Serial.snoc {srv : Server} {r m r' : Session} {jobs : List Job} {job : Job}
    (h : Serial srv r jobs m) (hjob : job.Runs srv m r') : Serial srv r (jobs ++ [job]) r' := by
  induction h with
  | nil r => exact .cons hjob (.nil r')
  | cons hfirst _ ih => exact .cons hfirst (ih hjob)

theorem Request.Consistent.runs {srv : Server} {w : Worker} {req : Request}
    (h : req.Consistent srv w.transport) (ht : req.task = .ret ()) :
    (Job.ofRequest w req).Runs srv req.loaded req.state.session :=
  ⟨req.state, req.events, ht ▸ h.run, rfl⟩

namespace Engine

def completedJob (sid : UInt64) : Event → Option Job
  | .saved w req => if req.frame.header.sessionId = sid then some (.ofRequest w req) else none
  | .wrote _ _ _ _ | .sentDatagram _ _ | .request _ _ | .closed _ | .discoveryReply _
  | .announced _ => none

def jobsOn (sid : UInt64) (evs : List Event) : List Job := evs.filterMap (completedJob sid)

theorem jobsOn_of_not_saved {sid : UInt64} {evs : List Event}
    (h : ∀ w req, .saved w req ∉ evs) : jobsOn sid evs = [] := by
  refine List.filterMap_eq_nil_iff.mpr fun e he => ?_
  cases e with
  | saved w req => exact absurd he (h w req)
  | wrote _ _ _ _ | sentDatagram _ _ | request _ _ | closed _ | discoveryReply _ | announced _ =>
      rfl

@[simp] theorem jobsOn_append (sid : UInt64) (evs evs' : List Event) :
    jobsOn sid (evs ++ evs') = jobsOn sid evs ++ jobsOn sid evs' :=
  List.filterMap_append

/-- The record the store holds for a session; a session without one has the default record. -/
def record (s : Engine) (sid : UInt64) : Session := (s.store.lookup sid).getD { id := sid }

theorem record_of_grows {s s' : Engine} (h : StoreGrows s.store s'.store) (sid : UInt64) :
    s'.record sid = s.record sid := by
  unfold record
  cases h sid with
  | inl hsame => rw [hsame]
  | inr hnew => rw [hnew.1, hnew.2]; rfl

theorem getOrCreate_eq_record (s : Engine) (sid : UInt64) :
    (s.store.getOrCreate sid).1 = s.record sid := by
  unfold record
  cases hl : s.store.lookup sid with
  | some r => rw [InMemorySessionStore.getOrCreate_of_some hl]; rfl
  | none => rw [InMemorySessionStore.getOrCreate_of_none hl]; rfl

/-- How the record of a session has come about. The request that was saved last had loaded the
record as it was after the steps `before`, with a line of its own, and was in flight in the steps
`between`: whatever was saved in these is not in the line. -/
inductive Lineage (srv : Server) (sid : UInt64) :
    List (Step Engine Label Event) → List Job → Session → Prop
  | unsaved {tr : List (Step Engine Label Event)} (h : jobsOn sid (eventsOf tr) = []) :
      Lineage srv sid tr [] { id := sid }
  | saved {before between after : List (Step Engine Label Event)}
      {load save : Step Engine Label Event} {w : Worker} {req : Request} {chain : List Job}
      (hbefore : Lineage srv sid before chain req.loaded)
      (hload : load.label = .work w .load) (hcopy : load.pre.record sid = req.loaded)
      (hbetween : ∀ x ∈ between, x.label ≠ .work w .load)
      (hreq : save.pre.inFlight w = some req) (hsave : save.events = [.saved w req])
      (hsid : req.frame.header.sessionId = sid)
      (hruns : (Job.ofRequest w req).Runs srv req.loaded req.state.session)
      (hafter : jobsOn sid (eventsOf after) = []) :
      Lineage srv sid (before ++ load :: between ++ save :: after) (chain ++ [.ofRequest w req])
        req.state.session

section Lineage

variable {srv : Server} {sid : UInt64} {tr : List (Step Engine Label Event)} {chain : List Job}
  {r : Session}

theorem jobsOn_eventsOf_append (sid : UInt64) (tr tr' : List (Step Engine Label Event)) :
    jobsOn sid (eventsOf (tr ++ tr')) = jobsOn sid (eventsOf tr) ++ jobsOn sid (eventsOf tr') := by
  rw [eventsOf, List.flatMap_append, jobsOn_append]
  rfl

theorem Lineage.quiet (h : Lineage srv sid tr chain r) {tr' : List (Step Engine Label Event)}
    (hquiet : jobsOn sid (eventsOf tr') = []) : Lineage srv sid (tr ++ tr') chain r := by
  cases h with
  | unsaved hnone => exact .unsaved (by rw [jobsOn_eventsOf_append, hnone, hquiet]; rfl)
  | saved hbefore hload hcopy hbetween hreq hsave hsid hruns hafter =>
      rw [List.append_assoc, List.cons_append]
      exact .saved hbefore hload hcopy hbetween hreq hsave hsid hruns
        (by rw [jobsOn_eventsOf_append, hafter, hquiet]; rfl)

theorem Lineage.serial (h : Lineage srv sid tr chain r) : Serial srv { id := sid } chain r := by
  induction h with
  | unsaved _ => exact .nil _
  | saved _ _ _ _ _ _ _ hruns _ ih => exact ih.snoc hruns

theorem jobsOn_of_saved {before between after : List (Step Engine Label Event)}
    {load save : Step Engine Label Event} {w : Worker} {req : Request}
    (hsave : save.events = [.saved w req]) (hsid : req.frame.header.sessionId = sid)
    (hafter : jobsOn sid (eventsOf after) = []) :
    jobsOn sid (eventsOf (before ++ load :: between ++ save :: after)) =
      jobsOn sid (eventsOf before) ++ jobsOn sid (eventsOf (load :: between)) ++
        [.ofRequest w req] := by
  have hlast : jobsOn sid (eventsOf (save :: after)) = [.ofRequest w req] := by
    rw [← List.singleton_append, jobsOn_eventsOf_append, hafter]
    simp [eventsOf, hsave, jobsOn, completedJob, hsid]
  rw [jobsOn_eventsOf_append, jobsOn_eventsOf_append, hlast]

/-- The line is a part of the completed requests, in the order of their saves. -/
theorem Lineage.sublist (h : Lineage srv sid tr chain r) :
    chain.Sublist (jobsOn sid (eventsOf tr)) := by
  induction h with
  | unsaved _ => exact List.nil_sublist _
  | saved _ _ _ _ _ hsave hsid _ hafter ih =>
      rw [jobsOn_of_saved hsave hsid hafter]
      exact (ih.trans (List.sublist_append_left _ _)).append_right _

theorem Lineage.getLast? (h : Lineage srv sid tr chain r) :
    chain.getLast? = (jobsOn sid (eventsOf tr)).getLast? := by
  cases h with
  | unsaved hnone => rw [hnone]
  | saved _ _ _ _ _ hsave hsid _ hafter =>
      rw [jobsOn_of_saved hsave hsid hafter]
      simp

end Lineage

/-- The request of the worker was loaded at a step of the history, and is in flight since then. -/
def LoadedIn (srv : Server) (tr : List (Step Engine Label Event)) (w : Worker) (req : Request) :
    Prop :=
  ∃ before load between chain, tr = before ++ load :: between ∧ load.label = .work w .load ∧
    load.pre.record req.frame.header.sessionId = req.loaded ∧
    (∀ x ∈ between, x.label ≠ .work w .load) ∧
    Lineage srv req.frame.header.sessionId before chain req.loaded

theorem LoadedIn.snoc {srv : Server} {tr : List (Step Engine Label Event)} {w : Worker}
    {req req' : Request} (h : LoadedIn srv tr w req) {x : Step Engine Label Event}
    (hlabel : x.label ≠ .work w .load) (hframe : req'.frame = req.frame)
    (hloaded : req'.loaded = req.loaded) : LoadedIn srv (tr ++ [x]) w req' := by
  obtain ⟨before, load, between, chain, rfl, hload, hcopy, hbetween, hlineage⟩ := h
  rw [← hframe, ← hloaded] at hcopy hlineage
  refine ⟨before, load, between ++ [x], chain, by simp, hload, hcopy, ?_, hlineage⟩
  intro y hy
  cases List.mem_append.mp hy with
  | inl hy => exact hbetween y hy
  | inr hy => exact List.mem_singleton.mp hy ▸ hlabel

/-- What a history leaves: the record of every session has a line, and every request in flight has
loaded a record with one. -/
structure History (srv : Server) (tr : List (Step Engine Label Event)) (s : Engine) : Prop where
  held : ∀ sid, ∃ chain, Lineage srv sid tr chain (s.record sid)
  loaded : ∀ w req, s.inFlight w = some req → LoadedIn srv tr w req

theorem History.quiet {srv : Server} {tr : List (Step Engine Label Event)} {s s' : Engine}
    {a : Label} {evs : List Event} (h : History srv tr s) (hsaved : ∀ w req, .saved w req ∉ evs)
    (hrecord : ∀ sid, s'.record sid = s.record sid) (sid : UInt64) :
    ∃ chain, Lineage srv sid (tr ++ [⟨s, a, evs, s'⟩]) chain (s'.record sid) := by
  obtain ⟨chain, hchain⟩ := h.held sid
  rw [hrecord]
  exact ⟨chain, hchain.quiet (by simpa [eventsOf] using jobsOn_of_not_saved hsaved)⟩

/-- A worker with a request in flight loads no other one. -/
theorem inFlight_of_load {srv : Server} {s s' : Engine} {w : Worker} {evs : List Event}
    (h : s.step srv (.work w .load) = some (s', evs)) : s.inFlight w = none := by
  have hform := step_form h
  cases hform with
  | conn hc hstep =>
      cases hstep with
      | load f hp => simp [inFlight, phaseOf, hc, hp, Phase.request]
  | udp hp hstep =>
      cases hstep with
      | load f hp' => simp [inFlight, phaseOf, hp, hp', Phase.request]
  | settings t hquiet ha => simp at ha

theorem record_save {s s' : Engine} {r : Session} (h : s'.store = s.store.save r) (sid : UInt64) :
    s'.record sid = if sid = r.id then r else s.record sid := by
  unfold record
  rw [h]
  split
  · rename_i hsid
    rw [hsid, InMemorySessionStore.lookup_save_self]
    rfl
  · rename_i hsid
    rw [InMemorySessionStore.lookup_save_ne _ _ hsid]

theorem jobsOn_saved (sid : UInt64) (evs : List Event) (w : Worker) (req : Request) :
    jobsOn sid (evs ++ [.saved w req]) =
      if sid = req.frame.header.sessionId then jobsOn sid evs ++ [.ofRequest w req]
      else jobsOn sid evs := by
  rw [jobsOn_append]
  by_cases h : sid = req.frame.header.sessionId
  · simp [jobsOn, completedJob, h]
  · simp [jobsOn, completedJob, h, Ne.symm h]

theorem History.step {srv : Server} {tr : List (Step Engine Label Event)} {s s' : Engine}
    {a : Label} {evs : List Event} (h : History srv tr s) (hr : RequestsConsistent srv s)
    (hs : s.step srv a = some (s', evs)) : History srv (tr ++ [⟨s, a, evs, s'⟩]) s' := by
  -- a request that is in flight before and after the step stays one that was loaded
  have kept : ∀ w req, s.inFlight w = some req → LoadedIn srv (tr ++ [⟨s, a, evs, s'⟩]) w req := by
    intro w req hreq
    refine (h.loaded w req hreq).snoc ?_ rfl rfl
    rintro (rfl : a = _)
    rw [inFlight_of_load hs] at hreq
    cases hreq
  cases requestCase_step hs with
  | load w f hreq hothers hstore =>
      refine ⟨h.quiet (by simp) (record_of_grows (hstore ▸ storeGrows_getOrCreate _ _)), ?_⟩
      intro w' req hreq'
      by_cases hw : w' = w
      · subst hw
        rw [hreq] at hreq'
        cases hreq'
        obtain ⟨chain, hchain⟩ := h.held f.header.sessionId
        have hcopy := s.getOrCreate_eq_record f.header.sessionId
        exact ⟨tr, _, [], chain, rfl, rfl, hcopy.symm, by simp, hcopy ▸ hchain⟩
      · exact kept w' req (hothers w' hw ▸ hreq')
  | progress w ans req req' es hreq ha hreq' hothers hstore hsaved =>
      refine ⟨h.quiet hsaved (record_of_grows (hstore ▸ storeGrows_refl _)), ?_⟩
      intro w' r hr'
      by_cases hw : w' = w
      · subst hw
        rw [hreq'] at hr'
        cases hr'
        obtain ⟨state, task, -, rfl⟩ := Request.advance_eq_some.mp ha
        exact (h.loaded w' req hreq).snoc (by simp) rfl rfl
      · exact kept w' r (hothers w' hw ▸ hr')
  | save w req hreq ht hdone hothers hstore =>
      have hc := hr w req hreq
      have hrecord := record_save hstore
      rw [hc.session_id] at hrecord
      constructor
      · intro sid
        rw [hrecord]
        split
        · rename_i hsid
          obtain ⟨before, load, between, chain, rfl, hload, hcopy, hbetween, hlineage⟩ :=
            h.loaded w req hreq
          subst hsid
          exact ⟨_, .saved hlineage hload hcopy hbetween hreq rfl rfl (hc.runs ht) rfl⟩
        · rename_i hsid
          obtain ⟨chain, hchain⟩ := h.held sid
          exact ⟨chain, hchain.quiet (by simp [eventsOf, jobsOn, completedJob, Ne.symm hsid])⟩
      · intro w' req' hreq'
        have hw : w' ≠ w := by
          rintro rfl
          rw [hdone] at hreq'
          cases hreq'
        exact kept w' req' (hothers w' hw ▸ hreq')
  | other hreqs hstore hsaved =>
      refine ⟨h.quiet hsaved (record_of_grows hstore), ?_⟩
      intro w req hreq
      cases hreqs w with
      | inl hsame => exact kept w req (hsame ▸ hreq)
      | inr hnone =>
          rw [hnone] at hreq
          cases hreq

/-- At a save on the session the store still holds the record the request had loaded. -/
def SavesCurrent (s : Engine) (sid : UInt64) : Label → Prop
  | .work w .save => ∀ req ∈ s.inFlight w, req.frame.header.sessionId = sid →
      s.store.lookup sid = some req.loaded
  | _ => True

instance (s : Engine) (sid : UInt64) : (a : Label) → Decidable (s.SavesCurrent sid a)
  | .work w .save => inferInstanceAs (Decidable (∀ req ∈ s.inFlight w,
      req.frame.header.sessionId = sid → s.store.lookup sid = some req.loaded))
  | .work _ (.frame _) | .work _ .load | .work _ (.progress _) | .work _ (.fail _)
  | .work _ (.notified _) | .accept _ _ | .sendTo _ _ _ | .broadcast _ _ _ _ | .resumeCast _ _
  | .app _ | .discoveryRequest _ _ | .announceTick => inferInstanceAs (Decidable True)

theorem serial_extend {srv : Server} {evs : List Event} {s s' : Engine} {a : Label} {sid : UInt64}
    {r : Session} {jobs : List Job} (h : Serial srv r jobs (s.record sid))
    (hr : RequestsConsistent srv s) (hcurrent : s.SavesCurrent sid a)
    (hs : s.step srv a = some (s', evs)) :
    Serial srv r (jobs ++ jobsOn sid evs) (s'.record sid) := by
  have quiet : (∀ w req, .saved w req ∉ evs) → StoreGrows s.store s'.store →
      Serial srv r (jobs ++ jobsOn sid evs) (s'.record sid) := by
    intro hsaved hstore
    rw [jobsOn_of_not_saved hsaved, List.append_nil, record_of_grows hstore]
    exact h
  cases requestCase_step hs with
  | load w f hreq hothers hstore => exact quiet (by simp) (hstore ▸ storeGrows_getOrCreate _ _)
  | progress w ans req req' es hreq ha hreq' hothers hstore hsaved =>
      exact quiet hsaved (hstore ▸ storeGrows_refl _)
  | save w req hreq ht hdone hothers hstore =>
      have hc := hr w req hreq
      rw [← List.nil_append [Event.saved w req], jobsOn_saved, record_save hstore, hc.session_id]
      split
      · rename_i hsid
        have hloaded : s.record sid = req.loaded := by
          rw [record, hcurrent req hreq hsid.symm]
          rfl
        exact (hloaded ▸ h).snoc (hc.runs ht)
      · simpa [jobsOn] using h
  | other hreqs hstore hsaved => exact quiet hsaved hstore

section Runs

variable {srv : Server} {discovery : DiscoveryConfig} {enabled : Bool}
  {tr : List (Step Engine Label Event)} {s : Engine}

theorem history_run (h : Trace (step srv) (init srv discovery enabled) tr s) :
    History srv tr s := by
  induction h with
  | nil =>
      refine ⟨fun sid => ⟨[], .unsaved rfl⟩, ?_⟩
      intro w req hreq
      rw [inFlight_init] at hreq
      cases hreq
  | snoc htr hstep ih => exact ih.step (requests_run htr).2 hstep

theorem serial_run (h : Trace (step srv) (init srv discovery enabled) tr s) (sid : UInt64)
    (hcurrent : ∀ x ∈ tr, x.pre.SavesCurrent sid x.label) :
    Serial srv { id := sid } (jobsOn sid (eventsOf tr)) (s.record sid) := by
  induction h with
  | nil => exact .nil _
  | @snoc tr s s' a evs htr hstep ih =>
      rw [eventsOf_snoc, jobsOn_append]
      exact serial_extend (ih fun x hx => hcurrent x (List.mem_append_left _ hx))
        (requests_run htr).2 (hcurrent ⟨s, a, evs, s'⟩ (by simp)) hstep

end Runs

/-- In every run the record held for a session has a line: it is the result of running one after
the other a part of the requests saved on it, in the order of the saves and ending with the last
one, each of which had loaded what the one before it has saved; the others were saved while the next
one of the line was in flight. If every save finds the record its request had loaded, the line is
all of them. -/
theorem record_serial (srv : Server) (discovery : DiscoveryConfig) (enabled : Bool)
    {tr : List (Step Engine Label Event)} {s : Engine}
    (h : Trace (step srv) (init srv discovery enabled) tr s) (sid : UInt64) :
    (∃ chain, Lineage srv sid tr chain (s.record sid) ∧
      chain.Sublist (jobsOn sid (eventsOf tr)) ∧
      chain.getLast? = (jobsOn sid (eventsOf tr)).getLast? ∧
      Serial srv { id := sid } chain (s.record sid)) ∧
    ((∀ x ∈ tr, x.pre.SavesCurrent sid x.label) →
      Serial srv { id := sid } (jobsOn sid (eventsOf tr)) (s.record sid)) := by
  refine ⟨?_, serial_run h sid⟩
  obtain ⟨chain, hchain⟩ := (history_run h).held sid
  exact ⟨chain, hchain, hchain.sublist, hchain.getLast?, hchain.serial⟩

/-- Two requests, one after the other; and two of which the first is overwritten. -/
theorem record_serial_login :
    (∃ tr s, Trace (step Server.login) (init Server.login {} false) tr s ∧
      (jobsOn 7 (eventsOf tr)).length = 2 ∧ (s.record 7).authenticated = true ∧
      Serial Server.login { id := 7 } (jobsOn 7 (eventsOf tr)) (s.record 7)) ∧
    ∃ tr s chain, Trace (step Server.login) (init Server.login {} false) tr s ∧
      (jobsOn 7 (eventsOf tr)).length = 2 ∧ (s.record 7).authenticated = false ∧
      Lineage Server.login 7 tr chain (s.record 7) := by
  constructor
  · obtain ⟨tr, s, htr, hjobs, hauth, hcurrent⟩ := exists_trace_of_exec
      (step Server.login) (init Server.login {} false)
      ([.accept .binary 5, .accept .binary 6] ++ Label.requestAfter (.conn 0) (.command 1 7) 4 ++
        Label.requestAfter (.conn 1) (.command 2 7) 3)
      (fun tr s => (jobsOn 7 (eventsOf tr)).length = 2 ∧ (s.record 7).authenticated = true ∧
        ∀ x ∈ tr, x.pre.SavesCurrent 7 x.label) (by decide +kernel)
    exact ⟨tr, s, htr, hjobs, hauth, (record_serial Server.login {} false htr 7).2 hcurrent⟩
  · obtain ⟨tr, s, htr, hjobs, hauth⟩ := exists_trace_of_exec
      (step Server.login) (init Server.login {} false)
      ([.accept .binary 5, .accept .binary 6, .work (.conn 0) (.frame (.command 2 7)),
          .work (.conn 0) .load] ++ Label.requestAfter (.conn 1) (.command 1 7) 4 ++
        List.replicate 3 (.work (.conn 0) (.progress {})) ++ [.work (.conn 0) .save])
      (fun tr s => (jobsOn 7 (eventsOf tr)).length = 2 ∧ (s.record 7).authenticated = false)
      (by decide +kernel)
    obtain ⟨chain, hchain, -⟩ := (record_serial Server.login {} false htr 7).1
    exact ⟨tr, s, chain, htr, hjobs, hauth, hchain⟩

theorem authenticated_of_login {job : Job} {r r' : Session}
    (hjob : job.request = (.command 1 7, .tcp)) (h : job.Runs Server.login r r') :
    r'.authenticated = true := by
  obtain ⟨state, events, hrun, rfl⟩ := h
  obtain ⟨hframe, htransport⟩ := Prod.mk.inj hjob
  rw [hframe, htransport] at hrun
  -- the coroutine: enter the handler, log in, look at the session, send the reply
  obtain ⟨a₁, as₁, es₁, -, hrun, -⟩ := resume_call_ret.mp hrun
  obtain ⟨a₂, as₂, es₂, -, hrun, -⟩ := resume_call_ret.mp hrun
  obtain ⟨a₃, as₃, es₃, -, hrun, -⟩ := resume_call_ret.mp hrun
  obtain ⟨a₄, as₄, es₄, -, hrun, -⟩ := resume_call_ret.mp hrun
  obtain ⟨-, -, rfl, -⟩ := resume_ofStd_ret hrun
  rfl

theorem eq_of_echo {job : Job} {r r' : Session}
    (hjob : job.request = (.command 2 7, .tcp)) (h : job.Runs Server.login r r') : r' = r := by
  obtain ⟨state, events, hrun, rfl⟩ := h
  obtain ⟨hframe, htransport⟩ := Prod.mk.inj hjob
  rw [hframe, htransport] at hrun
  -- the coroutine: enter the handler, look at the session, send the reply
  obtain ⟨a₁, as₁, es₁, -, hrun, -⟩ := resume_call_ret.mp hrun
  obtain ⟨a₂, as₂, es₂, -, hrun, -⟩ := resume_call_ret.mp hrun
  obtain ⟨a₃, as₃, es₃, -, hrun, -⟩ := resume_call_ret.mp hrun
  obtain ⟨-, -, rfl, -⟩ := resume_ofStd_ret hrun
  rfl

theorem authenticated_of_serial {jobs : List Job} {r r' : Session}
    (h : Serial Server.login r jobs r')
    (hjobs : ∀ job ∈ jobs, job.request = (.command 1 7, .tcp) ∨ job.request = (.command 2 7, .tcp))
    (hlogin : r.authenticated = true ∨ ∃ job ∈ jobs, job.request = (.command 1 7, .tcp)) :
    r'.authenticated = true := by
  induction h with
  | nil r => simpa using hlogin
  | @cons r m r' job jobs hrun hrest ih =>
      refine ih (fun j hj => hjobs j (List.mem_cons_of_mem _ hj)) ?_
      cases hjobs job (by simp) with
      | inl hjob => exact .inl (authenticated_of_login hjob hrun)
      | inr hjob =>
          cases hlogin with
          | inl hr => exact .inl (eq_of_echo hjob hrun ▸ hr)
          | inr hex =>
              obtain ⟨j, hj, hjlogin⟩ := hex
              cases List.mem_cons.mp hj with
              | inl hself =>
                  rw [hself, hjob] at hjlogin
                  exact absurd hjlogin (by decide)
              | inr hj => exact .inr ⟨j, hj, hjlogin⟩

/-- A request is in flight on session 7 while another one logs the session in; when the first
one is saved, the login is undone, which no order of the two requests does. -/
theorem not_serialisable_login :
    ¬ ∀ srv discovery enabled tr s, Trace (step srv) (init srv discovery enabled) tr s → ∀ sid,
      ∃ jobs, (jobs.map Job.request).Perm ((jobsOn sid (eventsOf tr)).map Job.request) ∧
        Serial srv { id := sid } jobs (s.record sid) := by
  intro h
  obtain ⟨tr, s, htr, hdone, hauth⟩ := exists_trace_of_exec
    (step Server.login) (init Server.login {} false)
    ([.accept .binary 5, .accept .binary 6, .work (.conn 0) (.frame (.command 2 7)),
        .work (.conn 0) .load] ++ Label.requestAfter (.conn 1) (.command 1 7) 4 ++
      List.replicate 3 (.work (.conn 0) (.progress {})) ++ [.work (.conn 0) .save])
    (fun tr s => (jobsOn 7 (eventsOf tr)).map Job.request =
      [(.command 1 7, .tcp), (.command 2 7, .tcp)] ∧ (s.record 7).authenticated = false)
    (by decide +kernel)
  obtain ⟨jobs, hperm, hserial⟩ := h Server.login {} false tr s htr 7
  rw [hdone] at hperm
  have hmem : ∀ q, (∃ job ∈ jobs, job.request = q) ↔
      q ∈ [(ClientFrame.command 1 7, TransportType.tcp), (.command 2 7, .tcp)] := fun q =>
    List.mem_map.symm.trans hperm.mem_iff
  have hlogged := authenticated_of_serial hserial
    (fun job hjob => by simpa using (hmem job.request).mp ⟨job, hjob, rfl⟩)
    (.inr ((hmem _).mpr (by simp)))
  rw [hauth] at hlogged
  cases hlogged

end Engine

end Servd
