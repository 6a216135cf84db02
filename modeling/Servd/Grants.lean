import Servd.Broadcast
import Servd.Gate
import Servd.Ledger

/-!
Where an authentication comes from. A request changes nothing but its own copy of the
session, and the copies get around by loads and saves only. So behind every record that is
authenticated, in the store, in a request or in a broadcast, there is an earlier call of
application code that may log in, with a context of the transport it came in on.
-/
namespace Servd

open Coroutine Transition

def UserOp.logsIn : UserOp → Bool
  | .setAuthenticated state _ => state
  | .session | .setAesKey _ | .getLocal _ | .setLocal _ _ | .pushEvent _ _ | .await => false

def Op.logsIn : Op → Bool
  | .user u => u.logsIn
  | .sendFrame _ _ | .generatePrivate | .genIv | .enterAuthenticator _ | .enterHandler _ => false

/-- The application code that a request may come to. -/
inductive Callee
  | authenticator | handler
  deriving DecidableEq

def Callee.event (callee : Callee) (ctx : Context) (t : RequestState) : RequestEvent :=
  match callee with
  | .authenticator => .authenticatorCalled ctx t
  | .handler => .handlerCalled ctx t

/-- Application code may log a session in where `grants` says so. With other contexts the
authenticator does not, and neither does the handler, if the gate lets the transport through. -/
structure Server.GrantsOnly (srv : Server) (grants : Callee → Context → Prop) : Prop where
  authenticator : ∀ ctx, ¬ grants .authenticator ctx →
    (srv.authenticator ctx).Always (·.logsIn = false)
  handler : ∀ (ctx : Context) ep handler,
    srv.router.get ctx.header.commandId = some (ep, handler) → ep.allows ctx.transport →
      ¬ grants .handler ctx → (handler ctx).Always (·.logsIn = false)

/-- Application code is entered that may log in. -/
def Op.Enters (grants : Callee → Context → Prop) (transport : TransportType) : Op → Prop
  | .enterAuthenticator ctx => grants .authenticator ctx ∧ ctx.transport = transport
  | .enterHandler ctx => grants .handler ctx ∧ ctx.transport = transport
  | .user _ | .sendFrame _ _ | .generatePrivate | .genIv => False

/-- No login happens unless application code is entered that may make one. -/
abbrev Task.Withholds {α : Type} (grants : Callee → Context → Prop) (transport : TransportType)
    (c : Task α) : Prop :=
  c.Until (·.logsIn = false) (Op.Enters grants transport)

theorem always_lift_of {α : Type} {P : Op → Prop} {c : UserTask α}
    (h : c.Always fun u => P (.user u)) : c.lift.Always P := by
  induction c with
  | ret _ | throw _ => trivial
  | call u k ih => exact ⟨h.1, fun r => ih r (h.2 r)⟩

section Withholds

variable {srv : Server} {grants : Callee → Context → Prop} {transport : TransportType}

theorem withholds_ofStd {α : Type} (r : Except String α) :
    (Task.ofStd r).Withholds grants transport :=
  Coro.until_of_always (always_ofStd r)

theorem withholds_session : Task.session.Withholds grants transport :=
  .inr ⟨rfl, fun _ => trivial⟩

theorem withholds_sendFrame (header : FrameHeader) (payload : Bytes) :
    (Task.sendFrame header payload).Withholds grants transport :=
  .inr ⟨rfl, withholds_ofStd⟩

theorem withholds_plainReply (cmd : UInt16) (response : ResponseFrame) :
    (plainReply cmd response).Withholds grants transport :=
  Coro.until_bind withholds_session fun _ => withholds_sendFrame _ _

theorem withholds_encryptedReply (key : AesKey) (cmd : UInt16) (response : ResponseFrame) :
    (srv.encryptedReply key cmd response).Withholds grants transport :=
  Coro.until_bind (.inr ⟨rfl, withholds_ofStd⟩) fun _ =>
    Coro.until_bind (withholds_ofStd _) fun _ =>
      Coro.until_bind withholds_session fun _ => withholds_sendFrame _ _

theorem withholds_handleKeyExchange (frame : ClientFrame) :
    (srv.handleKeyExchange frame).Withholds grants transport := by
  unfold Server.handleKeyExchange
  split
  · trivial
  · refine Coro.until_bind (.inr ⟨rfl, withholds_ofStd⟩) fun _ => ?_
    refine Coro.until_bind (withholds_ofStd _) fun _ => ?_
    refine Coro.until_bind (withholds_ofStd _) fun _ => ?_
    refine Coro.until_bind (.inr ⟨rfl, fun _ => trivial⟩) fun _ => ?_
    exact Coro.until_bind withholds_session fun _ => withholds_sendFrame _ _

theorem Server.GrantsOnly.gate (h : srv.GrantsOnly grants) (ctx : Context) {ep : Endpoint}
    {handler : Handler} (hget : srv.router.get ctx.header.commandId = some (ep, handler))
    (hctx : ctx.transport = transport) {reply : ResponseFrame → Task Unit}
    (hreply : ∀ r, (reply r).Withholds grants transport) :
    (srv.gate ep handler ctx >>= replyWith reply).Withholds grants transport := by
  rw [gate_bind]
  refine Coro.until_bind ?_ fun admitted => ?_
  · unfold Server.admission
    split
    · by_cases hgrants : grants .authenticator ctx
      · exact .inl ⟨hgrants, hctx⟩
      · exact .inr ⟨rfl, fun _ => Coro.until_of_always
          (always_lift_of (h.authenticator ctx hgrants))⟩
    · trivial
  · split
    · rename_i hadmitted
      refine Coro.until_bind ?_ hreply
      by_cases hgrants : grants .handler ctx
      · exact .inl ⟨hgrants, hctx⟩
      · exact .inr ⟨rfl, fun _ => Coro.until_of_always
          (always_lift_of (h.handler ctx ep handler hget hadmitted.2 hgrants))⟩
    · trivial

theorem Server.GrantsOnly.processCommand (h : srv.GrantsOnly grants) (frame : ClientFrame) :
    (srv.processCommand frame transport).Withholds grants transport := by
  unfold Server.processCommand
  split
  · exact withholds_handleKeyExchange frame
  · split
    · refine Coro.until_bind withholds_session fun session => ?_
      refine Coro.until_bind (withholds_ofStd _) fun msg => ?_
      cases msg with
      | none => trivial
      | some m =>
          obtain ⟨⟨key⟩, cmd, inner⟩ := m
          change (srv.doRouteAndSend transport ⟨key⟩ cmd inner).Withholds grants transport
          cases hget : srv.router.get cmd with
          | none =>
              simp only [Server.doRouteAndSend, hget]
              trivial
          | some found =>
              obtain ⟨ep, handler⟩ := found
              rw [doRouteAndSend_gate hget]
              exact Coro.until_bind withholds_session fun session =>
                h.gate (innerContext transport session.id cmd inner) hget rfl
                  (withholds_encryptedReply key cmd)
    · cases hget : srv.router.get frame.header.commandId with
      | none =>
          simp only [Server.handleNormalCommand, hget]
          trivial
      | some found =>
          obtain ⟨ep, handler⟩ := found
          rw [handleNormalCommand_eq hget]
          exact h.gate ⟨frame.header, frame.payload, transport⟩ hget rfl (withholds_plainReply _)

end Withholds

/-- Everything but a login leaves a session that is not authenticated as it is. -/
theorem answerOp_keeps_out {t : RequestState} {o : Op} (a : Answer) {sid : UInt64}
    (ho : o.logsIn = false) (ht : t.session.authenticated = false ∧ t.session.id = sid) :
    (answerOp t a o).2.1.session.authenticated = false ∧
      (answerOp t a o).2.1.session.id = sid := by
  cases o with
  | user u =>
      cases u with
      | setAuthenticated state user => exact ⟨ho, ht.2⟩
      | session | setAesKey _ | getLocal _ | setLocal _ _ | pushEvent _ _ | await => exact ht
  | sendFrame _ _ | generatePrivate | genIv | enterAuthenticator _ | enterHandler _ => exact ht

/-- A request that has an authenticated session loaded it so, or has entered application code
that may log in. -/
theorem Request.Consistent.login {srv : Server} {grants : Callee → Context → Prop}
    {transport : TransportType} {req : Request} (hgrants : srv.GrantsOnly grants)
    (h : req.Consistent srv transport) (hauth : req.state.session.authenticated = true) :
    req.loaded.authenticated = true ∨ ∃ callee ctx t, Callee.event callee ctx t ∈ req.events ∧
      ctx.transport = transport ∧ t.session.id = req.loaded.id ∧ grants callee ctx := by
  cases hloaded : req.loaded.authenticated with
  | true => exact .inl rfl
  | false =>
      have hout := until_resume
        (I := fun t => t.session.authenticated = false ∧ t.session.id = req.loaded.id)
        (fun _ _ a => answerOp_keeps_out a) (hgrants.processCommand req.frame) ⟨hloaded, rfl⟩ h.run
      rcases hout with hkept | ⟨t, o, a, ht, ho, hes⟩
      · rw [hkept.1] at hauth
        cases hauth
      · cases o with
        | user _ | sendFrame _ _ | generatePrivate | genIv => cases ho
        | enterAuthenticator ctx =>
            exact .inr ⟨.authenticator, ctx, t, hes _ (List.mem_singleton_self _), ho.2, ht.2, ho.1⟩
        | enterHandler ctx =>
            exact .inr ⟨.handler, ctx, t, hes _ (List.mem_singleton_self _), ho.2, ht.2, ho.1⟩

namespace Engine

/-- Application code that may log in has been called for the session, by a worker of the
context's transport. -/
def Granted (grants : Callee → Context → Prop) (evs : List Event) (sid : UInt64) : Prop :=
  ∃ w callee ctx t, .request w (Callee.event callee ctx t) ∈ evs ∧
    ctx.transport = w.transport ∧ t.session.id = sid ∧ grants callee ctx

theorem Granted.append {grants : Callee → Context → Prop} {evs : List Event} {sid : UInt64}
    (h : Granted grants evs sid) (evs' : List Event) : Granted grants (evs ++ evs') sid := by
  obtain ⟨w, callee, ctx, t, he, hcall⟩ := h
  exact ⟨w, callee, ctx, t, List.mem_append_left _ he, hcall⟩

/-- What is authenticated has been granted, wherever the record is: in the store, where a request
loaded it, and where a broadcast is about to test it. -/
structure Provenance (grants : Callee → Context → Prop) (evs : List Event) (s : Engine) : Prop where
  store : ∀ sid record, s.store.lookup sid = some record → record.authenticated = true →
    Granted grants evs sid
  loaded : ∀ w req, s.inFlight w = some req → req.loaded.authenticated = true →
    Granted grants evs req.loaded.id
  events : ∀ w req, s.inFlight w = some req → ∀ e ∈ req.events, .request w e ∈ evs
  casts : ∀ b ∈ s.casts, ∀ session, b.stage = .fetched session → session.authenticated = true →
    ∃ sid ∈ b.testedId, Granted grants evs sid

section Steps

variable {srv : Server} {grants : Callee → Context → Prop} {evs evs' : List Event} {s s' : Engine}
  {a : Label}

theorem Provenance.request (h : Provenance grants evs s) (hgrants : srv.GrantsOnly grants)
    (hc : RequestsConsistent srv s) {w : Worker} {req : Request} (hreq : s.inFlight w = some req)
    (hauth : req.state.session.authenticated = true) :
    Granted grants evs req.state.session.id := by
  have hrun := hc w req hreq
  rw [resume_session_id hrun.run]
  rcases hrun.login hgrants hauth with hloaded | ⟨callee, ctx, t, he, hcall⟩
  · exact h.loaded w req hreq hloaded
  · exact ⟨w, callee, ctx, t, h.events w req hreq _ he, hcall⟩

/-- A record that is new in the store is not authenticated. -/
theorem Provenance.grown (h : Provenance grants evs s) {store : InMemorySessionStore}
    (hstore : StoreGrows s.store store) {sid : UInt64} {record : Session}
    (hl : store.lookup sid = some record) (hauth : record.authenticated = true) :
    Granted grants evs sid := by
  rcases hstore sid with hsame | ⟨-, hnew⟩
  · exact h.store sid record (hsame ▸ hl) hauth
  · rw [hnew] at hl
    cases hl
    cases hauth

theorem Provenance.fetched (h : Provenance grants evs s) {sid : UInt64}
    (hauth : (s.store.getOrCreate sid).1.authenticated = true) : Granted grants evs sid :=
  h.grown (storeGrows_getOrCreate s.store sid) (s.store.lookup_getOrCreate_self sid) hauth

/-- A broadcast that has a record has just read it from the store, or had it before. -/
theorem fetched_step (hs : s.step srv a = some (s', evs')) {b : Cast} (hb : b ∈ s'.casts)
    {session : Session} (hst : b.stage = .fetched session) :
    b ∈ s.casts ∨ ∃ sid ∈ b.testedId, session = (s.store.getOrCreate sid).1 := by
  cases step_form hs with
  | accepted _ _ _ _ | rejected _ _ _ _ | sentTo _ _ _ | settings _ _ _ => exact .inl hb
  | conn hc hstep => cases hstep <;> exact .inl hb
  | udp hp hstep => cases hstep <;> exact .inl hb
  | castStarted commandId payload predicate order hperm =>
      rcases List.mem_append.mp hb with hb | hb
      · exact .inl hb
      · rw [List.mem_singleton] at hb
        subst hb
        exact absurd hst ((nextCast_spec s _ _).2.2 session)
  | @castResumed k b₀ r _ _ hb₀ hstep =>
      cases castStep_cases hstep with
      | thrown _ _ | chosen _ _ _ _ _ _ =>
          rcases List.mem_or_eq_of_mem_set hb with hb | hb
          · exact .inl hb
          · subst hb
            cases hst
      | written _ | skipped _ _ _ _ _ _ =>
          rcases List.mem_or_eq_of_mem_set hb with hb | hb
          · exact .inl hb
          · subst hb
            exact absurd hst ((nextCast_spec s _ _).2.2 session)
      | fetched entry rest _ hr =>
          rcases List.mem_or_eq_of_mem_set hb with hb | hb
          · exact .inl hb
          · subst hb
            cases hst
            exact .inr ⟨entry.1, by simp [Cast.testedId, hr], rfl⟩

theorem Provenance.store_step (h : Provenance grants evs s) (hgrants : srv.GrantsOnly grants)
    (hc : RequestsConsistent srv s) (hs : s.step srv a = some (s', evs')) {sid : UInt64}
    {record : Session} (hl : s'.store.lookup sid = some record)
    (hauth : record.authenticated = true) : Granted grants evs sid := by
  cases requestCase_step hs with
  | load w f _ _ hstore => exact h.grown (hstore ▸ storeGrows_getOrCreate _ _) hl hauth
  | progress _ _ _ _ _ _ _ _ _ hstore _ =>
      rw [hstore] at hl
      exact h.store sid record hl hauth
  | save w req hreq _ _ _ hstore =>
      rw [hstore] at hl
      by_cases hsid : sid = req.state.session.id
      · subst hsid
        rw [InMemorySessionStore.lookup_save_self] at hl
        cases hl
        exact h.request hgrants hc hreq hauth
      · rw [InMemorySessionStore.lookup_save_ne _ _ hsid] at hl
        exact h.store sid record hl hauth
  | other _ hstore _ => exact h.grown hstore hl hauth

/-- What a step makes of a request: it loads a record that was granted, and shows its events. -/
theorem Provenance.request_step (h : Provenance grants evs s) (hk : s.StoreKeyed)
    (hs : s.step srv a = some (s', evs')) {w : Worker} {req : Request}
    (hreq : s'.inFlight w = some req) :
    (req.loaded.authenticated = true → Granted grants evs req.loaded.id) ∧
      ∀ e ∈ req.events, .request w e ∈ evs ++ evs' := by
  obtain ⟨read, done, hturn⟩ : ∃ read done,
      Turn srv s w a (s.phaseOf w) read done (requestEvents w evs') (s'.phaseOf w) :=
    ⟨_, _, turn_step hs w⟩
  have hevs : ∀ e ∈ requestEvents w evs', Event.request w e ∈ evs' :=
    fun e he => mem_requestEvents.mp he
  have hbefore := fun before hbefore => And.intro (h.loaded w before hbefore) (h.events w before hbefore)
  unfold inFlight at hreq hbefore
  generalize s.phaseOf w = p at hturn hbefore
  generalize s'.phaseOf w = p' at hturn hreq
  generalize requestEvents w evs' = es at hturn hevs
  cases hturn with
  | idle p =>
      exact ⟨(hbefore req hreq).1, fun e he => List.mem_append_left _ ((hbefore req hreq).2 e he)⟩
  | load f =>
      cases hreq
      refine ⟨fun hauth => ?_, fun e he => by cases he⟩
      exact (hk.getOrCreate_id f.header.sessionId).symm ▸ h.fetched hauth
  | progress ans before req' es ha hadv =>
      cases hreq
      obtain ⟨state, task, -, rfl⟩ := Request.advance_eq_some.mp hadv
      refine ⟨(hbefore before rfl).1, fun e he => ?_⟩
      rcases List.mem_append.mp he with he | he
      · exact List.mem_append_left _ ((hbefore before rfl).2 e he)
      · exact List.mem_append_right _ (hevs e he)
  | accepted | frame _ _ | save _ _ => cases hreq
  | drop p p' hover =>
      rcases hover with hover | ⟨-, rfl⟩
      · rw [Option.bind_some, Phase.request_of_isOver hover] at hreq
        cases hreq
      · cases hreq

theorem Provenance.step (h : Provenance grants evs s) (hgrants : srv.GrantsOnly grants)
    (hk : s.StoreKeyed) (hc : RequestsConsistent srv s)
    (hs : s.step srv a = some (s', evs')) : Provenance grants (evs ++ evs') s' where
  store _ _ hl hauth := (h.store_step hgrants hc hs hl hauth).append evs'
  loaded _ _ hreq hauth := ((h.request_step hk hs hreq).1 hauth).append evs'
  events _ _ hreq := (h.request_step hk hs hreq).2
  casts b hb session hst hauth := by
    rcases fetched_step hs hb hst with hb | ⟨sid, hsid, rfl⟩
    · obtain ⟨sid, hsid, hgranted⟩ := h.casts b hb session hst hauth
      exact ⟨sid, hsid, hgranted.append evs'⟩
    · exact ⟨sid, hsid, (h.fetched hauth).append evs'⟩

end Steps

theorem provenance_run {srv : Server} {grants : Callee → Context → Prop} (hgrants : srv.GrantsOnly grants)
    {discovery : DiscoveryConfig} {enabled : Bool} {tr : List (Step Engine Label Event)}
    {s : Engine} (h : Trace (step srv) (init srv discovery enabled) tr s) :
    Provenance grants (eventsOf tr) s := by
  induction h with
  | nil =>
      constructor
      · simp [init]
      · intro w req hreq
        rw [inFlight_init] at hreq
        cases hreq
      · intro w req hreq
        rw [inFlight_init] at hreq
        cases hreq
      · simp [init]
  | snoc htr hstep ih =>
      obtain ⟨hk, hc⟩ := requests_run htr
      rw [eventsOf_snoc]
      exact ih.step hgrants hk hc hstep

/-- A broadcast with a predicate writes to a session after it has tested the record. -/
theorem tested_of_wrote {srv : Server} {s s' : Engine} {a : Label} {evs : List Event}
    (hs : s.step srv a = some (s', evs)) {k : Nat} {b : Cast} (hb : s'.casts[k]? = some b)
    {p : Session → Bool} (hp : b.predicate = some p) {sid : UInt64} {fd : Fd} {bytes : Bytes}
    (hev : .wrote (.cast k) sid fd bytes ∈ evs) :
    ∃ b₀ ∈ s.casts, ∃ session, b₀.stage = .fetched session ∧ b₀.testedId = some sid ∧
      p session = true := by
  generalize ho : Origin.cast k = origin at hev
  cases wrote_cases hs hev with
  | reply _ _ _ _ _ _ _ _ _ _ _ _ => cases ho
  | direct d hd hopen =>
      cases a with
      | sendTo sid commandId payload =>
          simp only [directSend, Option.map_eq_some_iff] at hd
          obtain ⟨fd, -, rfl⟩ := hd
          cases ho
      | accept _ _ | work _ _ | app _ | discoveryRequest _ _ | announceTick => cases hd
      | broadcast commandId payload predicate order =>
          obtain ⟨horigin, -, -, hpred⟩ := castSend_eq_some hd
          obtain rfl : s.casts.length = k := by simpa [horigin, eq_comm] using ho
          simp only [step] at hs
          split at hs
          · cases hs
            simp only [List.getElem?_concat_length, Option.some.injEq] at hb
            subst hb
            rw [(nextCast_spec s _ _).1] at hp
            obtain ⟨session, hst, -, -⟩ := hpred p hp
            cases hst
          · cases hs
      | resumeCast k' result =>
          cases result with
          | error e => cases hd
          | ok u =>
              simp only [directSend, Option.bind_eq_some_iff] at hd
              obtain ⟨b₀, hb₀, hd⟩ := hd
              obtain ⟨horigin, -, -, hpred⟩ := castSend_eq_some hd
              obtain rfl : k' = k := by simpa [horigin, eq_comm] using ho
              simp only [step, hb₀, Option.bind_some] at hs
              obtain ⟨b', hcasts, -, hp', -⟩ := castStep_spec hs
              rw [hcasts, List.getElem?_set_self (List.getElem?_eq_some_iff.mp hb₀).1] at hb
              cases hb
              obtain ⟨session, hst, htested, htrue⟩ := hpred p (hp' ▸ hp)
              exact ⟨b₀, List.mem_of_getElem? hb₀, session, hst, htested, htrue⟩

/-- In every run, whoever is authenticated has been logged in: for a record in the store and for a
request in flight, application code that may log in has been called on that session before, with a
context of the worker's own transport. A broadcast whose predicate asks for authentication
writes only to sessions of which this was true before. -/
theorem authenticated_granted (srv : Server) (grants : Callee → Context → Prop)
    (hgrants : srv.GrantsOnly grants) (discovery : DiscoveryConfig) (enabled : Bool)
    (tr : List (Step Engine Label Event)) (s : Engine)
    (h : Trace (step srv) (init srv discovery enabled) tr s) :
    (∀ sid, (s.record sid).authenticated = true → Granted grants (eventsOf tr) sid) ∧
      (∀ w req, s.inFlight w = some req → req.state.session.authenticated = true →
        Granted grants (eventsOf tr) req.frame.header.sessionId) ∧
      ∀ before x after, tr = before ++ x :: after → ∀ k b p, x.post.casts[k]? = some b →
        b.predicate = some p → (∀ session, p session = true → session.authenticated = true) →
          ∀ sid fd bytes, .wrote (.cast k) sid fd bytes ∈ x.events →
            Granted grants (eventsOf before) sid := by
  have hinv := provenance_run hgrants h
  obtain ⟨-, hc⟩ := requests_run h
  refine ⟨fun sid hauth => ?_, fun w req hreq hauth => ?_, ?_⟩
  · rw [record] at hauth
    cases hl : s.store.lookup sid with
    | none =>
        rw [hl] at hauth
        cases hauth
    | some r =>
        rw [hl] at hauth
        exact hinv.store sid r hl hauth
  · rw [← (hc w req hreq).session_id]
    exact hinv.request hgrants hc hreq hauth
  · rintro before x after rfl k b p hb hp hauth sid fd bytes hev
    obtain ⟨m, hbefore, hafter⟩ := h.split
    obtain ⟨hpre, hstep, -⟩ := hafter.split_cons
    obtain ⟨b₀, hb₀, session, hst, htested, htrue⟩ := tested_of_wrote hstep hb hp hev
    obtain ⟨sid', hsid', hgranted⟩ := (provenance_run hgrants hbefore).casts b₀
      (hpre ▸ hb₀) session hst (hauth session htrue)
    rw [Option.mem_def, htested] at hsid'
    cases hsid'
    exact hgranted

end Engine

/-- `MyAuth` logs in with the password, and the handler never does. -/
theorem Server.guarded_grantsOnly :
    Server.guarded.GrantsOnly fun callee ctx =>
      callee = .authenticator ∧ ctx.payload = secretFrame.payload where
  authenticator ctx hctx := by
    have hrefused : Server.guarded.authenticator ctx = .ret false :=
      if_neg fun hpayload => hctx ⟨rfl, hpayload⟩
    rw [hrefused]
    trivial
  handler ctx ep handler hget _ _ := by
    obtain ⟨rfl, hhandler⟩ := Router.get_eq_some.mp hget
    by_cases hcmd : ctx.header.commandId = 1
    · rw [hcmd] at hhandler
      cases hhandler
      trivial
    · simp [Server.guarded, Router.build, RouterCall.apply, Router.add, Router.requireAuth,
        Router.udpOnly, Router.update, Router.empty, hcmd] at hhandler

/-- The password is given on a connection that the command is not for. -/
theorem Engine.authenticated_granted_secret : ∃ tr s,
    Trace (Engine.step Server.guarded) (Engine.init Server.guarded {} false) tr s ∧
      (s.record 7).authenticated = true ∧
      Engine.Granted (fun callee ctx =>
        callee = .authenticator ∧ ctx.payload = secretFrame.payload) (eventsOf tr) 7 := by
  obtain ⟨tr, s, htr, hauth⟩ := exists_trace_of_exec
    (Engine.step Server.guarded) (Engine.init Server.guarded {} false)
    ([.accept .binary 5, .work (.conn 0) (.frame secretFrame), .work (.conn 0) .load] ++
      List.replicate 3 (.work (.conn 0) (.progress {})) ++ [.work (.conn 0) .save])
    (fun _ s => (s.record 7).authenticated = true) (by decide +kernel)
  exact ⟨tr, s, htr, hauth, (Engine.authenticated_granted Server.guarded _
    Server.guarded_grantsOnly {} false tr s htr).1 7 hauth⟩

end Servd
