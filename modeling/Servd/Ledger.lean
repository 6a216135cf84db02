import Servd.EncryptedSession

/-!
What one worker does along a run. `Turn` says what a step means for a worker: the
frame it reads, the request it completes, what its request does, and how its phase
changes. For a connection these add up: what it has read are the frames of its
completed requests and the frame it is busy with, until it is over.
-/
namespace Servd

open Coroutine Transition

def Phase.events : Phase → List RequestEvent
  | .processing req => req.events
  | .reading | .loading _ | .notifying | .ended => []

/-- The loop of the coroutine has been left. -/
def Phase.isOver : Phase → Bool
  | .notifying | .ended => true
  | .reading | .loading _ | .processing _ => false

theorem Phase.frame_of_isOver {p : Phase} (h : p.isOver = true) : p.frame = none := by
  cases p with
  | notifying | ended => rfl
  | reading | loading _ | processing _ => cases h

theorem Phase.request_of_isOver {p : Phase} (h : p.isOver = true) : p.request = none := by
  cases p with
  | notifying | ended => rfl
  | reading | loading _ | processing _ => cases h

theorem Phase.events_of_isOver {p : Phase} (h : p.isOver = true) : p.events = [] := by
  cases p with
  | notifying | ended => rfl
  | reading | loading _ | processing _ => cases h

namespace Engine

def pendingFrame (s : Engine) (w : Worker) : Option ClientFrame := (s.phaseOf w).bind (·.frame)

theorem pendingFrame_of_inFlight {s : Engine} {w : Worker} {req : Request}
    (h : s.inFlight w = some req) : s.pendingFrame w = some req.frame := by
  obtain ⟨p, hp, hreq⟩ := Option.bind_eq_some_iff.mp h
  cases p with
  | processing req' =>
      cases hreq
      simp [pendingFrame, hp, Phase.frame]
  | reading | loading _ | notifying | ended => cases hreq

def frameRead (w : Worker) : Label → Option ClientFrame
  | .work w' (.frame f) => if w' = w then some f else none
  | _ => none

def framesRead (w : Worker) (tr : List (Step Engine Label Event)) : List ClientFrame :=
  tr.filterMap fun x => frameRead w x.label

def completedBy (w : Worker) (evs : List Event) : List Request :=
  ((completed evs).filter (·.1 = w)).map Prod.snd

@[simp] theorem framesRead_snoc (w : Worker) (tr : List (Step Engine Label Event))
    (x : Step Engine Label Event) :
    framesRead w (tr ++ [x]) = framesRead w tr ++ (frameRead w x.label).toList := by
  cases h : frameRead w x.label <;> simp [framesRead, h]

@[simp] theorem completedBy_append (w : Worker) (evs evs' : List Event) :
    completedBy w (evs ++ evs') = completedBy w evs ++ completedBy w evs' := by
  simp [completedBy, completed]

theorem completedBy_of_not_saved {evs : List Event} (h : ∀ w req, .saved w req ∉ evs)
    (w : Worker) : completedBy w evs = [] := by
  have hnone : completed evs = [] := by
    refine List.filterMap_eq_nil_iff.mpr fun e he => ?_
    cases e with
    | saved w' req => exact absurd he (h w' req)
    | wrote _ _ _ _ | sentDatagram _ _ | request _ _ | closed _ | discoveryReply _ | announced _ =>
        rfl
  simp [completedBy, hnone]

theorem completedBy_saved_self (w : Worker) (req : Request) :
    completedBy w [.saved w req] = [req] := by
  simp [completedBy, completed, savedRequest]

theorem completedBy_saved_ne {w w' : Worker} (h : w' ≠ w) (req : Request) :
    completedBy w [.saved w' req] = [] := by
  simp [completedBy, completed, savedRequest, h]

/-- A step as one worker takes part in it: its phase before, the frame it reads, the requests it
completes, the events of its request, and its phase after. -/
inductive Turn (srv : Server) (s : Engine) (w : Worker) (a : Label) :
    Option Phase → Option ClientFrame → List Request → List RequestEvent → Option Phase → Prop
  | idle (p : Option Phase) : Turn srv s w a p none [] [] p
  | accepted : Turn srv s w a none none [] [] (some .reading)
  | frame (f : ClientFrame) (ha : a = .work w (.frame f)) :
      Turn srv s w a (some .reading) (some f) [] [] (some (.loading f))
  | load (f : ClientFrame) : Turn srv s w a (some (.loading f)) none [] []
      (some (.processing
        (.start srv f w.transport (s.store.getOrCreate f.header.sessionId).1)))
  | progress (ans : Answer) (req req' : Request) (es : List RequestEvent)
      (ha : a = .work w (.progress ans)) (hadv : req.advance ans = some (req', es)) :
      Turn srv s w a (some (.processing req)) none [] es (some (.processing req'))
  | save (req : Request) (ht : req.task = .ret ()) :
      Turn srv s w a (some (.processing req)) none [req] [] (some .reading)
  | drop (p p' : Phase) (hp' : p'.isOver = true ∨ (∃ j, w = .udp j) ∧ p' = .reading) :
      Turn srv s w a (some p) none [] [] (some p')

theorem turn_step {srv : Server} {s s' : Engine} {a : Label} {evs : List Event}
    (h : s.step srv a = some (s', evs)) (w : Worker) :
    Turn srv s w a (s.phaseOf w) (frameRead w a) (completedBy w evs) (requestEvents w evs)
      (s'.phaseOf w) := by
  -- a step that is none of the worker's
  have idle : frameRead w a = none → completedBy w evs = [] → requestEvents w evs = [] →
      s'.phaseOf w = s.phaseOf w → Turn srv s w a (s.phaseOf w) (frameRead w a)
        (completedBy w evs) (requestEvents w evs) (s'.phaseOf w) := by
    intro hframe hdone hevents hphase
    rw [hframe, hdone, hevents, hphase]
    exact .idle _
  cases phaseCase_step h with
  | @work w' act p p' _ _ hp hp' hothers hstep =>
      by_cases hw : w' = w
      · subst hw
        rw [hp, hp']
        generalize s'.store = store at hstep
        cases hstep with
        | frame f =>
            simp only [frameRead, if_true]
            exact .frame f rfl
        | load f => exact .load f
        | progress ans req req' es ha hevs =>
            rw [completedBy_of_not_saved hevs.unsaved, hevs.own]
            exact .progress ans req req' es rfl ha
        | save req ht =>
            rw [completedBy_saved_self]
            exact .save req ht
        | drop hact hover hevs hsaved =>
            rw [completedBy_of_not_saved hsaved, requestEvents_eq_nil hevs]
            have hread : frameRead w' (.work w' act) = none := by
              cases act with
              | frame f => exact absurd rfl (hact f)
              | load | progress _ | save | fail _ | notified _ => rfl
            rw [hread]
            refine .drop p p' ?_
            rcases hover with rfl | rfl | hudp
            · exact .inl rfl
            · exact .inl rfl
            · exact .inr hudp
      · have hread : frameRead w (.work w' act) = none := by
          cases act with
          | frame f => exact if_neg hw
          | load | progress _ | save | fail _ | notified _ => rfl
        have hphase := hothers w (Ne.symm hw)
        generalize s'.store = store at hstep
        cases hstep with
        | frame f | load f => exact idle hread rfl rfl hphase
        | progress ans req req' es ha hevs =>
            exact idle hread (completedBy_of_not_saved hevs.unsaved w)
              (hevs.others w (Ne.symm hw)) hphase
        | save req ht => exact idle hread (completedBy_saved_ne hw req) rfl hphase
        | drop hact hover hevs hsaved =>
            exact idle hread (completedBy_of_not_saved hsaved w) (requestEvents_eq_nil hevs w) hphase
  | other hnot hphases hstore hevs hsaved =>
      have hread : frameRead w a = none := by
        cases a with
        | work w' act => exact absurd rfl (hnot w' act)
        | accept _ _ | sendTo _ _ _ | broadcast _ _ _ _ | resumeCast _ _ | app _
        | discoveryRequest _ _ | announceTick => rfl
      rcases hphases w with hsame | ⟨hbefore, hafter⟩
      · exact idle hread (completedBy_of_not_saved hsaved w) (requestEvents_eq_nil hevs w) hsame
      · rw [hbefore, hread, completedBy_of_not_saved hsaved, requestEvents_eq_nil hevs, hafter]
        exact .accepted

/-- A request in flight after a step was there before, has just been started, or has been
resumed. -/
theorem inFlight_step {srv : Server} {s s' : Engine} {a : Label} {evs : List Event}
    (h : s.step srv a = some (s', evs)) {w : Worker} {req : Request}
    (hreq : s'.inFlight w = some req) :
    s.inFlight w = some req ∨
      (∃ f, req = .start srv f w.transport (s.store.getOrCreate f.header.sessionId).1) ∨
      ∃ ans before es, a = .work w (.progress ans) ∧ s.inFlight w = some before ∧
        before.advance ans = some (req, es) := by
  obtain ⟨read, done, es, hturn⟩ : ∃ read done es,
      Turn srv s w a (s.phaseOf w) read done es (s'.phaseOf w) := ⟨_, _, _, turn_step h w⟩
  unfold inFlight at hreq ⊢
  generalize s.phaseOf w = p at hturn ⊢
  generalize s'.phaseOf w = p' at hturn hreq
  cases hturn with
  | idle p => exact .inl hreq
  | load f =>
      cases hreq
      exact .inr (.inl ⟨f, rfl⟩)
  | progress ans before req' es ha hadv =>
      cases hreq
      exact .inr (.inr ⟨ans, before, es, ha, rfl, hadv⟩)
  | accepted | frame _ _ | save _ _ => cases hreq
  | drop p p' hover =>
      rcases hover with hover | ⟨-, rfl⟩
      · rw [Option.bind_some, Phase.request_of_isOver hover] at hreq
        cases hreq
      · cases hreq

/-- The account of a connection: it has read the frames of its completed requests and the one it
is busy with, and its requests did what the completed ones and the current one did. What a
connection that is over had begun and not completed comes after that. -/
def Ledger (i : Nat) (tr : List (Step Engine Label Event)) (s : Engine) : Prop :=
  ∃ frames events,
    framesRead (.conn i) tr = (completedBy (.conn i) (eventsOf tr)).map (·.frame) ++
      (s.pendingFrame (.conn i)).toList ++ frames ∧
    requestEvents (.conn i) (eventsOf tr) =
      (completedBy (.conn i) (eventsOf tr)).flatMap (·.events) ++
        ((s.phaseOf (.conn i)).map (·.events)).getD [] ++ events ∧
    ((∃ p, s.phaseOf (.conn i) = some p ∧ p.isOver = true) ∨ frames = [] ∧ events = [])

theorem Ledger.step {srv : Server} {i : Nat} {tr : List (Step Engine Label Event)}
    {s s' : Engine} {a : Label} {evs : List Event} (h : Ledger i tr s)
    (hs : s.step srv a = some (s', evs)) : Ledger i (tr ++ [⟨s, a, evs, s'⟩]) s' := by
  obtain ⟨frames, events, hframes, hevents, hopen⟩ := h
  have hturn := turn_step hs (.conn i)
  unfold pendingFrame at hframes
  unfold Ledger pendingFrame
  simp only [framesRead_snoc, eventsOf_snoc, completedBy_append, requestEvents_append, hframes,
    hevents, List.map_append, List.flatMap_append]
  generalize s.phaseOf (.conn i) = p at hturn hopen ⊢
  generalize frameRead (.conn i) a = read at hturn ⊢
  generalize completedBy (.conn i) evs = done at hturn ⊢
  generalize requestEvents (.conn i) evs = es at hturn ⊢
  generalize s'.phaseOf (.conn i) = p' at hturn ⊢
  -- in every turn but the idle one and the last the loop has not been left
  cases hturn with
  | idle p => exact ⟨frames, events, by simp, by simp, hopen⟩
  | accepted =>
      obtain ⟨rfl, rfl⟩ := hopen.resolve_left (by simp)
      exact ⟨[], [], by simp [Phase.frame], by simp [Phase.events], .inr ⟨rfl, rfl⟩⟩
  | frame f _ =>
      obtain ⟨rfl, rfl⟩ := hopen.resolve_left (by simp [Phase.isOver])
      exact ⟨[], [], by simp [Phase.frame], by simp [Phase.events], .inr ⟨rfl, rfl⟩⟩
  | load f =>
      obtain ⟨rfl, rfl⟩ := hopen.resolve_left (by simp [Phase.isOver])
      exact ⟨[], [], by simp [Phase.frame, Request.start],
        by simp [Phase.events, Request.start], .inr ⟨rfl, rfl⟩⟩
  | progress ans req req' es _ hadv =>
      obtain ⟨rfl, rfl⟩ := hopen.resolve_left (by simp [Phase.isOver])
      obtain ⟨state, task, -, rfl⟩ := Request.advance_eq_some.mp hadv
      exact ⟨[], [], by simp [Phase.frame], by simp [Phase.events], .inr ⟨rfl, rfl⟩⟩
  | save req _ =>
      obtain ⟨rfl, rfl⟩ := hopen.resolve_left (by simp [Phase.isOver])
      exact ⟨[], [], by simp [Phase.frame], by simp [Phase.events], .inr ⟨rfl, rfl⟩⟩
  | drop p p' hover =>
      have hover : p'.isOver = true := hover.resolve_right (by simp)
      exact ⟨p.frame.toList ++ frames, p.events ++ events, by simp [Phase.frame_of_isOver hover],
        by simp [Phase.events_of_isOver hover], .inl ⟨p', rfl, hover⟩⟩

theorem ledger_run {srv : Server} {discovery : DiscoveryConfig} {enabled : Bool}
    {tr : List (Step Engine Label Event)} {s : Engine} (i : Nat)
    (h : Trace (step srv) (init srv discovery enabled) tr s) : Ledger i tr s := by
  induction h with
  | nil => exact ⟨[], [], rfl, rfl, .inr ⟨rfl, rfl⟩⟩
  | snoc _ hstep ih => exact ih.step hstep

/-- Only one connection has to do with a session: no other worker is busy with a frame for it, and
a request of the connection on it has loaded the record that is held. -/
structure SoleUse (s : Engine) (i : Nat) (sid : UInt64) : Prop where
  others : ∀ w, w ≠ .conn i → ∀ f, s.pendingFrame w = some f → f.header.sessionId ≠ sid
  current : ∀ req, s.inFlight (.conn i) = some req → req.frame.header.sessionId = sid →
    req.loaded = s.record sid

/-- No worker but the connection reads a frame for the session. -/
def ReadsAlone (i : Nat) (sid : UInt64) : Label → Prop
  | .work w (.frame f) => f.header.sessionId = sid → w = .conn i
  | _ => True

instance (i : Nat) (sid : UInt64) : (a : Label) → Decidable (ReadsAlone i sid a)
  | .work w (.frame f) => inferInstanceAs (Decidable (f.header.sessionId = sid → w = .conn i))
  | .work _ .load | .work _ (.progress _) | .work _ .save | .work _ (.fail _)
  | .work _ (.notified _) | .accept _ _ | .sendTo _ _ _ | .broadcast _ _ _ _ | .resumeCast _ _
  | .app _ | .discoveryRequest _ _ | .announceTick => inferInstanceAs (Decidable True)

theorem pendingFrame_step {srv : Server} {s s' : Engine} {a : Label} {evs : List Event}
    (h : s.step srv a = some (s', evs)) {w : Worker} {f : ClientFrame}
    (hf : s'.pendingFrame w = some f) : s.pendingFrame w = some f ∨ a = .work w (.frame f) := by
  obtain ⟨read, done, es, hturn⟩ : ∃ read done es,
      Turn srv s w a (s.phaseOf w) read done es (s'.phaseOf w) := ⟨_, _, _, turn_step h w⟩
  unfold pendingFrame at hf ⊢
  generalize s.phaseOf w = p at hturn ⊢
  generalize s'.phaseOf w = p' at hturn hf
  cases hturn with
  | idle p => exact .inl hf
  | accepted => cases hf
  | frame f' ha =>
      cases hf
      exact .inr ha
  | load f' => exact .inl hf
  | progress ans req req' es _ hadv =>
      obtain ⟨state, task, -, rfl⟩ := Request.advance_eq_some.mp hadv
      exact .inl hf
  | save req _ => cases hf
  | drop p p' hover =>
      rcases hover with hover | ⟨-, rfl⟩
      · rw [Option.bind_some, Phase.frame_of_isOver hover] at hf
        cases hf
      · cases hf

theorem record_step {srv : Server} {s s' : Engine} {a : Label} {evs : List Event} {i : Nat}
    {sid : UInt64} (h : SoleUse s i sid) (hr : RequestsConsistent srv s)
    (hs : s.step srv a = some (s', evs)) :
    s'.record sid = s.record sid ∧ completedBy (.conn i) evs = [] ∨
      ∃ req, s.inFlight (.conn i) = some req ∧ req.task = .ret () ∧
        s'.inFlight (.conn i) = none ∧ completedBy (.conn i) evs = [req] ∧
        (req.frame.header.sessionId = sid → s'.record sid = req.state.session) := by
  cases requestCase_step hs with
  | load w f hreq hothers hstore =>
      exact .inl ⟨record_of_grows (hstore ▸ storeGrows_getOrCreate _ _) sid, rfl⟩
  | progress w ans req req' es hreq ha hreq' hothers hstore hsaved =>
      exact .inl ⟨record_of_grows (hstore ▸ storeGrows_refl _) sid,
        completedBy_of_not_saved hsaved _⟩
  | save w req hreq ht hdone hothers hstore =>
      have hrecord := record_save hstore sid
      rw [(hr w req hreq).session_id] at hrecord
      by_cases hw : w = .conn i
      · subst hw
        refine .inr ⟨req, hreq, ht, hdone, completedBy_saved_self _ req, fun hsid => ?_⟩
        rw [hrecord, if_pos hsid.symm]
      · have hne := h.others w hw req.frame (pendingFrame_of_inFlight hreq)
        exact .inl ⟨by rw [hrecord, if_neg (Ne.symm hne)], completedBy_saved_ne hw req⟩
  | other hreqs hstore hsaved =>
      exact .inl ⟨record_of_grows hstore sid, completedBy_of_not_saved hsaved _⟩

theorem SoleUse.step {srv : Server} {s s' : Engine} {a : Label} {evs : List Event} {i : Nat}
    {sid : UInt64} (h : SoleUse s i sid) (hr : RequestsConsistent srv s)
    (halone : ReadsAlone i sid a) (hs : s.step srv a = some (s', evs)) : SoleUse s' i sid := by
  refine ⟨?_, ?_⟩
  · intro w hw f hf
    rcases pendingFrame_step hs hf with hbefore | rfl
    · exact h.others w hw f hbefore
    · exact fun hsid => hw (halone hsid)
  · intro req hreq hsid
    rcases record_step h hr hs with ⟨hrecord, -⟩ | ⟨_, -, -, hnone, -, -⟩
    · rw [hrecord]
      rcases inFlight_step hs hreq with hbefore | ⟨f, rfl⟩ | ⟨ans, before, es, -, hbefore, hadv⟩
      · exact h.current req hbefore hsid
      · rw [← hsid]
        exact s.getOrCreate_eq_record _
      · obtain ⟨state, task, -, rfl⟩ := Request.advance_eq_some.mp hadv
        exact h.current before hbefore hsid
    · rw [hnone] at hreq
      cases hreq

theorem pendingFrame_init (srv : Server) (discovery : DiscoveryConfig) (enabled : Bool)
    (w : Worker) : (init srv discovery enabled).pendingFrame w = none := by
  refine Option.bind_eq_none_iff.mpr fun p hp => ?_
  rw [phaseOf_init hp]
  rfl

theorem soleUse_run {srv : Server} {discovery : DiscoveryConfig} {enabled : Bool}
    {tr : List (Step Engine Label Event)} {s : Engine} {i : Nat} {sid : UInt64}
    (h : Trace (step srv) (init srv discovery enabled) tr s)
    (halone : ∀ x ∈ tr, ReadsAlone i sid x.label) : SoleUse s i sid := by
  have hinv := h.invariant
    (fun s => (s.StoreKeyed ∧ RequestsConsistent srv s) ∧ SoleUse s i sid)
    (fun _ a => ReadsAlone i sid a) ⟨requests_run .nil, ?_, ?_⟩ ?_ halone
  · exact hinv.1.2
  · intro w hw f hf
    rw [pendingFrame_init] at hf
    cases hf
  · intro req hreq
    rw [inFlight_init] at hreq
    cases hreq
  · intro s a s' evs hinv hcond hs
    exact ⟨requests_step hinv.1.1 hinv.1.2 hs, hinv.2.step hinv.1.2 hcond hs⟩

def frameWritten (i : Nat) : Event → Option Bytes
  | .wrote (.reply j) _ _ bytes => if j = i then some bytes else none
  | .wrote .sendTo _ _ _ | .wrote (.cast _) _ _ _ | .sentDatagram _ _ | .request _ _ | .saved _ _
  | .closed _ | .discoveryReply _ | .announced _ => none

def framesWritten (i : Nat) (evs : List Event) : List Bytes := evs.filterMap (frameWritten i)

def wireFrame (mode : ProtocolMode) : RequestEvent → Option Bytes
  | .sent h p => some (encodeFrame mode h p)
  | .authenticatorCalled _ _ | .handlerCalled _ _ => none

@[simp] theorem framesWritten_append (i : Nat) (evs evs' : List Event) :
    framesWritten i (evs ++ evs') = framesWritten i evs ++ framesWritten i evs' :=
  List.filterMap_append

theorem directSend_origin {s : Engine} {a : Label} {d : DirectSend}
    (h : s.directSend a = some d) (i : Nat) : d.origin ≠ .reply i := by
  have cast : ∀ k b, castSend k b = some d → d.origin ≠ .reply i := by
    intro k b hd
    unfold castSend at hd
    split at hd
    · split at hd <;> cases hd
      simp
    · split at hd <;> cases hd
      simp
    · cases hd
  cases a with
  | sendTo sid commandId payload =>
      obtain ⟨fd, -, rfl⟩ := Option.map_eq_some_iff.mp h
      simp
  | broadcast commandId payload predicate order => exact cast _ _ h
  | resumeCast k result =>
      cases result with
      | error e => cases h
      | ok u =>
          obtain ⟨b, -, hd⟩ := Option.bind_eq_some_iff.mp h
          exact cast k b hd
  | accept _ _ | work _ _ | app _ | discoveryRequest _ _ | announceTick => cases h

theorem framesWritten_streamEvents (i : Nat) (c : Conn) (es : List RequestEvent) :
    framesWritten i (es.flatMap (streamEvents i c)) = es.filterMap (wireFrame c.mode) := by
  induction es with
  | nil => rfl
  | cons e es ih =>
      rw [List.flatMap_cons, framesWritten_append, ih]
      cases e with
      | sent header payload =>
          have hwritten : framesWritten i (streamEvents i c (.sent header payload)) =
              [encodeFrame c.mode header payload] := by
            simp [framesWritten, streamEvents, frameWritten, List.filterMap_cons]
          rw [hwritten]
          rfl
      | authenticatorCalled _ _ | handlerCalled _ _ => rfl

/-- What the requests of a connection send is what is written to it, in its mode. -/
theorem framesWritten_step {srv : Server} {s s' : Engine} {a : Label} {evs : List Event}
    (h : s.step srv a = some (s', evs)) {i : Nat} {mode : ProtocolMode}
    (hmode : ∀ c, s.conns[i]? = some c → c.mode = mode) :
    framesWritten i evs = (requestEvents (.conn i) evs).filterMap (wireFrame mode) := by
  by_cases hprogress : ∃ ans, a = .work (.conn i) (.progress ans)
  · obtain ⟨ans, rfl⟩ := hprogress
    cases step_form h with
    | @conn _ c _ _ _ hc hstep =>
        cases hstep with
        | progress _ req req' es hp ha =>
            rw [framesWritten_streamEvents, (turnEvents_stream i c es).own, hmode c hc]
    | settings t hquiet ha => simp at ha
  · have hwritten : framesWritten i evs = [] := by
      refine List.filterMap_eq_nil_iff.mpr fun e he => ?_
      cases e with
      | wrote origin sid fd bytes =>
          cases wrote_cases h he with
          | direct d hd hopen =>
              cases ho : d.origin with
              | reply j => exact absurd ho (directSend_origin hd j)
              | sendTo | cast _ => rfl
          | reply j c ans req req' es header payload hc hp ha hsent =>
              refine if_neg fun hj => hprogress ⟨ans, ?_⟩
              rw [hj]
      | sentDatagram _ _ | request _ _ | saved _ _ | closed _ | discoveryReply _ | announced _ =>
          rfl
    have hquiet : requestEvents (.conn i) evs = [] := by
      obtain ⟨read, done, p, p', hturn⟩ : ∃ read done p p',
          Turn srv s (.conn i) a p read done (requestEvents (.conn i) evs) p' :=
        ⟨_, _, _, _, turn_step h (.conn i)⟩
      generalize requestEvents (.conn i) evs = es at hturn ⊢
      cases hturn with
      | progress ans req req' es ha hadv => exact absurd ⟨ans, ha⟩ hprogress
      | idle _ | accepted | frame _ _ | load _ | save _ _ | drop _ _ _ => rfl
    rw [hwritten, hquiet]
    rfl

theorem conn_mode_step {srv : Server} {s s' : Engine} {a : Label} {evs : List Event}
    (h : s.step srv a = some (s', evs)) {i : Nat} {c : Conn} (hc : s.conns[i]? = some c) :
    ∃ c', s'.conns[i]? = some c' ∧ c'.mode = c.mode := by
  have hi : i < s.conns.length := (List.getElem?_eq_some_iff.mp hc).1
  cases step_cases h with
  | accepted mode fd hfd hroom => exact ⟨c, by simp [List.getElem?_append_left hi, hc], rfl⟩
  | rejected mode fd hfd hfull => exact ⟨c, hc, rfl⟩
  | @conn j d act _ _ hd hstep =>
      obtain ⟨d', hconns, -, hmode, -⟩ := hstep.conns_eq
      by_cases hij : i = j
      · subst hij
        cases hc.symm.trans hd
        exact ⟨d', by simp [hconns, hi], hmode⟩
      · exact ⟨c, by rw [hconns, List.getElem?_set_ne (Ne.symm hij), hc], rfl⟩
  | aside hconns hsessions hactive hnot => exact ⟨c, by rw [hconns, hc], rfl⟩

theorem framesWritten_run {srv : Server} {discovery : DiscoveryConfig} {enabled : Bool}
    {tr : List (Step Engine Label Event)} {s : Engine} {i : Nat} {mode : ProtocolMode}
    (h : Trace (step srv) (init srv discovery enabled) tr s)
    (hmode : ∀ c, s.conns[i]? = some c → c.mode = mode) :
    framesWritten i (eventsOf tr) =
      (requestEvents (.conn i) (eventsOf tr)).filterMap (wireFrame mode) := by
  induction h with
  | nil => rfl
  | @snoc tr s s' a evs _ hstep ih =>
      -- a connection keeps its mode, so it had it before the step
      have hbefore : ∀ c, s.conns[i]? = some c → c.mode = mode := by
        intro c hc
        obtain ⟨c', hc', hsame⟩ := conn_mode_step hstep hc
        exact hsame.symm.trans (hmode c' hc')
      rw [eventsOf_snoc, framesWritten_append, requestEvents_append, List.filterMap_append,
        ih hbefore, framesWritten_step hstep hbefore]

theorem load_enabled (srv : Server) {s : Engine} {i : Nat} {c : Conn} {f : ClientFrame}
    (hc : s.conns[i]? = some c) (hp : c.phase = .loading f) :
    ∃ s' c', s.step srv (.work (.conn i) .load) = some (s', []) ∧ s'.conns[i]? = some c' ∧
      c'.phase = .processing (.start srv f .tcp (s.store.getOrCreate f.header.sessionId).1) := by
  have hi : i < s.conns.length := (List.getElem?_eq_some_iff.mp hc).1
  have hstep : ∃ s', s.step srv (.work (.conn i) .load) = some (s', []) := by
    simp [step, hc, connStep, hp]
  obtain ⟨s', hstep⟩ := hstep
  cases step_form hstep with
  | @conn _ d _ _ _ hd hload =>
      cases hc.symm.trans hd
      cases hload with
      | load f' hp' =>
          cases hp.symm.trans hp'
          exact ⟨_, _, hstep, List.getElem?_set_self hi, rfl⟩
  | settings t hquiet ha => simp at ha

def resumeLabels (i : Nat) (answers : List Answer) : List Label :=
  answers.map (fun a => .work (.conn i) (.progress a)) ++ [.work (.conn i) .save]

theorem exec_resumeLabels {srv : Server} {s : Engine} {i : Nat} {c : Conn} {req : Request}
    {answers : List Answer} {state : RequestState} {es : List RequestEvent}
    (hc : s.conns[i]? = some c) (hp : c.phase = .processing req)
    (hrun : resume requestSem req.state req.task answers = some (state, .ret (), es)) :
    ∃ tr s' req', exec (step srv) s (resumeLabels i answers) = some (tr, s') ∧
      completedBy (.conn i) (eventsOf tr) = [req'] ∧ req'.frame = req.frame := by
  induction answers generalizing s c req es with
  | nil =>
      simp only [resume_nil, Option.some.injEq, Prod.mk.injEq] at hrun
      have hstep : s.step srv (.work (.conn i) .save) = some ({ s with
          store := s.store.save req.state.session
          conns := s.conns.set i { c with phase := .reading } }, [.saved (.conn i) req]) := by
        simp [step, hc, connStep, hp, hrun]
      exact ⟨_, _, req, exec_cons hstep rfl, completedBy_saved_self (.conn i) req, rfl⟩
  | cons ans answers ih =>
      obtain ⟨u, task, es₁, es₂, hadv, hrest, -⟩ := resume_cons_eq_some.mp hrun
      obtain ⟨req₁, hreq, hstate, htask, hsame⟩ : ∃ req₁, req.advance ans = some (req₁, es₁) ∧
          req₁.state = u ∧ req₁.task = task ∧ req₁.frame = req.frame :=
        ⟨_, Request.advance_eq_some.mpr ⟨u, task, hadv, rfl⟩, rfl, rfl, rfl⟩
      have hstep : s.step srv (.work (.conn i) (.progress ans)) =
          some (s.setConn i { c with phase := .processing req₁ },
            es₁.flatMap (streamEvents i c)) := by
        simp [step, hc, connStep, hp, hreq]
      have hi : i < s.conns.length := (List.getElem?_eq_some_iff.mp hc).1
      have hc' : (s.setConn i { c with phase := .processing req₁ }).conns[i]? =
          some { c with phase := .processing req₁ } := by
        simp [setConn, hi]
      rw [← hstate, ← htask] at hrest
      obtain ⟨tr, s', req', hexec, hdone, hframe⟩ := ih hc' rfl hrest
      refine ⟨_, s', req', exec_cons hstep hexec, ?_, hframe.trans hsame⟩
      have hnone := completedBy_of_not_saved (turnEvents_stream i c es₁).unsaved (.conn i)
      rw [eventsOf, List.flatMap_cons, completedBy_append, hnone, List.nil_append]
      exact hdone

end Engine

end Servd
