import Mathlib.Data.List.TakeWhile
import Servd.Refinement
import Servd.Serialisation

/-!
Acknowledged updates. A request sends its response and is saved afterwards, with
suspension points in between, so the client may have the response while the store still
holds the old record. Whoever loads the session then misses the update and, being saved
later, even undoes it. `KeepsAcknowledged` is what keeps this from happening: no request
on the session loads a record that an answered one is about to replace, and none is
saved over a record it has not loaded.
-/
namespace Servd

open Coroutine Transition

def Op.isSend : Op → Bool
  | .sendFrame _ _ => true
  | .user _ | .generatePrivate | .genIv | .enterAuthenticator _ | .enterHandler _ => false

/-- The response is the last thing the coroutine does. -/
inductive Task.SendsLast : Task Unit → Prop
  | ret (u : Unit) : SendsLast (.ret u)
  | throw (e : Exc) : SendsLast (.throw e)
  | send (header : FrameHeader) (payload : Bytes) : SendsLast (Task.sendFrame header payload)
  | call {o : Op} {k : o.Ans → Task Unit} (ho : o.isSend = false) (hk : ∀ r, SendsLast (k r)) :
      SendsLast (.call o k)

/-- A part of a coroutine that does not send. -/
def Task.Silent {α : Type} (c : Task α) : Prop := c.Always fun o => o.isSend = false

section Silent

variable {α : Type}

theorem sendsLast_bind {c : Task α} {f : α → Task Unit} (hc : c.Silent)
    (hf : ∀ a, (f a).SendsLast) : Task.SendsLast (c >>= f) := by
  induction c with
  | ret a => exact hf a
  | throw e => exact .throw e
  | call o k ih => exact .call hc.1 fun r => ih r (hc.2 r)

end Silent

theorem Server.sendsLast_processCommand (srv : Server) (frame : ClientFrame)
    (transport : TransportType) : (srv.processCommand frame transport).SendsLast := by
  have hrule : srv.CommandRule (fun _ c => c.Silent) (·.SendsLast) :=
    { ret := fun _ _ => trivial
      ofStd := fun _ => always_ofStd
      generatePrivate := ⟨rfl, always_ofStd⟩
      genIv := ⟨rfl, always_ofStd⟩
      session := ⟨rfl, fun _ => trivial⟩
      setAesKey := fun _ => ⟨rfl, fun _ => trivial⟩
      authenticate := fun _ => ⟨rfl, fun _ => always_lift (fun _ => rfl) _⟩
      handle := fun _ _ _ _ _ => ⟨rfl, fun _ => always_lift (fun _ => rfl) _⟩
      done := .ret ()
      send := fun header payload _ => .send header payload
      bind := fun _ _ _ hc hf => sendsLast_bind hc hf }
  exact hrule.processCommand frame transport

theorem Task.SendsLast.resume {t t' : RequestState} {c c' : Task Unit} {as : List Answer}
    {es : List RequestEvent} (h : c.SendsLast)
    (hr : Coroutine.resume requestSem t c as = some (t', c', es)) : c'.SendsLast := by
  induction as generalizing t c es with
  | nil =>
      cases hr
      exact h
  | cons a as ih =>
      obtain ⟨u, d, es₁, es₂, ha, hrest, -⟩ := resume_cons_eq_some.mp hr
      refine ih ?_ hrest
      cases h with
      | ret _ | throw _ => cases ha
      | send header payload =>
          cases ha
          change Task.SendsLast (Task.ofStd a.sent)
          cases a.sent with
          | ok u => exact .ret u
          | error what => exact .throw _
      | call ho hk =>
          cases ha
          exact hk _

def Task.isSend : Task Unit → Bool
  | .call o _ => o.isSend
  | .ret _ | .throw _ => false

def Task.hasFailed : Task Unit → Bool
  | .throw _ => true
  | .ret _ | .call _ _ => false

theorem Task.SendsLast.eq_sendFrame {c : Task Unit} (h : c.SendsLast) (hc : c.isSend = true) :
    ∃ header payload, c = Task.sendFrame header payload := by
  cases h with
  | ret _ | throw _ => cases hc
  | send header payload => exact ⟨header, payload, rfl⟩
  | call ho _ => exact absurd (ho.symm.trans hc) (by simp)

namespace Request

/-- After `n` of its answers the request was waiting for its response to be sent. -/
def sendsAfter (srv : Server) (transport : TransportType) (req : Request) (n : Nat) : Bool :=
  (resume requestSem (.start req.loaded) (srv.processCommand req.frame transport)
    (req.answers.take n)).any fun r => Task.isSend r.2.1

/-- The response has been submitted, and no error has come back. From then on the client may
have received it. -/
def Answered (srv : Server) (transport : TransportType) (req : Request) : Prop :=
  (∃ n ∈ List.range (req.answers.length + 1), req.sendsAfter srv transport n) ∧
    req.task.hasFailed = false

instance (srv : Server) (transport : TransportType) (req : Request) :
    Decidable (req.Answered srv transport) :=
  inferInstanceAs (Decidable (_ ∧ _))

variable {srv : Server} {transport : TransportType} {req req' : Request}

/-- The send of an answered request is under way, or the request has come to its end. -/
theorem Answered.task_cases (h : req.Answered srv transport) (hc : req.Consistent srv transport) :
    (∃ header payload, req.task = Task.sendFrame header payload) ∨ req.task = .ret () := by
  obtain ⟨⟨n, -, hn⟩, hfailed⟩ := h
  obtain ⟨⟨t, c, es⟩, hr, hsend⟩ := (Option.any_eq_true _ _).mp hn
  obtain ⟨header, payload, hcall⟩ :=
    ((srv.sendsLast_processCommand req.frame transport).resume hr).eq_sendFrame hsend
  have hcall : c = Task.sendFrame header payload := hcall
  subst hcall
  have hrun := hc.run
  rw [← List.take_append_drop n req.answers, resume_append hr] at hrun
  simp only [Option.map_eq_some_iff, Prod.exists, Prod.mk.injEq] at hrun
  obtain ⟨t', c', es', hrest, -, rfl, -⟩ := hrun
  cases hdrop : req.answers.drop n with
  | nil =>
      rw [hdrop, resume_nil, Option.some.injEq, Prod.mk.injEq, Prod.mk.injEq] at hrest
      exact .inl ⟨header, payload, hrest.2.1.symm⟩
  | cons a as =>
      rw [hdrop] at hrest
      obtain ⟨u, d, es₁, es₂, ha, hlast, -⟩ := resume_cons_eq_some.mp hrest
      cases ha
      change resume requestSem t (Task.ofStd a.sent) as = _ at hlast
      cases hsent : a.sent with
      | ok _ =>
          rw [hsent] at hlast
          exact .inr (resume_ret.mp hlast).2.2.1
      | error what =>
          rw [hsent] at hlast
          rw [(resume_throw.mp hlast).2.2.1] at hfailed
          cases hfailed

/-- The completion of the send changes nothing about the session. -/
theorem Answered.advance {a : Answer} {es : List RequestEvent} (h : req.Answered srv transport)
    (hc : req.Consistent srv transport) (ha : req.advance a = some (req', es))
    (hsent : a.sent = .ok ()) :
    req'.Answered srv transport ∧ req'.task = .ret () ∧ req'.frame = req.frame ∧
      req'.state.session = req.state.session := by
  obtain ⟨state, task, hadv, rfl⟩ := Request.advance_eq_some.mp ha
  rcases h.task_cases hc with ⟨header, payload, htask⟩ | htask
  · rw [htask] at hadv
    cases hadv
    have hret : Task.ofStd a.sent = .ret () := by rw [hsent]; rfl
    have hlast : req.answers.length ∈ List.range ((req.answers ++ [a]).length + 1) := by
      simp only [List.mem_range, List.length_append, List.length_singleton]
      omega
    refine ⟨⟨⟨req.answers.length, hlast, ?_⟩, ?_⟩, hret, rfl, rfl⟩
    · have hrun := hc.run
      rw [htask] at hrun
      simp [sendsAfter, hrun, Task.isSend, Task.sendFrame, Op.isSend]
    · change (Task.ofStd a.sent).hasFailed = false
      rw [hret]
      rfl
  · rw [htask] at hadv
    cases hadv

end Request

def Label.savesFor (w : Worker) : Label → Bool
  | .work w' .save => w' = w
  | _ => false

namespace Engine

def workerIds (s : Engine) : List Worker :=
  (List.range s.conns.length).map .conn ++ (List.range s.udpLoops.length).map .udp

theorem mem_workerIds {s : Engine} {w : Worker} (h : (s.phaseOf w).isSome) : w ∈ s.workerIds := by
  cases w with
  | conn i => simpa [workerIds, phaseOf] using h
  | udp j => simpa [workerIds, phaseOf] using h

/-- The step keeps what clients of the session have been told. A request that loads finds the
record as the answered requests leave it, a save replaces the record its request has loaded,
and the save of an answered request does not throw. -/
def KeepsAcknowledged (srv : Server) (s : Engine) (sid : UInt64) : Label → Prop
  | .work w .load => ∀ f ∈ (s.phaseOf w).bind Phase.loadingFrame, f.header.sessionId = sid →
      ∀ w' ∈ s.workerIds, ∀ req ∈ s.inFlight w', req.frame.header.sessionId = sid →
        req.Answered srv w'.transport → req.state.session = s.record sid
  | .work w .save => s.SavesCurrent sid (.work w .save)
  | .work w (.fail _) => ∀ req ∈ s.inFlight w, req.frame.header.sessionId = sid →
      ¬ req.Answered srv w.transport
  | _ => True

instance (srv : Server) (s : Engine) (sid : UInt64) :
    (a : Label) → Decidable (s.KeepsAcknowledged srv sid a)
  | .work w .load => inferInstanceAs (Decidable (∀ f ∈ (s.phaseOf w).bind Phase.loadingFrame,
      f.header.sessionId = sid → ∀ w' ∈ s.workerIds, ∀ req ∈ s.inFlight w',
        req.frame.header.sessionId = sid → req.Answered srv w'.transport →
          req.state.session = s.record sid))
  | .work w .save => inferInstanceAs (Decidable (s.SavesCurrent sid (.work w .save)))
  | .work w (.fail _) => inferInstanceAs (Decidable (∀ req ∈ s.inFlight w,
      req.frame.header.sessionId = sid → ¬ req.Answered srv w.transport))
  | .work _ (.frame _) | .work _ (.progress _) | .work _ (.notified _) | .accept _ _
  | .sendTo _ _ _ | .broadcast _ _ _ _ | .resumeCast _ _ | .app _ | .discoveryRequest _ _
  | .announceTick => inferInstanceAs (Decidable True)

theorem KeepsAcknowledged.savesCurrent {srv : Server} {s : Engine} {sid : UInt64} {a : Label}
    (h : s.KeepsAcknowledged srv sid a) : s.SavesCurrent sid a := by
  cases a with
  | work w act =>
      cases act with
      | save => exact h
      | frame _ | load | progress _ | fail _ | notified _ => trivial
  | accept _ _ | sendTo _ _ _ | broadcast _ _ _ _ | resumeCast _ _ | app _
  | discoveryRequest _ _ | announceTick => trivial

/-- The jobs on the session that were saved after the first save of the worker. -/
def jobsSince (w : Worker) (sid : UInt64) (tr : List (Step Engine Label Event)) : List Job :=
  jobsOn sid (eventsOf (tr.dropWhile fun x => !x.label.savesFor w).tail)

/-- The send that the worker is waiting for succeeds, if its completion comes in the run. -/
def Received (w : Worker) (tr : List (Step Engine Label Event)) : Prop :=
  ∀ a, (turnsOf tr).find? (fun l => l.1 = w) = some (w, .progress a) → a.sent = .ok ()

/-- What has become of an answered request: it is still to be saved, or the record is what it
left, as changed by the requests saved after it. -/
inductive Fate (srv : Server) (sid : UInt64) (w : Worker) (req₁ : Request)
    (tr : List (Step Engine Label Event)) (s : Engine) : Prop
  | pending (req : Request) (hreq : s.inFlight w = some req) (hframe : req.frame = req₁.frame)
      (hsession : req.state.session = req₁.state.session)
      (hanswered : req.Answered srv w.transport)
      (hunsaved : ∀ x ∈ tr, x.label.savesFor w = false)
      (hsend : (∀ l ∈ turnsOf tr, l.1 ≠ w) ∨ req.task = .ret ())
  | saved (hsaved : ∃ x ∈ tr, x.label.savesFor w = true)
      (hserial : Serial srv req₁.state.session (jobsSince w sid tr) (s.record sid))

theorem jobsSince_of_unsaved {w : Worker} {sid : UInt64} {tr : List (Step Engine Label Event)}
    (h : ∀ x ∈ tr, x.label.savesFor w = false) : jobsSince w sid tr = [] := by
  have hall : tr.dropWhile (fun x => !x.label.savesFor w) = [] :=
    List.dropWhile_eq_nil_iff.mpr fun x hx => by simp [h x hx]
  rw [jobsSince, hall]
  rfl

theorem jobsSince_snoc_of_saved {w : Worker} {sid : UInt64}
    {tr : List (Step Engine Label Event)} (h : ∃ x ∈ tr, x.label.savesFor w = true)
    (x : Step Engine Label Event) :
    jobsSince w sid (tr ++ [x]) = jobsSince w sid tr ++ jobsOn sid x.events := by
  have hne : tr.dropWhile (fun x => !x.label.savesFor w) ≠ [] := by
    intro hnil
    obtain ⟨y, hy, hsaves⟩ := h
    simpa [hsaves] using List.dropWhile_eq_nil_iff.mp hnil y hy
  rw [jobsSince, List.dropWhile_append, if_neg (by simpa using hne),
    List.tail_append_of_ne_nil hne, eventsOf_snoc, jobsOn_append]
  rfl

theorem jobsSince_snoc_save {w : Worker} {sid : UInt64} {tr : List (Step Engine Label Event)}
    (h : ∀ x ∈ tr, x.label.savesFor w = false) {x : Step Engine Label Event}
    (hx : x.label.savesFor w = true) : jobsSince w sid (tr ++ [x]) = [] := by
  have hlast : (tr ++ [x]).dropWhile (fun x => !x.label.savesFor w) = [x] := by
    rw [List.dropWhile_append_of_pos fun y hy => by simp [h y hy]]
    simp [hx]
  rw [jobsSince, hlast]
  rfl

theorem workers_phase_of_inFlight {s : Engine} {w : Worker} {req : Request}
    (h : s.inFlight w = some req) : s.workers.phase w = .processing req := by
  obtain ⟨p, hp, hreq⟩ := Option.bind_eq_some_iff.mp h
  rw [workers_phase hp]
  cases p with
  | processing req' =>
      cases hreq
      rfl
  | reading | loading _ | notifying | ended => cases hreq

theorem inFlight_of_workers_phase {s : Engine} {w : Worker} {req : Request}
    (h : s.workers.phase w = .processing req) : s.inFlight w = some req := by
  cases hp : s.phaseOf w with
  | none => simp [workers, hp] at h
  | some p =>
      rw [workers_phase hp] at h
      have hphase := Phase.settled_eq h (by simp)
      simp [inFlight, hp, hphase, Phase.request]

theorem savesFor_of_turn {a : Label} {w : Worker} (h : ∀ act, a.turn ≠ some (w, act)) :
    a.savesFor w = false := by
  cases a with
  | work w' act =>
      cases act with
      | save =>
          have hw : w' ≠ w := fun hw => h .save (by rw [hw]; rfl)
          simpa [Label.savesFor] using hw
      | frame _ | load | progress _ | fail _ | notified _ => rfl
  | accept _ _ | sendTo _ _ _ | broadcast _ _ _ _ | resumeCast _ _ | app _
  | discoveryRequest _ _ | announceTick => rfl

theorem turnsOf_snoc (tr : List (Step Engine Label Event)) (x : Step Engine Label Event) :
    turnsOf (tr ++ [x]) = turnsOf tr ++ x.label.turn.toList := by
  rw [turnsOf_append]
  cases hx : x.label.turn <;> simp [turnsOf, hx]

section Fate

variable {srv : Server} {sid : UInt64} {w : Worker} {req₁ : Request}
  {tr : List (Step Engine Label Event)} {s s' : Engine} {a : Label} {evs : List Event}

theorem Received.left {tr' : List (Step Engine Label Event)} (h : Received w (tr ++ tr')) :
    Received w tr := by
  intro a ha
  refine h a ?_
  rw [turnsOf_append, List.find?_append, ha]
  rfl

theorem received_of_labels {ans : Answer} {rest : List Label}
    (h : tr.map (·.label) = .work w (.progress ans) :: rest) (hsent : ans.sent = .ok ()) :
    Received w tr := by
  intro a ha
  rw [turnsOf_eq, h] at ha
  simp only [List.filterMap_cons, Label.turn, List.find?_cons, decide_true, Option.some.injEq,
    Prod.mk.injEq, Act.progress.injEq, true_and] at ha
  exact ha ▸ hsent

theorem Received.sent {x : Step Engine Label Event} {ans : Answer} (h : Received w (tr ++ [x]))
    (hnone : ∀ l ∈ turnsOf tr, l.1 ≠ w) (hx : x.label = .work w (.progress ans)) :
    ans.sent = .ok () := by
  refine h ans ?_
  have hfirst : (turnsOf tr).find? (fun l => l.1 = w) = none :=
    List.find?_eq_none.mpr fun l hl => by simpa using hnone l hl
  rw [turnsOf_snoc, List.find?_append, hfirst, hx]
  simp [Label.turn]

/-- An answered request is still pending after a step of another worker. -/
theorem Fate.other {req : Request} {x : Step Engine Label Event} (hc : Coherent srv s)
    (hreq : s.inFlight w = some req) (hframe : req.frame = req₁.frame)
    (hsession : req.state.session = req₁.state.session)
    (hanswered : req.Answered srv w.transport)
    (hunsaved : ∀ x ∈ tr, x.label.savesFor w = false)
    (hsend : (∀ l ∈ turnsOf tr, l.1 ≠ w) ∨ req.task = .ret ())
    (hown : ∀ act, x.label.turn ≠ some (w, act))
    (hs : s.step srv x.label = some (s', evs)) : Fate srv sid w req₁ (tr ++ [x]) s' := by
  have hphase : s'.workers.phase w = .processing req :=
    (workers_phase_other hc hown hs).trans (workers_phase_of_inFlight hreq)
  refine .pending req (inFlight_of_workers_phase hphase) hframe hsession hanswered ?_ ?_
  · intro y hy
    rcases List.mem_append.mp hy with hy | hy
    · exact hunsaved y hy
    · exact List.mem_singleton.mp hy ▸ savesFor_of_turn hown
  · refine hsend.imp_left fun hnone l hl => ?_
    rw [turnsOf_snoc, List.mem_append, Option.mem_toList] at hl
    rcases hl with hl | hl
    · exact hnone l hl
    · rintro rfl
      exact hown l.2 hl

theorem Fate.step (h : Fate srv sid w req₁ tr s) (hc : Coherent srv s)
    (hsid : req₁.frame.header.sessionId = sid) (hkeeps : s.KeepsAcknowledged srv sid a)
    (hs : s.step srv a = some (s', evs)) (hreceived : Received w (tr ++ [⟨s, a, evs, s'⟩])) :
    Fate srv sid w req₁ (tr ++ [⟨s, a, evs, s'⟩]) s' := by
  cases h with
  | saved hsaved hserial =>
      obtain ⟨x, hx, hsaves⟩ := hsaved
      refine .saved ⟨x, List.mem_append_left _ hx, hsaves⟩ ?_
      rw [jobsSince_snoc_of_saved ⟨x, hx, hsaves⟩]
      exact serial_extend hserial hc.requests hkeeps.savesCurrent hs
  | pending req hreq hframe hsession hanswered hunsaved hsend =>
      by_cases hown : ∃ act, a.turn = some (w, act)
      · obtain ⟨act, hturn⟩ := hown
        obtain ⟨rfl, hact⟩ := Label.turn_eq_some hturn
        have hconsistent := hc.requests w req hreq
        obtain ⟨p, r, ht, hput⟩ := Workers.step_eq_some.mp (workers_step hc.requests hact hs)
        have hphase : s'.workers.phase w = p := by rw [hput, Workers.phase_put_self]
        rw [workers_phase_of_inFlight hreq] at ht
        generalize s.workers.recordFor (s.workers.sidOf w act) = r₀ at ht
        generalize requestEvents w evs = es at ht
        cases ht with
        | @progress _ req' ans _ _ ha =>
            -- the completion of the send, which is the first turn since the response was submitted
            have hnone : ∀ l ∈ turnsOf tr, l.1 ≠ w := by
              refine hsend.resolve_right fun hret => ?_
              simp [Request.advance, Coroutine.advance, hret] at ha
            obtain ⟨hanswered', hret, hframe', hsession'⟩ :=
              hanswered.advance hconsistent ha (hreceived.sent hnone rfl)
            refine .pending req' (inFlight_of_workers_phase hphase) (hframe'.trans hframe)
              (hsession'.trans hsession) hanswered' ?_ (.inr hret)
            intro y hy
            rcases List.mem_append.mp hy with hy | hy
            · exact hunsaved y hy
            · exact List.mem_singleton.mp hy ▸ rfl
        | save _ hret =>
            have hstored : s'.store.lookup sid = some req.state.session := by
              rw [lookup_of_save hreq hconsistent hs, if_pos (by rw [hframe, hsid])]
            refine .saved ⟨_, List.mem_append_right _ (List.mem_singleton_self _), ?_⟩ ?_
            · simp [Label.savesFor]
            · rw [jobsSince_snoc_save hunsaved (by simp [Label.savesFor]), record, hstored, ← hsession]
              exact .nil _
        | fail _ hf => exact absurd hanswered (hkeeps req hreq (hframe ▸ hsid))
      · exact Fate.other hc hreq hframe hsession hanswered hunsaved hsend
          (fun act hturn => hown ⟨act, hturn⟩) hs

theorem fate_run {m : Engine} (hc : Coherent srv m) (h : Trace (Engine.step srv) m tr s)
    (hkeeps : ∀ x ∈ tr, x.pre.KeepsAcknowledged srv sid x.label) (hreceived : Received w tr)
    (hreq : m.inFlight w = some req₁) (hsid : req₁.frame.header.sessionId = sid)
    (hanswered : req₁.Answered srv w.transport) : Fate srv sid w req₁ tr s := by
  induction h with
  | nil => exact .pending req₁ hreq rfl rfl hanswered (by simp) (.inl (by simp [turnsOf]))
  | @snoc tr s s' a evs htr hstep ih =>
      have hfate := ih (fun x hx => hkeeps x (List.mem_append_left _ hx)) hreceived.left
      exact hfate.step (hc.run htr) hsid (hkeeps ⟨s, a, evs, s'⟩ (by simp)) hstep hreceived

theorem load_step (h : s.step srv (.work w .load) = some (s', evs)) :
    ∃ f, s.phaseOf w = some (.loading f) ∧
      s'.inFlight w = some (.start srv f w.transport (s.record f.header.sessionId)) := by
  cases step_form h with
  | @conn i c _ _ _ hc hstep =>
      have hi : i < s.conns.length := (List.getElem?_eq_some_iff.mp hc).1
      cases hstep with
      | load f hp =>
          refine ⟨f, by simp [phaseOf, hc, hp], ?_⟩
          rw [getOrCreate_eq_record]
          simp [inFlight, phaseOf, hi, Phase.request, Worker.transport]
  | @udp j p _ _ _ hp hstep =>
      have hj : j < s.udpLoops.length := (List.getElem?_eq_some_iff.mp hp).1
      cases hstep with
      | load f hload =>
          subst hload
          refine ⟨f, hp, ?_⟩
          rw [getOrCreate_eq_record]
          simp [inFlight, phaseOf, hj, Phase.request, Worker.transport]
  | settings _ _ ha => simp at ha

end Fate

/-- What a client may expect that has the response to request `req₁` of worker `w₁`. Requests
on the session that it sends afterwards work on what the first one left, as changed by the
requests saved since; and once the first one is over, so does the store hold it. -/
structure AcknowledgedVisible (srv : Server) (sid : UInt64) (w₁ : Worker) (req₁ : Request)
    (tr : List (Step Engine Label Event)) (s : Engine) : Prop where
  seen : ∀ tr₁ y tr₂ w₂ req₂, tr = tr₁ ++ y :: tr₂ → y.label = .work w₂ .load →
    y.post.inFlight w₂ = some req₂ → req₂.frame.header.sessionId = sid →
    (w₂, .frame req₂.frame) ∈ turnsOf tr₁ →
    Serial srv req₁.state.session (jobsSince w₁ sid tr₁) req₂.loaded
  kept : (∃ req, s.inFlight w₁ = some req ∧ req.frame = req₁.frame ∧
      req.state.session = req₁.state.session) ∨
    (∃ x ∈ tr, x.label.savesFor w₁ = true) ∧
      Serial srv req₁.state.session (jobsSince w₁ sid tr) (s.record sid)

/-- In a run whose steps keep what clients have been told, an acknowledged update is visible. -/
theorem acknowledgedVisible_of_keeps (srv : Server) (discovery : DiscoveryConfig) (enabled : Bool)
    {tr₀ tr : List (Step Engine Label Event)} {m s : Engine} {sid : UInt64} {w₁ : Worker}
    {req₁ : Request} (h₀ : Trace (step srv) (init srv discovery enabled) tr₀ m)
    (h : Trace (step srv) m tr s) (hreq : m.inFlight w₁ = some req₁)
    (hsid : req₁.frame.header.sessionId = sid) (hanswered : req₁.Answered srv w₁.transport)
    (hreceived : Received w₁ tr) (hkeeps : ∀ x ∈ tr, x.pre.KeepsAcknowledged srv sid x.label) :
    AcknowledgedVisible srv sid w₁ req₁ tr s := by
  have hc : Coherent srv m := (coherent_init srv discovery enabled).run h₀
  constructor
  · rintro tr₁ y tr₂ w₂ req₂ rfl hlabel hpost hsid₂ -
    obtain ⟨m', h₁, h₂⟩ := h.split
    obtain ⟨rfl, hy, -⟩ := h₂.split_cons
    have hfate := fate_run hc h₁ (fun x hx => hkeeps x (List.mem_append_left _ hx))
      hreceived.left hreq hsid hanswered
    rw [hlabel] at hy
    obtain ⟨f, hphase, hflight⟩ := load_step hy
    rw [hpost] at hflight
    cases hflight
    have hsid₂ : f.header.sessionId = sid := hsid₂
    change Serial srv req₁.state.session (jobsSince w₁ sid tr₁) (y.pre.record f.header.sessionId)
    rw [hsid₂]
    cases hfate with
    | saved _ hserial => exact hserial
    | pending req hflight hframe hsession hanswered' hunsaved _ =>
        have hkeep := hkeeps y (by simp)
        rw [hlabel] at hkeep
        have hmem : w₁ ∈ y.pre.workerIds := by
          refine mem_workerIds ?_
          obtain ⟨p, hp, -⟩ := Option.bind_eq_some_iff.mp hflight
          simp [hp]
        have hrecord := hkeep f (by simp [hphase, Phase.loadingFrame]) hsid₂ w₁ hmem req hflight
          (hframe ▸ hsid) hanswered'
        rw [jobsSince_of_unsaved hunsaved, ← hrecord, hsession]
        exact .nil _
  · cases fate_run hc h hkeeps hreceived hreq hsid hanswered with
    | pending req hflight hframe hsession _ _ _ => exact .inl ⟨req, hflight, hframe, hsession⟩
    | saved hsaved hserial => exact .inr ⟨hsaved, hserial⟩

/-- Session 7 is logged in on the first connection, up to the submission of the response. -/
def loginAnswered : List Label :=
  [.accept .binary 5, .accept .binary 6, .work (.conn 0) (.frame (.command 1 7)),
    .work (.conn 0) .load] ++ List.replicate 3 (.work (.conn 0) (.progress {}))

theorem exists_loginAnswered :
    ∃ tr m req, exec (step Server.login) (init Server.login {} false) loginAnswered = some (tr, m) ∧
      m.inFlight (.conn 0) = some req ∧ req.frame = .command 1 7 ∧
      req.Answered Server.login .tcp ∧ req.state.session.authenticated = true := by
  have hrun : (exec (step Server.login) (init Server.login {} false) loginAnswered).any
      (fun r => (r.2.inFlight (.conn 0)).any fun req => decide (req.frame = .command 1 7 ∧
        req.Answered Server.login .tcp ∧ req.state.session.authenticated = true)) = true := by
    decide +kernel
  obtain ⟨⟨tr, m⟩, hexec, hm⟩ := (Option.any_eq_true _ _).mp hrun
  obtain ⟨req, hreq, hfacts⟩ := (Option.any_eq_true _ _).mp hm
  exact ⟨tr, m, req, hexec, hreq, of_decide_eq_true hfacts⟩

theorem acknowledgedVisible_login :
    ∃ tr₀ m tr s req₁, Trace (step Server.login) (init Server.login {} false) tr₀ m ∧
      Trace (step Server.login) m tr s ∧ m.inFlight (.conn 0) = some req₁ ∧
      (s.record 7).authenticated = true ∧ (jobsSince (.conn 0) 7 tr).length = 1 ∧
      AcknowledgedVisible Server.login 7 (.conn 0) req₁ tr s := by
  obtain ⟨tr₀, m, req₁, hexec₀, hreq, hframe, hanswered, -⟩ := exists_loginAnswered
  have hrun : (exec (step Server.login) (init Server.login {} false) (loginAnswered ++
      ([.work (.conn 0) (.progress {}), .work (.conn 0) .save] ++
        Label.requestAfter (.conn 1) (.command 2 7) 3))).any
      (fun r => decide ((∀ x ∈ r.1, x.pre.KeepsAcknowledged Server.login 7 x.label) ∧
        (r.2.record 7).authenticated = true ∧
        (jobsSince (.conn 0) 7 (r.1.drop loginAnswered.length)).length = 1)) = true := by
    decide +kernel
  obtain ⟨⟨all, s⟩, hexec, hall⟩ := (Option.any_eq_true _ _).mp hrun
  obtain ⟨hkeeps, hauth, hjobs⟩ := of_decide_eq_true hall
  obtain ⟨tr₀', m', tr, hexec₀', hexec₁, rfl⟩ := exec_append_eq_some hexec
  rw [hexec₀] at hexec₀'
  cases hexec₀'
  have hlength : tr₀.length = loginAnswered.length := by
    rw [← labels_of_exec hexec₀, List.length_map]
  rw [List.drop_left' hlength] at hjobs
  have hreceived : Received (.conn 0) tr := received_of_labels (labels_of_exec hexec₁) rfl
  exact ⟨tr₀, m, tr, s, req₁, trace_of_exec hexec₀, trace_of_exec hexec₁, hreq, hauth, hjobs,
    acknowledgedVisible_of_keeps Server.login {} false (trace_of_exec hexec₀)
      (trace_of_exec hexec₁) hreq (by rw [hframe]; rfl) hanswered hreceived
      fun x hx => hkeeps x (List.mem_append_right _ hx)⟩

/-- With the response of the login on the first connection, a client sends a request on the same
session over the second one. The login has not been saved, and the request works on a session
that is not logged in. -/
theorem not_acknowledgedVisible_login :
    ¬ ∀ srv discovery enabled tr₀ tr m s sid w₁ req₁,
      Trace (step srv) (init srv discovery enabled) tr₀ m → Trace (step srv) m tr s →
      m.inFlight w₁ = some req₁ → req₁.frame.header.sessionId = sid →
      req₁.Answered srv w₁.transport → Received w₁ tr →
      AcknowledgedVisible srv sid w₁ req₁ tr s := by
  intro h
  obtain ⟨tr₀, m, req₁, hexec₀, hreq, hframe, hanswered, hauth⟩ := exists_loginAnswered
  have hrun : (exec (step Server.login) (init Server.login {} false) (loginAnswered ++
      [.work (.conn 0) (.progress {}), .work (.conn 1) (.frame (.command 2 7)),
        .work (.conn 1) .load])).any
      (fun r => (r.2.inFlight (.conn 1)).any fun req => decide (req.frame = .command 2 7 ∧
        req.loaded.authenticated = false)) = true := by
    decide +kernel
  obtain ⟨⟨all, s⟩, hexec, hall⟩ := (Option.any_eq_true _ _).mp hrun
  obtain ⟨req₂, hreq₂, hfacts⟩ := (Option.any_eq_true _ _).mp hall
  obtain ⟨hframe₂, hauth₂⟩ := of_decide_eq_true hfacts
  obtain ⟨tr₀', m', tr, hexec₀', hexec₁, rfl⟩ := exec_append_eq_some hexec
  rw [hexec₀] at hexec₀'
  cases hexec₀'
  have htr := trace_of_exec hexec₁
  have hreceived : Received (.conn 0) tr := received_of_labels (labels_of_exec hexec₁) rfl
  obtain ⟨s₁, evs₁, _, -, hexec₂, rfl⟩ := exec_cons_eq_some hexec₁
  obtain ⟨s₂, evs₂, _, -, hexec₃, rfl⟩ := exec_cons_eq_some hexec₂
  obtain ⟨s₃, evs₃, _, -, hexec₄, rfl⟩ := exec_cons_eq_some hexec₃
  cases hexec₄
  have hvisible := h Server.login {} false tr₀ _ m s 7 (.conn 0) req₁ (trace_of_exec hexec₀) htr hreq
    (by rw [hframe]; rfl) hanswered hreceived
  have hserial := hvisible.seen [_, _] _ [] (.conn 1) req₂ rfl rfl hreq₂ (by rw [hframe₂]; rfl)
    (by simp [turnsOf, Label.turn, hframe₂])
  rw [jobsSince_of_unsaved (by simp [Label.savesFor])] at hserial
  rw [hserial.eq_of_nil, hauth] at hauth₂
  cases hauth₂

end Engine

end Servd
