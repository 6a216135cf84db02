import Servd.EngineStep

/-!
Inversion of the engine's writes. A frame reaches a stream in one of two ways: a
request answers through its own connection, or `send_to_session` or a broadcast
writes straight to a descriptor. `directSend` computes the second kind from the
state before the step, and `Wrote` lists both.
-/
namespace Servd.Engine

open Coroutine

/-- A frame that `send_to_session` or a broadcast is about to put on a descriptor. -/
structure DirectSend where
  origin : Origin
  sid : UInt64
  fd : Fd
  commandId : UInt16
  payload : Bytes

def castSend (k : Nat) (b : Cast) : Option DirectSend :=
  match b.stage, b.rest with
  | .writing, (sid, fd) :: _ =>
      if b.predicate.isNone then some ⟨.cast k, sid, fd, b.commandId, b.payload⟩ else none
  | .fetched session, (sid, fd) :: _ =>
      if b.predicate.all (· session) then some ⟨.cast k, sid, fd, b.commandId, b.payload⟩ else none
  | _, _ => none

/-- The send of a step that goes straight to a descriptor, not through a connection. -/
def directSend (s : Engine) : Label → Option DirectSend
  | .sendTo sid commandId payload =>
      (s.sessions.lookup sid).map fun fd => ⟨.sendTo, sid, fd, commandId, payload⟩
  | .broadcast commandId payload predicate order =>
      castSend s.casts.length ⟨commandId, payload, predicate, order, .writing⟩
  | .resumeCast k (.ok ()) => s.casts[k]?.bind (castSend k)
  | .resumeCast _ (.error _) | .accept _ _ | .work _ _ | .app _ | .discoveryRequest _ _
  | .announceTick => none

def DirectSend.bytes (d : DirectSend) : Bytes :=
  binaryFrame ⟨d.commandId, 0, size32 d.payload, d.sid⟩ d.payload

def DirectSend.events (s : Engine) (d : DirectSend) : List Event :=
  if s.descriptorOpen d.fd then [.wrote d.origin d.sid d.fd d.bytes] else []

theorem nextCast_events (s : Engine) (k : Nat) (b : Cast) (h : b.stage = .writing) :
    (s.nextCast k b).2 = ((castSend k b).map (DirectSend.events s)).getD [] := by
  cases hr : b.rest with
  | nil => simp [nextCast, castSend, hr, h]
  | cons e rest =>
      obtain ⟨sid, fd⟩ := e
      cases hp : b.predicate with
      | none => simp [nextCast, castSend, hr, h, hp, submit, DirectSend.events, DirectSend.bytes]
      | some p => simp [nextCast, castSend, hr, h, hp]

theorem castStep_events {s s' : Engine} {k : Nat} {b : Cast} {evs : List Event}
    (h : s.castStep k b (.ok ()) = some (s', evs)) :
    evs = ((castSend k b).map (DirectSend.events s)).getD [] := by
  cases castStep_cases h with
  | written hst => exact nextCast_events s k b hst
  | fetched entry rest hst hr => simp [castSend, hst]
  | chosen session entry rest hst hr hall =>
      simp [castSend, hst, hr, hall, submit, DirectSend.events, DirectSend.bytes]
  | skipped session entry rest hst hr hall =>
      have hskip : castSend k b = none := by simp [castSend, hst, hr, hall]
      rw [hskip]
      -- with a predicate the next entry is not written to at once
      cases hp : b.predicate with
      | none => simp [hp] at hall
      | some p => cases rest <;> simp [nextCast]

theorem submit_isWrite {s : Engine} {origin : Origin} {sid : UInt64} {fd : Fd} {cmd : UInt16}
    {payload : Bytes} : ∀ e ∈ s.submit origin sid fd cmd payload, e.isWrite = true := by
  unfold submit
  split
  · intro e he
    rw [List.mem_singleton] at he
    rw [he]
    rfl
  · simp

theorem nextCast_isWrite {s : Engine} {k : Nat} {b : Cast} :
    ∀ e ∈ (s.nextCast k b).2, e.isWrite = true := by
  unfold nextCast
  split
  · simp
  · split
    · exact submit_isWrite
    · simp

theorem castStep_isWrite {s s' : Engine} {k : Nat} {b : Cast} {r : Except Exc Unit}
    {evs : List Event} (h : s.castStep k b r = some (s', evs)) :
    ∀ e ∈ evs, e.isWrite = true := by
  cases castStep_cases h with
  | thrown _ _ | fetched _ _ _ _ => simp
  | written _ | skipped _ _ _ _ _ _ => exact nextCast_isWrite
  | chosen _ _ _ _ _ _ => exact submit_isWrite

/-- A frame is put on a descriptor by a direct send, or by a request that answers on its own
connection. -/
inductive Wrote (s : Engine) : Label → Origin → UInt64 → Fd → Bytes → Prop
  | direct {a : Label} (d : DirectSend) (hd : s.directSend a = some d)
      (hopen : s.descriptorOpen d.fd) : Wrote s a d.origin d.sid d.fd d.bytes
  | reply (i : Nat) (c : Conn) (ans : Answer) (req req' : Request) (es : List RequestEvent)
      (header : FrameHeader) (payload : Bytes) (hc : s.conns[i]? = some c)
      (hp : c.phase = .processing req) (ha : req.advance ans = some (req', es))
      (hsent : .sent header payload ∈ es) :
      Wrote s (.work (.conn i) (.progress ans)) (.reply i) header.sessionId c.fd
        (encodeFrame c.mode header payload)

theorem events_of_directSend {srv : Server} {s s' : Engine} {a : Label} {evs : List Event}
    {d : DirectSend} (h : s.step srv a = some (s', evs)) (hd : s.directSend a = some d) :
    evs = d.events s := by
  cases a with
  | sendTo sid commandId payload =>
      simp only [directSend, Option.map_eq_some_iff] at hd
      obtain ⟨fd, hl, rfl⟩ := hd
      simp only [step, hl, Option.some.injEq, Prod.mk.injEq] at h
      rw [← h.2]
      rfl
  | broadcast commandId payload predicate order =>
      simp only [directSend] at hd
      simp only [step] at h
      split at h
      · simp only [Option.some.injEq, Prod.mk.injEq] at h
        rw [← h.2, nextCast_events s _ _ rfl, hd]
        rfl
      · cases h
  | resumeCast k result =>
      cases result with
      | error e => cases hd
      | ok u =>
          simp only [directSend] at hd
          simp only [step, Option.bind_eq_some_iff] at h
          obtain ⟨b, hb, h⟩ := h
          rw [hb, Option.bind_some] at hd
          rw [castStep_events h, hd]
          rfl
  | accept _ _ | work _ _ | app _ | discoveryRequest _ _ | announceTick => cases hd

theorem wrote_cases {srv : Server} {s s' : Engine} {a : Label} {evs : List Event}
    (h : s.step srv a = some (s', evs)) {origin : Origin} {sid : UInt64} {fd : Fd}
    {bytes : Bytes} (hev : .wrote origin sid fd bytes ∈ evs) : Wrote s a origin sid fd bytes := by
  -- a step with a direct send has no other events
  have sent : ∀ d, s.directSend a = some d → Wrote s a origin sid fd bytes := by
    intro d hd
    rw [events_of_directSend h hd, DirectSend.events] at hev
    split at hev
    · rename_i hopen
      simp only [List.mem_singleton, Event.wrote.injEq] at hev
      obtain ⟨rfl, rfl, rfl, rfl⟩ := hev
      exact .direct d hd hopen
    · cases hev
  cases step_form h with
  | accepted _ _ _ _ | rejected _ _ _ _ => simp at hev
  | @conn i c act _ _ hc hstep =>
      cases hstep with
      | frame _ _ | load _ _ | save _ _ _ | leave _ _ _ _ | notify _ _ _ _ _
      | noPool _ _ _ _ _ | escape _ _ _ | notified _ | notifyFailed _ _ => simp at hev
      | progress ans req req' es hp ha =>
          obtain ⟨e, he, hev⟩ := List.mem_flatMap.mp hev
          cases e with
          | sent header payload =>
              simp only [streamEvents, List.mem_cons, reduceCtorEq, Event.wrote.injEq,
                List.not_mem_nil, or_false, false_or] at hev
              obtain ⟨rfl, rfl, rfl, rfl⟩ := hev
              exact .reply i c ans req req' es header payload hc hp ha he
          | authenticatorCalled _ _ | handlerCalled _ _ => simp [streamEvents] at hev
  | udp hp hstep =>
      cases hstep with
      | frame _ _ | load _ _ | save _ _ _ | fail _ _ => simp at hev
      | progress ans req req' es hp ha =>
          obtain ⟨e, -, hev⟩ := List.mem_flatMap.mp hev
          cases e <;> simp [datagramEvents] at hev
  | sentTo sid' commandId payload =>
      cases hl : s.sessions.lookup sid' with
      | none => simp [hl] at hev
      | some fd' => exact sent ⟨.sendTo, sid', fd', commandId, payload⟩ (by simp [directSend, hl])
  | castStarted commandId payload predicate order hperm =>
      cases hd : s.directSend (.broadcast commandId payload predicate order) with
      | some d => exact sent d hd
      | none =>
          simp only [directSend] at hd
          rw [nextCast_events s _ _ rfl, hd] at hev
          cases hev
  | @castResumed k b r _ _ hb hstep =>
      cases hd : s.directSend (.resumeCast k r) with
      | some d => exact sent d hd
      | none =>
          cases r with
          | ok u =>
              simp only [directSend, hb, Option.bind_some] at hd
              rw [castStep_events hstep, hd] at hev
              cases hev
          | error e =>
              simp only [castStep] at hstep
              split at hstep
              · cases hstep
              · cases hstep
                cases hev
  | settings t hquiet ha =>
      exact absurd (hquiet _ hev) (by simp [Event.isDiscovery])

end Servd.Engine
