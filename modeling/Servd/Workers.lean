import Mathlib.Logic.Function.Basic
import Servd.Requests

/-!
The engine as the session store sees it: workers that take turns on shared records.
A turn of a worker reads its own phase and the record of the session its request
names, and changes nothing else. Listeners, the session registry, broadcasts and
discovery are all gone, and a worker that has not been accepted yet reads.
-/
namespace Servd

namespace Phase

/-- The frame of the request a step belongs to; the one that reads the frame is its first. -/
def frameOf (p : Phase) : Act → Option ClientFrame
  | .frame f => some f
  | .load | .progress _ | .save | .fail _ | .notified _ => p.frame

/-- What follows the loop of a connection is no longer about its requests. -/
def settled : Phase → Phase
  | .notifying => .ended
  | p => p

@[simp] theorem frame_settled (p : Phase) : p.settled.frame = p.frame := by
  cases p <;> rfl

@[simp] theorem frameOf_settled (p : Phase) (act : Act) :
    p.settled.frameOf act = p.frameOf act := by
  cases act <;> simp [frameOf]

@[simp] theorem canFail_settled (p : Phase) (e : Exc) :
    Engine.canFail p.settled e = Engine.canFail p e := by
  cases p <;> rfl

theorem settled_eq {p q : Phase} (h : p.settled = q) (hq : q ≠ .ended) : p = q := by
  cases p with
  | notifying => exact absurd h.symm hq
  | reading | loading _ | processing _ | ended => exact h

end Phase

/-- A connection does not outlive an exception; a UDP loop outlives a `std::exception`. -/
def Worker.afterFail : Worker → Exc → Phase
  | .conn _, _ => .ended
  | .udp _, e => if e.isStd then .reading else .ended

/-- The workers and the records they share. -/
@[ext]
structure Workers where
  records : UInt64 → Option Session
  phase : Worker → Phase

namespace Workers

def start : Workers := ⟨fun _ => none, fun _ => .reading⟩

/-- One turn of a worker, on the record that is stored for the session of its request: the
next phase, the record that is stored then, and what the request did. -/
def turn (srv : Server) (w : Worker) (p : Phase) (record : Option Session) :
    Act → Option (Phase × Option Session × List RequestEvent)
  | .frame f =>
      match p with
      | .reading => some (.loading f, record, [])
      | _ => none
  | .load =>
      match p with
      | .loading f =>
          let session := record.getD { id := f.header.sessionId }
          some (.processing (.start srv f w.transport session), some session, [])
      | _ => none
  | .progress a =>
      match p with
      | .processing req => (req.advance a).map fun (req', es) => (.processing req', record, es)
      | _ => none
  | .save =>
      match p with
      | .processing req =>
          match req.task with
          | .ret _ => some (.reading, some req.state.session, [])
          | _ => none
      | _ => none
  | .fail e => if Engine.canFail p e then some (w.afterFail e, record, []) else none
  | .notified _ => none

inductive Turn (srv : Server) (w : Worker) :
    Phase → Option Session → Act → Phase → Option Session → List RequestEvent → Prop
  | frame (f : ClientFrame) (record : Option Session) :
      Turn srv w .reading record (.frame f) (.loading f) record []
  | load (f : ClientFrame) (record : Option Session) :
      Turn srv w (.loading f) record .load
        (.processing (.start srv f w.transport (record.getD { id := f.header.sessionId })))
        (some (record.getD { id := f.header.sessionId })) []
  | progress {req req' : Request} {a : Answer} {es : List RequestEvent} (record : Option Session)
      (ha : req.advance a = some (req', es)) :
      Turn srv w (.processing req) record (.progress a) (.processing req') record es
  | save {req : Request} (record : Option Session) (ht : req.task = .ret ()) :
      Turn srv w (.processing req) record .save .reading (some req.state.session) []
  | fail {p : Phase} {e : Exc} (record : Option Session) (hf : Engine.canFail p e = true) :
      Turn srv w p record (.fail e) (w.afterFail e) record []

theorem turn_iff {srv : Server} {w : Worker} {p p' : Phase} {record record' : Option Session}
    {act : Act} {es : List RequestEvent} :
    turn srv w p record act = some (p', record', es) ↔
      Turn srv w p record act p' record' es := by
  constructor
  · intro h
    cases act with
    | frame f =>
        cases p with
        | reading =>
            cases h
            exact .frame f record
        | loading _ | processing _ | notifying | ended => cases h
    | load =>
        cases p with
        | loading f =>
            cases h
            exact .load f record
        | reading | processing _ | notifying | ended => cases h
    | progress a =>
        cases p with
        | processing req =>
            simp only [turn, Option.map_eq_some_iff, Prod.exists, Prod.mk.injEq] at h
            obtain ⟨req', es', ha, rfl, rfl, rfl⟩ := h
            exact .progress record ha
        | reading | loading _ | notifying | ended => cases h
    | save =>
        cases p with
        | processing req =>
            cases ht : req.task with
            | ret u =>
                simp only [turn, ht, Option.some.injEq, Prod.mk.injEq] at h
                obtain ⟨rfl, rfl, rfl⟩ := h
                exact .save record ht
            | throw _ | call _ _ => simp [turn, ht] at h
        | reading | loading _ | notifying | ended => cases h
    | fail e =>
        simp only [turn, Option.ite_none_right_eq_some, Option.some.injEq, Prod.mk.injEq] at h
        obtain ⟨hf, rfl, rfl, rfl⟩ := h
        exact .fail record hf
    | notified _ => cases h
  · intro h
    cases h with
    | frame f _ | load f _ => rfl
    | progress _ ha => simp [turn, ha]
    | save _ ht => simp [turn, ht]
    | fail _ hf => simp [turn, hf]

/-- What a turn leaves of its request: it goes on, or it is over. -/
theorem Turn.frame_next {srv : Server} {w : Worker} {p p' : Phase} {record record' : Option Session}
    {act : Act} {es : List RequestEvent} (h : Turn srv w p record act p' record' es) :
    p'.frame = p.frameOf act ∨ p' = .reading ∨ p' = .ended := by
  cases h with
  | frame f _ | load f _ => exact .inl rfl
  | progress _ ha =>
      obtain ⟨state, task, -, rfl⟩ := Request.advance_eq_some.mp ha
      exact .inl rfl
  | save _ _ => exact .inr (.inl rfl)
  | @fail p e _ _ =>
      refine .inr ?_
      cases w with
      | conn i => exact .inr rfl
      | udp j => cases he : e.isStd <;> simp [Worker.afterFail, he]

theorem Turn.frame_busy {srv : Server} {w : Worker} {p p' : Phase}
    {record record' : Option Session} {act : Act} {es : List RequestEvent}
    (h : Turn srv w p record act p' record' es) (hact : act = .load ∨ ∃ a, act = .progress a) :
    p'.frame = p.frame := by
  cases h with
  | frame _ _ | save _ _ | fail _ _ => simp at hact
  | load _ _ => rfl
  | progress _ ha =>
      obtain ⟨state, task, -, rfl⟩ := Request.advance_eq_some.mp ha
      rfl

theorem Turn.not_ended {srv : Server} {w : Worker} {p p' : Phase}
    {record record' : Option Session} {act : Act} {es : List RequestEvent}
    (h : Turn srv w p record act p' record' es) : p ≠ .ended := by
  rintro rfl
  cases h with
  | fail _ hf => cases hf

/-- The session id of the request a step of a worker belongs to. -/
def sidOf (s : Workers) (w : Worker) (act : Act) : Option UInt64 :=
  ((s.phase w).frameOf act).map (·.header.sessionId)

def recordFor (s : Workers) (sid : Option UInt64) : Option Session := sid.bind s.records

/-- The state after a turn: its worker's phase and the record of its request have changed. -/
def put (s : Workers) (w : Worker) (sid : Option UInt64) (p : Phase) (record : Option Session) :
    Workers where
  records k := if sid = some k then record else s.records k
  phase := Function.update s.phase w p

def step (srv : Server) (s : Workers) : Worker × Act → Option (Workers × List RequestEvent)
  | (w, act) =>
      (turn srv w (s.phase w) (s.recordFor (s.sidOf w act)) act).map fun (p, record, es) =>
        (s.put w (s.sidOf w act) p record, es)

theorem step_eq_some {srv : Server} {s s' : Workers} {w : Worker} {act : Act}
    {es : List RequestEvent} :
    s.step srv (w, act) = some (s', es) ↔ ∃ p record,
      Turn srv w (s.phase w) (s.recordFor (s.sidOf w act)) act p record es ∧
        s' = s.put w (s.sidOf w act) p record := by
  simp only [step, Option.map_eq_some_iff, Prod.exists, Prod.mk.injEq, turn_iff]
  constructor
  · intro h
    obtain ⟨p, record, es', ht, rfl, rfl⟩ := h
    exact ⟨p, record, ht, rfl⟩
  · intro h
    obtain ⟨p, record, ht, rfl⟩ := h
    exact ⟨p, record, es, ht, rfl, rfl⟩

section Put

variable {s : Workers} {w : Worker} {sid : Option UInt64} {p : Phase} {record : Option Session}

@[simp] theorem phase_put_self : (s.put w sid p record).phase w = p := by
  simp [put]

theorem phase_put_ne {w' : Worker} (h : w' ≠ w) :
    (s.put w sid p record).phase w' = s.phase w' := by
  simp [put, h]

@[simp] theorem records_put_self (k : UInt64) :
    (s.put w (some k) p record).records k = record := by
  simp [put]

theorem records_put_ne {k : UInt64} (h : sid ≠ some k) :
    (s.put w sid p record).records k = s.records k := by
  simp [put, h]

theorem records_put_recordFor : (s.put w sid p (s.recordFor sid)).records = s.records := by
  funext k
  by_cases h : sid = some k
  · simp [put, recordFor, h]
  · simp [put, h]

end Put

end Workers

end Servd
