import Servd.FrameIO
import Servd.Writes

/-!
The two broadcasts as whole runs, over a snapshot in the order in which it is iterated.
A write that fails throws, and nothing in the loop catches it, so it is the last one.
-/
namespace Servd.Engine

/-- The write for an entry of the snapshot. -/
def castWrite (k : Nat) (commandId : UInt16) (payload : Bytes) (entry : UInt64 × Fd) :
    DirectSend :=
  ⟨.cast k, entry.1, entry.2, commandId, payload⟩

section Loops

variable (k : Nat) (commandId : UInt16) (payload : Bytes) (cqeRes : UInt64 × Fd → Int)

/-- The writes submitted, and how the coroutine ends; `cqeRes` is how the write for an entry
completes. -/
def doBroadcast : List (UInt64 × Fd) → List DirectSend × Except Exc Unit
  | [] => ([], .ok ())
  | entry :: rest =>
      match awaitResume (cqeRes entry) with
      | .error e => ([castWrite k commandId payload entry], .error e)
      | .ok _ =>
          let tail := doBroadcast rest
          (castWrite k commandId payload entry :: tail.1, tail.2)

/-- `record` is what `get_or_create` returns for a session id. -/
def doBroadcastIf (record : UInt64 → Session) (predicate : Session → Bool) :
    List (UInt64 × Fd) → List DirectSend × Except Exc Unit
  | [] => ([], .ok ())
  | entry :: rest =>
      if predicate (record entry.1) then
        match awaitResume (cqeRes entry) with
        | .error e => ([castWrite k commandId payload entry], .error e)
        | .ok _ =>
            let tail := doBroadcastIf record predicate rest
            (castWrite k commandId payload entry :: tail.1, tail.2)
      else doBroadcastIf record predicate rest

end Loops

/-- `await_resume` throws on the result. -/
def WriteFails (cqeRes : Int) : Prop := cqeRes < 0 ∧ cqeRes ≠ -etime

theorem awaitResume_of_fails {cqeRes : Int} (h : WriteFails cqeRes) :
    awaitResume cqeRes = .error (.std "io_uring operation failed") := if_pos h

theorem awaitResume_of_not_fails {cqeRes : Int} (h : ¬ WriteFails cqeRes) :
    awaitResume cqeRes = .ok cqeRes := if_neg h

section Attempts

variable {k : Nat} {commandId : UInt16} {payload : Bytes} {cqeRes : UInt64 × Fd → Int}

theorem doBroadcastIf_eq (record : UInt64 → Session) (predicate : Session → Bool)
    (order : List (UInt64 × Fd)) :
    doBroadcastIf k commandId payload cqeRes record predicate order =
      doBroadcast k commandId payload cqeRes (order.filter fun e => predicate (record e.1)) := by
  induction order with
  | nil => rfl
  | cons entry rest ih =>
      rw [doBroadcastIf, List.filter_cons]
      split
      · rw [doBroadcast, ih]
      · exact ih

theorem doBroadcast_isPrefix (order : List (UInt64 × Fd)) :
    (doBroadcast k commandId payload cqeRes order).1 <+:
      order.map (castWrite k commandId payload) := by
  induction order with
  | nil => exact List.prefix_rfl
  | cons entry rest ih =>
      rw [doBroadcast, List.map_cons]
      cases awaitResume (cqeRes entry) with
      | error e => exact ⟨_, rfl⟩
      | ok _ => exact (List.prefix_cons_inj _).mpr ih

variable (k commandId payload)

/-- All entries are served if and only if no write but the last fails. -/
theorem doBroadcast_eq_map_iff (order : List (UInt64 × Fd)) :
    (doBroadcast k commandId payload cqeRes order).1 = order.map (castWrite k commandId payload) ↔
      ∀ e ∈ order.dropLast, ¬ WriteFails (cqeRes e) := by
  induction order with
  | nil => simp [doBroadcast]
  | cons entry rest ih =>
      rw [doBroadcast, List.map_cons]
      by_cases hfails : WriteFails (cqeRes entry)
      · rw [awaitResume_of_fails hfails]
        cases rest with
        | nil => simp
        | cons next rest => simp [hfails]
      · rw [awaitResume_of_not_fails hfails]
        simp only [List.cons.injEq, true_and, ih]
        cases rest with
        | nil => simp
        | cons next rest => simp [List.dropLast_cons_cons, hfails]

theorem doBroadcast_perm_iff (order : List (UInt64 × Fd)) :
    (doBroadcast k commandId payload cqeRes order).1.Perm
        (order.map (castWrite k commandId payload)) ↔
      ∀ e ∈ order.dropLast, ¬ WriteFails (cqeRes e) := by
  rw [← doBroadcast_eq_map_iff k commandId payload]
  constructor
  · intro h
    exact (doBroadcast_isPrefix order).eq_of_length h.length_eq
  · intro h
    rw [h]

end Attempts

/-- However the snapshot is iterated, a broadcast submits one write for each of its entries, and a
broadcast with a predicate one for each entry whose record satisfies it, if and only if none of
these writes fails except for the last one. -/
theorem broadcast_writes_all_iff (k : Nat) (commandId : UInt16) (payload : Bytes)
    (sessions : UnorderedMap UInt64 Fd) (order : List (UInt64 × Fd))
    (horder : order.Perm sessions.pairs) (cqeRes : UInt64 × Fd → Int) (record : UInt64 → Session)
    (predicate : Session → Bool) :
    ((doBroadcast k commandId payload cqeRes order).1.Perm
        (sessions.pairs.map (castWrite k commandId payload)) ↔
      ∀ e ∈ order.dropLast, ¬ WriteFails (cqeRes e)) ∧
    ((doBroadcastIf k commandId payload cqeRes record predicate order).1.Perm
        ((sessions.pairs.filter fun e => predicate (record e.1)).map
          (castWrite k commandId payload)) ↔
      ∀ e ∈ (order.filter fun e => predicate (record e.1)).dropLast, ¬ WriteFails (cqeRes e)) := by
  constructor
  · rw [← doBroadcast_perm_iff k commandId payload]
    exact (horder.map _).symm.congr_right _
  · rw [doBroadcastIf_eq, ← doBroadcast_perm_iff k commandId payload]
    exact ((horder.filter _).map _).symm.congr_right _

/-- Sessions 1 and 2 on descriptors 5 and 6. -/
def twoSessions : UnorderedMap UInt64 Fd := AList.insert 1 5 (AList.insert 2 6 ∅)

/-- The client of the session that is served last is gone. -/
theorem broadcast_writes_all_last :
    (doBroadcast 0 9 [] (fun e => if e.2 = 6 then -32 else 16) [(1, 5), (2, 6)]).1.Perm
      (twoSessions.pairs.map (castWrite 0 9 [])) :=
  (broadcast_writes_all_iff 0 9 [] twoSessions [(1, 5), (2, 6)] (by decide)
    (fun e => if e.2 = 6 then -32 else 16) (fun sid => { id := sid }) (fun _ => true)).1.mpr
      (by unfold WriteFails; decide)

/-- The client of the session that is served first is gone, and the other gets nothing. -/
theorem not_broadcast_writes_all :
    ¬ ∀ (k : Nat) (commandId : UInt16) (payload : Bytes) (sessions : UnorderedMap UInt64 Fd)
        (order : List (UInt64 × Fd)) (cqeRes : UInt64 × Fd → Int), order.Perm sessions.pairs →
      (doBroadcast k commandId payload cqeRes order).1.Perm
        (sessions.pairs.map (castWrite k commandId payload)) := by
  intro h
  have hlength := (h 0 9 [] twoSessions [(1, 5), (2, 6)] (fun e => if e.2 = 5 then -32 else 16)
    (by decide)).length_eq
  exact absurd hlength (by decide)

end Servd.Engine
