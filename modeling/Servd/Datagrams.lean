import Servd.LifeCycle
import Servd.StreamInput

/-!
`start_udp_loop` with the one buffer it receives every datagram into. A datagram
overwrites the beginning of the buffer and what earlier ones have left stays behind it, so
that the frame taken out of the buffer could be made of both. `datagramFrame` is what the
frame should be, in terms of the datagram alone; the loop over the buffer is then the loop of
`startUdpLoop` over these frames.
-/
namespace Servd

open Coroutine

/-- What the outside supplies in one turn of `start_udp_loop`: how the `recvmsg` completes, and for the
frame the same as with any other. -/
structure Datagram where
  completion : Completion
  loaded : Except Exc Session
  answers : Nat → Answer := fun _ => {}
  saved : Except Exc Unit := .ok ()

def udpBufferSize : Nat := 65536

namespace Datagram

def arrival (t : Datagram) (frame : ClientFrame) : Arrival := ⟨frame, t.loaded, t.answers, t.saved⟩

/-- The loop, with what stands in the buffer. The number of bytes is an `int` that is made a `size_t`,
and `await_resume` throws only a `std::exception`. -/
def startUdpLoop (srv : Server) : Bytes → List Datagram → List Effect
  | _, [] => []
  | buffer, t :: turns =>
      let buffer := store buffer 0 t.completion.data
      match awaitResume t.completion.res with
      | .error _ => startUdpLoop srv buffer turns
      | .ok bytes =>
          match decodeDatagram buffer (bytes % 2 ^ 64).toNat with
          | none => startUdpLoop srv buffer turns
          | some frame =>
              let turn := (t.arrival frame).serve srv .udp []
              match turn.2 with
              | .ok () | .error (.std _) => turn.1 ++ startUdpLoop srv buffer turns
              | .error .other => turn.1

end Datagram

/-- The frame of a datagram: its header, and of what follows as much as the header declares and the
datagram has. -/
def datagramFrame (d : Bytes) : Option ClientFrame :=
  if d.length < headerSize then none
  else
    let header := FrameHeader.ofBytes d
    let size := min header.payloadLength.toNat (d.length - headerSize)
    some ⟨{ header with payloadLength := UInt32.ofNat size }, (d.drop headerSize).take size⟩

namespace Datagram

/-- The `recvmsg` brings a datagram that fits into the buffer, or fails. It has no timeout. -/
def Received (t : Datagram) : Prop :=
  match t.completion with
  | .recv d => d.length ≤ udpBufferSize
  | .error errno => (errno : Int) ≠ etime

def frame (t : Datagram) : Option ClientFrame :=
  match t.completion with
  | .recv d => datagramFrame d
  | .error _ => none

def loads (t : Datagram) : Bool := t.loaded.toBool

end Datagram

theorem length_store {buffer data : Bytes} (h : data.length ≤ buffer.length) :
    (store buffer 0 data).length = buffer.length := by
  rw [store, List.take_zero, List.nil_append, List.length_append, List.length_drop]
  omega

theorem ofBytes_append_of_le {bs : Bytes} (h : headerSize ≤ bs.length) (rest : Bytes) :
    FrameHeader.ofBytes (bs ++ rest) = FrameHeader.ofBytes bs := by
  have hfirst : (bs.take headerSize).length = headerSize := List.length_take_of_le h
  calc FrameHeader.ofBytes (bs ++ rest)
      = FrameHeader.ofBytes (bs.take headerSize ++ (bs.drop headerSize ++ rest)) := by
        rw [← List.append_assoc, List.take_append_drop]
    _ = FrameHeader.ofBytes (bs.take headerSize ++ bs.drop headerSize) := by
        rw [FrameHeader.ofBytes_append hfirst, FrameHeader.ofBytes_append hfirst]
    _ = FrameHeader.ofBytes bs := by rw [List.take_append_drop]

/-- The smaller of a `uint32_t` and any other number is one, too. -/
theorem toNat_ofNat_min (pl : UInt32) (n : Nat) :
    (UInt32.ofNat (min pl.toNat n)).toNat = min pl.toNat n :=
  UInt32.toNat_ofNat_of_lt' (Nat.lt_of_le_of_lt (Nat.min_le_left _ _) pl.toNat_lt)

/-- What an earlier datagram has left in the buffer is not read. -/
theorem decodeDatagram_store {buffer d : Bytes} (hd : d.length ≤ buffer.length)
    (hsize : buffer.length < 2 ^ 32) :
    decodeDatagram (store buffer 0 d) d.length = datagramFrame d := by
  have hstore : store buffer 0 d = d ++ buffer.drop d.length := by
    rw [store, List.take_zero, List.nil_append, Nat.zero_add]
  rw [hstore]
  unfold decodeDatagram datagramFrame
  split
  · rfl
  · rename_i hlength
    have hheader := ofBytes_append_of_le (Nat.le_of_not_lt hlength) (buffer.drop d.length)
    have hbytes : (UInt32.ofNat (d.length - headerSize)).toNat = d.length - headerSize :=
      UInt32.toNat_ofNat_of_lt' (show _ < 2 ^ 32 by omega)
    have hpl : min (FrameHeader.ofBytes d).payloadLength (UInt32.ofNat (d.length - headerSize)) =
        UInt32.ofNat (min (FrameHeader.ofBytes d).payloadLength.toNat (d.length - headerSize)) := by
      rw [← hbytes, ← UInt32.toNat_min, UInt32.ofNat_toNat, UInt32.ofNat_toNat]
    have hpayload : ((d ++ buffer.drop d.length).drop headerSize).take
        (min (FrameHeader.ofBytes d).payloadLength.toNat (d.length - headerSize)) =
          (d.drop headerSize).take
            (min (FrameHeader.ofBytes d).payloadLength.toNat (d.length - headerSize)) := by
      rw [List.drop_append_of_le_length (Nat.le_of_not_lt hlength),
        List.take_append_of_le_length (by rw [List.length_drop]; exact Nat.min_le_right _ _)]
    simp only [hheader, hpl, toNat_ofNat_min, hpayload]

/-- The frame of a datagram that is the encoding of a frame. -/
theorem datagramFrame_encoded {f : ClientFrame} (hsized : f.Sized) :
    datagramFrame f.encoded = some f := by
  have hheader : FrameHeader.ofBytes f.encoded = f.header := by
    have h := f.encoded_append []
    rw [List.append_nil] at h
    rw [h, FrameHeader.ofBytes_bytes_append]
  have hlength := f.length_encoded
  have hdrop : f.encoded.drop headerSize = f.payload := by
    rw [ClientFrame.encoded, binaryFrame]
    exact List.drop_left' f.header.length_bytes
  have hsize : min f.header.payloadLength.toNat (f.encoded.length - headerSize) =
      f.payload.length := by
    rw [ClientFrame.Sized] at hsized
    omega
  have hpl : UInt32.ofNat f.payload.length = f.header.payloadLength := by
    rw [← hsized, UInt32.ofNat_toNat]
  rw [datagramFrame, if_neg (by omega)]
  simp only [hheader, hsize, hdrop, hpl, List.take_length]

/-- The payload is no longer than the datagram and than it declares, and the header says so. -/
theorem datagramFrame_eq_some {d : Bytes} {f : ClientFrame} :
    datagramFrame d = some f ↔ headerSize ≤ d.length ∧
      (f.header.commandId, f.header.flags, f.header.sessionId) =
        ((FrameHeader.ofBytes d).commandId, (FrameHeader.ofBytes d).flags,
          (FrameHeader.ofBytes d).sessionId) ∧
      f.payload = (d.drop headerSize).take
        (min (FrameHeader.ofBytes d).payloadLength.toNat (d.length - headerSize)) ∧
      f.Sized := by
  have hlength : ((d.drop headerSize).take (min (FrameHeader.ofBytes d).payloadLength.toNat
      (d.length - headerSize))).length =
        min (FrameHeader.ofBytes d).payloadLength.toNat (d.length - headerSize) := by
    rw [List.length_take, List.length_drop]
    omega
  constructor
  · intro h
    unfold datagramFrame at h
    split at h
    · cases h
    · rename_i hlong
      cases h
      exact ⟨Nat.le_of_not_lt hlong, rfl, rfl, (toNat_ofNat_min _ _).trans hlength.symm⟩
  · rintro ⟨hlong, hfields, hpayload, hsized⟩
    obtain ⟨⟨cmd, flags, pl, sid⟩, payload⟩ := f
    simp only [Prod.mk.injEq] at hfields
    obtain ⟨rfl, rfl, rfl⟩ := hfields
    simp only at hpayload
    subst hpayload
    have hpl : pl = UInt32.ofNat
        (min (FrameHeader.ofBytes d).payloadLength.toNat (d.length - headerSize)) := by
      rw [← hlength, ← hsized, UInt32.ofNat_toNat]
    rw [datagramFrame, if_neg (Nat.not_lt.mpr hlong), hpl]

namespace Datagram

section Loop

variable {t : Datagram} {buffer : Bytes}

/-- The buffer keeps its size. -/
theorem Received.length_store (h : t.Received) (hbuffer : buffer.length = udpBufferSize) :
    (store buffer 0 t.completion.data).length = udpBufferSize := by
  have hdata : t.completion.data.length ≤ buffer.length := by
    unfold Received at h
    cases hc : t.completion with
    | recv d =>
        rw [hc] at h
        exact hbuffer ▸ h
    | error errno => exact Nat.zero_le _
  rw [Servd.length_store hdata, hbuffer]

/-- A turn fails, or takes the frame of its datagram out of the buffer, whatever is behind it. -/
theorem Received.decoded (h : t.Received) (hbuffer : buffer.length = udpBufferSize) :
    (∃ e, awaitResume t.completion.res = .error e ∧ t.frame = none) ∨
      ∃ bytes, awaitResume t.completion.res = .ok bytes ∧
        decodeDatagram (store buffer 0 t.completion.data) (bytes % 2 ^ 64).toNat = t.frame := by
  unfold Received at h
  unfold frame
  cases hc : t.completion with
  | recv d =>
      rw [hc] at h
      have hd : d.length ≤ udpBufferSize := h
      have hmod : ((d.length : Int) % 2 ^ 64).toNat = d.length := by
        rw [udpBufferSize] at hd
        omega
      refine .inr ⟨d.length, ?_, ?_⟩
      · rw [awaitResume, Completion.res, if_neg (by omega)]
      · rw [hmod]
        exact decodeDatagram_store (hbuffer ▸ hd) (hbuffer ▸ by decide)
  | error errno =>
      rw [hc] at h
      have herrno : (errno : Int) ≠ etime := h
      by_cases hzero : errno = 0
      · refine .inr ⟨0, ?_, rfl⟩
        rw [hzero]
        rfl
      · refine .inl ⟨.std "io_uring operation failed", ?_, rfl⟩
        rw [awaitResume, Completion.res, if_pos ⟨by omega, by omega⟩]

/-- The loop over the buffer is the loop over the frames. -/
theorem startUdpLoop_eq (srv : Server) (hbuffer : buffer.length = udpBufferSize)
    {turns : List Datagram} (h : ∀ t ∈ turns, t.Received) :
    startUdpLoop srv buffer turns =
      Servd.startUdpLoop srv (turns.filterMap fun t => t.frame.map t.arrival) := by
  induction turns generalizing buffer with
  | nil => rfl
  | cons t turns ih =>
      have ht : t.Received := h t List.mem_cons_self
      have hrest := ih (ht.length_store hbuffer) fun u hu => h u (List.mem_cons_of_mem t hu)
      rw [startUdpLoop, List.filterMap_cons]
      rcases ht.decoded hbuffer with ⟨e, hresume, hframe⟩ | ⟨bytes, hresume, hdecode⟩
      · simp only [hresume, hframe, Option.map_none]
        exact hrest
      · simp only [hresume, hdecode]
        cases t.frame with
        | none => exact hrest
        | some f =>
            cases hturn : ((t.arrival f).serve srv .udp []).2 with
            | ok _ => simp only [Option.map_some, Servd.startUdpLoop, hrest, hturn]
            | error e =>
                cases e with
                | std _ | other => simp only [Option.map_some, Servd.startUdpLoop, hrest, hturn]

end Loop

end Datagram

/-- The application code throws nothing but `std::exception`. -/
structure Server.ThrowsStd (srv : Server) : Prop where
  authenticator : ∀ ctx, (srv.authenticator ctx).Throws (· ≠ .other)
  handlers : ∀ cmd ep handler, srv.router.get cmd = some (ep, handler) →
    ∀ ctx, (handler ctx).Throws (· ≠ .other)

section Throws

variable {α : Type} {srv : Server}

theorem throws_lift {P : Exc → Prop} {c : UserTask α} (hc : c.Throws P) : c.lift.Throws P := by
  induction c with
  | ret a => trivial
  | throw e => exact hc
  | call u k ih => exact fun r => ih r (hc r)

theorem throws_ofStd (r : Except String α) : (Task.ofStd r).Throws (· ≠ .other) := by
  cases r with
  | ok a => trivial
  | error what => exact fun h => Exc.noConfusion h

theorem Server.ThrowsStd.processCommand (h : srv.ThrowsStd) (frame : ClientFrame)
    (transport : TransportType) : (srv.processCommand frame transport).Throws (· ≠ .other) := by
  have hrule : srv.CommandRule (fun _ c => c.Throws (· ≠ .other)) (·.Throws (· ≠ .other)) :=
    { ret := fun _ _ => trivial
      ofStd := fun _ => throws_ofStd
      generatePrivate := throws_ofStd
      genIv := throws_ofStd
      session := fun _ => trivial
      setAesKey := fun _ _ => trivial
      authenticate := fun ctx _ => throws_lift (h.authenticator ctx)
      handle := fun cmd ep handler hget ctx _ => throws_lift (h.handlers cmd ep handler hget ctx)
      done := trivial
      send := fun _ _ _ => throws_ofStd
      bind := fun _ _ _ hc hf => Coro.throws_bind hc hf }
  exact hrule.processCommand frame transport

theorem Server.ThrowsStd.outcome (h : srv.ThrowsStd) (transport : TransportType) {a : Arrival}
    (hload : a.loaded ≠ .error .other) (hsave : a.saved ≠ .error .other) :
    a.outcome srv transport ≠ .error .other := by
  unfold Arrival.outcome
  cases hloaded : a.loaded with
  | error e =>
      rw [hloaded] at hload
      exact fun hother => hload (congrArg Except.error (Except.error.inj hother))
  | ok session =>
      simp only
      cases hresult : (a.processed srv transport session).result with
      | error e =>
          have he : e ≠ .other := 
            error_of_throws (P := (· ≠ Exc.other)) (h.processCommand a.frame transport) hresult
          exact fun hother => he (Except.error.inj hother)
      | ok _ => exact hsave

end Throws

/-- If nothing else is thrown, every frame whose session is loaded is dispatched. -/
theorem dispatchedFrames_startUdpLoop (srv : Server) {arrivals : List Arrival}
    (h : ∀ a ∈ arrivals, a.outcome srv .udp ≠ .error .other) :
    dispatchedFrames (startUdpLoop srv arrivals) =
      (arrivals.filter (·.loads)).map (·.frame) := by
  induction arrivals with
  | nil => rfl
  | cons a arrivals ih =>
      have hturn := dispatchedFrames_serve srv .udp ⟨rfl, List.not_mem_nil⟩ a
      have hrest := ih fun b hb => h b (List.mem_cons_of_mem a hb)
      have hcons : startUdpLoop srv (a :: arrivals) =
          (a.serve srv .udp []).1 ++ startUdpLoop srv arrivals := by
        have hne := h a List.mem_cons_self
        simp only [startUdpLoop, Arrival.serve_snd]
        cases hout : a.outcome srv .udp with
        | ok _ => rfl
        | error e =>
            cases e with
            | std what => rfl
            | other => exact absurd hout hne
      rw [hcons, dispatchedFrames_append, hturn, hrest, List.filter_cons]
      cases a.loads <;> rfl

namespace Datagram

theorem frames_of_arrivals (turns : List Datagram) :
    ((turns.filterMap fun t => t.frame.map t.arrival).filter (·.loads)).map (·.frame) =
      (turns.filter (·.loads)).filterMap frame := by
  induction turns with
  | nil => rfl
  | cons t turns ih =>
      have hloads : ∀ f, (t.arrival f).loads = t.loads := fun f => rfl
      cases hframe : t.frame with
      | none =>
          rw [List.filterMap_cons_none (by rw [hframe]; rfl), ih, List.filter_cons]
          cases t.loads with
          | false => rfl
          | true => exact (List.filterMap_cons_none hframe).symm
      | some f =>
          rw [List.filterMap_cons_some (by rw [hframe]; rfl), List.filter_cons, hloads,
            List.filter_cons]
          cases t.loads with
          | false => exact ih
          | true =>
              rw [if_pos rfl, if_pos rfl, List.map_cons, ih]
              exact (List.filterMap_cons_some hframe).symm

end Datagram

/-- The frames dispatched are those of the datagrams of 16 bytes and more, in their order (if the
store fails on one, it is passed over); each has the header of its datagram and as much of
its payload as it declares and has, whatever came before it into the buffer; and if the
datagram is the encoding of a frame, it is the one `read_frame` returns for it. -/
theorem datagrams_decoded_alone (srv : Server) (hsrv : srv.ThrowsStd) (turns : List Datagram)
    (hreceived : ∀ t ∈ turns, t.Received)
    (hstore : ∀ t ∈ turns, t.loaded ≠ .error .other ∧ t.saved ≠ .error .other) :
    dispatchedFrames (Datagram.startUdpLoop srv (List.replicate udpBufferSize 0) turns) =
        (turns.filter (·.loads)).filterMap Datagram.frame ∧
      ((∀ t ∈ turns, t.loads = true) →
        dispatchedFrames (Datagram.startUdpLoop srv (List.replicate udpBufferSize 0) turns) =
          turns.filterMap Datagram.frame) ∧
      (∀ (d : Bytes) (f : ClientFrame), datagramFrame d = some f ↔ headerSize ≤ d.length ∧
        (f.header.commandId, f.header.flags, f.header.sessionId) =
          ((FrameHeader.ofBytes d).commandId, (FrameHeader.ofBytes d).flags,
            (FrameHeader.ofBytes d).sessionId) ∧
        f.payload = (d.drop headerSize).take
          (min (FrameHeader.ofBytes d).payloadLength.toNat (d.length - headerSize)) ∧
        f.header.payloadLength.toNat = f.payload.length) ∧
      ∀ f : ClientFrame, f.Sized → datagramFrame f.encoded = some f ∧
        ∀ (rest : Bytes) (script : List Completion), FrameRecvs (f.encoded ++ rest) script →
          ∃ later, readFrame script = .returned f later := by
  have hloop : dispatchedFrames
      (Datagram.startUdpLoop srv (List.replicate udpBufferSize 0) turns) =
        (turns.filter (·.loads)).filterMap Datagram.frame := by
    rw [Datagram.startUdpLoop_eq srv List.length_replicate hreceived,
      dispatchedFrames_startUdpLoop srv, Datagram.frames_of_arrivals]
    intro a ha
    obtain ⟨t, ht, hframe⟩ := List.mem_filterMap.mp ha
    obtain ⟨f, -, rfl⟩ := Option.map_eq_some_iff.mp hframe
    exact hsrv.outcome .udp (hstore t ht).1 (hstore t ht).2
  refine ⟨hloop, ?_, fun d f => datagramFrame_eq_some, ?_⟩
  · intro hloads
    rw [hloop, List.filter_eq_self.mpr hloads]
  · intro f hsized
    refine ⟨datagramFrame_encoded hsized, fun rest script hscript => ?_⟩
    obtain ⟨later, hread, -⟩ := frameRecvs_encoded hsized hscript
    exact ⟨later, hread⟩

theorem Server.echo_throwsStd : Server.echo.ThrowsStd where
  authenticator _ := fun _ => trivial
  handlers cmd ep handler hget := by
    obtain ⟨h, hroute, hfound⟩ := Option.map_eq_some_iff.mp hget
    cases hfound
    simp only [Server.echo, Router.add, Router.update, Router.empty] at hroute
    split at hroute
    · cases hroute
      exact fun _ => trivial
    · cases hroute

/-- Three datagrams: a payload of three bytes; two bytes of a payload that declares nine; and a
datagram that is too short. -/
def threeDatagrams : List Datagram :=
  [{ completion := .recv [1, 0, 0, 0, 3, 0, 0, 0, 7, 0, 0, 0, 0, 0, 0, 0, 97, 98, 99],
     loaded := .ok { id := 7 } },
   { completion := .recv [1, 0, 0, 0, 9, 0, 0, 0, 7, 0, 0, 0, 0, 0, 0, 0, 104, 105],
     loaded := .ok { id := 7 } },
   { completion := .recv [1, 0], loaded := .ok { id := 7 } }]

theorem datagrams_decoded_alone_three :
    dispatchedFrames (Datagram.startUdpLoop Server.echo (List.replicate udpBufferSize 0)
      threeDatagrams) = [⟨⟨1, 0, 3, 7⟩, [97, 98, 99]⟩, ⟨⟨1, 0, 2, 7⟩, [104, 105]⟩] := by
  have hreceived : ∀ t ∈ threeDatagrams, t.Received := by
    simp [threeDatagrams, Datagram.Received, udpBufferSize]
  have hstore : ∀ t ∈ threeDatagrams, t.loaded ≠ .error .other ∧ t.saved ≠ .error .other := by
    simp [threeDatagrams]
  have hloads : ∀ t ∈ threeDatagrams, t.loads = true := by decide
  rw [(datagrams_decoded_alone Server.echo Server.echo_throwsStd threeDatagrams hreceived
    hstore).2.1 hloads]
  decide

end Servd
