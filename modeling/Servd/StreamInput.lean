import Servd.FrameIO

/-!
The binary decoder on a stream that arrives in pieces. `async_read_exact` asks the
kernel for the bytes that are missing, again and again, and every `recv` brings some
of them, or none when the stream has ended. Whatever the pieces are, `read_frame`
returns the frames that were encoded, and on what is left at the end it throws.
-/
namespace Servd

/-- A `recv` that asks for `requested` bytes of a stream: what it brings, at least one byte and
no more than that, and what is left. It brings nothing only at the end of the stream. -/
inductive Recv (requested : Nat) : Bytes → Bytes → Bytes → Prop
  | data {chunk rest : Bytes} (hne : chunk ≠ []) (hle : chunk.length ≤ requested) :
      Recv requested (chunk ++ rest) chunk rest
  | closed : Recv requested [] [] []

/-- The completions of an `async_read_exact` that misses some bytes, and what is left of the
stream if it does not end before. -/
inductive Recvs : Nat → Bytes → List Completion → Option Bytes → Prop
  | done (stream : Bytes) : Recvs 0 stream [] (some stream)
  | more {missing : Nat} {stream chunk rest : Bytes} {script : List Completion}
      {left : Option Bytes} (hmissing : 0 < missing) (hrecv : Recv missing stream chunk rest)
      (hne : chunk ≠ []) (h : Recvs (missing - chunk.length) rest script left) :
      Recvs missing stream (.recv chunk :: script) left
  | closed {missing : Nat} {stream rest : Bytes} (hmissing : 0 < missing)
      (hrecv : Recv missing stream [] rest) : Recvs missing stream [.recv []] none

/-- The completions of `read_frame`, called until it throws. -/
inductive FrameRecvs : Bytes → List Completion → Prop
  | frame {stream mid rest : Bytes} {header payload script : List Completion}
      (hheader : Recvs headerSize stream header (some mid))
      (hpayload : Recvs (FrameHeader.ofBytes stream).payloadLength.toNat mid payload (some rest))
      (h : FrameRecvs rest script) : FrameRecvs stream (header ++ (payload ++ script))
  | closedInHeader {stream : Bytes} {header : List Completion}
      (hheader : Recvs headerSize stream header none) : FrameRecvs stream header
  | closedInPayload {stream mid : Bytes} {header payload : List Completion}
      (hheader : Recvs headerSize stream header (some mid))
      (hpayload : Recvs (FrameHeader.ofBytes stream).payloadLength.toNat mid payload none) :
      FrameRecvs stream (header ++ payload)

/-- The completions of a read of `bs`: every one brings a part of it, and in the end all of it. -/
def Delivers (bs : Bytes) (chunks : List Bytes) : Prop :=
  (∀ chunk ∈ chunks, chunk ≠ []) ∧ chunks.flatten = bs

theorem Delivers.cons {chunk bs : Bytes} {chunks : List Bytes} (hne : chunk ≠ [])
    (h : Delivers bs chunks) : Delivers (chunk ++ bs) (chunk :: chunks) := by
  refine ⟨?_, by rw [List.flatten_cons, h.2]⟩
  intro c hc
  rcases List.mem_cons.mp hc with rfl | hc
  · exact hne
  · exact h.1 c hc

theorem Recvs.delivered {missing : Nat} {stream : Bytes} {script : List Completion}
    {left : Option Bytes} (h : Recvs missing stream script left) :
    (∀ rest, left = some rest → ∃ bs chunks, stream = bs ++ rest ∧ bs.length = missing ∧
      script = chunks.map .recv ∧ Delivers bs chunks) ∧
    (left = none → stream.length < missing ∧ ∃ chunks,
      script = chunks.map .recv ++ [.recv []] ∧ Delivers stream chunks) := by
  induction h with
  | done stream =>
      refine ⟨?_, fun h => by cases h⟩
      rintro _ ⟨⟩
      exact ⟨[], [], rfl, rfl, rfl, by simp, rfl⟩
  | @more missing stream chunk rest script left hmissing hrecv hne _ ih =>
      cases hrecv with
      | closed => exact absurd rfl hne
      | data _ hle =>
          refine ⟨?_, ?_⟩
          · intro left hleft
            obtain ⟨bs, chunks, rfl, hlength, rfl, hdelivers⟩ := ih.1 left hleft
            exact ⟨chunk ++ bs, chunk :: chunks, by simp, by simp; omega, rfl, hdelivers.cons hne⟩
          · intro hleft
            obtain ⟨hlength, chunks, rfl, hdelivers⟩ := ih.2 hleft
            exact ⟨by simp; omega, chunk :: chunks, rfl, hdelivers.cons hne⟩
  | closed hmissing hrecv =>
      refine ⟨by simp, fun _ => ?_⟩
      cases hrecv with
      | data hne _ => exact absurd rfl hne
      | closed => exact ⟨hmissing, [], rfl, by simp, rfl⟩

theorem recvs_of_delivers (bs rest : Bytes) (chunks : List Bytes) (h : Delivers bs chunks) :
    Recvs bs.length (bs ++ rest) (chunks.map .recv) (some rest) := by
  obtain ⟨hne, rfl⟩ := h
  induction chunks with
  | nil => exact .done rest
  | cons chunk chunks ih =>
      have hchunk : chunk ≠ [] := hne chunk (by simp)
      have hpos := List.length_pos_of_ne_nil hchunk
      have hrest := ih fun c hc => hne c (by simp [hc])
      rw [List.flatten_cons, List.append_assoc]
      refine .more (by rw [List.length_append]; omega) (.data hchunk (by simp)) hchunk ?_
      rwa [List.length_append, Nat.add_sub_cancel_left]

/-- One turn of the loop: the bytes stand behind what is there, and are counted. -/
theorem asyncReadExactLoop_recv {got blank chunk : Bytes} (hne : chunk ≠ [])
    (hblank : chunk.length ≤ blank.length) (hsize : (got ++ blank).length < 2 ^ 64)
    (rest : List Completion) :
    asyncReadExactLoop got.length (got ++ blank) (.recv chunk :: rest) =
      asyncReadExactLoop (got ++ chunk).length (got ++ chunk ++ blank.drop chunk.length) rest := by
  have hpos : 0 < chunk.length := List.length_pos_of_ne_nil hne
  rw [List.length_append] at hsize
  have hok : awaitResume (Completion.recv chunk).res = .ok chunk.length :=
    if_neg (by simp only [Completion.res]; omega)
  have htotal : (((got.length : Nat) + (chunk.length : Int)) % 2 ^ 64).toNat =
      (got ++ chunk).length := by
    rw [List.length_append]
    omega
  have hstore : store (got ++ blank) got.length chunk =
      got ++ chunk ++ blank.drop chunk.length := by
    rw [store, List.take_left, ← List.drop_drop, List.drop_left]
  rw [asyncReadExactLoop, if_pos (by rw [List.length_append]; omega), hok]
  simp only [Completion.data, htotal, hstore]
  rw [if_neg (by omega)]

/-- The loop after some chunks that bring no more than it has asked for. -/
theorem asyncReadExactLoop_chunks (chunks : List Bytes) (hne : ∀ chunk ∈ chunks, chunk ≠ [])
    (got blank : Bytes) (hblank : chunks.flatten.length ≤ blank.length)
    (hsize : (got ++ blank).length < 2 ^ 64) (rest : List Completion) :
    asyncReadExactLoop got.length (got ++ blank) (chunks.map .recv ++ rest) =
      asyncReadExactLoop (got ++ chunks.flatten).length
        (got ++ chunks.flatten ++ blank.drop chunks.flatten.length) rest := by
  induction chunks generalizing got blank with
  | nil => simp
  | cons chunk chunks ih =>
      simp only [List.flatten_cons, List.length_append] at hblank hsize
      rw [List.map_cons, List.cons_append,
        asyncReadExactLoop_recv (hne chunk (by simp)) (by omega)
          (by rw [List.length_append]; exact hsize),
        ih (fun c hc => hne c (by simp [hc])) (got ++ chunk) (blank.drop chunk.length)]
      · simp
      · rw [List.length_drop]
        omega
      · simp only [List.length_append, List.length_drop]
        omega

theorem asyncReadExact_chunks {bs : Bytes} {chunks : List Bytes} (h : Delivers bs chunks)
    (hsize : bs.length < 2 ^ 64) (rest : List Completion) :
    asyncReadExact (List.replicate bs.length 0) (chunks.map .recv ++ rest) =
      .returned bs rest := by
  have hread := asyncReadExactLoop_chunks chunks h.1 [] (List.replicate bs.length 0)
    (by simp [h.2]) (by simpa using hsize) rest
  rw [h.2] at hread
  simp only [List.nil_append, List.length_nil, List.drop_replicate, Nat.sub_self,
    List.replicate_zero, List.append_nil] at hread
  rw [asyncReadExact, hread]
  cases rest <;> simp [asyncReadExactLoop]

theorem asyncReadExact_closed {bs : Bytes} {chunks : List Bytes} {size : Nat}
    (h : Delivers bs chunks) (hshort : bs.length < size) (hsize : size < 2 ^ 64)
    (rest : List Completion) :
    asyncReadExact (List.replicate size 0) (chunks.map .recv ++ .recv [] :: rest) =
      .threw (.std "Connection closed by client") rest := by
  have hread := asyncReadExactLoop_chunks chunks h.1 [] (List.replicate size 0)
    (by simp [h.2]; omega) (by simpa using hsize) (.recv [] :: rest)
  rw [h.2] at hread
  simp only [List.nil_append, List.length_nil, List.drop_replicate] at hread
  rw [asyncReadExact, hread, asyncReadExactLoop, if_pos (by simp; omega)]
  rfl

theorem readFrame_delivered {header payload : Bytes} (hsize : header.length = headerSize)
    (hlength : (FrameHeader.ofBytes header).payloadLength.toNat = payload.length)
    {headerChunks payloadChunks : List Bytes} (hheader : Delivers header headerChunks)
    (hpayload : Delivers payload payloadChunks) (rest : List Completion) :
    readFrame (headerChunks.map .recv ++ (payloadChunks.map .recv ++ rest)) =
      .returned ⟨FrameHeader.ofBytes header, payload⟩ rest := by
  have hread := asyncReadExact_chunks hheader (by simp [hsize, headerSize])
    (payloadChunks.map .recv ++ rest)
  rw [hsize] at hread
  have hbound : payload.length < 2 ^ 64 := by
    have := (FrameHeader.ofBytes header).payloadLength.toNat_lt
    omega
  have hrest := asyncReadExact_chunks hpayload hbound rest
  unfold readFrame
  rw [Reader.bind_of_returned hread]
  simp only [hlength]
  by_cases hpos : 0 < (FrameHeader.ofBytes header).payloadLength
  · rw [if_pos hpos, Reader.bind_of_returned hrest]
    rfl
  · have hnil : payload = [] := by
      apply List.length_eq_zero_iff.mp
      rw [← hlength]
      exact Nat.eq_zero_of_not_pos fun h => hpos (UInt32.lt_iff_toNat_lt.mpr h)
    subst hnil
    have hchunks : payloadChunks = [] := by
      refine List.eq_nil_iff_forall_not_mem.mpr fun chunk hmem => ?_
      exact hpayload.1 chunk hmem (List.flatten_eq_nil_iff.mp hpayload.2 chunk hmem)
    subst hchunks
    rw [if_neg hpos]
    rfl

theorem readFrame_chunks {f : ClientFrame} (hlength : f.header.payloadLength.toNat = f.payload.length)
    {headerChunks payloadChunks : List Bytes} (hheader : Delivers f.header.bytes headerChunks)
    (hpayload : Delivers f.payload payloadChunks) (rest : List Completion) :
    readFrame (headerChunks.map .recv ++ (payloadChunks.map .recv ++ rest)) = .returned f rest := by
  have hfields : FrameHeader.ofBytes f.header.bytes = f.header := by
    simpa using FrameHeader.ofBytes_bytes_append f.header []
  rw [readFrame_delivered f.header.length_bytes (by rw [hfields, hlength]) hheader hpayload rest,
    hfields]

/-- The header announces the size of the payload. -/
def ClientFrame.Sized (f : ClientFrame) : Prop :=
  f.header.payloadLength.toNat = f.payload.length

instance (f : ClientFrame) : Decidable f.Sized := inferInstanceAs (Decidable (_ = _))

/-- The buffer `UringTcpConnection::send_frame` fills for the frame. -/
def ClientFrame.encoded (f : ClientFrame) : Bytes := binaryFrame f.header f.payload

/-- The beginning of a frame that is cut off before its end. -/
def CutOff (tail : Bytes) : Prop :=
  ∃ f : ClientFrame, f.Sized ∧ tail <+: f.encoded ∧ tail ≠ f.encoded

def closedByClient : Exc := .std "Connection closed by client"

theorem ClientFrame.length_encoded (f : ClientFrame) :
    f.encoded.length = headerSize + f.payload.length := by
  rw [encoded, binaryFrame, List.length_append, FrameHeader.length_bytes]

theorem ClientFrame.encoded_append (f : ClientFrame) (rest : Bytes) :
    f.encoded ++ rest = f.header.bytes ++ (f.payload ++ rest) := by
  rw [encoded, binaryFrame, List.append_assoc]

/-- The completions of the read of one frame that is there as a whole. -/
theorem frameRecvs_encoded {f : ClientFrame} (hsized : f.Sized) {rest : Bytes}
    {script : List Completion} (h : FrameRecvs (f.encoded ++ rest) script) :
    ∃ later, readFrame script = .returned f later ∧ FrameRecvs rest later := by
  have hfields : FrameHeader.ofBytes (f.encoded ++ rest) = f.header := by
    rw [f.encoded_append, FrameHeader.ofBytes_bytes_append]
  have hlength : (f.encoded ++ rest).length = headerSize + f.payload.length + rest.length := by
    rw [List.length_append, f.length_encoded]
  -- what was read of the stream for the header is the header
  have header : ∀ {mid : Bytes} {header : List Completion},
      Recvs headerSize (f.encoded ++ rest) header (some mid) →
      mid = f.payload ++ rest ∧ ∃ chunks, header = chunks.map .recv ∧
        Delivers f.header.bytes chunks := by
    intro mid header hheader
    obtain ⟨bs, chunks, hstream, hbs, rfl, hdelivers⟩ := hheader.delivered.1 mid rfl
    rw [f.encoded_append] at hstream
    obtain ⟨rfl, rfl⟩ := List.append_inj hstream (by rw [f.header.length_bytes, hbs])
    exact ⟨rfl, chunks, rfl, hdelivers⟩
  cases h with
  | @frame _ mid left headerScript payloadScript script hheader hpayload hrest =>
      obtain ⟨rfl, chunks, rfl, hdelivers⟩ := header hheader
      rw [hfields, hsized] at hpayload
      obtain ⟨bs, payloadChunks, hstream, hbs, rfl, hdelivers'⟩ := hpayload.delivered.1 left rfl
      obtain ⟨rfl, rfl⟩ := List.append_inj hstream hbs.symm
      exact ⟨script, readFrame_chunks hsized hdelivers hdelivers' script, hrest⟩
  | closedInHeader hheader =>
      obtain ⟨hshort, -⟩ := hheader.delivered.2 rfl
      omega
  | closedInPayload hheader hpayload =>
      obtain ⟨rfl, -⟩ := header hheader
      rw [hfields, hsized] at hpayload
      obtain ⟨hshort, -⟩ := hpayload.delivered.2 rfl
      rw [List.length_append] at hshort
      omega

/-- A frame whose header is there, and whose payload ends too early. -/
theorem readFrame_short {h : FrameHeader} {part : Bytes} {headerChunks payloadChunks : List Bytes}
    (hheader : Delivers h.bytes headerChunks) (hpayload : Delivers part payloadChunks)
    (hshort : part.length < h.payloadLength.toNat) :
    readFrame (headerChunks.map .recv ++ (payloadChunks.map .recv ++ [.recv []])) =
      .threw closedByClient [] := by
  have hfields : FrameHeader.ofBytes h.bytes = h := by
    simpa using FrameHeader.ofBytes_bytes_append h []
  have hread := asyncReadExact_chunks hheader (by simp [headerSize])
    (payloadChunks.map .recv ++ [.recv []])
  rw [h.length_bytes] at hread
  have hbound := h.payloadLength.toNat_lt
  have hpos : 0 < h.payloadLength := UInt32.lt_iff_toNat_lt.mpr (by
    rw [UInt32.toNat_zero]
    omega)
  unfold readFrame
  rw [Reader.bind_of_returned hread]
  simp only [hfields, if_pos hpos]
  exact Reader.bind_of_threw (asyncReadExact_closed hpayload hshort (by omega) []) _

theorem readFrame_cutOff {tail : Bytes} (htail : CutOff tail) {script : List Completion}
    (h : FrameRecvs tail script) : readFrame script = .threw closedByClient [] := by
  obtain ⟨f, hsized, ⟨missing, hcut⟩, hne⟩ := htail
  have hlength := congrArg List.length hcut
  rw [List.length_append, f.length_encoded] at hlength
  have hmissing : 0 < missing.length := by
    refine List.length_pos_of_ne_nil fun hnil => hne ?_
    rw [← hcut, hnil, List.append_nil]
  -- a stream with 16 bytes or more begins with the header of the frame
  have header : ∀ {mid : Bytes} {header : List Completion},
      Recvs headerSize tail header (some mid) → FrameHeader.ofBytes tail = f.header ∧
        headerSize + mid.length = tail.length ∧
        ∃ chunks, header = chunks.map .recv ∧ Delivers f.header.bytes chunks := by
    intro mid header hheader
    obtain ⟨bs, chunks, rfl, hbs, rfl, hdelivers⟩ := hheader.delivered.1 mid rfl
    rw [ClientFrame.encoded, binaryFrame, List.append_assoc] at hcut
    obtain ⟨rfl, -⟩ := List.append_inj hcut (by rw [f.header.length_bytes, hbs])
    refine ⟨FrameHeader.ofBytes_bytes_append f.header mid, ?_, chunks, rfl, hdelivers⟩
    rw [List.length_append, f.header.length_bytes]
  cases h with
  | @frame _ mid left _ _ _ hheader hpayload _ =>
      obtain ⟨hfields, hmid, -⟩ := header hheader
      rw [hfields, hsized] at hpayload
      obtain ⟨bs, chunks, rfl, hbs, -, -⟩ := hpayload.delivered.1 left rfl
      rw [List.length_append] at hmid
      omega
  | closedInHeader hheader =>
      obtain ⟨hshort, chunks, rfl, hdelivers⟩ := hheader.delivered.2 rfl
      exact Reader.bind_of_threw (asyncReadExact_closed hdelivers hshort (by decide) []) _
  | closedInPayload hheader hpayload =>
      obtain ⟨hfields, -, chunks, rfl, hdelivers⟩ := header hheader
      rw [hfields] at hpayload
      obtain ⟨hshort, payloadChunks, rfl, hdelivers'⟩ := hpayload.delivered.2 rfl
      exact readFrame_short hdelivers hdelivers' hshort

/-- The frames that are on the stream as a whole are returned, in their order. -/
theorem readFrame_encoded {frames : List ClientFrame} (hsized : ∀ f ∈ frames, f.Sized)
    {tail : Bytes} {script : List Completion}
    (h : FrameRecvs (frames.flatMap (·.encoded) ++ tail) script) :
    ∃ rest, readFrame.replicate frames.length script = .returned frames rest ∧
      FrameRecvs tail rest := by
  induction frames generalizing script with
  | nil => exact ⟨script, rfl, h⟩
  | cons f frames ih =>
      rw [List.flatMap_cons, List.append_assoc] at h
      obtain ⟨later, hfirst, hlater⟩ := frameRecvs_encoded (hsized f (by simp)) h
      obtain ⟨rest, hrest, htail⟩ := ih (fun g hg => hsized g (by simp [hg])) hlater
      exact ⟨rest, Reader.replicate_succ_eq_returned.mpr ⟨f, frames, later, hfirst, hrest, rfl⟩,
        htail⟩

/-- However the stream is cut into pieces, `read_frame` returns the frames that are on it as a
whole, in their order, and then throws; of a frame that is cut off it returns nothing. -/
theorem readFrame_fragmented (frames : List ClientFrame) (hsized : ∀ f ∈ frames, f.Sized)
    (tail : Bytes) (htail : CutOff tail) (script : List Completion)
    (h : FrameRecvs (frames.flatMap (·.encoded) ++ tail) script) :
    ∃ rest, readFrame.replicate frames.length script = .returned frames rest ∧
      readFrame rest = .threw closedByClient [] := by
  obtain ⟨rest, hread, hrest⟩ := readFrame_encoded hsized h
  exact ⟨rest, hread, readFrame_cutOff htail hrest⟩

/-- A frame and the first byte of another one, in pieces of 10, 6, 1, 1 and 1 bytes. -/
theorem readFrame_fragmented_pieces :
    ∃ rest, readFrame.replicate 1 [.recv [1, 0, 0, 0, 2, 0, 0, 0, 7, 0], .recv [0, 0, 0, 0, 0, 0],
        .recv [5], .recv [6], .recv [1], .recv []] = .returned [⟨⟨1, 0, 2, 7⟩, [5, 6]⟩] rest ∧
      readFrame rest = .threw closedByClient [] :=
  readFrame_fragmented [⟨⟨1, 0, 2, 7⟩, [5, 6]⟩] (by decide) [1]
    ⟨⟨⟨1, 0, 2, 7⟩, [5, 6]⟩, by decide, by decide, by decide⟩ _
    (.frame
      (recvs_of_delivers [1, 0, 0, 0, 2, 0, 0, 0, 7, 0, 0, 0, 0, 0, 0, 0] [5, 6, 1]
        [[1, 0, 0, 0, 2, 0, 0, 0, 7, 0], [0, 0, 0, 0, 0, 0]] ⟨by decide, rfl⟩)
      (recvs_of_delivers [5, 6] [1] [[5], [6]] ⟨by decide, rfl⟩)
      (.closedInHeader (.more (by decide) (Recv.data (List.cons_ne_nil 1 []) (by decide))
        (by decide) (.closed (by decide) .closed))))

end Servd
