import Servd.Writes
import Servd.SessionRegistry
import Servd.Lib.Text

/-!
The format of the output. A reply goes through the connection object and is encoded
for the mode of its connection; `send_to_session` and the broadcasts write a binary
frame to whatever connection has the descriptor. Of each write the kernel takes a
number of bytes, and nobody looks at the number. So the output of a connection has
its own format exactly as long as no direct send hits a text connection, and what is
taken of a write ends where the frame in it ends: on a binary connection behind as many
bytes as its header declares, on a text connection behind the first line of the payload.
The header of a frame that `push_event` sends may declare anything.
-/
namespace Servd

open Coroutine

/-- The header of the frame states the size of its payload. -/
def Op.Sized : Op → Prop
  | .sendFrame header payload => header.payloadLength = size32 payload
  | .user _ | .generatePrivate | .genIv | .enterAuthenticator _ | .enterHandler _ => True

theorem Server.always_sized_processCommand (srv : Server) (frame : ClientFrame)
    (transport : TransportType) : (srv.processCommand frame transport).Always Op.Sized := by
  have hrule : srv.CommandRule (fun _ c => c.Always Op.Sized) (·.Always Op.Sized) :=
    { ret := fun _ _ => trivial
      ofStd := fun _ => always_ofStd
      generatePrivate := ⟨trivial, always_ofStd⟩
      genIv := ⟨trivial, always_ofStd⟩
      session := ⟨trivial, fun _ => trivial⟩
      setAesKey := fun _ => ⟨trivial, fun _ => trivial⟩
      authenticate := fun _ => ⟨trivial, fun _ => always_lift (fun _ => trivial) _⟩
      handle := fun _ _ _ _ _ => ⟨trivial, fun _ => always_lift (fun _ => trivial) _⟩
      done := trivial
      send := fun _ _ hsize => ⟨hsize, always_ofStd⟩
      bind := fun _ _ _ hc hf => Coro.always_bind hc hf }
  exact hrule.processCommand frame transport

/-- The frame a request is about to send, through `send_frame` or `push_event`. -/
def Request.pendingSend (req : Request) (ans : Answer) : Option (FrameHeader × Bytes) :=
  match req.task with
  | .call (.sendFrame header payload) _ => some (header, payload)
  | .call (.user (.pushEvent _ data)) _ => some (ans.staleHeader, data)
  | _ => none

theorem Request.sent_mem_advance_iff {req req' : Request} {ans : Answer} {es : List RequestEvent}
    (h : req.advance ans = some (req', es)) {header : FrameHeader} {payload : Bytes} :
    .sent header payload ∈ es ↔
      req.pendingSend ans = some (header, payload) ∧ ans.sent.isOk = true := by
  have sentEvents_iff : ∀ h p, RequestEvent.sent header payload ∈ sentEvents h p ans.sent ↔
      (h, p) = (header, payload) ∧ ans.sent.isOk = true := by
    intro h p
    cases ans.sent with
    | ok u => simp [sentEvents, Except.isOk, Except.toBool, eq_comm]
    | error e => simp [sentEvents, Except.isOk, Except.toBool]
  simp only [advance, Option.map_eq_some_iff, Prod.exists, Prod.mk.injEq] at h
  obtain ⟨state, task, es', ha, -, rfl⟩ := h
  cases ht : req.task with
  | ret _ | throw _ => simp [ht, Coroutine.advance] at ha
  | call o k =>
      simp only [ht, Coroutine.advance, Option.some.injEq, Prod.mk.injEq] at ha
      obtain ⟨-, -, rfl⟩ := ha
      cases o with
      | sendFrame h p => simpa [pendingSend, ht, requestSem, answerOp] using sentEvents_iff h p
      | user u =>
          cases u with
          | pushEvent cmd data =>
              simpa [pendingSend, ht, requestSem, answerOp, answerUser] using sentEvents_iff _ data
          | session | setAuthenticated _ _ | setAesKey _ | getLocal _ | setLocal _ _ | await =>
              simp [pendingSend, ht, requestSem, answerOp, answerUser]
      | generatePrivate | genIv | enterAuthenticator _ | enterHandler _ =>
          simp [pendingSend, ht, requestSem, answerOp]

/-- The format of the frames a client of the given mode expects: a header and a payload of
the stated size, or a header line and a payload line. -/
def IsFrame : ProtocolMode → Bytes → Prop
  | .binary, bytes => ∃ header payload, header.payloadLength = size32 payload ∧
      bytes = binaryFrame header payload
  | .text, bytes => ∃ header payload, newline ∉ payload ∧ bytes = textFrame header payload

def headerLine (h : FrameHeader) : Bytes :=
  Bytes.decimal h.commandId.toNat ++ [blank] ++ Bytes.decimal h.flags.toNat ++ [blank] ++
    Bytes.decimal h.sessionId.toNat

theorem newline_not_mem_headerLine (h : FrameHeader) : newline ∉ headerLine h := by
  have hblank : newline ∉ [blank] := by decide
  simp only [headerLine, List.mem_append, newline_not_mem_decimal, hblank, or_self,
    not_false_eq_true]

theorem textFrame_eq (h : FrameHeader) (payload : Bytes) :
    textFrame h payload = headerLine h ++ newline :: (payload ++ [newline]) := by
  simp [textFrame, headerLine]

def firstLine (payload : Bytes) : Bytes := payload.takeWhile (· ≠ newline)

theorem newline_not_mem_firstLine (payload : Bytes) : newline ∉ firstLine payload := by
  intro h
  simpa using List.mem_takeWhile_imp h

theorem firstLine_of_not_mem {payload : Bytes} (h : newline ∉ payload) :
    firstLine payload = payload := by
  refine List.takeWhile_eq_self_iff.mpr fun b hb => ?_
  have hne : b ≠ newline := fun heq => h (heq ▸ hb)
  simpa using hne

theorem exists_firstLine_append (payload : Bytes) :
    ∃ rest, payload ++ [newline] = firstLine payload ++ newline :: rest := by
  induction payload with
  | nil => exact ⟨[], rfl⟩
  | cons b payload ih =>
      by_cases hb : b = newline
      · exact ⟨payload ++ [newline], by simp [firstLine, hb]⟩
      · obtain ⟨rest, hrest⟩ := ih
        have hfirst : firstLine (b :: payload) = b :: firstLine payload := by simp [firstLine, hb]
        exact ⟨rest, by rw [hfirst, List.cons_append, hrest, List.cons_append]⟩

/-- The first `n` bytes of a frame are a frame of their own: they end behind as many bytes as the
header declares, or behind the first line of the payload. -/
def EndsFrame (mode : ProtocolMode) (header : FrameHeader) (payload : Bytes) (n : Nat) : Prop :=
  match mode with
  | .binary => headerSize ≤ n ∧ header.payloadLength = size32 (payload.take (n - headerSize))
  | .text => min n (textFrame header payload).length =
      (textFrame header (firstLine payload)).length

instance (mode : ProtocolMode) (header : FrameHeader) (payload : Bytes) (n : Nat) :
    Decidable (EndsFrame mode header payload n) :=
  match mode with
  | .binary => inferInstanceAs (Decidable (_ ∧ _))
  | .text => inferInstanceAs (Decidable (_ = _))

theorem isFrame_take_binary_iff {header : FrameHeader} {payload : Bytes} {n : Nat} :
    IsFrame .binary ((binaryFrame header payload).take n) ↔ EndsFrame .binary header payload n := by
  have htake : headerSize ≤ n → (binaryFrame header payload).take n =
      binaryFrame header (payload.take (n - headerSize)) := by
    intro hn
    rw [binaryFrame, List.take_append, header.length_bytes,
      List.take_of_length_le (by rw [header.length_bytes]; exact hn)]
    rfl
  constructor
  · intro h
    obtain ⟨header', payload', hsize, heq⟩ := h
    have hn : headerSize ≤ n := by
      have hlength := congrArg List.length heq
      simp only [binaryFrame, List.length_take, List.length_append, FrameHeader.length_bytes]
        at hlength
      omega
    rw [htake hn] at heq
    have hheader : header = header' := by
      have hparsed := congrArg FrameHeader.ofBytes heq
      rwa [binaryFrame, binaryFrame, FrameHeader.ofBytes_bytes_append,
        FrameHeader.ofBytes_bytes_append] at hparsed
    subst hheader
    exact ⟨hn, List.append_cancel_left heq ▸ hsize⟩
  · intro h
    exact ⟨header, payload.take (n - headerSize), h.2, htake h.1⟩

theorem append_newline_inj {left left' right right' : Bytes} (h : newline ∉ left)
    (h' : newline ∉ left') (heq : left ++ newline :: right = left' ++ newline :: right') :
    left = left' ∧ right = right' := by
  have hsplit := congrArg (Text.splitFirst newline) heq
  rw [Text.splitFirst_append h, Text.splitFirst_append h'] at hsplit
  exact Prod.mk.inj (Option.some.inj hsplit)

theorem textFrame_prefix_firstLine (header : FrameHeader) (payload : Bytes) :
    textFrame header (firstLine payload) <+: textFrame header payload := by
  obtain ⟨rest, hrest⟩ := exists_firstLine_append payload
  refine ⟨rest, ?_⟩
  rw [textFrame_eq, textFrame_eq, hrest]
  simp

/-- A text frame in front of another one ends with the first line of that one's payload. -/
theorem length_of_textFrame_prefix {header header' : FrameHeader} {payload payload' : Bytes}
    (hline : newline ∉ payload') (h : textFrame header' payload' <+: textFrame header payload) :
    (textFrame header' payload').length = (textFrame header (firstLine payload)).length := by
  obtain ⟨rest, heq⟩ := h
  obtain ⟨rest', hrest'⟩ := exists_firstLine_append payload
  rw [textFrame_eq, textFrame_eq, List.append_assoc, List.cons_append] at heq
  obtain ⟨hheader, hbody⟩ := append_newline_inj (newline_not_mem_headerLine header')
    (newline_not_mem_headerLine header) heq
  rw [hrest', List.append_assoc, List.singleton_append] at hbody
  obtain ⟨rfl, -⟩ := append_newline_inj hline (newline_not_mem_firstLine payload) hbody
  rw [textFrame_eq, textFrame_eq, hheader]

theorem isFrame_take_text_iff {header : FrameHeader} {payload : Bytes} {n : Nat} :
    IsFrame .text ((textFrame header payload).take n) ↔ EndsFrame .text header payload n := by
  constructor
  · intro h
    obtain ⟨header', payload', hline, heq⟩ := h
    have hlength := congrArg List.length heq
    rw [List.length_take, length_of_textFrame_prefix hline (heq ▸ List.take_prefix n _)] at hlength
    exact hlength
  · intro h
    refine ⟨header, firstLine payload, newline_not_mem_firstLine payload, ?_⟩
    rw [List.take_eq_take_min, h]
    exact (List.prefix_iff_eq_take.mp (textFrame_prefix_firstLine header payload)).symm

/-- Of what goes through a connection the kernel has taken a frame of its mode exactly if the
bytes taken end one. -/
theorem isFrame_take_iff {mode : ProtocolMode} {header : FrameHeader} {payload : Bytes} {n : Nat} :
    IsFrame mode ((encodeFrame mode header payload).take n) ↔ EndsFrame mode header payload n := by
  cases mode with
  | binary => exact isFrame_take_binary_iff
  | text => exact isFrame_take_text_iff

/-- A frame that is taken whole ends itself if it declares its size, or has a payload of one
line. -/
theorem endsFrame_whole_iff {mode : ProtocolMode} {header : FrameHeader} {payload : Bytes} :
    EndsFrame mode header payload (encodeFrame mode header payload).length ↔
      match mode with
      | .binary => header.payloadLength = size32 payload
      | .text => newline ∉ payload := by
  cases mode with
  | binary => simp [EndsFrame, encodeFrame, binaryFrame]
  | text =>
      simp only [EndsFrame, encodeFrame, min_self, textFrame_eq, List.length_append,
        List.length_cons, List.length_nil]
      constructor
      · intro h
        have hlength : (firstLine payload).length = payload.length := by omega
        have hwhole : firstLine payload = payload := (List.takeWhile_prefix _).eq_of_length hlength
        exact hwhole ▸ newline_not_mem_firstLine payload
      · intro h
        rw [firstLine_of_not_mem h]

namespace Engine

open Transition

def DirectSend.header (d : DirectSend) : FrameHeader := ⟨d.commandId, 0, size32 d.payload, d.sid⟩

/-- A direct send is a binary frame, of which a text connection takes no frame. -/
theorem isFrame_take_directSend_iff {d : DirectSend} {mode : ProtocolMode} {n : Nat} :
    IsFrame mode (d.bytes.take n) ↔
      mode = .binary ∧ EndsFrame .binary d.header d.payload n := by
  cases mode with
  | binary => exact isFrame_take_binary_iff.trans ⟨fun h => ⟨rfl, h⟩, And.right⟩
  | text =>
      refine iff_of_false ?_ (by simp)
      intro h
      obtain ⟨header, payload, -, heq⟩ := h
      have hlong : 2 < n := by
        have hlength := congrArg List.length heq
        simp only [List.length_take, textFrame, List.length_append, List.length_singleton]
          at hlength
        omega
      have hzero : (d.bytes.take n)[2]? = some 0 := by
        rw [List.getElem?_take_of_lt hlong]
        exact binaryFrame_flags_byte _ _
      rw [heq] at hzero
      exact textFrame_prefix_ne_zero header payload 2 (by decide) hzero

/-- What the kernel takes of everything the step writes, which is `n` bytes of it, has the format
of the connection it is written to. -/
def FormatsMatch (s : Engine) (evs : List Event) (n : Nat) : Prop :=
  ∀ origin sid fd bytes, .wrote origin sid fd bytes ∈ evs →
    ∀ c ∈ s.conns, c.isOpen → c.fd = fd → 0 < n → IsFrame c.mode (bytes.take n)

/-- If the request sends a frame through the connection, the bytes taken end it. -/
def SendEnds (n : Nat) (c : Conn) : Act → Prop
  | .progress ans => ∀ req ∈ c.phase.request, ∀ send ∈ req.pendingSend ans,
      ans.sent.isOk = true → EndsFrame c.mode send.1 send.2 n
  | .frame _ | .load | .save | .fail _ | .notified _ => True

instance (n : Nat) (c : Conn) : (act : Act) → Decidable (SendEnds n c act)
  | .progress ans => inferInstanceAs (Decidable (∀ req ∈ c.phase.request,
      ∀ send ∈ req.pendingSend ans, ans.sent.isOk = true → EndsFrame c.mode send.1 send.2 n))
  | .frame _ | .load | .save | .fail _ | .notified _ => inferInstanceAs (Decidable True)

/-- Of what the step writes nothing is taken, or it sends nothing straight to the descriptor of a
text connection, and the bytes taken end the frame that is sent. -/
def FormatSafe (s : Engine) (a : Label) (n : Nat) : Prop :=
  0 < n → (∀ d ∈ s.directSend a, ∀ c ∈ s.conns, c.isOpen → c.fd = d.fd →
    c.mode = .binary ∧ EndsFrame .binary d.header d.payload n) ∧
    s.OnConn (fun _ => SendEnds n) a

instance (s : Engine) (a : Label) (n : Nat) : Decidable (s.FormatSafe a n) :=
  inferInstanceAs (Decidable (_ → _ ∧ _))

theorem eq_of_fd_eq {s : Engine} {i : Nat} {c d : Conn} (hw : s.DescriptorsWellFormed)
    (hc : s.conns[i]? = some c) (hlive : c.hasEnded = false) (hd : d ∈ s.conns)
    (hopen : d.isOpen) (hfd : d.fd = c.fd) : d = c := by
  obtain ⟨j, hj⟩ := List.mem_iff_getElem?.mp hd
  obtain rfl := hw.distinct j i d c hj hc hopen (hw.liveOpen i c hc hlive) hfd
  exact Option.some.inj (hj.symm.trans hc)

theorem formatsMatch_iff_formatSafe {srv : Server} {s s' : Engine} {a : Label}
    {evs : List Event} {n : Nat} (hw : s.DescriptorsWellFormed)
    (hs : s.step srv a = some (s', evs)) : s.FormatsMatch evs n ↔ s.FormatSafe a n := by
  constructor
  · intro h hn
    constructor
    · intro d hd c hc hopen hfd
      have hevs : evs = [.wrote d.origin d.sid d.fd d.bytes] := by
        rw [events_of_directSend hs hd, DirectSend.events, if_pos ⟨c, hc, hopen, hfd⟩]
      exact (isFrame_take_directSend_iff).mp
        (h d.origin d.sid d.fd d.bytes (by simp [hevs]) c hc hopen hfd hn)
    · cases step_cases hs with
      | accepted _ _ _ _ | rejected _ _ _ _ => trivial
      | aside _ _ _ hnot => exact onConn_of_ne hnot
      | @conn i c act _ _ hc hstep =>
          rw [onConn_work hc]
          cases hstep with
          | progress ans req req' es hp ha =>
              intro req₁ hreq₁ send hsend hok
              obtain ⟨header, payload⟩ := send
              rw [hp] at hreq₁
              cases hreq₁
              have hsent := (Request.sent_mem_advance_iff ha).mpr ⟨hsend, hok⟩
              have hlive : c.hasEnded = false := by simp [Conn.hasEnded, hp]
              refine isFrame_take_iff.mp ?_
              refine h (.reply i) header.sessionId c.fd _ (List.mem_flatMap.mpr ⟨_, hsent, ?_⟩) c
                (List.mem_of_getElem? hc) (hw.liveOpen i c hc hlive) rfl hn
              simp [streamEvents]
          | frame _ _ | load _ _ | save _ _ _ | leave _ _ _ _ | notify _ _ _ _ _
          | noPool _ _ _ _ _ | escape _ _ _ | notified _ | notifyFailed _ _ => trivial
  · intro h origin sid fd bytes hev c hc hopen hfd hn
    cases wrote_cases hs hev with
    | direct d hd _ => exact (isFrame_take_directSend_iff).mpr ((h hn).1 d hd c hc hopen hfd)
    | reply i c₁ ans req req' es header payload hc₁ hp ha hsent =>
        have hlive : c₁.hasEnded = false := by simp [Conn.hasEnded, hp]
        obtain rfl := eq_of_fd_eq hw hc₁ hlive hc hopen hfd
        obtain ⟨hsend, hok⟩ := (Request.sent_mem_advance_iff ha).mp hsent
        refine isFrame_take_iff.mpr ?_
        exact (onConn_work hc₁).mp (h hn).2 req (by simp [Phase.request, hp]) (header, payload)
          hsend hok

def RequestsSized (s : Engine) : Prop :=
  ∀ c ∈ s.conns, ∀ req ∈ c.phase.request, req.task.Always Op.Sized

theorem requestsSized_step {srv : Server} {s s' : Engine} {a : Label} {evs : List Event}
    (h : s.RequestsSized) (hs : s.step srv a = some (s', evs)) : s'.RequestsSized := by
  refine forall_conns_step h ?_ ?_ hs
  · intro mode fd req hreq
    cases hreq
  · intro i c act s' evs hc hstep
    cases hstep with
    | load f hp =>
        refine ⟨_, rfl, fun req hreq => ?_⟩
        cases hreq
        exact srv.always_sized_processCommand f .tcp
    | progress ans req req' es hp ha =>
        refine ⟨_, rfl, fun req₁ hreq₁ => ?_⟩
        cases hreq₁
        have hreq : req.task.Always Op.Sized := hc req (by simp [Phase.request, hp])
        simp only [Request.advance, Option.map_eq_some_iff, Prod.exists, Prod.mk.injEq] at ha
        obtain ⟨state, task, es', ha, rfl, -⟩ := ha
        exact always_advance hreq ha
    | frame _ _ | save _ _ _ | leave _ _ _ _ | notify _ _ _ _ _ | noPool _ _ _ _ _
    | escape _ _ _ | notified _ | notifyFailed _ _ =>
        exact ⟨_, rfl, fun req hreq => by cases hreq⟩

/-- Every frame the engine itself is about to send as a reply is, taken whole, a binary frame. -/
def RepliesSized (s : Engine) : Prop :=
  ∀ c ∈ s.conns, ∀ req ∈ c.phase.request, ∀ header payload k,
    req.task = .call (.sendFrame header payload) k →
      EndsFrame .binary header payload (binaryFrame header payload).length

theorem RequestsSized.repliesSized {s : Engine} (h : s.RequestsSized) : s.RepliesSized := by
  intro c hc req hreq header payload k htask
  have hsized := h c hc req hreq
  rw [htask] at hsized
  exact endsFrame_whole_iff.mpr hsized.1

/-- Along every run, and whatever the kernel takes of each write, the output of every connection
has the format of its mode exactly as long as no direct send goes to a text connection and the
bytes taken end the frames they are taken of. For the replies of the engine itself, on a binary
connection, it is enough that they are taken whole. -/
theorem formatsMatch_run_iff (srv : Server) (discovery : DiscoveryConfig) (enabled : Bool)
    {tr : List (Step Engine Label Event)} {s : Engine}
    (h : Trace (step srv) (init srv discovery enabled) tr s) (taken : Nat → Nat) :
    ((∀ x ∈ tr.zipIdx, x.1.pre.FormatsMatch x.1.events (taken x.2)) ↔
      ∀ x ∈ tr.zipIdx, x.1.pre.FormatSafe x.1.label (taken x.2)) ∧
    ∀ x ∈ tr, x.pre.RepliesSized := by
  have hwf := h.always DescriptorsWellFormed (descriptorsWellFormed_init srv discovery enabled)
    (fun _ _ _ _ => descriptorsWellFormed_step)
  have hsized := h.always RequestsSized (by simp [RequestsSized, init])
    (fun _ _ _ _ => requestsSized_step)
  refine ⟨forall₂_congr fun x hx => ?_, fun x hx => (hsized.2 x hx).1.repliesSized⟩
  have hmem := List.fst_mem_of_mem_zipIdx hx
  exact formatsMatch_iff_formatSafe (hwf.2 x.1 hmem).1 (h.step_eq x.1 hmem)

/-- A text client is answered, and a binary client is sent two frames, of which the kernel takes
one and refuses the other. -/
theorem formatsMatch_echo :
    ∃ tr s, Trace (step Server.echo) (init Server.echo {} false) tr s ∧
      (∃ x ∈ tr, (x.pre.directSend x.label).isSome) ∧
      (∀ x ∈ tr.zipIdx, x.1.pre.FormatsMatch x.1.events (if x.2 = 12 then 0 else 100)) ∧
      ∀ x ∈ tr, x.pre.RepliesSized := by
  obtain ⟨tr, s, htr, hdirect, hsafe⟩ := exists_trace_of_exec
    (step Server.echo) (init Server.echo {} false)
    ([.accept .text 5, .accept .binary 6] ++ Label.request (.conn 1) (.command 2 9) ++
      [.work (.conn 0) (.frame ⟨⟨1, 0, 2, 7⟩, [104, 105]⟩), .work (.conn 0) .load,
        .work (.conn 0) (.progress {}), .work (.conn 0) (.progress {}),
        .work (.conn 0) (.progress {}), .work (.conn 0) .save, .sendTo 9 3 [1, 2], .sendTo 9 3 [1]])
    (fun tr _ => (∃ x ∈ tr, (x.pre.directSend x.label).isSome) ∧
      ∀ x ∈ tr.zipIdx, x.1.pre.FormatSafe x.1.label (if x.2 = 12 then 0 else 100))
    (by decide +kernel)
  obtain ⟨hiff, hsized⟩ := formatsMatch_run_iff Server.echo {} false htr
    fun k => if k = 12 then 0 else 100
  exact ⟨tr, s, htr, hdirect, hiff.mpr hsafe, hsized⟩

/-- A text client selects session 7; `send_to_session` writes it a binary frame. -/
theorem not_formatsMatch_send_to_text :
    ¬ ∀ srv discovery enabled tr s, Trace (step srv) (init srv discovery enabled) tr s →
      ∀ taken : Nat → Nat, ∀ x ∈ tr.zipIdx, x.1.pre.FormatsMatch x.1.events (taken x.2) := by
  intro h
  obtain ⟨tr, s, htr, x, hx, d, hd, c, hc, hopen, hfd, hmode⟩ := exists_trace_of_exec
    (step Server.bare) (init Server.bare {} false)
    ([.accept .text 5] ++ Label.request (.conn 0) (.command 1 7) ++ [.sendTo 7 1 []])
    (fun tr _ => ∃ x ∈ tr.zipIdx, ∃ d ∈ x.1.pre.directSend x.1.label,
      ∃ c ∈ x.1.pre.conns, c.isOpen ∧ c.fd = d.fd ∧ c.mode = .text) (by decide +kernel)
  have hev : .wrote d.origin d.sid d.fd d.bytes ∈ x.1.events := by
    rw [events_of_directSend (htr.step_eq x.1 (List.fst_mem_of_mem_zipIdx hx)) hd,
      DirectSend.events, if_pos ⟨c, hc, hopen, hfd⟩]
    exact List.mem_singleton.mpr rfl
  -- the kernel takes every write whole
  have hframe := h Server.bare {} false tr s htr (fun _ => headerSize) x hx _ _ _ _ hev c hc hopen
    hfd (by decide)
  rw [hmode, isFrame_take_directSend_iff] at hframe
  cases hframe.1

end Engine

end Servd
