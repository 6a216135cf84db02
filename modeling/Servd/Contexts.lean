import Servd.Gate
import Servd.StreamInput

/-!
The contexts that application code is given. Three decoders build a header and a
payload on their own, and the inner frame of an encrypted message is built a fourth
way. In all of them the header announces the size of the payload, and the context
made of them has the session of its request and the command of its endpoint.
-/
namespace Servd

open Coroutine

/-- The frame comes out of one of the decoders: `read_frame`, on a stream of which every `recv`
brings no more than it has asked for, `read_text_frame`, on anything, or the decoder of
`start_udp_loop`, on a datagram that fits into its buffer. -/
inductive Arrives (names : CommandNames) : TransportType → ClientFrame → Prop
  | binary {f : ClientFrame} {stream mid left : Bytes}
      {header payload script rest : List Completion}
      (hheader : Recvs headerSize stream header (some mid))
      (hpayload : Recvs (FrameHeader.ofBytes stream).payloadLength.toNat mid payload (some left))
      (h : readFrame (header ++ (payload ++ script)) = .returned f rest) : Arrives names .tcp f
  | text {f : ClientFrame} {script rest : List Completion}
      (h : readTextFrame names script = .returned f rest) : Arrives names .tcp f
  | datagram {f : ClientFrame} {buffer : Bytes} {bytes : Nat} (hbytes : bytes ≤ buffer.length)
      (h : decodeDatagram buffer bytes = some f) : Arrives names .udp f

theorem sized_of_readTextFrame {names : CommandNames} {script rest : List Completion}
    {f : ClientFrame} (h : readTextFrame names script = .returned f rest) : f.Sized := by
  obtain ⟨line, mid, -, hline⟩ := Reader.bind_eq_returned.mp h
  cases hparse : parseTextHeader names line with
  | none =>
      simp only [hparse] at hline
      cases hline
      rfl
  | some parsed =>
      simp only [hparse] at hline
      obtain ⟨payloadLine, mid', -, hpayload⟩ := Reader.bind_eq_returned.mp hline
      cases hpayload
      simp only [ClientFrame.Sized, toNat_size32, List.length_take]
      exact (Nat.min_eq_left (Nat.mod_le _ _)).symm

theorem sized_of_decodeDatagram {buffer : Bytes} {bytes : Nat} {f : ClientFrame}
    (hbytes : bytes ≤ buffer.length) (h : decodeDatagram buffer bytes = some f) : f.Sized := by
  unfold decodeDatagram at h
  split at h
  · cases h
  · cases h
    have hpl : (min (FrameHeader.ofBytes buffer).payloadLength
        (UInt32.ofNat (bytes - headerSize))).toNat ≤ bytes - headerSize := by
      have hmod : (UInt32.ofNat (bytes - headerSize)).toNat ≤ bytes - headerSize := by
        rw [UInt32.toNat_ofNat']
        exact Nat.mod_le _ _
      have hmin := UInt32.toNat_min (FrameHeader.ofBytes buffer).payloadLength
        (UInt32.ofNat (bytes - headerSize))
      omega
    simp only [ClientFrame.Sized, List.length_take, List.length_drop]
    omega

theorem Arrives.sized {names : CommandNames} {transport : TransportType} {f : ClientFrame}
    (h : Arrives names transport f) : f.Sized := by
  cases h with
  | @binary _ stream mid left header payload script rest hheader hpayload h =>
      obtain ⟨bs, chunks, rfl, hbs, rfl, hdelivers⟩ := hheader.delivered.1 mid rfl
      rw [FrameHeader.ofBytes_append hbs] at hpayload
      obtain ⟨ps, payloadChunks, -, hps, rfl, hdelivers'⟩ := hpayload.delivered.1 left rfl
      rw [readFrame_delivered hbs hps.symm hdelivers hdelivers'] at h
      cases h
      exact hps.symm
  | text h => exact sized_of_readTextFrame h
  | datagram hbytes h => exact sized_of_decodeDatagram hbytes h

section Enters

variable {α β : Type} {P : Context → Handler → Prop}

/-- Application code is entered next with a context of which, with the handler of its endpoint,
`P` holds; and the handler entered is that one. -/
def EntersAt (P : Context → Handler → Prop) : (o : Op) → (o.Ans → Task α) → Prop
  | .enterAuthenticator ctx, _ => ∃ handler, P ctx handler
  | .enterHandler ctx, k =>
      ∃ handler reply, P ctx handler ∧ k = fun _ => (handler ctx).lift >>= reply
  | .user _, _ | .sendFrame _ _, _ | .generatePrivate, _ | .genIv, _ => True

def EntersNext (P : Context → Handler → Prop) : Task α → Prop
  | .ret _ => True
  | .throw _ => True
  | .call o k => EntersAt P o k

def Enters (P : Context → Handler → Prop) : Task α → Prop
  | .ret _ => True
  | .throw _ => True
  | .call o k => EntersAt P o k ∧ ∀ r, Enters P (k r)

theorem Enters.next {c : Task α} (h : Enters P c) : EntersNext P c := by
  cases c with
  | ret _ | throw _ => trivial
  | call o k => exact h.1

theorem entersAt_bind {o : Op} {k : o.Ans → Task α} (h : EntersAt P o k)
    (f : α → Task β) : EntersAt P o fun r => k r >>= f := by
  cases o with
  | user _ | sendFrame _ _ | generatePrivate | genIv => trivial
  | enterAuthenticator ctx => exact h
  | enterHandler ctx =>
      obtain ⟨handler, reply, hP, rfl⟩ := h
      exact ⟨handler, fun response => reply response >>= f, hP,
        funext fun _ => Coro.bind_assoc _ _ _⟩

theorem enters_bind {c : Task α} {f : α → Task β} (hc : Enters P c)
    (hf : ∀ a, Enters P (f a)) : Enters P (c >>= f) := by
  induction c with
  | ret a => exact hf a
  | throw e => trivial
  | call o k ih => exact ⟨entersAt_bind hc.1 f, fun r => ih r (hc.2 r)⟩

theorem enters_resume {t u : RequestState} {c d : Task α} {as : List Answer}
    {es : List RequestEvent} (hc : Enters P c)
    (h : resume requestSem t c as = some (u, d, es)) : Enters P d := by
  induction as generalizing t c es with
  | nil =>
      cases h
      exact hc
  | cons a as ih =>
      obtain ⟨v, c', es₁, es₂, ha, hr, rfl⟩ := resume_cons_eq_some.mp h
      cases c with
      | ret _ | throw _ => cases ha
      | call o k =>
          cases ha
          exact ih (hc.2 _) hr

theorem enters_lift (c : UserTask α) : Enters P c.lift := by
  induction c with
  | ret _ | throw _ => trivial
  | call u k ih => exact ⟨trivial, ih⟩

theorem enters_ofStd (r : Except String α) : Enters P (Task.ofStd r) := by
  cases r <;> trivial

theorem enters_session : Enters P Task.session := ⟨trivial, fun _ => trivial⟩

theorem enters_sendFrame (header : FrameHeader) (payload : Bytes) :
    Enters P (Task.sendFrame header payload) :=
  ⟨trivial, enters_ofStd⟩

theorem enters_gate (srv : Server) (ep : Endpoint) {handler : Handler} {ctx : Context}
    (hP : P ctx handler) {reply : ResponseFrame → Task Unit} (hreply : ∀ r, Enters P (reply r)) :
    Enters P (srv.gate ep handler ctx >>= replyWith reply) := by
  rw [gate_bind]
  refine enters_bind ?_ fun admitted => ?_
  · unfold Server.admission
    split
    · exact ⟨⟨handler, hP⟩, fun _ => enters_lift _⟩
    · trivial
  · split
    · exact ⟨⟨handler, reply, hP, rfl⟩, fun _ => enters_bind (enters_lift _) hreply⟩
    · trivial

theorem enters_plainReply (cmd : UInt16) (response : ResponseFrame) :
    Enters P (plainReply cmd response) :=
  enters_bind enters_session fun _ => enters_sendFrame _ _

theorem enters_encryptedReply (srv : Server) (key : AesKey) (cmd : UInt16)
    (response : ResponseFrame) : Enters P (srv.encryptedReply key cmd response) :=
  enters_bind ⟨trivial, enters_ofStd⟩ fun _ => enters_bind (enters_ofStd _) fun _ =>
    enters_bind enters_session fun _ => enters_sendFrame _ _

theorem enters_handleKeyExchange (srv : Server) (frame : ClientFrame) :
    Enters P (srv.handleKeyExchange frame) := by
  unfold Server.handleKeyExchange
  split
  · trivial
  · exact enters_bind ⟨trivial, enters_ofStd⟩ fun _ => enters_bind (enters_ofStd _) fun _ =>
      enters_bind (enters_ofStd _) fun _ => enters_bind ⟨trivial, fun _ => trivial⟩ fun _ =>
        enters_bind enters_session fun _ => enters_sendFrame _ _

end Enters

/-- The header of the context announces the size of its payload and has the id of its session, and
the command in it is the one the handler is registered for. -/
structure Context.Consistent (srv : Server) (session : Session) (ctx : Context)
    (handler : Handler) : Prop where
  size : ctx.header.payloadLength.toNat = ctx.payload.length
  session_id : ctx.header.sessionId = session.id
  routed : ∃ ep, srv.router.get ctx.header.commandId = some (ep, handler)

section Contexts

variable {srv : Server} {transport : TransportType} {f : ClientFrame} {t u : RequestState}
  {c : Task Unit} {as : List Answer} {es : List RequestEvent}

theorem consistent_normal (hsized : f.Sized) (hsession : f.header.sessionId = u.session.id)
    (h : resume requestSem t (srv.handleNormalCommand f transport) as = some (u, c, es)) :
    EntersNext (Context.Consistent srv u.session) c := by
  cases hget : srv.router.get f.header.commandId with
  | none =>
      simp only [Server.handleNormalCommand, hget] at h
      obtain ⟨-, -, rfl, -⟩ := resume_ret.mp h
      trivial
  | some found =>
      obtain ⟨ep, handler⟩ := found
      rw [handleNormalCommand_eq hget] at h
      exact (enters_resume (enters_gate srv ep ⟨hsized, hsession, ep, hget⟩
        (enters_plainReply _)) h).next

theorem consistent_routed {key : AesKey} {cmd : UInt16} {inner : Bytes}
    (hsize : inner.length < 2 ^ 32)
    (h : resume requestSem t (srv.doRouteAndSend transport ⟨key⟩ cmd inner) as = some (u, c, es)) :
    EntersNext (Context.Consistent srv u.session) c := by
  cases hget : srv.router.get cmd with
  | none =>
      simp only [Server.doRouteAndSend, hget] at h
      obtain ⟨-, -, rfl, -⟩ := resume_ret.mp h
      trivial
  | some found =>
      obtain ⟨ep, handler⟩ := found
      rw [doRouteAndSend_gate hget] at h
      cases as with
      | nil =>
          cases h
          trivial
      | cons a as =>
          rw [resume_session] at h
          have hlength : (size32 inner).toNat = inner.length := toNat_size32_of_lt hsize
          exact (enters_resume (enters_gate srv ep ⟨hlength, (resume_session_id h).symm, ep, hget⟩
            (enters_encryptedReply srv key cmd)) h).next

theorem consistent_encrypted (hsize : f.payload.length < 2 ^ 32)
    (h : resume requestSem t (srv.handleEncryptedMessage f transport) as = some (u, c, es)) :
    EntersNext (Context.Consistent srv u.session) c := by
  cases as with
  | nil =>
      cases h
      trivial
  | cons a as =>
      rw [Server.handleEncryptedMessage, resume_session] at h
      cases doDecrypt_cases srv.botan f.payload t.session with
      | authentic cmd inner _ hsome hd =>
          rw [hd] at h
          have hlength := length_of_innerMessage hsome
          have hinner : inner.length < 2 ^ 32 := by omega
          exact consistent_routed hinner h
      | rejected _ hd =>
          rw [hd] at h
          obtain ⟨-, -, rfl, -⟩ := resume_ret.mp h
          trivial
      | unavailable what _ hd =>
          rw [hd] at h
          obtain ⟨-, -, rfl, -⟩ := resume_throw.mp h
          trivial

end Contexts

/-- However a frame has arrived, and whatever application code does in the meantime (short of
assigning a whole other `Session`, see `UserOp`), every context an authenticator or a handler is
given has the size of its payload and the id of its session in its header, and the handler entered
is the one of the command in it. -/
theorem contexts_consistent (srv : Server) (names : CommandNames) (transport : TransportType)
    (f : ClientFrame) (harrives : Arrives names transport f) (session : Session)
    (hsession : session.id = f.header.sessionId) (answers : List Answer) (t : RequestState)
    (c : Task Unit) (es : List RequestEvent)
    (h : resume requestSem (.start session) (srv.processCommand f transport) answers =
      some (t, c, es)) : EntersNext (Context.Consistent srv t.session) c := by
  have hid : f.header.sessionId = t.session.id :=
    hsession.symm.trans (resume_session_id h).symm
  have hsize : f.payload.length < 2 ^ 32 := by
    rw [← harrives.sized]
    exact f.header.payloadLength.toNat_lt
  unfold Server.processCommand at h
  split at h
  · exact (enters_resume (enters_handleKeyExchange srv f) h).next
  · split at h
    · exact consistent_encrypted hsize h
    · exact consistent_normal harrives.sized hid h

/-- The datagram declares a payload of 9 bytes and brings 2 of them, in a buffer where an earlier
one has left a third. -/
theorem contexts_consistent_datagram :
    ∃ f t c, Arrives ∅ .udp f ∧ f = ⟨⟨1, 0, 2, 7⟩, [104, 105]⟩ ∧
      resume requestSem (.start { id := 7 }) (Server.echo.processCommand f .udp) [] =
        some (t, c, []) ∧
      EntersNext (Context.Consistent Server.echo t.session) c := by
  have harrives : Arrives ∅ .udp ⟨⟨1, 0, 2, 7⟩, [104, 105]⟩ :=
    @Arrives.datagram _ _ [1, 0, 0, 0, 9, 0, 0, 0, 7, 0, 0, 0, 0, 0, 0, 0, 104, 105, 106] 18
      (by decide) (by decide)
  exact ⟨_, _, _, harrives, rfl, rfl,
    contexts_consistent Server.echo ∅ .udp _ harrives { id := 7 } rfl [] _ _ _ rfl⟩

end Servd
