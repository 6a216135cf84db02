import Servd.Gate

/-!
What leaves the server while an encrypted message is served. The engine itself sends
nothing but the reply, and seals it under the key of the session. Application code has
the connection behind its context, and the data it pushes goes out as it is, behind
whatever header is found when the push is sent.
-/
namespace Servd

open Coroutine

/-- The frame is an encrypted message whose payload is the IV, the tag and the ciphertext of an
encryption under the key. -/
structure SealedUnder (B : Botan) (key : AesKey) (header : FrameHeader) (payload : Bytes) :
    Prop where
  command : header.commandId = cmdEncryptedMessage
  encrypted : ∃ iv plaintext enc, B.sealMessage key iv plaintext = .ok enc ∧
    payload = sealedReply iv enc

/-- The operation sends no frame that is not sealed. -/
def Op.Seals (B : Botan) (key : AesKey) : Op → Prop
  | .sendFrame header payload => SealedUnder B key header payload
  | .user _ | .generatePrivate | .genIv | .enterAuthenticator _ | .enterHandler _ => True

section Always

variable {B : Botan} {key : AesKey}

theorem always_seals_session : Task.session.Always (Op.Seals B key) := ⟨trivial, fun _ => trivial⟩

theorem always_seals_encryptedReply (srv : Server) (key : AesKey) (cmd : UInt16)
    (response : ResponseFrame) :
    (srv.encryptedReply key cmd response).Always (Op.Seals srv.botan key) := by
  refine Coro.always_bind (c := Task.genIv) ⟨trivial, always_ofStd⟩ fun iv => ?_
  rw [AesGcm.encrypt_no_aad]
  cases hseal : srv.botan.sealMessage key iv
      (Bytes.littleEndian 2 cmd.toNat ++ response.payload) with
  | error what => trivial
  | ok enc =>
      rw [Task.ofStd_ok, Coro.ret_bind]
      refine Coro.always_bind always_seals_session fun session => ⟨?_, always_ofStd⟩
      exact ⟨rfl, iv, _, enc, hseal, rfl⟩

theorem always_seals_doRouteAndSend (srv : Server) (transport : TransportType) (key : AesKey)
    (cmd : UInt16) (inner : Bytes) :
    (srv.doRouteAndSend transport ⟨key⟩ cmd inner).Always (Op.Seals srv.botan key) := by
  cases hget : srv.router.get cmd with
  | none =>
      simp only [Server.doRouteAndSend, hget]
      trivial
  | some found =>
      obtain ⟨ep, handler⟩ := found
      rw [doRouteAndSend_eq hget]
      refine Coro.always_bind always_seals_session fun session => Coro.always_bind ?_ ?_
      · unfold Server.admission
        split
        · exact ⟨trivial, fun _ => always_lift (fun _ => trivial) _⟩
        · trivial
      · intro admitted
        split
        · exact ⟨trivial, fun _ => Coro.always_bind (always_lift (fun _ => trivial) _)
            (always_seals_encryptedReply srv key cmd)⟩
        · trivial

end Always

/-- In the run on these answers, application code has pushed the payload: `push_event` was called
with it as its data. -/
def Pushed (srv : Server) (session : Session) (f : ClientFrame) (transport : TransportType)
    (answers : List Answer) (payload : Bytes) : Prop :=
  ∃ before a after t eventCommandId k es, answers = before ++ a :: after ∧
    resume requestSem (.start session) (srv.processCommand f transport) before =
      some (t, .call (.user (.pushEvent eventCommandId payload)) k, es)

theorem mem_sentEvents {header header' : FrameHeader} {payload payload' : Bytes}
    {r : Except String Unit} (h : .sent header payload ∈ sentEvents header' payload' r) :
    header = header' ∧ payload = payload' := by
  cases r with
  | ok _ =>
      simp only [sentEvents, List.mem_singleton, RequestEvent.sent.injEq] at h
      exact h
  | error _ => cases h

/-- A frame is sent by `push_event` or by the engine. -/
theorem sent_cases {t : RequestState} {o : Op} {a : Answer} {header : FrameHeader}
    {payload : Bytes} (h : .sent header payload ∈ (requestSem.answer t o a).2.2) :
    (∃ eventCommandId, o = .user (.pushEvent eventCommandId payload)) ∨
      o = .sendFrame header payload := by
  cases o with
  | user u =>
      cases u with
      | pushEvent eventCommandId data =>
          obtain ⟨-, rfl⟩ := mem_sentEvents h
          exact .inl ⟨eventCommandId, rfl⟩
      | session | setAuthenticated _ _ | setAesKey _ | getLocal _ | setLocal _ _ | await => cases h
  | sendFrame header' payload' =>
      obtain ⟨rfl, rfl⟩ := mem_sentEvents h
      exact .inr rfl
  | generatePrivate | genIv => cases h
  | enterAuthenticator _ | enterHandler _ =>
      cases h with
      | tail _ h => cases h

/-- While a valid encrypted message is served, every frame that leaves is sealed under the key of
its session, but for those that application code itself pushes: their payload is the data of the
push in clear. -/
theorem sent_sealed_or_pushed (srv : Server) (session : Session)
    (hkey : session.hasAesKey = true) (f : ClientFrame) (transport : TransportType)
    (hframe : f.header.commandId = cmdEncryptedMessage) (cmd : UInt16) (inner : Bytes)
    (hmessage : innerMessage srv.botan (some session.aesKey) f.payload = some (cmd, inner))
    (answers : List Answer) (t : RequestState) (c : Task Unit) (es : List RequestEvent)
    (h : resume requestSem (.start session) (srv.processCommand f transport) answers =
      some (t, c, es)) (header : FrameHeader) (payload : Bytes)
    (hsent : .sent header payload ∈ es) :
    SealedUnder srv.botan session.aesKey header payload ∨
      Pushed srv session f transport answers payload := by
  have hinstalled : session.installedKey = some session.aesKey := if_pos hkey
  obtain ⟨before, a, after, u, o, k, fs, rfl, hrun, hemit⟩ := resume_emitted h hsent
  rcases sent_cases hemit with ⟨eventCommandId, rfl⟩ | rfl
  · exact .inr ⟨before, a, after, u, eventCommandId, k, fs, rfl, hrun⟩
  · refine .inl ?_
    cases before with
    | nil =>
        -- the first operation is the read of the session
        rw [Server.processCommand, hframe] at hrun
        cases hrun
    | cons b before =>
        rw [resume_encrypted hframe (t := .start session) (by rw [← hmessage, ← hinstalled]; rfl)]
          at hrun
        exact (always_resume (always_seals_doRouteAndSend srv transport _ cmd inner) hrun).1

/-- The echo server of the recorded conversation, whose handler pushes an event before it
returns. -/
def Server.pushing : Server where
  router := Router.empty.add 1 fun ctx => .call (.pushEvent 9 ctx.payload) fun _ =>
    .ret { payload := ctx.payload }
  botan := Recorded.botan

/-- The recorded message is answered with an event in clear and the sealed reply. -/
theorem resume_pushing : ∃ t c ctx u, resume requestSem (.start Recorded.session)
    (Server.pushing.processCommand (Recorded.message 7) .tcp) (List.replicate 7 Recorded.answer) =
      some (t, c, [.handlerCalled ctx u, .sent Recorded.answer.staleHeader [104, 105],
        .sent ⟨cmdEncryptedMessage, 0, 32, 7⟩
          (sealedReply Recorded.reply.iv Recorded.reply.output)]) :=
  ⟨_, _, _, _, rfl⟩

/-- An IV alone is longer than the data that is pushed. -/
theorem not_sealed_of_short {B : Botan} {key : AesKey} {header : FrameHeader} {payload : Bytes}
    (h : payload.length < 12) : ¬ SealedUnder B key header payload := by
  intro hsealed
  obtain ⟨iv, plaintext, enc, -, rfl⟩ := hsealed.encrypted
  have hiv : iv.val.length = 12 := iv.property
  simp only [sealedReply, List.length_append, hiv] at h
  omega

theorem sent_sealed_or_pushed_recorded :
    (SealedUnder Recorded.botan Recorded.sharedKey ⟨cmdEncryptedMessage, 0, 32, 7⟩
        (sealedReply Recorded.reply.iv Recorded.reply.output) ∨
      Pushed Server.pushing Recorded.session (Recorded.message 7) .tcp
        (List.replicate 7 Recorded.answer) (sealedReply Recorded.reply.iv Recorded.reply.output)) ∧
    Pushed Server.pushing Recorded.session (Recorded.message 7) .tcp
      (List.replicate 7 Recorded.answer) [104, 105] := by
  obtain ⟨t, c, ctx, u, hrun⟩ := resume_pushing
  have hsent := sent_sealed_or_pushed Server.pushing Recorded.session rfl (Recorded.message 7) .tcp
    rfl 1 [104, 105] (by decide +kernel) (List.replicate 7 Recorded.answer) t c _ hrun
  refine ⟨hsent _ _ (by simp), ?_⟩
  exact (hsent Recorded.answer.staleHeader [104, 105] (by simp)).resolve_left
    (not_sealed_of_short (by decide))

/-- The data of an event leaves in clear, whatever stands in front of it. -/
theorem not_sent_sealed :
    ¬ ∀ (srv : Server) (session : Session) (f : ClientFrame) (transport : TransportType)
        (cmd : UInt16) (inner : Bytes) (answers : List Answer) (t : RequestState) (c : Task Unit)
        (es : List RequestEvent), session.hasAesKey = true →
      f.header.commandId = cmdEncryptedMessage →
      innerMessage srv.botan (some session.aesKey) f.payload = some (cmd, inner) →
      resume requestSem (.start session) (srv.processCommand f transport) answers =
        some (t, c, es) →
      ∀ header payload, .sent header payload ∈ es →
        SealedUnder srv.botan session.aesKey header payload := by
  intro h
  obtain ⟨t, c, ctx, u, hrun⟩ := resume_pushing
  have hsealed := h Server.pushing Recorded.session (Recorded.message 7) .tcp 1 [104, 105]
    (List.replicate 7 Recorded.answer) t c _ rfl rfl (by decide +kernel) hrun
    Recorded.answer.staleHeader [104, 105] (by simp)
  exact not_sealed_of_short (by decide) hsealed

end Servd
