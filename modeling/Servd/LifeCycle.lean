import Servd.ClientHandlers
import Servd.Gate
import Servd.TextFraming

/-!
The life of a stream connection. Which frames are dispatched, with which session the
loop is left and whether the descriptor is closed is decided by how the turns of the
frames end. The coroutines of binary and text connections differ in one place after
the loop; a message that fails its authentication ends neither of them, and neither
does a header line that is rejected.
-/
namespace Servd

open Coroutine

section Loop

variable (srv : Server)

theorem reached_of_ok {a : Arrival} (h : a.outcome srv .tcp = .ok ()) (arrivals : List Arrival) :
    reached srv (a :: arrivals) = a :: reached srv arrivals := by
  rw [reached, h]

theorem reached_of_error {a : Arrival} {e : Exc} (h : a.outcome srv .tcp = .error e)
    (arrivals : List Arrival) : reached srv (a :: arrivals) = [a] := by
  rw [reached, h]

theorem Arrival.loads_of_ok {a : Arrival} (h : a.outcome srv .tcp = .ok ()) :
    a.loads = true := by
  unfold Arrival.outcome at h
  unfold Arrival.loads
  cases hload : a.loaded with
  | error e =>
      rw [hload] at h
      cases h
  | ok session => rfl

theorem Arrival.currentSid_eq (a : Arrival) (currentSid : UInt64) :
    a.currentSid currentSid = if a.loads then a.sessionId else currentSid := by
  unfold Arrival.currentSid Arrival.loads
  cases a.loaded <;> rfl

theorem lastLoaded_getD_cons {a : Arrival} {arrivals tail : List Arrival}
    (h : reached srv (a :: arrivals) = a :: reached srv tail) (currentSid : UInt64) :
    (lastLoaded srv (a :: arrivals)).getD currentSid =
      (lastLoaded srv tail).getD (a.currentSid currentSid) := by
  rw [a.currentSid_eq]
  unfold lastLoaded
  rw [h]
  cases hloads : a.loads with
  | false => simp [hloads]
  | true =>
      simp only [List.filter_cons, hloads, if_true, List.getLast?_cons]
      cases ((reached srv tail).filter (·.loads)).getLast? <;> rfl

theorem escapes_cons_of_ok {a : Arrival} (h : a.outcome srv .tcp = .ok ())
    (arrivals : List Arrival) : Escapes srv (a :: arrivals) ↔ Escapes srv arrivals := by
  unfold Escapes
  rw [reached_of_ok srv h]
  simp [h]

theorem escapes_cons_of_error {a : Arrival} {e : Exc} (h : a.outcome srv .tcp = .error e)
    (arrivals : List Arrival) : Escapes srv (a :: arrivals) ↔ e = .other := by
  unfold Escapes
  rw [reached_of_error srv h]
  simp [h]

/-- The loop is left with the session of the last frame whose session was loaded. -/
theorem clientLoop_snd (currentSid : UInt64) (arrivals : List Arrival) :
    (clientLoop srv currentSid arrivals).2 =
      if Escapes srv arrivals then none
      else some ((lastLoaded srv arrivals).getD currentSid) := by
  induction arrivals generalizing currentSid with
  | nil => rfl
  | cons a arrivals ih =>
      simp only [clientLoop, Arrival.serve_snd]
      cases h : a.outcome srv .tcp with
      | ok _ =>
          rw [lastLoaded_getD_cons srv (reached_of_ok srv h arrivals) currentSid]
          simp only [escapes_cons_of_ok srv h, ih]
      | error e =>
          rw [@lastLoaded_getD_cons srv _ _ [] (reached_of_error srv h arrivals) currentSid]
          simp only [escapes_cons_of_error srv h]
          cases e with
          | std what => rfl
          | other => rfl

end Loop

/-- The coroutines of binary and text connections have the same effects, on the same frames and
answers, if and only if there is no disconnect callback, or an exception leaves the coroutine
before its end, or no session other than -1 was loaded last. -/
theorem handleClient_eq_textHandleClient_iff (srv : Server) (hpool : srv.threadPool = true)
    (script : ClientScript) (hnotified : script.notified = .ok ()) :
    handleClient srv script = textHandleClient srv script ↔
      srv.disconnectHandler = false ∨ Escapes srv script.arrivals ∨
        ∀ sid, lastLoaded srv script.arrivals = some sid → sid = noSession := by
  have hlast : (∀ sid, lastLoaded srv script.arrivals = some sid → sid = noSession) ↔
      (lastLoaded srv script.arrivals).getD noSession = noSession := by
    cases lastLoaded srv script.arrivals <;> simp
  simp only [handleClient, textHandleClient, hnotified, hpool, if_true, clientLoop_snd, hlast]
  by_cases hescapes : Escapes srv script.arrivals
  · simp [hescapes]
  · generalize (lastLoaded srv script.arrivals).getD noSession = sid
    simp only [hescapes, if_false, false_or]
    by_cases hcalled : srv.disconnectHandler = true ∧ sid ≠ noSession
    · -- the callback is one effect more
      rw [if_pos hcalled]
      constructor
      · intro h
        have hlength := congrArg List.length h
        simp only [List.length_append, List.length_cons] at hlength
        omega
      · rintro (hnone | hsid)
        · rw [hcalled.1] at hnone
          cases hnone
        · exact absurd hsid hcalled.2
    · rw [if_neg hcalled]
      simp only [true_iff]
      by_cases hsid : sid = noSession
      · exact .inr hsid
      · refine .inl ?_
        cases hhandler : srv.disconnectHandler with
        | false => rfl
        | true => exact absurd ⟨hhandler, hsid⟩ hcalled

/-- One echo request on session 7. -/
def echoScript : ClientScript where
  arrivals := [{ frame := .command 1 7, loaded := .ok { id := 7 } }]

theorem handleClient_eq_textHandleClient_echo :
    handleClient { Server.echo with threadPool := true } echoScript =
      textHandleClient { Server.echo with threadPool := true } echoScript :=
  (handleClient_eq_textHandleClient_iff { Server.echo with threadPool := true } rfl echoScript
    rfl).mpr (.inl rfl)

/-- With a disconnect callback, only the binary connection reports the end of session 7. -/
theorem not_handleClient_eq_textHandleClient :
    ¬ ∀ (srv : Server) (script : ClientScript), srv.threadPool = true →
      script.notified = .ok () → handleClient srv script = textHandleClient srv script := by
  intro h
  have hlength := congrArg List.length
    (h { Server.echo with threadPool := true, disconnectHandler := true } echoScript rfl rfl)
  exact absurd hlength (by decide)

/-- The coroutine that a listener of the mode starts for a connection. -/
def serveStream : ProtocolMode → Server → ClientScript → List Effect
  | .binary => handleClient
  | .text => textHandleClient

def Effect.dispatchedFrame : Effect → Option ClientFrame
  | .dispatched frame => some frame
  | .counted | .loaded _ | .unregistered _ | .registered _ | .request _ | .saved _
  | .disconnected _ | .closed | .uncounted | .discoveryResumed => none

def dispatchedFrames (es : List Effect) : List ClientFrame := es.filterMap Effect.dispatchedFrame

@[simp] theorem dispatchedFrames_append (es fs : List Effect) :
    dispatchedFrames (es ++ fs) = dispatchedFrames es ++ dispatchedFrames fs :=
  List.filterMap_append

@[simp] theorem dispatchedFrames_request (es : List RequestEvent) :
    dispatchedFrames (es.map .request) = [] := by
  simp [dispatchedFrames, Effect.dispatchedFrame]

/-- Effects that neither dispatch a frame nor close the descriptor. -/
def Silent (es : List Effect) : Prop := dispatchedFrames es = [] ∧ .closed ∉ es

theorem silent_selectEffects (currentSid sid : UInt64) : Silent (selectEffects currentSid sid) := by
  unfold selectEffects
  split
  · split <;> exact ⟨rfl, by simp⟩
  · exact ⟨rfl, by simp⟩

theorem silent_leaveEffects (currentSid : UInt64) : Silent (leaveEffects currentSid) := by
  unfold leaveEffects
  split <;> exact ⟨rfl, by simp⟩

/-- The effects that follow the loop. -/
def Effect.IsEnd : Effect → Prop
  | .unregistered _ | .disconnected _ | .closed | .uncounted | .discoveryResumed => True
  | .counted | .loaded _ | .registered _ | .dispatched _ | .request _ | .saved _ => False

theorem isEnd_of_mem_leaveEffects {currentSid : UInt64} :
    ∀ e ∈ leaveEffects currentSid, e.IsEnd := by
  unfold leaveEffects
  split <;> simp [Effect.IsEnd]

theorem isEnd_of_mem_closeEffects {srv : Server} {script : ClientScript} :
    ∀ e ∈ closeEffects srv script, e.IsEnd := by
  unfold closeEffects
  simp only
  split <;> simp [Effect.IsEnd]

theorem dispatchedFrames_of_isEnd {es : List Effect} (h : ∀ e ∈ es, e.IsEnd) :
    dispatchedFrames es = [] := by
  refine List.filterMap_eq_nil_iff.mpr fun e he => ?_
  have hend := h e he
  cases e with
  | unregistered _ | disconnected _ | closed | uncounted | discoveryResumed => rfl
  | counted | loaded _ | registered _ | dispatched _ | request _ | saved _ => cases hend

theorem serveStream_split (mode : ProtocolMode) (srv : Server) (script : ClientScript) :
    ∃ tail, serveStream mode srv script =
        .counted :: (clientLoop srv noSession script.arrivals).1 ++ tail ∧
      ∀ e ∈ tail, e.IsEnd := by
  cases mode with
  | binary =>
      refine ⟨_, rfl, ?_⟩
      cases (clientLoop srv noSession script.arrivals).2 with
      | none => simp
      | some sid =>
          refine List.forall_mem_append.mpr ⟨isEnd_of_mem_leaveEffects, ?_⟩
          split
          · split
            · cases script.notified with
              | ok _ => exact List.forall_mem_cons.mpr ⟨trivial, isEnd_of_mem_closeEffects⟩
              | error e => simp [Effect.IsEnd]
            · simp
          · exact isEnd_of_mem_closeEffects
  | text =>
      refine ⟨_, rfl, ?_⟩
      cases (clientLoop srv noSession script.arrivals).2 with
      | none => simp
      | some sid =>
          exact List.forall_mem_append.mpr ⟨isEnd_of_mem_leaveEffects, isEnd_of_mem_closeEffects⟩

section Dispatch

variable (srv : Server)

theorem dispatchedFrames_serve (transport : TransportType) {select : List Effect}
    (hselect : Silent select) (a : Arrival) :
    dispatchedFrames (a.serve srv transport select).1 = if a.loads then [a.frame] else [] := by
  unfold Arrival.serve Arrival.loads
  cases a.loaded with
  | error e => rfl
  | ok session =>
      have heffects : dispatchedFrames (.loaded a.sessionId :: select ++ .dispatched a.frame ::
          (a.processed srv transport session).events.map .request) = [a.frame] := by
        rw [List.cons_append, ← List.singleton_append, dispatchedFrames_append,
          dispatchedFrames_append, hselect.1, ← List.singleton_append (l := List.map _ _),
          dispatchedFrames_append, dispatchedFrames_request]
        rfl
      simp only
      cases (a.processed srv transport session).result with
      | error e => exact heffects
      | ok _ =>
          rw [dispatchedFrames_append, heffects]
          rfl

theorem closed_not_mem_serve (transport : TransportType) {select : List Effect}
    (hselect : Silent select) (a : Arrival) : .closed ∉ (a.serve srv transport select).1 := by
  unfold Arrival.serve
  cases a.loaded with
  | error e => simp
  | ok session =>
      simp only
      cases (a.processed srv transport session).result <;> simp [hselect.2]

/-- The frames dispatched are those that are reached and whose session is loaded. -/
theorem dispatchedFrames_clientLoop (currentSid : UInt64) (arrivals : List Arrival) :
    dispatchedFrames (clientLoop srv currentSid arrivals).1 =
      ((reached srv arrivals).filter (·.loads)).map (·.frame) := by
  induction arrivals generalizing currentSid with
  | nil => rfl
  | cons a arrivals ih =>
      have hturn := dispatchedFrames_serve srv .tcp
        (silent_selectEffects currentSid a.sessionId) a
      simp only [clientLoop, Arrival.serve_snd]
      cases h : a.outcome srv .tcp with
      | ok _ =>
          rw [reached_of_ok srv h, List.filter_cons, a.loads_of_ok srv h]
          simp only [if_true, List.map_cons, dispatchedFrames_append, hturn, ih,
            a.loads_of_ok srv h, List.singleton_append]
      | error e =>
          rw [reached_of_error srv h]
          cases e with
          | std what | other =>
              simp only [hturn]
              cases hloads : a.loads <;> simp [hloads]

theorem closed_not_mem_clientLoop (currentSid : UInt64) (arrivals : List Arrival) :
    .closed ∉ (clientLoop srv currentSid arrivals).1 := by
  induction arrivals generalizing currentSid with
  | nil => simp [clientLoop]
  | cons a arrivals ih =>
      have hturn := closed_not_mem_serve srv .tcp
        (silent_selectEffects currentSid a.sessionId) a
      simp only [clientLoop, Arrival.serve_snd]
      cases h : a.outcome srv .tcp with
      | ok _ =>
          intro hmem
          rcases List.mem_append.mp hmem with hmem | hmem
          · exact hturn hmem
          · exact ih _ hmem
      | error e =>
          cases e with
          | std what | other => exact hturn

theorem dispatchedFrames_serveStream (mode : ProtocolMode) (script : ClientScript) :
    dispatchedFrames (serveStream mode srv script) =
      ((reached srv script.arrivals).filter (·.loads)).map (·.frame) := by
  obtain ⟨tail, hsplit, hend⟩ := serveStream_split mode srv script
  rw [hsplit, dispatchedFrames_append, dispatchedFrames_of_isEnd hend, List.append_nil,
    ← dispatchedFrames_clientLoop srv noSession]
  rfl

/-- The coroutine comes to the close: its loop is left, and if it has to wait for the disconnect
callback, that returns. -/
theorem closed_mem_serveStream (mode : ProtocolMode) (script : ClientScript) :
    .closed ∈ serveStream mode srv script ↔
      ¬ Escapes srv script.arrivals ∧
        (mode = .text ∨ srv.disconnectHandler = false ∨
          (lastLoaded srv script.arrivals).getD noSession = noSession ∨
          srv.threadPool = true ∧ script.notified = .ok ()) := by
  have hloop := closed_not_mem_clientLoop srv noSession script.arrivals
  have hclose : .closed ∈ closeEffects srv script := by simp [closeEffects]
  by_cases hescapes : Escapes srv script.arrivals
  · cases mode <;>
      simp [serveStream, handleClient, textHandleClient, clientLoop_snd, hescapes, hloop]
  · have hleave := (silent_leaveEffects ((lastLoaded srv script.arrivals).getD noSession)).2
    cases mode with
    | text =>
        simp [serveStream, textHandleClient, clientLoop_snd, hescapes, hclose]
    | binary =>
        simp only [serveStream, handleClient, clientLoop_snd, hescapes, if_false, List.cons_append,
          List.mem_cons, List.mem_append, hloop, hleave, reduceCtorEq, false_or, not_false_eq_true,
          true_and]
        by_cases hcalled : srv.disconnectHandler = true ∧
            (lastLoaded srv script.arrivals).getD noSession ≠ noSession
        · rw [if_pos hcalled]
          cases hpool : srv.threadPool with
          | false => simp [hcalled]
          | true => cases script.notified <;> simp [hcalled, hclose]
        · rw [if_neg hcalled]
          simp only [hclose, true_iff]
          by_cases hsid : (lastLoaded srv script.arrivals).getD noSession = noSession
          · exact .inr (.inl hsid)
          · refine .inl ?_
            cases hhandler : srv.disconnectHandler with
            | false => rfl
            | true => exact absurd ⟨hhandler, hsid⟩ hcalled

end Dispatch

/-- The frame is an encrypted message on a session with a key, long enough to have a nonce and a
tag, and the tag does not verify under the key. -/
structure Arrival.Tampered (B : Botan) (session : Session) (a : Arrival) : Prop where
  command : a.frame.header.commandId = cmdEncryptedMessage
  loaded : a.loaded = .ok session
  key : session.hasAesKey = true
  long : 28 ≤ a.frame.payload.length
  available : B.gcmAvailable = true
  fails : ∃ what, B.openMessage session.aesKey (Octets.ofBytes 12 a.frame.payload)
    (a.frame.payload.drop 28 ++ (a.frame.payload.drop 12).take 16) = .error what

section Tampered

variable {srv : Server} {session : Session} {bad : Arrival}

theorem exec_session {α : Type} (f : Session → Task α) (t : RequestState)
    (stream : Nat → Answer) :
    exec requestSem (Task.session >>= f) t stream =
      { exec requestSem (f t.session) t (fun n => stream (n + 1)) with
        consumed := (exec requestSem (f t.session) t fun n => stream (n + 1)).consumed + 1 } :=
  rfl

theorem Arrival.Tampered.doDecrypt (h : bad.Tampered srv.botan session) :
    doDecrypt srv.botan bad.frame.payload session = .ok none := by
  obtain ⟨what, hopen⟩ := h.fails
  have hnone : innerMessage srv.botan session.installedKey bad.frame.payload = none := by
    rw [Session.installedKey, if_pos h.key, innerMessage, Option.bind_some, openPayload,
      if_pos ⟨h.available, h.long⟩, hopen]
    rfl
  cases doDecrypt_cases srv.botan bad.frame.payload session with
  | authentic cmd inner _ hsome _ =>
      rw [hnone] at hsome
      cases hsome
  | rejected _ hd => exact hd
  | unavailable what _ hd => exact absurd hd (doDecrypt_ne_error h.available)

/-- The message is dropped without an exception, so its turn ends as the save does. -/
theorem Arrival.Tampered.outcome (h : bad.Tampered srv.botan session) :
    bad.outcome srv .tcp = bad.saved := by
  have hresult : (bad.processed srv .tcp session).result = .ok () := by
    rw [Arrival.processed, Server.processCommand, h.command]
    simp only [cmdEncryptedMessage, cmdKeyExchange, Server.handleEncryptedMessage]
    rw [if_neg (by decide), if_pos trivial, exec_session]
    simp only [RequestState.start, h.doDecrypt, Task.ofStd_ok, Coro.ret_bind]
    rfl
  rw [Arrival.outcome, h.loaded]
  simp only [hresult]

theorem Arrival.Tampered.loads (h : bad.Tampered srv.botan session) : bad.loads = true := by
  rw [Arrival.loads, h.loaded]
  rfl

theorem reached_append {before : List Arrival}
    (hbefore : ∀ a ∈ before, a.outcome srv .tcp = .ok ()) (arrivals : List Arrival) :
    reached srv (before ++ arrivals) = before ++ reached srv arrivals := by
  induction before with
  | nil => rfl
  | cons a before ih =>
      rw [List.cons_append, reached_of_ok srv (hbefore a (by simp)),
        ih fun b hb => hbefore b (by simp [hb]), List.cons_append]

theorem filter_reached {before tail : List Arrival}
    (hbefore : ∀ a ∈ before, a.outcome srv .tcp = .ok ()) (hbad : bad.loads = true) :
    (before ++ bad :: tail).filter (·.loads) = before ++ bad :: tail.filter (·.loads) := by
  have hall : before.filter (·.loads) = before :=
    List.filter_eq_self.mpr fun a ha => a.loads_of_ok srv (hbefore a ha)
  rw [List.filter_append, hall, List.filter_cons, if_pos hbad]

/-- What is reached after the tampered message, and how the coroutine leaves the loop. -/
theorem tail_of_tampered {before : List Arrival}
    (hbefore : ∀ a ∈ before, a.outcome srv .tcp = .ok ()) (hbad : bad.Tampered srv.botan session)
    (after : List Arrival) :
    ∃ tail, reached srv (before ++ bad :: after) = before ++ bad :: tail ∧
      (tail.filter (·.loads) = [] ∧ ¬ Escapes srv (before ++ bad :: after) ↔
        (∃ what, bad.saved = .error (.std what)) ∨ bad.saved = .ok () ∧
          (after = [] ∨ ∃ a rest what, after = a :: rest ∧ a.loaded = .error (.std what))) := by
  have hescapes : ∀ tail, reached srv (before ++ bad :: after) = before ++ bad :: tail →
      (Escapes srv (before ++ bad :: after) ↔ bad.saved = .error .other ∨
        ∃ a ∈ tail, a.outcome srv .tcp = .error .other) := by
    intro tail htail
    simp only [Escapes, htail, List.mem_append, List.mem_cons, or_and_right, exists_or,
      exists_eq_left, hbad.outcome]
    refine ⟨?_, .inr⟩
    rintro (⟨a, ha, hother⟩ | h)
    · rw [hbefore a ha] at hother
      cases hother
    · exact h
  cases hsaved : bad.saved with
  | error e =>
      have htail : reached srv (before ++ bad :: after) = before ++ [bad] := by
        rw [reached_append hbefore, reached_of_error srv (hbad.outcome.trans hsaved)]
      refine ⟨[], htail, ?_⟩
      rw [hescapes [] htail, hsaved]
      cases e <;> simp
  | ok _ =>
      have htail : reached srv (before ++ bad :: after) = before ++ bad :: reached srv after := by
        rw [reached_append hbefore, reached_of_ok srv (hbad.outcome.trans hsaved)]
      refine ⟨reached srv after, htail, ?_⟩
      rw [hescapes _ htail, hsaved]
      cases after with
      | nil => simp [reached]
      | cons a rest =>
          cases hload : a.loaded with
          | ok s =>
              have hloads : a.loads = true := by rw [Arrival.loads, hload]; rfl
              simp [reached, hloads, hload]
          | error e =>
              have hloads : a.loads = false := by rw [Arrival.loads, hload]; rfl
              have houtcome : a.outcome srv .tcp = .error e := by rw [Arrival.outcome, hload]
              rw [reached_of_error srv houtcome]
              cases e <;> simp [hloads, houtcome, hload]

end Tampered

/-- After a message that fails its authentication, no later frame of the connection is dispatched
and the connection is closed, if and only if there is no later frame whose session is loaded, or
the save of the session fails, and the end of the coroutine is not cut short. -/
theorem tampered_ends_connection_iff (mode : ProtocolMode) (srv : Server) (script : ClientScript)
    (before after : List Arrival) (bad : Arrival)
    (harrivals : script.arrivals = before ++ bad :: after)
    (hbefore : ∀ a ∈ before, a.outcome srv .tcp = .ok ()) (session : Session)
    (hbad : bad.Tampered srv.botan session) :
    (dispatchedFrames (serveStream mode srv script) = (before ++ [bad]).map (·.frame) ∧
      .closed ∈ serveStream mode srv script) ↔
    ((∃ what, bad.saved = .error (.std what)) ∨ bad.saved = .ok () ∧
      (after = [] ∨ ∃ a rest what, after = a :: rest ∧ a.loaded = .error (.std what))) ∧
    (mode = .text ∨ srv.disconnectHandler = false ∨ bad.sessionId = noSession ∨
      srv.threadPool = true ∧ script.notified = .ok ()) := by
  obtain ⟨tail, hreached, htail⟩ := tail_of_tampered hbefore hbad after
  rw [dispatchedFrames_serveStream, closed_mem_serveStream, harrivals, hreached,
    filter_reached hbefore hbad.loads, ← htail]
  have hdispatched : (before ++ bad :: tail.filter (·.loads)).map (·.frame) =
      (before ++ [bad]).map (·.frame) ↔ tail.filter (·.loads) = [] := by
    simp
  have hlast : tail.filter (·.loads) = [] →
      (lastLoaded srv (before ++ bad :: after)).getD noSession = bad.sessionId := by
    intro hnone
    rw [lastLoaded, hreached, filter_reached hbefore hbad.loads, hnone]
    simp
  rw [hdispatched]
  constructor
  · rintro ⟨hnone, hstays, hclose⟩
    rw [hlast hnone] at hclose
    exact ⟨⟨hnone, hstays⟩, hclose⟩
  · rintro ⟨⟨hnone, hstays⟩, hclose⟩
    refine ⟨hnone, hstays, ?_⟩
    rw [hlast hnone]
    exact hclose

/-- A message whose tag is wrong, on the session of the recorded conversation. -/
def tamperedArrival : Arrival where
  frame := ⟨⟨cmdEncryptedMessage, 0, 28, 7⟩, List.replicate 28 1⟩
  loaded := .ok Recorded.session

theorem tamperedArrival_tampered :
    tamperedArrival.Tampered Server.recorded.botan Recorded.session :=
  ⟨rfl, rfl, rfl, by decide, rfl, _, rfl⟩

/-- Nothing follows the message. -/
theorem tampered_ends_connection_last :
    dispatchedFrames (serveStream .text Server.recorded { arrivals := [tamperedArrival] }) =
        [tamperedArrival.frame] ∧
      .closed ∈ serveStream .text Server.recorded { arrivals := [tamperedArrival] } :=
  (tampered_ends_connection_iff .text Server.recorded { arrivals := [tamperedArrival] } [] []
    tamperedArrival rfl (by simp) Recorded.session tamperedArrival_tampered).mpr
      ⟨.inr ⟨rfl, .inl rfl⟩, .inl rfl⟩

/-- An echo request after the message is dispatched. -/
theorem not_tampered_ends_connection :
    ¬ ∀ (mode : ProtocolMode) (srv : Server) (script : ClientScript) (before after : List Arrival)
        (bad : Arrival) (session : Session), script.arrivals = before ++ bad :: after →
      (∀ a ∈ before, a.outcome srv .tcp = .ok ()) → bad.Tampered srv.botan session →
      dispatchedFrames (serveStream mode srv script) = (before ++ [bad]).map (·.frame) ∧
        .closed ∈ serveStream mode srv script := by
  intro h
  have hdispatched := (h .binary Server.recorded { arrivals := tamperedArrival ::
    echoScript.arrivals } [] echoScript.arrivals tamperedArrival Recorded.session rfl (by simp)
    tamperedArrival_tampered).1
  exact absurd hdispatched (by decide +kernel)

/-- What a frame leads to: the effects of its turn, and the update of the registry if the loop is
left because of it. -/
def frameEffects (srv : Server) (currentSid : UInt64) (a : Arrival) : List Effect :=
  (a.serve srv .tcp (selectEffects currentSid a.sessionId)).1 ++
    match a.outcome srv .tcp with
    | .error (.std _) => leaveEffects (a.currentSid currentSid)
    | .ok () | .error .other => []

/-- Application code is called, a session is saved or the registry is updated. -/
def Effect.Touches : Effect → Prop
  | .request (.authenticatorCalled _ _) | .request (.handlerCalled _ _) | .saved _
  | .registered _ | .unregistered _ => True
  | .request (.sent _ _) | .counted | .loaded _ | .dispatched _ | .disconnected _ | .closed
  | .uncounted | .discoveryResumed => False

/-- The frame has no effect: nobody is called for it, no session is loaded, created or saved, and
the registry and the current session of the connection stay as they are. -/
structure Inert (srv : Server) (currentSid : UInt64) (a : Arrival) : Prop where
  untouched : ∀ e ∈ frameEffects srv currentSid a, ¬ e.Touches
  unloaded : ∀ session, a.loaded ≠ .ok session
  current : a.currentSid currentSid = currentSid

section Unloaded

variable (srv : Server) (currentSid : UInt64) {a : Arrival}

theorem currentSid_of_error {e : Exc} (hload : a.loaded = .error e) :
    a.currentSid currentSid = currentSid := by
  rw [Arrival.currentSid, hload]

theorem frameEffects_of_std {what : String} (hload : a.loaded = .error (.std what)) :
    frameEffects srv currentSid a = .loaded a.sessionId :: leaveEffects currentSid := by
  simp only [frameEffects, Arrival.serve, Arrival.outcome, hload,
    currentSid_of_error currentSid hload]
  rfl

theorem frameEffects_of_other (hload : a.loaded = .error .other) :
    frameEffects srv currentSid a = [.loaded a.sessionId] := by
  simp only [frameEffects, Arrival.serve, Arrival.outcome, hload]
  rfl

end Unloaded

theorem inert_iff (srv : Server) (currentSid : UInt64) (a : Arrival) :
    Inert srv currentSid a ↔ ∃ e, a.loaded = .error e ∧ (e = .other ∨ currentSid = noSession) := by
  constructor
  · intro h
    cases hload : a.loaded with
    | ok session => exact absurd hload (h.unloaded session)
    | error e =>
        refine ⟨e, rfl, ?_⟩
        cases e with
        | other => exact .inl rfl
        | std what =>
            refine .inr (Decidable.byContradiction fun hsid => ?_)
            refine h.untouched (.unregistered currentSid) ?_ trivial
            rw [frameEffects_of_std srv currentSid hload]
            simp [leaveEffects, hsid]
  · intro h
    obtain ⟨e, hload, he⟩ := h
    -- nothing but the failed load, as there is no session to leave or the coroutine is torn down
    have heffects : frameEffects srv currentSid a = [.loaded a.sessionId] := by
      cases e with
      | other => exact frameEffects_of_other srv currentSid hload
      | std what =>
          obtain hsid | hsid := he
          · cases hsid
          · rw [frameEffects_of_std srv currentSid hload, hsid]
            rfl
    refine ⟨?_, by simp [hload], currentSid_of_error currentSid hload⟩
    rw [heffects]
    intro effect hmem
    cases List.mem_singleton.mp hmem
    exact not_false

/-- A header line that is rejected is read as a frame of command 0 on session 0. It has no effect
if and only if `get_or_create` throws for that session, and either the connection has no current
session or what is thrown is no `std::exception`. -/
theorem rejected_header_inert_iff (srv : Server) (names : CommandNames)
    (bs headerLine rest : Bytes) (hline : nextLine bs = some (headerLine, rest))
    (hreject : parseTextHeader names headerLine = none) (currentSid : UInt64)
    (loaded : Except Exc Session) (answers : Nat → Answer) (saved : Except Exc Unit) :
    readTextFrame names (ofStream bs) = .returned (.command 0 0) (ofStream rest) ∧
      (Inert srv currentSid ⟨.command 0 0, loaded, answers, saved⟩ ↔
        ∃ e, loaded = .error e ∧ (e = .other ∨ currentSid = noSession)) :=
  ⟨readTextFrame_rejected hline hreject, inert_iff srv currentSid _⟩

/-- The line "hi" with no command names, while the store is down. -/
theorem rejected_header_inert_down :
    Inert Server.echo noSession { frame := .command 0 0, loaded := .error (.std "down") } :=
  (rejected_header_inert_iff Server.echo ∅ [104, 105, newline] [104, 105] [] rfl (by decide)
    noSession (.error (.std "down")) (fun _ => {}) (.ok ())).2.mpr ⟨_, rfl, .inr rfl⟩

/-- A server that has a handler for command 0. -/
def Server.zero : Server where
  router := Router.empty.add 0 fun ctx => .ret { payload := ctx.payload }
  botan := .unavailable

/-- The handler of command 0 is called for the line "hi". -/
theorem not_rejected_header_inert :
    ¬ ∀ (srv : Server) (names : CommandNames) (bs headerLine rest : Bytes) (currentSid : UInt64)
        (a : Arrival), nextLine bs = some (headerLine, rest) →
      parseTextHeader names headerLine = none →
      readTextFrame names (ofStream bs) = .returned a.frame (ofStream rest) →
      Inert srv currentSid a := by
  intro h
  have hinert := h Server.zero ∅ [104, 105, newline] [104, 105] [] noSession
    { frame := .command 0 0, loaded := .ok { id := 0 } } rfl (by decide) rfl
  refine hinert.untouched (.request (.handlerCalled ⟨⟨0, 0, 0, 0⟩, [], .tcp⟩
    (.start { id := 0 }))) ?_ trivial
  exact List.mem_of_getElem? (i := 4) rfl

end Servd
