import Servd.EngineCode
import Servd.Requests
import Servd.TaskReaders

/-!
The engine's coroutines, run by the frames of `TaskFrames`, are the engine. Each of them
stands at a point of its body to which one phase of its connection or UDP socket belongs;
what it does between two waits is the matching steps of `Engine.step`, on the data that all of
them share. The tasks that only read change nothing that is shared, and what they throw is a
`std::exception`; a task that sends has taken its buffer from the frame that the engine writes
when the operation has completed.
-/
namespace Servd.EngineCode

open Transition TaskFrames Coroutine

/-- No exception has come but a `std::exception`. -/
def Catchable {α : Type} (outcome : Except Exc α) : Prop := ∀ e, outcome = .error e → e.isStd = true

theorem catchable_ok {α : Type} (a : α) : Catchable (.ok a : Except Exc α) := fun _ h => by cases h

theorem Catchable.map {α β : Type} {outcome : Except Exc α} (h : Catchable outcome) (f : α → β) :
    Catchable (outcome.map f) := by
  cases outcome with
  | ok a => exact catchable_ok (f a)
  | error e =>
      intro e' he'
      cases he'
      exact h e rfl

theorem catchable_awaitResume (res : Int) : Catchable (awaitResume res) := by
  intro e h
  rw [awaitResume] at h
  split at h
  · cases h
    rfl
  · cases h

section Reading

/-- The exception that has reached this point, if one has. -/
def Sound : TaskReads.Code → Prop
  | .asyncReadExactGot _ _ _ outcome | .readFrameHeader _ outcome | .readFramePayload _ _ outcome
  | .readTextLineGot _ _ _ outcome | .readTextFrameHeader _ outcome
  | .readTextFramePayload _ _ _ outcome => Catchable outcome
  | .asyncRead _ _ | .asyncReadGot _ _ | .asyncReadExact _ _ _ | .readFrame _ | .readTextLine _ _ _
  | .readTextFrame _ => True

/-- The reading coroutines go on only to one another. -/
def SoundInstr : TaskReads.ReadInstr → Prop
  | .coReturn _ => True
  | .throw e => e.isStd = true
  | .operation _ k => ∀ c, Sound (k c)
  | .await task k => Sound task ∧ ∀ outcome, Catchable outcome → Sound (k outcome)
  | .detach _ _ => False

theorem soundInstr_onValue {outcome : Except Exc TaskReads.Value}
    {f : TaskReads.Value → TaskReads.ReadInstr} (h : Catchable outcome)
    (hf : ∀ v, SoundInstr (f v)) :
    SoundInstr (TaskReads.onValue outcome f) := by
  cases outcome with
  | ok v => exact hf v
  | error e => exact h e rfl

theorem soundInstr_readExact (fd : Fd) (totalRead : Nat) (buffer : Bytes) :
    SoundInstr (TaskReads.asyncReadExactTurn fd totalRead buffer) := by
  rw [TaskReads.asyncReadExactTurn]
  split
  · exact ⟨trivial, fun _ h => h⟩
  · trivial

theorem soundInstr {c : TaskReads.Code} (names : CommandNames) (h : Sound c) :
    SoundInstr (TaskReads.instr names c) := by
  cases c with
  | asyncRead fd size => exact fun _ => trivial
  | asyncReadGot fd c =>
      exact soundInstr_onValue ((catchable_awaitResume c.res).map _) fun _ => trivial
  | asyncReadExact fd totalRead buffer => exact soundInstr_readExact fd totalRead buffer
  | asyncReadExactGot fd totalRead buffer outcome =>
      refine soundInstr_onValue h fun v => ?_
      split
      · rfl
      · exact soundInstr_readExact _ _ _
  | readFrame fd => exact ⟨trivial, fun _ h => h⟩
  | readFrameHeader fd outcome =>
      refine soundInstr_onValue h fun v => ?_
      dsimp only
      split
      · exact ⟨trivial, fun _ h => h⟩
      · trivial
  | readFramePayload fd header outcome => exact soundInstr_onValue h fun _ => trivial
  | readTextLine fd c line => exact ⟨trivial, fun _ h => h⟩
  | readTextLineGot fd c line outcome =>
      refine soundInstr_onValue h fun v => ?_
      split
      · trivial
      · exact ⟨trivial, fun _ h => h⟩
  | readTextFrame fd => exact ⟨trivial, fun _ h => h⟩
  | readTextFrameHeader fd outcome =>
      refine soundInstr_onValue h fun v => ?_
      split
      · trivial
      · exact ⟨trivial, fun _ h => h⟩
  | readTextFramePayload fd cmd sid outcome => exact soundInstr_onValue h fun _ => trivial

/-- The tasks that only wait. -/
inductive Quiet : Code → Prop
  | read (c : TaskReads.Code) (h : Sound c) : Quiet (.read c)
  | asyncRecvmsg : Quiet .asyncRecvmsg
  | asyncRecvmsgGot (c : Completion) : Quiet (.asyncRecvmsgGot c)
  | asyncAccept : Quiet .asyncAccept
  | operationDone (res : Int) : Quiet (.operationDone res)

def QuietInstr : EngineInstr → Prop
  | .coReturn _ => True
  | .throw e => e.isStd = true
  | .operation o k => ∀ r, o.output r = [] ∧ Quiet (k r)
  | .await task k => Quiet task ∧ ∀ outcome, Catchable outcome → Quiet (k outcome)
  | .detach _ _ => False

theorem quietInstr_passOn {outcome : Outcome} (h : Catchable outcome) :
    QuietInstr (passOn outcome) := by
  cases outcome with
  | ok v => trivial
  | error e => exact h e rfl

theorem quietInstr_liftRead {instr : TaskReads.ReadInstr} (h : SoundInstr instr) :
    QuietInstr (liftRead instr) := by
  cases instr with
  | coReturn v => trivial
  | throw e => exact h
  | operation o k => exact fun r => ⟨rfl, .read _ (h r.recv)⟩
  | await task k => exact ⟨.read _ h.1, fun outcome hstd => .read _ (h.2 _ (hstd.map _))⟩
  | detach task rest => exact h.elim

theorem Quiet.next {c : Code} (h : Quiet c) (srv : Server) (kernel : Kernel) (names : CommandNames)
    (g : Shared) :
    ∃ instr, EngineCode.next srv kernel names g c = (g, instr) ∧ QuietInstr instr := by
  cases h with
  | read c h => exact ⟨_, rfl, quietInstr_liftRead (soundInstr names h)⟩
  | asyncRecvmsg => exact ⟨_, rfl, fun _ => ⟨rfl, .asyncRecvmsgGot _⟩⟩
  | asyncRecvmsgGot c =>
      exact ⟨_, rfl, quietInstr_passOn (((catchable_awaitResume c.res).map _).map _)⟩
  | asyncAccept => exact ⟨_, rfl, fun _ => ⟨rfl, .operationDone _⟩⟩
  | operationDone res => exact ⟨_, rfl, quietInstr_passOn ((catchable_awaitResume res).map _)⟩

end Reading

/-! What a task sends. -/

def Peer.output : Peer → FrameHeader → Bytes → Output
  | .client k, header, payload => .stream k.fd (encodeFrame k.mode header payload)
  | .udp j _, header, payload => .datagram j (binaryFrame header payload)

/-- The tasks behind `send_frame`, with those of them that await the one that runs; `owed` has gone
out, and the request has not been told yet. -/
inductive Sending (peer : Peer) (header : FrameHeader) (payload : Bytes) :
    List Output → Code → List (Outcome → Code) → Prop
  | sendFrame : Sending peer header payload [] (.sendFrame peer header payload) []
  | send : Sending peer header payload [] (peer.send header payload) [.sent]
  | done (res : Int) : Sending peer header payload
      (wentOut (peer.output header payload) (awaitResume res)) (.operationDone res) [.sent]
  | sent (outcome : Outcome) (hstd : Catchable outcome) : Sending peer header payload
      (wentOut (peer.output header payload) outcome) (.sent outcome) []

/-- The operation sends this frame. -/
def Sends (o : Op) (header : FrameHeader) (payload : Bytes) : Prop :=
  ∀ t outcome, (answerOp t (sentAnswer header outcome) o).2.2 =
    sentEvents header payload (sentAnswer header outcome).sent

section Sending

variable {peer : Peer}

/-- A pushed event goes out with whatever header is found. -/
theorem sends_pushEvent {o : Op} {payload : Bytes} (h : kind o = .pushEvent payload)
    (header : FrameHeader) : Sends o header payload := by
  intro t outcome
  cases o with
  | user u =>
      cases u with
      | pushEvent cmd data =>
          cases h
          rcases outcome with (what | _) | v <;> rfl
      | session | setAuthenticated _ _ | setAesKey _ | getLocal _ | setLocal _ _ | await => cases h
  | sendFrame _ _ | generatePrivate | genIv | enterAuthenticator _ | enterHandler _ => cases h

theorem sends_sendFrame {o : Op} {header : FrameHeader} {payload : Bytes}
    (h : kind o = .sendFrame header payload) : Sends o header payload := by
  intro t outcome
  cases o with
  | user u => cases u <;> cases h
  | sendFrame _ _ =>
      cases h
      rfl
  | generatePrivate | genIv | enterAuthenticator _ | enterHandler _ => cases h

theorem wentOut_map {α β : Type} (out : Output) (outcome : Except Exc α) (f : α → β) :
    wentOut out (outcome.map f) = wentOut out outcome := by
  cases outcome <;> rfl

theorem outputs_append (evs evs' : List Event) :
    outputs (evs ++ evs') = outputs evs ++ outputs evs' :=
  List.filterMap_append

theorem outputs_sentEvents (header : FrameHeader) (payload : Bytes) (outcome : Outcome) :
    outputs ((sentEvents header payload (sentAnswer header outcome).sent).flatMap peer.events) =
      wentOut (peer.output header payload) outcome := by
  cases peer with
  | client k => rcases outcome with (what | _) | v <;> rfl
  | udp j buffer => rcases outcome with (what | _) | v <;> rfl

/-- The others send nothing. -/
theorem outputs_answered {o : Op} (h : kind o = .plain ∨ kind o = .random ∨ kind o = .application)
    (t : RequestState) (a : Answer) : outputs ((answerOp t a o).2.2.flatMap peer.events) = [] := by
  cases o with
  | user u =>
      cases u with
      | pushEvent cmd data => simp [kind] at h
      | session | setAuthenticated _ _ | setAesKey _ | getLocal _ | setLocal _ _ | await => rfl
  | sendFrame header payload => simp [kind] at h
  | generatePrivate | genIv => rfl
  | enterAuthenticator ctx | enterHandler ctx => cases peer <;> rfl

theorem send_next (srv : Server) (kernel : Kernel) (names : CommandNames) (g : Shared)
    (header : FrameHeader) (payload : Bytes) :
    next srv kernel names g (peer.send header payload) = (g,
      .operation (.send (peer.output header payload)) fun r => .operationDone r.res) := by
  cases peer <;> rfl

end Sending

/-! Where the coroutines stand. -/

/-- The worker of the peer is in a phase, with what the peer's coroutine keeps. -/
def Peer.At (e : Engine) (phase : Phase) : Peer → Prop
  | .client k => ∃ c, e.conns[k.i]? = some c ∧ c.fd = k.fd ∧ c.mode = k.mode ∧
      c.currentSid = k.currentSid ∧ c.phase = phase
  | .udp j _ => e.udpLoops[j]? = some phase

/-- The point of the coroutine that serves the peer, or of what it awaits, in a phase; what has gone
out for the request, and it has not been told of. -/
inductive Point : Peer → Phase → List Output → Code → List (Outcome → Code) → Prop
  | frameGot (peer : Peer) (outcome : Outcome) (hstd : Catchable outcome) :
      Point peer .reading [] (.frameGot peer outcome) []
  | getOrCreate (peer : Peer) (frame : ClientFrame) : Point peer (.loading frame) []
      (.getOrCreate frame.header.sessionId) [.sessionGot peer frame]
  | processCommand (peer : Peer) (req : Request) :
      Point peer (.processing req) [] (.processCommand peer req) [.commandDone peer]
  | operationGot (peer : Peer) (req : Request) (a : Answer) (o : Op) (k : o.Ans → Task Unit)
      (htask : req.task = .call o k) (owed : List Output)
      (howed : outputs ((answerOp req.state a o).2.2.flatMap peer.events) = owed) :
      Point peer (.processing req) owed (.operationGot peer req a) [.commandDone peer]
  | commandReturned (peer : Peer) (req : Request) (htask : req.task = .ret ()) :
      Point peer (.processing req) [] (.commandDone peer (.ok { request := some req })) []
  | commandThrew (peer : Peer) (req : Request) (ex : Exc) (htask : req.task = .throw ex) :
      Point peer (.processing req) [] (.commandDone peer (.error ex)) []
  | save (peer : Peer) (req : Request) (htask : req.task = .ret ()) :
      Point peer (.processing req) [] (.save peer req) [.saved peer]
  | saved (peer : Peer) (v : Value) : Point peer .reading [] (.saved peer (.ok v)) []
  | callbackDone (k : Client) (result : Except Exc Unit) :
      Point (.client k) .notifying [] (.callbackDone k result) []

/-- The coroutine `c`, awaited by the coroutines behind `callers`, serves the workers `ws`. -/
inductive Stands (e : Engine) :
    List Worker → List Output → Code → List (Outcome → Code) → Prop
  | init (accepting : List ProtocolMode) (udpLoops : List Nat)
      (hreading : ∀ j ∈ udpLoops, e.udpLoops[j]? = some .reading) :
      Stands e (udpLoops.map .udp) [] (.init accepting udpLoops) []
  | startAcceptLoop (mode : ProtocolMode) : Stands e [] [] (.startAcceptLoop mode) []
  | acceptGot (mode : ProtocolMode) (outcome : Outcome) (hstd : Catchable outcome) :
      Stands e [] [] (.acceptGot mode outcome) []
  | startUdpLoop (j : Nat) (hreading : e.udpLoops[j]? = some .reading) :
      Stands e [.udp j] [] (.startUdpLoop j) []
  | serves (peer : Peer) (phase : Phase) (hat : peer.At e phase) {owed : List Output} {c : Code}
      {callers : List (Outcome → Code)} (hpoint : Point peer phase owed c callers) :
      Stands e [peer.worker] owed c callers
  | sends (peer : Peer) (req : Request) (hat : peer.At e (.processing req)) (o : Op)
      (k : o.Ans → Task Unit) (htask : req.task = .call o k) (header : FrameHeader)
      (payload : Bytes) (hsends : Sends o header payload) {owed : List Output} {c : Code}
      {inner : List (Outcome → Code)} (hsending : Sending peer header payload owed c inner) :
      Stands e [peer.worker] owed c (inner ++ [fun outcome =>
        .operationGot peer req (sentAnswer header outcome), .commandDone peer])
  | quiet (ws : List Worker) (c : Code) (inner : List (Outcome → Code)) (k : Outcome → Code)
      (callers : List (Outcome → Code)) (hquiet : Quiet c)
      (hinner : ∀ f ∈ inner, ∀ outcome, Catchable outcome → Quiet (f outcome))
      (hcaller : ∀ outcome, Catchable outcome → Stands e ws [] (k outcome) callers) :
      Stands e ws [] c (inner ++ k :: callers)

/-- Only the phases of these workers may have changed. -/
structure Changes (ws : List Worker) (e e' : Engine) : Prop where
  conns : ∀ i c, .conn i ∉ ws → e.conns[i]? = some c → e'.conns[i]? = some c
  udpLoops : ∀ j p, .udp j ∉ ws → e.udpLoops[j]? = some p → e'.udpLoops[j]? = some p

/-- The worker is there. -/
def Valid (e : Engine) : Worker → Prop
  | .conn i => i < e.conns.length
  | .udp j => j < e.udpLoops.length

section Standing

variable {e e' : Engine} {ws ws' : List Worker} {owed : List Output} {c : Code}
  {callers : List (Outcome → Code)} {peer : Peer} {phase : Phase}

theorem Peer.At.valid (h : peer.At e phase) : Valid e peer.worker := by
  cases peer with
  | client k =>
      obtain ⟨c, hc, -⟩ := h
      exact (List.getElem?_eq_some_iff.mp hc).1
  | udp j buffer => exact (List.getElem?_eq_some_iff.mp h).1

theorem Peer.At.of_changes (h : peer.At e phase) (hchanges : Changes ws e e')
    (hnot : peer.worker ∉ ws) : peer.At e' phase := by
  cases peer with
  | client k =>
      obtain ⟨c, hc, hrest⟩ := h
      exact ⟨c, hchanges.conns k.i c hnot hc, hrest⟩
  | udp j buffer => exact hchanges.udpLoops j phase hnot h

theorem Stands.valid (h : Stands e ws owed c callers) : ∀ w ∈ ws, Valid e w := by
  induction h with
  | init accepting udpLoops hreading =>
      intro w hw
      obtain ⟨j, hj, rfl⟩ := List.mem_map.mp hw
      exact (List.getElem?_eq_some_iff.mp (hreading j hj)).1
  | startAcceptLoop _ | acceptGot _ _ _ => simp
  | startUdpLoop j hreading =>
      intro w hw
      cases List.mem_singleton.mp hw
      exact (List.getElem?_eq_some_iff.mp hreading).1
  | serves peer phase hat _ | sends peer _ hat _ _ _ _ _ _ _ =>
      intro w hw
      cases List.mem_singleton.mp hw
      exact hat.valid
  | quiet ws c inner k callers _ _ _ ih => exact ih (.ok {}) (catchable_ok _)

theorem Stands.of_changes (h : Stands e ws owed c callers) (hchanges : Changes ws' e e')
    (hdisjoint : ∀ w ∈ ws, w ∉ ws') : Stands e' ws owed c callers := by
  induction h with
  | init accepting udpLoops hreading =>
      exact .init accepting udpLoops fun j hj => hchanges.udpLoops j _
        (hdisjoint _ (List.mem_map_of_mem hj)) (hreading j hj)
  | startAcceptLoop mode => exact .startAcceptLoop mode
  | acceptGot mode outcome hstd => exact .acceptGot mode outcome hstd
  | startUdpLoop j hreading =>
      exact .startUdpLoop j (hchanges.udpLoops j _ (hdisjoint _ List.mem_cons_self) hreading)
  | serves peer phase hat hpoint =>
      exact .serves peer phase (hat.of_changes hchanges (hdisjoint _ List.mem_cons_self)) hpoint
  | sends peer req hat o k htask header payload hsends hsending =>
      exact .sends peer req (hat.of_changes hchanges (hdisjoint _ List.mem_cons_self)) o k htask
        header payload hsends hsending
  | quiet ws c inner k callers hquiet hinner _ ih =>
      exact .quiet ws c inner k callers hquiet hinner fun outcome hstd => ih outcome hstd hdisjoint

end Standing

/-! What the engine does meanwhile. -/

def descriptorsOf (e : Engine) : List (Fd × Bool) := e.conns.map fun c => (c.fd, c.closes == 0)

/-- What is shared is the engine's, but perhaps for the session store. -/
structure Agrees (g : Shared) (e : Engine) : Prop where
  sessions : g.sessions = e.sessions
  activeConnections : g.activeConnections = e.activeConnections
  discovery : g.discovery = e.discovery
  discoveryEnabled : g.discoveryEnabled = e.discoveryEnabled
  descriptors : g.descriptors = descriptorsOf e

structure Settled (g : Shared) (e : Engine) : Prop extends Agrees g e where
  store : g.store = e.store

/-- A step that moves the worker of the peer to a phase and does nothing else. -/
structure Moves (e e' : Engine) (peer : Peer) (phase : Phase) : Prop where
  hat : peer.At e' phase
  changes : Changes [peer.worker] e e'
  agrees : ∀ {g : Shared}, Agrees g e → Agrees g e'
  store : e'.store = e.store

theorem Moves.settled {e e' : Engine} {peer : Peer} {phase : Phase} {g : Shared}
    (h : Moves e e' peer phase) (hg : Settled g e) : Settled g e' :=
  ⟨h.agrees hg.toAgrees, hg.store.trans h.store.symm⟩

section Steps

variable {e : Engine} {k : Client} {c : Conn} {j : Nat} {buffer : Bytes}

theorem descriptorsOf_set {e' : Engine} {c' : Conn} (hconns : e'.conns = e.conns.set k.i c')
    (hc : e.conns[k.i]? = some c) (hfd : c'.fd = c.fd) (hcloses : c'.closes = c.closes) :
    descriptorsOf e = descriptorsOf e' := by
  obtain ⟨hi, hget⟩ := List.getElem?_eq_some_iff.mp hc
  have hsame : (c'.fd, c'.closes == 0) = (c.fd, c.closes == 0) := by rw [hfd, hcloses]
  rw [descriptorsOf, descriptorsOf, hconns, List.map_set, hsame, ← hget]
  refine List.ext_getElem? fun n => ?_
  rw [List.getElem?_set]
  split
  · rename_i heq
    subst heq
    simp [hi]
  · rfl

theorem changes_set (e : Engine) (i : Nat) (c : Conn) (e' : Engine)
    (hconns : e'.conns = e.conns.set i c) (hudp : e'.udpLoops = e.udpLoops) :
    Changes [.conn i] e e' where
  conns := by
    intro i' c' hnot hc'
    have hne : i ≠ i' := fun heq => hnot (heq ▸ List.mem_singleton_self _)
    rw [hconns, List.getElem?_set_ne hne, hc']
  udpLoops := by
    intro j p _ hp
    rw [hudp, hp]

theorem changes_setUdp (e : Engine) (j : Nat) (p : Phase) (e' : Engine)
    (hconns : e'.conns = e.conns) (hudp : e'.udpLoops = e.udpLoops.set j p) :
    Changes [.udp j] e e' where
  conns := by
    intro i c _ hc
    rw [hconns, hc]
  udpLoops := by
    intro j' p' hnot hp'
    have hne : j ≠ j' := fun heq => hnot (heq ▸ List.mem_singleton_self _)
    rw [hudp, List.getElem?_set_ne hne, hp']

/-- A phase of its own for the connection. -/
theorem moves_conn (hc : e.conns[k.i]? = some c) (hfd : c.fd = k.fd) (hmode : c.mode = k.mode)
    (hsid : c.currentSid = k.currentSid) (phase : Phase) :
    Moves e (e.setConn k.i { c with phase := phase }) (.client k) phase where
  hat := ⟨_, List.getElem?_set_self (List.getElem?_eq_some_iff.mp hc).1, hfd, hmode, hsid, rfl⟩
  changes := changes_set e k.i _ _ rfl rfl
  agrees := fun h => ⟨h.sessions, h.activeConnections, h.discovery, h.discoveryEnabled,
    h.descriptors.trans (descriptorsOf_set rfl hc rfl rfl)⟩
  store := rfl

theorem moves_udp {p : Phase} (hp : e.udpLoops[j]? = some p) (phase : Phase) :
    Moves e { e with udpLoops := e.udpLoops.set j phase } (.udp j buffer) phase where
  hat := List.getElem?_set_self (List.getElem?_eq_some_iff.mp hp).1
  changes := changes_setUdp e j phase _ rfl rfl
  agrees := fun h => ⟨h.sessions, h.activeConnections, h.discovery, h.discoveryEnabled,
    h.descriptors⟩
  store := rfl

variable (srv : Server) {peer : Peer}

theorem step_frame (hat : peer.At e .reading) (f : ClientFrame) :
    ∃ e', e.step srv (.work peer.worker (.frame f)) = some (e', []) ∧
      Moves e e' peer (.loading f) := by
  cases peer with
  | client k =>
      obtain ⟨c, hc, hfd, hmode, hsid, hphase⟩ := hat
      refine ⟨_, ?_, moves_conn hc hfd hmode hsid (.loading f)⟩
      simp [Engine.step, Peer.worker, hc, Engine.connStep, hphase]
  | udp j buffer =>
      refine ⟨_, ?_, moves_udp hat (.loading f)⟩
      simp only [Peer.At] at hat
      simp [Engine.step, Peer.worker, hat, Engine.udpStep]

theorem step_progress {req req' : Request} {a : Answer} {es : List RequestEvent}
    (hat : peer.At e (.processing req)) (ha : req.advance a = some (req', es)) :
    ∃ e', e.step srv (.work peer.worker (.progress a)) = some (e', es.flatMap peer.events) ∧
      Moves e e' peer (.processing req') := by
  cases peer with
  | client k =>
      obtain ⟨c, hc, hfd, hmode, hsid, hphase⟩ := hat
      refine ⟨_, ?_, moves_conn hc hfd hmode hsid (.processing req')⟩
      have hevents : Engine.streamEvents k.i c = Engine.streamEvents k.i k.conn := by
        funext ev
        cases ev <;> simp [Engine.streamEvents, Client.conn, hfd, hmode]
      simp [Engine.step, Peer.worker, hc, Engine.connStep, hphase, ha, hevents, Peer.events]
  | udp j buffer =>
      refine ⟨_, ?_, moves_udp hat (.processing req')⟩
      simp only [Peer.At] at hat
      simp [Engine.step, Peer.worker, hat, Engine.udpStep, ha, Peer.events]

theorem selectSession_conn (hfd : c.fd = k.fd) (hsid : c.currentSid = k.currentSid)
    (sessions : UnorderedMap UInt64 Fd) (sid : UInt64) :
    Engine.selectSession sessions c sid = Engine.selectSession sessions k.conn sid := by
  rw [Engine.selectSession, Engine.selectSession, hfd, hsid]
  rfl

theorem step_load_client {f : ClientFrame} (hat : (Peer.client k).At e (.loading f)) :
    ∃ e', e.step srv (.work (.conn k.i) .load) = some (e', []) ∧
      (Peer.client { k with currentSid := f.header.sessionId }).At e' (.processing
        (.start srv f .tcp (e.store.getOrCreate f.header.sessionId).1)) ∧
      Changes [.conn k.i] e e' ∧ e'.store = (e.store.getOrCreate f.header.sessionId).2 ∧
      ∀ {g : Shared}, Agrees g e → Agrees { g with
        sessions := Engine.selectSession g.sessions k.conn f.header.sessionId } e' := by
  obtain ⟨c, hc, hfd, hmode, hsid, hphase⟩ := hat
  have hi := (List.getElem?_eq_some_iff.mp hc).1
  refine ⟨{ e with
      store := (e.store.getOrCreate f.header.sessionId).2
      sessions := Engine.selectSession e.sessions c f.header.sessionId
      conns := e.conns.set k.i { c with
        currentSid := f.header.sessionId
        latest := some f.header.sessionId
        phase := .processing (.start srv f .tcp (e.store.getOrCreate f.header.sessionId).1) } },
    ?_, ⟨_, List.getElem?_set_self hi, hfd, hmode, rfl, rfl⟩, changes_set e k.i _ _ rfl rfl, rfl,
    fun h => ⟨?_, h.activeConnections, h.discovery, h.discoveryEnabled, ?_⟩⟩
  · simp [Engine.step, hc, Engine.connStep, hphase]
  · rw [selectSession_conn hfd hsid, h.sessions]
  · exact h.descriptors.trans (descriptorsOf_set rfl hc rfl rfl)

theorem step_load_udp {f : ClientFrame} (hat : (Peer.udp j buffer).At e (.loading f)) :
    ∃ e', e.step srv (.work (.udp j) .load) = some (e', []) ∧
      (Peer.udp j buffer).At e' (.processing
        (.start srv f .udp (e.store.getOrCreate f.header.sessionId).1)) ∧
      Changes [.udp j] e e' ∧ e'.store = (e.store.getOrCreate f.header.sessionId).2 ∧
      ∀ {g : Shared}, Agrees g e → Agrees g e' := by
  simp only [Peer.At] at hat
  have hj := (List.getElem?_eq_some_iff.mp hat).1
  refine ⟨{ e with
      store := (e.store.getOrCreate f.header.sessionId).2
      udpLoops := e.udpLoops.set j (.processing
        (.start srv f .udp (e.store.getOrCreate f.header.sessionId).1)) },
    ?_, List.getElem?_set_self hj, changes_setUdp e j _ _ rfl rfl, rfl,
    fun h => ⟨h.sessions, h.activeConnections, h.discovery, h.discoveryEnabled, h.descriptors⟩⟩
  simp [Engine.step, hat, Engine.udpStep]

theorem step_save {req : Request} (hat : peer.At e (.processing req))
    (htask : req.task = .ret ()) :
    ∃ e', e.step srv (.work peer.worker .save) = some (e', [.saved peer.worker req]) ∧
      peer.At e' .reading ∧ Changes [peer.worker] e e' ∧
      e'.store = e.store.save req.state.session ∧ ∀ {g : Shared}, Agrees g e → Agrees g e' := by
  cases peer with
  | client k =>
      obtain ⟨c, hc, hfd, hmode, hsid, hphase⟩ := hat
      have hi := (List.getElem?_eq_some_iff.mp hc).1
      refine ⟨{ e with
          store := e.store.save req.state.session
          conns := e.conns.set k.i { c with phase := .reading } },
        ?_, ⟨_, List.getElem?_set_self hi, hfd, hmode, hsid, rfl⟩, changes_set e k.i _ _ rfl rfl,
        rfl, fun h => ⟨h.sessions, h.activeConnections, h.discovery, h.discoveryEnabled,
          h.descriptors.trans (descriptorsOf_set rfl hc rfl rfl)⟩⟩
      simp [Engine.step, Peer.worker, hc, Engine.connStep, hphase, htask]
  | udp j buffer =>
      simp only [Peer.At] at hat
      have hj := (List.getElem?_eq_some_iff.mp hat).1
      refine ⟨{ e with
          store := e.store.save req.state.session
          udpLoops := e.udpLoops.set j .reading },
        ?_, List.getElem?_set_self hj, changes_setUdp e j _ _ rfl rfl, rfl,
        fun h => ⟨h.sessions, h.activeConnections, h.discovery, h.discoveryEnabled,
          h.descriptors⟩⟩
      simp [Engine.step, Peer.worker, hat, Engine.udpStep, htask]

/-- The end of a connection, as the engine has it and as the coroutine does it. -/
theorem finish_client {g : Shared} (hg : Settled g e) (hfd : c.fd = k.fd) :
    Settled (closeClient srv g k).1 (Engine.finish srv e k.i c) ∧
      (closeClient srv g k).1.log = g.log ++ [.closed k.fd] ∧
      Changes [.conn k.i] e (Engine.finish srv e k.i c) := by
  refine ⟨⟨⟨hg.sessions, ?_, ?_, ?_, ?_⟩, hg.store⟩, rfl, changes_set e k.i _ _ rfl rfl⟩
  · simp only [closeClient, Engine.finish, hg.activeConnections]
  · simp only [closeClient, Engine.finish, hg.activeConnections, hg.discovery]
  · simp only [closeClient, Engine.finish, hg.activeConnections, hg.discovery,
      hg.discoveryEnabled]
  · simp [closeClient, Engine.finish, hg.descriptors, descriptorsOf, List.map_set, hfd]

end Steps

/-- The steps of the engine that a coroutine's turn stands for. -/
def Leads (srv : Server) (e : Engine) (evs : List Event) (e' : Engine) : Prop :=
  ∃ tr, Trace (Engine.step srv) e tr e' ∧ eventsOf tr = evs

section Leads

variable {srv : Server} {e e' e'' : Engine} {evs evs' : List Event}

theorem Leads.refl (srv : Server) (e : Engine) : Leads srv e [] e := ⟨[], .nil, rfl⟩

theorem Leads.single {a : Servd.Label} (h : e.step srv a = some (e', evs)) : Leads srv e evs e' :=
  ⟨[⟨e, a, evs, e'⟩], Trace.snoc .nil h, by simp [eventsOf]⟩

theorem Leads.trans (h : Leads srv e evs e') (h' : Leads srv e' evs' e'') :
    Leads srv e (evs ++ evs') e'' := by
  obtain ⟨tr, htr, rfl⟩ := h
  obtain ⟨tr', htr', rfl⟩ := h'
  exact ⟨tr ++ tr', htr.append htr', by simp [eventsOf]⟩

theorem Changes.refl (ws : List Worker) (e : Engine) : Changes ws e e :=
  ⟨fun _ _ _ h => h, fun _ _ _ h => h⟩

theorem Changes.trans {ws : List Worker} (h : Changes ws e e') (h' : Changes ws e' e'') :
    Changes ws e e'' :=
  ⟨fun i c hnot hc => h'.conns i c hnot (h.conns i c hnot hc),
    fun j p hnot hp => h'.udpLoops j p hnot (h.udpLoops j p hnot hp)⟩

end Leads

def Full (srv : Server) (e : Engine) : Prop :=
  0 < srv.maxClients ∧ srv.maxClients ≤ e.activeConnections

/-- The coroutine that runs; between two of its turns a session may have been loaded that the
connection has not taken over, or a connection accepted that has not begun. -/
inductive Top (srv : Server) (g : Shared) (e : Engine) :
    List Worker → List Output → Code → List (Outcome → Code) → Prop
  | stands (hsettled : Settled g e) {ws : List Worker} {owed : List Output} {c : Code}
      {callers : List (Outcome → Code)} (h : Stands e ws owed c callers) :
      Top srv g e ws owed c callers
  | accepted (hsettled : Settled g e) (fd : Fd) (mode : ProtocolMode) (hroom : ¬ Full srv e)
      (hfd : ¬ e.descriptorOpen fd) : Top srv g e [] [] (.handleClient fd mode) []
  | loaded (hagrees : Agrees g e) (peer : Peer) (frame : ClientFrame)
      (hat : peer.At e (.loading frame))
      (hstore : g.store = (e.store.getOrCreate frame.header.sessionId).2) :
      Top srv g e [peer.worker] []
        (.sessionGot peer frame (.ok { session := (e.store.getOrCreate frame.header.sessionId).1 }))
        []

/-- A coroutine ends: its caller goes on, or nobody. -/
def Ends (srv : Server) (g : Shared) (e : Engine) (ws : List Worker) (owed : List Output)
    (outcome : Outcome) : List (Outcome → Code) → Prop
  | [] => Settled g e ∧ owed = []
  | k :: callers => Top srv g e ws owed (k outcome) callers

/-- Where a coroutine comes to after its turn. -/
def Follows (srv : Server) (g : Shared) (e : Engine) (ws : List Worker) (owed : List Output)
    (callers : List (Outcome → Code)) : EngineInstr → Prop
  | .coReturn v => Ends srv g e ws owed (.ok v) callers
  | .throw ex => Ends srv g e ws owed (.error ex) callers
  | .operation o k => (Settled g e ∧ owed = []) ∧ ∀ r, Stands e ws (o.output r) (k r) callers
  | .await task k => Top srv g e ws owed task (k :: callers)
  | .detach task rest => ∃ ws₁ ws₂, ws = ws₁ ++ ws₂ ∧ Top srv g e ws₁ owed task [] ∧
      Stands e ws₂ [] rest callers

/-- A turn of a coroutine is some steps of the engine, of the coroutine's own workers; a connection
that begins is a new worker. What was owed is in the steps or still is. -/
def Turn (srv : Server) (g : Shared) (e : Engine) (ws : List Worker) (owed : List Output)
    (callers : List (Outcome → Code)) (r : Shared × EngineInstr) : Prop :=
  ∃ evs e' ws' owed', Leads srv e evs e' ∧ r.1.log = g.log ++ evs ∧ outputs evs ++ owed' = owed ∧
    Changes ws e e' ∧ (ws' = ws ∨ ws = [] ∧ ws' = [.conn e.conns.length]) ∧
    Follows srv r.1 e' ws' owed' callers r.2

section Turns

variable {srv : Server} {g : Shared} {e : Engine} {ws : List Worker}
  {callers : List (Outcome → Code)} {peer : Peer}

/-- A turn in which the engine does nothing. -/
theorem turn_quiet {owed : List Output} {instr : EngineInstr}
    (h : Follows srv g e ws owed callers instr) : Turn srv g e ws owed callers (g, instr) :=
  ⟨[], e, ws, owed, .refl srv e, (List.append_nil _).symm, rfl, .refl ws e, .inl rfl, h⟩

theorem follows_loop (hsettled : Settled g e) (hat : peer.At e .reading) :
    Follows srv g e [peer.worker] [] [] peer.loop := by
  have hgot : ∀ outcome, Catchable outcome →
      Stands e [peer.worker] [] (.frameGot peer outcome) [] :=
    fun outcome hstd => .serves peer .reading hat (.frameGot peer outcome hstd)
  cases peer with
  | client k =>
      refine .stands hsettled (.quiet _ _ [] _ [] (.read _ ?_) (by simp) hgot)
      cases k.mode <;> trivial
  | udp j buffer => exact .stands hsettled (.quiet _ _ [] _ [] .asyncRecvmsg (by simp) hgot)

theorem turn_stands_quiet {c : Code} {inner : List (Outcome → Code)} {k : Outcome → Code}
    (kernel : Kernel) (names : CommandNames) (hsettled : Settled g e) (hquiet : Quiet c)
    (hinner : ∀ f ∈ inner, ∀ outcome, Catchable outcome → Quiet (f outcome))
    (hcaller : ∀ outcome, Catchable outcome → Stands e ws [] (k outcome) callers) :
    Turn srv g e ws [] (inner ++ k :: callers) (next srv kernel names g c) := by
  obtain ⟨instr, hnext, hinstr⟩ := hquiet.next srv kernel names g
  rw [hnext]
  have hends : ∀ outcome, Catchable outcome →
      Ends srv g e ws [] outcome (inner ++ k :: callers) := by
    intro outcome hstd
    cases inner with
    | nil => exact .stands hsettled (hcaller outcome hstd)
    | cons f inner =>
        exact .stands hsettled (.quiet _ _ inner k callers (hinner f List.mem_cons_self _ hstd)
          (fun f' hf' => hinner f' (List.mem_cons_of_mem _ hf')) hcaller)
  refine turn_quiet ?_
  cases instr with
  | coReturn v => exact hends _ (catchable_ok v)
  | throw ex =>
      refine hends _ fun ex' hex' => ?_
      cases hex'
      exact hinstr
  | operation o f =>
      refine ⟨⟨hsettled, rfl⟩, fun r => ?_⟩
      rw [(hinstr r).1]
      exact .quiet _ _ inner k callers (hinstr r).2 hinner hcaller
  | await task f =>
      refine .stands hsettled (.quiet _ _ (f :: inner) k callers hinstr.1 ?_ hcaller)
      intro f' hf' outcome hstd
      rcases List.mem_cons.mp hf' with rfl | hf'
      · exact hinstr.2 outcome hstd
      · exact hinner f' hf' outcome hstd
  | detach task rest => exact hinstr.elim

/-- The tasks behind `send_frame`. -/
theorem turn_sends (kernel : Kernel) (names : CommandNames) (hsettled : Settled g e)
    {req : Request} (hat : peer.At e (.processing req)) {o : Op} {k : o.Ans → Task Unit}
    (htask : req.task = .call o k) {header : FrameHeader} {payload : Bytes}
    (hsends : Sends o header payload) {owed : List Output} {c : Code}
    {inner : List (Outcome → Code)} (hsending : Sending peer header payload owed c inner) :
    Turn srv g e [peer.worker] owed (inner ++ [fun outcome =>
      .operationGot peer req (sentAnswer header outcome), .commandDone peer])
      (next srv kernel names g c) := by
  cases hsending with
  | sendFrame =>
      exact turn_quiet (.stands hsettled (.sends peer req hat o k htask header payload hsends
        .send))
  | send =>
      rw [send_next]
      exact turn_quiet ⟨⟨hsettled, rfl⟩, fun r =>
        .sends peer req hat o k htask header payload hsends (.done r.res)⟩
  | done res =>
      have hstd := (catchable_awaitResume res).map fun res => ({ res := res } : Value)
      have hsent : Sending peer header payload (wentOut (peer.output header payload) _)
          (.sent _) [] := .sent _ hstd
      rw [wentOut_map] at hsent
      rw [next]
      cases hres : awaitResume res with
      | ok res' =>
          rw [hres] at hsent
          exact turn_quiet (.stands hsettled (.sends peer req hat o k htask header payload hsends
            hsent))
      | error ex =>
          rw [hres] at hsent
          exact turn_quiet (.stands hsettled (.sends peer req hat o k htask header payload hsends
            hsent))
  | sent outcome hstd =>
      have howed : outputs ((answerOp req.state (sentAnswer header outcome) o).2.2.flatMap
          peer.events) = wentOut (peer.output header payload) outcome := by
        rw [hsends, outputs_sentEvents]
      rw [next]
      cases outcome with
      | ok v =>
          exact turn_quiet (.stands hsettled (.serves peer _ hat
            (.operationGot peer req _ o k htask _ howed)))
      | error ex =>
          exact turn_quiet (.stands hsettled (.serves peer _ hat
            (.operationGot peer req _ o k htask _ howed)))

theorem notifies_conn {k : Client} {c : Conn} (hmode : c.mode = k.mode)
    (hsid : c.currentSid = k.currentSid) : Engine.notifies srv c ↔ Engine.notifies srv k.conn := by
  simp only [Engine.notifies, Client.conn, hmode, hsid]

theorem leaveSession_conn {k : Client} {c : Conn} (hsid : c.currentSid = k.currentSid)
    (sessions : UnorderedMap UInt64 Fd) :
    Engine.leaveSession sessions c = Engine.leaveSession sessions k.conn := by
  rw [Engine.leaveSession, Engine.leaveSession, hsid]
  rfl

/-- The loop of a connection is left with an exception. -/
theorem turn_leave {k : Client} {phase : Phase} {ex : Exc} (hsettled : Settled g e)
    (hat : (Peer.client k).At e phase) (hfail : Engine.canFail phase ex = true)
    (hstd : ex.isStd = true) : Turn srv g e [.conn k.i] [] [] (leaveLoop srv g k) := by
  obtain ⟨c, hc, hfd, hmode, hsid, rfl⟩ := hat
  have hstep : e.step srv (.work (.conn k.i) (.fail ex)) =
      some (Engine.teardown srv e k.i c) := by
    simp [Engine.step, hc, Engine.connStep, hfail, hstd]
  have hleft : Settled { g with sessions := Engine.leaveSession g.sessions k.conn }
      { e with sessions := Engine.leaveSession e.sessions c } :=
    ⟨⟨by rw [leaveSession_conn hsid, hsettled.sessions], hsettled.activeConnections,
      hsettled.discovery, hsettled.discoveryEnabled, hsettled.descriptors⟩, hsettled.store⟩
  by_cases hnotifies : Engine.notifies srv c
  · have hnotifies' := (notifies_conn hmode hsid).mp hnotifies
    by_cases hpool : srv.threadPool
    · rw [Engine.teardown, if_pos hnotifies, if_pos hpool] at hstep
      rw [leaveLoop, if_pos hnotifies', if_pos hpool]
      have hmoves := moves_conn (e := { e with sessions := Engine.leaveSession e.sessions c })
        hc hfd hmode hsid .notifying
      exact ⟨[], _, _, [], .single hstep, (List.append_nil _).symm, rfl,
        changes_set e k.i _ _ rfl rfl, .inl rfl, ⟨hmoves.settled hleft, rfl⟩,
        fun r => .serves (.client k) .notifying hmoves.hat (.callbackDone k r.notified)⟩
    · rw [Engine.teardown, if_pos hnotifies, if_neg hpool] at hstep
      rw [leaveLoop, if_pos hnotifies', if_neg hpool]
      have hmoves := moves_conn (e := { e with sessions := Engine.leaveSession e.sessions c })
        hc hfd hmode hsid .ended
      exact ⟨[], _, _, [], .single hstep, (List.append_nil _).symm, rfl,
        changes_set e k.i _ _ rfl rfl, .inl rfl, hmoves.settled hleft, rfl⟩
  · rw [Engine.teardown, if_neg hnotifies] at hstep
    rw [leaveLoop, if_neg fun h => hnotifies ((notifies_conn hmode hsid).mpr h)]
    obtain ⟨hfinished, hlog, hchanges⟩ := finish_client srv (k := k) hleft hfd
    rw [hfd] at hstep
    exact ⟨[.closed k.fd], _, _, [], .single hstep, hlog, rfl, changes_set e k.i _ _ rfl rfl,
      .inl rfl, hfinished, rfl⟩

/-- An exception leaves the body of a loop. -/
theorem turn_caught {phase : Phase} {ex : Exc} (hsettled : Settled g e) (hat : peer.At e phase)
    (hfail : Engine.canFail phase ex = true) :
    Turn srv g e [peer.worker] [] [] (caught srv g peer ex) := by
  cases peer with
  | client k =>
      change Turn srv g e _ [] [] (if ex.isStd then leaveLoop srv g k else (g, .throw ex))
      split
      · rename_i hstd
        exact turn_leave hsettled hat hfail hstd
      · rename_i hstd
        obtain ⟨c, hc, hfd, hmode, hsid, rfl⟩ := hat
        have hmoves := moves_conn hc hfd hmode hsid .ended
        have hstep : e.step srv (.work (.conn k.i) (.fail ex)) =
            some (e.setConn k.i { c with phase := .ended }, []) := by
          simp [Engine.step, hc, Engine.connStep, hfail, hstd]
        exact ⟨[], _, _, [], .single hstep, (List.append_nil _).symm, rfl, hmoves.changes, .inl rfl,
          hmoves.settled hsettled, rfl⟩
  | udp j buffer =>
      have hmoves : ∀ phase', Moves e { e with udpLoops := e.udpLoops.set j phase' }
          (.udp j buffer) phase' := moves_udp hat
      have hstep : e.step srv (.work (.udp j) (.fail ex)) = some ({ e with
          udpLoops := e.udpLoops.set j (if ex.isStd then .reading else .ended) }, []) := by
        simp only [Peer.At] at hat
        simp [Engine.step, hat, Engine.udpStep, hfail]
      change Turn srv g e _ [] [] (if ex.isStd then (g, Peer.loop _) else (g, .throw ex))
      split
      · rename_i hstd
        rw [if_pos hstd] at hstep
        exact ⟨[], _, _, [], .single hstep, (List.append_nil _).symm, rfl,
          (hmoves .reading).changes, .inl rfl,
          follows_loop ((hmoves .reading).settled hsettled) (hmoves .reading).hat⟩
      · rename_i hstd
        rw [if_neg hstd] at hstep
        exact ⟨[], _, _, [], .single hstep, (List.append_nil _).symm, rfl, (hmoves .ended).changes,
          .inl rfl, (hmoves .ended).settled hsettled, rfl⟩

theorem advance_eq {req : Request} {o : Op} {k : o.Ans → Task Unit} (htask : req.task = .call o k)
    (a : Answer) : req.advance a = some (Request.answered req o k a) := by
  rw [Request.advance, htask]
  rfl

/-- `process_command` goes on to where it waits or ends. -/
theorem turn_process {task : Task Unit} {req : Request} (hsettled : Settled g e)
    (hat : peer.At e (.processing req)) (htask : req.task = task) :
    Turn srv g e [peer.worker] [] [.commandDone peer] (processTurn peer task req g) := by
  induction task generalizing g e req with
  | ret a =>
      exact turn_quiet (.stands hsettled (.serves peer _ hat (.commandReturned peer req htask)))
  | throw ex =>
      exact turn_quiet (.stands hsettled (.serves peer _ hat (.commandThrew peer req ex htask)))
  | call o k ih =>
      -- an operation that does not wait is one step of the engine
      have hstep : ∀ (a : Answer) (g' : Shared), Settled g' e → g'.log = g.log →
          outputs ((answerOp req.state a o).2.2.flatMap peer.events) = [] →
          Turn srv g e [peer.worker] [] [.commandDone peer] (processTurn peer
            (k (answerOp req.state a o).1) (Request.answered req o k a).1
            (g'.logged ((Request.answered req o k a).2.flatMap peer.events))) := by
        intro a g' hsettled' hlogs houtputs
        obtain ⟨e', hstep, hmoves⟩ := step_progress srv hat (advance_eq htask a)
        have hmoved := hmoves.settled hsettled'
        obtain ⟨evs, e'', ws', owed', hleads, hlog, howed, hchanges, hws, hfollows⟩ :=
          ih (answerOp req.state a o).1 (g := g'.logged _)
            ⟨⟨hmoved.sessions, hmoved.activeConnections, hmoved.discovery,
              hmoved.discoveryEnabled, hmoved.descriptors⟩, hmoved.store⟩
            hmoves.hat rfl
        refine ⟨_, e'', ws', owed', (Leads.single hstep).trans hleads, ?_, ?_,
          hmoves.changes.trans hchanges, .inl (hws.resolve_right (by simp)), hfollows⟩
        · refine hlog.trans ?_
          rw [Shared.logged, hlogs, List.append_assoc]
          rfl
        · rw [outputs_append, houtputs]
          exact howed
      have hdrawn : Settled g.drawn e :=
        ⟨⟨hsettled.sessions, hsettled.activeConnections, hsettled.discovery,
          hsettled.discoveryEnabled, hsettled.descriptors⟩, hsettled.store⟩
      rw [processTurn]
      split
      · rename_i hkind
        exact hstep {} g hsettled rfl (outputs_answered (.inl hkind) _ _)
      · rename_i hkind
        exact hstep (g.outside 0) g.drawn hdrawn rfl (outputs_answered (.inr (.inl hkind)) _ _)
      · rename_i hkind
        exact turn_quiet ⟨⟨hsettled, rfl⟩, fun r => .serves peer _ hat (.operationGot peer req
          r.answer o k htask _ (outputs_answered (.inr (.inr hkind)) _ _))⟩
      · rename_i payload hkind
        have hsends := sends_pushEvent hkind (g.outside 0).staleHeader
        have hfollows : Follows srv g.drawn e [peer.worker] [] [.commandDone peer] (.await
            (.sendFrame peer (g.outside 0).staleHeader payload) fun outcome =>
              .operationGot peer req (sentAnswer (g.outside 0).staleHeader outcome)) :=
          .stands hdrawn (.sends peer req hat o k htask _ payload hsends .sendFrame)
        exact ⟨[], e, _, [], .refl srv e, (List.append_nil _).symm, rfl, .refl _ e, .inl rfl,
          hfollows⟩
      · rename_i header payload hkind
        exact turn_quiet (.stands hsettled (.sends peer req hat o k htask header payload
          (sends_sendFrame hkind) .sendFrame))

theorem descriptorOpen_iff {fd : Fd} : e.descriptorOpen fd ↔ (fd, true) ∈ descriptorsOf e := by
  simp only [Engine.descriptorOpen, descriptorsOf, List.mem_map, Prod.mk.injEq, beq_iff_eq,
    Conn.isOpen]
  exact ⟨fun ⟨c, hc, hcloses, hfd⟩ => ⟨c, hc, hfd, hcloses⟩,
    fun ⟨c, hc, hfd, hcloses⟩ => ⟨c, hc, hcloses, hfd⟩⟩

theorem follows_accept (hsettled : Settled g e) (mode : ProtocolMode) :
    Follows srv g e [] [] [] (.await .asyncAccept (.acceptGot mode)) :=
  .stands hsettled (.quiet _ _ [] _ [] .asyncAccept (by simp)
    fun outcome hstd => .acceptGot mode outcome hstd)

/-- A connection has been accepted. -/
theorem turn_acceptGot (kernel : Kernel) (names : CommandNames) (hsettled : Settled g e)
    (mode : ProtocolMode) {outcome : Outcome} (hstd : Catchable outcome) :
    Turn srv g e [] [] [] (next srv kernel names g (.acceptGot mode outcome)) := by
  cases outcome with
  | error ex =>
      have hnext : next srv kernel names g (.acceptGot mode (.error ex)) =
          (g, .await .asyncAccept (.acceptGot mode)) :=
        congrArg (Prod.mk g) (if_pos (hstd ex rfl))
      rw [hnext]
      exact turn_quiet (follows_accept hsettled mode)
  | ok v =>
      have hfd : ¬ e.descriptorOpen (kernel.accept v.res g.descriptors) := by
        rw [descriptorOpen_iff, ← hsettled.descriptors]
        exact kernel.fresh _ _
      rw [next]
      dsimp only
      split
      · rename_i hfull
        rw [hsettled.activeConnections] at hfull
        have hstep : e.step srv (.accept mode (kernel.accept v.res g.descriptors)) = some ({ e with
            discovery := { e.discovery with respondToClients := false }
            discoveryEnabled := false }, [.closed (kernel.accept v.res g.descriptors)]) := by
          rw [Engine.step, if_neg hfd, if_pos hfull]
        have hsettled' : Settled { g with
            discovery := { g.discovery with respondToClients := false }
            discoveryEnabled := false
            log := g.log ++ [.closed (kernel.accept v.res g.descriptors)] } { e with
            discovery := { e.discovery with respondToClients := false }
            discoveryEnabled := false } :=
          ⟨⟨hsettled.sessions, hsettled.activeConnections,
            congrArg (fun config => { config with respondToClients := false }) hsettled.discovery,
            rfl, hsettled.descriptors⟩, hsettled.store⟩
        exact ⟨_, _, [], [], .single hstep, rfl, rfl, ⟨fun _ _ _ h => h, fun _ _ _ h => h⟩,
          .inl rfl, follows_accept hsettled' mode⟩
      · rename_i hroom
        rw [hsettled.activeConnections] at hroom
        exact turn_quiet ⟨[], [], rfl, .accepted hsettled _ mode hroom hfd, .startAcceptLoop mode⟩

/-- `handle_client` and `text_handle_client` begin. -/
theorem turn_handleClient (kernel : Kernel) (names : CommandNames) (hsettled : Settled g e)
    (fd : Fd) (mode : ProtocolMode) (hroom : ¬ Full srv e) (hfd : ¬ e.descriptorOpen fd) :
    Turn srv g e [] [] [] (next srv kernel names g (.handleClient fd mode)) := by
  have hstep : e.step srv (.accept mode fd) = some ({ e with
      conns := e.conns ++ [{ fd := fd, mode := mode }]
      activeConnections := e.activeConnections + 1 }, []) := by
    have hroom' : ¬ (0 < srv.maxClients ∧ srv.maxClients ≤ e.activeConnections) := hroom
    rw [Engine.step, if_neg hfd, if_neg hroom']
  have hlength : g.descriptors.length = e.conns.length := by
    rw [hsettled.descriptors, descriptorsOf, List.length_map]
  have hsettled' : Settled { g with
      activeConnections := g.activeConnections + 1
      descriptors := g.descriptors ++ [(fd, true)] }
      { e with
        conns := e.conns ++ [{ fd := fd, mode := mode }]
        activeConnections := e.activeConnections + 1 } :=
    ⟨⟨hsettled.sessions, congrArg (· + 1) hsettled.activeConnections, hsettled.discovery,
      hsettled.discoveryEnabled, by simp [descriptorsOf, hsettled.descriptors]⟩, hsettled.store⟩
  have hat : (Peer.client ⟨e.conns.length, fd, mode, noSession⟩).At { e with
      conns := e.conns ++ [{ fd := fd, mode := mode }]
      activeConnections := e.activeConnections + 1 } .reading :=
    ⟨{ fd := fd, mode := mode }, List.getElem?_concat_length, rfl, rfl, rfl, rfl⟩
  have hfollows : Follows srv _ _ _ [] [] _ := follows_loop hsettled' hat
  rw [next, hlength]
  exact ⟨[], _, _, [], .single hstep, (List.append_nil _).symm, rfl,
    ⟨fun i c _ hc => by rw [List.getElem?_append_left (List.getElem?_eq_some_iff.mp hc).1, hc],
      fun _ _ _ h => h⟩, .inr ⟨rfl, rfl⟩, hfollows⟩

/-- The session of a frame has been loaded. -/
theorem turn_sessionGot (kernel : Kernel) (names : CommandNames) (hagrees : Agrees g e)
    (frame : ClientFrame) (hat : peer.At e (.loading frame))
    (hstore : g.store = (e.store.getOrCreate frame.header.sessionId).2) :
    Turn srv g e [peer.worker] [] [] (next srv kernel names g (.sessionGot peer frame
      (.ok { session := (e.store.getOrCreate frame.header.sessionId).1 }))) := by
  cases peer with
  | client k =>
      obtain ⟨e', hstep, hat', hchanges, hstore', hagrees'⟩ := step_load_client srv hat
      exact ⟨[], e', _, [], .single hstep, (List.append_nil _).symm, rfl, hchanges, .inl rfl,
        .stands ⟨hagrees' hagrees, hstore.trans hstore'.symm⟩
          (.serves _ _ hat' (.processCommand _ _))⟩
  | udp j buffer =>
      obtain ⟨e', hstep, hat', hchanges, hstore', hagrees'⟩ := step_load_udp srv hat
      exact ⟨[], e', _, [], .single hstep, (List.append_nil _).symm, rfl, hchanges, .inl rfl,
        .stands ⟨hagrees' hagrees, hstore.trans hstore'.symm⟩
          (.serves _ _ hat' (.processCommand _ _))⟩

/-- The coroutine of the peer stays the same, but for its buffer. -/
theorem received_worker (peer : Peer) (v : Value) : (peer.received v).1.worker = peer.worker := by
  cases peer <;> rfl

theorem received_at {phase : Phase} (hat : peer.At e phase) (v : Value) :
    (peer.received v).1.At e phase := by
  cases peer <;> exact hat

theorem turn_frameGot (kernel : Kernel) (names : CommandNames) (hsettled : Settled g e)
    (hat : peer.At e .reading) (v : Value) :
    Turn srv g e [peer.worker] [] [] (next srv kernel names g (.frameGot peer (.ok v))) := by
  have hworker := received_worker peer v
  have hat' := received_at hat v
  rw [next]
  generalize peer.received v = received at hworker hat'
  obtain ⟨peer', decoded⟩ := received
  dsimp only at hworker hat'
  rw [← hworker]
  cases decoded with
  | none => exact turn_quiet (follows_loop hsettled hat')
  | some frame =>
      obtain ⟨e', hstep, hmoves⟩ := step_frame srv hat' frame
      exact ⟨[], e', _, [], .single hstep, (List.append_nil _).symm, rfl, hmoves.changes, .inl rfl,
        .stands (hmoves.settled hsettled) (.serves _ _ hmoves.hat (.getOrCreate peer' frame))⟩

/-- The thread pool has run the disconnect callback. -/
theorem turn_callbackDone (kernel : Kernel) (names : CommandNames) (hsettled : Settled g e)
    {k : Client} (hat : (Peer.client k).At e .notifying) (result : Except Exc Unit) :
    Turn srv g e [.conn k.i] [] [] (next srv kernel names g (.callbackDone k result)) := by
  obtain ⟨c, hc, hfd, hmode, hsid, hphase⟩ := hat
  cases result with
  | ok _ =>
      have hstep : e.step srv (.work (.conn k.i) (.notified (.ok ()))) =
          some (Engine.finish srv e k.i c, [.closed k.fd]) := by
        simp [Engine.step, hc, Engine.connStep, hphase, hfd]
      obtain ⟨hfinished, hlog, hchanges⟩ := finish_client srv (k := k) hsettled hfd
      exact ⟨_, _, _, [], .single hstep, hlog, rfl, hchanges, .inl rfl, hfinished, rfl⟩
  | error ex =>
      have hmoves := moves_conn hc hfd hmode hsid .ended
      have hstep : e.step srv (.work (.conn k.i) (.notified (.error ex))) =
          some (e.setConn k.i { c with phase := .ended }, []) := by
        simp [Engine.step, hc, Engine.connStep, hphase]
      exact ⟨[], _, _, [], .single hstep, (List.append_nil _).symm, rfl, hmoves.changes, .inl rfl,
        hmoves.settled hsettled, rfl⟩

theorem turn_point (kernel : Kernel) (names : CommandNames) (hsettled : Settled g e)
    {phase : Phase} (hat : peer.At e phase) {owed : List Output} {c : Code}
    (hpoint : Point peer phase owed c callers) :
    Turn srv g e [peer.worker] owed callers (next srv kernel names g c) := by
  cases hpoint with
  | frameGot _ outcome hstd =>
      cases outcome with
      | ok v => exact turn_frameGot kernel names hsettled hat v
      | error ex => exact turn_caught hsettled hat (hstd ex rfl)
  | getOrCreate _ frame =>
      have hagrees : Agrees { g with store := (e.store.getOrCreate frame.header.sessionId).2 } e :=
        ⟨hsettled.sessions, hsettled.activeConnections, hsettled.discovery,
          hsettled.discoveryEnabled, hsettled.descriptors⟩
      rw [next, hsettled.store]
      exact ⟨[], e, _, [], .refl srv e, (List.append_nil _).symm, rfl, .refl _ e, .inl rfl,
        .loaded hagrees peer frame hat rfl⟩
  | processCommand _ req => exact turn_process hsettled hat rfl
  | operationGot _ req a o k htask _ howed =>
      obtain ⟨e', hstep, hmoves⟩ := step_progress srv hat (advance_eq htask a)
      have hsettled' := hmoves.settled hsettled
      rw [next, advance_eq htask a]
      have hlogged : Settled (g.logged ((Request.answered req o k a).2.flatMap peer.events)) e' :=
        ⟨⟨hsettled'.sessions, hsettled'.activeConnections, hsettled'.discovery,
          hsettled'.discoveryEnabled, hsettled'.descriptors⟩, hsettled'.store⟩
      have hturn : Turn srv _ e' [peer.worker] [] [.commandDone peer] _ :=
        turn_process hlogged hmoves.hat rfl
      obtain ⟨evs, e'', ws', owed', hleads, hlog, hout, hchanges, hws, hfollows⟩ := hturn
      refine ⟨_, e'', ws', owed', (Leads.single hstep).trans hleads,
        hlog.trans (List.append_assoc _ _ _), ?_, hmoves.changes.trans hchanges,
        .inl (hws.resolve_right (by simp)), hfollows⟩
      rw [outputs_append, List.append_assoc, hout, List.append_nil]
      exact howed
  | commandReturned _ req htask =>
      exact turn_quiet (.stands hsettled (.serves peer _ hat (.save peer req htask)))
  | commandThrew _ req ex htask =>
      exact turn_caught hsettled hat (by simp [Engine.canFail, htask])
  | save _ req htask =>
      obtain ⟨e', hstep, hat', hchanges, hstore, hagrees⟩ := step_save srv hat htask
      have hagrees' : Agrees { g with
          store := g.store.save req.state.session
          log := g.log ++ [.saved peer.worker req] } e' :=
        hagrees ⟨hsettled.sessions, hsettled.activeConnections, hsettled.discovery,
          hsettled.discoveryEnabled, hsettled.descriptors⟩
      have hstore' : g.store.save req.state.session = e'.store := by rw [hstore, hsettled.store]
      exact ⟨_, e', _, [], .single hstep, rfl, rfl, hchanges, .inl rfl,
        .stands ⟨hagrees', hstore'⟩ (.serves peer _ hat' (.saved peer {}))⟩
  | saved _ v => exact turn_quiet (follows_loop hsettled hat)
  | callbackDone k result => exact turn_callbackDone kernel names hsettled hat result

theorem turn (kernel : Kernel) (names : CommandNames) {owed : List Output} {c : Code}
    (htop : Top srv g e ws owed c callers) :
    Turn srv g e ws owed callers (next srv kernel names g c) := by
  cases htop with
  | accepted hsettled fd mode hroom hfd =>
      exact turn_handleClient kernel names hsettled fd mode hroom hfd
  | loaded hagrees peer frame hat hstore =>
      exact turn_sessionGot kernel names hagrees frame hat hstore
  | stands hsettled h =>
      cases h with
      | init accepting udpLoops hreading =>
          cases accepting with
          | cons mode accepting =>
              exact turn_quiet ⟨[], _, rfl, .stands hsettled (.startAcceptLoop mode),
                .init accepting udpLoops hreading⟩
          | nil =>
              cases udpLoops with
              | nil => exact turn_quiet ⟨hsettled, rfl⟩
              | cons j udpLoops =>
                  exact turn_quiet ⟨[.udp j], udpLoops.map .udp, rfl,
                    .stands hsettled (.startUdpLoop j (hreading j List.mem_cons_self)),
                    .init [] udpLoops fun j' hj' => hreading j' (List.mem_cons_of_mem _ hj')⟩
      | startAcceptLoop mode => exact turn_quiet (follows_accept hsettled mode)
      | acceptGot mode outcome hstd => exact turn_acceptGot kernel names hsettled mode hstd
      | startUdpLoop j hreading =>
          have hat : (Peer.udp j (List.replicate 65536 0)).At e .reading := hreading
          exact turn_quiet (follows_loop hsettled hat)
      | serves peer phase hat hpoint => exact turn_point kernel names hsettled hat hpoint
      | sends peer req hat o k htask header payload hsends hsending =>
          exact turn_sends kernel names hsettled hat htask hsends hsending
      | quiet _ _ inner k callers hquiet hinner hcaller =>
          exact turn_stands_quiet kernel names hsettled hquiet hinner hcaller

end Turns

/-! The whole of the threads. -/

abbrev EngineThreads := Threads Shared Code Operation Result Value Exc

/-- A coroutine with the workers it serves and with its callers. -/
abbrev Active := List Worker × Code × List (Outcome → Code)

abbrev Waiting := List Worker × Operation × (Result → Code) × List (Outcome → Code)

def Running (srv : Server) (g : Shared) (e : Engine) (owed : List Output) : List Active → Prop
  | [] => Settled g e ∧ owed = []
  | x :: rest => Top srv g e x.1 owed x.2.1 x.2.2 ∧ ∀ y ∈ rest, Stands e y.1 [] y.2.1 y.2.2

structure Related (srv : Server) (t : EngineThreads) (e : Engine) (owed : List Output)
    (act : List Active) (wait : List Waiting) : Prop where
  active : t.active = act.map (·.2)
  waiting : t.waiting = wait.map (·.2)
  -- no two coroutines serve the same worker
  owned : (act.flatMap (·.1) ++ wait.flatMap (·.1)).Nodup
  running : Running srv t.globals e owed act
  waits : ∀ x ∈ wait, ∀ r, Stands e x.1 (x.2.1.output r) (x.2.2.1 r) x.2.2.2

section Simulation

variable {srv : Server} {t t' : EngineThreads} {e e' : Engine} {owed : List Output}
  {act : List Active} {wait : List Waiting}

theorem running_of_settled {g : Shared} (hsettled : Settled g e)
    (h : ∀ y ∈ act, Stands e y.1 [] y.2.1 y.2.2) : Running srv g e [] act := by
  cases act with
  | nil => exact ⟨hsettled, rfl⟩
  | cons x rest =>
      exact ⟨.stands hsettled (h x List.mem_cons_self), fun y hy => h y (List.mem_cons_of_mem _ hy)⟩

/-- The event loop resumes a coroutine. -/
theorem related_complete {k : Nat} {x : Waiting} (h : Related srv t e owed [] wait)
    (hx : wait[k]? = some x) (r : Result) :
    Related srv { t with active := [(x.2.2.1 r, x.2.2.2)], waiting := t.waiting.eraseIdx k } e
      (x.2.1.output r) [(x.1, x.2.2.1 r, x.2.2.2)] (wait.eraseIdx k) where
  active := rfl
  waiting := by
    change t.waiting.eraseIdx k = _
    rw [h.waiting, List.eraseIdx_map]
  owned := by
    obtain ⟨hk, hget⟩ := List.getElem?_eq_some_iff.mp hx
    have hperm : wait.Perm (x :: wait.eraseIdx k) :=
      hget ▸ (List.getElem_cons_eraseIdx_perm hk).symm
    have howned : (wait.flatMap (·.1)).Nodup := h.owned
    rw [(hperm.flatMap_right _).nodup_iff] at howned
    simpa using howned
  running := ⟨.stands h.running.1 (h.waits x (List.mem_of_getElem? hx) r), by simp⟩
  waits := fun y hy => h.waits y (List.mem_of_mem_eraseIdx hy)

/-- The others stand where they stood. -/
theorem others_stand {x : Active} (h : Related srv t e owed (x :: act) wait)
    (hchanges : Changes x.1 e e') :
    (∀ y ∈ act, Stands e' y.1 [] y.2.1 y.2.2) ∧
      ∀ y ∈ wait, ∀ r, Stands e' y.1 (y.2.1.output r) (y.2.2.1 r) y.2.2.2 := by
  have hdisjoint : ∀ w ∈ act.flatMap (·.1) ++ wait.flatMap (·.1), w ∉ x.1 := by
    have howned := h.owned
    rw [List.flatMap_cons, List.append_assoc] at howned
    exact fun w hw hx => (List.nodup_append.mp howned).2.2 w hx w hw rfl
  constructor
  · exact fun y hy => (h.running.2 y hy).of_changes hchanges fun w hw =>
      hdisjoint w (List.mem_append_left _ (List.mem_flatMap.mpr ⟨y, hy, hw⟩))
  · exact fun y hy r => (h.waits y hy r).of_changes hchanges fun w hw =>
      hdisjoint w (List.mem_append_right _ (List.mem_flatMap.mpr ⟨y, hy, hw⟩))

/-- No other coroutine serves what the turn's coroutine serves after it. -/
theorem owned_turn {x : Active} {ws : List Worker} (h : Related srv t e owed (x :: act) wait)
    (hws : ws = x.1 ∨ x.1 = [] ∧ ws = [.conn e.conns.length]) :
    (ws ++ (act.flatMap (·.1) ++ wait.flatMap (·.1))).Nodup := by
  have howned := h.owned
  rw [List.flatMap_cons, List.append_assoc] at howned
  rcases hws with rfl | ⟨hnil, rfl⟩
  · exact howned
  · rw [hnil, List.nil_append] at howned
    rw [List.singleton_append]
    refine List.nodup_cons.mpr ⟨fun hmem => ?_, howned⟩
    have hvalid : Valid e (.conn e.conns.length) := by
      rcases List.mem_append.mp hmem with hmem | hmem
      · obtain ⟨y, hy, hw⟩ := List.mem_flatMap.mp hmem
        exact (h.running.2 y hy).valid _ hw
      · obtain ⟨y, hy, hw⟩ := List.mem_flatMap.mp hmem
        exact (h.waits y hy {}).valid _ hw
    exact Nat.lt_irrefl _ hvalid

/-- A coroutine that has come to the end of its turn is where the threads put it. -/
theorem related_follows {x : Active} {ws : List Worker} {g : Shared} {instr : EngineInstr}
    {rest : List (Code × List (Outcome → Code))} (hrest : rest = act.map (·.2))
    (hwaiting : t.waiting = wait.map (·.2))
    (hothers : (∀ y ∈ act, Stands e y.1 [] y.2.1 y.2.2) ∧
      ∀ y ∈ wait, ∀ r, Stands e y.1 (y.2.1.output r) (y.2.2.1 r) y.2.2.2)
    (howned : (ws ++ (act.flatMap (·.1) ++ wait.flatMap (·.1))).Nodup)
    (hfollows : Follows srv g e ws owed x.2.2 instr) :
    ∃ act' wait', Related srv
      (({ t with globals := g, active := rest } : EngineThreads).run x.2.2 instr).1 e owed act'
        wait' ∧
      (({ t with globals := g, active := rest } : EngineThreads).run x.2.2 instr).1.globals =
        g := by
  have hends : ∀ outcome, Ends srv g e ws owed outcome x.2.2 → ∃ act' wait', Related srv
      (({ t with globals := g, active := rest } : EngineThreads).finish outcome x.2.2).1 e
        owed act' wait' ∧
      (({ t with globals := g, active := rest } : EngineThreads).finish outcome x.2.2).1.globals =
        g := by
    intro outcome hends
    obtain ⟨ws₀, c, callers⟩ := x
    cases callers with
    | nil =>
        obtain ⟨hsettled, rfl⟩ := hends
        exact ⟨act, wait, ⟨hrest, hwaiting, (List.nodup_append.mp howned).2.1,
          running_of_settled hsettled hothers.1, hothers.2⟩, rfl⟩
    | cons k callers =>
        refine ⟨(ws, k outcome, callers) :: act, wait, ⟨?_, hwaiting, ?_, ⟨hends, hothers.1⟩,
          hothers.2⟩, rfl⟩
        · exact congrArg (_ :: ·) hrest
        · rw [List.flatMap_cons, List.append_assoc]
          exact howned
  cases instr with
  | coReturn v => exact hends (.ok v) hfollows
  | throw ex => exact hends (.error ex) hfollows
  | operation o k =>
      obtain ⟨⟨hsettled, rfl⟩, hstands⟩ := hfollows
      refine ⟨act, wait ++ [(ws, o, k, x.2.2)], ⟨hrest, ?_, ?_,
        running_of_settled hsettled hothers.1, ?_⟩, rfl⟩
      · change t.waiting ++ _ = _
        rw [hwaiting, List.map_append]
        rfl
      · rw [List.flatMap_append, ← List.append_assoc]
        refine (List.perm_append_comm.nodup_iff).mp ?_
        simpa using howned
      · intro y hy r
        rcases List.mem_append.mp hy with hy | hy
        · exact hothers.2 y hy r
        · cases List.mem_singleton.mp hy
          exact hstands r
  | await task k =>
      refine ⟨(ws, task, k :: x.2.2) :: act, wait, ⟨?_, hwaiting, ?_, ⟨hfollows, hothers.1⟩,
        hothers.2⟩, rfl⟩
      · exact congrArg (_ :: ·) hrest
      · rw [List.flatMap_cons, List.append_assoc]
        exact howned
  | detach task body =>
      obtain ⟨ws₁, ws₂, rfl, htop, hstands⟩ := hfollows
      refine ⟨(ws₁, task, []) :: (ws₂, body, x.2.2) :: act, wait, ⟨?_, hwaiting, ?_, ⟨htop, ?_⟩,
        hothers.2⟩, rfl⟩
      · exact congrArg (fun rest => _ :: _ :: rest) hrest
      · simpa only [List.flatMap_cons, List.append_assoc] using howned
      · intro y hy
        rcases List.mem_cons.mp hy with rfl | hy
        · exact hstands
        · exact hothers.1 y hy

/-- What goes out with the completion that a step takes. -/
def completed (t : EngineThreads) : TaskFrames.Label Code Result → List Output
  | .complete k r => (t.waiting[k]?).elim [] fun x => x.1.output r
  | .call _ | .run => []

/-- A step of the threads is some steps of the engine. -/
theorem related_step (kernel : Kernel) (names : CommandNames)
    {a : TaskFrames.Label Code Result} {evs : List (TaskFrames.Event Operation Value Exc)}
    (h : Related srv t e owed act wait) (ha : a.task = none)
    (hstep : t.step (next srv kernel names) a = some (t', evs)) :
    ∃ evs' e' owed' act' wait', Leads srv e evs' e' ∧
      t'.globals.log = t.globals.log ++ evs' ∧ outputs evs' ++ owed' = owed ++ completed t a ∧
      Related srv t' e' owed' act' wait' := by
  cases a with
  | call task => cases ha
  | complete k r =>
      simp only [Threads.step] at hstep
      split at hstep
      · rename_i o rest callers hactive hk
        cases hstep
        have hnil : act = [] := List.map_eq_nil_iff.mp (h.active.symm.trans hactive)
        subst hnil
        have howed : owed = [] := h.running.2
        have hcompleted : completed t (.complete k r) = o.output r := by
          rw [completed, hk]
          rfl
        rw [h.waiting, List.getElem?_map, Option.map_eq_some_iff] at hk
        obtain ⟨x, hx, hdata⟩ := hk
        have hrelated := related_complete h hx r
        rw [hdata] at hrelated
        exact ⟨[], e, _, _, _, .refl srv e, (List.append_nil _).symm,
          by rw [hcompleted, howed]; rfl, hrelated⟩
      · cases hstep
  | run =>
      simp only [Threads.step] at hstep
      split at hstep
      · rename_i c callers rest hactive
        cases act with
        | nil =>
            rw [h.active] at hactive
            cases hactive
        | cons x act =>
            obtain ⟨ws₀, c₀, callers₀⟩ := x
            rw [h.active, List.map_cons, List.cons.injEq] at hactive
            obtain ⟨hhead, hrest⟩ := hactive
            cases hhead
            obtain ⟨evs', e', ws, owed', hleads, hlog, howed, hchanges, hws, hfollows⟩ :=
              turn kernel names h.running.1
            obtain ⟨act', wait', hrelated, hglobals⟩ := related_follows (x := (ws₀, c, callers))
              (t := t) hrest.symm h.waiting (others_stand h hchanges) (owned_turn h hws) hfollows
            rw [Option.some.injEq] at hstep
            rw [hstep] at hrelated hglobals
            exact ⟨evs', e', owed', act', wait', hleads, by rw [hglobals, hlog],
              howed.trans (List.append_nil _).symm, hrelated⟩
      · cases hstep

end Simulation

/-- `init()` starts a loop for each stream listener and one for each UDP port. -/
def Code.initOf (srv : Server) (accepting : List ProtocolMode) : Code :=
  .init accepting (List.range srv.udpPorts.length)

/-- What is shared before `init()`. -/
def Shared.start (discovery : DiscoveryConfig) (enabled : Bool) (outside : Nat → Answer) :
    Shared where
  discovery := discovery
  discoveryEnabled := enabled
  outside := outside

section Runs

variable (srv : Server) (kernel : Kernel) (names : CommandNames) (accepting : List ProtocolMode)
  (discovery : DiscoveryConfig) (enabled : Bool) (outside : Nat → Answer)

theorem related_start : Related srv (.start (.start discovery enabled outside))
    (Engine.init srv discovery enabled) [] [] [] where
  active := rfl
  waiting := rfl
  owned := List.nodup_nil
  running := ⟨⟨⟨rfl, rfl, rfl, rfl, rfl⟩, rfl⟩, rfl⟩
  waits := by simp

/-- `init()` is called. -/
theorem related_call {t t' : EngineThreads} {e : Engine}
    {evs : List (TaskFrames.Event Operation Value Exc)} (h : Related srv t e [] [] [])
    (hudp : e.udpLoops = srv.udpPorts.map fun _ => .reading)
    (hstep : t.step (next srv kernel names) (.call (.initOf srv accepting)) = some (t', evs)) :
    ∃ act, Related srv t' e [] act [] ∧ t'.globals = t.globals := by
  have hactive : t.active = [] := h.active
  rw [Threads.step, if_pos hactive] at hstep
  cases hstep
  have hreading : ∀ j ∈ List.range srv.udpPorts.length, e.udpLoops[j]? = some .reading := by
    intro j hj
    have hlt : j < srv.udpPorts.length := List.mem_range.mp hj
    rw [hudp, List.getElem?_map, List.getElem?_eq_getElem hlt]
    rfl
  refine ⟨[(_, _, [])], ⟨rfl, h.waiting, ?_,
    ⟨.stands h.running.1 (.init accepting _ hreading), by simp⟩, by simp⟩, rfl⟩
  simp only [List.flatMap_cons, List.flatMap_nil, List.append_nil]
  exact (List.nodup_range).map fun j j' heq => by cases heq; rfl

/-- Before that nothing can go on. -/
theorem idle_step {t : EngineThreads} {e : Engine} {a : TaskFrames.Label Code Result}
    (h : Related srv t e [] [] []) (ha : a.task = none) :
    t.step (next srv kernel names) a = none := by
  have hactive : t.active = [] := h.active
  have hwaiting : t.waiting = [] := h.waiting
  cases a with
  | call task => cases ha
  | run => rw [Threads.step, hactive]
  | complete k r => rw [Threads.step, hactive, hwaiting]; rfl

/-- What has gone out after one more step. -/
theorem sentOf_snoc {tr : List (Step EngineThreads (TaskFrames.Label Code Result)
      (TaskFrames.Event Operation Value Exc))} {t t' : EngineThreads}
    {a : TaskFrames.Label Code Result} {evs : List (TaskFrames.Event Operation Value Exc)}
    (hring : (booksOf tr).ring.map (·.2) = t.waiting.map (·.1)) :
    sentOf (booksOf (tr ++ [⟨t, a, evs, t'⟩])) = sentOf (booksOf tr) ++ completed t a := by
  rw [sentOf, booksOf_snoc, Books.foldl_record_taken]
  cases a with
  | call task | run => exact (List.append_nil _).symm
  | complete k r =>
      have hk := congrArg (fun l => l[k]?) hring
      simp only [List.getElem?_map] at hk
      rw [Books.enter, completed]
      cases hx : (booksOf tr).ring[k]? with
      | none =>
          rw [hx, Option.map_none, eq_comm, Option.map_eq_none_iff] at hk
          rw [hk]
          exact (List.append_nil _).symm
      | some x =>
          rw [hx, Option.map_some, eq_comm, Option.map_eq_some_iff] at hk
          obtain ⟨y, hy, heq⟩ := hk
          rw [hy]
          simp [sentOf, heq]

/-- The runs of the threads. -/
theorem related_run {tr : List (Step EngineThreads (TaskFrames.Label Code Result)
      (TaskFrames.Event Operation Value Exc))} {t : EngineThreads}
    (h : Trace (Threads.step (next srv kernel names)) (.start (.start discovery enabled outside))
      tr t)
    (hcalls : callsOf tr <+: [.initOf srv accepting]) :
    ∃ evs e owed act wait, Leads srv (Engine.init srv discovery enabled) evs e ∧
      t.globals.log = evs ∧ outputs evs ++ owed = sentOf (booksOf tr) ∧
      Related srv t e owed act wait ∧
      (callsOf tr = [] → e = Engine.init srv discovery enabled ∧ owed = [] ∧ act = [] ∧
        wait = []) := by
  induction h with
  | nil =>
      exact ⟨[], _, [], [], [], .refl srv _, rfl, rfl, related_start srv discovery enabled outside,
        fun _ => ⟨rfl, rfl, rfl, rfl⟩⟩
  | @snoc tr t t' a evs htr hstep ih =>
      rw [callsOf_snoc] at hcalls
      obtain ⟨evs', e, owed, act, wait, hleads, hlog, howed, hrelated, hstart⟩ :=
        ih ((List.prefix_append _ _).trans hcalls)
      rw [sentOf_snoc (booksOf_waiting htr), ← howed]
      cases htask : a.task with
      | none =>
          obtain ⟨evs'', e', owed', act', wait', hleads', hlog', howed', hrelated'⟩ :=
            related_step kernel names hrelated htask hstep
          refine ⟨evs' ++ evs'', e', owed', act', wait', hleads.trans hleads', by rw [hlog', hlog],
            ?_, hrelated', fun hnil => ?_⟩
          · rw [outputs_append, List.append_assoc, howed', List.append_assoc]
          · rw [callsOf_snoc] at hnil
            obtain ⟨rfl, rfl, rfl, rfl⟩ := hstart (List.append_eq_nil_iff.mp hnil).1
            rw [idle_step srv kernel names hrelated htask] at hstep
            cases hstep
      | some task =>
          have hone : callsOf [(⟨t, a, evs, t'⟩ : Step EngineThreads _ _)] = [task] := by
            simp [callsOf, htask]
          rw [hone] at hcalls
          have hfirst : callsOf tr = [] ∧ task = .initOf srv accepting := by
            obtain ⟨rest, hrest⟩ := hcalls
            cases hcalled : callsOf tr with
            | nil =>
                rw [hcalled] at hrest
                exact ⟨rfl, (List.cons.inj hrest).1⟩
            | cons c cs =>
                rw [hcalled] at hrest
                cases cs <;> cases (List.cons.inj hrest).2
          obtain ⟨rfl, rfl, rfl, rfl⟩ := hstart hfirst.1
          have ha : a = .call (.initOf srv accepting) := by
            cases a with
            | call task' =>
                cases htask
                rw [hfirst.2]
            | run | complete _ _ => cases htask
          subst ha
          obtain ⟨act, hrelated', hglobals⟩ :=
            related_call srv kernel names accepting hrelated rfl hstep
          refine ⟨evs', _, [], act, [], hleads, by rw [hglobals, hlog],
            by simp [completed], hrelated', fun hnil => ?_⟩
          rw [callsOf_snoc, hone] at hnil
          cases (List.append_eq_nil_iff.mp hnil).2

end Runs

theorem le_highest (descriptors : List (Fd × Bool)) : ∀ d ∈ descriptors,
    d.1 ≤ (descriptors.map (·.1)).foldr max 0 := by
  induction descriptors with
  | nil => simp
  | cons d' descriptors ih =>
      intro d hd
      rw [List.map_cons, List.foldr_cons]
      rcases List.mem_cons.mp hd with rfl | hd
      · exact Nat.le_max_left _ _
      · exact (ih d hd).trans (Nat.le_max_right _ _)

/-- The next descriptor is above all that have been. -/
def Kernel.ascending : Kernel where
  accept := fun _ descriptors => (descriptors.map (·.1)).foldr max 0 + 1
  fresh := fun _ descriptors hmem => Nat.not_succ_le_self _ (le_highest descriptors _ hmem)

/-- A connection is accepted, and a frame on it is read, answered and saved. -/
def servingLabels : List (TaskFrames.Label Code Result) :=
  [.call (.initOf Server.echo [.binary])] ++ List.replicate 4 .run ++ [.complete 0 {}] ++
    List.replicate 8 .run ++
    [.complete 0 { recv := .recv [1, 0, 0, 0, 1, 0, 0, 0, 7, 0, 0, 0, 0, 0, 0, 0] }] ++
    List.replicate 5 .run ++ [.complete 1 { recv := .recv [42] }] ++ List.replicate 9 .run ++
    [.complete 1 { res := 17 }] ++ List.replicate 9 .run

def isSave : Event → Bool
  | .saved _ _ => true
  | .wrote _ _ _ _ | .sentDatagram _ _ | .request _ _ | .closed _ | .discoveryReply _
  | .announced _ => false

end Servd.EngineCode
