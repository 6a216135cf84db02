import Servd.DiscoverySetting
import Servd.FrameIO

/-!
Discovery on the network. The packets are 13 packed bytes, `start_discovery_loop` receives every
datagram into an empty packet, and replies and announcements go out on the socket that the
requests come in on. Any number of servers share a broadcast port, and hear one another and
themselves. Datagrams get lost, come twice and come late. Still no server answers a server,
as long as the application's edits leave the action of the replies alone.
-/
namespace Servd

open Transition

/-- `sizeof(DiscoveryPacket)`. -/
def packetSize : Nat := 13

namespace DiscoveryPacket

def bytes (p : DiscoveryPacket) : Bytes :=
  Bytes.littleEndian 4 p.magicNumber.toNat ++ [p.action] ++
    Bytes.littleEndian 4 p.tcpPort.toUInt32.toNat ++ Bytes.littleEndian 4 p.udpPort.toUInt32.toNat

def ofBytes (bs : Bytes) : DiscoveryPacket where
  magicNumber := UInt32.ofNat (Bytes.ofLittleEndian (bs.take 4))
  action := (bs.drop 4).headD 0
  tcpPort := (UInt32.ofNat (Bytes.ofLittleEndian ((bs.drop 5).take 4))).toInt32
  udpPort := (UInt32.ofNat (Bytes.ofLittleEndian ((bs.drop 9).take 4))).toInt32

theorem length_bytes (p : DiscoveryPacket) : p.bytes.length = packetSize := by
  simp [bytes, packetSize]

theorem ofBytes_bytes (p : DiscoveryPacket) : ofBytes p.bytes = p := by
  have field : ∀ (v : UInt32),
      UInt32.ofNat (Bytes.ofLittleEndian (Bytes.littleEndian 4 v.toNat)) = v := by
    intro v
    have hv : v.toNat < 2 ^ 32 := v.toNat_lt
    rw [Bytes.ofLittleEndian_littleEndian, Nat.mod_eq_of_lt (by omega), UInt32.ofNat_toNat]
  obtain ⟨magic, action, tcp, udp⟩ := p
  have take_le : ∀ (w n : Nat) (tl : Bytes),
      (Bytes.littleEndian w n ++ tl).take w = Bytes.littleEndian w n := fun w n tl =>
    List.take_left' (Bytes.length_littleEndian w n)
  have drop_le : ∀ (w n : Nat) (tl : Bytes), (Bytes.littleEndian w n ++ tl).drop w = tl :=
    fun w n tl => List.drop_left' (Bytes.length_littleEndian w n)
  simp only [ofBytes, bytes, List.append_assoc, List.cons_append, List.nil_append]
  rw [show (5 : Nat) = 4 + 1 from rfl, show (9 : Nat) = 4 + 1 + 4 from rfl]
  simp only [← List.drop_drop, drop_le, take_le, field, List.drop_one, List.tail_cons,
    List.headD_cons]
  rw [List.take_of_length_le (Nat.le_of_eq (Bytes.length_littleEndian _ _)), field,
    Int32.toInt32_toUInt32, Int32.toInt32_toUInt32]

end DiscoveryPacket

/-- The beginning of a turn of `start_discovery_loop`: the datagram is received into an empty
packet, and one that is too short is passed over. -/
def receivePacket (completion : Completion) : Except Exc (Option DiscoveryPacket) :=
  match awaitResume completion.res with
  | .error e => .error e
  | .ok bytes =>
      if (bytes % 2 ^ 64).toNat < packetSize then .ok none
      else .ok (some (.ofBytes (store (List.replicate packetSize 0) 0 completion.data)))

/-- A `recvmsg` for a packet cuts off what does not fit into it. -/
def receiveDatagram (d : Bytes) : Except Exc (Option DiscoveryPacket) :=
  receivePacket (.recv (d.take packetSize))

theorem receiveDatagram_eq (d : Bytes) :
    receiveDatagram d =
      .ok (if d.length < packetSize then none else some (.ofBytes (d.take packetSize))) := by
  have hres : awaitResume (Completion.recv (d.take packetSize)).res =
      .ok ((d.take packetSize).length : Int) := if_neg (by simp [Completion.res])
  have hmin : (d.take packetSize).length = min packetSize d.length := List.length_take
  have hcast :
      ((((d.take packetSize).length : Int) % 2 ^ 64).toNat) = (d.take packetSize).length := by
    simp only [packetSize] at hmin ⊢
    omega
  rw [receiveDatagram, receivePacket, hres]
  simp only [hcast]
  by_cases hshort : d.length < packetSize
  · rw [if_pos hshort, if_pos (by omega)]
  · rw [if_neg hshort, if_neg (by omega)]
    have hlength : (d.take packetSize).length = packetSize := by omega
    simp [Completion.data, store, hlength]

namespace Discovery

/-- A datagram that has been sent, to the broadcast address if there is no destination. -/
structure Message where
  -- ghost: the server it comes from, if it is not a client's
  server : Option Nat
  source : SockAddr
  destination : Option SockAddr
  bytes : Bytes

structure Node where
  server : Server
  address : SockAddr
  engine : Engine

/-- Servers that share a broadcast port, and everything that has ever been sent to it. -/
structure Network where
  nodes : List Node
  sent : List Message := []

inductive Label
  -- somebody else sends anything
  | client (source : SockAddr) (destination : Option SockAddr) (bytes : Bytes)
  -- a datagram that was sent some time reaches the socket of a server
  | deliver (k i : Nat)
  -- the announcement of a server is due
  | announce (i : Nat)
  -- anything else that happens in a server
  | engine (i : Nat) (a : Servd.Label)

inductive Event
  | answered (request reply : Message)
  | announced (announcement : Message)

def isDiscovery : Servd.Label → Bool
  | .discoveryRequest _ _ | .announceTick => true
  | .accept _ _ | .work _ _ | .sendTo _ _ _ | .broadcast _ _ _ _ | .resumeCast _ _ | .app _ => false

def replies : Servd.Event → Option DiscoveryPacket
  | .discoveryReply p => some p
  | .wrote _ _ _ _ | .sentDatagram _ _ | .request _ _ | .saved _ _ | .closed _ | .announced _ =>
      none

def announcements : Servd.Event → Option DiscoveryPacket
  | .announced p => some p
  | .wrote _ _ _ _ | .sentDatagram _ _ | .request _ _ | .saved _ _ | .closed _
  | .discoveryReply _ => none

namespace Network

def setEngine (n : Network) (i : Nat) (node : Node) (engine : Engine) : Network :=
  { n with nodes := n.nodes.set i { node with engine := engine } }

/-- The loop of server `i` receives the message. -/
def deliver (n : Network) (i : Nat) (node : Node) (m : Message) :
    Option (Network × List Event) :=
  match receiveDatagram m.bytes with
  | .error _ | .ok none => some (n, [])
  | .ok (some req) =>
      (node.engine.step node.server (.discoveryRequest m.source req)).map fun (engine, evs) =>
        let answers := (evs.filterMap replies).map fun p : DiscoveryPacket =>
          (⟨some i, node.address, some m.source, p.bytes⟩ : Message)
        ({ n.setEngine i node engine with sent := n.sent ++ answers },
          answers.map (.answered m))

def step (n : Network) : Label → Option (Network × List Event)
  | .client source destination bytes =>
      some ({ n with sent := n.sent ++ [⟨none, source, destination, bytes⟩] }, [])
  | .deliver k i =>
      match n.sent[k]?, n.nodes[i]? with
      | some m, some node => if node.engine.discoveryLoop then n.deliver i node m else none
      | _, _ => none
  | .announce i =>
      n.nodes[i]?.bind fun node =>
        (node.engine.step node.server .announceTick).map fun (engine, evs) =>
          let messages := (evs.filterMap announcements).map fun p : DiscoveryPacket =>
            (⟨some i, node.address, none, p.bytes⟩ : Message)
          ({ n.setEngine i node engine with sent := n.sent ++ messages },
            messages.map .announced)
  | .engine i a =>
      if isDiscovery a then none
      else n.nodes[i]?.bind fun node =>
        (node.engine.step node.server a).map fun (engine, _) => (n.setEngine i node engine, [])

end Network

/-- The application's edit of a reply leaves its action alone. -/
def KeepsAction (config : DiscoveryConfig) : Prop :=
  ∀ edit ∈ config.onDiscoveryRequest, ∀ client p p', edit client p = .ok p' → p'.action = p.action

/-- A configuration that a step brings is one of these. -/
def Allowed : Label → Prop
  | .engine _ (.app (.enableDiscovery config)) => KeepsAction config
  | _ => True

section Engines

variable {srv : Server} {s s' : Engine} {a : Servd.Label} {evs : List Servd.Event}

/-- A server answers a request that asks for it, with its own packet as the application has edited
it, or does nothing. -/
theorem request_cases {client : SockAddr} {req : DiscoveryPacket}
    (hs : s.step srv (.discoveryRequest client req) = some (s', evs)) :
    evs = [] ∨ ∃ p, evs = [.discoveryReply p] ∧ req.magicNumber = s.discovery.magicNumber ∧
      req.action = clientLookingForServer ∧ s.discovery.respondToClients = true ∧
      (s.discovery.onDiscoveryRequest = none ∧ p = Engine.discoveryPacket srv s.discovery ∨
        ∃ edit, s.discovery.onDiscoveryRequest = some edit ∧
          edit client (Engine.discoveryPacket srv s.discovery) = .ok p) := by
  simp only [Engine.step] at hs
  split at hs
  · simp only [Option.some.injEq, Engine.discoveryStep] at hs
    split at hs
    · cases hs
      exact .inl rfl
    · rename_i hasked
      simp only [not_or, not_not] at hasked
      obtain ⟨hmagic, haction, hresponds⟩ := hasked
      split at hs
      · rename_i hnone
        cases hs
        exact .inr ⟨_, rfl, hmagic, haction, hresponds, .inl ⟨hnone, rfl⟩⟩
      · rename_i edit hsome
        split at hs
        · rename_i resp hedit
          cases hs
          exact .inr ⟨_, rfl, hmagic, haction, hresponds, .inr ⟨edit, hsome, hedit⟩⟩
        · cases hs
          exact .inl rfl
        · cases hs
          exact .inl rfl
  · cases hs

theorem announce_cases (hs : s.step srv .announceTick = some (s', evs)) :
    evs = [] ∨ evs = [.announced (Engine.discoveryPacket srv s.discovery)] := by
  simp only [Engine.step] at hs
  split at hs
  · split at hs
    · cases hs
      exact .inl rfl
    · cases hs
      exact .inr rfl
  · cases hs

/-- The edit of the replies is part of a configuration, and nothing else brings one. -/
theorem onDiscoveryRequest_step (hs : s.step srv a = some (s', evs))
    (ha : ∀ config, a ≠ .app (.enableDiscovery config)) :
    s'.discovery.onDiscoveryRequest = s.discovery.onDiscoveryRequest := by
  cases Engine.step_form hs with
  | accepted _ _ _ _ | rejected _ _ _ _ | sentTo _ _ _ | castStarted _ _ _ _ _ => rfl
  | conn _ hstep =>
      rcases hstep.settings with ⟨hsame, -⟩ | ⟨-, sessions, rfl⟩
      · rw [hsame]
      · rfl
  | udp _ hstep => cases hstep <;> rfl
  | castResumed _ hstep =>
      obtain ⟨store, casts, rfl⟩ := Engine.castStep_form hstep
      rfl
  | settings t _ hlabel =>
      rcases hlabel with ⟨call, rfl⟩ | hdiscovery
      · cases call with
        | enableDiscovery config => exact absurd rfl (ha config)
        | disableDiscovery | reenableDiscovery =>
            simp only [Engine.step, Option.some.injEq, Prod.mk.injEq] at hs
            rw [← hs.1]
            rfl
      · rw [(Engine.discovery_kept hs hdiscovery).1]

theorem keepsAction_step (hs : s.step srv a = some (s', evs)) (h : KeepsAction s.discovery)
    (ha : ∀ config, a = .app (.enableDiscovery config) → KeepsAction config) :
    KeepsAction s'.discovery := by
  by_cases happ : ∃ config, a = .app (.enableDiscovery config)
  · obtain ⟨config, rfl⟩ := happ
    simp only [Engine.step, Option.some.injEq, Prod.mk.injEq] at hs
    rw [← hs.1]
    exact ha config rfl
  · intro edit hedit
    rw [onDiscoveryRequest_step hs fun config heq => happ ⟨config, heq⟩] at hedit
    exact h edit hedit

end Engines

/-- What a server sends in its own name. -/
def Message.ofServer (i : Nat) (node : Node) (destination : Option SockAddr) (p : DiscoveryPacket) :
    Message :=
  ⟨some i, node.address, destination, p.bytes⟩

/-- The packet answers the request at the server. -/
structure Answers (node : Node) (m : Message) (p : DiscoveryPacket) : Prop where
  size : packetSize ≤ m.bytes.length
  magic : (DiscoveryPacket.ofBytes (m.bytes.take packetSize)).magicNumber =
    node.engine.discovery.magicNumber
  action : (DiscoveryPacket.ofBytes (m.bytes.take packetSize)).action = clientLookingForServer
  responds : node.engine.discovery.respondToClients = true
  packet : node.engine.discovery.onDiscoveryRequest = none ∧
      p = Engine.discoveryPacket node.server node.engine.discovery ∨
    ∃ edit, node.engine.discovery.onDiscoveryRequest = some edit ∧
      edit m.source (Engine.discoveryPacket node.server node.engine.discovery) = .ok p

inductive StepCase (n : Network) : Label → Network → List Event → Prop
  | client (source : SockAddr) (destination : Option SockAddr) (bytes : Bytes) :
      StepCase n (.client source destination bytes)
        { n with sent := n.sent ++ [⟨none, source, destination, bytes⟩] } []
  | ignored (k i : Nat) : StepCase n (.deliver k i) n []
  | answered {k i : Nat} {m : Message} {node : Node} {engine : Engine} {p : DiscoveryPacket}
      {evs : List Servd.Event} (hm : n.sent[k]? = some m) (hnode : n.nodes[i]? = some node)
      (hengine : node.engine.step node.server (.discoveryRequest m.source
        (.ofBytes (m.bytes.take packetSize))) = some (engine, evs)) (hp : Answers node m p) :
      StepCase n (.deliver k i)
        { n.setEngine i node engine with
          sent := n.sent ++ [.ofServer i node (some m.source) p] }
        [.answered m (.ofServer i node (some m.source) p)]
  | announced {i : Nat} {node : Node} {engine : Engine} {evs : List Servd.Event}
      (hnode : n.nodes[i]? = some node)
      (hengine : node.engine.step node.server .announceTick = some (engine, evs)) :
      StepCase n (.announce i)
        { n.setEngine i node engine with
          sent := n.sent ++
            [.ofServer i node none (Engine.discoveryPacket node.server node.engine.discovery)] }
        [.announced (.ofServer i node none
          (Engine.discoveryPacket node.server node.engine.discovery))]
  | quiet {a : Label} {i : Nat} {node : Node} {engine : Engine} {act : Servd.Label}
      {evs : List Servd.Event} (hnode : n.nodes[i]? = some node)
      (hengine : node.engine.step node.server act = some (engine, evs))
      (hact : ∀ config, act = .app (.enableDiscovery config) → a = .engine i act) :
      StepCase n a (n.setEngine i node engine) []

section Steps

variable {n n' : Network} {a : Label} {evs : List Event}

theorem step_cases (hs : n.step a = some (n', evs)) : StepCase n a n' evs := by
  cases a with
  | client source destination bytes =>
      cases hs
      exact .client source destination bytes
  | deliver k i =>
      simp only [Network.step] at hs
      split at hs
      · rename_i m node hm hnode
        split at hs
        · rw [Network.deliver, receiveDatagram_eq] at hs
          by_cases hshort : m.bytes.length < packetSize
          · simp only [hshort, if_true] at hs
            cases hs
            exact .ignored k i
          · simp only [hshort, if_false, Option.map_eq_some_iff] at hs
            obtain ⟨⟨engine, es⟩, hengine, heq⟩ := hs
            cases heq
            rcases request_cases hengine with rfl | ⟨p, rfl, hmagic, haction, hresponds, hp⟩
            · have hquiet : StepCase n (.deliver k i) (n.setEngine i node engine) [] :=
                .quiet hnode hengine (by simp)
              simpa [Network.setEngine] using hquiet
            · exact .answered hm hnode hengine
                ⟨Nat.le_of_not_lt hshort, hmagic, haction, hresponds, hp⟩
        · cases hs
      · cases hs
  | announce i =>
      simp only [Network.step, Option.bind_eq_some_iff, Option.map_eq_some_iff] at hs
      obtain ⟨node, hnode, ⟨engine, es⟩, hengine, heq⟩ := hs
      cases heq
      rcases announce_cases hengine with rfl | rfl
      · have hquiet : StepCase n (.announce i) (n.setEngine i node engine) [] :=
          .quiet hnode hengine (by simp)
        simpa [Network.setEngine] using hquiet
      · exact .announced hnode hengine
  | engine i act =>
      simp only [Network.step] at hs
      split at hs
      · cases hs
      · simp only [Option.bind_eq_some_iff, Option.map_eq_some_iff] at hs
        obtain ⟨node, hnode, ⟨engine, es⟩, hengine, heq⟩ := hs
        cases heq
        exact .quiet hnode hengine fun _ _ => rfl

end Steps

/-- The message is a packet of a server that makes itself known. -/
def Message.Announces (m : Message) : Prop :=
  ∃ p : DiscoveryPacket, m.bytes = p.bytes ∧ p.action = serverAnnouncing

/-- No edit changes an action, and servers have sent announcements only. -/
structure Inv (n : Network) : Prop where
  hooks : ∀ node ∈ n.nodes, KeepsAction node.engine.discovery
  sent : ∀ m ∈ n.sent, m.server ≠ none → m.Announces

theorem Answers.announces {node : Node} {m : Message} {p : DiscoveryPacket} (h : Answers node m p)
    (hhook : KeepsAction node.engine.discovery) : p.action = serverAnnouncing := by
  rcases h.packet with ⟨-, rfl⟩ | ⟨edit, hedit, hp⟩
  · rfl
  · exact hhook edit hedit _ _ _ hp

/-- What is answered is not from a server. -/
theorem Answers.client {node : Node} {m : Message} {p : DiscoveryPacket} (h : Answers node m p)
    (hm : m.server ≠ none → m.Announces) : m.server = none := by
  by_contra hserver
  obtain ⟨q, hbytes, hq⟩ := hm hserver
  have haction := h.action
  rw [hbytes, List.take_of_length_le (Nat.le_of_eq q.length_bytes), q.ofBytes_bytes, hq] at haction
  cases haction

section Runs

variable {n n' : Network} {a : Label} {evs : List Event}

theorem hooks_setEngine (h : Inv n) {i : Nat} {node : Node} (hnode : n.nodes[i]? = some node)
    {act : Servd.Label} {engine : Engine} {es : List Servd.Event}
    (hengine : node.engine.step node.server act = some (engine, es))
    (hact : ∀ config, act = .app (.enableDiscovery config) → KeepsAction config) :
    ∀ node' ∈ (n.setEngine i node engine).nodes, KeepsAction node'.engine.discovery := by
  intro node' hnode'
  rcases List.mem_or_eq_of_mem_set hnode' with hold | rfl
  · exact h.hooks node' hold
  · exact keepsAction_step hengine (h.hooks node (List.mem_of_getElem? hnode)) hact

theorem sent_snoc (h : Inv n) {m : Message} (hm : m.server ≠ none → m.Announces) :
    ∀ m' ∈ n.sent ++ [m], m'.server ≠ none → m'.Announces := by
  intro m' hm'
  rcases List.mem_append.mp hm' with hm' | hm'
  · exact h.sent m' hm'
  · rw [List.mem_singleton] at hm'
    exact hm' ▸ hm

theorem inv_step (h : Inv n) (ha : Allowed a) (hs : n.step a = some (n', evs)) : Inv n' := by
  cases step_cases hs with
  | client source destination bytes =>
      exact ⟨h.hooks, sent_snoc h fun hserver => absurd rfl hserver⟩
  | ignored k i => exact h
  | answered hm hnode hengine hp =>
      have hhook := h.hooks _ (List.mem_of_getElem? hnode)
      exact ⟨hooks_setEngine h hnode hengine (by simp),
        sent_snoc h fun _ => ⟨_, rfl, hp.announces hhook⟩⟩
  | announced hnode hengine =>
      exact ⟨hooks_setEngine h hnode hengine (by simp), sent_snoc h fun _ => ⟨_, rfl, rfl⟩⟩
  | quiet hnode hengine hact =>
      refine ⟨hooks_setEngine h hnode hengine fun config hconfig => ?_, h.sent⟩
      have hlabel := hact config hconfig
      subst hconfig hlabel
      exact ha

/-- The step brings the message of a client to a server. -/
def asks (x : Step Network Label Event) : Bool :=
  match x.label with
  | .deliver k _ => (x.pre.sent[k]?).any (·.server.isNone)
  | .client _ _ _ | .announce _ | .engine _ _ => false

def isAnswer : Event → Bool
  | .answered _ _ => true
  | .announced _ => false

/-- A step answers one message at most, and that is the message of a client it brings. -/
theorem answers_step (h : Inv n) (hs : n.step a = some (n', evs)) :
    evs.countP isAnswer ≤ [(⟨n, a, evs, n'⟩ : Step Network Label Event)].countP asks ∧
      ∀ request reply, .answered request reply ∈ evs → request.server = none ∧
        ∃ i node p, n.nodes[i]? = some node ∧ Answers node request p ∧
          reply = .ofServer i node (some request.source) p := by
  cases step_cases hs with
  | client _ _ _ | ignored _ _ | quiet _ _ _ => exact ⟨Nat.zero_le _, by simp⟩
  | announced hnode hengine => exact ⟨Nat.zero_le _, by simp⟩
  | @answered k i m node engine p es hm hnode hengine hp =>
      have hclient := hp.client (h.sent m (List.mem_of_getElem? hm))
      refine ⟨by simp [isAnswer, asks, hm, hclient], ?_⟩
      intro request reply hmem
      rw [List.mem_singleton] at hmem
      cases hmem
      exact ⟨hclient, i, node, p, hnode, hp, rfl⟩

end Runs

/-- However many servers share the port, whatever clients send, and however often datagrams come,
late or twice or never, if the edits of the replies leave their action alone: all that servers send
are announcements, a server answers clients only, and there are no more answers than deliveries of
clients' messages. Every answer goes back to where its request came from, with the packet of the
server that gives it. -/
theorem discovery_no_storm (nodes : List Node)
    (hnodes : ∀ node ∈ nodes, KeepsAction node.engine.discovery)
    (tr : List (Step Network Label Event)) (n : Network)
    (h : Trace Network.step { nodes := nodes } tr n) (hallowed : ∀ x ∈ tr, Allowed x.label) :
    (∀ m ∈ n.sent, m.server ≠ none → m.Announces) ∧
      (∀ x ∈ tr, ∀ request reply, .answered request reply ∈ x.events →
        request.server = none ∧ ∃ i node p, x.pre.nodes[i]? = some node ∧
          Answers node request p ∧ reply = .ofServer i node (some request.source) p) ∧
      (eventsOf tr).countP isAnswer ≤ tr.countP asks := by
  have hstart : Inv { nodes := nodes } := ⟨hnodes, by simp⟩
  obtain ⟨hinv, hall⟩ := h.invariant Inv (fun _ a => Allowed a) hstart
    (fun _ _ _ _ hinv ha hs => inv_step hinv ha hs) hallowed
  have hanswers := fun x hx => answers_step (hall x hx).1 (h.step_eq x hx)
  exact ⟨hinv.sent, fun x hx => (hanswers x hx).2,
    countP_eventsOf_le fun x hx => (hanswers x hx).1⟩

/-- Advertise another port. -/
def advertise (port : Int32) : DiscoveryResponder :=
  fun _ reply => .ok { reply with tcpPort := port }

/-- Two servers that announce themselves, of which the second edits its replies. -/
def twoNodes : List Node :=
  [⟨.bare, ⟨1, 9999⟩, .init .bare { activeAnnounceIfIdle := 5 } true⟩,
    ⟨.echo, ⟨2, 9999⟩,
      .init .echo { activeAnnounceIfIdle := 5, onDiscoveryRequest := some (advertise 8080) } true⟩]

/-- A client asks both; the first server's reply reaches the second, and its announcement itself. -/
def twoNodesLabels : List Label :=
  [.client ⟨3, 4000⟩ none (DiscoveryPacket.bytes ⟨0x53525644, clientLookingForServer, 0, 0⟩),
    .deliver 0 0, .deliver 0 1, .deliver 1 1, .announce 0, .deliver 3 0]

theorem discovery_no_storm_two : ∃ tr n, Trace Network.step { nodes := twoNodes } tr n ∧
    n.sent.length = 4 ∧ (eventsOf tr).countP isAnswer = 2 ∧
    (∃ m ∈ n.sent, m.server = some 1 ∧ (DiscoveryPacket.ofBytes m.bytes).tcpPort = 8080) ∧
    (∀ m ∈ n.sent, m.server ≠ none → m.Announces) ∧
    (eventsOf tr).countP isAnswer ≤ tr.countP asks := by
  obtain ⟨⟨tr, n⟩, hexec, hlength, hanswers, hedited⟩ :
      ∃ r ∈ exec Network.step { nodes := twoNodes } twoNodesLabels,
        r.2.sent.length = 4 ∧ (eventsOf r.1).countP isAnswer = 2 ∧
        ∃ m ∈ r.2.sent, m.server = some 1 ∧ (DiscoveryPacket.ofBytes m.bytes).tcpPort = 8080 := by
    decide +kernel
  have htr := trace_of_exec hexec
  have hnodes : ∀ node ∈ twoNodes, KeepsAction node.engine.discovery := by
    intro node hnode edit hedit
    simp only [twoNodes, List.mem_cons, List.not_mem_nil, or_false] at hnode
    rcases hnode with rfl | rfl
    · cases hedit
    · cases hedit
      rintro client reply reply' ⟨⟩
      rfl
  have hallowed : ∀ a ∈ twoNodesLabels, Allowed a := by simp [twoNodesLabels, Allowed]
  obtain ⟨hannounces, -, hcount⟩ := discovery_no_storm twoNodes hnodes tr n htr fun x hx =>
    hallowed x.label (labels_of_exec hexec ▸ List.mem_map_of_mem hx)
  exact ⟨tr, n, htr, hlength, hanswers, hedited, hannounces, hcount⟩

end Discovery

end Servd
