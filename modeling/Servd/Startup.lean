import Servd.Engine
import Servd.Logger
import Mathlib.Algebra.GroupWithZero.Nat

/-!
`Server::init`. The listeners are set up one after the other and each starts its loop at once, so
an exception finds some of them running already. What runs then, and which descriptors are
open, is a matter of the stage that failed: everything before it is there, its own socket is
left open if there is one, and nothing after it has been touched.
-/
namespace Servd.Startup

open Coroutine

inductive SocketKind
  | tcp | unix | udp
  deriving DecidableEq

inductive Address
  | inet (port : UInt16)
  | unix (sunPath : Bytes)
  deriving DecidableEq

inductive Bus
  | session | system
  deriving DecidableEq

/-- The detached coroutines of the engine. -/
inductive Loop
  | accept (fd : Int) (mode : ProtocolMode)
  | timer (interval : Int)
  | busMonitor (bus : Bus)
  | udp (fd : Int)
  | discovery (fd : Int)
  | announce (interval : Int)
  deriving DecidableEq

/-- The calls of the system, and the calls that start a loop. -/
inductive SysOp
  | socket (kind : SocketKind)
  | unlink (path : Bytes)
  | bind (fd : Int) (address : Address)
  | listen (fd : Int)
  | start (loop : Loop)

def SysOp.Ans : SysOp → Type
  | .socket _ | .bind _ _ | .listen _ => Int
  | .unlink _ | .start _ => Unit

/-- The exceptions are `std::runtime_error` with these messages. -/
abbrev Init := Coro SysOp SysOp.Ans Bytes

/-- What is there so far. -/
structure Running where
  opened : List Int := []
  loops : List Loop := []

/-- The results of the system are supplied from outside. -/
def system : Semantics SysOp SysOp.Ans Running Int Unit where
  answer r o a :=
    match o with
    | .socket _ => (a, if 0 ≤ a then { r with opened := r.opened ++ [a] } else r, [])
    | .bind _ _ | .listen _ => (a, r, [])
    | .unlink _ => ((), r, [])
    | .start loop => ((), { r with loops := r.loops ++ [loop] }, [])

/-- What the application has set up before `init()`, as far as it reads it. -/
structure Setup where
  tcpPorts : List (UInt16 × ProtocolMode) := []
  unixPaths : List (Bytes × ProtocolMode) := []
  -- the intervals of the periodic tasks, in milliseconds
  periodicTasks : List Int := []
  sessionBus : Bool := false
  systemBus : Bool := false
  udpPorts : List UInt16 := []
  discovery : DiscoveryConfig := {}
  discoveryEnabled : Bool := false

/-- A negative result is thrown. -/
def check (message : Bytes) (result : Int) : Init Int :=
  if result < 0 then .throw message else .ret result

def socket (kind : SocketKind) (message : Bytes) : Init Int := .call (.socket kind) (check message)

def bind (fd : Int) (address : Address) (message : Bytes) : Init Int :=
  .call (.bind fd address) (check message)

def listen (fd : Int) (message : Bytes) : Init Int := .call (.listen fd) (check message)

def start (loop : Loop) : Init Unit := .call (.start loop) .ret

def forEach {α : Type} (f : α → Init Unit) : List α → Init Unit
  | [] => .ret ()
  | x :: xs => f x >>= fun _ => forEach f xs

/-- `strncpy` of a path of a C string into the zeroed `sun_path` of 108 bytes. -/
def sunPath (path : Bytes) : Bytes := (path.takeWhile (· ≠ 0)).take 107

def initTcpSocket (port : UInt16) (mode : ProtocolMode) : Init Unit := do
  let fd ← socket .tcp (ascii "Failed to create TCP socket")
  let _ ← bind fd (.inet port) (ascii "bind() failed on TCP port " ++ Bytes.decimal port.toNat)
  let _ ← listen fd (ascii "listen() failed on TCP socket")
  start (.accept fd mode)

def initUnixSocket (path : Bytes) (mode : ProtocolMode) : Init Unit := do
  let fd ← socket .unix (ascii "Failed to create UNIX socket")
  .call (.unlink path) fun _ => do
    let _ ← bind fd (.unix (sunPath path)) (ascii "bind() failed on UNIX socket " ++ path)
    let _ ← listen fd (ascii "listen() failed on UNIX socket")
    start (.accept fd mode)

def initUdpSocket (port : UInt16) : Init Unit := do
  let fd ← socket .udp (ascii "Failed to create UDP socket")
  let _ ← bind fd (.inet port) (ascii "bind() failed on UDP port " ++ Bytes.decimal port.toNat)
  start (.udp fd)

/-- `duration_cast` from seconds to milliseconds. -/
def announceInterval (config : DiscoveryConfig) : Int := 1000 * config.activeAnnounceIfIdle

def discoverySocket (config : DiscoveryConfig) : Init Unit := do
  let fd ← socket .udp (ascii "Failed to create discovery UDP socket")
  let _ ← bind fd (.inet config.broadcastPort)
    (ascii "bind() failed on discovery port " ++ Bytes.decimal config.broadcastPort.toNat)
  start (.discovery fd)
  if 0 < config.activeAnnounceIfIdle then start (.announce (announceInterval config))

namespace Setup

def initTcpSockets (s : Setup) : Init Unit := forEach (fun x => initTcpSocket x.1 x.2) s.tcpPorts

def initUnixSockets (s : Setup) : Init Unit := forEach (fun x => initUnixSocket x.1 x.2) s.unixPaths

def initPeriodicTasks (s : Setup) : Init Unit :=
  forEach (fun interval => start (.timer interval)) s.periodicTasks

def initDbus (s : Setup) : Init Unit := do
  if s.sessionBus then start (.busMonitor .session)
  if s.systemBus then start (.busMonitor .system)

def initUdpSockets (s : Setup) : Init Unit := forEach initUdpSocket s.udpPorts

def initDiscovery (s : Setup) : Init Unit :=
  if ¬ s.discoveryEnabled ∨ s.discovery.broadcastPort = 0 then pure ()
  else discoverySocket s.discovery

/-- `Server::init`; the defaults for the store and the authenticator are made before, and cannot
fail. -/
def init (s : Setup) : Init Unit := do
  s.initTcpSockets
  s.initUnixSockets
  s.initPeriodicTasks
  s.initDbus
  s.initUdpSockets
  s.initDiscovery

end Setup

/-- One thing after the other, in the order of `init`. -/
inductive Stage
  | tcp (port : UInt16) (mode : ProtocolMode)
  | unix (path : Bytes) (mode : ProtocolMode)
  | timer (interval : Int)
  | bus (which : Bus)
  | udp (port : UInt16)
  | discovery (config : DiscoveryConfig)

namespace Stage

def run : Stage → Init Unit
  | .tcp port mode => initTcpSocket port mode
  | .unix path mode => initUnixSocket path mode
  | .timer interval => start (.timer interval)
  | .bus which => start (.busMonitor which)
  | .udp port => initUdpSocket port
  | .discovery config => discoverySocket config

/-- The loops of the stage on its socket. -/
def loops (fd : Int) : Stage → List Loop
  | .tcp _ mode | .unix _ mode => [.accept fd mode]
  | .timer interval => [.timer interval]
  | .bus which => [.busMonitor which]
  | .udp _ => [.udp fd]
  | .discovery config =>
      .discovery fd :: if 0 < config.activeAnnounceIfIdle then [.announce (announceInterval config)]
        else []

/-- What the stage says when it gets no socket. -/
def socketMessage : Stage → Option Bytes
  | .tcp _ _ => some (ascii "Failed to create TCP socket")
  | .unix _ _ => some (ascii "Failed to create UNIX socket")
  | .udp _ => some (ascii "Failed to create UDP socket")
  | .discovery _ => some (ascii "Failed to create discovery UDP socket")
  | .timer _ | .bus _ => none

/-- What the stage says when it cannot use its socket. -/
def messages : Stage → List Bytes
  | .tcp port _ => [ascii "bind() failed on TCP port " ++ Bytes.decimal port.toNat,
      ascii "listen() failed on TCP socket"]
  | .unix path _ => [ascii "bind() failed on UNIX socket " ++ path,
      ascii "listen() failed on UNIX socket"]
  | .udp port => [ascii "bind() failed on UDP port " ++ Bytes.decimal port.toNat]
  | .discovery config =>
      [ascii "bind() failed on discovery port " ++ Bytes.decimal config.broadcastPort.toNat]
  | .timer _ | .bus _ => []

end Stage

/-- The stages of a setup. -/
def Setup.plan (s : Setup) : List Stage :=
  s.tcpPorts.map (fun x => .tcp x.1 x.2) ++ s.unixPaths.map (fun x => .unix x.1 x.2) ++
    s.periodicTasks.map .timer ++ (if s.sessionBus then [.bus .session] else []) ++
    (if s.systemBus then [.bus .system] else []) ++ s.udpPorts.map .udp ++
    if ¬ s.discoveryEnabled ∨ s.discovery.broadcastPort = 0 then [] else [.discovery s.discovery]

section Plan

variable {α β : Type}

theorem forEach_append (f : α → Init Unit) (xs ys : List α) :
    forEach f (xs ++ ys) = forEach f xs >>= fun _ => forEach f ys := by
  induction xs with
  | nil => rfl
  | cons x xs ih =>
      rw [List.cons_append, forEach, forEach, Coro.bind_assoc]
      exact congrArg (f x >>= ·) (funext fun _ => ih)

theorem forEach_map (f : β → Init Unit) (g : α → β) (xs : List α) :
    forEach f (xs.map g) = forEach (fun x => f (g x)) xs := by
  induction xs with
  | nil => rfl
  | cons x xs ih =>
      rw [List.map_cons, forEach, forEach, ih]

theorem forEach_singleton (f : α → Init Unit) (x : α) : forEach f [x] = f x :=
  Coro.bind_ret (f x)

theorem forEach_ite (f : α → Init Unit) (p : Prop) [Decidable p] (x : α) :
    forEach f (if p then [x] else []) = if p then f x else .ret () := by
  split
  · exact forEach_singleton f x
  · rfl

theorem init_eq_plan (s : Setup) : s.init = forEach Stage.run s.plan := by
  have hdiscovery : forEach Stage.run (if ¬ s.discoveryEnabled ∨ s.discovery.broadcastPort = 0 then []
      else [.discovery s.discovery]) = s.initDiscovery := by
    rw [Setup.initDiscovery]
    split
    · rfl
    · exact forEach_singleton _ _
  simp only [Setup.plan, forEach_append, forEach_map, forEach_ite, Coro.bind_assoc, hdiscovery]
  rw [Setup.init, Setup.initDbus]
  generalize s.sessionBus = sessionBus
  cases sessionBus <;> rfl

end Plan

/-- How a stage ends: the descriptors it has opened and the loops it has started. -/
inductive StageEnd (stage : Stage) : Option Int → List Loop → Except Bytes Unit → Prop
  | started (fd : Int) (hfd : 0 ≤ fd) (hsocket : stage.socketMessage.isSome) :
      StageEnd stage (some fd) (stage.loops fd) (.ok ())
  | plain (hnone : stage.socketMessage = none) (fd : Int) :
      StageEnd stage none (stage.loops fd) (.ok ())
  | noSocket (message : Bytes) (hmessage : stage.socketMessage = some message) :
      StageEnd stage none [] (.error message)
  | leaked (fd : Int) (hfd : 0 ≤ fd) (message : Bytes) (hmessage : message ∈ stage.messages) :
      StageEnd stage (some fd) [] (.error message)

/-- What is there at the end, and how the end was. -/
def after (c : Init Unit) (r : Running) (stream : Nat → Int) : Running × Except Bytes Unit :=
  ((exec system c r stream).state, (exec system c r stream).result)

section After

variable (r : Running) (stream : Nat → Int) (message : Bytes) (f : Int → Init Unit)

theorem after_check (result : Int) : after (check message result >>= f) r stream =
    if result < 0 then (r, .error message) else after (f result) r stream := by
  rw [check]
  split <;> rfl

theorem after_socket (kind : SocketKind) : after (socket kind message >>= f) r stream =
    if stream 0 < 0 then (r, .error message)
    else after (f (stream 0)) { r with opened := r.opened ++ [stream 0] }
      fun n => stream (n + 1) := by
  have hcall : after (socket kind message >>= f) r stream =
      after (check message (stream 0) >>= f)
        (if 0 ≤ stream 0 then { r with opened := r.opened ++ [stream 0] } else r)
        fun n => stream (n + 1) := rfl
  rw [hcall, after_check]
  split
  · rw [if_neg (by omega)]
  · rw [if_pos (by omega)]

theorem after_bind (fd : Int) (address : Address) :
    after (bind fd address message >>= f) r stream =
      if stream 0 < 0 then (r, .error message) else after (f (stream 0)) r fun n => stream (n + 1) :=
  after_check r _ message f (stream 0)

theorem after_listen (fd : Int) :
    after (listen fd message >>= f) r stream =
      if stream 0 < 0 then (r, .error message) else after (f (stream 0)) r fun n => stream (n + 1) :=
  after_check r _ message f (stream 0)

theorem after_start (loop : Loop) (c : Init Unit) :
    after (start loop >>= fun _ => c) r stream =
      after c { r with loops := r.loops ++ [loop] } fun n => stream (n + 1) :=
  rfl

end After

/-- After its socket a stage checks its calls and starts its loops. -/
theorem stage_run (stage : Stage) (r : Running) (stream : Nat → Int) :
    ∃ opened loops result, StageEnd stage opened loops result ∧
      after stage.run r stream = (⟨r.opened ++ opened.toList, r.loops ++ loops⟩, result) := by
  cases stage with
  | timer interval => exact ⟨none, _, _, .plain rfl 0, by rw [Option.toList_none, List.append_nil]; rfl⟩
  | bus which => exact ⟨none, _, _, .plain rfl 0, by rw [Option.toList_none, List.append_nil]; rfl⟩
  | udp port =>
      simp only [Stage.run, initUdpSocket, after_socket, after_bind]
      split
      · exact ⟨none, _, _, .noSocket _ rfl, by simp⟩
      · split
        · exact ⟨some (stream 0), _, _, .leaked _ (by omega) _ (List.mem_singleton_self _), by simp⟩
        · exact ⟨some (stream 0), _, _, .started _ (by omega) rfl, rfl⟩
  | tcp port mode =>
      simp only [Stage.run, initTcpSocket, after_socket, after_bind, after_listen]
      split
      · exact ⟨none, _, _, .noSocket _ rfl, by simp⟩
      · split
        · exact ⟨some (stream 0), _, _, .leaked _ (by omega) _ List.mem_cons_self, by simp⟩
        · split
          · exact ⟨some (stream 0), _, _, .leaked _ (by omega) _
              (List.mem_cons_of_mem _ (List.mem_singleton_self _)), by simp⟩
          · exact ⟨some (stream 0), _, _, .started _ (by omega) rfl, rfl⟩
  | unix path mode =>
      have hunlink : ∀ (c : Init Unit) (r : Running) (stream : Nat → Int),
          after (.call (.unlink path) fun _ => c) r stream = after c r fun n => stream (n + 1) :=
        fun _ _ _ => rfl
      simp only [Stage.run, initUnixSocket, after_socket, hunlink, after_bind, after_listen]
      split
      · exact ⟨none, _, _, .noSocket _ rfl, by simp⟩
      · split
        · exact ⟨some (stream 0), _, _, .leaked _ (by omega) _ List.mem_cons_self, by simp⟩
        · split
          · exact ⟨some (stream 0), _, _, .leaked _ (by omega) _
              (List.mem_cons_of_mem _ (List.mem_singleton_self _)), by simp⟩
          · exact ⟨some (stream 0), _, _, .started _ (by omega) rfl, rfl⟩
  | discovery config =>
      simp only [Stage.run, discoverySocket, after_socket, after_bind]
      split
      · exact ⟨none, _, _, .noSocket _ rfl, by simp⟩
      · split
        · exact ⟨some (stream 0), _, _, .leaked _ (by omega) _ (List.mem_singleton_self _), by simp⟩
        · refine ⟨some (stream 0), _, _, .started _ (by omega) rfl, ?_⟩
          rw [after_start]
          by_cases hannounce : 0 < config.activeAnnounceIfIdle
          · simp only [Stage.loops, if_pos hannounce, Option.toList_some]
            rw [List.append_cons r.loops (.discovery (stream 0)) [.announce (announceInterval config)]]
            rfl
          · simp only [Stage.loops, if_neg hannounce, Option.toList_some]
            rfl

/-- A stage that has come to its end, with its socket if it needs one. -/
structure Done where
  stage : Stage
  socket : Option Int

def Done.loops (d : Done) : List Loop := d.stage.loops (d.socket.getD (-1))

structure Done.Sound (d : Done) : Prop where
  socket : d.socket.isSome = d.stage.socketMessage.isSome
  nonneg : ∀ fd ∈ d.socket, 0 ≤ fd

/-- What a run through some stages leaves: all of them are done, or some are done and the next one
has failed. -/
inductive Outcome (r : Running) (stages : List Stage) : Running → Except Bytes Unit → Prop
  | complete (done : List Done) (hdone : ∀ d ∈ done, d.Sound) (hall : done.map (·.stage) = stages) :
      Outcome r stages ⟨r.opened ++ done.filterMap (·.socket), r.loops ++ done.flatMap (·.loops)⟩
        (.ok ())
  | failed (done : List Done) (hdone : ∀ d ∈ done, d.Sound) (stage : Stage) (rest : List Stage)
      (hstages : stages = done.map (·.stage) ++ stage :: rest) (leaked : Option Int)
      (message : Bytes) (hstage : StageEnd stage leaked [] (.error message)) :
      Outcome r stages
        ⟨r.opened ++ (done.filterMap (·.socket) ++ leaked.toList), r.loops ++ done.flatMap (·.loops)⟩
        (.error message)

/-- A stage that starts its loops is done. -/
theorem StageEnd.done {stage : Stage} {opened : Option Int} {loops : List Loop}
    (h : StageEnd stage opened loops (.ok ())) :
    (⟨stage, opened⟩ : Done).Sound ∧ loops = (⟨stage, opened⟩ : Done).loops := by
  cases h with
  | started fd hfd hsocket => exact ⟨⟨hsocket.symm, by simpa using hfd⟩, rfl⟩
  | plain hnone fd =>
      refine ⟨⟨by rw [hnone]; rfl, by simp⟩, ?_⟩
      cases stage with
      | timer _ | bus _ => rfl
      | tcp _ _ | unix _ _ | udp _ | discovery _ => cases hnone

theorem StageEnd.noLoops {stage : Stage} {opened : Option Int} {loops : List Loop}
    {message : Bytes} (h : StageEnd stage opened loops (.error message)) : loops = [] := by
  cases h <;> rfl

theorem Outcome.cons {r : Running} {stage : Stage} {stages : List Stage} {opened : Option Int}
    {loops : List Loop} {s : Running} {result : Except Bytes Unit}
    (hstage : StageEnd stage opened loops (.ok ()))
    (h : Outcome ⟨r.opened ++ opened.toList, r.loops ++ loops⟩ stages s result) :
    Outcome r (stage :: stages) s result := by
  obtain ⟨hsound, rfl⟩ := hstage.done
  have hall : ∀ {done : List Done}, (∀ d ∈ done, d.Sound) → ∀ d ∈ (⟨stage, opened⟩ : Done) :: done, d.Sound := by
    intro done hdone d hd
    rcases List.mem_cons.mp hd with rfl | hd
    · exact hsound
    · exact hdone d hd
  have hopened : ∀ done : List Done, ((⟨stage, opened⟩ : Done) :: done).filterMap (·.socket) =
      opened.toList ++ done.filterMap (·.socket) := by
    intro done
    cases opened <;> rfl
  cases h with
  | complete done hdone hstages =>
      have hwhole := Outcome.complete (r := r) _ (hall hdone) (congrArg (stage :: ·) hstages)
      simpa only [hopened, List.flatMap_cons, List.append_assoc] using hwhole
  | failed done hdone failing rest hstages leaked message hfailing =>
      have hwhole := Outcome.failed (r := r) _ (hall hdone) failing rest
        (congrArg (stage :: ·) hstages) leaked message hfailing
      simpa only [hopened, List.flatMap_cons, List.append_assoc] using hwhole

theorem outcome_forEach (stages : List Stage) (r : Running) (stream : Nat → Int) :
    Outcome r stages (after (forEach Stage.run stages) r stream).1
      (after (forEach Stage.run stages) r stream).2 := by
  induction stages generalizing r stream with
  | nil =>
      have hnone : Outcome r [] _ _ := .complete [] (by simp) rfl
      simp only [List.filterMap_nil, List.flatMap_nil, List.append_nil] at hnone
      exact hnone
  | cons stage stages ih =>
      obtain ⟨opened, loops, result, hend, hafter⟩ := stage_run stage r stream
      have hstate : (exec system stage.run r stream).state = _ := congrArg Prod.fst hafter
      have hresult : (exec system stage.run r stream).result = result := congrArg Prod.snd hafter
      rw [forEach, after]
      cases result with
      | ok u =>
          rw [exec_bind_of_ok _ _ _ _ hresult]
          simp only [Execution.andThen, hstate]
          exact Outcome.cons hend (ih _ _)
      | error message =>
          rw [exec_bind_of_error _ _ _ _ hresult]
          simp only [Execution.andThen, hstate, hend.noLoops]
          have hfailed : Outcome r (stage :: stages) _ _ :=
            .failed [] (by simp) stage stages rfl opened message (hend.noLoops ▸ hend)
          simpa only [List.filterMap_nil, List.flatMap_nil, List.append_nil, List.nil_append]
            using hfailed

/-! The engine's first state. -/

namespace Loop

def isUdp : Loop → Bool
  | .udp _ => true
  | _ => false

def isDiscovery : Loop → Bool
  | .discovery _ => true
  | _ => false

def isAnnounce : Loop → Bool
  | .announce _ => true
  | _ => false

end Loop

/-- The loops are those that the engine starts with. -/
structure Agrees (loops : List Loop) (e : Engine) : Prop where
  udp : loops.countP Loop.isUdp = e.udpLoops.length
  discovery : loops.countP Loop.isDiscovery = e.discoveryLoop.toNat
  announce : loops.countP Loop.isAnnounce = e.announceLoop.toNat

section Counting

variable (p : Loop → Bool) (weight : Stage → Nat)

/-- A kind of loop that every stage starts a fixed number of, whatever its socket is. -/
def Counted : Prop := ∀ stage fd, (Stage.loops fd stage).countP p = weight stage

theorem countP_loops {p : Loop → Bool} {weight : Stage → Nat} (hcounted : Counted p weight)
    (done : List Done) :
    (done.flatMap (·.loops)).countP p = ((done.map (·.stage)).map weight).sum := by
  induction done with
  | nil => rfl
  | cons d done ih =>
      rw [List.flatMap_cons, List.countP_append, ih, List.map_cons, List.map_cons, List.sum_cons]
      exact congrArg (· + _) (hcounted d.stage _)

theorem counted_udp : Counted Loop.isUdp fun
    | .udp _ => 1
    | _ => 0 := by
  intro stage fd
  cases stage with
  | tcp _ _ | unix _ _ | timer _ | bus _ | udp _ => rfl
  | discovery config =>
      simp only [Stage.loops]
      split <;> rfl

theorem counted_discovery : Counted Loop.isDiscovery fun
    | .discovery _ => 1
    | _ => 0 := by
  intro stage fd
  cases stage with
  | tcp _ _ | unix _ _ | timer _ | bus _ | udp _ => rfl
  | discovery config =>
      simp only [Stage.loops]
      split <;> rfl

theorem counted_announce : Counted Loop.isAnnounce fun
    | .discovery config => if 0 < config.activeAnnounceIfIdle then 1 else 0
    | _ => 0 := by
  intro stage fd
  cases stage with
  | tcp _ _ | unix _ _ | timer _ | bus _ | udp _ => rfl
  | discovery config =>
      simp only [Stage.loops]
      split <;> rfl

theorem sum_plan (s : Setup) :
    (s.plan.map weight).sum = (s.tcpPorts.map fun x => weight (.tcp x.1 x.2)).sum +
      (s.unixPaths.map fun x => weight (.unix x.1 x.2)).sum +
      (s.periodicTasks.map fun interval => weight (.timer interval)).sum +
      (if s.sessionBus then weight (.bus .session) else 0) +
      (if s.systemBus then weight (.bus .system) else 0) +
      (s.udpPorts.map fun port => weight (.udp port)).sum +
      if ¬ s.discoveryEnabled ∨ s.discovery.broadcastPort = 0 then 0
      else weight (.discovery s.discovery) := by
  simp only [Setup.plan, List.map_append, List.sum_append, List.map_map]
  congr 1
  · congr 1
    congr 1
    · congr 1
      cases s.sessionBus <;> rfl
    · cases s.systemBus <;> rfl
  · split <;> rfl

end Counting

/-- The engine's first state for a server that was set up so. -/
def Setup.engine (s : Setup) (srv : Server) : Engine :=
  Engine.init { srv with udpPorts := s.udpPorts } s.discovery s.discoveryEnabled

theorem complete_agrees (s : Setup) (srv : Server) (done : List Done)
    (hall : done.map (·.stage) = s.plan) :
    Agrees (done.flatMap (·.loops)) (s.engine srv) where
  udp := by
    rw [countP_loops counted_udp, hall, sum_plan]
    simp [Setup.engine, Engine.init]
  discovery := by
    rw [countP_loops counted_discovery, hall, sum_plan]
    by_cases henabled : s.discoveryEnabled <;> by_cases hport : s.discovery.broadcastPort = 0 <;>
      simp [Setup.engine, Engine.init, henabled, hport]
  announce := by
    rw [countP_loops counted_announce, hall, sum_plan]
    by_cases henabled : s.discoveryEnabled <;> by_cases hport : s.discovery.broadcastPort = 0 <;>
      by_cases hidle : 0 < s.discovery.activeAnnounceIfIdle <;>
      simp [Setup.engine, Engine.init, henabled, hport, hidle]

/-- Whatever the system answers, `init` leaves the first stages running and stops at the first
that fails; without an exception the engine's first state has the loops that were started. -/
theorem init_stops_at_first_failure (s : Setup) (srv : Server) (stream : Nat → Int) :
    Outcome {} s.plan (after s.init {} stream).1 (after s.init {} stream).2 ∧
      ((after s.init {} stream).2 = .ok () →
        Agrees (after s.init {} stream).1.loops (s.engine srv)) := by
  have houtcome : Outcome {} s.plan (after s.init {} stream).1 (after s.init {} stream).2 := by
    rw [init_eq_plan]
    exact outcome_forEach s.plan {} stream
  refine ⟨houtcome, fun hok => ?_⟩
  rw [hok] at houtcome
  generalize (after s.init {} stream).1 = running at houtcome
  cases houtcome with
  | complete done hdone hall => exact complete_agrees s srv done hall

/-- One TCP port and one UDP port. -/
def small : Setup where
  tcpPorts := [(7000, .binary)]
  udpPorts := [7001]

def systemAnswers (answers : List Int) (n : Nat) : Int := answers.getD n 0

/-- With the UDP port in use the TCP listener runs on, and the UDP socket stays open. -/
theorem init_stops_at_first_failure_small :
    Outcome {} small.plan ⟨[3, 4], [.accept 3 .binary]⟩
        (.error (ascii "bind() failed on UDP port " ++ Bytes.decimal 7001)) ∧
      Agrees [.accept 3 .binary, .udp 4] (small.engine Server.bare) := by
  have hbusy : after small.init {} (systemAnswers [3, 0, 0, 0, 4, -98]) =
      (⟨[3, 4], [.accept 3 .binary]⟩,
        .error (ascii "bind() failed on UDP port " ++ Bytes.decimal 7001)) := rfl
  have hfree : after small.init {} (systemAnswers [3, 0, 0, 0, 4, 0]) =
      (⟨[3, 4], [.accept 3 .binary, .udp 4]⟩, .ok ()) := rfl
  constructor
  · have houtcome := (init_stops_at_first_failure small Server.bare
      (systemAnswers [3, 0, 0, 0, 4, -98])).1
    rw [hbusy] at houtcome
    exact houtcome
  · have hagrees := (init_stops_at_first_failure small Server.bare
      (systemAnswers [3, 0, 0, 0, 4, 0])).2
    rw [hfree] at hagrees
    exact hagrees rfl

end Servd.Startup
