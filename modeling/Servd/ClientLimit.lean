import Servd.Cleanup

/-!
The client limit. The check and the increment are in different coroutines, but an
accepted connection's coroutine starts at once and counts itself before anything
else runs. The counter may stay too high, when a coroutine ends before it takes
itself off, and is never too low. Discovery is switched off where a client is turned
away, which is where the counter stands at the limit, and switched on again by the
next decrement.
-/
namespace Servd

open Transition

/-- The application changes the discovery settings itself. -/
def Label.isApp : Label → Bool
  | .app _ => true
  | .accept _ _ | .work _ _ | .sendTo _ _ _ | .broadcast _ _ _ _ | .resumeCast _ _
  | .discoveryRequest _ _ | .announceTick => false

namespace Engine

/-- Every coroutine that has not ended is counted. -/
def Counted (s : Engine) : Prop :=
  (s.conns.countP fun c => !c.hasEnded) ≤ s.activeConnections

/-- What a step of a connection does to the counter and to the discovery settings: nothing, or
what the end of the coroutine's code does. -/
inductive CounterCase (srv : Server) (s : Engine) (i : Nat) (c : Conn) : Engine → Prop
  | kept {s' : Engine} (c' : Conn) (hconns : s'.conns = s.conns.set i c')
      (hactive : s'.activeConnections = s.activeConnections)
      (hdiscovery : s'.discovery = s.discovery)
      (henabled : s'.discoveryEnabled = s.discoveryEnabled) : CounterCase srv s i c s'
  | finished (sessions : UnorderedMap UInt64 Fd) :
      CounterCase srv s i c (finish srv { s with sessions := sessions } i c)

theorem ConnStep.counterCase {srv : Server} {s s' : Engine} {i : Nat} {c : Conn} {act : Act}
    {evs : List Event} (h : ConnStep srv s i c act s' evs) : CounterCase srv s i c s' := by
  cases h with
  | frame _ _ | load _ _ | progress _ _ _ _ _ _ | save _ _ _ | notify _ _ _ _ _
  | noPool _ _ _ _ _ | escape _ _ _ | notifyFailed _ _ => exact .kept _ rfl rfl rfl rfl
  | leave e hf he hn => exact .finished _
  | notified hp => exact .finished s.sessions

section Step

variable {srv : Server} {s s' : Engine} {a : Label} {evs : List Event}

theorem ConnStep.active_pos {i : Nat} {c : Conn} {act : Act} (h : ConnStep srv s i c act s' evs)
    (hcounted : s.Counted) (hc : s.conns[i]? = some c) : 0 < s.activeConnections := by
  obtain ⟨-, -, -, -, -, hlive, -⟩ := h.conns_eq
  have hpos : 0 < s.conns.countP fun c => !c.hasEnded :=
    List.countP_pos_iff.mpr ⟨c, List.mem_of_getElem? hc, by simp [hlive]⟩
  exact Nat.lt_of_lt_of_le hpos hcounted

theorem counted_step (h : s.Counted) (hs : s.step srv a = some (s', evs)) : s'.Counted := by
  cases step_cases hs with
  | accepted mode fd hfd hroom =>
      have hnew : [({ fd := fd, mode := mode } : Conn)].countP (fun c => !c.hasEnded) = 1 := rfl
      unfold Counted at h ⊢
      rw [List.countP_append, hnew]
      exact Nat.add_le_add_right h 1
  | rejected mode fd hfd hfull => exact h
  | aside hconns _ hactive _ =>
      unfold Counted at h ⊢
      rw [hconns, hactive]
      exact h
  | @conn i c act _ _ hc hstep =>
      have hpos := hstep.active_pos h hc
      obtain ⟨-, -, -, -, -, hlive, -⟩ := hstep.conns_eq
      unfold Counted at h ⊢
      cases hstep.counterCase with
      | kept c' hconns hactive _ _ =>
          have hcount := countP_conns_set c' hc hlive
          have hone : (if c'.hasEnded then 0 else 1) ≤ 1 := by split <;> omega
          rw [hconns, hactive]
          omega
      | finished sessions =>
          have hcount : (List.countP (fun c => !c.hasEnded) (s.conns.set i { c with
              phase := .ended, closes := c.closes + 1, decrements := c.decrements + 1 })) + 1 =
              s.conns.countP fun c => !c.hasEnded := countP_conns_set _ hc hlive
          have hdecrement : decrement s.activeConnections = s.activeConnections - 1 :=
            if_neg (by omega)
          simp only [finish, hdecrement]
          omega

/-- The discovery loop and the announcements only read the settings. -/
theorem discovery_kept (hs : s.step srv a = some (s', evs))
    (ha : (∃ client req, a = .discoveryRequest client req) ∨ a = .announceTick) :
    s'.discovery = s.discovery ∧ s'.discoveryEnabled = s.discoveryEnabled := by
  rcases ha with ⟨client, req, rfl⟩ | rfl
  · simp only [step] at hs
    split at hs
    · simp only [Option.some.injEq, discoveryStep] at hs
      split at hs
      · cases hs
        exact ⟨rfl, rfl⟩
      · split at hs
        · cases hs
          exact ⟨rfl, rfl⟩
        · split at hs <;> cases hs <;> exact ⟨rfl, rfl⟩
    · cases hs
  · simp only [step] at hs
    split at hs
    · split at hs <;> cases hs <;> exact ⟨rfl, rfl⟩
    · cases hs

/-- What holds of the counter and of the discovery settings under a client limit. -/
structure WithinLimit (srv : Server) (s : Engine) : Prop where
  bound : s.activeConnections ≤ srv.maxClients
  mirrored : s.discoveryEnabled = s.discovery.respondToClients
  suppressed : s.discovery.respondToClients = false → s.activeConnections = srv.maxClients

theorem withinLimit_finish {i : Nat} {c : Conn} (sessions : UnorderedMap UInt64 Fd)
    (h : WithinLimit srv s) (hlimit : 0 < srv.maxClients) (hpos : 0 < s.activeConnections) :
    WithinLimit srv (finish srv { s with sessions := sessions } i c) := by
  have hbound := h.bound
  have hdecrement : decrement s.activeConnections = s.activeConnections - 1 :=
    if_neg (by omega)
  have hroom : s.activeConnections - 1 < srv.maxClients := by omega
  refine ⟨?_, ?_, ?_⟩
  · simp only [finish, hdecrement]
    omega
  · cases hrespond : s.discovery.respondToClients with
    | true => simp [finish, hrespond, h.mirrored]
    | false => simp [finish, hrespond, hdecrement, hlimit, hroom]
  · cases hrespond : s.discovery.respondToClients with
    | true => simp [finish, hrespond]
    | false => simp [finish, hrespond, hdecrement, hlimit, hroom]

theorem WithinLimit.of_eq (h : WithinLimit srv s)
    (hactive : s'.activeConnections = s.activeConnections)
    (hdiscovery : s'.discovery = s.discovery)
    (henabled : s'.discoveryEnabled = s.discoveryEnabled) : WithinLimit srv s' := by
  refine ⟨by rw [hactive]; exact h.bound, ?_, ?_⟩
  · rw [hdiscovery, henabled]
    exact h.mirrored
  · rw [hdiscovery, hactive]
    exact h.suppressed

theorem withinLimit_step (h : WithinLimit srv s) (hcounted : s.Counted)
    (hlimit : 0 < srv.maxClients) (happ : a.isApp = false)
    (hs : s.step srv a = some (s', evs)) : WithinLimit srv s' := by
  cases step_form hs with
  | accepted mode fd hfd hroom =>
      have hroom' : s.activeConnections < srv.maxClients := by
        unfold full at hroom
        omega
      refine ⟨hroom', h.mirrored, fun hoff => ?_⟩
      have hfull := h.suppressed hoff
      omega
  | rejected mode fd hfd hfull =>
      exact ⟨h.bound, rfl, fun _ => Nat.le_antisymm h.bound hfull.2⟩
  | conn hc hstep =>
      cases hstep.counterCase with
      | kept c' hconns hactive hdiscovery henabled => exact h.of_eq hactive hdiscovery henabled
      | finished sessions =>
          exact withinLimit_finish sessions h hlimit (hstep.active_pos hcounted hc)
  | udp hp hstep => cases hstep <;> exact h.of_eq rfl rfl rfl
  | sentTo _ _ _ => exact h
  | castStarted _ _ _ _ _ => exact h.of_eq rfl rfl rfl
  | castResumed hb hstep =>
      obtain ⟨store, casts, rfl⟩ := castStep_form hstep
      exact h.of_eq rfl rfl rfl
  | settings t hquiet ha =>
      rcases ha with ⟨call, rfl⟩ | ha
      · cases happ
      · obtain ⟨hdiscovery, henabled⟩ := discovery_kept hs ha
        exact h.of_eq rfl hdiscovery henabled

end Step

/-- All decrements of the counter so far. -/
def decrementCount (s : Engine) : Nat := (s.conns.map (·.decrements)).sum

theorem active_pos_of_decrement {srv : Server} {s s' : Engine} {a : Label} {evs : List Event}
    (hcounted : s.Counted) (hs : s.step srv a = some (s', evs))
    (hmore : s.decrementCount < s'.decrementCount) : 0 < s.activeConnections := by
  cases step_cases hs with
  | accepted mode fd hfd hroom => simp [decrementCount] at hmore
  | rejected mode fd hfd hfull => simp [decrementCount] at hmore
  | aside hconns _ _ _ => simp [decrementCount, hconns] at hmore
  | conn hc hstep => exact hstep.active_pos hcounted hc

/-- Under a limit the server never has more clients than it allows, never takes the counter below
zero, and is silent on discovery only while it is full. -/
theorem withinLimit_run (srv : Server) (hlimit : 0 < srv.maxClients) (discovery : DiscoveryConfig)
    (hrespond : discovery.respondToClients = true) {tr : List (Step Engine Label Event)}
    {s : Engine} (h : Trace (step srv) (init srv discovery true) tr s)
    (happ : ∀ x ∈ tr, x.label.isApp = false) :
    WithinLimit srv s ∧ ∀ x ∈ tr, WithinLimit srv x.pre ∧ WithinLimit srv x.post ∧
      (x.pre.decrementCount < x.post.decrementCount → 0 < x.pre.activeConnections) := by
  have hinv := h.invariant (fun s => WithinLimit srv s ∧ s.Counted)
    (fun _ a => a.isApp = false) ⟨⟨Nat.zero_le _, hrespond.symm, fun hoff => ?_⟩, ?_⟩ ?_ happ
  · refine ⟨hinv.1.1, fun x hx => ?_⟩
    obtain ⟨hpre, hpost⟩ := hinv.2 x hx
    exact ⟨hpre.1, hpost.1, active_pos_of_decrement hpre.2 (h.step_eq x hx)⟩
  · rw [init, hrespond] at hoff
    cases hoff
  · simp [Counted, init]
  · intro s a s' evs hs happ hstep
    exact ⟨withinLimit_step hs.1 hs.2 hlimit happ hstep, counted_step hs.2 hstep⟩

theorem withinLimit_full :
    ∃ tr s, Trace (step { Server.bare with maxClients := 1 })
        (init { Server.bare with maxClients := 1 } {} true) tr s ∧
      tr.length = 3 ∧ s.activeConnections = 0 ∧ s.discoveryEnabled = true ∧
      ∀ x ∈ tr, x.post.activeConnections ≤ 1 := by
  obtain ⟨tr, s, htr, hlength, hactive, henabled, happ⟩ := exists_trace_of_exec
    (step { Server.bare with maxClients := 1 })
    (init { Server.bare with maxClients := 1 } {} true)
    [.accept .binary 5, .accept .text 6, .work (.conn 0) (.fail (.std "Client disconnected"))]
    (fun tr s => tr.length = 3 ∧ s.activeConnections = 0 ∧ s.discoveryEnabled = true ∧
      ∀ x ∈ tr, x.label.isApp = false) (by decide +kernel)
  exact ⟨tr, s, htr, hlength, hactive, henabled, fun x hx =>
    ((withinLimit_run { Server.bare with maxClients := 1 } Nat.one_pos {} rfl htr
      happ).2 x hx).2.1.bound⟩

end Engine

end Servd
