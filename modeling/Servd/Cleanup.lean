import Servd.EngineStep

/-!
The clean-up of connections. A coroutine that has ended should have closed its
descriptor once and taken itself off the connection counter once. The code after
the request loop runs outside any handler of exceptions, and the loop itself takes
only `std::exception`, so a coroutine can end in three places before it reaches the
two statements: on a foreign exception, on the missing thread pool, and on a
disconnect callback that throws.
-/
namespace Servd.Engine

open Transition

structure CleanedUp (s : Engine) : Prop where
  once : ∀ c ∈ s.conns, c.hasEnded = true → c.closes = 1 ∧ c.decrements = 1
  counted : s.activeConnections = s.conns.countP fun c => !c.hasEnded

/-- The coroutine reaches the end of its code: the loop is left by a `std::exception`, there
is a thread pool if the disconnect callback has to run, and the callback does not throw. -/
def ReachesEnd (srv : Server) (c : Conn) : Act → Prop
  | .fail e => e.isStd = true ∧ (notifies srv c → srv.threadPool = true)
  | .notified result => result.isOk = true
  | .frame _ | .load | .progress _ | .save => True

instance (srv : Server) (c : Conn) : (act : Act) → Decidable (ReachesEnd srv c act)
  | .fail e =>
      inferInstanceAs (Decidable (e.isStd = true ∧ (notifies srv c → srv.threadPool = true)))
  | .notified result => inferInstanceAs (Decidable (result.isOk = true))
  | .frame _ | .load | .progress _ | .save => inferInstanceAs (Decidable True)

def Untouched (s : Engine) : Prop :=
  ∀ c ∈ s.conns, c.hasEnded = false → c.closes = 0 ∧ c.decrements = 0

theorem untouched_step {srv : Server} {s s' : Engine} {a : Label} {evs : List Event}
    (h : s.Untouched) (hs : s.step srv a = some (s', evs)) : s'.Untouched := by
  refine forall_conns_step h (fun mode fd _ => ⟨rfl, rfl⟩) ?_ hs
  intro i c act s' evs hc hstep
  obtain ⟨c', hconns, -, -, -, hlive, hkeep⟩ := hstep.conns_eq
  refine ⟨c', hconns, fun hended => ?_⟩
  obtain ⟨hcloses, hdecs⟩ := hkeep hended
  obtain ⟨hz, hz'⟩ := hc hlive
  exact ⟨hcloses.trans hz, hdecs.trans hz'⟩

theorem countP_conns_set {conns : List Conn} {i : Nat} {c : Conn} (c' : Conn)
    (hc : conns[i]? = some c) (hlive : c.hasEnded = false) :
    ((conns.set i c').countP fun c => !c.hasEnded) + 1 =
      (conns.countP fun c => !c.hasEnded) + (if c'.hasEnded then 0 else 1) := by
  obtain ⟨hi, rfl⟩ := List.getElem?_eq_some_iff.mp hc
  have hpos : 0 < conns.countP fun c => !c.hasEnded :=
    List.countP_pos_iff.mpr ⟨conns[i], List.getElem_mem hi, by simp [hlive]⟩
  rw [List.countP_set hi]
  simp only [hlive, Bool.not_false, if_true]
  cases c'.hasEnded <;> simp <;> omega

theorem cleanedUp_of_running {s s' : Engine} {i : Nat} {c c' : Conn} (h : s.CleanedUp)
    (hc : s.conns[i]? = some c) (hlive : c.hasEnded = false)
    (hconns : s'.conns = s.conns.set i c') (hlive' : c'.hasEnded = false)
    (hactive : s'.activeConnections = s.activeConnections) : s'.CleanedUp := by
  constructor
  · intro d hd hended
    rw [hconns] at hd
    cases List.mem_or_eq_of_mem_set hd with
    | inl hd => exact h.once d hd hended
    | inr hd =>
        subst hd
        rw [hlive'] at hended
        cases hended
  · have hcount := countP_conns_set c' hc hlive
    rw [hactive, h.counted, hconns]
    simp only [hlive', Bool.false_eq_true, if_false] at hcount
    omega

theorem cleanedUp_of_finished {s s' : Engine} {i : Nat} {c c' : Conn} (h : s.CleanedUp)
    (hc : s.conns[i]? = some c) (hlive : c.hasEnded = false)
    (hconns : s'.conns = s.conns.set i c') (hended' : c'.hasEnded = true)
    (hcloses : c'.closes = 1) (hdecs : c'.decrements = 1)
    (hactive : s'.activeConnections = decrement s.activeConnections) : s'.CleanedUp := by
  constructor
  · intro d hd hended
    rw [hconns] at hd
    cases List.mem_or_eq_of_mem_set hd with
    | inl hd => exact h.once d hd hended
    | inr hd =>
        subst hd
        exact ⟨hcloses, hdecs⟩
  · have hcount := countP_conns_set c' hc hlive
    simp only [hended', if_true] at hcount
    rw [hactive, h.counted, hconns, decrement, if_neg (by omega)]
    omega

theorem not_cleanedUp_of_leaked {s s' : Engine} {i : Nat} {c c' : Conn}
    (hc : s.conns[i]? = some c) (hconns : s'.conns = s.conns.set i c')
    (hended' : c'.hasEnded = true) (hcloses : c'.closes = 0) : ¬ s'.CleanedUp := by
  intro h
  have hmem : c' ∈ s'.conns := by
    have hi : i < s.conns.length := (List.getElem?_eq_some_iff.mp hc).1
    rw [hconns]
    exact List.mem_set hi c'
  have hone := (h.once c' hmem hended').1
  rw [hcloses] at hone
  cases hone

theorem cleanedUp_connStep_iff {srv : Server} {s s' : Engine} {i : Nat} {c : Conn} {act : Act}
    {evs : List Event} (h : s.CleanedUp) (hu : s.Untouched) (hc : s.conns[i]? = some c)
    (hs : ConnStep srv s i c act s' evs) : s'.CleanedUp ↔ ReachesEnd srv c act := by
  have hlive : c.hasEnded = false := by
    obtain ⟨-, -, -, -, -, hlive, -⟩ := hs.conns_eq
    exact hlive
  obtain ⟨hcloses, hdecs⟩ := hu c (List.mem_of_getElem? hc) hlive
  cases hs with
  | frame f hp =>
      exact iff_of_true (cleanedUp_of_running h hc hlive rfl rfl rfl) trivial
  | load f hp =>
      exact iff_of_true (cleanedUp_of_running h hc hlive rfl rfl rfl) trivial
  | progress a req req' es hp ha =>
      exact iff_of_true (cleanedUp_of_running h hc hlive rfl rfl rfl) trivial
  | save req hp ht =>
      exact iff_of_true (cleanedUp_of_running h hc hlive rfl rfl rfl) trivial
  | leave e hf he hn =>
      refine iff_of_true ?_ ⟨he, fun hn' => absurd hn' hn⟩
      exact cleanedUp_of_finished h hc hlive rfl rfl (by simp [hcloses]) (by simp [hdecs]) rfl
  | notify e hf he hn hpool =>
      exact iff_of_true (cleanedUp_of_running h hc hlive rfl rfl rfl) ⟨he, fun _ => hpool⟩
  | noPool e hf he hn hpool =>
      exact iff_of_false (not_cleanedUp_of_leaked hc rfl rfl hcloses) fun hr => hpool (hr.2 hn)
  | escape e hf he =>
      exact iff_of_false (not_cleanedUp_of_leaked hc rfl rfl hcloses) fun hr => he hr.1
  | notified hp =>
      refine iff_of_true ?_ rfl
      exact cleanedUp_of_finished h hc hlive rfl rfl (by simp [hcloses]) (by simp [hdecs]) rfl
  | notifyFailed e hp =>
      exact iff_of_false (not_cleanedUp_of_leaked hc rfl rfl hcloses) fun hr => by cases hr

theorem cleanedUp_step_iff {srv : Server} {s s' : Engine} {a : Label} {evs : List Event}
    (h : s.CleanedUp) (hu : s.Untouched) (hs : s.step srv a = some (s', evs)) :
    s'.CleanedUp ↔ s.OnConn (fun _ => ReachesEnd srv) a := by
  cases step_cases hs with
  | accepted mode fd hfd hroom =>
      refine iff_of_true ⟨?_, ?_⟩ trivial
      · intro c hc hended
        cases List.mem_append.mp hc with
        | inl hc => exact h.once c hc hended
        | inr hc =>
            rw [List.mem_singleton] at hc
            subst hc
            cases hended
      · simp [h.counted, Conn.hasEnded]
  | rejected mode fd hfd hfull => exact iff_of_true ⟨h.once, h.counted⟩ trivial
  | aside hconns _ hactive hnot =>
      refine iff_of_true ⟨?_, ?_⟩ (onConn_of_ne hnot)
      · rw [hconns]
        exact h.once
      · rw [hconns, hactive]
        exact h.counted
  | conn hc hstep => rw [onConn_work hc, cleanedUp_connStep_iff h hu hc hstep]

/-- Along every run every connection is cleaned up exactly once, and the counter is right,
exactly as long as every coroutine that leaves its loop reaches the end of its code. -/
theorem cleanedUp_iff_reachesEnd (srv : Server) (discovery : DiscoveryConfig) (enabled : Bool)
    {tr : List (Step Engine Label Event)} {s : Engine}
    (h : Trace (step srv) (init srv discovery enabled) tr s) :
    (∀ x ∈ tr, x.post.CleanedUp) ↔
      ∀ x ∈ tr, x.pre.OnConn (fun _ => ReachesEnd srv) x.label := by
  refine h.invariant_iff CleanedUp Untouched (fun s => s.OnConn fun _ => ReachesEnd srv)
    ⟨?_, ?_⟩ ?_ ?_ ?_
  · simp [init]
  · simp [init]
  · simp [Untouched, init]
  · intro s a s' evs hclean hu hreach hs
    exact ⟨(cleanedUp_step_iff hclean hu hs).mpr hreach, untouched_step hu hs⟩
  · intro s a s' evs hclean hu hs hclean'
    exact (cleanedUp_step_iff hclean hu hs).mp hclean'

def disconnectServer (threadPool : Bool) : Server :=
  { Server.bare with disconnectHandler := true, threadPool := threadPool }

theorem cleanedUp_disconnect :
    ∃ tr s, Trace (step (disconnectServer true)) (init (disconnectServer true) {} false) tr s ∧
      tr.length = 8 ∧ ∀ x ∈ tr, x.post.CleanedUp := by
  obtain ⟨tr, s, htr, hlength, hreach⟩ := exists_trace_of_exec
    (step (disconnectServer true)) (init (disconnectServer true) {} false)
    ([.accept .binary 5, .accept .text 6] ++ Label.request (.conn 0) (.command 1 7) ++
      [.work (.conn 0) (.fail (.std "Client disconnected")), .work (.conn 0) (.notified (.ok ())),
        .work (.conn 1) (.fail (.std "Client disconnected"))])
    (fun tr _ => tr.length = 8 ∧
      ∀ x ∈ tr, x.pre.OnConn (fun _ => ReachesEnd (disconnectServer true)) x.label)
    (by decide +kernel)
  exact ⟨tr, s, htr, hlength,
    (cleanedUp_iff_reachesEnd (disconnectServer true) {} false htr).mpr hreach⟩

/-- Without a thread pool, the first client that leaves a session keeps its descriptor open
and its place on the counter. -/
theorem not_cleanedUp_no_pool :
    ¬ ∀ srv discovery enabled tr s, Trace (step srv) (init srv discovery enabled) tr s →
      ∀ x ∈ tr, x.post.CleanedUp := by
  intro h
  obtain ⟨tr, s, htr, x, hx, c, hc, hended, hcloses⟩ := exists_trace_of_exec
    (step (disconnectServer false)) (init (disconnectServer false) {} false)
    ([.accept .binary 5] ++ Label.request (.conn 0) (.command 1 7) ++
      [.work (.conn 0) (.fail (.std "Client disconnected"))])
    (fun tr _ => ∃ x ∈ tr, ∃ c ∈ x.post.conns, c.hasEnded = true ∧ c.closes = 0)
    (by decide +kernel)
  have hone := ((h (disconnectServer false) {} false tr s htr x hx).once c hc hended).1
  rw [hcloses] at hone
  cases hone

end Servd.Engine
