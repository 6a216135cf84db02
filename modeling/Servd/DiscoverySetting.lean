import Servd.ClientLimit
import Servd.Writes

/-!
The operator's discovery settings. The capacity logic has no flag of its own: it turns
discovery off in the operator's configuration when it rejects a client, and turns it on there
when a client leaves. So a client that leaves may turn on what the operator had turned off.
`KeepsSetting` is the step condition that excludes this, and a run that meets it never
answers or announces against the setting the operator chose last.
-/
namespace Servd

open Transition

/-- What the operator chose last: whether discovery requests are answered, and whether discovery
is on at all. -/
structure OperatorSetting where
  respond : Bool
  enabled : Bool

namespace OperatorSetting

def after (o : OperatorSetting) : Label → OperatorSetting
  | .app (.enableDiscovery config) => ⟨config.respondToClients, true⟩
  | .app .disableDiscovery => { o with enabled := false }
  | .app .reenableDiscovery => { o with enabled := true }
  | .accept _ _ | .work _ _ | .sendTo _ _ _ | .broadcast _ _ _ _ | .resumeCast _ _
  | .discoveryRequest _ _ | .announceTick => o

def along (o : OperatorSetting) (tr : List (Step Engine Label Event)) : OperatorSetting :=
  (tr.map (·.label)).foldl after o

@[simp] theorem along_snoc (o : OperatorSetting) (tr : List (Step Engine Label Event))
    (x : Step Engine Label Event) : o.along (tr ++ [x]) = (o.along tr).after x.label := by
  simp [along]

theorem after_of_not_app {o : OperatorSetting} {a : Label} (h : a.isApp = false) :
    o.after a = o := by
  cases a with
  | app _ => cases h
  | accept _ _ | work _ _ | sendTo _ _ _ | broadcast _ _ _ _ | resumeCast _ _
  | discoveryRequest _ _ | announceTick => rfl

end OperatorSetting

def Event.isDiscoveryReply : Event → Bool
  | .discoveryReply _ => true
  | .wrote _ _ _ _ | .sentDatagram _ _ | .request _ _ | .saved _ _ | .closed _ | .announced _ =>
      false

namespace Engine

/-- The coroutine of the connection gets to the end of its code. -/
def Finishes (srv : Server) (c : Conn) : Act → Prop
  | .fail e => canFail c.phase e = true ∧ e.isStd = true ∧ ¬ notifies srv c
  | .notified (.ok _) => c.isLive = false ∧ c.hasEnded = false
  | .notified (.error _) | .frame _ | .load | .progress _ | .save => False

instance (srv : Server) (c : Conn) : (act : Act) → Decidable (Finishes srv c act)
  | .fail _ => inferInstanceAs (Decidable (_ ∧ _ ∧ _))
  | .notified (.ok _) => inferInstanceAs (Decidable (_ ∧ _))
  | .notified (.error _) | .frame _ | .load | .progress _ | .save =>
      inferInstanceAs (Decidable False)

/-- A client that leaves now turns discovery on. -/
def Restores (srv : Server) (s : Engine) : Prop :=
  0 < srv.maxClients ∧ decrement s.activeConnections < srv.maxClients ∧
    s.discovery.respondToClients = false

instance (srv : Server) (s : Engine) : Decidable (Restores srv s) :=
  inferInstanceAs (Decidable (_ ∧ _ ∧ _))

/-- The step does not turn on what the operator has turned off. -/
def KeepsSetting (srv : Server) (o : OperatorSetting) (s : Engine) : Label → Prop :=
  s.OnConn fun _ c act => Finishes srv c act → Restores srv s →
    o.respond = true ∧ o.enabled = true

instance (srv : Server) (o : OperatorSetting) (s : Engine) (a : Label) :
    Decidable (KeepsSetting srv o s a) :=
  inferInstanceAs (Decidable (s.OnConn _ a))

/-- The engine is nowhere more open than the operator's setting. -/
structure WithinSetting (o : OperatorSetting) (s : Engine) : Prop where
  respond : o.respond = false → s.discovery.respondToClients = false
  enabled : o.enabled = false → s.discoveryEnabled = false

/-- Nothing is sent against the operator's setting. -/
structure Respects (o : OperatorSetting) (evs : List Event) : Prop where
  unanswered : o.respond = false → ∀ packet, .discoveryReply packet ∉ evs
  unannounced : o.enabled = false → ∀ packet, .announced packet ∉ evs

section Step

variable {srv : Server} {s s' : Engine} {a : Label} {evs : List Event} {o : OperatorSetting}

theorem WithinSetting.of_eq (h : WithinSetting o s) (hdiscovery : s'.discovery = s.discovery)
    (henabled : s'.discoveryEnabled = s.discoveryEnabled) : WithinSetting o s' := by
  refine ⟨?_, ?_⟩
  · rw [hdiscovery]
    exact h.respond
  · rw [henabled]
    exact h.enabled

/-- A step of a connection leaves the settings alone, unless it is the coroutine's last one. -/
theorem ConnStep.settings {i : Nat} {c : Conn} {act : Act} (h : ConnStep srv s i c act s' evs) :
    (s'.discovery = s.discovery ∧ s'.discoveryEnabled = s.discoveryEnabled) ∨
      (Finishes srv c act ∧ ∃ sessions, s' = finish srv { s with sessions := sessions } i c) := by
  cases h with
  | frame _ _ | load _ _ | progress _ _ _ _ _ _ | save _ _ _ | notify _ _ _ _ _
  | noPool _ _ _ _ _ | escape _ _ _ | notifyFailed _ _ => exact .inl ⟨rfl, rfl⟩
  | leave e hf he hn => exact .inr ⟨⟨hf, he, hn⟩, _, rfl⟩
  | notified hp => exact .inr ⟨by simp [Finishes, Conn.isLive, Conn.hasEnded, hp], s.sessions, rfl⟩

theorem withinSetting_finish {i : Nat} {c : Conn} (sessions : UnorderedMap UInt64 Fd)
    (h : WithinSetting o s)
    (hkeeps : Restores srv s → o.respond = true ∧ o.enabled = true) :
    WithinSetting o (finish srv { s with sessions := sessions } i c) := by
  by_cases hrestores : Restores srv s
  · obtain ⟨hrespond, henabled⟩ := hkeeps hrestores
    exact ⟨fun hoff => by simp [hrespond] at hoff, fun hoff => by simp [henabled] at hoff⟩
  · have hno : ¬ (0 < srv.maxClients ∧ decrement s.activeConnections < srv.maxClients ∧
        ¬ s.discovery.respondToClients = true) := fun hroom =>
      hrestores ⟨hroom.1, hroom.2.1, by simpa using hroom.2.2⟩
    refine h.of_eq ?_ ?_
    · simp only [finish, if_neg hno]
    · simp only [finish, if_neg hno]

theorem withinSetting_step (h : WithinSetting o s) (hkeeps : s.KeepsSetting srv o a)
    (hs : s.step srv a = some (s', evs)) : WithinSetting (o.after a) s' := by
  cases step_form hs with
  | accepted mode fd hfd hroom => exact h.of_eq rfl rfl
  | rejected mode fd hfd hfull => exact ⟨fun _ => rfl, fun _ => rfl⟩
  | conn hc hstep =>
      rcases hstep.settings with ⟨hdiscovery, henabled⟩ | ⟨hfinishes, sessions, rfl⟩
      · exact h.of_eq hdiscovery henabled
      · exact withinSetting_finish sessions h ((onConn_work hc).mp hkeeps hfinishes)
  | udp hp hstep => cases hstep <;> exact h.of_eq rfl rfl
  | sentTo _ _ _ => exact h
  | castStarted _ _ _ _ _ => exact h.of_eq rfl rfl
  | castResumed hb hstep =>
      obtain ⟨store, casts, rfl⟩ := castStep_form hstep
      exact h.of_eq rfl rfl
  | settings t hquiet ha =>
      rcases ha with ⟨call, rfl⟩ | ha
      · simp only [step, Option.some.injEq, Prod.mk.injEq] at hs
        rw [← hs.1]
        cases call with
        | enableDiscovery config => exact ⟨id, fun hoff => by cases hoff⟩
        | disableDiscovery => exact ⟨h.respond, fun _ => rfl⟩
        | reenableDiscovery => exact ⟨h.respond, fun hoff => by cases hoff⟩
      · have happ : a.isApp = false := by
          rcases ha with ⟨_, _, rfl⟩ | rfl <;> rfl
        obtain ⟨hdiscovery, henabled⟩ := discovery_kept hs ha
        rw [OperatorSetting.after_of_not_app happ]
        exact h.of_eq hdiscovery henabled

theorem isDiscovery_of_isWrite {e : Event} (h : e.isWrite = true) : e.isDiscovery = false := by
  cases e with
  | wrote _ _ _ _ => rfl
  | sentDatagram _ _ | request _ _ | saved _ _ | closed _ | discoveryReply _ | announced _ => cases h

/-- The workers send nothing that has to do with discovery. -/
theorem streamEvents_quiet (i : Nat) (c : Conn) (e : RequestEvent) :
    ∀ ev ∈ streamEvents i c e, ev.isDiscovery = false := by
  cases e with
  | sent h p =>
      intro ev hev
      simp only [streamEvents, List.mem_cons, List.not_mem_nil, or_false] at hev
      rcases hev with rfl | rfl <;> rfl
  | authenticatorCalled _ _ | handlerCalled _ _ =>
      intro ev hev
      rw [List.mem_singleton.mp hev]
      rfl

theorem datagramEvents_quiet (j : Nat) (e : RequestEvent) :
    ∀ ev ∈ datagramEvents j e, ev.isDiscovery = false := by
  cases e with
  | sent h p =>
      intro ev hev
      simp only [datagramEvents, List.mem_cons, List.not_mem_nil, or_false] at hev
      rcases hev with rfl | rfl <;> rfl
  | authenticatorCalled _ _ | handlerCalled _ _ =>
      intro ev hev
      rw [List.mem_singleton.mp hev]
      rfl

theorem discovery_of_event (hs : s.step srv a = some (s', evs)) {e : Event} (he : e ∈ evs)
    (hdiscovery : e.isDiscovery = true) :
    (∃ client req, a = .discoveryRequest client req) ∨ a = .announceTick := by
  have quiet : e.isDiscovery = false → (∃ client req, a = .discoveryRequest client req) ∨
      a = .announceTick := fun h => by simp [h] at hdiscovery
  cases step_form hs with
  | accepted mode fd hfd hroom => cases he
  | rejected mode fd hfd hfull => exact quiet (by rw [List.mem_singleton.mp he]; rfl)
  | conn hc hstep =>
      cases hstep with
      | frame _ _ | load _ _ | notify _ _ _ _ _ | noPool _ _ _ _ _ | escape _ _ _
      | notifyFailed _ _ => cases he
      | save _ _ _ | leave _ _ _ _ | notified _ =>
          exact quiet (by rw [List.mem_singleton.mp he]; rfl)
      | progress _ _ _ es _ _ =>
          obtain ⟨re, -, hre⟩ := List.mem_flatMap.mp he
          exact quiet (streamEvents_quiet _ _ re e hre)
  | udp hp hstep =>
      cases hstep with
      | frame _ _ | load _ _ | fail _ _ => cases he
      | save _ _ _ => exact quiet (by rw [List.mem_singleton.mp he]; rfl)
      | progress _ _ _ es _ _ =>
          obtain ⟨re, -, hre⟩ := List.mem_flatMap.mp he
          exact quiet (datagramEvents_quiet _ re e hre)
  | sentTo sid commandId payload =>
      refine quiet ?_
      cases hl : s.sessions.lookup sid with
      | none => simp [hl] at he
      | some fd =>
          simp only [hl] at he
          exact isDiscovery_of_isWrite (submit_isWrite e he)
  | castStarted _ _ _ _ _ => exact quiet (isDiscovery_of_isWrite (nextCast_isWrite e he))
  | castResumed hb hstep => exact quiet (isDiscovery_of_isWrite (castStep_isWrite hstep e he))
  | settings t hquiet ha =>
      rcases ha with ⟨call, rfl⟩ | ha
      · simp only [step, Option.some.injEq, Prod.mk.injEq] at hs
        simp [← hs.2] at he
      · exact ha

theorem answers_of_reply {packet : DiscoveryPacket} (hs : s.step srv a = some (s', evs))
    (he : .discoveryReply packet ∈ evs) : s.discovery.respondToClients = true := by
  rcases discovery_of_event hs he rfl with ⟨client, req, rfl⟩ | rfl
  · simp only [step] at hs
    split at hs
    · simp only [Option.some.injEq, discoveryStep] at hs
      split at hs
      · cases hs
        cases he
      · rename_i hno
        simp only [not_or, not_not] at hno
        exact hno.2.2
    · cases hs
  · simp only [step] at hs
    split at hs
    · split at hs <;> cases hs <;> simp at he
    · cases hs

theorem enabled_of_announced {packet : DiscoveryPacket} (hs : s.step srv a = some (s', evs))
    (he : .announced packet ∈ evs) : s.discoveryEnabled = true := by
  rcases discovery_of_event hs he rfl with ⟨client, req, rfl⟩ | rfl
  · simp only [step] at hs
    split at hs
    · simp only [Option.some.injEq, discoveryStep] at hs
      split at hs
      · cases hs
        cases he
      · split at hs
        · cases hs
          simp at he
        · split at hs <;> cases hs <;> simp at he
    · cases hs
  · simp only [step] at hs
    split at hs
    · split at hs
      · cases hs
        cases he
      · rename_i hno
        simp only [not_or, not_not] at hno
        exact hno.2
    · cases hs

theorem WithinSetting.respects (h : WithinSetting o s) (hs : s.step srv a = some (s', evs)) :
    Respects o evs := by
  constructor
  · intro hoff packet he
    have hon := answers_of_reply hs he
    rw [h.respond hoff] at hon
    cases hon
  · intro hoff packet he
    have hon := enabled_of_announced hs he
    rw [h.enabled hoff] at hon
    cases hon

end Step

/-- Each step keeps the setting the operator has chosen before it. -/
def RunKeepsSetting (srv : Server) (o : OperatorSetting) (tr : List (Step Engine Label Event)) :
    Prop :=
  ∀ k (x : Step Engine Label Event), tr[k]? = some x →
    x.pre.KeepsSetting srv (o.along (tr.take k)) x.label

theorem RunKeepsSetting.left {srv : Server} {o : OperatorSetting}
    {tr tr' : List (Step Engine Label Event)} (h : RunKeepsSetting srv o (tr ++ tr')) :
    RunKeepsSetting srv o tr := by
  intro k x hx
  have hk : k < tr.length := (List.getElem?_eq_some_iff.mp hx).1
  have hkeeps := h k x (by rw [List.getElem?_append_left hk, hx])
  rwa [List.take_append_of_le_length (Nat.le_of_lt hk)] at hkeeps

theorem withinSetting_run {srv : Server} {o : OperatorSetting} {s₀ s : Engine}
    {tr : List (Step Engine Label Event)} (h : Trace (step srv) s₀ tr s)
    (h₀ : WithinSetting o s₀) (hkeeps : RunKeepsSetting srv o tr) :
    WithinSetting (o.along tr) s := by
  induction h with
  | nil => exact h₀
  | @snoc tr s s' a evs htr hstep ih =>
      have hlast := hkeeps tr.length ⟨s, a, evs, s'⟩ (by simp)
      rw [List.take_left'] at hlast
      · rw [OperatorSetting.along_snoc]
        exact withinSetting_step (ih hkeeps.left) hlast hstep
      · rfl

/-- In a run whose steps keep the operator's setting, the engine answers no discovery request
and makes no announcement against it. -/
theorem setting_respected (srv : Server) (discovery : DiscoveryConfig) (enabled : Bool)
    {tr : List (Step Engine Label Event)} {s : Engine}
    (h : Trace (step srv) (init srv discovery enabled) tr s)
    (hkeeps : RunKeepsSetting srv ⟨discovery.respondToClients, enabled⟩ tr) :
    ∀ k (x : Step Engine Label Event), tr[k]? = some x →
      Respects (OperatorSetting.along ⟨discovery.respondToClients, enabled⟩ (tr.take k))
        x.events := by
  intro k x hx
  obtain ⟨hk, rfl⟩ := List.getElem?_eq_some_iff.mp hx
  have hsplit : tr = tr.take k ++ tr[k] :: tr.drop (k + 1) := by simp
  rw [hsplit] at h hkeeps
  obtain ⟨m, h₁, h₂⟩ := h.split
  obtain ⟨hm, hstep, -⟩ := h₂.split_cons
  rw [← hm] at h₁
  have hwithin : WithinSetting ⟨discovery.respondToClients, enabled⟩
      (init srv discovery enabled) := ⟨id, id⟩
  exact (withinSetting_run h₁ hwithin hkeeps.left).respects hstep

/-- A server with room for one client. -/
def singleClient : Server := { Server.bare with maxClients := 1 }

/-- The server is full, rejects a client and has room again; then the application turns discovery
off. -/
def turnedOff : List Label :=
  [.accept .binary 5, .accept .text 6, .work (.conn 0) (.fail (.std "Client disconnected")),
    .app .disableDiscovery, .announceTick]

theorem setting_respected_turnedOff :
    ∃ tr s x, Trace (step singleClient)
        (init singleClient { activeAnnounceIfIdle := 30 } true) tr s ∧ tr[4]? = some x ∧
      x.pre.announceLoop = true ∧ x.pre.activeConnections = 0 ∧
      ∀ packet, .announced packet ∉ x.events := by
  obtain ⟨tr, s, htr, hkeeps, x, hx, hloop, hactive, hoff⟩ := exists_trace_of_exec
    (step singleClient) (init singleClient { activeAnnounceIfIdle := 30 } true) turnedOff
    (fun tr _ => (∀ k ∈ List.range tr.length, ∀ x ∈ tr[k]?,
        x.pre.KeepsSetting singleClient (OperatorSetting.along ⟨true, true⟩ (tr.take k)) x.label) ∧
      ∃ x ∈ tr[4]?, x.pre.announceLoop = true ∧ x.pre.activeConnections = 0 ∧
        (OperatorSetting.along ⟨true, true⟩ (tr.take 4)).enabled = false) (by decide +kernel)
  refine ⟨tr, s, x, htr, hx, hloop, hactive, ?_⟩
  refine (setting_respected singleClient _ true htr ?_ 4 x hx).unannounced hoff
  intro k y hy
  exact hkeeps k (List.mem_range.mpr (List.getElem?_eq_some_iff.mp hy).1) y hy

/-- The operator wants no discovery request to be answered. One client comes and goes, and then a
request is answered. -/
theorem not_setting_respected :
    ¬ ∀ srv discovery enabled tr s, Trace (step srv) (init srv discovery enabled) tr s →
      ∀ k (x : Step Engine Label Event), tr[k]? = some x →
        Respects (OperatorSetting.along ⟨discovery.respondToClients, enabled⟩ (tr.take k))
          x.events := by
  intro h
  obtain ⟨tr, s, htr, x, hx, hoff, hreply⟩ := exists_trace_of_exec (step singleClient)
    (init singleClient { respondToClients := false } true)
    [.accept .binary 5, .work (.conn 0) (.fail (.std "Client disconnected")),
      .discoveryRequest ⟨0, 0⟩ ⟨0x53525644, clientLookingForServer, 0, 0⟩]
    (fun tr _ => ∃ x ∈ tr[2]?,
      (OperatorSetting.along ⟨false, true⟩ (tr.take 2)).respond = false ∧
        ∃ e ∈ x.events, e.isDiscoveryReply = true) (by decide +kernel)
  obtain ⟨e, he, hisReply⟩ := hreply
  cases e with
  | discoveryReply packet => exact (h _ _ _ tr s htr 2 x hx).unanswered hoff packet he
  | wrote _ _ _ _ | sentDatagram _ _ | request _ _ | saved _ _ | closed _ | announced _ =>
      cases hisReply

end Engine

end Servd
