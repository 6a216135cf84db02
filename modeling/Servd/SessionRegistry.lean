import Servd.EngineStep

/-!
The session registry. Every entry should name an open connection that is using the
session it stands under. The registry breaks this in two places, where a sentinel
test takes a session id chosen by a client for "no session": a switch away from
session 0, and the end of a connection that uses session 2^64 - 1. Apart from these
two steps it is kept by every step of the engine.
-/
namespace Servd.Engine

open Transition

theorem lookup_selectSession (m : UnorderedMap UInt64 Fd) (c : Conn) (sid k : UInt64) :
    (selectSession m c sid).lookup k =
      if sid = c.currentSid then m.lookup k
      else if k = sid then some c.fd
      else if k = c.currentSid ∧ c.currentSid ≠ 0 then none
      else m.lookup k := by
  unfold selectSession registerSession unregisterSession
  by_cases h : sid = c.currentSid
  · simp [h]
  · by_cases hk : k = sid
    · subst hk
      simp [h]
    · simp only [ne_eq, h, not_false_eq_true, if_true, if_false, hk, AList.lookup_insert_ne hk]
      by_cases hz : c.currentSid = 0
      · simp [hz]
      · by_cases hc : k = c.currentSid
        · subst hc
          simp [hz]
        · simp [hz, hc, AList.lookup_erase_ne hc]

theorem lookup_leaveSession (m : UnorderedMap UInt64 Fd) (c : Conn) (k : UInt64) :
    (leaveSession m c).lookup k =
      if k = c.currentSid ∧ c.currentSid ≠ noSession then none else m.lookup k := by
  unfold leaveSession unregisterSession
  by_cases hn : c.currentSid = noSession
  · simp [hn]
  · by_cases hk : k = c.currentSid
    · subst hk
      simp [hn]
    · simp [hn, hk, AList.lookup_erase_ne hk]

theorem lookup_of_leaveSession {m : UnorderedMap UInt64 Fd} {c : Conn} {k : UInt64} {fd : Fd}
    (h : (leaveSession m c).lookup k = some fd) :
    m.lookup k = some fd ∧ (k = c.currentSid → c.currentSid = noSession) := by
  rw [lookup_leaveSession] at h
  split at h
  · cases h
  · rename_i hk
    exact ⟨h, fun hc => not_not.mp fun hn => hk ⟨hc, hn⟩⟩

/-- No two open connections share a descriptor, and only an ended coroutine has closed its
own. -/
structure DescriptorsWellFormed (s : Engine) : Prop where
  distinct : ∀ (i j : Nat) (c d : Conn), s.conns[i]? = some c → s.conns[j]? = some d →
    c.isOpen → d.isOpen → c.fd = d.fd → i = j
  liveOpen : ∀ (i : Nat) (c : Conn), s.conns[i]? = some c → c.hasEnded = false → c.isOpen

theorem descriptorsWellFormed_init (srv : Server) (discovery : DiscoveryConfig)
    (enabled : Bool) : (init srv discovery enabled).DescriptorsWellFormed :=
  ⟨by simp [init], by simp [init]⟩

theorem descriptorsWellFormed_step {srv : Server} {s s' : Engine} {a : Label}
    {evs : List Event} (hw : s.DescriptorsWellFormed) (hs : s.step srv a = some (s', evs)) :
    s'.DescriptorsWellFormed := by
  cases step_cases hs with
  | accepted mode fd hfd hroom =>
      have fresh : ∀ (i : Nat) (c : Conn), s.conns[i]? = some c → c.isOpen → c.fd ≠ fd := by
        intro i c hc hopen hcfd
        exact hfd ⟨c, List.mem_of_getElem? hc, hopen, hcfd⟩
      constructor
      · intro i j c d hi hj hc hd hcd
        rw [List.getElem?_append] at hi hj
        have := hw.distinct i j c d
        grind
      · intro i c hi
        rw [List.getElem?_append] at hi
        have := hw.liveOpen i c
        grind [Conn.isOpen]
  | rejected mode fd hfd hfull => exact ⟨hw.distinct, hw.liveOpen⟩
  | aside hconns _ _ _ =>
      exact ⟨by rw [hconns]; exact hw.distinct, by rw [hconns]; exact hw.liveOpen⟩
  | @conn i c act _ _ hc h =>
      obtain ⟨c', hconns, hfd, -, hcloses, hended, hkeep⟩ := h.conns_eq
      have hopen : c.isOpen := hw.liveOpen i c hc hended
      constructor
      · intro j k d e hj hk hd he hde
        rw [hconns, getElem?_conns_set hc] at hj hk
        obtain ⟨rfl, rfl⟩ | ⟨hji, hj⟩ := hj
        · obtain ⟨rfl, rfl⟩ | ⟨-, hk⟩ := hk
          · rfl
          · exact hw.distinct j k c e hc hk hopen he (hfd ▸ hde)
        · obtain ⟨rfl, rfl⟩ | ⟨-, hk⟩ := hk
          · exact hw.distinct j k d c hj hc hd hopen (hfd ▸ hde)
          · exact hw.distinct j k d e hj hk hd he hde
      · intro j d hj hd
        rw [hconns, getElem?_conns_set hc] at hj
        obtain ⟨rfl, rfl⟩ | ⟨-, hj⟩ := hj
        · exact (hkeep hd).1.trans hopen
        · exact hw.liveOpen j d hj hd

def Uses (s : Engine) (fd : Fd) (sid : UInt64) : Prop :=
  ∃ (i : Nat) (c : Conn), s.conns[i]? = some c ∧ c.isOpen ∧ c.fd = fd ∧ c.currentSid = sid

def NoStale (s : Engine) : Prop :=
  ∀ sid fd, s.sessions.lookup sid = some fd → s.Uses fd sid

theorem Uses.currentSid_eq {s : Engine} {i : Nat} {c : Conn} {fd : Fd} {sid : UInt64}
    (h : s.Uses fd sid) (hw : s.DescriptorsWellFormed) (hc : s.conns[i]? = some c)
    (hopen : c.isOpen) (hfd : c.fd = fd) : c.currentSid = sid := by
  obtain ⟨j, d, hd, hdopen, hdfd, hdsid⟩ := h
  obtain rfl := hw.distinct i j c d hc hd hopen hdopen (hfd.trans hdfd.symm)
  rw [hc] at hd
  cases hd
  exact hdsid

theorem noStale_of_kept {s s' : Engine} {i : Nat} {c c' : Conn} (h : s.NoStale)
    (hc : s.conns[i]? = some c) (hconns : s'.conns = s.conns.set i c')
    (hfd : c'.fd = c.fd) (hsid : c'.currentSid = c.currentSid) (hcloses : c'.closes = c.closes)
    (hsub : ∀ k fd, s'.sessions.lookup k = some fd → s.sessions.lookup k = some fd) :
    s'.NoStale := by
  intro k fd hk
  obtain ⟨j, d, hd, hopen, hdfd, hdsid⟩ := h k fd (hsub k fd hk)
  by_cases hj : j = i
  · subst hj
    rw [hc] at hd
    cases hd
    refine ⟨j, c', ?_, hcloses.trans hopen, hfd.trans hdfd, hsid.trans hdsid⟩
    rw [hconns, getElem?_conns_set hc]
    exact .inl ⟨rfl, rfl⟩
  · refine ⟨j, d, ?_, hopen, hdfd, hdsid⟩
    rw [hconns, getElem?_conns_set hc]
    exact .inr ⟨hj, hd⟩

theorem noStale_of_gone {s s' : Engine} {i : Nat} {c c' : Conn} (h : s.NoStale)
    (hc : s.conns[i]? = some c) (hconns : s'.conns = s.conns.set i c')
    (hsub : ∀ k fd, s'.sessions.lookup k = some fd →
      s.sessions.lookup k = some fd ∧ ¬ (fd = c.fd ∧ k = c.currentSid)) : s'.NoStale := by
  intro k fd hk
  obtain ⟨hk, hne⟩ := hsub k fd hk
  obtain ⟨j, d, hd, hopen, hdfd, hdsid⟩ := h k fd hk
  have hj : j ≠ i := by
    rintro rfl
    rw [hc] at hd
    cases hd
    exact hne ⟨hdfd.symm, hdsid.symm⟩
  refine ⟨j, d, ?_, hopen, hdfd, hdsid⟩
  rw [hconns, getElem?_conns_set hc]
  exact .inr ⟨hj, hd⟩

/-- The step takes no session id of a client for "no session". A connection that is
registered under 0 receives no frame with another id, and a connection that is registered
under 2^64 - 1 does not end. -/
def SentinelSafe (s : Engine) (c : Conn) : Act → Prop
  | .load => ∀ f ∈ c.phase.loadingFrame,
      c.currentSid = 0 → f.header.sessionId ≠ 0 → s.sessions.lookup 0 ≠ some c.fd
  | .fail e => e.isStd → c.currentSid = noSession → s.sessions.lookup noSession ≠ some c.fd
  | .frame _ | .progress _ | .save | .notified _ => True

instance (s : Engine) (c : Conn) : (act : Act) → Decidable (s.SentinelSafe c act)
  | .load => inferInstanceAs (Decidable (∀ f ∈ c.phase.loadingFrame,
      c.currentSid = 0 → f.header.sessionId ≠ 0 → s.sessions.lookup 0 ≠ some c.fd))
  | .fail e => inferInstanceAs (Decidable (e.isStd →
      c.currentSid = noSession → s.sessions.lookup noSession ≠ some c.fd))
  | .frame _ | .progress _ | .save | .notified _ => inferInstanceAs (Decidable True)

def NotifyingUnregistered (s : Engine) : Prop :=
  ∀ (i : Nat) (c : Conn), s.conns[i]? = some c → c.phase = .notifying →
    ∀ k, s.sessions.lookup k ≠ some c.fd

theorem noStale_load {s s' : Engine} {i : Nat} {c c' : Conn} {sid : UInt64}
    (h : s.NoStale) (hc : s.conns[i]? = some c) (hconns : s'.conns = s.conns.set i c')
    (hsessions : s'.sessions = selectSession s.sessions c sid)
    (hopen : c'.isOpen) (hfd : c'.fd = c.fd) (hsid : c'.currentSid = sid)
    (hsafe : c.currentSid = 0 → sid ≠ 0 → s.sessions.lookup 0 ≠ some c.fd) : s'.NoStale := by
  intro k fd hk
  rw [hsessions, lookup_selectSession] at hk
  by_cases hks : k = sid ∧ fd = c.fd
  · refine ⟨i, c', ?_, hopen, hfd.trans hks.2.symm, hsid.trans hks.1.symm⟩
    rw [hconns, getElem?_conns_set hc]
    exact .inl ⟨rfl, rfl⟩
  · have hold : s.sessions.lookup k = some fd := by grind
    obtain ⟨j, d, hd, hdopen, hdfd, hdsid⟩ := h k fd hold
    have hj : j ≠ i := by
      -- the entry under the old session was removed, unless the old session was 0
      rintro rfl
      rw [hc] at hd
      cases hd
      grind
    refine ⟨j, d, ?_, hdopen, hdfd, hdsid⟩
    rw [hconns, getElem?_conns_set hc]
    exact .inr ⟨hj, hd⟩

theorem notifyingUnregistered_of_set {s s' : Engine} {i : Nat} {c c' : Conn}
    (hw : s.DescriptorsWellFormed) (hu : s.NotifyingUnregistered)
    (hc : s.conns[i]? = some c) (hopen : c.isOpen) (hconns : s'.conns = s.conns.set i c')
    (hself : c'.phase = .notifying → ∀ k, s'.sessions.lookup k ≠ some c'.fd)
    (hsub : ∀ k fd, s'.sessions.lookup k = some fd →
      s.sessions.lookup k = some fd ∨ fd = c.fd) : s'.NotifyingUnregistered := by
  intro j d hj hp k hk
  rw [hconns, getElem?_conns_set hc] at hj
  obtain ⟨rfl, rfl⟩ | ⟨hji, hj⟩ := hj
  · exact hself hp k hk
  · cases hsub k d.fd hk with
    | inl hold => exact hu j d hj hp k hold
    | inr hfd =>
        have hdopen : d.isOpen := hw.liveOpen j d hj (by simp [Conn.hasEnded, hp])
        exact hji (hw.distinct j i d c hj hc hdopen hopen hfd)

theorem registry_connStep {srv : Server} {s s' : Engine} {i : Nat} {c : Conn} {act : Act}
    {evs : List Event} (hw : s.DescriptorsWellFormed) (h : s.NoStale)
    (hu : s.NotifyingUnregistered) (hsafe : s.SentinelSafe c act)
    (hc : s.conns[i]? = some c) (hs : ConnStep srv s i c act s' evs) :
    s'.NoStale ∧ s'.NotifyingUnregistered := by
  have hopen : c.isOpen := by
    obtain ⟨-, -, -, -, -, hended, -⟩ := hs.conns_eq
    exact hw.liveOpen i c hc hended
  -- an entry with the descriptor of this connection stands under its session
  have mine : ∀ k, s.sessions.lookup k = some c.fd → c.currentSid = k := by
    intro k hk
    exact (h k c.fd hk).currentSid_eq hw hc hopen rfl
  have left : notifies srv c → ∀ k, (leaveSession s.sessions c).lookup k ≠ some c.fd := by
    intro hn k hk
    obtain ⟨hold, hsid⟩ := lookup_of_leaveSession hk
    exact hn.2.2 (hsid (mine k hold).symm)
  cases hs with
  | frame f hp =>
      exact ⟨noStale_of_kept h hc rfl rfl rfl rfl (fun _ _ hk => hk),
        notifyingUnregistered_of_set hw hu hc hopen rfl (fun hp' => by cases hp')
          (fun _ _ hk => .inl hk)⟩
  | load f hp =>
      refine ⟨noStale_load h hc rfl rfl hopen rfl rfl (hsafe f (by simp [Phase.loadingFrame, hp])), ?_⟩
      refine notifyingUnregistered_of_set hw hu hc hopen rfl (fun hp' => by cases hp') ?_
      intro k fd hk
      simp only [lookup_selectSession] at hk
      grind
  | progress a req req' es hp ha =>
      exact ⟨noStale_of_kept h hc rfl rfl rfl rfl (fun _ _ hk => hk),
        notifyingUnregistered_of_set hw hu hc hopen rfl (fun hp' => by cases hp')
          (fun _ _ hk => .inl hk)⟩
  | save req hp ht =>
      exact ⟨noStale_of_kept h hc rfl rfl rfl rfl (fun _ _ hk => hk),
        notifyingUnregistered_of_set hw hu hc hopen rfl (fun hp' => by cases hp')
          (fun _ _ hk => .inl hk)⟩
  | leave e hf he hn =>
      refine ⟨noStale_of_gone h hc rfl ?_, ?_⟩
      · intro k fd hk
        obtain ⟨hold, hsid⟩ := lookup_of_leaveSession hk
        refine ⟨hold, fun hself => ?_⟩
        obtain ⟨rfl, rfl⟩ := hself
        have hsent := hsid rfl
        exact hsafe he hsent (hsent ▸ hold)
      · exact notifyingUnregistered_of_set hw hu hc hopen rfl (fun hp' => by cases hp')
          (fun _ _ hk => .inl (lookup_of_leaveSession hk).1)
  | notify e hf he hn hpool =>
      exact ⟨noStale_of_kept h hc rfl rfl rfl rfl (fun _ _ hk => (lookup_of_leaveSession hk).1),
        notifyingUnregistered_of_set hw hu hc hopen rfl (fun _ => left hn)
          (fun _ _ hk => .inl (lookup_of_leaveSession hk).1)⟩
  | noPool e hf he hn hpool =>
      exact ⟨noStale_of_kept h hc rfl rfl rfl rfl (fun _ _ hk => (lookup_of_leaveSession hk).1),
        notifyingUnregistered_of_set hw hu hc hopen rfl (fun hp' => by cases hp')
          (fun _ _ hk => .inl (lookup_of_leaveSession hk).1)⟩
  | escape e hf he =>
      exact ⟨noStale_of_kept h hc rfl rfl rfl rfl (fun _ _ hk => hk),
        notifyingUnregistered_of_set hw hu hc hopen rfl (fun hp' => by cases hp')
          (fun _ _ hk => .inl hk)⟩
  | notified hp =>
      refine ⟨noStale_of_gone h hc rfl ?_, ?_⟩
      · intro k fd hk
        refine ⟨hk, fun hself => ?_⟩
        exact hu i c hc hp k (hself.1 ▸ hk)
      · exact notifyingUnregistered_of_set hw hu hc hopen rfl (fun hp' => by cases hp')
          (fun _ _ hk => .inl hk)
  | notifyFailed e hp =>
      exact ⟨noStale_of_kept h hc rfl rfl rfl rfl (fun _ _ hk => hk),
        notifyingUnregistered_of_set hw hu hc hopen rfl (fun hp' => by cases hp')
          (fun _ _ hk => .inl hk)⟩

theorem registry_step {srv : Server} {s s' : Engine} {a : Label} {evs : List Event}
    (hw : s.DescriptorsWellFormed) (h : s.NoStale) (hu : s.NotifyingUnregistered)
    (hsafe : s.OnConn (fun _ => s.SentinelSafe) a) (hs : s.step srv a = some (s', evs)) :
    s'.NoStale ∧ s'.NotifyingUnregistered := by
  cases step_cases hs with
  | accepted mode fd hfd hroom =>
      constructor
      · intro k fd' hk
        obtain ⟨i, c, hc, hrest⟩ := h k fd' hk
        exact ⟨i, c, by rw [List.getElem?_append_left (List.getElem?_eq_some_iff.mp hc).1, hc],
          hrest⟩
      · intro i c hc hp
        rw [List.getElem?_append] at hc
        split at hc
        · exact hu i c hc hp
        · cases hj : i - s.conns.length with
          | zero =>
              simp only [hj, List.getElem?_cons_zero, Option.some.injEq] at hc
              subst hc
              cases hp
          | succ j => simp [hj] at hc
  | rejected mode fd hfd hfull => exact ⟨h, hu⟩
  | aside hconns hsessions _ _ =>
      unfold NoStale Uses NotifyingUnregistered
      rw [hconns, hsessions]
      exact ⟨h, hu⟩
  | conn hc hstep => exact registry_connStep hw h hu ((onConn_work hc).mp hsafe) hc hstep

/-- A step that leaves no stale entry took no session id for a sentinel. -/
theorem sentinelSafe_of_noStale {srv : Server} {s s' : Engine} {i : Nat} {c : Conn} {act : Act}
    {evs : List Event} (hw : s.DescriptorsWellFormed) (hw' : s'.DescriptorsWellFormed)
    (hc : s.conns[i]? = some c) (hs : ConnStep srv s i c act s' evs) (h' : s'.NoStale) :
    s.SentinelSafe c act := by
  cases hs with
  | frame _ _ | progress _ _ _ _ _ _ | save _ _ _ | notified _ | notifyFailed _ _ => trivial
  | load f hp =>
      intro f₁ hf₁ hz hne hl
      rw [hp] at hf₁
      cases hf₁
      have hopen : c.isOpen := hw.liveOpen i c hc (by simp [Conn.hasEnded, hp])
      have hstale : (selectSession s.sessions c f.header.sessionId).lookup 0 = some c.fd := by
        rw [lookup_selectSession]
        simp [hz, hne, Ne.symm hne, hl]
      exact hne ((h' 0 c.fd hstale).currentSid_eq hw'
        ((getElem?_conns_set hc).mpr (.inl ⟨rfl, rfl⟩)) hopen rfl)
  | leave e hf he hn =>
      intro _ hz hl
      have hopen : c.isOpen := hw.liveOpen i c hc (hasEnded_of_canFail hf)
      have hstale : (leaveSession s.sessions c).lookup noSession = some c.fd := by
        rw [lookup_leaveSession]
        simp [hz, hl]
      obtain ⟨j, d, hd, hdopen, hdfd, -⟩ := h' noSession c.fd hstale
      obtain ⟨-, rfl⟩ | ⟨hji, hd⟩ := (getElem?_conns_set hc).mp hd
      · simp [Conn.isOpen] at hdopen
      · exact hji (hw.distinct j i d c hd hc hdopen hopen hdfd)
  | notify e hf he hn hpool | noPool e hf he hn hpool =>
      intro _ hz
      exact absurd hz hn.2.2
  | escape e hf he =>
      intro he'
      exact absurd he' he

/-- The registry names the right connections: every entry an open connection that is using
the session, no descriptor twice, and `send_to_session` writes to no client that is not
using the session. -/
structure RegistrySound (srv : Server) (s : Engine) : Prop where
  entries : ∀ sid fd, s.sessions.lookup sid = some fd →
    ∃ c ∈ s.conns, c.isOpen ∧ c.fd = fd ∧ c.currentSid = sid
  single : ∀ sid sid' fd, s.sessions.lookup sid = some fd → s.sessions.lookup sid' = some fd →
    sid = sid'
  sends : ∀ sid commandId payload s' evs,
    s.step srv (.sendTo sid commandId payload) = some (s', evs) →
    ∀ origin k fd bytes, .wrote origin k fd bytes ∈ evs →
      ∀ c ∈ s.conns, c.isOpen → c.fd = fd → c.currentSid = sid

theorem registrySound_iff_noStale {srv : Server} {s : Engine} (hw : s.DescriptorsWellFormed) :
    RegistrySound srv s ↔ s.NoStale := by
  constructor
  · intro h sid fd hl
    obtain ⟨c, hc, hrest⟩ := h.entries sid fd hl
    obtain ⟨i, hi⟩ := List.mem_iff_getElem?.mp hc
    exact ⟨i, c, hi, hrest⟩
  · intro h
    refine ⟨?_, ?_, ?_⟩
    · intro sid fd hl
      obtain ⟨i, c, hi, hrest⟩ := h sid fd hl
      exact ⟨c, List.mem_of_getElem? hi, hrest⟩
    · intro sid sid' fd hl hl'
      obtain ⟨i, c, hi, hopen, hfd, hsid⟩ := h sid fd hl
      exact hsid.symm.trans ((h sid' fd hl').currentSid_eq hw hi hopen hfd)
    · intro sid commandId payload s' evs hs origin k fd bytes hev c hc hopen hfd
      obtain ⟨i, hi⟩ := List.mem_iff_getElem?.mp hc
      cases hl : s.sessions.lookup sid with
      | none =>
          simp only [step, hl, Option.some.injEq, Prod.mk.injEq] at hs
          simp [← hs.2] at hev
      | some fd' =>
          simp only [step, hl, Option.some.injEq, Prod.mk.injEq] at hs
          obtain ⟨-, rfl⟩ := hs
          simp only [submit] at hev
          split at hev
          · simp only [List.mem_singleton, Event.wrote.injEq] at hev
            obtain ⟨-, -, rfl, -⟩ := hev
            exact (h sid _ hl).currentSid_eq hw hi hopen hfd
          · simp at hev

section Runs

variable (srv : Server) (discovery : DiscoveryConfig) (enabled : Bool)

/-- Along every run the registry is sound exactly as long as no session id of a client is
taken for a sentinel. -/
theorem registrySound_iff_sentinelSafe {tr : List (Step Engine Label Event)} {s : Engine}
    (h : Trace (step srv) (init srv discovery enabled) tr s) :
    (∀ x ∈ tr, RegistrySound srv x.post) ↔
      ∀ x ∈ tr, x.pre.OnConn (fun _ => x.pre.SentinelSafe) x.label := by
  have hwf := h.always DescriptorsWellFormed (descriptorsWellFormed_init srv discovery enabled)
    (fun _ _ _ _ => descriptorsWellFormed_step)
  have hsound : (∀ x ∈ tr, RegistrySound srv x.post) ↔ ∀ x ∈ tr, x.post.NoStale :=
    forall₂_congr fun x hx => registrySound_iff_noStale (hwf.2 x hx).2
  rw [hsound]
  refine h.invariant_iff NoStale (fun s => s.DescriptorsWellFormed ∧ s.NotifyingUnregistered)
    (fun s => s.OnConn fun _ => s.SentinelSafe) ?_ ⟨descriptorsWellFormed_init srv discovery enabled, ?_⟩ ?_ ?_
  · simp [NoStale, init]
  · simp [NotifyingUnregistered, init]
  · intro s a s' evs hn haux hsafe hs
    obtain ⟨hn', hu'⟩ := registry_step haux.1 hn haux.2 hsafe hs
    exact ⟨hn', descriptorsWellFormed_step haux.1 hs, hu'⟩
  · intro s a s' evs _ haux hs hn'
    cases step_cases hs with
    | accepted _ _ _ _ | rejected _ _ _ _ => trivial
    | aside _ _ _ hnot => exact onConn_of_ne hnot
    | conn hc hstep =>
        exact (onConn_work hc).mpr
          (sentinelSafe_of_noStale haux.1 (descriptorsWellFormed_step haux.1 hs) hc hstep hn')

end Runs

theorem registrySound_two_clients :
    ∃ tr s, Trace (step Server.bare) (init Server.bare {} false) tr s ∧ tr.length = 12 ∧
      ∀ x ∈ tr, RegistrySound Server.bare x.post := by
  obtain ⟨tr, s, htr, hlength, hsafe⟩ := exists_trace_of_exec
    (step Server.bare) (init Server.bare {} false)
    ([.accept .binary 5, .accept .text 6] ++ Label.request (.conn 0) (.command 1 7) ++
      Label.request (.conn 1) (.command 1 9) ++ Label.request (.conn 0) (.command 1 0) ++
      [.work (.conn 0) (.fail (.std "Client disconnected"))])
    (fun tr _ => tr.length = 12 ∧ 
      ∀ x ∈ tr, x.pre.OnConn (fun _ => x.pre.SentinelSafe) x.label) (by decide +kernel)
  exact ⟨tr, s, htr, hlength, (registrySound_iff_sentinelSafe Server.bare {} false htr).mpr hsafe⟩

/-- A client sends a frame for session 0 and one for session 7, and leaves. Its descriptor
is given to a client that uses session 9, and still stands in the registry under 0. -/
theorem not_registrySound_sentinel :
    ¬ ∀ srv discovery enabled tr s, Trace (step srv) (init srv discovery enabled) tr s →
      ∀ x ∈ tr, RegistrySound srv x.post := by
  intro h
  obtain ⟨tr, s, htr, x, hx, hl, c, hc, hopen, hfd, hsid⟩ := exists_trace_of_exec
    (step Server.bare) (init Server.bare {} false)
    ([.accept .binary 5] ++ Label.request (.conn 0) (.command 1 0) ++
      Label.request (.conn 0) (.command 1 7) ++
      [.work (.conn 0) (.fail (.std "Client disconnected")), .accept .binary 5] ++
      Label.request (.conn 1) (.command 1 9))
    (fun tr _ => ∃ x ∈ tr, x.post.sessions.lookup 0 = some 5 ∧
      ∃ c ∈ x.post.conns, c.isOpen ∧ c.fd = 5 ∧ c.currentSid = 9) (by decide +kernel)
  have hwrote : x.post.step Server.bare (.sendTo 0 1 []) =
      some (x.post, [.wrote .sendTo 0 5 (binaryFrame ⟨1, 0, 0, 0⟩ [])]) := by
    have hdesc : x.post.descriptorOpen 5 := ⟨c, hc, hopen, hfd⟩
    simp [step, hl, submit, hdesc, size32]
  have huses := (h Server.bare {} false tr s htr x hx).sends 0 1 [] x.post _ hwrote .sendTo 0 5 _
    (List.mem_singleton.mpr rfl) c hc hopen hfd
  rw [hsid] at huses
  exact absurd huses (by decide)

end Servd.Engine
