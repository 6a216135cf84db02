import Servd.SessionRegistry

/-!
Reachability of live clients. A live connection that has served a session should be
found through the registry, itself or another live connection of the same session.
The registry is keyed by session id alone, so a connection that leaves a session
takes the entry of every other connection of that session with it. The step
condition below says exactly which steps do not.
-/
namespace Servd

def Conn.serves (c : Conn) (sid : UInt64) : Prop :=
  c.isLive = true ∧ c.latest = some sid

instance (c : Conn) (sid : UInt64) : Decidable (c.serves sid) :=
  inferInstanceAs (Decidable (_ ∧ _))

namespace Engine

open Transition

/-- Every session that a live connection serves has an entry, for a live connection that
serves it. -/
def Reachable (s : Engine) : Prop :=
  ∀ c ∈ s.conns, ∀ sid, c.serves sid →
    ∃ d ∈ s.conns, d.serves sid ∧ s.sessions.lookup sid = some d.fd

def OtherServes (s : Engine) (i : Nat) (sid : UInt64) : Prop :=
  ∃ j < s.conns.length, j ≠ i ∧ ∃ d ∈ s.conns[j]?, d.serves sid

instance (s : Engine) (i : Nat) (sid : UInt64) : Decidable (s.OtherServes i sid) :=
  inferInstanceAs (Decidable (∃ j < s.conns.length, j ≠ i ∧ ∃ d ∈ s.conns[j]?, d.serves sid))

theorem otherServes_iff {s : Engine} {i : Nat} {sid : UInt64} :
    s.OtherServes i sid ↔ ∃ (j : Nat) (d : Conn), j ≠ i ∧ s.conns[j]? = some d ∧ d.serves sid := by
  constructor
  · intro h
    obtain ⟨j, -, hji, d, hd, hs⟩ := h
    exact ⟨j, d, hji, hd, hs⟩
  · intro h
    obtain ⟨j, d, hji, hd, hs⟩ := h
    exact ⟨j, (List.getElem?_eq_some_iff.mp hd).1, hji, d, hd, hs⟩

theorem reachable_iff {s : Engine} :
    s.Reachable ↔ ∀ (j : Nat) (d : Conn) (sid : UInt64), s.conns[j]? = some d → d.serves sid →
      ∃ (k : Nat) (e : Conn), s.conns[k]? = some e ∧ e.serves sid ∧
        s.sessions.lookup sid = some e.fd := by
  constructor
  · intro h j d sid hd hs
    obtain ⟨e, he, hes, hl⟩ := h d (List.mem_of_getElem? hd) sid hs
    obtain ⟨k, hk⟩ := List.mem_iff_getElem?.mp he
    exact ⟨k, e, hk, hes, hl⟩
  · intro h d hd sid hs
    obtain ⟨j, hj⟩ := List.mem_iff_getElem?.mp hd
    obtain ⟨k, e, hk, hes, hl⟩ := h j d sid hj hs
    exact ⟨e, List.mem_of_getElem? hk, hes, hl⟩

/-- The id a connection serves is its current one. -/
def LatestCurrent (s : Engine) : Prop :=
  ∀ c ∈ s.conns, ∀ sid, c.latest = some sid → c.currentSid = sid

theorem hasEnded_of_serves {c : Conn} {sid : UInt64} (h : c.serves sid) : c.hasEnded = false :=
  hasEnded_of_isLive h.1

theorem reachable_of_same {s s' : Engine} {i : Nat} {c c' : Conn} (h : s.Reachable)
    (hc : s.conns[i]? = some c) (hconns : s'.conns = s.conns.set i c')
    (hsessions : s'.sessions = s.sessions) (hfd : c'.fd = c.fd)
    (hserves : ∀ k, c'.serves k ↔ c.serves k) : s'.Reachable := by
  rw [reachable_iff] at h ⊢
  intro j d sid hd hs
  rw [hconns, getElem?_conns_set hc] at hd
  have hold : ∃ (k : Nat) (e : Conn), s.conns[k]? = some e ∧ e.serves sid ∧
      s.sessions.lookup sid = some e.fd := by
    obtain ⟨-, rfl⟩ | ⟨-, hd⟩ := hd
    · exact h i c sid hc ((hserves sid).mp hs)
    · exact h j d sid hd hs
  obtain ⟨k, e, hk, hes, hl⟩ := hold
  rw [hsessions]
  by_cases hki : k = i
  · subst hki
    rw [hc] at hk
    cases hk
    refine ⟨k, c', ?_, (hserves sid).mpr hes, hfd ▸ hl⟩
    rw [hconns, getElem?_conns_set hc]
    exact .inl ⟨rfl, rfl⟩
  · refine ⟨k, e, ?_, hes, hl⟩
    rw [hconns, getElem?_conns_set hc]
    exact .inr ⟨hki, hk⟩

/-- A live connection gives up its current session, for another one whose entry it takes or
for none. Its entry goes if `gone`. Every client stays reachable exactly if nobody else
serves the session that is left, or the entry stays and is somebody else's. -/
theorem reachable_leave_iff {s s' : Engine} {i : Nat} {c c' : Conn} {gone : Prop}
    [Decidable gone] (hw : s.DescriptorsWellFormed) (hcur : s.LatestCurrent) (h : s.Reachable)
    (hc : s.conns[i]? = some c) (hlive : c.isLive = true)
    (hconns : s'.conns = s.conns.set i c')
    (hserves : ∀ k, c'.serves k → k ≠ c.currentSid ∧ s'.sessions.lookup k = some c'.fd)
    (hlookup : ∀ k, ¬ c'.serves k → s'.sessions.lookup k =
      if k = c.currentSid ∧ gone then none else s.sessions.lookup k) :
    s'.Reachable ↔
      (s.OtherServes i c.currentSid → s.sessions.lookup c.currentSid ≠ some c.fd ∧ ¬ gone) := by
  have hopen : c.isOpen := hw.liveOpen i c hc (hasEnded_of_isLive hlive)
  have hleft : ¬ c'.serves c.currentSid := fun hs => (hserves _ hs).1 rfl
  have other : ∀ {j : Nat} {d : Conn}, j ≠ i → s.conns[j]? = some d → s'.conns[j]? = some d := by
    intro j d hji hd
    rw [hconns, getElem?_conns_set hc]
    exact .inr ⟨hji, hd⟩
  rw [reachable_iff] at h ⊢
  constructor
  · intro h' hother
    obtain ⟨j, d, hji, hd, hs⟩ := otherServes_iff.mp hother
    obtain ⟨k, e, hk, hes, hl⟩ := h' j d c.currentSid (other hji hd) hs
    rw [hconns, getElem?_conns_set hc] at hk
    obtain ⟨rfl, rfl⟩ | ⟨hki, hk⟩ := hk
    · exact absurd hes hleft
    · rw [hlookup _ hleft] at hl
      split at hl
      · cases hl
      · rename_i hgone
        refine ⟨fun hself => ?_, fun hg => hgone ⟨rfl, hg⟩⟩
        rw [hself] at hl
        have heopen : e.isOpen := hw.liveOpen k e hk (hasEnded_of_serves hes)
        exact hki (hw.distinct k i e c hk hc heopen hopen (Option.some.inj hl).symm)
  · intro hcond j d sid hd hs
    by_cases htaken : c'.serves sid
    · refine ⟨i, c', ?_, htaken, (hserves sid htaken).2⟩
      rw [hconns, getElem?_conns_set hc]
      exact .inl ⟨rfl, rfl⟩
    · rw [hconns, getElem?_conns_set hc] at hd
      obtain ⟨rfl, rfl⟩ | ⟨hji, hd⟩ := hd
      · exact absurd hs htaken
      · obtain ⟨k, e, hk, hes, hl⟩ := h j d sid hd hs
        have hki : k ≠ i := by
          rintro rfl
          rw [hc] at hk
          cases hk
          have hsid := hcur c (List.mem_of_getElem? hc) sid hes.2
          subst hsid
          exact (hcond (otherServes_iff.mpr ⟨j, d, hji, hd, hs⟩)).1 hl
        refine ⟨k, e, other hki hk, hes, ?_⟩
        rw [hlookup sid htaken, if_neg ?_]
        · exact hl
        · intro hg
          obtain ⟨rfl, hg⟩ := hg
          exact (hcond (otherServes_iff.mpr ⟨j, d, hji, hd, hs⟩)).2 hg

/-- The first frame of a connection carries the value its current id starts with. Nothing is
registered, so an entry has to be there already. -/
theorem reachable_first_iff {s s' : Engine} {i : Nat} {c c' : Conn} (h : s.Reachable)
    (hc : s.conns[i]? = some c) (hnone : c.latest = none)
    (hconns : s'.conns = s.conns.set i c') (hsessions : s'.sessions = s.sessions)
    (hfd : c'.fd = c.fd) (hserves : ∀ k, c'.serves k ↔ k = c.currentSid) :
    s'.Reachable ↔
      (s.sessions.lookup c.currentSid = some c.fd ∨ s.OtherServes i c.currentSid) := by
  have self : s'.conns[i]? = some c' := by
    rw [hconns, getElem?_conns_set hc]
    exact .inl ⟨rfl, rfl⟩
  have fresh : ∀ {k : Nat} {e : Conn} {sid : UInt64}, s.conns[k]? = some e → e.serves sid →
      k ≠ i := by
    rintro k e sid hk hes rfl
    rw [hc] at hk
    cases hk
    exact absurd (hnone.symm.trans hes.2) (by simp)
  rw [reachable_iff] at h ⊢
  rw [hsessions]
  constructor
  · intro h'
    obtain ⟨k, e, hk, hes, hl⟩ := h' i c' c.currentSid self ((hserves _).mpr rfl)
    rw [hconns, getElem?_conns_set hc] at hk
    obtain ⟨rfl, rfl⟩ | ⟨hki, hk⟩ := hk
    · exact .inl (hl.trans (congrArg some hfd))
    · exact .inr (otherServes_iff.mpr ⟨k, e, hki, hk, hes⟩)
  · intro hcond j d sid hd hs
    have old : ∀ {j : Nat} {d : Conn}, s.conns[j]? = some d → d.serves sid →
        ∃ (k : Nat) (e : Conn), s'.conns[k]? = some e ∧ e.serves sid ∧
          s.sessions.lookup sid = some e.fd := by
      intro j d hd hs
      obtain ⟨k, e, hk, hes, hl⟩ := h j d sid hd hs
      refine ⟨k, e, ?_, hes, hl⟩
      rw [hconns, getElem?_conns_set hc]
      exact .inr ⟨fresh hk hes, hk⟩
    rw [hconns, getElem?_conns_set hc] at hd
    obtain ⟨rfl, rfl⟩ | ⟨hji, hd⟩ := hd
    · obtain rfl := (hserves sid).mp hs
      cases hcond with
      | inl hl => exact ⟨j, d, self, hs, hl.trans (congrArg some hfd.symm)⟩
      | inr hother =>
          obtain ⟨k, e, -, hk, hes⟩ := otherServes_iff.mp hother
          exact old hk hes
    · exact old hd hs

/-- The step takes no client's registration away. A connection that switches to another
session or leaves its loop does so while nobody else serves its session, or while the entry
is another connection's and stays; a connection whose first frame carries 2^64 - 1 finds
that session registered. -/
def KeepsReachable (s : Engine) (i : Nat) (c : Conn) : Act → Prop
  | .load => ∀ f ∈ c.phase.loadingFrame,
      if f.header.sessionId = c.currentSid then
        c.latest = none →
          s.sessions.lookup c.currentSid = some c.fd ∨ s.OtherServes i c.currentSid
      else
        s.OtherServes i c.currentSid →
          s.sessions.lookup c.currentSid ≠ some c.fd ∧ c.currentSid = 0
  | .fail e => s.OtherServes i c.currentSid →
      s.sessions.lookup c.currentSid ≠ some c.fd ∧ (e.isStd → c.currentSid = noSession)
  | .frame _ | .progress _ | .save | .notified _ => True

instance (s : Engine) (i : Nat) (c : Conn) : (act : Act) → Decidable (s.KeepsReachable i c act)
  | .load => inferInstanceAs (Decidable (∀ f ∈ c.phase.loadingFrame,
      if f.header.sessionId = c.currentSid then
        c.latest = none →
          s.sessions.lookup c.currentSid = some c.fd ∨ s.OtherServes i c.currentSid
      else
        s.OtherServes i c.currentSid →
          s.sessions.lookup c.currentSid ≠ some c.fd ∧ c.currentSid = 0))
  | .fail e => inferInstanceAs (Decidable (s.OtherServes i c.currentSid →
      s.sessions.lookup c.currentSid ≠ some c.fd ∧ (e.isStd → c.currentSid = noSession)))
  | .frame _ | .progress _ | .save | .notified _ => inferInstanceAs (Decidable True)

theorem serves_of_live {c : Conn} {sid k : UInt64} (hlive : c.isLive = true)
    (hlatest : c.latest = some sid) : c.serves k ↔ k = sid := by
  simp [Conn.serves, hlive, hlatest, eq_comm]

theorem not_serves_of_not_live {c : Conn} {k : UInt64} (h : c.isLive = false) : ¬ c.serves k := by
  simp [Conn.serves, h]

theorem reachable_load_iff {s s' : Engine} {i : Nat} {c c' : Conn} {sid : UInt64}
    (hw : s.DescriptorsWellFormed) (hcur : s.LatestCurrent) (h : s.Reachable)
    (hc : s.conns[i]? = some c) (hlive : c.isLive = true)
    (hconns : s'.conns = s.conns.set i c')
    (hsessions : s'.sessions = selectSession s.sessions c sid) (hfd : c'.fd = c.fd)
    (hlive' : c'.isLive = true) (hlatest' : c'.latest = some sid) :
    s'.Reachable ↔
      if sid = c.currentSid then
        c.latest = none →
          s.sessions.lookup c.currentSid = some c.fd ∨ s.OtherServes i c.currentSid
      else
        s.OtherServes i c.currentSid →
          s.sessions.lookup c.currentSid ≠ some c.fd ∧ c.currentSid = 0 := by
  have hserves' : ∀ k, c'.serves k ↔ k = sid := fun k => serves_of_live hlive' hlatest'
  by_cases hsid : sid = c.currentSid
  · subst hsid
    have hsame : s'.sessions = s.sessions := hsessions.trans (by simp [selectSession])
    rw [if_pos rfl]
    cases hlatest : c.latest with
    | none =>
        rw [reachable_first_iff h hc hlatest hconns hsame hfd hserves']
        simp
    | some sid =>
        have hsid := hcur c (List.mem_of_getElem? hc) sid hlatest
        have hreach : s'.Reachable := by
          refine reachable_of_same h hc hconns hsame hfd fun k => ?_
          rw [hserves', serves_of_live hlive hlatest, hsid]
        simp [hreach]
  · have hlookup : ∀ k, ¬ c'.serves k → s'.sessions.lookup k =
        if k = c.currentSid ∧ c.currentSid ≠ 0 then none else s.sessions.lookup k := by
      intro k hk
      rw [hserves'] at hk
      rw [hsessions, lookup_selectSession, if_neg hsid, if_neg hk]
    have hentry : ∀ k, c'.serves k → k ≠ c.currentSid ∧ s'.sessions.lookup k = some c'.fd := by
      intro k hk
      obtain rfl := (hserves' k).mp hk
      rw [hsessions, lookup_selectSession, if_neg hsid, if_pos rfl, hfd]
      exact ⟨hsid, rfl⟩
    rw [if_neg hsid, reachable_leave_iff hw hcur h hc hlive hconns hentry hlookup, not_not]

theorem reachable_fail_iff {s s' : Engine} {i : Nat} {c c' : Conn} {gone : Prop} [Decidable gone]
    (hw : s.DescriptorsWellFormed) (hcur : s.LatestCurrent) (h : s.Reachable)
    (hc : s.conns[i]? = some c) (hlive : c.isLive = true)
    (hconns : s'.conns = s.conns.set i c') (hlive' : c'.isLive = false)
    (hlookup : ∀ k, s'.sessions.lookup k =
      if k = c.currentSid ∧ gone then none else s.sessions.lookup k) :
    s'.Reachable ↔
      (s.OtherServes i c.currentSid → s.sessions.lookup c.currentSid ≠ some c.fd ∧ ¬ gone) :=
  reachable_leave_iff hw hcur h hc hlive hconns
    (fun _ hk => absurd hk (not_serves_of_not_live hlive')) (fun k _ => hlookup k)

theorem reachable_connStep_iff {srv : Server} {s s' : Engine} {i : Nat} {c : Conn} {act : Act}
    {evs : List Event} (hw : s.DescriptorsWellFormed) (hcur : s.LatestCurrent)
    (h : s.Reachable) (hc : s.conns[i]? = some c) (hs : ConnStep srv s i c act s' evs) :
    s'.Reachable ↔ s.KeepsReachable i c act := by
  cases hs with
  | frame f hp =>
      refine iff_of_true (reachable_of_same h hc rfl rfl rfl fun k => ?_) trivial
      simp [Conn.serves, Conn.isLive, hp]
  | load f hp =>
      have hlive : c.isLive = true := by simp [Conn.isLive, hp]
      refine Iff.trans (reachable_load_iff hw hcur h hc hlive rfl rfl rfl rfl rfl) ?_
      simp [KeepsReachable, hp, Phase.loadingFrame]
  | progress a req req' es hp ha =>
      refine iff_of_true (reachable_of_same h hc rfl rfl rfl fun k => ?_) trivial
      simp [Conn.serves, Conn.isLive, hp]
  | save req hp ht =>
      refine iff_of_true (reachable_of_same h hc rfl rfl rfl fun k => ?_) trivial
      simp [Conn.serves, Conn.isLive, hp]
  | leave e hf he hn =>
      refine Iff.trans (reachable_fail_iff hw hcur h hc (isLive_of_canFail hf) rfl rfl
        (lookup_leaveSession s.sessions c)) ?_
      simp [KeepsReachable, he]
  | notify e hf he hn hpool | noPool e hf he hn hpool =>
      refine Iff.trans (reachable_fail_iff hw hcur h hc (isLive_of_canFail hf) rfl rfl
        (lookup_leaveSession s.sessions c)) ?_
      simp [KeepsReachable, he]
  | escape e hf he =>
      have hlookup : ∀ k, s.sessions.lookup k =
          if k = c.currentSid ∧ False then none else s.sessions.lookup k := by simp
      refine Iff.trans (reachable_fail_iff hw hcur h hc (isLive_of_canFail hf) rfl rfl hlookup) ?_
      simp [KeepsReachable, he]
  | notified hp =>
      refine iff_of_true (reachable_of_same h hc rfl rfl rfl fun k => ?_) trivial
      simp [Conn.serves, Conn.isLive, hp]
  | notifyFailed e hp =>
      refine iff_of_true (reachable_of_same h hc rfl rfl rfl fun k => ?_) trivial
      simp [Conn.serves, Conn.isLive, hp]

theorem latestCurrent_step {srv : Server} {s s' : Engine} {a : Label} {evs : List Event}
    (h : s.LatestCurrent) (hs : s.step srv a = some (s', evs)) : s'.LatestCurrent := by
  refine forall_conns_step h ?_ ?_ hs
  · intro mode fd sid hsid
    cases hsid
  · intro i c act s' evs hc hstep
    cases hstep with
    | load f hp => exact ⟨_, rfl, fun sid hsid => Option.some.inj hsid⟩
    | frame _ _ | progress _ _ _ _ _ _ | save _ _ _ | leave _ _ _ _ | notify _ _ _ _ _
    | noPool _ _ _ _ _ | escape _ _ _ | notified _ | notifyFailed _ _ => exact ⟨_, rfl, hc⟩

theorem reachable_step_iff {srv : Server} {s s' : Engine} {a : Label} {evs : List Event}
    (hw : s.DescriptorsWellFormed) (hcur : s.LatestCurrent) (h : s.Reachable)
    (hs : s.step srv a = some (s', evs)) : s'.Reachable ↔ s.OnConn s.KeepsReachable a := by
  cases step_cases hs with
  | accepted mode fd hfd hroom =>
      refine iff_of_true ?_ trivial
      intro c hc sid hserves
      cases List.mem_append.mp hc with
      | inl hc =>
          obtain ⟨d, hd, hdserves, hl⟩ := h c hc sid hserves
          exact ⟨d, List.mem_append_left _ hd, hdserves, hl⟩
      | inr hc =>
          rw [List.mem_singleton] at hc
          subst hc
          cases hserves.2
  | rejected mode fd hfd hfull => exact iff_of_true h trivial
  | aside hconns hsessions _ hnot =>
      refine iff_of_true ?_ (onConn_of_ne hnot)
      unfold Reachable
      rw [hconns, hsessions]
      exact h
  | conn hc hstep => rw [onConn_work hc, reachable_connStep_iff hw hcur h hc hstep]

/-- Along every run the live clients stay reachable exactly as long as no step takes a
registration away from one. -/
theorem reachable_iff_keepsReachable (srv : Server) (discovery : DiscoveryConfig)
    (enabled : Bool) {tr : List (Step Engine Label Event)} {s : Engine}
    (h : Trace (step srv) (init srv discovery enabled) tr s) :
    (∀ x ∈ tr, x.post.Reachable) ↔ ∀ x ∈ tr, x.pre.OnConn x.pre.KeepsReachable x.label := by
  refine h.invariant_iff Reachable (fun s => s.DescriptorsWellFormed ∧ s.LatestCurrent)
    (fun s => s.OnConn s.KeepsReachable) ?_
    ⟨descriptorsWellFormed_init srv discovery enabled, ?_⟩ ?_ ?_
  · simp [Reachable, init]
  · simp [LatestCurrent, init]
  · intro s a s' evs hr haux hkeeps hs
    exact ⟨(reachable_step_iff haux.1 haux.2 hr hs).mpr hkeeps,
      descriptorsWellFormed_step haux.1 hs, latestCurrent_step haux.2 hs⟩
  · intro s a s' evs hr haux hs hr'
    exact (reachable_step_iff haux.1 haux.2 hr hs).mp hr'

theorem reachable_switch :
    ∃ tr s, Trace (step Server.bare) (init Server.bare {} false) tr s ∧ tr.length = 12 ∧
      ∀ x ∈ tr, x.post.Reachable := by
  obtain ⟨tr, s, htr, hlength, hkeeps⟩ := exists_trace_of_exec
    (step Server.bare) (init Server.bare {} false)
    ([.accept .binary 5, .accept .text 6] ++ Label.request (.conn 0) (.command 1 7) ++
      Label.request (.conn 1) (.command 1 8) ++ Label.request (.conn 0) (.command 1 9) ++
      [.work (.conn 1) (.fail (.std "Client disconnected"))])
    (fun tr _ => tr.length = 12 ∧ ∀ x ∈ tr, x.pre.OnConn x.pre.KeepsReachable x.label)
    (by decide +kernel)
  exact ⟨tr, s, htr, hlength, (reachable_iff_keepsReachable Server.bare {} false htr).mpr hkeeps⟩

/-- A client reconnects with its session id before its old connection is torn down; the
teardown removes the entry of the new connection. -/
theorem not_reachable_reconnect :
    ¬ ∀ srv discovery enabled tr s, Trace (step srv) (init srv discovery enabled) tr s →
      ∀ x ∈ tr, x.post.Reachable := by
  intro h
  obtain ⟨tr, s, htr, x, hx, hl, c, hc, hserves⟩ := exists_trace_of_exec
    (step Server.bare) (init Server.bare {} false)
    ([.accept .binary 5] ++ Label.request (.conn 0) (.command 1 7) ++ [.accept .binary 6] ++
      Label.request (.conn 1) (.command 1 7) ++
      [.work (.conn 0) (.fail (.std "Client disconnected"))])
    (fun tr _ => ∃ x ∈ tr, x.post.sessions.lookup 7 = none ∧ ∃ c ∈ x.post.conns, c.serves 7)
    (by decide +kernel)
  obtain ⟨d, -, -, hd⟩ := h Server.bare {} false tr s htr x hx c hc 7 hserves
  rw [hl] at hd
  cases hd

end Engine

end Servd
