import Servd.Requests
import Servd.SessionRegistry

/-!
Broadcasts under interleaving. A broadcast walks over a copy of the registry and is
suspended at every write, and for a predicate also while it loads a record. Nothing
is checked again after a suspension, so what it writes is meant for its receiver as
long as, meanwhile, no entry that is still to be served is changed and no record
that has just been tested is saved.
-/
namespace Servd

def Cast.isDone (b : Cast) : Bool :=
  match b.stage with
  | .done => true
  | .writing | .fetching | .fetched _ => false

def Cast.testedId (b : Cast) : Option UInt64 :=
  match b.stage, b.rest with
  | .fetched _, (sid, _) :: _ => some sid
  | _, _ => none

namespace Engine

open Transition

def Pending (s : Engine) (sid : UInt64) : Prop :=
  ∃ b ∈ s.casts, b.isDone = false ∧ ∃ e ∈ b.rest, e.1 = sid

def Tested (s : Engine) (sid : UInt64) : Prop :=
  ∃ b ∈ s.casts, b.testedId = some sid

instance (s : Engine) (sid : UInt64) : Decidable (s.Pending sid) :=
  inferInstanceAs (Decidable (∃ b ∈ s.casts, b.isDone = false ∧ ∃ e ∈ b.rest, e.1 = sid))

instance (s : Engine) (sid : UInt64) : Decidable (s.Tested sid) :=
  inferInstanceAs (Decidable (∃ b ∈ s.casts, b.testedId = some sid))

/-- The step of a connection changes no entry that a broadcast has still to serve. -/
def KeepsPending (s : Engine) (c : Conn) : Act → Prop
  | .load => ∀ f ∈ c.phase.loadingFrame, f.header.sessionId ≠ c.currentSid →
      (c.currentSid ≠ 0 → ¬ s.Pending c.currentSid) ∧
        (s.Pending f.header.sessionId → s.sessions.lookup f.header.sessionId = some c.fd)
  | .fail e => e.isStd → c.currentSid ≠ noSession → ¬ s.Pending c.currentSid
  | .frame _ | .progress _ | .save | .notified _ => True

instance (s : Engine) (c : Conn) : (act : Act) → Decidable (s.KeepsPending c act)
  | .load => inferInstanceAs (Decidable (∀ f ∈ c.phase.loadingFrame,
      f.header.sessionId ≠ c.currentSid →
        (c.currentSid ≠ 0 → ¬ s.Pending c.currentSid) ∧
          (s.Pending f.header.sessionId → s.sessions.lookup f.header.sessionId = some c.fd)))
  | .fail e => inferInstanceAs (Decidable (e.isStd → c.currentSid ≠ noSession →
      ¬ s.Pending c.currentSid))
  | .frame _ | .progress _ | .save | .notified _ => inferInstanceAs (Decidable True)

def savedSession (s : Engine) : Label → Option Session
  | .work w .save => (s.inFlight w).map (·.state.session)
  | _ => none

/-- The step leaves the running broadcasts undisturbed: no session id is taken for a
sentinel, no entry that is still to be served is changed, and no record that is about to be
tested is saved. -/
def CastSafe (s : Engine) (a : Label) : Prop :=
  s.OnConn (fun _ => s.SentinelSafe) a ∧ s.OnConn (fun _ => s.KeepsPending) a ∧
    ∀ r ∈ s.savedSession a, ¬ s.Tested r.id

instance (s : Engine) (a : Label) : Decidable (s.CastSafe a) :=
  inferInstanceAs (Decidable (_ ∧ _ ∧ _))

/-- What running broadcasts have copied is still what the registry and the store hold. -/
structure CastsCurrent (s : Engine) : Prop where
  entries : ∀ b ∈ s.casts, b.isDone = false → ∀ e ∈ b.rest, s.sessions.lookup e.1 = some e.2
  records : ∀ b ∈ s.casts, ∀ session, b.stage = .fetched session →
    ∃ sid ∈ b.testedId, s.store.lookup sid = some session

theorem castSend_eq_some {k : Nat} {b : Cast} {d : DirectSend} (h : castSend k b = some d) :
    d.origin = .cast k ∧ b.isDone = false ∧ (d.sid, d.fd) ∈ b.rest ∧
      ∀ p ∈ b.predicate, ∃ session, b.stage = .fetched session ∧ b.testedId = some d.sid ∧
        p session = true := by
  unfold castSend at h
  split at h
  · rename_i sid fd rest hst hr
    split at h
    · rename_i hp
      cases h
      refine ⟨rfl, by simp [Cast.isDone, hst], by simp [hr], ?_⟩
      intro p hmem
      rw [Option.isNone_iff_eq_none.mp hp] at hmem
      cases hmem
    · cases h
  · rename_i session sid fd rest hst hr
    split at h
    · rename_i hall
      cases h
      refine ⟨rfl, by simp [Cast.isDone, hst], by simp [hr], ?_⟩
      intro p hmem
      rw [Option.mem_def] at hmem
      exact ⟨session, hst, by simp [Cast.testedId, hst, hr], by simpa [hmem] using hall⟩
    · cases h
  · cases h

theorem nextCast_spec (s : Engine) (k : Nat) (b : Cast) :
    (s.nextCast k b).1.predicate = b.predicate ∧ (s.nextCast k b).1.rest <:+ b.rest ∧
      ∀ session, (s.nextCast k b).1.stage ≠ .fetched session := by
  unfold nextCast
  split
  · exact ⟨rfl, List.suffix_rfl, by simp⟩
  · rename_i sid fd rest hr
    split
    · exact ⟨rfl, hr ▸ List.suffix_cons _ _, by simp⟩
    · exact ⟨rfl, List.suffix_rfl, by simp⟩

theorem castStep_spec {s s' : Engine} {k : Nat} {b : Cast} {r : Except Exc Unit}
    {evs : List Event} (h : s.castStep k b r = some (s', evs)) :
    ∃ b', s'.casts = s.casts.set k b' ∧ b.isDone = false ∧ b'.predicate = b.predicate ∧
      b'.rest <:+ b.rest ∧
      (∀ session, b'.stage = .fetched session →
        ∃ sid ∈ b'.testedId, s'.store.lookup sid = some session) ∧
      ∀ sid record, s.store.lookup sid = some record → s'.store.lookup sid = some record := by
  cases castStep_cases h with
  | thrown e hst =>
      refine ⟨_, rfl, ?_, rfl, List.suffix_rfl, by simp, fun _ _ hl => hl⟩
      cases hb : b.stage with
      | writing | fetching | fetched _ => simp [Cast.isDone, hb]
      | done => exact absurd hb hst
  | written hst =>
      obtain ⟨hp, hr, hf⟩ := nextCast_spec s k b
      exact ⟨_, rfl, by simp [Cast.isDone, hst], hp, hr, fun _ hs => absurd hs (hf _),
        fun _ _ hl => hl⟩
  | fetched entry rest hst hr =>
      refine ⟨_, rfl, by simp [Cast.isDone, hst], rfl, List.suffix_rfl, ?_, ?_⟩
      · intro session hs
        cases hs
        exact ⟨entry.1, by simp [Cast.testedId, hr], s.store.lookup_getOrCreate_self entry.1⟩
      · intro k' record hl
        exact s.store.lookup_getOrCreate_of_some entry.1 hl
  | chosen session entry rest hst hr hall =>
      exact ⟨_, rfl, by simp [Cast.isDone, hst], rfl, hr ▸ List.suffix_cons _ _, by simp,
        fun _ _ hl => hl⟩
  | skipped session entry rest hst hr hall =>
      obtain ⟨hp, hsuffix, hf⟩ := nextCast_spec s k { b with rest := rest }
      exact ⟨_, rfl, by simp [Cast.isDone, hst], hp,
        hr ▸ hsuffix.trans (List.suffix_cons _ _), fun _ hs => absurd hs (hf _),
        fun _ _ hl => hl⟩

theorem castsCurrent_of_frame {s s' : Engine} (h : s.CastsCurrent) (hcasts : s'.casts = s.casts)
    (hentries : ∀ sid fd, s.Pending sid → s.sessions.lookup sid = some fd →
      s'.sessions.lookup sid = some fd)
    (hrecords : ∀ sid record, s.Tested sid → s.store.lookup sid = some record →
      s'.store.lookup sid = some record) : s'.CastsCurrent := by
  constructor
  · intro b hb hdone e he
    rw [hcasts] at hb
    exact hentries e.1 e.2 ⟨b, hb, hdone, e, he, rfl⟩ (h.entries b hb hdone e he)
  · intro b hb session hst
    rw [hcasts] at hb
    obtain ⟨sid, hsid, hl⟩ := h.records b hb session hst
    exact ⟨sid, hsid, hrecords sid session ⟨b, hb, hsid⟩ hl⟩

theorem castsCurrent_connStep {srv : Server} {s s' : Engine} {i : Nat} {c : Conn} {act : Act}
    {evs : List Event} (h : s.CastsCurrent) (hkeeps : s.KeepsPending c act)
    (hsave : ∀ req ∈ c.phase.request, act = .save → ¬ s.Tested req.state.session.id)
    (hs : ConnStep srv s i c act s' evs) : s'.CastsCurrent := by
  have left : ∀ {e : Exc}, e.isStd → s.KeepsPending c (.fail e) → ∀ sid fd, s.Pending sid →
      s.sessions.lookup sid = some fd → (leaveSession s.sessions c).lookup sid = some fd := by
    intro e he hkeeps sid fd hpending hl
    rw [lookup_leaveSession, if_neg ?_]
    · exact hl
    · intro hk
      obtain ⟨rfl, hne⟩ := hk
      exact hkeeps he hne hpending
  cases hs with
  | frame _ _ | progress _ _ _ _ _ _ | escape _ _ _ | notified _ | notifyFailed _ _ =>
      exact castsCurrent_of_frame h rfl (fun _ _ _ hl => hl) (fun _ _ _ hl => hl)
  | load f hp =>
      refine castsCurrent_of_frame h rfl ?_ ?_
      · intro sid fd hpending hl
        have hcond := hkeeps f (by simp [Phase.loadingFrame, hp])
        simp only [lookup_selectSession]
        split
        · exact hl
        · rename_i hne
          split
          · rename_i hsid
            subst hsid
            rw [← (hcond hne).2 hpending, hl]
          · split
            · rename_i hcur
              obtain ⟨rfl, hz⟩ := hcur
              exact absurd hpending ((hcond hne).1 hz)
            · exact hl
      · intro sid record _ hl
        exact s.store.lookup_getOrCreate_of_some _ hl
  | save req hp ht =>
      refine castsCurrent_of_frame h rfl (fun _ _ _ hl => hl) ?_
      intro sid record htested hl
      have hne : sid ≠ req.state.session.id := by
        rintro rfl
        exact hsave req (by simp [Phase.request, hp]) rfl htested
      exact (s.store.lookup_save_ne _ hne).trans hl
  | leave e hf he hn | notify e hf he hn hpool | noPool e hf he hn hpool =>
      exact castsCurrent_of_frame h rfl (left he hkeeps) (fun _ _ _ hl => hl)

theorem castsCurrent_broadcast {s : Engine} (h : s.CastsCurrent) (commandId : UInt16)
    (payload : Bytes) (predicate : Option (Session → Bool)) {order : List (UInt64 × Fd)}
    (hperm : order.Perm s.sessions.pairs) :
    CastsCurrent { s with casts := s.casts ++
      [(s.nextCast s.casts.length ⟨commandId, payload, predicate, order, .writing⟩).1] } := by
  obtain ⟨-, hsuffix, hstage⟩ :=
    nextCast_spec s s.casts.length ⟨commandId, payload, predicate, order, .writing⟩
  constructor
  · intro b hb hdone e he
    cases List.mem_append.mp hb with
    | inl hb => exact h.entries b hb hdone e he
    | inr hb =>
        rw [List.mem_singleton] at hb
        subst hb
        exact UnorderedMap.mem_pairs.mp (hperm.mem_iff.mp (hsuffix.subset he))
  · intro b hb session hst
    cases List.mem_append.mp hb with
    | inl hb => exact h.records b hb session hst
    | inr hb =>
        rw [List.mem_singleton] at hb
        subst hb
        exact absurd hst (hstage session)

theorem castsCurrent_castStep {s s' : Engine} {k : Nat} {b : Cast} {r : Except Exc Unit}
    {evs : List Event} (h : s.CastsCurrent) (hb : s.casts[k]? = some b)
    (hs : s.castStep k b r = some (s', evs)) : s'.CastsCurrent := by
  obtain ⟨b', hcasts, hdone, -, hsuffix, hfetched, hstore⟩ := castStep_spec hs
  obtain ⟨-, -, hsessions, -⟩ := castStep_frame hs
  constructor
  · intro b₁ hb₁ hdone₁ e he
    rw [hcasts] at hb₁
    rw [hsessions]
    cases List.mem_or_eq_of_mem_set hb₁ with
    | inl hb₁ => exact h.entries b₁ hb₁ hdone₁ e he
    | inr hb₁ =>
        subst hb₁
        exact h.entries b (List.mem_of_getElem? hb) hdone e (hsuffix.subset he)
  · intro b₁ hb₁ session hst
    rw [hcasts] at hb₁
    cases List.mem_or_eq_of_mem_set hb₁ with
    | inl hb₁ =>
        obtain ⟨sid, hsid, hl⟩ := h.records b₁ hb₁ session hst
        exact ⟨sid, hsid, hstore sid session hl⟩
    | inr hb₁ =>
        subst hb₁
        exact hfetched session hst

theorem castsCurrent_step {srv : Server} {s s' : Engine} {a : Label} {evs : List Event}
    (h : s.CastsCurrent) (hsafe : s.CastSafe a) (hs : s.step srv a = some (s', evs)) :
    s'.CastsCurrent := by
  obtain ⟨-, hkeeps, hsave⟩ := hsafe
  cases step_form hs with
  | accepted _ _ _ _ | rejected _ _ _ _ | sentTo _ _ _ | settings _ _ _ =>
      exact castsCurrent_of_frame h rfl (fun _ _ _ hl => hl) (fun _ _ _ hl => hl)
  | @conn i c act _ _ hc hstep =>
      refine castsCurrent_connStep h ((onConn_work hc).mp hkeeps) ?_ hstep
      rintro req hreq rfl
      exact hsave req.state.session
        (by simp [savedSession, inFlight, phaseOf, hc, Option.mem_def.mp hreq])
  | @udp j p act _ _ hp hstep =>
      cases hstep with
      | frame _ _ | progress _ _ _ _ _ _ | fail _ _ =>
          exact castsCurrent_of_frame h rfl (fun _ _ _ hl => hl) (fun _ _ _ hl => hl)
      | load f hf =>
          exact castsCurrent_of_frame h rfl (fun _ _ _ hl => hl)
            (fun _ _ _ hl => s.store.lookup_getOrCreate_of_some _ hl)
      | save req hreq ht =>
          refine castsCurrent_of_frame h rfl (fun _ _ _ hl => hl) ?_
          intro sid record htested hl
          have hne : sid ≠ req.state.session.id := by
            rintro rfl
            exact hsave req.state.session
              (by simp [savedSession, inFlight, phaseOf, hp, hreq, Phase.request]) htested
          exact (s.store.lookup_save_ne _ hne).trans hl
  | castStarted commandId payload predicate order hperm =>
      exact castsCurrent_broadcast h commandId payload predicate hperm
  | castResumed hb hstep => exact castsCurrent_castStep h hb hstep

/-- Every frame that a broadcast writes reaches the client it is meant for: the descriptor
belongs to an open connection that is registered for the session in the header and uses it,
and the stored record of that session satisfies the predicate of the broadcast. -/
def BroadcastsMeant (s s' : Engine) (evs : List Event) : Prop :=
  ∀ k sid fd bytes, .wrote (.cast k) sid fd bytes ∈ evs →
    s.sessions.lookup sid = some fd ∧ s.descriptorOpen fd ∧
      (∀ c ∈ s.conns, c.isOpen → c.fd = fd → c.currentSid = sid) ∧
      ∀ b ∈ s'.casts[k]?, ∀ p ∈ b.predicate, ∃ record, s.store.lookup sid = some record ∧
        p record = true

theorem directSend_cast {srv : Server} {s s' : Engine} {a : Label} {evs : List Event} {k : Nat}
    {d : DirectSend} (h : s.CastsCurrent) (hs : s.step srv a = some (s', evs))
    (hd : s.directSend a = some d) (hk : d.origin = .cast k) :
    s.sessions.lookup d.sid = some d.fd ∧
      ∀ b ∈ s'.casts[k]?, ∀ p ∈ b.predicate, ∃ record, s.store.lookup d.sid = some record ∧
        p record = true := by
  cases a with
  | sendTo sid commandId payload =>
      simp only [directSend, Option.map_eq_some_iff] at hd
      obtain ⟨fd, -, rfl⟩ := hd
      cases hk
  | broadcast commandId payload predicate order =>
      obtain ⟨horigin, -, hmem, hpred⟩ := castSend_eq_some hd
      obtain rfl : s.casts.length = k := by simpa [horigin] using hk
      simp only [step] at hs
      split at hs
      · rename_i hperm
        cases hs
        refine ⟨UnorderedMap.mem_pairs.mp (hperm.mem_iff.mp hmem), ?_⟩
        intro b hb p hp
        simp only [List.getElem?_concat_length, Option.mem_def, Option.some.injEq] at hb
        subst hb
        rw [(nextCast_spec s _ _).1] at hp
        obtain ⟨session, hst, -, -⟩ := hpred p hp
        cases hst
      · cases hs
  | resumeCast k' result =>
      cases result with
      | error e => cases hd
      | ok u =>
          simp only [directSend, Option.bind_eq_some_iff] at hd
          obtain ⟨b, hb, hd⟩ := hd
          obtain ⟨horigin, hdone, hmem, hpred⟩ := castSend_eq_some hd
          obtain rfl : k' = k := by simpa [horigin] using hk
          refine ⟨h.entries b (List.mem_of_getElem? hb) hdone _ hmem, ?_⟩
          simp only [step, hb, Option.bind_some] at hs
          obtain ⟨b', hcasts, -, hp', -⟩ := castStep_spec hs
          intro b₁ hb₁ p hp
          rw [hcasts, List.getElem?_set_self (List.getElem?_eq_some_iff.mp hb).1] at hb₁
          cases hb₁
          rw [hp'] at hp
          obtain ⟨session, hst, htested, htrue⟩ := hpred p hp
          obtain ⟨sid, hsid, hl⟩ := h.records b (List.mem_of_getElem? hb) session hst
          obtain rfl : d.sid = sid := Option.some.inj (htested.symm.trans hsid)
          exact ⟨session, hl, htrue⟩
  | accept _ _ | work _ _ | app _ | discoveryRequest _ _ | announceTick => cases hd

theorem broadcastsMeant_step {srv : Server} {s s' : Engine} {a : Label} {evs : List Event}
    (hw : s.DescriptorsWellFormed) (hn : s.NoStale) (h : s.CastsCurrent)
    (hs : s.step srv a = some (s', evs)) : s.BroadcastsMeant s' evs := by
  intro k sid fd bytes hev
  generalize ho : Origin.cast k = origin at hev
  cases wrote_cases hs hev with
  | direct d hd hopen =>
      obtain ⟨hl, hpred⟩ := directSend_cast h hs hd ho.symm
      refine ⟨hl, hopen, ?_, hpred⟩
      intro c hc hcopen hfd
      obtain ⟨i, hi⟩ := List.mem_iff_getElem?.mp hc
      exact (hn d.sid d.fd hl).currentSid_eq hw hi hcopen hfd
  | reply _ _ _ _ _ _ _ _ _ _ _ _ => cases ho

/-- In every run whose steps leave the running broadcasts undisturbed, every broadcast reaches
only the clients it is meant for. -/
theorem broadcastsMeant_of_castSafe (srv : Server) (discovery : DiscoveryConfig) (enabled : Bool)
    {tr : List (Step Engine Label Event)} {s : Engine}
    (h : Trace (step srv) (init srv discovery enabled) tr s)
    (hsafe : ∀ x ∈ tr, x.pre.CastSafe x.label) :
    ∀ x ∈ tr, x.pre.BroadcastsMeant x.post x.events := by
  have hinv := h.invariant
    (fun s => s.DescriptorsWellFormed ∧ s.NoStale ∧ s.NotifyingUnregistered ∧ s.CastsCurrent)
    CastSafe
    ⟨descriptorsWellFormed_init srv discovery enabled, by simp [NoStale, init],
      by simp [NotifyingUnregistered, init], by simp [init], by simp [init]⟩ ?_ hsafe
  · intro x hx
    obtain ⟨hw, hn, -, hc⟩ := (hinv.2 x hx).1
    exact broadcastsMeant_step hw hn hc (h.step_eq x hx)
  · intro s a s' evs hinv hsafe hs
    obtain ⟨hw, hn, hu, hc⟩ := hinv
    obtain ⟨hn', hu'⟩ := registry_step hw hn hu hsafe.1 hs
    exact ⟨descriptorsWellFormed_step hw hs, hn', hu', castsCurrent_step hc hsafe hs⟩

theorem broadcastsMeant_newcomer :
    ∃ tr s, Trace (step Server.bare) (init Server.bare {} false) tr s ∧
      (∃ x ∈ tr, ∃ d ∈ x.pre.directSend x.label, d.fd = 5) ∧
      ∀ x ∈ tr, x.pre.BroadcastsMeant x.post x.events := by
  obtain ⟨tr, s, htr, hsent, hsafe⟩ := exists_trace_of_exec
    (step Server.bare) (init Server.bare {} false)
    ([.accept .binary 5, .accept .binary 6] ++ Label.request (.conn 0) (.command 1 7) ++
      Label.request (.conn 1) (.command 1 8) ++
      [.broadcast 3 [1] (some fun r => r.id == 7) [(8, 6), (7, 5)], .resumeCast 0 (.ok ()),
        .accept .binary 9] ++ Label.request (.conn 2) (.command 1 9) ++
      [.resumeCast 0 (.ok ()), .resumeCast 0 (.ok ()), .resumeCast 0 (.ok ())])
    (fun tr _ => (∃ x ∈ tr, ∃ d ∈ x.pre.directSend x.label, d.fd = 5) ∧
      ∀ x ∈ tr, x.pre.CastSafe x.label) (by decide +kernel)
  exact ⟨tr, s, htr, hsent, broadcastsMeant_of_castSafe Server.bare {} false htr hsafe⟩

/-- While a broadcast to the sessions 7 and 8 is suspended in its first write, the client of
session 8 leaves and its descriptor is given to a client that uses session 9, which does not
satisfy the predicate and still gets the frame. -/
theorem not_broadcastsMeant_reused_descriptor :
    ¬ ∀ srv discovery enabled tr s, Trace (step srv) (init srv discovery enabled) tr s →
      ∀ x ∈ tr, x.pre.BroadcastsMeant x.post x.events := by
  intro h
  obtain ⟨tr, s, htr, x, hx, d, hd, ho, c, hc, hopen, hfd, hsid⟩ := exists_trace_of_exec
    (step Server.bare) (init Server.bare {} false)
    ([.accept .binary 5, .accept .binary 6] ++ Label.request (.conn 0) (.command 1 7) ++
      Label.request (.conn 1) (.command 1 8) ++
      [.broadcast 3 [1] (some fun r => r.id == 7 || r.id == 8) [(7, 5), (8, 6)],
        .resumeCast 0 (.ok ()), .resumeCast 0 (.ok ()),
        .work (.conn 1) (.fail (.std "Client disconnected")), .accept .binary 6] ++
      Label.request (.conn 2) (.command 1 9) ++
      [.resumeCast 0 (.ok ()), .resumeCast 0 (.ok ()), .resumeCast 0 (.ok ())])
    (fun tr _ => ∃ x ∈ tr, ∃ d ∈ x.pre.directSend x.label, d.origin = .cast 0 ∧
      ∃ c ∈ x.pre.conns, c.isOpen ∧ c.fd = d.fd ∧ c.currentSid ≠ d.sid) (by decide +kernel)
  have hev : .wrote (.cast 0) d.sid d.fd d.bytes ∈ x.events := by
    rw [events_of_directSend (htr.step_eq x hx) hd, DirectSend.events,
      if_pos ⟨c, hc, hopen, hfd⟩, ho]
    exact List.mem_singleton.mpr rfl
  obtain ⟨-, -, hclients, -⟩ := h Server.bare {} false tr s htr x hx 0 d.sid d.fd d.bytes hev
  exact hsid (hclients c hc hopen hfd)

end Engine

end Servd
