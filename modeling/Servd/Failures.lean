import Servd.Refinement

/-!
Requests that fail. A request works on its own copy of the record, which only the save
writes back, and the save is the last thing it does. So a request that ends with an
exception might as well not have been there: `Without` relates a run to the same run
without the turns of the request. All it may leave is the default record that its load
has inserted.
-/
namespace Servd

open Coroutine Transition

namespace Workers

/-- What is stored for `k` without a request on `sid`: the same, or nothing where the request
has inserted the default record. -/
def Lags (sid k : UInt64) (r r' : Option Session) : Prop :=
  r' = r ∨ k = sid ∧ r' = none ∧ r = some { id := k }

theorem Lags.getD_eq {sid k : UInt64} {r r' : Option Session} (h : Lags sid k r r') :
    r'.getD { id := k } = r.getD { id := k } := by
  rcases h with rfl | ⟨-, rfl, rfl⟩ <;> rfl

theorem Turn.transfer {srv : Server} {w : Worker} {p p' : Phase} {r r₁ r' : Option Session}
    {act : Act} {es : List RequestEvent} {sid k : UInt64} (h : Turn srv w p r act p' r₁ es)
    (hk : ∀ f ∈ p.frameOf act, f.header.sessionId = k) (hlag : Lags sid k r r') :
    ∃ r₁', Turn srv w p r' act p' r₁' es ∧ Lags sid k r₁ r₁' := by
  cases h with
  | frame f _ => exact ⟨r', .frame f r', hlag⟩
  | load f _ =>
      have hf : f.header.sessionId = k := hk f rfl
      rw [hf, ← hlag.getD_eq, ← hf]
      exact ⟨_, .load f r', .inl rfl⟩
  | progress _ ha => exact ⟨r', .progress r' ha, hlag⟩
  | save _ ht => exact ⟨_, .save r' ht, .inl rfl⟩
  | fail _ hf => exact ⟨r', .fail r' hf, hlag⟩

/-- The workers and records of `t` are those of `s` without a request of `w` on `sid`. -/
structure Without (sid : UInt64) (w : Worker) (s t : Workers) : Prop where
  records : ∀ k, Lags sid k (s.records k) (t.records k)
  phases : ∀ w', w' ≠ w → t.phase w' = s.phase w'

section Without

variable {srv : Server} {sid : UInt64} {s s' t : Workers} {w w' : Worker} {act : Act}
  {es : List RequestEvent}

/-- A turn of a worker that is in the same phase in both. -/
theorem Without.visible (h : Without sid w s t) (hphase : t.phase w' = s.phase w')
    (hs : s.step srv (w', act) = some (s', es)) :
    ∃ t', t.step srv (w', act) = some (t', es) ∧ Without sid w s' t' ∧
      t'.phase w' = s'.phase w' ∧
      ∀ v, v ≠ w' → t'.phase v = t.phase v ∧ s'.phase v = s.phase v := by
  obtain ⟨p, r, ht, rfl⟩ := step_eq_some.mp hs
  have hsid : t.sidOf w' act = s.sidOf w' act := by rw [sidOf, hphase, sidOf]
  obtain ⟨r', ht', hrecords⟩ : ∃ r',
      Turn srv w' (t.phase w') (t.recordFor (t.sidOf w' act)) act p r' es ∧
      ∀ k, Lags sid k ((s.put w' (s.sidOf w' act) p r).records k)
        ((t.put w' (s.sidOf w' act) p r').records k) := by
    rw [hphase, hsid]
    cases hframe : s.sidOf w' act with
    | none =>
        rw [hframe] at ht
        exact ⟨r, ht, h.records⟩
    | some j =>
        rw [hframe] at ht
        have hj : ∀ f ∈ (s.phase w').frameOf act, f.header.sessionId = j := by
          intro f hf
          simpa [sidOf, Option.mem_def.mp hf] using hframe
        obtain ⟨r', ht', hlag⟩ := ht.transfer hj (h.records j)
        refine ⟨r', ht', fun k => ?_⟩
        by_cases hk : j = k
        · subst hk
          simpa using hlag
        · have hne : (some j : Option UInt64) ≠ some k := by simpa using hk
          rw [records_put_ne hne, records_put_ne hne]
          exact h.records k
  refine ⟨t.put w' (s.sidOf w' act) p r', step_eq_some.mpr ⟨p, r', ht', by rw [hsid]⟩,
    ⟨hrecords, fun v hv => ?_⟩, by simp, fun v hv => ?_⟩
  · by_cases hw : v = w'
    · subst hw
      simp
    · rw [phase_put_ne hw, phase_put_ne hw]
      exact h.phases v hv
  · exact ⟨phase_put_ne hv, phase_put_ne hv⟩

theorem Without.of_put {sid' : Option UInt64} {p : Phase} {r : Option Session}
    (h : Without sid w s t) (hrecords : ∀ k, Lags sid k ((s.put w sid' p r).records k) (t.records k)) :
    Without sid w (s.put w sid' p r) t := by
  refine ⟨hrecords, fun v hv => ?_⟩
  rw [phase_put_ne hv]
  exact h.phases v hv

/-- A turn of the request itself, before it ends. -/
theorem Without.silent {f : ClientFrame} (h : Without f.header.sessionId w s t)
    (hframe : (s.phase w).frame = some f) (hact : act = .load ∨ ∃ a, act = .progress a)
    (hs : s.step srv (w, act) = some (s', es)) :
    Without f.header.sessionId w s' t ∧ (s'.phase w).frame = some f := by
  obtain ⟨p, r, ht, rfl⟩ := step_eq_some.mp hs
  refine ⟨h.of_put fun k => ?_, by rw [phase_put_self, ht.frame_busy hact, hframe]⟩
  generalize hq : s.phase w = q at ht hframe
  generalize hrec : s.recordFor (s.sidOf w act) = r₀ at ht
  cases ht with
  | frame _ _ | save _ _ | fail _ _ => simp at hact
  | progress _ ha =>
      rw [← hrec, records_put_recordFor]
      exact h.records k
  | load g _ =>
      cases hframe
      have hsid : s.sidOf w .load = some f.header.sessionId := by
        simp [sidOf, hq, Phase.frameOf, Phase.frame]
      rw [hsid] at hrec ⊢
      by_cases hk : f.header.sessionId = k
      · subst hk
        rw [records_put_self]
        have hr : s.records f.header.sessionId = r₀ := hrec
        rcases h.records f.header.sessionId with hsame | ⟨-, hnone, hdefault⟩
        · rw [hsame, hr]
          cases r₀ with
          | none => exact .inr ⟨rfl, rfl, rfl⟩
          | some session => exact .inl rfl
        · rw [← hr, hdefault, hnone]
          exact .inr ⟨rfl, rfl, rfl⟩
      · rw [records_put_ne (by simpa using hk)]
        exact h.records k

end Without

end Workers

/-- A key exchange that comes to its end has changed nothing, or it has sent its reply. -/
theorem resume_handleKeyExchange {srv : Server} {frame : ClientFrame} {t t' : RequestState}
    {as : List Answer} {es : List RequestEvent}
    (h : resume requestSem t (srv.handleKeyExchange frame) as = some (t', .ret (), es)) :
    t'.session = t.session ∨ ∃ key pub : Octets 32, t'.session = t.session.setAesKey key ∧
      .sent ⟨cmdKeyExchange, 0, 32, t.session.id⟩ pub.val ∈ es := by
  unfold Server.handleKeyExchange at h
  split at h
  · obtain ⟨-, rfl, -, -⟩ := resume_ret.mp h
    exact .inl rfl
  · obtain ⟨_, _, t₁, priv, _, es₁, -, hpriv, h₁, rfl⟩ := resume_bind_ret h
    obtain ⟨_, _, _, -, hgen, rfl⟩ := resume_call_ret.mp hpriv
    obtain ⟨-, -, rfl, rfl⟩ := resume_ofStd_ret hgen
    obtain ⟨_, _, t₂, pub, _, es₂, -, hpub, h₂, rfl⟩ := resume_bind_ret h₁
    obtain ⟨-, -, rfl, rfl⟩ := resume_ofStd_ret hpub
    obtain ⟨_, _, t₃, shared, _, es₃, -, hshared, h₃, rfl⟩ := resume_bind_ret h₂
    obtain ⟨-, -, rfl, rfl⟩ := resume_ofStd_ret hshared
    obtain ⟨b, _, _, -, h₄, rfl⟩ := resume_call_bind_ret.mp h₃
    obtain ⟨c, _, _, -, h₅, rfl⟩ := resume_call_bind_ret.mp h₄
    obtain ⟨d, _, _, -, h₆, rfl⟩ := resume_call_ret.mp h₅
    obtain ⟨hsent, -, rfl, rfl⟩ := resume_ofStd_ret h₆
    have hsent : d.sent = .ok () := hsent
    refine .inr ⟨shared, pub, rfl, ?_⟩
    simp [requestSem, answerOp, answerUser, hsent, sentEvents]

namespace Engine

/-- Worker `w` reads frame `f` in step `y`, works on the request between other steps, and an
exception ends it in step `x`. -/
structure Fails (w : Worker) (f : ClientFrame) (e : Exc) (y : Step Engine Label Event)
    (mid : List (Step Engine Label Event)) (x : Step Engine Label Event) : Prop where
  read : y.label = .work w (.frame f)
  busy : ∀ z ∈ mid, ∀ act, z.label = .work w act → act = .load ∨ ∃ a, act = .progress a
  failed : x.label = .work w (.fail e)

/-- The turns of a run but for those of a request of `w` that is served in `mid`. -/
def turnsWithout (w : Worker) (tr₀ mid tr₂ : List (Step Engine Label Event)) :
    List (Worker × Act) :=
  turnsOf tr₀ ++ (turnsOf mid).filter (fun l => l.1 ≠ w) ++ turnsOf tr₂

theorem turnsWithout_subset {w : Worker} {tr₀ mid tr₂ : List (Step Engine Label Event)}
    {y x : Step Engine Label Event} :
    turnsWithout w tr₀ mid tr₂ ⊆ turnsOf (tr₀ ++ y :: (mid ++ x :: tr₂)) := by
  intro l hl
  rw [← List.singleton_append, ← List.singleton_append (l := tr₂)]
  simp only [turnsWithout, turnsOf_append, List.mem_append, List.mem_filter] at hl ⊢
  rcases hl with (hl | ⟨hl, -⟩) | hl
  · exact .inl hl
  · exact .inr (.inr (.inl hl))
  · exact .inr (.inr (.inr (.inr hl)))

def shownWithout (w : Worker) (x : Step Engine Label Event) :
    Option ((Worker × Act) × List RequestEvent) :=
  x.label.turn.bind fun l => if l.1 = w then none else some (l, requestEvents l.1 x.events)

theorem map_fst_shownWithout (w : Worker) (tr : List (Step Engine Label Event)) :
    (tr.filterMap (shownWithout w)).map Prod.fst = (turnsOf tr).filter (fun l => l.1 ≠ w) := by
  rw [turnsOf, List.filter_filterMap, List.map_filterMap]
  refine List.filterMap_congr fun x _ => ?_
  cases hturn : x.label.turn with
  | none => simp [shownWithout, hturn]
  | some l => by_cases hw : l.1 = w <;> simp [shownWithout, hturn, hw, Option.filter]

section Spans

variable {srv : Server} {w : Worker} {f : ClientFrame} {s s' : Engine} {t : Workers}
  {tr : List (Step Engine Label Event)}

/-- While the request is served, the others do as they would without it. -/
theorem without_busy (hc : Coherent srv s) (h : Trace (step srv) s tr s')
    (hbusy : ∀ z ∈ tr, ∀ act, z.label = .work w act → act = .load ∨ ∃ a, act = .progress a)
    (hframe : (s.workers.phase w).frame = some f)
    (hwithout : Workers.Without f.header.sessionId w s.workers t) (hread : t.phase w = .reading) :
    ∃ tw t', Trace (Workers.step srv) t tw t' ∧
      Workers.Without f.header.sessionId w s'.workers t' ∧
      (s'.workers.phase w).frame = some f ∧ t'.phase w = .reading ∧
      tw.map (·.label) = (turnsOf tr).filter (fun l => l.1 ≠ w) := by
  have hsim := h.simulate (Workers.step srv) (fun s t =>
      Coherent srv s ∧ Workers.Without f.header.sessionId w s.workers t ∧
        (s.workers.phase w).frame = some f ∧ t.phase w = .reading)
    (shownWithout w) (fun _ => True) ⟨hc, hwithout, hframe, hread⟩ ?silent ?visible
  case silent =>
    rintro z hz t hs ⟨hc, hwithout, hframe, hread⟩ hnone
    refine ⟨hc.step hs, ?_⟩
    cases hturn : z.label.turn with
    | none =>
        rw [workers_silent hc.recorded hturn hs]
        exact ⟨hwithout, hframe, hread⟩
    | some l =>
        obtain ⟨w', act⟩ := l
        have hw : w' = w := by simpa [shownWithout, hturn] using hnone
        subst hw
        obtain ⟨hlabel, hact⟩ := Label.turn_eq_some hturn
        rw [hlabel] at hs
        obtain ⟨hwithout', hframe'⟩ := hwithout.silent hframe (hbusy z hz act hlabel)
          (workers_step hc.requests hact hs)
        exact ⟨hwithout', hframe', hread⟩
  case visible =>
    rintro z - t b es hs ⟨hc, hwithout, hframe, hread⟩ hsome
    obtain ⟨⟨w', act⟩, hturn, hif⟩ := Option.bind_eq_some_iff.mp hsome
    split at hif
    · cases hif
    · rename_i hw
      cases hif
      obtain ⟨hlabel, hact⟩ := Label.turn_eq_some hturn
      rw [hlabel] at hs
      obtain ⟨t', ht', hwithout', -, hothers⟩ := hwithout.visible (hwithout.phases w' hw)
        (workers_step hc.requests hact hs)
      obtain ⟨hphase', hphase⟩ := hothers w (Ne.symm hw)
      exact ⟨t', ht', ⟨hc.step hs, hwithout', hphase ▸ hframe, hphase'.trans hread⟩, trivial⟩
  obtain ⟨tw, t', htw, ⟨-, hwithout', hframe', hread'⟩, -, hmap⟩ := hsim
  refine ⟨tw, t', htw, hwithout', hframe', hread', ?_⟩
  rw [← map_fst_shownWithout, ← hmap, List.map_map]
  rfl

/-- Once the request is over, all workers do as they would without it. -/
theorem without_after {sid : UInt64} (hc : Coherent srv s) (h : Trace (step srv) s tr s')
    (hwithout : Workers.Without sid w s.workers t)
    (hphase : t.phase w = s.workers.phase w ∨ s.workers.phase w = .ended) :
    ∃ tw t', Trace (Workers.step srv) t tw t' ∧ Workers.Without sid w s'.workers t' ∧
      tw.map (·.label) = turnsOf tr := by
  have hsim := h.simulate (Workers.step srv) (fun s t =>
      Coherent srv s ∧ Workers.Without sid w s.workers t ∧
        (t.phase w = s.workers.phase w ∨ s.workers.phase w = .ended))
    shownTurn (fun _ => True) ⟨hc, hwithout, hphase⟩ ?silent ?visible
  case silent =>
    rintro z - t hs ⟨hc, hwithout, hphase⟩ hnone
    rw [workers_silent hc.recorded (Option.map_eq_none_iff.mp hnone) hs]
    exact ⟨hc.step hs, hwithout, hphase⟩
  case visible =>
    rintro z - t b es hs ⟨hc, hwithout, hphase⟩ hsome
    obtain ⟨⟨w', act⟩, hturn, hes⟩ := Option.map_eq_some_iff.mp hsome
    cases hes
    obtain ⟨hlabel, hact⟩ := Label.turn_eq_some hturn
    rw [hlabel] at hs
    have hstep := workers_step hc.requests hact hs
    have hsame : t.phase w' = z.pre.workers.phase w' := by
      by_cases hw : w' = w
      · subst hw
        refine hphase.resolve_right ?_
        obtain ⟨p, r, ht, -⟩ := Workers.step_eq_some.mp hstep
        exact ht.not_ended
      · exact hwithout.phases w' hw
    obtain ⟨t', ht', hwithout', hself, hothers⟩ := hwithout.visible hsame hstep
    refine ⟨t', ht', ⟨hc.step hs, hwithout', ?_⟩, trivial⟩
    by_cases hw : w = w'
    · subst hw
      exact .inl hself
    · rw [(hothers w hw).1, (hothers w hw).2]
      exact hphase
  obtain ⟨tw, t', htw, ⟨-, hwithout', -⟩, -, hmap⟩ := hsim
  refine ⟨tw, t', htw, hwithout', ?_⟩
  rw [← map_fst_shownTurn, ← hmap, List.map_map]
  rfl

theorem store_of_frame {evs : List Event}
    (hs : s.step srv (.work w (.frame f)) = some (s', evs)) : s'.store = s.store := by
  cases phaseCase_step hs with
  | other hnot _ _ _ _ => exact absurd rfl (hnot w (.frame f))
  | work _ _ _ hstep =>
      generalize hstore : s'.store = store at hstep
      cases hstep with
      | frame _ | drop _ _ _ _ => rfl

theorem store_of_busy {act : Act} {evs : List Event}
    (hframe : (s.workers.phase w).frame = some f) (hact : act = .load ∨ ∃ a, act = .progress a)
    (hs : s.step srv (.work w act) = some (s', evs)) :
    s'.store = s.store ∨
      act = .load ∧ s'.store = (s.store.getOrCreate f.header.sessionId).2 := by
  cases phaseCase_step hs with
  | other hnot _ _ _ _ => exact absurd rfl (hnot w act)
  | work hp _ _ hstep =>
      rw [workers_phase hp] at hframe
      generalize hstore : s'.store = store at hstep
      cases hstep with
      | frame _ | save _ _ => simp at hact
      | load g =>
          cases hframe
          exact .inr ⟨rfl, rfl⟩
      | progress _ _ _ _ _ _ | drop _ _ _ _ => exact .inl rfl

theorem frame_of_busy (hc : Coherent srv s) (h : Trace (step srv) s tr s')
    (hbusy : ∀ z ∈ tr, ∀ act, z.label = .work w act → act = .load ∨ ∃ a, act = .progress a)
    (hframe : (s.workers.phase w).frame = some f) :
    ∀ z ∈ tr, (z.pre.workers.phase w).frame = some f := by
  intro z hz
  refine ((h.invariant (fun s => Coherent srv s ∧ (s.workers.phase w).frame = some f)
    (fun _ a => ∀ act, a = .work w act → act = .load ∨ ∃ a, act = .progress a) ⟨hc, hframe⟩
    ?_ hbusy).2 z hz).1.2
  rintro s a s' evs ⟨hc, hframe⟩ hcond hs
  refine ⟨hc.step hs, ?_⟩
  by_cases hown : ∃ act, a.turn = some (w, act)
  · obtain ⟨act, hturn⟩ := hown
    obtain ⟨rfl, hact⟩ := Label.turn_eq_some hturn
    obtain ⟨p, r, ht, hput⟩ := Workers.step_eq_some.mp (workers_step hc.requests hact hs)
    rw [hput, Workers.phase_put_self, ht.frame_busy (hcond act rfl), hframe]
  · rw [workers_phase_other hc (fun act hturn => hown ⟨act, hturn⟩) hs, hframe]

end Spans

section Runs

variable {srv : Server} {discovery : DiscoveryConfig} {enabled : Bool}
  {tr₀ mid tr₂ : List (Step Engine Label Event)} {y x : Step Engine Label Event} {s : Engine}
  {w : Worker} {f : ClientFrame} {e : Exc}

/-- The turn that reads the frame. -/
theorem without_read {s' : Engine} {evs : List Event} (hc : Coherent srv s)
    (hs : s.step srv (.work w (.frame f)) = some (s', evs)) :
    s.workers.phase w = .reading ∧ (s'.workers.phase w).frame = some f ∧
      Workers.Without f.header.sessionId w s'.workers s.workers := by
  obtain ⟨p, r, ht, hput⟩ := Workers.step_eq_some.mp (workers_step hc.requests (by simp) hs)
  rw [hput]
  generalize hq : s.workers.phase w = q at ht
  generalize hr : s.workers.recordFor (s.workers.sidOf w (.frame f)) = r₀ at ht
  generalize requestEvents w evs = es at ht
  cases ht with
  | frame f _ =>
      refine ⟨rfl, by simp [Phase.frame], fun k => .inl ?_, fun v hv => ?_⟩
      · rw [← hr, Workers.records_put_recordFor]
      · rw [Workers.phase_put_ne hv]

/-- The turn in which the request fails. -/
theorem without_fail {s' : Engine} {evs : List Event} {t : Workers} {sid : UInt64}
    (hc : Coherent srv s) (hwithout : Workers.Without sid w s.workers t)
    (hread : t.phase w = .reading) (hs : s.step srv (.work w (.fail e)) = some (s', evs)) :
    Workers.Without sid w s'.workers t ∧
      (t.phase w = s'.workers.phase w ∨ s'.workers.phase w = .ended) := by
  obtain ⟨p, r, ht, hput⟩ := Workers.step_eq_some.mp (workers_step hc.requests (by simp) hs)
  rw [hput]
  generalize s.workers.phase w = q at ht
  generalize hr : s.workers.recordFor (s.workers.sidOf w (.fail e)) = r₀ at ht
  generalize requestEvents w evs = es at ht
  cases ht with
  | fail _ hf =>
      constructor
      · refine hwithout.of_put fun k => ?_
        rw [← hr, Workers.records_put_recordFor]
        exact hwithout.records k
      · rw [Workers.phase_put_self, hread]
        cases w with
        | conn i => exact .inr rfl
        | udp j => cases he : e.isStd <;> simp [Worker.afterFail, he]

/-- The run without the turns of the request that fails. -/
theorem without_run
    (h : Trace (step srv) (init srv discovery enabled) (tr₀ ++ y :: (mid ++ x :: tr₂)) s)
    (hfails : Fails w f e y mid x) :
    ∃ tw t, Trace (Workers.step srv) Workers.start tw t ∧
      Workers.Without f.header.sessionId w s.workers t ∧
      tw.map (·.label) = turnsWithout w tr₀ mid tr₂ := by
  obtain ⟨s₀, h₀, h₁⟩ := h.split
  obtain ⟨rfl, hy, h₂⟩ := h₁.split_cons
  obtain ⟨s₂, hmid, h₃⟩ := h₂.split
  obtain ⟨rfl, hx, h₄⟩ := h₃.split_cons
  have hc₀ : Coherent srv y.pre := (coherent_init srv discovery enabled).run h₀
  have hc₁ := hc₀.step hy
  have hc₂ : Coherent srv x.pre := hc₁.run hmid
  have hc₃ := hc₂.step hx
  obtain ⟨tw₀, htw₀, hlabels₀⟩ := workers_exec (coherent_init srv discovery enabled) h₀
  rw [workers_init] at htw₀
  rw [hfails.read] at hy
  obtain ⟨hread, hframe, hwithout⟩ := without_read hc₀ hy
  obtain ⟨tm, t₁, htm, hwithout₁, -, hread₁, hlabels₁⟩ :=
    without_busy hc₁ hmid hfails.busy hframe hwithout hread
  rw [hfails.failed] at hx
  obtain ⟨hwithout₂, hphase⟩ := without_fail hc₂ hwithout₁ hread₁ hx
  obtain ⟨tw₂, t₂, htw₂, hwithout₃, hlabels₂⟩ := without_after hc₃ h₄ hwithout₂ hphase
  refine ⟨tw₀ ++ tm ++ tw₂, t₂, (htw₀.append htm).append htw₂, hwithout₃, ?_⟩
  rw [turnsWithout, List.map_append, List.map_append, hlabels₀, hlabels₁, hlabels₂]

/-- The steps of the request write nothing but the default record of its own session. -/
theorem store_of_fails
    (h : Trace (step srv) (init srv discovery enabled) (tr₀ ++ y :: (mid ++ x :: tr₂)) s)
    (hfails : Fails w f e y mid x) :
    ∀ z ∈ y :: (mid ++ [x]), ∀ act, z.label = .work w act → z.post.store = z.pre.store ∨
      act = .load ∧ z.post.store = (z.pre.store.getOrCreate f.header.sessionId).2 := by
  obtain ⟨s₀, h₀, h₁⟩ := h.split
  obtain ⟨rfl, hy, h₂⟩ := h₁.split_cons
  obtain ⟨s₂, hmid, h₃⟩ := h₂.split
  obtain ⟨rfl, hx, h₄⟩ := h₃.split_cons
  have hc₀ : Coherent srv y.pre := (coherent_init srv discovery enabled).run h₀
  intro z hz act hlabel
  rw [List.mem_cons, List.mem_append, List.mem_singleton] at hz
  rcases hz with rfl | hz | rfl
  · rw [hfails.read] at hy
    exact .inl (store_of_frame hy)
  · have hy' := hy
    rw [hfails.read] at hy'
    obtain ⟨-, hframe, -⟩ := without_read hc₀ hy'
    have hs := hmid.step_eq z hz
    rw [hlabel] at hs
    exact store_of_busy (frame_of_busy (hc₀.step hy) hmid hfails.busy hframe z hz)
      (hfails.busy z hz act hlabel) hs
  · rw [hfails.failed] at hx
    exact .inl (store_of_fail hx)

/-- A key exchange is saved only after its reply was sent. -/
theorem keyExchange_sent {tr : List (Step Engine Label Event)}
    (h : Trace (step srv) (init srv discovery enabled) tr s) :
    ∀ z ∈ tr, ∀ v req, z.label = .work v .save → z.pre.inFlight v = some req →
      req.frame.header.commandId = cmdKeyExchange → req.state.session = req.loaded ∨
      ∃ key pub : Octets 32, req.state.session = req.loaded.setAesKey key ∧
        .sent ⟨cmdKeyExchange, 0, 32, req.frame.header.sessionId⟩ pub.val ∈ req.events := by
  intro z hz v req hlabel hreq hcmd
  obtain ⟨tr₁, tr₂, rfl⟩ := List.append_of_mem hz
  obtain ⟨m, h₁, h₂⟩ := h.split
  obtain ⟨rfl, -, -⟩ := h₂.split_cons
  have hc : Coherent srv z.pre := (coherent_init srv discovery enabled).run h₁
  have hs := h.step_eq z hz
  rw [hlabel] at hs
  obtain ⟨req', hreq', ht, -, -⟩ := save_step hs
  rw [hreq] at hreq'
  cases hreq'
  have hconsistent := hc.requests v req hreq
  have hrun := hconsistent.run
  rw [ht, Server.processCommand, if_pos hcmd] at hrun
  rw [← hconsistent.loaded_id]
  exact resume_handleKeyExchange hrun

end Runs

/-- A request that fails leaves no trace in the store. Its own steps write nothing but the
default record of its session; every run with the same turns but for its own, of a server that
processes requests alike, ends with the same records, but perhaps for that one; and there is
such a run. A key is saved by a key exchange only after the reply to it was sent. -/
theorem failed_leavesNoTrace (srv : Server) (discovery : DiscoveryConfig) (enabled : Bool)
    {tr₀ mid tr₂ : List (Step Engine Label Event)} {y x : Step Engine Label Event} {s : Engine}
    {w : Worker} {f : ClientFrame} {e : Exc}
    (h : Trace (step srv) (init srv discovery enabled) (tr₀ ++ y :: (mid ++ x :: tr₂)) s)
    (hfails : Fails w f e y mid x) :
    (∀ z ∈ y :: (mid ++ [x]), ∀ act, z.label = .work w act → z.post.store = z.pre.store ∨
      act = .load ∧ z.post.store = (z.pre.store.getOrCreate f.header.sessionId).2) ∧
    (∀ srv' discovery' enabled' tr' s', srv.Alike srv' →
      Trace (step srv') (init srv' discovery' enabled') tr' s' →
      turnsOf tr' = turnsWithout w tr₀ mid tr₂ →
      ∀ k, s'.store.lookup k = s.store.lookup k ∨ k = f.header.sessionId ∧
        s'.store.lookup k = none ∧ s.store.lookup k = some { id := k }) ∧
    (∃ tr' s', Trace (step srv.unlimited) (init srv.unlimited discovery enabled) tr' s' ∧
      turnsOf tr' = turnsWithout w tr₀ mid tr₂) ∧
    ∀ z ∈ tr₀ ++ y :: (mid ++ x :: tr₂), ∀ v req, z.label = .work v .save →
      z.pre.inFlight v = some req → req.frame.header.commandId = cmdKeyExchange →
      req.state.session = req.loaded ∨
      ∃ key pub : Octets 32, req.state.session = req.loaded.setAesKey key ∧
        .sent ⟨cmdKeyExchange, 0, 32, req.frame.header.sessionId⟩ pub.val ∈ req.events := by
  obtain ⟨tw, t, htw, hwithout, hlabels⟩ := without_run h hfails
  refine ⟨store_of_fails h hfails, ?_, ?_, keyExchange_sent h⟩
  · intro srv' discovery' enabled' tr' s' halike h' hturns
    obtain ⟨tw', htw', hlabels'⟩ := workers_exec (coherent_init srv' discovery' enabled') h'
    rw [workers_init, halike.workers_step] at htw'
    obtain ⟨-, hend⟩ := htw.deterministic htw' (by rw [hlabels', hturns, hlabels])
    intro k
    have hlag := hwithout.records k
    rw [← hend] at hlag
    exact hlag
  · have hexist : ∀ z ∈ tw, (s.phaseOf z.label.1).isSome := by
      intro z hz
      refine isSome_phaseOf_turnsOf h z.label ?_
      have hmem : z.label ∈ turnsWithout w tr₀ mid tr₂ := hlabels ▸ List.mem_map_of_mem hz
      exact turnsWithout_subset hmem
    obtain ⟨tr', s', htr', -, hturns, -, -⟩ := exists_run_of_workers h htw hexist
    exact ⟨tr', s', htr', hturns.trans hlabels⟩

theorem failed_leavesNoTrace_login :
    ∃ tr₀ y mid x tr₂ s, Trace (step Server.login) (init Server.login {} false)
        (tr₀ ++ y :: (mid ++ x :: tr₂)) s ∧
      Fails (.conn 0) (.command 1 7) (.std "Broken pipe") y mid x ∧
      s.store.lookup 7 = some { id := 7 } ∧
      ∃ tr' s', Trace (step Server.login.unlimited) (init Server.login.unlimited {} false) tr' s' ∧
        turnsOf tr' = turnsWithout (.conn 0) tr₀ mid tr₂ := by
  -- logged in by its handler, the request fails to send the reply
  have hrun : (exec (step Server.login) (init Server.login {} false)
      ([.accept .binary 5, .accept .binary 6] ++ .work (.conn 0) (.frame (.command 1 7)) ::
        ((.work (.conn 0) .load :: List.replicate 3 (.work (.conn 0) (.progress {})) ++
          Label.requestAfter (.conn 1) (.command 2 7) 3 ++
          [.work (.conn 0) (.progress { sent := .error "Broken pipe" })]) ++
        .work (.conn 0) (.fail (.std "Broken pipe")) ::
          Label.requestAfter (.conn 1) (.command 2 7) 3))).any
      (fun r => decide (r.2.store.lookup 7 = some { id := 7 })) = true := by decide +kernel
  obtain ⟨⟨tr, s⟩, hexec, hlookup⟩ := (Option.any_eq_true _ _).mp hrun
  obtain ⟨tr₀, s₀, _, hexec₀, hrest, rfl⟩ := exec_append_eq_some hexec
  obtain ⟨_, _, _, _, hrest₁, rfl⟩ := exec_cons_eq_some hrest
  obtain ⟨mid, _, _, hmid, hrest₂, rfl⟩ := exec_append_eq_some hrest₁
  obtain ⟨_, _, tr₂, _, _, rfl⟩ := exec_cons_eq_some hrest₂
  have htr := trace_of_exec hexec
  have hbusy : ∀ z ∈ mid, ∀ act, z.label = .work (.conn 0) act →
      act = .load ∨ ∃ a, act = .progress a := by
    intro z hz act hlabel
    have hmem := List.mem_map_of_mem (f := fun z => z.label) hz
    rw [labels_of_exec hmid, hlabel] at hmem
    simp only [Label.requestAfter, List.replicate, List.mem_append, List.mem_cons, Label.work.injEq,
      reduceCtorEq, Worker.conn.injEq, List.not_mem_nil] at hmem
    grind
  exact ⟨tr₀, _, mid, _, tr₂, s, htr, ⟨rfl, hbusy, rfl⟩, of_decide_eq_true hlookup,
    (failed_leavesNoTrace Server.login {} false htr ⟨rfl, hbusy, rfl⟩).2.2.1⟩

end Engine

end Servd
