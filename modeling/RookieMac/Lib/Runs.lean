import Mathlib

/-!
# Runs

A program fed a list of inputs is a fold; a system whose parties take turns is a list of events,
each taken where it is enabled. An invariant of the steps is one of the runs, also where the steps
keep it only under a condition on the state before them. Where, besides, a step that does not meet
the condition breaks the property at hand, the property holds throughout a run exactly when every
step of it meets the condition (`always_iff`).
-/

namespace Runs

variable {σ ε : Type*}

section Folds

theorem foldl_invariant {step : σ → ε → σ} {I : σ → Prop} (h : ∀ s e, I s → I (step s e)) :
    ∀ (es : List ε) (s : σ), I s → I (es.foldl step s)
  | [], _, hs => hs
  | e :: es, s, hs => foldl_invariant h es _ (h s e hs)

theorem foldl_invariant_mem {step : σ → ε → σ} {I : σ → Prop} :
    ∀ (es : List ε) (s : σ), (∀ s, ∀ e ∈ es, I s → I (step s e)) → I s → I (es.foldl step s)
  | [], _, _, hs => hs
  | e :: es, s, h, hs =>
    foldl_invariant_mem es _ (fun s e he => h s e (.tail _ he)) (h s e (.head _) hs)

/-- A program whose steps keep an invariant and act on an image of the state acts so over a run. -/
theorem foldl_image {τ : Type*} {step : σ → ε → σ} {step' : τ → ε → τ} {I : σ → Prop} {f : σ → τ}
    (h : ∀ s e, I s → I (step s e) ∧ f (step s e) = step' (f s) e) :
    ∀ (es : List ε) (s : σ), I s →
      I (es.foldl step s) ∧ f (es.foldl step s) = es.foldl step' (f s)
  | [], _, hs => ⟨hs, rfl⟩
  | e :: es, s, hs => by
    obtain ⟨hs', he⟩ := h s e hs
    rw [List.foldl_cons, List.foldl_cons, ← he]
    exact foldl_image h es _ hs'

/-- What one input brings about and no input undoes holds after every list with that input. -/
theorem foldl_of_mem {step : σ → ε → σ} {I P : σ → Prop} {a : ε} :
    ∀ (es : List ε) (s : σ), (∀ s, ∀ e ∈ es, I s → I (step s e)) →
      (∀ s, ∀ e ∈ es, I s → P s → P (step s e)) → (∀ s, I s → P (step s a)) → a ∈ es → I s →
      P (es.foldl step s)
  | e :: es, s, hI, hP, ha, hmem, hs => by
    have hI' : ∀ s, ∀ e ∈ es, I s → I (step s e) := fun s e he => hI s e (.tail _ he)
    have hP' : ∀ s, ∀ e ∈ es, I s → P s → P (step s e) := fun s e he => hP s e (.tail _ he)
    have hs' := hI s e (.head _) hs
    rcases List.mem_cons.1 hmem with rfl | hmem
    · have hboth : ∀ s, ∀ e ∈ es, I s ∧ P s → I (step s e) ∧ P (step s e) :=
        fun s e he h => ⟨hI' s e he h.1, hP' s e he h.1 h.2⟩
      exact (foldl_invariant_mem es _ hboth ⟨hs', ha s hs⟩).2
    · exact foldl_of_mem es _ hI' hP' ha hmem hs'

theorem foldlM_invariant {φ : Type*} {step : σ → ε → Except φ σ} {I : σ → Prop}
    (h : ∀ s e s', I s → step s e = .ok s' → I s') :
    ∀ (es : List ε) (s s' : σ), I s → es.foldlM step s = .ok s' → I s'
  | [], _, _, hs, hr => by
    simp only [List.foldlM_nil, pure, Except.pure, Except.ok.injEq] at hr
    exact hr ▸ hs
  | e :: es, s, s', hs, hr => by
    rw [List.foldlM_cons] at hr
    rcases hstep : step s e with f | s₁
    · rw [hstep] at hr
      simp [bind, Except.bind] at hr
    · rw [hstep] at hr
      exact foldlM_invariant h es s₁ s' (h s e s₁ hs hstep) hr

/-- A fold whose every input can be taken goes through. -/
theorem foldlM_total {φ : Type*} {step : σ → ε → Except φ σ} {I : σ → Prop} :
    ∀ (es : List ε) (s : σ), (∀ s, ∀ e ∈ es, I s → ∃ s', step s e = .ok s' ∧ I s') → I s →
      ∃ s', es.foldlM step s = .ok s' ∧ I s'
  | [], s, _, hs => ⟨s, rfl, hs⟩
  | e :: es, s, h, hs => by
    obtain ⟨s₁, hstep, hs₁⟩ := h s e (.head _) hs
    obtain ⟨s', hr, hs'⟩ := foldlM_total es s₁ (fun s e he => h s e (.tail _ he)) hs₁
    refine ⟨s', ?_, hs'⟩
    rw [List.foldlM_cons, hstep]
    exact hr

/-- The property holds after every event. -/
def Always (step : σ → ε → σ) (P : σ → Prop) (s : σ) (es : List ε) : Prop :=
  ∀ pre, pre <+: es → P (pre.foldl step s)

/-- Every event meets the condition in the state before it. -/
def Each (step : σ → ε → σ) (C : σ → ε → Prop) : σ → List ε → Prop
  | _, [] => True
  | s, e :: es => C s e ∧ Each step C (step s e) es

variable {step : σ → ε → σ} {I P : σ → Prop} {C : σ → ε → Prop}

theorem each_append {es' : List ε} : ∀ {s : σ} {es : List ε},
    Each step C s (es ++ es') ↔ Each step C s es ∧ Each step C (es.foldl step s) es'
  | _, [] => by simp [Each]
  | _, _ :: _ => by rw [List.cons_append, Each, Each, each_append, List.foldl_cons, and_assoc]

theorem each_concat {s : σ} {e : ε} {es : List ε} :
    Each step C s (es ++ [e]) ↔ Each step C s es ∧ C (es.foldl step s) e := by
  rw [each_append, Each, Each, and_true]

theorem always_nil {s : σ} : Always step P s [] ↔ P s := by
  simp [Always]

theorem always_cons {s : σ} {e : ε} {es : List ε} :
    Always step P s (e :: es) ↔ P s ∧ Always step P (step s e) es := by
  constructor
  · intro h
    exact ⟨h [] (List.nil_prefix), fun pre hp => h (e :: pre) (List.cons_prefix_cons.2 ⟨rfl, hp⟩)⟩
  · rintro ⟨h0, h⟩ (_ | ⟨a, pre⟩) hp
    · exact h0
    · obtain ⟨rfl, hpre⟩ := List.cons_prefix_cons.1 hp
      exact h pre hpre

/-- The run's first step that does not meet the condition is where the property fails. -/
theorem always_iff (hI : ∀ s, I s → P s) (hgood : ∀ s e, I s → C s e → I (step s e))
    (hbad : ∀ s e, I s → ¬ C s e → ¬ P (step s e)) :
    ∀ (es : List ε) (s : σ), I s → (Always step P s es ↔ Each step C s es)
  | [], s, hs => by simp [always_nil, Each, hI s hs]
  | e :: es, s, hs => by
    rw [always_cons, Each]
    by_cases hc : C s e
    · rw [always_iff hI hgood hbad es _ (hgood s e hs hc)]
      simp [hI s hs, hc]
    · refine iff_of_false (fun h => hbad s e hs hc ?_) fun h => hc h.1
      exact h.2 [] List.nil_prefix

/-- A condition that looks only at an image of the state, on which good steps act, is one on the
image of the run. -/
theorem each_image {τ δ : Type*} {step' : τ → δ → τ} {C' : τ → δ → Prop} {f : σ → τ} {g : ε → δ}
    (hgood : ∀ s e, I s → C s e → I (step s e)) (hC : ∀ s e, I s → (C s e ↔ C' (f s) (g e)))
    (hstep : ∀ s e, I s → C s e → f (step s e) = step' (f s) (g e)) :
    ∀ (es : List ε) (s : σ), I s → (Each step C s es ↔ Each step' C' (f s) (es.map g))
  | [], _, _ => Iff.rfl
  | e :: es, s, hs => by
    rw [List.map_cons, Each, Each, ← hC s e hs]
    refine and_congr_right fun hc => ?_
    rw [each_image hgood hC hstep es _ (hgood s e hs hc), hstep s e hs hc]

/-- The two together: the property holds throughout the run exactly when the condition does along
the image of the run. -/
theorem always_iff_image {τ δ : Type*} (step' : τ → δ → τ) (C' : τ → δ → Prop) (f : σ → τ)
    (g : ε → δ) (hI : ∀ s, I s → P s)
    (hgood : ∀ s e, I s → C' (f s) (g e) → I (step s e) ∧ f (step s e) = step' (f s) (g e))
    (hbad : ∀ s e, I s → ¬ C' (f s) (g e) → ¬ P (step s e)) (es : List ε) {s : σ} (hs : I s) :
    Always step P s es ↔ Each step' C' (f s) (es.map g) := by
  have hkeep : ∀ s e, I s → C' (f s) (g e) → I (step s e) := fun s e h hc => (hgood s e h hc).1
  rw [always_iff hI hkeep hbad es s hs]
  exact each_image hkeep (fun _ _ _ => Iff.rfl) (fun s e h hc => (hgood s e h hc).2) es s hs

end Folds

section Events

inductive Path (step : σ → ε → Option σ) : σ → List ε → σ → Prop
  | nil (s : σ) : Path step s [] s
  | cons {s s' s'' : σ} {e : ε} {es : List ε} :
      step s e = some s' → Path step s' es s'' → Path step s (e :: es) s''

/-- Every event the run takes meets the condition in the state before it. -/
def EachStep (step : σ → ε → Option σ) (C : σ → ε → Prop) : σ → List ε → Prop
  | _, [] => True
  | s, e :: es => C s e ∧ ∀ s', step s e = some s' → EachStep step C s' es

variable {step : σ → ε → Option σ} {C : σ → ε → Prop}

theorem EachStep.cons {s s' : σ} {e : ε} {es : List ε} (hstep : step s e = some s') (hc : C s e)
    (h : EachStep step C s' es) : EachStep step C s (e :: es) :=
  ⟨hc, fun _ hs => Option.some.inj (hstep.symm.trans hs) ▸ h⟩

theorem EachStep.mono {D : σ → ε → Prop} (h : ∀ s e, C s e → D s e) : ∀ {es : List ε} {s : σ},
    EachStep step C s es → EachStep step D s es
  | [], _, _ => trivial
  | _ :: _, _, hc => ⟨h _ _ hc.1, fun s' hs => EachStep.mono h (hc.2 s' hs)⟩

theorem Path.append {s s' s'' : σ} {es es' : List ε} (hp : Path step s es s')
    (hp' : Path step s' es' s'') : Path step s (es ++ es') s'' := by
  induction hp with
  | nil s => exact hp'
  | cons hstep _ ih => exact .cons hstep (ih hp')

theorem Path.single {s s' : σ} {e : ε} (h : step s e = some s') : Path step s [e] s' :=
  .cons h (.nil s')

theorem Path.of_foldlM : ∀ {es : List ε} {s s' : σ}, es.foldlM step s = some s' →
    Path step s es s'
  | [], s, s', h => by
    obtain rfl : s = s' := by simpa using h
    exact .nil s
  | e :: es, s, s', h => by
    rw [List.foldlM_cons] at h
    rcases hs : step s e with _ | s₁
    · simp [hs] at h
    · rw [hs] at h
      exact .cons hs (Path.of_foldlM h)

theorem EachStep.append {s s' : σ} {es es' : List ε} (hp : Path step s es s')
    (h : EachStep step C s es) (h' : EachStep step C s' es') : EachStep step C s (es ++ es') := by
  induction hp with
  | nil s => exact h'
  | cons hstep _ ih => exact .cons hstep h.1 (ih (h.2 _ hstep) h')

/-- A system whose every step is a few inputs of a program is, over a run, the program on the inputs
of all the steps. -/
theorem Path.simulate {τ δ : Type*} {step' : τ → δ → τ} {inputs : ε → List δ} {R : σ → τ → Prop}
    {s s' : σ} {es : List ε} (hp : Path step s es s') :
    (∀ s, ∀ e ∈ es, ∀ s' t, R s t → C s e → step s e = some s' →
      R s' ((inputs e).foldl step' t)) →
    EachStep step C s es → ∀ t, R s t → R s' ((es.flatMap inputs).foldl step' t) := by
  induction hp with
  | nil s => exact fun _ _ t ht => ht
  | cons hstep _ ih =>
    intro h hc t ht
    rw [List.flatMap_cons, List.foldl_append]
    refine ih (fun s e he => h s e (.tail _ he)) (hc.2 _ hstep) _ ?_
    exact h _ _ (.head _) _ t ht hc.1 hstep

/-- A run whose every step is, on an image of the state, a step of another system or none at all is
a run of that system. -/
theorem Path.filterMap {τ δ : Type*} {step' : τ → δ → Option τ} {D : τ → δ → Prop} {f : σ → τ}
    {g : ε → Option δ} (hnone : ∀ s e s', C s e → step s e = some s' → g e = none → f s' = f s)
    (hsome : ∀ s e d s', C s e → step s e = some s' → g e = some d →
      D (f s) d ∧ step' (f s) d = some (f s')) {s s' : σ} {es : List ε} (hp : Path step s es s') :
    EachStep step C s es →
      Path step' (f s) (es.filterMap g) (f s') ∧ EachStep step' D (f s) (es.filterMap g) := by
  induction hp with
  | nil s => exact fun _ => ⟨.nil _, trivial⟩
  | @cons s s₁ _ e es hstep _ ih =>
    intro hc
    obtain ⟨hp', hc'⟩ := ih (hc.2 s₁ hstep)
    rcases hg : g e with _ | d
    · rw [List.filterMap_cons_none hg, ← hnone s e s₁ hc.1 hstep hg]
      exact ⟨hp', hc'⟩
    · obtain ⟨hd, hstep'⟩ := hsome s e d s₁ hc.1 hstep hg
      rw [List.filterMap_cons_some hg]
      exact ⟨.cons hstep' hp', .cons hstep' hd hc'⟩

theorem Path.cons_iff {s s' : σ} {e : ε} {es : List ε} :
    Path step s (e :: es) s' ↔ ∃ s₁, step s e = some s₁ ∧ Path step s₁ es s' := by
  refine ⟨fun h => ?_, fun ⟨s₁, h, hp⟩ => .cons h hp⟩
  cases h with
  | cons h hp => exact ⟨_, h, hp⟩

/-- Two conditions that come to the same where an invariant holds. -/
theorem EachStep.congr {I : σ → Prop} {D : σ → ε → Prop}
    (hI : ∀ s e s', I s → step s e = some s' → I s') (h : ∀ s e, I s → (C s e ↔ D s e)) :
    ∀ (es : List ε) (s : σ), I s → (EachStep step C s es ↔ EachStep step D s es)
  | [], _, _ => Iff.rfl
  | e :: es, s, hs => by
    refine and_congr (h s e hs) (forall₂_congr fun s' hstep => ?_)
    exact EachStep.congr hI h es s' (hI s e s' hs hstep)

theorem eachStep_true : ∀ (es : List ε) (s : σ), EachStep step (fun _ _ => True) s es
  | [], _ => trivial
  | _ :: es, _ => ⟨trivial, fun s' _ => eachStep_true es s'⟩

/-- Where every step of a run meets the condition, and an assumption besides, the property holds
throughout the run. -/
theorem Path.always_of_each {I P : σ → Prop} {F : σ → ε → Prop} (hI : ∀ s, I s → P s)
    (hgood : ∀ s e s', I s → F s e → C s e → step s e = some s' → I s') {s s' : σ} {es : List ε}
    (hp : Path step s es s') : I s → EachStep step F s es → EachStep step C s es →
    ∀ pre s₁, pre <+: es → Path step s pre s₁ → P s₁ := by
  induction hp with
  | nil s =>
    intro hs _ _ pre s₁ hpre hp
    obtain rfl := List.prefix_nil.1 hpre
    cases hp
    exact hI _ hs
  | cons hstep _ ih =>
    intro hs hF hC pre s₁ hpre hp₁
    rcases pre with _ | ⟨e', pre⟩
    · cases hp₁
      exact hI _ hs
    · obtain ⟨rfl, hpre'⟩ := List.cons_prefix_cons.1 hpre
      obtain ⟨s₂, hstep₂, hp₂⟩ := Path.cons_iff.1 hp₁
      obtain rfl := Option.some.inj (hstep.symm.trans hstep₂)
      have hnext := hgood _ _ _ hs hF.1 hC.1 hstep
      exact ih hnext (hF.2 _ hstep) (hC.2 _ hstep) pre s₁ hpre' hp₂

/-- `always_iff` for events that need not be enabled, over the runs whose steps meet the assumption
and whose last state is as `D` says; a step that does not meet the condition may break the property
later on. -/
theorem Path.always_iff_of_last {I P D : σ → Prop} {F : σ → ε → Prop} (hI : ∀ s, I s → P s)
    (hgood : ∀ s e s', I s → F s e → C s e → step s e = some s' → I s')
    (hbad : ∀ s e s₁ es s', I s → F s e → ¬ C s e → step s e = some s₁ → Path step s₁ es s' →
      D s' → ¬ ∀ pre s₂, pre <+: es → Path step s₁ pre s₂ → P s₂) {s s' : σ} {es : List ε}
    (hp : Path step s es s') (hD : D s') (hs : I s) (hF : EachStep step F s es) :
    (∀ pre s₁, pre <+: es → Path step s pre s₁ → P s₁) ↔ EachStep step C s es := by
  refine ⟨fun h => ?_, hp.always_of_each hI hgood hs hF⟩
  induction hp with
  | nil s => exact trivial
  | @cons s s' s'' e es hstep hp ih =>
    have htail : ∀ pre s₁, pre <+: es → Path step s' pre s₁ → P s₁ := fun pre s₁ hpre hp₁ =>
      h (e :: pre) s₁ (List.cons_prefix_cons.2 ⟨rfl, hpre⟩) (.cons hstep hp₁)
    by_cases hc : C s e
    · have hnext := hgood s e s' hs hF.1 hc hstep
      exact .cons hstep hc (ih hD hnext (hF.2 s' hstep) htail)
    · exact absurd htail (hbad s e s' es s'' hs hF.1 hc hstep hp hD)

/-- The same where such a step breaks the property at once. -/
theorem Path.always_iff {I P : σ → Prop} {F : σ → ε → Prop} (hI : ∀ s, I s → P s)
    (hgood : ∀ s e s', I s → F s e → C s e → step s e = some s' → I s')
    (hbad : ∀ s e s', I s → F s e → ¬ C s e → step s e = some s' → ¬ P s') {s s' : σ} {es : List ε}
    (hp : Path step s es s') (hs : I s) (hF : EachStep step F s es) :
    (∀ pre s₁, pre <+: es → Path step s pre s₁ → P s₁) ↔ EachStep step C s es := by
  refine hp.always_iff_of_last (D := fun _ => True) hI hgood ?_ trivial hs hF
  intro s e s₁ es s' hs hf hc hstep _ _ h
  exact hbad s e s₁ hs hf hc hstep (h [] s₁ List.nil_prefix (.nil _))

/-- How many events of a run meet the condition in the state before them. -/
def countSteps (step : σ → ε → Option σ) (C : σ → ε → Prop) [∀ s e, Decidable (C s e)] :
    σ → List ε → ℕ
  | _, [] => 0
  | s, e :: es => (if C s e then 1 else 0) + (step s e).elim 0 fun s' => countSteps step C s' es

/-- What holds of the state and of the number of events that have met the condition. -/
theorem Path.count [∀ s e, Decidable (C s e)] {F : σ → ε → Prop} {R : ℕ → σ → Prop}
    (h : ∀ n s e s', R n s → F s e → step s e = some s' → R (n + if C s e then 1 else 0) s')
    {s s' : σ} {es : List ε} (hp : Path step s es s') : EachStep step F s es → ∀ n, R n s →
      R (n + countSteps step C s es) s' := by
  induction hp with
  | nil s => exact fun _ n hs => hs
  | @cons s s₁ _ e es hstep _ ih =>
    intro hF n hs
    have hnext := ih (hF.2 s₁ hstep) _ (h n s e s₁ hs hF.1 hstep)
    have hcount : countSteps step C s (e :: es)
        = (if C s e then 1 else 0) + countSteps step C s₁ es := by
      rw [countSteps, hstep]
      rfl
    rwa [hcount, ← Nat.add_assoc]

/-- What holds of the events so far and the state they lead to. -/
theorem Path.history {I : List ε → σ → Prop} {s s' : σ} {es : List ε} (hp : Path step s es s')
    (h : ∀ pre s e s', I pre s → step s e = some s' → I (pre ++ [e]) s') :
    ∀ pre, I pre s → I (pre ++ es) s' := by
  induction hp with
  | nil s =>
    intro pre hs
    rwa [List.append_nil]
  | cons hstep _ ih =>
    intro pre hs
    have := ih (pre ++ [_]) (h _ _ _ _ hs hstep)
    rwa [List.append_assoc] at this

end Events

/-! ## The order of two events -/

section Order

variable {δ : Type*} {p q : ε → Prop}

/-- An event `p` holds of, and later one `q` holds of. -/
def Before (p q : ε → Prop) : List ε → Prop
  | [] => False
  | e :: es => (p e ∧ ∃ e' ∈ es, q e') ∨ Before p q es

theorem before_concat {e : ε} : ∀ {es : List ε},
    Before p q (es ++ [e]) ↔ Before p q es ∨ (∃ e' ∈ es, p e') ∧ q e
  | [] => by simp [Before]
  | e₁ :: es => by
    have hq : (∃ e' ∈ es ++ [e], q e') ↔ (∃ e' ∈ es, q e') ∨ q e := by
      simp [or_and_right, exists_or]
    have hp : (∃ e' ∈ e₁ :: es, p e') ↔ p e₁ ∨ ∃ e' ∈ es, p e' := by simp
    rw [List.cons_append, Before, Before, before_concat, hq, hp, and_or_left, or_and_right]
    exact or_or_or_comm

theorem Before.exists_left : ∀ {es : List ε}, Before p q es → ∃ e ∈ es, p e
  | e :: _, .inl h => ⟨e, .head _, h.1⟩
  | _ :: _, .inr h => let ⟨e, he, hp⟩ := h.exists_left; ⟨e, .tail _ he, hp⟩

theorem Before.exists_right : ∀ {es : List ε}, Before p q es → ∃ e ∈ es, q e
  | _ :: _, .inl h => let ⟨e, he, hq⟩ := h.2; ⟨e, .tail _ he, hq⟩
  | _ :: _, .inr h => let ⟨e, he, hq⟩ := h.exists_right; ⟨e, .tail _ he, hq⟩

theorem before_filterMap {g : ε → Option δ} {p q : δ → Prop} : ∀ {es : List ε},
    Before p q (es.filterMap g)
      ↔ Before (fun e => ∃ d, g e = some d ∧ p d) (fun e => ∃ d, g e = some d ∧ q d) es
  | [] => Iff.rfl
  | e :: es => by
    have hex : (∃ d ∈ es.filterMap g, q d) ↔ ∃ e ∈ es, ∃ d, g e = some d ∧ q d := by
      simp only [List.mem_filterMap]
      constructor
      · rintro ⟨d, ⟨e, he, hd⟩, hq⟩
        exact ⟨e, he, d, hd, hq⟩
      · rintro ⟨e, he, d, hd, hq⟩
        exact ⟨d, ⟨e, he, hd⟩, hq⟩
    rcases hg : g e with _ | d
    · rw [List.filterMap_cons_none hg, Before, before_filterMap]
      simp [hg]
    · rw [List.filterMap_cons_some hg, Before, Before, before_filterMap, hex]
      simp [hg]

end Order

end Runs
