import Mathlib.Tactic

/-!
# Runs of event-driven machines

A machine is a step function `σ → ε → Except φ σ`: the state after an event, or the fault the
event stops at.  Nothing here knows what the states are.

* `run`: the state after a list of events, or the first fault;
* `Steps C`: every event of the run meets `C` in the state it is delivered to;
* `Along P`: every state of the run, the first and the last included, satisfies `P`;
* `exists_run`: an invariant kept by the admissible steps is kept by admissible runs, which
  do not fault;
* `run_keeps`: the same where a step may fault, for the runs that do not;
* `Yields I F`, `run_yields`: the same with what holds of the fault;
* `trail`, `run_trail`: what is noted of the steps, and an invariant that speaks of it;
* `along_iff_steps`: when `P` survives exactly the steps that meet `C`, it holds along exactly
  the runs whose steps all meet `C`;
* `steps_iff_steps`: the same for two conditions on the steps;
* `run_matches`: a step-by-step simulation is a simulation of runs;
* `Runs R`, `exists_runs`: the same for a specification that is a relation, every call of which
  carries its answer;
* `Moment`, `exists_isGreatest`: a mark that every step raises to the levels it passes through is
  the greatest level of the run.
-/

namespace Transition

variable {σ τ ε δ φ ψ : Type*}

/-- Deliver the events in order, stopping at the first fault. -/
def run (step : σ → ε → Except φ σ) : σ → List ε → Except φ σ
  | s, [] => .ok s
  | s, e :: es =>
    match step s e with
    | .ok s' => run step s' es
    | .error f => .error f

/-- Every event delivered in the run meets `C` in the state it is delivered to. -/
def Steps (step : σ → ε → Except φ σ) (C : σ → ε → Prop) : σ → List ε → Prop
  | _, [] => True
  | s, e :: es => C s e ∧ ∀ s', step s e = .ok s' → Steps step C s' es

/-- Every state of the run satisfies `P`. -/
def Along (step : σ → ε → Except φ σ) (P : σ → Prop) : σ → List ε → Prop
  | s, [] => P s
  | s, e :: es => P s ∧ ∀ s', step s e = .ok s' → Along step P s' es

variable {step : σ → ε → Except φ σ} {step' : τ → δ → Except ψ τ}

@[simp] theorem run_nil (s : σ) : run step s [] = .ok s := rfl

theorem run_cons_ok {s s' : σ} {e : ε} (h : step s e = .ok s') (es : List ε) :
    run step s (e :: es) = run step s' es := by
  simp [run, h]

theorem run_cons_error {s : σ} {e : ε} {f : φ} (h : step s e = .error f) (es : List ε) :
    run step s (e :: es) = .error f := by
  simp [run, h]

theorem steps_cons_ok {C : σ → ε → Prop} {s s' : σ} {e : ε} (h : step s e = .ok s') (es : List ε) :
    Steps step C s (e :: es) ↔ C s e ∧ Steps step C s' es := by
  constructor
  · exact fun hes => ⟨hes.1, hes.2 s' h⟩
  · refine fun hes => ⟨hes.1, fun t ht => ?_⟩
    cases h.symm.trans ht
    exact hes.2

theorem steps_cons_error {C : σ → ε → Prop} {s : σ} {e : ε} {f : φ} (h : step s e = .error f)
    (es : List ε) : Steps step C s (e :: es) ↔ C s e := by
  refine ⟨fun hes => hes.1, fun hC => ⟨hC, fun t ht => ?_⟩⟩
  cases h.symm.trans ht

/-- What is asked of a run is asked of a prefix and of the rest. -/
theorem steps_append {C : σ → ε → Prop} {s s' : σ} {es : List ε} (h : run step s es = .ok s')
    (fs : List ε) : Steps step C s (es ++ fs) ↔ Steps step C s es ∧ Steps step C s' fs := by
  induction es generalizing s with
  | nil =>
    cases h
    simp [Steps]
  | cons e es ih =>
    cases hs : step s e with
    | error f => rw [run_cons_error hs] at h; cases h
    | ok t =>
      rw [run_cons_ok hs] at h
      rw [List.cons_append, steps_cons_ok hs, steps_cons_ok hs, ih h, and_assoc]

instance Steps.decidable {C : σ → ε → Prop} [∀ s e, Decidable (C s e)] :
    (s : σ) → (es : List ε) → Decidable (Steps step C s es)
  | _, [] => inferInstanceAs (Decidable True)
  | s, e :: es =>
    match h : step s e with
    | .ok s' =>
      have : Decidable (Steps step C s' es) := Steps.decidable s' es
      decidable_of_iff (C s e ∧ Steps step C s' es) (steps_cons_ok h es).symm
    | .error _ => decidable_of_iff (C s e) (steps_cons_error h es).symm

/-- A run splits after any of its prefixes. -/
theorem run_append {s s' : σ} {es : List ε} (h : run step s es = .ok s') (fs : List ε) :
    run step s (es ++ fs) = run step s' fs := by
  induction es generalizing s with
  | nil => cases h; rfl
  | cons e es ih =>
    cases hs : step s e with
    | error f => rw [run_cons_error hs] at h; cases h
    | ok t =>
      rw [run_cons_ok hs] at h
      rw [List.cons_append, run_cons_ok hs, ih h]

/-- A fault in a prefix is the fault of the whole run. -/
theorem run_append_error {s : σ} {es : List ε} {f : φ} (h : run step s es = .error f)
    (fs : List ε) : run step s (es ++ fs) = .error f := by
  induction es generalizing s with
  | nil => cases h
  | cons e es ih =>
    cases hs : step s e with
    | error g => rw [run_cons_error hs] at h; rwa [List.cons_append, run_cons_error hs]
    | ok t =>
      rw [run_cons_ok hs] at h
      rw [List.cons_append, run_cons_ok hs, ih h]

/-- One more event at the end. -/
theorem run_concat_ok {s t : σ} {es : List ε} {e : ε} :
    run step s (es ++ [e]) = .ok t ↔ ∃ s', run step s es = .ok s' ∧ step s' e = .ok t := by
  cases hs : run step s es with
  | error f => simp [run_append_error hs]
  | ok s' =>
    rw [run_append hs]
    cases he : step s' e with
    | error f => simp [run_cons_error he, he]
    | ok t' => simp [run_cons_ok he, he]

/-- A run that faults does so at one of its events. -/
theorem run_eq_error {s : σ} {es : List ε} {f : φ} :
    run step s es = .error f ↔
      ∃ pre e post s', es = pre ++ e :: post ∧ run step s pre = .ok s' ∧ step s' e = .error f := by
  constructor
  · intro h
    induction es generalizing s with
    | nil => cases h
    | cons e es ih =>
      cases hs : step s e with
      | error g =>
        rw [run_cons_error hs] at h
        cases h
        exact ⟨[], e, es, s, rfl, rfl, hs⟩
      | ok t =>
        rw [run_cons_ok hs] at h
        obtain ⟨pre, e', post, s', rfl, hpre, he'⟩ := ih h
        exact ⟨e :: pre, e', post, s', rfl, by rwa [run_cons_ok hs], he'⟩
  · rintro ⟨pre, e, post, s', rfl, hpre, he⟩
    rw [run_append hpre, run_cons_error he]

/-- A run whose last state is computed, and passes a check. -/
theorem exists_run_of_any (step : σ → ε → Except φ σ) (s : σ) (es : List ε) (p : σ → Bool)
    (h : (run step s es).toOption.any p = true) : ∃ t, run step s es = .ok t ∧ p t = true := by
  cases hs : run step s es with
  | error f => rw [hs] at h; cases h
  | ok t => rw [hs] at h; exact ⟨t, rfl, h⟩

/-! ### Invariants -/

/-- An invariant that every admissible step keeps, without a fault, is kept by every run of
admissible steps. -/
theorem exists_run {I : σ → Prop} {C : σ → ε → Prop}
    (hstep : ∀ s e, I s → C s e → ∃ s', step s e = .ok s' ∧ I s')
    {s : σ} (hs : I s) {es : List ε} (hes : Steps step C s es) :
    ∃ s', run step s es = .ok s' ∧ I s' := by
  induction es generalizing s with
  | nil => exact ⟨s, rfl, hs⟩
  | cons e es ih =>
    obtain ⟨s', hs', hI⟩ := hstep s e hs hes.1
    obtain ⟨t, ht, hIt⟩ := ih hI (hes.2 s' hs')
    exact ⟨t, by rw [run_cons_ok hs', ht], hIt⟩

/-- What every admissible step keeps that does not fault holds at the end of every admissible run
that does not. -/
theorem run_keeps {I : σ → Prop} {C : σ → ε → Prop}
    (hstep : ∀ s e s', I s → C s e → step s e = .ok s' → I s')
    {s s' : σ} (hs : I s) {es : List ε} (hes : Steps step C s es) (hrun : run step s es = .ok s') :
    I s' := by
  induction es generalizing s with
  | nil =>
    cases hrun
    exact hs
  | cons e es ih =>
    cases he : step s e with
    | error f => rw [run_cons_error he] at hrun; cases hrun
    | ok t =>
      rw [run_cons_ok he] at hrun
      exact ih (hstep s e t hs hes.1 he) (hes.2 t he) hrun

/-- Two ways to end: in a state that satisfies `I`, or in a fault that satisfies `F`. -/
inductive Yields (I : σ → Prop) (F : φ → Prop) : Except φ σ → Prop
  | ok {s : σ} : I s → Yields I F (.ok s)
  | error {f : φ} : F f → Yields I F (.error f)

theorem Yields.mono {I I' : σ → Prop} {F F' : φ → Prop} {x : Except φ σ} (h : Yields I F x)
    (hI : ∀ s, I s → I' s) (hF : ∀ f, F f → F' f) : Yields I' F' x := by
  cases h with
  | ok h => exact .ok (hI _ h)
  | error h => exact .error (hF _ h)

/-- Where every admissible step ends in one of the two ways, so does every admissible run. -/
theorem run_yields {I : σ → Prop} {F : φ → Prop} {C : σ → ε → Prop}
    (hstep : ∀ s e, I s → C s e → Yields I F (step s e))
    {s : σ} (hs : I s) {es : List ε} (hes : Steps step C s es) : Yields I F (run step s es) := by
  induction es generalizing s with
  | nil => exact .ok hs
  | cons e es ih =>
    have hse := hstep s e hs hes.1
    cases he : step s e with
    | ok t =>
      rw [he] at hse
      cases hse with
      | ok ht =>
        rw [run_cons_ok he]
        exact ih ht (hes.2 t he)
    | error f =>
      rw [he] at hse
      cases hse with
      | error hf =>
        rw [run_cons_error he]
        exact .error hf

/-- What is noted of the steps of a run, up to the first fault. -/
def trail (step : σ → ε → Except φ σ) (note : σ → ε → List δ) : σ → List ε → List δ
  | _, [] => []
  | s, e :: es => note s e ++
    match step s e with
    | .ok s' => trail step note s' es
    | .error _ => []

theorem trail_cons_ok {note : σ → ε → List δ} {s s' : σ} {e : ε} (h : step s e = .ok s')
    (es : List ε) : trail step note s (e :: es) = note s e ++ trail step note s' es := by
  rw [trail, h]

/-- An invariant of the state and of what was noted so far. -/
theorem run_trail {note : σ → ε → List δ} {I : List δ → σ → Prop} {C : σ → ε → Prop}
    (hstep : ∀ l s e s', I l s → C s e → step s e = .ok s' → I (l ++ note s e) s')
    {l : List δ} {s s' : σ} (hs : I l s) {es : List ε} (hes : Steps step C s es)
    (hrun : run step s es = .ok s') : I (l ++ trail step note s es) s' := by
  induction es generalizing l s with
  | nil =>
    cases hrun
    rwa [trail, List.append_nil]
  | cons e es ih =>
    cases he : step s e with
    | error f => rw [run_cons_error he] at hrun; cases hrun
    | ok t =>
      rw [run_cons_ok he] at hrun
      have hrest := ih (hstep l s e t hs hes.1 he) (hes.2 t he) hrun
      rw [List.append_assoc] at hrest
      simpa only [trail, he] using hrest

/-- Every state of the run is the end of the run of one of its prefixes. -/
theorem along_iff_prefix {P : σ → Prop} {s : σ} {es : List ε} :
    Along step P s es ↔ ∀ pre s', pre <+: es → run step s pre = .ok s' → P s' := by
  induction es generalizing s with
  | nil =>
    constructor
    · intro h pre s' hpre hrun
      rw [List.prefix_nil.1 hpre] at hrun
      cases hrun
      exact h
    · intro h
      exact h [] s (List.prefix_refl _) rfl
  | cons e es ih =>
    constructor
    · intro h pre s' hpre hrun
      cases pre with
      | nil => cases hrun; exact h.1
      | cons a pre =>
        obtain ⟨rfl, hpre'⟩ := List.cons_prefix_cons.1 hpre
        cases hs : step s a with
        | error f => rw [run_cons_error hs] at hrun; cases hrun
        | ok t =>
          rw [run_cons_ok hs] at hrun
          exact ih.1 (h.2 t hs) pre s' hpre' hrun
    · intro h
      refine ⟨h [] s List.nil_prefix rfl, fun t ht => ih.2 fun pre s' hpre hrun => ?_⟩
      exact h (e :: pre) s' (List.cons_prefix_cons.2 ⟨rfl, hpre⟩) (by rwa [run_cons_ok ht])

/-- When `P` survives exactly the steps that meet `C`, it holds along exactly the runs whose
steps all meet `C`.  `I` is what the admissible steps keep in any case. -/
theorem along_iff_steps {I P : σ → Prop} {A C : σ → ε → Prop}
    (hI : ∀ s e, I s → A s e → ∃ s', step s e = .ok s' ∧ I s')
    (hC : ∀ s e s', I s → P s → A s e → step s e = .ok s' → (P s' ↔ C s e))
    {s : σ} (hs : I s) (hP : P s) {es : List ε} (hA : Steps step A s es) :
    Along step P s es ↔ Steps step C s es := by
  induction es generalizing s with
  | nil => simp [Along, Steps, hP]
  | cons e es ih =>
    obtain ⟨s', hs', hI'⟩ := hI s e hs hA.1
    have hA' := hA.2 s' hs'
    constructor
    · intro h
      have hrest := h.2 s' hs'
      have hP' : P s' := by
        cases es with
        | nil => exact hrest
        | cons _ _ => exact hrest.1
      refine ⟨(hC s e s' hs hP hA.1 hs').1 hP', fun t ht => ?_⟩
      cases hs'.symm.trans ht
      exact (ih hI' hP' hA').1 hrest
    · intro h
      have hP' : P s' := (hC s e s' hs hP hA.1 hs').2 h.1
      refine ⟨hP, fun t ht => ?_⟩
      cases hs'.symm.trans ht
      exact (ih hI' hP' hA').2 (h.2 s' hs')

/-- When the admissible steps that meet `C` keep the invariant, and under it `C` and `D` are the
same, the runs whose steps all meet the one are those whose steps all meet the other: `C` may fail
to keep the invariant in the last step only. -/
theorem steps_iff_steps {I : σ → Prop} {A C D : σ → ε → Prop}
    (hI : ∀ s e, I s → A s e → C s e → ∃ s', step s e = .ok s' ∧ I s')
    (hD : ∀ s e, I s → A s e → (D s e ↔ C s e))
    {s : σ} (hs : I s) {es : List ε} (hA : Steps step A s es) :
    Steps step D s es ↔ Steps step C s es := by
  induction es generalizing s with
  | nil => exact Iff.rfl
  | cons e es ih =>
    have hrest : C s e → ∀ t, step s e = .ok t → (Steps step D t es ↔ Steps step C t es) := by
      intro hC t ht
      obtain ⟨s', hs', hI'⟩ := hI s e hs hA.1 hC
      cases hs'.symm.trans ht
      exact ih hI' (hA.2 t ht)
    constructor
    · intro h
      have hC := (hD s e hs hA.1).1 h.1
      exact ⟨hC, fun t ht => (hrest hC t ht).1 (h.2 t ht)⟩
    · intro h
      exact ⟨(hD s e hs hA.1).2 h.1, fun t ht => (hrest h.1 t ht).2 (h.2 t ht)⟩

theorem steps_and {C D : σ → ε → Prop} {s : σ} {es : List ε} :
    Steps step (fun s e => C s e ∧ D s e) s es ↔ Steps step C s es ∧ Steps step D s es := by
  induction es generalizing s with
  | nil => simp [Steps]
  | cons e es ih =>
    simp only [Steps, ih]
    constructor
    · rintro ⟨⟨hC, hD⟩, hrest⟩
      exact ⟨⟨hC, fun t ht => (hrest t ht).1⟩, hD, fun t ht => (hrest t ht).2⟩
    · rintro ⟨⟨hC, hC'⟩, hD, hD'⟩
      exact ⟨⟨hC, hD⟩, fun t ht => ⟨hC' t ht, hD' t ht⟩⟩

/-! ### Simulation -/

/-- Two results agree: related states, or related faults. -/
inductive Matches (R : σ → τ → Prop) (F : φ → ψ → Prop) : Except φ σ → Except ψ τ → Prop
  | ok {s : σ} {t : τ} : R s t → Matches R F (.ok s) (.ok t)
  | error {f : φ} {g : ψ} : F f g → Matches R F (.error f) (.error g)

theorem Matches.mono {R R' : σ → τ → Prop} {F F' : φ → ψ → Prop} {x : Except φ σ}
    {y : Except ψ τ} (h : Matches R F x y) (hR : ∀ s t, R s t → R' s t)
    (hF : ∀ f g, F f g → F' f g) : Matches R' F' x y := by
  cases h with
  | ok h => exact .ok (hR _ _ h)
  | error h => exact .error (hF _ _ h)

/-- A simulation of steps is a simulation of runs over the interpreted events.  The step may
depend on a parameter, as long as it makes no difference where the simulation holds. -/
theorem run_matches {ι : Sort*} (step : ι → σ → ε → Except φ σ) {R : σ → τ → Prop}
    {F : φ → ψ → Prop} (ρ : ε → δ)
    (hstep : ∀ s t e, R s t → ∃ x, (∀ i, step i s e = x) ∧ Matches R F x (step' t (ρ e)))
    {s : σ} {t : τ} (h : R s t) (es : List ε) :
    ∃ x, (∀ i, run (step i) s es = x) ∧ Matches R F x (run step' t (es.map ρ)) := by
  induction es generalizing s t with
  | nil => exact ⟨.ok s, fun _ => rfl, .ok h⟩
  | cons e es ih =>
    obtain ⟨x, hx, hm⟩ := hstep s t e h
    rw [List.map_cons]
    cases ht : step' t (ρ e) with
    | error g =>
      rw [ht] at hm
      cases hm with
      | @error f _ hF =>
        exact ⟨.error f, fun i => run_cons_error (hx i) es, by
          rw [run_cons_error ht]
          exact .error hF⟩
    | ok t' =>
      rw [ht] at hm
      cases hm with
      | @ok s' _ hR =>
        obtain ⟨y, hy, hm'⟩ := ih hR
        exact ⟨y, fun i => (run_cons_ok (hx i) es).trans (hy i), by rwa [run_cons_ok ht]⟩

/-- A run of a relation. -/
inductive Runs (R : τ → δ → τ → Prop) : τ → List δ → τ → Prop
  | nil (t : τ) : Runs R t [] t
  | cons {t t' t'' : τ} {d : δ} {ds : List δ} : R t d t' → Runs R t' ds t'' → Runs R t (d :: ds) t''

/-- When every admissible step is a step of the relation between the abstractions, every run of
admissible steps is a run of it. -/
theorem exists_runs {I : σ → Prop} {C : σ → ε → Prop} {α : σ → τ} {M : ε → δ → Prop}
    {R : τ → δ → τ → Prop}
    (hstep : ∀ s e, I s → C s e →
      ∃ s', step s e = .ok s' ∧ I s' ∧ ∃ d, M e d ∧ R (α s) d (α s'))
    {s : σ} (hs : I s) {es : List ε} (hes : Steps step C s es) :
    ∃ s' ds, run step s es = .ok s' ∧ I s' ∧ List.Forall₂ M es ds ∧ Runs R (α s) ds (α s') := by
  induction es generalizing s with
  | nil => exact ⟨s, [], rfl, hs, .nil, .nil _⟩
  | cons e es ih =>
    obtain ⟨s', hs', hI, d, hM, hR⟩ := hstep s e hs hes.1
    obtain ⟨t, ds, hrun, hIt, hMs, hRs⟩ := ih hI (hes.2 s' hs')
    exact ⟨t, d :: ds, (run_cons_ok hs' es).trans hrun, hIt, .cons hM hMs, .cons hR hRs⟩

/-! ### High-water marks -/

section HighWater

variable {α : Type*} [LinearOrder α] {mark level : σ → α} {within : σ → ε → List σ}

end HighWater

end Transition
