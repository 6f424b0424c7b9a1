import Mathlib.Data.List.Basic

/-! Runs of a partial step function over a list of events. A refused event ends
the run: nothing is inferred about a state that no accepted prefix reaches. The
guard of a run is asked at the state in which its event is taken, never later. -/
namespace DimOS.Lib.Transition

universe u v
variable {σ : Type u} {ε : Type v}

def run (step : σ → ε → Option σ) : σ → List ε → Option σ
  | s, [] => some s
  | s, e :: es => (step s e).bind (fun t => run step t es)

theorem runAppend (step : σ → ε → Option σ) (s : σ) (es fs : List ε) :
    run step s (es ++ fs) = (run step s es).bind (fun t => run step t fs) := by
  induction es generalizing s with
  | nil => rfl
  | cons e es ih =>
    simp only [List.cons_append, run]
    cases step s e with
    | none => rfl
    | some t => exact ih t

theorem runSingle {step : σ → ε → Option σ} {s : σ} {e : ε} :
    run step s [e] = step s e := by
  simp only [run, Option.bind_fun_some]

/- The states a run passes through, its first and its last state included. -/
def Visits (step : σ → ε → Option σ) (s : σ) (es : List ε) (mid : σ) : Prop :=
  ∃ pre post, es = pre ++ post ∧ run step s pre = some mid

def Guarded (step : σ → ε → Option σ) (guard : σ → ε → Prop) (s : σ) (es : List ε) : Prop :=
  ∀ pre e post mid, es = pre ++ e :: post → run step s pre = some mid → guard mid e

theorem guardedNil (step : σ → ε → Option σ) (guard : σ → ε → Prop) (s : σ) :
    Guarded step guard s [] := by
  intro pre e post mid shape
  simp at shape

theorem guardedConsIff {step : σ → ε → Option σ} {guard : σ → ε → Prop} {s : σ} {e : ε}
    {es : List ε} :
    Guarded step guard s (e :: es) ↔
      guard s e ∧ ∀ t, step s e = some t → Guarded step guard t es := by
  constructor
  · intro all
    refine ⟨all [] e es s rfl rfl, ?_⟩
    intro t ht pre f post mid shape reached
    apply all (e :: pre) f post mid (by rw [shape]; rfl)
    simp only [run, ht, Option.bind_some, reached]
  · rintro ⟨head, tail⟩ pre f post mid shape reached
    cases pre with
    | nil =>
      simp only [List.nil_append, List.cons.injEq] at shape
      obtain ⟨rfl, -⟩ := shape
      cases Option.some.inj reached
      exact head
    | cons g pre =>
      simp only [List.cons_append, List.cons.injEq] at shape
      obtain ⟨rfl, shape⟩ := shape
      obtain ⟨t, ht, reached⟩ := Option.bind_eq_some_iff.mp reached
      exact tail t ht pre f post mid shape reached

/- The guard asked along one run, event by event, up to the first refused event. -/
def checkGuarded (step : σ → ε → Option σ) (guard : σ → ε → Prop)
    [∀ s e, Decidable (guard s e)] : σ → List ε → Bool
  | _, [] => true
  | s, e :: es => decide (guard s e) &&
      match step s e with
      | none => true
      | some t => checkGuarded step guard t es

theorem checkedGuarded {step : σ → ε → Option σ} {guard : σ → ε → Prop}
    [∀ s e, Decidable (guard s e)] {s : σ} {es : List ε}
    (ok : checkGuarded step guard s es = true) : Guarded step guard s es := by
  induction es generalizing s with
  | nil => exact guardedNil step guard s
  | cons e es ih =>
    simp only [checkGuarded, Bool.and_eq_true, decide_eq_true_eq] at ok
    refine guardedConsIff.mpr ⟨ok.1, ?_⟩
    intro t taken
    rw [taken] at ok
    exact ih ok.2

theorem invariantRun {step : σ → ε → Option σ} {guard : σ → ε → Prop} (inv : σ → Prop)
    (keep : ∀ s e t, inv s → guard s e → step s e = some t → inv t)
    {s t : σ} {es : List ε} (start : inv s) (guarded : Guarded step guard s es)
    (ok : run step s es = some t) : inv t := by
  induction es generalizing s with
  | nil => cases Option.some.inj ok; exact start
  | cons e es ih =>
    obtain ⟨head, tail⟩ := guardedConsIff.mp guarded
    obtain ⟨mid, first, rest⟩ := Option.bind_eq_some_iff.mp ok
    exact ih (keep s e mid start head first) (tail mid first) rest

theorem invariantRunTotal {step : σ → ε → Option σ} {guard : σ → ε → Prop} (inv : σ → Prop)
    (keep : ∀ s e, inv s → guard s e → ∃ t, step s e = some t ∧ inv t)
    {s : σ} {es : List ε} (start : inv s) (guarded : Guarded step guard s es) :
    ∃ t, run step s es = some t ∧ inv t := by
  induction es generalizing s with
  | nil => exact ⟨s, rfl, start⟩
  | cons e es ih =>
    obtain ⟨head, tail⟩ := guardedConsIff.mp guarded
    obtain ⟨mid, taken, kept⟩ := keep s e start head
    obtain ⟨t, reached, last⟩ := ih kept (tail mid taken)
    exact ⟨t, by simp only [run, taken, Option.bind_some, reached], last⟩

theorem invariantRunAll {step : σ → ε → Option σ} (inv : σ → Prop)
    (keep : ∀ s e t, inv s → step s e = some t → inv t)
    {s t : σ} {es : List ε} (start : inv s) (ok : run step s es = some t) : inv t := by
  have free : Guarded step (fun _ _ => True) s es := fun _ _ _ _ _ _ => trivial
  exact invariantRun inv (fun s e t h _ => keep s e t h) start free ok

theorem guardedTake {step : σ → ε → Option σ} {guard : σ → ε → Prop} {s : σ} {es fs : List ε}
    (guarded : Guarded step guard s (es ++ fs)) : Guarded step guard s es := by
  intro pre e post mid shape reached
  exact guarded pre e (post ++ fs) mid (by rw [shape]; simp) reached

theorem invariantVisits {step : σ → ε → Option σ} {guard : σ → ε → Prop} (inv : σ → Prop)
    (keep : ∀ s e t, inv s → guard s e → step s e = some t → inv t)
    {s mid : σ} {es : List ε} (start : inv s) (guarded : Guarded step guard s es)
    (visited : Visits step s es mid) : inv mid := by
  obtain ⟨pre, post, rfl, reached⟩ := visited
  exact invariantRun inv keep start (guardedTake guarded) reached

theorem runSimulates {τ : Type*} {step : σ → ε → Option σ} {step' : τ → ε → Option τ} (f : σ → τ) (inv : σ → Prop)
    (keep : ∀ s e, inv s → (step s e).map f = step' (f s) e ∧ ∀ t, step s e = some t → inv t)
    {s : σ} (es : List ε) (start : inv s) : (run step s es).map f = run step' (f s) es := by
  induction es generalizing s with
  | nil => rfl
  | cons e es ih =>
    obtain ⟨same, kept⟩ := keep s e start
    rw [run, run, ← same]
    cases taken : step s e with
    | none => rfl
    | some mid => exact ih (kept mid taken)

end DimOS.Lib.Transition
