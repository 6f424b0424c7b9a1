import Mathlib.Data.Nat.Count

/-! Counting the true positions of a Boolean function below a bound, and how the
count follows a change at one position. -/
namespace DimOS.Lib.Count

abbrev count (f : Nat → Bool) (n : Nat) : Nat := Nat.count (fun k => f k = true) n

theorem countCongr {f g : Nat → Bool} {n : Nat} (same : ∀ k, k < n → g k = f k) :
    count g n = count f n := by
  induction n with
  | zero => rfl
  | succ n ih =>
    simp only [count, Nat.count_succ, same n (Nat.lt_succ_self n)] at ih ⊢
    rw [ih (fun k below => same k (Nat.lt_succ_of_lt below))]

theorem countRaise {f g : Nat → Bool} {i n : Nat} (inside : i < n) (off : f i = false)
    (on : g i = true) (same : ∀ k, k ≠ i → g k = f k) : count g n = count f n + 1 := by
  induction n with
  | zero => omega
  | succ n ih =>
    simp only [count, Nat.count_succ] at ih ⊢
    by_cases last : i = n
    · subst last
      have before := countCongr (n := i) (fun k below => same k (Nat.ne_of_lt below))
      simp only [count] at before
      simp [before, off, on]
    · rw [ih (by omega), same n (Ne.symm last)]
      omega

theorem countLower {f g : Nat → Bool} {i n : Nat} (inside : i < n) (on : f i = true)
    (off : g i = false) (same : ∀ k, k ≠ i → g k = f k) : count g n + 1 = count f n :=
  (countRaise inside off on (fun k other => (same k other).symm)).symm

theorem countExtend {f : Nat → Bool} {n k : Nat} (off : ∀ i, n ≤ i → f i = false) :
    count f (n + k) = count f n := by
  induction k with
  | zero => rfl
  | succ k ih =>
    simp only [count, ← Nat.add_assoc, Nat.count_succ, off (n + k) (Nat.le_add_right n k)] at ih ⊢
    simpa using ih

theorem countLe (f : Nat → Bool) (n : Nat) : count f n ≤ n := Nat.count_le _

theorem countEqIff {f : Nat → Bool} {n : Nat} : count f n = n ↔ ∀ k, k < n → f k = true := by
  induction n with
  | zero => simp [count]
  | succ n ih =>
    simp only [count, Nat.count_succ] at ih ⊢
    have bound : Nat.count (fun k => f k = true) n ≤ n := Nat.count_le _
    constructor
    · intro full k below
      by_cases set : f n = true
      · rcases Nat.lt_succ_iff_lt_or_eq.mp below with low | rfl
        · exact ih.mp (by simp [set] at full; omega) k low
        · exact set
      · simp [set] at full
        omega
    · intro all
      rw [ih.mpr (fun k below => all k (Nat.lt_succ_of_lt below)), if_pos (all n (Nat.lt_succ_self n))]

theorem countLt {f : Nat → Bool} {n : Nat} (fewer : count f n < n) : ∃ k, k < n ∧ f k = false := by
  by_contra none
  have all : ∀ k, k < n → f k = true := by
    intro k below
    by_contra off
    exact none ⟨k, below, by simpa using off⟩
  rw [countEqIff.mpr all] at fewer
  omega

end DimOS.Lib.Count
