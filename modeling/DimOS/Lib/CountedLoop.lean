import Mathlib

/-! A for loop whose counter has a type with a largest value. `left` counts the values of that
type from `i` on, so the loop that counts past the last of them has no result. -/
namespace DimOS.Lib.CountedLoop

universe u
variable {σ : Type u} {bound : Nat} {body : Nat → σ → Option σ}

/- The values from 0 on of a counter of 32 bits with a sign, and of one of 64 bits without. -/
def intLimit : Nat := 2 ^ 31

def sizeLimit : Nat := 2 ^ 64

/- `for (; i < bound; i++) body(i);` -/
def forLoop (bound : Nat) (body : Nat → σ → Option σ) : Nat → Nat → σ → Option σ
  | 0, _, _ => none
  | left + 1, i, s =>
    if i < bound then (body i s).bind (forLoop bound body left (i + 1)) else some s

theorem forLoopRun (Inv : Nat → σ → Prop)
    (keep : ∀ i s, i < bound → Inv i s → ∃ t, body i s = some t ∧ Inv (i + 1) t)
    {left i : Nat} {s : σ} (start : Inv i s) (low : i ≤ bound) (room : bound < i + left) :
    ∃ t, forLoop bound body left i s = some t ∧ Inv bound t := by
  induction left generalizing i s with
  | zero => omega
  | succ left ih =>
    rw [forLoop]
    by_cases more : i < bound
    · obtain ⟨mid, taken, kept⟩ := keep i s more start
      rw [if_pos more, taken, Option.bind_some]
      exact ih kept (by omega) (by omega)
    · rw [if_neg more]
      have there : i = bound := by omega
      exact ⟨s, rfl, there ▸ start⟩

theorem forLoopDone {left i : Nat} {s : σ} (reached : bound ≤ i) (more : 0 < left) :
    forLoop bound body left i s = some s := by
  obtain ⟨left, rfl⟩ := Nat.exists_eq_succ_of_ne_zero (Nat.ne_of_gt more)
  exact if_neg (Nat.not_lt.mpr reached)

theorem forLoopPast {left i : Nat} {s : σ} (short : i + left ≤ bound) :
    forLoop bound body left i s = none := by
  induction left generalizing i s with
  | zero => rfl
  | succ left ih =>
    rw [forLoop, if_pos (by omega)]
    cases body i s with
    | none => rfl
    | some mid => exact ih (by omega)

end DimOS.Lib.CountedLoop
