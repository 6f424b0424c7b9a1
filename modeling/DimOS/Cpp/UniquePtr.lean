import Mathlib

/-! UniquePtr<T[]>, generic in the state that the destructors of T and free act on. The array of
the Strings of a Vector and the array of the characters of a String are both of this kind. -/
namespace DimOS.Cpp.UniquePtrs

structure Blk where
  ptr : Option Nat := none
  size : Nat := 0
  deriving DecidableEq, Repr

structure Element (σ : Type) where
  sizeof : Nat
  construct : Nat → Nat → σ → σ
  destroy : Nat → Nat → σ → σ

def toInt (x : Nat) : Int := (x : Int).bmod (2 ^ 32)

section Reset
variable {σ : Type} (free : Nat → σ → σ) (T : Element σ)

/- `for (int i = len - 1; i >= 0; i--) ((T*)oldData.ptr)->~T();`: no round reads i. -/
def destroyLoop (ptr : Nat) : Nat → σ → σ
  | 0, s => s
  | rounds + 1, s => destroyLoop ptr rounds (T.destroy ptr 0 s)

/- The rounds of the loop over a block of that size: none when len is negative as an int. -/
def rounds (size : Nat) : Nat := (toInt (size / T.sizeof)).toNat

/- UniquePtr<T[]>::reset; the destructor is reset with Blk{}, move assignment with what the
other pointer releases. -/
def reset (data newData : Blk) (s : σ) : Blk × σ :=
  match data.ptr with
  | none => (newData, s)
  | some ptr => (newData, free ptr (destroyLoop T ptr (rounds T data.size) s))

end Reset

section Log

inductive Event where
  | destroyed (ptr index : Nat)
  | deallocated (ptr : Nat)
  deriving DecidableEq, Repr

def logged (sizeof : Nat) : Element (List Event) where
  sizeof := sizeof
  construct _ _ log := log
  destroy ptr index log := log ++ [.destroyed ptr index]

def logFree (ptr : Nat) (log : List Event) : List Event := log ++ [.deallocated ptr]

def resetLog (sizeof ptr n : Nat) (newData : Blk) : List Event :=
  (reset logFree (logged sizeof) ⟨some ptr, sizeof * n⟩ newData []).2

/- Each of n elements is destroyed exactly once, and the block deallocated after that. -/
def EachOnce (ptr n : Nat) (log : List Event) : Prop :=
  ∃ calls, log = calls ++ [.deallocated ptr] ∧
    ∀ j, calls.count (.destroyed ptr j) = if j < n then 1 else 0

theorem destroyLoopLog (sizeof ptr k : Nat) (log : List Event) :
    destroyLoop (logged sizeof) ptr k log = log ++ List.replicate k (.destroyed ptr 0) := by
  induction k generalizing log with
  | zero => rw [destroyLoop, List.replicate_zero, List.append_nil]
  | succ k ih =>
    rw [destroyLoop, ih, List.replicate_succ, ← List.singleton_append, ← List.append_assoc]
    rfl

theorem resetLogEq {sizeof : Nat} (sized : 0 < sizeof) (ptr n : Nat) (newData : Blk) :
    resetLog sizeof ptr n newData =
      List.replicate (toInt n).toNat (.destroyed ptr 0) ++ [.deallocated ptr] := by
  have length : sizeof * n / sizeof = n := Nat.mul_div_cancel_left n sized
  show logFree ptr (destroyLoop (logged sizeof) ptr (toInt (sizeof * n / sizeof)).toNat []) = _
  rw [length, destroyLoopLog, List.nil_append, logFree]

theorem eachOnceIff {sizeof : Nat} (sized : 0 < sizeof) (ptr n : Nat) (newData : Blk) :
    EachOnce ptr n (resetLog sizeof ptr n newData) ↔ n ≤ 1 := by
  rw [resetLogEq sized]
  constructor
  · rintro ⟨calls, same, once⟩
    obtain ⟨rfl, -⟩ := List.append_inj' same rfl
    by_contra more
    have second := once 1
    rw [if_pos (by omega), List.count_replicate] at second
    simp at second
  · intro few
    refine ⟨_, rfl, fun j => ?_⟩
    have all : (toInt n).toNat = n := by
      unfold toInt
      rw [Int.bmod_eq_of_le (by omega) (by omega), Int.toNat_natCast]
    rw [all, List.count_replicate]
    by_cases first : j = 0
    · rw [first, if_pos (beq_self_eq_true _)]
      split <;> omega
    · rw [if_neg (by simp [Ne.symm first]), if_neg (by omega)]

end Log
end DimOS.Cpp.UniquePtrs
