import Mathlib
import DimOS.Lib.Numerals
import DimOS.Cpp.Strings

/-! String::reverse and stoi. The loop of stoi writes the digits of a number from the last one on
and stops at zero, so the number zero has no digit. -/
namespace DimOS.Cpp.StringNumbers
open Containers (Chars)
open Strings
open Lib.Numerals

/- `'0' + d`. -/
def digitChar (d : Nat) : BitVec 8 := BitVec.ofNat 8 (0x30 + d)

def decimalDigit (c : BitVec 8) : Option Nat :=
  if 0x30 ≤ c.toNat ∧ c.toNat ≤ 0x39 then some (c.toNat - 0x30) else none

theorem decimalGlyphs : Glyphs decimalDigit 10 digitChar := by
  unfold Glyphs
  decide

/- The loop of stoi. A round divides by ten, and no number is divided more often than its value. -/
def stoiLoop : Nat → Int → Chars → Option Chars
  | 0, _, _ => none
  | left + 1, n, res =>
    if 0 < n then
      match pushBack res (digitChar (n.tmod 10).toNat) with
      | none => none
      | some res => stoiLoop left (n.tdiv 10) res
    else some res

def stoi (n : Int) : Option Chars :=
  (stoiLoop (n.toNat + 1) n [0#8]).bind reverse

theorem reverseLoopEq {front middle back : Chars} {left : Nat} (half : left = middle.length / 2)
    (even : front.length = back.length) (fits : front.length + middle.length < intLimit) :
    reverseLoop left front.length (front ++ middle ++ back ++ [0#8]) =
      some (front ++ middle.reverse ++ back ++ [0#8]) := by
  induction left generalizing front middle back with
  | zero =>
    have short : middle.length < 2 := by omega
    have same : middle.reverse = middle := by
      match middle, short with
      | [], _ => rfl
      | [c], _ => rfl
    rw [same]
    rfl
  | succ left ih =>
    obtain ⟨a, inner, b, rfl⟩ : ∃ a inner b, middle = a :: inner ++ [b] := by
      obtain ⟨a, rest, rfl⟩ := List.exists_cons_of_length_pos (l := middle) (by omega)
      have filled : rest ≠ [] := by
        rintro rfl
        simp at half
      exact ⟨a, rest.dropLast, rest.getLast filled, by rw [List.cons_append, List.dropLast_append_getLast filled]⟩
    have data : front ++ (a :: inner ++ [b]) ++ back ++ [0#8] = front ++ a :: (inner ++ b :: (back ++ [0#8])) := by
      simp
    have first : (front ++ a :: (inner ++ b :: (back ++ [0#8])))[front.length]? = some a := by simp
    have place : size (front ++ a :: (inner ++ b :: (back ++ [0#8]))) - 1 - front.length =
        front.length + (inner.length + 1) := by
      rw [← data, sizeAppend]
      simp
      omega
    have second : (front ++ a :: (inner ++ b :: (back ++ [0#8])))[front.length + (inner.length + 1)]? = some b := by
      rw [List.getElem?_append_right (by omega)]
      simp
    have stored : ((front ++ a :: (inner ++ b :: (back ++ [0#8]))).set front.length b).set
        (front.length + (inner.length + 1)) a = front ++ [b] ++ inner ++ (a :: back) ++ [0#8] := by
      simp
    simp only [List.length_append, List.length_cons, List.length_nil] at half fits
    have next := @ih (front ++ [b]) inner (a :: back) (by omega) (by simpa using even)
      (by simp; omega)
    rw [data, reverseLoop, place, first, second]
    simp only [show front.length + 1 < intLimit by omega, if_true, stored]
    simpa using next

theorem reverseEq {s : Chars} (fits : s.length < intLimit) : reverse (s ++ [0#8]) = some (s.reverse ++ [0#8]) := by
  have turned := @reverseLoopEq [] s [] _ rfl rfl (by simpa using fits)
  simpa [reverse] using turned

theorem stoiLoopEq {left n : Nat} {s : Chars} (enough : n < left) :
    stoiLoop left n (s ++ [0#8]) = some (s ++ (Nat.digits 10 n).map digitChar ++ [0#8]) := by
  induction left generalizing n s with
  | zero => omega
  | succ left ih =>
    rw [stoiLoop]
    split
    · next positive =>
      have here : 0 < n := by omega
      have digit : ((n : Int).tmod 10).toNat = n % 10 := by
        rw [Int.tmod_eq_emod_of_nonneg (by omega)]
        omega
      have next : (n : Int).tdiv 10 = ((n / 10 : Nat) : Int) := by
        rw [Int.tdiv_eq_ediv_of_nonneg (by omega)]
        omega
      rw [pushBackEq, digit, next]
      dsimp only
      rw [ih (by omega), Nat.digits_def' (by decide) here]
      simp
    · next zero =>
      have none : n = 0 := by omega
      simp [none]

theorem stoiEq {n : Nat} (int : n < 2 ^ 31) : stoi n = some (word digitChar 10 n ++ [0#8]) := by
  have short : (Nat.digits 10 n).length ≤ 10 :=
    (Nat.digits_length_le_iff (by decide) n).mpr (by omega)
  have limit : intLimit = 2 ^ 31 := rfl
  have digits := @stoiLoopEq (n + 1) n [] (by omega)
  simp only [List.nil_append] at digits
  rw [stoi, Int.toNat_natCast, digits, Option.bind_some, reverseEq (by simp; omega)]
  rfl

theorem wordInj {n m : Nat} (same : word digitChar 10 n = word digitChar 10 m) : n = m := by
  have reads : ∀ {k : Nat}, 0 < k → read decimalDigit 10 (word digitChar 10 k) = some k :=
    fun positive => wordReads decimalGlyphs (by decide) positive
  rcases Nat.eq_zero_or_pos n with rfl | left <;> rcases Nat.eq_zero_or_pos m with rfl | right
  · rfl
  · have read := reads right
    rw [← same] at read
    cases read
  · have read := reads left
    rw [same] at read
    cases read
  · have read := reads left
    rw [same, reads right] at read
    exact (Option.some.inj read).symm

/- What stoi promises for a number. Reading back and the length are in Shortest. -/
structure Prints (n : Int) (s : Chars) : Prop where
  returns : stoi n = some (s ++ [0#8])
  shortest : Shortest decimalDigit 10 s n.toNat
  filled : s ≠ []
  own : ∀ m : Int, 0 ≤ m → m < 2 ^ 31 → stoi m = stoi n → m = n

theorem stoiOwn {n : Nat} (int : n < 2 ^ 31) (m : Int) (nonneg : 0 ≤ m) (small : m < 2 ^ 31)
    (same : stoi m = stoi n) : m = n := by
  obtain ⟨m, rfl⟩ := Int.eq_ofNat_of_zero_le nonneg
  rw [stoiEq int, stoiEq (by omega)] at same
  have words : word digitChar 10 m = word digitChar 10 n := by simpa using same
  rw [wordInj words]

/-- An int that is not negative gets its shortest numeral exactly when it is not zero. -/
theorem stoiIff (n : Int) (nonneg : 0 ≤ n) (int : n < 2 ^ 31) : (∃ s, Prints n s) ↔ n ≠ 0 := by
  obtain ⟨n, rfl⟩ := Int.eq_ofNat_of_zero_le nonneg
  have small : n < 2 ^ 31 := by omega
  constructor
  · rintro ⟨s, prints⟩ zero
    have empty := prints.returns
    rw [stoiEq small] at empty
    have same : word digitChar 10 n = s := by simpa using empty
    have none : n = 0 := by omega
    exact prints.filled (by rw [← same, none]; rfl)
  · intro nonzero
    have positive : 0 < n := by omega
    have shortest := wordShortest decimalGlyphs (by decide) positive
    exact ⟨word digitChar 10 n, stoiEq small, shortest, readNonempty shortest.reads, stoiOwn small⟩

theorem stoiScreenWidth : (∃ s, Prints 1280 s) ↔ (1280 : Int) ≠ 0 :=
  stoiIff 1280 (by decide) (by decide)

/- The size stat prints for an empty file. -/
theorem stoiZero : stoi 0 = some [0#8] ∧ ¬ ∃ s, Prints 0 s := by
  have empty : stoi 0 = some [0#8] := by decide
  refine ⟨empty, ?_⟩
  rintro ⟨s, prints⟩
  have returned := prints.returns
  rw [empty] at returned
  exact prints.filled (by simpa using returned)

end DimOS.Cpp.StringNumbers
