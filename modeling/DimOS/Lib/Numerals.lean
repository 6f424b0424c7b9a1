import Mathlib

/-! Numerals of a base over any characters, read from the most significant digit on. The empty
word is no numeral. A numeral of a number is shortest when no other numeral of it is shorter. -/
namespace DimOS.Lib.Numerals

variable {C : Type} (digit : C → Option Nat) (base : Nat)

def readFrom : Nat → List C → Option Nat
  | value, [] => some value
  | value, c :: rest => (digit c).bind fun d => if d < base then readFrom (value * base + d) rest else none

def read : List C → Option Nat
  | [] => none
  | c :: rest => readFrom digit base 0 (c :: rest)

structure Shortest (s : List C) (n : Nat) : Prop where
  reads : read digit base s = some n
  least : ∀ t, read digit base t = some n → s.length ≤ t.length

variable {digit base}

theorem readFromBelow {value n : Nat} {s : List C} (ok : readFrom digit base value s = some n) :
    n < (value + 1) * base ^ s.length := by
  induction s generalizing value with
  | nil =>
    cases ok
    simp
  | cons c rest ih =>
    simp only [readFrom, Option.bind_eq_some_iff] at ok
    obtain ⟨d, -, ok⟩ := ok
    split at ok
    · next small =>
      have later := ih ok
      have step : value * base + d + 1 ≤ (value + 1) * base := by nlinarith
      calc n < (value * base + d + 1) * base ^ rest.length := later
        _ ≤ (value + 1) * base * base ^ rest.length := Nat.mul_le_mul_right _ step
        _ = (value + 1) * base ^ (rest.length + 1) := by ring
    · cases ok

theorem readBelow {n : Nat} {s : List C} (ok : read digit base s = some n) : n < base ^ s.length := by
  cases s with
  | nil => cases ok
  | cons c rest => simpa using readFromBelow ok

theorem readNonempty {n : Nat} {s : List C} (ok : read digit base s = some n) : s ≠ [] := by
  rintro rfl
  cases ok

def Glyphs (digit : C → Option Nat) (base : Nat) (glyph : Nat → C) : Prop :=
  ∀ d < base, digit (glyph d) = some d

theorem readFromGlyphs {glyph : Nat → C} (glyphs : Glyphs digit base glyph) {ds : List Nat}
    (small : ∀ d ∈ ds, d < base) (value : Nat) :
    readFrom digit base value (ds.map glyph) = some (ds.foldl (fun v d => v * base + d) value) := by
  induction ds generalizing value with
  | nil => rfl
  | cons d rest ih =>
    have here := small d (by simp)
    simp only [List.map_cons, readFrom, glyphs d here, Option.bind_some, here, if_true, List.foldl_cons]
    exact ih (fun e mem => small e (by simp [mem])) _

/- The word for the digits of n, least significant digit first, put the other way round. -/
def word (glyph : Nat → C) (base n : Nat) : List C := ((Nat.digits base n).map glyph).reverse

theorem foldDigits (n : Nat) :
    (Nat.digits base n).reverse.foldl (fun v d => v * base + d) 0 = n := by
  have sum := Nat.ofDigits_digits base n
  rw [Nat.ofDigits_eq_foldr] at sum
  rw [List.foldl_reverse]
  simpa [Nat.add_comm, Nat.mul_comm] using sum

theorem wordReads {glyph : Nat → C} (glyphs : Glyphs digit base glyph) (large : 1 < base) {n : Nat}
    (positive : 0 < n) : read digit base (word glyph base n) = some n := by
  have filled : word glyph base n ≠ [] := by
    simp only [word, ne_eq, List.reverse_eq_nil_iff, List.map_eq_nil_iff]
    exact Nat.digits_ne_nil_iff_ne_zero.mpr positive.ne'
  have reads := @readFromGlyphs _ _ _ _ glyphs (Nat.digits base n).reverse
    (fun d mem => Nat.digits_lt_base large (List.mem_reverse.mp mem)) 0
  rw [foldDigits, List.map_reverse] at reads
  unfold word at filled ⊢
  cases shape : ((Nat.digits base n).map glyph).reverse with
  | nil => exact absurd shape filled
  | cons c rest => rwa [shape] at reads

theorem wordShortest {glyph : Nat → C} (glyphs : Glyphs digit base glyph) (large : 1 < base) {n : Nat}
    (positive : 0 < n) : Shortest digit base (word glyph base n) n where
  reads := wordReads glyphs large positive
  least t ok := by
    have below := readBelow ok
    simpa [word] using (Nat.digits_length_le_iff large n).mpr below

theorem zeroShortest {glyph : Nat → C} (glyphs : Glyphs digit base glyph) (large : 1 < base) :
    Shortest digit base [glyph 0] 0 where
  reads := by simp [read, readFrom, glyphs 0 (by omega), show 0 < base by omega]
  least t ok := by
    have filled := readNonempty ok
    exact List.length_pos_iff.mpr filled

def numeral (glyph : Nat → C) (base n : Nat) : List C := if n = 0 then [glyph 0] else word glyph base n

theorem numeralShortest {glyph : Nat → C} (glyphs : Glyphs digit base glyph) (large : 1 < base) (n : Nat) :
    Shortest digit base (numeral glyph base n) n := by
  unfold numeral
  split
  · next zero => exact zero ▸ zeroShortest glyphs large
  · next nonzero => exact wordShortest glyphs large (Nat.pos_of_ne_zero nonzero)

theorem numeralStep (glyph : Nat → C) (large : 1 < base) (n : Nat) :
    numeral glyph base n = (if n / base = 0 then [] else numeral glyph base (n / base)) ++ [glyph (n % base)] := by
  rcases Nat.eq_zero_or_pos n with rfl | positive
  · simp [numeral]
  · have digits := Nat.digits_def' large positive
    have here : numeral glyph base n = word glyph base n := if_neg positive.ne'
    rw [here, word, digits, List.map_cons, List.reverse_cons]
    split
    · next last => simp [last]
    · next more =>
      have later : numeral glyph base (n / base) = word glyph base (n / base) := if_neg more
      rw [later, word]

theorem numeralLength (glyph : Nat → C) (large : 1 < base) {n k : Nat} (below : n < base ^ k) (some : 0 < k) :
    (numeral glyph base n).length ≤ k := by
  unfold numeral
  split
  · exact some
  · simpa [word] using (Nat.digits_length_le_iff large n).mpr below

theorem numeralMem {glyph : Nat → C} (large : 1 < base) {n : Nat} {c : C} (mem : c ∈ numeral glyph base n) :
    ∃ d < base, c = glyph d := by
  unfold numeral at mem
  split at mem
  · exact ⟨0, by omega, by simpa using mem⟩
  · obtain ⟨d, inside, rfl⟩ := List.mem_map.mp (List.mem_reverse.mp mem)
    exact ⟨d, Nat.digits_lt_base large inside, rfl⟩

end DimOS.Lib.Numerals
