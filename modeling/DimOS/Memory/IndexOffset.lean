import Mathlib
import DimOS.Memory.Paging

/-! IndexOffset of vmm.h: the four table indices of a page, most significant first. The page
number is what they spell in base 512; the search compares pages by their addresses, so the
two orders are related here once. -/
namespace DimOS.Memory.Paging

/- `uint64_t i[VMMTableLevelCnt]` -/
structure IndexOffset where
  i0 : Nat
  i1 : Nat
  i2 : Nat
  i3 : Nat
  deriving DecidableEq, Repr

namespace IndexOffset

def i (c : IndexOffset) : Nat → Nat
  | 0 => c.i0
  | 1 => c.i1
  | 2 => c.i2
  | _ => c.i3

def set (c : IndexOffset) (level x : Nat) : IndexOffset :=
  match level with
  | 0 => { c with i0 := x }
  | 1 => { c with i1 := x }
  | 2 => { c with i2 := x }
  | _ => { c with i3 := x }

/- `for (int j = level + 1; j < VMMTableLevelCnt; j++) curr.i[j] = 0;` -/
def clearBelow (c : IndexOffset) (level : Nat) : IndexOffset :=
  match level with
  | 0 => { c with i1 := 0, i2 := 0, i3 := 0 }
  | 1 => { c with i2 := 0, i3 := 0 }
  | 2 => { c with i3 := 0 }
  | _ => c

def getVirtualAddr (c : IndexOffset) : Nat :=
  let ans := c.i 0 <<< 39 ||| c.i 1 <<< 30 ||| c.i 2 <<< 21 ||| c.i 3 <<< 12
  if ans ≥ 0x800000000000 then ans ||| 0xffff000000000000 else ans

/- One round of nextPage: the index at j takes the carry and passes one on. -/
def addCarry (s : IndexOffset × Nat) (j : Nat) : IndexOffset × Nat :=
  let res := s.1.set j (s.1.i j + s.2)
  if res.i j ≥ entryCnt then (res.set j 0, 1) else (res, 0)

def nextPage (c : IndexOffset) : IndexOffset := ([3, 2, 1, 0].foldl addCarry (c, 1)).1

def getI0 (x : Nat) : Nat := (x >>> 39) &&& 0x1ff
def getI1 (x : Nat) : Nat := (x >>> 30) &&& 0x1ff
def getI2 (x : Nat) : Nat := (x >>> 21) &&& 0x1ff
def getI3 (x : Nat) : Nat := (x >>> 12) &&& 0x1ff

def getIndexOffset (x : Nat) : IndexOffset := ⟨getI0 x, getI1 x, getI2 x, getI3 x⟩

def tail (c : IndexOffset) : Nat → Nat
  | 0 => c.i 3
  | k + 1 => c.i (2 - k) * 512 ^ (k + 1) + c.tail k

def page (c : IndexOffset) : Nat := c.tail 3

def Normal (c : IndexOffset) : Prop := ∀ j, j ≤ 3 → c.i j < 512

@[simp] theorem setAt (c : IndexOffset) {level j : Nat} (x : Nat) (known : level ≤ 3) (inside : j ≤ 3) :
    (c.set level x).i j = if j = level then x else c.i j := by
  interval_cases level <;> interval_cases j <;> rfl

@[simp] theorem clearBelowAt (c : IndexOffset) {level j : Nat} (inside : j ≤ 3) :
    (c.clearBelow level).i j = if level < j then 0 else c.i j := by
  match level with
  | 0 => interval_cases j <;> rfl
  | 1 => interval_cases j <;> rfl
  | 2 => interval_cases j <;> rfl
  | n + 3 =>
    rw [if_neg (by omega)]
    rfl

theorem pageEq (c : IndexOffset) :
    c.page = c.i 0 * 134217728 + (c.i 1 * 262144 + (c.i 2 * 512 + c.i 3)) := rfl

theorem normalDigits {c : IndexOffset} (normal : c.Normal) :
    c.i 0 < 512 ∧ c.i 1 < 512 ∧ c.i 2 < 512 ∧ c.i 3 < 512 :=
  ⟨normal 0 (by omega), normal 1 (by omega), normal 2 (by omega), normal 3 (by omega)⟩

theorem normalSet {c : IndexOffset} (normal : c.Normal) {x level : Nat} (inside : x < 512)
    (known : level ≤ 3) : (c.set level x).Normal := by
  intro j low
  rw [setAt c x known low]
  split
  · exact inside
  · exact normal j low

theorem normalClear {c : IndexOffset} (normal : c.Normal) (level : Nat) : (c.clearBelow level).Normal := by
  intro j low
  rw [clearBelowAt c low]
  split
  · omega
  · exact normal j low

theorem normalMk {i0 i1 i2 i3 : Nat} (first : i0 < 512) (second : i1 < 512) (third : i2 < 512)
    (last : i3 < 512) : (IndexOffset.mk i0 i1 i2 i3).Normal := by
  intro j low
  interval_cases j
  · exact first
  · exact second
  · exact third
  · exact last

theorem normalPage {c : IndexOffset} (normal : c.Normal) : c.page < 2 ^ 36 := by
  obtain ⟨a, b, d, e⟩ := normalDigits normal
  rw [pageEq]
  omega

theorem tailLt {c : IndexOffset} (normal : c.Normal) (k : Nat) : c.tail k < 512 ^ (k + 1) := by
  induction k with
  | zero => exact normal 3 (by omega)
  | succ k ih =>
    have digit := normal (2 - k) (by omega)
    have scaled : c.i (2 - k) * 512 ^ (k + 1) ≤ 511 * 512 ^ (k + 1) :=
      Nat.mul_le_mul_right _ (by omega)
    rw [tail, pow_succ 512 (k + 1)]
    omega

theorem tailCongr {c d : IndexOffset} {k : Nat} (same : ∀ j, 3 - k ≤ j → j ≤ 3 → d.i j = c.i j) :
    d.tail k = c.tail k := by
  induction k with
  | zero => exact same 3 (by omega) (by omega)
  | succ k ih =>
    rw [tail, tail, same (2 - k) (by omega) (by omega), ih (fun j low high => same j (by omega) high)]

theorem tailClear (c : IndexOffset) {k level : Nat} (below : level < 3 - k) :
    (c.clearBelow level).tail k = 0 := by
  induction k with
  | zero => rw [tail, clearBelowAt c (by omega), if_pos (by omega)]
  | succ k ih => rw [tail, ih (by omega), clearBelowAt c (by omega), if_pos (by omega), Nat.zero_mul]

theorem orDigits (a b c d : Nat) (second : b < 512) (third : c < 512) (last : d < 512) :
    a <<< 39 ||| b <<< 30 ||| c <<< 21 ||| d <<< 12 =
      (a * 134217728 + (b * 262144 + (c * 512 + d))) * 4096 := by
  have low : c <<< 21 + d <<< 12 = c <<< 21 ||| d <<< 12 :=
    Nat.shiftLeft_add_eq_or_of_lt (by rw [Nat.shiftLeft_eq]; omega) c
  have middle : b <<< 30 + (c <<< 21 + d <<< 12) = b <<< 30 ||| (c <<< 21 + d <<< 12) :=
    Nat.shiftLeft_add_eq_or_of_lt (by rw [Nat.shiftLeft_eq, Nat.shiftLeft_eq]; omega) b
  have high : a <<< 39 + (b <<< 30 + (c <<< 21 + d <<< 12)) =
      a <<< 39 ||| (b <<< 30 + (c <<< 21 + d <<< 12)) :=
    Nat.shiftLeft_add_eq_or_of_lt (by
      rw [Nat.shiftLeft_eq, Nat.shiftLeft_eq, Nat.shiftLeft_eq]; omega) a
  rw [Nat.or_assoc, Nat.or_assoc, ← low, ← middle, ← high]
  simp only [Nat.shiftLeft_eq]
  omega

theorem virtualAddrEq {c : IndexOffset} (normal : c.Normal) :
    c.getVirtualAddr = c.page * 4096 + if 2 ^ 35 ≤ c.page then 0xffff000000000000 else 0 := by
  have inside := normalPage normal
  unfold getVirtualAddr
  obtain ⟨-, b, d, e⟩ := normalDigits normal
  rw [orDigits _ _ _ _ b d e, ← pageEq]
  by_cases high : 2 ^ 35 ≤ c.page
  · have sign : 0xffff <<< 48 + c.page * 4096 = 0xffff <<< 48 ||| c.page * 4096 :=
      Nat.shiftLeft_add_eq_or_of_lt (by omega) 0xffff
    have word : 0xffff <<< 48 = 0xffff000000000000 := by decide
    rw [word] at sign
    simp only [show 0x800000000000 ≤ c.page * 4096 by omega, if_true, if_pos high]
    rw [Nat.or_comm, ← sign]
    omega
  · simp only [show ¬ 0x800000000000 ≤ c.page * 4096 by omega, if_false, if_neg high]
    omega

theorem virtualAddrInj {c d : IndexOffset} (normal : c.Normal) (normal' : d.Normal) :
    c.getVirtualAddr = d.getVirtualAddr ↔ c.page = d.page := by
  have inside := normalPage normal
  have inside' := normalPage normal'
  rw [virtualAddrEq normal, virtualAddrEq normal']
  constructor
  · intro same
    split at same <;> split at same <;> omega
  · intro same
    rw [same]

theorem addCarryAt (s : IndexOffset × Nat) {j l : Nat} (known : j ≤ 3) (inside : l ≤ 3) :
    (addCarry s j).1.i l =
      if l = j then if 512 ≤ s.1.i j + s.2 then 0 else s.1.i j + s.2 else s.1.i l := by
  simp only [addCarry, entryCnt, setAt _ _ known known, if_true, ge_iff_le]
  by_cases wraps : 512 ≤ s.1.i j + s.2
  · simp only [wraps, if_true, setAt _ _ known inside]
    split <;> rfl
  · simp only [wraps, if_false, setAt _ _ known inside]

theorem addCarryOut (s : IndexOffset × Nat) {j : Nat} (known : j ≤ 3) :
    (addCarry s j).2 = if 512 ≤ s.1.i j + s.2 then 1 else 0 := by
  simp only [addCarry, entryCnt, setAt _ _ known known, if_true, ge_iff_le]
  split <;> rfl

theorem nextPageSpec {c : IndexOffset} (normal : c.Normal) :
    c.nextPage.Normal ∧ c.nextPage.page = (c.page + 1) % 2 ^ 36 := by
  have keep : ∀ (s : IndexOffset × Nat) {j}, j ≤ 3 → s.1.Normal → (addCarry s j).1.Normal := by
    intro s j known before l low
    rw [addCarryAt s known low]
    have := before l low
    split <;> try split
    all_goals omega
  have unrolled : c.nextPage = (addCarry (addCarry (addCarry (addCarry (c, 1) 3) 2) 1) 0).1 := by
    simp only [nextPage, List.foldl_cons, List.foldl_nil]
  have last := keep (c, 1) (j := 3) (by omega) normal
  have third := keep _ (j := 2) (by omega) last
  have second := keep _ (j := 1) (by omega) third
  rw [unrolled]
  refine ⟨keep _ (by omega) second, ?_⟩
  obtain ⟨a, b, d, e⟩ := normalDigits normal
  rw [pageEq, pageEq]
  simp (disch := omega) only [addCarryAt, addCarryOut, Nat.reduceEqDiff,
    if_true, if_false, OfNat.ofNat_ne_zero, OfNat.ofNat_ne_one, one_ne_zero]
  by_cases last : 512 ≤ c.i 3 + 1
  · by_cases third : 512 ≤ c.i 2 + 1
    · by_cases second : 512 ≤ c.i 1 + 1
      · by_cases first : 512 ≤ c.i 0 + 1 <;> simp [last, third, second, first] <;> omega
      · simp [last, third, second, show ¬ 512 ≤ c.i 0 by omega]
        omega
    · simp [last, third, show ¬ 512 ≤ c.i 0 by omega, show ¬ 512 ≤ c.i 1 by omega]
      omega
  · simp [last, show ¬ 512 ≤ c.i 0 by omega, show ¬ 512 ≤ c.i 1 by omega,
      show ¬ 512 ≤ c.i 2 by omega]
    omega

theorem indexOffsetSpec (x : Nat) :
    (getIndexOffset x).Normal ∧ (getIndexOffset x).page = x / 4096 % 2 ^ 36 := by
  have digit : ∀ y, y &&& 0x1ff = y % 512 := fun y => Nat.and_two_pow_sub_one_eq_mod y 9
  have bound : ∀ y, y &&& 0x1ff < 512 := fun y => by rw [digit]; omega
  refine ⟨normalMk (bound _) (bound _) (bound _) (bound _), ?_⟩
  rw [pageEq]
  show getI0 x * 134217728 + (getI1 x * 262144 + (getI2 x * 512 + getI3 x)) = _
  simp only [getI0, getI1, getI2, getI3, digit, Nat.shiftRight_eq_div_pow]
  omega

end IndexOffset
end DimOS.Memory.Paging
