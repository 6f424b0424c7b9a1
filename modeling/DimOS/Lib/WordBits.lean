import Mathlib

/-! Bits in an array of 64-bit words: bit j is bit j % 64 of word j / 64, tested, set and
cleared with a one-bit mask. -/
namespace DimOS.Lib.WordBits

def mask (k : Nat) : BitVec 64 := 1#64 <<< k

theorem maskBit {k : Nat} (inside : k < 64) (j : Nat) : (mask k).getLsbD j = decide (k = j) := by
  rw [mask, ← BitVec.twoPow, BitVec.getLsbD_twoPow, decide_eq_true inside, Bool.true_and]

theorem testMask (w : BitVec 64) {k : Nat} (inside : k < 64) :
    (w &&& mask k != 0#64) = w.getLsbD k := by
  have both : w &&& mask k = if w.getLsbD k then mask k else 0#64 := BitVec.and_twoPow w k
  rw [both]
  cases w.getLsbD k with
  | true =>
    have nonzero : mask k ≠ 0#64 := by
      intro zero
      have bit := maskBit inside k
      rw [zero, BitVec.getLsbD_zero] at bit
      simp at bit
    simp [nonzero]
  | false => simp

abbrev Words := Nat → BitVec 64

def bitOf (w : Words) (j : Nat) : Bool := (w (j / 64)).getLsbD (j % 64)

def isSet (w : Words) (j : Nat) : Bool := w (j / 64) &&& mask (j % 64) != 0#64

def setBit (w : Words) (j : Nat) : Words :=
  fun i => if i = j / 64 then w i ||| mask (j % 64) else w i

def clearBit (w : Words) (j : Nat) : Words :=
  fun i => if i = j / 64 then w i &&& ~~~mask (j % 64) else w i

theorem modBelow (j : Nat) : j % 64 < 64 := Nat.mod_lt j (by omega)

theorem isSetEq (w : Words) (j : Nat) : isSet w j = bitOf w j := testMask (w (j / 64)) (modBelow j)

theorem updateBit {w v : Words} {value : Bool} {i : Nat} (other : ∀ k, k ≠ i / 64 → v k = w k)
    (here : ∀ k, k < 64 → (v (i / 64)).getLsbD k = if i % 64 = k then value else (w (i / 64)).getLsbD k)
    (j : Nat) : bitOf v j = if j = i then value else bitOf w j := by
  unfold bitOf
  by_cases word : j / 64 = i / 64
  · rw [word, here _ (modBelow j)]
    by_cases same : j = i
    · rw [if_pos same, if_pos (by rw [same])]
    · rw [if_neg same, if_neg (fun offset => same (by omega))]
  · rw [other _ word, if_neg (fun same => word (by rw [same]))]

@[simp] theorem setBitOf (w : Words) (i j : Nat) :
    bitOf (setBit w i) j = if j = i then true else bitOf w j := by
  refine updateBit (fun k away => if_neg away) (fun k low => ?_) j
  rw [if_pos rfl, BitVec.getLsbD_or, maskBit (modBelow i)]
  by_cases same : i % 64 = k <;> simp [same]

@[simp] theorem clearBitOf (w : Words) (i j : Nat) :
    bitOf (clearBit w i) j = if j = i then false else bitOf w j := by
  refine updateBit (fun k away => if_neg away) (fun k low => ?_) j
  rw [if_pos rfl, BitVec.getLsbD_and, BitVec.getLsbD_not, maskBit (modBelow i),
    decide_eq_true low]
  by_cases same : i % 64 = k <;> simp [same]

theorem allOnesIff (w : BitVec 64) : w = BitVec.allOnes 64 ↔ ∀ k, k < 64 → w.getLsbD k = true := by
  constructor
  · intro full k low
    rw [full, BitVec.getLsbD_allOnes, decide_eq_true low]
  · intro full
    apply BitVec.eq_of_getLsbD_eq
    intro k low
    rw [full k low, BitVec.getLsbD_allOnes, decide_eq_true low]

end DimOS.Lib.WordBits
