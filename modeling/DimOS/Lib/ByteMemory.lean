import Mathlib

/-! Byte-addressed memory with little-endian 64-bit words. Addresses are plain
numbers: a caller that depends on wrap-around reduces them first. Words may be
unaligned; two words that share no byte do not affect each other. -/
namespace DimOS.Lib.ByteMemory

abbrev Memory := Nat → BitVec 8

def loadWord (m : Memory) (a : Nat) : BitVec 64 :=
  m (a + 7) ++ m (a + 6) ++ m (a + 5) ++ m (a + 4) ++ m (a + 3) ++ m (a + 2) ++ m (a + 1) ++ m a

def storeWord (m : Memory) (a : Nat) (w : BitVec 64) : Memory := fun k =>
  if a ≤ k ∧ k < a + 8 then w.extractLsb' (8 * (k - a)) 8 else m k

theorem loadBit (m : Memory) (a j : Nat) (inside : j < 64) :
    (loadWord m a).getLsbD j = (m (a + j / 8)).getLsbD (j % 8) := by
  simp only [loadWord, BitVec.getLsbD_append]
  -- one case for each byte, in the order of the concatenation
  split_ifs <;> congr 2 <;> omega

theorem storeOutside (m : Memory) (w : BitVec 64) {a k : Nat} (outside : k < a ∨ a + 8 ≤ k) :
    storeWord m a w k = m k := if_neg (by omega)

theorem storeBit (m : Memory) (w : BitVec 64) (a j : Nat) (inside : j < 64) :
    (storeWord m a w (a + j / 8)).getLsbD (j % 8) = w.getLsbD j := by
  have byte : a ≤ a + j / 8 ∧ a + j / 8 < a + 8 := by omega
  rw [storeWord, if_pos byte, BitVec.getLsbD_extractLsb']
  have place : 8 * (a + j / 8 - a) + j % 8 = j := by omega
  have low : j % 8 < 8 := Nat.mod_lt _ (by omega)
  rw [place]
  simp [low]

@[simp] theorem loadStore (m : Memory) (a : Nat) (w : BitVec 64) :
    loadWord (storeWord m a w) a = w := by
  apply BitVec.eq_of_getLsbD_eq
  intro j inside
  rw [loadBit _ _ _ inside, storeBit _ _ _ _ inside]

theorem loadCongr {m m' : Memory} {a : Nat} (same : ∀ k, a ≤ k → k < a + 8 → m' k = m k) :
    loadWord m' a = loadWord m a := by
  apply BitVec.eq_of_getLsbD_eq
  intro j inside
  rw [loadBit _ _ _ inside, loadBit _ _ _ inside, same _ (by omega) (by omega)]

theorem loadStoreApart (m : Memory) (w : BitVec 64) {a b : Nat} (apart : a + 8 ≤ b ∨ b + 8 ≤ a) :
    loadWord (storeWord m a w) b = loadWord m b :=
  loadCongr (fun _ low high => storeOutside m w (by omega))

end DimOS.Lib.ByteMemory
