import Mathlib
import DimOS.Lib.ByteMemory
import DimOS.Lib.WordBits

/-! Bitset over memory that an allocator hands out, with the parts of Vector, UniquePtr and
makeUnique it goes through. The allocator of the bitset always returns the same region, so
every construction and every assignment writes there. Addresses count from that region. -/
namespace DimOS.Cpp.Bitset
open Lib.ByteMemory
open Lib.WordBits (mask maskBit testMask)

/- Bit `j` of a region, counted from the lowest bit of its first byte. -/
def bitAt (m : Memory) (j : Nat) : Bool := (m (j / 8)).getLsbD (j % 8)

theorem memoryExt {m m' : Memory} (same : ∀ j, bitAt m' j = bitAt m j) : m' = m := by
  funext a
  apply BitVec.eq_of_getLsbD_eq
  intro k low
  have here := same (8 * a + k)
  have place : (8 * a + k) / 8 = a := by omega
  have offset : (8 * a + k) % 8 = k := by omega
  simpa only [bitAt, place, offset] using here

theorem loadWordBit (m : Memory) (i k : Nat) (inside : k < 64) :
    (loadWord m (8 * i)).getLsbD k = bitAt m (64 * i + k) := by
  have place : (64 * i + k) / 8 = 8 * i + k / 8 := by omega
  have offset : (64 * i + k) % 8 = k % 8 := by omega
  rw [loadBit _ _ _ inside, bitAt, place, offset]

theorem storeWordBit (m : Memory) (i j : Nat) (w : BitVec 64) :
    bitAt (storeWord m (8 * i) w) j = if j / 64 = i then w.getLsbD (j % 64) else bitAt m j := by
  split
  · next inside =>
    have split64 : j = 64 * i + j % 64 := by omega
    have bound : j % 64 < 64 := Nat.mod_lt _ (by omega)
    rw [← loadStore m (8 * i) w, loadWordBit _ _ _ bound, ← split64, loadStore]
  · next outside =>
    unfold bitAt
    rw [storeOutside]
    omega

/- Bitset::BlockSize. -/
def BlockSize : Nat := 64

/- BitProxy::operator bool and BitProxy::operator=, with operator[] in front of them. -/
def get (m : Memory) (idx : Nat) : Bool :=
  loadWord m (8 * (idx / BlockSize)) &&& mask (idx % BlockSize) != 0#64

def set (m : Memory) (idx : Nat) (val : Bool) : Memory :=
  let a := 8 * (idx / BlockSize)
  let m := storeWord m a (loadWord m a ||| mask (idx % BlockSize))
  if val then m else storeWord m a (loadWord m a ^^^ mask (idx % BlockSize))

theorem getEq (m : Memory) (idx : Nat) : get m idx = bitAt m idx := by
  have bound : idx % 64 < 64 := Nat.mod_lt _ (by omega)
  rw [get, BlockSize, testMask _ bound, loadWordBit _ _ _ bound, Nat.div_add_mod]

theorem setBit (m : Memory) (idx : Nat) (val : Bool) (j : Nat) :
    bitAt (set m idx val) j = if j = idx then val else bitAt m j := by
  have bound : j % 64 < 64 := Nat.mod_lt _ (by omega)
  have low : idx % 64 < 64 := Nat.mod_lt _ (by omega)
  simp only [set, BlockSize]
  by_cases word : j / 64 = idx / 64
  · have old : (loadWord m (8 * (idx / 64))).getLsbD (j % 64) = bitAt m j := by
      rw [loadWordBit _ _ _ bound, ← word, Nat.div_add_mod]
    have same : (j = idx) = (idx % 64 = j % 64) := propext (by omega)
    cases val with
    | true =>
      simp only [if_true, storeWordBit, word, BitVec.getLsbD_or, maskBit low, old, same]
      split <;> simp_all
    | false =>
      simp only [Bool.false_eq_true, if_false, storeWordBit, loadStore, word, if_true,
        BitVec.getLsbD_xor, BitVec.getLsbD_or, maskBit low, old, same]
      split <;> simp_all
  · have other : j ≠ idx := fun same => word (by rw [same])
    cases val with
    | true => simp only [if_true, storeWordBit, word, if_false, other]
    | false => simp only [Bool.false_eq_true, if_false, storeWordBit, word, other]

/- `for (i = 0; i < num; i++) data[i] = 0`, for the placement news of makeUnique and for
Vector::fill(T{}). -/
def zeroWords : Nat → Memory → Memory
  | 0, m => m
  | num + 1, m => storeWord (zeroWords num m) (8 * num) 0#64

def makeUnique (m : Memory) (num : Nat) : Memory := zeroWords num m

def vectorNew (m : Memory) (size : Nat) : Memory := zeroWords size (makeUnique m size)

/- `for (i = 0; i < size; i++) data[i] = v[i]`, where data and v are the same region. -/
def copyWords : Nat → Memory → Memory
  | 0, m => m
  | size + 1, m =>
    let m := copyWords size m
    storeWord m (8 * size) (loadWord m (8 * size))

/- Vector::operator=. The region of the old value is not written when it is released. -/
def vectorAssign (m : Memory) (size : Nat) : Memory := copyWords size (makeUnique m size)

def wordCount (size : Nat) : Nat := (size + BlockSize - 1) / BlockSize

/- Bitset(size, allocator): a Vector is built and assigned to the member. -/
def bitsetNew (m : Memory) (size : Nat) : Memory :=
  vectorAssign (vectorNew m (wordCount size)) (wordCount size)

/- The assignment of one Bitset to another, which assigns the Vector. -/
def bitsetAssign (m : Memory) (size : Nat) : Memory := vectorAssign m (wordCount size)

theorem zeroWordsBit (num : Nat) (m : Memory) (j : Nat) :
    bitAt (zeroWords num m) j = if j < 64 * num then false else bitAt m j := by
  induction num with
  | zero => simp [zeroWords]
  | succ num ih =>
    simp only [zeroWords, storeWordBit, ih, BitVec.getLsbD_zero]
    split
    · rw [if_pos (by omega)]
    · split
      · rw [if_pos (by omega)]
      · rw [if_neg (by omega)]

theorem copyWordsEq (size : Nat) (m : Memory) : copyWords size m = m := by
  induction size with
  | zero => rfl
  | succ size ih =>
    simp only [copyWords, ih]
    apply memoryExt
    intro j
    rw [storeWordBit]
    split
    · next word =>
      rw [loadWordBit _ _ _ (Nat.mod_lt _ (by omega)), ← word, Nat.div_add_mod]
    · rfl

theorem bitsetBuiltBit (m : Memory) (size j : Nat) :
    bitAt (bitsetAssign (bitsetNew m size) size) j =
      if j < 64 * wordCount size then false else bitAt m j := by
  simp only [bitsetAssign, bitsetNew, vectorAssign, vectorNew, makeUnique, copyWordsEq, zeroWordsBit]
  split <;> rfl

end DimOS.Cpp.Bitset
