import Mathlib
import DimOS.Filesystem.RamDiskMount

/-! Where the parts of a RAM disk lie in the image that createRamdisk allocates. The super block has
the size of the bitset in bytes, the constructor hands that number to Bitset as a number of bits, and
Bitset reads and writes whole 64-bit words; the data blocks begin right after the bytes. -/
namespace DimOS.Filesystem.RamDisk
open Lib.ByteMemory
open Cpp
open Cpp.Bitset (bitAt)

def sizeofSuper : Nat := 12
def sizeofNode : Nat := 96

/- `nodes + super->iNodeCnt`, from the beginning of the image. -/
def bitsetBase (nodeCount : Nat) : Nat := sizeofSuper + sizeofNode * nodeCount

def imageSum (nodeCount blockCount : Nat) : Nat :=
  sizeofSuper + sizeofNode * nodeCount + (createSuper nodeCount blockCount).dataBitsetSize + BlockSize * blockCount

def imageSize (nodeCount blockCount : Nat) : Int := Int.bmod (imageSum nodeCount blockCount) (2 ^ 32)

def superBytes : Set Nat := Set.Ico 0 sizeofSuper

def nodeBytes (nodeCount : Nat) : Set Nat := Set.Ico sizeofSuper (bitsetBase nodeCount)

/- The length of the vector of the Bitset that the constructor builds. -/
def bitsetLength (nodeCount blockCount : Nat) : Nat :=
  Bitset.wordCount (createSuper nodeCount blockCount).dataBitsetSize

/- The words that the constructor writes, and those with the bit of a block. -/
def UsesWord (nodeCount blockCount w : Nat) : Prop :=
  w < bitsetLength nodeCount blockCount ∨ ∃ b < blockCount, w = b / Bitset.BlockSize

def wordBytes (nodeCount blockCount : Nat) : Set Nat :=
  {a | ∃ w, UsesWord nodeCount blockCount w ∧ bitsetBase nodeCount + 8 * w ≤ a ∧ a < bitsetBase nodeCount + 8 * w + 8}

def blockBytes (nodeCount blockCount : Nat) : Set Nat :=
  {a | ∃ b < blockCount, bitsetBase nodeCount + (zeroed (createSuper nodeCount blockCount)).blockAddr b ≤ a ∧
    a < bitsetBase nodeCount + (zeroed (createSuper nodeCount blockCount)).blockAddr b + BlockSize}

def regions (nodeCount blockCount : Nat) : List (Set Nat) :=
  [superBytes, nodeBytes nodeCount, wordBytes nodeCount blockCount, blockBytes nodeCount blockCount]

structure Layout (nodeCount blockCount : Nat) : Prop where
  disjoint : (regions nodeCount blockCount).Pairwise Disjoint
  inside : ∀ r ∈ regions nodeCount blockCount, ∀ a ∈ r, (a : Int) < imageSize nodeCount blockCount
  length : ∀ b < blockCount, b / Bitset.BlockSize < bitsetLength nodeCount blockCount

theorem mountOutside (d : Disk) {a : Nat} (outside : Bitset.wordCount d.super.dataBitsetSize ≤ a / 8) :
    d.mount.data a = d.data a := by
  apply BitVec.eq_of_getLsbD_eq
  intro k low
  have bit := mountBit d (8 * a + k)
  have byte : (8 * a + k) / 8 = a := by omega
  have offset : (8 * a + k) % 8 = k := by omega
  rw [if_neg (by omega)] at bit
  simpa only [bitAt, byte, offset] using bit

theorem setOutside (m : Memory) {idx a : Nat} (val : Bool) (outside : a / 8 ≠ idx / Bitset.BlockSize) :
    Bitset.set m idx val a = m a := by
  have away : a < 8 * (idx / Bitset.BlockSize) ∨ 8 * (idx / Bitset.BlockSize) + 8 ≤ a := by omega
  cases val with
  | true =>
    simp only [Bitset.set, if_true]
    exact storeOutside _ _ away
  | false =>
    simp only [Bitset.set, Bool.false_eq_true, if_false]
    rw [storeOutside _ _ away, storeOutside _ _ away]

theorem wordBytesIff {nodeCount blockCount a : Nat} :
    bitsetBase nodeCount + a ∈ wordBytes nodeCount blockCount ↔ UsesWord nodeCount blockCount (a / 8) := by
  constructor
  · rintro ⟨w, used, low, high⟩
    have same : w = a / 8 := by omega
    exact same ▸ used
  · intro used
    exact ⟨a / 8, used, by omega, by omega⟩

theorem bitsetAccesses {nodeCount blockCount : Nat} {d : Disk} (here : d.super = createSuper nodeCount blockCount) :
    (∀ a, d.mount.data a ≠ d.data a → bitsetBase nodeCount + a ∈ wordBytes nodeCount blockCount) ∧
    ∀ b < blockCount,
      (∀ val a, Bitset.set d.data b val a ≠ d.data a → bitsetBase nodeCount + a ∈ wordBytes nodeCount blockCount) ∧
      ∀ m, (∀ a, bitsetBase nodeCount + a ∈ wordBytes nodeCount blockCount → m a = d.data a) →
        Bitset.get m b = Bitset.get d.data b := by
  refine ⟨fun a changed => wordBytesIff.mpr (.inl ?_), fun b less => ⟨fun val a changed => ?_, fun m same => ?_⟩⟩
  · rw [bitsetLength, ← here]
    by_contra outside
    exact changed (mountOutside d (by omega))
  · refine wordBytesIff.mpr (.inr ⟨b, less, ?_⟩)
    by_contra outside
    exact changed (setOutside d.data val outside)
  · rw [Bitset.get, Bitset.get, loadCongr]
    intro k low high
    refine same k (wordBytesIff.mpr (.inr ⟨b, less, ?_⟩))
    omega

theorem imageSizeEq {nodeCount blockCount : Nat} (noOverflow : imageSum nodeCount blockCount < 2 ^ 31) :
    imageSize nodeCount blockCount = imageSum nodeCount blockCount :=
  Int.bmod_eq_of_le (by omega) (by omega)

theorem bitsetLengthEq (nodeCount blockCount : Nat) :
    bitsetLength nodeCount blockCount = ((blockCount + 7) / 8 + 63) / 64 := rfl

theorem blockBytesIff {nodeCount blockCount a : Nat} : a ∈ blockBytes nodeCount blockCount ↔
    bitsetBase nodeCount + (blockCount + 7) / 8 ≤ a ∧
      a < bitsetBase nodeCount + (blockCount + 7) / 8 + 512 * blockCount := by
  simp only [blockBytes, zeroed, createSuper, Disk.blockAddr, BlockSize, Set.mem_ofPred_eq]
  constructor
  · rintro ⟨b, less, low, high⟩
    omega
  · rintro ⟨low, high⟩
    refine ⟨(a - bitsetBase nodeCount - (blockCount + 7) / 8) / 512, ?_, ?_, ?_⟩ <;> omega

theorem oneWord {nodeCount blockCount w : Nat} (low : 57 ≤ blockCount) (high : blockCount ≤ 64)
    (used : UsesWord nodeCount blockCount w) : w = 0 := by
  rcases used with built | ⟨b, less, rfl⟩
  · rw [bitsetLengthEq] at built
    omega
  · unfold Bitset.BlockSize
    omega

theorem layoutOfRange {nodeCount blockCount : Nat} (noOverflow : imageSum nodeCount blockCount < 2 ^ 31)
    (low : 57 ≤ blockCount) (high : blockCount ≤ 64) : Layout nodeCount blockCount := by
  have base : bitsetBase nodeCount = 12 + 96 * nodeCount := rfl
  have words : ∀ a ∈ wordBytes nodeCount blockCount, bitsetBase nodeCount ≤ a ∧ a < bitsetBase nodeCount + 8 := by
    rintro a ⟨w, used, first, last⟩
    cases oneWord low high used
    omega
  have blocks : ∀ a ∈ blockBytes nodeCount blockCount,
      bitsetBase nodeCount + 8 ≤ a ∧ a < bitsetBase nodeCount + 8 + 512 * blockCount := by
    intro a mem
    have := blockBytesIff.mp mem
    omega
  have total : imageSum nodeCount blockCount = bitsetBase nodeCount + 8 + 512 * blockCount := by
    have bytes : (createSuper nodeCount blockCount).dataBitsetSize = (blockCount + 7) / 8 := rfl
    unfold imageSum BlockSize
    rw [bytes, bitsetBase]
    omega
  constructor
  · simp only [regions, List.pairwise_cons, List.mem_cons, List.not_mem_nil, or_false, forall_eq_or_imp, forall_eq,
      Set.disjoint_left, superBytes, nodeBytes, Set.mem_Ico, sizeofSuper, IsEmpty.forall_iff, implies_true,
      List.Pairwise.nil, and_true]
    refine ⟨⟨fun a first second => ?_, fun a first second => ?_, fun a first second => ?_⟩,
      ⟨fun a first second => ?_, fun a first second => ?_⟩, fun a first second => ?_⟩
    · omega
    · have := words a second
      omega
    · have := blocks a second
      omega
    · have := words a second
      omega
    · have := blocks a second
      omega
    · have := words a first
      have := blocks a second
      omega
  · rw [imageSizeEq noOverflow, total]
    simp only [regions, List.mem_cons, List.not_mem_nil, or_false, forall_eq_or_imp, forall_eq, superBytes, nodeBytes,
      Set.mem_Ico, sizeofSuper]
    refine ⟨fun a mem => ?_, fun a mem => ?_, fun a mem => ?_, fun a mem => ?_⟩
    · omega
    · omega
    · have := words a mem
      omega
    · have := blocks a mem
      omega
  · intro b less
    rw [bitsetLengthEq, Bitset.BlockSize]
    omega

theorem rangeOfLayout {nodeCount blockCount : Nat} (some' : 1 ≤ blockCount) (layout : Layout nodeCount blockCount) :
    57 ≤ blockCount ∧ blockCount ≤ 64 := by
  constructor
  · -- the word of the first bit reaches into the first block otherwise
    by_contra few
    have disjoint := layout.disjoint
    simp only [regions, List.pairwise_cons, List.mem_cons, List.not_mem_nil, or_false, forall_eq_or_imp, forall_eq] at disjoint
    have apart := Set.disjoint_left.mp disjoint.2.2.1
    refine @apart (bitsetBase nodeCount + 7) ⟨0, .inr ⟨0, some', rfl⟩, by omega, by omega⟩ ?_
    rw [blockBytesIff]
    omega
  · have last := layout.length (blockCount - 1) (by omega)
    rw [bitsetLengthEq, Bitset.BlockSize] at last
    omega

/-- The parts of the image keep apart and every bit lies in the vector exactly for 57 to 64 blocks. -/
theorem layoutIff {nodeCount blockCount : Nat} (some' : 1 ≤ blockCount)
    (noOverflow : imageSum nodeCount blockCount < 2 ^ 31) :
    Layout nodeCount blockCount ↔ 57 ≤ blockCount ∧ blockCount ≤ 64 :=
  ⟨rangeOfLayout some', fun range => layoutOfRange noOverflow range.1 range.2⟩

theorem layoutSixty : Layout 50 60 :=
  (@layoutIff 50 60 (by decide) (by decide)).mpr (by decide)

/- The disk that the kernel makes: the only word of the bitset has its last byte in block 0. With 65
blocks the vector has one word, and the last bit is in the second. -/
theorem layoutOverlaps : ¬ Layout 50 50 ∧ bitsetBase 50 + 7 ∈ wordBytes 50 50 ∧
    bitsetBase 50 + 7 ∈ blockBytes 50 50 ∧ ¬ Layout 50 65 ∧ bitsetLength 50 65 = 1 := by
  refine ⟨fun layout => ?_, ⟨0, .inl (by decide), by decide, by decide⟩, blockBytesIff.mpr (by decide), fun layout => ?_,
    by decide⟩
  · exact absurd (rangeOfLayout (by decide) layout).1 (by decide)
  · exact absurd (rangeOfLayout (by decide) layout).2 (by decide)

end DimOS.Filesystem.RamDisk
