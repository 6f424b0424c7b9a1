import DimOS.Filesystem.RamDiskHistory

/-! The entries of a directory as its bytes show them, and what remove and removeDirEntry do to them. The
scan of removeDirEntry takes every block for one that begins with a header; it meets the entries and
nothing else where they all lie in the first block. -/
namespace DimOS.Filesystem.RamDisk
open Lib.ByteMemory
open Cpp.Bitset (bitAt)

theorem loadIntCongr {m m' : Memory} {a : Nat} (same : ∀ k, a ≤ k → k < a + 4 → m' k = m k) :
    loadInt m' a = loadInt m a := by
  unfold loadInt
  rw [same a (by omega) (by omega), same (a + 1) (by omega) (by omega), same (a + 2) (by omega) (by omega),
    same (a + 3) (by omega) (by omega)]

theorem storeIntOutside (m : Memory) (v : Int) {a k : Nat} (outside : k < a ∨ a + 4 ≤ k) : storeInt m a v k = m k :=
  if_neg (by omega)

theorem loadMinusOneIff {m : Memory} {a : Nat} : loadInt m a = -1 ↔ ∀ k, a ≤ k → k < a + 4 → m k = 255#8 := by
  constructor
  · intro minus k low high
    have word : (m (a + 3) ++ m (a + 2) ++ m (a + 1) ++ m a : BitVec 32) = BitVec.allOnes 32 := by
      rw [← BitVec.toInt_inj]
      exact minus
    obtain ⟨o, rfl⟩ : ∃ o, k = a + o := ⟨k - a, by omega⟩
    apply BitVec.eq_of_getLsbD_eq
    intro i inside
    have bit := congrArg (fun w => w.getLsbD (8 * o + i)) word
    simp only [BitVec.getLsbD_append, BitVec.getLsbD_allOnes] at bit
    have full : (255#8).getLsbD i = true := by
      interval_cases i <;> rfl
    have small : o < 4 := by omega
    rw [full]
    interval_cases o
    · simpa [inside, show i < 32 by omega] using bit
    · simpa [show 8 + i < 32 by omega, show ¬ 8 + i < 8 by omega, inside] using bit
    · simpa [show 16 + i < 32 by omega, show ¬ 16 + i < 8 by omega, show ¬ 16 + i - 8 < 8 by omega,
        show 16 + i - 8 - 8 = i by omega, inside] using bit
    · simpa [show 24 + i < 32 by omega, show ¬ 24 + i < 8 by omega, show ¬ 24 + i - 8 < 8 by omega,
        show ¬ 24 + i - 8 - 8 < 8 by omega, show 24 + i - 8 - 8 - 8 = i by omega, inside] using bit
  · intro bytes
    unfold loadInt
    rw [bytes a (by omega) (by omega), bytes (a + 1) (by omega) (by omega), bytes (a + 2) (by omega) (by omega),
      bytes (a + 3) (by omega) (by omega)]
    decide

theorem storeMinusOne (m : Memory) {a k : Nat} (low : a ≤ k) (high : k < a + 4) : storeInt m a (-1) k = 255#8 := by
  rw [storeInt, if_pos ⟨low, high⟩]
  obtain ⟨o, rfl⟩ : ∃ o, k = a + o := ⟨k - a, by omega⟩
  rw [Nat.add_sub_cancel_left]
  have small : o < 4 := by omega
  interval_cases o <;> decide

/- The inode field of entry j of a directory that starts at an address. -/
def inodeField (dirData j : Nat) : Nat := dirData + sizeofDirHeader + j * sizeofDirEntry + 16

theorem fieldShift (a j : Nat) : a + inodeField 0 j = inodeField a j := by
  unfold inodeField
  omega

/- The scan of `count` entries writes -1 over the inode fields that hold the inode, and nothing else. -/
structure Marked (dirData : Nat) (inode : Int) (count : Nat) (m out : Memory) : Prop where
  hit : ∀ j, j < count → loadInt m (inodeField dirData j) = inode →
    ∀ a, inodeField dirData j ≤ a → a < inodeField dirData j + 4 → out a = 255#8
  miss : ∀ a, (∀ j, j < count → loadInt m (inodeField dirData j) = inode →
    a < inodeField dirData j ∨ inodeField dirData j + 4 ≤ a) → out a = m a

theorem fieldsApart {dirData j k : Nat} (before : j < k) : inodeField dirData j + 20 ≤ inodeField dirData k := by
  unfold inodeField sizeofDirEntry
  omega

theorem dropEntriesMarked (dirData : Nat) (inode : Int) (count : Nat) (m : Memory) :
    Marked dirData inode count m (Disk.dropEntries dirData inode count m) := by
  induction count with
  | zero => exact ⟨fun j low => absurd low (Nat.not_lt_zero j), fun a _ => rfl⟩
  | succ count ih =>
    simp only [Disk.dropEntries]
    have here : loadInt (Disk.dropEntries dirData inode count m) (inodeField dirData count) =
        loadInt m (inodeField dirData count) := by
      refine loadIntCongr (fun k low _ => ih.miss k (fun j before _ => .inr ?_))
      have := @fieldsApart dirData j count before
      omega
    change Marked _ _ _ _ (if loadInt (Disk.dropEntries dirData inode count m) (inodeField dirData count) = inode
      then storeInt (Disk.dropEntries dirData inode count m) (inodeField dirData count) (-1) else _)
    rw [here]
    by_cases match' : loadInt m (inodeField dirData count) = inode
    · rw [if_pos match']
      refine ⟨fun j low holds a first last => ?_, fun a apart => ?_⟩
      · by_cases newest : j = count
        · rw [newest] at first last
          exact storeMinusOne _ first last
        · have := @fieldsApart dirData j count (by omega)
          rw [storeIntOutside _ _ (by omega)]
          exact ih.hit j (by omega) holds a first last
      · rw [storeIntOutside _ _ (apart count (Nat.lt_succ_self _) match')]
        exact ih.miss a (fun j low holds => apart j (by omega) holds)
    · rw [if_neg match']
      refine ⟨fun j low holds a first last => ?_, fun a apart => ?_⟩
      · have other : j ≠ count := by
          rintro rfl
          exact match' holds
        exact ih.hit j (by omega) holds a first last
      · exact ih.miss a (fun j low holds => apart j (by omega) holds)

structure Dropped (dirData : Nat) (inode : Int) (count : Nat) (m out : Memory) : Prop where
  outside : ∀ a, a < dirData ∨ inodeField dirData count ≤ a + 16 → out a = m a
  fields : ∀ j, j < count → loadInt out (inodeField dirData j) =
    if loadInt m (inodeField dirData j) = inode then -1 else loadInt m (inodeField dirData j)

theorem dropEntriesSpec (dirData : Nat) (inode : Int) (count : Nat) (m : Memory) :
    Dropped dirData inode count m (Disk.dropEntries dirData inode count m) := by
  have marked := dropEntriesMarked dirData inode count m
  refine ⟨fun a apart => marked.miss a (fun j low _ => ?_), fun j low => ?_⟩
  · have := @fieldsApart dirData j count low
    unfold inodeField at *
    omega
  · by_cases match' : loadInt m (inodeField dirData j) = inode
    · rw [if_pos match']
      exact loadMinusOneIff.mpr (marked.hit j low match')
    · rw [if_neg match']
      refine loadIntCongr (fun k first past => marked.miss k (fun i _ holds => ?_))
      rcases Nat.lt_trichotomy i j with less | same | more
      · have := @fieldsApart dirData i j less
        omega
      · rw [same] at holds
        exact absurd holds match'
      · have := @fieldsApart dirData j i more
        omega

/- The number of entries of a directory, and the inode that entry j names, from the bytes of its file. -/
def entryCnt (d : Disk) (i : Nat) : Int := loadInt (byteAt d i) 0

def entryInode (d : Disk) (i j : Nat) : Int := loadInt (byteAt d i) (inodeField 0 j)

structure Entry (d : Disk) (i j : Nat) : Prop where
  live : Live d i
  dir : (d.nodes i).type = .DIRECTORY
  counted : j < (entryCnt d i).toNat
  inside : sizeofDirHeader + (j + 1) * sizeofDirEntry ≤ (d.nodes i).size

structure Fits (d : Disk) (i : Nat) : Prop where
  block : (d.nodes i).blocksInUse ≤ 1
  entries : sizeofDirHeader + (entryCnt d i).toNat * sizeofDirEntry ≤ BlockSize

theorem firstBlockInt {d : Disk} {i b x : Nat} (slot : (d.nodes i).dataBlocks 0 = some b) (inside : x + 4 ≤ BlockSize) :
    loadInt (byteAt d i) x = loadInt d.data (d.blockAddr b + x) := by
  have byte : ∀ o, o < BlockSize → byteAt d i o = d.data (d.blockAddr b + o) := by
    intro o low
    have found := byteAtSlot slot low
    rw [Nat.mul_zero, Nat.zero_add] at found
    exact found
  unfold loadInt
  rw [byte x (by omega), byte (x + 1) (by omega), byte (x + 2) (by omega), byte (x + 3) (by omega)]
  rfl

theorem firstBlockCount {d : Disk} {i b : Nat} (slot : (d.nodes i).dataBlocks 0 = some b) :
    loadInt d.data (d.blockAddr b) = entryCnt d i := by
  rw [entryCnt, firstBlockInt slot (by decide), Nat.add_zero]

theorem blockAddrCongr {d d' : Disk} (super : d'.super = d.super) (b : Nat) : d'.blockAddr b = d.blockAddr b := by
  unfold Disk.blockAddr
  rw [super]

theorem dropInBlocksKeeps {dataBlocks : Nat → Option Nat} {inode : Int} {count : Nat} {d out : Disk}
    (ok : Disk.dropInBlocks dataBlocks inode count d = some out) :
    out.super = d.super ∧ out.nodes = d.nodes ∧ ∀ a, a < d.super.dataBitsetSize → out.data a = d.data a := by
  induction count generalizing out with
  | zero =>
    cases Option.some.inj ok
    exact ⟨rfl, rfl, fun _ _ => rfl⟩
  | succ count ih =>
    simp only [Disk.dropInBlocks] at ok
    split at ok
    · cases ok
    · next mid before =>
      obtain ⟨super, nodes, bytes⟩ := ih before
      split at ok
      · cases ok
      · obtain ⟨b, -, rfl⟩ := Option.map_eq_some_iff.mp ok
        refine ⟨super, nodes, fun a low => ?_⟩
        refine ((dropEntriesSpec _ _ _ _).outside a (.inl ?_)).trans (bytes a low)
        unfold Disk.blockAddr
        rw [super]
        omega

theorem removeDirEntryData {d out : Disk} {vfsNode : VfsNode} {entry : DirEntry} (valid : d.super.Valid)
    (ok : d.removeDirEntry vfsNode entry = some out) :
    out = { d with data := out.data } ∧ ∀ b, b < d.super.blockCnt → bitAt out.data b = bitAt d.data b := by
  obtain ⟨super, nodes, bytes⟩ := dropInBlocksKeeps ok
  refine ⟨?_, fun b inside => ?_⟩
  · cases out
    cases super
    cases nodes
    rfl
  · unfold Super.Valid at valid
    unfold bitAt
    rw [bytes (b / 8) (by omega)]

theorem removeDirEntryOwned {d out : Disk} {vfsNode : VfsNode} {entry : DirEntry} (h : Owned d)
    (ok : d.removeDirEntry vfsNode entry = some out) : Owned out ∧ SameShape d out := by
  obtain ⟨shape, bits⟩ := removeDirEntryData h.valid ok
  rw [shape]
  exact ⟨h.withData bits, rfl, fun i => rfl⟩

end DimOS.Filesystem.RamDisk
