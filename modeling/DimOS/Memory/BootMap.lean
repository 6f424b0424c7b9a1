import Mathlib
import DimOS.Memory.PmmRuns

/-! The memory map that kernel_main builds from Limine's, and what PMM::init reads and writes
when it is given that map: the entries of availableMemArr and the bits of the bitmap, as a log
in the order of the code. -/
namespace DimOS.Memory.BootMap
open Pmm
open Lib.WordBits (Words)

inductive LimineMemType where
  | usable
  | reserved
  | acpiReclaimable
  | acpiNvs
  | badMemory
  | bootloaderReclaimable
  | kernelAndModules
  | framebuffer
  deriving DecidableEq, Repr

structure LimineEntry where
  base : Nat
  length : Nat
  type : LimineMemType
  deriving DecidableEq, Repr

def physicalRange (memArr : List LimineEntry) : List MemRange :=
  (memArr.filter (fun e => e.type = .usable)).map (fun e => ⟨e.base, e.length⟩)

def kernelEntry (memArr : List LimineEntry) : LimineEntry :=
  memArr.foldl (fun found e => if e.type = .kernelAndModules then e else found)
    ⟨0, 0, .kernelAndModules⟩

/- kernel_main, with at least two entries: totalSize is the end of the second to last. -/
def physicalMemMap (memArr : List LimineEntry) : PhysicalMemMap :=
  let last := memArr.getD (memArr.length - 2) ⟨0, 0, .reserved⟩
  { totalSize := (last.base + last.length) % 2 ^ 64
    availableMemArr := physicalRange memArr
    kernelStart := (kernelEntry memArr).base
    kernelSize := (kernelEntry memArr).length }

structure LimineMap (memArr : List LimineEntry) : Prop where
  two : 2 ≤ memArr.length
  sorted : memArr.Pairwise (fun a b => a.base ≤ b.base)
  inside : ∀ e ∈ memArr, e.base < 2 ^ 64 ∧ e.base + e.length ≤ 2 ^ 64
  aligned : ∀ e ∈ memArr, e.type = .usable → e.base % 4096 = 0 ∧ e.length % 4096 = 0
  disjoint : memArr.Pairwise (fun a b => a.type = .usable → b.type = .usable → a.base + a.length ≤ b.base)

section log
variable (mem : PhysicalMemMap)

def frameCnt : Nat := mem.totalSize / frameSize
def elementCnt : Nat := (frameCnt mem + framesPerElement - 1) / framesPerElement
def reqMemForBitmap : Nat := elementCnt mem * elementSize

/- The entries of availableMemArr that init reads: at most two for the bitmap, then all. -/
def entryReads : List Nat :=
  (if (mem.availableMemArr.getD 0 ⟨0, 0⟩).size ≥ reqMemForBitmap mem then [0] else [0, 1]) ++
    List.range mem.availableMemArr.length

def regionFrames (start size : Nat) : List Nat :=
  List.range' (PMM.regionStart start) (PMM.regionCount start size).toNat

/- Where the bitmap goes; none is the panic. -/
def bitmapPlace (HHDMOffset : Nat) : Option MemRange :=
  match PMM.bitmapRange mem.availableMemArr (reqMemForBitmap mem) with
  | none => none
  | some r => if (r.start + HHDMOffset) % 2 ^ 64 = 0 then none else some r

def bitAccesses (HHDMOffset : Nat) : List Nat :=
  match bitmapPlace mem HHDMOffset with
  | none => []
  | some r =>
    regionFrames 0 mem.totalSize ++ mem.availableMemArr.flatMap (fun a => regionFrames a.start a.size) ++
      regionFrames r.start (reqMemForBitmap mem) ++ regionFrames 0 frameSize

end log

/- The log is that of the functions of the PMM: each region function visits its frames, and
looks at no other bit. -/
theorem markFramesFold (value : Bool) (cnt st : Nat) (p : PMM) :
    PMM.markFrames value cnt st p = (List.range' st cnt).foldl (fun p f => p.mark value f) p := by
  induction cnt generalizing st p with
  | zero => rfl
  | succ cnt ih =>
    rw [PMM.markFrames, List.range'_succ, List.foldl_cons]
    exact ih (st + 1) _

theorem markRegionVisits (value : Bool) (p : PMM) (start size : Nat) :
    p.markRegion value start size = (regionFrames start size).foldl (fun p f => p.mark value f) p :=
  markFramesFold value _ _ p

structure BootBounds (HHDMOffset : Nat) (memArr : List LimineEntry) : Prop where
  entries : ∀ i ∈ entryReads (physicalMemMap memArr), i < (physicalMemMap memArr).availableMemArr.length
  words : ∀ f ∈ bitAccesses (physicalMemMap memArr) HHDMOffset,
    f / framesPerElement < elementCnt (physicalMemMap memArr)
  frames : ∀ e ∈ memArr, e.type = .usable → ∀ f, e.base ≤ f * 4096 → f * 4096 < e.base + e.length →
    f < frameCnt (physicalMemMap memArr)

structure Covered (HHDMOffset : Nat) (memArr : List LimineEntry) : Prop where
  ranges : 2 ≤ (physicalRange memArr).length ∨
    ∃ r, physicalRange memArr = [r] ∧ reqMemForBitmap (physicalMemMap memArr) ≤ r.size
  usable : ∀ e ∈ memArr, e.type = .usable → 0 < e.length →
    e.base + e.length ≤ frameCnt (physicalMemMap memArr) * 4096
  whole : bitmapPlace (physicalMemMap memArr) HHDMOffset ≠ none →
    0 < frameCnt (physicalMemMap memArr) ∧
      ((physicalMemMap memArr).totalSize % 4096 = 0 ∨ frameCnt (physicalMemMap memArr) % 64 ≠ 0 ∨
        2 ^ 63 ≤ (physicalMemMap memArr).totalSize)

theorem memRegionFrames {start size f : Nat} :
    f ∈ regionFrames start size ↔
      PMM.regionStart start ≤ f ∧ f < PMM.regionStart start + (PMM.regionCount start size).toNat := by
  unfold regionFrames
  rw [List.mem_range'_1]

theorem regionBound {start size : Nat} (aligned : start % 4096 = 0) (low : start < 2 ^ 64)
    (word : size < 2 ^ 64) :
    PMM.regionStart start = start / 4096 ∧
      (PMM.regionCount start size).toNat = if size < 2 ^ 63 then (size + 4095) / 4096 else 0 := by
  have first : PMM.regionStart start = start / 4096 := by
    unfold PMM.regionStart frameSize
    rw [Nat.mod_eq_of_lt (by omega)]
    omega
  refine ⟨first, ?_⟩
  have exactly : ((start / 4096 * 4096 : Nat) : Int) - (start : Int) = 0 := by omega
  unfold PMM.regionCount toInt64 frameSize
  rw [first, exactly, Int.sub_zero]
  by_cases small : size < 2 ^ 63
  · rw [if_pos small, Int.bmod_eq_of_le (by omega) (by omega), Int.tdiv_eq_ediv_of_nonneg (by omega)]
    omega
  · rw [if_neg small]
    have negative : Int.bmod (size : Int) (2 ^ 64) = (size : Int) - 2 ^ 64 := by
      rw [Int.bmod_def]
      omega
    rw [negative]
    have most : Int.tdiv ((size : Int) - 2 ^ 64 + 4096 - 1) 4096 ≤ 0 := by
      by_cases sign : 0 ≤ (size : Int) - 2 ^ 64 + 4096 - 1
      · rw [Int.tdiv_eq_ediv_of_nonneg sign]
        omega
      · have flipped := Int.neg_tdiv (-((size : Int) - 2 ^ 64 + 4096 - 1)) 4096
        rw [Int.neg_neg] at flipped
        rw [flipped, Int.tdiv_eq_ediv_of_nonneg (by omega)]
        omega
    push_cast at most ⊢
    omega

section bounds
variable {HHDMOffset : Nat} {memArr : List LimineEntry}

theorem memPhysicalRange {r : MemRange} :
    r ∈ physicalRange memArr ↔ ∃ e ∈ memArr, e.type = .usable ∧ r = ⟨e.base, e.length⟩ := by
  unfold physicalRange
  simp only [List.mem_map, List.mem_filter, decide_eq_true_eq]
  constructor
  · rintro ⟨e, ⟨mem, type⟩, rfl⟩
    exact ⟨e, mem, type, rfl⟩
  · rintro ⟨e, mem, type, rfl⟩
    exact ⟨e, ⟨mem, type⟩, rfl⟩

theorem entriesIff :
    (∀ i ∈ entryReads (physicalMemMap memArr), i < (physicalMemMap memArr).availableMemArr.length) ↔
      (2 ≤ (physicalRange memArr).length ∨
        ∃ r, physicalRange memArr = [r] ∧ reqMemForBitmap (physicalMemMap memArr) ≤ r.size) := by
  have avail : (physicalMemMap memArr).availableMemArr = physicalRange memArr := rfl
  unfold entryReads
  rw [avail]
  generalize physicalRange memArr = ranges
  match ranges with
  | [] =>
    constructor
    · intro all
      have := all 0 (by split <;> simp)
      simp at this
    · rintro (two | ⟨r, one, -⟩)
      · simp at two
      · contradiction
  | [r] =>
    simp only [List.getD_cons_zero, ge_iff_le]
    constructor
    · intro all
      refine .inr ⟨r, rfl, ?_⟩
      by_contra small
      rw [if_neg small] at all
      have := all 1 (by simp)
      simp at this
    · rintro (two | ⟨r', one, large⟩)
      · simp at two
      · cases one
        rw [if_pos large]
        intro i mem
        simpa using mem
  | r :: r' :: rest =>
    constructor
    · exact fun _ => .inl (by simp)
    · intro _ i mem
      rcases List.mem_append.mp mem with first | loop
      · have small : i ≤ 1 := by
          split at first <;> simp at first <;> omega
        simp only [List.length_cons]
        omega
      · exact List.mem_range.mp loop

theorem framesIff (limine : LimineMap memArr) :
    (∀ e ∈ memArr, e.type = .usable → ∀ f, e.base ≤ f * 4096 → f * 4096 < e.base + e.length →
        f < frameCnt (physicalMemMap memArr)) ↔
      ∀ e ∈ memArr, e.type = .usable → 0 < e.length →
        e.base + e.length ≤ frameCnt (physicalMemMap memArr) * 4096 := by
  constructor
  · intro all e mem type positive
    obtain ⟨base, length⟩ := limine.aligned e mem type
    have last := all e mem type ((e.base + e.length) / 4096 - 1) (by omega) (by omega)
    omega
  · intro all e mem type f low high
    have := all e mem type (by omega)
    omega

theorem totalFrames {f : Nat} :
    f ∈ regionFrames 0 (physicalMemMap memArr).totalSize ↔
      (physicalMemMap memArr).totalSize < 2 ^ 63 ∧
        f < ((physicalMemMap memArr).totalSize + 4095) / 4096 := by
  have word : (physicalMemMap memArr).totalSize < 2 ^ 64 := Nat.mod_lt _ (by omega)
  obtain ⟨first, count⟩ := regionBound (show 0 % 4096 = 0 from rfl) (by omega) word
  rw [memRegionFrames, first, count]
  split <;> omega

theorem bitmapPlaceMem {r : MemRange} (placed : bitmapPlace (physicalMemMap memArr) HHDMOffset = some r) :
    r ∈ physicalRange memArr ∧ reqMemForBitmap (physicalMemMap memArr) ≤ r.size := by
  unfold bitmapPlace at placed
  split at placed
  · contradiction
  · next chosen found =>
    split at placed
    · contradiction
    · cases Option.some.inj placed
      have large := List.find?_some found
      rw [decide_eq_true_eq] at large
      exact ⟨List.mem_of_mem_take (List.mem_of_find?_eq_some found), large⟩

theorem usableInside (limine : LimineMap memArr)
    (usable : ∀ e ∈ memArr, e.type = .usable → 0 < e.length →
      e.base + e.length ≤ frameCnt (physicalMemMap memArr) * 4096)
    {r : MemRange} (mem : r ∈ physicalRange memArr) {size f : Nat} (part : size ≤ r.size)
    (visited : f ∈ regionFrames r.start size) : f < frameCnt (physicalMemMap memArr) := by
  obtain ⟨e, mem', type, rfl⟩ := memPhysicalRange.mp mem
  obtain ⟨base, length⟩ := limine.aligned e mem' type
  obtain ⟨low, high⟩ := limine.inside e mem'
  simp only at part visited
  by_cases word : size < 2 ^ 64
  · obtain ⟨first, count⟩ := regionBound base low word
    rw [memRegionFrames, first, count] at visited
    have bound := usable e mem' type
    split at visited <;> omega
  · -- a range of all 2^64 bytes starts at 0 and its frames are below 2^52
    have all := usable e mem' type (by omega)
    have small : (physicalMemMap memArr).totalSize < 2 ^ 64 := Nat.mod_lt _ (by omega)
    unfold frameCnt frameSize at all
    omega

end bounds

/-- kernel_main's map keeps PMM::init inside availableMemArr and the bitmap, and every usable
frame below frameCnt, exactly for the maps that Covered describes. -/
theorem bootBoundsIff (HHDMOffset : Nat) (memArr : List LimineEntry) (limine : LimineMap memArr) :
    BootBounds HHDMOffset memArr ↔ Covered HHDMOffset memArr := by
  constructor
  · intro bounds
    refine ⟨entriesIff.mp bounds.entries, (framesIff limine).mp bounds.frames, ?_⟩
    intro placed
    obtain ⟨r, at'⟩ := Option.ne_none_iff_exists'.mp placed
    have words := bounds.words
    unfold bitAccesses at words
    rw [at'] at words
    simp only [List.mem_append] at words
    have zero := words 0 (.inr (by decide))
    unfold elementCnt framesPerElement at zero
    refine ⟨by omega, ?_⟩
    by_contra bad
    simp only [not_or, not_le, not_not] at bad
    obtain ⟨partial', full, small⟩ := bad
    have last := words (frameCnt (physicalMemMap memArr)) (.inl (.inl (.inl (totalFrames.mpr
      ⟨small, by unfold frameCnt frameSize; omega⟩))))
    unfold elementCnt framesPerElement at last
    omega
  · intro covered
    refine ⟨entriesIff.mpr covered.ranges, ?_, (framesIff limine).mpr covered.usable⟩
    intro f visited
    unfold bitAccesses at visited
    cases placed : bitmapPlace (physicalMemMap memArr) HHDMOffset with
    | none => simp [placed] at visited
    | some r =>
      obtain ⟨positive, whole⟩ := covered.whole (by rw [placed]; simp)
      obtain ⟨mem, large⟩ := bitmapPlaceMem placed
      have inside : f < frameCnt (physicalMemMap memArr) → f / framesPerElement <
          elementCnt (physicalMemMap memArr) := by
        unfold elementCnt framesPerElement
        omega
      simp only [placed, List.mem_append, List.mem_flatMap] at visited
      rcases visited with ((total | ⟨a, memA, frames⟩) | own) | zero
      · obtain ⟨small, low⟩ := totalFrames.mp total
        unfold elementCnt framesPerElement frameCnt frameSize at *
        omega
      · exact inside (usableInside limine covered.usable memA (Nat.le_refl _) frames)
      · exact inside (usableInside limine covered.usable mem large own)
      · obtain ⟨first, count⟩ := regionBound (show 0 % 4096 = 0 from rfl) (by omega)
          (show frameSize < 2 ^ 64 by unfold frameSize; omega)
        rw [if_pos (by unfold frameSize; omega)] at count
        rw [memRegionFrames, first, count] at zero
        unfold frameSize at zero
        exact inside (by omega)

def firmwareLast : List LimineEntry :=
  [⟨0x1000, 0x9e000, .usable⟩, ⟨0x100000, 0x7f00000, .usable⟩, ⟨0xfffc0000, 0x40000, .reserved⟩]

theorem bootBoundsFirmwareLast :
    LimineMap firmwareLast ∧ BootBounds 0xffff800000000000 firmwareLast := by
  have limine : LimineMap firmwareLast :=
    ⟨by decide, by decide, by decide, by decide, by decide⟩
  refine ⟨limine, (bootBoundsIff 0xffff800000000000 firmwareLast limine).mpr ⟨.inl (by decide), ?_, ?_⟩⟩
  · decide
  · exact fun _ => ⟨by decide, .inl (by decide)⟩

def usableLast : List LimineEntry :=
  [⟨0x1000, 0x9e000, .usable⟩, ⟨0x9f000, 0x61000, .reserved⟩, ⟨0x100000, 0x7f00000, .usable⟩]

theorem usableLastUncovered :
    ¬ ∀ (HHDMOffset : Nat) (memArr : List LimineEntry), LimineMap memArr → BootBounds HHDMOffset memArr := by
  intro all
  have bounds := all 0xffff800000000000 usableLast ⟨by decide, by decide, by decide, by decide, by decide⟩
  have frame := bounds.frames ⟨0x100000, 0x7f00000, .usable⟩ (by decide) rfl 0x100 (by decide) (by decide)
  exact absurd frame (by decide)

end DimOS.Memory.BootMap
