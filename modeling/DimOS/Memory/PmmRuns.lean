import Mathlib
import DimOS.Lib.Transition
import DimOS.Memory.PmmSpec

/-! Any sequence of allocFrame, allocNFrames and freeFrame after PMM::init. outstanding
holds the frames handed out and not freed since; the code keeps no such list. The bits
past frameCnt in the last word are whatever was there before init. -/
namespace DimOS.Memory.Pmm
open Lib.WordBits
open Lib.Count
open Lib.Transition (run Guarded)

def bitmapBytes (mem : PhysicalMemMap) : Nat := (mem.totalSize / 4096 + 63) / 64 * 8

structure WellFormed (mem : PhysicalMemMap) : Prop where
  two : 2 ≤ mem.availableMemArr.length
  total : mem.totalSize % 4096 = 0
  aligned : ∀ r ∈ mem.availableMemArr, r.start % 4096 = 0 ∧ r.size % 4096 = 0 ∧
    r.start + r.size ≤ mem.totalSize
  room : ∃ r ∈ mem.availableMemArr.take 2, bitmapBytes mem ≤ r.size

def Available (mem : PhysicalMemMap) (f : Nat) : Prop :=
  ∃ r ∈ mem.availableMemArr, r.start ≤ f * 4096 ∧ f * 4096 < r.start + r.size

def Overlaps (r : MemRange) (f : Nat) : Prop := f * 4096 < r.start + r.size ∧ r.start < (f + 1) * 4096

def Usable (mem : PhysicalMemMap) (bitmap : MemRange) (f : Nat) : Prop :=
  Available mem f ∧ f ≠ 0 ∧ ¬ Overlaps bitmap f

theorem initReturns (HHDMOffset : Nat) (prior : Words) {mem : PhysicalMemMap} (wf : WellFormed mem)
    (mapped : ∀ r ∈ mem.availableMemArr.take 2, (r.start + HHDMOffset) % 2 ^ 64 ≠ 0) :
    ∃ p bitmap, PMM.init HHDMOffset prior mem = some (p, bitmap) := by
  unfold PMM.init
  simp only [if_neg (Nat.not_lt.mpr wf.two)]
  obtain ⟨r, mem', large⟩ := wf.room
  cases found : PMM.bitmapRange mem.availableMemArr
      (PMM.elementCnt ⟨mem.totalSize, 0, mem.totalSize / frameSize, prior⟩ * elementSize) with
  | none =>
    have small := List.find?_eq_none.mp found r mem'
    simp only [PMM.elementCnt, framesPerElement, elementSize, frameSize, ge_iff_le,
      decide_eq_true_eq] at small
    unfold bitmapBytes at large
    omega
  | some chosen =>
    have inside := List.mem_of_find?_eq_some found
    simp only [if_neg (mapped chosen inside)]
    exact ⟨_, _, rfl⟩

theorem reserveSpec {mem : PhysicalMemMap} {p : PMM} {r : MemRange} {req : Nat} (wf : WellFormed mem)
    (positive : 0 < mem.totalSize)
    (low : ∀ a ∈ mem.availableMemArr, a.start + a.size < 2 ^ 63) (chosen : r ∈ mem.availableMemArr)
    (large : req ≤ r.size) (frames : p.frameCnt = mem.totalSize / 4096) {out : PMM}
    (made : ((p.initRegions mem.availableMemArr).deinitRegion r.start req).deinitRegion 0 4096 = out) :
    out.drift = p.drift ∧ out.frameCnt = mem.totalSize / 4096 ∧
      ((∀ f, f < mem.totalSize / 4096 → p.used f = true) →
        ∀ f, f < mem.totalSize / 4096 → (out.used f = false ↔ Usable mem ⟨r.start, req⟩ f)) := by
  subst made
  have total := wf.total
  obtain ⟨startr, sizer, endr⟩ := wf.aligned r chosen
  have lowr := low r chosen
  have fit : ∀ a ∈ mem.availableMemArr, a.start % 4096 = 0 ∧ a.start + a.size < 2 ^ 63 ∧
      a.start / 4096 + (a.size + 4095) / 4096 ≤ p.frameCnt := by
    intro a mema
    obtain ⟨sa, za, ea⟩ := wf.aligned a mema
    exact ⟨sa, low a mema, by omega⟩
  obtain ⟨bits2, frames2, drift2⟩ := PMM.initRegionsSpec mem.availableMemArr p fit
  generalize p.initRegions mem.availableMemArr = p2 at bits2 frames2 drift2 ⊢
  obtain ⟨bits3, frames3, drift3⟩ := PMM.markRegionSpec true p2 startr
    (show r.start + req < 2 ^ 63 by omega)
  have drift3' := drift3 (by omega)
  change ∀ f, (p2.deinitRegion r.start req).used f = _ at bits3
  change (p2.deinitRegion r.start req).frameCnt = _ at frames3
  change (p2.deinitRegion r.start req).drift = _ at drift3'
  generalize p2.deinitRegion r.start req = p3 at bits3 frames3 drift3' ⊢
  obtain ⟨bits4, frames4, drift4⟩ := PMM.markRegionSpec true p3 (show 0 % 4096 = 0 by rfl)
    (show 0 + 4096 < 2 ^ 63 by omega)
  have drift4' := drift4 (by omega)
  refine ⟨drift4'.trans (drift3'.trans drift2), frames4.trans (frames3.trans (frames2.trans frames)), ?_⟩
  intro full f below
  have last : (p3.deinitRegion 0 4096).used f =
      if PMM.Within 0 4096 f then true else p3.used f := bits4 f
  have free2 : p2.used f = false ↔ Available mem f := by
    rw [← Bool.not_eq_true, bits2 f]
    simp only [full f below, true_and, not_forall, not_not]
    refine exists_congr (fun a => ?_)
    rw [exists_prop]
    refine and_congr_right (fun mema => ?_)
    obtain ⟨sa, za, ea⟩ := wf.aligned a mema
    unfold PMM.Within
    omega
  have own : PMM.Within r.start req f ↔ Overlaps ⟨r.start, req⟩ f := by
    simp only [PMM.Within, Overlaps]
    omega
  have first : PMM.Within 0 4096 f ↔ f = 0 := by
    unfold PMM.Within
    omega
  rw [last, bits3 f]
  unfold Usable
  rw [← own, ← free2, ne_eq, ← first]
  by_cases isZero : PMM.Within 0 4096 f
  · simp [isZero]
  · by_cases overlap : PMM.Within r.start req f <;> simp [isZero, overlap]

theorem clearedSpec {mem : PhysicalMemMap} {p q : PMM} (wf : WellFormed mem)
    (small : mem.totalSize < 2 ^ 63) (memory : p.memorySize = mem.totalSize)
    (frames : p.frameCnt = mem.totalSize / 4096) (made : p.deinitRegion 0 p.memorySize = q) :
    q.frameCnt = mem.totalSize / 4096 ∧ ∀ f, f < mem.totalSize / 4096 → q.used f = true := by
  have total := wf.total
  obtain ⟨bits, kept, -⟩ := PMM.markRegionSpec true p (show 0 % 4096 = 0 by rfl)
    (show 0 + p.memorySize < 2 ^ 63 by omega)
  unfold PMM.deinitRegion at made
  rw [made] at bits kept
  refine ⟨kept.trans frames, ?_⟩
  intro f below
  rw [bits f, if_pos (by unfold PMM.Within; omega)]

theorem initCases {HHDMOffset : Nat} {prior : Words} {mem : PhysicalMemMap} {p : PMM}
    {bitmap : MemRange} (ok : PMM.init HHDMOffset prior mem = some (p, bitmap)) :
    ∃ r ∈ mem.availableMemArr, bitmap = ⟨r.start, bitmapBytes mem⟩ ∧ bitmapBytes mem ≤ r.size ∧
      p = PMM.setup ⟨mem.totalSize, 0, mem.totalSize / 4096, prior⟩ mem bitmap := by
  simp only [PMM.init] at ok
  split at ok
  · contradiction
  · split at ok
    · contradiction
    · next r found =>
      split at ok
      · contradiction
      · cases Option.some.inj ok
        have large := List.find?_some found
        rw [decide_eq_true_eq] at large
        exact ⟨r, List.mem_of_mem_take (List.mem_of_find?_eq_some found), rfl, large, rfl⟩

theorem initSpec {HHDMOffset : Nat} {prior : Words} {mem : PhysicalMemMap} {p : PMM}
    {bitmap : MemRange} (wf : WellFormed mem) (positive : 0 < mem.totalSize)
    (small : mem.totalSize < 2 ^ 63) (ok : PMM.init HHDMOffset prior mem = some (p, bitmap)) :
    p.Balanced ∧ p.frameCnt = mem.totalSize / 4096 ∧
      ∀ f, f < mem.totalSize / 4096 → (p.used f = false ↔ Usable mem bitmap f) := by
  obtain ⟨r, chosen, rfl, large, made⟩ := initCases ok
  simp only [PMM.setup, frameSize] at made
  generalize clearedEq : PMM.deinitRegion ⟨mem.totalSize, 0, mem.totalSize / 4096, prior⟩ 0
    mem.totalSize = q at made
  obtain ⟨frames, full⟩ := clearedSpec wf small rfl rfl clearedEq
  have balanced := PMM.fullBalanced (show ∀ f, f < q.frameCnt → q.used f = true by
    rw [frames]
    exact full)
  have low : ∀ a ∈ mem.availableMemArr, a.start + a.size < 2 ^ 63 := fun a mema =>
    Nat.lt_of_le_of_lt (wf.aligned a mema).2.2 small
  obtain ⟨drift, frames', used⟩ := reserveSpec wf positive low chosen large
    (by rw [PMM.countAllFrameCnt]; exact frames) made.symm
  exact ⟨drift.trans balanced, frames', used (by rw [PMM.countAllUsed]; exact full)⟩

structure State where
  pmm : PMM
  outstanding : List Nat

inductive Op where
  | allocFrame
  | allocNFrames (n : Nat)
  | freeFrame (addr : Nat)
  deriving DecidableEq, Repr

def step (s : State) : Op → Option State
  | .allocFrame =>
    let (pmm, addr) := s.pmm.allocFrame
    some ⟨pmm, if addr = 0 then s.outstanding else addr / frameSize :: s.outstanding⟩
  | .allocNFrames n =>
    let (pmm, addr) := s.pmm.allocNFrames n
    some ⟨pmm, if addr = 0 then s.outstanding
      else (List.range n).map (fun k => addr / frameSize + k) ++ s.outstanding⟩
  | .freeFrame addr => some ⟨s.pmm.freeFrame addr, s.outstanding.erase (addr / frameSize)⟩

theorem stepTotal (s : State) (op : Op) : ∃ t, step s op = some t := by
  cases op <;> exact ⟨_, rfl⟩

/- Only frames that were handed out are freed; allocNFrames is used where frameCnt fills
whole words. -/
def Allowed (s : State) : Op → Prop
  | .allocFrame => True
  | .allocNFrames n => 1 ≤ n ∧ s.pmm.frameCnt % 64 = 0
  | .freeFrame addr => addr % frameSize = 0 ∧ addr / frameSize ∈ s.outstanding

def Grantable (mem : PhysicalMemMap) (bitmap : MemRange) (s : State) (addr n : Nat) : Prop :=
  ∃ f, addr = f * frameSize ∧ ∀ k, k < n →
    f + k < s.pmm.frameCnt ∧ Usable mem bitmap (f + k) ∧ f + k ∉ s.outstanding

structure FrameSafety (mem : PhysicalMemMap) (bitmap : MemRange) (s : State) : Prop where
  counted : s.pmm.usedframes = count s.pmm.bitmapIsSet s.pmm.frameCnt
  exhausted : s.pmm.allocFrame.2 = 0 ↔ ∀ f, f < s.pmm.frameCnt → s.pmm.bitmapIsSet f = true
  one : s.pmm.allocFrame.2 ≠ 0 → Grantable mem bitmap s s.pmm.allocFrame.2 1
  many : s.pmm.frameCnt % 64 = 0 → ∀ n, 1 ≤ n → (s.pmm.allocNFrames n).2 ≠ 0 →
    Grantable mem bitmap s (s.pmm.allocNFrames n).2 n

structure Safe (mem : PhysicalMemMap) (bitmap : MemRange) (s : State) : Prop where
  balanced : s.pmm.Balanced
  usable : ∀ f, f < s.pmm.frameCnt → s.pmm.used f = false → Usable mem bitmap f
  held : ∀ f ∈ s.outstanding, f < s.pmm.frameCnt ∧ s.pmm.used f = true ∧ Usable mem bitmap f
  distinct : s.outstanding.Nodup

section
variable {mem : PhysicalMemMap} {bitmap : MemRange} {s : State}

theorem Safe.free (h : Safe mem bitmap s) {f : Nat} (clear : s.pmm.used f = false) :
    f ∉ s.outstanding := by
  intro held
  have taken := (h.held f held).2.1
  rw [clear] at taken
  contradiction

theorem Safe.taken (h : Safe mem bitmap s) {p : PMM} {f n : Nat} (balanced : p.Balanced)
    (frames : p.frameCnt = s.pmm.frameCnt)
    (clear : ∀ k, k < n → f + k < s.pmm.frameCnt ∧ s.pmm.used (f + k) = false)
    (bits : ∀ j, p.used j = if f ≤ j ∧ j < f + n then true else s.pmm.used j) :
    Safe mem bitmap ⟨p, (List.range n).map (fun k => f + k) ++ s.outstanding⟩ := by
  have known : ∀ j, j ∈ (List.range n).map (fun k => f + k) ↔ f ≤ j ∧ j < f + n := by
    intro j
    simp only [List.mem_map, List.mem_range]
    constructor
    · rintro ⟨k, below, rfl⟩
      omega
    · rintro ⟨low, high⟩
      exact ⟨j - f, by omega, by omega⟩
  have fresh : ∀ j, f ≤ j ∧ j < f + n → j < s.pmm.frameCnt ∧ s.pmm.used j = false := by
    intro j inside
    have at' := clear (j - f) (by omega)
    rw [show f + (j - f) = j by omega] at at'
    exact at'
  refine ⟨balanced, ?_, ?_, ?_⟩
  · intro j below free
    simp only at below free
    rw [bits j] at free
    split at free
    · contradiction
    · exact h.usable j (by omega) free
  · intro j mem'
    simp only [bits, frames]
    rcases List.mem_append.mp mem' with new | old
    · have inside := (known j).mp new
      obtain ⟨below, was⟩ := fresh j inside
      exact ⟨below, by rw [if_pos inside], h.usable j below was⟩
    · obtain ⟨below, taken, usable⟩ := h.held j old
      refine ⟨below, ?_, usable⟩
      split
      · rfl
      · exact taken
  · refine List.nodup_append.mpr ⟨?_, h.distinct, ?_⟩
    · exact List.nodup_range.map (fun a b same => by simpa using same)
    · intro a new b old same
      subst same
      exact h.free (fresh a ((known a).mp new)).2 old

theorem allocFrameSafe (h : Safe mem bitmap s) {t : State} (ok : step s .allocFrame = some t) :
    Safe mem bitmap t := by
  simp only [step, Option.some.injEq] at ok
  subst ok
  rcases PMM.allocFrameSpec h.balanced with ⟨same, -⟩ | ⟨f, below, clear, addr, balanced, frames, bits⟩
  · rw [same]
    exact h
  · have positive : f ≠ 0 := (h.usable f below clear).2.1
    have nonzero : f * frameSize ≠ 0 := by unfold frameSize; omega
    have number : f * frameSize / frameSize = f := Nat.mul_div_cancel f (by unfold frameSize; omega)
    simp only [addr, if_neg nonzero, number]
    have taken := h.taken (f := f) (n := 1) balanced frames
      (fun k small => by
        obtain rfl : k = 0 := by omega
        exact ⟨below, clear⟩)
      (fun j => by
        rw [bits j]
        by_cases same : j = f
        · rw [if_pos same, if_pos (by omega)]
        · rw [if_neg same, if_neg (by omega)])
    exact taken

theorem allocNFramesGranted (h : Safe mem bitmap s) {n : Nat} (positive : 1 ≤ n)
    (whole : s.pmm.frameCnt % 64 = 0) :
    s.pmm.allocNFrames n = (s.pmm, 0) ∨
      ∃ f, s.pmm.allocNFrames n = (PMM.takeFrames n f s.pmm, f * frameSize) ∧ f ≠ 0 ∧
        ∀ k, k < n → f + k < s.pmm.frameCnt ∧ s.pmm.used (f + k) = false := by
  rcases s.pmm.allocNFramesCases n with same | ⟨f, made, inside, clear⟩
  · exact .inl same
  · have bound : s.pmm.elementCnt * 64 = s.pmm.frameCnt := by
      unfold PMM.elementCnt framesPerElement
      omega
    have first := clear 0 (by omega)
    rw [Nat.add_zero] at first
    refine .inr ⟨f, made, (h.usable f (by omega) first).2.1, ?_⟩
    exact fun k small => ⟨by omega, clear k small⟩

theorem allocNFramesSafe (h : Safe mem bitmap s) {n : Nat} (positive : 1 ≤ n)
    (whole : s.pmm.frameCnt % 64 = 0) {t : State} (ok : step s (.allocNFrames n) = some t) :
    Safe mem bitmap t := by
  simp only [step, Option.some.injEq] at ok
  subst ok
  rcases allocNFramesGranted h positive whole with same | ⟨f, made, nonzero, clear⟩
  · rw [same]
    exact h
  · have number : f * frameSize / frameSize = f := Nat.mul_div_cancel f (by unfold frameSize; omega)
    have nonzero' : f * frameSize ≠ 0 := by unfold frameSize; omega
    obtain ⟨bits, frames, -, balance⟩ := PMM.takeFramesSpec (fun k small => (clear k small).2)
    have last := (clear (n - 1) (by omega)).1
    simp only [made, if_neg nonzero', number]
    exact h.taken (balance (by omega) h.balanced) frames clear bits

theorem freeFrameSafe (h : Safe mem bitmap s) {addr : Nat} (aligned : addr % frameSize = 0)
    (held : addr / frameSize ∈ s.outstanding) {t : State}
    (ok : step s (.freeFrame addr) = some t) : Safe mem bitmap t := by
  simp only [step, Option.some.injEq] at ok
  subst ok
  obtain ⟨below, taken, usable⟩ := h.held _ held
  generalize fEq : addr / frameSize = f at held below taken usable
  have addrEq : addr = f * frameSize := by
    unfold frameSize at *
    omega
  obtain ⟨balanced, frames, bits⟩ := PMM.freeFrameSpec below taken h.balanced
  rw [← addrEq] at balanced frames bits
  refine ⟨balanced, ?_, ?_, h.distinct.erase f⟩
  · intro j small free
    simp only [frames, bits] at small free
    split at free
    · next same =>
      rw [same]
      exact usable
    · exact h.usable j small free
  · intro j mem'
    simp only [frames, bits]
    have other : j ≠ f := fun same => h.distinct.not_mem_erase (same ▸ mem')
    rw [if_neg other]
    exact h.held j (List.mem_of_mem_erase mem')

theorem stepSafe (h : Safe mem bitmap s) {op : Op} {t : State} (allowed : Allowed s op)
    (ok : step s op = some t) : Safe mem bitmap t := by
  cases op with
  | allocFrame => exact allocFrameSafe h ok
  | allocNFrames n => exact allocNFramesSafe h allowed.1 allowed.2 ok
  | freeFrame addr => exact freeFrameSafe h allowed.1 allowed.2 ok

theorem safeFrameSafety (h : Safe mem bitmap s) : FrameSafety mem bitmap s := by
  refine ⟨?_, ?_, ?_, ?_⟩
  · have same : s.pmm.bitmapIsSet = s.pmm.used := funext (PMM.isSetUsed s.pmm)
    rw [same]
    exact (PMM.balancedIff s.pmm).mp h.balanced
  · simp only [PMM.isSetUsed]
    rcases PMM.allocFrameSpec h.balanced with ⟨same, full⟩ | ⟨f, below, clear, addr, -⟩
    · simp only [same, true_iff]
      exact full
    · have positive : f ≠ 0 := (h.usable f below clear).2.1
      constructor
      · intro zero
        rw [addr] at zero
        unfold frameSize at zero
        omega
      · intro all
        rw [all f below] at clear
        contradiction
  · intro nonzero
    rcases PMM.allocFrameSpec h.balanced with ⟨same, -⟩ | ⟨f, below, clear, addr, -⟩
    · rw [same] at nonzero
      contradiction
    · refine ⟨f, addr, ?_⟩
      intro k small
      obtain rfl : k = 0 := by omega
      exact ⟨below, h.usable f below clear, h.free clear⟩
  · intro whole n positive nonzero
    rcases allocNFramesGranted h positive whole with same | ⟨f, made, -, clear⟩
    · rw [same] at nonzero
      contradiction
    · rw [made]
      refine ⟨f, rfl, ?_⟩
      intro k small
      obtain ⟨below, free⟩ := clear k small
      exact ⟨below, h.usable _ below free, h.free free⟩

end

/-- For a memory map with some memory below 2^63: init returns unless the bitmap's address is
null, and after any allowed sequence of operations the counter is the number of set bits,
frames are handed out only where they may be, and allocFrame fails only when all are used. -/
theorem frameSafety (HHDMOffset : Nat) (prior : Words) (mem : PhysicalMemMap) (wf : WellFormed mem)
    (positive : 0 < mem.totalSize) (small : mem.totalSize < 2 ^ 63) :
    ((∀ r ∈ mem.availableMemArr.take 2, (r.start + HHDMOffset) % 2 ^ 64 ≠ 0) →
      ∃ p bitmap, PMM.init HHDMOffset prior mem = some (p, bitmap)) ∧
    ∀ p bitmap ops, PMM.init HHDMOffset prior mem = some (p, bitmap) →
      Guarded step Allowed ⟨p, []⟩ ops →
      ∃ s, run step ⟨p, []⟩ ops = some s ∧ FrameSafety mem bitmap s := by
  refine ⟨initReturns HHDMOffset prior wf, ?_⟩
  intro p bitmap ops ok allowed
  obtain ⟨balanced, frames, free⟩ := initSpec wf positive small ok
  have start : Safe mem bitmap ⟨p, []⟩ := by
    refine ⟨balanced, ?_, by simp, List.nodup_nil⟩
    intro f below clear
    exact (free f (by rw [← frames]; exact below)).mp clear
  obtain ⟨s, reached, safe⟩ := Lib.Transition.invariantRunTotal (Safe mem bitmap)
    (fun s op safe granted => by
      obtain ⟨t, taken⟩ := stepTotal s op
      exact ⟨t, taken, stepSafe safe granted taken⟩) start allowed
  exact ⟨s, reached, safeFrameSafety safe⟩

/- Two available pages; the bitmap, one word, takes the first of them. -/
def smallMap : PhysicalMemMap := ⟨16384, [⟨4096, 4096⟩, ⟨8192, 4096⟩], 0, 0⟩

theorem smallMapFormed : WellFormed smallMap := by
  refine ⟨by decide, by decide, by decide, ⟨4096, 4096⟩, by decide, by decide⟩

def smallPmm : PMM := PMM.setup ⟨16384, 0, 4, fun _ => 0#64⟩ smallMap ⟨4096, 8⟩

def smallOps : List Op := [.allocFrame, .freeFrame 8192, .allocFrame]

instance (s : State) : (op : Op) → Decidable (Allowed s op)
  | .allocFrame => inferInstanceAs (Decidable True)
  | .allocNFrames n => inferInstanceAs (Decidable (1 ≤ n ∧ s.pmm.frameCnt % 64 = 0))
  | .freeFrame addr =>
    inferInstanceAs (Decidable (addr % frameSize = 0 ∧ addr / frameSize ∈ s.outstanding))

theorem frameSafetySmall :
    PMM.init 0xffff800000000000 (fun _ => 0#64) smallMap = some (smallPmm, ⟨4096, 8⟩) ∧
      ∃ s, run step ⟨smallPmm, []⟩ smallOps = some s ∧ FrameSafety smallMap ⟨4096, 8⟩ s := by
  have ok : PMM.init 0xffff800000000000 (fun _ => 0#64) smallMap = some (smallPmm, ⟨4096, 8⟩) := rfl
  obtain ⟨-, safety⟩ := frameSafety 0xffff800000000000 (fun _ => 0#64) smallMap smallMapFormed
    (by decide) (by decide)
  exact ⟨ok, safety smallPmm ⟨4096, 8⟩ smallOps ok
    (Lib.Transition.checkedGuarded (by decide +kernel))⟩

def zeroMap : PhysicalMemMap := ⟨0, [⟨0, 0⟩, ⟨0, 0⟩], 0, 0⟩
def hugeMap : PhysicalMemMap := ⟨2 ^ 63, [⟨0, 2 ^ 48⟩, ⟨2 ^ 48, 4096⟩], 0, 0⟩

theorem hugeMapFormed : WellFormed hugeMap := by
  refine ⟨by decide, by decide, by decide, ⟨0, 2 ^ 48⟩, by decide, by decide⟩

theorem hugeRegion (p : PMM) : p.deinitRegion 0 (2 ^ 63) = p := by
  have none : (PMM.regionCount 0 (2 ^ 63)).toNat = 0 := by decide +kernel
  unfold PMM.deinitRegion PMM.markRegion
  rw [none]
  rfl

theorem countNone (n : Nat) : count (fun _ => false) n = 0 := by
  induction n with
  | zero => rfl
  | succ n ih => simp [count]

theorem hugeDrift {p : PMM} {bitmap : MemRange}
    (ok : PMM.init 0xffff800000000000 (fun _ => 0#64) hugeMap = some (p, bitmap)) :
    p.drift = 2 ^ 51 := by
  obtain ⟨r, chosen, rfl, large, made⟩ := initCases ok
  have total : hugeMap.totalSize = 2 ^ 63 := rfl
  have frames : 2 ^ 63 / 4096 = 2 ^ 51 := by decide
  simp only [PMM.setup, frameSize, total, hugeRegion, frames] at made
  obtain ⟨kept, -⟩ := reserveSpec hugeMapFormed (by decide) (by decide) chosen large
    (show (PMM.countAll ⟨2 ^ 63, 0, 2 ^ 51, fun _ => 0#64⟩).frameCnt = hugeMap.totalSize / 4096 by decide)
    made.symm
  have empty : PMM.used ⟨2 ^ 63, 0, 2 ^ 51, fun _ => 0#64⟩ = fun _ => false := by
    funext f
    simp [PMM.used, bitOf]
  rw [kept]
  unfold PMM.drift
  rw [PMM.countAllUsed, empty, countNone]
  rfl

/- Without the two bounds the counter is wrong as soon as init returns. -/
theorem initMiscounts :
    (WellFormed zeroMap ∧ ∃ p bitmap,
      PMM.init 0xffff800000000000 (fun _ => 0#64) zeroMap = some (p, bitmap) ∧
        p.usedframes ≠ count p.bitmapIsSet p.frameCnt) ∧
    WellFormed hugeMap ∧ ∃ p bitmap,
      PMM.init 0xffff800000000000 (fun _ => 0#64) hugeMap = some (p, bitmap) ∧
        p.usedframes ≠ count p.bitmapIsSet p.frameCnt := by
  refine ⟨⟨⟨by decide, by decide, by decide, ⟨0, 0⟩, by decide, by decide⟩, _, _, rfl, by decide⟩,
    hugeMapFormed, ?_⟩
  obtain ⟨p, bitmap, ok⟩ := initReturns 0xffff800000000000 (fun _ => 0#64)
    hugeMapFormed (by decide)
  refine ⟨p, bitmap, ok, ?_⟩
  intro counted
  have drift := hugeDrift ok
  have same : p.bitmapIsSet = p.used := funext (PMM.isSetUsed p)
  rw [same] at counted
  rw [(PMM.balancedIff p).mpr counted] at drift
  omega

/- Free after init: in an available range, not under the bitmap, not frame 0. -/
def InitiallyFree (mem : PhysicalMemMap) (bitmap : MemRange) (f : Nat) : Prop :=
  Available mem f ∧ ¬ PMM.Within bitmap.start bitmap.size f ∧ f ≠ 0

instance (mem : PhysicalMemMap) (f : Nat) : Decidable (Available mem f) :=
  inferInstanceAs (Decidable (∃ r ∈ mem.availableMemArr, r.start ≤ f * 4096 ∧ f * 4096 < r.start + r.size))

instance (mem : PhysicalMemMap) (bitmap : MemRange) (f : Nat) :
    Decidable (InitiallyFree mem bitmap f) :=
  inferInstanceAs (Decidable (_ ∧ ¬ _ ∧ f ≠ 0))

structure InitialMap (mem : PhysicalMemMap) (bitmap : MemRange) (p : PMM) : Prop where
  frames : p.frameCnt = mem.totalSize / 4096
  words : bitmap.size = 8 * p.elementCnt
  place : ∃ r ∈ mem.availableMemArr, bitmap.start = r.start ∧ bitmap.size ≤ r.size
  free : ∀ f, f < p.frameCnt → (p.bitmapIsSet f = false ↔ InitiallyFree mem bitmap f)
  counted : p.usedframes = count (fun f => !decide (InitiallyFree mem bitmap f)) p.frameCnt

theorem countInitially {mem : PhysicalMemMap} {bitmap : MemRange} {p : PMM}
    (free : ∀ f, f < p.frameCnt → (p.bitmapIsSet f = false ↔ InitiallyFree mem bitmap f)) :
    count (fun f => !decide (InitiallyFree mem bitmap f)) p.frameCnt = count p.used p.frameCnt := by
  refine countCongr (fun f below => ?_)
  have same := free f below
  rw [PMM.isSetUsed] at same
  cases taken : p.used f with
  | true =>
    have busy : ¬ InitiallyFree mem bitmap f := by
      rw [← same, taken]
      decide
    simp [busy]
  | false => simp [same.mp taken]

/-- The map init leaves, for some memory below 2^63, whatever the bitmap memory held: the
available frames are free but for those under the bitmap and frame 0, and the counter is the
number of the others. -/
theorem initialFreeMap (HHDMOffset : Nat) (prior : Words) (mem : PhysicalMemMap) (wf : WellFormed mem)
    (positive : 0 < mem.totalSize) (small : mem.totalSize < 2 ^ 63) :
    ((∀ r ∈ mem.availableMemArr.take 2, (r.start + HHDMOffset) % 2 ^ 64 ≠ 0) →
      ∃ p bitmap, PMM.init HHDMOffset prior mem = some (p, bitmap)) ∧
    ∀ p bitmap, PMM.init HHDMOffset prior mem = some (p, bitmap) → InitialMap mem bitmap p := by
  refine ⟨initReturns HHDMOffset prior wf, ?_⟩
  intro p bitmap ok
  obtain ⟨balanced, frames, usable⟩ := initSpec wf positive small ok
  obtain ⟨r, chosen, rfl, large, -⟩ := initCases ok
  obtain ⟨aligned, -, -⟩ := wf.aligned r chosen
  have free : ∀ f, f < p.frameCnt →
      (p.bitmapIsSet f = false ↔ InitiallyFree mem ⟨r.start, bitmapBytes mem⟩ f) := by
    intro f below
    have own : PMM.Within r.start (bitmapBytes mem) f ↔ Overlaps ⟨r.start, bitmapBytes mem⟩ f := by
      simp only [PMM.Within, Overlaps]
      omega
    rw [PMM.isSetUsed, usable f (by omega)]
    unfold Usable InitiallyFree
    rw [own]
    exact and_congr_right (fun _ => and_comm)
  refine ⟨frames, ?_, ⟨r, chosen, rfl, large⟩, free, ?_⟩
  · show bitmapBytes mem = 8 * p.elementCnt
    unfold bitmapBytes PMM.elementCnt framesPerElement
    rw [frames]
    omega
  · rw [countInitially free]
    exact (PMM.balancedIff p).mp balanced

theorem initialFreeMapSmall :
    PMM.init 0xffff800000000000 (fun _ => 0#64) smallMap = some (smallPmm, ⟨4096, 8⟩) ∧
      InitialMap smallMap ⟨4096, 8⟩ smallPmm := by
  have ok : PMM.init 0xffff800000000000 (fun _ => 0#64) smallMap = some (smallPmm, ⟨4096, 8⟩) := rfl
  exact ⟨ok, (initialFreeMap 0xffff800000000000 (fun _ => 0#64) smallMap smallMapFormed
    (by decide) (by decide)).2 smallPmm ⟨4096, 8⟩ ok⟩

/- Without memory, frame 0 is counted although it does not exist; from 2^63 bytes on, the
counter stands for frames that were never marked. -/
theorem initialMapFails :
    (WellFormed zeroMap ∧ ∃ p bitmap,
      PMM.init 0xffff800000000000 (fun _ => 0#64) zeroMap = some (p, bitmap) ∧
        ¬ InitialMap zeroMap bitmap p) ∧
    WellFormed hugeMap ∧ ∃ p bitmap,
      PMM.init 0xffff800000000000 (fun _ => 0#64) hugeMap = some (p, bitmap) ∧
        ¬ InitialMap hugeMap bitmap p := by
  refine ⟨⟨⟨by decide, by decide, by decide, ⟨0, 0⟩, by decide, by decide⟩, _, _, rfl, ?_⟩,
    hugeMapFormed, ?_⟩
  · intro initial
    have counted := initial.counted
    contradiction
  · obtain ⟨p, bitmap, ok⟩ := initReturns 0xffff800000000000 (fun _ => 0#64)
      hugeMapFormed (by decide)
    refine ⟨p, bitmap, ok, ?_⟩
    intro initial
    have counted := initial.counted
    rw [countInitially initial.free, ← PMM.balancedIff] at counted
    have drift := hugeDrift ok
    rw [counted] at drift
    omega

end DimOS.Memory.Pmm
