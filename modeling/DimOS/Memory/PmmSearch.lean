import Mathlib
import DimOS.Memory.PmmRuns

/-! The search for n frames in a row and the guards of allocNFrames in front of it. The
search runs over whole words, so over bits past frameCnt that init never writes; the guards
compare n with the frames the counter leaves and with the number of words. -/
namespace DimOS.Memory.Pmm
open Lib.WordBits
open Lib.Count
open Lib.Transition (run Guarded)

/-- firstNFreeFrames returns the lowest run of n clear bits in the words of the bitmap, and
fails only when there is none. -/
theorem firstNFreeFramesLowest (p : PMM) (n : Nat) (small : n ≤ p.elementCnt) :
    (∀ s, p.firstNFreeFrames n = some s ↔
      s + n ≤ 64 * p.elementCnt ∧ p.FreeRun s n ∧ ∀ t, t < s → ¬ p.FreeRun t n) ∧
    (p.firstNFreeFrames n = none ↔ ¬ ∃ s, s + n ≤ 64 * p.elementCnt ∧ p.FreeRun s n) := by
  have search := PMM.firstNFreeFramesSearch small
  rw [Nat.mul_comm] at search
  cases found : p.firstNFreeFrames n with
  | none =>
    rw [found] at search
    refine ⟨?_, ?_⟩
    · intro s
      constructor
      · intro wrong
        contradiction
      · rintro ⟨inside, clear, -⟩
        exact absurd clear (search s inside)
    · simp only [true_iff]
      rintro ⟨s, inside, clear⟩
      exact search s inside clear
  | some f =>
    rw [found] at search
    obtain ⟨inside, clear, lowest⟩ := search
    refine ⟨?_, ?_⟩
    · intro s
      constructor
      · intro same
        cases Option.some.inj same
        exact ⟨inside, clear, lowest⟩
      · rintro ⟨-, clear', lowest'⟩
        rcases Nat.lt_trichotomy f s with below | same | above
        · exact absurd clear (lowest' f below)
        · rw [same]
        · exact absurd clear' (lowest s above)
    · constructor
      · intro wrong
        contradiction
      · intro missing
        exact absurd ⟨f, inside, clear⟩ missing

/- One word whose lowest clear bits are 1 and 2, with bit 0 and the bits from 3 on set. -/
def twoClear : PMM := ⟨0, 0, 128, fun _ => ~~~ 6#64⟩

theorem firstNFreeFramesLowestTwo : 2 ≤ twoClear.elementCnt ∧
    (∀ s, twoClear.firstNFreeFrames 2 = some s ↔
      s + 2 ≤ 64 * twoClear.elementCnt ∧ twoClear.FreeRun s 2 ∧
        ∀ t, t < s → ¬ twoClear.FreeRun t 2) ∧
    twoClear.firstNFreeFrames 2 = some 1 := by
  refine ⟨by decide, (firstNFreeFramesLowest twoClear 2 (by decide)).1, by decide +kernel⟩

namespace PMM

def Admits (p : PMM) (n : Nat) : Prop := p.usedframes + n < p.frameCnt ∧ n ≤ p.elementCnt

theorem allocNFramesAdmitted {p : PMM} {n : Nat} (admits : p.Admits n) :
    p.allocNFrames n =
      match p.firstNFreeFrames n with
      | none => (p, 0)
      | some f => (takeFrames n f p, f * frameSize) := by
  unfold allocNFrames
  refine (if_neg (not_le.mpr admits.1)).trans ?_
  cases p.firstNFreeFrames n <;> rfl

theorem allocNFramesRefused {p : PMM} {n : Nat} (refused : ¬ p.Admits n) :
    p.allocNFrames n = (p, 0) := by
  unfold allocNFrames
  by_cases full : p.usedframes + n ≥ p.frameCnt
  · rw [if_pos full]
  · have long : n > p.elementCnt := by
      unfold Admits at refused
      omega
    have none : p.firstNFreeFrames n = none := by
      unfold firstNFreeFrames
      rw [if_pos long]
    rw [if_neg full, none]

/- The request passes the guards, no n frames in a row are free, and n bits in a row are
clear when those past frameCnt are counted. -/
structure Spills (p : PMM) (n : Nat) : Prop where
  admits : p.Admits n
  scattered : ∀ f, f + n ≤ p.frameCnt → ¬ p.FreeRun f n
  tail : ∃ f, p.frameCnt < f + n ∧ f + n ≤ p.elementCnt * 64 ∧ p.FreeRun f n

def Inside (p : PMM) (addr n : Nat) : Prop :=
  addr % frameSize = 0 ∧ ∀ k, k < n → addr / frameSize + k < p.frameCnt

theorem insideIff {p : PMM} {f n : Nat} (positive : 1 ≤ n) :
    p.Inside (f * frameSize) n ↔ f + n ≤ p.frameCnt := by
  have number : f * frameSize / frameSize = f := Nat.mul_div_cancel f (by unfold frameSize; omega)
  unfold Inside
  rw [number, Nat.mul_mod_left]
  constructor
  · rintro ⟨-, below⟩
    have last := below (n - 1) (by omega)
    omega
  · intro room
    exact ⟨rfl, fun k small => by omega⟩

theorem allocNFramesInsideIff (p : PMM) {n : Nat} (positive : 1 ≤ n) :
    ((p.allocNFrames n).2 ≠ 0 → p.Inside (p.allocNFrames n).2 n) ↔ ¬ p.Spills n := by
  by_cases admits : p.Admits n
  · have search := firstNFreeFramesSearch admits.2
    rw [allocNFramesAdmitted admits]
    cases found : p.firstNFreeFrames n with
    | none =>
      rw [found] at search
      simp only [ne_eq, not_true_eq_false, false_implies, true_iff]
      rintro ⟨-, -, f, -, inside, clear⟩
      exact search f inside clear
    | some f =>
      rw [found] at search
      obtain ⟨inside, clear, lowest⟩ := search
      simp only [insideIff positive]
      constructor
      · rintro room ⟨-, scattered, g, past, -, clear'⟩
        by_cases first : f = 0
        · -- a run at frame 0 counts as a failure, but n words hold at least n frames
          have words := admits.2
          unfold elementCnt framesPerElement at words
          exact scattered f (by omega) clear
        · exact scattered f (room (by unfold frameSize; omega)) clear
      · intro fits nonzero
        by_contra past
        refine fits ⟨admits, ?_, f, by omega, inside, clear⟩
        intro g low clear'
        exact lowest g (by omega) clear'
  · rw [allocNFramesRefused admits]
    simp only [ne_eq, not_true_eq_false, false_implies, true_iff]
    intro spills
    exact admits spills.admits

theorem markRegionFrameCnt (value : Bool) (p : PMM) (start size : Nat) :
    (p.markRegion value start size).frameCnt = p.frameCnt := (markFramesSpec value _ _ p).2.1

theorem initRegionsFrameCnt (ranges : List MemRange) (p : PMM) :
    (p.initRegions ranges).frameCnt = p.frameCnt := by
  induction ranges generalizing p with
  | nil => rfl
  | cons r ranges ih => exact (ih _).trans (markRegionFrameCnt false p r.start r.size)

theorem deinitRegionFrameCnt (p : PMM) (start size : Nat) :
    (p.deinitRegion start size).frameCnt = p.frameCnt := markRegionFrameCnt true p start size

theorem deinitFirst (p : PMM) : (p.deinitRegion 0 frameSize).used 0 = true := by
  obtain ⟨bits, -⟩ := markRegionSpec true p (show 0 % 4096 = 0 by rfl)
    (show 0 + 4096 < 2 ^ 63 by omega)
  have first : Within 0 4096 0 := by
    unfold Within
    omega
  exact (bits 0).trans (if_pos first)

theorem setupFirst (p : PMM) (mem : PhysicalMemMap) (r : MemRange) :
    (p.setup mem r).used 0 = true ∧ (p.setup mem r).frameCnt = p.frameCnt := by
  unfold setup
  refine ⟨deinitFirst _, ?_⟩
  rw [deinitRegionFrameCnt, deinitRegionFrameCnt, initRegionsFrameCnt, countAllFrameCnt,
    deinitRegionFrameCnt]

structure Allocates (p : PMM) (out : PMM × Nat) : Prop where
  frames : out.1.frameCnt = p.frameCnt
  keeps : ∀ f, p.used f = true → out.1.used f = true
  aligned : out.2 % frameSize = 0

theorem Allocates.refl (p : PMM) : p.Allocates (p, 0) := ⟨rfl, fun _ taken => taken, rfl⟩

theorem allocFrameAllocates (p : PMM) : p.Allocates p.allocFrame := by
  unfold allocFrame
  by_cases full : p.usedframes = p.frameCnt
  · rw [if_pos full]
    exact .refl p
  · rw [if_neg full]
    cases p.firstFreeFrame with
    | none => exact .refl p
    | some g =>
      refine ⟨rfl, fun f taken => ?_, Nat.mul_mod_left g frameSize⟩
      exact (setUsed p g f).trans (by rw [taken, ite_self])

theorem allocNFramesAllocates (p : PMM) (n : Nat) : p.Allocates (p.allocNFrames n) := by
  rcases p.allocNFramesCases n with same | ⟨g, made, -, clear⟩
  · rw [same]
    exact .refl p
  · obtain ⟨bits, frames, -⟩ := takeFramesSpec clear
    rw [made]
    refine ⟨frames, fun f taken => ?_, Nat.mul_mod_left g frameSize⟩
    rw [bits f, taken, ite_self]

theorem freeFrameKeeps (p : PMM) (addr : Nat) : (p.freeFrame addr).frameCnt = p.frameCnt ∧
    ∀ f, f ≠ addr / frameSize → (p.freeFrame addr).used f = p.used f := by
  unfold freeFrame
  simp only
  split
  · exact ⟨rfl, fun f _ => rfl⟩
  · refine ⟨rfl, fun f other => ?_⟩
    exact (unsetUsed p (addr / frameSize) f).trans (if_neg other)

end PMM

/- The callers: n is at least 1, and only what was handed out is freed. -/
def Called (s : State) : Op → Prop
  | .allocFrame => True
  | .allocNFrames n => 1 ≤ n
  | .freeFrame addr => addr % frameSize = 0 ∧ addr / frameSize ∈ s.outstanding

instance (s : State) : (op : Op) → Decidable (Called s op)
  | .allocFrame => inferInstanceAs (Decidable True)
  | .allocNFrames n => inferInstanceAs (Decidable (1 ≤ n))
  | .freeFrame addr =>
    inferInstanceAs (Decidable (addr % frameSize = 0 ∧ addr / frameSize ∈ s.outstanding))

theorem runTotal (s : State) (ops : List Op) : ∃ t, run step s ops = some t := by
  induction ops generalizing s with
  | nil => exact ⟨s, rfl⟩
  | cons op ops ih =>
    obtain ⟨mid, taken⟩ := stepTotal s op
    obtain ⟨t, reached⟩ := ih mid
    exact ⟨t, by rw [run, taken, Option.bind_some, reached]⟩

theorem stepFrameCnt {s t : State} {op : Op} (ok : step s op = some t) :
    t.pmm.frameCnt = s.pmm.frameCnt := by
  cases op with
  | allocFrame =>
    cases Option.some.inj ok
    exact s.pmm.allocFrameAllocates.frames
  | allocNFrames n =>
    cases Option.some.inj ok
    exact (s.pmm.allocNFramesAllocates n).frames
  | freeFrame addr =>
    cases Option.some.inj ok
    exact (s.pmm.freeFrameKeeps addr).1

/- Frame 0 is used and nobody holds it, so an address 0 always is a failure. -/
structure Anchored (s : State) : Prop where
  used : s.pmm.used 0 = true
  held : 0 ∉ s.outstanding

theorem Anchored.allocated {s : State} (h : Anchored s) {out : PMM × Nat}
    (made : s.pmm.Allocates out) {held : List Nat}
    (taken : ∀ f ∈ held, f ∈ s.outstanding ∨ out.2 ≠ 0 ∧ out.2 / frameSize ≤ f) :
    Anchored ⟨out.1, held⟩ := by
  refine ⟨made.keeps 0 h.used, ?_⟩
  intro first
  rcases taken 0 first with old | ⟨nonzero, low⟩
  · exact h.held old
  · have aligned := made.aligned
    unfold frameSize at aligned low
    omega

theorem stepAnchored {s t : State} {op : Op} (h : Anchored s) (called : Called s op)
    (ok : step s op = some t) : Anchored t := by
  cases op with
  | allocFrame =>
    simp only [step, Option.some.injEq] at ok
    subst ok
    refine h.allocated s.pmm.allocFrameAllocates ?_
    generalize s.pmm.allocFrame = out
    intro f mem
    split at mem
    · exact .inl mem
    · next nonzero =>
      rcases List.mem_cons.mp mem with rfl | old
      · exact .inr ⟨nonzero, Nat.le_refl _⟩
      · exact .inl old
  | allocNFrames n =>
    simp only [step, Option.some.injEq] at ok
    subst ok
    refine h.allocated (s.pmm.allocNFramesAllocates n) ?_
    generalize s.pmm.allocNFrames n = out
    intro f mem
    split at mem
    · exact .inl mem
    · next nonzero =>
      rcases List.mem_append.mp mem with new | old
      · obtain ⟨k, -, rfl⟩ := List.mem_map.mp new
        exact .inr ⟨nonzero, Nat.le_add_right _ _⟩
      · exact .inl old
  | freeFrame addr =>
    cases Option.some.inj ok
    obtain ⟨-, held⟩ := called
    have other : 0 ≠ addr / frameSize := fun same => h.held (by rw [same]; exact held)
    refine ⟨((s.pmm.freeFrameKeeps addr).2 0 other).trans h.used, ?_⟩
    exact fun mem => h.held (List.mem_of_mem_erase mem)

section
variable {HHDMOffset : Nat} {prior : Words} {mem : PhysicalMemMap} {p : PMM} {bitmap : MemRange}
  {ops : List Op} {s : State}

/-- After init and any run, whatever stood in the bitmap memory before: allocNFrames hands out
frames past frameCnt exactly when the request spills. -/
theorem allocNFramesInMemory (ok : PMM.init HHDMOffset prior mem = some (p, bitmap))
    (reached : run step ⟨p, []⟩ ops = some s) (n : Nat) (positive : 1 ≤ n) :
    s.pmm.frameCnt = mem.totalSize / frameSize ∧
      (((s.pmm.allocNFrames n).2 ≠ 0 → s.pmm.Inside (s.pmm.allocNFrames n).2 n) ↔
        ¬ s.pmm.Spills n) := by
  refine ⟨?_, s.pmm.allocNFramesInsideIff positive⟩
  obtain ⟨r, -, -, -, made⟩ := initCases ok
  have start : p.frameCnt = mem.totalSize / frameSize := by
    rw [made]
    exact (PMM.setupFirst _ mem bitmap).2
  exact Lib.Transition.invariantRunAll (fun s => s.pmm.frameCnt = mem.totalSize / frameSize)
    (fun a op b same taken => (stepFrameCnt taken).trans same) start reached

/- Seventy frames, of which 65, 67 and 69 are free once frame 63 holds the bitmap. -/
def scatteredMap : PhysicalMemMap :=
  ⟨286720, [⟨258048, 4096⟩, ⟨266240, 4096⟩, ⟨274432, 4096⟩, ⟨282624, 4096⟩], 0, 0⟩

theorem scatteredMapFormed : WellFormed scatteredMap := by
  refine ⟨by decide, by decide, by decide, ⟨258048, 4096⟩, by decide, by decide⟩

def scatteredPmm (prior : Words) : PMM :=
  PMM.setup ⟨286720, 0, 70, prior⟩ scatteredMap ⟨258048, 16⟩

/- With clear bits past frameCnt the two frames from 69 on are handed out. -/
theorem allocNFramesPastEnd :
    WellFormed scatteredMap ∧
      PMM.init 0xffff800000000000 (fun _ => 0#64) scatteredMap =
        some (scatteredPmm (fun _ => 0#64), ⟨258048, 16⟩) ∧
      ((scatteredPmm (fun _ => 0#64)).allocNFrames 2).2 ≠ 0 ∧
      ¬ (scatteredPmm (fun _ => 0#64)).Inside ((scatteredPmm (fun _ => 0#64)).allocNFrames 2).2 2 := by
  have addr : ((scatteredPmm (fun _ => 0#64)).allocNFrames 2).2 = 69 * frameSize := by
    decide +kernel
  refine ⟨scatteredMapFormed, rfl, by rw [addr]; decide, ?_⟩
  rw [addr, PMM.insideIff (by decide)]
  decide +kernel

theorem allocNFramesInMemoryOne : ∃ s,
    run step ⟨scatteredPmm (fun _ => 0#64), []⟩ [.allocFrame, .allocNFrames 1] = some s ∧
      s.pmm.frameCnt = 286720 / frameSize ∧
      (((s.pmm.allocNFrames 1).2 ≠ 0 → s.pmm.Inside (s.pmm.allocNFrames 1).2 1) ↔
        ¬ s.pmm.Spills 1) := by
  have ok : PMM.init 0xffff800000000000 (fun _ => 0#64) scatteredMap =
      some (scatteredPmm (fun _ => 0#64), ⟨258048, 16⟩) := rfl
  obtain ⟨s, reached⟩ := runTotal ⟨scatteredPmm (fun _ => 0#64), []⟩ [.allocFrame, .allocNFrames 1]
  exact ⟨s, reached, allocNFramesInMemory ok reached 1 (by decide)⟩

/-- After init and any run of its callers: when n frames in a row are free, allocNFrames finds
them exactly when the counter leaves more than n frames and n is at most the number of
bitmap words. -/
theorem allocNFramesFinds (ok : PMM.init HHDMOffset prior mem = some (p, bitmap))
    (called : Guarded step Called ⟨p, []⟩ ops) (reached : run step ⟨p, []⟩ ops = some s)
    (n : Nat) (positive : 1 ≤ n) (free : ∃ f, f + n ≤ s.pmm.frameCnt ∧ s.pmm.FreeRun f n) :
    (s.pmm.allocNFrames n).2 ≠ 0 ↔
      s.pmm.usedframes + n < s.pmm.frameCnt ∧ n ≤ s.pmm.elementCnt := by
  obtain ⟨r, -, -, -, made⟩ := initCases ok
  have start : Anchored ⟨p, []⟩ := by
    refine ⟨?_, List.not_mem_nil⟩
    rw [made]
    exact (PMM.setupFirst _ mem bitmap).1
  have anchored := Lib.Transition.invariantRun Anchored
    (fun a op b h granted taken => stepAnchored h granted taken) start called reached
  obtain ⟨f, room, clear⟩ := free
  by_cases admits : s.pmm.Admits n
  · refine iff_of_true ?_ admits
    have search := PMM.firstNFreeFramesSearch admits.2
    rw [PMM.allocNFramesAdmitted admits]
    cases found : s.pmm.firstNFreeFrames n with
    | none =>
      rw [found] at search
      have whole := s.pmm.frameCntLe
      exact absurd clear (search f (by omega))
    | some g =>
      rw [found] at search
      obtain ⟨-, clear', -⟩ := search
      have first := clear' 0 (by omega)
      rw [PMM.isSetUsed, Nat.add_zero] at first
      have positive' : g ≠ 0 := by
        rintro rfl
        rw [anchored.used] at first
        contradiction
      simp only [frameSize]
      omega
  · refine iff_of_false ?_ admits
    rw [PMM.allocNFramesRefused admits]
    exact fun wrong => wrong rfl

/- Eight frames, of which 2, 3 and 4 are free once frame 1 holds the bitmap. -/
def eightMap : PhysicalMemMap := ⟨32768, [⟨4096, 4096⟩, ⟨8192, 12288⟩], 0, 0⟩

def eightPmm : PMM := PMM.setup ⟨32768, 0, 8, fun _ => 0#64⟩ eightMap ⟨4096, 8⟩

instance (p : PMM) (s n : Nat) : Decidable (p.FreeRun s n) :=
  inferInstanceAs (Decidable (∀ k, k < n → p.bitmapIsSet (s + k) = false))

def eightState : State := ⟨eightPmm, []⟩

theorem allocNFramesFindsOne : (eightState.pmm.allocNFrames 1).2 ≠ 0 ↔
    eightState.pmm.usedframes + (1 : Nat) < eightState.pmm.frameCnt ∧
      1 ≤ eightState.pmm.elementCnt := by
  have ok : PMM.init 0xffff800000000000 (fun _ => 0#64) eightMap = some (eightPmm, ⟨4096, 8⟩) := rfl
  have start : run step ⟨eightPmm, []⟩ [] = some eightState := rfl
  have free : ∃ f, f + 1 ≤ eightState.pmm.frameCnt ∧ eightState.pmm.FreeRun f 1 :=
    ⟨2, by decide +kernel, by decide +kernel⟩
  exact allocNFramesFinds ok (Lib.Transition.guardedNil step Called _) start 1 (by decide) free

/- Three free frames in a row: two are refused because the bitmap has one word, three because
none would be left. -/
theorem allocNFramesRefusesFree :
    PMM.init 0xffff800000000000 (fun _ => 0#64) eightMap = some (eightPmm, ⟨4096, 8⟩) ∧
      eightPmm.frameCnt = 8 ∧ eightPmm.FreeRun 2 3 ∧ (eightPmm.allocNFrames 2).2 = 0 ∧
      (eightPmm.allocNFrames 3).2 = 0 := by
  refine ⟨rfl, by decide +kernel, by decide +kernel, by decide +kernel, by decide +kernel⟩

end

end DimOS.Memory.Pmm
