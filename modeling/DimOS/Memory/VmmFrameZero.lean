import Mathlib
import DimOS.Memory.VmmLevels

/-! Physical address 0 as an answer. PMM::allocNFrames returns it when it refuses, and a growth takes
it for the address of its new table; an entry that maps nothing holds it too, and freePage frees the
frame behind it. As long as neither happens every table has its two frames to itself. -/
namespace DimOS.Memory.Vmm
open Pmm
open Paging
open Paging.IndexOffset (getIndexOffset)
open Lib.PathTree
open Lib.Transition

namespace VMM

/-- Whenever a table is missing and PMM::allocNFrames answers 0, the growth turns frame 0 into an empty
table, whatever was there, and makes the entry present with physical address 0. -/
theorem refusedGrowth (HHDMOffset fuel : Nat) {v : VMM} {t i : Nat} (level : Nat) (original : IndexOffset)
    (missing : ((v.mem t).entries i).isPresent = false) (refused : (v.pmm.allocNFrames 2).2 = 0) (inner : t ≠ 0) :
    ∃ v', enter HHDMOffset (placeOf HHDMOffset fuel .USE_PMM) v t i level original = some (v', some 0) ∧
      ((v'.mem t).entries i).isPresent = true ∧ ((v'.mem t).entries i).getPhysicalAddr = 0 ∧
      (v'.mem t).nextTables i = some 0 ∧ v'.mem 0 = Table.init (level + 1) := by
  have paddr : v.takeTableFrames.2 = 0 := refused
  have memory := addTableMem HHDMOffset v.takeTableFrames.1 i level original inner
  refine ⟨v.takeTableFrames.1.addTable HHDMOffset t i level original 0, ?_, ?_, ?_, ?_, ?_⟩
  · simp only [enter, missing, Bool.false_eq_true, if_false, placeOf]
    rw [← paddr]
  · rw [memory, if_pos rfl, Table.setNextEntries, Table.setEntryAt, if_pos rfl, Entry.mapToPresent]
  · rw [memory, if_pos rfl, Table.setNextEntries, Table.setEntryAt, if_pos rfl, Entry.mapToPhysical]
    decide
  · rw [memory, if_pos rfl, Table.setNextAt, if_pos rfl]
  · rw [memory, if_neg (Ne.symm inner), if_pos rfl]

/- No two tables of the tree share a frame, and none is in frame 0. -/
structure FramesSound (v : VMM) : Prop where
  apart : ∀ d t e u, v.follow d = some t → v.follow e = some u → d ≠ e → FramesApart t u
  nonzero : ∀ d t, v.follow d = some t → t ≠ 0

theorem WellTagged.sound {v : VMM} (tagged : WellTagged v) (reserved : Reserved v) : FramesSound v := by
  refine ⟨fun d t e u atD atE differ => ?_, fun d t atD zero => ?_⟩
  · exact tagged.apart d t e u (followTableAt atD) (followTableAt atE) differ
  · rw [zero] at atD
    exact reserved.2 d (followTableAt atD)

theorem bareReserved {contents : Nat → Table} {pmm : PMM} (served : (bare contents pmm).refused = 0)
    (zero : pmm.used 0 = true) : Reserved (bare contents pmm) := by
  rcases PMM.allocNFramesCases pmm 2 with refusal | ⟨f, made, -, clear⟩
  · have : (bare contents pmm).refused = 1 := by
      show ((pmm.allocNFrames 2).1.usedframes == pmm.usedframes).toNat = 1
      rw [refusal]
      simp
    omega
  · have root : (bare contents pmm).pml4 = f * frameSize := congrArg Prod.snd made
    have frames : (bare contents pmm).pmm = PMM.takeFrames 2 f pmm := congrArg Prod.fst made
    refine ⟨?_, fun q found => ?_⟩
    · rw [frames, (PMM.takeFramesSpec clear).1, zero]
      split <;> rfl
    · have first : f = 0 := by
        have at' := (bareTables found).2
        rw [root] at at'
        unfold frameSize at at'
        omega
      have free := clear 0 (by omega)
      rw [first, Nat.add_zero, zero] at free
      contradiction

theorem freePageReserved {HHDMOffset : Nat} {v v' : VMM} {addr : Nat} (reserved : Reserved v)
    (ok : freePage HHDMOffset v addr = some v')
    (other : ∀ pte, v.getPTE (getIndexOffset addr) = some pte →
      (v.readEntry pte).getPhysicalAddr / frameSize ≠ 0) : Reserved v' := by
  simp only [freePage] at ok
  split at ok
  · contradiction
  · next pte found =>
    cases Option.some.inj ok
    rw [Reserved, tableAtCongr (addAvailableMem _ _ _) (addAvailableRoot _ _ _), (writeEntryTableAt _ _ _).2,
      addAvailablePmm, writeEntryPmm]
    exact ⟨freeFrameUsed v.pmm reserved.1 (other pte found), reserved.2⟩

end VMM

open VMM

/- What is asked of each call beside KeepsTables: it frees no page that has frame 0 behind it. -/
def KeepsFrames (HHDMOffset fuel : Nat) (v : VMM) (op : Op) : Prop :=
  KeepsTables HHDMOffset fuel v op ∧ ∀ addr, op = .freePage addr → ∀ pte, v.getPTE (getIndexOffset addr) = some pte →
    (v.readEntry pte).getPhysicalAddr / frameSize ≠ 0

theorem stepReserved {HHDMOffset fuel : Nat} {v v' : VMM} {op : Op} (tagged : WellTagged v) (reserved : Reserved v)
    (guard : KeepsFrames HHDMOffset fuel v op) (ok : step HHDMOffset fuel v op = some v') : Reserved v' := by
  have served := guard.1.2 v' ok
  cases op with
  | allocPage higherHalf =>
    simp only [step, allocPage] at ok
    obtain ⟨⟨v1, addr⟩, allocated, rfl⟩ := Option.map_eq_some_iff.mp ok
    exact (allocPagesTends allocated).spared served tagged reserved
  | allocNPages higherHalf n =>
    simp only [step, allocNPages] at ok
    obtain ⟨⟨v1, addr⟩, allocated, rfl⟩ := Option.map_eq_some_iff.mp ok
    exact (allocPagesTends allocated).spared served tagged reserved
  | freePage addr => exact freePageReserved reserved ok (guard.2 addr rfl)

/-- In every run from VMM::init on a PMM that keeps frame 0, in which the PMM refuses no frames for a
table and no page is freed whose frame is a table's or frame 0, or that is the first of its table: in
every state no two tables share a frame, and none is in frame 0. -/
theorem framesSound {HHDMOffset fuel : Nat} {contents : Nat → Table} {pmm : PMM} {mem : PhysicalMemMap}
    {otherRanges : List MemRange} {v₀ v : VMM} {ops : List Op} (zero : pmm.used 0 = true)
    (booted : VMM.init HHDMOffset fuel contents pmm mem otherRanges = some v₀) (served : v₀.refused = 0)
    (guarded : Guarded (step HHDMOffset fuel) (KeepsFrames HHDMOffset fuel) v₀ ops)
    (visited : Visits (step HHDMOffset fuel) v₀ ops v) : FramesSound v := by
  have whole := initTends booted
  have low := whole.refused
  have bareServed : (bare contents pmm).refused = 0 := by omega
  have start : WellTagged v₀ ∧ Reserved v₀ := ⟨(initKept booted served).1,
    whole.spared (by omega) (bareTagged bareServed) (bareReserved bareServed zero)⟩
  obtain ⟨tagged, reserved⟩ := invariantVisits (fun v => WellTagged v ∧ Reserved v)
    (fun _ _ _ good guard ok => ⟨stepTagged good.1 guard.1 ok, stepReserved good.1 good.2 guard ok⟩) start guarded visited
  exact tagged.sound reserved

theorem framesSoundBoot : ∃ v₀ v, smallBoot = some v₀ ∧
    run (step 0xffff800000000000 3000) v₀ [.allocNPages false 2, .allocPage true] = some v ∧ FramesSound v := by
  have calls : (smallBoot.bind fun v₀ => (step 0xffff800000000000 3000 v₀ (.allocNPages false 2)).bind fun v₁ =>
      (step 0xffff800000000000 3000 v₁ (.allocPage true)).map fun v₂ => (v₀.refused, v₁.refused, v₂.refused)) =
      some (0, 0, 0) := by decide +kernel
  obtain ⟨v₀, booted, calls⟩ := Option.bind_eq_some_iff.mp calls
  obtain ⟨v₁, first, calls⟩ := Option.bind_eq_some_iff.mp calls
  obtain ⟨v₂, second, facts⟩ := Option.map_eq_some_iff.mp calls
  simp only [Prod.mk.injEq] at facts
  obtain ⟨served, served₁, served₂⟩ := facts
  have last : run (step 0xffff800000000000 3000) v₀ [.allocNPages false 2, .allocPage true] = some v₂ := by
    simp only [run, first, second, Option.bind_some]
  refine ⟨v₀, v₂, booted, last, framesSound (by decide +kernel) booted served ?_ ⟨_, [], rfl, last⟩⟩
  refine guardedConsIff.mpr ⟨⟨⟨fun _ free => (by cases free), fun v ok => ?_⟩, fun _ free => (by cases free)⟩,
    fun v ok => ?_⟩
  · cases Option.some.inj (first.symm.trans ok)
    omega
  · cases Option.some.inj (first.symm.trans ok)
    refine guardedConsIff.mpr ⟨⟨⟨fun _ free => (by cases free), fun v ok => ?_⟩, fun _ free => (by cases free)⟩,
      fun v _ => guardedNil _ _ v⟩
    cases Option.some.inj (second.symm.trans ok)
    omega

/- A machine of 128 frames, of which 2 to 18 and 100 can be had: enough for eight tables. -/
def tinyMap : PhysicalMemMap := ⟨2 ^ 19, [⟨4096, 18 * 4096⟩, ⟨100 * 4096, 4096⟩], 64 * 4096, 4096⟩

def tinyBoot : Option VMM :=
  (PMM.init 0xffff800000000000 (fun _ => 0#64) tinyMap).bind fun r =>
    VMM.init 0xffff800000000000 3000 blank r.1 tinyMap [r.2]

/- The last two tables of its boot are refused: both are put into frame 0, the second over the first,
and two places of the tree are one table. -/
theorem refusedTablesShare : ∃ v₀, tinyBoot = some v₀ ∧ v₀.refused = 2 ∧ v₀.follow [256, 0] = some 0 ∧
    v₀.follow [256, 0, 0] = some 0 ∧
    (v₀.leaf [256] 0).map (fun e => (e.isPresent, e.getPhysicalAddr)) = some (true, 0) ∧ ¬ FramesSound v₀ := by
  have calls : tinyBoot.map (fun v => (v.refused, v.follow [256, 0], v.follow [256, 0, 0],
      (v.leaf [256] 0).map (fun e => (e.isPresent, e.getPhysicalAddr)))) =
        some (2, some 0, some 0, some (true, 0)) := by decide +kernel
  obtain ⟨v₀, booted, facts⟩ := Option.map_eq_some_iff.mp calls
  simp only [Prod.mk.injEq] at facts
  obtain ⟨refused, upper, lower, entry⟩ := facts
  refine ⟨v₀, booted, refused, upper, lower, entry, fun sound => ?_⟩
  exact (sound.apart _ _ _ _ upper lower (by decide)).1 rfl

def Mapped (v : VMM) (addr : Nat) : Prop :=
  ∃ pte, v.getPTE (getIndexOffset addr) = some pte ∧ (v.readEntry pte).isPresent = true

def HarmlessFree (HHDMOffset : Nat) (v : VMM) (addr : Nat) : Prop :=
  ∃ v', v.freePage HHDMOffset addr = some v' ∧ v'.pmm = v.pmm ∧ v'.availablePagesLH = v.availablePagesLH ∧
    v'.availablePagesHH = v.availablePagesHH

theorem addAvailableSum (v : VMM) (higherHalf : Bool) (pages : Int) :
    (v.addAvailable higherHalf pages).availablePagesLH + (v.addAvailable higherHalf pages).availablePagesHH =
      v.availablePagesLH + v.availablePagesHH + pages := by
  cases higherHalf with
  | true =>
    show v.availablePagesLH + (v.availablePagesHH + pages) = _
    omega
  | false =>
    show v.availablePagesLH + pages + v.availablePagesHH = _
    omega

theorem freePageCases (HHDMOffset : Nat) (v : VMM) (addr : Nat) :
    (v.getPTE (getIndexOffset addr) = none ∧ v.freePage HHDMOffset addr = none) ∨
      ∃ pte v', v.getPTE (getIndexOffset addr) = some pte ∧ v.freePage HHDMOffset addr = some v' ∧
        v'.pmm = v.pmm.freeFrame (v.readEntry pte).getPhysicalAddr ∧
        v'.availablePagesLH + v'.availablePagesHH = v.availablePagesLH + v.availablePagesHH + 1 := by
  cases found : v.getPTE (getIndexOffset addr) with
  | none =>
    refine .inl ⟨rfl, ?_⟩
    simp only [freePage, found]
  | some pte =>
    refine .inr ⟨pte, _, rfl, (by simp only [freePage, found]; rfl), ?_, ?_⟩
    · rw [addAvailablePmm, writeEntryPmm]
    · rw [addAvailableSum]
      rfl

/-- freePage of a page that is not mapped is never harmless: it follows a null table, or it gives back
the frame whose number the unused entry holds and counts a page that nobody had. -/
theorem freeUnmappedHarms (HHDMOffset : Nat) {v : VMM} {addr : Nat} (unmapped : ¬ Mapped v addr) :
    ¬ HarmlessFree HHDMOffset v addr ∧
      (v.freePage HHDMOffset addr = none ∨
        ∃ pte v', (v.readEntry pte).isPresent = false ∧ v.freePage HHDMOffset addr = some v' ∧
          v'.pmm = v.pmm.freeFrame (v.readEntry pte).getPhysicalAddr ∧
          v'.availablePagesLH + v'.availablePagesHH = v.availablePagesLH + v.availablePagesHH + 1) := by
  rcases freePageCases HHDMOffset v addr with ⟨-, stuck⟩ | ⟨pte, v', found, freed, frames, counted⟩
  · refine ⟨?_, .inl stuck⟩
    rintro ⟨v', freed, -⟩
    rw [stuck] at freed
    contradiction
  · refine ⟨?_, .inr ⟨pte, v', ?_, freed, frames, counted⟩⟩
    · rintro ⟨v'', freed', -, lower, higher⟩
      rw [freed] at freed'
      cases Option.some.inj freed'
      omega
    · by_contra present
      exact unmapped ⟨pte, found, Bool.eq_true_of_not_eq_false present⟩

/- A page behind the mapped ones of the small machine is freed: frame 0 is free afterwards, and the
next allocFrame hands it out, with the answer 0. -/
theorem freeUnmappedFrameZero : ∃ v₀ v, smallBoot = some v₀ ∧ ¬ Mapped v₀ 0xffff800000016000 ∧
    v₀.freePage 0xffff800000000000 0xffff800000016000 = some v ∧ ¬ HarmlessFree 0xffff800000000000 v₀ 0xffff800000016000 ∧
    v₀.pmm.used 0 = true ∧ v.pmm.used 0 = false ∧ v.availablePagesHH = v₀.availablePagesHH + 1 ∧
    v.pmm.allocFrame.2 = 0 := by
  have calls : (smallBoot.bind fun v₀ => (v₀.freePage 0xffff800000000000 0xffff800000016000).map fun v =>
      (v₀.pmm.used 0, v.pmm.used 0, v.availablePagesHH - v₀.availablePagesHH, v.pmm.allocFrame.2,
        (v₀.getPTE (getIndexOffset 0xffff800000016000)).map fun pte => (v₀.readEntry pte).isPresent)) =
      some (true, false, 1, 0, some false) := by decide +kernel
  obtain ⟨v₀, booted, calls⟩ := Option.bind_eq_some_iff.mp calls
  obtain ⟨v, freed, facts⟩ := Option.map_eq_some_iff.mp calls
  simp only [Prod.mk.injEq] at facts
  obtain ⟨taken, free, counted, zero, entry⟩ := facts
  have unmapped : ¬ Mapped v₀ 0xffff800000016000 := by
    rintro ⟨pte, found, present⟩
    rw [found, Option.map_some, present] at entry
    exact absurd entry (by decide)
  refine ⟨v₀, v, booted, unmapped, freed, ?_, taken, free, by omega, zero⟩
  rintro ⟨v', freed', same, -⟩
  rw [freed] at freed'
  rw [← Option.some.inj freed'] at same
  rw [same, taken] at free
  exact absurd free (by decide)

theorem freeUnmappedNull : ∃ v₀, smallBoot = some v₀ ∧ ¬ HarmlessFree 0xffff800000000000 v₀ 0x0000400000000000 := by
  have calls : smallBoot.map (fun v => (v.getPTE (getIndexOffset 0x0000400000000000)).isNone) = some true := by
    decide +kernel
  obtain ⟨v₀, booted, stuck⟩ := Option.map_eq_some_iff.mp calls
  refine ⟨v₀, booted, (freeUnmappedHarms 0xffff800000000000 ?_).1⟩
  rintro ⟨pte, found, -⟩
  rw [found] at stuck
  exact Bool.false_ne_true stuck

end DimOS.Memory.Vmm
