import Mathlib
import DimOS.Lib.Transition
import DimOS.Memory.VmmPages

/-! The level tags over whole runs. A call that maps pages keeps them, since no mapping touches
bits 9 and 10 of the entry it writes. freePage writes a whole entry: at index 0 it wipes the
level of its table, and a frame of a table that it frees may become another table. -/
namespace DimOS.Memory.Vmm
open Pmm
open Paging
open Paging.IndexOffset (getIndexOffset)
open Lib.PathTree
open Lib.Transition

namespace VMM

def presentEdges (v : VMM) : Edges Nat Nat := fun t i =>
  if ((v.mem t).entries i).isPresent then (v.mem t).nextTables i else none

def follow (v : VMM) (d : List Nat) : Option Nat := walk v.presentEdges v.pml4 d

def TagsAgree (v : VMM) : Prop :=
  ∀ d t, v.follow d = some t → (v.mem t).getLevel = d.length

structure Takes (p p' : PMM) : Prop where
  frames : p'.frameCnt = p.frameCnt
  counted : p.Counted → p'.Counted

theorem Takes.refl (p : PMM) : Takes p p := ⟨rfl, fun counted => counted⟩

theorem Takes.trans {p p' p'' : PMM} (first : Takes p p') (second : Takes p' p'') : Takes p p'' :=
  ⟨second.frames.trans first.frames, fun counted => second.counted (first.counted counted)⟩

/- What every call that allocates keeps unless frames are refused on the way. -/
structure Tends (v v' : VMM) : Prop where
  refused : v.refused ≤ v'.refused
  kept : v'.refused = v.refused → WellTagged v → WellTagged v' ∧ Takes v.pmm v'.pmm
  spared : v'.refused = v.refused → WellTagged v → Reserved v → Reserved v'

theorem Tends.refl (v : VMM) : Tends v v :=
  ⟨Nat.le_refl _, fun _ tagged => ⟨tagged, Takes.refl _⟩, fun _ _ reserved => reserved⟩

theorem Tends.trans {v v' v'' : VMM} (first : Tends v v') (second : Tends v' v'') : Tends v v'' := by
  have low := first.refused
  have high := second.refused
  refine ⟨by omega, fun served tagged => ?_, fun served tagged reserved => ?_⟩
  · obtain ⟨tagged1, takes1⟩ := first.kept (by omega) tagged
    obtain ⟨tagged2, takes2⟩ := second.kept (by omega) tagged1
    exact ⟨tagged2, takes1.trans takes2⟩
  · exact second.spared (by omega) (first.kept (by omega) tagged).1 (first.spared (by omega) tagged reserved)

theorem followTableAt {v : VMM} {d : List Nat} {t : Nat} (found : v.follow d = some t) :
    v.tableAt d = some t := by
  unfold follow at found
  unfold tableAt
  generalize v.pml4 = root at found
  induction d generalizing root with
  | nil => exact found
  | cons i d ih =>
    obtain ⟨child, edge, rest⟩ := Option.bind_eq_some_iff.mp found
    unfold presentEdges at edge
    split at edge
    · exact Option.bind_eq_some_iff.mpr ⟨child, edge, ih child rest⟩
    · contradiction

theorem WellTagged.agree {v : VMM} (tagged : WellTagged v) : TagsAgree v :=
  fun d t found => tagged.tag d t (followTableAt found)

theorem allocFrameUsed (p : PMM) {f : Nat} (taken : p.used f = true) : p.allocFrame.1.used f = true := by
  unfold PMM.allocFrame
  split
  · exact taken
  · split
    · exact taken
    · next frame found =>
      show (p.bitmapSet frame).used f = true
      rw [PMM.setUsed, taken]
      split <;> rfl

theorem allocFrameTakes (p : PMM) : Takes p p.allocFrame.1 := by
  unfold PMM.allocFrame
  split
  · exact Takes.refl p
  · split
    · exact Takes.refl p
    · exact ⟨rfl, fun counted => PMM.countedSet counted _⟩

theorem assignTends {v : VMM} {c : IndexOffset} {pte : Nat × Nat} (found : v.getPTE c = some pte)
    (addr : Nat) (higherHalf : Bool) : Tends v (v.assignFrameToPage pte addr higherHalf) := by
  obtain ⟨t, there, rfl⟩ := getPTECases found
  rw [assignFrameToPageEq]
  refine ⟨by simp, fun _ tagged => ⟨?_, ?_⟩, fun _ _ reserved => ?_⟩
  · exact (mapPageTagged (i := c.i 3) tagged there rfl addr).frame (by simp) (by simp) (by simp)
  · rw [addAvailablePmm]
    exact Takes.refl _
  · rw [Reserved, tableAtCongr (addAvailableMem _ _ _) (addAvailableRoot _ _ _), mapPageTableAt, addAvailablePmm]
    exact reserved

theorem assignPagesTends {HHDMOffset left : Nat} {v v' : VMM} {c : IndexOffset}
    (ok : assignPages HHDMOffset left v c = some v') : Tends v v' := by
  induction left generalizing v c with
  | zero =>
    cases Option.some.inj ok
    exact Tends.refl _
  | succ left ih =>
    simp only [assignPages] at ok
    split at ok
    · contradiction
    · next pte found =>
      have framed : Tends v { v with pmm := v.pmm.allocFrame.1 } :=
        ⟨Nat.le_refl _, fun _ tagged => ⟨tagged.frame rfl rfl (fun f => allocFrameUsed v.pmm),
          allocFrameTakes v.pmm⟩, fun _ _ reserved => ⟨allocFrameUsed v.pmm reserved.1, reserved.2⟩⟩
      exact framed.trans ((assignTends found _ _).trans (ih ok))

theorem assignPagesTables {HHDMOffset left : Nat} {v v' : VMM} {c : IndexOffset}
    (ok : assignPages HHDMOffset left v c = some v') : v'.tableAt = v.tableAt := by
  induction left generalizing v c with
  | zero =>
    cases Option.some.inj ok
    rfl
  | succ left ih =>
    simp only [assignPages] at ok
    split at ok
    · contradiction
    · rw [ih ok, assignFrameToPageEq, tableAtCongr (addAvailableMem _ _ _) (addAvailableRoot _ _ _),
        mapPageTableAt]
      rfl

theorem searchPageTends {HHDMOffset fuel : Nat} {allocScheme : AllocScheme} {v v' : VMM}
    {begin_ c : IndexOffset} (normal : begin_.Normal)
    (ok : getFirstUnallocPage HHDMOffset fuel v begin_ allocScheme = some (v', c)) :
    Tends v v' := by
  have sound := soundPlace HHDMOffset fuel allocScheme
  refine ⟨searchPageRefused sound ok, fun served tagged => ?_, fun served tagged => ?_⟩
  · obtain ⟨tagged', grows, -, -⟩ := searchPageSpec sound ok served tagged normal
    exact ⟨tagged', grows.frames, grows.counted⟩
  · exact (searchPageSpec sound ok served tagged normal).2.1.reserved

theorem searchPagesTends {HHDMOffset fuel n : Nat} {allocScheme : AllocScheme} {v v' : VMM}
    {begin_ c : IndexOffset} (normal : begin_.Normal)
    (ok : getFirstNUnallocPage HHDMOffset fuel v begin_ allocScheme n = some (v', c)) : Tends v v' := by
  have sound := soundPlace HHDMOffset fuel allocScheme
  refine ⟨searchPagesRefused sound ok, fun served tagged => ?_, fun served tagged => ?_⟩
  · obtain ⟨tagged', grows, -⟩ := searchPagesGrows sound tagged normal ok served
    exact ⟨tagged', grows.frames, grows.counted⟩
  · exact (searchPagesGrows sound tagged normal ok served).2.1.reserved

theorem beginNormal (higherHalf : Bool) : (beginOffset higherHalf).Normal := by
  cases higherHalf
  · exact IndexOffset.normalMk (by decide) (by omega) (by omega) (by omega)
  · exact IndexOffset.normalMk (by decide) (by omega) (by omega) (by omega)

theorem ensurePagesTends {HHDMOffset fuel : Nat} {v v' : VMM} {higherHalf doMinCheck : Bool}
    {reqPages : Nat} (ok : ensurePages HHDMOffset fuel v higherHalf doMinCheck reqPages = some v') :
    Tends v v' := by
  simp only [ensurePages] at ok
  split at ok
  · obtain ⟨⟨v1, c⟩, searched, rfl⟩ := Option.map_eq_some_iff.mp ok
    exact searchPagesTends (beginNormal higherHalf) searched
  · cases Option.some.inj ok
    exact Tends.refl _

theorem takePagesTends {HHDMOffset fuel : Nat} {v v' : VMM} {higherHalf : Bool} {reqPages addr : Nat}
    (ok : takePages HHDMOffset fuel v higherHalf reqPages = some (v', addr)) : Tends v v' := by
  unfold takePages at ok
  split at ok
  · contradiction
  · split at ok
    · contradiction
    · next v1 c searched =>
      obtain ⟨v2, assigned, made⟩ := Option.map_eq_some_iff.mp ok
      cases made
      exact (searchPagesTends (beginNormal higherHalf) searched).trans (assignPagesTends assigned)

theorem takePagesTables {HHDMOffset fuel : Nat} {v v' : VMM} {higherHalf : Bool} {reqPages addr : Nat}
    (ok : takePages HHDMOffset fuel v higherHalf reqPages = some (v', addr)) : v'.tableAt = v.tableAt := by
  unfold takePages at ok
  split at ok
  · contradiction
  · split at ok
    · contradiction
    · next v1 c searched =>
      obtain ⟨v2, assigned, made⟩ := Option.map_eq_some_iff.mp ok
      cases made
      rw [assignPagesTables assigned, searchPagesStays searched]

theorem allocPagesTends {HHDMOffset fuel : Nat} {v v' : VMM} {higherHalf doMinCheck : Bool}
    {reqPages addr : Nat}
    (ok : allocPages HHDMOffset fuel v higherHalf doMinCheck reqPages = some (v', addr)) : Tends v v' := by
  obtain ⟨v1, ensured, taken⟩ := Option.bind_eq_some_iff.mp ok
  exact (ensurePagesTends ensured).trans (takePagesTends taken)

theorem mapKernelRefused {HHDMOffset fuel stop rounds : Nat} {v v' : VMM} {c : IndexOffset} {st : Nat}
    (ok : mapKernel HHDMOffset fuel stop rounds v c st = some v') : v.refused ≤ v'.refused := by
  induction rounds generalizing v c st with
  | zero => contradiction
  | succ rounds ih =>
    simp only [mapKernel] at ok
    split at ok
    · split at ok
      · contradiction
      · next v1 c1 searched =>
        split at ok
        · contradiction
        · next pte found =>
          have up := searchPageRefused (soundPlace HHDMOffset fuel .USE_PMM) searched
          exact up.trans ((assignTends found _ _).refused.trans (ih ok))
    · cases Option.some.inj ok
      exact Nat.le_refl _

theorem mapKernelTends {HHDMOffset fuel stop rounds : Nat} {v v' : VMM} {c : IndexOffset} {st : Nat}
    (normal : c.Normal) (ok : mapKernel HHDMOffset fuel stop rounds v c st = some v') : Tends v v' := by
  suffices whole : v'.refused = v.refused → WellTagged v →
      (WellTagged v' ∧ Takes v.pmm v'.pmm) ∧ (Reserved v → Reserved v') from
    ⟨mapKernelRefused ok, fun served tagged => (whole served tagged).1,
      fun served tagged => (whole served tagged).2⟩
  intro served tagged
  induction rounds generalizing v c st with
  | zero => contradiction
  | succ rounds ih =>
    simp only [mapKernel] at ok
    split at ok
    · split at ok
      · contradiction
      · next v1 c1 searched =>
        split at ok
        · contradiction
        · next pte found =>
          have sound := soundPlace HHDMOffset fuel .USE_PMM
          have up := searchPageRefused sound searched
          have assigned := assignTends found st true
          have up' := assigned.refused
          have up'' := mapKernelRefused ok
          obtain ⟨tagged1, grows1, normal1, -⟩ := searchPageSpec sound searched (by omega) tagged normal
          obtain ⟨tagged2, takes2⟩ := assigned.kept (by omega) tagged1
          obtain ⟨⟨tagged3, takes3⟩, spared3⟩ := ih normal1 ok (by omega) tagged2
          refine ⟨⟨tagged3, (Takes.mk grows1.frames grows1.counted).trans (takes2.trans takes3)⟩, fun reserved => ?_⟩
          exact spared3 (assigned.spared (by omega) tagged1 (grows1.reserved reserved))
    · cases Option.some.inj ok
      exact ⟨⟨tagged, Takes.refl _⟩, fun reserved => reserved⟩

theorem mapRangeTends {HHDMOffset fuel rounds : Nat} {curr : VMM → MemRange} {v v' : VMM} {currSt : Nat}
    (ok : mapRange HHDMOffset fuel curr rounds v currSt = some v') : Tends v v' := by
  induction rounds generalizing v currSt with
  | zero => contradiction
  | succ rounds ih =>
    simp only [mapRange] at ok
    split at ok
    · split at ok
      · contradiction
      · next v1 c1 identity =>
        split at ok
        · contradiction
        · next v2 c2 hhdm =>
          split at ok
          · contradiction
          · next pte found =>
            split at ok
            · contradiction
            · next pte' found' =>
              have first := searchPageTends (IndexOffset.indexOffsetSpec _).1 identity
              have second := searchPageTends (IndexOffset.indexOffsetSpec _).1 hhdm
              exact first.trans (second.trans ((assignTends found _ _).trans
                ((assignTends found' _ _).trans (ih ok))))
    · cases Option.some.inj ok
      exact Tends.refl _

theorem setTends {HHDMOffset fuel : Nat} {curr : VMM → MemRange} {v v' : VMM}
    (ok : setHHDMandIdentityPTE HHDMOffset fuel curr v = some v') : Tends v v' := by
  unfold setHHDMandIdentityPTE at ok
  split at ok
  · exact mapRangeTends ok
  · cases Option.some.inj ok
    exact Tends.refl _

theorem mapGapsTends {HHDMOffset fuel totalSize : Nat} {ranges : List MemRange} {v v' : VMM} {st : Nat}
    (ok : mapGaps HHDMOffset fuel totalSize ranges v st = some v') : Tends v v' := by
  induction ranges generalizing v st with
  | nil => exact setTends ok
  | cons memEntry rest ih =>
    obtain ⟨v1, first, later⟩ := Option.bind_eq_some_iff.mp ok
    exact (setTends first).trans (ih later)

theorem mapOthersTends {HHDMOffset fuel : Nat} {ranges : List MemRange} {v v' : VMM}
    (ok : mapOthers HHDMOffset fuel ranges v = some v') : Tends v v' := by
  induction ranges generalizing v with
  | nil =>
    cases Option.some.inj ok
    exact Tends.refl _
  | cons r rest ih =>
    obtain ⟨v1, first, later⟩ := Option.bind_eq_some_iff.mp ok
    exact (setTends first).trans (ih later)

theorem bareMem (contents : Nat → Table) (pmm : PMM) :
    (bare contents pmm).mem (bare contents pmm).pml4 = Table.init 0 := by
  show (writeTable _ _ _).mem _ = _
  rw [writeTableMem]
  exact if_pos rfl

theorem bareTables {contents : Nat → Table} {pmm : PMM} {q : List Nat} {t : Nat}
    (found : (bare contents pmm).tableAt q = some t) : q = [] ∧ t = (bare contents pmm).pml4 := by
  cases q with
  | nil => exact ⟨rfl, (Option.some.inj found).symm⟩
  | cons i q =>
    simp only [tableAt, walk, edges, bareMem, Table.initNext, Option.bind_none] at found
    contradiction

theorem bareTagged {contents : Nat → Table} {pmm : PMM} (served : (bare contents pmm).refused = 0) :
    WellTagged (bare contents pmm) := by
  rcases PMM.allocNFramesCases pmm 2 with refusal | ⟨f, made, -, clear⟩
  · have : (bare contents pmm).refused = 1 := by
      show ((pmm.allocNFrames 2).1.usedframes == pmm.usedframes).toNat = 1
      rw [refusal]
      simp
    omega
  · obtain ⟨bits, -, -, -⟩ := PMM.takeFramesSpec clear
    have frames : (bare contents pmm).pmm = PMM.takeFrames 2 f pmm := congrArg Prod.fst made
    have root : (bare contents pmm).pml4 = f * frameSize := congrArg Prod.snd made
    have memory := bareMem contents pmm
    have only : ∀ q t, (bare contents pmm).tableAt q = some t → q = [] ∧ t = (bare contents pmm).pml4 :=
      fun _ _ found => bareTables found
    have number : f * frameSize / frameSize = f := Nat.mul_div_cancel f (by decide)
    refine ⟨?_, ?_, ?_, ?_, ?_, ?_⟩
    · intro q t found
      rw [(only q t found).1]
      exact Nat.zero_le _
    · intro q t found
      obtain ⟨rfl, rfl⟩ := only q t found
      rw [memory, Table.initLevel (by omega)]
      rfl
    · intro q t i found _
      obtain ⟨rfl, rfl⟩ := only q t found
      rw [memory, Table.initPresent (by omega), Table.initNext]
      simp
    · intro q t found
      obtain ⟨rfl, rfl⟩ := only q t found
      rw [root, frames]
      refine ⟨Nat.mul_mod_left f frameSize, ?_, ?_⟩
      · rw [number, bits, if_pos (by omega)]
      · rw [number, bits, if_pos (by omega)]
    · intro a b t atA atB
      rw [(only a t atA).1, (only b t atB).1]
    · intro a t b u atA atB differ
      exact absurd ((only a t atA).1.trans (only b u atB).1.symm) differ

theorem bareTakes (contents : Nat → Table) (pmm : PMM) : Takes pmm (bare contents pmm).pmm := by
  show Takes pmm (pmm.allocNFrames 2).1
  rcases PMM.allocNFramesCases pmm 2 with refusal | ⟨f, made, -, clear⟩
  · rw [refusal]
    exact Takes.refl pmm
  · rw [made]
    exact ⟨(PMM.takeFramesSpec clear).2.1, fun counted => PMM.takeFramesCounted counted 2 f⟩

theorem initTends {HHDMOffset fuel : Nat} {contents : Nat → Table} {pmm : PMM} {mem : PhysicalMemMap}
    {otherRanges : List MemRange} {v : VMM}
    (ok : init HHDMOffset fuel contents pmm mem otherRanges = some v) : Tends (bare contents pmm) v := by
  obtain ⟨v1, kernel, ok⟩ := Option.bind_eq_some_iff.mp ok
  obtain ⟨v2, gaps, ok⟩ := Option.bind_eq_some_iff.mp ok
  obtain ⟨v3, others, ok⟩ := Option.bind_eq_some_iff.mp ok
  obtain ⟨v4, own, ok⟩ := Option.bind_eq_some_iff.mp ok
  obtain ⟨⟨v5, c5⟩, lower, ok⟩ := Option.bind_eq_some_iff.mp ok
  obtain ⟨⟨v6, c6⟩, higher, rfl⟩ := Option.map_eq_some_iff.mp ok
  have reset : Tends v1 v1.resetAvailable :=
    ⟨Nat.le_refl _, fun _ tagged =>
      ⟨tagged.frame rfl rfl (fun _ taken => taken), Takes.refl _⟩, fun _ _ reserved => reserved⟩
  exact (mapKernelTends (IndexOffset.indexOffsetSpec _).1 kernel).trans (reset.trans
    ((mapGapsTends gaps).trans ((mapOthersTends others).trans ((setTends own).trans
      ((searchPagesTends (beginNormal false) lower).trans (searchPagesTends higherNormal higher))))))

theorem initKept {HHDMOffset fuel : Nat} {contents : Nat → Table} {pmm : PMM} {mem : PhysicalMemMap}
    {otherRanges : List MemRange} {v : VMM}
    (ok : init HHDMOffset fuel contents pmm mem otherRanges = some v) (served : v.refused = 0) :
    WellTagged v ∧ Takes pmm v.pmm := by
  have whole := initTends ok
  have low := whole.refused
  obtain ⟨tagged, takes⟩ := whole.kept (by omega) (bareTagged (by omega))
  exact ⟨tagged, (bareTakes contents pmm).trans takes⟩

theorem freeFrameUsed (p : PMM) {addr f : Nat} (taken : p.used f = true)
    (other : addr / frameSize ≠ f) : (p.freeFrame addr).used f = true := by
  simp only [PMM.freeFrame]
  split
  · exact taken
  · show (p.bitmapUnset (addr / frameSize)).used f = true
    rw [PMM.unsetUsed, if_neg (Ne.symm other)]
    exact taken

def HoldsNoTable (v : VMM) (addr : Nat) : Prop :=
  ∀ q t, v.tableAt q = some t → addr / frameSize ≠ t / frameSize ∧ addr / frameSize ≠ t / frameSize + 1

theorem freePageTagged {HHDMOffset : Nat} {v v' : VMM} {addr : Nat} (tagged : WellTagged v)
    (ok : freePage HHDMOffset v addr = some v') (index : (getIndexOffset addr).i 3 ≠ 0)
    (spare : ∀ pte, v.getPTE (getIndexOffset addr) = some pte →
      HoldsNoTable v (v.readEntry pte).getPhysicalAddr) : WellTagged v' := by
  simp only [freePage] at ok
  split at ok
  · contradiction
  · next pte found =>
    have frame := spare pte found
    obtain ⟨t, there, rfl⟩ := getPTECases found
    cases Option.some.inj ok
    have freed : WellTagged
        { v with pmm := v.pmm.freeFrame (v.readEntry (t, (getIndexOffset addr).i 3)).getPhysicalAddr } := by
      refine ⟨tagged.depth, tagged.tag, tagged.linked, ?_, tagged.proper, tagged.apart⟩
      intro q u hangs
      obtain ⟨aligned, first, second⟩ := tagged.held q u hangs
      obtain ⟨other, other'⟩ := frame q u hangs
      exact ⟨aligned, freeFrameUsed v.pmm first other, freeFrameUsed v.pmm second other'⟩
    refine (writeEntryTagged (i := (getIndexOffset addr).i 3) (e := defaultEntry) freed there rfl ?_).frame
      (by simp) (by simp) (by simp)
    rw [Table.clearLevel, if_neg index]

end VMM

open VMM

/- A page may be freed when it is not the first of its table and its frame holds no table. -/
def Freeable (v : VMM) (addr : Nat) : Prop :=
  (getIndexOffset addr).i 3 ≠ 0 ∧
    ∀ pte, v.getPTE (getIndexOffset addr) = some pte → HoldsNoTable v (v.readEntry pte).getPhysicalAddr

def KeepsTables (HHDMOffset fuel : Nat) (v : VMM) (op : Op) : Prop :=
  (∀ addr, op = .freePage addr → Freeable v addr) ∧
    ∀ v', step HHDMOffset fuel v op = some v' → v'.refused = v.refused

theorem stepTagged {HHDMOffset fuel : Nat} {v v' : VMM} {op : Op} (tagged : WellTagged v)
    (guard : KeepsTables HHDMOffset fuel v op) (ok : step HHDMOffset fuel v op = some v') :
    WellTagged v' := by
  have served := guard.2 v' ok
  cases op with
  | allocPage higherHalf =>
    simp only [step, allocPage] at ok
    obtain ⟨⟨v1, addr⟩, allocated, rfl⟩ := Option.map_eq_some_iff.mp ok
    exact ((allocPagesTends allocated).kept served tagged).1
  | allocNPages higherHalf n =>
    simp only [step, allocNPages] at ok
    obtain ⟨⟨v1, addr⟩, allocated, rfl⟩ := Option.map_eq_some_iff.mp ok
    exact ((allocPagesTends allocated).kept served tagged).1
  | freePage addr =>
    obtain ⟨index, spare⟩ := guard.1 addr rfl
    exact freePageTagged tagged ok index spare

/-- In every run from VMM::init in which no page at index 0 of its table and no frame of a table
is freed and the PMM refuses no frames for a table, level tags are depths in every state. -/
theorem levelTagsAgree {HHDMOffset fuel : Nat} {contents : Nat → Table} {pmm : PMM}
    {mem : PhysicalMemMap} {otherRanges : List MemRange} {v₀ v : VMM} {ops : List Op}
    (booted : VMM.init HHDMOffset fuel contents pmm mem otherRanges = some v₀) (served : v₀.refused = 0)
    (guarded : Guarded (step HHDMOffset fuel) (KeepsTables HHDMOffset fuel) v₀ ops)
    (visited : Visits (step HHDMOffset fuel) v₀ ops v) : TagsAgree v :=
  (invariantVisits WellTagged (fun _ _ _ tagged guard ok => stepTagged tagged guard ok)
    (initKept booted served).1 guarded visited).agree

/- A machine of 128 MiB: page 0 and the kernel's page are not available, the bitmap is in page 1. -/
def smallMap : PhysicalMemMap :=
  ⟨2 ^ 27, [⟨4096, 63 * 4096⟩, ⟨65 * 4096, 2 ^ 27 - 65 * 4096⟩], 64 * 4096, 4096⟩

def smallPmm : PMM :=
  ⟨2 ^ 27, 3, 2 ^ 15, fun i => if i = 0 then 3#64 else if i = 1 then 1#64 else 0#64⟩

def blank : Nat → Table := fun _ => ⟨fun _ => defaultEntry, fun _ => none⟩

def smallBoot : Option VMM := VMM.init 0xffff800000000000 3000 blank smallPmm smallMap [⟨4096, 4096⟩]

theorem levelTagsAgreeAllocFree : ∃ v₀ v, smallBoot = some v₀ ∧
    run (step 0xffff800000000000 3000) v₀ [.allocPage true, .freePage 0xffff800000016000] = some v ∧
      TagsAgree v := by
  have calls : (smallBoot.bind fun v₀ => (v₀.allocPage 0xffff800000000000 3000 true).bind fun r =>
      (r.1.freePage 0xffff800000000000 0xffff800000016000).map fun v =>
        (v₀.refused + r.1.refused + v.refused, v₀.availablePagesHH, v₀.pmm.used 22)) =
      some (0, 489, false) := by decide +kernel
  have page : (smallBoot.bind fun v₀ => (v₀.allocPage 0xffff800000000000 3000 true).bind fun r =>
      (r.1.getPTE (getIndexOffset 0xffff800000016000)).map fun pte =>
        (r.1.readEntry pte).getPhysicalAddr) = some 90112 := by decide +kernel
  obtain ⟨v₀, booted, calls⟩ := Option.bind_eq_some_iff.mp calls
  obtain ⟨⟨v₁, addr⟩, allocated, calls⟩ := Option.bind_eq_some_iff.mp calls
  obtain ⟨v₂, freed, facts⟩ := Option.map_eq_some_iff.mp calls
  obtain ⟨refused, facts⟩ := Prod.mk.inj facts
  obtain ⟨available, spare⟩ := Prod.mk.inj facts
  simp only at refused freed
  rw [booted, Option.bind_some, allocated, Option.bind_some] at page
  obtain ⟨pte, found, frame⟩ := Option.map_eq_some_iff.mp page
  have first : step 0xffff800000000000 3000 v₀ (.allocPage true) = some v₁ := by
    simp only [step, allocated, Option.map_some]
  have second : step 0xffff800000000000 3000 v₁ (.freePage 0xffff800000016000) = some v₂ := freed
  have last : run (step 0xffff800000000000 3000) v₀ [.allocPage true, .freePage 0xffff800000016000] =
      some v₂ := by
    simp only [run, first, second, Option.bind_some]
  -- Nothing is grown for one page, so the tables are those of v₀ and frame 22 is none of theirs.
  have tables : v₁.tableAt = v₀.tableAt := by
    obtain ⟨v, ensured, taken⟩ := Option.bind_eq_some_iff.mp allocated
    have ample : ¬ (true = true ∧ toInt32 (v₀.getAvailablePages true) <
        toInt32 ((minAvailablePages : Int) + (1 : Nat))) := by
      rw [getAvailablePages, if_pos rfl, available]
      decide
    unfold ensurePages at ensured
    rw [if_neg ample] at ensured
    cases Option.some.inj ensured
    exact takePagesTables taken
  have freeable : Freeable v₁ 0xffff800000016000 := by
    refine ⟨by decide, fun pte' found' => ?_⟩
    rw [found] at found'
    cases Option.some.inj found'
    rw [frame]
    intro q t hangs
    rw [tables] at hangs
    obtain ⟨-, low, high⟩ := (initKept booted (by omega)).1.held q t hangs
    refine ⟨fun same => ?_, fun same => ?_⟩
    · rw [← same] at low
      exact absurd (spare.symm.trans low) (by decide)
    · rw [← same] at high
      exact absurd (spare.symm.trans high) (by decide)
  refine ⟨v₀, v₂, booted, last, levelTagsAgree booted (by omega) ?_ ⟨_, [], rfl, last⟩⟩
  refine guardedConsIff.mpr ⟨⟨fun _ free => (by cases free), fun v ok => ?_⟩, fun v ok => ?_⟩
  · cases Option.some.inj (first.symm.trans ok)
    omega
  · cases Option.some.inj (first.symm.trans ok)
    refine guardedConsIff.mpr ⟨⟨fun addr' free => ?_, fun v ok => ?_⟩, fun v _ => guardedNil _ _ v⟩
    · cases free
      exact freeable
    · cases Option.some.inj (second.symm.trans ok)
      omega

/- freePage of the page at HHDMOffset, which init mapped, leaves its table with level 0. -/
theorem freePageWipesLevel : ∃ v₀ v t, smallBoot = some v₀ ∧
    (v₀.leaf [256, 0, 0] 0).map Entry.isPresent = some true ∧
    run (step 0xffff800000000000 3000) v₀ [.freePage 0xffff800000000000] = some v ∧
    v.follow [256, 0, 0] = some t ∧ (v.mem t).getLevel = 0 ∧ ¬ TagsAgree v := by
  have calls : (smallBoot.bind fun v₀ =>
      (step 0xffff800000000000 3000 v₀ (.freePage 0xffff800000000000)).bind fun v =>
        (v.follow [256, 0, 0]).map fun t =>
          ((v₀.leaf [256, 0, 0] 0).map Entry.isPresent, (v.mem t).getLevel)) = some (some true, 0) := by
    decide +kernel
  obtain ⟨v₀, booted, calls⟩ := Option.bind_eq_some_iff.mp calls
  obtain ⟨v, freed, calls⟩ := Option.bind_eq_some_iff.mp calls
  obtain ⟨t, found, facts⟩ := Option.map_eq_some_iff.mp calls
  obtain ⟨mapped, level⟩ := Prod.mk.inj facts
  refine ⟨v₀, v, t, booted, mapped, ?_, found, level, fun agree => ?_⟩
  · rw [runSingle]
    exact freed
  · have depth := agree _ t found
    rw [level] at depth
    exact absurd depth (by decide)

end DimOS.Memory.Vmm
