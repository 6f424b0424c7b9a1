import Mathlib
import DimOS.Lib.PathTree
import DimOS.Memory.Pmm
import DimOS.Memory.IndexOffset

/-! VMM: the page tables, the search for unmapped pages, and the frames behind them. The
state holds the PMM singleton beside the VMM's own fields. A call that follows a null table
pointer, panics, or does not return within the given fuel (nested calls, rounds of a loop)
gives none. HHDMOffset, which the boot loader chooses, is a parameter. Logging, the interrupt
handler, invlpg and the load of cr3 change no modelled field. -/
namespace DimOS.Memory.Vmm
open Pmm
open Paging
open Paging.IndexOffset (getIndexOffset)

/- No function reads the last two fields. refused counts the tables made after the PMM refused
their two frames, overwritten the mappings written over an entry that was present. -/
structure VMM where
  pmm : PMM
  mem : Nat → Table
  pml4 : Nat
  availablePagesLH : Int
  availablePagesHH : Int
  physicalMemUsage : MemRange
  refused : Nat
  overwritten : Nat

inductive AllocScheme where
  | NO_ALLOC
  | USE_PMM
  | USE_VMM
  deriving DecidableEq, Repr

def entriesPerTable : Nat := entryCnt
def pageSize : Nat := 4096
def minAvailablePages : Nat := 11

def toInt32 (x : Int) : Int := Int.bmod x (2 ^ 32)

def isHigherHalf (HHDMOffset : Nat) (c : IndexOffset) : Bool := c.getVirtualAddr ≥ HHDMOffset

namespace VMM

def getAvailablePages (v : VMM) (higherHalf : Bool) : Int :=
  if higherHalf then v.availablePagesHH else v.availablePagesLH

def addAvailable (v : VMM) (higherHalf : Bool) (pages : Int) : VMM :=
  if higherHalf then { v with availablePagesHH := v.availablePagesHH + pages }
  else { v with availablePagesLH := v.availablePagesLH + pages }

def writeTable (v : VMM) (t : Nat) (table : Table) : VMM :=
  { v with mem := Function.update v.mem t table }

def readEntry (v : VMM) (pte : Nat × Nat) : Entry := (v.mem pte.1).entries pte.2

def writeEntry (v : VMM) (pte : Nat × Nat) (e : Entry) : VMM :=
  v.writeTable pte.1 ((v.mem pte.1).setEntry pte.2 e)

def refuse (v : VMM) (happened : Bool) : VMM := { v with refused := v.refused + happened.toNat }

def overwrite (v : VMM) (happened : Bool) : VMM :=
  { v with overwritten := v.overwritten + happened.toNat }

def getPTE (v : VMM) (offsets : IndexOffset) : Option (Nat × Nat) :=
  ((v.mem v.pml4).nextTables (offsets.i 0)).bind fun t1 =>
    ((v.mem t1).nextTables (offsets.i 1)).bind fun t2 =>
      ((v.mem t2).nextTables (offsets.i 2)).bind fun t3 => some (t3, offsets.i 3)

def assignFrameToPage (v : VMM) (pte : Nat × Nat) (frameAddr : Nat) (higherHalf : Bool) : VMM :=
  let e := v.readEntry pte
  (((v.overwrite e.isPresent).writeEntry pte
    ((e.setPhysicalAdr frameAddr).setFlags Entry.presentWritable))).addAvailable higherHalf (-1)

/- The two frames of a new table. A refused request leaves usedframes as it was. -/
def takeTableFrames (v : VMM) : VMM × Nat :=
  let r := v.pmm.allocNFrames 2
  ({ v.refuse (r.1.usedframes == v.pmm.usedframes) with
      pmm := r.1
      physicalMemUsage := ⟨v.physicalMemUsage.start, v.physicalMemUsage.size + frameSize * 2⟩ }, r.2)

def addTable (HHDMOffset : Nat) (v : VMM) (t i level : Nat) (original : IndexOffset) (paddr : Nat) :
    VMM :=
  let v := v.writeTable paddr (Table.init (level + 1))
  let e := ((v.mem t).entries i).setFlags Entry.presentWritable
  let v := v.writeTable t (((v.mem t).setEntry i (e.setPhysicalAdr paddr)).setNext i paddr)
  if (v.mem paddr).getLevel = 3 then
    v.addAvailable (isHigherHalf HHDMOffset original) entriesPerTable
  else v

/- How a scheme comes by the memory of a new table; none is NO_ALLOC. -/
abbrev Place := Option (VMM → Option (VMM × Nat))

/- The table behind index i of t, made when it is missing and the scheme allows; with
NO_ALLOC a missing table is skipped. -/
def enter (HHDMOffset : Nat) (place : Place) (v : VMM) (t i level : Nat) (original : IndexOffset) :
    Option (VMM × Option Nat) :=
  if ((v.mem t).entries i).isPresent then
    match (v.mem t).nextTables i with
    | none => none
    | some next => some (v, some next)
  else
    match place with
    | none => some (v, none)
    | some obtain_ =>
      match obtain_ v with
      | none => none
      | some (v, paddr) => some (v.addTable HHDMOffset t i level original paddr, some paddr)

/- The loop of getFirstUnallocPageUtil over table t, with `left` indices to go; `descend` is
the recursive call. -/
def searchTable (HHDMOffset : Nat) (place : Place)
    (descend : VMM → IndexOffset → Nat → Option (VMM × IndexOffset × Bool)) (t level : Nat)
    (original : IndexOffset) : Nat → VMM → IndexOffset → Option (VMM × IndexOffset × Bool)
  | 0, v, curr => some (v, curr, false)
  | left + 1, v, curr =>
    let i := entriesPerTable - (left + 1)
    let curr := if i > curr.i level then curr.clearBelow level else curr
    if level = 3 then
      if !((v.mem t).entries i).isPresent then some (v, curr.set level i, true)
      else searchTable HHDMOffset place descend t level original left v curr
    else
      match enter HHDMOffset place v t i level original with
      | none => none
      | some (v, none) => searchTable HHDMOffset place descend t level original left v curr
      | some (v, some next) =>
        match descend v curr next with
        | none => none
        | some (v, curr, true) => some (v, curr.set level i, true)
        | some (v, curr, false) => searchTable HHDMOffset place descend t level original left v curr

def searchUtil (HHDMOffset : Nat) (place : Place) :
    Nat → VMM → IndexOffset → Nat → Option (VMM × IndexOffset × Bool)
  | 0, _, _, _ => none
  | depth + 1, v, curr, t =>
    let level := (v.mem t).getLevel
    searchTable HHDMOffset place (searchUtil HHDMOffset place depth) t level curr
      (entriesPerTable - curr.i level) v curr

def searchPage (HHDMOffset fuel : Nat) (place : Place) (v : VMM) (begin : IndexOffset) :
    Option (VMM × IndexOffset) :=
  match searchUtil HHDMOffset place fuel v begin v.pml4 with
  | none => none
  | some (v, curr, true) => some (v, curr)
  | some (v, _, false) => some (v, ⟨0, 0, 0, 0⟩)

def searchRun (HHDMOffset fuel : Nat) (place : Place) (n : Nat) :
    Nat → VMM → IndexOffset → IndexOffset → Nat → Option (VMM × IndexOffset)
  | 0, _, _, _, _ => none
  | rounds + 1, v, res, prev, done =>
    if done < n then
      match searchPage HHDMOffset fuel place v prev.nextPage with
      | none => none
      | some (v, next) =>
        if prev.nextPage.getVirtualAddr = next.getVirtualAddr then
          searchRun HHDMOffset fuel place n rounds v res next (done + 1)
        else searchRun HHDMOffset fuel place n rounds v next next 1
    else some (v, res)

def searchPages (HHDMOffset fuel : Nat) (place : Place) (v : VMM) (begin : IndexOffset) (n : Nat) :
    Option (VMM × IndexOffset) :=
  match searchPage HHDMOffset fuel place v begin with
  | none => none
  | some (v, res) => searchRun HHDMOffset fuel place n fuel v res res 1

/- USE_VMM: two frames, and two pages of the higher half to reach them by. -/
def placeInPages (HHDMOffset fuel : Nat) (v : VMM) : Option (VMM × Nat) :=
  let (v, paddr) := v.takeTableFrames
  match searchPages HHDMOffset fuel none v ⟨256, 0, 0, 0⟩ 2 with
  | none => none
  | some (v, firstPageOffset) =>
    match v.getPTE firstPageOffset with
    | none => none
    | some pte =>
      let e := v.readEntry pte
      let v := (v.overwrite e.isPresent).writeEntry pte
        ((e.setFlags Entry.presentWritable).setPhysicalAdr paddr)
      match v.getPTE firstPageOffset.nextPage with
      | none => none
      | some pte =>
        let e := v.readEntry pte
        let v := (v.overwrite e.isPresent).writeEntry pte
          ((e.setFlags Entry.presentWritable).setPhysicalAdr (paddr + frameSize))
        some (v.addAvailable true (-2), paddr)

def placeOf (HHDMOffset fuel : Nat) : AllocScheme → Place
  | .NO_ALLOC => none
  | .USE_PMM => some (fun v => some v.takeTableFrames)
  | .USE_VMM => some (placeInPages HHDMOffset fuel)

def getFirstUnallocPageUtil (HHDMOffset fuel : Nat) (v : VMM) (curr : IndexOffset)
    (allocScheme : AllocScheme) (table : Nat) : Option (VMM × IndexOffset × Bool) :=
  searchUtil HHDMOffset (placeOf HHDMOffset fuel allocScheme) fuel v curr table

def getFirstUnallocPage (HHDMOffset fuel : Nat) (v : VMM) (begin : IndexOffset)
    (allocScheme : AllocScheme) : Option (VMM × IndexOffset) :=
  searchPage HHDMOffset fuel (placeOf HHDMOffset fuel allocScheme) v begin

def getFirstNUnallocPage (HHDMOffset fuel : Nat) (v : VMM) (begin : IndexOffset)
    (allocScheme : AllocScheme) (n : Nat) : Option (VMM × IndexOffset) :=
  searchPages HHDMOffset fuel (placeOf HHDMOffset fuel allocScheme) v begin n

def freePage (HHDMOffset : Nat) (v : VMM) (addr : Nat) : Option VMM :=
  let idxOffset := getIndexOffset addr
  match v.getPTE idxOffset with
  | none => none
  | some pte =>
    let v := { v with pmm := v.pmm.freeFrame (v.readEntry pte).getPhysicalAddr }
    let v := v.writeEntry pte defaultEntry
    some (v.addAvailable (isHigherHalf HHDMOffset idxOffset) 1)

def assignPages (HHDMOffset : Nat) : Nat → VMM → IndexOffset → Option VMM
  | 0, v, _ => some v
  | left + 1, v, currOffset =>
    let r := v.pmm.allocFrame
    let v := { v with pmm := r.1 }
    match v.getPTE currOffset with
    | none => none
    | some pte =>
      assignPages HHDMOffset left
        (v.assignFrameToPage pte r.2 (isHigherHalf HHDMOffset currOffset)) currOffset.nextPage

def beginOffset (higherHalf : Bool) : IndexOffset := ⟨if higherHalf then 256 else 0, 0, 0, 0⟩

/- The first half of allocPages: more tables when the counter asks for them. -/
def ensurePages (HHDMOffset fuel : Nat) (v : VMM) (higherHalf doMinCheck : Bool) (reqPages : Nat) :
    Option VMM :=
  let availablePages := toInt32 (v.getAvailablePages higherHalf)
  let minReqPages := toInt32 (minAvailablePages + reqPages)
  if doMinCheck ∧ availablePages < minReqPages then
    (getFirstNUnallocPage HHDMOffset fuel v (beginOffset higherHalf) .USE_VMM minReqPages.toNat).map
      Prod.fst
  else some v

/- The second half: the panic when frames are short, the search, the frames. -/
def takePages (HHDMOffset fuel : Nat) (v : VMM) (higherHalf : Bool) (reqPages : Nat) :
    Option (VMM × Nat) :=
  if v.pmm.frameCnt - v.pmm.usedframes < reqPages then none
  else
    match getFirstNUnallocPage HHDMOffset fuel v (beginOffset higherHalf) .NO_ALLOC reqPages with
    | none => none
    | some (v, firstPageOffset) =>
      (assignPages HHDMOffset reqPages v firstPageOffset).map
        (fun v => (v, firstPageOffset.getVirtualAddr))

def allocPages (HHDMOffset fuel : Nat) (v : VMM) (higherHalf doMinCheck : Bool) (reqPages : Nat) :
    Option (VMM × Nat) :=
  (ensurePages HHDMOffset fuel v higherHalf doMinCheck reqPages).bind
    (fun v => takePages HHDMOffset fuel v higherHalf reqPages)

def allocNPages (HHDMOffset fuel : Nat) (v : VMM) (higherHalf : Bool) (n : Nat) : Option (VMM × Nat) :=
  allocPages HHDMOffset fuel v higherHalf true n

def allocPage (HHDMOffset fuel : Nat) (v : VMM) (higherHalf : Bool) : Option (VMM × Nat) :=
  allocPages HHDMOffset fuel v higherHalf true 1

def mapKernel (HHDMOffset fuel stop : Nat) : Nat → VMM → IndexOffset → Nat → Option VMM
  | 0, _, _, _ => none
  | rounds + 1, v, kernelIdxOffset, st =>
    if st < stop then
      match getFirstUnallocPage HHDMOffset fuel v kernelIdxOffset .USE_PMM with
      | none => none
      | some (v, kernelIdxOffset) =>
        match v.getPTE kernelIdxOffset with
        | none => none
        | some pte =>
          mapKernel HHDMOffset fuel stop rounds (v.assignFrameToPage pte st true) kernelIdxOffset
            ((st + pageSize) % 2 ^ 64)
    else some v

/- The loop of setHHDMandIdentityPTE. The range is a reference, read in every round: the one
of the page tables grows while they are being mapped. -/
def mapRange (HHDMOffset fuel : Nat) (curr : VMM → MemRange) : Nat → VMM → Nat → Option VMM
  | 0, _, _ => none
  | rounds + 1, v, currSt =>
    if currSt < ((curr v).start + (curr v).size) % 2 ^ 64 then
      match getFirstUnallocPage HHDMOffset fuel v (getIndexOffset currSt) .USE_PMM with
      | none => none
      | some (v, identityIndexOffset) =>
        match getFirstUnallocPage HHDMOffset fuel v
            (getIndexOffset ((currSt + HHDMOffset) % 2 ^ 64)) .USE_PMM with
        | none => none
        | some (v, hhdmIndexOffset) =>
          match v.getPTE hhdmIndexOffset with
          | none => none
          | some pte =>
            let v := v.assignFrameToPage pte currSt true
            match v.getPTE identityIndexOffset with
            | none => none
            | some pte =>
              mapRange HHDMOffset fuel curr rounds (v.assignFrameToPage pte currSt false)
                ((currSt + pageSize) % 2 ^ 64)
    else some v

def setHHDMandIdentityPTE (HHDMOffset fuel : Nat) (curr : VMM → MemRange) (v : VMM) : Option VMM :=
  if (curr v).size ≥ pageSize then mapRange HHDMOffset fuel curr fuel v (curr v).start else some v

/- `{st, stop - st}` -/
def gap (st stop : Nat) : MemRange := ⟨st, (stop + 2 ^ 64 - st) % 2 ^ 64⟩

/- The memory between the available ranges, and what follows the last one. -/
def mapGaps (HHDMOffset fuel totalSize : Nat) : List MemRange → VMM → Nat → Option VMM
  | [], v, st => setHHDMandIdentityPTE HHDMOffset fuel (fun _ => gap st totalSize) v
  | memEntry :: rest, v, st =>
    (setHHDMandIdentityPTE HHDMOffset fuel (fun _ => gap st memEntry.start) v).bind
      (fun v => mapGaps HHDMOffset fuel totalSize rest v ((memEntry.start + memEntry.size) % 2 ^ 64))

def mapOthers (HHDMOffset fuel : Nat) : List MemRange → VMM → Option VMM
  | [], v => some v
  | r :: rest, v =>
    (setHHDMandIdentityPTE HHDMOffset fuel (fun _ => r) v).bind (mapOthers HHDMOffset fuel rest)

/- The state in which the mapping starts: an empty pml4 in two new frames. -/
def bare (contents : Nat → Table) (pmm : PMM) : VMM :=
  let r := pmm.allocNFrames 2
  ({ pmm := r.1, mem := contents, pml4 := r.2, availablePagesLH := 0, availablePagesHH := 0,
     physicalMemUsage := ⟨r.2, frameSize * 2⟩,
     refused := (r.1.usedframes == pmm.usedframes).toNat, overwritten := 0 : VMM }).writeTable r.2 (Table.init 0)

def resetAvailable (v : VMM) : VMM := { v with availablePagesHH := 0, availablePagesLH := 0 }

def init (HHDMOffset fuel : Nat) (contents : Nat → Table) (pmm : PMM) (physicalMemMap : PhysicalMemMap)
    (otherRanges : List MemRange) : Option VMM :=
  (mapKernel HHDMOffset fuel ((physicalMemMap.kernelStart + physicalMemMap.kernelSize) % 2 ^ 64) fuel
    (bare contents pmm) (getIndexOffset 0xffffffff80000000) physicalMemMap.kernelStart).bind fun v =>
  (mapGaps HHDMOffset fuel physicalMemMap.totalSize physicalMemMap.availableMemArr
    v.resetAvailable 0).bind fun v =>
  (mapOthers HHDMOffset fuel otherRanges v).bind fun v =>
  (setHHDMandIdentityPTE HHDMOffset fuel VMM.physicalMemUsage v).bind fun v =>
  (getFirstNUnallocPage HHDMOffset fuel v ⟨0, 0, 0, 0⟩ .USE_PMM minAvailablePages).bind fun r =>
  (getFirstNUnallocPage HHDMOffset fuel r.1 ⟨256, 0, 0, 0⟩ .USE_PMM minAvailablePages).map Prod.fst

end VMM

inductive Op where
  | allocPage (higherHalf : Bool)
  | allocNPages (higherHalf : Bool) (n : Nat)
  | freePage (addr : Nat)
  deriving DecidableEq, Repr

def step (HHDMOffset fuel : Nat) (v : VMM) : Op → Option VMM
  | .allocPage higherHalf => (v.allocPage HHDMOffset fuel higherHalf).map Prod.fst
  | .allocNPages higherHalf n => (v.allocNPages HHDMOffset fuel higherHalf n).map Prod.fst
  | .freePage addr => v.freePage HHDMOffset addr

end DimOS.Memory.Vmm
