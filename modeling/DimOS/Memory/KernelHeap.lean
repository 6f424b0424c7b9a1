import Mathlib
import DimOS.Memory.HeapBestFit
import DimOS.Memory.HeapRuns
import DimOS.Memory.PageOwners

/-! kmalloc and kfree: the one FreeList of the kernel over the VMM that it grows by, and the other
callers of the VMM beside it. The nodes and the blocks lie in the pages of the heap, the page tables
do not, so the two share no memory; that is part of what is proved of the pages. -/
namespace DimOS.Memory.KernelHeap
open Heap (FreeList Allocated reqPages reqBytes sizeofNode Donated Tiled Fresh asksVmm)
open Vmm (VMM OwnState ownStep OwnersAllowed Smooth)
open Vmm.VMM (Owns Backed handedOut)
open Paging.IndexOffset (getIndexOffset)
open Lib.ByteMemory (Memory)
open Lib.Segments
open Lib.Transition

/- The growth of FreeList::alloc: heapFuel bounds the loop over the list, fuel the calls inside the VMM.
For the sizes whose `int reqPages` is negative nothing is followed. -/
def grow (HHDMOffset fuel heapFuel size : Nat) (v : VMM) (fl : FreeList) : Option (VMM × FreeList × Nat) :=
  if reqPages size < 0 then none
  else
    (v.allocNPages HHDMOffset fuel true (reqPages size).toNat).bind fun r =>
      (fl.addMemory heapFuel r.2 (reqBytes size)).map fun fl => (r.1, fl, r.2)

/- FreeList::alloc with the calls it makes. -/
def alloc (HHDMOffset fuel heapFuel size : Nat) : Nat → VMM → FreeList → Option (VMM × Allocated)
  | 0, _, _ => none
  | tries + 1, v, fl =>
    match fl.search heapFuel size with
    | none => none
    | some fit =>
      if fit.target = 0 then
        (grow HHDMOffset fuel heapFuel size v fl).bind fun g =>
          (alloc HHDMOffset fuel heapFuel size tries g.1 g.2.1).map
            fun out => (out.1, { out.2 with grown := (g.2.2, reqBytes size) :: out.2.grown })
      else some (v, ⟨fl.take fit.target fit.prev size, (fit.target + sizeofNode) % 2 ^ 64, []⟩)

/- The heap with its live blocks and regions, and the pages that other callers hold. -/
structure State where
  vmm : VMM
  pages : List Nat
  heap : Heap.State

/- MallocHeap::init, on a FreeList that is empty before. -/
def init (HHDMOffset fuel heapFuel : Nat) (m : Memory) (v : VMM) : Option State :=
  (v.allocPage HHDMOffset fuel true).bind fun r =>
    (Heap.step heapFuel (Heap.start m) (.addMemory r.2 Vmm.pageSize)).map fun heap => ⟨r.1, [], heap⟩

inductive Op where
  | kmalloc (size : Nat)
  | kfree (ptr : Nat)
  | write (addr : Nat) (value : BitVec 8)
  | page (op : Vmm.Op)

def step (HHDMOffset fuel heapFuel : Nat) (s : State) : Op → Option State
  | .kmalloc size =>
    (alloc HHDMOffset fuel heapFuel size heapFuel s.vmm s.heap.heap).map fun out =>
      { s with vmm := out.1, heap := ⟨out.2.list, out.2.ptr :: s.heap.live, out.2.grown ++ s.heap.donated⟩ }
  | .kfree ptr => (Heap.step heapFuel s.heap (.free ptr)).map fun heap => { s with heap := heap }
  | .write addr value => (Heap.step heapFuel s.heap (.write addr value)).map fun heap => { s with heap := heap }
  | .page op =>
    (ownStep HHDMOffset fuel ⟨s.vmm, s.pages⟩ op).map fun t => { s with vmm := t.vmm, pages := t.pages }

def grant (HHDMOffset fuel size : Nat) (v : VMM) : Option (VMM × Nat) :=
  v.allocNPages HHDMOffset fuel true (reqPages size).toNat

/- It lies in the half it was asked for, and no mapping was overwritten for it. -/
def Good (v : VMM) (n : Nat) (r : VMM × Nat) : Prop :=
  Smooth v r.1 ∧ 0xffff800000000000 ≤ r.2 ∧ r.2 + n * 4096 < 2 ^ 64

def Allowed (HHDMOffset fuel heapFuel : Nat) (s : State) : Op → Prop
  | .kmalloc size => size + 16 + 4095 < 2 ^ 43 ∧
      (asksVmm heapFuel s.heap.heap size = true →
        ∀ r, grant HHDMOffset fuel size s.vmm = some r → Good s.vmm (reqPages size).toNat r)
  | .kfree ptr => ptr ∈ s.heap.live
  | .write addr value => Heap.Allowed heapFuel s.heap (.write addr value)
  | .page op => OwnersAllowed HHDMOffset fuel ⟨s.vmm, s.pages⟩ op

theorem asksIff {heapFuel size : Nat} {fl : FreeList} :
    asksVmm heapFuel fl size = true ↔ ∃ fit, fl.search heapFuel size = some fit ∧ fit.target = 0 := by
  unfold asksVmm
  cases fl.search heapFuel size with
  | none => simp
  | some fit => simp

theorem asksNothing {heapFuel size tries : Nat} {fl : FreeList} {allocNPages : Int → Nat} {out : Allocated}
    (made : fl.alloc heapFuel allocNPages size tries = some out) (none_ : out.grown = []) :
    asksVmm heapFuel fl size = false := by
  by_contra asks
  obtain ⟨fit, found, target⟩ := asksIff.mp (by simpa using asks)
  exact Heap.allocAsks found target made none_

theorem allocServed {HHDMOffset fuel heapFuel size : Nat} (v : VMM) {tries : Nat} {fl : FreeList}
    {allocNPages : Int → Nat} {out : Allocated} (made : fl.alloc heapFuel allocNPages size tries = some out)
    (none_ : out.grown = []) : alloc HHDMOffset fuel heapFuel size tries v fl = some (v, out) := by
  cases tries with
  | zero => simp [FreeList.alloc] at made
  | succ tries =>
    rw [alloc]
    cases found : fl.search heapFuel size with
    | none => simp [FreeList.alloc, found] at made
    | some fit =>
      have served : fit.target ≠ 0 := fun target => Heap.allocAsks found target made none_
      simp only [FreeList.alloc, found, served, if_false] at made
      simp [served, ← Option.some.inj made]

theorem allocEq {HHDMOffset fuel heapFuel size : Nat} {v : VMM} {addr tries : Nat} {fl : FreeList} {out : Allocated}
    (positive : 0 ≤ reqPages size) (answer : ∀ r, grant HHDMOffset fuel size v = some r → r.2 = addr)
    (made : fl.alloc heapFuel (fun _ => addr) size tries = some out) (once : out.grown.length ≤ 1) :
    alloc HHDMOffset fuel heapFuel size tries v fl =
      if asksVmm heapFuel fl size then (grant HHDMOffset fuel size v).map fun r => (r.1, out) else some (v, out) := by
  by_cases grown : out.grown = []
  · rw [asksNothing made grown, allocServed v made grown]
    rfl
  cases tries with
  | zero => simp [FreeList.alloc] at made
  | succ tries =>
    rw [asksVmm, alloc]
    cases found : fl.search heapFuel size with
    | none => simp [FreeList.alloc, found] at made
    | some fit =>
      by_cases target : fit.target = 0
      · simp only [FreeList.alloc, found, target, if_true] at made
        cases added : fl.addMemory heapFuel addr (reqBytes size) with
        | none => simp [added] at made
        | some wider =>
          simp only [added] at made
          obtain ⟨last, retried, rfl⟩ := Option.map_eq_some_iff.mp made
          have none_ : last.grown = [] := List.length_eq_zero_iff.mp (by simpa using once)
          have ok : ¬ reqPages size < 0 := by omega
          simp only [target, if_true, beq_self_eq_true, grow, ok, if_false]
          cases asked : grant HHDMOffset fuel size v with
          | none =>
            rw [grant] at asked
            rw [asked]
            rfl
          | some r =>
            have here := answer r asked
            have same := @allocServed HHDMOffset fuel heapFuel size r.1 tries wider _ _ retried none_
            rw [grant] at asked
            simp only [asked, Option.bind_some, here, added, Option.map_some, same]
      · simp only [FreeList.alloc, found, target, if_false] at made
        rw [← Option.some.inj made] at grown
        exact absurd rfl grown

def heapPages (donated : List (Nat × Nat)) : List Nat := donated.flatMap fun r => handedOut r.1 (r.2 / 4096)

def Paged (r : Nat × Nat) : Prop :=
  r.1 % 4096 = 0 ∧ r.2 % 4096 = 0 ∧ 0 < r.2 ∧ 0xffff800000000000 ≤ r.1 ∧ r.1 + r.2 < 2 ^ 64

structure Held (s : State) (free : List Seg) : Prop where
  tiled : Tiled s.heap free
  owns : Owns s.vmm (heapPages s.heap.donated ++ s.pages)
  paged : ∀ r ∈ s.heap.donated, Paged r

theorem pageOf (x : Nat) : (getIndexOffset x).page = x / 4096 % 2 ^ 36 := (Paging.IndexOffset.indexOffsetSpec x).2

theorem regionPage {r : Nat × Nat} (paged : Paged r) {x : Nat} (low : r.1 ≤ x) (high : x < r.1 + r.2) :
    (getIndexOffset x).page ∈ handedOut r.1 (r.2 / 4096) := by
  obtain ⟨first, whole, -, -, -⟩ := paged
  refine Vmm.VMM.mem_handedOut.mpr ⟨(x - r.1) / 4096, by omega, ?_⟩
  rw [pageOf, pageOf]
  congr 1
  omega

theorem heapPage {donated : List (Nat × Nat)} (paged : ∀ r ∈ donated, Paged r) {x : Nat} (given : Donated donated x) :
    (getIndexOffset x).page ∈ heapPages donated := by
  obtain ⟨r, mem, low, high⟩ := given
  exact List.mem_flatMap.mpr ⟨r, mem, regionPage (paged r mem) low high⟩

theorem regionFresh {s : Heap.State} {addr n : Nat} {pages : List Nat} (paged : ∀ r ∈ s.donated, Paged r)
    (new : Paged (addr, n * 4096)) (once : (handedOut addr n ++ (heapPages s.donated ++ pages)).Nodup) :
    Fresh s addr (n * 4096) := by
  have ⟨_, _, some_, high, below⟩ := new
  refine ⟨by omega, below, fun r mem => ?_⟩
  by_contra overlap
  have other := (paged r mem).2.2.1
  obtain ⟨-, -, disjoint⟩ := List.nodup_append.mp once
  -- The higher of the two first addresses lies in both regions.
  have shared : ∀ x, addr ≤ x → x < addr + n * 4096 → r.1 ≤ x → x < r.1 + r.2 → False := by
    intro x low high low' high'
    have mine := regionPage new low high
    rw [Nat.mul_div_cancel n (by decide)] at mine
    exact disjoint _ mine _ (List.mem_append_left _ (heapPage paged ⟨r, mem, low', high'⟩)) rfl
  rcases Nat.le_total addr r.1 with before | after
  · exact shared r.1 before (by omega) (Nat.le_refl _) (by omega)
  · exact shared addr (Nat.le_refl _) (by omega) after (by omega)

theorem Owns.perm {v : VMM} {pages pages' : List Nat} (owns : Owns v pages) (same : pages.Perm pages') :
    Owns v pages' where
  sane := owns.sane
  backed := fun p mem => owns.backed p (same.mem_iff.mpr mem)
  once := same.nodup_iff.mp owns.once
  distinct := fun p memP r memR => owns.distinct p (same.mem_iff.mpr memP) r (same.mem_iff.mpr memR)

theorem allocRefused {HHDMOffset fuel heapFuel size : Nat} {v : VMM} {tries : Nat} {fl : FreeList}
    (asks : asksVmm heapFuel fl size = true) (asked : grant HHDMOffset fuel size v = none) :
    alloc HHDMOffset fuel heapFuel size tries v fl = none := by
  obtain ⟨fit, found, target⟩ := asksIff.mp asks
  cases tries with
  | zero => rfl
  | succ tries =>
    rw [grant] at asked
    rw [alloc, grow, asked, found]
    simp [target]

theorem allocGrown {heapFuel size addr : Nat} {s : Heap.State} {free : List Seg} (h : Tiled s free)
    (range : size + 16 + 4095 < 2 ^ 43)
    (promised : asksVmm heapFuel s.heap size = true → Fresh s addr (reqBytes size))
    (enough : free.length + 1 < heapFuel) :
    ∃ out, s.heap.alloc heapFuel (fun _ => addr) size heapFuel = some out ∧
      out.grown = if asksVmm heapFuel s.heap size then [(addr, reqBytes size)] else [] := by
  obtain ⟨-, bytes⟩ := Heap.reqBytesEq range
  obtain ⟨tries, rfl⟩ : ∃ tries, heapFuel = tries + 2 := ⟨heapFuel - 2, by omega⟩
  obtain ⟨extra, l, b, list, asked, made, -⟩ := @Heap.allocSpec tries s.heap free size (tries + 2) (fun _ => addr)
    h.chain h.separated (fun t mem => (h.below (.inl mem)).2) enough range (fun fit found target => by
      have fresh := promised (asksIff.mpr ⟨fit, found, target⟩)
      refine ⟨⟨addr, addr + reqBytes size, by rw [bytes]; omega⟩, ⟨rfl, rfl⟩, fresh.1, fresh.2.1, ?_⟩
      exact apartAll.mpr (fun x both => (h.fresh rfl rfl fresh x both.1).1 both.2))
  refine ⟨_, made, ?_⟩
  rcases asked with rfl | ⟨r, fit, rfl, granted, found, target⟩
  · rw [asksNothing made rfl]
    rfl
  · have asks : asksVmm (tries + 2) s.heap size = true := asksIff.mpr ⟨fit, found, target⟩
    have start : r.start = addr := granted.1
    have stop : r.stop = r.start + reqBytes size := granted.2
    rw [asks, if_pos rfl, List.map_singleton, start, stop, start, Nat.add_sub_cancel_left]

theorem grantAligned {HHDMOffset fuel size addr : Nat} {v v' : VMM}
    (ok : grant HHDMOffset fuel size v = some (v', addr)) (tagged : Vmm.VMM.WellTagged v) (smooth : Smooth v v') :
    addr % 4096 = 0 := by
  rw [grant, VMM.allocNPages, VMM.allocPages] at ok
  obtain ⟨v1, ensured, taken⟩ := Option.bind_eq_some_iff.mp ok
  obtain ⟨-, c, searched, rfl, assigned⟩ := Vmm.VMM.takePagesCases taken
  have tagged1 := ((Vmm.VMM.ensurePagesTends ensured).kept
    ((Vmm.VMM.assignPagesRefused assigned).symm.trans smooth.1) tagged).1
  obtain ⟨-, -, normal⟩ := Vmm.VMM.searchPagesGrows Vmm.VMM.soundNone tagged1 (Vmm.VMM.beginNormal true) searched rfl
  rw [Paging.IndexOffset.virtualAddrEq normal]
  split
  · omega
  · omega

section steps
variable {HHDMOffset fuel heapFuel : Nat} {s t : State} {free : List Seg}

theorem kmallocHeld {size : Nat} (h : Held s free) (allowed : Allowed HHDMOffset fuel heapFuel s (.kmalloc size))
    (enough : free.length + 1 < heapFuel) (ok : step HHDMOffset fuel heapFuel s (.kmalloc size) = some t) :
    ∃ free', Held t free' ∧ free'.length ≤ free.length + 1 := by
  obtain ⟨range, good⟩ := allowed
  obtain ⟨pages, bytes⟩ := Heap.reqBytesEq range
  have count : (reqPages size).toNat = (size + 4111) / 4096 := by rw [pages]; rfl
  have width : reqBytes size = (reqPages size).toNat * 4096 := by rw [bytes, count]
  rw [step] at ok
  obtain ⟨out, allocated, rfl⟩ := Option.map_eq_some_iff.mp ok
  by_cases asks : asksVmm heapFuel s.heap.heap size = true
  · cases asked : grant HHDMOffset fuel size s.vmm with
    | none =>
      rw [allocRefused asks asked] at allocated
      cases allocated
    | some r =>
      obtain ⟨v, addr⟩ := r
      obtain ⟨smooth, high, below⟩ := good asks _ asked
      have owns := @Vmm.VMM.allocPagesOwns HHDMOffset fuel s.vmm v true (reqPages size).toNat addr _ h.owns
        (by rw [count]; omega) asked smooth.1 smooth.2
      have aligned := grantAligned asked h.owns.sane.tagged smooth
      have new : Paged (addr, (reqPages size).toNat * 4096) :=
        ⟨aligned, Nat.mul_mod_left _ _, by show 0 < _ * 4096; rw [count]; omega, high, below⟩
      have fresh : Fresh s.heap addr (reqBytes size) := by
        rw [width]
        exact regionFresh h.paged new owns.once
      obtain ⟨out', made, grown⟩ := allocGrown h.tiled range (fun _ => fresh) enough
      rw [if_pos asks] at grown
      have answer : ∀ r, grant HHDMOffset fuel size s.vmm = some r → r.2 = addr := by
        intro r given
        cases asked.symm.trans given
        rfl
      rw [allocEq (by rw [pages]; omega) answer made (by rw [grown]; rfl), if_pos asks, asked] at allocated
      cases Option.some.inj allocated
      obtain ⟨t, taken, free', tiled, length⟩ := @Heap.allocTiled heapFuel size (fun _ => addr) s.heap free h.tiled range
        (fun _ => by rw [Heap.pageSize, ← width]; exact fresh) enough
      rw [Heap.step, made] at taken
      cases Option.some.inj taken
      refine ⟨free', ⟨tiled, ?_, ?_⟩, length⟩
      · show Owns v (heapPages (out'.grown ++ s.heap.donated) ++ s.pages)
        rw [grown, width]
        show Owns v ((handedOut addr ((reqPages size).toNat * 4096 / 4096) ++ heapPages s.heap.donated) ++ s.pages)
        rw [Nat.mul_div_cancel _ (by decide), List.append_assoc]
        exact owns
      · intro d mem
        rcases List.mem_append.mp mem with mem | mem
        · rw [grown, width] at mem
          rw [List.mem_singleton.mp mem]
          exact new
        · exact h.paged d mem
  · have quiet : asksVmm heapFuel s.heap.heap size = false := by simpa using asks
    obtain ⟨out', made, grown⟩ := @allocGrown heapFuel size 0 _ _ h.tiled range (fun asks' => absurd asks' asks) enough
    rw [quiet] at grown
    rw [allocServed s.vmm made grown] at allocated
    cases Option.some.inj allocated
    obtain ⟨t, taken, free', tiled, length⟩ := @Heap.allocTiled heapFuel size (fun _ => 0) s.heap free h.tiled range
      (fun asks' => absurd asks' asks) enough
    rw [Heap.step, made] at taken
    cases Option.some.inj taken
    refine ⟨free', ⟨tiled, ?_, ?_⟩, length⟩
    · show Owns s.vmm (heapPages (out'.grown ++ s.heap.donated) ++ s.pages)
      rw [grown]
      exact h.owns
    · show ∀ d ∈ out'.grown ++ s.heap.donated, Paged d
      rw [grown]
      exact h.paged

theorem kfreeHeld {ptr : Nat} (h : Held s free) (live : ptr ∈ s.heap.live) (enough : free.length < heapFuel)
    (ok : step HHDMOffset fuel heapFuel s (.kfree ptr) = some t) :
    ∃ free', Held t free' ∧ free'.length ≤ free.length + 1 := by
  obtain ⟨heap, freed, ⟨-, donated, -⟩, free', tiled, length⟩ := Heap.freeTiled h.tiled live enough
  rw [step, freed] at ok
  cases Option.some.inj ok
  refine ⟨free', ⟨tiled, ?_, ?_⟩, length⟩
  · rw [donated]
    exact h.owns
  · rw [donated]
    exact h.paged

theorem writeHeld {addr : Nat} {value : BitVec 8} (h : Held s free)
    (allowed : Heap.Allowed heapFuel s.heap (.write addr value))
    (ok : step HHDMOffset fuel heapFuel s (.write addr value) = some t) :
    ∃ free', Held t free' ∧ free'.length ≤ free.length + 1 := by
  obtain ⟨heap, written, free', tiled, length⟩ := Heap.writeTiled h.tiled allowed
  rw [step, written] at ok
  cases Option.some.inj ok
  cases Option.some.inj written
  exact ⟨free', ⟨tiled, h.owns, h.paged⟩, length⟩

theorem pageHeld {op : Vmm.Op} (h : Held s free) (allowed : OwnersAllowed HHDMOffset fuel ⟨s.vmm, s.pages⟩ op)
    (ok : step HHDMOffset fuel heapFuel s (.page op) = some t) : Held t free := by
  rw [step] at ok
  obtain ⟨u, taken, rfl⟩ := Option.map_eq_some_iff.mp ok
  refine ⟨h.tiled, ?_, h.paged⟩
  obtain ⟨int, mine, smooth⟩ := allowed
  have smooth := smooth u.vmm (by rw [← Vmm.ownStepVmm, taken]; rfl)
  have shuffle : ∀ new, (new ++ (heapPages s.heap.donated ++ s.pages)).Perm
      (heapPages s.heap.donated ++ (new ++ s.pages)) := by
    intro new
    rw [← List.append_assoc, ← List.append_assoc]
    exact List.perm_append_comm.append_right _
  cases op with
  | allocPage higherHalf =>
    rw [ownStep] at taken
    obtain ⟨⟨v, addr⟩, allocated, rfl⟩ := Option.map_eq_some_iff.mp taken
    exact Owns.perm (Vmm.VMM.allocPagesOwns h.owns (by omega) allocated smooth.1 smooth.2) (shuffle _)
  | allocNPages higherHalf n =>
    rw [ownStep] at taken
    obtain ⟨⟨v, addr⟩, allocated, rfl⟩ := Option.map_eq_some_iff.mp taken
    have few := int higherHalf n rfl
    exact Owns.perm (Vmm.VMM.allocPagesOwns h.owns (by omega) allocated smooth.1 smooth.2) (shuffle _)
  | freePage addr =>
    rw [ownStep] at taken
    obtain ⟨v, freed, rfl⟩ := Option.map_eq_some_iff.mp taken
    obtain ⟨here, index⟩ := mine addr rfl
    have owns := Vmm.VMM.freePageOwns h.owns (List.mem_append_right _ here) index freed
    obtain ⟨-, -, disjoint⟩ := List.nodup_append.mp h.owns.once
    rw [List.erase_append_right _ (fun heap => disjoint _ heap _ here rfl)] at owns
    exact owns

theorem stepHeld {op : Op} (h : Held s free) (allowed : Allowed HHDMOffset fuel heapFuel s op)
    (enough : free.length + 1 < heapFuel) (ok : step HHDMOffset fuel heapFuel s op = some t) :
    ∃ free', Held t free' ∧ free'.length ≤ free.length + 1 := by
  cases op with
  | kmalloc size => exact kmallocHeld h allowed enough ok
  | kfree ptr => exact kfreeHeld h allowed (Nat.lt_of_succ_lt enough) ok
  | write addr value => exact writeHeld h allowed ok
  | page op => exact ⟨free, pageHeld h allowed ok, Nat.le_succ _⟩

theorem runHeld {ops : List Op} (h : Held s free)
    (guarded : Guarded (step HHDMOffset fuel heapFuel) (Allowed HHDMOffset fuel heapFuel) s ops)
    (enough : free.length + ops.length < heapFuel) (ok : run (step HHDMOffset fuel heapFuel) s ops = some t) :
    ∃ free', Held t free' := by
  induction ops generalizing s free with
  | nil =>
    cases Option.some.inj ok
    exact ⟨free, h⟩
  | cons op ops ih =>
    obtain ⟨first, later⟩ := guardedConsIff.mp guarded
    obtain ⟨mid, taken, rest⟩ := Option.bind_eq_some_iff.mp ok
    simp only [List.length_cons] at enough
    obtain ⟨free', held, length⟩ := stepHeld h first (by omega) taken
    exact ih held (later mid taken) (by omega) rest

end steps

theorem initHeld {HHDMOffset fuel heapFuel : Nat} {m : Memory} {v : VMM} {s : State} (owns : Owns v [])
    (good : ∀ r, v.allocPage HHDMOffset fuel true = some r → Good v 1 r) (enough : 0 < heapFuel)
    (ok : init HHDMOffset fuel heapFuel m v = some s) : ∃ free, Held s free ∧ free.length ≤ 1 := by
  obtain ⟨⟨v1, addr⟩, allocated, given⟩ := Option.bind_eq_some_iff.mp ok
  obtain ⟨heap, added, rfl⟩ := Option.map_eq_some_iff.mp given
  obtain ⟨smooth, high, below⟩ := good _ allocated
  have asked : grant HHDMOffset fuel 0 v = some (v1, addr) := allocated
  have aligned := grantAligned asked owns.sane.tagged smooth
  have owns1 := Vmm.VMM.allocPagesOwns owns (by omega) allocated smooth.1 smooth.2
  have new : Paged (addr, 1 * 4096) := ⟨aligned, Nat.mul_mod_left 1 4096, Nat.zero_lt_succ _, high, below⟩
  have fresh : Fresh (Heap.start m) addr 4096 :=
    @regionFresh (Heap.start m) addr 1 [] (fun r mem => by cases mem) new owns1.once
  obtain ⟨t, taken, free, tiled, length⟩ := Heap.addMemoryTiled (Heap.startTiled m) (by decide) fresh enough
  cases added.symm.trans taken
  have donated : heap.donated = [(addr, 4096)] := by
    rw [Heap.step] at added
    obtain ⟨list, -, rfl⟩ := Option.map_eq_some_iff.mp added
    rfl
  refine ⟨free, ⟨tiled, ?_, ?_⟩, length⟩
  · rw [donated]
    have single : heapPages [(addr, 4096)] = handedOut addr 1 := by simp [heapPages]
    rw [single]
    exact owns1
  · rw [donated]
    intro r mem
    rw [List.mem_singleton.mp mem]
    exact new

def translate (v : VMM) (x : Nat) : Option Nat :=
  (v.mapping x).bind fun e => if e.isPresent then some (e.getPhysicalAddr + x % 4096) else none

theorem backedTranslate {v : VMM} {x f : Nat} (backed : Backed v (getIndexOffset x).page f) :
    translate v x = some (f * 4096 + x % 4096) := by
  obtain ⟨e, read, present, -, address⟩ := backed.mapped
  rw [translate, VMM.mapping, read, Option.bind_some, present, if_pos rfl, address]
  rfl

structure Sound (s : State) (free : List Seg) : Prop where
  partition : Heap.Partition s.heap free
  backed : ∀ x, Donated s.heap.donated x → ∃ f, translate s.vmm x = some (f * 4096 + x % 4096) ∧
    f < s.vmm.pmm.frameCnt ∧ s.vmm.pmm.used f = true ∧
    ∀ q t, s.vmm.tableAt q = some t → f ≠ t / 4096 ∧ f ≠ t / 4096 + 1
  apart : ∀ x y, Donated s.heap.donated x → Donated s.heap.donated y → translate s.vmm x = translate s.vmm y → x = y
  others : ∀ x p f, Donated s.heap.donated x → p ∈ s.pages → Backed s.vmm p f →
    translate s.vmm x ≠ some (f * 4096 + x % 4096)

theorem Held.sound {s : State} {free : List Seg} (h : Held s free) : Sound s free := by
  have mine : ∀ x, Donated s.heap.donated x → ∃ f, Backed s.vmm (getIndexOffset x).page f := fun x given =>
    h.owns.backed _ (List.mem_append_left _ (heapPage h.paged given))
  have high : ∀ x, Donated s.heap.donated x → 0xffff800000000000 ≤ x ∧ x < 2 ^ 64 := by
    rintro x ⟨r, mem, low, below⟩
    obtain ⟨-, -, -, half, top⟩ := h.paged r mem
    omega
  refine ⟨Heap.tiledPartition h.tiled, ?_, ?_, ?_⟩
  · intro x given
    obtain ⟨f, backed⟩ := mine x given
    exact ⟨f, backedTranslate backed, backed.frame, backed.used, backed.apart⟩
  · intro x y givenX givenY same
    obtain ⟨f, backed⟩ := mine x givenX
    obtain ⟨g, backed'⟩ := mine y givenY
    rw [backedTranslate backed, backedTranslate backed', Option.some.injEq] at same
    have frames : f = g := by omega
    subst frames
    have pages := h.owns.distinct _ (List.mem_append_left _ (heapPage h.paged givenX)) _
      (List.mem_append_left _ (heapPage h.paged givenY)) f backed backed'
    rw [pageOf, pageOf] at pages
    have := high x givenX
    have := high y givenY
    omega
  · intro x p f given mem backed same
    obtain ⟨g, backed'⟩ := mine x given
    rw [backedTranslate backed', Option.some.injEq] at same
    have frames : g = f := by omega
    subst frames
    have heap := heapPage h.paged given
    have pages := h.owns.distinct _ (List.mem_append_left _ heap) _ (List.mem_append_right _ mem) g backed' backed
    obtain ⟨-, -, disjoint⟩ := List.nodup_append.mp h.owns.once
    exact disjoint _ heap _ mem pages

/-- The kernel heap over the VMM: from VMM::init and MallocHeap::init on, in every run of kmalloc,
kfree, writes into live blocks and calls of other users of the VMM, the free nodes and the live
blocks tile the heap's regions, and every byte of these has physical memory of its own, in a taken
frame that is no table's and no other user's. -/
theorem kernelHeapSound {HHDMOffset fuel heapFuel : Nat} {contents : Nat → Paging.Table} {pmm : Pmm.PMM}
    {mem : Pmm.PhysicalMemMap} {otherRanges : List Pmm.MemRange} {m : Memory} {v₀ : VMM} {s₀ s : State} {ops : List Op}
    (counted : pmm.Counted) (memory : pmm.frameCnt ≤ 2 ^ 40)
    (booted : VMM.init HHDMOffset fuel contents pmm mem otherRanges = some v₀) (served : v₀.refused = 0)
    (good : ∀ r, v₀.allocPage HHDMOffset fuel true = some r → Good v₀ 1 r)
    (started : init HHDMOffset fuel heapFuel m v₀ = some s₀)
    (guarded : Guarded (step HHDMOffset fuel heapFuel) (Allowed HHDMOffset fuel heapFuel) s₀ ops)
    (enough : ops.length + 1 < heapFuel) (visited : Visits (step HHDMOffset fuel heapFuel) s₀ ops s) :
    ∃ free, Sound s free := by
  obtain ⟨tagged, takes⟩ := Vmm.VMM.initKept booted served
  have owns : Owns v₀ [] :=
    ⟨⟨tagged, takes.counted counted, takes.frames ▸ memory⟩, by simp, List.nodup_nil, by simp⟩
  obtain ⟨free, held, length⟩ := initHeld owns good (by omega) started
  obtain ⟨pre, post, rfl, reached⟩ := visited
  rw [List.length_append] at enough
  obtain ⟨free', last⟩ := runHeld held (guardedTake guarded) (by omega) reached
  exact ⟨free', last.sound⟩

/- A block of more than the first page, a page for somebody else, and the block freed. -/
def sampleOps : List Op := [.kmalloc 5000, .page (.allocPage true), .kfree 0xffff800000016010]

def marks (v : VMM) : Nat × Nat := (v.refused, v.overwritten)

theorem kernelHeapSoundSample : ∃ v₀ s₀ s, Vmm.smallBoot = some v₀ ∧
    init 0xffff800000000000 3000 9 (fun _ => 0) v₀ = some s₀ ∧ run (step 0xffff800000000000 3000 9) s₀ sampleOps = some s ∧
    ∃ free, Sound s free := by
  have calls : (Vmm.smallBoot.bind fun v₀ => (v₀.allocPage 0xffff800000000000 3000 true).bind fun r =>
      (init 0xffff800000000000 3000 9 (fun _ => 0) v₀).bind fun s₀ => (grant 0xffff800000000000 3000 5000 s₀.vmm).bind fun g =>
        (step 0xffff800000000000 3000 9 s₀ (.kmalloc 5000)).bind fun s₁ =>
          (step 0xffff800000000000 3000 9 s₁ (.page (.allocPage true))).bind fun s₂ =>
            (step 0xffff800000000000 3000 9 s₂ (.kfree 0xffff800000016010)).map fun s₃ =>
              ([marks v₀, marks r.1, marks s₀.vmm, marks g.1, marks s₁.vmm, marks s₂.vmm], [r.2, g.2], s₂.heap.live,
                s₃.pages)) =
      some ([(0, 0), (0, 0), (0, 0), (0, 0), (0, 0), (0, 0)], [0xffff800000016000, 0xffff800000017000],
        [0xffff800000016010], [34359738393]) := by decide +kernel
  obtain ⟨v₀, booted, calls⟩ := Option.bind_eq_some_iff.mp calls
  obtain ⟨r, first, calls⟩ := Option.bind_eq_some_iff.mp calls
  obtain ⟨s₀, started, calls⟩ := Option.bind_eq_some_iff.mp calls
  obtain ⟨g, granted, calls⟩ := Option.bind_eq_some_iff.mp calls
  obtain ⟨s₁, one, calls⟩ := Option.bind_eq_some_iff.mp calls
  obtain ⟨s₂, two, calls⟩ := Option.bind_eq_some_iff.mp calls
  obtain ⟨s₃, three, facts⟩ := Option.map_eq_some_iff.mp calls
  simp only [Prod.mk.injEq, List.cons.injEq, and_true, marks] at facts
  obtain ⟨⟨⟨refused₀, written₀⟩, ⟨refusedR, writtenR⟩, ⟨refusedS, writtenS⟩, ⟨refusedG, writtenG⟩, ⟨refused₁, written₁⟩,
    refused₂, written₂⟩, ⟨addr, addr'⟩, live, pages⟩ := facts
  have whole : run (step 0xffff800000000000 3000 9) s₀ sampleOps = some s₃ := by
    simp only [sampleOps, run, one, two, three, Option.bind_some]
  have good : ∀ q, v₀.allocPage 0xffff800000000000 3000 true = some q → Good v₀ 1 q := by
    intro q ok
    cases first.symm.trans ok
    exact ⟨⟨refusedR.trans refused₀.symm, writtenR.trans written₀.symm⟩, by omega, by omega⟩
  refine ⟨v₀, s₀, s₃, booted, started, whole, ?_⟩
  refine kernelHeapSound Vmm.smallCounted (by decide) booted refused₀ good started ?_ (by decide) ⟨_, [], rfl, whole⟩
  refine guardedConsIff.mpr ⟨⟨by decide, fun _ q ok => ?_⟩, fun t ok => ?_⟩
  · cases granted.symm.trans ok
    exact ⟨⟨refusedG.trans refusedS.symm, writtenG.trans writtenS.symm⟩, by omega, by rw [addr']; decide⟩
  cases one.symm.trans ok
  refine guardedConsIff.mpr ⟨⟨fun _ _ other => (by cases other), fun _ other => (by cases other), fun v ok => ?_⟩,
    fun t ok => ?_⟩
  · obtain ⟨u, taken, made⟩ := Option.map_eq_some_iff.mp two
    have same := Vmm.ownStepVmm 0xffff800000000000 3000 ⟨s₁.vmm, s₁.pages⟩ (.allocPage true)
    rw [taken, ok] at same
    have vmm : s₂.vmm = v := by
      rw [← made]
      exact Option.some.inj same
    rw [← vmm]
    exact ⟨refused₂.trans refused₁.symm, written₂.trans written₁.symm⟩
  cases two.symm.trans ok
  refine guardedConsIff.mpr ⟨?_, fun _ _ => guardedNil _ _ _⟩
  show 0xffff800000016010 ∈ s₂.heap.live
  rw [live]
  exact List.mem_singleton.mpr rfl

end DimOS.Memory.KernelHeap
