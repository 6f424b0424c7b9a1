import Mathlib
import DimOS.Memory.VmmTree

/-! One new table. A scheme finds two frames for it and, under USE_VMM, two pages to reach
them by; addTable then hangs it into the tree. The table is new, the tags agree again, and
the leaf entries stay but for the two pages. All of this rests on the PMM not having refused
the frames, which the field refused records. -/
namespace DimOS.Memory.Vmm
open Pmm
open Paging
open Lib.PathTree

namespace VMM

@[simp] theorem writeEntryRoot (v : VMM) (pte : Nat × Nat) (e : Entry) :
    (v.writeEntry pte e).pml4 = v.pml4 := rfl

@[simp] theorem writeEntryPmm (v : VMM) (pte : Nat × Nat) (e : Entry) :
    (v.writeEntry pte e).pmm = v.pmm := rfl

@[simp] theorem writeEntryRefused (v : VMM) (pte : Nat × Nat) (e : Entry) :
    (v.writeEntry pte e).refused = v.refused := rfl

theorem writeEntryMem (v : VMM) (pte : Nat × Nat) (e : Entry) (u : Nat) :
    (v.writeEntry pte e).mem u = if u = pte.1 then (v.mem pte.1).setEntry pte.2 e else v.mem u :=
  writeTableMem v pte.1 u _

theorem writeEntryTableAt (v : VMM) (pte : Nat × Nat) (e : Entry) :
    (v.writeEntry pte e).edges = v.edges ∧ (v.writeEntry pte e).tableAt = v.tableAt := by
  have graph : (v.writeEntry pte e).edges = v.edges := by
    funext u i
    unfold edges
    rw [writeEntryMem]
    split
    · next here => rw [here, Table.setEntryNext]
    · rfl
  refine ⟨graph, ?_⟩
  funext q
  unfold tableAt
  rw [graph]
  rfl

theorem writeEntryLeaf {v : VMM} (tagged : WellTagged v) {q : List Nat} {t i : Nat}
    (found : v.tableAt q = some t) (e : Entry) (q' : List Nat) (j : Nat) :
    (v.writeEntry (t, i) e).leaf q' j = if q' = q ∧ j = i then some e else v.leaf q' j := by
  unfold leaf
  rw [(writeEntryTableAt v (t, i) e).2]
  cases found' : v.tableAt q' with
  | none =>
    have other : ¬ (q' = q ∧ j = i) := by
      rintro ⟨rfl, -⟩
      rw [found] at found'
      contradiction
    rw [if_neg other]
    rfl
  | some u =>
    simp only [Option.map_some, writeEntryMem]
    by_cases here : u = t
    · subst here
      have path := tagged.proper q' q u found' found
      rw [if_pos rfl, Table.setEntryAt]
      by_cases index : j = i
      · rw [if_pos index, if_pos ⟨path, index⟩]
      · rw [if_neg index, if_neg (fun both => index both.2)]
    · have other : ¬ (q' = q ∧ j = i) := by
        rintro ⟨rfl, -⟩
        rw [found] at found'
        exact here (Option.some.inj found').symm
      rw [if_neg here, if_neg other]

theorem writeEntryTagged {v : VMM} (tagged : WellTagged v) {q : List Nat} {t i : Nat}
    (found : v.tableAt q = some t) (last : q.length = 3) {e : Entry}
    (level : ((v.mem t).setEntry i e).getLevel = (v.mem t).getLevel) :
    WellTagged (v.writeEntry (t, i) e) := by
  obtain ⟨graph, same⟩ := writeEntryTableAt v (t, i) e
  refine ⟨?_, ?_, ?_, ?_, ?_, ?_⟩
  · rw [same]
    exact tagged.depth
  · intro q' u found'
    rw [same] at found'
    rw [writeEntryMem]
    split
    · next here =>
      subst here
      rw [level]
      exact tagged.tag q' u found'
    · exact tagged.tag q' u found'
  · intro q' u j found' inner
    rw [same] at found'
    have other : u ≠ t := by
      rintro rfl
      rw [tagged.proper q' q u found' found] at inner
      omega
    rw [writeEntryMem, if_neg other]
    exact tagged.linked q' u j found' inner
  · rw [same]
    exact tagged.held
  · rw [graph]
    exact tagged.proper
  · rw [same]
    exact tagged.apart

/- A present, writable mapping to addr, as all four places that map a page write it. -/
def mapPage (v : VMM) (pte : Nat × Nat) (addr : Nat) : VMM :=
  (v.overwrite (v.readEntry pte).isPresent).writeEntry pte ((v.readEntry pte).mapTo addr)

theorem assignFrameToPageEq (v : VMM) (pte : Nat × Nat) (addr : Nat) (higherHalf : Bool) :
    v.assignFrameToPage pte addr higherHalf = (v.mapPage pte addr).addAvailable higherHalf (-1) := rfl

@[simp] theorem mapPageRoot (v : VMM) (pte : Nat × Nat) (addr : Nat) :
    (v.mapPage pte addr).pml4 = v.pml4 := rfl

@[simp] theorem mapPagePmm (v : VMM) (pte : Nat × Nat) (addr : Nat) :
    (v.mapPage pte addr).pmm = v.pmm := rfl

@[simp] theorem mapPageRefused (v : VMM) (pte : Nat × Nat) (addr : Nat) :
    (v.mapPage pte addr).refused = v.refused := rfl

theorem mapPageTableAt (v : VMM) (pte : Nat × Nat) (addr : Nat) :
    (v.mapPage pte addr).tableAt = v.tableAt :=
  (writeEntryTableAt (v.overwrite _) pte _).2

theorem mapPageTagged {v : VMM} (tagged : WellTagged v) {q : List Nat} {t i : Nat}
    (found : v.tableAt q = some t) (last : q.length = 3) (addr : Nat) :
    WellTagged (v.mapPage (t, i) addr) := by
  have counted : WellTagged (v.overwrite (v.readEntry (t, i)).isPresent) :=
    tagged.frame rfl rfl (fun _ taken => taken)
  exact writeEntryTagged counted found last (Table.mapLevel (v.mem t) i addr)

theorem mapPageLeaf {v : VMM} (tagged : WellTagged v) {q : List Nat} {t i : Nat}
    (found : v.tableAt q = some t) (addr : Nat) (q' : List Nat) (j : Nat) :
    (v.mapPage (t, i) addr).leaf q' j =
      if q' = q ∧ j = i then some ((v.readEntry (t, i)).mapTo addr) else v.leaf q' j := by
  have counted : WellTagged (v.overwrite (v.readEntry (t, i)).isPresent) :=
    tagged.frame rfl rfl (fun _ taken => taken)
  exact writeEntryLeaf counted found _ q' j

/- What a scheme has done when it returns: paddr is free for a table, no table moved, and the
only leaf entries that changed map paddr. -/
structure Placed (v v' : VMM) (paddr : Nat) : Prop where
  tagged : WellTagged v'
  root : v'.pml4 = v.pml4
  tables : v'.tableAt = v.tableAt
  used : ∀ f, v.pmm.used f = true → v'.pmm.used f = true
  frames : v'.pmm.frameCnt = v.pmm.frameCnt
  counted : v.pmm.Counted → v'.pmm.Counted
  fresh : ∀ q, v.tableAt q ≠ some paddr
  clear : v.pmm.used (paddr / frameSize) = false
  apart : ∀ q t, v.tableAt q = some t → FramesApart t paddr
  held : Held v'.pmm paddr
  leaves : ∀ q i, q.length = 3 → v'.leaf q i = v.leaf q i ∨ ∃ e, v'.leaf q i = some e ∧ Maps e paddr

theorem takeTableFramesRefused (v : VMM) : v.refused ≤ v.takeTableFrames.1.refused :=
  Nat.le_add_right _ _

theorem framesApartOfClear {p : PMM} {t f : Nat} (aligned : t % frameSize = 0) (low : p.used (t / frameSize) = true)
    (high : p.used (t / frameSize + 1) = true) (first : p.used f = false) (second : p.used (f + 1) = false) :
    FramesApart t (f * frameSize) := by
  have frame : t = t / frameSize * frameSize := by
    have := Nat.div_add_mod t frameSize
    rw [aligned] at this
    rw [Nat.mul_comm]
    omega
  have other : ∀ a b, p.used a = true → p.used b = false → a ≠ b := by
    rintro a b taken free rfl
    rw [taken] at free
    contradiction
  have same := other _ _ low first
  have after := other _ _ high first
  have before := other _ _ low second
  unfold frameSize at frame same after before ⊢
  unfold FramesApart frameSize
  omega

theorem takeTableFramesPlaced {v : VMM} (tagged : WellTagged v)
    (served : v.takeTableFrames.1.refused = v.refused) :
    Placed v v.takeTableFrames.1 v.takeTableFrames.2 := by
  rcases PMM.allocNFramesCases v.pmm 2 with refusal | ⟨f, made, -, clear⟩
  · have : v.takeTableFrames.1.refused = v.refused + 1 := by
      show v.refused + ((v.pmm.allocNFrames 2).1.usedframes == v.pmm.usedframes).toNat = _
      rw [refusal]
      simp
    omega
  · obtain ⟨bits, frames, -, -⟩ := PMM.takeFramesSpec clear
    have pmm : v.takeTableFrames.1.pmm = PMM.takeFrames 2 f v.pmm := congrArg Prod.fst made
    have paddr : v.takeTableFrames.2 = f * frameSize := congrArg Prod.snd made
    have used : ∀ g, v.pmm.used g = true → v.takeTableFrames.1.pmm.used g = true := by
      intro g taken
      rw [pmm, bits, taken]
      split <;> rfl
    have number : f * frameSize / frameSize = f := Nat.mul_div_cancel f (by decide)
    have apart : ∀ q t, v.tableAt q = some t → FramesApart t v.takeTableFrames.2 := by
      intro q t found
      obtain ⟨aligned, low, high⟩ := tagged.held q t found
      rw [paddr]
      exact framesApartOfClear aligned low high (clear 0 (by omega)) (clear 1 (by omega))
    refine ⟨tagged.frame rfl rfl used, rfl, rfl, used, ?_, ?_, ?_, ?_, apart, ?_, fun q i _ => .inl rfl⟩
    · rw [pmm, frames]
    · rw [pmm]
      exact fun counted => PMM.takeFramesCounted counted 2 f
    · exact fun q found => (apart q _ found).1 rfl
    · rw [paddr, number]
      exact clear 0 (by omega)
    · rw [paddr]
      refine ⟨Nat.mul_mod_left f frameSize, ?_, ?_⟩
      · rw [number, pmm, bits, if_pos (by omega)]
      · rw [number, pmm, bits, if_pos (by omega)]

theorem Placed.mapPage {v v' : VMM} {paddr : Nat} (placed : Placed v v' paddr) {q : List Nat}
    {t addr : Nat} (i : Nat) (found : v'.tableAt q = some t) (last : q.length = 3)
    (frame : addr = paddr ∨ addr = paddr + frameSize) : Placed v (v'.mapPage (t, i) addr) paddr := by
  refine ⟨mapPageTagged placed.tagged found last addr, placed.root,
    (mapPageTableAt v' (t, i) addr).trans placed.tables, placed.used, placed.frames, placed.counted,
    placed.fresh, placed.clear, placed.apart, placed.held, ?_⟩
  intro q' j last'
  rw [mapPageLeaf placed.tagged found]
  split
  · refine .inr ⟨_, rfl, Entry.mapToPresent _ _, ?_⟩
    rw [Entry.mapToPhysical]
    rcases frame with rfl | rfl
    · exact .inl rfl
    · exact .inr rfl
  · exact placed.leaves q' j last'

theorem Placed.congr {v v' v'' : VMM} {paddr : Nat} (placed : Placed v v' paddr)
    (memory : v''.mem = v'.mem) (root : v''.pml4 = v'.pml4) (pmm : v''.pmm = v'.pmm) :
    Placed v v'' paddr := by
  refine ⟨placed.tagged.frame memory root (by rw [pmm]; exact fun f taken => taken),
    root.trans placed.root, (tableAtCongr memory root).trans placed.tables, ?_, ?_, ?_, placed.fresh,
    placed.clear, placed.apart, ?_, ?_⟩
  · rw [pmm]
    exact placed.used
  · rw [pmm]
    exact placed.frames
  · rw [pmm]
    exact placed.counted
  · rw [pmm]
    exact placed.held
  · rw [leafCongr memory root]
    exact placed.leaves

theorem addTableRoot (HHDMOffset : Nat) (v : VMM) (t i level : Nat) (original : IndexOffset)
    (paddr : Nat) : (v.addTable HHDMOffset t i level original paddr).pml4 = v.pml4 ∧
      (v.addTable HHDMOffset t i level original paddr).pmm = v.pmm ∧
      (v.addTable HHDMOffset t i level original paddr).refused = v.refused := by
  simp only [addTable]
  split
  · simp
  · simp

theorem addTableMem (HHDMOffset : Nat) (v : VMM) {t paddr : Nat} (i level : Nat)
    (original : IndexOffset) (other : t ≠ paddr) (u : Nat) :
    (v.addTable HHDMOffset t i level original paddr).mem u =
      if u = t then ((v.mem t).setEntry i (((v.mem t).entries i).mapTo paddr)).setNext i paddr
      else if u = paddr then Table.init (level + 1) else v.mem u := by
  have word := Entry.mapToComm ((v.mem t).entries i) paddr
  simp only [addTable]
  split
  · rw [addAvailableMem]
    simp only [writeTableMem, if_neg other, word]
  · simp only [writeTableMem, if_neg other, word]

section addTable
variable {HHDMOffset : Nat} {v : VMM} {q : List Nat} {t i level paddr : Nat} {original : IndexOffset}

theorem addTableGrafted (other : t ≠ paddr) (free : (v.mem t).nextTables i = none) :
    Grafted v.edges (v.addTable HHDMOffset t i level original paddr).edges t i paddr := by
  refine ⟨free, ?_, ?_, ?_⟩
  · unfold edges
    rw [addTableMem HHDMOffset v i level original other, if_pos rfl, Table.setNextAt, if_pos rfl]
  · intro j
    unfold edges
    rw [addTableMem HHDMOffset v i level original other, if_neg (Ne.symm other), if_pos rfl,
      Table.initNext]
  · intro u j old elsewhere
    unfold edges
    rw [addTableMem HHDMOffset v i level original other]
    by_cases here : u = t
    · rw [if_pos here, Table.setNextAt, if_neg (fun index => elsewhere ⟨here, index⟩),
        Table.setEntryNext, here]
    · rw [if_neg here, if_neg old]

theorem addTableTableAt (tagged : WellTagged v) (found : v.tableAt q = some t)
    (free : (v.mem t).nextTables i = none) (fresh : ∀ q, v.tableAt q ≠ some paddr) (q' : List Nat) :
    (v.addTable HHDMOffset t i level original paddr).tableAt q' =
      if q' = q ++ [i] then some paddr else v.tableAt q' := by
  have other : t ≠ paddr := fun same => fresh q (same ▸ found)
  unfold tableAt
  rw [(addTableRoot HHDMOffset v t i level original paddr).1]
  exact walkGrafted (addTableGrafted other free) tagged.proper found fresh q'

theorem addTableLeaf (tagged : WellTagged v) (found : v.tableAt q = some t) (inner : q.length < 3)
    (free : (v.mem t).nextTables i = none) (fresh : ∀ q, v.tableAt q ≠ some paddr) {q' : List Nat}
    (last : q'.length = 3) (j : Nat) :
    (v.addTable HHDMOffset t i level original paddr).leaf q' j =
      if q' = q ++ [i] then some ((Table.init (level + 1)).entries j) else v.leaf q' j := by
  have other : t ≠ paddr := fun same => fresh q (same ▸ found)
  unfold leaf
  rw [addTableTableAt tagged found free fresh]
  by_cases new : q' = q ++ [i]
  · rw [if_pos new, if_pos new, Option.map_some,
      addTableMem HHDMOffset v i level original other, if_neg (Ne.symm other), if_pos rfl]
  · rw [if_neg new, if_neg new]
    cases found' : v.tableAt q' with
    | none => rfl
    | some u =>
      have notParent : u ≠ t := by
        rintro rfl
        rw [tagged.proper q' q u found' found] at last
        omega
      have old : u ≠ paddr := fun same => fresh q' (same ▸ found')
      rw [Option.map_some, Option.map_some, addTableMem HHDMOffset v i level original other,
        if_neg notParent, if_neg old]

theorem addTableTagged (tagged : WellTagged v) (found : v.tableAt q = some t)
    (depth : q.length = level) (inner : level < 3) (free : (v.mem t).nextTables i = none)
    (fresh : ∀ q, v.tableAt q ≠ some paddr) (apart : ∀ q t, v.tableAt q = some t → FramesApart t paddr)
    (held : Held v.pmm paddr) : WellTagged (v.addTable HHDMOffset t i level original paddr) := by
  have other : t ≠ paddr := fun same => fresh q (same ▸ found)
  have tree := @addTableTableAt HHDMOffset v q t i level paddr original tagged found free fresh
  have memory := addTableMem HHDMOffset v i level original other
  obtain ⟨root, pmm, -⟩ := addTableRoot HHDMOffset v t i level original paddr
  refine ⟨?_, ?_, ?_, ?_, ?_, ?_⟩
  · intro q' u found'
    rw [tree] at found'
    split at found'
    · next new =>
      rw [new, List.length_append, depth, List.length_singleton]
      omega
    · exact tagged.depth q' u found'
  · intro q' u found'
    rw [tree] at found'
    rw [memory]
    split at found'
    · next new =>
      cases Option.some.inj found'
      rw [if_neg (Ne.symm other), if_pos rfl, Table.initLevel (by omega), new, List.length_append, depth,
        List.length_singleton]
    · have old : u ≠ paddr := fun same => fresh q' (same ▸ found')
      rw [if_neg old]
      split
      · next here =>
        subst here
        rw [Table.setNextLevel, Table.mapLevel]
        exact tagged.tag q' u found'
      · exact tagged.tag q' u found'
  · intro q' u j found' inner'
    rw [tree] at found'
    rw [memory]
    split at found'
    · cases Option.some.inj found'
      rw [if_neg (Ne.symm other), if_pos rfl, Table.initPresent (by omega), Table.initNext]
      simp
    · have old : u ≠ paddr := fun same => fresh q' (same ▸ found')
      rw [if_neg old]
      split
      · next here =>
        subst here
        rw [Table.setNextAt, Table.setNextEntries, Table.setEntryAt, Table.setEntryNext]
        by_cases index : j = i
        · simp [index]
        · rw [if_neg index, if_neg index]
          exact tagged.linked q' u j found' inner'
      · exact tagged.linked q' u j found' inner'
  · intro q' u found'
    rw [tree] at found'
    rw [pmm]
    split at found'
    · cases Option.some.inj found'
      exact held
    · exact tagged.held q' u found'
  · rw [root]
    exact properGrafted (addTableGrafted other free) tagged.proper found fresh
  · intro q' u q'' u' found' found'' differ
    rw [tree] at found' found''
    split at found'
    · next new =>
      cases Option.some.inj found'
      rw [if_neg (fun new' => differ (new.trans new'.symm))] at found''
      exact (apart q'' u' found'').symm
    · split at found''
      · cases Option.some.inj found''
        exact apart q' u found'
      · exact tagged.apart q' u q'' u' found' found'' differ

end addTable

theorem Placed.grow {HHDMOffset : Nat} {v v' : VMM} {q : List Nat} {t i level paddr : Nat}
    {original : IndexOffset} (placed : Placed v v' paddr) (found : v.tableAt q = some t)
    (depth : q.length = level) (inner : level < 3) (free : (v.mem t).nextTables i = none) :
    WellTagged (v'.addTable HHDMOffset t i level original paddr) ∧
      Grows v (v'.addTable HHDMOffset t i level original paddr) ∧
      (v'.addTable HHDMOffset t i level original paddr).tableAt (q ++ [i]) = some paddr := by
  have missing : v.tableAt (q ++ [i]) = none := by
    unfold tableAt at found ⊢
    rw [walkSnoc, found]
    exact free
  have found' : v'.tableAt q = some t := by rw [placed.tables, found]
  have free' : (v'.mem t).nextTables i = none := by
    have : v'.tableAt (q ++ [i]) = none := by rw [placed.tables, missing]
    unfold tableAt at found' this
    rw [walkSnoc, found'] at this
    exact this
  have fresh' : ∀ q, v'.tableAt q ≠ some paddr := by
    rw [placed.tables]
    exact placed.fresh
  have tree := @addTableTableAt HHDMOffset v' q t i level paddr original placed.tagged found' free' fresh'
  have new : (v'.addTable HHDMOffset t i level original paddr).tableAt (q ++ [i]) = some paddr := by
    rw [tree, if_pos rfl]
  obtain ⟨root, pmm, -⟩ := addTableRoot HHDMOffset v' t i level original paddr
  have apart' : ∀ q t, v'.tableAt q = some t → FramesApart t paddr := by
    rw [placed.tables]
    exact placed.apart
  refine ⟨addTableTagged placed.tagged found' depth inner free' fresh' apart' placed.held, ?_, new⟩
  refine ⟨root.trans placed.root, ?_, ?_, ?_, ?_, ?_, ?_⟩
  · intro q' u before
    rw [tree, placed.tables]
    split
    · next same =>
      rw [same, missing] at before
      contradiction
    · exact before
  · rw [pmm]
    exact placed.used
  · rw [pmm]
    exact placed.frames
  · rw [pmm]
    exact placed.counted
  · intro q' u before after
    rw [tree, placed.tables] at after
    split at after
    · cases Option.some.inj after
      exact placed.clear
    · rw [before] at after
      contradiction
  · intro q' j last
    rw [LeafKept, addTableLeaf placed.tagged found' (by omega) free' fresh' last]
    split
    · next same =>
      refine .inr (.inl ⟨?_, ?_⟩)
      · rw [same, leaf, missing]
        rfl
      · intro e made
        rw [← Option.some.inj made]
        exact Table.initPresent (by omega) j
    · rcases placed.leaves q' j last with kept | ⟨e, written, maps⟩
      · exact .inl kept
      · exact .inr (.inr ⟨e, written, q ++ [i], paddr, missing, new, maps⟩)

end VMM
end DimOS.Memory.Vmm
