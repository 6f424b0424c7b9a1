import Mathlib
import DimOS.Memory.VmmKept

/-! The pages that allocPage and allocNPages hand out, over whole runs. Each of them is mapped to a
frame of its own until it is freed: the code keeps no such list, so the state holds it beside the VMM. -/
namespace DimOS.Memory.Vmm
open Pmm
open Paging
open Paging.IndexOffset (getIndexOffset)
open Lib.Transition

namespace VMM

/- Page p is mapped to frame f, which is taken and holds no part of a table. -/
structure Backed (v : VMM) (p f : Nat) : Prop where
  page : p < 2 ^ 36
  frame : f < v.pmm.frameCnt
  used : v.pmm.used f = true
  mapped : ∃ e, v.leafAt p = some e ∧ e.isPresent = true ∧ e.isWriteable = true ∧ e.getPhysicalAddr = f * frameSize
  apart : ∀ q t, v.tableAt q = some t → f ≠ t / frameSize ∧ f ≠ t / frameSize + 1

theorem Backed.same {v : VMM} {p f g : Nat} (left : Backed v p f) (right : Backed v p g) : f = g := by
  obtain ⟨e, read, -, -, address⟩ := left.mapped
  obtain ⟨e', read', -, -, address'⟩ := right.mapped
  cases read.symm.trans read'
  exact Nat.eq_of_mul_eq_mul_right (by decide) (address.symm.trans address')

structure Owns (v : VMM) (pages : List Nat) : Prop where
  sane : Sane v
  backed : ∀ p ∈ pages, ∃ f, Backed v p f
  once : pages.Nodup
  distinct : ∀ p ∈ pages, ∀ r ∈ pages, ∀ f, Backed v p f → Backed v r f → p = r

def handedOut (addr n : Nat) : List Nat := (List.range n).map fun k => (getIndexOffset (addr + 4096 * k)).page

theorem mem_handedOut {addr n p : Nat} :
    p ∈ handedOut addr n ↔ ∃ k, k < n ∧ (getIndexOffset (addr + 4096 * k)).page = p := by
  simp [handedOut]

theorem assignPagesUsed {HHDMOffset left : Nat} {v v' : VMM} {c : IndexOffset} {f : Nat}
    (ok : assignPages HHDMOffset left v c = some v') (taken : v.pmm.used f = true) : v'.pmm.used f = true := by
  induction left generalizing v c with
  | zero =>
    cases Option.some.inj ok
    exact taken
  | succ left ih =>
    simp only [assignPages] at ok
    split at ok
    · contradiction
    · refine ih ok ?_
      rw [assignFrameToPageEq, addAvailablePmm, mapPagePmm]
      exact allocFrameUsed v.pmm taken

theorem nextPageAfter {c : IndexOffset} (normal : c.Normal) (k : Nat) :
    (c.nextPage.page + k) % 2 ^ 36 = (c.page + (k + 1)) % 2 ^ 36 := by
  have next_ := (IndexOffset.nextPageSpec normal).2
  omega

theorem pageNotNext {c : IndexOffset} (normal : c.Normal) {left j : Nat} (few : left + 1 ≤ 2 ^ 36) (below : j < left) :
    c.page ≠ (c.nextPage.page + j) % 2 ^ 36 := by
  have bound := IndexOffset.normalPage normal
  rw [nextPageAfter normal]
  omega

theorem assignPagesTaken {HHDMOffset left : Nat} {v v' : VMM} {c : IndexOffset} (tagged : WellTagged v)
    (normal : c.Normal) (counted : v.pmm.Counted) (memory : v.pmm.frameCnt ≤ 2 ^ 40)
    (room : v.pmm.usedframes + left ≤ v.pmm.frameCnt) (few : left ≤ 2 ^ 36)
    (ok : assignPages HHDMOffset left v c = some v') (k : Nat) (below : k < left) {e : Entry}
    (read : v'.leafAt ((c.page + k) % 2 ^ 36) = some e) : v'.pmm.used (e.getPhysicalAddr / frameSize) = true := by
  induction left generalizing v c k with
  | zero => omega
  | succ left ih =>
    obtain ⟨f, v1, low, -, tagged1, pmm1, ⟨e', there⟩, rest⟩ := assignRound tagged normal counted (by omega) ok
    obtain ⟨normalN, pageN⟩ := IndexOffset.nextPageSpec normal
    have bound := IndexOffset.normalPage normal
    have counted1 : v1.pmm.Counted := by
      rw [pmm1]
      exact PMM.countedSet counted f
    have room1 : v1.pmm.usedframes + left ≤ v1.pmm.frameCnt := by
      rw [pmm1]
      show v.pmm.usedframes + 1 + (left : Int) ≤ v.pmm.frameCnt
      push_cast at room
      omega
    have memory1 : v1.pmm.frameCnt ≤ 2 ^ 40 := by
      rw [pmm1]
      exact memory
    cases k with
    | zero =>
      obtain ⟨frames, assigned⟩ := assignPagesSpec tagged1 normalN counted1 room1 (by omega) rest
      have kept := assigned.others c.page bound (fun j => pageNotNext normal few)
      rw [Nat.add_zero, Nat.mod_eq_of_lt bound, kept, there _ bound, if_pos rfl] at read
      have number : f * 4096 / frameSize = f := Nat.mul_div_cancel f (by decide)
      have bit : (v.pmm.bitmapSet f).used f = true := by rw [PMM.setUsed, if_pos rfl]
      rw [← Option.some.inj read, Entry.mapToPhysical, Entry.physicalOfFrame (by omega), number]
      refine assignPagesUsed rest ?_
      rw [pmm1]
      exact bit
    | succ k =>
      refine ih tagged1 normalN counted1 memory1 room1 (by omega) rest k (by omega) ?_
      rw [nextPageAfter normal]
      exact read

theorem assignPagesOverwritten {HHDMOffset left : Nat} {v v' : VMM} {c : IndexOffset}
    (ok : assignPages HHDMOffset left v c = some v') : v.overwritten ≤ v'.overwritten := by
  induction left generalizing v c with
  | zero =>
    cases Option.some.inj ok
    exact Nat.le_refl _
  | succ left ih =>
    simp only [assignPages] at ok
    split at ok
    · contradiction
    · have more := ih ok
      rw [assignFrameToPageEq, addAvailableOverwritten, mapPageOverwritten] at more
      exact (Nat.le_add_right _ _).trans more

theorem assignPagesAbsent {HHDMOffset left : Nat} {v v' : VMM} {c : IndexOffset} (tagged : WellTagged v)
    (normal : c.Normal) (few : left ≤ 2 ^ 36) (ok : assignPages HHDMOffset left v c = some v')
    (unwritten : v'.overwritten = v.overwritten) (k : Nat) (below : k < left) {e : Entry}
    (read : v.leafAt ((c.page + k) % 2 ^ 36) = some e) : e.isPresent = false := by
  induction left generalizing v c k with
  | zero => omega
  | succ left ih =>
    simp only [assignPages] at ok
    split at ok
    · contradiction
    · next pte found =>
      obtain ⟨t, there, rfl⟩ := getPTECases found
      obtain ⟨normalN, pageN⟩ := IndexOffset.nextPageSpec normal
      have bound := IndexOffset.normalPage normal
      have more := assignPagesOverwritten ok
      rw [assignFrameToPageEq] at ok more
      rw [addAvailableOverwritten, mapPageOverwritten] at more
      change v.overwritten + ((v.mem t).entries (c.i 3)).isPresent.toNat ≤ v'.overwritten at more
      have tagged1 : WellTagged { v with pmm := v.pmm.allocFrame.1 } :=
        tagged.frame rfl rfl (fun f => allocFrameUsed v.pmm)
      cases k with
      | zero =>
        have leaf_ : v.leafAt c.page = some ((v.mem t).entries (c.i 3)) := by
          have there' : v.tableAt [c.i 0, c.i 1, c.i 2] = some t := there
          rw [leafAtPage v normal, leaf, there']
          rfl
        rw [Nat.add_zero, Nat.mod_eq_of_lt bound, leaf_] at read
        rw [← Option.some.inj read]
        cases bit : ((v.mem t).entries (c.i 3)).isPresent with
        | false => rfl
        | true =>
          rw [bit] at more
          simp only [Bool.toNat_true] at more
          omega
      | succ k =>
        refine ih ?_ normalN (by omega) ok ?_ k (by omega) ?_
        · exact (mapPageTagged tagged1 there rfl _).frame (addAvailableMem _ _ _) (addAvailableRoot _ _ _) (by simp)
        · rw [addAvailableOverwritten, mapPageOverwritten]
          show v'.overwritten = v.overwritten + ((v.mem t).entries (c.i 3)).isPresent.toNat
          omega
        · rw [leafAtCongr (addAvailableMem _ _ _) (addAvailableRoot _ _ _),
            mapPageLeafAt tagged1 normal there _ (Nat.mod_lt _ (by omega)), if_neg (pageNotNext normal few (by omega)).symm,
            nextPageAfter normal]
          exact read

theorem assignPagesRefused {HHDMOffset left : Nat} {v v' : VMM} {c : IndexOffset}
    (ok : assignPages HHDMOffset left v c = some v') : v'.refused = v.refused := by
  induction left generalizing v c with
  | zero =>
    cases Option.some.inj ok
    rfl
  | succ left ih =>
    simp only [assignPages] at ok
    split at ok
    · contradiction
    · rw [ih ok, assignFrameToPageEq, addAvailableRefused, mapPageRefused]

theorem takePagesCases {HHDMOffset fuel : Nat} {v v' : VMM} {higherHalf : Bool} {n addr : Nat}
    (ok : takePages HHDMOffset fuel v higherHalf n = some (v', addr)) :
    v.pmm.usedframes + n ≤ v.pmm.frameCnt ∧
      ∃ c, searchPages HHDMOffset fuel none v (beginOffset higherHalf) n = some (v, c) ∧ addr = c.getVirtualAddr ∧
        assignPages HHDMOffset n v c = some v' := by
  unfold takePages at ok
  split at ok
  · cases ok
  · next enough =>
    split at ok
    · cases ok
    · next v1 c searched =>
      obtain ⟨v2, assigned, made⟩ := Option.map_eq_some_iff.mp ok
      cases made
      have same := searchPagesStays searched
      subst same
      exact ⟨by omega, c, searched, rfl, assigned⟩

theorem Undisturbed.backed {v v' : VMM} (calm : Undisturbed v v') {p f : Nat} (backed : Backed v p f) : Backed v' p f where
  page := backed.page
  frame := by rw [calm.grows.frames]; exact backed.frame
  used := calm.grows.used f backed.used
  mapped := by
    obtain ⟨e, read, present, writeable, address⟩ := backed.mapped
    obtain ⟨q, j, length, same⟩ := slotLeaf [] 3 p
    refine ⟨e, ?_, present, writeable, address⟩
    rw [leafAt, same] at read ⊢
    exact calm.present q j e (by simpa using length) read present
  apart := by
    intro q t found
    cases before : v.tableAt q with
    | none =>
      have clear := calm.grows.clear q t before found
      have spare := calm.spare q t before found
      constructor
      · rintro rfl
        rw [backed.used] at clear
        cases clear
      · rintro rfl
        rw [backed.used] at spare
        cases spare
    | some u =>
      cases (calm.grows.tables q u before).symm.trans found
      exact backed.apart q t before

theorem Undisturbed.owns {v v' : VMM} (calm : Undisturbed v v') (takes : Takes v.pmm v'.pmm) {pages : List Nat}
    (owns : Owns v pages) : Owns v' pages where
  sane := owns.sane.takes calm.tagged takes
  backed := fun p mem => (owns.backed p mem).imp fun _ => calm.backed
  once := owns.once
  distinct := by
    intro p memP r memR f left right
    obtain ⟨f', left'⟩ := owns.backed p memP
    obtain ⟨g', right'⟩ := owns.backed r memR
    have same := (calm.backed left').same left
    have same' := (calm.backed right').same right
    subst same same'
    exact owns.distinct p memP r memR _ left' right'

theorem handedOutPages {c : IndexOffset} (normal : c.Normal) {n p : Nat} :
    p ∈ handedOut c.getVirtualAddr n ↔ ∃ k, k < n ∧ (c.page + k) % 2 ^ 36 = p := by
  rw [mem_handedOut]
  simp only [pageAfter normal]

theorem handedOutOnce {c : IndexOffset} (normal : c.Normal) {n : Nat} (few : n ≤ 2 ^ 36) :
    (handedOut c.getVirtualAddr n).Nodup := by
  unfold handedOut
  refine List.Nodup.map_on ?_ List.nodup_range
  intro j memJ k memK same
  rw [pageAfter normal, pageAfter normal] at same
  have low := List.mem_range.mp memJ
  have low' := List.mem_range.mp memK
  omega

theorem takePagesOwns {HHDMOffset fuel : Nat} {v v' : VMM} {higherHalf : Bool} {n addr : Nat} {pages : List Nat}
    (owns : Owns v pages) (few : n ≤ 2 ^ 36) (ok : takePages HHDMOffset fuel v higherHalf n = some (v', addr))
    (unwritten : v'.overwritten = v.overwritten) : Owns v' (handedOut addr n ++ pages) := by
  have tagged := owns.sane.tagged
  have memory := owns.sane.memory
  obtain ⟨room, c, searched, rfl, assigned⟩ := takePagesCases ok
  obtain ⟨-, -, normal⟩ := searchPagesGrows soundNone tagged (beginNormal higherHalf) searched rfl
  obtain ⟨tagged', takes⟩ := (assignPagesTends assigned).kept (assignPagesRefused assigned) tagged
  have tables := assignPagesTables assigned
  obtain ⟨frames, new⟩ := assignPagesSpec tagged normal owns.sane.counted room few assigned
  have taken : ∀ k, k < n → Backed v' ((c.page + k) % 2 ^ 36) (frames k) := by
    intro k below
    obtain ⟨e, read⟩ := new.mapped k below
    obtain ⟨low, clear⟩ := new.spare k below
    have address : (e.mapTo (frames k * 4096)).getPhysicalAddr = frames k * 4096 := by
      rw [Entry.mapToPhysical, Entry.physicalOfFrame (by omega)]
    have bit := assignPagesTaken tagged normal owns.sane.counted memory room few assigned k below read
    have number : frames k * 4096 / frameSize = frames k := Nat.mul_div_cancel _ (by decide)
    rw [address, number] at bit
    refine ⟨Nat.mod_lt _ (by decide), by rw [takes.frames]; exact low, bit,
      ⟨_, read, Entry.mapToPresent _ _, Entry.mapToWriteable _ _, address⟩, fun q t found => ?_⟩
    rw [tables] at found
    obtain ⟨-, first, second⟩ := tagged.held q t found
    constructor
    · intro same
      rw [← same, clear] at first
      cases first
    · intro same
      rw [← same, clear] at second
      cases second
  have fresh : ∀ k, k < n → (c.page + k) % 2 ^ 36 ∉ pages := by
    intro k below mem
    obtain ⟨f, backed⟩ := owns.backed _ mem
    obtain ⟨e, read, present, -, -⟩ := backed.mapped
    have absent := assignPagesAbsent tagged normal few assigned unwritten k below read
    rw [present] at absent
    cases absent
  have kept : ∀ p ∈ pages, ∀ f, Backed v p f → Backed v' p f := by
    intro p mem f backed
    refine ⟨backed.page, by rw [takes.frames]; exact backed.frame, assignPagesUsed assigned backed.used, ?_, ?_⟩
    · rw [new.others p backed.page (fun k below same => fresh k below (same ▸ mem))]
      exact backed.mapped
    · rw [tables]
      exact backed.apart
  have old : ∀ p ∈ pages, ∃ f, Backed v p f ∧ Backed v' p f := by
    intro p mem
    obtain ⟨f, backed⟩ := owns.backed p mem
    exact ⟨f, backed, kept p mem f backed⟩
  -- A frame of an old page was taken before, the frame of a new one was not.
  have across : ∀ k, k < n → ∀ r ∈ pages, ∀ f, Backed v' ((c.page + k) % 2 ^ 36) f → Backed v' r f → False := by
    intro k below r mem f left right
    obtain ⟨g, before, after⟩ := old r mem
    have here := left.same (taken k below)
    have there := right.same after
    have clear := (new.spare k below).2
    rw [← here, there, before.used] at clear
    cases clear
  refine ⟨owns.sane.takes tagged' takes, ?_, ?_, ?_⟩
  · intro p mem
    rcases List.mem_append.mp mem with mem | mem
    · obtain ⟨k, below, rfl⟩ := (handedOutPages normal).mp mem
      exact ⟨_, taken k below⟩
    · obtain ⟨f, -, backed⟩ := old p mem
      exact ⟨f, backed⟩
  · refine List.nodup_append.mpr ⟨handedOutOnce normal few, owns.once, ?_⟩
    rintro p memP r memR rfl
    obtain ⟨k, below, rfl⟩ := (handedOutPages normal).mp memP
    exact fresh k below memR
  · intro p memP r memR f left right
    rcases List.mem_append.mp memP with memP | memP
    · obtain ⟨j, belowJ, rfl⟩ := (handedOutPages normal).mp memP
      rcases List.mem_append.mp memR with memR | memR
      · obtain ⟨k, belowK, rfl⟩ := (handedOutPages normal).mp memR
        have same := (left.same (taken j belowJ)).symm.trans (right.same (taken k belowK))
        rw [new.distinct j k belowJ belowK same]
      · exact (across j belowJ r memR f left right).elim
    · rcases List.mem_append.mp memR with memR | memR
      · obtain ⟨k, belowK, rfl⟩ := (handedOutPages normal).mp memR
        exact (across k belowK p memP f right left).elim
      · obtain ⟨g, before, after⟩ := old p memP
        obtain ⟨g', before', after'⟩ := old r memR
        have same := left.same after
        have same' := right.same after'
        subst same same'
        exact owns.distinct p memP r memR _ before before'

theorem allocPagesOwns {HHDMOffset fuel : Nat} {v v' : VMM} {higherHalf : Bool} {n addr : Nat} {pages : List Nat}
    (owns : Owns v pages) (few : n ≤ 2 ^ 36) (ok : allocPages HHDMOffset fuel v higherHalf true n = some (v', addr))
    (served : v'.refused = v.refused) (unwritten : v'.overwritten = v.overwritten) :
    Owns v' (handedOut addr n ++ pages) := by
  obtain ⟨v1, ensured, taken⟩ := Option.bind_eq_some_iff.mp ok
  have up := (ensurePagesTends ensured).refused
  have up' := (takePagesTends taken).refused
  have more := ensurePagesOverwritten ensured
  obtain ⟨-, c, -, -, assigned⟩ := takePagesCases taken
  have more' := assignPagesOverwritten assigned
  have calm := ensurePagesUndisturbed owns.sane.tagged ensured (by omega) (by omega)
  have takes := ((ensurePagesTends ensured).kept (by omega) owns.sane.tagged).2
  exact takePagesOwns (calm.owns takes owns) few taken (by omega)

theorem writeEntryElsewhere {v : VMM} (tagged : WellTagged v) {c : IndexOffset} {t : Nat}
    (found : v.tableAt [c.i 0, c.i 1, c.i 2] = some t) (e : Entry) {p : Nat} (inside : p < 2 ^ 36)
    (other : p ≠ c.page) : (v.writeEntry (t, c.i 3) e).leafAt p = v.leafAt p := by
  obtain ⟨normalP, pageP⟩ := IndexOffset.indexOffsetSpec (p * 4096)
  have number : (getIndexOffset (p * 4096)).page = p := by omega
  rw [← number, leafAtPage _ normalP, leafAtPage _ normalP, writeEntryLeaf tagged found, if_neg]
  rintro ⟨path, index⟩
  simp only [List.cons.injEq, and_true] at path
  obtain ⟨first, second, third⟩ := path
  refine other ?_
  rw [← number, IndexOffset.pageEq, IndexOffset.pageEq, first, second, third, index]

theorem freePageOwns {HHDMOffset : Nat} {v v' : VMM} {addr : Nat} {pages : List Nat} (owns : Owns v pages)
    (mine : (getIndexOffset addr).page ∈ pages) (index : (getIndexOffset addr).i 3 ≠ 0)
    (ok : freePage HHDMOffset v addr = some v') : Owns v' (pages.erase (getIndexOffset addr).page) := by
  have tagged := owns.sane.tagged
  have normal := (IndexOffset.indexOffsetSpec addr).1
  obtain ⟨f, backed⟩ := owns.backed _ mine
  obtain ⟨e, read, -, -, address⟩ := backed.mapped
  have number : f * frameSize / frameSize = f := Nat.mul_div_cancel _ (by decide)
  -- The entry that freePage reads is the one that maps the page.
  have entry : ∀ pte, v.getPTE (getIndexOffset addr) = some pte → v.readEntry pte = e := by
    intro pte found
    obtain ⟨t, there, rfl⟩ := getPTECases found
    rw [leafAtPage v normal, leaf, there] at read
    exact Option.some.inj read
  have tagged' : WellTagged v' := by
    refine freePageTagged tagged ok index (fun pte found => ?_)
    rw [entry pte found, address]
    intro q t hangs
    rw [number]
    exact backed.apart q t hangs
  simp only [freePage] at ok
  split at ok
  · cases ok
  · next pte found =>
    have entry := entry pte found
    obtain ⟨t, there, rfl⟩ := getPTECases found
    rw [entry, address] at ok
    have made := Option.some.inj ok
    have pmm : v'.pmm = v.pmm.freeFrame (f * frameSize) := by
      rw [← made, addAvailablePmm, writeEntryPmm]
    have takes : Takes v.pmm v'.pmm := by
      rw [pmm]
      exact freeFrameKept (by rw [number]; exact backed.frame)
    have tables : v'.tableAt = v.tableAt := by
      rw [← made, tableAtCongr (addAvailableMem _ _ _) (addAvailableRoot _ _ _), (writeEntryTableAt _ _ _).2]
      rfl
    have leaves : ∀ p, p < 2 ^ 36 → p ≠ (getIndexOffset addr).page → v'.leafAt p = v.leafAt p := by
      intro p inside other
      rw [← made, leafAtCongr (addAvailableMem _ _ _) (addAvailableRoot _ _ _),
        ← writeEntryElsewhere tagged there defaultEntry inside other]
      exact leafAtCongr rfl rfl p
    have others : ∀ p ∈ pages, p ≠ (getIndexOffset addr).page → ∃ g, Backed v p g ∧ Backed v' p g := by
      intro p mem other
      obtain ⟨g, before⟩ := owns.backed p mem
      have apart : f ≠ g := by
        rintro rfl
        exact other (owns.distinct p mem _ mine f before backed)
      refine ⟨g, before, before.page, by rw [takes.frames]; exact before.frame, ?_, ?_, ?_⟩
      · rw [pmm]
        exact freeFrameUsed v.pmm before.used (by rw [number]; exact apart)
      · rw [leaves p before.page other]
        exact before.mapped
      · rw [tables]
        exact before.apart
    refine ⟨owns.sane.takes tagged' takes, ?_, owns.once.erase _, ?_⟩
    · intro p mem
      obtain ⟨other, mem⟩ := owns.once.mem_erase_iff.mp mem
      obtain ⟨g, -, after⟩ := others p mem other
      exact ⟨g, after⟩
    · intro p memP r memR g left right
      obtain ⟨otherP, memP⟩ := owns.once.mem_erase_iff.mp memP
      obtain ⟨otherR, memR⟩ := owns.once.mem_erase_iff.mp memR
      obtain ⟨g', before, after⟩ := others p memP otherP
      obtain ⟨h', before', after'⟩ := others r memR otherR
      have same := left.same after
      have same' := right.same after'
      subst same same'
      exact owns.distinct p memP r memR _ before before'

end VMM

open VMM

structure OwnState where
  vmm : VMM
  pages : List Nat

def ownStep (HHDMOffset fuel : Nat) (s : OwnState) : Op → Option OwnState
  | .allocPage higherHalf =>
    (s.vmm.allocPage HHDMOffset fuel higherHalf).map fun r => ⟨r.1, handedOut r.2 1 ++ s.pages⟩
  | .allocNPages higherHalf n =>
    (s.vmm.allocNPages HHDMOffset fuel higherHalf n).map fun r => ⟨r.1, handedOut r.2 n ++ s.pages⟩
  | .freePage addr =>
    (s.vmm.freePage HHDMOffset addr).map fun v => ⟨v, s.pages.erase (getIndexOffset addr).page⟩

theorem ownStepVmm (HHDMOffset fuel : Nat) (s : OwnState) (op : Op) :
    (ownStep HHDMOffset fuel s op).map OwnState.vmm = step HHDMOffset fuel s.vmm op := by
  cases op <;> simp [ownStep, step, Option.map_map, Function.comp_def]

/- A call changes no mapping of a present page and gets the frames of its tables. -/
def Smooth (v v' : VMM) : Prop := v'.refused = v.refused ∧ v'.overwritten = v.overwritten

/- n is an int; a page that is freed was handed out, and is not the first of its table. -/
def OwnersAllowed (HHDMOffset fuel : Nat) (s : OwnState) (op : Op) : Prop :=
  (∀ higherHalf n, op = .allocNPages higherHalf n → n < 2 ^ 31) ∧
    (∀ addr, op = .freePage addr → (getIndexOffset addr).page ∈ s.pages ∧ (getIndexOffset addr).i 3 ≠ 0) ∧
    ∀ v', step HHDMOffset fuel s.vmm op = some v' → Smooth s.vmm v'

theorem ownStepOwns {HHDMOffset fuel : Nat} {s s' : OwnState} {op : Op} (owns : Owns s.vmm s.pages)
    (allowed : OwnersAllowed HHDMOffset fuel s op) (ok : ownStep HHDMOffset fuel s op = some s') :
    Owns s'.vmm s'.pages := by
  obtain ⟨int, mine, smooth⟩ := allowed
  have smooth := smooth s'.vmm (by rw [← ownStepVmm, ok]; rfl)
  cases op with
  | allocPage higherHalf =>
    rw [ownStep] at ok
    obtain ⟨⟨v, addr⟩, allocated, rfl⟩ := Option.map_eq_some_iff.mp ok
    exact allocPagesOwns owns (by omega) allocated smooth.1 smooth.2
  | allocNPages higherHalf n =>
    rw [ownStep] at ok
    obtain ⟨⟨v, addr⟩, allocated, rfl⟩ := Option.map_eq_some_iff.mp ok
    have few := int higherHalf n rfl
    exact allocPagesOwns owns (by omega) allocated smooth.1 smooth.2
  | freePage addr =>
    rw [ownStep] at ok
    obtain ⟨v, freed, rfl⟩ := Option.map_eq_some_iff.mp ok
    obtain ⟨here, index⟩ := mine addr rfl
    exact freePageOwns owns here index freed

/-- In every run from VMM::init whose calls get their tables' frames and overwrite no mapping, and in
which only pages handed out before are freed, none of them the first of its table, every page handed
out and not freed is present and writable in a frame of its own: taken, and no table's. -/
theorem pageOwnership {HHDMOffset fuel : Nat} {contents : Nat → Table} {pmm : PMM} {mem : PhysicalMemMap}
    {otherRanges : List MemRange} {v₀ : VMM} {s : OwnState} {ops : List Op} (counted : pmm.Counted)
    (memory : pmm.frameCnt ≤ 2 ^ 40) (booted : VMM.init HHDMOffset fuel contents pmm mem otherRanges = some v₀)
    (served : v₀.refused = 0)
    (guarded : Guarded (ownStep HHDMOffset fuel) (OwnersAllowed HHDMOffset fuel) ⟨v₀, []⟩ ops)
    (visited : Visits (ownStep HHDMOffset fuel) ⟨v₀, []⟩ ops s) : Owns s.vmm s.pages := by
  obtain ⟨tagged, takes⟩ := initKept booted served
  have sane : Sane v₀ := ⟨tagged, takes.counted counted, takes.frames ▸ memory⟩
  have none_ : Owns v₀ [] := ⟨sane, by simp, List.nodup_nil, by simp⟩
  exact invariantVisits (fun s : OwnState => Owns s.vmm s.pages)
    (fun _ _ _ owns allowed ok => ownStepOwns owns allowed ok) none_ guarded visited

theorem pageOwnershipAllocFree : ∃ v₀ s, smallBoot = some v₀ ∧
    run (ownStep 0xffff800000000000 3000) ⟨v₀, []⟩ [.allocNPages true 2, .freePage 0xffff800000016000] = some s ∧
    s.pages = [34359738391] ∧ Owns s.vmm s.pages := by
  have calls : (smallBoot.bind fun v₀ =>
      (ownStep 0xffff800000000000 3000 ⟨v₀, []⟩ (.allocNPages true 2)).bind fun s₁ =>
        (ownStep 0xffff800000000000 3000 s₁ (.freePage 0xffff800000016000)).map fun s₂ =>
          ((v₀.refused, v₀.overwritten), (s₁.vmm.refused, s₁.vmm.overwritten), (s₂.vmm.refused, s₂.vmm.overwritten),
            s₁.pages, s₂.pages)) =
      some ((0, 0), (0, 0), (0, 0), [34359738390, 34359738391], [34359738391]) := by decide +kernel
  obtain ⟨v₀, booted, calls⟩ := Option.bind_eq_some_iff.mp calls
  obtain ⟨s₁, first, calls⟩ := Option.bind_eq_some_iff.mp calls
  obtain ⟨s₂, second, facts⟩ := Option.map_eq_some_iff.mp calls
  simp only [Prod.mk.injEq] at facts
  obtain ⟨⟨refused₀, written₀⟩, ⟨refused₁, written₁⟩, ⟨refused₂, written₂⟩, pages₁, pages₂⟩ := facts
  have whole : run (ownStep 0xffff800000000000 3000) ⟨v₀, []⟩
      [.allocNPages true 2, .freePage 0xffff800000016000] = some s₂ := by
    simp only [run, first, second, Option.bind_some]
  have one : step 0xffff800000000000 3000 v₀ (.allocNPages true 2) = some s₁.vmm := by
    rw [← ownStepVmm _ _ ⟨v₀, []⟩, first]
    rfl
  have two : step 0xffff800000000000 3000 s₁.vmm (.freePage 0xffff800000016000) = some s₂.vmm := by
    rw [← ownStepVmm, second]
    rfl
  refine ⟨v₀, s₂, booted, whole, pages₂, pageOwnership smallCounted (by decide) booted refused₀ ?_ ⟨_, [], rfl, whole⟩⟩
  refine guardedConsIff.mpr ⟨⟨?_, fun _ free => (by cases free), fun v ok => ?_⟩, fun t ok => ?_⟩
  · rintro _ _ ⟨⟩
    decide
  · cases one.symm.trans ok
    exact ⟨refused₁.trans refused₀.symm, written₁.trans written₀.symm⟩
  · cases first.symm.trans ok
    refine guardedConsIff.mpr ⟨⟨fun _ _ other => (by cases other), ?_, fun v ok => ?_⟩, fun _ _ => guardedNil _ _ _⟩
    · rintro _ ⟨⟩
      rw [pages₁]
      decide
    · cases two.symm.trans ok
      exact ⟨refused₂.trans refused₁.symm, written₂.trans written₁.symm⟩

end DimOS.Memory.Vmm
