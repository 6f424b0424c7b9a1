import Mathlib
import DimOS.Memory.VmmLevels

/-! What allocNPages promises, and when it keeps it. The second search takes the first run of n
unmapped pages from the start of the half, if the tables of that half hold one. Whether they
do is not what the counter of available pages says; without one the search wraps to page 0. -/
namespace DimOS.Memory.Vmm
open Pmm
open Paging
open Paging.IndexOffset (getIndexOffset)
open Lib.PathTree
open Lib.Transition

namespace VMM

def Free (v : VMM) (p : Nat) : Prop := ∃ e, v.leafAt p = some e ∧ e.isPresent = false

def FreeRun (v : VMM) (p n : Nat) : Prop := ∀ k, k < n → Free v ((p + k) % 2 ^ 36)

def halfBase (higherHalf : Bool) : Nat := if higherHalf then 2 ^ 35 else 0

def HasRun (v : VMM) (higherHalf : Bool) (n : Nat) : Prop :=
  ∃ p, halfBase higherHalf ≤ p ∧ p < halfBase higherHalf + 2 ^ 35 ∧ FreeRun v p n

theorem beginPage (higherHalf : Bool) : (beginOffset higherHalf).page = halfBase higherHalf := by
  cases higherHalf
  · rfl
  · rfl

theorem halfInside {higherHalf : Bool} {p : Nat} (high : p < halfBase higherHalf + 2 ^ 35) :
    p < 2 ^ 36 := by
  unfold halfBase at high
  split at high
  · omega
  · omega

theorem freeNotPassed {v : VMM} {p : Nat} (free : Free v p) : ¬ Passed none v [] 3 p := by
  obtain ⟨e, read, absent⟩ := free
  rintro (⟨e', read', present⟩ | ⟨-, missing⟩)
  · cases Option.some.inj (read.symm.trans read')
    rw [absent] at present
    contradiction
  · exact absurd (read.symm.trans missing) (by simp)

theorem freeRunOne {v : VMM} {c : IndexOffset} (normal : c.Normal) (free : Free v c.page) : FreeRun v c.page 1 := by
  have inside := IndexOffset.normalPage normal
  intro k below
  rw [show (c.page + k) % 2 ^ 36 = c.page by omega]
  exact free

theorem freeRunSnoc {v : VMM} {p n : Nat} (sofar : FreeRun v p n) (next : Free v ((p + n) % 2 ^ 36)) :
    FreeRun v p (n + 1) := by
  intro k below
  by_cases last : k = n
  · rw [last]
    exact next
  · exact sofar k (by omega)

theorem searchPageFinds {HHDMOffset fuel : Nat} {v v' : VMM} {begin_ c : IndexOffset} {p : Nat}
    (tagged : WellTagged v) (normal : begin_.Normal)
    (ok : searchPage HHDMOffset fuel none v begin_ = some (v', c)) (ahead : begin_.page ≤ p)
    (inside : p < 2 ^ 36) (free : Free v p) :
    v' = v ∧ c.Normal ∧ Free v c.page ∧ begin_.page ≤ c.page ∧ c.page ≤ p := by
  cases searchPageStays ok
  obtain ⟨-, -, normal', found | failed⟩ := searchPageSpec soundNone ok rfl tagged normal
  · obtain ⟨onward, unmapped, passed⟩ := found
    refine ⟨rfl, normal', unmapped, onward, ?_⟩
    by_contra beyond
    exact freeNotPassed free (passed p ahead (by omega))
  · exact absurd (failed.2 p ahead inside) (freeNotPassed free)

theorem searchRunFinds {HHDMOffset fuel n rounds : Nat} {v v' : VMM} {res prev c : IndexOffset}
    {done p : Nat} (tagged : WellTagged v) (normal : res.Normal) (normal' : prev.Normal)
    (inside : p < 2 ^ 36) (run : FreeRun v p n) (early : res.page ≤ p) (some_ : 1 ≤ done)
    (reached : prev.page = (res.page + (done - 1)) % 2 ^ 36) (sofar : FreeRun v res.page done)
    (ok : searchRun HHDMOffset fuel none n rounds v res prev done = some (v', c)) :
    c.Normal ∧ res.page ≤ c.page ∧ c.page ≤ p ∧ FreeRun v c.page n := by
  induction rounds generalizing res prev done with
  | zero => cases ok
  | succ rounds ih =>
    simp only [searchRun] at ok
    split at ok
    · next short =>
      obtain ⟨normalN, pageN⟩ := IndexOffset.nextPageSpec normal'
      have ahead : prev.nextPage.page = (res.page + done) % 2 ^ 36 := by omega
      split at ok
      · cases ok
      · next v1 next_ searched =>
        by_cases inRun : p ≤ res.page + done
        · -- The next page belongs to the run at p, so the search returns it.
          have free := run (res.page + done - p) (by omega)
          rw [show p + (res.page + done - p) = res.page + done by omega, ← ahead] at free
          obtain ⟨rfl, normal1, free1, low, high⟩ := searchPageFinds tagged normalN searched
            (Nat.le_refl _) (IndexOffset.normalPage normalN) free
          have same : prev.nextPage.page = next_.page := by omega
          rw [if_pos ((IndexOffset.virtualAddrInj normalN normal1).mpr same)] at ok
          have longer := freeRunSnoc sofar (by rw [← ahead, same]; exact free1)
          exact ih normal normal1 early (by omega) (by rw [← same, ahead, Nat.add_sub_cancel]) longer ok
        · have next36 : prev.nextPage.page = res.page + done := by omega
          have free := run 0 (by omega)
          rw [Nat.add_zero, Nat.mod_eq_of_lt inside] at free
          obtain ⟨rfl, normal1, free1, low, high⟩ := searchPageFinds tagged normalN searched
            (by omega) inside free
          split at ok
          · next same =>
            rw [IndexOffset.virtualAddrInj normalN normal1] at same
            have longer := freeRunSnoc sofar (by rw [← ahead, same]; exact free1)
            exact ih normal normal1 early (by omega) (by rw [← same, ahead, Nat.add_sub_cancel]) longer ok
          · obtain ⟨normal2, low2, high2, found⟩ := ih normal1 normal1 high (Nat.le_refl 1)
              (by have := IndexOffset.normalPage normal1; omega)
              (freeRunOne normal1 free1) ok
            exact ⟨normal2, by omega, high2, found⟩
    · next enough =>
      cases Option.some.inj ok
      exact ⟨normal, Nat.le_refl _, early, fun k below => sofar k (by omega)⟩

theorem searchPagesFinds {HHDMOffset fuel n : Nat} {v v' : VMM} {c : IndexOffset} {higherHalf : Bool}
    (tagged : WellTagged v) (positive : 1 ≤ n) (room : HasRun v higherHalf n)
    (ok : searchPages HHDMOffset fuel none v (beginOffset higherHalf) n = some (v', c)) :
    v' = v ∧ c.Normal ∧ halfBase higherHalf ≤ c.page ∧ c.page < halfBase higherHalf + 2 ^ 35 ∧
      FreeRun v c.page n := by
  obtain ⟨p, low, high, run⟩ := room
  have inside := halfInside high
  have same := searchPagesStays ok
  have first := run 0 (by omega)
  rw [Nat.add_zero, Nat.mod_eq_of_lt inside] at first
  have base := beginPage higherHalf
  unfold searchPages at ok
  split at ok
  · cases ok
  · next v1 res searched =>
    obtain ⟨rfl, normal1, free1, low1, high1⟩ := searchPageFinds tagged (beginNormal higherHalf) searched
      (by omega) inside first
    have bound := IndexOffset.normalPage normal1
    obtain ⟨normal2, low2, high2, found⟩ := searchRunFinds tagged normal1 normal1 inside run high1
      (Nat.le_refl 1) (by omega) (freeRunOne normal1 free1) ok
    exact ⟨same, normal2, by omega, by omega, found⟩

theorem mapPageLeafAt {v : VMM} (tagged : WellTagged v) {c : IndexOffset} (normal : c.Normal) {t : Nat}
    (found : v.tableAt [c.i 0, c.i 1, c.i 2] = some t) (addr : Nat) {p : Nat} (inside : p < 2 ^ 36) :
    (v.mapPage (t, c.i 3) addr).leafAt p =
      if p = c.page then some ((v.readEntry (t, c.i 3)).mapTo addr) else v.leafAt p := by
  obtain ⟨normalP, pageP⟩ := IndexOffset.indexOffsetSpec (p * 4096)
  have number : (getIndexOffset (p * 4096)).page = p := by omega
  rw [← number, leafAtPage _ normalP, leafAtPage _ normalP, mapPageLeaf tagged found]
  obtain ⟨a, b, d, e⟩ := IndexOffset.normalDigits normal
  obtain ⟨a', b', d', e'⟩ := IndexOffset.normalDigits normalP
  have one := IndexOffset.pageEq c
  have two := IndexOffset.pageEq (getIndexOffset (p * 4096))
  by_cases here : (getIndexOffset (p * 4096)).page = c.page
  · rw [if_pos here, if_pos]
    have first : (getIndexOffset (p * 4096)).i 0 = c.i 0 := by omega
    have second : (getIndexOffset (p * 4096)).i 1 = c.i 1 := by omega
    have third : (getIndexOffset (p * 4096)).i 2 = c.i 2 := by omega
    exact ⟨by rw [first, second, third], by omega⟩
  · rw [if_neg here, if_neg]
    rintro ⟨path, index⟩
    simp only [List.cons.injEq, and_true] at path
    obtain ⟨first, second, third⟩ := path
    rw [one, two, first, second, third, index] at here
    exact here rfl

structure Assigned (v v' : VMM) (p n : Nat) (frames : Nat → Nat) : Prop where
  spare : ∀ k, k < n → frames k < v.pmm.frameCnt ∧ v.pmm.used (frames k) = false
  distinct : ∀ j k, j < n → k < n → frames j = frames k → j = k
  others : ∀ r, r < 2 ^ 36 → (∀ k, k < n → r ≠ (p + k) % 2 ^ 36) → v'.leafAt r = v.leafAt r
  mapped : ∀ k, k < n → ∃ e : Entry, v'.leafAt ((p + k) % 2 ^ 36) = some (e.mapTo (frames k * 4096))

theorem assignRound {HHDMOffset left : Nat} {v v' : VMM} {c : IndexOffset} (tagged : WellTagged v)
    (normal : c.Normal) (counted : v.pmm.Counted) (room : v.pmm.usedframes < v.pmm.frameCnt)
    (ok : assignPages HHDMOffset (left + 1) v c = some v') :
    ∃ f v1, f < v.pmm.frameCnt ∧ v.pmm.used f = false ∧ WellTagged v1 ∧
      v1.pmm = { v.pmm.bitmapSet f with usedframes := v.pmm.usedframes + 1 } ∧
      (∃ e : Entry, ∀ r, r < 2 ^ 36 →
        v1.leafAt r = if r = c.page then some (e.mapTo (f * 4096)) else v.leafAt r) ∧
      assignPages HHDMOffset left v1 c.nextPage = some v' := by
  obtain ⟨f, low, free, made⟩ := PMM.allocFrameCounted counted room
  have tagged1 : WellTagged { v with pmm := v.pmm.allocFrame.1 } :=
    tagged.frame rfl rfl (fun f => allocFrameUsed v.pmm)
  simp only [assignPages] at ok
  split at ok
  · cases ok
  · next pte found =>
    obtain ⟨t, there, rfl⟩ := getPTECases found
    rw [assignFrameToPageEq] at ok
    have tagged2 := mapPageTagged (i := c.i 3) tagged1 there rfl v.pmm.allocFrame.2
    refine ⟨f, _, low, free, ?_, ?_, ⟨v.readEntry (t, c.i 3), fun r inside => ?_⟩, ok⟩
    · exact tagged2.frame (addAvailableMem _ _ _) (addAvailableRoot _ _ _) (by simp)
    · rw [addAvailablePmm, mapPagePmm, made]
    · rw [leafAtCongr (addAvailableMem _ _ _) (addAvailableRoot _ _ _),
        mapPageLeafAt tagged1 normal there _ inside, made]
      rfl

theorem assignPagesSpec {HHDMOffset left : Nat} {v v' : VMM} {c : IndexOffset} (tagged : WellTagged v)
    (normal : c.Normal) (counted : v.pmm.Counted) (room : v.pmm.usedframes + left ≤ v.pmm.frameCnt)
    (few : left ≤ 2 ^ 36) (ok : assignPages HHDMOffset left v c = some v') :
    ∃ frames, Assigned v v' c.page left frames := by
  induction left generalizing v c with
  | zero =>
    cases Option.some.inj ok
    exact ⟨fun _ => 0, fun _ below => absurd below (Nat.not_lt_zero _),
      fun _ _ below => absurd below (Nat.not_lt_zero _), fun _ _ _ => rfl,
      fun _ below => absurd below (Nat.not_lt_zero _)⟩
  | succ left ih =>
    obtain ⟨f, v1, low, free, tagged1, pmm1, ⟨e, memory⟩, rest⟩ :=
      assignRound tagged normal counted (by omega) ok
    obtain ⟨normalN, pageN⟩ := IndexOffset.nextPageSpec normal
    have bound := IndexOffset.normalPage normal
    have counted1 : v1.pmm.Counted := by
      rw [pmm1]
      exact PMM.countedSet counted f
    have room1 : v1.pmm.usedframes + left ≤ v1.pmm.frameCnt := by
      rw [pmm1]
      show v.pmm.usedframes + 1 + (left : Int) ≤ v.pmm.frameCnt
      push_cast at room
      omega
    obtain ⟨frames, spare, distinct, others, mapped⟩ :=
      ih tagged1 normalN counted1 room1 (by omega) rest
    have fresh : ∀ k, k < left → frames k < v.pmm.frameCnt ∧ v.pmm.used (frames k) = false ∧
        frames k ≠ f := by
      intro k below
      obtain ⟨small, clear⟩ := spare k below
      rw [pmm1] at small clear
      have bit : (v.pmm.bitmapSet f).used (frames k) = false := clear
      rw [PMM.setUsed] at bit
      split at bit
      · cases bit
      · next other => exact ⟨small, bit, other⟩
    refine ⟨fun k => if k = 0 then f else frames (k - 1), ?_, ?_, ?_, ?_⟩
    · intro k below
      by_cases zero : k = 0
      · rw [if_pos zero]
        exact ⟨low, free⟩
      · rw [if_neg zero]
        exact ⟨(fresh (k - 1) (by omega)).1, (fresh (k - 1) (by omega)).2.1⟩
    · intro j k belowJ belowK same
      by_cases zeroJ : j = 0
      · by_cases zeroK : k = 0
        · omega
        · rw [if_pos zeroJ, if_neg zeroK] at same
          exact absurd same.symm (fresh (k - 1) (by omega)).2.2
      · by_cases zeroK : k = 0
        · rw [if_neg zeroJ, if_pos zeroK] at same
          exact absurd same (fresh (j - 1) (by omega)).2.2
        · rw [if_neg zeroJ, if_neg zeroK] at same
          have := distinct (j - 1) (k - 1) (by omega) (by omega) same
          omega
    · intro r inside elsewhere
      have first := elsewhere 0 (by omega)
      rw [others r inside (fun k below => ?_), memory r inside, if_neg (by omega)]
      · have := elsewhere (k + 1) (by omega)
        omega
    · intro k below
      by_cases zero : k = 0
      · subst zero
        have away : ∀ j, j < left → (c.page + 0) % 2 ^ 36 ≠ (c.nextPage.page + j) % 2 ^ 36 := by
          intro j belowJ
          omega
        rw [others _ (Nat.mod_lt _ (by omega)) away, memory _ (Nat.mod_lt _ (by omega)),
          if_pos (by omega), if_pos rfl]
        exact ⟨e, rfl⟩
      · obtain ⟨e', read⟩ := mapped (k - 1) (by omega)
        rw [if_neg zero, show (c.page + k) % 2 ^ 36 = (c.nextPage.page + (k - 1)) % 2 ^ 36 by omega]
        exact ⟨e', read⟩

def mapping (v : VMM) (addr : Nat) : Option Entry := v.leafAt (getIndexOffset addr).page

/- An entry stays, or is new and not present, or maps a table the call has made. -/
def PageKept (v v' : VMM) (p : Nat) : Prop :=
  v'.leafAt p = v.leafAt p ∨ (v.leafAt p = none ∧ ∀ e, v'.leafAt p = some e → e.isPresent = false) ∨
    ∃ e, v'.leafAt p = some e ∧ MapsNew v v' e

structure PageContract (HHDMOffset : Nat) (v v' : VMM) (higherHalf : Bool) (n addr : Nat) : Prop where
  half : addr ≥ HHDMOffset ↔ higherHalf = true
  before : ∀ k, k < n → ∀ e, v.mapping (addr + 4096 * k) = some e → e.isPresent = false
  after : ∃ frames : Nat → Nat,
    (∀ k, k < n → ∃ e, v'.mapping (addr + 4096 * k) = some e ∧ e.isPresent = true ∧
      e.isWriteable = true ∧ e.getPhysicalAddr = frames k * frameSize) ∧
    (∀ k, k < n → frames k < v.pmm.frameCnt ∧ v.pmm.used (frames k) = false) ∧
    (∀ j k, j < n → k < n → frames j = frames k → j = k)
  others : ∀ p, p < 2 ^ 36 → (∀ k, k < n → p ≠ (getIndexOffset (addr + 4096 * k)).page) → PageKept v v' p

theorem pageAfter {c : IndexOffset} (normal : c.Normal) (k : Nat) :
    (getIndexOffset (c.getVirtualAddr + 4096 * k)).page = (c.page + k) % 2 ^ 36 := by
  rw [(IndexOffset.indexOffsetSpec _).2, IndexOffset.virtualAddrEq normal]
  split
  · omega
  · omega

theorem Grows.pageKept {v v' : VMM} (grows : Grows v v') (p : Nat) : PageKept v v' p := by
  obtain ⟨q, j, length, same⟩ := slotLeaf [] 3 p
  rw [PageKept, leafAt, leafAt, same, same]
  exact grows.leaves q j (by simpa using length)

theorem Grows.freeBefore {v v' : VMM} (grows : Grows v v') {p : Nat} (free : Free v' p) {e : Entry}
    (read : v.leafAt p = some e) : e.isPresent = false := by
  obtain ⟨q, j, length, same⟩ := slotLeaf [] 3 p
  obtain ⟨e', read', absent⟩ := free
  by_contra present
  rw [leafAt, same] at read read'
  obtain ⟨e'', read'', present''⟩ :=
    grows.present (by simpa using length) ⟨e, read, by simpa using present⟩
  cases Option.some.inj (read'.symm.trans read'')
  rw [absent] at present''
  cases present''

theorem takePagesContract {HHDMOffset fuel : Nat} {v v1 v' : VMM} {higherHalf : Bool} {n addr : Nat}
    (offset : 0x7ffffffff000 < HHDMOffset ∧ HHDMOffset ≤ 0xffff800000000000) (grows : Grows v v1)
    (tagged : WellTagged v1) (counted : v1.pmm.Counted) (memory : v1.pmm.frameCnt ≤ 2 ^ 40)
    (positive : 1 ≤ n) (few : n ≤ 2 ^ 36) (room : HasRun v1 higherHalf n)
    (ok : takePages HHDMOffset fuel v1 higherHalf n = some (v', addr)) :
    PageContract HHDMOffset v v' higherHalf n addr := by
  have tables := takePagesTables ok
  unfold takePages at ok
  split at ok
  · cases ok
  · next spareFrames =>
    split at ok
    · cases ok
    · next v2 c searched =>
      obtain ⟨rfl, normal, low, high, run⟩ := searchPagesFinds tagged positive room searched
      obtain ⟨v3, assigned, made⟩ := Option.map_eq_some_iff.mp ok
      cases made
      obtain ⟨frames, spare, distinct, others, mapped⟩ :=
        assignPagesSpec tagged normal counted (by omega) few assigned
      refine ⟨?_, ?_, ⟨frames, ?_, ?_, distinct⟩, ?_⟩
      · have bound := IndexOffset.normalPage normal
        rw [IndexOffset.virtualAddrEq normal]
        cases higherHalf
        · simp only [halfBase, Bool.false_eq_true, if_false] at low high
          rw [if_neg (by omega)]
          constructor
          · intro above
            omega
          · intro wrong
            cases wrong
        · simp only [halfBase, if_true] at low high
          rw [if_pos (by omega)]
          exact ⟨fun _ => rfl, fun _ => by omega⟩
      · intro k below e read
        rw [mapping, pageAfter normal] at read
        exact grows.freeBefore (run k below) read
      · intro k below
        obtain ⟨e, read⟩ := mapped k below
        rw [mapping, pageAfter normal]
        refine ⟨_, read, Entry.mapToPresent _ _, Entry.mapToWriteable _ _, ?_⟩
        rw [Entry.mapToPhysical]
        exact Entry.physicalOfFrame (Nat.lt_of_lt_of_le (spare k below).1 memory)
      · intro k below
        obtain ⟨small, clear⟩ := spare k below
        refine ⟨by rw [← grows.frames]; exact small, ?_⟩
        by_contra taken
        rw [grows.used _ (by simpa using taken)] at clear
        cases clear
      · intro p inside elsewhere
        have same : v'.leafAt p = v2.leafAt p := by
          refine others p inside (fun k below => ?_)
          rw [← pageAfter normal]
          exact elsewhere k below
        rw [PageKept, same]
        rcases grows.pageKept p with kept | fresh | ⟨e, read, new⟩
        · exact .inl kept
        · exact .inr (.inl fresh)
        · obtain ⟨q, t, before, after, maps⟩ := new
          exact .inr (.inr ⟨e, read, q, t, before, by rw [tables]; exact after, maps⟩)

theorem ensurePagesGrows {HHDMOffset fuel : Nat} {v v' : VMM} {higherHalf doMinCheck : Bool}
    {reqPages : Nat} (tagged : WellTagged v)
    (ok : ensurePages HHDMOffset fuel v higherHalf doMinCheck reqPages = some v')
    (served : v'.refused = v.refused) : Grows v v' := by
  simp only [ensurePages] at ok
  split at ok
  · obtain ⟨⟨v1, c⟩, searched, rfl⟩ := Option.map_eq_some_iff.mp ok
    exact (searchPagesGrows (soundPlace HHDMOffset fuel .USE_VMM) tagged (beginNormal higherHalf) searched
      served).2.1
  · cases Option.some.inj ok
    exact Grows.refl _

theorem freeFrameKept {p : PMM} {addr : Nat} (inside : addr / frameSize < p.frameCnt) :
    Takes p (p.freeFrame addr) := by
  simp only [PMM.freeFrame]
  split
  · exact Takes.refl p
  · next taken =>
    have bit : p.used (addr / frameSize) = true := by
      rw [← PMM.isSetUsed]
      simpa using taken
    refine ⟨rfl, fun counted => ?_⟩
    have less := PMM.countUnset inside bit
    unfold PMM.Counted at counted ⊢
    show (Lib.Count.count (p.bitmapUnset (addr / frameSize)).used p.frameCnt : Int) ≤ p.usedframes - 1
    omega

/- The state in which the contract can be kept: the tags agree and the PMM counts its frames. -/
structure Sane (v : VMM) : Prop where
  tagged : WellTagged v
  counted : v.pmm.Counted
  memory : v.pmm.frameCnt ≤ 2 ^ 40

theorem Sane.takes {v v' : VMM} (sane : Sane v) (tagged : WellTagged v') (takes : Takes v.pmm v'.pmm) :
    Sane v' :=
  ⟨tagged, takes.counted sane.counted, takes.frames ▸ sane.memory⟩

end VMM

open VMM

def KeepsCount (v : VMM) (op : Op) : Prop :=
  ∀ addr, op = .freePage addr → ∀ pte, v.getPTE (getIndexOffset addr) = some pte →
    (v.readEntry pte).getPhysicalAddr / frameSize < v.pmm.frameCnt

theorem stepSane {HHDMOffset fuel : Nat} {v v' : VMM} {op : Op} (sane : Sane v)
    (guard : KeepsTables HHDMOffset fuel v op ∧ KeepsCount v op)
    (ok : step HHDMOffset fuel v op = some v') : Sane v' := by
  have tagged := stepTagged sane.tagged guard.1 ok
  have served := guard.1.2 v' ok
  cases op with
  | allocPage higherHalf =>
    simp only [step, allocPage] at ok
    obtain ⟨⟨v1, addr⟩, allocated, rfl⟩ := Option.map_eq_some_iff.mp ok
    exact sane.takes tagged ((allocPagesTends allocated).kept served sane.tagged).2
  | allocNPages higherHalf n =>
    simp only [step, allocNPages] at ok
    obtain ⟨⟨v1, addr⟩, allocated, rfl⟩ := Option.map_eq_some_iff.mp ok
    exact sane.takes tagged ((allocPagesTends allocated).kept served sane.tagged).2
  | freePage addr =>
    refine sane.takes tagged ?_
    simp only [step, freePage] at ok
    split at ok
    · cases ok
    · next pte found =>
      cases Option.some.inj ok
      rw [addAvailablePmm, writeEntryPmm]
      exact freeFrameKept (guard.2 addr rfl pte found)

/-- In every state of a run that keeps the tables and the PMM's count, a call whose half holds n
consecutive unmapped pages once its growth check is over keeps the contract. -/
theorem allocNPagesContract {HHDMOffset fuel : Nat} {contents : Nat → Table} {pmm : PMM}
    {mem : PhysicalMemMap} {otherRanges : List MemRange} {v₀ v v1 v' : VMM} {ops : List Op}
    {higherHalf : Bool} {n addr : Nat}
    (offset : 0x7ffffffff000 < HHDMOffset ∧ HHDMOffset ≤ 0xffff800000000000)
    (counted : pmm.Counted) (memory : pmm.frameCnt ≤ 2 ^ 40)
    (booted : VMM.init HHDMOffset fuel contents pmm mem otherRanges = some v₀) (served : v₀.refused = 0)
    (guarded : Guarded (step HHDMOffset fuel)
      (fun v op => KeepsTables HHDMOffset fuel v op ∧ KeepsCount v op) v₀ ops)
    (visited : Visits (step HHDMOffset fuel) v₀ ops v) (positive : 1 ≤ n) (int : n < 2 ^ 31)
    (grown : v.ensurePages HHDMOffset fuel higherHalf true n = some v1)
    (unrefused : v1.refused = v.refused) (room : HasRun v1 higherHalf n)
    (ok : v.allocNPages HHDMOffset fuel higherHalf n = some (v', addr)) :
    PageContract HHDMOffset v v' higherHalf n addr := by
  obtain ⟨tagged₀, takes₀⟩ := initKept booted served
  have start : Sane v₀ := ⟨tagged₀, takes₀.counted counted, takes₀.frames ▸ memory⟩
  have sane : Sane v := invariantVisits Sane (fun _ _ _ sane guard ok => stepSane sane guard ok) start
    guarded visited
  unfold allocNPages allocPages at ok
  rw [grown, Option.bind_some] at ok
  obtain ⟨tagged1, takes1⟩ := (ensurePagesTends grown).kept unrefused sane.tagged
  have sane1 := sane.takes tagged1 takes1
  exact takePagesContract offset (ensurePagesGrows sane.tagged grown unrefused) tagged1 sane1.counted
    sane1.memory positive (by omega) room ok

theorem smallCounted : smallPmm.Counted := by
  have high : ∀ f, 128 ≤ f → smallPmm.used f = false := by
    intro f above
    have word : smallPmm.bitmap (f / 64) = 0#64 := by
      show (if f / 64 = 0 then 3#64 else if f / 64 = 1 then 1#64 else 0#64) = 0#64
      rw [if_neg (by omega), if_neg (by omega)]
    unfold PMM.used Lib.WordBits.bitOf
    rw [word]
    simp
  have low : Lib.Count.count smallPmm.used 128 = 3 := by decide +kernel
  have whole : Lib.Count.count smallPmm.used (128 + 32640) = 3 := by
    rw [Lib.Count.countExtend high, low]
  show ((Lib.Count.count smallPmm.used (128 + 32640) : Nat) : Int) ≤ 3
  rw [whole]
  exact Int.le_refl 3

theorem allocTwoPages : ∃ v₀ v', smallBoot = some v₀ ∧
    v₀.allocNPages 0xffff800000000000 3000 true 2 = some (v', 0xffff800000016000) ∧
    PageContract 0xffff800000000000 v₀ v' true 2 0xffff800000016000 := by
  have calls : (smallBoot.bind fun v₀ => (v₀.ensurePages 0xffff800000000000 3000 true true 2).bind fun v1 =>
      (v₀.allocNPages 0xffff800000000000 3000 true 2).map fun r =>
        (v₀.refused + v1.refused, r.2, (v1.leafAt 34359738390).map Entry.isPresent,
          (v1.leafAt 34359738391).map Entry.isPresent)) =
      some (0, 0xffff800000016000, some false, some false) := by decide +kernel
  obtain ⟨v₀, booted, calls⟩ := Option.bind_eq_some_iff.mp calls
  obtain ⟨v1, grown, calls⟩ := Option.bind_eq_some_iff.mp calls
  obtain ⟨⟨v', addr⟩, allocated, facts⟩ := Option.map_eq_some_iff.mp calls
  simp only [Prod.mk.injEq] at facts
  obtain ⟨refused, rfl, first, second⟩ := facts
  obtain ⟨e, read, absent⟩ := Option.map_eq_some_iff.mp first
  obtain ⟨e', read', absent'⟩ := Option.map_eq_some_iff.mp second
  have room : HasRun v1 true 2 := by
    refine ⟨34359738390, by decide, by decide, fun k below => ?_⟩
    rcases (show k = 0 ∨ k = 1 by omega) with rfl | rfl
    · exact ⟨e, read, absent⟩
    · exact ⟨e', read', absent'⟩
  refine ⟨v₀, v', booted, allocated, ?_⟩
  exact allocNPagesContract (by decide) smallCounted (by decide) booted (by omega) (guardedNil _ _ v₀)
    ⟨[], [], rfl, rfl⟩ (by decide) (by decide) grown (by omega) room allocated

set_option maxRecDepth 100000 in
/- The counter promises 448 pages of the lower half, but no 448 of them are consecutive: the
search goes on through the higher half and stops above the kernel. -/
theorem lowerRequestGoesHigher : ∃ v₀ v', smallBoot = some v₀ ∧
    v₀.allocNPages 0xffff800000000000 3000 false 448 = some (v', 0xffffffff80001000) ∧
    ¬ PageContract 0xffff800000000000 v₀ v' false 448 0xffffffff80001000 := by
  have calls : (smallBoot.bind fun v₀ => (v₀.allocNPages 0xffff800000000000 3000 false 448).map Prod.snd) =
      some 0xffffffff80001000 := by decide +kernel
  obtain ⟨v₀, booted, calls⟩ := Option.bind_eq_some_iff.mp calls
  obtain ⟨⟨v', addr⟩, allocated, rfl⟩ := Option.map_eq_some_iff.mp calls
  refine ⟨v₀, v', booted, allocated, fun contract => ?_⟩
  have lower := contract.half.mp (by decide)
  cases lower

end DimOS.Memory.Vmm
