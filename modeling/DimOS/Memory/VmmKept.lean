import Mathlib
import DimOS.Memory.VmmContract

/-! What growth leaves alone. A search may make tables, and USE_VMM maps two pages for each. Unless
the PMM refuses frames or a mapping is written over a present entry, every page that was mapped
stays as it was, and both frames of every new table were free. -/
namespace DimOS.Memory.Vmm
open Pmm
open Paging
open Lib.PathTree

namespace VMM

structure Undisturbed (v v' : VMM) : Prop where
  tagged : WellTagged v'
  grows : Grows v v'
  present : ∀ q i e, q.length = 3 → v.leaf q i = some e → e.isPresent = true → v'.leaf q i = some e
  spare : ∀ q t, v.tableAt q = none → v'.tableAt q = some t → v.pmm.used (t / frameSize + 1) = false

theorem Undisturbed.refl {v : VMM} (tagged : WellTagged v) : Undisturbed v v where
  tagged := tagged
  grows := Grows.refl v
  present := fun _ _ _ _ read _ => read
  spare := fun _ _ before after => by cases before.symm.trans after

theorem Undisturbed.trans {v v' v'' : VMM} (first : Undisturbed v v') (second : Undisturbed v' v'') :
    Undisturbed v v'' where
  tagged := second.tagged
  grows := first.grows.trans second.grows
  present := fun q i e last read present => second.present q i e last (first.present q i e last read present) present
  spare := by
    intro q t before after
    cases middle : v'.tableAt q with
    | none =>
      have clear := second.spare q t middle after
      by_contra taken
      rw [first.grows.used _ (by simpa using taken)] at clear
      cases clear
    | some u =>
      have same := second.grows.tables q u middle
      cases same.symm.trans after
      exact first.spare q t before middle

theorem takeTableFramesUsed (v : VMM) {f : Nat} (taken : v.pmm.used f = true) :
    v.takeTableFrames.1.pmm.used f = true := by
  show (v.pmm.allocNFrames 2).1.used f = true
  rcases PMM.allocNFramesCases v.pmm 2 with refusal | ⟨g, made, -, clear⟩
  · rw [refusal]
    exact taken
  · rw [made, (PMM.takeFramesSpec clear).1, taken]
    split <;> rfl

theorem takeTableFramesSpare {v : VMM} (served : v.takeTableFrames.1.refused = v.refused) :
    v.pmm.used (v.takeTableFrames.2 / frameSize + 1) = false := by
  rcases PMM.allocNFramesCases v.pmm 2 with refusal | ⟨f, made, -, clear⟩
  · have : v.takeTableFrames.1.refused = v.refused + 1 := by
      show v.refused + ((v.pmm.allocNFrames 2).1.usedframes == v.pmm.usedframes).toNat = _
      rw [refusal]
      simp
    omega
  · have paddr : v.takeTableFrames.2 = f * frameSize := congrArg Prod.snd made
    rw [paddr, Nat.mul_div_cancel f (by decide)]
    exact clear 1 (by omega)

/- What a scheme has to do for that: besides a place that is good for a table, no present page is
written over without being counted. -/
structure Careful (place : Place) : Prop where
  sound : Sound place
  overwritten : ∀ obtain_ v v' paddr, place = some obtain_ → obtain_ v = some (v', paddr) →
    v.overwritten ≤ v'.overwritten
  present : ∀ obtain_ v v' paddr, place = some obtain_ → obtain_ v = some (v', paddr) → WellTagged v →
    v'.overwritten = v.overwritten →
    ∀ q i e, q.length = 3 → v.leaf q i = some e → e.isPresent = true → v'.leaf q i = some e
  spare : ∀ obtain_ v v' paddr, place = some obtain_ → obtain_ v = some (v', paddr) →
    v'.refused = v.refused → v.pmm.used (paddr / frameSize + 1) = false

theorem mapPageOverwritten (v : VMM) (pte : Nat × Nat) (addr : Nat) : (v.mapPage pte addr).overwritten =
    v.overwritten + (v.readEntry pte).isPresent.toNat := rfl

@[simp] theorem addAvailableOverwritten (v : VMM) (h : Bool) (k : Int) :
    (v.addAvailable h k).overwritten = v.overwritten := by
  unfold addAvailable
  split <;> rfl

theorem mapPagePresent {v : VMM} (tagged : WellTagged v) {q : List Nat} {t i : Nat} (found : v.tableAt q = some t)
    (addr : Nat) (unwritten : (v.mapPage (t, i) addr).overwritten = v.overwritten) {q' : List Nat} {j : Nat} {e : Entry}
    (read : v.leaf q' j = some e) (present : e.isPresent = true) : (v.mapPage (t, i) addr).leaf q' j = some e := by
  rw [mapPageLeaf tagged found]
  split
  · next here =>
    obtain ⟨rfl, rfl⟩ := here
    have entry : v.readEntry (t, j) = e := by
      rw [leaf, found] at read
      exact Option.some.inj read
    rw [mapPageOverwritten, entry, present] at unwritten
    simp at unwritten
  · exact read

theorem carefulNone : Careful none where
  sound := soundNone
  overwritten := fun _ _ _ _ given => by cases given
  present := fun _ _ _ _ given => by cases given
  spare := fun _ _ _ _ given => by cases given

theorem takeTableFramesOverwritten (v : VMM) : v.takeTableFrames.1.overwritten = v.overwritten := rfl

theorem placeInPagesOverwritten {HHDMOffset fuel : Nat} {v v' : VMM} {paddr : Nat}
    (ok : placeInPages HHDMOffset fuel v = some (v', paddr)) : v.overwritten ≤ v'.overwritten := by
  obtain ⟨c, t, t', -, -, -, rfl, rfl⟩ := placeInPagesCases ok
  rw [addAvailableOverwritten, mapPageOverwritten, mapPageOverwritten, takeTableFramesOverwritten]
  omega

theorem placeInPagesPresent {HHDMOffset fuel : Nat} {v v' : VMM} {paddr : Nat} (tagged : WellTagged v)
    (ok : placeInPages HHDMOffset fuel v = some (v', paddr)) (unwritten : v'.overwritten = v.overwritten) {q : List Nat}
    {i : Nat} {e : Entry} (read : v.leaf q i = some e) (present : e.isPresent = true) : v'.leaf q i = some e := by
  obtain ⟨c, t, t', -, there, there', rfl, rfl⟩ := placeInPagesCases ok
  rw [addAvailableOverwritten] at unwritten
  have one := mapPageOverwritten v.takeTableFrames.1 (t, c.i 3) v.takeTableFrames.2
  have two := mapPageOverwritten (v.takeTableFrames.1.mapPage (t, c.i 3) v.takeTableFrames.2) (t', c.nextPage.i 3)
    (v.takeTableFrames.2 + frameSize)
  rw [takeTableFramesOverwritten] at one
  have bits : ∀ q, v.takeTableFrames.1.leaf q = v.leaf q := fun _ => rfl
  have tagged1 : WellTagged v.takeTableFrames.1 := tagged.frame rfl rfl (fun _ => takeTableFramesUsed v)
  have mapped : (v.takeTableFrames.1.mapPage (t, c.i 3) v.takeTableFrames.2).tableAt [c.nextPage.i 0, c.nextPage.i 1,
      c.nextPage.i 2] = some t' := by
    rw [mapPageTableAt]
    exact there'
  rw [leafCongr (addAvailableMem _ _ _) (addAvailableRoot _ _ _)]
  refine mapPagePresent (mapPageTagged tagged1 there rfl _) mapped _ (by omega) ?_ present
  exact mapPagePresent tagged1 there _ (by rw [takeTableFramesOverwritten]; omega) (by rw [bits]; exact read) present

theorem carefulPlace (HHDMOffset fuel : Nat) (allocScheme : AllocScheme) :
    Careful (placeOf HHDMOffset fuel allocScheme) := by
  have sound := soundPlace HHDMOffset fuel allocScheme
  cases allocScheme with
  | NO_ALLOC => exact carefulNone
  | USE_PMM =>
    refine ⟨sound, ?_, ?_, ?_⟩
    · intro obtain_ v v' paddr given ok
      cases Option.some.inj given
      cases Option.some.inj ok
      exact Nat.le_refl _
    · intro obtain_ v v' paddr given ok _ _ q i e _ read _
      cases Option.some.inj given
      cases Option.some.inj ok
      exact read
    · intro obtain_ v v' paddr given ok served
      cases Option.some.inj given
      cases Option.some.inj ok
      exact takeTableFramesSpare served
  | USE_VMM =>
    refine ⟨sound, ?_, ?_, ?_⟩
    · intro obtain_ v v' paddr given ok
      cases Option.some.inj given
      exact placeInPagesOverwritten ok
    · intro obtain_ v v' paddr given ok tagged unwritten q i e _ read present
      cases Option.some.inj given
      exact placeInPagesPresent tagged ok unwritten read present
    · intro obtain_ v v' paddr given ok served
      cases Option.some.inj given
      rw [placeInPagesRefused ok] at served
      obtain ⟨c, t, t', -, -, -, rfl, -⟩ := placeInPagesCases ok
      exact takeTableFramesSpare served

section search
variable {HHDMOffset : Nat} {place : Place}

theorem addTableOverwritten (HHDMOffset : Nat) (v : VMM) (t i level : Nat) (original : IndexOffset) (paddr : Nat) :
    (v.addTable HHDMOffset t i level original paddr).overwritten = v.overwritten := by
  simp only [addTable]
  split
  · rw [addAvailableOverwritten]
    rfl
  · rfl

theorem enterOverwritten (careful : Careful place) {v v' : VMM} {t i level : Nat} {original : IndexOffset}
    {o : Option Nat} (ok : enter HHDMOffset place v t i level original = some (v', o)) :
    v.overwritten ≤ v'.overwritten := by
  unfold enter at ok
  split at ok
  · split at ok
    · contradiction
    · cases Option.some.inj ok
      exact Nat.le_refl _
  · split at ok
    · cases Option.some.inj ok
      exact Nat.le_refl _
    · split at ok
      · contradiction
      · next v1 paddr obtained =>
        cases Option.some.inj ok
        rw [addTableOverwritten]
        exact careful.overwritten _ _ _ _ rfl obtained

theorem searchTableOverwritten (careful : Careful place) {t level : Nat} {original : IndexOffset}
    {descend : VMM → IndexOffset → Nat → Option (VMM × IndexOffset × Bool)}
    (below : ∀ v curr t v' c done, descend v curr t = some (v', c, done) → v.overwritten ≤ v'.overwritten)
    {left : Nat} {v v' : VMM} {curr c : IndexOffset} {done : Bool}
    (ok : searchTable HHDMOffset place descend t level original left v curr = some (v', c, done)) :
    v.overwritten ≤ v'.overwritten := by
  induction left generalizing v curr with
  | zero =>
    cases Option.some.inj ok
    exact Nat.le_refl _
  | succ left ih =>
    simp only [searchTable] at ok
    split at ok
    · split at ok
      · cases Option.some.inj ok
        exact Nat.le_refl _
      · exact ih ok
    · split at ok
      · contradiction
      · next v1 entered => exact (enterOverwritten careful entered).trans (ih ok)
      · next v1 next entered =>
        split at ok
        · contradiction
        · next v2 c2 descended =>
          cases Option.some.inj ok
          exact (enterOverwritten careful entered).trans (below _ _ _ _ _ _ descended)
        · next v2 c2 descended =>
          exact (enterOverwritten careful entered).trans ((below _ _ _ _ _ _ descended).trans (ih ok))

theorem searchUtilOverwritten {depth : Nat} (careful : Careful place) {v v' : VMM} {curr c : IndexOffset} {t : Nat}
    {done : Bool} (ok : searchUtil HHDMOffset place depth v curr t = some (v', c, done)) :
    v.overwritten ≤ v'.overwritten := by
  induction depth generalizing v curr t v' c done with
  | zero => contradiction
  | succ depth ih => exact searchTableOverwritten careful (fun _ _ _ _ _ _ descended => ih descended) ok

theorem enterUndisturbed (careful : Careful place) {v v' : VMM} {q : List Nat} {t i level : Nat}
    {original : IndexOffset} {o : Option Nat} (tagged : WellTagged v) (found : v.tableAt q = some t)
    (depth : q.length = level) (inner : level < 3)
    (ok : enter HHDMOffset place v t i level original = some (v', o)) (served : v'.refused = v.refused)
    (unwritten : v'.overwritten = v.overwritten) : Undisturbed v v' ∧ v'.tableAt (q ++ [i]) = o := by
  obtain ⟨tagged', grows, there, -⟩ := enterSpec careful.sound tagged found depth inner ok served
  refine ⟨?_, there⟩
  have linked := tagged.linked q t i found (by omega)
  unfold enter at ok
  split at ok
  · split at ok
    · contradiction
    · cases Option.some.inj ok
      exact Undisturbed.refl tagged
  · next absent =>
    have free : (v.mem t).nextTables i = none := by
      by_contra linked'
      exact absent (linked.mpr linked')
    split at ok
    · cases Option.some.inj ok
      exact Undisturbed.refl tagged
    · split at ok
      · contradiction
      · next v1 paddr obtained =>
        cases Option.some.inj ok
        rw [(addTableRoot HHDMOffset v1 t i level original paddr).2.2] at served
        rw [addTableOverwritten] at unwritten
        have placed := careful.sound.placed _ _ _ _ rfl obtained tagged served
        have found' : v1.tableAt q = some t := by rw [placed.tables, found]
        have missing : v.tableAt (q ++ [i]) = none := by
          unfold tableAt at found ⊢
          rw [walkSnoc, found]
          exact free
        have free' : (v1.mem t).nextTables i = none := by
          have : v1.tableAt (q ++ [i]) = none := by rw [placed.tables, missing]
          unfold tableAt at found' this
          rw [walkSnoc, found'] at this
          exact this
        have fresh' : ∀ q, v1.tableAt q ≠ some paddr := by
          rw [placed.tables]
          exact placed.fresh
        refine ⟨tagged', grows, fun q' j e last read present => ?_, fun q' u before after => ?_⟩
        · rw [addTableLeaf placed.tagged found' (by omega) free' fresh' last, if_neg]
          · exact careful.present _ _ _ _ rfl obtained tagged unwritten q' j e last read present
          · rintro rfl
            rw [leaf, missing] at read
            cases read
        · rw [addTableTableAt placed.tagged found' free' fresh', placed.tables] at after
          split at after
          · cases Option.some.inj after
            exact careful.spare _ _ _ _ rfl obtained served
          · cases before.symm.trans after

theorem searchTableUndisturbed (careful : Careful place) {v v' : VMM} {q : List Nat} {t level left : Nat}
    {original curr c : IndexOffset} {done : Bool}
    {descend : VMM → IndexOffset → Nat → Option (VMM × IndexOffset × Bool)} (depth : q.length = level)
    (shallow : level ≤ 3) (refused : ∀ v curr t v' c done, descend v curr t = some (v', c, done) → v.refused ≤ v'.refused)
    (overwritten : ∀ v curr t v' c done, descend v curr t = some (v', c, done) → v.overwritten ≤ v'.overwritten)
    (below : ∀ v curr t v' c done i, descend v curr t = some (v', c, done) → v'.refused = v.refused →
      v'.overwritten = v.overwritten → WellTagged v → level < 3 → v.tableAt (q ++ [i]) = some t → Undisturbed v v')
    (tagged : WellTagged v) (found : v.tableAt q = some t)
    (ok : searchTable HHDMOffset place descend t level original left v curr = some (v', c, done))
    (served : v'.refused = v.refused) (unwritten : v'.overwritten = v.overwritten) : Undisturbed v v' := by
  induction left generalizing v curr with
  | zero =>
    cases Option.some.inj ok
    exact Undisturbed.refl tagged
  | succ left ih =>
    simp only [searchTable] at ok
    split at ok
    · split at ok
      · cases Option.some.inj ok
        exact Undisturbed.refl tagged
      · exact ih tagged found ok served unwritten
    · next inner =>
      split at ok
      · contradiction
      · next v1 entered =>
        have up := enterRefused careful.sound entered
        have up' := searchTableRefused careful.sound refused ok
        have more := enterOverwritten careful entered
        have more' := searchTableOverwritten careful overwritten ok
        obtain ⟨first, -⟩ := enterUndisturbed careful tagged found depth (by omega) entered (by omega) (by omega)
        exact first.trans (ih first.tagged (first.grows.tables q t found) ok (by omega) (by omega))
      · next v1 next_ entered =>
        have up := enterRefused careful.sound entered
        have more := enterOverwritten careful entered
        split at ok
        · contradiction
        · next v2 c2 descended =>
          cases Option.some.inj ok
          have up' := refused _ _ _ _ _ _ descended
          have more' := overwritten _ _ _ _ _ _ descended
          obtain ⟨first, there⟩ := enterUndisturbed careful tagged found depth (by omega) entered (by omega) (by omega)
          exact first.trans (below _ _ _ _ _ _ _ descended (by omega) (by omega) first.tagged (by omega) there)
        · next v2 c2 descended =>
          have up' := refused _ _ _ _ _ _ descended
          have more' := overwritten _ _ _ _ _ _ descended
          have up'' := searchTableRefused careful.sound refused ok
          have more'' := searchTableOverwritten careful overwritten ok
          obtain ⟨first, there⟩ := enterUndisturbed careful tagged found depth (by omega) entered (by omega) (by omega)
          have second := first.trans
            (below _ _ _ _ _ _ _ descended (by omega) (by omega) first.tagged (by omega) there)
          exact second.trans (ih second.tagged (second.grows.tables q t found) ok (by omega) (by omega))

theorem searchUtilUndisturbed {depth : Nat} (careful : Careful place) {v v' : VMM} {q : List Nat} {t : Nat}
    {curr c : IndexOffset} {done : Bool} (tagged : WellTagged v) (found : v.tableAt q = some t)
    (ok : searchUtil HHDMOffset place depth v curr t = some (v', c, done)) (served : v'.refused = v.refused)
    (unwritten : v'.overwritten = v.overwritten) : Undisturbed v v' := by
  induction depth generalizing v curr t v' c done q with
  | zero => contradiction
  | succ depth ih =>
    refine searchTableUndisturbed careful (tagged.tag q t found).symm ?_ (fun _ _ _ _ _ _ => searchUtilRefused careful.sound)
      (fun _ _ _ _ _ _ => searchUtilOverwritten careful) ?_ tagged found ok served unwritten
    · rw [tagged.tag q t found]
      exact tagged.depth q t found
    · exact fun _ _ _ _ _ _ _ descended served unwritten tagged _ there => ih tagged there descended served unwritten

theorem searchPageOverwritten {fuel : Nat} (careful : Careful place) {v v' : VMM} {begin_ c : IndexOffset}
    (ok : searchPage HHDMOffset fuel place v begin_ = some (v', c)) : v.overwritten ≤ v'.overwritten := by
  unfold searchPage at ok
  split at ok
  · contradiction
  · next v1 c1 searched =>
    cases Option.some.inj ok
    exact searchUtilOverwritten careful searched
  · next v1 c1 searched =>
    cases Option.some.inj ok
    exact searchUtilOverwritten careful searched

theorem searchPageUndisturbed {fuel : Nat} (careful : Careful place) {v v' : VMM} {begin_ c : IndexOffset}
    (tagged : WellTagged v) (ok : searchPage HHDMOffset fuel place v begin_ = some (v', c))
    (served : v'.refused = v.refused) (unwritten : v'.overwritten = v.overwritten) : Undisturbed v v' := by
  unfold searchPage at ok
  split at ok
  · contradiction
  · next v1 c1 searched =>
    cases Option.some.inj ok
    exact @searchUtilUndisturbed _ _ _ careful _ _ [] _ _ _ _ tagged rfl searched served unwritten
  · next v1 c1 searched =>
    cases Option.some.inj ok
    exact @searchUtilUndisturbed _ _ _ careful _ _ [] _ _ _ _ tagged rfl searched served unwritten

theorem searchRunOverwritten {fuel n rounds : Nat} (careful : Careful place) {v v' : VMM} {res prev c : IndexOffset}
    {done : Nat} (ok : searchRun HHDMOffset fuel place n rounds v res prev done = some (v', c)) :
    v.overwritten ≤ v'.overwritten := by
  induction rounds generalizing v res prev done with
  | zero => contradiction
  | succ rounds ih =>
    simp only [searchRun] at ok
    split at ok
    · split at ok
      · contradiction
      · next v1 next_ searched =>
        have more := searchPageOverwritten careful searched
        split at ok
        · exact more.trans (ih ok)
        · exact more.trans (ih ok)
    · cases Option.some.inj ok
      exact Nat.le_refl _

theorem searchRunUndisturbed {fuel n rounds : Nat} (careful : Careful place) {v v' : VMM} {res prev c : IndexOffset}
    {done : Nat} (tagged : WellTagged v) (ok : searchRun HHDMOffset fuel place n rounds v res prev done = some (v', c))
    (served : v'.refused = v.refused) (unwritten : v'.overwritten = v.overwritten) : Undisturbed v v' := by
  induction rounds generalizing v res prev done with
  | zero => contradiction
  | succ rounds ih =>
    simp only [searchRun] at ok
    split at ok
    · split at ok
      · contradiction
      · next v1 next_ searched =>
        have up := searchPageRefused careful.sound searched
        have more := searchPageOverwritten careful searched
        split at ok
        all_goals
          have up' := searchRunRefused careful.sound ok
          have more' := searchRunOverwritten careful ok
          have first := searchPageUndisturbed careful tagged searched (by omega) (by omega)
          exact first.trans (ih first.tagged ok (by omega) (by omega))
    · cases Option.some.inj ok
      exact Undisturbed.refl tagged

theorem searchPagesOverwritten {fuel n : Nat} (careful : Careful place) {v v' : VMM} {begin_ c : IndexOffset}
    (ok : searchPages HHDMOffset fuel place v begin_ n = some (v', c)) : v.overwritten ≤ v'.overwritten := by
  unfold searchPages at ok
  split at ok
  · contradiction
  · next v1 res searched => exact (searchPageOverwritten careful searched).trans (searchRunOverwritten careful ok)

theorem searchPagesUndisturbed {fuel n : Nat} (careful : Careful place) {v v' : VMM} {begin_ c : IndexOffset}
    (tagged : WellTagged v) (ok : searchPages HHDMOffset fuel place v begin_ n = some (v', c))
    (served : v'.refused = v.refused) (unwritten : v'.overwritten = v.overwritten) : Undisturbed v v' := by
  unfold searchPages at ok
  split at ok
  · contradiction
  · next v1 res searched =>
    have up := searchPageRefused careful.sound searched
    have more := searchPageOverwritten careful searched
    have up' := searchRunRefused careful.sound ok
    have more' := searchRunOverwritten careful ok
    have first := searchPageUndisturbed careful tagged searched (by omega) (by omega)
    exact first.trans (searchRunUndisturbed careful first.tagged ok (by omega) (by omega))

end search

theorem ensurePagesOverwritten {HHDMOffset fuel : Nat} {v v' : VMM} {higherHalf doMinCheck : Bool} {reqPages : Nat}
    (ok : ensurePages HHDMOffset fuel v higherHalf doMinCheck reqPages = some v') : v.overwritten ≤ v'.overwritten := by
  simp only [ensurePages] at ok
  split at ok
  · obtain ⟨⟨v1, c⟩, searched, rfl⟩ := Option.map_eq_some_iff.mp ok
    exact searchPagesOverwritten (carefulPlace HHDMOffset fuel .USE_VMM) searched
  · cases Option.some.inj ok
    exact Nat.le_refl _

/-- The growth check of allocPages leaves every mapped page alone. -/
theorem ensurePagesUndisturbed {HHDMOffset fuel : Nat} {v v' : VMM} {higherHalf doMinCheck : Bool} {reqPages : Nat}
    (tagged : WellTagged v) (ok : ensurePages HHDMOffset fuel v higherHalf doMinCheck reqPages = some v')
    (served : v'.refused = v.refused) (unwritten : v'.overwritten = v.overwritten) : Undisturbed v v' := by
  simp only [ensurePages] at ok
  split at ok
  · obtain ⟨⟨v1, c⟩, searched, rfl⟩ := Option.map_eq_some_iff.mp ok
    exact searchPagesUndisturbed (carefulPlace HHDMOffset fuel .USE_VMM) tagged searched served unwritten
  · cases Option.some.inj ok
    exact Undisturbed.refl tagged

end VMM
end DimOS.Memory.Vmm
