import Mathlib
import DimOS.Memory.VmmSearch

/-! Searches for several pages, and the schemes behind them. NO_ALLOC changes nothing, so the
search USE_VMM makes for its own two pages is safe to nest; with that both allocating schemes
are sound places, and every call of the VMM keeps the tags as long as no frames are refused. -/
namespace DimOS.Memory.Vmm
open Pmm
open Paging
open Lib.PathTree

namespace VMM

theorem soundNone : Sound none :=
  ⟨fun _ _ _ _ given => (by cases given), fun _ _ _ _ given => (by cases given)⟩

theorem searchRunStays {HHDMOffset fuel n rounds : Nat} {v v' : VMM} {res prev c : IndexOffset}
    {done : Nat} (ok : searchRun HHDMOffset fuel none n rounds v res prev done = some (v', c)) :
    v' = v := by
  induction rounds generalizing v res prev done with
  | zero => contradiction
  | succ rounds ih =>
    simp only [searchRun] at ok
    split at ok
    · split at ok
      · contradiction
      · next v1 next_ searched =>
        have same := searchPageStays searched
        split at ok
        · exact (ih ok).trans same
        · exact (ih ok).trans same
    · cases Option.some.inj ok
      rfl

theorem searchPagesStays {HHDMOffset fuel n : Nat} {v v' : VMM} {begin_ c : IndexOffset}
    (ok : searchPages HHDMOffset fuel none v begin_ n = some (v', c)) : v' = v := by
  unfold searchPages at ok
  split at ok
  · contradiction
  · next v1 res searched => exact (searchRunStays ok).trans (searchPageStays searched)

theorem searchRunRefused {HHDMOffset fuel n rounds : Nat} {place : Place} (sound : Sound place)
    {v v' : VMM} {res prev c : IndexOffset} {done : Nat}
    (ok : searchRun HHDMOffset fuel place n rounds v res prev done = some (v', c)) :
    v.refused ≤ v'.refused := by
  induction rounds generalizing v res prev done with
  | zero => contradiction
  | succ rounds ih =>
    simp only [searchRun] at ok
    split at ok
    · split at ok
      · contradiction
      · next v1 next_ searched =>
        have up := searchPageRefused sound searched
        split at ok
        · exact up.trans (ih ok)
        · exact up.trans (ih ok)
    · cases Option.some.inj ok
      exact Nat.le_refl _

theorem searchPagesRefused {HHDMOffset fuel n : Nat} {place : Place} (sound : Sound place) {v v' : VMM}
    {begin_ c : IndexOffset} (ok : searchPages HHDMOffset fuel place v begin_ n = some (v', c)) :
    v.refused ≤ v'.refused := by
  unfold searchPages at ok
  split at ok
  · contradiction
  · next v1 res searched => exact (searchPageRefused sound searched).trans (searchRunRefused sound ok)

theorem searchRunGrows {HHDMOffset fuel n rounds : Nat} {place : Place} (sound : Sound place)
    {v v' : VMM} {res prev c : IndexOffset} {done : Nat} (tagged : WellTagged v) (normal : res.Normal)
    (normal' : prev.Normal)
    (ok : searchRun HHDMOffset fuel place n rounds v res prev done = some (v', c))
    (served : v'.refused = v.refused) : WellTagged v' ∧ Grows v v' ∧ c.Normal := by
  induction rounds generalizing v res prev done with
  | zero => contradiction
  | succ rounds ih =>
    simp only [searchRun] at ok
    split at ok
    · split at ok
      · contradiction
      · next v1 next_ searched =>
        have up := searchPageRefused sound searched
        have advance := (IndexOffset.nextPageSpec normal').1
        split at ok
        all_goals
          have up' := searchRunRefused sound ok
          obtain ⟨tagged1, grows1, normal1, -⟩ := searchPageSpec sound searched (by omega) tagged advance
        · obtain ⟨tagged2, grows2, normal2⟩ := ih tagged1 normal normal1 ok (by omega)
          exact ⟨tagged2, grows1.trans grows2, normal2⟩
        · obtain ⟨tagged2, grows2, normal2⟩ := ih tagged1 normal1 normal1 ok (by omega)
          exact ⟨tagged2, grows1.trans grows2, normal2⟩
    · cases Option.some.inj ok
      exact ⟨tagged, Grows.refl _, normal⟩

theorem searchPagesGrows {HHDMOffset fuel n : Nat} {place : Place} (sound : Sound place) {v v' : VMM}
    {begin_ c : IndexOffset} (tagged : WellTagged v) (normal : begin_.Normal)
    (ok : searchPages HHDMOffset fuel place v begin_ n = some (v', c)) (served : v'.refused = v.refused) :
    WellTagged v' ∧ Grows v v' ∧ c.Normal := by
  unfold searchPages at ok
  split at ok
  · contradiction
  · next v1 res searched =>
    have up := searchPageRefused sound searched
    have up' := searchRunRefused sound ok
    obtain ⟨tagged1, grows1, normal1, -⟩ := searchPageSpec sound searched (by omega) tagged normal
    obtain ⟨tagged2, grows2, normal2⟩ := searchRunGrows sound tagged1 normal1 normal1 ok (by omega)
    exact ⟨tagged2, grows1.trans grows2, normal2⟩

theorem higherNormal : (IndexOffset.mk 256 0 0 0).Normal :=
  IndexOffset.normalMk (by omega) (by omega) (by omega) (by omega)

theorem getPTECases {v : VMM} {c : IndexOffset} {pte : Nat × Nat} (found : v.getPTE c = some pte) :
    ∃ t, v.tableAt [c.i 0, c.i 1, c.i 2] = some t ∧ pte = (t, c.i 3) := by
  rw [getPTEEq] at found
  obtain ⟨t, there, made⟩ := Option.map_eq_some_iff.mp found
  exact ⟨t, there, made.symm⟩

theorem placeInPagesCases {HHDMOffset fuel : Nat} {v v' : VMM} {paddr : Nat}
    (ok : placeInPages HHDMOffset fuel v = some (v', paddr)) :
    ∃ c t t', searchPages HHDMOffset fuel none v.takeTableFrames.1 ⟨256, 0, 0, 0⟩ 2 =
        some (v.takeTableFrames.1, c) ∧
      v.tableAt [c.i 0, c.i 1, c.i 2] = some t ∧
      v.tableAt [c.nextPage.i 0, c.nextPage.i 1, c.nextPage.i 2] = some t' ∧
      paddr = v.takeTableFrames.2 ∧
      v' = ((v.takeTableFrames.1.mapPage (t, c.i 3) paddr).mapPage (t', c.nextPage.i 3)
        (paddr + frameSize)).addAvailable true (-2) := by
  simp only [placeInPages] at ok
  split at ok
  · contradiction
  · next v1 c searched =>
    cases searchPagesStays searched
    split at ok
    · contradiction
    · next pte reached =>
      obtain ⟨t, there, rfl⟩ := getPTECases reached
      split at ok
      · contradiction
      · next pte' reached' =>
        obtain ⟨t', there', rfl⟩ := getPTECases reached'
        rw [Entry.mapToComm, Entry.mapToComm] at ok
        cases Option.some.inj ok
        rw [Entry.mapToComm, (writeEntryTableAt _ _ _).2] at there'
        exact ⟨c, t, t', searched, there, there', rfl, rfl⟩

theorem placeInPagesRefused {HHDMOffset fuel : Nat} {v v' : VMM} {paddr : Nat}
    (ok : placeInPages HHDMOffset fuel v = some (v', paddr)) :
    v'.refused = v.takeTableFrames.1.refused := by
  obtain ⟨c, t, t', -, -, -, rfl, rfl⟩ := placeInPagesCases ok
  simp

theorem placeInPagesPlaced {HHDMOffset fuel : Nat} {v v' : VMM} {paddr : Nat} (tagged : WellTagged v)
    (ok : placeInPages HHDMOffset fuel v = some (v', paddr)) (served : v'.refused = v.refused) :
    Placed v v' paddr := by
  rw [placeInPagesRefused ok] at served
  obtain ⟨c, t, t', -, there, there', rfl, rfl⟩ := placeInPagesCases ok
  have frames := takeTableFramesPlaced tagged served
  have one := frames.mapPage (c.i 3) there rfl (.inl rfl)
  have two := one.mapPage (t := t') (c.nextPage.i 3)
    (by rw [mapPageTableAt]; exact there') rfl (.inr rfl)
  exact two.congr (by simp) (by simp) (by simp)

theorem soundPlace (HHDMOffset fuel : Nat) (allocScheme : AllocScheme) :
    Sound (placeOf HHDMOffset fuel allocScheme) := by
  cases allocScheme with
  | NO_ALLOC => exact soundNone
  | USE_PMM =>
    refine ⟨?_, ?_⟩
    · intro obtain_ v v' paddr given ok
      cases Option.some.inj given
      cases Option.some.inj ok
      exact takeTableFramesRefused v
    · intro obtain_ v v' paddr given ok tagged served
      cases Option.some.inj given
      cases Option.some.inj ok
      exact takeTableFramesPlaced tagged served
  | USE_VMM =>
    refine ⟨?_, ?_⟩
    · intro obtain_ v v' paddr given ok
      cases Option.some.inj given
      rw [placeInPagesRefused ok]
      exact takeTableFramesRefused v
    · intro obtain_ v v' paddr given ok tagged served
      cases Option.some.inj given
      exact placeInPagesPlaced tagged ok served

end VMM
end DimOS.Memory.Vmm
