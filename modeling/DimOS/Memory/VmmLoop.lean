import DimOS.Lib.CyclicScan
import DimOS.Memory.VmmFirst

/-! The loop of getFirstNUnallocPage, round by round. To it the pages are a circle: nextPage leads from the last
page to the first and over the canonical hole, and a search that failed looks like one that found page 0. It
returns the first run of n pages on that circle, if every search finds what it looks for. -/
namespace DimOS.Memory.Vmm
open Pmm
open Paging
open Lib.CyclicScan

namespace VMM

def Candidate (makes : Bool) (v : VMM) (p : Nat) : Prop := Wanted makes v 3 v.pml4 p

theorem pageTuple {p : Nat} (inside : p < 2 ^ 36) :
    (IndexOffset.getIndexOffset (p * 4096)).Normal ∧ (IndexOffset.getIndexOffset (p * 4096)).page = p := by
  obtain ⟨normal, page⟩ := IndexOffset.indexOffsetSpec (p * 4096)
  exact ⟨normal, by omega⟩

theorem searchPageNext {HHDMOffset fuel : Nat} {place : Place} {G : Nat → VMM → Prop} {v : VMM} {q : IndexOffset}
    (deep : 4 ≤ fuel) (formed : FourLevel v) (normal : q.Normal)
    (served : ∀ s, s < 2 ^ 36 → FirstFrom (Candidate place.isSome v) q.page s →
      Served HHDMOffset place (G s) 3 v [] v.pml4 s) :
    ∃ v' c, searchPage HHDMOffset fuel place v q = some (v', c) ∧ c.Normal ∧
      NextIn (2 ^ 36) (Candidate place.isSome v) q.page c.page ∧
      ((v' = v ∧ ∀ p, q.page ≤ p → p < 2 ^ 36 → ¬ Candidate place.isSome v p) ∨ G c.page v') := by
  obtain ⟨v', c, done, ran, finds⟩ := @searchUtilFinds HHDMOffset fuel place G v [] v.pml4 3 q deep formed normal rfl rfl
    served
  cases done with
  | false =>
    obtain ⟨rfl, -, none⟩ := finds.failed rfl
    exact ⟨v', ⟨0, 0, 0, 0⟩, by simp only [searchPage, ran], IndexOffset.normalMk (by omega) (by omega) (by omega)
      (by omega), .inr ⟨rfl, none⟩, .inl ⟨rfl, none⟩⟩
  | true =>
    obtain ⟨⟨onward, wanted, none⟩, goal⟩ := finds.first rfl
    exact ⟨v', c, by simp only [searchPage, ran], finds.normal,
      .inl ⟨onward, IndexOffset.normalPage finds.normal, wanted, none⟩, .inr goal⟩

theorem noAllocNext {HHDMOffset fuel : Nat} {v : VMM} {q : IndexOffset} (deep : 4 ≤ fuel) (formed : FourLevel v)
    (normal : q.Normal) : ∃ c, searchPage HHDMOffset fuel none v q = some (v, c) ∧ c.Normal ∧
      NextIn (2 ^ 36) (Candidate false v) q.page c.page := by
  obtain ⟨v', c, ran, normalC, next, stays⟩ := @searchPageNext HHDMOffset fuel none (fun _ v' => v' = v) v q deep formed
    normal (fun s _ first => servedPresent (wantedPresent first.2.1) rfl)
  obtain rfl : v' = v := by
    rcases stays with ⟨same, -⟩ | same
    · exact same
    · exact same
  exact ⟨c, ran, normalC, next⟩

theorem searchRunFound {HHDMOffset fuel n s k : Nat} {place : Place} {P : Nat → Prop} {I : Nat → VMM → Prop}
    (search : ∀ a v (q : IndexOffset), I q.page v → q.Normal → q.page = (s + a) % 2 ^ 36 → a + 1 < k + n →
      ∃ v' c, searchPage HHDMOffset fuel place v q.nextPage = some (v', c) ∧ c.Normal ∧
        NextIn (2 ^ 36) P q.nextPage.page c.page ∧ I c.page v')
    (first : FirstRun (2 ^ 36) P s n k) {rounds a d : Nat} {v : VMM} {res prev : IndexOffset} (normal : res.Normal)
    (normal' : prev.Normal) (scanned : Scanned (2 ^ 36) P s n a d res.page prev.page) (supply : I prev.page v)
    (more : k + n < a + 1 + rounds) :
    ∃ v' c, searchRun HHDMOffset fuel place n rounds v res prev d = some (v', c) ∧ c.Normal ∧
      c.page = (s + k) % 2 ^ 36 ∧ I ((s + (k + n - 1)) % 2 ^ 36) v' := by
  induction rounds generalizing a d v res prev with
  | zero =>
    have reach := scanned.reach first
    have few := scanned.few
    omega
  | succ rounds ih =>
    have reach := scanned.reach first
    simp only [searchRun]
    by_cases less : d < n
    · obtain ⟨normalN, pageN⟩ := IndexOffset.nextPageSpec normal'
      obtain ⟨v', c, ran, normalC, next, supply'⟩ := search a v prev supply normal' scanned.here (by omega)
      rw [pageN] at next
      obtain ⟨onward, again⟩ := scanned.step less (IndexOffset.normalPage normal') next
      rw [if_pos less, ran]
      dsimp only
      by_cases same : prev.nextPage.getVirtualAddr = c.getVirtualAddr
      · rw [if_pos same]
        rw [IndexOffset.virtualAddrInj normalN normalC, pageN] at same
        exact ih normal normalC (onward same.symm) supply' (by omega)
      · rw [if_neg same]
        rw [IndexOffset.virtualAddrInj normalN normalC, pageN] at same
        obtain ⟨a', later, scanned'⟩ := again (fun equal => same equal.symm)
        exact ih normalC normalC scanned' supply' (by omega)
    · obtain rfl : d = n := Nat.le_antisymm scanned.few (Nat.not_lt.mp less)
      obtain ⟨found, page⟩ := scanned.found
      have distance := found.unique first
      have short := scanned.short
      refine ⟨v, res, if_neg less, normal, by rw [page, distance], ?_⟩
      rw [show k + d - 1 = a by omega, ← scanned.here]
      exact supply

theorem searchRunFirst {HHDMOffset fuel n s rounds a d : Nat} {v v' : VMM} {res prev c : IndexOffset} (deep : 4 ≤ fuel)
    (formed : FourLevel v) (normal : res.Normal) (normal' : prev.Normal)
    (scanned : Scanned (2 ^ 36) (Candidate false v) s n a d res.page prev.page)
    (ok : searchRun HHDMOffset fuel none n rounds v res prev d = some (v', c)) :
    ∃ k, FirstRun (2 ^ 36) (Candidate false v) s n k ∧ c.Normal ∧ c.page = (s + k) % 2 ^ 36 := by
  induction rounds generalizing a d res prev with
  | zero => cases ok
  | succ rounds ih =>
    simp only [searchRun] at ok
    split at ok
    · next less =>
      obtain ⟨normalN, pageN⟩ := IndexOffset.nextPageSpec normal'
      obtain ⟨c₁, ran, normalC, next⟩ := @noAllocNext HHDMOffset fuel v prev.nextPage deep formed normalN
      rw [ran] at ok
      dsimp only at ok
      rw [pageN] at next
      obtain ⟨onward, again⟩ := scanned.step less (IndexOffset.normalPage normal') next
      split at ok
      · next same =>
        rw [IndexOffset.virtualAddrInj normalN normalC, pageN] at same
        exact ih normal normalC (onward same.symm) ok
      · next same =>
        rw [IndexOffset.virtualAddrInj normalN normalC, pageN] at same
        obtain ⟨a', -, scanned'⟩ := again (fun equal => same equal.symm)
        exact ih normalC normalC scanned' ok
    · next enough =>
      cases Option.some.inj ok
      obtain rfl : d = n := Nat.le_antisymm scanned.few (Nat.not_lt.mp enough)
      obtain ⟨found, page⟩ := scanned.found
      exact ⟨_, found, normal, page⟩

/- On the circle of pages, from the answer s to the first search on, the first run of n pages begins k
further on. -/
def RunFrom (makes : Bool) (v : VMM) (begin_ : IndexOffset) (n s k : Nat) : Prop :=
  NextIn (2 ^ 36) (Candidate makes v) begin_.page s ∧ FirstRun (2 ^ 36) (Candidate makes v) s n k

theorem searchPagesFound {HHDMOffset fuel n s k : Nat} {place : Place} {P : Nat → Prop} {I : Nat → VMM → Prop}
    {v v₁ : VMM} {begin_ res : IndexOffset} (positive : 1 ≤ n)
    (search : ∀ a v (q : IndexOffset), I q.page v → q.Normal → q.page = (s + a) % 2 ^ 36 → a + 1 < k + n →
      ∃ v' c, searchPage HHDMOffset fuel place v q.nextPage = some (v', c) ∧ c.Normal ∧
        NextIn (2 ^ 36) P q.nextPage.page c.page ∧ I c.page v')
    (first : FirstRun (2 ^ 36) P s n k) (ran : searchPage HHDMOffset fuel place v begin_ = some (v₁, res))
    (normal : res.Normal) (inside : begin_.page < 2 ^ 36) (next : NextIn (2 ^ 36) P begin_.page s) (start : res.page = s)
    (supply : I res.page v₁) (rounds : k + n ≤ fuel) :
    ∃ v' c, searchPages HHDMOffset fuel place v begin_ n = some (v', c) ∧ c.Normal ∧ c.page = (s + k) % 2 ^ 36 ∧
      I ((s + (k + n - 1)) % 2 ^ 36) v' := by
  have scanned := scannedStart next inside positive
  simp only [searchPages, ran]
  exact searchRunFound search first normal normal (by rw [start]; exact scanned) supply (by omega)

theorem noAllocFound {HHDMOffset fuel n s k : Nat} {v : VMM} {begin_ : IndexOffset} (formed : FourLevel v)
    (normal : begin_.Normal) (positive : 1 ≤ n) (run : RunFrom false v begin_ n s k) (deep : 4 ≤ fuel)
    (rounds : k + n ≤ fuel) :
    ∃ v' c, searchPages HHDMOffset fuel none v begin_ n = some (v', c) ∧ c.Normal ∧ c.page = (s + k) % 2 ^ 36 := by
  obtain ⟨res, ran, normalR, next⟩ := @noAllocNext HHDMOffset fuel v begin_ deep formed normal
  have search : ∀ a w (q : IndexOffset), w = v → q.Normal → q.page = (s + a) % 2 ^ 36 → a + 1 < k + n →
      ∃ v' c, searchPage HHDMOffset fuel none w q.nextPage = some (v', c) ∧ c.Normal ∧
        NextIn (2 ^ 36) (Candidate false v) q.nextPage.page c.page ∧ v' = v := by
    rintro a w q rfl normalQ - -
    obtain ⟨c, ran', normalC, next'⟩ := @noAllocNext HHDMOffset fuel w q.nextPage deep formed
      (IndexOffset.nextPageSpec normalQ).1
    exact ⟨w, c, ran', normalC, next', rfl⟩
  obtain ⟨v', c, found, normalC, page, -⟩ := @searchPagesFound HHDMOffset fuel n s k none (Candidate false v)
    (fun _ v' => v' = v) v v begin_ res positive search run.2 ran normalR (IndexOffset.normalPage normal) run.1
    (next.unique run.1) rfl rounds
  exact ⟨v', c, found, normalC, page⟩

section fuel
variable {HHDMOffset : Nat} {place place' : Place}

/- The second scheme answers as the first one wherever that one answers. -/
def Refines : Place → Place → Prop
  | none, none => True
  | some obtain_, some obtain' => ∀ v r, obtain_ v = some r → obtain' v = some r
  | _, _ => False

theorem enterMore (more : Refines place place') {v : VMM} {t i level : Nat} {original : IndexOffset} {r : VMM × Option Nat}
    (ok : enter HHDMOffset place v t i level original = some r) : enter HHDMOffset place' v t i level original = some r := by
  unfold enter at ok ⊢
  split
  · next present =>
    rw [if_pos present] at ok
    exact ok
  · next absent =>
    rw [if_neg absent] at ok
    match place, place', more with
    | none, none, _ => exact ok
    | some obtain_, some obtain', more =>
      dsimp only at ok ⊢
      cases found : obtain_ v with
      | none =>
        rw [found] at ok
        cases ok
      | some out =>
        rw [found] at ok
        rw [more v out found]
        exact ok

theorem searchTableMore (more : Refines place place') {descend descend' : VMM → IndexOffset → Nat → Option (VMM × IndexOffset × Bool)}
    (deeper : ∀ v c t r, descend v c t = some r → descend' v c t = some r) {t level left : Nat} {original curr : IndexOffset}
    {v : VMM} {r : VMM × IndexOffset × Bool} (ok : searchTable HHDMOffset place descend t level original left v curr = some r) :
    searchTable HHDMOffset place' descend' t level original left v curr = some r := by
  induction left generalizing v curr with
  | zero => exact ok
  | succ left ih =>
    simp only [searchTable] at ok ⊢
    split
    · next last =>
      rw [if_pos last] at ok
      split
      · next absent =>
        rw [if_pos absent] at ok
        exact ok
      · next present =>
        rw [if_neg present] at ok
        exact ih ok
    · next inner =>
      rw [if_neg inner] at ok
      cases entered : enter HHDMOffset place v t (entriesPerTable - (left + 1)) level original with
      | none =>
        rw [entered] at ok
        cases ok
      | some out =>
        rw [entered] at ok
        rw [enterMore more entered]
        obtain ⟨v₁, next⟩ := out
        cases next with
        | none => exact ih ok
        | some u =>
          dsimp only at ok ⊢
          split at ok
          · cases ok
          · next v₂ c below =>
            rw [deeper _ _ _ _ below]
            exact ok
          · next v₂ c below =>
            rw [deeper _ _ _ _ below]
            exact ih ok

theorem searchUtilMore (more : Refines place place') {depth depth' : Nat} (deeper : depth ≤ depth') {v : VMM} {curr : IndexOffset}
    {t : Nat} {r : VMM × IndexOffset × Bool} (ok : searchUtil HHDMOffset place depth v curr t = some r) :
    searchUtil HHDMOffset place' depth' v curr t = some r := by
  induction depth generalizing depth' v curr t r with
  | zero => cases ok
  | succ depth ih =>
    obtain ⟨depth', rfl⟩ := Nat.exists_eq_add_of_le' (Nat.lt_of_lt_of_le (Nat.succ_pos depth) deeper)
    exact searchTableMore more (fun v c t r below => ih (by omega) below) ok

variable {fuel fuel' : Nat} (deeper : fuel ≤ fuel')
include deeper

theorem searchPageMore (more : Refines place place') {v : VMM} {begin_ : IndexOffset} {r : VMM × IndexOffset}
    (ok : searchPage HHDMOffset fuel place v begin_ = some r) : searchPage HHDMOffset fuel' place' v begin_ = some r := by
  unfold searchPage at ok ⊢
  cases found : searchUtil HHDMOffset place fuel v begin_ v.pml4 with
  | none =>
    rw [found] at ok
    cases ok
  | some out =>
    rw [found] at ok
    rw [searchUtilMore more deeper found]
    exact ok

theorem searchRunMore (more : Refines place place') {n rounds rounds' d : Nat} (longer : rounds ≤ rounds') {v : VMM}
    {res prev : IndexOffset} {r : VMM × IndexOffset} (ok : searchRun HHDMOffset fuel place n rounds v res prev d = some r) :
    searchRun HHDMOffset fuel' place' n rounds' v res prev d = some r := by
  induction rounds generalizing rounds' v res prev d with
  | zero => cases ok
  | succ rounds ih =>
    obtain ⟨rounds', rfl⟩ := Nat.exists_eq_add_of_le' (Nat.lt_of_lt_of_le (Nat.succ_pos rounds) longer)
    simp only [searchRun] at ok ⊢
    split
    · next less =>
      rw [if_pos less] at ok
      cases found : searchPage HHDMOffset fuel place v prev.nextPage with
      | none =>
        rw [found] at ok
        cases ok
      | some out =>
        rw [found] at ok
        rw [searchPageMore deeper more found]
        dsimp only at ok ⊢
        split
        · next same =>
          rw [if_pos same] at ok
          exact ih (by omega) ok
        · next other =>
          rw [if_neg other] at ok
          exact ih (by omega) ok
    · next enough =>
      rw [if_neg enough] at ok
      exact ok

theorem searchPagesMore (more : Refines place place') {n : Nat} {v : VMM} {begin_ : IndexOffset} {r : VMM × IndexOffset}
    (ok : searchPages HHDMOffset fuel place v begin_ n = some r) : searchPages HHDMOffset fuel' place' v begin_ n = some r := by
  unfold searchPages at ok ⊢
  cases found : searchPage HHDMOffset fuel place v begin_ with
  | none =>
    rw [found] at ok
    cases ok
  | some out =>
    rw [found] at ok
    rw [searchPageMore deeper more found]
    exact searchRunMore deeper more deeper ok

theorem placeOfMore (allocScheme : AllocScheme) :
    Refines (placeOf HHDMOffset fuel allocScheme) (placeOf HHDMOffset fuel' allocScheme) := by
  cases allocScheme with
  | NO_ALLOC => exact trivial
  | USE_PMM => exact fun v r ok => ok
  | USE_VMM =>
    intro v r ok
    unfold placeInPages at ok ⊢
    dsimp only at ok ⊢
    cases found : searchPages HHDMOffset fuel none v.takeTableFrames.1 ⟨256, 0, 0, 0⟩ 2 with
    | none =>
      rw [found] at ok
      cases ok
    | some out =>
      rw [found] at ok
      rw [@searchPagesMore HHDMOffset none none fuel fuel' deeper trivial _ _ _ _ found]
      exact ok

/- More fuel changes no answer. -/
theorem getFirstNMore {v : VMM} {begin_ : IndexOffset} {allocScheme : AllocScheme} {n : Nat} {r : VMM × IndexOffset}
    (ok : v.getFirstNUnallocPage HHDMOffset fuel begin_ allocScheme n = some r) :
    v.getFirstNUnallocPage HHDMOffset fuel' begin_ allocScheme n = some r :=
  searchPagesMore deeper (placeOfMore deeper allocScheme) ok

end fuel

end VMM
end DimOS.Memory.Vmm
