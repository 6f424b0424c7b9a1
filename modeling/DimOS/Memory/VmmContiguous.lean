import DimOS.Memory.VmmContract
import DimOS.Memory.VmmPlacing

/-! When getFirstNUnallocPage ends, and with what. A run of n pages on the circle of pages is right when it is one
of addresses, so neither over the canonical hole nor over the end, and when page 0 in it was not a failed search. -/
namespace DimOS.Memory.Vmm
open Pmm
open Paging
open Lib.PathTree
open Lib.CyclicScan

namespace VMM

/- n pages from p on that do not cross the canonical hole or the end. -/
def InOneHalf (p n : Nat) : Prop := p + n ≤ 2 ^ 35 ∨ (2 ^ 35 ≤ p ∧ p + n ≤ 2 ^ 36)

theorem iteratePage {c : IndexOffset} (normal : c.Normal) (k : Nat) :
    (IndexOffset.nextPage^[k] c).Normal ∧ (IndexOffset.nextPage^[k] c).page = (c.page + k) % 2 ^ 36 := by
  induction k with
  | zero =>
    refine ⟨normal, ?_⟩
    rw [Nat.add_zero, Nat.mod_eq_of_lt (IndexOffset.normalPage normal)]
    rfl
  | succ k ih =>
    rw [Function.iterate_succ_apply']
    obtain ⟨normal', page⟩ := IndexOffset.nextPageSpec ih.1
    refine ⟨normal', ?_⟩
    rw [page, ih.2, Nat.mod_add_mod, Nat.add_assoc]

theorem spacedIff {c : IndexOffset} {n : Nat} (normal : c.Normal) :
    (∀ k, k < n → (IndexOffset.nextPage^[k] c).getVirtualAddr = c.getVirtualAddr + 4096 * k) ↔ InOneHalf c.page n := by
  have inside := IndexOffset.normalPage normal
  have address : ∀ k, (IndexOffset.nextPage^[k] c).getVirtualAddr =
      (c.page + k) % 2 ^ 36 * 4096 + if 2 ^ 35 ≤ (c.page + k) % 2 ^ 36 then 0xffff000000000000 else 0 := by
    intro k
    obtain ⟨normal', page⟩ := iteratePage normal k
    rw [IndexOffset.virtualAddrEq normal', page]
  have first := IndexOffset.virtualAddrEq normal
  unfold InOneHalf
  constructor
  · intro spaced
    by_contra crossing
    by_cases low : c.page < 2 ^ 35
    · -- the first page of the higher half
      have at' := spaced (2 ^ 35 - c.page) (by omega)
      have there : (c.page + (2 ^ 35 - c.page)) % 2 ^ 36 = 2 ^ 35 := by omega
      rw [address, there, first, if_pos (Nat.le_refl _), if_neg (by omega)] at at'
      omega
    · -- page 0 behind the last one
      have at' := spaced (2 ^ 36 - c.page) (by omega)
      have there : (c.page + (2 ^ 36 - c.page)) % 2 ^ 36 = 0 := by omega
      rw [address, there, first, if_neg (by omega), if_pos (by omega)] at at'
      omega
  · intro half k less
    have there : (c.page + k) % 2 ^ 36 = c.page + k := Nat.mod_eq_of_lt (by omega)
    rw [address, there, first]
    by_cases low : c.page < 2 ^ 35
    · rw [if_neg (by omega), if_neg (by omega)]
      omega
    · rw [if_pos (by omega), if_pos (by omega)]
      omega

theorem mappedIff {v : VMM} {c d : IndexOffset} (normal : c.Normal) (normal' : d.Normal) (same : c.page = d.page) :
    Mapped v c ↔ Mapped v d := by
  unfold Mapped
  rw [← (entryBelowPage v normal).1, ← (entryBelowPage v normal').1, same]

theorem candidateUnmapped {v : VMM} {c : IndexOffset} (normal : c.Normal) (candidate : Candidate false v c.page) :
    ¬ Mapped v c := by
  rintro ⟨e, read, present⟩
  obtain ⟨e', read', absent⟩ := (wantedIff normal).mp candidate
  rw [read] at read'
  cases Option.some.inj read'
  rw [present] at absent
  contradiction

/- The loop ends, with four nested calls and some number of rounds. The n pages have addresses spaced by 4096
and, under NO_ALLOC, none of them was mapped. -/
def FindsPages (HHDMOffset : Nat) (v : VMM) (begin_ : IndexOffset) (allocScheme : AllocScheme) (n : Nat) : Prop :=
  ∃ fuel v' c, 4 ≤ fuel ∧ v.getFirstNUnallocPage HHDMOffset fuel begin_ allocScheme n = some (v', c) ∧
    (∀ k, k < n → (IndexOffset.nextPage^[k] c).getVirtualAddr = c.getVirtualAddr + 4096 * k) ∧
    (allocScheme = .NO_ALLOC → ∀ k, k < n → ¬ Mapped v (IndexOffset.nextPage^[k] c))

/- One answer at some depth settles it: more fuel changes none. -/
theorem findsPagesAt {HHDMOffset fuel n : Nat} {v v₀ : VMM} {begin_ c : IndexOffset} {allocScheme : AllocScheme}
    (makes : allocScheme ≠ .NO_ALLOC) (deep : 4 ≤ fuel)
    (ran : v.getFirstNUnallocPage HHDMOffset fuel begin_ allocScheme n = some (v₀, c)) (normal : c.Normal) :
    FindsPages HHDMOffset v begin_ allocScheme n ↔ InOneHalf c.page n := by
  constructor
  · rintro ⟨fuel', v', c', -, ran', spaced, -⟩
    have one := getFirstNMore (Nat.le_max_left fuel fuel') ran
    have two := getFirstNMore (Nat.le_max_right fuel fuel') ran'
    obtain ⟨-, rfl⟩ := Prod.mk.inj (Option.some.inj (one.symm.trans two))
    exact (spacedIff normal).mp spaced
  · intro half
    exact ⟨fuel, v₀, c, deep, ran, (spacedIff normal).mpr half, fun never => absurd never makes⟩

/-- On every tree of four levels. With NO_ALLOC the loop ends and its pages are n unmapped ones in a row exactly
when the first run on the circle of pages crosses neither the canonical hole nor the end and does not begin with
a mapped page 0. With USE_PMM and USE_VMM the first run from begin on is to be found before the end, with memory for
the tables missing up to the end of the run; then the loop ends with that run, which is right exactly when it does not
cross the hole. With USE_VMM the pages that these tables take before the search has come to them count as mapped. -/
theorem contiguousSearch {HHDMOffset n : Nat} {v : VMM} {begin_ : IndexOffset} (formed : FourLevel v)
    (normal : begin_.Normal) (positive : 1 ≤ n) :
    (FindsPages HHDMOffset v begin_ .NO_ALLOC n ↔ ∃ s k, RunFrom false v begin_ n s k ∧
      InOneHalf ((s + k) % 2 ^ 36) n ∧ ((s + k) % 2 ^ 36 = 0 → ¬ Mapped v ⟨0, 0, 0, 0⟩)) ∧
    (∀ p, RunOnward (Candidate true v) begin_.page n p → p + n ≤ 2 ^ 36 → Funded v begin_.page (p + n) →
      (FindsPages HHDMOffset v begin_ .USE_PMM n ↔ InOneHalf p n)) ∧
    (∀ p given, RunOnward (Unspent v begin_.page (pairOf given)) begin_.page n p → p + n ≤ 2 ^ 36 →
      Reserve v begin_.page (p + n) given → (FindsPages HHDMOffset v begin_ .USE_VMM n ↔ InOneHalf p n)) := by
  have zero : (⟨0, 0, 0, 0⟩ : IndexOffset).Normal := IndexOffset.normalMk (by omega) (by omega) (by omega) (by omega)
  refine ⟨⟨?_, ?_⟩, ?_, ?_⟩
  · rintro ⟨fuel, v', c, deep, ran, spaced, unmapped⟩
    obtain ⟨res, first, normalR, next⟩ := @noAllocNext HHDMOffset fuel v begin_ deep formed normal
    simp only [getFirstNUnallocPage, placeOf, searchPages, first] at ran
    obtain ⟨k, run, normalC, page⟩ := searchRunFirst deep formed normalR normalR
      (scannedStart next (IndexOffset.normalPage normal) positive) ran
    refine ⟨res.page, k, ⟨next, run⟩, ?_, fun isZero => ?_⟩
    · rw [← page]
      exact (spacedIff normalC).mp spaced
    · rw [← page] at isZero
      rw [← mappedIff normalC zero isZero]
      exact unmapped rfl 0 (by omega)
  · rintro ⟨s, k, run, half, first⟩
    obtain ⟨v', c, ran, normalC, page⟩ := @noAllocFound HHDMOffset (4 + (k + n)) n s k v begin_ formed normal positive run
      (by omega) (by omega)
    rw [← page] at half first
    refine ⟨4 + (k + n), v', c, by omega, ran, (spacedIff normalC).mpr half, fun _ j less => ?_⟩
    obtain ⟨normalJ, pageJ⟩ := iteratePage normalC j
    have taken := run.2.1 j less
    rw [← Nat.mod_add_mod, ← page, ← pageJ] at taken
    rcases taken with candidate | ⟨isZero, -⟩
    · exact candidateUnmapped normalJ candidate
    · rw [mappedIff normalJ zero isZero]
      refine first ?_
      unfold InOneHalf at half
      omega
  · intro p run inside funded
    have same : Unspent v begin_.page noPages = Candidate true v := by
      funext x
      simp [Unspent, noPages]
    rw [← same] at run
    obtain ⟨v', c, ran, normalC, page, -⟩ := @Provides.found HHDMOffset (4 + (p + n)) _ _ v n p begin_
      (usePmmProvides inside) (by omega) (by omega) formed funded normal positive run
    rw [← page]
    exact findsPagesAt (by decide) (by omega) ran normalC
  · intro p given run inside reserve
    obtain ⟨v', c, ran, normalC, page, -⟩ := @Provides.found HHDMOffset (2 ^ 36 + (p + n)) _ _ v n p begin_
      (@useVmmProvides HHDMOffset (2 ^ 36 + (p + n)) v begin_.page (p + n) given (Nat.le_add_right _ _) inside reserve)
      (by omega) (by omega) formed reserve.funded normal positive run
    rw [← page]
    exact findsPagesAt (by decide) (by omega) ran normalC

theorem candidateFree {v : VMM} {x : Nat} (inside : x < 2 ^ 36) (candidate : Candidate false v x) : Free v x := by
  obtain ⟨normal, number⟩ := pageTuple inside
  rw [← number] at candidate ⊢
  obtain ⟨e, read, absent⟩ := (wantedIff normal).mp candidate
  obtain ⟨t, there, entry⟩ := Option.map_eq_some_iff.mp read
  refine ⟨e, ?_, absent⟩
  rw [leafAtPage v normal, leaf, reachedTable there, Option.map_some, entry]

/- The growth check of allocNPages, told from the tables before it. The search that makes tables leaves n free pages
in a row for the second search, if its own run lies in the half and n of its pages in a row go to no table. In the
lower half none do. -/
theorem growthGivesRun {HHDMOffset fuel n p r : Nat} {v v1 : VMM} {higherHalf : Bool} {given : List Nat → Nat}
    (formed : FourLevel v) (positive : 1 ≤ n) (small : minAvailablePages + n < 2 ^ 31) (deep : 2 ^ 37 ≤ fuel)
    (grows : toInt32 (v.getAvailablePages higherHalf) < toInt32 (minAvailablePages + n))
    (run : RunOnward (Unspent v (halfBase higherHalf) (pairOf given)) (halfBase higherHalf) (minAvailablePages + n) p)
    (inHalf : p + (minAvailablePages + n) ≤ halfBase higherHalf + 2 ^ 35)
    (reserve : Reserve v (halfBase higherHalf) (p + (minAvailablePages + n)) given)
    (inside : p ≤ r ∧ r ≤ p + minAvailablePages)
    (apart : higherHalf = true → ∀ q, q ∈ lacking v (halfBase higherHalf) (p + (minAvailablePages + n)) →
      ∀ j, j < n → ¬ pairOf given q (r + j))
    (grown : v.ensurePages HHDMOffset fuel higherHalf true n = some v1) : HasRun v1 higherHalf n := by
  have onward := run.1
  have whole : p + (minAvailablePages + n) ≤ 2 ^ 36 := by
    unfold halfBase at inHalf
    split at inHalf <;> omega
  have number : (toInt32 (minAvailablePages + n)).toNat = minAvailablePages + n := by
    unfold toInt32
    rw [Int.bmod_eq_of_le (by omega) (by omega)]
    rfl
  have normal : (beginOffset higherHalf).Normal := by
    cases higherHalf
    · exact IndexOffset.normalMk (by decide) (by decide) (by decide) (by decide)
    · exact higherNormal
  rw [← beginPage higherHalf] at run reserve
  obtain ⟨v', c, ran, -, -, made⟩ := @Provides.found HHDMOffset fuel _ _ v (minAvailablePages + n) p (beginOffset higherHalf)
    (@useVmmProvides HHDMOffset fuel v _ _ given (by omega) whole reserve) (by omega) (by omega) formed reserve.funded normal
    (by unfold minAvailablePages; omega) run
  rw [beginPage] at run reserve made
  simp only [ensurePages, true_and, grows, if_true, number, getFirstNUnallocPage] at grown
  rw [show placeOf HHDMOffset fuel .USE_VMM = some (placeInPages HHDMOffset fuel) from rfl, ran, Option.map_some] at grown
  cases Option.some.inj grown
  refine ⟨r, by omega, by omega, fun j less => ?_⟩
  have low : r + j < 2 ^ 36 := by omega
  rw [Nat.mod_eq_of_lt low]
  refine candidateFree low ((made.free (r + j) low).mpr ⟨?_, fun q member goes => ?_⟩)
  · have unspent := run.2.1 (r + j - p) (by omega)
    rw [show p + (r + j - p) = r + j by omega] at unspent
    rcases (candidateCases low).1.mp unspent.1 with old | unborn
    · exact .inl old
    · exact .inr (lackingIff.mpr ⟨⟨r + j, by omega, by omega, List.prefix_rfl⟩, unborn⟩)
  · by_cases upper : higherHalf = true
    · exact apart upper q member j less goes
    · have base : halfBase higherHalf = 0 := if_neg upper
      have above := (reserve.first q member).1.1
      rcases goes with at' | at' <;> omega

theorem oneTable {i : Nat} (which : i = 256 ∨ i = 257) : ∃ v c, (bare blank smallPmm).getFirstUnallocPageUtil
      0xffff800000000000 4 ⟨i, 0, 0, 0⟩ .USE_PMM (bare blank smallPmm).pml4 = some (v, c, true) ∧ FourLevel v ∧
    FreshFrames v 3 ∧ (∀ q, v.reached q ≠ none ↔ q <+: [i, 0, 0]) ∧
    ∀ p, p < 2 ^ 36 → (Candidate false v p ↔ i * 2 ^ 27 ≤ p ∧ p < i * 2 ^ 27 + 512) := by
  have facts : ((bare blank smallPmm).refused, framesFree (bare blank smallPmm) 3) = (0, true) := by decide +kernel
  simp only [Prod.mk.injEq] at facts
  obtain ⟨served, free⟩ := facts
  have tagged := bareTagged served
  have fresh := tagged.freshFrames free
  have normal : (⟨i, 0, 0, 0⟩ : IndexOffset).Normal :=
    IndexOffset.normalMk (by omega) (by omega) (by omega) (by omega)
  have empty : ∀ i, (((bare blank smallPmm).mem (bare blank smallPmm).pml4).entries i).isPresent = false := by
    intro i
    rw [bareMem]
    exact Table.initPresent (by omega) i
  obtain ⟨v, c, done, ran, finds⟩ := @searchUtilFinds 0xffff800000000000 4 (some (fun v => some v.takeTableFrames))
    (fun s v' => Extended 0xffff800000000000 3 (bare blank smallPmm) (bare blank smallPmm).pml4 s v') (bare blank smallPmm) []
    (bare blank smallPmm).pml4 3 ⟨i, 0, 0, 0⟩ (by omega) tagged.fourLevel normal rfl rfl
    (fun s high _ => freshServed tagged.fourLevel rfl rfl high fresh (fun _ extended => extended))
  have success : done = true := by
    by_contra failed
    exact (finds.failed (Bool.eq_false_of_not_eq_true failed)).2.2 _ (Nat.le_refl _) (IndexOffset.tailLt normal 3)
      (wantedEmpty empty)
  subst success
  obtain ⟨⟨onward, -, between⟩, extended⟩ := finds.first rfl
  have here : c.page = (⟨i, 0, 0, 0⟩ : IndexOffset).page := by
    by_contra differ
    exact between _ (Nat.le_refl _) (Nat.lt_of_le_of_ne onward (fun same => differ same.symm)) (wantedEmpty empty)
  have added := @extendedAdded 0xffff800000000000 3 (bare blank smallPmm) v [] (bare blank smallPmm).pml4 c.page
    tagged.fourLevel rfl rfl (IndexOffset.tailLt finds.normal 3) fresh extended
  rw [here, (entryBelowPage (bare blank smallPmm) normal).2, List.nil_append] at added
  have more : ((bare blank smallPmm).getFirstUnallocPageUtil 0xffff800000000000 4 ⟨i, 0, 0, 0⟩ .USE_PMM
      (bare blank smallPmm).pml4).map (fun r => (r.1.refused, framesFree r.1 3)) = some (0, true) := by
    rcases which with rfl | rfl <;> decide +kernel
  rw [show (bare blank smallPmm).getFirstUnallocPageUtil 0xffff800000000000 4 ⟨i, 0, 0, 0⟩ .USE_PMM
      (bare blank smallPmm).pml4 = some (v, c, true) from ran, Option.map_some] at more
  simp only [Option.some.injEq, Prod.mk.injEq] at more
  have tagged' := (searchUtilSpec (soundPlace 0xffff800000000000 4 .USE_PMM) ran (more.1.trans served.symm) tagged normal
    (q := []) (k := 3) rfl rfl).tagged
  have fresh' := tagged'.freshFrames more.2
  have unborn : ∀ q, q ≠ [] → (bare blank smallPmm).reached q = none := by
    intro q some
    cases found : (bare blank smallPmm).reached q with
    | none => rfl
    | some t => exact absurd (bareTables (reachedTable found)).1 some
  have tables : ∀ q, v.reached q ≠ none ↔ q <+: [i, 0, 0] := by
    refine fun q => ⟨fun there => ?_, ?_⟩
    · obtain ⟨t, found⟩ := Option.ne_none_iff_exists'.mp there
      by_cases root : q = []
      · rw [root]
        exact List.nil_prefix
      · exact (added.made q t (unborn q root) found).1
    · rintro ⟨rest, whole⟩ missing
      refine added.complete ?_
      show v.reached [i, 0, 0] = none
      unfold reached at missing ⊢
      rw [← whole, walkAppend, missing]
      rfl
  refine ⟨v, c, ran, added.formed, fresh', tables, fun p inside => ?_⟩
  obtain ⟨normalP, number⟩ := pageTuple inside
  generalize IndexOffset.getIndexOffset (p * 4096) = d at normalP number
  have old : (bare blank smallPmm).reached [d.i 0, d.i 1, d.i 2] = none := unborn _ (List.cons_ne_nil _ _)
  have digits := IndexOffset.pageEq d
  obtain ⟨d0, d1, d2, d3⟩ := IndexOffset.normalDigits normalP
  unfold Candidate
  rw [← number, wantedIff normalP]
  simp only [Bool.false_eq_true, if_false]
  constructor
  · rintro ⟨e, read, -⟩
    obtain ⟨t, there, -⟩ := Option.map_eq_some_iff.mp read
    have shape := (added.made _ t old there).1.eq_of_length rfl
    simp only [List.cons.injEq, and_true] at shape
    obtain ⟨first, second, third⟩ := shape
    rw [digits, first, second, third]
    show i * 2 ^ 27 ≤ i * 134217728 + (0 * 262144 + (0 * 512 + d.i 3)) ∧
      i * 134217728 + (0 * 262144 + (0 * 512 + d.i 3)) < i * 2 ^ 27 + 512
    omega
  · rintro ⟨low, high⟩
    have path : [d.i 0, d.i 1, d.i 2] = [i, 0, 0] := by
      rw [digits] at low high
      simp only [List.cons.injEq, and_true]
      omega
    obtain ⟨t, there⟩ := Option.ne_none_iff_exists'.mp added.complete
    refine ⟨(v.mem t).entries (d.i 3), ?_, ?_⟩
    · unfold entryOf
      rw [path]
      exact Option.map_eq_some_iff.mpr ⟨t, there, rfl⟩
    · by_contra present
      rw [path] at old
      have longer := (added.made _ t old there).2 (d.i 3) (Bool.eq_true_of_not_eq_false present)
      have length := longer.length_le
      simp at length

section oneTable
variable {i : Nat} {v : VMM}

theorem oneTableUnmapped (tables : ∀ q, v.reached q ≠ none ↔ q <+: [i, 0, 0])
    (candidates : ∀ p, p < 2 ^ 36 → (Candidate false v p ↔ i * 2 ^ 27 ≤ p ∧ p < i * 2 ^ 27 + 512)) {p : Nat}
    (inside : p < 2 ^ 36) : Candidate true v p := by
  rw [(candidateCases inside).1]
  by_cases there : v.reached (pathTo 3 p) = none
  · exact .inr there
  · have path := ((tables _).mp there).eq_of_length rfl
    refine .inl ((candidates p inside).mpr ?_)
    simp only [pathTo, List.cons.injEq, and_true] at path
    omega

/- The tables missing for the first pages of the higher half. -/
theorem oneTableLacks {lo hi : Nat} (start : lo = 2 ^ 35) (tables : ∀ q, v.reached q ≠ none ↔ q <+: [i, 0, 0])
    (high : hi ≤ lo + 2 ^ 18) {q : List Nat} (member : q ∈ lacking v lo hi) :
    ∃ j, lo + 512 * j < hi ∧ q <+: [256, 0, j] ∧ ¬ q <+: [i, 0, 0] := by
  obtain ⟨⟨p, onward, early, shape⟩, missing⟩ := lackingIff.mp member
  refine ⟨(p - lo) / 512, by omega, ?_, fun there => (tables q).mpr there missing⟩
  have path : pathTo 3 p = [256, 0, (p - lo) / 512] := by
    simp only [pathTo, List.cons.injEq, and_true]
    omega
  rw [← path]
  exact shape

/- 513 pages from the table's first on: a second table is missing and takes the first two of them. -/
theorem oneTableBehind {lo : Nat} (start : lo = 2 ^ 35) (tables : ∀ q, v.reached q ≠ none ↔ q <+: [256, 0, 0])
    (candidates : ∀ p, p < 2 ^ 36 → (Candidate false v p ↔ 256 * 2 ^ 27 ≤ p ∧ p < 256 * 2 ^ 27 + 512))
    (fresh : FreshFrames v 3) :
    RunOnward (Unspent v lo (pairOf fun _ => lo)) lo 513 lo ∧ Reserve v lo (lo + 513) (fun _ => lo) := by
  have lacks : ∀ hi, hi ≤ lo + 513 → ∀ q, q ∈ lacking v lo hi → lo + 512 < hi ∧ q = [256, 0, 1] := by
    intro hi near q member
    obtain ⟨j, early, short, away⟩ := oneTableLacks start tables (by omega) member
    by_cases first : j = 0
    · rw [first] at short
      exact absurd short away
    · obtain rfl : j = 1 := by omega
      rcases List.prefix_concat_iff.mp (show q <+: [256, 0] ++ [1] from short) with whole | part
      · exact ⟨by omega, whole⟩
      · exact absurd (part.trans (List.prefix_append [256, 0] [0])) away
  have alone : ∀ q q', q ∈ lacking v lo (lo + 513) → q' ∈ lacking v lo (lo + 513) → q = q' := fun q q' member member' =>
    (lacks _ (Nat.le_refl _) q member).2.trans (lacks _ (Nat.le_refl _) q' member').2.symm
  refine ⟨⟨Nat.le_refl _, fun j less => ⟨oneTableUnmapped tables candidates (by omega), fun q member goes => ?_⟩,
    fun r low high => absurd (Nat.lt_of_le_of_lt low high) (Nat.lt_irrefl _)⟩, ?_, fun q member => ⟨⟨?_, ?_, ?_, ?_⟩, ?_⟩⟩
  · obtain ⟨late, -⟩ := lacks _ (by omega) q member
    unfold pairOf at goes
    omega
  · refine fresh.fewer (Nat.le_trans (Finset.card_le_one.mpr fun q member q' => alone q q' member) (by omega))
  · exact Nat.le_of_eq start.symm
  · omega
  · exact ⟨.inl ((candidates _ (by omega)).mpr (by omega)), fun q' member' less =>
      absurd (alone q q' member member') (ne_of_gt less)⟩
  · exact ⟨.inl ((candidates _ (by omega)).mpr (by omega)), fun q' member' less =>
      absurd (alone q q' member member') (ne_of_gt less)⟩
  · rintro a ⟨low, -⟩
    omega

/- Five pages from the first of the higher half on, all three tables missing. They take the first pages of the table
that lies ahead. -/
theorem oneTableAhead {lo : Nat} (start : lo = 2 ^ 35) (tables : ∀ q, v.reached q ≠ none ↔ q <+: [257, 0, 0])
    (candidates : ∀ p, p < 2 ^ 36 → (Candidate false v p ↔ 257 * 2 ^ 27 ≤ p ∧ p < 257 * 2 ^ 27 + 512))
    (fresh : FreshFrames v 3) :
    RunOnward (Unspent v lo (pairOf fun q => 257 * 2 ^ 27 + 2 * (q.length - 1))) lo 5 lo ∧
      Reserve v lo (lo + 5) (fun q => 257 * 2 ^ 27 + 2 * (q.length - 1)) := by
  have path : ∀ p, lo ≤ p → p < lo + 5 → pathTo 3 p = [256, 0, 0] := by
    intro p low high
    simp only [pathTo, List.cons.injEq, and_true]
    omega
  have lacks : ∀ q, q ∈ lacking v lo (lo + 5) ↔ q = [256] ∨ q = [256, 0] ∨ q = [256, 0, 0] := by
    intro q
    constructor
    · intro member
      obtain ⟨j, early, short, away⟩ := oneTableLacks start tables (by omega) member
      obtain rfl : j = 0 := by omega
      rcases List.mem_cons.mp ((List.mem_inits _ _).mpr short) with rfl | rest
      · exact absurd List.nil_prefix away
      · simpa using rest
    · intro here
      refine lackingIff.mpr ⟨⟨lo, Nat.le_refl _, by omega, ?_⟩, ?_⟩
      · rw [path lo (Nat.le_refl _) (by omega)]
        rcases here with rfl | rfl | rfl <;> decide
      · by_contra there
        have short := (tables q).mp there
        rcases here with rfl | rfl | rfl <;> exact absurd short (by decide)
  have order : ∀ q q', q ∈ lacking v lo (lo + 5) → q' ∈ lacking v lo (lo + 5) → (q < q' ↔ q.length < q'.length) := by
    intro q q' member member'
    rw [lacks] at member member'
    rcases member with rfl | rfl | rfl <;> rcases member' with rfl | rfl | rfl <;> decide
  have short : ∀ q, q ∈ lacking v lo (lo + 5) → 1 ≤ q.length ∧ q.length ≤ 3 := by
    intro q member
    rw [lacks] at member
    rcases member with rfl | rfl | rfl <;> decide
  have every : ∀ l, 1 ≤ l → l ≤ 3 → ∃ q, q ∈ lacking v lo (lo + 5) ∧ q.length = l := by
    intro l low high
    refine ⟨[256, 0, 0].take l, (lacks _).mpr ?_, by simp; omega⟩
    obtain rfl | rfl | rfl : l = 1 ∨ l = 2 ∨ l = 3 := by omega
    · exact .inl rfl
    · exact .inr (.inl rfl)
    · exact .inr (.inr rfl)
  have ahead : ∀ q x, q ∈ lacking v lo (lo + 5) → x + 1 < 2 ^ 36 →
      Stocked v (lacking v lo (lo + 5)) (pairOf fun q => 257 * 2 ^ 27 + 2 * (q.length - 1)) q x → 257 * 2 ^ 27 ≤ x := by
    rintro q x member inside ⟨old | ⟨made, less⟩, -⟩
    · exact ((candidates x (by omega)).mp old).1
    · have longer : 3 < q.length := (order _ q made member).mp less
      exact absurd (short q member).2 (Nat.not_le.mpr longer)
  have stocked : ∀ q x, q ∈ lacking v lo (lo + 5) → 257 * 2 ^ 27 + 2 * (q.length - 1) ≤ x → x < 257 * 2 ^ 27 + 512 →
      Stocked v (lacking v lo (lo + 5)) (pairOf fun q => 257 * 2 ^ 27 + 2 * (q.length - 1)) q x := by
    intro q x member low high
    refine ⟨.inl ((candidates x (by omega)).mpr ⟨by omega, high⟩), fun q' member' less goes => ?_⟩
    have shorter := (order q' q member' member).mp less
    have some := short q' member'
    rcases goes with rfl | rfl <;> dsimp only at low <;> omega
  refine ⟨⟨Nat.le_refl _, fun j less => ⟨oneTableUnmapped tables candidates (by omega), fun q member goes => ?_⟩,
    fun r low high => absurd (Nat.lt_of_le_of_lt low high) (Nat.lt_irrefl _)⟩, ?_, fun q member => ⟨⟨?_, ?_, ?_, ?_⟩, ?_⟩⟩
  · rcases goes with at' | at' <;> dsimp only at at' <;> omega
  · have few : lacking v lo (lo + 5) ⊆ {[256], [256, 0], [256, 0, 0]} := by
      intro q member
      rw [lacks] at member
      simpa using member
    exact fresh.fewer ((Finset.card_le_card few).trans Finset.card_le_three)
  · omega
  · have few := short q member
    omega
  · have few := short q member
    exact stocked q _ member (Nat.le_refl _) (by omega)
  · have few := short q member
    exact stocked q _ member (Nat.le_succ _) (by omega)
  · rintro a ⟨-, inside, one, -⟩
    by_contra below
    have low := ahead q a member inside one
    have few := short q member
    -- a page before the pair has gone to an earlier table
    obtain ⟨q', member', length⟩ := every ((a - 257 * 2 ^ 27) / 2 + 1) (by omega) (by omega)
    refine one.2 q' member' ((order q' q member' member).mpr (by omega)) ?_
    unfold pairOf
    dsimp only
    omega

end oneTable

/- Five pages of a table, and with USE_VMM 513: the last of them needs a second table, which takes the first two. With
another table ahead, the tables made for five pages take pages of that one. -/
theorem contiguousSearchFive :
    (∃ v c, (bare blank smallPmm).getFirstUnallocPageUtil 0xffff800000000000 4 ⟨256, 0, 0, 0⟩ .USE_PMM
        (bare blank smallPmm).pml4 = some (v, c, true) ∧
      FindsPages 0xffff800000000000 v ⟨256, 0, 0, 0⟩ .NO_ALLOC 5 ∧
      FindsPages 0xffff800000000000 v ⟨256, 0, 0, 0⟩ .USE_VMM 513) ∧
    ∃ v c, (bare blank smallPmm).getFirstUnallocPageUtil 0xffff800000000000 4 ⟨257, 0, 0, 0⟩ .USE_PMM
        (bare blank smallPmm).pml4 = some (v, c, true) ∧
      FindsPages 0xffff800000000000 v ⟨256, 0, 0, 0⟩ .USE_VMM 5 := by
  have normal : (⟨256, 0, 0, 0⟩ : IndexOffset).Normal :=
    IndexOffset.normalMk (by omega) (by omega) (by omega) (by omega)
  have start : (⟨256, 0, 0, 0⟩ : IndexOffset).page = 2 ^ 35 := by decide
  constructor
  · obtain ⟨v, c, made, formed, fresh, tables, candidates⟩ := oneTable (.inl rfl)
    obtain ⟨run, reserve⟩ := oneTableBehind start tables candidates fresh
    refine ⟨v, c, made, (contiguousSearch formed normal (by omega)).1.mpr ⟨2 ^ 35, 0, ⟨.inl ⟨?_, ?_, ?_, ?_⟩, ?_, ?_⟩, ?_, ?_⟩,
      ((contiguousSearch formed normal (by omega)).2.2 _ _ run (by omega) reserve).mpr (.inr (by omega))⟩
    · exact Nat.le_refl _
    · omega
    · exact (candidates _ (by omega)).mpr (by omega)
    · exact fun s low high => absurd (Nat.lt_of_le_of_lt low high) (Nat.lt_irrefl _)
    · intro k low
      rw [Nat.mod_eq_of_lt (by omega)]
      exact .inl ((candidates _ (by omega)).mpr (by omega))
    · exact fun j low => absurd low (Nat.not_lt_zero j)
    · exact .inr (by omega)
    · intro zero
      omega
  · obtain ⟨v, c, made, formed, fresh, tables, candidates⟩ := oneTable (.inr rfl)
    obtain ⟨run, reserve⟩ := oneTableAhead start tables candidates fresh
    exact ⟨v, c, made, ((contiguousSearch formed normal (by omega)).2.2 _ _ run (by omega) reserve).mpr (.inr (by omega))⟩

/- More pages than it has: the loop goes round the address space for ever. -/
theorem contiguousSearchEndless : ∃ v c, (bare blank smallPmm).getFirstUnallocPageUtil 0xffff800000000000 4
      ⟨256, 0, 0, 0⟩ .USE_PMM (bare blank smallPmm).pml4 = some (v, c, true) ∧ FourLevel v ∧
    ∀ fuel, 4 ≤ fuel → v.getFirstNUnallocPage 0xffff800000000000 fuel ⟨256, 0, 0, 0⟩ .NO_ALLOC 513 = none := by
  obtain ⟨v, c, made, formed, -, -, candidates⟩ := oneTable (.inl rfl)
  have normal : (⟨256, 0, 0, 0⟩ : IndexOffset).Normal :=
    IndexOffset.normalMk (by omega) (by omega) (by omega) (by omega)
  refine ⟨v, c, made, formed, fun fuel deep => ?_⟩
  cases result : v.getFirstNUnallocPage 0xffff800000000000 fuel ⟨256, 0, 0, 0⟩ .NO_ALLOC 513 with
  | none => rfl
  | some out =>
    obtain ⟨res, first, normalR, next⟩ := @noAllocNext 0xffff800000000000 fuel v ⟨256, 0, 0, 0⟩ deep formed normal
    simp only [getFirstNUnallocPage, placeOf, searchPages, first] at result
    obtain ⟨k, ⟨run, -⟩, -⟩ := searchRunFirst deep formed normalR normalR
      (scannedStart next (IndexOffset.normalPage normal) (by omega)) result
    have taken : ∀ j, j < 513 → (2 ^ 35 ≤ (res.page + k + j) % 2 ^ 36 ∧ (res.page + k + j) % 2 ^ 36 < 2 ^ 35 + 512) ∨
        (res.page + k + j) % 2 ^ 36 = 0 := by
      intro j low
      rcases run j low with candidate | ⟨zero, -⟩
      · exact .inl ((candidates _ (Nat.mod_lt _ (by omega))).mp candidate)
      · exact .inr zero
    have at0 := taken 0 (by omega)
    have at1 := taken 1 (by omega)
    have at512 := taken 512 (by omega)
    omega

end VMM
end DimOS.Memory.Vmm
