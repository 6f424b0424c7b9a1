import DimOS.Memory.VmmLoop

/-! The loop of getFirstNUnallocPage where it makes tables. Every new table costs two frames and, with USE_VMM,
two neighbouring pages of the higher half, the first two that a nested search finds unmapped. Mapping them changes
the pages that are being searched, so that the loop finds its run where a reserve of such pages lies behind it,
or in the other half. -/
namespace DimOS.Memory.Vmm
open Pmm
open Paging
open Lib.PathTree
open Lib.CyclicScan

namespace VMM

theorem reachedCongr {v v' : VMM} (memory : v'.mem = v.mem) (root : v'.pml4 = v.pml4) : v'.reached = v.reached := by
  funext q
  unfold reached child
  rw [memory, root]

theorem FourLevel.congr {v v' : VMM} (formed : FourLevel v) (memory : v'.mem = v.mem) (root : v'.pml4 = v.pml4) :
    FourLevel v' := by
  have tables := reachedCongr memory root
  refine ⟨fun q t found => ?_, fun q t i found inner inside present => ?_, fun p q t first second => ?_⟩
  · rw [tables] at found
    rw [memory]
    exact formed.tag q t found
  · rw [tables] at found
    rw [memory] at present ⊢
    exact formed.next q t i found inner inside present
  · have first' : v'.reached p = some t := first
    have second' : v'.reached q = some t := second
    rw [tables] at first' second'
    exact formed.tree p q t first' second'

section mapPage
variable {v : VMM} {q : List Nat} {t addr : Nat} {c d : IndexOffset}

theorem mapPageMem (v : VMM) (t i addr u : Nat) : (v.mapPage (t, i) addr).mem u =
    if u = t then (v.mem t).setEntry i (((v.mem t).entries i).mapTo addr) else v.mem u :=
  writeEntryMem _ _ _ u

theorem mapPageReached (formed : FourLevel v) (found : v.reached q = some t) (last : q.length = 3) (i : Nat) :
    (v.mapPage (t, i) addr).reached = v.reached := by
  have tag := (formed.tag q t found).trans last
  have edges : (v.mapPage (t, i) addr).child = v.child := by
    funext u j
    unfold child
    rw [mapPageMem]
    by_cases here : u = t
    · subst here
      rw [if_pos rfl, Table.mapLevel, tag, if_neg (by omega), if_neg (by omega)]
    · rw [if_neg here]
  funext q'
  unfold reached
  rw [edges]
  rfl

theorem mapPageFormed (formed : FourLevel v) (found : v.reached q = some t) (last : q.length = 3) (i : Nat) :
    FourLevel (v.mapPage (t, i) addr) := by
  have tables := @mapPageReached v q t addr formed found last i
  refine ⟨fun q' u found' => ?_, fun q' u j found' inner inside present => ?_, fun p p' u first second => ?_⟩
  · rw [tables] at found'
    rw [mapPageMem]
    split
    · next here =>
      rw [Table.mapLevel, ← here]
      exact formed.tag q' u found'
    · exact formed.tag q' u found'
  · rw [tables] at found'
    have other : u ≠ t := by
      rintro rfl
      rw [formed.tree q' q u found' found] at inner
      omega
    rw [mapPageMem, if_neg other] at present ⊢
    exact formed.next q' u j found' inner inside present
  · have first' : (v.mapPage (t, i) addr).reached p = some u := first
    have second' : (v.mapPage (t, i) addr).reached p' = some u := second
    rw [tables] at first' second'
    exact formed.tree p p' u first' second'

theorem mapPageElsewhere (formed : FourLevel v) (found : v.reached [c.i 0, c.i 1, c.i 2] = some t) (other : d.page ≠ c.page) :
    (v.mapPage (t, c.i 3) addr).entryOf d = v.entryOf d := by
  unfold entryOf
  rw [mapPageReached formed found rfl]
  cases there : v.reached [d.i 0, d.i 1, d.i 2] with
  | none => rfl
  | some u =>
    simp only [Option.map_some, mapPageMem]
    split
    · next here =>
      subst here
      have path := formed.tree _ _ u there found
      simp only [List.cons.injEq, and_true] at path
      obtain ⟨first, second, third⟩ := path
      have index : d.i 3 ≠ c.i 3 := by
        intro fourth
        refine other ?_
        rw [IndexOffset.pageEq, IndexOffset.pageEq, first, second, third, fourth]
      rw [Table.setEntryAt, if_neg index]
    · rfl

theorem mapPageHere (formed : FourLevel v) (found : v.reached [c.i 0, c.i 1, c.i 2] = some t) :
    Mapped (v.mapPage (t, c.i 3) addr) c := by
  refine ⟨((v.mem t).entries (c.i 3)).mapTo addr, ?_, Entry.mapToPresent _ _⟩
  unfold entryOf
  rw [mapPageReached formed found rfl, found, Option.map_some, mapPageMem, if_pos rfl, Table.setEntryAt, if_pos rfl]

end mapPage

def PairAt (v : VMM) (a : Nat) : Prop := 2 ^ 35 ≤ a ∧ a + 1 < 2 ^ 36 ∧ Candidate false v a ∧ Candidate false v (a + 1)

theorem pairFound {HHDMOffset fuel a : Nat} {v : VMM} (formed : FourLevel v) (least : IsLeast {a | PairAt v a} a)
    (deep : 2 ^ 36 ≤ fuel) :
    ∃ c, searchPages HHDMOffset fuel none v ⟨256, 0, 0, 0⟩ 2 = some (v, c) ∧ c.Normal ∧ c.page = a := by
  obtain ⟨⟨low, high, one, two⟩, first⟩ := least
  have start : (⟨256, 0, 0, 0⟩ : IndexOffset).page = 2 ^ 35 := by decide
  have run : RunOnward (Candidate false v) (2 ^ 35) 2 a := by
    refine ⟨low, fun j less => ?_, fun r late early => ?_⟩
    · match j, less with
      | 0, _ => exact one
      | 1, _ => exact two
    · by_contra whole
      simp only [not_exists, not_and, not_not] at whole
      exact Nat.not_le.mpr early (first ⟨late, by omega, whole 0 (by omega), whole 1 (by omega)⟩)
  obtain ⟨s, k, rfl, next, firstRun⟩ := @RunOnward.firstRun (2 ^ 36) _ 2 _ a run (by omega) (by omega)
  obtain ⟨v', c, ran, normal, page⟩ := @noAllocFound HHDMOffset fuel 2 s k v ⟨256, 0, 0, 0⟩ formed higherNormal (by omega)
    ⟨by rw [start]; exact next, firstRun⟩ (by omega) (by omega)
  cases searchPagesStays ran
  rw [Nat.mod_eq_of_lt (by omega)] at page
  exact ⟨c, ran, normal, page⟩

/- Memory for a new table has been found, and the old ones are where they were. -/
structure Provided (v v₁ : VMM) : Prop where
  formed : FourLevel v₁
  tables : v₁.reached = v.reached
  pmm : v₁.pmm = (v.pmm.allocNFrames 2).1

theorem candidateTable {v : VMM} {c : IndexOffset} (normal : c.Normal) (candidate : Candidate false v c.page) :
    ∃ t, v.reached [c.i 0, c.i 1, c.i 2] = some t := by
  obtain ⟨e, read, -⟩ := (wantedIff normal).mp candidate
  obtain ⟨t, there, -⟩ := Option.map_eq_some_iff.mp read
  exact ⟨t, there⟩

theorem pairPlaced {HHDMOffset fuel a : Nat} {v : VMM} (formed : FourLevel v) (least : IsLeast {a | PairAt v a} a)
    (deep : 2 ^ 36 ≤ fuel) :
    ∃ v₁, placeInPages HHDMOffset fuel v = some (v₁, tableFrame v.pmm 0) ∧ Provided v v₁ ∧
      ∀ x, x < 2 ^ 36 → (Candidate false v₁ x ↔ Candidate false v x ∧ x ≠ a ∧ x ≠ a + 1) := by
  obtain ⟨-, high, one, two⟩ : PairAt v.takeTableFrames.1 a := least.1
  obtain ⟨c, ran, normal, rfl⟩ := @pairFound HHDMOffset fuel a v.takeTableFrames.1 formed.taken least deep
  obtain ⟨normalN, page⟩ := IndexOffset.nextPageSpec normal
  rw [Nat.mod_eq_of_lt high] at page
  obtain ⟨t, there⟩ := candidateTable normal one
  obtain ⟨t', there'⟩ := candidateTable normalN (by rw [page]; exact two)
  have formed₁ := @mapPageFormed v.takeTableFrames.1 _ t v.takeTableFrames.2 formed.taken there rfl (c.i 3)
  have tables₁ := @mapPageReached v.takeTableFrames.1 _ t v.takeTableFrames.2 formed.taken there rfl (c.i 3)
  have elsewhere₁ := fun d => @mapPageElsewhere v.takeTableFrames.1 t v.takeTableFrames.2 c d formed.taken there
  have here₁ := @mapPageHere v.takeTableFrames.1 t v.takeTableFrames.2 c formed.taken there
  have table' : (v.takeTableFrames.1.mapPage (t, c.i 3) v.takeTableFrames.2).reached
      [c.nextPage.i 0, c.nextPage.i 1, c.nextPage.i 2] = some t' := by rw [tables₁]; exact there'
  generalize same : v.takeTableFrames.1.mapPage (t, c.i 3) v.takeTableFrames.2 = w at formed₁ tables₁ elsewhere₁ here₁ table'
  have formed₂ := @mapPageFormed w _ t' (v.takeTableFrames.2 + frameSize) formed₁ table' rfl (c.nextPage.i 3)
  have tables₂ := @mapPageReached w _ t' (v.takeTableFrames.2 + frameSize) formed₁ table' rfl (c.nextPage.i 3)
  have elsewhere₂ := fun d => @mapPageElsewhere w t' (v.takeTableFrames.2 + frameSize) c.nextPage d formed₁ table'
  have here₂ := @mapPageHere w t' (v.takeTableFrames.2 + frameSize) c.nextPage formed₁ table'
  generalize same' : w.mapPage (t', c.nextPage.i 3) (v.takeTableFrames.2 + frameSize) = w' at formed₂ tables₂ elsewhere₂ here₂
  refine ⟨w'.addAvailable true (-2), ?_, ?_, fun x inside => ?_⟩
  · have pte : v.takeTableFrames.1.getPTE c = some (t, c.i 3) := by
      rw [getPTEEq, reachedTable there]
      rfl
    have pte' : w.getPTE c.nextPage = some (t', c.nextPage.i 3) := by
      rw [getPTEEq, reachedTable table']
      rfl
    rw [← same] at pte' same'
    rw [← same']
    simp only [placeInPages, ran, pte, Entry.mapToComm]
    unfold mapPage at pte' ⊢
    rw [pte']
    rfl
  · refine ⟨formed₂.congr (by simp) (by simp), ?_, ?_⟩
    · rw [reachedCongr (addAvailableMem _ _ _) (addAvailableRoot _ _ _), tables₂, tables₁]
      rfl
    · rw [addAvailablePmm, ← same', ← same, mapPagePmm, mapPagePmm]
      rfl
  · have entries : ∀ d, (w'.addAvailable true (-2)).entryOf d = w'.entryOf d := by
      intro d
      unfold entryOf
      rw [reachedCongr (addAvailableMem _ _ _) (addAvailableRoot _ _ _), addAvailableMem]
    have free : ∀ d : IndexOffset, d.Normal → (Candidate false (w'.addAvailable true (-2)) d.page ↔ NotPresent w' d) := by
      intro d normalD
      refine (wantedIff normalD).trans ?_
      unfold NotPresent
      rw [entries]
      rfl
    have mapped : ∀ d : IndexOffset, Mapped w' d → ¬ NotPresent w' d := by
      rintro d ⟨e, read, present⟩ ⟨e', read', absent⟩
      rw [read] at read'
      cases Option.some.inj read'
      rw [present] at absent
      contradiction
    by_cases first : x = c.page
    · subst first
      have kept := elsewhere₂ c (by rw [page]; omega)
      refine iff_of_false (fun candidate => mapped c ?_ ((free c normal).mp candidate)) (fun both => both.2.1 rfl)
      unfold Mapped
      rw [kept]
      exact here₁
    · by_cases second : x = c.page + 1
      · subst second
        refine iff_of_false (fun candidate => ?_) (fun both => both.2.2 rfl)
        rw [← page] at candidate
        exact mapped _ here₂ ((free _ normalN).mp candidate)
      · obtain ⟨normalD, number⟩ := pageTuple inside
        rw [← number] at first second
        have kept := (elsewhere₂ _ (by rw [page]; exact second)).trans (elsewhere₁ _ first)
        have before := @wantedIff false v _ normalD
        rw [if_neg Bool.false_ne_true] at before
        rw [← number, free _ normalD]
        unfold Candidate
        rw [before]
        unfold NotPresent
        rw [kept]
        exact ⟨fun absent => ⟨absent, first, second⟩, And.left⟩

section newTable
variable {HHDMOffset : Nat} {v : VMM} {q : List Nat} {t i level u : Nat} {original d : IndexOffset}

theorem newTableEntry (formed : FourLevel v) (found : v.reached q = some t) (depth : q.length = level)
    (inner : level < 3) (inside : i < entriesPerTable) (absent : ((v.mem t).entries i).isPresent = false)
    (fresh : ∀ q, v.reached q ≠ some u) :
    ([d.i 0, d.i 1, d.i 2] = q ++ [i] → NotPresent (v.addTable HHDMOffset t i level original u) d) ∧
      ([d.i 0, d.i 1, d.i 2] ≠ q ++ [i] → (v.addTable HHDMOffset t i level original u).entryOf d = v.entryOf d) := by
  have other : t ≠ u := fun same => fresh q (same ▸ found)
  have tree := @newTableReached HHDMOffset v q t i level u original formed found depth inner inside absent fresh
  have opened := @newTableOpened HHDMOffset v q t i level u original formed found depth inner inside absent fresh
  have memory := addTableMem HHDMOffset v i level original other
  constructor
  · intro here
    refine ⟨_, ?_, opened.empty (d.i 3)⟩
    unfold entryOf
    rw [tree, if_pos here]
    rfl
  · intro away
    unfold entryOf
    rw [tree, if_neg away]
    cases there : v.reached [d.i 0, d.i 1, d.i 2] with
    | none => rfl
    | some w =>
      have notNew : w ≠ u := fun same => fresh _ (same ▸ there)
      have notParent : w ≠ t := by
        rintro rfl
        have length := congrArg List.length (formed.tree _ _ w there found)
        simp only [List.length_cons, List.length_nil] at length
        omega
      rw [Option.map_some, Option.map_some, memory, if_neg notParent, if_neg notNew]

theorem newTableFree (formed : FourLevel v) (found : v.reached q = some t) (depth : q.length = level)
    (inner : level < 3) (inside : i < entriesPerTable) (absent : ((v.mem t).entries i).isPresent = false)
    (fresh : ∀ q, v.reached q ≠ some u) (x : Nat) (low : x < 2 ^ 36) :
    Candidate false (v.addTable HHDMOffset t i level original u) x ↔ Candidate false v x ∨ pathTo 3 x = q ++ [i] := by
  obtain ⟨normal, number⟩ := pageTuple low
  obtain ⟨here, away⟩ := @newTableEntry HHDMOffset v q t i level u original (IndexOffset.getIndexOffset (x * 4096)) formed
    found depth inner inside absent fresh
  rw [← (entryBelowPage v normal).2, number] at here away
  have before := @wantedIff false v _ normal
  have after := @wantedIff false (v.addTable HHDMOffset t i level original u) _ normal
  rw [if_neg Bool.false_ne_true, number] at before after
  unfold Candidate
  rw [before, after]
  by_cases same : pathTo 3 x = q ++ [i]
  · exact iff_of_true (here same) (.inr same)
  · unfold NotPresent
    rw [away same]
    exact (or_iff_left same).symm

end newTable

theorem reachedPrefix {v : VMM} {q q' : List Nat} {t : Nat} (found : v.reached q = some t) (short : q' <+: q) :
    v.reached q' ≠ none := by
  obtain ⟨rest, rfl⟩ := short
  intro missing
  unfold reached at found missing
  rw [walkAppend, missing] at found
  cases found

theorem candidateCases {v : VMM} {x : Nat} (inside : x < 2 ^ 36) :
    (Candidate true v x ↔ Candidate false v x ∨ v.reached (pathTo 3 x) = none) ∧
      (Candidate false v x → v.reached (pathTo 3 x) ≠ none) := by
  obtain ⟨normal, number⟩ := pageTuple inside
  obtain ⟨entry, path⟩ := entryBelowPage v normal
  rw [number] at entry path
  have missing : v.entryBelow 3 v.pml4 x = none ↔ v.reached (pathTo 3 x) = none := by
    rw [entry, path]
    exact Option.map_eq_none_iff
  unfold Candidate Wanted
  rw [missing]
  refine ⟨by simp, ?_⟩
  rintro (⟨e, read, -⟩ | ⟨never, -⟩)
  · intro gone
    rw [missing.mpr gone] at read
    cases read
  · cases never

theorem prefixLt {q q' : List Nat} (short : q <+: q') (differ : q ≠ q') : q < q' := by
  obtain ⟨rest, rfl⟩ := short
  induction q with
  | nil =>
    cases rest with
    | nil => exact absurd rfl differ
    | cons i rest => exact List.nil_lt_cons i rest
  | cons i q ih =>
    refine List.cons_lt_cons_iff.mpr (.inr ⟨rfl, ih fun same => differ ?_⟩)
    rw [List.cons_append, ← same]

/- Of two pages' paths, what only the later one has on its own lies behind all of the earlier one. -/
theorem pathBefore {k s s' : Nat} {q q' : List Nat} (less : s < s') (short : q <+: pathTo k s) (short' : q' <+: pathTo k s')
    (away : ¬ q' <+: pathTo k s) : q < q' := by
  induction k generalizing s s' q q' with
  | zero => exact absurd short' away
  | succ k ih =>
    unfold pathTo at short short' away
    have positive : 0 < 512 ^ (k + 1) := by positivity
    rcases List.prefix_cons_iff.mp short' with rfl | ⟨rest', rfl, tail'⟩
    · exact absurd List.nil_prefix away
    · rcases List.prefix_cons_iff.mp short with rfl | ⟨rest, rfl, tail⟩
      · exact List.nil_lt_cons _ _
      · rcases Nat.lt_or_ge (s / 512 ^ (k + 1)) (s' / 512 ^ (k + 1)) with first | notLess
        · exact List.cons_lt_cons_iff.mpr (.inl first)
        · have same : s / 512 ^ (k + 1) = s' / 512 ^ (k + 1) := Nat.le_antisymm (Nat.div_le_div_right (Nat.le_of_lt less)) notLess
          rw [same] at away ⊢
          have below : s % 512 ^ (k + 1) < s' % 512 ^ (k + 1) := by
            have whole := Nat.div_add_mod s (512 ^ (k + 1))
            have whole' := Nat.div_add_mod s' (512 ^ (k + 1))
            rw [same] at whole
            omega
          refine List.cons_lt_cons_iff.mpr (.inr ⟨rfl, ih below tail tail' fun inBoth => away ?_⟩)
          exact List.cons_prefix_cons.mpr ⟨rfl, inBoth⟩

def lacking (v : VMM) (lo hi : Nat) : Finset (List Nat) :=
  ((Finset.Ico lo hi).biUnion (fun p => (pathTo 3 p).inits.toFinset)).filter (fun q => v.reached q = none)

theorem lackingIff {v : VMM} {lo hi : Nat} {q : List Nat} :
    q ∈ lacking v lo hi ↔ (∃ p, lo ≤ p ∧ p < hi ∧ q <+: pathTo 3 p) ∧ v.reached q = none := by
  simp only [lacking, Finset.mem_filter, Finset.mem_biUnion, Finset.mem_Ico, List.mem_toFinset, List.mem_inits]
  constructor
  · rintro ⟨⟨p, ⟨low, high⟩, shape⟩, missing⟩
    exact ⟨⟨p, low, high, shape⟩, missing⟩
  · rintro ⟨⟨p, low, high, shape⟩, missing⟩
    exact ⟨⟨p, ⟨low, high⟩, shape⟩, missing⟩

theorem lackingMono {v : VMM} {lo hi hi' : Nat} (more : hi ≤ hi') : lacking v lo hi ⊆ lacking v lo hi' := by
  intro q member
  obtain ⟨⟨p, low, high, shape⟩, missing⟩ := lackingIff.mp member
  exact lackingIff.mpr ⟨⟨p, low, by omega, shape⟩, missing⟩

def Funded (v : VMM) (lo hi : Nat) : Prop := FreshFrames v (lacking v lo hi).card

/- Missing tables are made in the order of their paths, and each may take pages, which are mapped then. Page x is
there and not yet taken when table q is made. -/
def Stocked (v : VMM) (missing : Finset (List Nat)) (taken : List Nat → Nat → Prop) (q : List Nat) (x : Nat) : Prop :=
  (Candidate false v x ∨ pathTo 3 x ∈ missing ∧ pathTo 3 x < q) ∧ ∀ q', q' ∈ missing → q' < q → ¬ taken q' x

/- A page that is not mapped, and that no table missing for the pages before it takes. -/
def Unspent (v : VMM) (lo : Nat) (taken : List Nat → Nat → Prop) (x : Nat) : Prop :=
  Candidate true v x ∧ ∀ q, q ∈ lacking v lo x → ¬ taken q x

/- The state when of the missing tables those of `made` have been made. -/
structure Made (v : VMM) (lo hi : Nat) (taken : List Nat → Nat → Prop) (made : Finset (List Nat)) (w : VMM) : Prop where
  formed : FourLevel w
  part : made ⊆ lacking v lo hi
  fresh : FreshFrames w (lacking v lo hi \ made).card
  tables : ∀ q, w.reached q = none ↔ v.reached q = none ∧ q ∉ made
  free : ∀ x, x < 2 ^ 36 → (Candidate false w x ↔
    (Candidate false v x ∨ pathTo 3 x ∈ made) ∧ ∀ q, q ∈ made → ¬ taken q x)

/- A scheme that finds memory for every table missing for the pages from lo on below hi, and takes these pages. -/
structure Provides (obtain_ : VMM → Option (VMM × Nat)) (v : VMM) (lo hi : Nat) (taken : List Nat → Nat → Prop) : Prop where
  inside : hi ≤ 2 ^ 36
  stocked : ∀ q x, q ∈ lacking v lo hi → taken q x → Stocked v (lacking v lo hi) taken q x
  places : ∀ w q made, Made v lo hi taken made w → q ∈ lacking v lo hi →
    (∀ q', q' ∈ made ↔ q' ∈ lacking v lo hi ∧ q' < q) → ∃ w₁, obtain_ w = some (w₁, tableFrame w.pmm 0) ∧ Provided w w₁ ∧
      ∀ x, x < 2 ^ 36 → (Candidate false w₁ x ↔ Candidate false w x ∧ ¬ taken q x)

def noPages (_ : List Nat) (_ : Nat) : Prop := False

theorem usePmmProvides {v : VMM} {lo hi : Nat} (inside : hi ≤ 2 ^ 36) :
    Provides (fun v => some v.takeTableFrames) v lo hi noPages := by
  refine ⟨inside, fun _ _ _ never => never.elim, fun w q made now member order => ?_⟩
  exact ⟨w.takeTableFrames.1, rfl, ⟨now.formed.taken, rfl, rfl⟩, fun x _ => ⟨fun free => ⟨free, id⟩, And.left⟩⟩

/- With USE_VMM table q takes page `given q` and the next one. -/
def pairOf (given : List Nat → Nat) (q : List Nat) (x : Nat) : Prop := x = given q ∨ x = given q + 1

/- What USE_VMM needs on top: each table has a pair to take, which is the first two neighbours of the higher half that
are in stock when it is made. -/
structure Reserve (v : VMM) (lo hi : Nat) (given : List Nat → Nat) : Prop where
  funded : Funded v lo hi
  first : ∀ q, q ∈ lacking v lo hi → IsLeast {a | 2 ^ 35 ≤ a ∧ a + 1 < 2 ^ 36 ∧
    Stocked v (lacking v lo hi) (pairOf given) q a ∧ Stocked v (lacking v lo hi) (pairOf given) q (a + 1)} (given q)

theorem useVmmProvides {HHDMOffset fuel : Nat} {v : VMM} {lo hi : Nat} {given : List Nat → Nat} (deep : 2 ^ 36 ≤ fuel)
    (inside : hi ≤ 2 ^ 36) (reserve : Reserve v lo hi given) :
    Provides (placeInPages HHDMOffset fuel) v lo hi (pairOf given) := by
  refine ⟨inside, fun q x member goes => ?_, fun w q made now member order => ?_⟩
  · obtain ⟨-, -, one, two⟩ := (reserve.first q member).1
    rcases goes with rfl | rfl
    · exact one
    · exact two
  · have stock : ∀ x, x < 2 ^ 36 → (Stocked v (lacking v lo hi) (pairOf given) q x ↔ Candidate false w x) := by
      intro x low
      rw [now.free x low, order]
      unfold Stocked
      refine and_congr_right fun _ => ⟨fun none q' early => ?_, fun none q' member' less => ?_⟩
      · obtain ⟨member', less⟩ := (order q').mp early
        exact none q' member' less
      · exact none q' ((order q').mpr ⟨member', less⟩)
    have least : IsLeast {a | PairAt w a} (given q) := by
      obtain ⟨⟨low, high, one, two⟩, least⟩ := reserve.first q member
      refine ⟨⟨low, high, (stock _ (by omega)).mp one, (stock _ high).mp two⟩, fun a pair => ?_⟩
      obtain ⟨low', high', one', two'⟩ := pair
      exact least ⟨low', high', (stock _ (by omega)).mpr one', (stock _ high').mpr two'⟩
    obtain ⟨w₁, placed, provided, free⟩ := @pairPlaced HHDMOffset fuel (given q) w now.formed least deep
    refine ⟨w₁, placed, provided, fun x low => (free x low).trans (and_congr_right fun _ => ?_)⟩
    exact not_or.symm

section Provides
variable {HHDMOffset fuel lo hi : Nat} {obtain_ : VMM → Option (VMM × Nat)} {taken : List Nat → Nat → Prop} {v w : VMM}

theorem Made.start (formed : FourLevel v) (funded : Funded v lo hi) : Made v lo hi taken ∅ v := by
  refine ⟨formed, Finset.empty_subset _, by rw [Finset.sdiff_empty]; exact funded, fun q => by simp, fun x _ => by simp⟩

theorem newTableMade {k t s : Nat} {w₁ : VMM} {q : List Nat} {made : Finset (List Nat)}
    (stocked : ∀ q x, q ∈ lacking v lo hi → taken q x → Stocked v (lacking v lo hi) taken q x)
    (now : Made v lo hi taken made w) (provided : Provided w w₁) (found : w.reached q = some t)
    (height : q.length + (k + 1) = 3) (inside : s < 512 ^ (k + 2)) (member : q ++ [s / 512 ^ (k + 1)] ∈ lacking v lo hi)
    (order : ∀ q', q' ∈ made ↔ q' ∈ lacking v lo hi ∧ q' < q ++ [s / 512 ^ (k + 1)])
    (free : ∀ x, x < 2 ^ 36 → (Candidate false w₁ x ↔ Candidate false w x ∧ ¬ taken (q ++ [s / 512 ^ (k + 1)]) x))
    (original : IndexOffset) :
    Opened (w₁.addTable HHDMOffset t (s / 512 ^ (k + 1)) (2 - k) original (tableFrame w.pmm 0)) (q ++ [s / 512 ^ (k + 1)])
        (tableFrame w.pmm 0) ∧
      Made v lo hi taken (insert (q ++ [s / 512 ^ (k + 1)]) made)
        (w₁.addTable HHDMOffset t (s / 512 ^ (k + 1)) (2 - k) original (tableFrame w.pmm 0)) := by
  have notMade : q ++ [s / 512 ^ (k + 1)] ∉ made := fun early => lt_irrefl _ ((order _).mp early).2
  have gone : w.reached (q ++ [s / 512 ^ (k + 1)]) = none := (now.tables _).mpr ⟨(lackingIff.mp member).2, notMade⟩
  have formed₁ := provided.formed
  have found₁ : w₁.reached q = some t := by rw [provided.tables]; exact found
  have missing : w₁.child t (s / 512 ^ (k + 1)) = none := by
    rw [← reachedSnoc w₁ found₁, provided.tables]
    exact gone
  obtain ⟨index, absent⟩ := missingAbsent formed₁ found₁ (by omega) inside missing
  have few : 0 < (lacking v lo hi \ made).card := Finset.card_pos.mpr ⟨_, Finset.mem_sdiff.mpr ⟨member, notMade⟩⟩
  have new : ∀ q, w₁.reached q ≠ some (tableFrame w.pmm 0) := by
    rw [provided.tables]
    exact now.fresh.new 0 few
  have tree := @newTableReached HHDMOffset w₁ q t _ (2 - k) _ original formed₁ found₁ (by omega) (by omega) index absent new
  have added := fun x => @newTableFree HHDMOffset w₁ q t _ (2 - k) _ original formed₁ found₁ (by omega) (by omega) index
    absent new x
  have pmm := (addTableRoot HHDMOffset w₁ t (s / 512 ^ (k + 1)) (2 - k) original (tableFrame w.pmm 0)).2.1
  have opened := @newTableOpened HHDMOffset w₁ q t _ (2 - k) _ original formed₁ found₁ (by omega) (by omega) index absent new
  generalize w₁.addTable HHDMOffset t (s / 512 ^ (k + 1)) (2 - k) original (tableFrame w.pmm 0) = w' at tree added pmm opened
  generalize q ++ [s / 512 ^ (k + 1)] = path at member order free notMade gone tree added opened
  have later : ∀ j, tableFrame w'.pmm j = tableFrame w.pmm (j + 1) := by
    intro j
    rw [pmm, provided.pmm]
    rfl
  have card : (lacking v lo hi \ insert path made).card + 1 = (lacking v lo hi \ made).card := by
    rw [Finset.sdiff_insert]
    exact Finset.card_erase_add_one (Finset.mem_sdiff.mpr ⟨member, notMade⟩)
  refine ⟨opened, opened.formed, Finset.insert_subset member now.part, ⟨fun j less q' => ?_, fun j j' less less' => ?_⟩,
    fun q' => ?_, fun x low => ?_⟩
  · rw [tree, later]
    split
    · exact fun equal => now.fresh.distinct 0 (j + 1) (by omega) (by omega) (Option.some.inj equal)
    · rw [provided.tables]
      exact now.fresh.new (j + 1) (by omega) q'
  · rw [later, later]
    exact now.fresh.distinct (j + 1) (j' + 1) (by omega) (by omega)
  · rw [tree, provided.tables, Finset.mem_insert]
    split
    · next here => simp [here]
    · next away => simp [away, now.tables]
  · rw [added x low, free x low, now.free x low]
    constructor
    · rintro (⟨⟨there, none⟩, other⟩ | here)
      · refine ⟨there.imp id (Finset.mem_insert_of_mem), fun q' early => ?_⟩
        rcases Finset.mem_insert.mp early with rfl | early
        · exact other
        · exact none q' early
      · -- nobody has taken a page of the table that is made now
        refine ⟨.inr (Finset.mem_insert.mpr (.inl here)), fun q' early goes => ?_⟩
        have member' : q' ∈ lacking v lo hi := Finset.insert_subset member now.part early
        have late : path < q' := by
          rcases (stocked q' x member' goes).1 with old | ⟨-, less⟩
          · refine absurd ((candidateCases low).2 old) (not_not.mpr ?_)
            rw [here]
            exact (lackingIff.mp member).2
          · rw [← here]
            exact less
        rcases Finset.mem_insert.mp early with rfl | early
        · exact lt_irrefl _ late
        · exact lt_asymm late ((order q').mp early).2
    · rintro ⟨there, none⟩
      rcases there with old | here
      · exact .inl ⟨⟨.inl old, fun q' early => none q' (Finset.mem_insert_of_mem early)⟩, none path (Finset.mem_insert_self _ _)⟩
      · rcases Finset.mem_insert.mp here with here | early
        · exact .inr here
        · exact .inl ⟨⟨.inr early, fun q' early => none q' (Finset.mem_insert_of_mem early)⟩,
            none path (Finset.mem_insert_self _ _)⟩

/- The first table missing on the way to page p comes next, if none is missing for the pages before p. -/
theorem Made.next {p i t : Nat} {q : List Nat} {made : Finset (List Nat)} (now : Made v lo hi taken made w)
    (passed : lacking v lo p ⊆ made) (only : made ⊆ lacking v lo (p + 1)) (found : w.reached q = some t)
    (missing : w.reached (q ++ [i]) = none) (short : q ++ [i] <+: pathTo 3 p) (q' : List Nat) :
    q' ∈ made ↔ q' ∈ lacking v lo hi ∧ q' < q ++ [i] := by
  obtain ⟨unborn, notMade⟩ := (now.tables _).mp missing
  constructor
  · intro early
    refine ⟨now.part early, ?_⟩
    obtain ⟨⟨p', low, high, short'⟩, unborn'⟩ := lackingIff.mp (only early)
    by_cases shared : q' <+: pathTo 3 p
    · rcases List.prefix_or_prefix_of_prefix shared short with above | below
      · exact prefixLt above (fun same => notMade (same ▸ early))
      · -- a made table has all tables above it
        have there : w.reached q' ≠ none := fun gone => ((now.tables q').mp gone).2 early
        obtain ⟨t', found'⟩ := Option.ne_none_iff_exists'.mp there
        exact absurd missing (reachedPrefix found' below)
    · have less : p' < p := by
        by_contra notLess
        obtain rfl : p' = p := by omega
        exact shared short'
      refine pathBefore less short' short fun inBoth => notMade (passed ?_)
      exact lackingIff.mpr ⟨⟨p', low, less, inBoth⟩, unborn⟩
  · rintro ⟨member, less⟩
    by_contra late
    obtain ⟨⟨p', low, high, short'⟩, unborn'⟩ := lackingIff.mp member
    have gone : w.reached q' = none := (now.tables q').mpr ⟨unborn', late⟩
    have onward : p ≤ p' := by
      by_contra before
      exact late (passed (lackingIff.mpr ⟨⟨p', low, by omega, short'⟩, unborn'⟩))
    by_cases shared : q' <+: pathTo 3 p
    · rcases List.prefix_or_prefix_of_prefix shared short with above | below
      · rcases List.prefix_concat_iff.mp above with same | higher
        · rw [same] at less
          exact lt_irrefl _ less
        · exact reachedPrefix found higher gone
      · by_cases same : q ++ [i] = q'
        · rw [same] at less
          exact lt_irrefl _ less
        · exact lt_asymm less (prefixLt below same)
    · have differ : p ≠ p' := by
        rintro rfl
        exact shared short'
      exact lt_asymm less (pathBefore (by omega) short short' shared)

theorem Provides.served (provides : Provides obtain_ v lo hi taken) {k p t s : Nat} {G : VMM → Prop} {q : List Nat}
    {made : Finset (List Nat)} (onward : lo ≤ p) (early : p < hi) (now : Made v lo hi taken made w)
    (passed : lacking v lo p ⊆ made) (only : made ⊆ lacking v lo (p + 1)) (found : w.reached q = some t)
    (height : q.length + k = 3) (inside : s < 512 ^ (k + 1)) (path : q ++ pathTo k s = pathTo 3 p)
    (goal : ∀ w', Made v lo hi taken (lacking v lo (p + 1)) w' → G w') : Served HHDMOffset (some obtain_) G k w q t s := by
  induction k generalizing w q t s made with
  | zero =>
    refine goal w ?_
    rw [← only.antisymm fun q' member => ?_]
    · exact now
    · obtain ⟨⟨p', low, high, short⟩, unborn⟩ := lackingIff.mp member
      by_cases before : p' < p
      · exact passed (lackingIff.mpr ⟨⟨p', low, before, short⟩, unborn⟩)
      · obtain rfl : p' = p := by omega
        rw [← path, pathTo, List.append_nil] at short
        by_contra late
        exact reachedPrefix found short ((now.tables q').mpr ⟨unborn, late⟩)
  | succ k ih =>
    have longer : (q ++ [s / 512 ^ (k + 1)]).length + k = 3 := by
      rw [List.length_append, List.length_singleton]
      omega
    have rest : s % 512 ^ (k + 1) < 512 ^ (k + 1) := Nat.mod_lt _ (by positivity)
    have split_ : q ++ [s / 512 ^ (k + 1)] ++ pathTo k (s % 512 ^ (k + 1)) = pathTo 3 p := by
      rw [← path, List.append_assoc]
      rfl
    have short : q ++ [s / 512 ^ (k + 1)] <+: pathTo 3 p := split_ ▸ List.prefix_append _ _
    unfold Served
    split
    · next u there => exact ih now passed only ((reachedSnoc w found _).trans there) longer rest split_
    · next missing =>
      intro place original chosen
      cases chosen
      have gone : w.reached (q ++ [s / 512 ^ (k + 1)]) = none := (reachedSnoc w found _).trans missing
      have unborn := ((now.tables _).mp gone).1
      have member : q ++ [s / 512 ^ (k + 1)] ∈ lacking v lo hi := lackingIff.mpr ⟨⟨p, onward, early, short⟩, unborn⟩
      have order := now.next passed only found gone short
      obtain ⟨w₁, placed, provided, free⟩ := provides.places w _ made now member order
      obtain ⟨opened, now'⟩ := @newTableMade HHDMOffset lo hi taken v w k t s w₁ q made provides.stocked now provided found
        height inside member order free original
      exact ⟨w₁, _, placed, opened, ih now' (passed.trans (Finset.subset_insert _ _))
        (Finset.insert_subset (lackingIff.mpr ⟨⟨p, onward, Nat.lt_succ_self p, short⟩, unborn⟩) only) opened.there longer rest
        split_⟩

/- Where the search passes pages of tables that are there, no further table is missing. -/
theorem Made.passed {y x : Nat} (now : Made v lo hi taken (lacking v lo y) w) (onward : y ≤ x)
    (there : ∀ r, y ≤ r → r < x → w.reached (pathTo 3 r) ≠ none) : lacking v lo x = lacking v lo y := by
  refine (lackingMono onward).antisymm' fun q member => ?_
  obtain ⟨⟨p, low, high, short⟩, unborn⟩ := lackingIff.mp member
  by_cases before : p < y
  · exact lackingIff.mpr ⟨⟨p, low, before, short⟩, unborn⟩
  · obtain ⟨t, found⟩ := Option.ne_none_iff_exists'.mp (there p (by omega) high)
    by_contra late
    exact reachedPrefix found short ((now.tables q).mpr ⟨unborn, late⟩)

/- What the search sees at a page it has come to. -/
theorem Made.seen {x : Nat} (stocked : ∀ q x, q ∈ lacking v lo hi → taken q x → Stocked v (lacking v lo hi) taken q x)
    (now : Made v lo hi taken (lacking v lo x) w) (early : x ≤ hi) (inside : x < 2 ^ 36) :
    Candidate true w x ↔ Unspent v lo taken x := by
  have part := @lackingMono v lo _ _ early
  rw [(candidateCases inside).1, now.free x inside, now.tables]
  unfold Unspent
  rw [(candidateCases inside).1]
  constructor
  · rintro (⟨there, none⟩ | ⟨unborn, late⟩)
    · refine ⟨there.imp id fun member => (lackingIff.mp member).2, none⟩
    · refine ⟨.inr unborn, fun q member goes => ?_⟩
      rcases (stocked q x (part member) goes).1 with old | ⟨member', less⟩
      · exact (candidateCases inside).2 old unborn
      · obtain ⟨⟨p, low, high, short⟩, -⟩ := lackingIff.mp member
        refine lt_asymm less (pathBefore high short List.prefix_rfl fun inBoth => late ?_)
        exact lackingIff.mpr ⟨⟨p, low, high, inBoth⟩, unborn⟩
  · rintro ⟨old | unborn, none⟩
    · exact .inl ⟨.inl old, none⟩
    · by_cases member : pathTo 3 x ∈ lacking v lo x
      · exact .inl ⟨.inr member, none⟩
      · exact .inr ⟨unborn, member⟩

theorem Provides.next (provides : Provides obtain_ v lo hi taken) {q : IndexOffset} (deep : 4 ≤ fuel)
    (now : Made v lo hi taken (lacking v lo q.page) w) (normal : q.Normal) (onward : lo ≤ q.page) (early : q.page < hi)
    (last : Unspent v lo taken (hi - 1)) :
    ∃ w' c, searchPage HHDMOffset fuel (some obtain_) w q = some (w', c) ∧ c.Normal ∧
      NextIn (2 ^ 36) (Unspent v lo taken) q.page c.page ∧ c.page < hi ∧ Made v lo hi taken (lacking v lo (c.page + 1)) w' := by
  have whole := provides.inside
  have passed : ∀ x, q.page ≤ x → x ≤ hi → (∀ r, q.page ≤ r → r < x → ¬ Candidate true w r) →
      lacking v lo x = lacking v lo q.page := by
    intro x late near none
    refine now.passed late fun r low high gone => none r low high ?_
    exact (candidateCases (show r < 2 ^ 36 by omega)).1.mpr (.inr gone)
  have seen : ∀ x, q.page ≤ x → x < hi → (∀ r, q.page ≤ r → r < x → ¬ Candidate true w r) →
      (Candidate true w x ↔ Unspent v lo taken x) := by
    intro x late near none
    exact Made.seen provides.stocked (by rw [passed x late (by omega) none]; exact now) (by omega) (by omega)
  have near : ∀ s, q.page ≤ s → (∀ r, q.page ≤ r → r < s → ¬ Candidate true w r) → s < hi := by
    intro s late none
    by_contra far
    exact none (hi - 1) (by omega) (by omega)
      ((seen (hi - 1) (by omega) (by omega) fun r low high => none r low (by omega)).mpr last)
  have served : ∀ s, s < 2 ^ 36 → FirstFrom (Candidate true w) q.page s → Served HHDMOffset (some obtain_)
      (fun w' => Made v lo hi taken (lacking v lo (s + 1)) w') 3 w [] w.pml4 s := by
    rintro s inside ⟨late, -, none⟩
    have same := passed s late (Nat.le_of_lt (near s late none)) none
    refine @Provides.served HHDMOffset lo hi obtain_ taken v w provides 3 s w.pml4 s _ [] _ (by omega) (near s late none) now
      (by rw [same]) ?_ rfl rfl inside rfl (fun w' made => made)
    rw [← same]
    exact lackingMono (Nat.le_succ s)
  obtain ⟨w', c, ran, normalC, next, after⟩ := @searchPageNext HHDMOffset fuel (some obtain_)
    (fun s w' => Made v lo hi taken (lacking v lo (s + 1)) w') w q deep now.formed normal served
  rcases next with ⟨late, low, has, none⟩ | ⟨-, none⟩
  · have found := near c.page late none
    refine ⟨w', c, ran, normalC, .inl ⟨late, low, (seen _ late found none).mp has, fun r onward' before => ?_⟩, found, ?_⟩
    · exact mt (seen r onward' (by omega) fun r' low' high' => none r' low' (by omega)).mpr (none r onward' before)
    · rcases after with ⟨-, never⟩ | made
      · exact absurd has (never _ late low)
      · exact made
  · exact absurd (near hi (by omega) fun r low high => none r low (by omega)) (Nat.lt_irrefl hi)

theorem Provides.found {n p : Nat} {begin_ : IndexOffset} (provides : Provides obtain_ v begin_.page (p + n) taken)
    (deep : 4 ≤ fuel) (rounds : p + n ≤ fuel) (formed : FourLevel v) (funded : Funded v begin_.page (p + n))
    (normal : begin_.Normal) (positive : 1 ≤ n) (run : RunOnward (Unspent v begin_.page taken) begin_.page n p) :
    ∃ v' c, searchPages HHDMOffset fuel (some obtain_) v begin_ n = some (v', c) ∧ c.Normal ∧ c.page = p ∧
      Made v begin_.page (p + n) taken (lacking v begin_.page (p + n)) v' := by
  have whole := provides.inside
  have onward := run.1
  have last : Unspent v begin_.page taken (p + n - 1) := by
    rw [show p + n - 1 = p + (n - 1) by omega]
    exact run.2.1 (n - 1) (by omega)
  obtain ⟨s, k, rfl, next, first⟩ := @RunOnward.firstRun (2 ^ 36) _ n _ p run positive whole
  have none : lacking v begin_.page begin_.page = ∅ := by
    refine Finset.eq_empty_of_forall_notMem fun q member => ?_
    obtain ⟨⟨r, low, high, -⟩, -⟩ := lackingIff.mp member
    omega
  obtain ⟨v₁, res, ran, normalR, next', near, now⟩ := @Provides.next HHDMOffset fuel begin_.page (s + k + n) obtain_ taken v v
    provides begin_ deep (by rw [none]; exact Made.start formed funded) normal (Nat.le_refl _) (by omega) last
  have start := next'.unique next
  have low : begin_.page ≤ res.page := by
    rcases next' with ⟨late, -⟩ | ⟨-, never⟩
    · exact late
    · exact absurd last (never _ (by omega) (by omega))
  have search : ∀ a w (q : IndexOffset), (begin_.page ≤ q.page ∧
      Made v begin_.page (s + k + n) taken (lacking v begin_.page (q.page + 1)) w) → q.Normal →
      q.page = (s + a) % 2 ^ 36 → a + 1 < k + n → ∃ w' c, searchPage HHDMOffset fuel (some obtain_) w q.nextPage = some (w', c) ∧
        c.Normal ∧ NextIn (2 ^ 36) (Unspent v begin_.page taken) q.nextPage.page c.page ∧ begin_.page ≤ c.page ∧
        Made v begin_.page (s + k + n) taken (lacking v begin_.page (c.page + 1)) w' := by
    rintro a w q ⟨onward', now'⟩ normalQ here early
    rw [Nat.mod_eq_of_lt (by omega)] at here
    obtain ⟨normalN, page⟩ := IndexOffset.nextPageSpec normalQ
    rw [Nat.mod_eq_of_lt (by omega)] at page
    rw [← page] at now'
    obtain ⟨w', c, ran', normalC, next'', -, now''⟩ := @Provides.next HHDMOffset fuel begin_.page (s + k + n) obtain_ taken
      v w provides q.nextPage deep now' normalN (by omega) (by omega) last
    refine ⟨w', c, ran', normalC, next'', ?_, now''⟩
    rcases next'' with ⟨late, -⟩ | ⟨-, never⟩
    · omega
    · exact absurd last (never _ (by omega) (by omega))
  obtain ⟨v', c, found, normalC, page, -, made⟩ := @searchPagesFound HHDMOffset fuel n s k _ (Unspent v begin_.page taken)
    (fun r w => begin_.page ≤ r ∧ Made v begin_.page (s + k + n) taken (lacking v begin_.page (r + 1)) w) v v₁ begin_ res
    positive search first ran normalR (IndexOffset.normalPage normal) next start ⟨low, now⟩ (by omega)
  rw [Nat.mod_eq_of_lt (by omega)] at page
  rw [Nat.mod_eq_of_lt (by omega), show s + (k + n - 1) + 1 = s + k + n by omega] at made
  exact ⟨v', c, found, normalC, page, made⟩

end Provides
end VMM
end DimOS.Memory.Vmm
