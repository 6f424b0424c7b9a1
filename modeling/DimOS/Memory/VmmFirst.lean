import Mathlib
import DimOS.Memory.VmmLevels

/-! getFirstUnallocPageUtil exactly: what it returns on every tree of four levels, and what it adds
to the tree. Of the frames only this is assumed, that the calls of allocNFrames(2) return new ones. -/
namespace DimOS.Memory.Vmm
open Pmm
open Paging
open Lib.PathTree

namespace VMM

def child (v : VMM) : Edges Nat Nat := fun t i =>
  if i < entriesPerTable ∧ (v.mem t).getLevel < 3 ∧ ((v.mem t).entries i).isPresent = true then
    (v.mem t).nextTables i
  else none

def reached (v : VMM) (q : List Nat) : Option Nat := walk v.child v.pml4 q

structure FourLevel (v : VMM) : Prop where
  tag : ∀ q t, v.reached q = some t → (v.mem t).getLevel = q.length
  next : ∀ q t i, v.reached q = some t → q.length < 3 → i < entriesPerTable →
    ((v.mem t).entries i).isPresent = true → (v.mem t).nextTables i ≠ none
  tree : Proper v.child v.pml4

def tableFrame (p : PMM) : Nat → Nat
  | 0 => (p.allocNFrames 2).2
  | k + 1 => tableFrame (p.allocNFrames 2).1 k

/- The next n tables get memory that is no table's and not given out twice. -/
structure FreshFrames (v : VMM) (n : Nat) : Prop where
  new : ∀ k, k < n → ∀ q, v.reached q ≠ some (tableFrame v.pmm k)
  distinct : ∀ j k, j < k → k < n → tableFrame v.pmm j ≠ tableFrame v.pmm k

theorem reachedSnoc (v : VMM) {q : List Nat} {t : Nat} (found : v.reached q = some t) (i : Nat) :
    v.reached (q ++ [i]) = v.child t i := by
  unfold reached at found ⊢
  rw [walkSnoc, found]
  rfl

structure Opened (v : VMM) (q : List Nat) (u : Nat) : Prop where
  formed : FourLevel v
  there : v.reached q = some u
  empty : ∀ j, ((v.mem u).entries j).isPresent = false

section newTable
variable {HHDMOffset : Nat} {v : VMM} {q : List Nat} {t i level u : Nat} {original : IndexOffset}

theorem newTableGrafted (other : t ≠ u) (tag : (v.mem t).getLevel = level) (inner : level < 3) (inside : i < entriesPerTable)
    (absent : ((v.mem t).entries i).isPresent = false) :
    Grafted v.child (v.addTable HHDMOffset t i level original u).child t i u := by
  have memory := addTableMem HHDMOffset v i level original other
  refine ⟨?_, ?_, fun j => ?_, fun w j old elsewhere => ?_⟩
  · unfold child
    rw [if_neg]
    rintro ⟨-, -, present⟩
    rw [absent] at present
    contradiction
  · unfold child
    rw [memory, if_pos rfl, if_pos, Table.setNextAt, if_pos rfl]
    refine ⟨inside, ?_, ?_⟩
    · rw [Table.setNextLevel, Table.mapLevel, tag]
      exact inner
    · rw [Table.setNextEntries, Table.setEntryAt, if_pos rfl]
      exact Entry.mapToPresent _ _
  · unfold child
    rw [memory, if_neg (Ne.symm other), if_pos rfl, if_neg]
    rintro ⟨-, -, present⟩
    rw [Table.initPresent (by omega)] at present
    contradiction
  · unfold child
    rw [memory, if_neg old]
    split
    · next here =>
      subst here
      have index : j ≠ i := fun same => elsewhere ⟨rfl, same⟩
      rw [Table.setNextLevel, Table.mapLevel, Table.setNextEntries, Table.setEntryAt, if_neg index, Table.setNextAt,
        if_neg index, Table.setEntryNext]
    · rfl

theorem newTableReached (formed : FourLevel v) (found : v.reached q = some t) (depth : q.length = level)
    (inner : level < 3) (inside : i < entriesPerTable) (absent : ((v.mem t).entries i).isPresent = false)
    (fresh : ∀ q, v.reached q ≠ some u) (q' : List Nat) :
    (v.addTable HHDMOffset t i level original u).reached q' = if q' = q ++ [i] then some u else v.reached q' := by
  have other : t ≠ u := fun same => fresh q (same ▸ found)
  unfold reached
  rw [(addTableRoot HHDMOffset v t i level original u).1]
  exact walkGrafted (newTableGrafted other ((formed.tag q t found).trans depth) inner inside absent) formed.tree found
    fresh q'

theorem newTableOpened (formed : FourLevel v) (found : v.reached q = some t) (depth : q.length = level)
    (inner : level < 3) (inside : i < entriesPerTable) (absent : ((v.mem t).entries i).isPresent = false)
    (fresh : ∀ q, v.reached q ≠ some u) : Opened (v.addTable HHDMOffset t i level original u) (q ++ [i]) u := by
  have other : t ≠ u := fun same => fresh q (same ▸ found)
  have tree := @newTableReached HHDMOffset v q t i level u original formed found depth inner inside absent fresh
  have memory := addTableMem HHDMOffset v i level original other
  refine ⟨⟨fun q' w found' => ?_, fun q' w j found' inner' inside' present => ?_, ?_⟩, ?_, fun j => ?_⟩
  · rw [tree] at found'
    rw [memory]
    split at found'
    · next new =>
      cases Option.some.inj found'
      rw [if_neg (Ne.symm other), if_pos rfl, Table.initLevel (by omega), new, List.length_append, depth,
        List.length_singleton]
    · have old : w ≠ u := fun same => fresh q' (same ▸ found')
      rw [if_neg old]
      split
      · next here =>
        subst here
        rw [Table.setNextLevel, Table.mapLevel]
        exact formed.tag q' w found'
      · exact formed.tag q' w found'
  · rw [tree] at found'
    rw [memory] at present ⊢
    split at found'
    · cases Option.some.inj found'
      rw [if_neg (Ne.symm other), if_pos rfl, Table.initPresent (by omega)] at present
      contradiction
    · have old : w ≠ u := fun same => fresh q' (same ▸ found')
      rw [if_neg old] at present ⊢
      split
      · next here =>
        rw [if_pos here, Table.setNextEntries, Table.setEntryAt] at present
        rw [Table.setNextAt, Table.setEntryNext]
        subst here
        by_cases index : j = i
        · rw [if_pos index]
          exact Option.some_ne_none _
        · rw [if_neg index] at present ⊢
          exact formed.next q' w j found' inner' inside' present
      · next elsewhere =>
        rw [if_neg elsewhere] at present
        exact formed.next q' w j found' inner' inside' present
  · rw [(addTableRoot HHDMOffset v t i level original u).1]
    exact properGrafted (newTableGrafted other ((formed.tag q t found).trans depth) inner inside absent) formed.tree
      found fresh
  · rw [tree, if_pos rfl]
  · rw [memory, if_neg (Ne.symm other), if_pos rfl]
    exact Table.initPresent (by omega) j

end newTable

def withTable (HHDMOffset : Nat) (v : VMM) (t i level : Nat) (original : IndexOffset) : VMM :=
  v.takeTableFrames.1.addTable HHDMOffset t i level original v.takeTableFrames.2

theorem FourLevel.taken {v : VMM} (formed : FourLevel v) : FourLevel v.takeTableFrames.1 :=
  ⟨formed.tag, formed.next, formed.tree⟩

section withTable
variable {HHDMOffset : Nat} {v : VMM} {q : List Nat} {t i level n : Nat} {original : IndexOffset}

theorem withTableMem (other : t ≠ tableFrame v.pmm 0) (u : Nat) :
    (withTable HHDMOffset v t i level original).mem u =
      if u = t then ((v.mem t).setEntry i (((v.mem t).entries i).mapTo (tableFrame v.pmm 0))).setNext i (tableFrame v.pmm 0)
      else if u = tableFrame v.pmm 0 then Table.init (level + 1) else v.mem u :=
  addTableMem HHDMOffset v.takeTableFrames.1 i level original other u

theorem withTableRoot : (withTable HHDMOffset v t i level original).pml4 = v.pml4 ∧
    (withTable HHDMOffset v t i level original).pmm = (v.pmm.allocNFrames 2).1 := by
  obtain ⟨root, pmm, -⟩ := addTableRoot HHDMOffset v.takeTableFrames.1 t i level original v.takeTableFrames.2
  exact ⟨root, pmm⟩

theorem withTableReached (formed : FourLevel v) (found : v.reached q = some t) (depth : q.length = level)
    (inner : level < 3) (inside : i < entriesPerTable) (absent : ((v.mem t).entries i).isPresent = false)
    (fresh : ∀ q, v.reached q ≠ some (tableFrame v.pmm 0)) (q' : List Nat) :
    (withTable HHDMOffset v t i level original).reached q' =
      if q' = q ++ [i] then some (tableFrame v.pmm 0) else v.reached q' :=
  newTableReached formed.taken found depth inner inside absent fresh q'

theorem withTableOpened (formed : FourLevel v) (found : v.reached q = some t) (depth : q.length = level)
    (inner : level < 3) (inside : i < entriesPerTable) (absent : ((v.mem t).entries i).isPresent = false)
    (fresh : ∀ q, v.reached q ≠ some (tableFrame v.pmm 0)) :
    Opened (withTable HHDMOffset v t i level original) (q ++ [i]) (tableFrame v.pmm 0) :=
  newTableOpened formed.taken found depth inner inside absent fresh

theorem withTableFresh (formed : FourLevel v) (found : v.reached q = some t) (depth : q.length = level)
    (inner : level < 3) (inside : i < entriesPerTable) (absent : ((v.mem t).entries i).isPresent = false)
    (fresh : FreshFrames v (n + 1)) : FreshFrames (withTable HHDMOffset v t i level original) n := by
  have later : ∀ k, tableFrame (withTable HHDMOffset v t i level original).pmm k = tableFrame v.pmm (k + 1) := by
    intro k
    rw [withTableRoot.2]
    rfl
  refine ⟨fun k low q' => ?_, fun j k less low => ?_⟩
  · rw [withTableReached formed found depth inner inside absent (fresh.new 0 (by omega)), later]
    split
    · exact fun same => fresh.distinct 0 (k + 1) (by omega) (by omega) (Option.some.inj same)
    · exact fresh.new (k + 1) (by omega) q'
  · rw [later, later]
    exact fresh.distinct (j + 1) (k + 1) (by omega) (by omega)

end withTable

def entryBelow (v : VMM) : Nat → Nat → Nat → Option Entry
  | 0, t, s => some ((v.mem t).entries s)
  | k + 1, t, s => (v.child t (s / 512 ^ (k + 1))).bind (fun u => entryBelow v k u (s % 512 ^ (k + 1)))

/- What the search stops at: an entry that is not present or, where it makes tables, a missing one. -/
def Wanted (makes : Bool) (v : VMM) (k t s : Nat) : Prop :=
  (∃ e, v.entryBelow k t s = some e ∧ e.isPresent = false) ∨ (makes = true ∧ v.entryBelow k t s = none)

/- The tables missing on the way from t to entry s have been made, one below the other. -/
def Extended (HHDMOffset : Nat) : Nat → VMM → Nat → Nat → VMM → Prop
  | 0, v, _, _, v' => v' = v
  | k + 1, v, t, s, v' =>
    match v.child t (s / 512 ^ (k + 1)) with
    | some u => Extended HHDMOffset k v u (s % 512 ^ (k + 1)) v'
    | none => ∃ original, Extended HHDMOffset k (withTable HHDMOffset v t (s / 512 ^ (k + 1)) (2 - k) original)
        (tableFrame v.pmm 0) (s % 512 ^ (k + 1)) v'

theorem blockDigits {i k s : Nat} (inside : s < 512 ^ (k + 1)) :
    (i * 512 ^ (k + 1) + s) / 512 ^ (k + 1) = i ∧ (i * 512 ^ (k + 1) + s) % 512 ^ (k + 1) = s := by
  constructor
  · rw [Nat.add_comm, Nat.add_mul_div_right _ _ (by positivity), Nat.div_eq_of_lt inside, Nat.zero_add]
  · rw [Nat.add_comm, Nat.add_mul_mod_self_right, Nat.mod_eq_of_lt inside]

theorem wantedStep {makes : Bool} {v : VMM} {t u i k s : Nat} (inside : s < 512 ^ (k + 1)) (there : v.child t i = some u) :
    Wanted makes v (k + 1) t (i * 512 ^ (k + 1) + s) ↔ Wanted makes v k u s := by
  obtain ⟨quotient, remainder⟩ := @blockDigits i k s inside
  unfold Wanted
  rw [entryBelow, quotient, remainder, there, Option.bind_some]

theorem wantedMissing {makes : Bool} {v : VMM} {t i k s : Nat} (inside : s < 512 ^ (k + 1)) (missing : v.child t i = none) :
    Wanted makes v (k + 1) t (i * 512 ^ (k + 1) + s) ↔ makes = true := by
  obtain ⟨quotient, remainder⟩ := @blockDigits i k s inside
  unfold Wanted
  rw [entryBelow, quotient, missing]
  simp

theorem wantedEmpty {v : VMM} {t k s : Nat} (empty : ∀ i, ((v.mem t).entries i).isPresent = false) :
    Wanted true v k t s := by
  cases k with
  | zero => exact .inl ⟨_, rfl, empty s⟩
  | succ k =>
    refine .inr ⟨rfl, ?_⟩
    have missing : v.child t (s / 512 ^ (k + 1)) = none := by
      unfold child
      rw [if_neg]
      rintro ⟨-, -, present⟩
      rw [empty] at present
      contradiction
    rw [entryBelow, missing]
    rfl

def FirstFrom (P : Nat → Prop) (low s : Nat) : Prop := low ≤ s ∧ P s ∧ ∀ r, low ≤ r → r < s → ¬ P r

/- The scheme has memory for every table missing on the way to entry s, and G holds when they are made. -/
def Served (HHDMOffset : Nat) (place : Place) (G : VMM → Prop) : Nat → VMM → List Nat → Nat → Nat → Prop
  | 0, v, _, _, _ => G v
  | k + 1, v, q, t, s =>
    match v.child t (s / 512 ^ (k + 1)) with
    | some u => Served HHDMOffset place G k v (q ++ [s / 512 ^ (k + 1)]) u (s % 512 ^ (k + 1))
    | none => ∀ obtain_ original, place = some obtain_ → ∃ v₁ u, obtain_ v = some (v₁, u) ∧
        Opened (v₁.addTable HHDMOffset t (s / 512 ^ (k + 1)) (2 - k) original u) (q ++ [s / 512 ^ (k + 1)]) u ∧
        Served HHDMOffset place G k (v₁.addTable HHDMOffset t (s / 512 ^ (k + 1)) (2 - k) original u)
          (q ++ [s / 512 ^ (k + 1)]) u (s % 512 ^ (k + 1))

/- The outcome of a search from start below table t, k levels above the leaves. -/
structure Finds (makes : Bool) (G : Nat → VMM → Prop) (v : VMM) (k t : Nat) (start : IndexOffset) (v' : VMM)
    (c : IndexOffset) (done : Bool) : Prop where
  normal : c.Normal
  above : ∀ j, j < 3 - k → c.i j = start.i j
  failed : done = false → v' = v ∧ c.i (3 - k) = start.i (3 - k) ∧
    ∀ s, start.tail k ≤ s → s < 512 ^ (k + 1) → ¬ Wanted makes v k t s
  first : done = true → FirstFrom (Wanted makes v k t) (start.tail k) (c.tail k) ∧ G (c.tail k) v'

theorem searchLastFinds {HHDMOffset : Nat} {place : Place} {makes : Bool} {G : Nat → VMM → Prop} {v : VMM}
    {t left : Nat} {original start : IndexOffset}
    (descend : VMM → IndexOffset → Nat → Option (VMM × IndexOffset × Bool)) (normal : start.Normal)
    (served : ∀ s, s < 512 → FirstFrom (Wanted makes v 0 t) (start.tail 0) s → G s v)
    (reached : start.i 3 ≤ 512 - left) (few : left ≤ 512)
    (passed : ∀ s, start.tail 0 ≤ s → s < 512 - left → ¬ Wanted makes v 0 t s) :
    ∃ v' c done, searchTable HHDMOffset place descend t 3 original left v start = some (v', c, done) ∧
      Finds makes G v 0 t start v' c done := by
  induction left with
  | zero =>
    exact ⟨v, start, false, rfl, normal, fun _ _ => rfl,
      fun _ => ⟨rfl, rfl, fun s low high => passed s low (by simpa using high)⟩, fun never => (by cases never)⟩
  | succ left ih =>
    have stays : (if entriesPerTable - (left + 1) > start.i 3 then start.clearBelow 3 else start) = start :=
      ite_self start
    simp only [searchTable, stays, if_true]
    cases present : ((v.mem t).entries (entriesPerTable - (left + 1))).isPresent with
    | false =>
      have index : (start.set 3 (entriesPerTable - (left + 1))).tail 0 = 512 - (left + 1) := by
        rw [IndexOffset.tail, IndexOffset.setAt _ _ (by omega) (by omega), if_pos rfl]
        rfl
      refine ⟨v, start.set 3 (entriesPerTable - (left + 1)), true, rfl,
        IndexOffset.normalSet normal (show 512 - (left + 1) < 512 by omega) (by omega), fun j high => ?_,
        fun never => (by cases never), fun _ => ?_⟩
      · rw [IndexOffset.setAt _ _ (by omega) (by omega), if_neg (by omega)]
      · rw [index]
        have first : FirstFrom (Wanted makes v 0 t) (start.tail 0) (512 - (left + 1)) :=
          ⟨reached, .inl ⟨_, rfl, present⟩, passed⟩
        exact ⟨first, served _ (by omega) first⟩
    | true =>
      refine ih (by omega) (by omega) (fun s low high => ?_)
      by_cases here : s = 512 - (left + 1)
      · subst here
        rintro (⟨e, read, absent⟩ | ⟨-, none⟩)
        · cases Option.some.inj read
          rw [show 512 - (left + 1) = entriesPerTable - (left + 1) from rfl, present] at absent
          contradiction
        · cases none
      · exact passed s low (by omega)

theorem Finds.up {makes : Bool} {G : Nat → VMM → Prop} {v v' : VMM} {k t i : Nat} {start next c : IndexOffset}
    (shallow : k ≤ 2) (inside : i < 512) (above : ∀ j, j ≤ 2 - k → next.i j = start.i j) (normal : c.Normal)
    (kept : ∀ j, j < 3 - k → c.i j = next.i j)
    (first : FirstFrom (Wanted makes v (k + 1) t) (start.tail (k + 1)) (i * 512 ^ (k + 1) + c.tail k))
    (goal : G (i * 512 ^ (k + 1) + c.tail k) v') : Finds makes G v (k + 1) t start v' (c.set (2 - k) i) true := by
  have tail : (c.set (2 - k) i).tail (k + 1) = i * 512 ^ (k + 1) + c.tail k := by
    rw [IndexOffset.tail, IndexOffset.setAt _ _ (by omega) (by omega), if_pos rfl]
    congr 1
    refine IndexOffset.tailCongr (fun j low high => ?_)
    rw [IndexOffset.setAt _ _ (by omega) high, if_neg (by omega)]
  refine ⟨IndexOffset.normalSet normal inside (by omega), fun j high => ?_, fun never => (by cases never), fun _ => ?_⟩
  · rw [IndexOffset.setAt _ _ (by omega) (by omega), if_neg (by omega), kept j (by omega)]
    exact above j (by omega)
  · rw [tail]
    exact ⟨first, goal⟩

theorem FirstFrom.up {P : Nat → Prop} {block start next s : Nat} (low : start ≤ block + next)
    (before : ∀ r, start ≤ r → r < block + next → ¬ P r) (first : FirstFrom (fun r => P (block + r)) next s) :
    FirstFrom P start (block + s) := by
  obtain ⟨onward, has, none⟩ := first
  refine ⟨by omega, has, fun r late early => ?_⟩
  by_cases earlier : r < block + next
  · exact before r late earlier
  · have split_ : r = block + (r - block) := by omega
    rw [split_]
    exact none _ (by omega) (by omega)

theorem FirstFrom.congr {P Q : Nat → Prop} {low s : Nat} (same : ∀ r, r ≤ s → (P r ↔ Q r))
    (first : FirstFrom P low s) : FirstFrom Q low s :=
  ⟨first.1, (same s (Nat.le_refl s)).mp first.2.1, fun r late early => mt (same r (by omega)).mpr (first.2.2 r late early)⟩

theorem FreshFrames.fewer {v : VMM} {n m : Nat} (fresh : FreshFrames v n) (less : m ≤ n) : FreshFrames v m :=
  ⟨fun k low => fresh.new k (by omega), fun j k order low => fresh.distinct j k order (by omega)⟩

theorem enterPresent {HHDMOffset : Nat} {place : Place} {v : VMM} {t i u level : Nat} {original : IndexOffset}
    (present : ((v.mem t).entries i).isPresent = true) (there : (v.mem t).nextTables i = some u) :
    enter HHDMOffset place v t i level original = some (v, some u) := by
  unfold enter
  rw [if_pos present, there]

theorem enterSkipped {HHDMOffset : Nat} {v : VMM} {t i level : Nat} {original : IndexOffset}
    (absent : ((v.mem t).entries i).isPresent = false) : enter HHDMOffset none v t i level original = some (v, none) := by
  unfold enter
  rw [if_neg (by rw [absent]; decide)]

theorem enterMade {HHDMOffset : Nat} {obtain_ : VMM → Option (VMM × Nat)} {v v₁ : VMM} {t i u level : Nat}
    {original : IndexOffset} (absent : ((v.mem t).entries i).isPresent = false) (placed : obtain_ v = some (v₁, u)) :
    enter HHDMOffset (some obtain_) v t i level original = some (v₁.addTable HHDMOffset t i level original u, some u) := by
  unfold enter
  rw [if_neg (by rw [absent]; decide)]
  simp only [placed]

theorem searchInnerFinds {HHDMOffset : Nat} {place : Place} {G : Nat → VMM → Prop} {v : VMM} {q : List Nat} {t k left : Nat}
    {original start curr : IndexOffset} {descend : VMM → IndexOffset → Nat → Option (VMM × IndexOffset × Bool)}
    (shallow : k ≤ 2) (depth : q.length = 2 - k)
    (below : ∀ v curr u i (G : Nat → VMM → Prop), FourLevel v → curr.Normal → v.reached (q ++ [i]) = some u →
      (∀ s, s < 512 ^ (k + 1) → FirstFrom (Wanted place.isSome v k u) (curr.tail k) s →
        Served HHDMOffset place (G s) k v (q ++ [i]) u s) →
      ∃ v' c done, descend v curr u = some (v', c, done) ∧ Finds place.isSome G v k u curr v' c done)
    (served : ∀ s, s < 512 ^ (k + 2) → FirstFrom (Wanted place.isSome v (k + 1) t) (start.tail (k + 1)) s →
      Served HHDMOffset place (G s) (k + 1) v q t s)
    (formed : FourLevel v) (found : v.reached q = some t) (normal : start.Normal) (normal' : curr.Normal)
    (same : ∀ j, j ≤ 2 - k → curr.i j = start.i j) (first : 512 - left = start.i (2 - k) → curr = start)
    (reached : start.i (2 - k) ≤ 512 - left) (few : left ≤ 512)
    (passed : ∀ s, start.tail (k + 1) ≤ s → s < (512 - left) * 512 ^ (k + 1) → ¬ Wanted place.isSome v (k + 1) t s) :
    ∃ v' c done, searchTable HHDMOffset place descend t (2 - k) original left v curr =
        some (v', c, done) ∧ Finds place.isSome G v (k + 1) t start v' c done := by
  have level : 3 - (k + 1) = 2 - k := by omega
  induction left generalizing curr with
  | zero =>
    refine ⟨v, curr, false, rfl, normal', fun j high => same j (by omega), fun _ => ⟨rfl, ?_, fun s low high => ?_⟩,
      fun never => (by cases never)⟩
    · rw [level]
      exact same _ (Nat.le_refl _)
    · refine passed s low ?_
      rw [pow_succ 512 (k + 1)] at high
      omega
  | succ left ih =>
    simp only [searchTable, show ¬ 2 - k = 3 by omega, if_false]
    obtain ⟨normal1, same1, low1, before⟩ := roundStart shallow normal normal' same first reached
    have width : entriesPerTable - (left + 1) = 512 - (left + 1) := rfl
    have step : 512 - left = 512 - (left + 1) + 1 := by omega
    rw [width]
    generalize nextEq : (if 512 - (left + 1) > curr.i (2 - k) then curr.clearBelow (2 - k) else curr) = next at *
    have inside : 512 - (left + 1) < 512 := by omega
    generalize indexEq : 512 - (left + 1) = i at *
    have small := IndexOffset.tailLt normal1 k
    have earlier : ∀ s, start.tail (k + 1) ≤ s → s < i * 512 ^ (k + 1) + next.tail k →
        ¬ Wanted place.isSome v (k + 1) t s := fun s low high => passed s low (before s low high)
    have scaled : (i + 1) * 512 ^ (k + 1) ≤ 512 ^ (k + 2) := by
      rw [pow_succ 512 (k + 1), Nat.mul_comm (512 ^ (k + 1))]
      exact Nat.mul_le_mul_right _ inside
    rw [Nat.add_mul, Nat.one_mul] at scaled
    -- a round that found nothing leaves the rest of the loop to the induction
    have goOn : ∀ c : IndexOffset, c.Normal → (∀ j, j ≤ 2 - k → c.i j = start.i j) →
        (∀ s, next.tail k ≤ s → s < 512 ^ (k + 1) → ¬ Wanted place.isSome v (k + 1) t (i * 512 ^ (k + 1) + s)) →
        ∃ v' c' done, searchTable HHDMOffset place descend t (2 - k) original left v c =
          some (v', c', done) ∧ Finds place.isSome G v (k + 1) t start v' c' done := by
      intro c normalC sameC block
      refine ih normalC sameC (fun begin_ => by omega) (by omega) (by omega) (fun s low high => ?_)
      rw [step, Nat.add_mul, Nat.one_mul] at high
      by_cases old : s < i * 512 ^ (k + 1) + next.tail k
      · exact earlier s low old
      · have split_ : s = i * 512 ^ (k + 1) + (s - i * 512 ^ (k + 1)) := by omega
        rw [split_]
        exact block _ (by omega) (by omega)
    have tag := formed.tag q t found
    cases present : ((v.mem t).entries i).isPresent with
    | true =>
      obtain ⟨u, there⟩ := Option.ne_none_iff_exists'.mp (formed.next q t i found (by omega) inside present)
      have linked : v.child t i = some u := by
        unfold child
        rw [if_pos ⟨inside, by omega, present⟩, there]
      have up : ∀ s, s < 512 ^ (k + 1) → FirstFrom (Wanted place.isSome v k u) (next.tail k) s →
          FirstFrom (Wanted place.isSome v (k + 1) t) (start.tail (k + 1)) (i * 512 ^ (k + 1) + s) :=
        fun s high first => FirstFrom.up low1 earlier (first.congr (fun r late => (wantedStep (by omega) linked).symm))
      have served' : ∀ s, s < 512 ^ (k + 1) → FirstFrom (Wanted place.isSome v k u) (next.tail k) s →
          Served HHDMOffset place (G (i * 512 ^ (k + 1) + s)) k v (q ++ [i]) u s := by
        intro s high first
        have whole := served _ (by omega) (up s high first)
        obtain ⟨quotient, remainder⟩ := @blockDigits i k s high
        simp only [Served, quotient, remainder, linked] at whole
        exact whole
      rw [enterPresent present there]
      obtain ⟨v', c, done, descended, finds⟩ := below v next u i (fun s => G (i * 512 ^ (k + 1) + s)) formed normal1
        ((reachedSnoc v found i).trans linked) served'
      simp only [descended]
      cases done with
      | true =>
        obtain ⟨first, goal⟩ := finds.first rfl
        exact ⟨v', _, true, rfl, Finds.up shallow inside same1 finds.normal finds.above
          (up _ (IndexOffset.tailLt finds.normal k) first) goal⟩
      | false =>
        obtain ⟨rfl, kept, nothing⟩ := finds.failed rfl
        refine goOn c finds.normal (fun j high => (finds.above j (by omega)).trans (same1 j high))
          (fun s low high => mt (wantedStep high linked).mp (nothing s low high))
    | false =>
      have missing : v.child t i = none := by
        unfold child
        rw [if_neg]
        rintro ⟨-, -, there⟩
        rw [present] at there
        contradiction
      cases place with
      | none =>
        rw [enterSkipped present]
        exact goOn next normal1 same1 (fun s low high => mt (wantedMissing high missing).mp (by decide))
      | some obtain_ =>
        have here : FirstFrom (Wanted true v (k + 1) t) (start.tail (k + 1)) (i * 512 ^ (k + 1) + next.tail k) :=
          ⟨low1, (wantedMissing small missing).mpr rfl, earlier⟩
        have whole := served _ (by omega) here
        obtain ⟨quotient, remainder⟩ := @blockDigits i k _ small
        simp only [Served, quotient, remainder, missing] at whole
        obtain ⟨v₁, u, placed, opened, rest⟩ := whole obtain_ original rfl
        -- the new table is empty, so that the search stops at its first entry
        have only : ∀ s, FirstFrom (Wanted true (v₁.addTable HHDMOffset t i (2 - k) original u) k u) (next.tail k) s →
            s = next.tail k := by
          rintro s ⟨onward, -, between⟩
          by_contra differ
          exact between (next.tail k) (Nat.le_refl _) (by omega) (wantedEmpty opened.empty)
        obtain ⟨v', c, done, descended, finds⟩ := below _ next u i (fun _ => G (i * 512 ^ (k + 1) + next.tail k))
          opened.formed normal1 opened.there (fun s _ first => by rw [only s first]; exact rest)
        rw [enterMade present placed]
        simp only [descended]
        cases done with
        | true =>
          obtain ⟨first, goal⟩ := finds.first rfl
          have tail := only _ first
          exact ⟨v', _, true, rfl, Finds.up shallow inside same1 finds.normal finds.above (by rw [tail]; exact here)
            (by rw [tail]; exact goal)⟩
        | false => exact absurd (wantedEmpty opened.empty) ((finds.failed rfl).2.2 (next.tail k) (Nat.le_refl _) small)

theorem searchUtilFinds {HHDMOffset depth : Nat} {place : Place} {G : Nat → VMM → Prop} {v : VMM} {q : List Nat}
    {t k : Nat} {curr : IndexOffset} (deep : k < depth) (formed : FourLevel v) (normal : curr.Normal)
    (found : v.reached q = some t) (height : q.length + k = 3)
    (served : ∀ s, s < 512 ^ (k + 1) → FirstFrom (Wanted place.isSome v k t) (curr.tail k) s →
      Served HHDMOffset place (G s) k v q t s) :
    ∃ v' c done, searchUtil HHDMOffset place depth v curr t = some (v', c, done) ∧
      Finds place.isSome G v k t curr v' c done := by
  induction depth generalizing v curr t q k G with
  | zero => omega
  | succ depth ih =>
    have level : (v.mem t).getLevel = 3 - k := by
      rw [formed.tag q t found]
      omega
    have digit := normal (3 - k) (by omega)
    have index : 512 - (entriesPerTable - curr.i (3 - k)) = curr.i (3 - k) := by
      show 512 - (512 - curr.i (3 - k)) = _
      omega
    have few : entriesPerTable - curr.i (3 - k) ≤ 512 := Nat.sub_le _ _
    simp only [searchUtil, level]
    cases k with
    | zero =>
      refine searchLastFinds _ normal served (by rw [index]) few (fun s low high => ?_)
      rw [index] at high
      exact absurd (show curr.i 3 ≤ s from low) (Nat.not_le.mpr high)
    | succ k =>
      have same : 3 - (k + 1) = 2 - k := by omega
      rw [same] at index few ⊢
      refine searchInnerFinds (by omega) (by omega) (fun v1 curr1 u i G1 formed1 normal1 found1 served1 => ?_) served
        formed found normal normal (fun _ _ => rfl) (fun _ => rfl) (by rw [index]) few (fun s low high => ?_)
      · exact ih (by omega) formed1 normal1 found1 (by rw [List.length_append, List.length_singleton]; omega) served1
      · rw [index] at high
        rw [IndexOffset.tail] at low
        omega

theorem servedPresent {HHDMOffset k : Nat} {place : Place} {G : VMM → Prop} {v : VMM} {q : List Nat} {t s : Nat}
    (there : v.entryBelow k t s ≠ none) (goal : G v) : Served HHDMOffset place G k v q t s := by
  induction k generalizing q t s with
  | zero => exact goal
  | succ k ih =>
    rw [entryBelow] at there
    unfold Served
    split
    · next u linked =>
      rw [linked] at there
      exact ih there
    · next missing =>
      rw [missing] at there
      exact absurd rfl there

theorem wantedPresent {v : VMM} {k t s : Nat} (wanted : Wanted false v k t s) : v.entryBelow k t s ≠ none := by
  rcases wanted with ⟨e, read, -⟩ | ⟨never, -⟩
  · rw [read]
    exact Option.some_ne_none e
  · cases never

def pathTo : Nat → Nat → List Nat
  | 0, _ => []
  | k + 1, s => s / 512 ^ (k + 1) :: pathTo k (s % 512 ^ (k + 1))

/- Tables were added along a path, each empty but for the entry behind which the next one hangs. The old
tables keep their entries but for the one that the first of them hangs behind, and no other memory changed. -/
structure Added (v v' : VMM) (path : List Nat) : Prop where
  formed : FourLevel v'
  root : v'.pml4 = v.pml4
  kept : ∀ q t, v.reached q = some t → v'.reached q = some t
  made : ∀ q t, v.reached q = none → v'.reached q = some t →
    q <+: path ∧ ∀ j, ((v'.mem t).entries j).isPresent = true → q ++ [j] <+: path
  entries : ∀ q t j, v.reached q = some t → ¬ (q ++ [j] <+: path ∧ v.reached (q ++ [j]) = none) →
    (v'.mem t).entries j = (v.mem t).entries j ∧ (v'.mem t).nextTables j = (v.mem t).nextTables j
  outside : ∀ u, (∀ q, v'.reached q ≠ some u) → v'.mem u = v.mem u
  complete : v'.reached path ≠ none

theorem Added.after {HHDMOffset : Nat} {v v' : VMM} {q path : List Nat} {t i level : Nat} {original : IndexOffset}
    (formed : FourLevel v) (found : v.reached q = some t) (depth : q.length = level) (inner : level < 3)
    (inside : i < entriesPerTable) (absent : ((v.mem t).entries i).isPresent = false)
    (fresh : ∀ q, v.reached q ≠ some (tableFrame v.pmm 0)) (onPath : q ++ [i] <+: path)
    (added : Added (withTable HHDMOffset v t i level original) v' path) : Added v v' path := by
  have other : t ≠ tableFrame v.pmm 0 := fun same => fresh q (same ▸ found)
  have tree := @withTableReached HHDMOffset v q t i level original formed found depth inner inside absent fresh
  have memory := @withTableMem HHDMOffset v t i level original other
  have missing : v.reached (q ++ [i]) = none := by
    rw [reachedSnoc v found]
    unfold child
    rw [if_neg]
    rintro ⟨-, -, present⟩
    rw [absent] at present
    contradiction
  have old : ∀ q' u, v.reached q' = some u → (withTable HHDMOffset v t i level original).reached q' = some u := by
    intro q' u there
    rw [tree, if_neg, there]
    rintro rfl
    rw [missing] at there
    contradiction
  have new := tree (q ++ [i])
  rw [if_pos rfl] at new
  refine ⟨added.formed, added.root.trans withTableRoot.1, fun q' u there => added.kept q' u (old q' u there),
    fun q' u before after => ?_, fun q' u j there off => ?_, fun u nowhere => ?_, added.complete⟩
  · by_cases first : q' = q ++ [i]
    · subst first
      rw [added.kept _ _ new] at after
      cases Option.some.inj after
      refine ⟨onPath, fun j present => ?_⟩
      by_contra off
      rw [(added.entries _ _ j new (fun both => off both.1)).1, memory, if_neg (Ne.symm other), if_pos rfl,
        Table.initPresent (by omega)] at present
      contradiction
    · refine added.made q' u ?_ after
      rw [tree, if_neg first, before]
  · have off' : ¬ (q' ++ [j] <+: path ∧ (withTable HHDMOffset v t i level original).reached (q' ++ [j]) = none) := by
      rintro ⟨on, gone⟩
      refine off ⟨on, ?_⟩
      cases before : v.reached (q' ++ [j]) with
      | none => rfl
      | some w =>
        rw [old _ w before] at gone
        contradiction
    obtain ⟨entry, next⟩ := added.entries q' u j (old q' u there) off'
    have notNew : u ≠ tableFrame v.pmm 0 := fun same => fresh q' (same ▸ there)
    rw [entry, next, memory, if_neg notNew]
    split
    · next here =>
      have index : j ≠ i := by
        rintro rfl
        rw [here] at there
        rw [formed.tree q' q t there found] at off
        exact off ⟨onPath, missing⟩
      rw [Table.setNextEntries, Table.setEntryAt, if_neg index, Table.setNextAt, if_neg index, Table.setEntryNext, here]
      exact ⟨rfl, rfl⟩
    · exact ⟨rfl, rfl⟩
  · have notNew : u ≠ tableFrame v.pmm 0 := by
      rintro rfl
      exact nowhere _ (added.kept _ _ new)
    have notParent : u ≠ t := by
      rintro rfl
      exact nowhere _ (added.kept _ _ (old q u found))
    rw [added.outside u nowhere, memory, if_neg notParent, if_neg notNew]

theorem missingAbsent {v : VMM} {q : List Nat} {t k s : Nat} (formed : FourLevel v) (found : v.reached q = some t)
    (inner : q.length < 3) (inside : s < 512 ^ (k + 2)) (missing : v.child t (s / 512 ^ (k + 1)) = none) :
    s / 512 ^ (k + 1) < entriesPerTable ∧ ((v.mem t).entries (s / 512 ^ (k + 1))).isPresent = false := by
  have index : s / 512 ^ (k + 1) < entriesPerTable := by
    rw [Nat.div_lt_iff_lt_mul (by positivity)]
    rw [pow_succ 512 (k + 1)] at inside
    show s < 512 * 512 ^ (k + 1)
    omega
  refine ⟨index, ?_⟩
  by_contra present
  have there := Bool.eq_true_of_not_eq_false present
  have tag := formed.tag q t found
  unfold child at missing
  rw [if_pos ⟨index, by omega, there⟩] at missing
  exact formed.next q t _ found inner index there missing

theorem freshServed {HHDMOffset k : Nat} {G : VMM → Prop} {v : VMM} {q : List Nat} {t s : Nat} (formed : FourLevel v)
    (found : v.reached q = some t) (height : q.length + k = 3) (inside : s < 512 ^ (k + 1)) (fresh : FreshFrames v k)
    (goal : ∀ v', Extended HHDMOffset k v t s v' → G v') :
    Served HHDMOffset (some (fun v => some v.takeTableFrames)) G k v q t s := by
  induction k generalizing v q t s with
  | zero => exact goal v rfl
  | succ k ih =>
    have longer : (q ++ [s / 512 ^ (k + 1)]).length + k = 3 := by
      rw [List.length_append, List.length_singleton]
      omega
    have rest : s % 512 ^ (k + 1) < 512 ^ (k + 1) := Nat.mod_lt _ (by positivity)
    unfold Served
    simp only [Extended] at goal
    split
    · next u there =>
      rw [there] at goal
      exact ih formed ((reachedSnoc v found _).trans there) longer rest (fresh.fewer (by omega)) goal
    · next missing =>
      rw [missing] at goal
      intro obtain_ original chosen
      cases chosen
      have new := fresh.new 0 (by omega)
      obtain ⟨index, absent⟩ := missingAbsent formed found (by omega) inside missing
      have opened := @withTableOpened HHDMOffset v q t _ (2 - k) original formed found (by omega) (by omega) index absent new
      exact ⟨_, _, rfl, opened, ih opened.formed opened.there longer rest
        (withTableFresh formed found (by omega) (by omega) index absent fresh) (fun v' extended => goal v' ⟨original, extended⟩)⟩

theorem extendedAdded {HHDMOffset k : Nat} {v v' : VMM} {q : List Nat} {t s : Nat} (formed : FourLevel v)
    (found : v.reached q = some t) (height : q.length + k = 3) (inside : s < 512 ^ (k + 1)) (fresh : FreshFrames v k)
    (extended : Extended HHDMOffset k v t s v') : Added v v' (q ++ pathTo k s) := by
  induction k generalizing v q t s with
  | zero =>
    cases extended
    rw [pathTo, List.append_nil]
    refine ⟨formed, rfl, fun _ _ there => there, fun q' u before after => ?_, fun _ _ _ _ _ => ⟨rfl, rfl⟩, fun _ _ => rfl,
      by rw [found]; exact Option.some_ne_none t⟩
    rw [before] at after
    contradiction
  | succ k ih =>
    have split_ : q ++ pathTo (k + 1) s = q ++ [s / 512 ^ (k + 1)] ++ pathTo k (s % 512 ^ (k + 1)) := by
      rw [List.append_assoc]
      rfl
    have longer : (q ++ [s / 512 ^ (k + 1)]).length + k = 3 := by
      rw [List.length_append, List.length_singleton]
      omega
    have rest : s % 512 ^ (k + 1) < 512 ^ (k + 1) := Nat.mod_lt _ (by positivity)
    rw [split_]
    simp only [Extended] at extended
    split at extended
    · next u there =>
      exact ih formed ((reachedSnoc v found _).trans there) longer rest (fresh.fewer (by omega)) extended
    · next missing =>
      obtain ⟨original, extended⟩ := extended
      have new := fresh.new 0 (by omega)
      obtain ⟨index, absent⟩ := missingAbsent formed found (by omega) inside missing
      have opened := @withTableOpened HHDMOffset v q t _ (2 - k) original formed found (by omega) (by omega) index absent new
      refine @Added.after HHDMOffset v v' q _ t _ (2 - k) original formed found (by omega) (by omega) index absent new
        (List.prefix_append _ _) ?_
      exact ih opened.formed opened.there longer rest
        (withTableFresh formed found (by omega) (by omega) index absent fresh) extended

def entryOf (v : VMM) (c : IndexOffset) : Option Entry :=
  (v.reached [c.i 0, c.i 1, c.i 2]).map (fun t => (v.mem t).entries (c.i 3))

def NotPresent (v : VMM) (c : IndexOffset) : Prop := ∃ e, v.entryOf c = some e ∧ e.isPresent = false

def Mapped (v : VMM) (c : IndexOffset) : Prop := ∃ e, v.entryOf c = some e ∧ e.isPresent = true

def LexLe (c d : IndexOffset) : Prop :=
  c.i 0 < d.i 0 ∨ c.i 0 = d.i 0 ∧ (c.i 1 < d.i 1 ∨ c.i 1 = d.i 1 ∧ (c.i 2 < d.i 2 ∨ c.i 2 = d.i 2 ∧ c.i 3 ≤ d.i 3))

theorem lexLeIff {c d : IndexOffset} (normal : c.Normal) (normal' : d.Normal) : LexLe c d ↔ c.page ≤ d.page := by
  obtain ⟨c0, c1, c2, c3⟩ := IndexOffset.normalDigits normal
  obtain ⟨d0, d1, d2, d3⟩ := IndexOffset.normalDigits normal'
  rw [IndexOffset.pageEq, IndexOffset.pageEq]
  unfold LexLe
  omega

theorem entryBelowPage (v : VMM) {c : IndexOffset} (normal : c.Normal) :
    v.entryBelow 3 v.pml4 c.page = v.entryOf c ∧ pathTo 3 c.page = [c.i 0, c.i 1, c.i 2] := by
  obtain ⟨first, rest⟩ := @blockDigits (c.i 0) 2 (c.tail 2) (IndexOffset.tailLt normal 2)
  obtain ⟨second, rest'⟩ := @blockDigits (c.i 1) 1 (c.tail 1) (IndexOffset.tailLt normal 1)
  obtain ⟨third, last⟩ := @blockDigits (c.i 2) 0 (c.tail 0) (IndexOffset.tailLt normal 0)
  have d3 : c.page / 512 ^ (2 + 1) = c.i 0 := first
  have m3 : c.page % 512 ^ (2 + 1) = c.tail 2 := rest
  have d2 : c.tail 2 / 512 ^ (1 + 1) = c.i 1 := second
  have m2 : c.tail 2 % 512 ^ (1 + 1) = c.tail 1 := rest'
  have d1 : c.tail 1 / 512 ^ (0 + 1) = c.i 2 := third
  have m1 : c.tail 1 % 512 ^ (0 + 1) = c.i 3 := last
  constructor
  · unfold entryOf reached
    simp only [entryBelow, d3, m3, d2, m2, d1, m1, walk]
    cases v.child v.pml4 (c.i 0) with
    | none => rfl
    | some t1 =>
      simp only [Option.bind_some]
      cases v.child t1 (c.i 1) with
      | none => rfl
      | some t2 =>
        simp only [Option.bind_some]
        cases v.child t2 (c.i 2) <;> rfl
  · simp only [pathTo, d3, m3, d2, m2, d1]

def Least (p : IndexOffset → Prop) (c : IndexOffset) : Prop := c.Normal ∧ p c ∧ ∀ d, d.Normal → p d → LexLe c d

/- Tables were added on the path to c only, so at most three of them. -/
structure AddedOnPath (v v' : VMM) (c : IndexOffset) : Prop extends Added v v' [c.i 0, c.i 1, c.i 2] where
  three : ∀ q, v.reached q = none → v'.reached q ≠ none → q ∈ [[c.i 0], [c.i 0, c.i 1], [c.i 0, c.i 1, c.i 2]]

theorem wantedIff {makes : Bool} {v : VMM} {c : IndexOffset} (normal : c.Normal) :
    Wanted makes v 3 v.pml4 c.page ↔ if makes then ¬ Mapped v c else NotPresent v c := by
  unfold Wanted Mapped NotPresent
  rw [(entryBelowPage v normal).1]
  cases makes with
  | false => simp
  | true =>
    cases v.entryOf c with
    | none => simp
    | some e => simp

theorem Finds.least {makes : Bool} {G : Nat → VMM → Prop} {v v' : VMM} {begin_ c : IndexOffset} {done : Bool}
    (normal : begin_.Normal) (finds : Finds makes G v 3 v.pml4 begin_ v' c done) :
    (done = true ↔ ∃ d, d.Normal ∧ LexLe begin_ d ∧ if makes then ¬ Mapped v d else NotPresent v d) ∧
      (done = true → Least (fun d => LexLe begin_ d ∧ if makes then ¬ Mapped v d else NotPresent v d) c) := by
  have least : done = true →
      Least (fun d => LexLe begin_ d ∧ if makes then ¬ Mapped v d else NotPresent v d) c := by
    intro success
    obtain ⟨⟨onward, wanted, between⟩, -⟩ := finds.first success
    refine ⟨finds.normal, ⟨(lexLeIff normal finds.normal).mpr onward, (wantedIff finds.normal).mp wanted⟩, ?_⟩
    rintro d normal' ⟨later, free⟩
    rw [lexLeIff finds.normal normal']
    by_contra before
    exact between d.page ((lexLeIff normal normal').mp later) (Nat.not_le.mp before) ((wantedIff normal').mpr free)
  refine ⟨⟨fun success => ?_, fun ⟨d, normal', later, free⟩ => ?_⟩, least⟩
  · obtain ⟨normal', ⟨later, free⟩, -⟩ := least success
    exact ⟨c, normal', later, free⟩
  · by_contra failed
    exact (finds.failed (Bool.eq_false_of_not_eq_true failed)).2.2 d.page ((lexLeIff normal normal').mp later)
      (IndexOffset.tailLt normal' 3) ((wantedIff normal').mpr free)

theorem Added.onPath {v v' : VMM} {c : IndexOffset} (added : Added v v' [c.i 0, c.i 1, c.i 2]) : AddedOnPath v v' c := by
  refine ⟨added, fun q before after => ?_⟩
  obtain ⟨t, there⟩ := Option.ne_none_iff_exists'.mp after
  have shape := (added.made q t before there).1
  have some : q ≠ [] := by
    rintro rfl
    cases before
  obtain ⟨rest, whole⟩ := shape
  match q, some, whole with
  | [a], _, whole => simp_all
  | [a, b], _, whole => simp_all
  | [a, b, d], _, whole => simp_all
  | a :: b :: d :: e :: more, _, whole => simp at whole

/-- On every tree of four levels: with NO_ALLOC the search finds the least unmapped page, from begin on, of the
tables that are there, and changes nothing. With USE_PMM and new frames it finds the least page that is not
mapped, and makes the tables missing on the way to that page only. -/
theorem firstUnallocPage {HHDMOffset fuel : Nat} {v : VMM} {begin_ : IndexOffset} (formed : FourLevel v)
    (normal : begin_.Normal) (deep : 4 ≤ fuel) :
    (∃ c done, v.getFirstUnallocPageUtil HHDMOffset fuel begin_ .NO_ALLOC v.pml4 = some (v, c, done) ∧
      (done = true ↔ ∃ d, d.Normal ∧ LexLe begin_ d ∧ NotPresent v d) ∧
      (done = true → Least (fun d => LexLe begin_ d ∧ NotPresent v d) c)) ∧
    (FreshFrames v 3 → ∃ v' c done,
      v.getFirstUnallocPageUtil HHDMOffset fuel begin_ .USE_PMM v.pml4 = some (v', c, done) ∧
      (done = true ↔ ∃ d, d.Normal ∧ LexLe begin_ d ∧ ¬ Mapped v d) ∧
      (done = true → Least (fun d => LexLe begin_ d ∧ ¬ Mapped v d) c ∧ AddedOnPath v v' c) ∧
      (done = false → v' = v)) := by
  constructor
  · obtain ⟨v', c, done, ran, finds⟩ := @searchUtilFinds HHDMOffset fuel none (fun _ v' => v' = v) v [] v.pml4 3 begin_
      deep formed normal rfl rfl (fun s _ first => servedPresent (wantedPresent first.2.1) rfl)
    obtain ⟨exact_, least⟩ := finds.least normal
    have stays : v' = v := by
      cases done with
      | false => exact (finds.failed rfl).1
      | true => exact (finds.first rfl).2
    subst stays
    exact ⟨c, done, ran, exact_, least⟩
  · intro fresh
    obtain ⟨v', c, done, ran, finds⟩ := @searchUtilFinds HHDMOffset fuel (some (fun v => some v.takeTableFrames))
      (fun s v' => Extended HHDMOffset 3 v v.pml4 s v') v [] v.pml4 3 begin_ deep formed normal rfl rfl
      (fun s high _ => freshServed formed rfl rfl high fresh (fun _ extended => extended))
    obtain ⟨exact_, least⟩ := finds.least normal
    refine ⟨v', c, done, ran, exact_, fun success => ⟨least success, ?_⟩, fun failed => (finds.failed failed).1⟩
    have added := @extendedAdded HHDMOffset 3 v v' [] v.pml4 c.page formed rfl rfl (IndexOffset.tailLt finds.normal 3)
      fresh (finds.first success).2
    rw [(entryBelowPage v finds.normal).2, List.nil_append] at added
    exact added.onPath

theorem reachedTable {v : VMM} {q : List Nat} {t : Nat} (found : v.reached q = some t) :
    v.tableAt q = some t := by
  induction q using List.reverseRecOn generalizing t with
  | nil => exact found
  | append_singleton q i ih =>
    unfold reached at found
    rw [walkSnoc] at found
    obtain ⟨u, there, linked⟩ := Option.bind_eq_some_iff.mp found
    have before := ih there
    unfold tableAt at before ⊢
    rw [walkSnoc, before]
    unfold child at linked
    split at linked
    · exact linked
    · cases linked

theorem WellTagged.fourLevel {v : VMM} (tagged : WellTagged v) : FourLevel v :=
  ⟨fun q t found => tagged.tag q t (reachedTable found),
    fun q t i found inner _ present => (tagged.linked q t i (reachedTable found) inner).mp present,
    fun p q t first second => tagged.proper p q t (reachedTable first) (reachedTable second)⟩

def framesFree (v : VMM) (n : Nat) : Bool :=
  (List.range n).all (fun k => !v.pmm.used (tableFrame v.pmm k / frameSize)) &&
    decide ((List.range n).map (tableFrame v.pmm)).Nodup

theorem WellTagged.freshFrames {v : VMM} {n : Nat} (tagged : WellTagged v) (free : framesFree v n = true) :
    FreshFrames v n := by
  obtain ⟨clear, apart⟩ := Bool.and_eq_true_iff.mp free
  refine ⟨fun k low q found => ?_, fun j k less low same => ?_⟩
  · have taken := (tagged.held q _ (reachedTable found)).2.1
    have here := List.all_eq_true.mp clear k (List.mem_range.mpr low)
    rw [taken] at here
    contradiction
  · have equal := (List.nodup_map_iff_inj_on List.nodup_range).mp (of_decide_eq_true apart) j
      (List.mem_range.mpr (by omega)) k (List.mem_range.mpr low) same
    omega

/- Right after boot, far from all tables: three new ones, and the page begin itself. -/
theorem firstUnallocPageBoot : ∃ v₀ v', smallBoot = some v₀ ∧ FourLevel v₀ ∧ FreshFrames v₀ 3 ∧
    v₀.getFirstUnallocPageUtil 0xffff800000000000 4 ⟨100, 0, 0, 0⟩ .USE_PMM v₀.pml4 =
      some (v', ⟨100, 0, 0, 0⟩, true) ∧ AddedOnPath v₀ v' ⟨100, 0, 0, 0⟩ := by
  have calls : smallBoot.map (fun v => (v.refused, framesFree v 3)) = some (0, true) := by decide +kernel
  have search : (smallBoot.bind fun v =>
      v.getFirstUnallocPageUtil 0xffff800000000000 4 ⟨100, 0, 0, 0⟩ .USE_PMM v.pml4).map Prod.snd =
        some (⟨100, 0, 0, 0⟩, true) := by decide +kernel
  obtain ⟨v₀, booted, facts⟩ := Option.map_eq_some_iff.mp calls
  simp only [Prod.mk.injEq] at facts
  obtain ⟨served, free⟩ := facts
  rw [booted] at search
  obtain ⟨⟨v', c, done⟩, ran, found⟩ := Option.map_eq_some_iff.mp search
  simp only [Prod.mk.injEq] at found
  obtain ⟨rfl, rfl⟩ := found
  have tagged := (initKept booted served).1
  have fresh := tagged.freshFrames free
  have normal : (⟨100, 0, 0, 0⟩ : IndexOffset).Normal :=
    IndexOffset.normalMk (by omega) (by omega) (by omega) (by omega)
  obtain ⟨v'', c, done, again, -, success, -⟩ :=
    (@firstUnallocPage 0xffff800000000000 4 v₀ _ tagged.fourLevel normal (by omega)).2 fresh
  rw [Option.bind_some] at ran
  cases Option.some.inj (ran.symm.trans again)
  exact ⟨v₀, v', booted, tagged.fourLevel, fresh, ran, (success rfl).2⟩

end VMM
end DimOS.Memory.Vmm
