import Mathlib
import DimOS.Memory.VmmGrowth

/-! The search for an unmapped page. Below a table the leaf entries are numbered in page order;
the search returns the first number, from its start on, whose entry is there and not present.
With NO_ALLOC a missing table is passed over, otherwise it is made on the way. One spec
serves the loop, the recursion and all schemes. -/
namespace DimOS.Memory.Vmm
open Pmm
open Paging
open Lib.PathTree

namespace VMM

/- What the search relies on: unless the PMM refused, the place is good for a table. -/
structure Sound (place : Place) : Prop where
  refused : ∀ obtain_ v v' paddr, place = some obtain_ → obtain_ v = some (v', paddr) →
    v.refused ≤ v'.refused
  placed : ∀ obtain_ v v' paddr, place = some obtain_ → obtain_ v = some (v', paddr) → WellTagged v →
    v'.refused = v.refused → Placed v v' paddr

/- Entry s among those k levels below the table at q, in page order. -/
def slot (v : VMM) (q : List Nat) : Nat → Nat → Option Entry
  | 0, s => v.leaf q s
  | k + 1, s => slot v (q ++ [s / 512 ^ (k + 1)]) k (s % 512 ^ (k + 1))

def Unmapped (v : VMM) (q : List Nat) (k s : Nat) : Prop :=
  ∃ e, v.slot q k s = some e ∧ e.isPresent = false

/- A number the search does not return: mapped, or without a table under NO_ALLOC. -/
def Passed (place : Place) (v : VMM) (q : List Nat) (k s : Nat) : Prop :=
  (∃ e, v.slot q k s = some e ∧ e.isPresent = true) ∨ (place = none ∧ v.slot q k s = none)

theorem slotLeaf (q : List Nat) (k s : Nat) :
    ∃ q' j, q'.length = q.length + k ∧ ∀ v : VMM, v.slot q k s = v.leaf q' j := by
  induction k generalizing q s with
  | zero => exact ⟨q, s, rfl, fun _ => rfl⟩
  | succ k ih =>
    obtain ⟨q', j, length, same⟩ := ih (q ++ [s / 512 ^ (k + 1)]) (s % 512 ^ (k + 1))
    rw [List.length_append, List.length_singleton] at length
    exact ⟨q', j, by omega, same⟩

theorem slotMissing {v : VMM} {q : List Nat} (missing : v.tableAt q = none) (k s : Nat) :
    v.slot q k s = none := by
  induction k generalizing q s with
  | zero =>
    rw [slot, leaf, missing]
    rfl
  | succ k ih =>
    refine ih ?_ _
    unfold tableAt at missing ⊢
    rw [walkSnoc, missing]
    rfl

theorem slotStep (v : VMM) (q : List Nat) {i k s : Nat} (inside : s < 512 ^ (k + 1)) :
    v.slot q (k + 1) (i * 512 ^ (k + 1) + s) = v.slot (q ++ [i]) k s := by
  have quotient : (i * 512 ^ (k + 1) + s) / 512 ^ (k + 1) = i := by
    rw [Nat.add_comm, Nat.add_mul_div_right _ _ (by positivity), Nat.div_eq_of_lt inside, Nat.zero_add]
  have remainder : (i * 512 ^ (k + 1) + s) % 512 ^ (k + 1) = s := by
    rw [Nat.add_comm, Nat.add_mul_mod_self_right, Nat.mod_eq_of_lt inside]
  rw [slot, quotient, remainder]

theorem Grows.present {v v' : VMM} (grows : Grows v v') {q : List Nat} {i : Nat} (last : q.length = 3)
    (before : ∃ e, v.leaf q i = some e ∧ e.isPresent = true) :
    ∃ e, v'.leaf q i = some e ∧ e.isPresent = true := by
  obtain ⟨e, read, present⟩ := before
  rcases grows.leaves q i last with same | ⟨missing, -⟩ | ⟨e', written, new⟩
  · exact ⟨e, same.trans read, present⟩
  · rw [missing] at read
    contradiction
  · obtain ⟨_, _, _, _, maps⟩ := new
    exact ⟨e', written, maps.1⟩

theorem enterStays {HHDMOffset : Nat} {v v' : VMM} {t i level : Nat} {original : IndexOffset}
    {o : Option Nat} (ok : enter HHDMOffset none v t i level original = some (v', o)) : v' = v := by
  unfold enter at ok
  split at ok
  · split at ok
    · contradiction
    · cases Option.some.inj ok
      rfl
  · cases Option.some.inj ok
    rfl

theorem searchTableStays {HHDMOffset t level : Nat} {original : IndexOffset}
    {descend : VMM → IndexOffset → Nat → Option (VMM × IndexOffset × Bool)}
    (stays : ∀ v curr t v' c done, descend v curr t = some (v', c, done) → v' = v)
    {left : Nat} {v v' : VMM} {curr c : IndexOffset} {done : Bool}
    (ok : searchTable HHDMOffset none descend t level original left v curr = some (v', c, done)) :
    v' = v := by
  induction left generalizing v curr with
  | zero =>
    cases Option.some.inj ok
    rfl
  | succ left ih =>
    simp only [searchTable] at ok
    split at ok
    · split at ok
      · cases Option.some.inj ok
        rfl
      · exact ih ok
    · split at ok
      · contradiction
      · next v1 entered => exact (ih ok).trans (enterStays entered)
      · next v1 next entered =>
        split at ok
        · contradiction
        · next v2 c2 descended =>
          cases Option.some.inj ok
          exact (stays _ _ _ _ _ _ descended).trans (enterStays entered)
        · next v2 c2 descended =>
          exact ((ih ok).trans (stays _ _ _ _ _ _ descended)).trans (enterStays entered)

theorem searchUtilStays {HHDMOffset depth : Nat} {v v' : VMM} {curr c : IndexOffset} {t : Nat}
    {done : Bool} (ok : searchUtil HHDMOffset none depth v curr t = some (v', c, done)) : v' = v := by
  induction depth generalizing v curr t v' c done with
  | zero => contradiction
  | succ depth ih => exact searchTableStays (fun _ _ _ _ _ _ descended => ih descended) ok

theorem enterRefused {HHDMOffset : Nat} {place : Place} (sound : Sound place) {v v' : VMM}
    {t i level : Nat} {original : IndexOffset} {o : Option Nat}
    (ok : enter HHDMOffset place v t i level original = some (v', o)) : v.refused ≤ v'.refused := by
  unfold enter at ok
  split at ok
  · split at ok
    · contradiction
    · cases Option.some.inj ok
      exact Nat.le_refl _
  · split at ok
    · cases Option.some.inj ok
      exact Nat.le_refl _
    · split at ok
      · contradiction
      · next v1 paddr obtained =>
        cases Option.some.inj ok
        rw [(addTableRoot HHDMOffset v1 t i level original paddr).2.2]
        exact sound.refused _ _ _ _ rfl obtained

theorem searchTableRefused {HHDMOffset t level : Nat} {place : Place} (sound : Sound place)
    {original : IndexOffset} {descend : VMM → IndexOffset → Nat → Option (VMM × IndexOffset × Bool)}
    (below : ∀ v curr t v' c done, descend v curr t = some (v', c, done) → v.refused ≤ v'.refused)
    {left : Nat} {v v' : VMM} {curr c : IndexOffset} {done : Bool}
    (ok : searchTable HHDMOffset place descend t level original left v curr = some (v', c, done)) :
    v.refused ≤ v'.refused := by
  induction left generalizing v curr with
  | zero =>
    cases Option.some.inj ok
    exact Nat.le_refl _
  | succ left ih =>
    simp only [searchTable] at ok
    split at ok
    · split at ok
      · cases Option.some.inj ok
        exact Nat.le_refl _
      · exact ih ok
    · split at ok
      · contradiction
      · next v1 entered => exact (enterRefused sound entered).trans (ih ok)
      · next v1 next entered =>
        split at ok
        · contradiction
        · next v2 c2 descended =>
          cases Option.some.inj ok
          exact (enterRefused sound entered).trans (below _ _ _ _ _ _ descended)
        · next v2 c2 descended =>
          exact (enterRefused sound entered).trans ((below _ _ _ _ _ _ descended).trans (ih ok))

theorem searchUtilRefused {HHDMOffset depth : Nat} {place : Place} (sound : Sound place) {v v' : VMM}
    {curr c : IndexOffset} {t : Nat} {done : Bool}
    (ok : searchUtil HHDMOffset place depth v curr t = some (v', c, done)) :
    v.refused ≤ v'.refused := by
  induction depth generalizing v curr t v' c done with
  | zero => contradiction
  | succ depth ih => exact searchTableRefused sound (fun _ _ _ _ _ _ descended => ih descended) ok

/- The outcome of a search from start below the table at q, k levels above the leaves. -/
structure Searched (place : Place) (v v' : VMM) (q : List Nat) (k : Nat) (start c : IndexOffset)
    (done : Bool) : Prop where
  tagged : WellTagged v'
  grows : Grows v v'
  normal : c.Normal
  above : ∀ j, j < 3 - k → c.i j = start.i j
  kept : done = false → c.i (3 - k) = start.i (3 - k)
  found : done = true → start.tail k ≤ c.tail k ∧ Unmapped v' q k (c.tail k)
  passed : ∀ s, start.tail k ≤ s → s < (if done then c.tail k else 512 ^ (k + 1)) →
    Passed place v' q k s

theorem Passed.mono {place : Place} {v v' : VMM} {q : List Nat} {k s : Nat} (depth : q.length + k = 3)
    (stays : place = none → v' = v) (grows : Grows v v') (passed : Passed place v q k s) :
    Passed place v' q k s := by
  obtain ⟨q', j, length, same⟩ := slotLeaf q k s
  rcases passed with present | ⟨none_, missing⟩
  · rw [same] at present
    refine .inl ?_
    rw [same]
    exact grows.present (by omega) present
  · rw [stays none_]
    exact .inr ⟨none_, missing⟩

theorem enterSpec {HHDMOffset : Nat} {place : Place} (sound : Sound place) {v v' : VMM} {q : List Nat}
    {t i level : Nat} {original : IndexOffset} {o : Option Nat} (tagged : WellTagged v)
    (found : v.tableAt q = some t) (depth : q.length = level) (inner : level < 3)
    (ok : enter HHDMOffset place v t i level original = some (v', o)) (served : v'.refused = v.refused) :
    WellTagged v' ∧ Grows v v' ∧ v'.tableAt (q ++ [i]) = o ∧ (o = none → place = none) := by
  have below : v.tableAt (q ++ [i]) = (v.mem t).nextTables i := by
    unfold tableAt at found ⊢
    rw [walkSnoc, found]
    rfl
  have linked := tagged.linked q t i found (by omega)
  unfold enter at ok
  split at ok
  · split at ok
    · contradiction
    · next next_ there =>
      cases Option.some.inj ok
      exact ⟨tagged, Grows.refl v, by rw [below, there], fun never => (by cases never)⟩
  · next absent =>
    have free : (v.mem t).nextTables i = none := by
      by_contra there
      exact absent (linked.mpr there)
    split at ok
    · cases Option.some.inj ok
      exact ⟨tagged, Grows.refl v, by rw [below, free], fun _ => rfl⟩
    · split at ok
      · contradiction
      · next v1 paddr obtained =>
        cases Option.some.inj ok
        rw [(addTableRoot HHDMOffset v1 t i level original paddr).2.2] at served
        have placed := sound.placed _ _ _ _ rfl obtained tagged served
        obtain ⟨tagged', grows, there⟩ :=
          @Placed.grow HHDMOffset v v1 q t i level paddr original placed found depth inner free
        exact ⟨tagged', grows, there, fun never => (by cases never)⟩

theorem searchLastSpec {HHDMOffset : Nat} {place : Place} {v v' : VMM} {q : List Nat} {t left : Nat}
    {original start c : IndexOffset} {done : Bool}
    {descend : VMM → IndexOffset → Nat → Option (VMM × IndexOffset × Bool)} (tagged : WellTagged v)
    (found : v.tableAt q = some t) (normal : start.Normal) (reached : start.i 3 ≤ 512 - left)
    (few : left ≤ 512) (passed : ∀ s, start.tail 0 ≤ s → s < 512 - left → Passed place v q 0 s)
    (ok : searchTable HHDMOffset place descend t 3 original left v start = some (v', c, done)) :
    Searched place v v' q 0 start c done := by
  induction left with
  | zero =>
    cases Option.some.inj ok
    exact ⟨tagged, Grows.refl v, normal, fun _ _ => rfl, fun _ => rfl, fun never => (by cases never),
      fun s low high => passed s low (by simpa using high)⟩
  | succ left ih =>
    have entry : v.slot q 0 (512 - (left + 1)) = some ((v.mem t).entries (512 - (left + 1))) := by
      rw [slot, leaf, found]
      rfl
    have stays : (if entriesPerTable - (left + 1) > start.i 3 then start.clearBelow 3 else start) = start :=
      ite_self start
    simp only [searchTable, stays, if_true] at ok
    split at ok
    · next absent =>
      cases Option.some.inj ok
      have index : (start.set 3 (entriesPerTable - (left + 1))).tail 0 = 512 - (left + 1) := by
        rw [IndexOffset.tail, IndexOffset.setAt _ _ (by omega) (by omega), if_pos rfl]
        rfl
      refine ⟨tagged, Grows.refl v,
        IndexOffset.normalSet normal (show 512 - (left + 1) < 512 by omega) (by omega), ?_, fun never => (by cases never), ?_, ?_⟩
      · intro j high
        rw [IndexOffset.setAt _ _ (by omega) (by omega), if_neg (by omega)]
      · intro _
        rw [index]
        exact ⟨reached, _, entry, by simpa [entriesPerTable, entryCnt] using absent⟩
      · intro s low high
        rw [if_pos rfl, index] at high
        exact passed s low high
    · next present =>
      refine ih (by omega) (by omega) ?_ ok
      intro s low high
      by_cases here : s = 512 - (left + 1)
      · subst here
        exact .inl ⟨_, entry, by simpa [entriesPerTable, entryCnt] using present⟩
      · exact passed s low (by omega)

theorem roundStart {start curr : IndexOffset} {k i : Nat} (shallow : k ≤ 2) (normal : start.Normal)
    (normal' : curr.Normal) (same : ∀ j, j ≤ 2 - k → curr.i j = start.i j)
    (first : i = start.i (2 - k) → curr = start) (reached : start.i (2 - k) ≤ i) :
    let next := if i > curr.i (2 - k) then curr.clearBelow (2 - k) else curr
    next.Normal ∧ (∀ j, j ≤ 2 - k → next.i j = start.i j) ∧
      start.tail (k + 1) ≤ i * 512 ^ (k + 1) + next.tail k ∧
      ∀ s, start.tail (k + 1) ≤ s → s < i * 512 ^ (k + 1) + next.tail k → s < i * 512 ^ (k + 1) := by
  rw [same _ (Nat.le_refl _)]
  by_cases later : i > start.i (2 - k)
  · have zero := IndexOffset.tailClear curr (show 2 - k < 3 - k by omega)
    have small := IndexOffset.tailLt normal k
    have scaled : (start.i (2 - k) + 1) * 512 ^ (k + 1) ≤ i * 512 ^ (k + 1) :=
      Nat.mul_le_mul_right _ (by omega)
    simp only [if_pos later, zero, IndexOffset.tail]
    rw [Nat.add_mul, Nat.one_mul] at scaled
    refine ⟨IndexOffset.normalClear normal' _, fun j high => ?_, by omega, fun s low high => by omega⟩
    rw [IndexOffset.clearBelowAt _ (by omega), if_neg (by omega)]
    exact same j high
  · have here : i = start.i (2 - k) := by omega
    have begin_ := first here
    subst begin_
    simp only [if_neg later, IndexOffset.tail]
    rw [here]
    exact ⟨normal, fun _ _ => trivial, Nat.le_refl _, fun s low high => by omega⟩

theorem Searched.up {place : Place} {v v1 v' : VMM} {q : List Nat} {k i : Nat}
    {start next c : IndexOffset} (shallow : k ≤ 2) (depth : q.length = 2 - k)
    (inside : i < 512) (above : ∀ j, j ≤ 2 - k → next.i j = start.i j)
    (low : start.tail (k + 1) ≤ i * 512 ^ (k + 1) + next.tail k)
    (before : ∀ s, start.tail (k + 1) ≤ s → s < i * 512 ^ (k + 1) + next.tail k →
      Passed place v q (k + 1) s)
    (stays : place = none → v' = v) (grows : Grows v v1)
    (sub : Searched place v1 v' (q ++ [i]) k next c true) :
    Searched place v v' q (k + 1) start (c.set (2 - k) i) true := by
  have whole := grows.trans sub.grows
  have tail : (c.set (2 - k) i).tail (k + 1) = i * 512 ^ (k + 1) + c.tail k := by
    rw [IndexOffset.tail, IndexOffset.setAt _ _ (by omega) (by omega), if_pos rfl]
    congr 1
    refine IndexOffset.tailCongr (fun j low high => ?_)
    rw [IndexOffset.setAt _ _ (by omega) high, if_neg (by omega)]
  have room := IndexOffset.tailLt sub.normal k
  obtain ⟨onward, unmapped⟩ := sub.found rfl
  refine ⟨sub.tagged, whole, IndexOffset.normalSet sub.normal inside (by omega), ?_, fun never => (by cases never), ?_, ?_⟩
  · intro j high
    rw [IndexOffset.setAt _ _ (by omega) (by omega), if_neg (by omega), sub.above j (by omega)]
    exact above j (by omega)
  · intro _
    rw [tail]
    refine ⟨by omega, ?_⟩
    rw [Unmapped, slotStep _ _ room]
    exact unmapped
  · intro s lower upper
    rw [if_pos rfl, tail] at upper
    by_cases earlier : s < i * 512 ^ (k + 1) + next.tail k
    · exact (before s lower earlier).mono (by omega) stays whole
    · have split_ : s = i * 512 ^ (k + 1) + (s - i * 512 ^ (k + 1)) := by omega
      rw [split_, Passed, slotStep _ _ (by omega)]
      exact sub.passed _ (by omega) (by rw [if_pos rfl]; omega)

theorem Searched.on {place : Place} {v v1 v' : VMM} {q : List Nat} {k i : Nat}
    {start next c : IndexOffset} (depth : q.length = 2 - k) (shallow : k ≤ 2)
    (before : ∀ s, start.tail (k + 1) ≤ s → s < i * 512 ^ (k + 1) + next.tail k →
      Passed place v q (k + 1) s)
    (stays : place = none → v' = v) (grows : Grows v v1)
    (sub : Searched place v1 v' (q ++ [i]) k next c false) :
    ∀ s, start.tail (k + 1) ≤ s → s < (i + 1) * 512 ^ (k + 1) → Passed place v' q (k + 1) s := by
  intro s lower upper
  rw [Nat.add_mul, Nat.one_mul] at upper
  by_cases earlier : s < i * 512 ^ (k + 1) + next.tail k
  · exact (before s lower earlier).mono (by omega) stays (grows.trans sub.grows)
  · have split_ : s = i * 512 ^ (k + 1) + (s - i * 512 ^ (k + 1)) := by omega
    rw [split_, Passed, slotStep _ _ (by omega)]
    exact sub.passed _ (by omega) (by simp only [Bool.false_eq_true, if_false]; omega)

structure Descends (place : Place) (q : List Nat) (k : Nat)
    (descend : VMM → IndexOffset → Nat → Option (VMM × IndexOffset × Bool)) : Prop where
  refused : ∀ v curr t v' c done, descend v curr t = some (v', c, done) → v.refused ≤ v'.refused
  stays : ∀ v curr t v' c done, place = none → descend v curr t = some (v', c, done) → v' = v
  searched : ∀ v curr t v' c done i, descend v curr t = some (v', c, done) → v'.refused = v.refused →
    WellTagged v → curr.Normal → v.tableAt (q ++ [i]) = some t →
    Searched place v v' (q ++ [i]) k curr c done

theorem searchInnerSpec {HHDMOffset : Nat} {place : Place} (sound : Sound place) {v v' : VMM}
    {q : List Nat} {t k left : Nat} {original start curr c : IndexOffset} {done : Bool}
    {descend : VMM → IndexOffset → Nat → Option (VMM × IndexOffset × Bool)}
    (shallow : k ≤ 2) (depth : q.length = 2 - k) (below : Descends place q k descend)
    (tagged : WellTagged v) (found : v.tableAt q = some t) (normal : start.Normal)
    (normal' : curr.Normal) (same : ∀ j, j ≤ 2 - k → curr.i j = start.i j)
    (first : 512 - left = start.i (2 - k) → curr = start) (reached : start.i (2 - k) ≤ 512 - left)
    (few : left ≤ 512)
    (passed : ∀ s, start.tail (k + 1) ≤ s → s < (512 - left) * 512 ^ (k + 1) →
      Passed place v q (k + 1) s)
    (ok : searchTable HHDMOffset place descend t (2 - k) original left v curr = some (v', c, done))
    (served : v'.refused = v.refused) : Searched place v v' q (k + 1) start c done := by
  have level : 3 - (k + 1) = 2 - k := by omega
  induction left generalizing v curr with
  | zero =>
    cases Option.some.inj ok
    refine ⟨tagged, Grows.refl _, normal', fun j high => same j (by omega), fun _ => ?_, fun never => (by cases never), ?_⟩
    · rw [level]
      exact same _ (Nat.le_refl _)
    · intro s low high
      refine passed s low ?_
      rw [pow_succ 512 (k + 1)] at high
      simp only [Bool.false_eq_true, if_false] at high
      omega
  | succ left ih =>
    simp only [searchTable, show ¬ 2 - k = 3 by omega, if_false] at ok
    obtain ⟨normal1, same1, low1, before⟩ := roundStart shallow normal normal' same first reached
    have width : entriesPerTable - (left + 1) = 512 - (left + 1) := rfl
    have step : 512 - left = 512 - (left + 1) + 1 := by omega
    rw [width] at ok
    split at ok
    · contradiction
    · next v1 entered =>
      have up := enterRefused sound entered
      have up' := searchTableRefused sound below.refused ok
      obtain ⟨tagged1, grows1, missing, only⟩ :=
        enterSpec sound tagged found depth (by omega) entered (by omega)
      have none_ := only rfl
      subst none_
      cases enterStays entered
      refine ih tagged found normal1 same1 (fun begin_ => by omega) (by omega) (by omega) ?_ ok served
      intro s low high
      by_cases earlier : s < (512 - (left + 1)) * 512 ^ (k + 1)
      · exact passed s low earlier
      · rw [step, Nat.add_mul, Nat.one_mul] at high
        have split_ : s = (512 - (left + 1)) * 512 ^ (k + 1) + (s - (512 - (left + 1)) * 512 ^ (k + 1)) := by
          omega
        rw [split_, Passed, slotStep _ _ (by omega)]
        exact .inr ⟨rfl, slotMissing missing _ _⟩
    · next v1 next_ entered =>
      have up := enterRefused sound entered
      split at ok
      · contradiction
      · next v2 c2 descended =>
        cases Option.some.inj ok
        have up' := below.refused _ _ _ _ _ _ descended
        obtain ⟨tagged1, grows1, there, -⟩ :=
          enterSpec sound tagged found depth (by omega) entered (by omega)
        have sub := below.searched _ _ _ _ _ _ _ descended (by omega) tagged1 normal1 there
        refine sub.up shallow depth (by omega) same1 low1
          (fun s low high => passed s low (before s low high)) ?_ grows1
        rintro rfl
        exact (below.stays _ _ _ _ _ _ rfl descended).trans (enterStays entered)
      · next v2 c2 descended =>
        have up' := below.refused _ _ _ _ _ _ descended
        have up'' := searchTableRefused sound below.refused ok
        obtain ⟨tagged1, grows1, there, -⟩ :=
          enterSpec sound tagged found depth (by omega) entered (by omega)
        have sub := below.searched _ _ _ _ _ _ _ descended (by omega) tagged1 normal1 there
        have stays : place = none → v2 = v := by
          rintro rfl
          exact (below.stays _ _ _ _ _ _ rfl descended).trans (enterStays entered)
        have grows2 := grows1.trans sub.grows
        have rest := ih sub.tagged (grows2.tables q t found) sub.normal
          (fun j high => (sub.above j (by omega)).trans (same1 j high)) (fun begin_ => by omega)
          (by omega) (by omega) ?_ ok (by omega)
        · exact ⟨rest.tagged, grows2.trans rest.grows, rest.normal, rest.above, rest.kept, rest.found,
            rest.passed⟩
        · rw [step]
          exact sub.on depth shallow (fun s low high => passed s low (before s low high)) stays grows1

theorem searchUtilSpec {HHDMOffset depth : Nat} {place : Place} (sound : Sound place) {v v' : VMM}
    {q : List Nat} {t k : Nat} {curr c : IndexOffset} {done : Bool}
    (ok : searchUtil HHDMOffset place depth v curr t = some (v', c, done))
    (served : v'.refused = v.refused) (tagged : WellTagged v) (normal : curr.Normal)
    (found : v.tableAt q = some t) (height : q.length + k = 3) :
    Searched place v v' q k curr c done := by
  induction depth generalizing v curr t v' c done q k with
  | zero => contradiction
  | succ depth ih =>
    have level : (v.mem t).getLevel = 3 - k := by
      rw [tagged.tag q t found]
      omega
    have digit := normal (3 - k) (by omega)
    have index : 512 - (entriesPerTable - curr.i (3 - k)) = curr.i (3 - k) := by
      show 512 - (512 - curr.i (3 - k)) = _
      omega
    have few : entriesPerTable - curr.i (3 - k) ≤ 512 := Nat.sub_le _ _
    simp only [searchUtil, level] at ok
    cases k with
    | zero =>
      refine searchLastSpec tagged found normal (by rw [index]) few ?_ ok
      intro s low high
      rw [index] at high
      exact absurd (show curr.i 3 ≤ s from low) (Nat.not_le.mpr high)
    | succ k =>
      have same : 3 - (k + 1) = 2 - k := by omega
      rw [same] at ok index few
      refine searchInnerSpec sound (by omega) (by omega) ⟨?_, ?_, ?_⟩ tagged found normal normal
        (fun _ _ => rfl) (fun _ => rfl) (by rw [index]) few ?_ ok served
      · exact fun _ _ _ _ _ _ descended => searchUtilRefused sound descended
      · rintro _ _ _ _ _ _ rfl descended
        exact searchUtilStays descended
      · intro v1 curr1 t1 v2 c2 done2 i descended served1 tagged1 normal1 found1
        exact ih descended served1 tagged1 normal1 found1
          (by rw [List.length_append, List.length_singleton]; omega)
      · intro s low high
        rw [index] at high
        rw [IndexOffset.tail] at low
        omega

def leafAt (v : VMM) (p : Nat) : Option Entry := v.slot [] 3 p

theorem leafAtCongr {v v' : VMM} (memory : v'.mem = v.mem) (root : v'.pml4 = v.pml4) (p : Nat) :
    v'.leafAt p = v.leafAt p := by
  obtain ⟨q, j, -, same⟩ := slotLeaf [] 3 p
  rw [leafAt, leafAt, same, same, leafCongr memory root]

theorem leafAtPage (v : VMM) {c : IndexOffset} (normal : c.Normal) :
    v.leafAt c.page = v.leaf [c.i 0, c.i 1, c.i 2] (c.i 3) := by
  obtain ⟨a, b, d, e⟩ := IndexOffset.normalDigits normal
  have page : c.page = c.i 0 * 512 ^ 3 + (c.i 1 * 512 ^ 2 + (c.i 2 * 512 ^ 1 + c.i 3)) := by
    rw [IndexOffset.pageEq]
    omega
  rw [leafAt, page, slotStep _ _ (by omega), slotStep _ _ (by omega), slotStep _ _ (by omega)]
  rfl

theorem searchPageSpec {HHDMOffset fuel : Nat} {place : Place} (sound : Sound place) {v v' : VMM}
    {begin_ c : IndexOffset} (ok : searchPage HHDMOffset fuel place v begin_ = some (v', c))
    (served : v'.refused = v.refused) (tagged : WellTagged v) (normal : begin_.Normal) :
    WellTagged v' ∧ Grows v v' ∧ c.Normal ∧
      ((begin_.page ≤ c.page ∧ Unmapped v' [] 3 c.page ∧
          ∀ p, begin_.page ≤ p → p < c.page → Passed place v' [] 3 p) ∨
        (c = ⟨0, 0, 0, 0⟩ ∧ ∀ p, begin_.page ≤ p → p < 2 ^ 36 → Passed place v' [] 3 p)) := by
  unfold searchPage at ok
  split at ok
  · contradiction
  · next v1 c1 searched =>
    cases Option.some.inj ok
    have spec := @searchUtilSpec HHDMOffset fuel place sound v _ [] v.pml4 3 begin_ _ _ searched
      served tagged normal rfl rfl
    exact ⟨spec.tagged, spec.grows, spec.normal, .inl ⟨(spec.found rfl).1, (spec.found rfl).2, spec.passed⟩⟩
  · next v1 c1 searched =>
    cases Option.some.inj ok
    have spec := @searchUtilSpec HHDMOffset fuel place sound v _ [] v.pml4 3 begin_ _ _ searched
      served tagged normal rfl rfl
    exact ⟨spec.tagged, spec.grows, IndexOffset.normalMk (by omega) (by omega) (by omega) (by omega),
      .inr ⟨rfl, spec.passed⟩⟩

theorem searchPageRefused {HHDMOffset fuel : Nat} {place : Place} (sound : Sound place) {v v' : VMM}
    {begin_ c : IndexOffset} (ok : searchPage HHDMOffset fuel place v begin_ = some (v', c)) :
    v.refused ≤ v'.refused := by
  unfold searchPage at ok
  split at ok
  · contradiction
  · next v1 c1 searched =>
    cases Option.some.inj ok
    exact searchUtilRefused sound searched
  · next v1 c1 searched =>
    cases Option.some.inj ok
    exact searchUtilRefused sound searched

theorem searchPageStays {HHDMOffset fuel : Nat} {v v' : VMM} {begin_ c : IndexOffset}
    (ok : searchPage HHDMOffset fuel none v begin_ = some (v', c)) : v' = v := by
  unfold searchPage at ok
  split at ok
  · contradiction
  · next v1 c1 searched =>
    cases Option.some.inj ok
    exact searchUtilStays searched
  · next v1 c1 searched =>
    cases Option.some.inj ok
    exact searchUtilStays searched

end VMM
end DimOS.Memory.Vmm
