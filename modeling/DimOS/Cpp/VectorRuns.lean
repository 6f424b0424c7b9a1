import Mathlib
import DimOS.Cpp.Vector
import DimOS.Cpp.Strings
import DimOS.Lib.Transition

/-! Vector against lists: what each operation does to the elements, the answers of find, and
both along a run of operations on any number of vectors. -/
namespace DimOS.Cpp.Vectors
open Lib.CountedLoop
open Lib.Transition

namespace Vector
variable {T : Type}

theorem swapSpec {i j : Nat} {data : List T} (first : i < data.length) (second : j < data.length) :
    ∃ data', swap i j data = some data' ∧ data'.length = data.length ∧
      ∀ k, data'[k]? = if k = j then data[i]? else if k = i then data[j]? else data[k]? := by
  have here : data[i]? = some data[i] := List.getElem?_eq_getElem first
  have there : data[j]? = some data[j] := List.getElem?_eq_getElem second
  refine ⟨(data.set i data[j]).set j data[i], by rw [swap, here, there]; rfl, by simp, ?_⟩
  intro k
  by_cases last : k = j
  · subst last
    rw [if_pos rfl, List.getElem?_set_self (by simpa using second), here]
  · rw [if_neg last, List.getElem?_set_ne (Ne.symm last)]
    by_cases same : k = i
    · subst same
      rw [if_pos rfl, List.getElem?_set_self first, there]
    · rw [if_neg same, List.getElem?_set_ne (Ne.symm same)]

theorem fillSpec {v : Vector T} (formed : v.WellFormed) (val : T) :
    ∃ w, v.fill val = some w ∧ w.WellFormed ∧ w.elements = List.replicate v.size val := by
  have storage := formed.storage
  have fits := formed.fits
  have word := formed.word
  obtain ⟨data, ran, filled⟩ := @fillLoopRun T (fun _ => some val) 0 v.size sizeLimit v.data
    (fun i _ _ => ⟨val, rfl⟩) (Nat.zero_le _) (by omega) (by omega)
  refine ⟨{ v with data := data }, by rw [fill, ran]; rfl,
    ⟨filled.length.trans storage, fits, word⟩, elementsEq List.length_replicate ?_⟩
  intro j inside
  change j < v.size at inside
  rw [List.getElem?_replicate, if_pos inside]
  exact filled.done j (Nat.zero_le j) inside

theorem popBackSpec {v : Vector T} (formed : v.WellFormed) (more : 0 < v.size) :
    ∃ w, v.popBack = some w ∧ w.WellFormed ∧ w.elements = v.elements.dropLast := by
  have fits := formed.fits
  refine ⟨{ v with size := v.size - 1 }, if_pos more, ⟨formed.storage, ?_, formed.word⟩, ?_⟩
  · exact (Nat.sub_le _ _).trans fits
  · rw [List.dropLast_eq_take, elementsLength formed, elements, elements, List.take_take,
      Nat.min_eq_left (Nat.sub_le _ _)]

theorem fastEraseSpec {v : Vector T} (formed : v.WellFormed) {pos : Nat} (inside : pos < v.size) :
    ∃ w, v.fastErase pos = some w ∧ w.WellFormed ∧
      w.elements = Containers.fastErase v.elements (some pos) := by
  have storage := formed.storage
  have fits := formed.fits
  have word := formed.word
  have length := elementsLength formed
  have hit : toSize pos = pos := toSizeNat (by omega)
  have last : toSize ((v.size : Int) - 1) = v.size - 1 := by
    rw [← toSizeNat (show v.size - 1 < sizeLimit by omega)]
    congr 1
    omega
  have named : (pos : Int) ≠ npos := by unfold npos; omega
  -- the swap with itself is left out, and changes nothing either
  obtain ⟨data, swapped, same, cells⟩ : ∃ data,
      (if toSize pos ≠ v.size - 1 then swap (toSize pos) (v.size - 1) v.data else some v.data) = some data ∧
      data.length = v.data.length ∧
      ∀ k, k < v.size - 1 → data[k]? = if k = pos then v.data[v.size - 1]? else v.data[k]? := by
    rw [hit]
    by_cases edge : pos = v.size - 1
    · refine ⟨v.data, by rw [if_neg (by omega)], rfl, fun k below => ?_⟩
      rw [if_neg (by omega)]
    · obtain ⟨data, swapped, same, cells⟩ := @swapSpec T pos (v.size - 1) v.data (by omega) (by omega)
      refine ⟨data, by rw [if_pos edge, swapped], same, fun k below => ?_⟩
      rw [cells k, if_neg (by omega)]
  have next : WellFormed (⟨data, v.size, v.capacity⟩ : Vector T) := ⟨same.trans storage, fits, word⟩
  have length' : (⟨data, v.size, v.capacity⟩ : Vector T).elements.length = v.size := elementsLength next
  obtain ⟨w, popped, formed', elements'⟩ := popBackSpec next (Nat.zero_lt_of_lt inside)
  refine ⟨w, ?_, formed', ?_⟩
  · simp only [fastErase, if_neg named, last, swapped, Option.bind_some, popped]
  · obtain ⟨x, final⟩ : ∃ x, v.data[v.size - 1]? = some x := dataAt formed (by omega)
    have back : v.elements.getLast? = some x := by
      rw [List.getLast?_eq_getElem?, length, elementsAt, if_pos (by omega), final]
    simp only [elements', Containers.fastErase, back]
    apply List.ext_getElem?
    intro k
    rw [List.dropLast_eq_take, List.dropLast_eq_take, List.getElem?_take, List.getElem?_take,
      length', List.length_set, length]
    by_cases below : k < v.size - 1
    · rw [if_pos below, if_pos below, elementsAt]
      show (if k < v.size then data[k]? else none) = _
      rw [if_pos (show k < v.size by omega), cells k below, List.getElem?_set, elementsAt,
        if_pos (show k < v.size by omega), length]
      by_cases here : pos = k
      · rw [if_pos here.symm, if_pos here, if_pos inside, final]
      · rw [if_neg (Ne.symm here), if_neg here]
    · rw [if_neg below, if_neg below]

/- The loop of reverse: before round i the i outermost pairs are exchanged. -/
structure Reversed (before : List T) (size i : Nat) (data : List T) : Prop where
  length : data.length = before.length
  cells : ∀ j, j < size →
    data[j]? = if j < i ∨ size - 1 - j < i then before[size - 1 - j]? else before[j]?

theorem reversedSwap {before data : List T} {size i : Nat} (held : Reversed before size i data)
    (inside : size ≤ before.length) (word : before.length < sizeLimit) (more : i < size / 2) :
    ∃ data', swap i (toSize (size - 1 - i)) data = some data' ∧ Reversed before size (i + 1) data' := by
  have last : toSize ((size : Int) - 1 - i) = size - 1 - i := by
    rw [← toSizeNat (show size - 1 - i < sizeLimit by omega)]
    congr 1
    omega
  have same := held.length
  obtain ⟨data', swapped, same', cells⟩ := @swapSpec T i (size - 1 - i) data (by omega) (by omega)
  refine ⟨data', by rw [last, swapped], same'.trans same, fun j below => ?_⟩
  rw [cells j]
  by_cases far : j = size - 1 - i
  · rw [if_pos far, held.cells i (by omega), if_neg (by omega), if_pos (by omega)]
    congr 1
    omega
  · rw [if_neg far]
    by_cases near : j = i
    · rw [if_pos near, held.cells (size - 1 - i) (by omega), if_neg (by omega), if_pos (by omega), near]
    · rw [if_neg near, held.cells j below]
      by_cases done : j < i ∨ size - 1 - j < i
      · rw [if_pos done, if_pos (by omega)]
      · rw [if_neg done, if_neg (by omega)]

theorem reverseSpec {v : Vector T} (formed : v.WellFormed) (counted : v.size / 2 < intLimit) :
    ∃ w, v.reverse = some w ∧ w.WellFormed ∧ w.elements = v.elements.reverse := by
  have storage := formed.storage
  have fits := formed.fits
  have word := formed.word
  have start : Reversed v.data v.size 0 v.data :=
    ⟨rfl, fun j _ => by rw [if_neg (by omega)]⟩
  obtain ⟨data, ran, last⟩ := forLoopRun (Reversed v.data v.size)
    (fun i data more held => reversedSwap held (by omega) (by omega) more) start (Nat.zero_le _)
    (show v.size / 2 < 0 + intLimit by omega)
  have length := elementsLength formed
  refine ⟨{ v with data := data }, by rw [reverse, ran]; rfl,
    ⟨last.length.trans storage, fits, word⟩, elementsEq ?_ ?_⟩
  · rw [List.length_reverse, length]
  · intro j inside
    change j < v.size at inside
    show data[j]? = _
    rw [List.getElem?_reverse (by omega), length, elementsAt, if_pos (by omega), last.cells j inside]
    by_cases moved : j < v.size / 2 ∨ v.size - 1 - j < v.size / 2
    · rw [if_pos moved]
    · rw [if_neg moved]
      congr 1
      omega

theorem reverseNone {v : Vector T} (large : intLimit ≤ v.size / 2) : v.reverse = none := by
  rw [reverse, forLoopPast (by omega)]
  rfl

theorem storeBackSpec {v : Vector T} (formed : v.WellFormed) (room : v.size < v.capacity) (val : T) :
    ∃ data, store val v.size v.data = some data ∧
      WellFormed (⟨data, v.size + 1, v.capacity⟩ : Vector T) ∧
      (⟨data, v.size + 1, v.capacity⟩ : Vector T).elements = v.elements ++ [val] := by
  have storage := formed.storage
  have length := elementsLength formed
  refine ⟨v.data.set v.size val, storeAt (by omega),
    ⟨by rw [List.length_set, storage], room, formed.word⟩, elementsEq (by simp [length]) ?_⟩
  intro j inside
  change j < v.size + 1 at inside
  show (v.data.set v.size val)[j]? = _
  by_cases last : v.size = j
  · subst last
    rw [List.getElem?_set_self (by omega), List.getElem?_append_right (by omega), length, Nat.sub_self]
    rfl
  · rw [List.getElem?_set_ne last, List.getElem?_append_left (by omega), elementsAt, if_pos (by omega)]

section Default
variable [Inhabited T]

theorem pushBackSpec {v : Vector T} (formed : v.WellFormed) (room : v.size = v.capacity → v.size < 2 ^ 63)
    (val : T) : ∃ w, v.pushBack val = some w ∧ w.WellFormed ∧ w.elements = v.elements ++ [val] := by
  rw [pushBack]
  by_cases full : v.capacity = v.size
  · have half := room full.symm
    have grown : toSize ((v.size : Int) * 2 + 1) = v.size * 2 + 1 := by
      rw [← toSizeNat (show v.size * 2 + 1 < sizeLimit by unfold sizeLimit; omega)]
      congr 1
    obtain ⟨u, moved, formed', size, capacity, elements⟩ := @reallocSpec T _ v formed v.size
      (v.size * 2 + 1) (by omega) (by unfold sizeLimit; omega)
    obtain ⟨data, stored, next, longer⟩ := storeBackSpec formed' (by omega) val
    refine ⟨_, by rw [if_pos full, grown, moved, Option.bind_some, stored]; rfl, next, ?_⟩
    rw [longer, elements, Nat.sub_self, List.replicate_zero, List.append_nil, List.take_of_length_le]
    rw [elementsLength formed]
  · have fits := formed.fits
    obtain ⟨data, stored, next, longer⟩ := storeBackSpec formed (by omega) val
    exact ⟨_, by rw [if_neg full, Option.bind_some, stored]; rfl, next, longer⟩

theorem pushBackNone {v : Vector T} (formed : v.WellFormed) (full : v.size = v.capacity)
    (large : 2 ^ 63 ≤ v.size) (val : T) : v.pushBack val = none := by
  have word := formed.word
  unfold sizeLimit at word
  have wrapped : toSize ((v.size : Int) * 2 + 1) = v.size * 2 + 1 - 2 ^ 64 := by
    unfold toSize
    omega
  rw [pushBack, if_pos full.symm, wrapped]
  by_cases short : v.size * 2 + 1 - 2 ^ 64 < v.size
  · rw [reallocNone short]
    rfl
  · obtain ⟨u, moved, formed', size, capacity, -⟩ := @reallocSpec T _ v formed v.size
      (v.size * 2 + 1 - 2 ^ 64) (by omega) (by unfold sizeLimit; omega)
    have outside : ¬ u.size < u.data.length := by
      have storage := formed'.storage
      omega
    rw [moved, Option.bind_some, store, if_neg outside]
    rfl

theorem copySpec {v : Vector T} (formed : v.WellFormed) (counted : v.size < intLimit) :
    ∃ w, v.copyFrom = some w ∧ w.WellFormed ∧ w.elements = v.elements := by
  have fits := formed.fits
  have made : (makeUnique v.capacity : List T).length = v.capacity := List.length_replicate
  obtain ⟨data, ran, filled⟩ := @fillLoopRun T (fun i => v.data[i]?) 0 v.size intLimit
    (makeUnique v.capacity) (fun i _ below => dataAt formed (by omega)) (Nat.zero_le _) (by omega) (by omega)
  refine ⟨⟨data, v.size, v.capacity⟩, by rw [copyFrom, ran]; rfl,
    ⟨filled.length.trans made, fits, formed.word⟩, elementsEq (elementsLength formed) ?_⟩
  intro j inside
  change j < v.size at inside
  rw [elementsAt, if_pos inside]
  exact filled.done j (Nat.zero_le j) inside

theorem copyNone {v : Vector T} (large : intLimit ≤ v.size) : v.copyFrom = none := by
  rw [copyFrom, forLoopPast (by omega)]
  rfl

end Default

section Find
variable [DecidableEq T]

/- What find is to return: the least index from b on that holds c, or npos. -/
def FindsLeast (l : List T) (c : T) (b r : Int) : Prop :=
  (∃ j : Nat, r = j ∧ b ≤ j ∧ l[j]? = some c ∧ ∀ k : Nat, b ≤ k → k < j → l[k]? ≠ some c) ∨
    (r = npos ∧ ∀ k : Nat, b ≤ k → l[k]? ≠ some c)

theorem findLoopAt {v : Vector T} (formed : v.WellFormed) (c : T) (left : Nat) {i : Nat} (small : i < sizeLimit) :
    v.findLoop c (left + 1) i =
      if i < v.size then if v.elements[i]? = some c then some (i : Int) else v.findLoop c left (i + 1 : Nat)
      else some npos := by
  rw [findLoop, toSizeNat small]
  by_cases inside : i < v.size
  · have fits := formed.fits
    obtain ⟨x, here⟩ := dataAt formed (show i < v.capacity by omega)
    rw [if_pos inside, if_pos inside, elementsAt, if_pos inside, here]
    simp only [Option.some.injEq]
    rfl
  · rw [if_neg inside, if_neg inside]

theorem findLoopFirst {v : Vector T} (formed : v.WellFormed) {c : T} {left i j : Nat}
    (range : i + left = intLimit) (low : i ≤ j) (high : j < intLimit) (holds : v.elements[j]? = some c)
    (least : ∀ k, i ≤ k → k < j → v.elements[k]? ≠ some c) : v.findLoop c left i = some (j : Int) := by
  induction left generalizing i with
  | zero => omega
  | succ left ih =>
    have inside : j < v.size := by
      by_contra outside
      rw [elementsAt, if_neg outside] at holds
      cases holds
    rw [findLoopAt formed c left (by unfold intLimit at range; unfold sizeLimit; omega), if_pos (by omega)]
    by_cases here : i = j
    · subst here
      rw [if_pos holds]
    · rw [if_neg (least i le_rfl (by omega))]
      exact ih (by omega) (by omega) (fun k low' => least k (by omega))

theorem findLoopMissing {v : Vector T} (formed : v.WellFormed) {c : T} {left i : Nat}
    (range : i + left = intLimit) (reached : i < intLimit ∨ intLimit ≤ v.size)
    (missing : ∀ k, i ≤ k → k < intLimit → v.elements[k]? ≠ some c) :
    v.findLoop c left i = if v.size < intLimit then some npos else none := by
  induction left generalizing i with
  | zero => rw [if_neg (by omega)]; rfl
  | succ left ih =>
    rw [findLoopAt formed c left (by unfold intLimit at range; unfold sizeLimit; omega)]
    by_cases inside : i < v.size
    · rw [if_pos inside, if_neg (missing i le_rfl (by omega))]
      exact ih (by omega) (by omega) (fun k low => missing k (by omega))
    · rw [if_neg inside, if_pos (by omega)]

theorem findLoopNegative {v : Vector T} (formed : v.WellFormed) {c : T} {left : Nat} {i : Int}
    (range : i + left = 2 ^ 31) (low : - 2 ^ 31 ≤ i) (negative : i < 0) :
    ∃ r, v.findLoop c left i = some r ∧ r < 0 ∧ (r = npos ∨ c ∈ v.elements) := by
  have fits := formed.fits
  have word := formed.word
  unfold sizeLimit at word
  induction left generalizing i with
  | zero => omega
  | succ left ih =>
    rw [findLoop]
    by_cases inside : toSize i < v.size
    · obtain ⟨x, here⟩ := dataAt formed (show toSize i < v.capacity by omega)
      rw [if_pos inside, here]
      by_cases found : x = c
      · refine ⟨i, if_pos found, negative, Or.inr (List.mem_iff_getElem?.mpr ⟨toSize i, ?_⟩)⟩
        rw [elementsAt, if_pos inside, here, found]
      · have more : i + 1 < 0 := by
          unfold toSize at inside
          omega
        obtain ⟨r, ran, rest⟩ := ih (i := i + 1) (by omega) (by omega) more
        exact ⟨r, (if_neg found).trans ran, rest⟩
    · exact ⟨npos, if_neg inside, by decide, Or.inl rfl⟩

/- When find can answer: from 0 on as far as an int goes, from below 0 only for what is missing. -/
def Findable (v : Vector T) (c : T) (b : Int) : Prop :=
  if 0 ≤ b then v.size < intLimit ∨ ∃ j : Nat, b ≤ j ∧ j < intLimit ∧ v.elements[j]? = some c
  else c ∉ v.elements

theorem findIff {v : Vector T} (formed : v.WellFormed) (c : T) {b : Int} (low : - 2 ^ 31 ≤ b) (high : b < 2 ^ 31) :
    (∃ r, v.find c b = some r ∧ FindsLeast v.elements c b r) ↔ v.Findable c b := by
  rw [Findable, find]
  by_cases natural : 0 ≤ b
  · obtain ⟨i, rfl⟩ := Int.eq_ofNat_of_zero_le natural
    have range : i + (2 ^ 31 - (i : Int)).toNat = intLimit := by unfold intLimit; omega
    have below : i < intLimit := by unfold intLimit; omega
    rw [if_pos natural]
    by_cases found : ∃ j : Nat, i ≤ j ∧ j < intLimit ∧ v.elements[j]? = some c
    · obtain ⟨inside, small, holds⟩ := Nat.find_spec found
      have least : ∀ k, i ≤ k → k < Nat.find found → v.elements[k]? ≠ some c :=
        fun k onward before hit => Nat.find_min found before ⟨onward, by omega, hit⟩
      refine iff_of_true ⟨_, findLoopFirst formed range inside small holds least, Or.inl ?_⟩ ?_
      · exact ⟨_, rfl, by omega, holds, fun k onward => least k (by omega)⟩
      · exact Or.inr ⟨_, by omega, small, holds⟩
    · have missing : ∀ k, i ≤ k → k < intLimit → v.elements[k]? ≠ some c :=
        fun k onward inside hit => found ⟨k, onward, inside, hit⟩
      rw [findLoopMissing formed range (Or.inl below) missing]
      by_cases counted : v.size < intLimit
      · rw [if_pos counted]
        refine iff_of_true ⟨npos, rfl, Or.inr ⟨rfl, fun k onward hit => ?_⟩⟩ (Or.inl counted)
        have inside : k < v.size := by
          by_contra outside
          rw [elementsAt, if_neg outside] at hit
          cases hit
        exact missing k (by omega) (by omega) hit
      · rw [if_neg counted]
        constructor
        · rintro ⟨r, stuck, -⟩
          cases stuck
        · rintro (small | ⟨j, onward, inside, hit⟩)
          · exact absurd small counted
          · exact absurd hit (missing j (by omega) inside)
  · rw [if_neg natural]
    obtain ⟨r, ran, negative, answer⟩ := @findLoopNegative T _ v formed c (2 ^ 31 - b).toNat b
      (by omega) low (by omega)
    constructor
    · rintro ⟨r', ran', least⟩ member
      cases Option.some.inj (ran.symm.trans ran')
      obtain ⟨k, hit⟩ := List.mem_iff_getElem?.mp member
      rcases least with ⟨j, same, -⟩ | ⟨-, absent⟩
      · omega
      · exact absent k (by omega) hit
    · intro absent
      refine ⟨r, ran, Or.inr ⟨answer.resolve_right absent, fun k _ hit => ?_⟩⟩
      exact absent (List.mem_iff_getElem?.mpr ⟨k, hit⟩)

end Find

section Strings

/- The find that String is modelled over is the one of its Vector<char>. -/
theorem vectorFindLoop {v : Vector (BitVec 8)} (formed : v.WellFormed) (c : BitVec 8) {n i left : Nat}
    (ahead : n = v.size - i) (range : i + left = intLimit) (small : 0 < left) :
    Strings.vectorFind v.elements c n i =
      (v.findLoop c left i).map fun r => if r = npos then none else Option.some r.toNat := by
  induction n generalizing i left with
  | zero =>
    obtain ⟨left, rfl⟩ := Nat.exists_eq_succ_of_ne_zero (Nat.ne_of_gt small)
    rw [findLoopAt formed c left (by unfold intLimit at range; unfold sizeLimit; omega), if_neg (by omega)]
    rfl
  | succ n ih =>
    obtain ⟨left, rfl⟩ := Nat.exists_eq_succ_of_ne_zero (Nat.ne_of_gt small)
    obtain ⟨x, here⟩ := dataAt formed (show i < v.capacity from by have fits := formed.fits; omega)
    have found : v.elements[i]? = some x := by rw [elementsAt, if_pos (by omega), here]
    rw [findLoopAt formed c left (by unfold intLimit at range; unfold sizeLimit; omega), if_pos (by omega),
      Strings.vectorFind]
    simp only [found, Option.some.injEq]
    by_cases same : x = c
    · rw [if_pos same, if_pos same, Option.map_some, if_neg (by unfold npos; omega), Int.toNat_natCast]
    · rw [if_neg same, if_neg same]
      by_cases counted : i + 1 < intLimit
      · rw [if_pos (show i + 1 < Strings.intLimit from counted)]
        exact ih (by omega) (by omega) (by omega)
      · have last : left = 0 := by omega
        rw [if_neg (show ¬ i + 1 < Strings.intLimit from counted), last]
        rfl

theorem vectorFindEq {v : Vector (BitVec 8)} (formed : v.WellFormed) (c : BitVec 8) {start : Nat}
    (small : start < intLimit) :
    Strings.vectorFind v.elements c (v.elements.length - start) start =
      (v.find c start).map fun r => if r = npos then none else Option.some r.toNat := by
  unfold intLimit at small
  rw [find, elementsLength formed]
  exact vectorFindLoop formed c rfl (by unfold intLimit; omega) (by omega)

/- So is the find of the lists that the file system layer keeps. -/
theorem findList [DecidableEq T] {v : Vector T} (formed : v.WellFormed) (counted : v.size < intLimit) (c : T) :
    (v.find c 0).map (fun r => if r = npos then none else Option.some r.toNat) =
      Option.some (Containers.find v.elements c) := by
  obtain ⟨r, ran, least⟩ := (findIff formed c (by omega) (by omega)).mpr
    (show v.Findable c 0 from Or.inl counted)
  rw [ran, Option.map_some, Option.some.injEq, Containers.find]
  rcases least with ⟨j, rfl, -, holds, before⟩ | ⟨rfl, absent⟩
  · rw [if_neg (by unfold npos; omega), Int.toNat_natCast, eq_comm, List.idxOf?_eq_some_iff]
    obtain ⟨inside, same⟩ := List.getElem?_eq_some_iff.mp holds
    refine ⟨inside, same, fun k early => ?_⟩
    have other := before k (Int.natCast_nonneg k) early
    rw [List.getElem?_eq_getElem (by omega), ne_eq, Option.some.injEq] at other
    simpa using other
  · rw [if_pos rfl, eq_comm, List.idxOf?_eq_none_iff]
    intro member
    obtain ⟨k, hit⟩ := List.mem_iff_getElem?.mp member
    exact absent k (Int.natCast_nonneg k) hit

end Strings

section Runs

/- The calls on a family of vectors: `copy` is the copy constructor or operator=. -/
inductive Op (T : Type) where
  | pushBack (obj : Nat) (val : T)
  | popBack (obj : Nat)
  | fastErase (obj : Nat) (pos : Int)
  | reverse (obj : Nat)
  | fill (obj : Nat) (val : T)
  | copy (dst src : Nat)
  | find (obj : Nat) (c : T) (begin : Int)

abbrev Objects (T : Type) := Nat → Vector T

def change (s : Objects T) (obj : Nat) (v : Option (Vector T)) : Option (Objects T) :=
  v.map (Function.update s obj)

def step [Inhabited T] [DecidableEq T] (s : Objects T) : Op T → Option (Objects T)
  | .pushBack obj val => change s obj ((s obj).pushBack val)
  | .popBack obj => change s obj (s obj).popBack
  | .fastErase obj pos => change s obj ((s obj).fastErase pos)
  | .reverse obj => change s obj (s obj).reverse
  | .fill obj val => change s obj ((s obj).fill val)
  | .copy dst src => change s dst (s src).copyFrom
  | .find obj c begin => ((s obj).find c begin).map fun _ => s

/- The list model: append, drop last, swap with last and drop, reverse, constant, identity. -/
def listStep (l : Nat → List T) : Op T → Nat → List T
  | .pushBack obj val => Function.update l obj (l obj ++ [val])
  | .popBack obj => Function.update l obj (l obj).dropLast
  | .fastErase obj pos =>
    Function.update l obj (Containers.fastErase (l obj) (if pos = npos then none else some pos.toNat))
  | .reverse obj => Function.update l obj (l obj).reverse
  | .fill obj val => Function.update l obj (List.replicate (l obj).length val)
  | .copy dst src => Function.update l dst (l src)
  | .find _ _ _ => l

/- The calls that the list model answers: an int is what its type allows. -/
def Legal (l : Nat → List T) : Op T → Prop
  | .popBack obj => l obj ≠ []
  | .fastErase obj pos => pos = npos ∨ 0 ≤ pos ∧ pos < (l obj).length
  | .copy dst src => dst ≠ src
  | .find _ _ begin => - 2 ^ 31 ≤ begin ∧ begin < 2 ^ 31
  | _ => True

def Counted (s : Objects T) : Op T → Prop
  | .pushBack obj _ => (s obj).size = (s obj).capacity → (s obj).size < 2 ^ 63
  | .reverse obj => (s obj).size / 2 < intLimit
  | .copy _ src => (s src).size < intLimit
  | .find obj c begin => (s obj).Findable c begin
  | _ => True

def Matches (s : Objects T) (l : Nat → List T) : Prop :=
  ∀ obj, (s obj).size = (l obj).length ∧ (s obj).elements = l obj ∧ (s obj).size ≤ (s obj).capacity

def Answers [DecidableEq T] (s : Objects T) (l : Nat → List T) : Op T → Prop
  | .find obj c begin => ∃ r, (s obj).find c begin = some r ∧ FindsLeast (l obj) c begin r
  | _ => True

/- Along all of a run the vectors match the lists and find answers for them. -/
def Refines [Inhabited T] [DecidableEq T] (s : Objects T) (l : Nat → List T) : List (Op T) → Prop
  | [] => Matches s l
  | op :: ops => Matches s l ∧ Answers s l op ∧ ∃ t, step s op = some t ∧ Refines t (listStep l op) ops

def Formed (s : Objects T) : Prop := ∀ obj, (s obj).WellFormed

def lists (s : Objects T) (obj : Nat) : List T := (s obj).elements

theorem matchesLists {s : Objects T} (formed : Formed s) : Matches s (lists s) :=
  fun obj => ⟨(elementsLength (formed obj)).symm, rfl, (formed obj).fits⟩

theorem listsUpdate (s : Objects T) (obj : Nat) (w : Vector T) :
    lists (Function.update s obj w) = Function.update (lists s) obj w.elements := by
  funext other
  by_cases same : other = obj
  · subst same
    simp [lists]
  · simp [lists, same]

theorem changed {s : Objects T} (formed : Formed s) (obj : Nat) {result : Option (Vector T)} {l : List T}
    (spec : ∃ w, result = some w ∧ w.WellFormed ∧ w.elements = l) :
    ∃ t, change s obj result = some t ∧ Formed t ∧ lists t = Function.update (lists s) obj l := by
  obtain ⟨w, rfl, formed', rfl⟩ := spec
  refine ⟨Function.update s obj w, rfl, fun other => ?_, listsUpdate s obj w⟩
  by_cases same : other = obj
  · subst same
    rw [Function.update_self]
    exact formed'
  · rw [Function.update_of_ne same]
    exact formed other

section Step
variable [Inhabited T] [DecidableEq T]

theorem stepSpec {s : Objects T} (formed : Formed s) {op : Op T} (legal : Legal (lists s) op)
    (counted : Counted s op) :
    Answers s (lists s) op ∧ ∃ t, step s op = some t ∧ Formed t ∧ lists t = listStep (lists s) op := by
  cases op with
  | pushBack obj val => exact ⟨trivial, changed formed obj (pushBackSpec (formed obj) counted val)⟩
  | popBack obj =>
    have more : 0 < (s obj).size := by
      rw [← elementsLength (formed obj)]
      exact List.length_pos_iff.mpr legal
    exact ⟨trivial, changed formed obj (popBackSpec (formed obj) more)⟩
  | fastErase obj pos =>
    refine ⟨trivial, changed formed obj ?_⟩
    rcases legal with named | ⟨natural, inside⟩
    · refine ⟨s obj, by rw [fastErase, if_pos named], formed obj, ?_⟩
      rw [if_pos named]
      rfl
    · obtain ⟨i, rfl⟩ := Int.eq_ofNat_of_zero_le natural
      have small : i < (s obj).size := by
        rw [← elementsLength (formed obj)]
        exact_mod_cast inside
      rw [if_neg (by unfold npos; omega)]
      exact fastEraseSpec (formed obj) small
  | reverse obj => exact ⟨trivial, changed formed obj (reverseSpec (formed obj) counted)⟩
  | fill obj val =>
    refine ⟨trivial, changed formed obj ?_⟩
    rw [lists, elementsLength (formed obj)]
    exact fillSpec (formed obj) val
  | copy dst src => exact ⟨trivial, changed formed dst (copySpec (formed src) counted)⟩
  | find obj c begin =>
    obtain ⟨r, ran, least⟩ := (findIff (formed obj) c legal.1 legal.2).mpr counted
    exact ⟨⟨r, ran, least⟩, s, by rw [step, ran]; rfl, formed, rfl⟩

theorem stepCounted {s : Objects T} (formed : Formed s) {op : Op T} (legal : Legal (lists s) op)
    (answers : Answers s (lists s) op) {t : Objects T} (ran : step s op = some t) : Counted s op := by
  cases op with
  | pushBack obj val =>
    intro full
    by_contra large
    rw [step, pushBackNone (formed obj) full (Nat.not_lt.mp large) val] at ran
    cases ran
  | reverse obj =>
    by_contra large
    rw [step, reverseNone (Nat.not_lt.mp large)] at ran
    cases ran
  | copy dst src =>
    by_contra large
    rw [step, copyNone (Nat.not_lt.mp large)] at ran
    cases ran
  | find obj c begin => exact (findIff (formed obj) c legal.1 legal.2).mp answers
  | popBack obj => exact trivial
  | fastErase obj pos => exact trivial
  | fill obj val => exact trivial

/-- Every run of calls goes as it does on lists exactly when every call of it is counted. -/
theorem refinesIff {s : Objects T} (formed : Formed s) {ops : List (Op T)}
    (legal : Guarded (fun l op => some (listStep l op)) Legal (lists s) ops) :
    Refines s (lists s) ops ↔ Guarded step Counted s ops := by
  induction ops generalizing s with
  | nil => exact iff_of_true (matchesLists formed) (guardedNil step Counted s)
  | cons op ops ih =>
    obtain ⟨first, later⟩ := guardedConsIff.mp legal
    rw [guardedConsIff]
    constructor
    · rintro ⟨-, answers, t, ran, rest⟩
      have counted := stepCounted formed first answers ran
      obtain ⟨-, t', ran', formed', next⟩ := stepSpec formed first counted
      cases Option.some.inj (ran.symm.trans ran')
      refine ⟨counted, fun u taken => ?_⟩
      cases Option.some.inj (ran.symm.trans taken)
      have legal' := later _ rfl
      rw [← next] at legal' rest
      exact (ih formed' legal').mp rest
    · rintro ⟨counted, rest⟩
      obtain ⟨answers, t, ran, formed', next⟩ := stepSpec formed first counted
      have legal' := later _ rfl
      rw [← next] at legal'
      refine ⟨matchesLists formed, answers, t, ran, ?_⟩
      rw [← next]
      exact (ih formed' legal').mpr (rest t ran)

end Step

/- A search from -1 misses the element at 0, and a copy of 2^31 elements overflows its counter. -/
theorem findBelowZero :
    (⟨[0x61#8], 1, 1⟩ : Vector (BitVec 8)).WellFormed ∧
      (⟨[0x61#8], 1, 1⟩ : Vector (BitVec 8)).find 0x61#8 (-1) = some npos ∧
      ¬ FindsLeast [0x61#8] 0x61#8 (-1) npos ∧
      (⟨List.replicate (2 ^ 31) 0x61#8, 2 ^ 31, 2 ^ 31⟩ : Vector (BitVec 8)).WellFormed ∧
      (⟨List.replicate (2 ^ 31) 0x61#8, 2 ^ 31, 2 ^ 31⟩ : Vector (BitVec 8)).copyFrom = none := by
  refine ⟨⟨rfl, le_rfl, by decide⟩, by decide, ?_, ⟨List.length_replicate, le_rfl, by decide⟩, copyNone le_rfl⟩
  rintro (⟨j, same, -⟩ | ⟨-, absent⟩)
  · unfold npos at same
    omega
  · exact absent 0 (by decide) rfl

theorem refinesPushPop :
    Refines (fun _ => (empty : Vector (BitVec 8))) (lists fun _ => empty)
      [.pushBack 0 0x61#8, .find 0 0x61#8 0, .popBack 0] := by
  have formed : Formed (fun _ => (empty : Vector (BitVec 8))) := fun _ => emptyFormed
  refine (refinesIff formed ?_).mpr ?_
  · refine guardedConsIff.mpr ⟨trivial, fun _ first => guardedConsIff.mpr ⟨⟨by decide, by decide⟩, fun _ second =>
      guardedConsIff.mpr ⟨?_, fun _ _ => guardedNil _ _ _⟩⟩⟩
    cases Option.some.inj first
    cases Option.some.inj second
    exact List.cons_ne_nil _ _
  · refine guardedConsIff.mpr ⟨fun _ => by decide, fun _ first => guardedConsIff.mpr ⟨Or.inl ?_, fun _ _ =>
      guardedConsIff.mpr ⟨trivial, fun _ _ => guardedNil _ _ _⟩⟩⟩
    cases Option.some.inj first
    decide

end Runs

end Vector
end DimOS.Cpp.Vectors
