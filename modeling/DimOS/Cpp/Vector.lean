import Mathlib
import DimOS.Cpp.Containers
import DimOS.Lib.CountedLoop

/-! The class Vector over the elements of its storage. none is a failed assertion, an access
outside the storage, or a counter of type int that passes the largest int. -/
namespace DimOS.Cpp.Vectors
open Lib.CountedLoop

def toSize (x : Int) : Nat := (x % 2 ^ 64).toNat

/- `data` is the array that `UniquePtr<T[]> data` owns, with every element it has room for. -/
structure Vector (T : Type) where
  data : List T
  size : Nat
  capacity : Nat
  deriving DecidableEq, Repr

namespace Vector
variable {T : Type}

def npos : Int := -1

def elements (v : Vector T) : List T := v.data.take v.size

structure WellFormed (v : Vector T) : Prop where
  storage : v.data.length = v.capacity
  fits : v.size ≤ v.capacity
  word : v.capacity < sizeLimit

/- `data[i] = val`. -/
def store (val : T) (i : Nat) (data : List T) : Option (List T) :=
  if i < data.length then some (data.set i val) else none

/- The body of a loop that stores to data[i] what an expression over i reads. -/
def storeFrom (val : Nat → Option T) (i : Nat) (data : List T) : Option (List T) :=
  (val i).bind fun x => store x i data

def swap (i j : Nat) (data : List T) : Option (List T) :=
  data[i]?.bind fun x => data[j]?.map fun y => (data.set i y).set j x

def empty : Vector T := ⟨[], 0, 0⟩

def fill (v : Vector T) (val : T) : Option (Vector T) :=
  (forLoop v.size (storeFrom fun _ => some val) sizeLimit 0 v.data).map fun data => { v with data := data }

section Default
variable [Inhabited T]

def makeUnique (num : Nat) : List T := List.replicate num default

def sized (size : Nat) (val : T) : Option (Vector T) := fill ⟨makeUnique size, size, size⟩ val

def copyFrom (v : Vector T) : Option (Vector T) :=
  (forLoop v.size (storeFrom fun i => v.data[i]?) intLimit 0 (makeUnique v.capacity)).map fun data =>
    ⟨data, v.size, v.capacity⟩

def realloc (v : Vector T) (newSize newCapacity : Nat) : Option (Vector T) :=
  if newSize ≤ newCapacity then
    let minSize := min v.size newSize
    (forLoop minSize (storeFrom fun i => v.data[i]?) sizeLimit 0 (makeUnique newCapacity)).bind
      fun newData =>
        (forLoop newSize (storeFrom fun _ => some default) (sizeLimit - minSize) minSize newData).map
          fun newData => ⟨newData, newSize, newCapacity⟩
  else none

def resize (v : Vector T) (newSize : Nat) : Option (Vector T) :=
  realloc v newSize (if newSize > v.capacity then toSize (v.capacity * 2 + 1) else v.capacity)

def pushBack (v : Vector T) (val : T) : Option (Vector T) :=
  (if v.capacity = v.size then realloc v v.size (toSize (v.size * 2 + 1)) else some v).bind fun v =>
    (store val v.size v.data).map fun data => { v with data := data, size := v.size + 1 }

end Default

def popBack (v : Vector T) : Option (Vector T) :=
  if v.size > 0 then some { v with size := v.size - 1 } else none

def fastErase (v : Vector T) (pos : Int) : Option (Vector T) :=
  if pos = npos then some v
  else
    let last := toSize (v.size - 1)
    (if toSize pos ≠ last then swap (toSize pos) last v.data else some v.data).bind fun data =>
      popBack { v with data := data }

def reverse (v : Vector T) : Option (Vector T) :=
  (forLoop (v.size / 2) (fun i => swap i (toSize (v.size - 1 - i))) intLimit 0 v.data).map fun data =>
    { v with data := data }

/- The loop of find: an int is converted to size_t before it is compared or used as an index. -/
def findLoop [DecidableEq T] (v : Vector T) (c : T) : Nat → Int → Option Int
  | 0, _ => none
  | left + 1, i =>
    if toSize i < v.size then
      match v.data[toSize i]? with
      | none => none
      | some x => if x = c then some i else findLoop v c left (i + 1)
    else some npos

def find [DecidableEq T] (v : Vector T) (c : T) (begin : Int) : Option Int :=
  findLoop v c (2 ^ 31 - begin).toNat begin

theorem toSizeNat {n : Nat} (small : n < sizeLimit) : toSize n = n := by
  unfold sizeLimit at small
  unfold toSize
  omega

theorem elementsAt (v : Vector T) (j : Nat) :
    v.elements[j]? = if j < v.size then v.data[j]? else none := by
  rw [elements, List.getElem?_take]

theorem elementsLength {v : Vector T} (formed : v.WellFormed) : v.elements.length = v.size := by
  have storage := formed.storage
  have fits := formed.fits
  rw [elements, List.length_take]
  omega

theorem elementsEq {v : Vector T} {l : List T} (length : l.length = v.size)
    (same : ∀ j, j < v.size → v.data[j]? = l[j]?) : v.elements = l := by
  apply List.ext_getElem?
  intro j
  rw [elementsAt]
  by_cases inside : j < v.size
  · rw [if_pos inside, same j inside]
  · rw [if_neg inside, List.getElem?_eq_none (by omega)]

theorem dataAt {v : Vector T} (formed : v.WellFormed) {j : Nat} (inside : j < v.capacity) :
    ∃ x, v.data[j]? = some x :=
  ⟨_, List.getElem?_eq_getElem (formed.storage.symm ▸ inside)⟩

theorem storeAt {val : T} {i : Nat} {data : List T} (inside : i < data.length) :
    store val i data = some (data.set i val) := if_pos inside

/- What a filling loop has done before round i: the positions from `start` to i hold `val`. -/
structure Filled (val : Nat → Option T) (start : Nat) (before : List T) (i : Nat) (data : List T) : Prop where
  length : data.length = before.length
  done : ∀ j, start ≤ j → j < i → data[j]? = val j
  rest : ∀ j, j < start ∨ i ≤ j → data[j]? = before[j]?

theorem filledStart (val : Nat → Option T) (start : Nat) (before : List T) :
    Filled val start before start before :=
  ⟨rfl, fun _ low high => absurd high (Nat.not_lt.mpr low), fun _ _ => rfl⟩

theorem filledStore {val : Nat → Option T} {start i : Nat} {before data : List T} {x : T}
    (held : Filled val start before i data) (low : start ≤ i) (inside : i < before.length)
    (here : val i = some x) :
    ∃ data', storeFrom val i data = some data' ∧ Filled val start before (i + 1) data' := by
  have room : i < data.length := held.length ▸ inside
  refine ⟨data.set i x, by rw [storeFrom, here, Option.bind_some, storeAt room],
    by rw [List.length_set, held.length], ?_, ?_⟩
  · intro j onward below
    by_cases same : i = j
    · subst same
      rw [List.getElem?_set_self room, here]
    · rw [List.getElem?_set_ne same, held.done j onward (by omega)]
  · intro j outside
    rw [List.getElem?_set_ne (by omega), held.rest j (by omega)]

theorem fillLoopRun {val : Nat → Option T} {start bound left : Nat} {before : List T}
    (known : ∀ i, start ≤ i → i < bound → ∃ x, val i = some x)
    (low : start ≤ bound) (inside : bound ≤ before.length) (room : bound < start + left) :
    ∃ data, forLoop bound (storeFrom val) left start before = some data ∧
      Filled val start before bound data := by
  obtain ⟨data, ran, -, filled⟩ := forLoopRun
    (fun i data => start ≤ i ∧ Filled val start before i data) (fun i data more held => by
      obtain ⟨x, here⟩ := known i held.1 more
      obtain ⟨data', stored, next⟩ := filledStore held.2 held.1 (by omega) here
      exact ⟨data', stored, by omega, next⟩)
    ⟨le_rfl, filledStart val start before⟩ low room
  exact ⟨data, ran, filled⟩

theorem emptyFormed : (empty : Vector T).WellFormed := ⟨rfl, le_rfl, Nat.two_pow_pos 64⟩

section Default
variable [Inhabited T]

theorem reallocSpec {v : Vector T} (formed : v.WellFormed) {newSize newCapacity : Nat}
    (room : newSize ≤ newCapacity) (word : newCapacity < sizeLimit) :
    ∃ w, v.realloc newSize newCapacity = some w ∧ w.WellFormed ∧ w.size = newSize ∧
      w.capacity = newCapacity ∧ w.elements = v.elements.take newSize ++ List.replicate (newSize - v.size) default := by
  have storage := formed.storage
  have fits := formed.fits
  have made : (makeUnique newCapacity : List T).length = newCapacity := List.length_replicate
  have fewer : min v.size newSize ≤ newSize := Nat.min_le_right _ _
  obtain ⟨kept, moved, keptAt⟩ := @fillLoopRun T (fun i => v.data[i]?) 0 (min v.size newSize) sizeLimit
    (makeUnique newCapacity) (fun i _ below => dataAt formed (by omega)) (Nat.zero_le _) (by omega) (by omega)
  obtain ⟨newData, extended, newAt⟩ := @fillLoopRun T (fun _ => some default) (min v.size newSize) newSize
    (sizeLimit - min v.size newSize) kept (fun i _ _ => ⟨default, rfl⟩) fewer
    (by rw [keptAt.length]; omega) (by omega)
  have length : newData.length = newCapacity := by rw [newAt.length, keptAt.length, made]
  refine ⟨⟨newData, newSize, newCapacity⟩, ?_, ⟨length, room, word⟩, rfl, rfl, ?_⟩
  · simp only [realloc, if_pos room, moved, extended, Option.bind_some, Option.map_some]
  · have short : (v.elements.take newSize).length = min v.size newSize := by
      rw [List.length_take, elementsLength formed, Nat.min_comm]
    apply elementsEq
    · show _ = newSize
      rw [List.length_append, short, List.length_replicate]
      omega
    · intro j inside
      change j < newSize at inside
      show newData[j]? = _
      by_cases old : j < v.size
      · rw [newAt.rest j (by omega), keptAt.done j (Nat.zero_le j) (by omega),
          List.getElem?_append_left (by omega), List.getElem?_take, if_pos inside, elementsAt, if_pos old]
      · rw [newAt.done j (by omega) inside, List.getElem?_append_right (by omega),
          List.getElem?_replicate, if_pos (by omega)]

theorem reallocNone {v : Vector T} {newSize newCapacity : Nat} (short : newCapacity < newSize) :
    v.realloc newSize newCapacity = none := if_neg (by omega)

theorem toSizeLt (x : Int) : toSize x < sizeLimit := by
  unfold toSize sizeLimit
  omega

/-- resize meets its contract exactly when one doubling of the capacity makes enough room. -/
theorem resizeIff {v : Vector T} (formed : v.WellFormed) (newSize : Nat) :
    (∃ w, v.resize newSize = some w ∧ w.size = newSize ∧
      w.elements = v.elements.take newSize ++ List.replicate (newSize - v.size) default) ↔
      newSize ≤ v.capacity ∨ newSize ≤ toSize (v.capacity * 2 + 1) := by
  have doubled := toSizeLt (v.capacity * 2 + 1)
  rw [resize]
  by_cases grows : newSize > v.capacity
  · rw [if_pos grows]
    constructor
    · rintro ⟨w, resized, -⟩
      by_contra short
      rw [reallocNone (by omega)] at resized
      cases resized
    · intro enough
      obtain ⟨w, resized, -, size, -, elements⟩ := @reallocSpec T _ v formed newSize
        (toSize (v.capacity * 2 + 1)) (by omega) doubled
      exact ⟨w, resized, size, elements⟩
  · rw [if_neg grows]
    refine iff_of_true ?_ (Or.inl (by omega))
    obtain ⟨w, resized, -, size, -, elements⟩ := @reallocSpec T _ v formed newSize v.capacity
      (by omega) formed.word
    exact ⟨w, resized, size, elements⟩

/- The assertion fails at once on a new vector: its capacity of 0 grows to 1 only. -/
theorem resizeNewVector :
    (empty : Vector (BitVec 8)).WellFormed ∧ (empty : Vector (BitVec 8)).resize 2 = none :=
  ⟨emptyFormed, by decide⟩

/- Two elements with room for three. -/
theorem resizeGrows : ∃ w : Vector (BitVec 8), (⟨[1#8, 2#8, 7#8], 2, 3⟩ : Vector (BitVec 8)).resize 5 = some w ∧
    w.size = 5 ∧ w.elements = [1#8, 2#8, 0#8, 0#8, 0#8] :=
  (resizeIff ⟨rfl, by decide, by decide⟩ 5).mpr (Or.inr (by decide))

end Default

end Vector
end DimOS.Cpp.Vectors
