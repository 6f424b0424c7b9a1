import Mathlib
import DimOS.Cpp.Containers

/-! The class String over its Vector, with the bytes as they lie in data, the zero at the end
among them. Counters and positions are of type int: one that passes 2^31 - 1 is undefined and
none, as is an access outside data or a failed assert. -/
namespace DimOS.Cpp.Strings
open Containers

def intLimit : Nat := 2 ^ 31

structure WellFormed (data : Chars) : Prop where
  ends : data.getLast? = some 0#8

def chars (data : Chars) : Chars := data.dropLast

/- String::size, data.size() - 1 in size_t. -/
def size (data : Chars) : Nat := if data = [] then 2 ^ 64 - 1 else data.length - 1

/- `data.back() = val`. -/
def storeBack (data : Chars) (val : BitVec 8) : Option Chars :=
  if data = [] then none else some (data.dropLast ++ [val])

/- String::push_back, which operator+=(char) is. -/
def pushBack (data : Chars) (val : BitVec 8) : Option Chars :=
  (storeBack data val).bind fun data => some (data ++ [0#8])

/- String::pop_back: Vector::pop_back asserts that there is an element. -/
def popBack (data : Chars) : Option Chars :=
  if data = [] then none else storeBack data.dropLast 0#8

/- Vector::find from `i` on, with `left` elements to go. The inner none is npos. -/
def vectorFind (data : Chars) (c : BitVec 8) : Nat → Nat → Option (Option Nat)
  | 0, _ => some none
  | left + 1, i =>
    match data[i]? with
    | none => none
    | some x =>
      if x = c then some (some i)
      else if i + 1 < intLimit then vectorFind data c left (i + 1)
      else none

/- String::find: the zero at the end is not found. -/
def find (data : Chars) (val : BitVec 8) (start : Nat) : Option (Option Nat) :=
  (vectorFind data val (data.length - start) start).bind fun pos =>
    some (pos.filter fun pos => pos < size data)

/- The loop of String::substr. -/
def substrLoop (data : Chars) (offset : Nat) : Nat → Nat → Chars → Option Chars
  | 0, _, res => some res
  | left + 1, i, res =>
    match data[i + offset]? with
    | none => none
    | some c =>
      if i + offset < intLimit ∧ i + 1 < intLimit then
        substrLoop data offset left (i + 1) (res.set i c)
      else none

def substr (data : Chars) (offset size : Nat) : Option Chars :=
  substrLoop data offset size 0 (List.replicate (size + 1) 0#8)

/- The loop of String::split: every round reads one delimiter, and no String has more of them
than bytes. It returns the pieces and the position behind the last delimiter. -/
def splitLoop (data : Chars) (delimiter : BitVec 8) : Nat → Nat → List Chars → Option (List Chars × Nat)
  | 0, _, _ => none
  | left + 1, l, res =>
    match find data delimiter l with
    | none => none
    | some none => some (res, l)
    | some (some r) =>
      match substr data l (r - l) with
      | none => none
      | some piece =>
        if r + 1 < intLimit then splitLoop data delimiter left (r + 1) (res ++ [piece]) else none

def split (data : Chars) (delimiter : BitVec 8) : Option (List Chars) :=
  match splitLoop data delimiter (data.length + 1) 0 [] with
  | none => none
  | some (res, l) =>
    if size data = 0 ∨ l ≠ size data then
      (substr data l (size data - l)).bind fun piece => some (res ++ [piece])
    else some res

/- The loop of String::reverse, with `left` exchanges to go. -/
def reverseLoop : Nat → Nat → Chars → Option Chars
  | 0, _, data => some data
  | left + 1, i, data =>
    match data[i]?, data[size data - 1 - i]? with
    | some a, some b =>
      if i + 1 < intLimit then reverseLoop left (i + 1) ((data.set i b).set (size data - 1 - i) a) else none
    | _, _ => none

def reverse (data : Chars) : Option Chars := reverseLoop (size data / 2) 0 data

theorem wellFormedEq {data : Chars} (well : WellFormed data) : data = chars data ++ [0#8] := by
  have filled : data ≠ [] := by
    rintro rfl
    cases well.ends
  have last := well.ends
  rw [List.getLast?_eq_getLast_of_ne_nil filled, Option.some.injEq] at last
  rw [chars, ← last, List.dropLast_append_getLast filled]

theorem wellFormedAppend (s : Chars) : WellFormed (s ++ [0#8]) := ⟨by simp⟩

@[simp] theorem charsAppend (s : Chars) (c : BitVec 8) : chars (s ++ [c]) = s := by simp [chars]

@[simp] theorem sizeAppend (s : Chars) (c : BitVec 8) : size (s ++ [c]) = s.length := by simp [size]

@[simp] theorem pushBackEq (s : Chars) (val : BitVec 8) : pushBack (s ++ [0#8]) val = some (s ++ [val] ++ [0#8]) := by
  simp [pushBack, storeBack]

theorem popBackEq (s : Chars) :
    popBack (s ++ [0#8]) = if s = [] then none else some (s.dropLast ++ [0#8]) := by
  simp only [popBack, storeBack, List.append_eq_nil_iff, List.cons_ne_self, and_false, if_false,
    List.dropLast_concat]

theorem vectorFindNone {s after : Chars} {c : BitVec 8} (plain : c ∉ s) (before : Chars)
    (fits : before.length + s.length < intLimit) :
    vectorFind (before ++ s ++ after) c s.length before.length = some none := by
  induction s generalizing before with
  | nil => rfl
  | cons x rest ih =>
    rw [List.mem_cons, not_or] at plain
    have here : (before ++ x :: rest ++ after)[before.length]? = some x := by simp
    have next := ih plain.2 (before ++ [x]) (by simp at fits ⊢; omega)
    simp only [List.length_cons] at fits ⊢
    rw [vectorFind, here]
    simp only [Ne.symm plain.1, if_false, show before.length + 1 < intLimit by omega, if_true]
    simpa using next

theorem vectorFindOver {s after : Chars} {c : BitVec 8} (plain : c ∉ s) (before : Chars)
    (small : before.length < intLimit) (past : intLimit ≤ before.length + s.length) {left : Nat}
    (long : s.length ≤ left) : vectorFind (before ++ s ++ after) c left before.length = none := by
  induction s generalizing before left with
  | nil => simp at past; omega
  | cons x rest ih =>
    obtain ⟨left, rfl⟩ : ∃ k, left = k + 1 := ⟨left - 1, by simp at long; omega⟩
    rw [List.mem_cons, not_or] at plain
    have here : (before ++ x :: rest ++ after)[before.length]? = some x := by simp
    rw [vectorFind, here]
    simp only [Ne.symm plain.1, if_false]
    split
    · next next =>
      have later := ih plain.2 (before ++ [x]) (by simpa using next) (by simp at past ⊢; omega)
        (show rest.length ≤ left by simp at long; omega)
      simpa using later
    · rfl

theorem vectorFindSome {s after : Chars} {c : BitVec 8} (plain : c ∉ s) (before : Chars)
    (fits : before.length + s.length < intLimit) {left : Nat} (long : s.length < left) :
    vectorFind (before ++ s ++ c :: after) c left before.length = some (some (before.length + s.length)) := by
  induction s generalizing before left with
  | nil =>
    obtain ⟨left, rfl⟩ : ∃ k, left = k + 1 := ⟨left - 1, by simp at long; omega⟩
    simp [vectorFind]
  | cons x rest ih =>
    obtain ⟨left, rfl⟩ : ∃ k, left = k + 1 := ⟨left - 1, by omega⟩
    rw [List.mem_cons, not_or] at plain
    have here : (before ++ x :: rest ++ c :: after)[before.length]? = some x := by simp
    have next := ih plain.2 (before ++ [x]) (by simp at fits ⊢; omega) (show rest.length < left by simp at long; omega)
    rw [vectorFind, here]
    simp only [List.length_cons] at fits ⊢
    simp only [Ne.symm plain.1, if_false, show before.length + 1 < intLimit by omega, if_true]
    simpa [Nat.add_assoc, Nat.add_comm 1] using next

theorem substrLoopEq {before s after done : Chars} (fits : before.length + done.length + s.length < intLimit) :
    substrLoop (before ++ (done ++ s) ++ after) before.length s.length done.length
      (done ++ List.replicate (s.length + 1) 0#8) = some (done ++ s ++ [0#8]) := by
  induction s generalizing done with
  | nil => simp [substrLoop]
  | cons c rest ih =>
    have here : (before ++ (done ++ c :: rest) ++ after)[done.length + before.length]? = some c := by
      rw [Nat.add_comm]
      simp
    simp only [List.length_cons] at fits ⊢
    rw [substrLoop, here]
    have next := @ih (done ++ [c]) (by simp; omega)
    have stored : (done ++ List.replicate (rest.length + 1 + 1) 0#8).set done.length c =
        done ++ [c] ++ List.replicate (rest.length + 1) 0#8 := by
      simp [List.replicate_succ]
    simp only [show done.length + before.length < intLimit ∧ done.length + 1 < intLimit by omega,
      and_self, if_true, stored]
    simpa using next

theorem substrEq {before s after : Chars} (fits : before.length + s.length < intLimit) :
    substr (before ++ s ++ after) before.length s.length = some (s ++ [0#8]) := by
  have copied := @substrLoopEq before s after [] (by simpa using fits)
  simpa [substr] using copied

end DimOS.Cpp.Strings
