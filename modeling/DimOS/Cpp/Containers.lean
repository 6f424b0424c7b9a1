import Mathlib

/-! The operations of Vector and String that the file system layer uses. A String is the list
of its bytes, without the zero that ends its data. none is an access outside the data. -/
namespace DimOS.Cpp.Containers

abbrev Chars := List (BitVec 8)

def slash : BitVec 8 := 0x2f#8

/- Vector::find, none is npos. -/
def find {T : Type} [DecidableEq T] (data : List T) (c : T) : Option Nat :=
  data.idxOf? c

/- The last element is moved to `pos` before it is popped. -/
def fastErase {T : Type} (data : List T) (pos : Option Nat) : List T :=
  match pos, data.getLast? with
  | some pos, some last => (data.set pos last).dropLast
  | _, _ => data

/- String::split: `piece` is substr(l, ·) up to the character that is read next. The rest
behind the last delimiter is a piece of its own unless it is empty. -/
def splitFrom (delimiter : BitVec 8) : Chars → Chars → List Chars
  | piece, [] => if piece = [] then [] else [piece]
  | piece, c :: rest =>
    if c = delimiter then piece :: splitFrom delimiter [] rest
    else splitFrom delimiter (piece ++ [c]) rest

def split (s : Chars) (delimiter : BitVec 8) : List Chars :=
  if s = [] then [[]] else splitFrom delimiter [] s

/- The loop of mkdir, mnt and mkfile that takes the last component off the path, and the
reverse behind it. It reads back() of an empty String when the path has no slash. -/
def cutLoop : Nat → Chars → Chars → Option (Chars × Chars)
  | 0, _, _ => none
  | left + 1, parentPath, name =>
    match parentPath.getLast? with
    | none => none
    | some c =>
      if c = slash then some (parentPath, name.reverse)
      else cutLoop left parentPath.dropLast (name ++ [c])

def cut (path : Chars) : Option (Chars × Chars) := cutLoop (path.length + 1) path []

/- String(const char*) of an array of 16 characters. none: no zero ends it, and strlen reads on. -/
def cString (s : Nat → BitVec 8) : Option Chars :=
  match (List.range 16).find? (fun i => s i == 0#8) with
  | none => none
  | some len => some ((List.range len).map s)

theorem cutLoopNone {left : Nat} {path name : Chars} (plain : slash ∉ path) :
    cutLoop left path name = none := by
  induction left generalizing path name with
  | zero => rfl
  | succ left ih =>
    simp only [cutLoop]
    split
    · rfl
    · next c last =>
      have mem : c ∈ path := List.mem_of_getLast? last
      rw [if_neg (show c ≠ slash from fun same => plain (same ▸ mem))]
      exact ih (fun mem => plain (List.dropLast_subset path mem))

theorem cutLoopSome {left : Nat} {above tail name : Chars} (plain : slash ∉ tail) (room : tail.length < left) :
    cutLoop left (above ++ slash :: tail) name = some (above ++ [slash], tail ++ name.reverse) := by
  induction left generalizing tail name with
  | zero => omega
  | succ left ih =>
    rcases tail.eq_nil_or_concat with rfl | ⟨init, c, rfl⟩
    · simp [cutLoop]
    · rw [List.concat_eq_append] at plain room ⊢
      have other : c ≠ slash := by
        rintro rfl
        simp at plain
      have shape : above ++ slash :: (init ++ [c]) = (above ++ slash :: init) ++ [c] := by simp
      rw [shape, cutLoop, List.getLast?_concat]
      simp only [other, if_false, List.dropLast_concat]
      rw [ih (fun mem => plain (List.mem_append_left _ mem)) (by simp at room; omega)]
      simp

theorem cutEq {above tail : Chars} (plain : slash ∉ tail) :
    cut (above ++ slash :: tail) = some (above ++ [slash], tail) := by
  rw [cut, cutLoopSome plain (by simp; omega)]
  simp

theorem lastSlash {path : Chars} (mem : slash ∈ path) :
    ∃ above tail, path = above ++ slash :: tail ∧ slash ∉ tail := by
  obtain ⟨tail, above, shape, plain⟩ := List.eq_append_cons_of_mem (List.mem_reverse.mpr mem)
  refine ⟨above.reverse, tail.reverse, ?_, by simpa using plain⟩
  rw [← List.reverse_reverse path, shape]
  simp

theorem cutSpec {path parentPath name : Chars} (ok : cut path = some (parentPath, name)) :
    ∃ above, parentPath = above ++ [slash] ∧ path = above ++ slash :: name ∧ slash ∉ name := by
  by_cases mem : slash ∈ path
  · obtain ⟨above, tail, rfl, plain⟩ := lastSlash mem
    rw [cutEq plain] at ok
    cases ok
    exact ⟨above, rfl, rfl, plain⟩
  · rw [cut, cutLoopNone mem] at ok
    cases ok

theorem cutIff (path : Chars) : (∃ parentPath name, cut path = some (parentPath, name)) ↔ slash ∈ path := by
  constructor
  · rintro ⟨parentPath, name, ok⟩
    obtain ⟨above, -, rfl, -⟩ := cutSpec ok
    simp
  · intro mem
    obtain ⟨above, tail, rfl, plain⟩ := lastSlash mem
    exact ⟨above ++ [slash], tail, cutEq plain⟩

theorem splitFromPlain {delimiter : BitVec 8} {piece s : Chars} (plain : delimiter ∉ s)
    (filled : piece ++ s ≠ []) : splitFrom delimiter piece s = [piece ++ s] := by
  induction s generalizing piece with
  | nil =>
    rw [List.append_nil] at filled ⊢
    simp [splitFrom, filled]
  | cons c rest ih =>
    rw [List.mem_cons, not_or] at plain
    rw [splitFrom, if_neg (Ne.symm plain.1), ih plain.2 (by simp)]
    simp

theorem splitFromLast {piece above name : Chars} (plain : slash ∉ name) (named : name ≠ []) :
    splitFrom slash piece (above ++ slash :: name) = splitFrom slash piece (above ++ [slash]) ++ [name] := by
  induction above generalizing piece with
  | nil =>
    simp only [List.nil_append, splitFrom, if_true, List.cons_append]
    rw [splitFromPlain plain (by simpa using named)]
    simp
  | cons c rest ih =>
    simp only [List.cons_append, splitFrom]
    split
    · rw [ih, List.cons_append]
    · exact ih

theorem splitLast {above name : Chars} (plain : slash ∉ name) (named : name ≠ []) :
    split (above ++ slash :: name) slash = split (above ++ [slash]) slash ++ [name] := by
  simp only [split, List.append_eq_nil_iff, reduceCtorEq, and_false, if_false]
  exact splitFromLast plain named

theorem splitFromTrailing {piece s : Chars} (filled : s = [] → piece ≠ []) (bare : s.getLast? ≠ some slash) :
    splitFrom slash piece (s ++ [slash]) = splitFrom slash piece s := by
  induction s generalizing piece with
  | nil => simp [splitFrom, filled rfl]
  | cons c rest ih =>
    simp only [List.cons_append, splitFrom]
    have later : rest.getLast? ≠ some slash := by
      cases rest with
      | nil => simp
      | cons => simpa [List.getLast?_cons_cons] using bare
    split
    · next isSlash =>
      rw [ih (fun none => ?_) later]
      subst isSlash none
      simp at bare
    · exact ih (fun _ => by simp) later

theorem splitTrailing {s : Chars} (bare : s.getLast? ≠ some slash) : split (s ++ [slash]) slash = split s slash := by
  cases s with
  | nil => decide
  | cons c rest =>
    simp only [split, List.append_eq_nil_iff, reduceCtorEq, and_false, if_false]
    exact splitFromTrailing (by simp) bare

theorem splitFromFlat (piece above : Chars) :
    (splitFrom slash piece (above ++ [slash])).flatMap (fun c => c ++ [slash]) = piece ++ above ++ [slash] := by
  induction above generalizing piece with
  | nil => simp [splitFrom]
  | cons c rest ih =>
    simp only [List.cons_append, splitFrom]
    split
    · next isSlash =>
      rw [List.flatMap_cons, ih]
      simp [isSlash]
    · rw [ih]
      simp

theorem splitInj {a b : Chars} (same : split (a ++ [slash]) slash = split (b ++ [slash]) slash) : a = b := by
  simp only [split, List.append_eq_nil_iff, reduceCtorEq, and_false, if_false] at same
  have flat := congrArg (fun l => l.flatMap (fun c => c ++ [slash])) same
  simpa [splitFromFlat] using flat

theorem splitFromHead {d : BitVec 8} {piece a : Chars} (plain : d ∉ a) (b : Chars) :
    splitFrom d piece (a ++ d :: b) = (piece ++ a) :: splitFrom d [] b := by
  induction a generalizing piece with
  | nil => simp [splitFrom]
  | cons c rest ih =>
    rw [List.mem_cons, not_or] at plain
    rw [List.cons_append, splitFrom, if_neg (Ne.symm plain.1), ih plain.2]
    simp

theorem splitFlat {names : List Chars} (filled : names ≠ []) (plain : ∀ c ∈ names, slash ∉ c) :
    split (names.flatMap (fun c => c ++ [slash])) slash = names := by
  have from' : ∀ {names : List Chars}, (∀ c ∈ names, slash ∉ c) →
      splitFrom slash [] (names.flatMap (fun c => c ++ [slash])) = names := by
    intro names plain
    induction names with
    | nil => rfl
    | cons first rest ih =>
      rw [List.flatMap_cons, List.append_assoc, List.singleton_append, splitFromHead (plain first (by simp)),
        ih (fun c mem => plain c (by simp [mem])), List.nil_append]
  rw [split, if_neg, from' plain]
  cases names with
  | nil => exact absurd rfl filled
  | cons first rest => simp

theorem fastEraseLast {T : Type} [DecidableEq T] {before between : List T} {c last : T} (fresh : c ∉ before) :
    fastErase (before ++ c :: (between ++ [last])) (find (before ++ c :: (between ++ [last])) c) =
      before ++ last :: between := by
  have found : find (before ++ c :: (between ++ [last])) c = some before.length := by
    rw [find, List.idxOf?_eq_some_iff]
    refine ⟨by simp, by simp, fun j low same => fresh ?_⟩
    rw [List.getElem_append_left low] at same
    exact same ▸ List.getElem_mem low
  have tail : before ++ c :: (between ++ [last]) = (before ++ c :: between) ++ [last] := by simp
  rw [found, tail]
  simp only [fastErase, List.getLast?_concat]
  have moved : (before ++ c :: between ++ [last]).set before.length last = (before ++ last :: between) ++ [last] := by
    simp
  rw [moved, List.dropLast_concat]

theorem fastEraseEnd {T : Type} [DecidableEq T] {before : List T} {c : T} (fresh : c ∉ before) :
    fastErase (before ++ [c]) (find (before ++ [c]) c) = before := by
  have found : find (before ++ [c]) c = some before.length := by
    rw [find, List.idxOf?_eq_some_iff]
    refine ⟨by simp, by simp, fun j low same => fresh ?_⟩
    rw [List.getElem_append_left low] at same
    exact same ▸ List.getElem_mem low
  rw [found]
  simp only [fastErase, List.getLast?_concat]
  simp

theorem fastErasePerm {T : Type} {data : List T} {pos : Nat} (inside : pos < data.length) :
    (fastErase data (some pos)).Perm (data.eraseIdx pos) := by
  rcases data.eq_nil_or_concat with rfl | ⟨init, last, rfl⟩
  · cases Nat.not_lt_zero pos inside
  · simp only [List.concat_eq_append, List.length_append, List.length_singleton] at inside
    simp only [fastErase, List.concat_eq_append, List.getLast?_concat, List.set_append]
    split
    · next low =>
      rw [List.dropLast_concat, List.eraseIdx_append_of_lt_length low, List.set_eq_take_append_cons_drop,
        if_pos low, List.eraseIdx_eq_take_drop_succ, List.append_assoc]
      exact List.Perm.append_left _ (List.perm_append_singleton last _).symm
    · next high =>
      have at_end : pos = init.length := by omega
      subst at_end
      simp [List.eraseIdx_append_of_length_le]

theorem fastEraseFind {T : Type} [DecidableEq T] (data : List T) (c : T) :
    (fastErase data (find data c)).Perm (data.erase c) := by
  rw [List.erase_eq_eraseIdx]
  cases found : find data c with
  | none =>
    unfold find at found
    simp [fastErase, found]
  | some pos =>
    unfold find at found
    rw [found]
    exact fastErasePerm (List.findIdx?_eq_some_iff_findIdx_eq.mp found).1

end DimOS.Cpp.Containers
