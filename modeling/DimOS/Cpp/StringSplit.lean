import Mathlib
import DimOS.Cpp.Strings

/-! What String::split returns. On the characters it is the function that path lookup and command
parsing use, as long as every position fits an int; the joined components give the String back. -/
namespace DimOS.Cpp.StringSplit
open Containers (Chars splitFrom splitFromHead splitFromPlain)
open Strings

theorem findNone {before rest : Chars} {d : BitVec 8} (plain : d ∉ rest) (nonzero : d ≠ 0#8)
    (fits : before.length + rest.length + 1 < intLimit) :
    find (before ++ rest ++ [0#8]) d before.length = some none := by
  have absent : d ∉ rest ++ [0#8] := by simp [plain, nonzero]
  have scanned := @vectorFindNone _ [] _ absent before (by simp; omega)
  have left : (before ++ rest ++ [0#8]).length - before.length = (rest ++ [0#8]).length := by simp
  rw [List.append_nil, ← List.append_assoc] at scanned
  rw [find, left, scanned]
  rfl

theorem findSome {before piece rest : Chars} {d : BitVec 8} (plain : d ∉ piece)
    (fits : before.length + piece.length < intLimit) :
    find (before ++ (piece ++ d :: rest) ++ [0#8]) d before.length =
      some (some (before.length + piece.length)) := by
  have scanned := @vectorFindSome _ (rest ++ [0#8]) _ plain before fits
    ((before ++ (piece ++ d :: rest) ++ [0#8]).length - before.length) (by simp)
  have shape : before ++ piece ++ d :: (rest ++ [0#8]) = before ++ (piece ++ d :: rest) ++ [0#8] := by simp
  rw [shape] at scanned
  have inside : before.length + piece.length < size (before ++ (piece ++ d :: rest) ++ [0#8]) := by
    rw [sizeAppend]
    simp
  rw [find, scanned]
  simp only [Option.bind_some, Option.filter, inside, decide_true, if_true]

theorem findOver {before s after : Chars} {d : BitVec 8} (plain : d ∉ s) (small : before.length < intLimit)
    (past : intLimit ≤ before.length + s.length) : find (before ++ s ++ after) d before.length = none := by
  rw [find, vectorFindOver plain before small past (by simp)]
  rfl

theorem splitLoopEq {d : BitVec 8} (nonzero : d ≠ 0#8) {left : Nat} {before rest : Chars} (res : List Chars)
    (enough : rest.length < left) (fits : before.length + rest.length + 1 < intLimit) :
    ∃ front pieces tail, before ++ rest = front ++ tail ∧
      splitFrom d [] rest = pieces ++ (if tail = [] then [] else [tail]) ∧
      splitLoop (before ++ rest ++ [0#8]) d left before.length res =
        some (res ++ pieces.map (· ++ [0#8]), front.length) := by
  induction left generalizing before rest res with
  | zero => omega
  | succ left ih =>
    by_cases mem : d ∈ rest
    · obtain ⟨a, b, rfl, plain⟩ := List.eq_append_cons_of_mem mem
      simp only [List.length_append, List.length_cons] at enough fits
      have cut := @substrEq before a (d :: b ++ [0#8]) (by omega)
      have copied : before ++ a ++ (d :: b ++ [0#8]) = before ++ (a ++ d :: b) ++ [0#8] := by simp
      have moved : before ++ a ++ [d] ++ b ++ [0#8] = before ++ (a ++ d :: b) ++ [0#8] := by simp
      rw [copied] at cut
      have length : (before ++ a ++ [d]).length = before.length + a.length + 1 := by simp; omega
      obtain ⟨front, pieces, tail, shape, later, loop⟩ :=
        @ih (before ++ a ++ [d]) b (res ++ [a ++ [0#8]]) (by omega) (by omega)
      refine ⟨front, a :: pieces, tail, by rw [← shape]; simp, ?_, ?_⟩
      · rw [splitFromHead plain, later]
        rfl
      · rw [moved, length] at loop
        rw [splitLoop, findSome plain (by omega)]
        simp only [Nat.add_sub_cancel_left, cut, show before.length + a.length + 1 < intLimit by omega, if_true]
        rw [loop]
        simp
    · refine ⟨before, [], rest, rfl, ?_, ?_⟩
      · cases rest with
        | nil => rfl
        | cons c rest => simpa using @splitFromPlain d [] _ mem (by simp)
      · rw [splitLoop, findNone mem nonzero fits]
        simp

theorem splitEq (s : Chars) {d : BitVec 8} (nonzero : d ≠ 0#8) (fits : s.length + 1 < intLimit) :
    Strings.split (s ++ [0#8]) d = some ((Containers.split s d).map (· ++ [0#8])) := by
  obtain ⟨front, pieces, tail, shape, cutInto, loop⟩ :=
    @splitLoopEq d nonzero ((s ++ [0#8]).length + 1) [] s [] (by simp) (by simpa using fits)
  simp only [List.nil_append, List.length_nil] at shape loop
  have total : s.length = front.length + tail.length := by rw [shape, List.length_append]
  rw [Strings.split, loop]
  simp only [sizeAppend, Containers.split]
  by_cases behind : tail = []
  · subst behind
    cases s with
    | nil =>
      have none : front = [] := by simpa using shape.symm
      have cut := @substrEq [] [] [0#8] (by decide)
      have no : pieces = [] := by simpa [splitFrom] using cutInto.symm
      simp only [List.append_nil, List.length_nil, List.nil_append] at cut
      simp [none, no, cut]
    | cons c rest =>
      have same : front.length = (c :: rest).length := by simpa using total.symm
      have empty : (c :: rest).length ≠ 0 := by simp
      simp only [same, empty, ne_eq, not_true_eq_false, or_self, if_false, reduceCtorEq, cutInto, if_true,
        List.append_nil]
  · have longer : 0 < tail.length := List.length_pos_iff.mpr behind
    have filled : s ≠ [] := by
      rintro rfl
      simp at total
      omega
    have cut := @substrEq front tail [0#8] (by omega)
    have differs : s.length = 0 ∨ front.length ≠ s.length := by omega
    have behindLength : s.length - front.length = tail.length := by omega
    rw [← shape] at cut
    simp only [if_pos differs, if_neg filled, behindLength, cut, cutInto, if_neg behind]
    simp

theorem splitLoopOver {d : BitVec 8} (nonzero : d ≠ 0#8) {left : Nat} {before rest : Chars} (res : List Chars)
    (small : before.length < intLimit) (past : intLimit ≤ before.length + rest.length + 1) :
    splitLoop (before ++ rest ++ [0#8]) d left before.length res = none := by
  induction left generalizing before rest res with
  | zero => rfl
  | succ left ih =>
    rw [splitLoop]
    by_cases mem : d ∈ rest
    · obtain ⟨a, b, rfl, plain⟩ := List.eq_append_cons_of_mem mem
      by_cases near : before.length + a.length < intLimit
      · rw [findSome plain near]
        simp only [Nat.add_sub_cancel_left]
        cases substr (before ++ (a ++ d :: b) ++ [0#8]) before.length a.length with
        | none => rfl
        | some piece =>
          dsimp only
          split
          · next room =>
            have moved : before ++ (a ++ d :: b) ++ [0#8] = before ++ a ++ [d] ++ b ++ [0#8] := by simp
            have length : (before ++ a ++ [d]).length = before.length + a.length + 1 := by simp; omega
            simp only [List.length_append, List.length_cons] at past
            have later := @ih (before ++ a ++ [d]) b (res ++ [piece]) (by omega) (by omega)
            rw [moved, ← length]
            exact later
          · rfl
      · have cut := @findOver before a (d :: b ++ [0#8]) d plain small (by omega)
        have shape : before ++ a ++ (d :: b ++ [0#8]) = before ++ (a ++ d :: b) ++ [0#8] := by simp
        rw [shape] at cut
        rw [cut]
    · have absent : d ∉ rest ++ [0#8] := by simp [mem, nonzero]
      have cut := @findOver before (rest ++ [0#8]) [] d absent small (by simp; omega)
      rw [List.append_nil, ← List.append_assoc] at cut
      rw [cut]

theorem splitOver (s : Chars) {d : BitVec 8} (nonzero : d ≠ 0#8) (past : intLimit ≤ s.length + 1) :
    Strings.split (s ++ [0#8]) d = none := by
  have loop := @splitLoopOver d nonzero ((s ++ [0#8]).length + 1) [] s []
    (by decide) (by simpa using past)
  simp only [List.nil_append, List.length_nil] at loop
  rw [Strings.split, loop]

theorem splitFromPieces {d : BitVec 8} {piece s : Chars} (plain : d ∉ piece) :
    ∀ c ∈ splitFrom d piece s, d ∉ c := by
  induction s generalizing piece with
  | nil =>
    rw [splitFrom]
    split
    · simp
    · simpa using plain
  | cons x rest ih =>
    rw [splitFrom]
    split
    · intro c mem
      rcases List.mem_cons.mp mem with rfl | mem
      · exact plain
      · exact ih (by simp) c mem
    · next other => exact ih (by simp [plain, Ne.symm other])

theorem splitFromNil {d : BitVec 8} {piece s : Chars} : splitFrom d piece s = [] ↔ piece ++ s = [] := by
  induction s generalizing piece with
  | nil => simp [splitFrom]
  | cons x rest ih =>
    rw [splitFrom]
    split
    · simp
    · rw [ih]
      simp

theorem splitFromJoin {d : BitVec 8} {piece s : Chars} :
    [d].intercalate (splitFrom d piece s) = if s.getLast? = some d then (piece ++ s).dropLast else piece ++ s := by
  induction s generalizing piece with
  | nil =>
    rw [splitFrom]
    split
    · next empty => simp [empty]
    · simp
  | cons x rest ih =>
    rw [splitFrom]
    split
    · next isDelimiter =>
      subst isDelimiter
      cases rest with
      | nil => simp [splitFrom]
      | cons y rest =>
        have filled : splitFrom x [] (y :: rest) ≠ [] := by simp [splitFromNil]
        obtain ⟨head, tail, shape⟩ := List.exists_cons_of_ne_nil filled
        have join := @ih []
        rw [shape] at join ⊢
        rw [List.intercalate_cons_cons, join, List.getLast?_cons_cons]
        have drop : (piece ++ x :: y :: rest).dropLast = piece ++ x :: (y :: rest).dropLast := by simp
        rw [drop]
        split <;> simp
    · next other =>
      have last : (x :: rest).getLast? = some d ↔ rest.getLast? = some d := by
        cases rest with
        | nil => simp [other]
        | cons y rest => rw [List.getLast?_cons_cons]
      rw [ih]
      simp [last]

theorem splitJoin (s : Chars) (d : BitVec 8) :
    [d].intercalate (Containers.split s d) = if s.getLast? = some d then s.dropLast else s := by
  cases s with
  | nil => simp [Containers.split]
  | cons c rest => exact splitFromJoin

theorem splitPieces (s : Chars) (d : BitVec 8) : ∀ c ∈ Containers.split s d, d ∉ c := by
  unfold Containers.split
  split
  · simp
  · exact splitFromPieces (by simp)

theorem splitFilled (s : Chars) (d : BitVec 8) : Containers.split s d ≠ [] := by
  unfold Containers.split
  split
  · simp
  · next filled => simpa [splitFromNil] using filled

/- The components are well formed Strings without the delimiter, there is one, and joined they
give the String, up to a delimiter at its end. -/
structure Splits (data : Chars) (d : BitVec 8) (components : List Chars) : Prop where
  wellFormed : ∀ c ∈ components, WellFormed c
  free : ∀ c ∈ components, d ∉ chars c
  filled : components ≠ []
  joined : [d].intercalate (components.map chars) =
    if (chars data).getLast? = some d then (chars data).dropLast else chars data

theorem splitSplits (s : Chars) (d : BitVec 8) :
    Splits (s ++ [0#8]) d ((Containers.split s d).map (· ++ [0#8])) where
  wellFormed c mem := by
    obtain ⟨piece, -, rfl⟩ := List.mem_map.mp mem
    exact wellFormedAppend piece
  free c mem := by
    obtain ⟨piece, inside, rfl⟩ := List.mem_map.mp mem
    rw [charsAppend]
    exact splitPieces s d piece inside
  filled := by simpa using splitFilled s d
  joined := by
    have same : ((Containers.split s d).map (· ++ [0#8])).map chars = Containers.split s d := by
      simp [Function.comp_def]
    rw [same, charsAppend, splitJoin]

/-- A well formed String splits as it should exactly when all its bytes have int positions with
an int behind them. -/
theorem splitIff {data : Chars} (well : WellFormed data) {d : BitVec 8} (nonzero : d ≠ 0#8) :
    (∃ components, Strings.split data d = some components ∧ Splits data d components) ↔
      size data < 2 ^ 31 - 1 := by
  have shape := wellFormedEq well
  generalize chars data = s at shape
  subst shape
  have limit : intLimit = 2 ^ 31 := rfl
  rw [sizeAppend]
  constructor
  · rintro ⟨components, ok, -⟩
    by_contra long
    rw [splitOver s nonzero (by omega)] at ok
    cases ok
  · intro fits
    exact ⟨_, splitEq s nonzero (by omega), splitSplits s d⟩

/- The command line `cd /`. -/
theorem splitCommand : ∃ components, Strings.split [0x63#8, 0x64#8, 0x20#8, 0x2f#8, 0#8] 0x20#8 = some components ∧
    Splits [0x63#8, 0x64#8, 0x20#8, 0x2f#8, 0#8] 0x20#8 components :=
  (splitIff ⟨rfl⟩ (by decide)).mpr (by decide)

/- The shortest line of one letter that does not split. -/
theorem splitLongLine : ¬ ∃ components,
    Strings.split (List.replicate (2 ^ 31 - 1) 0x61#8 ++ [0#8]) 0x20#8 = some components ∧
      Splits (List.replicate (2 ^ 31 - 1) 0x61#8 ++ [0#8]) 0x20#8 components := by
  rintro ⟨components, ok, -⟩
  have limit : intLimit = 2 ^ 31 := rfl
  rw [splitOver _ (by decide) (by rw [List.length_replicate, limit]; omega)] at ok
  cases ok

end DimOS.Cpp.StringSplit
