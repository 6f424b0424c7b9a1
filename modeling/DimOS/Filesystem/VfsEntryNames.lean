import DimOS.Filesystem.Vfs

/-! The name of a directory entry on its way through the disk. fromStringName copies the
characters of a String into an array of sixteen and nothing else; addChildren makes a String of
that array, and its strlen reads on to the first zero, through the inode behind the array if
there is none before it. -/
namespace DimOS.Filesystem.Vfs.EntryNames
open Cpp.Containers
open RamDisk (DirEntry entryBytes sizeofDirEntry)

def FileNameStrLen : Nat := 16

/- `left` bounds how far the memory is readable; none is a strlen that finds no zero in it. -/
def strlen (str : Nat → BitVec 8) : Nat → Nat → Option Nat
  | 0, _ => none
  | left + 1, len => if str len = 0#8 then some len else strlen str left (len + 1)

def newString (left : Nat) (str : Nat → BitVec 8) : Option Chars :=
  (strlen str left 0).map (fun len => (List.range len).map str)

/- The memory from the fileName of an entry on: the entry, then what lies behind it. -/
def entryMemory (entry : DirEntry) (behind : Nat → BitVec 8) : Nat → BitVec 8 := fun k =>
  if k < sizeofDirEntry then entryBytes [entry] k else behind k

theorem strlenSpec {str : Nat → BitVec 8} {left len : Nat} (n : Nat) :
    strlen str left len = some n ↔
      len ≤ n ∧ n < len + left ∧ str n = 0#8 ∧ ∀ k, len ≤ k → k < n → str k ≠ 0#8 := by
  induction left generalizing len with
  | zero =>
    simp only [strlen, reduceCtorEq, false_iff]
    omega
  | succ left ih =>
    simp only [strlen]
    by_cases zero : str len = 0#8
    · rw [if_pos zero, Option.some.injEq]
      constructor
      · rintro rfl
        exact ⟨Nat.le_refl _, by omega, zero, fun k low high => by omega⟩
      · rintro ⟨low, -, -, before⟩
        by_contra other
        exact before len (Nat.le_refl _) (by omega) zero
    · rw [if_neg zero, ih]
      constructor
      · rintro ⟨low, high, last, before⟩
        refine ⟨by omega, by omega, last, fun k first past => ?_⟩
        by_cases here : k = len
        · rw [here]
          exact zero
        · exact before k (by omega) past
      · rintro ⟨low, high, last, before⟩
        have other : len ≠ n := by
          rintro rfl
          exact zero last
        exact ⟨by omega, by omega, last, fun k first past => before k (by omega) past⟩

theorem newStringIff {str : Nat → BitVec 8} {left : Nat} {target : Chars} (room : target.length < left)
    (noZero : 0#8 ∉ target) :
    newString left str = some target ↔
      str target.length = 0#8 ∧ ∀ k c, target[k]? = some c → str k = c := by
  unfold newString
  rw [Option.map_eq_some_iff]
  constructor
  · rintro ⟨len, found, shape⟩
    obtain ⟨-, -, last, -⟩ := (strlenSpec len).mp found
    have length : target.length = len := by
      rw [← shape]
      simp
    refine ⟨by rw [length]; exact last, fun k c entry => ?_⟩
    rw [← shape, List.getElem?_map] at entry
    obtain ⟨j, same, rfl⟩ := Option.map_eq_some_iff.mp entry
    obtain ⟨low, same⟩ := List.getElem?_eq_some_iff.mp same
    rw [← same, List.getElem_range]
  · rintro ⟨last, chars⟩
    refine ⟨target.length, (strlenSpec _).mpr ⟨Nat.zero_le _, by omega, last, fun k _ past zero => ?_⟩, ?_⟩
    · have entry : target[k]? = some target[k] := List.getElem?_eq_getElem past
      rw [chars k _ entry] at zero
      exact noZero (by rw [← zero]; exact List.getElem_mem past)
    · apply List.ext_getElem
      · simp
      · intro k low high
        rw [List.getElem_map, List.getElem_range]
        exact chars k _ (List.getElem?_eq_getElem high)

theorem inodeByte (inode : Int) :
    RamDisk.storeInt (fun _ => 0#8) 16 inode 16 = 0#8 ↔ inode % 256 = 0 := by
  rw [RamDisk.storeInt, if_pos (by omega), ← BitVec.toNat_inj]
  simp only [BitVec.extractLsb'_toNat, BitVec.toNat_ofInt, Nat.sub_self, Nat.mul_zero, Nat.shiftRight_zero]
  simp only [BitVec.toNat_ofNat, Nat.zero_mod]
  omega

section
variable {rest behind : Nat → BitVec 8} {name : Chars} {inode : Int}

theorem memoryName {k : Nat} (low : k < FileNameStrLen) :
    entryMemory (fromStringName rest name inode) behind k = (name[k]?).getD (rest k) := by
  unfold FileNameStrLen at low
  have first : k / 20 = 0 := by omega
  have place : k % 20 = k := by omega
  simp only [entryMemory, entryBytes, sizeofDirEntry, first, place, List.getElem?_cons_zero, fromStringName, if_pos low,
    if_pos (show k < 20 by omega)]

theorem memoryInode :
    entryMemory (fromStringName rest name inode) behind FileNameStrLen =
      RamDisk.storeInt (fun _ => 0#8) 16 inode 16 := by
  simp [entryMemory, entryBytes, sizeofDirEntry, fromStringName, FileNameStrLen]

/-- The String that addChildren makes of a stored name is that name, cut to sixteen characters,
exactly when a zero happens to stand behind it: in the memory the entry was built in for a
shorter name, in the first byte of the inode for a longer one. -/
theorem nameSurvivesIff {left : Nat} (noZero : 0#8 ∉ name) (room : FileNameStrLen < left) :
    newString left (entryMemory (fromStringName rest name inode) behind) = some (name.take FileNameStrLen) ↔
      if name.length < FileNameStrLen then rest name.length = 0#8 else inode % 256 = 0 := by
  have cut : (name.take FileNameStrLen).length = min FileNameStrLen name.length := List.length_take
  have chars : ∀ k c, (name.take FileNameStrLen)[k]? = some c →
      entryMemory (fromStringName rest name inode) behind k = c := by
    intro k c entry
    rw [List.getElem?_take] at entry
    split at entry
    · next low => rw [memoryName low, entry, Option.getD_some]
    · cases entry
  rw [newStringIff (by omega) (fun mem => noZero (List.mem_of_mem_take mem)), and_iff_left chars, cut]
  by_cases short : name.length < FileNameStrLen
  · rw [if_pos short, Nat.min_eq_right (Nat.le_of_lt short), memoryName short,
      List.getElem?_eq_none (Nat.le_refl _), Option.getD_none]
  · rw [if_neg short, Nat.min_eq_left (by omega), memoryInode, inodeByte]

end

/- A name of four characters over a zeroed entry. -/
theorem nameSurvivesShort :
    newString 64 (entryMemory (fromStringName (fun _ => 0#8) [0x66#8, 0x69#8, 0x6c#8, 0x65#8] 7) (fun _ => 1#8)) =
      some [0x66#8, 0x69#8, 0x6c#8, 0x65#8] :=
  (nameSurvivesIff (by decide) (by decide)).mpr (by decide)

/- The name "a" over memory that holds ones, and sixteen characters in front of inode 1. -/
theorem nameGrows :
    (∃ s, newString 64 (entryMemory (fromStringName (fun _ => 1#8) [0x61#8] 0) (fun _ => 0#8)) = some s ∧
      s = 0x61#8 :: List.replicate 15 1#8 ∧ s ≠ [0x61#8]) ∧
    ∃ s, newString 64 (entryMemory (fromStringName (fun _ => 0#8) (List.replicate 16 0x61#8) 1) (fun _ => 0#8)) = some s ∧
      s = List.replicate 16 0x61#8 ++ [1#8] ∧ s ≠ List.replicate 16 0x61#8 := by
  refine ⟨⟨_, by decide +kernel, rfl, by decide⟩, _, by decide +kernel, rfl, by decide⟩

end DimOS.Filesystem.Vfs.EntryNames
