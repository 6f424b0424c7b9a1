import Mathlib.Data.List.Basic

/-! Writing a block of entries into a list at an offset that is not behind its end: the entries
there are replaced, and the list grows where the block reaches over its end. -/
namespace DimOS.Lib.Splice

universe u
variable {α : Type u}

def overwrite (old : List α) (offset : Nat) (new : List α) : List α :=
  old.take offset ++ new ++ old.drop (offset + new.length)

theorem overwriteEnd (old new : List α) : overwrite old old.length new = old ++ new := by
  simp [overwrite]

theorem overwriteEntry (old new : List α) {offset : Nat} (inside : offset ≤ old.length) (k : Nat) :
    (overwrite old offset new)[k]? =
      if offset ≤ k ∧ k < offset + new.length then new[k - offset]? else old[k]? := by
  unfold overwrite
  rcases Nat.lt_or_ge k offset with before | after
  · rw [List.append_assoc, List.getElem?_append_left (by rw [List.length_take]; omega),
      List.getElem?_take_of_lt before, if_neg (by omega)]
  · rcases Nat.lt_or_ge k (offset + new.length) with here | past
    · rw [List.append_assoc, List.getElem?_append_right (by rw [List.length_take]; omega),
        List.length_take, Nat.min_eq_left inside, List.getElem?_append_left (by omega), if_pos ⟨after, here⟩]
    · rw [List.getElem?_append_right (by simp only [List.length_append, List.length_take]; omega),
        List.getElem?_drop, if_neg (by omega)]
      congr 1
      simp only [List.length_append, List.length_take]
      omega

end DimOS.Lib.Splice
