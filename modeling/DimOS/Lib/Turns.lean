import Mathlib.Data.List.Basic

/-! Who comes before whom in a queue that is served from its front: the relation survives taking
somebody else out of the front, and moving somebody else to the end. -/
namespace DimOS.Lib.Turns

universe u
variable {α : Type u} {y x : α}

def Ahead (y x : α) (queue : List α) : Prop := [y, x].Sublist queue

theorem Ahead.mem {queue : List α} (ahead : Ahead y x queue) : x ∈ queue :=
  ahead.subset (by simp)

theorem aheadLast {queue : List α} (mem : y ∈ queue) (x : α) : Ahead y x (queue ++ [x]) :=
  (List.singleton_sublist.mpr mem).append (List.Sublist.refl [x])

theorem Ahead.behind {before after : List α} {z : α} (ahead : Ahead y x (before ++ z :: after))
    (ready : y ∉ before) (other : y ≠ z) : Ahead y x after := by
  unfold Ahead at *
  induction before with
  | nil =>
    cases ahead with
    | cons _ rest => exact rest
    | cons_cons _ rest => exact absurd rfl other
  | cons first before ih =>
    cases ahead with
    | cons _ rest => exact ih rest (fun mem => ready (List.mem_cons_of_mem _ mem))
    | cons_cons _ rest => exact absurd List.mem_cons_self ready

theorem Ahead.delay {before after : List α} {z : α} (ahead : Ahead y x (before ++ z :: after))
    (other : y ≠ z) : Ahead y x (before ++ after ++ [z]) := by
  unfold Ahead at *
  induction before with
  | nil =>
    cases ahead with
    | cons _ rest => exact rest.trans (List.sublist_append_left _ _)
    | cons_cons _ rest => exact absurd rfl other
  | cons first before ih =>
    cases ahead with
    | cons _ rest => exact (ih rest).cons _
    | cons_cons _ rest =>
      refine List.Sublist.cons_cons _ (List.singleton_sublist.mpr ?_)
      have mem : x ∈ before ++ z :: after := List.singleton_sublist.mp rest
      have moved : (before ++ z :: after).Perm (before ++ after ++ [z]) := by
        rw [List.append_assoc]
        exact List.Perm.append_left _ (List.perm_append_singleton z after).symm
      exact moved.mem_iff.mp mem

theorem Ahead.leave {queue : List α} {z : α} (ahead : Ahead y x (queue ++ [z])) (other : x ≠ z) :
    Ahead y x queue := by
  unfold Ahead at *
  induction queue with
  | nil =>
    cases ahead with
    | cons _ rest => cases rest
    | cons_cons _ rest => cases rest
  | cons first queue ih =>
    cases ahead with
    | cons _ rest => exact (ih rest).cons _
    | cons_cons _ rest =>
      have mem : x ∈ queue ++ [z] := List.singleton_sublist.mp rest
      refine List.Sublist.cons_cons _ (List.singleton_sublist.mpr ?_)
      rcases List.mem_append.mp mem with there | last
      · exact there
      · exact absurd (List.mem_singleton.mp last) other

end DimOS.Lib.Turns
