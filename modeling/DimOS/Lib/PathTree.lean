import Mathlib.Data.List.Induction

/-! Trees kept in a memory of nodes: an edge function names the child behind each label, and
a node is found by walking a list of labels from the root. One edge to a fresh node adds
exactly one path. -/
namespace DimOS.Lib.PathTree

universe u w
variable {α : Type u} {ι : Type w}

abbrev Edges (α : Type u) (ι : Type w) := α → ι → Option α

def walk (next : Edges α ι) : α → List ι → Option α
  | t, [] => some t
  | t, i :: is => (next t i).bind (fun child => walk next child is)

theorem walkAppend (next : Edges α ι) (t : α) (p q : List ι) :
    walk next t (p ++ q) = (walk next t p).bind (fun mid => walk next mid q) := by
  induction p generalizing t with
  | nil => rfl
  | cons i p ih =>
    simp only [List.cons_append, walk]
    cases next t i with
    | none => rfl
    | some child => exact ih child

theorem walkSnoc (next : Edges α ι) (t : α) (p : List ι) (i : ι) :
    walk next t (p ++ [i]) = (walk next t p).bind (fun mid => next mid i) := by
  rw [walkAppend]
  cases walk next t p with
  | none => rfl
  | some mid =>
    simp only [Option.bind_some, walk]
    cases next mid i <;> rfl

def Proper (next : Edges α ι) (root : α) : Prop :=
  ∀ p q t, walk next root p = some t → walk next root q = some t → p = q

/- A fresh node without children, hung behind a free label of a node. -/
structure Grafted (next next' : Edges α ι) (t : α) (i : ι) (child : α) : Prop where
  free : next t i = none
  linked : next' t i = some child
  leaf : ∀ j, next' child j = none
  same : ∀ u j, u ≠ child → ¬ (u = t ∧ j = i) → next' u j = next u j

section graft
variable [DecidableEq ι] {next next' : Edges α ι} {root t child : α} {p : List ι} {i : ι}

theorem walkGrafted (graft : Grafted next next' t i child) (proper : Proper next root)
    (parent : walk next root p = some t) (fresh : ∀ q, walk next root q ≠ some child) (q : List ι) :
    walk next' root q = if q = p ++ [i] then some child else walk next root q := by
  induction q using List.reverseRecOn with
  | nil => simp [walk]
  | append_singleton q j ih =>
    have before : walk next root (p ++ [i]) = none := by
      rw [walkSnoc, parent]
      exact graft.free
    rw [walkSnoc, walkSnoc, ih]
    by_cases below : q = p ++ [i]
    · subst below
      have longer : p ++ [i] ++ [j] ≠ p ++ [i] := by
        intro same
        have := congrArg List.length same
        simp at this
      rw [if_pos rfl, if_neg longer, before]
      exact graft.leaf j
    · rw [if_neg below]
      cases found : walk next root q with
      | none =>
        have other : q ++ [j] ≠ p ++ [i] := by
          intro same
          obtain ⟨rfl, -⟩ := List.append_inj' same rfl
          rw [parent] at found
          contradiction
        rw [if_neg other]
        rfl
      | some u =>
        have old : u ≠ child := fun same => fresh q (by rw [found, same])
        simp only [Option.bind_some]
        by_cases here : u = t ∧ j = i
        · obtain ⟨rfl, rfl⟩ := here
          rw [proper q p u found parent, if_pos rfl]
          exact graft.linked
        · have other : q ++ [j] ≠ p ++ [i] := by
            intro same
            obtain ⟨rfl, tail⟩ := List.append_inj' same rfl
            rw [parent] at found
            exact here ⟨(Option.some.inj found).symm, by simpa using tail⟩
          rw [if_neg other]
          exact graft.same u j old here

theorem properGrafted (graft : Grafted next next' t i child) (proper : Proper next root)
    (parent : walk next root p = some t) (fresh : ∀ q, walk next root q ≠ some child) :
    Proper next' root := by
  intro a b u atA atB
  rw [walkGrafted graft proper parent fresh] at atA atB
  by_cases first : a = p ++ [i]
  · by_cases second : b = p ++ [i]
    · rw [first, second]
    · rw [if_pos first] at atA
      rw [if_neg second, ← atA] at atB
      exact absurd atB (fresh b)
  · rw [if_neg first] at atA
    by_cases second : b = p ++ [i]
    · rw [if_pos second, ← atA] at atB
      exact absurd atB.symm (fresh a)
    · rw [if_neg second] at atB
      exact proper a b u atA atB

end graft

section prune
variable {next next' : Edges α ι} {root t : α} {p : List ι} {i : ι} {ok : ι → Prop}

theorem walkPruned (same : ∀ u j, ok j → ¬ (u = t ∧ j = i) → next' u j = next u j) (proper : Proper next root)
    (parent : walk next root p = some t) {q : List ι} (labels : ∀ j ∈ q, ok j) (apart : ¬ (p ++ [i]) <+: q) :
    walk next' root q = walk next root q := by
  induction q using List.reverseRecOn with
  | nil => rfl
  | append_singleton q j ih =>
    rw [walkSnoc, walkSnoc, ih (fun k mem => labels k (List.mem_append_left _ mem))
      (fun above => apart (above.trans (List.prefix_append q [j])))]
    cases found : walk next root q with
    | none => rfl
    | some u =>
      refine same u j (labels j (by simp)) ?_
      rintro ⟨rfl, rfl⟩
      rw [proper q p u found parent] at apart
      exact apart (List.prefix_refl _)

end prune
end DimOS.Lib.PathTree
