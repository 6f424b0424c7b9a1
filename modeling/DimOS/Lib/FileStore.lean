import Mathlib.Data.List.Induction
import Mathlib.Logic.Function.Basic
import DimOS.Lib.Splice

/-! A store of files in directories: what is at each place, a place being the list of the names that lead to it.
A thing is hung below a directory, under a name that is not taken, and a file is overwritten from an offset on. -/
namespace DimOS.Lib.FileStore
open Lib.Splice (overwrite)

universe u w
variable {ι : Type u} {β : Type w}

inductive Entry (β : Type w) where
  | directory
  | file (bytes : List β)
  | device
  deriving DecidableEq

abbrev Store (ι : Type u) (β : Type w) := List ι → Option (Entry β)

def Store.isFile (S : Store ι β) (place : List ι) : Bool :=
  match S place with
  | some (.file _) => true
  | _ => false

def Store.length (S : Store ι β) (place : List ι) : Option Nat :=
  match S place with
  | some (.file bytes) => some bytes.length
  | _ => none

def Store.Clear (S : Store ι β) (place : List ι) : Prop :=
  ∀ k, k < place.length → S.isFile (place.take k) = false

instance (S : Store ι β) (place : List ι) : Decidable (S.Clear place) :=
  inferInstanceAs (Decidable (∀ k, k < place.length → S.isFile (place.take k) = false))

def Closed (S : Store ι β) : Prop :=
  ∀ place name, place ≠ [] → (S (place ++ [name])).isSome → S place = some .directory

variable {S : Store ι β} {place : List ι} {name : ι}

theorem lengthSpec {k : Nat} (length : S.length place = some k) :
    ∃ bytes, S place = some (.file bytes) ∧ bytes.length = k := by
  unfold Store.length at length
  split at length
  · next bytes file => exact ⟨bytes, file, Option.some.inj length⟩
  · cases length

theorem clearSnoc (clear : S.Clear place) (plain : S.isFile place = false) : S.Clear (place ++ [name]) := by
  intro k low
  rw [List.length_append, List.length_singleton] at low
  rw [List.take_append_of_le_length (Nat.lt_succ_iff.mp low)]
  rcases Nat.lt_or_eq_of_le (Nat.lt_succ_iff.mp low) with less | rfl
  · exact clear k less
  · rwa [List.take_length]

theorem Closed.above (h : Closed S) (dir : S place = some .directory) {k : Nat} (some' : k ≠ 0) (low : k ≤ place.length) :
    S (place.take k) = some .directory := by
  induction place using List.reverseRecOn with
  | nil => exact absurd (Nat.le_zero.mp low) some'
  | append_singleton init last ih =>
    rw [List.length_append, List.length_singleton] at low
    rcases Nat.lt_or_eq_of_le low with less | whole
    · have inside : init ≠ [] := by
        rintro rfl
        exact some' (Nat.lt_one_iff.mp less)
      rw [List.take_append_of_le_length (Nat.lt_succ_iff.mp less)]
      exact ih (h init last inside (by rw [dir]; rfl)) (Nat.lt_succ_iff.mp less)
    · rw [List.take_of_length_le (by rw [List.length_append, List.length_singleton]; omega)]
      exact dir

theorem Closed.clear (h : Closed S) (bare : S [] = none) (dir : S place = some .directory) : S.Clear place := by
  intro k low
  rw [Store.isFile]
  by_cases first : k = 0
  · rw [first, List.take_zero, bare]
  · rw [h.above dir first (Nat.le_of_lt low)]

variable [DecidableEq ι]

def Store.hang (S : Store ι β) (place : List ι) (name : ι) (entry : Entry β) : Store ι β :=
  match S place, S (place ++ [name]) with
  | some .directory, none => Function.update S (place ++ [name]) (some entry)
  | _, _ => S

def Store.put (S : Store ι β) (place : List ι) (offset : Nat) (new : List β) : Store ι β :=
  match S place with
  | some (.file bytes) => Function.update S place (some (.file (overwrite bytes offset new)))
  | _ => S

def Store.top (name : ι) : Store ι β := fun place => if place = [name] then some .directory else none

theorem hangNew (dir : S place = some .directory) (free : S (place ++ [name]) = none) (entry : Entry β) :
    S.hang place name entry = Function.update S (place ++ [name]) (some entry) := by
  rw [Store.hang, dir, free]

theorem hangTaken (taken : (S (place ++ [name])).isSome) (entry : Entry β) : S.hang place name entry = S := by
  obtain ⟨old, here⟩ := Option.isSome_iff_exists.mp taken
  rw [Store.hang, here]
  cases S place with
  | none => rfl
  | some above => cases above <;> rfl

theorem hangNowhere (nowhere : S place = none) (entry : Entry β) : S.hang place name entry = S := by
  rw [Store.hang, nowhere]

theorem putFile {bytes : List β} (file : S place = some (.file bytes)) (offset : Nat) (new : List β) :
    S.put place offset new = Function.update S place (some (.file (overwrite bytes offset new))) := by
  rw [Store.put, file]

theorem putElse (other : S.isFile place = false) (offset : Nat) (new : List β) : S.put place offset new = S := by
  unfold Store.isFile at other
  unfold Store.put
  split
  · next bytes file =>
    rw [file] at other
    cases other
  · rfl

theorem closedTop : Closed (Store.top name : Store ι β) := by
  intro place last inside found
  unfold Store.top at found
  split at found
  · next same =>
    cases place with
    | nil => exact absurd rfl inside
    | cons first rest => simp at same
  · cases found

theorem Closed.update (h : Closed S) {entry : Entry β} (free : S (place ++ [name]) = none)
    (dir : S place = some .directory) : Closed (Function.update S (place ++ [name]) (some entry)) := by
  intro other last inside found
  have above : S other = some .directory := by
    by_cases new : other ++ [last] = place ++ [name]
    · obtain ⟨rfl, -⟩ := List.append_inj' new rfl
      exact dir
    · rw [Function.update_of_ne new] at found
      exact h other last inside found
  have apart : other ≠ place ++ [name] := by
    rintro rfl
    rw [free] at above
    cases above
  rw [Function.update_of_ne apart]
  exact above

theorem Closed.hang (h : Closed S) (entry : Entry β) : Closed (S.hang place name entry) := by
  unfold Store.hang
  split
  · next dir free => exact h.update free dir
  · exact h

theorem Closed.put (h : Closed S) (offset : Nat) (new : List β) : Closed (S.put place offset new) := by
  unfold Store.put
  split
  · next bytes file =>
    intro other last inside found
    have above : S other = some .directory := by
      apply h other last inside
      by_cases here : other ++ [last] = place
      · rw [here, file]
        rfl
      · rwa [Function.update_of_ne here] at found
    have apart : other ≠ place := by
      rintro rfl
      rw [file] at above
      cases above
    rw [Function.update_of_ne apart]
    exact above
  · exact h

end DimOS.Lib.FileStore
