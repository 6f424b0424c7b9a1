import Mathlib
import DimOS.Cpp.Strings
import DimOS.Devices.Keyboard
import DimOS.Lib.Transition

/-! Terminal::readLine over the key codes that getch returns, with the modifier state of the
keyboard unchanged. The line is a String with its terminator; beside it stands what was printed. -/
namespace DimOS.Shell.ReadLine
open Cpp.Containers (Chars)
open Cpp.Strings
open Devices
open Lib.Transition (run)

def isPrintableASCII (ch : BitVec 8) : Bool := 32 ≤ ch.toInt && ch.toInt < 127

def readKey (keyboard : Keyboard) (s : Chars × Chars) (key : KeyCode) : Option (Chars × Chars) :=
  let c := keyboard.keyCodeToASCII key
  if isPrintableASCII c then (pushBack s.1 c).map fun line => (line, s.2 ++ [c])
  else if key = KEY_BACKSPACE then (popBack s.1).map fun line => (line, s.2 ++ [c])
  else some s

/- The loop runs as long as no KEY_RETURN arrives; getch waits for ever at the end of the list. -/
def readLoop (keyboard : Keyboard) : List KeyCode → Chars × Chars → Option (Chars × Chars)
  | [], _ => none
  | key :: keys, s =>
    match readKey keyboard s key with
    | none => none
    | some s => if key ≠ KEY_RETURN then readLoop keyboard keys s else some s

def readLine (keyboard : Keyboard) (keys : List KeyCode) (print : Bool) : Option (Chars × Chars) :=
  (readLoop keyboard keys ([0#8], [])).map fun s => (s.1, if print then s.2 ++ [0x0a#8] else s.2)

def edit (keyboard : Keyboard) (text : Chars) (key : KeyCode) : Chars :=
  if isPrintableASCII (keyboard.keyCodeToASCII key) then text ++ [keyboard.keyCodeToASCII key]
  else if key = KEY_BACKSPACE then text.dropLast
  else text

def typed (keyboard : Keyboard) (keys : List KeyCode) : Chars := keys.foldl (edit keyboard) []

def NoDeletionBefore (keyboard : Keyboard) (keys : List KeyCode) : Prop :=
  ∀ before after, keys = before ++ KEY_BACKSPACE :: after → typed keyboard before ≠ []

/- readLine returns the text, and the line is a well formed String of the text before every key. -/
structure Edits (keyboard : Keyboard) (keys : List KeyCode) (print : Bool) : Prop where
  returns : ∃ line shown, readLine keyboard (keys ++ [KEY_RETURN]) print = some (line, shown) ∧
    WellFormed line ∧ chars line = typed keyboard keys
  throughout : ∀ before, before <+: keys → ∃ line shown,
    run (readKey keyboard) ([0#8], []) before = some (line, shown) ∧
      WellFormed line ∧ chars line = typed keyboard before

theorem backspaceNotPrintable (keyboard : Keyboard) :
    isPrintableASCII (keyboard.keyCodeToASCII KEY_BACKSPACE) = false := by
  rw [backspaceASCII]
  decide

theorem returnNotPrintable (keyboard : Keyboard) :
    isPrintableASCII (keyboard.keyCodeToASCII KEY_RETURN) = false := by
  rw [returnASCII]
  decide

theorem returnKey (keyboard : Keyboard) (s : Chars × Chars) : readKey keyboard s KEY_RETURN = some s := by
  simp only [readKey, returnNotPrintable, Bool.false_eq_true, if_false]
  rw [if_neg (by decide)]

theorem readKeyEq (keyboard : Keyboard) (text shown : Chars) (key : KeyCode) :
    (key = KEY_BACKSPACE ∧ text = [] ∧ readKey keyboard (text ++ [0#8], shown) key = none) ∨
      ((key = KEY_BACKSPACE → text ≠ []) ∧ ∃ printed,
        readKey keyboard (text ++ [0#8], shown) key = some (edit keyboard text key ++ [0#8], printed)) := by
  by_cases printable : isPrintableASCII (keyboard.keyCodeToASCII key) = true
  · right
    refine ⟨?_, shown ++ [keyboard.keyCodeToASCII key], ?_⟩
    · rintro rfl
      rw [backspaceNotPrintable] at printable
      cases printable
    · simp [readKey, edit, printable]
  · simp only [readKey, edit, printable, Bool.false_eq_true, if_false, popBackEq]
    by_cases deletes : key = KEY_BACKSPACE
    · by_cases empty : text = []
      · simp [deletes, empty]
      · simp [deletes, empty]
    · simp [deletes]

theorem typedAppend (keyboard : Keyboard) (before : List KeyCode) (key : KeyCode) :
    typed keyboard (before ++ [key]) = edit keyboard (typed keyboard before) key := by
  simp [typed]

theorem noDeletionTake {keyboard : Keyboard} {before after : List KeyCode}
    (none : NoDeletionBefore keyboard (before ++ after)) : NoDeletionBefore keyboard before := by
  rintro front back rfl
  exact none front (back ++ after) (by simp)

theorem readKeysRun (keyboard : Keyboard) {keys : List KeyCode} (none : NoDeletionBefore keyboard keys) :
    ∃ shown, run (readKey keyboard) ([0#8], []) keys = some (typed keyboard keys ++ [0#8], shown) := by
  induction keys using List.reverseRecOn with
  | nil => exact ⟨[], rfl⟩
  | append_singleton before key ih =>
    obtain ⟨shown, ran⟩ := ih (noDeletionTake none)
    rw [Lib.Transition.runAppend, ran, Option.bind_some, Lib.Transition.runSingle, typedAppend]
    rcases readKeyEq keyboard (typed keyboard before) shown key with ⟨rfl, empty, -⟩ | ⟨-, printed, step⟩
    · exact absurd empty (none before [] rfl)
    · exact ⟨printed, step⟩

theorem runDeletion (keyboard : Keyboard) {before after : List KeyCode}
    (earlier : NoDeletionBefore keyboard before) (empty : typed keyboard before = []) :
    run (readKey keyboard) ([0#8], []) (before ++ KEY_BACKSPACE :: after) = none := by
  obtain ⟨shown, ran⟩ := readKeysRun keyboard earlier
  rw [Lib.Transition.runAppend, ran, Option.bind_some, empty, Lib.Transition.run]
  rcases readKeyEq keyboard [] shown KEY_BACKSPACE with ⟨-, -, stuck⟩ | ⟨filled, -⟩
  · rw [stuck]
    rfl
  · exact absurd rfl (filled rfl)

theorem readLoopEq (keyboard : Keyboard) {keys : List KeyCode} (only : KEY_RETURN ∉ keys) (s : Chars × Chars) :
    readLoop keyboard (keys ++ [KEY_RETURN]) s = run (readKey keyboard) s keys := by
  induction keys generalizing s with
  | nil => simp [readLoop, returnKey, run]
  | cons key keys ih =>
    rw [List.mem_cons, not_or] at only
    rw [List.cons_append, readLoop, run]
    cases readKey keyboard s key with
    | none => rfl
    | some next =>
      simp only [ne_eq, Ne.symm only.1, not_false_eq_true, if_true, Option.bind_some]
      exact ih only.2 next

theorem firstDeletion {keyboard : Keyboard} {keys : List KeyCode} (some : ¬ NoDeletionBefore keyboard keys) :
    ∃ before after, keys = before ++ KEY_BACKSPACE :: after ∧ NoDeletionBefore keyboard before ∧
      typed keyboard before = [] := by
  induction keys using List.reverseRecOn with
  | nil =>
    refine absurd (fun before after shape => ?_) some
    simp at shape
  | append_singleton front key ih =>
    by_cases earlier : NoDeletionBefore keyboard front
    · unfold NoDeletionBefore at some
      push Not at some
      obtain ⟨before, after, shape, empty⟩ := some
      rcases after.eq_nil_or_concat with rfl | ⟨middle, last, rfl⟩
      · obtain ⟨rfl, -⟩ := List.append_inj' shape rfl
        exact ⟨front, [], shape, earlier, empty⟩
      · have inside : front = before ++ KEY_BACKSPACE :: middle := by
          have whole : front ++ [key] = (before ++ KEY_BACKSPACE :: middle) ++ [last] := by
            rw [shape]
            simp
          exact (List.append_inj' whole rfl).1
        exact absurd empty (earlier before middle inside)
    · obtain ⟨before, after, rfl, rest⟩ := ih earlier
      exact ⟨before, after ++ [key], by simp, rest⟩

/-- Line editing works exactly when no KEY_BACKSPACE arrives while the line is empty. -/
theorem readLineIff (keyboard : Keyboard) (keys : List KeyCode) (print : Bool) (only : KEY_RETURN ∉ keys) :
    Edits keyboard keys print ↔ NoDeletionBefore keyboard keys := by
  constructor
  · intro edits
    by_contra some
    obtain ⟨before, after, shape, earlier, empty⟩ := firstDeletion some
    obtain ⟨line, shown, ran, -⟩ := edits.throughout keys List.prefix_rfl
    rw [shape, runDeletion keyboard earlier empty] at ran
    cases ran
  · intro none
    obtain ⟨shown, ran⟩ := readKeysRun keyboard none
    constructor
    · refine ⟨typed keyboard keys ++ [0#8], if print then shown ++ [0x0a#8] else shown, ?_,
        wellFormedAppend _, charsAppend _ _⟩
      rw [readLine, readLoopEq keyboard only, ran]
      rfl
    · rintro before ⟨after, rfl⟩
      obtain ⟨shown, ran⟩ := readKeysRun keyboard (noDeletionTake none)
      exact ⟨typed keyboard before ++ [0#8], shown, ran, wellFormedAppend _, charsAppend _ _⟩

/- A letter, its deletion, another letter. -/
theorem readLineLetters : Edits Keyboard.initial [KEY_A, KEY_BACKSPACE, KEY_B] true := by
  refine (readLineIff Keyboard.initial [KEY_A, KEY_BACKSPACE, KEY_B] true (by decide)).mpr fun before after shape => ?_
  have place : before ∈ [KEY_A, KEY_BACKSPACE, KEY_B].inits := (List.mem_inits _ _).mpr ⟨_, shape.symm⟩
  have next : ([KEY_A, KEY_BACKSPACE, KEY_B].drop before.length).head? = some KEY_BACKSPACE := by
    rw [shape, List.drop_left]
    rfl
  have only : ∀ p ∈ [KEY_A, KEY_BACKSPACE, KEY_B].inits,
      ([KEY_A, KEY_BACKSPACE, KEY_B].drop p.length).head? = some KEY_BACKSPACE → typed Keyboard.initial p ≠ [] := by
    decide
  exact only before place next

/- A deletion at the prompt. -/
theorem readLineDeletion : ¬ Edits Keyboard.initial [KEY_BACKSPACE] true := by
  intro edits
  obtain ⟨line, shown, ran, -⟩ := edits.throughout [KEY_BACKSPACE] List.prefix_rfl
  have stuck : run (readKey Keyboard.initial) ([0#8], []) [KEY_BACKSPACE] = none := by decide
  rw [stuck] at ran
  cases ran

end DimOS.Shell.ReadLine
