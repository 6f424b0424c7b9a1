import Mathlib
import DimOS.Devices.Keyboard
import DimOS.Lib.Transition

/-! The modifier flags against the keys that are held down. A key is what the controller sends when
it goes down and when it comes up, which may be several bytes. -/
namespace DimOS.Devices.Modifiers
open Lib.Transition (run)

structure Key where
  makeCode : List (BitVec 8)
  breakCode : List (BitVec 8)
  deriving DecidableEq

def plainKey (code : BitVec 8) : Key := ⟨[code], [code ||| 0x80#8]⟩

def extendedKey (code : BitVec 8) : Key := ⟨[0xe0#8, code], [0xe0#8, code ||| 0x80#8]⟩

def leftKey : Modifier → Key
  | .shift => plainKey 0x2a#8
  | .ctrl => plainKey 0x1d#8
  | .alt => plainKey 0x38#8

def rightKey : Modifier → Key
  | .shift => plainKey 0x36#8
  | .ctrl => extendedKey 0x1d#8
  | .alt => extendedKey 0x38#8

inductive Event where
  | press (key : Key)
  | release (key : Key)

def Event.bytes : Event → List (BitVec 8)
  | .press key => key.makeCode
  | .release key => key.breakCode

def receive (device : Keyboard) (data : BitVec 8) : Option Keyboard :=
  (isrHandler CTRL_STATS_MASK_OUT_BUF data device).map Prod.fst

def deliver (device : Keyboard) (e : Event) : Option Keyboard := run receive device e.bytes

def after (down : List Key) : Event → List Key
  | .press key => key :: down
  | .release key => down.filter (· ≠ key)

def downAfter (events : List Event) : List Key := events.foldl after []

def Held (m : Modifier) (down : List Key) : Prop := leftKey m ∈ down ∨ rightKey m ∈ down

instance (m : Modifier) (down : List Key) : Decidable (Held m down) := inferInstanceAs (Decidable (_ ∨ _))

def Agrees (device : Keyboard) (down : List Key) : Prop := ∀ m, device.modifier m = decide (Held m down)

/- The last byte that the table takes for one of the modifier's keys. -/
def lastMark (m : Modifier) (bytes : List (BitVec 8)) : Option Bool :=
  bytes.foldl (fun last data => (mark m data).or last) none

/- Every byte is looked up inside the table, and what the table takes for a key of a modifier goes
down exactly when one of its keys is down afterwards. -/
structure Fine (down : List Key) (e : Event) : Prop where
  inside : ∀ data ∈ e.bytes, InTable data
  marks : ∀ m v, lastMark m e.bytes = some v → v = decide (Held m (after down e))

theorem markFold {α : Type} (f : BitVec 8 → Option α) (bytes : List (BitVec 8)) (last : Option α) :
    bytes.foldl (fun last data => (f data).or last) last =
      (bytes.foldl (fun last data => (f data).or last) none).or last := by
  induction bytes generalizing last with
  | nil => rfl
  | cons data rest ih =>
    simp only [List.foldl_cons, Option.or_none]
    rw [ih, ih (f data), Option.or_assoc]

theorem lastMarkCons (m : Modifier) (data : BitVec 8) (rest : List (BitVec 8)) :
    lastMark m (data :: rest) = (lastMark m rest).or (mark m data) := by
  unfold lastMark
  rw [List.foldl_cons, Option.or_none, markFold]

theorem receiveRun {device : Keyboard} (idle : device.Idle) (bytes : List (BitVec 8)) :
    (∀ data ∈ bytes, InTable data) ∧ (∃ device', run receive device bytes = some device' ∧ device'.Idle ∧
        ∀ m, device'.modifier m = (lastMark m bytes).getD (device.modifier m)) ∨
      (¬ ∀ data ∈ bytes, InTable data) ∧ run receive device bytes = none := by
  induction bytes generalizing device with
  | nil => exact .inl ⟨by simp, device, rfl, idle, fun m => rfl⟩
  | cons data rest ih =>
    rw [run, receive]
    rcases @handlerSpec CTRL_STATS_MASK_OUT_BUF (by decide) data _ idle with
      ⟨outside, stuck⟩ | ⟨inside, next, key, made, handled⟩
    · right
      rw [stuck]
      exact ⟨fun all => outside (all data (by simp)), rfl⟩
    · rw [made]
      simp only [Option.map_some, Option.bind_some, List.forall_mem_cons]
      rcases ih handled.idle with ⟨all, device', ran, idle', modifiers⟩ | ⟨some, stuck⟩
      · refine .inl ⟨⟨inside, all⟩, device', ran, idle', fun m => ?_⟩
        rw [modifiers, handled.modifiers, lastMarkCons]
        cases lastMark m rest <;> rfl
      · exact .inr ⟨fun all => some all.2, stuck⟩

theorem unmarkedKey {m : Modifier} {key : Key} (unmarked : lastMark m key.makeCode = none ∨ lastMark m key.breakCode = none) :
    leftKey m ≠ key ∧ rightKey m ≠ key := by
  constructor <;>
  · rintro rfl
    revert unmarked
    cases m <;> decide

theorem unmarkedHeld {m : Modifier} {down : List Key} {e : Event} (unmarked : lastMark m e.bytes = none) :
    Held m (after down e) ↔ Held m down := by
  cases e with
  | press key =>
    obtain ⟨notLeft, notRight⟩ := unmarkedKey (.inl unmarked)
    simp [Held, after, notLeft, notRight]
  | release key =>
    obtain ⟨notLeft, notRight⟩ := unmarkedKey (.inr unmarked)
    simp [Held, after, notLeft, notRight]

theorem deliverIff {device : Keyboard} {down : List Key} (idle : device.Idle) (agrees : Agrees device down) (e : Event) :
    (∃ device', deliver device e = some device' ∧ Agrees device' (after down e)) ↔ Fine down e := by
  rcases receiveRun idle e.bytes with ⟨inside, device', ran, -, modifiers⟩ | ⟨outside, stuck⟩
  · constructor
    · rintro ⟨other, made, agrees'⟩
      cases Option.some.inj (ran.symm.trans made)
      refine ⟨inside, fun m v marked => ?_⟩
      rw [← agrees' m, modifiers, marked]
      rfl
    · intro fine
      refine ⟨device', ran, fun m => ?_⟩
      rw [modifiers]
      cases marked : lastMark m e.bytes with
      | some v => exact fine.marks m v marked
      | none =>
        rw [Option.getD_none, agrees m]
        exact decide_eq_decide.mpr (unmarkedHeld marked).symm
  · constructor
    · rintro ⟨other, made, -⟩
      rw [deliver, stuck] at made
      cases made
    · intro fine
      exact absurd fine.inside outside

theorem deliverIdle {device device' : Keyboard} (idle : device.Idle) {e : Event}
    (made : deliver device e = some device') : device'.Idle := by
  rcases receiveRun idle e.bytes with ⟨-, other, ran, idle', -⟩ | ⟨-, stuck⟩
  · cases Option.some.inj (ran.symm.trans made)
    exact idle'
  · rw [deliver, stuck] at made
    cases made

def modifierKeys (m : Modifier) : List Key := [leftKey m, rightKey m]

theorem ownMarks {m : Modifier} {key : Key} (own : key ∈ modifierKeys m) (n : Modifier) :
    lastMark n key.makeCode = (if m = n then some true else none) ∧
      lastMark n key.breakCode = (if m = n then some false else none) := by
  simp only [modifierKeys, List.mem_cons, List.not_mem_nil, or_false] at own
  rcases own with rfl | rfl <;> cases m <;> cases n <;> decide

theorem ownInside {m : Modifier} {key : Key} (own : key ∈ modifierKeys m) :
    (∀ data ∈ key.makeCode, InTable data) ∧ ∀ data ∈ key.breakCode, InTable data := by
  simp only [modifierKeys, List.mem_cons, List.not_mem_nil, or_false] at own
  rcases own with rfl | rfl <;> cases m <;> decide

theorem heldIff (m : Modifier) (down : List Key) : Held m down ↔ ∃ key ∈ modifierKeys m, key ∈ down := by
  simp [Held, modifierKeys]

theorem pressFine {m : Modifier} {key : Key} (own : key ∈ modifierKeys m) (down : List Key) :
    Fine down (.press key) := by
  refine ⟨(ownInside own).1, fun n v marked => ?_⟩
  simp only [Event.bytes, (ownMarks own n).1] at marked
  split at marked
  · next same =>
    subst same
    cases marked
    have held : Held m (after down (.press key)) := (heldIff m _).mpr ⟨key, own, by simp [after]⟩
    simp [held]
  · cases marked

theorem releaseFine {m : Modifier} {key : Key} (own : key ∈ modifierKeys m) (down : List Key) :
    Fine down (.release key) ↔ ∀ other ∈ modifierKeys m, other ≠ key → other ∉ down := by
  have held : Held m (after down (.release key)) ↔ ∃ other ∈ modifierKeys m, other ∈ down ∧ other ≠ key := by
    simp [heldIff, after]
  constructor
  · intro fine other mine differs inside
    have up := fine.marks m false (by simp [Event.bytes, (ownMarks own m).2])
    rw [decide_eq_true (held.mpr ⟨other, mine, inside, differs⟩)] at up
    cases up
  · intro free
    refine ⟨(ownInside own).2, fun n v marked => ?_⟩
    simp only [Event.bytes, (ownMarks own n).2] at marked
    split at marked
    · next same =>
      subst same
      cases marked
      have up : ¬ Held m (after down (.release key)) := by
        rw [held]
        rintro ⟨other, mine, inside, differs⟩
        exact free other mine differs inside
      simp [up]
    · cases marked

theorem otherFine {e : Event} (unmarked : ∀ m, lastMark m e.bytes = none) (down : List Key) :
    Fine down e ↔ ∀ data ∈ e.bytes, InTable data := by
  constructor
  · exact Fine.inside
  · intro inside
    refine ⟨inside, fun m v marked => ?_⟩
    rw [unmarked m] at marked
    cases marked

def Tracks (events : List Event) : Prop :=
  ∀ front, front <+: events → ∃ device, run deliver Keyboard.initial front = some device ∧
    Agrees device (downAfter front)

/- Every event of a history is fine for the keys that were down before it. -/
def AllFine (events : List Event) : Prop :=
  ∀ front e back, events = front ++ e :: back → Fine (downAfter front) e

theorem downAfterAppend (front : List Event) (e : Event) : downAfter (front ++ [e]) = after (downAfter front) e := by
  simp [downAfter]

theorem initialAgrees : Agrees Keyboard.initial [] := by
  intro m
  cases m <;> decide

theorem runIdle {events : List Event} {device : Keyboard} (ran : run deliver Keyboard.initial events = some device) :
    device.Idle := by
  have start : Keyboard.initial.Idle := rfl
  exact Lib.Transition.invariantRunAll Keyboard.Idle (fun _ _ _ idle made => deliverIdle idle made) start ran

/-- The flags are right after every event exactly when every event is fine. -/
theorem modifiersIff (events : List Event) : Tracks events ↔ AllFine events := by
  constructor
  · rintro tracks front e back rfl
    obtain ⟨device, ran, agrees⟩ := tracks front (List.prefix_append _ _)
    obtain ⟨device', ran', agrees'⟩ := tracks (front ++ [e]) ⟨back, by simp⟩
    rw [Lib.Transition.runAppend, ran, Option.bind_some, Lib.Transition.runSingle] at ran'
    rw [downAfterAppend] at agrees'
    exact (deliverIff (runIdle ran) agrees e).mp ⟨device', ran', agrees'⟩
  · intro fine front isPrefix
    induction front using List.reverseRecOn with
    | nil => exact ⟨Keyboard.initial, rfl, initialAgrees⟩
    | append_singleton front e ih =>
      obtain ⟨back, shape⟩ := isPrefix
      obtain ⟨device, ran, agrees⟩ := ih ⟨e :: back, by rw [← shape]; simp⟩
      have here := fine front e back (by rw [← shape]; simp)
      obtain ⟨device', made, agrees'⟩ := (deliverIff (runIdle ran) agrees e).mpr here
      refine ⟨device', ?_, by rwa [downAfterAppend]⟩
      rw [Lib.Transition.runAppend, ran, Option.bind_some, Lib.Transition.runSingle, made]

/- Both shift keys go down, and one of them comes up. -/
theorem bothShifts : ¬ Tracks [.press (leftKey .shift), .press (rightKey .shift), .release (rightKey .shift)] := by
  intro tracks
  obtain ⟨device, ran, agrees⟩ := tracks _ List.prefix_rfl
  have up : (run deliver Keyboard.initial
      [.press (leftKey .shift), .press (rightKey .shift), .release (rightKey .shift)]).map Keyboard.shift =
        some false := by decide
  rw [ran, Option.map_some, Option.some.injEq] at up
  have down := agrees .shift
  rw [show device.modifier .shift = false from up] at down
  revert down
  decide

end DimOS.Devices.Modifiers
