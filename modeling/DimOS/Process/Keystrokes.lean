import Mathlib
import DimOS.Devices.Keyboard
import DimOS.Process.FileDescriptor

/-! The keyboard interrupt up to the stdin files. Each interrupt finds some thread current, and the
key code that the handler has goes to the stdin descriptor of that thread. -/
namespace DimOS.Process.Keystrokes
open Devices
open Filesystem.RamDisk
open Lib.Transition (run Guarded)

structure Interrupt where
  thread : Nat
  status : BitVec 8
  data : BitVec 8

/- The keyboard, the stdin descriptors of the threads and their disk, and what each write to a
descriptor put into its file. -/
structure Console where
  device : Keyboard
  stdin : Nat → FileDescriptor
  disk : Disk
  written : List (Nat × List (BitVec 8))

/- `(uint8_t*)&key`. -/
def keyBytes (key : KeyCode) : Buffer := fun k => key.extractLsb' (8 * k) 8

def deliver (s : Console) (thread : Nat) (key : KeyCode) : Option Console :=
  match (s.stdin thread).write s.disk 4 (keyBytes key) with
  | none => none
  | some (fd, disk, bytesWritten) =>
    some { s with stdin := Function.update s.stdin thread fd, disk,
                  written := s.written ++ [(thread, taken (keyBytes key) bytesWritten)] }

def interrupt (s : Console) (e : Interrupt) : Option Console :=
  match isrHandler e.status e.data s.device with
  | none => none
  | some (device, none) => some { s with device }
  | some (device, some key) => deliver { s with device } e.thread key

def Full (e : Interrupt) : Prop := e.status &&& CTRL_STATS_MASK_OUT_BUF ≠ 0#8

instance (e : Interrupt) : Decidable (Full e) := inferInstanceAs (Decidable (_ ≠ _))

/- The stdin file takes all bytes of a key code that is written to it. -/
def Accepts (s : Console) (e : Interrupt) : Prop :=
  ∀ device key, isrHandler e.status e.data s.device = some (device, some key) →
    ∃ fd disk, (s.stdin e.thread).write s.disk 4 (keyBytes key) = some (fd, disk, 4)

/- The key code of a make code, as the file of the current thread is to get it. -/
def keystroke (e : Interrupt) : Option (Nat × List (BitVec 8)) :=
  if Full e then (makeKey e.data).map fun key => (e.thread, taken (keyBytes key) 4) else none

theorem interruptStep {s : Console} (idle : s.device.Idle) {e : Interrupt} (accepts : Accepts s e) :
    (¬ (Full e → InTable e.data) ∧ interrupt s e = none) ∨
      ((Full e → InTable e.data) ∧ ∃ t, interrupt s e = some t ∧ t.device.Idle ∧
        t.written = s.written ++ (keystroke e).toList) := by
  by_cases full : Full e
  · rcases handlerSpec full e.data idle with ⟨outside, stuck⟩ | ⟨inside, device, key, made, handled⟩
    · left
      refine ⟨fun all => outside (all full), ?_⟩
      rw [interrupt, stuck]
    · right
      refine ⟨fun _ => inside, ?_⟩
      cases key with
      | none =>
        refine ⟨{ s with device }, by rw [interrupt, made], handled.idle, ?_⟩
        simp [keystroke, full, ← handled.key]
      | some key =>
        obtain ⟨fd, disk, wrote⟩ := accepts device key made
        refine ⟨{ s with device, stdin := Function.update s.stdin e.thread fd, disk,
                         written := s.written ++ [(e.thread, taken (keyBytes key) 4)] }, ?_, handled.idle, ?_⟩
        · rw [interrupt, made]
          dsimp only [deliver]
          rw [wrote]
        · simp [keystroke, full, ← handled.key]
  · right
    refine ⟨fun some => absurd some full, s, ?_, idle, ?_⟩
    · rw [interrupt, handlerQuiet (not_not.mp full) e.data idle]
    · simp [keystroke, full]

/-- The files get the key codes of the make codes in order, each once, and every lookup is inside
the table, exactly when no byte from the controller points outside it. -/
theorem keystrokesIff {s : Console} (idle : s.device.Idle) (events : List Interrupt)
    (accepts : Guarded interrupt Accepts s events) :
    (∃ t, run interrupt s events = some t ∧ t.written = s.written ++ events.filterMap keystroke) ↔
      ∀ e ∈ events, Full e → InTable e.data := by
  induction events generalizing s with
  | nil => exact ⟨fun _ => by simp, fun _ => ⟨s, rfl, by simp⟩⟩
  | cons e rest ih =>
    obtain ⟨here, later⟩ := Lib.Transition.guardedConsIff.mp accepts
    rw [List.forall_mem_cons, run]
    rcases interruptStep idle here with ⟨outside, stuck⟩ | ⟨inside, next, made, idle', written⟩
    · rw [stuck]
      constructor
      · rintro ⟨t, ran, -⟩
        cases ran
      · intro all
        exact absurd all.1 outside
    · have tail := ih idle' (later next made)
      have first : s.written ++ List.filterMap keystroke (e :: rest) =
          next.written ++ rest.filterMap keystroke := by
        rw [written, List.filterMap_cons]
        cases keystroke e <;> simp
      rw [made, Option.bind_some, first, tail]
      exact ⟨fun all => ⟨inside, all⟩, And.right⟩

/- One thread with an empty stdin file, on a disk of one inode and one block. -/
def console : Option Console :=
  match (zeroed ⟨1, 1, 1⟩).create 0 .FILE with
  | none => none
  | some (disk, node) => some ⟨Keyboard.initial, fun _ => .ofNode node, disk, []⟩

def takesLetter (s : Console) : Bool :=
  match (s.stdin 0).write s.disk 4 (keyBytes KEY_Q) with
  | none => false
  | some (_, _, bytesWritten) => bytesWritten == 4

theorem consoleReady : ∃ s, console = some s ∧ s.device.Idle ∧ s.device = Keyboard.initial ∧ takesLetter s = true := by
  have ready : (console.map fun s => (s.device, takesLetter s)) = some (Keyboard.initial, true) := by decide +kernel
  obtain ⟨s, made, shape⟩ := Option.map_eq_some_iff.mp ready
  injection shape with device takes
  exact ⟨s, made, by rw [device]; rfl, device, takes⟩

/- The make code of q. -/
theorem keystrokesLetter : ∃ s, console = some s ∧
    ((∃ t, run interrupt s [⟨0, 1#8, 0x10#8⟩] = some t ∧
        t.written = s.written ++ [⟨0, 1#8, 0x10#8⟩].filterMap keystroke) ↔
      ∀ e ∈ [(⟨0, 1#8, 0x10#8⟩ : Interrupt)], Full e → InTable e.data) := by
  obtain ⟨s, made, idle, device, takes⟩ := consoleReady
  refine ⟨s, made, keystrokesIff idle _ ?_⟩
  refine Lib.Transition.guardedConsIff.mpr ⟨?_, fun t _ => Lib.Transition.guardedNil interrupt Accepts t⟩
  intro device' key handled
  have letter : (isrHandler 1#8 0x10#8 Keyboard.initial).map Prod.snd = some (some KEY_Q) := by decide
  rw [device] at handled
  rw [handled, Option.map_some, Option.some.injEq] at letter
  cases letter
  unfold takesLetter at takes
  split at takes
  · cases takes
  · next fd disk bytesWritten wrote =>
    rw [beq_iff_eq] at takes
    exact ⟨fd, disk, by rw [wrote, takes]⟩

/- The delete key of the keypad has the scan code behind the table's last. -/
theorem deleteOutside : ∃ s, console = some s ∧ Guarded interrupt Accepts s [⟨0, 1#8, 0x53#8⟩] ∧
    ¬ ∃ t, run interrupt s [⟨0, 1#8, 0x53#8⟩] = some t ∧
      t.written = s.written ++ [⟨0, 1#8, 0x53#8⟩].filterMap keystroke := by
  obtain ⟨s, made, idle, device, takes⟩ := consoleReady
  have stuck : isrHandler 1#8 0x53#8 s.device = none := by
    rw [device]
    decide
  refine ⟨s, made, ?_, ?_⟩
  · refine Lib.Transition.guardedConsIff.mpr ⟨?_, fun t _ => Lib.Transition.guardedNil interrupt Accepts t⟩
    intro device' key handled
    rw [stuck] at handled
    cases handled
  · rintro ⟨t, ran, -⟩
    rw [run, interrupt, stuck] at ran
    cases ran

end DimOS.Process.Keystrokes
