import Mathlib
import DimOS.Shell.Output
import DimOS.Process.Keystrokes

/-! The descriptors of stdin and stdout at the ends of their queues: what the keyboard interrupt writes,
getch and the game read key by key, and what the shell writes, the terminal reads and prints. -/
namespace DimOS.Shell
open Cpp.Containers
open Devices (KeyCode KEY_UNKNOWN KEY_ESCAPE)
open Filesystem.Vfs
open Filesystem.RamDisk (Disk Buffer BlockSize MaxDataBlocks taken)
open Process (Session Fifo readFifo canReadFifo takenLength)
open Process.Keystrokes (keyBytes)

def DataChunkSize : Nat := 2048

section
variable (fbSize : Nat) (v : VFS (Disk × Buffer))

/- FileDescriptor::canReadXbytes, whose difference is taken in int. -/
def canReadXbytes (fd : Descriptor) (x : Int) : Bool :=
  (BitVec.ofNat 32 (v.nodes fd.fileNode).info.resource.size - BitVec.ofNat 32 fd.readOffset).toInt ≥ x

/- FileDescriptor::read. -/
def fdRead (fd : Descriptor) (limit : Nat) (buffer : Buffer) : Option (Descriptor × Buffer × Nat) :=
  match nodeRead fbSize v fd.fileNode fd.readOffset limit buffer with
  | .error _ => none
  | .ok (buffer, bytesRead) => some ({ fd with readOffset := (fd.readOffset + bytesRead) % 2 ^ 32 }, buffer, bytesRead)

/- The KeyCode in the four bytes of `(uint8_t*)&key`. -/
def keyOf (buffer : Buffer) : KeyCode := buffer 3 ++ buffer 2 ++ buffer 1 ++ buffer 0

/- getchNoWait, without a key where it returns KEY_UNKNOWN, and a round of the loop of getch. -/
def getch (fd : Descriptor) : Option (Descriptor × Option KeyCode) :=
  if canReadXbytes v fd 4 then (fdRead fbSize v fd 4 (keyBytes KEY_UNKNOWN)).map fun (fd, buffer, _) => (fd, some (keyOf buffer))
  else some (fd, none)

/- What the rounds of the game get, up to the escape. In a round the next key has come, or not yet. -/
def inputs : List Bool → Descriptor → Option (Descriptor × List (Option KeyCode))
  | [], fd => some (fd, [])
  | come :: rest, fd =>
    match if come then getch fbSize v fd else some (fd, none) with
    | none => none
    | some (fd, key) =>
      if key = some KEY_ESCAPE then some (fd, [key])
      else (inputs rest fd).map fun (fd, keys) => (fd, key :: keys)

end

/- The output loop of a round of the terminal, with what it has printed. What the buffer held before is not
printed. -/
def drain (fbSize : Nat) : Nat → State → List (BitVec 8) → Option (State × List (BitVec 8))
  | 0, _, _ => none
  | rounds + 1, s, printed =>
    if canReadXbytes s.vfs s.stdout 1 then
      match fdRead fbSize s.vfs s.stdout DataChunkSize (fun _ => 0#8) with
      | none => none
      | some (fd, buffer, bytesRead) => drain fbSize rounds (s.on fd) (printed ++ taken buffer bytesRead)
    else some (s, printed)

def codes (keys : List KeyCode) : List (BitVec 8) := keys.flatMap fun key => taken (keyBytes key) 4

variable {fbSize : Nat} {s s' : State} {name other : Chars} {fd : Descriptor} {accepted got shown read : List (BitVec 8)}
  {typed seen : List KeyCode}

theorem codesLength (keys : List KeyCode) : (codes keys).length = 4 * keys.length := by
  induction keys with
  | nil => rfl
  | cons key rest ih =>
    rw [codes, List.flatMap_cons, List.length_append, takenLength, List.length_cons]
    unfold codes at ih
    omega

theorem codesAppend (keys : List KeyCode) (key : KeyCode) : codes (keys ++ [key]) = codes keys ++ taken (keyBytes key) 4 := by
  simp [codes]

theorem keyOfBytes {buffer : Buffer} {key : KeyCode} (same : taken buffer 4 = taken (keyBytes key) 4) :
    keyOf buffer = key := by
  have bytes : ∀ k, k < 4 → buffer k = key.extractLsb' (8 * k) 8 := by
    intro k low
    have at' := congrArg (fun l => l[k]?) same
    simpa [taken, low, keyBytes] using at'
  rw [keyOf, bytes 0 (by omega), bytes 1 (by omega), bytes 2 (by omega), bytes 3 (by omega)]
  apply BitVec.eq_of_getLsbD_eq
  intro i low
  rw [BitVec.getLsbD_append, BitVec.getLsbD_append, BitVec.getLsbD_append]
  split_ifs with first second third
  all_goals
    rw [BitVec.getLsbD_extractLsb', decide_eq_true (by omega), Bool.true_and]
    congr 1
    omega

theorem canReadQueue (h : Queue name s accepted got) {x : Int} :
    canReadXbytes s.vfs s.stdout x = true ↔ x ≤ (accepted.length - got.length : Int) :=
  @canReadFifo (fileInode s) (session s accepted got) h.fifo x

theorem readQueues (h : Queues name other s fd accepted got shown read) (limit : Nat) (buffer : Buffer) :
    ∃ fd' buffer' bytesRead, fdRead fbSize s.vfs s.stdout limit buffer = some (fd', buffer', bytesRead) ∧
      got ++ taken buffer' bytesRead = accepted.take (got.length + limit) ∧
      Queues name other (s.on fd') fd accepted (got ++ taken buffer' bytesRead) shown read := by
  obtain ⟨t, made, fifo, -, delivered⟩ := readFifo h.own.fifo limit buffer
  have onDisk := h.own.sturdy.onDisk
  have sturdy := h.own.sturdy
  simp only [Process.call, Process.FileDescriptor.read, session] at made
  split at made
  · cases made
  · next next' out found =>
    split at found
    · cases found
    · next buffer' bytesRead did =>
      cases found
      cases made
      have told : nodeRead fbSize s.vfs s.stdout.fileNode s.stdout.readOffset limit buffer = .ok (buffer', bytesRead) := by
        simp only [nodeRead, kernelFs, withRamDisk, onDisk, if_true, did]
      refine ⟨{ s.stdout with readOffset := (s.stdout.readOffset + bytesRead) % 2 ^ 32 }, buffer', bytesRead,
        by rw [fdRead, told], delivered, ⟨⟨sturdy.solid, sturdy.inside, sturdy.onDisk,
        sturdy.used, sturdy.written⟩, h.own.screen, h.own.named, h.own.apart, h.own.bits, h.own.secluded, fifo⟩,
        h.else', h.apart⟩

theorem drainDone (h : Queue name s accepted got) (none : accepted.length ≤ got.length) (rounds : Nat)
    (printed : List (BitVec 8)) : drain fbSize (rounds + 1) s printed = some (s, printed) ∧ got = accepted := by
  have less := h.fifo.got.length_le
  have asks : ¬ canReadXbytes s.vfs s.stdout 1 = true := by
    rw [canReadQueue h]
    omega
  exact ⟨by rw [drain, if_neg asks], h.fifo.got.eq_of_length (Nat.le_antisymm less none)⟩

theorem drainQueues {rounds : Nat} (h : Queues name other s fd accepted got shown read) (printed : List (BitVec 8))
    (enough : accepted.length - got.length ≤ DataChunkSize * rounds) :
    ∃ s', drain fbSize (rounds + 1) s printed = some (s', printed ++ accepted.drop got.length) ∧
      Queues name other s' fd accepted accepted shown read := by
  induction rounds generalizing s got printed with
  | zero =>
    obtain ⟨drained, rfl⟩ := @drainDone fbSize s name accepted got h.own (by omega) 0 printed
    exact ⟨s, by rw [drained, List.drop_length, List.append_nil], h⟩
  | succ rounds ih =>
    by_cases more : got.length < accepted.length
    · have asks : canReadXbytes s.vfs s.stdout 1 = true := (canReadQueue h.own).mpr (by omega)
      obtain ⟨fd', buffer, bytesRead, told, delivered, next⟩ :=
        @readQueues fbSize s name other fd accepted got shown read h DataChunkSize (fun _ => 0#8)
      have length : (got ++ taken buffer bytesRead).length = min (got.length + DataChunkSize) accepted.length := by
        rw [delivered, List.length_take]
      obtain ⟨s', drained, last⟩ := ih next (printed ++ taken buffer bytesRead) (by
        unfold DataChunkSize at *
        omega)
      refine ⟨s', ?_, last⟩
      rw [drain, if_pos asks, told]
      refine drained.trans ?_
      obtain ⟨rest, whole⟩ : (got ++ taken buffer bytesRead) <+: accepted := next.own.fifo.got
      rw [← whole, List.drop_left, List.append_assoc got, List.drop_left, ← List.append_assoc]
    · obtain ⟨drained, rfl⟩ := @drainDone fbSize s name accepted got h.own (by omega) (rounds + 1) printed
      exact ⟨s, by rw [drained, List.drop_length, List.append_nil], h⟩

structure Keys (s : State) (stdin : Descriptor) (shown read : List (BitVec 8)) (typed seen : List KeyCode) : Prop where
  queues : Queues stdoutName stdinName s stdin shown read (codes typed) (codes seen)
  order : seen <+: typed

theorem getchKeys (h : Keys s fd shown read typed seen) :
    (seen = typed ∧ getch fbSize s.vfs fd = some (fd, none)) ∨
      ∃ fd' key rest, typed = seen ++ key :: rest ∧ getch fbSize s.vfs fd = some (fd', some key) ∧
        Keys s fd' shown read typed (seen ++ [key]) := by
  obtain ⟨left, rfl⟩ := h.order
  have lengths := codesLength (seen ++ left)
  have queues := h.queues.swap
  have asks := @canReadQueue (s.on fd) stdinName (codes (seen ++ left)) (codes seen) queues.own 4
  rw [codesLength, codesLength, List.length_append] at asks
  cases left with
  | nil =>
    left
    refine ⟨by simp, ?_⟩
    have none : ¬ canReadXbytes s.vfs fd 4 = true := fun yes => by
      have left := asks.mp yes
      simp at left
    rw [getch, if_neg none]
  | cons key rest =>
    right
    have some' : canReadXbytes s.vfs fd 4 = true := asks.mpr (by simp; omega)
    obtain ⟨fd', buffer, bytesRead, told, delivered, next⟩ :=
      @readQueues fbSize (s.on fd) stdinName stdoutName s.stdout (codes (seen ++ key :: rest)) (codes seen) shown read
        queues 4 (keyBytes KEY_UNKNOWN)
    have split : codes (seen ++ key :: rest) = codes seen ++ (taken (keyBytes key) 4 ++ codes rest) := by simp [codes]
    have whole : taken buffer bytesRead = taken (keyBytes key) 4 := by
      rw [split, List.take_length_add_append, List.take_left' (takenLength _ _)] at delivered
      exact List.append_cancel_left delivered
    have four : bytesRead = 4 := by
      have lengths := congrArg List.length whole
      rwa [takenLength, takenLength] at lengths
    subst four
    refine ⟨fd', key, rest, rfl, ?_, ?_, ⟨rest, by simp⟩⟩
    · have told : fdRead fbSize s.vfs fd 4 (keyBytes KEY_UNKNOWN) = some (fd', buffer, 4) := told
      rw [getch, if_pos some', told, Option.map_some]
      dsimp only
      rw [keyOfBytes whole]
    · rw [whole, ← codesAppend] at next
      exact next.swap

theorem inputsKeys {come : List Bool} (h : Keys s fd shown read typed seen) :
    ∃ fd' keys, inputs fbSize s.vfs come fd = some (fd', keys) ∧
      Keys s fd' shown read typed (seen ++ keys.filterMap id) := by
  induction come generalizing fd seen with
  | nil => exact ⟨fd, [], rfl, by simpa using h⟩
  | cons come rest ih =>
    have polled : ∃ fd' key, (if come = true then getch fbSize s.vfs fd else some (fd, none)) = some (fd', key) ∧
        Keys s fd' shown read typed (seen ++ key.toList) := by
      cases come with
      | false => exact ⟨fd, none, rfl, by simpa using h⟩
      | true =>
        rcases @getchKeys fbSize s fd shown read typed seen h with ⟨-, told⟩ | ⟨fd', key, left, -, told, next⟩
        · exact ⟨fd, none, told, by simpa using h⟩
        · exact ⟨fd', some key, told, next⟩
    obtain ⟨fd', key, told, next⟩ := polled
    simp only [inputs, told]
    split
    · exact ⟨fd', [key], rfl, by cases key <;> simpa using next⟩
    · obtain ⟨fd'', keys, more, last⟩ := ih next
      refine ⟨fd'', key :: keys, by rw [more]; rfl, ?_⟩
      cases key <;> simpa using last

end DimOS.Shell
