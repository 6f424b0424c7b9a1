import Mathlib
import DimOS.Shell.Execute

/-! Input lines from the boot of the kernel on. Every state that lines reach without a crash is one for
which the condition of the commands is exact. -/
namespace DimOS.Shell
open Cpp.Containers
open Filesystem.Vfs
open Filesystem.Vfs.Open (inodeOf nodeAt nodeAtSpec findChildSpec)
open Filesystem.Vfs.Files (nodeAtLinked resolveStays)
open Filesystem.RamDisk (Disk Buffer NodeType AllFit)
open Lib.PathTree (walk)
open Lib.Transition (run Guarded guardedNil guardedConsIff)

/- kernel_main from the RamDisk to the Terminal, with the nodes of the files that the Thread of the shell opens. -/
def bootFiles (fbSize nodeCount blockCount : Nat) (rest : Nat → Nat → BitVec 8) :
    Option (VFS (Disk × Buffer) × Option Nat × Nat) := do
  let d ← Filesystem.RamDisk.createRamdisk nodeCount blockCount
  let (v, _) ← (Filesystem.Vfs.mkdir (kernelFs fbSize) (rest 0) (globalVFS fbSize d) (text "/proc")).toOption
  let (v, _) ← (Filesystem.Vfs.mkdir (kernelFs fbSize) (rest 1) v (text "/dev")).toOption
  let (v, _) ← (mnt (kernelFs fbSize) v (text "/dev/fb") 1 0).toOption
  let (v, stdin) ← (mkfile (kernelFs fbSize) (rest 2) v (text "/proc/stdin_1")).toOption
  let (v, stdout) ← (mkfile (kernelFs fbSize) (rest 3) v (text "/proc/stdout_1")).toOption
  let output ← stdout
  let (v, _) ← (Filesystem.Vfs.mkdir (kernelFs fbSize) (rest 4) v (text "/bin")).toOption
  some (v, stdin, output)

def boot (fbSize nodeCount blockCount : Nat) (rest : Nat → Nat → BitVec 8) : Option State :=
  (bootFiles fbSize nodeCount blockCount rest).map fun (v, _, output) => ⟨v, [], ⟨0, 0, output⟩⟩

variable {fbSize : Nat} {v v' : VFS (Disk × Buffer)}

theorem walkName {curr n : Nat} {names : List Chars} (walked : walk (findChild v) curr names = some n) :
    ((v.nodes curr).name :: names).getLast? = some (v.nodes n).name := by
  induction names generalizing curr with
  | nil =>
    cases walked
    rfl
  | cons name rest ih =>
    obtain ⟨child, found, walked⟩ := Option.bind_eq_some_iff.mp walked
    rw [List.getLast?_cons_cons, ← (findChildSpec found).2]
    exact ih walked

structure Starting (v : VFS (Disk × Buffer)) : Prop where
  solid : Solid v
  device : ∀ n, n < v.count → (v.nodes n).fileSystem ≠ 0 → (v.nodes n).name = text "fb"

theorem Starting.onDisk (h : Starting v) {comps : List Chars} {n : Nat} (found : nodeAt v comps = some n)
    (other : comps.getLast? ≠ some (text "fb")) : (v.nodes n).fileSystem = 0 := by
  obtain ⟨names, rfl, walked⟩ := nodeAtSpec found
  by_contra device
  rw [walkName walked, h.device n (h.solid.hung.linked (nodeAtLinked found)) device] at other
  exact other rfl

theorem Starting.create {type : NodeType} {rest : Nat → BitVec 8} {path parentPath name : Chars} {r : Option Nat}
    (h : Starting v) (valid : type ≠ .INVALID) (shape : cut path = some (parentPath, name))
    (other : (split parentPath slash).getLast? ≠ some (text "fb"))
    (ok : mkNode (kernelFs fbSize) type rest v path = .ok (v', r)) :
    Starting v' ∧ Kept v v' ∧ ∀ id, r = some id → id < v'.count ∧ (v'.nodes id).fileSystem = 0 ∧
      (v'.disk.1.nodes (inodeOf v' id)).type ≠ .INVALID := by
  obtain ⟨parentPath', name', v₁, shape', ⟨missing, rfl, rfl⟩ | ⟨parent, id, found, made, rfl⟩⟩ := mkNodeCases ok
  · obtain ⟨rfl, -⟩ := resolveStays missing
    exact ⟨h, .refl h.solid, by simp⟩
  · cases shape.symm.trans shape'
    obtain ⟨rfl, at'⟩ := resolveStays found
    have inside := h.solid.hung.linked (nodeAtLinked at'.symm)
    have onDisk := h.onDisk at'.symm other
    obtain ⟨kept, fileSystem, low, live⟩ := createInKept h.solid valid inside made
    obtain ⟨rfl, disk, info, mid, disk', info', -, shape, -, rfl⟩ := createInCases made
    refine ⟨⟨kept.solid, fun n lower device => ?_⟩, kept, ?_⟩
    · have old : n < v₁.count := by
        rcases Nat.lt_or_eq_of_le (Nat.lt_succ_iff.mp (by rw [shape] at lower; exact lower)) with old | rfl
        · exact old
        · exact absurd (fileSystem.trans onDisk) device
      have named : (mid.nodes n).name = (v₁.nodes n).name := by
        rw [shape, VFS.addNodeNode { v₁ with disk := disk } name _ info inside, if_neg (Nat.ne_of_lt old)]
        split
        · next same => rw [same]
        · rfl
      rw [kept.fileSystem n old] at device
      rw [VFS.setInfoName]
      exact named.trans (h.device n old device)
    · rintro id same
      cases same
      exact ⟨low, fileSystem.trans onDisk, live onDisk⟩

theorem Starting.mount {fs : Nat} {inode : Int} {path parentPath : Chars} {r : Option Nat} (h : Starting v)
    (shape : cut path = some (parentPath, text "fb")) (ok : mnt (kernelFs fbSize) v path fs inode = .ok (v', r)) :
    Starting v' := by
  unfold mnt openNode at ok
  split at ok
  · cases ok
  · next v₁ n found =>
    obtain ⟨rfl, -⟩ := resolveStays found
    cases ok
    exact h
  · next v₁ found =>
    obtain ⟨rfl, -⟩ := resolveStays found
    obtain ⟨parentPath', name, v₂, shape', ⟨missing, rfl, -⟩ | ⟨parent, found', rfl, -⟩⟩ := mntLockedCases ok
    · obtain ⟨rfl, -⟩ := resolveStays missing
      exact h
    · cases shape.symm.trans shape'
      obtain ⟨rfl, at'⟩ := resolveStays found'
      have inside := h.solid.hung.linked (nodeAtLinked at'.symm)
      generalize (kernelFs fbSize).populateVFSNode v₂.disk fs inode = info
      refine ⟨⟨h.solid.hung.addNode (text "fb") fs info inside, h.solid.fit⟩, fun n lower device => ?_⟩
      rw [VFS.addNodeNode v₂ (text "fb") fs info inside] at device ⊢
      split
      · rfl
      · next new =>
        rw [if_neg new] at device
        have old : n < v₂.count := Nat.lt_of_le_of_ne (Nat.lt_succ_iff.mp lower) new
        split
        · next same =>
          rw [if_pos same] at device
          exact h.device parent inside device
        · next same =>
          rw [if_neg same] at device
          exact h.device n old device

theorem startStarting {nodeCount blockCount : Nat} {d : Disk}
    (made : Filesystem.RamDisk.createRamdisk nodeCount blockCount = some d) : Starting (globalVFS fbSize d) := by
  obtain ⟨d₁, rooted, rfl⟩ := Option.map_eq_some_iff.mp made
  obtain ⟨out, created, rfl⟩ := Option.map_eq_some_iff.mp rooted
  have blank : AllFit (Filesystem.RamDisk.zeroed (Filesystem.RamDisk.createSuper nodeCount blockCount)).mount :=
    fun i => ⟨⟨Nat.zero_le _, fun k low => absurd low (Nat.not_lt_zero k)⟩, by
      simp [Filesystem.RamDisk.Disk.mount, Filesystem.RamDisk.zeroed]⟩
  have fit := (Filesystem.RamDisk.createSteady blank created).1.fit
  refine ⟨⟨⟨Nat.zero_lt_one, ?_, ?_, ?_, rfl⟩, fit⟩, fun n _ device => absurd rfl device⟩
  · intro n c mem
    cases mem
  · intro n
    exact List.nodup_nil
  · intro n c mem
    cases mem

theorem bootSturdy {nodeCount blockCount : Nat} {rest : Nat → Nat → BitVec 8} {start : State}
    (booted : boot fbSize nodeCount blockCount rest = some start) : Sturdy start := by
  obtain ⟨⟨v, input, node⟩, files, rfl⟩ := Option.map_eq_some_iff.mp booted
  simp only [bootFiles, Option.bind_eq_bind, Option.bind_eq_some_iff, Prod.exists] at files
  obtain ⟨d, made, v₁, _, proc, v₂, _, dev, v₃, _, fb, v₄, _, stdin, v₅, stdout, opened, node', given, v₆, _, bin,
    done⟩ := files
  cases done
  have begun : Starting (globalVFS fbSize d) := startStarting made
  have first := (begun.create (by decide) (by rfl) (by decide) (Files.toOptionOk proc)).1
  have second := (first.create (by decide) (by rfl) (by decide) (Files.toOptionOk dev)).1
  have third := second.mount (by rfl) (Files.toOptionOk fb)
  have fourth := (third.create (by decide) (by rfl) (by decide) (Files.toOptionOk stdin)).1
  obtain ⟨fifth, -, made⟩ := fourth.create (by decide) (by rfl) (by decide) (Files.toOptionOk opened)
  obtain ⟨low, onDisk, used⟩ := made node given
  have sturdy : Sturdy ⟨v₅, [], ⟨0, 0, node⟩⟩ := ⟨fifth.solid, low, onDisk, used, Nat.zero_le _⟩
  exact sturdy.moves (fifth.create (by decide) (by rfl) (by decide) (Files.toOptionOk bin)).2.1 []

/-- From the boot of the kernel on, lines whose commands get what they ask for are all executed. In the
state they reach a line is harmless exactly when its command gets what it asks for as well. -/
theorem linesHarmless {nodeCount blockCount : Nat} {rest : Nat → Nat → BitVec 8} {start : State}
    (small : fbSize < 2 ^ 32) (booted : boot fbSize nodeCount blockCount rest = some start)
    (lines : List (Chars × Surroundings))
    (fine : Guarded (lineStep fbSize) (fun s line => FineLine fbSize s line.1) start lines) :
    ∃ last, run (lineStep fbSize) start lines = some last ∧
      ∀ line, Harmless fbSize last line ↔ FineLine fbSize last line := by
  obtain ⟨last, reached, sturdy⟩ := linesRun small (bootSturdy booted) fine
  exact ⟨last, reached, harmlessFine small sturdy⟩

/- Two lines after the boot, and two that could be entered then. -/
theorem linesHarmlessPwd : ∃ start last, boot 16 8 8 (fun _ _ => 0#8) = some start ∧
    run (lineStep 16) start [(text "echo a b", quiet), (text "pwd", quiet)] = some last ∧
      Harmless 16 last (text "cd a b c") ∧ ¬ Harmless 16 last (text "echo") := by
  have made : (boot 16 8 8 (fun _ _ => 0#8)).isSome = true := by decide +kernel
  obtain ⟨start, booted⟩ := Option.isSome_iff_exists.mp made
  have echoes : ∀ s, FineLine 16 s (text "echo a b") := fun s => show 2 ≤ _ by decide
  obtain ⟨last, reached, exact'⟩ := linesHarmless (by decide) booted [(text "echo a b", quiet), (text "pwd", quiet)]
    (guardedConsIff.mpr ⟨echoes _, fun _ _ => guardedConsIff.mpr ⟨trivial, fun t _ => guardedNil _ _ t⟩⟩)
  have usage : FineLine 16 last (text "cd a b c") := fun two => absurd two (by decide)
  have bare : ¬ FineLine 16 last (text "echo") := fun two => absurd (show 2 ≤ _ from two) (by decide)
  exact ⟨start, last, booted, reached, (exact' _).mpr usage, fun harmless => bare ((exact' _).mp harmless)⟩

/- echo without an argument, a file that does not exist, a path through a file, and more directories than
there are inodes. -/
theorem linesCrash : ∃ start, boot 16 8 8 (fun _ _ => 0#8) = some start ∧
    ∀ line ∈ [text "echo", text "cat x", text "stat proc/stdin_1/x", text "mkdir a b c"], ¬ Harmless 16 start line := by
  have facts : (boot 16 8 8 (fun _ _ => 0#8)).map (fun start =>
      [text "echo", text "cat x", text "stat proc/stdin_1/x", text "mkdir a b c"].all fun line =>
        (runLine 16 start line quiet).toOption.isNone) = some true := by
    decide +kernel
  obtain ⟨start, booted, refused⟩ := Option.map_eq_some_iff.mp facts
  refine ⟨start, booted, fun line mem harmless => ?_⟩
  obtain ⟨s', ok⟩ := harmless.1 quiet
  have crashed := List.all_eq_true.mp refused line mem
  rw [ok] at crashed
  cases crashed

end DimOS.Shell
