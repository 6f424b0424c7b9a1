import Mathlib
import DimOS.Shell.Output

/-! stdin and stdout after the boot of the kernel. The second mount clears the bit of the block of the root
directory; /proc takes that block over, and from then on every block that is held has its bit. So the
two files come to blocks of their own. -/
namespace DimOS.Shell
open Cpp.Containers
open Cpp.Bitset (bitAt)
open Filesystem.Vfs
open Filesystem.Vfs.Open (inodeOf nodeAt)
open Filesystem.Vfs.Files (toOptionOk nodeAtLinked resolveStays createInNodes createInDisk)
open Filesystem.RamDisk (Disk Buffer NodeType AllFit BitsSet Secluded Holds)
open Process (Fifo)

variable {fbSize : Nat} {v v' : VFS (Disk × Buffer)} {spare : Nat → Prop}

/- The inodes of the nodes are in use, and the blocks are marked but for those to spare. -/
structure Booting (spare : Nat → Prop) (v : VFS (Disk × Buffer)) : Prop where
  starting : Starting v
  valid : v.disk.1.super.Valid
  used : ∀ n, n < v.count → (v.nodes n).fileSystem = 0 → (v.disk.1.nodes (inodeOf v n)).type ≠ .INVALID
  bits : BitsSet spare v.disk.1

theorem Booting.spares (h : Booting (fun _ => False) v) : Booting (· = 0) v :=
  ⟨h.starting, h.valid, h.used, fun i k b held => (h.bits i k b held).imp_right fun set => set.imp_right False.elim⟩

theorem Booting.creates {type : NodeType} {rest : Nat → BitVec 8} {path parentPath name : Chars} {id : Nat}
    (h : Booting (· = 0) v) (valid : type ≠ .INVALID) (shape : cut path = some (parentPath, name))
    (other : (split parentPath slash).getLast? ≠ some (text "fb"))
    (ok : mkNode (kernelFs fbSize) type rest v path = .ok (v', some id)) : Booting (fun _ => False) v' := by
  obtain ⟨starting, kept, -⟩ := h.starting.create valid shape other ok
  obtain ⟨parentPath', name', v₁, shape', ⟨-, -, none⟩ | ⟨parent, id', found, made, -⟩⟩ := mkNodeCases ok
  · cases none
  · cases shape.symm.trans shape'
    obtain ⟨rfl, at'⟩ := resolveStays found
    have inside := h.starting.solid.hung.linked (nodeAtLinked at'.symm)
    have onDisk := h.starting.onDisk at'.symm other
    obtain ⟨-, fileSystem, low, live⟩ := createInKept h.starting.solid valid inside made
    obtain ⟨d, info, create, write, rfl, count, -⟩ := createInDisk inside onDisk made
    obtain ⟨-, first⟩ := Filesystem.RamDisk.createThrough h.valid h.starting.solid.fit create
    have fit := (Filesystem.RamDisk.createSteady h.starting.solid.fit create).1.fit
    have second := Filesystem.RamDisk.writeDirThrough (first.super ▸ h.valid) fit write
    have super := second.super.trans first.super
    refine ⟨starting, super ▸ h.valid, fun n here disk => ?_, fun i k b held => ?_⟩
    · rcases Nat.lt_or_eq_of_le (Nat.lt_succ_iff.mp (count ▸ here)) with old | rfl
      · rw [kept.fileSystem n old] at disk
        rw [kept.inode n old]
        exact (kept.disk.keeps _ (h.used n old disk)).1
      · exact live onDisk
    · obtain ⟨within, set⟩ := second.bitsKept (first.bitsKept h.bits) i k b held
      refine ⟨within, .inl ?_⟩
      rcases set with set | rfl
      · exact set
      · have some' : 0 < v₁.disk.1.super.blockCnt := super ▸ within
        exact second.kept 0 (first.super ▸ some')
          (Filesystem.RamDisk.createMarksFirst h.valid h.starting.solid.fit some' create)

theorem Booting.makes {type : NodeType} {rest : Nat → BitVec 8} {path parentPath name : Chars} {r : Option Nat}
    (h : Booting (fun _ => False) v) (valid : type ≠ .INVALID) (shape : cut path = some (parentPath, name))
    (other : (split parentPath slash).getLast? ≠ some (text "fb"))
    (ok : mkNode (kernelFs fbSize) type rest v path = .ok (v', r)) : Booting (fun _ => False) v' := by
  cases r with
  | some id => exact h.spares.creates valid shape other ok
  | none =>
    obtain ⟨parentPath', name', v₁, -, ⟨missing, rfl, -⟩ | ⟨parent, id, -, -, some'⟩⟩ := mkNodeCases ok
    · obtain ⟨rfl, -⟩ := resolveStays missing
      exact h
    · cases some'

theorem Booting.mounts {fs : Nat} {inode : Int} {path parentPath : Chars} {r : Option Nat}
    (h : Booting (fun _ => False) v) (device : fs ≠ 0) (shape : cut path = some (parentPath, text "fb"))
    (ok : mnt (kernelFs fbSize) v path fs inode = .ok (v', r)) : Booting (fun _ => False) v' := by
  have starting := h.starting.mount shape ok
  unfold mnt openNode at ok
  split at ok
  · cases ok
  · next v₁ n found =>
    obtain ⟨rfl, -⟩ := resolveStays found
    cases ok
    exact h
  · next v₁ found =>
    obtain ⟨rfl, -⟩ := resolveStays found
    obtain ⟨parentPath', name, v₂, shape', ⟨missing, rfl, -⟩ | ⟨parent, found', rfl, -⟩⟩ := mntLockedCases ok
    · obtain ⟨rfl, -⟩ := resolveStays missing
      exact h
    · obtain ⟨rfl, at'⟩ := resolveStays found'
      have inside := h.starting.solid.hung.linked (nodeAtLinked at'.symm)
      generalize (kernelFs fbSize).populateVFSNode v₂.disk fs inode = info at starting
      have new := @Open.addNodeNew Buffer v₂ parent name v₂.disk fs info inside
      refine ⟨starting, h.valid, fun n here disk => ?_, h.bits⟩
      rcases Nat.lt_or_eq_of_le (Nat.lt_succ_iff.mp here) with low | rfl
      · have old := @Open.addNodeOld Buffer v₂ parent name v₂.disk fs info inside n low
        have same : inodeOf (v₂.addNode parent name fs info) n = inodeOf v₂ n :=
          congrArg (fun i => i.resource.inode) old.2
        rw [same]
        exact h.used n low (old.1.symm.trans disk)
      · exact absurd (new.1.symm.trans disk) device

theorem Booting.opens {rest : Nat → BitVec 8} {path parentPath name : Chars} {id : Nat}
    (h : Booting (fun _ => False) v) (screen : Screen v) (shape : cut path = some (parentPath, name))
    (other : (split parentPath slash).getLast? ≠ some (text "fb"))
    (ok : mkfile (kernelFs fbSize) rest v path = .ok (v', some id)) (currDir : Chars) :
    id = v.count ∧ Queue name ⟨v', currDir, ⟨0, 0, id⟩⟩ [] [] := by
  have after := h.makes (by decide) shape other ok
  obtain ⟨starting, kept, mine⟩ := h.starting.create (by decide) shape other ok
  obtain ⟨low, fileSystem, live⟩ := mine id rfl
  obtain ⟨parentPath', name', v₁, shape', ⟨-, -, none⟩ | ⟨parent, id', found, made, same⟩⟩ := mkNodeCases ok
  · cases none
  · cases same
    cases shape.symm.trans shape'
    obtain ⟨rfl, at'⟩ := resolveStays found
    have fit := h.starting.solid.fit
    have inside := h.starting.solid.hung.linked (nodeAtLinked at'.symm)
    have onDisk := h.starting.onDisk at'.symm other
    obtain ⟨d, info, create, write, rfl, count, shown, named, -⟩ := createInDisk inside onDisk made
    obtain ⟨free, first⟩ := Filesystem.RamDisk.createThrough h.valid fit create
    have number : inodeOf v' v₁.count = info.resource.inode := by rw [inodeOf, shown]
    -- the inode was free, and those of the nodes are not
    have fresh : ∀ n, n < v₁.count → (v₁.nodes n).fileSystem = 0 → inodeOf v₁ n ≠ info.resource.inode := by
      intro n here disk same
      have unused := (Filesystem.RamDisk.freeINodeSpec free).2
      rw [← same] at unused
      exact h.used n here disk unused
    obtain ⟨inode, queue⟩ := Process.startFifo 1 h.valid create
    have own : info.resource.inode = inode := queue.here
    subst own
    have second := Filesystem.RamDisk.writeDirThrough (first.super ▸ h.valid)
      (Filesystem.RamDisk.createSteady fit create).1.fit write
    have apart := throughApart queue.linked (first.bitsKept h.bits)
      (Filesystem.RamDisk.createSecluded h.valid fit h.bits create) second (fresh parent inside onDisk)
    refine ⟨rfl, ⟨starting.solid, low, fileSystem, live, Nat.zero_le _⟩,
      screen.makes h.starting (by decide) shape' other ok, named, fun n here away disk => ?_, after.bits, ?_, ?_⟩
    · have old : n < v₁.count := by
        have here : n < v'.count := here
        have away : n ≠ v₁.count := away
        omega
      show inodeOf v' n ≠ inodeOf v' v₁.count
      rw [kept.fileSystem n old] at disk
      rw [number, kept.inode n old]
      exact fresh n old disk
    · show Secluded (inodeOf v' v₁.count) v'.disk.1
      rw [number]
      exact apart.secluded
    · show Fifo (inodeOf v' v₁.count) ⟨⟨0, 0, (v'.nodes v₁.count).info⟩, v'.disk.1, [], []⟩
      rw [number, shown]
      exact Process.elsewhereFifo queue apart.untouched

theorem startBooting {nodeCount blockCount : Nat} {d : Disk}
    (made : Filesystem.RamDisk.createRamdisk nodeCount blockCount = some d) : Booting (· = 0) (globalVFS fbSize d) := by
  have starting : Starting (globalVFS fbSize d) := startStarting made
  obtain ⟨d₁, rooted, rfl⟩ := Option.map_eq_some_iff.mp made
  have root := (@Open.startRooted Buffer (framebufferDevice 2 fbSize) 1 nodeCount blockCount d₁ (fun _ => 0#8) [] rooted).1
  refine ⟨starting, root.owned.valid, fun n here disk => ?_, fun i k b held => ?_⟩
  · exact (root.live n here disk).1.2
  · obtain ⟨inside, first⟩ := Filesystem.RamDisk.rootHolds rooted held
    exact ⟨inside, .inr first⟩

def bootConsole (fbSize nodeCount blockCount : Nat) (rest : Nat → Nat → BitVec 8) : Option (State × Descriptor) :=
  (bootFiles fbSize nodeCount blockCount rest).bind fun (v, stdin, output) =>
    stdin.map fun input => (⟨v, [], ⟨0, 0, output⟩⟩, ⟨0, 0, input⟩)

theorem bootConsoleBoots {nodeCount blockCount : Nat} {rest : Nat → Nat → BitVec 8} {start : State} {stdin : Descriptor}
    (booted : bootConsole fbSize nodeCount blockCount rest = some (start, stdin)) :
    boot fbSize nodeCount blockCount rest = some start := by
  obtain ⟨⟨v, input, output⟩, files, opened⟩ := Option.bind_eq_some_iff.mp booted
  obtain ⟨node, -, rest⟩ := Option.map_eq_some_iff.mp opened
  cases rest
  rw [boot, files]
  rfl

theorem bootQueues {nodeCount blockCount : Nat} {rest : Nat → Nat → BitVec 8} {start : State} {stdin : Descriptor}
    (booted : bootConsole fbSize nodeCount blockCount rest = some (start, stdin)) :
    Queues stdoutName stdinName start stdin [] [] [] [] := by
  obtain ⟨⟨v, stdin', output⟩, files, both⟩ := Option.bind_eq_some_iff.mp booted
  obtain ⟨input, given, both⟩ := Option.map_eq_some_iff.mp both
  cases both
  simp only [bootFiles, Option.bind_eq_bind, Option.bind_eq_some_iff, Prod.exists] at files
  obtain ⟨d, made, v₁, r, proc, v₂, _, dev, v₃, _, fb, v₄, r₄, opened, v₅, r₅, opened', output', given', v₆, _, bin,
    done⟩ := files
  cases done
  subst given given'
  obtain ⟨⟨id, rfl⟩, screen⟩ := bootScreen (startStarting made) (toOptionOk proc) (toOptionOk dev) (toOptionOk fb)
  have first := (startBooting made).creates (by decide) (by rfl) (by decide) (toOptionOk proc)
  have second := first.makes (by decide) (by rfl) (by decide) (toOptionOk dev)
  have third := second.mounts (by decide) (by rfl) (toOptionOk fb)
  have fourth := third.makes (by decide) (by rfl) (by decide) (toOptionOk opened)
  have screen' := screen.makes third.starting (by decide) (by rfl) (by decide) (toOptionOk opened)
  obtain ⟨-, inp⟩ := @Booting.opens fbSize v₃ v₄ _ _ _ stdinName _ third screen (by rfl) (by decide) (toOptionOk opened) []
  obtain ⟨last, out⟩ := @Booting.opens fbSize v₄ v₅ _ _ _ stdoutName _ fourth screen' (by rfl) (by decide) (toOptionOk opened') []
  have inp' := inp.makes (by decide) (by intro parentPath name shape; cases shape; decide) (toOptionOk opened')
  have apart : input ≠ output := by
    have low := inp.sturdy.inside
    rw [last]
    exact Nat.ne_of_lt low
  have queues : Queues stdoutName stdinName ⟨v₅, [], ⟨0, 0, output⟩⟩ ⟨0, 0, input⟩ [] [] [] [] := ⟨out, inp', apart⟩
  exact ⟨queues.own.makes (by decide) (by intro parentPath name shape; cases shape; decide) (toOptionOk bin),
    queues.else'.makes (by decide) (by intro parentPath name shape; cases shape; decide) (toOptionOk bin), apart⟩

end DimOS.Shell
