import DimOS.Filesystem.VfsSizes
import DimOS.Process.FileDescriptor

/-! The loop `while (fd.canReadXbytes(1)) fd.read(chunk, buffer)` of cat and of Terminal::run. canReadXbytes
looks at the size that the node of the tree shows, read at the blocks of the inode. A directory that was
made on a full disk shows four bytes and has no block: its loop never ends. -/
namespace DimOS.Process
open Cpp.Containers
open Filesystem
open Filesystem.RamDisk (Disk Buffer VfsNode Live Sized MaxDataBlocks BlockSize)
open Filesystem.Vfs (VFS FileSystem kernelFs globalVFS openNode)
open Filesystem.Vfs.Errors (Op)
open Filesystem.Vfs.Files (Readable Shows Gapless step startReadable stepReadable)
open Lib.Transition (Guarded Visits)

section loop
variable {σ : Type} (F : FileSystem σ) (disk : σ) (fs chunk : Nat)

/- FileDescriptor::read through the file system of its node. -/
def FileDescriptor.readThrough (fd : FileDescriptor) (buffer : Buffer) : Option (FileDescriptor × Buffer × Nat) :=
  match F.read disk fs fd.fileNode.resource fd.readOffset chunk buffer with
  | none => none
  | some (buffer, bytesRead) =>
    some ({ fd with readOffset := (fd.readOffset + bytesRead) % 2 ^ 32 }, buffer, bytesRead)

/- None when the fuel ran out, or when a read did not return. -/
def readLoop : Nat → FileDescriptor → Buffer → Option FileDescriptor
  | 0, _, _ => none
  | fuel + 1, fd, buffer =>
    if fd.canReadXbytes 1 then
      match fd.readThrough F disk fs chunk buffer with
      | none => none
      | some (fd, buffer, _) => readLoop fuel fd buffer
    else some fd

end loop

/- While canReadXbytes(1) holds the next read returns a byte, and the loop ends: for a new descriptor, and
from any offset where the size is that of a file. -/
structure Progresses {σ : Type} (F : FileSystem σ) (disk : σ) (fs : Nat) (fileNode : VfsNode) (chunk : Nat) : Prop where
  reads : ∀ r w, r < 2 ^ 31 → (⟨r, w, fileNode⟩ : FileDescriptor).canReadXbytes 1 = true → ∀ buffer,
    ∃ out, (⟨r, w, fileNode⟩ : FileDescriptor).readThrough F disk fs chunk buffer = some out ∧ 1 ≤ out.2.2
  ends : ∀ r w, r < 2 ^ 31 → (r = 0 ∨ fileNode.resource.size < 2 ^ 31) → ∀ buffer,
    ∃ fuel out, readLoop F disk fs chunk fuel ⟨r, w, fileNode⟩ buffer = some out

theorem canReadIff {fd : FileDescriptor} : fd.canReadXbytes 1 = true ↔
    1 ≤ ((fd.fileNode.resource.size : Int) - fd.readOffset) % 2 ^ 32 ∧
      ((fd.fileNode.resource.size : Int) - fd.readOffset) % 2 ^ 32 < 2 ^ 31 := by
  have difference : (BitVec.ofNat 32 fd.fileNode.resource.size - BitVec.ofNat 32 fd.readOffset).toInt =
      Int.bmod ((fd.fileNode.resource.size : Int) - fd.readOffset) (2 ^ 32) := by
    rw [BitVec.toInt_sub, BitVec.toInt_ofNat', BitVec.toInt_ofNat', Int.bmod_sub_bmod, Int.sub_bmod_bmod]
  simp only [FileDescriptor.canReadXbytes, difference, ge_iff_le, decide_eq_true_eq, Int.bmod_def]
  split <;> omega

def Brings {σ : Type} (F : FileSystem σ) (disk : σ) (fs : Nat) (fileNode : VfsNode) (chunk : Nat) : Prop :=
  ∀ r w, r < 2 ^ 31 → (⟨r, w, fileNode⟩ : FileDescriptor).canReadXbytes 1 = true → ∀ buffer,
    ∃ out, F.read disk fs fileNode.resource r chunk buffer = some out ∧ 1 ≤ out.2 ∧ out.2 ≤ chunk

theorem readLoopEnds {σ : Type} {F : FileSystem σ} {disk : σ} {fs chunk : Nat} {fileNode : VfsNode}
    (small : chunk < 2 ^ 31) (brings : Brings F disk fs fileNode chunk) {size r : Nat} (w : Nat) (buffer : Buffer)
    (shown : fileNode.resource.size % 2 ^ 32 = size) (low : size < 2 ^ 31) (near : r < size + 2 ^ 31) :
    ∃ fuel out, readLoop F disk fs chunk fuel ⟨r, w, fileNode⟩ buffer = some out := by
  induction left : size - r using Nat.strong_induction_on generalizing r buffer with
  | _ left ih =>
    by_cases more : (⟨r, w, fileNode⟩ : FileDescriptor).canReadXbytes 1 = true
    · have range := canReadIff.mp more
      dsimp only at range
      have inside : r < size := by omega
      obtain ⟨⟨buffer', bytes⟩, got, some, most⟩ := brings r w (by omega) more buffer
      dsimp only at some most
      have next : (r + bytes) % 2 ^ 32 = r + bytes := Nat.mod_eq_of_lt (by omega)
      obtain ⟨fuel, out, ran⟩ := @ih (size - (r + bytes)) (by omega) (r + bytes) buffer' (by omega) rfl
      refine ⟨fuel + 1, out, ?_⟩
      simp only [readLoop, more, if_true, FileDescriptor.readThrough, got, next]
      exact ran
    · exact ⟨1, _, by simp only [readLoop, more]; rfl⟩

theorem bringsProgresses {σ : Type} {F : FileSystem σ} {disk : σ} {fs chunk : Nat} {fileNode : VfsNode}
    (small : chunk < 2 ^ 31) (brings : Brings F disk fs fileNode chunk) : Progresses F disk fs fileNode chunk := by
  refine ⟨fun r w low more buffer => ?_, fun r w low start buffer => ?_⟩
  · obtain ⟨out, got, some, -⟩ := brings r w low more buffer
    refine ⟨(⟨(r + out.2) % 2 ^ 32, w, fileNode⟩, out), ?_, some⟩
    simp only [FileDescriptor.readThrough, got]
  · by_cases high : fileNode.resource.size % 2 ^ 32 < 2 ^ 31
    · exact readLoopEnds small brings w buffer rfl high (by omega)
    · -- a size that is negative as an int: a new descriptor reads nothing
      have zero : r = 0 := start.resolve_right (fun low => high (by omega))
      have done : ¬ (⟨r, w, fileNode⟩ : FileDescriptor).canReadXbytes 1 = true := by
        rw [canReadIff]
        dsimp only
        omega
      exact ⟨1, _, by simp only [readLoop, done]; rfl⟩

theorem showsBrings {fbSize fs chunk : Nat} {disk : Disk × Buffer} {info : VfsNode}
    (all : Vfs.Files.AllSized disk.1) (shown : Shows fbSize disk.1 fs info) (wide : fbSize < 2 ^ 64) (asked : 1 ≤ chunk)
    (small : chunk < 2 ^ 31) : Brings (kernelFs fbSize) disk fs info chunk := by
  intro r w low more buffer
  have range := canReadIff.mp more
  dsimp only at range
  unfold Shows at shown
  simp only [kernelFs, Vfs.withRamDisk]
  split at shown
  · next onDisk =>
    have sized := all _ shown.1
    have covered := sized.covered
    have cap := sized.cap
    unfold MaxDataBlocks BlockSize at *
    rw [if_pos onDisk]
    exact RamDisk.readProgress buffer sized (by omega) asked
  · next device =>
    have whole : info.resource.size = fbSize := by
      rcases shown with whole | empty
      · exact whole
      · omega
    rw [whole] at range
    have inside : r < fbSize := by omega
    have len : min chunk (((fbSize : Int) - r) % 2 ^ 64).toNat = min chunk (fbSize - r) := by omega
    rw [if_neg device]
    simp only [Vfs.framebufferDevice, len]
    rw [if_pos (by omega)]
    exact ⟨_, rfl, by dsimp only; omega, by dsimp only; omega⟩

/-- In every state that a gapless run of the kernel's VFS visits, whatever node openNode returns, while
canReadXbytes(1) holds the next read returns a byte, and the loop ends. -/
theorem readLoopProgresses {nodeCount blockCount fbSize : Nat} {d : Disk} {ops : List Op} {v v₁ : VFS (Disk × Buffer)}
    {path : Chars} {n chunk : Nat} (blocks : 1 ≤ blockCount)
    (made : RamDisk.createRamdisk nodeCount blockCount = some d) (wide : fbSize < 2 ^ 64)
    (gapless : Guarded (step fbSize) Gapless (globalVFS fbSize d) ops)
    (visited : Visits (step fbSize) (globalVFS fbSize d) ops v)
    (opened : openNode (kernelFs fbSize) v path = .ok (v₁, some n)) (asked : 1 ≤ chunk) (small : chunk < 2 ^ 31) :
    Progresses (kernelFs fbSize) v₁.disk (v₁.nodes n).fileSystem (v₁.nodes n).info chunk := by
  have readable : Readable fbSize v := Lib.Transition.invariantVisits (Readable fbSize)
    (fun _ _ _ h guard taken => stepReadable h guard taken) (startReadable blocks made) gapless visited
  obtain ⟨rfl, at'⟩ := Vfs.Files.resolveStays opened
  have shown := readable.shows n (Vfs.Files.nodeAtLinked at'.symm)
  exact bringsProgresses small (showsBrings readable.sized shown wide asked small)

def writeFour : List Op :=
  [.mkfile [slash, 0x66#8] (fun _ => 0#8), .write [slash, 0x66#8] 0 4 (fun _ => 0x61#8)]

theorem readLoopProgressesFour : ∃ d v, RamDisk.createRamdisk 4 8 = some d ∧
    Lib.Transition.run (step 16) (globalVFS 16 d) writeFour = some v ∧
    openNode (kernelFs 16) v [slash, 0x66#8] = .ok (v, some 1) ∧ (v.nodes 1).info.resource.size = 4 ∧
    Progresses (kernelFs 16) v.disk (v.nodes 1).fileSystem (v.nodes 1).info 2048 := by
  have facts : (RamDisk.createRamdisk 4 8).bind (fun d =>
      (Lib.Transition.run (step 16) (globalVFS 16 d) writeFour).bind (fun v =>
        (openNode (kernelFs 16) v [slash, 0x66#8]).toOption.map (fun out =>
          (out.2, (v.nodes 1).info.resource.size)))) = some (some 1, 4) := by
    decide +kernel
  obtain ⟨d, made, facts⟩ := Option.bind_eq_some_iff.mp facts
  obtain ⟨v, ran, facts⟩ := Option.bind_eq_some_iff.mp facts
  obtain ⟨⟨v₁, n⟩, opened, facts⟩ := Option.map_eq_some_iff.mp facts
  simp only [Prod.mk.injEq] at facts
  obtain ⟨rfl, size⟩ := facts
  have ok := Vfs.Files.toOptionOk opened
  obtain ⟨rfl, -⟩ := Vfs.Files.resolveStays ok
  have gapless : Guarded (step 16) Gapless (globalVFS 16 d) writeFour :=
    Lib.Transition.guardedConsIff.mpr ⟨trivial, fun mid _ => Lib.Transition.guardedConsIff.mpr
      ⟨fun n _ _ => .inl (Nat.zero_le _), fun _ _ => Lib.Transition.guardedNil _ _ _⟩⟩
  exact ⟨d, v₁, made, ran, ok, size, readLoopProgresses (by decide) made (by decide) gapless
    ⟨writeFour, [], by simp, ran⟩ ok (by decide) (by decide)⟩

/- mkdir("/a") and mkdir("/b") on a disk of one block, which the second does not get. -/
def makeTwo : List Op := [.mkdir [slash, 0x61#8] (fun _ => 0#8), .mkdir [slash, 0x62#8] (fun _ => 0#8)]

theorem fullDirectoryEndless : ∃ d v, RamDisk.createRamdisk 4 1 = some d ∧
    Lib.Transition.run (step 16) (globalVFS 16 d) makeTwo = some v ∧
    openNode (kernelFs 16) v [slash, 0x62#8] = .ok (v, some 2) ∧
    (FileDescriptor.ofNode (v.nodes 2).info).canReadXbytes 1 = true ∧
    (∀ buffer, (FileDescriptor.ofNode (v.nodes 2).info).readThrough (kernelFs 16) v.disk (v.nodes 2).fileSystem 2048
      buffer = some (FileDescriptor.ofNode (v.nodes 2).info, buffer, 0)) ∧
    ∀ fuel buffer, readLoop (kernelFs 16) v.disk (v.nodes 2).fileSystem 2048 fuel
      (FileDescriptor.ofNode (v.nodes 2).info) buffer = none := by
  have facts : (RamDisk.createRamdisk 4 1).bind (fun d =>
      (Lib.Transition.run (step 16) (globalVFS 16 d) makeTwo).bind (fun v =>
        (openNode (kernelFs 16) v [slash, 0x62#8]).toOption.map (fun out =>
          (out.2, (v.nodes 2).fileSystem, [(v.nodes 2).info.resource.inode, (v.nodes 2).info.resource.size],
            [(v.disk.1.nodes 2).blocksInUse, (v.disk.1.nodes 2).size])))) = some (some 2, 0, [2, 4], [0, 4]) := by
    decide +kernel
  obtain ⟨d, made, facts⟩ := Option.bind_eq_some_iff.mp facts
  obtain ⟨v, ran, facts⟩ := Option.bind_eq_some_iff.mp facts
  obtain ⟨⟨v₁, n⟩, opened, facts⟩ := Option.map_eq_some_iff.mp facts
  simp only [Prod.mk.injEq, List.cons.injEq, and_true] at facts
  obtain ⟨rfl, onDisk, ⟨inode, shown⟩, blocks, size⟩ := facts
  have ok := Vfs.Files.toOptionOk opened
  obtain ⟨rfl, -⟩ := Vfs.Files.resolveStays ok
  have more : (FileDescriptor.ofNode (v₁.nodes 2).info).canReadXbytes 1 = true := by
    rw [canReadIff]
    simp only [FileDescriptor.ofNode, shown]
    decide
  have nothing : ∀ buffer, (FileDescriptor.ofNode (v₁.nodes 2).info).readThrough (kernelFs 16) v₁.disk
      (v₁.nodes 2).fileSystem 2048 buffer = some (FileDescriptor.ofNode (v₁.nodes 2).info, buffer, 0) := by
    intro buffer
    simp only [FileDescriptor.readThrough, FileDescriptor.ofNode, kernelFs, Vfs.withRamDisk, onDisk, if_true,
      RamDisk.Disk.read, inode, size, blocks]
    rfl
  refine ⟨d, v₁, made, ran, ok, more, nothing, fun fuel => ?_⟩
  induction fuel with
  | zero => exact fun _ => rfl
  | succ fuel ih =>
    intro buffer
    simp only [readLoop, more, if_true, nothing]
    exact ih buffer

end DimOS.Process
