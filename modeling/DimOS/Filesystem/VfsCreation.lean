import DimOS.Filesystem.VfsFiles

/-! RamDisk::create on a disk that is full. Neither the -1 of getFreeINode nor the short write is
looked at: without a free inode nodes[-1] is written, without a free block the inode is set up all
the same, and the VFS goes on to hang a child on the parent. -/
namespace DimOS.Filesystem.Vfs.Creation
open Cpp.Containers
open RamDisk (Disk NodeType Buffer BlockSize startSize)

/- What is asked of a creation of a node of a type below a parent: on a full disk it changes
nothing and hangs no child, and otherwise the new inode has a block that holds its size. -/
structure Atomic (fbSize : Nat) (v : VFS (Disk × Buffer)) (type : NodeType) (parent : Nat) : Prop where
  refused : v.disk.1.getFreeINode = none ∨ v.disk.1.getFreeDataBlock = none →
    (∃ info, v.disk.1.create 1 type = some (v.disk.1, info)) ∧
      ∀ rest name v' id, createIn (kernelFs fbSize) type rest v parent name = .ok (v', id) →
        v'.disk = v.disk ∧ (v'.nodes parent).children = (v.nodes parent).children
  served : ∀ inode, v.disk.1.getFreeINode = some inode → v.disk.1.getFreeDataBlock ≠ none →
    ∃ out info, v.disk.1.create 1 type = some (out, info) ∧ 1 ≤ (out.nodes inode).blocksInUse ∧
      (out.nodes inode).size ≤ BlockSize * (out.nodes inode).blocksInUse

/-- mkdir and mkfile treat exhaustion as asked exactly when there is none: a free inode and a free
block are left. -/
theorem creationAtomicIff {fbSize : Nat} {v : VFS (Disk × Buffer)} {type : NodeType} {parent : Nat}
    (valid : type ≠ .INVALID) :
    Atomic fbSize v type parent ↔
      v.disk.1.getFreeINode.isSome ∧ v.disk.1.getFreeDataBlock.isSome := by
  constructor
  · intro atomic
    cases free : v.disk.1.getFreeINode with
    | none =>
      obtain ⟨info, made⟩ := (atomic.refused (.inl free)).1
      simp only [Disk.create, free] at made
      cases made
    | some inode =>
      refine ⟨rfl, ?_⟩
      cases block : v.disk.1.getFreeDataBlock with
      | some b => rfl
      | none =>
        obtain ⟨info, made⟩ := (atomic.refused (.inr block)).1
        obtain ⟨out, info', made', taken, -⟩ := RamDisk.createTakes 1 type free block
        cases Option.some.inj (made.symm.trans made')
        exact absurd ((taken.symm.trans (RamDisk.freeINodeSpec free).2)) valid
  · rintro ⟨free, block⟩
    refine ⟨?_, ?_⟩
    · rintro (none | none)
      · rw [none] at free
        cases free
      · rw [none] at block
        cases block
    · intro inode found _
      obtain ⟨b, block⟩ := Option.isSome_iff_exists.mp block
      obtain ⟨out, info, made, -, used, size⟩ := RamDisk.createServed 1 type found block
      refine ⟨out, info, made, by omega, ?_⟩
      rw [used, size]
      unfold startSize RamDisk.sizeofDirHeader BlockSize
      split <;> omega

theorem creationAtomicNewDisk : ∃ d, RamDisk.createRoot 4 8 = some d ∧
    Atomic 16 (globalVFS 16 d) .FILE root ∧ Atomic 16 (globalVFS 16 d) .DIRECTORY root := by
  have facts : (RamDisk.createRoot 4 8).map (fun d => (d.getFreeINode, d.getFreeDataBlock)) =
      some (some 1, some 1) := by
    decide +kernel
  obtain ⟨d, created, facts⟩ := Option.map_eq_some_iff.mp facts
  obtain ⟨inode, block⟩ := Prod.mk.inj facts
  have room : d.getFreeINode.isSome ∧ d.getFreeDataBlock.isSome := by
    rw [inode, block]
    exact ⟨rfl, rfl⟩
  exact ⟨d, created, (creationAtomicIff (by decide)).mpr room, (creationAtomicIff (by decide)).mpr room⟩

/- A disk of four inodes and one block, which the root has: mkdir("/d") hangs a child whose inode
has no block and a size of four. A disk of one inode and eight blocks: create returns nothing. -/
theorem creationOnFullDisk :
    (∃ d v, RamDisk.createRoot 4 1 = some d ∧ d.getFreeDataBlock = none ∧
      mkdir (kernelFs 16) (fun _ => 0#8) (globalVFS 16 d) [slash, 0x64#8] = .ok (v, some 1) ∧
      ((globalVFS 16 d).nodes root).children = [] ∧ (v.nodes root).children = [1] ∧
      (d.nodes 1).type = .INVALID ∧ (v.disk.1.nodes 1).type = .DIRECTORY ∧
      (v.disk.1.nodes 1).blocksInUse = 0 ∧ (v.disk.1.nodes 1).size = 4) ∧
    ∃ d, RamDisk.createRoot 1 8 = some d ∧ d.getFreeINode = none ∧
      (d.create 1 .FILE).isNone ∧ ¬ Atomic 16 (globalVFS 16 d) .FILE root := by
  have full : (RamDisk.createRoot 4 1).bind (fun d =>
      (mkdir (kernelFs 16) (fun _ => 0#8) (globalVFS 16 d) [slash, 0x64#8]).toOption.map (fun out =>
        ([d.getFreeDataBlock, out.2], [((globalVFS 16 d).nodes root).children, (out.1.nodes root).children],
          [(d.nodes 1).type, (out.1.disk.1.nodes 1).type],
          [(out.1.disk.1.nodes 1).blocksInUse, (out.1.disk.1.nodes 1).size]))) =
      some ([none, some 1], [[], [1]], [.INVALID, .DIRECTORY], [0, 4]) := by
    decide +kernel
  have used : (RamDisk.createRoot 1 8).map (fun d => (d.getFreeINode, (d.create 1 .FILE).isNone)) =
      some (none, true) := by
    decide +kernel
  refine ⟨?_, ?_⟩
  · obtain ⟨d, created, facts⟩ := Option.bind_eq_some_iff.mp full
    obtain ⟨⟨v, n⟩, made, facts⟩ := Option.map_eq_some_iff.mp facts
    simp only [Prod.mk.injEq, List.cons.injEq, and_true] at facts
    obtain ⟨⟨block, rfl⟩, ⟨none, one⟩, ⟨unused, dir⟩, blocks, size⟩ := facts
    exact ⟨d, v, created, block, Files.toOptionOk made, none, one, unused, dir, blocks, size⟩
  · obtain ⟨d, created, facts⟩ := Option.map_eq_some_iff.mp used
    obtain ⟨inode, refused⟩ := Prod.mk.inj facts
    refine ⟨d, created, inode, refused, ?_⟩
    intro atomic
    obtain ⟨info, made⟩ := (atomic.refused (.inl inode)).1
    have returned : (d.create 1 .FILE).isNone = false := by
      rw [show d.create 1 .FILE = some (d, info) from made]
      rfl
    rw [refused] at returned
    cases returned

end DimOS.Filesystem.Vfs.Creation
