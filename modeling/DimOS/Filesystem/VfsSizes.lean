import DimOS.Filesystem.RamDiskSizes
import DimOS.Filesystem.VfsSettled

/-! The size that a node of the tree shows, over whole runs of the kernel's VFS. It never exceeds the size
of the inode, and that is covered by blocks, as long as mkdir finds a block, a write leaves no gap, and
mounts and removals are orderly. Nothing is asked of the bitset, so the disk may have been mounted twice. -/
namespace DimOS.Filesystem.Vfs.Files
open Cpp.Containers
open Errors (Op outcome)
open Open (nodeAt inodeOf)
open OnDisk (Linked)
open RamDisk (Disk NodeType VfsNode Resource DirEntry Buffer Live Sized NoGap)
open Lib.Transition (Guarded Visits invariantVisits)

section disk
variable {fbSize : Nat} {d d' : Disk}

def AllSized (d : Disk) : Prop := ∀ i, Live d i → Sized (d.nodes i)

/- A node of the RamDisk shows at most the size of its inode. One of the framebuffer shows the whole of
it, or nothing when create made it. -/
def Shows (fbSize : Nat) (d : Disk) (fs : Nat) (info : VfsNode) : Prop :=
  if fs = 0 then Live d info.resource.inode ∧ info.resource.size ≤ (d.nodes info.resource.inode).size
  else info.resource.size = fbSize ∨ info.resource.size = 0

theorem Shows.later {fs : Nat} {info : VfsNode} (h : Shows fbSize d fs info)
    (kept : fs = 0 → Live d info.resource.inode → Live d' info.resource.inode ∧
      (d.nodes info.resource.inode).size ≤ (d'.nodes info.resource.inode).size) : Shows fbSize d' fs info := by
  unfold Shows at *
  split
  · next onDisk =>
    rw [if_pos onDisk] at h
    obtain ⟨live, more⟩ := kept onDisk h.1
    exact ⟨live, h.2.trans more⟩
  · next device =>
    rw [if_neg device] at h
    exact h

/- The inodes are still covered, and what a node showed it may go on showing. -/
structure Serves (fbSize : Nat) (d d' : Disk) : Prop where
  sized : AllSized d'
  shows : ∀ fs info, Shows fbSize d fs info → Shows fbSize d' fs info

theorem grownServes {inode : Nat} (all : AllSized d) (grown : RamDisk.Grown inode d d') : Serves fbSize d d' := by
  have lives : ∀ i, Live d' i ↔ Live d i := by
    intro i
    unfold Live
    rw [grown.super, (grown.kind i).2]
  refine ⟨fun i live => ?_, fun fs info shown => shown.later (fun _ live => ⟨(lives _).mpr live, ?_⟩)⟩
  · by_cases own : i = inode
    · rw [own]
      exact grown.sized
    · rw [grown.others i own]
      exact all i ((lives i).mp live)
  · by_cases own : info.resource.inode = inode
    · rw [own]
      exact grown.grows
    · rw [grown.others _ own]

theorem createServes {disk out : Disk × Buffer} {fs : Nat} {type : NodeType} {info : VfsNode} (all : AllSized disk.1)
    (valid : type ≠ .INVALID) (block : fs = 0 → type = .DIRECTORY → disk.1.getFreeDataBlock ≠ none)
    (ok : (kernelFs fbSize).create disk fs type = some (out, info)) :
    Serves fbSize disk.1 out.1 ∧ Shows fbSize out.1 fs info := by
  simp only [kernelFs, withRamDisk] at ok
  split at ok
  · next onDisk =>
    obtain ⟨⟨d₁, made⟩, created, pair⟩ := Option.map_eq_some_iff.mp ok
    simp only [Prod.mk.injEq] at pair
    obtain ⟨rfl, rfl⟩ := pair
    obtain ⟨inode, free, super, others, kind, -, sized, number, size⟩ := RamDisk.createGrown (block onDisk) created
    obtain ⟨inside, dead⟩ := RamDisk.freeINodeSpec free
    have lives : ∀ i, i ≠ inode → (Live d₁ i ↔ Live disk.1 i) := by
      intro i other
      unfold Live
      rw [super, others i other]
    refine ⟨⟨fun i live => ?_, fun fs' info' shown => shown.later (fun _ live => ?_)⟩, ?_⟩
    · by_cases new : i = inode
      · rw [new]
        exact sized
      · show Sized (d₁.nodes i)
        rw [others i new]
        exact all i ((lives i new).mp live)
    · have old : info'.resource.inode ≠ inode := by
        intro same
        rw [same] at live
        exact live.2 dead
      refine ⟨(lives _ old).mpr live, ?_⟩
      show _ ≤ (d₁.nodes _).size
      rw [others _ old]
    · unfold Shows
      rw [if_pos onDisk, number, size]
      exact ⟨⟨by rw [super]; exact inside, by rw [kind]; exact valid⟩, Nat.le_refl _⟩
  · next device =>
    simp only [framebufferDevice, Option.map_some, Option.some.injEq, Prod.mk.injEq] at ok
    obtain ⟨rfl, rfl⟩ := ok
    refine ⟨⟨all, fun _ _ shown => shown⟩, ?_⟩
    unfold Shows
    rw [if_neg device]
    exact .inr rfl

theorem writeDirServes {disk out : Disk × Buffer} {fs : Nat} {info info' : VfsNode} {entries : List DirEntry}
    (all : AllSized disk.1) (shown : Shows fbSize disk.1 fs info)
    (ok : (kernelFs fbSize).writeDir disk fs info entries = some (out, info')) :
    Serves fbSize disk.1 out.1 ∧ Shows fbSize out.1 fs info' := by
  simp only [kernelFs, withRamDisk] at ok
  split at ok
  · next onDisk =>
    obtain ⟨d₁, wrote, pair⟩ := Option.map_eq_some_iff.mp ok
    simp only [Prod.mk.injEq] at pair
    obtain ⟨rfl, rfl⟩ := pair
    unfold Shows at shown
    rw [if_pos onDisk] at shown
    have grown := RamDisk.writeDirGrown (all _ shown.1) wrote
    have serves : Serves fbSize disk.1 d₁ := grownServes all grown
    refine ⟨serves, ?_⟩
    have before : Shows fbSize disk.1 fs info := by
      unfold Shows
      rw [if_pos onDisk]
      exact shown
    have after := serves.shows fs info before
    unfold Shows at after ⊢
    rw [if_pos onDisk] at after ⊢
    exact ⟨after.1, Nat.le_refl _⟩
  · simp only [framebufferDevice, Option.map_some, Option.some.injEq, Prod.mk.injEq] at ok
    obtain ⟨rfl, rfl⟩ := ok
    exact ⟨⟨all, fun _ _ before => before⟩, shown⟩

theorem writeServes {disk out : Disk × Buffer} {fs : Nat} {info : VfsNode} {resource : Resource}
    {offset size bytes : Nat} {buffer : Buffer} (all : AllSized disk.1) (shown : Shows fbSize disk.1 fs info)
    (noGap : fs = 0 → NoGap disk.1 info.resource.inode offset size)
    (ok : (kernelFs fbSize).write disk fs info.resource offset size buffer = some (out, resource, bytes)) :
    Serves fbSize disk.1 out.1 ∧ Shows fbSize out.1 fs { info with resource := resource } := by
  simp only [kernelFs, withRamDisk] at ok
  split at ok
  · next onDisk =>
    obtain ⟨written, wrote, pair⟩ := Option.map_eq_some_iff.mp ok
    simp only [Prod.mk.injEq] at pair
    obtain ⟨rfl, rfl, rfl⟩ := pair
    have before := shown
    unfold Shows at before
    rw [if_pos onDisk] at before
    obtain ⟨grown, inode, size'⟩ := RamDisk.writeGrown (all _ before.1) (noGap onDisk) wrote
    have serves : Serves fbSize disk.1 written.disk := grownServes all grown
    have after := serves.shows fs info shown
    refine ⟨serves, ?_⟩
    unfold Shows at after ⊢
    rw [if_pos onDisk] at after ⊢
    dsimp only
    rw [inode]
    refine ⟨after.1, ?_⟩
    rcases size' with new | same
    · exact Nat.le_of_eq new
    · rw [same]
      exact after.2
  · next device =>
    obtain ⟨⟨fb, resource', bytes'⟩, wrote, pair⟩ := Option.map_eq_some_iff.mp ok
    simp only [Prod.mk.injEq] at pair
    obtain ⟨rfl, rfl, rfl⟩ := pair
    simp only [framebufferDevice] at wrote
    split at wrote
    · simp only [Option.some.injEq, Prod.mk.injEq] at wrote
      obtain ⟨-, rfl, -⟩ := wrote
      exact ⟨⟨all, fun _ _ before => before⟩, shown⟩
    · cases wrote

theorem removeServes {disk mid out : Disk × Buffer} {fs fs' : Nat} {info info' : VfsNode} {entry : DirEntry}
    (all : AllSized disk.1) (removed : (kernelFs fbSize).remove disk fs info = some mid)
    (dropped : (kernelFs fbSize).removeDirEntry mid fs' info' entry = some out) :
    AllSized out.1 ∧ ∀ fs₂ info₂, (fs = 0 → fs₂ = 0 → info₂.resource.inode ≠ info.resource.inode) →
      Shows fbSize disk.1 fs₂ info₂ → Shows fbSize out.1 fs₂ info₂ := by
  have drop : out.1.super = mid.1.super ∧ out.1.nodes = mid.1.nodes := by
    simp only [kernelFs, withRamDisk] at dropped
    split at dropped
    · obtain ⟨d₂, ran, rfl⟩ := Option.map_eq_some_iff.mp dropped
      obtain ⟨super, nodes, -⟩ := RamDisk.dropInBlocksKeeps ran
      exact ⟨super, nodes⟩
    · obtain ⟨t, -, rfl⟩ := Option.map_eq_some_iff.mp dropped
      exact ⟨rfl, rfl⟩
  have gone : mid.1.super = disk.1.super ∧ (fs = 0 → (mid.1.nodes info.resource.inode).type = .INVALID) ∧
      ∀ i, (fs = 0 → i ≠ info.resource.inode) → mid.1.nodes i = disk.1.nodes i := by
    simp only [kernelFs, withRamDisk] at removed
    split at removed
    · next onDisk =>
      obtain ⟨d₁, ran, rfl⟩ := Option.map_eq_some_iff.mp removed
      obtain ⟨super, dead, others⟩ := RamDisk.removeElsewhere ran
      exact ⟨super, fun _ => dead, fun i other => others i (other onDisk)⟩
    · next device =>
      obtain ⟨t, -, rfl⟩ := Option.map_eq_some_iff.mp removed
      exact ⟨rfl, fun onDisk => absurd onDisk device, fun _ _ => rfl⟩
  obtain ⟨super, dead, others⟩ := gone
  have same : ∀ i, (fs = 0 → i ≠ info.resource.inode) →
      out.1.nodes i = disk.1.nodes i ∧ (Live out.1 i ↔ Live disk.1 i) := by
    intro i other
    have node : out.1.nodes i = disk.1.nodes i := by rw [drop.2, others i other]
    refine ⟨node, ?_⟩
    unfold Live
    rw [node, drop.1, super]
  refine ⟨fun i live => ?_, fun fs₂ info₂ other shown => shown.later (fun onDisk live => ?_)⟩
  · have other : fs = 0 → i ≠ info.resource.inode := by
      rintro onDisk rfl
      exact live.2 (by rw [drop.2]; exact dead onDisk)
    rw [(same i other).1]
    exact all i ((same i other).2.mp live)
  · obtain ⟨node, lives⟩ := same info₂.resource.inode (fun zero => other zero onDisk)
    exact ⟨lives.mpr live, by rw [node]⟩

end disk

section runs
variable {fbSize : Nat} {v v' : VFS (Disk × Buffer)}

structure Readable (fbSize : Nat) (v : VFS (Disk × Buffer)) : Prop where
  hung : Hung v
  sized : AllSized v.disk.1
  shows : ∀ n, Linked v n → Shows fbSize v.disk.1 (v.nodes n).fileSystem (v.nodes n).info

theorem createInReadable {type : NodeType} {rest : Nat → BitVec 8} {parent id : Nat} {name : Chars}
    (h : Readable fbSize v) (valid : type ≠ .INVALID) (linked : Linked v parent)
    (block : (v.nodes parent).fileSystem = 0 → type = .DIRECTORY → v.disk.1.getFreeDataBlock ≠ none)
    (ok : createIn (kernelFs fbSize) type rest v parent name = .ok (v', id)) : Readable fbSize v' := by
  have inside := h.hung.linked linked
  obtain ⟨hung, before, -⟩ := createInHung h.hung inside ok
  obtain ⟨-, disk, info, mid, disk', info', created, shape, wrote, rfl⟩ := createInCases ok
  obtain ⟨serves, shown⟩ := createServes h.sized valid block created
  have old := fun n (low : n < v.count) =>
    @Open.addNodeOld Buffer v parent name disk (v.nodes parent).fileSystem info inside n low
  have new := @Open.addNodeNew Buffer v parent name disk (v.nodes parent).fileSystem info inside
  rw [← shape] at old new
  have midDisk : mid.disk = disk := by rw [shape]; rfl
  rw [midDisk, (old parent inside).1, (old parent inside).2] at wrote
  obtain ⟨serves', shown'⟩ := writeDirServes serves.sized (serves.shows _ _ (h.shows parent linked)) wrote
  refine ⟨hung, serves'.sized, fun n here => ?_⟩
  rw [VFS.setInfoDisk, VFS.setInfoFileSystem, VFS.setInfoInfo]
  show Shows fbSize disk'.1 (mid.nodes n).fileSystem (if n = parent then info' else (mid.nodes n).info)
  split
  · next isParent =>
    rw [isParent, (old parent inside).1]
    exact shown'
  · rcases before n here with rfl | there
    · rw [new.1, new.2]
      exact serves'.shows _ _ shown
    · rw [(old n (h.hung.linked there)).1, (old n (h.hung.linked there)).2]
      exact serves'.shows _ _ (serves.shows _ _ (h.shows n there))

theorem mountReadable {parent fs : Nat} {inode : Int} {name : Chars} (h : Readable fbSize v)
    (linked : Linked v parent) (used : MountInUse v fs inode) :
    Readable fbSize (v.addNode parent name fs ((kernelFs fbSize).populateVFSNode v.disk fs inode)) := by
  have inside := h.hung.linked linked
  generalize infoEq : (kernelFs fbSize).populateVFSNode v.disk fs inode = info
  have shown : Shows fbSize v.disk.1 fs info := by
    rw [← infoEq]
    unfold Shows
    split
    · next zero =>
      obtain ⟨live, number⟩ := used zero
      simp only [kernelFs, withRamDisk, zero, if_true, RamDisk.Disk.populateVFSNode]
      rw [number]
      exact ⟨live, Nat.le_refl _⟩
    · next device =>
      simp only [kernelFs, withRamDisk, device, if_false, framebufferDevice]
      exact .inl trivial
  have old := fun n (low : n < v.count) => @Open.addNodeOld Buffer v parent name v.disk fs info inside n low
  have new := @Open.addNodeNew Buffer v parent name v.disk fs info inside
  refine ⟨h.hung.addNode name fs info inside, h.sized, fun n here => ?_⟩
  show Shows fbSize v.disk.1 _ _
  rcases linkedAdd inside here with rfl | there
  · rw [new.1, new.2]
    exact shown
  · rw [(old n (h.hung.linked there)).1, (old n (h.hung.linked there)).2]
    exact h.shows n there

theorem removeReadable {node : Nat} (h : Readable fbSize v) (last : LastOfInode v node)
    (ok : removeNode (kernelFs fbSize) v node = .ok v') : Readable fbSize v' := by
  obtain ⟨parent, disk, disk', up, removed, dropped, rfl⟩ := removeNodeCases ok
  obtain ⟨sized, shows⟩ := removeServes h.sized removed dropped
  obtain ⟨hung, gone, same⟩ := h.hung.remove disk' up
  refine ⟨hung, sized, fun n here => ?_⟩
  obtain ⟨old, other⟩ := gone n here
  rw [(same n).1, (same n).2]
  exact shows _ _ (fun zero mine => last zero n old other mine) (h.shows n old)

theorem writeReadable {path : Chars} {offset size : Nat} {buffer : Buffer} (h : Readable fbSize v)
    (noGap : ∀ n, nodeAt v (split path slash) = some n → (v.nodes n).fileSystem = 0 →
      NoGap v.disk.1 (inodeOf v n) offset size)
    (ok : write (kernelFs fbSize) v path offset size buffer = .ok v') : Readable fbSize v' := by
  unfold write at ok
  split at ok
  · cases ok
  · next v₁ found =>
    obtain ⟨rfl, -⟩ := resolveStays found
    cases ok
    exact h
  · next v₁ node found =>
    obtain ⟨rfl, at'⟩ := resolveStays found
    have linked := nodeAtLinked at'.symm
    split at ok
    · cases ok
      exact h
    · split at ok
      · cases ok
      · next disk resource bytes wrote =>
        cases ok
        obtain ⟨serves, shown⟩ := writeServes h.sized (h.shows node linked) (noGap node at'.symm) wrote
        refine ⟨h.hung.fewer rfl (fun n => VFS.setInfoParent { v₁ with disk := disk } _ _ n)
          (fun n => by rw [VFS.setInfoChildren]), serves.sized, fun n here => ?_⟩
        have there : Linked v₁ n := by
          rcases here with rfl | ⟨p, mem⟩
          · exact .inl rfl
          · rw [VFS.setInfoChildren] at mem
            exact .inr ⟨p, mem⟩
        rw [VFS.setInfoDisk, VFS.setInfoFileSystem, VFS.setInfoInfo]
        show Shows fbSize disk.1 (v₁.nodes n).fileSystem (if n = node then _ else (v₁.nodes n).info)
        split
        · next own =>
          rw [own]
          exact shown
        · exact serves.shows _ _ (h.shows n there)

theorem mkNodeReadable {type : NodeType} {rest : Nat → BitVec 8} {path : Chars} {r : Option Nat}
    (h : Readable fbSize v) (valid : type ≠ .INVALID)
    (block : type = .DIRECTORY → ∀ parentPath name parent, cut path = some (parentPath, name) →
      nodeAt v (split parentPath slash) = some parent → (v.nodes parent).fileSystem = 0 →
        v.disk.1.getFreeDataBlock ≠ none)
    (ok : mkNode (kernelFs fbSize) type rest v path = .ok (v', r)) : Readable fbSize v' := by
  obtain ⟨parentPath, name, v₁, shape, ⟨missing, rfl, -⟩ | ⟨parent, id, found, made, -⟩⟩ := mkNodeCases ok
  · obtain ⟨rfl, -⟩ := resolveStays missing
    exact h
  · obtain ⟨rfl, at'⟩ := resolveStays found
    exact createInReadable h valid (nodeAtLinked at'.symm)
      (fun onDisk dir => block dir parentPath name parent shape at'.symm onDisk) made

theorem mntReadable {path : Chars} {fs : Nat} {inode : Int} {r : Option Nat} (h : Readable fbSize v)
    (used : MountInUse v fs inode) (ok : mnt (kernelFs fbSize) v path fs inode = .ok (v', r)) :
    Readable fbSize v' := by
  unfold mnt openNode at ok
  split at ok
  · cases ok
  · next v₁ n found =>
    obtain ⟨rfl, -⟩ := resolveStays found
    cases ok
    exact h
  · next v₁ found =>
    obtain ⟨rfl, -⟩ := resolveStays found
    obtain ⟨parentPath, name, v₂, -, ⟨missing, rfl, -⟩ | ⟨parent, found', rfl, -⟩⟩ := mntLockedCases ok
    · obtain ⟨rfl, -⟩ := resolveStays missing
      exact h
    · obtain ⟨rfl, at'⟩ := resolveStays found'
      exact mountReadable h (nodeAtLinked at'.symm) used

/- A new directory of the RamDisk finds a block, a write leaves no gap behind the blocks in use, a mount of
the RamDisk names an inode in use, and a removal takes the last node of its inode. -/
def Gapless (v : VFS (Disk × Buffer)) : Op → Prop
  | .mkdir path _ => ∀ parentPath name parent, cut path = some (parentPath, name) →
      nodeAt v (split parentPath slash) = some parent → (v.nodes parent).fileSystem = 0 →
        v.disk.1.getFreeDataBlock ≠ none
  | .mnt _ fs inode => MountInUse v fs inode
  | .rmdir path => RemovesLast v path
  | .rmfile path => RemovesLast v path
  | .write path offset size _ => ∀ n, nodeAt v (split path slash) = some n → (v.nodes n).fileSystem = 0 →
      NoGap v.disk.1 (inodeOf v n) offset size
  | _ => True

theorem stepReadable {op : Op} (h : Readable fbSize v) (gapless : Gapless v op)
    (taken : step fbSize v op = some v') : Readable fbSize v' := by
  have ok := toOptionOk taken
  cases op with
  | mkdir path rest =>
    obtain ⟨⟨out, r⟩, made, rfl⟩ := mapOk ok
    exact mkNodeReadable h (by simp) (fun _ => gapless) made
  | mkfile path rest =>
    obtain ⟨⟨out, r⟩, made, rfl⟩ := mapOk ok
    exact mkNodeReadable h (by simp) (fun dir => absurd dir (by simp)) made
  | mnt path fs inode =>
    obtain ⟨⟨out, r⟩, made, rfl⟩ := mapOk ok
    exact mntReadable h gapless made
  | rmdir path =>
    obtain ⟨v₁, node, found, rest⟩ := Errors.rmdirOutcome.mp ok
    obtain ⟨rfl, at'⟩ := resolveStays found
    split at rest
    · cases rest
      exact h
    · exact removeReadable h (gapless node at'.symm) rest
  | rmfile path =>
    obtain ⟨v₁, node, found, rest⟩ := Errors.rmfileOutcome.mp ok
    obtain ⟨rfl, at'⟩ := resolveStays found
    split at rest
    · cases rest
      exact h
    · exact removeReadable h (gapless node at'.symm) rest
  | read path offset size buffer =>
    obtain ⟨⟨out, r⟩, made, rfl⟩ := mapOk ok
    rw [readStays made]
    exact h
  | write path offset size buffer => exact writeReadable h gapless ok
  | readDir path =>
    obtain ⟨⟨out, r⟩, made, rfl⟩ := mapOk ok
    rw [readDirStays made]
    exact h

/- The disk of createRamdisk has its root directory in inode 0, with one block. -/
theorem startReadable {nodeCount blockCount : Nat} {d : Disk} (blocks : 1 ≤ blockCount)
    (made : RamDisk.createRamdisk nodeCount blockCount = some d) : Readable fbSize (globalVFS fbSize d) := by
  obtain ⟨d₀, rootMade, rfl⟩ := Option.map_eq_some_iff.mp made
  obtain ⟨⟨d₁, vfsNode⟩, created, rfl⟩ := Option.map_eq_some_iff.mp rootMade
  rw [RamDisk.mountZeroed] at created
  generalize superEq : RamDisk.createSuper nodeCount blockCount = super at created
  have block : (RamDisk.zeroed super).getFreeDataBlock ≠ none := by
    intro full
    have first := List.find?_eq_none.mp full 0 (List.mem_range.mpr (by rw [← superEq]; exact blocks))
    rw [Cpp.Bitset.getEq] at first
    exact first (by simp [Cpp.Bitset.bitAt, RamDisk.zeroed])
  obtain ⟨inode, free, super', others, kind, number, sized, -⟩ := RamDisk.createGrown (fun _ => block) created
  have zero : inode = 0 := by
    by_contra later
    obtain ⟨-, -, before⟩ := List.find?_range_eq_some.mp free
    exact absurd (before 0 (Nat.pos_of_ne_zero later)) (by simp [RamDisk.zeroed])
  have inside := (RamDisk.freeINodeSpec free).1
  subst zero
  have none : ∀ n, ((globalVFS fbSize d₁.mount).nodes n).children = [] := fun _ => rfl
  refine ⟨⟨Nat.zero_lt_one, fun n c mem => ?_, fun n => ?_, fun n c mem => ?_, rfl⟩, fun i live => ?_, fun n here => ?_⟩
  · rw [none] at mem
    cases mem
  · rw [none]
    exact List.nodup_nil
  · rw [none] at mem
    cases mem
  · by_cases first : i = 0
    · subst first
      exact sized
    · have dead : (d₁.nodes i).type = .INVALID := by
        rw [others i first]
        rfl
      exact absurd dead live.2
  · have shown : (d₁.mount.populateVFSNode 1 0).resource.inode = 0 := number
    have live : Live d₁ 0 := by
      refine ⟨?_, by rw [kind]; simp⟩
      rw [super']
      exact inside
    show Shows fbSize d₁.mount 0 (d₁.mount.populateVFSNode 1 0)
    unfold Shows
    rw [if_pos rfl, shown]
    exact ⟨live, Nat.le_refl _⟩

end runs

end DimOS.Filesystem.Vfs.Files
