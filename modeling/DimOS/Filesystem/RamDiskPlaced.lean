import DimOS.Filesystem.RamDiskMount
import DimOS.Filesystem.RamDiskEntries

/-! Whatever the operations of the RamDisk are called on, the slots of its inodes hold blocks of the disk:
also the slots of inodes that are not in use, and also when two slots hold one block. -/
namespace DimOS.Filesystem.RamDisk
open Lib.ByteMemory

structure Placed (d : Disk) : Prop where
  valid : d.super.Valid
  slots : ∀ i k b, (d.nodes i).dataBlocks k = some b → b < d.super.blockCnt

structure SlotsFrom (d d' : Disk) : Prop where
  super : d'.super = d.super
  slots : ∀ i k b, (d'.nodes i).dataBlocks k = some b →
    (d.nodes i).dataBlocks k = some b ∨ b < d.super.blockCnt

theorem SlotsFrom.refl (d : Disk) : SlotsFrom d d := ⟨rfl, fun _ _ _ slot => .inl slot⟩

theorem SlotsFrom.trans {d d' d'' : Disk} (first : SlotsFrom d d') (second : SlotsFrom d' d'') :
    SlotsFrom d d'' := by
  refine ⟨second.super.trans first.super, fun i k b slot => ?_⟩
  rcases second.slots i k b slot with before | inside
  · exact first.slots i k b before
  · rw [first.super] at inside
    exact .inr inside

theorem SlotsFrom.placed {d d' : Disk} (grown : SlotsFrom d d') (h : Placed d) : Placed d' := by
  refine ⟨grown.super ▸ h.valid, fun i k b slot => ?_⟩
  rw [grown.super]
  exact (grown.slots i k b slot).elim (h.slots i k b) id

theorem nodeSlots {d : Disk} {inode : Nat} {node : Node} (same : node.dataBlocks = (d.nodes inode).dataBlocks) :
    SlotsFrom d (d.setNode inode node) := by
  refine ⟨rfl, fun i k b slot => .inl ?_⟩
  simp only [Disk.setNode, Function.update_apply] at slot
  split at slot
  · next here => rw [here, ← same, slot]
  · exact slot

theorem claimSlots {d out : Disk} {inode i : Nat} (ok : d.claimBlock inode i = some out) : SlotsFrom d out := by
  unfold Disk.claimBlock at ok
  split at ok
  · obtain ⟨b, free, rfl⟩ := Option.map_eq_some_iff.mp ok
    have inside := (freeBlockSpec free).1
    refine ⟨rfl, fun i k b' slot => ?_⟩
    simp only [Disk.attach, Disk.setNode, Function.update_apply] at slot
    split at slot
    · next here =>
      subst here
      simp only [Function.update_apply] at slot
      split at slot
      · exact .inr (Option.some.inj slot ▸ inside)
      · exact .inl slot
    · exact .inl slot
  · cases Option.some.inj ok
    exact .refl d

theorem writeLoopSlots {inode size : Nat} {buffer : Buffer} {left : Nat} {d : Disk} {i prevDone written : Nat}
    {out : Disk × Nat} (ok : Disk.writeLoop inode size buffer left d i prevDone written = some out) :
    SlotsFrom d out.1 := by
  induction left generalizing d i prevDone written with
  | zero =>
    cases Option.some.inj ok
    exact .refl d
  | succ left ih =>
    simp only [Disk.writeLoop] at ok
    split at ok
    · split at ok
      · cases Option.some.inj ok
        exact .refl d
      · next mid claimed =>
        split at ok
        · contradiction
        · have rest := ih ok
          exact (claimSlots claimed).trans ⟨rest.super, rest.slots⟩
    · cases Option.some.inj ok
      exact .refl d

theorem writeSlots {d : Disk} {resource : Resource} {offset size : Nat} {buffer : Buffer} {out : Disk.Written}
    (ok : d.write resource offset size buffer = some out) : SlotsFrom d out.disk := by
  simp only [Disk.write] at ok
  split at ok
  · cases Option.some.inj ok
    exact .refl d
  · split at ok
    · contradiction
    · next mid written done =>
      cases Option.some.inj ok
      exact (writeLoopSlots done).trans (nodeSlots rfl)

theorem createSlots {d : Disk} {deviceID : Int} {type : NodeType} {out : Disk × VfsNode}
    (ok : d.create deviceID type = some out) : SlotsFrom d out.1 := by
  simp only [Disk.create] at ok
  split at ok
  · contradiction
  · split at ok
    · contradiction
    · next wrote done =>
      cases Option.some.inj ok
      have wroteSlots := writeSlots done
      exact (SlotsFrom.trans (nodeSlots (by rfl)) wroteSlots).trans (nodeSlots (by rfl))

theorem writeDirSlots {d out : Disk} {vfsNode : VfsNode} {entries : List DirEntry}
    (ok : d.writeDir vfsNode entries = some out) : SlotsFrom d out := by
  simp only [Disk.writeDir] at ok
  split at ok
  · contradiction
  · next mid wrote =>
    split at ok
    · contradiction
    · obtain ⟨last, wrote', rfl⟩ := Option.map_eq_some_iff.mp ok
      exact (writeSlots wrote).trans (writeSlots wrote')

theorem removeSlots {d out : Disk} {vfsNode : VfsNode} (ok : d.remove vfsNode = some out) : SlotsFrom d out := by
  obtain ⟨mid, freed, rfl⟩ := Option.map_eq_some_iff.mp ok
  have first : SlotsFrom d mid := ⟨freeBlocksSuper freed, fun i k b slot => .inl (freeBlocksNodes freed ▸ slot)⟩
  exact first.trans (nodeSlots rfl)

theorem removeDirEntrySlots {d out : Disk} {vfsNode : VfsNode} {entry : DirEntry}
    (ok : d.removeDirEntry vfsNode entry = some out) : SlotsFrom d out :=
  ⟨dropInBlocksSuper ok, fun _ _ _ slot => .inl ((dropInBlocksKeeps ok).2.1 ▸ slot)⟩

/- What remove changes: bits of the bitset and the type of one inode. -/
structure Removed (d out : Disk) : Prop where
  super : out.super = d.super
  blocks : ∀ i, (out.nodes i).dataBlocks = (d.nodes i).dataBlocks
  used : ∀ i, (out.nodes i).blocksInUse = (d.nodes i).blocksInUse
  bytes : ∀ a, d.super.dataBitsetSize ≤ a → out.data a = d.data a

theorem removeRemoved {d out : Disk} {vfsNode : VfsNode} (h : Placed d) (ok : d.remove vfsNode = some out) :
    Removed d out := by
  obtain ⟨mid, freed, rfl⟩ := Option.map_eq_some_iff.mp ok
  have nodes := freeBlocksNodes freed
  have node : ∀ i, ((mid.freeINode vfsNode.resource.inode).nodes i).dataBlocks = (d.nodes i).dataBlocks ∧
      ((mid.freeINode vfsNode.resource.inode).nodes i).blocksInUse = (d.nodes i).blocksInUse := by
    intro i
    simp only [Disk.freeINode, Disk.setNode, nodes, Function.update_apply]
    split
    · next same => rw [same]; exact ⟨rfl, rfl⟩
    · exact ⟨rfl, rfl⟩
  have super : mid.super = d.super := freeBlocksSuper freed
  refine ⟨super, fun i => (node i).1, fun i => (node i).2, fun a above => ?_⟩
  show mid.data a = d.data a
  refine freeBlocksBytes freed (fun k b _ slot same => ?_)
  have inside := h.slots vfsNode.resource.inode k b slot
  have valid := h.valid
  unfold Super.Valid at valid
  omega

theorem Removed.byteAt {d out : Disk} (removed : Removed d out) (i pos : Nat) : byteAt out i pos = byteAt d i pos := by
  simp only [RamDisk.byteAt, removed.blocks]
  cases (d.nodes i).dataBlocks (pos / BlockSize) with
  | none => rfl
  | some b =>
    simp only [Disk.blockAddr, removed.super]
    exact removed.bytes _ (by omega)

theorem removeOthers {d out : Disk} {vfsNode : VfsNode} (ok : d.remove vfsNode = some out) :
    out.super = d.super ∧ ∀ i, i ≠ vfsNode.resource.inode → out.nodes i = d.nodes i := by
  obtain ⟨mid, freed, rfl⟩ := Option.map_eq_some_iff.mp ok
  have super : mid.super = d.super := freeBlocksSuper freed
  refine ⟨super, fun i other => ?_⟩
  simp only [Disk.freeINode, Disk.setNode, freeBlocksNodes freed]
  exact Function.update_of_ne other _ d.nodes

/- The disk that createRamdisk leaves, mounted twice or once. -/
theorem rootPlaced {nodeCount blockCount : Nat} {d : Disk} (made : createRoot nodeCount blockCount = some d) :
    Placed d ∧ Placed d.mount := by
  obtain ⟨out, created, rfl⟩ := Option.map_eq_some_iff.mp made
  have valid : (createSuper nodeCount blockCount).Valid := by
    unfold Super.Valid createSuper
    dsimp only
    omega
  have start : Placed (zeroed (createSuper nodeCount blockCount)).mount :=
    ⟨valid, fun i k b slot => by cases slot⟩
  have placed := (createSlots created).placed start
  exact ⟨placed, placed.valid, placed.slots⟩

end DimOS.Filesystem.RamDisk
