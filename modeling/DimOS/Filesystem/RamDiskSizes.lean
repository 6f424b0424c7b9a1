import DimOS.Filesystem.RamDiskEntries
import DimOS.Filesystem.RamDiskFile

/-! Sizes against blocks, from the inodes alone: whoever owns the blocks, the slots in use are filled
and cover the size as long as a write leaves no gap and a directory gets its block. Then a read inside
the size returns a byte. -/
namespace DimOS.Filesystem.RamDisk

structure Slots (node : Node) : Prop where
  cap : node.blocksInUse ≤ MaxDataBlocks
  slots : ∀ k, k < node.blocksInUse → node.dataBlocks k ≠ none

structure Sized (node : Node) : Prop extends Slots node where
  covered : node.size ≤ BlockSize * node.blocksInUse

/- The inode may have got blocks, and nothing else happened to the inodes. -/
structure Fed (inode : Nat) (d d' : Disk) : Prop where
  slots : Slots (d'.nodes inode)
  others : ∀ j, j ≠ inode → d'.nodes j = d.nodes j
  size : (d'.nodes inode).size = (d.nodes inode).size
  blocks : (d.nodes inode).blocksInUse ≤ (d'.nodes inode).blocksInUse

theorem Fed.refl {inode : Nat} {d : Disk} (h : Slots (d.nodes inode)) : Fed inode d d :=
  ⟨h, fun _ _ => rfl, rfl, Nat.le_refl _⟩

theorem Fed.trans {inode : Nat} {d d' d'' : Disk} (first : Fed inode d d') (second : Fed inode d' d'') :
    Fed inode d d'' :=
  ⟨second.slots, fun j other => (second.others j other).trans (first.others j other), second.size.trans first.size,
    first.blocks.trans second.blocks⟩

theorem claimFed {d out : Disk} {inode i : Nat} (h : Slots (d.nodes inode)) (below : i < MaxDataBlocks)
    (reach : i ≤ (d.nodes inode).blocksInUse) (ok : d.claimBlock inode i = some out) :
    Fed inode d out ∧ i < (out.nodes inode).blocksInUse := by
  unfold Disk.claimBlock at ok
  split at ok
  · next last =>
    obtain ⟨b, -, rfl⟩ := Option.map_eq_some_iff.mp ok
    have used : ((d.attach inode b).nodes inode).blocksInUse = (d.nodes inode).blocksInUse + 1 := by
      simp [Disk.attach, Disk.setNode]
    refine ⟨⟨⟨by omega, fun k low => ?_⟩, fun j other => Function.update_of_ne other _ d.nodes,
      by simp [Disk.attach, Disk.setNode], by omega⟩, by omega⟩
    rw [used] at low
    simp only [Disk.attach, Disk.setNode, Function.update_self]
    by_cases new : k = (d.nodes inode).blocksInUse
    · rw [new, Function.update_self]
      exact Option.some_ne_none b
    · rw [Function.update_of_ne new]
      exact h.slots k (by omega)
  · cases Option.some.inj ok
    exact ⟨.refl h, by omega⟩

theorem writeLoopFed {size offset : Nat} {buffer : Buffer} {inode left : Nat} {d out : Disk}
    {i prevDone written done : Nat} (h : Slots (d.nodes inode)) (room : i + left ≤ MaxDataBlocks)
    (reach : i ≤ (d.nodes inode).blocksInUse) (within : prevDone < BlockSize)
    (place : written < size → offset + written = BlockSize * i + prevDone)
    (start : offset + written ≤ BlockSize * (d.nodes inode).blocksInUse ∨
      (written < size ∧ 0 < left ∧ d.getFreeDataBlock ≠ none))
    (ok : Disk.writeLoop inode size buffer left d i prevDone written = some (out, done)) :
    Fed inode d out ∧ offset + done ≤ BlockSize * (out.nodes inode).blocksInUse := by
  induction left generalizing d i prevDone written with
  | zero =>
    cases Option.some.inj ok
    exact ⟨.refl h, start.resolve_right (fun more => Nat.lt_irrefl 0 more.2.1)⟩
  | succ left ih =>
    simp only [Disk.writeLoop] at ok
    split at ok
    · next more =>
      have here := place more
      split at ok
      · next full =>
        cases Option.some.inj ok
        refine ⟨.refl h, start.resolve_right (fun room => room.2.2 ?_)⟩
        unfold Disk.claimBlock at full
        split at full
        · exact Option.map_eq_none_iff.mp full
        · cases full
      · next mid claimed =>
        obtain ⟨first, used⟩ := claimFed h (by omega) reach claimed
        split at ok
        · cases ok
        · next b slot =>
          -- the round ends with block i or with the last byte
          rcases filled : Disk.fill buffer size (BlockSize - prevDone) mid.data (mid.blockAddr b + prevDone) written
            with ⟨m, total⟩
          obtain ⟨-, -, most, full⟩ := fillSpec buffer size (BlockSize - prevDone) mid.data
            (mid.blockAddr b + prevDone) written
          simp only [filled] at ok most full
          have next : total < size → offset + total = BlockSize * (i + 1) + 0 := by
            intro less
            have := full less
            unfold BlockSize at *
            omega
          have covers : offset + total ≤ BlockSize * (mid.nodes inode).blocksInUse := by
            unfold BlockSize at *
            omega
          obtain ⟨rest, covered⟩ := @ih { mid with data := m } (i + 1) 0 total first.slots (by omega) used
            (by unfold BlockSize; omega) next (.inl covers) ok
          exact ⟨first.trans ⟨rest.slots, rest.others, rest.size, rest.blocks⟩, covered⟩
    · next all =>
      cases Option.some.inj ok
      exact ⟨.refl h, start.resolve_right (fun more => all more.1)⟩

/- The write begins in a block in use or right behind them, or it does nothing, or it begins in the next
block and gets that. -/
def NoGap (d : Disk) (inode offset size : Nat) : Prop :=
  offset ≤ BlockSize * (d.nodes inode).blocksInUse ∨ MaxDataBlocks * BlockSize < offset ∨
    (offset / BlockSize = (d.nodes inode).blocksInUse ∧ 0 < size ∧ d.getFreeDataBlock ≠ none)

/- What a call leaves of an inode that it grows, and of the others. -/
structure Grown (inode : Nat) (d d' : Disk) : Prop where
  super : d'.super = d.super
  others : ∀ j, j ≠ inode → d'.nodes j = d.nodes j
  kind : SameKind d d'
  grows : (d.nodes inode).size ≤ (d'.nodes inode).size
  sized : Sized (d'.nodes inode)

theorem Grown.trans {inode : Nat} {d d' d'' : Disk} (first : Grown inode d d') (second : Grown inode d' d'') :
    Grown inode d d'' :=
  ⟨second.super.trans first.super, fun j other => (second.others j other).trans (first.others j other),
    first.kind.trans second.kind, first.grows.trans second.grows, second.sized⟩

theorem writeGrown {d : Disk} {resource : Resource} {offset size : Nat} {buffer : Buffer} {out : Disk.Written}
    (h : Sized (d.nodes resource.inode)) (noGap : NoGap d resource.inode offset size)
    (ok : d.write resource offset size buffer = some out) :
    Grown resource.inode d out.disk ∧ out.resource.inode = resource.inode ∧
      (out.resource.size = (out.disk.nodes resource.inode).size ∨ out.resource.size = resource.size) := by
  have super := writeSuper ok
  have kind := writeKind ok
  unfold Disk.write at ok
  split at ok
  · cases Option.some.inj ok
    exact ⟨⟨rfl, fun _ _ => rfl, kind, Nat.le_refl _, h⟩, rfl, .inr rfl⟩
  · next inside =>
    simp only at ok
    split at ok
    · cases ok
    · next mid done looped =>
      cases Option.some.inj ok
      have cap := h.cap
      have start : offset + 0 ≤ BlockSize * (d.nodes resource.inode).blocksInUse ∨
          (0 < min size (MaxDataBlocks * BlockSize - offset) ∧ 0 < MaxDataBlocks - offset / BlockSize ∧
            d.getFreeDataBlock ≠ none) := by
        rcases noGap with used | past | ⟨next, some, free⟩
        · exact .inl used
        · exact absurd past inside
        · by_cases used : offset ≤ BlockSize * (d.nodes resource.inode).blocksInUse
          · exact .inl used
          · unfold MaxDataBlocks BlockSize at *
            exact .inr ⟨by omega, by omega, free⟩
      have reach : offset / BlockSize ≤ (d.nodes resource.inode).blocksInUse := by
        rcases noGap with used | past | ⟨next, -, -⟩
        · unfold BlockSize at *
          omega
        · exact absurd past inside
        · exact Nat.le_of_eq next
      have begins : 0 < min size (MaxDataBlocks * BlockSize - offset) →
          offset + 0 = BlockSize * (offset / BlockSize) + offset % BlockSize :=
        fun _ => (Nat.div_add_mod offset BlockSize).symm
      obtain ⟨fed, covered⟩ := writeLoopFed h.toSlots (by unfold MaxDataBlocks BlockSize at *; omega) reach
        (Nat.mod_lt _ (by unfold BlockSize; omega)) begins start looped
      have size := fed.size
      have low := Nat.le_trans h.covered (Nat.mul_le_mul_left BlockSize fed.blocks)
      refine ⟨⟨super, fun j other => ?_, kind, ?_, ⟨?_, ?_⟩, ?_⟩, rfl, .inl ?_⟩
      · simp only [Disk.setNode, Function.update_of_ne other]
        exact fed.others j other
      all_goals simp only [Disk.setNode, Function.update_self]
      · omega
      · exact fed.slots.cap
      · exact fed.slots.slots
      · omega

theorem writeDirGrown {d out : Disk} {vfsNode : VfsNode} {entries : List DirEntry}
    (h : Sized (d.nodes vfsNode.resource.inode)) (ok : d.writeDir vfsNode entries = some out) :
    Grown vfsNode.resource.inode d out := by
  unfold Disk.writeDir at ok
  simp only at ok
  split at ok
  · cases ok
  · next mid wrote =>
    obtain ⟨first, inode, -⟩ := writeGrown h (.inl h.covered) wrote
    split at ok
    · cases ok
    · obtain ⟨last, again, rfl⟩ := Option.map_eq_some_iff.mp ok
      have second := (writeGrown (by rw [inode]; exact first.sized) (.inl (Nat.zero_le _)) again).1
      rw [inode] at second
      exact first.trans second

theorem createGrown {d out : Disk} {deviceID : Int} {type : NodeType} {vfsNode : VfsNode}
    (block : type = .DIRECTORY → d.getFreeDataBlock ≠ none) (ok : d.create deviceID type = some (out, vfsNode)) :
    ∃ inode, d.getFreeINode = some inode ∧ out.super = d.super ∧ (∀ j, j ≠ inode → out.nodes j = d.nodes j) ∧
      (out.nodes inode).type = type ∧ (out.nodes inode).inode = inode ∧ Sized (out.nodes inode) ∧
      vfsNode.resource.inode = inode ∧ vfsNode.resource.size = (out.nodes inode).size := by
  cases free : d.getFreeINode with
  | none =>
    simp only [Disk.create, free] at ok
    cases ok
  | some inode =>
    simp only [Disk.create, free] at ok
    generalize madeEq : d.setNode inode
      { d.nodes inode with blocksInUse := 0, inode := inode, size := 0, type := type } = made at ok
    have here : made.nodes inode =
        { d.nodes inode with blocksInUse := 0, inode := inode, size := 0, type := type } := by
      rw [← madeEq]
      simp [Disk.setNode]
    have elsewhere : ∀ j, j ≠ inode → made.nodes j = d.nodes j := by
      intro j other
      rw [← madeEq]
      exact Function.update_of_ne other _ d.nodes
    have number : (made.populateVFSNode deviceID inode).resource.inode = inode := by
      simp [Disk.populateVFSNode, here]
    split at ok
    · cases ok
    · next wrote done =>
      simp only [Option.some.injEq, Prod.mk.injEq] at ok
      obtain ⟨rfl, rfl⟩ := ok
      have empty : Sized (made.nodes inode) := by
        rw [here]
        exact ⟨⟨Nat.zero_le _, fun k low => absurd low (Nat.not_lt_zero k)⟩, Nat.zero_le _⟩
      obtain ⟨grown, sameInode, -⟩ := writeGrown (by rw [number]; exact empty) (.inl (Nat.zero_le _)) done
      rw [number] at grown sameInode
      have kind := grown.kind inode
      rw [here] at kind
      refine ⟨inode, rfl, ?_, fun j other => ?_, ?_, ?_, ⟨⟨?_, ?_⟩, ?_⟩, sameInode, ?_⟩
      · exact grown.super.trans (by rw [← madeEq]; rfl)
      · simp only [Disk.setNode, Function.update_of_ne other]
        exact (grown.others j other).trans (elsewhere j other)
      all_goals simp only [Disk.setNode, Function.update_self]
      · exact kind.2
      · exact kind.1
      · exact grown.sized.cap
      · exact grown.sized.slots
      · split
        · next directory =>
          obtain ⟨b, some⟩ := Option.ne_none_iff_exists'.mp (block directory)
          have blockMade : made.getFreeDataBlock = Option.some b := by
            rw [← madeEq]
            exact some
          obtain ⟨wrote', done', used, -⟩ := writeFirstBlock (made.populateVFSNode deviceID inode).resource
            (fun _ => 0#8) (by rw [number, here]) blockMade
          cases Option.some.inj (done.symm.trans done')
          rw [number] at used
          rw [used]
          unfold sizeofDirHeader BlockSize
          omega
        · exact Nat.zero_le _

theorem removeElsewhere {d out : Disk} {vfsNode : VfsNode} (ok : d.remove vfsNode = some out) :
    out.super = d.super ∧ (out.nodes vfsNode.resource.inode).type = .INVALID ∧
      ∀ j, j ≠ vfsNode.resource.inode → out.nodes j = d.nodes j := by
  obtain ⟨mid, freed, rfl⟩ := Option.map_eq_some_iff.mp ok
  have super := freeBlocksSuper freed
  refine ⟨super, by simp [Disk.freeINode, Disk.setNode], fun j other => ?_⟩
  simp only [Disk.freeINode, Disk.setNode, Function.update_of_ne other]
  rw [freeBlocksNodes freed]

theorem readLoopReturns {d : Disk} {inode size left i prevDone done : Nat} (buffer : Buffer) (h : Slots (d.nodes inode))
    (room : i + left ≤ (d.nodes inode).blocksInUse) (inside : done ≤ size) :
    ∃ out, d.readLoop inode size left i prevDone buffer done = some out ∧ out.2 ≤ size := by
  induction left generalizing i prevDone buffer done with
  | zero => exact ⟨(buffer, done), rfl, inside⟩
  | succ left ih =>
    simp only [Disk.readLoop]
    by_cases more : done < size
    · have cap := h.cap
      obtain ⟨b, slot⟩ := Option.ne_none_iff_exists'.mp (h.slots i (by omega))
      have count := (drainSpec d.data size (BlockSize - prevDone) (d.blockAddr b + prevDone) buffer done inside).1
      rw [if_pos more, if_neg (by omega), slot]
      exact ih _ (by omega) (by rw [count]; exact Nat.min_le_right _ _)
    · rw [if_neg more]
      exact ⟨(buffer, done), rfl, inside⟩

theorem readProgress {d : Disk} {resource : Resource} {offset limit : Nat} (buffer : Buffer)
    (h : Sized (d.nodes resource.inode)) (inside : offset < (d.nodes resource.inode).size) (asked : 1 ≤ limit) :
    ∃ out, d.read resource offset limit buffer = some out ∧ 1 ≤ out.2 ∧ out.2 ≤ limit := by
  have covered := h.covered
  have cap := h.cap
  obtain ⟨b, slot⟩ := Option.ne_none_iff_exists'.mp (h.slots (offset / BlockSize) (by unfold BlockSize at *; omega))
  obtain ⟨left, count⟩ : ∃ left, (d.nodes resource.inode).blocksInUse - offset / BlockSize = left + 1 :=
    ⟨(d.nodes resource.inode).blocksInUse - offset / BlockSize - 1, by unfold BlockSize at *; omega⟩
  generalize sizeEq : min limit ((d.nodes resource.inode).size - offset) = size
  have drained := (drainSpec d.data size (BlockSize - offset % BlockSize)
    (d.blockAddr b + offset % BlockSize) buffer 0 (Nat.zero_le _)).1
  rcases result : Disk.drain d.data size (BlockSize - offset % BlockSize)
    (d.blockAddr b + offset % BlockSize) buffer 0 with ⟨buffer', done⟩
  rw [result] at drained
  dsimp only at drained
  have first : 1 ≤ done := by
    unfold BlockSize at *
    omega
  obtain ⟨out, ran, bound⟩ := @readLoopReturns d resource.inode size left (offset / BlockSize + 1) 0 done buffer'
    h.toSlots (by omega) (by omega)
  have later := (readLoopKeeps (by omega) ran).1
  refine ⟨out, ?_, by omega, by omega⟩
  simp only [Disk.read]
  rw [if_neg (by omega), sizeEq, count]
  simp only [Disk.readLoop]
  rw [if_pos (by omega), if_neg (by unfold BlockSize at *; omega), slot]
  simp only [result]
  exact ran

end DimOS.Filesystem.RamDisk
