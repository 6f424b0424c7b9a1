import DimOS.Filesystem.RamDiskSizes

/-! What keeps reads and writes of the RamDisk from failing: the slots in use are filled, and a file
ends in a block in use or in front of the next one. Nothing is asked of the bitset, and a disk
without a free block keeps it as well. -/
namespace DimOS.Filesystem.RamDisk

structure Fit (node : Node) : Prop extends Slots node where
  tail : node.size / BlockSize ≤ node.blocksInUse

def AllFit (d : Disk) : Prop := ∀ i, Fit (d.nodes i)

/- All inodes are fit afterwards, those in use stay in use and none of them shrinks. -/
structure Steady (d d' : Disk) : Prop where
  fit : AllFit d'
  keeps : ∀ i, (d.nodes i).type ≠ .INVALID →
    (d'.nodes i).type ≠ .INVALID ∧ (d.nodes i).size ≤ (d'.nodes i).size

theorem Steady.refl {d : Disk} (fit : AllFit d) : Steady d d := ⟨fit, fun _ used => ⟨used, Nat.le_refl _⟩⟩

theorem Steady.trans {d d' d'' : Disk} (first : Steady d d') (second : Steady d' d'') : Steady d d'' := by
  refine ⟨second.fit, fun i used => ?_⟩
  obtain ⟨kept, more⟩ := first.keeps i used
  obtain ⟨kept', more'⟩ := second.keeps i kept
  exact ⟨kept', more.trans more'⟩

theorem writeLoopFit {size offset : Nat} {buffer : Buffer} {inode left : Nat} {d : Disk} {i prevDone written : Nat}
    (h : Slots (d.nodes inode)) (room : i + left ≤ MaxDataBlocks) (reach : i ≤ (d.nodes inode).blocksInUse)
    (within : prevDone < BlockSize) (place : written < size → offset + written = BlockSize * i + prevDone) :
    ∃ out done, Disk.writeLoop inode size buffer left d i prevDone written = some (out, done) ∧ Fed inode d out ∧
      (offset + done ≤ BlockSize * (out.nodes inode).blocksInUse ∨ done = written) := by
  induction left generalizing d i prevDone written with
  | zero => exact ⟨d, written, rfl, .refl h, .inr rfl⟩
  | succ left ih =>
    simp only [Disk.writeLoop]
    by_cases more : written < size
    · rw [if_pos more]
      cases claimed : d.claimBlock inode i with
      | none => exact ⟨d, written, rfl, .refl h, .inr rfl⟩
      | some mid =>
        obtain ⟨first, used⟩ := claimFed h (by omega) reach claimed
        obtain ⟨b, slot⟩ := Option.ne_none_iff_exists'.mp (first.slots.slots i used)
        dsimp only
        rw [slot]
        dsimp only
        rcases filled : Disk.fill buffer size (BlockSize - prevDone) mid.data (mid.blockAddr b + prevDone) written
          with ⟨m, total⟩
        obtain ⟨-, -, most, full⟩ := fillSpec buffer size (BlockSize - prevDone) mid.data
          (mid.blockAddr b + prevDone) written
        simp only [filled] at most full
        have here := place more
        have next : total < size → offset + total = BlockSize * (i + 1) + 0 := by
          intro less
          have := full less
          unfold BlockSize at *
          omega
        have covers : offset + total ≤ BlockSize * (mid.nodes inode).blocksInUse := by
          unfold BlockSize at *
          omega
        obtain ⟨out, done, ran, fed, reached⟩ := @ih { mid with data := m } (i + 1) 0 total first.slots (by omega)
          used (by unfold BlockSize; omega) next
        have later : Fed inode mid out := ⟨fed.slots, fed.others, fed.size, fed.blocks⟩
        refine ⟨out, done, ran, first.trans later, .inl ?_⟩
        rcases reached with covered | rfl
        · exact covered
        · exact covers.trans (Nat.mul_le_mul_left _ later.blocks)
    · rw [if_neg more]
      exact ⟨d, written, rfl, .refl h, .inr rfl⟩

theorem writeFit {d : Disk} {resource : Resource} {offset : Nat} (size : Nat) (buffer : Buffer) (fit : AllFit d)
    (begins : offset / BlockSize ≤ (d.nodes resource.inode).blocksInUse ∨ MaxDataBlocks * BlockSize < offset) :
    ∃ out, d.write resource offset size buffer = some out ∧ Steady d out.disk ∧
      out.resource.inode = resource.inode ∧ (offset ≤ (d.nodes resource.inode).size →
        offset + out.bytes ≤ (out.disk.nodes resource.inode).size) := by
  unfold Disk.write
  by_cases past : offset > MaxDataBlocks * BlockSize
  · rw [if_pos past]
    exact ⟨_, rfl, .refl fit, rfl, fun inside => inside⟩
  · have reach := begins.resolve_right past
    have cap := (fit resource.inode).cap
    have shown := (fit resource.inode).tail
    obtain ⟨out, done, ran, fed, covered⟩ := @writeLoopFit (min size (MaxDataBlocks * BlockSize - offset)) offset buffer
      resource.inode (MaxDataBlocks - offset / BlockSize) d (offset / BlockSize) (offset % BlockSize) 0
      (fit resource.inode).toSlots (by unfold MaxDataBlocks BlockSize at *; omega) reach
      (Nat.mod_lt _ (by unfold BlockSize; omega)) (fun _ => (Nat.div_add_mod offset BlockSize).symm)
    have blocks := fed.blocks
    have kind := writeLoopKind ran
    rw [if_neg past]
    dsimp only
    rw [ran]
    refine ⟨_, rfl, ⟨fun i => ?_, fun i used => ?_⟩, rfl, fun _ => ?_⟩
    · by_cases own : i = resource.inode
      · subst own
        simp only [Disk.setNode, Function.update_self]
        refine ⟨⟨fed.slots.cap, fed.slots.slots⟩, ?_⟩
        simp only [fed.size]
        unfold BlockSize at *
        omega
      · simp only [Disk.setNode, Function.update_of_ne own]
        rw [fed.others i own]
        exact fit i
    · by_cases own : i = resource.inode
      · subst own
        simp only [Disk.setNode, Function.update_self, fed.size]
        refine ⟨?_, Nat.le_max_left _ _⟩
        rw [(kind _).2]
        exact used
      · simp only [Disk.setNode, Function.update_of_ne own]
        rw [fed.others i own]
        exact ⟨used, Nat.le_refl _⟩
    · simp only [Disk.setNode, Function.update_self]
      exact Nat.le_max_right _ _

theorem readReturns {d : Disk} {resource : Resource} {offset size : Nat} {buffer : Buffer}
    (h : Slots (d.nodes resource.inode)) : ∃ out, d.read resource offset size buffer = some out ∧ out.2 ≤ size := by
  obtain ⟨out, ran, count, -⟩ := readBytes h.cap h.slots offset size buffer
  exact ⟨out, ran, count ▸ Nat.min_le_left _ _⟩

theorem readFit {d : Disk} {resource : Resource} (offset size : Nat) (buffer : Buffer) (fit : AllFit d) :
    ∃ out, d.read resource offset size buffer = some out ∧ out.2 ≤ size :=
  readReturns (fit resource.inode).toSlots

theorem writeDirFit {d : Disk} (vfsNode : VfsNode) (entries : List DirEntry) (fit : AllFit d) :
    ∃ out, d.writeDir vfsNode entries = some out ∧ Steady d out := by
  obtain ⟨mid, wrote, first, -⟩ := writeFit (entries.length * sizeofDirEntry % 2 ^ 32) (entryBytes entries) fit
    (.inl (fit vfsNode.resource.inode).tail)
  obtain ⟨⟨header, count⟩, got, -⟩ := @readFit mid.disk mid.resource 0 sizeofDirHeader (fun _ => 0#8) first.fit
  obtain ⟨last, again, second, -⟩ := @writeFit mid.disk mid.resource 0 sizeofDirHeader
    (storeInt header 0 (loadInt header 0 + entries.length)) first.fit (.inl (Nat.zero_le _))
  refine ⟨last.disk, ?_, first.trans second⟩
  simp only [Disk.writeDir, wrote, got, again, Option.map_some]

theorem createFit {d : Disk} {deviceID : Int} {type : NodeType} (fit : AllFit d)
    (free : d.getFreeINode ≠ none) : ∃ out, d.create deviceID type = some out ∧ Steady d out.1 ∧
      (out.1.nodes out.2.resource.inode).type = type := by
  obtain ⟨inode, found⟩ := Option.ne_none_iff_exists'.mp free
  have dead := (freeINodeSpec found).2
  generalize madeEq : d.setNode inode
    { d.nodes inode with blocksInUse := 0, inode := inode, size := 0, type := type } = made
  have here : made.nodes inode =
      { d.nodes inode with blocksInUse := 0, inode := inode, size := 0, type := type } := by
    rw [← madeEq]
    simp [Disk.setNode]
  have elsewhere : ∀ j, j ≠ inode → made.nodes j = d.nodes j := by
    intro j other
    rw [← madeEq]
    exact Function.update_of_ne other _ d.nodes
  have number : (made.populateVFSNode deviceID inode).resource.inode = inode := by
    simp [Disk.populateVFSNode, here]
  have begun : AllFit made := by
    intro i
    by_cases own : i = inode
    · rw [own, here]
      exact ⟨⟨Nat.zero_le _, fun k low => absurd low (Nat.not_lt_zero k)⟩, by simp⟩
    · rw [elsewhere i own]
      exact fit i
  obtain ⟨wrote, done, steady, sameInode, -⟩ := @writeFit made (made.populateVFSNode deviceID inode).resource 0 BlockSize
    (fun _ => 0#8) begun (.inl (Nat.zero_le _))
  rw [number] at sameInode
  have kind := (writeKind done inode).2
  rw [here] at kind
  refine ⟨_, by simp only [Disk.create, found, madeEq, done]; rfl, ⟨fun i => ?_, fun i used => ?_⟩, ?_⟩
  · by_cases own : i = inode
    · subst own
      simp only [Disk.setNode, Function.update_self]
      refine ⟨⟨(steady.fit i).cap, (steady.fit i).slots⟩, ?_⟩
      have few : (if type = .DIRECTORY then sizeofDirHeader else 0) / BlockSize = 0 := by
        split <;> rfl
      simp only [few]
      exact Nat.zero_le _
    · simp only [Disk.setNode, Function.update_of_ne own]
      exact steady.fit i
  · have old : i ≠ inode := by
      rintro rfl
      exact used dead
    simp only [Disk.setNode, Function.update_of_ne old]
    have kept := steady.keeps i (by rw [elsewhere i old]; exact used)
    rwa [elsewhere i old] at kept
  · dsimp only
    rw [sameInode]
    simp only [Disk.setNode, Function.update_self]
    exact kind

theorem createSteady {d : Disk} {deviceID : Int} {type : NodeType} {out : Disk × VfsNode} (fit : AllFit d)
    (ok : d.create deviceID type = some out) : Steady d out.1 ∧ (out.1.nodes out.2.resource.inode).type = type := by
  have free : d.getFreeINode ≠ none := by
    intro none
    simp only [Disk.create, none] at ok
    cases ok
  obtain ⟨out', again, made⟩ := @createFit d deviceID type fit free
  cases Option.some.inj (ok.symm.trans again)
  exact made

end DimOS.Filesystem.RamDisk
