import Mathlib
import DimOS.Filesystem.RamDiskFit
import DimOS.Filesystem.RamDiskMount

/-! What an operation through one inode does to the blocks of the disk, whatever state the disk is in: two
inodes may hold one block, and the bit of a block that is held may be clear. The inode takes blocks whose bit
is clear, and no other block with its bit set changes a byte. -/
namespace DimOS.Filesystem.RamDisk
open Cpp
open Cpp.Bitset (bitAt)

def Holds (d : Disk) (i k b : Nat) : Prop := k < (d.nodes i).blocksInUse ∧ (d.nodes i).dataBlocks k = some b

structure Through (inode : Nat) (d d' : Disk) : Prop where
  super : d'.super = d.super
  nodes : ∀ i, i ≠ inode → d'.nodes i = d.nodes i
  taken : ∀ k b, Holds d' inode k b → Holds d inode k b ∨ (b < d.super.blockCnt ∧ bitAt d.data b = false)
  marked : ∀ k b, Holds d' inode k b → Holds d inode k b ∨ bitAt d'.data b = true
  kept : ∀ b, b < d.super.blockCnt → bitAt d.data b = true → bitAt d'.data b = true
  bytes : ∀ b, b < d.super.blockCnt → bitAt d.data b = true → (∀ k, ¬ Holds d inode k b) →
    ∀ o, o < BlockSize → d'.data (d.blockAddr b + o) = d.data (d.blockAddr b + o)

theorem Through.refl (inode : Nat) (d : Disk) : Through inode d d :=
  ⟨rfl, fun _ _ => rfl, fun _ _ held => .inl held, fun _ _ held => .inl held, fun _ _ set => set,
    fun _ _ _ _ _ _ => rfl⟩

theorem Through.trans {inode : Nat} {d d' d'' : Disk} (first : Through inode d d') (second : Through inode d' d'') :
    Through inode d d'' where
  super := second.super.trans first.super
  nodes i other := (second.nodes i other).trans (first.nodes i other)
  taken k b held := by
    rcases second.taken k b held with before | ⟨inside, clear⟩
    · exact first.taken k b before
    · right
      rw [first.super] at inside
      refine ⟨inside, ?_⟩
      by_contra set
      rw [first.kept b inside (by simpa using set)] at clear
      cases clear
  marked k b held := by
    rcases second.marked k b held with before | set
    · rcases first.taken k b before with old | ⟨inside, -⟩
      · exact .inl old
      · rcases first.marked k b before with old | set
        · exact .inl old
        · exact .inr (second.kept b (by rw [first.super]; exact inside) set)
    · exact .inr set
  kept b inside set := second.kept b (by rw [first.super]; exact inside) (first.kept b inside set)
  bytes b inside set free o low := by
    have free' : ∀ k, ¬ Holds d' inode k b := by
      intro k held
      rcases first.taken k b held with before | ⟨-, clear⟩
      · exact free k before
      · rw [set] at clear
        cases clear
    have same := second.bytes b (by rw [first.super]; exact inside) (first.kept b inside set) free' o low
    unfold Disk.blockAddr at same ⊢
    rw [first.super] at same
    exact same.trans (first.bytes b inside set free o low)

theorem nodeThrough {d : Disk} {inode : Nat} {node : Node}
    (fewer : ∀ k b, k < node.blocksInUse ∧ node.dataBlocks k = some b → Holds d inode k b) :
    Through inode d (d.setNode inode node) := by
  have held : ∀ k b, Holds (d.setNode inode node) inode k b → Holds d inode k b := by
    intro k b held
    simp only [Holds, Disk.setNode, Function.update_self] at held
    exact fewer k b held
  exact ⟨rfl, fun i other => by simp only [Disk.setNode, Function.update_of_ne other], fun k b h => .inl (held k b h),
    fun k b h => .inl (held k b h), fun _ _ set => set, fun _ _ _ _ _ _ => rfl⟩

theorem attachThrough {d : Disk} (valid : d.super.Valid) {inode b : Nat} (free : d.getFreeDataBlock = some b) :
    Through inode d (d.attach inode b) := by
  obtain ⟨inside, clear⟩ := freeBlockSpec free
  have held : ∀ k b', Holds (d.attach inode b) inode k b' → Holds d inode k b' ∨ b' = b := by
    rintro k b' ⟨low, slot⟩
    simp only [Disk.attach, Disk.setNode, Function.update_self] at low slot
    by_cases last : k = (d.nodes inode).blocksInUse
    · rw [last, Function.update_self] at slot
      exact .inr (Option.some.inj slot).symm
    · rw [Function.update_of_ne last] at slot
      exact .inl ⟨by omega, slot⟩
  have bit : ∀ j, bitAt (d.attach inode b).data j = if j = b then true else bitAt d.data j := Bitset.setBit d.data b true
  refine ⟨rfl, fun i other => Function.update_of_ne other _ d.nodes, fun k b' h => ?_, fun k b' h => ?_,
    fun j _ set => ?_, fun b' inside' _ _ o low => ?_⟩
  · rcases held k b' h with old | rfl
    · exact .inl old
    · exact .inr ⟨inside, clear⟩
  · rcases held k b' h with old | rfl
    · exact .inl old
    · exact .inr (by rw [bit, if_pos rfl])
  · rw [bit]
    split
    · rfl
    · exact set
  · refine setByte d.data b true ?_
    unfold Super.Valid at valid
    unfold Disk.blockAddr
    omega

theorem blockThrough {d : Disk} (valid : d.super.Valid) {inode k b offset : Nat} (held : Holds d inode k b) {m : Lib.ByteMemory.Memory}
    (below : ∀ a, a < d.blockAddr b + offset → m a = d.data a)
    (above : ∀ a, d.blockAddr b + BlockSize ≤ a → m a = d.data a) : Through inode d { d with data := m } := by
  refine ⟨rfl, fun _ _ => rfl, fun _ _ h => .inl h, fun _ _ h => .inl h, fun j inside set => ?_,
    fun b' _ _ free o low => ?_⟩
  · show bitAt m j = true
    rw [blockBits valid below j inside]
    exact set
  · have apart : b' ≠ b := by
      rintro rfl
      exact free k held
    rcases Nat.lt_or_gt_of_ne apart with less | greater
    · apply below
      unfold Disk.blockAddr BlockSize at *
      omega
    · apply above
      unfold Disk.blockAddr BlockSize at *
      omega

theorem writeLoopThrough {size : Nat} {buffer : Buffer} {inode left : Nat} {d out : Disk}
    {i prevDone written total : Nat} (valid : d.super.Valid) (h : Slots (d.nodes inode)) (room : i + left ≤ MaxDataBlocks)
    (reach : i ≤ (d.nodes inode).blocksInUse) (within : prevDone < BlockSize)
    (ok : Disk.writeLoop inode size buffer left d i prevDone written = some (out, total)) : Through inode d out := by
  induction left generalizing d i prevDone written with
  | zero =>
    cases Option.some.inj ok
    exact .refl _ _
  | succ left ih =>
    simp only [Disk.writeLoop] at ok
    split at ok
    · split at ok
      · cases Option.some.inj ok
        exact .refl _ _
      · next mid claimed =>
        obtain ⟨fed, used⟩ := claimFed h (by omega) reach claimed
        have first : Through inode d mid := by
          unfold Disk.claimBlock at claimed
          split at claimed
          · obtain ⟨b, free, made⟩ := Option.map_eq_some_iff.mp claimed
            subst made
            exact attachThrough valid free
          · cases Option.some.inj claimed
            exact .refl _ _
        obtain ⟨b, slot⟩ := Option.ne_none_iff_exists'.mp (fed.slots.slots i used)
        simp only [slot] at ok
        generalize filledEq : Disk.fill buffer size (BlockSize - prevDone) mid.data (mid.blockAddr b + prevDone) written =
          filled at ok
        have valid' : mid.super.Valid := first.super ▸ valid
        have below := (fillSpec buffer size (BlockSize - prevDone) mid.data (mid.blockAddr b + prevDone) written).1
        have above : ∀ a, mid.blockAddr b + BlockSize ≤ a → filled.1 a = mid.data a := fun a high => by
          rw [← filledEq]
          exact fillAbove buffer size (BlockSize - prevDone) mid.data (mid.blockAddr b + prevDone) written (by omega)
        rw [filledEq] at below
        have inside := blockThrough valid' (show Holds mid inode i b from ⟨used, slot⟩) below above
        have rest := @ih { mid with data := filled.1 } (i + 1) 0 filled.2 valid' fed.slots (by omega) used
          (by unfold BlockSize; omega) ok
        exact first.trans (inside.trans rest)
    · cases Option.some.inj ok
      exact .refl _ _

theorem writeThrough {d : Disk} {resource : Resource} {offset size : Nat} {buffer : Buffer} {out : Disk.Written}
    (valid : d.super.Valid) (fit : AllFit d) (begins : offset / BlockSize ≤ (d.nodes resource.inode).blocksInUse)
    (ok : d.write resource offset size buffer = some out) :
    Through resource.inode d out.disk ∧ out.resource.inode = resource.inode := by
  unfold Disk.write at ok
  split at ok
  · cases Option.some.inj ok
    exact ⟨.refl _ _, rfl⟩
  · next small =>
    simp only at ok
    split at ok
    · cases ok
    · next mid total done =>
      cases Option.some.inj ok
      have loop := writeLoopThrough valid (fit resource.inode).toSlots
        (by unfold MaxDataBlocks BlockSize at *; omega) begins (Nat.mod_lt _ (by unfold BlockSize; omega)) done
      exact ⟨loop.trans (nodeThrough fun _ _ held => held), rfl⟩

theorem writeDirThrough {d out : Disk} {vfsNode : VfsNode} {entries : List DirEntry} (valid : d.super.Valid)
    (fit : AllFit d) (ok : d.writeDir vfsNode entries = some out) : Through vfsNode.resource.inode d out := by
  obtain ⟨mid, wrote, steady, -⟩ := writeFit (entries.length * sizeofDirEntry % 2 ^ 32) (entryBytes entries) fit
    (.inl (fit vfsNode.resource.inode).tail)
  obtain ⟨first, number⟩ := writeThrough valid fit (fit vfsNode.resource.inode).tail wrote
  unfold Disk.writeDir at ok
  simp only [wrote] at ok
  split at ok
  · cases ok
  · obtain ⟨last, wrote', rfl⟩ := Option.map_eq_some_iff.mp ok
    have second := (writeThrough (first.super ▸ valid) steady.fit (by rw [Nat.zero_div]; exact Nat.zero_le _) wrote').1
    rw [number] at second
    exact first.trans second

theorem createOpened {d : Disk} {deviceID : Int} {type : NodeType} {out : Disk × VfsNode} (fit : AllFit d)
    (ok : d.create deviceID type = some out) :
    ∃ inode made resource wrote node, d.getFreeINode = some inode ∧ Through inode d made ∧ made.data = d.data ∧
      AllFit made ∧ (made.nodes inode).blocksInUse = 0 ∧ resource.inode = inode ∧
      made.write resource 0 BlockSize (fun _ => 0#8) = some wrote ∧ out.1 = wrote.disk.setNode inode node ∧
      node.blocksInUse = (wrote.disk.nodes inode).blocksInUse ∧
      node.dataBlocks = (wrote.disk.nodes inode).dataBlocks ∧ out.2.resource.inode = wrote.resource.inode := by
  cases found : d.getFreeINode with
  | none =>
    simp only [Disk.create, found] at ok
    cases ok
  | some inode =>
    have emptied : Through inode d (d.setNode inode
        { d.nodes inode with blocksInUse := 0, inode := inode, size := 0, type := type }) :=
      nodeThrough fun k b held => absurd held.1 (Nat.not_lt_zero k)
    simp only [Disk.create, found] at ok
    generalize madeEq : d.setNode inode
      { d.nodes inode with blocksInUse := 0, inode := inode, size := 0, type := type } = made at ok emptied
    have here : made.nodes inode =
        { d.nodes inode with blocksInUse := 0, inode := inode, size := 0, type := type } := by
      rw [← madeEq]
      simp [Disk.setNode]
    have data : made.data = d.data := by
      rw [← madeEq]
      rfl
    have begun : AllFit made := by
      intro i
      by_cases own : i = inode
      · rw [own, here]
        exact ⟨⟨Nat.zero_le _, fun k low => absurd low (Nat.not_lt_zero k)⟩, by simp⟩
      · rw [emptied.nodes i own]
        exact fit i
    split at ok
    · cases ok
    · next wrote done =>
      cases Option.some.inj ok
      exact ⟨inode, made, (made.populateVFSNode deviceID inode).resource, wrote, _, rfl, emptied, data, begun, by rw [here],
        by simp [Disk.populateVFSNode, here], done, rfl, rfl, rfl, rfl⟩

theorem createThrough {d : Disk} {deviceID : Int} {type : NodeType} {out : Disk × VfsNode} (valid : d.super.Valid)
    (fit : AllFit d) (ok : d.create deviceID type = some out) :
    d.getFreeINode = some out.2.resource.inode ∧ Through out.2.resource.inode d out.1 := by
  obtain ⟨inode, made, resource, wrote, node, free, emptied, -, begun, -, number, done, shape, used, slots, last⟩ :=
    createOpened fit ok
  obtain ⟨second, same⟩ := writeThrough (emptied.super ▸ valid) begun (by rw [Nat.zero_div]; exact Nat.zero_le _) done
  rw [number] at second same
  rw [last, same, shape]
  have closed : Through inode wrote.disk (wrote.disk.setNode inode node) := nodeThrough fun k b held => by
    rwa [used, slots] at held
  exact ⟨free, emptied.trans (second.trans closed)⟩

/- Every block that is held is one of the disk with its bit set, or spared. -/
def BitsSet (spare : Nat → Prop) (d : Disk) : Prop :=
  ∀ i k b, Holds d i k b → b < d.super.blockCnt ∧ (bitAt d.data b = true ∨ spare b)

theorem Through.bitsKept {spare : Nat → Prop} {inode : Nat} {d d' : Disk} (through : Through inode d d')
    (h : BitsSet spare d) : BitsSet spare d' := by
  have old : ∀ i k b, Holds d i k b → b < d'.super.blockCnt ∧ (bitAt d'.data b = true ∨ spare b) := by
    intro i k b held
    obtain ⟨inside, set⟩ := h i k b held
    rw [through.super]
    exact ⟨inside, set.imp_left (through.kept b inside)⟩
  intro i k b held
  by_cases own : i = inode
  · subst own
    rcases through.taken k b held with before | ⟨inside, -⟩
    · exact old i k b before
    · rcases through.marked k b held with before | set
      · exact old i k b before
      · exact ⟨by rw [through.super]; exact inside, .inl set⟩
  · refine old i k b ?_
    unfold Holds at held ⊢
    rwa [through.nodes i own] at held

def Secluded (inode : Nat) (d : Disk) : Prop :=
  ∀ i k b, i ≠ inode → Holds d i k b → ∀ k', ¬ Holds d inode k' b

theorem Through.secludedOwn {inode : Nat} {d d' : Disk} (through : Through inode d d') (marked : BitsSet (fun _ => False) d)
    (h : Secluded inode d) : Secluded inode d' := by
  intro i k b other held k' mine
  unfold Holds at held
  rw [through.nodes i other] at held
  rcases through.taken k' b mine with before | ⟨-, clear⟩
  · exact h i k b other held k' before
  · rcases (marked i k b held).2 with set | none
    · rw [set] at clear
      cases clear
    · exact none

theorem Through.secludedOther {inode through' : Nat} {d d' : Disk} (through : Through through' d d')
    (apart : through' ≠ inode) (marked : BitsSet (fun _ => False) d) (h : Secluded inode d) : Secluded inode d' := by
  have same := through.nodes inode (Ne.symm apart)
  intro i k b other held k' mine
  unfold Holds at mine
  rw [same] at mine
  by_cases own : i = through'
  · subst own
    rcases through.taken k b held with before | ⟨-, clear⟩
    · exact h i k b other before k' mine
    · rcases (marked inode k' b mine).2 with set | none
      · rw [set] at clear
        cases clear
      · exact none
  · unfold Holds at held
    rw [through.nodes i own] at held
    exact h i k b other held k' mine

theorem createMarksFirst {d : Disk} {deviceID : Int} {type : NodeType} {out : Disk × VfsNode} (valid : d.super.Valid)
    (fit : AllFit d) (some' : 0 < d.super.blockCnt) (ok : d.create deviceID type = some out) :
    bitAt out.1.data 0 = true := by
  obtain ⟨inode, made, resource, wrote, node, -, emptied, -, begun, empty, number, done, shape, -⟩ := createOpened fit ok
  obtain ⟨second, -⟩ := writeThrough (emptied.super ▸ valid) begun (by rw [Nat.zero_div]; exact Nat.zero_le _) done
  have inside : 0 < made.super.blockCnt := emptied.super ▸ some'
  rw [shape]
  show bitAt wrote.disk.data 0 = true
  by_cases set : bitAt made.data 0 = true
  · exact second.kept 0 inside set
  · have first : made.getFreeDataBlock = some 0 := by
      apply List.find?_range_eq_some.mpr
      refine ⟨?_, List.mem_range.mpr inside, fun j below => absurd below (Nat.not_lt_zero j)⟩
      rw [Bitset.getEq]
      simpa using set
    obtain ⟨wrote', again, used, slot, -⟩ := writeFirstBlock resource (fun _ => 0#8) (by rw [number]; exact empty) first
    cases Option.some.inj (done.symm.trans again)
    have held : Holds wrote.disk resource.inode 0 0 := ⟨by omega, slot⟩
    rcases second.marked 0 0 held with before | marked
    · have low := before.1
      rw [number, empty] at low
      cases low
    · exact marked

theorem createSecluded {d : Disk} {deviceID : Int} {type : NodeType} {out : Disk × VfsNode} (valid : d.super.Valid)
    (fit : AllFit d) (marked : BitsSet (fun _ => False) d) (ok : d.create deviceID type = some out) :
    Secluded out.2.resource.inode out.1 := by
  obtain ⟨inode, made, resource, wrote, node, -, emptied, -, begun, empty, number, done, shape, used, slots,
    last⟩ :=
    createOpened fit ok
  obtain ⟨second, same⟩ := writeThrough (emptied.super ▸ valid) begun (by rw [Nat.zero_div]; exact Nat.zero_le _) done
  rw [number] at second same
  have alone : Secluded inode made := fun i k b _ _ k' mine => by
    have low := mine.1
    rw [empty] at low
    exact Nat.not_lt_zero _ low
  have closed : Through inode wrote.disk (wrote.disk.setNode inode node) := nodeThrough fun k b held => by
    rwa [used, slots] at held
  rw [last, same, shape]
  exact (second.trans closed).secludedOwn (emptied.bitsKept marked) alone

theorem rootHolds {nodeCount blockCount : Nat} {d : Disk} (made : createRoot nodeCount blockCount = some d)
    {i k b : Nat} (held : Holds d i k b) : b < d.super.blockCnt ∧ b = 0 := by
  obtain ⟨⟨out, vfsNode⟩, created, rfl⟩ := Option.map_eq_some_iff.mp made
  rw [mountZeroed] at created
  have valid : (createSuper nodeCount blockCount).Valid := by
    simp only [Super.Valid, createSuper]
    omega
  have none : ∀ i k b, ¬ Holds (zeroed (createSuper nodeCount blockCount)) i k b :=
    fun i k b held => absurd held.1 (Nat.not_lt_zero k)
  have fit : AllFit (zeroed (createSuper nodeCount blockCount)) := fun i =>
    ⟨⟨Nat.zero_le _, fun k low => absurd low (Nat.not_lt_zero k)⟩, by simp [zeroed]⟩
  have marked : BitsSet (fun _ => False) (zeroed (createSuper nodeCount blockCount)) :=
    fun i k b held => absurd held (none i k b)
  have through := (createThrough valid fit created).2
  have inside := (through.bitsKept marked i k b held).1
  refine ⟨inside, ?_⟩
  obtain ⟨inode, fresh, resource, wrote, node, free, emptied, data, begun, empty, number, done, shape, used, slots, -⟩ :=
    createOpened fit created
  have first : fresh.getFreeDataBlock = some 0 := by
    apply List.find?_range_eq_some.mpr
    refine ⟨?_, ?_, fun j below => absurd below (Nat.not_lt_zero j)⟩
    · rw [Bitset.getEq, data]
      simp [bitAt, zeroed]
    · rw [emptied.super]
      rw [through.super] at inside
      exact List.mem_range.mpr (Nat.zero_lt_of_lt inside)
  obtain ⟨wrote', again, one, slot, -⟩ := writeFirstBlock resource (fun _ => 0#8) (by rw [number]; exact empty) first
  cases Option.some.inj (done.symm.trans again)
  rw [number] at one slot
  have mine : i = inode := by
    by_contra other
    have same := through.nodes i (by rwa [← Option.some.inj (free.symm.trans (createThrough valid fit created).1)])
    unfold Holds at held
    rw [same] at held
    exact none i k b held
  obtain ⟨low, here⟩ := held
  rw [shape, mine] at low here
  simp only [Disk.setNode, Function.update_self] at low here
  rw [used, one] at low
  rw [slots, show k = 0 by omega, slot] at here
  exact (Option.some.inj here).symm

end DimOS.Filesystem.RamDisk
