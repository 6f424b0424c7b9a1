import Mathlib
import DimOS.Lib.Transition
import DimOS.Filesystem.RamDisk

/-! Who owns a data block. Any sequence of create, remove, write and writeDir through one
RamDisk over a zeroed image, the disk filling up at any point of them, keeps the bitset and
the slots of the live inodes in step. -/
namespace DimOS.Filesystem.RamDisk
open Lib.ByteMemory
open Cpp
open Cpp.Bitset (bitAt)
open Lib.Transition (run Guarded)

def Live (d : Disk) (i : Nat) : Prop := i < d.super.iNodeCnt ∧ (d.nodes i).type ≠ .INVALID

/- Live inode `i` references block `b` from slot `k`. -/
def Refers (d : Disk) (i k b : Nat) : Prop :=
  Live d i ∧ k < (d.nodes i).blocksInUse ∧ (d.nodes i).dataBlocks k = some b

def Super.Valid (s : Super) : Prop := s.blockCnt ≤ 8 * s.dataBitsetSize

/- What the operations keep. The last field says how far an inode's bytes reach: a directory
that was created on a full disk has its header's size and no block. -/
structure Owned (d : Disk) : Prop where
  valid : d.super.Valid
  cap : ∀ i, (d.nodes i).blocksInUse ≤ MaxDataBlocks
  slots : ∀ i k, Live d i → k < (d.nodes i).blocksInUse →
    ∃ b, b < d.super.blockCnt ∧ (d.nodes i).dataBlocks k = some b
  unique : ∀ i k i' k' b, Refers d i k b → Refers d i' k' b → i = i' ∧ k = k'
  bits : ∀ b, b < d.super.blockCnt → (bitAt d.data b = true ↔ ∃ i k, Refers d i k b)
  sized : ∀ i, Live d i → (d.nodes i).size ≤ BlockSize * (d.nodes i).blocksInUse ∨
    ((d.nodes i).size ≤ sizeofDirHeader ∧ (d.nodes i).blocksInUse = 0)

/- What it says of slots and bits: each block is referenced by at most one slot of a live inode, and
exactly the referenced blocks have their bit set. -/
structure Consistent (d : Disk) : Prop where
  valid : d.super.Valid
  cap : ∀ i, Live d i → (d.nodes i).blocksInUse ≤ MaxDataBlocks
  slots : ∀ i k, Live d i → k < (d.nodes i).blocksInUse →
    ∃ b, b < d.super.blockCnt ∧ (d.nodes i).dataBlocks k = some b
  unique : ∀ i k i' k' b, Refers d i k b → Refers d i' k' b → i = i' ∧ k = k'
  bits : ∀ b, b < d.super.blockCnt → (bitAt d.data b = true ↔ ∃ i k, Refers d i k b)

/- The part of it that the file of one inode rests on, for the inodes in `scope` alone: their slots
hold blocks of the disk, no two of them the same, and the bits of these blocks are set. -/
structure Linked (scope : Nat → Prop) (d : Disk) : Prop where
  valid : d.super.Valid
  cap : ∀ i, scope i → Live d i → (d.nodes i).blocksInUse ≤ MaxDataBlocks
  slots : ∀ i k, scope i → Live d i → k < (d.nodes i).blocksInUse →
    ∃ b, b < d.super.blockCnt ∧ (d.nodes i).dataBlocks k = some b
  unique : ∀ i k i' k' b, scope i → scope i' → Refers d i k b → Refers d i' k' b → i = i' ∧ k = k'
  marked : ∀ i k b, scope i → Refers d i k b → bitAt d.data b = true

theorem Consistent.linked {d : Disk} (h : Consistent d) (scope : Nat → Prop) : Linked scope d := by
  refine ⟨h.valid, fun i _ => h.cap i, fun i k _ => h.slots i k, fun i k i' k' b _ _ => h.unique i k i' k' b, ?_⟩
  intro i k b _ ref
  obtain ⟨b', inside, slot⟩ := h.slots i k ref.1 ref.2.1
  cases Option.some.inj (ref.2.2.symm.trans slot)
  exact (h.bits b inside).mpr ⟨i, k, ref⟩

theorem Owned.consistent {d : Disk} (h : Owned d) : Consistent d :=
  ⟨h.valid, fun i _ => h.cap i, h.slots, h.unique, h.bits⟩

theorem freeBlockSpec {d : Disk} {b : Nat} (free : d.getFreeDataBlock = some b) :
    b < d.super.blockCnt ∧ bitAt d.data b = false := by
  obtain ⟨clear, inside, -⟩ := List.find?_range_eq_some.mp free
  refine ⟨by simpa using inside, ?_⟩
  rw [Bitset.getEq] at clear
  simpa using clear

theorem freeINodeSpec {d : Disk} {i : Nat} (free : d.getFreeINode = some i) :
    i < d.super.iNodeCnt ∧ (d.nodes i).type = .INVALID := by
  obtain ⟨invalid, inside, -⟩ := List.find?_range_eq_some.mp free
  exact ⟨by simpa using inside, by simpa using invalid⟩

theorem Owned.withData {d : Disk} (h : Owned d) {m : Memory}
    (same : ∀ b, b < d.super.blockCnt → bitAt m b = bitAt d.data b) : Owned { d with data := m } where
  valid := h.valid
  cap := h.cap
  slots := h.slots
  unique := h.unique
  bits b inside := by
    rw [same b inside]
    exact h.bits b inside
  sized := h.sized

theorem Owned.noRef {d : Disk} (h : Owned d) {b : Nat} (inside : b < d.super.blockCnt)
    (clear : bitAt d.data b = false) (i k : Nat) : ¬ Refers d i k b := by
  intro ref
  have set := (h.bits b inside).mpr ⟨i, k, ref⟩
  rw [clear] at set
  contradiction

theorem attachRefers {d : Disk} {inode : Nat} (newBlock : Nat) (live : Live d inode) (i k b : Nat) :
    Refers (d.attach inode newBlock) i k b ↔ Refers d i k b ∨
      (i = inode ∧ k = (d.nodes inode).blocksInUse ∧ b = newBlock) := by
  by_cases same : i = inode
  · subst same
    by_cases last : k = (d.nodes i).blocksInUse
    · subst last
      simp [Refers, Live, Disk.attach, Disk.setNode, live.1, live.2, eq_comm]
    · have below : k < (d.nodes i).blocksInUse + 1 ↔ k < (d.nodes i).blocksInUse := by omega
      simp [Refers, Live, Disk.attach, Disk.setNode, live.1, live.2, below, last]
  · simp [Refers, Live, Disk.attach, Disk.setNode, same]

theorem attachNode (d : Disk) (inode newBlock i : Nat) :
    (d.attach inode newBlock).nodes i = d.nodes i ∨
      (i = inode ∧ ((d.attach inode newBlock).nodes i).type = (d.nodes i).type ∧
        ((d.attach inode newBlock).nodes i).size = (d.nodes i).size ∧
        ((d.attach inode newBlock).nodes i).blocksInUse = (d.nodes i).blocksInUse + 1) := by
  by_cases same : i = inode
  · subst same
    exact .inr ⟨rfl, by simp [Disk.attach, Disk.setNode]⟩
  · exact .inl (by simp [Disk.attach, Disk.setNode, same])

theorem attachBit (d : Disk) (inode newBlock b : Nat) :
    bitAt (d.attach inode newBlock).data b = if b = newBlock then true else bitAt d.data b :=
  Bitset.setBit d.data newBlock true b

theorem attachLive {d : Disk} {inode newBlock i : Nat} (alive : Live (d.attach inode newBlock) i) : Live d i := by
  rcases attachNode d inode newBlock i with same | ⟨-, type, -⟩
  · exact ⟨alive.1, by rw [← same]; exact alive.2⟩
  · exact ⟨alive.1, by rw [← type]; exact alive.2⟩

theorem attachLinked {scope : Nat → Prop} {d : Disk} {inode newBlock : Nat} (h : Linked scope d)
    (live : Live d inode) (room : (d.nodes inode).blocksInUse < MaxDataBlocks)
    (inside : newBlock < d.super.blockCnt) (clear : bitAt d.data newBlock = false) :
    Linked scope (d.attach inode newBlock) := by
  have refers := attachRefers newBlock live
  have none : ∀ i k, scope i → ¬ Refers d i k newBlock := by
    intro i k mine ref
    rw [h.marked i k newBlock mine ref] at clear
    contradiction
  refine ⟨h.valid, ?_, ?_, ?_, ?_⟩
  · intro i mine alive
    rcases attachNode d inode newBlock i with same | ⟨rfl, -, -, used⟩
    · rw [same]
      exact h.cap i mine (attachLive alive)
    · rw [used]
      exact room
  · intro i k mine alive below
    rcases attachNode d inode newBlock i with same | ⟨rfl, -, -, used⟩
    · rw [same] at below ⊢
      exact h.slots i k mine (attachLive alive) below
    · by_cases last : k = (d.nodes i).blocksInUse
      · exact ⟨newBlock, inside, ((refers i k newBlock).mpr (.inr ⟨rfl, last, rfl⟩)).2.2⟩
      · rw [used] at below
        obtain ⟨b, small, slot⟩ := h.slots i k mine live (by omega)
        exact ⟨b, small, ((refers i k b).mpr (.inl ⟨live, by omega, slot⟩)).2.2⟩
  · intro i k i' k' b mine mine' one two
    rcases (refers i k b).mp one with old | ⟨rfl, rfl, rfl⟩
    · rcases (refers i' k' b).mp two with old' | ⟨rfl, rfl, rfl⟩
      · exact h.unique i k i' k' b mine mine' old old'
      · exact absurd old (none i k mine)
    · rcases (refers i' k' b).mp two with old' | ⟨rfl, rfl, -⟩
      · exact absurd old' (none i' k' mine')
      · exact ⟨rfl, rfl⟩
  · intro i k b mine ref
    rw [attachBit]
    split
    · rfl
    · next other =>
      rcases (refers i k b).mp ref with old | ⟨-, -, same⟩
      · exact h.marked i k b mine old
      · exact absurd same other

theorem attachOwned {d : Disk} {inode newBlock : Nat} (h : Owned d) (live : Live d inode)
    (room : (d.nodes inode).blocksInUse < MaxDataBlocks) (inside : newBlock < d.super.blockCnt)
    (clear : bitAt d.data newBlock = false) : Owned (d.attach inode newBlock) := by
  have refers := attachRefers newBlock live
  have linked := attachLinked (h.consistent.linked (fun _ => True)) live room inside clear
  refine ⟨h.valid, ?_, fun i k => linked.slots i k trivial,
    fun i k i' k' b => linked.unique i k i' k' b trivial trivial, ?_, ?_⟩
  · intro i
    rcases attachNode d inode newBlock i with same | ⟨rfl, -, -, used⟩
    · rw [same]
      exact h.cap i
    · rw [used]
      exact room
  · intro b small
    refine ⟨fun set => ?_, fun ⟨i, k, ref⟩ => linked.marked i k b trivial ref⟩
    rw [attachBit] at set
    split at set
    · next same => exact ⟨inode, _, (refers inode _ b).mpr (.inr ⟨rfl, rfl, same⟩)⟩
    · obtain ⟨i, k, ref⟩ := (h.bits b small).mp set
      exact ⟨i, k, (refers i k b).mpr (.inl ref)⟩
  · intro i alive
    rcases attachNode d inode newBlock i with same | ⟨rfl, -, size, used⟩
    · rw [same]
      exact h.sized i (attachLive alive)
    · rw [size, used]
      have reach := h.sized i live
      unfold BlockSize sizeofDirHeader at *
      omega

theorem fillSpec (buffer : Buffer) (size left : Nat) (m : Memory) (addr written : Nat) :
    (∀ a, a < addr → (Disk.fill buffer size left m addr written).1 a = m a) ∧
      written ≤ (Disk.fill buffer size left m addr written).2 ∧
      (Disk.fill buffer size left m addr written).2 ≤ written + left ∧
      ((Disk.fill buffer size left m addr written).2 < size →
        (Disk.fill buffer size left m addr written).2 = written + left) := by
  induction left generalizing m addr written with
  | zero => simp [Disk.fill]
  | succ left ih =>
    simp only [Disk.fill]
    split
    · obtain ⟨frame, low, high, full⟩ :=
        ih (Function.update m addr (buffer written)) (addr + 1) (written + 1)
      refine ⟨?_, by omega, by omega, fun more => by have := full more; omega⟩
      intro a below
      rw [frame a (by omega), Function.update_of_ne (by omega)]
    · next done =>
      exact ⟨fun _ _ => rfl, Nat.le_refl _, by omega, fun more => absurd more done⟩

theorem blockBits {d : Disk} (valid : d.super.Valid) {m : Memory} {b offset : Nat}
    (frame : ∀ a, a < d.blockAddr b + offset → m a = d.data a) (j : Nat)
    (inside : j < d.super.blockCnt) : bitAt m j = bitAt d.data j := by
  unfold bitAt
  rw [frame]
  unfold Super.Valid at valid
  unfold Disk.blockAddr
  omega

structure SameShape (d d' : Disk) : Prop where
  super : d'.super = d.super
  types : ∀ i, (d'.nodes i).type = (d.nodes i).type

theorem SameShape.live {d d' : Disk} (h : SameShape d d') {i : Nat} : Live d' i ↔ Live d i := by
  unfold Live
  rw [h.super, h.types]

theorem SameShape.trans {d d' d'' : Disk} (h : SameShape d d') (h' : SameShape d' d'') :
    SameShape d d'' :=
  ⟨h'.super.trans h.super, fun i => (h'.types i).trans (h.types i)⟩

theorem claimSpec {d out : Disk} {inode i : Nat} (h : Owned d) (live : Live d inode)
    (reach : i ≤ (d.nodes inode).blocksInUse) (room : i < MaxDataBlocks)
    (ok : d.claimBlock inode i = some out) :
    Owned out ∧ SameShape d out ∧ (out.nodes inode).size = (d.nodes inode).size ∧
      i < (out.nodes inode).blocksInUse := by
  unfold Disk.claimBlock at ok
  split at ok
  · next same =>
    obtain ⟨b, free, made⟩ := Option.map_eq_some_iff.mp ok
    subst made
    obtain ⟨inside, clear⟩ := freeBlockSpec free
    refine ⟨attachOwned h live (by omega) inside clear, ⟨rfl, ?_⟩, ?_, ?_⟩
    · intro j
      rcases attachNode d inode b j with keep | ⟨-, type, -⟩
      · rw [keep]
      · exact type
    · rcases attachNode d inode b inode with keep | ⟨-, -, size, -⟩
      · rw [keep]
      · exact size
    · simp [Disk.attach, Disk.setNode, same]
  · cases Option.some.inj ok
    exact ⟨h, ⟨rfl, fun _ => rfl⟩, rfl, by omega⟩

theorem writeLoopSpec (size offset : Nat) (buffer : Buffer) {inode left : Nat} {d : Disk}
    {i prevDone written : Nat} (h : Owned d) (live : Live d inode)
    (blocks : i + left = MaxDataBlocks) (reach : i ≤ (d.nodes inode).blocksInUse)
    (within : prevDone < BlockSize)
    (place : written < size → offset + written = BlockSize * i + prevDone)
    (covered : written = 0 ∨ offset + written ≤ BlockSize * (d.nodes inode).blocksInUse) :
    ∃ out total, Disk.writeLoop inode size buffer left d i prevDone written = some (out, total) ∧
      Owned out ∧ SameShape d out ∧ (out.nodes inode).size = (d.nodes inode).size ∧
      (total = 0 ∨ offset + total ≤ BlockSize * (out.nodes inode).blocksInUse) := by
  induction left generalizing d i prevDone written with
  | zero => exact ⟨d, written, rfl, h, ⟨rfl, fun _ => rfl⟩, rfl, covered⟩
  | succ left ih =>
    simp only [Disk.writeLoop]
    split
    · next more =>
      cases claimed : d.claimBlock inode i with
      | none => exact ⟨d, written, rfl, h, ⟨rfl, fun _ => rfl⟩, rfl, covered⟩
      | some mid =>
        obtain ⟨owned, shape, size', used⟩ := claimSpec h live reach (by omega) claimed
        have live' := shape.live.mpr live
        obtain ⟨b, -, slot⟩ := owned.slots inode i live' used
        obtain ⟨frame, low, high, full⟩ := fillSpec buffer size (BlockSize - prevDone) mid.data
          (mid.blockAddr b + prevDone) written
        have at' := place more
        simp only [slot]
        generalize Disk.fill buffer size (BlockSize - prevDone) mid.data
          (mid.blockAddr b + prevDone) written = filled at frame low high full
        have next := ih (owned.withData (blockBits owned.valid frame)) live' (by omega) used
          (show 0 < BlockSize by unfold BlockSize; omega)
          (show filled.2 < size → offset + filled.2 = BlockSize * (i + 1) + 0 from
            fun again => by have := full again; unfold BlockSize at *; omega)
          (.inr (by simp only; unfold BlockSize at *; omega))
        obtain ⟨out, total, done, ownedOut, shapeOut, sizeOut, coveredOut⟩ := next
        exact ⟨out, total, done, ownedOut, shape.trans ⟨shapeOut.super, shapeOut.types⟩,
          sizeOut.trans size', coveredOut⟩
    · exact ⟨d, written, rfl, h, ⟨rfl, fun _ => rfl⟩, rfl, covered⟩

theorem Owned.withNode {d : Disk} (h : Owned d) {inode : Nat} {node : Node}
    (cap : node.blocksInUse ≤ MaxDataBlocks)
    (refers : ∀ i k b, Refers (d.setNode inode node) i k b ↔ Refers d i k b)
    (slots : ∀ k, k < node.blocksInUse → ∃ b, b < d.super.blockCnt ∧ node.dataBlocks k = some b)
    (sized : node.size ≤ BlockSize * node.blocksInUse ∨
      (node.size ≤ sizeofDirHeader ∧ node.blocksInUse = 0)) : Owned (d.setNode inode node) := by
  have here : (d.setNode inode node).nodes inode = node := by simp [Disk.setNode]
  have there : ∀ i, i ≠ inode → (d.setNode inode node).nodes i = d.nodes i := by
    intro i other
    simp [Disk.setNode, other]
  have lives : ∀ i, i ≠ inode → Live (d.setNode inode node) i → Live d i := fun i other alive =>
    ⟨alive.1, by rw [← there i other]; exact alive.2⟩
  refine ⟨h.valid, ?_, ?_, ?_, ?_, ?_⟩
  · intro i
    by_cases same : i = inode
    · rw [same, here]
      exact cap
    · rw [there i same]
      exact h.cap i
  · intro i k alive below
    by_cases same : i = inode
    · rw [same, here] at below ⊢
      exact slots k below
    · rw [there i same] at below ⊢
      exact h.slots i k (lives i same alive) below
  · intro i k i' k' b one two
    exact h.unique i k i' k' b ((refers i k b).mp one) ((refers i' k' b).mp two)
  · intro b inside
    simp only [refers]
    exact h.bits b inside
  · intro i alive
    by_cases same : i = inode
    · rw [same, here]
      exact sized
    · rw [there i same]
      exact h.sized i (lives i same alive)

theorem Owned.withSize {d : Disk} (h : Owned d) {inode : Nat} (live : Live d inode) (size : Nat)
    (reach : size ≤ BlockSize * (d.nodes inode).blocksInUse ∨
      (size ≤ sizeofDirHeader ∧ (d.nodes inode).blocksInUse = 0)) :
    Owned (d.setNode inode { d.nodes inode with size := size }) ∧
      SameShape d (d.setNode inode { d.nodes inode with size := size }) := by
  refine ⟨h.withNode (h.cap inode) ?_ (fun k below => h.slots inode k live below) reach, rfl, ?_⟩
  · intro i k b
    by_cases same : i = inode
    · subst same
      simp [Refers, Live, Disk.setNode]
    · simp [Refers, Live, Disk.setNode, same]
  · intro i
    by_cases same : i = inode
    · subst same
      simp [Disk.setNode]
    · simp [Disk.setNode, same]

theorem writeSpec (size : Nat) (buffer : Buffer) {d : Disk} {resource : Resource} {offset : Nat}
    (h : Owned d) (live : Live d resource.inode) (inside : offset ≤ (d.nodes resource.inode).size) :
    ∃ out, d.write resource offset size buffer = some out ∧ Owned out.disk ∧
      SameShape d out.disk ∧ out.resource.inode = resource.inode := by
  unfold Disk.write
  split
  · exact ⟨⟨d, resource, 0⟩, rfl, h, ⟨rfl, fun _ => rfl⟩, rfl⟩
  · next small =>
    have sized := h.sized resource.inode live
    have start : offset / BlockSize ≤ (d.nodes resource.inode).blocksInUse := by
      unfold BlockSize sizeofDirHeader at *
      omega
    have cap := h.cap resource.inode
    obtain ⟨mid, total, done, owned, shape, size', covered⟩ :=
      writeLoopSpec (min size (MaxDataBlocks * BlockSize - offset)) offset buffer h live
        (show offset / BlockSize + (MaxDataBlocks - offset / BlockSize) = MaxDataBlocks by omega)
        start (Nat.mod_lt _ (by unfold BlockSize; omega))
        (show 0 < min size (MaxDataBlocks * BlockSize - offset) →
            offset + 0 = BlockSize * (offset / BlockSize) + offset % BlockSize from
          fun _ => (Nat.div_add_mod offset BlockSize).symm) (.inl rfl)
    have reach := owned.sized resource.inode (shape.live.mpr live)
    obtain ⟨final, shape'⟩ := owned.withSize (shape.live.mpr live)
      (max (mid.nodes resource.inode).size (offset + total)) (by
        rw [size'] at reach ⊢
        unfold BlockSize sizeofDirHeader at *
        omega)
    simp only [done]
    exact ⟨_, rfl, final, shape.trans shape', rfl⟩

theorem readLoopSome {d : Disk} {inode size : Nat} (h : Owned d) (live : Live d inode)
    {left i prevDone : Nat} {buffer : Buffer} {bytesRead : Nat}
    (blocks : left = (d.nodes inode).blocksInUse - i) :
    ∃ out, d.readLoop inode size left i prevDone buffer bytesRead = some out := by
  induction left generalizing i prevDone buffer bytesRead with
  | zero => exact ⟨_, rfl⟩
  | succ left ih =>
    simp only [Disk.readLoop]
    split
    · have below : i < (d.nodes inode).blocksInUse := by omega
      have cap := h.cap inode
      rw [if_neg (by omega)]
      obtain ⟨b, -, slot⟩ := h.slots inode i live below
      simp only [slot]
      exact ih (by omega)
    · exact ⟨_, rfl⟩

theorem readSome (offset size : Nat) (buffer : Buffer) {d : Disk} {resource : Resource}
    (h : Owned d) (live : Live d resource.inode) :
    ∃ out, d.read resource offset size buffer = some out := by
  simp only [Disk.read]
  split
  · exact ⟨_, rfl⟩
  · exact readLoopSome h live rfl

theorem writeDirSpec (entries : List DirEntry) {d : Disk} {vfsNode : VfsNode}
    (h : Owned d) (live : Live d vfsNode.resource.inode) :
    ∃ out, d.writeDir vfsNode entries = some out ∧ Owned out ∧ SameShape d out := by
  unfold Disk.writeDir
  obtain ⟨mid, wrote, owned, shape, inode⟩ := writeSpec
    (entries.length * sizeofDirEntry % 2 ^ 32) (entryBytes entries) h live (Nat.le_refl _)
  have live' : Live mid.disk mid.resource.inode := by
    rw [inode]
    exact shape.live.mpr live
  obtain ⟨⟨header, count⟩, read⟩ := readSome 0 sizeofDirHeader (fun _ => 0#8)
    owned live'
  obtain ⟨out, wrote', owned', shape', -⟩ := writeSpec sizeofDirHeader
    (storeInt header 0 (loadInt header 0 + entries.length)) owned live' (Nat.zero_le _)
  simp only [wrote, read, wrote', Option.map_some]
  exact ⟨out.disk, rfl, owned', shape.trans shape'⟩

theorem freshOwned {d : Disk} {inode : Nat} (h : Owned d) (invalid : (d.nodes inode).type = .INVALID)
    (type : NodeType) :
    Owned (d.setNode inode
      { d.nodes inode with blocksInUse := 0, inode := inode, size := 0, type := type }) := by
  refine h.withNode (Nat.zero_le _) ?_ (fun k below => absurd below (Nat.not_lt_zero k))
    (.inl (Nat.zero_le _))
  intro i k b
  by_cases same : i = inode
  · subst same
    simp [Refers, Live, Disk.setNode, invalid]
  · simp [Refers, Live, Disk.setNode, same]

theorem createSpec (deviceID : Int) {d : Disk} {type : NodeType} {inode : Nat} (h : Owned d)
    (free : d.getFreeINode = some inode) (valid : type ≠ .INVALID) :
    ∃ out vfsNode, d.create deviceID type = some (out, vfsNode) ∧ Owned out ∧ Live out inode := by
  obtain ⟨inside, invalid⟩ := freeINodeSpec free
  have fresh := freshOwned h invalid type
  unfold Disk.create
  simp only [free]
  generalize madeEq : d.setNode inode
    { d.nodes inode with blocksInUse := 0, inode := inode, size := 0, type := type } = made at fresh
  have here : made.nodes inode =
      { d.nodes inode with blocksInUse := 0, inode := inode, size := 0, type := type } := by
    rw [← madeEq]
    simp [Disk.setNode]
  have number : (made.populateVFSNode deviceID inode).resource.inode = inode := by
    simp [Disk.populateVFSNode, here]
  have live : Live made inode := by
    refine ⟨?_, by rw [here]; exact valid⟩
    rw [← madeEq]
    exact inside
  obtain ⟨out, wrote, owned, shape, -⟩ := writeSpec BlockSize (fun _ => 0#8) fresh
    (by rw [number]; exact live) (Nat.zero_le _)
  obtain ⟨final, shape'⟩ := owned.withSize (shape.live.mpr live)
    (if type = .DIRECTORY then sizeofDirHeader else 0) (by
      unfold BlockSize sizeofDirHeader
      split <;> omega)
  simp only [wrote]
  exact ⟨_, _, rfl, final, shape'.live.mpr (shape.live.mpr live)⟩

theorem freeBlocksSpec {dataBlocks : Nat → Option Nat} {count : Nat} (d : Disk)
    (cap : count ≤ MaxDataBlocks) (slots : ∀ k, k < count → ∃ b, dataBlocks k = some b) :
    ∃ out, Disk.freeBlocks dataBlocks count d = some out ∧ out.super = d.super ∧
      out.nodes = d.nodes ∧
      ∀ j, bitAt out.data j = true ↔ bitAt d.data j = true ∧ ∀ k, k < count → dataBlocks k ≠ some j := by
  induction count with
  | zero => exact ⟨d, rfl, rfl, rfl, fun j => by simp⟩
  | succ count ih =>
    obtain ⟨mid, freed, super, nodes, bits⟩ :=
      ih (by omega) (fun k below => slots k (by omega))
    obtain ⟨b, slot⟩ := slots count (Nat.lt_succ_self count)
    refine ⟨mid.freeDataBlock b, ?_, super, nodes, ?_⟩
    · simp only [Disk.freeBlocks, freed, if_neg (Nat.not_le.mpr cap), slot, Option.map_some]
    · intro j
      simp only [Disk.freeDataBlock, Bitset.setBit]
      by_cases same : j = b
      · subst same
        simp only [if_true, Bool.false_eq_true, false_iff, not_and, not_forall, not_not]
        exact fun _ => ⟨count, Nat.lt_succ_self count, slot⟩
      · rw [if_neg same, bits j]
        refine and_congr_right (fun _ => ⟨?_, fun all k below => all k (by omega)⟩)
        intro others k below
        rcases Nat.lt_succ_iff_lt_or_eq.mp below with low | rfl
        · exact others k low
        · rw [slot]
          intro eq
          exact same (Option.some.inj eq).symm

theorem removeSpec {d : Disk} {vfsNode : VfsNode} (h : Owned d)
    (live : Live d vfsNode.resource.inode) :
    ∃ out, d.remove vfsNode = some out ∧ Owned out := by
  generalize inodeEq : vfsNode.resource.inode = inode at live
  obtain ⟨mid, freed, super, nodes, bits⟩ := freeBlocksSpec d (h.cap inode)
    (fun k below => (h.slots inode k live below).imp (fun b both => both.2))
  refine ⟨mid.freeINode inode, ?_, ?_⟩
  · simp only [Disk.remove, inodeEq, freed, Option.map_some]
  have here : (mid.freeINode inode).nodes inode = { d.nodes inode with type := .INVALID } := by
    simp [Disk.freeINode, Disk.setNode, nodes]
  have there : ∀ i, i ≠ inode → (mid.freeINode inode).nodes i = d.nodes i := by
    intro i other
    simp [Disk.freeINode, Disk.setNode, nodes, other]
  have super' : (mid.freeINode inode).super = d.super := super
  have dead : ¬ Live (mid.freeINode inode) inode := by
    intro alive
    apply alive.2
    rw [here]
  have lives : ∀ i, Live (mid.freeINode inode) i → i ≠ inode ∧ Live d i := by
    intro i alive
    have other : i ≠ inode := fun same => dead (same ▸ alive)
    refine ⟨other, ?_, ?_⟩
    · rw [← super']
      exact alive.1
    · rw [← there i other]
      exact alive.2
  have refers : ∀ i k b, Refers (mid.freeINode inode) i k b ↔ i ≠ inode ∧ Refers d i k b := by
    intro i k b
    constructor
    · rintro ⟨alive, below, slot⟩
      obtain ⟨other, was⟩ := lives i alive
      rw [there i other] at below slot
      exact ⟨other, was, below, slot⟩
    · rintro ⟨other, was, below, slot⟩
      unfold Refers Live
      rw [there i other, super']
      exact ⟨was, below, slot⟩
  refine ⟨?_, ?_, ?_, ?_, ?_, ?_⟩
  · rw [super']
    exact h.valid
  · intro i
    by_cases same : i = inode
    · rw [same, here]
      exact h.cap inode
    · rw [there i same]
      exact h.cap i
  · intro i k alive below
    obtain ⟨other, was⟩ := lives i alive
    rw [there i other] at below ⊢
    rw [super']
    exact h.slots i k was below
  · intro i k i' k' b one two
    exact h.unique i k i' k' b ((refers i k b).mp one).2 ((refers i' k' b).mp two).2
  · intro b inside
    rw [super'] at inside
    have bit : bitAt (mid.freeINode inode).data b = bitAt mid.data b := rfl
    rw [bit, bits b, h.bits b inside]
    simp only [refers]
    -- the freed blocks are exactly those that only the removed inode referenced
    constructor
    · rintro ⟨⟨i, k, ref⟩, kept⟩
      refine ⟨i, k, ?_, ref⟩
      rintro rfl
      exact kept k ref.2.1 ref.2.2
    · rintro ⟨i, k, other, ref⟩
      refine ⟨⟨i, k, ref⟩, ?_⟩
      intro k' below slot
      exact other (h.unique i k inode k' b ref ⟨live, below, slot⟩).1
  · intro i alive
    obtain ⟨other, was⟩ := lives i alive
    rw [there i other]
    exact h.sized i was

inductive Op where
  | create (deviceID : Int) (type : NodeType)
  | remove (vfsNode : VfsNode)
  | write (resource : Resource) (offset size : Nat) (buffer : Buffer)
  | writeDir (vfsNode : VfsNode) (entries : List DirEntry)
  | removeDirEntry (vfsNode : VfsNode) (entry : DirEntry)

def step (d : Disk) : Op → Option Disk
  | .create deviceID type => (d.create deviceID type).map Prod.fst
  | .remove vfsNode => d.remove vfsNode
  | .write resource offset size buffer => (d.write resource offset size buffer).map Disk.Written.disk
  | .writeDir vfsNode entries => d.writeDir vfsNode entries
  | .removeDirEntry vfsNode entry => d.removeDirEntry vfsNode entry

/- What callers promise: every caller of create passes FILE or DIRECTORY, and removeDirEntry
is not part of these runs. -/
def Allowed (d : Disk) : Op → Prop
  | .create _ type => type ≠ .INVALID ∧ d.getFreeINode ≠ none
  | .remove vfsNode => Live d vfsNode.resource.inode
  | .write resource offset _ _ =>
    Live d resource.inode ∧ offset ≤ (d.nodes resource.inode).size
  | .writeDir vfsNode _ => Live d vfsNode.resource.inode
  | .removeDirEntry _ _ => False

theorem stepOwned {d : Disk} {op : Op} (h : Owned d) (allowed : Allowed d op) :
    ∃ out, step d op = some out ∧ Owned out := by
  cases op with
  | create deviceID type =>
    obtain ⟨inode, free⟩ := Option.ne_none_iff_exists'.mp allowed.2
    obtain ⟨out, vfsNode, made, owned, -⟩ := createSpec deviceID h free allowed.1
    exact ⟨out, by simp only [step, made, Option.map_some], owned⟩
  | remove vfsNode => exact removeSpec h allowed
  | write resource offset size buffer =>
    obtain ⟨out, made, owned, -⟩ := writeSpec size buffer h allowed.1 allowed.2
    exact ⟨out.disk, by simp only [step, made, Option.map_some], owned⟩
  | writeDir vfsNode entries =>
    obtain ⟨out, made, owned, -⟩ := writeDirSpec entries h allowed
    exact ⟨out, made, owned⟩
  | removeDirEntry vfsNode entry => exact absurd allowed not_false

theorem mountZeroed (super : Super) : (zeroed super).mount = zeroed super := by
  have same : (zeroed super).mount.data = (zeroed super).data := by
    apply Bitset.memoryExt
    intro j
    simp only [Disk.mount, Bitset.bitsetBuiltBit]
    split
    · simp [bitAt, zeroed]
    · rfl
  unfold Disk.mount at same ⊢
  simp only at same ⊢
  rw [same]

theorem zeroedOwned {super : Super} (valid : super.Valid) : Owned (zeroed super) := by
  have dead : ∀ i, ¬ Live (zeroed super) i := fun i alive => alive.2 rfl
  refine ⟨valid, fun i => Nat.zero_le _, fun i k alive => absurd alive (dead i), ?_, ?_,
    fun i alive => absurd alive (dead i)⟩
  · intro i k i' k' b ref
    exact absurd ref.1 (dead i)
  · intro b inside
    constructor
    · intro set
      simp [bitAt, zeroed] at set
    · rintro ⟨i, k, ref⟩
      exact absurd ref.1 (dead i)

structure Ownership (d : Disk) : Prop where
  set : ∀ b, b < d.super.blockCnt →
    (Bitset.get d.data b = true ↔ ∃! slot : Nat × Nat, Refers d slot.1 slot.2 b)
  clear : ∀ b, b < d.super.blockCnt → (Bitset.get d.data b = false ↔ ∀ i k, ¬ Refers d i k b)
  cap : ∀ i, (d.nodes i).blocksInUse ≤ MaxDataBlocks
  inside : ∀ i k b, Refers d i k b → b < d.super.blockCnt
  free : ∀ b, d.getFreeDataBlock = some b → ∀ i k, ¬ Refers d i k b

theorem ownedOwnership {d : Disk} (h : Owned d) : Ownership d := by
  refine ⟨?_, ?_, h.cap, ?_, ?_⟩
  · intro b inside
    rw [Bitset.getEq, h.bits b inside]
    constructor
    · rintro ⟨i, k, ref⟩
      refine ⟨(i, k), ref, ?_⟩
      rintro ⟨i', k'⟩ ref'
      obtain ⟨rfl, rfl⟩ := h.unique i' k' i k b ref' ref
      rfl
    · rintro ⟨slot, ref, -⟩
      exact ⟨slot.1, slot.2, ref⟩
  · intro b inside
    rw [Bitset.getEq, ← Bool.not_eq_true, h.bits b inside]
    simp only [not_exists]
  · intro i k b ref
    obtain ⟨b', small, slot⟩ := h.slots i k ref.1 ref.2.1
    rw [ref.2.2] at slot
    cases Option.some.inj slot
    exact small
  · intro b free
    obtain ⟨inside, clear⟩ := freeBlockSpec free
    exact h.noRef inside clear

/-- On one RamDisk over a zeroed image, after any allowed sequence of operations, a block's bit
is set exactly when one slot of one live inode refers to it. -/
theorem blockOwnership (super : Super) (valid : super.Valid) (ops : List Op)
    (allowed : Guarded step Allowed (zeroed super).mount ops) :
    ∃ d, run step (zeroed super).mount ops = some d ∧ Ownership d := by
  rw [mountZeroed] at allowed ⊢
  obtain ⟨d, reached, owned⟩ := Lib.Transition.invariantRunTotal Owned
    (fun _ _ => stepOwned) (zeroedOwned valid) allowed
  exact ⟨d, reached, ownedOwnership owned⟩

/- A file is created on a disk of one inode and one block, and written past its one block. -/
theorem blockOwnershipFile :
    Guarded step Allowed (zeroed ⟨1, 1, 1⟩).mount
        [.create 0 .FILE, .write ⟨0, 0, 0⟩ 0 600 (fun _ => 1#8)] ∧
      ∃ d, run step (zeroed ⟨1, 1, 1⟩).mount
        [.create 0 .FILE, .write ⟨0, 0, 0⟩ 0 600 (fun _ => 1#8)] = some d ∧ Ownership d := by
  have valid : (⟨1, 1, 1⟩ : Super).Valid := by simp [Super.Valid]
  have free : (zeroed ⟨1, 1, 1⟩).getFreeINode = some 0 := rfl
  have allowed : Guarded step Allowed (zeroed ⟨1, 1, 1⟩).mount
      [.create 0 .FILE, .write ⟨0, 0, 0⟩ 0 600 (fun _ => 1#8)] := by
    rw [mountZeroed]
    refine Lib.Transition.guardedConsIff.mpr ⟨⟨by simp, by rw [free]; simp⟩, ?_⟩
    intro mid taken
    obtain ⟨out, vfsNode, made, -, live⟩ := createSpec 0 (zeroedOwned valid) free
      (show NodeType.FILE ≠ .INVALID by simp)
    obtain rfl : out = mid := by simpa [step, made] using taken
    refine Lib.Transition.guardedConsIff.mpr ⟨⟨live, Nat.zero_le _⟩, ?_⟩
    intro last _
    exact Lib.Transition.guardedNil step Allowed last
  exact ⟨allowed, blockOwnership ⟨1, 1, 1⟩ valid _ allowed⟩

end DimOS.Filesystem.RamDisk
