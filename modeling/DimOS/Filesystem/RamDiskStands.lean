import DimOS.Filesystem.RamDiskPlaced
import DimOS.Filesystem.RamDiskReach
import DimOS.Filesystem.RamDiskFit
import DimOS.Filesystem.RamDiskDropping

/-! When a write of the RamDisk stores all its bytes, on a disk in any state: it begins in a block in use or
in the next one, there are clear blocks for the rest, and bytes that come to one place agree. A write in a later
block takes no block, and whatever it reaches lies behind the blocks in use. -/
namespace DimOS.Filesystem.RamDisk
open Lib.ByteMemory
open Cpp.Bitset (bitAt)

/- Every slot in use is filled, whoever else holds the block. -/
def Slotted (d : Disk) : Prop := ∀ i, Slots (d.nodes i)

section slotted
variable {d out : Disk} (h : Slotted d)
include h

theorem Slotted.fed {inode : Nat} (fed : Fed inode d out) : Slotted out := by
  intro i
  by_cases own : i = inode
  · exact own ▸ fed.slots
  · exact fed.others i own ▸ h i

theorem claimSlotted {inode i : Nat} (below : i < MaxDataBlocks) (ok : d.claimBlock inode i = some out) :
    Slotted out := by
  by_cases last : i = (d.nodes inode).blocksInUse
  · exact h.fed (claimFed (h inode) below (Nat.le_of_eq last) ok).1
  · simp only [Disk.claimBlock, if_neg last] at ok
    cases Option.some.inj ok
    exact h

theorem writeLoopSlotted {inode size left i prevDone written total : Nat} {buffer : Buffer}
    (room : i + left ≤ MaxDataBlocks)
    (ok : Disk.writeLoop inode size buffer left d i prevDone written = some (out, total)) : Slotted out := by
  induction left generalizing d i prevDone written with
  | zero =>
    cases Option.some.inj ok
    exact h
  | succ left ih =>
    simp only [Disk.writeLoop] at ok
    split at ok
    · split at ok
      · cases Option.some.inj ok
        exact h
      · next mid claimed =>
        have first := claimSlotted h (by omega) claimed
        split at ok
        · contradiction
        · next b slot =>
          generalize Disk.fill buffer size (BlockSize - prevDone) mid.data (mid.blockAddr b + prevDone) written =
            filled at ok
          exact @ih { mid with data := filled.1 } first (i + 1) 0 filled.2 (by omega) ok
    · cases Option.some.inj ok
      exact h

theorem Slotted.withNode {inode : Nat} {node : Node} (slots : Slots node) : Slotted (d.setNode inode node) := by
  intro i
  by_cases own : i = inode
  · subst own
    simpa only [Disk.setNode, Function.update_self] using slots
  · simpa only [Disk.setNode, Function.update_of_ne own] using h i

theorem writeSlotted {resource : Resource} {offset size : Nat} {buffer : Buffer} {wrote : Disk.Written}
    (ok : d.write resource offset size buffer = some wrote) : Slotted wrote.disk := by
  unfold Disk.write at ok
  split at ok
  · cases Option.some.inj ok
    exact h
  · simp only at ok
    split at ok
    · contradiction
    · next mid total done =>
      cases Option.some.inj ok
      have filled := writeLoopSlotted h (by unfold MaxDataBlocks BlockSize at *; omega) done
      have slots := filled resource.inode
      exact filled.withNode ⟨slots.cap, slots.slots⟩

theorem createSlotted {deviceID : Int} {type : NodeType} {made : Disk × VfsNode}
    (ok : d.create deviceID type = some made) : Slotted made.1 := by
  unfold Disk.create at ok
  split at ok
  · contradiction
  · next inode free =>
    simp only at ok
    split at ok
    · contradiction
    · next wrote done =>
      cases Option.some.inj ok
      have emptied : Slotted (d.setNode inode
          { d.nodes inode with blocksInUse := 0, inode := inode, size := 0, type := type }) :=
        h.withNode ⟨Nat.zero_le _, fun k low => absurd low (Nat.not_lt_zero k)⟩
      have filled := writeSlotted emptied done
      have slots := filled inode
      exact filled.withNode ⟨slots.cap, slots.slots⟩

theorem writeDirSlotted {vfsNode : VfsNode} {entries : List DirEntry} (ok : d.writeDir vfsNode entries = some out) :
    Slotted out := by
  simp only [Disk.writeDir] at ok
  split at ok
  · contradiction
  · next mid wrote =>
    split at ok
    · contradiction
    · obtain ⟨last, again, rfl⟩ := Option.map_eq_some_iff.mp ok
      exact writeSlotted (writeSlotted h wrote) again

theorem removeSlotted {vfsNode : VfsNode} (ok : d.remove vfsNode = some out) : Slotted out := by
  obtain ⟨mid, freed, rfl⟩ := Option.map_eq_some_iff.mp ok
  have nodes := freeBlocksNodes freed
  have same : Slotted mid := by
    intro i
    rw [nodes]
    exact h i
  have slots := same vfsNode.resource.inode
  exact same.withNode ⟨slots.cap, slots.slots⟩

theorem removeDirEntrySlotted {vfsNode : VfsNode} {entry : DirEntry} (ok : d.removeDirEntry vfsNode entry = some out) :
    Slotted out := by
  intro i
  rw [(dropInBlocksKeeps ok).2.1]
  exact h i

end slotted

theorem rootSlotted {nodeCount blockCount : Nat} {d : Disk} (made : createRoot nodeCount blockCount = some d) :
    Slotted d ∧ Slotted d.mount := by
  obtain ⟨out, created, rfl⟩ := Option.map_eq_some_iff.mp made
  have start : Slotted (zeroed (createSuper nodeCount blockCount)).mount :=
    fun i => ⟨Nat.zero_le _, fun k low => absurd low (Nat.not_lt_zero k)⟩
  have slotted := createSlotted start created
  exact ⟨slotted, slotted⟩

/- The write begins in a block in use or in the next one, and ends in what the clear blocks can hold. -/
def Suffices (node : Node) (free : List Nat) (offset length : Nat) : Prop :=
  offset / BlockSize ≤ node.blocksInUse ∧
    offset + length ≤ BlockSize * min MaxDataBlocks (node.blocksInUse + free.length)

/- Bytes of the write that come to one place, because two slots hold one block, are equal. -/
def Agreeing (node : Node) (free : List Nat) (offset length : Nat) (buffer : Buffer) : Prop :=
  ∀ j k, j < length → k < length →
    slotThrough node free (offset / BlockSize) ((offset + j) / BlockSize) =
      slotThrough node free (offset / BlockSize) ((offset + k) / BlockSize) →
    (offset + j) % BlockSize = (offset + k) % BlockSize → buffer j = buffer k

/- The bytes lie inside the file, in its blocks. -/
def Stored (d : Disk) (inode offset length : Nat) (buffer : Buffer) : Prop :=
  ∀ k, k < length → offset + k < readable d inode ∧ byteAt d inode (offset + k) = buffer k

section loop
variable {size offset : Nat} {buffer : Buffer} {inode left : Nat} {d out : Disk} {i prevDone written total : Nat}

theorem writeLoopBehind (behind : (d.nodes inode).blocksInUse < i)
    (ok : Disk.writeLoop inode size buffer left d i prevDone written = some (out, total)) : out.nodes = d.nodes := by
  induction left generalizing d i prevDone written with
  | zero =>
    cases Option.some.inj ok
    rfl
  | succ left ih =>
    simp only [Disk.writeLoop, Disk.claimBlock, if_neg (Nat.ne_of_gt behind)] at ok
    split at ok
    · split at ok
      · contradiction
      · next b slot =>
        generalize Disk.fill buffer size (BlockSize - prevDone) d.data (d.blockAddr b + prevDone) written = filled at ok
        exact @ih { d with data := filled.1 } (i + 1) 0 filled.2 (Nat.lt_succ_of_lt behind) ok
    · cases Option.some.inj ok
      rfl

theorem writeLoopMost (within : prevDone < BlockSize) (place : written < size → offset + written = BlockSize * i + prevDone)
    (ok : Disk.writeLoop inode size buffer left d i prevDone written = some (out, total)) :
    (out.nodes inode).blocksInUse ≤ max (d.nodes inode).blocksInUse ((offset + size + (BlockSize - 1)) / BlockSize) := by
  induction left generalizing d i prevDone written with
  | zero =>
    cases Option.some.inj ok
    exact Nat.le_max_left _ _
  | succ left ih =>
    simp only [Disk.writeLoop] at ok
    split at ok
    · next more =>
      have here := place more
      split at ok
      · cases Option.some.inj ok
        exact Nat.le_max_left _ _
      · next mid claimed =>
        have most : (mid.nodes inode).blocksInUse ≤
            max (d.nodes inode).blocksInUse ((offset + size + (BlockSize - 1)) / BlockSize) := by
          unfold Disk.claimBlock at claimed
          split at claimed
          · obtain ⟨b, -, rfl⟩ := Option.map_eq_some_iff.mp claimed
            have used : ((d.attach inode b).nodes inode).blocksInUse = (d.nodes inode).blocksInUse + 1 := by
              simp [Disk.attach, Disk.setNode]
            unfold BlockSize at *
            omega
          · cases Option.some.inj claimed
            exact Nat.le_max_left _ _
        split at ok
        · contradiction
        · next b slot =>
          have full := (fillSpec buffer size (BlockSize - prevDone) mid.data (mid.blockAddr b + prevDone) written).2.2.2
          generalize Disk.fill buffer size (BlockSize - prevDone) mid.data (mid.blockAddr b + prevDone) written =
            filled at ok full
          have rest := @ih { mid with data := filled.1 } (i + 1) 0 filled.2 (by unfold BlockSize; omega) (fun less => by
            have := full less
            unfold BlockSize at *
            omega) ok
          exact rest.trans (max_le most (Nat.le_max_right _ _))
    · cases Option.some.inj ok
      exact Nat.le_max_left _ _

theorem writeLoopStands (valid : d.super.Valid) (h : Slots (d.nodes inode)) (blocks : i + left = MaxDataBlocks)
    (reach : i ≤ (d.nodes inode).blocksInUse) (within : prevDone < BlockSize) (bound : written ≤ size)
    (place : written < size → offset + written = BlockSize * i + prevDone)
    (room : offset + size ≤ BlockSize * min MaxDataBlocks ((d.nodes inode).blocksInUse + (clearBlocks d).length))
    (agree : ∀ p q, offset + written ≤ p → p < offset + size → offset + written ≤ q → q < offset + size →
      slotThrough (d.nodes inode) (clearBlocks d) i (p / BlockSize) =
        slotThrough (d.nodes inode) (clearBlocks d) i (q / BlockSize) →
      p % BlockSize = q % BlockSize → buffer (p - offset) = buffer (q - offset)) :
    ∃ out, Disk.writeLoop inode size buffer left d i prevDone written = some (out, size) ∧
      ∀ pos, offset + written ≤ pos → pos < offset + size → ∃ b,
        slotThrough (d.nodes inode) (clearBlocks d) i (pos / BlockSize) = some b ∧
          out.data (d.blockAddr b + pos % BlockSize) = buffer (pos - offset) := by
  induction left generalizing d i prevDone written with
  | zero =>
    have done : written = size := by
      by_contra less
      have := place (by omega)
      unfold BlockSize at *
      omega
    exact ⟨d, by rw [done]; rfl, fun pos low high => by omega⟩
  | succ left ih =>
    simp only [Disk.writeLoop]
    by_cases more : written < size
    · rw [if_pos more]
      have here := place more
      cases claimed : d.claimBlock inode i with
      | none =>
        unfold Disk.claimBlock at claimed
        split at claimed
        · next last =>
          have none := Option.map_eq_none_iff.mp claimed
          rw [freeFirst, List.head?_eq_none_iff] at none
          rw [none] at room
          unfold BlockSize at *
          simp only [List.length_nil] at room
          omega
        · cases claimed
      | some mid =>
        obtain ⟨grew, kept, slot, later⟩ := claimReach valid claimed
        obtain ⟨fed, used⟩ := claimFed h (by omega) reach claimed
        obtain ⟨b, found⟩ := Option.ne_none_iff_exists'.mp (fed.slots.slots i used)
        dsimp only
        rw [found]
        dsimp only
        have spec := fillSpec buffer size (BlockSize - prevDone) mid.data (mid.blockAddr b + prevDone) written
        have most := @fillMost buffer size (BlockSize - prevDone) mid.data (mid.blockAddr b + prevDone) written bound
        have bytes := fillBytes buffer size (BlockSize - prevDone) mid.data (mid.blockAddr b + prevDone) written
        generalize Disk.fill buffer size (BlockSize - prevDone) mid.data (mid.blockAddr b + prevDone) written =
          filled at spec most bytes
        obtain ⟨below, low, high, full⟩ := spec
        have valid' : mid.super.Valid := grew.super ▸ valid
        have clear : clearBlocks { mid with data := filled.1 } = clearBlocks mid :=
          clearData (fun j => blockBits valid' below j)
        have next : filled.2 < size → offset + filled.2 = BlockSize * (i + 1) + 0 := by
          intro less
          have := full less
          unfold BlockSize at *
          omega
        -- what is left lies in later slots
        have further : ∀ p, offset + filled.2 ≤ p → p < offset + size → i < p / BlockSize := by
          intro p past inside
          have := next (by omega)
          unfold BlockSize at *
          omega
        have ahead : ∀ p, offset + filled.2 ≤ p → p < offset + size →
            slotThrough (mid.nodes inode) (clearBlocks { mid with data := filled.1 }) (i + 1) (p / BlockSize) =
              slotThrough (d.nodes inode) (clearBlocks d) i (p / BlockSize) := by
          intro p past inside
          rw [clear]
          exact later _ (further p past inside)
        obtain ⟨last, ran, stands⟩ := @ih { mid with data := filled.1 } (i + 1) 0 filled.2 valid' fed.slots (by omega) used
          (by unfold BlockSize; omega) most next (by
            rw [clear, grew.free, List.length_drop]
            show _ ≤ BlockSize * min MaxDataBlocks ((mid.nodes inode).blocksInUse + _)
            have grown := grew.more
            unfold BlockSize at *
            omega) (by
            intro p q lowP highP lowQ highQ slots
            rw [ahead p lowP highP, ahead q lowQ highQ] at slots
            exact agree p q (by omega) highP (by omega) highQ slots)
        refine ⟨last, ran, fun pos start stop => ?_⟩
        have addr := blockAddrCongr grew.super
        rcases Nat.lt_or_ge pos (offset + filled.2) with now | onwards
        · have block : pos / BlockSize = i := by
            unfold BlockSize at *
            omega
          have slotHere : slotThrough (d.nodes inode) (clearBlocks d) i (pos / BlockSize) = some b := by
            rw [block, ← slot, found]
          refine ⟨b, slotHere, ?_⟩
          by_cases again : ∃ q, offset + filled.2 ≤ q ∧ q < offset + size ∧
              slotThrough (d.nodes inode) (clearBlocks d) i (q / BlockSize) = some b ∧ q % BlockSize = pos % BlockSize
          · -- a later block is this one, and its byte is the same
            obtain ⟨q, past, inside, through, same⟩ := again
            obtain ⟨b', through', byte⟩ := stands q past inside
            rw [ahead q past inside, through] at through'
            cases Option.some.inj through'
            rw [agree pos q start stop (by omega) inside (slotHere.trans through.symm) same.symm, ← byte, ← addr b, same]
            rfl
          · have apart := (@writeLoopReach size offset buffer inode left { mid with data := filled.1 } last (i + 1) 0
              filled.2 size valid' (by unfold BlockSize; omega) next ran).2 (d.blockAddr b + pos % BlockSize)
                (by rw [show ({ mid with data := filled.1 } : Disk).super = d.super from grew.super]
                    unfold Disk.blockAddr
                    omega)
            rw [apart ?_]
            · have place' : d.blockAddr b + pos % BlockSize = mid.blockAddr b + prevDone + (pos - (offset + written)) := by
                rw [addr b]
                unfold BlockSize at *
                omega
              have byte := bytes (pos - (offset + written)) (by unfold BlockSize at *; omega) (by omega)
              rw [show written + (pos - (offset + written)) = pos - offset by omega] at byte
              rw [place']
              exact byte
            · intro q b' past inside through same
              have past' : offset + filled.2 ≤ q := by
                by_cases less : filled.2 < size
                · have := next less
                  omega
                · unfold BlockSize at *
                  omega
              rw [ahead q past' inside] at through
              rw [show ({ mid with data := filled.1 } : Disk).blockAddr b' = d.blockAddr b' from addr b'] at same
              have both : b' = b ∧ q % BlockSize = pos % BlockSize := by
                unfold Disk.blockAddr BlockSize at *
                omega
              exact again ⟨q, past', inside, by rw [through, both.1], both.2⟩
        · obtain ⟨b', through, byte⟩ := stands pos onwards stop
          rw [ahead pos onwards stop] at through
          refine ⟨b', through, ?_⟩
          rw [← addr b']
          exact byte
    · rw [if_neg more]
      have done : written = size := by omega
      exact ⟨d, by rw [done], fun pos low high => by omega⟩

end loop

section write
variable {d : Disk} {resource : Resource} {offset size : Nat} {buffer : Buffer}

theorem writeBehind (behind : (d.nodes resource.inode).blocksInUse < offset / BlockSize) {out : Disk.Written}
    (ok : d.write resource offset size buffer = some out) :
    (out.disk.nodes resource.inode).blocksInUse = (d.nodes resource.inode).blocksInUse := by
  unfold Disk.write at ok
  split at ok
  · cases Option.some.inj ok
    rfl
  · simp only at ok
    split at ok
    · contradiction
    · next mid total done =>
      cases Option.some.inj ok
      simp only [Disk.setNode, Function.update_self, writeLoopBehind behind done]

theorem writeMost {out : Disk.Written} (ok : d.write resource offset size buffer = some out) :
    (out.disk.nodes resource.inode).blocksInUse ≤
      max (d.nodes resource.inode).blocksInUse ((offset + size + (BlockSize - 1)) / BlockSize) := by
  unfold Disk.write at ok
  split at ok
  · cases Option.some.inj ok
    exact Nat.le_max_left _ _
  · simp only at ok
    split at ok
    · contradiction
    · next mid total done =>
      cases Option.some.inj ok
      have most := @writeLoopMost (min size (MaxDataBlocks * BlockSize - offset)) offset buffer resource.inode _ d mid
        (offset / BlockSize) (offset % BlockSize) 0 total (Nat.mod_lt _ (by unfold BlockSize; omega))
        (fun _ => (Nat.div_add_mod offset BlockSize).symm) done
      simp only [Disk.setNode, Function.update_self]
      refine most.trans (max_le_max (Nat.le_refl _) (Nat.div_le_div_right ?_))
      omega

theorem Grew.slotUsed {inode : Nat} {d out : Disk} (grew : Grew inode d out) {first k : Nat}
    (reach : first ≤ (d.nodes inode).blocksInUse) (low : k < (out.nodes inode).blocksInUse) :
    (out.nodes inode).dataBlocks k = RamDisk.slotThrough (d.nodes inode) (clearBlocks d) first k := by
  rw [grew.slots, RamDisk.slotThrough]
  by_cases new : (d.nodes inode).blocksInUse ≤ k
  · rw [if_pos ⟨new, low⟩, if_pos ⟨reach, new⟩]
  · rw [if_neg (fun both => new both.1), if_neg (fun both => new both.2)]

theorem Grew.limit {inode : Nat} {d out : Disk} (grew : Grew inode d out) (h : Slots (out.nodes inode)) :
    (out.nodes inode).blocksInUse ≤ min MaxDataBlocks ((d.nodes inode).blocksInUse + (clearBlocks d).length) := by
  refine Nat.le_min.mpr ⟨h.cap, ?_⟩
  by_contra more
  have filled := h.slots ((out.nodes inode).blocksInUse - 1) (by omega)
  rw [grew.slots, if_pos (by omega)] at filled
  exact filled (List.getElem?_eq_none (by omega))

theorem writeNothing (nothing : min size (MaxDataBlocks * BlockSize - offset) = 0) :
    ∃ out, d.write resource offset size buffer = some out ∧
      (out.disk.nodes resource.inode).size = if MaxDataBlocks * BlockSize < offset then (d.nodes resource.inode).size
        else max (d.nodes resource.inode).size offset := by
  unfold Disk.write
  by_cases past : offset > MaxDataBlocks * BlockSize
  · rw [if_pos past]
    exact ⟨_, rfl, by rw [if_pos past]⟩
  · rw [if_neg past]
    have still : ∀ left i prevDone, Disk.writeLoop resource.inode 0 buffer left d i prevDone 0 = some (d, 0) := by
      intro left i prevDone
      cases left <;> rfl
    simp only [nothing, still]
    refine ⟨_, rfl, ?_⟩
    rw [if_neg past]
    simp [Disk.setNode]

theorem writeStands (valid : d.super.Valid) (h : Slots (d.nodes resource.inode)) {length : Nat}
    (whole : min size (MaxDataBlocks * BlockSize - offset) = length) (positive : 0 < length)
    (room : Suffices (d.nodes resource.inode) (clearBlocks d) offset length)
    (agree : Agreeing (d.nodes resource.inode) (clearBlocks d) offset length buffer) :
    ∃ out, d.write resource offset size buffer = some out ∧ out.resource.inode = resource.inode ∧
      (out.disk.nodes resource.inode).size = max (d.nodes resource.inode).size (offset + length) ∧
      Stored out.disk resource.inode offset length buffer := by
  obtain ⟨reach, room⟩ := room
  have inside : ¬ offset > MaxDataBlocks * BlockSize := by
    unfold MaxDataBlocks BlockSize at *
    omega
  have within : offset % BlockSize < BlockSize := Nat.mod_lt _ (by unfold BlockSize; omega)
  have place : offset + 0 = BlockSize * (offset / BlockSize) + offset % BlockSize := (Nat.div_add_mod offset BlockSize).symm
  have blocks : offset / BlockSize + (MaxDataBlocks - offset / BlockSize) = MaxDataBlocks := by
    unfold MaxDataBlocks BlockSize at *
    omega
  obtain ⟨out, ran, stands⟩ := @writeLoopStands length offset buffer resource.inode
    (MaxDataBlocks - offset / BlockSize) d (offset / BlockSize) (offset % BlockSize) 0 valid h blocks reach within
    (Nat.zero_le _) (fun _ => place) room (fun p q lowP highP lowQ highQ slots same => by
      obtain ⟨j, rfl⟩ := Nat.exists_eq_add_of_le (show offset ≤ p by omega)
      obtain ⟨k, rfl⟩ := Nat.exists_eq_add_of_le (show offset ≤ q by omega)
      rw [Nat.add_sub_cancel_left, Nat.add_sub_cancel_left]
      exact agree j k (by omega) (by omega) slots same)
  obtain ⟨out', done, ran', fed, covers⟩ := @writeLoopFit length offset buffer resource.inode
    (MaxDataBlocks - offset / BlockSize) d (offset / BlockSize) (offset % BlockSize) 0 h (Nat.le_of_eq blocks) reach within
    (fun _ => place)
  obtain ⟨rfl, rfl⟩ := Prod.mk.inj (Option.some.inj (ran.symm.trans ran'))
  have covered : offset + length ≤ BlockSize * (out.nodes resource.inode).blocksInUse := by omega
  obtain ⟨grew, -⟩ := writeLoopReach valid within (fun _ => place) ran
  refine ⟨_, by simp only [Disk.write, if_neg inside, whole, ran]; rfl, rfl, ?_, fun k low => ⟨?_, ?_⟩⟩
  · rw [sizeNode, if_pos rfl, fed.size]
  · unfold readable
    rw [sizeNode, if_pos rfl]
    dsimp only
    omega
  · rw [sizeByteAt, byteAt]
    have used : (offset + k) / BlockSize < (out.nodes resource.inode).blocksInUse := by
      unfold BlockSize at *
      omega
    obtain ⟨b, through, byte⟩ := stands (offset + k) (by omega) (by omega)
    rw [grew.slotUsed reach used, through]
    dsimp only
    rw [blockAddrCongr grew.super, byte, Nat.add_sub_cancel_left]

theorem storedStands (valid : d.super.Valid) (h : Slotted d) {out : Disk.Written} {length : Nat} (positive : 0 < length)
    (ok : d.write resource offset size buffer = some out) (stored : Stored out.disk resource.inode offset length buffer) :
    Suffices (d.nodes resource.inode) (clearBlocks d) offset length ∧
      Agreeing (d.nodes resource.inode) (clearBlocks d) offset length buffer := by
  obtain ⟨grew, -⟩ := writeReach valid ok
  have slots := writeSlotted h ok resource.inode
  have limit := grew.limit slots
  have first := (stored 0 positive).1
  have last := (stored (length - 1) (by omega)).1
  unfold readable at first last
  have reach : offset / BlockSize ≤ (d.nodes resource.inode).blocksInUse := by
    by_contra behind
    have same := writeBehind (Nat.lt_of_not_le behind) ok
    unfold BlockSize at *
    omega
  refine ⟨⟨reach, ?_⟩, fun j k lowJ lowK through same => ?_⟩
  · unfold BlockSize at *
    omega
  · obtain ⟨inJ, byteJ⟩ := stored j lowJ
    obtain ⟨inK, byteK⟩ := stored k lowK
    unfold readable at inJ inK
    have slotJ := grew.slotUsed reach (show (offset + j) / BlockSize < _ by unfold BlockSize at *; omega)
    have slotK := grew.slotUsed reach (show (offset + k) / BlockSize < _ by unfold BlockSize at *; omega)
    rw [← byteJ, ← byteK, byteAt, byteAt, slotJ, slotK, through, same]

end write

/- The entry lies at the end of the directory, in blocks of it, and none of its bytes lies in the header. -/
structure Entered (d : Disk) (inode offset : Nat) (entry : DirEntry) : Prop where
  size : (d.nodes inode).size = offset + sizeofDirEntry
  stored : Stored d inode offset sizeofDirEntry (entryBytes [entry])
  apart : ∀ k, k < sizeofDirEntry → (offset + k) % BlockSize < sizeofDirHeader →
    (d.nodes inode).dataBlocks ((offset + k) / BlockSize) ≠ (d.nodes inode).dataBlocks 0

def Separate (node : Node) (free : List Nat) (offset : Nat) : Prop :=
  ∀ k, k < sizeofDirEntry → (offset + k) % BlockSize < sizeofDirHeader →
    slotThrough node free (offset / BlockSize) ((offset + k) / BlockSize) ≠ slotThrough node free (offset / BlockSize) 0

theorem agreeingShort {node : Node} {free : List Nat} {offset length : Nat} (short : length ≤ BlockSize) (buffer : Buffer) :
    Agreeing node free offset length buffer := by
  intro j k lowJ lowK _ same
  have equal : j = k := by
    unfold BlockSize at *
    omega
  rw [equal]

section directory
variable {d : Disk} (valid : d.super.Valid) (h : Slotted d) (vfsNode : VfsNode) (entry : DirEntry)
include valid h

/- The two writes of writeDir: the entry is stored, and then the header as it was read is counted up. -/
theorem writeDirStages (room : Suffices (d.nodes vfsNode.resource.inode) (clearBlocks d)
      (d.nodes vfsNode.resource.inode).size sizeofDirEntry) :
    ∃ (first : Disk.Written) (header : Buffer) (last : Disk.Written),
      d.write vfsNode.resource (d.nodes vfsNode.resource.inode).size sizeofDirEntry (entryBytes [entry]) = some first ∧
      first.resource.inode = vfsNode.resource.inode ∧
      (first.disk.nodes vfsNode.resource.inode).size = (d.nodes vfsNode.resource.inode).size + sizeofDirEntry ∧
      Stored first.disk vfsNode.resource.inode (d.nodes vfsNode.resource.inode).size sizeofDirEntry (entryBytes [entry]) ∧
      (∀ k, k < sizeofDirHeader → header k = byteAt first.disk vfsNode.resource.inode k) ∧
      first.disk.write first.resource 0 sizeofDirHeader (storeInt header 0 (loadInt header 0 + 1)) = some last ∧
      (last.disk.nodes vfsNode.resource.inode).size = (first.disk.nodes vfsNode.resource.inode).size ∧
      Stored last.disk vfsNode.resource.inode 0 sizeofDirHeader (storeInt header 0 (loadInt header 0 + 1)) ∧
      d.writeDir vfsNode [entry] = some last.disk := by
  have whole : min sizeofDirEntry (MaxDataBlocks * BlockSize - (d.nodes vfsNode.resource.inode).size) = sizeofDirEntry := by
    have limit := room.2
    unfold MaxDataBlocks BlockSize at *
    omega
  obtain ⟨first, wrote, number, grown, stored⟩ := writeStands valid (h vfsNode.resource.inode) whole
    (by unfold sizeofDirEntry; omega) room (agreeingShort (by unfold sizeofDirEntry BlockSize; omega) (entryBytes [entry]))
  obtain ⟨grew, -, -⟩ := writeReach valid wrote
  have slotted := writeSlotted h wrote
  have total : (first.disk.nodes vfsNode.resource.inode).size =
      (d.nodes vfsNode.resource.inode).size + sizeofDirEntry := by
    rw [grown]
    omega
  obtain ⟨header, got, count, bytes⟩ := @readBytes first.disk first.resource (slotted _).cap (slotted _).slots 0
    sizeofDirHeader (fun _ => 0#8)
  have inside := (stored (sizeofDirEntry - 1) (by unfold sizeofDirEntry; omega)).1
  obtain ⟨last, again, number', size', stored'⟩ := @writeStands first.disk first.resource 0 sizeofDirHeader
    (storeInt header.1 0 (loadInt header.1 0 + 1)) (grew.super ▸ valid) (slotted _) sizeofDirHeader rfl
    (by unfold sizeofDirHeader; omega) ⟨Nat.zero_le _, by
      rw [number]
      unfold readable at inside
      unfold sizeofDirEntry sizeofDirHeader MaxDataBlocks BlockSize at *
      omega⟩ (agreeingShort (by unfold sizeofDirHeader BlockSize; omega) _)
  rw [number] at size' stored' count
  refine ⟨first, header.1, last, wrote, number, total, stored, fun k low => ?_, again, ?_, stored', ?_⟩
  · rw [bytes k, count, if_pos (by unfold sizeofDirEntry sizeofDirHeader at *; omega), number, Nat.zero_add]
  · rw [size', total]
    unfold sizeofDirEntry sizeofDirHeader
    omega
  · have bytes' : [entry].length * sizeofDirEntry % 2 ^ 32 = sizeofDirEntry := rfl
    have more : loadInt header.1 0 + ([entry].length : Int) = loadInt header.1 0 + 1 := rfl
    simp only [Disk.writeDir, bytes', wrote, got, more, again, Option.map_some]

theorem writeDirEnters (room : Suffices (d.nodes vfsNode.resource.inode) (clearBlocks d)
      (d.nodes vfsNode.resource.inode).size sizeofDirEntry)
    (apart : Separate (d.nodes vfsNode.resource.inode) (clearBlocks d) (d.nodes vfsNode.resource.inode).size) :
    ∃ out, d.writeDir vfsNode [entry] = some out ∧
      Entered out vfsNode.resource.inode (d.nodes vfsNode.resource.inode).size entry := by
  obtain ⟨first, header, last, wrote, number, grown, stored, -, again, kept, -, done⟩ :=
    writeDirStages valid h vfsNode entry room
  obtain ⟨grew, -, -⟩ := writeReach valid wrote
  have slotted := writeSlotted h wrote
  have used : 0 < (first.disk.nodes vfsNode.resource.inode).blocksInUse := by
    have inside := (stored 0 (by unfold sizeofDirEntry; omega)).1
    unfold readable BlockSize at inside
    omega
  obtain ⟨grew', -, frame⟩ := writeReach (grew.super ▸ valid) again
  rw [number] at grew' frame
  have more := grew'.more
  have keeps : ∀ k, k < (first.disk.nodes vfsNode.resource.inode).blocksInUse →
      (last.disk.nodes vfsNode.resource.inode).dataBlocks k = (first.disk.nodes vfsNode.resource.inode).dataBlocks k := by
    intro k low
    rw [grew'.slots, if_neg (by omega)]
  have place : ∀ k, k < sizeofDirEntry → ((d.nodes vfsNode.resource.inode).size + k) / BlockSize <
      (first.disk.nodes vfsNode.resource.inode).blocksInUse := by
    intro k low
    have inside := (stored k low).1
    unfold readable BlockSize at *
    omega
  have apart' : ∀ k, k < sizeofDirEntry → ((d.nodes vfsNode.resource.inode).size + k) % BlockSize < sizeofDirHeader →
      (first.disk.nodes vfsNode.resource.inode).dataBlocks (((d.nodes vfsNode.resource.inode).size + k) / BlockSize) ≠
        (first.disk.nodes vfsNode.resource.inode).dataBlocks 0 := by
    intro k low begins
    rw [grew.slotUsed room.1 (place k low), grew.slotUsed room.1 used]
    exact apart k low begins
  refine ⟨last.disk, done, kept.trans grown, fun k low => ⟨?_, ?_⟩, fun k low begins => ?_⟩
  · have inside := (stored k low).1
    unfold readable BlockSize at *
    omega
  · rw [← (stored k low).2, byteAt, byteAt, keeps _ (place k low)]
    obtain ⟨b, slot⟩ := Option.ne_none_iff_exists'.mp ((slotted vfsNode.resource.inode).slots _ (place k low))
    rw [slot]
    dsimp only
    rw [blockAddrCongr grew'.super]
    refine frame _ (by unfold Disk.blockAddr; omega) ?_
    rintro ⟨pos, b', -, high, -, through, same⟩
    have both : b' = b ∧ pos = ((d.nodes vfsNode.resource.inode).size + k) % BlockSize := by
      unfold Disk.blockAddr sizeofDirHeader BlockSize at *
      omega
    have zero : pos / BlockSize = 0 := Nat.div_eq_of_lt (by unfold sizeofDirHeader BlockSize at *; omega)
    rw [zero, Nat.zero_div, ← grew'.slotUsed (Nat.zero_le _) (by omega), keeps 0 used] at through
    exact apart' k low (by omega) (by rw [slot, through, both.1])
  · rw [keeps _ (place k low), keeps 0 used]
    exact apart' k low begins

theorem enteredWriteDir {out : Disk} (ok : d.writeDir vfsNode [entry] = some out)
    (entered : Entered out vfsNode.resource.inode (d.nodes vfsNode.resource.inode).size entry) :
    Suffices (d.nodes vfsNode.resource.inode) (clearBlocks d) (d.nodes vfsNode.resource.inode).size sizeofDirEntry ∧
      Separate (d.nodes vfsNode.resource.inode) (clearBlocks d) (d.nodes vfsNode.resource.inode).size := by
  obtain ⟨grew, -⟩ := writeDirReach valid ok
  have limit := grew.limit (writeDirSlotted h ok _)
  have place : ∀ k, k < sizeofDirEntry → (d.nodes vfsNode.resource.inode).size + k <
      BlockSize * (out.nodes vfsNode.resource.inode).blocksInUse := by
    intro k low
    have inside := (entered.stored k low).1
    unfold readable at inside
    omega
  have first := place 0 (by unfold sizeofDirEntry; omega)
  have last := place (sizeofDirEntry - 1) (by unfold sizeofDirEntry; omega)
  have reach : (d.nodes vfsNode.resource.inode).size / BlockSize ≤ (d.nodes vfsNode.resource.inode).blocksInUse := by
    by_contra behind
    simp only [Disk.writeDir] at ok
    split at ok
    · contradiction
    · next mid wrote =>
      have same := writeBehind (Nat.lt_of_not_le behind) wrote
      obtain ⟨-, number, -⟩ := writeReach valid wrote
      split at ok
      · contradiction
      · obtain ⟨last', again, rfl⟩ := Option.map_eq_some_iff.mp ok
        have most := writeMost again
        rw [number, same] at most
        unfold sizeofDirHeader BlockSize at *
        omega
  refine ⟨⟨reach, ?_⟩, fun k low begins => ?_⟩
  · unfold sizeofDirEntry BlockSize at *
    omega
  · have apart := entered.apart k low begins
    rwa [grew.slotUsed reach (show _ / BlockSize < _ by have := place k low; unfold BlockSize at *; omega),
      grew.slotUsed reach (show 0 < _ by unfold BlockSize at *; omega)] at apart

end directory

theorem createReturns (deviceID : Int) (type : NodeType) {d : Disk} {inode : Nat} (free : d.getFreeINode = some inode) :
    ∃ out, d.create deviceID type = some out := by
  cases block : d.getFreeDataBlock with
  | none =>
    obtain ⟨out, vfsNode, created, -⟩ := createTakes deviceID type free block
    exact ⟨_, created⟩
  | some b =>
    obtain ⟨out, vfsNode, created, -⟩ := createServed deviceID type free block
    exact ⟨_, created⟩

theorem createMakes {d : Disk} {deviceID : Int} {type : NodeType} {out : Disk × VfsNode} (valid : d.super.Valid)
    (ok : d.create deviceID type = some out) :
    ∃ inode, d.getFreeINode = some inode ∧ out.2.type = type ∧ out.2.resource.inode = inode ∧
      (out.1.nodes inode).type = type ∧ (out.1.nodes inode).blocksInUse = min 1 (clearBlocks d).length ∧
      (∀ i, i ≠ inode → out.1.nodes i = d.nodes i) ∧ clearBlocks out.1 = (clearBlocks d).tail ∧ out.1.super = d.super := by
  obtain ⟨same, clear, others, opened, -⟩ := createReach valid ok
  cases found : d.getFreeINode with
  | none =>
    simp only [Disk.create, found] at ok
    cases ok
  | some inode =>
    have blocks := (opened inode).2.1
    rw [openedNode, if_pos found] at blocks
    have here := freshNode d inode type inode
    have super : (d.setNode inode
        { d.nodes inode with blocksInUse := 0, inode := inode, size := 0, type := type }).super = d.super := rfl
    rw [if_pos rfl] at here
    have rest : out.2.type = type ∧ out.2.resource.inode = inode ∧ (out.1.nodes inode).type = type := by
      simp only [Disk.create, found] at ok
      generalize d.setNode inode
        { d.nodes inode with blocksInUse := 0, inode := inode, size := 0, type := type } = made at ok here super
      split at ok
      · cases ok
      · next wrote done =>
        cases Option.some.inj ok
        refine ⟨by simp only [Disk.populateVFSNode, here], (writeReach (super ▸ valid) done).2.1.trans ?_, ?_⟩
        · simp [Disk.populateVFSNode, here]
        · simp only [Disk.setNode, Function.update_self]
          rw [(writeKind done inode).2, here]
    obtain ⟨kind, number, used⟩ := rest
    refine ⟨inode, rfl, kind, number, used, blocks, fun i other => others i (fun taken => other ?_), clear, same⟩
    exact (Option.some.inj (found.symm.trans taken)).symm

theorem removeReturns {d : Disk} (h : Slotted d) (vfsNode : VfsNode) :
    ∃ out, d.remove vfsNode = some out ∧ (out.nodes vfsNode.resource.inode).type = .INVALID ∧
      ∀ k b, k < (d.nodes vfsNode.resource.inode).blocksInUse →
        (d.nodes vfsNode.resource.inode).dataBlocks k = some b → bitAt out.data b = false := by
  have slots := h vfsNode.resource.inode
  obtain ⟨mid, freed, -, nodes, bits⟩ := freeBlocksSpec d slots.cap
    (fun k low => Option.ne_none_iff_exists'.mp (slots.slots k low))
  refine ⟨mid.freeINode vfsNode.resource.inode, by rw [Disk.remove, freed]; rfl, ?_, fun k b low slot => ?_⟩
  · simp [Disk.freeINode, Disk.setNode]
  · have bit := bits b
    show bitAt mid.data b = false
    by_contra set
    exact (bit.mp (by simpa using set)).2 k low slot

theorem removeDirEntryReturns {d : Disk} (h : Slotted d) (vfsNode : VfsNode) (entry : DirEntry) :
    ∃ out, d.removeDirEntry vfsNode entry = some out := by
  have slots := h vfsNode.resource.inode
  exact ⟨_, dropInBlocksScan slots.cap (fun k low => Option.ne_none_iff_exists'.mp (slots.slots k low))⟩

end DimOS.Filesystem.RamDisk
