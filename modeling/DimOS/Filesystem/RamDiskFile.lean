import DimOS.Lib.Splice
import DimOS.Filesystem.RamDiskFrame

/-! A file of the RamDisk as the list of its bytes. A write inside the file or at its end replaces
or extends them, however many blocks it runs through and wherever the disk fills up, and a read
delivers a slice of them. -/
namespace DimOS.Filesystem.RamDisk
open Lib.ByteMemory
open Lib.Splice (overwrite)
open Cpp
open Cpp.Bitset (bitAt)

variable {scope : Nat → Prop}

theorem Linked.withData {d : Disk} (h : Linked scope d) {m : Memory}
    (same : ∀ b, b < d.super.blockCnt → bitAt m b = bitAt d.data b) : Linked scope { d with data := m } where
  valid := h.valid
  cap := h.cap
  slots := h.slots
  unique := h.unique
  marked i k b mine ref := by
    obtain ⟨b', inside, slot⟩ := h.slots i k mine ref.1 ref.2.1
    cases Option.some.inj (ref.2.2.symm.trans slot)
    rw [same b inside]
    exact h.marked i k b mine ref

/- The other inodes are left alone, and so are the bytes of those in `scope`. -/
structure Spares (scope : Nat → Prop) (inode : Nat) (d d' : Disk) : Prop where
  super : d'.super = d.super
  nodes : ∀ i, i ≠ inode → d'.nodes i = d.nodes i
  bytes : ∀ i k b, scope i → i ≠ inode → Refers d i k b → ∀ o, o < BlockSize →
    d'.data (d.blockAddr b + o) = d.data (d.blockAddr b + o)

theorem Spares.refl (scope : Nat → Prop) (inode : Nat) (d : Disk) : Spares scope inode d d :=
  ⟨rfl, fun _ _ => rfl, fun _ _ _ _ _ _ _ _ => rfl⟩

theorem Spares.refers {inode : Nat} {d d' : Disk} (spares : Spares scope inode d d') {i k b : Nat}
    (other : i ≠ inode) : Refers d' i k b ↔ Refers d i k b := by
  unfold Refers Live
  rw [spares.super, spares.nodes i other]

theorem Spares.trans {inode : Nat} {d d' d'' : Disk} (first : Spares scope inode d d')
    (second : Spares scope inode d' d'') : Spares scope inode d d'' where
  super := second.super.trans first.super
  nodes i other := (second.nodes i other).trans (first.nodes i other)
  bytes i k b mine other ref o low := by
    have same := second.bytes i k b mine other ((first.refers other).mpr ref) o low
    unfold Disk.blockAddr at same ⊢
    rw [first.super] at same
    exact same.trans (first.bytes i k b mine other ref o low)

theorem Keeps.spares {inode : Nat} {d d' : Disk} (keeps : Keeps inode d d') : Spares scope inode d d' :=
  ⟨keeps.super, keeps.nodes, fun i k b _ => keeps.bytes i k b⟩

def byteAt (d : Disk) (inode pos : Nat) : BitVec 8 :=
  match (d.nodes inode).dataBlocks (pos / BlockSize) with
  | none => 0#8
  | some b => d.data (d.blockAddr b + pos % BlockSize)

theorem byteAtSlot {d : Disk} {inode k b o : Nat} (slot : (d.nodes inode).dataBlocks k = some b)
    (low : o < BlockSize) : byteAt d inode (BlockSize * k + o) = d.data (d.blockAddr b + o) := by
  have place : (BlockSize * k + o) / BlockSize = k ∧ (BlockSize * k + o) % BlockSize = o := by
    unfold BlockSize at *
    omega
  simp only [byteAt, place.1, place.2, slot]

theorem Spares.byteAt {inode : Nat} {d d' : Disk} (keeps : Spares scope inode d d') (h : Linked scope d) {i pos : Nat}
    (mine : scope i) (other : i ≠ inode) (live : Live d i) (inside : pos < BlockSize * (d.nodes i).blocksInUse) :
    byteAt d' i pos = byteAt d i pos := by
  have low : pos / BlockSize < (d.nodes i).blocksInUse := by
    unfold BlockSize at *
    omega
  obtain ⟨b, -, slot⟩ := h.slots i _ mine live low
  have same := keeps.bytes i _ b mine other ⟨live, low, slot⟩ (pos % BlockSize)
    (Nat.mod_lt _ (by unfold BlockSize; omega))
  simp only [RamDisk.byteAt, keeps.nodes i other, slot, Disk.blockAddr, keeps.super]
  exact same

/- What one inode's file becomes when `total` bytes are written, the first `before` of them before `d`. -/
structure Wrote (scope : Nat → Prop) (inode size offset before : Nat) (buffer : Buffer) (d out : Disk) (total : Nat) : Prop where
  linked : Linked scope out
  spares : Spares scope inode d out
  shape : SameShape d out
  sameSize : (out.nodes inode).size = (d.nodes inode).size
  grows : (d.nodes inode).blocksInUse ≤ (out.nodes inode).blocksInUse
  slots : ∀ k, k < (d.nodes inode).blocksInUse → (out.nodes inode).dataBlocks k = (d.nodes inode).dataBlocks k
  bound : before ≤ total ∧ total ≤ size
  stuck : total < size →
    BlockSize * (out.nodes inode).blocksInUse ≤ offset + total ∧ out.getFreeDataBlock = none
  reach : total = before ∨ offset + total ≤ BlockSize * (out.nodes inode).blocksInUse
  fresh : ∀ pos, offset + before ≤ pos → pos < offset + total → byteAt out inode pos = buffer (pos - offset)
  old : ∀ pos, pos < BlockSize * (d.nodes inode).blocksInUse → pos < offset + before ∨ offset + total ≤ pos →
    byteAt out inode pos = byteAt d inode pos

theorem Wrote.nothing {inode size offset written : Nat} {buffer : Buffer} {d : Disk} (h : Linked scope d)
    (bound : written ≤ size)
    (stuck : written < size →
      BlockSize * (d.nodes inode).blocksInUse ≤ offset + written ∧ d.getFreeDataBlock = none) :
    Wrote scope inode size offset written buffer d d written :=
  ⟨h, Spares.refl _ _ _, ⟨rfl, fun _ => rfl⟩, rfl, Nat.le_refl _, fun _ _ => rfl, ⟨Nat.le_refl _, bound⟩, stuck,
    .inl rfl, fun pos low high => by omega, fun _ _ _ => rfl⟩

/- A block is claimed: the file's bytes stay, and slot `i` is there. -/
structure Claimed (scope : Nat → Prop) (inode i : Nat) (d out : Disk) : Prop where
  linked : Linked scope out
  spares : Spares scope inode d out
  shape : SameShape d out
  size : (out.nodes inode).size = (d.nodes inode).size
  used : i < (out.nodes inode).blocksInUse
  grows : (d.nodes inode).blocksInUse ≤ (out.nodes inode).blocksInUse
  slots : ∀ k, k < (d.nodes inode).blocksInUse → (out.nodes inode).dataBlocks k = (d.nodes inode).dataBlocks k
  old : ∀ pos, pos < BlockSize * (d.nodes inode).blocksInUse → byteAt out inode pos = byteAt d inode pos

theorem attachClaimed {d : Disk} {inode b : Nat} (h : Linked scope d) (mine : scope inode) (live : Live d inode)
    (room : (d.nodes inode).blocksInUse < MaxDataBlocks) (free : d.getFreeDataBlock = some b) :
    Claimed scope inode (d.nodes inode).blocksInUse d (d.attach inode b) := by
  obtain ⟨inside, clear⟩ := freeBlockSpec free
  have here : (d.attach inode b).nodes inode =
      { d.nodes inode with
        dataBlocks := Function.update (d.nodes inode).dataBlocks (d.nodes inode).blocksInUse (some b)
        blocksInUse := (d.nodes inode).blocksInUse + 1 } := by
    simp [Disk.attach, Disk.setNode]
  have slots : ∀ k, k < (d.nodes inode).blocksInUse →
      ((d.attach inode b).nodes inode).dataBlocks k = (d.nodes inode).dataBlocks k := by
    intro k low
    rw [here]
    exact Function.update_of_ne (Nat.ne_of_lt low) _ _
  refine ⟨attachLinked h live room inside clear, (keepsAttach h.valid inode inside).spares, ⟨rfl, ?_⟩, ?_, ?_, ?_,
    slots, ?_⟩
  · intro j
    rcases attachNode d inode b j with keep | ⟨-, type, -⟩
    · rw [keep]
    · exact type
  · rw [here]
  · rw [here]
    exact Nat.lt_succ_self _
  · rw [here]
    exact Nat.le_succ _
  · intro pos low
    have below : pos / BlockSize < (d.nodes inode).blocksInUse := by
      unfold BlockSize at *
      omega
    obtain ⟨b', -, slot⟩ := h.slots inode _ mine live below
    have valid := h.valid
    simp only [byteAt, slots _ below, slot]
    -- the bit of the new block lies in front of every data block
    refine setByte d.data b true ?_
    unfold Super.Valid at valid
    simp only [Disk.blockAddr, Disk.attach, Disk.setNode]
    omega

theorem claimClaimed {d out : Disk} {inode i : Nat} (h : Linked scope d) (mine : scope inode) (live : Live d inode)
    (reach : i ≤ (d.nodes inode).blocksInUse) (room : i < MaxDataBlocks)
    (ok : d.claimBlock inode i = some out) : Claimed scope inode i d out := by
  unfold Disk.claimBlock at ok
  split at ok
  · next same =>
    subst same
    obtain ⟨b, free, rfl⟩ := Option.map_eq_some_iff.mp ok
    exact attachClaimed h mine live room free
  · next other =>
    cases Option.some.inj ok
    exact ⟨h, Spares.refl _ _ _, ⟨rfl, fun _ => rfl⟩, rfl, by omega, Nat.le_refl _, fun _ _ => rfl, fun _ _ => rfl⟩

theorem sparesFill {d : Disk} (h : Linked scope d) {inode k b offset : Nat} (mine : scope inode)
    (ref : Refers d inode k b) {m : Memory} (below : ∀ a, a < d.blockAddr b + offset → m a = d.data a)
    (above : ∀ a, d.blockAddr b + BlockSize ≤ a → m a = d.data a) :
    Spares scope inode d { d with data := m } := by
  refine ⟨rfl, fun _ _ => rfl, ?_⟩
  intro i k' b' mine' other ref' o low
  have apart : b' ≠ b := by
    rintro rfl
    exact other (h.unique i k' inode k b' mine' mine ref' ref).1
  rcases Nat.lt_or_gt_of_ne apart with less | greater
  · apply below
    unfold Disk.blockAddr BlockSize at *
    omega
  · apply above
    unfold Disk.blockAddr BlockSize at *
    omega

theorem fillMost (buffer : Buffer) {size : Nat} (left : Nat) (m : Memory) (addr : Nat) {written : Nat}
    (bound : written ≤ size) : (Disk.fill buffer size left m addr written).2 ≤ size := by
  induction left generalizing m addr written with
  | zero => exact bound
  | succ left ih =>
    simp only [Disk.fill]
    split
    · next more => exact ih _ _ more
    · exact bound

theorem fillRest (buffer : Buffer) (size left : Nat) (m : Memory) (addr written : Nat) (a : Nat)
    (past : addr + ((Disk.fill buffer size left m addr written).2 - written) ≤ a) :
    (Disk.fill buffer size left m addr written).1 a = m a := by
  induction left generalizing m addr written with
  | zero => rfl
  | succ left ih =>
    simp only [Disk.fill] at past ⊢
    split at past
    · next more =>
      have low := (fillSpec buffer size left (Function.update m addr (buffer written)) (addr + 1) (written + 1)).2.1
      rw [if_pos more, ih _ _ _ (by omega), Function.update_of_ne (by omega)]
    · next done => rw [if_neg done]

theorem fillWrote {d : Disk} {inode i b size offset prevDone written : Nat} (buffer : Buffer) (h : Linked scope d)
    (mine : scope inode) (ref : Refers d inode i b) (within : prevDone < BlockSize) (place : offset + written = BlockSize * i + prevDone)
    (more : written < size) {m : Memory} {total : Nat}
    (filled : Disk.fill buffer size (BlockSize - prevDone) d.data (d.blockAddr b + prevDone) written = (m, total)) :
    written < total ∧ total ≤ size ∧ (total < size → offset + total = BlockSize * (i + 1)) ∧
      offset + total ≤ BlockSize * (i + 1) ∧ Linked scope { d with data := m } ∧
      Spares scope inode d { d with data := m } ∧
      (∀ pos, offset + written ≤ pos → pos < offset + total →
        byteAt { d with data := m } inode pos = buffer (pos - offset)) ∧
      ∀ pos, pos < BlockSize * (d.nodes inode).blocksInUse → pos < offset + written ∨ offset + total ≤ pos →
        byteAt { d with data := m } inode pos = byteAt d inode pos := by
  obtain ⟨below, low, high, full⟩ := fillSpec buffer size (BlockSize - prevDone) d.data
    (d.blockAddr b + prevDone) written
  have above : ∀ a, d.blockAddr b + BlockSize ≤ a → m a = d.data a := by
    intro a far
    have same := fillAbove buffer size (BlockSize - prevDone) d.data (d.blockAddr b + prevDone) written
      (show d.blockAddr b + prevDone + (BlockSize - prevDone) ≤ a by omega)
    rw [filled] at same
    exact same
  have bytes := fillBytes buffer size (BlockSize - prevDone) d.data (d.blockAddr b + prevDone) written
  have rest := fillRest buffer size (BlockSize - prevDone) d.data (d.blockAddr b + prevDone) written
  have most := fillMost buffer (BlockSize - prevDone) d.data (d.blockAddr b + prevDone)
    (Nat.le_of_lt more)
  rw [filled] at below low high full bytes rest most
  dsimp only at below low high full bytes rest most
  have slot := ref.2.2
  have some : written < total := by
    by_contra none
    have := full (by omega)
    omega
  refine ⟨some, most, fun less => by have := full less; unfold BlockSize at *; omega,
    by unfold BlockSize at *; omega, h.withData (blockBits h.valid below), sparesFill h mine ref below above, ?_, ?_⟩
  · intro pos after before
    obtain ⟨k, rfl⟩ : ∃ k, pos = offset + written + k := ⟨pos - (offset + written), by omega⟩
    have at' : byteAt { d with data := m } inode (BlockSize * i + (prevDone + k)) =
        m (d.blockAddr b + (prevDone + k)) := byteAtSlot slot (by omega)
    rw [show BlockSize * i + (prevDone + k) = offset + written + k by omega] at at'
    rw [at', show offset + written + k - offset = written + k by omega]
    have byte := bytes k (by omega) (by omega)
    rw [Nat.add_assoc] at byte
    exact byte
  · intro pos inside outside
    have low' : pos / BlockSize < (d.nodes inode).blocksInUse := by
      unfold BlockSize at *
      omega
    obtain ⟨b', -, slot'⟩ := h.slots inode _ mine ref.1 low'
    simp only [byteAt, slot']
    have rem := Nat.mod_lt pos (show 0 < BlockSize by unfold BlockSize; omega)
    have parts := Nat.div_add_mod pos BlockSize
    show m (d.blockAddr b' + pos % BlockSize) = d.data (d.blockAddr b' + pos % BlockSize)
    by_cases same : pos / BlockSize = i
    · rw [same] at slot' parts
      rw [slot] at slot'
      cases Option.some.inj slot'
      by_cases before : pos % BlockSize < prevDone
      · exact below _ (by omega)
      · exact rest _ (by omega)
    · -- another slot holds another block
      have apart : b' ≠ b := by
        rintro rfl
        exact same (h.unique inode _ inode i b' mine mine ⟨ref.1, low', slot'⟩ ref).2
      rcases Nat.lt_or_gt_of_ne apart with less | greater
      · apply below
        unfold Disk.blockAddr BlockSize at *
        omega
      · apply above
        unfold Disk.blockAddr BlockSize at *
        omega

theorem writeLoopWrote {size : Nat} (offset : Nat) (buffer : Buffer) {inode left : Nat} {d : Disk}
    {i prevDone written : Nat} (h : Linked scope d) (mine : scope inode) (live : Live d inode) (blocks : i + left = MaxDataBlocks)
    (reach : i ≤ (d.nodes inode).blocksInUse) (within : prevDone < BlockSize)
    (fits : offset + size ≤ MaxDataBlocks * BlockSize) (bound : written ≤ size)
    (place : written < size → offset + written = BlockSize * i + prevDone) :
    ∃ out total, Disk.writeLoop inode size buffer left d i prevDone written = some (out, total) ∧
      Wrote scope inode size offset written buffer d out total := by
  induction left generalizing d i prevDone written with
  | zero =>
    refine ⟨d, written, rfl, Wrote.nothing h bound ?_⟩
    intro more
    have at' := place more
    unfold MaxDataBlocks BlockSize at *
    omega
  | succ left ih =>
    simp only [Disk.writeLoop]
    split
    · next more =>
      cases claimed : d.claimBlock inode i with
      | none =>
        refine ⟨d, written, rfl, Wrote.nothing h bound ?_⟩
        intro _
        unfold Disk.claimBlock at claimed
        split at claimed
        · next same =>
          have at' := place more
          exact ⟨by rw [← same]; omega, Option.map_eq_none_iff.mp claimed⟩
        · cases claimed
      | some mid =>
        have claim := claimClaimed h mine live reach (by omega) claimed
        have live' := claim.shape.live.mpr live
        obtain ⟨b, -, slot⟩ := claim.linked.slots inode i mine live' claim.used
        simp only [slot]
        obtain ⟨⟨m, count⟩, filled⟩ : ∃ out, Disk.fill buffer size (BlockSize - prevDone) mid.data
          (mid.blockAddr b + prevDone) written = out := ⟨_, rfl⟩
        obtain ⟨low, high, full, reached, linked, spares, fresh, old⟩ := fillWrote buffer claim.linked mine
          ⟨live', claim.used, slot⟩ within (place more) more filled
        simp only [filled]
        obtain ⟨out, total, done, rest⟩ := ih linked live' (by omega) claim.used
          (show 0 < BlockSize by unfold BlockSize; omega) high full
        have upper : total = count ∨ offset + total ≤ BlockSize * (out.nodes inode).blocksInUse := rest.reach
        have room := rest.grows
        have here : BlockSize * (i + 1) ≤ BlockSize * (mid.nodes inode).blocksInUse :=
          Nat.mul_le_mul_left BlockSize claim.used
        have wider : BlockSize * (mid.nodes inode).blocksInUse ≤ BlockSize * (out.nodes inode).blocksInUse :=
          Nat.mul_le_mul_left BlockSize room
        have same := Nat.mul_le_mul_left BlockSize claim.grows
        refine ⟨out, total, done, rest.linked, claim.spares.trans (spares.trans rest.spares),
          claim.shape.trans ⟨rest.shape.super, rest.shape.types⟩, rest.sameSize.trans claim.size,
          Nat.le_trans claim.grows rest.grows,
          fun k below => (rest.slots k (Nat.lt_of_lt_of_le below claim.grows)).trans (claim.slots k below),
          ⟨Nat.le_trans (Nat.le_of_lt low) rest.bound.1, rest.bound.2⟩, rest.stuck, ?_, ?_, ?_⟩
        · rcases upper with none | some
          · exact .inr (by rw [none]; omega)
          · exact .inr some
        · intro pos after before
          by_cases here : pos < offset + count
          · rw [rest.old pos (by dsimp only; omega) (.inl here)]
            exact fresh pos after here
          · exact rest.fresh pos (by omega) before
        · intro pos inside outside
          have upTo := rest.bound.1
          rw [rest.old pos (by dsimp only; omega) (by omega), old pos (by omega) (by omega)]
          exact claim.old pos inside
    · next done =>
      exact ⟨d, written, rfl, Wrote.nothing h bound (fun more => absurd more done)⟩


theorem sizeNode (d : Disk) (inode size i : Nat) :
    (d.setNode inode { d.nodes inode with size := size }).nodes i =
      { d.nodes i with size := if i = inode then size else (d.nodes i).size } := by
  by_cases same : i = inode
  · subst same
    simp [Disk.setNode]
  · simp [Disk.setNode, same]

theorem sizeLive (d : Disk) (inode size i : Nat) :
    Live (d.setNode inode { d.nodes inode with size := size }) i ↔ Live d i := by
  simp only [Live, sizeNode]
  exact Iff.rfl

theorem sizeRefers (d : Disk) (inode size i k b : Nat) :
    Refers (d.setNode inode { d.nodes inode with size := size }) i k b ↔ Refers d i k b := by
  simp only [Refers, sizeLive, sizeNode]

theorem Linked.withSize {d : Disk} (h : Linked scope d) (inode size : Nat) :
    Linked scope (d.setNode inode { d.nodes inode with size := size }) := by
  refine ⟨h.valid, fun i mine live => ?_, fun i k mine live low => ?_, fun i k i' k' b mine mine' one two => ?_,
    fun i k b mine ref => ?_⟩
  · rw [sizeNode]
    exact h.cap i mine ((sizeLive d inode size i).mp live)
  · rw [sizeNode] at low ⊢
    exact h.slots i k mine ((sizeLive d inode size i).mp live) low
  · exact h.unique i k i' k' b mine mine' ((sizeRefers ..).mp one) ((sizeRefers ..).mp two)
  · exact h.marked i k b mine ((sizeRefers ..).mp ref)

theorem sizeByteAt (d : Disk) (inode size i pos : Nat) :
    byteAt (d.setNode inode { d.nodes inode with size := size }) i pos = byteAt d i pos := by
  simp only [byteAt, sizeNode]
  rfl

/- A whole write that begins in a block of the file or in the one behind its last. -/
structure FileWrite (scope : Nat → Prop) (d : Disk) (inode offset length : Nat) (buffer : Buffer) (out : Disk.Written) : Prop where
  linked : Linked scope out.disk
  spares : Spares scope inode d out.disk
  shape : SameShape d out.disk
  sized : (out.disk.nodes inode).size = max (d.nodes inode).size (offset + out.bytes)
  shown : out.resource.inode = inode ∧ out.resource.size = (out.disk.nodes inode).size
  grows : (d.nodes inode).blocksInUse ≤ (out.disk.nodes inode).blocksInUse
  slots : ∀ k, k < (d.nodes inode).blocksInUse →
    (out.disk.nodes inode).dataBlocks k = (d.nodes inode).dataBlocks k
  bound : out.bytes ≤ min length (MaxDataBlocks * BlockSize - offset)
  stuck : out.bytes < min length (MaxDataBlocks * BlockSize - offset) →
    BlockSize * (out.disk.nodes inode).blocksInUse ≤ offset + out.bytes ∧ out.disk.getFreeDataBlock = none
  reach : out.bytes = 0 ∨ offset + out.bytes ≤ BlockSize * (out.disk.nodes inode).blocksInUse
  fresh : ∀ pos, offset ≤ pos → pos < offset + out.bytes → byteAt out.disk inode pos = buffer (pos - offset)
  old : ∀ pos, pos < BlockSize * (d.nodes inode).blocksInUse → pos < offset ∨ offset + out.bytes ≤ pos →
    byteAt out.disk inode pos = byteAt d inode pos

theorem writeFile {d : Disk} {resource : Resource} {offset : Nat} (length : Nat) (buffer : Buffer)
    (h : Linked scope d) (mine : scope resource.inode) (live : Live d resource.inode) (small : offset ≤ MaxDataBlocks * BlockSize)
    (reach : offset / BlockSize ≤ (d.nodes resource.inode).blocksInUse) :
    ∃ out, d.write resource offset length buffer = some out ∧
      FileWrite scope d resource.inode offset length buffer out := by
  have blocks : offset / BlockSize ≤ MaxDataBlocks := by
    unfold MaxDataBlocks BlockSize at *
    omega
  obtain ⟨mid, total, done, wrote⟩ := writeLoopWrote offset buffer h mine live
    (show offset / BlockSize + (MaxDataBlocks - offset / BlockSize) = MaxDataBlocks by omega) reach
    (Nat.mod_lt offset (show 0 < BlockSize by unfold BlockSize; omega))
    (show offset + min length (MaxDataBlocks * BlockSize - offset) ≤ MaxDataBlocks * BlockSize by omega)
    (Nat.zero_le _) (fun _ => (Nat.div_add_mod offset BlockSize).symm)
  rw [Disk.write, if_neg (by omega)]
  simp only [done]
  refine ⟨_, rfl, wrote.linked.withSize _ _, wrote.spares.trans (keepsNode mid _ _).spares, ?_, ?_, ⟨rfl, ?_⟩, ?_, ?_,
    wrote.bound.2, ?_, ?_, ?_, ?_⟩
  · exact ⟨wrote.shape.super, fun i => by rw [sizeNode]; exact wrote.shape.types i⟩
  · simp only [sizeNode, if_true, wrote.sameSize]
  · simp only [sizeNode, if_true]
  · simp only [sizeNode]
    exact wrote.grows
  · intro k low
    simp only [sizeNode]
    exact wrote.slots k low
  · intro less
    simp only [sizeNode]
    exact wrote.stuck less
  · simp only [sizeNode]
    exact wrote.reach
  · intro pos after before
    rw [sizeByteAt]
    exact wrote.fresh pos after before
  · intro pos inside outside
    rw [sizeByteAt]
    exact wrote.old pos inside outside

theorem readLoopBytes {d : Disk} {inode : Nat} (cap : (d.nodes inode).blocksInUse ≤ MaxDataBlocks)
    (slots : ∀ k, k < (d.nodes inode).blocksInUse → (d.nodes inode).dataBlocks k ≠ none) (size i prevDone : Nat)
    (buffer : Buffer) (done : Nat) {left : Nat} (blocks : left = (d.nodes inode).blocksInUse - i)
    (within : prevDone < BlockSize) (bound : done ≤ size) :
    ∃ out, d.readLoop inode size left i prevDone buffer done = some out ∧
      out.2 = min size (done + (BlockSize * left - prevDone)) ∧
      ∀ k, out.1 k =
        if done ≤ k ∧ k < out.2 then byteAt d inode (BlockSize * i + prevDone + (k - done)) else buffer k := by
  induction left generalizing i prevDone buffer done with
  | zero =>
    refine ⟨(buffer, done), rfl, by dsimp only; omega, fun k => ?_⟩
    rw [if_neg (by dsimp only; omega)]
  | succ left ih =>
    simp only [Disk.readLoop]
    split
    · next more =>
      have below : i < (d.nodes inode).blocksInUse := by omega
      rw [if_neg (by omega)]
      obtain ⟨b, slot⟩ := Option.ne_none_iff_exists'.mp (slots i below)
      simp only [slot]
      obtain ⟨count, bytes⟩ := drainSpec d.data size (BlockSize - prevDone) (d.blockAddr b + prevDone) buffer
        done bound
      generalize Disk.drain d.data size (BlockSize - prevDone) (d.blockAddr b + prevDone) buffer done = drained
        at count bytes
      obtain ⟨out, ran, total, rest⟩ := ih (i + 1) 0 drained.1 drained.2 (by omega) (by unfold BlockSize; omega) (by omega)
      refine ⟨out, ran, by rw [total, count]; unfold BlockSize at *; omega, fun k => ?_⟩
      rw [rest k, bytes k]
      by_cases late : drained.2 ≤ k ∧ k < out.2
      · rw [if_pos late, if_pos (by omega)]
        congr 1
        unfold BlockSize at *
        omega
      · rw [if_neg late]
        by_cases early : done ≤ k ∧ k < min (done + (BlockSize - prevDone)) size
        · rw [if_pos early, if_pos (by omega), Nat.add_assoc (BlockSize * i), byteAtSlot slot (by omega),
            Nat.add_assoc]
        · rw [if_neg early, if_neg (by omega)]
    · next full =>
      refine ⟨(buffer, done), rfl, by dsimp only; omega, fun k => ?_⟩
      rw [if_neg (by dsimp only; omega)]

def readable (d : Disk) (inode : Nat) : Nat :=
  min (d.nodes inode).size (BlockSize * (d.nodes inode).blocksInUse)

theorem readBytes {d : Disk} {resource : Resource} (cap : (d.nodes resource.inode).blocksInUse ≤ MaxDataBlocks)
    (slots : ∀ k, k < (d.nodes resource.inode).blocksInUse → (d.nodes resource.inode).dataBlocks k ≠ none)
    (offset size : Nat) (buffer : Buffer) :
    ∃ out, d.read resource offset size buffer = some out ∧
      out.2 = min size (readable d resource.inode - offset) ∧
      ∀ k, out.1 k = if k < out.2 then byteAt d resource.inode (offset + k) else buffer k := by
  simp only [Disk.read]
  split
  · refine ⟨(buffer, 0), rfl, by unfold readable; dsimp only; omega, fun k => ?_⟩
    rw [if_neg (by dsimp only; omega)]
  · next inside =>
    obtain ⟨out, ran, count, bytes⟩ := readLoopBytes cap slots
      (min size ((d.nodes resource.inode).size - offset)) (offset / BlockSize) (offset % BlockSize) buffer 0
      rfl (Nat.mod_lt _ (by unfold BlockSize; omega))
      (Nat.zero_le _)
    refine ⟨out, ran, by rw [count]; unfold readable BlockSize at *; omega, fun k => ?_⟩
    rw [bytes k, Nat.div_add_mod, Nat.sub_zero]
    simp only [Nat.zero_le, true_and]

theorem readSpec {d : Disk} (h : Linked scope d) {resource : Resource} (mine : scope resource.inode) (live : Live d resource.inode)
    (offset size : Nat) (buffer : Buffer) :
    ∃ out, d.read resource offset size buffer = some out ∧
      out.2 = min size (readable d resource.inode - offset) ∧
      ∀ k, out.1 k = if k < out.2 then byteAt d resource.inode (offset + k) else buffer k := by
  refine readBytes (h.cap _ mine live) (fun k low none => ?_) offset size buffer
  obtain ⟨b, -, slot⟩ := h.slots _ k mine live low
  rw [slot] at none
  cases none

def delivered (out : Buffer × Nat) : List (BitVec 8) := (List.range out.2).map out.1

def contents (d : Disk) (resource : Resource) : Option (List (BitVec 8)) :=
  (d.read resource 0 (d.nodes resource.inode).size (fun _ => 0#8)).map delivered

def fileBytes (d : Disk) (inode : Nat) : List (BitVec 8) :=
  (List.range (readable d inode)).map (byteAt d inode)

theorem deliveredSlice {d : Disk} (h : Linked scope d) {resource : Resource} (mine : scope resource.inode) (live : Live d resource.inode)
    (offset size : Nat) (buffer : Buffer) :
    ∃ out, d.read resource offset size buffer = some out ∧
      delivered out = ((fileBytes d resource.inode).take (offset + size)).drop offset ∧
      ∀ k, out.2 ≤ k → out.1 k = buffer k := by
  obtain ⟨out, ran, count, bytes⟩ := readSpec h mine live offset size buffer
  refine ⟨out, ran, ?_, fun k past => by rw [bytes k, if_neg (by omega)]⟩
  apply List.ext_getElem
  · simp only [delivered, fileBytes, List.length_map, List.length_range, List.length_drop, List.length_take]
    omega
  · intro k low high
    simp only [delivered, List.length_map, List.length_range] at low
    simp only [delivered, fileBytes, List.getElem_map, List.getElem_range, List.getElem_drop,
      List.getElem_take]
    rw [bytes k, if_pos low]

theorem contentsEq {d : Disk} (h : Linked scope d) {resource : Resource} (mine : scope resource.inode) (live : Live d resource.inode) :
    contents d resource = some (fileBytes d resource.inode) := by
  obtain ⟨out, ran, slice, -⟩ := deliveredSlice h mine live 0 (d.nodes resource.inode).size (fun _ => 0#8)
  have length : (fileBytes d resource.inode).length ≤ (d.nodes resource.inode).size := by
    simp only [fileBytes, List.length_map, List.length_range]
    exact Nat.min_le_left _ _
  rw [Nat.zero_add, List.take_of_length_le length, List.drop_zero] at slice
  simp only [contents, ran, Option.map_some, slice]

def taken (buffer : Buffer) (count : Nat) : List (BitVec 8) := (List.range count).map buffer

theorem fileBytesAt {d : Disk} {inode k : Nat} (low : k < readable d inode) :
    (fileBytes d inode)[k]? = some (byteAt d inode k) := by
  simp [fileBytes, low]

theorem fileBytesLength (d : Disk) (inode : Nat) : (fileBytes d inode).length = readable d inode := by
  simp [fileBytes]

theorem FileWrite.readable {d : Disk} {inode offset length : Nat} {buffer : Buffer} {out : Disk.Written}
    (wrote : FileWrite scope d inode offset length buffer out)
    (sized : (d.nodes inode).size ≤ BlockSize * (d.nodes inode).blocksInUse)
    (inside : offset ≤ (d.nodes inode).size) :
    readable out.disk inode = max (d.nodes inode).size (offset + out.bytes) := by
  have room := Nat.mul_le_mul_left BlockSize wrote.grows
  have reach := wrote.reach
  rw [RamDisk.readable, wrote.sized]
  omega

theorem FileWrite.bytes {d : Disk} {inode offset length : Nat} {buffer : Buffer} {out : Disk.Written}
    (wrote : FileWrite scope d inode offset length buffer out)
    (sized : (d.nodes inode).size ≤ BlockSize * (d.nodes inode).blocksInUse)
    (inside : offset ≤ (d.nodes inode).size) :
    fileBytes out.disk inode = overwrite (fileBytes d inode) offset (taken buffer out.bytes) := by
  have before : RamDisk.readable d inode = (d.nodes inode).size := Nat.min_eq_left sized
  have after := wrote.readable sized inside
  have count : (taken buffer out.bytes).length = out.bytes := by simp [taken]
  apply List.ext_getElem?
  intro k
  rw [Lib.Splice.overwriteEntry _ _ (by rw [fileBytesLength, before]; exact inside), count]
  by_cases low : k < RamDisk.readable out.disk inode
  · rw [fileBytesAt low]
    by_cases new : offset ≤ k ∧ k < offset + out.bytes
    · rw [if_pos new, wrote.fresh k new.1 new.2]
      simp [taken, show k - offset < out.bytes by omega]
    · rw [if_neg new, fileBytesAt (by omega), wrote.old k (by omega) (by omega)]
  · have none : (fileBytes d inode)[k]? = none := by
      rw [List.getElem?_eq_none_iff, fileBytesLength]
      omega
    rw [if_neg (by omega), none, List.getElem?_eq_none_iff, fileBytesLength]
    omega

theorem FileWrite.others {d : Disk} {inode offset length : Nat} {buffer : Buffer} {out : Disk.Written}
    (h : Linked scope d) (wrote : FileWrite scope d inode offset length buffer out) {i : Nat} (mine : scope i) (other : i ≠ inode)
    (live : Live d i) : fileBytes out.disk i = fileBytes d i := by
  have node := wrote.spares.nodes i other
  simp only [fileBytes, RamDisk.readable, node]
  apply List.map_congr_left
  intro pos low
  rw [List.mem_range] at low
  exact wrote.spares.byteAt h mine other live (by omega)

theorem freshNode (d : Disk) (inode : Nat) (type : NodeType) (i : Nat) :
    (d.setNode inode
      { d.nodes inode with blocksInUse := 0, inode := inode, size := 0, type := type }).nodes i =
      if i = inode then { d.nodes inode with blocksInUse := 0, inode := inode, size := 0, type := type }
      else d.nodes i := by
  by_cases same : i = inode
  · subst same
    simp [Disk.setNode]
  · simp [Disk.setNode, same]

theorem freshRefers {d : Disk} {inode : Nat} {type : NodeType} {i k b : Nat}
    (ref : Refers (d.setNode inode
      { d.nodes inode with blocksInUse := 0, inode := inode, size := 0, type := type }) i k b) :
    i ≠ inode ∧ Refers d i k b := by
  unfold Refers Live at ref
  rw [freshNode] at ref
  by_cases same : i = inode
  · rw [if_pos same] at ref
    exact absurd ref.2.1 (Nat.not_lt_zero k)
  · rw [if_neg same] at ref
    exact ⟨same, ref⟩

theorem freshLinked {d : Disk} (inode : Nat) (h : Linked scope d) (type : NodeType) :
    Linked scope (d.setNode inode
      { d.nodes inode with blocksInUse := 0, inode := inode, size := 0, type := type }) := by
  refine ⟨h.valid, ?_, ?_, fun i k i' k' b mine mine' one two =>
    h.unique i k i' k' b mine mine' (freshRefers one).2 (freshRefers two).2,
    fun i k b mine ref => h.marked i k b mine (freshRefers ref).2⟩
  · intro i mine live
    unfold Live at live
    rw [freshNode] at live ⊢
    by_cases same : i = inode
    · rw [if_pos same]
      exact Nat.zero_le _
    · rw [if_neg same] at live ⊢
      exact h.cap i mine live
  · intro i k mine live low
    unfold Live at live
    rw [freshNode] at live low ⊢
    by_cases same : i = inode
    · rw [if_pos same] at low
      exact absurd low (Nat.not_lt_zero k)
    · rw [if_neg same] at live low ⊢
      exact h.slots i k mine live low

theorem writeNoBlock (resource : Resource) (buffer : Buffer) {d : Disk}
    (empty : (d.nodes resource.inode).blocksInUse = 0) (full : d.getFreeDataBlock = none) :
    ∃ out, d.write resource 0 BlockSize buffer = some out ∧ (out.disk.nodes resource.inode).blocksInUse = 0 ∧
      out.disk.getFreeDataBlock = none := by
  have refused : d.claimBlock resource.inode 0 = none := by
    simp only [Disk.claimBlock, empty, if_true, full, Option.map_none]
  have loop : Disk.writeLoop resource.inode 512 buffer 10 d 0 0 0 = some (d, 0) := by
    rw [Disk.writeLoop]
    simp only [Nat.zero_lt_succ, if_true, refused]
  simp only [Disk.write, BlockSize, MaxDataBlocks, Nat.reduceMul, gt_iff_lt, Nat.not_lt_zero, if_false,
    Nat.sub_zero, Nat.reduceLeDiff, Nat.min_eq_left, Nat.zero_div, Nat.zero_mod, loop]
  exact ⟨_, rfl, by rw [sizeNode]; exact empty, full⟩

theorem writeFirst (resource : Resource) {d : Disk} (empty : (d.nodes resource.inode).blocksInUse = 0)
    {out : Disk.Written} (valid : out.disk.super = d.super)
    (wrote : d.write resource 0 BlockSize (fun _ => 0#8) = some out) :
    (out.disk.nodes resource.inode).blocksInUse ≤ 1 ∧
      ((out.disk.nodes resource.inode).blocksInUse = 0 → d.getFreeDataBlock = none) ∧
      ∀ pos, pos < BlockSize * (out.disk.nodes resource.inode).blocksInUse →
        byteAt out.disk resource.inode pos = 0#8 := by
  cases free : d.getFreeDataBlock with
  | none =>
    obtain ⟨out', wrote', used, -⟩ := writeNoBlock resource (fun _ => 0#8) empty free
    cases Option.some.inj (wrote.symm.trans wrote')
    rw [used]
    exact ⟨Nat.zero_le _, fun _ => rfl, fun pos low => by omega⟩
  | some b =>
    obtain ⟨out', wrote', used, slot, bytes⟩ := writeFirstBlock resource (fun _ => 0#8) empty free
    cases Option.some.inj (wrote.symm.trans wrote')
    rw [used]
    refine ⟨Nat.le_refl _, fun none => by omega, fun pos low => ?_⟩
    have at' := byteAtSlot slot (show pos < BlockSize by omega)
    rw [Nat.mul_zero, Nat.zero_add] at at'
    rw [at', Disk.blockAddr, valid]
    exact bytes pos (by omega)

def startSize (type : NodeType) : Nat := if type = .DIRECTORY then sizeofDirHeader else 0

structure Created (scope : Nat → Prop) (d : Disk) (inode : Nat) (type : NodeType) (out : Disk) (vfsNode : VfsNode) :
    Prop where
  linked : Linked scope out
  spares : Spares scope inode d out
  live : Live out inode
  size : (out.nodes inode).size = startSize type
  shown : vfsNode.resource.inode = inode ∧ vfsNode.resource.size = startSize type
  used : (out.nodes inode).blocksInUse ≤ 1
  zero : ∀ pos, pos < BlockSize * (out.nodes inode).blocksInUse → byteAt out inode pos = 0#8
  full : (out.nodes inode).blocksInUse = 0 → d.getFreeDataBlock = none

theorem createFile (deviceID : Int) {d : Disk} {type : NodeType} {inode : Nat} (h : Linked scope d)
    (mine : scope inode) (free : d.getFreeINode = some inode) (valid : type ≠ .INVALID) :
    ∃ out vfsNode, d.create deviceID type = some (out, vfsNode) ∧ Created scope d inode type out vfsNode := by
  obtain ⟨inside, invalid⟩ := freeINodeSpec free
  have fresh := freshLinked inode h type
  unfold Disk.create
  simp only [free]
  have first : Spares scope inode d (d.setNode inode
      { d.nodes inode with blocksInUse := 0, inode := inode, size := 0, type := type }) :=
    (keepsNode d inode _).spares
  have here := freshNode d inode type inode
  rw [if_pos rfl] at here
  have shapeMade : (d.setNode inode
      { d.nodes inode with blocksInUse := 0, inode := inode, size := 0, type := type }).getFreeDataBlock =
        d.getFreeDataBlock := rfl
  have liveMade : Live (d.setNode inode
      { d.nodes inode with blocksInUse := 0, inode := inode, size := 0, type := type }) inode :=
    ⟨inside, by rw [here]; exact valid⟩
  generalize d.setNode inode
    { d.nodes inode with blocksInUse := 0, inode := inode, size := 0, type := type } = made
    at fresh first here shapeMade liveMade
  have number : (made.populateVFSNode deviceID inode).resource.inode = inode := by
    simp [Disk.populateVFSNode, here]
  obtain ⟨out, wrote, file⟩ := @writeFile scope made (made.populateVFSNode deviceID inode).resource 0 BlockSize
    (fun _ => 0#8) fresh (by rw [number]; exact mine) (by rw [number]; exact liveMade) (Nat.zero_le _)
    (Nat.zero_le _)
  rw [number] at file
  simp only [wrote]
  obtain ⟨used, full, zero⟩ := writeFirst _ (by rw [number, here]) file.shape.super wrote
  rw [number] at used full zero
  refine ⟨_, _, rfl, file.linked.withSize _ _, first.trans (file.spares.trans (keepsNode out.disk inode _).spares),
    (sizeLive ..).mpr (file.shape.live.mpr liveMade), ?_, ⟨file.shown.1, rfl⟩, ?_, ?_, ?_⟩
  · rw [sizeNode, if_pos rfl]
    rfl
  · rw [sizeNode]
    exact used
  · intro pos low
    rw [sizeNode] at low
    rw [sizeByteAt]
    exact zero pos low
  · rw [sizeNode, ← shapeMade]
    exact full

theorem createWrites (deviceID : Int) (type : NodeType) {d : Disk} {inode : Nat} (free : d.getFreeINode = some inode) :
    ∃ (made : Disk) (resource : Resource), resource.inode = inode ∧ (made.nodes inode).blocksInUse = 0 ∧ (made.nodes inode).type = type ∧
      made.getFreeDataBlock = d.getFreeDataBlock ∧
      ∀ out, made.write resource 0 BlockSize (fun _ => 0#8) = some out →
        ∃ vfsNode, d.create deviceID type =
          some (out.disk.setNode inode { out.disk.nodes inode with size := startSize type }, vfsNode) := by
  have here := freshNode d inode type inode
  rw [if_pos rfl] at here
  generalize madeEq : d.setNode inode
    { d.nodes inode with blocksInUse := 0, inode := inode, size := 0, type := type } = made at here
  refine ⟨made, (made.populateVFSNode deviceID inode).resource, ?_, by rw [here], by rw [here],
    by rw [← madeEq]; rfl, ?_⟩
  · simp [Disk.populateVFSNode, here]
  · intro out wrote
    unfold Disk.create
    simp only [free, madeEq, wrote]
    exact ⟨_, rfl⟩

theorem createServed (deviceID : Int) (type : NodeType) {d : Disk} {inode b : Nat} (free : d.getFreeINode = some inode)
    (block : d.getFreeDataBlock = some b) :
    ∃ out vfsNode, d.create deviceID type = some (out, vfsNode) ∧ (out.nodes inode).type = type ∧
      (out.nodes inode).blocksInUse = 1 ∧ (out.nodes inode).size = startSize type := by
  obtain ⟨made, resource, rfl, bare, kind, same, writes⟩ := createWrites deviceID type free
  obtain ⟨out, wrote, used, -⟩ := writeFirstBlock resource (fun _ => 0#8) bare (same.trans block)
  obtain ⟨vfsNode, created⟩ := writes out wrote
  refine ⟨_, vfsNode, created, ?_, ?_, ?_⟩
  · rw [sizeNode]
    exact (writeKind wrote resource.inode).2.trans kind
  · rw [sizeNode]
    exact used
  · rw [sizeNode, if_pos rfl]

theorem createTakes (deviceID : Int) (type : NodeType) {d : Disk} {inode : Nat} (free : d.getFreeINode = some inode)
    (full : d.getFreeDataBlock = none) :
    ∃ out vfsNode, d.create deviceID type = some (out, vfsNode) ∧ (out.nodes inode).type = type ∧
      (out.nodes inode).blocksInUse = 0 ∧ out.getFreeDataBlock = none := by
  obtain ⟨made, resource, rfl, bare, kind, same, writes⟩ := createWrites deviceID type free
  obtain ⟨out, wrote, used, full'⟩ := writeNoBlock resource (fun _ => 0#8) bare (same.trans full)
  obtain ⟨vfsNode, created⟩ := writes out wrote
  refine ⟨_, vfsNode, created, ?_, ?_, full'⟩
  · rw [sizeNode]
    exact (writeKind wrote resource.inode).2.trans kind
  · rw [sizeNode]
    exact used

/-- The law of write and read, on a disk whose slots and bits agree. A write that starts inside a
file or at its end accepts every byte up to the limit of a file, unless the search for a free block
came back empty; the file then holds its old contents with the accepted bytes in place, every read
delivers a slice of that, and no other file is changed. -/
theorem writeReadLaw {d : Disk} {resource : Resource} {offset : Nat} (length : Nat) (buffer : Buffer)
    (h : Consistent d) (live : Live d resource.inode)
    (sized : (d.nodes resource.inode).size ≤ BlockSize * (d.nodes resource.inode).blocksInUse)
    (inside : offset ≤ (d.nodes resource.inode).size) :
    ∃ out old new, d.write resource offset length buffer = some out ∧
      out.bytes ≤ min length (MaxDataBlocks * BlockSize - offset) ∧
      (out.bytes < min length (MaxDataBlocks * BlockSize - offset) →
        offset + out.bytes = BlockSize * (out.disk.nodes resource.inode).blocksInUse ∧
          out.disk.getFreeDataBlock = none) ∧
      contents d resource = some old ∧ old.length = (d.nodes resource.inode).size ∧
      contents out.disk resource = some new ∧ new = overwrite old offset (taken buffer out.bytes) ∧
      (out.disk.nodes resource.inode).size = max (d.nodes resource.inode).size (offset + out.bytes) ∧
      (∀ o m start, ∃ got, out.disk.read resource o m start = some got ∧
        delivered got = (new.take (o + m)).drop o ∧ ∀ k, got.2 ≤ k → got.1 k = start k) ∧
      ∀ other, other.inode ≠ resource.inode → Live d other.inode →
        contents out.disk other = contents d other ∧
          (out.disk.nodes other.inode).size = (d.nodes other.inode).size := by
  have cap := h.cap _ live
  have linked := h.linked (fun _ => True)
  obtain ⟨out, wrote, file⟩ := writeFile length buffer linked trivial live
    (show offset ≤ MaxDataBlocks * BlockSize by unfold BlockSize at *; omega)
    (show offset / BlockSize ≤ (d.nodes resource.inode).blocksInUse by unfold BlockSize at *; omega)
  have live' := file.shape.live.mpr live
  have slices := fun o m start => deliveredSlice file.linked trivial live' o m start
  rw [file.bytes sized inside] at slices
  refine ⟨out, _, _, wrote, file.bound, ?_, contentsEq linked trivial live, ?_, contentsEq file.linked trivial live',
    file.bytes sized inside, file.sized, ?_, ?_⟩
  · intro less
    obtain ⟨past, full⟩ := file.stuck less
    have reach := file.reach
    have room := Nat.mul_le_mul_left BlockSize file.grows
    exact ⟨by omega, full⟩
  · rw [fileBytesLength]
    exact Nat.min_eq_left sized
  · rw [file.bytes sized inside]
    exact slices
  · intro other apart alive
    rw [contentsEq file.linked trivial (file.shape.live.mpr alive), contentsEq linked trivial alive, file.others linked trivial apart alive]
    exact ⟨rfl, by rw [file.spares.nodes _ apart]⟩

def emptyFile : Disk := (zeroed ⟨1, 1, 1⟩).setNode 0 ⟨0, .FILE, 0, 0, fun _ => none⟩

theorem emptyFileConsistent : Consistent emptyFile :=
  (freshOwned (zeroedOwned (by simp [Super.Valid])) rfl .FILE).consistent

theorem writeReadLawEmpty : Consistent emptyFile ∧ Live emptyFile 0 ∧
    ∃ out old new, emptyFile.write ⟨0, 0, 0⟩ 0 600 (fun _ => 1#8) = some out ∧ out.bytes ≤ 600 ∧
      contents emptyFile ⟨0, 0, 0⟩ = some old ∧ contents out.disk ⟨0, 0, 0⟩ = some new ∧
      new = overwrite old 0 (taken (fun _ => 1#8) out.bytes) := by
  have live : Live emptyFile 0 := ⟨Nat.zero_lt_one, by simp [emptyFile, Disk.setNode]⟩
  obtain ⟨out, old, new, wrote, bound, -, before, -, after, law, -⟩ :=
    @writeReadLaw emptyFile ⟨0, 0, 0⟩ 0 600 (fun _ => 1#8) emptyFileConsistent live
      (Nat.zero_le _) (Nat.zero_le _)
  exact ⟨emptyFileConsistent, live, out, old, new, wrote, Nat.le_trans bound (Nat.min_le_left _ _), before, after, law⟩

end DimOS.Filesystem.RamDisk
