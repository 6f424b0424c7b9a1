import DimOS.Filesystem.RamDiskEntries
import DimOS.Filesystem.RamDiskMount

/-! Which bytes of the data blocks a write can reach, on a disk in any state: those of the slots of its
inode, also of stale ones, and behind the slots in use those of the blocks whose bit is clear. -/
namespace DimOS.Filesystem.RamDisk
open Lib.ByteMemory
open Cpp
open Cpp.Bitset (bitAt)

def clearBlocks (d : Disk) : List Nat := (List.range d.super.blockCnt).filter (fun b => !bitAt d.data b)

theorem freeFirst (d : Disk) : d.getFreeDataBlock = (clearBlocks d).head? := by
  rw [clearBlocks, List.head?_filter, Disk.getFreeDataBlock]
  congr 1
  funext b
  rw [Bitset.getEq]
  cases bitAt d.data b <;> rfl

theorem clearData {d : Disk} {m : Memory} (same : ∀ b, b < d.super.blockCnt → bitAt m b = bitAt d.data b) :
    clearBlocks { d with data := m } = clearBlocks d :=
  List.filter_congr (fun b mem => by rw [same b (List.mem_range.mp mem)])

theorem clearAttach {d : Disk} {inode b : Nat} (free : d.getFreeDataBlock = some b) :
    clearBlocks (d.attach inode b) = (clearBlocks d).tail := by
  obtain ⟨rest, shape⟩ : ∃ rest, clearBlocks d = b :: rest := by
    rw [freeFirst] at free
    exact ⟨_, (List.head?_eq_some_iff.mp free).choose_spec⟩
  have nodup : (b :: rest).Nodup := by
    rw [← shape]
    exact List.nodup_range.filter _
  have bits : clearBlocks (d.attach inode b) = (clearBlocks d).filter (fun j => j ≠ b) := by
    rw [clearBlocks, clearBlocks, List.filter_filter]
    refine List.filter_congr (fun j _ => ?_)
    show (!bitAt (Bitset.set d.data b true) j) = _
    rw [Bitset.setBit]
    split
    · next same => simp [same]
    · next other => simp [other]
  rw [bits, shape, List.filter_cons_of_neg (by simp), List.tail_cons, List.filter_eq_self]
  intro j mem
  have other : j ≠ b := by
    rintro rfl
    exact (List.nodup_cons.mp nodup).1 mem
  simpa using other

/- The block that a write to the inode puts at slot k, when its loop begins with the slot `first`. -/
def slotThrough (node : Node) (free : List Nat) (first k : Nat) : Option Nat :=
  if first ≤ node.blocksInUse ∧ node.blocksInUse ≤ k then free[k - node.blocksInUse]? else node.dataBlocks k

def Reached (d : Disk) (node : Node) (free : List Nat) (offset size a : Nat) : Prop :=
  ∃ pos b, offset ≤ pos ∧ pos < offset + size ∧ pos < MaxDataBlocks * BlockSize ∧
    slotThrough node free (offset / BlockSize) (pos / BlockSize) = some b ∧ a = d.blockAddr b + pos % BlockSize

theorem reachedCongr {d d' : Disk} {node node' : Node} {free : List Nat} {offset size a : Nat} (super : d'.super = d.super)
    (used : node'.blocksInUse = node.blocksInUse) (slots : node'.dataBlocks = node.dataBlocks) :
    Reached d' node' free offset size a ↔ Reached d node free offset size a := by
  unfold Reached slotThrough
  simp only [used, slots, blockAddrCongr super]

/- The inode has taken the first of the clear blocks, and nothing else of it has changed. -/
structure Grew (inode : Nat) (d out : Disk) : Prop where
  super : out.super = d.super
  others : ∀ i, i ≠ inode → out.nodes i = d.nodes i
  more : (d.nodes inode).blocksInUse ≤ (out.nodes inode).blocksInUse
  free : clearBlocks out = (clearBlocks d).drop ((out.nodes inode).blocksInUse - (d.nodes inode).blocksInUse)
  slots : ∀ k, (out.nodes inode).dataBlocks k =
    if (d.nodes inode).blocksInUse ≤ k ∧ k < (out.nodes inode).blocksInUse
      then (clearBlocks d)[k - (d.nodes inode).blocksInUse]? else (d.nodes inode).dataBlocks k

theorem Grew.refl (inode : Nat) (d : Disk) : Grew inode d d :=
  ⟨rfl, fun _ _ => rfl, Nat.le_refl _, by simp, fun k => by rw [if_neg (by omega)]⟩

theorem Grew.trans {inode : Nat} {d mid out : Disk} (first : Grew inode d mid) (second : Grew inode mid out) :
    Grew inode d out := by
  have before := first.more
  have after := second.more
  refine ⟨second.super.trans first.super, fun i other => (second.others i other).trans (first.others i other),
    by omega, ?_, fun k => ?_⟩
  · rw [second.free, first.free, List.drop_drop]
    congr 1
    omega
  · rw [second.slots, first.free, first.slots, List.getElem?_drop]
    by_cases late : (mid.nodes inode).blocksInUse ≤ k ∧ k < (out.nodes inode).blocksInUse
    · rw [if_pos late, if_pos (by omega)]
      congr 1
      omega
    · rw [if_neg late]
      by_cases early : (d.nodes inode).blocksInUse ≤ k ∧ k < (mid.nodes inode).blocksInUse
      · rw [if_pos early, if_pos (by omega)]
      · rw [if_neg early, if_neg (by omega)]

theorem Grew.slotThrough {inode : Nat} {d out : Disk} (grew : Grew inode d out) {first : Nat}
    (reach : first ≤ (d.nodes inode).blocksInUse) (k : Nat) :
    RamDisk.slotThrough (out.nodes inode) (clearBlocks out) first k =
      RamDisk.slotThrough (d.nodes inode) (clearBlocks d) first k := by
  have more := grew.more
  rw [RamDisk.slotThrough, RamDisk.slotThrough, grew.slots, grew.free, List.getElem?_drop]
  by_cases behind : (out.nodes inode).blocksInUse ≤ k
  · rw [if_pos (by omega), if_pos (by omega)]
    congr 1
    omega
  · rw [if_neg (by omega)]
    by_cases new : (d.nodes inode).blocksInUse ≤ k
    · rw [if_pos (by omega), if_pos (by omega)]
    · rw [if_neg (by omega), if_neg (by omega)]

theorem claimReach {d out : Disk} {inode i : Nat} (valid : d.super.Valid) (ok : d.claimBlock inode i = some out) :
    Grew inode d out ∧ (∀ a, d.super.dataBitsetSize ≤ a → out.data a = d.data a) ∧
      (out.nodes inode).dataBlocks i = slotThrough (d.nodes inode) (clearBlocks d) i i ∧
      ∀ k, i < k → slotThrough (out.nodes inode) (clearBlocks out) (i + 1) k =
        slotThrough (d.nodes inode) (clearBlocks d) i k := by
  unfold Disk.claimBlock at ok
  split at ok
  · next here =>
    obtain ⟨b, free, rfl⟩ := Option.map_eq_some_iff.mp ok
    have inside := (freeBlockSpec free).1
    have tail := @clearAttach d inode b free
    have node : (d.attach inode b).nodes inode = { d.nodes inode with
        dataBlocks := Function.update (d.nodes inode).dataBlocks (d.nodes inode).blocksInUse (some b)
        blocksInUse := (d.nodes inode).blocksInUse + 1 } := by
      simp [Disk.attach, Disk.setNode]
    have head : (clearBlocks d)[0]? = some b := by
      rw [← List.head?_eq_getElem?, ← freeFirst, free]
    refine ⟨⟨rfl, fun i other => Function.update_of_ne other _ d.nodes, by rw [node]; exact Nat.le_succ _, ?_,
      fun k => ?_⟩, fun a above => ?_, ?_, fun k past => ?_⟩
    · rw [tail, node, ← List.drop_one]
      congr 1
      dsimp only
      omega
    · rw [node]
      dsimp only
      by_cases last : k = (d.nodes inode).blocksInUse
      · rw [if_pos (by omega), last, Function.update_self, Nat.sub_self, head]
      · rw [if_neg (by omega), Function.update_of_ne last]
    · refine setByte d.data b true ?_
      unfold Super.Valid at valid
      omega
    · rw [node, slotThrough, here, if_pos (by omega), Nat.sub_self, head]
      exact Function.update_self ..
    · rw [node, slotThrough, slotThrough, tail]
      dsimp only
      rw [if_pos (by omega), if_pos (by omega), List.getElem?_tail]
      congr 1
      omega
  · next elsewhere =>
    cases Option.some.inj ok
    refine ⟨.refl inode d, fun _ _ => rfl, by rw [slotThrough, if_neg (by omega)], fun k past => ?_⟩
    rw [slotThrough, slotThrough]
    by_cases behind : i + 1 ≤ (d.nodes inode).blocksInUse ∧ (d.nodes inode).blocksInUse ≤ k
    · rw [if_pos behind, if_pos (by omega)]
    · rw [if_neg behind, if_neg (by omega)]

theorem writeLoopReach {size offset : Nat} {buffer : Buffer} {inode left : Nat} {d out : Disk}
    {i prevDone written total : Nat} (valid : d.super.Valid) (within : prevDone < BlockSize)
    (place : written < size → offset + written = BlockSize * i + prevDone)
    (ok : Disk.writeLoop inode size buffer left d i prevDone written = some (out, total)) :
    Grew inode d out ∧ ∀ a, d.super.dataBitsetSize ≤ a →
      (∀ pos b, BlockSize * i + prevDone ≤ pos → pos < offset + size →
        slotThrough (d.nodes inode) (clearBlocks d) i (pos / BlockSize) = some b → a ≠ d.blockAddr b + pos % BlockSize) →
      out.data a = d.data a := by
  induction left generalizing d i prevDone written with
  | zero =>
    cases Option.some.inj ok
    exact ⟨.refl inode _, fun _ _ _ => rfl⟩
  | succ left ih =>
    simp only [Disk.writeLoop] at ok
    split at ok
    · next more =>
      split at ok
      · cases Option.some.inj ok
        exact ⟨.refl inode _, fun _ _ _ => rfl⟩
      · next mid claimed =>
        obtain ⟨grew, kept, slot, later⟩ := claimReach valid claimed
        split at ok
        · cases ok
        · next b found =>
          have here := place more
          have below := (fillSpec buffer size (BlockSize - prevDone) mid.data (mid.blockAddr b + prevDone) written).1
          have most := (fillSpec buffer size (BlockSize - prevDone) mid.data (mid.blockAddr b + prevDone) written).2
          have past := fillRest buffer size (BlockSize - prevDone) mid.data (mid.blockAddr b + prevDone) written
          have bound := @fillMost buffer size (BlockSize - prevDone) mid.data (mid.blockAddr b + prevDone) written (by omega)
          generalize Disk.fill buffer size (BlockSize - prevDone) mid.data (mid.blockAddr b + prevDone) written =
            filled at ok below most past bound
          have valid' : mid.super.Valid := grew.super ▸ valid
          have bits := fun j => blockBits valid' below j
          have filledGrew : Grew inode d { mid with data := filled.1 } :=
            ⟨grew.super, grew.others, grew.more, (clearData bits).trans grew.free, grew.slots⟩
          obtain ⟨rest, frame⟩ := @ih { mid with data := filled.1 } (i + 1) 0 filled.2 valid' (by unfold BlockSize; omega)
            (fun less => by
              have := most.2.2 less
              unfold BlockSize at *
              omega) ok
          refine ⟨filledGrew.trans rest, fun a above apart => ?_⟩
          have addr := blockAddrCongr grew.super
          rw [frame a (by rw [grew.super]; exact above) (fun pos b' low high through => ?_), ← kept a above]
          · -- the bytes of this block
            rcases Nat.lt_or_ge a (mid.blockAddr b + prevDone) with less | reach
            · exact below a less
            · by_cases hit : a < mid.blockAddr b + prevDone + (filled.2 - written)
              · have o : a - (mid.blockAddr b + prevDone) < BlockSize - prevDone := by omega
                refine absurd ?_ (apart (BlockSize * i + prevDone + (a - (mid.blockAddr b + prevDone))) b (by omega)
                  (by omega) ?_)
                · rw [← addr b]
                  unfold BlockSize at *
                  omega
                · have block : (BlockSize * i + prevDone + (a - (mid.blockAddr b + prevDone))) / BlockSize = i := by
                    unfold BlockSize at *
                    omega
                  rw [block, ← slot, found]
              · exact past a (by omega)
          · rw [show ({ mid with data := filled.1 } : Disk).blockAddr b' = d.blockAddr b' from addr b']
            have further : i < pos / BlockSize := by
              unfold BlockSize at *
              omega
            refine apart pos b' ?_ high ?_
            · unfold BlockSize at *
              omega
            · rw [← later _ further, ← through, clearData bits]
    · cases Option.some.inj ok
      exact ⟨.refl inode _, fun _ _ _ => rfl⟩

theorem Grew.withNode {inode : Nat} {d out : Disk} (grew : Grew inode d out) {node : Node}
    (used : node.blocksInUse = (out.nodes inode).blocksInUse) (slots : node.dataBlocks = (out.nodes inode).dataBlocks) :
    Grew inode d (out.setNode inode node) := by
  have here : (out.setNode inode node).nodes inode = node := Function.update_self ..
  refine ⟨grew.super, fun i other => ?_, by rw [here, used]; exact grew.more, by rw [here, used]; exact grew.free,
    fun k => by rw [here, used, slots]; exact grew.slots k⟩
  rw [← grew.others i other]
  exact Function.update_of_ne other _ out.nodes

theorem writeReach {d : Disk} {resource : Resource} {offset size : Nat} {buffer : Buffer} {out : Disk.Written}
    (valid : d.super.Valid) (ok : d.write resource offset size buffer = some out) :
    Grew resource.inode d out.disk ∧ out.resource.inode = resource.inode ∧
      ∀ a, d.super.dataBitsetSize ≤ a →
        ¬ Reached d (d.nodes resource.inode) (clearBlocks d) offset size a → out.disk.data a = d.data a := by
  unfold Disk.write at ok
  split at ok
  · cases Option.some.inj ok
    exact ⟨.refl _ _, rfl, fun _ _ _ => rfl⟩
  · next small =>
    simp only at ok
    split at ok
    · cases ok
    · next mid total done =>
      cases Option.some.inj ok
      have place : 0 < min size (MaxDataBlocks * BlockSize - offset) →
          offset + 0 = BlockSize * (offset / BlockSize) + offset % BlockSize :=
        fun _ => (Nat.div_add_mod offset BlockSize).symm
      obtain ⟨grew, frame⟩ := writeLoopReach valid (Nat.mod_lt _ (by unfold BlockSize; omega)) place done
      refine ⟨grew.withNode rfl rfl, rfl, fun a above apart => frame a above (fun pos b low high through same => ?_)⟩
      rw [Nat.div_add_mod] at low
      exact apart ⟨pos, b, low, by omega, by omega, through, same⟩

def openedNode (d : Disk) (type : NodeType) (i : Nat) : Node :=
  if d.getFreeINode = some i then
    ⟨i, type, min 1 (clearBlocks d).length, startSize type, fun k =>
      if k < min 1 (clearBlocks d).length then (clearBlocks d)[k]? else (d.nodes i).dataBlocks k⟩
  else d.nodes i

theorem createReach {d : Disk} {deviceID : Int} {type : NodeType} {out : Disk × VfsNode} (valid : d.super.Valid)
    (ok : d.create deviceID type = some out) :
    out.1.super = d.super ∧ clearBlocks out.1 = (clearBlocks d).tail ∧
      (∀ i, d.getFreeINode ≠ some i → out.1.nodes i = d.nodes i) ∧
      (∀ i, (out.1.nodes i).size = (openedNode d type i).size ∧
        (out.1.nodes i).blocksInUse = (openedNode d type i).blocksInUse ∧
        (out.1.nodes i).dataBlocks = (openedNode d type i).dataBlocks) ∧
      ∀ a, d.super.dataBitsetSize ≤ a →
        (∀ b o, (clearBlocks d).head? = some b → o < BlockSize → a ≠ d.blockAddr b + o) → out.1.data a = d.data a := by
  cases found : d.getFreeINode with
  | none =>
    simp only [Disk.create, found] at ok
    cases ok
  | some inode =>
    have here := freshNode d inode type inode
    have elsewhere : ∀ i, i ≠ inode → (d.setNode inode
        { d.nodes inode with blocksInUse := 0, inode := inode, size := 0, type := type }).nodes i = d.nodes i :=
      fun i other => Function.update_of_ne other _ d.nodes
    rw [if_pos rfl] at here
    simp only [Disk.create, found] at ok
    have clear : clearBlocks (d.setNode inode
        { d.nodes inode with blocksInUse := 0, inode := inode, size := 0, type := type }) = clearBlocks d := rfl
    have super : (d.setNode inode
        { d.nodes inode with blocksInUse := 0, inode := inode, size := 0, type := type }).super = d.super := rfl
    have data : (d.setNode inode
        { d.nodes inode with blocksInUse := 0, inode := inode, size := 0, type := type }).data = d.data := rfl
    generalize d.setNode inode
      { d.nodes inode with blocksInUse := 0, inode := inode, size := 0, type := type } = made
      at ok here elsewhere clear super data
    have number : (made.populateVFSNode deviceID inode).resource.inode = inode := by
      simp [Disk.populateVFSNode, here]
    split at ok
    · cases ok
    · next wrote done =>
      cases Option.some.inj ok
      obtain ⟨grew, -, frame⟩ := writeReach (super ▸ valid) done
      rw [number] at grew frame
      have empty : (made.nodes inode).blocksInUse = 0 := by rw [here]
      have used : (wrote.disk.nodes inode).blocksInUse = min 1 (clearBlocks d).length := by
        rw [← number] at empty ⊢
        cases free : made.getFreeDataBlock with
        | none =>
          obtain ⟨out', again, none', -⟩ := writeNoBlock _ (fun _ => 0#8) empty free
          cases Option.some.inj (done.symm.trans again)
          rw [freeFirst, clear, List.head?_eq_none_iff] at free
          rw [none', free]
          rfl
        | some b =>
          obtain ⟨out', again, one, -⟩ := writeFirstBlock _ (fun _ => 0#8) empty free
          cases Option.some.inj (done.symm.trans again)
          rw [freeFirst, clear] at free
          obtain ⟨rest, shape⟩ := List.head?_eq_some_iff.mp free
          rw [one, shape]
          simp
      have kept : ∀ i, i ≠ inode → (wrote.disk.setNode inode { wrote.disk.nodes inode with
          size := if type = .DIRECTORY then sizeofDirHeader else 0 }).nodes i = d.nodes i := fun i other =>
        (Function.update_of_ne other _ wrote.disk.nodes).trans ((grew.others i other).trans (elsewhere i other))
      refine ⟨grew.super.trans super, ?_, fun i other => kept i (fun same => other (congrArg some same.symm)), fun i => ?_,
        fun a above apart => ?_⟩
      · show clearBlocks wrote.disk = _
        rw [grew.free, used, empty, clear, ← List.drop_one]
        cases clearBlocks d <;> simp
      · by_cases own : i = inode
        · subst own
          rw [openedNode, if_pos found]
          simp only [Disk.setNode, Function.update_self]
          refine ⟨rfl, used, funext fun k => ?_⟩
          rw [grew.slots, empty, used, clear, here, Nat.sub_zero]
          simp only [Nat.zero_le, true_and]
        · rw [kept i own, openedNode, if_neg (fun same => own (Option.some.inj (found.symm.trans same)).symm)]
          exact ⟨rfl, rfl, rfl⟩
      · show wrote.disk.data a = d.data a
        rw [← data]
        refine frame a (super ▸ above) ?_
        rintro ⟨pos, b, -, high, -, through, same⟩
        have block : pos / BlockSize = 0 := Nat.div_eq_of_lt (by omega)
        rw [slotThrough, empty, block, if_pos (by simp), Nat.sub_self, clear, ← List.head?_eq_getElem?] at through
        refine apart b (pos % BlockSize) through (Nat.mod_lt _ (by unfold BlockSize; omega)) ?_
        rw [same, blockAddrCongr super]

theorem writeDirReach {d out : Disk} {vfsNode : VfsNode} {entry : DirEntry} (valid : d.super.Valid)
    (ok : d.writeDir vfsNode [entry] = some out) :
    Grew vfsNode.resource.inode d out ∧ ∀ a, d.super.dataBitsetSize ≤ a →
      ¬ Reached d (d.nodes vfsNode.resource.inode) (clearBlocks d) (d.nodes vfsNode.resource.inode).size sizeofDirEntry a →
      ¬ Reached d (d.nodes vfsNode.resource.inode) (clearBlocks d) 0 sizeofDirHeader a → out.data a = d.data a := by
  unfold Disk.writeDir at ok
  simp only at ok
  split at ok
  · cases ok
  · next mid wrote =>
    obtain ⟨first, number, frame⟩ := writeReach valid wrote
    split at ok
    · cases ok
    · obtain ⟨last, wrote', rfl⟩ := Option.map_eq_some_iff.mp ok
      obtain ⟨second, -, frame'⟩ := writeReach (first.super ▸ valid) wrote'
      rw [number] at second frame'
      refine ⟨first.trans second, fun a above entry header => ?_⟩
      rw [frame' a (first.super ▸ above) ?_]
      · exact frame a above entry
      · rintro ⟨pos, b, low, high, room, through, same⟩
        rw [first.slotThrough (by rw [Nat.zero_div]; exact Nat.zero_le _)] at through
        exact header ⟨pos, b, low, high, room, through, by rw [same, blockAddrCongr first.super]⟩

theorem readLoopSame {d d' : Disk} {inode size left i prevDone done : Nat} {buffer : Buffer}
    (super : d'.super = d.super) (node : d'.nodes inode = d.nodes inode)
    (bytes : ∀ pos b, pos < readable d inode → (d.nodes inode).dataBlocks (pos / BlockSize) = some b →
      d'.data (d.blockAddr b + pos % BlockSize) = d.data (d.blockAddr b + pos % BlockSize))
    (within : prevDone < BlockSize) (blocks : i + left ≤ (d.nodes inode).blocksInUse) (inside : done ≤ size)
    (room : done < size → BlockSize * i + prevDone + (size - done) ≤ (d.nodes inode).size) :
    d'.readLoop inode size left i prevDone buffer done = d.readLoop inode size left i prevDone buffer done := by
  induction left generalizing i prevDone buffer done with
  | zero => rfl
  | succ left ih =>
    simp only [Disk.readLoop, node]
    split
    · next more =>
      split
      · rfl
      · cases slot : (d.nodes inode).dataBlocks i with
        | none => rfl
        | some b =>
          dsimp only
          have big := room more
          obtain ⟨count, shown⟩ := drainSpec d.data size (BlockSize - prevDone) (d.blockAddr b + prevDone) buffer done inside
          obtain ⟨count', shown'⟩ := drainSpec d'.data size (BlockSize - prevDone) (d.blockAddr b + prevDone) buffer done inside
          have same : Disk.drain d'.data size (BlockSize - prevDone) (d.blockAddr b + prevDone) buffer done =
              Disk.drain d.data size (BlockSize - prevDone) (d.blockAddr b + prevDone) buffer done := by
            refine Prod.ext (funext fun k => ?_) (count'.trans count.symm)
            rw [shown, shown']
            split
            · next here =>
              have block : (BlockSize * i + prevDone + (k - done)) / BlockSize = i := by
                unfold BlockSize at *
                omega
              have place : (BlockSize * i + prevDone + (k - done)) % BlockSize = prevDone + (k - done) := by
                unfold BlockSize at *
                omega
              have byte := bytes (BlockSize * i + prevDone + (k - done)) b (by unfold readable BlockSize at *; omega)
                (by rw [block]; exact slot)
              rw [place, ← Nat.add_assoc] at byte
              exact byte
            · rfl
          rw [blockAddrCongr super, same]
          refine ih (by unfold BlockSize; omega) (by omega) (by rw [count]; omega) (fun less => ?_)
          rw [count] at less ⊢
          unfold BlockSize at *
          omega
    · rfl

theorem readSame {d d' : Disk} {resource : Resource} (super : d'.super = d.super)
    (node : d'.nodes resource.inode = d.nodes resource.inode)
    (bytes : ∀ pos b, pos < readable d resource.inode → (d.nodes resource.inode).dataBlocks (pos / BlockSize) = some b →
      d'.data (d.blockAddr b + pos % BlockSize) = d.data (d.blockAddr b + pos % BlockSize)) (offset size : Nat)
    (buffer : Buffer) : d'.read resource offset size buffer = d.read resource offset size buffer := by
  simp only [Disk.read, node]
  split
  · rfl
  · next inside =>
    by_cases behind : (d.nodes resource.inode).blocksInUse ≤ offset / BlockSize
    · rw [Nat.sub_eq_zero_of_le behind]
      rfl
    · refine readLoopSame super node bytes (Nat.mod_lt _ (by unfold BlockSize; omega)) (by omega) (Nat.zero_le _)
        (fun _ => ?_)
      rw [Nat.div_add_mod]
      omega

theorem clearUnmarked {d : Disk} {b : Nat} (mem : b ∈ clearBlocks d) : bitAt d.data b = false := by
  simpa using (List.mem_filter.mp mem).2

theorem reachedOwn {d : Disk} (h : Owned d) {i j k b offset size o : Nat} (live : Live d i) (ref : Refers d j k b)
    (other : j ≠ i) (first : offset / BlockSize ≤ (d.nodes i).blocksInUse) (low : o < BlockSize) :
    ¬ Reached d (d.nodes i) (clearBlocks d).tail offset size (d.blockAddr b + o) := by
  rintro ⟨pos, b', -, -, -, through, same⟩
  have block : b' = b := by
    unfold Disk.blockAddr BlockSize at *
    omega
  subst block
  unfold slotThrough at through
  split at through
  · obtain ⟨inside, slot⟩ := h.slots j k ref.1 ref.2.1
    have unmarked := clearUnmarked (List.mem_of_mem_tail (List.mem_of_getElem? through))
    rw [h.consistent.linked (fun _ => True) |>.marked j k b' trivial ref] at unmarked
    cases unmarked
  · next used =>
    exact other (h.unique j k i _ b' ref ⟨live, by omega, through⟩).1

end DimOS.Filesystem.RamDisk
