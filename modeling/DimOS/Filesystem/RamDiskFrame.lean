import DimOS.Filesystem.RamDiskMount

/-! What an operation on one inode leaves alone: the other inodes, the bytes of their blocks,
and every bit that is set. From this, how long a directory without entries stays one. -/
namespace DimOS.Filesystem.RamDisk
open Lib.ByteMemory
open Cpp
open Cpp.Bitset (bitAt)

structure Keeps (inode : Nat) (d d' : Disk) : Prop where
  super : d'.super = d.super
  nodes : ∀ i, i ≠ inode → d'.nodes i = d.nodes i
  bytes : ∀ i k b, i ≠ inode → Refers d i k b → ∀ o, o < BlockSize →
    d'.data (d.blockAddr b + o) = d.data (d.blockAddr b + o)
  taken : ∀ b, b < d.super.blockCnt → bitAt d.data b = true → bitAt d'.data b = true

theorem Keeps.refl (inode : Nat) (d : Disk) : Keeps inode d d :=
  ⟨rfl, fun _ _ => rfl, fun _ _ _ _ _ _ _ => rfl, fun _ _ set => set⟩

theorem Keeps.refers {inode : Nat} {d d' : Disk} (keeps : Keeps inode d d') {i k b : Nat} (other : i ≠ inode) :
    Refers d' i k b ↔ Refers d i k b := by
  unfold Refers Live
  rw [keeps.super, keeps.nodes i other]

theorem Keeps.trans {inode : Nat} {d d' d'' : Disk} (first : Keeps inode d d') (second : Keeps inode d' d'') :
    Keeps inode d d'' where
  super := second.super.trans first.super
  nodes i other := (second.nodes i other).trans (first.nodes i other)
  bytes i k b other ref o low := by
    have same := second.bytes i k b other ((first.refers other).mpr ref) o low
    unfold Disk.blockAddr at same ⊢
    rw [first.super] at same
    exact same.trans (first.bytes i k b other ref o low)
  taken b inside set := second.taken b (first.super ▸ inside) (first.taken b inside set)

theorem keepsNode (d : Disk) (inode : Nat) (node : Node) : Keeps inode d (d.setNode inode node) := by
  refine ⟨rfl, fun i other => ?_, fun _ _ _ _ _ _ _ => rfl, fun _ _ set => set⟩
  exact Function.update_of_ne other node d.nodes

theorem setByte (m : Memory) (idx : Nat) (val : Bool) {a : Nat} (other : idx / 8 ≠ a) :
    Bitset.set m idx val a = m a := by
  apply BitVec.eq_of_getLsbD_eq
  intro k low
  have place : (8 * a + k) / 8 = a ∧ (8 * a + k) % 8 = k := by omega
  have bit := Bitset.setBit m idx val (8 * a + k)
  rw [if_neg (by omega), bitAt, bitAt, place.1, place.2] at bit
  exact bit

theorem keepsAttach {d : Disk} (valid : d.super.Valid) (inode : Nat) {newBlock : Nat}
    (inside : newBlock < d.super.blockCnt) : Keeps inode d (d.attach inode newBlock) := by
  refine ⟨rfl, fun i other => Function.update_of_ne other _ d.nodes, ?_, ?_⟩
  · intro i k b other ref o low
    refine setByte d.data newBlock true ?_
    unfold Super.Valid at valid
    unfold Disk.blockAddr
    omega
  · intro b _ set
    show bitAt (Bitset.set d.data newBlock true) b = true
    rw [Bitset.setBit]
    split
    · rfl
    · exact set

theorem fillAbove (buffer : Buffer) (size left : Nat) (m : Memory) (addr written : Nat) {a : Nat}
    (above : addr + left ≤ a) : (Disk.fill buffer size left m addr written).1 a = m a := by
  induction left generalizing m addr written with
  | zero => rfl
  | succ left ih =>
    simp only [Disk.fill]
    split
    · rw [ih _ _ _ (by omega), Function.update_of_ne (by omega)]
    · rfl

theorem keepsFill {d : Disk} (h : Owned d) {inode k b offset : Nat} (ref : Refers d inode k b) {m : Memory}
    (below : ∀ a, a < d.blockAddr b + offset → m a = d.data a)
    (above : ∀ a, d.blockAddr b + BlockSize ≤ a → m a = d.data a) :
    Keeps inode d { d with data := m } := by
  refine ⟨rfl, fun _ _ => rfl, ?_, ?_⟩
  · intro i k' b' other ref' o low
    have apart : b' ≠ b := by
      rintro rfl
      exact other (h.unique i k' inode k b' ref' ref).1
    rcases Nat.lt_or_gt_of_ne apart with less | greater
    · apply below
      unfold Disk.blockAddr BlockSize at *
      omega
    · apply above
      unfold Disk.blockAddr BlockSize at *
      omega
  · intro j inside set
    show bitAt m j = true
    rw [blockBits h.valid below j inside]
    exact set

theorem keepsClaim {d out : Disk} {inode i : Nat} (h : Owned d) (ok : d.claimBlock inode i = some out) :
    Keeps inode d out := by
  unfold Disk.claimBlock at ok
  split at ok
  · obtain ⟨b, free, made⟩ := Option.map_eq_some_iff.mp ok
    subst made
    exact keepsAttach h.valid inode (freeBlockSpec free).1
  · cases Option.some.inj ok
    exact Keeps.refl _ _

theorem keepsWriteLoop {size : Nat} {buffer : Buffer} {inode left : Nat} {d out : Disk}
    {i prevDone written total : Nat} (h : Owned d) (live : Live d inode) (blocks : i + left = MaxDataBlocks)
    (reach : i ≤ (d.nodes inode).blocksInUse) (within : prevDone < BlockSize)
    (ok : Disk.writeLoop inode size buffer left d i prevDone written = some (out, total)) :
    Keeps inode d out := by
  induction left generalizing d i prevDone written with
  | zero =>
    cases Option.some.inj ok
    exact Keeps.refl _ _
  | succ left ih =>
    simp only [Disk.writeLoop] at ok
    split at ok
    · split at ok
      · cases Option.some.inj ok
        exact Keeps.refl _ _
      · next mid claimed =>
        obtain ⟨owned, shape, -, used⟩ := claimSpec h live reach (by omega) claimed
        have live' := shape.live.mpr live
        obtain ⟨b, -, slot⟩ := owned.slots inode i live' used
        simp only [slot] at ok
        have ref : Refers mid inode i b := ⟨live', used, slot⟩
        have below := (fillSpec buffer size (BlockSize - prevDone) mid.data
          (mid.blockAddr b + prevDone) written).1
        have filled := keepsFill owned ref below (fun a high =>
          fillAbove buffer size (BlockSize - prevDone) mid.data (mid.blockAddr b + prevDone) written
            (by omega))
        have rest := ih (owned.withData (blockBits owned.valid below)) live' (by omega) used
          (by unfold BlockSize; omega) ok
        exact (keepsClaim h claimed).trans (filled.trans rest)
    · cases Option.some.inj ok
      exact Keeps.refl _ _

theorem keepsWrite {size : Nat} {buffer : Buffer} {d : Disk} {resource : Resource} {offset : Nat} {out : Disk.Written}
    (h : Owned d) (live : Live d resource.inode) (inside : offset ≤ (d.nodes resource.inode).size)
    (ok : d.write resource offset size buffer = some out) : Keeps resource.inode d out.disk := by
  unfold Disk.write at ok
  split at ok
  · cases Option.some.inj ok
    exact Keeps.refl _ _
  · next small =>
    have sized := h.sized resource.inode live
    have cap := h.cap resource.inode
    have start : offset / BlockSize ≤ (d.nodes resource.inode).blocksInUse := by
      unfold BlockSize sizeofDirHeader at *
      omega
    simp only at ok
    split at ok
    · cases ok
    · next mid total done =>
      cases Option.some.inj ok
      have loop := keepsWriteLoop h live (by omega) start (Nat.mod_lt _ (by unfold BlockSize; omega)) done
      exact loop.trans (keepsNode mid resource.inode _)

theorem keepsWriteDir {entries : List DirEntry} {d out : Disk} {vfsNode : VfsNode} (h : Owned d)
    (live : Live d vfsNode.resource.inode) (ok : d.writeDir vfsNode entries = some out) :
    Keeps vfsNode.resource.inode d out := by
  unfold Disk.writeDir at ok
  obtain ⟨mid, wrote, owned, shape, inode⟩ := writeSpec
    (entries.length * sizeofDirEntry % 2 ^ 32) (entryBytes entries) h live (Nat.le_refl _)
  have live' : Live mid.disk mid.resource.inode := by
    rw [inode]
    exact shape.live.mpr live
  simp only [wrote] at ok
  split at ok
  · cases ok
  · obtain ⟨last, wrote', rfl⟩ := Option.map_eq_some_iff.mp ok
    have second := keepsWrite owned live' (Nat.zero_le _) wrote'
    rw [inode] at second
    exact (keepsWrite h live (Nat.le_refl _) wrote).trans second

theorem Keeps.freeBefore {inode : Nat} {d d' : Disk} (keeps : Keeps inode d d')
    (free : d'.getFreeDataBlock.isSome) : d.getFreeDataBlock.isSome := by
  obtain ⟨b, found⟩ := Option.isSome_iff_exists.mp free
  obtain ⟨inside, clear⟩ := freeBlockSpec found
  rw [keeps.super] at inside
  apply List.find?_isSome.mpr
  refine ⟨b, List.mem_range.mpr inside, ?_⟩
  rw [Bitset.getEq]
  cases before : bitAt d.data b with
  | false => rfl
  | true =>
    rw [keeps.taken b inside before] at clear
    cases clear

theorem Keeps.live {inode i : Nat} {d d' : Disk} (keeps : Keeps inode d d') (other : i ≠ inode) :
    Live d' i ↔ Live d i := by
  unfold Live
  rw [keeps.super, keeps.nodes i other]

/- The first block of an inode holds zero bytes where a directory has its header. -/
structure NoEntries (d : Disk) (i : Nat) : Prop where
  type : (d.nodes i).type = .DIRECTORY
  size : sizeofDirHeader ≤ (d.nodes i).size
  first : ∃ b, Refers d i 0 b ∧ ∀ o, o < sizeofDirHeader → d.data (d.blockAddr b + o) = 0#8

theorem Keeps.noEntries {inode i : Nat} {d d' : Disk} (keeps : Keeps inode d d') (other : i ≠ inode)
    (none : NoEntries d i) : NoEntries d' i := by
  obtain ⟨b, ref, zero⟩ := none.first
  refine ⟨by rw [keeps.nodes i other]; exact none.type, by rw [keeps.nodes i other]; exact none.size, b,
    (keeps.refers other).mpr ref, fun o low => ?_⟩
  have same := keeps.bytes i 0 b other ref o (by unfold sizeofDirHeader BlockSize at *; omega)
  unfold Disk.blockAddr at same zero ⊢
  rw [keeps.super]
  exact same.trans (zero o low)

theorem drainSpec (m : Memory) (size left : Nat) (addr : Nat) (buffer : Buffer) (done : Nat) (inside : done ≤ size) :
    (Disk.drain m size left addr buffer done).2 = min (done + left) size ∧
      ∀ k, (Disk.drain m size left addr buffer done).1 k =
        if done ≤ k ∧ k < min (done + left) size then m (addr + (k - done)) else buffer k := by
  induction left generalizing addr buffer done with
  | zero =>
    refine ⟨by simp [Disk.drain]; omega, fun k => ?_⟩
    rw [if_neg (by omega)]
    rfl
  | succ left ih =>
    rw [Disk.drain]
    split
    · next more =>
      obtain ⟨count, bytes⟩ := ih (addr + 1) (Function.update buffer done (m addr)) (done + 1) more
      refine ⟨by rw [count]; omega, fun k => ?_⟩
      rw [bytes k]
      by_cases first : k = done
      · subst first
        rw [if_neg (by omega), if_pos (by omega), Function.update_self, Nat.sub_self, Nat.add_zero]
      · rw [Function.update_of_ne first]
        by_cases later : done + 1 ≤ k ∧ k < min (done + 1 + left) size
        · rw [if_pos later, if_pos (by omega)]
          congr 1
          omega
        · rw [if_neg later, if_neg (by omega)]
    · next full =>
      refine ⟨by dsimp only; omega, fun k => ?_⟩
      rw [if_neg (by omega)]

theorem readLoopKeeps {d : Disk} {inode size left i prevDone done : Nat} {buffer : Buffer} {out : Buffer × Nat}
    (inside : done ≤ size) (ok : d.readLoop inode size left i prevDone buffer done = some out) :
    done ≤ out.2 ∧ ∀ k, k < done → out.1 k = buffer k := by
  induction left generalizing i prevDone buffer done with
  | zero =>
    cases Option.some.inj ok
    exact ⟨Nat.le_refl _, fun _ _ => rfl⟩
  | succ left ih =>
    simp only [Disk.readLoop] at ok
    split at ok
    · split at ok
      · cases ok
      · split at ok
        · cases ok
        · next b slot =>
          obtain ⟨count, bytes⟩ := drainSpec d.data size (BlockSize - prevDone)
            (d.blockAddr b + prevDone) buffer done inside
          obtain ⟨more, kept⟩ := ih (by rw [count]; exact Nat.min_le_right _ _) ok
          rw [count] at more kept
          refine ⟨by omega, fun k low => ?_⟩
          rw [kept k (by omega), bytes k, if_neg (by omega)]
    · cases Option.some.inj ok
      exact ⟨Nat.le_refl _, fun _ _ => rfl⟩

theorem readFirst {d : Disk} {resource : Resource} {b size : Nat} {out : Buffer × Nat} (buffer : Buffer)
    (ref : Refers d resource.inode 0 b) (small : size ≤ (d.nodes resource.inode).size)
    (ok : d.read resource 0 size buffer = some out) :
    min BlockSize size ≤ out.2 ∧ ∀ k, k < min BlockSize size → out.1 k = d.data (d.blockAddr b + k) := by
  obtain ⟨-, used, slot⟩ := ref
  simp only [Disk.read, gt_iff_lt, Nat.not_lt_zero, if_false, Nat.sub_zero, Nat.zero_div, Nat.zero_mod] at ok
  rw [Nat.min_eq_left small] at ok
  obtain ⟨left, count⟩ : ∃ left, (d.nodes resource.inode).blocksInUse = left + 1 :=
    ⟨(d.nodes resource.inode).blocksInUse - 1, by omega⟩
  rw [count, Disk.readLoop] at ok
  split at ok
  · rw [if_neg (by unfold MaxDataBlocks; omega)] at ok
    simp only [slot, Nat.sub_zero, Nat.add_zero] at ok
    obtain ⟨bytesRead, bytes⟩ := drainSpec d.data size BlockSize (d.blockAddr b) buffer 0 (Nat.zero_le _)
    rw [Nat.zero_add] at bytesRead bytes
    obtain ⟨more, kept⟩ := readLoopKeeps (by rw [bytesRead]; exact Nat.min_le_right _ _) ok
    rw [bytesRead] at more kept
    refine ⟨more, fun k low => ?_⟩
    rw [kept k low, bytes k, if_pos ⟨Nat.zero_le k, low⟩, Nat.sub_zero]
  · next done =>
    cases Option.some.inj ok
    have none : min BlockSize size = 0 := by omega
    rw [none]
    exact ⟨Nat.le_refl _, fun k low => absurd low (Nat.not_lt_zero k)⟩

theorem readDirNoEntries {d : Disk} (h : Owned d) {vfsNode : VfsNode}
    (none : NoEntries d vfsNode.resource.inode) : d.readDir vfsNode = some [] := by
  obtain ⟨b, ref, zero⟩ := none.first
  obtain ⟨out, ok⟩ := readSome 0 (d.nodes vfsNode.resource.inode).size (fun _ => 0#8) h ref.1
  obtain ⟨enough, bytes⟩ := readFirst (fun _ => 0#8) ref (Nat.le_refl _) ok
  have size := none.size
  have header : ∀ k, k < 4 → out.1 k = 0#8 := by
    intro k low
    rw [bytes k (by unfold BlockSize sizeofDirHeader at *; omega)]
    exact zero k low
  have count : loadInt out.1 0 = 0 := by
    unfold loadInt
    rw [header 0 (by omega), header (0 + 1) (by omega), header (0 + 2) (by omega), header (0 + 3) (by omega)]
    decide
  simp only [Disk.readDir, none.type, ne_eq, not_true_eq_false, if_false, ok]
  rw [if_neg (by unfold BlockSize sizeofDirHeader at *; omega), if_pos count]

def SameKind (d d' : Disk) : Prop :=
  ∀ j, (d'.nodes j).inode = (d.nodes j).inode ∧ (d'.nodes j).type = (d.nodes j).type

theorem SameKind.refl (d : Disk) : SameKind d d := fun _ => ⟨rfl, rfl⟩

theorem SameKind.trans {d d' d'' : Disk} (first : SameKind d d') (second : SameKind d' d'') : SameKind d d'' :=
  fun j => ⟨(second j).1.trans (first j).1, (second j).2.trans (first j).2⟩

theorem sameKindSet {d : Disk} {inode : Nat} {node : Node} (number : node.inode = (d.nodes inode).inode)
    (type : node.type = (d.nodes inode).type) : SameKind d (d.setNode inode node) := by
  intro j
  simp only [Disk.setNode, Function.update_apply]
  split
  · next same =>
    rw [same]
    exact ⟨number, type⟩
  · exact ⟨rfl, rfl⟩

theorem claimKind {d out : Disk} {inode i : Nat} (ok : d.claimBlock inode i = some out) : SameKind d out := by
  unfold Disk.claimBlock at ok
  split at ok
  · obtain ⟨b, -, rfl⟩ := Option.map_eq_some_iff.mp ok
    exact sameKindSet rfl rfl
  · cases Option.some.inj ok
    exact .refl _

theorem writeLoopKind {inode size : Nat} {buffer : Buffer} {left : Nat} {d out : Disk}
    {i prevDone written total : Nat}
    (ok : Disk.writeLoop inode size buffer left d i prevDone written = some (out, total)) : SameKind d out := by
  induction left generalizing d i prevDone written with
  | zero =>
    cases Option.some.inj ok
    exact .refl _
  | succ left ih =>
    simp only [Disk.writeLoop] at ok
    split at ok
    · split at ok
      · cases Option.some.inj ok
        exact .refl _
      · next mid claimed =>
        split at ok
        · cases ok
        · exact (claimKind claimed).trans (fun j => ih ok j)
    · cases Option.some.inj ok
      exact .refl _

theorem writeKind {d : Disk} {resource : Resource} {offset size : Nat} {buffer : Buffer} {out : Disk.Written}
    (ok : d.write resource offset size buffer = some out) : SameKind d out.disk := by
  unfold Disk.write at ok
  split at ok
  · cases Option.some.inj ok
    exact .refl _
  · simp only at ok
    split at ok
    · cases ok
    · next mid total done =>
      cases Option.some.inj ok
      exact (writeLoopKind done).trans (sameKindSet rfl rfl)

theorem writeDirKind {d out : Disk} {vfsNode : VfsNode} {entries : List DirEntry}
    (ok : d.writeDir vfsNode entries = some out) : SameKind d out := by
  simp only [Disk.writeDir] at ok
  split at ok
  · cases ok
  · next mid wrote =>
    split at ok
    · cases ok
    · obtain ⟨last, again, rfl⟩ := Option.map_eq_some_iff.mp ok
      exact (writeKind wrote).trans (writeKind again)

theorem createKeeps {d out : Disk} {deviceID : Int} {type : NodeType} {vfsNode : VfsNode} (h : Owned d)
    (valid : type ≠ .INVALID) (ok : d.create deviceID type = some (out, vfsNode)) :
    ∃ inode, d.getFreeINode = some inode ∧ Owned out ∧ Live out inode ∧ Keeps inode d out ∧
      (out.nodes inode).type = type ∧ (out.nodes inode).inode = inode ∧ vfsNode.type = type ∧
      vfsNode.resource.inode = inode ∧
      (type = .DIRECTORY → d.getFreeDataBlock.isSome → NoEntries out inode) := by
  cases free : d.getFreeINode with
  | none =>
    simp only [Disk.create, free] at ok
    cases ok
  | some inode =>
    obtain ⟨out', vfsNode', ok', owned, live⟩ := createSpec deviceID h free valid
    rw [ok] at ok'
    cases Option.some.inj ok'
    obtain ⟨inside, invalid⟩ := freeINodeSpec free
    have fresh := freshOwned h invalid type
    have first := keepsNode d inode
      { d.nodes inode with blocksInUse := 0, inode := inode, size := 0, type := type }
    simp only [Disk.create, free] at ok
    generalize madeEq : d.setNode inode
      { d.nodes inode with blocksInUse := 0, inode := inode, size := 0, type := type } = made at fresh first ok
    have here : made.nodes inode =
        { d.nodes inode with blocksInUse := 0, inode := inode, size := 0, type := type } := by
      rw [← madeEq]
      simp [Disk.setNode]
    have number : (made.populateVFSNode deviceID inode).resource.inode = inode := by
      simp [Disk.populateVFSNode, here]
    have liveMade : Live made (made.populateVFSNode deviceID inode).resource.inode := by
      rw [number]
      refine ⟨?_, by rw [here]; exact valid⟩
      rw [← madeEq]
      exact inside
    obtain ⟨wrote, done, -, shape, sameInode⟩ := writeSpec BlockSize (fun _ => 0#8) fresh liveMade
      (Nat.zero_le _)
    have second := keepsWrite fresh liveMade (Nat.zero_le _) done
    rw [number] at second sameInode
    simp only [done, Option.some.injEq, Prod.mk.injEq] at ok
    obtain ⟨rfl, rfl⟩ := ok
    refine ⟨inode, rfl, owned, live, first.trans (second.trans (keepsNode wrote.disk inode _)), ?_, ?_,
      ?_, sameInode, ?_⟩
    · have kind := shape.types inode
      rw [here] at kind
      simpa [Disk.setNode] using kind
    · have carried := (writeKind done inode).1
      rw [here] at carried
      simpa [Disk.setNode] using carried
    · simp [Disk.populateVFSNode, here]
    · rintro rfl some
      obtain ⟨b, block⟩ := Option.isSome_iff_exists.mp some
      have blockMade : made.getFreeDataBlock = Option.some b := by
        rw [← madeEq]
        exact block
      obtain ⟨wrote', done', used, slot, bytes⟩ := writeFirstBlock
        (made.populateVFSNode deviceID inode).resource (fun _ => 0#8) (by rw [number, here]) blockMade
      rw [done] at done'
      cases Option.some.inj done'
      rw [number] at used slot
      refine ⟨?_, ?_, b, ⟨live, ?_, ?_⟩, ?_⟩
      · have kind := shape.types inode
        rw [here] at kind
        simpa [Disk.setNode] using kind
      · simp [Disk.setNode]
      · simp [Disk.setNode, used]
      · simp [Disk.setNode, slot]
      · intro o low
        have zero := bytes o (by unfold sizeofDirHeader BlockSize at *; omega)
        unfold Disk.blockAddr at zero ⊢
        rw [show (wrote.disk.setNode inode _).super = made.super from shape.super]
        exact zero

end DimOS.Filesystem.RamDisk
