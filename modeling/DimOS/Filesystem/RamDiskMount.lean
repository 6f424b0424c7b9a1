import Mathlib
import DimOS.Filesystem.RamDiskOwnership

/-! What a second mount does to a disk in use. The constructor clears the words of the data
bitset, and the whole of the last one of them, so a disk survives only when nothing is
stored there. -/
namespace DimOS.Filesystem.RamDisk
open Lib.ByteMemory
open Cpp
open Cpp.Bitset (bitAt)
open Lib.Transition (run Guarded guardedConsIff guardedNil)

/- Mounting changes nothing, and the new object offers no block that is in use. -/
def MountPreserves (d : Disk) : Prop :=
  d.mount = d ∧ ∀ b, d.mount.getFreeDataBlock = some b → ∀ i k, ¬ Refers d.mount i k b

/- The bytes the constructor clears are zero, and the first block is not in use. -/
def Blank (d : Disk) : Prop :=
  (∀ a, a < 8 * Bitset.wordCount d.super.dataBitsetSize → d.data a = 0#8) ∧
    (d.super.blockCnt ≠ 0 → ∀ i k, ¬ Refers d i k 0)

theorem mountBit (d : Disk) (j : Nat) : bitAt d.mount.data j =
    if j < 64 * Bitset.wordCount d.super.dataBitsetSize then false else bitAt d.data j :=
  Bitset.bitsetBuiltBit d.data d.super.dataBitsetSize j

theorem zeroByteIff (m : Memory) (a : Nat) :
    m a = 0#8 ↔ ∀ k, k < 8 → bitAt m (8 * a + k) = false := by
  have place : ∀ k, k < 8 → bitAt m (8 * a + k) = (m a).getLsbD k := by
    intro k low
    have byte : (8 * a + k) / 8 = a := by omega
    have offset : (8 * a + k) % 8 = k := by omega
    rw [bitAt, byte, offset]
  constructor
  · intro zero k low
    rw [place k low, zero, BitVec.getLsbD_zero]
  · intro clear
    apply BitVec.eq_of_getLsbD_eq
    intro k low
    rw [← place k low, clear k low, BitVec.getLsbD_zero]

theorem mountSameIff (d : Disk) : d.mount = d ↔
    ∀ a, a < 8 * Bitset.wordCount d.super.dataBitsetSize → d.data a = 0#8 := by
  constructor
  · intro same a inside
    rw [zeroByteIff]
    intro k low
    have bit := mountBit d (8 * a + k)
    rw [if_pos (by omega), same] at bit
    exact bit
  · intro zero
    have same : d.mount.data = d.data := by
      apply Bitset.memoryExt
      intro j
      rw [mountBit]
      split
      · have clear := (zeroByteIff d.data (j / 8)).mp (zero (j / 8) (by omega)) (j % 8)
          (Nat.mod_lt _ (by omega))
        rw [Nat.div_add_mod] at clear
        exact clear.symm
      · rfl
    cases d with
    | mk super nodes data =>
      simp only [Disk.mount] at same ⊢
      rw [same]

theorem Super.Valid.word {s : Super} (valid : s.Valid) (blocks : s.blockCnt ≠ 0) :
    0 < Bitset.wordCount s.dataBitsetSize := by
  unfold Super.Valid at valid
  unfold Bitset.wordCount Bitset.BlockSize
  omega

theorem mountOffersFirst {d : Disk} (valid : d.super.Valid) (blocks : d.super.blockCnt ≠ 0) :
    d.mount.getFreeDataBlock = some 0 := by
  apply List.find?_range_eq_some.mpr
  refine ⟨?_, ?_, fun j below => absurd below (Nat.not_lt_zero j)⟩
  · have word := valid.word blocks
    rw [Bitset.getEq, mountBit, if_pos (by omega)]
    rfl
  · have same : d.mount.super.blockCnt = d.super.blockCnt := rfl
    rw [same]
    exact List.mem_range.mpr (Nat.pos_of_ne_zero blocks)

theorem mountPreservesIff {d : Disk} (valid : d.super.Valid) : MountPreserves d ↔ Blank d := by
  unfold MountPreserves Blank
  rw [mountSameIff]
  refine and_congr_right (fun zero => ?_)
  have same := (mountSameIff d).mpr zero
  constructor
  · intro unused blocks i k ref
    apply unused 0 (mountOffersFirst valid blocks) i k
    rw [same]
    exact ref
  · intro unused b free i k ref
    have blocks : d.super.blockCnt ≠ 0 := by
      have inside := (freeBlockSpec free).1
      have here : d.mount.super.blockCnt = d.super.blockCnt := rfl
      omega
    rw [mountOffersFirst valid blocks] at free
    cases Option.some.inj free
    rw [same] at ref
    exact unused blocks i k ref

theorem claimSuper {d out : Disk} {inode i : Nat} (ok : d.claimBlock inode i = some out) :
    out.super = d.super := by
  unfold Disk.claimBlock at ok
  split at ok
  · obtain ⟨b, -, made⟩ := Option.map_eq_some_iff.mp ok
    rw [← made]
    rfl
  · cases Option.some.inj ok
    rfl

theorem writeLoopSuper {inode size : Nat} {buffer : Buffer} {left : Nat} {d : Disk}
    {i prevDone written : Nat} {out : Disk × Nat}
    (ok : Disk.writeLoop inode size buffer left d i prevDone written = some out) :
    out.1.super = d.super := by
  induction left generalizing d i prevDone written with
  | zero =>
    cases Option.some.inj ok
    rfl
  | succ left ih =>
    simp only [Disk.writeLoop] at ok
    split at ok
    · split at ok
      · cases Option.some.inj ok
        rfl
      · next mid claimed =>
        split at ok
        · contradiction
        · have first := claimSuper claimed
          have rest := ih ok
          exact rest.trans first
    · cases Option.some.inj ok
      rfl

theorem writeSuper {d : Disk} {resource : Resource} {offset size : Nat} {buffer : Buffer}
    {out : Disk.Written} (ok : d.write resource offset size buffer = some out) :
    out.disk.super = d.super := by
  simp only [Disk.write] at ok
  split at ok
  · cases Option.some.inj ok
    rfl
  · split at ok
    · contradiction
    · next mid written done =>
      cases Option.some.inj ok
      exact writeLoopSuper done

theorem freeBlocksSuper {dataBlocks : Nat → Option Nat} {count : Nat} {d out : Disk}
    (ok : Disk.freeBlocks dataBlocks count d = some out) : out.super = d.super := by
  induction count generalizing out with
  | zero =>
    cases Option.some.inj ok
    rfl
  | succ count ih =>
    simp only [Disk.freeBlocks] at ok
    split at ok
    · contradiction
    · next mid freed =>
      split at ok
      · contradiction
      · obtain ⟨b, -, made⟩ := Option.map_eq_some_iff.mp ok
        rw [← made]
        have kept := ih freed
        exact kept

theorem dropInBlocksSuper {dataBlocks : Nat → Option Nat} {inode : Int} {count : Nat}
    {d out : Disk} (ok : Disk.dropInBlocks dataBlocks inode count d = some out) :
    out.super = d.super := by
  induction count generalizing out with
  | zero =>
    cases Option.some.inj ok
    rfl
  | succ count ih =>
    simp only [Disk.dropInBlocks] at ok
    split at ok
    · contradiction
    · next mid dropped =>
      split at ok
      · contradiction
      · obtain ⟨b, -, made⟩ := Option.map_eq_some_iff.mp ok
        rw [← made]
        have kept := ih dropped
        exact kept

theorem createSuperKept {d : Disk} {deviceID : Int} {type : NodeType} {out : Disk × VfsNode}
    (ok : d.create deviceID type = some out) : out.1.super = d.super := by
  simp only [Disk.create] at ok
  split at ok
  · contradiction
  · split at ok
    · contradiction
    · next made wrote =>
      cases Option.some.inj ok
      have kept := writeSuper wrote
      exact kept

theorem writeDirSuper {d out : Disk} {vfsNode : VfsNode} {entries : List DirEntry}
    (ok : d.writeDir vfsNode entries = some out) : out.super = d.super := by
  simp only [Disk.writeDir] at ok
  split at ok
  · contradiction
  · next mid wrote =>
    split at ok
    · contradiction
    · obtain ⟨last, wrote', made⟩ := Option.map_eq_some_iff.mp ok
      rw [← made]
      exact (writeSuper wrote').trans (writeSuper wrote)

theorem stepSuper {d out : Disk} {op : Op} (ok : step d op = some out) : out.super = d.super := by
  cases op with
  | create deviceID type =>
    obtain ⟨made, created, rfl⟩ := Option.map_eq_some_iff.mp ok
    exact createSuperKept created
  | remove vfsNode =>
    obtain ⟨mid, freed, rfl⟩ := Option.map_eq_some_iff.mp ok
    have kept := freeBlocksSuper freed
    exact kept
  | write resource offset size buffer =>
    obtain ⟨made, wrote, rfl⟩ := Option.map_eq_some_iff.mp ok
    exact writeSuper wrote
  | writeDir vfsNode entries => exact writeDirSuper ok
  | removeDirEntry vfsNode entry => exact dropInBlocksSuper ok

theorem runSuper {d out : Disk} {ops : List Op} (ok : run step d ops = some out) :
    out.super = d.super :=
  Lib.Transition.invariantRunAll (fun mid => mid.super = d.super)
    (fun _ _ _ same taken => (stepSuper taken).trans same) rfl ok

theorem fillBytes (buffer : Buffer) (size left : Nat) (m : Memory) (addr written k : Nat) (low : k < left)
    (more : written + k < size) :
    (Disk.fill buffer size left m addr written).1 (addr + k) = buffer (written + k) := by
  induction left generalizing m addr written k with
  | zero => omega
  | succ left ih =>
    rw [Disk.fill, if_pos (by omega)]
    cases k with
    | zero =>
      rw [(fillSpec buffer size left _ (addr + 1) (written + 1)).1 _ (by omega)]
      exact Function.update_self ..
    | succ k =>
      have step := ih (Function.update m addr (buffer written)) (addr + 1) (written + 1) k (by omega) (by omega)
      rw [show addr + 1 + k = addr + (k + 1) by omega,
        show written + 1 + k = written + (k + 1) by omega] at step
      exact step

theorem writeFirstBlock (resource : Resource) (buffer : Buffer) {d : Disk} {b : Nat}
    (empty : (d.nodes resource.inode).blocksInUse = 0) (free : d.getFreeDataBlock = some b) :
    ∃ out, d.write resource 0 BlockSize buffer = some out ∧
      (out.disk.nodes resource.inode).blocksInUse = 1 ∧
      (out.disk.nodes resource.inode).dataBlocks 0 = some b ∧
      ∀ o, o < BlockSize → out.disk.data (d.blockAddr b + o) = buffer o := by
  have claimed : d.claimBlock resource.inode 0 = some (d.attach resource.inode b) := by
    simp only [Disk.claimBlock, empty, if_true, free, Option.map_some]
  have slot : ((d.attach resource.inode b).nodes resource.inode).dataBlocks 0 = some b := by
    simp [Disk.attach, Disk.setNode, empty]
  have used : ((d.attach resource.inode b).nodes resource.inode).blocksInUse = 1 := by
    simp [Disk.attach, Disk.setNode, empty]
  obtain ⟨-, -, most, full⟩ := fillSpec buffer 512 512 (d.attach resource.inode b).data
    ((d.attach resource.inode b).blockAddr b + 0) 0
  have bytes := fillBytes buffer 512 512 (d.attach resource.inode b).data
    ((d.attach resource.inode b).blockAddr b + 0) 0
  generalize filledEq : Disk.fill buffer 512 512 (d.attach resource.inode b).data
    ((d.attach resource.inode b).blockAddr b + 0) 0 = filled at most full bytes
  have all : ¬ filled.2 < 512 := fun more => by
    have := full more
    omega
  have loop : Disk.writeLoop resource.inode 512 buffer 10 d 0 0 0 =
      some ({ d.attach resource.inode b with data := filled.1 }, filled.2) := by
    rw [Disk.writeLoop]
    simp only [Nat.zero_lt_succ, if_true, claimed, slot, BlockSize, Nat.sub_zero, filledEq]
    rw [Disk.writeLoop]
    simp only [all, if_false]
  simp only [Disk.write, BlockSize, MaxDataBlocks, Nat.reduceMul, gt_iff_lt, Nat.not_lt_zero, if_false,
    Nat.sub_zero, Nat.reduceLeDiff, Nat.min_eq_left, Nat.zero_div, Nat.zero_mod, loop]
  refine ⟨_, rfl, ?_, ?_, ?_⟩
  · simpa [Disk.setNode] using used
  · simpa [Disk.setNode] using slot
  · intro o low
    have byte := bytes o low (by omega)
    rw [Nat.zero_add] at byte
    exact byte

/- The disk that createRamdisk mounts a second time: its root directory owns block 0. -/
theorem createRootRefers {nodeCount blockCount : Nat} (nodes : 1 ≤ nodeCount)
    (blocks : 1 ≤ blockCount) :
    ∃ d, createRoot nodeCount blockCount = some d ∧ d.super = createSuper nodeCount blockCount ∧
      Owned d ∧ Refers d 0 0 0 := by
  let super := createSuper nodeCount blockCount
  have valid : super.Valid := by
    simp only [Super.Valid, super, createSuper]
    omega
  have free : (zeroed super).getFreeINode = some 0 := by
    apply List.find?_range_eq_some.mpr
    exact ⟨rfl, List.mem_range.mpr nodes, fun j below => absurd below (Nat.not_lt_zero j)⟩
  obtain ⟨out, vfsNode, made, owned, live⟩ := createSpec 1 (zeroedOwned valid) free
    (show NodeType.DIRECTORY ≠ .INVALID by simp)
  have built : createRoot nodeCount blockCount = some out := by
    unfold createRoot
    rw [mountZeroed]
    simp only [super] at made
    rw [made]
    rfl
  refine ⟨out, built, createSuperKept made, owned, live, ?_⟩
  -- the one write of create, on the fresh inode
  simp only [Disk.create, free] at made
  generalize freshEq : (zeroed super).setNode 0
    { (zeroed super).nodes 0 with blocksInUse := 0, inode := 0, size := 0, type := .DIRECTORY } =
      fresh at made
  have here : fresh.nodes 0 =
      { (zeroed super).nodes 0 with blocksInUse := 0, inode := 0, size := 0, type := .DIRECTORY } := by
    rw [← freshEq]
    simp [Disk.setNode]
  have number : (fresh.populateVFSNode 1 0).resource.inode = 0 := by
    simp [Disk.populateVFSNode, here]
  have first : fresh.getFreeDataBlock = some 0 := by
    apply List.find?_range_eq_some.mpr
    refine ⟨?_, ?_, fun j below => absurd below (Nat.not_lt_zero j)⟩
    · rw [← freshEq, Bitset.getEq]
      simp [bitAt, zeroed, Disk.setNode]
    · rw [← freshEq]
      exact List.mem_range.mpr blocks
  obtain ⟨wrote, done, used, slot, -⟩ := writeFirstBlock (fresh.populateVFSNode 1 0).resource
    (fun _ => 0#8) (by rw [number, here]) first
  rw [number] at used slot
  simp only [done, Option.some.injEq, Prod.mk.injEq] at made
  rw [← made.1]
  simp [Disk.setNode, used, slot]

theorem createRootLoses {nodeCount blockCount : Nat} (nodes : 1 ≤ nodeCount)
    (blocks : 1 ≤ blockCount) :
    ∃ d, createRoot nodeCount blockCount = some d ∧ ¬ MountPreserves d ∧ Refers d.mount 0 0 0 ∧
      d.mount.getFreeDataBlock = some 0 := by
  obtain ⟨d, made, super, owned, ref⟩ := createRootRefers nodes blocks
  have nonzero : d.super.blockCnt ≠ 0 := by
    rw [super]
    exact Nat.ne_of_gt blocks
  refine ⟨d, made, ?_, ref, mountOffersFirst owned.valid nonzero⟩
  intro preserved
  exact ((mountPreservesIff owned.valid).mp preserved).2 nonzero 0 0 ref

/-- A disk in use survives a second mount only while nothing is stored under the words that
the constructor clears. The disk of createRamdisk never does: its root directory is there. -/
theorem mountPreservesExactly (image d : Disk) (ops : List Op) (valid : image.super.Valid)
    (reached : run step image.mount ops = some d) (nodeCount blockCount : Nat) :
    (MountPreserves d ↔ Blank d) ∧
      (1 ≤ nodeCount → 1 ≤ blockCount → ∃ made, createRoot nodeCount blockCount = some made ∧
        createRamdisk nodeCount blockCount = some made.mount ∧ ¬ MountPreserves made) := by
  constructor
  · apply mountPreservesIff
    rw [runSuper reached]
    exact valid
  · intro nodes blocks
    obtain ⟨made, built, lost, -⟩ := createRootLoses nodes blocks
    exact ⟨made, built, by simp only [createRamdisk, built, Option.map_some], lost⟩

/- The kernel's own disk: 50 inodes and 50 blocks. -/
theorem kernelRamdiskLosesRoot : ∃ d, createRoot 50 50 = some d ∧
    createRamdisk 50 50 = some d.mount ∧ ¬ MountPreserves d ∧ Refers d.mount 0 0 0 ∧
      d.mount.getFreeDataBlock = some 0 := by
  obtain ⟨d, made, lost, ref, offered⟩ := createRootLoses (show 1 ≤ 50 by decide)
    (show 1 ≤ 50 by decide)
  exact ⟨d, made, by simp only [createRamdisk, made, Option.map_some], lost, ref, offered⟩

/- An empty disk does survive; one with a root directory does not. -/
/- A file that is made and removed again. -/
def madeAndGone : List Op := [.create 1 .FILE, .remove ⟨.FILE, ⟨0, 0, 1⟩⟩]

theorem mountPreservesEmpty : (∃ d, run step (zeroed ⟨2, 1, 8⟩).mount madeAndGone = some d ∧ MountPreserves d) ∧
    ∃ d, createRoot 1 1 = some d ∧ createRamdisk 1 1 = some d.mount ∧ ¬ MountPreserves d := by
  have valid : (zeroed ⟨2, 1, 8⟩).super.Valid := by simp [Super.Valid, zeroed]
  have facts : (step (zeroed ⟨2, 1, 8⟩) (.create 1 .FILE)).map (fun d => (d.nodes 0).type) = some .FILE ∧
      (run step (zeroed ⟨2, 1, 8⟩) madeAndGone).map (fun d => ((List.range 8).all fun a => d.data a = 0#8, bitAt d.data 0)) =
        some (true, false) := by decide +kernel
  obtain ⟨mid, made, live⟩ := Option.map_eq_some_iff.mp facts.1
  have allowed : Guarded step Allowed (zeroed ⟨2, 1, 8⟩) madeAndGone := by
    refine guardedConsIff.mpr ⟨⟨by decide, by decide⟩, fun t taken => guardedConsIff.mpr ⟨?_, fun u _ => guardedNil _ _ u⟩⟩
    cases Option.some.inj (made.symm.trans taken)
    have here : Live mid 0 := ⟨by rw [stepSuper made]; decide, by rw [live]; decide⟩
    exact here
  obtain ⟨d, reached, owned⟩ : ∃ d, run step (zeroed ⟨2, 1, 8⟩) madeAndGone = some d ∧ Owned d :=
    Lib.Transition.invariantRunTotal Owned (fun _ _ => stepOwned) (zeroedOwned valid) allowed
  have bytes := facts.2
  rw [reached, Option.map_some, Option.some.injEq, Prod.mk.injEq] at bytes
  have super : d.super = ⟨2, 1, 8⟩ := runSuper reached
  have blank : Blank d := by
    refine ⟨fun a low => ?_, fun _ i k ref => ?_⟩
    · rw [super] at low
      exact of_decide_eq_true (List.all_eq_true.mp bytes.1 a (List.mem_range.mpr low))
    · have set := (owned.bits 0 (by rw [super]; decide)).mpr ⟨i, k, ref⟩
      cases bytes.2.symm.trans set
  rw [← mountZeroed] at reached
  obtain ⟨exactly, lost⟩ := mountPreservesExactly (zeroed ⟨2, 1, 8⟩) d madeAndGone valid reached 1 1
  exact ⟨⟨d, reached, exactly.mpr blank⟩, lost (Nat.le_refl 1) (Nat.le_refl 1)⟩

end DimOS.Filesystem.RamDisk
