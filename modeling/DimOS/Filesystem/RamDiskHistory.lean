import DimOS.Filesystem.RamDiskFile

/-! What a file shows of its blocks' past. Only the block that create allocates is cleared; a block
that write allocates keeps what it held. A position is written once a write of the file has stored
there since its creation. -/
namespace DimOS.Filesystem.RamDisk
open Lib.ByteMemory
open Cpp
open Cpp.Bitset (bitAt)
open Lib.Transition (run Visits Guarded)

/- `written` are the positions written since creation, `cleared` the inodes whose creation found a
free block. -/
structure History where
  disk : Disk
  written : Nat → Nat → Bool
  cleared : Nat → Bool

def History.of (d : Disk) : History := ⟨d, fun _ _ => true, fun _ => false⟩

inductive Act where
  | create (deviceID : Int) (type : NodeType)
  | write (resource : Resource) (offset size : Nat) (buffer : Buffer)
  | remove (vfsNode : VfsNode)
  | read (resource : Resource) (offset size : Nat) (buffer : Buffer)

def act (h : History) : Act → Option History
  | .create deviceID type =>
    match h.disk.create deviceID type with
    | none => none
    | some (disk, vfsNode) =>
      some ⟨disk, Function.update h.written vfsNode.resource.inode (fun _ => false),
        Function.update h.cleared vfsNode.resource.inode h.disk.getFreeDataBlock.isSome⟩
  | .write resource offset size buffer =>
    match h.disk.write resource offset size buffer with
    | none => none
    | some out =>
      some { h with
        disk := out.disk
        written := Function.update h.written resource.inode (fun pos =>
          h.written resource.inode pos || (decide (offset ≤ pos) && decide (pos < offset + out.bytes))) }
  | .remove vfsNode => (h.disk.remove vfsNode).map (fun disk => { h with disk := disk })
  | .read resource offset size buffer => (h.disk.read resource offset size buffer).map (fun _ => h)

/- What callers promise, with writes that begin in a block of the file or in the next one. -/
def Addressed (h : History) : Act → Prop
  | .create _ type => type ≠ .INVALID
  | .write resource offset _ _ =>
    Live h.disk resource.inode ∧ offset / BlockSize ≤ (h.disk.nodes resource.inode).blocksInUse
  | .remove vfsNode => Live h.disk vfsNode.resource.inode
  | .read resource _ _ _ => Live h.disk resource.inode

instance (d : Disk) (i : Nat) : Decidable (Live d i) :=
  inferInstanceAs (Decidable (i < d.super.iNodeCnt ∧ (d.nodes i).type ≠ .INVALID))

instance (h : History) (a : Act) : Decidable (Addressed h a) :=
  match a with
  | .create _ type => inferInstanceAs (Decidable (type ≠ .INVALID))
  | .write resource offset _ _ =>
    inferInstanceAs (Decidable (Live h.disk resource.inode ∧
      offset / BlockSize ≤ (h.disk.nodes resource.inode).blocksInUse))
  | .remove vfsNode => inferInstanceAs (Decidable (Live h.disk vfsNode.resource.inode))
  | .read resource _ _ _ => inferInstanceAs (Decidable (Live h.disk resource.inode))

/- A write that skips no byte, or only bytes of a block that create cleared. -/
def Skipless (h : History) : Act → Prop
  | .write resource offset _ _ =>
    (offset ≤ (h.disk.nodes resource.inode).size ∧
      (h.disk.nodes resource.inode).size ≤ BlockSize * (h.disk.nodes resource.inode).blocksInUse) ∨
    (h.cleared resource.inode = true ∧ offset ≤ BlockSize)
  | _ => True

def NoLeak (h : History) : Prop :=
  ∀ resource offset size start, Live h.disk resource.inode → ∃ got,
    h.disk.read resource offset size start = some got ∧
    got.2 = min size (readable h.disk resource.inode - offset) ∧
    ∀ k, k < got.2 → h.written resource.inode (offset + k) = false → got.1 k = 0#8

structure Clean (h : History) : Prop where
  linked : Linked (fun _ => True) h.disk
  shown : ∀ i pos, Live h.disk i → pos < readable h.disk i → h.written i pos = false → byteAt h.disk i pos = 0#8
  first : ∀ i, Live h.disk i → h.cleared i = true →
    1 ≤ (h.disk.nodes i).blocksInUse ∧ (h.disk.nodes i).size ≤ BlockSize * (h.disk.nodes i).blocksInUse ∧
      ∀ pos, pos < BlockSize → h.written i pos = false → byteAt h.disk i pos = 0#8

theorem Clean.noLeak {h : History} (clean : Clean h) : NoLeak h := by
  intro resource offset size start live
  obtain ⟨got, ran, count, bytes⟩ := readSpec clean.linked trivial live offset size start
  refine ⟨got, ran, count, fun k low fresh => ?_⟩
  rw [bytes k, if_pos low]
  exact clean.shown _ _ live (by omega) fresh

theorem freeBlocksNodes {dataBlocks : Nat → Option Nat} {count : Nat} {d out : Disk}
    (ok : Disk.freeBlocks dataBlocks count d = some out) : out.nodes = d.nodes := by
  induction count generalizing out with
  | zero =>
    cases Option.some.inj ok
    rfl
  | succ count ih =>
    simp only [Disk.freeBlocks] at ok
    split at ok
    · contradiction
    · next mid freed =>
      split at ok
      · contradiction
      · obtain ⟨b, -, rfl⟩ := Option.map_eq_some_iff.mp ok
        have kept := ih freed
        exact kept

theorem freeBlocksBytes {dataBlocks : Nat → Option Nat} {count : Nat} {d out : Disk} {a : Nat}
    (ok : Disk.freeBlocks dataBlocks count d = some out)
    (apart : ∀ k b, k < count → dataBlocks k = some b → b / 8 ≠ a) : out.data a = d.data a := by
  induction count generalizing out with
  | zero =>
    cases Option.some.inj ok
    rfl
  | succ count ih =>
    simp only [Disk.freeBlocks] at ok
    cases freed : Disk.freeBlocks dataBlocks count d with
    | none =>
      rw [freed] at ok
      cases ok
    | some mid =>
      simp only [freed] at ok
      split at ok
      · cases ok
      · obtain ⟨b, slot, rfl⟩ := Option.map_eq_some_iff.mp ok
        have before := ih freed (fun k b low => apart k b (by omega))
        rw [← before]
        exact setByte mid.data b false (apart count b (Nat.lt_succ_self count) slot)

theorem removeLinked {d : Disk} {vfsNode : VfsNode} (h : Linked (fun _ => True) d)
    (live : Live d vfsNode.resource.inode) :
    ∃ out, d.remove vfsNode = some out ∧ Linked (fun _ => True) out ∧
      Spares (fun _ => True) vfsNode.resource.inode d out ∧ ¬ Live out vfsNode.resource.inode := by
  generalize inodeEq : vfsNode.resource.inode = inode at live
  obtain ⟨mid, freed, super, nodes, bits⟩ := freeBlocksSpec d (h.cap inode trivial live)
    (fun k below => (h.slots inode k trivial live below).imp (fun b both => both.2))
  have made : d.remove vfsNode = some (mid.freeINode inode) := by
    simp only [Disk.remove, inodeEq, freed, Option.map_some]
  have node : ∀ i, i ≠ inode → (mid.freeINode inode).nodes i = d.nodes i := by
    intro i other
    simp [Disk.freeINode, Disk.setNode, nodes, other]
  have dead : ¬ Live (mid.freeINode inode) inode := by
    intro alive
    apply alive.2
    simp [Disk.freeINode, Disk.setNode]
  have super' : (mid.freeINode inode).super = d.super := super
  have lives : ∀ i, Live (mid.freeINode inode) i → i ≠ inode ∧ Live d i := by
    intro i alive
    have other : i ≠ inode := fun same => dead (same ▸ alive)
    refine ⟨other, super' ▸ alive.1, ?_⟩
    rw [← node i other]
    exact alive.2
  have refers : ∀ i k b, Refers (mid.freeINode inode) i k b → i ≠ inode ∧ Refers d i k b := by
    rintro i k b ⟨alive, below, slot⟩
    obtain ⟨other, was⟩ := lives i alive
    rw [node i other] at below slot
    exact ⟨other, was, below, slot⟩
  refine ⟨_, made, ⟨super'.symm ▸ h.valid, ?_, ?_, ?_, ?_⟩, ⟨super', node, ?_⟩, dead⟩
  · intro i _ alive
    obtain ⟨other, was⟩ := lives i alive
    rw [node i other]
    exact h.cap i trivial was
  · intro i k _ alive below
    obtain ⟨other, was⟩ := lives i alive
    rw [node i other] at below ⊢
    rw [super']
    exact h.slots i k trivial was below
  · intro i k i' k' b _ _ one two
    exact h.unique i k i' k' b trivial trivial (refers i k b one).2 (refers i' k' b two).2
  · intro i k b _ ref
    obtain ⟨other, was⟩ := refers i k b ref
    refine (bits b).mpr ⟨h.marked i k b trivial was, fun k' below slot => ?_⟩
    exact other (h.unique i k inode k' b trivial trivial was ⟨live, below, slot⟩).1
  · intro i k b _ other ref o low
    have same : (mid.freeINode inode).data = mid.data := rfl
    rw [same]
    refine freeBlocksBytes freed (fun k' b' below slot => ?_)
    -- the bits lie in front of the blocks
    obtain ⟨b'', inside, slot'⟩ := h.slots inode k' trivial live below
    cases Option.some.inj (slot.symm.trans slot')
    have valid := h.valid
    unfold Super.Valid at valid
    unfold Disk.blockAddr
    omega

theorem Clean.spared {h h' : History} {inode : Nat} (clean : Clean h) (linked : Linked (fun _ => True) h'.disk)
    (spares : Spares (fun _ => True) inode h.disk h'.disk)
    (written : ∀ i, i ≠ inode → h'.written i = h.written i) (cleared : ∀ i, i ≠ inode → h'.cleared i = h.cleared i)
    (shown : Live h'.disk inode → ∀ pos, pos < readable h'.disk inode → h'.written inode pos = false →
      byteAt h'.disk inode pos = 0#8)
    (first : Live h'.disk inode → h'.cleared inode = true →
      1 ≤ (h'.disk.nodes inode).blocksInUse ∧
        (h'.disk.nodes inode).size ≤ BlockSize * (h'.disk.nodes inode).blocksInUse ∧
        ∀ pos, pos < BlockSize → h'.written inode pos = false → byteAt h'.disk inode pos = 0#8) :
    Clean h' := by
  have lives : ∀ i, i ≠ inode → Live h'.disk i → Live h.disk i := by
    intro i other
    unfold Live
    rw [spares.super, spares.nodes i other]
    exact id
  refine ⟨linked, fun i pos live low fresh => ?_, fun i live clear => ?_⟩
  · by_cases same : i = inode
    · subst same
      exact shown live pos low fresh
    · have was := lives i same live
      rw [readable, spares.nodes i same] at low
      rw [written i same] at fresh
      rw [spares.byteAt clean.linked trivial same was (by omega)]
      exact clean.shown i pos was low fresh
  · by_cases same : i = inode
    · subst same
      exact first live clear
    · have was := lives i same live
      rw [cleared i same] at clear
      obtain ⟨some, sized, zero⟩ := clean.first i was clear
      rw [spares.nodes i same, written i same]
      refine ⟨some, sized, fun pos low fresh => ?_⟩
      have wide := Nat.mul_le_mul_left BlockSize some
      rw [spares.byteAt clean.linked trivial same was (by omega)]
      exact zero pos low fresh

theorem createClean {h : History} (clean : Clean h) (deviceID : Int) {type : NodeType} (valid : type ≠ .INVALID)
    {out : History} (ok : act h (.create deviceID type) = some out) : Clean out := by
  cases free : h.disk.getFreeINode with
  | none =>
    simp only [act, Disk.create, free] at ok
    cases ok
  | some inode =>
    obtain ⟨disk, vfsNode, made, created⟩ := createFile deviceID clean.linked trivial free valid
    simp only [act, made, created.shown.1] at ok
    cases Option.some.inj ok
    refine clean.spared created.linked created.spares (fun i other => Function.update_of_ne other _ _)
      (fun i other => Function.update_of_ne other _ _) ?_ ?_
    · intro _ pos low _
      refine created.zero pos ?_
      unfold readable at low
      dsimp only at low
      omega
    · intro _ clear
      simp only [Function.update_self, Option.isSome_iff_ne_none] at clear
      have some : 1 ≤ (disk.nodes inode).blocksInUse := by
        by_contra none
        exact clear (created.full (by omega))
      have wide := Nat.mul_le_mul_left BlockSize some
      refine ⟨some, ?_, fun pos low _ => created.zero pos (by omega)⟩
      have size := created.size
      unfold startSize sizeofDirHeader at size
      unfold BlockSize at *
      dsimp only
      split at size <;> omega

theorem writeClean {h : History} (clean : Clean h) {resource : Resource} {offset size : Nat} {buffer : Buffer}
    (live : Live h.disk resource.inode) (skipless : Skipless h (.write resource offset size buffer))
    {out : History} (ok : act h (.write resource offset size buffer) = some out) : Clean out := by
  have cap := clean.linked.cap _ trivial live
  have start : offset ≤ BlockSize * (h.disk.nodes resource.inode).blocksInUse ∧
      (h.disk.nodes resource.inode).size ≤ BlockSize * (h.disk.nodes resource.inode).blocksInUse := by
    rcases skipless with ⟨inside, sized⟩ | ⟨clear, inside⟩
    · exact ⟨by omega, sized⟩
    · obtain ⟨some, sized, -⟩ := clean.first _ live clear
      exact ⟨Nat.le_trans inside (Nat.le_mul_of_pos_right _ some), sized⟩
  obtain ⟨wrote, made, file⟩ := writeFile size buffer clean.linked trivial live
    (show offset ≤ MaxDataBlocks * BlockSize by unfold BlockSize at *; omega)
    (show offset / BlockSize ≤ (h.disk.nodes resource.inode).blocksInUse by unfold BlockSize at *; omega)
  simp only [act, made] at ok
  cases Option.some.inj ok
  have grows := Nat.mul_le_mul_left BlockSize file.grows
  have reach := file.reach
  have sized := file.sized
  -- a position that this write did not store, in a block that the file had before
  have kept : ∀ pos, pos < BlockSize * (h.disk.nodes resource.inode).blocksInUse →
      (h.written resource.inode pos || (decide (offset ≤ pos) && decide (pos < offset + wrote.bytes))) = false →
      h.written resource.inode pos = false ∧ byteAt wrote.disk resource.inode pos = byteAt h.disk resource.inode pos := by
    intro pos low fresh
    simp only [Bool.or_eq_false_iff, Bool.and_eq_false_iff, decide_eq_false_iff_not] at fresh
    exact ⟨fresh.1, file.old pos low (by omega)⟩
  refine clean.spared file.linked file.spares (fun i other => Function.update_of_ne other _ _) (fun _ _ => rfl) ?_ ?_
  · intro _ pos low fresh
    simp only [Function.update_self] at fresh
    by_cases stored : offset ≤ pos ∧ pos < offset + wrote.bytes
    · simp [stored.1, stored.2] at fresh
    · unfold readable at low
      dsimp only at low
      have before : pos < BlockSize * (h.disk.nodes resource.inode).blocksInUse := by omega
      obtain ⟨fresh, same⟩ := kept pos before fresh
      rw [same]
      by_cases old : pos < (h.disk.nodes resource.inode).size
      · exact clean.shown _ pos live (by unfold readable; omega) fresh
      · rcases skipless with ⟨inside, -⟩ | ⟨clear, inside⟩
        · omega
        · exact (clean.first _ live clear).2.2 pos (by omega) fresh
  · intro _ clear
    obtain ⟨some, -, zero⟩ := clean.first _ live clear
    have wide := Nat.mul_le_mul_left BlockSize some
    refine ⟨Nat.le_trans some file.grows, by dsimp only; omega, fun pos low fresh => ?_⟩
    simp only [Function.update_self] at fresh
    obtain ⟨fresh, same⟩ := kept pos (by omega) fresh
    rw [same]
    exact zero pos low fresh

theorem actClean {h : History} {a : Act} (clean : Clean h) (fine : Addressed h a ∧ Skipless h a) {out : History}
    (ok : act h a = some out) : Clean out := by
  cases a with
  | create deviceID type => exact createClean clean deviceID fine.1 ok
  | write resource offset size buffer => exact writeClean clean fine.1.1 fine.2 ok
  | remove vfsNode =>
    obtain ⟨disk, made, linked, spares, dead⟩ := removeLinked clean.linked fine.1
    simp only [act, made, Option.map_some] at ok
    cases Option.some.inj ok
    exact clean.spared linked spares (fun _ _ => rfl) (fun _ _ => rfl) (fun live => absurd live dead)
      (fun live => absurd live dead)
  | read resource offset size buffer =>
    obtain ⟨got, -, rfl⟩ := Option.map_eq_some_iff.mp ok
    exact clean

theorem startClean {d : Disk} (linked : Linked (fun _ => True) d) : Clean (.of d) :=
  ⟨linked, fun _ _ _ _ fresh => (by cases fresh), fun _ _ clear => (by cases clear)⟩

/-- Along every run in which no write skips a byte outside the block that create cleared, a byte
that a read delivers was written since the creation of its file, or is zero. -/
theorem skiplessNoLeak {d : Disk} (consistent : Consistent d) {acts : List Act} {h : History}
    (guarded : Guarded act (fun h a => Addressed h a ∧ Skipless h a) (.of d) acts)
    (visited : Visits act (.of d) acts h) : NoLeak h :=
  (Lib.Transition.invariantVisits Clean (fun _ _ _ clean fine ok => actClean clean fine ok)
    (startClean (consistent.linked _)) guarded visited).noLeak

/- A file is written inside its first block, at the end of a gap of zero bytes. -/
theorem skiplessNoLeakGap : ∃ h, run act (.of (zeroed ⟨1, 1, 1⟩))
    [.create 0 .FILE, .write ⟨0, 0, 0⟩ 100 1 (fun _ => 1#8)] = some h ∧ NoLeak h := by
  have valid : (⟨1, 1, 1⟩ : Super).Valid := by simp [Super.Valid]
  have consistent := (zeroedOwned valid).consistent
  have free : (zeroed ⟨1, 1, 1⟩).getFreeINode = some 0 := rfl
  obtain ⟨disk, vfsNode, made, created⟩ := createFile 0 (consistent.linked (fun _ => True)) trivial free
    (show NodeType.FILE ≠ .INVALID by simp)
  have guarded : Guarded act (fun h a => Addressed h a ∧ Skipless h a) (.of (zeroed ⟨1, 1, 1⟩))
      [.create 0 .FILE, .write ⟨0, 0, 0⟩ 100 1 (fun _ => 1#8)] := by
    refine Lib.Transition.guardedConsIff.mpr ⟨⟨by simp [Addressed], trivial⟩, fun mid taken => ?_⟩
    simp only [act, History.of, made, created.shown.1] at taken
    cases Option.some.inj taken
    refine Lib.Transition.guardedConsIff.mpr ⟨⟨⟨created.live, ?_⟩, .inr ⟨?_, ?_⟩⟩, fun last _ => ?_⟩
    · unfold BlockSize
      omega
    · simp only [Function.update_self]
      decide +kernel
    · unfold BlockSize
      omega
    · exact Lib.Transition.guardedNil act _ last
  obtain ⟨h, ran⟩ := Option.isSome_iff_exists.mp (show (run act (.of (zeroed ⟨1, 1, 1⟩))
    [.create 0 .FILE, .write ⟨0, 0, 0⟩ 100 1 (fun _ => 1#8)]).isSome = true by decide +kernel)
  exact ⟨h, ran, skiplessNoLeak consistent guarded ⟨_, [], (List.append_nil _).symm, ran⟩⟩

/- A file leaves a byte in its second block and is removed. The next file gets both blocks, and
writes the byte behind it. -/
def recycling : List Act :=
  [.create 0 .FILE, .write ⟨0, 0, 0⟩ 512 1 (fun _ => 0xAA#8), .remove ⟨.FILE, ⟨0, 0, 0⟩⟩,
    .create 0 .FILE, .write ⟨0, 0, 0⟩ 513 1 (fun _ => 0xBB#8)]

theorem recycledBlockLeaks : Guarded act Addressed (.of (zeroed ⟨1, 1, 2⟩)) recycling ∧
    ∃ h, run act (.of (zeroed ⟨1, 1, 2⟩)) recycling = some h ∧
      512 < (h.disk.nodes 0).size ∧ h.written 0 512 = false ∧
      (h.disk.read ⟨0, 0, 0⟩ 512 1 (fun _ => 0#8)).map (fun got => got.1 0) = some 0xAA#8 ∧ ¬ NoLeak h := by
  have shown : (run act (.of (zeroed ⟨1, 1, 2⟩)) recycling).map (fun h => (decide (Live h.disk 0), (h.disk.nodes 0).size,
      h.written 0 512, (h.disk.read ⟨0, 0, 0⟩ 512 1 (fun _ => 0#8)).map (fun got => (got.1 0, got.2)))) =
      some (true, 514, false, some (0xAA#8, 1)) := by
    decide +kernel
  obtain ⟨h, ran, seen⟩ := Option.map_eq_some_iff.mp shown
  simp only [Prod.mk.injEq, decide_eq_true_eq] at seen
  obtain ⟨live, size, fresh, leaked⟩ := seen
  obtain ⟨got, read, bytes⟩ := Option.map_eq_some_iff.mp leaked
  simp only [Prod.mk.injEq] at bytes
  refine ⟨Lib.Transition.checkedGuarded (by decide +kernel), h, ran, by omega, fresh, ?_, fun clean => ?_⟩
  · rw [read, Option.map_some, bytes.1]
  · obtain ⟨got', read', -, zero⟩ := clean ⟨0, 0, 0⟩ 512 1 (fun _ => 0#8) live
    cases Option.some.inj (read.symm.trans read')
    have clear := zero 0 (by omega) fresh
    rw [bytes.1] at clear
    simp at clear

end DimOS.Filesystem.RamDisk
