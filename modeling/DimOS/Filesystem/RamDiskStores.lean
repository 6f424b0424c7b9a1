import DimOS.Filesystem.RamDiskFile
import DimOS.Filesystem.Vfs

/-! Through which slots RamDisk::write stores. Its loop allocates a block only where the slot is the
first one not in use, and goes on with the slot as it is where the slot lies behind that. -/
namespace DimOS.Filesystem.RamDisk
open Cpp.Containers (slash)

/- A trip of the outer loop stores at least one byte through its slot. -/
structure Store where
  slot : Nat
  blocksInUse : Nat
  deriving DecidableEq, Repr

/- The outer loop of write once more, with a log of its stores: a null slot is stored through too. -/
def Disk.writeLoopLog (inode size : Nat) (buffer : Buffer) :
    Nat → Disk → Nat → Nat → Nat → Option (Disk × Nat) × List Store
  | 0, d, _, _, bytesWritten => (some (d, bytesWritten), [])
  | left + 1, d, i, prevDoneInBlock, bytesWritten =>
    if bytesWritten < size then
      match d.claimBlock inode i with
      | none => (some (d, bytesWritten), [])
      | some d =>
        let store : Store := ⟨i, (d.nodes inode).blocksInUse⟩
        match (d.nodes inode).dataBlocks i with
        | none => (none, [store])
        | some b =>
          let (m, bytesWritten) := fill buffer size (BlockSize - prevDoneInBlock) d.data
            (d.blockAddr b + prevDoneInBlock) bytesWritten
          let (out, stores) := writeLoopLog inode size buffer left { d with data := m } (i + 1) 0 bytesWritten
          (out, store :: stores)
    else (some (d, bytesWritten), [])

theorem writeLoopLogged (inode size : Nat) (buffer : Buffer) (left : Nat) (d : Disk) (i prevDone written : Nat) :
    (Disk.writeLoopLog inode size buffer left d i prevDone written).1 =
      Disk.writeLoop inode size buffer left d i prevDone written := by
  induction left generalizing d i prevDone written with
  | zero => rfl
  | succ left ih =>
    simp only [Disk.writeLoopLog, Disk.writeLoop]
    split
    · cases d.claimBlock inode i with
      | none => rfl
      | some mid =>
        dsimp only
        cases (mid.nodes inode).dataBlocks i with
        | none => rfl
        | some b => exact ih _ _ _ _
    · rfl

def Disk.stores (d : Disk) (resource : Resource) (offset size : Nat) (buffer : Buffer) : List Store :=
  if offset > MaxDataBlocks * BlockSize then []
  else
    let size := min size (MaxDataBlocks * BlockSize - offset)
    let i := offset / BlockSize
    (writeLoopLog resource.inode size buffer (MaxDataBlocks - i) d i (offset % BlockSize) 0).2

theorem claimUsed {d out : Disk} {inode i : Nat} (reach : i ≤ (d.nodes inode).blocksInUse)
    (ok : d.claimBlock inode i = some out) : i < (out.nodes inode).blocksInUse := by
  unfold Disk.claimBlock at ok
  split at ok
  · next same =>
    obtain ⟨b, -, rfl⟩ := Option.map_eq_some_iff.mp ok
    simp [Disk.attach, Disk.setNode, same]
  · cases Option.some.inj ok
    omega

theorem logOwned {inode size : Nat} {buffer : Buffer} {left : Nat} {d : Disk} {i prevDone written : Nat}
    (reach : i ≤ (d.nodes inode).blocksInUse) {store : Store}
    (mem : store ∈ (Disk.writeLoopLog inode size buffer left d i prevDone written).2) :
    store.slot < store.blocksInUse := by
  induction left generalizing d i prevDone written with
  | zero => cases mem
  | succ left ih =>
    simp only [Disk.writeLoopLog] at mem
    split at mem
    · cases claimed : d.claimBlock inode i with
      | none =>
        rw [claimed] at mem
        cases mem
      | some mid =>
        have used := claimUsed reach claimed
        simp only [claimed] at mem
        cases slot : (mid.nodes inode).dataBlocks i with
        | none =>
          simp only [slot, List.mem_singleton] at mem
          rw [mem]
          exact used
        | some b =>
          simp only [slot, List.mem_cons] at mem
          rcases mem with rfl | rest
          · exact used
          · refine ih ?_ rest
            exact used
    · cases mem

theorem logNothing (inode : Nat) (buffer : Buffer) (left : Nat) (d : Disk) (i prevDone : Nat) :
    (Disk.writeLoopLog inode 0 buffer left d i prevDone 0).2 = [] := by
  cases left with
  | zero => rfl
  | succ left => simp only [Disk.writeLoopLog, Nat.lt_irrefl, if_false]

theorem logAstray {inode size : Nat} (buffer : Buffer) (left : Nat) {d : Disk} {i : Nat} (prevDone : Nat)
    (astray : (d.nodes inode).blocksInUse < i) (more : 0 < size) :
    ⟨i, (d.nodes inode).blocksInUse⟩ ∈ (Disk.writeLoopLog inode size buffer (left + 1) d i prevDone 0).2 := by
  have passed : d.claimBlock inode i = some d := by
    rw [Disk.claimBlock, if_neg (by omega)]
  simp only [Disk.writeLoopLog, if_pos more, passed]
  cases (d.nodes inode).dataBlocks i with
  | none => exact List.mem_singleton_self _
  | some b => exact List.mem_cons_self

/-- RamDisk::write stores only through slots in use exactly when it has nothing to store, or begins
in a block that the inode has or in the one behind its last. -/
theorem storesOwnedIff (d : Disk) (resource : Resource) (offset size : Nat) (buffer : Buffer) :
    (∀ store ∈ d.stores resource offset size buffer, store.slot < store.blocksInUse) ↔
      size = 0 ∨ MaxDataBlocks * BlockSize ≤ offset ∨
        offset / BlockSize ≤ (d.nodes resource.inode).blocksInUse := by
  constructor
  · intro owned
    by_contra bad
    simp only [not_or, Nat.not_le] at bad
    obtain ⟨some, small, astray⟩ := bad
    have blocks : offset / BlockSize < MaxDataBlocks := by
      unfold MaxDataBlocks BlockSize at *
      omega
    obtain ⟨left, count⟩ : ∃ left, MaxDataBlocks - offset / BlockSize = left + 1 :=
      ⟨MaxDataBlocks - offset / BlockSize - 1, by omega⟩
    have first := logAstray buffer left (offset % BlockSize) astray
      (show 0 < min size (MaxDataBlocks * BlockSize - offset) by omega)
    rw [← count] at first
    have inside : d.stores resource offset size buffer =
        (Disk.writeLoopLog resource.inode (min size (MaxDataBlocks * BlockSize - offset)) buffer
          (MaxDataBlocks - offset / BlockSize) d (offset / BlockSize) (offset % BlockSize) 0).2 :=
      if_neg (by omega)
    have slot := owned _ (inside ▸ first)
    dsimp only at slot
    omega
  · intro fine store mem
    unfold Disk.stores at mem
    split at mem
    · cases mem
    · rcases Nat.eq_zero_or_pos (min size (MaxDataBlocks * BlockSize - offset)) with nothing | some
      · simp only [nothing, logNothing] at mem
        cases mem
      · exact logOwned (show offset / BlockSize ≤ (d.nodes resource.inode).blocksInUse by omega) mem

/- mkfile("/a") on a new disk, and a byte for write("/a", 1024, 1, buffer): the file has one block. -/
theorem thirdBlockAstray : ∃ d v node, createRoot 4 8 = some d ∧
    Vfs.mkfile (Vfs.kernelFs 16) (fun _ => 0#8) (Vfs.globalVFS 16 d) [slash, 0x61#8] = .ok (v, some node) ∧
    Live v.disk.1 (v.nodes node).info.resource.inode ∧
    v.disk.1.stores (v.nodes node).info.resource 1024 1 (fun _ => 1#8) = [⟨2, 1⟩] ∧
    ¬ ∀ store ∈ v.disk.1.stores (v.nodes node).info.resource 1024 1 (fun _ => 1#8), store.slot < store.blocksInUse := by
  have stored : ((createRoot 4 8).bind (fun d =>
      (Vfs.mkfile (Vfs.kernelFs 16) (fun _ => 0#8) (Vfs.globalVFS 16 d) [slash, 0x61#8]).toOption.bind (fun r =>
        r.2.map (fun node => ((r.1.nodes node).info.resource.inode, r.1.disk.1.super.iNodeCnt,
          (r.1.disk.1.nodes (r.1.nodes node).info.resource.inode).type,
          r.1.disk.1.stores (r.1.nodes node).info.resource 1024 1 (fun _ => 1#8)))))) =
      some (1, 4, .FILE, [⟨2, 1⟩]) := by
    decide +kernel
  obtain ⟨d, created, made⟩ := Option.bind_eq_some_iff.mp stored
  obtain ⟨⟨v, answer⟩, made, found⟩ := Option.bind_eq_some_iff.mp made
  obtain ⟨node, answered, shown⟩ := Option.map_eq_some_iff.mp found
  simp only [Prod.mk.injEq] at shown
  obtain ⟨inode, count, type, stores⟩ := shown
  dsimp only at answered
  subst answered
  refine ⟨d, v, node, created, ?_, ⟨?_, ?_⟩, stores, ?_⟩
  · cases result : Vfs.mkfile (Vfs.kernelFs 16) (fun _ => 0#8) (Vfs.globalVFS 16 d) [slash, 0x61#8] with
    | error fault =>
      rw [result] at made
      cases made
    | ok r =>
      rw [result] at made
      cases Option.some.inj made
      rfl
  · rw [inode, count]
    omega
  · rw [type]
    simp
  · rw [stores]
    intro owned
    have slot := owned _ (List.mem_singleton_self _)
    dsimp only at slot
    omega

end DimOS.Filesystem.RamDisk
