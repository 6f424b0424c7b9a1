import DimOS.Filesystem.RamDiskReach
import DimOS.Filesystem.VfsHung

/-! What mkdir and mkfile do to the files of the tree. The parent that a path names is used as a directory
whatever its type is. On the RamDisk a creation writes the first clear block, an entry at the end of the parent
and the count at its beginning; a file is changed when it shows one of these bytes. -/
namespace DimOS.Filesystem.Vfs.Files
open Cpp.Containers
open Open (nodeAt inodeOf)
open OnDisk (Linked)
open RamDisk (Disk NodeType VfsNode Resource Buffer Reached clearBlocks openedNode readable)
open Lib.Transition (run)

variable {fbSize : Nat} {v v' : VFS (Disk × Buffer)} {type : NodeType} {rest : Nat → BitVec 8}

/- A node keeps its children, its size, and what each read of it returns. -/
structure SameFile (F : FileSystem (Disk × Buffer)) (v v' : VFS (Disk × Buffer)) (n : Nat) : Prop where
  children : (v'.nodes n).children = (v.nodes n).children
  info : (v'.nodes n).info = (v.nodes n).info
  contents : ∀ offset size buffer,
    F.read v'.disk (v'.nodes n).fileSystem (v'.nodes n).info.resource offset size buffer =
      F.read v.disk (v.nodes n).fileSystem (v.nodes n).info.resource offset size buffer

def FilesKept (F : FileSystem (Disk × Buffer)) (v v' : VFS (Disk × Buffer)) : Prop :=
  ∀ n, Linked v n → (v.nodes n).info.type = .FILE → SameFile F v v' n

def ParentOf (v : VFS (Disk × Buffer)) (path : Chars) (parent : Nat) : Prop :=
  ∃ parentPath name, cut path = some (parentPath, name) ∧ nodeAt v (split parentPath slash) = some parent

def ParentNoFile (v : VFS (Disk × Buffer)) (path : Chars) : Prop :=
  ∀ parent, ParentOf v path parent → (v.nodes parent).info.type ≠ .FILE

/- A creation below inode i writes the byte: in the block that create fills with zeros, in the new entry, or in
the count of the directory. -/
def Writes (d : Disk) (type : NodeType) (i a : Nat) : Prop :=
  (∃ b o, (clearBlocks d).head? = some b ∧ o < RamDisk.BlockSize ∧ a = d.blockAddr b + o) ∨
    Reached d (openedNode d type i) (clearBlocks d).tail (openedNode d type i).size RamDisk.sizeofDirEntry a ∨
    Reached d (openedNode d type i) (clearBlocks d).tail 0 RamDisk.sizeofDirHeader a

/- The inode of the file is neither the one that create takes nor the parent's, and no byte that can be read
from it is written. -/
structure Aside (d : Disk) (type : NodeType) (i j : Nat) : Prop where
  used : d.getFreeINode ≠ some j
  other : j ≠ i
  bytes : ∀ pos b, pos < readable d j → (d.nodes j).dataBlocks (pos / RamDisk.BlockSize) = some b →
    ¬ Writes d type i (d.blockAddr b + pos % RamDisk.BlockSize)

def Undisturbed (v : VFS (Disk × Buffer)) (type : NodeType) (path : Chars) : Prop :=
  ∀ parent, ParentOf v path parent → (v.nodes parent).fileSystem = 0 → ∀ n, Linked v n →
    (v.nodes n).info.type = .FILE → (v.nodes n).fileSystem = 0 → Aside v.disk.1 type (inodeOf v parent) (inodeOf v n)

theorem createInDevice {type : NodeType} {rest : Nat → BitVec 8} {parent id : Nat} {name : Chars}
    (inside : parent < v.count) (device : (v.nodes parent).fileSystem ≠ 0)
    (ok : createIn (kernelFs fbSize) type rest v parent name = .ok (v', id)) : v'.disk = v.disk := by
  obtain ⟨-, disk, info, mid, disk', info', created, shape, wrote, rfl⟩ := createInCases ok
  simp only [kernelFs, withRamDisk, device, if_false, framebufferDevice, Option.map_some, Option.some.injEq,
    Prod.mk.injEq] at created
  obtain ⟨rfl, rfl⟩ := created
  have midDevice : (mid.nodes parent).fileSystem ≠ 0 := by
    rw [shape, (Open.addNodeOld v.disk _ _ inside inside).1]
    exact device
  have midDisk : mid.disk = v.disk := by
    rw [shape]
    rfl
  simp only [kernelFs, withRamDisk, midDevice, if_false, framebufferDevice, Option.map_some, Option.some.injEq,
    Prod.mk.injEq] at wrote
  rw [VFS.setInfoDisk]
  show disk' = v.disk
  rw [← wrote.1, midDisk]


theorem createInAside {parent id j : Nat} {name : Chars} (valid : v.disk.1.super.Valid) (inside : parent < v.count)
    (onDisk : (v.nodes parent).fileSystem = 0) (ok : createIn (kernelFs fbSize) type rest v parent name = .ok (v', id))
    (aside : Aside v.disk.1 type (inodeOf v parent) j) {resource : Resource} (number : resource.inode = j)
    (offset size : Nat) (buffer : Buffer) :
    v'.disk.1.read resource offset size buffer = v.disk.1.read resource offset size buffer := by
  obtain ⟨d₁, info, made, written, -⟩ := createInDisk inside onDisk ok
  obtain ⟨super, clear, others, opened, zeroed⟩ := RamDisk.createReach valid made
  obtain ⟨grew, frame⟩ := RamDisk.writeDirReach (super ▸ valid) written
  obtain ⟨length, used, slots⟩ := opened (inodeOf v parent)
  -- what is reached on the disk that create leaves, told on the disk before it
  have reached : ∀ offset length a,
      Reached d₁ (d₁.nodes (v.nodes parent).info.resource.inode) (clearBlocks d₁) offset length a ↔
        Reached v.disk.1 (openedNode v.disk.1 type (inodeOf v parent)) (clearBlocks v.disk.1).tail offset length a := by
    intro offset length a
    rw [← clear]
    exact RamDisk.reachedCongr super used slots
  refine RamDisk.readSame (grew.super.trans super) ?_ (fun pos b low slot => ?_) offset size buffer
  · rw [number]
    exact (grew.others j aside.other).trans (others j aside.used)
  · rw [number] at low slot
    have free := aside.bytes pos b low slot
    have above : v.disk.1.super.dataBitsetSize ≤ v.disk.1.blockAddr b + pos % RamDisk.BlockSize := by
      unfold Disk.blockAddr
      omega
    refine (frame _ (super ▸ above) ?_ ?_).trans (zeroed _ above ?_)
    · rw [reached]
      exact fun hit => free (.inr (.inl (length ▸ hit)))
    · rw [reached]
      exact fun hit => free (.inr (.inr hit))
    · exact fun b' o head inside same => free (.inl ⟨b', o, head, inside, same⟩)

theorem createInFile {parent id n : Nat} {name : Chars} (h : Hung v) (valid : v.disk.1.super.Valid)
    (linked : Linked v parent) (noFile : (v.nodes parent).info.type ≠ .FILE) (ok : createIn (kernelFs fbSize) type rest v parent name = .ok (v', id))
    (here : Linked v n) (file : (v.nodes n).info.type = .FILE)
    (aside : (v.nodes parent).fileSystem = 0 → (v.nodes n).fileSystem = 0 →
      Aside v.disk.1 type (inodeOf v parent) (inodeOf v n)) : SameFile (kernelFs fbSize) v v' n := by
  have inside := h.linked linked
  have other : n ≠ parent := by
    rintro rfl
    exact noFile file
  have node := (createInNodes inside ok).1 n (h.linked here) other
  refine ⟨by rw [node], by rw [node], fun offset size buffer => ?_⟩
  rw [node]
  by_cases onDisk : (v.nodes parent).fileSystem = 0
  · by_cases mine : (v.nodes n).fileSystem = 0
    · simp only [kernelFs, withRamDisk, mine, if_true]
      exact createInAside valid inside onDisk ok (aside onDisk mine) rfl offset size buffer
    · obtain ⟨-, -, -, -, -, -, -, -, device⟩ := createInDisk inside onDisk ok
      simp only [kernelFs, withRamDisk, mine, if_false, device]
  · rw [createInDevice inside onDisk ok]

theorem mkNodeKept {path : Chars} {r : Option Nat} (h : Hung v) (valid : v.disk.1.super.Valid)
    (ok : mkNode (kernelFs fbSize) type rest v path = .ok (v', r)) :
    (ParentNoFile v path ∧ Undisturbed v type path → FilesKept (kernelFs fbSize) v v') ∧
      (FilesKept (kernelFs fbSize) v v' → ParentNoFile v path) := by
  obtain ⟨parentPath, name, v₁, shape, outcome⟩ := mkNodeCases ok
  rcases outcome with ⟨missing, rfl, -⟩ | ⟨parent, id, found, made, -⟩
  · obtain ⟨rfl, none⟩ := resolveStays missing
    refine ⟨fun _ n _ _ => ⟨rfl, rfl, fun _ _ _ => rfl⟩, ?_⟩
    rintro - parent ⟨parentPath', name', shape', at'⟩
    cases Option.some.inj (shape.symm.trans shape')
    rw [at'] at none
    cases none
  · obtain ⟨rfl, at'⟩ := resolveStays found
    have linked := nodeAtLinked at'.symm
    have above : ParentOf v₁ path parent := ⟨parentPath, name, shape, at'.symm⟩
    constructor
    · rintro ⟨noFile, undisturbed⟩ n here file
      exact createInFile h valid linked (noFile parent above) made here file
        (fun onDisk mine => undisturbed parent above onDisk n here file mine)
    · rintro kept parent' ⟨parentPath', name', shape', at''⟩ file
      cases Option.some.inj (shape.symm.trans shape')
      cases Option.some.inj (at'.trans at'')
      have same := (kept parent linked file).children
      rw [(createInNodes (h.linked linked) made).2] at same
      simp at same

/-- In every state that runs reach, mkdir and mkfile leave every file as it was, without children as well, when
the parent that the path names is no file and no file shows a byte that the creation writes; and they do not
when the parent is a file. -/
theorem filesKeptIff {path : Chars} {r : Option Nat} (h : Standing v)
    (ok : (mkdir (kernelFs fbSize) rest v path = .ok (v', r) ∧ type = .DIRECTORY) ∨
      (mkfile (kernelFs fbSize) rest v path = .ok (v', r) ∧ type = .FILE)) :
    (ParentNoFile v path ∧ Undisturbed v type path → FilesKept (kernelFs fbSize) v v') ∧
      (FilesKept (kernelFs fbSize) v v' → ParentNoFile v path) := by
  rcases ok with ⟨made, rfl⟩ | ⟨made, rfl⟩
  · exact mkNodeKept h.1 h.2.valid made
  · exact mkNodeKept h.1 h.2.valid made

/- On the kernel's disk: mkdir("/d"), mkfile("/f") and three bytes in it, then mkdir("/e"). -/
theorem filesKeptBeside : ∃ d v v' r, RamDisk.createRamdisk 4 8 = some d ∧
    run (step 16) (globalVFS 16 d) [.mkdir [slash, 0x64#8] (fun _ => 0#8), .mkfile [slash, 0x66#8] (fun _ => 0#8),
      .write [slash, 0x66#8] 0 3 (fun _ => 0x78#8)] = some v ∧
    mkdir (kernelFs 16) (fun _ => 0#8) v [slash, 0x65#8] = .ok (v', r) ∧ FilesKept (kernelFs 16) v v' ∧
    (v.nodes 2).info.type = .FILE ∧ readable v.disk.1 2 = 3 := by
  have facts : ((RamDisk.createRamdisk 4 8).bind (fun d =>
      (run (step 16) (globalVFS 16 d) [.mkdir [slash, 0x64#8] (fun _ => 0#8), .mkfile [slash, 0x66#8] (fun _ => 0#8),
        .write [slash, 0x66#8] 0 3 (fun _ => 0x78#8)]).bind (fun v =>
        (mkdir (kernelFs 16) (fun _ => 0#8) v [slash, 0x65#8]).toOption.map (fun _ =>
          (cut [slash, 0x65#8],
            [nodeAt v (split [slash] slash), v.disk.1.getFreeINode, (clearBlocks v.disk.1).head?,
              (v.disk.1.nodes 0).dataBlocks 0, (v.disk.1.nodes 2).dataBlocks 0],
            [v.count, inodeOf v 0, inodeOf v 2, (v.disk.1.nodes 0).size, (v.disk.1.nodes 0).blocksInUse, readable v.disk.1 2],
            (List.range 3).map (fun n => (v.nodes n).info.type)))))) =
      some (some ([slash], [0x65#8]), [some 0, some 3, some 2, some 0, some 1], [3, 0, 2, 44, 1, 3],
        [.DIRECTORY, .DIRECTORY, .FILE]) := by
    decide +kernel
  obtain ⟨d, created, facts⟩ := Option.bind_eq_some_iff.mp facts
  obtain ⟨v, ran, facts⟩ := Option.bind_eq_some_iff.mp facts
  obtain ⟨⟨v', r⟩, made, facts⟩ := Option.map_eq_some_iff.mp facts
  simp only [Prod.mk.injEq, List.cons.injEq, and_true] at facts
  obtain ⟨shape, ⟨at', free, head, rootSlot, fileSlot⟩, ⟨count, rootInode, fileInode, size, used, bytes⟩, types⟩ := facts
  obtain ⟨type₀, type₁, type₂⟩ : (v.nodes 0).info.type = .DIRECTORY ∧ (v.nodes 1).info.type = .DIRECTORY ∧
      (v.nodes 2).info.type = .FILE := by
    simpa [List.range_succ] using types
  have ok := toOptionOk made
  have standing := reachedStanding created ran
  have below : ∀ parent, ParentOf v [slash, 0x65#8] parent → parent = 0 := by
    rintro parent ⟨parentPath, name, shape', at''⟩
    cases Option.some.inj (shape.symm.trans shape')
    exact (Option.some.inj (at'.symm.trans at'')).symm
  have only : ∀ n, Linked v n → (v.nodes n).info.type = .FILE → n = 2 := by
    intro n here file
    have low := standing.1.linked here
    rw [count] at low
    interval_cases n <;> simp_all
  -- what is written in the root's block is not in the file's
  have apart : ∀ offset length pos, offset < 512 → offset + length ≤ 512 → pos < 512 →
      ¬ Reached v.disk.1 (v.disk.1.nodes 0) (clearBlocks v.disk.1).tail offset length (v.disk.1.blockAddr 1 + pos) := by
    rintro offset length pos low high inside ⟨pos', b, -, past, -, through, same⟩
    rw [RamDisk.slotThrough, used, Nat.div_eq_of_lt (show pos' < RamDisk.BlockSize by unfold RamDisk.BlockSize; omega),
      if_neg (by omega), rootSlot] at through
    cases through
    unfold Disk.blockAddr RamDisk.BlockSize at same
    omega
  have undisturbed : Undisturbed v .DIRECTORY [slash, 0x65#8] := by
    intro parent above _ n here file _
    rw [below parent above, only n here file, rootInode, fileInode]
    refine ⟨by rw [free]; decide, by decide, fun pos b low slot writes => ?_⟩
    rw [bytes] at low
    have place : pos / RamDisk.BlockSize = 0 ∧ pos % RamDisk.BlockSize = pos := by
      unfold RamDisk.BlockSize
      omega
    rw [place.1, fileSlot] at slot
    cases slot
    rw [place.2, Writes, RamDisk.openedNode, if_neg (by rw [free]; decide), head, size] at writes
    rcases writes with ⟨b', o, found, inside, same⟩ | reached | reached
    · cases found
      unfold Disk.blockAddr RamDisk.BlockSize at *
      omega
    · exact apart _ _ pos (by decide) (by decide) (by omega) reached
    · exact apart _ _ pos (by decide) (by decide) (by omega) reached
  refine ⟨d, v, v', r, created, ran, ok, (filesKeptIff standing (.inl ⟨ok, rfl⟩)).1 ⟨fun parent above => ?_, undisturbed⟩,
    type₂, bytes⟩
  rw [below parent above, type₀]
  decide

/- mkfile("/f") and then mkfile("/f/x"): the file has a child, and the entry of the child was written into it. -/
theorem fileTakenAsParent : ∃ d v₁ v₂ r, RamDisk.createRoot 4 8 = some d ∧
    mkfile (kernelFs 16) (fun _ => 0#8) (globalVFS 16 d) [slash, 0x66#8] = .ok (v₁, some 1) ∧
    mkfile (kernelFs 16) (fun _ => 0#8) v₁ [slash, 0x66#8, slash, 0x78#8] = .ok (v₂, r) ∧
    (v₁.nodes 1).info.type = .FILE ∧ (v₁.nodes 1).children = [] ∧ (v₂.nodes 1).children = [2] ∧
    (v₁.nodes 1).info.resource.size = 0 ∧ (v₂.nodes 1).info.resource.size = 20 ∧
    ¬ FilesKept (kernelFs 16) v₁ v₂ := by
  have facts : ((RamDisk.createRoot 4 8).bind (fun d =>
      (mkfile (kernelFs 16) (fun _ => 0#8) (globalVFS 16 d) [slash, 0x66#8]).toOption.bind (fun one =>
        (mkfile (kernelFs 16) (fun _ => 0#8) one.1 [slash, 0x66#8, slash, 0x78#8]).toOption.map (fun two =>
          (one.2, (one.1.nodes 1).info.type,
            [(one.1.nodes 0).children, (one.1.nodes 1).children, (two.1.nodes 1).children],
            [(one.1.nodes 1).info.resource.size, (two.1.nodes 1).info.resource.size]))))) =
      some (some 1, .FILE, [[1], [], [2]], [0, 20]) := by
    decide +kernel
  obtain ⟨d, created, facts⟩ := Option.bind_eq_some_iff.mp facts
  obtain ⟨⟨v₁, n⟩, first, facts⟩ := Option.bind_eq_some_iff.mp facts
  obtain ⟨⟨v₂, r⟩, second, facts⟩ := Option.map_eq_some_iff.mp facts
  simp only [Prod.mk.injEq, List.cons.injEq, and_true] at facts
  obtain ⟨rfl, file, ⟨child, none, grown⟩, empty, written⟩ := facts
  refine ⟨d, v₁, v₂, r, created, toOptionOk first, toOptionOk second, file, none, grown, empty, written, ?_⟩
  intro kept
  have same := (kept 1 (.inr ⟨0, by rw [child]; simp⟩) file).children
  rw [grown, none] at same
  cases same

end DimOS.Filesystem.Vfs.Files
