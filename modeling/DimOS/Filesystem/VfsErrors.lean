import DimOS.Filesystem.VfsTree

/-! The eight entry points as one function of the call, for every tree, every path and every file system behind
the interface, and when the calls below them return. -/
namespace DimOS.Filesystem.Vfs.Errors
open Cpp.Containers
open RamDisk (NodeType Buffer)

inductive Op where
  | mkdir (path : Chars) (rest : Nat → BitVec 8)
  | mkfile (path : Chars) (rest : Nat → BitVec 8)
  | mnt (path : Chars) (fs : Nat) (inode : Int)
  | rmdir (path : Chars)
  | rmfile (path : Chars)
  | read (path : Chars) (offset size : Nat) (buffer : Buffer)
  | write (path : Chars) (offset size : Nat) (buffer : Buffer)
  | readDir (path : Chars)

section
variable {σ : Type} (F : FileSystem σ)

def outcome (v : VFS σ) : Op → Except Fault (VFS σ)
  | .mkdir path rest => (mkdir F rest v path).map Prod.fst
  | .mkfile path rest => (mkfile F rest v path).map Prod.fst
  | .mnt path fs inode => (mnt F v path fs inode).map Prod.fst
  | .rmdir path => rmdir F v path
  | .rmfile path => rmfile F v path
  | .read path offset size buffer => (read F v path offset size buffer).map Prod.fst
  | .write path offset size buffer => write F v path offset size buffer
  | .readDir path => (readDir F v path).map Prod.fst

/- The lookup of the path returns `found`, with the tree `v'` after what it has cached. -/
def Finds (v : VFS σ) (path : Chars) (v' : VFS σ) (found : Option Nat) : Prop :=
  resolvePath F v path = .ok (v', found)

def Creates (type : NodeType) (rest : Nat → BitVec 8) (v : VFS σ) (parent : Nat) (name : Chars) : Prop :=
  ∃ disk info mid, F.create v.disk (v.nodes parent).fileSystem type = some (disk, info) ∧
    mid = { v with disk := disk }.addNode parent name (v.nodes parent).fileSystem info ∧
    (F.writeDir mid.disk (mid.nodes parent).fileSystem (mid.nodes parent).info
      [fromStringName rest name info.resource.inode]).isSome

/- The node has a parent, and the calls of remove and removeDirEntry return. -/
def Removes (v : VFS σ) (node : Nat) : Prop :=
  ∃ parent disk, (v.nodes node).parent = some parent ∧
    F.remove v.disk (v.nodes node).fileSystem (v.nodes node).info = some disk ∧
    (F.removeDirEntry disk (v.nodes parent).fileSystem (v.nodes parent).info
      ⟨fun _ => 0#8, (v.nodes node).info.resource.inode⟩).isSome

variable {F}

theorem createInReturns {type : NodeType} {rest : Nat → BitVec 8} {v : VFS σ} {parent : Nat} {name : Chars} :
    (∃ out, createIn F type rest v parent name = .ok out) ↔ Creates F type rest v parent name := by
  constructor
  · rintro ⟨⟨v', id⟩, ok⟩
    obtain ⟨-, disk, info, mid, disk', info', created, shape, wrote, -⟩ := createInCases ok
    exact ⟨disk, info, mid, created, shape, by rw [wrote]; rfl⟩
  · rintro ⟨disk, info, mid, created, rfl, wrote⟩
    obtain ⟨⟨disk', info'⟩, wrote⟩ := Option.isSome_iff_exists.mp wrote
    simp only [createIn, created]
    rw [wrote]
    exact ⟨_, rfl⟩

theorem removeNodeReturns {v : VFS σ} {node : Nat} :
    (∃ out, removeNode F v node = .ok out) ↔ Removes F v node := by
  constructor
  · rintro ⟨v', ok⟩
    obtain ⟨parent, disk, disk', up, removed, dropped, -⟩ := removeNodeCases ok
    exact ⟨parent, disk, up, removed, by rw [dropped]; rfl⟩
  · rintro ⟨parent, disk, up, removed, dropped⟩
    obtain ⟨disk', dropped⟩ := Option.isSome_iff_exists.mp dropped
    simp only [removeNode, removed, up, VFS.setChildrenNode, if_true, VFS.setChildrenDisk]
    rw [dropped]
    exact ⟨_, rfl⟩

theorem mapFst {α β : Type} {x : Except Fault (α × β)} {a : α} :
    x.map Prod.fst = .ok a ↔ ∃ b, x = .ok (a, b) := by
  cases x with
  | error fault => simp [Except.map]
  | ok out =>
    obtain ⟨first, second⟩ := out
    simp [Except.map]

theorem rmdirOutcome {v out : VFS σ} {path : Chars} :
    rmdir F v path = .ok out ↔ ∃ v' node, Finds F v path v' (some node) ∧
      (if (v'.nodes node).children ≠ [] ∨ (v'.nodes node).info.type ≠ .DIRECTORY then .ok v'
        else removeNode F v' node) = Except.ok out := by
  unfold rmdir Finds
  cases found : resolvePath F v path with
  | error fault => simp
  | ok r =>
    obtain ⟨v', node⟩ := r
    cases node with
    | none => simp
    | some node =>
      by_cases full : (v'.nodes node).children = [] <;>
        by_cases dir : (v'.nodes node).info.type = .DIRECTORY <;> simp [full, dir]

theorem rmfileOutcome {v out : VFS σ} {path : Chars} :
    rmfile F v path = .ok out ↔ ∃ v' node, Finds F v path v' (some node) ∧
      (if (v'.nodes node).info.type ≠ .FILE then .ok v' else removeNode F v' node) = Except.ok out := by
  unfold rmfile Finds
  cases found : resolvePath F v path with
  | error fault => simp
  | ok r =>
    obtain ⟨v', node⟩ := r
    cases node with
    | none => simp
    | some node => simp

end

end DimOS.Filesystem.Vfs.Errors
