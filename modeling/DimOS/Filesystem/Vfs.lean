import Mathlib
import DimOS.Cpp.Containers
import DimOS.Filesystem.RamDisk

/-! vfs::VFS over the abstract class FileSystem. A Node* is the number of the node in the
order of the calls of new, the root is number 0. The virtual calls are a parameter: they act
on the joint state of all mounted file systems, whose objects are numbers too. Every entry
point is one critical section of the mutex but for mnt, which is two of them. -/
namespace DimOS.Filesystem.Vfs
open Cpp.Containers
open RamDisk (NodeType Resource VfsNode DirEntry Buffer)

/- What the source does not guard against. The last one is a virtual call that does not return. -/
inductive Fault where
  | emptyString
  | unterminated
  | nullNode
  | noParent
  | fileSystem
  deriving DecidableEq, Repr

structure FileSystem (σ : Type) where
  create : σ → Nat → NodeType → Option (σ × VfsNode)
  remove : σ → Nat → VfsNode → Option σ
  read : σ → Nat → Resource → Nat → Nat → Buffer → Option (Buffer × Nat)
  write : σ → Nat → Resource → Nat → Nat → Buffer → Option (σ × Resource × Nat)
  readDir : σ → Nat → VfsNode → Option (List DirEntry)
  writeDir : σ → Nat → VfsNode → List DirEntry → Option (σ × VfsNode)
  removeDirEntry : σ → Nat → VfsNode → DirEntry → Option σ
  populateVFSNode : σ → Nat → Int → VfsNode

structure Node where
  name : Chars
  fileSystem : Nat
  info : VfsNode
  children : List Nat
  parent : Option Nat

structure VFS (σ : Type) where
  nodes : Nat → Node
  count : Nat
  disk : σ

def root : Nat := 0

/- The entry is not initialised before the name is copied: `rest` is what the stack held. -/
def fromStringName (rest : Nat → BitVec 8) (name : Chars) (inode : Int) : DirEntry :=
  ⟨fun i => if i < 16 then (name[i]?).getD (rest i) else rest i, inode⟩

section
variable {σ : Type}

namespace VFS

def setNode (v : VFS σ) (id : Nat) (node : Node) : VFS σ :=
  { v with nodes := Function.update v.nodes id node }

def setInfo (v : VFS σ) (id : Nat) (info : VfsNode) : VFS σ :=
  v.setNode id { v.nodes id with info := info }

def setChildren (v : VFS σ) (id : Nat) (children : List Nat) : VFS σ :=
  v.setNode id { v.nodes id with children := children }

def addNode (v : VFS σ) (parent : Nat) (name : Chars) (fileSystem : Nat) (info : VfsNode) : VFS σ :=
  let v' := { v with
    nodes := Function.update v.nodes v.count ⟨name, fileSystem, info, [], some parent⟩
    count := v.count + 1 }
  v'.setChildren parent ((v'.nodes parent).children ++ [v.count])

end VFS

variable (F : FileSystem σ)

/- VFS::VFS. -/
def construct (disk : σ) (fs : Nat) (inode : Int) (name : Chars) : VFS σ :=
  ⟨fun _ => ⟨name, fs, F.populateVFSNode disk fs inode, [], none⟩, 1, disk⟩

def addEntries (parent : Nat) : List DirEntry → VFS σ → Except Fault (VFS σ)
  | [], v => .ok v
  | entry :: entries, v =>
    match cString entry.fileName with
    | none => .error .unterminated
    | some name =>
      let fs := (v.nodes parent).fileSystem
      addEntries parent entries (v.addNode parent name fs (F.populateVFSNode v.disk fs entry.inode))

def addChildren (v : VFS σ) (parent : Nat) : Except Fault (VFS σ) :=
  match F.readDir v.disk (v.nodes parent).fileSystem (v.nodes parent).info with
  | none => .error .fileSystem
  | some dirEntries => addEntries F parent dirEntries v

/- `if (!curr->children.size()) addChildren(curr);` -/
def loadChildren (v : VFS σ) (curr : Nat) : Except Fault (VFS σ) :=
  if (v.nodes curr).children = [] then addChildren F v curr else .ok v

def findChild (v : VFS σ) (curr : Nat) (name : Chars) : Option Nat :=
  (v.nodes curr).children.find? (fun child => (v.nodes child).name == name)

def resolvePathUtil : List Chars → VFS σ → Nat → Except Fault (VFS σ × Option Nat)
  | [], v, curr => .ok (v, some curr)
  | name :: rest, v, curr =>
    match loadChildren F v curr with
    | .error fault => .error fault
    | .ok v =>
      match findChild v curr name with
      | none => .ok (v, none)
      | some child => resolvePathUtil rest v child

def resolvePath (v : VFS σ) (path : Chars) : Except Fault (VFS σ × Option Nat) :=
  match split path slash with
  | [] => .ok (v, none)
  | first :: rest => if first ≠ (v.nodes root).name then .ok (v, none) else resolvePathUtil F rest v root

def openNode (v : VFS σ) (path : Chars) : Except Fault (VFS σ × Option Nat) := resolvePath F v path

def readDir (v : VFS σ) (path : Chars) : Except Fault (VFS σ × List Nat) :=
  match resolvePath F v path with
  | .error fault => .error fault
  | .ok (v, none) => .ok (v, [])
  | .ok (v, some dirNode) => .ok (v, (v.nodes dirNode).children)

def createIn (type : NodeType) (rest : Nat → BitVec 8) (v : VFS σ) (parent : Nat) (name : Chars) :
    Except Fault (VFS σ × Nat) :=
  match F.create v.disk (v.nodes parent).fileSystem type with
  | none => .error .fileSystem
  | some (disk, info) =>
    let v' := { v with disk := disk }.addNode parent name (v.nodes parent).fileSystem info
    match F.writeDir v'.disk (v'.nodes parent).fileSystem (v'.nodes parent).info
        [fromStringName rest name info.resource.inode] with
    | none => .error .fileSystem
    | some (disk, info) => .ok ({ v' with disk := disk }.setInfo parent info, v.count)

def mkNode (type : NodeType) (rest : Nat → BitVec 8) (v : VFS σ) (path : Chars) :
    Except Fault (VFS σ × Option Nat) :=
  match cut path with
  | none => .error .emptyString
  | some (parentPath, name) =>
    match resolvePath F v parentPath with
    | .error fault => .error fault
    | .ok (v, none) => .ok (v, none)
    | .ok (v, some parent) => (createIn F type rest v parent name).map (fun r => (r.1, some r.2))

def mkdir (rest : Nat → BitVec 8) (v : VFS σ) (path : Chars) : Except Fault (VFS σ × Option Nat) :=
  mkNode F .DIRECTORY rest v path

def mkfile (rest : Nat → BitVec 8) (v : VFS σ) (path : Chars) : Except Fault (VFS σ × Option Nat) :=
  mkNode F .FILE rest v path

def mntLocked (v : VFS σ) (path : Chars) (fs : Nat) (inode : Int) :
    Except Fault (VFS σ × Option Nat) :=
  match cut path with
  | none => .error .emptyString
  | some (parentPath, dirName) =>
    match resolvePath F v parentPath with
    | .error fault => .error fault
    | .ok (v, none) => .ok (v, none)
    | .ok (v, some parent) =>
      .ok (v.addNode parent dirName fs (F.populateVFSNode v.disk fs inode), some v.count)

def mnt (v : VFS σ) (path : Chars) (fs : Nat) (inode : Int) : Except Fault (VFS σ × Option Nat) :=
  match openNode F v path with
  | .error fault => .error fault
  | .ok (v, some _) => .ok (v, none)
  | .ok (v, none) => mntLocked F v path fs inode

/- The common end of rmdir and rmfile. The number of the deleted node is not given out again. -/
def removeNode (v : VFS σ) (node : Nat) : Except Fault (VFS σ) :=
  let info := (v.nodes node).info
  match F.remove v.disk (v.nodes node).fileSystem info with
  | none => .error .fileSystem
  | some disk =>
    match (v.nodes node).parent with
    | none => .error .noParent
    | some parent =>
      let children := (v.nodes parent).children
      let v := { v with disk := disk }.setChildren parent (fastErase children (find children node))
      match F.removeDirEntry v.disk (v.nodes parent).fileSystem (v.nodes parent).info
          ⟨fun _ => 0#8, info.resource.inode⟩ with
      | none => .error .fileSystem
      | some disk => .ok { v with disk := disk }

def rmdir (v : VFS σ) (path : Chars) : Except Fault (VFS σ) :=
  match resolvePath F v path with
  | .error fault => .error fault
  | .ok (_, none) => .error .nullNode
  | .ok (v, some node) =>
    if (v.nodes node).children ≠ [] then .ok v
    else if (v.nodes node).info.type ≠ .DIRECTORY then .ok v
    else removeNode F v node

def rmfile (v : VFS σ) (path : Chars) : Except Fault (VFS σ) :=
  match resolvePath F v path with
  | .error fault => .error fault
  | .ok (_, none) => .error .nullNode
  | .ok (v, some node) =>
    if (v.nodes node).info.type ≠ .FILE then .ok v else removeNode F v node

def read (v : VFS σ) (path : Chars) (offset size : Nat) (buffer : Buffer) :
    Except Fault (VFS σ × Buffer) :=
  match resolvePath F v path with
  | .error fault => .error fault
  | .ok (v, none) => .ok (v, buffer)
  | .ok (v, some node) =>
    if (v.nodes node).info.type = .INVALID then .ok (v, buffer)
    else
      match F.read v.disk (v.nodes node).fileSystem (v.nodes node).info.resource offset size buffer with
      | none => .error .fileSystem
      | some (buffer, _) => .ok (v, buffer)

def write (v : VFS σ) (path : Chars) (offset size : Nat) (buffer : Buffer) : Except Fault (VFS σ) :=
  match resolvePath F v path with
  | .error fault => .error fault
  | .ok (v, none) => .ok v
  | .ok (v, some node) =>
    if (v.nodes node).info.type = .INVALID then .ok v
    else
      match F.write v.disk (v.nodes node).fileSystem (v.nodes node).info.resource offset size buffer with
      | none => .error .fileSystem
      | some (disk, resource, _) =>
        .ok ({ v with disk := disk }.setInfo node { (v.nodes node).info with resource := resource })

end

/- FramebuferDevice, the memory behind fb_ptr being its state. create leaves the new Node as
its constructor made it. read and write do not return when the uint32_t counter of their loop cannot
reach the end. -/
def framebufferDevice (deviceID : Int) (fbSize : Nat) : FileSystem Buffer where
  create fb _ _ := some (fb, ⟨.INVALID, ⟨0, 0, 0⟩⟩)
  remove fb _ _ := some fb
  read fb _ _ offset size buffer :=
    let len := min size (((fbSize : Int) - offset) % 2 ^ 64).toNat
    if len = 0 ∨ offset + len < 2 ^ 32 then some (fun k => if k < len then fb (offset + k) else buffer k, len)
    else none
  write fb _ resource offset size buffer :=
    let len := min size (((fbSize : Int) - offset) % 2 ^ 64).toNat
    if len = 0 ∨ offset + len < 2 ^ 32 then
      some (fun k => if offset ≤ k ∧ k < offset + len then buffer (k - offset) else fb k, resource, len)
    else none
  readDir _ _ _ := some []
  writeDir fb _ node _ := some (fb, node)
  removeDirEntry fb _ _ _ := some fb
  populateVFSNode _ _ inode := ⟨.FILE, ⟨inode.toNat, fbSize, deviceID⟩⟩

/- One RamDisk, object number 0, beside the file systems of `G`. writeDir and write leave the
size of the inode in the resource. -/
def withRamDisk {τ : Type} (deviceID : Int) (G : FileSystem τ) : FileSystem (RamDisk.Disk × τ) where
  create s fs type :=
    if fs = 0 then (s.1.create deviceID type).map (fun r => ((r.1, s.2), r.2))
    else (G.create s.2 (fs - 1) type).map (fun r => ((s.1, r.1), r.2))
  remove s fs node :=
    if fs = 0 then (s.1.remove node).map (fun d => (d, s.2))
    else (G.remove s.2 (fs - 1) node).map (fun t => (s.1, t))
  read s fs resource offset size buffer :=
    if fs = 0 then s.1.read resource offset size buffer
    else G.read s.2 (fs - 1) resource offset size buffer
  write s fs resource offset size buffer :=
    if fs = 0 then (s.1.write resource offset size buffer).map (fun w => ((w.disk, s.2), w.resource, w.bytes))
    else (G.write s.2 (fs - 1) resource offset size buffer).map (fun r => ((s.1, r.1), r.2))
  readDir s fs node := if fs = 0 then s.1.readDir node else G.readDir s.2 (fs - 1) node
  writeDir s fs node entries :=
    if fs = 0 then (s.1.writeDir node entries).map (fun d => ((d, s.2), { node with
      resource := { node.resource with size := (d.nodes node.resource.inode).size } }))
    else (G.writeDir s.2 (fs - 1) node entries).map (fun r => ((s.1, r.1), r.2))
  removeDirEntry s fs node entry :=
    if fs = 0 then (s.1.removeDirEntry node entry).map (fun d => (d, s.2))
    else (G.removeDirEntry s.2 (fs - 1) node entry).map (fun t => (s.1, t))
  populateVFSNode s fs inode :=
    if fs = 0 then s.1.populateVFSNode deviceID inode.toNat else G.populateVFSNode s.2 (fs - 1) inode

/- The file systems of the kernel's globalVFS, and that VFS over a disk with a root. -/
def kernelFs (fbSize : Nat) : FileSystem (RamDisk.Disk × Buffer) := withRamDisk 1 (framebufferDevice 2 fbSize)

def globalVFS (fbSize : Nat) (d : RamDisk.Disk) : VFS (RamDisk.Disk × Buffer) :=
  construct (kernelFs fbSize) (d, fun _ => 0#8) 0 0 []

end DimOS.Filesystem.Vfs
