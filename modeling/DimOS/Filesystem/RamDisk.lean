import Mathlib
import DimOS.Cpp.Bitset

/-! fs::RamDisk over its image: super block, inodes, and the memory that starts at the data
bitset and goes on with the data blocks. A pointer to a data block is the number of the
block, null is none. An operation is none where the source follows a null pointer, indexes
dataBlocks out of bounds, writes nodes[-1], fails an assertion or ends without its return. -/
namespace DimOS.Filesystem.RamDisk
open Lib.ByteMemory
open Cpp

def BlockSize : Nat := 512
def MaxDataBlocks : Nat := 10
def sizeofDirHeader : Nat := 4
def sizeofDirEntry : Nat := 20

inductive NodeType where
  | INVALID
  | FILE
  | DIRECTORY
  deriving DecidableEq, Repr

structure Super where
  iNodeCnt : Nat
  dataBitsetSize : Nat
  blockCnt : Nat
  deriving DecidableEq, Repr

structure Node where
  inode : Nat
  type : NodeType
  blocksInUse : Nat
  size : Nat
  dataBlocks : Nat → Option Nat

structure Disk where
  super : Super
  nodes : Nat → Node
  data : Memory

structure Resource where
  inode : Nat
  size : Nat
  deviceID : Int

/- The part of vfs::Node that a file system fills in. -/
structure VfsNode where
  type : NodeType
  resource : Resource

structure DirEntry where
  fileName : Nat → BitVec 8
  inode : Int

abbrev Buffer := Nat → BitVec 8

def loadInt (m : Memory) (a : Nat) : Int := (m (a + 3) ++ m (a + 2) ++ m (a + 1) ++ m a : BitVec 32).toInt

def storeInt (m : Memory) (a : Nat) (v : Int) : Memory := fun k =>
  if a ≤ k ∧ k < a + 4 then (BitVec.ofInt 32 v).extractLsb' (8 * (k - a)) 8 else m k

def entryBytes (entries : List DirEntry) : Buffer := fun k =>
  match entries[k / sizeofDirEntry]? with
  | none => 0#8
  | some e =>
    if k % sizeofDirEntry < 16 then e.fileName (k % sizeofDirEntry)
    else storeInt (fun _ => 0#8) 16 e.inode (k % sizeofDirEntry)

namespace Disk

def blockAddr (d : Disk) (b : Nat) : Nat := d.super.dataBitsetSize + BlockSize * b

def setNode (d : Disk) (inode : Nat) (node : Node) : Disk :=
  { d with nodes := Function.update d.nodes inode node }

/- RamDisk::RamDisk: a Bitset is built over the region and assigned to dataBitset. -/
def mount (d : Disk) : Disk :=
  let size := d.super.dataBitsetSize
  { d with data := Bitset.bitsetAssign (Bitset.bitsetNew d.data size) size }

def getFreeDataBlock (d : Disk) : Option Nat :=
  (List.range d.super.blockCnt).find? (fun i => Bitset.get d.data i != true)

def getFreeINode (d : Disk) : Option Nat :=
  (List.range d.super.iNodeCnt).find? (fun i => (d.nodes i).type == .INVALID)

def freeINode (d : Disk) (inode : Nat) : Disk :=
  d.setNode inode { d.nodes inode with type := .INVALID }

def freeDataBlock (d : Disk) (block : Nat) : Disk :=
  { d with data := Bitset.set d.data block false }

def populateVFSNode (d : Disk) (deviceID : Int) (inode : Nat) : VfsNode :=
  let node := d.nodes inode
  ⟨node.type, ⟨node.inode, node.size, deviceID⟩⟩

def drain (m : Memory) (size : Nat) : Nat → Nat → Buffer → Nat → Buffer × Nat
  | 0, _, buffer, bytesRead => (buffer, bytesRead)
  | left + 1, addr, buffer, bytesRead =>
    if bytesRead < size then
      drain m size left (addr + 1) (Function.update buffer bytesRead (m addr)) (bytesRead + 1)
    else (buffer, bytesRead)

/- The outer loop of read, from block `i` on. -/
def readLoop (d : Disk) (inode size : Nat) : Nat → Nat → Nat → Buffer → Nat → Option (Buffer × Nat)
  | 0, _, _, buffer, bytesRead => some (buffer, bytesRead)
  | left + 1, i, prevDoneInBlock, buffer, bytesRead =>
    if bytesRead < size then
      if MaxDataBlocks ≤ i then none
      else
        match (d.nodes inode).dataBlocks i with
        | none => none
        | some b =>
          let (buffer, bytesRead) := drain d.data size (BlockSize - prevDoneInBlock)
            (d.blockAddr b + prevDoneInBlock) buffer bytesRead
          readLoop d inode size left (i + 1) 0 buffer bytesRead
    else some (buffer, bytesRead)

def read (d : Disk) (resource : Resource) (offset size : Nat) (buffer : Buffer) :
    Option (Buffer × Nat) :=
  let node := d.nodes resource.inode
  if offset > node.size then some (buffer, 0)
  else
    let size := min size (node.size - offset)
    let i := offset / BlockSize
    readLoop d resource.inode size (node.blocksInUse - i) i (offset % BlockSize) buffer 0

def fill (buffer : Buffer) (size : Nat) : Nat → Memory → Nat → Nat → Memory × Nat
  | 0, m, _, bytesWritten => (m, bytesWritten)
  | left + 1, m, addr, bytesWritten =>
    if bytesWritten < size then
      fill buffer size left (Function.update m addr (buffer bytesWritten)) (addr + 1) (bytesWritten + 1)
    else (m, bytesWritten)

def attach (d : Disk) (inode newBlock : Nat) : Disk :=
  let node := d.nodes inode
  let d := d.setNode inode
    { node with
      dataBlocks := Function.update node.dataBlocks node.blocksInUse (some newBlock)
      blocksInUse := node.blocksInUse + 1 }
  { d with data := Bitset.set d.data newBlock true }

/- The statement in front of the inner loop: none is the break of a full disk. -/
def claimBlock (d : Disk) (inode i : Nat) : Option Disk :=
  if i = (d.nodes inode).blocksInUse then d.getFreeDataBlock.map (d.attach inode) else some d

/- The outer loop of write: `left` blocks remain up to MaxDataBlocks. -/
def writeLoop (inode size : Nat) (buffer : Buffer) :
    Nat → Disk → Nat → Nat → Nat → Option (Disk × Nat)
  | 0, d, _, _, bytesWritten => some (d, bytesWritten)
  | left + 1, d, i, prevDoneInBlock, bytesWritten =>
    if bytesWritten < size then
      match d.claimBlock inode i with
      | none => some (d, bytesWritten)
      | some d =>
        match (d.nodes inode).dataBlocks i with
        | none => none
        | some b =>
          let (m, bytesWritten) := fill buffer size (BlockSize - prevDoneInBlock) d.data
            (d.blockAddr b + prevDoneInBlock) bytesWritten
          writeLoop inode size buffer left { d with data := m } (i + 1) 0 bytesWritten
    else some (d, bytesWritten)

structure Written where
  disk : Disk
  resource : Resource
  bytes : Nat

def write (d : Disk) (resource : Resource) (offset size : Nat) (buffer : Buffer) : Option Written :=
  if offset > MaxDataBlocks * BlockSize then some ⟨d, resource, 0⟩
  else
    let size := min size (MaxDataBlocks * BlockSize - offset)
    let i := offset / BlockSize
    match writeLoop resource.inode size buffer (MaxDataBlocks - i) d i (offset % BlockSize) 0 with
    | none => none
    | some (d, bytesWritten) =>
      let node := d.nodes resource.inode
      let node := { node with size := max node.size (offset + bytesWritten) }
      some ⟨d.setNode resource.inode node, { resource with size := node.size }, bytesWritten⟩

def create (d : Disk) (deviceID : Int) (type : NodeType) : Option (Disk × VfsNode) :=
  match d.getFreeINode with
  | none => none
  | some freeINode =>
    let d := d.setNode freeINode
      { d.nodes freeINode with blocksInUse := 0, inode := freeINode, size := 0, type := type }
    let vfsNode := d.populateVFSNode deviceID freeINode
    match d.write vfsNode.resource 0 BlockSize (fun _ => 0#8) with
    | none => none
    | some out =>
      let size := if type = .DIRECTORY then sizeofDirHeader else 0
      some (out.disk.setNode freeINode { out.disk.nodes freeINode with size := size },
        { vfsNode with resource := { out.resource with size := size } })

/- The loop of remove over the first `count` slots. -/
def freeBlocks (dataBlocks : Nat → Option Nat) : Nat → Disk → Option Disk
  | 0, d => some d
  | count + 1, d =>
    match freeBlocks dataBlocks count d with
    | none => none
    | some d =>
      if MaxDataBlocks ≤ count then none
      else (dataBlocks count).map (fun blockNum => d.freeDataBlock blockNum)

def remove (d : Disk) (vfsNode : VfsNode) : Option Disk :=
  let inode := vfsNode.resource.inode
  let node := d.nodes inode
  (freeBlocks node.dataBlocks node.blocksInUse d).map (fun d => d.freeINode inode)

/- Without entries readDir returns an empty vector. With entries it fills one in and ends
without a return. The buffer is what malloc gave, so an entryCnt that is not read is none. -/
def readDir (d : Disk) (vfsNode : VfsNode) : Option (List DirEntry) :=
  let node := d.nodes vfsNode.resource.inode
  if node.type ≠ .DIRECTORY then none
  else
    match d.read vfsNode.resource 0 node.size (fun _ => 0#8) with
    | none => none
    | some (buffer, bytesRead) =>
      if bytesRead < sizeofDirHeader then none
      else if loadInt buffer 0 = 0 then some [] else none

def writeDir (d : Disk) (vfsNode : VfsNode) (entries : List DirEntry) : Option Disk :=
  let node := d.nodes vfsNode.resource.inode
  let dataSize := entries.length * sizeofDirEntry % 2 ^ 32
  match d.write vfsNode.resource node.size dataSize (entryBytes entries) with
  | none => none
  | some out =>
    match out.disk.read out.resource 0 sizeofDirHeader (fun _ => 0#8) with
    | none => none
    | some (header, _) =>
      let header := storeInt header 0 (loadInt header 0 + entries.length)
      (out.disk.write out.resource 0 sizeofDirHeader header).map Written.disk

/- The loop over the entries of one block. The entries lie behind the header, so the bound
entryCnt does not change while the loop runs. -/
def dropEntries (dirData : Nat) (inode : Int) : Nat → Memory → Memory
  | 0, m => m
  | i + 1, m =>
    let m := dropEntries dirData inode i m
    let field := dirData + sizeofDirHeader + i * sizeofDirEntry + 16
    if loadInt m field = inode then storeInt m field (-1) else m

def dropInBlocks (dataBlocks : Nat → Option Nat) (inode : Int) : Nat → Disk → Option Disk
  | 0, d => some d
  | count + 1, d =>
    match dropInBlocks dataBlocks inode count d with
    | none => none
    | some d =>
      if MaxDataBlocks ≤ count then none
      else (dataBlocks count).map (fun b =>
        { d with
          data := dropEntries (d.blockAddr b) inode (loadInt d.data (d.blockAddr b)).toNat d.data })

def removeDirEntry (d : Disk) (vfsNode : VfsNode) (entry : DirEntry) : Option Disk :=
  let node := d.nodes vfsNode.resource.inode
  dropInBlocks node.dataBlocks entry.inode node.blocksInUse d

end Disk

/- The image after memset and the three assignments to its super block. -/
def zeroed (super : Super) : Disk := ⟨super, fun _ => ⟨0, .INVALID, 0, 0, fun _ => none⟩, fun _ => 0#8⟩

def createSuper (nodeCount blockCount : Nat) : Super := ⟨nodeCount, (blockCount + 7) / 8, blockCount⟩

/- Terminal::createRamdisk up to its last line, and the whole of it: the disk is mounted,
the root directory is created, and the disk is mounted again. -/
def createRoot (nodeCount blockCount : Nat) : Option Disk :=
  ((zeroed (createSuper nodeCount blockCount)).mount.create 1 .DIRECTORY).map Prod.fst

def createRamdisk (nodeCount blockCount : Nat) : Option Disk :=
  (createRoot nodeCount blockCount).map Disk.mount

end DimOS.Filesystem.RamDisk
