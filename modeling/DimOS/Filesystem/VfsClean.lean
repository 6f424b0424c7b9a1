import DimOS.Filesystem.RamDiskStands
import DimOS.Filesystem.VfsLookup
import DimOS.Filesystem.VfsRemoval

/-! The eight entry points of the kernel's VFS, for every path and in every state of a run. A call is clean when
it returns and has performed its operation on the parent or target that is there, down to the bytes on the disk,
or has left tree and disk alone because there is none. When it is clean can be read off the state before it. -/
namespace DimOS.Filesystem.Vfs.Errors
open Cpp.Containers
open Cpp.Bitset (bitAt)
open Files (Standing ParentOf nodeAtLinked createInDisk mapOk resolveStays step stepStanding reachedStanding toOptionOk)
open Lookup (Opens opensResolves resolvesOpens)
open Open (nodeAt inodeOf)
open RamDisk (Disk NodeType VfsNode Resource DirEntry Buffer Slotted Entered Suffices Separate Agreeing Stored Entry
  Swept clearBlocks entryInode entryAddr readable byteAt sizeofDirEntry MaxDataBlocks BlockSize)
open Lib.Transition (run invariantRunAll)

section disk
variable {fbSize : Nat} {v v' : VFS (Disk × Buffer)}

/- What the operations of the RamDisk keep, whatever they are called on. -/
structure DiskInvariant (P : Disk → Prop) : Prop where
  create : ∀ {d : Disk} {type out}, P d → d.create 1 type = some out → P out.1
  remove : ∀ {d out : Disk} {node}, P d → d.remove node = some out → P out
  write : ∀ {d : Disk} {resource offset size buffer out}, P d → d.write resource offset size buffer = some out → P out.disk
  writeDir : ∀ {d out : Disk} {node entries}, P d → d.writeDir node entries = some out → P out
  removeDirEntry : ∀ {d out : Disk} {node entry}, P d → d.removeDirEntry node entry = some out → P out

variable {P : Disk → Prop} (keeps : DiskInvariant P)
include keeps

theorem createInKeeps {type : NodeType} {rest : Nat → BitVec 8} {parent id : Nat} {name : Chars}
    (h : P v.disk.1) (ok : createIn (kernelFs fbSize) type rest v parent name = .ok (v', id)) : P v'.disk.1 := by
  obtain ⟨-, disk, info, mid, disk', info', created, shape, wrote, rfl⟩ := createInCases ok
  have midDisk : mid.disk = disk := by
    rw [shape]
    rfl
  rw [midDisk] at wrote
  have first : P disk.1 := by
    simp only [kernelFs, withRamDisk] at created
    split at created
    · obtain ⟨made, create, pair⟩ := Option.map_eq_some_iff.mp created
      cases (Prod.mk.inj pair).1
      exact keeps.create h create
    · obtain ⟨t, -, pair⟩ := Option.map_eq_some_iff.mp created
      cases (Prod.mk.inj pair).1
      exact h
  simp only [kernelFs, withRamDisk] at wrote
  split at wrote
  · obtain ⟨d, written, pair⟩ := Option.map_eq_some_iff.mp wrote
    cases (Prod.mk.inj pair).1
    exact keeps.writeDir first written
  · obtain ⟨t, -, pair⟩ := Option.map_eq_some_iff.mp wrote
    cases (Prod.mk.inj pair).1
    exact first

theorem removeNodeKeeps {node : Nat} (h : P v.disk.1) (ok : removeNode (kernelFs fbSize) v node = .ok v') :
    P v'.disk.1 := by
  obtain ⟨parent, disk, disk', -, removed, dropped, rfl⟩ := removeNodeCases ok
  have first : P disk.1 := by
    simp only [kernelFs, withRamDisk] at removed
    split at removed
    · obtain ⟨d, gone, rfl⟩ := Option.map_eq_some_iff.mp removed
      exact keeps.remove h gone
    · obtain ⟨t, -, rfl⟩ := Option.map_eq_some_iff.mp removed
      exact h
  simp only [kernelFs, withRamDisk] at dropped
  split at dropped
  · obtain ⟨d, gone, rfl⟩ := Option.map_eq_some_iff.mp dropped
    exact keeps.removeDirEntry first gone
  · obtain ⟨t, -, rfl⟩ := Option.map_eq_some_iff.mp dropped
    exact first

theorem writeKeeps {path : Chars} {offset size : Nat} {buffer : Buffer} (h : P v.disk.1)
    (ok : Vfs.write (kernelFs fbSize) v path offset size buffer = .ok v') : P v'.disk.1 := by
  unfold Vfs.write at ok
  split at ok
  · cases ok
  · next v₁ found =>
    obtain ⟨rfl, -⟩ := resolveStays found
    cases ok
    exact h
  · next v₁ node found =>
    obtain ⟨rfl, -⟩ := resolveStays found
    split at ok
    · cases ok
      exact h
    · split at ok
      · cases ok
      · next disk resource bytes wrote =>
        cases ok
        simp only [kernelFs, withRamDisk] at wrote
        split at wrote
        · obtain ⟨out, written, pair⟩ := Option.map_eq_some_iff.mp wrote
          simp only [Prod.mk.injEq] at pair
          obtain ⟨rfl, -, -⟩ := pair
          exact keeps.write h written
        · obtain ⟨out, -, pair⟩ := Option.map_eq_some_iff.mp wrote
          cases (Prod.mk.inj pair).1
          exact h

theorem stepKeeps {op : Op} (h : P v.disk.1) (taken : step fbSize v op = some v') : P v'.disk.1 := by
  have ok := toOptionOk taken
  have made : ∀ {type rest path r}, mkNode (kernelFs fbSize) type rest v path = .ok (v', r) → P v'.disk.1 := by
    intro type rest path r ok
    obtain ⟨parentPath, name, v₁, -, ⟨missing, rfl, -⟩ | ⟨parent, id, found, made, -⟩⟩ := mkNodeCases ok
    · obtain ⟨rfl, -⟩ := resolveStays missing
      exact h
    · obtain ⟨rfl, -⟩ := resolveStays found
      exact createInKeeps keeps h made
  have removed : ∀ {v₁ node found path}, resolvePath (kernelFs fbSize) v path = .ok (v₁, found) →
      removeNode (kernelFs fbSize) v₁ node = .ok v' → P v'.disk.1 := by
    intro v₁ node found path stays gone
    obtain ⟨rfl, -⟩ := resolveStays stays
    exact removeNodeKeeps keeps h gone
  cases op with
  | mkdir path rest =>
    obtain ⟨⟨out, r⟩, done, rfl⟩ := mapOk ok
    exact made done
  | mkfile path rest =>
    obtain ⟨⟨out, r⟩, done, rfl⟩ := mapOk ok
    exact made done
  | mnt path fs inode =>
    obtain ⟨⟨out, r⟩, done, rfl⟩ := mapOk ok
    unfold mnt openNode at done
    split at done
    · cases done
    · next v₁ n found =>
      obtain ⟨rfl, -⟩ := resolveStays found
      cases done
      exact h
    · next v₁ found =>
      obtain ⟨rfl, -⟩ := resolveStays found
      obtain ⟨parentPath, name, v₂, -, ⟨missing, rfl, -⟩ | ⟨parent, found', rfl, -⟩⟩ := mntLockedCases done
      · obtain ⟨rfl, -⟩ := resolveStays missing
        exact h
      · obtain ⟨rfl, -⟩ := resolveStays found'
        exact h
  | rmdir path =>
    obtain ⟨v₁, node, found, rest⟩ := rmdirOutcome.mp ok
    split at rest
    · cases rest
      rw [(resolveStays found).1]
      exact h
    · exact removed found rest
  | rmfile path =>
    obtain ⟨v₁, node, found, rest⟩ := rmfileOutcome.mp ok
    split at rest
    · cases rest
      rw [(resolveStays found).1]
      exact h
    · exact removed found rest
  | read path offset size buffer =>
    obtain ⟨⟨out, r⟩, done, rfl⟩ := mapOk ok
    rw [Files.readStays done]
    exact h
  | write path offset size buffer => exact writeKeeps keeps h ok
  | readDir path =>
    obtain ⟨⟨out, r⟩, done, rfl⟩ := mapOk ok
    rw [Files.readDirStays done]
    exact h

end disk

theorem slottedInvariant : DiskInvariant Slotted where
  create h ok := RamDisk.createSlotted h ok
  remove h ok := RamDisk.removeSlotted h ok
  write h ok := RamDisk.writeSlotted h ok
  writeDir h ok := RamDisk.writeDirSlotted h ok
  removeDirEntry h ok := RamDisk.removeDirEntrySlotted h ok

/- What holds in every state of a run, see reachedSound. -/
structure Sound (v : VFS (Disk × Buffer)) : Prop where
  standing : Standing v
  slotted : Slotted v.disk.1

theorem reachedSound {fbSize nodeCount blockCount : Nat} {d : Disk} {ops : List Op} {v : VFS (Disk × Buffer)}
    (made : RamDisk.createRamdisk nodeCount blockCount = some d)
    (reached : run (step fbSize) (globalVFS fbSize d) ops = some v) : Sound v := by
  refine ⟨reachedStanding made reached, ?_⟩
  obtain ⟨d', root', rfl⟩ := Option.map_eq_some_iff.mp made
  exact invariantRunAll (fun v => Slotted v.disk.1) (fun _ _ _ => stepKeeps slottedInvariant) (RamDisk.rootSlotted root').2 reached

/- The new node is the last child of the parent, and the other nodes are as before. -/
structure Hangs {σ : Type} (v v' : VFS σ) (parent : Nat) (name : Chars) (fs : Nat) : Prop where
  count : v'.count = v.count + 1
  child : ∃ info, v'.nodes v.count = ⟨name, fs, info, [], some parent⟩
  hung : (v'.nodes parent).children = (v.nodes parent).children ++ [v.count]
  others : ∀ n, n < v.count → n ≠ parent → v'.nodes n = v.nodes n

theorem addNodeHangs {σ : Type} {v : VFS σ} {parent : Nat} (inside : parent < v.count) (disk : σ) (name : Chars)
    (fs : Nat) (info : VfsNode) : Hangs v ({ v with disk := disk }.addNode parent name fs info) parent name fs := by
  have node := VFS.addNodeNode { v with disk := disk } name fs info inside
  refine ⟨rfl, ⟨info, by rw [node]; exact if_pos rfl⟩, ?_, fun n old other => ?_⟩
  · rw [node, if_neg (Nat.ne_of_lt inside), if_pos rfl]
  · rw [node, if_neg (Nat.ne_of_lt old), if_neg other]

section creation
variable {fbSize : Nat} {v v' : VFS (Disk × Buffer)} {type : NodeType} {rest : Nat → BitVec 8} {parent : Nat} {name : Chars}

/- What a creation leaves behind: the node, an inode of its type that was not in use, with a block when it is a
directory, and the entry at the end of the parent. -/
structure Made (v v' : VFS (Disk × Buffer)) (type : NodeType) (rest : Nat → BitVec 8) (parent : Nat) (name : Chars) :
    Prop where
  hangs : Hangs v v' parent name (v.nodes parent).fileSystem
  kind : (v'.nodes v.count).info.type = type
  unused : (v.disk.1.nodes (inodeOf v' v.count)).type = .INVALID
  other : inodeOf v' v.count ≠ inodeOf v parent
  used : (v'.disk.1.nodes (inodeOf v' v.count)).type = type
  block : type = .DIRECTORY → 0 < (v'.disk.1.nodes (inodeOf v' v.count)).blocksInUse
  entry : Entered v'.disk.1 (inodeOf v parent) (v.disk.1.nodes (inodeOf v parent)).size
    (fromStringName rest name (inodeOf v' v.count))

/- The parent is one of the RamDisk, there is an inode for the node, and there are blocks for a directory and
for the entry, which does not come to lie on the header. -/
structure CreateFits (v : VFS (Disk × Buffer)) (type : NodeType) (parent : Nat) : Prop where
  onDisk : (v.nodes parent).fileSystem = 0
  inode : ∃ i, v.disk.1.getFreeINode = some i ∧ i ≠ inodeOf v parent
  block : type = .DIRECTORY → clearBlocks v.disk.1 ≠ []
  room : Suffices (v.disk.1.nodes (inodeOf v parent)) (clearBlocks v.disk.1).tail
    (v.disk.1.nodes (inodeOf v parent)).size sizeofDirEntry
  apart : Separate (v.disk.1.nodes (inodeOf v parent)) (clearBlocks v.disk.1).tail
    (v.disk.1.nodes (inodeOf v parent)).size

theorem createInHangs {id : Nat} (inside : parent < v.count)
    (ok : createIn (kernelFs fbSize) type rest v parent name = .ok (v', id)) :
    Hangs v v' parent name (v.nodes parent).fileSystem ∧ ∃ disk info,
      (kernelFs fbSize).create v.disk (v.nodes parent).fileSystem type = some (disk, info) ∧
        (v'.nodes v.count).info = info := by
  obtain ⟨-, disk, info, mid, disk', info', created, shape, -, rfl⟩ := createInCases ok
  have hangs : Hangs v mid parent name (v.nodes parent).fileSystem := shape ▸ addNodeHangs inside disk name _ info
  have apart : v.count ≠ parent := Nat.ne_of_gt inside
  have kept : ∀ n, n ≠ parent → ({ mid with disk := disk' }.setInfo parent info').nodes n = mid.nodes n := by
    intro n other
    rw [VFS.setInfo, VFS.setNodeNode, if_neg other]
  refine ⟨⟨hangs.count, ?_, ?_, fun n old other => (kept n other).trans (hangs.others n old other)⟩,
    disk, info, created, ?_⟩
  · rw [kept _ apart]
    exact hangs.child
  · rw [VFS.setInfoChildren]
    exact hangs.hung
  · rw [kept _ apart, shape, VFS.addNodeNode _ name _ info (by exact inside)]
    simp

theorem createInMadeIff (h : Sound v) (valid : type ≠ .INVALID) (inside : parent < v.count) :
    (∃ v' id, createIn (kernelFs fbSize) type rest v parent name = .ok (v', id) ∧ Made v v' type rest parent name) ↔
      CreateFits v type parent := by
  have super := h.standing.2.valid
  constructor
  · rintro ⟨v', id, ok, made⟩
    have onDisk : (v.nodes parent).fileSystem = 0 := by
      by_contra device
      obtain ⟨-, disk, info, created, shown⟩ := createInHangs inside ok
      simp only [kernelFs, withRamDisk, device, if_false, framebufferDevice, Option.map_some, Option.some.injEq,
        Prod.mk.injEq] at created
      have kind := made.kind
      rw [shown, ← created.2] at kind
      exact valid kind.symm
    obtain ⟨d, info, create, write, rfl, -, shown, -, -⟩ := createInDisk inside onDisk ok
    obtain ⟨i, free, -, number, -, blocks, others, clear, same⟩ := RamDisk.createMakes super create
    have number' : inodeOf v' v.count = i := by rw [inodeOf, shown, number]
    have other := made.other
    rw [number'] at other
    have node : d.nodes (inodeOf v parent) = v.disk.1.nodes (inodeOf v parent) := others _ other.symm
    have entry := made.entry
    rw [number', ← node] at entry
    rw [number] at write
    obtain ⟨room, apart⟩ := RamDisk.enteredWriteDir (same ▸ super) (RamDisk.createSlotted h.slotted create)
      (v.nodes parent).info _ write entry
    change Suffices (d.nodes (inodeOf v parent)) _ (d.nodes (inodeOf v parent)).size _ at room
    change Separate (d.nodes (inodeOf v parent)) _ (d.nodes (inodeOf v parent)).size at apart
    rw [node, clear] at room apart
    refine ⟨onDisk, ⟨i, free, other⟩, fun directory empty => ?_, room, apart⟩
    have block := made.block directory
    rw [number', (RamDisk.writeDirReach (same ▸ super) write).1.others i other, blocks, empty] at block
    exact Nat.lt_irrefl 0 block
  · rintro ⟨onDisk, ⟨i, free, other⟩, block, room, apart⟩
    obtain ⟨⟨d, info⟩, create⟩ := RamDisk.createReturns 1 type free
    obtain ⟨i', free', kind, number, used, blocks, others, clear, same⟩ := RamDisk.createMakes super create
    cases Option.some.inj (free.symm.trans free')
    have node : d.nodes (inodeOf v parent) = v.disk.1.nodes (inodeOf v parent) := others _ other.symm
    rw [← node, ← clear] at room apart
    obtain ⟨out, write, entered⟩ := RamDisk.writeDirEnters (same ▸ super) (RamDisk.createSlotted h.slotted create)
      (v.nodes parent).info (fromStringName rest name info.resource.inode) room apart
    have returns : Creates (kernelFs fbSize) type rest v parent name := by
      refine ⟨(d, v.disk.2), info, _, by simp [kernelFs, withRamDisk, onDisk, create], rfl, ?_⟩
      rw [(Open.addNodeOld _ _ _ inside inside).1, (Open.addNodeOld _ _ _ inside inside).2]
      simp [kernelFs, withRamDisk, onDisk, VFS.addNodeDisk, write]
    obtain ⟨⟨v', id⟩, ok⟩ := createInReturns.mpr returns
    obtain ⟨d', info', create', write', rfl, -, shown, -, -⟩ := createInDisk inside onDisk ok
    cases Option.some.inj (create.symm.trans create')
    cases Option.some.inj (write.symm.trans write')
    have number' : inodeOf v' v.count = i := by rw [inodeOf, shown, number]
    have kept := (RamDisk.writeDirReach (same ▸ super) write).1.others i other
    change Entered _ (inodeOf v parent) (d.nodes (inodeOf v parent)).size _ at entered
    rw [node, number] at entered
    refine ⟨v', v.count, ok, (createInHangs inside ok).1, by rw [shown]; exact kind, ?_, by rw [number']; exact other, ?_, ?_, ?_⟩
    all_goals rw [number']
    · exact (RamDisk.freeINodeSpec free).2
    · rw [kept]
      exact used
    · intro directory
      rw [kept, blocks]
      have some := List.length_pos_iff.mpr (block directory)
      omega
    · exact entered

end creation

section removal
variable {fbSize : Nat} {v v' : VFS (Disk × Buffer)} {node parent : Nat}

/- What a removal leaves behind: the parent without the child, the inode and its blocks given back, and no entry
of the parent's directory that names the inode. -/
structure Gone (v v' : VFS (Disk × Buffer)) (node parent : Nat) : Prop where
  count : v'.count = v.count
  children : (v'.nodes parent).children.Perm ((v.nodes parent).children.erase node)
  others : ∀ n, n ≠ parent → v'.nodes n = v.nodes n
  inode : (v.nodes node).fileSystem = 0 → (v'.disk.1.nodes (inodeOf v node)).type = .INVALID ∧
    ∀ k b, k < (v.disk.1.nodes (inodeOf v node)).blocksInUse →
      (v.disk.1.nodes (inodeOf v node)).dataBlocks k = some b → bitAt v'.disk.1.data b = false
  entries : (v.nodes node).fileSystem = 0 → (v.nodes parent).fileSystem = 0 →
    ∀ j, Entry v.disk.1 (inodeOf v parent) j → entryInode v'.disk.1 (inodeOf v parent) j ≠ inodeOf v node

/- The scan of the parent's directory comes by every entry of it that names the inode. -/
def Sweeps (v : VFS (Disk × Buffer)) (node parent : Nat) : Prop :=
  (v.nodes node).fileSystem = 0 → (v.nodes parent).fileSystem = 0 → ∀ j, Entry v.disk.1 (inodeOf v parent) j →
    entryInode v.disk.1 (inodeOf v parent) j = inodeOf v node →
      Swept v.disk.1 (inodeOf v parent) (inodeOf v node) (v.disk.1.nodes (inodeOf v parent)).blocksInUse
        (entryAddr v.disk.1 (inodeOf v parent) j)

theorem removalReturns (h : Sound v) (up : (v.nodes node).parent = some parent) :
    ∃ v', removeNode (kernelFs fbSize) v node = .ok v' := by
  refine removeNodeReturns.mpr ?_
  obtain ⟨disk, removed, slotted⟩ : ∃ disk, (kernelFs fbSize).remove v.disk (v.nodes node).fileSystem (v.nodes node).info =
      some disk ∧ Slotted disk.1 := by
    simp only [kernelFs, withRamDisk]
    split
    · obtain ⟨d, gone, -⟩ := RamDisk.removeReturns h.slotted (v.nodes node).info
      exact ⟨(d, v.disk.2), by rw [gone]; rfl, RamDisk.removeSlotted h.slotted gone⟩
    · exact ⟨v.disk, rfl, h.slotted⟩
  refine ⟨parent, disk, up, removed, ?_⟩
  simp only [kernelFs, withRamDisk]
  split
  · obtain ⟨d, dropped⟩ := RamDisk.removeDirEntryReturns slotted (v.nodes parent).info
      ⟨fun _ => 0#8, (v.nodes node).info.resource.inode⟩
    rw [dropped]
    rfl
  · rfl

theorem removeNodeGoneIff (h : Sound v) (up : (v.nodes node).parent = some parent) :
    (∃ v', removeNode (kernelFs fbSize) v node = .ok v' ∧ Gone v v' node parent) ↔ Sweeps v node parent := by
  obtain ⟨v', ok⟩ := @removalReturns fbSize v node parent h up
  have unique : (∃ v', removeNode (kernelFs fbSize) v node = .ok v' ∧ Gone v v' node parent) ↔ Gone v v' node parent := by
    rw [ok]
    simp
  rw [unique]
  obtain ⟨parent', disk, disk', up', removed, dropped, rfl⟩ := removeNodeCases ok
  cases Option.some.inj (up.symm.trans up')
  have gone := Removal.kernelRemoved h.standing.2 removed
  -- the entry by itself: it is kept unless the scan comes by
  have kept : (v.nodes parent).fileSystem = 0 → ∀ j, entryInode disk'.1 (inodeOf v parent) j =
      entryInode v.disk.1 (inodeOf v parent) j ↔ ¬ (entryInode v.disk.1 (inodeOf v parent) j = inodeOf v node ∧
        Swept v.disk.1 (inodeOf v parent) (inodeOf v node) (v.disk.1.nodes (inodeOf v parent)).blocksInUse
          (entryAddr v.disk.1 (inodeOf v parent) j)) := by
    intro onDisk j
    simp only [kernelFs, withRamDisk, onDisk, if_true] at dropped
    obtain ⟨d, done, rfl⟩ := Option.map_eq_some_iff.mp dropped
    have keeps := RamDisk.removeDirEntryKeepsIff (by omega) done (inodeOf v parent) j
    simp only [gone.entryInode, gone.entryAddr, gone.swept, gone.used] at keeps
    exact keeps
  constructor
  · intro left own onDisk j entry names
    by_contra missed
    exact left.entries own onDisk j entry (((kept onDisk j).mpr (fun both => missed both.2)).trans names)
  · intro sweeps
    refine ⟨rfl, ?_, fun n other => ?_, fun own => ?_, fun own onDisk j entry names => ?_⟩
    · rw [VFS.setChildrenNode, if_pos rfl]
      exact fastEraseFind _ node
    · rw [VFS.setChildrenNode, if_neg other]
    · obtain ⟨d, gone', invalid, bits⟩ := RamDisk.removeReturns h.slotted (v.nodes node).info
      simp only [kernelFs, withRamDisk, own, if_true, gone', Option.map_some, Option.some.injEq] at removed
      subst removed
      have after : disk'.1.nodes = d.nodes ∧ ∀ a, a < d.super.dataBitsetSize → disk'.1.data a = d.data a := by
        simp only [kernelFs, withRamDisk] at dropped
        split at dropped
        · obtain ⟨out, done, rfl⟩ := Option.map_eq_some_iff.mp dropped
          exact (RamDisk.dropInBlocksKeeps done).2
        · obtain ⟨t, -, rfl⟩ := Option.map_eq_some_iff.mp dropped
          exact ⟨rfl, fun _ _ => rfl⟩
      refine ⟨?_, fun k b low slot => ?_⟩
      · show (disk'.1.nodes (inodeOf v node)).type = .INVALID
        rw [after.1]
        exact invalid
      · have bit := bits k b low slot
        have inside := h.standing.2.slots (inodeOf v node) k b slot
        have valid := h.standing.2.valid
        show bitAt disk'.1.data b = false
        rw [← bit]
        unfold bitAt
        rw [after.2 _ ?_]
        rw [gone.super]
        unfold RamDisk.Super.Valid at valid
        omega
    · have named := names
      change entryInode disk'.1 (inodeOf v parent) j = inodeOf v node at named
      by_cases before : entryInode v.disk.1 (inodeOf v parent) j = inodeOf v node
      · exact (kept onDisk j).mp (named.trans before.symm) ⟨before, sweeps own onDisk j entry before⟩
      · exact before (((kept onDisk j).mpr (fun both => before both.1)).symm.trans named)

end removal

section transfer
variable {fbSize : Nat} {v v' : VFS (Disk × Buffer)} {node : Nat}

/- How many bytes of the framebuffer a transfer moves that begins inside it. -/
def deviceLength (fbSize offset size : Nat) : Nat := min size ((fbSize - offset) % 2 ^ 64)

def DeviceFits (fbSize offset size : Nat) : Prop :=
  size = 0 ∨ offset ≤ fbSize ∧ (deviceLength fbSize offset size = 0 ∨ offset + deviceLength fbSize offset size < 2 ^ 32)

/- The bytes of the file from the offset on, as far as its size and its blocks go, or those of the framebuffer. -/
def Delivered (fbSize : Nat) (v : VFS (Disk × Buffer)) (node offset size : Nat) (buffer r : Buffer) : Prop :=
  if (v.nodes node).fileSystem = 0 then
    ∀ k, r k = if k < min size (readable v.disk.1 (inodeOf v node) - offset)
      then byteAt v.disk.1 (inodeOf v node) (offset + k) else buffer k
  else (size = 0 ∨ offset ≤ fbSize) ∧
    ∀ k, r k = if k < deviceLength fbSize offset size then v.disk.2 (offset + k) else buffer k

/- The bytes lie in the file, up to the limit of a file, or in the framebuffer. -/
structure Written (fbSize : Nat) (v v' : VFS (Disk × Buffer)) (node offset size : Nat) (buffer : Buffer) : Prop where
  count : v'.count = v.count
  tree : ∀ n, { v'.nodes n with info := (v.nodes n).info } = v.nodes n
  file : (v.nodes node).fileSystem = 0 →
    (v'.disk.1.nodes (inodeOf v node)).size = (if MaxDataBlocks * BlockSize < offset
      then (v.disk.1.nodes (inodeOf v node)).size
      else max (v.disk.1.nodes (inodeOf v node)).size (offset + min size (MaxDataBlocks * BlockSize - offset))) ∧
    Stored v'.disk.1 (inodeOf v node) offset (min size (MaxDataBlocks * BlockSize - offset)) buffer
  device : (v.nodes node).fileSystem ≠ 0 → (size = 0 ∨ offset ≤ fbSize) ∧ v'.disk.1 = v.disk.1 ∧
    ∀ k, v'.disk.2 k = if offset ≤ k ∧ k < offset + deviceLength fbSize offset size
      then buffer (k - offset) else v.disk.2 k

/- There is nothing to write, or blocks for all of it, and bytes that come to one place agree. -/
def WriteFits (fbSize : Nat) (v : VFS (Disk × Buffer)) (node offset size : Nat) (buffer : Buffer) : Prop :=
  if (v.nodes node).fileSystem = 0 then
    min size (MaxDataBlocks * BlockSize - offset) = 0 ∨
      Suffices (v.disk.1.nodes (inodeOf v node)) (clearBlocks v.disk.1) offset (min size (MaxDataBlocks * BlockSize - offset)) ∧
      Agreeing (v.disk.1.nodes (inodeOf v node)) (clearBlocks v.disk.1) offset
        (min size (MaxDataBlocks * BlockSize - offset)) buffer
  else DeviceFits fbSize offset size

theorem deviceLengthEq {offset : Nat} (size : Nat) (inside : offset ≤ fbSize) :
    min size (((fbSize : Int) - offset) % 2 ^ 64).toNat = deviceLength fbSize offset size := by
  unfold deviceLength
  omega

theorem nodeReadIff (h : Sound v) (offset size : Nat) (buffer : Buffer) :
    (∃ r n, (kernelFs fbSize).read v.disk (v.nodes node).fileSystem (v.nodes node).info.resource offset size buffer =
        some (r, n) ∧ Delivered fbSize v node offset size buffer r) ↔
      ((v.nodes node).fileSystem ≠ 0 → DeviceFits fbSize offset size) := by
  by_cases onDisk : (v.nodes node).fileSystem = 0
  · refine iff_of_true ?_ (fun device => absurd onDisk device)
    have slots := h.slotted (inodeOf v node)
    obtain ⟨⟨r, n⟩, ran, count, bytes⟩ := @RamDisk.readBytes v.disk.1 (v.nodes node).info.resource slots.cap slots.slots
      offset size buffer
    refine ⟨r, n, by simp only [kernelFs, withRamDisk, onDisk, if_true]; exact ran, ?_⟩
    unfold Delivered
    rw [if_pos onDisk]
    intro k
    rw [← show n = min size (readable v.disk.1 (inodeOf v node) - offset) from count]
    exact bytes k
  · simp only [Delivered, onDisk, ne_eq, not_false_eq_true, forall_const, if_false, kernelFs, withRamDisk, framebufferDevice]
    unfold DeviceFits
    by_cases none : size = 0
    · subst none
      simp [deviceLength]
    · by_cases inside : offset ≤ fbSize
      · rw [deviceLengthEq size inside]
        simp only [none, false_or, inside, true_and]
        simp
      · simp [none, inside]

theorem setInfoTree (disk : Disk × Buffer) (info : VfsNode) (n : Nat) :
    { (({ v with disk := disk }.setInfo node info).nodes n) with info := (v.nodes n).info } = v.nodes n := by
  rw [VFS.setInfo, VFS.setNodeNode]
  split
  · next same => rw [same]
  · rfl

theorem nodeWriteIff (h : Sound v) (offset size : Nat) (buffer : Buffer) :
    (∃ disk resource n, (kernelFs fbSize).write v.disk (v.nodes node).fileSystem (v.nodes node).info.resource offset size
        buffer = some (disk, resource, n) ∧ Written fbSize v ({ v with disk := disk }.setInfo node
          { (v.nodes node).info with resource := resource }) node offset size buffer) ↔
      WriteFits fbSize v node offset size buffer := by
  have super := h.standing.2.valid
  unfold WriteFits
  by_cases onDisk : (v.nodes node).fileSystem = 0
  · rw [if_pos onDisk]
    constructor
    · rintro ⟨disk, resource, n, wrote, written⟩
      refine or_iff_not_imp_left.mpr fun more => ?_
      simp only [kernelFs, withRamDisk, onDisk, if_true] at wrote
      obtain ⟨out, done, pair⟩ := Option.map_eq_some_iff.mp wrote
      cases pair
      exact RamDisk.storedStands super h.slotted (Nat.pos_of_ne_zero more) done (written.file onDisk).2
    · intro fits
      obtain ⟨out, done, size', stored⟩ : ∃ out, v.disk.1.write (v.nodes node).info.resource offset size buffer = some out ∧
          (out.disk.nodes (inodeOf v node)).size = (if MaxDataBlocks * BlockSize < offset
            then (v.disk.1.nodes (inodeOf v node)).size
            else max (v.disk.1.nodes (inodeOf v node)).size (offset + min size (MaxDataBlocks * BlockSize - offset))) ∧
          Stored out.disk (inodeOf v node) offset (min size (MaxDataBlocks * BlockSize - offset)) buffer := by
        by_cases nothing : min size (MaxDataBlocks * BlockSize - offset) = 0
        · obtain ⟨out, done, size'⟩ := @RamDisk.writeNothing v.disk.1 (v.nodes node).info.resource offset size buffer nothing
          refine ⟨out, done, ?_, fun k low => by omega⟩
          rw [nothing, Nat.add_zero]
          exact size'
        · obtain ⟨room, agree⟩ := fits.resolve_left nothing
          obtain ⟨out, done, -, size', stored⟩ := RamDisk.writeStands super (h.slotted (inodeOf v node)) rfl
            (Nat.pos_of_ne_zero nothing) room agree
          refine ⟨out, done, ?_, stored⟩
          rw [if_neg (by omega)]
          exact size'
      refine ⟨(out.disk, v.disk.2), out.resource, out.bytes, by simp [kernelFs, withRamDisk, onDisk, done], rfl,
        setInfoTree _ _, fun _ => ⟨size', stored⟩, fun device => absurd onDisk device⟩
  · rw [if_neg onDisk]
    constructor
    · rintro ⟨disk, resource, n, wrote, written⟩
      refine (written.device onDisk).1.elim .inl fun inside => or_iff_not_imp_left.mpr fun more => ⟨inside, ?_⟩
      simp only [kernelFs, withRamDisk, onDisk, if_false, framebufferDevice, deviceLengthEq size inside] at wrote
      by_contra endless
      rw [if_neg endless] at wrote
      cases wrote
    · intro fits
      have inside : size = 0 ∨ offset ≤ fbSize := fits.imp id And.left
      have equal : min size (((fbSize : Int) - offset) % 2 ^ 64).toNat = deviceLength fbSize offset size := by
        rcases inside with rfl | inside
        · simp [deviceLength]
        · exact deviceLengthEq size inside
      have ends : deviceLength fbSize offset size = 0 ∨ offset + deviceLength fbSize offset size < 2 ^ 32 := by
        rcases fits with rfl | both
        · simp [deviceLength]
        · exact both.2
      refine ⟨(v.disk.1, fun k => if offset ≤ k ∧ k < offset + deviceLength fbSize offset size
          then buffer (k - offset) else v.disk.2 k), (v.nodes node).info.resource, deviceLength fbSize offset size, ?_,
        rfl, setInfoTree _ _, fun own => absurd own onDisk, fun _ => ⟨inside, rfl, fun k => rfl⟩⟩
      simp only [kernelFs, withRamDisk, onDisk, if_false, framebufferDevice, equal, if_pos ends, Option.map_some]

end transfer

section calls
variable {fbSize : Nat} {v : VFS (Disk × Buffer)}

/- There is something for the call to be performed on: a parent, and for mnt no node yet; a directory without
children or a file to be removed; a valid node to be read or written; a node to be listed. -/
def Target (v : VFS (Disk × Buffer)) : Op → Prop
  | .mkdir path _ => ∃ parent, ParentOf v path parent
  | .mkfile path _ => ∃ parent, ParentOf v path parent
  | .mnt path _ _ => nodeAt v (split path slash) = none ∧ ∃ parent, ParentOf v path parent
  | .rmdir path => ∃ node, nodeAt v (split path slash) = some node ∧ (v.nodes node).children = [] ∧
      (v.nodes node).info.type = .DIRECTORY
  | .rmfile path => ∃ node, nodeAt v (split path slash) = some node ∧ (v.nodes node).info.type = .FILE
  | .read path _ _ _ => ∃ node, nodeAt v (split path slash) = some node ∧ (v.nodes node).info.type ≠ .INVALID
  | .write path _ _ _ => ∃ node, nodeAt v (split path slash) = some node ∧ (v.nodes node).info.type ≠ .INVALID
  | .readDir path => ∃ node, nodeAt v (split path slash) = some node

def Created (v v' : VFS (Disk × Buffer)) (type : NodeType) (rest : Nat → BitVec 8) (path : Chars) : Prop :=
  ∃ parentPath name parent, cut path = some (parentPath, name) ∧ nodeAt v (split parentPath slash) = some parent ∧
    Made v v' type rest parent name

def Removed (v v' : VFS (Disk × Buffer)) (path : Chars) : Prop :=
  ∃ node parent, nodeAt v (split path slash) = some node ∧ (v.nodes node).parent = some parent ∧ Gone v v' node parent

/- The operation has been performed, between the state before and the one after. -/
def Performed (fbSize : Nat) (v v' : VFS (Disk × Buffer)) : Op → Prop
  | .mkdir path rest => Created v v' .DIRECTORY rest path
  | .mkfile path rest => Created v v' .FILE rest path
  | .mnt path fs inode => ∃ parentPath name parent, cut path = some (parentPath, name) ∧
      nodeAt v (split parentPath slash) = some parent ∧ Hangs v v' parent name fs ∧
      (v'.nodes v.count).info = (kernelFs fbSize).populateVFSNode v.disk fs inode ∧ v'.disk = v.disk
  | .rmdir path => Removed v v' path
  | .rmfile path => Removed v v' path
  | .read path offset size buffer => v' = v ∧ ∃ node r, nodeAt v (split path slash) = some node ∧
      read (kernelFs fbSize) v path offset size buffer = .ok (v', r) ∧ Delivered fbSize v node offset size buffer r
  | .write path offset size buffer => ∃ node, nodeAt v (split path slash) = some node ∧
      Written fbSize v v' node offset size buffer
  | .readDir path => v' = v ∧ ∃ node, nodeAt v (split path slash) = some node ∧
      readDir (kernelFs fbSize) v path = .ok (v', (v.nodes node).children)

def Clean (fbSize : Nat) (v : VFS (Disk × Buffer)) (op : Op) : Prop :=
  ∃ v', outcome (kernelFs fbSize) v op = .ok v' ∧ (Target v op → Performed fbSize v v' op) ∧ (¬ Target v op → v' = v)

def CreateSafe (v : VFS (Disk × Buffer)) (type : NodeType) (path : Chars) : Prop :=
  ∃ parentPath name, cut path = some (parentPath, name) ∧ Opens v parentPath ∧
    ∀ parent, nodeAt v (split parentPath slash) = some parent → CreateFits v type parent

def RemoveSafe (v : VFS (Disk × Buffer)) (path : Chars) (removable : Nat → Prop) : Prop :=
  Opens v path ∧ ∃ node, nodeAt v (split path slash) = some node ∧
    (removable node → ∃ parent, (v.nodes node).parent = some parent ∧ Sweeps v node parent)

/- What a call needs of the state before it. A removal needs its node, the others do without. -/
def Safe (fbSize : Nat) (v : VFS (Disk × Buffer)) : Op → Prop
  | .mkdir path _ => CreateSafe v .DIRECTORY path
  | .mkfile path _ => CreateSafe v .FILE path
  | .mnt path _ _ => Opens v path ∧ (nodeAt v (split path slash) = none →
      ∃ parentPath name, cut path = some (parentPath, name) ∧ Opens v parentPath)
  | .rmdir path => RemoveSafe v path
      (fun node => (v.nodes node).children = [] ∧ (v.nodes node).info.type = .DIRECTORY)
  | .rmfile path => RemoveSafe v path (fun node => (v.nodes node).info.type = .FILE)
  | .read path offset size _ => Opens v path ∧ ∀ node, nodeAt v (split path slash) = some node →
      (v.nodes node).info.type ≠ .INVALID → (v.nodes node).fileSystem ≠ 0 → DeviceFits fbSize offset size
  | .write path offset size buffer => Opens v path ∧ ∀ node, nodeAt v (split path slash) = some node →
      (v.nodes node).info.type ≠ .INVALID → WriteFits fbSize v node offset size buffer
  | .readDir path => Opens v path

theorem mkNodeCleanIff (h : Sound v) {type : NodeType} {rest : Nat → BitVec 8} {path : Chars} (valid : type ≠ .INVALID) :
    (∃ v', (∃ r, mkNode (kernelFs fbSize) type rest v path = .ok (v', r)) ∧
        ((∃ parent, ParentOf v path parent) → Created v v' type rest path) ∧
        ((¬ ∃ parent, ParentOf v path parent) → v' = v)) ↔ CreateSafe v type path := by
  constructor
  · rintro ⟨v', ⟨r, ok⟩, performs, -⟩
    obtain ⟨parentPath, name, v₁, shape, ⟨missing, rfl, -⟩ | ⟨parent, id, found, made, -⟩⟩ := mkNodeCases ok
    · obtain ⟨opens, out⟩ := resolvesOpens missing
      refine ⟨parentPath, name, shape, opens, fun parent at' => ?_⟩
      rw [← (Prod.mk.inj out).2] at at'
      cases at'
    · obtain ⟨opens, out⟩ := resolvesOpens found
      obtain ⟨rfl, at'⟩ := Prod.mk.inj out
      obtain ⟨parentPath', name', parent', shape', at'', left⟩ := performs ⟨parent, parentPath, name, shape, at'.symm⟩
      obtain ⟨rfl, rfl⟩ := Prod.mk.inj (Option.some.inj (shape.symm.trans shape'))
      cases Option.some.inj (at'.trans at'')
      have inside := h.standing.1.linked (nodeAtLinked at'')
      refine ⟨parentPath, name, shape, opens, fun other at₂ => ?_⟩
      cases Option.some.inj (at''.symm.trans at₂)
      exact (createInMadeIff h valid inside).mp ⟨v', id, made, left⟩
  · rintro ⟨parentPath, name, shape, opens, fits⟩
    have resolved := @opensResolves fbSize v parentPath opens
    cases at' : nodeAt v (split parentPath slash) with
    | none =>
      rw [at'] at resolved
      refine ⟨v, ⟨none, by simp only [mkNode, shape, resolved]⟩, ?_, fun _ => rfl⟩
      rintro ⟨parent, parentPath', name', shape', at''⟩
      obtain ⟨rfl, rfl⟩ := Prod.mk.inj (Option.some.inj (shape.symm.trans shape'))
      cases at'.symm.trans at''
    | some parent =>
      rw [at'] at resolved
      have inside := h.standing.1.linked (nodeAtLinked at')
      obtain ⟨v', id, ok, made⟩ := (@createInMadeIff fbSize v type rest parent name h valid inside).mpr (fits parent at')
      refine ⟨v', ⟨some id, by simp only [mkNode, shape, resolved, ok, Except.map]⟩,
        fun _ => ⟨parentPath, name, parent, shape, at', made⟩, fun missing => ?_⟩
      exact absurd ⟨parent, parentPath, name, shape, at'⟩ missing

theorem mntCleanIff (h : Sound v) {path : Chars} {fs : Nat} {inode : Int} :
    Clean fbSize v (.mnt path fs inode) ↔ Safe fbSize v (.mnt path fs inode) := by
  unfold Clean
  simp only [outcome, mapFst]
  constructor
  · rintro ⟨v', ⟨r, ok⟩, -⟩
    unfold mnt openNode at ok
    split at ok
    · cases ok
    · next v₁ node found =>
      obtain ⟨opens, out⟩ := resolvesOpens found
      refine ⟨opens, fun missing => ?_⟩
      rw [← (Prod.mk.inj out).2] at missing
      cases missing
    · next v₁ missing =>
      obtain ⟨opens, out⟩ := resolvesOpens missing
      obtain ⟨rfl, -⟩ := Prod.mk.inj out
      obtain ⟨parentPath, name, v₂, shape, ⟨found, -, -⟩ | ⟨parent, found, -, -⟩⟩ := mntLockedCases ok
      · exact ⟨opens, fun _ => ⟨parentPath, name, shape, (resolvesOpens found).1⟩⟩
      · exact ⟨opens, fun _ => ⟨parentPath, name, shape, (resolvesOpens found).1⟩⟩
  · rintro ⟨opens, parents⟩
    have resolved := @opensResolves fbSize v path opens
    cases at' : nodeAt v (split path slash) with
    | some node =>
      rw [at'] at resolved
      refine ⟨v, ⟨none, by simp only [mnt, openNode, resolved]⟩, fun target => ?_, fun _ => rfl⟩
      cases at'.symm.trans target.1
    | none =>
      rw [at'] at resolved
      obtain ⟨parentPath, name, shape, opens'⟩ := parents at'
      have resolved' := @opensResolves fbSize v parentPath opens'
      cases above : nodeAt v (split parentPath slash) with
      | none =>
        rw [above] at resolved'
        refine ⟨v, ⟨none, by simp only [mnt, openNode, resolved, mntLocked, shape, resolved']⟩, ?_, fun _ => rfl⟩
        rintro ⟨-, parent, parentPath', name', shape', at''⟩
        obtain ⟨rfl, rfl⟩ := Prod.mk.inj (Option.some.inj (shape.symm.trans shape'))
        cases above.symm.trans at''
      | some parent =>
        rw [above] at resolved'
        have inside := h.standing.1.linked (nodeAtLinked above)
        refine ⟨v.addNode parent name fs ((kernelFs fbSize).populateVFSNode v.disk fs inode),
          ⟨some v.count, by simp only [mnt, openNode, resolved, mntLocked, shape, resolved']⟩,
          fun _ => ⟨parentPath, name, parent, shape, above, addNodeHangs inside v.disk name fs _, ?_, rfl⟩, fun missing => ?_⟩
        · rw [VFS.addNodeNode _ name fs _ inside, if_pos rfl]
        · exact absurd ⟨at', parent, parentPath, name, shape, above⟩ missing

theorem removeCleanIff (h : Sound v) {path : Chars} {removable : Nat → Prop}
    (finish : VFS (Disk × Buffer) → Nat → Except Fault (VFS (Disk × Buffer)))
    (refuses : ∀ node, ¬ removable node → finish v node = .ok v)
    (removes : ∀ node, removable node → finish v node = removeNode (kernelFs fbSize) v node) :
    (∃ v', (∃ v₁ node, resolvePath (kernelFs fbSize) v path = .ok (v₁, some node) ∧ finish v₁ node = .ok v') ∧
        ((∃ node, nodeAt v (split path slash) = some node ∧ removable node) → Removed v v' path) ∧
        ((¬ ∃ node, nodeAt v (split path slash) = some node ∧ removable node) → v' = v)) ↔
      RemoveSafe v path removable := by
  constructor
  · rintro ⟨v', ⟨v₁, node, found, ok⟩, performs, -⟩
    obtain ⟨opens, out⟩ := resolvesOpens found
    obtain ⟨rfl, at'⟩ := Prod.mk.inj out
    refine ⟨opens, node, at'.symm, fun may => ?_⟩
    obtain ⟨node', parent, at'', up, gone⟩ := performs ⟨node, at'.symm, may⟩
    cases Option.some.inj (at'.trans at'')
    rw [removes node may] at ok
    exact ⟨parent, up, (removeNodeGoneIff h up).mp ⟨v', ok, gone⟩⟩
  · rintro ⟨opens, node, at', sweeps⟩
    have resolved := @opensResolves fbSize v path opens
    rw [at'] at resolved
    by_cases may : removable node
    · obtain ⟨parent, up, swept⟩ := sweeps may
      obtain ⟨v', ok, gone⟩ := (@removeNodeGoneIff fbSize v node parent h up).mpr swept
      exact ⟨v', ⟨v, node, resolved, (removes node may).trans ok⟩, fun _ => ⟨node, parent, at', up, gone⟩,
        fun missing => absurd ⟨node, at', may⟩ missing⟩
    · refine ⟨v, ⟨v, node, resolved, refuses node may⟩, ?_, fun _ => rfl⟩
      rintro ⟨node', at'', may'⟩
      cases Option.some.inj (at'.symm.trans at'')
      exact absurd may' may

theorem readCleanIff (h : Sound v) {path : Chars} {offset size : Nat} {buffer : Buffer} :
    Clean fbSize v (.read path offset size buffer) ↔ Safe fbSize v (.read path offset size buffer) := by
  unfold Clean
  simp only [outcome, mapFst]
  constructor
  · rintro ⟨v', ⟨r, ok⟩, performs, -⟩
    have opens : Opens v path := by
      unfold Vfs.read at ok
      split at ok
      · cases ok
      · next v₁ found => exact (resolvesOpens found).1
      · next v₁ node found => exact (resolvesOpens found).1
    refine ⟨opens, fun node at' good => ?_⟩
    obtain ⟨-, node', r', at'', ok', delivered⟩ := performs ⟨node, at', good⟩
    cases Option.some.inj (at'.symm.trans at'')
    have resolved := @opensResolves fbSize v path opens
    rw [at'] at resolved
    simp only [Vfs.read, resolved, good, if_false] at ok'
    split at ok'
    · cases ok'
    · next buffer' n ran =>
      cases ok'
      exact (nodeReadIff h offset size buffer).mp ⟨_, n, ran, delivered⟩
  · rintro ⟨opens, fits⟩
    have resolved := @opensResolves fbSize v path opens
    cases at' : nodeAt v (split path slash) with
    | none =>
      rw [at'] at resolved
      refine ⟨v, ⟨buffer, by simp only [Vfs.read, resolved]⟩, ?_, fun _ => rfl⟩
      rintro ⟨node, at'', -⟩
      cases at'.symm.trans at''
    | some node =>
      rw [at'] at resolved
      by_cases bad : (v.nodes node).info.type = .INVALID
      · refine ⟨v, ⟨buffer, by simp only [Vfs.read, resolved, bad, if_true]⟩, ?_, fun _ => rfl⟩
        rintro ⟨node', at'', good⟩
        cases Option.some.inj (at'.symm.trans at'')
        exact absurd bad good
      · obtain ⟨r, n, ran, delivered⟩ := (@nodeReadIff fbSize v node h offset size buffer).mpr (fits node at' bad)
        have ok : Vfs.read (kernelFs fbSize) v path offset size buffer = .ok (v, r) := by
          simp only [Vfs.read, resolved, bad, if_false, ran]
        exact ⟨v, ⟨r, ok⟩, fun _ => ⟨rfl, node, r, at', ok, delivered⟩, fun _ => rfl⟩

theorem writeCleanIff (h : Sound v) {path : Chars} {offset size : Nat} {buffer : Buffer} :
    Clean fbSize v (.write path offset size buffer) ↔ Safe fbSize v (.write path offset size buffer) := by
  unfold Clean
  simp only [outcome]
  constructor
  · rintro ⟨v', ok, performs, -⟩
    have opens : Opens v path := by
      unfold Vfs.write at ok
      split at ok
      · cases ok
      · next v₁ found => exact (resolvesOpens found).1
      · next v₁ node found => exact (resolvesOpens found).1
    refine ⟨opens, fun node at' good => ?_⟩
    obtain ⟨node', at'', written⟩ := performs ⟨node, at', good⟩
    cases Option.some.inj (at'.symm.trans at'')
    have resolved := @opensResolves fbSize v path opens
    rw [at'] at resolved
    simp only [Vfs.write, resolved, good, if_false] at ok
    split at ok
    · cases ok
    · next disk resource n wrote =>
      cases ok
      exact (nodeWriteIff h offset size buffer).mp ⟨disk, resource, n, wrote, written⟩
  · rintro ⟨opens, fits⟩
    have resolved := @opensResolves fbSize v path opens
    cases at' : nodeAt v (split path slash) with
    | none =>
      rw [at'] at resolved
      refine ⟨v, by simp only [Vfs.write, resolved], ?_, fun _ => rfl⟩
      rintro ⟨node, at'', -⟩
      cases at'.symm.trans at''
    | some node =>
      rw [at'] at resolved
      by_cases bad : (v.nodes node).info.type = .INVALID
      · refine ⟨v, by simp only [Vfs.write, resolved, bad, if_true], ?_, fun _ => rfl⟩
        rintro ⟨node', at'', good⟩
        cases Option.some.inj (at'.symm.trans at'')
        exact absurd bad good
      · obtain ⟨disk, resource, n, wrote, written⟩ :=
          (@nodeWriteIff fbSize v node h offset size buffer).mpr (fits node at' bad)
        refine ⟨_, by simp only [Vfs.write, resolved, bad, if_false, wrote], fun _ => ⟨node, at', written⟩,
          fun missing => absurd ⟨node, at', bad⟩ missing⟩

theorem readDirCleanIff {path : Chars} : Clean fbSize v (.readDir path) ↔ Safe fbSize v (.readDir path) := by
  unfold Clean
  simp only [outcome, mapFst]
  constructor
  · rintro ⟨v', ⟨r, ok⟩, -⟩
    unfold Vfs.readDir at ok
    split at ok
    · cases ok
    · next v₁ found => exact (resolvesOpens found).1
    · next v₁ node found => exact (resolvesOpens found).1
  · intro opens
    have resolved := @opensResolves fbSize v path opens
    cases at' : nodeAt v (split path slash) with
    | none =>
      rw [at'] at resolved
      refine ⟨v, ⟨[], by simp only [Vfs.readDir, resolved]⟩, ?_, fun _ => rfl⟩
      rintro ⟨node, at''⟩
      cases at'.symm.trans at''
    | some node =>
      rw [at'] at resolved
      have ok : Vfs.readDir (kernelFs fbSize) v path = .ok (v, (v.nodes node).children) := by
        simp only [Vfs.readDir, resolved]
      exact ⟨v, ⟨_, ok⟩, fun _ => ⟨rfl, node, at', ok⟩, fun _ => rfl⟩

end calls

section
open RamDisk (createRamdisk)

theorem passesTop {v : VFS (Disk × Buffer)} {path : Chars} {n : Nat} (flat : split path slash = [[]]) :
    ¬ Lookup.Passes v path n := by
  rintro ⟨pre, post, shape, more, at'⟩
  rw [← Lookup.splitComponents, flat] at shape
  rcases List.cons_eq_append_iff.mp shape with ⟨rfl, -⟩ | ⟨pre', -, rest⟩
  · cases at'
  · exact more (List.append_eq_nil_iff.mp rest.symm).2

def faultOf (r : Except Fault (VFS (Disk × Buffer))) : Option Fault :=
  match r with
  | .error fault => some fault
  | .ok _ => none

theorem faultUnclean {v : VFS (Disk × Buffer)} {op : Op} {f : Fault}
    (failed : faultOf (outcome (kernelFs 16) v op) = some f) : ¬ Clean 16 v op := by
  rintro ⟨v', ok, -⟩
  rw [ok] at failed
  cases failed

end

end DimOS.Filesystem.Vfs.Errors
