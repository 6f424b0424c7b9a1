import DimOS.Filesystem.RamDiskPlaced
import DimOS.Filesystem.VfsOpenRuns
import DimOS.Filesystem.VfsDisk

/-! What holds of the kernel's VFS in every run, whatever the calls are: its nodes form a tree, in which
siblings may share a name, and the slots of the RamDisk hold blocks of the disk. Nothing is asked of the
bitset, so the disk may have been mounted twice, nor of the inodes that nodes show. -/
namespace DimOS.Filesystem.Vfs.Files
open Cpp.Containers
open Errors (Op outcome)
open Open (nodeAt inodeOf resolveAt nodeAtSpec framebufferIsDevice)
open OnDisk (Linked)
open RamDisk (Disk NodeType VfsNode Resource Buffer Placed SlotsFrom)
open Lib.PathTree (walk)
open Lib.Transition (run invariantRunAll)

section tree
variable {σ : Type} {v v' : VFS σ}

structure Hung (v : VFS σ) : Prop where
  begun : root < v.count
  inside : ∀ n, ∀ c ∈ (v.nodes n).children, c < v.count
  once : ∀ n, (v.nodes n).children.Nodup
  parents : ∀ n, ∀ c ∈ (v.nodes n).children, (v.nodes c).parent = some n
  top : (v.nodes root).parent = none

theorem Hung.linked (h : Hung v) {n : Nat} (linked : Linked v n) : n < v.count := by
  rcases linked with rfl | ⟨p, mem⟩
  · exact h.begun
  · exact h.inside p n mem

theorem Hung.fewer (h : Hung v) (count : v'.count = v.count) (parents : ∀ n, (v'.nodes n).parent = (v.nodes n).parent)
    (children : ∀ n, (v'.nodes n).children.Subperm (v.nodes n).children) : Hung v' := by
  refine ⟨count ▸ h.begun, fun n c mem => ?_, fun n => ?_, fun n c mem => ?_, by rw [parents]; exact h.top⟩
  · rw [count]
    exact h.inside n c ((children n).subset mem)
  · obtain ⟨kept, perm, sub⟩ := children n
    exact perm.nodup_iff.mp ((h.once n).sublist sub)
  · rw [parents]
    exact h.parents n c ((children n).subset mem)

theorem addNodeChildren (v : VFS σ) {parent : Nat} (name : Chars) (fs : Nat) (info : VfsNode)
    (inside : parent < v.count) (n : Nat) :
    ((v.addNode parent name fs info).nodes n).children =
      if n = v.count then [] else if n = parent then (v.nodes n).children ++ [v.count] else (v.nodes n).children := by
  rw [VFS.addNodeNode v name fs info inside]
  split
  · rfl
  · split
    · next same => rw [same]
    · rfl

theorem Hung.addNode (h : Hung v) {parent : Nat} (name : Chars) (fs : Nat) (info : VfsNode)
    (inside : parent < v.count) : Hung (v.addNode parent name fs info) := by
  have up : ∀ n, n < v.count → ((v.addNode parent name fs info).nodes n).parent = (v.nodes n).parent := by
    intro n old
    rw [VFS.addNodeNode v name fs info inside, if_neg (Nat.ne_of_lt old)]
    split
    · next same => rw [same]
    · rfl
  refine ⟨Nat.lt_succ_of_lt h.begun, fun n c mem => ?_, fun n => ?_, fun n c mem => ?_, (up root h.begun).trans h.top⟩
  all_goals rw [addNodeChildren v name fs info inside] at *
  · rw [VFS.addNodeCount]
    split at mem
    · cases mem
    · split at mem
      · rcases List.mem_append.mp mem with old | new
        · exact Nat.lt_succ_of_lt (h.inside n c old)
        · cases List.mem_singleton.mp new
          exact Nat.lt_succ_self _
      · exact Nat.lt_succ_of_lt (h.inside n c mem)
  · split
    · exact List.nodup_nil
    · split
      · refine List.nodup_append.mpr ⟨h.once n, by simp, fun a old b new same => ?_⟩
        cases List.mem_singleton.mp new
        exact Nat.lt_irrefl _ (same ▸ h.inside n a old)
      · exact h.once n
  · split at mem
    · cases mem
    · split at mem
      · next here =>
        rcases List.mem_append.mp mem with old | new
        · rw [up c (h.inside n c old)]
          exact h.parents n c old
        · cases List.mem_singleton.mp new
          rw [VFS.addNodeNode v name fs info inside, if_pos rfl, here]
      · rw [up c (h.inside n c mem)]
        exact h.parents n c mem

theorem linkedAdd {parent : Nat} {name : Chars} {fs : Nat} {info : VfsNode} (inside : parent < v.count) {n : Nat}
    (linked : Linked (v.addNode parent name fs info) n) : n = v.count ∨ Linked v n := by
  rcases linked with rfl | ⟨p, mem⟩
  · exact .inr (.inl rfl)
  · rw [addNodeChildren v name fs info inside] at mem
    split at mem
    · cases mem
    · split at mem
      · rcases List.mem_append.mp mem with old | new
        · exact .inr (.inr ⟨p, old⟩)
        · exact .inl (List.mem_singleton.mp new)
      · exact .inr (.inr ⟨p, mem⟩)

theorem Hung.proper (h : Hung v) : Lib.PathTree.Proper (findChild v) root := Open.properOf h.parents h.top

theorem Hung.remove (h : Hung v) {node parent : Nat} (disk : σ) (up : (v.nodes node).parent = some parent) :
    Hung ({ v with disk := disk }.setChildren parent
        (fastErase (v.nodes parent).children (find (v.nodes parent).children node))) ∧
      (∀ n, Linked ({ v with disk := disk }.setChildren parent
        (fastErase (v.nodes parent).children (find (v.nodes parent).children node))) n → Linked v n ∧ n ≠ node) ∧
      ∀ n, (({ v with disk := disk }.setChildren parent
        (fastErase (v.nodes parent).children (find (v.nodes parent).children node))).nodes n).fileSystem =
          (v.nodes n).fileSystem ∧
        (({ v with disk := disk }.setChildren parent
          (fastErase (v.nodes parent).children (find (v.nodes parent).children node))).nodes n).info =
          (v.nodes n).info := by
  generalize erasedEq : fastErase (v.nodes parent).children (find (v.nodes parent).children node) = left
  have erased : left.Perm ((v.nodes parent).children.erase node) := erasedEq ▸ fastEraseFind _ node
  have shape := VFS.setChildrenNode { v with disk := disk } parent left
  have same : ∀ n, (({ v with disk := disk }.setChildren parent left).nodes n).parent = (v.nodes n).parent ∧
      (({ v with disk := disk }.setChildren parent left).nodes n).fileSystem = (v.nodes n).fileSystem ∧
      (({ v with disk := disk }.setChildren parent left).nodes n).info = (v.nodes n).info := by
    intro n
    rw [shape]
    split
    · next here => rw [here]; exact ⟨rfl, rfl, rfl⟩
    · exact ⟨rfl, rfl, rfl⟩
  refine ⟨h.fewer rfl (fun n => (same n).1) (fun n => ?_), ?_, fun n => (same n).2⟩
  · rw [shape]
    split
    · next here =>
      rw [here]
      exact erased.subperm.trans (List.erase_sublist.subperm)
    · exact List.Subperm.refl _
  · rintro n (rfl | ⟨p, mem⟩)
    · refine ⟨.inl rfl, ?_⟩
      rintro rfl
      rw [h.top] at up
      cases up
    · rw [shape] at mem
      split at mem
      · next here =>
        obtain ⟨other, old⟩ := ((h.once parent).mem_erase_iff).mp (erased.mem_iff.mp mem)
        exact ⟨.inr ⟨parent, old⟩, other⟩
      · next elsewhere =>
        refine ⟨.inr ⟨p, mem⟩, ?_⟩
        rintro rfl
        exact elsewhere (Option.some.inj ((h.parents p n mem).symm.trans up))

end tree

section calls
variable {fbSize : Nat} {v v' : VFS (Disk × Buffer)}

theorem walkLinked {curr n : Nat} {names : List Chars} (start : Linked v curr)
    (found : walk (findChild v) curr names = some n) : Linked v n := by
  induction names generalizing curr with
  | nil =>
    cases Option.some.inj found
    exact start
  | cons name rest ih =>
    obtain ⟨child, first, found⟩ := Option.bind_eq_some_iff.mp found
    exact ih (.inr ⟨curr, (Open.findChildSpec first).1⟩) found

theorem nodeAtLinked {comps : List Chars} {n : Nat} (found : nodeAt v comps = some n) : Linked v n := by
  obtain ⟨names, -, walked⟩ := nodeAtSpec found
  exact walkLinked (.inl rfl) walked

theorem resolveStays {path : Chars} {v₁ : VFS (Disk × Buffer)} {r : Option Nat}
    (found : resolvePath (kernelFs fbSize) v path = .ok (v₁, r)) : v₁ = v ∧ r = nodeAt v (split path slash) :=
  Prod.mk.inj (resolveAt (framebufferIsDevice 2 fbSize) found)

theorem toOptionOk {ε α : Type} {x : Except ε α} {y : α} (done : x.toOption = some y) : x = .ok y := by
  cases x with
  | error fault => cases done
  | ok z =>
    cases Option.some.inj done
    rfl

def step (fbSize : Nat) (v : VFS (Disk × Buffer)) (op : Op) : Option (VFS (Disk × Buffer)) :=
  (outcome (kernelFs fbSize) v op).toOption

theorem mapOk {ε α β : Type} {x : Except ε α} {f : α → β} {y : β} (done : x.map f = .ok y) :
    ∃ a, x = .ok a ∧ f a = y := by
  cases x with
  | error fault => cases done
  | ok a =>
    cases done
    exact ⟨a, rfl, rfl⟩

theorem readStays {path : Chars} {offset size : Nat} {buffer : Buffer} {r : Buffer}
    (ok : read (kernelFs fbSize) v path offset size buffer = .ok (v', r)) : v' = v := by
  unfold read at ok
  split at ok
  · cases ok
  · next v₁ found =>
    cases ok
    exact (resolveStays found).1
  · next v₁ node found =>
    have stays := (resolveStays found).1
    split at ok
    · cases ok
      exact stays
    · split at ok
      · cases ok
      · cases ok
        exact stays

theorem readDirStays {path : Chars} {r : List Nat} (ok : readDir (kernelFs fbSize) v path = .ok (v', r)) : v' = v := by
  unfold readDir at ok
  split at ok
  · cases ok
  · next v₁ found =>
    cases ok
    exact (resolveStays found).1
  · next v₁ node found =>
    cases ok
    exact (resolveStays found).1

theorem createInNodes {F : FileSystem (Disk × Buffer)} {type : NodeType} {rest : Nat → BitVec 8} {parent id : Nat}
    {name : Chars} (inside : parent < v.count) (ok : createIn F type rest v parent name = .ok (v', id)) :
    (∀ n, n < v.count → n ≠ parent → v'.nodes n = v.nodes n) ∧
      (v'.nodes parent).children = (v.nodes parent).children ++ [v.count] := by
  obtain ⟨-, disk, info, mid, disk', info', -, shape, -, rfl⟩ := createInCases ok
  subst shape
  constructor
  · intro n old other
    rw [VFS.setInfo, VFS.setNodeNode, if_neg other]
    show (({ v with disk := disk }.addNode parent name _ info).nodes n) = v.nodes n
    rw [VFS.addNodeNode _ name _ info (by exact inside), if_neg (Nat.ne_of_lt old), if_neg other]
  · rw [VFS.setInfoChildren]
    show (({ v with disk := disk }.addNode parent name _ info).nodes parent).children = _
    rw [VFS.addNodeNode _ name _ info (by exact inside), if_neg (Nat.ne_of_lt inside), if_pos rfl]

theorem createInDisk {type : NodeType} {rest : Nat → BitVec 8} {parent id : Nat} {name : Chars}
    (inside : parent < v.count) (onDisk : (v.nodes parent).fileSystem = 0)
    (ok : createIn (kernelFs fbSize) type rest v parent name = .ok (v', id)) :
    ∃ d info, v.disk.1.create 1 type = some (d, info) ∧
      d.writeDir (v.nodes parent).info [fromStringName rest name info.resource.inode] = some v'.disk.1 ∧
      id = v.count ∧ v'.count = v.count + 1 ∧ (v'.nodes id).info = info ∧ (v'.nodes id).name = name ∧
      v'.disk.2 = v.disk.2 := by
  obtain ⟨rfl, disk, info, mid, disk', info', created, rfl, wrote, rfl⟩ := createInCases ok
  have old := @Open.addNodeOld Buffer v parent name disk (v.nodes parent).fileSystem info inside parent inside
  have new := VFS.addNodeNode { v with disk := disk } name (v.nodes parent).fileSystem info inside v.count
  rw [if_pos rfl] at new
  rw [old.1, old.2] at wrote
  simp only [kernelFs, withRamDisk, onDisk, if_true] at created wrote
  obtain ⟨⟨d, made⟩, create, pair⟩ := Option.map_eq_some_iff.mp created
  simp only [Prod.mk.injEq] at pair
  obtain ⟨rfl, rfl⟩ := pair
  obtain ⟨d', write, pair⟩ := Option.map_eq_some_iff.mp wrote
  simp only [Prod.mk.injEq] at pair
  obtain ⟨rfl, -⟩ := pair
  refine ⟨d, made, create, write, rfl, rfl, ?_, ?_, rfl⟩
  · rw [VFS.setInfoInfo, if_neg (Nat.ne_of_gt inside)]
    exact congrArg (fun node => node.info) new
  · rw [VFS.setInfoName]
    exact congrArg (fun node => node.name) new

theorem createInHung {F : FileSystem (Disk × Buffer)} {type : NodeType} {rest : Nat → BitVec 8} {parent id : Nat}
    {name : Chars} (hung : Hung v) (inside : parent < v.count) (ok : createIn F type rest v parent name = .ok (v', id)) :
    Hung v' ∧ (∀ n, Linked v' n → n = v.count ∨ Linked v n) ∧
      ∀ n, n < v.count → (v'.nodes n).fileSystem = (v.nodes n).fileSystem := by
  obtain ⟨-, disk, info, mid, disk', info', -, shape, -, rfl⟩ := createInCases ok
  have grown : Hung mid := by
    rw [shape]
    exact Hung.addNode (v := { v with disk := disk }) ⟨hung.1, hung.2, hung.3, hung.4, hung.5⟩ name _ info inside
  refine ⟨grown.fewer rfl (fun n => VFS.setInfoParent _ _ _ n) (fun n => ?_), fun n linked => ?_, fun n old => ?_⟩
  · rw [VFS.setInfoChildren]
  · have before : Linked mid n := by
      rcases linked with rfl | ⟨p, mem⟩
      · exact .inl rfl
      · rw [VFS.setInfoChildren] at mem
        exact .inr ⟨p, mem⟩
    rw [shape] at before
    exact linkedAdd (v := { v with disk := disk }) inside before
  · rw [VFS.setInfoFileSystem, shape]
    exact (Open.addNodeOld disk _ info inside old).1

theorem createInSlots {type : NodeType} {rest : Nat → BitVec 8} {parent id : Nat} {name : Chars}
    (ok : createIn (kernelFs fbSize) type rest v parent name = .ok (v', id)) : SlotsFrom v.disk.1 v'.disk.1 := by
  obtain ⟨-, disk, info, mid, disk', info', created, shape, wrote, rfl⟩ := createInCases ok
  have midDisk : mid.disk = disk := by
    rw [shape]
    rfl
  rw [midDisk] at wrote
  have first : SlotsFrom v.disk.1 disk.1 := by
    simp only [kernelFs, withRamDisk] at created
    split at created
    · obtain ⟨⟨d₁, info₁⟩, made, pair⟩ := Option.map_eq_some_iff.mp created
      cases (Prod.mk.inj pair).1
      have slots := RamDisk.createSlots made
      exact slots
    · obtain ⟨t, -, pair⟩ := Option.map_eq_some_iff.mp created
      cases (Prod.mk.inj pair).1
      exact .refl _
  refine first.trans ?_
  simp only [kernelFs, withRamDisk] at wrote
  split at wrote
  · obtain ⟨d₂, written, pair⟩ := Option.map_eq_some_iff.mp wrote
    cases (Prod.mk.inj pair).1
    exact RamDisk.writeDirSlots written
  · obtain ⟨t, -, pair⟩ := Option.map_eq_some_iff.mp wrote
    cases (Prod.mk.inj pair).1
    exact .refl _

theorem removeNodeSlots {node : Nat} (ok : removeNode (kernelFs fbSize) v node = .ok v') :
    SlotsFrom v.disk.1 v'.disk.1 := by
  obtain ⟨parent, disk, disk', up, removed, dropped, rfl⟩ := removeNodeCases ok
  have first : SlotsFrom v.disk.1 disk.1 := by
    simp only [kernelFs, withRamDisk] at removed
    split at removed
    · obtain ⟨d₁, gone, rfl⟩ := Option.map_eq_some_iff.mp removed
      exact RamDisk.removeSlots gone
    · obtain ⟨t, -, rfl⟩ := Option.map_eq_some_iff.mp removed
      exact .refl _
  refine first.trans ?_
  simp only [kernelFs, withRamDisk] at dropped
  split at dropped
  · obtain ⟨d₂, gone, rfl⟩ := Option.map_eq_some_iff.mp dropped
    exact RamDisk.removeDirEntrySlots gone
  · obtain ⟨t, -, rfl⟩ := Option.map_eq_some_iff.mp dropped
    exact .refl _

def Standing (v : VFS (Disk × Buffer)) : Prop := Hung v ∧ Placed v.disk.1

theorem mkNodeStanding {type : NodeType} {rest : Nat → BitVec 8} {path : Chars} {r : Option Nat} (h : Standing v)
    (ok : mkNode (kernelFs fbSize) type rest v path = .ok (v', r)) : Standing v' := by
  obtain ⟨parentPath, name, v₁, -, ⟨missing, rfl, -⟩ | ⟨parent, id, found, made, -⟩⟩ := mkNodeCases ok
  · obtain ⟨rfl, -⟩ := resolveStays missing
    exact h
  · obtain ⟨rfl, at'⟩ := resolveStays found
    exact ⟨(createInHung h.1 (h.1.linked (nodeAtLinked at'.symm)) made).1, (createInSlots made).placed h.2⟩

theorem mntStanding {path : Chars} {fs : Nat} {inode : Int} {r : Option Nat} (h : Standing v)
    (ok : mnt (kernelFs fbSize) v path fs inode = .ok (v', r)) : Standing v' := by
  unfold mnt openNode at ok
  split at ok
  · cases ok
  · next v₁ n found =>
    obtain ⟨rfl, -⟩ := resolveStays found
    cases ok
    exact h
  · next v₁ found =>
    obtain ⟨rfl, -⟩ := resolveStays found
    obtain ⟨parentPath, name, v₂, -, ⟨missing, rfl, -⟩ | ⟨parent, found', rfl, -⟩⟩ := mntLockedCases ok
    · obtain ⟨rfl, -⟩ := resolveStays missing
      exact h
    · obtain ⟨rfl, at'⟩ := resolveStays found'
      exact ⟨h.1.addNode _ _ _ (h.1.linked (nodeAtLinked at'.symm)), h.2⟩

theorem removeStanding {node : Nat} (h : Standing v) (ok : removeNode (kernelFs fbSize) v node = .ok v') :
    Standing v' := by
  have placed := (removeNodeSlots ok).placed h.2
  obtain ⟨parent, disk, disk', up, -, -, rfl⟩ := removeNodeCases ok
  exact ⟨(h.1.remove disk' up).1, placed⟩

theorem writeStanding {path : Chars} {offset size : Nat} {buffer : Buffer} (h : Standing v)
    (ok : write (kernelFs fbSize) v path offset size buffer = .ok v') : Standing v' := by
  unfold write at ok
  split at ok
  · cases ok
  · next v₁ found =>
    obtain ⟨rfl, -⟩ := resolveStays found
    cases ok
    exact h
  · next v₁ node found =>
    obtain ⟨rfl, at'⟩ := resolveStays found
    split at ok
    · cases ok
      exact h
    · split at ok
      · cases ok
      · next disk resource bytes wrote =>
        cases ok
        refine ⟨h.1.fewer rfl (fun n => VFS.setInfoParent { v₁ with disk := disk } _ _ n)
          (fun n => by rw [VFS.setInfoChildren]), ?_⟩
        simp only [kernelFs, withRamDisk] at wrote
        split at wrote
        · obtain ⟨out, written, pair⟩ := Option.map_eq_some_iff.mp wrote
          simp only [Prod.mk.injEq] at pair
          obtain ⟨rfl, -, -⟩ := pair
          exact (RamDisk.writeSlots written).placed h.2
        · obtain ⟨out, -, pair⟩ := Option.map_eq_some_iff.mp wrote
          cases (Prod.mk.inj pair).1
          exact h.2

theorem stepStanding {op : Op} (h : Standing v) (taken : step fbSize v op = some v') : Standing v' := by
  have ok := toOptionOk taken
  cases op with
  | mkdir path rest =>
    obtain ⟨⟨out, r⟩, made, rfl⟩ := mapOk ok
    exact mkNodeStanding h made
  | mkfile path rest =>
    obtain ⟨⟨out, r⟩, made, rfl⟩ := mapOk ok
    exact mkNodeStanding h made
  | mnt path fs inode =>
    obtain ⟨⟨out, r⟩, made, rfl⟩ := mapOk ok
    exact mntStanding h made
  | rmdir path =>
    obtain ⟨v₁, node, found, rest⟩ := Errors.rmdirOutcome.mp ok
    obtain ⟨rfl, at'⟩ := resolveStays found
    split at rest
    · cases rest
      exact h
    · exact removeStanding h rest
  | rmfile path =>
    obtain ⟨v₁, node, found, rest⟩ := Errors.rmfileOutcome.mp ok
    obtain ⟨rfl, at'⟩ := resolveStays found
    split at rest
    · cases rest
      exact h
    · exact removeStanding h rest
  | read path offset size buffer =>
    obtain ⟨⟨out, r⟩, made, rfl⟩ := mapOk ok
    rw [readStays made]
    exact h
  | write path offset size buffer => exact writeStanding h ok
  | readDir path =>
    obtain ⟨⟨out, r⟩, made, rfl⟩ := mapOk ok
    rw [readDirStays made]
    exact h

/-- Every run of the entry points over the kernel's disk. -/
theorem reachedStanding {nodeCount blockCount : Nat} {d : Disk} {ops : List Op}
    (made : RamDisk.createRamdisk nodeCount blockCount = some d)
    (reached : run (step fbSize) (globalVFS fbSize d) ops = some v) : Standing v := by
  obtain ⟨d', root', rfl⟩ := Option.map_eq_some_iff.mp made
  refine invariantRunAll Standing (fun _ _ _ => stepStanding) ⟨⟨?_, ?_, ?_, ?_, rfl⟩, (RamDisk.rootPlaced root').2⟩ reached
  · exact Nat.zero_lt_one
  · exact fun n c mem => absurd mem List.not_mem_nil
  · exact fun n => List.nodup_nil
  · exact fun n c mem => absurd mem List.not_mem_nil

end calls

end DimOS.Filesystem.Vfs.Files
