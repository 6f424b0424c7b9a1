import DimOS.Filesystem.Vfs

/-! What the entry points of the VFS do to its nodes, read off once: how each update shows in
the fields of a node, and the cases of a call that returns. -/
namespace DimOS.Filesystem.Vfs
open Cpp.Containers
open RamDisk (NodeType VfsNode DirEntry)

section
variable {σ : Type}

def childNames (v : VFS σ) (n : Nat) : List Chars :=
  (v.nodes n).children.map (fun child => (v.nodes child).name)

namespace VFS

@[simp] theorem setNodeCount (v : VFS σ) (id : Nat) (node : Node) : (v.setNode id node).count = v.count := rfl

theorem setNodeNode (v : VFS σ) (id : Nat) (node : Node) (n : Nat) :
    (v.setNode id node).nodes n = if n = id then node else v.nodes n :=
  Function.update_apply v.nodes id node n

@[simp] theorem setInfoCount (v : VFS σ) (id : Nat) (info : VfsNode) :
    (v.setInfo id info).count = v.count := rfl

@[simp] theorem setInfoDisk (v : VFS σ) (id : Nat) (info : VfsNode) : (v.setInfo id info).disk = v.disk := rfl

@[simp] theorem setInfoChildren (v : VFS σ) (id : Nat) (info : VfsNode) (n : Nat) :
    ((v.setInfo id info).nodes n).children = (v.nodes n).children := by
  rw [setInfo, setNodeNode]
  split
  · next same => rw [same]
  · rfl

@[simp] theorem setInfoName (v : VFS σ) (id : Nat) (info : VfsNode) (n : Nat) :
    ((v.setInfo id info).nodes n).name = (v.nodes n).name := by
  rw [setInfo, setNodeNode]
  split
  · next same => rw [same]
  · rfl

@[simp] theorem setInfoParent (v : VFS σ) (id : Nat) (info : VfsNode) (n : Nat) :
    ((v.setInfo id info).nodes n).parent = (v.nodes n).parent := by
  rw [setInfo, setNodeNode]
  split
  · next same => rw [same]
  · rfl

@[simp] theorem setInfoFileSystem (v : VFS σ) (id : Nat) (info : VfsNode) (n : Nat) :
    ((v.setInfo id info).nodes n).fileSystem = (v.nodes n).fileSystem := by
  rw [setInfo, setNodeNode]
  split
  · next same => rw [same]
  · rfl

theorem setInfoInfo (v : VFS σ) (id : Nat) (info : VfsNode) (n : Nat) :
    ((v.setInfo id info).nodes n).info = if n = id then info else (v.nodes n).info := by
  rw [setInfo, setNodeNode]
  split <;> rfl

@[simp] theorem setChildrenCount (v : VFS σ) (id : Nat) (children : List Nat) :
    (v.setChildren id children).count = v.count := rfl

@[simp] theorem setChildrenDisk (v : VFS σ) (id : Nat) (children : List Nat) :
    (v.setChildren id children).disk = v.disk := rfl

theorem setChildrenNode (v : VFS σ) (id : Nat) (children : List Nat) (n : Nat) :
    (v.setChildren id children).nodes n =
      if n = id then { v.nodes id with children := children } else v.nodes n :=
  setNodeNode v id _ n

@[simp] theorem setChildrenName (v : VFS σ) (id : Nat) (children : List Nat) (n : Nat) :
    ((v.setChildren id children).nodes n).name = (v.nodes n).name := by
  rw [setChildrenNode]
  split
  · next same => rw [same]
  · rfl

@[simp] theorem addNodeCount (v : VFS σ) (parent : Nat) (name : Chars) (fs : Nat) (info : VfsNode) :
    (v.addNode parent name fs info).count = v.count + 1 := rfl

@[simp] theorem addNodeDisk (v : VFS σ) (parent : Nat) (name : Chars) (fs : Nat) (info : VfsNode) :
    (v.addNode parent name fs info).disk = v.disk := rfl

theorem addNodeNode (v : VFS σ) {parent : Nat} (name : Chars) (fs : Nat) (info : VfsNode)
    (inside : parent < v.count) (n : Nat) :
    (v.addNode parent name fs info).nodes n =
      if n = v.count then ⟨name, fs, info, [], some parent⟩
      else if n = parent then { v.nodes parent with children := (v.nodes parent).children ++ [v.count] }
      else v.nodes n := by
  have old : parent ≠ v.count := Nat.ne_of_lt inside
  unfold addNode
  rw [setChildrenNode]
  simp only [Function.update_of_ne old]
  by_cases isNew : n = v.count
  · subst isNew
    rw [if_neg old.symm, if_pos rfl, Function.update_self]
  · rw [if_neg isNew, Function.update_of_ne isNew]

end VFS

/- The numbers of children have been given out, and siblings differ in name. -/
structure Apart (v : VFS σ) : Prop where
  begun : root < v.count
  inside : ∀ n, ∀ child ∈ (v.nodes n).children, child < v.count
  siblings : ∀ n, (childNames v n).Nodup

theorem Apart.prune {v v' : VFS σ} (h : Apart v) (count : v'.count = v.count)
    (names : ∀ n, (v'.nodes n).name = (v.nodes n).name)
    (fewer : ∀ n, (v'.nodes n).children.Subperm (v.nodes n).children) : Apart v' := by
  refine ⟨count ▸ h.begun, ?_, ?_⟩
  · intro n child mem
    rw [count]
    exact h.inside n child ((fewer n).subset mem)
  · intro n
    have same : (fun child => (v'.nodes child).name) = fun child => (v.nodes child).name :=
      funext names
    unfold childNames
    rw [same]
    obtain ⟨kept, perm, sub⟩ := fewer n
    have nodup := (h.siblings n).sublist (sub.map (fun child => (v.nodes child).name))
    exact (perm.map _).nodup_iff.mp nodup

theorem Apart.addNode {v : VFS σ} (h : Apart v) {parent : Nat} {name : Chars} (fs : Nat)
    (info : VfsNode) (inside : parent < v.count) (new : name ∉ childNames v parent) :
    Apart (v.addNode parent name fs info) ∧
      childNames (v.addNode parent name fs info) parent = childNames v parent ++ [name] := by
  have old : ∀ n, ∀ child ∈ (v.nodes n).children,
      ((v.addNode parent name fs info).nodes child).name = (v.nodes child).name := by
    intro n child mem
    rw [VFS.addNodeNode v name fs info inside, if_neg (Nat.ne_of_lt (h.inside n child mem))]
    split
    · next same => rw [same]
    · rfl
  have added : childNames (v.addNode parent name fs info) parent = childNames v parent ++ [name] := by
    unfold childNames
    have children : ((v.addNode parent name fs info).nodes parent).children =
        (v.nodes parent).children ++ [v.count] := by
      rw [VFS.addNodeNode v name fs info inside, if_neg (Nat.ne_of_lt inside), if_pos rfl]
    have last : ((v.addNode parent name fs info).nodes v.count).name = name := by
      rw [VFS.addNodeNode v name fs info inside, if_pos rfl]
    rw [children, List.map_append, List.map_congr_left (old parent)]
    simp [last]
  refine ⟨⟨Nat.lt_succ_of_lt h.begun, ?_, ?_⟩, added⟩
  · intro n child mem
    rw [VFS.addNodeNode v name fs info inside] at mem
    rw [VFS.addNodeCount]
    split at mem
    · cases mem
    · split at mem
      · next same =>
        rcases List.mem_append.mp mem with mem | mem
        · exact Nat.lt_succ_of_lt (h.inside parent child mem)
        · cases List.mem_singleton.mp mem
          exact Nat.lt_succ_self _
      · exact Nat.lt_succ_of_lt (h.inside n child mem)
  · intro n
    by_cases isParent : n = parent
    · subst isParent
      rw [added]
      exact List.nodup_append.mpr ⟨h.siblings n, by simp, by
        intro a memA b memB same
        cases List.mem_singleton.mp memB
        exact new (same ▸ memA)⟩
    · by_cases isNew : n = v.count
      · subst isNew
        have none : ((v.addNode parent name fs info).nodes v.count).children = [] := by
          rw [VFS.addNodeNode v name fs info inside, if_pos rfl]
        simp [childNames, none]
      · have same : ((v.addNode parent name fs info).nodes n).children = (v.nodes n).children := by
          rw [VFS.addNodeNode v name fs info inside, if_neg isNew, if_neg isParent]
        unfold childNames
        rw [same, List.map_congr_left (old n)]
        exact h.siblings n

variable {F : FileSystem σ}

theorem mkNodeCases {type : NodeType} {rest : Nat → BitVec 8} {v v' : VFS σ} {path : Chars}
    {r : Option Nat} (ok : mkNode F type rest v path = .ok (v', r)) :
    ∃ parentPath name v₁, cut path = some (parentPath, name) ∧
      ((resolvePath F v parentPath = .ok (v₁, none) ∧ v' = v₁ ∧ r = none) ∨
        ∃ parent id, resolvePath F v parentPath = .ok (v₁, some parent) ∧
          createIn F type rest v₁ parent name = .ok (v', id) ∧ r = some id) := by
  unfold mkNode at ok
  split at ok
  · cases ok
  · next parentPath name shape =>
    split at ok
    · cases ok
    · next v₁ found =>
      cases ok
      exact ⟨parentPath, name, v', shape, .inl ⟨found, rfl, rfl⟩⟩
    · next v₁ parent found =>
      cases made : createIn F type rest v₁ parent name with
      | error fault =>
        rw [made] at ok
        cases ok
      | ok out =>
        rw [made] at ok
        cases ok
        exact ⟨parentPath, name, v₁, shape, .inr ⟨parent, out.2, found, made, rfl⟩⟩

theorem createInCases {type : NodeType} {rest : Nat → BitVec 8} {v v' : VFS σ} {parent id : Nat}
    {name : Chars} (ok : createIn F type rest v parent name = .ok (v', id)) :
    id = v.count ∧ ∃ disk info mid disk' info',
      F.create v.disk (v.nodes parent).fileSystem type = some (disk, info) ∧
      mid = { v with disk := disk }.addNode parent name (v.nodes parent).fileSystem info ∧
      F.writeDir mid.disk (mid.nodes parent).fileSystem (mid.nodes parent).info
        [fromStringName rest name info.resource.inode] = some (disk', info') ∧
      v' = { mid with disk := disk' }.setInfo parent info' := by
  unfold createIn at ok
  split at ok
  · cases ok
  · next disk info made =>
    dsimp only at ok
    split at ok
    · cases ok
    · next disk' info' wrote =>
      cases ok
      exact ⟨rfl, disk, info, _, disk', info', made, rfl, wrote, rfl⟩

theorem mntLockedCases {v v' : VFS σ} {path : Chars} {fs : Nat} {inode : Int} {r : Option Nat}
    (ok : mntLocked F v path fs inode = .ok (v', r)) :
    ∃ parentPath name v₁, cut path = some (parentPath, name) ∧
      ((resolvePath F v parentPath = .ok (v₁, none) ∧ v' = v₁ ∧ r = none) ∨
        ∃ parent, resolvePath F v parentPath = .ok (v₁, some parent) ∧
          v' = v₁.addNode parent name fs (F.populateVFSNode v₁.disk fs inode) ∧ r = some v₁.count) := by
  unfold mntLocked at ok
  split at ok
  · cases ok
  · next parentPath name shape =>
    split at ok
    · cases ok
    · next v₁ found =>
      cases ok
      exact ⟨parentPath, name, v', shape, .inl ⟨found, rfl, rfl⟩⟩
    · next v₁ parent found =>
      cases ok
      exact ⟨parentPath, name, v₁, shape, .inr ⟨parent, found, rfl, rfl⟩⟩

theorem removeNodeCases {v v' : VFS σ} {node : Nat} (ok : removeNode F v node = .ok v') :
    ∃ parent disk disk', (v.nodes node).parent = some parent ∧
      F.remove v.disk (v.nodes node).fileSystem (v.nodes node).info = some disk ∧
      F.removeDirEntry disk (v.nodes parent).fileSystem (v.nodes parent).info
        ⟨fun _ => 0#8, (v.nodes node).info.resource.inode⟩ = some disk' ∧
      v' = { v with disk := disk' }.setChildren parent
        (fastErase (v.nodes parent).children (find (v.nodes parent).children node)) := by
  unfold removeNode at ok
  dsimp only at ok
  split at ok
  · cases ok
  · next disk removed =>
    split at ok
    · cases ok
    · next parent up =>
      split at ok
      · cases ok
      · next disk' dropped =>
        cases ok
        refine ⟨parent, disk, disk', up, removed, ?_, rfl⟩
        simpa [VFS.setChildrenNode] using dropped

end

end DimOS.Filesystem.Vfs
