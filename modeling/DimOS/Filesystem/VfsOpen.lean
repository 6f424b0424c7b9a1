import DimOS.Lib.PathTree
import DimOS.Filesystem.VfsTree
import DimOS.Filesystem.RamDiskFrame

/-! Creating and opening over one RamDisk. The tree of the VFS is a tree in the sense of
PathTree, with the first child of a name as the edge, and a creation grafts one node on it.
Nothing is ever loaded: a directory without cached children is one without entries on disk,
because every entry was written together with a child. -/
namespace DimOS.Filesystem.Vfs.Open
open Cpp.Containers
open Lib.PathTree (walk Proper Grafted walkSnoc walkGrafted)
open RamDisk (Disk NodeType VfsNode DirEntry Live Owned NoEntries Keeps)

/- What is asked of the file systems that are mounted beside the RamDisk: they list nothing,
and their calls return. -/
structure Device {τ : Type} (G : FileSystem τ) : Prop where
  lists : ∀ t fs node, G.readDir t fs node = some []
  creates : ∀ t fs type, (G.create t fs type).isSome
  writes : ∀ t fs node entries, (G.writeDir t fs node entries).isSome

section tree
variable {σ : Type} {F : FileSystem σ} {v : VFS σ}

/- The node at a list of components, the first of which is the name of the root. -/
def nodeAt (v : VFS σ) : List Chars → Option Nat
  | [] => none
  | first :: rest => if first ≠ (v.nodes root).name then none else walk (findChild v) root rest

theorem findChildSpec {curr child : Nat} {name : Chars} (found : findChild v curr name = some child) :
    child ∈ (v.nodes curr).children ∧ (v.nodes child).name = name := by
  refine ⟨List.mem_of_find?_eq_some found, ?_⟩
  simpa using List.find?_some found

theorem findChildNone {curr : Nat} {name : Chars} (new : name ∉ childNames v curr) :
    findChild v curr name = none := by
  apply List.find?_eq_none.mpr
  intro child mem same
  exact new (List.mem_map.mpr ⟨child, mem, by simpa using same⟩)

theorem walkInside (h : Apart v) {curr n : Nat} {names : List Chars} (inside : curr < v.count)
    (found : walk (findChild v) curr names = some n) : n < v.count := by
  induction names generalizing curr with
  | nil =>
    cases Option.some.inj found
    exact inside
  | cons name rest ih =>
    obtain ⟨child, first, found⟩ := Option.bind_eq_some_iff.mp found
    exact ih (h.inside curr child (findChildSpec first).1) found

theorem resolvePast {curr n : Nat} {names : List Chars} (more : List Chars)
    (found : walk (findChild v) curr names = some n) :
    resolvePathUtil F (names ++ more) v curr = resolvePathUtil F more v n := by
  induction names generalizing curr with
  | nil =>
    cases Option.some.inj found
    rfl
  | cons name rest ih =>
    obtain ⟨child, first, found⟩ := Option.bind_eq_some_iff.mp found
    have cached : (v.nodes curr).children ≠ [] := List.ne_nil_of_mem (findChildSpec first).1
    simp only [List.cons_append, resolvePathUtil, loadChildren, cached, if_false, first]
    exact ih found

theorem resolveFound {curr n : Nat} {names : List Chars} (found : walk (findChild v) curr names = some n) :
    resolvePathUtil F names v curr = .ok (v, some n) := by
  have past := resolvePast (F := F) [] found
  rw [List.append_nil] at past
  exact past

theorem resolveReturns {curr : Nat} {names : List Chars}
    (listed : ∀ pre name post n, names = pre ++ name :: post → walk (findChild v) curr pre = some n →
      (v.nodes n).children = [] → F.readDir v.disk (v.nodes n).fileSystem (v.nodes n).info = some []) :
    resolvePathUtil F names v curr = .ok (v, walk (findChild v) curr names) := by
  induction names generalizing curr with
  | nil => rfl
  | cons name rest ih =>
    have here : loadChildren F v curr = .ok v := by
      unfold loadChildren
      split
      · next empty =>
        rw [addChildren, listed [] name rest curr rfl rfl empty]
        rfl
      · rfl
    simp only [resolvePathUtil, here, walk]
    cases first : findChild v curr name with
    | none => rfl
    | some child =>
      apply ih
      intro pre name' post n shape found
      refine listed (name :: pre) name' post n (by rw [shape]; rfl) ?_
      simp only [walk, first, Option.bind_some, found]

theorem resolveSame {curr : Nat} {names : List Chars} {out : VFS σ × Option Nat}
    (settled : ∀ n entries, F.readDir v.disk (v.nodes n).fileSystem (v.nodes n).info = some entries →
      entries = [])
    (ok : resolvePathUtil F names v curr = .ok out) : out = (v, walk (findChild v) curr names) := by
  induction names generalizing curr with
  | nil =>
    cases ok
    rfl
  | cons name rest ih =>
    simp only [resolvePathUtil] at ok
    split at ok
    · cases ok
    · next v₁ loaded =>
      have same : v₁ = v := by
        unfold loadChildren addChildren at loaded
        split at loaded
        · split at loaded
          · cases loaded
          · next entries listed =>
            cases settled curr entries listed
            cases loaded
            rfl
        · cases loaded
          rfl
      subst same
      split at ok
      · next missing =>
        cases ok
        simp only [walk, missing, Option.bind_none]
      · next child first =>
        simp only [walk, first, Option.bind_some]
        exact ih ok

structure Tree (v : VFS σ) : Prop where
  apart : Apart v
  parents : ∀ n, ∀ child ∈ (v.nodes n).children, (v.nodes child).parent = some n
  top : (v.nodes root).parent = none

theorem properOf (parents : ∀ n, ∀ child ∈ (v.nodes n).children, (v.nodes child).parent = some n)
    (top : (v.nodes root).parent = none) : Proper (findChild v) root := by
  intro p
  induction p using List.reverseRecOn with
  | nil =>
    intro q t atP atQ
    cases Option.some.inj atP
    rcases q.eq_nil_or_concat with rfl | ⟨init, name, rfl⟩
    · rfl
    · rw [List.concat_eq_append, walkSnoc] at atQ
      obtain ⟨mid, -, last⟩ := Option.bind_eq_some_iff.mp atQ
      have up := parents mid root (findChildSpec last).1
      rw [top] at up
      cases up
  | append_singleton p name ih =>
    intro q t atP atQ
    rw [walkSnoc] at atP
    obtain ⟨mid, toMid, last⟩ := Option.bind_eq_some_iff.mp atP
    have up := parents mid t (findChildSpec last).1
    rcases q.eq_nil_or_concat with rfl | ⟨init, name', rfl⟩
    · cases Option.some.inj atQ
      rw [top] at up
      cases up
    · rw [List.concat_eq_append, walkSnoc] at atQ
      obtain ⟨mid', toMid', last'⟩ := Option.bind_eq_some_iff.mp atQ
      have up' := parents mid' t (findChildSpec last').1
      rw [up] at up'
      cases Option.some.inj up'
      rw [ih init mid toMid toMid', ← (findChildSpec last).2, (findChildSpec last').2,
        List.concat_eq_append]

theorem Tree.proper (h : Tree v) : Proper (findChild v) root := properOf h.parents h.top

/- The new node, in any state that differs from addNode in infos and the disk only. -/
structure Planted (v v' : VFS σ) (parent : Nat) (name : Chars) : Prop where
  inside : parent < v.count
  new : name ∉ childNames v parent
  count : v'.count = v.count + 1
  names : ∀ n, (v'.nodes n).name = if n = v.count then name else (v.nodes n).name
  children : ∀ n, (v'.nodes n).children = if n = v.count then []
    else if n = parent then (v.nodes parent).children ++ [v.count] else (v.nodes n).children
  parents : ∀ n, (v'.nodes n).parent = if n = v.count then some parent else (v.nodes n).parent

theorem Planted.oldNames {v' : VFS σ} {parent : Nat} {name : Chars} (plant : Planted v v' parent name)
    (h : Apart v) {n child : Nat} (mem : child ∈ (v.nodes n).children) :
    (v'.nodes child).name = (v.nodes child).name := by
  rw [plant.names, if_neg (Nat.ne_of_lt (h.inside n child mem))]

theorem Planted.grafted {v' : VFS σ} {parent : Nat} {name : Chars} (plant : Planted v v' parent name)
    (h : Apart v) : Grafted (findChild v) (findChild v') parent name v.count := by
  have old : ∀ n, ∀ child ∈ (v.nodes n).children, ∀ other,
      ((v'.nodes child).name == other) = ((v.nodes child).name == other) := by
    intro n child mem other
    rw [plant.oldNames h mem]
  have newName : (v'.nodes v.count).name = name := by
    rw [plant.names, if_pos rfl]
  have atParent : (v'.nodes parent).children = (v.nodes parent).children ++ [v.count] := by
    rw [plant.children, if_neg (Nat.ne_of_lt plant.inside), if_pos rfl]
  have before : ∀ other, (v.nodes parent).children.find? (fun child => (v'.nodes child).name == other) =
      findChild v parent other := by
    intro other
    exact List.find?_congr (fun child mem => old parent child mem other)
  refine ⟨findChildNone plant.new, ?_, ?_, ?_⟩
  · unfold findChild
    rw [atParent, List.find?_append, before, findChildNone plant.new]
    simp [newName]
  · intro j
    unfold findChild
    rw [plant.children, if_pos rfl]
    rfl
  · intro u j other elsewhere
    by_cases isParent : u = parent
    · subst isParent
      have differs : j ≠ name := fun same => elsewhere ⟨rfl, same⟩
      unfold findChild
      rw [atParent, List.find?_append, before]
      have last : [v.count].find? (fun child => (v'.nodes child).name == j) = none := by
        simp [newName, Ne.symm differs]
      rw [last, Option.or_none]
      rfl
    · unfold findChild
      rw [plant.children, if_neg other, if_neg isParent]
      exact List.find?_congr (fun child mem => old u child mem j)

theorem Planted.walk {v' : VFS σ} {parent : Nat} {name : Chars} (plant : Planted v v' parent name)
    (h : Tree v) {p : List Chars} (at' : walk (findChild v) root p = some parent) (q : List Chars) :
    Lib.PathTree.walk (findChild v') root q =
      if q = p ++ [name] then some v.count else Lib.PathTree.walk (findChild v) root q := by
  refine walkGrafted (plant.grafted h.apart) h.proper at' (fun q found => ?_) q
  exact absurd (walkInside h.apart h.apart.begun found) (Nat.lt_irrefl _)

end tree

section plant
variable {σ : Type} {v v' : VFS σ} {parent : Nat} {name : Chars}

theorem plantedAdd (disk : σ) (fs : Nat) (info : VfsNode) (inside : parent < v.count)
    (new : name ∉ childNames v parent) :
    Planted v ({ v with disk := disk }.addNode parent name fs info) parent name := by
  have node := VFS.addNodeNode { v with disk := disk } name fs info inside
  refine ⟨inside, new, rfl, fun n => ?_, fun n => ?_, fun n => ?_⟩
  · rw [node]
    dsimp only
    split
    · rfl
    · split
      · next same => rw [same]
      · rfl
  · rw [node]
    dsimp only
    split
    · rfl
    · split <;> rfl
  · rw [node]
    dsimp only
    split
    · rfl
    · split
      · next same => rw [same]
      · rfl

theorem Planted.withInfo (plant : Planted v v' parent name) (disk : σ) (n : Nat) (info : VfsNode) :
    Planted v ({ v' with disk := disk }.setInfo n info) parent name := by
  refine ⟨plant.inside, plant.new, plant.count, fun m => ?_, fun m => ?_, fun m => ?_⟩
  · rw [VFS.setInfoName]
    exact plant.names m
  · rw [VFS.setInfoChildren]
    exact plant.children m
  · rw [VFS.setInfoParent]
    exact plant.parents m

theorem Planted.tree (plant : Planted v v' parent name) (h : Tree v) : Tree v' := by
  have model := plantedAdd v.disk 0 (v.nodes 0).info plant.inside plant.new
  have apart := (h.apart.addNode 0 (v.nodes 0).info plant.inside plant.new).1
  refine ⟨apart.prune plant.count (fun n => ?_) (fun n => ?_), ?_, ?_⟩
  · rw [plant.names, ← model.names]
  · rw [plant.children, ← model.children]
  · intro n child mem
    rw [plant.children] at mem
    rw [plant.parents]
    split at mem
    · cases mem
    · split at mem
      · next same =>
        rcases List.mem_append.mp mem with mem | mem
        · rw [if_neg (Nat.ne_of_lt (h.apart.inside parent child mem)), same]
          exact h.parents parent child mem
        · rw [if_pos (List.mem_singleton.mp mem), same]
      · rw [if_neg (Nat.ne_of_lt (h.apart.inside n child mem))]
        exact h.parents n child mem
  · rw [plant.parents, if_neg (Nat.ne_of_lt h.apart.begun)]
    exact h.top

end plant

section disk
variable {τ : Type} {v v' : VFS (Disk × τ)} {parent : Nat} {name : Chars}

def inodeOf (v : VFS (Disk × τ)) (n : Nat) : Nat := (v.nodes n).info.resource.inode

structure Rooted (v : VFS (Disk × τ)) : Prop where
  tree : Tree v
  owned : Owned v.disk.1
  live : ∀ n, n < v.count → (v.nodes n).fileSystem = 0 →
    Live v.disk.1 (inodeOf v n) ∧ (v.disk.1.nodes (inodeOf v n)).type = (v.nodes n).info.type
  inodes : ∀ n m, n < v.count → m < v.count → (v.nodes n).fileSystem = 0 → (v.nodes m).fileSystem = 0 →
    inodeOf v n = inodeOf v m → n = m

/- Its directories without cached children have no entries on disk. -/
def Unwritten (v : VFS (Disk × τ)) : Prop :=
  ∀ n, n < v.count → (v.nodes n).fileSystem = 0 → (v.nodes n).info.type = .DIRECTORY →
    (v.nodes n).children = [] → NoEntries v.disk.1 (inodeOf v n)

def HasFreeBlock (v : VFS (Disk × τ)) : Prop := v.disk.1.getFreeDataBlock.isSome

/- What of the old nodes a creation leaves alone. A device may change its own node. -/
structure SameNodes (v v' : VFS (Disk × τ)) : Prop where
  fileSystem : ∀ n, n < v.count → (v'.nodes n).fileSystem = (v.nodes n).fileSystem
  type : ∀ n, n < v.count → (v.nodes n).fileSystem = 0 → (v'.nodes n).info.type = (v.nodes n).info.type
  inode : ∀ n, n < v.count → (v.nodes n).fileSystem = 0 → inodeOf v' n = inodeOf v n

theorem Rooted.plant (h : Rooted v) (plant : Planted v v' parent name) (same : SameNodes v v')
    (owned : Owned v'.disk.1)
    (lives : ∀ n, n < v.count → (v.nodes n).fileSystem = 0 → Live v'.disk.1 (inodeOf v n) ∧
      (v'.disk.1.nodes (inodeOf v n)).type = (v.disk.1.nodes (inodeOf v n)).type)
    (new : (v'.nodes v.count).fileSystem = 0 → Live v'.disk.1 (inodeOf v' v.count) ∧
      (v'.disk.1.nodes (inodeOf v' v.count)).type = (v'.nodes v.count).info.type ∧
      ∀ n, n < v.count → (v.nodes n).fileSystem = 0 → inodeOf v n ≠ inodeOf v' v.count) : Rooted v' := by
  have cases' : ∀ n, n < v'.count → n < v.count ∨ n = v.count := by
    intro n inside
    rw [plant.count] at inside
    omega
  refine ⟨plant.tree h.tree, owned, ?_, ?_⟩
  · intro n inside onDisk
    rcases cases' n inside with old | rfl
    · have onDisk' := (same.fileSystem n old) ▸ onDisk
      rw [same.inode n old onDisk', same.type n old onDisk']
      exact ⟨(lives n old onDisk').1, (lives n old onDisk').2.trans (h.live n old onDisk').2⟩
    · exact ⟨(new onDisk).1, (new onDisk).2.1⟩
  · intro n m insideN insideM diskN diskM equal
    rcases cases' n insideN with oldN | rfl
    · have diskN' := (same.fileSystem n oldN) ▸ diskN
      rcases cases' m insideM with oldM | rfl
      · have diskM' := (same.fileSystem m oldM) ▸ diskM
        rw [same.inode n oldN diskN', same.inode m oldM diskM'] at equal
        exact h.inodes n m oldN oldM diskN' diskM' equal
      · rw [same.inode n oldN diskN'] at equal
        exact absurd equal ((new diskM).2.2 n oldN diskN')
    · rcases cases' m insideM with oldM | rfl
      · have diskM' := (same.fileSystem m oldM) ▸ diskM
        rw [same.inode m oldM diskM'] at equal
        exact absurd equal.symm ((new diskN).2.2 m oldM diskM')
      · rfl

theorem Unwritten.plant (h : Unwritten v) (plant : Planted v v' parent name) (same : SameNodes v v')
    (keeps : ∀ n, n < v.count → n ≠ parent → (v.nodes n).fileSystem = 0 →
      NoEntries v.disk.1 (inodeOf v n) → NoEntries v'.disk.1 (inodeOf v n))
    (new : (v'.nodes v.count).fileSystem = 0 → (v'.nodes v.count).info.type = .DIRECTORY →
      NoEntries v'.disk.1 (inodeOf v' v.count)) : Unwritten v' := by
  intro n inside onDisk dir empty
  rw [plant.count] at inside
  by_cases old : n < v.count
  · rw [same.fileSystem n old] at onDisk
    rw [same.type n old onDisk] at dir
    rw [same.inode n old onDisk]
    rw [plant.children, if_neg (Nat.ne_of_lt old)] at empty
    by_cases isParent : n = parent
    · rw [if_pos isParent] at empty
      simp at empty
    · rw [if_neg isParent] at empty
      exact keeps n old isParent onDisk (h n old onDisk dir empty)
  · have isNew : n = v.count := by omega
    subst isNew
    exact new onDisk dir

theorem addNodeOld (disk : Disk × τ) (fs : Nat) (info : VfsNode) (inside : parent < v.count) {n : Nat}
    (old : n < v.count) :
    (({ v with disk := disk }.addNode parent name fs info).nodes n).fileSystem = (v.nodes n).fileSystem ∧
      (({ v with disk := disk }.addNode parent name fs info).nodes n).info = (v.nodes n).info := by
  rw [VFS.addNodeNode { v with disk := disk } name fs info inside, if_neg (Nat.ne_of_lt old)]
  split
  · next same => rw [same]; exact ⟨rfl, rfl⟩
  · exact ⟨rfl, rfl⟩

theorem addNodeNew (disk : Disk × τ) (fs : Nat) (info : VfsNode) (inside : parent < v.count) :
    (({ v with disk := disk }.addNode parent name fs info).nodes v.count).fileSystem = fs ∧
      (({ v with disk := disk }.addNode parent name fs info).nodes v.count).info = info := by
  rw [VFS.addNodeNode { v with disk := disk } name fs info inside, if_pos rfl]
  exact ⟨rfl, rfl⟩

theorem sameAdd (disk : Disk × τ) (fs : Nat) (info : VfsNode) (inside : parent < v.count) :
    SameNodes v ({ v with disk := disk }.addNode parent name fs info) := by
  refine ⟨fun n old => ?_, fun n old _ => ?_, fun n old _ => ?_⟩
  · exact (addNodeOld disk fs info inside old).1
  · rw [(addNodeOld disk fs info inside old).2]
  · unfold inodeOf
    rw [(addNodeOld disk fs info inside old).2]

theorem SameNodes.withInfo (same : SameNodes v v') (disk : Disk × τ) (info : VfsNode)
    (type : (v.nodes parent).fileSystem = 0 → info.type = (v.nodes parent).info.type)
    (inode : (v.nodes parent).fileSystem = 0 → info.resource.inode = inodeOf v parent) :
    SameNodes v ({ v' with disk := disk }.setInfo parent info) := by
  refine ⟨fun n old => ?_, fun n old onDisk => ?_, fun n old onDisk => ?_⟩
  · rw [VFS.setInfoFileSystem]
    exact same.fileSystem n old
  · rw [VFS.setInfoInfo]
    split
    · next isParent =>
      rw [isParent] at onDisk ⊢
      exact type onDisk
    · exact same.type n old onDisk
  · unfold inodeOf at *
    rw [VFS.setInfoInfo]
    split
    · next isParent =>
      rw [isParent] at onDisk ⊢
      exact inode onDisk
    · exact same.inode n old onDisk

/- A creation on the RamDisk: `create` gives the new node an inode, `writeDir` writes to the
inode of the parent. -/
structure Extends (v v' : VFS (Disk × τ)) (parent : Nat) (name : Chars) : Prop where
  plant : Planted v v' parent name
  same : SameNodes v v'
  rooted : Rooted v'
  free : HasFreeBlock v' → HasFreeBlock v
  unwritten : HasFreeBlock v → Unwritten v → Unwritten v'

theorem Rooted.device (h : Rooted v) (plant : Planted v v' parent name) (same : SameNodes v v')
    (disk : v'.disk.1 = v.disk.1) (other : (v'.nodes v.count).fileSystem ≠ 0) : Extends v v' parent name := by
  refine ⟨plant, same, h.plant plant same (disk ▸ h.owned) ?_ (fun onDisk => absurd onDisk other), ?_, ?_⟩
  · intro n old onDisk
    rw [disk]
    exact ⟨(h.live n old onDisk).1, rfl⟩
  · unfold HasFreeBlock
    rw [disk]
    exact fun free => free
  · intro _ unwritten
    refine unwritten.plant plant same ?_ (fun onDisk => absurd onDisk other)
    intro n _ _ _ none
    rw [disk]
    exact none

variable {G : FileSystem τ} {deviceID : Int} {type : NodeType} {rest : Nat → BitVec 8}

/- The disk after `create` and after `writeDir`, and the tree that goes with them. -/
structure Made (v v' : VFS (Disk × τ)) (type : NodeType) (parent : Nat) (name : Chars) (inode : Nat) (d₁ d₂ : Disk)
    (info : VfsNode) : Prop where
  free : v.disk.1.getFreeINode = some inode
  created : Owned d₁ ∧ Live d₁ inode ∧ Keeps inode v.disk.1 d₁ ∧ (d₁.nodes inode).type = type
  listed : type = .DIRECTORY → v.disk.1.getFreeDataBlock.isSome → NoEntries d₁ inode
  node : info.type = type ∧ info.resource.inode = inode
  written : Owned d₂ ∧ RamDisk.SameShape d₁ d₂ ∧ Keeps (inodeOf v parent) d₁ d₂
  tree : v' = { { v with disk := (d₁, v.disk.2) }.addNode parent name 0 info with disk := (d₂, v.disk.2) }.setInfo parent
    { (v.nodes parent).info with resource := { (v.nodes parent).info.resource with
      size := (d₂.nodes (inodeOf v parent)).size } }

theorem createMade (owned : Owned v.disk.1) (valid : type ≠ .INVALID) (inside : parent < v.count)
    (onDisk : (v.nodes parent).fileSystem = 0) (live : Live v.disk.1 (inodeOf v parent)) {id : Nat}
    (ok : createIn (withRamDisk deviceID G) type rest v parent name = .ok (v', id)) :
    ∃ inode d₁ d₂ info, Made v v' type parent name inode d₁ d₂ info := by
  obtain ⟨-, disk, info, mid, disk', info', created, shape, wrote, rfl⟩ := createInCases ok
  simp only [withRamDisk, onDisk, if_true] at created
  obtain ⟨⟨d₁, info₁⟩, made, pair⟩ := Option.map_eq_some_iff.mp created
  obtain ⟨rfl, rfl⟩ := Prod.mk.inj pair
  obtain ⟨inode, free, owned₁, live₁, keeps₁, type₁, -, infoType, infoInode, none₁⟩ :=
    RamDisk.createKeeps owned valid made
  rw [onDisk] at shape
  have midDisk : mid.disk = (d₁, v.disk.2) := by
    rw [shape]
    rfl
  have midParent : (mid.nodes parent).fileSystem = 0 ∧ (mid.nodes parent).info = (v.nodes parent).info := by
    rw [shape]
    exact ⟨(addNodeOld _ _ _ inside inside).1.trans onDisk, (addNodeOld _ _ _ inside inside).2⟩
  simp only [withRamDisk, midParent.1, midParent.2, midDisk, if_true] at wrote
  obtain ⟨d₂, written, pair⟩ := Option.map_eq_some_iff.mp wrote
  obtain ⟨rfl, rfl⟩ := Prod.mk.inj pair
  -- the parent is in use, so its inode is not the one that create took
  have other : inodeOf v parent ≠ inode := by
    intro same
    rw [same] at live
    exact live.2 (RamDisk.freeINodeSpec free).2
  have liveParent : Live d₁ (v.nodes parent).info.resource.inode := (keeps₁.live other).mpr live
  obtain ⟨d₂', wrote', owned₂, shape₂⟩ := RamDisk.writeDirSpec
    [fromStringName rest name info₁.resource.inode] owned₁ liveParent
  rw [written] at wrote'
  cases Option.some.inj wrote'
  exact ⟨inode, d₁, d₂, info₁, free, ⟨owned₁, live₁, keeps₁, type₁⟩, none₁, ⟨infoType, infoInode⟩,
    ⟨owned₂, shape₂, RamDisk.keepsWriteDir owned₁ liveParent written⟩, by rw [shape]; rfl⟩

theorem Made.unused {inode : Nat} {d₁ d₂ : Disk} {info : VfsNode} (made : Made v v' type parent name inode d₁ d₂ info)
    {i : Nat} (live : Live v.disk.1 i) : i ≠ inode := by
  rintro rfl
  exact live.2 (RamDisk.freeINodeSpec made.free).2

theorem createRamDisk (h : Rooted v) (valid : type ≠ .INVALID) (inside : parent < v.count)
    (new : name ∉ childNames v parent) (onDisk : (v.nodes parent).fileSystem = 0) {id : Nat}
    (ok : createIn (withRamDisk deviceID G) type rest v parent name = .ok (v', id)) :
    Extends v v' parent name := by
  obtain ⟨inode, d₁, d₂, info, made⟩ := createMade h.owned valid inside onDisk (h.live parent inside onDisk).1 ok
  obtain ⟨owned₁, live₁, keeps₁, type₁⟩ := made.created
  obtain ⟨owned₂, shape₂, keeps₂⟩ := made.written
  have unused : ∀ n, n < v.count → (v.nodes n).fileSystem = 0 → inodeOf v n ≠ inode :=
    fun n old onDisk' => made.unused (h.live n old onDisk').1
  have plant : Planted v v' parent name := by
    rw [made.tree]
    exact (plantedAdd _ _ _ inside new).withInfo _ parent _
  have same : SameNodes v v' := by
    rw [made.tree]
    exact (sameAdd _ _ _ inside).withInfo _ _ (fun _ => rfl) (fun _ => rfl)
  have disk : v'.disk = (d₂, v.disk.2) := by
    rw [made.tree]
    rfl
  have newInfo : (v'.nodes v.count).info = info := by
    rw [made.tree, VFS.setInfoInfo, if_neg (Nat.ne_of_gt inside)]
    exact (addNodeNew _ _ _ inside).2
  have newInode : inodeOf v' v.count = inode := by
    rw [inodeOf, newInfo]
    exact made.node.2
  refine ⟨plant, same, h.plant plant same (by rw [disk]; exact owned₂) ?_ ?_, ?_, ?_⟩
  · intro n old onDisk'
    have other := unused n old onDisk'
    rw [disk]
    refine ⟨shape₂.live.mpr ((keeps₁.live other).mpr (h.live n old onDisk').1), ?_⟩
    rw [shape₂.types, keeps₁.nodes _ other]
  · intro _
    rw [newInode, newInfo, disk]
    exact ⟨shape₂.live.mpr live₁, by rw [shape₂.types, type₁, made.node.1], unused⟩
  · intro free'
    unfold HasFreeBlock at free'
    rw [disk] at free'
    exact keeps₁.freeBefore (keeps₂.freeBefore free')
  · intro freeBlock unwritten
    refine unwritten.plant plant same ?_ ?_
    · intro n old other onDisk' none
      rw [disk]
      refine keeps₂.noEntries ?_ (keeps₁.noEntries (unused n old onDisk') none)
      exact fun equal => other (h.inodes n parent old inside onDisk' onDisk equal)
    · rw [newInode, newInfo, disk]
      intro _ dir
      rw [made.node.1] at dir
      exact keeps₂.noEntries (Ne.symm (unused parent inside onDisk)) (made.listed dir freeBlock)

theorem createDevice (h : Rooted v) (inside : parent < v.count) (new : name ∉ childNames v parent)
    (other : (v.nodes parent).fileSystem ≠ 0) {id : Nat}
    (ok : createIn (withRamDisk deviceID G) type rest v parent name = .ok (v', id)) :
    Extends v v' parent name := by
  obtain ⟨-, disk, info, mid, disk', info', created, shape, wrote, rfl⟩ := createInCases ok
  simp only [withRamDisk, other, if_false] at created
  obtain ⟨⟨t₁, info₁⟩, -, pair⟩ := Option.map_eq_some_iff.mp created
  obtain ⟨rfl, rfl⟩ := Prod.mk.inj pair
  have plant : Planted v mid parent name := by
    rw [shape]
    exact plantedAdd _ _ _ inside new
  have same : SameNodes v mid := by
    rw [shape]
    exact sameAdd _ _ _ inside
  have newFs : (mid.nodes v.count).fileSystem = (v.nodes parent).fileSystem := by
    rw [shape]
    exact (addNodeNew _ _ _ inside).1
  have midDisk : mid.disk = (v.disk.1, t₁) := by
    rw [shape]
    rfl
  have midParent : (mid.nodes parent).fileSystem ≠ 0 := by
    rw [shape, (addNodeOld _ _ _ inside inside).1]
    exact other
  simp only [withRamDisk, midParent, midDisk, if_false] at wrote
  obtain ⟨⟨t₂, info₂⟩, -, pair⟩ := Option.map_eq_some_iff.mp wrote
  obtain ⟨rfl, rfl⟩ := Prod.mk.inj pair
  refine h.device (plant.withInfo _ parent info₂)
    (same.withInfo _ info₂ (fun onDisk => absurd onDisk other) (fun onDisk => absurd onDisk other)) rfl ?_
  rw [VFS.setInfoFileSystem]
  exact newFs ▸ other

end disk

end DimOS.Filesystem.Vfs.Open
