import DimOS.Lib.Transition
import DimOS.Filesystem.VfsOpen
import DimOS.Filesystem.VfsErrors

/-! Runs of mkdir, mkfile and mnt over one RamDisk, with devices mounted beside it. The calls
read a path backwards up to its last slash, the lookups split it: both readings agree, so a
node is found at the path that made it and at no other. -/
namespace DimOS.Filesystem.Vfs.Open
open Cpp.Containers
open Lib.PathTree (walk walkSnoc)
open Lib.Transition (run)
open RamDisk (Disk NodeType VfsNode DirEntry Live Owned NoEntries Keeps)

section calls
variable {τ : Type}

inductive Call where
  | mkdir (path : Chars) (rest : Nat → BitVec 8)
  | mkfile (path : Chars) (rest : Nat → BitVec 8)
  | mnt (path : Chars) (fs : Nat) (inode : Int)

def Call.path : Call → Chars
  | .mkdir path _ => path
  | .mkfile path _ => path
  | .mnt path _ _ => path

def Call.Foreign : Call → Prop
  | .mnt _ fs _ => fs ≠ 0
  | _ => True

variable {σ : Type} (F : FileSystem σ)

def perform (v : VFS σ) : Call → Except Fault (VFS σ × Option Nat)
  | .mkdir path rest => mkdir F rest v path
  | .mkfile path rest => mkfile F rest v path
  | .mnt path fs inode => mnt F v path fs inode

def step (v : VFS σ) (call : Call) : Option (VFS σ) :=
  match perform F v call with
  | .ok (v', some _) => some v'
  | _ => none

end calls

section run
variable {τ : Type} {G : FileSystem τ} {deviceID : Int} {v v' : VFS (Disk × τ)}

theorem listsNothing (device : Device G) {disk : Disk × τ} {fs : Nat} {node : VfsNode}
    {entries : List DirEntry} (ok : (withRamDisk deviceID G).readDir disk fs node = some entries) :
    entries = [] := by
  simp only [withRamDisk] at ok
  split at ok
  · unfold Disk.readDir at ok
    simp only at ok
    split at ok
    · cases ok
    · split at ok
      · cases ok
      · split at ok
        · cases ok
        · split at ok
          · exact (Option.some.inj ok).symm
          · cases ok
  · rw [device.lists] at ok
    exact (Option.some.inj ok).symm

theorem resolveAt (device : Device G) {path : Chars} {out : VFS (Disk × τ) × Option Nat}
    (ok : resolvePath (withRamDisk deviceID G) v path = .ok out) : out = (v, nodeAt v (split path slash)) := by
  unfold resolvePath at ok
  split at ok
  · next none =>
    cases ok
    rw [none]
    rfl
  · next first rest pieces =>
    rw [pieces, nodeAt]
    split at ok
    · next other =>
      cases ok
      rw [if_pos other]
    · next same =>
      rw [if_neg same]
      exact resolveSame (fun n entries listed => listsNothing device listed) ok

theorem resolveAtSome {F : FileSystem (Disk × τ)} {path : Chars} {n : Nat}
    (at' : nodeAt v (split path slash) = some n) : resolvePath F v path = .ok (v, some n) := by
  unfold resolvePath
  cases pieces : split path slash with
  | nil =>
    rw [pieces] at at'
    cases at'
  | cons first rest =>
    rw [pieces, nodeAt] at at'
    split at at'
    · cases at'
    · next same =>
      simp only [same, if_false]
      exact resolveFound at'

theorem nodeAtSpec {comps : List Chars} {n : Nat} (at' : nodeAt v comps = some n) :
    ∃ names, comps = (v.nodes root).name :: names ∧ walk (findChild v) root names = some n := by
  cases comps with
  | nil => cases at'
  | cons first rest =>
    rw [nodeAt] at at'
    split at at'
    · cases at'
    · next same => exact ⟨rest, by rw [not_not.mp same], at'⟩

theorem performExtends (device : Device G) (h : Rooted v) {call : Call} (foreign : call.Foreign) {n : Nat}
    (new : ∀ parentPath name parent, cut call.path = some (parentPath, name) →
      nodeAt v (split parentPath slash) = some parent → name ∉ childNames v parent)
    (ok : perform (withRamDisk deviceID G) v call = .ok (v', some n)) :
    n = v.count ∧ ∃ parentPath name parent, cut call.path = some (parentPath, name) ∧
      nodeAt v (split parentPath slash) = some parent ∧ Extends v v' parent name := by
  have make : ∀ {type rest path}, type ≠ .INVALID → path = call.path →
      mkNode (withRamDisk deviceID G) type rest v path = .ok (v', some n) →
      n = v.count ∧ ∃ parentPath name parent, cut call.path = some (parentPath, name) ∧
        nodeAt v (split parentPath slash) = some parent ∧ Extends v v' parent name := by
    rintro type rest path valid rfl ok
    obtain ⟨parentPath, name, v₁, shape, ⟨-, -, none⟩ | ⟨parent, id, found, made, same⟩⟩ := mkNodeCases ok
    · cases none
    · obtain ⟨rfl, at'⟩ := Prod.mk.inj (resolveAt device found)
      cases Option.some.inj same
      obtain ⟨names, -, walked⟩ := nodeAtSpec at'.symm
      have inside := walkInside h.tree.apart h.tree.apart.begun walked
      have free := new parentPath name parent shape at'.symm
      refine ⟨(createInCases made).1, parentPath, name, parent, shape, at'.symm, ?_⟩
      by_cases onDisk : (v₁.nodes parent).fileSystem = 0
      · exact createRamDisk h valid inside free onDisk made
      · exact createDevice h inside free onDisk made
  cases call with
  | mkdir path rest => exact make (by simp) rfl ok
  | mkfile path rest => exact make (by simp) rfl ok
  | mnt path fs inode =>
    simp only [perform, mnt, openNode] at ok
    split at ok
    · cases ok
    · cases ok
    · next v₁ missing =>
      obtain ⟨rfl, -⟩ := Prod.mk.inj (resolveAt device missing)
      obtain ⟨parentPath, name, v₂, shape, ⟨-, -, none⟩ | ⟨parent, found, rfl, same⟩⟩ := mntLockedCases ok
      · cases none
      · obtain ⟨rfl, at'⟩ := Prod.mk.inj (resolveAt device found)
        cases Option.some.inj same
        obtain ⟨names, -, walked⟩ := nodeAtSpec at'.symm
        have inside := walkInside h.tree.apart h.tree.apart.begun walked
        have free := new parentPath name parent shape at'.symm
        refine ⟨rfl, parentPath, name, parent, shape, at'.symm, h.device
          (plantedAdd v₂.disk fs _ inside free) (sameAdd v₂.disk fs _ inside) rfl ?_⟩
        rw [(addNodeNew v₂.disk fs _ inside).1]
        exact foreign

/- Every node but the root was made by a call, at the path that leads to it. -/
def Traced (done : List Chars) (v : VFS (Disk × τ)) : Prop :=
  ∀ names name n, walk (findChild v) root (names ++ [name]) = some n →
    ∃ path ∈ done, ∃ parentPath, cut path = some (parentPath, name) ∧
      split parentPath slash = (v.nodes root).name :: names

theorem Traced.new {done : List Chars} (traced : Traced done v) {path parentPath name : Chars}
    {parent : Nat} (unseen : path ∉ done) (shape : cut path = some (parentPath, name))
    (at' : nodeAt v (split parentPath slash) = some parent) : name ∉ childNames v parent := by
  intro mem
  obtain ⟨child, isChild, named⟩ := List.mem_map.mp mem
  obtain ⟨names, comps, walked⟩ := nodeAtSpec at'
  have some : (findChild v parent name).isSome := by
    apply List.find?_isSome.mpr
    exact ⟨child, isChild, by simpa using named⟩
  obtain ⟨first, found⟩ := Option.isSome_iff_exists.mp some
  obtain ⟨path', seen, parentPath', shape', comps'⟩ := traced names name first (by
    rw [walkSnoc, walked]
    exact found)
  obtain ⟨above, rfl, rfl, -⟩ := cutSpec shape
  obtain ⟨above', rfl, rfl, -⟩ := cutSpec shape'
  rw [splitInj (comps'.trans comps.symm)] at seen
  exact unseen seen

theorem Extends.name {parent : Nat} {name : Chars} (extend : Extends v v' parent name) (h : Tree v) :
    (v'.nodes root).name = (v.nodes root).name := by
  rw [extend.plant.names, if_neg (Nat.ne_of_lt h.apart.begun)]

theorem Traced.extend {done : List Chars} (traced : Traced done v) (h : Tree v) {path parentPath name : Chars}
    {parent : Nat} (shape : cut path = some (parentPath, name))
    (at' : nodeAt v (split parentPath slash) = some parent) (extend : Extends v v' parent name) :
    Traced (done ++ [path]) v' := by
  obtain ⟨names, comps, walked⟩ := nodeAtSpec at'
  intro names' name' n found
  rw [extend.plant.walk h walked] at found
  rw [extend.name h]
  split at found
  · next same =>
    obtain ⟨rfl, last⟩ := List.append_inj' same rfl
    cases List.cons.inj last with
    | intro equal _ =>
      subst equal
      exact ⟨path, by simp, parentPath, shape, comps⟩
  · obtain ⟨path', seen, rest⟩ := traced names' name' n found
    exact ⟨path', List.mem_append_left _ seen, rest⟩

theorem startRooted {nodeCount blockCount : Nat} {d : Disk} (t : τ) (rootName : Chars)
    (made : RamDisk.createRoot nodeCount blockCount = some d) :
    Rooted (construct (withRamDisk deviceID G) (d, t) 0 0 rootName) ∧
      (HasFreeBlock (construct (withRamDisk deviceID G) (d, t) 0 0 rootName) →
        Unwritten (construct (withRamDisk deviceID G) (d, t) 0 0 rootName)) := by
  obtain ⟨⟨d', vfsNode⟩, created, rfl⟩ := Option.map_eq_some_iff.mp made
  rw [RamDisk.mountZeroed] at created
  have valid : (RamDisk.createSuper nodeCount blockCount).Valid := by
    simp only [RamDisk.Super.Valid, RamDisk.createSuper]
    omega
  obtain ⟨inode, free, owned, live, keeps, type, number, -, -, none⟩ :=
    RamDisk.createKeeps (RamDisk.zeroedOwned valid) (by simp) created
  have first : inode = 0 := by
    obtain ⟨-, -, least⟩ := List.find?_range_eq_some.mp free
    by_contra later
    have invalid := least 0 (Nat.pos_of_ne_zero later)
    simp [RamDisk.zeroed] at invalid
  subst first
  have inodes : ∀ n, inodeOf (construct (withRamDisk deviceID G) (d', t) 0 0 rootName) n = 0 := by
    intro n
    simp [inodeOf, construct, withRamDisk, Disk.populateVFSNode, number]
  have kinds : ∀ n, ((construct (withRamDisk deviceID G) (d', t) 0 0 rootName).nodes n).info.type =
      .DIRECTORY := by
    intro n
    simp [construct, withRamDisk, Disk.populateVFSNode, type]
  refine ⟨⟨⟨⟨Nat.zero_lt_one, ?_, ?_⟩, ?_, rfl⟩, owned, ?_, ?_⟩, ?_⟩
  · intro n child mem
    cases mem
  · intro n
    exact List.nodup_nil
  · intro n child mem
    cases mem
  · intro n _ _
    rw [inodes, kinds]
    exact ⟨live, type⟩
  · intro n m insideN insideM _ _ _
    simp only [construct] at insideN insideM
    omega
  · intro freeBlock n _ _ _ _
    rw [inodes]
    exact none rfl (keeps.freeBefore freeBlock)

theorem startTraced {F : FileSystem (Disk × τ)} (disk : Disk × τ) (rootName : Chars) :
    Traced [] (construct F disk 0 0 rootName) := by
  intro names name n found
  rw [walkSnoc] at found
  obtain ⟨mid, -, last⟩ := Option.bind_eq_some_iff.mp found
  cases (findChildSpec last).1

theorem stepCases {F : FileSystem (Disk × τ)} {call : Call} (ok : step F v call = some v') :
    ∃ n, perform F v call = .ok (v', some n) := by
  unfold step at ok
  split at ok
  · next v₁ n performed =>
    cases Option.some.inj ok
    exact ⟨n, performed⟩
  · cases ok

theorem runRooted (device : Device G) {nodeCount blockCount : Nat} {d : Disk} (t : τ) (rootName : Chars)
    (made : RamDisk.createRoot nodeCount blockCount = some d) {calls : List Call}
    (foreign : ∀ call ∈ calls, call.Foreign) (distinct : (calls.map Call.path).Nodup)
    (ran : run (step (withRamDisk deviceID G)) (construct (withRamDisk deviceID G) (d, t) 0 0 rootName) calls =
      some v) :
    Rooted v ∧ Traced (calls.map Call.path) v ∧ (HasFreeBlock v → Unwritten v) := by
  induction calls using List.reverseRecOn generalizing v with
  | nil =>
    cases Option.some.inj ran
    obtain ⟨rooted, unwritten⟩ := startRooted t rootName made
    exact ⟨rooted, startTraced _ _, unwritten⟩
  | append_singleton calls call ih =>
    rw [Lib.Transition.runAppend] at ran
    obtain ⟨mid, before, last⟩ := Option.bind_eq_some_iff.mp ran
    rw [Lib.Transition.runSingle] at last
    rw [List.map_append, List.map_singleton] at distinct ⊢
    obtain ⟨distinct, -, apart⟩ := List.nodup_append.mp distinct
    obtain ⟨rooted, traced, unwritten⟩ := ih (fun c mem => foreign c (List.mem_append_left _ mem))
      distinct before
    have unseen : call.path ∉ calls.map Call.path := fun mem =>
      apart call.path mem call.path (List.mem_singleton_self _) rfl
    obtain ⟨n, performed⟩ := stepCases last
    obtain ⟨-, parentPath, name, parent, shape, at', extend⟩ := performExtends device rooted
      (foreign call (by simp)) (fun _ _ _ shape at' => traced.new unseen shape at') performed
    exact ⟨extend.rooted, traced.extend rooted.tree shape at' extend,
      fun free => extend.unwritten (extend.free free) (unwritten (extend.free free))⟩

theorem listed (device : Device G) (h : Rooted v) (unwritten : Unwritten v) {n : Nat} (inside : n < v.count)
    (noFile : (v.nodes n).fileSystem = 0 → (v.nodes n).info.type ≠ .FILE) (empty : (v.nodes n).children = []) :
    (withRamDisk deviceID G).readDir v.disk (v.nodes n).fileSystem (v.nodes n).info = some [] := by
  by_cases onDisk : (v.nodes n).fileSystem = 0
  · obtain ⟨live, type⟩ := h.live n inside onDisk
    have dir : (v.nodes n).info.type = .DIRECTORY := by
      have valid := live.2
      rw [type] at valid
      cases kind : (v.nodes n).info.type with
      | INVALID => exact absurd kind valid
      | FILE => exact absurd kind (noFile onDisk)
      | DIRECTORY => rfl
    simp only [withRamDisk, onDisk, if_true]
    exact RamDisk.readDirNoEntries h.owned (unwritten n inside onDisk dir empty)
  · simp only [withRamDisk, onDisk, if_false]
    exact device.lists _ _ _

def NoFileBefore (v : VFS (Disk × τ)) (comps : List Chars) : Prop :=
  ∀ pre post n, comps = pre ++ post → post ≠ [] → nodeAt v pre = some n → (v.nodes n).info.type ≠ .FILE

theorem resolveClear (device : Device G) (h : Rooted v) (unwritten : Unwritten v) {path : Chars}
    (clear : ∀ pre post n, split path slash = pre ++ post → post ≠ [] → nodeAt v pre = some n →
      (v.nodes n).fileSystem = 0 → (v.nodes n).info.type ≠ .FILE) :
    openNode (withRamDisk deviceID G) v path = .ok (v, nodeAt v (split path slash)) := by
  unfold openNode resolvePath
  cases pieces : split path slash with
  | nil => rfl
  | cons first rest =>
    simp only [nodeAt]
    split
    · rfl
    · next same =>
      apply resolveReturns
      intro pre name post n shape walked
      refine listed device h unwritten (walkInside h.tree.apart h.tree.apart.begun walked) ?_
      refine clear (first :: pre) (name :: post) n (by rw [pieces, shape]; rfl) (by simp) ?_
      simp only [nodeAt, same, if_false]
      exact walked

theorem createInReturns (device : Device G) (h : Rooted v) {type : NodeType} {rest : Nat → BitVec 8} {parent : Nat}
    {name : Chars} (valid : type ≠ .INVALID) (inside : parent < v.count) (free : v.disk.1.getFreeINode.isSome) :
    ∃ out, createIn (withRamDisk deviceID G) type rest v parent name = .ok out := by
  apply Errors.createInReturns.mpr
  by_cases onDisk : (v.nodes parent).fileSystem = 0
  · obtain ⟨inode, free⟩ := Option.isSome_iff_exists.mp free
    obtain ⟨d₁, info, made, owned, -⟩ := RamDisk.createSpec deviceID h.owned free valid
    obtain ⟨inode', free', -, -, keeps, -⟩ := RamDisk.createKeeps h.owned valid made
    cases Option.some.inj (free.symm.trans free')
    have other : inodeOf v parent ≠ inode := by
      intro same
      have live := (h.live parent inside onDisk).1.2
      rw [same] at live
      exact live (RamDisk.freeINodeSpec free).2
    have live : Live d₁ (v.nodes parent).info.resource.inode :=
      (keeps.live other).mpr (h.live parent inside onDisk).1
    obtain ⟨d₂, wrote, -, -⟩ := RamDisk.writeDirSpec [fromStringName rest name info.resource.inode] owned live
    refine ⟨(d₁, v.disk.2), info, _, by simp [withRamDisk, onDisk, made], rfl, ?_⟩
    rw [(addNodeOld _ _ _ inside inside).1, (addNodeOld _ _ _ inside inside).2]
    simp [withRamDisk, onDisk, VFS.addNodeDisk, wrote]
  · obtain ⟨⟨t₁, info⟩, made⟩ := Option.isSome_iff_exists.mp
      (device.creates v.disk.2 ((v.nodes parent).fileSystem - 1) type)
    refine ⟨(v.disk.1, t₁), info, _, by simp [withRamDisk, onDisk, made], rfl, ?_⟩
    rw [(addNodeOld _ _ _ inside inside).1, (addNodeOld _ _ _ inside inside).2]
    simp only [withRamDisk, onDisk, if_false, Option.isSome_map]
    exact device.writes _ _ _ _

theorem performReturns (device : Device G) (h : Rooted v) (unwritten : Unwritten v) {call : Call}
    {above name : Chars} {parent : Nat} (path : call.path = above ++ slash :: name) (plain : slash ∉ name)
    (named : name ≠ []) (free : v.disk.1.getFreeINode.isSome)
    (at' : nodeAt v (split (above ++ [slash]) slash) = some parent)
    (dir : (v.nodes parent).info.type = .DIRECTORY) (new : name ∉ childNames v parent) :
    ∃ v' n, perform (withRamDisk deviceID G) v call = .ok (v', some n) := by
  have shape : cut call.path = some (above ++ [slash], name) := by
    rw [path]
    exact cutEq plain
  obtain ⟨names, comps, walked⟩ := nodeAtSpec at'
  have inside := walkInside h.tree.apart h.tree.apart.begun walked
  have found := resolveAtSome (F := withRamDisk deviceID G) at'
  have make : ∀ {type rest}, type ≠ .INVALID →
      ∃ v' n, mkNode (withRamDisk deviceID G) type rest v call.path = .ok (v', some n) := by
    intro type rest valid
    obtain ⟨⟨v', n⟩, made⟩ : ∃ out, createIn (withRamDisk deviceID G) type rest v parent name = .ok out :=
      createInReturns device h valid inside free
    exact ⟨v', n, by simp only [mkNode, shape, found, made, Except.map]⟩
  cases call with
  | mkdir path rest => exact make (by simp)
  | mkfile path rest => exact make (by simp)
  | mnt target fs inode =>
    simp only [Call.path] at path shape
    -- the check passes the parent, which is a directory, and finds no node
    have missing : openNode (withRamDisk deviceID G) v target = .ok (v, none) := by
      have whole : split target slash = split (above ++ [slash]) slash ++ [name] := by
        rw [path]
        exact splitLast plain named
      unfold openNode resolvePath
      rw [whole, comps]
      simp only [List.cons_append, ne_eq, not_true_eq_false, if_false]
      rw [resolvePast [name] walked, resolveReturns]
      · simp only [walk, findChildNone new, Option.bind_none]
      · intro pre name' post n shape' walked' empty
        cases pre with
        | cons => simp at shape'
        | nil =>
          cases Option.some.inj walked'
          exact listed device h unwritten inside (fun _ => by rw [dir]; simp) empty
    exact ⟨v.addNode parent name fs ((withRamDisk deviceID G).populateVFSNode v.disk fs inode), v.count,
      by simp only [perform, mnt, missing, mntLocked, shape, found]⟩

/-- A call that creates a node at `parent/name` returns it, and afterwards the node is what
every spelling of that path opens. Every other path opens what it opened before. -/
theorem createThenOpen (G : FileSystem τ) (device : Device G) (deviceID : Int) (nodeCount blockCount : Nat)
    (d : Disk) (t : τ) (rootName : Chars) (created : RamDisk.createRoot nodeCount blockCount = some d)
    (calls : List Call) (foreign : ∀ call ∈ calls, call.Foreign) (distinct : (calls.map Call.path).Nodup)
    (v : VFS (Disk × τ))
    (ran : run (step (withRamDisk deviceID G)) (construct (withRamDisk deviceID G) (d, t) 0 0 rootName) calls =
      some v)
    (freeInode : v.disk.1.getFreeINode.isSome) (freeBlock : v.disk.1.getFreeDataBlock.isSome)
    (parent name : Chars) (named : name ≠ []) (plain : slash ∉ name) (bare : parent.getLast? ≠ some slash)
    (v₁ : VFS (Disk × τ)) (p : Nat)
    (resolves : openNode (withRamDisk deviceID G) v parent = .ok (v₁, some p))
    (dir : (v₁.nodes p).info.type = .DIRECTORY) (new : name ∉ childNames v₁ p)
    (call : Call) (path : call.path = parent ++ slash :: name) (mounts : call.Foreign) :
    ∃ v₂ n, perform (withRamDisk deviceID G) v call = .ok (v₂, some n) ∧
      split (call.path ++ [slash]) slash = split call.path slash ∧
      (∀ q, split q slash = split call.path slash →
        ∃ v₃, openNode (withRamDisk deviceID G) v₂ q = .ok (v₃, some n)) ∧
      ∀ q, split q slash ≠ split call.path slash → NoFileBefore v₂ (split q slash) →
        ∃ before after r, openNode (withRamDisk deviceID G) v q = .ok (before, r) ∧
          openNode (withRamDisk deviceID G) v₂ q = .ok (after, r) := by
  obtain ⟨rooted, -, unwritten⟩ := runRooted device t rootName created foreign distinct ran
  have unwritten := unwritten freeBlock
  obtain ⟨rfl, at'⟩ := Prod.mk.inj (resolveAt device resolves)
  rw [← splitTrailing bare] at at'
  obtain ⟨v₂, n, performed⟩ : ∃ v₂ n, perform (withRamDisk deviceID G) v₁ call = .ok (v₂, some n) :=
    performReturns device rooted unwritten path plain named freeInode at'.symm dir new
  have shape : cut call.path = some (parent ++ [slash], name) := by
    rw [path]
    exact cutEq plain
  obtain ⟨rfl, parentPath, name', p', shape', at₂, extend⟩ := performExtends device rooted mounts
    (fun _ _ _ shape' at₂ => by
      cases Option.some.inj (shape.symm.trans shape')
      cases Option.some.inj (at'.trans at₂)
      exact new) performed
  cases Option.some.inj (shape.symm.trans shape')
  cases Option.some.inj (at'.trans at₂)
  obtain ⟨names, comps, walked⟩ := nodeAtSpec at₂
  have whole : split call.path slash = (v₁.nodes root).name :: (names ++ [name]) := by
    rw [path, splitLast plain named, comps]
    rfl
  have walks := extend.plant.walk rooted.tree walked
  have rootSame := extend.name rooted.tree
  have tail : call.path.getLast? ≠ some slash := by
    rw [path, List.getLast?_append_cons, List.getLast?_cons_of_ne_nil named]
    exact fun last => plain (List.mem_of_getLast? last)
  refine ⟨v₂, v₁.count, performed, splitTrailing tail, ?_, ?_⟩
  · intro q same
    refine ⟨v₂, resolveAtSome ?_⟩
    rw [same, whole, nodeAt, rootSame, if_neg (by simp), walks, if_pos rfl]
  · intro q other clear
    have sameNode : nodeAt v₂ (split q slash) = nodeAt v₁ (split q slash) := by
      cases pieces : split q slash with
      | nil => rfl
      | cons first rest =>
        rw [nodeAt, nodeAt, rootSame]
        split
        · rfl
        · next same =>
          rw [walks, if_neg]
          rintro rfl
          rw [pieces, whole, not_not.mp same] at other
          exact other rfl
    refine ⟨v₁, v₂, nodeAt v₁ (split q slash), resolveClear device rooted unwritten ?_, ?_⟩
    · intro pre post m whole' more found onDisk
      obtain ⟨names', comps', walked'⟩ := nodeAtSpec found
      have inside := walkInside rooted.tree.apart rooted.tree.apart.begun walked'
      rw [← extend.same.type m inside onDisk]
      refine clear pre post m whole' more ?_
      rw [comps', nodeAt, rootSame, if_neg (by simp), walks, if_neg]
      · exact walked'
      · rintro rfl
        rw [walkSnoc, walked] at walked'
        simp only [Option.bind_some, findChildNone new] at walked'
        cases walked'
    · rw [← sameNode]
      exact resolveClear device extend.rooted (extend.unwritten freeBlock unwritten)
        (fun pre post m whole' more found _ => clear pre post m whole' more found)

theorem framebufferIsDevice (deviceID : Int) (fbSize : Nat) : Device (framebufferDevice deviceID fbSize) :=
  ⟨fun _ _ _ => rfl, fun _ _ _ => rfl, fun _ _ _ _ => rfl⟩

/- mkdir("/d"), and then mkfile("/d/f"), which is opened as "/d/f/". -/
theorem createThenOpenFile : ∃ d v v₂ v₃ n, RamDisk.createRoot 4 8 = some d ∧
    run (step (kernelFs 16)) (globalVFS 16 d) [.mkdir [slash, 0x64#8] (fun _ => 0#8)] = some v ∧
    perform (kernelFs 16) v (.mkfile [slash, 0x64#8, slash, 0x66#8] (fun _ => 0#8)) = .ok (v₂, some n) ∧
    openNode (kernelFs 16) v₂ [slash, 0x64#8, slash, 0x66#8, slash] = .ok (v₃, some n) := by
  have facts : ((RamDisk.createRoot 4 8).bind (fun d =>
      (run (step (kernelFs 16)) (globalVFS 16 d) [.mkdir [slash, 0x64#8] (fun _ => 0#8)]).bind (fun v =>
        (openNode (kernelFs 16) v [slash, 0x64#8]).toOption.map (fun r =>
          ((v.disk.1.getFreeINode.isSome && v.disk.1.getFreeDataBlock.isSome && (childNames r.1 1).isEmpty : Bool),
            r.2, (r.1.nodes 1).info.type))))) = some (true, some 1, .DIRECTORY) := by
    decide +kernel
  obtain ⟨d, created, facts⟩ := Option.bind_eq_some_iff.mp facts
  obtain ⟨v, ran, facts⟩ := Option.bind_eq_some_iff.mp facts
  obtain ⟨⟨v₁, p⟩, opened, facts⟩ := Option.map_eq_some_iff.mp facts
  simp only [Prod.mk.injEq, Bool.and_eq_true, List.isEmpty_iff] at facts
  obtain ⟨⟨⟨freeInode, freeBlock⟩, none⟩, rfl, dir⟩ := facts
  have resolves : openNode (kernelFs 16) v [slash, 0x64#8] = .ok (v₁, some 1) := by
    cases result : openNode (kernelFs 16) v [slash, 0x64#8] with
    | error fault =>
      rw [result] at opened
      cases opened
    | ok r =>
      rw [result] at opened
      rw [Option.some.inj opened]
  obtain ⟨v₂, n, performed, -, opens, -⟩ := createThenOpen (framebufferDevice 2 16) (framebufferIsDevice 2 16) 1 4 8
    d (fun _ => 0#8) [] created [.mkdir [slash, 0x64#8] (fun _ => 0#8)]
    (fun call mem => by cases List.mem_singleton.mp mem; exact trivial) (by decide) v ran freeInode freeBlock
    [slash, 0x64#8] [0x66#8] (by decide) (by decide) (by decide) v₁ 1 resolves dir (by rw [none]; simp)
    (.mkfile [slash, 0x64#8, slash, 0x66#8] (fun _ => 0#8)) rfl trivial
  obtain ⟨v₃, found⟩ := opens [slash, 0x64#8, slash, 0x66#8, slash] (by decide)
  exact ⟨d, v, v₂, v₃, n, created, ran, performed, found⟩

end run

end DimOS.Filesystem.Vfs.Open
