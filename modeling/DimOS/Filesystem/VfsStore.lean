import DimOS.Lib.FileStore
import DimOS.Filesystem.RamDiskFile
import DimOS.Filesystem.VfsOpenRuns

/-! The VFS over one RamDisk, with devices mounted beside it, as a store of files: directories and files that are
made under new names, and files that are overwritten from an offset on, by paths. What the store holds at a path
is what the lookups, the listings and the reads of the VFS give. -/
namespace DimOS.Filesystem.Vfs.Stored
open Cpp.Containers
open Lib.FileStore (Entry Store Closed)
open Lib.PathTree (walk walkSnoc)
open Lib.Splice (overwrite)
open Lib.Transition (run Guarded guardedConsIff)
open Open (Call Device Rooted Unwritten HasFreeBlock Extends nodeAt inodeOf perform)
open RamDisk (Disk NodeType VfsNode DirEntry Buffer Live Owned Keeps BlockSize MaxDataBlocks fileBytes taken)

section definitions
variable {σ τ : Type}

inductive Request where
  | make (call : Call)
  | write (path : Chars) (offset size : Nat) (buffer : Buffer)

variable (F : FileSystem σ)

def serve (v : VFS σ) : Request → Option (VFS σ)
  | .make call => (perform F v call).toOption.map Prod.fst
  | .write path offset size buffer => (write F v path offset size buffer).toOption

def entryOf (v : VFS (Disk × τ)) (n : Nat) : Entry (BitVec 8) :=
  if (v.nodes n).fileSystem ≠ 0 then .device
  else if (v.nodes n).info.type = .FILE then .file (fileBytes v.disk.1 (inodeOf v n))
  else .directory

def describe (v : VFS (Disk × τ)) : Store Chars (BitVec 8) := fun place => (nodeAt v place).map (entryOf v)

def made : Call → Entry (BitVec 8)
  | .mkdir _ _ => .directory
  | .mkfile _ _ => .file []
  | .mnt _ _ _ => .device

/- What a request is to do, when the file system takes that many bytes of it. -/
def answer (S : Store Chars (BitVec 8)) : Request → Nat → Store Chars (BitVec 8)
  | .make call, _ =>
    match cut call.path with
    | none => S
    | some (parentPath, name) => S.hang (split parentPath slash) name (made call)
  | .write path offset _ buffer, count => S.put (split path slash) offset (taken buffer count)

/- The same for a run, with what the file system took of each request. -/
def answers (S : Store Chars (BitVec 8)) : List Request → List Nat → Store Chars (BitVec 8)
  | request :: requests, count :: counts => answers (answer S request count) requests counts
  | _, _ => S

def wanted : Request → Nat
  | .make _ => 0
  | .write _ offset size _ => min size (MaxDataBlocks * BlockSize - offset)

/- mkdir and mkfile ask for a new name, a free inode and a free block. -/
def Roomy (v : VFS (Disk × τ)) (place : List Chars) : Call → Prop
  | .mnt _ fs _ => fs ≠ 0
  | _ => describe v place = none ∧ v.disk.1.getFreeINode.isSome ∧ HasFreeBlock v

/- What the callers see to: names that are not empty, no path that leads through a file, children of directories
only, and no write to a directory or behind the end of a file. -/
def Allowed (deviceID : Int) (G : FileSystem τ) (v : VFS (Disk × τ)) : Request → Prop
  | .make call =>
    ∃ parted ∈ cut call.path, parted.2 ≠ [] ∧
      ((describe v (split parted.1 slash) = none ∧ (describe v).Clear (split parted.1 slash)) ∨
        (describe v (split parted.1 slash) = some .directory ∧ Roomy v (split parted.1 slash ++ [parted.2]) call))
  | .write path offset size buffer =>
    (describe v (split path slash) = none ∧ (describe v).Clear (split path slash)) ∨
      (∃ length ∈ (describe v).length (split path slash), offset ≤ length) ∨
      (describe v (split path slash) = some .device ∧
        (write (withRamDisk deviceID G) v path offset size buffer).toOption.isSome)

instance (v : VFS (Disk × τ)) (place : List Chars) (call : Call) : Decidable (Roomy v place call) :=
  match call with
  | .mkdir _ _ => inferInstanceAs (Decidable (describe v place = none ∧ _ = true ∧ _ = true))
  | .mkfile _ _ => inferInstanceAs (Decidable (describe v place = none ∧ _ = true ∧ _ = true))
  | .mnt _ fs _ => inferInstanceAs (Decidable (fs ≠ 0))

instance (deviceID : Int) (G : FileSystem τ) (v : VFS (Disk × τ)) (request : Request) :
    Decidable (Allowed deviceID G v request) :=
  match request with
  | .make call => inferInstanceAs (Decidable (∃ parted ∈ cut call.path, parted.2 ≠ [] ∧ (_ ∧ _ ∨ _ ∧ _)))
  | .write _ _ _ _ => inferInstanceAs (Decidable (_ ∧ _ ∨ (∃ length ∈ _, _) ∨ _ ∧ _ = true))

end definitions

section
variable {τ : Type} {G : FileSystem τ} {deviceID : Int} {v v' : VFS (Disk × τ)} {place : List Chars} {n : Nat}

structure Sound (v : VFS (Disk × τ)) : Prop where
  rooted : Rooted v
  unwritten : Unwritten v
  closed : Closed (describe v)
  sized : ∀ n, n < v.count → (v.nodes n).fileSystem = 0 → (v.nodes n).info.type = .FILE →
    (v.disk.1.nodes (inodeOf v n)).size ≤ BlockSize * (v.disk.1.nodes (inodeOf v n)).blocksInUse

theorem nodeAtInside (h : Rooted v) (at' : nodeAt v place = some n) : n < v.count := by
  obtain ⟨names, -, walked⟩ := Open.nodeAtSpec at'
  exact Open.walkInside h.tree.apart h.tree.apart.begun walked

theorem nodeAtOnce (h : Rooted v) {other : List Chars} (here : nodeAt v place = some n)
    (there : nodeAt v other = some n) : other = place := by
  obtain ⟨names, rfl, walked⟩ := Open.nodeAtSpec here
  obtain ⟨names', rfl, walked'⟩ := Open.nodeAtSpec there
  rw [h.tree.proper names' names n walked' walked]

theorem describeAt (at' : nodeAt v place = some n) : describe v place = some (entryOf v n) := by
  rw [describe, at', Option.map_some]

theorem describeNone (none : describe v place = none) : nodeAt v place = Option.none :=
  Option.map_eq_none_iff.mp none

theorem directoryAt (h : Sound v) (dir : describe v place = some .directory) :
    ∃ n, nodeAt v place = some n ∧ n < v.count ∧ (v.nodes n).fileSystem = 0 ∧
      (v.nodes n).info.type = .DIRECTORY := by
  obtain ⟨n, at', kind⟩ := Option.map_eq_some_iff.mp dir
  have inside := nodeAtInside h.rooted at'
  unfold entryOf at kind
  split at kind
  · cases kind
  · next onDisk =>
    split at kind
    · cases kind
    · next other =>
      obtain ⟨live, type⟩ := h.rooted.live n inside (not_not.mp onDisk)
      refine ⟨n, at', inside, not_not.mp onDisk, ?_⟩
      have valid := live.2
      rw [type] at valid
      cases shape : (v.nodes n).info.type with
      | INVALID => exact absurd shape valid
      | FILE => exact absurd shape other
      | DIRECTORY => rfl

theorem fileAt (h : Rooted v) {bytes : List (BitVec 8)} (file : describe v place = some (.file bytes)) :
    ∃ n, nodeAt v place = some n ∧ n < v.count ∧ (v.nodes n).fileSystem = 0 ∧ (v.nodes n).info.type = .FILE ∧
      fileBytes v.disk.1 (inodeOf v n) = bytes := by
  obtain ⟨n, at', kind⟩ := Option.map_eq_some_iff.mp file
  unfold entryOf at kind
  split at kind
  · cases kind
  · next onDisk =>
    split at kind
    · next type =>
      cases kind
      exact ⟨n, at', nodeAtInside h at', not_not.mp onDisk, type, rfl⟩
    · cases kind

theorem deviceAt (h : Rooted v) (device : describe v place = some .device) :
    ∃ n, nodeAt v place = some n ∧ n < v.count ∧ (v.nodes n).fileSystem ≠ 0 := by
  obtain ⟨n, at', kind⟩ := Option.map_eq_some_iff.mp device
  unfold entryOf at kind
  split at kind
  · next other => exact ⟨n, at', nodeAtInside h at', other⟩
  · split at kind
    · cases kind
    · cases kind

theorem opened (device : Device G) (h : Sound v) {path : Chars} (clear : (describe v).Clear (split path slash)) :
    openNode (withRamDisk deviceID G) v path = .ok (v, nodeAt v (split path slash)) := by
  apply Open.resolveClear device h.rooted h.unwritten
  intro pre post n shape more found onDisk file
  have short : pre.length < (split path slash).length := by
    rw [shape, List.length_append]
    have := List.length_pos_iff.mpr more
    omega
  have none := clear pre.length short
  rw [shape, List.take_left', Store.isFile, describeAt found, entryOf, if_neg (not_not.mpr onDisk), if_pos file] at none
  · cases none
  · rfl


theorem nodeAtHung (h : Rooted v) {parent : Nat} {name : Chars} (at' : nodeAt v place = some parent)
    (extend : Extends v v' parent name) (other : List Chars) :
    nodeAt v' other = if other = place ++ [name] then some v.count else nodeAt v other := by
  obtain ⟨names, rfl, walked⟩ := Open.nodeAtSpec at'
  cases other with
  | nil => rfl
  | cons first rest =>
    rw [nodeAt, nodeAt, extend.name h.tree, extend.plant.walk h.tree walked]
    by_cases same : first = (v.nodes root).name
    · rw [if_neg (not_not.mpr same), if_neg (not_not.mpr same), same]
      simp
    · rw [if_pos same, if_pos same, if_neg]
      rintro equal
      exact same (List.cons.inj equal).1

theorem keepsBytes {d d' : Disk} {inode i : Nat} (owned : Owned d) (keeps : Keeps inode d d') (other : i ≠ inode)
    (live : Live d i) : fileBytes d' i = fileBytes d i := by
  simp only [fileBytes, RamDisk.readable, keeps.nodes i other]
  apply List.map_congr_left
  intro pos low
  rw [List.mem_range] at low
  exact keeps.spares.byteAt (owned.consistent.linked (fun _ => True)) trivial other live (by omega)

theorem describeHung (h : Sound v) {parent : Nat} {name : Chars} (at' : nodeAt v place = some parent)
    (extend : Extends v v' parent name)
    (kept : ∀ n, n < v.count → (v.nodes n).fileSystem = 0 → (v.nodes n).info.type = .FILE →
      fileBytes v'.disk.1 (inodeOf v n) = fileBytes v.disk.1 (inodeOf v n)) :
    describe v' = Function.update (describe v) (place ++ [name]) (some (entryOf v' v.count)) := by
  funext other
  rw [Function.update_apply, describe, nodeAtHung h.rooted at' extend]
  split
  · rfl
  · rw [describe]
    cases found : nodeAt v other with
    | none => rfl
    | some n =>
      have inside := nodeAtInside h.rooted found
      rw [Option.map_some, Option.map_some, entryOf, entryOf, extend.same.fileSystem n inside]
      by_cases onDisk : (v.nodes n).fileSystem = 0
      · rw [if_neg (not_not.mpr onDisk), if_neg (not_not.mpr onDisk), extend.same.type n inside onDisk,
          extend.same.inode n inside onDisk]
        by_cases file : (v.nodes n).info.type = .FILE
        · rw [if_pos file, if_pos file, kept n inside onDisk file]
        · rw [if_neg file, if_neg file]
      · rw [if_pos onDisk, if_pos onDisk]

theorem newName {parent : Nat} {name : Chars} (at' : nodeAt v place = some parent)
    (free : describe v (place ++ [name]) = none) : name ∉ childNames v parent := by
  intro mem
  obtain ⟨child, isChild, named⟩ := List.mem_map.mp mem
  obtain ⟨names, rfl, walked⟩ := Open.nodeAtSpec at'
  have some' : (findChild v parent name).isSome := by
    apply List.find?_isSome.mpr
    exact ⟨child, isChild, by simpa using named⟩
  obtain ⟨first, found⟩ := Option.isSome_iff_exists.mp some'
  have none := describeNone free
  rw [List.cons_append, nodeAt, if_neg (by simp), walkSnoc, walked, Option.bind_some, found] at none
  cases none

theorem createdSize (h : Rooted v) {type : NodeType} {rest : Nat → BitVec 8} {parent id inode : Nat} {name : Chars}
    {d₁ d₂ : Disk} {info : VfsNode} (valid : type ≠ .INVALID) (inside : parent < v.count)
    (onDisk : (v.nodes parent).fileSystem = 0)
    (made : Open.Made v v' type parent name inode d₁ d₂ info)
    (ok : createIn (withRamDisk deviceID G) type rest v parent name = .ok (v', id)) :
    (d₂.nodes inode).size = RamDisk.startSize type := by
  obtain ⟨-, disk, info', mid, disk', info'', created, shape, wrote, result⟩ := createInCases ok
  simp only [withRamDisk, onDisk, if_true] at created
  obtain ⟨⟨e₁, i₁⟩, taken, pair⟩ := Option.map_eq_some_iff.mp created
  obtain ⟨rfl, rfl⟩ := Prod.mk.inj pair
  rw [onDisk] at shape
  have midDisk : mid.disk = (e₁, v.disk.2) := by
    rw [shape]
    rfl
  have midParent : (mid.nodes parent).fileSystem = 0 ∧ (mid.nodes parent).info = (v.nodes parent).info := by
    rw [shape]
    exact ⟨(Open.addNodeOld _ _ _ inside inside).1.trans onDisk, (Open.addNodeOld _ _ _ inside inside).2⟩
  simp only [withRamDisk, midParent.1, midParent.2, midDisk, if_true] at wrote
  obtain ⟨e₂, written, pair⟩ := Option.map_eq_some_iff.mp wrote
  obtain ⟨rfl, rfl⟩ := Prod.mk.inj pair
  have same : e₂ = d₂ := congrArg (fun w => w.disk.1) (result.symm.trans made.tree)
  obtain ⟨out, vfsNode, created', file⟩ :=
    RamDisk.createFile deviceID (h.owned.consistent.linked (fun _ => True)) trivial made.free valid
  obtain ⟨rfl, rfl⟩ := Prod.mk.inj (Option.some.inj (taken.symm.trans created'))
  obtain ⟨inode', free, owned, -, keeps, -⟩ := RamDisk.createKeeps h.owned valid taken
  cases Option.some.inj (free.symm.trans made.free)
  have live := (h.live parent inside onDisk).1
  have other := made.unused live
  have second := RamDisk.keepsWriteDir owned ((keeps.live other).mpr live) written
  rw [← same, second.nodes inode (Ne.symm other)]
  exact file.size

theorem createStep (h : Sound v) {type : NodeType} {rest : Nat → BitVec 8} {parent id : Nat} {name : Chars}
    (valid : type ≠ .INVALID) (at' : nodeAt v place = some parent) (inside : parent < v.count)
    (onDisk : (v.nodes parent).fileSystem = 0) (dir : (v.nodes parent).info.type = .DIRECTORY)
    (free : describe v (place ++ [name]) = none) (block : HasFreeBlock v)
    (ok : createIn (withRamDisk deviceID G) type rest v parent name = .ok (v', id)) :
    Sound v' ∧ (HasFreeBlock v' → HasFreeBlock v) ∧
      describe v' = (describe v).hang place name (if type = .FILE then .file [] else .directory) := by
  have parentHere : describe v place = some .directory := by
    rw [describeAt at', entryOf, if_neg (not_not.mpr onDisk), if_neg (by rw [dir]; simp)]
  have new := newName at' free
  obtain ⟨inode, d₁, d₂, info, made⟩ :=
    Open.createMade h.rooted.owned valid inside onDisk (h.rooted.live parent inside onDisk).1 ok
  have extend := Open.createRamDisk h.rooted valid inside new onDisk ok
  obtain ⟨owned₁, live₁, keeps₁, -⟩ := made.created
  obtain ⟨owned₂, shape₂, keeps₂⟩ := made.written
  have size := createdSize h.rooted valid inside onDisk made ok
  have disk : v'.disk = (d₂, v.disk.2) := by
    rw [made.tree]
    rfl
  have newFs : (v'.nodes v.count).fileSystem = 0 := by
    rw [made.tree, VFS.setInfoFileSystem]
    exact (Open.addNodeNew _ _ _ inside).1
  have newInfo : (v'.nodes v.count).info = info := by
    rw [made.tree, VFS.setInfoInfo, if_neg (Nat.ne_of_gt inside)]
    exact (Open.addNodeNew _ _ _ inside).2
  -- the inode of a file is neither the new one nor that of the directory
  have apart : ∀ n, n < v.count → (v.nodes n).fileSystem = 0 → (v.nodes n).info.type = .FILE →
      inodeOf v n ≠ inode ∧ inodeOf v n ≠ inodeOf v parent := by
    intro n old mine file
    refine ⟨made.unused (h.rooted.live n old mine).1, fun same => ?_⟩
    rw [h.rooted.inodes n parent old inside mine onDisk same, dir] at file
    cases file
  have described : describe v' = Function.update (describe v) (place ++ [name]) (some (entryOf v' v.count)) := by
    refine describeHung h at' extend (fun n old mine file => ?_)
    obtain ⟨first, second⟩ := apart n old mine file
    have live := (h.rooted.live n old mine).1
    rw [disk, keepsBytes owned₁ keeps₂ second ((keeps₁.live first).mpr live),
      keepsBytes h.rooted.owned keeps₁ first live]
  have entry : entryOf v' v.count = if type = .FILE then .file [] else .directory := by
    rw [entryOf, if_neg (not_not.mpr newFs), newInfo, made.node.1]
    by_cases file : type = .FILE
    · rw [if_pos file, if_pos file, inodeOf, newInfo, made.node.2, disk]
      have none : RamDisk.readable d₂ inode = 0 := by
        rw [RamDisk.readable, size, file]
        exact Nat.zero_min _
      rw [fileBytes, none]
      rfl
    · rw [if_neg file, if_neg file]
  rw [entry, ← Lib.FileStore.hangNew parentHere free] at described
  refine ⟨⟨extend.rooted, extend.unwritten block h.unwritten, ?_, ?_⟩, extend.free, described⟩
  · rw [described]
    exact h.closed.hang _
  · intro n old mine file
    rw [extend.plant.count] at old
    rcases Nat.lt_or_eq_of_le (Nat.lt_succ_iff.mp old) with before | rfl
    · rw [extend.same.fileSystem n before] at mine
      rw [extend.same.type n before mine] at file
      obtain ⟨first, second⟩ := apart n before mine file
      rw [extend.same.inode n before mine, disk, keeps₂.nodes _ second, keeps₁.nodes _ first]
      exact h.sized n before mine file
    · rw [newInfo, made.node.1] at file
      rw [inodeOf, newInfo, made.node.2, disk, size, file]
      exact Nat.zero_le _

theorem mountStep (h : Sound v) {parent fs : Nat} {name : Chars} (info : VfsNode) (at' : nodeAt v place = some parent)
    (dir : describe v place = some .directory) (free : describe v (place ++ [name]) = none) (other : fs ≠ 0) :
    Sound (v.addNode parent name fs info) ∧
      describe (v.addNode parent name fs info) = (describe v).hang place name .device := by
  have inside := nodeAtInside h.rooted at'
  have newNode := @Open.addNodeNew _ v parent name v.disk fs info inside
  have extend : Extends v (v.addNode parent name fs info) parent name :=
    h.rooted.device (Open.plantedAdd v.disk fs info inside (newName at' free)) (Open.sameAdd v.disk fs info inside) rfl
      (by rw [newNode.1]; exact other)
  have described := describeHung h at' extend (fun n old mine file => rfl)
  rw [entryOf, newNode.1, if_pos other, ← Lib.FileStore.hangNew dir free] at described
  have unwritten : Unwritten (v.addNode parent name fs info) := by
    refine h.unwritten.plant extend.plant extend.same (fun _ _ _ _ none => none) (fun onDisk => ?_)
    rw [newNode.1] at onDisk
    exact absurd onDisk other
  refine ⟨⟨extend.rooted, unwritten, ?_, ?_⟩, described⟩
  · rw [described]
    exact h.closed.hang _
  · intro n old mine file
    rw [extend.plant.count] at old
    rcases Nat.lt_or_eq_of_le (Nat.lt_succ_iff.mp old) with before | rfl
    · rw [extend.same.fileSystem n before] at mine
      rw [extend.same.type n before mine] at file
      rw [extend.same.inode n before mine]
      exact h.sized n before mine file
    · rw [newNode.1] at mine
      exact absurd mine other

theorem makeStep (device : Device G) (h : Sound v) {call : Call} (allowed : Allowed deviceID G v (.make call)) :
    ∃ v', serve (withRamDisk deviceID G) v (.make call) = some v' ∧ Sound v' ∧ (HasFreeBlock v' → HasFreeBlock v) ∧
      describe v' = answer (describe v) (.make call) 0 := by
  obtain ⟨⟨parentPath, name⟩, shape, named, place⟩ := allowed
  have shape : cut call.path = some (parentPath, name) := shape
  have answered : answer (describe v) (.make call) 0 = (describe v).hang (split parentPath slash) name (made call) := by
    rw [answer, shape]
  have whole : split call.path slash = split parentPath slash ++ [name] := by
    obtain ⟨above, rfl, path, plain⟩ := cutSpec shape
    rw [path]
    exact splitLast plain named
  have served : ∀ {v' : VFS (Disk × τ)} {r}, perform (withRamDisk deviceID G) v call = .ok (v', r) →
      serve (withRamDisk deviceID G) v (.make call) = some v' := by
    intro v' r done
    rw [serve, done]
    rfl
  rw [answered]
  rcases place with ⟨nowhere, clear⟩ | ⟨dir, room⟩
  · have missing : resolvePath (withRamDisk deviceID G) v parentPath = .ok (v, none) := by
      have found : openNode (withRamDisk deviceID G) v parentPath = _ := opened device h clear
      rwa [describeNone nowhere] at found
    rw [Lib.FileStore.hangNowhere nowhere]
    have fresh : ∀ {type rest path}, path = call.path →
        mkNode (withRamDisk deviceID G) type rest v path = .ok (v, none) := by
      rintro type rest path rfl
      simp only [mkNode, shape, missing]
    refine ⟨v, ?_, h, fun free => free, rfl⟩
    cases call with
    | mkdir path rest => exact served (fresh rfl)
    | mkfile path rest => exact served (fresh rfl)
    | mnt path fs inode =>
      simp only [Call.path] at whole shape
      have looked : openNode (withRamDisk deviceID G) v path = .ok (v, nodeAt v (split path slash)) := by
        apply opened device h
        rw [whole]
        exact Lib.FileStore.clearSnoc clear (by rw [Store.isFile, nowhere])
      apply @served v none
      simp only [perform, mnt, looked]
      cases nodeAt v (split path slash) with
      | some n => rfl
      | none => simp only [mntLocked, shape, missing]
  · obtain ⟨parent, at', inside, onDisk, type⟩ := directoryAt h dir
    have found := Open.resolveAtSome (F := withRamDisk deviceID G) at'
    have create : ∀ {type rest path}, type ≠ .INVALID → path = call.path →
        describe v (split parentPath slash ++ [name]) = none → v.disk.1.getFreeINode.isSome → HasFreeBlock v →
        ∃ v' r, mkNode (withRamDisk deviceID G) type rest v path = .ok (v', r) ∧ Sound v' ∧
          (HasFreeBlock v' → HasFreeBlock v) ∧ describe v' =
            (describe v).hang (split parentPath slash) name (if type = .FILE then .file [] else .directory) := by
      rintro type rest path valid rfl new inode block
      obtain ⟨⟨v', id⟩, made⟩ : ∃ out, createIn (withRamDisk deviceID G) type rest v parent name = .ok out :=
        Open.createInReturns device h.rooted valid inside inode
      exact ⟨v', some id, by simp only [mkNode, shape, found, made, Except.map],
        createStep h valid at' inside onDisk ‹_› new block made⟩
    cases call with
    | mkdir path rest =>
      obtain ⟨new, inode, block⟩ := room
      obtain ⟨v', r, done, rest⟩ := @create .DIRECTORY rest _ (by simp) rfl new inode block
      exact ⟨v', served done, rest⟩
    | mkfile path rest =>
      obtain ⟨new, inode, block⟩ := room
      obtain ⟨v', r, done, rest⟩ := @create .FILE rest _ (by simp) rfl new inode block
      exact ⟨v', served done, rest⟩
    | mnt path fs inode =>
      simp only [Call.path] at whole shape
      have looked : openNode (withRamDisk deviceID G) v path = .ok (v, nodeAt v (split path slash)) := by
        apply opened device h
        rw [whole]
        exact Lib.FileStore.clearSnoc (h.closed.clear rfl dir) (by rw [Store.isFile, dir])
      cases taken : nodeAt v (split path slash) with
      | some n =>
        rw [Lib.FileStore.hangTaken (by rw [← whole, describeAt taken]; rfl)]
        refine ⟨v, @served v none ?_, h, fun free => free, rfl⟩
        simp only [perform, mnt, looked, taken]
      | none =>
        have free : describe v (split parentPath slash ++ [name]) = none := by
          rw [← whole, describe, taken, Option.map_none]
        obtain ⟨sound, described⟩ :=
          mountStep h ((withRamDisk deviceID G).populateVFSNode v.disk fs inode) at' dir free room
        refine ⟨_, @served _ (some v.count) ?_, sound, fun free => free, described⟩
        simp only [perform, mnt, looked, taken, mntLocked, shape, found]

end

end DimOS.Filesystem.Vfs.Stored
