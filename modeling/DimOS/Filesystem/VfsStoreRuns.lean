import DimOS.Filesystem.VfsStore

/-! Writes through the VFS, and runs of requests: the file system answers as the store of files does. -/
namespace DimOS.Filesystem.Vfs.Stored
open Cpp.Containers
open Lib.FileStore (Entry Store Closed)
open Lib.PathTree (walk walkSnoc)
open Lib.Splice (overwrite)
open Lib.Transition (run Guarded guardedConsIff)
open Open (Device Rooted Unwritten HasFreeBlock nodeAt inodeOf)
open RamDisk (Disk VfsNode Buffer Owned BlockSize MaxDataBlocks fileBytes taken)

section
variable {τ : Type} {G : FileSystem τ} {deviceID : Int} {v v' : VFS (Disk × τ)} {n : Nat}

structure Relabelled (v v' : VFS (Disk × τ)) (n : Nat) : Prop where
  count : v'.count = v.count
  names : ∀ m, (v'.nodes m).name = (v.nodes m).name
  children : ∀ m, (v'.nodes m).children = (v.nodes m).children
  parents : ∀ m, (v'.nodes m).parent = (v.nodes m).parent
  fileSystem : ∀ m, (v'.nodes m).fileSystem = (v.nodes m).fileSystem
  infos : ∀ m, m ≠ n → (v'.nodes m).info = (v.nodes m).info

theorem relabelled (disk : Disk × τ) (n : Nat) (info : VfsNode) :
    Relabelled v ({ v with disk := disk }.setInfo n info) n := by
  refine ⟨rfl, fun m => ?_, fun m => ?_, fun m => ?_, fun m => ?_, fun m other => ?_⟩
  · rw [VFS.setInfoName]
  · rw [VFS.setInfoChildren]
  · rw [VFS.setInfoParent]
  · rw [VFS.setInfoFileSystem]
  · rw [VFS.setInfoInfo, if_neg other]

theorem Relabelled.nodeAt (same : Relabelled v v' n) (place : List Chars) : nodeAt v' place = Open.nodeAt v place := by
  have edges : findChild v' = findChild v := by
    funext m name
    rw [findChild, findChild, same.children]
    congr 1
    funext child
    rw [same.names]
  cases place with
  | nil => rfl
  | cons first rest => rw [Open.nodeAt, Open.nodeAt, same.names, edges]

theorem Relabelled.tree (same : Relabelled v v' n) (h : Open.Tree v) : Open.Tree v' := by
  refine ⟨h.apart.prune same.count same.names (fun m => by rw [same.children]), fun m child mem => ?_, ?_⟩
  · rw [same.children] at mem
    rw [same.parents]
    exact h.parents m child mem
  · rw [same.parents]
    exact h.top

theorem Relabelled.sound (same : Relabelled v v' n) (h : Sound v) (owned : Owned v'.disk.1)
    (shape : RamDisk.SameShape v.disk.1 v'.disk.1)
    (kinds : (v.nodes n).fileSystem = 0 →
      (v'.nodes n).info.type = (v.nodes n).info.type ∧ inodeOf v' n = inodeOf v n)
    (kept : ∀ m, m < v.count → (v.nodes m).fileSystem = 0 → (v.nodes m).info.type = .DIRECTORY →
      RamDisk.NoEntries v.disk.1 (inodeOf v m) → RamDisk.NoEntries v'.disk.1 (inodeOf v m))
    (sized : ∀ m, m < v.count → (v.nodes m).fileSystem = 0 → (v.nodes m).info.type = .FILE →
      (v'.disk.1.nodes (inodeOf v m)).size ≤ BlockSize * (v'.disk.1.nodes (inodeOf v m)).blocksInUse)
    (closed : Closed (describe v')) : Sound v' := by
  have all : ∀ m, (v.nodes m).fileSystem = 0 →
      (v'.nodes m).info.type = (v.nodes m).info.type ∧ inodeOf v' m = inodeOf v m := by
    intro m mine
    by_cases here : m = n
    · rw [here] at mine ⊢
      exact kinds mine
    · rw [inodeOf, inodeOf, same.infos m here]
      exact ⟨rfl, rfl⟩
  have count := same.count
  refine ⟨⟨same.tree h.rooted.tree, owned, fun m inside mine => ?_, fun m k insideM insideK mineM mineK equal => ?_⟩,
    fun m inside mine dir none => ?_, closed, fun m inside mine file => ?_⟩
  · rw [same.fileSystem] at mine
    obtain ⟨live, type⟩ := h.rooted.live m (count ▸ inside) mine
    rw [(all m mine).2, (all m mine).1]
    exact ⟨shape.live.mpr live, (shape.types _).trans type⟩
  · rw [same.fileSystem] at mineM mineK
    rw [(all m mineM).2, (all k mineK).2] at equal
    exact h.rooted.inodes m k (count ▸ insideM) (count ▸ insideK) mineM mineK equal
  · rw [same.fileSystem] at mine
    rw [(all m mine).1] at dir
    rw [same.children] at none
    rw [(all m mine).2]
    exact kept m (count ▸ inside) mine dir (h.unwritten m (count ▸ inside) mine dir none)
  · rw [same.fileSystem] at mine
    rw [(all m mine).1] at file
    rw [(all m mine).2]
    exact sized m (count ▸ inside) mine file

theorem writeStep (h : Sound v) {path : Chars} {offset : Nat} (size : Nat) (buffer : Buffer) {bytes : List (BitVec 8)}
    (file : describe v (split path slash) = some (.file bytes)) (inside : offset ≤ bytes.length) :
    ∃ v' count, write (withRamDisk deviceID G) v path offset size buffer = .ok v' ∧ Sound v' ∧
      (HasFreeBlock v' → HasFreeBlock v) ∧ count ≤ min size (MaxDataBlocks * BlockSize - offset) ∧
      (count < min size (MaxDataBlocks * BlockSize - offset) → ¬ HasFreeBlock v') ∧
      describe v' = (describe v).put (split path slash) offset (taken buffer count) := by
  obtain ⟨n, at', old, onDisk, type, contents⟩ := fileAt h.rooted file
  obtain ⟨live, -⟩ := h.rooted.live n old onDisk
  have owned := h.rooted.owned
  have linked := owned.consistent.linked (fun _ => True)
  have fits := h.sized n old onDisk type
  have length : (v.disk.1.nodes (inodeOf v n)).size = bytes.length := by
    rw [← contents, RamDisk.fileBytesLength, RamDisk.readable, Nat.min_eq_left fits]
  have start : offset ≤ (v.disk.1.nodes (inodeOf v n)).size := by
    rw [length]
    exact inside
  have cap := owned.cap (inodeOf v n)
  obtain ⟨out, wrote, did⟩ := @RamDisk.writeFile (fun _ => True) v.disk.1 (v.nodes n).info.resource offset size buffer
    linked trivial live (show offset ≤ MaxDataBlocks * BlockSize by unfold BlockSize at *; omega)
    (show offset / BlockSize ≤ (v.disk.1.nodes (inodeOf v n)).blocksInUse by unfold BlockSize at *; omega)
  have did : RamDisk.FileWrite (fun _ => True) v.disk.1 (inodeOf v n) offset size buffer out := did
  obtain ⟨out', wrote', owned', -⟩ := RamDisk.writeSpec size buffer owned live start
  cases Option.some.inj (wrote.symm.trans wrote')
  have keeps := RamDisk.keepsWrite owned live start wrote
  have written : fileBytes out.disk (inodeOf v n) = overwrite bytes offset (taken buffer out.bytes) := by
    rw [← contents]
    exact did.bytes fits start
  generalize result :
    { v with disk := (out.disk, v.disk.2) }.setInfo n { (v.nodes n).info with resource := out.resource } = v'
  have same : Relabelled v v' n := by
    rw [← result]
    exact relabelled _ n _
  have disk : v'.disk.1 = out.disk := by
    rw [← result]
    rfl
  have info : (v'.nodes n).info = { (v.nodes n).info with resource := out.resource } := by
    rw [← result, VFS.setInfoInfo, if_pos rfl]
  have kinds : (v'.nodes n).info.type = (v.nodes n).info.type ∧ inodeOf v' n = inodeOf v n := by
    rw [inodeOf, info]
    exact ⟨rfl, did.shown.1⟩
  have apart : ∀ m, m < v.count → (v.nodes m).fileSystem = 0 → m ≠ n → inodeOf v m ≠ inodeOf v n :=
    fun m before mine other equal => other (h.rooted.inodes m n before old mine onDisk equal)
  have described : describe v' = (describe v).put (split path slash) offset (taken buffer out.bytes) := by
    rw [Lib.FileStore.putFile file]
    funext other
    rw [Function.update_apply, describe, same.nodeAt]
    by_cases here : other = split path slash
    · rw [if_pos here, here, at', Option.map_some, entryOf, same.fileSystem, if_neg (not_not.mpr onDisk), kinds.1,
        if_pos type, kinds.2, disk, written]
    · rw [if_neg here, describe]
      cases found : nodeAt v other with
      | none => rfl
      | some m =>
        have elsewhere : m ≠ n := by
          rintro rfl
          exact here (nodeAtOnce h.rooted at' found)
        have before := nodeAtInside h.rooted found
        rw [Option.map_some, Option.map_some, entryOf, entryOf, same.fileSystem, inodeOf, inodeOf,
          same.infos m elsewhere, disk]
        by_cases mine : (v.nodes m).fileSystem = 0
        · have kept := keepsBytes owned keeps (apart m before mine elsewhere) (h.rooted.live m before mine).1
          simp only [inodeOf] at kept
          rw [kept]
        · rw [if_pos mine, if_pos mine]
  refine ⟨v', out.bytes, ?_, ?_, ?_, did.bound, ?_, described⟩
  · rw [← result]
    simp only [write, Open.resolveAtSome at', type, reduceCtorEq, if_false, withRamDisk, onDisk, if_true, wrote,
      Option.map_some]
  · refine same.sound h (disk ▸ owned') (disk ▸ did.shape) (fun _ => kinds) ?_ ?_ ?_
    · intro m before mine dir none
      have elsewhere : m ≠ n := by
        rintro rfl
        rw [type] at dir
        cases dir
      rw [disk]
      exact keeps.noEntries (apart m before mine elsewhere) none
    · intro m before mine file'
      rw [disk]
      by_cases here : m = n
      · rw [here, did.sized]
        have grows := Nat.mul_le_mul_left BlockSize did.grows
        have reach := did.reach
        omega
      · rw [keeps.nodes _ (apart m before mine here)]
        exact h.sized m before mine file'
    · rw [described]
      exact h.closed.put offset _
  · unfold HasFreeBlock
    rw [disk]
    exact keeps.freeBefore
  · intro less free
    unfold HasFreeBlock at free
    rw [disk, (did.stuck less).2] at free
    cases free

theorem deviceStep (h : Sound v) {path : Chars} {offset size : Nat} {buffer : Buffer}
    (device : describe v (split path slash) = some .device)
    (done : write (withRamDisk deviceID G) v path offset size buffer = .ok v') :
    Sound v' ∧ v'.disk.1 = v.disk.1 ∧ describe v' = describe v := by
  obtain ⟨n, at', old, other⟩ := deviceAt h.rooted device
  simp only [write, Open.resolveAtSome at'] at done
  split at done
  · cases done
    exact ⟨h, rfl, rfl⟩
  · split at done
    · cases done
    · next disk resource count wrote =>
      simp only [withRamDisk, other, if_false] at wrote
      obtain ⟨⟨t, r⟩, -, pair⟩ := Option.map_eq_some_iff.mp wrote
      cases pair
      cases done
      generalize result : { v with disk := (v.disk.1, t) }.setInfo n { (v.nodes n).info with resource := resource } = v'
      have same : Relabelled v v' n := by
        rw [← result]
        exact relabelled _ n _
      have disk : v'.disk.1 = v.disk.1 := by
        rw [← result]
        rfl
      have described : describe v' = describe v := by
        funext place
        rw [describe, describe, same.nodeAt]
        cases Open.nodeAt v place with
        | none => rfl
        | some m =>
          rw [Option.map_some, Option.map_some, entryOf, entryOf, same.fileSystem, disk]
          by_cases here : m = n
          · rw [here, if_pos other, if_pos other]
          · rw [inodeOf, inodeOf, same.infos m here]
      refine ⟨same.sound h (disk ▸ h.rooted.owned) (disk ▸ ⟨rfl, fun _ => rfl⟩) (fun onDisk => absurd onDisk other)
        (fun m _ _ _ none => disk ▸ none) (fun m old mine file => ?_) (described ▸ h.closed), disk, described⟩
      rw [disk]
      exact h.sized m old mine file

theorem serveStep (device : Device G) (h : Sound v) {request : Request} (allowed : Allowed deviceID G v request) :
    ∃ v' count, serve (withRamDisk deviceID G) v request = some v' ∧ Sound v' ∧ (HasFreeBlock v' → HasFreeBlock v) ∧
      count ≤ wanted request ∧ (count < wanted request → ¬ HasFreeBlock v') ∧
      describe v' = answer (describe v) request count := by
  cases request with
  | make call =>
    obtain ⟨v', served, sound, free, described⟩ := makeStep device h allowed
    exact ⟨v', 0, served, sound, free, Nat.le_refl _, fun less => absurd less (Nat.lt_irrefl _), described⟩
  | write path offset size buffer =>
    -- nothing is there, or a device: the store stays
    have stays : ∀ {v'}, write (withRamDisk deviceID G) v path offset size buffer = .ok v' → Sound v' →
        v'.disk.1 = v.disk.1 → describe v' = describe v → (describe v).isFile (split path slash) = false →
        ∃ v' count, serve (withRamDisk deviceID G) v (.write path offset size buffer) = some v' ∧ Sound v' ∧
          (HasFreeBlock v' → HasFreeBlock v) ∧ count ≤ wanted (.write path offset size buffer) ∧
          (count < wanted (.write path offset size buffer) → ¬ HasFreeBlock v') ∧
          describe v' = answer (describe v) (.write path offset size buffer) count := by
      intro v' done sound disk same plain
      refine ⟨v', _, by rw [serve, done]; rfl, sound, fun free => ?_, Nat.le_refl _,
        fun less => absurd less (Nat.lt_irrefl _), ?_⟩
      · unfold HasFreeBlock at *
        rwa [disk] at free
      · rw [answer, Lib.FileStore.putElse plain, same]
    rcases allowed with ⟨nowhere, clear⟩ | ⟨length, here, inside⟩ | ⟨foreign, returns⟩
    · have found : resolvePath (withRamDisk deviceID G) v path = _ := opened device h clear
      rw [describeNone nowhere] at found
      refine @stays v ?_ h rfl rfl (by rw [Store.isFile, nowhere])
      simp only [write, found]
    · obtain ⟨bytes, file, rfl⟩ := Lib.FileStore.lengthSpec here
      obtain ⟨v', count, done, sound, free, bound, cut', described⟩ :=
        @writeStep _ G deviceID v h path offset size buffer bytes file inside
      exact ⟨v', count, by rw [serve, done]; rfl, sound, free, bound, cut', described⟩
    · cases done : write (withRamDisk deviceID G) v path offset size buffer with
      | error fault =>
        rw [done] at returns
        cases returns
      | ok v' =>
        obtain ⟨sound, disk, described⟩ := deviceStep h foreign done
        exact stays done sound disk described (by rw [Store.isFile, foreign])

theorem runStored (device : Device G) {requests : List Request} (h : Sound v)
    (allowed : Guarded (serve (withRamDisk deviceID G)) (Allowed deviceID G) v requests) :
    ∃ v' counts, run (serve (withRamDisk deviceID G)) v requests = some v' ∧ Sound v' ∧
      (HasFreeBlock v' → HasFreeBlock v) ∧ describe v' = answers (describe v) requests counts ∧
      List.Forall₂ (fun request count => count ≤ wanted request ∧ (count < wanted request → ¬ HasFreeBlock v'))
        requests counts := by
  induction requests generalizing v with
  | nil => exact ⟨v, [], rfl, h, fun free => free, rfl, .nil⟩
  | cons request requests ih =>
    obtain ⟨first, later⟩ := guardedConsIff.mp allowed
    obtain ⟨mid, count, served, sound, free, bound, stuck, described⟩ := serveStep device h first
    obtain ⟨v', counts, ran, sound', free', described', taken⟩ := ih sound (later mid served)
    refine ⟨v', count :: counts, ?_, sound', fun left => free (free' left), ?_, .cons ⟨bound, fun less left => ?_⟩ taken⟩
    · rw [run, served]
      exact ran
    · rw [described', described]
      rfl
    · exact stuck less (free' left)

/- What the lookups, the listings and the reads give, when the store is this. -/
structure Gives (F : FileSystem (Disk × τ)) (v : VFS (Disk × τ)) (S : Store Chars (BitVec 8)) : Prop where
  opens : ∀ path, S.Clear (split path slash) → ∃ node, openNode F v path = .ok (v, node) ∧
    (node.isSome ↔ (S (split path slash)).isSome)
  lists : ∀ path, S (split path slash) = some .directory → ∃ nodes, readDir F v path = .ok (v, nodes) ∧
    (nodes.map fun node => (v.nodes node).name).Nodup ∧
    ∀ name, (∃ node ∈ nodes, (v.nodes node).name = name) ↔ (S (split path slash ++ [name])).isSome
  reads : ∀ path offset size buffer bytes, S (split path slash) = some (.file bytes) →
    ∃ out, read F v path offset size buffer = .ok (v, out) ∧
      ∀ k, out k = (((bytes.drop offset).take size)[k]?).getD (buffer k)

theorem Sound.gives (device : Device G) (h : Sound v) : Gives (withRamDisk deviceID G) v (describe v) := by
  refine ⟨fun path clear => ?_, fun path dir => ?_, fun path offset size buffer bytes file => ?_⟩
  · refine ⟨_, opened device h clear, ?_⟩
    rw [describe, Option.isSome_map]
  · obtain ⟨n, at', -⟩ := directoryAt h dir
    refine ⟨(v.nodes n).children, ?_, h.rooted.tree.apart.siblings n, fun name => ?_⟩
    · rw [readDir, Open.resolveAtSome at']
    · obtain ⟨names, shape, walked⟩ := Open.nodeAtSpec at'
      have below : nodeAt v (split path slash ++ [name]) = findChild v n name := by
        rw [shape, List.cons_append, nodeAt, if_neg (by simp), walkSnoc, walked, Option.bind_some]
      rw [describe, Option.isSome_map, below, findChild, List.find?_isSome]
      simp
  · obtain ⟨n, at', old, onDisk, type, rfl⟩ := fileAt h.rooted file
    obtain ⟨live, -⟩ := h.rooted.live n old onDisk
    obtain ⟨out, ran, count, bytes⟩ := @RamDisk.readSpec (fun _ => True) v.disk.1
      (h.rooted.owned.consistent.linked _) (v.nodes n).info.resource trivial live offset size buffer
    refine ⟨out.1, ?_, fun k => ?_⟩
    · simp only [read, Open.resolveAtSome at', type, reduceCtorEq, if_false, withRamDisk, onDisk, if_true, ran]
    · have length := RamDisk.fileBytesLength v.disk.1 (inodeOf v n)
      rw [bytes k, List.getElem?_take, List.getElem?_drop]
      by_cases low : k < out.2
      · rw [if_pos low, if_pos (by omega), RamDisk.fileBytesAt (by unfold inodeOf at *; omega)]
        rfl
      · rw [if_neg low]
        split
        · next inside =>
          have past : (fileBytes v.disk.1 (inodeOf v n))[offset + k]? = none := by
            rw [List.getElem?_eq_none_iff, length]
            unfold inodeOf at *
            omega
          rw [past]
          rfl
        · rfl

theorem startSound {nodeCount blockCount : Nat} {d : Disk} (t : τ) (rootName : Chars)
    (made : RamDisk.createRoot nodeCount blockCount = some d) (blocks : 1 ≤ blockCount) :
    Sound (construct (withRamDisk deviceID G) (d, t) 0 0 rootName) ∧
      describe (construct (withRamDisk deviceID G) (d, t) 0 0 rootName) = Store.top rootName := by
  obtain ⟨rooted, -⟩ := @Open.startRooted τ G deviceID nodeCount blockCount d t rootName made
  obtain ⟨⟨d', vfsNode⟩, created, rfl⟩ := Option.map_eq_some_iff.mp made
  rw [RamDisk.mountZeroed] at created
  have valid : (RamDisk.createSuper nodeCount blockCount).Valid := by
    simp only [RamDisk.Super.Valid, RamDisk.createSuper]
    omega
  obtain ⟨inode, free, owned, live, keeps, type, number, -, -, none⟩ :=
    RamDisk.createKeeps (RamDisk.zeroedOwned valid) (by simp) created
  have first : inode = 0 := by
    obtain ⟨-, -, least⟩ := List.find?_range_eq_some.mp free
    by_contra later
    have invalid := least 0 (Nat.pos_of_ne_zero later)
    simp [RamDisk.zeroed] at invalid
  subst first
  have block : (RamDisk.zeroed (RamDisk.createSuper nodeCount blockCount)).getFreeDataBlock.isSome := by
    apply List.find?_isSome.mpr
    refine ⟨0, List.mem_range.mpr blocks, ?_⟩
    simp [Cpp.Bitset.getEq, Cpp.Bitset.bitAt, RamDisk.zeroed]
  have described : describe (construct (withRamDisk deviceID G) (d', t) 0 0 rootName) = Store.top rootName := by
    have entry : entryOf (construct (withRamDisk deviceID G) (d', t) 0 0 rootName) root = .directory := by
      rw [entryOf, if_neg (by simp [construct]), if_neg]
      intro file
      cases type.symm.trans file
    have named : ((construct (withRamDisk deviceID G) (d', t) 0 0 rootName).nodes root).name = rootName := rfl
    funext place
    rw [describe, Store.top]
    cases place with
    | nil => rfl
    | cons first rest =>
      rw [nodeAt, named]
      by_cases same : first = rootName
      · rw [if_neg (not_not.mpr same), same]
        cases rest with
        | nil =>
          rw [if_pos rfl]
          exact congrArg some entry
        | cons second rest =>
          rw [if_neg (by simp)]
          rfl
      · rw [if_pos same, if_neg fun equal => same (List.cons.inj equal).1]
        rfl
  refine ⟨⟨rooted, fun n _ _ _ _ => ?_, ?_, fun n _ _ file => ?_⟩, described⟩
  · have zero : inodeOf (construct (withRamDisk deviceID G) (d', t) 0 0 rootName) n = 0 := by
      simp [inodeOf, construct, withRamDisk, Disk.populateVFSNode, number]
    rw [zero]
    exact none rfl block
  · rw [described]
    exact Lib.FileStore.closedTop
  · have dir : ((construct (withRamDisk deviceID G) (d', t) 0 0 rootName).nodes n).info.type = .DIRECTORY := type
    rw [dir] at file
    cases file

/-- Every run of requests that the callers may make returns, and afterwards the VFS gives what a store of files
holds after the same requests: what is made is found at its path and nowhere else, every file has the bytes last
written to it, and nothing a request does not name is changed. The file system takes all the bytes of a write up
to the limit of a file, unless it is left without a free block. -/
theorem fileStore (G : FileSystem τ) (device : Device G) (deviceID : Int) (nodeCount blockCount : Nat) (d : Disk)
    (t : τ) (rootName : Chars) (created : RamDisk.createRoot nodeCount blockCount = some d) (blocks : 1 ≤ blockCount)
    (requests : List Request)
    (allowed : Guarded (serve (withRamDisk deviceID G)) (Allowed deviceID G)
      (construct (withRamDisk deviceID G) (d, t) 0 0 rootName) requests) :
    ∃ v counts, run (serve (withRamDisk deviceID G)) (construct (withRamDisk deviceID G) (d, t) 0 0 rootName) requests =
        some v ∧
      Gives (withRamDisk deviceID G) v (answers (Store.top rootName) requests counts) ∧
      Closed (answers (Store.top rootName) requests counts) ∧
      List.Forall₂ (fun request count => count ≤ wanted request ∧ (count < wanted request → ¬ HasFreeBlock v))
        requests counts := by
  obtain ⟨sound, start⟩ := @startSound τ G deviceID nodeCount blockCount d t rootName created blocks
  obtain ⟨v, counts, ran, sound', -, described, taken⟩ := runStored device sound allowed
  rw [start] at described
  exact ⟨v, counts, ran, described ▸ sound'.gives device, described ▸ sound'.closed, taken⟩

/- mkdir("/d"), mkfile("/d/f"), three bytes to it, mnt("/b"), and two bytes to the device. -/
def sample : List Request :=
  [.make (.mkdir [slash, 0x64#8] (fun _ => 0#8)), .make (.mkfile [slash, 0x64#8, slash, 0x66#8] (fun _ => 0#8)),
    .write [slash, 0x64#8, slash, 0x66#8] 0 3 (fun _ => 0x61#8), .make (.mnt [slash, 0x62#8] 1 0),
    .write [slash, 0x62#8] 0 2 (fun _ => 0x61#8)]

theorem fileStoreSample : ∃ d v counts, RamDisk.createRoot 4 8 = some d ∧
    run (serve (kernelFs 16)) (globalVFS 16 d) sample = some v ∧
    Gives (kernelFs 16) v (answers (Store.top []) sample counts) := by
  have facts : ((RamDisk.createRoot 4 8).map fun d => Lib.Transition.checkGuarded (serve (kernelFs 16))
      (Allowed 1 (framebufferDevice 2 16)) (globalVFS 16 d) sample) = some true := by
    decide +kernel
  obtain ⟨d, created, allowed⟩ := Option.map_eq_some_iff.mp facts
  obtain ⟨v, counts, ran, gives, -⟩ := fileStore (framebufferDevice 2 16) (Open.framebufferIsDevice 2 16) 1 4 8 d
    (fun _ => 0#8) [] created (by decide) sample (Lib.Transition.checkedGuarded allowed)
  exact ⟨d, v, counts, created, ran, gives⟩

end

end DimOS.Filesystem.Vfs.Stored
