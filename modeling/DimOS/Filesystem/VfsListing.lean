import DimOS.Filesystem.RamDiskShown
import DimOS.Filesystem.VfsDiskRuns

/-! The file systems of the kernel as directories: the RamDisk with a readDir that returns the live entries,
beside the framebuffer. Kinds and entries are read off the image, and what a call must meet to do what it is for
is told from the image before it. -/
namespace DimOS.Filesystem.Vfs.OnDisk
open Cpp.Containers
open Lib.Transition (run Guarded)
open RamDisk (Disk NodeType VfsNode DirEntry Buffer Indexed Shows Reached clearBlocks liveEntries Live)

def listingFs (fbSize : Nat) : FileSystem (Disk × Buffer) :=
  { kernelFs fbSize with
    readDir := fun s fs node => if fs = 0 then s.1.listDir node else (kernelFs fbSize).readDir s fs node }

def kernelKind (s : Disk × Buffer) (l : Loc) : NodeType := if l.1 = 0 then (s.1.nodes l.2).type else .FILE

def nameOf (e : DirEntry) : Chars × Nat := ((cString e.fileName).getD [], e.inode.toNat)

def kernelEntries (s : Disk × Buffer) (l : Loc) : List (Chars × Nat) :=
  if l.1 = 0 ∧ (s.1.nodes l.2).type = .DIRECTORY then (liveEntries s.1 l.2).map nameOf else []

/- The inodes are numbered as they lie, and the live entries have names that end and inodes that count. -/
structure Formed (d : Disk) : Prop where
  indexed : Indexed d
  few : d.super.iNodeCnt ≤ 2 ^ 31
  named : ∀ i, (d.nodes i).type = .DIRECTORY → ∀ e ∈ liveEntries d i, (cString e.fileName).isSome ∧ 0 ≤ e.inode

def WriteMisses (d : Disk) (i offset size : Nat) : Prop :=
  ∀ j pos a, Shows d j pos a → ¬ Reached d (d.nodes i) (clearBlocks d) offset size a

section laws
variable {s : Disk × Buffer}

theorem kernelDirectory {l : Loc} (dir : kernelKind s l = .DIRECTORY) :
    l.1 = 0 ∧ (s.1.nodes l.2).type = .DIRECTORY := by
  unfold kernelKind at dir
  split at dir
  · next here => exact ⟨here, dir⟩
  · cases dir

theorem kernelEntriesHere {i : Nat} (dir : (s.1.nodes i).type = .DIRECTORY) :
    kernelEntries s (0, i) = (liveEntries s.1 i).map nameOf := if_pos ⟨rfl, dir⟩

theorem namedEntries (formed : Formed s.1) {i : Nat} (dir : (s.1.nodes i).type = .DIRECTORY) :
    (liveEntries s.1 i).map (fun e => (cString e.fileName, e.inode)) =
      (kernelEntries s (0, i)).map (fun e => (some e.1, (e.2 : Int))) := by
  rw [kernelEntriesHere dir, List.map_map]
  refine List.map_congr_left (fun e mem => ?_)
  obtain ⟨named, positive⟩ := formed.named i dir e mem
  obtain ⟨name, read⟩ := Option.isSome_iff_exists.mp named
  simp [nameOf, read, positive]

theorem kindUpdated {s' : Disk × Buffer} {inode : Nat} {type : NodeType}
    (types : ∀ i, (s'.1.nodes i).type = if i = inode then type else (s.1.nodes i).type) :
    kernelKind s' = Function.update (kernelKind s) (0, inode) type := by
  funext ⟨fs, i⟩
  rw [Function.update_apply]
  by_cases onDisk : fs = 0
  · subst onDisk
    simp only [kernelKind, if_true, types, Prod.mk.injEq, true_and]
  · simp only [kernelKind, Prod.mk.injEq, onDisk, false_and, if_false]

/- One inode takes a new type and begins without entries, one directory has the entries `mine`, and the rest is
as it was. -/
theorem entriesUpdated {s' : Disk × Buffer} {inode p : Nat} {type : NodeType} {mine : List (Chars × Nat)}
    (types : ∀ i, (s'.1.nodes i).type = if i = inode then type else (s.1.nodes i).type) (other : p ≠ inode)
    (dir : (s.1.nodes p).type = .DIRECTORY) (here : (liveEntries s'.1 p).map nameOf = mine)
    (bare : type = .DIRECTORY → liveEntries s'.1 inode = [])
    (rest : ∀ i, (s.1.nodes i).type = .DIRECTORY → i ≠ p → i ≠ inode → liveEntries s'.1 i = liveEntries s.1 i) :
    kernelEntries s' = Function.update (Function.update (kernelEntries s) (0, inode) []) (0, p) mine := by
  funext ⟨fs, i⟩
  rw [Function.update_apply, Function.update_apply]
  by_cases onDisk : fs = 0
  · subst onDisk
    simp only [Prod.mk.injEq, true_and]
    by_cases isP : i = p
    · subst isP
      rw [if_pos rfl, ← here]
      exact kernelEntriesHere (by rw [types, if_neg other, dir])
    · rw [if_neg isP]
      by_cases isNew : i = inode
      · subst isNew
        rw [if_pos rfl]
        unfold kernelEntries
        split
        · next made =>
          have new := types i
          rw [if_pos rfl] at new
          rw [bare (new.symm.trans made.2)]
          rfl
        · rfl
      · rw [if_neg isNew]
        have same := types i
        rw [if_neg isNew] at same
        unfold kernelEntries
        simp only [same, true_and]
        split
        · next isDir => rw [rest i isDir isP isNew]
        · rfl
  · simp only [kernelEntries, Prod.mk.injEq, onDisk, false_and, if_false]

/- Where the readDir of the code returns, it returns this. -/
theorem kernelListed {fbSize fs : Nat} {node : VfsNode} {es : List DirEntry} (formed : Formed s.1)
    (ok : (kernelFs fbSize).readDir s fs node = some es) : (listingFs fbSize).readDir s fs node = some es := by
  by_cases onDisk : fs = 0
  · subst onDisk
    simp only [kernelFs, withRamDisk, if_true] at ok
    simp only [listingFs, if_true]
    exact RamDisk.readDirListed (formed.indexed.slotted _) ok
  · simp only [listingFs, onDisk, if_false]
    exact ok

end laws

theorem cStringCongr {f g : Nat → BitVec 8} (same : ∀ k, k < 16 → f k = g k) : cString f = cString g := by
  have found : (List.range 16).find? (fun i => f i == 0#8) = (List.range 16).find? (fun i => g i == 0#8) :=
    List.find?_congr (fun k mem => by rw [same k (List.mem_range.mp mem)])
  unfold cString
  rw [found]
  split
  · rfl
  · next len last =>
    have short := List.mem_range.mp (List.mem_of_find?_eq_some last)
    refine congrArg some (List.map_congr_left (fun k mem => same k ?_))
    have := List.mem_range.mp mem
    omega

section calls
variable {d : Disk} (formed : Formed d)
include formed

theorem createFormed {deviceID : Int} {type : NodeType} (real : type ≠ .INVALID) {made : Disk × VfsNode}
    (created : d.create deviceID type = some made) {node : VfsNode} (dir : (d.nodes node.resource.inode).type = .DIRECTORY)
    (takes : RamDisk.Takes d node.resource.inode) {e : DirEntry} {name : Chars}
    (number : e.inode = (made.2.resource.inode : Int)) (read : cString e.fileName = some name) {out : Disk}
    (wrote : made.1.writeDir node [e] = some out) :
    Formed out ∧ (d.nodes made.2.resource.inode).type = .INVALID ∧ made.2.type = type ∧
      (∀ i, (out.nodes i).type = if i = made.2.resource.inode then type else (d.nodes i).type) ∧
      (liveEntries out node.resource.inode).map nameOf =
        (liveEntries d node.resource.inode).map nameOf ++ [(name, made.2.resource.inode)] ∧
      (type = .DIRECTORY → liveEntries out made.2.resource.inode = []) ∧
      ∀ i, (d.nodes i).type = .DIRECTORY → i ≠ node.resource.inode → liveEntries out i = liveEntries d i := by
  have valid := formed.indexed.placed.valid
  obtain ⟨inode, free, kind, mine, newType, -, others, -, super⟩ := RamDisk.createMakes valid created
  obtain ⟨inside, invalid⟩ := RamDisk.freeINodeSpec free
  have few := formed.few
  have other : node.resource.inode ≠ inode := by
    intro same
    rw [same, invalid] at dir
    cases dir
  obtain ⟨here, rest⟩ := RamDisk.createShown valid formed.indexed.slotted (formed.indexed.live dir) dir takes real created
    rfl wrote (by omega) (by rw [number, mine]; omega)
  rw [mine] at number ⊢
  have types : ∀ i, (out.nodes i).type = if i = inode then type else (d.nodes i).type := by
    intro i
    rw [(RamDisk.writeDirKind wrote i).2]
    split
    · next own => rw [own, newType]
    · next apart => rw [others i apart]
  have bare : liveEntries out inode = [] := by
    obtain ⟨-, -, -, opened, -⟩ := RamDisk.createReach valid created
    have size := (opened inode).1
    rw [RamDisk.openedNode, if_pos free] at size
    dsimp only at size
    have node := (RamDisk.writeDirReach (super ▸ valid) wrote).1.others inode (Ne.symm other)
    refine RamDisk.liveShort ?_
    unfold RamDisk.readable
    rw [node, size, RamDisk.startSize]
    split <;> omega
  have named : cString (RamDisk.plainEntry e).fileName = some name := by
    rw [← read]
    exact cStringCongr (fun k low => if_pos low)
  refine ⟨⟨RamDisk.writeDirIndexed (RamDisk.createIndexed formed.indexed created) wrote, ?_, ?_⟩, invalid, kind, types, ?_,
    fun _ => bare, fun i isDir => rest i (formed.indexed.live isDir) isDir⟩
  · rw [(RamDisk.writeDirSlots wrote).super, super]
    exact few
  · intro i isDir e' mem
    by_cases isNew : i = inode
    · rw [isNew, bare] at mem
      cases mem
    · rw [types, if_neg isNew] at isDir
      by_cases isP : i = node.resource.inode
      · rw [isP, here] at mem
        rcases List.mem_append.mp mem with old | new
        · exact formed.named _ dir e' old
        · rw [List.mem_singleton.mp new, named]
          exact ⟨rfl, by rw [RamDisk.plainEntry, number]; omega⟩
      · rw [rest i (formed.indexed.live isDir) isDir isP] at mem
        exact formed.named i isDir e' mem
  · have last : nameOf (RamDisk.plainEntry e) = (name, inode) := by
      rw [nameOf, named]
      simp [RamDisk.plainEntry, number]
    rw [here, List.map_append, List.map_singleton, last]

theorem removeFormed {node up : VfsNode} (dir : (d.nodes up.resource.inode).type = .DIRECTORY)
    (apart : up.resource.inode ≠ node.resource.inode) (clears : RamDisk.Clears d up.resource.inode node.resource.inode)
    {mid : Disk} (removed : d.remove node = some mid) {e : DirEntry} (number : e.inode = (node.resource.inode : Int))
    {out : Disk} (dropped : mid.removeDirEntry up e = some out) :
    Formed out ∧ (∀ i, (out.nodes i).type = if i = node.resource.inode then .INVALID else (d.nodes i).type) ∧
      (liveEntries out up.resource.inode).map nameOf = ((liveEntries d up.resource.inode).map nameOf).filter
        (fun x => (x.2 : Int) ≠ (node.resource.inode : Int)) ∧
      ∀ i, (d.nodes i).type = .DIRECTORY → i ≠ up.resource.inode → i ≠ node.resource.inode →
        liveEntries out i = liveEntries d i := by
  obtain ⟨name, inode⟩ := e
  dsimp only at number
  subst number
  obtain ⟨super, others⟩ := RamDisk.removeOthers removed
  obtain ⟨super', nodes, -⟩ := RamDisk.dropInBlocksKeeps dropped
  obtain ⟨here, rest⟩ := RamDisk.removeShown formed.indexed.placed formed.indexed.slotted (formed.indexed.live dir) dir
    (Ne.symm apart) rfl clears removed dropped
  have types : ∀ i, (out.nodes i).type = if i = node.resource.inode then .INVALID else (d.nodes i).type := by
    intro i
    rw [nodes]
    split
    · next own =>
      obtain ⟨mid', again, invalid, -⟩ := RamDisk.removeReturns formed.indexed.slotted node
      cases Option.some.inj (removed.symm.trans again)
      rw [own, invalid]
    · next other => rw [others i other]
  refine ⟨⟨RamDisk.removeDirEntryIndexed (RamDisk.removeIndexed formed.indexed removed) dropped, ?_, ?_⟩, types, ?_,
    fun i isDir => rest i (formed.indexed.live isDir) isDir⟩
  · rw [super', super]
    exact formed.few
  · intro i isDir e mem
    rw [types] at isDir
    split at isDir
    · cases isDir
    · next own =>
      by_cases isP : i = up.resource.inode
      · rw [isP, here] at mem
        exact formed.named _ dir e (List.mem_filter.mp mem).1
      · rw [rest i (formed.indexed.live isDir) isDir isP own] at mem
        exact formed.named i isDir e mem
  · rw [here, List.filter_map]
    congr 1
    refine List.filter_congr (fun e mem => ?_)
    have positive := (formed.named _ dir e mem).2
    have cast : ((nameOf e).2 : Int) = e.inode := Int.toNat_of_nonneg positive
    simp only [Function.comp_apply, cast]

theorem writeFormed {resource : RamDisk.Resource} {offset size : Nat} {buffer : Buffer}
    (file : (d.nodes resource.inode).type ≠ .DIRECTORY) (misses : WriteMisses d resource.inode offset size)
    {wrote : Disk.Written} (ok : d.write resource offset size buffer = some wrote) :
    Formed wrote.disk ∧ (∀ i, (wrote.disk.nodes i).type = (d.nodes i).type) ∧
      ∀ i, (d.nodes i).type = .DIRECTORY → liveEntries wrote.disk i = liveEntries d i := by
  have kept : ∀ i, (d.nodes i).type = .DIRECTORY → liveEntries wrote.disk i = liveEntries d i :=
    fun i isDir => RamDisk.writeShown formed.indexed.placed.valid file misses ok (formed.indexed.live isDir) isDir
  have types : ∀ i, (wrote.disk.nodes i).type = (d.nodes i).type := fun i => (RamDisk.writeKind ok i).2
  refine ⟨⟨RamDisk.writeIndexed formed.indexed ok, ?_, fun i isDir e mem => ?_⟩, types, kept⟩
  · rw [(RamDisk.writeSlots ok).super]
    exact formed.few
  · rw [types] at isDir
    rw [kept i isDir] at mem
    exact formed.named i isDir e mem

end calls

def kernelDirectories (fbSize : Nat) : Directories (listingFs fbSize) where
  kind := kernelKind
  entries := kernelEntries
  Good s := Formed s.1
  Takes s l := RamDisk.Takes s.1 l.2
  Gives s l inode := RamDisk.Clears s.1 l.2 inode
  Misses s l offset size := l.1 = 0 → WriteMisses s.1 l.2 offset size
  lists s fs node good dir := by
    obtain ⟨rfl, isDir⟩ := kernelDirectory dir
    refine ⟨liveEntries s.1 node.resource.inode, ?_, namedEntries good isDir⟩
    simp only [listingFs, if_true, Disk.listDir, isDir, ne_eq, not_true_eq_false, if_false]
  silent s fs node es _ other ok := by
    by_cases onDisk : fs = 0
    · subst onDisk
      have file : (s.1.nodes node.resource.inode).type ≠ .DIRECTORY := other
      simp only [listingFs, if_true, Disk.listDir, ne_eq, file, not_false_eq_true] at ok
      cases ok
    · simp only [listingFs, onDisk, if_false, kernelFs, withRamDisk, framebufferDevice] at ok
      exact (Option.some.inj ok).symm
  populates s fs inode good real := by
    by_cases onDisk : fs = 0
    · subst onDisk
      simp only [kernelKind, if_true] at real
      simp only [listingFs, kernelFs, withRamDisk, if_true, Disk.populateVFSNode, Int.toNat_natCast, kernelKind,
        (good.indexed.numbered inode real).1, and_self]
    · simp only [listingFs, kernelFs, withRamDisk, onDisk, if_false, framebufferDevice, Int.toNat_natCast, kernelKind,
        and_self]
  creates s fs type s' info node e name s'' node' good dir takes real created number read wrote := by
    obtain ⟨rfl, isDir⟩ := kernelDirectory dir
    simp only [listingFs, kernelFs, withRamDisk, if_true] at created wrote
    obtain ⟨made, taken, pair⟩ := Option.map_eq_some_iff.mp created
    cases pair
    obtain ⟨out, entered, pair⟩ := Option.map_eq_some_iff.mp wrote
    cases pair
    obtain ⟨formed, invalid, kind, types, here, bare, rest⟩ := createFormed good real taken isDir takes number read entered
    refine ⟨formed, invalid, kind, rfl, rfl, kindUpdated types, ?_⟩
    rw [kernelEntriesHere isDir]
    refine entriesUpdated types ?_ isDir here bare (fun i isDir other _ => rest i isDir other)
    intro same
    rw [same, invalid] at isDir
    cases isDir
  removes s fs node s' up e s'' good dir apart gives removed number dropped := by
    obtain ⟨rfl, isDir⟩ := kernelDirectory dir
    simp only [listingFs, kernelFs, withRamDisk, if_true] at removed dropped
    obtain ⟨mid, freed, rfl⟩ := Option.map_eq_some_iff.mp removed
    obtain ⟨out, cleared, rfl⟩ := Option.map_eq_some_iff.mp dropped
    obtain ⟨formed, types, here, rest⟩ := removeFormed good isDir apart gives freed number cleared
    refine ⟨formed, kindUpdated types, ?_⟩
    rw [kernelEntriesHere isDir]
    exact entriesUpdated types apart isDir here (fun none => by cases none) rest
  stores s fs resource offset size buffer s' resource' n good file misses ok := by
    by_cases onDisk : fs = 0
    · subst onDisk
      simp only [listingFs, kernelFs, withRamDisk, if_true] at ok
      obtain ⟨wrote, stored, pair⟩ := Option.map_eq_some_iff.mp ok
      cases pair
      have isFile : (s.1.nodes resource.inode).type ≠ .DIRECTORY := file
      obtain ⟨formed, types, kept⟩ := writeFormed good isFile (misses rfl) stored
      refine ⟨formed, funext fun l => ?_, funext fun l => ?_, (RamDisk.writeReach good.indexed.placed.valid stored).2.1⟩
      · simp only [kernelKind, types]
      · unfold kernelEntries
        simp only [types]
        split
        · next here => rw [kept l.2 here.2]
        · rfl
    · simp only [listingFs, kernelFs, withRamDisk, onDisk, if_false, framebufferDevice] at ok
      obtain ⟨pair, ok, done⟩ := Option.map_eq_some_iff.mp ok
      split at ok
      · cases Option.some.inj ok
        cases done
        exact ⟨good, rfl, rfl, rfl⟩
      · cases ok

/-- A run of the VFS over a RamDisk with directories on it, and framebuffers mounted, answers as the disk does in
every state, as long as no call pushes into, returns or removes a cache that stands empty before a directory with
entries, the other calls keep names and mounts apart, and the bytes that they reach on the disk are those that
they are for. -/
theorem viewAgreesWithDisk (fbSize : Nat) (disk : Disk × Buffer) (inode : Nat) (rootName : Chars)
    (formed : Formed disk.1) (tree : WellFormed (kernelDirectories fbSize) disk)
    (valid : (disk.1.nodes inode).type ≠ .INVALID) (unaimed : ∀ i, ∀ e ∈ kernelEntries disk (0, i), e.2 ≠ inode)
    (ops : List Op) (w : World (Disk × Buffer)) (op : Op)
    (sound : Guarded (step (listingFs fbSize)) (Sound (kernelDirectories fbSize))
      ⟨construct (listingFs fbSize) disk 0 inode rootName, []⟩ (ops ++ [op]))
    (ran : run (step (listingFs fbSize)) ⟨construct (listingFs fbSize) disk 0 inode rootName, []⟩ ops = some w) :
    Answers (kernelDirectories fbSize) w op :=
  @runAnswers _ _ (kernelDirectories fbSize) disk 0 inode rootName formed tree valid unaimed ops w op sound ran

/- A disk without entries, as createRamdisk makes it, is one to start from. -/
theorem bareFormed {d : Disk} (indexed : Indexed d) (few : d.super.iNodeCnt ≤ 2 ^ 31)
    (bare : ∀ i, (d.nodes i).type = .DIRECTORY → (d.nodes i).size ≤ RamDisk.sizeofDirHeader) (fbSize : Nat) (fb : Buffer) :
    Formed d ∧ WellFormed (kernelDirectories fbSize) (d, fb) ∧ ∀ l, kernelEntries (d, fb) l = [] := by
  have none : ∀ i, (d.nodes i).type = .DIRECTORY → liveEntries d i = [] :=
    fun i dir => RamDisk.liveShort ((Nat.min_le_left _ _).trans (bare i dir))
  have empty : ∀ l, kernelEntries (d, fb) l = [] := by
    intro l
    unfold kernelEntries
    split
    · next here => rw [none l.2 here.2]; rfl
    · rfl
  refine ⟨⟨indexed, few, fun i dir e mem => ?_⟩, ⟨fun l _ => empty l, fun l => ?_, fun fs i e mem => ?_,
    fun fs i j e mem => ?_⟩, empty⟩
  · rw [none i dir] at mem
    cases mem
  · rw [show (kernelDirectories fbSize).entries (d, fb) l = [] from empty l]
    exact List.nodup_nil
  · rw [show (kernelDirectories fbSize).entries (d, fb) (fs, i) = [] from empty _] at mem
    cases mem
  · rw [show (kernelDirectories fbSize).entries (d, fb) (fs, i) = [] from empty _] at mem
    cases mem

theorem ramdiskFormed {nodeCount blockCount : Nat} (few : nodeCount ≤ 2 ^ 31) {d : Disk}
    (made : RamDisk.createRamdisk nodeCount blockCount = some d) (fbSize : Nat) (fb : Buffer) :
    Formed d ∧ WellFormed (kernelDirectories fbSize) (d, fb) ∧ ∀ l, kernelEntries (d, fb) l = [] := by
  obtain ⟨root, first, rfl⟩ := Option.map_eq_some_iff.mp made
  have super : root.super = RamDisk.createSuper nodeCount blockCount := by
    obtain ⟨out, created, rfl⟩ := Option.map_eq_some_iff.mp first
    exact (RamDisk.createSlots created).super
  refine bareFormed (RamDisk.rootIndexed first).2 ?_ (fun i dir => RamDisk.rootBare first dir) fbSize fb
  show root.super.iNodeCnt ≤ 2 ^ 31
  rw [super]
  exact few

theorem resolveTop {F : FileSystem (Disk × Buffer)} {v : VFS (Disk × Buffer)} (named : (v.nodes root).name = []) :
    resolvePath F v [slash] = .ok (v, some root) := by
  simp [resolvePath, show split [slash] slash = [[]] by decide, named, resolvePathUtil]

/- mkfile in a root that lies in one block and is the only directory. -/
theorem rootCreates {fbSize : Nat} {w : World (Disk × Buffer)} {name : Chars} (plain : slash ∉ name)
    (read : ∀ inode, cString (fromStringName (fun _ => 0#8) name inode).fileName = some name)
    (named : (w.vfs.nodes root).name = []) (top : loc w.vfs root = (0, 0))
    (dir : (w.vfs.nodes root).info.type = .DIRECTORY) (loaded : Loaded (kernelDirectories fbSize) w.vfs root)
    (new : name ∉ childNames w.vfs root) (takes : RamDisk.Takes w.vfs.disk.1 0) :
    Sound (kernelDirectories fbSize) w (.mkfile (slash :: name) (fun _ => 0#8)) := by
  intro parentPath name' v' parent shape found
  cases Option.some.inj ((@cutEq [] name plain).symm.trans shape)
  cases Except.ok.inj ((resolveTop named).symm.trans found)
  refine ⟨dir, loaded, ?_, new, read⟩
  rw [top]
  exact takes

def rootAlone (d : Disk) : Bool :=
  (List.range d.super.iNodeCnt).all (fun i => (d.nodes i).type != .DIRECTORY || i == 0)

theorem onlyRoot {d : Disk} (indexed : Indexed d) (alone : rootAlone d = true) {i : Nat}
    (dir : (d.nodes i).type = .DIRECTORY) : i = 0 := by
  have here := List.all_eq_true.mp alone i (List.mem_range.mpr (indexed.live dir).1)
  simpa [dir] using here

/- The kernel's disk under its first VFS, and that VFS after mkfile("/a"). -/
def newDisk : Option (World (Disk × Buffer)) :=
  (RamDisk.createRamdisk 4 8).map (fun d => ⟨construct (listingFs 16) (d, fun _ => 0#8) 0 0 [], []⟩)

def firstFile : Option (World (Disk × Buffer)) :=
  newDisk.bind (fun w => run (step (listingFs 16)) w [.mkfile [slash, 0x61#8] (fun _ => 0#8)])

set_option synthInstance.maxSize 1000 in
theorem firstFileFormed {w : World (Disk × Buffer)} (made : firstFile = some w) :
    Formed w.vfs.disk.1 ∧ WellFormed (kernelDirectories 16) w.vfs.disk ∧
      ∀ i, ∀ e ∈ kernelEntries w.vfs.disk (0, i), e.2 ≠ 0 := by
  obtain ⟨w₀, fresh, ran⟩ := Option.bind_eq_some_iff.mp made
  obtain ⟨d, created, rfl⟩ := Option.map_eq_some_iff.mp fresh
  have facts : (RamDisk.createRamdisk 4 8).map (fun d =>
      (rootAlone d, [(d.nodes 0).size, (d.nodes 0).blocksInUse], (d.nodes 0).dataBlocks 0, RamDisk.entryCnt d 0,
        (d.nodes 0).type, (List.range 4).map (fun o => d.data (d.blockAddr 0 + o)))) =
      some (true, [4, 1], some 0, 0, .DIRECTORY, [0#8, 0#8, 0#8, 0#8]) := by
    decide +kernel
  have after : firstFile.map (fun w => loc w.vfs root) = some (0, 0) := by
    decide +kernel
  rw [created] at facts
  simp only [Option.map_some, Option.some.injEq, Prod.mk.injEq, List.cons.injEq, and_true] at facts
  obtain ⟨alone, ⟨size, used⟩, slot, count, dir, header⟩ := facts
  obtain ⟨formed, tree, empty⟩ := ramdiskFormed (by decide) created 16 (fun _ => 0#8)
  have start : Agree (kernelDirectories 16) [] (construct (listingFs 16) (d, fun _ => 0#8) 0 0 []) := by
    refine startAgree [] formed tree (show kernelKind _ (0, 0) ≠ _ by simp [kernelKind, dir]) (fun i e mem => ?_)
    rw [show (kernelDirectories 16).entries _ (0, i) = [] from empty _] at mem
    cases mem
  have takes : RamDisk.Takes d 0 := by
    refine RamDisk.takesAlone used slot (by rw [size, count]; rfl) (by rw [size]; decide)
      (fun i isDir => onlyRoot formed.indexed alone isDir) (fun _ o low => ?_)
    rw [size] at low
    have byte := congrArg (fun l => l[o]?) header
    interval_cases o <;> simpa [List.range_succ] using byte
  have sound : Sound (kernelDirectories 16) ⟨construct (listingFs 16) (d, fun _ => 0#8) 0 0 [], []⟩
      (.mkfile [slash, 0x61#8] (fun _ => 0#8)) := by
    have number := (formed.indexed.numbered 0 (by rw [dir]; decide)).1
    refine rootCreates (by decide) (fun _ => rfl) rfl ?_ dir (fun _ => empty _) (by simp [childNames, construct]) takes
    show ((0 : Nat), (d.nodes 0).inode) = (0, 0)
    rw [number]
  have agree := stepAgree start sound (Lib.Transition.runSingle.symm.trans ran)
  rw [made] at after
  have here : loc w.vfs root = (0, 0) := Option.some.inj after
  refine ⟨agree.good, agree.disk, fun i e mem => ?_⟩
  have apart := agree.top root (.inl rfl) i e
  rw [show (w.vfs.nodes root).fileSystem = 0 from congrArg Prod.fst here,
    show (w.vfs.nodes root).info.resource.inode = 0 from congrArg Prod.snd here] at apart
  exact apart mem

def remounted (w : World (Disk × Buffer)) : World (Disk × Buffer) :=
  ⟨construct (listingFs 16) w.vfs.disk 0 0 [], []⟩

/- readDir("/") of a new VFS over the disk with the file "/a": the root is not loaded, and its empty cache is
returned. -/
theorem unloadedRootListsNothing : ∃ w, firstFile = some w ∧ Formed w.vfs.disk.1 ∧
    WellFormed (kernelDirectories 16) w.vfs.disk ∧ kernelEntries w.vfs.disk (0, 0) = [([0x61#8], 1)] ∧
    ¬ Answers (kernelDirectories 16) (remounted w) (.readDir [slash]) := by
  have facts : firstFile.map (fun w => (kernelEntries w.vfs.disk (0, 0), loc (remounted w).vfs root)) =
      some ([([0x61#8], 1)], (0, 0)) := by
    decide +kernel
  obtain ⟨w, made, facts⟩ := Option.map_eq_some_iff.mp facts
  obtain ⟨entries, top⟩ := Prod.mk.inj facts
  obtain ⟨formed, tree, -⟩ := firstFileFormed made
  refine ⟨w, made, formed, tree, entries, ?_⟩
  rintro ⟨v', nodes, listed, answer⟩
  have bare : readDir (listingFs 16) (remounted w).vfs [slash] = .ok ((remounted w).vfs, []) := by
    simp only [readDir, resolveTop (show ((remounted w).vfs.nodes root).name = [] from rfl)]
    rfl
  cases bare.symm.trans listed
  have place : locate (kernelDirectories 16) (remounted w).mounts (remounted w).vfs [slash] = some (0, 0) := by
    rw [locate, show split [slash] slash = [[]] by decide]
    simp only [show ((remounted w).vfs.nodes root).name = [] from rfl, ne_eq, not_true_eq_false, if_false, top]
    rfl
  rw [place] at answer
  have length := answer.1.length_eq
  rw [show (kernelDirectories 16).entries (remounted w).vfs.disk (0, 0) = [([0x61#8], 1)] from entries] at length
  cases length

set_option synthInstance.maxSize 10000 in
/- The same with openNode("/a") before, which loads the root, and with mkfile("/b"). -/
theorem viewAgreesAfterOpen : ∃ w w', firstFile = some w ∧
    run (step (listingFs 16)) (remounted w) [.openNode [slash, 0x61#8], .mkfile [slash, 0x62#8] (fun _ => 0#8)] = some w' ∧
    Answers (kernelDirectories 16) w' (.readDir [slash]) ∧
    kernelEntries w'.vfs.disk (0, 0) = [([0x61#8], 1), ([0x62#8], 2)] := by
  have facts : firstFile.bind (fun w => (step (listingFs 16) (remounted w) (.openNode [slash, 0x61#8])).bind (fun mid =>
      (step (listingFs 16) mid (.mkfile [slash, 0x62#8] (fun _ => 0#8))).map (fun w' =>
        ([rootAlone mid.vfs.disk.1, rootAlone w.vfs.disk.1], [(w.vfs.disk.1.nodes 0).type, (mid.vfs.nodes root).info.type],
          [(mid.vfs.disk.1.nodes 0).size, (mid.vfs.disk.1.nodes 0).blocksInUse],
          [(mid.vfs.disk.1.nodes 0).dataBlocks 0, (clearBlocks mid.vfs.disk.1).head?], RamDisk.entryCnt mid.vfs.disk.1 0,
          [(mid.vfs.nodes root).name, (w'.vfs.nodes root).name], loc mid.vfs root,
          [(mid.vfs.nodes root).children, (w'.vfs.nodes root).children], childNames mid.vfs root,
          kernelEntries w'.vfs.disk (0, 0))))) =
      some ([true, true], [.DIRECTORY, .DIRECTORY], [24, 1], [some 0, some 1], 1, [[], []], (0, 0), [[1], [1, 2]],
        [[0x61#8]], [([0x61#8], 1), ([0x62#8], 2)]) := by
    decide +kernel
  obtain ⟨w, made, facts⟩ := Option.bind_eq_some_iff.mp facts
  obtain ⟨mid, opened, facts⟩ := Option.bind_eq_some_iff.mp facts
  obtain ⟨w', created, facts⟩ := Option.map_eq_some_iff.mp facts
  simp only [Prod.mk.injEq, List.cons.injEq, and_true] at facts
  obtain ⟨⟨alone, -⟩, ⟨rootType, dir⟩, ⟨size, used⟩, ⟨slot, head⟩, count, ⟨named, named'⟩, top, ⟨loaded, loaded'⟩, names,
    entries⟩ := facts
  obtain ⟨formed, tree, unaimed⟩ := firstFileFormed made
  have ran : run (step (listingFs 16)) (remounted w)
      [.openNode [slash, 0x61#8], .mkfile [slash, 0x62#8] (fun _ => 0#8)] = some w' := by
    simp only [run, opened, created, Option.bind_some]
  have valid : (w.vfs.disk.1.nodes 0).type ≠ .INVALID := by
    rw [rootType]
    decide
  have first : Sound (kernelDirectories 16) (remounted w) (.openNode [slash, 0x61#8]) := by
    obtain ⟨out, found, -⟩ := Names.returned opened
    exact ⟨out, found⟩
  have start : Agree (kernelDirectories 16) [] (remounted w).vfs :=
    @startAgree _ _ (kernelDirectories 16) w.vfs.disk 0 0 [] formed tree valid unaimed
  have agree := stepAgree start first opened
  have takes : RamDisk.Takes mid.vfs.disk.1 0 := by
    refine RamDisk.takesAlone used slot (by rw [size, count]; rfl) (by rw [size]; decide)
      (fun i isDir => onlyRoot agree.good.indexed alone isDir) (fun same => ?_)
    rw [head] at same
    cases same
  have second : Sound (kernelDirectories 16) mid (.mkfile [slash, 0x62#8] (fun _ => 0#8)) := by
    refine rootCreates (by decide) (fun _ => rfl) named top dir (fun empty => ?_) (by rw [names]; decide) takes
    rw [loaded] at empty
    cases empty
  have last : Sound (kernelDirectories 16) w' (.readDir [slash]) := by
    refine ⟨w'.vfs, some root, resolveTop named', fun n same => ?_⟩
    cases Option.some.inj same
    intro empty
    rw [loaded'] at empty
    cases empty
  refine ⟨w, w', made, ran, viewAgreesWithDisk 16 w.vfs.disk 0 [] formed tree valid unaimed
    [.openNode [slash, 0x61#8], .mkfile [slash, 0x62#8] (fun _ => 0#8)] w' (.readDir [slash]) ?_ ran, entries⟩
  refine Lib.Transition.guardedConsIff.mpr ⟨first, fun t taken => ?_⟩
  cases Option.some.inj (opened.symm.trans taken)
  refine Lib.Transition.guardedConsIff.mpr ⟨second, fun t' taken' => ?_⟩
  cases Option.some.inj (created.symm.trans taken')
  exact Lib.Transition.guardedConsIff.mpr ⟨last, fun t'' _ => Lib.Transition.guardedNil _ _ t''⟩

end DimOS.Filesystem.Vfs.OnDisk
