import DimOS.Cpp.StringSplit
import DimOS.Filesystem.RamDiskDropping
import DimOS.Filesystem.VfsHung

/-! What rmfile and rmdir leave alone: the other paths of the tree, and the other entries of the directories
on disk. The child is taken out by its node, and the last child moves to its place. The entry is found by its
inode number alone, and a mounted node brings the number of another file system. -/
namespace DimOS.Filesystem.Vfs.Removal
open Cpp.Containers
open Files (Hung Standing toOptionOk nodeAtLinked resolveStays)
open Open (nodeAt inodeOf resolveAtSome nodeAtSpec findChildSpec)
open RamDisk (Disk NodeType VfsNode Buffer Live Placed Entry Swept entryInode entryAddr byteAt)
open Lib.PathTree (walk walkSnoc walkPruned)
open Lib.Transition (run)

variable {fbSize : Nat} {v v' : VFS (Disk × Buffer)}

def Resolves (F : FileSystem (Disk × Buffer)) (v : VFS (Disk × Buffer)) (path : Chars) (n : Nat) : Prop :=
  ∃ v₁, resolvePath F v path = .ok (v₁, some n)

theorem resolvesIff {path : Chars} {n : Nat} :
    Resolves (kernelFs fbSize) v path n ↔ nodeAt v (split path slash) = some n := by
  constructor
  · rintro ⟨v₁, found⟩
    exact (resolveStays found).2.symm
  · exact fun at' => ⟨v, resolveAtSome at'⟩

/- Entry j of inode i is the one that names the node in the directory of its parent. A name of less than 16
characters ends with a zero. -/
structure Names (v : VFS (Disk × Buffer)) (node parent i j : Nat) : Prop where
  fileSystem : (v.nodes node).fileSystem = 0 ∧ (v.nodes parent).fileSystem = 0
  directory : i = inodeOf v parent
  inode : entryInode v.disk.1 i j = inodeOf v node
  name : ∀ k, k < 16 → k ≤ (v.nodes node).name.length →
    byteAt v.disk.1 i (RamDisk.sizeofDirHeader + j * RamDisk.sizeofDirEntry + k) = ((v.nodes node).name[k]?).getD 0#8

/- Paths other than the removed one and those below it find the same nodes, and entries other than that of
the removed node keep their inode. -/
structure Frame (F : FileSystem (Disk × Buffer)) (v v' : VFS (Disk × Buffer)) (path : Chars) (node parent : Nat) :
    Prop where
  paths : ∀ q n, ¬ split path slash <+: split q slash → (Resolves F v' q n ↔ Resolves F v q n)
  entries : ∀ i j, Entry v.disk.1 i j → ¬ Names v node parent i j → entryInode v'.disk.1 i j = entryInode v.disk.1 i j

/- The last child, which takes the place of the removed one, does not come to stand in front of a child of
its own name. -/
def NoOvertaking (v : VFS (Disk × Buffer)) (node parent : Nat) : Prop :=
  ∀ before between last, (v.nodes parent).children = before ++ node :: (between ++ [last]) →
    slash ∉ (v.nodes last).name → (v.nodes last).name ≠ (v.nodes node).name →
    (∀ c ∈ before, (v.nodes c).name ≠ (v.nodes last).name) → ∀ c ∈ between, (v.nodes c).name ≠ (v.nodes last).name

/- Where the scan of the parent's directory comes by, no other entry has the number of the removed inode. -/
def NoClash (v : VFS (Disk × Buffer)) (node parent : Nat) : Prop :=
  (v.nodes parent).fileSystem = 0 → ∀ i j, Entry v.disk.1 i j → ¬ Names v node parent i j →
    entryInode v.disk.1 i j = inodeOf v node →
    ¬ Swept v.disk.1 (inodeOf v parent) (inodeOf v node) (v.disk.1.nodes (inodeOf v parent)).blocksInUse
      (entryAddr v.disk.1 i j)

section paths

theorem childOf (hung : Hung v) {path : Chars} {node parent : Nat} (at' : nodeAt v (split path slash) = some node)
    (up : (v.nodes node).parent = some parent) :
    ∃ names, split path slash = (v.nodes root).name :: (names ++ [(v.nodes node).name]) ∧
      walk (findChild v) root names = some parent ∧ findChild v parent (v.nodes node).name = some node := by
  obtain ⟨names, whole, walked⟩ := nodeAtSpec at'
  rcases names.eq_nil_or_concat with rfl | ⟨before, name, rfl⟩
  · cases Option.some.inj walked
    rw [hung.top] at up
    cases up
  · rw [List.concat_eq_append] at whole walked
    rw [walkSnoc] at walked
    obtain ⟨mid, first, last⟩ := Option.bind_eq_some_iff.mp walked
    obtain ⟨mem, named⟩ := findChildSpec last
    have above := hung.parents mid node mem
    rw [up] at above
    cases Option.some.inj above
    exact ⟨before, by rw [whole, named], first, by rw [named]; exact last⟩

theorem erased {children : List Nat} {node : Nat} (nodup : children.Nodup) (mem : node ∈ children) :
    (∃ before, children = before ++ [node] ∧ fastErase children (find children node) = before) ∨
      ∃ before between last, children = before ++ node :: (between ++ [last]) ∧
        fastErase children (find children node) = before ++ last :: between := by
  obtain ⟨before, after, rfl⟩ := List.append_of_mem mem
  have fresh : node ∉ before := by
    intro again
    exact (List.nodup_append.mp nodup).2.2 node again node (by simp) rfl
  rcases after.eq_nil_or_concat with rfl | ⟨between, last, rfl⟩
  · exact .inl ⟨before, rfl, fastEraseEnd fresh⟩
  · rw [List.concat_eq_append]
    exact .inr ⟨before, between, last, rfl, fastEraseLast fresh⟩

theorem findFirst {before rest : List Nat} {test : Nat → Bool} (none : ∀ c ∈ before, test c = false) :
    (before ++ rest).find? test = rest.find? test := by
  rw [List.find?_append, List.find?_eq_none.mpr (fun c mem => by simp [none c mem]), Option.none_or]

theorem findErasedIff {before between : List Nat} {node last : Nat} {test : Nat → Bool} (other : test node = false)
    (fresh : last ∉ between) :
    (before ++ last :: between).find? test = (before ++ node :: (between ++ [last])).find? test ↔
      (test last = true → (∀ c ∈ before, test c = false) → ∀ c ∈ between, test c = false) := by
  have skipped : (node :: (between ++ [last])).find? test = (between ++ [last]).find? test :=
    List.find?_cons_of_neg (by rw [other]; exact Bool.false_ne_true)
  by_cases earlier : ∀ c ∈ before, test c = false
  · rw [findFirst earlier, findFirst earlier, skipped]
    cases hit : test last with
    | true =>
      rw [List.find?_cons_of_pos hit]
      constructor
      · intro same _ _ c mem
        by_contra found
        obtain ⟨first, isFirst⟩ := Option.isSome_iff_exists.mp (List.find?_isSome.mpr ⟨c, mem, by simpa using found⟩)
        rw [List.find?_append, isFirst, Option.some_or] at same
        cases Option.some.inj same
        exact fresh (List.mem_of_find?_eq_some isFirst)
      · intro behind
        rw [findFirst (behind rfl earlier), List.find?_cons_of_pos hit]
    | false =>
      have silent : ¬ test last = true := by rw [hit]; exact Bool.false_ne_true
      rw [List.find?_cons_of_neg silent, List.find?_append, List.find?_cons_of_neg silent, List.find?_nil, Option.or_none]
      exact iff_of_true rfl (fun hit' => absurd hit' Bool.false_ne_true)
  · obtain ⟨c, mem, hit⟩ : ∃ c ∈ before, test c = true := by simpa using earlier
    obtain ⟨first, found⟩ := Option.isSome_iff_exists.mp (List.find?_isSome.mpr ⟨c, mem, hit⟩)
    rw [List.find?_append, List.find?_append, found, Option.some_or, Option.some_or]
    exact iff_of_true rfl (fun _ clear => absurd clear earlier)

theorem removalNames (v : VFS (Disk × Buffer)) (disk : Disk × Buffer) (parent : Nat) (left : List Nat) (u : Nat)
    (name : Chars) : findChild ({ v with disk := disk }.setChildren parent left) u name =
      (if u = parent then left else (v.nodes u).children).find? (fun c => (v.nodes c).name == name) := by
  have names : ∀ c, (({ v with disk := disk }.setChildren parent left).nodes c).name = (v.nodes c).name :=
    VFS.setChildrenName { v with disk := disk } parent left
  unfold findChild
  rw [VFS.setChildrenNode]
  simp only [names]
  split <;> rfl

theorem removalPathsIff (hung : Hung v) {path : Chars} {node parent : Nat} (at' : nodeAt v (split path slash) = some node)
    (up : (v.nodes node).parent = some parent) {w : VFS (Disk × Buffer)}
    (top : (w.nodes root).name = (v.nodes root).name)
    (others : ∀ u name, u ≠ parent → findChild w u name = findChild v u name) :
    (∀ q n, ¬ split path slash <+: split q slash → (nodeAt w (split q slash) = some n ↔ nodeAt v (split q slash) = some n)) ↔
      ∀ name, slash ∉ name → name ≠ (v.nodes node).name → findChild w parent name = findChild v parent name := by
  obtain ⟨names, whole, walked, -⟩ := childOf hung at' up
  have plain : ∀ c ∈ (v.nodes root).name :: (names ++ [(v.nodes node).name]), slash ∉ c :=
    fun c mem => Cpp.StringSplit.splitPieces path slash c (whole ▸ mem)
  constructor
  · intro same name bare other
    -- the path of the parent, and that of the name beside the removed node
    obtain ⟨q, atQ⟩ : ∃ q, split q slash = (v.nodes root).name :: names :=
      ⟨_, splitFlat (by simp) (fun c mem => plain c (by
        rcases List.mem_cons.mp mem with rfl | mem <;> simp [*]))⟩
    obtain ⟨r, atR⟩ : ∃ r, split r slash = (v.nodes root).name :: (names ++ [name]) := by
      refine ⟨_, splitFlat (by simp) (fun c mem => ?_)⟩
      rcases List.mem_cons.mp mem with rfl | mem
      · exact plain _ (by simp)
      · rcases List.mem_append.mp mem with mem | mem
        · exact plain c (by simp [mem])
        · rw [List.mem_singleton.mp mem]
          exact bare
    have above : ¬ split path slash <+: split q slash := by
      rw [whole, atQ]
      intro longer
      have := longer.length_le
      simp at this
    have beside : ¬ split path slash <+: split r slash := by
      rw [whole, atR]
      intro longer
      have equal := longer.eq_of_length (by simp)
      simp only [List.cons.injEq, List.append_cancel_left_eq, true_and, and_true] at equal
      exact other equal.symm
    have here : nodeAt v (split q slash) = some parent := by
      rw [atQ, nodeAt, if_neg (by simp), walked]
    have here' := (same q parent above).mpr here
    rw [atQ, nodeAt, top, if_neg (by simp)] at here'
    refine Option.ext fun n => ?_
    have both := same r n beside
    rw [atR, nodeAt, nodeAt, top, if_neg (by simp), if_neg (by simp), walkSnoc, walkSnoc, walked, here'] at both
    exact both
  · intro same q n apart
    cases pieces : split q slash with
    | nil => rfl
    | cons first rest =>
      have labels := Cpp.StringSplit.splitPieces q slash
      rw [nodeAt, nodeAt, top]
      split
      · rfl
      · next begins =>
        have edges : ∀ u name, slash ∉ name → ¬ (u = parent ∧ name = (v.nodes node).name) →
            findChild w u name = findChild v u name := by
          intro u name bare elsewhere
          by_cases here : u = parent
          · subst here
            exact same name bare (fun equal => elsewhere ⟨rfl, equal⟩)
          · exact others u name here
        rw [walkPruned edges hung.proper walked (fun name mem => labels name (pieces ▸ List.mem_cons_of_mem first mem))
          (fun above => apart ?_)]
        rw [whole, pieces, not_not.mp begins]
        exact (List.prefix_cons_inj _).mpr above

theorem removalPaths (hung : Hung v) {path : Chars} {node parent : Nat} (at' : nodeAt v (split path slash) = some node)
    (up : (v.nodes node).parent = some parent) (disk : Disk × Buffer) :
    (∀ q n, ¬ split path slash <+: split q slash →
      (nodeAt ({ v with disk := disk }.setChildren parent
        (fastErase (v.nodes parent).children (find (v.nodes parent).children node))) (split q slash) = some n ↔
        nodeAt v (split q slash) = some n)) ↔ NoOvertaking v node parent := by
  have shape := removalNames v disk parent
    (fastErase (v.nodes parent).children (find (v.nodes parent).children node))
  obtain ⟨-, -, -, found⟩ := childOf hung at' up
  rw [removalPathsIff hung at' up (VFS.setChildrenName { v with disk := disk } parent _ root)
    (fun u name other => by rw [shape, if_neg other]; rfl)]
  have nodup := hung.once parent
  have split' : ∀ {before between : List Nat} {last : Nat}, (v.nodes parent).children = before ++ node :: (between ++ [last]) →
      ∀ name, name ≠ (v.nodes node).name →
        (findChild ({ v with disk := disk }.setChildren parent
          (fastErase (v.nodes parent).children (find (v.nodes parent).children node))) parent name =
            findChild v parent name ↔ ((v.nodes last).name = name → (∀ c ∈ before, (v.nodes c).name ≠ name) →
              ∀ c ∈ between, (v.nodes c).name ≠ name)) := by
    intro before between last children name other
    rw [children] at nodup
    have fresh : node ∉ before := fun again => (List.nodup_append.mp nodup).2.2 node again node (by simp) rfl
    have single : last ∉ between := by
      have tail := (List.nodup_append.mp (List.nodup_cons.mp (List.nodup_append.mp nodup).2.1).2).2.2
      exact fun again => tail last again last (by simp) rfl
    have silent : ((v.nodes node).name == name) = false := by simpa using Ne.symm other
    rw [shape, if_pos rfl, findChild, children, fastEraseLast fresh]
    have moved := @findErasedIff before between node last (fun c => (v.nodes c).name == name) silent single
    simpa using moved
  constructor
  · intro same before between last children plain other earlier
    exact (split' children _ other).mp (same _ plain other) rfl earlier
  · intro clear name plain other
    rcases erased nodup (findChildSpec found).1 with ⟨before, children, left⟩ | ⟨before, between, last, children, -⟩
    · rw [shape, if_pos rfl, findChild, left, children, List.find?_append, List.find?_cons_of_neg (by simpa using Ne.symm other),
        List.find?_nil, Option.or_none]
    · refine (split' children name other).mpr ?_
      rintro rfl
      exact clear before between last children plain other

end paths

section entries

theorem kernelRemoved {disk out : Disk × Buffer} {fs : Nat} {info : VfsNode} (h : Placed disk.1)
    (ok : (kernelFs fbSize).remove disk fs info = some out) : RamDisk.Removed disk.1 out.1 := by
  simp only [kernelFs, withRamDisk] at ok
  split at ok
  · obtain ⟨d₁, removed, rfl⟩ := Option.map_eq_some_iff.mp ok
    exact RamDisk.removeRemoved h removed
  · obtain ⟨t, -, rfl⟩ := Option.map_eq_some_iff.mp ok
    exact ⟨rfl, fun _ => rfl, fun _ => rfl, fun _ _ => rfl⟩

theorem removalEntries {node parent : Nat} (h : Placed v.disk.1) {disk disk' : Disk × Buffer}
    (removed : (kernelFs fbSize).remove v.disk (v.nodes node).fileSystem (v.nodes node).info = some disk)
    (dropped : (kernelFs fbSize).removeDirEntry disk (v.nodes parent).fileSystem (v.nodes parent).info
      ⟨fun _ => 0#8, (v.nodes node).info.resource.inode⟩ = some disk') :
    (∀ i j, Entry v.disk.1 i j → ¬ Names v node parent i j → entryInode disk'.1 i j = entryInode v.disk.1 i j) ↔
      NoClash v node parent := by
  have gone := kernelRemoved h removed
  simp only [kernelFs, withRamDisk] at dropped
  by_cases onDisk : (v.nodes parent).fileSystem = 0
  · rw [if_pos onDisk] at dropped
    obtain ⟨d₂, done, rfl⟩ := Option.map_eq_some_iff.mp dropped
    have keeps := RamDisk.removeDirEntryKeepsIff (by omega) done
    simp only [gone.entryInode, gone.entryAddr, gone.swept, gone.used] at keeps
    refine ⟨fun kept _ i j entry other holds swept => ?_, fun clear i j entry other => ?_⟩
    · exact (keeps i j).mp (kept i j entry other) ⟨holds, swept⟩
    · exact (keeps i j).mpr (fun both => clear onDisk i j entry other both.1 both.2)
  · rw [if_neg onDisk] at dropped
    obtain ⟨t, -, rfl⟩ := Option.map_eq_some_iff.mp dropped
    exact iff_of_true (fun i j _ _ => gone.entryInode i j) (fun fs => absurd fs onDisk)

end entries

theorem removeNodeFrame (h : Standing v) {path : Chars} {node parent : Nat}
    (at' : nodeAt v (split path slash) = some node) (up : (v.nodes node).parent = some parent)
    (ok : removeNode (kernelFs fbSize) v node = .ok v') :
    Frame (kernelFs fbSize) v v' path node parent ↔ NoOvertaking v node parent ∧ NoClash v node parent := by
  obtain ⟨parent', disk, disk', up', removed, dropped, rfl⟩ := removeNodeCases ok
  cases Option.some.inj (up.symm.trans up')
  have entries := removalEntries h.2 removed dropped
  have paths := removalPaths h.1 at' up disk'
  have resolves := fun (w : VFS (Disk × Buffer)) path n => @resolvesIff fbSize w path n
  simp only [← resolves] at paths
  exact ⟨fun frame => ⟨paths.mp frame.paths, entries.mp frame.entries⟩,
    fun both => ⟨paths.mpr both.1, entries.mpr both.2⟩⟩

/- The node that the path names is removed: the type check of the call passes. -/
def Removes (fbSize : Nat) (v v' : VFS (Disk × Buffer)) (path : Chars) (node : Nat) : Prop :=
  (rmfile (kernelFs fbSize) v path = .ok v' ∧ (v.nodes node).info.type = .FILE) ∨
    (rmdir (kernelFs fbSize) v path = .ok v' ∧ (v.nodes node).info.type = .DIRECTORY ∧ (v.nodes node).children = [])

end DimOS.Filesystem.Vfs.Removal
