import DimOS.Filesystem.VfsFiles

/-! Runs of the entry points over a disk that was mounted once. Whatever the paths are, the nodes of the tree
go on showing inodes that are in use with their type, as long as a mount of the RamDisk names an inode in
use, a removal takes the last node of its inode, and a write begins inside its file. A creation below a node
that is no file changes no file then. The kernel mounts its disk twice. -/
namespace DimOS.Filesystem.Vfs.Files
open Cpp.Containers
open Errors (Op outcome)
open Open (nodeAt inodeOf)
open OnDisk (Linked)
open RamDisk (Disk NodeType VfsNode Buffer Live Owned)
open Lib.Transition (run Guarded invariantRun)

section calls
variable {fbSize : Nat} {v v' : VFS (Disk × Buffer)}

/- The nodes of the tree have been given out, and those of the RamDisk show inodes in use. -/
structure Settled (v : VFS (Disk × Buffer)) : Prop where
  owned : Owned v.disk.1
  inside : ∀ n, Linked v n → n < v.count
  live : ∀ n, Linked v n → (v.nodes n).fileSystem = 0 →
    Live v.disk.1 (inodeOf v n) ∧ (v.disk.1.nodes (inodeOf v n)).type = (v.nodes n).info.type

theorem Settled.undisturbed (h : Settled v) {type : NodeType} {path : Chars} (noFile : ParentNoFile v path) :
    Undisturbed v type path := by
  rintro parent above onDisk n here file mine
  obtain ⟨parentPath, name, -, at'⟩ := id above
  obtain ⟨live, shown⟩ := h.live n here mine
  obtain ⟨liveParent, shownParent⟩ := h.live parent (nodeAtLinked at') onDisk
  have used : ∀ i, Live v.disk.1 i → v.disk.1.getFreeINode ≠ some i :=
    fun i alive free => alive.2 (RamDisk.freeINodeSpec free).2
  have other : inodeOf v n ≠ inodeOf v parent := by
    intro same
    rw [same, shownParent] at shown
    exact noFile parent above (shown.trans file)
  refine ⟨used _ live, other, fun pos b low slot writes => ?_⟩
  have place := Nat.mod_lt pos (show 0 < RamDisk.BlockSize by decide)
  have ref : RamDisk.Refers v.disk.1 (inodeOf v n) (pos / RamDisk.BlockSize) b := by
    refine ⟨live, ?_, slot⟩
    unfold RamDisk.readable at low
    unfold RamDisk.BlockSize at *
    omega
  unfold Writes at writes
  rw [RamDisk.openedNode, if_neg (used _ liveParent)] at writes
  have sized := h.owned.sized _ liveParent
  rcases writes with ⟨b', o, head, inside, same⟩ | reached | reached
  · have block : b' = b := by
      unfold Disk.blockAddr RamDisk.BlockSize at *
      omega
    have unmarked := RamDisk.clearUnmarked (List.mem_of_mem_head? head)
    rw [block, (h.owned.consistent.linked (fun _ => True)).marked _ _ b trivial ref] at unmarked
    cases unmarked
  · refine RamDisk.reachedOwn h.owned liveParent ref other ?_ place reached
    unfold RamDisk.BlockSize RamDisk.sizeofDirHeader at *
    omega
  · exact RamDisk.reachedOwn h.owned liveParent ref other (by rw [Nat.zero_div]; exact Nat.zero_le _) place reached

theorem settledKeptIff (hung : Hung v) (h : Settled v) {type : NodeType} {rest : Nat → BitVec 8} {path : Chars} {r : Option Nat}
    (ok : mkNode (kernelFs fbSize) type rest v path = .ok (v', r)) :
    FilesKept (kernelFs fbSize) v v' ↔ ParentNoFile v path := by
  obtain ⟨enough, needed⟩ := mkNodeKept hung h.owned.valid ok
  exact ⟨needed, fun noFile => enough ⟨noFile, h.undisturbed noFile⟩⟩

theorem Settled.grow (hung : Hung v') (h : Settled v) (owned : Owned v'.disk.1)
    (linked : ∀ n, Linked v' n → n = v.count ∨ Linked v n)
    (fs : ∀ n, Linked v n → (v'.nodes n).fileSystem = (v.nodes n).fileSystem)
    (nodes : ∀ n, Linked v n → (v.nodes n).fileSystem = 0 → inodeOf v' n = inodeOf v n ∧
      (v'.nodes n).info.type = (v.nodes n).info.type)
    (lives : ∀ i, Live v.disk.1 i → Live v'.disk.1 i ∧ (v'.disk.1.nodes i).type = (v.disk.1.nodes i).type)
    (new : Linked v' v.count → (v'.nodes v.count).fileSystem = 0 → Live v'.disk.1 (inodeOf v' v.count) ∧
      (v'.disk.1.nodes (inodeOf v' v.count)).type = (v'.nodes v.count).info.type) : Settled v' := by
  refine ⟨owned, fun n here => hung.linked here, fun n here onDisk => ?_⟩
  rcases linked n here with rfl | old
  · exact new here onDisk
  · rw [fs n old] at onDisk
    obtain ⟨inode, type⟩ := nodes n old onDisk
    obtain ⟨live, same⟩ := h.live n old onDisk
    rw [inode, type]
    exact ⟨(lives _ live).1, (lives _ live).2.trans same⟩

theorem createInSettled {type : NodeType} {rest : Nat → BitVec 8} {parent id : Nat} {name : Chars} (hung : Hung v)
    (h : Settled v) (valid : type ≠ .INVALID) (linked : Linked v parent)
    (ok : createIn (kernelFs fbSize) type rest v parent name = .ok (v', id)) : Hung v' ∧ Settled v' := by
  have inside := h.inside parent linked
  obtain ⟨hung', before, fs⟩ := createInHung hung inside ok
  refine ⟨hung', ?_⟩
  have others := (createInNodes inside ok).1
  by_cases onDisk : (v.nodes parent).fileSystem = 0
  · obtain ⟨inode, d₁, d₂, info, made⟩ := Open.createMade h.owned valid inside onDisk (h.live parent linked onDisk).1 ok
    obtain ⟨owned₁, live₁, keeps₁, type₁⟩ := made.created
    obtain ⟨owned₂, shape₂, -⟩ := made.written
    have disk : v'.disk = (d₂, v.disk.2) := by
      rw [made.tree]
      rfl
    have newInfo : (v'.nodes v.count).info = info := by
      rw [made.tree, VFS.setInfoInfo, if_neg (Nat.ne_of_gt inside)]
      exact (Open.addNodeNew _ _ _ inside).2
    refine h.grow hung' (by rw [disk]; exact owned₂) before (fun n old => fs n (h.inside n old)) ?_ ?_ ?_
    · intro n old _
      by_cases isParent : n = parent
      · rw [made.tree, inodeOf, VFS.setInfoInfo, if_pos isParent, isParent]
        exact ⟨rfl, rfl⟩
      · rw [inodeOf, others n (h.inside n old) isParent]
        exact ⟨rfl, rfl⟩
    · intro i live
      have other := made.unused live
      rw [disk]
      exact ⟨shape₂.live.mpr ((keeps₁.live other).mpr live), by rw [shape₂.types, keeps₁.nodes i other]⟩
    · intro _ _
      rw [inodeOf, newInfo, made.node.2, made.node.1, disk]
      exact ⟨shape₂.live.mpr live₁, by rw [shape₂.types, type₁]⟩
  · have disk := createInDevice inside onDisk ok
    have newFs : (v'.nodes v.count).fileSystem = (v.nodes parent).fileSystem := by
      obtain ⟨-, disk₁, info, mid, disk', info', -, shape, -, rfl⟩ := createInCases ok
      rw [VFS.setInfoFileSystem, shape]
      exact (Open.addNodeNew disk₁ _ info inside).1
    refine h.grow hung' (by rw [disk]; exact h.owned) before (fun n old => fs n (h.inside n old)) ?_ ?_ ?_
    · intro n old mine
      have isOther : n ≠ parent := by
        rintro rfl
        exact onDisk mine
      rw [inodeOf, others n (h.inside n old) isOther]
      exact ⟨rfl, rfl⟩
    · intro i live
      rw [disk]
      exact ⟨live, rfl⟩
    · intro _ mine
      rw [newFs] at mine
      exact absurd mine onDisk

/- The RamDisk is mounted at an inode that is in use and carries its own number. -/
def MountInUse (v : VFS (Disk × Buffer)) (fs : Nat) (inode : Int) : Prop :=
  fs = 0 → Live v.disk.1 inode.toNat ∧ (v.disk.1.nodes inode.toNat).inode = inode.toNat

theorem mountSettled {parent fs : Nat} {inode : Int} {name : Chars} (hung : Hung v) (h : Settled v)
    (linked : Linked v parent) (used : MountInUse v fs inode) :
    Hung (v.addNode parent name fs ((kernelFs fbSize).populateVFSNode v.disk fs inode)) ∧
      Settled (v.addNode parent name fs ((kernelFs fbSize).populateVFSNode v.disk fs inode)) := by
  have inside := h.inside parent linked
  generalize infoEq : (kernelFs fbSize).populateVFSNode v.disk fs inode = info
  have hung' := hung.addNode name fs info inside
  have old : ∀ n, Linked v n → ((v.addNode parent name fs info).nodes n).fileSystem = (v.nodes n).fileSystem ∧
      ((v.addNode parent name fs info).nodes n).info = (v.nodes n).info :=
    fun n here => Open.addNodeOld v.disk fs info inside (h.inside n here)
  have new : ((v.addNode parent name fs info).nodes v.count).fileSystem = fs ∧
      ((v.addNode parent name fs info).nodes v.count).info = info := Open.addNodeNew v.disk fs info inside
  refine ⟨hung', h.grow hung' h.owned (fun n => linkedAdd inside) (fun n here => (old n here).1) ?_
    (fun i live => ⟨live, rfl⟩) ?_⟩
  · intro n here _
    rw [inodeOf, (old n here).2]
    exact ⟨rfl, rfl⟩
  · intro _ onDisk
    have zero : fs = 0 := new.1.symm.trans onDisk
    obtain ⟨live, number⟩ := used zero
    have shown : info.resource.inode = inode.toNat ∧ info.type = (v.disk.1.nodes inode.toNat).type := by
      rw [← infoEq]
      simp only [kernelFs, withRamDisk, zero, if_true, RamDisk.Disk.populateVFSNode]
      exact ⟨number, trivial⟩
    rw [inodeOf, new.2, shown.1, shown.2]
    exact ⟨live, rfl⟩

def LastOfInode (v : VFS (Disk × Buffer)) (node : Nat) : Prop :=
  (v.nodes node).fileSystem = 0 → ∀ m, Linked v m → m ≠ node → (v.nodes m).fileSystem = 0 → inodeOf v m ≠ inodeOf v node

theorem kernelRemoveOwned {disk out : Disk × Buffer} {fs : Nat} {info : VfsNode} (h : Owned disk.1)
    (live : fs = 0 → Live disk.1 info.resource.inode) (ok : (kernelFs fbSize).remove disk fs info = some out) :
    Owned out.1 ∧ out.1.super = disk.1.super ∧
      ∀ i, (fs = 0 → i ≠ info.resource.inode) → out.1.nodes i = disk.1.nodes i := by
  simp only [kernelFs, withRamDisk] at ok
  split at ok
  · next onDisk =>
    obtain ⟨d₁, removed, rfl⟩ := Option.map_eq_some_iff.mp ok
    obtain ⟨d₁', again, owned⟩ := RamDisk.removeSpec h (live onDisk)
    cases Option.some.inj (removed.symm.trans again)
    obtain ⟨super, others⟩ := RamDisk.removeOthers removed
    exact ⟨owned, super, fun i other => others i (other onDisk)⟩
  · obtain ⟨t, -, rfl⟩ := Option.map_eq_some_iff.mp ok
    exact ⟨h, rfl, fun _ _ => rfl⟩

theorem kernelDropOwned {disk out : Disk × Buffer} {fs : Nat} {info : VfsNode} {entry : RamDisk.DirEntry}
    (h : Owned disk.1) (ok : (kernelFs fbSize).removeDirEntry disk fs info entry = some out) :
    Owned out.1 ∧ RamDisk.SameShape disk.1 out.1 := by
  simp only [kernelFs, withRamDisk] at ok
  split at ok
  · obtain ⟨d₂, dropped, rfl⟩ := Option.map_eq_some_iff.mp ok
    exact RamDisk.removeDirEntryOwned h dropped
  · obtain ⟨t, -, rfl⟩ := Option.map_eq_some_iff.mp ok
    exact ⟨h, rfl, fun _ => rfl⟩

theorem removeSettled {node : Nat} (hung : Hung v) (h : Settled v) (linked : Linked v node)
    (last : LastOfInode v node) (ok : removeNode (kernelFs fbSize) v node = .ok v') : Hung v' ∧ Settled v' := by
  obtain ⟨parent, disk, disk', up, removed, dropped, rfl⟩ := removeNodeCases ok
  obtain ⟨owned₁, super₁, nodes₁⟩ := kernelRemoveOwned h.owned (fun onDisk => (h.live node linked onDisk).1) removed
  obtain ⟨owned₂, shape₂⟩ := kernelDropOwned owned₁ dropped
  obtain ⟨hung', gone, same⟩ := hung.remove disk' up
  refine ⟨hung', owned₂, fun n here => hung'.linked here, fun n here onDisk => ?_⟩
  obtain ⟨old, other⟩ := gone n here
  rw [(same n).1] at onDisk
  obtain ⟨live, type⟩ := h.live n old onDisk
  have kept : disk.1.nodes (inodeOf v n) = v.disk.1.nodes (inodeOf v n) :=
    nodes₁ _ (fun zero => last zero n old other onDisk)
  have live₁ : Live disk.1 (inodeOf v n) := by
    unfold Live
    rw [super₁, kept]
    exact live
  rw [inodeOf, (same n).2]
  refine ⟨shape₂.live.mpr live₁, ?_⟩
  show (disk'.1.nodes (inodeOf v n)).type = _
  rw [shape₂.types, kept]
  exact type

theorem writeSettled {path : Chars} {offset size : Nat} {buffer : Buffer} (hung : Hung v) (h : Settled v)
    (begins : ∀ n, nodeAt v (split path slash) = some n → (v.nodes n).fileSystem = 0 →
      offset ≤ (v.disk.1.nodes (inodeOf v n)).size)
    (ok : write (kernelFs fbSize) v path offset size buffer = .ok v') : Hung v' ∧ Settled v' := by
  unfold write at ok
  split at ok
  · cases ok
  · next v₁ found =>
    obtain ⟨rfl, -⟩ := resolveStays found
    cases ok
    exact ⟨hung, h⟩
  · next v₁ node found =>
    obtain ⟨rfl, at'⟩ := resolveStays found
    have linked := nodeAtLinked at'.symm
    split at ok
    · cases ok
      exact ⟨hung, h⟩
    · split at ok
      · cases ok
      · next disk resource bytes wrote =>
        cases ok
        have facts : Owned disk.1 ∧ RamDisk.SameShape v₁.disk.1 disk.1 ∧
            ((v₁.nodes node).fileSystem = 0 → resource.inode = inodeOf v₁ node) := by
          simp only [kernelFs, withRamDisk] at wrote
          split at wrote
          · next onDisk =>
            obtain ⟨out, written, pair⟩ := Option.map_eq_some_iff.mp wrote
            simp only [Prod.mk.injEq] at pair
            obtain ⟨rfl, rfl, rfl⟩ := pair
            obtain ⟨out', again, owned, shape, inode⟩ := RamDisk.writeSpec size buffer h.owned
              (h.live node linked onDisk).1 (begins node at'.symm onDisk)
            cases Option.some.inj (written.symm.trans again)
            exact ⟨owned, shape, fun _ => inode⟩
          · next device =>
            obtain ⟨out, -, pair⟩ := Option.map_eq_some_iff.mp wrote
            cases (Prod.mk.inj pair).1
            exact ⟨h.owned, ⟨rfl, fun _ => rfl⟩, fun onDisk => absurd onDisk device⟩
        obtain ⟨owned, shape, inode⟩ := facts
        have hung' : Hung ({ v₁ with disk := disk }.setInfo node { (v₁.nodes node).info with resource := resource }) :=
          hung.fewer rfl (fun n => VFS.setInfoParent { v₁ with disk := disk } _ _ n)
            (fun n => by rw [VFS.setInfoChildren])
        refine ⟨hung', h.grow hung' owned (fun n here => .inr ?_) (fun n _ => VFS.setInfoFileSystem _ _ _ n)
          (fun n old onDisk => ?_) (fun i live => ⟨shape.live.mpr live, shape.types i⟩) (fun new _ => ?_)⟩
        · rcases here with rfl | ⟨p, mem⟩
          · exact .inl rfl
          · rw [VFS.setInfoChildren] at mem
            exact .inr ⟨p, mem⟩
        · rw [inodeOf, VFS.setInfoInfo]
          split
          · next here =>
            subst here
            exact ⟨inode onDisk, rfl⟩
          · exact ⟨rfl, rfl⟩
        · exact absurd (hung'.linked new) (Nat.lt_irrefl _)

theorem mkNodeSettled {type : NodeType} {rest : Nat → BitVec 8} {path : Chars} {r : Option Nat} (hung : Hung v)
    (h : Settled v) (valid : type ≠ .INVALID) (ok : mkNode (kernelFs fbSize) type rest v path = .ok (v', r)) :
    Hung v' ∧ Settled v' := by
  obtain ⟨parentPath, name, v₁, -, ⟨missing, rfl, -⟩ | ⟨parent, id, found, made, -⟩⟩ := mkNodeCases ok
  · obtain ⟨rfl, -⟩ := resolveStays missing
    exact ⟨hung, h⟩
  · obtain ⟨rfl, at'⟩ := resolveStays found
    exact createInSettled hung h valid (nodeAtLinked at'.symm) made

theorem mntSettled {path : Chars} {fs : Nat} {inode : Int} {r : Option Nat} (hung : Hung v) (h : Settled v)
    (used : MountInUse v fs inode) (ok : mnt (kernelFs fbSize) v path fs inode = .ok (v', r)) :
    Hung v' ∧ Settled v' := by
  unfold mnt openNode at ok
  split at ok
  · cases ok
  · next v₁ n found =>
    obtain ⟨rfl, -⟩ := resolveStays found
    cases ok
    exact ⟨hung, h⟩
  · next v₁ found =>
    obtain ⟨rfl, -⟩ := resolveStays found
    obtain ⟨parentPath, name, v₂, -, ⟨missing, rfl, -⟩ | ⟨parent, found', rfl, -⟩⟩ := mntLockedCases ok
    · obtain ⟨rfl, -⟩ := resolveStays missing
      exact ⟨hung, h⟩
    · obtain ⟨rfl, at'⟩ := resolveStays found'
      exact mountSettled hung h (nodeAtLinked at'.symm) used

def RemovesLast (v : VFS (Disk × Buffer)) (path : Chars) : Prop :=
  ∀ n, nodeAt v (split path slash) = some n → LastOfInode v n

/- What the source does not check and the runs considered here keep to. -/
def Orderly (v : VFS (Disk × Buffer)) : Op → Prop
  | .mnt _ fs inode => MountInUse v fs inode
  | .rmdir path => RemovesLast v path
  | .rmfile path => RemovesLast v path
  | .write path offset _ _ => ∀ n, nodeAt v (split path slash) = some n → (v.nodes n).fileSystem = 0 →
      offset ≤ (v.disk.1.nodes (inodeOf v n)).size
  | _ => True

theorem stepSettled {op : Op} (h : Hung v ∧ Settled v) (orderly : Orderly v op) (taken : step fbSize v op = some v') :
    Hung v' ∧ Settled v' := by
  have ok := toOptionOk taken
  cases op with
  | mkdir path rest =>
    obtain ⟨⟨out, r⟩, made, rfl⟩ := mapOk ok
    exact mkNodeSettled h.1 h.2 (by simp) made
  | mkfile path rest =>
    obtain ⟨⟨out, r⟩, made, rfl⟩ := mapOk ok
    exact mkNodeSettled h.1 h.2 (by simp) made
  | mnt path fs inode =>
    obtain ⟨⟨out, r⟩, made, rfl⟩ := mapOk ok
    exact mntSettled h.1 h.2 orderly made
  | rmdir path =>
    obtain ⟨v₁, node, found, rest⟩ := Errors.rmdirOutcome.mp ok
    obtain ⟨rfl, at'⟩ := resolveStays found
    split at rest
    · cases rest
      exact h
    · exact removeSettled h.1 h.2 (nodeAtLinked at'.symm) (orderly node at'.symm) rest
  | rmfile path =>
    obtain ⟨v₁, node, found, rest⟩ := Errors.rmfileOutcome.mp ok
    obtain ⟨rfl, at'⟩ := resolveStays found
    split at rest
    · cases rest
      exact h
    · exact removeSettled h.1 h.2 (nodeAtLinked at'.symm) (orderly node at'.symm) rest
  | read path offset size buffer =>
    obtain ⟨⟨out, r⟩, made, rfl⟩ := mapOk ok
    rw [readStays made]
    exact h
  | write path offset size buffer => exact writeSettled h.1 h.2 orderly ok
  | readDir path =>
    obtain ⟨⟨out, r⟩, made, rfl⟩ := mapOk ok
    rw [readDirStays made]
    exact h

theorem startHung {nodeCount blockCount : Nat} {d : Disk} (made : RamDisk.createRoot nodeCount blockCount = some d) :
    Hung (globalVFS fbSize d) ∧ Settled (globalVFS fbSize d) := by
  have rooted : Open.Rooted (globalVFS fbSize d) := (Open.startRooted (fun _ => 0#8) [] made).1
  have hung : Hung (globalVFS fbSize d) := by
    refine ⟨rooted.tree.apart.begun, rooted.tree.apart.inside, fun n => ?_, rooted.tree.parents, rooted.tree.top⟩
    exact (rooted.tree.apart.siblings n).of_map
  exact ⟨hung, rooted.owned, fun n => hung.linked, fun n here => rooted.live n (hung.linked here)⟩

theorem reachedSettled {nodeCount blockCount : Nat} {d : Disk} {ops : List Op}
    (made : RamDisk.createRoot nodeCount blockCount = some d)
    (orderly : Guarded (step fbSize) Orderly (globalVFS fbSize d) ops)
    (reached : run (step fbSize) (globalVFS fbSize d) ops = some v) : Hung v ∧ Settled v :=
  invariantRun (fun w => Hung w ∧ Settled w) (fun _ _ _ h guard taken => stepSettled h guard taken) (startHung made)
    orderly reached

end calls

end DimOS.Filesystem.Vfs.Files
