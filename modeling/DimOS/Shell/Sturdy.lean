import Mathlib
import DimOS.Filesystem.RamDiskFit
import DimOS.Filesystem.VfsSettled
import DimOS.Shell.WorkingDirectory

/-! What the commands rely on and keep: the tree hangs together, the inodes are fit, and stdout is a
file of the RamDisk whose offset is inside it. Then writing to stdout and reading a node never fail. -/
namespace DimOS.Shell
open Cpp.Containers
open Filesystem.Vfs
open Filesystem.Vfs.Open (inodeOf addNodeOld addNodeNew)
open Filesystem.Vfs.Files (Hung)
open Filesystem.RamDisk (Disk Buffer NodeType AllFit Steady BlockSize MaxDataBlocks)

variable {fbSize : Nat} {v v' : VFS (Disk × Buffer)} {s : State}

structure Solid (v : VFS (Disk × Buffer)) : Prop where
  hung : Hung v
  fit : AllFit v.disk.1

/- Afterwards the tree is solid, and the nodes there were are on their file systems and inodes. -/
structure Kept (v v' : VFS (Disk × Buffer)) : Prop where
  hung : Hung v'
  count : v.count ≤ v'.count
  fileSystem : ∀ n, n < v.count → (v'.nodes n).fileSystem = (v.nodes n).fileSystem
  inode : ∀ n, n < v.count → inodeOf v' n = inodeOf v n
  disk : Steady v.disk.1 v'.disk.1

theorem Kept.solid (h : Kept v v') : Solid v' := ⟨h.hung, h.disk.fit⟩

theorem Kept.refl (h : Solid v) : Kept v v :=
  ⟨h.hung, Nat.le_refl _, fun _ _ => rfl, fun _ _ => rfl, .refl h.fit⟩

theorem Kept.trans {v'' : VFS (Disk × Buffer)} (first : Kept v v') (second : Kept v' v'') : Kept v v'' where
  hung := second.hung
  count := first.count.trans second.count
  fileSystem n old := (second.fileSystem n (Nat.lt_of_lt_of_le old first.count)).trans (first.fileSystem n old)
  inode n old := (second.inode n (Nat.lt_of_lt_of_le old first.count)).trans (first.inode n old)
  disk := first.disk.trans second.disk

theorem setInfoKept {disk : Disk × Buffer} {node : Nat} {resource : Filesystem.RamDisk.Resource} (h : Solid v)
    (steady : Steady v.disk.1 disk.1) (same : resource.inode = inodeOf v node) :
    Kept v ({ v with disk := disk }.setInfo node { (v.nodes node).info with resource := resource }) where
  hung := h.hung.fewer rfl (fun n => VFS.setInfoParent { v with disk := disk } _ _ n)
    (fun n => by rw [VFS.setInfoChildren])
  count := Nat.le_refl _
  fileSystem n _ := VFS.setInfoFileSystem _ _ _ n
  inode n _ := by
    rw [inodeOf, VFS.setInfoInfo]
    split
    · next here =>
      subst here
      exact same
    · rfl
  disk := steady

theorem nodeWriteKept {node offset size : Nat} (buffer : Buffer) (h : Solid v)
    (begins : (v.nodes node).fileSystem = 0 →
      offset / BlockSize ≤ (v.disk.1.nodes (inodeOf v node)).blocksInUse ∨ MaxDataBlocks * BlockSize < offset)
    (first : (v.nodes node).fileSystem ≠ 0 → offset = 0 ∧ size < 2 ^ 32) :
    ∃ v' bytes, nodeWrite fbSize v node offset size buffer = .ok (v', bytes) ∧ Kept v v' ∧
      ((v.nodes node).fileSystem = 0 → offset ≤ (v.disk.1.nodes (inodeOf v node)).size →
        offset + bytes ≤ (v'.disk.1.nodes (inodeOf v node)).size) := by
  by_cases onDisk : (v.nodes node).fileSystem = 0
  · obtain ⟨out, wrote, steady, inode, covered⟩ := Filesystem.RamDisk.writeFit size buffer h.fit (begins onDisk)
    refine ⟨_, out.bytes, ?_, @setInfoKept v (out.disk, v.disk.2) node out.resource h steady inode, fun _ => covered⟩
    simp only [nodeWrite, kernelFs, withRamDisk, onDisk, if_true, wrote, Option.map_some]
  · obtain ⟨rfl, short⟩ := first onDisk
    have ends : min size (((fbSize : Int) - (0 : Nat)) % 2 ^ 64).toNat = 0 ∨
        0 + min size (((fbSize : Int) - (0 : Nat)) % 2 ^ 64).toNat < 2 ^ 32 := by omega
    have wrote : nodeWrite fbSize v node 0 size buffer = .ok
        ({ v with disk := (v.disk.1, fun k => if 0 ≤ k ∧ k < 0 + min size (((fbSize : Int) - (0 : Nat)) % 2 ^ 64).toNat
            then buffer (k - 0) else v.disk.2 k) }.setInfo node
          { (v.nodes node).info with resource := (v.nodes node).info.resource },
          min size (((fbSize : Int) - (0 : Nat)) % 2 ^ 64).toNat) := by
      simp only [nodeWrite, kernelFs, withRamDisk, onDisk, if_false, framebufferDevice, if_pos ends, Option.map_some]
    exact ⟨_, _, wrote, setInfoKept h (.refl h.fit) rfl, fun mine => absurd mine onDisk⟩

theorem nodeReadReturns {node offset : Nat} (size : Nat) (buffer : Buffer) (h : Solid v) (small : fbSize < 2 ^ 32)
    (inside : (v.nodes node).fileSystem ≠ 0 → offset ≤ fbSize) :
    ∃ buffer' bytes, nodeRead fbSize v node offset size buffer = .ok (buffer', bytes) ∧
      ((v.nodes node).fileSystem ≠ 0 → offset + bytes ≤ fbSize) := by
  by_cases onDisk : (v.nodes node).fileSystem = 0
  · obtain ⟨out, got, -⟩ := @Filesystem.RamDisk.readFit v.disk.1 (v.nodes node).info.resource offset size buffer h.fit
    refine ⟨out.1, out.2, ?_, fun device => absurd onDisk device⟩
    simp only [nodeRead, kernelFs, withRamDisk, onDisk, if_true, got]
  · have low := inside onDisk
    have ends : min size (((fbSize : Int) - offset) % 2 ^ 64).toNat = 0 ∨
        offset + min size (((fbSize : Int) - offset) % 2 ^ 64).toNat < 2 ^ 32 := by omega
    have got : nodeRead fbSize v node offset size buffer = .ok
        (fun k => if k < min size (((fbSize : Int) - offset) % 2 ^ 64).toNat then v.disk.2 (offset + k) else buffer k,
          min size (((fbSize : Int) - offset) % 2 ^ 64).toNat) := by
      simp only [nodeRead, kernelFs, withRamDisk, onDisk, if_false, framebufferDevice, if_pos ends]
    exact ⟨_, _, got, fun _ => by omega⟩

theorem createInKept {type : NodeType} {rest : Nat → BitVec 8} {parent id : Nat} {name : Chars} (h : Solid v)
    (valid : type ≠ .INVALID) (inside : parent < v.count)
    (ok : createIn (kernelFs fbSize) type rest v parent name = .ok (v', id)) :
    Kept v v' ∧ (v'.nodes id).fileSystem = (v.nodes parent).fileSystem ∧ id < v'.count ∧
      ((v.nodes parent).fileSystem = 0 → (v'.disk.1.nodes (inodeOf v' id)).type ≠ .INVALID) := by
  obtain ⟨hung, -, fileSystem⟩ := Filesystem.Vfs.Files.createInHung h.hung inside ok
  obtain ⟨rfl, disk, info, mid, disk', info', created, shape, wrote, rfl⟩ := createInCases ok
  have old := fun n (low : n < v.count) => @addNodeOld Buffer v parent name disk (v.nodes parent).fileSystem info
    inside n low
  have new := @addNodeNew Buffer v parent name disk (v.nodes parent).fileSystem info inside
  rw [← shape] at old new
  have midDisk : mid.disk = disk := by rw [shape]; rfl
  have more : v.count < mid.count := by
    rw [shape]
    exact Nat.lt_succ_self _
  rw [midDisk, (old parent inside).1, (old parent inside).2] at wrote
  have facts : Steady v.disk.1 disk'.1 ∧ info'.resource.inode = inodeOf v parent ∧
      ((v.nodes parent).fileSystem = 0 → (disk'.1.nodes info.resource.inode).type ≠ .INVALID) := by
    simp only [kernelFs, withRamDisk] at created wrote
    split at created
    · next onDisk =>
      rw [if_pos onDisk] at wrote
      obtain ⟨⟨d₁, made⟩, create, pair⟩ := Option.map_eq_some_iff.mp created
      obtain ⟨d₂, write, pair'⟩ := Option.map_eq_some_iff.mp wrote
      simp only [Prod.mk.injEq] at pair pair'
      obtain ⟨rfl, rfl⟩ := pair
      obtain ⟨rfl, rfl⟩ := pair'
      obtain ⟨first, kind⟩ := Filesystem.RamDisk.createSteady h.fit create
      obtain ⟨d₂', again, second⟩ := Filesystem.RamDisk.writeDirFit (v.nodes parent).info
        [fromStringName rest name made.resource.inode] first.fit
      cases Option.some.inj (write.symm.trans again)
      exact ⟨first.trans second, rfl, fun _ => (second.keeps _ (by rw [kind]; exact valid)).1⟩
    · next device =>
      rw [if_neg device] at wrote
      simp only [framebufferDevice, Option.map_some, Option.some.injEq, Prod.mk.injEq] at created wrote
      obtain ⟨rfl, rfl⟩ := created
      obtain ⟨rfl, rfl⟩ := wrote
      exact ⟨.refl h.fit, rfl, fun onDisk => absurd onDisk device⟩
  obtain ⟨steady, number, live⟩ := facts
  have other : v.count ≠ parent := Nat.ne_of_gt inside
  refine ⟨⟨hung, Nat.le_of_lt more, fileSystem, fun n low => ?_, steady⟩, ?_, more, fun onDisk => ?_⟩
  · rw [inodeOf, VFS.setInfoInfo]
    split
    · next here =>
      rw [here]
      exact number
    · exact congrArg (fun i => i.resource.inode) (old n low).2
  · rw [VFS.setInfoFileSystem]
    exact new.1
  · rw [inodeOf, VFS.setInfoInfo, if_neg other]
    show (disk'.1.nodes (mid.nodes v.count).info.resource.inode).type ≠ .INVALID
    rw [new.2]
    exact live onDisk

theorem createInReturnsIff {type : NodeType} {rest : Nat → BitVec 8} {parent : Nat} {name : Chars} (h : Solid v)
    (inside : parent < v.count) :
    (∃ out, createIn (kernelFs fbSize) type rest v parent name = .ok out) ↔
      ((v.nodes parent).fileSystem = 0 → v.disk.1.getFreeINode ≠ none) := by
  constructor
  · rintro ⟨⟨v', id⟩, ok⟩ onDisk none
    obtain ⟨-, disk, info, mid, disk', info', created, -⟩ := createInCases ok
    simp only [kernelFs, withRamDisk, onDisk, if_true, Filesystem.RamDisk.Disk.create, none, Option.map_none] at created
    cases created
  · intro free
    apply Errors.createInReturns.mpr
    by_cases onDisk : (v.nodes parent).fileSystem = 0
    · obtain ⟨⟨d₁, info⟩, made, steady, -⟩ := @Filesystem.RamDisk.createFit v.disk.1 1 type h.fit (free onDisk)
      obtain ⟨d₂, wrote, -⟩ := Filesystem.RamDisk.writeDirFit (v.nodes parent).info
        [fromStringName rest name info.resource.inode] steady.fit
      refine ⟨(d₁, v.disk.2), info, _, by simp [kernelFs, withRamDisk, onDisk, made], rfl, ?_⟩
      rw [(addNodeOld _ _ _ inside inside).1, (addNodeOld _ _ _ inside inside).2]
      simp [kernelFs, withRamDisk, onDisk, VFS.addNodeDisk, wrote]
    · refine ⟨v.disk, ⟨.INVALID, ⟨0, 0, 0⟩⟩, _, by simp [kernelFs, withRamDisk, onDisk, framebufferDevice], rfl, ?_⟩
      rw [(addNodeOld _ _ _ inside inside).1, (addNodeOld _ _ _ inside inside).2]
      simp [kernelFs, withRamDisk, onDisk, framebufferDevice]

structure Sturdy (s : State) : Prop where
  solid : Solid s.vfs
  inside : s.stdout.fileNode < s.vfs.count
  onDisk : (s.vfs.nodes s.stdout.fileNode).fileSystem = 0
  used : (s.vfs.disk.1.nodes (inodeOf s.vfs s.stdout.fileNode)).type ≠ .INVALID
  written : s.stdout.writeOffset ≤ (s.vfs.disk.1.nodes (inodeOf s.vfs s.stdout.fileNode)).size

theorem Sturdy.moves (h : Sturdy s) (kept : Kept s.vfs v') (currDir : Chars) :
    Sturdy { s with vfs := v', currDir := currDir } := by
  obtain ⟨used, grows⟩ := kept.disk.keeps _ h.used
  have inode := kept.inode _ h.inside
  exact ⟨kept.solid, Nat.lt_of_lt_of_le h.inside kept.count, (kept.fileSystem _ h.inside).trans h.onDisk,
    by rw [inode]; exact used, by rw [inode]; exact h.written.trans grows⟩

def Goes (s : State) (x : Except Crash State) : Prop := ∃ s', x = .ok s' ∧ Sturdy s' ∧ Kept s.vfs s'.vfs

theorem Sturdy.goes (h : Sturdy s) : Goes s (.ok s) := ⟨s, rfl, h, .refl h.solid⟩

theorem Goes.bind {x : Except Crash State} {f : State → Except Crash State} (first : Goes s x)
    (second : ∀ s', Sturdy s' → Kept s.vfs s'.vfs → Goes s' (f s')) : Goes s (x >>= f) := by
  obtain ⟨mid, rfl, sturdy, kept⟩ := first
  obtain ⟨last, ran, sturdy', kept'⟩ := second mid sturdy kept
  exact ⟨last, ran, sturdy', kept.trans kept'⟩

theorem Goes.after {t : State} {x : Except Crash State} (kept : Kept s.vfs t.vfs) (goes : Goes t x) : Goes s x := by
  obtain ⟨last, ran, sturdy, kept'⟩ := goes
  exact ⟨last, ran, sturdy, kept.trans kept'⟩

theorem echoBytesGoes (h : Sturdy s) (size : Nat) (buffer : Buffer) : Goes s (echoBytes fbSize s size buffer) := by
  have fit := (h.solid.fit (inodeOf s.vfs s.stdout.fileNode)).tail
  have reach : s.stdout.writeOffset / BlockSize ≤
      (s.vfs.disk.1.nodes (inodeOf s.vfs s.stdout.fileNode)).blocksInUse :=
    (Nat.div_le_div_right h.written).trans fit
  obtain ⟨v, bytes, wrote, kept, covered⟩ := @nodeWriteKept fbSize s.vfs s.stdout.fileNode s.stdout.writeOffset size
    buffer h.solid (fun _ => .inl reach) (fun device => absurd h.onDisk device)
  refine ⟨_, by rw [echoBytes, wrote]; rfl, ?_, kept⟩
  have moved := h.moves kept s.currDir
  refine ⟨moved.solid, moved.inside, moved.onDisk, moved.used, ?_⟩
  dsimp only
  rw [kept.inode _ h.inside]
  exact (Nat.mod_le _ _).trans (covered h.onDisk h.written)

theorem echoGoes (h : Sturdy s) (data : Chars) : Goes s (echo fbSize s data) := echoBytesGoes h _ _

theorem echoAllGoes (h : Sturdy s) (texts : List Chars) : Goes s (echoAll fbSize texts s) := by
  induction texts generalizing s with
  | nil => exact h.goes
  | cons data rest ih => exact (echoGoes h data).bind fun s' sturdy _ => ih sturdy

theorem lsLoopGoes (h : Sturdy s) (nodes : List Nat) : Goes s (lsLoop fbSize nodes s) := by
  induction nodes generalizing s with
  | nil => exact h.goes
  | cons node nodes ih =>
    exact (echoGoes h _).bind fun s₁ sturdy₁ _ => (echoGoes sturdy₁ _).bind fun s₂ sturdy₂ _ => ih sturdy₂

theorem helpGoes (h : Sturdy s) : Goes s (help fbSize s) :=
  (echoGoes h _).bind fun _ sturdy₁ _ => (echoGoes sturdy₁ _).bind fun _ sturdy₂ _ => echoGoes sturdy₂ _

theorem catLoopGoes (small : fbSize < 2 ^ 32) {node readOffset : Nat} (rounds : Nat) (buffer : Buffer) (h : Sturdy s)
    (there : node < s.vfs.count) (low : (s.vfs.nodes node).fileSystem ≠ 0 → readOffset ≤ fbSize) :
    Goes s (catLoop fbSize node rounds readOffset buffer s) := by
  induction rounds generalizing s readOffset buffer with
  | zero => exact h.goes
  | succ rounds ih =>
    rw [catLoop]
    split
    · obtain ⟨buffer', bytes, got, inside⟩ := nodeReadReturns chunkSize buffer h.solid small low
      rw [got]
      refine (echoBytesGoes h bytes buffer').bind fun s' sturdy kept => ?_
      refine ih buffer' sturdy (Nat.lt_of_lt_of_le there kept.count) fun device => ?_
      rw [kept.fileSystem node there] at device
      exact (Nat.mod_le _ _).trans (inside device)
    · exact h.goes

end DimOS.Shell
