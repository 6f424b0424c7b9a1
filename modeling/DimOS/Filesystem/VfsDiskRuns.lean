import DimOS.Lib.Transition
import DimOS.Filesystem.VfsDiskUpdates

/-! Runs of the VFS over a disk that already holds directories. A cache without children
counts as not loaded, so a call that pushes into it, tests it or returns it goes wrong when the
directory has entries. Runs that do none of this agree with the disk in every answer. -/
namespace DimOS.Filesystem.Vfs.OnDisk
open Cpp.Containers
open Lib.Transition (run Visits Guarded)
open RamDisk (NodeType VfsNode DirEntry Buffer)

section runs
variable {σ : Type} {F : FileSystem σ}

inductive Op where
  | mkdir (path : Chars) (rest : Nat → BitVec 8)
  | mkfile (path : Chars) (rest : Nat → BitVec 8)
  | mnt (path : Chars) (fs inode : Nat)
  | rmdir (path : Chars)
  | rmfile (path : Chars)
  | read (path : Chars) (offset size : Nat) (buffer : Buffer)
  | write (path : Chars) (offset size : Nat) (buffer : Buffer)
  | readDir (path : Chars)
  | openNode (path : Chars)

structure World (σ : Type) where
  vfs : VFS σ
  mounts : List Mount

/- mnt returns a node when it has mounted, below the node that is the new node's parent. -/
def step (F : FileSystem σ) (w : World σ) : Op → Option (World σ)
  | .mkdir path rest => (mkdir F rest w.vfs path).toOption.map (fun r => { w with vfs := r.1 })
  | .mkfile path rest => (mkfile F rest w.vfs path).toOption.map (fun r => { w with vfs := r.1 })
  | .mnt path fs inode =>
    match mnt F w.vfs path fs inode with
    | .error _ => none
    | .ok (v, none) => some { w with vfs := v }
    | .ok (v, some n) => some ⟨v, w.mounts ++ (((v.nodes n).parent).map (fun p =>
        ⟨loc v p, (v.nodes n).name, (fs, inode)⟩)).toList⟩
  | .rmdir path => (rmdir F w.vfs path).toOption.map (fun v => { w with vfs := v })
  | .rmfile path => (rmfile F w.vfs path).toOption.map (fun v => { w with vfs := v })
  | .read path offset size buffer =>
    (read F w.vfs path offset size buffer).toOption.map (fun r => { w with vfs := r.1 })
  | .write path offset size buffer =>
    (write F w.vfs path offset size buffer).toOption.map (fun v => { w with vfs := v })
  | .readDir path => (readDir F w.vfs path).toOption.map (fun r => { w with vfs := r.1 })
  | .openNode path => (openNode F w.vfs path).toOption.map (fun r => { w with vfs := r.1 })

variable (D : Directories F)

/- Of a creation: the parent is a directory that is loaded or empty, it takes the entry, it has no child of the
name, and the name is on disk as it was given. -/
def CreateSound (v : VFS σ) (path : Chars) (rest : Nat → BitVec 8) : Prop :=
  ∀ parentPath name v' parent, cut path = some (parentPath, name) →
    resolvePath F v parentPath = .ok (v', some parent) →
    (v'.nodes parent).info.type = .DIRECTORY ∧ Loaded D v' parent ∧ D.Takes v'.disk (loc v' parent) ∧
      name ∉ childNames v' parent ∧
      ∀ inode, cString (fromStringName rest name inode).fileName = some name

/- Of a mount: the same of the parent, and the file system is in the tree nowhere yet. -/
def MountSound (v : VFS σ) (path : Chars) (fs inode : Nat) : Prop :=
  ∀ v' parentPath name v'' parent, openNode F v path = .ok (v', none) → cut path = some (parentPath, name) →
    resolvePath F v' parentPath = .ok (v'', some parent) →
    Loaded D v'' parent ∧ name ∉ childNames v'' parent ∧
      (∀ m, Linked v'' m → (v''.nodes m).fileSystem ≠ fs) ∧ D.kind v''.disk (fs, inode) ≠ .INVALID ∧
      ∀ i, ∀ e ∈ D.entries v''.disk (fs, i), e.2 ≠ inode

def NoMount (v : VFS σ) (n : Nat) : Prop :=
  ∀ p, n ∈ (v.nodes p).children → (v.nodes p).fileSystem = (v.nodes n).fileSystem

def Given (v : VFS σ) (n : Nat) : Prop :=
  ∀ p, (v.nodes n).parent = some p → D.Gives v.disk (loc v p) (v.nodes n).info.resource.inode

def Sound (w : World σ) : Op → Prop
  | .mkdir path rest => CreateSound D w.vfs path rest
  | .mkfile path rest => CreateSound D w.vfs path rest
  | .mnt path fs inode => MountSound D w.vfs path fs inode
  | .rmdir path => ∀ v' n, resolvePath F w.vfs path = .ok (v', some n) → (v'.nodes n).children = [] →
      (v'.nodes n).info.type = .DIRECTORY → Loaded D v' n ∧ NoMount v' n ∧ Given D v' n
  | .rmfile path => ∀ v' n, resolvePath F w.vfs path = .ok (v', some n) → (v'.nodes n).info.type = .FILE →
      (v'.nodes n).children = [] ∧ NoMount v' n ∧ Given D v' n
  | .read _ _ _ _ => True
  | .write path offset size _ => ∀ v' n, resolvePath F w.vfs path = .ok (v', some n) →
      (v'.nodes n).info.type ≠ .DIRECTORY ∧ D.Misses v'.disk (loc v' n) offset size
  | .readDir path => ∃ v' r, resolvePath F w.vfs path = .ok (v', r) ∧ ∀ n, r = some n → Loaded D v' n
  | .openNode path => ∃ out, openNode F w.vfs path = .ok out

/- What a call answers, against the disk and the mounts in the state before it. -/
def Answers (w : World σ) : Op → Prop
  | .readDir path => ∃ v' nodes, readDir F w.vfs path = .ok (v', nodes) ∧
      match locate D w.mounts w.vfs path with
      | none => nodes = []
      | some l =>
        ((nodes.filter (fun c => (v'.nodes c).fileSystem == l.1)).map
            (fun c => ((v'.nodes c).name, (v'.nodes c).info.resource.inode))).Perm (D.entries w.vfs.disk l) ∧
          ∀ name target, (∃ c ∈ nodes, (v'.nodes c).fileSystem ≠ l.1 ∧ (v'.nodes c).name = name ∧
              loc v' c = target) ↔ ⟨l, name, target⟩ ∈ w.mounts
  | .openNode path => ∃ v' r, openNode F w.vfs path = .ok (v', r) ∧
      (r.isSome ↔ (locate D w.mounts w.vfs path).isSome)
  | .rmdir path => ∀ v' l, rmdir F w.vfs path = .ok v' → locate D w.mounts w.vfs path = some l →
      D.entries w.vfs.disk l ≠ [] → v'.disk = w.vfs.disk
  | _ => True

variable {D}

theorem mkNodeAgree {mounts : List Mount} {v v' : VFS σ} {type : NodeType} {rest : Nat → BitVec 8} {path : Chars}
    {r : Option Nat} (h : Agree D mounts v) (valid : type ≠ .INVALID) (sound : CreateSound D v path rest)
    (ok : mkNode F type rest v path = .ok (v', r)) : Agree D mounts v' := by
  obtain ⟨parentPath, name, v₁, shape, ⟨found, rfl, -⟩ | ⟨parent, id, found, made, -⟩⟩ := mkNodeCases ok
  · exact (resolveAgree h found).1
  · obtain ⟨agree, -, -, linked⟩ := resolveAgree h found
    obtain ⟨dir, loaded, takes, new, exact'⟩ := sound parentPath name v₁ parent shape found
    exact createAgree agree (linked parent rfl) valid dir loaded takes new exact' made

theorem mntAgree {mounts : List Mount} {v v' : VFS σ} {path : Chars} {fs inode : Nat} {r : Option Nat}
    (h : Agree D mounts v) (sound : MountSound D v path fs inode) (ok : mnt F v path fs inode = .ok (v', r)) :
    (r = none ∧ Agree D mounts v') ∨ ∃ n p, r = some n ∧ (v'.nodes n).parent = some p ∧
      Agree D (mounts ++ [⟨loc v' p, (v'.nodes n).name, (fs, inode)⟩]) v' := by
  simp only [mnt] at ok
  split at ok
  · cases ok
  · next v₁ node found =>
    cases ok
    exact .inl ⟨rfl, (resolveAgree h found).1⟩
  · next v₁ missing =>
    have agree := (resolveAgree h missing).1
    obtain ⟨parentPath, name, v₂, shape, ⟨found, rfl, rfl⟩ | ⟨parent, found, rfl, rfl⟩⟩ := mntLockedCases ok
    · exact .inl ⟨rfl, (resolveAgree agree found).1⟩
    · obtain ⟨agree', -, -, linked⟩ := resolveAgree agree found
      obtain ⟨loaded, new, unused, valid, unaimed⟩ := sound v₁ parentPath name v₂ parent missing shape found
      have inside := agree'.inside (linked parent rfl)
      have node := VFS.addNodeNode v₂ name fs (F.populateVFSNode v₂.disk fs inode) inside
      refine .inr ⟨v₂.count, parent, rfl, by rw [node, if_pos rfl], ?_⟩
      have result := mountAgree agree' (linked parent rfl) loaded new unused valid unaimed
      have place : loc (v₂.addNode parent name fs (F.populateVFSNode v₂.disk fs inode)) parent = loc v₂ parent := by
        unfold loc
        rw [node, if_neg (Nat.ne_of_lt inside), if_pos rfl]
      rw [place, node, if_pos rfl]
      exact result

theorem rmdirAgree {mounts : List Mount} {v v' : VFS σ} {path : Chars} (h : Agree D mounts v)
    (sound : Sound D ⟨v, mounts⟩ (.rmdir path)) (ok : rmdir F v path = .ok v') : Agree D mounts v' := by
  unfold rmdir at ok
  split at ok
  · cases ok
  · cases ok
  · next v₁ n found =>
    obtain ⟨agree, -, -, linked⟩ := resolveAgree h found
    split at ok
    · cases ok; exact agree
    · next bare =>
      split at ok
      · cases ok; exact agree
      · next dir =>
        obtain ⟨-, noMount, given⟩ := sound v₁ n found (not_not.mp bare) (not_not.mp dir)
        exact removeAgree agree (linked n rfl) (not_not.mp bare) noMount given ok

theorem rmfileAgree {mounts : List Mount} {v v' : VFS σ} {path : Chars} (h : Agree D mounts v)
    (sound : Sound D ⟨v, mounts⟩ (.rmfile path)) (ok : rmfile F v path = .ok v') : Agree D mounts v' := by
  unfold rmfile at ok
  split at ok
  · cases ok
  · cases ok
  · next v₁ n found =>
    obtain ⟨agree, -, -, linked⟩ := resolveAgree h found
    split at ok
    · cases ok; exact agree
    · next file =>
      obtain ⟨bare, noMount, given⟩ := sound v₁ n found (not_not.mp file)
      exact removeAgree agree (linked n rfl) bare noMount given ok

theorem writeAgree {mounts : List Mount} {v v' : VFS σ} {path : Chars} {offset size : Nat} {buffer : Buffer}
    (h : Agree D mounts v) (sound : Sound D ⟨v, mounts⟩ (.write path offset size buffer))
    (ok : write F v path offset size buffer = .ok v') : Agree D mounts v' := by
  unfold write at ok
  split at ok
  · cases ok
  · next v₁ missing =>
    cases ok
    exact (resolveAgree h missing).1
  · next v₁ n found =>
    obtain ⟨agree, -, -, linked⟩ := resolveAgree h found
    split at ok
    · cases ok; exact agree
    · split at ok
      · cases ok
      · next disk resource count stored =>
        cases ok
        have noDir : D.kind v₁.disk ((v₁.nodes n).fileSystem, (v₁.nodes n).info.resource.inode) ≠ .DIRECTORY := by
          rw [show ((v₁.nodes n).fileSystem, (v₁.nodes n).info.resource.inode) = loc v₁ n from rfl,
            (agree.kind n (linked n rfl)).1]
          exact (sound v₁ n found).1
        obtain ⟨good, kind, entries, inode⟩ :=
          D.stores _ _ _ _ _ _ _ _ _ agree.good noDir (sound v₁ n found).2 stored
        refine agree.congr rfl (fun m => ?_) (fun m => ?_) (fun m => ?_) good kind entries
        · unfold view loc
          rw [VFS.setInfoName, VFS.setInfoFileSystem, VFS.setInfoInfo]
          split
          · next same => subst same; rw [inode]
          · rfl
        · rw [VFS.setInfoChildren]
        · rw [VFS.setInfoParent]

theorem lookupAgree {mounts : List Mount} {v v' : VFS σ} {path : Chars} {r : Option Nat} (h : Agree D mounts v)
    (ok : resolvePath F v path = .ok (v', r)) : Agree D mounts v' := (resolveAgree h ok).1

theorem stepAgree {w w' : World σ} {op : Op} (h : Agree D w.mounts w.vfs) (sound : Sound D w op)
    (ok : step F w op = some w') : Agree D w'.mounts w'.vfs := by
  cases op with
  | mkdir path rest =>
    obtain ⟨⟨v, r⟩, made, rfl⟩ := Names.returned ok
    exact mkNodeAgree h (by simp) sound made
  | mkfile path rest =>
    obtain ⟨⟨v, r⟩, made, rfl⟩ := Names.returned ok
    exact mkNodeAgree h (by simp) sound made
  | mnt path fs inode =>
    simp only [step] at ok
    split at ok
    · cases ok
    · next v mounted =>
      cases Option.some.inj ok
      rcases mntAgree h sound mounted with ⟨-, agree⟩ | ⟨n, p, some, -⟩
      · exact agree
      · cases some
    · next v n mounted =>
      cases Option.some.inj ok
      rcases mntAgree h sound mounted with ⟨none, -⟩ | ⟨n', p, some, up, agree⟩
      · cases none
      · cases Option.some.inj some
        simp only [up, Option.map_some, Option.toList_some]
        exact agree
  | rmdir path =>
    obtain ⟨v, removed, rfl⟩ := Names.returned ok
    exact rmdirAgree h sound removed
  | rmfile path =>
    obtain ⟨v, removed, rfl⟩ := Names.returned ok
    exact rmfileAgree h sound removed
  | read path offset size buffer =>
    obtain ⟨⟨v, b⟩, done, rfl⟩ := Names.returned ok
    unfold read at done
    split at done
    · cases done
    · next v₁ missing =>
      cases done
      exact lookupAgree h missing
    · next v₁ n found =>
      split at done
      · cases done
        exact lookupAgree h found
      · split at done
        · cases done
        · cases done
          exact lookupAgree h found
  | write path offset size buffer =>
    obtain ⟨v, done, rfl⟩ := Names.returned ok
    exact writeAgree h sound done
  | readDir path =>
    obtain ⟨⟨v, nodes⟩, done, rfl⟩ := Names.returned ok
    unfold readDir at done
    split at done
    · cases done
    · next v₁ missing =>
      cases done
      exact lookupAgree h missing
    · next v₁ n found =>
      cases done
      exact lookupAgree h found
  | openNode path =>
    obtain ⟨⟨v, r⟩, done, rfl⟩ := Names.returned ok
    exact lookupAgree h done

theorem startAgree {disk : σ} {fs inode : Nat} (rootName : Chars) (good : D.Good disk) (formed : WellFormed D disk)
    (valid : D.kind disk (fs, inode) ≠ .INVALID) (unaimed : ∀ i, ∀ e ∈ D.entries disk (fs, i), e.2 ≠ inode) :
    Agree D [] (construct F disk fs inode rootName) := by
  obtain ⟨type, number⟩ := D.populates disk fs inode good valid
  have place : ∀ n, loc (construct F disk fs inode rootName) n = (fs, inode) := by
    intro n
    unfold loc construct
    rw [number]
  have only : ∀ n, Linked (construct F disk fs inode rootName) n → n = root := by
    rintro n (isRoot | ⟨p, mem⟩)
    · exact isRoot
    · cases mem
  refine ⟨⟨⟨Nat.zero_lt_one, ?_, ?_⟩, ?_, rfl⟩, formed, ?_, ?_, ?_, ?_, ?_, ?_, good⟩
  · intro n child mem
    cases mem
  · intro n
    exact List.nodup_nil
  · intro n child mem
    cases mem
  · intro n _
    rw [place]
    exact ⟨type.symm, type ▸ valid⟩
  · intro n m linkedN linkedM _
    rw [only n linkedN, only m linkedM]
  · intro n _ some
    exact absurd rfl some
  · intro n _
    rfl
  · intro n _ i e mem
    show e.2 ≠ (F.populateVFSNode disk fs inode).resource.inode
    rw [number]
    exact unaimed i e mem
  · intro m mem
    cases mem

theorem agreeAnswers {w : World σ} {op : Op} (h : Agree D w.mounts w.vfs) (sound : Sound D w op) :
    Answers D w op := by
  cases op with
  | readDir path =>
    obtain ⟨v', r, found, loaded⟩ := sound
    obtain ⟨agree, grown, place, linked⟩ := resolveAgree h found
    cases r with
    | none =>
      refine ⟨v', [], by simp only [readDir, found], ?_⟩
      rw [← place]
      rfl
    | some n =>
      refine ⟨v', (v'.nodes n).children, by simp only [readDir, found], ?_⟩
      have linkedN := linked n rfl
      have complete := (loaded n rfl).complete agree linkedN
      rw [← place]
      simp only [Option.map_some]
      refine ⟨?_, fun name target => ⟨?_, ?_⟩⟩
      · rw [← grown.disk]
        exact complete.own
      · rintro ⟨c, mem, other, rfl, rfl⟩
        exact complete.mounted c mem other
      · intro mem
        obtain ⟨p, linkedP, same, c, isChild, other, named, target'⟩ := agree.mounts _ mem
        cases agree.inj p n linkedP linkedN same
        exact ⟨c, isChild, other, named, target'⟩
  | openNode path =>
    obtain ⟨⟨v', r⟩, found⟩ := sound
    obtain ⟨-, -, place, -⟩ := resolveAgree h found
    refine ⟨v', r, found, ?_⟩
    rw [← place, Option.isSome_map]
  | rmdir path =>
    intro v' l removed at' some
    unfold rmdir at removed
    split at removed
    · cases removed
    · cases removed
    · next v₁ n found =>
      obtain ⟨agree, grown, place, linked⟩ := resolveAgree h found
      rw [at'] at place
      have here : loc v₁ n = l := Option.some.inj place
      split at removed
      · cases removed; exact grown.disk
      · next bare =>
        split at removed
        · cases removed; exact grown.disk
        · next dir =>
          have loaded := (sound v₁ n found (not_not.mp bare) (not_not.mp dir)).1
          have none := loaded (not_not.mp bare)
          rw [here, grown.disk] at none
          exact absurd none some
  | _ => exact trivial

/- A run over a disk with directories on it answers as the disk does, in every state, as
long as no call pushes into, returns or removes a cache that stands empty before a directory
with entries, and the other calls keep names and mounts apart. -/
theorem runAnswers (D : Directories F) (disk : σ) (fs inode : Nat) (rootName : Chars) (good : D.Good disk)
    (formed : WellFormed D disk) (valid : D.kind disk (fs, inode) ≠ .INVALID)
    (unaimed : ∀ i, ∀ e ∈ D.entries disk (fs, i), e.2 ≠ inode) (ops : List Op) (w : World σ) (op : Op)
    (sound : Guarded (step F) (Sound D) ⟨construct F disk fs inode rootName, []⟩ (ops ++ [op]))
    (ran : run (step F) ⟨construct F disk fs inode rootName, []⟩ ops = some w) : Answers D w op := by
  have agree := Lib.Transition.invariantRun (fun w : World σ => Agree D w.mounts w.vfs)
    (fun w op w' h sound ok => stepAgree h sound ok) (startAgree rootName good formed valid unaimed)
    (Lib.Transition.guardedTake sound) ran
  exact agreeAnswers agree (sound ops op [] w rfl ran)

end runs

end DimOS.Filesystem.Vfs.OnDisk
