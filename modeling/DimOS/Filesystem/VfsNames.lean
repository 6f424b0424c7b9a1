import DimOS.Lib.Transition
import DimOS.Filesystem.VfsTree

/-! Sibling names over runs of several threads. The mutex makes each call one step, but mnt
takes it twice: the check for an existing node and the insertion are two steps, with any
calls of other threads between them. -/
namespace DimOS.Filesystem.Vfs.Names
open Cpp.Containers
open RamDisk (VfsNode DirEntry)
open Lib.Transition (run Visits Guarded)

section
variable {σ : Type}

structure Mount where
  path : Chars
  fs : Nat
  inode : Int

/- `mounting` are the calls of mnt that have found no node and have not taken the lock again. -/
structure World (σ : Type) where
  vfs : VFS σ
  mounting : List Mount

inductive Call where
  | mkdir (path : Chars) (rest : Nat → BitVec 8)
  | mkfile (path : Chars) (rest : Nat → BitVec 8)
  | rmdir (path : Chars)
  | rmfile (path : Chars)
  | mntCheck (mount : Mount)
  | mntInsert (caller : Nat)

def World.with (w : World σ) (v : VFS σ) : World σ := { w with vfs := v }

def step (F : FileSystem σ) (w : World σ) : Call → Option (World σ)
  | .mkdir path rest => (mkdir F rest w.vfs path).toOption.map (fun r => w.with r.1)
  | .mkfile path rest => (mkfile F rest w.vfs path).toOption.map (fun r => w.with r.1)
  | .rmdir path => (rmdir F w.vfs path).toOption.map w.with
  | .rmfile path => (rmfile F w.vfs path).toOption.map w.with
  | .mntCheck mount =>
    match openNode F w.vfs mount.path with
    | .error _ => none
    | .ok (v, some _) => some (w.with v)
    | .ok (v, none) => some ⟨v, w.mounting ++ [mount]⟩
  | .mntInsert caller =>
    match w.mounting[caller]? with
    | none => none
    | some mount => (mntLocked F w.vfs mount.path mount.fs mount.inode).toOption.map
        (fun r => ⟨r.1, w.mounting.eraseIdx caller⟩)

def start (F : FileSystem σ) (disk : σ) (fs : Nat) (inode : Int) (name : Chars) : World σ :=
  ⟨construct F disk fs inode name, []⟩

/- The nodes a list of names leads to, over every child of that name and not only the first. -/
def Designates (v : VFS σ) : Nat → List Chars → Nat → Prop
  | curr, [], n => n = curr
  | curr, name :: rest, n =>
    ∃ child ∈ (v.nodes curr).children, (v.nodes child).name = name ∧ Designates v child rest n

structure Unique (v : VFS σ) : Prop where
  siblings : ∀ n, (childNames v n).Nodup
  paths : ∀ curr names a b, Designates v curr names a → Designates v curr names b → a = b

section
variable (F : FileSystem σ)

/- No directory that the lookup lists for the first time holds a name twice. -/
def ListsOnce : List Chars → VFS σ → Nat → Prop
  | [], _, _ => True
  | name :: rest, v, curr =>
    ((v.nodes curr).children = [] → ∀ entries,
      F.readDir v.disk (v.nodes curr).fileSystem (v.nodes curr).info = some entries →
      (entries.map (fun e => cString e.fileName)).Nodup) ∧
    ∀ v' child, loadChildren F v curr = .ok v' → findChild v' curr name = some child →
      ListsOnce rest v' child

def LookupOnce (v : VFS σ) (path : Chars) : Prop := ListsOnce F (split path slash).tail v root

/- The parent has no child of the name yet when the new node is pushed. -/
def NameFree (v : VFS σ) (path : Chars) : Prop :=
  ∀ parentPath name v' parent, cut path = some (parentPath, name) →
    resolvePath F v parentPath = .ok (v', some parent) → name ∉ childNames v' parent

def ParentOnce (v : VFS σ) (path : Chars) : Prop :=
  ∀ parentPath name, cut path = some (parentPath, name) → LookupOnce F v parentPath

def Fresh (w : World σ) : Call → Prop
  | .mkdir path _ => ParentOnce F w.vfs path ∧ NameFree F w.vfs path
  | .mkfile path _ => ParentOnce F w.vfs path ∧ NameFree F w.vfs path
  | .rmdir path => LookupOnce F w.vfs path
  | .rmfile path => LookupOnce F w.vfs path
  | .mntCheck mount => LookupOnce F w.vfs mount.path
  | .mntInsert caller => ∀ mount, w.mounting[caller]? = some mount →
      ParentOnce F w.vfs mount.path ∧ NameFree F w.vfs mount.path

end

theorem designatesOnce {v : VFS σ} (siblings : ∀ n, (childNames v n).Nodup) {curr : Nat}
    {names : List Chars} {a b : Nat} (toA : Designates v curr names a) (toB : Designates v curr names b) :
    a = b := by
  induction names generalizing curr with
  | nil => exact toA.trans toB.symm
  | cons name rest ih =>
    obtain ⟨x, memX, nameX, toA⟩ := toA
    obtain ⟨y, memY, nameY, toB⟩ := toB
    have same : x = y :=
      List.inj_on_of_nodup_map (siblings curr) memX memY (nameX.trans nameY.symm)
    subst same
    exact ih toA toB

theorem apartUnique {v : VFS σ} (h : Apart v) : Unique v :=
  ⟨h.siblings, fun _ _ _ _ toA toB => designatesOnce h.siblings toA toB⟩

end

section
variable {σ : Type} {F : FileSystem σ}

theorem addEntriesApart {parent : Nat} {entries : List DirEntry} {v v' : VFS σ} (h : Apart v)
    (inside : parent < v.count)
    (distinct : ((childNames v parent).map some ++ entries.map (fun e => cString e.fileName)).Nodup)
    (ok : addEntries F parent entries v = .ok v') : Apart v' ∧ v.count ≤ v'.count := by
  induction entries generalizing v with
  | nil => cases ok; exact ⟨h, Nat.le_refl _⟩
  | cons entry entries ih =>
    simp only [addEntries] at ok
    split at ok
    · cases ok
    · next name read =>
      rw [List.map_cons, read] at distinct
      have new : name ∉ childNames v parent := by
        intro mem
        exact List.disjoint_of_nodup_append distinct (List.mem_map_of_mem mem) List.mem_cons_self
      obtain ⟨kept, names⟩ := h.addNode (v.nodes parent).fileSystem
        (F.populateVFSNode v.disk (v.nodes parent).fileSystem entry.inode) inside new
      have next := ih kept (Nat.lt_succ_of_lt inside) (by
        rw [names]
        simpa using distinct) ok
      exact ⟨next.1, Nat.le_of_succ_le next.2⟩

theorem loadApart {v v' : VFS σ} {curr : Nat} (h : Apart v) (inside : curr < v.count)
    (once : (v.nodes curr).children = [] → ∀ entries,
      F.readDir v.disk (v.nodes curr).fileSystem (v.nodes curr).info = some entries →
      (entries.map (fun e => cString e.fileName)).Nodup)
    (ok : loadChildren F v curr = .ok v') : Apart v' ∧ v.count ≤ v'.count := by
  unfold loadChildren at ok
  split at ok
  · next empty =>
    unfold addChildren at ok
    split at ok
    · cases ok
    · next entries listed =>
      refine addEntriesApart h inside ?_ ok
      simpa [childNames, empty] using once empty entries listed
  · cases ok
    exact ⟨h, Nat.le_refl _⟩

theorem resolveUtilApart {names : List Chars} {v v' : VFS σ} {curr : Nat} {r : Option Nat} (h : Apart v)
    (inside : curr < v.count) (once : ListsOnce F names v curr)
    (ok : resolvePathUtil F names v curr = .ok (v', r)) : Apart v' ∧ ∀ n, r = some n → n < v'.count := by
  induction names generalizing v curr with
  | nil =>
    cases ok
    exact ⟨h, fun n found => Option.some.inj found ▸ inside⟩
  | cons name rest ih =>
    simp only [resolvePathUtil] at ok
    split at ok
    · cases ok
    · next v₁ loaded =>
      obtain ⟨kept, -⟩ := loadApart h inside once.1 loaded
      split at ok
      · cases ok
        exact ⟨kept, fun n found => by cases found⟩
      · next child found =>
        have isChild : child ∈ (v₁.nodes curr).children := List.mem_of_find?_eq_some found
        exact ih kept (kept.inside curr child isChild) (once.2 v₁ child loaded found) ok

theorem resolveApart {v v' : VFS σ} {path : Chars} {r : Option Nat} (h : Apart v)
    (once : LookupOnce F v path) (ok : resolvePath F v path = .ok (v', r)) :
    Apart v' ∧ ∀ n, r = some n → n < v'.count := by
  unfold resolvePath at ok
  unfold LookupOnce at once
  split at ok
  · cases ok
    exact ⟨h, fun n found => by cases found⟩
  · next first rest pieces =>
    rw [pieces] at once
    split at ok
    · cases ok
      exact ⟨h, fun n found => by cases found⟩
    · exact resolveUtilApart h h.begun once ok

theorem mkNodeApart {type : RamDisk.NodeType} {rest : Nat → BitVec 8} {v v' : VFS σ} {path : Chars}
    {r : Option Nat} (h : Apart v) (once : ParentOnce F v path) (free : NameFree F v path)
    (ok : mkNode F type rest v path = .ok (v', r)) : Apart v' := by
  obtain ⟨parentPath, name, v₁, shape, ⟨found, rfl, -⟩ | ⟨parent, id, found, made, -⟩⟩ := mkNodeCases ok
  · exact (resolveApart h (once parentPath name shape) found).1
  · obtain ⟨kept, inside⟩ := resolveApart h (once parentPath name shape) found
    obtain ⟨-, disk, info, mid, disk', info', -, rfl, -, rfl⟩ := createInCases made
    have onDisk : Apart { v₁ with disk := disk } := ⟨kept.begun, kept.inside, kept.siblings⟩
    have added := (onDisk.addNode (v₁.nodes parent).fileSystem info (inside parent rfl)
      (free parentPath name v₁ parent shape found)).1
    refine added.prune rfl (fun n => ?_) (fun n => ?_)
    · exact VFS.setInfoName _ parent info' n
    · rw [VFS.setInfoChildren]

theorem mntLockedApart {v v' : VFS σ} {path : Chars} {fs : Nat} {inode : Int} {r : Option Nat}
    (h : Apart v) (once : ParentOnce F v path) (free : NameFree F v path)
    (ok : mntLocked F v path fs inode = .ok (v', r)) : Apart v' := by
  obtain ⟨parentPath, name, v₁, shape, ⟨found, rfl, -⟩ | ⟨parent, found, rfl, -⟩⟩ := mntLockedCases ok
  · exact (resolveApart h (once parentPath name shape) found).1
  · obtain ⟨kept, inside⟩ := resolveApart h (once parentPath name shape) found
    exact (kept.addNode fs _ (inside parent rfl) (free parentPath name v₁ parent shape found)).1

theorem removeNodeApart {v v' : VFS σ} {node : Nat} (h : Apart v) (ok : removeNode F v node = .ok v') :
    Apart v' := by
  obtain ⟨parent, disk, disk', -, -, -, rfl⟩ := removeNodeCases ok
  refine h.prune rfl (fun n => ?_) (fun n => ?_)
  · exact VFS.setChildrenName _ parent _ n
  · rw [VFS.setChildrenNode]
    split
    · next same =>
      subst same
      exact ((fastEraseFind _ node).subperm).trans (List.erase_subperm node _)
    · exact List.Subperm.refl _

theorem rmdirApart {v v' : VFS σ} {path : Chars} (h : Apart v) (once : LookupOnce F v path)
    (ok : rmdir F v path = .ok v') : Apart v' := by
  unfold rmdir at ok
  split at ok
  · cases ok
  · cases ok
  · next v₁ node found =>
    have kept := (resolveApart h once found).1
    split at ok
    · cases ok; exact kept
    · split at ok
      · cases ok; exact kept
      · exact removeNodeApart kept ok

theorem rmfileApart {v v' : VFS σ} {path : Chars} (h : Apart v) (once : LookupOnce F v path)
    (ok : rmfile F v path = .ok v') : Apart v' := by
  unfold rmfile at ok
  split at ok
  · cases ok
  · cases ok
  · next v₁ node found =>
    have kept := (resolveApart h once found).1
    split at ok
    · cases ok; exact kept
    · exact removeNodeApart kept ok

theorem returned {α β : Type} {x : Except Fault α} {f : α → β} {b : β}
    (ok : x.toOption.map f = some b) : ∃ a, x = .ok a ∧ b = f a := by
  cases x with
  | error fault => cases ok
  | ok a => exact ⟨a, rfl, (Option.some.inj ok).symm⟩

theorem stepApart {w w' : World σ} {call : Call} (h : Apart w.vfs) (fresh : Fresh F w call)
    (ok : step F w call = some w') : Apart w'.vfs := by
  cases call with
  | mkdir path rest =>
    obtain ⟨⟨v, r⟩, made, rfl⟩ := returned ok
    exact mkNodeApart h fresh.1 fresh.2 made
  | mkfile path rest =>
    obtain ⟨⟨v, r⟩, made, rfl⟩ := returned ok
    exact mkNodeApart h fresh.1 fresh.2 made
  | rmdir path =>
    obtain ⟨v, removed, rfl⟩ := returned ok
    exact rmdirApart h fresh removed
  | rmfile path =>
    obtain ⟨v, removed, rfl⟩ := returned ok
    exact rmfileApart h fresh removed
  | mntCheck mount =>
    simp only [step, openNode] at ok
    split at ok
    · cases ok
    · next v n found =>
      cases Option.some.inj ok
      exact (resolveApart h fresh found).1
    · next v found =>
      cases Option.some.inj ok
      exact (resolveApart h fresh found).1
  | mntInsert caller =>
    simp only [step] at ok
    split at ok
    · cases ok
    · next mount asked =>
      obtain ⟨⟨v, r⟩, made, rfl⟩ := returned ok
      exact mntLockedApart h (fresh mount asked).1 (fresh mount asked).2 made

theorem startApart (disk : σ) (fs : Nat) (inode : Int) (name : Chars) :
    Apart (start F disk fs inode name).vfs := by
  refine ⟨Nat.zero_lt_one, ?_, ?_⟩
  · intro n child mem
    cases mem
  · intro n
    exact List.nodup_nil

/-- Siblings keep distinct names in every state of a run, whatever the threads do between the
two sections of a mnt, as long as each node is pushed to a parent without a child of its name
and no listing that a lookup caches repeats a name. -/
theorem siblingNamesUnique (F : FileSystem σ) (disk : σ) (fs : Nat) (inode : Int) (name : Chars)
    (calls : List Call) (mid : World σ)
    (fresh : Guarded (step F) (Fresh F) (start F disk fs inode name) calls)
    (visited : Visits (step F) (start F disk fs inode name) calls mid) : Unique mid.vfs := by
  have apart := Lib.Transition.invariantVisits (fun w : World σ => Apart w.vfs)
    (fun w call w' h fresh ok => stepApart h fresh ok) (startApart disk fs inode name) fresh visited
  exact apartUnique apart

end

section
open RamDisk (Disk createRoot)

def pathA : Chars := [slash, 0x61#8]

def mkdirA : Call := .mkdir pathA (fun _ => 0#8)

/- The parent is the root, which every lookup finds. -/
theorem freshAtRoot {v : VFS (Disk × RamDisk.Buffer)} {path name : Chars} (shape : cut path = some ([slash], name))
    (top : (v.nodes root).name = []) (new : name ∉ childNames v root) : ParentOnce (kernelFs 16) v path ∧ NameFree (kernelFs 16) v path := by
  constructor
  · intro parentPath name' shape'
    cases Option.some.inj (shape.symm.trans shape')
    exact trivial
  · intro parentPath name' v' parent shape' found
    cases Option.some.inj (shape.symm.trans shape')
    have atRoot : resolvePath (kernelFs 16) v [slash] = .ok (v, some root) := by
      have pieces : split [slash] slash = [[]] := by decide
      simp only [resolvePath, pieces, top, ne_eq, not_true_eq_false, if_false]
      rfl
    cases atRoot.symm.trans found
    exact new

def mkfileB : Call := .mkfile [slash, 0x62#8] (fun _ => 0#8)

/- mkfile("/b") comes between the two sections of a mnt at "/m". -/
def racedMount : List Call := [mkdirA, .mntCheck ⟨[slash, 0x6d#8], 1, 0⟩, mkfileB, .mntInsert 0]

theorem siblingNamesUniqueMkdir : ∃ d w, createRoot 4 8 = some d ∧
    run (step (kernelFs 16)) ⟨globalVFS 16 d, []⟩ racedMount = some w ∧ Unique w.vfs ∧
      childNames w.vfs root = [[0x61#8], [0x62#8], [0x6d#8]] := by
  have facts : ((createRoot 4 8).bind fun d => (step (kernelFs 16) ⟨globalVFS 16 d, []⟩ mkdirA).bind fun w₁ =>
      (step (kernelFs 16) w₁ (.mntCheck ⟨[slash, 0x6d#8], 1, 0⟩)).bind fun w₂ =>
        (step (kernelFs 16) w₂ mkfileB).bind fun w₃ => (step (kernelFs 16) w₃ (.mntInsert 0)).map fun w₄ =>
          ([childNames w₁.vfs root, childNames w₂.vfs root, childNames w₃.vfs root, childNames w₄.vfs root],
            [(w₂.vfs.nodes root).name, (w₃.vfs.nodes root).name], w₃.mounting.map Mount.path)) =
      some ([[[0x61#8]], [[0x61#8]], [[0x61#8], [0x62#8]], [[0x61#8], [0x62#8], [0x6d#8]]], [[], []], [[slash, 0x6d#8]]) := by
    decide +kernel
  obtain ⟨d, created, facts⟩ := Option.bind_eq_some_iff.mp facts
  obtain ⟨w₁, first, facts⟩ := Option.bind_eq_some_iff.mp facts
  obtain ⟨w₂, second, facts⟩ := Option.bind_eq_some_iff.mp facts
  obtain ⟨w₃, third, facts⟩ := Option.bind_eq_some_iff.mp facts
  obtain ⟨w₄, last, facts⟩ := Option.map_eq_some_iff.mp facts
  simp only [Prod.mk.injEq, List.cons.injEq, and_true] at facts
  obtain ⟨⟨names₁, names₂, names₃, names₄⟩, ⟨top₂, top₃⟩, mounting⟩ := facts
  have ran : run (step (kernelFs 16)) ⟨globalVFS 16 d, []⟩ racedMount = some w₄ := by
    simp only [racedMount, run, first, second, third, last, Option.bind_some]
  refine ⟨d, w₄, created, ran, siblingNamesUnique (kernelFs 16) (d, fun _ => 0#8) 0 0 [] racedMount w₄ ?_
    ⟨racedMount, [], rfl, ran⟩, names₄⟩
  refine Lib.Transition.guardedConsIff.mpr ⟨@freshAtRoot _ pathA [0x61#8] (by decide) rfl List.not_mem_nil, fun t ok => ?_⟩
  cases Option.some.inj (first.symm.trans ok)
  refine Lib.Transition.guardedConsIff.mpr ⟨⟨fun empty => ?_, fun _ _ _ _ => trivial⟩, fun t ok => ?_⟩
  · simp [childNames, empty] at names₁
  cases Option.some.inj (second.symm.trans ok)
  refine Lib.Transition.guardedConsIff.mpr ⟨@freshAtRoot _ [slash, 0x62#8] [0x62#8] (by decide) top₂ (by rw [names₂]; decide), fun t ok => ?_⟩
  cases Option.some.inj (third.symm.trans ok)
  refine Lib.Transition.guardedConsIff.mpr ⟨fun mount asked => ?_, fun t _ => Lib.Transition.guardedNil _ _ t⟩
  have path : mount.path = [slash, 0x6d#8] := by
    have mapped := congrArg (fun l : List Chars => l[0]?) mounting
    simp only [List.getElem?_map, asked, Option.map_some] at mapped
    exact Option.some.inj mapped
  rw [path]
  exact @freshAtRoot _ [slash, 0x6d#8] [0x6d#8] (by decide) top₃ (by rw [names₃]; decide)

theorem mkdirTwiceDuplicates : ∃ d w, createRoot 4 8 = some d ∧
    run (step (kernelFs 16)) ⟨globalVFS 16 d, []⟩ [mkdirA, mkdirA] = some w ∧ ¬ Unique w.vfs := by
  have names : ((createRoot 4 8).bind (fun d =>
      (run (step (kernelFs 16)) ⟨globalVFS 16 d, []⟩ [mkdirA, mkdirA]).map (fun w => childNames w.vfs root))) =
      some [[0x61#8], [0x61#8]] := by
    decide +kernel
  obtain ⟨d, created, ran⟩ := Option.bind_eq_some_iff.mp names
  obtain ⟨w, ran, twice⟩ := Option.map_eq_some_iff.mp ran
  refine ⟨d, w, created, ran, fun unique => ?_⟩
  have nodup := unique.siblings root
  rw [twice] at nodup
  simp at nodup

end

end DimOS.Filesystem.Vfs.Names
