import Mathlib
import DimOS.Shell.InputSafety

/-! No command takes a node of the tree away, and a new one stands behind its siblings. So a path that leads
to a node leads to it ever after, and /dev/fb to the framebuffer from its mount on. -/
namespace DimOS.Shell
open Cpp.Containers
open Filesystem.Vfs
open Filesystem.Vfs.Open (nodeAt nodeAtSpec)
open Filesystem.Vfs.Files (Hung toOptionOk nodeAtLinked resolveStays)
open Filesystem.RamDisk (Disk Buffer NodeType VfsNode)
open Lib.PathTree (walk)

variable {fbSize : Nat} {v v' : VFS (Disk × Buffer)}

structure Grows (v v' : VFS (Disk × Buffer)) : Prop where
  name : ∀ n, n < v.count → (v'.nodes n).name = (v.nodes n).name
  children : ∀ n, n < v.count → (v.nodes n).children <+: (v'.nodes n).children

theorem Grows.keepsWalk (grows : Grows v v') (hung : Hung v) {curr n : Nat} {names : List Chars} (inside : curr < v.count)
    (found : walk (findChild v) curr names = some n) : walk (findChild v') curr names = some n := by
  induction names generalizing curr with
  | nil => exact found
  | cons name rest ih =>
    obtain ⟨child, first, found⟩ := Option.bind_eq_some_iff.mp found
    have below : child < v.count := hung.inside curr child (Open.findChildSpec first).1
    have same : findChild v' curr name = some child := by
      obtain ⟨more, shape⟩ := grows.children curr inside
      have names : (v.nodes curr).children.find? (fun child => (v'.nodes child).name == name) = some child := by
        rw [← first]
        refine List.find?_congr fun c mem => ?_
        rw [grows.name c (hung.inside curr c mem)]
      rw [findChild, ← shape, List.find?_append, names, Option.some_or]
    rw [Lib.PathTree.walk, same]
    exact ih below found

theorem Grows.keepsNode (grows : Grows v v') (hung : Hung v) {comps : List Chars} {n : Nat} (found : nodeAt v comps = some n) :
    nodeAt v' comps = some n := by
  cases comps with
  | nil => cases found
  | cons first rest =>
    simp only [nodeAt] at found ⊢
    rw [grows.name root hung.begun]
    split at found
    · cases found
    · next own =>
      rw [if_neg own]
      exact grows.keepsWalk hung hung.begun found

structure Hangs (v v' : VFS (Disk × Buffer)) (parent : Nat) (name : Chars) (fs : Nat) : Prop where
  count : v'.count = v.count + 1
  names : ∀ n, (v'.nodes n).name = if n = v.count then name else (v.nodes n).name
  children : ∀ n, (v'.nodes n).children =
    if n = v.count then [] else if n = parent then (v.nodes parent).children ++ [v.count] else (v.nodes n).children
  device : (v'.nodes v.count).fileSystem = fs

theorem addNodeHangs {parent : Nat} {name : Chars} {fs : Nat} (disk : Disk × Buffer) (info : VfsNode)
    (inside : parent < v.count) : Hangs v ({ v with disk := disk }.addNode parent name fs info) parent name fs := by
  have node := VFS.addNodeNode { v with disk := disk } name fs info inside
  refine ⟨rfl, fun n => ?_, fun n => ?_, by rw [node, if_pos rfl]⟩
  · rw [node]
    split
    · rfl
    · split
      · next same => rw [same]
      · rfl
  · rw [node]
    split
    · rfl
    · split
      · rfl
      · rfl

theorem createInHangs {type : NodeType} {rest : Nat → BitVec 8} {parent id : Nat} {name : Chars}
    (inside : parent < v.count) (ok : createIn (kernelFs fbSize) type rest v parent name = .ok (v', id)) :
    Hangs v v' parent name (v.nodes parent).fileSystem := by
  obtain ⟨-, disk, info, mid, disk', info', -, shape, -, rfl⟩ := createInCases ok
  have hangs := @addNodeHangs v parent name (v.nodes parent).fileSystem disk info inside
  rw [← shape] at hangs
  refine ⟨hangs.count, fun n => ?_, fun n => ?_, ?_⟩
  · rw [VFS.setInfoName]
    exact hangs.names n
  · rw [VFS.setInfoChildren]
    exact hangs.children n
  · rw [VFS.setInfoFileSystem]
    exact hangs.device

theorem Hangs.grows {parent : Nat} {name : Chars} {fs : Nat} (hangs : Hangs v v' parent name fs) : Grows v v' := by
  refine ⟨fun n inside => ?_, fun n inside => ?_⟩
  · rw [hangs.names, if_neg (Nat.ne_of_lt inside)]
  · rw [hangs.children, if_neg (Nat.ne_of_lt inside)]
    split
    · next same =>
      rw [same]
      exact List.prefix_append _ _
    · exact List.prefix_refl _

theorem Grows.refl (v : VFS (Disk × Buffer)) : Grows v v := ⟨fun _ _ => rfl, fun _ _ => List.prefix_refl _⟩

theorem setInfoGrows (disk : Disk × Buffer) (node : Nat) (info : VfsNode) :
    Grows v ({ v with disk := disk }.setInfo node info) := by
  refine ⟨fun n _ => VFS.setInfoName _ _ _ _, fun n _ => ?_⟩
  rw [VFS.setInfoChildren]

theorem mkNodeGrows {type : NodeType} {rest : Nat → BitVec 8} {path : Chars} {r : Option Nat} (hung : Hung v)
    (ok : mkNode (kernelFs fbSize) type rest v path = .ok (v', r)) : Grows v v' := by
  obtain ⟨parentPath, name, v₁, -, ⟨missing, rfl, -⟩ | ⟨parent, id, found, made, -⟩⟩ := mkNodeCases ok
  · obtain ⟨rfl, -⟩ := resolveStays missing
    exact .refl _
  · obtain ⟨rfl, at'⟩ := resolveStays found
    exact (createInHangs (hung.linked (nodeAtLinked at'.symm)) made).grows

def screenPath : Chars := text "/dev/fb"

def Screen (v : VFS (Disk × Buffer)) : Prop :=
  ∃ n, nodeAt v (split screenPath slash) = some n ∧ (v.nodes n).fileSystem ≠ 0

theorem Screen.keeps (h : Screen v) (hung : Hung v) (grows : Grows v v')
    (fileSystem : ∀ n, n < v.count → (v'.nodes n).fileSystem = (v.nodes n).fileSystem) : Screen v' := by
  obtain ⟨n, found, device⟩ := h
  refine ⟨n, grows.keepsNode hung found, ?_⟩
  rw [fileSystem n (hung.linked (nodeAtLinked found))]
  exact device

theorem Screen.makes {type : NodeType} {rest : Nat → BitVec 8} {path parentPath name : Chars} {r : Option Nat}
    (h : Screen v) (starting : Starting v) (valid : type ≠ .INVALID) (shape : cut path = some (parentPath, name))
    (other : (split parentPath slash).getLast? ≠ some (text "fb"))
    (ok : mkNode (kernelFs fbSize) type rest v path = .ok (v', r)) : Screen v' :=
  h.keeps starting.solid.hung (mkNodeGrows starting.solid.hung ok) (starting.create valid shape other ok).2.1.fileSystem

structure TwoDirectories (v : VFS (Disk × Buffer)) : Prop where
  count : v.count = 3
  top : (v.nodes root).name = [] ∧ (v.nodes root).children = [1, 2]
  proc : (v.nodes 1).name = text "proc"
  dev : (v.nodes 2).name = text "dev" ∧ (v.nodes 2).children = []

theorem TwoDirectories.walks (h : TwoDirectories v) : walk (findChild v) root [text "dev"] = some 2 := by
  have seen : findChild v root (text "dev") = some 2 := by
    rw [findChild, h.top.2, List.find?_cons, List.find?_cons, h.proc, h.dev.1]
    rfl
  rw [walk, seen]
  rfl

theorem TwoDirectories.found (h : TwoDirectories v) : nodeAt v (split (text "/dev/") slash) = some 2 := by
  have comps : split (text "/dev/") slash = [[], text "dev"] := by decide
  rw [comps, nodeAt, h.top.1, if_neg (by simp), h.walks]

theorem TwoDirectories.missing (h : TwoDirectories v) : nodeAt v (split screenPath slash) = none := by
  have comps : split screenPath slash = [[], text "dev", text "fb"] := by decide
  rw [comps, nodeAt, h.top.1, if_neg (by simp)]
  show walk _ root ([text "dev"] ++ [text "fb"]) = none
  rw [Lib.PathTree.walkSnoc, h.walks, Option.bind_some, findChild, h.dev.2]
  rfl

theorem TwoDirectories.mounts (h : TwoDirectories v) (hung : Hung v) {r : Option Nat}
    (fb : mnt (kernelFs fbSize) v screenPath 1 0 = .ok (v', r)) : Screen v' := by
  unfold mnt openNode at fb
  split at fb
  · cases fb
  · next v₁ n found =>
    obtain ⟨rfl, at'⟩ := resolveStays found
    cases at'.trans h.missing
  · next v₁ found =>
    obtain ⟨rfl, -⟩ := resolveStays found
    have cutScreen : cut screenPath = some (text "/dev/", text "fb") := by decide
    obtain ⟨parentPath, name, v₂, shape, ⟨missing, rfl, -⟩ | ⟨parent, found', rfl, -⟩⟩ := mntLockedCases fb
    · cases shape.symm.trans cutScreen
      cases (resolveStays missing).2.trans h.found
    · cases shape.symm.trans cutScreen
      obtain ⟨rfl, at'⟩ := resolveStays found'
      obtain rfl : parent = 2 := Option.some.inj (at'.trans h.found)
      generalize (kernelFs fbSize).populateVFSNode v₂.disk 1 0 = info
      have count := h.count
      have hangs := @addNodeHangs v₂ 2 (text "fb") 1 v₂.disk info (by omega)
      have device := hangs.device
      have fresh : findChild (v₂.addNode 2 (text "fb") 1 info) 2 (text "fb") = some 3 := by
        rw [findChild, hangs.children, count, h.dev.2]
        simp [hangs.names, count]
      have way := hangs.grows.keepsWalk hung hung.begun h.walks
      have comps : split screenPath slash = [[], text "dev", text "fb"] := by decide
      refine ⟨3, ?_, by rw [← count, device]; decide⟩
      rw [comps, nodeAt, hangs.grows.name root hung.begun, h.top.1, if_neg (by simp)]
      show walk _ root ([text "dev"] ++ [text "fb"]) = some 3
      rw [Lib.PathTree.walkSnoc, way, Option.bind_some, fresh]

theorem bootScreen {d : Disk} {rest rest' : Nat → BitVec 8} {v₁ v₂ v₃ : VFS (Disk × Buffer)} {r r' r'' : Option Nat}
    (started : Starting (globalVFS fbSize d))
    (proc : Filesystem.Vfs.mkdir (kernelFs fbSize) rest (globalVFS fbSize d) (text "/proc") = .ok (v₁, r))
    (dev : Filesystem.Vfs.mkdir (kernelFs fbSize) rest' v₁ (text "/dev") = .ok (v₂, r'))
    (fb : mnt (kernelFs fbSize) v₂ screenPath 1 0 = .ok (v₃, r'')) : (∃ id, r = some id) ∧ Screen v₃ := by
  have cutProc : cut (text "/proc") = some (text "/", text "proc") := by decide
  have cutDev : cut (text "/dev") = some (text "/", text "dev") := by decide
  have comps : split (text "/") slash = [[]] := by decide
  obtain ⟨parentPath, name, v', shape, ⟨missing, -, -⟩ | ⟨parent, id, found, made, rfl⟩⟩ := mkNodeCases proc
  · cases shape.symm.trans cutProc
    have nowhere : none = some root := (resolveStays missing).2
    cases nowhere
  · cases shape.symm.trans cutProc
    obtain ⟨rfl, at'⟩ := resolveStays found
    obtain rfl : parent = root := Option.some.inj at'
    have first := createInHangs started.solid.hung.begun made
    have solid := (started.create (by decide) (by rfl) (by decide) proc).1
    have one : v₁.count = 2 := first.count
    have named : (v₁.nodes root).name = [] := first.names root
    have top : nodeAt v₁ (split (text "/") slash) = some root := by
      rw [comps, nodeAt, named]
      rfl
    obtain ⟨parentPath, name, v'', shape, ⟨missing, -, -⟩ | ⟨parent, id', found, made', rfl⟩⟩ := mkNodeCases dev
    · cases shape.symm.trans cutDev
      obtain ⟨rfl, nowhere⟩ := resolveStays missing
      cases nowhere.trans top
    · cases shape.symm.trans cutDev
      obtain ⟨rfl, at'⟩ := resolveStays found
      obtain rfl : parent = root := Option.some.inj (at'.trans top)
      have second := createInHangs solid.solid.hung.begun made'
      have solid' := (solid.create (by decide) (by rfl) (by decide) dev).1
      have two : TwoDirectories v₂ := by
        refine ⟨by rw [second.count, one], ⟨?_, ?_⟩, ?_, ?_, ?_⟩
        · rw [second.names, one]
          exact named
        · rw [second.children, one, first.children]
          rfl
        · rw [second.names, one]
          exact first.names 1
        · rw [second.names, one]
          rfl
        · rw [second.children, one]
          rfl
      exact ⟨⟨id, rfl⟩, two.mounts solid'.solid.hung fb⟩

end DimOS.Shell
