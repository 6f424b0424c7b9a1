import DimOS.Filesystem.VfsOpen
import DimOS.Filesystem.VfsNames

/-! The VFS as a cache of what lies on disk. The file systems are known by the kind of each
inode and the live entries of each directory, and by what every call does to these; readDir
gives the live entries. A path is looked up on disk from entry to entry, and through the
mounts. -/
namespace DimOS.Filesystem.Vfs.OnDisk
open Cpp.Containers
open Lib.PathTree (walk)
open RamDisk (NodeType VfsNode DirEntry)
open Open (Tree findChildSpec)

abbrev Loc := Nat × Nat

/- What the calls do to kinds and entries where they do what they are for: a state that is good, a creation that
the directory takes, a removal that it gives, and a write that misses all directories. -/
structure Directories {σ : Type} (F : FileSystem σ) where
  kind : σ → Loc → NodeType
  entries : σ → Loc → List (Chars × Nat)
  Good : σ → Prop
  Takes : σ → Loc → Prop
  Gives : σ → Loc → Nat → Prop
  Misses : σ → Loc → Nat → Nat → Prop
  lists : ∀ s fs node, Good s → kind s (fs, node.resource.inode) = .DIRECTORY →
    ∃ es, F.readDir s fs node = some es ∧ es.map (fun e => (cString e.fileName, e.inode)) =
      (entries s (fs, node.resource.inode)).map (fun e => (some e.1, (e.2 : Int)))
  silent : ∀ s fs node es, Good s → kind s (fs, node.resource.inode) ≠ .DIRECTORY →
    F.readDir s fs node = some es → es = []
  populates : ∀ s fs (inode : Nat), Good s → kind s (fs, inode) ≠ .INVALID →
    (F.populateVFSNode s fs inode).type = kind s (fs, inode) ∧
      (F.populateVFSNode s fs inode).resource.inode = inode
  creates : ∀ s fs type s' info node (e : DirEntry) name s'' node', Good s → kind s (fs, node.resource.inode) = .DIRECTORY →
    Takes s (fs, node.resource.inode) → type ≠ .INVALID → F.create s fs type = some (s', info) →
    e.inode = (info.resource.inode : Int) → cString e.fileName = some name → F.writeDir s' fs node [e] = some (s'', node') →
    Good s'' ∧ kind s (fs, info.resource.inode) = .INVALID ∧ info.type = type ∧ node'.type = node.type ∧
    node'.resource.inode = node.resource.inode ∧
    kind s'' = Function.update (kind s) (fs, info.resource.inode) type ∧
    entries s'' = Function.update (Function.update (entries s) (fs, info.resource.inode) []) (fs, node.resource.inode)
      (entries s (fs, node.resource.inode) ++ [(name, info.resource.inode)])
  removes : ∀ s fs node s' up (e : DirEntry) s'', Good s → kind s (fs, up.resource.inode) = .DIRECTORY →
    up.resource.inode ≠ node.resource.inode → Gives s (fs, up.resource.inode) node.resource.inode →
    F.remove s fs node = some s' → e.inode = (node.resource.inode : Int) → F.removeDirEntry s' fs up e = some s'' →
    Good s'' ∧ kind s'' = Function.update (kind s) (fs, node.resource.inode) .INVALID ∧
    entries s'' = Function.update (Function.update (entries s) (fs, node.resource.inode) []) (fs, up.resource.inode)
      ((entries s (fs, up.resource.inode)).filter (fun x => (x.2 : Int) ≠ (node.resource.inode : Int)))
  stores : ∀ s fs resource offset size buffer s' resource' n, Good s → kind s (fs, resource.inode) ≠ .DIRECTORY →
    Misses s (fs, resource.inode) offset size → F.write s fs resource offset size buffer = some (s', resource', n) →
    Good s' ∧ kind s' = kind s ∧ entries s' = entries s ∧ resource'.inode = resource.inode

/- A mount point: the directory it stands in, its name, and the directory it shows. -/
structure Mount where
  place : Loc
  name : Chars
  target : Loc
  deriving DecidableEq

section
variable {σ : Type} {F : FileSystem σ} (D : Directories F)

/- The directories of each file system form a tree without dangling entries. -/
structure WellFormed (s : σ) : Prop where
  files : ∀ l, D.kind s l ≠ .DIRECTORY → D.entries s l = []
  names : ∀ l, ((D.entries s l).map Prod.fst).Nodup
  valid : ∀ fs i, ∀ e ∈ D.entries s (fs, i), D.kind s (fs, e.2) ≠ .INVALID
  once : ∀ fs i j, ∀ e ∈ D.entries s (fs, i), ∀ e' ∈ D.entries s (fs, j), e.2 = e'.2 → i = j ∧ e = e'

def hop (s : σ) (mounts : List Mount) (l : Loc) (name : Chars) : Option Loc :=
  match (D.entries s l).find? (fun e => e.1 == name) with
  | some e => some (l.1, e.2)
  | none => (mounts.find? (fun m => m.place == l && m.name == name)).map Mount.target

def loc (v : VFS σ) (n : Nat) : Loc := ((v.nodes n).fileSystem, (v.nodes n).info.resource.inode)

def Linked (v : VFS σ) (n : Nat) : Prop := n = root ∨ ∃ p, n ∈ (v.nodes p).children

/- The node shows a directory that is no entry of another: the root or a mount. -/
def Top (v : VFS σ) (n : Nat) : Prop :=
  n = root ∨ ∃ p, n ∈ (v.nodes p).children ∧ (v.nodes p).fileSystem ≠ (v.nodes n).fileSystem

def own (v : VFS σ) (n : Nat) : List (Chars × Nat) :=
  ((v.nodes n).children.filter (fun c => (v.nodes c).fileSystem == (v.nodes n).fileSystem)).map
    (fun c => ((v.nodes c).name, (v.nodes c).info.resource.inode))

/- The children of a node are the live entries of its directory, and mounts. -/
structure Complete (mounts : List Mount) (v : VFS σ) (n : Nat) : Prop where
  own : (own v n).Perm (D.entries v.disk (loc v n))
  mounted : ∀ c ∈ (v.nodes n).children, (v.nodes c).fileSystem ≠ (v.nodes n).fileSystem →
    ⟨loc v n, (v.nodes c).name, loc v c⟩ ∈ mounts

structure Agree (mounts : List Mount) (v : VFS σ) : Prop where
  tree : Tree v
  disk : WellFormed D v.disk
  kind : ∀ n, Linked v n → D.kind v.disk (loc v n) = (v.nodes n).info.type ∧ (v.nodes n).info.type ≠ .INVALID
  inj : ∀ n m, Linked v n → Linked v m → loc v n = loc v m → n = m
  cache : ∀ n, Linked v n → (v.nodes n).children ≠ [] → Complete D mounts v n
  dead : ∀ n, ¬ Linked v n → (v.nodes n).children = []
  top : ∀ n, Top v n → ∀ i, ∀ e ∈ D.entries v.disk ((v.nodes n).fileSystem, i),
    e.2 ≠ (v.nodes n).info.resource.inode
  mounts : ∀ m ∈ mounts, ∃ n, Linked v n ∧ loc v n = m.place ∧ ∃ c ∈ (v.nodes n).children,
    (v.nodes c).fileSystem ≠ (v.nodes n).fileSystem ∧ (v.nodes c).name = m.name ∧ loc v c = m.target
  good : D.Good v.disk

end

section
variable {σ : Type} {F : FileSystem σ} {D : Directories F} {mounts : List Mount} {v v' : VFS σ}

theorem Agree.child (h : Agree D mounts v) {n c : Nat} (mem : c ∈ (v.nodes n).children) :
    Linked v n ∧ Linked v c ∧ c < v.count := by
  refine ⟨?_, .inr ⟨n, mem⟩, h.tree.apart.inside n c mem⟩
  by_contra dead
  rw [h.dead n dead] at mem
  cases mem

theorem Agree.inside (h : Agree D mounts v) {n : Nat} (linked : Linked v n) : n < v.count := by
  rcases linked with rfl | ⟨p, mem⟩
  · exact h.tree.apart.begun
  · exact h.tree.apart.inside p n mem

theorem siblingsEq (h : Tree v) {n c c' : Nat} (mem : c ∈ (v.nodes n).children)
    (mem' : c' ∈ (v.nodes n).children) (same : (v.nodes c).name = (v.nodes c').name) : c = c' :=
  List.inj_on_of_nodup_map (h.apart.siblings n) mem mem' same

theorem ownMem {n : Nat} {e : Chars × Nat} : e ∈ own v n ↔ ∃ c ∈ (v.nodes n).children,
    (v.nodes c).fileSystem = (v.nodes n).fileSystem ∧ (v.nodes c).name = e.1 ∧
    (v.nodes c).info.resource.inode = e.2 := by
  unfold own
  rw [List.mem_map]
  constructor
  · rintro ⟨c, mem, rfl⟩
    obtain ⟨mem, same⟩ := List.mem_filter.mp mem
    exact ⟨c, mem, by simpa using same, rfl, rfl⟩
  · rintro ⟨c, mem, same, name, inode⟩
    exact ⟨c, List.mem_filter.mpr ⟨mem, by simpa using same⟩, by rw [name, inode]⟩

theorem hopComplete (h : Agree D mounts v) {n : Nat} (linked : Linked v n) (complete : Complete D mounts v n)
    (name : Chars) : hop D v.disk mounts (loc v n) name = (findChild v n name).map (loc v) := by
  have entry : ∀ e, e ∈ D.entries v.disk (loc v n) ↔ e ∈ own v n := fun e => (complete.own.mem_iff).symm
  have noMount : ∀ m ∈ mounts, m.place = loc v n → ∃ c ∈ (v.nodes n).children,
      (v.nodes c).name = m.name ∧ loc v c = m.target := by
    intro m mem place
    obtain ⟨n', linked', place', child⟩ := h.mounts m mem
    cases h.inj n' n linked' linked (place'.trans place)
    obtain ⟨c, isChild, -, rest⟩ := child
    exact ⟨c, isChild, rest⟩
  unfold hop
  cases found : findChild v n name with
  | none =>
    have missing : ∀ c ∈ (v.nodes n).children, (v.nodes c).name ≠ name := by
      intro c mem same
      exact List.find?_eq_none.mp found c mem (by simpa using same)
    have noEntry : (D.entries v.disk (loc v n)).find? (fun e => e.1 == name) = none := by
      apply List.find?_eq_none.mpr
      intro e mem same
      obtain ⟨c, isChild, -, named, -⟩ := ownMem.mp ((entry e).mp mem)
      exact missing c isChild (named.trans (by simpa using same))
    have none : mounts.find? (fun m => m.place == loc v n && m.name == name) = none := by
      apply List.find?_eq_none.mpr
      intro m mem same
      simp only [Bool.and_eq_true, beq_iff_eq] at same
      obtain ⟨c, isChild, named, -⟩ := noMount m mem same.1
      exact missing c isChild (named.trans same.2)
    rw [noEntry, none]
    rfl
  | some c =>
    obtain ⟨isChild, named⟩ := findChildSpec found
    by_cases same : (v.nodes c).fileSystem = (v.nodes n).fileSystem
    · have mem : (name, (v.nodes c).info.resource.inode) ∈ D.entries v.disk (loc v n) :=
        (entry _).mpr (ownMem.mpr ⟨c, isChild, same, named, rfl⟩)
      have some' : ((D.entries v.disk (loc v n)).find? (fun e => e.1 == name)).isSome :=
        List.find?_isSome.mpr ⟨_, mem, by simp⟩
      obtain ⟨e, first⟩ := Option.isSome_iff_exists.mp some'
      have equal : e = (name, (v.nodes c).info.resource.inode) :=
        List.inj_on_of_nodup_map (h.disk.names _) (List.mem_of_find?_eq_some first) mem
          (by simpa using List.find?_some first)
      rw [first, equal]
      simp [loc, same]
    · have noEntry : (D.entries v.disk (loc v n)).find? (fun e => e.1 == name) = none := by
        apply List.find?_eq_none.mpr
        intro e mem same'
        obtain ⟨c', isChild', fs', named', -⟩ := ownMem.mp ((entry e).mp mem)
        have equal := siblingsEq h.tree isChild' isChild
          (named'.trans ((by simpa using same' : e.1 = name).trans named.symm))
        exact same (equal ▸ fs')
      have mem := complete.mounted c isChild same
      have some' : (mounts.find? (fun m => m.place == loc v n && m.name == name)).isSome :=
        List.find?_isSome.mpr ⟨_, mem, by simp [named]⟩
      obtain ⟨m, first⟩ := Option.isSome_iff_exists.mp some'
      have spec := List.find?_some first
      simp only [Bool.and_eq_true, beq_iff_eq] at spec
      obtain ⟨c', isChild', named', target⟩ := noMount m (List.mem_of_find?_eq_some first) spec.1
      have equal := siblingsEq h.tree isChild' isChild (named'.trans (spec.2.trans named.symm))
      rw [noEntry, first]
      simp only [Option.map_some]
      rw [← target, equal]

/- The tree after addChildren has made a node for each entry of `l`. -/
structure Filled (F : FileSystem σ) (n : Nat) (l : List (Chars × Nat)) (v v' : VFS σ) : Prop where
  disk : v'.disk = v.disk
  count : v'.count = v.count + l.length
  here : v'.nodes n = { v.nodes n with
    children := (v.nodes n).children ++ List.range' v.count l.length }
  old : ∀ m, m ≠ n → m < v.count ∨ v.count + l.length ≤ m → v'.nodes m = v.nodes m
  new : ∀ k e, l[k]? = some e → v'.nodes (v.count + k) =
    ⟨e.1, (v.nodes n).fileSystem, F.populateVFSNode v.disk (v.nodes n).fileSystem (e.2 : Int), [], some n⟩

theorem addEntriesFilled {n : Nat} {es : List DirEntry} {l : List (Chars × Nat)} (inside : n < v.count)
    (names : es.map (fun e => (cString e.fileName, e.inode)) = l.map (fun e => (some e.1, (e.2 : Int)))) :
    ∃ v', addEntries F n es v = .ok v' ∧ Filled F n l v v' := by
  induction es generalizing v l with
  | nil =>
    have none : l = [] := by simpa using names.symm
    subst none
    exact ⟨v, rfl, rfl, rfl, by simp, fun _ _ _ => rfl, fun k e found => by simp at found⟩
  | cons entry es ih =>
    cases l with
    | nil => cases names
    | cons e l =>
      simp only [List.map_cons, List.cons.injEq, Prod.mk.injEq] at names
      obtain ⟨⟨name, inode⟩, names⟩ := names
      obtain ⟨v', ok, filled⟩ := ih (v := v.addNode n e.1 (v.nodes n).fileSystem
        (F.populateVFSNode v.disk (v.nodes n).fileSystem entry.inode)) (Nat.lt_succ_of_lt inside) names
      have node := VFS.addNodeNode v e.1 (v.nodes n).fileSystem
        (F.populateVFSNode v.disk (v.nodes n).fileSystem entry.inode) inside
      have atN := node n
      rw [if_neg (Nat.ne_of_lt inside), if_pos rfl] at atN
      refine ⟨v', by rw [addEntries, name]; exact ok, filled.disk, ?_, ?_, ?_, ?_⟩
      · rw [filled.count, VFS.addNodeCount, List.length_cons]
        omega
      · rw [filled.here, atN, VFS.addNodeCount, List.length_cons, List.range'_succ]
        simp
      · intro m other place
        rw [filled.old m other (by rw [VFS.addNodeCount]; simp only [List.length_cons] at place; omega), node,
          if_neg (by simp only [List.length_cons] at place; omega), if_neg other]
      · intro k x found
        cases k with
        | zero =>
          have equal : e = x := by simpa using found
          subst equal
          rw [Nat.add_zero, filled.old v.count (Nat.ne_of_gt inside) (.inl (Nat.lt_succ_self _)), node, if_pos rfl,
            inode]
        | succ k =>
          have later := filled.new k x (by simpa using found)
          rw [VFS.addNodeCount, atN, VFS.addNodeDisk] at later
          rw [← later]
          congr 1
          omega

def view (v : VFS σ) (n : Nat) : Chars × Loc × NodeType := ((v.nodes n).name, loc v n, (v.nodes n).info.type)

theorem viewName {n m : Nat} (same : view v' m = view v n) : (v'.nodes m).name = (v.nodes n).name :=
  congrArg Prod.fst same

theorem viewLoc {n m : Nat} (same : view v' m = view v n) : loc v' m = loc v n :=
  congrArg (fun x => x.2.1) same

theorem viewFs {n m : Nat} (same : view v' m = view v n) :
    (v'.nodes m).fileSystem = (v.nodes n).fileSystem := congrArg (fun x => x.2.1.1) same

theorem viewInode {n m : Nat} (same : view v' m = view v n) :
    (v'.nodes m).info.resource.inode = (v.nodes n).info.resource.inode := congrArg (fun x => x.2.1.2) same

theorem viewType {n m : Nat} (same : view v' m = view v n) : (v'.nodes m).info.type = (v.nodes n).info.type :=
  congrArg (fun x => x.2.2) same

theorem ownCongr {n : Nat} (children : (v'.nodes n).children = (v.nodes n).children) (self : view v' n = view v n)
    (kids : ∀ c ∈ (v.nodes n).children, view v' c = view v c) : own v' n = own v n := by
  unfold own
  rw [children, viewFs self]
  have filters : (v.nodes n).children.filter (fun c => (v'.nodes c).fileSystem == (v.nodes n).fileSystem) =
      (v.nodes n).children.filter (fun c => (v.nodes c).fileSystem == (v.nodes n).fileSystem) :=
    List.filter_congr (fun c mem => by rw [viewFs (kids c mem)])
  rw [filters]
  apply List.map_congr_left
  intro c mem
  have same := kids c (List.mem_filter.mp mem).1
  rw [viewName same, viewInode same]

theorem Complete.congr {mounts' : List Mount} {n : Nat} (complete : Complete D mounts v n)
    (children : (v'.nodes n).children = (v.nodes n).children) (self : view v' n = view v n)
    (kids : ∀ c ∈ (v.nodes n).children, view v' c = view v c)
    (entries : D.entries v'.disk (loc v n) = D.entries v.disk (loc v n)) (more : mounts ⊆ mounts') :
    Complete D mounts' v' n := by
  refine ⟨?_, ?_⟩
  · rw [ownCongr children self kids, viewLoc self, entries]
    exact complete.own
  · intro c mem other
    rw [children] at mem
    have same := kids c mem
    rw [viewFs same, viewFs self] at other
    rw [viewLoc self, viewName same, viewLoc same]
    exact more (complete.mounted c mem other)

theorem Filled.oldView {n : Nat} {l : List (Chars × Nat)} (filled : Filled F n l v v') {m : Nat}
    (old : m < v.count) : view v' m = view v m ∧ (v'.nodes m).parent = (v.nodes m).parent := by
  unfold view loc
  by_cases same : m = n
  · subst same
    rw [filled.here]
    exact ⟨rfl, rfl⟩
  · rw [filled.old m same (.inl old)]
    exact ⟨rfl, rfl⟩

theorem Filled.child {n : Nat} {l : List (Chars × Nat)} (filled : Filled F n l v v') (h : Agree D mounts v)
    (empty : (v.nodes n).children = []) {p m : Nat} :
    m ∈ (v'.nodes p).children ↔ m ∈ (v.nodes p).children ∨ (p = n ∧ ∃ k e, l[k]? = some e ∧ m = v.count + k) := by
  by_cases here : p = n
  · subst here
    rw [filled.here, empty, List.nil_append, List.mem_range'_1]
    constructor
    · rintro ⟨low, high⟩
      exact .inr ⟨rfl, m - v.count, l[m - v.count], List.getElem?_eq_getElem (by omega), by omega⟩
    · rintro (none | ⟨-, k, e, found, rfl⟩)
      · cases none
      · have := (List.getElem?_eq_some_iff.mp found).1
        omega
  · by_cases old : p < v.count ∨ v.count + l.length ≤ p
    · rw [filled.old p here old]
      simp [here]
    · have unlinked : ¬ Linked v p := fun linked => by
        have := h.inside linked
        omega
      have new := filled.new (p - v.count) l[p - v.count] (List.getElem?_eq_getElem (by omega))
      rw [show v.count + (p - v.count) = p by omega] at new
      rw [new, h.dead p unlinked]
      simp [here]

theorem rangeMap {α : Type} {l : List α} {start : Nat} {f : Nat → α}
    (each : ∀ k e, l[k]? = some e → f (start + k) = e) : (List.range' start l.length).map f = l := by
  apply List.ext_getElem (by simp)
  intro k low high
  rw [List.getElem_map, List.getElem_range', Nat.one_mul]
  exact each k l[k] (List.getElem?_eq_getElem high)

theorem loadAgree {n : Nat} {es : List DirEntry} (h : Agree D mounts v) (linked : Linked v n)
    (empty : (v.nodes n).children = []) (filled : Filled F n (D.entries v.disk (loc v n)) v v')
    (names : es.map (fun e => (cString e.fileName, e.inode)) =
      (D.entries v.disk (loc v n)).map (fun e => (some e.1, (e.2 : Int))))
    (ok : addEntries F n es v = .ok v') : Agree D mounts v' ∧ Complete D mounts v' n := by
  have inside := h.inside linked
  have apart := (Names.addEntriesApart h.tree.apart inside (by
    have strings : es.map (fun e => cString e.fileName) =
        ((D.entries v.disk (loc v n)).map Prod.fst).map some := by
      have first := congrArg (List.map Prod.fst) names
      rw [List.map_map, List.map_map] at first
      rw [List.map_map]
      exact first
    rw [strings]
    simp only [childNames, empty, List.map_nil, List.nil_append]
    exact (h.disk.names (loc v n)).map (Option.some_injective _)) ok).1
  have newNode : ∀ k e, (D.entries v.disk (loc v n))[k]? = some e →
      (v'.nodes (v.count + k)).name = e.1 ∧ loc v' (v.count + k) = ((v.nodes n).fileSystem, e.2) ∧
      (v'.nodes (v.count + k)).info.type = D.kind v.disk ((v.nodes n).fileSystem, e.2) ∧
      (v'.nodes (v.count + k)).parent = some n := by
    intro k e found
    have populated := D.populates v.disk (v.nodes n).fileSystem e.2 h.good
      (h.disk.valid _ _ e (List.mem_of_getElem? found))
    unfold loc
    rw [filled.new k e found]
    exact ⟨rfl, by rw [populated.2], populated.1, rfl⟩
  have linkedIff : ∀ m, Linked v' m ↔ Linked v m ∨ ∃ k e, (D.entries v.disk (loc v n))[k]? = some e ∧
      m = v.count + k := by
    intro m
    unfold Linked
    simp only [filled.child h empty]
    constructor
    · rintro (isRoot | ⟨p, mem | ⟨-, new⟩⟩)
      · exact .inl (.inl isRoot)
      · exact .inl (.inr ⟨p, mem⟩)
      · exact .inr new
    · rintro ((isRoot | ⟨p, mem⟩) | new)
      · exact .inl isRoot
      · exact .inr ⟨p, .inl mem⟩
      · exact .inr ⟨n, .inr ⟨rfl, new⟩⟩
  have selfView := (filled.oldView inside).1
  -- a new node shows an entry of the directory, which no node showed before
  have unseen : ∀ (k : Nat) (e : Chars × Nat) (m : Nat), (D.entries v.disk (loc v n))[k]? = some e → Linked v m →
      loc v m ≠ ((v.nodes n).fileSystem, e.2) := by
    intro k e m found linkedM same
    have mem := List.mem_of_getElem? found
    have sameFs : (v.nodes m).fileSystem = (v.nodes n).fileSystem := congrArg Prod.fst same
    have sameInode : (v.nodes m).info.resource.inode = e.2 := congrArg Prod.snd same
    by_cases isTop : Top v m
    · exact h.top m isTop (v.nodes n).info.resource.inode e (sameFs ▸ mem) sameInode.symm
    · rcases linkedM with isRoot | ⟨p, isChild⟩
      · exact isTop (.inl isRoot)
      · have parentFs : (v.nodes p).fileSystem = (v.nodes m).fileSystem := by
          by_contra other
          exact isTop (.inr ⟨p, isChild, other⟩)
        have parentLinked := (h.child isChild).1
        have complete := h.cache p parentLinked (List.ne_nil_of_mem isChild)
        have entry : ((v.nodes m).name, (v.nodes m).info.resource.inode) ∈ D.entries v.disk (loc v p) :=
          complete.own.mem_iff.mp (ownMem.mpr ⟨m, isChild, parentFs.symm, rfl, rfl⟩)
        have place : loc v p = ((v.nodes n).fileSystem, (v.nodes p).info.resource.inode) := by
          unfold loc
          rw [parentFs, sameFs]
        rw [place] at entry
        have sameDir := (h.disk.once (v.nodes n).fileSystem (v.nodes p).info.resource.inode
          (v.nodes n).info.resource.inode _ entry e mem sameInode).1
        have equal : p = n := h.inj p n parentLinked linked (by rw [place, sameDir]; rfl)
        rw [equal, empty] at isChild
        cases isChild
  have complete : Complete D mounts v' n := by
    refine ⟨?_, ?_⟩
    · rw [filled.disk, viewLoc selfView]
      apply List.Perm.of_eq
      unfold own
      rw [filled.here, empty, List.nil_append, List.filter_eq_self.mpr, rangeMap]
      · intro k e found
        rw [(newNode k e found).1, show (v'.nodes (v.count + k)).info.resource.inode = e.2 from
          congrArg Prod.snd (newNode k e found).2.1]
      · intro c mem
        obtain ⟨low, high⟩ := List.mem_range'_1.mp mem
        have new := (newNode (c - v.count) _ (List.getElem?_eq_getElem (by omega))).2.1
        rw [show v.count + (c - v.count) = c by omega] at new
        have sameFs : (v'.nodes c).fileSystem = (v.nodes n).fileSystem := congrArg Prod.fst new
        simp [sameFs]
    · intro c mem other
      rcases (filled.child h empty).mp mem with old | ⟨-, k, e, found, rfl⟩
      · rw [empty] at old
        cases old
      · exact absurd ((congrArg Prod.fst (newNode k e found).2.1).trans (viewFs selfView).symm) other
  refine ⟨⟨⟨apart, ?_, ?_⟩, filled.disk ▸ h.disk, ?_, ?_, ?_, ?_, ?_, ?_, filled.disk ▸ h.good⟩, complete⟩
  · intro p c mem
    rcases (filled.child h empty).mp mem with old | ⟨rfl, k, e, found, rfl⟩
    · rw [(filled.oldView (h.child old).2.2).2]
      exact h.tree.parents p c old
    · exact (newNode k e found).2.2.2
  · rw [(filled.oldView h.tree.apart.begun).2]
    exact h.tree.top
  · intro m linkedM
    rw [filled.disk]
    rcases (linkedIff m).mp linkedM with old | ⟨k, e, found, rfl⟩
    · have same := (filled.oldView (h.inside old)).1
      rw [viewLoc same, viewType same]
      exact h.kind m old
    · obtain ⟨-, place, type, -⟩ := newNode k e found
      rw [place, type]
      exact ⟨rfl, h.disk.valid _ _ e (List.mem_of_getElem? found)⟩
  · intro a b linkedA linkedB same
    rcases (linkedIff a).mp linkedA with oldA | ⟨k, e, found, rfl⟩
    · rw [viewLoc (filled.oldView (h.inside oldA)).1] at same
      rcases (linkedIff b).mp linkedB with oldB | ⟨k, e, found, rfl⟩
      · rw [viewLoc (filled.oldView (h.inside oldB)).1] at same
        exact h.inj a b oldA oldB same
      · rw [(newNode k e found).2.1] at same
        exact absurd same (unseen k e a found oldA)
    · rw [(newNode k e found).2.1] at same
      rcases (linkedIff b).mp linkedB with oldB | ⟨k', e', found', rfl⟩
      · rw [viewLoc (filled.oldView (h.inside oldB)).1] at same
        exact absurd same.symm (unseen k e b found oldB)
      · rw [(newNode k' e' found').2.1] at same
        have equal := (h.disk.once (v.nodes n).fileSystem (v.nodes n).info.resource.inode
          (v.nodes n).info.resource.inode e (List.mem_of_getElem? found) e' (List.mem_of_getElem? found')
          (Prod.mk.inj same).2).2
        subst equal
        have index : k = k' := (List.getElem?_inj (List.getElem?_eq_some_iff.mp found).1
          (h.disk.names (loc v n)).of_map).mp (found.trans found'.symm)
        rw [index]
  · intro m linkedM some
    by_cases isN : m = n
    · exact isN ▸ complete
    · rcases (linkedIff m).mp linkedM with old | ⟨k, e, found, rfl⟩
      · have same : (v'.nodes m).children = (v.nodes m).children := by
          rw [filled.old m isN (.inl (h.inside old))]
        refine (h.cache m old (same ▸ some)).congr same (filled.oldView (h.inside old)).1 (fun c mem => ?_)
          (by rw [filled.disk]) (List.Subset.refl _)
        exact (filled.oldView (h.child mem).2.2).1
      · rw [filled.new k e found] at some
        exact absurd rfl some
  · intro m unlinked
    apply List.eq_nil_iff_forall_not_mem.mpr
    intro c mem
    apply unlinked
    apply (linkedIff m).mpr
    rcases (filled.child h empty).mp mem with old | ⟨rfl, -⟩
    · exact .inl (h.child old).1
    · exact .inl linked
  · intro m isTop i e mem
    have was : Top v m := by
      rcases isTop with isRoot | ⟨p, isChild, other⟩
      · exact .inl isRoot
      · rcases (filled.child h empty).mp isChild with old | ⟨rfl, k, e, found, rfl⟩
        · obtain ⟨linkedP, -, insideM⟩ := h.child old
          rw [viewFs (filled.oldView (h.inside linkedP)).1, viewFs (filled.oldView insideM).1] at other
          exact .inr ⟨p, old, other⟩
        · have new : (v'.nodes (v.count + k)).fileSystem = (v.nodes p).fileSystem :=
            congrArg Prod.fst (newNode k e found).2.1
          rw [viewFs selfView, new] at other
          exact absurd rfl other
    have insideM : m < v.count := by
      rcases was with rfl | ⟨p, old, -⟩
      · exact h.tree.apart.begun
      · exact (h.child old).2.2
    have same := (filled.oldView insideM).1
    rw [filled.disk, viewFs same] at mem
    rw [viewInode same]
    exact h.top m was i e mem
  · intro m mem
    obtain ⟨p, linkedP, place, c, isChild, other, named, target⟩ := h.mounts m mem
    have sameC := (filled.oldView (h.child isChild).2.2).1
    have sameP := (filled.oldView (h.inside linkedP)).1
    refine ⟨p, (linkedIff p).mpr (.inl linkedP), ?_, c, (filled.child h empty).mpr (.inl isChild), ?_, ?_, ?_⟩
    · rw [viewLoc sameP]
      exact place
    · rw [viewFs sameC, viewFs sameP]
      exact other
    · rw [viewName sameC]
      exact named
    · rw [viewLoc sameC]
      exact target

structure Grown (v v' : VFS σ) : Prop where
  disk : v'.disk = v.disk
  nodes : ∀ m, Linked v m → Linked v' m ∧ view v' m = view v m

theorem Grown.refl (v : VFS σ) : Grown v v := ⟨rfl, fun _ linked => ⟨linked, rfl⟩⟩

theorem Grown.trans {v'' : VFS σ} (first : Grown v v') (second : Grown v' v'') : Grown v v'' := by
  refine ⟨second.disk.trans first.disk, fun m linked => ?_⟩
  obtain ⟨linked', same⟩ := first.nodes m linked
  obtain ⟨linked'', same'⟩ := second.nodes m linked'
  exact ⟨linked'', same'.trans same⟩

theorem loadChildrenAgree {n : Nat} (h : Agree D mounts v) (linked : Linked v n)
    (ok : loadChildren F v n = .ok v') : Agree D mounts v' ∧ Complete D mounts v' n ∧ Grown v v' := by
  unfold loadChildren at ok
  split at ok
  · next empty =>
    by_cases dir : D.kind v.disk (loc v n) = .DIRECTORY
    · obtain ⟨es, listed, names⟩ := D.lists v.disk (v.nodes n).fileSystem (v.nodes n).info h.good dir
      obtain ⟨v₁, made, filled⟩ := addEntriesFilled (F := F) (h.inside linked) names
      rw [addChildren, listed] at ok
      cases ok.symm.trans made
      obtain ⟨agree, complete⟩ := loadAgree h linked empty filled names made
      refine ⟨agree, complete, filled.disk, fun m linkedM => ⟨?_, (filled.oldView (h.inside linkedM)).1⟩⟩
      rcases linkedM with isRoot | ⟨p, mem⟩
      · exact .inl isRoot
      · exact .inr ⟨p, (filled.child h empty).mpr (.inl mem)⟩
    · unfold addChildren at ok
      split at ok
      · cases ok
      · next es listed =>
        cases D.silent v.disk (v.nodes n).fileSystem (v.nodes n).info es h.good dir listed
        cases ok
        refine ⟨h, ⟨?_, ?_⟩, Grown.refl v⟩
        · rw [h.disk.files _ dir]
          simp [own, empty]
        · intro c mem
          rw [empty] at mem
          cases mem
  · next some =>
    cases ok
    exact ⟨h, h.cache n linked some, Grown.refl v⟩

theorem resolveUtilAgree {names : List Chars} {curr : Nat} {r : Option Nat} (h : Agree D mounts v)
    (linked : Linked v curr) (ok : resolvePathUtil F names v curr = .ok (v', r)) :
    Agree D mounts v' ∧ Grown v v' ∧ r.map (loc v') = walk (hop D v.disk mounts) (loc v curr) names ∧
      ∀ n, r = some n → Linked v' n := by
  induction names generalizing v curr with
  | nil =>
    cases ok
    exact ⟨h, Grown.refl _, rfl, fun n found => Option.some.inj found ▸ linked⟩
  | cons name rest ih =>
    simp only [resolvePathUtil] at ok
    split at ok
    · cases ok
    · next v₁ loaded =>
      obtain ⟨agree, complete, grown⟩ := loadChildrenAgree h linked loaded
      obtain ⟨linked₁, same⟩ := grown.nodes curr linked
      have first := hopComplete agree linked₁ complete name
      rw [grown.disk, viewLoc same] at first
      split at ok
      · next missing =>
        cases ok
        refine ⟨agree, grown, ?_, fun n found => by cases found⟩
        rw [missing] at first
        simp only [walk, first, Option.map_none, Option.bind_none]
      · next child found =>
        have isChild := (findChildSpec found).1
        obtain ⟨agree', grown', place, last⟩ := ih agree (agree.child isChild).2.1 ok
        refine ⟨agree', grown.trans grown', ?_, last⟩
        rw [found] at first
        rw [place, grown.disk]
        simp only [walk, first, Option.map_some, Option.bind_some]

/- The location of a path on disk: its first component is the name of the root. -/
def locate (D : Directories F) (mounts : List Mount) (v : VFS σ) (path : Chars) : Option Loc :=
  match split path slash with
  | [] => none
  | first :: rest =>
    if first ≠ (v.nodes root).name then none else walk (hop D v.disk mounts) (loc v root) rest

theorem resolveAgree {path : Chars} {r : Option Nat} (h : Agree D mounts v)
    (ok : resolvePath F v path = .ok (v', r)) :
    Agree D mounts v' ∧ Grown v v' ∧ r.map (loc v') = locate D mounts v path ∧ ∀ n, r = some n → Linked v' n := by
  unfold resolvePath at ok
  unfold locate
  cases pieces : split path slash with
  | nil =>
    rw [pieces] at ok
    cases ok
    exact ⟨h, Grown.refl _, rfl, fun n found => by cases found⟩
  | cons first rest =>
    rw [pieces] at ok
    dsimp only at ok ⊢
    split at ok
    · next other =>
      cases ok
      rw [if_pos other]
      exact ⟨h, Grown.refl _, rfl, fun n found => by cases found⟩
    · next same =>
      rw [if_neg same]
      exact resolveUtilAgree h (.inl rfl) ok

end

end DimOS.Filesystem.Vfs.OnDisk
