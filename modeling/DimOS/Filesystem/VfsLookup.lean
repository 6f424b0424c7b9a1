import DimOS.Filesystem.VfsFiles

/-! resolvePath against what a lookup is for. A node without cached children is loaded, whatever
it is: RamDisk::readDir asserts that it is a directory, and returns only where it has no entries. -/
namespace DimOS.Filesystem.Vfs.Lookup
open Cpp.Containers
open Open (Device nodeAt resolveReturns resolveAt framebufferIsDevice)
open RamDisk (Disk NodeType VfsNode Buffer loadInt sizeofDirHeader)
open Lib.PathTree (walk)

/- The components of a path: what stands between the slashes, one slash at the end apart. -/
def components (path : Chars) : List Chars :=
  (if path.getLast? = some slash then path.dropLast else path).splitOn slash

theorem splitOnCons (c : BitVec 8) (rest : Chars) : (c :: rest).splitOn slash =
    if c = slash then [] :: rest.splitOn slash else (rest.splitOn slash).modifyHead (c :: ·) := by
  unfold List.splitOn
  rw [List.splitOnP_cons_eq_if_modifyHead]
  simp only [beq_iff_eq]

theorem modifyHeadEmpty (l : List Chars) : l.modifyHead ([] ++ ·) = l := by
  cases l <;> rfl

theorem modifyHeadSnoc (piece : Chars) (c : BitVec 8) (l : List Chars) :
    l.modifyHead (piece ++ [c] ++ ·) = (l.modifyHead (c :: ·)).modifyHead (piece ++ ·) := by
  cases l <;> simp

theorem splitFromClosed (piece s : Chars) :
    splitFrom slash piece (s ++ [slash]) = (s.splitOn slash).modifyHead (piece ++ ·) := by
  induction s generalizing piece with
  | nil => simp [splitFrom]
  | cons c rest ih =>
    rw [List.cons_append, splitFrom, splitOnCons]
    by_cases isSlash : c = slash
    · rw [if_pos isSlash, if_pos isSlash, ih [], modifyHeadEmpty]
      simp
    · rw [if_neg isSlash, if_neg isSlash, ih, modifyHeadSnoc]

theorem splitFromOpen {piece s : Chars} (bare : s.getLast? ≠ some slash) (filled : s = [] → piece ≠ []) :
    splitFrom slash piece s = (s.splitOn slash).modifyHead (piece ++ ·) := by
  induction s generalizing piece with
  | nil => simp [splitFrom, filled rfl]
  | cons c rest ih =>
    have later : rest.getLast? ≠ some slash := by
      cases rest with
      | nil => simp
      | cons => simpa [List.getLast?_cons_cons] using bare
    rw [splitFrom, splitOnCons]
    by_cases isSlash : c = slash
    · have more : rest ≠ [] := by
        rintro rfl
        rw [isSlash] at bare
        simp at bare
      rw [if_pos isSlash, if_pos isSlash, ih later (fun none => absurd none more), modifyHeadEmpty]
      simp
    · rw [if_neg isSlash, if_neg isSlash, ih later (by simp), modifyHeadSnoc]

theorem splitComponents (path : Chars) : split path slash = components path := by
  unfold components
  by_cases closed : path.getLast? = some slash
  · obtain ⟨init, rfl⟩ : ∃ init, path = init ++ [slash] := List.getLast?_eq_some_iff.mp closed
    rw [if_pos closed, List.dropLast_concat, split, if_neg (by simp), splitFromClosed, modifyHeadEmpty]
  · rw [if_neg closed, split]
    by_cases empty : path = []
    · rw [if_pos empty, empty, List.splitOn_nil]
    · rw [if_neg empty, splitFromOpen closed (fun none => absurd none empty), modifyHeadEmpty]

section
variable {τ : Type} {G : FileSystem τ} {deviceID : Int} {v : VFS (Disk × τ)}

def EmptyDirectory (d : Disk) (info : VfsNode) : Prop :=
  (d.nodes info.resource.inode).type = .DIRECTORY ∧
    ∃ buffer bytesRead, d.read info.resource 0 (d.nodes info.resource.inode).size (fun _ => 0#8) =
      some (buffer, bytesRead) ∧ sizeofDirHeader ≤ bytesRead ∧ loadInt buffer 0 = 0

theorem readDirIff (d : Disk) (info : VfsNode) : d.readDir info = some [] ↔ EmptyDirectory d info := by
  unfold Disk.readDir EmptyDirectory
  by_cases dir : (d.nodes info.resource.inode).type = .DIRECTORY
  · simp only [dir, ne_eq, not_true_eq_false, if_false, true_and]
    cases d.read info.resource 0 (d.nodes info.resource.inode).size (fun _ => 0#8) with
    | none => simp
    | some out =>
      obtain ⟨buffer, bytesRead⟩ := out
      by_cases short : bytesRead < sizeofDirHeader
      · simp [short]
      · by_cases none : loadInt buffer 0 = 0 <;> simp [short, none]; omega
  · simp [dir]

/- A proper part of the path leads to node n, and the lookup goes on from there. -/
def Passes (v : VFS (Disk × τ)) (path : Chars) (n : Nat) : Prop :=
  ∃ pre post, components path = pre ++ post ∧ post ≠ [] ∧ nodeAt v pre = some n

theorem resolvedListed {F : FileSystem (Disk × τ)} (settled : ∀ n entries,
      F.readDir v.disk (v.nodes n).fileSystem (v.nodes n).info = some entries → entries = [])
    {curr : Nat} {names : List Chars} {out : VFS (Disk × τ) × Option Nat}
    (ok : resolvePathUtil F names v curr = .ok out) {pre post : List Chars} {name : Chars} {n : Nat}
    (shape : names = pre ++ name :: post) (walked : walk (findChild v) curr pre = some n)
    (bare : (v.nodes n).children = []) :
    F.readDir v.disk (v.nodes n).fileSystem (v.nodes n).info = some [] := by
  induction pre generalizing curr names with
  | nil =>
    cases Option.some.inj walked
    subst shape
    simp only [List.nil_append, resolvePathUtil, loadChildren, bare, if_true, addChildren] at ok
    cases listed : F.readDir v.disk (v.nodes n).fileSystem (v.nodes n).info with
    | none =>
      rw [listed] at ok
      cases ok
    | some entries => rw [settled n entries listed]
  | cons first pre ih =>
    obtain ⟨child, found, walked⟩ := Option.bind_eq_some_iff.mp walked
    have cached : (v.nodes curr).children ≠ [] := List.ne_nil_of_mem (Open.findChildSpec found).1
    subst shape
    simp only [List.cons_append, resolvePathUtil, loadChildren, cached, if_false, found] at ok
    exact ih ok rfl walked

theorem resolveIff (device : Device G) (path : Chars) :
    resolvePath (withRamDisk deviceID G) v path = .ok (v, nodeAt v (components path)) ↔
      ∀ n, Passes v path n → (v.nodes n).children = [] → (v.nodes n).fileSystem = 0 →
        EmptyDirectory v.disk.1 (v.nodes n).info := by
  constructor
  · rintro ok n ⟨pre, post, shape, more, at'⟩ bare onDisk
    obtain ⟨names, rfl, walked⟩ := Open.nodeAtSpec at'
    obtain ⟨name, post, rfl⟩ := List.exists_cons_of_ne_nil more
    unfold resolvePath at ok
    rw [splitComponents, shape] at ok
    simp only [List.cons_append, ne_eq, not_true_eq_false, if_false] at ok
    have listed := resolvedListed (fun n entries listed => Open.listsNothing device listed) ok rfl walked bare
    simp only [withRamDisk, onDisk, if_true] at listed
    exact (readDirIff _ _).mp listed
  · intro empty
    unfold resolvePath
    rw [splitComponents]
    cases pieces : components path with
    | nil => rfl
    | cons first names =>
      by_cases same : first = (v.nodes root).name
      · simp only [nodeAt, same, ne_eq, not_true_eq_false, if_false]
        apply resolveReturns
        intro pre name post n shape walked bare
        by_cases onDisk : (v.nodes n).fileSystem = 0
        · simp only [withRamDisk, onDisk, if_true]
          refine (readDirIff _ _).mpr (empty n ⟨first :: pre, name :: post, ?_, by simp, ?_⟩ bare onDisk)
          · rw [pieces, shape]
            rfl
          · simp only [nodeAt, same, ne_eq, not_true_eq_false, if_false]
            exact walked
        · simp only [withRamDisk, onDisk, if_false]
          exact device.lists _ _ _
      · simp only [nodeAt, ne_eq, same, not_false_eq_true, if_true]

/- Every node of the RamDisk that the lookup passes without cached children is a directory without entries. -/
def Opens (v : VFS (Disk × τ)) (path : Chars) : Prop :=
  ∀ n, Passes v path n → (v.nodes n).children = [] → (v.nodes n).fileSystem = 0 →
    EmptyDirectory v.disk.1 (v.nodes n).info

/-- A lookup returns, and finds the node its components lead to from the root, exactly when every
node of the RamDisk that it passes without cached children is a directory without entries. -/
theorem lookupExactIff (device : Device G) (path : Chars) :
    resolvePath (withRamDisk deviceID G) v path = .ok (v, nodeAt v (components path)) ↔
      ∀ n, Passes v path n → (v.nodes n).children = [] → (v.nodes n).fileSystem = 0 →
        EmptyDirectory v.disk.1 (v.nodes n).info :=
  resolveIff device path

theorem opensResolves {fbSize : Nat} {v : VFS (Disk × RamDisk.Buffer)} {path : Chars} (opens : Opens v path) :
    resolvePath (kernelFs fbSize) v path = .ok (v, nodeAt v (split path slash)) := by
  rw [splitComponents]
  exact (resolveIff (framebufferIsDevice 2 fbSize) path).mpr opens

theorem resolvesOpens {fbSize : Nat} {v : VFS (Disk × RamDisk.Buffer)} {path : Chars}
    {out : VFS (Disk × RamDisk.Buffer) × Option Nat} (ok : resolvePath (kernelFs fbSize) v path = .ok out) :
    Opens v path ∧ out = (v, nodeAt v (split path slash)) := by
  obtain ⟨found, node⟩ := out
  obtain ⟨rfl, rfl⟩ := Files.resolveStays ok
  refine ⟨(@resolveIff _ _ 1 _ (framebufferIsDevice 2 fbSize) path).mp ?_, rfl⟩
  rw [← splitComponents]
  exact ok

end

/- The lookup of "/d/f" after mkdir("/d") and mkfile("/d/f"). -/
theorem lookupExactFound : ∃ d v v', RamDisk.createRoot 4 8 = some d ∧
    mkdir (kernelFs 16) (fun _ => 0#8) (globalVFS 16 d) [slash, 0x64#8] = .ok (v, some 1) ∧
    mkfile (kernelFs 16) (fun _ => 0#8) v [slash, 0x64#8, slash, 0x66#8] = .ok (v', some 2) ∧
    resolvePath (kernelFs 16) v' [slash, 0x64#8, slash, 0x66#8] = .ok (v', some 2) := by
  have facts : (RamDisk.createRoot 4 8).bind (fun d =>
      (mkdir (kernelFs 16) (fun _ => 0#8) (globalVFS 16 d) [slash, 0x64#8]).toOption.bind (fun one =>
        (mkfile (kernelFs 16) (fun _ => 0#8) one.1 [slash, 0x64#8, slash, 0x66#8]).toOption.map (fun two =>
          ((one.2, two.2), nodeAt two.1 [[], [0x64#8], [0x66#8]],
            [nodeAt two.1 [[]], nodeAt two.1 [[], [0x64#8]]].map (fun n => n.map fun n => (two.1.nodes n).children))))) =
      some ((some 1, some 2), some 2, [some [1], some [2]]) := by
    decide +kernel
  obtain ⟨d, created, facts⟩ := Option.bind_eq_some_iff.mp facts
  obtain ⟨⟨v, one⟩, first, facts⟩ := Option.bind_eq_some_iff.mp facts
  obtain ⟨⟨v', two⟩, second, facts⟩ := Option.map_eq_some_iff.mp facts
  simp only [Prod.mk.injEq, List.map_cons, List.map_nil, List.cons.injEq, and_true] at facts
  obtain ⟨⟨rfl, rfl⟩, found, top, below⟩ := facts
  have parts : components [slash, 0x64#8, slash, 0x66#8] = [[], [0x64#8], [0x66#8]] := by decide
  refine ⟨d, v, v', created, Files.toOptionOk first, Files.toOptionOk second, ?_⟩
  rw [← found, ← parts]
  refine (lookupExactIff (framebufferIsDevice 2 16) [slash, 0x64#8, slash, 0x66#8]).mpr ?_
  -- both nodes on the way have their children in the cache
  rintro n ⟨pre, post, shape, more, walked⟩ bare -
  rw [parts] at shape
  have place : pre ∈ [[], [[]], [[], [0x64#8]], [[], [0x64#8], [0x66#8]]] :=
    (List.mem_inits _ _).mpr ⟨post, shape.symm⟩
  simp only [List.mem_cons, List.not_mem_nil, or_false] at place
  rcases place with rfl | rfl | rfl | rfl
  · cases walked
  · rw [walked, Option.map_some, bare] at top
    cases top
  · rw [walked, Option.map_some, bare] at below
    cases below
  · exact absurd (List.append_right_eq_self.mp shape.symm) more

/- mkfile("/f"), then the lookup of "/f/x": the assertion of readDir fails on the file. -/
theorem lookupThroughFile : ∃ d v, RamDisk.createRoot 4 8 = some d ∧
    mkfile (kernelFs 16) (fun _ => 0#8) (globalVFS 16 d) [slash, 0x66#8] = .ok (v, some 1) ∧
    nodeAt v (components [slash, 0x66#8, slash, 0x78#8]) = none ∧
    resolvePath (kernelFs 16) v [slash, 0x66#8, slash, 0x78#8] ≠
      .ok (v, nodeAt v (components [slash, 0x66#8, slash, 0x78#8])) := by
  have facts : ((RamDisk.createRoot 4 8).bind (fun d =>
      (mkfile (kernelFs 16) (fun _ => 0#8) (globalVFS 16 d) [slash, 0x66#8]).toOption.map (fun one =>
        (one.2, nodeAt one.1 [[], [0x66#8], [0x78#8]],
          (resolvePath (kernelFs 16) one.1 [slash, 0x66#8, slash, 0x78#8]).toOption.isSome)))) =
      some (some 1, none, false) := by
    decide +kernel
  obtain ⟨d, created, facts⟩ := Option.bind_eq_some_iff.mp facts
  obtain ⟨⟨v, n⟩, made, facts⟩ := Option.map_eq_some_iff.mp facts
  simp only [Prod.mk.injEq] at facts
  obtain ⟨rfl, missing, refused⟩ := facts
  have pieces : components [slash, 0x66#8, slash, 0x78#8] = [[], [0x66#8], [0x78#8]] := by decide +kernel
  refine ⟨d, v, created, Files.toOptionOk made, by rw [pieces]; exact missing, ?_⟩
  intro ok
  rw [ok] at refused
  cases refused

end DimOS.Filesystem.Vfs.Lookup
