import Mathlib
import DimOS.Filesystem.VfsSettled
import DimOS.Shell.Commands

/-! The working directory over sequences of commands. cd keeps the text of the path and takes all
slashes off its end, while a lookup does not read one slash there. -/
namespace DimOS.Shell
open Cpp.Containers
open Filesystem.Vfs
open Filesystem.Vfs.Files (mapOk)
open Filesystem.Vfs.Open (nodeAt resolveFound)
open Filesystem.RamDisk (Disk Buffer)
open Lib.PathTree (walk)
open Lib.Transition (run Visits)

inductive Bin where
  | cd
  | pwd
  | echo
  | ls
  | touch
  | mkdir
  | cat
  | fprint
  | help
  | stat
  deriving DecidableEq

/- A command with its args, what the stack holds when it creates nodes, and how many rounds a cat
has made when it is looked at. -/
structure Command where
  bin : Bin
  args : List Chars
  rest : Nat → Nat → BitVec 8
  rounds : Nat

/- The state after a command, and the directory that a successful cd has opened. -/
def perform (fbSize : Nat) (s : State) (c : Command) : Except Crash (State × Option Nat) :=
  match c.bin with
  | .cd => cd fbSize s c.args
  | .pwd => (pwd fbSize s).map (·, none)
  | .echo => (echoCommand fbSize s c.args).map (·, none)
  | .ls => (ls fbSize s).map (·, none)
  | .touch => (touch fbSize c.rest s c.args).map (·, none)
  | .mkdir => (mkdir fbSize c.rest s c.args).map (·, none)
  | .cat => (cat fbSize c.rounds s c.args).map (·, none)
  | .fprint => (fprint fbSize s c.args).map (·, none)
  | .help => (help fbSize s).map (·, none)
  | .stat => (stat fbSize s c.args).map (·, none)

def shellStep (fbSize : Nat) (s : State) (c : Command) : Option State := (perform fbSize s c).toOption.map Prod.fst

variable {fbSize : Nat} {s s' : State}

structure PlainDir (currDir : Chars) : Prop where
  head : currDir = [] ∨ currDir.head? = some slash
  last : currDir.getLast? ≠ some slash

/- The lookup of the working directory finds that node, a directory. -/
structure Leads (fbSize : Nat) (s : State) (node : Nat) : Prop where
  opens : openNode (kernelFs fbSize) s.vfs s.currDir = .ok (s.vfs, some node)
  directory : (s.vfs.nodes node).info.type = .DIRECTORY

theorem bindOk {α β : Type} {x : Except Crash α} {f : α → Except Crash β} {b : β} (ok : x.bind f = .ok b) :
    ∃ a, x = .ok a ∧ f a = .ok b := by
  cases x with
  | error crash => cases ok
  | ok a => exact ⟨a, rfl, ok⟩

theorem lookupOk {α : Type} {x : Except Fault α} {a : α} (ok : lookup x = .ok a) : x = .ok a := by
  cases x with
  | error fault => cases ok
  | ok b =>
    cases ok
    rfl

structure SameTree (v v' : VFS (Disk × Buffer)) : Prop where
  name : ∀ n, (v'.nodes n).name = (v.nodes n).name
  children : ∀ n, (v'.nodes n).children = (v.nodes n).children
  type : ∀ n, (v'.nodes n).info.type = (v.nodes n).info.type

theorem SameTree.find {v v' : VFS (Disk × Buffer)} (same : SameTree v v') : findChild v' = findChild v := by
  funext curr name
  simp only [findChild, same.name, same.children]

theorem SameTree.nodeAt {v v' : VFS (Disk × Buffer)} (same : SameTree v v') (comps : List Chars) :
    nodeAt v' comps = nodeAt v comps := by
  cases comps with
  | nil => rfl
  | cons first rest => simp only [Open.nodeAt, same.find, same.name]

theorem writeTree {v v' : VFS (Disk × Buffer)} {node offset size bytes : Nat} {buffer : Buffer}
    (ok : nodeWrite fbSize v node offset size buffer = .ok (v', bytes)) : SameTree v v' := by
  unfold nodeWrite at ok
  split at ok
  · cases ok
  · next disk resource bytes' wrote =>
    cases ok
    constructor <;> intro n <;> rw [VFS.setInfo, VFS.setNodeNode] <;> split
    all_goals first | (next here => subst here; rfl) | rfl

theorem echoBytesKeeps {size : Nat} {buffer : Buffer} (ok : echoBytes fbSize s size buffer = .ok s') :
    SameTree s.vfs s'.vfs ∧ s'.currDir = s.currDir := by
  obtain ⟨⟨v, bytes⟩, wrote, rfl⟩ := mapOk ok
  exact ⟨writeTree wrote, rfl⟩

theorem echoKeeps {data : Chars} (ok : echo fbSize s data = .ok s') :
    SameTree s.vfs s'.vfs ∧ s'.currDir = s.currDir := echoBytesKeeps ok

theorem createAllKeeps {type : Filesystem.RamDisk.NodeType} {report : String} {rest : Nat → Nat → BitVec 8}
    {args : List Chars} (ok : createAll fbSize type report rest args s = .ok s') : s'.currDir = s.currDir := by
  induction args generalizing s with
  | nil =>
    cases ok
    rfl
  | cons arg args ih =>
    obtain ⟨⟨v, node⟩, -, ok⟩ := bindOk ok
    obtain ⟨next, echoed, ok⟩ := bindOk ok
    exact (ih ok).trans (echoKeeps echoed).2

theorem catLoopKeeps {node rounds readOffset : Nat} {buffer : Buffer}
    (ok : catLoop fbSize node rounds readOffset buffer s = .ok s') : s'.currDir = s.currDir := by
  induction rounds generalizing s readOffset buffer with
  | zero =>
    cases ok
    rfl
  | succ rounds ih =>
    rw [catLoop] at ok
    split at ok
    · obtain ⟨⟨buffer, bytesRead⟩, -, ok⟩ := bindOk ok
      obtain ⟨next, echoed, ok⟩ := bindOk ok
      exact (ih ok).trans (echoBytesKeeps echoed).2
    · cases ok
      rfl

theorem lsLoopKeeps {nodes : List Nat} (ok : lsLoop fbSize nodes s = .ok s') : s'.currDir = s.currDir := by
  induction nodes generalizing s with
  | nil =>
    cases ok
    rfl
  | cons node nodes ih =>
    obtain ⟨one, first, ok⟩ := bindOk ok
    obtain ⟨two, second, ok⟩ := bindOk ok
    exact (ih ok).trans ((echoKeeps second).2.trans (echoKeeps first).2)

theorem echoAllKeeps {texts : List Chars} (ok : echoAll fbSize texts s = .ok s') : s'.currDir = s.currDir := by
  induction texts generalizing s with
  | nil =>
    cases ok
    rfl
  | cons data rest ih =>
    obtain ⟨next, echoed, ok⟩ := bindOk ok
    exact (ih ok).trans (echoKeeps echoed).2

theorem createKeeps {type : Filesystem.RamDisk.NodeType} {usage report : String} {rest : Nat → Nat → BitVec 8}
    {args : List Chars}
    (ok : (if args.length < 2 then echo fbSize s (text usage)
      else createAll fbSize type report rest (args.drop 1) s) = .ok s') : s'.currDir = s.currDir := by
  split at ok
  · exact (echoKeeps ok).2
  · exact createAllKeeps ok

theorem catKeeps {rounds : Nat} {args : List Chars} (ok : cat fbSize rounds s args = .ok s') :
    s'.currDir = s.currDir := by
  unfold cat at ok
  split at ok
  · exact (echoKeeps ok).2
  · obtain ⟨arg, -, ok⟩ := bindOk ok
    obtain ⟨⟨v, node⟩, -, ok⟩ := bindOk ok
    cases node with
    | none => cases ok
    | some node => exact catLoopKeeps (s := { s with vfs := v }) ok

theorem lsKeeps (ok : ls fbSize s = .ok s') : s'.currDir = s.currDir := by
  obtain ⟨⟨v, nodes⟩, -, ok⟩ := bindOk ok
  exact lsLoopKeeps (s := { s with vfs := v }) ok

theorem fprintKeeps {args : List Chars} (ok : fprint fbSize s args = .ok s') : s'.currDir = s.currDir := by
  unfold fprint at ok
  split at ok
  · exact (echoKeeps ok).2
  · obtain ⟨arg, -, ok⟩ := bindOk ok
    obtain ⟨⟨v, node⟩, -, ok⟩ := bindOk ok
    cases node with
    | none => exact (echoKeeps ok).2
    | some node =>
      obtain ⟨⟨v', bytes⟩, -, ok⟩ := bindOk ok
      cases ok
      rfl

theorem helpKeeps (ok : help fbSize s = .ok s') : s'.currDir = s.currDir := by
  obtain ⟨one, first, ok⟩ := bindOk ok
  obtain ⟨two, second, third⟩ := bindOk ok
  exact (echoKeeps third).2.trans ((echoKeeps second).2.trans (echoKeeps first).2)

theorem statKeeps {args : List Chars} (ok : stat fbSize s args = .ok s') : s'.currDir = s.currDir := by
  unfold stat at ok
  split at ok
  · exact (echoKeeps ok).2
  · obtain ⟨arg, -, ok⟩ := bindOk ok
    obtain ⟨⟨v, node⟩, -, ok⟩ := bindOk ok
    cases node with
    | none => exact (echoKeeps ok).2
    | some node => exact echoAllKeeps (s := { s with vfs := v }) ok

structure Changed (fbSize : Nat) (s s' : State) (args : List Chars) (node : Nat) : Prop where
  usage : args.length = 2
  opened : ∃ arg, args[1]? = some arg ∧ nodeAt s.vfs (split (formPath s.currDir arg) slash) = some node ∧
    s'.currDir = stripSlashes (formPath s.currDir arg)
  directory : (s.vfs.nodes node).info.type = .DIRECTORY
  tree : SameTree s.vfs s'.vfs

theorem cdCases {args : List Chars} {r : Option Nat} (ok : cd fbSize s args = .ok (s', r)) :
    (r = none ∧ s'.currDir = s.currDir) ∨ ∃ node, r = some node ∧ Changed fbSize s s' args node := by
  unfold cd at ok
  split at ok
  · obtain ⟨next, echoed, same⟩ := mapOk ok
    cases same
    exact .inl ⟨rfl, (echoKeeps echoed).2⟩
  · next usage =>
    obtain ⟨arg, given, ok⟩ := bindOk ok
    obtain ⟨⟨v, node⟩, opened, ok⟩ := bindOk ok
    obtain ⟨rfl, found⟩ := Files.resolveStays (lookupOk opened)
    have second : args[1]? = some arg := by
      unfold argument at given
      split at given
      · cases given
      · next arg' here =>
        cases given
        exact here
    cases node with
    | none =>
      obtain ⟨next, echoed, same⟩ := mapOk ok
      cases same
      exact .inl ⟨rfl, (echoKeeps echoed).2⟩
    | some node =>
      dsimp only at ok
      split at ok
      · obtain ⟨next, echoed, same⟩ := mapOk ok
        cases same
        exact .inl ⟨rfl, (echoKeeps echoed).2⟩
      · next directory =>
        obtain ⟨next, echoed, same⟩ := mapOk ok
        cases same
        obtain ⟨tree, dir⟩ := echoKeeps echoed
        exact .inr ⟨node, rfl, not_not.mp usage, ⟨arg, second, found.symm, dir⟩, not_not.mp directory, tree⟩

theorem performCases {c : Command} {r : Option Nat} (ok : perform fbSize s c = .ok (s', r)) :
    (r = none ∧ s'.currDir = s.currDir) ∨ ∃ node, c.bin = .cd ∧ r = some node ∧ Changed fbSize s s' c.args node := by
  unfold perform at ok
  cases bin : c.bin <;> rw [bin] at ok
  case cd =>
    rcases cdCases ok with same | ⟨node, shape, changed⟩
    · exact .inl same
    · exact .inr ⟨node, rfl, shape, changed⟩
  all_goals
    obtain ⟨next, done, same⟩ := mapOk ok
    cases same
    refine .inl ⟨rfl, ?_⟩
  case pwd => exact (echoKeeps done).2
  case echo =>
    obtain ⟨arg, -, echoed⟩ := bindOk done
    exact (echoKeeps echoed).2
  case ls => exact lsKeeps done
  case touch => exact createKeeps done
  case mkdir => exact createKeeps done
  case cat => exact catKeeps done
  case fprint => exact fprintKeeps done
  case help => exact helpKeeps done
  case stat => exact statKeeps done

theorem formPathHead {currDir : Chars} (plain : PlainDir currDir) (relPath : Chars) :
    (formPath currDir relPath).head? = some slash := by
  unfold formPath
  split
  · assumption
  · rcases plain.head with rfl | head
    · rfl
    · cases currDir with
      | nil => rfl
      | cons c rest => simpa using head

theorem stripPlain {path : Chars} (head : path.head? = some slash) : PlainDir (stripSlashes path) := by
  constructor
  · by_cases empty : stripSlashes path = []
    · exact .inl empty
    · right
      obtain ⟨rest, whole⟩ := List.rdropWhile_prefix (fun c : BitVec 8 => c == slash) (l := path)
      obtain ⟨c, tail, shape⟩ := List.exists_cons_of_ne_nil empty
      unfold stripSlashes at shape ⊢
      rw [shape] at whole ⊢
      rw [← whole] at head
      simpa using head
  · intro last
    have filled : stripSlashes path ≠ [] := by
      intro empty
      rw [empty] at last
      cases last
    have kept := List.rdropWhile_last_not (fun c : BitVec 8 => c == slash) path filled
    rw [List.getLast?_eq_getLast_of_ne_nil filled, Option.some.injEq] at last
    unfold stripSlashes at last
    rw [last] at kept
    exact kept (by simp)

def EndsTwice (path : Chars) : Prop := ∃ front, path = front ++ [slash, slash]

theorem splitStripped {path : Chars} (once : ¬ EndsTwice path) : split (stripSlashes path) slash = split path slash := by
  rcases path.eq_nil_or_concat with rfl | ⟨init, c, rfl⟩
  · rfl
  · rw [List.concat_eq_append] at once ⊢
    by_cases isSlash : c = slash
    · subst isSlash
      have bare : init.getLast? ≠ some slash := by
        intro last
        obtain ⟨front, rfl⟩ := List.getLast?_eq_some_iff.mp last
        exact once ⟨front, by simp⟩
      have stripped : stripSlashes (init ++ [slash]) = init := by
        unfold stripSlashes
        rw [List.rdropWhile_concat_pos _ _ _ (by simp)]
        rcases init.eq_nil_or_concat with rfl | ⟨front, d, rfl⟩
        · rfl
        · rw [List.concat_eq_append] at bare ⊢
          refine List.rdropWhile_concat_neg _ _ _ ?_
          simpa using bare
      rw [stripped, splitTrailing bare]
    · have stripped : stripSlashes (init ++ [c]) = init ++ [c] :=
        List.rdropWhile_concat_neg _ _ _ (by simpa using isSlash)
      rw [stripped]

theorem formPathOnce {currDir arg : Chars} (plain : PlainDir currDir) (once : ¬ EndsTwice arg) :
    ¬ EndsTwice (formPath currDir arg) := by
  unfold formPath
  split
  · exact once
  · next relative =>
    rintro ⟨front, shape⟩
    rcases arg.eq_nil_or_concat with rfl | ⟨init, d, rfl⟩
    · have dir : currDir = front ++ [slash] := by
        have whole : currDir ++ [slash] = (front ++ [slash]) ++ [slash] := by simpa using shape
        exact (List.append_inj' whole rfl).1
      exact plain.last (by simp [dir])
    · rw [List.concat_eq_append] at once relative shape
      have whole : (currDir ++ [slash] ++ init) ++ [d] = (front ++ [slash]) ++ [slash] := by simpa using shape
      obtain ⟨before, last⟩ := List.append_inj' whole rfl
      have isSlash : d = slash := by simpa using last
      rcases init.eq_nil_or_concat with rfl | ⟨more, e, rfl⟩
      · exact relative (by simp [isSlash])
      · rw [List.concat_eq_append] at once before
        have parts : (currDir ++ [slash] ++ more) ++ [e] = front ++ [slash] := by simpa using before
        obtain ⟨-, last'⟩ := List.append_inj' parts rfl
        have isSlash' : e = slash := by simpa using last'
        exact once ⟨more, by simp [isSlash, isSlash']⟩

theorem openFound {v : VFS (Disk × Buffer)} {path : Chars} {node : Nat}
    (found : nodeAt v (split path slash) = some node) :
    openNode (kernelFs fbSize) v path = .ok (v, some node) := by
  unfold openNode resolvePath
  cases pieces : split path slash with
  | nil =>
    rw [pieces] at found
    cases found
  | cons first rest =>
    rw [pieces] at found
    simp only [nodeAt] at found
    split at found
    · cases found
    · next same =>
      simp only [same, if_false]
      exact resolveFound found

theorem changedLeads {args : List Chars} {node : Nat} (plain : PlainDir s.currDir)
    (changed : Changed fbSize s s' args node) (once : ∀ arg, args[1]? = some arg → ¬ EndsTwice arg) :
    Leads fbSize s' node := by
  obtain ⟨arg, given, found, dir⟩ := changed.opened
  refine ⟨openFound ?_, by rw [changed.tree.type]; exact changed.directory⟩
  rw [dir, splitStripped (formPathOnce plain (once arg given)), changed.tree.nodeAt]
  exact found

theorem performPlain {c : Command} {r : Option Nat} (plain : PlainDir s.currDir)
    (ok : perform fbSize s c = .ok (s', r)) : PlainDir s'.currDir := by
  rcases performCases ok with ⟨-, same⟩ | ⟨node, -, -, changed⟩
  · rwa [same]
  · obtain ⟨arg, -, -, dir⟩ := changed.opened
    rw [dir]
    exact stripPlain (formPathHead plain arg)

theorem stepOk {c : Command} (ok : shellStep fbSize s c = some s') : ∃ r, perform fbSize s c = .ok (s', r) := by
  unfold shellStep at ok
  cases performed : perform fbSize s c with
  | error crash =>
    rw [performed] at ok
    cases ok
  | ok out =>
    rw [performed] at ok
    cases ok
    exact ⟨out.2, rfl⟩

def CdOnce (c : Command) : Prop := c.bin = .cd → ∀ arg, c.args[1]? = some arg → ¬ EndsTwice arg

/-- From a shell at the root, over all commands: the working directory is always empty or begins with
a slash and never ends with one, and after every cd that reports success its lookup finds the directory
that was opened, as long as no path given to cd ends in two slashes. -/
theorem workingDirectory (v : VFS (Disk × Buffer)) (stdout : Descriptor) (commands : List Command) :
    (∀ mid, Visits (shellStep fbSize) ⟨v, [], stdout⟩ commands mid → PlainDir mid.currDir) ∧
      ((∀ c ∈ commands, CdOnce c) → ∀ before c later mid after node, commands = before ++ c :: later →
        run (shellStep fbSize) ⟨v, [], stdout⟩ before = some mid → perform fbSize mid c = .ok (after, some node) →
          Leads fbSize after node) := by
  have visited : ∀ mid, Visits (shellStep fbSize) ⟨v, [], stdout⟩ commands mid → PlainDir mid.currDir := by
    rintro mid ⟨pre, post, -, reached⟩
    refine Lib.Transition.invariantRunAll (fun t : State => PlainDir t.currDir) ?_ ⟨.inl rfl, by simp⟩ reached
    intro t c t' plain taken
    obtain ⟨r, ok⟩ := stepOk taken
    exact performPlain plain ok
  refine ⟨visited, fun once before c later mid after node shape reached ok => ?_⟩
  have plain := visited mid ⟨before, c :: later, shape, reached⟩
  rcases performCases ok with ⟨none, -⟩ | ⟨other, bin, same, changed⟩
  · cases none
  · cases same
    exact changedLeads plain changed (once c (by rw [shape]; simp) bin)

/- mkdir a and cd a/, on a disk whose file of stdout is /o. -/
def intoA : List Command :=
  [⟨.mkdir, [text "mkdir", [0x61#8]], fun _ _ => 0#8, 0⟩, ⟨.cd, [text "cd", [0x61#8, slash]], fun _ _ => 0#8, 0⟩]

theorem workingDirectoryCd : ∃ d v mid after c, Filesystem.RamDisk.createRoot 8 8 = some d ∧
    mkfile (kernelFs 16) (fun _ => 0#8) (globalVFS 16 d) [slash, 0x6f#8] = .ok (v, some 1) ∧
    intoA[1]? = some c ∧ run (shellStep 16) ⟨v, [], ⟨0, 0, 1⟩⟩ (intoA.take 1) = some mid ∧
    perform 16 mid c = .ok (after, some 2) ∧ after.currDir = [slash, 0x61#8] ∧ Leads 16 after 2 := by
  have facts : ((Filesystem.RamDisk.createRoot 8 8).bind fun d =>
      (mkfile (kernelFs 16) (fun _ => 0#8) (globalVFS 16 d) [slash, 0x6f#8]).toOption.bind fun made =>
        (run (shellStep 16) ⟨made.1, [], ⟨0, 0, 1⟩⟩ (intoA.take 1)).bind fun mid =>
          (perform 16 mid ⟨.cd, [text "cd", [0x61#8, slash]], fun _ _ => 0#8, 0⟩).toOption.map fun out =>
            (made.2, out.2, out.1.currDir)) = some (some 1, some 2, [slash, 0x61#8]) := by decide +kernel
  obtain ⟨d, created, facts⟩ := Option.bind_eq_some_iff.mp facts
  obtain ⟨⟨v, node⟩, made, facts⟩ := Option.bind_eq_some_iff.mp facts
  obtain ⟨mid, ran, facts⟩ := Option.bind_eq_some_iff.mp facts
  obtain ⟨⟨after, opened⟩, changed, facts⟩ := Option.map_eq_some_iff.mp facts
  simp only [Prod.mk.injEq] at facts
  obtain ⟨rfl, rfl, dir⟩ := facts
  have once : ∀ c ∈ intoA, CdOnce c := by
    intro c mem
    simp only [intoA, List.mem_cons, List.not_mem_nil, or_false] at mem
    rcases mem with rfl | rfl
    · exact fun other => by cases other
    · intro _ arg given ⟨front, shape⟩
      cases Option.some.inj given
      have back := congrArg List.reverse shape
      simp [slash] at back
  have ok := Files.toOptionOk changed
  exact ⟨d, v, mid, after, _, created, Files.toOptionOk made, rfl, ran, ok, dir,
    (workingDirectory v ⟨0, 0, 1⟩ intoA).2 once (intoA.take 1) _ [] mid after 2 rfl ran ok⟩

/- mkdir /a and mkdir /a/, which makes a child of /a without a name. -/
def nameless : List Command :=
  [⟨.mkdir, [text "mkdir", [slash, 0x61#8]], fun _ _ => 0#8, 0⟩,
   ⟨.mkdir, [text "mkdir", [slash, 0x61#8, slash]], fun _ _ => 0#8, 0⟩]

def cdNameless : Command := ⟨.cd, [text "cd", [slash, 0x61#8, slash, slash]], fun _ _ => 0#8, 0⟩

/- cd /a// goes into that child, and the working directory becomes /a. -/
theorem cdOtherDirectory : ∃ d v mid after, Filesystem.RamDisk.createRoot 8 8 = some d ∧
    mkfile (kernelFs 16) (fun _ => 0#8) (globalVFS 16 d) [slash, 0x6f#8] = .ok (v, some 1) ∧
    run (shellStep 16) ⟨v, [], ⟨0, 0, 1⟩⟩ nameless = some mid ∧
    perform 16 mid cdNameless = .ok (after, some 3) ∧ ¬ Leads 16 after 3 := by
  have facts : ((Filesystem.RamDisk.createRoot 8 8).bind fun d =>
      (mkfile (kernelFs 16) (fun _ => 0#8) (globalVFS 16 d) [slash, 0x6f#8]).toOption.bind fun made =>
        (run (shellStep 16) ⟨made.1, [], ⟨0, 0, 1⟩⟩ nameless).bind fun mid =>
          (perform 16 mid cdNameless).toOption.map fun out =>
            (made.2, out.2, (openNode (kernelFs 16) out.1.vfs out.1.currDir).toOption.map Prod.snd)) =
      some (some 1, some 3, some (some 2)) := by
    decide +kernel
  obtain ⟨d, created, facts⟩ := Option.bind_eq_some_iff.mp facts
  obtain ⟨⟨v, node⟩, made, facts⟩ := Option.bind_eq_some_iff.mp facts
  obtain ⟨mid, ran, facts⟩ := Option.bind_eq_some_iff.mp facts
  obtain ⟨⟨after, opened⟩, changed, facts⟩ := Option.map_eq_some_iff.mp facts
  simp only [Prod.mk.injEq] at facts
  obtain ⟨rfl, rfl, found⟩ := facts
  refine ⟨d, v, mid, after, created, Files.toOptionOk made, ran, Files.toOptionOk changed, fun leads => ?_⟩
  rw [leads.opens] at found
  simp [Except.toOption] at found

end DimOS.Shell
