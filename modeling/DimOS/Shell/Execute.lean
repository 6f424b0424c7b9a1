import Mathlib
import DimOS.Cpp.StringSplit
import DimOS.Shell.Snake
import DimOS.Shell.Sturdy

/-! Terminal::parseCommand and Terminal::execute, and when a line is executed without a crash. What a
command does not check is a condition on the line and on the tree it is entered in. -/
namespace DimOS.Shell
open Cpp.Containers
open Devices (KeyCode KEY_D)
open Filesystem.Vfs
open Filesystem.Vfs.Open (framebufferIsDevice inodeOf nodeAt)
open Filesystem.Vfs.Files (mapOk nodeAtLinked)
open Filesystem.Vfs.Lookup (Opens opensResolves resolvesOpens)
open Filesystem.RamDisk (Disk Buffer NodeType)
open Lib.Transition (run Guarded guardedConsIff)

/- What comes to a line from outside: the bytes on the stack when it creates nodes, how many rounds a cat
has made when it is looked at, and the keys of the rounds of snake. -/
structure Surroundings where
  rest : Nat → Nat → BitVec 8
  rounds : Nat
  keys : List KeyCode

def blank : BitVec 8 := 0x20#8

def parseCommand (line : Chars) : Except Crash (Chars × List Chars) :=
  let tokens := split line blank
  (argument tokens 0).map fun bin => (bin, tokens)

def execute (fbSize : Nat) (around : Surroundings) (s : State) (bin : Chars) (args : List Chars) :
    Except Crash State :=
  if bin = text "cd" then (cd fbSize s args).map Prod.fst
  else if bin = text "pwd" then pwd fbSize s
  else if bin = text "echo" then echoCommand fbSize s args
  else if bin = text "ls" then ls fbSize s
  else if bin = text "touch" then touch fbSize around.rest s args
  else if bin = text "mkdir" then mkdir fbSize around.rest s args
  else if bin = text "cat" then cat fbSize around.rounds s args
  else if bin = text "fprint" then fprint fbSize s args
  else if bin = text "help" then help fbSize s
  else if bin = text "stat" then stat fbSize s args
  else if bin = text "snake" then snake fbSize around.keys s
  else echo fbSize s (text "Command doesn't exist, type help to get help")

def runLine (fbSize : Nat) (s : State) (line : Chars) (around : Surroundings) : Except Crash State := do
  let (bin, args) ← parseCommand line
  execute fbSize around s bin args

def Malformed (bin : Chars) (args : List Chars) : Prop :=
  if bin = text "cd" then args.length ≠ 2
  else if bin = text "pwd" then False
  else if bin = text "echo" then args.length < 2
  else if bin = text "ls" then False
  else if bin = text "touch" then args.length < 2
  else if bin = text "mkdir" then args.length < 2
  else if bin = text "cat" then args.length ≠ 2
  else if bin = text "fprint" then args.length < 3
  else if bin = text "help" then False
  else if bin = text "stat" then args.length ≠ 2
  else if bin = text "snake" then False
  else True

/- However it goes on around it, no crash, and a malformed command comes down to one message. -/
def Harmless (fbSize : Nat) (s : State) (line : Chars) : Prop :=
  (∀ around, ∃ s', runLine fbSize s line around = .ok s') ∧
    (Malformed ((split line blank).headD []) (split line blank) →
      ∃ message, ∀ around, runLine fbSize s line around = echo fbSize s message)

/- The directory of the new node is looked up, and if it is one of the RamDisk there is a free inode. -/
def Creates (v : VFS (Disk × Buffer)) (path : Chars) : Prop :=
  ∀ parentPath name, cut path = some (parentPath, name) → Opens v parentPath ∧
    ∀ parent, nodeAt v (split parentPath slash) = some parent → (v.nodes parent).fileSystem = 0 →
      v.disk.1.getFreeINode ≠ none

/- Each path is fine in the state in which touch or mkdir gets to it. -/
def CreatesAll (fbSize : Nat) (type : NodeType) (report : String) (rest : Nat → Nat → BitVec 8) :
    List Chars → State → Prop
  | [], _ => True
  | arg :: args, s => Creates s.vfs (formPath s.currDir arg) ∧ ∀ v r s',
      mkNode (kernelFs fbSize) type (rest args.length) s.vfs (formPath s.currDir arg) = .ok (v, r) →
        echo fbSize { s with vfs := v } (text report ++ formPath s.currDir arg ++ text "\n") = .ok s' →
          CreatesAll fbSize type report rest args s'

def target (s : State) (args : List Chars) : Chars := formPath s.currDir ((args[1]?).getD [])

def Fine (fbSize : Nat) (s : State) (bin : Chars) (args : List Chars) : Prop :=
  if bin = text "cd" then args.length = 2 → Opens s.vfs (target s args)
  else if bin = text "pwd" then True
  else if bin = text "echo" then 2 ≤ args.length
  else if bin = text "ls" then Opens s.vfs (s.currDir ++ [slash])
  else if bin = text "touch" then
    2 ≤ args.length → ∀ rest, CreatesAll fbSize .FILE "Created file: " rest (args.drop 1) s
  else if bin = text "mkdir" then
    2 ≤ args.length → ∀ rest, CreatesAll fbSize .DIRECTORY "Created dir: " rest (args.drop 1) s
  else if bin = text "cat" then
    args.length = 2 → Opens s.vfs (target s args) ∧ nodeAt s.vfs (split (target s args) slash) ≠ none
  else if bin = text "fprint" then 3 ≤ args.length → Opens s.vfs (target s args)
  else if bin = text "help" then True
  else if bin = text "stat" then args.length = 2 → Opens s.vfs (target s args)
  else if bin = text "snake" then False
  else True

def FineLine (fbSize : Nat) (s : State) (line : Chars) : Prop :=
  Fine fbSize s ((split line blank).headD []) (split line blank)

variable {fbSize : Nat} {v : VFS (Disk × Buffer)} {s : State}

theorem openOpens {path : Chars} (opens : Opens v path) :
    openNode (kernelFs fbSize) v path = .ok (v, nodeAt v (split path slash)) := opensResolves opens

theorem opensOpen {path : Chars} {out : VFS (Disk × Buffer) × Option Nat}
    (ok : openNode (kernelFs fbSize) v path = .ok out) :
    Opens v path ∧ out = (v, nodeAt v (split path slash)) := resolvesOpens ok

theorem slashFormPath (currDir relPath : Chars) : slash ∈ formPath currDir relPath := by
  unfold formPath
  split
  · next head => exact List.mem_of_mem_head? (Option.mem_def.mpr head)
  · simp

theorem mkNodeReturns {type : NodeType} {rest : Nat → BitVec 8} {currDir relPath : Chars} (h : Solid v)
    (valid : type ≠ .INVALID) (creates : Creates v (formPath currDir relPath)) :
    ∃ v' r, mkNode (kernelFs fbSize) type rest v (formPath currDir relPath) = .ok (v', r) ∧ Kept v v' := by
  obtain ⟨parentPath, name, shape⟩ := (cutIff _).mpr (slashFormPath currDir relPath)
  obtain ⟨opens, free⟩ := creates parentPath name shape
  have found := @openOpens fbSize v parentPath opens
  unfold openNode at found
  cases at' : nodeAt v (split parentPath slash) with
  | none =>
    rw [at'] at found
    exact ⟨v, none, by simp only [mkNode, shape, found], .refl h⟩
  | some parent =>
    rw [at'] at found
    have inside := h.hung.linked (nodeAtLinked at')
    obtain ⟨⟨v', id⟩, made⟩ := (@createInReturnsIff fbSize v type rest parent name h inside).mpr (free parent at')
    exact ⟨v', some id, by simp only [mkNode, shape, found, made, Except.map],
      (createInKept h valid inside made).1⟩

theorem mkNodeCreates {type : NodeType} {rest : Nat → BitVec 8} {path : Chars} {out : VFS (Disk × Buffer) × Option Nat}
    (h : Solid v) (ok : mkNode (kernelFs fbSize) type rest v path = .ok out) : Creates v path := by
  intro parentPath name shape
  obtain ⟨v', r⟩ := out
  obtain ⟨parentPath', name', v₁, shape', cases'⟩ := mkNodeCases ok
  cases shape.symm.trans shape'
  rcases cases' with ⟨missing, -, -⟩ | ⟨parent, id, found, made, -⟩
  · obtain ⟨opens, same⟩ := opensOpen missing
    refine ⟨opens, fun parent at' _ => ?_⟩
    rw [at'] at same
    cases same
  · obtain ⟨opens, same⟩ := opensOpen found
    refine ⟨opens, fun parent' at' => ?_⟩
    rw [at'] at same
    cases same
    exact (createInReturnsIff h (h.hung.linked (nodeAtLinked at'))).mp ⟨_, made⟩

theorem createAllGoes {type : NodeType} {report : String} {rest : Nat → Nat → BitVec 8} {args : List Chars}
    (valid : type ≠ .INVALID) (h : Sturdy s) (all : CreatesAll fbSize type report rest args s) :
    Goes s (createAll fbSize type report rest args s) := by
  induction args generalizing s with
  | nil => exact h.goes
  | cons arg args ih =>
    obtain ⟨creates, later⟩ := all
    obtain ⟨v, r, made, kept⟩ := @mkNodeReturns fbSize s.vfs type (rest args.length) s.currDir arg h.solid valid creates
    obtain ⟨s₁, echoed, sturdy, kept₁⟩ := @echoGoes fbSize { s with vfs := v } (h.moves kept s.currDir)
      (text report ++ formPath s.currDir arg ++ text "\n")
    obtain ⟨last, ran, sturdy', kept'⟩ := ih sturdy (later v r s₁ made echoed)
    refine ⟨last, ?_, sturdy', kept.trans (kept₁.trans kept')⟩
    rw [createAll, made]
    show (echo fbSize { s with vfs := v } (text report ++ formPath s.currDir arg ++ text "\n") >>=
      createAll fbSize type report rest args) = _
    rw [echoed]
    exact ran

theorem createAllCreates {type : NodeType} {report : String} {rest : Nat → Nat → BitVec 8} {args : List Chars}
    {last : State} (valid : type ≠ .INVALID) (h : Sturdy s)
    (ok : createAll fbSize type report rest args s = .ok last) : CreatesAll fbSize type report rest args s := by
  induction args generalizing s with
  | nil => exact trivial
  | cons arg args ih =>
    obtain ⟨⟨v, r⟩, made, ok⟩ := bindOk ok
    obtain ⟨s₁, echoed, ok⟩ := bindOk ok
    have made := lookupOk made
    have creates := mkNodeCreates h.solid made
    refine ⟨creates, fun v' r' s' made' echoed' => ?_⟩
    cases made.symm.trans made'
    cases echoed.symm.trans echoed'
    obtain ⟨v₂, r₂, again, kept⟩ := @mkNodeReturns fbSize s.vfs type (rest args.length) s.currDir arg h.solid valid creates
    cases made.symm.trans again
    obtain ⟨s₂, echoed₂, sturdy, -⟩ := @echoGoes fbSize { s with vfs := v } (h.moves kept s.currDir)
      (text report ++ formPath s.currDir arg ++ text "\n")
    cases echoed.symm.trans echoed₂
    exact ih sturdy ok

theorem targetOpened {args : List Chars} (two : 2 ≤ args.length) (opens : Opens s.vfs (target s args)) :
    ∃ arg, argument args 1 = .ok arg ∧ target s args = formPath s.currDir arg ∧
      lookup (openNode (kernelFs fbSize) s.vfs (formPath s.currDir arg)) =
        .ok (s.vfs, nodeAt s.vfs (split (target s args) slash)) := by
  have given : args[1]? = some args[1] := List.getElem?_eq_getElem two
  have path : target s args = formPath s.currDir args[1] := by rw [target, given]; rfl
  refine ⟨args[1], by rw [argument, given], path, ?_⟩
  rw [← path, openOpens opens]
  rfl

theorem openedTarget {args : List Chars} {arg : Chars} {found : VFS (Disk × Buffer) × Option Nat}
    (given : argument args 1 = .ok arg)
    (opened : lookup (openNode (kernelFs fbSize) s.vfs (formPath s.currDir arg)) = .ok found) :
    Opens s.vfs (target s args) ∧ found = (s.vfs, nodeAt s.vfs (split (target s args) slash)) := by
  have path : target s args = formPath s.currDir arg := by
    unfold argument at given
    unfold target
    split at given
    · cases given
    · next here =>
      cases given
      rw [here]
      rfl
  rw [path]
  exact opensOpen (lookupOk opened)

structure Answers (fbSize : Nat) (s : State) (command : Surroundings → Except Crash State) (fine malformed : Prop) :
    Prop where
  goes : fine → ∀ around, Goes s (command around)
  asks : (∀ around, ∃ s', command around = .ok s') → fine
  reports : fine → malformed → ∃ message, ∀ around, command around = echo fbSize s message

theorem Answers.branch {p : Prop} [Decidable p] {here next : Surroundings → Except Crash State}
    {fine fine' malformed malformed' : Prop} (first : Answers fbSize s here fine malformed)
    (rest : Answers fbSize s next fine' malformed') :
    Answers fbSize s (fun around => if p then here around else next around) (if p then fine else fine')
      (if p then malformed else malformed') := by
  by_cases own : p
  · simp only [if_pos own]
    exact first
  · simp only [if_neg own]
    exact rest

def quiet : Surroundings := ⟨fun _ _ => 0#8, 0, []⟩

theorem plainAnswers {x : Except Crash State} (goes : Goes s x) : Answers fbSize s (fun _ => x) True False where
  goes _ _ := goes
  asks _ := trivial
  reports _ bad := bad.elim

theorem unknownAnswers (h : Sturdy s) (message : Chars) :
    Answers fbSize s (fun _ => echo fbSize s message) True True where
  goes _ _ := echoGoes h message
  asks _ := trivial
  reports _ _ := ⟨message, fun _ => rfl⟩

theorem echoAnswers (h : Sturdy s) (args : List Chars) :
    Answers fbSize s (fun _ => echoCommand fbSize s args) (2 ≤ args.length) (args.length < 2) where
  goes two _ := by
    have given : args[1]? = some args[1] := List.getElem?_eq_getElem two
    rw [echoCommand, argument, given]
    exact echoGoes h _
  asks all := by
    obtain ⟨s', ok⟩ := all quiet
    obtain ⟨arg, given, -⟩ := bindOk ok
    unfold argument at given
    split at given
    · cases given
    · next here => exact (List.getElem?_eq_some_iff.mp here).1
  reports two bad := absurd two (by omega)

theorem echoPair (x : Except Crash State) (node : Option Nat) : (x.map fun s => (s, node)).map Prod.fst = x := by
  cases x <;> rfl

def Bin.name : Bin → Chars
  | .cd => text "cd"
  | .pwd => text "pwd"
  | .echo => text "echo"
  | .ls => text "ls"
  | .touch => text "touch"
  | .mkdir => text "mkdir"
  | .cat => text "cat"
  | .fprint => text "fprint"
  | .help => text "help"
  | .stat => text "stat"

theorem executePerform (fbSize : Nat) (around : Surroundings) (s : State) (bin : Bin) (args : List Chars) :
    execute fbSize around s bin.name args =
      (perform fbSize s ⟨bin, args, around.rest, around.rounds⟩).map Prod.fst := by
  cases bin
  case cd => rfl
  all_goals exact (echoPair _ none).symm

theorem cdAnswers (h : Sturdy s) (args : List Chars) :
    Answers fbSize s (fun _ => (cd fbSize s args).map Prod.fst) (args.length = 2 → Opens s.vfs (target s args))
      (args.length ≠ 2) where
  goes fine _ := by
    unfold cd
    split
    · rw [echoPair]
      exact echoGoes h _
    · next usage =>
      obtain ⟨arg, given, path, opened⟩ := @targetOpened fbSize s args (by omega) (fine (by omega))
      simp only [given, opened, bind, Except.bind]
      cases nodeAt s.vfs (split (target s args) slash) with
      | none =>
        dsimp only
        rw [echoPair]
        exact echoGoes h _
      | some node =>
        dsimp only
        split <;> rw [echoPair]
        · exact echoGoes h _
        · exact @echoGoes fbSize { s with currDir := stripSlashes (formPath s.currDir arg) }
            (h.moves (.refl h.solid) _) (text "Changed dir")
  asks all usage := by
    obtain ⟨s', ok⟩ := all quiet
    obtain ⟨out, ok, -⟩ := mapOk ok
    unfold cd at ok
    rw [if_neg (not_not.mpr usage)] at ok
    obtain ⟨arg, given, ok⟩ := bindOk ok
    obtain ⟨found, opened, -⟩ := bindOk ok
    exact (openedTarget given opened).1
  reports _ bad := ⟨_, fun _ => by rw [cd, if_pos bad, echoPair]⟩

theorem statAnswers (h : Sturdy s) (args : List Chars) :
    Answers fbSize s (fun _ => stat fbSize s args) (args.length = 2 → Opens s.vfs (target s args))
      (args.length ≠ 2) where
  goes fine _ := by
    unfold stat
    split
    · exact echoGoes h _
    · next usage =>
      obtain ⟨arg, given, path, opened⟩ := @targetOpened fbSize s args (by omega) (fine (by omega))
      simp only [given, opened, bind, Except.bind]
      cases nodeAt s.vfs (split (target s args) slash) with
      | none => exact echoGoes h _
      | some node => exact echoAllGoes h _
  asks all usage := by
    obtain ⟨s', ok⟩ := all quiet
    unfold stat at ok
    rw [if_neg (not_not.mpr usage)] at ok
    obtain ⟨arg, given, ok⟩ := bindOk ok
    obtain ⟨found, opened, -⟩ := bindOk ok
    exact (openedTarget given opened).1
  reports _ bad := ⟨_, fun _ => by rw [stat, if_pos bad]⟩

theorem fprintAnswers (h : Sturdy s) (args : List Chars) :
    Answers fbSize s (fun _ => fprint fbSize s args) (3 ≤ args.length → Opens s.vfs (target s args))
      (args.length < 3) where
  goes fine _ := by
    unfold fprint
    split
    · exact echoGoes h _
    · next usage =>
      obtain ⟨arg, given, path, opened⟩ := @targetOpened fbSize s args (by omega) (fine (by omega))
      simp only [given, opened, bind, Except.bind]
      cases nodeAt s.vfs (split (target s args) slash) with
      | none => exact echoGoes h _
      | some node =>
        obtain ⟨v', bytes, wrote, kept, -⟩ := @nodeWriteKept fbSize s.vfs node 0
          ((joinArgs (args.drop 2)).length % 2 ^ 32) (bytesOf (joinArgs (args.drop 2))) h.solid
          (fun _ => .inl (Nat.zero_le _)) (fun _ => ⟨rfl, Nat.mod_lt _ (by decide)⟩)
        dsimp only
        rw [wrote]
        exact ⟨_, rfl, h.moves kept s.currDir, kept⟩
  asks all usage := by
    obtain ⟨s', ok⟩ := all quiet
    unfold fprint at ok
    rw [if_neg (by omega)] at ok
    obtain ⟨arg, given, ok⟩ := bindOk ok
    obtain ⟨found, opened, -⟩ := bindOk ok
    exact (openedTarget given opened).1
  reports _ bad := ⟨_, fun _ => by rw [fprint, if_pos bad]⟩

theorem catAnswers (small : fbSize < 2 ^ 32) (h : Sturdy s) (args : List Chars) :
    Answers fbSize s (fun around => cat fbSize around.rounds s args)
      (args.length = 2 → Opens s.vfs (target s args) ∧ nodeAt s.vfs (split (target s args) slash) ≠ none)
      (args.length ≠ 2) where
  goes fine around := by
    unfold cat
    split
    · exact echoGoes h _
    · next usage =>
      obtain ⟨opens, there⟩ := fine (by omega)
      obtain ⟨node, found⟩ := Option.ne_none_iff_exists'.mp there
      obtain ⟨arg, given, path, opened⟩ := @targetOpened fbSize s args (by omega) opens
      rw [found] at opened
      simp only [given, opened, bind, Except.bind]
      exact catLoopGoes small around.rounds _ h (h.solid.hung.linked (nodeAtLinked found)) (fun _ => Nat.zero_le _)
  asks all usage := by
    obtain ⟨s', ok⟩ := all quiet
    unfold cat at ok
    rw [if_neg (not_not.mpr usage)] at ok
    obtain ⟨arg, given, ok⟩ := bindOk ok
    obtain ⟨found, opened, ok⟩ := bindOk ok
    obtain ⟨opens, rfl⟩ := openedTarget given opened
    refine ⟨opens, fun missing => ?_⟩
    dsimp only at ok
    rw [missing] at ok
    cases ok
  reports _ bad := ⟨_, fun _ => by rw [cat, if_pos bad]⟩

theorem lsAnswers (h : Sturdy s) : Answers fbSize s (fun _ => ls fbSize s) (Opens s.vfs (s.currDir ++ [slash])) False where
  goes fine _ := by
    have opened := @openOpens fbSize s.vfs _ fine
    unfold openNode at opened
    unfold ls readDir
    simp only [opened]
    cases nodeAt s.vfs (split (s.currDir ++ [slash]) slash) with
    | none => exact lsLoopGoes h _
    | some node => exact lsLoopGoes h _
  asks all := by
    obtain ⟨s', ok⟩ := all quiet
    obtain ⟨out, listed, -⟩ := bindOk ok
    have listed := lookupOk listed
    unfold readDir at listed
    split at listed
    · cases listed
    · next found => exact (opensOpen found).1
    · next found => exact (opensOpen found).1
  reports _ bad := bad.elim

theorem createAnswers {type : NodeType} {usage report : String} (valid : type ≠ .INVALID) (h : Sturdy s)
    (args : List Chars) :
    Answers fbSize s
      (fun around => if args.length < 2 then echo fbSize s (text usage)
        else createAll fbSize type report around.rest (args.drop 1) s)
      (2 ≤ args.length → ∀ rest, CreatesAll fbSize type report rest (args.drop 1) s) (args.length < 2) where
  goes fine around := by
    split
    · exact echoGoes h _
    · exact createAllGoes valid h (fine (by omega) around.rest)
  asks all two rest := by
    obtain ⟨s', ok⟩ := all ⟨rest, 0, []⟩
    rw [if_neg (by omega)] at ok
    exact createAllCreates valid h ok
  reports _ bad := ⟨text usage, fun _ => if_pos bad⟩

theorem snakeAnswers : Answers fbSize s (fun around => snake fbSize around.keys s) False False where
  goes fine := fine.elim
  asks all := by
    obtain ⟨s', ok⟩ := all ⟨fun _ _ => 0#8, 0, List.replicate 31 KEY_D⟩
    exact snakeCrashes fbSize s s' ok
  reports _ bad := bad.elim

theorem executeAnswers (small : fbSize < 2 ^ 32) (h : Sturdy s) (bin : Chars) (args : List Chars) :
    Answers fbSize s (fun around => execute fbSize around s bin args) (Fine fbSize s bin args)
      (Malformed bin args) :=
  (cdAnswers h args).branch <| (plainAnswers (echoGoes h _)).branch <| (echoAnswers h args).branch <|
    (lsAnswers h).branch <| (createAnswers (by decide) h args).branch <| (createAnswers (by decide) h args).branch <|
    (catAnswers small h args).branch <| (fprintAnswers h args).branch <| (plainAnswers (helpGoes h)).branch <|
    (statAnswers h args).branch <| snakeAnswers.branch (unknownAnswers h _)

theorem runLineEq (line : Chars) (around : Surroundings) : runLine fbSize s line around =
    execute fbSize around s ((split line blank).headD []) (split line blank) := by
  obtain ⟨bin, rest, shape⟩ := List.exists_cons_of_ne_nil (Cpp.StringSplit.splitFilled line blank)
  unfold runLine parseCommand
  rw [shape]
  rfl

theorem harmlessFine (small : fbSize < 2 ^ 32) (h : Sturdy s) (line : Chars) :
    Harmless fbSize s line ↔ FineLine fbSize s line := by
  have answers := @executeAnswers fbSize s small h ((split line blank).headD []) (split line blank)
  unfold Harmless FineLine
  simp only [runLineEq]
  constructor
  · rintro ⟨all, -⟩
    exact answers.asks all
  · intro fine
    refine ⟨fun around => ?_, answers.reports fine⟩
    obtain ⟨s', ran, -⟩ := answers.goes fine around
    exact ⟨s', ran⟩

def lineStep (fbSize : Nat) (s : State) (line : Chars × Surroundings) : Option State :=
  (runLine fbSize s line.1 line.2).toOption

theorem linesRun (small : fbSize < 2 ^ 32) {lines : List (Chars × Surroundings)} (h : Sturdy s)
    (fine : Guarded (lineStep fbSize) (fun s line => FineLine fbSize s line.1) s lines) :
    ∃ last, run (lineStep fbSize) s lines = some last ∧ Sturdy last := by
  induction lines generalizing s with
  | nil => exact ⟨s, rfl, h⟩
  | cons line lines ih =>
    obtain ⟨first, later⟩ := guardedConsIff.mp fine
    obtain ⟨s', ran, sturdy, -⟩ := (executeAnswers small h _ _).goes first line.2
    rw [← runLineEq] at ran
    have taken : lineStep fbSize s line = some s' := by rw [lineStep, ran]; rfl
    obtain ⟨last, reached, sturdy'⟩ := ih sturdy (later s' taken)
    exact ⟨last, by rw [run, taken]; exact reached, sturdy'⟩

end DimOS.Shell
