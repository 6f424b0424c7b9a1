import Mathlib
import DimOS.Shell.CatRounds
import DimOS.Shell.Console
import DimOS.Shell.OutputStart
import DimOS.Shell.ReadLine

/-! Terminal::run beside the keyboard interrupt. The interrupts and the rounds of getch come in any order;
the return executes the line and shows what it wrote to stdout. No key code is lost, got twice or out of
order as long as stdin takes them, and the screen shows the file of stdout once. -/
namespace DimOS.Shell
open Cpp.Containers
open Devices (Keyboard KeyCode KEY_UNKNOWN KEY_RETURN KEY_BACKSPACE KEY_ESCAPE)
open Filesystem.Vfs
open Filesystem.Vfs.Open (inodeOf)
open Filesystem.Vfs.Files (mapOk)
open Filesystem.RamDisk (Disk Buffer NodeType BlockSize MaxDataBlocks taken fileBytes)
open Lib.Transition (run Guarded)
open Process.Keystrokes (keyBytes)

structure Page where
  prompt : Chars
  typed : Chars
  output : List (BitVec 8)

/- The locals of readLine are the line and what it printed. Beside the state stand the key codes that stdin
took and those that were got from it. -/
structure Terminal where
  shell : State
  stdin : Descriptor
  line : Chars × Chars
  pages : List Page
  typed : List KeyCode
  seen : List KeyCode

/- `"\e[1;31m%s @ %s/ > \e[0m"` -/
def prompt (username currDir : Chars) : Chars :=
  [0x1b#8] ++ text "[1;31m" ++ username ++ text " @ " ++ currDir ++ text "/ > " ++ [0x1b#8] ++ text "[0m"

/- What comes to the command of a line: as Surroundings, with the rounds of the game for which a key has
come. -/
structure Around where
  rest : Nat → Nat → BitVec 8
  rounds : Nat
  come : List Bool

inductive Event where
  | stroke (key : KeyCode)
  | poll (keyboard : Keyboard) (around : Around)

section
variable (fbSize : Nat) (username : Chars) (rounds : Nat)

def stroke (t : Terminal) (key : KeyCode) : Option Terminal :=
  match echoBytes fbSize (t.shell.on t.stdin) 4 (keyBytes key) with
  | .error _ => none
  | .ok s =>
    some { t with shell := s.on t.shell.stdout, stdin := s.stdout,
                  typed := if s.stdout.writeOffset = t.stdin.writeOffset then t.typed else t.typed ++ [key] }

def played (t : Terminal) (around : Around) : Option (Descriptor × List (Option KeyCode)) :=
  if (split (Cpp.Strings.chars t.line.1) blank).headD [] = text "snake" then
    inputs fbSize t.shell.vfs around.come t.stdin
  else some (t.stdin, [])

/- The end of readLine, the command, the output loop, which makes less than `rounds` rounds, and the next
prompt. -/
def enter (t : Terminal) (around : Around) : Option Terminal :=
  match played fbSize t around with
  | none => none
  | some (stdin, keys) =>
    match runLine fbSize t.shell (Cpp.Strings.chars t.line.1)
        ⟨around.rest, around.rounds, keys.map fun key => key.getD KEY_UNKNOWN⟩ with
    | .error _ => none
    | .ok s =>
      (drain fbSize rounds s []).map fun (s, output) =>
        { shell := s, stdin, line := ([0#8], []), typed := t.typed, seen := t.seen ++ keys.filterMap id,
          pages := t.pages ++ [⟨prompt username t.shell.currDir, t.line.2 ++ [0x0a#8], output⟩] }

/- One round of the loop of getch, with what follows when it gets a key code. -/
def poll (t : Terminal) (keyboard : Keyboard) (around : Around) : Option Terminal :=
  match getch fbSize t.shell.vfs t.stdin with
  | none => none
  | some (_, none) => some t
  | some (stdin, some key) =>
    match ReadLine.readKey keyboard t.line key with
    | none => none
    | some line =>
      let t := { t with stdin, line, seen := t.seen ++ [key] }
      if key ≠ KEY_RETURN then some t else enter fbSize username rounds t around

def consoleStep (t : Terminal) : Event → Option Terminal
  | .stroke key => stroke fbSize t key
  | .poll keyboard around => poll fbSize username rounds t keyboard around

end

def powerUp (start : State) (stdin : Descriptor) : Terminal := ⟨start, stdin, ([0#8], []), [], [], []⟩

variable {fbSize : Nat} {username : Chars} {rounds : Nat} {s s' : State} {t t' : Terminal}

/- touch and mkdir hang nothing below the files of stdin and stdout, and fprint does not write to them. -/
structure Discreet (s : State) (bin : Chars) (args : List Chars) : Prop where
  creates : bin = text "touch" ∨ bin = text "mkdir" → ∀ arg ∈ args.drop 1, SparesParent (formPath s.currDir arg)
  writes : bin = text "fprint" → Spares (target s args)

def DiscreetLine (s : State) (line : Chars) : Prop := Discreet s ((split line blank).headD []) (split line blank)

def DiscreetEvent (t : Terminal) : Event → Prop
  | .stroke _ => True
  | .poll _ _ => ∀ rest, t.typed = t.seen ++ KEY_RETURN :: rest → DiscreetLine t.shell (Cpp.Strings.chars t.line.1)

theorem createAdds {type : NodeType} {usage report : String} {rest : Nat → Nat → BitVec 8} {args : List Chars}
    (valid : type ≠ .INVALID) (spares : ∀ arg ∈ args.drop 1, SparesParent (formPath s.currDir arg))
    (ok : (if args.length < 2 then echo fbSize s (text usage)
      else createAll fbSize type report rest (args.drop 1) s) = .ok s') : Prints s s' := by
  split at ok
  · exact echoAdds ok
  · exact createAllAdds valid spares ok

theorem branchAdds {p : Prop} [Decidable p] {here next : Except Crash State} (first : p → here = .ok s' → Prints s s')
    (rest : next = .ok s' → Prints s s') : (if p then here else next) = .ok s' → Prints s s' := by
  by_cases own : p
  · rw [if_pos own]
    exact first own
  · rw [if_neg own]
    exact rest

theorem executeAdds {around : Surroundings} {bin : Chars} {args : List Chars} (discreet : Discreet s bin args) :
    execute fbSize around s bin args = .ok s' → Prints s s' :=
  (branchAdds fun _ ok => by
    obtain ⟨out, done, rfl⟩ := mapOk ok
    exact cdAdds done) <| (branchAdds fun _ => echoAdds) <| (branchAdds fun _ => echoCommandAdds) <|
  (branchAdds fun _ => lsAdds) <| (branchAdds fun own => createAdds (by decide) (discreet.creates (.inl own))) <|
  (branchAdds fun own => createAdds (by decide) (discreet.creates (.inr own))) <| (branchAdds fun _ => catAdds) <|
  (branchAdds fun own => fprintAdds (discreet.writes own)) <| (branchAdds fun _ => helpAdds) <|
  (branchAdds fun _ => statAdds) <| (branchAdds fun _ => snakeAdds) echoAdds

theorem runLineAdds {line : Chars} {around : Surroundings} (discreet : DiscreetLine s line)
    (ok : runLine fbSize s line around = .ok s') : Prints s s' := by
  rw [runLineEq] at ok
  exact executeAdds discreet ok

def Terminal.shown (t : Terminal) : List (BitVec 8) := t.pages.flatMap Page.output

structure Running (t : Terminal) : Prop where
  keys : Keys t.shell t.stdin t.shown t.shown t.typed t.seen
  line : ∃ text, t.line.1 = text ++ [0#8]

theorem strokeRuns (h : Running t) (key : KeyCode) :
    ∃ t', stroke fbSize t key = some t' ∧ Running t' ∧
      (t'.typed = t.typed ++ [key] ∨ t'.typed = t.typed ∧ BlockSize ∣ 4 * t.typed.length) := by
  obtain ⟨s, count, echoed, bound, stuck, place, queues⟩ := @echoBytesQueues fbSize (t.shell.on t.stdin) stdinName
    stdoutName t.shell.stdout (codes t.typed) (codes t.seen) t.shown t.shown h.keys.queues.swap 4 (keyBytes key)
  rw [codesLength] at stuck
  have short := queues.own.fifo.short
  have before : t.stdin.writeOffset = 4 * t.typed.length :=
    h.keys.queues.else'.fifo.writeOffset.trans (codesLength _)
  have after : s.stdout.writeOffset = 4 * t.typed.length + count := by
    refine queues.own.fifo.writeOffset.trans ?_
    simp only [session, List.length_append, codesLength, Process.takenLength]
  simp only [session, List.length_append, codesLength, Process.takenLength] at short
  refine ⟨_, by rw [stroke, echoed], ?_⟩
  have whole : count = 4 ∨ count = 0 ∧ BlockSize ∣ 4 * t.typed.length := by
    unfold MaxDataBlocks BlockSize at *
    omega
  rcases whole with rfl | ⟨rfl, full⟩
  · have moved : s.stdout.writeOffset ≠ t.stdin.writeOffset := by omega
    rw [if_neg moved]
    rw [← codesAppend] at queues
    exact ⟨⟨⟨queues.swap, h.keys.order.trans (List.prefix_append _ _)⟩, h.line⟩, .inl rfl⟩
  · have stays : s.stdout.writeOffset = t.stdin.writeOffset := by omega
    rw [if_pos stays]
    have same : codes t.typed ++ taken (keyBytes key) 0 = codes t.typed := by simp [taken]
    rw [same] at queues
    exact ⟨⟨⟨queues.swap, h.keys.order⟩, h.line⟩, .inr ⟨rfl, full⟩⟩

theorem playedKeys (h : Running t) (around : Around) :
    ∃ stdin keys, played fbSize t around = some (stdin, keys) ∧
      Keys t.shell stdin t.shown t.shown t.typed (t.seen ++ keys.filterMap id) := by
  unfold played
  split
  · exact inputsKeys h.keys
  · exact ⟨t.stdin, [], rfl, by simpa using h.keys⟩

theorem enterRuns (enough : 3 < rounds) (h : Running t) (discreet : DiscreetLine t.shell (Cpp.Strings.chars t.line.1))
    {around : Around} {stdin : Descriptor} {keys : List (Option KeyCode)}
    (got : played fbSize t around = some (stdin, keys))
    (ran : runLine fbSize t.shell (Cpp.Strings.chars t.line.1)
      ⟨around.rest, around.rounds, keys.map fun key => key.getD KEY_UNKNOWN⟩ = .ok s) :
    ∃ t', enter fbSize username rounds t around = some t' ∧ Running t' ∧
      t'.shown = fileBytes s.vfs.disk.1 (fileInode s) := by
  obtain ⟨stdin', keys', told, next⟩ := @playedKeys fbSize t h around
  cases Option.some.inj (got.symm.trans told)
  obtain ⟨more, queues⟩ := runLineAdds discreet ran stdin _ _ _ _ next.queues
  have short := queues.own.fifo.short
  have file := queues.own.fifo.file
  simp only [session] at short file
  obtain ⟨left, rfl⟩ : ∃ left, rounds = left + 1 := ⟨rounds - 1, by omega⟩
  obtain ⟨last, drained, done⟩ := @drainQueues fbSize s stdoutName stdinName stdin _ _ _ _ left queues [] (by
    unfold DataChunkSize MaxDataBlocks BlockSize at *
    omega)
  rw [List.drop_left, List.nil_append] at drained
  refine ⟨_, by rw [enter, got]; dsimp only; rw [ran]; dsimp only; rw [drained, Option.map_some], ?_⟩
  have shown : (t.pages ++ [(⟨prompt username t.shell.currDir, t.line.2 ++ [0x0a#8], more⟩ : Page)]).flatMap Page.output =
      t.shown ++ more := by
    simp [Terminal.shown]
  refine ⟨⟨⟨?_, next.order⟩, ⟨[], rfl⟩⟩, shown.trans file.symm⟩
  unfold Terminal.shown
  rw [shown]
  exact done

def command (fbSize : Nat) (t : Terminal) (around : Around) : Option (Except Crash State) :=
  match getch fbSize t.shell.vfs t.stdin with
  | some (stdin, some _) =>
    (played fbSize { t with stdin } around).map fun (_, keys) => runLine fbSize t.shell (Cpp.Strings.chars t.line.1)
      ⟨around.rest, around.rounds, keys.map fun key => key.getD KEY_UNKNOWN⟩
  | _ => none

/- What ends the kernel: a deletion from the empty line, and a command that crashes. -/
def Fatal (fbSize : Nat) (t : Terminal) : Event → Prop
  | .stroke _ => False
  | .poll _ around => ∃ key rest, t.typed = t.seen ++ key :: rest ∧
      (key = KEY_BACKSPACE ∧ t.line.1 = [0#8] ∨
        key = KEY_RETURN ∧ ∃ crash, command fbSize t around = some (.error crash))

structure Polled (fbSize : Nat) (t : Terminal) (keyboard : Keyboard) (around : Around) (t' : Terminal) : Prop where
  typed : t'.typed = t.typed
  waits : t.seen = t.typed → t' = t
  edits : ∀ key rest, t.typed = t.seen ++ key :: rest → key ≠ KEY_RETURN →
    t'.seen = t.seen ++ [key] ∧ ReadLine.readKey keyboard t.line key = some t'.line ∧ t'.pages = t.pages ∧
      t'.shell = t.shell
  enters : ∀ rest, t.typed = t.seen ++ KEY_RETURN :: rest →
    t.seen ++ [KEY_RETURN] <+: t'.seen ∧ t'.line = ([0#8], []) ∧
      ∃ page s, t'.pages = t.pages ++ [page] ∧ page.typed = t.line.2 ++ [0x0a#8] ∧
        t.shown ++ page.output = fileBytes s.vfs.disk.1 (fileInode s) ∧
        command fbSize t around = some (.ok s)

theorem returnRuns (enough : 3 < rounds) (h : Running t) {keyboard : Keyboard} {around : Around} {stdin : Descriptor}
    (discreet : DiscreetLine t.shell (Cpp.Strings.chars t.line.1))
    (told : getch fbSize t.shell.vfs t.stdin = some (stdin, some KEY_RETURN))
    (next : Keys t.shell stdin t.shown t.shown t.typed (t.seen ++ [KEY_RETURN])) :
    (∃ crash, command fbSize t around = some (.error crash) ∧ poll fbSize username rounds t keyboard around = none) ∨
      ∃ s t' page, command fbSize t around = some (.ok s) ∧ poll fbSize username rounds t keyboard around = some t' ∧
        Running t' ∧ t'.typed = t.typed ∧ t.seen ++ [KEY_RETURN] <+: t'.seen ∧ t'.line = ([0#8], []) ∧
        t'.pages = t.pages ++ [page] ∧ page.typed = t.line.2 ++ [0x0a#8] ∧
        t.shown ++ page.output = fileBytes s.vfs.disk.1 (fileInode s) := by
  have running : Running { t with stdin, seen := t.seen ++ [KEY_RETURN] } := ⟨next, h.line⟩
  obtain ⟨stdin', keys, got, -⟩ := @playedKeys fbSize _ running around
  have entered : command fbSize t around = some (runLine fbSize t.shell (Cpp.Strings.chars t.line.1)
      ⟨around.rest, around.rounds, keys.map fun key => key.getD KEY_UNKNOWN⟩) := by
    have got' : played fbSize { t with stdin } around = some (stdin', keys) := got
    rw [command, told]
    dsimp only
    rw [got', Option.map_some]
  have polled : poll fbSize username rounds t keyboard around =
      enter fbSize username rounds { t with stdin, seen := t.seen ++ [KEY_RETURN] } around := by
    rw [poll, told]
    dsimp only
    rw [ReadLine.returnKey]
    dsimp only
    rw [if_neg (not_not.mpr rfl)]
  rw [polled, entered]
  cases ran : runLine fbSize t.shell (Cpp.Strings.chars t.line.1)
      ⟨around.rest, around.rounds, keys.map fun key => key.getD KEY_UNKNOWN⟩ with
  | error crash =>
    left
    refine ⟨crash, rfl, ?_⟩
    rw [enter, got]
    dsimp only
    rw [ran]
  | ok s =>
    right
    obtain ⟨t', made, running', shown⟩ := @enterRuns fbSize username rounds s
      { t with stdin, seen := t.seen ++ [KEY_RETURN] } enough running discreet around stdin' keys got ran
    have shape := made
    rw [enter, got] at shape
    dsimp only at shape
    rw [ran] at shape
    obtain ⟨⟨last, output⟩, -, rfl⟩ := Option.map_eq_some_iff.mp shape
    refine ⟨s, _, _, rfl, made, running', rfl, List.prefix_append _ _, rfl, rfl, rfl, ?_⟩
    rw [← shown]
    simp [Terminal.shown]

theorem headOf {key key' : KeyCode} {seen rest rest' : List KeyCode} (same : seen ++ key :: rest = seen ++ key' :: rest') :
    key = key' := (List.cons.inj (List.append_cancel_left same)).1

theorem pollRuns (enough : 3 < rounds) (h : Running t) {keyboard : Keyboard} {around : Around}
    (discreet : DiscreetEvent t (.poll keyboard around)) :
    (Fatal fbSize t (.poll keyboard around) ∧ poll fbSize username rounds t keyboard around = none) ∨
      (¬ Fatal fbSize t (.poll keyboard around) ∧ ∃ t', poll fbSize username rounds t keyboard around = some t' ∧
        Running t' ∧ Polled fbSize t keyboard around t') := by
  rcases @getchKeys fbSize t.shell t.stdin t.shown t.shown t.typed t.seen h.keys with
    ⟨none, told⟩ | ⟨stdin, key, rest, left, told, next⟩
  · right
    have empty : ∀ key rest, t.typed ≠ t.seen ++ key :: rest := fun key rest some' => by
      rw [none] at some'
      simp at some'
    refine ⟨fun ⟨key, rest, some', _⟩ => empty key rest some', t, by rw [poll, told], h, rfl, fun _ => rfl, ?_, ?_⟩
    · exact fun key rest some' _ => absurd some' (empty key rest)
    · exact fun rest some' => absurd some' (empty KEY_RETURN rest)
  · obtain ⟨line, shape⟩ := h.line
    have first : ∀ key' rest', t.typed = t.seen ++ key' :: rest' → key' = key := fun key' rest' left' =>
      headOf (left'.symm.trans left)
    have some' : ¬ t.seen = t.typed := fun all => by
      rw [left] at all
      simp at all
    have pair : t.line = (line ++ [0#8], t.line.2) := by rw [← shape]
    rcases ReadLine.readKeyEq keyboard line t.line.2 key with ⟨deletes, empty, fails⟩ | ⟨fine, printed, reads⟩
    · left
      rw [← pair] at fails
      refine ⟨⟨key, rest, left, .inl ⟨deletes, by rw [shape, empty]; rfl⟩⟩, ?_⟩
      rw [poll, told]
      dsimp only
      rw [fails]
    · rw [← pair] at reads
      have kept : ¬ (key = KEY_BACKSPACE ∧ t.line.1 = [0#8]) := by
        rintro ⟨deletes, empty⟩
        rw [shape] at empty
        exact fine deletes (by simpa using empty)
      by_cases ends : key = KEY_RETURN
      · subst ends
        rcases @returnRuns fbSize username rounds t enough h keyboard around stdin (discreet rest left) told next with
          ⟨crash, crashed, stuck⟩ | ⟨s, t', page, ran, made, running, typed, seen, line', pages, printed', output⟩
        · exact .inl ⟨⟨KEY_RETURN, rest, left, .inr ⟨rfl, crash, crashed⟩⟩, stuck⟩
        · right
          refine ⟨?_, t', made, running, typed, fun all => absurd all some', fun key rest' left' other => ?_,
            fun rest' _ => ⟨seen, line', page, s, pages, printed', output, ran⟩⟩
          · rintro ⟨key, rest', left', deletes | ⟨-, crash, crashed⟩⟩
            · rw [first key rest' left'] at deletes
              exact kept deletes
            · cases Option.some.inj (crashed.symm.trans ran)
          · exact absurd (first key rest' left') other
      · right
        refine ⟨?_, ⟨t.shell, stdin, (ReadLine.edit keyboard line key ++ [0#8], printed), t.pages, t.typed,
          t.seen ++ [key]⟩, ?_, ⟨next, ⟨_, rfl⟩⟩, rfl, fun all => absurd all some', ?_, ?_⟩
        · rintro ⟨key', rest', left', deletes | ⟨ends', -⟩⟩
          · rw [first key' rest' left'] at deletes
            exact kept deletes
          · rw [first key' rest' left'] at ends'
            exact ends ends'
        · rw [poll, told]
          dsimp only
          rw [reads]
          dsimp only
          rw [if_pos ends]
        · intro key' rest' left' _
          obtain rfl := first key' rest' left'
          exact ⟨rfl, reads, rfl, rfl⟩
        · exact fun rest' left' => absurd (first KEY_RETURN rest' left').symm ends

theorem stepRuns (enough : 3 < rounds) {e : Event} (h : Running t) (discreet : DiscreetEvent t e)
    (made : consoleStep fbSize username rounds t e = some t') : Running t' := by
  cases e with
  | stroke key =>
    obtain ⟨t'', again, running, -⟩ := @strokeRuns fbSize t h key
    cases Option.some.inj (made.symm.trans again)
    exact running
  | poll keyboard around =>
    rcases @pollRuns fbSize username rounds t enough h keyboard around discreet with
      ⟨-, stuck⟩ | ⟨-, t'', again, running, -⟩
    · cases made.symm.trans stuck
    · cases Option.some.inj (made.symm.trans again)
      exact running

def Event.key : Event → Option KeyCode
  | .stroke key => some key
  | .poll _ _ => none

theorem stepTyped {e : Event} (made : consoleStep fbSize username rounds t e = some t') :
    t'.typed.Sublist (t.typed ++ e.key.toList) := by
  cases e with
  | stroke key =>
    simp only [consoleStep, stroke] at made
    split at made
    · cases made
    · cases made
      dsimp only
      split
      · exact List.sublist_append_left _ _
      · exact .refl _
  | poll keyboard around =>
    have same : t'.typed = t.typed := by
      simp only [consoleStep, poll] at made
      split at made
      · cases made
      · cases made
        rfl
      · split at made
        · cases made
        · split at made
          · cases made
            rfl
          · simp only [enter] at made
            split at made
            · cases made
            · split at made
              · cases made
              · obtain ⟨out, -, rfl⟩ := Option.map_eq_some_iff.mp made
                rfl
    rw [same]
    simp [Event.key]

theorem runTyped {events : List Event} (reached : run (consoleStep fbSize username rounds) t events = some t') :
    t'.typed.Sublist (t.typed ++ events.filterMap Event.key) := by
  induction events generalizing t with
  | nil =>
    cases Option.some.inj reached
    simp
  | cons e rest ih =>
    obtain ⟨mid, made, reached⟩ := Option.bind_eq_some_iff.mp reached
    refine (ih reached).trans ?_
    have first := (stepTyped made).append_right (rest.filterMap Event.key)
    rw [List.append_assoc] at first
    cases key : e.key with
    | none =>
      rw [key, Option.toList_none, List.nil_append] at first
      rwa [List.filterMap_cons_none key]
    | some code =>
      rw [key, Option.toList_some, List.singleton_append] at first
      rwa [List.filterMap_cons_some key]

theorem sessionRuns {nodeCount blockCount : Nat} {rest : Nat → Nat → BitVec 8} {start : State} {stdin : Descriptor}
    (enough : 3 < rounds) (booted : bootConsole fbSize nodeCount blockCount rest = some (start, stdin))
    {events : List Event} (discreet : Guarded (consoleStep fbSize username rounds) DiscreetEvent (powerUp start stdin) events)
    (reached : run (consoleStep fbSize username rounds) (powerUp start stdin) events = some t) : Running t := by
  have begun : Running (powerUp start stdin) := ⟨⟨bootQueues booted, List.prefix_refl _⟩, [], rfl⟩
  exact Lib.Transition.invariantRun Running (fun _ _ _ kept fine made => stepRuns enough kept fine made) begun discreet
    reached

/- Interrupts between the lines change nothing about which lines are harmless. -/
theorem sessionHarmless {nodeCount blockCount : Nat} {rest : Nat → Nat → BitVec 8} {start : State} {stdin : Descriptor}
    (enough : 3 < rounds) (small : fbSize < 2 ^ 32)
    (booted : bootConsole fbSize nodeCount blockCount rest = some (start, stdin)) {events : List Event}
    (discreet : Guarded (consoleStep fbSize username rounds) DiscreetEvent (powerUp start stdin) events)
    (reached : run (consoleStep fbSize username rounds) (powerUp start stdin) events = some t) (line : Chars) :
    Harmless fbSize t.shell line ↔ FineLine fbSize t.shell line :=
  harmlessFine small (sessionRuns enough booted discreet reached).keys.queues.own.sturdy line

def pwdEvents : List Event :=
  let around : Around := ⟨fun _ _ => 0#8, 0, []⟩
  [.stroke Devices.KEY_P, .poll Keyboard.initial around, .stroke Devices.KEY_W, .stroke Devices.KEY_D,
    .stroke KEY_RETURN, .poll Keyboard.initial around, .poll Keyboard.initial around, .poll Keyboard.initial around]

def pwdRun (events : List Event) : Option Terminal :=
  (bootConsole 16 8 8 (fun _ _ => 0#8)).bind fun out =>
    run (consoleStep 16 (text "prince") 4) (powerUp out.1 out.2) events

theorem pwdDiscreet {start : State} {stdin : Descriptor}
    (booted : bootConsole 16 8 8 (fun _ _ => 0#8) = some (start, stdin)) :
    Guarded (consoleStep 16 (text "prince") 4) DiscreetEvent (powerUp start stdin) pwdEvents := by
  intro pre e post mid shape ran
  have plain : ∀ i, i < 9 → ((pwdRun (pwdEvents.take i)).all fun t =>
      [text "touch", text "mkdir", text "fprint"].all fun bin =>
        (split (Cpp.Strings.chars t.line.1) blank).headD [] != bin) = true := by decide +kernel
  have length : pre.length < 9 := by
    have whole := congrArg List.length shape
    simp [pwdEvents] at whole
    omega
  have here := plain pre.length length
  rw [shape, List.take_left, pwdRun, booted, Option.bind_some, ran] at here
  simp only [Option.all_some, List.all_cons, List.all_nil, Bool.and_true, Bool.and_eq_true, bne_iff_ne] at here
  cases e with
  | stroke key => trivial
  | poll keyboard around =>
    intro rest typed
    exact ⟨fun other => by rcases other with touch | mkdir; exact absurd touch here.1; exact absurd mkdir here.2.1,
      fun fprint => absurd fprint here.2.2⟩

theorem pwdReached : ∃ start stdin t, bootConsole 16 8 8 (fun _ _ => 0#8) = some (start, stdin) ∧
    run (consoleStep 16 (text "prince") 4) (powerUp start stdin) pwdEvents = some t ∧
      (t.seen.length, t.shown) = (4, [0x2f#8]) := by
  have ready : (pwdRun pwdEvents).map (fun t => (t.seen.length, t.shown)) = some (4, [0x2f#8]) := by decide +kernel
  obtain ⟨t, ran, facts⟩ := Option.map_eq_some_iff.mp ready
  obtain ⟨⟨start, stdin⟩, booted, ran⟩ := Option.bind_eq_some_iff.mp ran
  exact ⟨start, stdin, t, booted, ran, facts⟩

/-- From the boot on, and in every order of keyboard interrupts and rounds of getch, as long as no line leads to the
files of stdin and stdout: stdin holds key codes of the interrupts in order, 1280 at most, and getch got the first
of them, each once. The screen has shown the file of stdout from its first byte to its last, each once, 5120
bytes at most. A key code is only refused when the last block of stdin is full; and a round of getch waits, edits
the line with the next key code, or runs the command and shows all that it wrote. -/
theorem consoleTranscript {nodeCount blockCount : Nat} {rest : Nat → Nat → BitVec 8} {start : State}
    {stdin : Descriptor} (enough : 3 < rounds)
    (booted : bootConsole fbSize nodeCount blockCount rest = some (start, stdin)) (events : List Event)
    (discreet : Guarded (consoleStep fbSize username rounds) DiscreetEvent (powerUp start stdin) events)
    (reached : run (consoleStep fbSize username rounds) (powerUp start stdin) events = some t) :
    t.typed.Sublist (events.filterMap Event.key) ∧ t.seen <+: t.typed ∧ t.typed.length ≤ 1280 ∧
      codes t.typed = fileBytes t.shell.vfs.disk.1 (inodeOf t.shell.vfs t.stdin.fileNode) ∧
      t.shown = fileBytes t.shell.vfs.disk.1 (fileInode t.shell) ∧ t.shown.length ≤ 5120 ∧
      (∀ key t', consoleStep fbSize username rounds t (.stroke key) = some t' →
        t'.typed = t.typed ++ [key] ∨ t'.typed = t.typed ∧ 128 ∣ t.typed.length) ∧
      ∀ keyboard around t', DiscreetEvent t (.poll keyboard around) →
        consoleStep fbSize username rounds t (.poll keyboard around) = some t' →
        Polled fbSize t keyboard around t' := by
  have h : Running t := sessionRuns enough booted discreet reached
  have few := h.keys.queues.else'.fifo.short
  simp only [session, codesLength] at few
  refine ⟨runTyped reached, h.keys.order, by unfold MaxDataBlocks BlockSize at few; omega,
    h.keys.queues.else'.fifo.file.symm, h.keys.queues.own.fifo.file.symm, h.keys.queues.own.fifo.short, ?_, ?_⟩
  · intro key t' made
    obtain ⟨t'', again, -, typed⟩ := @strokeRuns fbSize t h key
    cases Option.some.inj (made.symm.trans again)
    refine typed.imp_right fun refused => ⟨refused.1, ?_⟩
    have full := refused.2
    unfold BlockSize at full
    omega
  · intro keyboard around t' fine made
    rcases @pollRuns fbSize username rounds t enough h keyboard around fine with ⟨-, stuck⟩ | ⟨-, t'', again, -, polled⟩
    · cases made.symm.trans stuck
    · cases Option.some.inj (made.symm.trans again)
      exact polled

theorem consoleTranscriptPwd : ∃ start stdin t, bootConsole 16 8 8 (fun _ _ => 0#8) = some (start, stdin) ∧
    run (consoleStep 16 (text "prince") 4) (powerUp start stdin) pwdEvents = some t ∧ t.seen <+: t.typed ∧
      fileBytes t.shell.vfs.disk.1 (fileInode t.shell) = [0x2f#8] := by
  obtain ⟨start, stdin, t, booted, reached, facts⟩ := pwdReached
  obtain ⟨-, order, -, -, shown, -⟩ := consoleTranscript (by decide) booted pwdEvents (pwdDiscreet booted) reached
  refine ⟨start, stdin, t, booted, reached, order, ?_⟩
  rw [← shown]
  exact (Prod.mk.inj facts).2

/- The loop that a line starts is over: cat's within its rounds, the game's by its key. -/
structure LineOver (fbSize : Nat) (s : State) (line : Chars) (rounds : Nat) (keys : List (Option KeyCode)) : Prop where
  cat : (split line blank).headD [] = text "cat" → catOver fbSize rounds s (split line blank) = true
  snake : (split line blank).headD [] = text "snake" → some KEY_ESCAPE ∈ keys

def Over (fbSize : Nat) (t : Terminal) : Event → Prop
  | .stroke _ => True
  | .poll _ around => ∀ stdin last keys, getch fbSize t.shell.vfs t.stdin = some (stdin, some KEY_RETURN) →
      played fbSize { t with stdin } around = some (last, keys) →
        LineOver fbSize t.shell (Cpp.Strings.chars t.line.1) around.rounds keys

def Event.longer (more : Nat) (come : List Bool) : Event → Event
  | .stroke key => .stroke key
  | .poll keyboard around =>
    .poll keyboard { around with rounds := around.rounds + more, come := around.come ++ come }

theorem inputsMore {v : VFS (Disk × Buffer)} {come : List Bool} {fd : Descriptor} (more : List Bool)
    (ended : ∀ last keys, inputs fbSize v come fd = some (last, keys) → some KEY_ESCAPE ∈ keys) :
    inputs fbSize v (come ++ more) fd = inputs fbSize v come fd := by
  induction come generalizing fd with
  | nil =>
    have none := ended fd [] rfl
    cases none
  | cons first rest ih =>
    rw [List.cons_append, inputs, inputs]
    rw [inputs] at ended
    cases got : (if first then getch fbSize v fd else some (fd, none)) with
    | none => rfl
    | some out =>
      obtain ⟨fd', key⟩ := out
      dsimp only
      rw [got] at ended
      dsimp only at ended
      by_cases escape : key = some KEY_ESCAPE
      · rw [if_pos escape, if_pos escape]
      · rw [if_neg escape, if_neg escape, ih]
        intro last keys played
        have mem := ended last (key :: keys) (by rw [if_neg escape, played]; rfl)
        exact (List.mem_cons.mp mem).resolve_left (Ne.symm escape)

theorem playedMore {around : Around} {more : Nat} (come : List Bool)
    (done : ∀ last keys, played fbSize t around = some (last, keys) →
      LineOver fbSize t.shell (Cpp.Strings.chars t.line.1) around.rounds keys) :
    played fbSize t { around with rounds := around.rounds + more, come := around.come ++ come } =
      played fbSize t around := by
  unfold played at *
  split
  · next game =>
    simp only [if_pos game] at done
    exact inputsMore come fun last keys got => (done last keys got).snake game
  · rfl

theorem enterMore {around : Around} (more : Nat) (come : List Bool)
    (done : ∀ last keys, played fbSize t around = some (last, keys) →
      LineOver fbSize t.shell (Cpp.Strings.chars t.line.1) around.rounds keys) :
    enter fbSize username rounds t { around with rounds := around.rounds + more, come := around.come ++ come } =
      enter fbSize username rounds t around := by
  unfold enter
  rw [playedMore come done]
  cases got : played fbSize t around with
  | none => rfl
  | some out =>
    obtain ⟨last, keys⟩ := out
    have same := @runLineMore fbSize t.shell (Cpp.Strings.chars t.line.1)
      ⟨around.rest, around.rounds, keys.map fun key => key.getD KEY_UNKNOWN⟩ more (done last keys got).cat
    dsimp only at same ⊢
    rw [same]

theorem stepMore {e : Event} (more : Nat) (come : List Bool) (done : Over fbSize t e) :
    consoleStep fbSize username rounds t (e.longer more come) = consoleStep fbSize username rounds t e := by
  cases e with
  | stroke key => rfl
  | poll keyboard around =>
    simp only [Event.longer, consoleStep, poll]
    cases got : getch fbSize t.shell.vfs t.stdin with
    | none => rfl
    | some out =>
      obtain ⟨stdin, key⟩ := out
      cases key with
      | none => rfl
      | some key =>
        dsimp only
        by_cases ends : key = KEY_RETURN
        · subst ends
          rw [ReadLine.returnKey]
          dsimp only
          rw [if_neg (not_not.mpr rfl), if_neg (not_not.mpr rfl)]
          exact enterMore more come fun last keys played => done stdin last keys got played
        · simp only [ends, not_false_eq_true, ne_eq, if_true]

/-- Whatever order brought the terminal there and however full the disk is: if the loop of a cat or of the game that
it starts ends, the next interrupt or round of getch returns, with the same outcome however long one looks, but for a
deletion from the empty line and a return whose command crashes. -/
theorem consoleGoesOn {nodeCount blockCount : Nat} {rest : Nat → Nat → BitVec 8} {start : State}
    {stdin : Descriptor} (enough : 3 < rounds)
    (booted : bootConsole fbSize nodeCount blockCount rest = some (start, stdin)) (events : List Event)
    (discreet : Guarded (consoleStep fbSize username rounds) DiscreetEvent (powerUp start stdin) events)
    (reached : run (consoleStep fbSize username rounds) (powerUp start stdin) events = some t) (e : Event)
    (fine : DiscreetEvent t e) (done : Over fbSize t e) :
    (∃ t', ∀ more come, consoleStep fbSize username rounds t (e.longer more come) = some t') ↔ ¬ Fatal fbSize t e := by
  have h : Running t := sessionRuns enough booted discreet reached
  have returns : (∃ t', ∀ more come, consoleStep fbSize username rounds t (e.longer more come) = some t') ↔
      ∃ t', consoleStep fbSize username rounds t e = some t' := by
    simp only [fun more come => @stepMore fbSize username rounds t e more come done, forall_const]
  rw [returns]
  cases e with
  | stroke key =>
    obtain ⟨t', made, -⟩ := @strokeRuns fbSize t h key
    exact ⟨fun _ fatal => fatal, fun _ => ⟨t', made⟩⟩
  | poll keyboard around =>
    rcases @pollRuns fbSize username rounds t enough h keyboard around fine with ⟨fatal, stuck⟩ | ⟨safe, t', made, -⟩
    · refine ⟨fun ⟨t', made⟩ => ?_, fun safe => absurd fatal safe⟩
      cases made.symm.trans stuck
    · exact ⟨fun _ => safe, fun _ => ⟨t', made⟩⟩

/- The return of "pwd". -/
theorem consoleGoesOnPwd : ∃ start stdin t t', bootConsole 16 8 8 (fun _ _ => 0#8) = some (start, stdin) ∧
    run (consoleStep 16 (text "prince") 4) (powerUp start stdin) (pwdEvents.take 7) = some t ∧
      ∀ more come, consoleStep 16 (text "prince") 4 t
        ((Event.poll Keyboard.initial ⟨fun _ _ => 0#8, 0, []⟩).longer more come) = some t' := by
  have ready : (pwdRun (pwdEvents.take 7)).map (fun t => (t.typed.drop t.seen.length,
      (split (Cpp.Strings.chars t.line.1) blank).headD [], (command 16 t ⟨fun _ _ => 0#8, 0, []⟩).map Except.isOk)) =
      some ([KEY_RETURN], text "pwd", some true) := by decide +kernel
  obtain ⟨t, ran, facts⟩ := Option.map_eq_some_iff.mp ready
  obtain ⟨⟨start, stdin⟩, booted, ran⟩ := Option.bind_eq_some_iff.mp ran
  simp only [Prod.mk.injEq] at facts
  obtain ⟨left, line, fine⟩ := facts
  have discreet := pwdDiscreet booted
  have before : Guarded (consoleStep 16 (text "prince") 4) DiscreetEvent (powerUp start stdin) (pwdEvents.take 7) :=
    @Lib.Transition.guardedTake _ _ _ _ _ (pwdEvents.take 7) (pwdEvents.drop 7) discreet
  have safe : ¬ Fatal 16 t (.poll Keyboard.initial ⟨fun _ _ => 0#8, 0, []⟩) := by
    rintro ⟨key, rest, typed, ⟨rfl, -⟩ | ⟨-, crash, crashed⟩⟩
    · rw [typed, List.drop_left] at left
      cases left
    · rw [crashed] at fine
      cases fine
  have done : Over 16 t (.poll Keyboard.initial ⟨fun _ _ => 0#8, 0, []⟩) := fun _ _ _ _ _ =>
    ⟨fun cat => by rw [line] at cat; exact absurd cat (by decide),
      fun snake => by rw [line] at snake; exact absurd snake (by decide)⟩
  obtain ⟨t', made⟩ := (consoleGoesOn (by decide) booted (pwdEvents.take 7) before ran
    (.poll Keyboard.initial ⟨fun _ _ => 0#8, 0, []⟩) (discreet (pwdEvents.take 7) _ [] t rfl ran) done).mpr safe
  exact ⟨start, stdin, t, t', booted, ran, made⟩

end DimOS.Shell
