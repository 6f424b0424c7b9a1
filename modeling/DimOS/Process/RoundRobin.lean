import Mathlib.Data.List.Rotate
import DimOS.Lib.Transition
import DimOS.Lib.Turns
import DimOS.Process.Scheduler

/-! The order of turns. A queue is read off the task vector: the tasks in the order in which the loop
of getNext asks them, the previous task last. Removing a completed task moves one of the others to
the end of that queue. -/
namespace DimOS.Process.RoundRobin
open Lib.Turns
open RRScheduler
open Lib.Transition (run Visits Guarded guardedConsIff guardedNil)

structure Round where
  tasks : List Thread
  curr : Nat

def withStates (tasks : List Thread) (states : Nat → TaskState) : List Thread :=
  tasks.map (fun t => { t with state := states t.id })

def turn (s : Round) (states : Nat → TaskState) : Option Round :=
  let next := getNext (withStates s.tasks states) s.curr
  if next.1 = next.2.length then none else some ⟨next.2, next.1⟩

def selected (s : Round) : Option Nat := s.tasks[s.curr]?.map Thread.id

def ids (tasks : List Thread) : List Nat := tasks.map Thread.id

theorem withStatesIds (tasks : List Thread) (states : Nat → TaskState) :
    ids (withStates tasks states) = ids tasks := by
  simp [ids, withStates, Function.comp_def]

def queue (s : Round) : List Nat := (ids s.tasks).rotate (s.curr + 1)

theorem pickScan {tasks : List Thread} {left start j : Nat} (inside : start < tasks.length)
    (picked : pick tasks left start = j) (found : j < tasks.length) :
    ∃ m, m < left ∧ j = (start + m) % tasks.length ∧
      ∀ k t, k < m → tasks[(start + k) % tasks.length]? = some t → isRunnableState t.state = false := by
  induction left generalizing start with
  | zero =>
    simp only [pick] at picked
    omega
  | succ left ih =>
    have here : tasks[start]? = some tasks[start] := List.getElem?_eq_getElem inside
    simp only [pick, here] at picked
    by_cases now : isRunnableState tasks[start].state = true
    · rw [if_pos now] at picked
      refine ⟨0, Nat.succ_pos _, ?_, fun k t low => absurd low (Nat.not_lt_zero k)⟩
      rw [Nat.add_zero, Nat.mod_eq_of_lt inside, picked]
    · rw [if_neg now] at picked
      obtain ⟨m, low, at', before⟩ := ih (Nat.mod_lt _ (by omega)) picked
      have shift : ∀ k, ((start + 1) % tasks.length + k) % tasks.length = (start + (k + 1)) % tasks.length := by
        intro k
        rw [Nat.mod_add_mod]
        congr 1
        omega
      refine ⟨m + 1, by omega, by rw [at', shift], fun k t less there => ?_⟩
      cases k with
      | zero =>
        rw [Nat.add_zero, Nat.mod_eq_of_lt inside, here] at there
        cases Option.some.inj there
        exact Bool.eq_false_iff.mpr now
      | succ k =>
        rw [← shift] at there
        exact before k t (by omega) there

theorem pickRotates {tasks : List Thread} {start j : Nat} (inside : start < tasks.length)
    (picked : pick tasks tasks.length start = j) (found : j < tasks.length) :
    ∃ before z after, tasks.rotate start = before ++ z :: after ∧ tasks[j]? = some z ∧
      (∀ t ∈ before, isRunnableState t.state = false) ∧ tasks.rotate (j + 1) = after ++ before ++ [z] := by
  obtain ⟨m, low, rfl, skipped⟩ := pickScan inside picked found
  have length : (tasks.rotate start).length = tasks.length := List.length_rotate _ _
  have entry : ∀ k, k < tasks.length → (tasks.rotate start)[k]? = tasks[(start + k) % tasks.length]? := by
    intro k less
    rw [List.getElem?_rotate less, Nat.add_comm]
  obtain ⟨z, here⟩ : ∃ z, tasks[(start + m) % tasks.length]? = some z := ⟨_, List.getElem?_eq_getElem found⟩
  have zAt : (tasks.rotate start)[m]? = some z := (entry m low).trans here
  have cut := List.drop_eq_getElem_cons (show m < (tasks.rotate start).length by omega)
  have zEq : (tasks.rotate start)[m] = z := by
    obtain ⟨_, eq⟩ := List.getElem?_eq_some_iff.mp zAt
    exact eq
  rw [zEq] at cut
  refine ⟨(tasks.rotate start).take m, z, (tasks.rotate start).drop (m + 1), ?_, here, ?_, ?_⟩
  · rw [← cut, List.take_append_drop]
  · intro t mem
    obtain ⟨k, less, eq⟩ := List.getElem_of_mem mem
    rw [List.length_take] at less
    rw [List.getElem_take] at eq
    have at' : (tasks.rotate start)[k]? = some t := by
      rw [List.getElem?_eq_getElem (by omega), eq]
    rw [entry k (by omega)] at at'
    exact skipped k t (by omega) at'
  · have turned : tasks.rotate ((start + m) % tasks.length + 1) = (tasks.rotate start).rotate (m + 1) := by
      rw [List.rotate_rotate, ← List.rotate_mod, Nat.mod_add_mod, List.rotate_mod]
      congr 1
    rw [turned, List.rotate_eq_drop_append_take (by omega), List.take_add_one, zAt, List.append_assoc]
    rfl

/- The task that a removal moves behind the others: the last one, which is put into the freed slot
and stepped past, or the first one, when the completed task was the last. -/
def delayed (s : Round) : Option Nat :=
  (if s.curr = s.tasks.length - 1 then s.tasks.head? else s.tasks.getLast?).map Thread.id

theorem rotatePast (front : List Thread) (t : Thread) (back : List Thread) :
    (ids (front ++ t :: back)).rotate (front.length + 1) = ids back ++ ids front ++ [t.id] := by
  have whole : ids (front ++ t :: back) = (ids front ++ [t.id]) ++ ids back := by simp [ids]
  have length : front.length + 1 = (ids front ++ [t.id]).length := by simp [ids]
  rw [whole, length, List.rotate_append_length_eq, ← List.append_assoc]

theorem queueSplit {tasks : List Thread} {curr : Nat} {prev : Thread} (here : tasks[curr]? = some prev) :
    ∃ front back, tasks = front ++ prev :: back ∧ curr = front.length ∧
      queue ⟨tasks, curr⟩ = ids back ++ ids front ++ [prev.id] := by
  obtain ⟨front, back, rfl, rfl⟩ := splitTask here
  exact ⟨front, back, rfl, rfl, rotatePast front prev back⟩

theorem removeTaskDelays {tasks : List Thread} {curr : Nat} {prev : Thread} (here : tasks[curr]? = some prev)
    (more : 2 ≤ tasks.length) :
    ∃ before d after, delayed ⟨tasks, curr⟩ = some d ∧
      queue ⟨tasks, curr⟩ = before ++ d :: after ++ [prev.id] ∧
      (ids (removeTask tasks curr)).rotate (curr + 1) = before ++ after ++ [d] ∧
      (curr = 0 → after = []) ∧ (tasks.length = 2 → before = [] ∧ after = []) := by
  obtain ⟨front, back, cut, rfl, rotated⟩ := queueSplit here
  rcases List.eq_nil_or_concat back with rfl | ⟨middle, last, rfl⟩
  · -- the completed task is the last of the vector
    cases front with
    | nil =>
      rw [cut] at more
      simp at more
    | cons first rest =>
      refine ⟨[], first.id, ids rest, ?_, ?_, ?_, ?_, ?_⟩
      · rw [delayed, cut]
        simp
      · rw [rotated]
        rfl
      · have size : (first :: rest).length = (ids (first :: rest)).length := by simp [ids]
        rw [cut, removeTaskLast, ← List.rotate_rotate, size, List.rotate_length]
        simp [ids]
      · intro zero
        simp at zero
      · intro two
        rw [cut] at two
        simp at two
        simp [two, ids]
  · refine ⟨ids middle, last.id, ids front, ?_, ?_, ?_, ?_, ?_⟩
    · have moved : front.length ≠ tasks.length - 1 := by
        rw [cut]
        simp
      have end' : tasks.getLast? = some last := by
        rw [cut, List.concat_eq_append, ← List.cons_append, ← List.append_assoc, List.getLast?_append]
        rfl
      simp only [delayed, if_neg moved, end', Option.map_some]
    · rw [rotated]
      simp [ids]
    · rw [cut, List.concat_eq_append, removeTaskSwaps]
      exact rotatePast front last middle
    · intro zero
      rw [List.length_eq_zero_iff.mp zero]
      rfl
    · intro two
      rw [cut] at two
      simp only [List.concat_eq_append, List.length_append, List.length_cons, List.length_nil] at two
      rw [List.length_eq_zero_iff.mp (show middle.length = 0 by omega),
        List.length_eq_zero_iff.mp (show front.length = 0 by omega)]
      exact ⟨rfl, rfl⟩

theorem getNextPicks {tasks : List Thread} {prevTask : Nat} {prev : Thread} (nodup : (tasks.map Thread.id).Nodup)
    (found : tasks[prevTask]? = some prev) (disturbable : prev.state ≠ .doNotDisturb) :
    (getNext tasks prevTask).1 = if (retire tasks prevTask).length = 0 then 0
      else pick (retire tasks prevTask) (retire tasks prevTask).length
        ((prevTask + 1) % (retire tasks prevTask).length) := by
  have bound := (List.getElem?_eq_some_iff.mp found).1
  have index := findIdxOfNodup nodup found
  have rest : retire tasks prevTask = if prev.state = .completed then removeTask tasks prevTask
      else tasks.set prevTask { prev with state := .running } := by
    simp only [retire, found]
  simp only [getNext, found, index, disturbable, and_false, if_false, if_pos bound]
  rw [← rest]
  split <;> rfl

theorem retireIdle {tasks : List Thread} {states : Nat → TaskState} {curr : Nat} {t : Thread}
    (mem : t ∈ retire (withStates tasks states) curr) (idle : isRunnableState t.state = false) :
    isRunnableState (states t.id) = false := by
  have asCalled : ∀ u, u ∈ withStates tasks states → u.state = states u.id := by
    intro u there
    obtain ⟨v, -, rfl⟩ := List.mem_map.mp there
    rfl
  have kept : t ∈ withStates tasks states := by
    unfold retire at mem
    split at mem
    · exact mem
    · next prev found =>
      split at mem
      · exact (removeTaskPerm found).subset (List.mem_cons_of_mem _ mem)
      · rcases List.mem_or_eq_of_mem_set mem with old | rfl
        · exact old
        · cases idle
  rw [← asCalled t kept]
  exact idle

theorem turnServes {s s' : Round} {states : Nat → TaskState} {prev : Thread} (nodup : (ids s.tasks).Nodup)
    (here : s.tasks[s.curr]? = some prev) (awake : states prev.id ≠ .doNotDisturb) (ok : turn s states = some s') :
    ∃ before z after, (ids (retire (withStates s.tasks states) s.curr)).rotate (s.curr + 1) = before ++ z :: after ∧
      selected s' = some z ∧ queue s' = after ++ before ++ [z] ∧
      (∀ p ∈ before, isRunnableState (states p) = false) ∧
      s'.tasks = retire (withStates s.tasks states) s.curr ∧ s'.curr < s'.tasks.length := by
  have there : (withStates s.tasks states)[s.curr]? = some { prev with state := states prev.id } := by
    rw [withStates, List.getElem?_map, here, Option.map_some]
  have unique : (ids (withStates s.tasks states)).Nodup := by rwa [withStatesIds]
  have rest := getNextRetires unique there awake
  have picks := getNextPicks unique there awake
  simp only [turn, rest] at ok
  have idle := @retireIdle s.tasks states s.curr
  generalize retire (withStates s.tasks states) s.curr = left at ok picks idle
  generalize (getNext (withStates s.tasks states) s.curr).1 = j at ok picks
  split at ok
  · cases ok
  · next other =>
    cases Option.some.inj ok
    have some : left.length ≠ 0 := by
      intro empty
      rw [if_pos empty] at picks
      exact other (picks.trans empty.symm)
    have chosen := picks.trans (if_neg some)
    have less : j < left.length := by
      have most := pickLe left left.length ((s.curr + 1) % left.length)
      omega
    obtain ⟨before, z, after, line, at', skipped, turned⟩ := pickRotates (Nat.mod_lt _ (by omega)) chosen.symm less
    rw [List.rotate_mod] at line
    refine ⟨ids before, z.id, ids after, ?_, ?_, ?_, ?_, rfl, less⟩
    · rw [ids, ← List.map_rotate, line]
      simp [ids]
    · simp only [selected, at', Option.map_some]
    · rw [queue, ids, ← List.map_rotate, turned]
      simp [ids]
    · intro p mem
      obtain ⟨t, inside, rfl⟩ := List.mem_map.mp mem
      have old : t ∈ left := by
        have all : t ∈ left.rotate (s.curr + 1) := by
          rw [line]
          exact List.mem_append_left _ inside
        exact List.mem_rotate.mp all
      exact idle old (skipped t inside)

/- A removal keeps the order when the completed task is the first of the vector, or at most one task
is left, or the task that it moves behind the others has no turn to lose. -/
def Orderly (s : Round) (states : Nat → TaskState) : Prop :=
  ∀ prev, selected s = some prev → states prev ≠ .doNotDisturb ∧
    (states prev = .completed → s.curr = 0 ∨ s.tasks.length ≤ 2 ∨
      ∀ d, delayed s = some d → isRunnableState (states d) = false)

/- `x` was selected after `y`, or is gone. -/
structure Waits (y x : Nat) (s : Round) : Prop where
  nodup : (ids s.tasks).Nodup
  inside : s.curr < s.tasks.length
  ahead : Ahead y x (queue s) ∨ x ∉ ids s.tasks

theorem calledTask {tasks : List Thread} {curr : Nat} {prev : Thread} (here : tasks[curr]? = some prev)
    (states : Nat → TaskState) :
    (withStates tasks states)[curr]? = some { prev with state := states prev.id } := by
  rw [withStates, List.getElem?_map, here, Option.map_some]

theorem retireIds {tasks : List Thread} {curr : Nat} {prev : Thread} {states : Nat → TaskState}
    (here : tasks[curr]? = some prev) (more : states prev.id ≠ .completed) :
    ids (retire (withStates tasks states) curr) = ids tasks := by
  simp only [retire, calledTask here, more, if_false]
  rw [← withStatesIds tasks states]
  apply List.ext_getElem?
  intro k
  simp only [ids, List.getElem?_map, List.getElem?_set]
  split
  · next at' =>
    subst at'
    rw [if_pos (List.getElem?_eq_some_iff.mp (calledTask here states)).1, calledTask here states]
    rfl
  · rfl

theorem retireNodup {tasks : List Thread} {curr : Nat} {prev : Thread} (states : Nat → TaskState)
    (nodup : (ids tasks).Nodup) (here : tasks[curr]? = some prev) :
    (ids (retire (withStates tasks states) curr)).Nodup := by
  by_cases done : states prev.id = .completed
  · simp only [retire, calledTask here, done, if_true]
    exact removeTaskNodup (calledTask here states) (by rw [← ids, withStatesIds]; exact nodup)
  · rw [retireIds here done]
    exact nodup

theorem delayedStates (tasks : List Thread) (states : Nat → TaskState) (curr : Nat) :
    delayed ⟨withStates tasks states, curr⟩ = delayed ⟨tasks, curr⟩ := by
  simp only [delayed, withStates, List.length_map]
  split
  · cases tasks <;> rfl
  · rw [List.getLast?_map, Option.map_map]
    rfl

theorem twoTasks {tasks : List Thread} {i y : Nat} {t : Thread} (here : tasks[i]? = some t) (there : y ∈ ids tasks)
    (apart : y ≠ t.id) : 2 ≤ tasks.length := by
  obtain ⟨u, mem, rfl⟩ := List.mem_map.mp there
  have other : u ≠ t := fun same => apart (by rw [same])
  by_contra few
  have single : tasks.length = 1 := by
    have some := List.length_pos_of_mem mem
    omega
  obtain ⟨v, rfl⟩ := List.length_eq_one_iff.mp single
  have at' := List.mem_of_getElem? here
  rw [List.mem_singleton] at mem at'
  exact other (mem.trans at'.symm)

theorem lineAhead {s : Round} {states : Nat → TaskState} {prev : Thread} {y x : Nat} (nodup : (ids s.tasks).Nodup)
    (here : s.tasks[s.curr]? = some prev) (orderly : Orderly s states) (ready : isRunnableState (states y) = true)
    (there : y ∈ ids s.tasks) (ahead : Ahead y x (queue s) ∨ x ∉ ids s.tasks) :
    Ahead y x ((ids (retire (withStates s.tasks states) s.curr)).rotate (s.curr + 1)) ∨
      x ∉ ids (retire (withStates s.tasks states) s.curr) := by
  have called := calledTask here states
  have chosen : selected s = some prev.id := by rw [selected, here, Option.map_some]
  have whole : queue ⟨withStates s.tasks states, s.curr⟩ = queue s := by
    rw [queue, queue, withStatesIds]
  by_cases done : states prev.id = .completed
  · have rest : retire (withStates s.tasks states) s.curr = removeTask (withStates s.tasks states) s.curr := by
      simp only [retire, called, done, if_true]
    have apart : y ≠ prev.id := by
      rintro rfl
      rw [done] at ready
      cases ready
    have two : 2 ≤ (withStates s.tasks states).length := by
      rw [withStates, List.length_map]
      exact twoTasks here there apart
    obtain ⟨before, d, after, moved, order, line, zero, short⟩ := removeTaskDelays called two
    rw [whole] at order
    rw [delayedStates] at moved
    rw [rest, line]
    rcases ahead with ahead | gone
    · by_cases last : x = prev.id
      · refine .inr (fun mem => ?_)
        have unique : (before ++ d :: after ++ [prev.id]).Nodup := by
          rw [← order]
          exact List.nodup_rotate.mpr nodup
        have stays : prev.id ∈ before ++ after ++ [d] := by
          rw [← line, List.mem_rotate, ← last]
          exact mem
        have disjoint := (List.nodup_append.mp unique).2.2
        refine disjoint prev.id ?_ prev.id (List.mem_singleton_self _) rfl
        simp only [List.mem_append, List.mem_cons, List.not_mem_nil, or_false] at stays ⊢
        tauto
      · refine .inl ?_
        rw [order] at ahead
        have ahead := ahead.leave last
        rcases (orderly prev.id chosen).2 done with first | few | idle
        · rw [zero first] at ahead ⊢
          simpa using ahead
        · obtain ⟨rfl, rfl⟩ := short (by rw [withStates, List.length_map] at two ⊢; omega)
          exact ahead
        · refine ahead.delay ?_
          rintro rfl
          rw [idle y moved] at ready
          cases ready
    · refine .inr (fun mem => gone ?_)
      obtain ⟨t, inside, rfl⟩ := List.mem_map.mp mem
      rw [← withStatesIds s.tasks states]
      exact List.mem_map_of_mem ((removeTaskPerm called).subset (List.mem_cons_of_mem _ inside))
  · rw [retireIds here done]
    exact ahead

theorem retireKeeps {tasks : List Thread} {curr y : Nat} {prev : Thread} {states : Nat → TaskState}
    (here : tasks[curr]? = some prev) (there : y ∈ ids tasks) (ready : isRunnableState (states y) = true) :
    y ∈ ids (retire (withStates tasks states) curr) := by
  by_cases done : states prev.id = .completed
  · have apart : y ≠ prev.id := by
      rintro rfl
      rw [done] at ready
      cases ready
    simp only [retire, calledTask here, done, if_true]
    have asked : y ∈ ids (withStates tasks states) := by
      rw [withStatesIds]
      exact there
    rcases List.mem_cons.mp (((removeTaskPerm (calledTask here states)).map Thread.id).symm.subset asked) with same | kept
    · exact absurd same apart
    · exact kept
  · rw [retireIds here done]
    exact there

theorem turnWaits {s s' : Round} {states : Nat → TaskState} {y x : Nat} (waits : Waits y x s)
    (orderly : Orderly s states) (there : y ∈ ids s.tasks) (ready : isRunnableState (states y) = true)
    (ok : turn s states = some s') :
    selected s' = some y ∨ (Waits y x s' ∧ selected s' ≠ some x ∧ y ∈ ids s'.tasks) := by
  obtain ⟨prev, here⟩ : ∃ prev, s.tasks[s.curr]? = some prev := ⟨_, List.getElem?_eq_getElem waits.inside⟩
  have chosen : selected s = some prev.id := by rw [selected, here, Option.map_some]
  obtain ⟨before, z, after, line, now, next, skipped, rest, inside⟩ :=
    turnServes waits.nodup here (orderly prev.id chosen).1 ok
  have ahead := lineAhead waits.nodup here orderly ready there waits.ahead
  have unique := retireNodup states waits.nodup here
  have kept := retireKeeps here there ready
  rw [← rest] at unique kept ahead line
  rw [line] at ahead
  by_cases mine : y = z
  · exact .inl (by rw [now, mine])
  · refine .inr ⟨⟨unique, inside, ?_⟩, ?_, kept⟩
    · rcases ahead with ahead | gone
      · left
        have skip : y ∉ before := by
          intro mem
          rw [skipped y mem] at ready
          cases ready
        rw [next, List.append_assoc]
        exact (ahead.behind skip mine).trans (List.sublist_append_left _ _)
      · exact .inr gone
    · rw [now]
      rintro same
      cases Option.some.inj same
      rcases ahead with ahead | gone
      · have skip : y ∉ before := by
          intro mem
          rw [skipped y mem] at ready
          cases ready
        have later := (ahead.behind skip mine).mem
        have nodup : (before ++ x :: after).Nodup := by
          rw [← line]
          exact List.nodup_rotate.mpr unique
        exact (List.nodup_cons.mp (List.nodup_append.mp nodup).2.1).1 later
      · apply gone
        rw [← List.mem_rotate, line]
        simp

theorem startWaits {s : Round} {prev : Thread} {y : Nat} (nodup : (ids s.tasks).Nodup)
    (here : s.tasks[s.curr]? = some prev) (there : y ∈ ids s.tasks) (other : y ≠ prev.id) :
    Waits y prev.id s := by
  obtain ⟨front, back, cut, -, order⟩ := queueSplit here
  refine ⟨nodup, (List.getElem?_eq_some_iff.mp here).1, .inl ?_⟩
  have asked : y ∈ queue s := List.mem_rotate.mpr there
  rw [order] at asked ⊢
  rcases List.mem_append.mp asked with mem | last
  · exact aheadLast mem prev.id
  · exact absurd (List.mem_singleton.mp last) other

theorem runWaits {s s' : Round} {turns : List (Nat → TaskState)} {y x : Nat} (waits : Waits y x s)
    (there : y ∈ ids s.tasks) (orderly : Guarded turn Orderly s turns)
    (stays : ∀ states ∈ turns, isRunnableState (states y) = true) (ran : run turn s turns = some s') :
    (∃ mid, Visits turn s turns mid ∧ selected mid = some y) ∨
      (Waits y x s' ∧ (turns ≠ [] → selected s' ≠ some x)) := by
  induction turns generalizing s with
  | nil =>
    cases Option.some.inj ran
    exact .inr ⟨waits, fun more => absurd rfl more⟩
  | cons states turns ih =>
    obtain ⟨mid, taken, rest⟩ := Option.bind_eq_some_iff.mp ran
    obtain ⟨now, later⟩ := Lib.Transition.guardedConsIff.mp orderly
    have visit : ∀ t, Visits turn mid turns t → Visits turn s (states :: turns) t := by
      rintro t ⟨pre, post, rfl, reached⟩
      exact ⟨states :: pre, post, rfl, by simp only [run, taken, Option.bind_some, reached]⟩
    rcases turnWaits waits now there (stays states List.mem_cons_self) taken with served | ⟨waits', past, there'⟩
    · exact .inl ⟨mid, visit mid ⟨[], turns, rfl, rfl⟩, served⟩
    · rcases ih waits' there' (later mid taken) (fun t mem => stays t (List.mem_cons_of_mem _ mem)) rest with
        ⟨t, visited, served⟩ | ⟨last, again⟩
      · exact .inl ⟨t, visit t visited, served⟩
      · refine .inr ⟨last, fun _ => ?_⟩
        cases turns with
        | nil =>
          cases Option.some.inj rest
          exact past
        | cons first turns => exact again (by simp)

/-- In every run whose removals keep the order: once a task has been selected, every other task that
stays runnable is selected before it is selected again. -/
theorem roundRobinOrder {s s' : Round} {turns : List (Nat → TaskState)} {x y : Nat}
    (nodup : (ids s.tasks).Nodup) (first : selected s = some x) (orderly : Guarded turn Orderly s turns)
    (ran : run turn s turns = some s') (more : turns ≠ []) (again : selected s' = some x) (there : y ∈ ids s.tasks)
    (other : y ≠ x) (stays : ∀ states ∈ turns, isRunnableState (states y) = true) :
    ∃ mid, Visits turn s turns mid ∧ selected mid = some y := by
  obtain ⟨prev, here, rfl⟩ := Option.map_eq_some_iff.mp first
  rcases runWaits (startWaits nodup here there other) there orderly stays ran with served | ⟨-, past⟩
  · exact served
  · exact absurd again (past more)

def threeTasks : Round := ⟨[⟨1, .running⟩, ⟨2, .running⟩, ⟨3, .running⟩], 0⟩

def allRun : Nat → TaskState := fun _ => .running

/- The third task is on its turn, and the first completes on the next one. -/
theorem roundRobinOrderThree : ∃ s', run turn ⟨threeTasks.tasks, 2⟩ [allRun, Function.update allRun 1 .completed, allRun] =
    some s' ∧ ids s'.tasks = [3, 2] ∧ selected s' = some 3 ∧
    ∃ mid, Visits turn ⟨threeTasks.tasks, 2⟩ [allRun, Function.update allRun 1 .completed, allRun] mid ∧
      selected mid = some 2 := by
  have ran : run turn ⟨threeTasks.tasks, 2⟩ [allRun, Function.update allRun 1 .completed, allRun] =
      some ⟨[⟨3, .running⟩, ⟨2, .running⟩], 0⟩ := rfl
  have plain : ∀ s : Round, Orderly s allRun := fun s prev _ => ⟨fun never => (by cases never), fun never => (by cases never)⟩
  have orderly : Guarded turn Orderly ⟨threeTasks.tasks, 2⟩ [allRun, Function.update allRun 1 .completed, allRun] := by
    refine guardedConsIff.mpr ⟨plain _, fun first turned => guardedConsIff.mpr ⟨fun prev here => ?_, fun second _ =>
      guardedConsIff.mpr ⟨plain _, fun third _ => guardedNil _ _ _⟩⟩⟩
    cases Option.some.inj turned
    cases Option.some.inj here
    exact ⟨by decide, fun _ => .inl rfl⟩
  refine ⟨_, ran, rfl, rfl, roundRobinOrder (by decide) rfl orderly ran (by simp) rfl (by decide)
    (show 2 ≠ 3 by omega) (fun states mem => ?_)⟩
  simp only [List.mem_cons, List.not_mem_nil, or_false] at mem
  rcases mem with rfl | rfl | rfl <;> rfl

/- The second task completes on its turn. The third is put into its slot and stepped past, and the
first is selected twice while the third is runnable and waits. -/
theorem completionSkipsLast :
    selected threeTasks = some 1 ∧ 3 ∈ ids threeTasks.tasks ∧
      (∀ states ∈ [allRun, Function.update allRun 2 .completed], isRunnableState (states 3) = true) ∧
      (run turn threeTasks [allRun, Function.update allRun 2 .completed]).bind selected = some 1 ∧
      ∀ mid, Visits turn threeTasks [allRun, Function.update allRun 2 .completed] mid → selected mid ≠ some 3 := by
  refine ⟨rfl, by decide, by decide, by decide, ?_⟩
  rintro mid ⟨pre, post, shape, reached⟩
  have prefixes : pre = [] ∨ pre = [allRun] ∨ pre = [allRun, Function.update allRun 2 .completed] := by
    have found : pre ∈ [allRun, Function.update allRun 2 .completed].inits :=
      (List.mem_inits _ _).mpr ⟨post, shape.symm⟩
    simpa [List.inits] using found
  rcases prefixes with rfl | rfl | rfl
  · cases Option.some.inj reached
    decide
  · have now : (run turn threeTasks [allRun]).bind selected = some 2 := by decide
    rw [reached] at now
    rw [show selected mid = some 2 from now]
    decide
  · have now : (run turn threeTasks [allRun, Function.update allRun 2 .completed]).bind selected = some 1 := by decide
    rw [reached] at now
    rw [show selected mid = some 1 from now]
    decide

end DimOS.Process.RoundRobin
