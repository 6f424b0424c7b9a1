import Mathlib.Data.List.Perm.Basic
import DimOS.Process.RoundRobin

/-! One call of RRScheduler::getNext as a whole: which tasks are left in the vector, with which
states, and which index comes out. The loop is asked about the vector that the call leaves behind,
whose size may be smaller than the one prevTask's index was found in. -/
namespace DimOS.Process.RRScheduler

def Idle (tasks : List Thread) : Prop := ∀ t ∈ tasks, isRunnableState t.state = false

/- `j` is the first index with a runnable task among start, start + 1, … modulo the size. -/
def FirstFrom (tasks : List Thread) (start j : Nat) : Prop :=
  ∃ m < tasks.length, j = (start + m) % tasks.length ∧
    (∃ t, tasks[j]? = some t ∧ isRunnableState t.state = true) ∧
    ∀ k t, k < m → tasks[(start + k) % tasks.length]? = some t → isRunnableState t.state = false

theorem pickAsks {tasks : List Thread} {left start : Nat} (inside : start < tasks.length)
    (nobody : pick tasks left start = tasks.length) :
    ∀ k t, k < left → tasks[(start + k) % tasks.length]? = some t → isRunnableState t.state = false := by
  induction left generalizing start with
  | zero =>
    intro k t less
    exact absurd less (Nat.not_lt_zero k)
  | succ left ih =>
    have here : tasks[start]? = some tasks[start] := List.getElem?_eq_getElem inside
    simp only [pick, here] at nobody
    by_cases now : isRunnableState tasks[start].state = true
    · rw [if_pos now] at nobody
      omega
    · rw [if_neg now] at nobody
      intro k t less there
      cases k with
      | zero =>
        rw [Nat.add_zero, Nat.mod_eq_of_lt inside, here] at there
        cases Option.some.inj there
        exact Bool.eq_false_iff.mpr now
      | succ k =>
        refine ih (Nat.mod_lt _ (by omega)) nobody k t (by omega) ?_
        rw [Nat.mod_add_mod, Nat.add_assoc, Nat.add_comm 1 k]
        exact there

theorem turnCovers {size start i : Nat} (inside : i < size) : ∃ k < size, (start + k) % size = i := by
  have first : start % size < size := Nat.mod_lt _ (by omega)
  refine ⟨(i + size - start % size) % size, Nat.mod_lt _ (by omega), ?_⟩
  rw [Nat.add_mod, Nat.mod_mod, ← Nat.add_mod, ← Nat.mod_add_mod,
    show start % size + (i + size - start % size) = i + size by omega, Nat.add_mod_right, Nat.mod_eq_of_lt inside]

theorem pickNobodyIff {tasks : List Thread} {start : Nat} (inside : start < tasks.length) :
    pick tasks tasks.length start = tasks.length ↔ Idle tasks := by
  constructor
  · intro nobody t mem
    obtain ⟨i, low, rfl⟩ := List.getElem_of_mem mem
    obtain ⟨k, less, at'⟩ := @turnCovers tasks.length start i low
    refine pickAsks inside nobody k _ less ?_
    rw [at', List.getElem?_eq_getElem low]
  · intro idle
    by_contra other
    have low := pickLe tasks tasks.length start
    obtain ⟨t, there, ready⟩ := pickRunnable tasks tasks.length start (by omega)
    rw [idle t (List.mem_of_getElem? there)] at ready
    cases ready

theorem pickFirst {tasks : List Thread} {start : Nat} (some' : 0 < tasks.length)
    (found : pick tasks tasks.length (start % tasks.length) ≠ tasks.length) :
    FirstFrom tasks start (pick tasks tasks.length (start % tasks.length)) := by
  have most := pickLe tasks tasks.length (start % tasks.length)
  have less : pick tasks tasks.length (start % tasks.length) < tasks.length := by omega
  obtain ⟨m, low, at', skipped⟩ := RoundRobin.pickScan (Nat.mod_lt start some') rfl less
  refine ⟨m, low, by rw [at', Nat.mod_add_mod], pickRunnable _ _ _ less, fun k t before there => ?_⟩
  refine skipped k t before ?_
  rw [Nat.mod_add_mod]
  exact there

theorem removeTaskErases {tasks : List Thread} {i : Nat} {t : Thread} (here : tasks[i]? = some t) :
    (removeTask tasks i).Perm (tasks.eraseIdx i) := by
  obtain ⟨bound, rfl⟩ := List.getElem?_eq_some_iff.mp here
  have whole := (removeTaskPerm here).trans (List.getElem_cons_eraseIdx_perm bound).symm
  exact List.Perm.cons_inv whole

/-- One step of the scheduler. A task that is not to be disturbed goes on. Otherwise the vector keeps
its tasks with their states, less the previous task when that one has completed, and the result is
the first runnable task of the vector that is left, asked from the index after the previous one, or
that vector's size when it has none. -/
theorem getNextStep {tasks : List Thread} {prevTask : Nat} {prev : Thread}
    (nodup : (tasks.map Thread.id).Nodup) (found : tasks[prevTask]? = some prev) :
    (prev.state = .doNotDisturb → getNext tasks prevTask = (prevTask, tasks)) ∧
    (prev.state ≠ .doNotDisturb →
      (prev.state = .completed → (getNext tasks prevTask).2.Perm (tasks.eraseIdx prevTask)) ∧
      (prev.state ≠ .completed →
        (getNext tasks prevTask).2.Perm (tasks.set prevTask { prev with state := .running })) ∧
      ((getNext tasks prevTask).1 = (getNext tasks prevTask).2.length ↔ Idle (getNext tasks prevTask).2) ∧
      ((getNext tasks prevTask).1 ≠ (getNext tasks prevTask).2.length →
        FirstFrom (getNext tasks prevTask).2 ((prevTask + 1) % (getNext tasks prevTask).2.length)
          (getNext tasks prevTask).1)) := by
  refine ⟨getNextUndisturbed nodup found, fun awake => ?_⟩
  rw [getNextRetires nodup found awake, RoundRobin.getNextPicks nodup found awake]
  refine ⟨fun done => ?_, fun more => ?_, ?_⟩
  · simp only [retire, found, done, if_true]
    exact removeTaskErases found
  · simp only [retire, found, more, if_false]
    exact List.Perm.refl _
  -- from here on only the vector that is left matters
  generalize retire tasks prevTask = rest
  by_cases empty : rest.length = 0
  · rw [if_pos empty]
    refine ⟨⟨fun _ t mem => ?_, fun _ => empty.symm⟩, fun other => absurd empty.symm other⟩
    rw [List.length_eq_zero_iff.mp empty] at mem
    cases mem
  · rw [if_neg empty]
    have some' : 0 < rest.length := Nat.pos_of_ne_zero empty
    refine ⟨pickNobodyIff (Nat.mod_lt _ some'), fun other => ?_⟩
    have again := Nat.mod_mod (prevTask + 1) rest.length
    have first := @pickFirst rest ((prevTask + 1) % rest.length) some' (by rw [again]; exact other)
    rw [again] at first
    exact first

/- The second of four tasks has completed: the last takes its slot, and the search goes on from the
slot after it and comes round to the first. -/
theorem getNextStepFour :
    FirstFrom (getNext [⟨1, .running⟩, ⟨2, .completed⟩, ⟨3, .blocked⟩, ⟨4, .running⟩] 1).2
      (2 % 3) 0 ∧
    (getNext [⟨1, .running⟩, ⟨2, .completed⟩, ⟨3, .blocked⟩, ⟨4, .running⟩] 1).2.Perm
      [⟨1, .running⟩, ⟨3, .blocked⟩, ⟨4, .running⟩] := by
  obtain ⟨-, awake⟩ := @getNextStep [⟨1, .running⟩, ⟨2, .completed⟩, ⟨3, .blocked⟩, ⟨4, .running⟩] 1
    ⟨2, .completed⟩ (by decide) rfl
  obtain ⟨gone, -, -, first⟩ := awake (by decide)
  exact ⟨first (by decide), gone rfl⟩

end DimOS.Process.RRScheduler
