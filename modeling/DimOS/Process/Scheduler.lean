import Mathlib.Data.List.Basic
import Mathlib.Data.List.Nodup

/-! Kernel threads as the scheduler sees them, and RRScheduler::getNext. The task
vector is a list; removal swaps with the last task, as the source does. prevTask is
a reference into the vector, so it is the index of one of its elements. -/
namespace DimOS.Process

inductive TaskState where
  | notStarted
  | running
  | sleeping
  | blocked
  | completed
  | doNotDisturb
  deriving DecidableEq, Repr

def isRunnableState (state : TaskState) : Bool :=
  state == .notStarted || state == .running

structure Thread where
  id : Nat
  state : TaskState
  deriving DecidableEq, Repr

/- The reference kernel::getThread returns; none is its panic. -/
def getThread (threads : List Thread) (id : Nat) : Option Thread :=
  threads.find? (fun t => t.id == id)

def setState (threads : List Thread) (id : Nat) (state : TaskState) : List Thread :=
  threads.map (fun t => if t.id = id then { t with state := state } else t)

theorem setStateIds (threads : List Thread) (id : Nat) (state : TaskState) :
    (setState threads id state).map Thread.id = threads.map Thread.id := by
  unfold setState
  rw [List.map_map]
  refine List.map_congr_left (fun t _ => ?_)
  simp only [Function.comp]
  split <;> rfl

theorem idsSet (threads : List Thread) (i : Nat) {t : Thread} (here : threads[i]? = some t)
    (state : TaskState) :
    (threads.set i { t with state := state }).map Thread.id = threads.map Thread.id := by
  obtain ⟨bound, rfl⟩ := List.getElem?_eq_some_iff.mp here
  rw [List.map_set]
  apply List.ext_getElem (by simp)
  intro k low high
  rw [List.getElem_set]
  split
  · next same =>
    subst same
    simp
  · rfl

theorem getThreadSome {threads : List Thread} {id : Nat} (mem : id ∈ threads.map Thread.id) :
    ∃ t, getThread threads id = some t := by
  obtain ⟨t, there, rfl⟩ := List.mem_map.mp mem
  exact Option.isSome_iff_exists.mp (List.find?_isSome.mpr ⟨t, there, by simp⟩)

namespace RRScheduler

/- Vector::pop_back after the swap of the completed task with the last one. -/
def removeTask (tasks : List Thread) (prevIndex : Nat) : List Thread :=
  match tasks.getLast? with
  | none => tasks
  | some last =>
    if prevIndex ≠ tasks.length - 1 then (tasks.set prevIndex last).dropLast else tasks.dropLast

/- The vector as getNext leaves it: a task that is not COMPLETED is written back as
RUNNING, whatever its state was (SLEEPING included). -/
def retire (tasks : List Thread) (prevTask : Nat) : List Thread :=
  match tasks[prevTask]? with
  | none => tasks
  | some prev =>
    if prev.state = .completed then removeTask tasks prevTask
    else tasks.set prevTask { prev with state := .running }

/- The while loop over tried: the first runnable task cyclically from nextIdx. -/
def pick (tasks : List Thread) : Nat → Nat → Nat
  | 0, _ => tasks.length
  | left + 1, nextIdx =>
    match tasks[nextIdx]? with
    | none => tasks.length
    | some t =>
      if isRunnableState t.state then nextIdx
      else pick tasks left ((nextIdx + 1) % tasks.length)

def getNext (tasks : List Thread) (prevTask : Nat) : Nat × List Thread :=
  match tasks[prevTask]? with
  | none => (tasks.length, tasks)
  | some prev =>
    let prevIndex := tasks.findIdx (fun t => t.id == prev.id)
    if prevIndex < tasks.length ∧ prev.state = .doNotDisturb then (prevIndex, tasks)
    else
      let rest :=
        if prev.state = .completed then
          if prevIndex < tasks.length then removeTask tasks prevIndex else tasks
        else tasks.set prevTask { prev with state := .running }
      if rest.length = 0 then (0, rest)
      else (pick rest rest.length ((prevIndex + 1) % rest.length), rest)

theorem pickRunnable (tasks : List Thread) (left nextIdx : Nat)
    (found : pick tasks left nextIdx < tasks.length) :
    ∃ t, tasks[pick tasks left nextIdx]? = some t ∧ isRunnableState t.state = true := by
  induction left generalizing nextIdx with
  | zero => simp [pick] at found
  | succ left ih =>
    simp only [pick] at found ⊢
    cases ht : tasks[nextIdx]? with
    | none => simp [ht] at found
    | some t =>
      simp only [ht] at found ⊢
      by_cases runnable : isRunnableState t.state = true
      · rw [if_pos runnable]
        exact ⟨t, ht, runnable⟩
      · rw [if_neg runnable] at found ⊢
        exact ih _ found

theorem pickLe (tasks : List Thread) (left start : Nat) : pick tasks left start ≤ tasks.length := by
  induction left generalizing start with
  | zero => exact Nat.le_refl _
  | succ left ih =>
    simp only [pick]
    cases found : tasks[start]? with
    | none => exact Nat.le_refl _
    | some t =>
      have bound := (List.getElem?_eq_some_iff.mp found).1
      by_cases runnable : isRunnableState t.state = true
      · simp only [runnable, if_true]
        omega
      · simp only [runnable]
        exact ih _

theorem splitTask {tasks : List Thread} {i : Nat} {t : Thread} (here : tasks[i]? = some t) :
    ∃ front back, tasks = front ++ t :: back ∧ i = front.length := by
  obtain ⟨inside, eq⟩ := List.getElem?_eq_some_iff.mp here
  refine ⟨tasks.take i, tasks.drop (i + 1), ?_, by rw [List.length_take]; omega⟩
  rw [← eq, ← List.drop_eq_getElem_cons inside, List.take_append_drop]

theorem removeTaskLast (front : List Thread) (prev : Thread) : removeTask (front ++ [prev]) front.length = front := by
  simp [removeTask]

theorem removeTaskSwaps (front : List Thread) (prev : Thread) (middle : List Thread) (last : Thread) :
    removeTask (front ++ prev :: (middle ++ [last])) front.length = front ++ last :: middle := by
  have end' : (front ++ prev :: (middle ++ [last])).getLast? = some last := by
    rw [← List.cons_append, ← List.append_assoc, List.getLast?_append, List.getLast?_singleton]
    rfl
  have moved : front.length ≠ (front ++ prev :: (middle ++ [last])).length - 1 := by
    simp only [List.length_append, List.length_cons, List.length_nil]
    omega
  simp only [removeTask, end', if_pos moved]
  rw [List.set_append_right _ _ (Nat.le_refl _), Nat.sub_self, List.set_cons_zero, ← List.cons_append,
    ← List.append_assoc, List.dropLast_concat]

theorem removeTaskPerm {tasks : List Thread} {i : Nat} {t : Thread} (here : tasks[i]? = some t) :
    (t :: removeTask tasks i).Perm tasks := by
  obtain ⟨front, back, rfl, rfl⟩ := splitTask here
  rcases List.eq_nil_or_concat back with rfl | ⟨middle, last, rfl⟩
  · rw [removeTaskLast]
    exact (List.perm_append_singleton t front).symm
  · rw [List.concat_eq_append, removeTaskSwaps]
    refine List.Perm.trans (List.Perm.cons t ?_) List.perm_middle.symm
    exact List.Perm.append_left front (List.perm_append_singleton last middle).symm

theorem removeTaskNodup {tasks : List Thread} {i : Nat} {t : Thread} (here : tasks[i]? = some t)
    (nodup : (tasks.map Thread.id).Nodup) : ((removeTask tasks i).map Thread.id).Nodup := by
  have all := ((removeTaskPerm here).map Thread.id).nodup_iff.mpr nodup
  exact (List.nodup_cons.mp all).2

theorem findIdxOfNodup {tasks : List Thread} {i : Nat} {t : Thread}
    (nodup : (tasks.map Thread.id).Nodup) (found : tasks[i]? = some t) :
    tasks.findIdx (fun u => u.id == t.id) = i := by
  obtain ⟨bound, rfl⟩ := List.getElem?_eq_some_iff.mp found
  rw [List.findIdx_eq bound]
  refine ⟨by simp, ?_⟩
  intro j before
  simp only [beq_eq_false_iff_ne, ne_eq]
  intro same
  have jb : j < (tasks.map Thread.id).length := by rw [List.length_map]; omega
  have ib : i < (tasks.map Thread.id).length := by rw [List.length_map]; exact bound
  have equal : j = i := (nodup.getElem_inj_iff).mp (show (tasks.map Thread.id)[j] = (tasks.map Thread.id)[i] by
    simpa using same)
  omega

theorem removeTaskFrom {tasks : List Thread} {i : Nat} {t : Thread} (mem : t ∈ removeTask tasks i) : t ∈ tasks := by
  unfold removeTask at mem
  split at mem
  · exact mem
  · rename_i last found
    split at mem
    · rcases List.mem_or_eq_of_mem_set (List.dropLast_subset _ mem) with old | rfl
      · exact old
      · exact List.mem_of_getLast? found
    · exact List.dropLast_subset _ mem

theorem getNextFrom {tasks : List Thread} {prevTask : Nat} {t : Thread} (mem : t ∈ (getNext tasks prevTask).2) :
    ∃ u ∈ tasks, u.id = t.id := by
  unfold getNext at mem
  cases here : tasks[prevTask]? with
  | none =>
    rw [here] at mem
    exact ⟨t, mem, rfl⟩
  | some prev =>
    simp only [here] at mem
    by_cases kept : tasks.findIdx (fun u => u.id == prev.id) < tasks.length ∧ prev.state = .doNotDisturb
    · rw [if_pos kept] at mem
      exact ⟨t, mem, rfl⟩
    rw [if_neg kept, apply_ite Prod.snd, ite_self] at mem
    by_cases done : prev.state = .completed
    · rw [if_pos done] at mem
      split at mem
      · exact ⟨t, removeTaskFrom mem, rfl⟩
      · exact ⟨t, mem, rfl⟩
    · rw [if_neg done] at mem
      rcases List.mem_or_eq_of_mem_set mem with old | rfl
      · exact ⟨t, old, rfl⟩
      · exact ⟨prev, List.mem_of_getElem? here, rfl⟩

theorem getNextRetires {tasks : List Thread} {prevTask : Nat} {prev : Thread}
    (nodup : (tasks.map Thread.id).Nodup) (found : tasks[prevTask]? = some prev)
    (disturbable : prev.state ≠ .doNotDisturb) :
    (getNext tasks prevTask).2 = retire tasks prevTask := by
  have bound := (List.getElem?_eq_some_iff.mp found).1
  have index := findIdxOfNodup nodup found
  simp only [getNext, retire, found, index, disturbable, and_false, if_false, if_pos bound]
  split <;> split <;> rfl

theorem getNextRunnable {tasks : List Thread} {prevTask : Nat} {prev : Thread}
    (found : tasks[prevTask]? = some prev) (disturbable : prev.state ≠ .doNotDisturb)
    (chosen : (getNext tasks prevTask).1 < (getNext tasks prevTask).2.length) :
    ∃ t, (getNext tasks prevTask).2[(getNext tasks prevTask).1]? = some t ∧
      isRunnableState t.state = true := by
  simp only [getNext, found, disturbable, and_false, if_false] at chosen ⊢
  -- the two ways to build the remaining vector do not matter from here on
  generalize (if prev.state = .completed then _ else _ : List Thread) = rest at chosen ⊢
  by_cases empty : rest.length = 0
  · simp [empty] at chosen
  · rw [if_neg empty] at chosen ⊢
    exact pickRunnable _ _ _ chosen

theorem getNextUndisturbed {tasks : List Thread} {prevTask : Nat} {prev : Thread}
    (nodup : (tasks.map Thread.id).Nodup) (found : tasks[prevTask]? = some prev)
    (parked : prev.state = .doNotDisturb) : getNext tasks prevTask = (prevTask, tasks) := by
  have bound := (List.getElem?_eq_some_iff.mp found).1
  simp only [getNext, found, findIdxOfNodup nodup found, parked, and_true, if_pos bound]

end RRScheduler

end DimOS.Process
