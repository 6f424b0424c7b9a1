import Mathlib.Logic.Function.Basic
import DimOS.Lib.Count
import DimOS.Lib.Transition
import DimOS.Process.Scheduler

/-! One CPU that runs kernel threads. A program gives the atomic steps of a thread
by its program counter; between two steps the timer may interrupt, a sleeping thread
may wake without an unpark, and a thread may be spawned. The next thread is any
runnable one of the vector getNext leaves, so round robin is one of the schedules. -/
namespace DimOS.Process

structure Machine (Pc Mem : Type) where
  kthreads : List Thread
  currKThreadIdx : Nat
  currId : Nat
  pc : Nat → Pc
  mem : Mem

namespace Machine
variable {Pc Mem : Type}

def thisThread (m : Machine Pc Mem) : Option Thread := m.kthreads[m.currKThreadIdx]?

def goto (m : Machine Pc Mem) (id : Nat) (next : Pc) : Machine Pc Mem :=
  { m with pc := Function.update m.pc id next }

def withState (m : Machine Pc Mem) (id : Nat) (state : TaskState) : Machine Pc Mem :=
  { m with kthreads := setState m.kthreads id state }

@[simp] theorem gotoMem (m : Machine Pc Mem) (id : Nat) (next : Pc) : (m.goto id next).mem = m.mem := rfl
@[simp] theorem gotoPc (m : Machine Pc Mem) (id : Nat) (next : Pc) :
    (m.goto id next).pc = Function.update m.pc id next := rfl
@[simp] theorem gotoThreads (m : Machine Pc Mem) (id : Nat) (next : Pc) :
    (m.goto id next).kthreads = m.kthreads := rfl
@[simp] theorem withStateMem (m : Machine Pc Mem) (id : Nat) (state : TaskState) :
    (m.withState id state).mem = m.mem := rfl
@[simp] theorem withStatePc (m : Machine Pc Mem) (id : Nat) (state : TaskState) :
    (m.withState id state).pc = m.pc := rfl
@[simp] theorem withStateThreads (m : Machine Pc Mem) (id : Nat) (state : TaskState) :
    (m.withState id state).kthreads = setState m.kthreads id state := rfl

/- scheduleKernelThread with the interrupted thread as prevThread. A machine on which
no thread is runnable takes no further step (the panic of the source). -/
def schedule (m : Machine Pc Mem) (next : Nat) : Option (Machine Pc Mem) :=
  match m.thisThread with
  | none => none
  | some prev =>
    if prev.state = .doNotDisturb then some m
    else
      let threads := RRScheduler.retire m.kthreads m.currKThreadIdx
      match threads[next]? with
      | none => none
      | some t =>
        if isRunnableState t.state then
          some { m with kthreads := threads, currKThreadIdx := next }
        else none

theorem scheduleCases {m out : Machine Pc Mem} {next : Nat} (ok : m.schedule next = some out) :
    out = m ∨ out = { m with kthreads := RRScheduler.retire m.kthreads m.currKThreadIdx
                             currKThreadIdx := next } := by
  simp only [schedule] at ok
  split at ok <;> try contradiction
  split at ok
  · exact .inl (Option.some.inj ok).symm
  · split at ok <;> try contradiction
    split at ok <;> try contradiction
    exact .inr (Option.some.inj ok).symm

theorem scheduleFrame {m out : Machine Pc Mem} {next : Nat} (ok : m.schedule next = some out) :
    out.pc = m.pc ∧ out.mem = m.mem := by
  rcases scheduleCases ok with rfl | rfl <;> exact ⟨rfl, rfl⟩

theorem roundRobinSchedules {m : Machine Pc Mem} {prev : Thread}
    (nodup : (m.kthreads.map Thread.id).Nodup) (found : m.thisThread = some prev)
    (left : (RRScheduler.getNext m.kthreads m.currKThreadIdx).1 <
      (RRScheduler.getNext m.kthreads m.currKThreadIdx).2.length) :
    m.schedule (RRScheduler.getNext m.kthreads m.currKThreadIdx).1 =
      some { m with kthreads := (RRScheduler.getNext m.kthreads m.currKThreadIdx).2
                    currKThreadIdx := (RRScheduler.getNext m.kthreads m.currKThreadIdx).1 } := by
  by_cases parked : prev.state = .doNotDisturb
  · rw [RRScheduler.getNextUndisturbed nodup found parked]
    simp only [schedule, found, parked, if_true]
  · obtain ⟨t, chosen, runnable⟩ := RRScheduler.getNextRunnable found parked left
    rw [RRScheduler.getNextRetires nodup found parked] at chosen ⊢
    simp only [schedule, found, if_neg parked, chosen, runnable, if_true]

end Machine

structure Program (Pc Mem ι : Type) where
  start : Pc
  exec : Machine Pc Mem → Nat → ι → Option (Machine Pc Mem)

inductive Event (ι : Type) where
  | exec (label : ι)
  | interrupt (next : Nat)
  | wake (id : Nat)
  | spawn
  deriving DecidableEq, Repr

variable {Pc Mem ι : Type}

def step (prog : Program Pc Mem ι) (m : Machine Pc Mem) : Event ι → Option (Machine Pc Mem)
  | .exec label =>
    match m.thisThread with
    | none => none
    | some t => prog.exec m t.id label
  | .interrupt next => m.schedule next
  | .wake id =>
    match getThread m.kthreads id with
    | none => none
    | some t => if t.state = .sleeping then some (m.withState id .running) else none
  | .spawn => some { m with kthreads := m.kthreads ++ [⟨m.currId, .notStarted⟩]
                            currId := m.currId + 1 }

/- Threads as they are pushed to kthreads before the first of them runs. -/
structure Booted (prog : Program Pc Mem ι) (mem : Mem) (m : Machine Pc Mem) : Prop where
  mem : m.mem = mem
  pc : m.pc = fun _ => prog.start
  fresh : ∀ t ∈ m.kthreads, t.id < m.currId
  nodup : (m.kthreads.map Thread.id).Nodup
  runnable : ∀ t ∈ m.kthreads, isRunnableState t.state = true

/- Ids come from one counter: a thread that was never spawned has not moved. -/
structure Fresh (start : Pc) (m : Machine Pc Mem) : Prop where
  below : ∀ t ∈ m.kthreads, t.id < m.currId
  idle : ∀ id, m.currId ≤ id → m.pc id = start

def IdsFrom (out threads : List Thread) : Prop := ∀ t ∈ out, ∃ u ∈ threads, u.id = t.id

theorem idsFromSetState (threads : List Thread) (id : Nat) (state : TaskState) :
    IdsFrom (setState threads id state) threads := by
  intro t mem
  obtain ⟨u, hu, rfl⟩ := List.mem_map.mp mem
  exact ⟨u, hu, by split <;> rfl⟩

theorem idsFromRetire (threads : List Thread) (prev : Nat) :
    IdsFrom (RRScheduler.retire threads prev) threads := by
  intro t mem
  unfold RRScheduler.retire at mem
  split at mem
  · exact ⟨t, mem, rfl⟩
  · rename_i u found
    split at mem
    · exact ⟨t, RRScheduler.removeTaskFrom mem, rfl⟩
    · rcases List.mem_or_eq_of_mem_set mem with old | rfl
      · exact ⟨t, old, rfl⟩
      · exact ⟨u, List.mem_of_getElem? found, rfl⟩

/- A step of thread id: only its own program counter moves and no id appears. -/
structure Moves (m out : Machine Pc Mem) (id : Nat) (next : Pc) : Prop where
  pc : out.pc = Function.update m.pc id next
  counter : out.currId = m.currId
  threads : IdsFrom out.kthreads m.kthreads

theorem movesGoto (m : Machine Pc Mem) (id : Nat) (next : Pc) : Moves m (m.goto id next) id next :=
  ⟨rfl, rfl, fun t mem => ⟨t, mem, rfl⟩⟩

theorem movesState (m : Machine Pc Mem) (id : Nat) (next : Pc) (other : Nat) (state : TaskState) :
    Moves m ((m.goto id next).withState other state) id next :=
  ⟨rfl, rfl, idsFromSetState _ _ _⟩

theorem movesSchedule {m out : Machine Pc Mem} {id : Nat} {next : Pc} {chosen : Nat}
    (ok : (m.goto id next).schedule chosen = some out) : Moves m out id next := by
  rcases Machine.scheduleCases ok with rfl | rfl
  · exact movesGoto m id next
  · exact ⟨rfl, rfl, idsFromRetire _ _⟩

theorem movesStay (m : Machine Pc Mem) (id : Nat) : Moves m m id (m.pc id) :=
  ⟨(Function.update_eq_self id m.pc).symm, rfl, fun t mem => ⟨t, mem, rfl⟩⟩

theorem Moves.withMem {m out : Machine Pc Mem} {id : Nat} {next : Pc} (h : Moves m out id next)
    (mem : Mem) : Moves m { out with mem := mem } id next := ⟨h.pc, h.counter, h.threads⟩

theorem Fresh.move {start : Pc} {m out : Machine Pc Mem} (h : Fresh start m) {id : Nat} {next : Pc}
    (known : id < m.currId) (moves : Moves m out id next) : Fresh start out := by
  constructor
  · intro t mem
    obtain ⟨u, hu, same⟩ := moves.threads t mem
    rw [moves.counter, ← same]
    exact h.below u hu
  · intro a above
    rw [moves.counter] at above
    rw [moves.pc, Function.update_of_ne (by omega)]
    exact h.idle a above

theorem stepCases {prog : Program Pc Mem ι} {m out : Machine Pc Mem} {e : Event ι}
    (ok : step prog m e = some out) :
    (∃ label t, e = .exec label ∧ m.thisThread = some t ∧ prog.exec m t.id label = some out) ∨
      (∀ label, e ≠ .exec label) ∧ out.pc = m.pc ∧ out.mem = m.mem := by
  cases e with
  | exec label =>
    simp only [step] at ok
    cases ht : m.thisThread with
    | none => simp [ht] at ok
    | some t => exact .inl ⟨label, t, rfl, rfl, by simpa [ht] using ok⟩
  | interrupt next =>
    have frame := Machine.scheduleFrame ok
    exact .inr ⟨by simp, frame⟩
  | wake id =>
    simp only [step] at ok
    split at ok <;> try contradiction
    split at ok <;> try contradiction
    cases Option.some.inj ok
    exact .inr ⟨by simp, rfl, rfl⟩
  | spawn =>
    cases Option.some.inj ok
    exact .inr ⟨by simp, rfl, rfl⟩

theorem sharedInvariant (prog : Program Pc Mem ι) (inv : (Nat → Pc) → Mem → Prop)
    (keep : ∀ m id label out, inv m.pc m.mem → prog.exec m id label = some out →
      inv out.pc out.mem)
    {m out : Machine Pc Mem} {e : Event ι} (before : inv m.pc m.mem)
    (ok : step prog m e = some out) : inv out.pc out.mem := by
  rcases stepCases ok with ⟨label, t, rfl, -, ran⟩ | ⟨-, pcs, mems⟩
  · exact keep m t.id label out before ran
  · rw [pcs, mems]; exact before

theorem bootedFresh {prog : Program Pc Mem ι} {mem : Mem} {m : Machine Pc Mem}
    (h : Booted prog mem m) : Fresh prog.start m :=
  ⟨h.fresh, fun id _ => by rw [h.pc]⟩

theorem otherFresh {prog : Program Pc Mem ι} {m out : Machine Pc Mem} {e : Event ι}
    (h : Fresh prog.start m) (other : ∀ label, e ≠ .exec label) (ok : step prog m e = some out) :
    Fresh prog.start out ∧ m.currId ≤ out.currId := by
  cases e with
  | exec label => exact absurd rfl (other label)
  | interrupt next =>
    rcases Machine.scheduleCases ok with rfl | rfl
    · exact ⟨h, Nat.le_refl _⟩
    · refine ⟨⟨?_, h.idle⟩, Nat.le_refl _⟩
      intro t mem
      obtain ⟨u, hu, same⟩ := idsFromRetire _ _ t mem
      rw [← same]; exact h.below u hu
  | wake id =>
    simp only [step] at ok
    split at ok <;> try contradiction
    split at ok <;> try contradiction
    cases Option.some.inj ok
    refine ⟨⟨?_, h.idle⟩, Nat.le_refl _⟩
    intro t mem
    obtain ⟨u, hu, same⟩ := idsFromSetState _ _ _ t mem
    rw [← same]; exact h.below u hu
  | spawn =>
    cases Option.some.inj ok
    refine ⟨⟨?_, fun id above => h.idle id (Nat.le_of_succ_le above)⟩, Nat.le_succ _⟩
    intro t mem
    rcases List.mem_append.mp mem with old | new
    · have below := h.below t old
      exact Nat.lt_succ_of_lt below
    · rw [List.mem_singleton.mp new]
      exact Nat.lt_succ_self _

/- How many of the threads handed out so far stand at a program counter f accepts. -/
def population (f : Pc → Bool) (m : Machine Pc Mem) : Nat :=
  Lib.Count.count (fun id => f (m.pc id)) m.currId

theorem populationMove (f : Pc → Bool) {m out : Machine Pc Mem} {id : Nat} {next : Pc}
    (known : id < m.currId) (moves : Moves m out id next) :
    population f out + (f (m.pc id)).toNat = population f m + (f next).toNat := by
  have others (k : Nat) (ne : k ≠ id) : f (out.pc k) = f (m.pc k) := by
    rw [moves.pc, Function.update_of_ne ne]
  have here : f (out.pc id) = f next := by rw [moves.pc, Function.update_self]
  unfold population
  rw [moves.counter]
  cases before : f (m.pc id) <;> cases after : f next
  · rw [Lib.Count.countCongr (f := fun k => f (m.pc k))]
    intro k _
    by_cases same : k = id
    · subst k; rw [here, before, after]
    · exact others k same
  · simpa using Lib.Count.countRaise (f := fun k => f (m.pc k)) known before (here.trans after) others
  · simpa using Lib.Count.countLower (f := fun k => f (m.pc k)) known before (here.trans after) others
  · rw [Lib.Count.countCongr (f := fun k => f (m.pc k))]
    intro k _
    by_cases same : k = id
    · subst k; rw [here, before, after]
    · exact others k same

theorem populationSame (f : Pc → Bool) {m out : Machine Pc Mem} {id : Nat} {next : Pc}
    (known : id < m.currId) (moves : Moves m out id next) (same : f next = f (m.pc id)) :
    population f out = population f m := by
  have moved := populationMove f known moves
  rw [same] at moved
  omega

theorem populationEnter (f : Pc → Bool) {m out : Machine Pc Mem} {id : Nat} {next : Pc}
    (known : id < m.currId) (moves : Moves m out id next) (before : f (m.pc id) = false)
    (after : f next = true) : population f out = population f m + 1 := by
  simpa [before, after] using populationMove f known moves

theorem populationLeave (f : Pc → Bool) {m out : Machine Pc Mem} {id : Nat} {next : Pc}
    (known : id < m.currId) (moves : Moves m out id next) (before : f (m.pc id) = true)
    (after : f next = false) : population f out + 1 = population f m := by
  simpa [before, after] using populationMove f known moves

theorem populationNoEnter (f : Pc → Bool) {m out : Machine Pc Mem} {id : Nat} {next : Pc}
    (known : id < m.currId) (moves : Moves m out id next)
    (stays : f next = true → f (m.pc id) = true) : population f out ≤ population f m := by
  have moved := populationMove f known moves
  cases after : f next
  · simp [after] at moved
    omega
  · simp [after, stays after] at moved
    omega

theorem populationOther {prog : Program Pc Mem ι} (f : Pc → Bool) (away : f prog.start = false)
    {m out : Machine Pc Mem} {e : Event ι} (h : Fresh prog.start m)
    (other : ∀ label, e ≠ .exec label) (pcs : out.pc = m.pc) (ok : step prog m e = some out) :
    population f out = population f m := by
  obtain ⟨extra, grown⟩ := Nat.exists_eq_add_of_le (otherFresh h other ok).2
  unfold population
  rw [pcs, grown]
  apply Lib.Count.countExtend
  intro id above
  rw [h.idle id above, away]

end DimOS.Process
