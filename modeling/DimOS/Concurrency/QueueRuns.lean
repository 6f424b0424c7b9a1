import DimOS.Process.Machine
import DimOS.Concurrency.Primitives

/-! The wait queues of any number of mutexes and condition variables, under any number of threads that
call their operations in any order. park leaves its thread to the scheduler, which writes RUNNING into
it: the thread comes back on its own, whether or not a waker took its id off the queue. -/
namespace DimOS.Concurrency.QueueRuns
open Process
open Lib.Transition (run Visits Guarded)

section
variable {ι κ : Type}

inductive Place (ι κ : Type) where
  | outside
  | acquiring (l : ι)
  | parking (l : ι)
  | yielding (l : ι)
  | releasing (l : ι)
  | waitGuard (c : κ) (l : ι)
  | waitRelease (c : κ) (l : ι)
  | waitPush (c : κ)
  | waitUnguard (c : κ)
  | waitPark (c : κ)
  | waitYield (c : κ)
  | waitReturned (c : κ)
  | notifyingOne (c : κ)
  | notifyingAll (c : κ)
  | panicked
  | exited
  deriving DecidableEq, Repr

structure Shared (ι κ : Type) where
  mutex : ι → MutexLock
  condition : κ → ConditionVariable

def Shared.default : Shared ι κ := ⟨fun _ => .default, fun _ => .default⟩

inductive Label (ι κ : Type) where
  | acquireLock (l : ι)
  | releaseLock (l : ι)
  | wait (c : κ) (l : ι)
  | notifyOne (c : κ)
  | notifyAll (c : κ)
  | exit
  | advance
  | yieldTo (next : Nat)
  deriving DecidableEq, Repr

abbrev State (ι κ : Type) := Machine (Place ι κ) (Shared ι κ)

section Program
variable [DecidableEq ι] [DecidableEq κ]

def mutexView (l : ι) : View (Shared ι κ) MutexLock :=
  ⟨fun s => s.mutex l, fun s lk => { s with mutex := Function.update s.mutex l lk }⟩

def conditionView (c : κ) : View (Shared ι κ) ConditionVariable :=
  ⟨fun s => s.condition c, fun s cv => { s with condition := Function.update s.condition c cv }⟩

def call (m : State ι κ) (id : Nat) : Label ι κ → Option (State ι κ)
  | .acquireLock l => some (m.goto id (.acquiring l))
  | .releaseLock l => some (m.goto id (.releasing l))
  | .wait c l => some (m.goto id (.waitGuard c l))
  | .notifyOne c => some (m.goto id (.notifyingOne c))
  | .notifyAll c => some (m.goto id (.notifyingAll c))
  | .exit => some ((m.goto id .exited).withState id .completed)
  | _ => none

def notify (m : State ι κ) (id : Nat) (c : κ) (woken : Option (List Nat × ConditionVariable)) : State ι κ :=
  notifyStep (conditionView c) m id woken .outside .panicked

def advance (m : State ι κ) (id : Nat) : Place ι κ → Option (State ι κ)
  | .acquiring l => some (acquireStep (mutexView l) m id .outside (.parking l))
  | .parking l => some ((m.goto id (.yielding l)).withState id .sleeping)
  | .releasing l => some (releaseStep (mutexView l) m id .outside .panicked)
  | .waitGuard c l => some (waitGuardStep (conditionView c) m id (.waitRelease c l))
  | .waitRelease c l => some (releaseStep (mutexView l) m id (.waitPush c) .panicked)
  | .waitPush c => some (waitPushStep (conditionView c) m id (.waitUnguard c))
  | .waitUnguard c => some (waitUnguardStep (conditionView c) m id (.waitPark c))
  | .waitPark c => some ((m.goto id (.waitYield c)).withState id .sleeping)
  | .notifyingOne c => some (notify m id c (m.mem.condition c).notifyOneSection)
  | .notifyingAll c => some (notify m id c (m.mem.condition c).notifyAllSection)
  | _ => none

/- wait returns to its caller as soon as the thread gets the CPU back from its yield. -/
def yieldStep (m : State ι κ) (id next : Nat) : Place ι κ → Option (State ι κ)
  | .yielding l => (m.goto id (.acquiring l)).schedule next
  | .waitYield c => (m.goto id (.waitReturned c)).schedule next
  | .exited => m.schedule next
  | _ => none

def Place.free : Place ι κ → Bool
  | .outside | .waitReturned _ => true
  | _ => false

def exec (m : State ι κ) (id : Nat) : Label ι κ → Option (State ι κ)
  | .advance => advance m id (m.pc id)
  | .yieldTo next => yieldStep m id next (m.pc id)
  | label => if (m.pc id).free then call m id label else none

def program : Program (Place ι κ) (Shared ι κ) (Label ι κ) := ⟨.outside, exec⟩

end Program

/- Blocked in acquireLock of `l`, or in wait of `c`. -/
def Place.InLock (l : ι) : Place ι κ → Prop
  | .parking k | .yielding k | .acquiring k => k = l
  | _ => False

def Place.InWait (c : κ) : Place ι κ → Prop
  | .waitUnguard k | .waitPark k | .waitYield k | .waitReturned k => k = c
  | _ => False

def ids (m : State ι κ) : List Nat := m.kthreads.map Thread.id

structure Holds (m : State ι κ) (queue : List Nat) (blocked : Place ι κ → Prop) : Prop where
  once : queue.Nodup
  there : ∀ id ∈ queue, id ∈ ids m
  blocked : ∀ id ∈ queue, blocked (m.pc id)

/- Every queue holds waiting threads once, and no thread has reached the panic of getThread. -/
structure QueuesHold (m : State ι κ) : Prop where
  locks : ∀ l, Holds m (m.mem.mutex l).queue (Place.InLock l)
  waits : ∀ c, Holds m (m.mem.condition c).queue (Place.InWait c)
  calm : ∀ id, m.pc id ≠ .panicked

structure Sound (m : State ι κ) : Prop where
  nodup : (ids m).Nodup
  below : ∀ id ∈ ids m, id < m.currId
  ended : ∀ t ∈ m.kthreads, t.state = .completed → m.pc t.id = .exited
  queues : QueuesHold m

/- A thread that parked runs on only after a waker took its id off the queue. -/
def Woken (m : State ι κ) : Event (Label ι κ) → Prop
  | .exec _ =>
    match m.thisThread with
    | none => True
    | some t =>
      (∀ l, m.pc t.id = .acquiring l → t.id ∉ (m.mem.mutex l).queue) ∧
        ∀ c, m.pc t.id = .waitReturned c → t.id ∉ (m.mem.condition c).queue
  | _ => True

/- The completed threads among `out` were completed among `threads`. -/
def NoneEnds (out threads : List Thread) : Prop :=
  ∀ t ∈ out, t.state = .completed → ∃ u ∈ threads, u.id = t.id ∧ u.state = .completed

theorem noneEndsSet (threads : List Thread) (id : Nat) {state : TaskState} (goes : state ≠ .completed) :
    NoneEnds (setState threads id state) threads := by
  intro t mem done
  obtain ⟨u, there, rfl⟩ := List.mem_map.mp mem
  split at done
  · exact absurd done goes
  · next other =>
    rw [if_neg other]
    exact ⟨u, there, rfl, done⟩

theorem unparkAllSpec {threads : List Thread} {woken : List Nat}
    (there : ∀ id ∈ woken, id ∈ threads.map Thread.id) :
    ∃ out, unparkAll threads woken = some out ∧ out.map Thread.id = threads.map Thread.id ∧
      NoneEnds out threads := by
  induction woken generalizing threads with
  | nil => exact ⟨threads, rfl, rfl, fun t mem done => ⟨t, mem, rfl, done⟩⟩
  | cons next rest ih =>
    obtain ⟨t, found⟩ := getThreadSome (there next List.mem_cons_self)
    obtain ⟨out, done, same, ends⟩ := @ih (setState threads next .running)
      (fun id mem => by rw [setStateIds]; exact there id (List.mem_cons_of_mem _ mem))
    refine ⟨out, by simp only [unparkAll, found, done], by rw [same, setStateIds], fun t mem completed => ?_⟩
    obtain ⟨u, mid, id, state⟩ := ends t mem completed
    obtain ⟨v, first, id', state'⟩ := noneEndsSet threads next (by simp) u mid state
    exact ⟨v, first, id'.trans id, state'⟩

theorem Holds.move {m out : State ι κ} {queue queue' : List Nat} {blocked : Place ι κ → Prop} {id : Nat}
    {next : Place ι κ} (h : Holds m queue blocked) (pc : out.pc = Function.update m.pc id next)
    (same : ids out = ids m) (here : id ∈ ids m) (once : queue'.Nodup)
    (left : ∀ a ∈ queue', a ≠ id → a ∈ queue) (own : id ∈ queue' → blocked next) : Holds out queue' blocked := by
  refine ⟨once, fun a mem => ?_, fun a mem => ?_⟩
  · rw [same]
    by_cases mine : a = id
    · rw [mine]
      exact here
    · exact h.there a (left a mem mine)
  · rw [pc]
    by_cases mine : a = id
    · subst mine
      rw [Function.update_self]
      exact own mem
    · rw [Function.update_of_ne mine]
      exact h.blocked a (left a mem mine)

theorem Holds.push {m out : State ι κ} {queue : List Nat} {blocked : Place ι κ → Prop} {id : Nat}
    {next : Place ι κ} (h : Holds m queue blocked) (pc : out.pc = Function.update m.pc id next)
    (same : ids out = ids m) (here : id ∈ ids m) (absent : id ∉ queue) (now : blocked next) :
    Holds out (queue ++ [id]) blocked := by
  refine h.move pc same here ?_ (fun a mem other => ?_) (fun _ => now)
  · refine List.nodup_append.mpr ⟨h.once, List.nodup_singleton _, fun a mem b last => ?_⟩
    rw [List.mem_singleton.mp last]
    rintro rfl
    exact absent mem
  · rcases List.mem_append.mp mem with old | last
    · exact old
    · exact absurd (List.mem_singleton.mp last) other

theorem Sound.move {m out : State ι κ} {id : Nat} {next : Place ι κ} (h : Sound m) (here : id ∈ ids m)
    (live : m.pc id ≠ .exited) (pc : out.pc = Function.update m.pc id next) (counter : out.currId = m.currId)
    (same : ids out = ids m)
    (ends : NoneEnds out.kthreads m.kthreads ∨
      next = .exited ∧ ∀ t ∈ out.kthreads, t.state = .completed → t.id ≠ id →
        ∃ u ∈ m.kthreads, u.id = t.id ∧ u.state = .completed)
    (calm : next ≠ .panicked)
    (locks : ∀ l, Holds out (out.mem.mutex l).queue (Place.InLock l))
    (waits : ∀ c, Holds out (out.mem.condition c).queue (Place.InWait c)) : Sound out := by
  refine ⟨same ▸ h.nodup, ?_, ?_, locks, waits, ?_⟩
  · rw [same, counter]
    exact h.below
  · intro t mem done
    have was : t.id ≠ id → ∃ u ∈ m.kthreads, u.id = t.id ∧ u.state = .completed := by
      intro other
      rcases ends with none | ⟨-, others⟩
      · exact none t mem done
      · exact others t mem done other
    by_cases mine : t.id = id
    · rw [pc, mine, Function.update_self]
      rcases ends with none | ⟨exits, -⟩
      · obtain ⟨u, there, id', state⟩ := none t mem done
        have exited := h.ended u there state
        rw [id', mine] at exited
        exact absurd exited live
      · exact exits
    · obtain ⟨u, there, id', state⟩ := was mine
      rw [pc, Function.update_of_ne mine, ← id']
      exact h.ended u there state
  · intro a
    rw [pc]
    by_cases mine : a = id
    · subst mine
      rw [Function.update_self]
      exact calm
    · rw [Function.update_of_ne mine]
      exact h.queues.calm a

/- Thread `id` is in no queue. -/
structure Absent (m : State ι κ) (id : Nat) : Prop where
  locks : ∀ l, id ∉ (m.mem.mutex l).queue
  waits : ∀ c, id ∉ (m.mem.condition c).queue

theorem Sound.absent {m : State ι κ} {id : Nat} (h : Sound m) (noLock : ∀ l, ¬ (m.pc id).InLock l)
    (noWait : ∀ c, ¬ (m.pc id).InWait c) : Absent m id :=
  ⟨fun l mem => noLock l ((h.queues.locks l).blocked id mem),
    fun c mem => noWait c ((h.queues.waits c).blocked id mem)⟩

theorem Sound.shrink {m out : State ι κ} {id : Nat} {next : Place ι κ} (h : Sound m) (here : id ∈ ids m)
    (live : m.pc id ≠ .exited) (absent : Absent m id) (pc : out.pc = Function.update m.pc id next)
    (counter : out.currId = m.currId) (same : ids out = ids m) (ends : NoneEnds out.kthreads m.kthreads)
    (calm : next ≠ .panicked)
    (locks : ∀ l, (out.mem.mutex l).queue.Sublist (m.mem.mutex l).queue)
    (waits : ∀ c, (out.mem.condition c).queue.Sublist (m.mem.condition c).queue) : Sound out := by
  refine h.move here live pc counter same (.inl ends) calm (fun l => ?_) (fun c => ?_)
  · refine (h.queues.locks l).move pc same here ((h.queues.locks l).once.sublist (locks l))
      (fun a mem _ => (locks l).subset mem) (fun mem => ?_)
    exact absurd ((locks l).subset mem) (absent.locks l)
  · refine (h.queues.waits c).move pc same here ((h.queues.waits c).once.sublist (waits c))
      (fun a mem _ => (waits c).subset mem) (fun mem => ?_)
    exact absurd ((waits c).subset mem) (absent.waits c)

theorem Sound.keep {m out : State ι κ} {id : Nat} {next : Place ι κ} (h : Sound m) (here : id ∈ ids m)
    (live : m.pc id ≠ .exited) (pc : out.pc = Function.update m.pc id next) (counter : out.currId = m.currId)
    (same : ids out = ids m) (ends : NoneEnds out.kthreads m.kthreads) (calm : next ≠ .panicked)
    (locks : ∀ l, (out.mem.mutex l).queue = (m.mem.mutex l).queue)
    (waits : ∀ c, (out.mem.condition c).queue = (m.mem.condition c).queue)
    (inLock : ∀ l, (m.pc id).InLock l → next.InLock l) (inWait : ∀ c, (m.pc id).InWait c → next.InWait c) :
    Sound out := by
  refine h.move here live pc counter same (.inl ends) calm (fun l => ?_) (fun c => ?_)
  · rw [locks l]
    exact (h.queues.locks l).move pc same here (h.queues.locks l).once (fun a mem _ => mem)
      (fun mem => inLock l ((h.queues.locks l).blocked id mem))
  · rw [waits c]
    exact (h.queues.waits c).move pc same here (h.queues.waits c).once (fun a mem _ => mem)
      (fun mem => inWait c ((h.queues.waits c).blocked id mem))

theorem Holds.threads {m out : State ι κ} {queue : List Nat} {blocked : Place ι κ → Prop} (h : Holds m queue blocked)
    (pc : out.pc = m.pc) (off : ¬ blocked .exited) (kept : ∀ id ∈ ids m, m.pc id ≠ .exited → id ∈ ids out) :
    Holds out queue blocked := by
  refine ⟨h.once, fun id mem => kept id (h.there id mem) ?_, fun id mem => by rw [pc]; exact h.blocked id mem⟩
  intro exited
  apply off
  rw [← exited]
  exact h.blocked id mem

theorem Sound.withThreads {m out : State ι κ} (h : Sound m) (pc : out.pc = m.pc) (mem : out.mem = m.mem)
    (nodup : (ids out).Nodup) (below : ∀ id ∈ ids out, id < out.currId) (ends : NoneEnds out.kthreads m.kthreads)
    (kept : ∀ id ∈ ids m, m.pc id ≠ .exited → id ∈ ids out) : Sound out := by
  refine ⟨nodup, below, ?_, fun l => ?_, fun c => ?_, by rw [pc]; exact h.queues.calm⟩
  · intro t there done
    obtain ⟨u, was, id, state⟩ := ends t there done
    rw [pc, ← id]
    exact h.ended u was state
  · rw [mem]
    exact (h.queues.locks l).threads pc not_false kept
  · rw [mem]
    exact (h.queues.waits c).threads pc not_false kept

theorem scheduleSound {m out : State ι κ} {next : Nat} (h : Sound m) (ok : m.schedule next = some out) : Sound out := by
  rcases Machine.scheduleCases ok with rfl | rfl
  · exact h
  · cases here : m.kthreads[m.currKThreadIdx]? with
    | none =>
      have same : RRScheduler.retire m.kthreads m.currKThreadIdx = m.kthreads := by
        simp only [RRScheduler.retire, here]
      rw [same]
      exact h.withThreads rfl rfl h.nodup h.below (fun t mem done => ⟨t, mem, rfl, done⟩) (fun id mem _ => mem)
    | some prev =>
      by_cases done : prev.state = .completed
      · have same : RRScheduler.retire m.kthreads m.currKThreadIdx =
            RRScheduler.removeTask m.kthreads m.currKThreadIdx := by
          simp only [RRScheduler.retire, here, done, if_true]
        have perm := RRScheduler.removeTaskPerm here
        have permIds := perm.map Thread.id
        rw [same]
        refine h.withThreads rfl rfl (RRScheduler.removeTaskNodup here h.nodup) (fun id mem => ?_) (fun t mem ended => ?_)
          (fun id mem live => ?_)
        · exact h.below id (permIds.subset (List.mem_cons_of_mem _ mem))
        · exact ⟨t, perm.subset (List.mem_cons_of_mem _ mem), rfl, ended⟩
        · rcases List.mem_cons.mp (permIds.symm.subset mem) with gone | kept
          · have exited := h.ended prev (List.mem_of_getElem? here) done
            rw [← gone] at exited
            exact absurd exited live
          · exact kept
      · have same : RRScheduler.retire m.kthreads m.currKThreadIdx =
            m.kthreads.set m.currKThreadIdx { prev with state := .running } := by
          simp only [RRScheduler.retire, here, done, if_false]
        have sameIds : ids { m with
            kthreads := m.kthreads.set m.currKThreadIdx { prev with state := .running }
            currKThreadIdx := next } = ids m := idsSet _ _ here _
        rw [same]
        refine h.withThreads rfl rfl ?_ (fun id mem => ?_) (fun t mem ended => ?_) (fun id mem _ => ?_)
        · exact sameIds ▸ h.nodup
        · exact h.below id (sameIds ▸ mem)
        · rcases List.mem_or_eq_of_mem_set mem with old | rfl
          · exact ⟨t, old, rfl, ended⟩
          · cases ended
        · exact sameIds.symm ▸ mem

theorem otherSound [DecidableEq ι] [DecidableEq κ] {m out : State ι κ} {e : Event (Label ι κ)} (h : Sound m)
    (other : ∀ label, e ≠ .exec label) (ok : step program m e = some out) : Sound out := by
  cases e with
  | exec label => exact absurd rfl (other label)
  | interrupt next => exact scheduleSound h ok
  | wake id =>
    simp only [step] at ok
    split at ok
    · cases ok
    · split at ok
      · cases Option.some.inj ok
        have same : ids (m.withState id .running) = ids m := setStateIds m.kthreads id .running
        exact h.withThreads rfl rfl (same ▸ h.nodup) (same ▸ h.below) (noneEndsSet m.kthreads id (by simp))
          (fun a mem _ => same ▸ mem)
      · cases ok
  | spawn =>
    cases Option.some.inj ok
    refine h.withThreads rfl rfl ?_ ?_ ?_ ?_
    · simp only [ids, List.map_append, List.map_cons, List.map_nil]
      refine List.nodup_append.mpr ⟨h.nodup, List.nodup_singleton _, ?_⟩
      intro a mem b last same
      rw [List.mem_singleton] at last
      have low := h.below a mem
      omega
    · intro id mem
      simp only [ids, List.map_append, List.map_cons, List.map_nil] at mem
      rcases List.mem_append.mp mem with old | new
      · have low := h.below id old
        exact Nat.lt_succ_of_lt low
      · rw [List.mem_singleton.mp new]
        exact Nat.lt_succ_self _
    · intro t mem done
      rcases List.mem_append.mp mem with old | new
      · exact ⟨t, old, rfl, done⟩
      · rw [List.mem_singleton.mp new] at done
        cases done
    · intro id mem _
      simp only [ids, List.map_append]
      exact List.mem_append_left _ mem

theorem mutexSetQueue [DecidableEq ι] (s : Shared ι κ) (l k : ι) (lk : MutexLock) :
    (((mutexView l).set s lk).mutex k).queue = if k = l then lk.queue else (s.mutex k).queue := by
  simp only [mutexView, Function.update_apply]
  split <;> rfl

theorem conditionSetQueue [DecidableEq κ] (s : Shared ι κ) (c k : κ) (cv : ConditionVariable) :
    (((conditionView c).set s cv).condition k).queue = if k = c then cv.queue else (s.condition k).queue := by
  simp only [conditionView, Function.update_apply]
  split <;> rfl

theorem mutexSetShrinks [DecidableEq ι] (s : Shared ι κ) (l : ι) {lk : MutexLock}
    (less : lk.queue.Sublist (s.mutex l).queue) (k : ι) :
    (((mutexView l).set s lk).mutex k).queue.Sublist (s.mutex k).queue := by
  rw [mutexSetQueue]
  split
  · next same =>
    rw [same]
    exact less
  · exact List.Sublist.refl _

theorem conditionSetShrinks [DecidableEq κ] (s : Shared ι κ) (c : κ) {cv : ConditionVariable}
    (less : cv.queue.Sublist (s.condition c).queue) (k : κ) :
    (((conditionView c).set s cv).condition k).queue.Sublist (s.condition k).queue := by
  rw [conditionSetQueue]
  split
  · next same =>
    rw [same]
    exact less
  · exact List.Sublist.refl _

theorem NoneEnds.refl (threads : List Thread) : NoneEnds threads threads :=
  fun t mem done => ⟨t, mem, rfl, done⟩

theorem acquireSound [DecidableEq ι] {m : State ι κ} {id : Nat} {l : ι} (h : Sound m) (here : id ∈ ids m)
    (at' : m.pc id = .acquiring l) (woken : id ∉ (m.mem.mutex l).queue) :
    Sound (acquireStep (mutexView l) m id .outside (.parking l)) := by
  have live : m.pc id ≠ .exited := by rw [at']; simp
  have absent : Absent m id := by
    refine ⟨fun k mem => ?_, fun c mem => ?_⟩
    · have blocked := (h.queues.locks k).blocked id mem
      rw [at'] at blocked
      cases blocked
      exact woken mem
    · have blocked := (h.queues.waits c).blocked id mem
      rw [at'] at blocked
      exact blocked
  unfold acquireStep
  cases attempt : ((mutexView l).get m.mem).acquireSection id with
  | none => exact h
  | some out =>
    obtain ⟨a, lk⟩ := out
    obtain ⟨-, ⟨-, rfl, rfl⟩ | ⟨-, rfl, rfl⟩⟩ := acquireCases attempt
    · exact h.shrink here live absent rfl rfl rfl (NoneEnds.refl _) (by simp)
        (mutexSetShrinks m.mem l (List.Sublist.refl _)) (fun c => List.Sublist.refl _)
    · have same : ids ((m.goto id (.parking l)).withState id .doNotDisturb) = ids m :=
        setStateIds m.kthreads id .doNotDisturb
      refine h.move here live rfl rfl same (.inl (noneEndsSet m.kthreads id (by simp))) (by simp) (fun k => ?_)
        (fun c => (h.queues.waits c).move rfl same here (h.queues.waits c).once (fun a mem _ => mem)
          (fun mem => absurd mem (absent.waits c)))
      dsimp only
      rw [mutexSetQueue]
      split
      · next mine =>
        subst mine
        exact (h.queues.locks k).push rfl same here woken rfl
      · exact (h.queues.locks k).move rfl same here (h.queues.locks k).once (fun a mem _ => mem)
          (fun mem => absurd mem (absent.locks k))

theorem releaseLast {lk out : MutexLock} {next : Nat} (ok : lk.releaseSection = some (some next, out)) :
    next ∈ lk.queue ∧ out = { lk with queue := lk.queue.dropLast } := by
  unfold MutexLock.releaseSection at ok
  split at ok
  · cases ok
  · cases last : lk.queue.getLast? with
    | none =>
      rw [last] at ok
      cases ok
    | some a =>
      rw [last] at ok
      cases Option.some.inj ok
      exact ⟨List.mem_of_getLast? last, rfl⟩

theorem releaseSound [DecidableEq ι] {m : State ι κ} {id : Nat} {l : ι} {after : Place ι κ} (h : Sound m) (here : id ∈ ids m)
    (live : m.pc id ≠ .exited) (absent : Absent m id) (calm : after ≠ .panicked) :
    Sound (releaseStep (mutexView l) m id after .panicked) := by
  unfold releaseStep
  cases attempt : ((mutexView l).get m.mem).releaseSection with
  | none => exact h
  | some out =>
    obtain ⟨woken, lk⟩ := out
    cases woken with
    | none =>
      obtain ⟨-, ⟨-, -, rfl⟩ | ⟨next, -, other, -⟩⟩ := releaseCases attempt
      · exact h.shrink here live absent rfl rfl rfl (NoneEnds.refl _) calm
          (mutexSetShrinks m.mem l (List.Sublist.refl _)) (fun c => List.Sublist.refl _)
      · cases other
    | some next =>
      obtain ⟨mem, rfl⟩ := releaseLast attempt
      obtain ⟨t, found⟩ := getThreadSome ((h.queues.locks l).there next mem)
      have same : ids ((m.goto id after).withState next .running) = ids m := setStateIds m.kthreads next .running
      simp only [found]
      exact h.shrink here live absent rfl rfl same (noneEndsSet m.kthreads next (by simp)) calm
        (mutexSetShrinks m.mem l (List.dropLast_sublist _)) (fun c => List.Sublist.refl _)

theorem notifySound [DecidableEq κ] {m : State ι κ} {id : Nat} {c : κ} {woken : Option (List Nat × ConditionVariable)} (h : Sound m)
    (here : id ∈ ids m) (live : m.pc id ≠ .exited) (absent : Absent m id)
    (taken : ∀ out, woken = some out → (∀ a ∈ out.1, a ∈ (m.mem.condition c).queue) ∧
      out.2.queue.Sublist (m.mem.condition c).queue) : Sound (notify m id c woken) := by
  unfold notify notifyStep
  cases woken with
  | none => exact h
  | some out =>
    obtain ⟨all, less⟩ := taken out rfl
    obtain ⟨threads, done, same, ends⟩ := @unparkAllSpec m.kthreads out.1
      (fun a mem => (h.queues.waits c).there a (all a mem))
    simp only [done]
    exact h.shrink here live absent rfl rfl same ends (by simp) (fun l => List.Sublist.refl _)
      (conditionSetShrinks m.mem c less)

theorem waitPushSound [DecidableEq κ] {m : State ι κ} {id : Nat} {c : κ} (h : Sound m) (here : id ∈ ids m)
    (live : m.pc id ≠ .exited) (absent : Absent m id) :
    Sound (waitPushStep (conditionView c) m id (.waitUnguard c)) := by
  have same : ids ((m.goto id (.waitUnguard c)).withState id .doNotDisturb) = ids m :=
    setStateIds m.kthreads id .doNotDisturb
  refine h.move here live rfl rfl same (.inl (noneEndsSet m.kthreads id (by simp))) (by simp)
    (fun l => (h.queues.locks l).move rfl same here (h.queues.locks l).once (fun a mem _ => mem)
      (fun mem => absurd mem (absent.locks l))) (fun k => ?_)
  simp only [waitPushStep]
  rw [conditionSetQueue]
  split
  · next mine =>
    subst mine
    exact (h.queues.waits k).push rfl same here (absent.waits k) rfl
  · exact (h.queues.waits k).move rfl same here (h.queues.waits k).once (fun a mem _ => mem)
      (fun mem => absurd mem (absent.waits k))

theorem notifyOneTakes {cv : ConditionVariable} {out : List Nat × ConditionVariable}
    (ok : cv.notifyOneSection = some out) : (∀ a ∈ out.1, a ∈ cv.queue) ∧ out.2.queue.Sublist cv.queue := by
  unfold ConditionVariable.notifyOneSection at ok
  split at ok
  · cases ok
  · cases last : cv.queue.getLast? with
    | none =>
      rw [last] at ok
      cases Option.some.inj ok
      exact ⟨fun a mem => absurd mem List.not_mem_nil, List.Sublist.refl _⟩
    | some next =>
      rw [last] at ok
      cases Option.some.inj ok
      refine ⟨fun a mem => ?_, List.dropLast_sublist _⟩
      rw [List.mem_singleton.mp mem]
      exact List.mem_of_getLast? last

theorem notifyAllTakes {cv : ConditionVariable} {out : List Nat × ConditionVariable}
    (ok : cv.notifyAllSection = some out) : (∀ a ∈ out.1, a ∈ cv.queue) ∧ out.2.queue.Sublist cv.queue := by
  unfold ConditionVariable.notifyAllSection at ok
  split at ok
  · cases ok
  · cases Option.some.inj ok
    exact ⟨fun a mem => List.mem_reverse.mp mem, List.nil_sublist _⟩

theorem callSound {m out : State ι κ} {id : Nat} {label : Label ι κ} (h : Sound m) (here : id ∈ ids m)
    (live : m.pc id ≠ .exited) (absent : Absent m id) (ok : call m id label = some out) : Sound out := by
  have go : ∀ next, next ≠ .panicked → Sound (m.goto id next) := by
    intro next calm
    exact h.shrink here live absent rfl rfl rfl (NoneEnds.refl _) calm (fun l => List.Sublist.refl _)
      (fun c => List.Sublist.refl _)
  cases label with
  | acquireLock l =>
    cases Option.some.inj ok
    exact go _ (by simp)
  | releaseLock l =>
    cases Option.some.inj ok
    exact go _ (by simp)
  | wait c l =>
    cases Option.some.inj ok
    exact go _ (by simp)
  | notifyOne c =>
    cases Option.some.inj ok
    exact go _ (by simp)
  | notifyAll c =>
    cases Option.some.inj ok
    exact go _ (by simp)
  | exit =>
    cases Option.some.inj ok
    have same : ids ((m.goto id .exited).withState id .completed) = ids m := setStateIds m.kthreads id .completed
    refine h.move here live rfl rfl same (.inr ⟨rfl, fun t mem done other => ?_⟩) (by simp)
      (fun l => (h.queues.locks l).move rfl same here (h.queues.locks l).once (fun a mem _ => mem)
        (fun mem => absurd mem (absent.locks l)))
      (fun c => (h.queues.waits c).move rfl same here (h.queues.waits c).once (fun a mem _ => mem)
        (fun mem => absurd mem (absent.waits c)))
    obtain ⟨u, there, rfl⟩ := List.mem_map.mp mem
    split at done
    · next mine =>
      rw [if_pos mine] at other
      exact absurd mine other
    · next mine =>
      rw [if_neg mine]
      exact ⟨u, there, rfl, done⟩
  | advance => cases ok
  | yieldTo next => cases ok

theorem Sound.free {m : State ι κ} {id : Nat} (h : Sound m) (free : (m.pc id).free = true)
    (woken : ∀ c, m.pc id = .waitReturned c → id ∉ (m.mem.condition c).queue) :
    m.pc id ≠ .exited ∧ Absent m id := by
  cases at' : m.pc id with
  | outside =>
    refine ⟨by simp, h.absent ?_ ?_⟩
    · rw [at']
      exact fun _ => not_false
    · rw [at']
      exact fun _ => not_false
  | waitReturned c =>
    refine ⟨by simp, fun l mem => ?_, fun k mem => ?_⟩
    · have blocked := (h.queues.locks l).blocked id mem
      rw [at'] at blocked
      exact blocked
    · have blocked := (h.queues.waits k).blocked id mem
      rw [at'] at blocked
      cases blocked
      exact woken c at' mem
  | _ =>
    rw [at'] at free
    cases free

theorem yieldSound {m out : State ι κ} {id next : Nat} {place : Place ι κ} (h : Sound m) (here : id ∈ ids m)
    (at' : m.pc id = place) (ok : yieldStep m id next place = some out) : Sound out := by
  cases place with
  | yielding l =>
    have moved : Sound (m.goto id (.acquiring l)) :=
      h.keep here (by rw [at']; simp) rfl rfl rfl (NoneEnds.refl _) (by simp) (fun _ => rfl) (fun _ => rfl)
        (by rw [at']; exact fun _ in' => in') (by rw [at']; exact fun _ in' => in')
    exact scheduleSound moved ok
  | waitYield c =>
    have moved : Sound (m.goto id (.waitReturned c)) :=
      h.keep here (by rw [at']; simp) rfl rfl rfl (NoneEnds.refl _) (by simp) (fun _ => rfl) (fun _ => rfl)
        (by rw [at']; exact fun _ in' => in') (by rw [at']; exact fun _ in' => in')
    exact scheduleSound moved ok
  | exited => exact scheduleSound h ok
  | outside => cases ok
  | acquiring l => cases ok
  | parking l => cases ok
  | releasing l => cases ok
  | waitGuard c l => cases ok
  | waitRelease c l => cases ok
  | waitPush c => cases ok
  | waitUnguard c => cases ok
  | waitPark c => cases ok
  | waitReturned c => cases ok
  | notifyingOne c => cases ok
  | notifyingAll c => cases ok
  | panicked => cases ok

section
variable [DecidableEq ι] [DecidableEq κ]

theorem advanceSound {m out : State ι κ} {id : Nat} {place : Place ι κ} (h : Sound m) (here : id ∈ ids m)
    (at' : m.pc id = place) (woken : ∀ l, place = .acquiring l → id ∉ (m.mem.mutex l).queue)
    (ok : advance m id place = some out) : Sound out := by
  cases place with
  | acquiring l =>
    cases Option.some.inj ok
    exact acquireSound h here at' (woken l rfl)
  | parking l =>
    cases Option.some.inj ok
    exact h.keep here (by rw [at']; simp) rfl rfl (setStateIds m.kthreads id .sleeping)
      (noneEndsSet m.kthreads id (by simp)) (by simp) (fun _ => rfl) (fun _ => rfl) (by rw [at']; exact fun _ in' => in')
      (by rw [at']; exact fun _ in' => in')
  | releasing l =>
    cases Option.some.inj ok
    exact releaseSound h here (by rw [at']; simp)
      (h.absent (by rw [at']; exact fun _ => not_false) (by rw [at']; exact fun _ => not_false)) (by simp)
  | waitGuard c l =>
    cases Option.some.inj ok
    unfold waitGuardStep
    split
    · exact h
    · exact h.shrink here (by rw [at']; simp)
        (h.absent (by rw [at']; exact fun _ => not_false) (by rw [at']; exact fun _ => not_false)) rfl rfl rfl
        (NoneEnds.refl _) (by simp) (fun l => List.Sublist.refl _)
        (conditionSetShrinks m.mem c (List.Sublist.refl _))
  | waitRelease c l =>
    cases Option.some.inj ok
    exact releaseSound h here (by rw [at']; simp)
      (h.absent (by rw [at']; exact fun _ => not_false) (by rw [at']; exact fun _ => not_false)) (by simp)
  | waitPush c =>
    cases Option.some.inj ok
    exact waitPushSound h here (by rw [at']; simp)
      (h.absent (by rw [at']; exact fun _ => not_false) (by rw [at']; exact fun _ => not_false))
  | waitUnguard c =>
    cases Option.some.inj ok
    refine h.keep here (by rw [at']; simp) rfl rfl rfl (NoneEnds.refl _) (by simp) (fun _ => rfl) (fun k => ?_)
      (by rw [at']; exact fun _ in' => in') (by rw [at']; exact fun _ in' => in')
    simp only [waitUnguardStep]
    rw [conditionSetQueue]
    split
    · next same =>
      rw [same]
      rfl
    · rfl
  | waitPark c =>
    cases Option.some.inj ok
    exact h.keep here (by rw [at']; simp) rfl rfl (setStateIds m.kthreads id .sleeping)
      (noneEndsSet m.kthreads id (by simp)) (by simp) (fun _ => rfl) (fun _ => rfl) (by rw [at']; exact fun _ in' => in')
      (by rw [at']; exact fun _ in' => in')
  | notifyingOne c =>
    cases Option.some.inj ok
    exact notifySound h here (by rw [at']; simp)
      (h.absent (by rw [at']; exact fun _ => not_false) (by rw [at']; exact fun _ => not_false))
      (fun _ => notifyOneTakes)
  | notifyingAll c =>
    cases Option.some.inj ok
    exact notifySound h here (by rw [at']; simp)
      (h.absent (by rw [at']; exact fun _ => not_false) (by rw [at']; exact fun _ => not_false))
      (fun _ => notifyAllTakes)
  | outside => cases ok
  | yielding l => cases ok
  | waitYield c => cases ok
  | waitReturned c => cases ok
  | panicked => cases ok
  | exited => cases ok

theorem execSound {m out : State ι κ} {id : Nat} {label : Label ι κ} (h : Sound m) (here : id ∈ ids m)
    (woken : (∀ l, m.pc id = .acquiring l → id ∉ (m.mem.mutex l).queue) ∧
      ∀ c, m.pc id = .waitReturned c → id ∉ (m.mem.condition c).queue)
    (ok : exec m id label = some out) : Sound out := by
  cases label with
  | advance => exact advanceSound h here rfl woken.1 ok
  | yieldTo next => exact yieldSound h here rfl ok
  | _ =>
    simp only [exec] at ok
    split at ok
    · next free =>
      obtain ⟨live, absent⟩ := h.free free woken.2
      exact callSound h here live absent ok
    · cases ok

theorem stepSound {m out : State ι κ} {e : Event (Label ι κ)} (h : Sound m) (woken : Woken m e)
    (ok : step program m e = some out) : Sound out := by
  rcases stepCases ok with ⟨label, t, rfl, this, ran⟩ | ⟨other, -⟩
  · simp only [Woken, this] at woken
    exact execSound h (List.mem_map_of_mem (List.mem_of_getElem? this)) woken ran
  · exact otherSound h other ok

theorem bootedSound {m : State ι κ} (booted : Booted program Shared.default m) : Sound m := by
  refine ⟨booted.nodup, fun id mem => ?_, fun t mem done => ?_, fun l => ?_, fun c => ?_, fun id => ?_⟩
  · obtain ⟨t, there, rfl⟩ := List.mem_map.mp mem
    exact booted.fresh t there
  · have runnable := booted.runnable t mem
    rw [done] at runnable
    cases runnable
  · rw [booted.mem]
    exact ⟨List.nodup_nil, fun id mem => absurd mem List.not_mem_nil, fun id mem => absurd mem List.not_mem_nil⟩
  · rw [booted.mem]
    exact ⟨List.nodup_nil, fun id mem => absurd mem List.not_mem_nil, fun id mem => absurd mem List.not_mem_nil⟩
  · rw [booted.pc]
    simp [program]

/-- In every run in which a parked thread runs on only after a waker took its id off the queue, every
state has each id at most once in a queue, only ids of threads of the vector that are blocked in that
call, so that getThread finds each of them, and no thread at a panic. -/
theorem wokenQueuesHold {m mid : State ι κ} (booted : Booted program Shared.default m)
    {events : List (Event (Label ι κ))} (woken : Guarded (step program) Woken m events)
    (visited : Visits (step program) m events mid) :
    QueuesHold mid ∧ (∀ l, ∀ id ∈ (mid.mem.mutex l).queue, getThread mid.kthreads id ≠ none) ∧
      ∀ c, ∀ id ∈ (mid.mem.condition c).queue, getThread mid.kthreads id ≠ none := by
  have sound := Lib.Transition.invariantVisits Sound (fun _ _ _ h fine ok => stepSound h fine ok)
    (bootedSound booted) woken visited
  refine ⟨sound.queues, fun l id mem => ?_, fun c id mem => ?_⟩
  · obtain ⟨t, found⟩ := getThreadSome ((sound.queues.locks l).there id mem)
    rw [found]
    simp
  · obtain ⟨t, found⟩ := getThreadSome ((sound.queues.waits c).there id mem)
    rw [found]
    simp

end

end

/- Two threads, one mutex and one condition variable. -/
section

def pair : State Unit Unit :=
  { kthreads := [⟨1, .running⟩, ⟨2, .notStarted⟩], currKThreadIdx := 0, currId := 3,
    pc := fun _ => .outside, mem := .default }

theorem pairBooted : Booted program Shared.default pair :=
  ⟨rfl, rfl, by simp [pair], by simp [pair], by simp [pair, isRunnableState]⟩

instance (m : State Unit Unit) (e : Event (Label Unit Unit)) : Decidable (Woken m e) :=
  match e with
  | .exec _ =>
    match this : m.thisThread with
    | none => .isTrue (by simp only [Woken, this])
    | some t =>
      decidable_of_iff ((m.pc t.id = .acquiring () → t.id ∉ (m.mem.mutex ()).queue) ∧
          (m.pc t.id = .waitReturned () → t.id ∉ (m.mem.condition ()).queue)) (by
        simp only [Woken, this]
        exact and_congr ⟨fun one l => one, fun all => all ()⟩ ⟨fun one c => one, fun all => all ()⟩)
  | .interrupt _ => .isTrue trivial
  | .wake _ => .isTrue trivial
  | .spawn => .isTrue trivial

/- The first thread takes the mutex; the second queues up and parks. -/
def parked : List (Event (Label Unit Unit)) :=
  [.exec (.acquireLock ()), .exec .advance, .interrupt 1, .exec (.acquireLock ()), .exec .advance, .exec .advance,
    .exec (.yieldTo 0)]

def served : List (Event (Label Unit Unit)) :=
  parked ++ [.exec (.releaseLock ()), .exec .advance, .interrupt 1, .exec .advance]

theorem wokenQueuesHoldPair : ∃ m, run (step program) pair served = some m ∧ QueuesHold m := by
  have woken : Guarded (step program) Woken pair served := Lib.Transition.checkedGuarded (by decide)
  obtain ⟨m, ran⟩ := Option.isSome_iff_exists.mp (show (run (step program) pair served).isSome = true by decide)
  exact ⟨m, ran, (wokenQueuesHold pairBooted woken ⟨served, [], (List.append_nil _).symm, ran⟩).1⟩

def RoundRobin (m : State Unit Unit) : Event (Label Unit Unit) → Bool
  | .interrupt next => next = (RRScheduler.getNext m.kthreads m.currKThreadIdx).1
  | .exec (.yieldTo next) => next = (RRScheduler.getNext m.kthreads m.currKThreadIdx).1
  | .wake _ => false
  | _ => true

/- Round robin brings the parked thread back while the first one holds the mutex, and it queues up
a second time. -/
theorem parkedQueuesTwice : Booted program Shared.default pair ∧
    Guarded (step program) (fun m e => RoundRobin m e = true) pair (parked ++ [.interrupt 1, .exec .advance]) ∧
    ∃ m, run (step program) pair (parked ++ [.interrupt 1, .exec .advance]) = some m ∧
      (m.mem.mutex ()).queue = [2, 2] ∧ ¬ QueuesHold m := by
  have twice : (run (step program) pair (parked ++ [.interrupt 1, .exec .advance])).map
      (fun m => (m.mem.mutex ()).queue) = some [2, 2] := by decide
  obtain ⟨m, ran, queue⟩ := Option.map_eq_some_iff.mp twice
  refine ⟨pairBooted, Lib.Transition.checkedGuarded (by decide), m, ran, queue, fun hold => ?_⟩
  have once := (hold.locks ()).once
  rw [queue] at once
  simp at once

end

end DimOS.Concurrency.QueueRuns
