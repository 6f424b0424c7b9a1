import DimOS.Process.Machine

/-! The sections of MutexLock and ConditionVariable that their spin words guard,
from the successful compare-and-swap to lock = 0. A section that finds its spin word
taken does not start. The queues are vectors used as stacks: push_back appends and
queue.back() is the last element. -/
namespace DimOS.Concurrency
open Process

structure MutexLock where
  flag : Nat
  lock : Nat
  queue : List Nat
  deriving DecidableEq, Repr

def MutexLock.default : MutexLock := ⟨0, 0, []⟩

inductive Attempt where
  | taken
  | queued
  deriving DecidableEq, Repr

/- One round of the loop in acquireLock; the queued caller goes on to setpark. -/
def MutexLock.acquireSection (m : MutexLock) (id : Nat) : Option (Attempt × MutexLock) :=
  if m.lock ≠ 0 then none
  else if m.flag = 0 then some (.taken, { m with flag := 1 })
  else some (.queued, { m with queue := m.queue ++ [id] })

/- The waiter to unpark, if any. flag is cleared only when nobody is queued. -/
def MutexLock.releaseSection (m : MutexLock) : Option (Option Nat × MutexLock) :=
  if m.lock ≠ 0 then none
  else
    match m.queue.getLast? with
    | none => some (none, { m with flag := 0 })
    | some next => some (some next, { m with queue := m.queue.dropLast })

structure ConditionVariable where
  lock : Nat
  queue : List Nat
  deriving DecidableEq, Repr

def ConditionVariable.default : ConditionVariable := ⟨0, []⟩

/- The waiters that notifyOne and notifyAll take off the queue, in unpark order. -/
def ConditionVariable.notifyOneSection (c : ConditionVariable) :
    Option (List Nat × ConditionVariable) :=
  if c.lock ≠ 0 then none
  else
    match c.queue.getLast? with
    | none => some ([], c)
    | some next => some ([next], { c with queue := c.queue.dropLast })

def ConditionVariable.notifyAllSection (c : ConditionVariable) :
    Option (List Nat × ConditionVariable) :=
  if c.lock ≠ 0 then none else some (c.queue.reverse, { c with queue := [] })

/- kernel::unpark(kernel::getThread(next)) for each waiter; none is the panic of getThread. -/
def unparkAll (threads : List Thread) : List Nat → Option (List Thread)
  | [] => some threads
  | next :: rest =>
    match getThread threads next with
    | none => none
    | some _ => unparkAll (setState threads next .running) rest

theorem acquireCases {m out : MutexLock} {id : Nat} {a : Attempt}
    (ok : m.acquireSection id = some (a, out)) :
    m.lock = 0 ∧ (m.flag = 0 ∧ a = .taken ∧ out = { m with flag := 1 } ∨
      m.flag ≠ 0 ∧ a = .queued ∧ out = { m with queue := m.queue ++ [id] }) := by
  unfold MutexLock.acquireSection at ok
  split at ok <;> try contradiction
  rename_i free
  refine ⟨by omega, ?_⟩
  split at ok
  · cases Option.some.inj ok
    exact .inl ⟨by assumption, rfl, rfl⟩
  · cases Option.some.inj ok
    exact .inr ⟨by assumption, rfl, rfl⟩

theorem acquireTakenIff {m : MutexLock} {id : Nat} :
    (∃ out, m.acquireSection id = some (.taken, out)) ↔ m.lock = 0 ∧ m.flag = 0 := by
  constructor
  · rintro ⟨out, ok⟩
    obtain ⟨free, ⟨clear, -, -⟩ | ⟨-, other, -⟩⟩ := acquireCases ok
    · exact ⟨free, clear⟩
    · cases other
  · rintro ⟨free, clear⟩
    exact ⟨{ m with flag := 1 }, by simp [MutexLock.acquireSection, free, clear]⟩

theorem releaseRuns {m : MutexLock} (free : m.lock = 0) : m.releaseSection ≠ none := by
  simp only [MutexLock.releaseSection, free, ne_eq, not_true_eq_false, if_false]
  split <;> simp

theorem releaseCases {m out : MutexLock} {woken : Option Nat}
    (ok : m.releaseSection = some (woken, out)) :
    m.lock = 0 ∧ (m.queue = [] ∧ woken = none ∧ out = { m with flag := 0 } ∨
      ∃ next, m.queue ≠ [] ∧ woken = some next ∧ out = { m with queue := m.queue.dropLast }) := by
  unfold MutexLock.releaseSection at ok
  split at ok <;> try contradiction
  rename_i free
  refine ⟨by omega, ?_⟩
  split at ok
  · rename_i empty
    cases Option.some.inj ok
    exact .inl ⟨List.getLast?_eq_none_iff.mp empty, rfl, rfl⟩
  · rename_i next last
    cases Option.some.inj ok
    exact .inr ⟨next, by intro empty; simp [empty] at last, rfl, rfl⟩

theorem idsFromUnparkAll {threads out : List Thread} {ids : List Nat}
    (ok : unparkAll threads ids = some out) : IdsFrom out threads := by
  induction ids generalizing threads with
  | nil => cases Option.some.inj ok; exact fun t mem => ⟨t, mem, rfl⟩
  | cons next rest ih =>
    simp only [unparkAll] at ok
    split at ok <;> try contradiction
    intro t mem
    obtain ⟨u, hu, same⟩ := ih ok t mem
    obtain ⟨v, hv, first⟩ := idsFromSetState threads next .running u hu
    exact ⟨v, hv, first.trans same⟩

structure View (Mem α : Type) where
  get : Mem → α
  set : Mem → α → Mem

section Steps
variable {Pc Mem : Type} (v : View Mem MutexLock) (c : View Mem ConditionVariable)
  (m : Machine Pc Mem) (id : Nat)

def acquireStep (taken queued : Pc) : Machine Pc Mem :=
  match (v.get m.mem).acquireSection id with
  | none => m
  | some (.taken, lk) => { m.goto id taken with mem := v.set m.mem lk }
  | some (.queued, lk) =>
    { (m.goto id queued).withState id .doNotDisturb with mem := v.set m.mem lk }

/- after is where the caller goes on; a panic of getThread keeps the spin word taken. -/
def releaseStep (after panicked : Pc) : Machine Pc Mem :=
  match (v.get m.mem).releaseSection with
  | none => m
  | some (none, lk) => { m.goto id after with mem := v.set m.mem lk }
  | some (some next, lk) =>
    match getThread m.kthreads next with
    | none => { m.goto id panicked with mem := v.set m.mem { lk with lock := 1 } }
    | some _ => { (m.goto id after).withState next .running with mem := v.set m.mem lk }

/- The parts of ConditionVariable::wait around its call of releaseLock. -/
def waitGuardStep (guarded : Pc) : Machine Pc Mem :=
  if (c.get m.mem).lock ≠ 0 then m
  else { m.goto id guarded with mem := c.set m.mem { c.get m.mem with lock := 1 } }

def waitPushStep (pushed : Pc) : Machine Pc Mem :=
  { (m.goto id pushed).withState id .doNotDisturb with
    mem := c.set m.mem { c.get m.mem with queue := (c.get m.mem).queue ++ [id] } }

def waitUnguardStep (unguarded : Pc) : Machine Pc Mem :=
  { m.goto id unguarded with mem := c.set m.mem { c.get m.mem with lock := 0 } }

def notifyStep (woken : Option (List Nat × ConditionVariable)) (after panicked : Pc) :
    Machine Pc Mem :=
  match woken with
  | none => m
  | some (ids, cv) =>
    match unparkAll m.kthreads ids with
    | none => { m.goto id panicked with mem := c.set m.mem { cv with lock := 1 } }
    | some threads => { m.goto id after with kthreads := threads, mem := c.set m.mem cv }

theorem acquireStepCases (taken queued : Pc) :
    acquireStep v m id taken queued = m ∨
    ((v.get m.mem).flag = 0 ∧ Moves m (acquireStep v m id taken queued) id taken ∧
      (acquireStep v m id taken queued).mem = v.set m.mem { v.get m.mem with flag := 1 }) ∨
    ((v.get m.mem).flag ≠ 0 ∧ Moves m (acquireStep v m id taken queued) id queued ∧
      (acquireStep v m id taken queued).mem =
        v.set m.mem { v.get m.mem with queue := (v.get m.mem).queue ++ [id] }) := by
  unfold acquireStep
  split
  · exact .inl rfl
  · rename_i lk ok
    obtain ⟨-, ⟨clear, -, rfl⟩ | ⟨-, other, -⟩⟩ := acquireCases ok
    · exact .inr (.inl ⟨clear, (movesGoto m id taken).withMem _, rfl⟩)
    · cases other
  · rename_i lk ok
    obtain ⟨-, ⟨-, other, -⟩ | ⟨set, -, rfl⟩⟩ := acquireCases ok
    · cases other
    · exact .inr (.inr ⟨set, (movesState m id queued id _).withMem _, rfl⟩)

theorem releaseStepCases (after panicked : Pc) :
    ((v.get m.mem).lock ≠ 0 ∧ releaseStep v m id after panicked = m) ∨
    ((v.get m.mem).lock = 0 ∧ (v.get m.mem).queue = [] ∧
      Moves m (releaseStep v m id after panicked) id after ∧
      (releaseStep v m id after panicked).mem = v.set m.mem { v.get m.mem with flag := 0 }) ∨
    ((v.get m.mem).lock = 0 ∧ (v.get m.mem).queue ≠ [] ∧ ∃ next lk,
      (next = after ∨ next = panicked) ∧ Moves m (releaseStep v m id after panicked) id next ∧
      lk.flag = (v.get m.mem).flag ∧
      (releaseStep v m id after panicked).mem = v.set m.mem lk) := by
  unfold releaseStep
  split
  · rename_i refused
    exact .inl ⟨fun free => releaseRuns free refused, rfl⟩
  · rename_i lk ok
    obtain ⟨free, ⟨empty, -, rfl⟩ | ⟨next, -, other, -⟩⟩ := releaseCases ok
    · exact .inr (.inl ⟨free, empty, (movesGoto m id after).withMem _, rfl⟩)
    · cases other
  · rename_i next lk ok
    obtain ⟨free, ⟨-, other, -⟩ | ⟨next, waiting, -, rfl⟩⟩ := releaseCases ok
    · cases other
    · refine .inr (.inr ⟨free, waiting, ?_⟩)
      split
      · exact ⟨panicked, { v.get m.mem with lock := 1, queue := (v.get m.mem).queue.dropLast },
          .inr rfl, (movesGoto m id panicked).withMem _, rfl, rfl⟩
      · exact ⟨after, { v.get m.mem with queue := (v.get m.mem).queue.dropLast },
          .inl rfl, (movesState m id after _ _).withMem _, rfl, rfl⟩

theorem waitGuardStepCases (guarded : Pc) :
    waitGuardStep c m id guarded = m ∨ ∃ cv, Moves m (waitGuardStep c m id guarded) id guarded ∧
      (waitGuardStep c m id guarded).mem = c.set m.mem cv := by
  unfold waitGuardStep
  split
  · exact .inl rfl
  · exact .inr ⟨_, (movesGoto m id guarded).withMem _, rfl⟩

theorem notifyStepCases (woken : Option (List Nat × ConditionVariable)) (after panicked : Pc) :
    notifyStep c m id woken after panicked = m ∨ ∃ next cv, (next = after ∨ next = panicked) ∧
      Moves m (notifyStep c m id woken after panicked) id next ∧
      (notifyStep c m id woken after panicked).mem = c.set m.mem cv := by
  unfold notifyStep
  split
  · exact .inl rfl
  · split
    · exact .inr ⟨panicked, _, .inr rfl, (movesGoto m id panicked).withMem _, rfl⟩
    · rename_i threads ok
      exact .inr ⟨after, _, .inl rfl, ⟨rfl, rfl, idsFromUnparkAll ok⟩, rfl⟩

end Steps

end DimOS.Concurrency
