import DimOS.Process.Machine
import DimOS.Concurrency.Primitives

/-! Any number of threads on one MutexLock m and one ConditionVariable c, in any order
of calls. wait(m) is called only by a holder of m; nothing else is asked of callers.
holds records that acquireLock returned to the thread and that it has not run the
section of releaseLock since; no guarded section reads it. -/
namespace DimOS.Concurrency.ConditionRuns
open Process
open Lib.Transition (run)

inductive Place where
  | outside
  | acquiring
  | parking
  | yielding
  | releasing
  | waitGuard
  | waitRelease
  | waitPush
  | waitUnguard
  | waitPark
  | waitYield
  | waitReturned
  | notifyingOne
  | notifyingAll
  | panicked
  | exited
  deriving DecidableEq, Repr

structure Pc where
  place : Place
  holds : Bool
  deriving DecidableEq, Repr

structure Shared where
  mutex : MutexLock
  condition : ConditionVariable
  deriving DecidableEq, Repr

inductive Label where
  | acquireLock
  | releaseLock
  | wait
  | notifyOne
  | notifyAll
  | exit
  | advance
  | yieldTo (next : Nat)
  deriving DecidableEq, Repr

abbrev State := Machine Pc Shared

def mutexView : View Shared MutexLock := ⟨Shared.mutex, fun s lk => { s with mutex := lk }⟩
def conditionView : View Shared ConditionVariable :=
  ⟨Shared.condition, fun s cv => { s with condition := cv }⟩

def moveTo (m : State) (id : Nat) (place : Place) : State :=
  m.goto id { m.pc id with place := place }

def call (m : State) (id : Nat) : Label → Option State
  | .acquireLock => some (moveTo m id .acquiring)
  | .releaseLock => some (moveTo m id .releasing)
  | .wait => if (m.pc id).holds then some (moveTo m id .waitGuard) else none
  | .notifyOne => some (moveTo m id .notifyingOne)
  | .notifyAll => some (moveTo m id .notifyingAll)
  | .exit => some ((moveTo m id .exited).withState id .completed)
  | _ => none

def notify (m : State) (id : Nat) (woken : Option (List Nat × ConditionVariable)) : State :=
  notifyStep conditionView m id woken { m.pc id with place := .outside }
    { m.pc id with place := .panicked }

def advance (m : State) (id : Nat) : Place → Option State
  | .acquiring =>
    some (acquireStep mutexView m id ⟨.outside, true⟩ { m.pc id with place := .parking })
  | .parking => some ((moveTo m id .yielding).withState id .sleeping)
  | .releasing => some (releaseStep mutexView m id ⟨.outside, false⟩ ⟨.panicked, false⟩)
  | .waitGuard => some (waitGuardStep conditionView m id { m.pc id with place := .waitRelease })
  | .waitRelease => some (releaseStep mutexView m id ⟨.waitPush, false⟩ ⟨.panicked, false⟩)
  | .waitPush => some (waitPushStep conditionView m id { m.pc id with place := .waitUnguard })
  | .waitUnguard => some (waitUnguardStep conditionView m id { m.pc id with place := .waitPark })
  | .waitPark => some ((moveTo m id .waitYield).withState id .sleeping)
  | .notifyingOne => some (notify m id m.mem.condition.notifyOneSection)
  | .notifyingAll => some (notify m id m.mem.condition.notifyAllSection)
  | _ => none

/- wait returns to its caller as soon as the thread gets the CPU back from its yield. -/
def yieldStep (m : State) (id next : Nat) : Place → Option State
  | .yielding => (moveTo m id .acquiring).schedule next
  | .waitYield => (moveTo m id .waitReturned).schedule next
  | .exited => m.schedule next
  | _ => none

def exec (m : State) (id : Nat) : Label → Option State
  | .advance => advance m id (m.pc id).place
  | .yieldTo next => yieldStep m id next (m.pc id).place
  | label => if (m.pc id).place = .outside ∨ (m.pc id).place = .waitReturned then call m id label
      else none

def program : Program Pc Shared Label := ⟨⟨.outside, false⟩, exec⟩

/- From the release inside wait on, up to the next call of the thread. -/
def Place.released : Place → Bool
  | .waitPush | .waitUnguard | .waitPark | .waitYield | .waitReturned => true
  | _ => false

def Released (pc : Nat → Pc) : Prop := ∀ id, (pc id).place.released = true → (pc id).holds = false

theorem releasedMove {m out : State} (h : Released m.pc) {id : Nat} {next : Pc}
    (moves : Moves m out id next) (fits : next.place.released = true → next.holds = false) :
    Released out.pc := by
  intro a
  rw [moves.pc]
  by_cases same : a = id
  · subst a; simpa using fits
  · simpa [Function.update_of_ne same] using h a

theorem leaveReleased {m : State} (h : Released m.pc) (id : Nat) (place : Place)
    (left : place.released = false) : Released (moveTo m id place).pc :=
  releasedMove h (movesGoto m id _) (fun after => by simp [left] at after)

theorem stayReleased {m : State} (h : Released m.pc) (id : Nat) (place : Place)
    (was : (m.pc id).place.released = true) : Released (moveTo m id place).pc :=
  releasedMove h (movesGoto m id _) (fun _ => h id was)

theorem releaseReleased {m : State} (h : Released m.pc) (id : Nat) (after : Place) :
    Released (releaseStep mutexView m id ⟨after, false⟩ ⟨.panicked, false⟩).pc := by
  rcases releaseStepCases mutexView m id ⟨after, false⟩ ⟨.panicked, false⟩ with ⟨-, stay⟩ |
    ⟨-, -, moves, -⟩ | ⟨-, -, next, lk, place, moves, -⟩
  · rw [stay]; exact h
  · exact releasedMove h moves (fun _ => rfl)
  · exact releasedMove h moves (fun _ => by rcases place with rfl | rfl <;> rfl)

theorem notifyReleased {m : State} (h : Released m.pc) (id : Nat)
    (woken : Option (List Nat × ConditionVariable)) : Released (notify m id woken).pc := by
  unfold notify
  rcases notifyStepCases conditionView m id woken { m.pc id with place := .outside }
    { m.pc id with place := .panicked } with stay | ⟨next, cv, place, moves, -⟩
  · rw [stay]; exact h
  · refine releasedMove h moves ?_
    intro after
    rcases place with rfl | rfl <;> exact Bool.noConfusion after

theorem acquireReleased {m : State} (h : Released m.pc) (id : Nat) :
    Released (acquireStep mutexView m id ⟨.outside, true⟩ { m.pc id with place := .parking }).pc := by
  rcases acquireStepCases mutexView m id ⟨.outside, true⟩ { m.pc id with place := .parking } with
    stay | ⟨-, moves, -⟩ | ⟨-, moves, -⟩
  · rw [stay]; exact h
  · exact releasedMove h moves (fun after => Bool.noConfusion after)
  · exact releasedMove h moves (fun after => Bool.noConfusion after)

theorem waitGuardReleased {m : State} (h : Released m.pc) (id : Nat) :
    Released (waitGuardStep conditionView m id { m.pc id with place := .waitRelease }).pc := by
  rcases waitGuardStepCases conditionView m id { m.pc id with place := .waitRelease } with
    stay | ⟨cv, moves, -⟩
  · rw [stay]; exact h
  · exact releasedMove h moves (fun after => Bool.noConfusion after)

theorem advanceReleased {m out : State} {id : Nat} {place : Place} (h : Released m.pc)
    (here : (m.pc id).place = place) (ok : advance m id place = some out) : Released out.pc := by
  cases place <;> simp only [advance, Option.some.injEq, reduceCtorEq] at ok
  all_goals subst out
  case acquiring => exact acquireReleased h id
  case parking => exact leaveReleased h id .yielding rfl
  case releasing => exact releaseReleased h id .outside
  case waitGuard => exact waitGuardReleased h id
  case waitRelease => exact releaseReleased h id .waitPush
  case waitPush => exact stayReleased h id .waitUnguard (by rw [here]; rfl)
  case waitUnguard => exact stayReleased h id .waitPark (by rw [here]; rfl)
  case waitPark => exact stayReleased h id .waitYield (by rw [here]; rfl)
  case notifyingOne => exact notifyReleased h id _
  case notifyingAll => exact notifyReleased h id _

theorem yieldReleased {m out : State} {id next : Nat} {place : Place} (h : Released m.pc)
    (here : (m.pc id).place = place) (ok : yieldStep m id next place = some out) :
    Released out.pc := by
  cases place <;> simp only [yieldStep, reduceCtorEq] at ok
  all_goals rw [(Machine.scheduleFrame ok).1]
  case yielding => exact leaveReleased h id .acquiring rfl
  case waitYield => exact stayReleased h id .waitReturned (by rw [here]; rfl)
  case exited => exact h

theorem callReleased {m out : State} {id : Nat} {label : Label} (h : Released m.pc)
    (ok : call m id label = some out) : Released out.pc := by
  cases label <;> simp only [call, Option.some.injEq, reduceCtorEq] at ok
  case wait =>
    split at ok <;> cases ok
    exact leaveReleased h id .waitGuard rfl
  all_goals subst out
  case acquireLock => exact leaveReleased h id .acquiring rfl
  case releaseLock => exact leaveReleased h id .releasing rfl
  case notifyOne => exact leaveReleased h id .notifyingOne rfl
  case notifyAll => exact leaveReleased h id .notifyingAll rfl
  case exit => exact leaveReleased h id .exited rfl

theorem execReleased {m out : State} {id : Nat} {label : Label} (h : Released m.pc)
    (ok : exec m id label = some out) : Released out.pc := by
  unfold exec at ok
  split at ok
  · exact advanceReleased h rfl ok
  · exact yieldReleased h rfl ok
  · split at ok
    · exact callReleased h ok
    · contradiction

theorem runReleased {m out : State} {mem : Shared} {es : List (Event Label)}
    (booted : Booted program mem m) (ok : run (step program) m es = some out) : Released out.pc := by
  refine Lib.Transition.invariantRunAll (fun s : State => Released s.pc) ?_ ?_ ok
  · intro s e t before taken
    exact sharedInvariant program (fun pc _ => Released pc)
      (fun _ _ _ _ h ran => execReleased h ran) before taken
  · intro id inside
    rw [booted.pc] at inside ⊢
    exact Bool.noConfusion inside

/-- No call of wait ever returns to a thread that holds the mutex: the section of
releaseLock runs inside wait and acquireLock is not called again before it returns. -/
theorem waitReturnsWithoutMutex {m out : State} {mem : Shared} {es : List (Event Label)}
    (booted : Booted program mem m) (ok : run (step program) m es = some out) (id : Nat)
    (returned : (out.pc id).place = .waitReturned) : (out.pc id).holds = false :=
  runReleased booted ok id (by rw [returned]; rfl)

/- Two threads on a fresh mutex and condition variable, the first of them running. -/
def pair : State :=
  { kthreads := [⟨1, .running⟩, ⟨2, .notStarted⟩], currKThreadIdx := 0, currId := 3,
    pc := fun _ => ⟨.outside, false⟩, mem := ⟨.default, .default⟩ }

theorem pairBooted : Booted program ⟨.default, .default⟩ pair :=
  ⟨rfl, rfl, by simp [pair], by simp [pair], by simp [pair, isRunnableState]⟩

/- The first thread takes m and waits; the second takes m; the first is resumed. -/
def resumedWait : List (Event Label) :=
  [.exec .acquireLock, .exec .advance, .exec .wait, .exec .advance, .exec .advance, .exec .advance,
   .exec .advance, .exec .advance, .exec (.yieldTo 1), .exec .acquireLock, .exec .advance,
   .interrupt 0]

theorem waitReturnsWithoutMutexPair : ∃ out, run (step program) pair resumedWait = some out ∧
    (out.pc 1).place = .waitReturned ∧ (out.pc 1).holds = false := by
  refine ⟨_, rfl, rfl, ?_⟩
  exact waitReturnsWithoutMutex pairBooted
    (show run (step program) pair resumedWait = some _ from rfl) 1 rfl

/- Its next releaseLock then clears the flag under the second thread's hold. -/
theorem resumedWaitReleasesOther : Booted program ⟨.default, .default⟩ pair ∧
    (∃ out, run (step program) pair resumedWait = some out ∧ out.thisThread = some ⟨1, .running⟩ ∧
      (out.pc 1).place = .waitReturned ∧ (out.pc 1).holds = false ∧ (out.pc 2).holds = true ∧
      out.mem.mutex.flag = 1) ∧
    ∃ out, run (step program) pair (resumedWait ++ [.exec .releaseLock, .exec .advance]) = some out ∧
      (out.pc 2).holds = true ∧ out.mem.mutex.flag = 0 :=
  ⟨pairBooted, ⟨_, rfl, rfl, rfl, rfl, rfl, rfl⟩, _, rfl, rfl, rfl⟩

end DimOS.Concurrency.ConditionRuns
