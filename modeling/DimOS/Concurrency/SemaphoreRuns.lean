import Mathlib
import DimOS.Process.Machine
import DimOS.Concurrency.Primitives

/-! Any number of threads that call wait and post of one Sempahore. A call is cut at
the lock, at every part of condition.wait, and between the test of value and its
decrement. posts counts the increments of value and completed the waits that returned;
the code reads neither. -/
namespace DimOS.Concurrency.SemaphoreRuns
open Process
open Lib.Transition (run Guarded Visits)

inductive Call where
  | wait
  | post
  deriving DecidableEq, Repr

inductive Place where
  | outside
  | acquiring
  | parking
  | yielding
  | testing
  | waitGuard
  | waitRelease
  | waitPush
  | waitUnguard
  | waitPark
  | waitYield
  | decrementing
  | incrementing
  | notifying
  | unlocking
  | panicked
  | exited
  deriving DecidableEq, Repr

structure Pc where
  call : Call
  place : Place
  deriving DecidableEq, Repr

structure Sempahore where
  value : Int
  lock : MutexLock
  condition : ConditionVariable
  posts : Nat
  completed : Nat
  deriving DecidableEq, Repr

def Sempahore.new (value : Int) : Sempahore := ⟨value, .default, .default, 0, 0⟩

def int32 (n : Int) : Int := n.bmod (2 ^ 32)

inductive Label where
  | wait
  | post
  | exit
  | advance
  | yieldTo (next : Nat)
  deriving DecidableEq, Repr

abbrev State := Machine Pc Sempahore

def lockView : View Sempahore MutexLock := ⟨Sempahore.lock, fun s lk => { s with lock := lk }⟩
def conditionView : View Sempahore ConditionVariable :=
  ⟨Sempahore.condition, fun s cv => { s with condition := cv }⟩

def locked : Call → Place
  | .wait => .testing
  | .post => .incrementing

def moveTo (m : State) (id : Nat) (place : Place) : State :=
  m.goto id { m.pc id with place := place }

def test (m : State) (id : Nat) : State :=
  if m.mem.value ≤ 0 then moveTo m id .waitGuard else moveTo m id .decrementing

def decrement (m : State) (id : Nat) : State :=
  { moveTo m id .unlocking with mem := { m.mem with value := int32 (m.mem.value - 1) } }

def increment (m : State) (id : Nat) : State :=
  { moveTo m id .notifying with
    mem := { m.mem with value := int32 (m.mem.value + 1), posts := m.mem.posts + 1 } }

def unlock (m : State) (id : Nat) : State :=
  let out := releaseStep lockView m id { m.pc id with place := .outside }
    { m.pc id with place := .panicked }
  if out.pc id = ⟨.wait, .outside⟩ then
    { out with mem := { out.mem with completed := out.mem.completed + 1 } }
  else out

def advance (m : State) (id : Nat) : Place → Option State
  | .acquiring => some (acquireStep lockView m id { m.pc id with place := locked (m.pc id).call }
      { m.pc id with place := .parking })
  | .parking => some ((moveTo m id .yielding).withState id .sleeping)
  | .testing => some (test m id)
  | .waitGuard => some (waitGuardStep conditionView m id { m.pc id with place := .waitRelease })
  | .waitRelease => some (releaseStep lockView m id { m.pc id with place := .waitPush }
      { m.pc id with place := .panicked })
  | .waitPush => some (waitPushStep conditionView m id { m.pc id with place := .waitUnguard })
  | .waitUnguard => some (waitUnguardStep conditionView m id { m.pc id with place := .waitPark })
  | .waitPark => some ((moveTo m id .waitYield).withState id .sleeping)
  | .decrementing => some (decrement m id)
  | .incrementing => some (increment m id)
  | .notifying => some (notifyStep conditionView m id m.mem.condition.notifyOneSection
      { m.pc id with place := .unlocking } { m.pc id with place := .panicked })
  | .unlocking => some (unlock m id)
  | _ => none

/- condition.wait returns to the loop test, with whatever the lock is by then. -/
def yieldStep (m : State) (id next : Nat) : Place → Option State
  | .yielding => (moveTo m id .acquiring).schedule next
  | .waitYield => (moveTo m id .testing).schedule next
  | .exited => (moveTo m id .exited).schedule next
  | _ => none

def exec (m : State) (id : Nat) : Label → Option State
  | .advance => advance m id (m.pc id).place
  | .yieldTo next => yieldStep m id next (m.pc id).place
  | .wait => if (m.pc id).place = .outside then some (m.goto id ⟨.wait, .acquiring⟩) else none
  | .post => if (m.pc id).place = .outside then some (m.goto id ⟨.post, .acquiring⟩) else none
  | .exit => if (m.pc id).place = .outside then
      some ((moveTo m id .exited).withState id .completed) else none

def program : Program Pc Sempahore Label := ⟨⟨.wait, .outside⟩, exec⟩

def Pc.decrements (p : Pc) : Bool := decide (p.place = .decrementing)
def Pc.unlocksWait (p : Pc) : Bool := decide (p.place = .unlocking ∧ p.call = .wait)

def pending (m : State) : Nat := population Pc.decrements m
def returning (m : State) : Nat := population Pc.unlocksWait m

def Pc.typed (p : Pc) : Prop := p.place = .incrementing ∨ p.place = .notifying → p.call = .post

/- What a step of thread id does to value, to the two counters and to its own place. -/
inductive Effect (m out : State) (id : Nat) (label : Label) : Prop where
  | quiet (next : Pc) (moves : Moves m out id next)
      (value : out.mem.value = m.mem.value) (posts : out.mem.posts = m.mem.posts)
      (completed : out.mem.completed = m.mem.completed)
      (decrements : next.decrements = true → (m.pc id).decrements = true)
      (unlocks : next.unlocksWait = true → (m.pc id).unlocksWait = true)
      (typed : (m.pc id).typed → next.typed)
  | passed (advanced : label = .advance) (was : (m.pc id).place = .testing)
      (positive : 0 < m.mem.value) (moves : Moves m out id { m.pc id with place := .decrementing })
      (mem : out.mem = m.mem)
  | took (was : (m.pc id).place = .decrementing)
      (moves : Moves m out id { m.pc id with place := .unlocking })
      (mem : out.mem = { m.mem with value := int32 (m.mem.value - 1) })
  | posted (advanced : label = .advance) (was : (m.pc id).place = .incrementing)
      (moves : Moves m out id { m.pc id with place := .notifying })
      (mem : out.mem =
        { m.mem with value := int32 (m.mem.value + 1), posts := m.mem.posts + 1 })
  | returned (was : (m.pc id).unlocksWait = true) (moves : Moves m out id ⟨.wait, .outside⟩)
      (value : out.mem.value = m.mem.value) (posts : out.mem.posts = m.mem.posts)
      (completed : out.mem.completed = m.mem.completed + 1)

section Quiet
variable {m out : State} {id : Nat} {label : Label}

theorem Effect.stay : Effect m m id label :=
  .quiet (m.pc id) (movesStay m id) rfl rfl rfl (fun h => h) (fun h => h) (fun h => h)

theorem Effect.move {place : Place} (moves : Moves m out id { m.pc id with place := place })
    (value : out.mem.value = m.mem.value) (posts : out.mem.posts = m.mem.posts)
    (completed : out.mem.completed = m.mem.completed)
    (unwatched : place ∉ [Place.decrementing, .unlocking, .incrementing, .notifying]) :
    Effect m out id label := by
  simp only [List.mem_cons, List.not_mem_nil, or_false, not_or] at unwatched
  obtain ⟨dec, unl, inc, noti⟩ := unwatched
  refine .quiet _ moves value posts completed ?_ ?_ ?_
  · simp [Pc.decrements, dec]
  · simp [Pc.unlocksWait, unl]
  · intro _ at'
    rcases at' with h | h
    · exact absurd h inc
    · exact absurd h noti

end Quiet

theorem acquireEffect (m : State) (id : Nat) (label : Label) :
    Effect m (acquireStep lockView m id { m.pc id with place := locked (m.pc id).call }
      { m.pc id with place := .parking }) id label := by
  rcases acquireStepCases lockView m id { m.pc id with place := locked (m.pc id).call }
    { m.pc id with place := .parking } with stay | ⟨-, moves, mem⟩ | ⟨-, moves, mem⟩
  · rw [stay]; exact .stay
  · refine .quiet _ moves (by rw [mem]; rfl) (by rw [mem]; rfl) (by rw [mem]; rfl) ?_ ?_ ?_
    · cases (m.pc id).call <;> simp [Pc.decrements, locked]
    · cases (m.pc id).call <;> simp [Pc.unlocksWait, locked]
    · cases called : (m.pc id).call <;> simp [Pc.typed, locked, called]
  · exact .move moves (by rw [mem]; rfl) (by rw [mem]; rfl) (by rw [mem]; rfl) (by decide)

theorem waitGuardEffect (m : State) (id : Nat) (label : Label) :
    Effect m (waitGuardStep conditionView m id { m.pc id with place := .waitRelease }) id label := by
  rcases waitGuardStepCases conditionView m id { m.pc id with place := .waitRelease } with
    stay | ⟨cv, moves, mem⟩
  · rw [stay]; exact .stay
  · exact .move moves (by rw [mem]; rfl) (by rw [mem]; rfl) (by rw [mem]; rfl) (by decide)

theorem waitReleaseEffect (m : State) (id : Nat) (label : Label) :
    Effect m (releaseStep lockView m id { m.pc id with place := .waitPush }
      { m.pc id with place := .panicked }) id label := by
  rcases releaseStepCases lockView m id { m.pc id with place := .waitPush }
    { m.pc id with place := .panicked } with ⟨-, stay⟩ | ⟨-, -, moves, mem⟩ |
    ⟨-, -, next, lk, place, moves, -, mem⟩
  · rw [stay]; exact .stay
  · exact .move moves (by rw [mem]; rfl) (by rw [mem]; rfl) (by rw [mem]; rfl) (by decide)
  · rcases place with rfl | rfl
    · exact .move moves (by rw [mem]; rfl) (by rw [mem]; rfl) (by rw [mem]; rfl) (by decide)
    · exact .move moves (by rw [mem]; rfl) (by rw [mem]; rfl) (by rw [mem]; rfl) (by decide)

theorem notifyEffect (m : State) (id : Nat) (label : Label) (typed : (m.pc id).typed)
    (was : (m.pc id).place = .notifying) :
    Effect m (notifyStep conditionView m id m.mem.condition.notifyOneSection
      { m.pc id with place := .unlocking } { m.pc id with place := .panicked }) id label := by
  rcases notifyStepCases conditionView m id m.mem.condition.notifyOneSection
    { m.pc id with place := .unlocking } { m.pc id with place := .panicked } with
    stay | ⟨next, cv, place, moves, mem⟩
  · rw [stay]; exact .stay
  · rcases place with rfl | rfl
    · refine .quiet _ moves (by rw [mem]; rfl) (by rw [mem]; rfl) (by rw [mem]; rfl) ?_ ?_ ?_
      · simp [Pc.decrements]
      · simp [Pc.unlocksWait, typed (.inr was)]
      · simp [Pc.typed]
    · exact .move moves (by rw [mem]; rfl) (by rw [mem]; rfl) (by rw [mem]; rfl) (by decide)

theorem unlockEffect (m : State) (id : Nat) (label : Label)
    (was : (m.pc id).place = .unlocking) : Effect m (unlock m id) id label := by
  unfold unlock
  rcases releaseStepCases lockView m id { m.pc id with place := .outside }
    { m.pc id with place := .panicked } with ⟨-, stay⟩ | ⟨-, -, moves, mem⟩ |
    ⟨-, -, next, lk, place, moves, -, mem⟩
  · simp only [stay]
    rw [if_neg]
    · exact .stay
    · intro other; rw [other] at was; cases was
  · exact leave moves (by rw [mem]; rfl) (by rw [mem]; rfl) (by rw [mem]; rfl) (.inl rfl)
  · exact leave moves (by rw [mem]; rfl) (by rw [mem]; rfl) (by rw [mem]; rfl) place
where
  /- releaseLock ran: a wait is complete unless getThread panicked inside it -/
  leave {out : State} {next : Pc} (moves : Moves m out id next)
      (value : out.mem.value = m.mem.value) (posts : out.mem.posts = m.mem.posts)
      (completed : out.mem.completed = m.mem.completed)
      (place : next = { m.pc id with place := .outside } ∨
        next = { m.pc id with place := .panicked }) :
      Effect m (if out.pc id = ⟨.wait, .outside⟩ then
        { out with mem := { out.mem with completed := out.mem.completed + 1 } } else out) id label := by
    have here : out.pc id = next := by rw [moves.pc, Function.update_self]
    split
    · rename_i outside
      have same : next = ⟨.wait, .outside⟩ := here.symm.trans outside
      have called : (m.pc id).call = .wait := by
        rcases place with rfl | rfl <;> exact congrArg Pc.call same
      refine .returned (by simp [Pc.unlocksWait, was, called]) ?_ value posts ?_
      · rw [← same]; exact moves.withMem _
      · rw [← completed]
    · rcases place with rfl | rfl
      · exact .move moves value posts completed (by decide)
      · exact .move moves value posts completed (by decide)

theorem advanceEffect {m out : State} {id : Nat} (typed : (m.pc id).typed)
    (ok : advance m id (m.pc id).place = some out) : Effect m out id .advance := by
  cases was : (m.pc id).place <;> rw [was] at ok <;>
    simp only [advance, Option.some.injEq, reduceCtorEq] at ok
  all_goals subst out
  case acquiring => exact acquireEffect m id .advance
  case parking => exact .move (movesState m id _ id _) rfl rfl rfl (by decide)
  case testing =>
    unfold test
    split
    · exact .move (movesGoto m id _) rfl rfl rfl (by decide)
    · exact .passed rfl was (by omega) (movesGoto m id _) rfl
  case waitGuard => exact waitGuardEffect m id .advance
  case waitRelease => exact waitReleaseEffect m id .advance
  case waitPush => exact .move ((movesState m id _ id _).withMem _) rfl rfl rfl (by decide)
  case waitUnguard => exact .move ((movesGoto m id _).withMem _) rfl rfl rfl (by decide)
  case waitPark => exact .move (movesState m id _ id _) rfl rfl rfl (by decide)
  case decrementing => exact .took was ((movesGoto m id _).withMem _) rfl
  case incrementing => exact .posted rfl was ((movesGoto m id _).withMem _) rfl
  case notifying => exact notifyEffect m id .advance typed was
  case unlocking => exact unlockEffect m id .advance was

theorem yieldEffect {m out : State} {id next : Nat} {label : Label}
    (ok : yieldStep m id next (m.pc id).place = some out) : Effect m out id label := by
  cases was : (m.pc id).place <;> rw [was] at ok <;> simp only [yieldStep, reduceCtorEq] at ok
  all_goals
    have frame := (Machine.scheduleFrame ok).2
    exact .move (movesSchedule ok) (by rw [frame]; rfl) (by rw [frame]; rfl) (by rw [frame]; rfl)
      (by decide)

theorem execEffect {m out : State} {id : Nat} {label : Label} (typed : (m.pc id).typed)
    (ok : exec m id label = some out) : Effect m out id label := by
  cases label with
  | advance => exact advanceEffect typed ok
  | yieldTo next => exact yieldEffect ok
  | wait =>
    simp only [exec] at ok
    split at ok <;> cases ok
    exact .quiet _ (movesGoto m id _) rfl rfl rfl (by simp [Pc.decrements])
      (by simp [Pc.unlocksWait]) (by simp [Pc.typed])
  | post =>
    simp only [exec] at ok
    split at ok <;> cases ok
    exact .quiet _ (movesGoto m id _) rfl rfl rfl (by simp [Pc.decrements])
      (by simp [Pc.unlocksWait]) (by simp [Pc.typed])
  | exit =>
    simp only [exec] at ok
    split at ok <;> cases ok
    exact .move (movesState m id _ id _) rfl rfl rfl (by decide)

structure Counted (v : Int) (m : State) : Prop where
  fresh : Fresh program.start m
  typed : ∀ id, (m.pc id).typed
  covered : (pending m : Int) ≤ m.mem.value
  small : m.mem.value < 2 ^ 31
  balance : m.mem.value + m.mem.completed + returning m ≤ v + m.mem.posts

/- A test that succeeds leaves value enough for every thread past its own test, and no
increment leaves the range of int32_t. -/
def CoveredTest (m : State) (e : Event Label) : Prop :=
  ∀ t, e = .exec .advance → m.thisThread = some t →
    ((m.pc t.id).place = .testing → 0 < m.mem.value → (pending m : Int) < m.mem.value) ∧
    ((m.pc t.id).place = .incrementing → m.mem.value < 2 ^ 31 - 1)

instance (m : State) (e : Event Label) : Decidable (CoveredTest m e) :=
  match this : m.thisThread with
  | none => isTrue (fun t _ found => by simp [this] at found)
  | some t => decidable_of_iff (e = .exec .advance →
      ((m.pc t.id).place = .testing → 0 < m.mem.value → (pending m : Int) < m.mem.value) ∧
      ((m.pc t.id).place = .incrementing → m.mem.value < 2 ^ 31 - 1))
      (by simp [CoveredTest, this])

theorem int32Same {n : Int} (low : -(2 ^ 31) ≤ n) (high : n < 2 ^ 31) : int32 n = n := by
  unfold int32
  exact Int.bmod_eq_of_le (by omega) (by omega)

theorem typedMove {m out : State} {id : Nat} {next : Pc} (typed : ∀ a, (m.pc a).typed)
    (moves : Moves m out id next) (here : next.typed) : ∀ a, (out.pc a).typed := by
  intro a
  rw [moves.pc]
  by_cases same : a = id
  · subst a; rwa [Function.update_self]
  · rw [Function.update_of_ne same]; exact typed a

theorem effectCounted {v : Int} {m out : State} {id : Nat} {label : Label} (h : Counted v m)
    (known : id < m.currId)
    (test : label = .advance → (m.pc id).place = .testing → 0 < m.mem.value →
      (pending m : Int) < m.mem.value)
    (room : label = .advance → (m.pc id).place = .incrementing → m.mem.value < 2 ^ 31 - 1)
    (effect : Effect m out id label) : Counted v out := by
  have covered := h.covered
  have small := h.small
  have balance := h.balance
  cases effect with
  | quiet next moves value posts completed decrements unlocks typed =>
    have dec : pending out ≤ pending m := populationNoEnter _ known moves decrements
    have unl : returning out ≤ returning m := populationNoEnter _ known moves unlocks
    exact ⟨h.fresh.move known moves, typedMove h.typed moves (typed (h.typed id)), by omega,
      by omega, by omega⟩
  | passed advanced was positive moves mem =>
    have room := test advanced was positive
    have dec : pending out = pending m + 1 :=
      populationEnter _ known moves (by simp [Pc.decrements, was]) (by simp [Pc.decrements])
    have unl : returning out = returning m :=
      populationSame _ known moves (by simp [Pc.unlocksWait, was])
    exact ⟨h.fresh.move known moves, typedMove h.typed moves (by simp [Pc.typed]),
      by rw [mem, dec]; push_cast; omega, by rw [mem]; exact small, by rw [mem, unl]; exact balance⟩
  | took was moves mem =>
    have dec : pending out + 1 = pending m :=
      populationLeave _ known moves (by simp [Pc.decrements, was]) (by simp [Pc.decrements])
    have unl : returning out ≤ returning m + 1 := by
      have moved := populationMove Pc.unlocksWait known moves
      have one := Bool.toNat_le (Pc.unlocksWait { m.pc id with place := .unlocking })
      simp only [returning]
      omega
    -- the thread is itself pending, so value is positive here
    have value : out.mem.value = m.mem.value - 1 := by
      rw [mem]
      exact int32Same (by omega) (by omega)
    have same : out.mem.completed = m.mem.completed ∧ out.mem.posts = m.mem.posts := by
      rw [mem]; exact ⟨rfl, rfl⟩
    exact ⟨h.fresh.move known moves, typedMove h.typed moves (by simp [Pc.typed]), by omega,
      by omega, by omega⟩
  | posted advanced was moves mem =>
    have below := room advanced was
    have dec : pending out = pending m :=
      populationSame _ known moves (by simp [Pc.decrements, was])
    have unl : returning out = returning m :=
      populationSame _ known moves (by simp [Pc.unlocksWait, was])
    have value : out.mem.value = m.mem.value + 1 := by
      rw [mem]
      exact int32Same (by omega) (by omega)
    have same : out.mem.completed = m.mem.completed ∧ out.mem.posts = m.mem.posts + 1 := by
      rw [mem]; exact ⟨rfl, rfl⟩
    exact ⟨h.fresh.move known moves, typedMove h.typed moves (fun _ => h.typed id (.inl was)),
      by omega, by omega, by omega⟩
  | returned was moves value posts completed =>
    have dec : pending out ≤ pending m :=
      populationNoEnter _ known moves (by simp [Pc.decrements])
    have unl : returning out + 1 = returning m :=
      populationLeave _ known moves was (by simp [Pc.unlocksWait])
    exact ⟨h.fresh.move known moves, typedMove h.typed moves (by simp [Pc.typed]), by omega,
      by omega, by omega⟩

theorem stepCounted {v : Int} (m : State) (e : Event Label) (out : State) (h : Counted v m)
    (test : CoveredTest m e) (ok : step program m e = some out) : Counted v out := by
  rcases stepCases ok with ⟨label, t, rfl, this, ran⟩ | ⟨other, pcs, mems⟩
  · have known := h.fresh.below t (List.mem_of_getElem? this)
    refine effectCounted h known ?_ ?_ (execEffect (h.typed t.id) ran)
    · rintro rfl
      exact (test t rfl this).1
    · rintro rfl
      exact (test t rfl this).2
  · have dec : pending out = pending m :=
      populationOther Pc.decrements (by decide) h.fresh other pcs ok
    have unl : returning out = returning m :=
      populationOther Pc.unlocksWait (by decide) h.fresh other pcs ok
    exact ⟨(otherFresh h.fresh other ok).1, by rw [pcs]; exact h.typed,
      by rw [dec, mems]; exact h.covered, by rw [mems]; exact h.small,
      by rw [unl, mems]; exact h.balance⟩

theorem bootedCounted {v : Int} {m : State} (low : 0 ≤ v) (high : v < 2 ^ 31)
    (booted : Booted program (.new v) m) : Counted v m := by
  have nobody (f : Pc → Bool) (away : f program.start = false) : population f m = 0 := by
    unfold population
    rw [booted.pc, ← Nat.zero_add m.currId]
    exact Lib.Count.countExtend (n := 0) (fun _ _ => away)
  have dec : pending m = 0 := nobody Pc.decrements (by decide)
  have unl : returning m = 0 := nobody Pc.unlocksWait (by decide)
  refine ⟨bootedFresh booted, ?_, ?_, ?_, ?_⟩
  · intro id
    rw [booted.pc]
    simp [Pc.typed, program]
  · rw [dec, booted.mem]; exact low
  · rw [booted.mem]; exact high
  · rw [unl, booted.mem]; simp [Sempahore.new]

/-- In a run whose tests are all covered, value never goes below zero and no more waits
return than the initial value and the increments allow. -/
theorem coveredRunCounts {v : Int} {m mid : State} {es : List (Event Label)} (low : 0 ≤ v)
    (high : v < 2 ^ 31) (booted : Booted program (.new v) m)
    (guarded : Guarded (step program) CoveredTest m es)
    (visited : Visits (step program) m es mid) :
    0 ≤ mid.mem.value ∧ (mid.mem.completed : Int) ≤ v + mid.mem.posts := by
  have counted : Counted v mid :=
    Lib.Transition.invariantVisits (Counted v) stepCounted (bootedCounted low high booted) guarded visited
  have covered := counted.covered
  have balance := counted.balance
  constructor <;> omega

/- A waiter, a poster and a third thread, on a semaphore that starts at zero. -/
def trio : State :=
  { kthreads := [⟨1, .running⟩, ⟨2, .notStarted⟩, ⟨3, .notStarted⟩], currKThreadIdx := 0,
    currId := 4, pc := fun _ => ⟨.wait, .outside⟩, mem := .new 0 }

theorem trioBooted : Booted program (.new 0) trio :=
  ⟨rfl, rfl, by simp [trio], by simp [trio], by simp [trio, isRunnableState]⟩

/- Thread 1 waits; thread 2 posts and wakes it; thread 1 passes its test and is
preempted; thread 3 takes the free lock, passes its test too and completes. -/
def stolenWakeup : List (Event Label) :=
  [.exec .wait, .exec .advance, .exec .advance, .exec .advance, .exec .advance, .exec .advance,
   .exec .advance, .exec .advance, .exec (.yieldTo 1),
   .exec .post, .exec .advance, .exec .advance, .exec .advance, .exec .advance,
   .interrupt 2, .interrupt 0, .exec .advance, .interrupt 1, .interrupt 2,
   .exec .wait, .exec .advance, .exec .advance, .exec .advance, .exec .advance,
   .interrupt 0, .exec .advance, .exec .advance]

theorem stolenWakeupOvertakes : Booted program (.new 0) trio ∧
    ∃ out, run (step program) trio stolenWakeup = some out ∧ out.mem.value = -1 ∧
      out.mem.completed = 2 ∧ out.mem.posts = 1 :=
  ⟨trioBooted, _, rfl, rfl, rfl, rfl⟩

/- Thread 1 waits; thread 2 posts and wakes it. -/
def wokenWait : List (Event Label) :=
  [.exec .wait, .exec .advance, .exec .advance, .exec .advance, .exec .advance, .exec .advance,
   .exec .advance, .exec .advance, .exec (.yieldTo 1),
   .exec .post, .exec .advance, .exec .advance, .exec .advance, .exec .advance,
   .interrupt 0, .exec .advance, .exec .advance, .exec .advance]

theorem coveredRunCountsTrio : ∃ out, run (step program) trio wokenWait = some out ∧
    out.mem.completed = 1 ∧ 0 ≤ out.mem.value ∧ (out.mem.completed : Int) ≤ 0 + out.mem.posts := by
  refine ⟨_, rfl, rfl, ?_⟩
  have guarded : Guarded (step program) CoveredTest trio wokenWait :=
    Lib.Transition.checkedGuarded (by decide)
  exact coveredRunCounts (Int.le_refl 0) (by decide) trioBooted guarded
    ⟨_, [], (List.append_nil _).symm, rfl⟩

end DimOS.Concurrency.SemaphoreRuns
