import Mathlib.Tactic.IntervalCases
import Mathlib.Data.List.Nodup
import DimOS.Lib.Transition
import DimOS.Process.Scheduler

/-! park and unpark over the real round robin: every interrupt, yield and park ends in
scheduleKernelThread, which runs getNext on the thread that gave up the CPU. A thread is on
the CPU only because getNext selected it. -/
namespace DimOS.Process.Parking
open RRScheduler
open Lib.Transition (run)

structure Cpu where
  kthreads : List Thread
  currKThreadIdx : Nat
  deriving DecidableEq, Repr

inductive Call where
  | interrupt
  | yield
  | park
  | unpark (id : Nat)
  | finish
  deriving DecidableEq, Repr

def thisThread (c : Cpu) : Option Thread := c.kthreads[c.currKThreadIdx]?

/- `none` is the panic when no kernel thread is left. -/
def scheduleKernelThread (c : Cpu) : Option Cpu :=
  let r := getNext c.kthreads c.currKThreadIdx
  if r.1 = r.2.length then none else some ⟨r.2, r.1⟩

/- `thisThread().state = state;` -/
def setThis (c : Cpu) (state : TaskState) : Option Cpu :=
  match thisThread c with
  | none => none
  | some t => some { c with kthreads := c.kthreads.set c.currKThreadIdx { t with state := state } }

def step (c : Cpu) : Call → Option Cpu
  | .interrupt => scheduleKernelThread c
  | .yield => scheduleKernelThread c
  | .park => (setThis c .sleeping).bind scheduleKernelThread
  | .unpark id => (getThread c.kthreads id).map (fun t =>
      { c with kthreads := setState c.kthreads t.id .running })
  | .finish => (setThis c .completed).bind scheduleKernelThread

structure Sound (c : Cpu) : Prop where
  nodup : (c.kthreads.map Thread.id).Nodup
  inside : c.currKThreadIdx < c.kthreads.length

theorem pickReaches {tasks : List Thread} {left start d : Nat} {t : Thread} (inside : start < tasks.length)
    (steps : d < left) (found : tasks[(start + d) % tasks.length]? = some t)
    (runnable : isRunnableState t.state = true) :
    ∃ e u, e ≤ d ∧ pick tasks left start = (start + e) % tasks.length ∧
      tasks[(start + e) % tasks.length]? = some u ∧ isRunnableState u.state = true := by
  induction left generalizing start d with
  | zero => omega
  | succ left ih =>
    have here : tasks[start]? = some tasks[start] := List.getElem?_eq_getElem inside
    simp only [pick, here]
    by_cases now : isRunnableState tasks[start].state = true
    · rw [if_pos now]
      refine ⟨0, tasks[start], Nat.zero_le d, ?_, ?_, now⟩
      · rw [Nat.add_zero, Nat.mod_eq_of_lt inside]
      · rw [Nat.add_zero, Nat.mod_eq_of_lt inside]
        exact here
    · rw [if_neg now]
      have positive : d ≠ 0 := by
        rintro rfl
        rw [Nat.add_zero, Nat.mod_eq_of_lt inside, here] at found
        exact now (Option.some.inj found ▸ runnable)
      have shift : ∀ k, ((start + 1) % tasks.length + k) % tasks.length =
          (start + (k + 1)) % tasks.length := by
        intro k
        rw [Nat.mod_add_mod]
        congr 1
        omega
      have next : tasks[((start + 1) % tasks.length + (d - 1)) % tasks.length]? = some t := by
        rw [shift, Nat.sub_add_cancel (by omega)]
        exact found
      obtain ⟨e, u, low, picked, at', ok⟩ := ih (Nat.mod_lt _ (by omega)) (by omega) next
      rw [shift] at picked at'
      exact ⟨e + 1, u, by omega, picked, at', ok⟩

/- The state in which a thread gives up the CPU without parking undisturbed or ending. -/
def Gives (state : TaskState) : Prop := state ≠ .doNotDisturb ∧ state ≠ .completed

theorem scheduleRound {c : Cpu} {t : Thread} (sound : Sound c) (here : thisThread c = some t)
    (gives : Gives t.state) {d : Nat} {u : Thread} (low : d < c.kthreads.length)
    (found : (c.kthreads.set c.currKThreadIdx { t with state := .running })[
      (c.currKThreadIdx + 1 + d) % c.kthreads.length]? = some u)
    (runnable : isRunnableState u.state = true) :
    ∃ e w, e ≤ d ∧ scheduleKernelThread c = some
        ⟨c.kthreads.set c.currKThreadIdx { t with state := .running },
          (c.currKThreadIdx + 1 + e) % c.kthreads.length⟩ ∧
      (c.kthreads.set c.currKThreadIdx { t with state := .running })[
        (c.currKThreadIdx + 1 + e) % c.kthreads.length]? = some w ∧ isRunnableState w.state = true := by
  have index := findIdxOfNodup sound.nodup here
  have inside := sound.inside
  unfold thisThread at here
  have rest : getNext c.kthreads c.currKThreadIdx =
      (pick (c.kthreads.set c.currKThreadIdx { t with state := .running }) c.kthreads.length
        ((c.currKThreadIdx + 1) % c.kthreads.length),
        c.kthreads.set c.currKThreadIdx { t with state := .running }) := by
    simp only [getNext, here, index, gives.1, gives.2, and_false, if_false, List.length_set,
      if_neg (show ¬ c.kthreads.length = 0 by omega)]
  generalize tasksEq : c.kthreads.set c.currKThreadIdx { t with state := .running } = tasks at *
  have size : tasks.length = c.kthreads.length := by rw [← tasksEq, List.length_set]
  have target : tasks[((c.currKThreadIdx + 1) % tasks.length + d) % tasks.length]? = some u := by
    rw [size, Nat.mod_add_mod]
    exact found
  obtain ⟨e, w, bound, picked, at', ok⟩ := pickReaches
    (Nat.mod_lt (c.currKThreadIdx + 1) (by omega)) (show d < tasks.length by omega) target runnable
  rw [size, Nat.mod_add_mod] at picked at'
  refine ⟨e, w, bound, ?_, at', ok⟩
  simp only [scheduleKernelThread, rest, picked, size]
  have short : (c.currKThreadIdx + 1 + e) % c.kthreads.length < c.kthreads.length :=
    Nat.mod_lt _ (by omega)
  rw [if_neg (by omega)]

theorem scheduleSound {c out : Cpu} (sound : Sound c) (ok : scheduleKernelThread c = some out) :
    Sound out := by
  simp only [scheduleKernelThread] at ok
  split at ok
  · contradiction
  · next chosen =>
    cases Option.some.inj ok
    obtain ⟨prev, here⟩ : ∃ prev, c.kthreads[c.currKThreadIdx]? = some prev :=
      ⟨_, List.getElem?_eq_getElem sound.inside⟩
    by_cases parked : prev.state = .doNotDisturb
    · rw [getNextUndisturbed sound.nodup here parked]
      exact sound
    · have bound : (getNext c.kthreads c.currKThreadIdx).1 ≤
          (getNext c.kthreads c.currKThreadIdx).2.length := by
        simp only [getNext, here, parked, and_false, if_false]
        generalize (if prev.state = .completed then _ else _ : List Thread) = rest
        split
        · omega
        · exact pickLe _ _ _
      refine ⟨?_, Nat.lt_of_le_of_ne bound chosen⟩
      simp only [getNextRetires sound.nodup here parked, retire, here]
      split
      · exact removeTaskNodup here sound.nodup
      · rw [idsSet _ _ here]
        exact sound.nodup

theorem setThisSound {c out : Cpu} {state : TaskState} (sound : Sound c)
    (ok : setThis c state = some out) : Sound out := by
  unfold setThis at ok
  split at ok
  · contradiction
  · next t here =>
    cases Option.some.inj ok
    refine ⟨?_, by simpa using sound.inside⟩
    simp only
    rw [idsSet _ _ here]
    exact sound.nodup

theorem stepSound {c out : Cpu} {e : Call} (sound : Sound c) (ok : step c e = some out) : Sound out := by
  cases e with
  | interrupt => exact scheduleSound sound ok
  | yield => exact scheduleSound sound ok
  | park =>
    obtain ⟨mid, set, done⟩ := Option.bind_eq_some_iff.mp ok
    exact scheduleSound (setThisSound sound set) done
  | finish =>
    obtain ⟨mid, set, done⟩ := Option.bind_eq_some_iff.mp ok
    exact scheduleSound (setThisSound sound set) done
  | unpark id =>
    obtain ⟨t, -, rfl⟩ := Option.map_eq_some_iff.mp ok
    refine ⟨by rw [setStateIds]; exact sound.nodup, ?_⟩
    simp only [setState, List.length_map]
    exact sound.inside

theorem runnableGives {state : TaskState} (runnable : isRunnableState state = true) : Gives state := by
  cases state <;> simp [isRunnableState, Gives] at *

theorem interruptsReach {d : Nat} {c : Cpu} {t u : Thread} (sound : Sound c)
    (here : thisThread c = some t) (gives : Gives t.state) (low : d < c.kthreads.length)
    (found : c.kthreads[(c.currKThreadIdx + d) % c.kthreads.length]? = some u)
    (runnable : isRunnableState u.state = true) :
    ∃ k out w, run step c (List.replicate k .interrupt) = some out ∧ thisThread out = some w ∧
      w.id = u.id := by
  induction d using Nat.strongRecOn generalizing c t u with
  | ind d ih =>
    by_cases arrived : d = 0
    · subst arrived
      rw [Nat.add_zero, Nat.mod_eq_of_lt sound.inside] at found
      exact ⟨0, c, u, rfl, found, rfl⟩
    · -- the written-back thread may be the target itself; its id and RUNNING are all that count
      have kept : ∃ u', (c.kthreads.set c.currKThreadIdx { t with state := .running })[
          (c.currKThreadIdx + 1 + (d - 1)) % c.kthreads.length]? = some u' ∧ u'.id = u.id ∧
          isRunnableState u'.state = true := by
        rw [show c.currKThreadIdx + 1 + (d - 1) = c.currKThreadIdx + d by omega, List.getElem?_set]
        by_cases same : c.currKThreadIdx = (c.currKThreadIdx + d) % c.kthreads.length
        · unfold thisThread at here
          rw [← same, here] at found
          cases Option.some.inj found
          rw [if_pos same, if_pos sound.inside]
          exact ⟨_, rfl, rfl, rfl⟩
        · rw [if_neg same]
          exact ⟨u, found, rfl, runnable⟩
      obtain ⟨u', at', sameId, runnable'⟩ := kept
      obtain ⟨e, w, low', scheduled, there, ready⟩ := scheduleRound sound here gives (by omega) at' runnable'
      have sound' := scheduleSound sound scheduled
      have shorter : d - 1 - e < d := by omega
      have size : (c.kthreads.set c.currKThreadIdx { t with state := .running }).length =
          c.kthreads.length := List.length_set
      have target : (c.kthreads.set c.currKThreadIdx { t with state := .running })[
          ((c.currKThreadIdx + 1 + e) % c.kthreads.length + (d - 1 - e)) %
            (c.kthreads.set c.currKThreadIdx { t with state := .running }).length]? = some u' := by
        rw [size, Nat.mod_add_mod, show c.currKThreadIdx + 1 + e + (d - 1 - e) =
          c.currKThreadIdx + 1 + (d - 1) by omega]
        exact at'
      obtain ⟨k, out, x, reached, last, id⟩ := ih (d - 1 - e) shorter sound' there
        (runnableGives ready) (by simp only [size]; omega) target runnable'
      refine ⟨k + 1, out, x, ?_, last, id.trans sameId⟩
      simp only [List.replicate_succ, run, step, scheduled, Option.bind_some]
      exact reached

theorem parkRound {c : Cpu} {t : Thread} (sound : Sound c) (here : thisThread c = some t) :
    ∃ out w, step c .park = some out ∧ Sound out ∧ thisThread out = some w ∧
      isRunnableState w.state = true ∧ ∃ d, d < out.kthreads.length ∧
      out.kthreads[(out.currKThreadIdx + d) % out.kthreads.length]? =
        some { t with state := .running } := by
  obtain ⟨parked, parkedEq⟩ : ∃ parked, parked =
      Cpu.mk (c.kthreads.set c.currKThreadIdx { t with state := .sleeping }) c.currKThreadIdx :=
    ⟨_, rfl⟩
  have set : setThis c .sleeping = some parked := by
    simp only [setThis, here, parkedEq]
  have soundP : Sound parked := setThisSound sound set
  have inside := soundP.inside
  have hereP : thisThread parked = some { t with state := .sleeping } := by
    rw [parkedEq]
    simp only [thisThread, List.getElem?_set, if_pos sound.inside, if_true]
  obtain ⟨tasks, tasksEq⟩ : ∃ tasks, tasks =
      parked.kthreads.set parked.currKThreadIdx { t with state := .running } := ⟨_, rfl⟩
  have size : tasks.length = parked.kthreads.length := by rw [tasksEq, List.length_set]
  -- a full turn of the vector comes back to the thread that parked
  have own : tasks[(parked.currKThreadIdx + 1 + (parked.kthreads.length - 1)) %
      parked.kthreads.length]? = some { t with state := .running } := by
    have turn : parked.currKThreadIdx + 1 + (parked.kthreads.length - 1) =
        parked.currKThreadIdx + parked.kthreads.length := by omega
    rw [turn, Nat.add_mod_right, Nat.mod_eq_of_lt inside, tasksEq, List.getElem?_set, if_pos rfl,
      if_pos inside]
  rw [tasksEq] at own
  obtain ⟨e, w, low, scheduled, there, ready⟩ := scheduleRound soundP hereP (by simp [Gives])
    (by omega) own rfl
  rw [← tasksEq] at own scheduled there
  refine ⟨_, w, ?_, scheduleSound soundP scheduled, there, ready, parked.kthreads.length - 1 - e, ?_, ?_⟩
  · simp only [step, set, Option.bind_some, scheduled]
  · simp only [size]
    omega
  · simp only [size]
    rw [Nat.mod_add_mod, show parked.currKThreadIdx + 1 + e + (parked.kthreads.length - 1 - e) =
      parked.currKThreadIdx + 1 + (parked.kthreads.length - 1) by omega]
    exact own

/- What the property asks after the thread on the CPU of c parks: as long as nobody unparks
it, it is not on the CPU again. -/
def StaysParked (c : Cpu) (id : Nat) : Prop :=
  ∀ calls out t, Call.unpark id ∉ calls → run step c (.park :: calls) = some out →
    thisThread out = some t → t.id ≠ id

/-- No thread stays parked: whatever happened before, after a park some number of timer
interrupts puts the thread on the CPU again, and nobody has unparked it. -/
theorem parkedSelectedAgain (start c : Cpu) (calls : List Call) (t : Thread) (sound : Sound start)
    (reached : run step start calls = some c) (here : thisThread c = some t) :
    (∃ k out u, run step c (.park :: List.replicate k .interrupt) = some out ∧
      thisThread out = some u ∧ u.id = t.id) ∧ ¬ StaysParked c t.id := by
  have soundC : Sound c := Lib.Transition.invariantRunAll Sound (fun _ _ _ => stepSound) sound reached
  obtain ⟨mid, w, parks, soundM, there, ready, d, low, found⟩ := parkRound soundC here
  obtain ⟨k, out, u, ran, last, id⟩ := interruptsReach soundM there (runnableGives ready) low found rfl
  have again : run step c (.park :: List.replicate k .interrupt) = some out := by
    simp only [run, parks, Option.bind_some]
    exact ran
  refine ⟨⟨k, out, u, again, last, id⟩, ?_⟩
  intro stays
  refine stays (List.replicate k .interrupt) out u ?_ again last id
  intro mem
  have := List.eq_of_mem_replicate mem
  contradiction

def parkingPair : Cpu := ⟨[⟨1, .running⟩, ⟨2, .running⟩], 0⟩

theorem parkingPairAgain : ¬ StaysParked parkingPair 1 :=
  (parkedSelectedAgain parkingPair parkingPair [] ⟨1, .running⟩ ⟨by decide, by decide⟩ rfl rfl).2

/- The parked thread is back after one interrupt. -/
theorem parkingPairSelected :
    ¬ ∀ (c : Cpu) (id : Nat), Sound c → (thisThread c).map Thread.id = some id → StaysParked c id := by
  intro all
  have back : run step parkingPair [.park, .interrupt] =
      some ⟨[⟨1, .running⟩, ⟨2, .running⟩], 0⟩ := by decide
  exact all parkingPair 1 ⟨by decide, by decide⟩ (by decide) [.interrupt] _ ⟨1, .running⟩ (by simp) back
    (by decide) rfl

end DimOS.Process.Parking
