import DimOS.Lib.Transition
import DimOS.Process.ContextFrame
import DimOS.Process.Scheduler

/-! Kernel threads that premptiveScheduler switches between. A Thread moves in the vector as a
whole, so what it carries is found by its id. Thread code may change every register and all
stack memory; only the interrupt path writes an execContext of a thread that exists. -/
namespace DimOS.Process.ContextSwitch
open ContextFrame
open Lib.WordStack (Word Memory)
open Lib.Transition (run runSingle Guarded guardedNil guardedConsIff invariantRunAll)

inductive Method where
  | normallyInterrupted
  | yielded
  deriving DecidableEq, Repr

/- yielding: the thread has executed the first half of kernel::yield and its int $0x20 comes next. -/
structure Kernel where
  kthreads : List Thread
  currKThreadIdx : Nat
  currId : Nat
  execContext : Nat → ExecContext
  contextSwitchInfo : Nat → Method
  yielding : Nat → Bool
  cpu : Cpu

namespace Kernel

def thisThread (k : Kernel) : Option Thread := k.kthreads[k.currKThreadIdx]?

def current (k : Kernel) : Option Nat := k.thisThread.map Thread.id

end Kernel

inductive Source where
  | pit
  | int20
  deriving DecidableEq, Repr

/- The registers and the memory with which scheduleKernelThread calls return_from_interrupt. The second
argument is the address of its local contextSwitchInfo, and no object has the null address. -/
structure Call where
  regs : Reg → Word
  mem : Memory
  info : regs .rsi ≠ 0

inductive Event where
  | compute (regs : Reg → Word) (rsp rip rflags : Word) (mem : Memory)
  | setState (id : Nat) (state : TaskState)
  | spawn (stackMem threadRunWrapper : Word)
  | yield
  | interrupt (source : Source) (call : Call)

def Kernel.exec (k : Kernel) (id : Nat) : Event → Kernel
  | .compute regs rsp rip rflags mem =>
    { k with cpu := { k.cpu with regs := regs, rsp := rsp, rip := rip, rflags := rflags, mem := mem } }
  | .setState other state => { k with kthreads := Process.setState k.kthreads other state }
  | .spawn stackMem threadRunWrapper =>
    { k with kthreads := k.kthreads ++ [⟨k.currId, .notStarted⟩]
             currId := k.currId + 1
             execContext := Function.update k.execContext k.currId
               { rip := threadRunWrapper, rsp := stackMem + 65536 - 4096 }
             contextSwitchInfo := Function.update k.contextSwitchInfo k.currId .normallyInterrupted
             yielding := Function.update k.yielding k.currId false }
  | .yield =>
    { k with contextSwitchInfo := Function.update k.contextSwitchInfo id .yielded
             yielding := Function.update k.yielding id true }
  | .interrupt _ _ => k

/- The PIT raises vector 32 as int $0x20 does. isr_handler calls premptiveScheduler, which does not
return to it: the EOI at its end is not reached. -/
def Kernel.interrupt (k : Kernel) (source : Source) (call : Call) : Option Kernel :=
  match k.thisThread with
  | none => none
  | some prevThread =>
    if source = .int20 ∧ k.yielding prevThread.id = false then none
    else
      let entered := isrCommonStub k.cpu 32
      let saved := Function.update k.execContext prevThread.id
        (copyFromISRFrame (ISRFrame.read entered.mem entered.rsp))
      let next := RRScheduler.getNext k.kthreads k.currKThreadIdx
      if next.1 = next.2.length then none
      else
        match next.2[next.1]? with
        | none => none
        | some nextThread =>
          some { k with
            kthreads := next.2
            currKThreadIdx := next.1
            execContext := saved
            contextSwitchInfo := Function.update k.contextSwitchInfo prevThread.id .normallyInterrupted
            yielding := if source = .int20 then Function.update k.yielding prevThread.id false else k.yielding
            cpu := returnFromInterrupt (saved nextThread.id) { entered with regs := call.regs, mem := call.mem } }

def step (k : Kernel) : Event → Option Kernel
  | .interrupt source call => k.interrupt source call
  | e =>
    match k.thisThread with
    | none => none
    | some t => if k.yielding t.id then none else some (k.exec t.id e)

/- What one interrupt does: it saves the registers of the current thread and loads those of the next. -/
structure Switched (k out : Kernel) (prev next : Thread) : Prop where
  threads : out.kthreads = (RRScheduler.getNext k.kthreads k.currKThreadIdx).2
  counter : out.currId = k.currId
  before : k.thisThread = some prev
  after : out.thisThread = some next
  saved : out.execContext = Function.update k.execContext prev.id ⟨k.cpu.rsp, k.cpu.rip, .ofRegs k.cpu.regs, k.cpu.rflags⟩
  loaded : Loaded (out.execContext next.id) out.cpu
  eoi : out.cpu.eoi = k.cpu.eoi

theorem interruptSwitches {k out : Kernel} {source : Source} {call : Call} (ok : k.interrupt source call = some out) :
    ∃ prev next, Switched k out prev next := by
  have sent := stubKeepsEoi k.cpu 32
  have saved := savedContext k.cpu 32
  unfold Kernel.interrupt at ok
  generalize isrCommonStub k.cpu 32 = entered at sent saved ok
  cases here : k.thisThread with
  | none => simp [here] at ok
  | some prev =>
    simp only [here, saved] at ok
    split at ok <;> try contradiction
    split at ok <;> try contradiction
    split at ok <;> try contradiction
    rename_i next found
    cases Option.some.inj ok
    refine ⟨prev, next, rfl, rfl, here, found, rfl, (returnFromInterruptLoads _ _).1, ?_⟩
    rw [returnFromInterruptEoi, if_neg call.info]
    exact sent

theorem stepCases {k out : Kernel} {e : Event} (ok : step k e = some out) :
    (∃ source call prev next, e = .interrupt source call ∧ Switched k out prev next) ∨
      ∃ t, (∀ source call, e ≠ .interrupt source call) ∧ k.thisThread = some t ∧ out = k.exec t.id e := by
  cases e with
  | interrupt source call =>
    obtain ⟨prev, next, switched⟩ := interruptSwitches ok
    exact .inl ⟨source, call, prev, next, rfl, switched⟩
  | _ =>
    refine .inr ?_
    simp only [step] at ok
    split at ok <;> try contradiction
    split at ok <;> try contradiction
    rename_i t here idle
    exact ⟨t, by simp, here, (Option.some.inj ok).symm⟩

theorem execCurrent {k : Kernel} {t : Thread} (here : k.thisThread = some t) (id : Nat) (e : Event) :
    (k.exec id e).current = k.current := by
  cases e with
  | setState other state =>
    have same : ∀ threads : List Thread, (Process.setState threads other state)[k.currKThreadIdx]?.map Thread.id =
        threads[k.currKThreadIdx]?.map Thread.id := by
      intro threads
      rw [← List.getElem?_map, setStateIds, List.getElem?_map]
    exact same k.kthreads
  | spawn stackMem threadRunWrapper =>
    have inside : k.currKThreadIdx < k.kthreads.length := (List.getElem?_eq_some_iff.mp here).1
    simp only [Kernel.current, Kernel.thisThread, Kernel.exec]
    rw [List.getElem?_append_left inside]
  | _ => rfl

theorem execContextKept (k : Kernel) (e : Event) {id other : Nat} (known : id < k.currId) :
    (k.exec other e).execContext id = k.execContext id ∧ id < (k.exec other e).currId := by
  cases e with
  | spawn stackMem threadRunWrapper =>
    refine ⟨?_, Nat.lt_succ_of_lt known⟩
    exact Function.update_of_ne (by omega) _ k.execContext
  | _ => exact ⟨rfl, known⟩

theorem Switched.kept {k out : Kernel} {prev next : Thread} (h : Switched k out prev next) {id : Nat}
    (other : prev.id ≠ id) : out.execContext id = k.execContext id := by
  rw [h.saved]
  exact Function.update_of_ne (Ne.symm other) _ k.execContext

def Counted (k : Kernel) : Prop := ∀ t ∈ k.kthreads, t.id < k.currId

theorem stepCounted {k : Kernel} {e : Event} {out : Kernel} (h : Counted k) (ok : step k e = some out) :
    Counted out := by
  intro t mem
  rcases stepCases ok with ⟨source, call, prev, next, rfl, switched⟩ | ⟨u, -, here, rfl⟩
  · rw [switched.threads] at mem
    obtain ⟨v, old, same⟩ := RRScheduler.getNextFrom mem
    rw [switched.counter, ← same]
    exact h v old
  · cases e with
    | setState other state =>
      have old : t.id ∈ (Process.setState k.kthreads other state).map Thread.id := List.mem_map_of_mem mem
      rw [setStateIds] at old
      obtain ⟨v, there, same⟩ := List.mem_map.mp old
      rw [← same]
      exact h v there
    | spawn stackMem threadRunWrapper =>
      rcases List.mem_append.mp mem with old | new
      · exact Nat.lt_succ_of_lt (h t old)
      · cases List.mem_singleton.mp new
        exact Nat.lt_succ_self k.currId
    | _ => exact h t mem

theorem stepKeeps {k out : Kernel} {e : Event} {id : Nat} (known : id < k.currId) (other : k.current ≠ some id)
    (ok : step k e = some out) : out.execContext id = k.execContext id ∧ id < out.currId := by
  rcases stepCases ok with ⟨source, call, prev, next, rfl, switched⟩ | ⟨t, -, here, rfl⟩
  · rw [switched.counter]
    refine ⟨switched.kept (fun same => other ?_), known⟩
    rw [Kernel.current, switched.before, ← same]
    rfl
  · exact execContextKept k e known

theorem stepResumes {k out : Kernel} {e : Event} {id : Nat} (other : k.current ≠ some id)
    (ok : step k e = some out) (back : out.current = some id) : Loaded (k.execContext id) out.cpu := by
  rcases stepCases ok with ⟨source, call, prev, next, rfl, switched⟩ | ⟨t, -, here, rfl⟩
  · have mine : next.id = id := by
      rw [Kernel.current, switched.after] at back
      exact Option.some.inj back
    have loaded := switched.loaded
    rw [mine, switched.kept (fun same => other (by rw [Kernel.current, switched.before, ← same]; rfl))] at loaded
    exact loaded
  · rw [execCurrent here] at back
    exact absurd back other

theorem runResumes {k out : Kernel} {events : List Event} {id : Nat} (known : id < k.currId)
    (away : Guarded step (fun mid _ => mid.current ≠ some id) k events) (more : events ≠ [])
    (ran : run step k events = some out) (back : out.current = some id) : Loaded (k.execContext id) out.cpu := by
  induction events generalizing k with
  | nil => exact absurd rfl more
  | cons e rest ih =>
    obtain ⟨other, later⟩ := guardedConsIff.mp away
    obtain ⟨mid, taken, ran⟩ := Option.bind_eq_some_iff.mp ran
    obtain ⟨kept, known⟩ := stepKeeps known other taken
    rw [← kept]
    cases rest with
    | nil =>
      cases Option.some.inj ran
      rw [kept]
      exact stepResumes other taken back
    | cons next rest => exact ih known (later mid taken) (by simp) ran

structure SameRegisters (s t : Cpu) : Prop where
  regs : ∀ r, s.regs r = t.regs r
  rip : s.rip = t.rip
  rsp : s.rsp = t.rsp
  rflags : s.rflags = t.rflags

theorem loadedSame {s t : Cpu} (loaded : Loaded ⟨t.rsp, t.rip, .ofRegs t.regs, t.rflags⟩ s) : SameRegisters s t :=
  ⟨fun r => (loaded.regs r).trans (getOfRegs t.regs r), loaded.rip, loaded.rsp, loaded.rflags⟩

/-- However the other threads run and are switched in between, a thread that was interrupted is resumed
with the general registers, rip, rsp and rflags that it had at the interrupt. -/
theorem contextRestored {start k first out : Kernel} {prev : Thread} {before after : List Event} {source : Source}
    {call : Call} (boot : Counted start) (reached : run step start before = some k)
    (here : k.thisThread = some prev) (taken : step k (.interrupt source call) = some first)
    (away : Guarded step (fun mid _ => mid.current ≠ some prev.id) first after)
    (ran : run step first after = some out) (back : out.current = some prev.id) : SameRegisters out.cpu k.cpu := by
  have counted : Counted k := invariantRunAll Counted (fun _ _ _ => stepCounted) boot reached
  have known : prev.id < k.currId := counted prev (List.mem_of_getElem? here)
  obtain ⟨own, next, switched⟩ := interruptSwitches taken
  have mine : own = prev := Option.some.inj (switched.before.symm.trans here)
  subst mine
  have saved : first.execContext own.id = ⟨k.cpu.rsp, k.cpu.rip, .ofRegs k.cpu.regs, k.cpu.rflags⟩ := by
    rw [switched.saved]
    exact Function.update_self own.id _ k.execContext
  apply loadedSame
  rw [← saved]
  cases after with
  | nil =>
    cases Option.some.inj ran
    rw [Kernel.current, switched.after] at back
    rw [← Option.some.inj back]
    exact switched.loaded
  | cons e rest =>
    refine runResumes ?_ away (by simp) ran back
    rw [switched.counter]
    exact known

/- Two threads, the first of them running; 32768 is the top of its stack. -/
def pairKernel : Kernel where
  kthreads := [⟨1, .running⟩, ⟨2, .notStarted⟩]
  currKThreadIdx := 0
  currId := 3
  execContext := fun _ => { rsp := 65536, rip := 8192 }
  contextSwitchInfo := fun _ => .normallyInterrupted
  yielding := fun _ => false
  cpu := ⟨fun r => if r = .rax then 7 else 9, 32768, 4096, 514, 8, 16, fun _ => 0, []⟩

def pairCall : Call := ⟨fun _ => 32000, fun _ => 0, by decide⟩

theorem contextRestoredPair : ∃ first out, step pairKernel (.interrupt .pit pairCall) = some first ∧
    first.current = some 2 ∧ step first (.interrupt .pit pairCall) = some out ∧ out.current = some 1 ∧
    SameRegisters out.cpu pairKernel.cpu := by
  have boot : Counted pairKernel := by
    intro t mem
    have either : t = ⟨1, .running⟩ ∨ t = ⟨2, .notStarted⟩ := by simpa [pairKernel] using mem
    rcases either with rfl | rfl <;> decide
  obtain ⟨first, taken⟩ : ∃ first, step pairKernel (.interrupt .pit pairCall) = some first := ⟨_, rfl⟩
  have now : first.current = some 2 := by
    cases Option.some.inj taken
    decide
  obtain ⟨out, again⟩ : ∃ out, step first (.interrupt .pit pairCall) = some out := by
    cases Option.some.inj taken
    exact ⟨_, rfl⟩
  have back : out.current = some 1 := by
    cases Option.some.inj taken
    cases Option.some.inj again
    decide
  have away : Guarded step (fun mid _ => mid.current ≠ some 1) first [.interrupt .pit pairCall] := by
    refine guardedConsIff.mpr ⟨by rw [now]; decide, ?_⟩
    exact fun t _ => guardedNil step _ t
  have ran : run step first [.interrupt .pit pairCall] = some out := by rw [runSingle]; exact again
  exact ⟨first, out, taken, now, again, back,
    @contextRestored pairKernel pairKernel first out ⟨1, .running⟩ [] _ .pit pairCall boot rfl rfl taken away ran back⟩

/- One EOI before a thread resumes from an interrupt of the PIT, and none for a yield. -/
def OneEoi (k : Kernel) (e : Event) : Prop :=
  ∀ out, step k e = some out →
    match e with
    | .interrupt .pit _ => out.cpu.eoi = 32 :: k.cpu.eoi
    | .interrupt .int20 _ => out.cpu.eoi = k.cpu.eoi
    | _ => True

theorem timerNoEoi {k out : Kernel} {call : Call} (ok : step k (.interrupt .pit call) = some out) :
    ¬ OneEoi k (.interrupt .pit call) := by
  obtain ⟨prev, next, switched⟩ := interruptSwitches ok
  intro one
  have sent := one out ok
  rw [switched.eoi] at sent
  exact absurd sent.symm (List.cons_ne_self 32 k.cpu.eoi)

theorem otherOneEoi {k : Kernel} {e : Event} (untimed : ∀ call, e ≠ .interrupt .pit call) : OneEoi k e := by
  intro out ok
  cases e with
  | interrupt source call =>
    cases source with
    | pit => exact absurd rfl (untimed call)
    | int20 =>
      obtain ⟨prev, next, switched⟩ := interruptSwitches ok
      exact switched.eoi
  | _ => trivial

/-- The comparison in return_from_interrupt is with the pointer, which is never null: exactly the runs
without an interrupt of the PIT send one EOI for each interrupt of the PIT and none for a yield. -/
theorem oneEoiIff {k out : Kernel} {events : List Event} (ran : run step k events = some out) :
    Guarded step OneEoi k events ↔ ∀ call, .interrupt .pit call ∉ events := by
  induction events generalizing k with
  | nil => simp [guardedNil]
  | cons e rest ih =>
    obtain ⟨mid, taken, ran⟩ := Option.bind_eq_some_iff.mp ran
    rw [guardedConsIff]
    constructor
    · rintro ⟨head, tail⟩ call mem
      rcases List.mem_cons.mp mem with rfl | later
      · exact timerNoEoi taken head
      · exact (ih ran).mp (tail mid taken) call later
    · intro untimed
      refine ⟨otherOneEoi (fun call same => untimed call (by simp [same])), ?_⟩
      intro t same
      cases Option.some.inj (taken.symm.trans same)
      exact (ih ran).mpr (fun call later => untimed call (List.mem_cons_of_mem e later))

theorem oneEoiYield : ∃ out, run step pairKernel [.yield, .interrupt .int20 pairCall] = some out ∧
    Guarded step OneEoi pairKernel [.yield, .interrupt .int20 pairCall] := by
  obtain ⟨out, ran⟩ : ∃ out, run step pairKernel [.yield, .interrupt .int20 pairCall] = some out := ⟨_, rfl⟩
  exact ⟨out, ran, (oneEoiIff ran).mpr (by simp)⟩

/- The timer interrupts the first thread, the second one runs on, and no EOI was sent. -/
theorem timerInterruptNoEoi : ∃ out, run step pairKernel [.interrupt .pit pairCall] = some out ∧
    out.current = some 2 ∧ out.cpu.eoi = [] ∧ ¬ Guarded step OneEoi pairKernel [.interrupt .pit pairCall] := by
  obtain ⟨out, taken⟩ : ∃ out, step pairKernel (.interrupt .pit pairCall) = some out := ⟨_, rfl⟩
  have now : out.current = some 2 := by
    cases Option.some.inj taken
    decide
  obtain ⟨prev, next, switched⟩ := @interruptSwitches pairKernel out .pit pairCall taken
  exact ⟨out, by rw [runSingle]; exact taken, now, switched.eoi,
    fun all => timerNoEoi taken (guardedConsIff.mp all).1⟩

end DimOS.Process.ContextSwitch
