import DimOS.Lib.WordStack

/-! The assembly around an interrupt: the entry stub, copyFromISRFrame and
return_from_interrupt. The instructions of interrupt.S and kthread.S are data, in the order
of the source. An object is the list of its words in the order in which its fields are
declared; a byte offset of the assembly picks one of them. -/
namespace DimOS.Process.ContextFrame
open Lib.WordStack

inductive Reg where
  | rax | rbx | rcx | rdx | rsi | rdi | rbp | r8 | r9 | r10 | r11 | r12 | r13 | r14 | r15
  deriving DecidableEq, Repr

structure GenRegisters where
  r15 : Word := 0
  r14 : Word := 0
  r13 : Word := 0
  r12 : Word := 0
  r11 : Word := 0
  r10 : Word := 0
  r9 : Word := 0
  r8 : Word := 0
  rbp : Word := 0
  rdi : Word := 0
  rsi : Word := 0
  rdx : Word := 0
  rcx : Word := 0
  rbx : Word := 0
  rax : Word := 0
  deriving DecidableEq, Repr

def GenRegisters.words (g : GenRegisters) : List Word :=
  [g.r15, g.r14, g.r13, g.r12, g.r11, g.r10, g.r9, g.r8, g.rbp, g.rdi, g.rsi, g.rdx, g.rcx, g.rbx, g.rax]

structure ExecContext where
  rsp : Word := 0
  rip : Word := 0
  genRegisters : GenRegisters := {}
  rflags : Word := 514
  deriving DecidableEq, Repr

/- execContext is the first field of Thread, so %rdi points at its first word. -/
def ExecContext.words (c : ExecContext) : List Word :=
  c.rsp :: c.rip :: c.genRegisters.words ++ [c.rflags]

/- The registers and the memory of the stacks. Thread objects live elsewhere; eoi has the vectors
for which signalEOI was called, the last one first. -/
structure Cpu where
  regs : Reg → Word
  rsp : Word
  rip : Word
  rflags : Word
  cs : Word
  ss : Word
  mem : Memory
  eoi : List Word

inductive Instr where
  | pushq (r : Reg)
  | pushqImm (v : Word)
  | pushqAt (offset : Nat)
  | popq (r : Reg)
  | movqImm (v : Word) (r : Reg)
  | movqSs (r : Reg)
  | movqCs (r : Reg)
  | movqAtRsp (offset : Nat)
  | addRsp (v : Word)
  | iretq
  deriving DecidableEq, Repr

def Cpu.push (s : Cpu) (w : Word) : Cpu := { s with rsp := s.rsp - 8, mem := store s.mem (s.rsp - 8) w }

def Cpu.setReg (s : Cpu) (r : Reg) (w : Word) : Cpu := { s with regs := Function.update s.regs r w }

/- The quadword at offset(%rdi), where %rdi points at a Thread with this context. -/
def ExecContext.at (c : ExecContext) (offset : Nat) : Word := c.words.getD (offset / 8) 0

def execute (c : ExecContext) (s : Cpu) : Instr → Cpu
  | .pushq r => s.push (s.regs r)
  | .pushqImm v => s.push v
  | .pushqAt offset => s.push (c.at offset)
  | .popq r => { s.setReg r (load s.mem s.rsp) with rsp := s.rsp + 8 }
  | .movqImm v r => s.setReg r v
  | .movqSs r => s.setReg r s.ss
  | .movqCs r => s.setReg r s.cs
  | .movqAtRsp offset => { s with rsp := c.at offset }
  | .addRsp v => { s with rsp := s.rsp + v }
  | .iretq =>
    { s with rip := load s.mem s.rsp
             cs := load s.mem (s.rsp + 8)
             rflags := load s.mem (s.rsp + 16)
             rsp := load s.mem (s.rsp + 24)
             ss := load s.mem (s.rsp + 32) }

def exec (c : ExecContext) (s : Cpu) (code : List Instr) : Cpu := code.foldl (execute c) s

def pusha64 : List Instr :=
  [.pushq .rax, .pushq .rbx, .pushq .rcx, .pushq .rdx, .pushq .rsi, .pushq .rdi, .pushq .rbp, .pushq .r8,
    .pushq .r9, .pushq .r10, .pushq .r11, .pushq .r12, .pushq .r13, .pushq .r14, .pushq .r15]

def popa64 : List Instr :=
  [.popq .r15, .popq .r14, .popq .r13, .popq .r12, .popq .r11, .popq .r10, .popq .r9, .popq .r8, .popq .rbp,
    .popq .rdi, .popq .rsi, .popq .rdx, .popq .rcx, .popq .rbx, .popq .rax]

def isrNoErrStub (code : Word) : List Instr := [.pushqImm 0, .pushqImm code]

/- The gates have no interrupt stack and the privilege level stays: the CPU aligns the stack pointer
and pushes the frame on the stack of the interrupted thread. -/
def Cpu.deliver (s : Cpu) : Cpu :=
  ((((({ s with rsp := s.rsp &&& ~~~15 } : Cpu).push s.ss).push s.rsp).push s.rflags).push s.cs).push s.rip

/- The stub of a vector without error code up to the call of isr_handler. It reads no Thread, and cld
changes none of the words that are saved. -/
def isrCommonStub (s : Cpu) (code : Word) : Cpu := exec {} s.deliver (isrNoErrStub code ++ pusha64)

structure ISRFrame where
  genRegisters : GenRegisters
  isrNumber : Word
  errorCode : Word
  rip : Word
  cs : Word
  rflags : Word
  rsp : Word
  ss : Word
  deriving DecidableEq, Repr

def ISRFrame.read (m : Memory) (a : Word) : ISRFrame where
  genRegisters :=
    { r15 := load m a
      r14 := load m (a + 8)
      r13 := load m (a + 16)
      r12 := load m (a + 24)
      r11 := load m (a + 32)
      r10 := load m (a + 40)
      r9 := load m (a + 48)
      r8 := load m (a + 56)
      rbp := load m (a + 64)
      rdi := load m (a + 72)
      rsi := load m (a + 80)
      rdx := load m (a + 88)
      rcx := load m (a + 96)
      rbx := load m (a + 104)
      rax := load m (a + 112) }
  isrNumber := load m (a + 120)
  errorCode := load m (a + 128)
  rip := load m (a + 136)
  cs := load m (a + 144)
  rflags := load m (a + 152)
  rsp := load m (a + 160)
  ss := load m (a + 168)

def copyFromISRFrame (context : ISRFrame) : ExecContext where
  genRegisters := context.genRegisters
  rflags := context.rflags
  rsp := context.rsp
  rip := context.rip

def buildFrame : List Instr :=
  [.movqAtRsp 0, .movqSs .rax, .pushq .rax, .pushqAt 0, .pushqAt 136, .movqCs .rax, .pushq .rax, .pushqAt 8,
    .movqImm 0 .rax, .pushq .rax, .pushq .rax,
    .pushqAt 128, .pushqAt 120, .pushqAt 112, .pushqAt 104, .pushqAt 96, .pushqAt 88, .pushqAt 80, .pushqAt 72,
    .pushqAt 64, .pushqAt 56, .pushqAt 48, .pushqAt 40, .pushqAt 32, .pushqAt 24, .pushqAt 16]

def interruptReturnPosition : List Instr := popa64 ++ [.addRsp 16, .iretq]

def Cpu.signalEOI (s : Cpu) : Cpu := { s with eoi := s.regs .rdi :: s.eoi }

/- %rsi is the pointer to the ContextSwitchInfo, and it is the pointer that is compared with 0. -/
def returnFromInterrupt (c : ExecContext) (s : Cpu) : Cpu :=
  let built := exec c s (buildFrame ++ [.movqImm 0 .rax])
  let signalled :=
    if built.regs .rsi = built.regs .rax then (exec c built [.movqImm 32 .rdi]).signalEOI else built
  exec c signalled interruptReturnPosition

def GenRegisters.get (g : GenRegisters) : Reg → Word
  | .rax => g.rax
  | .rbx => g.rbx
  | .rcx => g.rcx
  | .rdx => g.rdx
  | .rsi => g.rsi
  | .rdi => g.rdi
  | .rbp => g.rbp
  | .r8 => g.r8
  | .r9 => g.r9
  | .r10 => g.r10
  | .r11 => g.r11
  | .r12 => g.r12
  | .r13 => g.r13
  | .r14 => g.r14
  | .r15 => g.r15

def fieldOrder : List Reg :=
  [.r15, .r14, .r13, .r12, .r11, .r10, .r9, .r8, .rbp, .rdi, .rsi, .rdx, .rcx, .rbx, .rax]

theorem fieldOrderAll (r : Reg) : r ∈ fieldOrder := by cases r <;> decide

def Cpu.pushAll (s : Cpu) (ws : List Word) : Cpu := ws.foldl Cpu.push s

theorem pushAllHolds {s : Cpu} {old : List Word} (held : Holds s.mem s.rsp old) (ws : List Word)
    (room : 8 * (ws.length + old.length) ≤ 2 ^ 64) :
    Holds (s.pushAll ws).mem (s.pushAll ws).rsp (ws.reverse ++ old) := by
  induction ws generalizing s old with
  | nil => exact held
  | cons w ws ih =>
    rw [List.length_cons] at room
    have pushed : Holds (s.push w).mem (s.push w).rsp (w :: old) := holdsPush held (by omega) w
    have rest := ih pushed (by rw [List.length_cons]; omega)
    rw [List.reverse_cons, List.append_assoc, List.singleton_append]
    exact rest

/- What a run of pops leaves: the named registers are loaded, nothing else but the stack pointer moves. -/
structure Popped (s out : Cpu) (rs : List Reg) (v : Reg → Word) (ws : List Word) : Prop where
  held : Holds out.mem out.rsp ws
  loaded : ∀ r ∈ rs, out.regs r = v r
  kept : ∀ r, r ∉ rs → out.regs r = s.regs r

theorem popsSpec (c : ExecContext) {s : Cpu} {rs : List Reg} (nodup : rs.Nodup) {v : Reg → Word} {ws : List Word}
    (held : Holds s.mem s.rsp (rs.map v ++ ws)) : Popped s (exec c s (rs.map Instr.popq)) rs v ws := by
  induction rs generalizing s with
  | nil => exact ⟨held, fun r mem => absurd mem (List.not_mem_nil), fun r _ => rfl⟩
  | cons r rs ih =>
    obtain ⟨fresh, nodup⟩ := List.nodup_cons.mp nodup
    have rest := ih (s := execute c s (.popq r)) nodup held.2
    refine ⟨rest.held, ?_, ?_⟩
    · intro a mem
      rcases List.mem_cons.mp mem with rfl | inside
      · refine (rest.kept a fresh).trans ?_
        exact (Function.update_self a _ s.regs).trans held.1
      · exact rest.loaded a inside
    · intro a absent
      obtain ⟨other, outside⟩ := not_or.mp (fun either => absent (List.mem_cons.mpr either))
      exact (rest.kept a outside).trans (Function.update_of_ne other _ s.regs)

theorem execAppend (c : ExecContext) (s : Cpu) (code more : List Instr) :
    exec c s (code ++ more) = exec c (exec c s code) more := List.foldl_append

theorem execEoi (c : ExecContext) (s : Cpu) (code : List Instr) : (exec c s code).eoi = s.eoi := by
  induction code generalizing s with
  | nil => rfl
  | cons i code ih =>
    have one : (execute c s i).eoi = s.eoi := by cases i <;> rfl
    exact (ih (execute c s i)).trans one

/- The words of the frame from the stack pointer upwards, as ISRFrame declares them. -/
def frameWords (g : GenRegisters) (isrNumber errorCode rip cs rflags rsp ss : Word) : List Word :=
  g.words ++ [isrNumber, errorCode, rip, cs, rflags, rsp, ss]

structure Loaded (c : ExecContext) (s : Cpu) : Prop where
  regs : ∀ r, s.regs r = c.genRegisters.get r
  rip : s.rip = c.rip
  rsp : s.rsp = c.rsp
  rflags : s.rflags = c.rflags

theorem buildFrameHolds (c : ExecContext) (s : Cpu) :
    Holds (exec c s buildFrame).mem (exec c s buildFrame).rsp
      (frameWords c.genRegisters 0 0 c.rip s.cs c.rflags c.rsp s.ss) := by
  have pushed := @pushAllHolds { s with rsp := c.rsp } [] trivial
    (frameWords c.genRegisters 0 0 c.rip s.cs c.rflags c.rsp s.ss).reverse (by simp [frameWords, GenRegisters.words])
  rw [List.reverse_reverse, List.append_nil] at pushed
  exact pushed

theorem iretqLoads (c : ExecContext) {s : Cpu} {isrNumber errorCode rip cs rflags rsp ss : Word}
    (held : Holds s.mem s.rsp [isrNumber, errorCode, rip, cs, rflags, rsp, ss]) :
    ∃ out, exec c s [.addRsp 16, .iretq] = out ∧ out.regs = s.regs ∧
      out.rip = rip ∧ out.cs = cs ∧ out.rflags = rflags ∧ out.rsp = rsp ∧ out.ss = ss := by
  obtain ⟨-, -, frame⟩ := held
  rw [BitVec.add_assoc] at frame
  exact ⟨_, rfl, rfl, frame.1, holdsAt frame (i := 1) rfl, holdsAt frame (i := 2) rfl,
    holdsAt frame (i := 3) rfl, holdsAt frame (i := 4) rfl⟩

theorem returnLoads (c : ExecContext) {s : Cpu} {g : GenRegisters} {isrNumber errorCode rip cs rflags rsp ss : Word}
    (held : Holds s.mem s.rsp (frameWords g isrNumber errorCode rip cs rflags rsp ss)) :
    Loaded ⟨rsp, rip, g, rflags⟩ (exec c s interruptReturnPosition) ∧
      (exec c s interruptReturnPosition).cs = cs ∧ (exec c s interruptReturnPosition).ss = ss := by
  have popped : Popped s (exec c s popa64) fieldOrder g.get [isrNumber, errorCode, rip, cs, rflags, rsp, ss] :=
    @popsSpec c s fieldOrder (by decide) g.get _ held
  rw [interruptReturnPosition, execAppend]
  obtain ⟨out, done, regs, ripped, coded, flagged, stacked, segment⟩ := iretqLoads c popped.held
  rw [done]
  refine ⟨⟨fun r => ?_, ripped, stacked, flagged⟩, coded, segment⟩
  rw [regs]
  exact popped.loaded r (fieldOrderAll r)

theorem buildFrameKeeps (c : ExecContext) (s : Cpu) : (exec c s buildFrame).regs .rsi = s.regs .rsi := rfl

theorem returnFromInterruptLoads (c : ExecContext) (s : Cpu) :
    Loaded c (returnFromInterrupt c s) ∧ (returnFromInterrupt c s).cs = s.cs ∧ (returnFromInterrupt c s).ss = s.ss := by
  have held := buildFrameHolds c s
  simp only [returnFromInterrupt, execAppend]
  generalize exec c s buildFrame = built at held
  split
  · exact returnLoads c (s := (exec c (exec c built [.movqImm 0 .rax]) [.movqImm 32 .rdi]).signalEOI) held
  · exact returnLoads c (s := exec c built [.movqImm 0 .rax]) held

theorem returnFromInterruptEoi (c : ExecContext) (s : Cpu) :
    (returnFromInterrupt c s).eoi = if s.regs .rsi = 0 then 32 :: s.eoi else s.eoi := by
  have sent := execEoi c s buildFrame
  have pointer := buildFrameKeeps c s
  simp only [returnFromInterrupt, execAppend, execEoi]
  rw [← pointer, ← sent]
  generalize exec c s buildFrame = built
  split
  · next null =>
    rw [if_pos (show built.regs .rsi = 0 from null)]
    rfl
  · next pointer =>
    rw [if_neg (show ¬ built.regs .rsi = 0 from pointer)]
    rfl

def GenRegisters.ofRegs (regs : Reg → Word) : GenRegisters where
  r15 := regs .r15
  r14 := regs .r14
  r13 := regs .r13
  r12 := regs .r12
  r11 := regs .r11
  r10 := regs .r10
  r9 := regs .r9
  r8 := regs .r8
  rbp := regs .rbp
  rdi := regs .rdi
  rsi := regs .rsi
  rdx := regs .rdx
  rcx := regs .rcx
  rbx := regs .rbx
  rax := regs .rax

theorem getOfRegs (regs : Reg → Word) (r : Reg) : (GenRegisters.ofRegs regs).get r = regs r := by
  cases r <;> rfl

theorem stubHolds (s : Cpu) (code : Word) :
    Holds (isrCommonStub s code).mem (isrCommonStub s code).rsp
      (frameWords (.ofRegs s.regs) code 0 s.rip s.cs s.rflags s.rsp s.ss) := by
  have pushed := @pushAllHolds { s with rsp := s.rsp &&& ~~~15 } [] trivial
    (frameWords (.ofRegs s.regs) code 0 s.rip s.cs s.rflags s.rsp s.ss).reverse
    (by simp [frameWords, GenRegisters.words])
  rw [List.reverse_reverse, List.append_nil] at pushed
  exact pushed

theorem stubKeepsEoi (s : Cpu) (code : Word) : (isrCommonStub s code).eoi = s.eoi := execEoi {} s.deliver _

theorem readFrame {m : Memory} {a : Word} {g : GenRegisters} {isrNumber errorCode rip cs rflags rsp ss : Word}
    (held : Holds m a (frameWords g isrNumber errorCode rip cs rflags rsp ss)) :
    ISRFrame.read m a = ⟨g, isrNumber, errorCode, rip, cs, rflags, rsp, ss⟩ := by
  have word : ∀ i w, (frameWords g isrNumber errorCode rip cs rflags rsp ss)[i]? = some w →
      load m (a + BitVec.ofNat 64 (8 * i)) = w := fun i w here => holdsAt held here
  simp only [ISRFrame.read, ISRFrame.mk.injEq]
  refine ⟨?_, word 15 _ rfl, word 16 _ rfl, word 17 _ rfl, word 18 _ rfl, word 19 _ rfl, word 20 _ rfl, word 21 _ rfl⟩
  cases g
  simp only [GenRegisters.mk.injEq]
  exact ⟨held.1, word 1 _ rfl, word 2 _ rfl, word 3 _ rfl, word 4 _ rfl, word 5 _ rfl, word 6 _ rfl, word 7 _ rfl,
    word 8 _ rfl, word 9 _ rfl, word 10 _ rfl, word 11 _ rfl, word 12 _ rfl, word 13 _ rfl, word 14 _ rfl⟩

theorem savedContext (s : Cpu) (code : Word) :
    copyFromISRFrame (ISRFrame.read (isrCommonStub s code).mem (isrCommonStub s code).rsp) =
      ⟨s.rsp, s.rip, .ofRegs s.regs, s.rflags⟩ := by
  rw [readFrame (stubHolds s code)]
  rfl

end DimOS.Process.ContextFrame
