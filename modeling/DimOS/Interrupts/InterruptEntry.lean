import Mathlib
import DimOS.Interrupts.DescriptorTables
import DimOS.Process.ContextFrame

/-! An interrupt from the gate to iretq. Where the linker puts the stubs and on which vectors the CPU
pushes an error code are parameters; a handler is any C function that gives back the stack it was
called on. No thread is switched: the handler of the timer does not return to isr_handler. -/
namespace DimOS.Interrupts
open Lib.WordStack
open Process.ContextFrame

def isrErrStub (code : Word) : List Instr := [.pushqImm code]

/- The stubs in the order of isr_stub_table, each up to its jump to isr_common_stub. -/
def isrStubs : List (List Instr) :=
  [isrNoErrStub 0, isrNoErrStub 1, isrNoErrStub 2, isrNoErrStub 3, isrNoErrStub 4, isrNoErrStub 5, isrNoErrStub 6,
    isrNoErrStub 7, isrErrStub 8, isrNoErrStub 9, isrErrStub 10, isrErrStub 11, isrErrStub 12, isrErrStub 13,
    isrErrStub 14, isrNoErrStub 15, isrNoErrStub 16, isrErrStub 17, isrNoErrStub 18, isrNoErrStub 19, isrNoErrStub 20,
    isrNoErrStub 21, isrNoErrStub 22, isrNoErrStub 23, isrNoErrStub 24, isrNoErrStub 25, isrNoErrStub 26,
    isrNoErrStub 27, isrNoErrStub 28, isrNoErrStub 29, isrErrStub 30, isrNoErrStub 31,
    isrNoErrStub 32, isrNoErrStub 33, isrNoErrStub 34, isrNoErrStub 35, isrNoErrStub 36, isrNoErrStub 37,
    isrNoErrStub 38, isrNoErrStub 39, isrNoErrStub 40, isrNoErrStub 41, isrNoErrStub 42, isrNoErrStub 43,
    isrNoErrStub 44, isrNoErrStub 45, isrNoErrStub 46, isrNoErrStub 47]

def errorCodeStubs : List Nat := [8, 10, 11, 12, 13, 14, 17, 30]

abbrev Handler := Word → Cpu → Cpu

/- isr_handler: interrupt_handlers, and what it does about an interrupt that is not handled. -/
def isrHandler (interruptHandlers : Nat → Option Handler) (unhandled : Handler) (frame : Word) (s : Cpu) : Cpu :=
  let isrNum := (ISRFrame.read s.mem frame).isrNumber
  let s :=
    if isrNum.toNat < 256 then
      match interruptHandlers isrNum.toNat with
      | some handler => handler frame s
      | none => unhandled frame s
    else unhandled frame s
  if PIC1Offset ≤ isrNum.toNat ∧ isrNum.toNat < PIC2End then { s with eoi := isrNum :: s.eoi } else s

/- The CPU takes a gate: the frame of the interrupted code, the segment and the address of the gate,
interrupts off, and the error code if the vector has one. -/
def enter (gate : Gate) (errorCode : Option Word) (s : Cpu) : Cpu :=
  let pushed : Cpu :=
    { s.deliver with cs := gate.selector.setWidth 64, rip := gate.offset, rflags := s.rflags &&& ~~~0x200 }
  match errorCode with
  | some code => pushed.push code
  | none => pushed

/- The stub behind the gate of the vector, up to the call of isr_handler. -/
def enterStub (idt : IDT) (program : Word → Option (List Instr)) (vector : Nat) (errorCode : Option Word) (s : Cpu) :
    Option Cpu :=
  let gate := gateOf (idt vector).packed
  if gate.present then (program gate.offset).map fun stub => exec {} (enter gate errorCode s) (stub ++ pusha64) else none

def interrupt (idt : IDT) (program : Word → Option (List Instr)) (interruptHandlers : Nat → Option Handler)
    (unhandled : Handler) (vector : Nat) (errorCode : Option Word) (s : Cpu) : Option Cpu :=
  (enterStub idt program vector errorCode s).map fun entered =>
    exec {} (isrHandler interruptHandlers unhandled entered.rsp entered) interruptReturnPosition

/- A handler comes back with its stack pointer, the 22 words from the frame on as they were, and no
end of interrupt of its own. -/
structure Returns (handler : Handler) : Prop where
  rsp : ∀ frame s, (handler frame s).rsp = s.rsp
  words : ∀ frame s ws, ws.length ≤ 22 → Holds s.mem frame ws → Holds (handler frame s).mem frame ws
  eoi : ∀ frame s, (handler frame s).eoi = s.eoi

theorem stubOf {n : Nat} (inside : n < 48) : isrStubs[n]? =
    some (if n ∈ errorCodeStubs then isrErrStub (BitVec.ofNat 64 n) else isrNoErrStub (BitVec.ofNat 64 n)) := by
  have table : ∀ n : Fin 48, isrStubs[n.val]? = some (if n.val ∈ errorCodeStubs then isrErrStub (BitVec.ofNat 64 n)
      else isrNoErrStub (BitVec.ofNat 64 n)) := by decide
  exact table ⟨n, inside⟩

/- The words below the registers when isr_handler is called: the vector, the word of the error code
(from the CPU, from the stub, from both or from neither), and the frame of the CPU. -/
def stubWords (vector : Nat) (errorCode : Option Word) (s : Cpu) : List Word :=
  BitVec.ofNat 64 vector :: (if vector ∈ errorCodeStubs then [] else [0]) ++ errorCode.toList ++
    [s.rip, s.cs, s.rflags, s.rsp, s.ss]

section
variable {idt : IDT} {program : Word → Option (List Instr)} {address : Nat → Word}

theorem enterStubHolds {n : Nat} (inside : n < 48)
    (linked : ∀ n, n < 48 → program (address n) = isrStubs[n]?) (errorCode : Option Word) (s : Cpu) (above : Word)
    (beyond : load s.mem (s.rsp &&& ~~~15) = above) :
    ∃ entered, enterStub (initIdt address idt) program n errorCode s = some entered ∧ entered.eoi = s.eoi ∧
      Holds entered.mem entered.rsp ((GenRegisters.ofRegs s.regs).words ++ stubWords n errorCode s ++ [above]) := by
  obtain ⟨gate, -⟩ := (initIdtGates address idt n).1 inside
  have found := (linked n inside).trans (stubOf inside)
  have entered : enterStub (initIdt address idt) program n errorCode s =
      some (exec {} (enter ⟨address n, 0x28, 0, 0xE, 0, true⟩ errorCode s)
        ((if n ∈ errorCodeStubs then isrErrStub (BitVec.ofNat 64 n) else isrNoErrStub (BitVec.ofNat 64 n)) ++ pusha64)) := by
    simp only [enterStub, gate, if_true, found, Option.map_some]
  refine ⟨_, entered, ?_, ?_⟩
  · rw [execEoi]
    cases errorCode <;> rfl
  · have pushed := @pushAllHolds { s with rsp := s.rsp &&& ~~~15 } [above] ⟨beyond, trivial⟩
      ((GenRegisters.ofRegs s.regs).words ++ stubWords n errorCode s).reverse
      (by cases errorCode <;> by_cases own : n ∈ errorCodeStubs <;> simp [stubWords, own, GenRegisters.words])
    rw [List.reverse_reverse] at pushed
    by_cases own : n ∈ errorCodeStubs
    · simp only [stubWords, own, if_true] at pushed ⊢
      cases errorCode with
      | none => exact pushed
      | some code => exact pushed
    · simp only [stubWords, own, if_false] at pushed ⊢
      cases errorCode with
      | none => exact pushed
      | some code => exact pushed

end

theorem Holds.front {m : Memory} {a : Word} {ws rest : List Word} (held : Holds m a (ws ++ rest)) : Holds m a ws := by
  induction ws generalizing a with
  | nil => trivial
  | cons w ws ih => exact ⟨held.1, ih held.2⟩

theorem vectorNumber {n : Nat} (inside : n < 48) : (BitVec.ofNat 64 n).toNat = n := by
  rw [BitVec.toNat_ofNat]
  omega

theorem isrHandlerKeeps {interruptHandlers : Nat → Option Handler} {unhandled : Handler}
    (returns : ∀ n handler, interruptHandlers n = some handler → Returns handler) (stalls : Returns unhandled) {n : Nat}
    (inside : n < 48) {s : Cpu} {ws : List Word} (held : Holds s.mem s.rsp ws) (few : ws.length ≤ 22)
    (number : ws[15]? = some (BitVec.ofNat 64 n)) :
    (isrHandler interruptHandlers unhandled s.rsp s).rsp = s.rsp ∧
      Holds (isrHandler interruptHandlers unhandled s.rsp s).mem s.rsp ws ∧
      (isrHandler interruptHandlers unhandled s.rsp s).eoi =
        if PIC1Offset ≤ n ∧ n < PIC2End then BitVec.ofNat 64 n :: s.eoi else s.eoi := by
  have word : load s.mem (s.rsp + BitVec.ofNat 64 (8 * 15)) = BitVec.ofNat 64 n := @holdsAt s.mem s.rsp ws held 15 _ number
  have isrNum : (ISRFrame.read s.mem s.rsp).isrNumber = BitVec.ofNat 64 n := by
    simp only [ISRFrame.read]
    exact word
  have value := vectorNumber inside
  have kept : ∀ handler, Returns handler → (handler s.rsp s).rsp = s.rsp ∧
      Holds (handler s.rsp s).mem s.rsp ws ∧ (handler s.rsp s).eoi = s.eoi :=
    fun handler gives => ⟨gives.rsp _ _, gives.words _ _ _ few held, gives.eoi _ _⟩
  simp only [isrHandler, isrNum, value]
  rw [if_pos (show n < 256 by omega)]
  cases found : interruptHandlers n with
  | none =>
    obtain ⟨rsp, words, eoi⟩ := kept unhandled stalls
    dsimp only
    split
    · exact ⟨rsp, words, congrArg _ eoi⟩
    · exact ⟨rsp, words, eoi⟩
  | some handler =>
    obtain ⟨rsp, words, eoi⟩ := kept handler (returns n handler found)
    dsimp only
    split
    · exact ⟨rsp, words, congrArg _ eoi⟩
    · exact ⟨rsp, words, eoi⟩

/- The interrupted code goes on as if nothing had happened, and the PICs have their end of interrupt. -/
structure Resumed (vector : Nat) (s out : Cpu) : Prop where
  loaded : Loaded ⟨s.rsp, s.rip, .ofRegs s.regs, s.rflags⟩ out
  cs : out.cs = s.cs
  ss : out.ss = s.ss
  eoi : out.eoi = if PIC1Offset ≤ vector ∧ vector < PIC2End then BitVec.ofNat 64 vector :: s.eoi else s.eoi

/- Whatever is interrupted: the handler finds it in its frame, and it is resumed. -/
def Transparent (idt : IDT) (program : Word → Option (List Instr)) (interruptHandlers : Nat → Option Handler)
    (unhandled : Handler) (vector : Nat) (errorCode : Option Word) : Prop :=
  ∀ s, ∃ entered out, enterStub idt program vector errorCode s = some entered ∧
    ISRFrame.read entered.mem entered.rsp = ⟨.ofRegs s.regs, BitVec.ofNat 64 vector, errorCode.getD 0, s.rip, s.cs,
      s.rflags, s.rsp, s.ss⟩ ∧
    interrupt idt program interruptHandlers unhandled vector errorCode s = some out ∧ Resumed vector s out

section
variable {idt : IDT} {program : Word → Option (List Instr)} {address : Nat → Word}
  {interruptHandlers : Nat → Option Handler} {unhandled : Handler}

theorem ofRegsLength (regs : Reg → Word) : (GenRegisters.ofRegs regs).words.length = 15 := rfl

theorem frameWordsShape (regs : Reg → Word) (isrNumber errorCode rip cs rflags rsp ss : Word) :
    (frameWords (.ofRegs regs) isrNumber errorCode rip cs rflags rsp ss).length ≤ 22 ∧
      (frameWords (.ofRegs regs) isrNumber errorCode rip cs rflags rsp ss)[15]? = some isrNumber := by
  constructor
  · simp [frameWords, ofRegsLength]
  · rw [frameWords, List.getElem?_append_right (by rw [ofRegsLength]), ofRegsLength]
    rfl

theorem interruptLoads (linked : ∀ n, n < 48 → program (address n) = isrStubs[n]?)
    (returns : ∀ n handler, interruptHandlers n = some handler → Returns handler) (stalls : Returns unhandled) {n : Nat}
    (inside : n < 48) {errorCode : Option Word} {s : Cpu} {second rip cs rflags rsp ss : Word}
    (shape : [BitVec.ofNat 64 n, second, rip, cs, rflags, rsp, ss] <+:
      stubWords n errorCode s ++ [load s.mem (s.rsp &&& ~~~15)]) :
    ∃ entered out, enterStub (initIdt address idt) program n errorCode s = some entered ∧
      Holds entered.mem entered.rsp
        (frameWords (.ofRegs s.regs) (BitVec.ofNat 64 n) second rip cs rflags rsp ss) ∧
      interrupt (initIdt address idt) program interruptHandlers unhandled n errorCode s = some out ∧
      Loaded ⟨rsp, rip, .ofRegs s.regs, rflags⟩ out ∧ out.cs = cs ∧ out.ss = ss ∧
      out.eoi = if PIC1Offset ≤ n ∧ n < PIC2End then BitVec.ofNat 64 n :: s.eoi else s.eoi := by
  obtain ⟨entered, made, quiet, held⟩ := @enterStubHolds idt program address n inside linked errorCode s _ rfl
  obtain ⟨rest, shape⟩ := shape
  rw [List.append_assoc, ← shape, ← List.append_assoc] at held
  have frame : Holds entered.mem entered.rsp
      (frameWords (.ofRegs s.regs) (BitVec.ofNat 64 n) second rip cs rflags rsp ss) := Holds.front held
  obtain ⟨few, number⟩ := frameWordsShape s.regs (BitVec.ofNat 64 n) second rip cs rflags rsp ss
  obtain ⟨stack, words, eoi⟩ := isrHandlerKeeps returns stalls inside frame few number
  have run : interrupt (initIdt address idt) program interruptHandlers unhandled n errorCode s =
      some (exec {} (isrHandler interruptHandlers unhandled entered.rsp entered) interruptReturnPosition) := by
    rw [interrupt, made, Option.map_some]
  generalize isrHandler interruptHandlers unhandled entered.rsp entered = handled at run stack words eoi
  have kept : Holds handled.mem handled.rsp
      (frameWords (.ofRegs s.regs) (BitVec.ofNat 64 n) second rip cs rflags rsp ss) := by
    rw [stack]
    exact words
  obtain ⟨loaded, segment, stacked⟩ := returnLoads {} kept
  have sent : (exec {} handled interruptReturnPosition).eoi = handled.eoi := execEoi {} handled _
  rw [eoi, quiet] at sent
  exact ⟨entered, _, made, frame, run, loaded, segment, stacked, sent⟩

def stopped (rip cs : Word) : Cpu := ⟨fun _ => 0, 0, rip, 0, cs, 0, fun _ => 0, []⟩

theorem misplaced (linked : ∀ n, n < 48 → program (address n) = isrStubs[n]?)
    (returns : ∀ n handler, interruptHandlers n = some handler → Returns handler) (stalls : Returns unhandled) {n : Nat}
    (inside : n < 48) {errorCode : Option Word} {s : Cpu} {second rip cs rflags rsp ss : Word}
    (shape : [BitVec.ofNat 64 n, second, rip, cs, rflags, rsp, ss] <+:
      stubWords n errorCode s ++ [load s.mem (s.rsp &&& ~~~15)]) (other : rip ≠ s.rip) :
    ¬ Transparent (initIdt address idt) program interruptHandlers unhandled n errorCode := by
  intro transparent
  obtain ⟨-, out, -, -, run, resumed⟩ := transparent s
  obtain ⟨-, landed, -, -, done, loaded, -⟩ := @interruptLoads idt program address interruptHandlers unhandled linked
    returns stalls n inside errorCode s second rip cs rflags rsp ss shape
  have same : landed = out := Option.some.inj (done.symm.trans run)
  subst same
  exact other (loaded.rip.symm.trans resumed.loaded.rip)

/-- On the vectors of init_idt, any handler that returns leaves an interrupt transparent exactly when
the stub of the vector pushes a word in place of the error code that the CPU does not push. -/
theorem interruptTransparentIff (linked : ∀ n, n < 48 → program (address n) = isrStubs[n]?)
    (returns : ∀ n handler, interruptHandlers n = some handler → Returns handler) (stalls : Returns unhandled) {n : Nat}
    (inside : n < 48) (errorCode : Option Word) :
    Transparent (initIdt address idt) program interruptHandlers unhandled n errorCode ↔
      (errorCode.isSome = true ↔ n ∈ errorCodeStubs) := by
  constructor
  · intro transparent
    by_contra differ
    cases errorCode with
    | none =>
      have own : n ∈ errorCodeStubs := by
        by_contra without
        exact differ ⟨fun given => absurd given (by simp), fun own => absurd own without⟩
      -- the frame of the CPU is one word too low: the segment stands in the place of the address
      have shape : [BitVec.ofNat 64 n, 0, 1, 0, 0, 0, 0] <+: stubWords n none (stopped 0 1) ++
          [load (stopped 0 1).mem ((stopped 0 1).rsp &&& ~~~15)] := by
        simp [stubWords, own, stopped, load, byte]
      exact misplaced linked returns stalls inside shape (by simp [stopped]) transparent
    | some code =>
      have without : n ∉ errorCodeStubs := fun own => differ ⟨fun _ => own, fun _ => rfl⟩
      -- and here one too high: the error code stands there
      have shape : [BitVec.ofNat 64 n, 0, code, code + 1, 0, 0, 0] <+: stubWords n (some code) (stopped (code + 1) 0) ++
          [load (stopped (code + 1) 0).mem ((stopped (code + 1) 0).rsp &&& ~~~15)] := by
        simp [stubWords, without, stopped]
      exact misplaced linked returns stalls inside shape (by simp [stopped]) transparent
  · intro agree s
    have shape : [BitVec.ofNat 64 n, errorCode.getD 0, s.rip, s.cs, s.rflags, s.rsp, s.ss] <+:
        stubWords n errorCode s ++ [load s.mem (s.rsp &&& ~~~15)] := by
      refine ⟨[load s.mem (s.rsp &&& ~~~15)], ?_⟩
      cases errorCode with
      | none =>
        have own : n ∉ errorCodeStubs := fun own => absurd (agree.mpr own) (by simp)
        simp [stubWords, own]
      | some code =>
        have own : n ∈ errorCodeStubs := agree.mp rfl
        simp [stubWords, own]
    obtain ⟨entered, out, made, held, done, loaded, cs, ss, eoi⟩ :=
      @interruptLoads idt program address interruptHandlers unhandled linked returns stalls n inside errorCode s
        _ _ _ _ _ _ shape
    exact ⟨entered, out, made, readFrame held, done, loaded, cs, ss, eoi⟩

end

/- The keyboard is on a vector of its own stub, and the page fault on one that the CPU gives an error code. -/
theorem interruptTransparentSample :
    Transparent (initIdt (BitVec.ofNat 64) fun _ => ⟨0, 0, 0, 0, 0, 0, 0⟩) (fun a => isrStubs[a.toNat]?) (fun _ => none)
        (fun _ s => s) 33 none ∧
      Transparent (initIdt (BitVec.ofNat 64) fun _ => ⟨0, 0, 0, 0, 0, 0, 0⟩) (fun a => isrStubs[a.toNat]?) (fun _ => none)
        (fun _ s => s) 14 (some 2) := by
  have linked : ∀ n, n < 48 → isrStubs[(BitVec.ofNat 64 n).toNat]? = isrStubs[n]? :=
    fun n inside => congrArg (isrStubs[·]?) (vectorNumber inside)
  have idle : Returns fun _ s => s := ⟨fun _ _ => rfl, fun _ _ _ _ held => held, fun _ _ => rfl⟩
  have none_ : ∀ n handler, (fun _ => none : Nat → Option Handler) n = some handler → Returns handler :=
    fun _ _ found => absurd found (by simp)
  exact ⟨(@interruptTransparentIff _ (fun a => isrStubs[a.toNat]?) _ _ _ linked none_ idle 33 (by omega) none).mpr
      (by decide),
    (@interruptTransparentIff _ (fun a => isrStubs[a.toNat]?) _ _ _ linked none_ idle 14 (by omega) (some 2)).mpr
      (by decide)⟩

end DimOS.Interrupts
