import Mathlib
import DimOS.Lib.Transition
import DimOS.Interrupts.DescriptorTables

/-! The driver of the two interrupt controllers and the part of them that it drives: two chips of eight lines,
the second one on line 2 of the first. From the initialization on they are one controller of fifteen lines with
a mask bit each, on the vectors from 32 on. -/
namespace DimOS.Interrupts.Pic
open Lib.Transition (run)

inductive Awaits where
  | icw2
  | icw3
  | icw4
  | ocw1
  deriving DecidableEq, Repr

/- Requested, in service and masked lines, the initialization words, and what the data port awaits. -/
structure Chip where
  irr : BitVec 8
  isr : BitVec 8
  imr : BitVec 8
  base : BitVec 8
  cascade : BitVec 8
  mode : BitVec 8
  single : Bool
  wantsIcw4 : Bool
  awaits : Awaits

def first (lines : BitVec 8) : Option Nat := (List.range 8).find? fun i => lines.getLsbD i

def line (i : Nat) : BitVec 8 := 1#8 <<< i

/- A write to the command port: ICW1, or the end of interrupt that names no line. -/
def Chip.command (p : Chip) (value : BitVec 8) : Chip :=
  if value.getLsbD 4 then
    { p with irr := 0, isr := 0, imr := 0, single := value.getLsbD 1, wantsIcw4 := value.getLsbD 0, awaits := .icw2 }
  else if value &&& 0xF8#8 = 0x20#8 then
    match first p.isr with
    | none => p
    | some i => { p with isr := p.isr &&& ~~~line i }
  else p

def Chip.data (p : Chip) (value : BitVec 8) : Chip :=
  let last : Awaits := if p.wantsIcw4 then .icw4 else .ocw1
  match p.awaits with
  | .icw2 => { p with base := value &&& 0xF8#8, awaits := if p.single then last else .icw3 }
  | .icw3 => { p with cascade := value, awaits := last }
  | .icw4 => { p with mode := value, awaits := .ocw1 }
  | .ocw1 => { p with imr := value }

/- What an unmasked request asks for, unless a line of its priority or a higher one is in service. -/
def Chip.asks (p : Chip) (requests : BitVec 8) : Option Nat :=
  match first (requests &&& ~~~p.imr) with
  | none => none
  | some i =>
    match first p.isr with
    | some j => if j ≤ i then none else some i
    | none => some i

def Chip.serve (p : Chip) (i : Nat) : Chip := { p with irr := p.irr &&& ~~~line i, isr := p.isr ||| line i }

structure Pair where
  master : Chip
  slave : Chip

/- The requests of the first chip: line 2 is the output of the second. -/
def Pair.requests (s : Pair) : BitVec 8 :=
  if (s.slave.asks s.slave.irr).isSome then s.master.irr ||| line 2 else s.master.irr &&& ~~~line 2

def Pair.acknowledge (s : Pair) : Option (Nat × Pair) :=
  match s.master.asks s.requests with
  | none => none
  | some i =>
    if s.master.cascade.getLsbD i then
      (s.slave.asks s.slave.irr).map fun j => (s.slave.base.toNat + j, ⟨s.master.serve i, s.slave.serve j⟩)
    else some (s.master.base.toNat + i, { s with master := s.master.serve i })

def Pair.raise (s : Pair) (n : Nat) : Pair :=
  if n < 8 then { s with master := { s.master with irr := s.master.irr ||| line n } }
  else { s with slave := { s.slave with irr := s.slave.irr ||| line (n - 8) } }

def PIC1_COMMAND : Nat := 0x20
def PIC1_DATA : Nat := 0x21
def PIC2_COMMAND : Nat := 0xA0
def PIC2_DATA : Nat := 0xA1
def ICW4_8086 : BitVec 8 := 0x01

def outb (port : Nat) (value : BitVec 8) (s : Pair) : Pair :=
  if port = PIC1_COMMAND then { s with master := s.master.command value }
  else if port = PIC1_DATA then { s with master := s.master.data value }
  else if port = PIC2_COMMAND then { s with slave := s.slave.command value }
  else if port = PIC2_DATA then { s with slave := s.slave.data value }
  else s

def inb (port : Nat) (s : Pair) : BitVec 8 := if port = PIC1_DATA then s.master.imr else s.slave.imr

def remap (s : Pair) : Pair :=
  let mask1 := inb PIC1_DATA s
  let mask2 := inb PIC2_DATA s
  let s := outb PIC2_COMMAND 0x11 (outb PIC1_COMMAND 0x11 s)
  let s := outb PIC2_DATA (BitVec.ofNat 8 PIC2Offset) (outb PIC1_DATA (BitVec.ofNat 8 PIC1Offset) s)
  let s := outb PIC2_DATA 0x02 (outb PIC1_DATA 0x04 s)
  let s := outb PIC2_DATA 0x01 (outb PIC1_DATA 0x01 s)
  let s := outb PIC2_DATA 0x00 (outb PIC1_DATA 0x00 s)
  let s := outb PIC2_DATA ICW4_8086 (outb PIC1_DATA ICW4_8086 s)
  outb PIC2_DATA mask2 (outb PIC1_DATA mask1 s)

/- The data port of a line and its number there, and `1 << irqLine`, which is an int. -/
def place (irqLine : BitVec 8) : Nat × Nat :=
  if irqLine.toNat < 8 then (PIC1_DATA, irqLine.toNat) else (PIC2_DATA, irqLine.toNat - 8)

def shifted (k : Nat) : Option (BitVec 8) := if k < 32 then some ((1#32 <<< k).setWidth 8) else none

def maskLine (irqLine : BitVec 8) (s : Pair) : Option Pair :=
  let (port, k) := place irqLine
  (shifted k).map fun bit => outb port (inb port s ||| bit) s

def clearMask (irqLine : BitVec 8) (s : Pair) : Option Pair :=
  let (port, k) := place irqLine
  (shifted k).map fun bit => outb port (inb port s &&& ~~~bit) s

def signalEOI (isrNumber : Nat) (s : Pair) : Pair :=
  outb PIC1_COMMAND 0x20 (if isrNumber ≥ 40 then outb PIC2_COMMAND 0x20 s else s)

def endOfHandler (isrNum : Nat) (s : Pair) : Pair :=
  if PIC1Offset ≤ isrNum ∧ isrNum < PIC2End then signalEOI isrNum s else s

structure Machine where
  pics : Pair
  running : Option Nat

inductive Event where
  | raised (n : Nat)
  | mask (irqLine : BitVec 8)
  | unmask (irqLine : BitVec 8)
  | interrupt
  | finish

def step (m : Machine) : Event → Option Machine
  | .raised n => if n < 16 ∧ n ≠ 2 then some { m with pics := m.pics.raise n } else none
  | .mask irqLine => (maskLine irqLine m.pics).map fun pics => { m with pics }
  | .unmask irqLine => (clearMask irqLine m.pics).map fun pics => { m with pics }
  | .interrupt =>
    match m.running with
    | some _ => none
    | none => m.pics.acknowledge.map fun (vector, pics) => ⟨pics, some vector⟩
  | .finish =>
    match m.running with
    | some vector => some ⟨endOfHandler vector m.pics, none⟩
    | none => none

structure Controller where
  pending : Nat → Bool
  masked : Nat → Bool
  serving : Option Nat

namespace Controller

/- The lines in the order of their priority. The masked line 2 holds back those of the second chip. -/
def order : List Nat := [0, 1] ++ [8, 9, 10, 11, 12, 13, 14, 15] ++ [3, 4, 5, 6, 7]

def ready (c : Controller) (n : Nat) : Bool := c.pending n && !c.masked n && (n < 8 || !c.masked 2)

def step (c : Controller) : Event → Option Controller
  | .raised n => if n < 16 ∧ n ≠ 2 then some { c with pending := Function.update c.pending n true } else none
  | .mask irqLine => setMask irqLine.toNat true
  | .unmask irqLine => setMask irqLine.toNat false
  | .interrupt =>
    match c.serving with
    | some _ => none
    | none => (order.find? c.ready).map fun n =>
      { c with
        pending := Function.update c.pending n false
        serving := some n }
  | .finish => if c.serving.isSome then some { c with serving := none } else none
where
  /- A line from 40 on is shifted by more than an int has; of the lines from 16 on no bit is left. -/
  setMask (n : Nat) (value : Bool) : Option Controller :=
    if n < 16 then some { c with masked := Function.update c.masked n value }
    else if n < 40 then some c else none

end Controller

theorem lineBit {i : Nat} (inside : i < 8) (j : Nat) : (line i).getLsbD j = decide (i = j) := by
  rw [line, ← BitVec.twoPow, BitVec.getLsbD_twoPow, decide_eq_true inside, Bool.true_and]

theorem orLine {i : Nat} (inside : i < 8) (b : BitVec 8) (j : Nat) :
    (b ||| line i).getLsbD j = if j = i then true else b.getLsbD j := by
  rw [BitVec.getLsbD_or, lineBit inside]
  by_cases same : j = i
  · simp [same]
  · simp [same, Ne.symm same]

theorem withoutLine {i : Nat} (inside : i < 8) (b : BitVec 8) (j : Nat) :
    (b &&& ~~~line i).getLsbD j = if j = i then false else b.getLsbD j := by
  rw [BitVec.getLsbD_and, BitVec.getLsbD_not, lineBit inside]
  by_cases same : j = i
  · simp [same]
  · by_cases low : j < 8
    · simp [same, Ne.symm same, low]
    · rw [BitVec.getLsbD_of_ge _ _ (by omega)]
      simp [same]

theorem firstZero : first 0#8 = none := by decide

theorem firstLine {i : Nat} (inside : i < 8) : first (line i) = some i := by
  apply List.find?_range_eq_some.mpr
  refine ⟨?_, List.mem_range.mpr inside, fun j below => ?_⟩
  · rw [lineBit inside]
    simp
  · rw [lineBit inside]
    simp only [Bool.not_eq_eq_eq_not, Bool.not_true, decide_eq_false_iff_not]
    omega

theorem clearServed (i : Nat) : line i &&& ~~~line i = 0#8 := by
  exact BitVec.and_not_self _

theorem asksIdle {p : Chip} (idle : p.isr = 0#8) (requests : BitVec 8) :
    p.asks requests = first (requests &&& ~~~p.imr) := by
  rw [Chip.asks, idle, firstZero]
  cases first (requests &&& ~~~p.imr) <;> rfl

theorem commandEnds {p : Chip} {i : Nat} (inside : i < 8) (serving : p.isr = line i) :
    p.command 0x20#8 = { p with isr := 0#8 } := by
  have plain : (0x20#8).getLsbD 4 = false := by decide
  have ends : 0x20#8 &&& 0xF8#8 = 0x20#8 := by decide
  rw [Chip.command, plain, if_neg (by simp), if_pos ends, serving, firstLine inside]
  dsimp only
  rw [clearServed]

structure Remapped (s : Pair) : Prop where
  masterReady : s.master.awaits = .ocw1
  slaveReady : s.slave.awaits = .ocw1
  masterBase : s.master.base = 0x20#8
  slaveBase : s.slave.base = 0x28#8
  cascade : s.master.cascade = line 2

theorem remapSpec (s : Pair) : Remapped (remap s) ∧ (remap s).master.imr = s.master.imr ∧
    (remap s).slave.imr = s.slave.imr ∧ (remap s).master.irr = 0#8 ∧ (remap s).slave.irr = 0#8 ∧
      (remap s).master.isr = 0#8 ∧ (remap s).slave.isr = 0#8 := by
  have shape : remap s =
      ⟨⟨0#8, 0#8, s.master.imr, 0x20#8, 0x04#8, 0x01#8, false, true, .ocw1⟩,
        ⟨0#8, 0#8, s.slave.imr, 0x28#8, 0x02#8, 0x01#8, false, true, .ocw1⟩⟩ := by
    rfl
  rw [shape]
  exact ⟨⟨rfl, rfl, rfl, rfl, rfl⟩, rfl, rfl, rfl, rfl, rfl, rfl⟩

def Machine.controller (m : Machine) : Controller where
  pending n := if n < 8 then m.pics.master.irr.getLsbD n else m.pics.slave.irr.getLsbD (n - 8)
  masked n := if n < 8 then m.pics.master.imr.getLsbD n else m.pics.slave.imr.getLsbD (n - 8)
  serving := m.running.map (· - PIC1Offset)

/- The line whose handler runs is in service, one of the second chip on line 2 of the first as well. -/
structure Serves (s : Pair) (n : Nat) : Prop where
  inside : n < 16 ∧ n ≠ 2
  master : s.master.isr = line (if n < 8 then n else 2)
  slave : s.slave.isr = if n < 8 then 0#8 else line (n - 8)

structure Driven (m : Machine) : Prop where
  remapped : Remapped m.pics
  alone : m.pics.master.irr.getLsbD 2 = false
  idle : m.running = none → m.pics.master.isr = 0#8 ∧ m.pics.slave.isr = 0#8
  serves : ∀ v, m.running = some v → ∃ n, v = PIC1Offset + n ∧ Serves m.pics n

variable {m : Machine}

theorem raisedDriven (h : Driven m) {n : Nat} (inside : n < 16 ∧ n ≠ 2) :
    Driven { m with pics := m.pics.raise n } ∧
      Machine.controller { m with pics := m.pics.raise n } =
        { m.controller with pending := Function.update m.controller.pending n true } := by
  unfold Pair.raise
  by_cases low : n < 8
  · rw [if_pos low]
    refine ⟨⟨⟨h.remapped.1, h.remapped.2, h.remapped.3, h.remapped.4, h.remapped.5⟩, ?_, h.idle,
      fun v runs => ?_⟩, ?_⟩
    · rw [orLine low, if_neg (Ne.symm inside.2)]
      exact h.alone
    · obtain ⟨k, vector, serves⟩ := h.serves v runs
      exact ⟨k, vector, serves.1, serves.2, serves.3⟩
    · simp only [Machine.controller, Controller.mk.injEq, and_true]
      funext k
      rw [Function.update_apply]
      rw [orLine low]
      by_cases same : k = n
      · rw [if_pos same, if_pos (by omega), if_pos same]
      · rw [if_neg same, if_neg same]
  · rw [if_neg low]
    refine ⟨⟨⟨h.remapped.1, h.remapped.2, h.remapped.3, h.remapped.4, h.remapped.5⟩, h.alone, h.idle,
      fun v runs => ?_⟩, ?_⟩
    · obtain ⟨k, vector, serves⟩ := h.serves v runs
      exact ⟨k, vector, serves.1, serves.2, serves.3⟩
    · simp only [Machine.controller, Controller.mk.injEq, and_true]
      funext k
      rw [Function.update_apply]
      rw [orLine (by omega)]
      by_cases same : k = n
      · rw [if_neg (by omega), if_pos (by omega), if_pos same]
      · by_cases below : k < 8
        · rw [if_pos below, if_neg same, if_pos below]
        · rw [if_neg below, if_neg (by omega), if_neg same, if_neg below]

theorem shiftedLine {k : Nat} (inside : k < 8) : shifted k = some (line k) := by
  rw [shifted, if_pos (by omega)]
  congr 1
  apply BitVec.eq_of_getLsbD_eq
  intro j low
  rw [BitVec.getLsbD_setWidth, lineBit inside, ← BitVec.twoPow, BitVec.getLsbD_twoPow]
  simp [low, show k < 32 by omega]

theorem shiftedOut {k : Nat} (outside : 8 ≤ k) (int : k < 32) : shifted k = some 0#8 := by
  rw [shifted, if_pos int]
  congr 1
  apply BitVec.eq_of_getLsbD_eq
  intro j low
  rw [BitVec.getLsbD_setWidth, ← BitVec.twoPow, BitVec.getLsbD_twoPow, BitVec.getLsbD_zero]
  simp [show k ≠ j by omega]

theorem imrDriven (h : Driven m) (masks : BitVec 8) :
    Driven { m with pics := outb PIC1_DATA masks m.pics } ∧ Driven { m with pics := outb PIC2_DATA masks m.pics } ∧
      outb PIC1_DATA masks m.pics = { m.pics with master := { m.pics.master with imr := masks } } ∧
      outb PIC2_DATA masks m.pics = { m.pics with slave := { m.pics.slave with imr := masks } } := by
  have one : outb PIC1_DATA masks m.pics = { m.pics with master := { m.pics.master with imr := masks } } := by
    simp [outb, PIC1_DATA, PIC1_COMMAND, Chip.data, h.remapped.masterReady]
  have two : outb PIC2_DATA masks m.pics = { m.pics with slave := { m.pics.slave with imr := masks } } := by
    simp [outb, PIC1_DATA, PIC1_COMMAND, PIC2_DATA, PIC2_COMMAND, Chip.data, h.remapped.slaveReady]
  rw [one, two]
  have serves := h.serves
  have ready : Remapped { m.pics with master := { m.pics.master with imr := masks } } ∧
      Remapped { m.pics with slave := { m.pics.slave with imr := masks } } :=
    ⟨⟨h.remapped.1, h.remapped.2, h.remapped.3, h.remapped.4, h.remapped.5⟩,
      ⟨h.remapped.1, h.remapped.2, h.remapped.3, h.remapped.4, h.remapped.5⟩⟩
  refine ⟨⟨ready.1, h.alone, h.idle, fun v runs => ?_⟩, ⟨ready.2, h.alone, h.idle, fun v runs => ?_⟩, rfl, rfl⟩
  all_goals
    obtain ⟨k, vector, mine⟩ := serves v runs
    exact ⟨k, vector, mine.1, mine.2, mine.3⟩

theorem masksDriven (h : Driven m) (value : Bool) (change : BitVec 8 → BitVec 8 → BitVec 8)
    (changes : ∀ (b : BitVec 8) (i j : Nat), i < 8 →
      (change b (line i)).getLsbD j = if j = i then value else b.getLsbD j)
    (nothing : ∀ b : BitVec 8, change b 0#8 = b) (irqLine : BitVec 8) :
    let next := ((shifted (place irqLine).2).map fun bit =>
      outb (place irqLine).1 (change (inb (place irqLine).1 m.pics) bit) m.pics).map fun pics => { m with pics }
    next.map Machine.controller = Controller.step.setMask m.controller irqLine.toNat value ∧
      ∀ m', next = some m' → Driven m' := by
  intro next
  generalize number : irqLine.toNat = n
  by_cases low : n < 8
  · have at' : place irqLine = (PIC1_DATA, n) := by rw [place, number, if_pos low]
    obtain ⟨kept, -, shape, -⟩ := imrDriven h (change m.pics.master.imr (line n))
    have made : next = some { m with pics := outb PIC1_DATA (change m.pics.master.imr (line n)) m.pics } := by
      simp only [next, at', shiftedLine low, Option.map_some, inb, if_true]
    rw [made]
    refine ⟨?_, fun m' same => by cases same; exact kept⟩
    rw [Option.map_some, Controller.step.setMask, if_pos (by omega), shape]
    simp only [Machine.controller, Option.some.injEq, Controller.mk.injEq, and_true, true_and]
    funext k
    rw [Function.update_apply, changes _ _ _ low]
    by_cases same : k = n
    · rw [if_pos (by omega), if_pos same, if_pos same]
    · rw [if_neg same, if_neg same]
  · have at' : place irqLine = (PIC2_DATA, n - 8) := by rw [place, number, if_neg low]
    have port : PIC2_DATA ≠ PIC1_DATA := by decide
    by_cases inside : n < 16
    · obtain ⟨-, kept, -, shape⟩ := imrDriven h (change m.pics.slave.imr (line (n - 8)))
      have made : next = some { m with pics := outb PIC2_DATA (change m.pics.slave.imr (line (n - 8))) m.pics } := by
        simp only [next, at', shiftedLine (show n - 8 < 8 by omega), Option.map_some, inb, if_neg port]
      rw [made]
      refine ⟨?_, fun m' same => by cases same; exact kept⟩
      rw [Option.map_some, Controller.step.setMask, if_pos inside, shape]
      simp only [Machine.controller, Option.some.injEq, Controller.mk.injEq, and_true, true_and]
      funext k
      rw [Function.update_apply, changes _ _ _ (by omega)]
      by_cases same : k = n
      · rw [if_neg (by omega), if_pos (by omega), if_pos same]
      · by_cases below : k < 8
        · rw [if_pos below, if_neg same, if_pos below]
        · rw [if_neg below, if_neg (by omega), if_neg same, if_neg below]
    · by_cases int : n < 40
      · obtain ⟨-, kept, -, shape⟩ := imrDriven h m.pics.slave.imr
        have made : next = some { m with pics := outb PIC2_DATA m.pics.slave.imr m.pics } := by
          simp only [next, at', shiftedOut (show 8 ≤ n - 8 by omega) (by omega), Option.map_some, inb, if_neg port,
            nothing]
        rw [made]
        refine ⟨?_, fun m' same => by cases same; exact kept⟩
        rw [Option.map_some, Controller.step.setMask, if_neg inside, if_pos int, shape]
      · have absent : next = none := by
          simp only [next, at', shifted, if_neg (show ¬ n - 8 < 32 by omega), Option.map_none]
        rw [absent, Controller.step.setMask, if_neg inside, if_neg int]
        exact ⟨rfl, fun m' same => by cases same⟩


def Pair.served (s : Pair) (n : Nat) : Pair :=
  if n < 8 then { s with master := s.master.serve n } else ⟨s.master.serve 2, s.slave.serve (n - 8)⟩

theorem orderSpec {n : Nat} (listed : n ∈ Controller.order) : n < 16 ∧ n ≠ 2 := by
  revert n
  decide

theorem requestsElse (s : Pair) {i : Nat} (other : i ≠ 2) : s.requests.getLsbD i = s.master.irr.getLsbD i := by
  rw [Pair.requests]
  split
  · rw [orLine (by omega), if_neg other]
  · rw [withoutLine (by omega), if_neg other]

theorem requestsCascade (s : Pair) : s.requests.getLsbD 2 = (s.slave.asks s.slave.irr).isSome := by
  rw [Pair.requests]
  split
  case isTrue asked => rw [orLine (by omega), if_pos rfl, asked]
  case isFalse quiet => rw [withoutLine (by omega), if_pos rfl, Bool.eq_false_iff.mpr quiet]

theorem unmaskedBit (b masks : BitVec 8) {i : Nat} (inside : i < 8) :
    (b &&& ~~~masks).getLsbD i = (b.getLsbD i && !masks.getLsbD i) := by
  rw [BitVec.getLsbD_and, BitVec.getLsbD_not, decide_eq_true inside, Bool.true_and]

theorem slaveReady (h : Driven m) (idle : m.running = none) :
    ([8, 9, 10, 11, 12, 13, 14, 15] : List Nat).find? m.controller.ready =
      if m.pics.master.imr.getLsbD 2 then none else (m.pics.slave.asks m.pics.slave.irr).map (8 + ·) := by
  have listed : ([8, 9, 10, 11, 12, 13, 14, 15] : List Nat) = (List.range 8).map (8 + ·) := by decide
  rw [listed, List.find?_map, asksIdle (h.idle idle).2, first]
  have readyAt : ∀ i ∈ List.range 8, (m.controller.ready ∘ (8 + ·)) i =
      ((m.pics.slave.irr &&& ~~~m.pics.slave.imr).getLsbD i && !m.pics.master.imr.getLsbD 2) := by
    intro i inside
    rw [unmaskedBit _ _ (List.mem_range.mp inside)]
    simp [Controller.ready, Machine.controller]
  cases held : m.pics.master.imr.getLsbD 2 with
  | true =>
    rw [if_pos rfl]
    have absent : (List.range 8).find? (m.controller.ready ∘ (8 + ·)) = none := by
      apply List.find?_eq_none.mpr
      intro i inside
      rw [readyAt i inside, held]
      simp
    rw [absent, Option.map_none]
  | false =>
    rw [if_neg (by simp)]
    congr 1
    apply List.find?_congr
    intro i inside
    rw [readyAt i inside, held]
    simp

theorem acknowledged (h : Driven m) (idle : m.running = none) :
    m.pics.acknowledge =
      (Controller.order.find? m.controller.ready).map fun n => (PIC1Offset + n, m.pics.served n) := by
  have places : List.range 8 = [0, 1] ++ ([2] ++ [3, 4, 5, 6, 7]) := by decide
  have own : ∀ i, i < 8 → i ≠ 2 →
      (m.pics.requests &&& ~~~m.pics.master.imr).getLsbD i = m.controller.ready i := by
    intro i inside other
    rw [unmaskedBit _ _ inside, requestsElse _ other]
    simp [Controller.ready, Machine.controller, inside]
  have high : ([0, 1] : List Nat).find? (fun i => (m.pics.requests &&& ~~~m.pics.master.imr).getLsbD i) =
      [0, 1].find? m.controller.ready := by
    apply List.find?_congr
    intro i listed
    exact own i (by simp at listed; omega) (by simp at listed; omega)
  have low : ([3, 4, 5, 6, 7] : List Nat).find? (fun i => (m.pics.requests &&& ~~~m.pics.master.imr).getLsbD i) =
      [3, 4, 5, 6, 7].find? m.controller.ready := by
    apply List.find?_congr
    intro i listed
    exact own i (by simp at listed; omega) (by simp at listed; omega)
  have through : (m.pics.requests &&& ~~~m.pics.master.imr).getLsbD 2 =
      ((m.pics.slave.asks m.pics.slave.irr).isSome && !m.pics.master.imr.getLsbD 2) := by
    rw [unmaskedBit _ _ (by omega), requestsCascade]
  -- A line of the first chip, the second chip off it, is answered by the first chip alone.
  have alone : ∀ i, i < 8 → i ≠ 2 → m.pics.master.asks m.pics.requests = some i →
      m.pics.acknowledge = some (PIC1Offset + i, m.pics.served i) := by
    intro i inside other asked
    rw [Pair.acknowledge, asked]
    dsimp only
    rw [h.remapped.cascade, lineBit (by omega), decide_eq_false (Ne.symm other), if_neg (by simp),
      h.remapped.masterBase, Pair.served, if_pos inside]
    rfl
  have rest : m.pics.master.asks m.pics.requests = [3, 4, 5, 6, 7].find? m.controller.ready →
      m.pics.acknowledge =
        ([3, 4, 5, 6, 7].find? m.controller.ready).map fun n => (PIC1Offset + n, m.pics.served n) := by
    intro asked
    cases lowest : ([3, 4, 5, 6, 7] : List Nat).find? m.controller.ready with
    | none => rw [Pair.acknowledge, asked, lowest, Option.map_none]
    | some i =>
      have listed := List.mem_of_find?_eq_some lowest
      rw [alone i (by simp at listed; omega) (by simp at listed; omega) (asked.trans lowest), Option.map_some]
  have asks := asksIdle (h.idle idle).1 m.pics.requests
  rw [first, places, List.find?_append, List.find?_append, high, low] at asks
  rw [Controller.order, List.append_assoc, List.find?_append, List.find?_append, slaveReady h idle]
  cases highest : ([0, 1] : List Nat).find? m.controller.ready with
  | some i =>
    rw [highest, Option.some_or] at asks
    have listed := List.mem_of_find?_eq_some highest
    rw [alone i (by simp at listed; omega) (by simp at listed; omega) asks]
    rfl
  | none =>
    rw [highest, Option.none_or, List.find?_singleton, through] at asks
    rw [Option.none_or]
    cases held : m.pics.master.imr.getLsbD 2 with
    | false =>
      cases second : m.pics.slave.asks m.pics.slave.irr with
      | some j =>
        rw [second, held] at asks
        simp only [Option.isSome_some, Bool.not_false, Bool.and_self, if_true, Option.some_or] at asks
        have inside : j < 8 := by
          rw [asksIdle (h.idle idle).2] at second
          exact List.mem_range.mp (List.mem_of_find?_eq_some second)
        rw [Pair.acknowledge, asks]
        dsimp only
        rw [h.remapped.cascade, lineBit (by omega), decide_eq_true rfl, if_pos rfl, second, h.remapped.slaveBase]
        simp only [Option.map_some, Option.some_or, Bool.false_eq_true, if_false, Pair.served,
          if_neg (show ¬ 8 + j < 8 by omega), Nat.add_sub_cancel_left]
        congr 2
        simp [PIC1Offset]
        omega
      | none =>
        rw [second, Option.isSome_none, Bool.false_and, if_neg Bool.false_ne_true, Option.none_or] at asks
        rw [if_neg Bool.false_ne_true, Option.map_none, Option.none_or]
        exact rest asks
    | true =>
      rw [held, Bool.not_true, Bool.and_false, if_neg Bool.false_ne_true, Option.none_or] at asks
      rw [if_pos rfl, Option.none_or]
      exact rest asks

theorem servedDriven (h : Driven m) (idle : m.running = none) {n : Nat} (inside : n < 16 ∧ n ≠ 2) :
    Driven ⟨m.pics.served n, some (PIC1Offset + n)⟩ ∧
      Machine.controller ⟨m.pics.served n, some (PIC1Offset + n)⟩ =
        { m.controller with
          pending := Function.update m.controller.pending n false
          serving := some n } := by
  obtain ⟨masterIdle, slaveIdle⟩ := h.idle idle
  unfold Pair.served
  by_cases low : n < 8
  · rw [if_pos low]
    refine ⟨⟨⟨h.remapped.1, h.remapped.2, h.remapped.3, h.remapped.4, h.remapped.5⟩, ?_, nofun,
      fun v runs => ?_⟩, ?_⟩
    · rw [Chip.serve, withoutLine low, if_neg (Ne.symm inside.2)]
      exact h.alone
    · cases runs
      refine ⟨n, rfl, inside, ?_, ?_⟩
      · rw [if_pos low, Chip.serve, masterIdle, BitVec.zero_or]
      · rw [if_pos low]
        exact slaveIdle
    · simp only [Machine.controller, Controller.mk.injEq, Option.map_some, Nat.add_sub_cancel_left, and_true,
        Chip.serve]
      funext k
      rw [Function.update_apply, withoutLine low]
      by_cases same : k = n
      · rw [if_pos same, if_pos (by omega), if_pos same]
      · rw [if_neg same, if_neg same]
  · rw [if_neg low]
    refine ⟨⟨⟨h.remapped.1, h.remapped.2, h.remapped.3, h.remapped.4, h.remapped.5⟩, ?_, nofun,
      fun v runs => ?_⟩, ?_⟩
    · rw [Chip.serve, withoutLine (by omega), if_pos rfl]
    · cases runs
      refine ⟨n, rfl, inside, ?_, ?_⟩
      · rw [if_neg low, Chip.serve, masterIdle, BitVec.zero_or]
      · change m.pics.slave.isr ||| line (n - 8) = _
        rw [if_neg low, slaveIdle, BitVec.zero_or]
    · simp only [Machine.controller, Controller.mk.injEq, Option.map_some, Nat.add_sub_cancel_left, and_true,
        Chip.serve]
      funext k
      rw [Function.update_apply]
      by_cases below : k < 8
      · rw [if_pos below, if_neg (by omega), if_pos below, withoutLine (by omega)]
        by_cases two : k = 2
        · rw [if_pos two, two, h.alone]
        · rw [if_neg two]
      · rw [if_neg below, withoutLine (by omega), if_neg below]
        by_cases same : k = n
        · rw [if_pos (by omega), if_pos same]
        · rw [if_neg (by omega), if_neg same]

theorem signalSpec {s : Pair} {n : Nat} (serves : Serves s n) :
    endOfHandler (PIC1Offset + n) s =
      ⟨{ s.master with isr := 0#8 }, { s.slave with isr := 0#8 }⟩ := by
  obtain ⟨⟨inside, other⟩, master, slave⟩ := serves
  have range : PIC1Offset ≤ PIC1Offset + n ∧ PIC1Offset + n < PIC2End := by
    simp only [PIC1Offset, PIC2End, PIC2Offset]
    omega
  have one (t : Pair) : outb PIC1_COMMAND 0x20 t = { t with master := t.master.command 0x20#8 } := by
    simp [outb]
  have two (t : Pair) : outb PIC2_COMMAND 0x20 t = { t with slave := t.slave.command 0x20#8 } := by
    simp [outb, PIC1_COMMAND, PIC1_DATA, PIC2_COMMAND]
  rw [endOfHandler, if_pos range, signalEOI, one]
  by_cases low : n < 8
  · have alone : ¬ PIC1Offset + n ≥ 40 := by simp only [PIC1Offset]; omega
    rw [if_pos low] at master slave
    rw [if_neg alone, commandEnds low master, ← slave]
  · have both : PIC1Offset + n ≥ 40 := by simp only [PIC1Offset]; omega
    rw [if_neg low] at master slave
    rw [if_pos both, two, commandEnds (show 2 < 8 by omega) master, commandEnds (by omega) slave]

theorem stepDriven (h : Driven m) (e : Event) :
    (step m e).map Machine.controller = Controller.step m.controller e ∧ ∀ m', step m e = some m' → Driven m' := by
  cases e with
  | raised n =>
    rw [step, Controller.step]
    by_cases inside : n < 16 ∧ n ≠ 2
    · obtain ⟨kept, same⟩ := raisedDriven h inside
      rw [if_pos inside, if_pos inside, Option.map_some, same]
      exact ⟨rfl, fun m' here => by cases here; exact kept⟩
    · rw [if_neg inside, if_neg inside]
      exact ⟨rfl, fun m' here => by cases here⟩
  | mask irqLine =>
    have changes (b : BitVec 8) (i j : Nat) (low : i < 8) := orLine low b j
    exact masksDriven h true (fun b bit => b ||| bit) changes (fun b => BitVec.or_zero) irqLine
  | unmask irqLine =>
    have changes (b : BitVec 8) (i j : Nat) (low : i < 8) := withoutLine low b j
    have nothing (b : BitVec 8) : b &&& ~~~0#8 = b := by rw [BitVec.not_zero, BitVec.and_allOnes]
    exact masksDriven h false (fun b bit => b &&& ~~~bit) changes nothing irqLine
  | interrupt =>
    rw [step, Controller.step]
    cases idle : m.running with
    | some v =>
      rw [show m.controller.serving = some (v - PIC1Offset) by rw [Machine.controller, idle, Option.map_some]]
      exact ⟨rfl, fun m' here => by cases here⟩
    | none =>
      rw [show m.controller.serving = none by rw [Machine.controller, idle, Option.map_none]]
      dsimp only
      rw [acknowledged h idle]
      cases found : Controller.order.find? m.controller.ready with
      | none => exact ⟨rfl, fun m' here => by cases here⟩
      | some n =>
        obtain ⟨kept, same⟩ := servedDriven h idle (orderSpec (List.mem_of_find?_eq_some found))
        simp only [Option.map_some]
        rw [same]
        exact ⟨rfl, fun m' here => by cases here; exact kept⟩
  | finish =>
    rw [step, Controller.step]
    cases runs : m.running with
    | none =>
      rw [show m.controller.serving = none by rw [Machine.controller, runs, Option.map_none]]
      exact ⟨rfl, fun m' here => by cases here⟩
    | some v =>
      obtain ⟨n, rfl, serves⟩ := h.serves v runs
      rw [show m.controller.serving = some n by
        rw [Machine.controller, runs, Option.map_some, Nat.add_sub_cancel_left]]
      dsimp only
      rw [signalSpec serves]
      refine ⟨rfl, fun m' here => ?_⟩
      cases here
      exact ⟨⟨h.remapped.1, h.remapped.2, h.remapped.3, h.remapped.4, h.remapped.5⟩, h.alone, fun _ => ⟨rfl, rfl⟩,
        nofun⟩

theorem remapDriven (s : Pair) : Driven ⟨remap s, none⟩ := by
  obtain ⟨remapped, -, -, noRequest, -, masterIdle, slaveIdle⟩ := remapSpec s
  refine ⟨remapped, ?_, fun _ => ⟨masterIdle, slaveIdle⟩, fun v runs => by cases runs⟩
  change (remap s).master.irr.getLsbD 2 = false
  rw [noRequest]
  rfl

/-- From the initialization on, whatever the two chips were before it and in whatever order devices raise their
lines, drivers mask and unmask them, the CPU takes interrupts and handlers end, the chips under the kernel's
writes are one controller: the masks found at the start, one line in service at most, the next one always the
first in the order of priority among those ready, on the vector 32 above its number, and no line left in service
when no handler runs. -/
theorem oneController (s : Pair) (events : List Event) :
    (run step ⟨remap s, none⟩ events).map Machine.controller =
        run Controller.step
          ⟨fun _ => false, fun n => if n < 8 then s.master.imr.getLsbD n else s.slave.imr.getLsbD (n - 8), none⟩ events ∧
      ∀ m, run step ⟨remap s, none⟩ events = some m →
        (∀ v, m.running = some v → ∃ n ∈ Controller.order, v = PIC1Offset + n) ∧
          (m.running = none → m.pics.master.isr = 0#8 ∧ m.pics.slave.isr = 0#8) := by
  have start := remapDriven s
  obtain ⟨-, masks1, masks2, irr1, irr2, -, -⟩ := remapSpec s
  have first : Machine.controller ⟨remap s, none⟩ =
      ⟨fun _ => false, fun n => if n < 8 then s.master.imr.getLsbD n else s.slave.imr.getLsbD (n - 8), none⟩ := by
    simp [Machine.controller, masks1, masks2, irr1, irr2]
  constructor
  · rw [← first]
    exact Lib.Transition.runSimulates Machine.controller Driven (fun m e h => stepDriven h e) events start
  · intro m reached
    have driven : Driven m :=
      Lib.Transition.invariantRunAll Driven (fun m e m' h taken => (stepDriven h e).2 m' taken) start reached
    refine ⟨fun v runs => ?_, driven.idle⟩
    obtain ⟨n, vector, serves⟩ := driven.serves v runs
    refine ⟨n, ?_, vector⟩
    obtain ⟨inside, other⟩ := serves.inside
    simp only [Controller.order]
    simp
    omega

end DimOS.Interrupts.Pic
