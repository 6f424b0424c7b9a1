import Mathlib
import DimOS.Lib.WordStack

/-! The descriptor tables. An entry of the IDT is read back here as the CPU reads a gate, from the 16
packed bytes, and its code segment is looked up in the GDT. lgdt, lidt and sti touch no table. -/
namespace DimOS.Interrupts
open Lib.WordStack (Word)

structure GDTEntry where
  limitLow : BitVec 16
  baseLow : BitVec 16
  baseMiddle : BitVec 8
  access : BitVec 8
  granularity : BitVec 8
  baseHigh : BitVec 8
  deriving DecidableEq, Repr

structure IDTEntry where
  isrLow : BitVec 16
  kernelCS : BitVec 16
  ist : BitVec 8
  attributes : BitVec 8
  isrMid : BitVec 16
  isrHigh : BitVec 32
  reserved : BitVec 32
  deriving DecidableEq, Repr

def gdtEntries : List GDTEntry :=
  [⟨0, 0, 0, 0, 0, 0⟩,
    ⟨0xffff, 0, 0, 0x9a, 0x80, 0⟩,
    ⟨0xffff, 0, 0, 0x92, 0x80, 0⟩,
    ⟨0xffff, 0, 0, 0x9a, 0xcf, 0⟩,
    ⟨0xffff, 0, 0, 0x92, 0xcf, 0⟩,
    ⟨0, 0, 0, 0x9a, 0xa2, 0⟩,
    ⟨0, 0, 0, 0x92, 0xa0, 0⟩,
    ⟨0, 0, 0, 0xF2, 0, 0⟩,
    ⟨0, 0, 0, 0xFA, 0x20, 0⟩]

/- A present segment of 64-bit code of the kernel: privilege level 0, executable, L set and D clear. -/
def GDTEntry.kernelCode (e : GDTEntry) : Bool :=
  e.access.getLsbD 7 && !e.access.getLsbD 6 && !e.access.getLsbD 5 && e.access.getLsbD 4 && e.access.getLsbD 3 &&
    e.granularity.getLsbD 5 && !e.granularity.getLsbD 6

def PIC1Offset : Nat := 0x20
def PIC2Offset : Nat := 0x28
def PIC2End : Nat := PIC2Offset + 8

def descriptor (isr : Word) (flags : BitVec 8) : IDTEntry where
  isrLow := (isr &&& 0xFFFF).setWidth 16
  kernelCS := 0x28
  ist := 0
  attributes := flags
  isrMid := ((isr >>> 16) &&& 0xFFFF).setWidth 16
  isrHigh := ((isr >>> 32) &&& 0xFFFFFFFF).setWidth 32
  reserved := 0

abbrev IDT := Nat → IDTEntry

def idtSetDescriptor (idt : IDT) (vector : Nat) (isr : Word) (flags : BitVec 8) : IDT :=
  Function.update idt vector (descriptor isr flags)

/- `for (uint8_t vector = first; vector < first + left; vector++)` -/
def setDescriptors (isrStubTable : Nat → Word) : Nat → Nat → IDT → IDT
  | 0, _, idt => idt
  | left + 1, vector, idt =>
    setDescriptors isrStubTable left (vector + 1) (idtSetDescriptor idt vector (isrStubTable vector) 0x8E)

/- init_idt, on the entries as they are before; the PICs are remapped between the loops. -/
def initIdt (isrStubTable : Nat → Word) (idt : IDT) : IDT :=
  setDescriptors isrStubTable (PIC2End - PIC1Offset) PIC1Offset (setDescriptors isrStubTable 32 0 idt)

def IDTEntry.packed (e : IDTEntry) : BitVec 128 :=
  e.reserved ++ e.isrHigh ++ e.isrMid ++ e.attributes ++ e.ist ++ e.kernelCS ++ e.isrLow

structure Gate where
  offset : Word
  selector : BitVec 16
  ist : BitVec 3
  type : BitVec 4
  dpl : BitVec 2
  present : Bool
  deriving DecidableEq, Repr

def gateOf (bits : BitVec 128) : Gate where
  offset := bits.extractLsb' 64 32 ++ bits.extractLsb' 48 16 ++ bits.extractLsb' 0 16
  selector := bits.extractLsb' 16 16
  ist := bits.extractLsb' 32 3
  type := bits.extractLsb' 40 4
  dpl := bits.extractLsb' 45 2
  present := bits.getLsbD 47

def segment (selector : BitVec 16) : Option GDTEntry := gdtEntries[selector.toNat / 8]?

theorem packedBit (e : IDTEntry) (j : Nat) : e.packed.getLsbD j =
    if j < 16 then e.isrLow.getLsbD j else if j < 32 then e.kernelCS.getLsbD (j - 16)
    else if j < 40 then e.ist.getLsbD (j - 32) else if j < 48 then e.attributes.getLsbD (j - 40)
    else if j < 64 then e.isrMid.getLsbD (j - 48) else if j < 96 then e.isrHigh.getLsbD (j - 64)
    else e.reserved.getLsbD (j - 96) := by
  simp only [IDTEntry.packed, BitVec.getLsbD_append]
  split_ifs <;> first | rfl | omega

theorem lowMask : ∀ j, j < 16 → (0xFFFF#64).getLsbD j = true := by decide

theorem highMask : ∀ j, j < 32 → (0xFFFFFFFF#64).getLsbD j = true := by decide

theorem gateOffset (isr : Word) (flags : BitVec 8) : (gateOf (descriptor isr flags).packed).offset = isr := by
  apply BitVec.eq_of_getLsbD_eq
  intro j inside
  simp only [gateOf, BitVec.getLsbD_append, BitVec.getLsbD_extractLsb', packedBit, descriptor, BitVec.getLsbD_setWidth,
    BitVec.getLsbD_and, BitVec.getLsbD_ushiftRight]
  rcases (by omega : j < 16 ∨ (16 ≤ j ∧ j < 32) ∨ 32 ≤ j) with low | ⟨above, mid⟩ | high
  · have mask := lowMask j low
    simp [low, mask]
  · have mask := lowMask (j - 16) (by omega)
    simp [show ¬ j < 16 by omega, show j - 16 < 16 by omega, show ¬ 48 + (j - 16) < 16 by omega,
      show ¬ 48 + (j - 16) < 32 by omega, show ¬ 48 + (j - 16) < 40 by omega, show ¬ 48 + (j - 16) < 48 by omega,
      show 48 + (j - 16) < 64 by omega, show 16 + (j - 16) = j by omega, mask]
  · have mask := highMask (j - 32) (by omega)
    simp [show ¬ j < 16 by omega, show ¬ j - 16 < 16 by omega, show j - 16 - 16 = j - 32 by omega,
      show j - 32 < 32 by omega, show ¬ 64 + (j - 32) < 16 by omega, show ¬ 64 + (j - 32) < 32 by omega,
      show ¬ 64 + (j - 32) < 40 by omega, show ¬ 64 + (j - 32) < 48 by omega, show ¬ 64 + (j - 32) < 64 by omega,
      show 64 + (j - 32) < 96 by omega, show 32 + (j - 32) = j by omega, mask]

theorem gateOfDescriptor (isr : Word) :
    gateOf (descriptor isr 0x8E).packed = ⟨isr, 0x28, 0, 0xE, 0, true⟩ := by
  have offset := gateOffset isr 0x8E
  have field : ∀ start len (v : BitVec len), (∀ j, j < len → (descriptor isr 0x8E).packed.getLsbD (start + j) =
      v.getLsbD j) → (descriptor isr 0x8E).packed.extractLsb' start len = v := by
    intro start len v same
    apply BitVec.eq_of_getLsbD_eq
    intro j inside
    simp only [BitVec.getLsbD_extractLsb', inside, decide_true, Bool.true_and]
    exact same j inside
  have selector := field 16 16 0x28 (fun j inside => by
    rw [packedBit, if_neg (by omega), if_pos (by omega), Nat.add_sub_cancel_left]
    rfl)
  have ist := field 32 3 0 (fun j inside => by
    rw [packedBit, if_neg (by omega), if_neg (by omega), if_pos (by omega)]
    simp [descriptor])
  have attributes : ∀ j, j < 8 → (descriptor isr 0x8E).packed.getLsbD (40 + j) = (0x8E : BitVec 8).getLsbD j := by
    intro j inside
    rw [packedBit, if_neg (by omega), if_neg (by omega), if_neg (by omega), if_pos (by omega), Nat.add_sub_cancel_left]
    rfl
  have present : (descriptor isr 0x8E).packed.getLsbD 47 = true := attributes 7 (by omega)
  have type := field 40 4 0xE (fun j inside => by
    rw [attributes j (by omega)]
    interval_cases j <;> decide)
  have dpl := field 45 2 0 (fun j inside => by
    rw [show 45 + j = 40 + (5 + j) by omega, attributes (5 + j) (by omega)]
    interval_cases j <;> decide)
  simp only [gateOf, Gate.mk.injEq]
  exact ⟨offset, selector, ist, type, dpl, present⟩

theorem setDescriptorsAt (isrStubTable : Nat → Word) (left first : Nat) (idt : IDT) (n : Nat) :
    setDescriptors isrStubTable left first idt n =
      if first ≤ n ∧ n < first + left then descriptor (isrStubTable n) 0x8E else idt n := by
  induction left generalizing first idt with
  | zero => rw [setDescriptors, if_neg (by omega)]
  | succ left ih =>
    rw [setDescriptors, ih, idtSetDescriptor]
    by_cases here : n = first
    · subst here
      rw [if_neg (by omega), Function.update_self, if_pos (by omega)]
    · rw [Function.update_of_ne here]
      by_cases later : first ≤ n ∧ n < first + (left + 1)
      · rw [if_pos (by omega), if_pos later]
      · rw [if_neg (by omega), if_neg later]

/-- init_idt fills the first 48 vectors, and each of their gates leads the CPU to the stub of its own
vector, with interrupts off, through the GDT's segment of 64-bit kernel code; no other entry changes. -/
theorem initIdtGates (isrStubTable : Nat → Word) (idt : IDT) (n : Nat) :
    (n < 48 → gateOf (initIdt isrStubTable idt n).packed = ⟨isrStubTable n, 0x28, 0, 0xE, 0, true⟩ ∧
      (segment 0x28).map GDTEntry.kernelCode = some true) ∧ (48 ≤ n → initIdt isrStubTable idt n = idt n) := by
  have at_ : initIdt isrStubTable idt n = if n < 48 then descriptor (isrStubTable n) 0x8E else idt n := by
    rw [initIdt, setDescriptorsAt, setDescriptorsAt]
    unfold PIC1Offset PIC2End PIC2Offset
    by_cases low : n < 32
    · rw [if_neg (by omega), if_pos (by omega), if_pos (by omega)]
    · by_cases high : n < 48
      · rw [if_pos (by omega), if_pos high]
      · rw [if_neg (by omega), if_neg (by omega), if_neg high]
  refine ⟨fun inside => ?_, fun outside => ?_⟩
  · rw [at_, if_pos inside]
    exact ⟨gateOfDescriptor (isrStubTable n), by decide⟩
  · rw [at_, if_neg (by omega)]

end DimOS.Interrupts
