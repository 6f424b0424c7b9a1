import Mathlib

/-! paging.h. An Entry is its 64-bit word; a Table* is the physical
address the table was made for, and a null pointer is none. The level of a table is not a
field: it is read from bits 9 and 10 of the entry at index 0. -/
namespace DimOS.Memory.Paging

inductive FlagOffset where
  | PRESENT_FLAG
  | WRITABLE
  | TABLE_LEVEL
  | TABLE_LEVEL_2
  deriving DecidableEq, Repr

def FlagOffset.toNat : FlagOffset → Nat
  | PRESENT_FLAG => 0
  | WRITABLE => 1
  | TABLE_LEVEL => 9
  | TABLE_LEVEL_2 => 10

def FlagOffset.flag (f : FlagOffset) : BitVec 64 := 1#64 <<< f.toNat

abbrev Entry := BitVec 64

def physicalAddrMask : BitVec 64 := 0x000ffffffffff000#64
def entryCnt : Nat := 512
def defaultEntry : Entry := 0#64

namespace Entry

def setFlags (e : Entry) (flags : BitVec 64) : Entry := e ||| flags
def removeFlags (e : Entry) (flags : BitVec 64) : Entry := e &&& ~~~flags
def testFlag (e : Entry) (f : FlagOffset) : Bool := (e >>> f.toNat) &&& 1#64 != 0#64

def getPhysicalAddr (e : Entry) : Nat := (e &&& physicalAddrMask).toNat
def setPhysicalAdr (e : Entry) (addr : Nat) : Entry :=
  removeFlags e physicalAddrMask ||| (BitVec.ofNat 64 addr &&& physicalAddrMask)

def isPresent (e : Entry) : Bool := testFlag e .PRESENT_FLAG
def isWriteable (e : Entry) : Bool := testFlag e .WRITABLE

/- `(1LL << Paging::PRESENT_FLAG) | (1LL << Paging::WRITABLE)` -/
def presentWritable : BitVec 64 := FlagOffset.PRESENT_FLAG.flag ||| FlagOffset.WRITABLE.flag

theorem testFlagBit (e : Entry) (f : FlagOffset) : testFlag e f = e.getLsbD f.toNat := by
  have low : ∀ w : BitVec 64, (w &&& 1#64 != 0#64) = w.getLsbD 0 := by
    intro w
    have both : w &&& 1#64 = if w.getLsbD 0 then 1#64 else 0#64 := BitVec.and_twoPow w 0
    rw [both]
    cases w.getLsbD 0 <;> rfl
  rw [testFlag, low, BitVec.getLsbD_ushiftRight, Nat.add_zero]

theorem addrMaskBit (j : Nat) : physicalAddrMask.getLsbD j = decide (12 ≤ j ∧ j < 52) := by
  by_cases inside : j < 64
  · have table : ∀ k : Fin 64, physicalAddrMask.getLsbD k = decide (12 ≤ k.val ∧ k.val < 52) := by
      decide
    exact table ⟨j, inside⟩
  · rw [BitVec.getLsbD_of_ge _ _ (by omega), eq_comm, decide_eq_false_iff_not]
    omega

theorem presentWritableBit (j : Nat) : presentWritable.getLsbD j = decide (j = 0 ∨ j = 1) := by
  by_cases inside : j < 64
  · have table : ∀ k : Fin 64, presentWritable.getLsbD k = decide (k.val = 0 ∨ k.val = 1) := by
      decide
    exact table ⟨j, inside⟩
  · rw [BitVec.getLsbD_of_ge _ _ (by omega), eq_comm, decide_eq_false_iff_not]
    omega

theorem setPhysicalAdrBit (e : Entry) (addr j : Nat) (inside : j < 64) :
    (setPhysicalAdr e addr).getLsbD j =
      if 12 ≤ j ∧ j < 52 then (BitVec.ofNat 64 addr).getLsbD j else e.getLsbD j := by
  unfold setPhysicalAdr removeFlags
  rw [BitVec.getLsbD_or, BitVec.getLsbD_and, BitVec.getLsbD_and, BitVec.getLsbD_not, addrMaskBit,
    decide_eq_true inside]
  by_cases address : 12 ≤ j ∧ j < 52 <;> simp [address]

def mapTo (e : Entry) (addr : Nat) : Entry := setFlags (setPhysicalAdr e addr) presentWritable

theorem mapToComm (e : Entry) (addr : Nat) :
    setPhysicalAdr (setFlags e presentWritable) addr = mapTo e addr := by
  apply BitVec.eq_of_getLsbD_eq
  intro j inside
  unfold mapTo setFlags
  rw [setPhysicalAdrBit _ _ _ inside, BitVec.getLsbD_or, BitVec.getLsbD_or,
    setPhysicalAdrBit _ _ _ inside, presentWritableBit]
  by_cases address : 12 ≤ j ∧ j < 52
  · have high : ¬ (j = 0 ∨ j = 1) := by omega
    simp [address, high]
  · simp [address]

theorem mapToFlag (e : Entry) (addr : Nat) (f : FlagOffset) :
    testFlag (mapTo e addr) f = (decide (f = .PRESENT_FLAG ∨ f = .WRITABLE) || testFlag e f) := by
  unfold mapTo setFlags
  rw [testFlagBit, testFlagBit, BitVec.getLsbD_or, presentWritableBit]
  cases f <;> rw [setPhysicalAdrBit _ _ _ (by decide)] <;> simp [FlagOffset.toNat]

@[simp] theorem mapToPresent (e : Entry) (addr : Nat) : isPresent (mapTo e addr) = true := by
  rw [isPresent, mapToFlag]
  rfl

@[simp] theorem mapToWriteable (e : Entry) (addr : Nat) : isWriteable (mapTo e addr) = true := by
  rw [isWriteable, mapToFlag]
  rfl

@[simp] theorem mapToLevel (e : Entry) (addr : Nat) :
    testFlag (mapTo e addr) .TABLE_LEVEL = testFlag e .TABLE_LEVEL := by
  rw [mapToFlag]
  rfl

@[simp] theorem mapToLevelTwo (e : Entry) (addr : Nat) :
    testFlag (mapTo e addr) .TABLE_LEVEL_2 = testFlag e .TABLE_LEVEL_2 := by
  rw [mapToFlag]
  rfl

theorem mapToPhysical (e : Entry) (addr : Nat) :
    getPhysicalAddr (mapTo e addr) = getPhysicalAddr (BitVec.ofNat 64 addr) := by
  have word : mapTo e addr &&& physicalAddrMask = BitVec.ofNat 64 addr &&& physicalAddrMask := by
    apply BitVec.eq_of_getLsbD_eq
    intro j inside
    unfold mapTo setFlags
    rw [BitVec.getLsbD_and, BitVec.getLsbD_or, setPhysicalAdrBit _ _ _ inside, presentWritableBit,
      BitVec.getLsbD_and, addrMaskBit]
    by_cases address : 12 ≤ j ∧ j < 52
    · have high : ¬ (j = 0 ∨ j = 1) := by omega
      simp [address, high]
    · simp [address]
  rw [getPhysicalAddr, word, getPhysicalAddr]

theorem physicalOfFrame {f : Nat} (low : f < 2 ^ 40) :
    getPhysicalAddr (BitVec.ofNat 64 (f * 4096)) = f * 4096 := by
  have word : BitVec.ofNat 64 (f * 4096) &&& physicalAddrMask = BitVec.ofNat 64 (f * 4096) := by
    apply BitVec.eq_of_getLsbD_eq
    intro j inside
    rw [BitVec.getLsbD_and, addrMaskBit]
    by_cases address : 12 ≤ j ∧ j < 52
    · simp [address]
    · have shifted : f * 4096 = f <<< 12 := by rw [Nat.shiftLeft_eq]
      have outside : (f * 4096).testBit j = false := by
        rw [shifted, Nat.testBit_shiftLeft]
        by_cases above : 12 ≤ j
        · have bound : f < 2 ^ (j - 12) := by
            have : 2 ^ 40 ≤ 2 ^ (j - 12) := Nat.pow_le_pow_right (by omega) (by omega)
            omega
          simp [Nat.testBit_lt_two_pow bound]
        · simp [above]
      simp [address, BitVec.getLsbD_ofNat, outside]
  rw [getPhysicalAddr, word, BitVec.toNat_ofNat]
  exact Nat.mod_eq_of_lt (by omega)

end Entry

structure Table where
  entries : Nat → Entry
  nextTables : Nat → Option Nat

namespace Table

def setEntry (t : Table) (i : Nat) (e : Entry) : Table :=
  { t with entries := Function.update t.entries i e }

def setNext (t : Table) (i : Nat) (next : Nat) : Table :=
  { t with nextTables := Function.update t.nextTables i (some next) }

def getLevel (t : Table) : Nat :=
  ((t.entries 0).testFlag .TABLE_LEVEL).toNat + (((t.entries 0).testFlag .TABLE_LEVEL_2).toNat <<< 1)

def setLevel (t : Table) (level : Nat) : Table :=
  t.setEntry 0 (((t.entries 0).removeFlags
    (FlagOffset.TABLE_LEVEL.flag ||| FlagOffset.TABLE_LEVEL_2.flag)).setFlags
      (BitVec.ofNat 64 level <<< FlagOffset.TABLE_LEVEL.toNat))

def init (level : Nat) : Table :=
  setLevel ⟨fun _ => defaultEntry, fun _ => none⟩ level

@[simp] theorem setEntryNext (t : Table) (i : Nat) (e : Entry) :
    (t.setEntry i e).nextTables = t.nextTables := rfl

@[simp] theorem setEntryAt (t : Table) (i j : Nat) (e : Entry) :
    (t.setEntry i e).entries j = if j = i then e else t.entries j := by
  rw [setEntry]
  exact Function.update_apply t.entries i e j

@[simp] theorem setNextEntries (t : Table) (i n : Nat) : (t.setNext i n).entries = t.entries := rfl

@[simp] theorem setNextAt (t : Table) (i j n : Nat) :
    (t.setNext i n).nextTables j = if j = i then some n else t.nextTables j := by
  rw [setNext]
  exact Function.update_apply t.nextTables i (some n) j

@[simp] theorem setNextLevel (t : Table) (i n : Nat) : (t.setNext i n).getLevel = t.getLevel := rfl

@[simp] theorem initNext (level j : Nat) : (init level).nextTables j = none := rfl

theorem initLevel {level : Nat} (known : level ≤ 3) : (init level).getLevel = level := by
  have table : ∀ k : Fin 4, (init k).getLevel = k := by decide
  exact table ⟨level, by omega⟩

theorem initPresent {level : Nat} (known : level ≤ 3) (j : Nat) :
    ((init level).entries j).isPresent = false := by
  have first : ∀ k : Fin 4, ((init k).entries 0).isPresent = false := by decide
  by_cases zero : j = 0
  · rw [zero]
    exact first ⟨level, by omega⟩
  · rw [init, setLevel, setEntryAt, if_neg zero]
    exact (by decide : Entry.isPresent defaultEntry = false)

@[simp] theorem mapLevel (t : Table) (i addr : Nat) :
    (t.setEntry i ((t.entries i).mapTo addr)).getLevel = t.getLevel := by
  unfold getLevel
  rw [setEntryAt]
  by_cases zero : 0 = i
  · subst zero
    rw [if_pos rfl, Entry.mapToLevel, Entry.mapToLevelTwo]
  · rw [if_neg zero]

theorem clearLevel (t : Table) (i : Nat) :
    (t.setEntry i defaultEntry).getLevel = if i = 0 then 0 else t.getLevel := by
  unfold getLevel
  rw [setEntryAt]
  by_cases zero : i = 0
  · subst zero
    rw [if_pos rfl, if_pos rfl]
    rfl
  · rw [if_neg (Ne.symm zero), if_neg zero]

end Table
end DimOS.Memory.Paging
