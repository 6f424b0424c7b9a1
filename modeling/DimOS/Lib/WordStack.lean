import Mathlib.Data.BitVec

/-! A stack of 64-bit words that grows down through byte-addressed memory. Addresses wrap at
2^64 and need no alignment. Holds says which words stand from an address upwards; a push puts
one in front of them and a pop takes it off again. -/
namespace DimOS.Lib.WordStack

abbrev Word := BitVec 64
abbrev Memory := Word → BitVec 8

def byte (m : Memory) (a : Word) (i : Nat) : BitVec 8 := m (a + BitVec.ofNat 64 i)

def load (m : Memory) (a : Word) : Word :=
  byte m a 7 ++ byte m a 6 ++ byte m a 5 ++ byte m a 4 ++ byte m a 3 ++ byte m a 2 ++ byte m a 1 ++ byte m a 0

def store (m : Memory) (a : Word) (w : Word) : Memory := fun k =>
  if (k - a).toNat < 8 then w.extractLsb' (8 * (k - a).toNat) 8 else m k

theorem loadBit (m : Memory) (a : Word) (j : Nat) (inside : j < 64) :
    (load m a).getLsbD j = (byte m a (j / 8)).getLsbD (j % 8) := by
  simp only [load, BitVec.getLsbD_append]
  -- one case for each byte, in the order of the concatenation
  split_ifs <;> congr 2 <;> omega

theorem storeBit (m : Memory) (a w : Word) (j : Nat) (inside : j < 64) :
    (byte (store m a w) a (j / 8)).getLsbD (j % 8) = w.getLsbD j := by
  have offset : (a + BitVec.ofNat 64 (j / 8) - a).toNat = j / 8 := by
    rw [BitVec.add_comm, BitVec.add_sub_cancel, BitVec.toNat_ofNat]
    omega
  have place : 8 * (j / 8) + j % 8 = j := Nat.div_add_mod j 8
  have low : j % 8 < 8 := Nat.mod_lt _ (by omega)
  rw [byte, store, offset, if_pos (by omega), BitVec.getLsbD_extractLsb', place]
  simp [low]

@[simp] theorem loadStore (m : Memory) (a w : Word) : load (store m a w) a = w := by
  apply BitVec.eq_of_getLsbD_eq
  intro j inside
  rw [loadBit _ _ _ inside, storeBit _ _ _ _ inside]

theorem loadStoreApart (m : Memory) (w : Word) {a b : Word} (low : 8 ≤ (b - a).toNat)
    (high : (b - a).toNat + 8 ≤ 2 ^ 64) : load (store m a w) b = load m b := by
  apply BitVec.eq_of_getLsbD_eq
  intro j inside
  have outside : ¬ (b + BitVec.ofNat 64 (j / 8) - a).toNat < 8 := by
    rw [add_sub_right_comm, BitVec.toNat_add, BitVec.toNat_ofNat]
    omega
  rw [loadBit _ _ _ inside, loadBit _ _ _ inside, byte, store, if_neg outside, byte]

def Holds (m : Memory) : Word → List Word → Prop
  | _, [] => True
  | a, w :: ws => load m a = w ∧ Holds m (a + 8) ws

theorem holdsStore {m : Memory} {a b w : Word} {ws : List Word} (held : Holds m b ws) (low : 8 ≤ (b - a).toNat)
    (high : (b - a).toNat + 8 * ws.length ≤ 2 ^ 64) : Holds (store m a w) b ws := by
  induction ws generalizing b with
  | nil => trivial
  | cons v ws ih =>
    rw [List.length_cons] at high
    refine ⟨by rw [loadStoreApart m w low (by omega)]; exact held.1, ?_⟩
    have next : (b + 8 - a).toNat = (b - a).toNat + 8 ∨ ws = [] := by
      by_cases last : ws = []
      · exact .inr last
      · have more : 0 < ws.length := List.length_pos_of_ne_nil last
        refine .inl ?_
        rw [add_sub_right_comm, BitVec.toNat_add, show (8 : Word).toNat = 8 from rfl]
        omega
    rcases next with far | rfl
    · exact ih held.2 (by omega) (by omega)
    · trivial

theorem holdsPush {m : Memory} {sp : Word} {ws : List Word} (held : Holds m sp ws)
    (room : 8 * (ws.length + 1) ≤ 2 ^ 64) (w : Word) : Holds (store m (sp - 8) w) (sp - 8) (w :: ws) := by
  have far : sp - (sp - 8) = 8 := sub_sub_cancel sp 8
  refine ⟨loadStore m _ w, ?_⟩
  rw [BitVec.sub_add_cancel]
  exact holdsStore held (by rw [far]; decide) (by rw [far]; simp; omega)

theorem holdsAt {m : Memory} {a : Word} {ws : List Word} (held : Holds m a ws) {i : Nat} {w : Word}
    (here : ws[i]? = some w) : load m (a + BitVec.ofNat 64 (8 * i)) = w := by
  induction ws generalizing a i with
  | nil => simp at here
  | cons v ws ih =>
    cases i with
    | zero =>
      cases Option.some.inj here
      simpa using held.1
    | succ i =>
      have reached := ih held.2 (i := i) (by simpa using here)
      have place : a + BitVec.ofNat 64 (8 * (i + 1)) = a + 8 + BitVec.ofNat 64 (8 * i) := by
        rw [BitVec.add_assoc, show (8 : Word) = BitVec.ofNat 64 8 from rfl, ← BitVec.ofNat_add]
        congr 2
        omega
      rw [place]
      exact reached

end DimOS.Lib.WordStack
