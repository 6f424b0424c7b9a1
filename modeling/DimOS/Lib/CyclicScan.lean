import Mathlib.Tactic

/-! A scan for n neighbours with a property, on the numbers below N taken as a circle. It asks for the
first number from q on that has the property, and is told 0 when there is none; it starts again at every
answer that is not the neighbour of the last. -/
namespace DimOS.Lib.CyclicScan

def NextIn (N : Nat) (P : Nat → Prop) (q r : Nat) : Prop :=
  (q ≤ r ∧ r < N ∧ P r ∧ ∀ s, q ≤ s → s < r → ¬ P s) ∨ (r = 0 ∧ ∀ s, q ≤ s → s < N → ¬ P s)

theorem NextIn.congr {N q r : Nat} {P Q : Nat → Prop} (next : NextIn N P q r) (same : ∀ p, p < N → (P p ↔ Q p)) :
    NextIn N Q q r := by
  rcases next with ⟨onward, low, has, none⟩ | ⟨zero, none⟩
  · exact .inl ⟨onward, low, (same r low).mp has, fun s late early => mt (same s (by omega)).mpr (none s late early)⟩
  · exact .inr ⟨zero, fun s late early => mt (same s early).mpr (none s late early)⟩

theorem NextIn.unique {N q r r' : Nat} {P : Nat → Prop} (next : NextIn N P q r) (next' : NextIn N P q r') : r = r' := by
  rcases next with ⟨late, low, has, none⟩ | ⟨rfl, none⟩
  · rcases next' with ⟨late', low', has', none'⟩ | ⟨-, none'⟩
    · rcases Nat.lt_trichotomy r r' with less | same | more
      · exact absurd has (none' r late less)
      · exact same
      · exact absurd has' (none r' late' more)
    · exact absurd has (none' r late low)
  · rcases next' with ⟨late', low', has', -⟩ | ⟨rfl, -⟩
    · exact absurd has' (none r' late' low')
    · rfl

/- What the scan takes for a number with the property: 0 is one of them when questions can fail. -/
def Taken (N : Nat) (P : Nat → Prop) (s : Nat) : Prop := P s ∨ (s = 0 ∧ ¬ P (N - 1))

def RunAt (N : Nat) (P : Nat → Prop) (s n : Nat) : Prop := ∀ k, k < n → Taken N P ((s + k) % N)

def FirstRun (N : Nat) (P : Nat → Prop) (s n k : Nat) : Prop :=
  RunAt N P (s + k) n ∧ ∀ j, j < k → ¬ RunAt N P (s + j) n

theorem FirstRun.unique {N : Nat} {P : Nat → Prop} {s n k k' : Nat} (first : FirstRun N P s n k)
    (first' : FirstRun N P s n k') : k = k' := by
  rcases Nat.lt_trichotomy k k' with less | same | more
  · exact absurd first.1 (first'.2 k less)
  · exact same
  · exact absurd first'.1 (first.2 k' more)

/- The scan from s on has come to distance a, with d neighbours behind it. -/
structure Scanned (N : Nat) (P : Nat → Prop) (s n a d res prev : Nat) : Prop where
  some : 1 ≤ d
  short : d ≤ a + 1
  few : d ≤ n
  here : prev = (s + a) % N
  start : res = (s + (a + 1 - d)) % N
  taken : ∀ j, a + 1 - d ≤ j → j ≤ a → Taken N P ((s + j) % N)
  before : ∀ j, j < a + 1 - d → ¬ RunAt N P (s + j) n

section
variable {N : Nat} {P : Nat → Prop} {s n a d res prev c : Nat}

theorem NextIn.taken {q r : Nat} (next : NextIn N P q r) (inside : q < N) : r < N ∧ Taken N P r := by
  rcases next with ⟨-, low, has, -⟩ | ⟨rfl, none⟩
  · exact ⟨low, .inl has⟩
  · exact ⟨by omega, .inr ⟨rfl, none (N - 1) (by omega) (by omega)⟩⟩

theorem scannedStart {q : Nat} (next : NextIn N P q s) (inside : q < N) (positive : 1 ≤ n) :
    Scanned N P s n 0 1 s s := by
  obtain ⟨low, taken⟩ := next.taken inside
  have same : (s + 0) % N = s := Nat.mod_eq_of_lt low
  refine ⟨Nat.le_refl 1, Nat.le_refl 1, positive, same.symm, same.symm, fun j _ high => ?_,
    fun j low => absurd low (Nat.not_lt_zero j)⟩
  obtain rfl : j = 0 := by omega
  rw [same]
  exact taken

theorem Scanned.skip (h : Scanned N P s n a d res prev) (less : d < n) {a' : Nat} (onward : a + 1 < a')
    (gap : ∀ j, a < j → j < a' → ¬ Taken N P ((s + j) % N)) (taken : Taken N P ((s + a') % N)) :
    Scanned N P s n a' 1 ((s + a') % N) ((s + a') % N) := by
  have some := h.some
  have first : a' + 1 - 1 = a' := by omega
  refine ⟨Nat.le_refl 1, by omega, by omega, rfl, by rw [first], fun j low high => ?_, fun j low run => ?_⟩
  · obtain rfl : j = a' := by omega
    exact taken
  · by_cases old : j < a + 1 - d
    · exact h.before j old run
    · by_cases past : j ≤ a + 1
      · have inRun := run (a + 1 - j) (by omega)
        rw [show s + j + (a + 1 - j) = s + (a + 1) by omega] at inRun
        exact gap (a + 1) (by omega) onward inRun
      · exact gap j (by omega) (by omega) (run 0 (by omega))

theorem Scanned.step (h : Scanned N P s n a d res prev) (less : d < n) (inside : prev < N)
    (next : NextIn N P ((prev + 1) % N) c) :
    (c = (prev + 1) % N → Scanned N P s n (a + 1) (d + 1) res c) ∧
      (c ≠ (prev + 1) % N → ∃ a', a < a' ∧ Scanned N P s n a' 1 c c) := by
  have some := h.some
  have short := h.short
  have low : (prev + 1) % N < N := Nat.mod_lt _ (by omega)
  have place : (prev + 1) % N = (s + (a + 1)) % N := by
    rw [h.here, Nat.mod_add_mod, Nat.add_assoc]
  have shift : ∀ i, (s + (a + 1 + i)) % N = ((prev + 1) % N + i) % N := by
    intro i
    rw [place, Nat.mod_add_mod, ← Nat.add_assoc s (a + 1) i]
  constructor
  · intro same
    have taken := (next.taken low).2
    have back : a + 1 + 1 - (d + 1) = a + 1 - d := by omega
    refine ⟨by omega, by omega, less, same.trans place, by rw [back]; exact h.start, fun j late high => ?_,
      fun j early => ?_⟩
    · by_cases last : j = a + 1
      · rw [last, ← place, ← same]
        exact taken
      · exact h.taken j (by omega) (by omega)
    · rw [back] at early
      exact h.before j early
  · intro other
    rcases next with ⟨onward, bound, has, none⟩ | ⟨rfl, none⟩
    · -- the first number with the property lies further on
      have far : (prev + 1) % N < c := by omega
      have at' : (s + (a + 1 + (c - (prev + 1) % N))) % N = c := by
        rw [shift, Nat.add_sub_cancel' onward, Nat.mod_eq_of_lt bound]
      refine ⟨a + 1 + (c - (prev + 1) % N), by omega, ?_⟩
      have skipped := h.skip less (show a + 1 < a + 1 + (c - (prev + 1) % N) by omega) (fun j late early => ?_)
        (by rw [at']; exact .inl has)
      · rw [at'] at skipped
        exact skipped
      · obtain ⟨i, rfl⟩ : ∃ i, j = a + 1 + i := ⟨j - (a + 1), by omega⟩
        rw [shift, Nat.mod_eq_of_lt (by omega)]
        rintro (here | ⟨zero, failing⟩)
        · exact none _ (by omega) (by omega) here
        · have last : prev = N - 1 := by
            by_contra differ
            rw [Nat.mod_eq_of_lt (show prev + 1 < N by omega)] at zero
            omega
          have before := h.taken a (by omega) (Nat.le_refl a)
          rw [← h.here, last] at before
          rcases before with property | ⟨single, -⟩
          · exact failing property
          · omega
    · -- none is left up to the end: 0 is taken for one
      have far : (prev + 1) % N ≠ 0 := fun zero => other zero.symm
      have at' : (s + (a + 1 + (N - (prev + 1) % N))) % N = 0 := by
        rw [shift, Nat.add_sub_cancel' (Nat.le_of_lt low), Nat.mod_self]
      refine ⟨a + 1 + (N - (prev + 1) % N), by omega, ?_⟩
      have skipped := h.skip less (show a + 1 < a + 1 + (N - (prev + 1) % N) by omega) (fun j late early => ?_)
        (by rw [at']; exact .inr ⟨rfl, none (N - 1) (by omega) (by omega)⟩)
      · rw [at'] at skipped
        exact skipped
      · obtain ⟨i, rfl⟩ : ∃ i, j = a + 1 + i := ⟨j - (a + 1), by omega⟩
        rw [shift, Nat.mod_eq_of_lt (by omega)]
        rintro (here | ⟨zero, -⟩)
        · exact none _ (by omega) (by omega) here
        · omega

theorem Scanned.found (h : Scanned N P s n a n res prev) : FirstRun N P s n (a + 1 - n) ∧ res = (s + (a + 1 - n)) % N := by
  have short := h.short
  refine ⟨⟨fun k low => ?_, h.before⟩, h.start⟩
  have inRun := h.taken (a + 1 - n + k) (by omega) (by omega)
  rw [← Nat.add_assoc] at inRun
  exact inRun

theorem Scanned.reach (h : Scanned N P s n a d res prev) {k : Nat} (first : FirstRun N P s n k) : a + 1 ≤ k + d := by
  by_contra past
  exact h.before k (by omega) first.1

/- The first n in a row from lo on, without going round. -/
def RunOnward (P : Nat → Prop) (lo n p : Nat) : Prop :=
  lo ≤ p ∧ (∀ j, j < n → P (p + j)) ∧ ∀ r, lo ≤ r → r < p → ∃ j, j < n ∧ ¬ P (r + j)

theorem RunOnward.firstRun {lo p : Nat} (run : RunOnward P lo n p) (positive : 1 ≤ n) (inside : p + n ≤ N) :
    ∃ s k, s + k = p ∧ NextIn N P lo s ∧ FirstRun N P s n k := by
  classical
  obtain ⟨onward, taken, before⟩ := run
  have some : ∃ s, lo ≤ s ∧ P s := ⟨p, onward, taken 0 positive⟩
  obtain ⟨later, has⟩ := Nat.find_spec some
  have near : Nat.find some ≤ p := Nat.find_min' some ⟨onward, taken 0 positive⟩
  have none : ∀ r, lo ≤ r → r < Nat.find some → ¬ P r := fun r late early has => Nat.find_min some early ⟨late, has⟩
  generalize Nat.find some = s at later has near none
  refine ⟨s, p - s, by omega, .inl ⟨later, by omega, has, none⟩, fun j less => ?_, fun j early whole => ?_⟩
  · rw [show s + (p - s) + j = p + j by omega, Nat.mod_eq_of_lt (by omega)]
    exact .inl (taken j less)
  · obtain ⟨i, less, gap⟩ := before (s + j) (by omega) (by omega)
    have inRun := whole i less
    rw [Nat.mod_eq_of_lt (by omega)] at inRun
    rcases inRun with here | ⟨zero, -⟩
    · exact gap here
    · rw [zero] at gap
      obtain rfl : s = 0 := by omega
      exact gap has

end
end DimOS.Lib.CyclicScan
