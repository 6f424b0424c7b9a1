import Mathlib.Data.List.Basic

/-! Half-open segments of a line, and lists of them that are sorted with a gap between
neighbours. insertSeg adds one more segment and joins it with the neighbours it
touches: the gaps stay, and exactly the bytes of the new segment are added. -/
namespace DimOS.Lib.Segments

structure Seg where
  start : Nat
  stop : Nat
  proper : start < stop
  deriving DecidableEq, Repr

def Seg.Has (s : Seg) (x : Nat) : Prop := s.start ≤ x ∧ x < s.stop

def Seg.Apart (s t : Seg) : Prop := s.stop ≤ t.start ∨ t.stop ≤ s.start

def Covers (l : List Seg) (x : Nat) : Prop := ∃ s ∈ l, s.Has x

def Separated (l : List Seg) : Prop := l.Pairwise (fun s t => s.stop < t.start)

def join (s t : Seg) (touch : s.stop = t.start) : Seg :=
  ⟨s.start, t.stop, by have := s.proper; have := t.proper; omega⟩

theorem apartComm {s t : Seg} (h : s.Apart t) : t.Apart s := Or.symm h

theorem apartIff {s t : Seg} : s.Apart t ↔ ∀ x, ¬ (s.Has x ∧ t.Has x) := by
  have ps := s.proper
  have pt := t.proper
  constructor
  · rintro h x ⟨⟨a, b⟩, c, d⟩
    rcases h with h | h <;> omega
  · intro none
    by_contra touch
    apply none (max s.start t.start)
    simp only [Seg.Apart] at touch
    exact ⟨⟨by omega, by omega⟩, by omega, by omega⟩

theorem hasStart (s : Seg) : s.Has s.start := ⟨Nat.le_refl _, s.proper⟩

theorem hasLast (s : Seg) : s.Has (s.stop - 1) := by
  have := s.proper
  constructor <;> omega

theorem joinHas {s t : Seg} (touch : s.stop = t.start) (x : Nat) :
    (join s t touch).Has x ↔ s.Has x ∨ t.Has x := by
  have := s.proper
  have := t.proper
  simp only [join, Seg.Has]
  omega

@[simp] theorem coversNil (x : Nat) : ¬ Covers [] x := by simp [Covers]

@[simp] theorem coversCons (s : Seg) (l : List Seg) (x : Nat) :
    Covers (s :: l) x ↔ s.Has x ∨ Covers l x := by simp [Covers]

@[simp] theorem coversAppend (k l : List Seg) (x : Nat) :
    Covers (k ++ l) x ↔ Covers k x ∨ Covers l x := by
  simp only [Covers, List.mem_append, or_and_right, exists_or]

theorem apartAll {s : Seg} {l : List Seg} :
    (∀ t ∈ l, s.Apart t) ↔ ∀ x, ¬ (s.Has x ∧ Covers l x) := by
  constructor
  · rintro all x ⟨here, t, mem, there⟩
    exact apartIff.mp (all t mem) x ⟨here, there⟩
  · intro none t mem
    exact apartIff.mpr (fun x both => none x ⟨both.1, t, mem, both.2⟩)

def absorb (s : Seg) : List Seg → List Seg
  | [] => [s]
  | t :: l => if touch : s.stop = t.start then join s t touch :: l else s :: t :: l

def insertSeg (s : Seg) : List Seg → List Seg
  | [] => [s]
  | t :: l =>
    if t.start ≤ s.start then
      if touch : t.stop = s.start then absorb (join t s touch) l else t :: insertSeg s l
    else absorb s (t :: l)

theorem absorbCovers (s : Seg) (l : List Seg) (x : Nat) :
    Covers (absorb s l) x ↔ s.Has x ∨ Covers l x := by
  cases l with
  | nil => simp [absorb]
  | cons t l =>
    simp only [absorb]
    split
    · simp only [coversCons, joinHas, or_assoc]
    · simp only [coversCons]

theorem absorbStart {s u : Seg} {l : List Seg} (mem : u ∈ absorb s l) :
    u.start = s.start ∨ u ∈ l := by
  cases l with
  | nil => simp_all [absorb]
  | cons t l =>
    simp only [absorb] at mem
    split at mem
    · rcases List.mem_cons.mp mem with rfl | mem
      · exact .inl rfl
      · exact .inr (List.mem_cons_of_mem t mem)
    · rcases List.mem_cons.mp mem with rfl | mem
      · exact .inl rfl
      · exact .inr mem

theorem absorbSeparated {s : Seg} {l : List Seg} (sep : Separated l)
    (above : ∀ t ∈ l, s.stop ≤ t.start) : Separated (absorb s l) := by
  cases l with
  | nil => simp [absorb, Separated]
  | cons t l =>
    obtain ⟨gaps, rest⟩ := List.pairwise_cons.mp sep
    simp only [absorb]
    split
    · exact List.pairwise_cons.mpr ⟨gaps, rest⟩
    · next apart =>
      have first : s.stop < t.start := by
        have := above t (by simp)
        omega
      have wide := t.proper
      refine List.pairwise_cons.mpr ⟨?_, sep⟩
      intro u mem
      rcases List.mem_cons.mp mem with rfl | mem
      · exact first
      · have := gaps u mem
        omega

theorem absorbLength (s : Seg) (l : List Seg) : (absorb s l).length ≤ l.length + 1 := by
  cases l with
  | nil => simp [absorb]
  | cons t l =>
    simp only [absorb]
    split <;> simp

theorem insertCovers (s : Seg) (l : List Seg) (x : Nat) :
    Covers (insertSeg s l) x ↔ s.Has x ∨ Covers l x := by
  induction l with
  | nil => simp [insertSeg]
  | cons t l ih =>
    simp only [insertSeg]
    split
    · split
      · rw [absorbCovers, joinHas, coversCons]
        tauto
      · rw [coversCons, ih, coversCons]
        tauto
    · rw [absorbCovers]

theorem insertStart {s u : Seg} {l : List Seg} (mem : u ∈ insertSeg s l) :
    u.start = s.start ∨ ∃ t ∈ l, u.start = t.start := by
  induction l with
  | nil => simp_all [insertSeg]
  | cons t l ih =>
    simp only [insertSeg] at mem
    split at mem
    · split at mem
      · rcases absorbStart mem with start | mem
        · exact .inr ⟨t, by simp, start⟩
        · exact .inr ⟨u, by simp [mem], rfl⟩
      · rcases List.mem_cons.mp mem with rfl | mem
        · exact .inr ⟨u, by simp, rfl⟩
        · rcases ih mem with start | ⟨v, mem, start⟩
          · exact .inl start
          · exact .inr ⟨v, by simp [mem], start⟩
    · rcases absorbStart mem with start | mem
      · exact .inl start
      · exact .inr ⟨u, mem, rfl⟩

theorem insertSeparated {s : Seg} {l : List Seg} (sep : Separated l)
    (apart : ∀ t ∈ l, s.Apart t) : Separated (insertSeg s l) := by
  induction l with
  | nil => simp [insertSeg, Separated]
  | cons t l ih =>
    obtain ⟨gaps, rest⟩ := List.pairwise_cons.mp sep
    have here := apart t (by simp)
    have later : ∀ u ∈ l, s.Apart u := fun u mem => apart u (by simp [mem])
    have widths := s.proper
    have widtht := t.proper
    simp only [insertSeg]
    split
    · next low =>
      have before : t.stop ≤ s.start := by
        rcases here with h | h <;> omega
      have above : ∀ u ∈ l, t.stop < u.start := gaps
      split
      · next touch =>
        apply absorbSeparated rest
        intro u mem
        have gap := above u mem
        have := u.proper
        simp only [join]
        rcases later u mem with h | h <;> omega
      · next gap =>
        refine List.pairwise_cons.mpr ⟨?_, ih rest later⟩
        intro u mem
        rcases insertStart mem with start | ⟨v, mem, start⟩
        · omega
        · have := above v mem
          omega
    · next high =>
      apply absorbSeparated sep
      intro u mem
      have first : s.stop ≤ t.start := by
        rcases here with h | h <;> omega
      rcases List.mem_cons.mp mem with rfl | mem
      · exact first
      · have := gaps u mem
        omega

theorem insertLength (s : Seg) (l : List Seg) : (insertSeg s l).length ≤ l.length + 1 := by
  induction l with
  | nil => simp [insertSeg]
  | cons t l ih =>
    simp only [insertSeg]
    split
    · split
      · have := absorbLength (join t s ‹_›) l
        simp only [List.length_cons]
        omega
      · simp only [List.length_cons]
        omega
    · exact absorbLength s (t :: l)

theorem absorbHolds (s : Seg) (l : List Seg) :
    ∃ u ∈ absorb s l, u.start = s.start ∧ s.stop ≤ u.stop := by
  cases l with
  | nil => exact ⟨s, by simp [absorb], rfl, Nat.le_refl _⟩
  | cons t l =>
    simp only [absorb]
    split
    · next touch =>
      have := t.proper
      exact ⟨join s t touch, by simp, rfl, by simp only [join]; omega⟩
    · exact ⟨s, by simp, rfl, Nat.le_refl _⟩

theorem insertHolds (s : Seg) (l : List Seg) :
    ∃ u ∈ insertSeg s l, u.start ≤ s.start ∧ s.stop ≤ u.stop := by
  induction l with
  | nil => exact ⟨s, by simp [insertSeg], Nat.le_refl _, Nat.le_refl _⟩
  | cons t l ih =>
    simp only [insertSeg]
    split
    · split
      · next low touch =>
        obtain ⟨u, mem, start, stop⟩ := absorbHolds (join t s touch) l
        exact ⟨u, mem, by rw [start]; exact low, stop⟩
      · obtain ⟨u, mem, inside⟩ := ih
        exact ⟨u, by simp [mem], inside⟩
    · obtain ⟨u, mem, start, stop⟩ := absorbHolds s (t :: l)
      exact ⟨u, mem, Nat.le_of_eq start, stop⟩

theorem insertPast (s : Seg) {pre post : List Seg}
    (past : ∀ t ∈ pre, t.start ≤ s.start ∧ t.stop ≠ s.start) :
    insertSeg s (pre ++ post) = pre ++ insertSeg s post := by
  induction pre with
  | nil => rfl
  | cons t pre ih =>
    obtain ⟨low, gap⟩ := past t (by simp)
    simp only [List.cons_append, insertSeg, if_pos low, dif_neg gap]
    rw [ih (fun u mem => past u (by simp [mem]))]

theorem insertBefore (s : Seg) {l : List Seg} (above : ∀ t ∈ l.head?, s.start < t.start) :
    insertSeg s l = absorb s l := by
  cases l with
  | nil => rfl
  | cons t l =>
    have high : ¬ t.start ≤ s.start := Nat.not_le.mpr (above t (by simp))
    simp only [insertSeg, if_neg high]

theorem absorbGap {s : Seg} {l : List Seg} (gap : ∀ t ∈ l, s.stop < t.start) :
    absorb s l = s :: l := by
  cases l with
  | nil => rfl
  | cons t l =>
    have apart : s.stop ≠ t.start := Nat.ne_of_lt (gap t (by simp))
    simp only [absorb, dif_neg apart]

theorem separatedApart {l : List Seg} (sep : Separated l) : l.Pairwise Seg.Apart :=
  sep.imp (fun gap => .inl (Nat.le_of_lt gap))

theorem separatedNoTouch {l : List Seg} (sep : Separated l) {s t : Seg} (left : s ∈ l)
    (right : t ∈ l) : s.stop ≠ t.start := by
  have ps := s.proper
  have pt := t.proper
  induction l with
  | nil => simp at left
  | cons u l ih =>
    obtain ⟨gaps, rest⟩ := List.pairwise_cons.mp sep
    rcases List.mem_cons.mp left with rfl | inl
    · rcases List.mem_cons.mp right with rfl | inr
      · omega
      · have := gaps t inr
        omega
    · rcases List.mem_cons.mp right with rfl | inr
      · have := gaps s inl
        omega
      · exact ih rest inl inr

theorem separatedAbove {s : Seg} {l : List Seg} (sep : Separated (s :: l)) {x : Nat} :
    Covers l x → s.stop < x := by
  rintro ⟨t, mem, has⟩
  have := (List.pairwise_cons.mp sep).1 t mem
  unfold Seg.Has at has
  omega

theorem separatedHead {s t : Seg} {k l : List Seg} (right : Separated (t :: l))
    (same : ∀ x, Covers (s :: k) x → Covers (t :: l) x) : t.start ≤ s.start ∧
      (t.start = s.start → s.stop ≤ t.stop) := by
  constructor
  · rcases (coversCons t l s.start).mp (same _ ((coversCons s k _).mpr (.inl (hasStart s)))) with has | later
    · exact has.1
    · have := separatedAbove right later
      have := t.proper
      omega
  · intro start
    by_contra longer
    have inside : s.Has t.stop := ⟨by have := t.proper; omega, by omega⟩
    rcases (coversCons t l t.stop).mp (same _ ((coversCons s k _).mpr (.inl inside))) with has | later
    · unfold Seg.Has at has
      omega
    · have := separatedAbove right later
      omega

theorem separatedUnique {k l : List Seg} (left : Separated k) (right : Separated l)
    (same : ∀ x, Covers k x ↔ Covers l x) : k = l := by
  induction k generalizing l with
  | nil =>
    cases l with
    | nil => rfl
    | cons t l => exact absurd ((same t.start).mpr ((coversCons t l _).mpr (.inl (hasStart t)))) (coversNil _)
  | cons s k ih =>
    cases l with
    | nil => exact absurd ((same s.start).mp ((coversCons s k _).mpr (.inl (hasStart s)))) (coversNil _)
    | cons t l =>
      obtain ⟨low, short⟩ := separatedHead right (fun x => (same x).mp)
      obtain ⟨low', short'⟩ := separatedHead left (fun x => (same x).mpr)
      have start : t.start = s.start := Nat.le_antisymm low low'
      have stop : t.stop = s.stop := Nat.le_antisymm (short' start.symm) (short start)
      obtain rfl : s = t := by
        cases s
        cases t
        simp only at start stop
        subst start stop
        rfl
      have rest : ∀ x, Covers k x ↔ Covers l x := by
        intro x
        have whole := same x
        rw [coversCons, coversCons] at whole
        constructor
        · intro covered
          have above := separatedAbove left covered
          rcases whole.mp (.inr covered) with has | covered
          · unfold Seg.Has at has
            omega
          · exact covered
        · intro covered
          have above := separatedAbove right covered
          rcases whole.mpr (.inr covered) with has | covered
          · unfold Seg.Has at has
            omega
          · exact covered
      rw [ih (List.pairwise_cons.mp left).2 (List.pairwise_cons.mp right).2 rest]

end DimOS.Lib.Segments
