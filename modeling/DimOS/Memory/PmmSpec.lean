import Mathlib
import DimOS.Lib.Count
import DimOS.Memory.Pmm

/-! The bitmap as a set of frames: what each function of the PMM does to it, and to the
difference between the counter and the number of set bits below frameCnt. -/
namespace DimOS.Memory.Pmm
open Lib.WordBits
open Lib.Count

namespace PMM

def used (p : PMM) (f : Nat) : Bool := bitOf p.bitmap f

def drift (p : PMM) : Int := p.usedframes - count p.used p.frameCnt

def Balanced (p : PMM) : Prop := p.drift = 0

theorem balancedIff (p : PMM) : p.Balanced ↔ p.usedframes = count p.used p.frameCnt := by
  unfold Balanced drift
  omega

@[simp] theorem countAllUsed (p : PMM) : p.countAll.used = p.used := funext (fun _ => rfl)

@[simp] theorem countAllFrameCnt (p : PMM) : p.countAll.frameCnt = p.frameCnt := rfl

theorem isSetUsed (p : PMM) (f : Nat) : p.bitmapIsSet f = p.used f := isSetEq p.bitmap f

@[simp] theorem setUsed (p : PMM) (f j : Nat) :
    (p.bitmapSet f).used j = if j = f then true else p.used j := setBitOf p.bitmap f j

@[simp] theorem unsetUsed (p : PMM) (f j : Nat) :
    (p.bitmapUnset f).used j = if j = f then false else p.used j := clearBitOf p.bitmap f j

theorem countSet {p : PMM} {f n : Nat} (inside : f < n) (free : p.used f = false) :
    count (p.bitmapSet f).used n = count p.used n + 1 := by
  refine countRaise inside free (by simp) ?_
  intro k other
  simp [other]

theorem countUnset {p : PMM} {f n : Nat} (inside : f < n) (taken : p.used f = true) :
    count (p.bitmapUnset f).used n + 1 = count p.used n := by
  refine countLower inside taken (by simp) ?_
  intro k other
  simp [other]

@[simp] theorem markUsed (value : Bool) (p : PMM) (f j : Nat) :
    (p.mark value f).used j = if j = f then value else p.used j := by
  unfold mark
  cases value with
  | true =>
    simp only [if_true]
    split <;> exact setUsed p f j
  | false =>
    simp only [Bool.false_eq_true, if_false]
    split <;> exact unsetUsed p f j

@[simp] theorem markFrameCnt (value : Bool) (p : PMM) (f : Nat) :
    (p.mark value f).frameCnt = p.frameCnt := by
  unfold mark
  cases value <;> simp only [if_true, Bool.false_eq_true, if_false] <;> split <;> rfl

theorem markDrift {p : PMM} {f : Nat} (value : Bool) (inside : f < p.frameCnt) :
    (p.mark value f).drift = p.drift := by
  have other : ∀ q : PMM, (∀ j, q.used j = p.used j) → count q.used p.frameCnt =
      count p.used p.frameCnt := fun q same => countCongr (fun k _ => same k)
  unfold drift
  rw [markFrameCnt]
  cases value with
  | true =>
    have shape : count (p.mark true f).used p.frameCnt = count (p.bitmapSet f).used p.frameCnt :=
      countCongr (fun k _ => by simp)
    have kept : (p.bitmapSet f).usedframes = p.usedframes := rfl
    rw [shape]
    simp only [mark, if_true, isSetUsed]
    cases taken : p.used f with
    | true =>
      have same := other (p.bitmapSet f) (fun j => by by_cases h : j = f <;> simp [h, taken])
      simp only [Bool.not_true, Bool.false_eq_true, if_false, same, kept]
    | false =>
      have more := countSet inside taken
      simp only [Bool.not_false, if_true, more, kept]
      push_cast
      omega
  | false =>
    have shape : count (p.mark false f).used p.frameCnt = count (p.bitmapUnset f).used p.frameCnt :=
      countCongr (fun k _ => by simp)
    have kept : (p.bitmapUnset f).usedframes = p.usedframes := rfl
    rw [shape]
    simp only [mark, Bool.false_eq_true, if_false, isSetUsed]
    cases taken : p.used f with
    | true =>
      have less := countUnset inside taken
      simp only [if_true, kept]
      omega
    | false =>
      have same := other (p.bitmapUnset f) (fun j => by by_cases h : j = f <;> simp [h, taken])
      simp only [Bool.false_eq_true, if_false, same, kept]

theorem fullBalanced {p : PMM} (full : ∀ f, f < p.frameCnt → p.used f = true) :
    p.countAll.Balanced := by
  rw [balancedIff, countAllUsed, countAllFrameCnt, countEqIff.mpr full]
  rfl

theorem markFramesSpec (value : Bool) (cnt st : Nat) (p : PMM) :
    (∀ j, (markFrames value cnt st p).used j =
        if st ≤ j ∧ j < st + cnt then value else p.used j) ∧
      (markFrames value cnt st p).frameCnt = p.frameCnt ∧
      (st + cnt ≤ p.frameCnt → (markFrames value cnt st p).drift = p.drift) := by
  induction cnt generalizing st p with
  | zero =>
    refine ⟨fun j => ?_, rfl, fun _ => rfl⟩
    rw [if_neg (by omega)]
    rfl
  | succ cnt ih =>
    obtain ⟨bits, frames, balance⟩ := ih (st + 1) (p.mark value st)
    simp only [markFrames]
    refine ⟨fun j => ?_, by rw [frames, markFrameCnt], ?_⟩
    · rw [bits j, markUsed]
      by_cases first : j = st
      · simp [first]
      · rw [if_neg first]
        by_cases later : st + 1 ≤ j ∧ j < st + 1 + cnt
        · rw [if_pos later, if_pos (by omega)]
        · rw [if_neg later, if_neg (by omega)]
    · intro inside
      rw [balance (by rw [markFrameCnt]; omega), markDrift value (by omega)]

theorem regionEq {start size : Nat} (aligned : start % 4096 = 0) (low : start + size < 2 ^ 63) :
    regionStart start = start / 4096 ∧ (regionCount start size).toNat = (size + 4095) / 4096 := by
  have first : regionStart start = start / 4096 := by
    unfold regionStart frameSize
    rw [Nat.mod_eq_of_lt (by omega)]
    omega
  refine ⟨first, ?_⟩
  have exactly : ((start / 4096 * 4096 : Nat) : Int) - (start : Int) = 0 := by omega
  unfold regionCount toInt64 frameSize
  rw [first, exactly, Int.sub_zero, Int.bmod_eq_of_le (by omega) (by omega),
    Int.tdiv_eq_ediv_of_nonneg (by omega)]
  omega

def Within (start size f : Nat) : Prop := start / 4096 ≤ f ∧ f < start / 4096 + (size + 4095) / 4096

instance (start size f : Nat) : Decidable (Within start size f) := by
  unfold Within
  infer_instance

theorem markRegionSpec (value : Bool) (p : PMM) {start size : Nat} (aligned : start % 4096 = 0)
    (low : start + size < 2 ^ 63) :
    (∀ f, (p.markRegion value start size).used f =
        if Within start size f then value else p.used f) ∧
      (p.markRegion value start size).frameCnt = p.frameCnt ∧
      (start / 4096 + (size + 4095) / 4096 ≤ p.frameCnt →
        (p.markRegion value start size).drift = p.drift) := by
  obtain ⟨first, number⟩ := regionEq aligned low
  have spec := markFramesSpec value (regionCount start size).toNat (regionStart start) p
  rw [first, number] at spec
  unfold markRegion Within
  rw [first, number]
  exact spec

theorem initRegionsSpec (ranges : List MemRange) (p : PMM)
    (fit : ∀ r ∈ ranges, r.start % 4096 = 0 ∧ r.start + r.size < 2 ^ 63 ∧
      r.start / 4096 + (r.size + 4095) / 4096 ≤ p.frameCnt) :
    (∀ f, (p.initRegions ranges).used f = true ↔
        p.used f = true ∧ ∀ r ∈ ranges, ¬ Within r.start r.size f) ∧
      (p.initRegions ranges).frameCnt = p.frameCnt ∧ (p.initRegions ranges).drift = p.drift := by
  induction ranges generalizing p with
  | nil => exact ⟨fun f => by simp [initRegions], rfl, rfl⟩
  | cons r ranges ih =>
    obtain ⟨aligned, low, inside⟩ := fit r (by simp)
    obtain ⟨bits, frames, drift⟩ := markRegionSpec false p aligned low
    have kept : (p.initRegion r.start r.size).frameCnt = p.frameCnt := frames
    obtain ⟨bits', frames', drift'⟩ := ih (p.initRegion r.start r.size) (fun a mem => by
      rw [kept]
      exact fit a (by simp [mem]))
    have fold : p.initRegions (r :: ranges) = (p.initRegion r.start r.size).initRegions ranges := rfl
    rw [fold]
    refine ⟨fun f => ?_, frames'.trans kept, drift'.trans (drift inside)⟩
    have here : (p.initRegion r.start r.size).used f =
        if Within r.start r.size f then false else p.used f := bits f
    rw [bits' f, here]
    by_cases cut : Within r.start r.size f <;> simp [cut]

theorem wordUsed (p : PMM) (i j : Nat) (inside : j < 64) :
    (p.bitmap i).getLsbD j = p.used (i * 64 + j) := by
  have word : (i * 64 + j) / 64 = i := by omega
  have offset : (i * 64 + j) % 64 = j := by omega
  rw [used, bitOf, word, offset]

theorem firstFreeInWordSpec (p : PMM) (i : Nat) :
    match firstFreeInWord (p.bitmap i) with
    | some j => j < 64 ∧ p.used (i * 64 + j) = false ∧ ∀ k, k < j → p.used (i * 64 + k) = true
    | none => ∀ k, k < 64 → p.used (i * 64 + k) = true := by
  unfold firstFreeInWord
  split
  · next j found =>
    split at found
    · contradiction
    · obtain ⟨clear, inside, before⟩ := List.find?_range_eq_some.mp found
      have low : j < 64 := List.mem_range.mp inside
      refine ⟨low, ?_, ?_⟩
      · rw [testMask _ low, wordUsed p i j low] at clear
        simpa using clear
      · intro k below
        have full := before k below
        rw [testMask _ (by omega), wordUsed p i k (by omega)] at full
        simpa using full
  · next missing =>
    intro k low
    rw [← wordUsed p i k low]
    split at missing
    · next full => exact (allOnesIff _).mp full k low
    · have full := List.find?_range_eq_none.mp missing k low
      rw [testMask _ low] at full
      simpa using full

theorem firstFreeLoopSpec (p : PMM) (left i : Nat) (before : ∀ g, g < i * 64 → p.used g = true) :
    match p.firstFreeLoop left i with
    | some f => f < (i + left) * 64 ∧ p.used f = false ∧ ∀ g, g < f → p.used g = true
    | none => ∀ g, g < (i + left) * 64 → p.used g = true := by
  induction left generalizing i with
  | zero => simpa [firstFreeLoop] using before
  | succ left ih =>
    have word := firstFreeInWordSpec p i
    simp only [firstFreeLoop]
    cases found : firstFreeInWord (p.bitmap i) with
    | some j =>
      rw [found] at word
      obtain ⟨low, clear, full⟩ := word
      simp only [framesPerElement]
      refine ⟨by omega, clear, ?_⟩
      intro g below
      by_cases early : g < i * 64
      · exact before g early
      · obtain ⟨k, rfl⟩ : ∃ k, g = i * 64 + k := ⟨g - i * 64, by omega⟩
        exact full k (by omega)
    | none =>
      rw [found] at word
      have next := ih (i + 1) (fun g below => by
        by_cases early : g < i * 64
        · exact before g early
        · obtain ⟨k, rfl⟩ : ∃ k, g = i * 64 + k := ⟨g - i * 64, by omega⟩
          exact word k (by omega))
      have total : i + 1 + left = i + (left + 1) := by omega
      rw [total] at next
      exact next

theorem frameCntLe (p : PMM) : p.frameCnt ≤ p.elementCnt * 64 := by
  unfold elementCnt framesPerElement
  omega

theorem allocFrameTakes {p : PMM} (below : p.usedframes ≠ p.frameCnt)
    (room : ∃ g, g < p.frameCnt ∧ p.used g = false) :
    ∃ f, f < p.frameCnt ∧ p.used f = false ∧
      p.allocFrame = ({ p.bitmapSet f with usedframes := p.usedframes + 1 }, f * frameSize) := by
  obtain ⟨g, inside, free⟩ := room
  have scan := firstFreeLoopSpec p p.elementCnt 0 (fun g below => by omega)
  have whole := p.frameCntLe
  unfold allocFrame firstFreeFrame
  rw [if_neg below]
  cases found : p.firstFreeLoop p.elementCnt 0 with
  | none =>
    rw [found] at scan
    have := scan g (by omega)
    rw [free] at this
    contradiction
  | some f =>
    rw [found] at scan
    obtain ⟨-, clear, lowest⟩ := scan
    have early : f ≤ g := by
      by_contra above
      have := lowest g (by omega)
      rw [free] at this
      contradiction
    exact ⟨f, by omega, clear, rfl⟩

theorem allocFrameSpec {p : PMM} (balanced : p.Balanced) :
    (p.allocFrame = (p, 0) ∧ ∀ f, f < p.frameCnt → p.used f = true) ∨
      ∃ f, f < p.frameCnt ∧ p.used f = false ∧ (p.allocFrame).2 = f * frameSize ∧
        (p.allocFrame).1.Balanced ∧ (p.allocFrame).1.frameCnt = p.frameCnt ∧
        ∀ j, (p.allocFrame).1.used j = if j = f then true else p.used j := by
  rw [balancedIff] at balanced
  by_cases full : p.usedframes = p.frameCnt
  · refine .inl ⟨by rw [allocFrame, if_pos full], countEqIff.mp ?_⟩
    omega
  · have bound := countLe p.used p.frameCnt
    obtain ⟨f, inside, clear, made⟩ := allocFrameTakes full (countLt (by omega))
    rw [made]
    refine .inr ⟨f, inside, clear, rfl, ?_, rfl, fun j => setUsed p f j⟩
    rw [balancedIff]
    have more := countSet inside clear
    show p.usedframes + 1 = (count (p.bitmapSet f).used p.frameCnt : Int)
    rw [more]
    push_cast
    omega

def freeIn (p : PMM) (a : Nat) : Nat → Int
  | 0 => 0
  | n + 1 => freeIn p a n + p.freeAt (a + n)

theorem freeAtCases (p : PMM) (i : Nat) :
    (p.used i = true ∧ p.freeAt i = 0) ∨ (p.used i = false ∧ p.freeAt i = 1) := by
  unfold freeAt
  rw [isSetUsed]
  cases p.used i <;> simp

theorem freeInSlide (p : PMM) (a n : Nat) :
    p.freeIn (a + 1) n = p.freeIn a n + p.freeAt (a + n) - p.freeAt a := by
  induction n with
  | zero => simp [freeIn]
  | succ n ih =>
    have shift : a + 1 + n = a + (n + 1) := by omega
    simp only [freeIn, ih, shift]
    omega

theorem freeInLe (p : PMM) (a n : Nat) : p.freeIn a n ≤ n := by
  induction n with
  | zero => simp [freeIn]
  | succ n ih =>
    rcases p.freeAtCases (a + n) with ⟨-, one⟩ | ⟨-, one⟩ <;> simp only [freeIn, one] <;> omega

theorem freeInFull {p : PMM} {a n : Nat} (full : p.freeIn a n = n) :
    ∀ k, k < n → p.used (a + k) = false := by
  induction n with
  | zero => intro k below; omega
  | succ n ih =>
    have most := p.freeInLe a n
    simp only [freeIn] at full
    rcases p.freeAtCases (a + n) with ⟨-, one⟩ | ⟨clear, one⟩
    · rw [one] at full
      push_cast at full
      omega
    · rw [one] at full
      intro k below
      rcases Nat.lt_succ_iff_lt_or_eq.mp below with low | rfl
      · exact ih (by push_cast at full; omega) k low
      · exact clear

theorem freeInFold (p : PMM) (n : Nat) :
    (List.range n).foldl (fun free i => free + p.freeAt i) 0 = p.freeIn 0 n := by
  induction n with
  | zero => rfl
  | succ n ih =>
    rw [List.range_succ, List.foldl_append, ih]
    simp [freeIn]

def FreeRun (p : PMM) (s n : Nat) : Prop := ∀ k, k < n → p.bitmapIsSet (s + k) = false

theorem freeRunIff {p : PMM} {s n : Nat} : p.FreeRun s n ↔ p.freeIn s n = n := by
  constructor
  · intro clear
    induction n with
    | zero => rfl
    | succ n ih =>
      have last := clear n (by omega)
      have sum := ih (fun k below => clear k (by omega))
      simp [freeIn, sum, freeAt, last]
  · intro full k below
    rw [isSetUsed]
    exact freeInFull full k below

/- What the search may say about the runs that end at or before `limit`. -/
def Searched (p : PMM) (n limit : Nat) : Option Nat → Prop
  | some s => s + n ≤ limit ∧ p.FreeRun s n ∧ ∀ t, t < s → ¬ p.FreeRun t n
  | none => ∀ t, t + n ≤ limit → ¬ p.FreeRun t n

theorem windowLoopSpec {p : PMM} {n left i : Nat} {free : Int} (wide : n ≤ i)
    (sum : free = p.freeIn (i - n) n) (seen : ∀ t, t < i - n → ¬ p.FreeRun t n) :
    p.Searched n (i + left) (p.windowLoop n left i free) := by
  induction left generalizing i free with
  | zero =>
    simp only [windowLoop]
    by_cases full : free = n
    · rw [if_pos full]
      exact ⟨by omega, freeRunIff.mpr (by rw [← sum, full]), seen⟩
    · rw [if_neg full]
      intro t inside clear
      by_cases last : t = i - n
      · rw [last, freeRunIff, ← sum] at clear
        exact full clear
      · exact seen t (by omega) clear
  | succ left ih =>
    simp only [windowLoop]
    by_cases full : free = n
    · rw [if_pos full]
      exact ⟨by omega, freeRunIff.mpr (by rw [← sum, full]), seen⟩
    · rw [if_neg full]
      have next : i + 1 - n = i - n + 1 := by omega
      have last : i - n + n = i := by omega
      have slid : free + p.freeAt i - p.freeAt (i - n) = p.freeIn (i + 1 - n) n := by
        rw [next, freeInSlide, last, sum]
      have seen' : ∀ t, t < i + 1 - n → ¬ p.FreeRun t n := by
        intro t below clear
        by_cases here : t = i - n
        · rw [here, freeRunIff, ← sum] at clear
          exact full clear
        · exact seen t (by omega) clear
      have rest := ih (by omega) slid seen'
      rwa [Nat.add_right_comm i 1 left] at rest

theorem firstNFreeFramesSearch {p : PMM} {n : Nat} (small : n ≤ p.elementCnt) :
    p.Searched n (p.elementCnt * 64) (p.firstNFreeFrames n) := by
  have start : p.freeIn 0 n = p.freeIn (n - n) n := by rw [Nat.sub_self]
  have search := @windowLoopSpec p n (p.elementCnt * framesPerElement - n) n _ (Nat.le_refl n) start
    (fun t below => by omega)
  have limit : n + (p.elementCnt * framesPerElement - n) = p.elementCnt * 64 := by
    unfold framesPerElement
    omega
  unfold firstNFreeFrames
  rw [if_neg (Nat.not_lt.mpr small), freeInFold]
  rwa [limit] at search

theorem firstNFreeFramesSpec {p : PMM} {n f : Nat} (found : p.firstNFreeFrames n = some f) :
    f + n ≤ p.elementCnt * 64 ∧ ∀ k, k < n → p.used (f + k) = false := by
  by_cases small : n ≤ p.elementCnt
  · have search := firstNFreeFramesSearch small
    rw [found] at search
    obtain ⟨inside, clear, -⟩ := search
    exact ⟨inside, fun k below => by rw [← isSetUsed]; exact clear k below⟩
  · unfold firstNFreeFrames at found
    rw [if_pos (by omega)] at found
    contradiction

theorem takeFramesSpec {n f : Nat} {p : PMM} (clear : ∀ k, k < n → p.used (f + k) = false) :
    (∀ j, (takeFrames n f p).used j = if f ≤ j ∧ j < f + n then true else p.used j) ∧
      (takeFrames n f p).frameCnt = p.frameCnt ∧
      (takeFrames n f p).usedframes = p.usedframes + n ∧
      (f + n ≤ p.frameCnt → p.Balanced → (takeFrames n f p).Balanced) := by
  induction n generalizing f p with
  | zero =>
    refine ⟨fun j => ?_, rfl, by simp [takeFrames], fun _ balanced => balanced⟩
    rw [if_neg (by omega)]
    rfl
  | succ n ih =>
    have here : p.used f = false := clear 0 (by omega)
    let q : PMM := { p.bitmapSet f with usedframes := p.usedframes + 1 }
    have qUsed : ∀ j, q.used j = if j = f then true else p.used j := fun j => setUsed p f j
    obtain ⟨bits, frames, counter, balance⟩ := ih (f := f + 1) (p := q) (fun k below => by
      rw [qUsed, if_neg (by omega)]
      have := clear (k + 1) (by omega)
      rw [show f + 1 + k = f + (k + 1) by omega]
      exact this)
    have unfolded : takeFrames (n + 1) f p = takeFrames n (f + 1) q := rfl
    rw [unfolded]
    refine ⟨fun j => ?_, frames, ?_, ?_⟩
    · rw [bits j, qUsed]
      by_cases first : j = f
      · simp [first]
      · rw [if_neg first]
        by_cases later : f + 1 ≤ j ∧ j < f + 1 + n
        · rw [if_pos later, if_pos (by omega)]
        · rw [if_neg later, if_neg (by omega)]
    · rw [counter]
      show p.usedframes + 1 + (n : Int) = p.usedframes + ((n + 1 : Nat) : Int)
      push_cast
      omega
    · intro inside balanced
      refine balance (show f + 1 + n ≤ p.frameCnt by omega) ?_
      rw [balancedIff] at balanced ⊢
      have more := countSet (show f < p.frameCnt by omega) here
      show p.usedframes + 1 = (count (p.bitmapSet f).used p.frameCnt : Int)
      rw [more]
      push_cast
      omega

theorem allocNFramesCases (p : PMM) (n : Nat) :
    p.allocNFrames n = (p, 0) ∨
      ∃ f, p.allocNFrames n = (takeFrames n f p, f * frameSize) ∧ f + n ≤ p.elementCnt * 64 ∧
        ∀ k, k < n → p.used (f + k) = false := by
  unfold allocNFrames
  split
  · exact .inl rfl
  · cases found : p.firstNFreeFrames n with
    | none => exact .inl rfl
    | some f =>
      obtain ⟨inside, clear⟩ := firstNFreeFramesSpec found
      exact .inr ⟨f, rfl, inside, clear⟩

/- What is left of Balanced when frames past frameCnt are taken as well: no frame is used
without being counted. -/
def Counted (p : PMM) : Prop := (count p.used p.frameCnt : Int) ≤ p.usedframes

theorem countedSet {p : PMM} (counted : p.Counted) (f : Nat) :
    Counted { p.bitmapSet f with usedframes := p.usedframes + 1 } := by
  have most : count (p.bitmapSet f).used p.frameCnt ≤ count p.used p.frameCnt + 1 := by
    by_cases inside : f < p.frameCnt
    · cases taken : p.used f with
      | true =>
        have same : count (p.bitmapSet f).used p.frameCnt = count p.used p.frameCnt :=
          countCongr (fun k _ => by by_cases h : k = f <;> simp [h, taken])
        omega
      | false => exact le_of_eq (countSet inside taken)
    · have same : count (p.bitmapSet f).used p.frameCnt = count p.used p.frameCnt :=
        countCongr (fun k low => by simp [show k ≠ f by omega])
      omega
  unfold Counted at counted ⊢
  show (count (p.bitmapSet f).used p.frameCnt : Int) ≤ p.usedframes + 1
  omega

theorem takeFramesCounted {p : PMM} (counted : p.Counted) (n f : Nat) : (takeFrames n f p).Counted := by
  induction n generalizing f p with
  | zero => exact counted
  | succ n ih => exact ih (countedSet counted f) (f + 1)

theorem allocFrameCounted {p : PMM} (counted : p.Counted) (room : p.usedframes < p.frameCnt) :
    ∃ f, f < p.frameCnt ∧ p.used f = false ∧
      p.allocFrame = ({ p.bitmapSet f with usedframes := p.usedframes + 1 }, f * frameSize) := by
  unfold Counted at counted
  exact allocFrameTakes (by omega) (countLt (by omega))

theorem freeFrameSpec {p : PMM} {f : Nat} (inside : f < p.frameCnt) (taken : p.used f = true)
    (balanced : p.Balanced) :
    (p.freeFrame (f * frameSize)).Balanced ∧ (p.freeFrame (f * frameSize)).frameCnt = p.frameCnt ∧
      ∀ j, (p.freeFrame (f * frameSize)).used j = if j = f then false else p.used j := by
  have number : f * frameSize / frameSize = f := Nat.mul_div_cancel f (by unfold frameSize; omega)
  have freed : p.freeFrame (f * frameSize) =
      { p.bitmapUnset f with usedframes := p.usedframes - 1 } := by
    simp only [freeFrame, number, isSetUsed, taken, Bool.not_true, Bool.false_eq_true, if_false]
    rfl
  rw [freed]
  refine ⟨?_, rfl, fun j => unsetUsed p f j⟩
  rw [balancedIff] at balanced ⊢
  have less := countUnset inside taken
  show p.usedframes - 1 = (count (p.bitmapUnset f).used p.frameCnt : Int)
  omega

end PMM
end DimOS.Memory.Pmm
