import Mathlib
import DimOS.Graphics.FrameBuffer

/-! FrameBuffer::fillRect against the pixels of the rectangle that are on the screen. The right and
the bottom edge are clipped, the left and the top edge are not. -/
namespace DimOS.Graphics
open Filesystem.RamDisk (Buffer)
open Devices.Framebuffer (Copied clip clipInside clipPast)

structure Sums (pos dimension : Vec2) : Prop where
  x : fitsInt pos.x = true
  y : fitsInt pos.y = true
  width : fitsInt dimension.x = true
  height : fitsInt dimension.y = true
  right : fitsInt (pos.x + dimension.x) = true ∧ fitsInt (pos.x + dimension.x - 1) = true
  bottom : fitsInt (pos.y + dimension.y) = true ∧ fitsInt (pos.y + dimension.y - 1) = true

def Inside (pos dimension : Vec2) (x y : Nat) : Prop :=
  pos.x ≤ x ∧ x < pos.x + dimension.x ∧ pos.y ≤ y ∧ y < pos.y + dimension.y

/- The pixels of the rectangle show the color, all others and the bytes behind the screen are kept. -/
structure Filled (width height : Nat) (pos dimension : Vec2) (col : Color) (fb : Buffer) (s : Copied) : Prop where
  shown : ∀ x y b, x < width → y < height → b < 4 → Inside pos dimension x y →
    s.target (4 * (y * width + x) + b) = col.byte b
  kept : ∀ x y b, x < width → y < height → b < 4 → ¬ Inside pos dimension x y →
    s.target (4 * (y * width + x) + b) = fb (4 * (y * width + x) + b)
  outside : ∀ k, 4 * (width * height) ≤ k → s.target k = fb k
  inside : ∀ k ∈ s.touched, k < 4 * (width * height)

def Fills (width height : Nat) (pos dimension : Vec2) (col : Color) : Prop :=
  ∀ fb, ∃ s, fillRect width height (4 * (width * height)) pos dimension col fb = some s ∧
    Filled width height pos dimension col fb s

def lastRow (height : Nat) (pos dimension : Vec2) : Int := min (pos.y + dimension.y - 1) (height - 1)

def lastColumn (width : Nat) (pos dimension : Vec2) : Int := min (pos.x + dimension.x - 1) (width - 1)

def rowLength (width : Nat) (pos dimension : Vec2) : Int := lastColumn width pos dimension - pos.x + 1

/- No row is drawn; or rows without pixels, at positions that fit an int; or rows that start on the
screen and end below 2^32 bytes. -/
def Plain (width height : Nat) (pos dimension : Vec2) : Prop :=
  lastRow height pos dimension < pos.y ∨
    (rowLength width pos dimension = 0 ∧ ∀ i, pos.y ≤ i → i ≤ lastRow height pos dimension →
      fitsInt (i * width) = true ∧ fitsInt (i * width + pos.x) = true) ∨
    (0 < rowLength width pos dimension ∧ 0 ≤ pos.x ∧ 0 ≤ pos.y ∧
      4 * (lastRow height pos dimension * width + lastColumn width pos dimension + 1) < 2 ^ 32)

/- The rectangle starts on the screen's side of both edges, or no byte offset in front of the screen
comes back into it modulo 2^32. -/
def Tame (width height : Nat) (pos dimension : Vec2) : Prop :=
  (0 ≤ pos.x ∧ 0 ≤ pos.y) ∨
    (width * height < 2 ^ 30 ∧ (width * height : Int) - 2 ^ 30 < pos.y * width + pos.x ∧
      rowLength width pos dimension < 2 ^ 30)

variable {width height : Nat} {pos dimension : Vec2} {col : Color} {fb : Buffer}

theorem rowInversion {fbSize left : Nat} {x1 x2 i : Int} {s s' : Copied} (painted : Painted col fb s)
    (ran : fillRows width fbSize x1 x2 col (left + 1) i s = some s') :
    ∃ (count offset : Nat) (mid : Copied), x2 - x1 + 1 = count ∧
      (fitsInt (i * width) = true ∧ fitsInt (i * width + x1) = true) ∧
      offset = ((i * width + x1) * 4 % 2 ^ 32).toNat ∧
      (clip fbSize offset (count * 4 % 2 ^ 32) = 0 ∨ offset + clip fbSize offset (count * 4 % 2 ^ 32) < 2 ^ 32) ∧
      RowWritten col fb s mid offset (clip fbSize offset (count * 4 % 2 ^ 32)) ∧
      fillRows width fbSize x1 x2 col left (i + 1) mid = some s' := by
  rw [fillRows] at ran
  split at ran
  · split at ran
    · cases ran
    · next offset found =>
      split at ran
      · cases ran
      · next mid wrote =>
        split at ran
        · unfold getOffset at found
          split at found
          · next fits =>
            rw [Bool.and_eq_true] at fits
            have place := (Option.some.inj found).symm
            have counted : 0 ≤ x2 - x1 + 1 := by
              by_contra negative
              rw [writeRow, if_neg negative] at wrote
              cases wrote
            obtain ⟨count, length⟩ := Int.eq_ofNat_of_zero_le counted
            rw [length] at wrote
            have aligned : 4 ∣ offset := by
              simp only at place
              omega
            have low : offset < 2 ^ 32 := by
              simp only at place
              omega
            rcases @writeRowSpec fbSize offset count col _ _ painted aligned low with
              ⟨ends, mid', wrote', row⟩ | ⟨-, stuck⟩
            · cases Option.some.inj (wrote.symm.trans wrote')
              exact ⟨count, offset, mid, length, fits, place, ends, row, ran⟩
            · rw [stuck] at wrote
              cases wrote
          · cases found
        · cases ran
  · cases ran

theorem rowsRun {fbSize left : Nat} {x1 x2 i : Int} {s s' : Copied} (painted : Painted col fb s)
    (ran : fillRows width fbSize x1 x2 col left i s = some s') :
    Painted col fb s' ∧ (∀ j ∈ s.touched, j ∈ s'.touched) ∧
      (∀ j ∈ s'.touched, j ∈ s.touched ∨ j + 1 < 2 ^ 32) ∧
      ∀ k : Nat, k < left → fitsInt ((i + k) * width) = true ∧ fitsInt ((i + k) * width + x1) = true := by
  induction left generalizing i s with
  | zero =>
    cases Option.some.inj ran
    exact ⟨painted, fun _ mem => mem, fun _ mem => .inl mem, fun k low => absurd low (by omega)⟩
  | succ left ih =>
    obtain ⟨count, offset, mid, -, fits, -, ends, row, rest⟩ := rowInversion painted ran
    obtain ⟨painted', kept, short, later⟩ := ih row.painted rest
    refine ⟨painted', fun j mem => kept j ((row.touched j).mpr (.inl mem)), fun j mem => ?_, fun k low => ?_⟩
    · rcases short j mem with earlier | near
      · rcases (row.touched j).mp earlier with old | here
        · exact .inl old
        · right
          omega
      · exact .inr near
    · cases k with
      | zero => simpa using fits
      | succ k =>
        have next := later k (by omega)
        have same : i + 1 + (k : Int) = i + ((k + 1 : Nat) : Int) := by omega
        rwa [same] at next

theorem rowsPlain {left i x1 count : Nat} {s : Copied} (painted : Painted col fb s) (filled : 0 < count)
    (columns : x1 + count ≤ width)
    (rows : i + left ≤ height) (wide : width < 2 ^ 31) (tall : height < 2 ^ 31)
    (short : 4 * ((i + left - 1) * width + x1 + count) < 2 ^ 32) :
    ∃ s', fillRows width (4 * (width * height)) x1 (x1 + count - 1) col left i s = some s' ∧ Painted col fb s' ∧
      ∀ j, j ∈ s'.touched ↔ j ∈ s.touched ∨
        ∃ r, i ≤ r ∧ r < i + left ∧ 4 * (r * width + x1) ≤ j ∧ j < 4 * (r * width + x1 + count) := by
  induction left generalizing i s with
  | zero =>
    refine ⟨s, rfl, painted, fun j => ⟨.inl, ?_⟩⟩
    rintro (old | ⟨r, low, high, -⟩)
    · exact old
    · omega
  | succ left ih =>
    have first : i * width ≤ (i + (left + 1) - 1) * width := Nat.mul_le_mul_right _ (by omega)
    have inScreen : (i + 1) * width ≤ width * height := by
      rw [Nat.mul_comm]
      exact Nat.mul_le_mul_left _ (by omega)
    have expand : (i + 1) * width = i * width + width := Nat.succ_mul _ _
    have length : (x1 : Int) + count - 1 - x1 + 1 = count := by omega
    have place : (i : Int) * width + x1 = (i * width + x1 : Nat) := by push_cast; ring
    have product : fitsInt ((i : Int) * width) = true := by
      rw [fitsIntIff]
      have cast : (i : Int) * width = (i * width : Nat) := by push_cast; ring
      rw [cast]
      omega
    have offset : getOffset width ⟨x1, i⟩ = some (4 * (i * width + x1)) := getOffsetNat product place (by omega)
    have few : count * 4 % 2 ^ 32 = 4 * count := by omega
    have clipped : clip (4 * (width * height)) (4 * (i * width + x1)) (4 * count) = 4 * count := by
      have bound : width * height < 2 ^ 31 * 2 ^ 31 := Nat.mul_lt_mul'' wide tall
      rw [clipInside (by omega) (by omega)]
      omega
    have spec := @writeRowSpec (4 * (width * height)) (4 * (i * width + x1)) count col fb s painted
      ⟨_, rfl⟩ (by omega)
    rw [few, clipped] at spec
    rcases spec with ⟨-, mid, wrote, row⟩ | ⟨stuck, -⟩
    · obtain ⟨s', ran, painted', touched⟩ := @ih (i + 1) mid row.painted (by omega)
        (by rw [show i + 1 + left - 1 = i + (left + 1) - 1 by omega]; exact short)
      have fits : fitsInt ((x1 : Int) + count - 1 - x1) = true ∧ fitsInt (count : Int) = true := by
        simp only [fitsIntIff]
        omega
      have next : fitsInt ((i : Int) + 1) = true := by
        rw [fitsIntIff]
        omega
      refine ⟨s', ?_, painted', fun j => ?_⟩
      · rw [fillRows, length, fits.1, fits.2, Bool.and_self, if_pos rfl, offset]
        dsimp only
        rw [wrote]
        dsimp only
        rw [if_pos next]
        exact ran
      · rw [touched, row.touched]
        constructor
        · rintro ((old | here) | ⟨r, low, high, bytes⟩)
          · exact .inl old
          · exact .inr ⟨i, by omega, by omega, by omega, by omega⟩
          · exact .inr ⟨r, by omega, by omega, bytes⟩
        · rintro (old | ⟨r, low, high, bytes⟩)
          · exact .inl (.inl old)
          · by_cases here : r = i
            · subst here
              exact .inl (.inr (by omega))
            · exact .inr ⟨r, by omega, by omega, bytes⟩
    · omega

theorem rowsEmpty {fbSize left : Nat} {x1 x2 i : Int} {s : Copied} (painted : Painted col fb s)
    (none : x2 - x1 + 1 = 0)
    (fits : ∀ k : Nat, k < left → fitsInt ((i + k) * width) = true ∧ fitsInt ((i + k) * width + x1) = true ∧
      fitsInt (i + k + 1) = true) :
    ∃ s', fillRows width fbSize x1 x2 col left i s = some s' ∧ Painted col fb s' ∧
      ∀ j, j ∈ s'.touched ↔ j ∈ s.touched := by
  induction left generalizing i s with
  | zero => exact ⟨s, rfl, painted, fun j => Iff.rfl⟩
  | succ left ih =>
    have first := fits 0 (by omega)
    simp only [Nat.cast_zero, Int.add_zero] at first
    obtain ⟨product, sum, next⟩ := first
    have difference : x2 - x1 = -1 := by omega
    have lengths : fitsInt (x2 - x1) = true ∧ fitsInt (x2 - x1 + 1) = true := by
      rw [difference]
      decide
    have offset := @getOffsetEq width ⟨x1, i⟩ product sum
    have zero : clip fbSize ((i * width + x1) * 4 % 2 ^ 32).toNat (0 * 4 % 2 ^ 32) = 0 := Nat.zero_min _
    have spec := @writeRowSpec fbSize ((i * width + x1) * 4 % 2 ^ 32).toNat 0 col fb s painted
      (by omega) (by omega)
    rw [zero] at spec
    rcases spec with ⟨-, mid, wrote, row⟩ | ⟨stuck, -⟩
    · obtain ⟨s', ran, painted', touched⟩ := @ih (i + 1) mid row.painted (fun k low => by
        have later := fits (k + 1) (by omega)
        have same : i + 1 + (k : Int) = i + ((k + 1 : Nat) : Int) := by omega
        rwa [same])
      refine ⟨s', ?_, painted', fun j => ?_⟩
      · rw [fillRows, lengths.1, lengths.2, Bool.and_self, if_pos rfl, offset, none]
        dsimp only
        have count : ((0 : Nat) : Int) = 0 := rfl
        rw [count] at wrote
        rw [wrote]
        dsimp only
        rw [if_pos next]
        exact ran
      · rw [touched, row.touched]
        exact or_iff_left (by omega)
    · exact absurd (Or.inl rfl) stuck

theorem fillRectEq (sums : Sums pos dimension) (wide : width < 2 ^ 31) (tall : height < 2 ^ 31) (fbSize : Nat) :
    fillRect width height fbSize pos dimension col fb =
      fillRows width fbSize pos.x (lastColumn width pos dimension) col
        (lastRow height pos dimension - pos.y + 1).toNat pos.y ⟨fb, []⟩ := by
  have columns : fitsInt ((width : Int) - 1) = true := by rw [fitsIntIff]; omega
  have rows : fitsInt ((height : Int) - 1) = true := by rw [fitsIntIff]; omega
  rw [fillRect, sums.right.1, sums.right.2, sums.bottom.1, sums.bottom.2, columns, rows]
  rfl

theorem filledOf {s : Copied} (painted : Painted col fb s)
    (pixels : ∀ x y b, x < width → y < height → b < 4 →
      (4 * (y * width + x) + b ∈ s.touched ↔ Inside pos dimension x y))
    (within : ∀ k ∈ s.touched, k < 4 * (width * height)) : Filled width height pos dimension col fb s where
  shown x y b column row byte here := by
    have lane : (4 * (y * width + x) + b) % 4 = b := by omega
    rw [painted, if_pos ((pixels x y b column row byte).mpr here), lane]
  kept x y b column row byte away := by
    rw [painted, if_neg (fun mem => away ((pixels x y b column row byte).mp mem))]
  outside k high := by rw [painted, if_neg (fun mem => by have := within k mem; omega)]
  inside := within

theorem pixelRow {r y x x1 count b : Nat} (columns : x1 + count ≤ width) (column : x < width) (byte : b < 4) :
    4 * (r * width + x1) ≤ 4 * (y * width + x) + b ∧ 4 * (y * width + x) + b < 4 * (r * width + x1 + count) ↔
      r = y ∧ x1 ≤ x ∧ x < x1 + count := by
  constructor
  · rintro ⟨low, high⟩
    have same : r = y := by
      rcases Nat.lt_trichotomy r y with less | same | more
      · have next : (r + 1) * width ≤ y * width := Nat.mul_le_mul_right _ less
        have expand : (r + 1) * width = r * width + width := Nat.succ_mul _ _
        omega
      · exact same
      · have next : (y + 1) * width ≤ r * width := Nat.mul_le_mul_right _ more
        have expand : (y + 1) * width = y * width + width := Nat.succ_mul _ _
        omega
    subst same
    omega
  · rintro ⟨rfl, low, high⟩
    omega

theorem insideRows {x y : Nat} (column : x < width) (row : y < height) :
    Inside pos dimension x y ↔ (pos.x ≤ x ∧ x ≤ lastColumn width pos dimension) ∧
      pos.y ≤ y ∧ y ≤ lastRow height pos dimension := by
  unfold Inside lastColumn lastRow
  omega

theorem fillsPlain (sums : Sums pos dimension) (wide : width < 2 ^ 31) (tall : height < 2 ^ 31)
    (plain : Plain width height pos dimension) : Fills width height pos dimension col := by
  intro fb
  rw [fillRectEq sums wide tall]
  have start := startPainted col fb
  have bottom : lastRow height pos dimension ≤ height - 1 := min_le_right _ _
  have right : lastColumn width pos dimension ≤ width - 1 := min_le_right _ _
  have top := (fitsIntIff _).mp sums.y
  by_cases noRow : lastRow height pos dimension < pos.y
  · refine ⟨⟨fb, []⟩, ?_, filledOf start (fun x y b column row _ => ?_) (by simp)⟩
    · rw [show (lastRow height pos dimension - pos.y + 1).toNat = 0 by omega, fillRows]
    · rw [insideRows column row]
      simp only [List.not_mem_nil, false_iff]
      omega
  rcases plain with none | ⟨none, fits⟩ | ⟨some, left, above, short⟩
  · exact absurd none noRow
  · obtain ⟨s, ran, painted, touched⟩ := @rowsEmpty width col fb (4 * (width * height))
      (lastRow height pos dimension - pos.y + 1).toNat _ _ pos.y _ start none (fun k low => by
        obtain ⟨product, sum⟩ := fits (pos.y + k) (by omega) (by omega)
        exact ⟨product, sum, by rw [fitsIntIff]; omega⟩)
    unfold rowLength at none
    refine ⟨s, ran, filledOf painted (fun x y b column row _ => ?_) (fun k mem => ?_)⟩
    · rw [insideRows column row, touched]
      simp only [List.not_mem_nil, false_iff]
      omega
    · rw [touched] at mem
      cases mem
  · unfold rowLength at some
    obtain ⟨x1, hx⟩ := Int.eq_ofNat_of_zero_le left
    obtain ⟨y1, hy⟩ := Int.eq_ofNat_of_zero_le above
    obtain ⟨count, length⟩ := Int.eq_ofNat_of_zero_le (show 0 ≤ lastColumn width pos dimension - pos.x + 1 by omega)
    obtain ⟨rows, number⟩ := Int.eq_ofNat_of_zero_le (show 0 ≤ lastRow height pos dimension - pos.y + 1 by omega)
    have column2 : lastColumn width pos dimension = (x1 : Int) + count - 1 := by omega
    have row2 : lastRow height pos dimension = ((y1 + rows - 1 : Nat) : Int) := by omega
    have bound : 4 * ((y1 + rows - 1) * width + x1 + count) < 2 ^ 32 := by
      rw [row2, column2] at short
      have cast : (((y1 + rows - 1 : Nat) : Int) * width) = (((y1 + rows - 1) * width : Nat) : Int) := by push_cast; rfl
      rw [cast] at short
      omega
    obtain ⟨s, ran, painted, touched⟩ := @rowsPlain width height col fb rows y1 x1 count _ start (by omega) (by omega) (by omega) wide tall bound
    refine ⟨s, ?_, filledOf painted (fun x y b column row byte => ?_) (fun k mem => ?_)⟩
    · rw [number, Int.toNat_natCast, column2, hx, hy]
      exact ran
    · rw [insideRows column row, touched]
      simp only [List.not_mem_nil, false_or]
      constructor
      · rintro ⟨r, low, high, bytes⟩
        obtain ⟨rfl, first, last⟩ := (pixelRow (by omega) column byte).mp bytes
        omega
      · rintro ⟨⟨first, last⟩, low, high⟩
        exact ⟨y, by omega, by omega, (pixelRow (by omega) column byte).mpr ⟨rfl, by omega, by omega⟩⟩
    · obtain old | ⟨r, low, high, -, end'⟩ := (touched k).mp mem
      · cases old
      · have inScreen : (r + 1) * width ≤ width * height := by
          rw [Nat.mul_comm]
          exact Nat.mul_le_mul_left _ (by omega)
        have expand : (r + 1) * width = r * width + width := Nat.succ_mul _ _
        omega

theorem rowBefore {fbSize left count : Nat} {x1 x2 y1 : Int} {s : Copied}
    (ran : fillRows width fbSize x1 x2 col left y1 ⟨fb, []⟩ = some s) (drawn : 0 < left)
    (length : x2 - x1 + 1 = count) (filled : 0 < count) (few : count < 2 ^ 30) (negative : y1 * width + x1 < 0)
    (near : (fbSize : Int) < 4 * (y1 * width + x1) + 2 ^ 32) : ∃ k ∈ s.touched, fbSize ≤ k := by
  obtain ⟨left, rfl⟩ : ∃ k, left = k + 1 := ⟨left - 1, by omega⟩
  obtain ⟨count', offset, mid, length', -, place, ends, row, rest⟩ := rowInversion (startPainted col fb) ran
  obtain ⟨-, kept, -⟩ := rowsRun row.painted rest
  have same : count' = count := by omega
  subst same
  generalize y1 * width + x1 = pixel at *
  have past : fbSize < offset := by omega
  have clipped : clip fbSize offset (count' * 4 % 2 ^ 32) = count' * 4 % 2 ^ 32 := clipPast past (by omega) (by omega)
  rw [clipped] at row
  exact ⟨offset, kept offset ((row.touched offset).mpr (.inr (by omega))), by omega⟩

theorem rowAbove {left count pixel : Nat} {x1 x2 y1 : Int} {s : Copied}
    (ran : fillRows width (4 * (width * height)) x1 x2 col left y1 ⟨fb, []⟩ = some s) (drawn : 0 < left)
    (length : x2 - x1 + 1 = count) (filled : 0 < count) (few : count < 2 ^ 30) (here : y1 * width + x1 = pixel)
    (inside : pixel < width * height) (screen : width * height < 2 ^ 30) : 4 * pixel ∈ s.touched := by
  obtain ⟨left, rfl⟩ : ∃ k, left = k + 1 := ⟨left - 1, by omega⟩
  obtain ⟨count', offset, mid, length', -, place, ends, row, rest⟩ := rowInversion (startPainted col fb) ran
  obtain ⟨-, kept, -⟩ := rowsRun row.painted rest
  have same : count' = count := by omega
  subst same
  rw [here] at place
  have start : offset = 4 * pixel := by omega
  rw [clipInside (by omega) (by omega)] at row
  exact kept _ ((row.touched _).mpr (.inr (by omega)))

theorem plainFills (sums : Sums pos dimension) (wide : width < 2 ^ 31) (tall : height < 2 ^ 31)
    (tame : Tame width height pos dimension) (fills : Fills width height pos dimension col) :
    Plain width height pos dimension := by
  obtain ⟨s, ran, filled⟩ := fills (otherBytes col)
  rw [fillRectEq sums wide tall] at ran
  have bottom : lastRow height pos dimension ≤ height - 1 := min_le_right _ _
  have right : lastColumn width pos dimension ≤ width - 1 := min_le_right _ _
  by_cases noRow : lastRow height pos dimension < pos.y
  · exact .inl noRow
  obtain ⟨rows, number⟩ := Int.eq_ofNat_of_zero_le (show 0 ≤ lastRow height pos dimension - pos.y by omega)
  rw [show (lastRow height pos dimension - pos.y + 1).toNat = rows + 1 by omega] at ran
  obtain ⟨painted, -, short, fits⟩ := rowsRun (startPainted col (otherBytes col)) ran
  obtain ⟨count, -, -, length, -⟩ := rowInversion (startPainted col (otherBytes col)) ran
  right
  rcases Nat.eq_zero_or_pos count with rfl | positive
  · left
    refine ⟨length, fun i low high => ?_⟩
    obtain ⟨k, place⟩ := Int.eq_ofNat_of_zero_le (show 0 ≤ i - pos.y by omega)
    have row := fits k (by omega)
    rwa [show pos.y + (k : Int) = i by omega] at row
  right
  have shownMeans : ∀ x y, x < width → y < height → Inside pos dimension x y → 4 * (y * width + x) + 3 ∈ s.touched := by
    intro x y column row here
    by_contra missing
    have shown := filled.shown x y 3 column row (by decide) here
    have lane : (4 * (y * width + x) + 3) % 4 = 3 := by omega
    rw [painted, if_neg missing, otherBytes, lane] at shown
    exact byteSucc _ shown
  have keptMeans : ∀ x y, x < width → y < height → ¬ Inside pos dimension x y → 4 * (y * width + x) ∉ s.touched := by
    intro x y column row away mem
    have kept := filled.kept x y 0 column row (by decide) away
    rw [Nat.add_zero, painted, if_pos mem, otherBytes] at kept
    exact byteSucc _ kept.symm
  have origin : 0 ≤ pos.x ∧ 0 ≤ pos.y := by
    rcases tame with origin | ⟨screen, near, few⟩
    · exact origin
    unfold rowLength at few
    have area : ((width * height : Nat) : Int) = (width : Int) * height := by push_cast; rfl
    by_cases negative : pos.y * width + pos.x < 0
    · obtain ⟨k, mem, far⟩ := rowBefore ran (by omega) length positive (by omega) negative (by push_cast; omega)
      exact absurd (filled.inside k mem) (by omega)
    by_contra outside
    obtain ⟨pixel, here⟩ := Int.eq_ofNat_of_zero_le (show 0 ≤ pos.y * width + pos.x by omega)
    have columns : (0 : Int) < width := by
      by_contra none
      have zero : (width : Int) = 0 := by omega
      rw [zero, Int.mul_zero] at here
      omega
    have below : 0 < pos.y := by
      by_contra above
      have product : pos.y * width ≤ 0 := Int.mul_nonpos_of_nonpos_of_nonneg (by omega) (by omega)
      by_cases left : pos.x < 0
      · omega
      · have row : pos.y * width ≤ -1 * width := Int.mul_le_mul_of_nonneg_right (by omega) (by omega)
        omega
    have left : pos.x < 0 := by omega
    obtain ⟨y1, hy⟩ := Int.eq_ofNat_of_zero_le (show 0 ≤ pos.y by omega)
    have cast : pos.y * width = (y1 * width : Nat) := by rw [hy]; push_cast; rfl
    have before : pixel < y1 * width := by omega
    have last : y1 * width ≤ (height - 1) * width := Nat.mul_le_mul_right _ (by omega)
    have inScreen : (height - 1) * width + width ≤ width * height := by
      have rows : height - 1 + 1 = height := by omega
      rw [← Nat.succ_mul, Nat.succ_eq_add_one, rows, Nat.mul_comm]
    have touched := rowAbove ran (by omega) length positive (by omega) here (by omega) screen
    have above : pixel / width < y1 := Nat.div_lt_of_lt_mul (by rw [Nat.mul_comm]; exact before)
    have split := Nat.div_add_mod' pixel width
    refine keptMeans (pixel % width) (pixel / width) (Nat.mod_lt _ (by omega)) (by omega) ?_ (by rwa [split])
    unfold Inside
    omega
  refine ⟨by unfold rowLength; omega, origin.1, origin.2, ?_⟩
  by_contra long
  obtain ⟨x2, hx⟩ := Int.eq_ofNat_of_zero_le (show 0 ≤ lastColumn width pos dimension by omega)
  obtain ⟨y2, hy⟩ := Int.eq_ofNat_of_zero_le (show 0 ≤ lastRow height pos dimension by omega)
  have column : x2 < width := by omega
  have row : y2 < height := by omega
  have mem := shownMeans x2 y2 column row ((insideRows column row).mpr (by omega))
  rw [hx, hy] at long
  have cast : (y2 : Int) * width = (y2 * width : Nat) := by push_cast; rfl
  rw [cast] at long
  rcases short _ mem with old | near
  · cases old
  · omega

/-- A plain rectangle is filled, and where no offset in front of the screen comes back into it no
other rectangle is. -/
theorem fillRectIff (col : Color) (sums : Sums pos dimension) (wide : width < 2 ^ 31) (tall : height < 2 ^ 31) :
    (Plain width height pos dimension → Fills width height pos dimension col) ∧
      (Tame width height pos dimension →
        (Fills width height pos dimension col ↔ Plain width height pos dimension)) :=
  ⟨fillsPlain sums wide tall, fun tame => ⟨plainFills sums wide tall tame, fillsPlain sums wide tall⟩⟩

/- The apple of the snake. -/
theorem fillRectApple : Tame 1280 800 ⟨200, 200⟩ ⟨40, 40⟩ ∧ Fills 1280 800 ⟨200, 200⟩ ⟨40, 40⟩ ⟨0, 0, 255, 255⟩ := by
  have plain : Plain 1280 800 ⟨200, 200⟩ ⟨40, 40⟩ := .inr (.inr ⟨by decide, by decide, by decide, by decide⟩)
  have tame : Tame 1280 800 ⟨200, 200⟩ ⟨40, 40⟩ := .inl ⟨by decide, by decide⟩
  obtain ⟨-, exact'⟩ := @fillRectIff 1280 800 ⟨200, 200⟩ ⟨40, 40⟩ ⟨0, 0, 255, 255⟩
    ⟨by decide, by decide, by decide, by decide, by decide, by decide⟩ (by decide) (by decide)
  exact ⟨tame, (exact' tame).mpr plain⟩

/- The head of the snake one step left of the screen, in its third row. -/
theorem fillRectLeft : ¬ Fills 1280 800 ⟨-40, 80⟩ ⟨40, 40⟩ ⟨0, 165, 255, 0⟩ := by
  intro fills
  have plain := plainFills ⟨by decide, by decide, by decide, by decide, by decide, by decide⟩ (by decide) (by decide)
    (.inr ⟨by decide, by decide, by decide⟩) fills
  rcases plain with none | ⟨none, -⟩ | ⟨-, left, -⟩
  · revert none
    decide
  · revert none
    decide
  · revert left
    decide

end DimOS.Graphics
