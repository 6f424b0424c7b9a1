import Mathlib
import DimOS.Devices.Framebuffer

/-! gfx::FrameBuffer over the framebuffer device. Positions and lengths are of type int, and what
does not fit one is undefined; the byte offset and the number of bytes are converted to uint32_t. -/
namespace DimOS.Graphics
open Filesystem.RamDisk (Buffer)
open Devices.Framebuffer (Copied clip clipInside clipLe copies copyLoopIte copiesTouched copiesWritten writeByte)

structure Color where
  r : BitVec 8
  g : BitVec 8
  b : BitVec 8
  a : BitVec 8
  deriving DecidableEq

def Color.byte (col : Color) : Nat → BitVec 8
  | 0 => col.r
  | 1 => col.g
  | 2 => col.b
  | _ => col.a

structure Vec2 where
  x : Int
  y : Int

def fitsInt (v : Int) : Bool := -2 ^ 31 ≤ v && v < 2 ^ 31

/- `static int grid`. -/
def grid : Int := 64

/- FrameBuffer::getOffset. -/
def getOffset (width : Int) (pos : Vec2) : Option Nat :=
  if fitsInt (pos.y * width) && fitsInt (pos.y * width + pos.x) then
    some (((pos.y * width + pos.x) * 4) % 2 ^ 32).toNat
  else none

/- The memory behind the device and the bytes of it that were written. -/
def fbWrite (fbSize offset size : Nat) (buffer : Buffer) (s : Copied) : Option Copied :=
  (Devices.Framebuffer.write (2 ^ 32) fbSize s.target offset size buffer).map fun out =>
    ⟨out.1.target, out.1.touched ++ s.touched⟩

def rowBytes (col : Color) : Buffer := fun k => col.byte (k % 4)

/- `Vector<Color> row(count, col)` and the write of it. A negative count is an allocation and a fill
that no memory holds. -/
def writeRow (fbSize : Nat) (count : Int) (col : Color) (offset : Nat) (s : Copied) : Option Copied :=
  if 0 ≤ count then fbWrite fbSize offset (count.toNat * 4 % 2 ^ 32) (rowBytes col) s else none

/- `left` rounds are enough for `left` rows. -/
def clscrLoop (width height : Int) (fbSize : Nat) (col : Color) : Nat → Int → Copied → Option Copied
  | 0, _, _ => none
  | left + 1, i, s =>
    if i < height then
      if fitsInt (width * grid) then
        match getOffset width ⟨0, i⟩ with
        | none => none
        | some offset =>
          match writeRow fbSize (width * grid) col offset s with
          | none => none
          | some s => if fitsInt (i + grid) then clscrLoop width height fbSize col left (i + grid) s else none
      else none
    else some s

def clscr (width height : Int) (fbSize : Nat) (col : Color) (fb : Buffer) : Option Copied :=
  clscrLoop width height fbSize col (height.toNat + 1) 0 ⟨fb, []⟩

/- The loop of fillRect with `left` rows to go. -/
def fillRows (width : Int) (fbSize : Nat) (x1 x2 : Int) (col : Color) : Nat → Int → Copied → Option Copied
  | 0, _, s => some s
  | left + 1, i, s =>
    if fitsInt (x2 - x1) && fitsInt (x2 - x1 + 1) then
      match getOffset width ⟨x1, i⟩ with
      | none => none
      | some offset =>
        match writeRow fbSize (x2 - x1 + 1) col offset s with
        | none => none
        | some s => if fitsInt (i + 1) then fillRows width fbSize x1 x2 col left (i + 1) s else none
    else none

def fillRect (width height : Int) (fbSize : Nat) (pos dimension : Vec2) (col : Color) (fb : Buffer) : Option Copied :=
  if fitsInt (pos.y + dimension.y) && fitsInt (pos.y + dimension.y - 1) && fitsInt (height - 1) &&
      fitsInt (pos.x + dimension.x) && fitsInt (pos.x + dimension.x - 1) && fitsInt (width - 1) then
    let y1 := pos.y
    let y2 := min (pos.y + dimension.y - 1) (height - 1)
    let x1 := pos.x
    let x2 := min (pos.x + dimension.x - 1) (width - 1)
    fillRows width fbSize x1 x2 col (y2 - y1 + 1).toNat y1 ⟨fb, []⟩
  else none

def Painted (col : Color) (fb : Buffer) (s : Copied) : Prop :=
  ∀ k, s.target k = if k ∈ s.touched then col.byte (k % 4) else fb k

theorem fitsIntIff (v : Int) : fitsInt v = true ↔ -2 ^ 31 ≤ v ∧ v < 2 ^ 31 := by
  simp [fitsInt]

structure RowWritten (col : Color) (fb : Buffer) (s s' : Copied) (offset len : Nat) : Prop where
  painted : Painted col fb s'
  touched : ∀ j, j ∈ s'.touched ↔ j ∈ s.touched ∨ (offset ≤ j ∧ j < offset + len)

theorem writeRowSpec {fbSize offset count : Nat} {col : Color} {fb : Buffer} {s : Copied} (painted : Painted col fb s)
    (aligned : 4 ∣ offset) (low : offset < 2 ^ 32) :
    (clip fbSize offset (count * 4 % 2 ^ 32) = 0 ∨ offset + clip fbSize offset (count * 4 % 2 ^ 32) < 2 ^ 32) ∧
        (∃ s', writeRow fbSize count col offset s = some s' ∧
          RowWritten col fb s s' offset (clip fbSize offset (count * 4 % 2 ^ 32))) ∨
      ¬ (clip fbSize offset (count * 4 % 2 ^ 32) = 0 ∨ offset + clip fbSize offset (count * 4 % 2 ^ 32) < 2 ^ 32) ∧
        writeRow fbSize count col offset s = none := by
  have few : count * 4 % 2 ^ 32 < 2 ^ 32 := Nat.mod_lt _ (by decide)
  have most := clipLe fbSize offset (count * 4 % 2 ^ 32)
  have loop := @copyLoopIte offset (clip fbSize offset (count * 4 % 2 ^ 32))
    (writeByte (rowBytes col) offset) ⟨s.target, []⟩ low (by omega)
  rw [writeRow, if_pos (by omega), Int.toNat_natCast, fbWrite, Devices.Framebuffer.write]
  rw [loop]
  generalize clip fbSize offset (count * 4 % 2 ^ 32) = len at *
  by_cases ends : len = 0 ∨ offset + len < 2 ^ 32
  · left
    rw [if_pos ends]
    refine ⟨ends, _, rfl, ?_, ?_⟩
    · intro k
      simp only [List.mem_append, copiesTouched, List.not_mem_nil, false_or]
      rw [copiesWritten _ (Nat.le_refl _) (by omega)]
      by_cases here : offset ≤ k ∧ k < offset + len
      · rw [if_pos here, if_pos (.inl here)]
        obtain ⟨pixel, rfl⟩ := aligned
        have same : (k - 4 * pixel) % 4 = k % 4 := by omega
        rw [rowBytes, same]
      · rw [if_neg here, painted k]
        simp only [here, false_or]
    · intro j
      simp only [List.mem_append, copiesTouched, List.not_mem_nil, false_or]
      exact or_comm
  · exact .inr ⟨ends, by rw [if_neg ends]; rfl⟩

theorem getOffsetEq {width : Int} {pos : Vec2} (product : fitsInt (pos.y * width) = true)
    (sum : fitsInt (pos.y * width + pos.x) = true) :
    getOffset width pos = some (((pos.y * width + pos.x) * 4) % 2 ^ 32).toNat := by
  rw [getOffset, product, sum]
  rfl

theorem getOffsetNat {width : Int} {pos : Vec2} {pixel : Nat} (product : fitsInt (pos.y * width) = true)
    (sum : pos.y * width + pos.x = pixel) (low : pixel < 2 ^ 30) : getOffset width pos = some (4 * pixel) := by
  have bytes : ((pixel : Int) * 4 % 2 ^ 32).toNat = 4 * pixel := by omega
  rw [getOffsetEq product (by rw [fitsIntIff, sum]; omega), sum, bytes]

structure Cleared (width height : Nat) (col : Color) (fb : Buffer) (s : Copied) : Prop where
  pixels : ∀ k, k < 4 * (width * height) → s.target k = col.byte (k % 4)
  outside : ∀ k, 4 * (width * height) ≤ k → s.target k = fb k
  inside : ∀ k ∈ s.touched, k < 4 * (width * height)

def Clears (width height : Nat) (col : Color) : Prop :=
  ∀ fb, ∃ s, clscr width height (4 * (width * height)) col fb = some s ∧ Cleared width height col fb s

theorem clearedOf {width height : Nat} {col : Color} {fb : Buffer} {s : Copied} (painted : Painted col fb s)
    (touched : ∀ k, k ∈ s.touched ↔ k < 4 * (width * height)) : Cleared width height col fb s where
  pixels k low := by rw [painted k, if_pos ((touched k).mpr low)]
  outside k high := by rw [painted k, if_neg (fun mem => by have := (touched k).mp mem; omega)]
  inside k mem := (touched k).mp mem

def otherBytes (col : Color) : Buffer := fun k => col.byte (k % 4) + 1#8

theorem byteSucc (c : BitVec 8) : c + 1#8 ≠ c := by
  revert c
  decide

theorem touchedOf {width height : Nat} {col : Color} {s : Copied} (painted : Painted col (otherBytes col) s)
    (cleared : Cleared width height col (otherBytes col) s) (k : Nat) (low : k < 4 * (width * height)) :
    k ∈ s.touched := by
  by_contra missing
  have shown := cleared.pixels k low
  rw [painted k, if_neg missing] at shown
  exact byteSucc _ shown

theorem startPainted (col : Color) (fb : Buffer) : Painted col fb ⟨fb, []⟩ := by
  intro k
  rfl

theorem clscrStep {width height i left : Nat} {col : Color} {fb : Buffer} {s : Copied} (painted : Painted col fb s)
    (filled : 0 < width) (small : 4 * (width * height) < 2 ^ 31) (narrow : width < 2 ^ 25) (more : i < height) :
    ∃ s', clscrLoop width height (4 * (width * height)) col (left + 1) i s =
        clscrLoop width height (4 * (width * height)) col left ((i + 64 : Nat) : Int) s' ∧
      RowWritten col fb s s' (4 * (width * i))
        (min (width * 64 * 4 % 2 ^ 32) (4 * (width * height) - 4 * (width * i))) := by
  have before : width * i ≤ width * height := Nat.mul_le_mul_left _ (by omega)
  have rows : height ≤ width * height := Nat.le_mul_of_pos_left _ filled
  have place : (i : Int) * width = (width * i : Nat) := by push_cast; ring
  have chunk : (width : Int) * grid = (width * 64 : Nat) := by simp [grid]
  have wide : fitsInt (width * grid) = true := by rw [fitsIntIff, chunk]; omega
  have next : (i : Int) + grid = ((i + 64 : Nat) : Int) := by simp [grid]
  have fits : fitsInt ((i + 64 : Nat) : Int) = true := by rw [fitsIntIff]; omega
  have product : fitsInt ((i : Int) * width) = true := by rw [fitsIntIff, place]; omega
  have offset : getOffset width ⟨0, i⟩ = some (4 * (width * i)) :=
    getOffsetNat product (by rw [place, Int.add_zero]) (by omega)
  have clipped := @clipInside (4 * (width * height)) (4 * (width * i))
    (width * 64 * 4 % 2 ^ 32) (by omega) (by omega)
  rcases @writeRowSpec (4 * (width * height)) (4 * (width * i)) (width * 64) col fb s painted
    ⟨_, rfl⟩ (by omega) with ⟨-, s', wrote, row⟩ | ⟨stuck, -⟩
  · rw [clipped] at row
    refine ⟨s', ?_, row⟩
    rw [clscrLoop, if_pos (by omega), if_pos wide, offset, chunk]
    dsimp only
    rw [wrote]
    dsimp only
    rw [next, if_pos fits]
  · rw [clipped] at stuck
    omega

theorem clscrRun {width height : Nat} {col : Color} {fb : Buffer} (filled : 0 < width)
    (small : 4 * (width * height) < 2 ^ 31) (narrow : width < 2 ^ 24) {left i : Nat} {s : Copied}
    (painted : Painted col fb s) (above : ∀ k, k ∈ s.touched ↔ k < min (4 * (width * i)) (4 * (width * height)))
    (enough : height < left + i) (ready : 0 < left) :
    ∃ s', clscrLoop width height (4 * (width * height)) col left i s = some s' ∧ Painted col fb s' ∧
      ∀ k, k ∈ s'.touched ↔ k < 4 * (width * height) := by
  induction left generalizing i s with
  | zero => omega
  | succ left ih =>
    by_cases more : i < height
    · obtain ⟨s', step, row⟩ := @clscrStep width height i left col fb s painted filled small (by omega) more
      have inside : width * i ≤ width * height := Nat.mul_le_mul_left _ (by omega)
      have further : width * (i + 64) = width * i + width * 64 := Nat.mul_add _ _ _
      obtain ⟨out, ran, rest⟩ := @ih (i + 64) s' row.painted (fun k => by rw [row.touched, above]; omega) (by omega) (by omega)
      exact ⟨out, by rw [step, ran], rest⟩
    · have all : width * height ≤ width * i := Nat.mul_le_mul_left _ (by omega)
      refine ⟨s, ?_, painted, fun k => by rw [above]; omega⟩
      rw [clscrLoop, if_neg (by omega)]

theorem clscrWide {width height : Nat} {col : Color} {fb : Buffer} (filled : 0 < height)
    (small : 4 * (width * height) < 2 ^ 31) (wide : 2 ^ 24 ≤ width) (narrow : width < 2 ^ 25) :
    ∃ s, clscr width height (4 * (width * height)) col fb = some s ∧ Painted col fb s ∧
      ∀ k, k ∈ s.touched ↔ k < min (width * 256 - 2 ^ 32) (4 * (width * height)) := by
  have few : height < 64 := by
    by_contra many
    have product : 2 ^ 24 * 64 ≤ width * height := Nat.mul_le_mul wide (by omega)
    omega
  obtain ⟨left, rows⟩ : ∃ left, height = left + 1 := ⟨height - 1, by omega⟩
  obtain ⟨s, step, row⟩ := @clscrStep width height 0 (left + 1) col fb _ (startPainted col fb) (by omega) small narrow
    filled
  refine ⟨s, ?_, row.painted, fun k => ?_⟩
  · rw [clscr, Int.toNat_natCast, show height + 1 = left + 1 + 1 by omega]
    have first : ((0 : Nat) : Int) = 0 := rfl
    rw [first] at step
    rw [step, clscrLoop, if_neg (by omega)]
  · rw [row.touched]
    simp only [List.not_mem_nil, false_or, Nat.mul_zero]
    omega

theorem clscrOver {width height fbSize : Nat} {col : Color} {fb : Buffer} (filled : 0 < height)
    (wide : 2 ^ 25 ≤ width) : clscr width height fbSize col fb = none := by
  have long : ¬ fitsInt (width * grid) = true := by
    rw [fitsIntIff]
    simp only [grid]
    omega
  rw [clscr, clscrLoop, if_pos (by omega), if_neg long]

/-- Clearing works exactly for the widths whose 64 rows have less than 2^32 bytes, and for the somewhat
larger ones where the bytes that are left after the conversion still cover the screen. -/
theorem clearsIff {width height : Nat} (col : Color) (columns : 1 ≤ width) (rows : 1 ≤ height)
    (small : 4 * (width * height) < 2 ^ 31) :
    Clears width height col ↔
      width < 2 ^ 24 ∨ (width < 2 ^ 25 ∧ width * height + 2 ^ 30 ≤ width * 64) := by
  by_cases narrow : width < 2 ^ 24
  · refine ⟨fun _ => .inl narrow, fun _ fb => ?_⟩
    obtain ⟨s, ran, painted, touched⟩ := @clscrRun width height col fb columns small narrow (height + 1) 0 _
      (startPainted col fb) (by simp) (by omega) (by omega)
    exact ⟨s, by rw [clscr, Int.toNat_natCast]; exact ran, clearedOf painted touched⟩
  by_cases wide : width < 2 ^ 25
  · constructor
    · intro clears
      obtain ⟨s, ran, cleared⟩ := clears (otherBytes col)
      obtain ⟨s', ran', painted, touched⟩ :=
        @clscrWide width height col (otherBytes col) rows small (by omega) wide
      cases Option.some.inj (ran.symm.trans ran')
      have positive : 0 < width * height := Nat.mul_pos columns rows
      have last := (touched _).mp (touchedOf painted cleared (4 * (width * height) - 1) (by omega))
      omega
    · rintro (low | ⟨-, covers⟩) fb
      · exact absurd low narrow
      · obtain ⟨s, ran, painted, touched⟩ := @clscrWide width height col fb rows small (by omega) wide
        exact ⟨s, ran, clearedOf painted (fun k => by rw [touched]; omega)⟩
  · constructor
    · intro clears
      obtain ⟨s, ran, -⟩ := clears (otherBytes col)
      rw [clscrOver rows (by omega)] at ran
      cases ran
    · rintro (low | ⟨low, -⟩) <;> omega

/- 1280 by 800 is not a multiple of the chunk. -/
theorem clearsScreen : Clears 1280 800 ⟨255, 255, 255, 255⟩ :=
  (clearsIff _ (by decide) (by decide) (by decide)).mpr (.inl (by decide))

/- One row of 2^24 pixels: the chunk has 2^32 bytes, which uint32_t takes for none. -/
theorem wideRowKept : ¬ Clears (2 ^ 24) 1 ⟨255, 255, 255, 255⟩ := by
  intro clears
  obtain ⟨s, ran, cleared⟩ := clears (otherBytes ⟨255, 255, 255, 255⟩)
  obtain ⟨s', ran', painted, touched⟩ := @clscrWide (2 ^ 24) 1 ⟨255, 255, 255, 255⟩
    (otherBytes ⟨255, 255, 255, 255⟩) (by decide) (by decide) (by decide) (by decide)
  cases Option.some.inj (ran.symm.trans ran')
  have first := (touched 0).mp (touchedOf painted cleared 0 (by decide))
  omega

end DimOS.Graphics
