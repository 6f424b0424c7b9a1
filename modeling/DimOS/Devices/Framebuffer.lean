import Mathlib
import DimOS.Filesystem.Vfs

/-! FramebuferDevice::read and write, byte by byte. The length is clipped with a 64-bit subtraction
that may wrap, the counter of the loop has 32 bits and its bound 64, and the length comes back as an
int. The bytes from fb_ptr on are one memory, also past fbSize; touched logs which of them were
accessed. -/
namespace DimOS.Devices.Framebuffer
open Filesystem.RamDisk (Buffer)

/- `min((uint64_t)size, fbSize - offset)` -/
def clip (fbSize offset size : Nat) : Nat := min size (((fbSize : Int) - offset) % 2 ^ 64).toNat

/- `i - offset` of two uint32_t -/
def sub32 (i offset : Nat) : Nat := (i + 2 ^ 32 - offset) % 2 ^ 32

structure Copied where
  target : Buffer
  touched : List Nat

/- `for (uint32_t i = offset; i < stop; i++)`; none when the fuel ran out. -/
def copyLoop (stop : Nat) (copy : Nat → Buffer → Buffer) : Nat → Nat → Copied → Option Copied
  | 0, _, _ => none
  | fuel + 1, i, s =>
    if i < stop then copyLoop stop copy fuel ((i + 1) % 2 ^ 32) ⟨copy i s.target, i :: s.touched⟩
    else some s

def readByte (fb : Buffer) (offset i : Nat) (buffer : Buffer) : Buffer :=
  Function.update buffer (sub32 i offset) (fb i)

def writeByte (buffer : Buffer) (offset i : Nat) (fb : Buffer) : Buffer :=
  Function.update fb i (buffer (sub32 i offset))

def read (fuel fbSize : Nat) (fb : Buffer) (offset size : Nat) (buffer : Buffer) : Option (Copied × Int) :=
  let len := clip fbSize offset size
  (copyLoop (offset + len) (readByte fb offset) fuel offset ⟨buffer, []⟩).map (·, Int.bmod len (2 ^ 32))

def write (fuel fbSize : Nat) (fb : Buffer) (offset size : Nat) (buffer : Buffer) : Option (Copied × Int) :=
  let len := clip fbSize offset size
  (copyLoop (offset + len) (writeByte buffer offset) fuel offset ⟨fb, []⟩).map (·, Int.bmod len (2 ^ 32))

def available (fbSize offset size : Nat) : Int := max 0 (min (size : Int) (fbSize - offset))

def ReadWithin (fbSize : Nat) (fb : Buffer) (offset size : Nat) (buffer : Buffer) : Prop :=
  ∃ fuel out returned, read fuel fbSize fb offset size buffer = some (out, returned) ∧
    (∀ i ∈ out.touched, i < fbSize) ∧ returned = available fbSize offset size

def WriteWithin (fbSize : Nat) (fb : Buffer) (offset size : Nat) (buffer : Buffer) : Prop :=
  ∃ fuel out returned, write fuel fbSize fb offset size buffer = some (out, returned) ∧
    (∀ i ∈ out.touched, i < fbSize) ∧ returned = available fbSize offset size ∧
    ∀ k : Nat, out.target k = if offset ≤ k ∧ (k : Int) < offset + returned then buffer (k - offset) else fb k

/- Nothing to copy, or an offset inside whose copy ends below 2^32 and is shorter than 2^31. -/
def InRange (fbSize offset size : Nat) : Prop :=
  size = 0 ∨ offset ≤ fbSize ∧ min size (fbSize - offset) < 2 ^ 31 ∧ offset + min size (fbSize - offset) < 2 ^ 32

theorem clipInside {fbSize offset size : Nat} (inside : offset ≤ fbSize) (wide : fbSize < 2 ^ 64) :
    clip fbSize offset size = min size (fbSize - offset) := by
  unfold clip
  omega

theorem clipPast {fbSize offset size : Nat} (past : fbSize < offset) (small : offset < 2 ^ 32) (few : size < 2 ^ 32) :
    clip fbSize offset size = size := by
  unfold clip
  omega

/- The copy of `n` bytes from `i` on. -/
def copies (copy : Nat → Buffer → Buffer) : Nat → Nat → Copied → Copied
  | 0, _, s => s
  | n + 1, i, s => copies copy n (i + 1) ⟨copy i s.target, i :: s.touched⟩

theorem copyLoopEq {stop fuel i : Nat} (copy : Nat → Buffer → Buffer) {s : Copied} (low : stop < 2 ^ 32)
    (le : i ≤ stop) :
    copyLoop stop copy fuel i s = if stop - i < fuel then some (copies copy (stop - i) i s) else none := by
  induction fuel generalizing i s with
  | zero => rfl
  | succ fuel ih =>
    simp only [copyLoop]
    by_cases more : i < stop
    · rw [if_pos more, Nat.mod_eq_of_lt (by omega), ih (by omega),
        show stop - i = stop - (i + 1) + 1 by omega]
      simp only [copies, Nat.add_lt_add_iff_right]
    · rw [if_neg more, if_pos (by omega), show stop - i = 0 by omega]
      rfl

theorem copyLoopEndless {stop i : Nat} (copy : Nat → Buffer → Buffer) (fuel : Nat) (s : Copied)
    (high : 2 ^ 32 ≤ stop) (counter : i < 2 ^ 32) : copyLoop stop copy fuel i s = none := by
  induction fuel generalizing i s with
  | zero => rfl
  | succ fuel ih =>
    simp only [copyLoop]
    rw [if_pos (by omega)]
    exact ih _ (Nat.mod_lt _ (by decide))

theorem copiesTouched {copy : Nat → Buffer → Buffer} {n i j : Nat} {s : Copied} :
    j ∈ (copies copy n i s).touched ↔ j ∈ s.touched ∨ (i ≤ j ∧ j < i + n) := by
  induction n generalizing i s with
  | zero =>
    have none : ¬ (i ≤ j ∧ j < i + 0) := by omega
    simp only [copies, none, or_false]
  | succ n ih =>
    have first : i ≤ j ∧ j < i + (n + 1) ↔ j = i ∨ (i + 1 ≤ j ∧ j < i + 1 + n) := by omega
    simp only [copies]
    rw [ih, List.mem_cons, first, or_assoc, or_left_comm]

theorem sub32Eq {i offset : Nat} (le : offset ≤ i) (low : i < 2 ^ 32) : sub32 i offset = i - offset := by
  unfold sub32
  omega

theorem copiesWritten (buffer : Buffer) {offset n i : Nat} {s : Copied} (from' : offset ≤ i) (low : i + n ≤ 2 ^ 32)
    (k : Nat) : (copies (writeByte buffer offset) n i s).target k =
      if i ≤ k ∧ k < i + n then buffer (k - offset) else s.target k := by
  induction n generalizing i s with
  | zero =>
    refine (if_neg ?_).symm
    omega
  | succ n ih =>
    simp only [copies]
    rw [ih (by omega) (by omega)]
    by_cases later : i + 1 ≤ k ∧ k < i + 1 + n
    · rw [if_pos later, if_pos (by omega)]
    · rw [if_neg later]
      show Function.update s.target i (buffer (sub32 i offset)) k = _
      rw [Function.update_apply]
      by_cases here : k = i
      · rw [if_pos here, if_pos (by omega), sub32Eq from' (by omega), here]
      · rw [if_neg here, if_neg (by omega)]

theorem copiesRead (fb : Buffer) {offset n i : Nat} {s : Copied} (from' : offset ≤ i) (low : i + n ≤ 2 ^ 32)
    (k : Nat) : (copies (readByte fb offset) n i s).target k =
      if i ≤ offset + k ∧ offset + k < i + n then fb (offset + k) else s.target k := by
  induction n generalizing i s with
  | zero =>
    refine (if_neg ?_).symm
    omega
  | succ n ih =>
    simp only [copies]
    rw [ih (by omega) (by omega)]
    by_cases later : i + 1 ≤ offset + k ∧ offset + k < i + 1 + n
    · rw [if_pos later, if_pos (by omega)]
    · rw [if_neg later]
      show Function.update s.target (sub32 i offset) (fb i) k = _
      rw [Function.update_apply, sub32Eq from' (by omega)]
      by_cases here : k = i - offset
      · rw [if_pos here, if_pos (by omega), here, show offset + (i - offset) = i by omega]
      · rw [if_neg here, if_neg (by omega)]

theorem copyReturns {fuel offset len : Nat} {copy : Nat → Buffer → Buffer} {s out : Copied} (low : offset < 2 ^ 32)
    (ran : copyLoop (offset + len) copy fuel offset s = some out) :
    offset + len < 2 ^ 32 ∧ out = copies copy len offset s := by
  by_cases short : offset + len < 2 ^ 32
  · rw [copyLoopEq copy short (by omega), Nat.add_sub_cancel_left] at ran
    split at ran
    · exact ⟨short, (Option.some.inj ran).symm⟩
    · cases ran
  · rw [copyLoopEndless copy fuel s (by omega) low] at ran
    cases ran

theorem copyLoopIte {offset len : Nat} (copy : Nat → Buffer → Buffer) (s : Copied) (low : offset < 2 ^ 32)
    (few : len < 2 ^ 32) : copyLoop (offset + len) copy (2 ^ 32) offset s =
      if len = 0 ∨ offset + len < 2 ^ 32 then some (copies copy len offset s) else none := by
  by_cases short : offset + len < 2 ^ 32
  · rw [copyLoopEq copy short (by omega), Nat.add_sub_cancel_left, if_pos few, if_pos (.inr short)]
  · rw [copyLoopEndless copy _ s (by omega) low, if_neg (by omega)]

theorem clipLe (fbSize offset size : Nat) : clip fbSize offset size ≤ size := Nat.min_le_left _ _

/- The virtual calls of the device that the VFS reaches are these loops. -/
theorem deviceReads (deviceID : Int) (fs : Nat) (resource : Filesystem.RamDisk.Resource) (fb buffer : Buffer)
    {fbSize offset size : Nat} (low : offset < 2 ^ 32) (few : size < 2 ^ 32) :
    (Filesystem.Vfs.framebufferDevice deviceID fbSize).read fb fs resource offset size buffer =
      (read (2 ^ 32) fbSize fb offset size buffer).map (fun r => (r.1.target, clip fbSize offset size)) := by
  have most := clipLe fbSize offset size
  show (if clip fbSize offset size = 0 ∨ offset + clip fbSize offset size < 2 ^ 32 then
      some (fun k => if k < clip fbSize offset size then fb (offset + k) else buffer k, clip fbSize offset size)
    else none) = _
  simp only [read]
  rw [copyLoopIte _ _ low (by omega)]
  by_cases ends : clip fbSize offset size = 0 ∨ offset + clip fbSize offset size < 2 ^ 32
  · simp only [if_pos ends, Option.map_some, Option.some.injEq, Prod.mk.injEq, and_true]
    funext k
    rw [copiesRead fb (Nat.le_refl _) (by omega)]
    refine if_congr ?_ rfl rfl
    omega
  · simp only [if_neg ends, Option.map_none]

theorem deviceWrites (deviceID : Int) (fs : Nat) (resource : Filesystem.RamDisk.Resource) (fb buffer : Buffer)
    {fbSize offset size : Nat} (low : offset < 2 ^ 32) (few : size < 2 ^ 32) :
    (Filesystem.Vfs.framebufferDevice deviceID fbSize).write fb fs resource offset size buffer =
      (write (2 ^ 32) fbSize fb offset size buffer).map
        (fun r => (r.1.target, resource, clip fbSize offset size)) := by
  have most := clipLe fbSize offset size
  show (if clip fbSize offset size = 0 ∨ offset + clip fbSize offset size < 2 ^ 32 then
      some (fun k => if offset ≤ k ∧ k < offset + clip fbSize offset size then buffer (k - offset) else fb k, resource,
        clip fbSize offset size)
    else none) = _
  simp only [write]
  rw [copyLoopIte _ _ low (by omega)]
  by_cases ends : clip fbSize offset size = 0 ∨ offset + clip fbSize offset size < 2 ^ 32
  · simp only [if_pos ends, Option.map_some, Option.some.injEq, Prod.mk.injEq, and_true]
    funext k
    rw [copiesWritten buffer (Nat.le_refl _) (by omega)]
  · simp only [if_neg ends, Option.map_none]

theorem rangeOfCopy {fbSize offset size : Nat} {copy : Nat → Buffer → Buffer} {s : Copied} (wide : fbSize < 2 ^ 64)
    (low : offset < 2 ^ 32) (few : size < 2 ^ 32) (short : offset + clip fbSize offset size < 2 ^ 32)
    (within : ∀ i ∈ (copies copy (clip fbSize offset size) offset s).touched, i < fbSize)
    (right : Int.bmod (clip fbSize offset size) (2 ^ 32) = available fbSize offset size) :
    InRange fbSize offset size := by
  by_cases none : size = 0
  · exact .inl none
  by_cases inside : offset ≤ fbSize
  · rw [clipInside inside wide] at short right
    refine .inr ⟨inside, ?_, short⟩
    unfold available at right
    by_contra long
    have narrowed : Int.bmod (min size (fbSize - offset) : Nat) (2 ^ 32) < 2 ^ 31 := by
      have := @Int.bmod_lt (min size (fbSize - offset) : Nat) (2 ^ 32) (by decide)
      omega
    omega
  · rw [clipPast (by omega) low few] at within
    have first := within offset (copiesTouched.mpr (.inr ⟨Nat.le_refl _, by omega⟩))
    omega

theorem clipRange {fbSize offset size : Nat} (wide : fbSize < 2 ^ 64) (low : offset < 2 ^ 32)
    (range : InRange fbSize offset size) :
    (clip fbSize offset size : Int) = available fbSize offset size ∧ offset + clip fbSize offset size < 2 ^ 32 ∧
      clip fbSize offset size < 2 ^ 31 ∧ (0 < clip fbSize offset size → offset + clip fbSize offset size ≤ fbSize) := by
  unfold available
  rcases range with rfl | ⟨inside, short, ends⟩
  · have none : clip fbSize offset 0 = 0 := Nat.zero_min _
    rw [none]
    omega
  · rw [clipInside inside wide]
    omega

theorem narrowEq {n : Nat} (small : n < 2 ^ 31) : Int.bmod n (2 ^ 32) = n :=
  Int.bmod_eq_of_le (by omega) (by omega)

theorem copyRange {fbSize offset size : Nat} (copy : Nat → Buffer → Buffer) (s : Copied) (wide : fbSize < 2 ^ 64)
    (low : offset < 2 ^ 32) (range : InRange fbSize offset size) (fresh : s.touched = []) :
    copyLoop (offset + clip fbSize offset size) copy (2 ^ 32) offset s =
        some (copies copy (clip fbSize offset size) offset s) ∧
      (∀ i ∈ (copies copy (clip fbSize offset size) offset s).touched, i < fbSize) ∧
      Int.bmod (clip fbSize offset size) (2 ^ 32) = available fbSize offset size := by
  obtain ⟨length, ends, short, inside⟩ := clipRange wide low range
  refine ⟨?_, ?_, by rw [narrowEq short, length]⟩
  · rw [copyLoopEq copy ends (by omega), Nat.add_sub_cancel_left, if_pos (by omega)]
  · intro i touched
    rcases copiesTouched.mp touched with old | ⟨first, last⟩
    · rw [fresh] at old
      cases old
    · have := inside (by omega)
      omega

theorem readWithinIff (fb buffer : Buffer) {fbSize offset size : Nat} (wide : fbSize < 2 ^ 64) (low : offset < 2 ^ 32)
    (few : size < 2 ^ 32) : ReadWithin fbSize fb offset size buffer ↔ InRange fbSize offset size := by
  constructor
  · rintro ⟨fuel, out, returned, ran, within, right⟩
    obtain ⟨out', loop, eq⟩ := Option.map_eq_some_iff.mp ran
    simp only [Prod.mk.injEq] at eq
    obtain ⟨rfl, rfl⟩ := eq
    obtain ⟨short, rfl⟩ := copyReturns low loop
    exact rangeOfCopy wide low few short within right
  · intro range
    obtain ⟨loop, within, right⟩ := copyRange (readByte fb offset) ⟨buffer, []⟩ wide low range rfl
    refine ⟨2 ^ 32, _, _, ?_, within, right⟩
    simp only [read, loop, Option.map_some]

theorem writeWithinIff (fb buffer : Buffer) {fbSize offset size : Nat} (wide : fbSize < 2 ^ 64) (low : offset < 2 ^ 32)
    (few : size < 2 ^ 32) : WriteWithin fbSize fb offset size buffer ↔ InRange fbSize offset size := by
  constructor
  · rintro ⟨fuel, out, returned, ran, within, right, -⟩
    obtain ⟨out', loop, eq⟩ := Option.map_eq_some_iff.mp ran
    simp only [Prod.mk.injEq] at eq
    obtain ⟨rfl, rfl⟩ := eq
    obtain ⟨short, rfl⟩ := copyReturns low loop
    exact rangeOfCopy wide low few short within right
  · intro range
    obtain ⟨loop, within, right⟩ := copyRange (writeByte buffer offset) ⟨fb, []⟩ wide low range rfl
    refine ⟨2 ^ 32, _, _, ?_, within, right, fun k => ?_⟩
    · simp only [write, loop, Option.map_some]
    · obtain ⟨-, ends, short, -⟩ := clipRange wide low range
      rw [narrowEq short, copiesWritten buffer (Nat.le_refl _) (by omega)]
      refine if_congr ?_ rfl rfl
      omega

/-- Both calls stay inside the framebuffer, return and return the right length exactly when there is
nothing to copy or the copy starts inside, is shorter than 2^31 and ends below 2^32. -/
theorem framebufferWithinIff (fb buffer : Buffer) {fbSize offset size : Nat} (wide : fbSize < 2 ^ 64)
    (low : offset < 2 ^ 32) (few : size < 2 ^ 32) :
    (ReadWithin fbSize fb offset size buffer ↔ InRange fbSize offset size) ∧
      (WriteWithin fbSize fb offset size buffer ↔ InRange fbSize offset size) :=
  ⟨readWithinIff fb buffer wide low few, writeWithinIff fb buffer wide low few⟩

theorem framebufferWithinPage : ReadWithin 4096 (fun _ => 1#8) 4000 200 (fun _ => 2#8) ∧
    WriteWithin 4096 (fun _ => 1#8) 4000 200 (fun _ => 2#8) := by
  obtain ⟨reads, writes⟩ := @framebufferWithinIff (fun _ => 1#8) (fun _ => 2#8) 4096 4000 200 (by decide) (by decide)
    (by decide)
  have range : InRange 4096 4000 200 := .inr (by decide)
  exact ⟨reads.mpr range, writes.mpr range⟩

/- A write of one byte behind a framebuffer of 16 bytes is made, and one that ends at 2^32 never
returns. -/
theorem framebufferPastEnd :
    ¬ WriteWithin 16 (fun _ => 0#8) 17 1 (fun _ => 7#8) ∧ ¬ ReadWithin 16 (fun _ => 0#8) 17 1 (fun _ => 7#8) ∧
      (write 2 16 (fun _ => 0#8) 17 1 (fun _ => 7#8)).map (fun r => (r.1.target 17, r.1.touched, r.2)) =
        some (7#8, [17], 1) ∧
      ∀ fuel, (write fuel (2 ^ 33) (fun _ => 0#8) (2 ^ 32 - 1) 1 (fun _ => 7#8)).isNone = true := by
  have outside : ¬ InRange 16 17 1 := by
    unfold InRange
    omega
  refine ⟨fun within => outside ?_, fun within => outside ?_, by decide, fun fuel => ?_⟩
  · exact (writeWithinIff _ _ (by decide) (by decide) (by decide)).mp within
  · exact (readWithinIff _ _ (by decide) (by decide) (by decide)).mp within
  · rw [write, copyLoopEndless _ fuel _ (by decide) (by decide)]
    rfl

end DimOS.Devices.Framebuffer
