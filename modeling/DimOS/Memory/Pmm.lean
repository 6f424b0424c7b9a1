import Mathlib
import DimOS.Lib.WordBits

/-! PMM: the frame bitmap and its counter. Addresses and sizes are uint64_t, reduced modulo
2^64 where a sum can wrap; frame counts are int64_t. The bitmap is the array of words that
init places in the first of two available ranges that is large enough; its contents before
init are a parameter. -/
namespace DimOS.Memory.Pmm
open Lib.WordBits

def framesPerElement : Nat := 64
def elementSize : Nat := 8
def frameSize : Nat := 4096

structure MemRange where
  start : Nat
  size : Nat
  deriving DecidableEq, Repr

structure PhysicalMemMap where
  totalSize : Nat
  availableMemArr : List MemRange
  kernelStart : Nat
  kernelSize : Nat
  deriving DecidableEq, Repr

structure PMM where
  memorySize : Nat
  usedframes : Int
  frameCnt : Nat
  bitmap : Words

def toInt64 (x : Int) : Int := Int.bmod x (2 ^ 64)

namespace PMM

def bitmapSet (p : PMM) (bit : Nat) : PMM := { p with bitmap := setBit p.bitmap bit }
def bitmapUnset (p : PMM) (bit : Nat) : PMM := { p with bitmap := clearBit p.bitmap bit }
def bitmapIsSet (p : PMM) (bit : Nat) : Bool := isSet p.bitmap bit

def elementCnt (p : PMM) : Nat := (p.frameCnt + framesPerElement - 1) / framesPerElement

/- One frame of initRegion (value false) or deinitRegion (value true): the counter follows
only a bit that changes. -/
def mark (value : Bool) (p : PMM) (frame : Nat) : PMM :=
  if value then
    let wasUnset := !p.bitmapIsSet frame
    let p := p.bitmapSet frame
    if wasUnset then { p with usedframes := p.usedframes + 1 } else p
  else
    let wasSet := p.bitmapIsSet frame
    let p := p.bitmapUnset frame
    if wasSet then { p with usedframes := p.usedframes - 1 } else p

/- `while (cnt-- > 0)` over consecutive frames. -/
def markFrames (value : Bool) : Nat → Nat → PMM → PMM
  | 0, _, p => p
  | cnt + 1, frameSt, p => markFrames value cnt (frameSt + 1) (p.mark value frameSt)

def regionStart (start : Nat) : Nat := (start + frameSize - 1) % 2 ^ 64 / frameSize

def regionCount (start size : Nat) : Int :=
  let remSize := toInt64 ((size : Int) - ((regionStart start * frameSize : Nat) - (start : Int)))
  Int.tdiv (remSize + frameSize - 1) frameSize

def markRegion (value : Bool) (p : PMM) (start size : Nat) : PMM :=
  markFrames value (regionCount start size).toNat (regionStart start) p

def initRegion (p : PMM) (start size : Nat) : PMM := markRegion false p start size
def deinitRegion (p : PMM) (start size : Nat) : PMM := markRegion true p start size

def initRegions (p : PMM) (ranges : List MemRange) : PMM :=
  ranges.foldl (fun p r => p.initRegion r.start r.size) p

def bitmapRange (ranges : List MemRange) (reqMemForBitmap : Nat) : Option MemRange :=
  (ranges.take 2).find? (fun r => r.size ≥ reqMemForBitmap)

/- `usedframes = frameCnt;` -/
def countAll (p : PMM) : PMM := { p with usedframes := p.frameCnt }

def setup (p : PMM) (mem : PhysicalMemMap) (memRangeforBitmap : MemRange) : PMM :=
  (((p.deinitRegion 0 p.memorySize).countAll.initRegions mem.availableMemArr).deinitRegion
    memRangeforBitmap.start memRangeforBitmap.size).deinitRegion 0 frameSize

/- `none` is the panic for a null bitmap, and a map with fewer than two ranges, which the
loop over the first two would index out of bounds. -/
def init (HHDMOffset : Nat) (prior : Words) (mem : PhysicalMemMap) : Option (PMM × MemRange) :=
  let p : PMM := ⟨mem.totalSize, 0, mem.totalSize / frameSize, prior⟩
  let reqMemForBitmap := p.elementCnt * elementSize
  if mem.availableMemArr.length < 2 then none
  else
    match bitmapRange mem.availableMemArr reqMemForBitmap with
    | none => none
    | some r =>
      if (r.start + HHDMOffset) % 2 ^ 64 = 0 then none
      else some (p.setup mem ⟨r.start, reqMemForBitmap⟩, ⟨r.start, reqMemForBitmap⟩)

/- The two loops of firstFreeFrame: a full word is skipped, then the word is scanned. -/
def firstFreeInWord (w : BitVec 64) : Option Nat :=
  if w = BitVec.allOnes 64 then none
  else (List.range 64).find? (fun j => !(w &&& mask j != 0#64))

def firstFreeLoop (p : PMM) : Nat → Nat → Option Nat
  | 0, _ => none
  | left + 1, i =>
    match firstFreeInWord (p.bitmap i) with
    | some j => some (i * framesPerElement + j)
    | none => firstFreeLoop p left (i + 1)

def firstFreeFrame (p : PMM) : Option Nat := p.firstFreeLoop p.elementCnt 0

/- `!bitmapIsSet(i)` as the number the window adds up. -/
def freeAt (p : PMM) (i : Nat) : Int := if p.bitmapIsSet i then 0 else 1

/- The second loop of firstNFreeFrames, with `left` positions to go. -/
def windowLoop (p : PMM) (n : Nat) : Nat → Nat → Int → Option Nat
  | 0, i, free => if free = n then some (i - n) else none
  | left + 1, i, free =>
    if free = n then some (i - n)
    else windowLoop p n left (i + 1) (free + p.freeAt i - p.freeAt (i - n))

def firstNFreeFrames (p : PMM) (n : Nat) : Option Nat :=
  if n > p.elementCnt then none
  else
    let free := (List.range n).foldl (fun free i => free + p.freeAt i) 0
    p.windowLoop n (p.elementCnt * framesPerElement - n) n free

def allocFrame (p : PMM) : PMM × Nat :=
  if p.usedframes = p.frameCnt then (p, 0)
  else
    match p.firstFreeFrame with
    | none => (p, 0)
    | some frame =>
      let p := p.bitmapSet frame
      ({ p with usedframes := p.usedframes + 1 }, frame * frameSize)

def takeFrames : Nat → Nat → PMM → PMM
  | 0, _, p => p
  | n + 1, frame, p =>
    let p := p.bitmapSet frame
    takeFrames n (frame + 1) { p with usedframes := p.usedframes + 1 }

/- For an n so large that the sum would overflow, firstNFreeFrames fails as well. -/
def allocNFrames (p : PMM) (n : Nat) : PMM × Nat :=
  if p.usedframes + n ≥ p.frameCnt then (p, 0)
  else
    match p.firstNFreeFrames n with
    | none => (p, 0)
    | some frame => (takeFrames n frame p, frame * frameSize)

def freeFrame (p : PMM) (addr : Nat) : PMM :=
  let frame := addr / frameSize
  if !p.bitmapIsSet frame then p
  else
    let p := p.bitmapUnset frame
    { p with usedframes := p.usedframes - 1 }

end PMM
end DimOS.Memory.Pmm
