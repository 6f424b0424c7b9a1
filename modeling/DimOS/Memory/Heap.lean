import Mathlib
import DimOS.Lib.ByteMemory
import DimOS.Lib.Segments

/-! Heap::FreeList over byte memory. A Node is a size word followed by a next word, at
the address the list holds; null is 0 and 64-bit sums wrap. Each loop has fuel, and
none means only that it ran out. VMM::allocNPages is a parameter. -/
namespace DimOS.Memory.Heap
open Lib.ByteMemory
open Lib.Segments

def sizeofNode : Nat := 16
def pageSize : Nat := 4096

def sizeAt (m : Memory) (a : Nat) : Nat := (loadWord m a).toNat
def nextAt (m : Memory) (a : Nat) : Nat := (loadWord m (a + 8)).toNat

def setSize (m : Memory) (a v : Nat) : Memory := storeWord m a (BitVec.ofNat 64 v)
def setNext (m : Memory) (a v : Nat) : Memory := storeWord m (a + 8) (BitVec.ofNat 64 v)

def sub64 (a b : Nat) : Nat := (a + 2 ^ 64 - b % 2 ^ 64) % 2 ^ 64

def endOf (m : Memory) (a : Nat) : Nat := (a + sizeofNode + sizeAt m a) % 2 ^ 64

structure FreeList where
  head : Nat
  mem : Memory

def FreeList.empty (m : Memory) : FreeList := ⟨0, m⟩

/- `if (prev) prev->next = node; else head = node;` -/
def FreeList.link (fl : FreeList) (prev node : Nat) : FreeList :=
  if prev ≠ 0 then { fl with mem := setNext fl.mem prev node } else { fl with head := node }

/- `a->size += sizeofNode + b->size;` -/
def coalesce (m : Memory) (a b : Nat) : Memory :=
  setSize m a (sizeAt m a + (sizeofNode + sizeAt m b))

/- `a->size += sizeofNode + b->size; a->next = b->next;` -/
def swallow (m : Memory) (a b : Nat) : Memory :=
  let m := coalesce m a b
  setNext m a (nextAt m b)

/- Swallow the node after `a` when it begins where `a` ends. -/
def swallowNext (m : Memory) (a : Nat) : Memory :=
  let next := nextAt m a
  if next = endOf m a then swallow m a next else m

/- The loop of addNode: it returns the memory when newNode went into curr, and the
place (curr, prev) in front of which newNode belongs otherwise. -/
def addNodeLoop (newNode : Nat) : Nat → Memory → Nat → Nat → Option (Memory ⊕ Nat × Nat)
  | 0, _, _, _ => none
  | fuel + 1, m, curr, prev =>
    if curr ≠ 0 ∧ curr ≤ newNode then
      if endOf m curr = newNode then
        some (.inl (swallowNext (coalesce m curr newNode) curr))
      else addNodeLoop newNode fuel m (nextAt m curr) curr
    else some (.inr (curr, prev))

/- The part of addNode after the loop. After the link newNode->next is curr, so the
second look at curr->next in the source is the look at newNode->next here. -/
def FreeList.place (fl : FreeList) (newNode curr prev : Nat) : FreeList :=
  let fl := FreeList.link { fl with mem := setNext fl.mem newNode curr } prev newNode
  if endOf fl.mem newNode = curr then
    { fl with mem := swallowNext (swallow fl.mem newNode curr) newNode }
  else fl

def FreeList.addNode (fuel : Nat) (fl : FreeList) (newNode : Nat) : Option FreeList :=
  match addNodeLoop newNode fuel fl.mem fl.head 0 with
  | none => none
  | some (.inl m) => some { fl with mem := m }
  | some (.inr (curr, prev)) => some (fl.place newNode curr prev)

def FreeList.addMemory (fuel : Nat) (fl : FreeList) (addr size : Nat) : Option FreeList :=
  let m := setSize fl.mem addr (sub64 size sizeofNode)
  FreeList.addNode fuel { fl with mem := setNext m addr 0 } addr

def FreeList.free (fuel : Nat) (fl : FreeList) (ptr : Nat) : Option FreeList :=
  fl.addNode fuel (sub64 ptr sizeofNode)

def split (m : Memory) (node size : Nat) : Memory × Nat :=
  if sizeAt m node < (size + sizeofNode + 1) % 2 ^ 64 then (m, 0)
  else
    let splitPart := (node + sizeofNode + size) % 2 ^ 64
    let m := setSize m splitPart (sub64 (sub64 (sizeAt m node) size) sizeofNode)
    (setNext m splitPart 0, splitPart)

structure Fit where
  target : Nat
  prev : Nat
  usedSize : Nat

/- The loop of alloc: the first of the smallest nodes that are large enough. -/
def bestFit (m : Memory) (size : Nat) : Nat → Nat → Nat → Fit → Option Fit
  | 0, _, _, _ => none
  | fuel + 1, curr, prevNode, fit =>
    if curr ≠ 0 then
      if size ≤ sizeAt m curr ∧ sizeAt m curr < fit.usedSize then
        bestFit m size fuel (nextAt m curr) curr ⟨curr, prevNode, sizeAt m curr⟩
      else bestFit m size fuel (nextAt m curr) curr fit
    else some fit

def FreeList.search (fuel : Nat) (fl : FreeList) (size : Nat) : Option Fit :=
  bestFit fl.mem size fuel fl.head 0 ⟨0, 0, 2 ^ 64 - 1⟩

def FreeList.take (fl : FreeList) (target prev size : Nat) : FreeList :=
  let (m, splitPart) := split fl.mem target size
  let fl := { fl with mem := m }
  if splitPart ≠ 0 then
    let fl := fl.link prev splitPart
    let m := setNext fl.mem splitPart (nextAt fl.mem target)
    { fl with mem := setSize m target size }
  else fl.link prev (nextAt fl.mem target)

/- `int reqPages`: the quotient is taken in 64 bits and then narrowed to 32. -/
def reqPages (size : Nat) : Int :=
  Int.bmod (((size + sizeofNode + pageSize - 1) % 2 ^ 64 / pageSize : Nat) : Int) (2 ^ 32)

/- `reqPages * VMM::pageSize` as the uint64_t that addMemory takes. -/
def reqBytes (size : Nat) : Nat := (reqPages size * (pageSize : Int) % 2 ^ 64).toNat

structure Allocated where
  list : FreeList
  ptr : Nat
  grown : List (Nat × Nat)

/- The last argument counts the retries; grown collects the regions asked for. -/
def FreeList.alloc (fuel : Nat) (allocNPages : Int → Nat) (size : Nat) :
    Nat → FreeList → Option Allocated
  | 0, _ => none
  | tries + 1, fl =>
    match fl.search fuel size with
    | none => none
    | some fit =>
      if fit.target = 0 then
        let addr := allocNPages (reqPages size)
        match fl.addMemory fuel addr (reqBytes size) with
        | none => none
        | some fl =>
          (FreeList.alloc fuel allocNPages size tries fl).map
            (fun out => { out with grown := (addr, reqBytes size) :: out.grown })
      else some ⟨fl.take fit.target fit.prev size, (fit.target + sizeofNode) % 2 ^ 64, []⟩

end DimOS.Memory.Heap
