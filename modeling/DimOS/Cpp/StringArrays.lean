import Mathlib
import DimOS.Cpp.UniquePtr
import DimOS.Lib.CountedLoop

/-! Vector<String>, with the blocks that it and its Strings own. malloc gives every block a number
of its own, which free counts; the characters themselves play no part. A String is its data, a
Vector<char>. none is a failed assertion, an access outside an array, a counter of type int that
passes the largest int, or an array too large for size_t. -/
namespace DimOS.Cpp.StringArrays
open UniquePtrs
open Lib.CountedLoop

/- The members of a Vector; those of a String are the ones of its Vector<char>. -/
structure Vector where
  data : Blk := {}
  size : Nat := 0
  capacity : Nat := 0
  deriving DecidableEq, Repr

/- What a block was allocated for: a buffer of characters, or an array of that many Strings. -/
inductive Kind where
  | chars
  | strings (num : Nat)
  deriving DecidableEq, Repr

structure Heap where
  blocks : List Kind
  frees : Nat → Nat
  strings : Nat → Nat → Vector

namespace Heap

def free (ptr : Nat) (h : Heap) : Heap :=
  { h with frees := Function.update h.frees ptr (h.frees ptr + 1) }

/- Mallocator::allocate. -/
def allocate (kind : Kind) (size : Nat) (h : Heap) : Blk × Heap :=
  if size = 0 then ({}, h) else (⟨some h.blocks.length, size⟩, { h with blocks := h.blocks ++ [kind] })

def setString (ptr i : Nat) (v : Vector) (h : Heap) : Heap :=
  { h with strings := Function.update h.strings ptr (Function.update (h.strings ptr) i v) }

end Heap
open Heap

def charElement : Element Heap where
  sizeof := 1
  construct _ _ h := h
  destroy _ _ h := h

def destroyString (ptr i : Nat) (h : Heap) : Heap :=
  let v := h.strings ptr i
  let (data, h) := reset free charElement v.data {} h
  h.setString ptr i { v with data := data }

/- sizeof(String) is 48: data with its allocator, the allocator, m_size and capacity. -/
def stringElement : Element Heap where
  sizeof := 48
  construct ptr i h := h.setString ptr i {}
  destroy := destroyString

def makeUnique (T : Element Heap) (kind : Kind) (num : Nat) (h : Heap) : Option (Blk × Heap) :=
  if T.sizeof * num < sizeLimit then
    let (blk, h) := h.allocate kind (T.sizeof * num)
    (forLoop num (fun i h => blk.ptr.map fun ptr => T.construct ptr i h) sizeLimit 0 h).map fun h => (blk, h)
  else none

/- The array of data[i], none outside of it. -/
def slot (T : Element Heap) (data : Blk) (i : Nat) : Option Nat :=
  if i < data.size / T.sizeof then data.ptr else none

/- The copy constructor and operator= of Vector<T>: what `data` owned is dropped, and
`assign newData i` is `data[i] = v[i]`. -/
def copyFrom (T : Element Heap) (kind : Kind) (assign : Blk → Nat → Heap → Option Heap)
    (data : Blk) (size capacity : Nat) (h : Heap) : Option (Vector × Heap) :=
  let (data, h) := reset free T data {} h
  (makeUnique T kind capacity h).bind fun (made, h) =>
    let (data, h) := reset free T data made h
    (forLoop size (assign data) intLimit 0 h).map fun h => (⟨data, size, capacity⟩, h)

/- The assignment of a String to element i of an array, String's own operator= and its move alike:
Vector has no move assignment. -/
def assignString (data : Blk) (i : Nat) (val : Vector) (h : Heap) : Option Heap :=
  (slot stringElement data i).bind fun ptr =>
    (copyFrom charElement .chars (fun data i h => (slot charElement data i).map fun _ => h)
      (h.strings ptr i).data val.size val.capacity h).map fun (w, h) => h.setString ptr i w

def assignElement (source data : Blk) (i : Nat) (h : Heap) : Option Heap :=
  (slot stringElement source i).bind fun ptr => assignString data i (h.strings ptr i) h

def makeStrings (num : Nat) (h : Heap) : Option (Blk × Heap) :=
  makeUnique stringElement (.strings num) num h

/- The copy constructor with data = Blk{}, and operator= from another object or from itself. -/
def copyStrings (dst src : Vector) (self : Bool) (h : Heap) : Option (Vector × Heap) :=
  copyFrom stringElement (.strings src.capacity)
    (fun data => assignElement (if self then data else src.data) data) dst.data src.size src.capacity h

def realloc (v : Vector) (newSize newCapacity : Nat) (h : Heap) : Option (Vector × Heap) :=
  if newSize ≤ newCapacity then
    (makeStrings newCapacity h).bind fun (newData, h) =>
      let minSize := min v.size newSize
      (forLoop minSize (assignElement v.data newData) sizeLimit 0 h).bind fun h =>
        (forLoop newSize (fun i => assignString newData i {}) (sizeLimit - minSize) minSize h).map fun h =>
          let (data, h) := reset free stringElement v.data newData h
          (⟨data, newSize, newCapacity⟩, h)
  else none

def pushBack (v : Vector) (val : Vector) (h : Heap) : Option (Vector × Heap) :=
  (if v.capacity = v.size then realloc v v.size ((v.size * 2 + 1) % sizeLimit) h else some (v, h)).bind
    fun (v, h) => (assignString v.data v.size val h).map fun h => ({ v with size := v.size + 1 }, h)

def popBack (v : Vector) : Option Vector :=
  if v.size > 0 then some { v with size := v.size - 1 } else none

def destroyVector (v : Vector) (h : Heap) : Heap := (reset free stringElement v.data {} h).2

namespace Heap

def Live (h : Heap) (a num : Nat) : Prop := h.blocks[a]? = some (.strings num) ∧ h.frees a = 0

def Holds (h : Heap) (a j b : Nat) : Prop :=
  (∃ num, h.Live a num ∧ j < num) ∧ (h.strings a j).data.ptr = some b

/- A buffer that is not released and that no String of a live array owns. -/
def Leaked (h : Heap) (b : Nat) : Prop :=
  h.blocks[b]? = some .chars ∧ h.frees b = 0 ∧ ∀ a j, ¬ h.Holds a j b

end Heap

structure Usable (v : Vector) : Prop where
  fits : v.size ≤ v.capacity
  counted : v.size < intLimit
  word : v.capacity < sizeLimit

structure Sound (h : Heap) : Prop where
  held : ∀ a j b, h.Holds a j b → h.blocks[b]? = some .chars ∧ h.frees b = 0
  single : ∀ a j c k b, h.Holds a j b → h.Holds c k b → a = c ∧ j = k
  once : ∀ b, h.frees b ≤ 1
  fresh : ∀ b, h.blocks.length ≤ b → h.frees b = 0
  usable : ∀ a num j, h.Live a num → j < num → Usable (h.strings a j)

structure Writes (p : Option Nat) (h h' : Heap) : Prop where
  sound : Sound h'
  leaks : ∀ b, h'.Leaked b ↔ h.Leaked b
  live : ∀ c num, h'.Live c num ↔ h.Live c num
  other : ∀ c, some c ≠ p → h'.strings c = h.strings c

theorem Writes.refl {h : Heap} (sound : Sound h) (p : Option Nat) : Writes p h h :=
  ⟨sound, fun _ => Iff.rfl, fun _ _ => Iff.rfl, fun _ _ => rfl⟩

theorem Writes.trans {p : Option Nat} {h h' h'' : Heap} (first : Writes p h h') (second : Writes p h' h'') :
    Writes p h h'' :=
  ⟨second.sound, fun b => (second.leaks b).trans (first.leaks b),
    fun c num => (second.live c num).trans (first.live c num),
    fun c away => (second.other c away).trans (first.other c away)⟩

theorem blockLt {l : List Kind} {b : Nat} {kind : Kind} (block : l[b]? = some kind) : b < l.length :=
  (List.getElem?_eq_some_iff.mp block).1

theorem appendedAt (l : List Kind) (kind kind' : Kind) (b : Nat) :
    (l ++ [kind])[b]? = some kind' ↔ l[b]? = some kind' ∨ b = l.length ∧ kind' = kind := by
  by_cases old : b < l.length
  · rw [List.getElem?_append_left old]
    simp [Nat.ne_of_lt old]
  · rw [List.getElem?_append_right (by omega), List.getElem?_eq_none (l := l) (by omega)]
    by_cases last : b = l.length
    · subst last
      simp [eq_comm]
    · rw [List.getElem?_eq_none (by simp; omega)]
      simp [last]

/- The String at index j of the array a lets its buffer go for the members of v. -/
def exchange (a j : Nat) (v : Vector) (made : List Kind) (h : Heap) : Heap where
  blocks := h.blocks ++ made
  frees b := h.frees b + if (h.strings a j).data.ptr = some b then 1 else 0
  strings := Function.update h.strings a (Function.update (h.strings a) j v)

def MadeFor (v : Vector) (made : List Kind) (h : Heap) : Prop :=
  v.data.ptr = none ∧ made = [] ∨ v.data.ptr = some h.blocks.length ∧ made = [.chars]

section Exchange
variable {h : Heap} {a j num : Nat} {v : Vector} {made : List Kind}

theorem exchangeAt (c k : Nat) : (exchange a j v made h).strings c k =
    if c = a ∧ k = j then v else h.strings c k := by
  by_cases array : c = a
  · subst array
    by_cases index : k = j
    · subst index
      simp [exchange]
    · simp [exchange, index]
  · simp [exchange, array]

theorem madeAt (fits : MadeFor v made h) (b : Nat) (kind : Kind) :
    (exchange a j v made h).blocks[b]? = some kind ↔
      h.blocks[b]? = some kind ∨ v.data.ptr = some b ∧ b = h.blocks.length ∧ kind = .chars := by
  show (h.blocks ++ made)[b]? = some kind ↔ _
  rcases fits with ⟨null, rfl⟩ | ⟨here, rfl⟩
  · rw [List.append_nil, null]
    simp
  · rw [here, appendedAt]
    exact or_congr_right ⟨fun ⟨last, same⟩ => ⟨congrArg some last.symm, last, same⟩,
      fun ⟨_, last, same⟩ => ⟨last, same⟩⟩

theorem holdsOld (live : h.Live a num) (inside : j < num) {b : Nat}
    (old : (h.strings a j).data.ptr = some b) : h.Holds a j b := ⟨⟨num, live, inside⟩, old⟩

theorem exchangeLive (sound : Sound h) (live : h.Live a num) (inside : j < num) (fits : MadeFor v made h)
    (c n : Nat) : (exchange a j v made h).Live c n ↔ h.Live c n := by
  unfold Live
  rw [madeAt fits]
  simp only [exchange, reduceCtorEq, and_false, or_false]
  refine and_congr_right fun array => ?_
  by_cases old : (h.strings a j).data.ptr = some c
  · have chars := (sound.held a j c (holdsOld live inside old)).1
    rw [array] at chars
    cases chars
  · rw [if_neg old, Nat.add_zero]

theorem exchangeHolds (sound : Sound h) (live : h.Live a num) (inside : j < num) (fits : MadeFor v made h)
    (c k b : Nat) : (exchange a j v made h).Holds c k b ↔
      (c = a ∧ k = j) ∧ v.data.ptr = some b ∨ ¬ (c = a ∧ k = j) ∧ h.Holds c k b := by
  unfold Holds
  simp only [exchangeLive sound live inside fits, exchangeAt]
  by_cases here : c = a ∧ k = j
  · obtain ⟨rfl, rfl⟩ := here
    simp only [and_self, if_true, true_and, not_true, false_and, or_false]
    exact and_iff_right ⟨num, live, inside⟩
  · simp only [here, if_false, false_and, false_or, not_false_eq_true, true_and]

theorem exchangeSound (sound : Sound h) (live : h.Live a num) (inside : j < num) (usable : Usable v)
    (fits : MadeFor v made h) : Sound (exchange a j v made h) := by
  have lower : ∀ b, h.frees b + (if (h.strings a j).data.ptr = some b then 1 else 0) ≤ 1 := by
    intro b
    by_cases old : (h.strings a j).data.ptr = some b
    · rw [if_pos old, (sound.held a j b (holdsOld live inside old)).2]
    · rw [if_neg old]
      exact sound.once b
  have unborn : ∀ c k, ¬ h.Holds c k h.blocks.length := fun c k holds =>
    absurd (blockLt (sound.held c k _ holds).1) (Nat.lt_irrefl _)
  have newest : ∀ b, v.data.ptr = some b → b = h.blocks.length := by
    intro b new
    rcases fits with ⟨null, -⟩ | ⟨here, -⟩
    · rw [null] at new
      cases new
    · rw [here] at new
      exact (Option.some.inj new).symm
  refine ⟨?_, ?_, lower, ?_, ?_⟩
  · intro c k b holds
    rw [exchangeHolds sound live inside fits] at holds
    rw [madeAt fits]
    show _ ∧ h.frees b + (if (h.strings a j).data.ptr = some b then 1 else 0) = 0
    rcases holds with ⟨-, new⟩ | ⟨away, holds⟩
    · have last := newest b new
      have kept : (h.strings a j).data.ptr ≠ some b := fun old =>
        unborn a j (last ▸ holdsOld live inside old)
      exact ⟨Or.inr ⟨new, last, rfl⟩, by rw [if_neg kept, sound.fresh b (by omega)]⟩
    · obtain ⟨chars, zero⟩ := sound.held c k b holds
      have kept : (h.strings a j).data.ptr ≠ some b := fun old =>
        away (sound.single c k a j b holds (holdsOld live inside old))
      exact ⟨Or.inl chars, by rw [if_neg kept, zero]⟩
  · intro c k d l b first second
    rw [exchangeHolds sound live inside fits] at first second
    rcases first with ⟨⟨rfl, rfl⟩, new⟩ | ⟨-, first⟩ <;> rcases second with ⟨⟨rfl, rfl⟩, new'⟩ | ⟨-, second⟩
    · exact ⟨rfl, rfl⟩
    · exact absurd (newest b new ▸ second) (unborn d l)
    · exact absurd (newest b new' ▸ first) (unborn c k)
    · exact sound.single c k d l b first second
  · intro b beyond
    have past : h.blocks.length ≤ b := by
      have longer : (h.blocks ++ made).length ≤ b := beyond
      rw [List.length_append] at longer
      omega
    show h.frees b + (if (h.strings a j).data.ptr = some b then 1 else 0) = 0
    have kept : (h.strings a j).data.ptr ≠ some b := fun old =>
      absurd (blockLt (sound.held a j b (holdsOld live inside old)).1) (Nat.not_lt.mpr past)
    rw [if_neg kept, sound.fresh b past]
  · intro c n k alive below
    rw [exchangeAt]
    split
    · exact usable
    · exact sound.usable c n k ((exchangeLive sound live inside fits c n).mp alive) below

theorem exchangeLeaked (sound : Sound h) (live : h.Live a num) (inside : j < num) (fits : MadeFor v made h)
    (b : Nat) : (exchange a j v made h).Leaked b ↔ h.Leaked b := by
  unfold Leaked
  rw [madeAt fits]
  simp only [exchangeHolds sound live inside fits]
  show _ ∧ h.frees b + (if (h.strings a j).data.ptr = some b then 1 else 0) = 0 ∧ _ ↔ _
  constructor
  · rintro ⟨block, zero, unheld⟩
    have kept : (h.strings a j).data.ptr ≠ some b := by
      intro old
      rw [if_pos old] at zero
      omega
    refine ⟨?_, by omega, fun c k holds => ?_⟩
    · rcases block with old | ⟨new, -, -⟩
      · exact old
      · exact absurd (Or.inl ⟨⟨rfl, rfl⟩, new⟩) (unheld a j)
    · by_cases here : c = a ∧ k = j
      · obtain ⟨rfl, rfl⟩ := here
        exact kept holds.2
      · exact unheld c k (Or.inr ⟨here, holds⟩)
  · rintro ⟨block, zero, unheld⟩
    have kept : (h.strings a j).data.ptr ≠ some b := fun old => unheld a j (holdsOld live inside old)
    refine ⟨Or.inl block, by rw [if_neg kept, zero], fun c k holds => ?_⟩
    rcases holds with ⟨-, new⟩ | ⟨-, holds⟩
    · rcases fits with ⟨null, -⟩ | ⟨here, -⟩
      · rw [null] at new
        cases new
      · rw [here] at new
        have last := Option.some.inj new
        have old := blockLt block
        omega
    · exact unheld c k holds

theorem exchangeWrites (sound : Sound h) (live : h.Live a num) (inside : j < num) (usable : Usable v)
    (fits : MadeFor v made h) : Writes (some a) h (exchange a j v made h) := by
  refine ⟨exchangeSound sound live inside usable fits, exchangeLeaked sound live inside fits,
    exchangeLive sound live inside fits, fun c away => ?_⟩
  have apart : c ≠ a := fun same => away (by rw [same])
  exact Function.update_of_ne apart _ _

end Exchange

def released (data : Blk) (h : Heap) : Heap :=
  { h with frees := fun b => h.frees b + if data.ptr = some b then 1 else 0 }

theorem destroyChars (ptr k : Nat) (h : Heap) : destroyLoop charElement ptr k h = h := by
  induction k with
  | zero => rfl
  | succ k ih => exact ih

theorem resetChars (data newData : Blk) (h : Heap) :
    reset free charElement data newData h = (newData, released data h) := by
  unfold reset released
  cases data.ptr with
  | none => simp
  | some ptr =>
    simp only [destroyChars, Heap.free, Option.some.injEq]
    congr 2
    funext b
    by_cases same : ptr = b
    · subst same
      rw [Function.update_self, if_pos rfl]
    · rw [Function.update_of_ne (Ne.symm same), if_neg same, Nat.add_zero]

theorem destroyStringEq (a j : Nat) (h : Heap) :
    destroyString a j h = exchange a j { h.strings a j with data := {} } [] h := by
  simp only [destroyString, resetChars, released, setString, exchange, List.append_nil]

theorem idleLoop {σ : Type} {bound left i : Nat} {body : Nat → σ → Option σ} {s : σ}
    (idle : ∀ k, k < bound → body k s = some s) (low : i ≤ bound) (room : bound < i + left) :
    forLoop bound body left i s = some s := by
  obtain ⟨t, ran, rfl⟩ := forLoopRun (fun _ t => t = s) (fun k t below same => by
    subst same
    exact ⟨t, idle k below, rfl⟩) rfl low room
  exact ran

theorem makeChars {num : Nat} (word : num < sizeLimit) (h : Heap) :
    ∃ blk made, makeUnique charElement .chars num h = some (blk, { h with blocks := h.blocks ++ made }) ∧
      blk.size = num ∧ (blk.ptr = none ∧ made = [] ∨ blk.ptr = some h.blocks.length ∧ made = [.chars]) ∧
      (0 < num → ∃ b, blk.ptr = some b) := by
  have length : charElement.sizeof * num = num := Nat.one_mul num
  rw [makeUnique, length, if_pos word, allocate]
  by_cases null : num = 0
  · refine ⟨{}, [], ?_, null.symm, Or.inl ⟨rfl, rfl⟩, fun more => absurd null (Nat.ne_of_gt more)⟩
    rw [if_pos null, null, List.append_nil]
    rfl
  · refine ⟨⟨some h.blocks.length, num⟩, [.chars], ?_, rfl, Or.inr ⟨rfl, rfl⟩, fun _ => ⟨_, rfl⟩⟩
    have still : forLoop num (fun i h' => (some h.blocks.length).map fun ptr => charElement.construct ptr i h')
        sizeLimit 0 { h with blocks := h.blocks ++ [.chars] } = some { h with blocks := h.blocks ++ [.chars] } :=
      idleLoop (fun _ _ => rfl) (Nat.zero_le _) (by omega)
    rw [if_neg null]
    exact congrArg (Option.map fun h' => ((⟨some h.blocks.length, num⟩ : Blk), h')) still

theorem copyChars (data : Blk) {size capacity : Nat} (fits : size ≤ capacity) (counted : size < intLimit)
    (word : capacity < sizeLimit) (h : Heap) :
    ∃ blk made, copyFrom charElement .chars (fun data i h => (slot charElement data i).map fun _ => h)
        data size capacity h = some (⟨blk, size, capacity⟩, { released data h with blocks := h.blocks ++ made }) ∧
      (blk.ptr = none ∧ made = [] ∨ blk.ptr = some h.blocks.length ∧ made = [.chars]) := by
  obtain ⟨blk, made, ran, length, fresh, real⟩ := makeChars word (released data h)
  have still : forLoop size (fun i h => (slot charElement blk i).map fun _ => h) intLimit 0
      { released data h with blocks := h.blocks ++ made } =
      some { released data h with blocks := h.blocks ++ made } := by
    refine idleLoop (fun k below => ?_) (Nat.zero_le _) (by omega)
    obtain ⟨b, here⟩ := real (by omega)
    have room : k < blk.size / charElement.sizeof := by
      rw [length]
      show k < capacity / 1
      omega
    rw [slot, if_pos room, here]
    rfl
  refine ⟨blk, made, ?_, fresh⟩
  rw [copyFrom, resetChars]
  simp only [ran, Option.bind_some, resetChars]
  exact congrArg (Option.map fun h => ((⟨blk, size, capacity⟩ : Vector), h)) still

theorem assignStringEq {data : Blk} {i a : Nat} {val : Vector} (h : Heap)
    (inside : slot stringElement data i = some a) (usable : Usable val) :
    ∃ w made, assignString data i val h = some (exchange a i w made h) ∧ Usable w ∧ MadeFor w made h := by
  obtain ⟨blk, made, ran, fresh⟩ := copyChars (h.strings a i).data usable.fits usable.counted usable.word h
  refine ⟨⟨blk, val.size, val.capacity⟩, made, ?_, ⟨usable.fits, usable.counted, usable.word⟩, fresh⟩
  rw [assignString, inside, Option.bind_some, ran]
  rfl

theorem assignStringNone {data : Blk} {i : Nat} {val : Vector} (h : Heap) (large : intLimit ≤ val.size) :
    assignString data i val h = none := by
  rw [assignString]
  cases slot stringElement data i with
  | none => rfl
  | some a =>
    rw [Option.bind_some, copyFrom]
    simp only
    cases makeUnique charElement .chars val.capacity
        (reset free charElement (h.strings a i).data {} h).2 with
    | none => rfl
    | some made =>
      simp only [Option.bind_some]
      rw [forLoopPast (by omega)]
      rfl

/- `data` owns a live array of num Strings, or nothing if that is none. -/
def Owns (h : Heap) (data : Blk) (num : Nat) : Prop :=
  num = 0 ∧ data = {} ∨ 0 < num ∧ ∃ a, data = ⟨some a, stringElement.sizeof * num⟩ ∧ h.Live a num

theorem ownsSlot {h : Heap} {data : Blk} {num i : Nat} (owns : Owns h data num) (inside : i < num) :
    ∃ a, data.ptr = some a ∧ h.Live a num ∧ slot stringElement data i = some a := by
  rcases owns with ⟨null, -⟩ | ⟨-, a, rfl, live⟩
  · omega
  · have room : i < stringElement.sizeof * num / stringElement.sizeof := by
      show i < 48 * num / 48
      omega
    exact ⟨a, rfl, live, if_pos room⟩

theorem ownsKept {h h' : Heap} {data : Blk} {num : Nat} (owns : Owns h data num)
    (live : ∀ a, data.ptr = some a → h.Live a num → h'.Live a num) : Owns h' data num := by
  rcases owns with null | ⟨more, a, rfl, alive⟩
  · exact Or.inl null
  · exact Or.inr ⟨more, a, rfl, live a rfl alive⟩

theorem assignWrites {h : Heap} (sound : Sound h) {data : Blk} {num i : Nat} (owns : Owns h data num)
    (inside : i < num) {val : Vector} (usable : Usable val) :
    ∃ h', assignString data i val h = some h' ∧ Writes data.ptr h h' := by
  obtain ⟨a, here, live, there⟩ := ownsSlot owns inside
  obtain ⟨w, made, ran, usable', fits⟩ := assignStringEq h there usable
  exact ⟨_, ran, here ▸ exchangeWrites sound live inside usable' fits⟩

theorem assignLoop {h : Heap} (sound : Sound h) {source data : Blk} {num num' bound left : Nat}
    (origin : Owns h source num') (owns : Owns h data num) (low : bound ≤ num') (inside : bound ≤ num)
    (room : bound < left) :
    ∃ h', forLoop bound (assignElement source data) left 0 h = some h' ∧ Writes data.ptr h h' := by
  refine forLoopRun (fun _ h' => Writes data.ptr h h') (fun i mid below held => ?_)
    (Writes.refl sound data.ptr) (Nat.zero_le _) (by omega)
  have source' : Owns mid source num' := ownsKept origin fun a _ => (held.live a num').mpr
  have target : Owns mid data num := ownsKept owns fun a _ => (held.live a num).mpr
  obtain ⟨a, -, live, there⟩ := ownsSlot source' (show i < num' by omega)
  have usable := held.sound.usable a num' i live (by omega)
  obtain ⟨h', ran, next⟩ := assignWrites held.sound target (show i < num by omega) usable
  exact ⟨h', by rw [assignElement, there, Option.bind_some, ran], held.trans next⟩

structure Made (data : Blk) (num : Nat) (h h' : Heap) : Prop where
  sound : Sound h'
  owns : Owns h' data num
  leaks : ∀ b, h'.Leaked b ↔ h.Leaked b
  live : ∀ c n, some c ≠ data.ptr → (h'.Live c n ↔ h.Live c n)
  unborn : ∀ c n, some c = data.ptr → ¬ h.Live c n
  other : ∀ c, some c ≠ data.ptr → h'.strings c = h.strings c

structure Constructed (a : Nat) (h : Heap) (i : Nat) (h' : Heap) : Prop where
  blocks : h'.blocks = h.blocks
  frees : h'.frees = h.frees
  other : ∀ c, c ≠ a → h'.strings c = h.strings c
  done : ∀ j, j < i → h'.strings a j = {}

theorem constructLoop (a num : Nat) (h : Heap) (word : num < sizeLimit) :
    ∃ h', forLoop num (fun i h => (some a).map fun ptr => stringElement.construct ptr i h) sizeLimit 0 h =
      some h' ∧ Constructed a h num h' := by
  refine forLoopRun (Constructed a h) (fun i mid _ held => ⟨mid.setString a i {}, rfl, held.blocks, held.frees, ?_, ?_⟩)
    ⟨rfl, rfl, fun _ _ => rfl, fun _ below => absurd below (Nat.not_lt_zero _)⟩ (Nat.zero_le _) (by omega)
  · intro c away
    exact (Function.update_of_ne away _ _).trans (held.other c away)
  · intro j below
    show Function.update mid.strings a _ a j = _
    rw [Function.update_self]
    by_cases last : j = i
    · rw [last, Function.update_self]
    · rw [Function.update_of_ne last, held.done j (by omega)]

theorem usableEmpty : Usable {} :=
  ⟨le_rfl, Nat.two_pow_pos 31, Nat.two_pow_pos 64⟩

section Construct
variable {h h' : Heap} {num : Nat}
  (done : Constructed h.blocks.length { h with blocks := h.blocks ++ [.strings num] } num h')
include done

theorem constructedBlock (c : Nat) (kind : Kind) : h'.blocks[c]? = some kind ↔
    h.blocks[c]? = some kind ∨ c = h.blocks.length ∧ kind = .strings num := by
  rw [done.blocks]
  exact appendedAt h.blocks (.strings num) kind c

theorem constructedFrees : h'.frees = h.frees := done.frees

theorem constructedOld {c : Nat} {kind : Kind} (block : h.blocks[c]? = some kind) :
    h'.strings c = h.strings c := done.other c (Nat.ne_of_lt (blockLt block))

theorem constructedLive (sound : Sound h) (c n : Nat) :
    h'.Live c n ↔ h.Live c n ∨ c = h.blocks.length ∧ n = num := by
  unfold Live
  rw [constructedBlock done, constructedFrees done]
  constructor
  · rintro ⟨old | ⟨here, same⟩, zero⟩
    · exact Or.inl ⟨old, zero⟩
    · exact Or.inr ⟨here, Kind.strings.inj same⟩
  · rintro (⟨old, zero⟩ | ⟨here, rfl⟩)
    · exact ⟨Or.inl old, zero⟩
    · exact ⟨Or.inr ⟨here, rfl⟩, sound.fresh c (by omega)⟩

theorem constructedHolds (sound : Sound h) (c j b : Nat) : h'.Holds c j b ↔ h.Holds c j b := by
  unfold Holds
  simp only [constructedLive done sound]
  constructor
  · rintro ⟨⟨n, old | ⟨here, rfl⟩, inside⟩, ptr⟩
    · rw [constructedOld done old.1] at ptr
      exact ⟨⟨n, old, inside⟩, ptr⟩
    · rw [here, done.done j inside] at ptr
      cases ptr
  · rintro ⟨⟨n, old, inside⟩, ptr⟩
    rw [constructedOld done old.1]
    exact ⟨⟨n, Or.inl old, inside⟩, ptr⟩

theorem constructedSound (sound : Sound h) : Sound h' := by
  have holds := constructedHolds done sound
  refine ⟨?_, ?_, ?_, ?_, ?_⟩
  · intro c j b held
    obtain ⟨chars, zero⟩ := sound.held c j b ((holds c j b).mp held)
    exact ⟨(constructedBlock done b _).mpr (Or.inl chars), by rw [constructedFrees done, zero]⟩
  · intro c j d k b first second
    exact sound.single c j d k b ((holds c j b).mp first) ((holds d k b).mp second)
  · intro b
    rw [constructedFrees done]
    exact sound.once b
  · intro b beyond
    rw [done.blocks] at beyond
    have longer : (h.blocks ++ [Kind.strings num]).length ≤ b := beyond
    rw [List.length_append] at longer
    rw [constructedFrees done]
    exact sound.fresh b (by omega)
  · intro c n j alive below
    rcases (constructedLive done sound c n).mp alive with old | ⟨here, rfl⟩
    · rw [constructedOld done old.1]
      exact sound.usable c n j old below
    · rw [here, done.done j below]
      exact usableEmpty

theorem constructedMade (sound : Sound h) (more : 0 < num) :
    Made ⟨some h.blocks.length, stringElement.sizeof * num⟩ num h h' := by
  have live := constructedLive done sound
  refine ⟨constructedSound done sound, Or.inr ⟨more, _, rfl, (live _ _).mpr (Or.inr ⟨rfl, rfl⟩)⟩,
    fun b => ?_, fun c n other => ?_, fun c n here alive => ?_, fun c other => ?_⟩
  · unfold Leaked
    simp only [constructedHolds done sound, constructedFrees done, constructedBlock done, reduceCtorEq,
      and_false, or_false]
  · rw [live]
    exact or_iff_left (fun here => other (congrArg some here.1))
  · have old := blockLt alive.1
    exact absurd (Option.some.inj here) (Nat.ne_of_lt old)
  · exact done.other c fun same => other (congrArg some same)

end Construct

theorem makeStringsSpec {h : Heap} (sound : Sound h) {num : Nat} (word : stringElement.sizeof * num < sizeLimit) :
    ∃ data h', makeStrings num h = some (data, h') ∧ Made data num h h' := by
  have word' : 48 * num < sizeLimit := word
  by_cases null : num = 0
  · subst null
    refine ⟨{}, h, rfl, sound, Or.inl ⟨rfl, rfl⟩, fun _ => Iff.rfl, fun _ _ _ => Iff.rfl, ?_, fun _ _ => rfl⟩
    intro c n absent
    cases absent
  · have real : stringElement.sizeof * num ≠ 0 := by
      show 48 * num ≠ 0
      omega
    obtain ⟨h', ran, done⟩ := constructLoop h.blocks.length num
      { h with blocks := h.blocks ++ [.strings num] } (by omega)
    refine ⟨_, h', ?_, constructedMade done sound (Nat.pos_of_ne_zero null)⟩
    rw [makeStrings, makeUnique, if_pos word, allocate, if_neg real]
    exact congrArg (Option.map fun h' => ((⟨some h.blocks.length, stringElement.sizeof * num⟩ : Blk), h')) ran

theorem makeStringsNone {h : Heap} {num : Nat} (large : ¬ stringElement.sizeof * num < sizeLimit) :
    makeStrings num h = none := if_neg large

theorem destroyWrites {h : Heap} (sound : Sound h) {a num : Nat} (live : h.Live a num) (more : 0 < num) :
    Writes (some a) h (destroyString a 0 h) := by
  have usable := sound.usable a num 0 live more
  rw [destroyStringEq]
  exact exchangeWrites sound live more ⟨usable.fits, usable.counted, usable.word⟩ (Or.inl ⟨rfl, rfl⟩)

theorem destroyLoopSpec {h : Heap} (sound : Sound h) {a num : Nat} (live : h.Live a num) (more : 0 < num)
    (k : Nat) :
    Writes (some a) h (destroyLoop stringElement a k h) ∧
      (∀ j, j ≠ 0 → (destroyLoop stringElement a k h).strings a j = h.strings a j) ∧
      ((destroyLoop stringElement a k h).strings a 0).data.ptr =
        if k = 0 then (h.strings a 0).data.ptr else none := by
  induction k generalizing h with
  | zero => exact ⟨Writes.refl sound _, fun _ _ => rfl, rfl⟩
  | succ k ih =>
    have first := destroyWrites sound live more
    obtain ⟨rest, away, front⟩ := ih first.sound ((first.live a num).mpr live)
    have after : ∀ j, (destroyString a 0 h).strings a j =
        if j = 0 then { h.strings a 0 with data := {} } else h.strings a j := by
      intro j
      rw [destroyStringEq, exchangeAt]
      simp only [true_and]
    refine ⟨first.trans rest, fun j other => ?_, ?_⟩
    · exact (away j other).trans (by rw [after, if_neg other])
    · refine front.trans ?_
      rw [after, if_pos rfl, if_neg (Nat.succ_ne_zero k)]
      split <;> rfl

section FreeArray
variable {h : Heap} {a num : Nat}

theorem freeLive (live : h.Live a num) (c n : Nat) : (h.free a).Live c n ↔ h.Live c n ∧ c ≠ a := by
  unfold Live Heap.free
  by_cases same : c = a
  · subst same
    simp [live.2]
  · simp [same]

theorem freeHolds (live : h.Live a num) (c j b : Nat) : (h.free a).Holds c j b ↔ h.Holds c j b ∧ c ≠ a := by
  unfold Holds
  simp only [freeLive live]
  constructor
  · rintro ⟨⟨n, ⟨alive, away⟩, inside⟩, ptr⟩
    exact ⟨⟨⟨n, alive, inside⟩, ptr⟩, away⟩
  · rintro ⟨⟨⟨n, alive, inside⟩, ptr⟩, away⟩
    exact ⟨⟨n, ⟨alive, away⟩, inside⟩, ptr⟩

theorem freeOther {b : Nat} (away : b ≠ a) : (h.free a).frees b = h.frees b :=
  Function.update_of_ne away _ _

theorem freeSelf : (h.free a).frees a = h.frees a + 1 := Function.update_self _ _ _

theorem freeStrings : (h.free a).strings = h.strings := rfl

theorem charsNotLive (live : h.Live a num) {b : Nat} (chars : h.blocks[b]? = some .chars) : b ≠ a := by
  intro same
  rw [same, live.1] at chars
  cases chars

theorem freeSound (sound : Sound h) (live : h.Live a num) : Sound (h.free a) := by
  refine ⟨?_, ?_, ?_, ?_, ?_⟩
  · intro c j b holds
    obtain ⟨chars, zero⟩ := sound.held c j b ((freeHolds live c j b).mp holds).1
    exact ⟨chars, by rw [freeOther (charsNotLive live chars), zero]⟩
  · intro c j d k b first second
    exact sound.single c j d k b ((freeHolds live c j b).mp first).1 ((freeHolds live d k b).mp second).1
  · intro b
    by_cases same : b = a
    · rw [same, freeSelf, live.2]
    · rw [freeOther same]
      exact sound.once b
  · intro b beyond
    have past : h.blocks.length ≤ b := beyond
    have away : b ≠ a := by
      have old := blockLt live.1
      omega
    rw [freeOther away]
    exact sound.fresh b beyond
  · intro c n j alive below
    exact sound.usable c n j ((freeLive live c n).mp alive).1 below

theorem freeLeaked (sound : Sound h) (live : h.Live a num) (b : Nat) :
    (h.free a).Leaked b ↔ h.Leaked b ∨ ∃ j, j < num ∧ (h.strings a j).data.ptr = some b := by
  unfold Leaked
  simp only [freeHolds live]
  constructor
  · rintro ⟨chars, zero, unheld⟩
    rw [freeOther (charsNotLive live chars)] at zero
    by_cases mine : ∃ j, j < num ∧ (h.strings a j).data.ptr = some b
    · exact Or.inr mine
    · refine Or.inl ⟨chars, zero, fun c j holds => ?_⟩
      by_cases same : c = a
      · subst same
        obtain ⟨⟨n, alive, inside⟩, ptr⟩ := holds
        have size : n = num := by
          have both := alive.1.symm.trans live.1
          exact Kind.strings.inj (Option.some.inj both)
        exact mine ⟨j, size ▸ inside, ptr⟩
      · exact unheld c j ⟨holds, same⟩
  · rintro (⟨chars, zero, unheld⟩ | ⟨j, inside, ptr⟩)
    · refine ⟨chars, by rw [freeOther (charsNotLive live chars), zero], fun c j holds => unheld c j holds.1⟩
    · have mine : h.Holds a j b := ⟨⟨num, live, inside⟩, ptr⟩
      obtain ⟨chars, zero⟩ := sound.held a j b mine
      refine ⟨chars, by rw [freeOther (charsNotLive live chars), zero], fun c k holds => ?_⟩
      exact holds.2 (sound.single c k a j b holds.1 mine).1

end FreeArray

/- A buffer in an array of num Strings that reset does not come to: past element 0, or anywhere
when num is none as an int. -/
def Unreached (h : Heap) (data : Blk) (num b : Nat) : Prop :=
  ∃ a j, data.ptr = some a ∧ j < num ∧ (h.strings a j).data.ptr = some b ∧ ¬ (j = 0 ∧ 0 < toInt num)

structure Dropped (data : Blk) (num : Nat) (h h' : Heap) : Prop where
  sound : Sound h'
  leaks : ∀ b, h'.Leaked b ↔ h.Leaked b ∨ Unreached h data num b
  live : ∀ c n, h'.Live c n ↔ h.Live c n ∧ some c ≠ data.ptr
  other : ∀ c, some c ≠ data.ptr → h'.strings c = h.strings c

theorem dropSpec {h : Heap} (sound : Sound h) {data : Blk} {num : Nat} (owns : Owns h data num) (newData : Blk) :
    ∃ h', reset free stringElement data newData h = (newData, h') ∧ Dropped data num h h' := by
  rcases owns with ⟨null, rfl⟩ | ⟨more, a, rfl, live⟩
  · refine ⟨h, rfl, sound, fun b => ?_, fun c n => ?_, fun _ _ => rfl⟩
    · have nothing : ¬ Unreached h {} num b := by
        rintro ⟨a, j, ptr, -⟩
        cases ptr
      exact (or_iff_left nothing).symm
    · exact (and_iff_left (Option.some_ne_none c)).symm
  · obtain ⟨writes, away, front⟩ := destroyLoopSpec sound live more (toInt num).toNat
    have live' := (writes.live a num).mpr live
    have length : rounds stringElement (stringElement.sizeof * num) = (toInt num).toNat := by
      rw [rounds, Nat.mul_div_cancel_left num (show 0 < stringElement.sizeof from Nat.succ_pos 47)]
    refine ⟨(destroyLoop stringElement a (toInt num).toNat h).free a, ?_, freeSound writes.sound live',
      fun b => ?_, fun c n => ?_, fun c other => ?_⟩
    · simp only [reset, length]
    · rw [freeLeaked writes.sound live', writes.leaks]
      refine or_congr_right ?_
      constructor
      · rintro ⟨j, inside, ptr⟩
        by_cases first : j = 0
        · subst first
          rw [front] at ptr
          by_cases absent : (toInt num).toNat = 0
          · rw [if_pos absent] at ptr
            have low : ¬ 0 < toInt num := by omega
            exact ⟨a, 0, rfl, inside, ptr, fun reached => low reached.2⟩
          · rw [if_neg absent] at ptr
            cases ptr
        · rw [away j first] at ptr
          exact ⟨a, j, rfl, inside, ptr, fun reached => first reached.1⟩
      · rintro ⟨a', j, same, inside, ptr, unreached⟩
        cases Option.some.inj same
        refine ⟨j, inside, ?_⟩
        by_cases first : j = 0
        · subst first
          rw [front, if_pos (by omega), ptr]
        · rw [away j first, ptr]
    · rw [freeLive live', writes.live]
      simp only [ne_eq, Option.some.injEq]
    · rw [freeStrings, writes.other c other]

end DimOS.Cpp.StringArrays
