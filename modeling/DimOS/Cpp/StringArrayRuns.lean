import Mathlib
import DimOS.Cpp.StringArrays
import DimOS.Cpp.Vector
import DimOS.Lib.Transition

/-! Runs of calls on Vector<String> objects: which buffers are released by the time that all the
objects are gone. The sizes and capacities on the way are those of the Vector of elements. -/
namespace DimOS.Cpp.StringArrays
open UniquePtrs
open Lib.CountedLoop
open Lib.Transition
open Heap

structure Formed (h : Heap) (v : Vector) : Prop where
  fits : v.size ≤ v.capacity
  word : stringElement.sizeof * v.capacity < sizeLimit
  owns : Owns h v.data v.capacity

theorem capacityLt {num : Nat} (word : stringElement.sizeof * num < sizeLimit) : num < sizeLimit := by
  have word' : 48 * num < sizeLimit := word
  omega

theorem ownsLive {h : Heap} {data : Blk} {num a : Nat} (owns : Owns h data num) (here : data.ptr = some a) :
    h.Live a num := by
  rcases owns with ⟨-, rfl⟩ | ⟨-, c, rfl, live⟩
  · cases here
  · cases here
    exact live

theorem formedEmpty (h : Heap) : Formed h {} := ⟨le_rfl, Nat.two_pow_pos 64, Or.inl ⟨rfl, rfl⟩⟩

/- An operation on one Vector: its array `old` makes way for `new`, the others stay. -/
structure Moved (old new : Option Nat) (lost : Nat → Prop) (h h' : Heap) : Prop where
  sound : Sound h'
  leaks : ∀ b, h'.Leaked b ↔ h.Leaked b ∨ lost b
  live : ∀ c n, some c ≠ old → some c ≠ new → (h'.Live c n ↔ h.Live c n)
  unborn : ∀ c n, some c = new → h.Live c n → some c = old
  dropped : ∀ c n, some c = old → some c ≠ new → ¬ h'.Live c n

theorem movedWrites {p : Option Nat} {h h' : Heap} (writes : Writes p h h') : Moved p p (fun _ => False) h h' :=
  ⟨writes.sound, fun b => by rw [writes.leaks, or_false], fun c n _ _ => writes.live c n,
    fun _ _ same _ => same, fun _ _ same other => absurd same other⟩

theorem Moved.stored {old new : Option Nat} {lost : Nat → Prop} {h h' h'' : Heap} (moved : Moved old new lost h h')
    (writes : Writes new h' h'') : Moved old new lost h h'' :=
  ⟨writes.sound, fun b => (writes.leaks b).trans (moved.leaks b),
    fun c n away other => (writes.live c n).trans (moved.live c n away other), moved.unborn,
    fun c n same other live => moved.dropped c n same other ((writes.live c n).mp live)⟩

theorem formedWrites {p : Option Nat} {h h' : Heap} {v : Vector} (formed : Formed h v) (writes : Writes p h h') :
    Formed h' v :=
  ⟨formed.fits, formed.word, ownsKept formed.owns fun a _ => (writes.live a _).mpr⟩

theorem unreachedCongr {h h' : Heap} {data : Blk} (same : ∀ a, data.ptr = some a → h'.strings a = h.strings a)
    (num b : Nat) : Unreached h' data num b ↔ Unreached h data num b := by
  unfold Unreached
  refine exists_congr fun a => exists_congr fun j => and_congr_right fun here => ?_
  rw [same a here]

theorem growSpec {h : Heap} (sound : Sound h) {v : Vector} (formed : Formed h v) {newCapacity : Nat}
    (more : v.size ≤ newCapacity) (word : stringElement.sizeof * newCapacity < sizeLimit) :
    ∃ w h', realloc v v.size newCapacity h = some (w, h') ∧ Formed h' w ∧ w.size = v.size ∧
      w.capacity = newCapacity ∧ Moved v.data.ptr w.data.ptr (Unreached h v.data v.capacity) h h' := by
  have fits := formed.fits
  have small := capacityLt formed.word
  obtain ⟨newData, h1, made, fresh⟩ := makeStringsSpec sound word
  have apart : ∀ a, v.data.ptr = some a → some a ≠ newData.ptr := fun a here same =>
    fresh.unborn a _ same (ownsLive formed.owns here)
  have owns1 : Owns h1 v.data v.capacity := ownsKept formed.owns fun a here live =>
    (fresh.live a _ (apart a here)).mpr live
  obtain ⟨h2, filled, writes⟩ := @assignLoop h1 fresh.sound v.data newData newCapacity v.capacity v.size
    sizeLimit owns1 fresh.owns fits more (by omega)
  have owns2 : Owns h2 v.data v.capacity := ownsKept owns1 fun a _ => (writes.live a _).mpr
  obtain ⟨h3, gone, dropped⟩ := dropSpec writes.sound owns2 newData
  have new2 : Owns h2 newData newCapacity := ownsKept fresh.owns fun a _ => (writes.live a _).mpr
  have new3 : Owns h3 newData newCapacity := by
    refine ownsKept new2 fun a here live => (dropped.live a _).mpr ⟨live, fun same => ?_⟩
    exact apart a same.symm here.symm
  refine ⟨⟨newData, v.size, newCapacity⟩, h3, ?_, ⟨more, word, new3⟩, rfl, rfl, dropped.sound, fun b => ?_,
    fun c n away other => ?_, fun c n same live => absurd live (fresh.unborn c n same), fun c n same _ live => ?_⟩
  · simp only [realloc, if_pos more, made, Option.bind_some, Nat.min_self, filled]
    rw [forLoopDone le_rfl (by omega)]
    simp only [Option.map_some, gone]
  · rw [dropped.leaks, writes.leaks, fresh.leaks]
    refine or_congr_right (unreachedCongr (fun a here => ?_) _ b)
    rw [writes.other a (apart a here), fresh.other a (apart a here)]
  · rw [dropped.live, writes.live, fresh.live c n other]
    exact and_iff_left away
  · exact ((dropped.live c n).mp live).2 same

theorem storeBackSpec {h : Heap} (sound : Sound h) {v val : Vector} (formed : Formed h v) (room : v.size < v.capacity)
    (usable : Usable val) :
    ∃ h', assignString v.data v.size val h = some h' ∧ Writes v.data.ptr h h' ∧
      Formed h' { v with size := v.size + 1 } := by
  obtain ⟨h', ran, writes⟩ := assignWrites sound formed.owns room usable
  have kept := formedWrites formed writes
  exact ⟨h', ran, writes, room, kept.word, kept.owns⟩

theorem pushBackSpec {h : Heap} (sound : Sound h) {v val : Vector} (formed : Formed h v) (usable : Usable val)
    (growth : v.capacity = v.size → stringElement.sizeof * (v.size * 2 + 1) < sizeLimit) :
    ∃ w h', pushBack v val h = some (w, h') ∧ Formed h' w ∧ w.size = v.size + 1 ∧
      Moved v.data.ptr w.data.ptr (fun b => v.capacity = v.size ∧ Unreached h v.data v.capacity b) h h' := by
  rw [pushBack]
  by_cases full : v.capacity = v.size
  · have word := growth full
    rw [if_pos full, Nat.mod_eq_of_lt (capacityLt word)]
    obtain ⟨u, h1, grown, formed1, size, capacity, moved⟩ := growSpec sound formed
      (show v.size ≤ v.size * 2 + 1 by omega) word
    obtain ⟨h', stored, writes, formed'⟩ := storeBackSpec moved.sound formed1
      (show u.size < u.capacity by omega) usable
    refine ⟨{ u with size := u.size + 1 }, h', ?_, formed', congrArg (· + 1) size, ?_⟩
    · rw [grown, Option.bind_some]
      simp only [stored, Option.map_some]
    · have all := moved.stored writes
      exact ⟨all.sound, fun b => (all.leaks b).trans (or_congr_right (and_iff_right full).symm),
        all.live, all.unborn, all.dropped⟩
  · have fits := formed.fits
    obtain ⟨h', stored, writes, formed'⟩ := storeBackSpec sound formed (show v.size < v.capacity by omega) usable
    refine ⟨{ v with size := v.size + 1 }, h', ?_, formed', rfl, ?_⟩
    · rw [if_neg full, Option.bind_some]
      simp only [stored, Option.map_some]
    · have all := movedWrites writes
      exact ⟨all.sound, fun b => (all.leaks b).trans (or_congr_right
        ⟨False.elim, fun lost => full lost.1⟩), all.live, all.unborn, all.dropped⟩

theorem pushBackNone {h : Heap} {v val : Vector} (formed : Formed h v)
    (bad : intLimit ≤ val.size ∨ v.capacity = v.size ∧ ¬ stringElement.sizeof * (v.size * 2 + 1) < sizeLimit) :
    pushBack v val h = none := by
  rw [pushBack]
  rcases bad with large | ⟨full, past⟩
  · cases grown : (if v.capacity = v.size then realloc v v.size ((v.size * 2 + 1) % sizeLimit) h
        else some (v, h)) with
    | none => rfl
    | some u =>
      simp only [Option.bind_some, assignStringNone u.2 large]
      rfl
  · have small : v.size * 2 + 1 < sizeLimit := by
      have word : 48 * v.capacity < sizeLimit := formed.word
      have pos : sizeLimit = 2 ^ 64 := rfl
      omega
    rw [if_pos full, Nat.mod_eq_of_lt small, realloc, if_pos (by omega), makeStringsNone past]
    rfl

/- Where the elements of a copy come from: the other object's array, or the own new one. -/
def Source (dst src : Vector) (self : Bool) : Prop :=
  if self = true then dst = src else ∀ a, src.data.ptr = some a → dst.data.ptr ≠ some a

theorem copySpec {h : Heap} (sound : Sound h) {dst src : Vector} (formed : Formed h dst) (formed' : Formed h src)
    {self : Bool} (source : Source dst src self) (counted : src.size < intLimit) :
    ∃ w h', copyStrings dst src self h = some (w, h') ∧ Formed h' w ∧ w.size = src.size ∧
      Moved dst.data.ptr w.data.ptr (Unreached h dst.data dst.capacity) h h' := by
  have fits := formed'.fits
  obtain ⟨h1, gone, dropped⟩ := dropSpec sound formed.owns {}
  obtain ⟨newData, h2, made, fresh⟩ := makeStringsSpec dropped.sound formed'.word
  obtain ⟨h3, filled, writes⟩ : ∃ h3, forLoop src.size
      (assignElement (if self = true then newData else src.data) newData) intLimit 0 h2 = some h3 ∧
      Writes newData.ptr h2 h3 := by
    by_cases own : self = true
    · rw [if_pos own]
      exact assignLoop fresh.sound fresh.owns fresh.owns fits fits counted
    · rw [if_neg own]
      rw [Source, if_neg own] at source
      have owns1 : Owns h1 src.data src.capacity := ownsKept formed'.owns fun a here live =>
        (dropped.live a _).mpr ⟨live, fun same => source a here same.symm⟩
      have owns2 : Owns h2 src.data src.capacity := ownsKept owns1 fun a here live =>
        (fresh.live a _ fun same => fresh.unborn a _ same live).mpr live
      exact assignLoop fresh.sound owns2 fresh.owns fits fits counted
  have moved : Moved dst.data.ptr newData.ptr (Unreached h dst.data dst.capacity) h h2 := by
    refine ⟨fresh.sound, fun b => (fresh.leaks b).trans (dropped.leaks b), fun c n away other => ?_,
      fun c n same live => ?_, fun c n same other live => ?_⟩
    · rw [fresh.live c n other, dropped.live]
      exact and_iff_left away
    · by_contra away
      exact fresh.unborn c n same ((dropped.live c n).mpr ⟨live, away⟩)
    · exact ((dropped.live c n).mp ((fresh.live c n other).mp live)).2 same
  refine ⟨⟨newData, src.size, src.capacity⟩, h3, ?_, ?_, rfl, moved.stored writes⟩
  · rw [copyStrings, copyFrom, gone]
    rw [makeStrings] at made
    simp only [made, Option.bind_some]
    have still : reset free stringElement {} newData h2 = (newData, h2) := rfl
    simp only [still, filled, Option.map_some]
  · exact formedWrites ⟨fits, formed'.word, fresh.owns⟩ writes

theorem copyNone {h : Heap} {dst src : Vector} {self : Bool} (large : intLimit ≤ src.size) :
    copyStrings dst src self h = none := by
  rw [copyStrings, copyFrom]
  simp only
  cases makeUnique stringElement (.strings src.capacity) src.capacity
      (reset free stringElement dst.data {} h).2 with
  | none => rfl
  | some made =>
    simp only [Option.bind_some]
    rw [forLoopPast (by omega)]
    rfl

theorem destroySpec {h : Heap} (sound : Sound h) {v : Vector} (formed : Formed h v) :
    Moved v.data.ptr none (Unreached h v.data v.capacity) h (destroyVector v h) := by
  obtain ⟨h', gone, dropped⟩ := dropSpec sound formed.owns {}
  rw [destroyVector, gone]
  refine ⟨dropped.sound, dropped.leaks, fun c n away _ => ?_, fun c n absent => (by cases absent),
    fun c n same _ live => ((dropped.live c n).mp live).2 same⟩
  rw [dropped.live]
  exact and_iff_left away

section Shape
variable {T : Type}

def SameShape (u : Vector) (v : Vectors.Vector T) : Prop := u.size = v.size ∧ u.capacity = v.capacity

theorem popBackShape {u w : Vector} {v v' : Vectors.Vector T} (same : SameShape u v) (blocks : popBack u = some w)
    (elements : v.popBack = some v') : SameShape w v' := by
  obtain ⟨size, capacity⟩ := same
  unfold popBack at blocks
  unfold Vectors.Vector.popBack at elements
  by_cases more : u.size > 0
  · rw [if_pos more] at blocks
    rw [if_pos (size ▸ more)] at elements
    cases Option.some.inj blocks
    cases Option.some.inj elements
    exact ⟨congrArg (· - 1) size, capacity⟩
  · rw [if_neg more] at blocks
    cases blocks

variable [Inhabited T]

theorem reallocShape {u w : Vector} {h h' : Heap} {v v' : Vectors.Vector T} {newSize newCapacity : Nat}
    (blocks : realloc u newSize newCapacity h = some (w, h')) (elements : v.realloc newSize newCapacity = some v') :
    SameShape w v' := by
  unfold realloc at blocks
  unfold Vectors.Vector.realloc at elements
  by_cases room : newSize ≤ newCapacity
  · rw [if_pos room] at blocks elements
    obtain ⟨made, -, blocks⟩ := Option.bind_eq_some_iff.mp blocks
    obtain ⟨h1, -, blocks⟩ := Option.bind_eq_some_iff.mp blocks
    obtain ⟨h2, -, same⟩ := Option.map_eq_some_iff.mp blocks
    obtain ⟨kept, -, elements⟩ := Option.bind_eq_some_iff.mp elements
    obtain ⟨newData, -, rfl⟩ := Option.map_eq_some_iff.mp elements
    obtain ⟨rfl, -⟩ := Prod.mk.inj same
    exact ⟨rfl, rfl⟩
  · rw [if_neg room] at blocks
    cases blocks

theorem pushBackShape {u w val : Vector} {h h' : Heap} {v v' : Vectors.Vector T} {x : T} (same : SameShape u v)
    (blocks : pushBack u val h = some (w, h')) (elements : v.pushBack x = some v') : SameShape w v' := by
  obtain ⟨size, capacity⟩ := same
  have grown : Vectors.toSize ((v.size : Int) * 2 + 1) = (u.size * 2 + 1) % sizeLimit := by
    rw [size]
    unfold Vectors.toSize sizeLimit
    omega
  unfold pushBack at blocks
  unfold Vectors.Vector.pushBack at elements
  obtain ⟨⟨u1, h1⟩, left, blocks⟩ := Option.bind_eq_some_iff.mp blocks
  obtain ⟨v1, right, elements⟩ := Option.bind_eq_some_iff.mp elements
  obtain ⟨h2, -, last⟩ := Option.map_eq_some_iff.mp blocks
  obtain ⟨data, -, rfl⟩ := Option.map_eq_some_iff.mp elements
  obtain ⟨rfl, -⟩ := Prod.mk.inj last
  have before : SameShape u1 v1 := by
    by_cases full : u.capacity = u.size
    · rw [if_pos full] at left
      rw [if_pos (show v.capacity = v.size by omega), grown, ← size] at right
      exact reallocShape left right
    · rw [if_neg full] at left
      rw [if_neg (show ¬ v.capacity = v.size by omega)] at right
      cases Option.some.inj left
      cases Option.some.inj right
      exact ⟨size, capacity⟩
  exact ⟨congrArg (· + 1) before.1, before.2⟩

theorem copyShape {dst src w : Vector} {self : Bool} {h h' : Heap} {v v' : Vectors.Vector T} (same : SameShape src v)
    (blocks : copyStrings dst src self h = some (w, h')) (elements : v.copyFrom = some v') : SameShape w v' := by
  unfold copyStrings copyFrom at blocks
  obtain ⟨made, -, blocks⟩ := Option.bind_eq_some_iff.mp blocks
  obtain ⟨h1, -, last⟩ := Option.map_eq_some_iff.mp blocks
  obtain ⟨data, -, rfl⟩ := Option.map_eq_some_iff.mp elements
  obtain ⟨rfl, -⟩ := Prod.mk.inj last
  exact same

end Shape

structure Machine where
  heap : Heap
  objects : Nat → Option Vector

namespace Machine

def start : Machine := ⟨⟨[], fun _ => 0, fun _ _ => {}⟩, fun _ => none⟩

/- The calls on Vector<String> objects; `val` is a String of the caller. -/
inductive Op where
  | create (obj : Nat)
  | pushBack (obj : Nat) (val : Vector)
  | popBack (obj : Nat)
  | copyConstruct (dst src : Nat)
  | assign (dst src : Nat)
  | destroy (obj : Nat)

def put (m : Machine) (obj : Nat) (result : Option (Vector × Heap)) : Option Machine :=
  result.map fun (v, h) => ⟨h, Function.update m.objects obj (some v)⟩

/- A call on an object that is not there, or a construction over one that is, has no result. -/
def step (m : Machine) : Op → Option Machine
  | .create obj => if m.objects obj = none then m.put obj (some ({}, m.heap)) else none
  | .pushBack obj val => (m.objects obj).bind fun v => m.put obj (pushBack v val m.heap)
  | .popBack obj => (m.objects obj).bind fun v => m.put obj ((popBack v).map fun v => (v, m.heap))
  | .copyConstruct dst src =>
    if m.objects dst = none then
      (m.objects src).bind fun v => m.put dst (copyStrings {} v false m.heap)
    else none
  | .assign dst src =>
    (m.objects dst).bind fun u => (m.objects src).bind fun v =>
      m.put dst (copyStrings u v (decide (dst = src)) m.heap)
  | .destroy obj =>
    (m.objects obj).map fun v => ⟨destroyVector v m.heap, Function.update m.objects obj none⟩

/- The sizes of the objects, which say what calls there are: an object has to be there, and not
there to be constructed, pop_back needs an element, a pushed String is a Vector<char>. -/
def sizesStep (s : Nat → Option Nat) : Op → Option (Nat → Option Nat)
  | .create obj => if s obj = none then some (Function.update s obj (some 0)) else none
  | .pushBack obj val =>
    if val.size ≤ val.capacity ∧ val.capacity < sizeLimit then
      (s obj).map fun n => Function.update s obj (some (n + 1))
    else none
  | .popBack obj =>
    (s obj).bind fun n => if 0 < n then some (Function.update s obj (some (n - 1))) else none
  | .copyConstruct dst src =>
    if s dst = none then (s src).map fun n => Function.update s dst (some n) else none
  | .assign dst src => (s dst).bind fun _ => (s src).map fun n => Function.update s dst (some n)
  | .destroy obj => (s obj).map fun _ => Function.update s obj none

def Counted (m : Machine) : Op → Prop
  | .pushBack obj val => val.size < intLimit ∧ ∀ v, m.objects obj = some v → v.capacity = v.size →
    stringElement.sizeof * (v.size * 2 + 1) < sizeLimit
  | .copyConstruct _ src => ∀ v, m.objects src = some v → v.size < intLimit
  | .assign _ src => ∀ v, m.objects src = some v → v.size < intLimit
  | _ => True

/- A buffer that the reset of a growing, an assigned or a destroyed vector does not come to. -/
def Lost (m : Machine) (op : Op) (b : Nat) : Prop :=
  match op with
  | .pushBack obj _ => ∃ v, m.objects obj = some v ∧ v.capacity = v.size ∧ Unreached m.heap v.data v.capacity b
  | .assign dst _ => ∃ v, m.objects dst = some v ∧ Unreached m.heap v.data v.capacity b
  | .destroy obj => ∃ v, m.objects obj = some v ∧ Unreached m.heap v.data v.capacity b
  | _ => False

def Fine (m : Machine) (op : Op) : Prop := Counted m op ∧ ∀ b, ¬ Lost m op b

structure Owned (m : Machine) : Prop where
  sound : Sound m.heap
  formed : ∀ x v, m.objects x = some v → Formed m.heap v
  apart : ∀ x y v w a, m.objects x = some v → m.objects y = some w →
    v.data.ptr = some a → w.data.ptr = some a → x = y
  covered : ∀ a n, m.heap.Live a n → ∃ x v, m.objects x = some v ∧ v.data.ptr = some a

def Sized (m : Machine) (s : Nat → Option Nat) : Prop := ∀ x, (m.objects x).map Vector.size = s x

def ptrOf (v : Option Vector) : Option Nat := v.bind fun v => v.data.ptr

theorem ownedMoved {m : Machine} (owned : Owned m) {x : Nat} {h' : Heap} {w : Option Vector} {lost : Nat → Prop}
    (moved : Moved (ptrOf (m.objects x)) (ptrOf w) lost m.heap h') (formed' : ∀ v, w = some v → Formed h' v) :
    Owned ⟨h', Function.update m.objects x w⟩ := by
  have others : ∀ y v a, y ≠ x → m.objects y = some v → v.data.ptr = some a →
      some a ≠ ptrOf (m.objects x) ∧ some a ≠ ptrOf w := by
    intro y v a away there here
    have live := ownsLive (owned.formed y v there).owns here
    have notOld : some a ≠ ptrOf (m.objects x) := by
      intro same
      obtain ⟨u, mine, ptr⟩ := Option.bind_eq_some_iff.mp same.symm
      exact away (owned.apart y x v u a there mine here ptr)
    exact ⟨notOld, fun same => notOld (moved.unborn a _ same live)⟩
  refine ⟨moved.sound, fun y v there => ?_, fun y z v u a first second ptr ptr' => ?_, fun a n live => ?_⟩
  · by_cases same : y = x
    · subst same
      exact formed' v ((Function.update_self y w m.objects).symm.trans there)
    · have there' : m.objects y = some v := (Function.update_of_ne same w m.objects).symm.trans there
      have kept := owned.formed y v there'
      refine ⟨kept.fits, kept.word, ownsKept kept.owns fun a here alive => ?_⟩
      obtain ⟨old, new⟩ := others y v a same there' here
      exact (moved.live a _ old new).mpr alive
  · by_cases mine : y = x <;> by_cases yours : z = x
    · rw [mine, yours]
    · subst mine
      have there := (Function.update_of_ne yours w m.objects).symm.trans second
      have here : w = some v := (Function.update_self y w m.objects).symm.trans first
      have clash : some a = ptrOf w := by rw [here]; exact ptr.symm
      exact absurd clash (others z u a yours there ptr').2
    · subst yours
      have there := (Function.update_of_ne mine w m.objects).symm.trans first
      have here : w = some u := (Function.update_self z w m.objects).symm.trans second
      have clash : some a = ptrOf w := by rw [here]; exact ptr'.symm
      exact absurd clash (others y v a mine there ptr).2
    · exact owned.apart y z v u a ((Function.update_of_ne mine w m.objects).symm.trans first)
        ((Function.update_of_ne yours w m.objects).symm.trans second) ptr ptr'
  · by_cases new : some a = ptrOf w
    · obtain ⟨v, here, ptr⟩ := Option.bind_eq_some_iff.mp new.symm
      exact ⟨x, v, (Function.update_self x w m.objects).trans here, ptr⟩
    · by_cases old : some a = ptrOf (m.objects x)
      · exact absurd live (moved.dropped a n old new)
      · obtain ⟨y, v, there, here⟩ := owned.covered a n ((moved.live a n old new).mp live)
        have away : y ≠ x := by
          intro same
          subst same
          exact old (by rw [there]; exact here.symm)
        exact ⟨y, v, (Function.update_of_ne away w m.objects).trans there, here⟩

theorem sizedPut {m : Machine} {s : Nat → Option Nat} (sized : Sized m s) (x : Nat) (h : Heap) (w : Option Vector) :
    Sized ⟨h, Function.update m.objects x w⟩ (Function.update s x (w.map Vector.size)) := by
  intro y
  by_cases same : y = x
  · subst same
    simp
  · simpa [same] using sized y

theorem sizedAt {m : Machine} {s : Nat → Option Nat} (sized : Sized m s) {x n : Nat} (there : s x = some n) :
    ∃ v, m.objects x = some v ∧ v.size = n := by
  have here := sized x
  rw [there] at here
  exact Option.map_eq_some_iff.mp here

theorem sizedNone {m : Machine} {s : Nat → Option Nat} (sized : Sized m s) {x : Nat} (absent : s x = none) :
    m.objects x = none := by
  have here := sized x
  rw [absent] at here
  exact Option.map_eq_none_iff.mp here

/- What a call leaves: the objects of these sizes, and of the buffers all but the lost ones. -/
def Leaves (m : Machine) (s : Nat → Option Nat) (lost : Nat → Prop) (t : Machine) : Prop :=
  Owned t ∧ Sized t s ∧ ∀ b, t.heap.Leaked b ↔ m.heap.Leaked b ∨ lost b

theorem putSpec {m : Machine} {s : Nat → Option Nat} (owned : Owned m) (sized : Sized m s) {x n : Nat}
    {result : Option (Vector × Heap)} {old : Option Nat} {lost : Nat → Prop}
    (mine : ptrOf (m.objects x) = old)
    (spec : ∃ w h', result = some (w, h') ∧ Formed h' w ∧ w.size = n ∧ Moved old w.data.ptr lost m.heap h') :
    ∃ t, m.put x result = some t ∧ Leaves m (Function.update s x (some n)) lost t := by
  obtain ⟨w, h', rfl, formed, rfl, moved⟩ := spec
  subst mine
  refine ⟨⟨h', Function.update m.objects x (some w)⟩, rfl, ?_, sizedPut sized x h' (some w), moved.leaks⟩
  refine @ownedMoved m owned x h' (some w) lost moved fun v same => ?_
  cases same
  exact formed

theorem keptSpec {m : Machine} (owned : Owned m) {x : Nat} {v w : Vector} (there : m.objects x = some v)
    (array : w.data = v.data) (room : w.capacity = v.capacity) (fewer : w.size ≤ v.size) :
    Formed m.heap w ∧ Moved v.data.ptr w.data.ptr (fun _ => False) m.heap m.heap := by
  have formed := owned.formed x v there
  refine ⟨⟨?_, room ▸ formed.word, ?_⟩, ?_⟩
  · have fits := formed.fits
    omega
  · rw [array, room]
    exact formed.owns
  · rw [array]
    exact movedWrites (Writes.refl owned.sound _)

theorem lostAt {o : Option Vector} {v : Vector} (there : o = some v) (P : Vector → Prop) :
    (∃ u, o = some u ∧ P u) ↔ P v := by
  subst there
  exact ⟨fun ⟨u, same, holds⟩ => Option.some.inj same ▸ holds, fun holds => ⟨v, rfl, holds⟩⟩

theorem stepSpec {m : Machine} {s s' : Nat → Option Nat} (owned : Owned m) (sized : Sized m s) {op : Op}
    (admitted : sizesStep s op = some s') (counted : Counted m op) :
    ∃ t, step m op = some t ∧ Leaves m s' (Lost m op) t := by
  have found : ∀ {x v}, m.objects x = some v → ptrOf (m.objects x) = v.data.ptr := fun there => by
    rw [there]; rfl
  cases op with
  | create obj =>
    rw [sizesStep] at admitted
    split at admitted
    · next absent =>
      cases Option.some.inj admitted
      have nobody := sizedNone sized absent
      rw [step, if_pos nobody]
      exact putSpec owned sized (show ptrOf (m.objects obj) = none by rw [nobody]; rfl)
        ⟨{}, m.heap, rfl, formedEmpty m.heap, rfl, movedWrites (Writes.refl owned.sound none)⟩
    · cases admitted
  | pushBack obj val =>
    rw [sizesStep] at admitted
    split at admitted
    · next string =>
      obtain ⟨n, there, rfl⟩ := Option.map_eq_some_iff.mp admitted
      obtain ⟨v, here, rfl⟩ := sizedAt sized there
      obtain ⟨w, h', pushed, formed, size, moved⟩ := pushBackSpec owned.sound (owned.formed obj v here)
        ⟨string.1, counted.1, string.2⟩ (counted.2 v here)
      obtain ⟨t, ran, owned', sized', leaks⟩ := putSpec owned sized (found here)
        ⟨w, h', pushed, formed, size, moved⟩
      refine ⟨t, by rw [step, here]; exact ran, owned', sized', fun b => (leaks b).trans (or_congr_right ?_)⟩
      exact (lostAt here fun v => v.capacity = v.size ∧ Unreached m.heap v.data v.capacity b).symm
    · cases admitted
  | popBack obj =>
    obtain ⟨n, there, popped⟩ := Option.bind_eq_some_iff.mp admitted
    obtain ⟨v, here, rfl⟩ := sizedAt sized there
    split at popped
    · next more =>
      cases Option.some.inj popped
      obtain ⟨formed, moved⟩ := @keptSpec m owned obj v { v with size := v.size - 1 } here rfl rfl (Nat.sub_le _ _)
      obtain ⟨t, ran, left⟩ := @putSpec m s owned sized obj (v.size - 1) (some ({ v with size := v.size - 1 }, m.heap))
        v.data.ptr _ (found here) ⟨_, m.heap, rfl, formed, rfl, moved⟩
      exact ⟨t, by rw [step, here, Option.bind_some, popBack, if_pos more]; exact ran, left⟩
    · cases popped
  | copyConstruct dst src =>
    rw [sizesStep] at admitted
    split at admitted
    · next absent =>
      obtain ⟨n, there, rfl⟩ := Option.map_eq_some_iff.mp admitted
      obtain ⟨v, here, rfl⟩ := sizedAt sized there
      have nobody := sizedNone sized absent
      obtain ⟨w, h', copied, formed, size, moved⟩ := @copySpec m.heap owned.sound {} v (formedEmpty m.heap)
        (owned.formed src v here) false (fun a _ other => by cases other) (counted v here)
      obtain ⟨t, ran, owned', sized', leaks⟩ := putSpec owned sized
        (show ptrOf (m.objects dst) = none by rw [nobody]; rfl) ⟨w, h', copied, formed, size, moved⟩
      refine ⟨t, by rw [step, if_pos nobody, here]; exact ran, owned', sized', fun b => (leaks b).trans ?_⟩
      refine or_congr_right ⟨fun lost => ?_, False.elim⟩
      obtain ⟨a, j, ptr, -⟩ := lost
      cases ptr
    · cases admitted
  | assign dst src =>
    obtain ⟨k, target, rest⟩ := Option.bind_eq_some_iff.mp admitted
    obtain ⟨n, there, rfl⟩ := Option.map_eq_some_iff.mp rest
    obtain ⟨u, old, -⟩ := sizedAt sized target
    obtain ⟨v, here, rfl⟩ := sizedAt sized there
    have source : Source u v (decide (dst = src)) := by
      unfold Source
      by_cases self : dst = src
      · rw [if_pos (decide_eq_true self)]
        rw [self, here] at old
        exact (Option.some.inj old).symm
      · rw [if_neg (by simp [self])]
        exact fun a ptr ptr' => self (owned.apart dst src u v a old here ptr' ptr)
    obtain ⟨w, h', copied, formed, size, moved⟩ := copySpec owned.sound (owned.formed dst u old)
      (owned.formed src v here) source (counted v here)
    obtain ⟨t, ran, owned', sized', leaks⟩ := putSpec owned sized (found old)
      ⟨w, h', copied, formed, size, moved⟩
    refine ⟨t, by rw [step, old, Option.bind_some, here, Option.bind_some]; exact ran, owned', sized',
      fun b => (leaks b).trans (or_congr_right ?_)⟩
    exact (lostAt old fun v => Unreached m.heap v.data v.capacity b).symm
  | destroy obj =>
    obtain ⟨n, there, rfl⟩ := Option.map_eq_some_iff.mp admitted
    obtain ⟨v, here, -⟩ := sizedAt sized there
    have moved := destroySpec owned.sound (owned.formed obj v here)
    rw [← found here] at moved
    refine ⟨_, by rw [step, here]; rfl, @ownedMoved m owned obj _ none _ moved (fun _ other => by cases other),
      sizedPut sized obj _ none, fun b => (moved.leaks b).trans (or_congr_right ?_)⟩
    exact (lostAt here fun v => Unreached m.heap v.data v.capacity b).symm

theorem stepNone {m : Machine} {s s' : Nat → Option Nat} (owned : Owned m) (sized : Sized m s) {op : Op}
    (admitted : sizesStep s op = some s') (bad : ¬ Counted m op) : step m op = none := by
  cases op with
  | create obj => exact absurd trivial bad
  | popBack obj => exact absurd trivial bad
  | destroy obj => exact absurd trivial bad
  | pushBack obj val =>
    rw [sizesStep] at admitted
    split at admitted
    · obtain ⟨n, there, -⟩ := Option.map_eq_some_iff.mp admitted
      obtain ⟨v, here, -⟩ := sizedAt sized there
      have refused : pushBack v val m.heap = none := by
        apply pushBackNone (owned.formed obj v here)
        by_contra fine
        obtain ⟨small, inside⟩ := not_or.mp fine
        refine bad ⟨Nat.not_le.mp small, fun u same full => ?_⟩
        cases Option.some.inj (here.symm.trans same)
        by_contra past
        exact inside ⟨full, past⟩
      rw [step, here, Option.bind_some, refused]
      rfl
    · cases admitted
  | copyConstruct dst src =>
    rw [sizesStep] at admitted
    split at admitted
    · next absent =>
      obtain ⟨n, there, -⟩ := Option.map_eq_some_iff.mp admitted
      obtain ⟨v, here, -⟩ := sizedAt sized there
      have large : intLimit ≤ v.size := by
        by_contra small
        exact bad fun u same => by
          cases Option.some.inj (here.symm.trans same)
          omega
      rw [step, if_pos (sizedNone sized absent), here, Option.bind_some, copyNone large]
      rfl
    · cases admitted
  | assign dst src =>
    obtain ⟨k, target, rest⟩ := Option.bind_eq_some_iff.mp admitted
    obtain ⟨n, there, -⟩ := Option.map_eq_some_iff.mp rest
    obtain ⟨u, old, -⟩ := sizedAt sized target
    obtain ⟨v, here, -⟩ := sizedAt sized there
    have large : intLimit ≤ v.size := by
      by_contra small
      exact bad fun w same => by
        cases Option.some.inj (here.symm.trans same)
        omega
    rw [step, old, Option.bind_some, here, Option.bind_some, copyNone large]
    rfl

theorem startOwned : Owned start := by
  have nothing : ∀ a n, ¬ start.heap.Live a n := by
    intro a n live
    cases live.1
  refine ⟨⟨?_, ?_, fun _ => Nat.zero_le _, fun _ _ => rfl, ?_⟩, ?_, ?_, fun a n live => absurd live (nothing a n)⟩
  · rintro a j b ⟨⟨n, live, -⟩, -⟩
    exact absurd live (nothing a n)
  · rintro a j c k b ⟨⟨n, live, -⟩, -⟩
    exact absurd live (nothing a n)
  · intro a n j live
    exact absurd live (nothing a n)
  · intro x v there
    cases there
  · intro x y v w a there
    cases there

theorem startLeaked (b : Nat) : ¬ start.heap.Leaked b := by
  rintro ⟨block, -⟩
  cases block

theorem lostNew {m : Machine} (owned : Owned m) {op : Op} {b : Nat} (lost : Lost m op b) : ¬ m.heap.Leaked b := by
  have held : ∀ {x v}, m.objects x = some v → Unreached m.heap v.data v.capacity b → ¬ m.heap.Leaked b := by
    rintro x v there ⟨a, j, here, inside, ptr, -⟩ ⟨-, -, unheld⟩
    exact unheld a j ⟨⟨v.capacity, ownsLive (owned.formed x v there).owns here, inside⟩, ptr⟩
  cases op with
  | pushBack obj val =>
    obtain ⟨v, there, -, unreached⟩ := lost
    exact held there unreached
  | assign dst src =>
    obtain ⟨v, there, unreached⟩ := lost
    exact held there unreached
  | destroy obj =>
    obtain ⟨v, there, unreached⟩ := lost
    exact held there unreached
  | create obj => exact absurd lost id
  | popBack obj => exact absurd lost id
  | copyConstruct dst src => exact absurd lost id

theorem stepTaken {m u : Machine} {s s' : Nat → Option Nat} (owned : Owned m) (sized : Sized m s) {op : Op}
    (admitted : sizesStep s op = some s') (taken : step m op = some u) :
    Counted m op ∧ Leaves m s' (Lost m op) u := by
  have counted : Counted m op := by
    by_contra bad
    rw [stepNone owned sized admitted bad] at taken
    cases taken
  obtain ⟨u', taken', left⟩ := stepSpec owned sized admitted counted
  cases Option.some.inj (taken.symm.trans taken')
  exact ⟨counted, left⟩

theorem runKeeps {m t : Machine} {s s' : Nat → Option Nat} (owned : Owned m) (sized : Sized m s) {ops : List Op}
    (admitted : run sizesStep s ops = some s') (ran : run step m ops = some t) :
    Owned t ∧ Sized t s' ∧ ∀ b, m.heap.Leaked b → t.heap.Leaked b := by
  induction ops generalizing m s with
  | nil =>
    cases Option.some.inj ran
    cases Option.some.inj admitted
    exact ⟨owned, sized, fun _ leaked => leaked⟩
  | cons op ops ih =>
    obtain ⟨mid, first, later⟩ := Option.bind_eq_some_iff.mp admitted
    obtain ⟨u, taken, rest⟩ := Option.bind_eq_some_iff.mp ran
    obtain ⟨-, owned', sized', leaks⟩ := stepTaken owned sized first taken
    obtain ⟨last, sizedLast, kept⟩ := ih owned' sized' later rest
    exact ⟨last, sizedLast, fun b leaked => kept b ((leaks b).mpr (Or.inl leaked))⟩

theorem runFineIff {m : Machine} {s s' : Nat → Option Nat} (owned : Owned m) (sized : Sized m s) {ops : List Op}
    (admitted : run sizesStep s ops = some s') :
    (∃ t, run step m ops = some t ∧ ∀ b, t.heap.Leaked b → m.heap.Leaked b) ↔ Guarded step Fine m ops := by
  induction ops generalizing m s with
  | nil => exact iff_of_true ⟨m, rfl, fun _ leaked => leaked⟩ (guardedNil step Fine m)
  | cons op ops ih =>
    obtain ⟨mid, first, later⟩ := Option.bind_eq_some_iff.mp admitted
    rw [guardedConsIff]
    constructor
    · rintro ⟨t, ran, clean⟩
      obtain ⟨u, taken, rest⟩ := Option.bind_eq_some_iff.mp ran
      obtain ⟨counted, owned', sized', leaks⟩ := stepTaken owned sized first taken
      obtain ⟨-, -, kept⟩ := runKeeps owned' sized' later rest
      have nothing : ∀ b, ¬ Lost m op b := fun b lost =>
        lostNew owned lost (clean b (kept b ((leaks b).mpr (Or.inr lost))))
      refine ⟨⟨counted, nothing⟩, fun u' taken' => ?_⟩
      cases Option.some.inj (taken.symm.trans taken')
      exact (ih owned' sized' later).mp ⟨t, rest, fun b leaked => (leaks b).mpr (Or.inl (clean b leaked))⟩
    · rintro ⟨⟨counted, nothing⟩, rest⟩
      obtain ⟨u, taken, owned', sized', leaks⟩ := stepSpec owned sized first counted
      obtain ⟨t, ran, clean⟩ := (ih owned' sized' later).mpr (rest u taken)
      refine ⟨t, by simp only [run, taken, Option.bind_some, ran], fun b leaked => ?_⟩
      exact ((leaks b).mp (clean b leaked)).resolve_right (nothing b)

theorem releasedIff {t : Machine} (owned : Owned t) (gone : ∀ x, t.objects x = none) :
    (∀ b, t.heap.blocks[b]? = some .chars → t.heap.frees b = 1) ↔ ∀ b, ¬ t.heap.Leaked b := by
  have nothing : ∀ a j b, ¬ t.heap.Holds a j b := by
    rintro a j b ⟨⟨n, live, -⟩, -⟩
    obtain ⟨x, v, there, -⟩ := owned.covered a n live
    rw [gone x] at there
    cases there
  constructor
  · rintro all b ⟨chars, zero, -⟩
    have once := all b chars
    omega
  · intro clean b chars
    have most := owned.sound.once b
    have real : t.heap.frees b ≠ 0 := fun zero => clean b ⟨chars, zero, fun a j => nothing a j b⟩
    omega

def Released (t : Machine) : Prop := ∀ b, t.heap.blocks[b]? = some .chars → t.heap.frees b = 1

theorem completeIff {s : Nat → Option Nat} {ops : List Op} (complete : run sizesStep s ops = some fun _ => none)
    {m : Machine} (owned : Owned m) (sized : Sized m s) (clean : ∀ b, ¬ m.heap.Leaked b) :
    (∃ t, run step m ops = some t ∧ Released t) ↔ Guarded step Fine m ops := by
  rw [← runFineIff owned sized complete]
  refine exists_congr fun t => and_congr_right fun ran => ?_
  obtain ⟨owned', sized', -⟩ := runKeeps owned sized complete ran
  have gone : ∀ x, t.objects x = none := fun x => sizedNone sized' rfl
  rw [Released, releasedIff owned' gone]
  exact forall_congr' fun b => ⟨fun absent leaked => absurd leaked absent, fun kept leaked => clean b (kept leaked)⟩

/-- An array of n elements is destroyed as it should be exactly when n is at most 1, and of the
character buffers of Vector<String> objects that are all gone each is released once exactly when
no reset on the way passes one over. -/
theorem arrayOwnershipIff {sizeof : Nat} (sized : 0 < sizeof) (ptr n : Nat) (newData : Blk) {ops : List Op}
    (complete : run sizesStep (fun _ => none) ops = some fun _ => none) :
    (EachOnce ptr n (resetLog sizeof ptr n newData) ↔ n ≤ 1) ∧
    ((∃ t, run step start ops = some t ∧ Released t) ↔ Guarded step Fine start ops) :=
  ⟨eachOnceIff sized ptr n newData, completeIff complete startOwned (fun _ => rfl) startLeaked⟩

/- Two elements: the second has no destructor call, and the buffer of the second String no free. -/
theorem secondElementLeaks :
    ¬ EachOnce 7 2 (resetLog 48 7 2 {}) ∧
      ∃ t, run step start [.create 0, .pushBack 0 { size := 3, capacity := 3 },
        .pushBack 0 { size := 4, capacity := 4 }, .destroy 0] = some t ∧
        t.objects 0 = none ∧ t.heap.blocks[4]? = some .chars ∧ t.heap.frees 4 = 0 := by
  refine ⟨fun once => absurd ((eachOnceIff (by decide) 7 2 {}).mp once) (by decide), ?_⟩
  exact ⟨_, rfl, rfl, rfl, rfl⟩

theorem singleReleased :
    EachOnce 7 1 (resetLog 48 7 1 {}) ∧
      ∃ t, run step start [.create 0, .pushBack 0 { size := 3, capacity := 3 }, .destroy 0] = some t ∧ Released t := by
  have complete : run sizesStep (fun _ => none)
      [.create 0, .pushBack 0 { size := 3, capacity := 3 }, .destroy 0] = some fun _ => none := by
    refine congrArg some (funext fun x => ?_)
    by_cases first : x = 0
    · simp [first]
    · simp [first]
  obtain ⟨array, buffers⟩ := @arrayOwnershipIff 48 (by decide) 7 1 {} _ complete
  refine ⟨array.mpr le_rfl, buffers.mpr ?_⟩
  refine guardedConsIff.mpr ⟨⟨trivial, fun _ => id⟩, fun m first => guardedConsIff.mpr ⟨⟨⟨by decide, ?_⟩, ?_⟩,
    fun t second => guardedConsIff.mpr ⟨⟨trivial, ?_⟩, fun _ _ => guardedNil _ _ _⟩⟩⟩
  · intro v there _
    cases Option.some.inj first
    cases there
    decide
  · rintro b ⟨v, there, -, a, j, -, inside, -⟩
    cases Option.some.inj first
    cases there
    exact absurd inside (Nat.not_lt_zero j)
  · rintro b ⟨v, there, a, j, -, inside, -, unreached⟩
    cases Option.some.inj first
    cases Option.some.inj second
    cases there
    have front : j = 0 := Nat.lt_one_iff.mp inside
    exact unreached ⟨front, by decide⟩

end Machine

end DimOS.Cpp.StringArrays
