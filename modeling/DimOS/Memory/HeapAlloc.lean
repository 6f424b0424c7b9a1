import Mathlib
import DimOS.Memory.HeapLists

/-! alloc and addMemory on the segments of the free nodes. The best-fit search returns,
a found node leaves the list whole or cut in two, and when nothing fits one region
from VMM::allocNPages is enough: alloc never asks twice. -/
namespace DimOS.Memory.Heap
open Lib.ByteMemory
open Lib.Segments

/- The node that the search keeps: it fits, the nodes before it that fit are larger, and those after
it are not smaller. -/
structure Best (size : Nat) (pre : List Seg) (s : Seg) (post : List Seg) : Prop where
  fits : s.start + 16 + size ≤ s.stop
  less : ∀ t ∈ pre, t.start + 16 + size ≤ t.stop → s.stop - s.start < t.stop - t.start
  least : ∀ t ∈ post, t.start + 16 + size ≤ t.stop → s.stop - s.start ≤ t.stop - t.start

theorem Best.cons {size : Nat} {pre post : List Seg} {s t : Seg} (best : Best size pre s post)
    (larger : t.start + 16 + size ≤ t.stop → s.stop - s.start < t.stop - t.start) :
    Best size (t :: pre) s post := by
  refine ⟨best.fits, ?_, best.least⟩
  intro u mem
  rcases List.mem_cons.mp mem with rfl | mem
  · exact larger
  · exact best.less u mem

theorem bestFitSpec {m : Memory} {size : Nat} {l : List Seg} {fuel curr prevNode : Nat} {fit : Fit}
    (chain : Chain m curr l 0) (enough : l.length < fuel) :
    ∃ out, bestFit m size fuel curr prevNode fit = some out ∧
      ((out = fit ∧ ∀ s ∈ l, s.start + 16 + size ≤ s.stop → s.start + 16 + fit.usedSize ≤ s.stop) ∨
        ∃ pre s post, l = pre ++ s :: post ∧ out.target = s.start ∧
          out.prev = lastStart prevNode pre ∧ Best size pre s post ∧ s.stop < s.start + 16 + fit.usedSize) := by
  induction l generalizing fuel curr prevNode fit with
  | nil =>
    obtain ⟨fuel, rfl⟩ := Nat.exists_eq_succ_of_ne_zero (Nat.ne_of_gt enough)
    have done : curr = 0 := chain
    exact ⟨fit, by simp [bestFit, done], .inl ⟨rfl, by simp⟩⟩
  | cons s l ih =>
    obtain ⟨fuel, rfl⟩ := Nat.exists_eq_succ_of_ne_zero (Nat.ne_of_gt (Nat.zero_lt_of_lt enough))
    obtain ⟨nonzero, here, rest⟩ := chain
    have start := blockStart here
    have stop := blockStop here
    have short : l.length < fuel := by simpa using enough
    simp only [bestFit, ne_eq, nonzero, not_false_eq_true, if_true]
    by_cases better : size ≤ sizeAt m curr ∧ sizeAt m curr < fit.usedSize
    · rw [if_pos better]
      obtain ⟨out, found, ⟨same, none⟩ | ⟨pre, t, post, shape, target, prev, best, under⟩⟩ :=
        ih rest short
      · refine ⟨out, found, .inr ⟨[], s, l, rfl, ?_⟩⟩
        rw [same]
        refine ⟨start.symm, rfl, ⟨by omega, by simp, fun t mem fits => ?_⟩, by omega⟩
        have := none t mem fits
        simp only at this
        omega
      · simp only at under
        refine ⟨out, found, .inr ⟨s :: pre, t, post, by rw [shape]; rfl, target, ?_, ?_, by omega⟩⟩
        · rw [← start] at prev
          exact prev
        · exact best.cons (fun _ => by omega)
    · rw [if_neg better]
      obtain ⟨out, found, ⟨same, none⟩ | ⟨pre, t, post, shape, target, prev, best, under⟩⟩ :=
        ih rest short
      · refine ⟨out, found, .inl ⟨same, ?_⟩⟩
        intro t mem fits
        rcases List.mem_cons.mp mem with rfl | mem
        · omega
        · exact none t mem fits
      · refine ⟨out, found, .inr ⟨s :: pre, t, post, by rw [shape]; rfl, target, ?_, ?_, under⟩⟩
        · rw [← start] at prev
          exact prev
        · exact best.cons (fun fits => by omega)

theorem searchSpec (size : Nat) {fl : FreeList} {l : List Seg} {fuel : Nat}
    (chain : Chain fl.mem fl.head l 0) (small : ∀ s ∈ l, s.stop ≤ 2 ^ 64)
    (enough : l.length < fuel) :
    ∃ fit, fl.search fuel size = some fit ∧
      ((fit.target = 0 ∧ ∀ s ∈ l, s.stop < s.start + 16 + size) ∨
        ∃ pre s post, l = pre ++ s :: post ∧ fit.target = s.start ∧
          fit.prev = lastStart 0 pre ∧ Best size pre s post) := by
  obtain ⟨fit, found, ⟨rfl, none⟩ | ⟨pre, s, post, shape, target, prev, best, -⟩⟩ := bestFitSpec
    chain enough
  · refine ⟨_, found, .inl ⟨rfl, ?_⟩⟩
    intro s mem
    have below := small s mem
    by_contra fits
    have := none s mem (by omega)
    simp only at this
    omega
  · exact ⟨fit, found, .inr ⟨pre, s, post, shape, target, prev, best⟩⟩

theorem sub64Eq {a b : Nat} (le : b ≤ a) (small : a < 2 ^ 64) : sub64 a b = a - b := by
  unfold sub64
  omega

/- What alloc leaves: the block handed out and the list without it. -/
structure Taken (old : List Seg) (m : Memory) (size : Nat) (out : FreeList) (l : List Seg)
    (b : Seg) : Prop where
  chain : Chain out.mem out.head l 0
  separated : Separated l
  here : block out.mem b.start = b
  fits : b.start + 16 + size ≤ b.stop
  covers : ∀ x, Covers old x ↔ b.Has x ∨ Covers l x
  apart : ∀ t ∈ l, b.Apart t
  frame : Frame (Covers old) m out.mem
  length : l.length ≤ old.length

theorem sepDrop {pre post : List Seg} {s : Seg} (sep : Separated (pre ++ s :: post)) :
    Separated (pre ++ post) ∧ ∀ t ∈ pre ++ post, s.Apart t := by
  obtain ⟨left, right, gaps⟩ := List.pairwise_append.mp sep
  obtain ⟨above, rest⟩ := List.pairwise_cons.mp right
  constructor
  · exact List.pairwise_append.mpr ⟨left, rest, fun a mem b memb => gaps a mem b (by simp [memb])⟩
  · intro t mem
    rcases List.mem_append.mp mem with mem | mem
    · exact .inr (Nat.le_of_lt (gaps t mem s (by simp)))
    · exact .inl (Nat.le_of_lt (above t mem))

theorem takeWhole {fl : FreeList} {pre post : List Seg} {s : Seg} {size : Nat}
    (chain : Chain fl.mem fl.head (pre ++ s :: post) 0) (sep : Separated (pre ++ s :: post))
    (fits : s.start + 16 + size ≤ s.stop) :
    Taken (pre ++ s :: post) fl.mem size (fl.link (lastStart 0 pre) (nextAt fl.mem s.start))
      (pre ++ post) s := by
  obtain ⟨r, left, nonzero, here, tail⟩ := chainAppend.mp chain
  have start := blockStart here
  subst start
  obtain ⟨seppre, seps, gaps⟩ := List.pairwise_append.mp sep
  obtain ⟨walk, frame⟩ := linkChain fl (nextAt fl.mem s.start) seppre left (nextBelow fl.mem s.start)
  have off : ∀ t ∈ s :: post, ∀ x, t.Has x → ¬ Covers pre x := by
    rintro t mem x has ⟨u, memu, hasu⟩
    have := gaps u memu t mem
    unfold Seg.Has at has hasu
    omega
  constructor
  · refine chainAppend.mpr ⟨_, walk, chainFramed frame ?_ tail⟩
    rintro x ⟨t, mem, has⟩
    exact off t (by simp [mem]) x has
  · exact (sepDrop sep).1
  · rw [blockFramed frame (fun x near => off s (by simp) x (headerInside here near))]
    exact here
  · exact fits
  · intro x
    simp only [coversAppend, coversCons]
    tauto
  · exact (sepDrop sep).2
  · exact frameMono frame (fun x covered => (coversAppend _ _ x).mpr (.inl covered))
  · simp

/- The writes of alloc when the node is cut: the header of the rest, the link to it, its
own next and last the size of the block handed out. -/
def cut (fl : FreeList) (target prev size : Nat) : FreeList :=
  let part := target + 16 + size
  let m := setNext (setSize fl.mem part (sizeAt fl.mem target - size - 16)) part 0
  let fl := FreeList.link { fl with mem := m } prev part
  let m := setNext fl.mem part (nextAt fl.mem target)
  { fl with mem := setSize m target size }

theorem takeSplit {fl : FreeList} {pre post : List Seg} {s : Seg} {size : Nat}
    (chain : Chain fl.mem fl.head (pre ++ s :: post) 0) (sep : Separated (pre ++ s :: post))
    (small : s.stop ≤ 2 ^ 64) (room : s.start + 16 + size + 16 < s.stop) :
    Taken (pre ++ s :: post) fl.mem size (cut fl s.start (lastStart 0 pre) size)
      (pre ++ ⟨s.start + 16 + size, s.stop, by omega⟩ :: post) ⟨s.start, s.start + 16 + size, by omega⟩ := by
  obtain ⟨r, left, nonzero, here, tail⟩ := chainAppend.mp chain
  have start := blockStart here
  subst start
  have stop := blockStop here
  obtain ⟨seppre, seps, gaps⟩ := List.pairwise_append.mp sep
  obtain ⟨above, seppost⟩ := List.pairwise_cons.mp seps
  let b : Seg := ⟨s.start, s.start + 16 + size, by omega⟩
  let t : Seg := ⟨s.start + 16 + size, s.stop, by omega⟩
  -- the memory after the header of the rest is written
  let part := s.start + 16 + size
  let m1 := setNext (setSize fl.mem part (sizeAt fl.mem s.start - size - 16)) part 0
  have frame1 : Frame (header part) fl.mem m1 :=
    frameTrans (setSizeFrame fl.mem part _) (setNextFrame _ part 0)
  have offpre : ∀ x, Covers pre x → x < s.start := by
    rintro x ⟨u, mem, has⟩
    have := gaps u mem s (by simp)
    unfold Seg.Has at has
    omega
  have offpost : ∀ x, Covers post x → s.stop ≤ x := by
    rintro x ⟨u, mem, has⟩
    have := above u mem
    unfold Seg.Has at has
    omega
  obtain ⟨walk, frame2⟩ := linkChain { fl with mem := m1 } part seppre
    (chainFramed frame1 (fun x covered near => by
      have := offpre x covered
      unfold header at near
      omega) left) (by omega)
  generalize linkedEq : FreeList.link { fl with mem := m1 } (lastStart 0 pre) part = linked
    at walk frame2
  have apartPre : ∀ x, s.start ≤ x → ¬ Covers pre x := fun x low covered => by
    have := offpre x covered
    omega
  let m2 := setNext linked.mem part (nextAt linked.mem s.start)
  let m3 := setSize m2 s.start size
  have cutEq : cut fl s.start (lastStart 0 pre) size = { linked with mem := m3 } := by
    simp only [cut, m3, m2, m1, part, ← linkedEq]
  have frame3 : Frame (header part) linked.mem m2 := setNextFrame _ _ _
  have frame4 : Frame (header s.start) m2 m3 := setSizeFrame _ _ _
  have nextKept : nextAt linked.mem s.start = nextAt fl.mem s.start := by
    rw [nextFramed frame2 (fun x near => apartPre x near.1),
      nextFramed frame1 (fun x near far => by unfold header at near far; omega)]
  have sizePart : sizeAt linked.mem part = sizeAt fl.mem s.start - size - 16 := by
    rw [sizeFramed frame2 (fun x near => apartPre x (by unfold header at near; omega))]
    simp only [m1, sizeAfterNext, sizeAfterSize]
    rw [Nat.mod_eq_of_lt (by omega)]
  have partApart : ∀ x, header part x → ¬ header s.start x := fun x near far => by
    unfold header at near far
    omega
  have herePart : block m3 part = t := by
    apply blockOfSize (show t.start = part from rfl)
    rw [sizeFramed frame4 partApart]
    simp only [m2, sizeAfterNext, sizePart, t]
    omega
  have nextPart : nextAt m3 part = nextAt fl.mem s.start := by
    rw [nextFramed frame4 partApart]
    simp only [m2, nextAfterNext, nextKept]
    exact Nat.mod_eq_of_lt (nextBelow fl.mem s.start)
  have inside : ∀ x, header part x ∨ header s.start x → s.Has x := by
    rintro x (near | near) <;> unfold header at near <;> exact ⟨by omega, by omega⟩
  have frameTail : Frame (fun x => s.Has x) linked.mem m3 :=
    frameTrans (frameMono frame3 (fun x near => inside x (.inl near)))
      (frameMono frame4 (fun x near => inside x (.inr near)))
  show Taken (pre ++ s :: post) fl.mem size _ (pre ++ t :: post) b
  rw [cutEq]
  constructor
  · refine chainAppend.mpr ⟨part, chainFramed frameTail ?_ walk, by omega, herePart, ?_⟩
    · intro x covered has
      exact apartPre x has.1 covered
    · rw [nextPart]
      have step1 := chainFramed frame1 (fun x covered near => by
        have := offpost x covered
        unfold header at near
        omega) tail
      have step2 := chainFramed frame2 (fun x covered => apartPre x (by
        have := offpost x covered
        have := s.proper
        omega)) step1
      refine chainFramed frameTail ?_ step2
      intro x covered has
      have := offpost x covered
      unfold Seg.Has at has
      omega
  · refine List.pairwise_append.mpr ⟨seppre, List.pairwise_cons.mpr ⟨above, seppost⟩, ?_⟩
    intro u mem v memv
    rcases List.mem_cons.mp memv with rfl | memv
    · have := gaps u mem s (by simp)
      show u.stop < s.start + 16 + size
      omega
    · exact gaps u mem v (by simp [memv])
  · apply blockOfSize rfl
    simp only [m3, sizeAfterSize, b]
    rw [Nat.mod_eq_of_lt (by omega)]
  · exact Nat.le_refl _
  · intro x
    have pieces : s.Has x ↔ b.Has x ∨ t.Has x := by
      simp only [Seg.Has, b, t]
      omega
    simp only [coversAppend, coversCons, pieces]
    tauto
  · intro u mem
    simp only [Seg.Apart, b]
    rcases List.mem_append.mp mem with mem | mem
    · have := gaps u mem s (by simp)
      omega
    · rcases List.mem_cons.mp mem with rfl | mem
      · exact .inl (Nat.le_refl _)
      · have := above u mem
        omega
  · refine frameTrans (frameMono frame1 ?_) (frameTrans (frameMono frame2 ?_)
      (frameMono frameTail ?_))
    · intro x near
      exact (coversAppend _ _ x).mpr (.inr ((coversCons s post x).mpr (.inl (inside x (.inl near)))))
    · exact fun x covered => (coversAppend _ _ x).mpr (.inl covered)
    · exact fun x has => (coversAppend _ _ x).mpr (.inr ((coversCons s post x).mpr (.inl has)))
  · simp

theorem takeEq {fl : FreeList} {pre post : List Seg} {s : Seg} {size : Nat}
    (chain : Chain fl.mem fl.head (pre ++ s :: post) 0) (small : s.stop ≤ 2 ^ 64) (wide : size + 17 < 2 ^ 64)
    (fits : s.start + 16 + size ≤ s.stop) :
    fl.take s.start (lastStart 0 pre) size =
      if s.start + 16 + size + 16 < s.stop then cut fl s.start (lastStart 0 pre) size
      else fl.link (lastStart 0 pre) (nextAt fl.mem s.start) := by
  obtain ⟨r, -, nonzero, here, -⟩ := chainAppend.mp chain
  have start := blockStart here
  subst start
  have stop := blockStop here
  have below : sizeAt fl.mem s.start < 2 ^ 64 := (loadWord fl.mem s.start).isLt
  have wrap : (size + 16 + 1) % 2 ^ 64 = size + 16 + 1 := Nat.mod_eq_of_lt (by omega)
  by_cases room : sizeAt fl.mem s.start < size + 16 + 1
  · rw [if_neg (by omega)]
    simp only [FreeList.take, split, sizeofNode, wrap, room, if_true, ne_eq, not_true_eq_false, if_false]
  · have place : (s.start + 16 + size) % 2 ^ 64 = s.start + 16 + size := Nat.mod_eq_of_lt (by omega)
    have minus : sub64 (sub64 (sizeAt fl.mem s.start) size) 16 = sizeAt fl.mem s.start - size - 16 := by
      rw [sub64Eq (show size ≤ sizeAt fl.mem s.start by omega) below, sub64Eq (by omega) (by omega)]
    have rest : s.start + 16 + size ≠ 0 := by omega
    rw [if_pos (by omega)]
    simp only [FreeList.take, split, sizeofNode, wrap, room, if_false, place, minus, ne_eq, rest,
      not_false_eq_true, if_true, cut]

theorem takeSpec {fl : FreeList} {pre post : List Seg} {s : Seg} {size : Nat}
    (chain : Chain fl.mem fl.head (pre ++ s :: post) 0) (sep : Separated (pre ++ s :: post))
    (small : s.stop < 2 ^ 64) (fits : s.start + 16 + size ≤ s.stop) :
    ∃ l b, Taken (pre ++ s :: post) fl.mem size (fl.take s.start (lastStart 0 pre) size) l b ∧
      b.start = s.start := by
  have nonzero := chainNonzero chain (show s ∈ pre ++ s :: post by simp)
  rw [takeEq chain (Nat.le_of_lt small) (by omega) fits]
  by_cases room : s.start + 16 + size + 16 < s.stop
  · rw [if_pos room]
    exact ⟨_, _, takeSplit chain sep (Nat.le_of_lt small) room, rfl⟩
  · rw [if_neg room]
    exact ⟨_, s, takeWhole chain sep fits, rfl⟩

theorem addMemorySpec {fl : FreeList} {l : List Seg} {r : Seg} {fuel : Nat}
    (chain : Chain fl.mem fl.head l 0) (sep : Separated l) (nonzero : r.start ≠ 0)
    (large : r.start + 16 ≤ r.stop) (apart : ∀ t ∈ l, r.Apart t)
    (small : ∀ t ∈ r :: l, t.stop < 2 ^ 64) (enough : l.length < fuel) :
    ∃ out, fl.addMemory fuel r.start (r.stop - r.start) = some out ∧
      Chain out.mem out.head (insertSeg r l) 0 ∧ Frame (Covers (r :: l)) fl.mem out.mem := by
  have below := small r (by simp)
  let m := setNext (setSize fl.mem r.start (sub64 (r.stop - r.start) sizeofNode)) r.start 0
  have frame : Frame (header r.start) fl.mem m :=
    frameTrans (setSizeFrame fl.mem r.start _) (setNextFrame _ r.start 0)
  have inside : ∀ x, header r.start x → r.Has x := fun x near => by
    unfold header at near
    exact ⟨by omega, by omega⟩
  have here : block m r.start = r := by
    apply blockOfSize rfl
    simp only [m, sizeAfterNext, sizeAfterSize]
    rw [sub64Eq (by unfold sizeofNode; omega) (by omega)]
    unfold sizeofNode
    rw [Nat.mod_eq_of_lt (by omega)]
    omega
  have kept : Chain m fl.head l 0 := chainFramed frame
    (fun x covered near => apartAll.mp apart x ⟨inside x near, covered⟩) chain
  obtain ⟨out, made, good, frame'⟩ := addNodeSpec
    (show Chain (FreeList.mk fl.head m).mem (FreeList.mk fl.head m).head l 0 from kept)
    sep nonzero here apart small enough
  refine ⟨out, made, good, frameTrans (frameMono frame ?_) frame'⟩
  exact fun x near => (coversCons r l x).mpr (.inl (inside x near))

theorem reqBytesEq {size : Nat} (range : size + 16 + 4095 < 2 ^ 43) :
    reqPages size = ((size + 4111) / 4096 : Nat) ∧ reqBytes size = (size + 4111) / 4096 * 4096 := by
  have pages : reqPages size = ((size + 4111) / 4096 : Nat) := by
    unfold reqPages sizeofNode pageSize
    rw [Nat.mod_eq_of_lt (by omega), Int.bmod_eq_of_le (by omega) (by omega)]
    congr 1
  refine ⟨pages, ?_⟩
  unfold reqBytes pageSize
  rw [pages]
  omega

theorem allocFound (allocNPages : Int → Nat) (tries : Nat) {fl : FreeList} {pre post : List Seg}
    {s : Seg} {size fuel : Nat} {fit : Fit}
    (chain : Chain fl.mem fl.head (pre ++ s :: post) 0) (sep : Separated (pre ++ s :: post))
    (small : s.stop < 2 ^ 64) (fits : s.start + 16 + size ≤ s.stop)
    (found : fl.search fuel size = some fit) (target : fit.target = s.start)
    (prev : fit.prev = lastStart 0 pre) :
    ∃ l b list, fl.alloc fuel allocNPages size (tries + 1) = some ⟨list, b.start + 16, []⟩ ∧
      Taken (pre ++ s :: post) fl.mem size list l b := by
  obtain ⟨l, b, taken, same⟩ := takeSpec chain sep small fits
  have nonzero := chainNonzero chain (show s ∈ pre ++ s :: post by simp)
  have wrap : (s.start + sizeofNode) % 2 ^ 64 = s.start + 16 := by
    unfold sizeofNode
    exact Nat.mod_eq_of_lt (by omega)
  refine ⟨l, b, fl.take s.start (lastStart 0 pre) size, ?_, taken⟩
  simp only [FreeList.alloc, found, target, prev, nonzero, if_false, wrap, same]

def Granted (allocNPages : Int → Nat) (size : Nat) (r : Seg) : Prop :=
  r.start = allocNPages (reqPages size) ∧ r.stop = r.start + reqBytes size

/-- One call of alloc: it returns a block of at least the size asked for, after it took at
most one region from the VMM, and everything else it held stays in the list. -/
theorem allocSpec (tries : Nat) {fl : FreeList} {l : List Seg} {size fuel : Nat}
    {allocNPages : Int → Nat}
    (chain : Chain fl.mem fl.head l 0) (sep : Separated l) (small : ∀ s ∈ l, s.stop < 2 ^ 64)
    (enough : l.length + 1 < fuel) (range : size + 16 + 4095 < 2 ^ 43)
    (grant : ∀ fit, fl.search fuel size = some fit → fit.target = 0 →
      ∃ r, Granted allocNPages size r ∧ r.start ≠ 0 ∧ r.stop < 2 ^ 64 ∧ ∀ t ∈ l, r.Apart t) :
    ∃ extra l' b list, (extra = [] ∨ ∃ r fit, extra = [r] ∧ Granted allocNPages size r ∧
        fl.search fuel size = some fit ∧ fit.target = 0) ∧
      fl.alloc fuel allocNPages size (tries + 2) =
        some ⟨list, b.start + 16, extra.map (fun r => (r.start, r.stop - r.start))⟩ ∧
      Taken (extra ++ l) fl.mem size list l' b := by
  obtain ⟨fit, found, ⟨target, none⟩ | ⟨pre, s, post, rfl, target, prev, best⟩⟩ :=
    searchSpec size chain (fun s mem => Nat.le_of_lt (small s mem)) (Nat.lt_of_succ_lt enough)
  · obtain ⟨r, granted, nonzero, below, apart⟩ := grant fit found target
    obtain ⟨-, bytes⟩ := reqBytesEq range
    have large : r.start + 16 + size ≤ r.stop := by
      rw [granted.2, bytes]
      omega
    have width : r.stop - r.start = reqBytes size := by
      rw [granted.2]
      omega
    have smalls : ∀ t ∈ r :: l, t.stop < 2 ^ 64 := by
      intro t mem
      rcases List.mem_cons.mp mem with rfl | mem
      · exact below
      · exact small t mem
    obtain ⟨mid, grown, chain', frame⟩ := addMemorySpec chain sep nonzero (by omega) apart smalls
      (Nat.lt_of_succ_lt enough)
    have sep' := insertSeparated sep apart
    have small' : ∀ s ∈ insertSeg r l, s.stop < 2 ^ 64 := by
      intro s mem
      have last := (insertCovers r l (s.stop - 1)).mp ⟨s, mem, hasLast s⟩
      obtain ⟨t, memt, has⟩ := (coversCons r l (s.stop - 1)).mpr last
      have := smalls t memt
      have := s.proper
      unfold Seg.Has at has
      omega
    obtain ⟨fit', found', ⟨-, none'⟩ | ⟨pre, s, post, shape, target', prev', best'⟩⟩ :=
      searchSpec size chain' (fun s mem => Nat.le_of_lt (small' s mem))
        (Nat.lt_of_le_of_lt (insertLength r l) enough)
    · obtain ⟨u, mem, start, stop⟩ := insertHolds r l
      have := none' u mem
      omega
    · rw [shape] at chain' sep' small'
      obtain ⟨l', b, list, made, taken⟩ := allocFound allocNPages tries chain' sep'
        (small' s (by simp)) best'.fits found' target' prev'
      rw [← shape] at taken
      refine ⟨[r], l', b, list, .inr ⟨r, fit, rfl, granted, found, target⟩, ?_, ?_⟩
      · rw [width, granted.1] at grown
        rw [FreeList.alloc]
        simp only [found, target, if_true, grown, made, Option.map_some, List.map_cons, List.map_nil,
          granted.1]
        rw [← granted.1, width]
      · refine ⟨taken.chain, taken.separated, taken.here, taken.fits, ?_, taken.apart, ?_, ?_⟩
        · intro x
          rw [← taken.covers x, insertCovers, List.singleton_append, coversCons]
        · refine frameTrans frame (frameMono taken.frame ?_)
          intro x covered
          rw [List.singleton_append, coversCons]
          exact (insertCovers r l x).mp covered
        · have := insertLength r l
          have := taken.length
          simp only [List.singleton_append, List.length_cons]
          omega
  · obtain ⟨l', b, list, made, taken⟩ := allocFound allocNPages (tries + 1) chain sep
      (small s (by simp)) best.fits found target prev
    exact ⟨[], l', b, list, .inl rfl, made, taken⟩

end DimOS.Memory.Heap
