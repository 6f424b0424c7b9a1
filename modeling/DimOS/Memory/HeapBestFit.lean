import Mathlib
import DimOS.Memory.HeapAlloc

/-! Which node alloc takes and what it leaves. A node is taken whole when at most 16 bytes would be
left over; otherwise the rest of it becomes the node in its place. Nodes may reach up to the end of
the address space; the first 16 bytes belong to no node. Where no node fits, the number of pages is
narrowed to an int: from 2^43 bytes on it says nothing about the size any more. -/
namespace DimOS.Memory.Heap
open Lib.ByteMemory
open Lib.Segments

/- A free list that alloc can be called with: sorted by address, disjoint, no two nodes touching. -/
structure FreeNodes (fl : FreeList) (l : List Seg) : Prop where
  chain : Chain fl.mem fl.head l 0
  separated : Separated l
  low : ∀ s ∈ l, 16 ≤ s.start
  high : ∀ s ∈ l, s.stop ≤ 2 ^ 64

def capacity (s : Seg) : Nat := s.stop - s.start - 16

theorem searchBest {fl : FreeList} {l : List Seg} {size fuel : Nat} (nodes : FreeNodes fl l)
    (enough : l.length < fuel) (some' : ∃ s ∈ l, s.start + 16 + size ≤ s.stop) :
    ∃ fit pre s post, fl.search fuel size = some fit ∧ l = pre ++ s :: post ∧ fit.target = s.start ∧
      fit.prev = lastStart 0 pre ∧ Best size pre s post := by
  obtain ⟨fit, found, ⟨-, none⟩ | ⟨pre, s, post, shape, target, prev, best⟩⟩ :=
    searchSpec size nodes.chain nodes.high enough
  · obtain ⟨s, mem, fits⟩ := some'
    have := none s mem
    omega
  · exact ⟨fit, pre, s, post, found, shape, target, prev, best⟩

theorem takenSize {old l : List Seg} {m : Memory} {size : Nat} {out : FreeList} {b : Seg}
    (taken : Taken old m size out l b) : sizeAt out.mem b.start = capacity b := by
  have stop := blockStop taken.here
  unfold capacity
  omega

/- The list after the node `s` was taken for `size` bytes. -/
structure Left (size : Nat) (pre : List Seg) (s : Seg) (post : List Seg) (list : FreeList) : Prop where
  cut : size + 16 < capacity s → sizeAt list.mem s.start = size ∧
    ∃ rest : Seg, rest.start = s.start + 16 + size ∧ capacity rest = capacity s - size - 16 ∧
      Chain list.mem list.head (pre ++ rest :: post) 0
  whole : capacity s ≤ size + 16 → sizeAt list.mem s.start = capacity s ∧
    Chain list.mem list.head (pre ++ post) 0

theorem takeLeft {fl : FreeList} {pre post : List Seg} {s : Seg} {size : Nat}
    (nodes : FreeNodes fl (pre ++ s :: post)) (fits : s.start + 16 + size ≤ s.stop) :
    Left size pre s post (fl.take s.start (lastStart 0 pre) size) := by
  have low := nodes.low s (by simp)
  have high := nodes.high s (by simp)
  rw [takeEq nodes.chain high (by omega) fits]
  constructor
  · intro more
    have room : s.start + 16 + size + 16 < s.stop := by
      unfold capacity at more
      omega
    rw [if_pos room]
    have taken := takeSplit nodes.chain nodes.separated high room
    refine ⟨?_, _, rfl, ?_, taken.chain⟩
    · rw [takenSize taken]
      simp only [capacity]
      omega
    · simp only [capacity]
      omega
  · intro most
    have tight : ¬ s.start + 16 + size + 16 < s.stop := by
      unfold capacity at most
      omega
    rw [if_neg tight]
    have taken := takeWhole nodes.chain nodes.separated fits
    exact ⟨takenSize taken, taken.chain⟩

/-- Best fit: alloc takes a node of least capacity among those that can hold the size, the lowest of
them, and every other node stays as it is in its place. -/
theorem allocBestFit (allocNPages : Int → Nat) (tries : Nat) {fl : FreeList} {l : List Seg} {size fuel : Nat}
    (nodes : FreeNodes fl l) (enough : l.length < fuel) (some' : ∃ s ∈ l, size ≤ capacity s) :
    ∃ pre s post list, l = pre ++ s :: post ∧ size ≤ capacity s ∧
      (∀ t ∈ l, size ≤ capacity t → capacity s ≤ capacity t) ∧
      (∀ t ∈ l, size ≤ capacity t → capacity t = capacity s → s.start ≤ t.start) ∧
      fl.alloc fuel allocNPages size (tries + 1) = some ⟨list, (s.start + 16) % 2 ^ 64, []⟩ ∧
      Left size pre s post list := by
  have room : ∀ t ∈ l, size ≤ capacity t ↔ t.start + 16 + size ≤ t.stop := by
    intro t mem
    obtain ⟨before, after, shape⟩ := List.append_of_mem mem
    obtain ⟨r, -, -, here, -⟩ := chainAppend.mp (shape ▸ nodes.chain)
    have start := blockStart here
    have stop := blockStop here
    unfold capacity
    omega
  obtain ⟨t, mem, holds⟩ := some'
  obtain ⟨fit, pre, s, post, found, rfl, target, prev, best⟩ :=
    searchBest nodes enough ⟨t, mem, (room t mem).mp holds⟩
  have nonzero := chainNonzero nodes.chain (show s ∈ pre ++ s :: post by simp)
  have fits := best.fits
  refine ⟨pre, s, post, fl.take s.start (lastStart 0 pre) size, rfl, (room s (by simp)).mpr fits, ?_, ?_, ?_,
    takeLeft nodes fits⟩
  · intro t mem holds
    have holds' := (room t mem).mp holds
    unfold capacity
    rcases List.mem_append.mp mem with before | after
    · have := best.less t before holds'
      omega
    · rcases List.mem_cons.mp after with rfl | after
      · exact Nat.le_refl _
      · have := best.least t after holds'
        omega
  · intro t mem holds equal
    have holds' := (room t mem).mp holds
    rcases List.mem_append.mp mem with before | after
    · -- a node before `s` that fits is larger, so it is no tie
      have := best.less t before holds'
      unfold capacity at equal
      omega
    · rcases List.mem_cons.mp after with rfl | after
      · exact Nat.le_refl _
      · have gap := (List.pairwise_cons.mp (List.pairwise_append.mp nodes.separated).2.1).1 t after
        have := s.proper
        omega
  · simp only [FreeList.alloc, found, target, prev, nonzero, if_false, sizeofNode]

/- Three nodes: 100 bytes at 4096, 60 bytes at 8192 and 60 bytes at 12288. -/
def threeNodes : FreeList :=
  ⟨4096, setNext (setSize (setNext (setSize (setNext (setSize (fun _ => 0) 4096 100) 4096 8192) 8192 60) 8192 12288)
    12288 60) 12288 0⟩

def threeSegs : List Seg := [⟨4096, 4212, by decide⟩, ⟨8192, 8268, by decide⟩, ⟨12288, 12364, by decide⟩]

theorem threeNodesFree : FreeNodes threeNodes threeSegs := by
  refine ⟨⟨by decide, ?_, by decide +kernel, ?_, by decide +kernel, ?_, ?_⟩, ?_, by decide, by decide⟩
  · exact blockOfSize rfl (by decide +kernel)
  · rw [show nextAt threeNodes.mem threeNodes.head = 8192 by decide +kernel]
    exact blockOfSize rfl (by decide +kernel)
  · rw [show nextAt threeNodes.mem (nextAt threeNodes.mem threeNodes.head) = 12288 by decide +kernel]
    exact blockOfSize rfl (by decide +kernel)
  · show nextAt threeNodes.mem (nextAt threeNodes.mem (nextAt threeNodes.mem threeNodes.head)) = 0
    decide +kernel
  · unfold Separated threeSegs
    decide

/- The lower of the two nodes of 60 bytes is taken and cut. -/
theorem allocBestFitThree : ∃ pre s post list, threeSegs = pre ++ s :: post ∧ capacity s = 60 ∧ s.start = 8192 ∧
    threeNodes.alloc 4 (fun _ => 0) 20 1 = some ⟨list, 8208, []⟩ ∧ Left 20 pre s post list := by
  obtain ⟨pre, s, post, list, shape, holds, least, lowest, made, left⟩ :=
    @allocBestFit (fun _ => 0) 0 threeNodes threeSegs 20 4 threeNodesFree (by decide) (by decide)
  have mem : s ∈ threeSegs := by
    rw [shape]
    simp
  have most := least ⟨8192, 8268, by decide⟩ (by decide) (by decide)
  have tie := lowest ⟨8192, 8268, by decide⟩ (by decide) (by decide)
  simp only [threeSegs, List.mem_cons, List.not_mem_nil, or_false] at mem
  rcases mem with rfl | rfl | rfl
  · simp [capacity] at most
  · exact ⟨pre, _, post, list, shape, rfl, rfl, made, left⟩
  · simp [capacity] at tie

/- VMM::allocNPages hands out the pages it was asked for, as one region that nobody holds. -/
structure FreshPages (allocNPages : Int → Nat) (size : Nat) (l : List Seg) (r : Seg) : Prop where
  start : r.start = allocNPages (reqPages size)
  stop : (r.stop : Int) = r.start + reqPages size * pageSize
  nonzero : r.start ≠ 0
  below : r.stop < 2 ^ 64
  apart : ∀ t ∈ l, r.Apart t

/- The pages that alloc asks for hold a node of this size, and with them the retry returns a block. -/
structure GrowthSuffices (fuel : Nat) (fl : FreeList) (l : List Seg) (size : Nat) : Prop where
  pages : (size : Int) + sizeofNode ≤ reqPages size * pageSize
  retry : ∀ allocNPages r, FreshPages allocNPages size l r →
    ∃ list l' b, fl.alloc fuel allocNPages size 2 = some ⟨list, b.start + 16, [(r.start, r.stop - r.start)]⟩ ∧
      Taken (r :: l) fl.mem size list l' b

theorem freshGranted {allocNPages : Int → Nat} {size : Nat} {l : List Seg} {r : Seg}
    (range : size + 16 + 4095 < 2 ^ 43) (fresh : FreshPages allocNPages size l r) : Granted allocNPages size r := by
  obtain ⟨pages, bytes⟩ := reqBytesEq range
  have stop := fresh.stop
  rw [pages] at stop
  unfold pageSize at stop
  refine ⟨fresh.start, ?_⟩
  rw [bytes]
  omega

theorem allocAsks {fuel size tries : Nat} {fl : FreeList} {allocNPages : Int → Nat} {fit : Fit} {out : Allocated}
    (found : fl.search fuel size = some fit) (none : fit.target = 0)
    (made : fl.alloc fuel allocNPages size tries = some out) : out.grown ≠ [] := by
  cases tries with
  | zero => cases made
  | succ tries =>
    simp only [FreeList.alloc, found, none, if_true] at made
    split at made
    · cases made
    · obtain ⟨last, -, rfl⟩ := Option.map_eq_some_iff.mp made
      exact List.cons_ne_nil _ _

theorem retryReturns {fl : FreeList} {l : List Seg} {size fuel : Nat} {allocNPages : Int → Nat} {r : Seg}
    (chain : Chain fl.mem fl.head l 0) (sep : Separated l) (small : ∀ s ∈ l, s.stop < 2 ^ 64)
    (enough : l.length + 1 < fuel) (none : ∀ s ∈ l, s.stop < s.start + 16 + size)
    (range : size + 16 + 4095 < 2 ^ 43) (fresh : FreshPages allocNPages size l r) :
    ∃ list l' b, fl.alloc fuel allocNPages size 2 = some ⟨list, b.start + 16, [(r.start, r.stop - r.start)]⟩ ∧
      Taken (r :: l) fl.mem size list l' b := by
  have granted := freshGranted range fresh
  obtain ⟨extra, l', b, list, asked, made, taken⟩ := allocSpec 0 chain sep small enough range
    (fun _ _ _ => ⟨r, granted, fresh.nonzero, fresh.below, fresh.apart⟩)
  rcases asked with rfl | ⟨r', fit, rfl, granted', -⟩
  · obtain ⟨fit, found, ⟨target, -⟩ | ⟨pre, s, post, rfl, -, -, best⟩⟩ :=
      searchSpec size chain (fun s mem => Nat.le_of_lt (small s mem)) (Nat.lt_of_succ_lt enough)
    · exact absurd rfl (allocAsks found target made)
    · have := none s (by simp)
      have := best.fits
      omega
  · have same : r' = r := by
      cases r
      cases r'
      simp only [Granted] at granted granted'
      simp only [Seg.mk.injEq]
      omega
    rw [same] at made taken
    exact ⟨list, l', b, made, taken⟩

/-- Where no node fits, the pages that alloc asks for are enough for its one retry exactly for the
sizes below 2^43 - 4111. -/
theorem growthSufficesIff {fl : FreeList} {l : List Seg} {size fuel : Nat}
    (chain : Chain fl.mem fl.head l 0) (sep : Separated l) (small : ∀ s ∈ l, s.stop < 2 ^ 64)
    (enough : l.length + 1 < fuel) (none : ∀ s ∈ l, s.stop < s.start + 16 + size) :
    GrowthSuffices fuel fl l size ↔ size < 2 ^ 43 - 4111 := by
  constructor
  · intro suffices'
    have pages := suffices'.pages
    -- an int is below 2^31, so no more than 2^43 - 4096 bytes are ever asked for
    have most : reqPages size < 2 ^ 31 := by
      unfold reqPages
      have := @Int.bmod_lt (((size + sizeofNode + pageSize - 1) % 2 ^ 64 / pageSize : Nat) : Int) (2 ^ 32) (by decide)
      omega
    unfold sizeofNode pageSize at pages
    omega
  · intro range
    refine ⟨?_, fun allocNPages r fresh => retryReturns chain sep small enough none (by omega) fresh⟩
    obtain ⟨pages, -⟩ := @reqBytesEq size (by omega)
    rw [pages]
    unfold sizeofNode pageSize
    omega

theorem growthSufficesPage : GrowthSuffices 3 (FreeList.empty (fun _ => 0)) [] 5000 :=
  (@growthSufficesIff (FreeList.empty (fun _ => 0)) [] 5000 3 rfl List.Pairwise.nil (by simp) (by decide)
    (by simp)).mpr (by decide)

/- For 2^44 bytes alloc asks for one page, adds it, and finds again that nothing fits; for 2^43 bytes
the number of pages is negative. -/
theorem growthTooSmall :
    ¬ GrowthSuffices 3 (FreeList.empty (fun _ => 0)) [] (2 ^ 44) ∧ reqPages (2 ^ 44) = 1 ∧
      ((FreeList.empty (fun _ => 0)).alloc 3 (fun _ => 4096) (2 ^ 44) 2).isNone = true ∧ reqPages (2 ^ 43) = 1 - 2 ^ 31 := by
  refine ⟨fun suffices' => ?_, by decide, by decide +kernel, by decide⟩
  have pages := suffices'.pages
  rw [show reqPages (2 ^ 44) = 1 by decide] at pages
  unfold sizeofNode pageSize at pages
  omega

end DimOS.Memory.Heap
