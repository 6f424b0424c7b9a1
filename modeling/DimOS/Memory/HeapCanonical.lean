import Mathlib
import DimOS.Memory.HeapRuns

/-! The free list is a function of the donated bytes and the live blocks: a list without
touching nodes is determined by the bytes it covers, and those are the donated ones that no
live block holds. alloc is taken here when some node fits, whatever the size; what it does
when it has to grow is in the runs before. -/
namespace DimOS.Memory.Heap
open Lib.ByteMemory
open Lib.Segments
open Lib.Transition (run Guarded)

structure ListNode where
  addr : Nat
  size : Nat
  next : Nat
  deriving DecidableEq, Repr

def nodesFrom (m : Memory) : Nat → Nat → List ListNode
  | 0, _ => []
  | fuel + 1, curr =>
    if curr = 0 then [] else ⟨curr, sizeAt m curr, nextAt m curr⟩ :: nodesFrom m fuel (nextAt m curr)

def FreeList.nodes (fuel : Nat) (fl : FreeList) : List ListNode := nodesFrom fl.mem fuel fl.head

def liveBlocks (s : State) : List (Nat × Nat) :=
  s.live.map (fun ptr => (ptr - 16, sizeAt s.heap.mem (ptr - 16)))

/- Frees of live blocks, allocations some node is large enough for, donations of fresh
memory, and writes of the holders. -/
def Quiet (fuel : Nat) (s : State) : Op → Prop
  | .addMemory addr size => 16 < size ∧ Fresh s addr size
  | .alloc size _ => asksVmm fuel s.heap size = false
  | .free ptr => ptr ∈ s.live
  | .write addr _ => ∃ ptr ∈ s.live, ptr ≤ addr ∧ addr < ptr + sizeAt s.heap.mem (ptr - 16)

def mergedRegions : List (Nat × Nat) → List Seg
  | [] => []
  | r :: regions =>
    if proper : r.1 < r.1 + r.2 then insertSeg ⟨r.1, r.1 + r.2, proper⟩ (mergedRegions regions)
    else mergedRegions regions

def RegionsApart (regions : List (Nat × Nat)) : Prop :=
  regions.Pairwise (fun r d => r.1 + r.2 ≤ d.1 ∨ d.1 + d.2 ≤ r.1)

theorem mergedSpec {regions : List (Nat × Nat)} (apart : RegionsApart regions) :
    Separated (mergedRegions regions) ∧ ∀ x, Covers (mergedRegions regions) x ↔ Donated regions x := by
  induction regions with
  | nil => exact ⟨List.Pairwise.nil, fun x => by simp [mergedRegions, Donated]⟩
  | cons r regions ih =>
    obtain ⟨first, rest⟩ := List.pairwise_cons.mp apart
    obtain ⟨separated, covers⟩ := ih rest
    simp only [mergedRegions]
    by_cases proper : r.1 < r.1 + r.2
    · rw [dif_pos proper]
      constructor
      · refine insertSeparated separated (apartAll.mpr ?_)
        rintro x ⟨has, covered⟩
        obtain ⟨d, mem, low, high⟩ := (covers x).mp covered
        have := first d mem
        simp only [Seg.Has] at has
        omega
      · intro x
        rw [insertCovers, covers, donatedCons]
        rfl
    · rw [dif_neg proper]
      refine ⟨separated, fun x => ?_⟩
      rw [covers, donatedCons]
      constructor
      · exact .inr
      · rintro (here | there)
        · omega
        · exact there

def listNodes : List Seg → List ListNode
  | [] => []
  | s :: l => ⟨s.start, s.stop - s.start - 16, entry l⟩ :: listNodes l

theorem nodesChain {m : Memory} {fuel p : Nat} {l : List Seg} (chain : Chain m p l 0)
    (enough : l.length < fuel) : nodesFrom m fuel p = listNodes l := by
  induction l generalizing fuel p with
  | nil =>
    obtain ⟨fuel, rfl⟩ := Nat.exists_eq_succ_of_ne_zero (Nat.ne_of_gt enough)
    have done : p = 0 := chain
    simp [nodesFrom, listNodes, done]
  | cons s l ih =>
    obtain ⟨fuel, rfl⟩ := Nat.exists_eq_succ_of_ne_zero (show fuel ≠ 0 by omega)
    obtain ⟨nonzero, here, rest⟩ := chain
    have start := blockStart here
    have stop := blockStop here
    have size : sizeAt m p = s.stop - s.start - 16 := by omega
    simp only [List.length_cons] at enough
    have tail := ih rest (show l.length < fuel by omega)
    simp only [nodesFrom, nonzero, if_false, listNodes, tail]
    rw [← chainEntryEq rest, start, size, start]

theorem allocQuiet (allocNPages : Int → Nat) {fuel size : Nat} {s : State} {free : List Seg}
    (h : Tiled s free) (fits : asksVmm fuel s.heap size = false) (enough : free.length < fuel) :
    ∃ t ptr, step fuel s (.alloc size allocNPages) = some t ∧ t.live = ptr :: s.live ∧
      t.donated = s.donated ∧ blocks t.heap.mem s.live = blocks s.heap.mem s.live ∧
      ∃ free', Tiled t free' ∧ free'.length ≤ free.length + 1 := by
  obtain ⟨fit, found, ⟨target, -⟩ | ⟨pre, b, post, rfl, target, prev, best⟩⟩ :=
    searchSpec size h.chain (fun t mem => Nat.le_of_lt (h.below (.inl mem)).2) enough
  · simp [asksVmm, found, target] at fits
  · obtain ⟨tries, rfl⟩ : ∃ tries, fuel = tries + 1 := ⟨fuel - 1, by omega⟩
    obtain ⟨l, block, list, made, taken⟩ := allocFound allocNPages tries h.chain h.separated
      (h.below (.inl (by simp))).2 best.fits found target prev
    obtain ⟨tiled, same⟩ := takenTiled h
      (show ∀ r ∈ ([] : List Seg), Fresh s r.start (r.stop - r.start) by simp) taken
    refine ⟨⟨list, (block.start + 16) :: s.live, s.donated⟩, block.start + 16, ?_, rfl, rfl, same, l,
      tiled, ?_⟩
    · simp only [step, made, Option.map_some, List.nil_append]
    exact Nat.le_succ_of_le taken.length

theorem quietTiled {fuel : Nat} {s : State} {free : List Seg} {op : Op} (h : Tiled s free)
    (quiet : Quiet fuel s op) (enough : free.length + 1 < fuel) :
    ∃ t, step fuel s op = some t ∧ (RegionsApart s.donated → RegionsApart t.donated) ∧
      ∃ free', Tiled t free' ∧ free'.length ≤ free.length + 1 := by
  cases op with
  | addMemory addr size =>
    obtain ⟨t, taken, kept⟩ := addMemoryTiled h quiet.1 quiet.2 (Nat.lt_of_succ_lt enough)
    refine ⟨t, taken, fun apart => ?_, kept⟩
    obtain ⟨heap, -, rfl⟩ := Option.map_eq_some_iff.mp taken
    exact List.pairwise_cons.mpr ⟨quiet.2.2.2, apart⟩
  | alloc size allocNPages =>
    obtain ⟨t, ptr, taken, -, donated, -, kept⟩ := allocQuiet allocNPages h quiet (Nat.lt_of_succ_lt enough)
    exact ⟨t, taken, fun apart => donated ▸ apart, kept⟩
  | free ptr =>
    obtain ⟨t, taken, ⟨-, donated, -⟩, kept⟩ := freeTiled h quiet (Nat.lt_of_succ_lt enough)
    exact ⟨t, taken, fun apart => donated ▸ apart, kept⟩
  | write addr value =>
    obtain ⟨t, taken, kept⟩ := writeTiled h quiet
    refine ⟨t, taken, fun apart => ?_, kept⟩
    cases Option.some.inj taken
    exact apart

theorem quietRun {fuel : Nat} {s : State} {free : List Seg} {ops : List Op} (h : Tiled s free)
    (quiet : Guarded (step fuel) (Quiet fuel) s ops) (enough : free.length + ops.length < fuel) :
    ∃ t, run (step fuel) s ops = some t ∧ (RegionsApart s.donated → RegionsApart t.donated) ∧
      ∃ free', Tiled t free' ∧ free'.length ≤ free.length + ops.length := by
  induction ops generalizing s free with
  | nil => exact ⟨s, rfl, id, free, h, Nat.le_refl _⟩
  | cons op ops ih =>
    obtain ⟨first, later⟩ := Lib.Transition.guardedConsIff.mp quiet
    simp only [List.length_cons] at enough ⊢
    obtain ⟨mid, taken, apart, free', tiled, grown⟩ := quietTiled h first (by omega)
    obtain ⟨t, reached, apart', free'', last, total⟩ := ih tiled (later mid taken) (by omega)
    exact ⟨t, by simp only [run, taken, Option.bind_some, reached], apart' ∘ apart, free'', last,
      by omega⟩

theorem coversLive {m : Memory} {live : List Nat} (x : Nat) :
    Covers (blocks m live) x ↔ ∃ ptr ∈ live, ptr - 16 ≤ x ∧ x < ptr - 16 + 16 + sizeAt m (ptr - 16) := by
  unfold Covers blocks
  simp only [List.mem_map, exists_exists_and_eq_and, Seg.Has, block, sizeofNode]

theorem canonicalTiled {s t : State} {k l : List Seg} (left : Tiled s k) (right : Tiled t l)
    (donated : ∀ x, Donated s.donated x ↔ Donated t.donated x)
    (live : ∀ x, Covers (blocks s.heap.mem s.live) x ↔ Covers (blocks t.heap.mem t.live) x) : k = l := by
  refine separatedUnique left.separated right.separated (fun x => ?_)
  have both := (left.tiles x).trans ((donated x).trans (right.tiles x).symm)
  have mine := left.owned x
  have theirs := right.owned x
  rw [live x] at both mine
  constructor
  · intro covered
    exact (both.mp (.inl covered)).resolve_right (mine covered)
  · intro covered
    exact (both.mpr (.inl covered)).resolve_right (theirs covered)

theorem liveBlocksCover {s t : State} (same : ∀ b, b ∈ liveBlocks s ↔ b ∈ liveBlocks t) (x : Nat) :
    Covers (blocks s.heap.mem s.live) x ↔ Covers (blocks t.heap.mem t.live) x := by
  have pairs : ∀ u : State, Covers (blocks u.heap.mem u.live) x ↔
      ∃ b ∈ liveBlocks u, b.1 ≤ x ∧ x < b.1 + 16 + b.2 := by
    intro u
    rw [coversLive]
    unfold liveBlocks
    simp only [List.mem_map, exists_exists_and_eq_and]
  rw [pairs s, pairs t]
  exact exists_congr (fun b => and_congr_left' (same b))

theorem freesQuiet {fuel : Nat} {s : State} {free : List Seg} {ptrs : List Nat} (h : Tiled s free)
    (distinct : ptrs.Nodup) (held : ∀ ptr ∈ ptrs, ptr ∈ s.live)
    (enough : free.length + ptrs.length < fuel) :
    ∃ t free', run (step fuel) s (ptrs.map Op.free) = some t ∧ Tiled t free' ∧
      free'.length ≤ free.length + ptrs.length ∧ t.donated = s.donated ∧
      (∀ x, Covers (blocks s.heap.mem (s.live.diff ptrs)) x ↔ Covers (blocks t.heap.mem t.live) x) := by
  induction ptrs generalizing s free with
  | nil => exact ⟨s, free, rfl, h, Nat.le_refl _, rfl, fun _ => Iff.rfl⟩
  | cons ptr ptrs ih =>
    obtain ⟨alone, distinct'⟩ := List.nodup_cons.mp distinct
    simp only [List.length_cons] at enough ⊢
    obtain ⟨mid, freed, ⟨live, donated, same⟩, free', tiled, grown⟩ :=
      freeTiled h (held ptr (by simp)) (show free.length < fuel by omega)
    have held' : ∀ q ∈ ptrs, q ∈ mid.live := by
      intro q mem
      rw [live]
      exact (List.mem_erase_of_ne (fun (e : q = ptr) => alone (e ▸ mem))).mpr (held q (by simp [mem]))
    obtain ⟨t, free'', reached, last, total, given, covers⟩ := ih tiled distinct' held' (by omega)
    refine ⟨t, free'', ?_, last, by omega, given.trans donated, ?_⟩
    · simp only [List.map_cons, run, freed, Option.bind_some, reached]
    · intro x
      rw [← covers x, List.diff_cons, ← live]
      have inside : ∀ q ∈ mid.live.diff ptrs, q ∈ mid.live := fun q mem => List.diff_subset _ _ mem
      rw [coversLive, coversLive]
      have sizes : ∀ q ∈ mid.live, sizeAt mid.heap.mem (q - 16) = sizeAt s.heap.mem (q - 16) := by
        intro q mem
        have blockEq := List.map_inj_left.mp same q mem
        have stops := congrArg Seg.stop blockEq
        simp only [block] at stops
        omega
      constructor
      · rintro ⟨q, mem, low, high⟩
        exact ⟨q, mem, low, by rw [sizes q (inside q mem)]; exact high⟩
      · rintro ⟨q, mem, low, high⟩
        exact ⟨q, mem, low, by rw [← sizes q (inside q mem)]; exact high⟩

theorem tiledNodes {fuel : Nat} {s t : State} {k l : List Seg} (left : Tiled s k) (right : Tiled t l)
    (short : k.length < fuel) (same : k = l) : s.heap.nodes fuel = t.heap.nodes fuel := by
  subst same
  rw [FreeList.nodes, FreeList.nodes, nodesChain left.chain short, nodesChain right.chain short]

/-- The free list is canonical. After any run: a second run over the same donated bytes that
ends with the same live blocks ends with the same list, node for node; live blocks can be
freed in any order; free undoes alloc; and with nothing live the list is the donated regions
with touching ones merged. -/
theorem freeListCanonical (fuel : Nat) (m : Memory) (ops : List Op) (enough : ops.length + 1 < fuel)
    (quiet : Guarded (step fuel) (Quiet fuel) (start m) ops) :
    ∃ s, run (step fuel) (start m) ops = some s ∧
      (∀ m' ops', ops'.length < fuel → Guarded (step fuel) (Quiet fuel) (start m') ops' →
        ∃ t, run (step fuel) (start m') ops' = some t ∧
          ((∀ x, Donated s.donated x ↔ Donated t.donated x) →
            (∀ b, b ∈ liveBlocks s ↔ b ∈ liveBlocks t) → s.heap.nodes fuel = t.heap.nodes fuel)) ∧
      (∀ ptrs ptrs' : List Nat, ptrs.Perm ptrs' → ptrs.Nodup → (∀ ptr ∈ ptrs, ptr ∈ s.live) →
        ops.length + ptrs.length < fuel →
        ∃ t t', run (step fuel) s (ptrs.map Op.free) = some t ∧
          run (step fuel) s (ptrs'.map Op.free) = some t' ∧ t.heap.nodes fuel = t'.heap.nodes fuel) ∧
      (∀ size allocNPages, asksVmm fuel s.heap size = false →
        ∃ t ptr u, step fuel s (.alloc size allocNPages) = some t ∧ t.live = ptr :: s.live ∧
          step fuel t (.free ptr) = some u ∧ u.heap.nodes fuel = s.heap.nodes fuel) ∧
      (s.live = [] → s.heap.nodes fuel = listNodes (mergedRegions s.donated)) := by
  obtain ⟨s, reached, apart, free, tiled, short⟩ := quietRun (startTiled m) quiet (by simp; omega)
  simp only [List.length_nil, Nat.zero_add] at short
  refine ⟨s, reached, ?_, ?_, ?_, ?_⟩
  · intro m' ops' enough' quiet'
    obtain ⟨t, reached', -, free', tiled', -⟩ := quietRun (startTiled m') quiet' (by simpa using enough')
    refine ⟨t, reached', fun donated live => ?_⟩
    have short' : free.length < fuel := by omega
    exact tiledNodes tiled tiled' short'
      (canonicalTiled tiled tiled' donated (liveBlocksCover live))
  · intro ptrs ptrs' perm distinct held room
    obtain ⟨t, k, ran, left, total, given, covers⟩ := freesQuiet tiled distinct
      held (show free.length + ptrs.length < fuel by omega)
    obtain ⟨t', l, ran', right, -, given', covers'⟩ := freesQuiet tiled
      (perm.nodup_iff.mp distinct) (fun ptr mem => held ptr (perm.mem_iff.mpr mem))
      (show free.length + ptrs'.length < fuel by rw [← perm.length_eq]; omega)
    have short' : k.length < fuel := by omega
    refine ⟨t, t', ran, ran', tiledNodes left right short' (canonicalTiled left right ?_ ?_)⟩
    · intro x
      rw [given, given']
    · intro x
      rw [← covers x, ← covers' x, perm.diff_left s.live]
  · intro size allocNPages fits
    obtain ⟨t, ptr, taken, live, donated, same, mid, tiledT, grown⟩ :=
      allocQuiet allocNPages tiled fits (by omega)
    obtain ⟨u, freed, ⟨liveU, donatedU, sameU⟩, last, tiledU, -⟩ :=
      freeTiled tiledT (show ptr ∈ t.live by rw [live]; simp) (show mid.length < fuel by omega)
    have back : u.live = s.live := by
      rw [liveU, live, List.erase_cons_head]
    have short' : free.length < fuel := by omega
    refine ⟨t, ptr, u, taken, live, freed, (tiledNodes tiled tiledU short'
      (canonicalTiled tiled tiledU ?_ ?_)).symm⟩
    · intro x
      rw [donatedU, donated]
    · intro x
      rw [sameU, back, same]
  · intro none
    obtain ⟨separated, covers⟩ := mergedSpec (apart List.Pairwise.nil)
    have whole : free = mergedRegions s.donated := by
      refine separatedUnique tiled.separated separated (fun x => ?_)
      rw [covers x, ← tiled.tiles x, none]
      simp [blocks]
    rw [FreeList.nodes, nodesChain tiled.chain (by omega), whole]

instance (fuel : Nat) (s : State) : (op : Op) → Decidable (Quiet fuel s op)
  | .addMemory addr size => inferInstanceAs (Decidable (16 < size ∧ Fresh s addr size))
  | .alloc size _ => inferInstanceAs (Decidable (asksVmm fuel s.heap size = false))
  | .free ptr => inferInstanceAs (Decidable (ptr ∈ s.live))
  | .write addr _ => inferInstanceAs (Decidable (∃ ptr ∈ s.live, ptr ≤ addr ∧
      addr < ptr + sizeAt s.heap.mem (ptr - 16)))

/- Two pages donated in the given order, three blocks, and frees in the given order. -/
def twoPages (pages frees : List Nat) : List Op :=
  pages.map (fun page => .addMemory page 4096) ++
    [.alloc 100 (fun _ => 0), .alloc 40 (fun _ => 0), .alloc 60 (fun _ => 0)] ++ frees.map .free

/- Two of the blocks freed in both orders, and all of them, in two runs that end with the two pages as one node. -/
theorem freeListCanonicalPages :
    (∃ s t t', run (step 12) (start (fun _ => 0)) (twoPages [4096, 8192] []) = some s ∧
      run (step 12) s [.free 4112, .free 4284] = some t ∧ run (step 12) s [.free 4284, .free 4112] = some t' ∧
      t.heap.nodes 12 = t'.heap.nodes 12) ∧
    ∃ s t, run (step 12) (start (fun _ => 0)) (twoPages [4096, 8192] [4112, 4284, 4228]) = some s ∧
      run (step 12) (start (fun _ => 0)) (twoPages [8192, 4096] [4284, 4228, 4112]) = some t ∧
      s.live = [] ∧ s.heap.nodes 12 = t.heap.nodes 12 ∧ s.heap.nodes 12 = [⟨4096, 8176, 0⟩] := by
  constructor
  · obtain ⟨s, reached, -, orders, -, -⟩ := freeListCanonical 12 (fun _ => 0) (twoPages [4096, 8192] []) (by decide)
      (Lib.Transition.checkedGuarded (by decide +kernel))
    have live : (run (step 12) (start (fun _ => 0)) (twoPages [4096, 8192] [])).map (·.live) = some [4284, 4228, 4112] := by
      decide +kernel
    rw [reached, Option.map_some, Option.some.injEq] at live
    obtain ⟨t, t', ran, ran', same⟩ := orders [4112, 4284] [4284, 4112] (List.Perm.swap _ _ _) (by decide)
      (by rw [live]; decide) (by decide)
    exact ⟨s, t, t', reached, ran, ran', same⟩
  · obtain ⟨s, reached, second, -, -, merged⟩ := freeListCanonical 12 (fun _ => 0)
      (twoPages [4096, 8192] [4112, 4284, 4228]) (by decide) (Lib.Transition.checkedGuarded (by decide +kernel))
    obtain ⟨t, reached', same⟩ := second (fun _ => 0) (twoPages [8192, 4096] [4284, 4228, 4112]) (by decide)
      (Lib.Transition.checkedGuarded (by decide +kernel))
    have left : (run (step 12) (start (fun _ => 0)) (twoPages [4096, 8192] [4112, 4284, 4228])).map
        (fun s => (s.live, s.donated)) = some ([], [(8192, 4096), (4096, 4096)]) := by
      decide +kernel
    have right : (run (step 12) (start (fun _ => 0)) (twoPages [8192, 4096] [4284, 4228, 4112])).map
        (fun s => (s.live, s.donated)) = some ([], [(4096, 4096), (8192, 4096)]) := by
      decide +kernel
    simp only [reached, reached', Option.map_some, Option.some.injEq, Prod.mk.injEq] at left right
    refine ⟨s, t, reached, reached', left.1, same (fun x => ?_) (fun b => ?_), ?_⟩
    · rw [left.2, right.2]
      simp only [Donated, List.mem_cons, List.not_mem_nil, or_false, exists_eq_or_imp, exists_eq_left]
      exact or_comm
    · rw [liveBlocks, liveBlocks, left.1, right.1]
      exact Iff.rfl
    · rw [merged left.1, left.2]
      rfl

end DimOS.Memory.Heap
