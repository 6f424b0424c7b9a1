import Mathlib
import DimOS.Lib.Transition
import DimOS.Memory.HeapAlloc

/-! Any sequence of addMemory, alloc and free on one FreeList, with the holders of live
blocks writing into them in between. live holds the pointers alloc returned and free has
not taken back, donated the regions the list was given; the code keeps neither. -/
namespace DimOS.Memory.Heap
open Lib.ByteMemory
open Lib.Segments
open Lib.Transition (run Guarded)

structure State where
  heap : FreeList
  live : List Nat
  donated : List (Nat × Nat)

/- Each alloc carries what VMM::allocNPages would answer during it. -/
inductive Op where
  | addMemory (addr size : Nat)
  | alloc (size : Nat) (allocNPages : Int → Nat)
  | free (ptr : Nat)
  | write (addr : Nat) (value : BitVec 8)

def step (fuel : Nat) (s : State) : Op → Option State
  | .addMemory addr size =>
    (s.heap.addMemory fuel addr size).map
      (fun heap => { s with heap := heap, donated := (addr, size) :: s.donated })
  | .alloc size allocNPages =>
    (s.heap.alloc fuel allocNPages size fuel).map
      (fun out => ⟨out.list, out.ptr :: s.live, out.grown ++ s.donated⟩)
  | .free ptr =>
    (s.heap.free fuel ptr).map (fun heap => { s with heap := heap, live := s.live.erase ptr })
  | .write addr value =>
    some { s with heap := { s.heap with mem := Function.update s.heap.mem addr value } }

def start (m : Memory) : State := ⟨FreeList.empty m, [], []⟩

/- A region above address 0, below 2^64 and disjoint from everything held. -/
def Fresh (s : State) (addr size : Nat) : Prop :=
  addr ≠ 0 ∧ addr + size < 2 ^ 64 ∧ ∀ r ∈ s.donated, addr + size ≤ r.1 ∨ r.1 + r.2 ≤ addr

/- No free node fits, so alloc will call VMM::allocNPages. -/
def asksVmm (fuel : Nat) (fl : FreeList) (size : Nat) : Bool :=
  match fl.search fuel size with
  | some fit => fit.target == 0
  | none => false

def Allowed (fuel : Nat) (s : State) : Op → Prop
  | .addMemory addr size => 16 < size ∧ Fresh s addr size
  | .alloc size allocNPages => size + 16 + 4095 < 2 ^ 43 ∧
      (asksVmm fuel s.heap size = true →
        Fresh s (allocNPages (reqPages size)) ((reqPages size).toNat * pageSize))
  | .free ptr => ptr ∈ s.live
  | .write addr _ => ∃ ptr ∈ s.live, ptr ≤ addr ∧ addr < ptr + sizeAt s.heap.mem (ptr - 16)

def blocks (m : Memory) (live : List Nat) : List Seg := live.map (fun ptr => block m (ptr - 16))

def Donated (regions : List (Nat × Nat)) (x : Nat) : Prop := ∃ r ∈ regions, r.1 ≤ x ∧ x < r.1 + r.2

/- The partition: `free` are the nodes in list order. -/
structure Partition (s : State) (free : List Seg) : Prop where
  listed : Chain s.heap.mem s.heap.head free 0
  increasing : free.Pairwise (fun a b => a.start < b.start)
  disjoint : (free ++ blocks s.heap.mem s.live).Pairwise Seg.Apart
  tiles : ∀ x, Covers (free ++ blocks s.heap.mem s.live) x ↔ Donated s.donated x
  coalesced : ∀ a ∈ free, ∀ b ∈ free, a.stop ≠ b.start

structure Tiled (s : State) (free : List Seg) : Prop where
  chain : Chain s.heap.mem s.heap.head free 0
  separated : Separated free
  used : (blocks s.heap.mem s.live).Pairwise Seg.Apart
  owned : ∀ x, Covers free x → ¬ Covers (blocks s.heap.mem s.live) x
  tiles : ∀ x, Covers free x ∨ Covers (blocks s.heap.mem s.live) x ↔ Donated s.donated x
  bounded : ∀ r ∈ s.donated, r.1 ≠ 0 ∧ r.1 + r.2 < 2 ^ 64
  headed : ∀ ptr ∈ s.live, 16 ≤ ptr

theorem tiledPartition {s : State} {free : List Seg} (h : Tiled s free) : Partition s free := by
  refine ⟨h.chain, ?_, ?_, ?_, ?_⟩
  · refine h.separated.imp ?_
    intro a b gap
    have := a.proper
    omega
  · refine List.pairwise_append.mpr ⟨separatedApart h.separated, h.used, ?_⟩
    intro a mema b memb
    exact apartIff.mpr (fun x both => h.owned x ⟨a, mema, both.1⟩ ⟨b, memb, both.2⟩)
  · intro x
    rw [coversAppend]
    exact h.tiles x
  · intro a mema b memb
    exact separatedNoTouch h.separated mema memb

theorem startTiled (m : Memory) : Tiled (start m) [] := by
  refine ⟨rfl, List.Pairwise.nil, List.Pairwise.nil, ?_, ?_, ?_, ?_⟩
  · intro x covered
    simp at covered
  · intro x
    simp [start, blocks, Donated]
  · intro r mem
    simp [start] at mem
  · intro ptr mem
    simp [start] at mem

theorem donatedBelow {s : State} (bounded : ∀ r ∈ s.donated, r.1 ≠ 0 ∧ r.1 + r.2 < 2 ^ 64) {x : Nat}
    (given : Donated s.donated x) : 0 < x ∧ x + 1 < 2 ^ 64 := by
  obtain ⟨r, mem, low, high⟩ := given
  obtain ⟨nonzero, below⟩ := bounded r mem
  omega

theorem Tiled.below {s : State} {free : List Seg} (h : Tiled s free) {t : Seg}
    (held : t ∈ free ∨ t ∈ blocks s.heap.mem s.live) : t.start ≠ 0 ∧ t.stop < 2 ^ 64 := by
  have inside : ∀ x, t.Has x → Donated s.donated x := by
    intro x has
    refine (h.tiles x).mp ?_
    rcases held with mem | mem
    · exact .inl ⟨t, mem, has⟩
    · exact .inr ⟨t, mem, has⟩
  have first := donatedBelow h.bounded (inside _ (hasStart t))
  have last := donatedBelow h.bounded (inside _ (hasLast t))
  have := t.proper
  omega

theorem Tiled.fresh {s : State} {free : List Seg} (h : Tiled s free) {r : Seg} {addr size : Nat}
    (first : r.start = addr) (last : r.stop = addr + size) (fresh : Fresh s addr size) (x : Nat)
    (has : r.Has x) : ¬ Covers free x ∧ ¬ Covers (blocks s.heap.mem s.live) x := by
  have outside : ¬ Donated s.donated x := by
    rintro ⟨d, mem, low, high⟩
    have apart := fresh.2.2 d mem
    unfold Seg.Has at has
    omega
  exact ⟨fun covered => outside ((h.tiles x).mp (.inl covered)),
    fun covered => outside ((h.tiles x).mp (.inr covered))⟩

theorem blocksFramed {region : Nat → Prop} {m m' : Memory} {live : List Nat}
    (frame : Frame region m m') (out : ∀ ptr ∈ live, ∀ x, header (ptr - 16) x → ¬ region x) :
    blocks m' live = blocks m live := by
  apply List.map_congr_left
  intro ptr mem
  exact blockFramed frame (out ptr mem)

theorem headerCovered {m : Memory} {live : List Nat} {ptr x : Nat} (mem : ptr ∈ live)
    (near : header (ptr - 16) x) : Covers (blocks m live) x :=
  ⟨_, List.mem_map_of_mem mem, headerInside rfl near⟩

theorem donatedCons {regions : List (Nat × Nat)} {addr size x : Nat} :
    Donated ((addr, size) :: regions) x ↔ (addr ≤ x ∧ x < addr + size) ∨ Donated regions x := by
  simp [Donated]

theorem donatedRegions (extra : List Seg) (regions : List (Nat × Nat)) (x : Nat) :
    Donated (extra.map (fun r => (r.start, r.stop - r.start)) ++ regions) x ↔
      Covers extra x ∨ Donated regions x := by
  induction extra with
  | nil => simp
  | cons r extra ih =>
    have span : (r.start ≤ x ∧ x < r.start + (r.stop - r.start)) ↔ r.Has x := by
      have := r.proper
      unfold Seg.Has
      omega
    rw [List.map_cons, List.cons_append, donatedCons, ih, coversCons, or_assoc, span]

theorem addMemoryTiled {fuel addr size : Nat} {s : State} {free : List Seg} (h : Tiled s free)
    (large : 16 < size) (fresh : Fresh s addr size) (enough : free.length < fuel) :
    ∃ t, step fuel s (.addMemory addr size) = some t ∧
      ∃ free', Tiled t free' ∧ free'.length ≤ free.length + 1 := by
  let r : Seg := ⟨addr, addr + size, by omega⟩
  have clear := h.fresh (show r.start = addr from rfl) rfl fresh
  have apart : ∀ t ∈ free, r.Apart t := apartAll.mpr (fun x both => (clear x both.1).1 both.2)
  have small : ∀ t ∈ r :: free, t.stop < 2 ^ 64 := by
    intro t mem
    rcases List.mem_cons.mp mem with rfl | mem
    · exact fresh.2.1
    · exact (h.below (.inl mem)).2
  obtain ⟨heap, made, chain, frame⟩ := addMemorySpec h.chain h.separated fresh.1
    (show r.start + 16 ≤ r.stop by simp only [r]; omega) apart small enough
  have size' : r.stop - r.start = size := Nat.add_sub_cancel_left addr size
  rw [size'] at made
  have same : blocks heap.mem s.live = blocks s.heap.mem s.live := by
    refine blocksFramed frame ?_
    intro ptr mem x near covered
    have mine : Covers (blocks s.heap.mem s.live) x := headerCovered mem near
    rcases (coversCons r free x).mp covered with has | covered
    · exact (clear x has).2 mine
    · exact h.owned x covered mine
  refine ⟨{ s with heap := heap, donated := (addr, size) :: s.donated }, ?_, insertSeg r free, ?_,
    insertLength r free⟩
  · simp only [step, show s.heap.addMemory fuel addr size = some heap from made, Option.map_some]
  refine ⟨chain, insertSeparated h.separated apart, ?_, ?_, ?_, ?_, h.headed⟩
  · simpa only [same] using h.used
  · intro x covered
    simp only [same]
    rcases (insertCovers r free x).mp covered with has | covered
    · exact (clear x has).2
    · exact h.owned x covered
  · intro x
    simp only [same]
    rw [insertCovers, donatedCons, ← h.tiles x, or_assoc]
    rfl
  · intro d mem
    rcases List.mem_cons.mp mem with rfl | mem
    · exact ⟨fresh.1, fresh.2.1⟩
    · exact h.bounded d mem

theorem takenTiled {s : State} {free extra l : List Seg} {b : Seg} {size : Nat} {list : FreeList}
    (h : Tiled s free) (fresh : ∀ r ∈ extra, Fresh s r.start (r.stop - r.start))
    (taken : Taken (extra ++ free) s.heap.mem size list l b) :
    Tiled ⟨list, (b.start + 16) :: s.live,
        extra.map (fun r => (r.start, r.stop - r.start)) ++ s.donated⟩ l ∧
      blocks list.mem s.live = blocks s.heap.mem s.live := by
  have clear : ∀ x, Covers (extra ++ free) x → ¬ Covers (blocks s.heap.mem s.live) x := by
    intro x covered
    rcases (coversAppend extra free x).mp covered with ⟨r, mem, has⟩ | covered
    · exact (h.fresh rfl (by have := r.proper; omega) (fresh r mem) x has).2
    · exact h.owned x covered
  have same : blocks list.mem s.live = blocks s.heap.mem s.live :=
    blocksFramed taken.frame (fun ptr mem x near covered => clear x covered (headerCovered mem near))
  have now : blocks list.mem ((b.start + 16) :: s.live) = b :: blocks s.heap.mem s.live := by
    rw [← same]
    simp only [blocks, List.map_cons, Nat.add_sub_cancel, taken.here]
  refine ⟨⟨taken.chain, taken.separated, ?_, ?_, ?_, ?_, ?_⟩, same⟩
  · simp only [now]
    refine List.pairwise_cons.mpr ⟨?_, h.used⟩
    exact apartAll.mpr (fun x both => clear x ((taken.covers x).mpr (.inl both.1)) both.2)
  · intro x covered
    simp only [now, coversCons, not_or]
    refine ⟨fun has => apartAll.mp taken.apart x ⟨has, covered⟩, ?_⟩
    exact clear x ((taken.covers x).mpr (.inr covered))
  · intro x
    simp only [now, coversCons]
    have pieces := taken.covers x
    rw [coversAppend] at pieces
    rw [donatedRegions, ← h.tiles x, ← or_assoc, ← or_assoc, pieces]
    exact or_congr_left or_comm
  · intro d mem
    rcases List.mem_append.mp mem with mem | mem
    · obtain ⟨r, memr, rfl⟩ := List.mem_map.mp mem
      exact ⟨(fresh r memr).1, (fresh r memr).2.1⟩
    · exact h.bounded d mem
  · intro ptr mem
    rcases List.mem_cons.mp mem with rfl | mem
    · omega
    · exact h.headed ptr mem

theorem allocTiled {fuel size : Nat} {allocNPages : Int → Nat} {s : State} {free : List Seg}
    (h : Tiled s free) (range : size + 16 + 4095 < 2 ^ 43)
    (promised : asksVmm fuel s.heap size = true →
      Fresh s (allocNPages (reqPages size)) ((reqPages size).toNat * pageSize))
    (enough : free.length + 1 < fuel) :
    ∃ t, step fuel s (.alloc size allocNPages) = some t ∧
      ∃ free', Tiled t free' ∧ free'.length ≤ free.length + 1 := by
  obtain ⟨pages, bytes⟩ := reqBytesEq range
  have width : (reqPages size).toNat * pageSize = reqBytes size := by
    rw [pages, bytes]
    rfl
  have vmm : ∀ fit, s.heap.search fuel size = some fit → fit.target = 0 →
      Fresh s (allocNPages (reqPages size)) (reqBytes size) := by
    intro fit found target
    rw [← width]
    apply promised
    simp only [asksVmm, found, target, beq_self_eq_true]
  obtain ⟨tries, rfl⟩ : ∃ tries, fuel = tries + 2 := ⟨fuel - 2, by omega⟩
  have grant : ∀ fit, s.heap.search (tries + 2) size = some fit → fit.target = 0 →
      ∃ r, Granted allocNPages size r ∧ r.start ≠ 0 ∧ r.stop < 2 ^ 64 ∧ ∀ t ∈ free, r.Apart t := by
    intro fit found target
    have fresh := vmm fit found target
    refine ⟨⟨allocNPages (reqPages size), allocNPages (reqPages size) + reqBytes size,
      by rw [bytes]; omega⟩, ⟨rfl, rfl⟩, fresh.1, fresh.2.1, ?_⟩
    exact apartAll.mpr (fun x both => (h.fresh rfl rfl fresh x both.1).1 both.2)
  obtain ⟨extra, l, b, list, asked, made, taken⟩ := allocSpec tries h.chain h.separated
    (fun t mem => (h.below (.inl mem)).2) enough range grant
  have fresh : ∀ r ∈ extra, Fresh s r.start (r.stop - r.start) := by
    intro r mem
    rcases asked with rfl | ⟨r', fit, rfl, granted, found, target⟩
    · simp at mem
    · obtain rfl : r = r' := by simpa using mem
      have size' : r.stop - r.start = reqBytes size := by
        rw [granted.2]
        omega
      rw [size', granted.1]
      exact vmm fit found target
  refine ⟨_, by simp only [step, made, Option.map_some], l, (takenTiled h fresh taken).1, ?_⟩
  have := taken.length
  rcases asked with rfl | ⟨r, fit, rfl, -⟩
  · simp only [List.nil_append] at this
    omega
  · simpa using this

theorem Tiled.others {s : State} {free : List Seg} (h : Tiled s free) {ptr : Nat}
    (held : ptr ∈ s.live) :
    (∀ t ∈ blocks s.heap.mem (s.live.erase ptr), (block s.heap.mem (ptr - 16)).Apart t) ∧
      (blocks s.heap.mem (s.live.erase ptr)).Pairwise Seg.Apart ∧
      ∀ x, Covers (blocks s.heap.mem s.live) x ↔
        (block s.heap.mem (ptr - 16)).Has x ∨ Covers (blocks s.heap.mem (s.live.erase ptr)) x := by
  have perm := ((List.perm_cons_erase held).map (fun q => block s.heap.mem (q - 16))).symm
  rw [List.map_cons] at perm
  obtain ⟨apart, used⟩ := List.pairwise_cons.mp ((perm.pairwise_iff apartComm).mpr h.used)
  refine ⟨apart, used, ?_⟩
  intro x
  rw [← coversCons]
  simp only [Covers, blocks, perm.mem_iff]

theorem freeTiled {fuel ptr : Nat} {s : State} {free : List Seg} (h : Tiled s free)
    (held : ptr ∈ s.live) (enough : free.length < fuel) :
    ∃ t, step fuel s (.free ptr) = some t ∧
      (t.live = s.live.erase ptr ∧ t.donated = s.donated ∧
        blocks t.heap.mem t.live = blocks s.heap.mem t.live) ∧
      ∃ free', Tiled t free' ∧ free'.length ≤ free.length + 1 := by
  have mem : block s.heap.mem (ptr - 16) ∈ blocks s.heap.mem s.live := List.mem_map_of_mem held
  generalize bEq : block s.heap.mem (ptr - 16) = b at mem
  have start := blockStart bEq
  have stop := blockStop bEq
  obtain ⟨nonzero, below⟩ := h.below (.inr mem)
  have apart : ∀ t ∈ free, b.Apart t :=
    apartAll.mpr (fun x both => h.owned x both.2 ⟨b, mem, both.1⟩)
  have small : ∀ t ∈ b :: free, t.stop < 2 ^ 64 := by
    intro t memt
    rcases List.mem_cons.mp memt with rfl | memt
    · exact below
    · exact (h.below (.inl memt)).2
  obtain ⟨heap, made, chain, frame⟩ := addNodeSpec h.chain h.separated nonzero
    (by rw [start]; exact bEq) apart small enough
  have entry : sub64 ptr sizeofNode = b.start := by
    rw [start]
    exact sub64Eq (h.headed ptr held) (by omega)
  obtain ⟨apartOthers, usedOthers, covers⟩ := h.others held
  rw [bEq] at apartOthers covers
  have same : blocks heap.mem (s.live.erase ptr) = blocks s.heap.mem (s.live.erase ptr) := by
    refine blocksFramed frame ?_
    intro q memq x near covered
    have theirs : Covers (blocks s.heap.mem (s.live.erase ptr)) x := headerCovered memq near
    rcases (coversCons b free x).mp covered with has | covered
    · exact apartAll.mp apartOthers x ⟨has, theirs⟩
    · exact h.owned x covered ((covers x).mpr (.inr theirs))
  refine ⟨{ s with heap := heap, live := s.live.erase ptr }, ?_, ⟨rfl, rfl, same⟩, insertSeg b free, ?_,
    insertLength b free⟩
  · simp only [step, FreeList.free, entry, made, Option.map_some]
  refine ⟨chain, insertSeparated h.separated apart, ?_, ?_, ?_, h.bounded, ?_⟩
  · simpa only [same] using usedOthers
  · intro x covered
    simp only [same]
    rcases (insertCovers b free x).mp covered with has | covered
    · exact fun theirs => apartAll.mp apartOthers x ⟨has, theirs⟩
    · exact fun theirs => h.owned x covered ((covers x).mpr (.inr theirs))
  · intro x
    simp only [same]
    rw [insertCovers, ← h.tiles x, covers x, or_assoc]
    exact or_left_comm
  · exact fun q memq => h.headed q (List.mem_of_mem_erase memq)

theorem writeTiled {fuel addr : Nat} {value : BitVec 8} {s : State} {free : List Seg}
    (h : Tiled s free)
    (inside : ∃ ptr ∈ s.live, ptr ≤ addr ∧ addr < ptr + sizeAt s.heap.mem (ptr - 16)) :
    ∃ t, step fuel s (.write addr value) = some t ∧
      ∃ free', Tiled t free' ∧ free'.length ≤ free.length + 1 := by
  obtain ⟨ptr, held, low, high⟩ := inside
  have headed := h.headed ptr held
  have frame : Frame (fun x => x = addr) s.heap.mem (Function.update s.heap.mem addr value) :=
    fun x other => Function.update_of_ne other value s.heap.mem
  have has : (block s.heap.mem (ptr - 16)).Has addr := by
    simp only [block, Seg.Has, sizeofNode]
    omega
  have payload : Covers (blocks s.heap.mem s.live) addr := ⟨_, List.mem_map_of_mem held, has⟩
  have same : blocks (Function.update s.heap.mem addr value) s.live = blocks s.heap.mem s.live := by
    refine blocksFramed frame ?_
    rintro q memq x near rfl
    by_cases mine : q = ptr
    · subst mine
      unfold header at near
      omega
    · have other : q ∈ s.live.erase ptr := (List.mem_erase_of_ne mine).mpr memq
      exact apartAll.mp (h.others held).1 x ⟨has, headerCovered other near⟩
  refine ⟨_, rfl, free, ⟨?_, h.separated, ?_, ?_, ?_, h.bounded, h.headed⟩, Nat.le_succ _⟩
  · refine chainFramed frame ?_ h.chain
    rintro x covered rfl
    exact h.owned x covered payload
  · simpa only [same] using h.used
  · simpa only [same] using h.owned
  · simpa only [same] using h.tiles

theorem stepTiled {fuel : Nat} {s : State} {free : List Seg} {op : Op} (h : Tiled s free)
    (allowed : Allowed fuel s op) (enough : free.length + 1 < fuel) :
    ∃ t, step fuel s op = some t ∧ ∃ free', Tiled t free' ∧ free'.length ≤ free.length + 1 := by
  cases op with
  | addMemory addr size => exact addMemoryTiled h allowed.1 allowed.2 (Nat.lt_of_succ_lt enough)
  | alloc size allocNPages => exact allocTiled h allowed.1 allowed.2 enough
  | free ptr =>
    obtain ⟨t, taken, -, kept⟩ := freeTiled h allowed (Nat.lt_of_succ_lt enough)
    exact ⟨t, taken, kept⟩
  | write addr value => exact writeTiled h allowed

theorem runTiled {fuel : Nat} {s : State} {free : List Seg} {ops : List Op} (h : Tiled s free)
    (allowed : Guarded (step fuel) (Allowed fuel) s ops)
    (enough : free.length + ops.length < fuel) :
    ∃ t, run (step fuel) s ops = some t ∧
      ∃ free', Tiled t free' ∧ free'.length ≤ free.length + ops.length := by
  induction ops generalizing s free with
  | nil => exact ⟨s, rfl, free, h, Nat.le_refl _⟩
  | cons op ops ih =>
    obtain ⟨first, later⟩ := Lib.Transition.guardedConsIff.mp allowed
    simp only [List.length_cons] at enough
    obtain ⟨mid, taken, free', tiled, grown⟩ := stepTiled h first (by omega)
    obtain ⟨t, reached, free'', last, total⟩ := ih tiled (later mid taken) (by omega)
    simp only [List.length_cons]
    exact ⟨t, by simp only [run, taken, Option.bind_some, reached], free'', last, by omega⟩

/-- Whatever the operations were, each returned, and afterwards the free nodes are listed in
strictly increasing order, they and the live blocks tile exactly the donated regions, and
no two free nodes touch. -/
theorem heapPartition (fuel : Nat) (m : Memory) (ops : List Op) (enough : ops.length < fuel)
    (allowed : Guarded (step fuel) (Allowed fuel) (start m) ops) :
    ∃ s, run (step fuel) (start m) ops = some s ∧ ∃ free, Partition s free := by
  obtain ⟨s, reached, free, tiled, -⟩ := runTiled (startTiled m) allowed (by simpa using enough)
  exact ⟨s, reached, free, tiledPartition tiled⟩

instance (s : State) (addr size : Nat) : Decidable (Fresh s addr size) := by
  unfold Fresh
  infer_instance

instance (fuel : Nat) (s : State) : (op : Op) → Decidable (Allowed fuel s op)
  | .addMemory addr size => inferInstanceAs (Decidable (16 < size ∧ Fresh s addr size))
  | .alloc size allocNPages => inferInstanceAs (Decidable (size + 16 + 4095 < 2 ^ 43 ∧
      (asksVmm fuel s.heap size = true →
        Fresh s (allocNPages (reqPages size)) ((reqPages size).toNat * pageSize))))
  | .free ptr => inferInstanceAs (Decidable (ptr ∈ s.live))
  | .write addr _ => inferInstanceAs (Decidable (∃ ptr ∈ s.live, ptr ≤ addr ∧
      addr < ptr + sizeAt s.heap.mem (ptr - 16)))

/- One page is donated, cut twice and partly freed; then a block that needs two more pages. -/
def sampleOps : List Op :=
  [.addMemory 4096 4096, .alloc 100 (fun _ => 0), .alloc 40 (fun _ => 0), .write 4115 7,
    .free 4112, .alloc 5000 (fun _ => 16384), .free 4228]

theorem heapPartitionSample :
    Guarded (step 9) (Allowed 9) (start (fun _ => 0)) sampleOps ∧
      ∃ s, run (step 9) (start (fun _ => 0)) sampleOps = some s ∧ ∃ free, Partition s free := by
  have allowed : Guarded (step 9) (Allowed 9) (start (fun _ => 0)) sampleOps :=
    Lib.Transition.checkedGuarded (by decide +kernel)
  exact ⟨allowed, heapPartition 9 (fun _ => 0) sampleOps (by decide) allowed⟩

end DimOS.Memory.Heap
