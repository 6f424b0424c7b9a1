import Mathlib
import DimOS.Memory.Heap

/-! What the list operations of Heap::FreeList do to the segments their nodes occupy:
addNode inserts and joins, alloc takes one segment out or cuts it in two. Each result
comes with the bytes it may touch. The loops return within the length of the list. -/
namespace DimOS.Memory.Heap
open Lib.ByteMemory
open Lib.Segments

/- A node or a live block at `a`, header included. -/
def block (m : Memory) (a : Nat) : Seg := ⟨a, a + sizeofNode + sizeAt m a, by unfold sizeofNode; omega⟩

/- From `p`, following next through exactly these nodes, one arrives at `q`. -/
def Chain (m : Memory) : Nat → List Seg → Nat → Prop
  | p, [], q => p = q
  | p, s :: l, q => p ≠ 0 ∧ block m p = s ∧ Chain m (nextAt m p) l q

theorem blockStart {m : Memory} {a : Nat} {s : Seg} (h : block m a = s) : s.start = a := by
  rw [← h]; rfl

theorem blockStop {m : Memory} {a : Nat} {s : Seg} (h : block m a = s) :
    s.stop = a + 16 + sizeAt m a := by
  rw [← h]; rfl

theorem blockOfSize {m : Memory} {a : Nat} {s : Seg} (start : s.start = a)
    (stop : s.stop = a + 16 + sizeAt m a) : block m a = s := by
  cases s with
  | mk x y proper =>
    simp only at start stop
    subst start stop
    rfl

@[simp] theorem sizeAfterSize (m : Memory) (a v : Nat) : sizeAt (setSize m a v) a = v % 2 ^ 64 := by
  simp [sizeAt, setSize]

@[simp] theorem nextAfterNext (m : Memory) (a v : Nat) : nextAt (setNext m a v) a = v % 2 ^ 64 := by
  simp [nextAt, setNext]

@[simp] theorem nextAfterSize (m : Memory) (a v : Nat) : nextAt (setSize m a v) a = nextAt m a := by
  simp only [nextAt, setSize]
  rw [loadStoreApart _ _ (by omega)]

@[simp] theorem sizeAfterNext (m : Memory) (a v : Nat) : sizeAt (setNext m a v) a = sizeAt m a := by
  simp only [sizeAt, setNext]
  rw [loadStoreApart _ _ (by omega)]

def Frame (region : Nat → Prop) (m m' : Memory) : Prop := ∀ x, ¬ region x → m' x = m x

def header (a x : Nat) : Prop := a ≤ x ∧ x < a + 16

theorem setSizeFrame (m : Memory) (a v : Nat) : Frame (header a) m (setSize m a v) := by
  intro x outside
  apply storeOutside
  unfold header at outside
  omega

theorem setNextFrame (m : Memory) (a v : Nat) : Frame (header a) m (setNext m a v) := by
  intro x outside
  apply storeOutside
  unfold header at outside
  omega

theorem frameRefl (region : Nat → Prop) (m : Memory) : Frame region m m := fun _ _ => rfl

theorem frameTrans {region : Nat → Prop} {m m' m'' : Memory} (first : Frame region m m')
    (second : Frame region m' m'') : Frame region m m'' :=
  fun x outside => (second x outside).trans (first x outside)

theorem frameMono {small large : Nat → Prop} {m m' : Memory} (frame : Frame small m m')
    (sub : ∀ x, small x → large x) : Frame large m m' :=
  fun x outside => frame x (fun inside => outside (sub x inside))

theorem sizeFramed {region : Nat → Prop} {m m' : Memory} {a : Nat} (frame : Frame region m m')
    (out : ∀ x, header a x → ¬ region x) : sizeAt m' a = sizeAt m a := by
  unfold sizeAt
  rw [loadCongr]
  intro k low high
  exact frame k (out k ⟨low, by omega⟩)

theorem nextFramed {region : Nat → Prop} {m m' : Memory} {a : Nat} (frame : Frame region m m')
    (out : ∀ x, header a x → ¬ region x) : nextAt m' a = nextAt m a := by
  unfold nextAt
  rw [loadCongr]
  intro k low high
  exact frame k (out k ⟨by omega, by omega⟩)

theorem blockFramed {region : Nat → Prop} {m m' : Memory} {a : Nat} (frame : Frame region m m')
    (out : ∀ x, header a x → ¬ region x) : block m' a = block m a := by
  simp only [block, sizeFramed frame out]

theorem headerInside {m : Memory} {a x : Nat} {s : Seg} (h : block m a = s) (inside : header a x) :
    s.Has x := by
  have start := blockStart h
  have stop := blockStop h
  unfold header at inside
  exact ⟨by omega, by omega⟩

theorem chainFramed {region : Nat → Prop} {m m' : Memory} {l : List Seg} {p q : Nat}
    (frame : Frame region m m') (out : ∀ x, Covers l x → ¬ region x) (chain : Chain m p l q) :
    Chain m' p l q := by
  induction l generalizing p with
  | nil => exact chain
  | cons s l ih =>
    obtain ⟨nonzero, here, rest⟩ := chain
    have mine : ∀ x, header p x → ¬ region x := fun x inside =>
      out x ((coversCons s l x).mpr (.inl (headerInside here inside)))
    refine ⟨nonzero, (blockFramed frame mine).trans here, ?_⟩
    rw [nextFramed frame mine]
    exact ih (fun x inside => out x ((coversCons s l x).mpr (.inr inside))) rest

theorem chainAppend {m : Memory} {k l : List Seg} {p q : Nat} :
    Chain m p (k ++ l) q ↔ ∃ r, Chain m p k r ∧ Chain m r l q := by
  induction k generalizing p with
  | nil => simp [Chain]
  | cons s k ih =>
    simp only [List.cons_append, Chain, ih]
    constructor
    · rintro ⟨nonzero, here, r, left, right⟩
      exact ⟨r, ⟨nonzero, here, left⟩, right⟩
    · rintro ⟨r, ⟨nonzero, here, left⟩, right⟩
      exact ⟨nonzero, here, r, left, right⟩

def lastStart (prev : Nat) : List Seg → Nat
  | [] => prev
  | s :: l => lastStart s.start l

theorem lastStartAppend (prev : Nat) (l : List Seg) (s : Seg) :
    lastStart prev (l ++ [s]) = s.start := by
  induction l generalizing prev with
  | nil => rfl
  | cons t l ih => exact ih t.start

theorem chainEntry {m : Memory} {p q : Nat} {s : Seg} {l : List Seg} (chain : Chain m p (s :: l) q) :
    p = s.start := (blockStart chain.2.1).symm

theorem chainNonzero {m : Memory} {p q : Nat} {l : List Seg} (chain : Chain m p l q) {s : Seg}
    (mem : s ∈ l) : s.start ≠ 0 := by
  induction l generalizing p with
  | nil => simp at mem
  | cons t l ih =>
    rcases List.mem_cons.mp mem with rfl | mem
    · rw [← chainEntry chain]
      exact chain.1
    · exact ih chain.2.2 mem

theorem nextBelow (m : Memory) (a : Nat) : nextAt m a < 2 ^ 64 := (loadWord m (a + 8)).isLt

theorem linkChain (fl : FreeList) (node : Nat) {pre : List Seg} {q : Nat} (sep : Separated pre)
    (chain : Chain fl.mem fl.head pre q) (small : node < 2 ^ 64) :
    Chain (fl.link (lastStart 0 pre) node).mem (fl.link (lastStart 0 pre) node).head pre node ∧
      Frame (Covers pre) fl.mem (fl.link (lastStart 0 pre) node).mem := by
  rcases List.eq_nil_or_concat pre with rfl | ⟨k, s, rfl⟩
  · exact ⟨rfl, frameRefl _ _⟩
  · simp only [List.concat_eq_append] at chain sep ⊢
    rw [lastStartAppend]
    obtain ⟨r, left, nonzero, here, _⟩ := chainAppend.mp chain
    have start := blockStart here
    subst start
    have frame := setNextFrame fl.mem s.start node
    have inside : ∀ x, header s.start x → s.Has x := fun x h => headerInside here h
    simp only [FreeList.link, ne_eq, nonzero, not_false_eq_true, if_true]
    constructor
    · refine chainAppend.mpr ⟨s.start, chainFramed frame ?_ left, nonzero, ?_, ?_⟩
      · intro x ⟨t, mem, has⟩ head
        have gap := (List.pairwise_append.mp sep).2.2 t mem s (by simp)
        have := inside x head
        unfold Seg.Has at has this
        omega
      · apply blockOfSize rfl
        rw [sizeAfterNext, blockStop here]
      · show nextAt _ s.start = node
        rw [nextAfterNext, Nat.mod_eq_of_lt small]
    · exact frameMono frame (fun x h => (coversAppend k [s] x).mpr (.inr (by simpa using inside x h)))

theorem endOfBlock {m : Memory} {a : Nat} {s : Seg} (here : block m a = s) (small : s.stop < 2 ^ 64) :
    endOf m a = s.stop := by
  have stop := blockStop here
  unfold endOf sizeofNode
  rw [← stop, Nat.mod_eq_of_lt small]

theorem coalesceFrame (m : Memory) (a b : Nat) : Frame (header a) m (coalesce m a b) :=
  setSizeFrame m a _

theorem coalesceBlock {m : Memory} {a b : Nat} {s t : Seg} (left : block m a = s)
    (right : block m b = t) (touch : s.stop = t.start) (small : t.stop < 2 ^ 64) :
    block (coalesce m a b) a = join s t touch := by
  have stopa := blockStop left
  have stopb := blockStop right
  have startb := blockStart right
  have starta := blockStart left
  apply blockOfSize (show (join s t touch).start = a from starta)
  rw [coalesce, sizeAfterSize]
  unfold sizeofNode
  rw [Nat.mod_eq_of_lt (by omega)]
  simp only [join]
  omega

theorem swallowFrame (m : Memory) (a b : Nat) : Frame (header a) m (swallow m a b) :=
  frameTrans (coalesceFrame m a b) (setNextFrame _ a _)

theorem swallowBlock {m : Memory} {a b : Nat} {s t : Seg} (left : block m a = s)
    (right : block m b = t) (touch : s.stop = t.start) (small : t.stop < 2 ^ 64) :
    block (swallow m a b) a = join s t touch ∧ nextAt (swallow m a b) a = nextAt m b := by
  have merged := coalesceBlock left right touch small
  have stopa := blockStop left
  have startb := blockStart right
  constructor
  · rw [← merged]
    simp only [swallow, block, sizeAfterNext]
  · simp only [swallow, nextAfterNext]
    rw [nextFramed (coalesceFrame m a b), Nat.mod_eq_of_lt (nextBelow m b)]
    intro x far near
    unfold header at far near
    omega

structure Ahead (s : Seg) (l : List Seg) : Prop where
  above : ∀ t ∈ l, s.stop ≤ t.start
  small : ∀ t ∈ s :: l, t.stop < 2 ^ 64

theorem Ahead.head {s t : Seg} {l : List Seg} (h : Ahead s (t :: l)) (sep : Separated (t :: l))
    (touch : s.stop = t.start) : Ahead (join s t touch) l := by
  obtain ⟨gaps, -⟩ := List.pairwise_cons.mp sep
  constructor
  · exact fun u mem => Nat.le_of_lt (gaps u mem)
  · intro u mem
    rcases List.mem_cons.mp mem with rfl | mem
    · exact h.small t (by simp)
    · exact h.small u (by simp [mem])

theorem Ahead.apart {s : Seg} {l : List Seg} (h : Ahead s l) (x : Nat) (here : s.Has x) :
    ¬ Covers l x := by
  rintro ⟨t, mem, there⟩
  have := h.above t mem
  unfold Seg.Has at here there
  omega

theorem swallowNextFrame (m : Memory) (a : Nat) : Frame (header a) m (swallowNext m a) := by
  simp only [swallowNext]
  split
  · exact swallowFrame m a _
  · exact frameRefl _ m

theorem swallowNextChain {m : Memory} {a : Nat} {s : Seg} {l : List Seg} (nonzero : a ≠ 0)
    (here : block m a = s) (rest : Chain m (nextAt m a) l 0) (sep : Separated l)
    (ahead : Ahead s l) : Chain (swallowNext m a) a (absorb s l) 0 := by
  have last := endOfBlock here (ahead.small s (by simp))
  have room := blockStop here
  cases l with
  | nil =>
    have none : nextAt m a = 0 := rest
    have far : ¬ (0 = s.stop) := by omega
    simp only [swallowNext, none, last, if_neg far]
    exact ⟨nonzero, here, none⟩
  | cons t l =>
    have next := chainEntry rest
    simp only [swallowNext, absorb, last, next]
    by_cases touch : s.stop = t.start
    · simp only [touch, if_true, dite_true]
      rw [next] at rest
      obtain ⟨-, there, tail⟩ := rest
      obtain ⟨merged, onward⟩ := swallowBlock here there touch (ahead.small t (by simp))
      refine ⟨nonzero, merged, ?_⟩
      rw [onward]
      refine chainFramed (swallowFrame m a t.start) ?_ tail
      intro x covered near
      exact ahead.apart x (headerInside here near) ((coversCons t l x).mpr (.inr covered))
    · rw [if_neg (fun same => touch same.symm), dif_neg touch]
      exact ⟨nonzero, here, rest⟩

def entry (l : List Seg) : Nat := (l.head?.map Seg.start).getD 0

theorem chainEntryEq {m : Memory} {p : Nat} {l : List Seg} (chain : Chain m p l 0) : p = entry l := by
  cases l with
  | nil => exact chain
  | cons s l => exact chainEntry chain

theorem addNodeLoopSpec {m : Memory} {newNode : Nat} {l : List Seg} {fuel curr prev : Nat}
    (chain : Chain m curr l 0) (small : ∀ s ∈ l, s.stop < 2 ^ 64) (enough : l.length < fuel) :
    ∃ pre post, l = pre ++ post ∧ (∀ t ∈ pre, t.start ≤ newNode ∧ t.stop ≠ newNode) ∧
      ((∃ c rest, post = c :: rest ∧ c.start ≤ newNode ∧ c.stop = newNode ∧
          addNodeLoop newNode fuel m curr prev =
            some (.inl (swallowNext (coalesce m c.start newNode) c.start))) ∨
        ((∀ c ∈ post.head?, newNode < c.start) ∧
          addNodeLoop newNode fuel m curr prev = some (.inr (entry post, lastStart prev pre)))) := by
  induction l generalizing fuel curr prev with
  | nil =>
    obtain ⟨fuel, rfl⟩ := Nat.exists_eq_succ_of_ne_zero (Nat.ne_of_gt enough)
    have done : curr = 0 := chain
    refine ⟨[], [], rfl, by simp, .inr ⟨by simp, ?_⟩⟩
    simp [addNodeLoop, done, entry, lastStart]
  | cons s l ih =>
    obtain ⟨fuel, rfl⟩ := Nat.exists_eq_succ_of_ne_zero (Nat.ne_of_gt (Nat.zero_lt_of_lt enough))
    obtain ⟨nonzero, here, rest⟩ := chain
    have start := blockStart here
    subst start
    have last := endOfBlock here (small s (by simp))
    simp only [addNodeLoop, last]
    by_cases low : s.start ≤ newNode
    · rw [if_pos ⟨nonzero, low⟩]
      by_cases touch : s.stop = newNode
      · rw [if_pos touch]
        exact ⟨[], s :: l, rfl, by simp, .inl ⟨s, l, rfl, low, touch, rfl⟩⟩
      · rw [if_neg touch]
        have short : l.length < fuel := by simpa using enough
        obtain ⟨pre, post, shape, past, ends⟩ :=
          ih  rest (fun t mem => small t (by simp [mem])) short
        refine ⟨s :: pre, post, by rw [shape]; rfl, ?_, ends⟩
        intro t mem
        rcases List.mem_cons.mp mem with rfl | mem
        · exact ⟨low, touch⟩
        · exact past t mem
    · rw [if_neg (fun both => low both.2)]
      refine ⟨[], s :: l, rfl, by simp, .inr ⟨?_, rfl⟩⟩
      intro c mem
      cases Option.some.inj mem
      exact Nat.not_le.mp low

theorem entryBelow {l : List Seg} (small : ∀ s ∈ l, s.stop < 2 ^ 64) : entry l < 2 ^ 64 := by
  cases l with
  | nil => simp [entry]
  | cons s l =>
    have := s.proper
    have := small s (by simp)
    simp only [entry, List.head?_cons, Option.map_some, Option.getD_some]
    omega

theorem aheadOf {s : Seg} {l : List Seg} (above : ∀ t ∈ l.head?, s.start < t.start)
    (sep : Separated l) (apart : ∀ t ∈ l, s.Apart t) (small : ∀ t ∈ s :: l, t.stop < 2 ^ 64) :
    Ahead s l := by
  refine ⟨?_, small⟩
  intro t mem
  have wide := t.proper
  cases l with
  | nil => simp at mem
  | cons c l =>
    have first := above c (by simp)
    have room := c.proper
    have low : s.start < t.start := by
      rcases List.mem_cons.mp mem with rfl | mem
      · exact first
      · have := (List.pairwise_cons.mp sep).1 t mem
        omega
    rcases apart t mem with h | h <;> omega

theorem addNodeFront {fl : FreeList} {pre rest : List Seg} {c b : Seg}
    (chain : Chain fl.mem fl.head (pre ++ c :: rest) 0) (sep : Separated (pre ++ c :: rest))
    (here : block fl.mem b.start = b) (touch : c.stop = b.start)
    (apart : ∀ t ∈ pre ++ c :: rest, b.Apart t) (small : ∀ t ∈ b :: rest, t.stop < 2 ^ 64) :
    Chain (swallowNext (coalesce fl.mem c.start b.start) c.start) fl.head
        (pre ++ absorb (join c b touch) rest) 0 ∧
      Frame (Covers [c]) fl.mem (swallowNext (coalesce fl.mem c.start b.start) c.start) := by
  obtain ⟨r, left, nonzero, there, tail⟩ := chainAppend.mp chain
  have start := blockStart there
  subst start
  obtain ⟨-, sepc, gaps⟩ := List.pairwise_append.mp sep
  obtain ⟨gap, seprest⟩ := List.pairwise_cons.mp sepc
  have inside : ∀ x, header c.start x → c.Has x := fun x h => headerInside there h
  have frame := frameTrans (coalesceFrame fl.mem c.start b.start)
    (swallowNextFrame (coalesce fl.mem c.start b.start) c.start)
  have merged := coalesceBlock there here touch (small b (by simp))
  have ahead : Ahead (join c b touch) rest := by
    refine ⟨?_, ?_⟩
    · intro t mem
      have := gap t mem
      have := t.proper
      have := b.proper
      simp only [join]
      rcases apart t (by simp [mem]) with h | h <;> omega
    · intro t mem
      rcases List.mem_cons.mp mem with rfl | mem
      · exact small b (by simp)
      · exact small t (by simp [mem])
  have onward : Chain (coalesce fl.mem c.start b.start)
      (nextAt (coalesce fl.mem c.start b.start) c.start) rest 0 := by
    rw [coalesce, nextAfterSize]
    refine chainFramed (coalesceFrame fl.mem c.start b.start) ?_ tail
    rintro x ⟨t, mem, has⟩ near
    have := gap t mem
    have := inside x near
    unfold Seg.Has at has this
    omega
  refine ⟨chainAppend.mpr ⟨c.start, chainFramed frame ?_ left,
    swallowNextChain nonzero merged onward seprest ahead⟩, ?_⟩
  · rintro x ⟨t, mem, has⟩ near
    have := gaps t mem c (by simp)
    have := inside x near
    unfold Seg.Has at has this
    omega
  · exact frameMono frame (fun x near => ⟨c, by simp, inside x near⟩)

theorem addNodeBack {fl : FreeList} {pre rest : List Seg} {b : Seg}
    (chain : Chain fl.mem fl.head (pre ++ rest) 0) (sep : Separated (pre ++ rest))
    (nonzero : b.start ≠ 0) (here : block fl.mem b.start = b)
    (above : ∀ t ∈ rest.head?, b.start < t.start)
    (apart : ∀ t ∈ pre ++ rest, b.Apart t) (small : ∀ t ∈ b :: rest, t.stop < 2 ^ 64) :
    Chain (fl.place b.start (entry rest) (lastStart 0 pre)).mem
        (fl.place b.start (entry rest) (lastStart 0 pre)).head (pre ++ absorb b rest) 0 ∧
      Frame (Covers (b :: pre)) fl.mem (fl.place b.start (entry rest) (lastStart 0 pre)).mem := by
  obtain ⟨r, left, tail⟩ := chainAppend.mp chain
  obtain ⟨seppre, seprest, gaps⟩ := List.pairwise_append.mp sep
  have smallb := small b (by simp)
  have ahead := aheadOf above seprest (fun t mem => apart t (by simp [mem])) small
  have inside : ∀ x, header b.start x → b.Has x := fun x h => headerInside here h
  have off : ∀ k : List Seg, (∀ t ∈ k, b.Apart t) → ∀ x, Covers k x → ¬ header b.start x := by
    intro k all x covered near
    exact apartAll.mp all x ⟨inside x near, covered⟩
  have offpre := off pre (fun t mem => apart t (by simp [mem]))
  have offrest := off rest (fun t mem => apart t (by simp [mem]))
  -- first the new node's own link, then the link that leads to it
  have first := setNextFrame fl.mem b.start (entry rest)
  obtain ⟨walk, second⟩ := linkChain { fl with mem := setNext fl.mem b.start (entry rest) } b.start
    seppre (chainFramed first offpre left) (by have := b.proper; omega)
  generalize linkedEq : FreeList.link { fl with mem := setNext fl.mem b.start (entry rest) }
    (lastStart 0 pre) b.start = linked at walk second
  have clear : ∀ x, header b.start x → ¬ Covers pre x := fun x near covered => offpre x covered near
  have hereNow : block linked.mem b.start = b := by
    rw [blockFramed second clear]
    apply blockOfSize rfl
    rw [sizeAfterNext, blockStop here]
  have nextNow : nextAt linked.mem b.start = entry rest := by
    rw [nextFramed second clear, nextAfterNext,
      Nat.mod_eq_of_lt (entryBelow (fun t mem => small t (by simp [mem])))]
  have tailNow : Chain linked.mem (entry rest) rest 0 := by
    rw [← chainEntryEq tail]
    refine chainFramed second ?_ (chainFramed first offrest tail)
    rintro x ⟨t, mem, has⟩ ⟨u, memu, hasu⟩
    have := gaps u memu t mem
    unfold Seg.Has at has hasu
    omega
  have frame : Frame (Covers (b :: pre)) fl.mem linked.mem :=
    frameTrans (frameMono first (fun x near => (coversCons b pre x).mpr (.inl (inside x near))))
      (frameMono second (fun x covered => (coversCons b pre x).mpr (.inr covered)))
  have more : ∀ m', Frame (header b.start) linked.mem m' →
      Chain m' linked.head pre b.start ∧ Frame (Covers (b :: pre)) fl.mem m' := by
    intro m' change
    exact ⟨chainFramed change offpre walk, frameTrans frame
      (frameMono change (fun x near => (coversCons b pre x).mpr (.inl (inside x near))))⟩
  have last := endOfBlock hereNow smallb
  simp only [FreeList.place, linkedEq, last]
  have onceChain := swallowNextChain nonzero hereNow (by rw [nextNow]; exact tailNow) seprest ahead
  have onceFrame := swallowNextFrame linked.mem b.start
  by_cases touches : b.stop = entry rest
  · rw [if_pos touches]
    cases rest with
    | nil =>
      have := b.proper
      simp only [entry, List.head?_nil, Option.map_none, Option.getD_none] at touches
      omega
    | cons c rest =>
      have touch : b.stop = c.start := touches
      obtain ⟨gapc, seprest'⟩ := List.pairwise_cons.mp seprest
      have once : swallowNext linked.mem b.start = swallow linked.mem b.start (entry (c :: rest)) := by
        simp only [swallowNext, nextNow, last, touches, if_true]
      rw [← once]
      simp only [absorb, dif_pos touch] at onceChain ⊢
      obtain ⟨-, joined, onward⟩ := onceChain
      have twice := swallowNextChain nonzero joined onward seprest' (ahead.head seprest touch)
      rw [absorbGap (show ∀ t ∈ rest, (join b c touch).stop < t.start from gapc)] at twice
      obtain ⟨prefixChain, whole⟩ := more _
        (frameTrans onceFrame (swallowNextFrame (swallowNext linked.mem b.start) b.start))
      exact ⟨chainAppend.mpr ⟨b.start, prefixChain, twice⟩, whole⟩
  · rw [if_neg touches]
    have stays : absorb b rest = b :: rest := by
      cases rest with
      | nil => rfl
      | cons c rest => exact dif_neg touches
    rw [stays]
    exact ⟨chainAppend.mpr ⟨b.start, walk, nonzero, hereNow, by rw [nextNow]; exact tailNow⟩,
      frame⟩

theorem addNodeSpec {fl : FreeList} {l : List Seg} {b : Seg} {fuel : Nat}
    (chain : Chain fl.mem fl.head l 0) (sep : Separated l) (nonzero : b.start ≠ 0)
    (here : block fl.mem b.start = b) (apart : ∀ t ∈ l, b.Apart t)
    (small : ∀ t ∈ b :: l, t.stop < 2 ^ 64) (enough : l.length < fuel) :
    ∃ out, fl.addNode fuel b.start = some out ∧ Chain out.mem out.head (insertSeg b l) 0 ∧
      Frame (Covers (b :: l)) fl.mem out.mem := by
  obtain ⟨pre, post, rfl, past, ends⟩ :=
    addNodeLoopSpec chain (fun t mem => small t (by simp [mem])) enough
  rw [insertPast b past]
  unfold FreeList.addNode
  rcases ends with ⟨c, rest, rfl, low, touch, result⟩ | ⟨above, result⟩
  · rw [result]
    obtain ⟨good, frame⟩ := addNodeFront chain sep here touch apart
      (fun t mem => small t (by rcases List.mem_cons.mp mem with rfl | mem <;> simp_all))
    simp only [insertSeg, if_pos low, dif_pos touch]
    refine ⟨_, rfl, good, frameMono frame ?_⟩
    intro x covered
    simp_all
  · rw [result]
    obtain ⟨good, frame⟩ := addNodeBack chain sep nonzero here above apart
      (fun t mem => small t (by rcases List.mem_cons.mp mem with rfl | mem <;> simp_all))
    rw [insertBefore b above]
    refine ⟨_, rfl, good, frameMono frame ?_⟩
    intro x covered
    simp only [coversCons, coversAppend] at covered ⊢
    tauto

end DimOS.Memory.Heap
