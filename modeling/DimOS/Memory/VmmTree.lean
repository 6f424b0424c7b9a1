import Mathlib
import DimOS.Memory.PmmSpec
import DimOS.Memory.Vmm

/-! The page tables as a tree of paths from pml4: when level tags, present bits and table
pointers agree, and which frames the tables occupy. A search only grows the tree; what it
does to the leaf entries is said here once for every scheme. -/
namespace DimOS.Memory.Vmm
open Pmm
open Paging
open Lib.PathTree

namespace VMM

def edges (v : VMM) : Edges Nat Nat := fun t i => (v.mem t).nextTables i

def tableAt (v : VMM) (q : List Nat) : Option Nat := walk v.edges v.pml4 q

def leaf (v : VMM) (q : List Nat) (i : Nat) : Option Entry :=
  (v.tableAt q).map (fun t => (v.mem t).entries i)

def Held (p : PMM) (t : Nat) : Prop :=
  t % frameSize = 0 ∧ p.used (t / frameSize) = true ∧ p.used (t / frameSize + 1) = true

def FramesApart (t u : Nat) : Prop := t ≠ u ∧ t + frameSize ≠ u ∧ u + frameSize ≠ t

theorem FramesApart.symm {t u : Nat} (apart : FramesApart t u) : FramesApart u t :=
  ⟨apart.1.symm, apart.2.2, apart.2.1⟩

structure WellTagged (v : VMM) : Prop where
  depth : ∀ q t, v.tableAt q = some t → q.length ≤ 3
  tag : ∀ q t, v.tableAt q = some t → (v.mem t).getLevel = q.length
  linked : ∀ q t i, v.tableAt q = some t → q.length < 3 →
    (((v.mem t).entries i).isPresent = true ↔ (v.mem t).nextTables i ≠ none)
  held : ∀ q t, v.tableAt q = some t → Held v.pmm t
  proper : Proper v.edges v.pml4
  apart : ∀ q t q' t', v.tableAt q = some t → v.tableAt q' = some t' → q ≠ q' → FramesApart t t'

def Maps (e : Entry) (t : Nat) : Prop :=
  e.isPresent = true ∧
    (e.getPhysicalAddr = Entry.getPhysicalAddr (BitVec.ofNat 64 t) ∨
      e.getPhysicalAddr = Entry.getPhysicalAddr (BitVec.ofNat 64 (t + frameSize)))

def MapsNew (v v' : VMM) (e : Entry) : Prop :=
  ∃ q t, v.tableAt q = none ∧ v'.tableAt q = some t ∧ Maps e t

/- A leaf entry stays, or is new and not present, or maps a new table. -/
def LeafKept (v v' : VMM) (q : List Nat) (i : Nat) : Prop :=
  v'.leaf q i = v.leaf q i ∨
    (v.leaf q i = none ∧ ∀ e, v'.leaf q i = some e → e.isPresent = false) ∨
    ∃ e, v'.leaf q i = some e ∧ MapsNew v v' e

structure Grows (v v' : VMM) : Prop where
  root : v'.pml4 = v.pml4
  tables : ∀ q t, v.tableAt q = some t → v'.tableAt q = some t
  used : ∀ f, v.pmm.used f = true → v'.pmm.used f = true
  frames : v'.pmm.frameCnt = v.pmm.frameCnt
  counted : v.pmm.Counted → v'.pmm.Counted
  clear : ∀ q t, v.tableAt q = none → v'.tableAt q = some t → v.pmm.used (t / frameSize) = false
  leaves : ∀ q i, q.length = 3 → LeafKept v v' q i

def Reserved (v : VMM) : Prop := v.pmm.used 0 = true ∧ ∀ q, v.tableAt q ≠ some 0

@[simp] theorem addAvailableMem (v : VMM) (h : Bool) (k : Int) : (v.addAvailable h k).mem = v.mem := by
  unfold addAvailable
  split <;> rfl

@[simp] theorem addAvailableRoot (v : VMM) (h : Bool) (k : Int) :
    (v.addAvailable h k).pml4 = v.pml4 := by
  unfold addAvailable
  split <;> rfl

@[simp] theorem addAvailablePmm (v : VMM) (h : Bool) (k : Int) : (v.addAvailable h k).pmm = v.pmm := by
  unfold addAvailable
  split <;> rfl

@[simp] theorem addAvailableRefused (v : VMM) (h : Bool) (k : Int) :
    (v.addAvailable h k).refused = v.refused := by
  unfold addAvailable
  split <;> rfl

@[simp] theorem writeTableMem (v : VMM) (t u : Nat) (table : Table) :
    (v.writeTable t table).mem u = if u = t then table else v.mem u := by
  rw [writeTable]
  exact Function.update_apply v.mem t table u

@[simp] theorem writeTableRoot (v : VMM) (t : Nat) (table : Table) :
    (v.writeTable t table).pml4 = v.pml4 := rfl

@[simp] theorem writeTablePmm (v : VMM) (t : Nat) (table : Table) :
    (v.writeTable t table).pmm = v.pmm := rfl

@[simp] theorem writeTableRefused (v : VMM) (t : Nat) (table : Table) :
    (v.writeTable t table).refused = v.refused := rfl

theorem getPTEEq (v : VMM) (c : IndexOffset) :
    v.getPTE c = (v.tableAt [c.i 0, c.i 1, c.i 2]).map (fun t => (t, c.i 3)) := by
  unfold getPTE tableAt
  simp only [walk, edges]
  cases (v.mem v.pml4).nextTables (c.i 0) with
  | none => rfl
  | some t1 =>
    simp only [Option.bind_some]
    cases (v.mem t1).nextTables (c.i 1) with
    | none => rfl
    | some t2 =>
      simp only [Option.bind_some]
      cases (v.mem t2).nextTables (c.i 2) <;> rfl

theorem tableAtCongr {v v' : VMM} (memory : v'.mem = v.mem) (root : v'.pml4 = v.pml4) :
    v'.tableAt = v.tableAt := by
  funext q
  unfold tableAt edges
  rw [memory, root]

theorem leafCongr {v v' : VMM} (memory : v'.mem = v.mem) (root : v'.pml4 = v.pml4) :
    v'.leaf = v.leaf := by
  funext q i
  unfold leaf
  rw [tableAtCongr memory root, memory]

theorem heldMono {p p' : PMM} (used : ∀ f, p.used f = true → p'.used f = true) {t : Nat}
    (held : Held p t) : Held p' t := ⟨held.1, used _ held.2.1, used _ held.2.2⟩

theorem WellTagged.frame {v v' : VMM} (tagged : WellTagged v) (memory : v'.mem = v.mem)
    (root : v'.pml4 = v.pml4) (used : ∀ f, v.pmm.used f = true → v'.pmm.used f = true) :
    WellTagged v' := by
  have same := tableAtCongr memory root
  refine ⟨?_, ?_, ?_, ?_, ?_, ?_⟩
  · rw [same]
    exact tagged.depth
  · rw [same, memory]
    exact tagged.tag
  · rw [same, memory]
    exact tagged.linked
  · rw [same]
    exact fun q t found => heldMono used (tagged.held q t found)
  · have graph : v'.edges = v.edges := by
      unfold edges
      rw [memory]
    rw [graph, root]
    exact tagged.proper
  · rw [same]
    exact tagged.apart

theorem Grows.refl (v : VMM) : Grows v v := by
  refine ⟨rfl, fun _ _ found => found, fun _ taken => taken, rfl, fun counted => counted, ?_,
    fun _ _ _ => .inl rfl⟩
  intro q t missing found
  rw [missing] at found
  contradiction

theorem Grows.frame {v v' : VMM} (memory : v'.mem = v.mem) (root : v'.pml4 = v.pml4)
    (used : ∀ f, v.pmm.used f = true → v'.pmm.used f = true)
    (frames : v'.pmm.frameCnt = v.pmm.frameCnt) (counted : v.pmm.Counted → v'.pmm.Counted) :
    Grows v v' := by
  refine ⟨root, ?_, used, frames, counted, ?_, fun q i _ => .inl ?_⟩
  · rw [tableAtCongr memory root]
    exact fun q t found => found
  · intro q t missing found
    rw [tableAtCongr memory root, missing] at found
    contradiction
  · rw [leafCongr memory root]

theorem mapsNewMono {v v' v'' : VMM} (later : Grows v' v'') {e : Entry} (new : MapsNew v v' e) :
    MapsNew v v'' e := by
  obtain ⟨q, t, before, after, maps⟩ := new
  exact ⟨q, t, before, later.tables q t after, maps⟩

theorem mapsNewEarlier {v v' v'' : VMM} (earlier : Grows v v') {e : Entry} (new : MapsNew v' v'' e) :
    MapsNew v v'' e := by
  obtain ⟨q, t, before, after, maps⟩ := new
  refine ⟨q, t, ?_, after, maps⟩
  cases found : v.tableAt q with
  | none => rfl
  | some u =>
    rw [earlier.tables q u found] at before
    contradiction

theorem Grows.trans {v v' v'' : VMM} (first : Grows v v') (second : Grows v' v'') : Grows v v'' := by
  refine ⟨second.root.trans first.root, fun q t found => second.tables q t (first.tables q t found),
    fun f taken => second.used f (first.used f taken), second.frames.trans first.frames,
    fun counted => second.counted (first.counted counted), ?_, ?_⟩
  · intro q t missing found
    cases mid : v'.tableAt q with
    | none =>
      have free := second.clear q t mid found
      by_contra taken
      rw [first.used _ (Bool.eq_true_of_not_eq_false taken)] at free
      contradiction
    | some u =>
      rw [second.tables q u mid] at found
      cases Option.some.inj found
      exact first.clear q _ missing mid
  intro q i last
  rcases second.leaves q i last with same | ⟨missing, absent⟩ | ⟨e, written, new⟩
  · rcases first.leaves q i last with same' | ⟨missing', absent'⟩ | ⟨e', written', new'⟩
    · exact .inl (same.trans same')
    · refine .inr (.inl ⟨missing', ?_⟩)
      rw [same]
      exact absent'
    · exact .inr (.inr ⟨e', same.trans written', mapsNewMono second new'⟩)
  · refine .inr (.inl ⟨?_, absent⟩)
    rcases first.leaves q i last with same' | ⟨missing', -⟩ | ⟨e', written', -⟩
    · exact same'.symm.trans missing
    · exact missing'
    · rw [written'] at missing
      contradiction
  · exact .inr (.inr ⟨e, written, mapsNewEarlier first new⟩)

theorem Grows.reserved {v v' : VMM} (grows : Grows v v') (reserved : Reserved v) : Reserved v' := by
  refine ⟨grows.used 0 reserved.1, fun q found => ?_⟩
  cases before : v.tableAt q with
  | none =>
    have free := grows.clear q 0 before found
    rw [Nat.zero_div, reserved.1] at free
    contradiction
  | some t =>
    rw [grows.tables q t before] at found
    cases Option.some.inj found
    exact reserved.2 q before

end VMM
end DimOS.Memory.Vmm
