import Mathlib
import DimOS.Memory.IndexOffset

/-! Index tuples and addresses: what getVirtualAddr and getIndexOffset make of each other, the
lexicographic order of the tuples, and the tuple that nextPage goes on to. -/
namespace DimOS.Memory.Paging
namespace IndexOffset

/- The components, most significant first. List compares them lexicographically. -/
def digits (c : IndexOffset) : List Nat := [c.i 0, c.i 1, c.i 2, c.i 3]

def Canonical (x : Nat) : Prop := x < 2 ^ 47 ∨ 2 ^ 64 - 2 ^ 47 ≤ x ∧ x < 2 ^ 64

def lastLower : IndexOffset := ⟨255, 511, 511, 511⟩

def lastPage : IndexOffset := ⟨511, 511, 511, 511⟩

theorem pageInj {c d : IndexOffset} (normal : c.Normal) (normal' : d.Normal) : c.page = d.page ↔ c = d := by
  obtain ⟨c0, c1, c2, c3⟩ := c
  obtain ⟨d0, d1, d2, d3⟩ := d
  obtain ⟨-, b, e, f⟩ := normalDigits normal
  obtain ⟨-, b', e', f'⟩ := normalDigits normal'
  rw [pageEq, pageEq, IndexOffset.mk.injEq]
  simp only [i] at b e f b' e' f' ⊢
  omega

theorem digitsLtIff {c d : IndexOffset} (normal : c.Normal) (normal' : d.Normal) :
    c.digits < d.digits ↔ c.page < d.page := by
  obtain ⟨a, b, e, f⟩ := normalDigits normal
  obtain ⟨a', b', e', f'⟩ := normalDigits normal'
  rw [pageEq, pageEq]
  simp only [digits, List.cons_lt_cons_iff, List.not_lt_nil, and_false, or_false]
  omega

theorem virtualAddrLtIff {c d : IndexOffset} (normal : c.Normal) (normal' : d.Normal) :
    c.getVirtualAddr < d.getVirtualAddr ↔ c.page < d.page := by
  have inside := normalPage normal
  have inside' := normalPage normal'
  rw [virtualAddrEq normal, virtualAddrEq normal']
  split <;> split <;> omega

theorem addrMonotone {c d : IndexOffset} (normal : c.Normal) (normal' : d.Normal) :
    c.digits < d.digits ↔ c.getVirtualAddr < d.getVirtualAddr := by
  rw [digitsLtIff normal normal', virtualAddrLtIff normal normal']

theorem offsetOfAddr {c : IndexOffset} (normal : c.Normal) : getIndexOffset c.getVirtualAddr = c := by
  obtain ⟨formed, number⟩ := indexOffsetSpec c.getVirtualAddr
  have inside := normalPage normal
  rw [← pageInj formed normal, number, virtualAddrEq normal]
  split <;> omega

theorem addrOfOffset {x : Nat} (canonical : Canonical x) (aligned : x % 4096 = 0) :
    (getIndexOffset x).getVirtualAddr = x := by
  obtain ⟨formed, number⟩ := indexOffsetSpec x
  rw [virtualAddrEq formed, number]
  unfold Canonical at canonical
  split <;> omega

theorem normalLast : lastLower.Normal ∧ lastPage.Normal :=
  ⟨normalMk (by decide) (by decide) (by decide) (by decide),
    normalMk (by decide) (by decide) (by decide) (by decide)⟩

theorem lastPageIff {c : IndexOffset} (normal : c.Normal) : c = lastPage ↔ c.page = 2 ^ 36 - 1 := by
  rw [← pageInj normal normalLast.2]
  rfl

theorem lastLowerIff {c : IndexOffset} (normal : c.Normal) : c = lastLower ↔ c.page = 2 ^ 35 - 1 := by
  rw [← pageInj normal normalLast.1]
  rfl

theorem nextPageSuccessor {c : IndexOffset} (normal : c.Normal) (more : c ≠ lastPage) :
    c.digits < c.nextPage.digits ∧
      ∀ d : IndexOffset, d.Normal → c.digits < d.digits → ¬ d.digits < c.nextPage.digits := by
  obtain ⟨formed, number⟩ := nextPageSpec normal
  have inside := normalPage normal
  rw [ne_eq, lastPageIff normal] at more
  have onward : c.nextPage.page = c.page + 1 := by omega
  constructor
  · rw [digitsLtIff normal formed]
    omega
  · intro d normal' later
    rw [digitsLtIff normal normal'] at later
    rw [digitsLtIff normal' formed]
    omega

theorem nextPageAddr {c : IndexOffset} (normal : c.Normal) :
    c.nextPage.getVirtualAddr =
      if c = lastLower then 0xffff800000000000
      else if c = lastPage then 0
      else c.getVirtualAddr + 4096 := by
  obtain ⟨formed, number⟩ := nextPageSpec normal
  have inside := normalPage normal
  rw [virtualAddrEq formed, number, virtualAddrEq normal]
  simp only [lastLowerIff normal, lastPageIff normal]
  by_cases lower : c.page = 2 ^ 35 - 1
  · rw [if_pos lower, lower]
    rfl
  · rw [if_neg lower]
    by_cases last : c.page = 2 ^ 36 - 1
    · rw [if_pos last, last]
      rfl
    · rw [if_neg last, show (c.page + 1) % 2 ^ 36 = c.page + 1 by omega]
      split <;> split <;> omega

/-- Tuples and canonical page addresses correspond in order, and nextPage is the successor. -/
theorem tuplesAndAddresses :
    (∀ t : IndexOffset, t.Normal → getIndexOffset t.getVirtualAddr = t) ∧
    (∀ x, Canonical x → x % 4096 = 0 →
      (getIndexOffset x).Normal ∧ (getIndexOffset x).getVirtualAddr = x) ∧
    (∀ t u : IndexOffset, t.Normal → u.Normal →
      (t.digits < u.digits ↔ t.getVirtualAddr < u.getVirtualAddr)) ∧
    (∀ t : IndexOffset, t.Normal → t ≠ lastPage → t.digits < t.nextPage.digits ∧
      ∀ u : IndexOffset, u.Normal → t.digits < u.digits → ¬ u.digits < t.nextPage.digits) ∧
    (∀ t : IndexOffset, t.Normal → t.nextPage.Normal ∧
      t.nextPage.getVirtualAddr =
        if t = lastLower then 0xffff800000000000
        else if t = lastPage then 0
        else t.getVirtualAddr + 4096) := by
  refine ⟨fun t normal => offsetOfAddr normal, fun x canonical aligned => ?_,
    fun t u normal normal' => addrMonotone normal normal', fun t normal more => ?_, fun t normal => ?_⟩
  · exact ⟨(indexOffsetSpec x).1, addrOfOffset canonical aligned⟩
  · exact nextPageSuccessor normal more
  · exact ⟨(nextPageSpec normal).1, nextPageAddr normal⟩

/- The two pages on either side of the gap between the halves. -/
theorem tuplesAtHalf :
    lastLower.getVirtualAddr < (⟨256, 0, 0, 0⟩ : IndexOffset).getVirtualAddr ∧
      (getIndexOffset 0xffff800000000000).getVirtualAddr = 0xffff800000000000 ∧
      lastLower.nextPage.getVirtualAddr = 0xffff800000000000 := by
  obtain ⟨-, addresses, order, -, next⟩ := tuplesAndAddresses
  refine ⟨?_, (addresses _ (Or.inr (by decide)) (by decide)).2, ?_⟩
  · exact (order lastLower ⟨256, 0, 0, 0⟩ normalLast.1
      (normalMk (by decide) (by decide) (by decide) (by decide))).mp (by decide)
  · rw [(next lastLower normalLast.1).2, if_pos rfl]

end IndexOffset
end DimOS.Memory.Paging
