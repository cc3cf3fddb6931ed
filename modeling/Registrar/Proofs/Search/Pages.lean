import Registrar.Search.Paging
import Mathlib.Algebra.Group.Nat.Defs
import Mathlib.Data.List.Forall2

/-!
# The pages of a result

A page is cut out of a result with words of 64 bits, which stop at the largest one instead of
growing over it. No result is that long, so the words do not show: the pages of one size are the
pieces of the result, one after the other.

* `pageStart`, `pageItems`: where a page starts and what it holds, in unbounded numbers.
* `cut_ofPage`: this is what is cut out.
* `leavesMore_ofPage`: items follow a page just if the result is longer than all pages up to it.
* `SearchPage.PageOf`: an answer that is a page of a result.
-/

namespace Registrar

variable {α : Type}

/-- **The number of items before a page**; a page below one counts as the first. -/
def pageStart (page pageSize : Int64) : Nat := (page.toInt - 1).toNat * pageSize.toInt.toNat

/-- **The items of a page**; without a positive page size these are all. -/
def pageItems (page pageSize : Int64) (items : List α) : List α :=
  if 0 < pageSize then (items.drop (pageStart page pageSize)).take pageSize.toInt.toNat else items

theorem toNat_toUInt64_of_pos {n : Int64} (h : 0 < n) : n.toUInt64.toNat = n.toInt.toNat := by
  rw [Int64.toNat_toUInt64_of_le (Int64.le_of_lt h), Int64.toNat_toInt]

theorem toInt_pos {n : Int64} (h : 0 < n) : 0 < n.toInt := Int64.lt_iff_toInt_lt.mp h

namespace Paging

theorem toNat_page_ofPage (page pageSize : Int64) :
    (ofPage page pageSize).page.toNat = (page.toInt - 1).toNat + 1 := by
  rw [ofPage]
  by_cases h : 1 ≤ page
  · have hle : (1 : Int) ≤ page.toInt := Int64.le_iff_toInt_le.mp h
    have hpos : 0 < page := Int64.lt_iff_toInt_lt.mpr hle
    rw [if_pos h, toNat_toUInt64_of_pos hpos]
    omega
  · have hlt : page.toInt < 1 := by
      have := mt Int64.le_iff_toInt_le.mpr h
      simpa using this
    rw [if_neg h]
    have : (page.toInt - 1).toNat = 0 := by omega
    rw [this]
    rfl

theorem toNat_mulSaturating (a b : UInt64) :
    (mulSaturating a b).toNat = min (a.toNat * b.toNat) (2 ^ 64 - 1) := by
  have hlt : min (a.toNat * b.toNat) (2 ^ 64 - 1) < 2 ^ 64 := by omega
  rw [mulSaturating, UInt64.toNat_ofNat']
  exact Nat.mod_eq_of_lt hlt

theorem toNat_offset_ofPage {page pageSize : Int64} (h : 0 < pageSize) :
    (ofPage page pageSize).offset.toNat = min (pageStart page pageSize) (2 ^ 64 - 1) := by
  have hpage : ((ofPage page pageSize).page - 1).toNat = (page.toInt - 1).toNat := by
    have hone : (1 : UInt64) ≤ (ofPage page pageSize).page := by
      rw [UInt64.le_iff_toNat_le, toNat_page_ofPage]
      exact Nat.le_add_left 1 _
    rw [UInt64.toNat_sub_of_le _ _ hone, toNat_page_ofPage]
    rfl
  have hsize : (ofPage page pageSize).pageSize = some pageSize.toUInt64 := if_pos h
  rw [offset, hsize]
  dsimp only
  rw [toNat_mulSaturating, hpage, toNat_toUInt64_of_pos h, pageStart]

variable {items : List α}

theorem mem_of_mem_cut {window : Paging} {a : α} (h : a ∈ window.cut items) : a ∈ items := by
  rw [cut] at h
  split at h
  · exact List.mem_of_mem_drop (List.mem_of_mem_take h)
  · exact h

/-- **What is cut out** of a result are the items of the page. -/
theorem cut_ofPage (hlen : items.length < 2 ^ 64) (page pageSize : Int64) :
    (ofPage page pageSize).cut items = pageItems page pageSize items := by
  rw [pageItems]
  by_cases h : 0 < pageSize
  · have hsize : (ofPage page pageSize).pageSize = some pageSize.toUInt64 := if_pos h
    rw [cut, hsize, if_pos h]
    dsimp only
    rw [toNat_offset_ofPage h, toNat_toUInt64_of_pos h]
    rcases Nat.le_total (pageStart page pageSize) (2 ^ 64 - 1) with hle | hle
    · rw [Nat.min_eq_left hle]
    · rw [Nat.min_eq_right hle, List.drop_eq_nil_of_le (by omega),
        List.drop_eq_nil_of_le (by omega)]
  · have hsize : (ofPage page pageSize).pageSize = none := if_neg h
    rw [cut, hsize, if_neg h]

theorem length_pageItems_of_pos {pageSize : Int64} (h : 0 < pageSize) (page : Int64) :
    (pageItems page pageSize items).length =
      min pageSize.toInt.toNat (items.length - pageStart page pageSize) := by
  rw [pageItems, if_pos h, List.length_take, List.length_drop]

/-- **Items follow a page** just if the result is longer than all pages up to it. -/
theorem leavesMore_ofPage (hlen : items.length < 2 ^ 64) (page pageSize : Int64) :
    (ofPage page pageSize).leavesMore (.ofNat items.length)
        (.ofNat (pageItems page pageSize items).length) = true ↔
      0 < pageSize ∧ pageStart page pageSize + pageSize.toInt.toNat < items.length := by
  have hall : (UInt64.ofNat items.length).toNat = items.length :=
    UInt64.toNat_ofNat_of_lt' hlen
  rw [leavesMore, decide_eq_true_iff, UInt64.lt_iff_toNat_lt, UInt64.toNat_add, hall]
  by_cases h : 0 < pageSize
  · have hsome : (pageItems page pageSize items).length ≤ items.length := by
      rw [length_pageItems_of_pos h]
      omega
    have hpos : 0 < pageSize.toInt.toNat := by have := toInt_pos h; omega
    rw [UInt64.toNat_ofNat_of_lt' (Nat.lt_of_le_of_lt hsome hlen), toNat_offset_ofPage h,
      length_pageItems_of_pos h]
    simp only [h, true_and]
    omega
  · have hoff : (ofPage page pageSize).offset.toNat = 0 := by
      have hsize : (ofPage page pageSize).pageSize = none := if_neg h
      rw [offset, hsize]
      rfl
    rw [hoff, pageItems, if_neg h, hall]
    simp only [h, false_and, iff_false]
    omega

end Paging

/-! ### Answers -/

/-- **An answer is a page of a result.** -/
structure SearchPage.PageOf (all : List α) (page pageSize : Int64) (a : SearchPage α) : Prop where
  results : a.results = pageItems page pageSize all
  itemCount : a.itemCount.toNat = all.length
  more : a.more = true ↔
    0 < pageSize ∧ pageStart page pageSize + pageSize.toInt.toNat < all.length
  page : a.page.toInt = max 1 page.toInt
  pageSize : a.pageSize = pageSize

/-- **The answer that is given** is a page of the result. -/
theorem pageOf_answer {all : List α} (hlen : all.length < 2 ^ 64) (page pageSize : Int64) :
    SearchPage.PageOf all page pageSize {
      more := (Paging.ofPage page pageSize).leavesMore (.ofNat all.length)
        (.ofNat (pageItems page pageSize all).length)
      page := (Paging.ofPage page pageSize).page.toInt64
      pageSize
      itemCount := .ofNat all.length
      results := pageItems page pageSize all } where
  results := rfl
  itemCount := UInt64.toNat_ofNat_of_lt' hlen
  more := Paging.leavesMore_ofPage hlen page pageSize
  page := by
    dsimp only
    rw [Paging.ofPage]
    by_cases h : 1 ≤ page
    · have hle : (1 : Int) ≤ page.toInt := Int64.le_iff_toInt_le.mp h
      rw [if_pos h, Int64.toInt64_toUInt64, Int.max_eq_right hle]
    · have hlt : page.toInt < 1 := by
        have := mt Int64.le_iff_toInt_le.mpr h
        simpa using this
      rw [if_neg h, Int.max_eq_left (Int.le_of_lt hlt)]
      rfl
  pageSize := rfl

theorem forall₂_pageItems {β : Type} {R : α → β → Prop} {xs : List α} {ys : List β}
    (h : List.Forall₂ R xs ys) (page pageSize : Int64) :
    List.Forall₂ R (pageItems page pageSize xs) (pageItems page pageSize ys) := by
  rw [pageItems, pageItems]
  split
  · exact List.forall₂_take _ (List.forall₂_drop _ h)
  · exact h

end Registrar
