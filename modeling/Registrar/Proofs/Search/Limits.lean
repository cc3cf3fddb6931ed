import Registrar.Proofs.Search.Pages

/-!
# Pages at the limits of the words

The words of a page have 64 bits. The offset stops at the largest word instead of growing over it,
but the number of items up to the end of a page is added up without such care. Nothing is lost in
the sum: an offset that has stopped, or is beyond the end of the result for another reason, is
followed by an empty page, and any other page ends within the result.

* `Paging.KeepsToWords`: no word is exceeded where a page is cut out.
* `pages_within_words`: this is so for every page of every result, and what is cut out and told of
  it is what unbounded numbers would tell.
-/

namespace Registrar

variable {α : Type}

namespace Paging

/-- **No word is exceeded** where the page is cut out of the items: the word before the page, the
number of all items, and the number of those up to the end of the page are what they are without
bounds. -/
structure KeepsToWords (w : Paging) (items : List α) : Prop where
  page : (w.page - 1).toNat + 1 = w.page.toNat
  total : (UInt64.ofNat items.length).toNat = items.length
  sum : (w.offset + .ofNat (w.cut items).length).toNat = w.offset.toNat + (w.cut items).length

theorem toNat_offset_of_unpaged {pageSize : Int64} (h : ¬ 0 < pageSize) (page : Int64) :
    (ofPage page pageSize).offset.toNat = 0 := by
  have hsize : (ofPage page pageSize).pageSize = none := if_neg h
  rw [offset, hsize]
  rfl

theorem pageStart_of_unpaged {pageSize : Int64} (h : ¬ 0 < pageSize) (page : Int64) :
    pageStart page pageSize = 0 := by
  have hle : pageSize.toInt ≤ 0 := by
    have := mt Int64.lt_iff_toInt_lt.mpr h
    simpa using this
  rw [pageStart, Int.toNat_of_nonpos hle, Nat.mul_zero]

/-- **The offset stops** at the largest word. -/
theorem toNat_offset (page pageSize : Int64) :
    (ofPage page pageSize).offset.toNat = min (pageStart page pageSize) (2 ^ 64 - 1) := by
  by_cases h : 0 < pageSize
  · exact toNat_offset_ofPage h
  · rw [toNat_offset_of_unpaged h, pageStart_of_unpaged h]
    omega

variable {items : List α}

theorem length_pageItems_le (page pageSize : Int64) (items : List α) :
    (pageItems page pageSize items).length ≤ items.length := by
  rw [pageItems]
  split
  · rw [List.length_take, List.length_drop]
    omega
  · exact Nat.le_refl _

/-- A page that starts within the result ends within it, and any other is empty. -/
theorem pageStart_add_length_le (page pageSize : Int64) (items : List α) :
    pageStart page pageSize + (pageItems page pageSize items).length ≤ items.length ∨
      items.length < pageStart page pageSize ∧ pageItems page pageSize items = [] := by
  by_cases hstart : pageStart page pageSize ≤ items.length
  · left
    by_cases h : 0 < pageSize
    · rw [length_pageItems_of_pos h]
      omega
    · rw [pageStart_of_unpaged h, Nat.zero_add]
      exact length_pageItems_le page pageSize items
  · right
    have hpaged : 0 < pageSize := by
      by_contra h
      rw [pageStart_of_unpaged h] at hstart
      omega
    refine ⟨by omega, ?_⟩
    rw [pageItems, if_pos hpaged, List.drop_eq_nil_of_le (by omega), List.take_nil]

theorem keepsToWords (hlen : items.length < 2 ^ 63) (page pageSize : Int64) :
    (ofPage page pageSize).KeepsToWords items := by
  have hone : (1 : UInt64).toNat ≤ (ofPage page pageSize).page.toNat := by
    rw [toNat_page_ofPage]
    exact Nat.le_add_left 1 _
  have hcut := cut_ofPage (by omega : items.length < 2 ^ 64) page pageSize
  have hreturned := length_pageItems_le page pageSize items
  have hword : ∀ n : Nat, n ≤ items.length → (UInt64.ofNat n).toNat = n := by
    intro n hn
    exact UInt64.toNat_ofNat_of_lt' (by simp only [UInt64.size]; omega)
  refine ⟨?_, hword _ (Nat.le_refl _), ?_⟩
  · rw [UInt64.toNat_sub_of_le _ _ (UInt64.le_iff_toNat_le.mpr hone)]
    exact Nat.sub_add_cancel hone
  · rw [hcut, UInt64.toNat_add, hword _ hreturned, toNat_offset]
    refine Nat.mod_eq_of_lt ?_
    rcases pageStart_add_length_le page pageSize items with hinside | ⟨-, hempty⟩
    · omega
    · rw [hempty, List.length_nil]
      omega

/-- **Items follow the page** if one stands in the result right behind it. -/
theorem leavesMore_iff_followed (hlen : items.length < 2 ^ 63) (page pageSize : Int64) :
    (ofPage page pageSize).leavesMore (.ofNat items.length)
        (.ofNat (pageItems page pageSize items).length) = true ↔
      ∃ before x after, before.length = pageStart page pageSize ∧
        items = before ++ pageItems page pageSize items ++ x :: after := by
  rw [leavesMore_ofPage (by omega)]
  constructor
  · rintro ⟨hpaged, hmore⟩
    have hsize : pageItems page pageSize items =
        (items.drop (pageStart page pageSize)).take pageSize.toInt.toNat := by
      rw [pageItems, if_pos hpaged]
    have hrest : items.drop (pageStart page pageSize + pageSize.toInt.toNat) ≠ [] := by
      rw [ne_eq, List.drop_eq_nil_iff]
      omega
    obtain ⟨x, after, hafter⟩ := List.exists_cons_of_ne_nil hrest
    refine ⟨items.take (pageStart page pageSize), x, after, ?_, ?_⟩
    · rw [List.length_take]
      omega
    · rw [← hafter, hsize, ← List.drop_drop, List.append_assoc, List.take_append_drop,
        List.take_append_drop]
  · rintro ⟨before, x, after, hbefore, hitems⟩
    have hlength := congrArg List.length hitems
    rw [List.length_append, List.length_append, List.length_cons] at hlength
    have hpaged : 0 < pageSize := by
      by_contra h
      -- Without pages everything is returned, so nothing is left behind.
      rw [pageItems, if_neg h] at hlength
      omega
    refine ⟨hpaged, ?_⟩
    rw [length_pageItems_of_pos hpaged] at hlength
    omega

end Paging

/-- **Pages keep to the words**, at all pages and page sizes and for every result of less than 2^63
items: no word is exceeded; the offset is the number of items before the page or the largest word;
the items are those from there on, as many as the page may have, and without a positive page size
all; and more is told just if an item follows them. -/
theorem pages_within_words (page pageSize : Int64) (items : List α)
    (hlen : items.length < 2 ^ 63) :
    (Paging.ofPage page pageSize).KeepsToWords items ∧
    (Paging.ofPage page pageSize).offset.toNat = min (pageStart page pageSize) (2 ^ 64 - 1) ∧
    (Paging.ofPage page pageSize).cut items = pageItems page pageSize items ∧
    ((Paging.ofPage page pageSize).leavesMore (.ofNat items.length)
        (.ofNat ((Paging.ofPage page pageSize).cut items).length) = true ↔
      ∃ before x after, before.length = pageStart page pageSize ∧
        items = before ++ (Paging.ofPage page pageSize).cut items ++ x :: after) := by
  have hcut := Paging.cut_ofPage (by omega : items.length < 2 ^ 64) page pageSize
  refine ⟨Paging.keepsToWords hlen page pageSize, Paging.toNat_offset page pageSize, hcut, ?_⟩
  rw [hcut]
  exact Paging.leavesMore_iff_followed hlen page pageSize

/-- **The last page of the largest size**: the offset has stopped, and the page is empty. -/
theorem lastPage_within_words : [7, 8, 9].length < 2 ^ 63 ∧
    (Paging.ofPage 9223372036854775807 9223372036854775807).offset.toNat = 2 ^ 64 - 1 ∧
    (Paging.ofPage 9223372036854775807 9223372036854775807).KeepsToWords [7, 8, 9] ∧
    (Paging.ofPage 9223372036854775807 9223372036854775807).cut [7, 8, 9] = [] := by
  have hlen : [7, 8, 9].length < 2 ^ 63 := by decide
  obtain ⟨hwords, hoffset, hcut, -⟩ :=
    pages_within_words 9223372036854775807 9223372036854775807 [7, 8, 9] hlen
  refine ⟨hlen, ?_, hwords, ?_⟩
  · rw [hoffset]
    decide
  · rw [hcut]
    decide +kernel

end Registrar
