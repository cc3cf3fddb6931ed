/-!
# Pages

**Paging** cuts one page out of an ordered result. Pages count from one, a page below one is the
first, and without a positive page size the page is everything. Offsets are 64-bit words and stop
at the largest one.

* `Paging.cut`: the items of the page.
* `Paging.leavesMore`: whether items follow the page.
* `SearchPage`: the answer of a search.
-/

namespace Registrar

/-- **Which page of a result**, and how many items it may have. -/
structure Paging where
  page : UInt64
  pageSize : Option UInt64
  deriving DecidableEq

namespace Paging

/-- The paging for the page and the page size that a caller names. -/
def ofPage (page pageSize : Int64) : Paging where
  page := if 1 ≤ page then page.toUInt64 else 1
  pageSize := if 0 < pageSize then some pageSize.toUInt64 else none

/-- The paging whose one page is everything. -/
def everything : Paging := ⟨1, none⟩

/-- The product of two words, at most the largest word. -/
def mulSaturating (a b : UInt64) : UInt64 :=
  UInt64.ofNat (min (a.toNat * b.toNat) 0xFFFFFFFFFFFFFFFF)

/-- **The number of items before the page.** -/
def offset (w : Paging) : UInt64 :=
  match w.pageSize with
  | some size => mulSaturating (w.page - 1) size
  | none => 0

/-- **The items of the page.** -/
def cut {α : Type} (w : Paging) (items : List α) : List α :=
  match w.pageSize with
  | some size => (items.drop w.offset.toNat).take size.toNat
  | none => items

/-- **Whether items follow the page**, given how many there are and how many it returned. -/
def leavesMore (w : Paging) (itemCount returned : UInt64) : Bool :=
  w.offset + returned < itemCount

end Paging

/-- **The answer of a search**: one page, and how many items there are in all. -/
structure SearchPage (α : Type) where
  more : Bool := false
  page : Int64 := 1
  pageSize : Int64 := 0
  itemCount : UInt64 := 0
  results : List α := []

namespace SearchPage

def map {α β : Type} (f : α → β) (p : SearchPage α) : SearchPage β :=
  { p with results := p.results.map f }

end SearchPage

end Registrar
