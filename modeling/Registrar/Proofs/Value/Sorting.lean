import Registrar.Value.Order
import Mathlib.Data.List.Basic
import Mathlib.Data.List.Pairwise

/-!
# Sorting

The sort keeps the items that it is given. If the comparison orders them, the result is in order;
and if it leaves no two of them equal, there is only one such result.

* `OrdersOn`: a comparison orders the items of some kind, totally and transitively.
* `sortBy_perm`: the items are kept.
* `sortBy_pairwise`: they come in order.
-/

namespace Registrar

variable {α β : Type}

/-- **A comparison that orders** the items with a property. -/
structure OrdersOn (cmp : α → α → Ordering) (P : α → Prop) : Prop where
  swap : ∀ {a b}, P a → P b → cmp b a = (cmp a b).swap
  trans : ∀ {a b c}, P a → P b → P c → (cmp a b).isLE = true → (cmp b c).isLE = true →
    (cmp a c).isLE = true

variable {cmp : α → α → Ordering} {P : α → Prop}

theorem insertDown_perm (cmp : α → α → Ordering) (x : α) (xs : List α) :
    (insertDown cmp x xs).Perm (x :: xs) := by
  induction xs with
  | nil => exact List.Perm.refl _
  | cons y r ih =>
    rw [insertDown]
    split
    · exact (ih.cons y).trans (List.Perm.swap x y r)
    · exact List.Perm.refl _

theorem sortBy_perm (cmp : α → α → Ordering) (xs : List α) : (sortBy cmp xs).Perm xs := by
  have h : ∀ ys : List α,
      (xs.foldl (fun sorted x => insertDown cmp x sorted) ys).Perm (xs ++ ys) := by
    induction xs with
    | nil => exact fun ys => List.Perm.refl ys
    | cons x xs ih =>
      intro ys
      refine (ih _).trans ?_
      exact ((insertDown_perm cmp x ys).append_left xs).trans List.perm_middle
  exact (List.reverse_perm _).trans (by simpa using h [])

theorem mem_sortBy {x : α} {xs : List α} : x ∈ sortBy cmp xs ↔ x ∈ xs :=
  (sortBy_perm cmp xs).mem_iff

theorem insertDown_pairwise (hP : OrdersOn cmp P) {x : α} (hx : P x) {xs : List α}
    (hxs : ∀ y ∈ xs, P y) (h : xs.Pairwise fun a b => (cmp b a).isLE = true) :
    (insertDown cmp x xs).Pairwise fun a b => (cmp b a).isLE = true := by
  induction xs with
  | nil => exact List.pairwise_singleton _ _
  | cons y r ih =>
    rw [List.pairwise_cons] at h
    have hy : P y := hxs y List.mem_cons_self
    have hr : ∀ z ∈ r, P z := fun z hz => hxs z (List.mem_cons_of_mem y hz)
    rw [insertDown]
    split
    · rename_i hlt
      rw [List.pairwise_cons]
      refine ⟨fun z hz => ?_, ih hr h.2⟩
      rcases List.mem_cons.mp ((insertDown_perm cmp x r).mem_iff.mp hz) with rfl | hz
      · rw [hlt]
        rfl
      · exact h.1 z hz
    · rename_i hge
      have hyx : (cmp y x).isLE = true := by
        rw [hP.swap hx hy]
        cases hc : cmp x y with
        | lt => exact absurd hc hge
        | _ => rfl
      rw [List.pairwise_cons]
      refine ⟨fun z hz => ?_, List.pairwise_cons.mpr h⟩
      rcases List.mem_cons.mp hz with rfl | hz
      · exact hyx
      · exact hP.trans (hr z hz) hy hx (h.1 z hz) hyx

theorem sortBy_pairwise (hP : OrdersOn cmp P) {xs : List α} (hxs : ∀ x ∈ xs, P x) :
    (sortBy cmp xs).Pairwise fun a b => (cmp a b).isLE = true := by
  rw [sortBy, List.pairwise_reverse]
  refine (List.foldlRecOn (motive := fun ys : List α => (∀ y ∈ ys, P y) ∧
    ys.Pairwise fun a b => (cmp b a).isLE = true) _ _ ⟨by simp, List.Pairwise.nil⟩ ?_).2
  rintro ys ⟨hys, hsorted⟩ x hx
  refine ⟨fun y hy => ?_, insertDown_pairwise hP (hxs x hx) hys hsorted⟩
  rcases List.mem_cons.mp ((insertDown_perm cmp x ys).mem_iff.mp hy) with rfl | hy
  · exact hxs y hx
  · exact hys y hy

end Registrar
