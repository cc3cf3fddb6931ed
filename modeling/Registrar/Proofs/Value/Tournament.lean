import Mathlib.Data.List.Chain
import Registrar.Proofs.Value.Sorting

/-!
# Sorting without transitivity

A comparison of items may be total and leave no two of them equal, and still not be transitive: a
tournament, in which each item is next to one that is not less. Sorting arranges the items in a
**chain**, where each is at most the next one, and it leaves a chain as it is. If the comparison is
not transitive there are several chains. So the result depends on the order in which the items came.

* `sortBy_isChain`, `sortBy_of_isChain`: the result is a chain, and chains are left as they are.
* `pairwise_of_only_chain`: if there is only one chain, it is in order.
* `sortBy_alike_iff`: the order of the items counts unless the comparison is transitive.
-/

namespace Registrar

variable {α : Type} {cmp : α → α → Ordering} {x : α} {xs ys : List α}

/-- **A tournament**: a comparison that turns around, and leaves no two items of the list equal. -/
structure Tournament (cmp : α → α → Ordering) (xs : List α) : Prop where
  swap : ∀ a b, cmp b a = (cmp a b).swap
  apart : ∀ a ∈ xs, ∀ b ∈ xs, cmp a b = .eq → a = b

/-- **A comparison is transitive** on a list. -/
def TransitiveOn (cmp : α → α → Ordering) (xs : List α) : Prop :=
  ∀ a ∈ xs, ∀ b ∈ xs, ∀ c ∈ xs, (cmp a b).isLE = true → (cmp b c).isLE = true →
    (cmp a c).isLE = true

theorem TransitiveOn.mono (h : TransitiveOn cmp xs) (hsub : ∀ y ∈ ys, y ∈ xs) :
    TransitiveOn cmp ys :=
  fun a ha b hb c hc => h a (hsub a ha) b (hsub b hb) c (hsub c hc)

namespace Tournament

theorem mono (h : Tournament cmp xs) (hsub : ∀ y ∈ ys, y ∈ xs) : Tournament cmp ys :=
  ⟨h.swap, fun a ha b hb => h.apart a (hsub a ha) b (hsub b hb)⟩

theorem isLE_of_not_lt (h : Tournament cmp xs) {a b : α} (hab : cmp a b ≠ .lt) :
    (cmp b a).isLE = true := by
  rw [h.swap a b]
  cases hc : cmp a b with
  | lt => exact absurd hc hab
  | eq | gt => rfl

theorem isLE_self (h : Tournament cmp xs) (a : α) : (cmp a a).isLE = true := by
  have hswap := h.swap a a
  cases hc : cmp a a with
  | lt | eq => rfl
  | gt =>
    rw [hc] at hswap
    cases hswap

theorem antisymm (h : Tournament cmp xs) {a b : α} (ha : a ∈ xs) (hb : b ∈ xs)
    (hab : (cmp a b).isLE = true) (hba : (cmp b a).isLE = true) : a = b := by
  refine h.apart a ha b hb ?_
  rw [h.swap a b] at hba
  cases hc : cmp a b with
  | eq => rfl
  | lt | gt => simp [hc] at hab hba

/-! ### The result is a chain -/

theorem insertDown_isChain (h : Tournament cmp xs) (x : α) {l : List α}
    (hl : l.IsChain fun a b => (cmp b a).isLE = true) :
    (insertDown cmp x l).IsChain fun a b => (cmp b a).isLE = true := by
  induction l with
  | nil => exact .singleton x
  | cons y r ih =>
    rw [insertDown]
    split
    · rename_i hlt
      have hxy : (cmp x y).isLE = true := by
        rw [hlt]
        rfl
      -- The item stands behind the one that it passed, or one that stood there before does.
      cases r with
      | nil => exact List.isChain_pair.mpr hxy
      | cons z r =>
        have htail := ih hl.tail
        rw [insertDown] at htail ⊢
        split at htail
        · rename_i hz
          rw [if_pos hz]
          exact .cons_cons (List.isChain_cons_cons.mp hl).1 htail
        · rename_i hz
          rw [if_neg hz]
          exact .cons_cons hxy htail
    · rename_i hge
      exact .cons_cons (h.isLE_of_not_lt hge) hl

theorem sortBy_isChain (h : Tournament cmp xs) (ys : List α) :
    (sortBy cmp ys).IsChain fun a b => (cmp a b).isLE = true := by
  rw [sortBy, List.isChain_reverse]
  exact List.foldlRecOn (motive := fun l : List α => l.IsChain fun a b => (cmp b a).isLE = true) _ _
    .nil fun l hl x _ => h.insertDown_isChain x hl

theorem sortBy_of_isChain (h : Tournament cmp xs)
    (hys : ys.IsChain fun a b => (cmp a b).isLE = true) : sortBy cmp ys = ys := by
  have hfold : ∀ (l done : List α), (done.reverse ++ l).IsChain (fun a b => (cmp a b).isLE = true) →
      l.foldl (fun sorted x => insertDown cmp x sorted) done = l.reverse ++ done := by
    intro l
    induction l with
    | nil => exact fun done _ => rfl
    | cons x r ih =>
      intro done hchain
      have hinsert : insertDown cmp x done = x :: done := by
        cases done with
        | nil => rfl
        | cons y done =>
          rw [List.reverse_cons, List.append_assoc, List.singleton_append] at hchain
          have hyx := (List.isChain_append_cons_cons.mp hchain).2.1
          rw [insertDown, if_neg]
          intro hlt
          rw [h.swap x y, hlt] at hyx
          cases hyx
      rw [List.foldl_cons, hinsert, ih, List.reverse_cons, List.append_assoc]
      · rfl
      · rwa [List.reverse_cons, List.append_assoc]
  rw [sortBy, hfold ys [] hys, List.append_nil, List.reverse_reverse]

/-! ### One chain only -/

theorem exists_last {p : α → Prop} {l : List α} (h : ¬ ∀ y ∈ l, p y) :
    ∃ before y after, l = before ++ y :: after ∧ ¬ p y ∧ ∀ z ∈ after, p z := by
  induction l with
  | nil => exact absurd (by simp) h
  | cons x r ih =>
    by_cases hr : ∀ y ∈ r, p y
    · refine ⟨[], x, r, rfl, ?_, hr⟩
      intro hx
      exact h (List.forall_mem_cons.mpr ⟨hx, hr⟩)
    · obtain ⟨before, y, after, rfl, hy, hafter⟩ := ih hr
      exact ⟨x :: before, y, after, rfl, hy, hafter⟩

/-- **If there is only one chain, it is in order.** Otherwise the first item that is more than a
later one could stand behind the last such. -/
theorem pairwise_of_only_chain (h : Tournament cmp xs) {l : List α}
    (hl : l.IsChain fun a b => (cmp a b).isLE = true)
    (honly : ∀ ys : List α, ys.Perm l → ys.IsChain (fun a b => (cmp a b).isLE = true) → ys = l) :
    l.Pairwise fun a b => (cmp a b).isLE = true := by
  induction l with
  | nil => exact .nil
  | cons x r ih =>
    have hfirst : ∀ y ∈ r, (cmp x y).isLE = true := by
      by_contra hnot
      obtain ⟨before, y, after, rfl, hy, hafter⟩ := exists_last hnot
      have hyx : (cmp y x).isLE = true := h.isLE_of_not_lt fun hlt => hy (by rw [hlt]; rfl)
      have hmoved : (before ++ y :: x :: after).IsChain fun a b => (cmp a b).isLE = true := by
        rw [← List.cons_append, List.isChain_split] at hl
        refine List.isChain_append_cons_cons.mpr ⟨hl.1.tail, hyx, ?_⟩
        refine List.isChain_cons.mpr ⟨fun z hz => hafter z (List.mem_of_mem_head? hz), hl.2.tail⟩
      have hperm : (before ++ y :: x :: after).Perm (x :: (before ++ y :: after)) := by
        have hmiddle : (before ++ [y] ++ x :: after).Perm (x :: (before ++ [y] ++ after)) :=
          List.perm_middle
        simpa using hmiddle
      have hsame := honly _ hperm hmoved
      have hsplit : (before ++ [y]) ++ x :: after = (x :: before) ++ y :: after := by
        simpa using hsame
      have hxy : x = y := (List.cons.inj (List.append_inj hsplit (by simp)).2).1
      exact hy (hxy ▸ h.isLE_self x)
    refine List.pairwise_cons.mpr ⟨hfirst, ih hl.tail fun ys hys hchain => ?_⟩
    have hcons : (x :: ys).IsChain fun a b => (cmp a b).isLE = true :=
      List.isChain_cons.mpr
        ⟨fun z hz => hfirst z (hys.mem_iff.mp (List.mem_of_mem_head? hz)), hchain⟩
    exact (List.cons.inj (honly _ (hys.cons x) hcons)).2

theorem transitiveOn_of_pairwise (h : Tournament cmp xs)
    (hp : xs.Pairwise fun a b => (cmp a b).isLE = true) : TransitiveOn cmp xs := by
  induction xs with
  | nil => exact fun a ha => nomatch ha
  | cons x r ih =>
    rw [List.pairwise_cons] at hp
    have hrest := ih (h.mono fun y hy => List.mem_cons_of_mem x hy) hp.2
    have hfirst : ∀ c ∈ x :: r, (cmp x c).isLE = true :=
      List.forall_mem_cons.mpr ⟨h.isLE_self x, hp.1⟩
    -- What is at most the first item is the first item.
    have hleast : ∀ c ∈ x :: r, (cmp c x).isLE = true → c = x := fun c hc hle =>
      h.antisymm hc List.mem_cons_self hle (hfirst c hc)
    intro a ha b hb c hc hab hbc
    rcases List.mem_cons.mp ha with rfl | ha'
    · exact hfirst c hc
    rcases List.mem_cons.mp hb with rfl | hb'
    · rw [hleast a ha hab]
      exact hfirst c hc
    rcases List.mem_cons.mp hc with rfl | hc'
    · rw [← hleast b hb hbc]
      exact hab
    · exact hrest a ha' b hb' c hc' hab hbc

/-- **The order in which the items come does not count** just if the comparison is transitive. -/
theorem sortBy_alike_iff (h : Tournament cmp xs) :
    (∀ ys : List α, ys.Perm xs → sortBy cmp ys = sortBy cmp xs) ↔ TransitiveOn cmp xs := by
  constructor
  · intro halike
    have hmem : ∀ y, y ∈ sortBy cmp xs ↔ y ∈ xs := fun y => mem_sortBy
    have hpairwise : (sortBy cmp xs).Pairwise fun a b => (cmp a b).isLE = true := by
      refine h.pairwise_of_only_chain (h.sortBy_isChain xs) fun ys hys hchain => ?_
      rw [← halike ys (hys.trans (sortBy_perm cmp xs)), h.sortBy_of_isChain hchain]
    have htrans := transitiveOn_of_pairwise (h.mono fun y hy => (hmem y).mp hy) hpairwise
    exact htrans.mono fun y hy => (hmem y).mpr hy
  · intro htrans ys hys
    have horders : OrdersOn cmp (· ∈ xs) := by
      refine ⟨fun _ _ => h.swap _ _, ?_⟩
      intro a b c ha hb hc
      exact htrans a ha b hb c hc
    refine List.Perm.eq_of_pairwise (fun a b ha hb hab hba => ?_)
      (sortBy_pairwise horders fun y hy => hys.mem_iff.mp hy)
      (sortBy_pairwise horders fun y hy => hy) ?_
    · exact h.antisymm (hys.mem_iff.mp (mem_sortBy.mp ha)) (mem_sortBy.mp hb) hab hba
    · exact ((sortBy_perm cmp ys).trans hys).trans (sortBy_perm cmp xs).symm

end Tournament

end Registrar
