import Registrar.Engine.Read
import Registrar.Proofs.Store.Keyed
import Registrar.Proofs.Value.Ordering

/-!
# The order of a search

A sort plan orders the documents of a collection by values that belong to each of them in the
store: what stands under a path, or what stands in the document referred to. The store sorts by
such values, and the engine sorts by them; both sort alike. The plan ends with the id, so the order
leaves no two documents equal, and there is only one list of them in order.

* `SortTerm.valueIn`, `SortPlan.orderIn`: the order in a store.
* `ordersOn_orderIn`: it orders documents whose values are plain.
* `sorted_unique`: documents in order are in the only order.
* `orderDocuments_nativeKeys`, `compareKeys_map`: the order in which the store sorts, and the
  engine.
-/

namespace Registrar

/-! ### The order in a store -/

/-- **The value by which a term sorts a document**: that under a path, or that of the document
referred to; null when there is none. -/
def SortTerm.valueIn (s : Store) (t : SortTerm) (d : Document) : Value :=
  match t.target with
  | .field path => (d.lookup? path).getD .null
  | .reference idField target targetField =>
    (((d.value? idField).bind Value.uuid?).bind fun id =>
      ((s.entries target).document? id).bind (Document.lookup? · targetField)).getD .null

/-- **The order of documents under a plan**, the first term deciding first. -/
def SortPlan.orderIn (s : Store) : SortPlan → Document → Document → Ordering
  | [], _, _ => .eq
  | t :: ts, a, b =>
    (t.direction.apply ((t.valueIn s a).order (t.valueIn s b))).then (orderIn s ts a b)

/-- The values by which the plan sorts a document are plain. -/
def SortPlan.PlainAt (s : Store) (plan : SortPlan) (d : Document) : Prop :=
  ∀ t ∈ plan, (t.valueIn s d).isPlain = true

theorem Chained.comm {ab bc ac : Ordering} (h : Chained ab bc ac) : Chained bc ab ac := by
  intro hbc hab
  obtain ⟨hle, heq⟩ := h hab hbc
  exact ⟨hle, fun hac => (heq hac).symm⟩

namespace Direction

theorem apply_swap (d : Direction) (a b : Value) :
    d.apply (b.order a) = (d.apply (a.order b)).swap := by
  cases d with
  | asc => exact Value.order_swap a b
  | desc => exact congrArg Ordering.swap (Value.order_swap a b)

theorem apply_chained (d : Direction) {a b c : Value} (ha : a.isPlain = true)
    (hb : b.isPlain = true) (hc : c.isPlain = true) :
    Chained (d.apply (a.order b)) (d.apply (b.order c)) (d.apply (a.order c)) := by
  cases d with
  | asc => exact Value.order_chained a b c ha hb hc
  | desc =>
    simp only [apply, ← Value.order_swap a b, ← Value.order_swap b c, ← Value.order_swap a c]
    exact (Value.order_chained c b a hc hb ha).comm

end Direction

namespace SortPlan

variable {s : Store} {plan : SortPlan}

theorem orderIn_swap (s : Store) (plan : SortPlan) (a b : Document) :
    plan.orderIn s b a = (plan.orderIn s a b).swap := by
  induction plan with
  | nil => rfl
  | cons t ts ih => rw [orderIn, orderIn, Ordering.swap_then, t.direction.apply_swap, ih]

theorem orderIn_self (s : Store) (plan : SortPlan) (d : Document) : plan.orderIn s d d = .eq :=
  eq_of_eq_swap (orderIn_swap s plan d d)

theorem orderIn_chained {a b c : Document} (ha : plan.PlainAt s a) (hb : plan.PlainAt s b)
    (hc : plan.PlainAt s c) :
    Chained (plan.orderIn s a b) (plan.orderIn s b c) (plan.orderIn s a c) := by
  induction plan with
  | nil => exact Chained.of_eq
  | cons t ts ih =>
    refine (t.direction.apply_chained (ha t List.mem_cons_self) (hb t List.mem_cons_self)
      (hc t List.mem_cons_self)).then_ fun _ _ _ => ?_
    exact ih (fun x hx => ha x (List.mem_cons_of_mem t hx))
      (fun x hx => hb x (List.mem_cons_of_mem t hx)) fun x hx => hc x (List.mem_cons_of_mem t hx)

/-- **A plan orders** the documents whose values are plain. -/
theorem ordersOn_orderIn : OrdersOn (plan.orderIn s) (plan.PlainAt s) where
  swap _ _ := orderIn_swap ..
  trans ha hb hc hab hbc := (orderIn_chained ha hb hc hab hbc).1

/-! ### No ties -/

/-- The plan sorts by the id, among others. -/
def Closed (plan : SortPlan) : Prop := ∃ t ∈ plan, t.target = .field "id"

theorem closed_closed (terms : List SortTerm) : (closed terms).Closed := by
  rw [closed]
  split
  · rename_i h
    obtain ⟨t, ht, hid⟩ := List.any_eq_true.mp h
    exact ⟨t, ht, of_decide_eq_true hid⟩
  · exact ⟨⟨.field "id", .asc⟩, List.mem_append_right _ List.mem_cons_self, rfl⟩

theorem closed_of_resolve {sc : Schema} {sortBy : Option String} {ascending : Option Bool}
    (h : resolve sc sortBy ascending = .ok plan) : plan.Closed := by
  rw [resolve] at h
  split at h
  · cases h
    exact closed_closed _
  · rename_i name _
    cases ht : target sc name with
    | error e => rw [ht] at h; cases h
    | ok t =>
      rw [ht] at h
      cases h
      exact closed_closed _

theorem lookup?_id {d : Document} {k : Uuid} (h : d.value? "id" = some (Value.ofUuid k)) :
    d.lookup? "id" = some (Value.ofUuid k) := by
  rw [Document.lookup?, Text.segments_of_dotless (by decide), Document.follow?, h]
  rfl

/-- **Documents that are equal in order are one**, for they have one id. -/
theorem id_eq_of_orderIn (hp : plan.Closed) {a b : Document} {j k : Uuid}
    (ha : a.value? "id" = some (Value.ofUuid j)) (hb : b.value? "id" = some (Value.ofUuid k))
    (h : plan.orderIn s a b = .eq) : j = k := by
  obtain ⟨t, ht, hid⟩ := hp
  induction plan with
  | nil => cases ht
  | cons u us ih =>
    obtain ⟨hu, hus⟩ := Ordering.then_eq_eq.mp h
    rcases List.mem_cons.mp ht with rfl | ht
    · simp only [SortTerm.valueIn, hid, lookup?_id ha, lookup?_id hb, Option.getD_some] at hu
      have hbytes : compareBytes j.bytes k.bytes = .eq := by
        cases hd : t.direction <;> rw [hd] at hu
        · exact hu
        · exact Ordering.swap_eq_eq.mp hu
      cases j
      cases k
      cases eq_of_compareBytes hbytes
      rfl
    · exact ih hus ht

theorem eq_of_orderIn (hp : plan.Closed) {es : Entries} (hk : es.Keyed) {a b : Document}
    (ha : a ∈ es.documents) (hb : b ∈ es.documents) (h : plan.orderIn s a b = .eq) : a = b := by
  obtain ⟨⟨j, a⟩, hja, rfl⟩ := List.mem_map.mp ha
  obtain ⟨⟨k, b⟩, hkb, rfl⟩ := List.mem_map.mp hb
  obtain rfl := id_eq_of_orderIn hp (hk.id _ hja) (hk.id _ hkb) h
  exact Entries.eq_of_mem hk.nodup hja hkb

/-- **There is one list of documents in order.** -/
theorem sorted_unique (hp : plan.Closed) {es : Entries} (hk : es.Keyed) {l₁ l₂ : List Document}
    (hmem : ∀ d ∈ l₁, d ∈ es.documents)
    (h₁ : l₁.Pairwise fun a b => (plan.orderIn s a b).isLE = true)
    (h₂ : l₂.Pairwise fun a b => (plan.orderIn s a b).isLE = true) (hperm : l₁.Perm l₂) :
    l₁ = l₂ := by
  refine List.Perm.eq_of_pairwise (fun a b ha hb hab hba => ?_) h₁ h₂ hperm
  have hb := hperm.mem_iff.mpr hb
  rw [orderIn_swap] at hba
  have heq : plan.orderIn s a b = .eq := by
    cases h : plan.orderIn s a b with
    | eq => rfl
    | lt => rw [h] at hba; cases hba
    | gt => rw [h] at hab; cases hab
  exact eq_of_orderIn hp hk (hmem a ha) (hmem b hb) heq

/-! ### Two ways to sort -/

/-- **The store sorts in this order**, when it needs no other documents. -/
theorem orderDocuments_nativeKeys (h : plan.isNative = true) (s : Store) (a b : Document) :
    orderDocuments plan.nativeKeys a b = plan.orderIn s a b := by
  induction plan with
  | nil => rfl
  | cons t ts ih =>
    rw [isNative, List.all_cons, Bool.and_eq_true] at h
    obtain ⟨⟨path⟩ | ⟨idField, target, targetField⟩, direction⟩ := t
    · exact congrArg (Ordering.then _) (ih h.2)
    · exact absurd h.1 Bool.false_ne_true

/-- **The engine sorts in this order**, given the values of each document. -/
theorem compareKeys_map (s : Store) (plan : SortPlan) (a b : Document) :
    Collection.compareKeys plan (plan.map (·.valueIn s a)) (plan.map (·.valueIn s b)) =
      plan.orderIn s a b := by
  induction plan with
  | nil => rfl
  | cons t ts ih => exact congrArg (Ordering.then _) ih

/-- The values of the terms tell what the documents are sorted by. -/
def ValuesFor (s : Store) (ds : List Document) (t : SortTerm) (v : Collection.TermValues) : Prop :=
  ∀ d ∈ ds, Collection.sortValue d t v = t.valueIn s d

theorem zipWith_sortValue {ds : List Document} {values : List Collection.TermValues}
    (h : List.Forall₂ (ValuesFor s ds) plan values) {d : Document} (hd : d ∈ ds) :
    List.zipWith (Collection.sortValue d) plan values = plan.map (·.valueIn s d) := by
  induction h with
  | nil => rfl
  | cons ht _ ih => rw [List.zipWith_cons_cons, List.map_cons, ht d hd, ih]

theorem sortByKeys_perm (plan : SortPlan) (values : List Collection.TermValues)
    (ds : List Document) : (Collection.sortByKeys plan values ds).Perm ds := by
  rw [Collection.sortByKeys]
  refine ((sortBy_perm _ _).map Prod.snd).trans ?_
  rw [List.map_map]
  exact (List.map_id ds).symm ▸ List.Perm.refl ds

/-- A document together with the values that the plan sorts it by. -/
def Decorated (s : Store) (plan : SortPlan) (x : List Value × Document) : Prop :=
  x.1 = plan.map (·.valueIn s x.2) ∧ plan.PlainAt s x.2

theorem compareKeys_of_decorated {x y : List Value × Document} (hx : plan.Decorated s x)
    (hy : plan.Decorated s y) :
    Collection.compareKeys plan x.1 y.1 = plan.orderIn s x.2 y.2 := by
  rw [hx.1, hy.1, compareKeys_map]

theorem ordersOn_decorated :
    OrdersOn (fun x y => Collection.compareKeys plan x.1 y.1) (plan.Decorated s) where
  swap hx hy := by
    rw [compareKeys_of_decorated hx hy, compareKeys_of_decorated hy hx]
    exact orderIn_swap ..
  trans hx hy hz hxy hyz := by
    rw [compareKeys_of_decorated hx hy] at hxy
    rw [compareKeys_of_decorated hy hz] at hyz
    rw [compareKeys_of_decorated hx hz]
    exact ordersOn_orderIn.trans hx.2 hy.2 hz.2 hxy hyz

theorem sortByKeys_pairwise {ds : List Document} {values : List Collection.TermValues}
    (h : List.Forall₂ (ValuesFor s ds) plan values) (hplain : ∀ d ∈ ds, plan.PlainAt s d) :
    (Collection.sortByKeys plan values ds).Pairwise fun a b =>
      (plan.orderIn s a b).isLE = true := by
  rw [Collection.sortByKeys, List.pairwise_map]
  have hkeyed : ∀ x ∈ ds.map fun d => (List.zipWith (Collection.sortValue d) plan values, d),
      plan.Decorated s x := by
    intro x hx
    obtain ⟨d, hd, rfl⟩ := List.mem_map.mp hx
    exact ⟨zipWith_sortValue h hd, hplain d hd⟩
  refine (sortBy_pairwise ordersOn_decorated hkeyed).imp_of_mem fun hx hy hle => ?_
  rwa [compareKeys_of_decorated (hkeyed _ (mem_sortBy.mp hx)) (hkeyed _ (mem_sortBy.mp hy))] at hle

end SortPlan

end Registrar
