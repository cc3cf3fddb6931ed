import Mathlib.Data.List.Forall2
import Registrar.Proofs.Double.Whole
import Registrar.Value.Equality

/-!
# Values that agree

The lenient sense of equality goes through documents and lists. Documents agree when what they hold
under each key does, a missing field counting as null; lists agree item by item; and of two values
without parts that agree either both are numbers or they are equal.

* `agrees_document`: documents that agree, key by key.
* `agrees_array_iff`: lists that agree, item by item.
* `eq_of_agrees`: values without parts that agree.
* `agrees_self_document`: documents that agree with themselves.
-/

namespace Registrar

namespace Document

variable {d : Document} {key : String} {v : Value}

theorem mem_of_value? (h : d.value? key = some v) : (key, v) ∈ d := by
  induction d with
  | nil => cases h
  | cons f r ih =>
    obtain ⟨k, x⟩ := f
    rw [value?] at h
    split at h
    · rename_i heq
      cases h
      rw [heq]
      exact List.mem_cons_self
    · exact List.mem_cons_of_mem _ (ih h)

theorem value?_of_mem (hnodup : d.keys.Nodup) (h : (key, v) ∈ d) : d.value? key = some v := by
  induction d with
  | nil => cases h
  | cons f r ih =>
    obtain ⟨k, x⟩ := f
    rw [keys, List.map_cons, List.nodup_cons] at hnodup
    rw [value?]
    rcases List.mem_cons.mp h with heq | h
    · obtain ⟨rfl, rfl⟩ := Prod.mk.inj heq
      exact if_pos rfl
    · have hne : k ≠ key := by
        rintro rfl
        exact hnodup.1 (List.mem_map.mpr ⟨_, h, rfl⟩)
      rw [if_neg hne, ih hnodup.2 h]

end Document

namespace Value

/-! ### Values without parts -/

theorem eq_of_sameScalar {a b : Value} (h : sameScalar a b = true)
    (hnumbers : ∀ x y, a.number? = some x → b.number? = some y → False) : a = b := by
  unfold sameScalar at h
  split at h <;> simp_all [number?]

/-- **A value without parts** agrees with itself only, or numbers agree. -/
theorem eq_of_agrees {a b : Value} (harray : b.array? = none) (hdocument : b.document? = none)
    (h : a.agrees b = true) : (a.number?.isSome = true ∧ b.number?.isSome = true) ∨ a = b := by
  rw [agrees, agreesScalar] at h
  · split at h
    · rename_i x y hx hy
      exact .inl ⟨by rw [hx]; rfl, by rw [hy]; rfl⟩
    · rename_i hnumbers
      exact .inr (eq_of_sameScalar h hnumbers)
  · rintro _ _ _ rfl
    cases harray
  · rintro _ _ _ rfl
    cases hdocument

theorem agrees_self {v : Value} (hnumber : v.number? = none) (harray : v.array? = none)
    (hdocument : v.document? = none) : v.agrees v = true := by
  cases v with
  | int32 | int64 | double => cases hnumber
  | array => cases harray
  | document => cases hdocument
  | _ => simp [agrees, agreesScalar, number?, sameScalar]

/-- **Integers that agree** are equal, if they are exact as doubles. -/
theorem agrees_ofInt {a b : Value} {m n : Int} (ha : a.number? = some (Double.ofInt m))
    (hb : b.number? = some (Double.ofInt n)) (hm : m.natAbs < Double.wholeBound)
    (hn : n.natAbs < Double.wholeBound) : a.agrees b = true ↔ m = n := by
  rw [agrees, agreesScalar, ha, hb]
  · exact Double.same_ofInt hm hn
  · rintro _ _ rfl
    cases ha
  · rintro _ _ rfl
    cases ha

theorem natAbs_toInt_lt (n : Int32) : n.toInt.natAbs < Double.wholeBound := by
  have := n.le_toInt
  have := n.toInt_lt
  rw [Double.wholeBound]
  omega

theorem agrees_null (v : Value) : (Value.null).agrees v = v.isNull := by
  cases v <;> simp [agrees, agreesScalar, number?, sameScalar, isNull]

theorem eq_null_of_agrees {v : Value} (h : v.agrees .null = true) : v = .null := by
  rcases eq_of_agrees rfl rfl h with ⟨-, hnumber⟩ | heq
  · cases hnumber
  · exact heq

/-! ### Lists -/

theorem agreesItems_iff {as bs : List Value} :
    agreesItems as bs = true ↔ List.Forall₂ (fun a b => a.agrees b = true) as bs := by
  induction as generalizing bs with
  | nil => cases bs <;> simp [agreesItems]
  | cons a as ih => cases bs <;> simp [agreesItems, ih]

/-- **Lists agree** item by item, and with lists only. -/
theorem agrees_array_iff {v : Value} {bs : List Value} : v.agrees (.array bs) = true ↔
    ∃ as, v = .array as ∧ List.Forall₂ (fun a b => a.agrees b = true) as bs := by
  cases v with
  | array as => simp [agrees, agreesItems_iff]
  | _ => simp [agrees, agreesScalar, number?, sameScalar]

/-! ### Documents -/

theorem agreesEach_iff {fs : List (String × Value)} {gs : Document} :
    agreesEach fs gs = true ↔ ∀ f ∈ fs, f.2.agrees (gs.valueOrNull f.1) = true := by
  induction fs with
  | nil => simp [agreesEach]
  | cons f fs ih => rw [agreesEach, Bool.and_eq_true, ih, List.forall_mem_cons]

theorem agreesAt_eq (fs : Document) (key : String) (w : Value) :
    agreesAt fs key w = (fs.valueOrNull key).agrees w := by
  induction fs with
  | nil =>
    rw [agreesAt, Document.valueOrNull, Document.value?, Option.getD_none, agrees_null]
  | cons f fs ih =>
    rw [agreesAt, Document.valueOrNull, Document.value?]
    split
    · rfl
    · exact ih

/-- **A document agrees with documents only**: each field with the field of its key on the other
side. -/
theorem agrees_document_iff {v : Value} {gs : Document} : v.agrees (.document gs) = true ↔
    ∃ fs, v = .document fs ∧ (∀ f ∈ fs, f.2.agrees (gs.valueOrNull f.1) = true) ∧
      ∀ g ∈ gs, (Document.valueOrNull fs g.1).agrees g.2 = true := by
  cases v with
  | document fs => simp [agrees, agreesEach_iff, agreesAt_eq]
  | _ => simp [agrees, agreesScalar, number?, sameScalar]

/-- **Documents that agree** do so under each key. -/
theorem agrees_document {v : Value} {gs : Document} (h : v.agrees (.document gs) = true) :
    ∃ fs, v = .document fs ∧
      ∀ key, (Document.valueOrNull fs key).agrees (gs.valueOrNull key) = true := by
  obtain ⟨fs, rfl, hleft, hright⟩ := agrees_document_iff.mp h
  refine ⟨fs, rfl, fun key => ?_⟩
  cases hf : Document.value? fs key with
  | some x =>
    rw [Document.valueOrNull, hf]
    exact hleft _ (Document.mem_of_value? hf)
  | none =>
    cases hg : Document.value? gs key with
    | some y =>
      rw [Document.valueOrNull, Document.valueOrNull, hf, hg]
      have hy := hright _ (Document.mem_of_value? hg)
      rwa [Document.valueOrNull, hf] at hy
    | none =>
      rw [Document.valueOrNull, Document.valueOrNull, hf, hg, Option.getD_none, agrees_null]
      rfl

/-- **A document agrees with itself** if no key is repeated and its fields do. -/
theorem agrees_self_document {fs : Document} (hnodup : fs.keys.Nodup)
    (h : ∀ f ∈ fs, f.2.agrees f.2 = true) : (Value.document fs).agrees (.document fs) = true := by
  have hvalue : ∀ f ∈ fs, fs.valueOrNull f.1 = f.2 := fun f hf => by
    rw [Document.valueOrNull, Document.value?_of_mem hnodup hf, Option.getD_some]
  refine agrees_document_iff.mpr ⟨fs, rfl, fun f hf => ?_, fun f hf => ?_⟩
  · rw [hvalue f hf]
    exact h f hf
  · rw [hvalue f hf]
    exact h f hf

end Value

end Registrar
