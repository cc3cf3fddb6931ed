import Registrar.Proofs.Dialect.MappedKeys
import Registrar.Proofs.Value.Agreement

/-!
# Agreement is an equivalence, but for NaN

The lenient sense of equality is symmetric and transitive on all values. It is reflexive on the
values that hold no NaN, at any depth, and on no others: a NaN differs from itself, and with it
every list and every document that it is in.

* `Value.inductionOn`: induction on values, through lists and documents.
* `Value.nanFree`: no NaN is in the value.
* `agrees_symm`, `agrees_trans`: agreement is symmetric and transitive.
* `agrees_self_iff`: the values that agree with themselves.
-/

namespace Registrar

namespace Value

/-- **Induction on values**: a value without parts, a list of values, a document of values. -/
theorem inductionOn {P : Value → Prop} (v : Value)
    (scalar : ∀ v : Value, v.array? = none → v.document? = none → P v)
    (array : ∀ items : List Value, (∀ x ∈ items, P x) → P (.array items))
    (document : ∀ fields : Document, (∀ f ∈ fields, P f.2) → P (.document fields)) : P v := by
  match v with
  | .array items => exact array items fun x hx => inductionOn x scalar array document
  | .document fields => exact document fields fun f hf => inductionOn f.2 scalar array document
  | .null | .undefined | .minKey | .maxKey | .bool _ | .int32 _ | .int64 _ | .double _
  | .decimal128 _ | .string _ | .symbol _ | .code _ | .binary _ _ | .objectId _ | .dateTime _
  | .timestamp _ _ => exact scalar _ rfl rfl
termination_by sizeOf v
decreasing_by
  · have hlt := List.sizeOf_lt_of_mem hx
    rw [Value.array.sizeOf_spec]
    omega
  · have hlt := List.sizeOf_lt_of_mem hf
    have hpair : sizeOf f = 1 + sizeOf f.1 + sizeOf f.2 := by
      obtain ⟨k, x⟩ := f
      rfl
    rw [Value.document.sizeOf_spec]
    omega

/-! ### Members -/

theorem itemsDistinct_iff {items : List Value} :
    ItemsDistinct items ↔ ∀ v ∈ items, v.KeysDistinct := by
  induction items with
  | nil => simp [ItemsDistinct]
  | cons v r ih => rw [ItemsDistinct, ih, List.forall_mem_cons]

theorem fieldsDistinct_iff {fields : List (String × Value)} :
    FieldsDistinct fields ↔ ∀ f ∈ fields, f.2.KeysDistinct := by
  induction fields with
  | nil => simp [FieldsDistinct]
  | cons f r ih => rw [FieldsDistinct, ih, List.forall_mem_cons]

mutual

/-- **No NaN is in the value**, at any depth. -/
def nanFree : Value → Bool
  | .double d => !d.isNaN
  | .array items => itemsNanFree items
  | .document fields => fieldsNanFree fields
  | _ => true

def itemsNanFree : List Value → Bool
  | [] => true
  | v :: r => nanFree v && itemsNanFree r

def fieldsNanFree : List (String × Value) → Bool
  | [] => true
  | (_, v) :: r => nanFree v && fieldsNanFree r

end

theorem itemsNanFree_iff {items : List Value} :
    itemsNanFree items = true ↔ ∀ v ∈ items, v.nanFree = true := by
  induction items with
  | nil => simp [itemsNanFree]
  | cons v r ih => rw [itemsNanFree, Bool.and_eq_true, ih, List.forall_mem_cons]

theorem fieldsNanFree_iff {fields : List (String × Value)} :
    fieldsNanFree fields = true ↔ ∀ f ∈ fields, f.2.nanFree = true := by
  induction fields with
  | nil => simp [fieldsNanFree]
  | cons f r ih => rw [fieldsNanFree, Bool.and_eq_true, ih, List.forall_mem_cons]

/-! ### Values without parts -/

variable {a b c v : Value}

theorem agrees_scalar (harray : a.array? = none) (hdocument : a.document? = none) (b : Value) :
    a.agrees b = agreesScalar a b := by
  rw [agrees]
  · rintro _ _ rfl
    cases harray
  · rintro _ _ rfl
    cases hdocument

theorem agrees_of_agreesScalar (h : agreesScalar a b = true) : a.agrees b = true := by
  fun_cases agrees a b with
  | case1 as bs => cases h
  | case2 fs gs => cases h
  | case3 a b ha hd => exact h

theorem scalar_of_number? {x : Double} (h : a.number? = some x) :
    a.array? = none ∧ a.document? = none := by
  cases a <;> simp_all [number?, array?, document?]

/-- **Values without parts agree** when they are equal numbers, or one value that is no number. -/
theorem agreesScalar_iff : agreesScalar a b = true ↔
    (∃ x y, a.number? = some x ∧ b.number? = some y ∧ x.same y = true) ∨
      (a = b ∧ a.number? = none ∧ a.array? = none ∧ a.document? = none) := by
  constructor
  · intro h
    rw [agreesScalar] at h
    split at h
    · rename_i x y hx hy
      exact .inl ⟨x, y, hx, hy, h⟩
    · rename_i hnumbers
      have heq := eq_of_sameScalar h hnumbers
      subst heq
      refine .inr ⟨rfl, ?_⟩
      cases a <;> simp_all [number?, array?, document?, sameScalar]
  · rintro (⟨x, y, hx, hy, hsame⟩ | ⟨rfl, hnumber, harray, hdocument⟩)
    · rw [agreesScalar, hx, hy]
      exact hsame
    · rw [← agrees_scalar harray hdocument]
      exact agrees_self hnumber harray hdocument

/-- **A value without parts** agrees with itself unless it is a NaN. -/
theorem agrees_self_scalar (harray : v.array? = none) (hdocument : v.document? = none) :
    v.agrees v = true ↔ v.nanFree = true := by
  cases v with
  | array => cases harray
  | document => cases hdocument
  | int32 n | int64 n =>
    have hnan := Double.isNaN_ofInt n.toInt
    simp_all [agrees, agreesScalar, number?, nanFree, Double.same_iff, Double.isNaN]
  | double d => simp [agrees, agreesScalar, number?, nanFree, Double.same_iff, Double.isNaN]
  | _ => simp [agrees, agreesScalar, number?, sameScalar, nanFree]

/-! ### Symmetry -/

theorem eq_array_of_agrees {as : List Value} (h : (Value.array as).agrees b = true) :
    ∃ bs, b = .array bs := by
  cases b with
  | array bs => exact ⟨bs, rfl⟩
  | _ => simp [agrees, agreesScalar, number?, sameScalar] at h

theorem eq_document_of_agrees {fs : Document} (h : (Value.document fs).agrees b = true) :
    ∃ gs, b = .document gs := by
  cases b with
  | document gs => exact ⟨gs, rfl⟩
  | _ => simp [agrees, agreesScalar, number?, sameScalar] at h

theorem arrays_agree_iff {as bs : List Value} : (Value.array as).agrees (.array bs) = true ↔
    List.Forall₂ (fun a b => a.agrees b = true) as bs := by
  rw [agrees, agreesItems_iff]

theorem documents_agree_iff {fs gs : Document} : (Value.document fs).agrees (.document gs) = true ↔
    (∀ f ∈ fs, f.2.agrees (gs.valueOrNull f.1) = true) ∧
      ∀ g ∈ gs, (fs.valueOrNull g.1).agrees g.2 = true := by
  simp [agrees, agreesEach_iff, agreesAt_eq]

theorem valueOrNull_agrees {fs gs : Document}
    (h : (Value.document fs).agrees (.document gs) = true) (key : String) :
    (fs.valueOrNull key).agrees (gs.valueOrNull key) = true := by
  obtain ⟨_, heq, hkeys⟩ := agrees_document h
  cases heq
  exact hkeys key

/-- What holds of null and of the fields of a document holds under each key. -/
theorem valueOrNull_induction {P : Value → Prop} {d : Document} (hnull : P .null)
    (hfields : ∀ f ∈ d, P f.2) (key : String) : P (d.valueOrNull key) := by
  rw [Document.valueOrNull]
  cases h : d.value? key with
  | none => exact hnull
  | some x => exact hfields _ (Document.mem_of_value? h)

theorem null_agrees_iff : (Value.null).agrees v = true ↔ v = .null := by
  rw [agrees_null]
  cases v <;> simp [isNull]

theorem agrees_symm (h : a.agrees b = true) : b.agrees a = true := by
  induction a using inductionOn generalizing b with
  | scalar a harray hdocument =>
    rw [agrees_scalar harray hdocument, agreesScalar_iff] at h
    refine agrees_of_agreesScalar (agreesScalar_iff.mpr ?_)
    rcases h with ⟨x, y, hx, hy, hsame⟩ | ⟨rfl, hscalar⟩
    · exact .inl ⟨y, x, hy, hx, by rwa [Double.same_comm]⟩
    · exact .inr ⟨rfl, hscalar⟩
  | array as ih =>
    obtain ⟨bs, rfl⟩ := eq_array_of_agrees h
    rw [arrays_agree_iff] at h ⊢
    induction h with
    | nil => exact .nil
    | cons hab _ ihrest =>
      rw [List.forall_mem_cons] at ih
      exact .cons (ih.1 hab) (ihrest ih.2)
  | document fs ih =>
    obtain ⟨gs, rfl⟩ := eq_document_of_agrees h
    have hkey : ∀ key y, (Document.valueOrNull fs key).agrees y = true →
        y.agrees (Document.valueOrNull fs key) = true := by
      intro key
      refine valueOrNull_induction (P := fun x => ∀ y, x.agrees y = true → y.agrees x = true) ?_
        (fun f hf y => ih f hf) key
      intro y hy
      rw [null_agrees_iff.mp hy]
      exact null_agrees_iff.mpr rfl
    rw [documents_agree_iff] at h ⊢
    constructor
    · intro g hg
      exact hkey g.1 g.2 (h.2 g hg)
    · intro f hf
      exact ih f hf (h.1 f hf)

/-! ### Transitivity -/

theorem agrees_trans (hab : a.agrees b = true) (hbc : b.agrees c = true) : a.agrees c = true := by
  induction a using inductionOn generalizing b c with
  | scalar a harray hdocument =>
    rw [agrees_scalar harray hdocument, agreesScalar_iff] at hab
    rcases hab with ⟨x, y, hx, hy, hxy⟩ | ⟨rfl, -⟩
    · obtain ⟨hba, hbd⟩ := scalar_of_number? hy
      rw [agrees_scalar hba hbd, agreesScalar_iff] at hbc
      refine agrees_of_agreesScalar (agreesScalar_iff.mpr (.inl ?_))
      rcases hbc with ⟨y', z, hy', hz, hyz⟩ | ⟨rfl, hnumber, -⟩
      · have heq : y' = y := Option.some.inj (hy'.symm.trans hy)
        subst heq
        rw [Double.same_iff] at hxy hyz
        exact ⟨x, z, hx, hz, Double.same_iff.mpr ⟨hxy.1.trans hyz.1, hxy.2⟩⟩
      · rw [hnumber] at hy
        cases hy
    · exact hbc
  | array as ih =>
    obtain ⟨bs, rfl⟩ := eq_array_of_agrees hab
    obtain ⟨cs, rfl⟩ := eq_array_of_agrees hbc
    rw [arrays_agree_iff] at hab hbc ⊢
    induction hab generalizing cs with
    | nil =>
      cases hbc
      exact .nil
    | cons hx _ ihrest =>
      cases hbc with
      | cons hy hrest =>
        rw [List.forall_mem_cons] at ih
        exact .cons (ih.1 hx hy) (ihrest ih.2 _ hrest)
  | document fs ih =>
    obtain ⟨gs, rfl⟩ := eq_document_of_agrees hab
    obtain ⟨hs, rfl⟩ := eq_document_of_agrees hbc
    have hkey : ∀ key y z, (Document.valueOrNull fs key).agrees y = true → y.agrees z = true →
        (Document.valueOrNull fs key).agrees z = true := by
      intro key
      refine valueOrNull_induction
        (P := fun x => ∀ y z, x.agrees y = true → y.agrees z = true → x.agrees z = true) ?_
        (fun f hf y z => ih f hf) key
      intro y z hy hz
      rwa [null_agrees_iff.mp hy] at hz
    refine documents_agree_iff.mpr ⟨?_, ?_⟩
    · intro f hf
      exact ih f hf ((documents_agree_iff.mp hab).1 f hf) (valueOrNull_agrees hbc f.1)
    · intro h hh
      exact hkey h.1 _ _ (valueOrNull_agrees hab h.1) ((documents_agree_iff.mp hbc).2 h hh)

/-! ### Reflexivity -/

theorem agrees_self_document_iff {fs : Document} (hnodup : fs.keys.Nodup) :
    (Value.document fs).agrees (.document fs) = true ↔ ∀ f ∈ fs, f.2.agrees f.2 = true := by
  constructor
  · intro h f hf
    have hself := (documents_agree_iff.mp h).1 f hf
    rwa [Document.valueOrNull, Document.value?_of_mem hnodup hf, Option.getD_some] at hself
  · exact agrees_self_document hnodup

/-- **A value agrees with itself** just if no NaN is in it. -/
theorem agrees_self_iff (hv : v.KeysDistinct) : v.agrees v = true ↔ v.nanFree = true := by
  induction v using inductionOn with
  | scalar v harray hdocument => exact agrees_self_scalar harray hdocument
  | array items ih =>
    rw [KeysDistinct, itemsDistinct_iff] at hv
    rw [nanFree, itemsNanFree_iff, agrees, agreesItems_iff, List.forall₂_same]
    exact forall₂_congr fun x hx => ih x hx (hv x hx)
  | document fields ih =>
    rw [KeysDistinct, fieldsDistinct_iff] at hv
    rw [nanFree, fieldsNanFree_iff, agrees_self_document_iff hv.1]
    exact forall₂_congr fun f hf => ih f hf (hv.2 f hf)

end Value

end Registrar
