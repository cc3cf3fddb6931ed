import Registrar.Directory.Contact
import Registrar.Filter.Evaluate
import Registrar.Proofs.Dialect.Translating
import Registrar.Proofs.Double.Whole
import Registrar.Search.Filtering

/-!
# Conditions as sets of documents

A condition stands for the documents that meet its filter. Then *equal* and *not equal* are
complements of each other, and so are *unset* and *set*: both are refused alike, or both have a
filter and each document meets exactly one of the two. A list of operands is the union of what its
members ask for one by one, and it is refused when one of them is.

The last part rests on two facts about operands. What a single operand becomes has no parts, so the
filter for it is a test of equality; and equality with a value without parts is symmetric, so it
does not matter that a membership test compares its members with the candidates and the test of
equality the candidates with its operand.

* `Opposed`: refused alike, or complements.
* `Operand.isSingle`, `Value.isAtom`: operands and values without parts.
* `Value.equalTo_comm_of_isAtom`: equality with such a value is symmetric.
* `holds_anyOf_iff`: membership is equality with some member.
* `Schema.conditions_complement`: the three laws.
-/

namespace Registrar

open Dialect (exists_of_bind_ok forall₂_of_mapM_ok)

/-! ### Values without parts -/

/-- A truth value, a number, a text, bytes, or a time. -/
def Value.isAtom : Value → Bool
  | .bool _ | .int64 _ | .double _ | .string _ | .binary _ _ | .dateTime _ => true
  | _ => false

/-- An operand that is neither null nor a list. -/
def Operand.isSingle : Operand → Bool
  | .null | .list _ => false
  | _ => true

namespace Value

variable {v : Value}

theorem equalTo_of_isAtom (hv : v.isAtom = true) (c : Value) :
    v.equalTo c = v.scalarEqualTo c ∧ c.equalTo v = c.scalarEqualTo v := by
  cases v with
  | bool | int64 | double | string | binary | dateTime =>
    exact ⟨by simp only [equalTo], by cases c <;> simp only [equalTo]⟩
  | _ => cases hv

theorem scalarEqualTo_comm_of_isAtom (hv : v.isAtom = true) (c : Value) :
    v.scalarEqualTo c = c.scalarEqualTo v := by
  cases v with
  | bool | int64 | double | string | binary | dateTime =>
    cases c <;> simp only [scalarEqualTo, number?, Bool.beq_comm, Double.same_comm]
  | _ => cases hv

/-- **Equality with a value without parts is symmetric.** -/
theorem equalTo_comm_of_isAtom (hv : v.isAtom = true) (c : Value) : v.equalTo c = c.equalTo v := by
  obtain ⟨hleft, hright⟩ := equalTo_of_isAtom hv c
  rw [hleft, hright, scalarEqualTo_comm_of_isAtom hv]

end Value

namespace Operand

variable {o : Operand} {kind : FieldKind} {v : Value}

theorem isAtom_of_readText? {text : String} (h : readText? text kind = some v) :
    v.isAtom = true := by
  cases kind <;> simp only [readText?, Option.map_eq_some_iff, Option.some.injEq] at h
  case string | list | map | object => subst h; rfl
  all_goals
    obtain ⟨_, -, rfl⟩ := h
    rfl

/-- **A single operand becomes a value without parts.** -/
theorem isAtom_of_toValue (ho : o.isSingle = true) (h : o.toValue kind = .ok v) :
    v.isAtom = true := by
  cases o with
  | null | list => cases ho
  | string text =>
    rw [toValue, ofText] at h
    split at h
    case h_1 w hw => cases h; exact isAtom_of_readText? hw
    case h_2 => cases h
  | number d =>
    simp only [toValue] at h
    split at h
    case h_1 =>
      split at h
      · cases h; rfl
      · cases h
    case h_4 => cases h
    all_goals cases h; rfl
  | bool b | dateTime ms =>
    simp only [toValue] at h
    split at h
    all_goals cases h
    all_goals rfl

theorem spread_of_isAtom (hv : v.isAtom = true) : spread v = [v] := by
  cases v with
  | array items => cases hv
  | _ => rfl

end Operand

/-! ### Complements -/

/-- **Two answers to a condition are opposed**: both are the same refusal, or both are filters and
each document meets exactly one of them. -/
def Opposed (a b : Except StoreError (Option Filter)) : Prop :=
  (∃ e, a = .error e ∧ b = .error e) ∨
    ∃ f g, a = .ok (some f) ∧ b = .ok (some g) ∧ ∀ d, g.holds d = !f.holds d

namespace Condition

/-- The field is equal to the operand. -/
def equals (field : String) (operand : Operand) : Condition :=
  { field, operator := .equalTo, operand }

/-- The field is not equal to the operand. -/
def differs (field : String) (operand : Operand) : Condition :=
  { field, operator := .notEqualTo, operand }

/-- The field is unset, whatever the operand. -/
def isUnset (field : String) (operand : Operand) : Condition :=
  { field, operator := .isEmpty, operand }

/-- The field is set, whatever the operand. -/
def isSet (field : String) (operand : Operand) : Condition :=
  { field, operator := .isNotEmpty, operand }

end Condition

namespace Schema

variable (path : String) (kind : FieldKind)

theorem comparisonFilter_opposed (v : Value) :
    ∃ f g, comparisonFilter path kind .equalTo v = .ok f ∧
      comparisonFilter path kind .notEqualTo v = .ok g ∧ ∀ d, g.holds d = !f.holds d := by
  cases v with
  | null => exact ⟨_, _, rfl, rfl, fun d => by rw [Filter.holds]⟩
  | array vs =>
    refine ⟨_, _, rfl, rfl, fun d => ?_⟩
    simp only [Filter.noneOf, Filter.anyOf, Filter.holds, Comparison.holds]
  | _ =>
    refine ⟨_, _, rfl, rfl, fun d => ?_⟩
    simp only [Filter.ne, Filter.eq, Filter.holds, Comparison.holds]

theorem conditionFilter_equals (field : String) (o : Operand) :
    conditionFilter (.equals field o) path kind =
      (o.toValue kind >>= fun v =>
        comparisonFilter path kind .equalTo v >>= fun f => .ok (some f)) := by
  simp [conditionFilter, Condition.equals, SearchOperator.acceptsEmpty, SearchOperator.isTextual,
    operandValue, pure, Except.pure]

theorem conditionFilter_differs (field : String) (o : Operand) :
    conditionFilter (.differs field o) path kind =
      (o.toValue kind >>= fun v =>
        comparisonFilter path kind .notEqualTo v >>= fun f => .ok (some f)) := by
  simp [conditionFilter, Condition.differs, SearchOperator.acceptsEmpty, SearchOperator.isTextual,
    operandValue, pure, Except.pure]

theorem conditionFilter_opposed (field : String) (o : Operand) :
    Opposed (conditionFilter (.equals field o) path kind)
      (conditionFilter (.differs field o) path kind) := by
  rw [conditionFilter_equals, conditionFilter_differs]
  cases ho : o.toValue kind with
  | error e => exact .inl ⟨e, rfl, rfl⟩
  | ok v =>
    obtain ⟨f, g, hf, hg, hfg⟩ := comparisonFilter_opposed path kind v
    exact .inr ⟨f, g, by simp [hf, bind, Except.bind], by simp [hg, bind, Except.bind], hfg⟩

theorem conditionFilter_isUnset (field : String) (o : Operand) :
    conditionFilter (.isUnset field o) path kind = .ok (some (kind.unset path)) ∧
      conditionFilter (.isSet field o) path kind = .ok (some (.not (kind.unset path))) := by
  simp [conditionFilter, Condition.isUnset, Condition.isSet, SearchOperator.acceptsEmpty,
    SearchOperator.isTextual, operandValue, comparisonFilter, bind, Except.bind, pure, Except.pure]

theorem conditionFilter_isUnset_opposed (field : String) (o : Operand) :
    Opposed (conditionFilter (.isUnset field o) path kind)
      (conditionFilter (.isSet field o) path kind) := by
  obtain ⟨hunset, hset⟩ := conditionFilter_isUnset path kind field o
  exact .inr ⟨_, _, hunset, hset, fun d => by rw [Filter.holds]⟩

end Schema

/-! ### Membership -/

section

variable {ε α β : Type} {F : α → Except ε β} {as : List α} {bs : List β}

theorem mapM_error_iff : (∃ e, as.mapM F = .error e) ↔ ∃ a ∈ as, ∃ e, F a = .error e := by
  induction as with
  | nil => simp [pure, Except.pure]
  | cons a as ih =>
    rw [List.mapM_cons]
    simp only [List.mem_cons, exists_eq_or_imp]
    rw [← ih]
    cases ha : F a with
    | error e => simp [bind, Except.bind]
    | ok b =>
      cases has : as.mapM F with
      | error e => simp [bind, Except.bind]
      | ok bs => simp [bind, Except.bind, pure, Except.pure]

theorem bind_ok_error_iff {m : Except ε α} {k : α → β} :
    (∃ e, (m >>= fun a => .ok (k a)) = .error e) ↔ ∃ e, m = .error e := by
  cases m with
  | error e => exact ⟨fun _ => ⟨e, rfl⟩, fun _ => ⟨e, rfl⟩⟩
  | ok a => simp [bind, Except.bind]

theorem mem_iff_of_mapM_ok (h : as.mapM F = .ok bs) (b : β) : b ∈ bs ↔ ∃ a ∈ as, F a = .ok b := by
  have hall := forall₂_of_mapM_ok h
  clear h
  induction hall with
  | nil => simp
  | cons hab _ ih =>
    simp only [List.mem_cons, exists_eq_or_imp, hab, ih, Except.ok.injEq]
    exact or_congr_left eq_comm

end

theorem Operand.toValues_of_singles {os : List Operand} {kind : FieldKind}
    (hos : ∀ o ∈ os, o.isSingle = true) :
    Operand.toValues os kind = os.mapM (Operand.toValue · kind) := by
  rw [Operand.toValues]
  cases hvs : os.mapM (Operand.toValue · kind) with
  | error e => rfl
  | ok vs =>
    have hspread : vs.flatMap Operand.spread = vs.flatMap fun v => [v] := by
      apply List.flatMap_congr
      intro v hv
      obtain ⟨o, ho, hov⟩ := (mem_iff_of_mapM_ok hvs v).1 hv
      exact Operand.spread_of_isAtom (Operand.isAtom_of_toValue (hos o ho) hov)
    exact congrArg Except.ok (hspread.trans (List.flatMap_singleton' vs))

/-- **Membership is equality with some member**, when no member has parts. -/
theorem holds_anyOf_iff {path : String} {vs : List Value} {d : Document}
    (hvs : ∀ v ∈ vs, v.isAtom = true) :
    (Filter.anyOf path vs).holds d = true ↔ ∃ v ∈ vs, (Filter.eq path v).holds d = true := by
  simp only [Filter.anyOf, Filter.eq, Filter.holds, Comparison.holds, Value.options,
    List.any_eq_true]
  constructor
  · rintro ⟨c, hc, v, hv, hvc⟩
    exact ⟨v, hv, c, hc, by rwa [← Value.equalTo_comm_of_isAtom (hvs v hv)]⟩
  · rintro ⟨v, hv, c, hc, hcv⟩
    exact ⟨c, hc, v, hv, by rwa [Value.equalTo_comm_of_isAtom (hvs v hv)]⟩

namespace Schema

variable {path : String} {kind : FieldKind} {c : Condition}

theorem conditionFilter_operands (hc : c.operands ≠ []) :
    conditionFilter c path kind =
      (Operand.toValues c.operands kind >>= fun vs => .ok (some (.anyOf path vs))) := by
  simp [conditionFilter, hc, pure, Except.pure]

theorem conditionFilter_equals_of_single (field : String) {o : Operand} (ho : o.isSingle = true) :
    conditionFilter (.equals field o) path kind =
      (o.toValue kind >>= fun v => .ok (some (.eq path v))) := by
  rw [conditionFilter_equals]
  cases hv : o.toValue kind with
  | error e => rfl
  | ok v =>
    have hatom := Operand.isAtom_of_toValue ho hv
    cases v with
    | null | array => cases hatom
    | _ => rfl

theorem conditionFilter_operands_error_iff (hc : c.operands ≠ [])
    (hsingle : ∀ o ∈ c.operands, o.isSingle = true) :
    (∃ e, conditionFilter c path kind = .error e) ↔
      ∃ o ∈ c.operands, ∃ e, conditionFilter (.equals c.field o) path kind = .error e := by
  rw [conditionFilter_operands hc, Operand.toValues_of_singles hsingle, bind_ok_error_iff,
    mapM_error_iff]
  refine exists_congr fun o => and_congr_right fun ho => ?_
  rw [conditionFilter_equals_of_single _ (hsingle o ho), bind_ok_error_iff]

theorem holds_conditionFilter_operands_iff (hc : c.operands ≠ [])
    (hsingle : ∀ o ∈ c.operands, o.isSingle = true) {x : Option Filter}
    (hx : conditionFilter c path kind = .ok x) :
    ∃ f, x = some f ∧ ∀ d, f.holds d = true ↔ ∃ o ∈ c.operands, ∃ g,
      conditionFilter (.equals c.field o) path kind = .ok (some g) ∧ g.holds d = true := by
  rw [conditionFilter_operands hc, Operand.toValues_of_singles hsingle] at hx
  obtain ⟨vs, hvs, hx⟩ := exists_of_bind_ok hx
  cases hx
  have hatoms : ∀ v ∈ vs, v.isAtom = true := by
    intro v hv
    obtain ⟨o, ho, hov⟩ := (mem_iff_of_mapM_ok hvs v).1 hv
    exact Operand.isAtom_of_toValue (hsingle o ho) hov
  refine ⟨_, rfl, fun d => ?_⟩
  rw [holds_anyOf_iff hatoms]
  constructor
  · rintro ⟨v, hv, hd⟩
    obtain ⟨o, ho, hov⟩ := (mem_iff_of_mapM_ok hvs v).1 hv
    refine ⟨o, ho, _, ?_, hd⟩
    rw [conditionFilter_equals_of_single _ (hsingle o ho), hov]
    rfl
  · rintro ⟨o, ho, g, hg, hd⟩
    rw [conditionFilter_equals_of_single _ (hsingle o ho)] at hg
    obtain ⟨v, hov, hg⟩ := exists_of_bind_ok hg
    cases hg
    exact ⟨v, (mem_iff_of_mapM_ok hvs v).2 ⟨o, ho, hov⟩, hd⟩

/-! ### The laws -/

theorem filterOfCondition_of_some {s : Schema} {r : CanonicalPath}
    (hr : s.searchable? (Text.trim c.field) = some r) :
    s.filterOfCondition c = conditionFilter c r.path r.kind := by
  rw [filterOfCondition, hr]

theorem filterOfCondition_of_none {s : Schema} (hr : s.searchable? (Text.trim c.field) = none) :
    s.filterOfCondition c = .error
      (.invalidQuery ("Unknown search field '" ++ c.field ++ "' for " ++ s.collection)) := by
  rw [filterOfCondition, hr]

/-- **Conditions on a field as sets of documents.** For every operand *equal* and *not equal* are
opposed, and so are *unset* and *set*, which do not look at it. A condition with single operands is
refused when the equality with one of them is, and otherwise stands for the union of what those
equalities stand for. -/
theorem conditions_complement (s : Schema) (field : String) :
    (∀ o, Opposed (s.filterOfCondition (.equals field o))
      (s.filterOfCondition (.differs field o))) ∧
    (∀ o, Opposed (s.filterOfCondition (.isUnset field o))
      (s.filterOfCondition (.isSet field o))) ∧
    ∀ c : Condition, c.field = field → c.operands ≠ [] →
      (∀ o ∈ c.operands, o.isSingle = true) →
      ((∃ e, s.filterOfCondition c = .error e) ↔
        ∃ o ∈ c.operands, ∃ e, s.filterOfCondition (.equals field o) = .error e) ∧
      ∀ x, s.filterOfCondition c = .ok x → ∃ f, x = some f ∧ ∀ d, f.holds d = true ↔
        ∃ o ∈ c.operands, ∃ g,
          s.filterOfCondition (.equals field o) = .ok (some g) ∧ g.holds d = true := by
  cases hr : s.searchable? (Text.trim field) with
  | some r =>
    have hfilter : ∀ c : Condition, c.field = field →
        s.filterOfCondition c = conditionFilter c r.path r.kind := by
      rintro c rfl
      exact filterOfCondition_of_some hr
    refine ⟨fun o => ?_, fun o => ?_, ?_⟩
    · rw [hfilter _ rfl, hfilter _ rfl]
      exact conditionFilter_opposed r.path r.kind field o
    · rw [hfilter _ rfl, hfilter _ rfl]
      exact conditionFilter_isUnset_opposed r.path r.kind field o
    · rintro c rfl hc hsingle
      simp only [hfilter _ rfl, hfilter (.equals c.field _) rfl]
      exact ⟨conditionFilter_operands_error_iff hc hsingle,
        fun x hx => holds_conditionFilter_operands_iff hc hsingle hx⟩
  | none =>
    -- Every condition on a field that cannot be searched is refused, and in the same words.
    have hrefused : ∀ c : Condition, c.field = field → s.filterOfCondition c = .error
        (.invalidQuery ("Unknown search field '" ++ field ++ "' for " ++ s.collection)) := by
      rintro c rfl
      exact filterOfCondition_of_none hr
    refine ⟨fun o => .inl ⟨_, hrefused _ rfl, hrefused _ rfl⟩,
      fun o => .inl ⟨_, hrefused _ rfl, hrefused _ rfl⟩, ?_⟩
    · rintro c rfl hc -
      obtain ⟨o, ho⟩ := List.exists_mem_of_ne_nil _ hc
      refine ⟨?_, fun x hx => ?_⟩
      · exact ⟨fun _ => ⟨o, ho, _, hrefused _ rfl⟩, fun _ => ⟨_, hrefused _ rfl⟩⟩
      · rw [hrefused _ rfl] at hx
        cases hx

end Schema

namespace Directory

/-- The contacts with one of two first names. -/
def annOrBea : Condition := .oneOf "first_name" [.string "Ann", .string "Bea"]

/-- **The two names together** are sought by one filter, which a contact meets when it has one of
them. -/
theorem annOrBea_union :
    (∀ o ∈ annOrBea.operands, o.isSingle = true) ∧
      ∃ f, Contact.schema.filterOfCondition annOrBea = .ok (some f) ∧
        ∀ d, f.holds d = true ↔ ∃ o ∈ annOrBea.operands, ∃ g,
          Contact.schema.filterOfCondition (.equals "first_name" o) = .ok (some g) ∧
            g.holds d = true := by
  have hsingle : ∀ o ∈ annOrBea.operands, o.isSingle = true := by decide
  obtain ⟨-, -, hunion⟩ := Schema.conditions_complement Contact.schema "first_name"
  obtain ⟨-, hfilter⟩ := hunion annOrBea rfl (by decide) hsingle
  have hcompiled : (Contact.schema.filterOfCondition annOrBea).toOption.isSome = true := by
    decide +kernel
  cases hx : Contact.schema.filterOfCondition annOrBea with
  | error e =>
    rw [hx] at hcompiled
    cases hcompiled
  | ok x =>
    obtain ⟨f, rfl, hf⟩ := hfilter x hx
    exact ⟨hsingle, f, rfl, hf⟩

end Directory

end Registrar
