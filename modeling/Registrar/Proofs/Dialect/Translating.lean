import Mathlib.Data.List.Forall2
import Registrar.Dialect.Condition
import Registrar.Directory.Contact
import Registrar.Search.Filtering

/-!
# Searches in the query language

Documents in memory are tested against any filter, but the query language has words for fewer of
them: that a value starts or ends with an operand can be said of texts only. No search is compiled
into such a test of anything else but an id, since an operand for a field of ids is read as an id
before it is compared. So a search is refused exactly if one of its conditions asks how an id starts
or ends, and the refusal names the first such condition.

* `refusal?`: the first test in a filter that cannot be said.
* `outcome_condition`: a filter without such a test has its query document.
* `Schema.endOfId?`: what a condition asks of the start or the end of an id.
* `refusal?_of_filterOf`: the tests that a compiled search cannot be said with.
* `condition_filterOf_iff`: **a search can be said unless it asks for the start or the end of an
  id**.
-/

namespace Registrar

namespace Dialect

/-! ### What cannot be said -/

/-- The tests that can be said of texts only. -/
def needsTextOperand : Comparison → Bool
  | .startsWith | .endsWith => true
  | _ => false

mutual

/-- **The first test in a filter that cannot be said**, and the path that it is about. -/
def refusal? : Filter → Option (Comparison × String)
  | .and fs | .or fs => firstRefusal? fs
  | .not f => refusal? f
  | .present _ _ => none
  | .compare path test operand =>
    if needsTextOperand test && operand.string?.isNone then some (test, path) else none

def firstRefusal? : List Filter → Option (Comparison × String)
  | [] => none
  | f :: fs => (refusal? f).or (firstRefusal? fs)

end

/-- **What comes of a filter**: the refusal of its first test that cannot be said, or else a
result. -/
def Outcome {α : Type} (refused : Option (Comparison × String)) (m : Except StoreError α) : Prop :=
  match refused with
  | some (test, path) => m = .error (needsText test path)
  | none => ∃ a, m = .ok a

section

variable {α β : Type} {r r' : Option (Comparison × String)} {m : Except StoreError α}

theorem Outcome.ok (a : α) : Outcome none (.ok a : Except StoreError α) := ⟨a, rfl⟩

theorem Outcome.bind {k : α → Except StoreError β} (hm : Outcome r m)
    (hk : ∀ a, Outcome r' (k a)) : Outcome (r.or r') (m >>= k) := by
  cases r with
  | some x =>
    obtain rfl : m = .error (needsText x.1 x.2) := hm
    rfl
  | none =>
    obtain ⟨a, rfl⟩ := hm
    exact hk a

theorem Outcome.map (f : α → β) (hm : Outcome r m) : Outcome r (m >>= fun a => .ok (f a)) := by
  have hbind := hm.bind fun a => Outcome.ok (f a)
  rwa [Option.or_none] at hbind

theorem Outcome.exists_ok_iff (hm : Outcome r m) : (∃ a, m = .ok a) ↔ r = none := by
  cases r with
  | some x =>
    obtain rfl : m = .error (needsText x.1 x.2) := hm
    simp
  | none => exact iff_of_true hm rfl

end

theorem exists_of_bind_ok {ε α β : Type} {m : Except ε α} {k : α → Except ε β} {b : β}
    (h : (m >>= k) = .ok b) : ∃ a, m = .ok a ∧ k a = .ok b := by
  cases m with
  | error e => cases h
  | ok a => exact ⟨a, rfl, h⟩

theorem forall₂_of_mapM_ok {ε α β : Type} {F : α → Except ε β} {as : List α} {bs : List β}
    (h : as.mapM F = .ok bs) : List.Forall₂ (fun a b => F a = .ok b) as bs := by
  induction as generalizing bs with
  | nil =>
    cases h
    exact .nil
  | cons a as ih =>
    rw [List.mapM_cons] at h
    obtain ⟨b, hb, h⟩ := exists_of_bind_ok h
    obtain ⟨cs, hcs, h⟩ := exists_of_bind_ok h
    cases h
    exact .cons hb (ih hcs)

theorem pattern?_isSome (test : Comparison) (operand : Value) :
    (pattern? test operand).isSome = operand.string?.isSome := by
  cases operand <;> rfl

theorem outcome_fieldCondition (path : String) (test : Comparison) (operand : Value) :
    Outcome (refusal? (.compare path test operand)) (fieldCondition path test operand) := by
  have hpattern := pattern?_isSome test operand
  cases test with
  | startsWith | endsWith =>
    cases hs : operand.string? with
    | some text =>
      rw [hs] at hpattern
      obtain ⟨p, hp⟩ := Option.isSome_iff_exists.mp hpattern
      simp [refusal?, needsTextOperand, hs, fieldCondition, hp, Outcome]
    | none =>
      rw [hs] at hpattern
      have hp := Option.isSome_eq_false_iff.mp hpattern
      rw [Option.isNone_iff_eq_none] at hp
      simp [refusal?, needsTextOperand, hs, fieldCondition, hp, Outcome]
  | _ => exact ⟨_, rfl⟩

mutual

/-- **A filter without a test that cannot be said** has its query document. -/
theorem outcome_condition (f : Filter) : Outcome (refusal? f) (condition f) := by
  match f with
  | .and [] => exact ⟨_, rfl⟩
  | .and (f :: fs) => exact (outcome_conditions (f :: fs)).map _
  | .or [] => exact ⟨_, rfl⟩
  | .or (f :: fs) => exact (outcome_conditions (f :: fs)).map _
  | .not f => exact (outcome_condition f).map _
  | .present _ _ => exact ⟨_, rfl⟩
  | .compare path test operand => exact (outcome_fieldCondition path test operand).map _

theorem outcome_conditions (fs : List Filter) : Outcome (firstRefusal? fs) (conditions fs) := by
  match fs with
  | [] => exact ⟨_, rfl⟩
  | f :: fs => exact (outcome_condition f).bind fun _ => (outcome_conditions fs).map _

end

theorem outcome_conditionOrAll (f : Option Filter) :
    Outcome (f.bind refusal?) (conditionOrAll f) := by
  cases f with
  | none => exact ⟨_, rfl⟩
  | some f => exact outcome_condition f

theorem firstRefusal?_eq (fs : List Filter) : firstRefusal? fs = fs.findSome? refusal? := by
  induction fs with
  | nil => rfl
  | cons f fs ih =>
    rw [firstRefusal?, ih, List.findSome?_cons]
    cases refusal? f <;> rfl

theorem refusal?_all? (fs : List Filter) :
    (Filter.all? fs).bind refusal? = fs.findSome? refusal? := by
  match fs with
  | [] => rfl
  | [f] => cases h : refusal? f <;> simp [Filter.all?, h]
  | f :: g :: fs => exact firstRefusal?_eq _

theorem refusal?_any? (fs : List Filter) :
    (Filter.any? fs).bind refusal? = fs.findSome? refusal? := by
  match fs with
  | [] => rfl
  | [f] => cases h : refusal? f <;> simp [Filter.any?, h]
  | f :: g :: fs => exact firstRefusal?_eq _

end Dialect

open Dialect

/-! ### What conditions ask of ids -/

/-- The test of a start or an end that an operator stands for. -/
def SearchOperator.endTest? : SearchOperator → Option Comparison
  | .startsWith => some .startsWith
  | .endsWith => some .endsWith
  | _ => none

/-- What a condition on a field asks of the start or the end of an id: the field has to hold ids,
and the operand is a text, which is not empty and is taken for an id. -/
def Condition.endOf? (c : Condition) (path : String) (kind : FieldKind) :
    Option (Comparison × String) :=
  c.operator.endTest?.bind fun test =>
    if c.operands.isEmpty && (!c.operand.isEmpty &&
        (c.operand.string?.isSome && (kind = .id || kind = .idList))) then
      some (test, path)
    else none

/-- **What a condition of a search asks of the start or the end of an id.** -/
def Schema.endOfId? (s : Schema) (c : Condition) : Option (Comparison × String) :=
  if Text.isBlankText c.field then none
  else (s.searchable? (Text.trim c.field)).bind fun r => c.endOf? r.path r.kind

namespace Schema

variable {s : Schema} {c : Condition} {path : String} {kind : FieldKind}

theorem refusal?_unset (path : String) (kind : FieldKind) : refusal? (kind.unset path) = none := by
  cases kind <;> rfl

theorem refusal?_of_noEnd {operator : SearchOperator} (h : operator.endTest? = none) {v : Value}
    {f : Filter} (hf : comparisonFilter path kind operator v = .ok f) : refusal? f = none := by
  have hnot : refusal? (.not (kind.unset path)) = none := refusal?_unset path kind
  unfold comparisonFilter at hf
  split at hf <;> cases hf <;> first
    | exact refusal?_unset path kind
    | exact hnot
    | rfl
    | (split <;> rfl)
    | exact absurd h (by simp [SearchOperator.endTest?])

theorem refusal?_of_end {operator : SearchOperator} {test : Comparison}
    (h : operator.endTest? = some test) {v : Value} {f : Filter}
    (hf : comparisonFilter path kind operator v = .ok f) :
    v.array? = none ∧ refusal? f = if v.string?.isNone then some (test, path) else none := by
  cases operator <;> cases h <;> cases v <;> cases hf <;> exact ⟨rfl, rfl⟩

/-- **What an operand becomes** for a field in which texts can be sought: a text, except for a
field of ids. -/
theorem string?_of_toValue {o : Operand} {v : Value} (ho : o.isEmpty = false)
    (hkind : kind.acceptsText = true) (hv : o.toValue kind = .ok v) (harray : v.array? = none) :
    v.string?.isNone = (o.string?.isSome && (kind = .id || kind = .idList)) := by
  cases o with
  | null => cases ho
  | list items =>
    rw [Operand.toValue] at hv
    cases hitems : items.mapM (Operand.ofText · kind.element) with
    | error e =>
      rw [hitems] at hv
      cases hv
    | ok vs =>
      rw [hitems] at hv
      cases hv
      cases harray
  | string text =>
    cases kind with
    | integer | float | bool | dateTime => cases hkind
    | id | idList =>
      simp only [Operand.toValue, FieldKind.element, Operand.ofText, Operand.readText?] at hv
      cases hid : Uuid.parse? (Text.trim text) with
      | none => rw [hid] at hv; cases hv
      | some u => rw [hid] at hv; cases hv; rfl
    | string | list | map | object => cases hv; rfl
  | bool b | number d =>
    cases kind with
    | integer | float | bool | dateTime => cases hkind
    | id | idList | map | object => simp [Operand.toValue, FieldKind.element] at hv
    | string | list =>
      simp only [Operand.toValue, FieldKind.element, Except.ok.injEq] at hv
      subst hv
      rfl
  | dateTime ms =>
    cases kind with
    | integer | float | bool | dateTime => cases hkind
    | _ => simp [Operand.toValue, FieldKind.element] at hv

/-- **A comparison that is made** can be said, unless it is of the start or the end of an id. -/
theorem refusal?_of_comparison {v : Value} {f : Filter}
    (hvoid : ¬ (c.operand.isEmpty && !c.operator.acceptsEmpty) = true)
    (htext : ¬ (c.operator.isTextual && !kind.acceptsText) = true)
    (hv : operandValue c kind = .ok v) (hf : comparisonFilter path kind c.operator v = .ok f) :
    refusal? f = c.operator.endTest?.bind fun test =>
      if !c.operand.isEmpty && (c.operand.string?.isSome && (kind = .id || kind = .idList)) then
        some (test, path)
      else none := by
  cases hend : c.operator.endTest? with
  | none => exact refusal?_of_noEnd hend hf
  | some test =>
    obtain ⟨hoperand, haccepts, hvalue⟩ : c.operand.isEmpty = false ∧ kind.acceptsText = true ∧
        c.operand.toValue kind = .ok v := by
      unfold operandValue at hv
      cases hop : c.operator <;>
        simp_all [SearchOperator.endTest?, SearchOperator.acceptsEmpty, SearchOperator.isTextual]
    obtain ⟨harray, hrefusal⟩ := refusal?_of_end hend hf
    rw [hrefusal, string?_of_toValue hoperand haccepts hvalue harray]
    simp only [hoperand, Bool.not_false, Bool.true_and, Option.bind_some]

/-- **A condition on a known field** can be said, unless it asks for the start or the end of an
id. -/
theorem refusal?_of_conditionFilter {f : Option Filter} (h : conditionFilter c path kind = .ok f) :
    f.bind refusal? = c.endOf? path kind := by
  rw [conditionFilter] at h
  rw [Condition.endOf?]
  split at h
  next hoperands =>
    have hsome : c.operands.isEmpty = false := by simpa using hoperands
    obtain ⟨vs, -, h⟩ := exists_of_bind_ok h
    cases h
    simp only [hsome, Bool.false_and, Bool.false_eq_true, if_false, Option.bind_fun_none]
    rfl
  next hoperands =>
    have hnone : c.operands.isEmpty = true := by simpa using hoperands
    simp only [hnone, Bool.true_and]
    split at h
    next hvoid =>
      cases h
      rw [Bool.and_eq_true] at hvoid
      simp [hvoid.1]
    next hvoid =>
      split at h
      next htext =>
        cases h
        rw [Bool.and_eq_true] at htext
        have hkind : (kind = .id || kind = .idList) = false := by
          cases kind <;> simp [FieldKind.acceptsText] at htext ⊢
        simp [hkind]
      next htext =>
        obtain ⟨v, hv, h⟩ := exists_of_bind_ok h
        obtain ⟨g, hg, h⟩ := exists_of_bind_ok h
        cases h
        exact refusal?_of_comparison hvoid htext hv hg

/-- **A condition that can be compiled** can be said, unless it asks for the start or the end of an
id. -/
theorem refusal?_of_condition {f : Option Filter} (hnamed : Text.isBlankText c.field = false)
    (h : s.filterOfCondition c = .ok f) : f.bind refusal? = s.endOfId? c := by
  rw [filterOfCondition] at h
  simp only [endOfId?, hnamed, Bool.false_eq_true, if_false]
  cases hr : s.searchable? (Text.trim c.field) with
  | none => rw [hr] at h; cases h
  | some r =>
    rw [hr] at h
    exact refusal?_of_conditionFilter h

theorem refusal?_of_filtersOfConditions {cs : List Condition} {fs : List (Option Filter)}
    (hnamed : ∀ c ∈ cs, Text.isBlankText c.field = false)
    (h : List.Forall₂ (fun c f => s.filterOfCondition c = .ok f) cs fs) :
    (fs.filterMap id).findSome? refusal? = cs.findSome? s.endOfId? := by
  induction h with
  | nil => rfl
  | cons hf _ ih =>
    obtain ⟨hfirst, hrest⟩ := List.forall_mem_cons.mp hnamed
    rw [List.findSome?_cons, ← refusal?_of_condition hfirst hf, ← ih hrest]
    cases ‹Option Filter› <;> rfl

theorem findSome?_named (cs : List Condition) :
    (cs.filter fun c => !Text.isBlankText c.field).findSome? s.endOfId? =
      cs.findSome? s.endOfId? := by
  induction cs with
  | nil => rfl
  | cons c cs ih =>
    cases hblank : Text.isBlankText c.field with
    | true => simp [hblank, endOfId?, ih]
    | false => simp [hblank, List.findSome?_cons, ih]

theorem refusal?_of_filterOfConditions {cs : List Condition} {combinator : Combinator}
    {f : Option Filter} (h : s.filterOfConditions cs combinator = .ok f) :
    f.bind refusal? = cs.findSome? s.endOfId? := by
  obtain ⟨fs, hfs, h⟩ := exists_of_bind_ok h
  have hparts := refusal?_of_filtersOfConditions (by simp) (forall₂_of_mapM_ok hfs)
  rw [← findSome?_named, ← hparts]
  cases combinator with
  | and => cases h; exact refusal?_all? _
  | or => cases h; exact refusal?_any? _

theorem refusal?_of_filterOfText? {text : String} {f : Filter}
    (h : s.filterOfText? text = some f) : refusal? f = none := by
  rw [filterOfText?] at h
  obtain ⟨⟨test, term⟩, -, h⟩ := Option.bind_eq_some_iff.mp h
  have hsaid : ∀ name, refusal? (.compare name test (.string term)) = none := fun name => by
    simp [refusal?, Value.string?]
  dsimp only at h
  split at h
  next => cases h
  next => cases h; exact hsaid _
  next names _ =>
    have hany := refusal?_any? (names.map fun name => .compare name test (.string term))
    rw [h, Option.bind_some] at hany
    rw [hany, List.findSome?_eq_none_iff]
    simp [hsaid]

theorem refusal?_of_filterOfReference {r : ReferenceCondition} {f : Filter}
    (h : s.filterOfReference r = .ok f) : refusal? f = none := by
  rw [filterOfReference] at h
  split at h <;> cases h
  rfl

theorem refusal?_of_filterOfReferences {rs : List ReferenceCondition} {f : Option Filter}
    (h : s.filterOfReferences rs = .ok f) : f.bind refusal? = none := by
  obtain ⟨fs, hfs, h⟩ := exists_of_bind_ok h
  cases h
  rw [refusal?_all?]
  have hparts := forall₂_of_mapM_ok hfs
  clear h hfs
  generalize rs.filter (fun r => !r.ids.isEmpty) = named at hparts
  induction hparts with
  | nil => rfl
  | cons hf _ ih =>
    rw [List.findSome?_cons, refusal?_of_filterOfReference hf]
    exact ih

/-- **The tests that a compiled search cannot be said with** are those that its conditions make of
the start or the end of ids. -/
theorem refusal?_of_filterOf {p : Inquiry} {f : Option Filter} (h : s.filterOf p = .ok f) :
    f.bind refusal? = p.conditions.findSome? s.endOfId? := by
  obtain ⟨conditions, hconditions, h⟩ := exists_of_bind_ok h
  obtain ⟨references, hreferences, h⟩ := exists_of_bind_ok h
  cases h
  have htexts : (([p.query, p.name].filterMap (·.bind s.filterOfText?)).findSome? refusal?) =
      none := by
    simp only [List.findSome?_eq_none_iff, List.mem_filterMap, Option.bind_eq_some_iff]
    rintro f ⟨_, -, text, -, htext⟩
    exact refusal?_of_filterOfText? htext
  rw [refusal?_all?, List.findSome?_append, List.findSome?_append, htexts]
  rw [← refusal?_of_filterOfConditions hconditions]
  have hreferences := refusal?_of_filterOfReferences hreferences
  cases conditions <;> cases references <;> simp_all

/-- **A search that can be compiled** can be said unless one of its conditions asks for the start
or the end of an id, and then the first such condition is refused. Documents in memory are tested
against it in any case, since `Filter.holds` answers for every filter. -/
theorem condition_filterOf_iff {p : Inquiry} {f : Option Filter} (h : s.filterOf p = .ok f) :
    ((∃ d, conditionOrAll f = .ok d) ↔ ∀ c ∈ p.conditions, s.endOfId? c = none) ∧
      ∀ test path, p.conditions.findSome? s.endOfId? = some (test, path) →
        conditionOrAll f = .error (needsText test path) := by
  have houtcome := outcome_conditionOrAll f
  rw [refusal?_of_filterOf h] at houtcome
  refine ⟨?_, fun test path hfirst => ?_⟩
  · rw [houtcome.exists_ok_iff, List.findSome?_eq_none_iff]
  · rw [hfirst] at houtcome
    exact houtcome

end Schema

namespace Directory

/-- The search for the contacts whose manager's id starts with a whole id. -/
def managerStarts : Inquiry where
  conditions := [{
    field := "manager_id"
    operator := .startsWith
    operand := .string "00000000-0000-4000-8000-000000000033" }]

/-- **This search is compiled**, and cannot be said. -/
theorem managerStarts_refused :
    ∃ f, Contact.schema.filterOf managerStarts = .ok f ∧
      (¬ ∃ d, conditionOrAll f = .ok d) ∧
        conditionOrAll f =
          .error (.invalidQuery "StartsWith on 'manager_id' requires a string value") := by
  have hcompiled : (Contact.schema.filterOf managerStarts).toOption.isSome = true := by
    decide +kernel
  have hfirst : managerStarts.conditions.findSome? Contact.schema.endOfId? =
      some (.startsWith, "manager_id") := by decide +kernel
  cases hf : Contact.schema.filterOf managerStarts with
  | error e =>
    rw [hf] at hcompiled
    cases hcompiled
  | ok f =>
    obtain ⟨hiff, hrefused⟩ := Schema.condition_filterOf_iff hf
    refine ⟨f, rfl, fun hsaid => ?_, hrefused _ _ hfirst⟩
    rw [List.findSome?_eq_none_iff.mpr (hiff.mp hsaid)] at hfirst
    cases hfirst

end Directory

end Registrar
