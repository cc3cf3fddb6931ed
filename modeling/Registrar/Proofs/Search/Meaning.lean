import Registrar.Proofs.Search.Complements

/-!
# What a search means

A search is compiled to one filter, in which parts that restrict nothing are left out and trivial
combinations are folded. This module says what a search asks of a document without speaking of
filters that are put together: of its conditions, of each free text, and of each reference. The
compiled filter is met by exactly the documents of which all of this is true, and the compilation
fails for two reasons only.

* `Filter.admits_all?_iff`, `Filter.admits_any?_iff`: folded combinations mean what plain ones do.
* `FreeText.Asks`, `FreeText.Answers`: what a free text seeks.
* `Schema.ConditionsMet`, `Schema.TextMet`, `Schema.ReferenceMet`: what the parts ask.
* `Schema.filterOf_means`: the compiled search.
-/

namespace Registrar

open Dialect (exists_of_bind_ok)

/-! ### Combined filters -/

namespace Filter

variable {d : Document} {fs gs : List Filter} {f : Option Filter}

theorem holdsAll_iff : holdsAll d fs = true ↔ ∀ f ∈ fs, holds d f = true := by
  induction fs with
  | nil => simp [holdsAll]
  | cons f fs ih => simp [holdsAll, ih]

theorem holdsAny_iff : holdsAny d fs = true ↔ ∃ f ∈ fs, holds d f = true := by
  induction fs with
  | nil => simp [holdsAny]
  | cons f fs ih => simp [holdsAny, ih]

theorem forall_mem_toList_iff : (∀ g ∈ f.toList, holds d g = true) ↔ admits f d = true := by
  cases f <;> simp [admits]

/-- **All of the conditions**, also when there is none of them or only one. -/
theorem admits_all?_iff : admits (all? fs) d = true ↔ ∀ f ∈ fs, holds d f = true := by
  match fs with
  | [] => simp [all?, admits]
  | [f] => simp [all?, admits]
  | f :: g :: fs =>
    have hall : all? (f :: g :: fs) = some (.and (f :: g :: fs)) := rfl
    rw [hall, admits, holds, holdsAll_iff]

/-- **Any of the conditions**; when there is none, nothing is asked. -/
theorem admits_any?_iff :
    admits (any? fs) d = true ↔ fs = [] ∨ ∃ f ∈ fs, holds d f = true := by
  match fs with
  | [] => simp [any?, admits]
  | [f] => simp [any?, admits]
  | f :: g :: fs =>
    have hany : any? (f :: g :: fs) = some (.or (f :: g :: fs)) := rfl
    rw [hany, admits, holds, holdsAny_iff]
    simp

end Filter

/-! ### Values under a path -/

/-- **The values that a search finds under a path**: those that the path reaches, and the items of
those that are lists. -/
def Document.valuesAt (d : Document) (path : String) : List Value :=
  (d.reached path).flatMap Value.withItems

/-- A test that null does not pass is passed by a candidate when a value that is found passes it. -/
theorem Document.any_candidates {d : Document} {path : String} {test : Value → Bool}
    (hnull : test .null = false) :
    (d.candidates path).any test = true ↔ ∃ v ∈ d.valuesAt path, test v = true := by
  rw [Document.candidates, ← List.any_eq_true, Document.valuesAt]
  split
  case h_1 h => simp [h, hnull]
  case h_2 => rfl

/-! ### Conditions -/

namespace Condition

/-- A condition that names a field; others ask for nothing. -/
def IsNamed (c : Condition) : Prop := Text.isBlankText c.field = false

end Condition

namespace Schema

/-- **The conditions are met**: all of those that have a filter, or some of them, when there are
any. -/
def ConditionsMet (s : Schema) (p : Inquiry) (d : Document) : Prop :=
  match p.combinator with
  | .and => ∀ c ∈ p.conditions, c.IsNamed → ∀ f,
      s.filterOfCondition c = .ok (some f) → f.holds d = true
  | .or =>
    (∃ c ∈ p.conditions, c.IsNamed ∧ ∃ f,
      s.filterOfCondition c = .ok (some f) ∧ f.holds d = true) ∨
    ∀ c ∈ p.conditions, c.IsNamed → ∀ f, s.filterOfCondition c ≠ .ok (some f)

variable {s : Schema} {p : Inquiry} {d : Document} {f : Option Filter}

theorem filterOfConditions_error_iff (cs : List Condition) (combinator : Combinator) :
    (∃ e, s.filterOfConditions cs combinator = .error e) ↔
      ∃ c ∈ cs, c.IsNamed ∧ ∃ e, s.filterOfCondition c = .error e := by
  have hbind := bind_ok_error_iff (m := (cs.filter fun c => !Text.isBlankText c.field).mapM
    s.filterOfCondition) (k := fun parts => match combinator with
      | .and => Filter.all? (parts.filterMap id)
      | .or => Filter.any? (parts.filterMap id))
  rw [filterOfConditions]
  refine hbind.trans (mapM_error_iff.trans ?_)
  simp only [List.mem_filter, Bool.not_eq_true', and_assoc, Condition.IsNamed]

/-- **The filter of the conditions** admits the documents that meet them. -/
theorem admits_filterOfConditions_iff
    (h : s.filterOfConditions p.conditions p.combinator = .ok f) :
    Filter.admits f d = true ↔ s.ConditionsMet p d := by
  obtain ⟨parts, hparts, h⟩ := exists_of_bind_ok h
  have hmem : ∀ g, g ∈ parts.filterMap id ↔
      ∃ c ∈ p.conditions, c.IsNamed ∧ s.filterOfCondition c = .ok (some g) := by
    intro g
    simp only [List.mem_filterMap, id, exists_eq_right, mem_iff_of_mapM_ok hparts, List.mem_filter,
      Bool.not_eq_true', and_assoc, Condition.IsNamed]
  rw [ConditionsMet]
  cases hcombinator : p.combinator with
  | and =>
    rw [hcombinator] at h
    cases h
    rw [Filter.admits_all?_iff]
    exact ⟨fun hall c hc hnamed g hg => hall g ((hmem g).2 ⟨c, hc, hnamed, hg⟩),
      fun hmet g hg => by
        obtain ⟨c, hc, hnamed, hg⟩ := (hmem g).1 hg
        exact hmet c hc hnamed g hg⟩
  | or =>
    rw [hcombinator] at h
    cases h
    rw [Filter.admits_any?_iff, or_comm, List.eq_nil_iff_forall_not_mem]
    refine or_congr ?_ ?_
    · constructor
      · rintro ⟨g, hg, hd⟩
        obtain ⟨c, hc, hnamed, hg⟩ := (hmem g).1 hg
        exact ⟨c, hc, hnamed, g, hg, hd⟩
      · rintro ⟨c, hc, hnamed, g, hg, hd⟩
        exact ⟨g, (hmem g).2 ⟨c, hc, hnamed, hg⟩, hd⟩
    · constructor
      · intro hnone c hc hnamed g hg
        exact hnone g ((hmem g).2 ⟨c, hc, hnamed, hg⟩)
      · intro hnone g hg
        obtain ⟨c, hc, hnamed, hg⟩ := (hmem g).1 hg
        exact hnone c hc hnamed g hg

end Schema

/-! ### Free texts -/

namespace FreeText

/-- A free text that begins with `%` is sought anywhere in a name, any other at its start. -/
def isMarked (text : String) : Bool := (Text.trimChars text.toList).head? == some '%'

/-- **The term of a free text**: what is left of it without the blanks around it and the mark. -/
def term (text : String) : String :=
  if isMarked text then String.ofList (Text.trimChars (Text.trimChars text.toList).tail)
  else Text.trim text

/-- **A free text asks for something** unless it is a lone `*` or has no term. -/
def Asks (text : String) : Prop := Text.trim text ≠ "*" ∧ term text ≠ ""

/-- **A name answers a free text** when it begins with the term, or contains it when the text is
marked, case not counting. -/
def Answers (text name : String) : Prop :=
  if isMarked text then (Text.lower (term text)).toList <:+: (Text.lower name).toList
  else (Text.lower (term text)).toList <+: (Text.lower name).toList

theorem asks_iff {text : String} :
    Asks text ↔ Text.trimChars text.toList ≠ ['*'] ∧ (term text).toList ≠ [] := by
  have hstar : Text.trim text = "*" ↔ Text.trimChars text.toList = ['*'] := by
    rw [← String.toList_inj, Text.toList_trim]
    rfl
  have hempty : term text = "" ↔ (term text).toList = [] := by
    rw [← String.toList_inj]
    rfl
  rw [Asks, Ne, Ne, hstar, hempty]

theorem soughtText?_eq_some_iff {text : String} {test : Comparison} {sought : String} :
    Schema.soughtText? text = some (test, sought) ↔
      Asks text ∧ (if isMarked text then .contains else .startsWith) = test ∧
        term text = sought := by
  rw [asks_iff, Schema.soughtText?, term, isMarked, Text.trim]
  generalize Text.trimChars text.toList = trimmed
  dsimp only
  split
  case isTrue hstar => simp [hstar]
  case isFalse hstar =>
    split
    case h_1 rest =>
      by_cases hrest : Text.trimChars rest = []
      · simp [hrest]
      · simp [hrest]
    case h_2 hunmarked =>
      have hhead : (trimmed.head? == some '%') = false := by
        cases trimmed with
        | nil => rfl
        | cons c rest => simpa using fun hc => hunmarked rest (by rw [hc])
      by_cases hempty : trimmed = []
      · simp [hempty]
      · simp [hhead, hempty, hstar]

end FreeText

namespace Value

theorem occursIn_iff {needle hay : List Char} :
    occursIn needle hay = true ↔ needle <:+: hay := by
  induction hay with
  | nil => simp [occursIn]
  | cons c cs ih =>
    rw [occursIn, Bool.or_eq_true, List.isPrefixOf_iff_prefix, ih, List.infix_cons_iff]

theorem matchesText_iff {text : String} {v : Value} :
    v.matchesText (if FreeText.isMarked text then .contains else .startsWith)
      (FreeText.term text) = true ↔ ∃ name, v = .string name ∧ FreeText.Answers text name := by
  cases v with
  | string name =>
    simp only [Value.string.injEq, exists_eq_left', matchesText, FreeText.Answers]
    cases FreeText.isMarked text with
    | true => exact occursIn_iff
    | false => exact List.isPrefixOf_iff_prefix
  | _ => simp [matchesText]

end Value

namespace Schema

/-- The fields in which free texts are sought. -/
def textFields (s : Schema) : List String :=
  match s.nameSearch with
  | .none => []
  | .field name => [name]
  | .fields names => names

/-- **A free text is met** when it asks for nothing, or no field is searched for texts, or some
field that is has a text that answers it. -/
def TextMet (s : Schema) (text : String) (d : Document) : Prop :=
  FreeText.Asks text → s.textFields = [] ∨
    ∃ field ∈ s.textFields, ∃ name, .string name ∈ d.valuesAt field ∧ FreeText.Answers text name

variable {s : Schema} {d : Document}

theorem filterOfText?_eq (s : Schema) (text : String) :
    s.filterOfText? text = (soughtText? text).bind fun sought =>
      Filter.any? (s.textFields.map fun name => .compare name sought.1 (.string sought.2)) := by
  rw [filterOfText?, textFields]
  cases s.nameSearch <;> rfl

theorem holds_text_iff {text field : String} :
    Filter.holds d (.compare field (if FreeText.isMarked text then .contains else .startsWith)
      (.string (FreeText.term text))) = true ↔
      ∃ name, .string name ∈ d.valuesAt field ∧ FreeText.Answers text name := by
  have hany : Filter.holds d (.compare field
      (if FreeText.isMarked text then .contains else .startsWith)
      (.string (FreeText.term text))) = (d.candidates field).any fun v =>
        v.matchesText (if FreeText.isMarked text then .contains else .startsWith)
          (FreeText.term text) := by
    rw [Filter.holds]
    cases FreeText.isMarked text <;> rfl
  rw [hany, Document.any_candidates rfl]
  simp only [Value.matchesText_iff]
  constructor
  · rintro ⟨_, hv, name, rfl, hname⟩
    exact ⟨name, hv, hname⟩
  · rintro ⟨name, hv, hname⟩
    exact ⟨_, hv, name, rfl, hname⟩

/-- **The filter of a free text** admits the documents that meet it. -/
theorem admits_filterOfText?_iff {text : String} :
    Filter.admits (s.filterOfText? text) d = true ↔ s.TextMet text d := by
  rw [filterOfText?_eq, TextMet]
  cases hsought : soughtText? text with
  | none =>
    have hasks : ¬ FreeText.Asks text := by
      intro hasks
      have hsome := FreeText.soughtText?_eq_some_iff.2 ⟨hasks, rfl, rfl⟩
      rw [hsought] at hsome
      cases hsome
    exact iff_of_true rfl fun h => absurd h hasks
  | some sought =>
    obtain ⟨hasks, htest, hterm⟩ := FreeText.soughtText?_eq_some_iff.1 hsought
    rw [Option.bind_some, Filter.admits_any?_iff, List.map_eq_nil_iff, ← htest, ← hterm]
    simp only [List.mem_map, exists_exists_and_eq_and, holds_text_iff, hasks, true_imp_iff]

end Schema

/-! ### References -/

namespace Schema

/-- A field that holds the ids of other entities. -/
def IsReferenceField (s : Schema) (name : String) (f : Field) : Prop :=
  s.field? name = some f ∧ (f.kind = .id ∨ f.kind = .idList)

/-- **A reference condition is met** when it has no ids, or its field has a value that is equal to
one of them, by itself or among its items. -/
def ReferenceMet (s : Schema) (r : ReferenceCondition) (d : Document) : Prop :=
  r.ids ≠ [] → ∃ f, s.IsReferenceField r.field f ∧
    ∃ v ∈ d.valuesAt f.name, ∃ id ∈ r.ids, v.equalTo (Value.ofUuid id) = true

variable {s : Schema} {d : Document}

theorem filterOfReference_ok_iff {r : ReferenceCondition} {g : Filter} :
    s.filterOfReference r = .ok g ↔ ∃ f, s.IsReferenceField r.field f ∧
      .compare f.name .anyOf (Value.ofUuids r.ids) = g := by
  have hfield : ∀ f, (s.field? r.field).filter (fun f => f.kind = .id ∨ f.kind = .idList) = some f ↔
      s.IsReferenceField r.field f := by
    intro f
    rw [Option.filter_eq_some_iff, decide_eq_true_iff, IsReferenceField]
  rw [filterOfReference]
  cases hf : (s.field? r.field).filter (fun f => f.kind = .id ∨ f.kind = .idList) with
  | some f =>
    rw [Except.ok.injEq]
    constructor
    · exact fun h => ⟨f, (hfield f).1 hf, h⟩
    · rintro ⟨f', hf', h⟩
      rwa [Option.some_inj.1 (hf.symm.trans ((hfield f').2 hf'))]
  | none =>
    refine iff_of_false (by simp) ?_
    rintro ⟨f, hf', -⟩
    rw [(hfield f).2 hf'] at hf
    cases hf

theorem filterOfReference_error_iff {r : ReferenceCondition} :
    (∃ e, s.filterOfReference r = .error e) ↔ ¬ ∃ f, s.IsReferenceField r.field f := by
  cases hr : s.filterOfReference r with
  | ok g =>
    obtain ⟨f, hf, -⟩ := filterOfReference_ok_iff.1 hr
    exact iff_of_false (fun ⟨_, h⟩ => nomatch h) (not_not_intro ⟨f, hf⟩)
  | error e =>
    refine iff_of_true ⟨e, rfl⟩ ?_
    rintro ⟨f, hf⟩
    rw [filterOfReference_ok_iff.2 ⟨f, hf, rfl⟩] at hr
    cases hr

theorem holds_anyOf_ids_iff {path : String} {ids : List Uuid} :
    Filter.holds d (.compare path .anyOf (Value.ofUuids ids)) = true ↔
      ∃ v ∈ d.valuesAt path, ∃ id ∈ ids, v.equalTo (Value.ofUuid id) = true := by
  rw [Filter.holds, Comparison.holds, Document.any_candidates]
  · simp only [Value.ofUuids, Value.options, List.any_map, List.any_eq_true, Function.comp_apply,
      Value.equalTo_comm_of_isAtom (v := Value.ofUuid _) rfl]
  · simp [Value.ofUuids, Value.options, Value.ofUuid, Value.equalTo, Value.scalarEqualTo,
      Value.number?]

theorem filterOfReferences_error_iff {rs : List ReferenceCondition} :
    (∃ e, s.filterOfReferences rs = .error e) ↔
      ∃ r ∈ rs, r.ids ≠ [] ∧ ¬ ∃ f, s.IsReferenceField r.field f := by
  rw [filterOfReferences]
  refine bind_ok_error_iff.trans (mapM_error_iff.trans ?_)
  simp only [List.mem_filter, filterOfReference_error_iff, Bool.not_eq_true',
    List.isEmpty_eq_false_iff, and_assoc]

/-- **The filter of the references** admits the documents that meet each of them. -/
theorem admits_filterOfReferences_iff {rs : List ReferenceCondition} {f : Option Filter}
    (h : s.filterOfReferences rs = .ok f) :
    Filter.admits f d = true ↔ ∀ r ∈ rs, s.ReferenceMet r d := by
  have hknown : ∀ r ∈ rs, r.ids ≠ [] → ∃ f, s.IsReferenceField r.field f := by
    intro r hr hids
    by_contra hunknown
    obtain ⟨e, he⟩ := filterOfReferences_error_iff.2 ⟨r, hr, hids, hunknown⟩
    rw [h] at he
    cases he
  obtain ⟨gs, hgs, h⟩ := exists_of_bind_ok h
  cases h
  have hmem : ∀ g, g ∈ gs ↔ ∃ r ∈ rs, r.ids ≠ [] ∧ ∃ f, s.IsReferenceField r.field f ∧
      .compare f.name .anyOf (Value.ofUuids r.ids) = g := by
    intro g
    simp only [mem_iff_of_mapM_ok hgs, List.mem_filter, filterOfReference_ok_iff,
      Bool.not_eq_true', List.isEmpty_eq_false_iff, and_assoc]
  rw [Filter.admits_all?_iff]
  constructor
  · intro hall r hr hids
    obtain ⟨f, hf⟩ := hknown r hr hids
    exact ⟨f, hf, holds_anyOf_ids_iff.1 (hall _ ((hmem _).2 ⟨r, hr, hids, f, hf, rfl⟩))⟩
  · intro hmet g hg
    obtain ⟨r, hr, hids, f, hf, rfl⟩ := (hmem g).1 hg
    obtain ⟨f', hf', hd⟩ := hmet r hr hids
    obtain rfl : f = f' := Option.some_inj.1 (hf.1.symm.trans hf'.1)
    exact holds_anyOf_ids_iff.2 hd

end Schema

/-! ### The whole search -/

namespace Schema

/-- **A document is what a search asks for**: it meets the conditions, each free text, and each
reference condition. -/
structure Meets (s : Schema) (p : Inquiry) (d : Document) : Prop where
  conditions : s.ConditionsMet p d
  texts : ∀ text, p.query = some text ∨ p.name = some text → s.TextMet text d
  references : ∀ r ∈ p.references, s.ReferenceMet r d

theorem forall_texts_iff {s : Schema} {p : Inquiry} {d : Document} :
    (∀ f ∈ [p.query, p.name].filterMap (·.bind s.filterOfText?), Filter.holds d f = true) ↔
      ∀ text, p.query = some text ∨ p.name = some text → s.TextMet text d := by
  simp only [← admits_filterOfText?_iff, ← Filter.forall_mem_toList_iff, Option.mem_toList,
    List.mem_filterMap, Option.bind_eq_some_iff, List.mem_cons, List.not_mem_nil, or_false]
  constructor
  · intro h text htext g hg
    exact h g ⟨some text, htext.imp Eq.symm Eq.symm, text, rfl, hg⟩
  · rintro h g ⟨_, htext, text, rfl, hg⟩
    exact h text (htext.imp Eq.symm Eq.symm) g hg

/-- **A compiled search means what its parts ask.** It cannot be compiled exactly when a condition
that names a field is refused, or a reference condition with ids names no field for them; and
otherwise its filter admits the documents that meet every part. -/
theorem filterOf_means (s : Schema) (p : Inquiry) :
    ((∃ e, s.filterOf p = .error e) ↔
      (∃ c ∈ p.conditions, c.IsNamed ∧ ∃ e, s.filterOfCondition c = .error e) ∨
        ∃ r ∈ p.references, r.ids ≠ [] ∧ ¬ ∃ f, s.IsReferenceField r.field f) ∧
    ∀ f, s.filterOf p = .ok f → ∀ d, Filter.admits f d = true ↔ s.Meets p d := by
  constructor
  · rw [← filterOfConditions_error_iff p.conditions p.combinator,
      ← filterOfReferences_error_iff, filterOf]
    cases s.filterOfConditions p.conditions p.combinator with
    | error e => simp [bind, Except.bind]
    | ok conditions =>
      cases s.filterOfReferences p.references with
      | error e => simp [bind, Except.bind]
      | ok references => simp [bind, Except.bind, pure, Except.pure]
  · intro f h d
    obtain ⟨conditions, hconditions, h⟩ := exists_of_bind_ok h
    obtain ⟨references, hreferences, h⟩ := exists_of_bind_ok h
    cases h
    rw [Filter.admits_all?_iff, List.forall_mem_append, List.forall_mem_append, forall_texts_iff,
      Filter.forall_mem_toList_iff, Filter.forall_mem_toList_iff,
      admits_filterOfConditions_iff hconditions, admits_filterOfReferences_iff hreferences]
    constructor
    · rintro ⟨⟨hmetConditions, hmetTexts⟩, hmetReferences⟩
      exact ⟨hmetConditions, hmetTexts, hmetReferences⟩
    · intro hmet
      exact ⟨⟨hmet.conditions, hmet.texts⟩, hmet.references⟩

end Schema

namespace Directory

/-- The contacts in Bern of one manager, whose names contain a text. -/
def annsInBern : Inquiry where
  query := some " %nn"
  conditions := [.equals "Location" (.string "Bern")]
  references := [⟨"managerId", [Uuid.nil]⟩]

/-- **A search with all three parts** is compiled, and its filter means what the parts ask. -/
theorem annsInBern_means :
    ∃ f, Contact.schema.filterOf annsInBern = .ok f ∧
      ∀ d, Filter.admits f d = true ↔ Contact.schema.Meets annsInBern d := by
  have hcompiled : (Contact.schema.filterOf annsInBern).toOption.isSome = true := by
    decide +kernel
  cases hf : Contact.schema.filterOf annsInBern with
  | error e =>
    rw [hf] at hcompiled
    cases hcompiled
  | ok f =>
    obtain ⟨-, hmeans⟩ := Schema.filterOf_means Contact.schema annsInBern
    exact ⟨f, rfl, hmeans f hf⟩

end Directory

end Registrar
