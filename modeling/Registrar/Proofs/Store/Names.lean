import Registrar.Text.Blank
import Registrar.Proofs.Store.Keyed

/-!
# Names that are used once

Two texts are **one name** if they differ in nothing but case and the blanks around them. A
collection keeps its names apart if no two of its documents have one name. Names are stored without
blanks around them, which makes the filter for a name find every document that has it.

* `NamesUnique`: no two documents have one name.
* `NamesFrom`: after a write, the names are those from before, and perhaps one that was unused.
* `NamesFrom.unique`, `NamesFrom.trimmed`: such a write keeps names apart, and trimmed.
* `unused_of_count`: a name that the filter does not find is unused.
-/

namespace Registrar

namespace Text

theorem trimLeft_of_prefix {as bs : List Char} (h : bs <+: trimLeft as) : trimLeft bs = bs := by
  cases bs with
  | nil => rfl
  | cons b bs =>
    rcases trimLeft_cases as with ha | ⟨c, ds, ha, hc⟩
    · rw [ha] at h
      simp at h
    · rw [ha, List.cons_prefix_cons] at h
      obtain ⟨rfl, -⟩ := h
      simp [trimLeft, hc]

theorem trim_trim (x : String) : trim (trim x) = trim x := by
  have hpre : (trimLeft (trimLeft x.toList).reverse).reverse <+: trimLeft x.toList := by
    rw [← List.reverse_reverse (trimLeft x.toList), List.reverse_prefix, List.reverse_reverse]
    exact List.dropWhile_suffix _
  have hchars : trimChars (trimChars x.toList) = trimChars x.toList := by
    rw [trimChars, trimChars, trimLeft_of_prefix hpre, List.reverse_reverse, trimLeft_trimLeft]
  rw [trim, toList_trim, hchars, trim]

/-- **One name**: not blank, and the same but for case and the blanks around it. -/
def SameName (x y : String) : Prop :=
  trim x ≠ "" ∧ trim y ≠ "" ∧ lower (trim x) = lower (trim y)

theorem SameName.symm {x y : String} (h : SameName x y) : SameName y x :=
  ⟨h.2.1, h.1, h.2.2.symm⟩

theorem sameName_trim {x y : String} : SameName (trim x) y ↔ SameName x y := by
  rw [SameName, SameName, trim_trim]

end Text

namespace Entries

variable {field : String} {es es' : Entries} {id : Uuid}

/-- **No two documents have one name.** -/
def NamesUnique (field : String) (es : Entries) : Prop :=
  ∀ a ∈ es, ∀ b ∈ es, ∀ x y, Document.value? a.2 field = some (.string x) →
    Document.value? b.2 field = some (.string y) → Text.SameName x y → a.1 = b.1

/-- Names are stored without blanks around them. -/
def NamesTrimmed (field : String) (es : Entries) : Prop :=
  ∀ a ∈ es, ∀ x, Document.value? a.2 field = some (.string x) → Text.trim x = x

/-- No document under another id has the name. -/
def NameUnused (field : String) (es : Entries) (id : Uuid) (x : String) : Prop :=
  ∀ b ∈ es, b.1 ≠ id → ∀ y, Document.value? b.2 field = some (.string y) → ¬ Text.SameName x y

/-- **The names after a write**: each document has its name from before, except that one may have
a name that was unused. -/
def NamesFrom (field : String) (es es' : Entries) (id : Uuid) : Prop :=
  ∀ a ∈ es', ∀ x, Document.value? a.2 field = some (.string x) →
    (∃ d, (a.1, d) ∈ es ∧ Document.value? d field = some (.string x)) ∨
      a.1 = id ∧ Text.trim x = x ∧ NameUnused field es id x

namespace NamesFrom

theorem of_subset (h : ∀ a ∈ es', a ∈ es) : NamesFrom field es es' id :=
  fun a ha _ hx => .inl ⟨a.2, h a ha, hx⟩

theorem unique (hu : NamesUnique field es) (h : NamesFrom field es es' id) :
    NamesUnique field es' := by
  intro a ha b hb x y hx hy hsame
  rcases h a ha x hx with ⟨d, hd, hdx⟩ | ⟨hid, -, hfree⟩ <;>
    rcases h b hb y hy with ⟨d', hd', hdy⟩ | ⟨hid', -, hfree'⟩
  · exact hu (a.1, d) hd (b.1, d') hd' x y hdx hdy hsame
  · by_contra hne
    exact hfree' (a.1, d) hd (fun he => hne (he.trans hid'.symm)) x hdx hsame.symm
  · by_contra hne
    exact hfree (b.1, d') hd' (fun he => hne (hid.trans he.symm)) y hdy hsame
  · rw [hid, hid']

theorem trimmed (ht : NamesTrimmed field es) (h : NamesFrom field es es' id) :
    NamesTrimmed field es' := by
  intro a ha x hx
  rcases h a ha x hx with ⟨d, hd, hdx⟩ | ⟨-, htrim, -⟩
  · exact ht _ hd x hdx
  · exact htrim

end NamesFrom

end Entries

/-! ### Filters for names -/

namespace Filter

variable {d : Document} {k : Uuid} {field x y : String}

/-- **The filter for a name** compares texts without case. -/
theorem eqIgnoreCase_holds (hd : '.' ∉ field.toList) (hy : d.value? field = some (.string y)) :
    (eqIgnoreCase field (.string x)).holds d = true ↔ Text.lower y = Text.lower x := by
  have hcand : d.candidates field = [.string y] := Document.candidates_of_value? hd hy rfl
  rw [eqIgnoreCase, holds, hcand, Comparison.holds]
  simp [Value.textTest, Value.matchesText, Value.textFound, String.toList_inj]

theorem ne_id_holds (h : d.value? "id" = some (Value.ofUuid k)) (id : Uuid) :
    (ne "id" (Value.ofUuid id)).holds d = true ↔ k ≠ id := by
  rw [ne, holds, candidates_id h, Comparison.holds]
  simp [← Value.ofUuid_equalTo]

end Filter

/-- **A name that the filter does not find** is unused. -/
theorem Store.unused_of_count {s : Store} {name field x : String} {id : Uuid} (hk : s.Keyed)
    (hd : '.' ∉ field.toList) (ht : (s.entries name).NamesTrimmed field)
    (h : s.count (some (.and [.eqIgnoreCase field (.string (Text.trim x)),
      .ne "id" (Value.ofUuid id)])) name = 0) :
    (s.entries name).NameUnused field id x := by
  intro b hb hne y hy hsame
  rw [count, List.length_eq_zero_iff, List.filter_eq_nil_iff] at h
  refine h b hb ((Filter.and_pair_holds _ _).mpr ⟨?_, ?_⟩)
  · rw [Filter.eqIgnoreCase_holds hd hy, hsame.2.2, ht b hb y hy]
  · exact (Filter.ne_id_holds ((hk name).id b hb) id).mpr hne

end Registrar
