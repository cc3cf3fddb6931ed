import Registrar.Proofs.Directory.Slots
import Registrar.Proofs.Entity.Recovering
import Registrar.Proofs.Entity.Respelling

/-!
# Attributes

The attributes of a contact are sorted by their keys, so they are told from their entries in any
order. In the store they are a document of texts, which is read as it was written; or a single
attribute spells a value of another kind, which is stored in its place. Then what is read are the
entries of the object that spells this value, and these need not be the attributes that were
submitted. When they are stored, too, they spell the same value, unless this is a decimal number.

* `Attributes.Sorted`: attributes as they are kept.
* `Attributes.ofEntries_eq`: sorted attributes from their entries.
* `Attributes.read?`: attributes as they are read from the store.
* `Attributes.Kept`: attributes that are read as they were submitted.
* `Attributes.kept_iff`: **when attributes are kept**.
* `Attributes.restored_iff`: **when attributes that were read are stored as they were**.
-/

namespace Registrar.Directory.Attributes

variable {as : Attributes} {key value : String}

/-! ### Entries -/

/-- **Attributes in their order**, each key once. -/
def Sorted (as : Attributes) : Prop := as.Pairwise fun a b => compare a.1 b.1 = .lt

instance (as : Attributes) : Decidable as.Sorted :=
  inferInstanceAs (Decidable (as.Pairwise fun a b => compare a.1 b.1 = .lt))

theorem compare_self_ne_lt (s : String) : compare s s ≠ .lt := by
  have hself : compare s s = .eq := Std.ReflCmp.compare_self
  rw [hself]
  exact nofun

theorem Sorted.nodup_keys (h : as.Sorted) : (as.map Prod.fst).Nodup := by
  rw [List.Nodup, List.pairwise_map]
  refine h.imp fun {a b} hlt heq => ?_
  rw [heq] at hlt
  exact compare_self_ne_lt b.1 hlt

theorem mem_put {x : String × String} (h : x ∈ as.put key value) : x = (key, value) ∨ x ∈ as := by
  induction as with
  | nil => exact .inl (List.mem_singleton.mp h)
  | cons a r ih =>
    rw [put] at h
    split at h
    · exact List.mem_cons.mp h
    · exact (List.mem_cons.mp h).imp_right (List.mem_cons_of_mem a)
    · rcases List.mem_cons.mp h with rfl | h
      · exact .inr List.mem_cons_self
      · exact (ih h).imp_right (List.mem_cons_of_mem a)

theorem mem_put_self : (key, value) ∈ as.put key value := by
  induction as with
  | nil => exact List.mem_cons_self
  | cons a r ih =>
    rw [put]
    split
    · exact List.mem_cons_self
    · exact List.mem_cons_self
    · exact List.mem_cons_of_mem a ih

theorem mem_put_of_ne {x : String × String} (hx : x ∈ as) (hne : x.1 ≠ key) :
    x ∈ as.put key value := by
  induction as with
  | nil => cases hx
  | cons a r ih =>
    rw [put]
    split
    · exact List.mem_cons_of_mem _ hx
    · rename_i heq
      rcases List.mem_cons.mp hx with rfl | hx
      · exact absurd (Std.LawfulEqCmp.eq_of_compare heq).symm hne
      · exact List.mem_cons_of_mem _ hx
    · rcases List.mem_cons.mp hx with rfl | hx
      · exact List.mem_cons_self
      · exact List.mem_cons_of_mem a (ih hx)

theorem sorted_put (h : as.Sorted) : (as.put key value).Sorted := by
  induction as with
  | nil => exact List.pairwise_singleton _ _
  | cons a r ih =>
    obtain ⟨hfirst, hrest⟩ := List.pairwise_cons.mp h
    rw [put]
    split
    · rename_i hlt
      refine List.pairwise_cons.mpr ⟨fun b hb => ?_, h⟩
      rcases List.mem_cons.mp hb with rfl | hb
      · exact hlt
      · exact Std.TransCmp.lt_trans hlt (hfirst b hb)
    · rename_i heq
      obtain rfl : key = a.1 := Std.LawfulEqCmp.eq_of_compare heq
      exact List.pairwise_cons.mpr ⟨hfirst, hrest⟩
    · rename_i hgt
      refine List.pairwise_cons.mpr ⟨fun b hb => ?_, ih hrest⟩
      rcases mem_put hb with rfl | hb
      · exact Std.OrientedCmp.gt_iff_lt.mp hgt
      · exact hfirst b hb

theorem sorted_ofEntries (entries : List (String × String)) : (ofEntries entries).Sorted :=
  List.foldlRecOn (motive := Sorted) _ _ List.Pairwise.nil fun _ h _ _ => sorted_put h

theorem mem_foldl_put {entries : List (String × String)}
    (hone : ∀ x ∈ as ++ entries, ∀ y ∈ as ++ entries, x.1 = y.1 → x = y) {x : String × String} :
    x ∈ entries.foldl (fun as e => put as e.1 e.2) as ↔ x ∈ as ++ entries := by
  induction entries generalizing as with
  | nil => rw [List.foldl_nil, List.append_nil]
  | cons e r ih =>
    have hmem : ∀ {y}, y ∈ as.put e.1 e.2 ++ r ↔ y ∈ as ++ e :: r := by
      intro y
      rw [List.mem_append, List.mem_append, List.mem_cons]
      constructor
      · rintro (h | h)
        · rcases mem_put h with rfl | h
          · exact .inr (.inl rfl)
          · exact .inl h
        · exact .inr (.inr h)
      · rintro (h | rfl | h)
        · by_cases heq : y.1 = e.1
          · obtain rfl := hone y (List.mem_append_left _ h) e
              (List.mem_append_right _ List.mem_cons_self) heq
            exact .inl mem_put_self
          · exact .inl (mem_put_of_ne h heq)
        · exact .inl mem_put_self
        · exact .inr h
    rw [List.foldl_cons, ih fun x hx y hy => hone x (hmem.mp hx) y (hmem.mp hy), hmem]

/-- **Sorted attributes are told from their entries**, in whatever order these come. -/
theorem ofEntries_eq (h : as.Sorted) {entries : List (String × String)}
    (hmem : ∀ x, x ∈ entries ↔ x ∈ as) : ofEntries entries = as := by
  have hone : ∀ x ∈ [] ++ entries, ∀ y ∈ [] ++ entries, x.1 = y.1 → x = y := fun x hx y hy =>
    List.inj_on_of_nodup_map h.nodup_keys ((hmem x).mp hx) ((hmem y).mp hy)
  have hirrefl : ∀ {l : Attributes}, l.Sorted → l.Nodup := fun hl =>
    List.Nodup.of_map _ hl.nodup_keys
  refine List.Perm.eq_of_pairwise (fun a b _ _ hab hba => ?_) (sorted_ofEntries entries) h
    ((List.perm_ext_iff_of_nodup (hirrefl (sorted_ofEntries entries)) (hirrefl h)).mpr fun x => ?_)
  · exact absurd (Std.TransCmp.lt_trans hab hba) (compare_self_ne_lt a.1)
  · rw [ofEntries, mem_foldl_put hone]
    exact hmem x

/-! ### In the store -/

/-- **Reads attributes** from the store. -/
def read? : Reading.Reader Attributes := fun v => (Form.stored.entries v).map ofEntries

theorem sorted_of_read {v : Value} (h : read? v = some as) : as.Sorted := by
  obtain ⟨entries, -, rfl⟩ := Option.map_eq_some_iff.mp h
  exact sorted_ofEntries entries

/-- **Attributes that are kept**: they are read as they were submitted. -/
def Kept (as : Attributes) : Prop := read? (as.toValue .stored) = some as

instance (as : Attributes) : Decidable as.Kept :=
  inferInstanceAs (Decidable (read? (as.toValue .stored) = some as))

/-- Attributes as a document of texts. -/
def texts (as : Attributes) : Document := as.map fun a => (a.1, Value.string a.2)

theorem read?_texts (h : as.Sorted) : read? (.document as.texts) = some as := by
  rw [read?, texts, Contact.entries_texts, Option.map_some, ofEntries_eq h fun _ => Iff.rfl]

theorem nodup_keys_texts (h : as.Sorted) : as.texts.keys.Nodup := by
  rw [Document.keys, texts, List.map_map]
  exact h.nodup_keys

theorem mem_entries {fs : Document} {entries : List (String × String)}
    (h : Form.stored.entries (.document fs) = some entries) {e : String × String} :
    e ∈ entries ↔ ∃ x, (e.1, x) ∈ fs ∧ Form.stored.text x = some e.2 := by
  change (fs.mapM fun f => (Form.stored.text f.2).map fun s => (f.1, s)) = some entries at h
  induction fs generalizing entries with
  | nil =>
    cases h
    simp
  | cons f fs ih =>
    rw [List.mapM_cons] at h
    simp only [Option.bind_eq_bind, Option.bind_eq_some_iff, Option.map_eq_some_iff,
      Option.pure_def, Option.some.injEq] at h
    obtain ⟨_, ⟨s, hs, rfl⟩, rest, hrest, rfl⟩ := h
    rw [List.mem_cons, ih hrest]
    constructor
    · rintro (rfl | ⟨x, hx, htext⟩)
      · exact ⟨f.2, List.mem_cons_self, hs⟩
      · exact ⟨x, List.mem_cons_of_mem f hx, htext⟩
    · rintro ⟨x, hx, htext⟩
      rcases List.mem_cons.mp hx with rfl | hx
      · exact .inl (Prod.ext rfl (Option.some.inj (htext.symm.trans hs)))
      · exact .inr ⟨x, hx, htext⟩

/-- **What can be read and agrees with a document of texts** has the same entries. -/
theorem read?_of_agrees_texts (h : as.Sorted) {v : Value} (hsome : (read? v).isSome = true)
    (hagrees : v.agrees (.document as.texts) = true) : read? v = some as := by
  obtain ⟨fs, rfl, hleft, hright⟩ := Value.agrees_document_iff.mp hagrees
  obtain ⟨entries, hentries⟩ : ∃ entries, Form.stored.entries (.document fs) = some entries := by
    rw [read?, Option.isSome_map] at hsome
    exact Option.isSome_iff_exists.mp hsome
  rw [read?, hentries, Option.map_some, ofEntries_eq h]
  intro e
  rw [mem_entries hentries]
  have htexts : ∀ {key x}, (key, x) ∈ as.texts → ∃ s, x = .string s ∧ (key, s) ∈ as := by
    intro key x hx
    obtain ⟨a, ha, heq⟩ := List.mem_map.mp hx
    obtain ⟨rfl, rfl⟩ := Prod.mk.inj heq
    exact ⟨a.2, rfl, ha⟩
  constructor
  · rintro ⟨x, hx, htext⟩
    have hx : x.agrees (Document.valueOrNull as.texts e.1) = true := hleft _ hx
    cases hvalue : Document.value? as.texts e.1 with
    | none =>
      rw [Document.valueOrNull, hvalue] at hx
      rw [show x = .null from Value.eq_null_of_agrees hx] at htext
      cases htext
    | some y =>
      obtain ⟨s, rfl, hs⟩ := htexts (Document.mem_of_value? hvalue)
      rw [Document.valueOrNull, hvalue] at hx
      have hread : Form.stored.text x = some s := Reading.fixes_string s x (by rw [htext]; rfl) hx
      obtain rfl : e.2 = s := Option.some.inj (htext.symm.trans hread)
      exact hs
  · intro he
    have hx := hright (e.1, .string e.2) (List.mem_map_of_mem (f := fun a => (a.1, _)) he)
    cases hvalue : Document.value? fs e.1 with
    | none =>
      rw [Document.valueOrNull, hvalue, Option.getD_none, Value.agrees_null] at hx
      cases hx
    | some x =>
      have hmem := Document.mem_of_value? hvalue
      rw [Document.valueOrNull, hvalue, Option.getD_some] at hx
      rcases Value.eq_of_agrees rfl rfl hx with ⟨-, hnumber⟩ | rfl
      · cases hnumber
      · exact ⟨_, hmem, rfl⟩

theorem isNull_toValue (as : Attributes) : (as.toValue .stored).isNull = false := by
  rcases Contact.toValue_cases as with heq | ⟨key, text, -, hspelt⟩
  · rw [heq]
    rfl
  · have hne := (Value.scalar_of_ofText? hspelt).2.2
    cases hvalue : as.toValue .stored <;> first | rfl | exact absurd hvalue hne

/-- **Sorted attributes fix what is read.** -/
theorem fixes_toValue (h : as.Sorted) : Reading.Fixes read? (as.toValue .stored) := by
  intro v hsome hagrees
  rcases Contact.toValue_cases as with heq | ⟨key, text, -, hspelt⟩
  · rw [heq] at hagrees ⊢
    exact (read?_of_agrees_texts h hsome hagrees).trans (read?_texts h).symm
  · obtain ⟨harray, hdocument, -⟩ := Value.scalar_of_ofText? hspelt
    rcases Value.eq_of_agrees harray hdocument hagrees with ⟨hnumber, -⟩ | rfl
    · rw [read?, Option.isSome_map, Contact.entries_of_number hnumber] at hsome
      cases hsome
    · rfl

/-- **When attributes are kept**: always, unless they are one text that spells a value, and this
value is spelled otherwise or not at all. -/
theorem kept_iff (h : as.Sorted) : as.Kept ↔ ∀ key text v, as = [(key, text)] →
    Value.ofText? key text = some v → v.spelling? = some [(key, .string text)] := by
  constructor
  · rintro hkept key text v rfl hspelt
    have hvalue : toValue .stored [(key, text)] = v := congrArg (Option.getD · _) hspelt
    rw [Kept, hvalue] at hkept
    obtain ⟨entries, hentries, hread⟩ := Option.map_eq_some_iff.mp hkept
    by_cases hdecimal : ∃ bytes, v = .decimal128 bytes
    · obtain ⟨bytes, rfl⟩ := hdecimal
      obtain ⟨k, t, rfl, hnone⟩ := Value.decimal_respelled hentries
      cases hread
      rw [hspelt] at hnone
      cases hnone
    · obtain ⟨k, t, rfl, hspelling, -⟩ := Value.ofText?_respelled hspelt hentries
        fun bytes heq => hdecimal ⟨bytes, heq⟩
      cases hread
      exact hspelling
  · intro hall
    rcases Contact.toValue_cases as with heq | ⟨key, text, rfl, hspelt⟩
    · rw [Kept, heq]
      exact read?_texts h
    · have hspelling := hall key text _ rfl hspelt
      rw [Kept, read?, Value.entries_of_spelling (Value.scalar_of_ofText? hspelt).2.1 hspelling]
      rfl

/-- **When attributes that were read are stored as they were**: always, but if they were stored as
a decimal number. -/
theorem restored_iff (h : as.Sorted) {read : Attributes}
    (hread : read? (as.toValue .stored) = some read) :
    (as.toValue .stored).agrees (read.toValue .stored) = true ↔
      ∀ bytes, as.toValue .stored ≠ .decimal128 bytes := by
  rcases Contact.toValue_cases as with heq | ⟨key, text, -, hspelt⟩
  · have hsame : read = as := by
      rw [heq] at hread
      exact Option.some.inj (hread.symm.trans (read?_texts h))
    rw [hsame, heq]
    refine iff_of_true (Value.agrees_self_document (nodup_keys_texts h) fun f hf => ?_) nofun
    obtain ⟨a, -, rfl⟩ := List.mem_map.mp hf
    exact Value.agrees_self rfl rfl rfl
  · obtain ⟨entries, hentries, rfl⟩ := Option.map_eq_some_iff.mp hread
    obtain ⟨harray, hdocument, -⟩ := Value.scalar_of_ofText? hspelt
    generalize as.toValue .stored = v at hspelt hentries harray hdocument ⊢
    have hsingle : ∀ k t, (ofEntries [(k, t)]).toValue .stored =
        (Value.ofText? k t).getD (.document [(k, .string t)]) := fun _ _ => rfl
    by_cases hdecimal : ∃ bytes, v = .decimal128 bytes
    · obtain ⟨bytes, rfl⟩ := hdecimal
      obtain ⟨k, t, rfl, hnone⟩ := Value.decimal_respelled hentries
      rw [hsingle, hnone, Option.getD_none]
      refine iff_of_false (fun hagrees => ?_) fun hall => hall bytes rfl
      obtain ⟨_, hdoc, -⟩ := Value.agrees_document_iff.mp hagrees
      cases hdoc
    · have hall : ∀ bytes, v ≠ .decimal128 bytes := fun bytes heq => hdecimal ⟨bytes, heq⟩
      obtain ⟨k, t, rfl, -, hspelt'⟩ := Value.ofText?_respelled hspelt hentries hall
      rw [hsingle, hspelt', Option.getD_some]
      refine iff_of_true (Value.agrees_self ?_ harray hdocument) hall
      by_contra hnumber
      rw [Contact.entries_of_number (Option.isSome_iff_ne_none.mpr hnumber)] at hentries
      cases hentries

end Registrar.Directory.Attributes
