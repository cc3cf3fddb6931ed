import Registrar.Directory.Contact
import Registrar.Proofs.Engine.Hydrating
import Registrar.Proofs.Entity.Readers

/-!
# Reading the entities of the directory

When the stored phone books, categories and contacts can be read, they can also be read with copies
of each other filled in. A contact is read to a bounded depth, since its manager and its secretaries
are contacts; a copy is nested less deep than the contact it is filled into, and a reader with a
larger bound reads more.

* `ReadableAs`, `Readable`: a document, and all stored entities, can be read.
* `Contact.isSome_readTo_of_le`: a larger bound reads more.
* `Category.isSome_withCopies`, `Contact.isSome_withCopies`: an entity can be read with its copies
  if they can be read by themselves.
* `Book.readableIn`, `Category.readableIn`, `Contact.readableIn`: so they can with their copies.
-/

namespace Registrar.Directory

/-- **A document can be read** as an entity of the collection. -/
structure ReadableAs (name : String) (d : Document) : Prop where
  book : name = "phone_books" → (Book.kind.ofDocument? d).isSome = true
  category : name = "categories" → (Category.kind.ofDocument? d).isSome = true
  contact : name = "contacts" → (Contact.kind.ofDocument? d).isSome = true

/-- **All stored entities can be read.** -/
structure Readable (s : Store) : Prop where
  books : ∀ d ∈ (s.entries "phone_books").documents, (Book.kind.ofDocument? d).isSome = true
  categories : ∀ d ∈ (s.entries "categories").documents,
    (Category.kind.ofDocument? d).isSome = true
  contacts : ∀ d ∈ (s.entries "contacts").documents, (Contact.kind.ofDocument? d).isSome = true

variable {policy : AccessPolicy} {settings : Settings} {caller : Caller} {s : Store}

theorem Readable.readableAs {name : String} {d : Document} (h : Readable s)
    (hd : d ∈ (s.entries name).documents) : ReadableAs name d where
  book heq := h.books d (heq ▸ hd)
  category heq := h.categories d (heq ▸ hd)
  contact heq := h.contacts d (heq ▸ hd)

theorem isSome_copies {α : Type} {reader : Reading.Reader α} {d : Document} {name : String}
    {shown : List Document} (hvalue : d.value? name = some (.array (shown.map .document)))
    (hread : ∀ x ∈ shown, (reader (.document x)).isSome = true) :
    (Reading.optional d name [] (Reading.list reader)).isSome = true := by
  refine Reading.isSome_optional.mpr fun v hv => ?_
  obtain rfl : v = .array (shown.map .document) := Option.some.inj (hv.symm.trans hvalue)
  refine Reading.isSome_list.mpr fun y hy => ?_
  obtain ⟨x, hx, rfl⟩ := List.mem_map.mp hy
  exact hread x hx

theorem Book.readableIn (h : Readable s) :
    (⟨Book.kind, policy, settings⟩ : Collection Book).ReadableIn caller s :=
  fun d hd => ⟨h.books d hd, h.books d hd⟩

/-! ### Categories -/

namespace Category

/-- A category can be read if it could be read before its phone books were filled in, and they
can. -/
theorem isSome_read? {d d' : Document} (h : (read? .stored (.document d)).isSome = true)
    (hsame : ∀ name, name ≠ "phone_books" → d'.value? name = d.value? name)
    (hbooks : (Reading.optional d' "phone_books" [] (Reading.list (Book.read? .stored))).isSome =
      true) : (read? .stored (.document d')).isSome = true := by
  have hfields : ∀ x : Document, Form.fields? .stored fieldNames (.document x) = some x :=
    fun _ => rfl
  simp only [read?, hfields, Option.bind_eq_bind, Option.bind_some, Option.pure_def,
    Option.isSome_bind, Option.isSome_some, Reading.any_const, Bool.and_eq_true, and_true] at h ⊢
  obtain ⟨hid, hname, hdescription, hsettings, hids, -, htime, hcaller, hversion⟩ := h
  simp only [Reading.required, Reading.optional, hsame, ne_eq, String.reduceEq, not_false_eq_true]
    at hbooks ⊢
  exact ⟨hid, hname, hdescription, hsettings, hids, hbooks, htime, hcaller, hversion⟩

/-- **A category can be read with its copies**, if they can be read by themselves. -/
theorem isSome_withCopies {d d' : Document} (h : (kind.ofDocument? d).isSome = true)
    (hsame : ∀ name, name ∉ schema.relations.map Relation.navigation →
      d'.value? name = d.value? name)
    (hcopies : ∀ r ∈ schema.relations, ∃ shown, (∀ x ∈ shown, ReadableAs r.target x) ∧
      d'.value? r.navigation = some (r.navigationValue shown)) :
    (kind.ofDocument? d').isSome = true := by
  refine isSome_read? h (fun name hname => hsame name fun hm => hname ?_) ?_
  · exact List.mem_singleton.mp hm
  · obtain ⟨shown, hshown, hvalue⟩ := hcopies _ List.mem_cons_self
    exact isSome_copies hvalue fun book hbook => (hshown book hbook).book rfl

theorem readableIn (h : Readable s) :
    (⟨Category.kind, policy, settings⟩ : Collection Category).ReadableIn caller s := by
  intro d hd
  refine ⟨h.categories d hd, isSome_withCopies (h.categories d hd) (fun name hname => ?_) ?_⟩
  · refine Relation.value?_hydrated_of_ne (fun r hr heq => hname ?_) d
    exact heq ▸ List.mem_map_of_mem hr
  · intro r hr
    obtain ⟨shown, hshown, hvalue⟩ := Relation.value?_hydrated (by decide) hr d
    exact ⟨shown, fun x hx => h.readableAs (hshown x hx), hvalue⟩

end Category

/-! ### Contacts -/

namespace Contact

theorem ofFields?_congr (form : Form) {d d' : Document}
    (hsame : ∀ name, name ∉ schema.relations.map Relation.navigation →
      d'.value? name = d.value? name) :
    ContactRecord.ofFields? form d' = ContactRecord.ofFields? form d := by
  simp only [ContactRecord.ofFields?, Reading.required, Reading.optional,
    hsame "id" (by decide), hsame "first_name" (by decide), hsame "last_name" (by decide),
    hsame "location" (by decide), hsame "numbers" (by decide),
    hsame "number_of_telephone_numbers" (by decide), hsame "secretary_ids" (by decide),
    hsame "manager_id" (by decide), hsame "category_ids" (by decide),
    hsame "phone_book_ids" (by decide), hsame "attributes" (by decide),
    hsame "last_update" (by decide), hsame "last_update_by" (by decide),
    hsame "version" (by decide)]

/-- **When a contact can be read**: what is stored of it and the copies can. -/
theorem isSome_readWith {form : Form} {inner : Reading.Reader Contact} {v : Value} :
    (readWith form inner v).isSome = true ↔ ∃ d, form.fields? fieldNames v = some d ∧
      (ContactRecord.ofFields? form d).isSome = true ∧
      (Reading.optional d "secretaries" [] (Reading.list inner)).isSome = true ∧
      (Reading.optional d "manager" none (Reading.nullable inner)).isSome = true ∧
      (Reading.optional d "categories" [] (Reading.list (Category.read? form))).isSome = true ∧
      (Reading.optional d "phone_books" [] (Reading.list (Book.read? form))).isSome = true := by
  rw [readWith]
  cases form.fields? fieldNames v with
  | none => simp
  | some d =>
    simp only [Option.bind_eq_bind, Option.bind_some, Option.pure_def, Option.isSome_bind,
      Option.isSome_some, Reading.any_const, Bool.and_eq_true, and_true, Option.some.injEq,
      exists_eq_left']

/-- **A larger bound reads more.** -/
theorem isSome_readTo_of_le {form : Form} {n m : Nat} {v : Value} (hnm : n ≤ m)
    (h : (readTo form n v).isSome = true) : (readTo form m v).isSome = true := by
  induction n generalizing m v with
  | zero => cases h
  | succ n ih =>
    obtain ⟨m, rfl⟩ : ∃ k, m = k + 1 := ⟨m - 1, by omega⟩
    have hle : n ≤ m := by omega
    obtain ⟨d, hd, hrecord, hsecretaries, hmanager, hrest⟩ := isSome_readWith.mp h
    refine isSome_readWith.mpr ⟨d, hd, hrecord, ?_, ?_, hrest⟩
    · refine Reading.isSome_optional.mpr fun x hx => ?_
      obtain ⟨items, rfl, hitems⟩ :=
        Reading.isSome_list_iff.mp (Reading.isSome_optional.mp hsecretaries x hx)
      exact Reading.isSome_list.mpr fun y hy => ih hle (hitems y hy)
    · refine Reading.isSome_optional.mpr fun x hx => ?_
      rcases Reading.isSome_nullable.mp (Reading.isSome_optional.mp hmanager x hx) with hnull | hx'
      · exact Reading.isSome_nullable.mpr (.inl hnull)
      · exact Reading.isSome_nullable.mpr (.inr (ih hle hx'))

theorem read?_document (form : Form) (d : Document) :
    read? form (.document d) = readWith form (readTo form (Value.fieldsDepth d)) (.document d) := by
  change readTo form (1 + Value.fieldsDepth d) (.document d) = _
  rw [Nat.add_comm]
  rfl

theorem ofDocument?_eq (d : Document) :
    kind.ofDocument? d =
      readWith .stored (readTo .stored (Value.fieldsDepth d)) (.document d) :=
  read?_document .stored d

/-- A contact that is copied into a field of another can be read there, for it is nested less
deep. -/
theorem isSome_readTo_copy {d x : Document} {name : String} {v : Value}
    (hx : (kind.ofDocument? x).isSome = true) (hv : d.value? name = some v)
    (hdepth : (Value.document x).depth ≤ v.depth) :
    (readTo .stored (Value.fieldsDepth d) (.document x)).isSome = true :=
  isSome_readTo_of_le (Nat.le_trans hdepth (Value.depth_of_value? hv)) hx

/-- **A contact can be read with its copies**, if they can be read by themselves. -/
theorem isSome_withCopies {d d' : Document} (h : (kind.ofDocument? d).isSome = true)
    (hsame : ∀ name, name ∉ schema.relations.map Relation.navigation →
      d'.value? name = d.value? name)
    (hcopies : ∀ r ∈ schema.relations, ∃ shown, (∀ x ∈ shown, ReadableAs r.target x) ∧
      d'.value? r.navigation = some (r.navigationValue shown)) :
    (kind.ofDocument? d').isSome = true := by
  rw [ofDocument?_eq] at h ⊢
  obtain ⟨_, hd₀, hrecord, -⟩ := isSome_readWith.mp h
  cases hd₀
  refine isSome_readWith.mpr ⟨d', rfl, ofFields?_congr .stored hsame ▸ hrecord, ?_, ?_, ?_, ?_⟩
  · obtain ⟨shown, hshown, hvalue⟩ := hcopies ⟨"secretary_ids", "secretaries", "contacts", .many⟩
      (by decide)
    refine isSome_copies hvalue fun contact hcontact => ?_
    refine isSome_readTo_copy ((hshown contact hcontact).contact rfl) hvalue ?_
    have hdepth := Value.depth_of_mem (List.mem_map_of_mem (f := Value.document) hcontact)
    rw [Relation.navigationValue, Value.depth.eq_1]
    omega
  · obtain ⟨shown, hshown, hvalue⟩ := hcopies ⟨"manager_id", "manager", "contacts", .one⟩
      (by decide)
    refine Reading.isSome_optional.mpr fun v hv => Reading.isSome_nullable.mpr ?_
    cases shown with
    | nil => exact .inl (Option.some.inj (hv.symm.trans hvalue))
    | cons contact rest =>
      obtain rfl : v = .document contact := Option.some.inj (hv.symm.trans hvalue)
      have hcontact := (hshown contact List.mem_cons_self).contact rfl
      exact .inr (isSome_readTo_copy hcontact hv (Nat.le_refl _))
  · obtain ⟨shown, hshown, hvalue⟩ := hcopies ⟨"category_ids", "categories", "categories", .many⟩
      (by decide)
    exact isSome_copies hvalue fun category hcategory => (hshown category hcategory).category rfl
  · obtain ⟨shown, hshown, hvalue⟩ := hcopies
      ⟨"phone_book_ids", "phone_books", "phone_books", .many⟩ (by decide)
    exact isSome_copies hvalue fun book hbook => (hshown book hbook).book rfl

theorem readableIn (h : Readable s) :
    (⟨Contact.kind, policy, settings⟩ : Collection Contact).ReadableIn caller s := by
  intro d hd
  refine ⟨h.contacts d hd, isSome_withCopies (h.contacts d hd) (fun name hname => ?_) ?_⟩
  · refine Relation.value?_hydrated_of_ne (fun r hr heq => hname ?_) d
    exact heq ▸ List.mem_map_of_mem hr
  · intro r hr
    obtain ⟨shown, hshown, hvalue⟩ := Relation.value?_hydrated (by decide) hr d
    exact ⟨shown, fun x hx => h.readableAs (hshown x hx), hvalue⟩

end Contact

end Registrar.Directory
