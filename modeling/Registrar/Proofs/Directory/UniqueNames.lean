import Registrar.Proofs.Directory.Steps
import Registrar.Proofs.Engine.Names

/-!
# Names of categories and phone books

Names of categories and of phone books are meant to be unique. While the settings ask for this,
every run from the empty store keeps them apart, as long as no assignment gives a single entity the
name of another: this is the one operation that does not ask whether a name is taken. With the first
such assignment that takes place two entities share a name.

* `NamesApart`: names are unique in both collections.
* `Step.TakesName`: the steps that give a category or a phone book a taken name.
* `names_apart_iff`: a run keeps names apart exactly when it has no such step.
-/

namespace Registrar

namespace Collection

variable {E : Type} {c : Collection E} {caller : Caller} {s t : Store} {op : Operation E}

/-- An operation takes a name, and something is written. -/
def ShareName (c : Collection E) (caller : Caller) (g : Field) (name : E → String)
    (op : Operation E) (s t : Store) : Prop :=
  c.TakesName caller s g name op ∧ t.entries c.name ≠ s.entries c.name

theorem Leaves.names (hk : c.kind.Lawful) (hl : c.kind.schema.Linked) {g : Field} {name : E → String}
    (hn : c.kind.Named g name) (hv : c.settings.validateUniqueNames = true)
    (h : c.Leaves caller op s t) (hs : s.Keyed) (hfree : ¬ c.ShareName caller g name op s t)
    (hu : (s.entries c.name).NamesUnique g.name) (ht : (s.entries c.name).NamesTrimmed g.name) :
    (t.entries c.name).NamesUnique g.name ∧ (t.entries c.name).NamesTrimmed g.name := by
  by_cases hsame : t.entries c.name = s.entries c.name
  · rw [hsame]
    exact ⟨hu, ht⟩
  · have hnot : ¬ c.TakesName caller s g name op := fun htakes => hfree ⟨htakes, hsame⟩
    obtain ⟨id, hfrom⟩ := (h.effect hk hl hs).namesFrom hk.schema hn hs hv ht hnot
    exact ⟨hfrom.unique hu, hfrom.trimmed ht⟩

end Collection

namespace Directory

/-- The field for the name. -/
def nameField : Field := Field.data "name" .string []

theorem Book.named : Book.kind.Named nameField Book.name where
  unique := rfl
  declared := .tail _ (.head _)
  role := rfl
  document b := rfl
  withId id b := rfl
  normal b b' h := by
    cases h
    rfl

theorem Category.named : Category.kind.Named nameField Category.name where
  unique := rfl
  declared := .tail _ (.head _)
  role := rfl
  document c := rfl
  withId id c := rfl
  normal c c' h := by
    cases h
    rfl

/-- The collections whose entities have names. -/
def namedCollections : List String := ["categories", "phone_books"]

/-- **Names are apart**: no two documents of one collection have one name. -/
def NamesApart (s : Store) : Prop :=
  ∀ collection ∈ namedCollections, (s.entries collection).NamesUnique "name"

/-- **A step gives an entity the name of another.** -/
def Step.TakesName (x : Step) : Prop :=
  match x.call with
  | .book op => x.setup.books.ShareName x.caller nameField Book.name op x.before x.after
  | .category op =>
    x.setup.categories.ShareName x.caller nameField Category.name op x.before x.after
  | .contact _ => False

/-- A keyed store in which names are apart and have no blanks around them. -/
structure Tidy (s : Store) : Prop where
  keyed : s.Keyed
  apart : NamesApart s
  trimmed : ∀ collection ∈ namedCollections, (s.entries collection).NamesTrimmed "name"

theorem empty_tidy : Tidy .empty where
  keyed := empty_keyed
  apart _ _ := fun _ ha => absurd ha List.not_mem_nil
  trimmed _ _ := fun _ ha => absurd ha List.not_mem_nil

/-- **A step keeps a store tidy**, unless it takes a name. -/
theorem Step.tidy {x : Step} (h : x.Happens) (hv : x.setup.settings.validateUniqueNames = true)
    (hfree : ¬ x.TakesName) (ht : Tidy x.before) : Tidy x.after := by
  have hnames : ∀ collection ∈ namedCollections,
      (x.after.entries collection).NamesUnique "name" ∧
        (x.after.entries collection).NamesTrimmed "name" := by
    intro collection hc
    have hu := ht.apart collection hc
    have hplain := ht.trimmed collection hc
    unfold Happens at h
    unfold TakesName at hfree
    split at h
    · by_cases hname : collection = "phone_books"
      · subst hname
        exact h.names (c := x.setup.books) (g := nameField) Book.lawful Book.linked Book.named hv
          ht.keyed (by simp_all) hu hplain
      · rw [h.entries Book.lawful hname]
        exact ⟨hu, hplain⟩
    · by_cases hname : collection = "categories"
      · subst hname
        exact h.names (c := x.setup.categories) (g := nameField) Category.lawful Category.linked
          Category.named hv ht.keyed (by simp_all) hu hplain
      · rw [h.entries Category.lawful hname]
        exact ⟨hu, hplain⟩
    · have hname : collection ≠ "contacts" := by
        rintro rfl
        exact absurd hc (by decide)
      rw [h.entries Contact.lawful hname]
      exact ⟨hu, hplain⟩
  exact ⟨Step.keyed h ht.keyed, fun c hc => (hnames c hc).1, fun c hc => (hnames c hc).2⟩

/-- **After a step that takes a name**, two entities share it. -/
theorem Step.not_apart {x : Step} (h : x.Happens) (hk : x.before.Keyed) (htakes : x.TakesName) :
    ¬ NamesApart x.after := by
  intro hapart
  unfold Happens at h
  unfold TakesName at htakes
  split at h
  · rename_i op hcall
    rw [hcall] at htakes
    refine (h.effect Book.lawful Book.linked hk).shared (c := x.setup.books) Book.lawful.schema
      Book.named hk htakes.1 htakes.2 (hapart "phone_books" (by decide))
  · rename_i op hcall
    rw [hcall] at htakes
    refine (h.effect Category.lawful Category.linked hk).shared (c := x.setup.categories)
      Category.lawful.schema Category.named hk htakes.1 htakes.2 (hapart "categories" (by decide))
  · rename_i op hcall
    rw [hcall] at htakes
    exact htakes

/-- **A run from the empty store keeps names apart exactly when no step takes a name.** -/
theorem names_apart_iff {xs : List Step} (hrun : Run .empty xs)
    (hv : ∀ x ∈ xs, x.setup.settings.validateUniqueNames = true) :
    (∀ x ∈ xs, NamesApart x.after) ↔ ∀ x ∈ xs, ¬ x.TakesName := by
  constructor
  · intro hapart x hx htakes
    obtain ⟨happens, hk, -⟩ := hrun.invariant empty_keyed (fun _ _ => Step.keyed) x hx
    exact x.not_apart happens hk htakes (hapart x hx)
  · intro hfree x hx
    have htidy := hrun.invariant empty_tidy fun y hy happens ht =>
      Step.tidy happens (hv y hy) (hfree y hy) ht
    exact (htidy x hx).2.2.apart

/-! ### An assignment of a taken name -/

/-- Two categories are added, and the second is assigned the name of the first. -/
def assignTaken : List Call :=
  [.category (.add { Category.ofName "Suppliers" with id := .ofByte 1 }),
   .category (.add { Category.ofName "Customers" with id := .ofByte 2 }),
   .category (.assign ⟨[.ofByte 2], ["name"], Category.ofName " SUPPLIERS "⟩)]

def assignTakenSteps : List Step := performed {} {} .fresh assignTaken

def namesOf (es : Entries) : List (Option String) :=
  es.map fun e => (Document.value? e.2 "name").bind Value.string?

/-- Two categories have one name in the end. -/
theorem assignTaken_shares : ¬ ∀ x ∈ assignTakenSteps, NamesApart x.after := by
  have hv : ∀ x ∈ assignTakenSteps, x.setup.settings.validateUniqueNames = true := by
    decide +kernel
  have htakes : (assignTakenSteps.getLast (by decide)).TakesName := by
    obtain ⟨b, hb, hne, hname⟩ : ∃ b ∈ (assignTakenSteps.getLast (by decide)).before.entries
        "categories", b.1 ≠ .ofByte 2 ∧
          (Document.value? b.2 "name").bind Value.string? = some "Suppliers" := by decide +kernel
    obtain ⟨v, hv, hstring⟩ := Option.bind_eq_some_iff.mp hname
    refine ⟨⟨.ofByte 2, rfl, ⟨"name", .head _, rfl⟩, b, hb, hne, "Suppliers", ?_, ?_⟩, ?_⟩
    · cases v with
      | string x => cases hstring; exact hv
      | _ => cases hstring
    · exact ⟨by decide +kernel, by decide +kernel, by decide +kernel⟩
    · intro heq
      exact absurd (congrArg namesOf heq) (by decide +kernel)
  have hrun : Run .empty assignTakenSteps := run_performed {} {} (x := .fresh) rfl assignTaken
  intro hapart
  exact (names_apart_iff hrun hv).mp hapart _ (List.getLast_mem _) htakes

end Directory

end Registrar
