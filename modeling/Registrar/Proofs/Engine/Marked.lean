import Registrar.Proofs.Engine.Answered
import Mathlib.Data.List.Perm.Subperm
import Mathlib.Data.List.TakeWhile

/-!
# Marked texts

A free text is sought at the start of a name, and a text that is marked with `%` anywhere in it.
The mark may stand before or after the blanks around the text, since both are read without them.
Hence marking a text can only add to what a search finds, in either place for a free text and
whatever else the search asks for. The two searches are refused alike.

* `Text.trimChars_mark`: what is left of a marked text.
* `FreeText.term_mark`: a text and the marked text have one term.
* `Collection.found_sublist_of_mark`: what is found for a text is found for the marked text.
* `mark_widens_search`: **a marked text finds all that the text finds**.
-/

namespace Registrar

/-! ### Blanks around a marked text -/

namespace Text

theorem trimChars_append_blanks {cs blanks : List Char} (h : ∀ c ∈ blanks, isBlank c = true) :
    trimChars (cs ++ blanks) = trimChars cs := by
  by_cases hcs : trimLeft cs = []
  · have hall : ∀ c ∈ cs, isBlank c = true := trimLeft_eq_nil_iff.mp hcs
    rw [trimChars_eq_nil_iff.mpr hall]
    refine trimChars_eq_nil_iff.mpr fun c hc => ?_
    exact (List.mem_append.mp hc).elim (hall c) (h c)
  · have hleft : trimLeft (cs ++ blanks) = trimLeft cs ++ blanks :=
      List.dropWhile_append.trans (if_neg (mt List.isEmpty_iff.mp hcs))
    have hright : trimLeft (blanks.reverse ++ (trimLeft cs).reverse) =
        trimLeft (trimLeft cs).reverse :=
      List.dropWhile_append_of_pos fun c hc => h c (List.mem_reverse.mp hc)
    rw [trimChars, hleft, List.reverse_append, hright, trimChars]

theorem trimChars_trimRight (cs : List Char) :
    trimChars (trimLeft cs.reverse).reverse = trimChars cs := by
  have hsplit : (trimLeft cs.reverse).reverse ++ (cs.reverse.takeWhile isBlank).reverse = cs := by
    rw [trimLeft, ← List.reverse_append, List.takeWhile_append_dropWhile, List.reverse_reverse]
  have hblanks : ∀ c ∈ (cs.reverse.takeWhile isBlank).reverse, isBlank c = true := fun c hc =>
    List.mem_takeWhile_imp (List.mem_reverse.mp hc)
  rw [← trimChars_append_blanks hblanks, hsplit]

/-- **A marked text** loses the blanks at its end only. -/
theorem trimChars_mark (cs : List Char) :
    trimChars ('%' :: cs) = '%' :: (trimLeft cs.reverse).reverse := by
  have hleft : trimLeft ('%' :: cs) = '%' :: cs := rfl
  have hright : trimLeft (cs.reverse ++ ['%']) = trimLeft cs.reverse ++ ['%'] := by
    rw [trimLeft, trimLeft, List.dropWhile_append]
    split
    · rename_i h
      rw [List.isEmpty_iff.mp h]
      rfl
    · rfl
  rw [trimChars, hleft, List.reverse_cons, hright, List.reverse_append]
  rfl

end Text

namespace FreeText

variable {text name : String}

/-- The text with the mark before it. -/
def mark (text : String) : String := "%" ++ text

theorem trimChars_toList_mark (text : String) : Text.trimChars (mark text).toList =
    '%' :: (Text.trimLeft text.toList.reverse).reverse := by
  rw [mark, String.toList_append]
  exact Text.trimChars_mark text.toList

theorem isMarked_mark (text : String) : isMarked (mark text) = true := by
  rw [isMarked, trimChars_toList_mark]
  rfl

/-- **The term of a marked text** is the text without the blanks around it. -/
theorem term_mark (text : String) : term (mark text) = Text.trim text := by
  rw [term, if_pos (isMarked_mark text), trimChars_toList_mark, List.tail_cons,
    Text.trimChars_trimRight, Text.trim]

theorem term_of_unmarked (h : isMarked text = false) : term text = Text.trim text := by
  rw [term, h]
  rfl

/-- A text and the marked text ask for something alike, unless the text is a lone `*`. -/
theorem asks_of_mark (hstar : Text.trim text ≠ "*") (hmark : isMarked text = false)
    (h : Asks (mark text)) : Asks text := by
  refine ⟨hstar, ?_⟩
  rw [term_of_unmarked hmark, ← term_mark]
  exact h.2

/-- **A name that begins with a text contains it.** -/
theorem answers_mark (hmark : isMarked text = false) (h : Answers text name) :
    Answers (mark text) name := by
  rw [Answers, hmark, term_of_unmarked hmark] at h
  rw [Answers, if_pos (isMarked_mark text), term_mark]
  exact h.isInfix

end FreeText

/-! ### Either place for a free text -/

/-- The places that an inquiry has for a free text. -/
inductive TextPlace where
  | query
  | name

/-- An inquiry with a free text in one of the places. -/
def Inquiry.withText (p : Inquiry) (text : String) : TextPlace → Inquiry
  | .query => { p with query := some text }
  | .name => { p with name := some text }

namespace Schema

variable {sc : Schema} {p : Inquiry} {place : TextPlace} {text : String} {d : Document}

theorem textMet_mark (hstar : Text.trim text ≠ "*") (hmark : FreeText.isMarked text = false)
    (h : sc.TextMet text d) : sc.TextMet (FreeText.mark text) d := by
  intro hasks
  refine (h (FreeText.asks_of_mark hstar hmark hasks)).imp_right ?_
  rintro ⟨field, hfield, name, hname, hanswers⟩
  exact ⟨field, hfield, name, hname, FreeText.answers_mark hmark hanswers⟩

/-- **What a search with a text asks for**, the search with the marked text asks for, too. -/
theorem meets_mark (hstar : Text.trim text ≠ "*") (hmark : FreeText.isMarked text = false)
    (h : sc.Meets (p.withText text place) d) :
    sc.Meets (p.withText (FreeText.mark text) place) d := by
  cases place with
  | query =>
    refine ⟨h.conditions, fun t ht => ?_, h.references⟩
    rcases ht with ht | ht
    · obtain rfl := Option.some.inj ht
      exact textMet_mark hstar hmark (h.texts text (.inl rfl))
    · exact h.texts t (.inr ht)
  | name =>
    refine ⟨h.conditions, fun t ht => ?_, h.references⟩
    rcases ht with ht | ht
    · exact h.texts t (.inl ht)
    · obtain rfl := Option.some.inj ht
      exact textMet_mark hstar hmark (h.texts text (.inr rfl))

theorem filterOf_mark_error_iff (sc : Schema) (p : Inquiry) (place : TextPlace) (text : String)
    (e : StoreError) : sc.filterOf (p.withText text place) = .error e ↔
      sc.filterOf (p.withText (FreeText.mark text) place) = .error e := by
  cases place with
  | query => refine filterOf_error_iff_of_texts ?_ ?_ ?_ e <;> rfl
  | name => refine filterOf_error_iff_of_texts ?_ ?_ ?_ e <;> rfl

end Schema

/-! ### What is found -/

namespace Collection

variable {E : Type} {c : Collection E} {caller : Caller} {s : Store} {p : Inquiry}
  {place : TextPlace} {text : String} {f g : Option Filter}

theorem found_sublist (h : ∀ d, Filter.admits f d = true → Filter.admits g d = true) :
    (c.found caller f s).Sublist (c.found caller g s) := by
  refine (List.monotone_filter_right _ fun d hd => ?_).filter _
  rw [storeFilter, Filter.admits_all?, Bool.and_eq_true] at hd ⊢
  exact ⟨h d hd.1, hd.2⟩

/-- **What is found for a text is found for the marked text.** -/
theorem found_sublist_of_mark (hstar : Text.trim text ≠ "*")
    (hmark : FreeText.isMarked text = false)
    (hf : c.schema.filterOf (p.withText text place) = .ok f)
    (hg : c.schema.filterOf (p.withText (FreeText.mark text) place) = .ok g) :
    (c.found caller f s).Sublist (c.found caller g s) := by
  refine found_sublist fun d hd => ?_
  rw [Schema.admits_filterOf_iff hg]
  exact Schema.meets_mark hstar hmark ((Schema.admits_filterOf_iff hf).mp hd)

/-- Two answers in full, of which the first is read from documents that the second is read from. -/
theorem subperm_of_found {q : Inquiry} {page page' : SearchPage E} (hp : p.IsUnpaged)
    (hq : q.IsUnpaged) (h : c.AnsweredFrom caller f s p page)
    (h' : c.AnsweredFrom caller g s q page')
    (hfound : (c.found caller f s).Sublist (c.found caller g s)) :
    ∃ ds ds', ds.Subperm ds' ∧ List.Forall₂ (c.ReadFrom p.includeDependents) ds page.results ∧
      List.Forall₂ (c.ReadFrom q.includeDependents) ds' page'.results := by
  obtain ⟨ds, hperm, hread⟩ := h
  obtain ⟨ds', hperm', hread'⟩ := h'
  rw [hp.cut] at hread
  rw [hq.cut] at hread'
  refine ⟨ds, ds', ?_, hread, hread'⟩
  exact (hperm.subperm.trans hfound.subperm).trans hperm'.symm.subperm

theorem subperm_results {ds ds' : List Document} {es es' : List E}
    (h : List.Forall₂ (c.ReadFrom false) ds es) (h' : List.Forall₂ (c.ReadFrom false) ds' es')
    (hds : ds.Subperm ds') : es.Subperm es' := by
  have hread : ∀ {ds es}, List.Forall₂ (c.ReadFrom false) ds es →
      ds.filterMap c.kind.ofDocument? = es := by
    intro ds es h
    induction h with
    | nil => rfl
    | cons hde _ ih =>
      obtain ⟨x, hx, hde⟩ := hde
      rw [hx.plain rfl] at hde
      rw [List.filterMap_cons_some hde, ih]
  obtain ⟨ds'', hperm, hsub⟩ := hds
  rw [← hread h, ← hread h']
  exact ⟨_, hperm.filterMap _, hsub.filterMap _⟩

end Collection

/-- **A marked text finds all that the text finds.** Let a text be no lone `*` and have no mark
yet, whatever blanks are around it. Then the search with this text as its query, or as its name, is
refused exactly when the search with the marked text is, and in the same words. Otherwise all that
the first one finds is found by the second one; and when both are answered in full, the entities of
the first answer are read from some of the documents that those of the second are read from. -/
theorem mark_widens_search {E : Type} (c : Collection E) (caller : Caller) (s : Store)
    (p : Inquiry) (place : TextPlace) {text : String} (hstar : Text.trim text ≠ "*")
    (hmark : FreeText.isMarked text = false) :
    (∀ e, c.schema.filterOf (p.withText text place) = .error e ↔
      c.schema.filterOf (p.withText (FreeText.mark text) place) = .error e) ∧
    (∀ f, c.schema.filterOf (p.withText text place) = .ok f →
      ∃ g, c.schema.filterOf (p.withText (FreeText.mark text) place) = .ok g ∧
        (c.found caller f s).Sublist (c.found caller g s)) ∧
    ∀ w w' t u page page', p.IsUnpaged →
      (c.search caller (p.withText text place)).run.Runs w s (.ok page) t →
      (c.search caller (p.withText (FreeText.mark text) place)).run.Runs w' s (.ok page') u →
      (∃ ds ds', ds.Subperm ds' ∧ List.Forall₂ (c.ReadFrom p.includeDependents) ds page.results ∧
        List.Forall₂ (c.ReadFrom p.includeDependents) ds' page'.results) ∧
      (p.includeDependents = false → page.results.Subperm page'.results) := by
  have hrefused := Schema.filterOf_mark_error_iff c.schema p place text
  refine ⟨hrefused, fun f hf => ?_, ?_⟩
  · cases hg : c.schema.filterOf (p.withText (FreeText.mark text) place) with
    | error e =>
      rw [(hrefused e).mpr hg] at hf
      cases hf
    | ok g => exact ⟨g, rfl, Collection.found_sublist_of_mark hstar hmark hf hg⟩
  · intro w w' t u page page' hp hrun hrun'
    obtain ⟨f, hf, hanswer⟩ := Collection.answered_from hrun
    obtain ⟨g, hg, hanswer'⟩ := Collection.answered_from hrun'
    have hfound : (c.found caller f s).Sublist (c.found caller g s) :=
      Collection.found_sublist_of_mark hstar hmark hf hg
    have hplace : ∀ text, (p.withText text place).IsUnpaged ∧
        (p.withText text place).includeDependents = p.includeDependents := by
      intro text
      cases place <;> exact ⟨hp, rfl⟩
    obtain ⟨ds, ds', hds, hread, hread'⟩ := Collection.subperm_of_found (hplace _).1 (hplace _).1
      hanswer hanswer' hfound
    rw [(hplace _).2] at hread hread'
    refine ⟨⟨ds, ds', hds, hread, hread'⟩, fun hfollow => ?_⟩
    rw [hfollow] at hread hread'
    exact Collection.subperm_results hread hread' hds

namespace Directory

/-- **One contact has a name that begins with a text, and two have one that contains it.** Blanks
around the text do not count, nor do those behind the mark. -/
theorem search_b_widened :
    ∃ f g, Contact.schema.filterOf (({} : Inquiry).withText " b " .query) = .ok f ∧
      Contact.schema.filterOf (({} : Inquiry).withText "% b " .query) = .ok g ∧
      ((Collection.mk Contact.kind .unrestricted {}).found {} f staffStore).Sublist
        ((Collection.mk Contact.kind .unrestricted {}).found {} g staffStore) ∧
      ((Collection.mk Contact.kind .unrestricted {}).found {} f staffStore).length = 1 ∧
      ((Collection.mk Contact.kind .unrestricted {}).found {} g staffStore).length = 2 := by
  let contacts : Collection Contact := ⟨Contact.kind, .unrestricted, {}⟩
  let count (text : String) : Option Nat :=
    (contacts.schema.filterOf (({} : Inquiry).withText text .query)).toOption.map
      fun f => (contacts.found {} f staffStore).length
  have hcount : ∀ text n, count text = some n →
      ∃ f, contacts.schema.filterOf (({} : Inquiry).withText text .query) = .ok f ∧
        (contacts.found {} f staffStore).length = n := by
    intro text n h
    cases hf : contacts.schema.filterOf (({} : Inquiry).withText text .query) with
    | error e =>
      simp only [count, hf] at h
      cases h
    | ok f =>
      simp only [count, hf] at h
      exact ⟨f, rfl, Option.some.inj h⟩
  obtain ⟨f, hf, hone⟩ := hcount " b " 1 (by decide +kernel)
  obtain ⟨g, hg, htwo⟩ := hcount "% b " 2 (by decide +kernel)
  obtain ⟨-, hfound, -⟩ := @mark_widens_search _ contacts {} staffStore {} .query " b "
    (by decide) (by decide)
  obtain ⟨g', hg', hsub⟩ := hfound f hf
  obtain rfl : g = g' := Except.ok.inj (hg.symm.trans hg')
  exact ⟨f, g, hf, hg, hsub, hone, htwo⟩

end Directory

end Registrar
