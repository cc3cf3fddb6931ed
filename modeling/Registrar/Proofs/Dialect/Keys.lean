import Registrar.Dialect.Key
import Registrar.Proofs.Text.Marks

/-!
# Escaped keys

Escaping spells out three marks, first the dots, then the dollar signs, and the null characters
last; a key is read in the opposite order. Each round can be taken for text that the key has itself,
and a later one also for text that an earlier one wrote: between two dots, the word `dollar` looks
like an escaped dollar sign.

* `escapeKey_unescapeKey`: stored keys are escaped as they were when they have been read.
* `Faithful`: no round meets text that looks like its own.
* `unescapeKey_escapeKey_iff`: **exactly the faithful keys come back**.
* `escapeKey_inj`: faithful keys are stored apart.
-/

namespace Registrar.Dialect

open Text

/-! ### The marks -/

def dotMark : Mark where
  char := '.'
  word := "dot".toList

def dollarMark : Mark where
  char := '$'
  word := "dollar".toList

def nullMark : Mark where
  char := Char.ofNat 0
  word := "null".toList

theorem escapeChars_eq (cs : List Char) :
    escapeChars cs = nullMark.spell (dollarMark.spell (dotMark.spell cs)) := by
  have hdot : nullMark.spell (dollarMark.spell dotMark.token) = dotMark.token := by decide
  have hdollar : nullMark.spell dollarMark.token = dollarMark.token := by decide
  induction cs with
  | nil => rfl
  | cons c cs ih =>
    change escapeChar c ++ escapeChars cs = _
    rw [ih, escapeChar]
    by_cases hc : c = '.'
    · rw [dotMark.spell_mark hc, dollarMark.spell_append, nullMark.spell_append, hdot, if_pos hc]
      rfl
    rw [dotMark.spell_cons hc, if_neg hc]
    by_cases hc : c = '$'
    · rw [dollarMark.spell_mark hc, nullMark.spell_append, hdollar, if_pos hc]
      rfl
    rw [dollarMark.spell_cons hc, if_neg hc]
    by_cases hc : c = Char.ofNat 0
    · rw [nullMark.spell_mark hc, if_pos hc]
      rfl
    rw [nullMark.spell_cons hc, if_neg hc]
    rfl

theorem unescapeChars_eq (cs : List Char) :
    unescapeChars cs = dotMark.read (dollarMark.read (nullMark.read cs)) := rfl

/-- **A text without marks**, as stored keys are. -/
structure Plain (cs : List Char) : Prop where
  dot : '.' ∉ cs
  dollar : '$' ∉ cs
  null : Char.ofNat 0 ∉ cs

theorem plain_escapeChars (cs : List Char) : Plain (escapeChars cs) := by
  rw [escapeChars_eq]
  refine ⟨fun h => ?_, fun h => ?_, fun h => (Mark.mem_spell h).2 rfl⟩
  · rcases (Mark.mem_spell h).1 with h | h
    · rcases (Mark.mem_spell h).1 with h | h
      · exact (Mark.mem_spell h).2 rfl
      · exact absurd h (by decide)
    · exact absurd h (by decide)
  · rcases (Mark.mem_spell h).1 with h | h
    · exact (Mark.mem_spell h).2 rfl
    · exact absurd h (by decide)

theorem plain_escapeKey (key : String) : Plain (escapeKey key).toList := by
  rw [escapeKey, String.toList_ofList]
  exact plain_escapeChars _

/-- **A key without marks** is stored as it is. -/
theorem escapeChars_of_plain {cs : List Char} (h : Plain cs) : escapeChars cs = cs := by
  rw [escapeChars_eq, dotMark.spell_of_notMem h.dot, dollarMark.spell_of_notMem h.dollar,
    nullMark.spell_of_notMem h.null]

theorem escapeKey_eq_self_iff {key : String} : escapeKey key = key ↔ Plain key.toList := by
  rw [escapeKey, ← String.toList_inj, String.toList_ofList]
  exact ⟨fun h => h ▸ plain_escapeChars _, escapeChars_of_plain⟩

theorem plain_of_length_lt {cs : List Char} (h : (escapeChars cs).length < 7) : Plain cs := by
  have hshort : ∀ c ∈ cs, (escapeChar c).length < 7 := by
    intro c hc
    obtain ⟨before, after, rfl⟩ := List.append_of_mem hc
    rw [escapeChars, List.flatMap_append, List.flatMap_cons] at h
    simp only [List.length_append] at h
    omega
  exact ⟨fun hdot => absurd (hshort _ hdot) (by decide),
    fun hdollar => absurd (hshort _ hdollar) (by decide),
    fun hnull => absurd (hshort _ hnull) (by decide)⟩

/-- The rounds of reading are undone one after the other. -/
theorem spell_unescapeChars {cs : List Char} (h : Plain cs) :
    dotMark.spell (unescapeChars cs) = dollarMark.read (nullMark.read cs) ∧
      dollarMark.spell (dollarMark.read (nullMark.read cs)) = nullMark.read cs ∧
        nullMark.spell (nullMark.read cs) = cs := by
  rw [unescapeChars_eq]
  refine ⟨dotMark.spell_read fun hdot => ?_, dollarMark.spell_read fun hdollar => ?_,
    nullMark.spell_read h.null⟩
  · rcases Mark.mem_read hdot with hdot | heq
    · rcases Mark.mem_read hdot with hdot | heq
      · exact h.dot hdot
      · exact absurd heq (by decide)
    · exact absurd heq (by decide)
  · rcases Mark.mem_read hdollar with hdollar | heq
    · exact h.dollar hdollar
    · exact absurd heq (by decide)

/-- **A stored key** that was read is escaped to what it was. -/
theorem escapeKey_unescapeKey {key : String} (h : Plain key.toList) :
    escapeKey (unescapeKey key) = key := by
  obtain ⟨hdot, hdollar, hnull⟩ := spell_unescapeChars h
  rw [escapeKey, unescapeKey, String.toList_ofList, escapeChars_eq, hdot, hdollar, hnull,
    String.ofList_toList]

/-! ### Faithful keys -/

/-- **A key that comes back**: no round of escaping meets text that looks like its own. -/
structure Faithful (key : String) : Prop where
  dots : ¬ dotMark.LooksSpelled key.toList
  dollars : ¬ dollarMark.LooksSpelled (dotMark.spell key.toList)
  nulls : ¬ nullMark.LooksSpelled (dollarMark.spell (dotMark.spell key.toList))

instance (key : String) : Decidable (Faithful key) :=
  decidable_of_iff (_ ∧ _ ∧ _)
    ⟨fun ⟨hdots, hdollars, hnulls⟩ => ⟨hdots, hdollars, hnulls⟩,
      fun h => ⟨h.dots, h.dollars, h.nulls⟩⟩

/-- **Exactly the faithful keys come back.** -/
theorem unescapeKey_escapeKey_iff (key : String) :
    unescapeKey (escapeKey key) = key ↔ Faithful key := by
  rw [← String.toList_inj, unescapeKey, escapeKey, String.toList_ofList, String.toList_ofList]
  constructor
  · intro h
    obtain ⟨hdot, hdollar, hnull⟩ := spell_unescapeChars (plain_escapeChars key.toList)
    rw [h] at hdot
    rw [← hdot] at hdollar
    refine ⟨?_, ?_, ?_⟩
    · rwa [← dotMark.read_spell_iff, hdot]
    · rw [← dollarMark.read_spell_iff, hdollar, hdot]
    · rw [← nullMark.read_spell_iff, ← escapeChars_eq, hdollar]
  · intro h
    rw [escapeChars_eq, unescapeChars_eq, (nullMark.read_spell_iff _).mpr h.nulls,
      (dollarMark.read_spell_iff _).mpr h.dollars, (dotMark.read_spell_iff _).mpr h.dots]

/-- A dotted key whose middle word looks like an escaped dollar sign. -/
example : ¬ Faithful "price.dollar.amount" := by decide +kernel

/-- **Faithful keys are stored apart.** -/
theorem escapeKey_inj {key other : String} (hkey : Faithful key) (hother : Faithful other) :
    escapeKey key = escapeKey other ↔ key = other := by
  refine ⟨fun h => ?_, congrArg escapeKey⟩
  rw [← (unescapeKey_escapeKey_iff key).mpr hkey, h,
    (unescapeKey_escapeKey_iff other).mpr hother]

end Registrar.Dialect
