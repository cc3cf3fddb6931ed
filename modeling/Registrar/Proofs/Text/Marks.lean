import Mathlib.Data.List.Infix
import Registrar.Text.Replace

/-!
# Spelling out marks

A **mark** is a character that is spelled out as a word between double underscores, and read again
where this token stands. What is read can always be spelled again, so texts without the mark are
told apart by what they are read as. The other way round it depends on the text: reading goes wrong
when the text has the beginning of the token as it is, followed by underscores, or by a mark that
brings its underscores along.

* `Mark.spell`, `Mark.read`: spelling a mark out, and reading it again.
* `Mark.spell_read`: **what was read is spelled as it was**.
* `Mark.read_spell_iff`: **what was spelled is read as it was** unless it looked spelled before.
-/

namespace Registrar.Text

/-- **A mark and its word.** The word has no underscore, so it can be told from the underscores
around it. -/
structure Mark where
  char : Char
  word : List Char
  char_ne_underscore : char ≠ '_' := by decide
  word_ne_nil : word ≠ [] := by decide
  underscore_notMem_word : '_' ∉ word := by decide
  char_notMem_word : char ∉ word := by decide

namespace Mark

variable (m : Mark)

/-- The word between its underscores. -/
def token : List Char := '_' :: '_' :: (m.word ++ ['_', '_'])

/-- **A text with the mark spelled out.** -/
def spell (cs : List Char) : List Char := cs.flatMap fun c => if c = m.char then m.token else [c]

/-- **A text with the mark read again.** -/
def read (cs : List Char) : List Char := replaceAll m.token [m.char] cs

/-- What can stand after the word so that it looks spelled. -/
def endings : List (List Char) := [['_', '_'], ['_', m.char], [m.char]]

/-- **A text that looks spelled** has the beginning of the token as it is. -/
def LooksSpelled (cs : List Char) : Prop :=
  ∃ ending ∈ m.endings, '_' :: '_' :: (m.word ++ ending) <:+: cs

instance (cs : List Char) : Decidable (m.LooksSpelled cs) :=
  inferInstanceAs (Decidable (∃ ending ∈ m.endings, '_' :: '_' :: (m.word ++ ending) <:+: cs))

variable {m} {c : Char} {cs : List Char}

@[simp] theorem spell_nil : m.spell [] = [] := rfl

theorem spell_mark (h : c = m.char) (cs : List Char) :
    m.spell (c :: cs) = m.token ++ m.spell cs := by
  simp [spell, h]

theorem spell_cons (h : c ≠ m.char) (cs : List Char) : m.spell (c :: cs) = c :: m.spell cs := by
  simp [spell, h]

theorem spell_append (cs ds : List Char) : m.spell (cs ++ ds) = m.spell cs ++ m.spell ds :=
  List.flatMap_append

theorem spell_of_notMem (h : m.char ∉ cs) : m.spell cs = cs := by
  induction cs with
  | nil => rfl
  | cons c cs ih =>
    simp only [List.mem_cons, not_or] at h
    rw [spell_cons (Ne.symm h.1), ih h.2]

theorem mem_spell {x : Char} (h : x ∈ m.spell cs) : (x ∈ cs ∨ x ∈ m.token) ∧ x ≠ m.char := by
  have htoken : m.char ∉ m.token := by
    simp [token, m.char_ne_underscore, m.char_notMem_word]
  obtain ⟨c, hc, hx⟩ := List.mem_flatMap.mp h
  split at hx
  · exact ⟨.inr hx, fun heq => htoken (heq ▸ hx)⟩
  · rename_i hne
    obtain rfl := List.mem_singleton.mp hx
    exact ⟨.inl hc, hne⟩

/-! ### Reading what is spelled -/

theorem length_token : m.token.length = m.token.length - 1 + 1 := rfl

/-- **What was read is spelled as it was**, if the mark itself did not occur. -/
theorem spell_replaceFrom (skip : Nat) (h : m.char ∉ cs) :
    m.spell (replaceFrom m.token [m.char] skip cs) = cs.drop skip := by
  fun_induction replaceFrom m.token [m.char] skip cs with
  | case1 => simp
  | case2 skip c cs ih => exact ih (fun hmem => h (List.mem_cons_of_mem _ hmem))
  | case3 c cs hprefix ih =>
    obtain ⟨rest, hrest⟩ := List.isPrefixOf_iff_prefix.mp hprefix
    have hdrop : cs.drop (m.token.length - 1) = rest := by
      have := congrArg (List.drop m.token.length) hrest
      rwa [List.drop_left, length_token, List.drop_succ_cons, eq_comm] at this
    rw [List.singleton_append, spell_mark rfl, ih fun hmem => h (List.mem_cons_of_mem _ hmem), hdrop,
      hrest, List.drop_zero]
  | case4 c cs _ ih =>
    simp only [List.mem_cons, not_or] at h
    rw [spell_cons (Ne.symm h.1), ih h.2]
    rfl

theorem spell_read (h : m.char ∉ cs) : m.spell (m.read cs) = cs := spell_replaceFrom 0 h

theorem mem_replaceFrom {x : Char} {skip : Nat}
    (h : x ∈ replaceFrom m.token [m.char] skip cs) : x ∈ cs ∨ x = m.char := by
  fun_induction replaceFrom m.token [m.char] skip cs with
  | case1 => exact .inl h
  | case2 skip c cs ih => exact (ih h).imp_left (List.mem_cons_of_mem _)
  | case3 c cs _ ih =>
    rcases List.mem_append.mp h with h | h
    · exact .inr (List.mem_singleton.mp h)
    · exact (ih h).imp_left (List.mem_cons_of_mem _)
  | case4 c cs _ ih =>
    rcases List.mem_cons.mp h with rfl | h
    · exact .inl List.mem_cons_self
    · exact (ih h).imp_left (List.mem_cons_of_mem _)

theorem mem_read {x : Char} (h : x ∈ m.read cs) : x ∈ cs ∨ x = m.char := mem_replaceFrom h

/-! ### Spelling what is read -/

theorem replaceFrom_eq_read (skip : Nat) (cs : List Char) :
    replaceFrom m.token [m.char] skip cs = m.read (cs.drop skip) := by
  induction skip generalizing cs with
  | zero => rfl
  | succ skip ih =>
    cases cs with
    | nil => simp [read, replaceAll, replaceFrom]
    | cons c cs => rw [replaceFrom, ih, List.drop_succ_cons]

theorem read_token (cs : List Char) : m.read (m.token ++ cs) = m.char :: m.read cs := by
  have hprefix : m.token.isPrefixOf ('_' :: (m.token.tail ++ cs)) = true :=
    List.isPrefixOf_iff_prefix.mpr (List.prefix_append m.token cs)
  have hrest : (m.token.tail ++ cs).drop (m.token.length - 1) = cs :=
    List.drop_left' List.length_tail
  change m.read ('_' :: (m.token.tail ++ cs)) = _
  rw [read, replaceAll, replaceFrom, if_pos hprefix, replaceFrom_eq_read, hrest]
  rfl

theorem read_cons (h : ¬ m.token <+: c :: cs) : m.read (c :: cs) = c :: m.read cs := by
  rw [read, replaceAll, replaceFrom, if_neg fun hp => h (List.isPrefixOf_iff_prefix.mp hp)]
  rfl

theorem ending_prefix_iff :
    ['_', '_'] <+: m.spell cs ↔ ∃ ending ∈ m.endings, ending <+: cs := by
  cases cs with
  | nil => simp [endings]
  | cons c cs =>
    by_cases hc : c = m.char
    · subst hc
      simp [endings, spell_mark, token, List.cons_prefix_cons]
    · rw [spell_cons hc]
      cases cs with
      | nil => simp [endings, List.cons_prefix_cons, Ne.symm hc]
      | cons d cs =>
        by_cases hd : d = m.char
        · subst hd
          simp [endings, spell_mark, token, List.cons_prefix_cons, Ne.symm hc,
            Ne.symm m.char_ne_underscore]
        · simp [spell_cons hd, endings, List.cons_prefix_cons, Ne.symm hc, Ne.symm hd]

/-- A word is met before any mark, which would bring an underscore along. -/
theorem word_prefix_iff {word : List Char} (hunderscore : '_' ∉ word) (hchar : m.char ∉ word) :
    word ++ ['_', '_'] <+: m.spell cs ↔ ∃ ending ∈ m.endings, word ++ ending <+: cs := by
  induction word generalizing cs with
  | nil => exact ending_prefix_iff
  | cons x word ih =>
    simp only [List.mem_cons, not_or] at hunderscore hchar
    cases cs with
    | nil => simp
    | cons c cs =>
      by_cases hc : c = m.char
      · subst hc
        simp [spell_mark, token, Ne.symm hunderscore.1, Ne.symm hchar.1]
      · simp only [spell_cons hc, List.cons_append, List.cons_prefix_cons,
          ih hunderscore.2 hchar.2, ← exists_and_left, and_left_comm]

theorem underscore_prefix_iff :
    '_' :: (m.word ++ ['_', '_']) <+: m.spell cs ↔
      ∃ ending ∈ m.endings, '_' :: (m.word ++ ending) <+: cs := by
  cases cs with
  | nil => simp
  | cons c cs =>
    by_cases hc : c = m.char
    · subst hc
      obtain ⟨x, word, hword⟩ := List.exists_cons_of_ne_nil m.word_ne_nil
      have hx : x ≠ '_' := fun heq =>
        m.underscore_notMem_word (by rw [hword, heq]; exact List.mem_cons_self)
      simp [spell_mark, token, hword, hx, Ne.symm m.char_ne_underscore]
    · simp only [spell_cons hc, List.cons_prefix_cons, ← exists_and_left, and_left_comm,
        word_prefix_iff m.underscore_notMem_word m.char_notMem_word]

theorem token_prefix_iff (c : Char) :
    m.token <+: c :: m.spell cs ↔
      ∃ ending ∈ m.endings, '_' :: '_' :: (m.word ++ ending) <+: c :: cs := by
  simp only [token, List.cons_prefix_cons, underscore_prefix_iff, ← exists_and_left,
    and_left_comm]

theorem looksSpelled_cons :
    m.LooksSpelled (c :: cs) ↔
      (∃ ending ∈ m.endings, '_' :: '_' :: (m.word ++ ending) <+: c :: cs) ∨
        m.LooksSpelled cs := by
  simp only [LooksSpelled, List.infix_cons_iff, and_or_left, exists_or]

/-- **What was spelled is read as it was** unless it looked spelled before. -/
theorem read_spell_iff (cs : List Char) : m.read (m.spell cs) = cs ↔ ¬ m.LooksSpelled cs := by
  induction cs with
  | nil => simp [LooksSpelled, read, replaceAll, replaceFrom]
  | cons c cs ih =>
    rw [looksSpelled_cons]
    by_cases hc : c = m.char
    · subst hc
      have hne : ¬ ∃ ending ∈ m.endings,
          '_' :: '_' :: (m.word ++ ending) <+: m.char :: cs := by
        rintro ⟨_, -, hprefix⟩
        exact m.char_ne_underscore (List.cons_prefix_cons.mp hprefix).1.symm
      rw [spell_mark rfl, read_token, List.cons.injEq, ih]
      simp only [hne, true_and, false_or]
    · rw [spell_cons hc, ← token_prefix_iff]
      by_cases hprefix : m.token <+: c :: m.spell cs
      · obtain ⟨rest, hrest⟩ := hprefix
        simp [← hrest, read_token, Ne.symm hc]
      · simp [read_cons hprefix, hprefix, ih]

end Mark

end Registrar.Text
