import Registrar.Proofs.Entity.Respelling

/-!
# What is written in either form is read back

An id is exchanged as its text, a time as the object that spells its milliseconds. Both are read as
they were written: the groups of a text hold the digits of the bytes, and the digits of a number
denote it. A reader that gives back what a writer wrote does so for optional values and for lists,
too.

* `Text.parseInt64?_toString`: integers as text.
* `Uuid.parse?_text`: ids as text.
* `Reading.Inverts`: **a reader gives back what a writer wrote**.
* `Form.inverts_id`, `Form.inverts_time`: ids and times in either form.
-/

namespace Registrar

/-! ### Integers -/

namespace Text

theorem parseDigits?_toDigits (n : Nat) : parseDigits? (Nat.toDigits 10 n) = some n := by
  have hdigits : (Nat.toDigits 10 n).all isDigit = true := List.all_eq_true.mpr fun _ hc =>
    Nat.isDigit_of_mem_toDigits (by decide) (by decide) hc
  rw [parseDigits?, if_neg]
  · rw [natOfDigits_eq, Nat.ofDigitChars_ten_toDigits]
  · simp [hdigits, Nat.toDigits_ne_nil]

theorem parseSigned?_toDigits (n : Nat) : parseSigned? (Nat.toDigits 10 n) = some (n : Int) := by
  have hread := parseDigits?_toDigits n
  have hdigits : ∀ c ∈ Nat.toDigits 10 n, c.isDigit = true := fun _ hc =>
    Nat.isDigit_of_mem_toDigits (by decide) (by decide) hc
  generalize Nat.toDigits 10 n = ds at hread hdigits
  rw [parseSigned?.eq_def]
  split
  · exact absurd (hdigits _ List.mem_cons_self) (by decide)
  · exact absurd (hdigits _ List.mem_cons_self) (by decide)
  · rw [hread]
    rfl

/-- **An integer is read as it is written.** -/
theorem parseInt?_toString (n : Int) : parseInt? (toString n) = some n := by
  rw [parseInt?, Int.toString_eq_repr, Int.repr_eq_if]
  split
  · rw [Nat.toList_repr, parseSigned?_toDigits, Int.toNat_of_nonneg ‹_›]
  · have hsign : "-".toList = ['-'] := rfl
    rw [String.toList_append, Nat.toList_repr, hsign, List.singleton_append, parseSigned?,
      parseDigits?_toDigits]
    refine congrArg some (show -((-n).toNat : Int) = n from ?_)
    omega

theorem parseInt64?_toString (n : Int64) : parseInt64? (toString n.toInt) = some n := by
  have hleast := n.le_toInt
  have hmost := n.toInt_lt
  rw [parseInt64?, parseInt?_toString, Option.bind_some, if_pos (by omega), Int64.ofInt_toInt]

end Text

/-! ### Ids -/

namespace Uuid

theorem parseSimple?_hexDigits (u : Uuid) : parseSimple? (hexDigits u.bytes) = some u := by
  rw [parseSimple?, if_pos (by rw [length_hexDigits, u.size_eq]), bytesOfHex?_hexDigits,
    Option.bind_some, ofBytes?_bytes]

/-- **Five groups of digits** with hyphens between them are read as the digits together. -/
theorem parseHyphenated?_groups {a b c d e : List Char} (ha : a.length = 8) (hb : b.length = 4)
    (hc : c.length = 4) (hd : d.length = 4) (he : e.length = 12) :
    parseHyphenated? (a ++ '-' :: (b ++ '-' :: (c ++ '-' :: (d ++ '-' :: e)))) =
      parseSimple? (a ++ b ++ c ++ d ++ e) := by
  rw [parseHyphenated?, if_pos (by simp [ha, hb, hc, hd, he])]
  refine congrArg parseSimple? ?_
  simp (disch := omega) [List.drop_append, List.drop_eq_nil_of_le, ha, hb, hc, hd]

/-- **The text of an id** is that of its digits, in groups. -/
theorem toList_text (u : Uuid) : ∃ a b c d e : List Char, a.length = 8 ∧ b.length = 4 ∧
    c.length = 4 ∧ d.length = 4 ∧ e.length = 12 ∧ a ++ b ++ c ++ d ++ e = hexDigits u.bytes ∧
      u.text.toList = a ++ '-' :: (b ++ '-' :: (c ++ '-' :: (d ++ '-' :: e))) := by
  have hlength : (hexDigits u.bytes).length = 32 := by rw [length_hexDigits, u.size_eq]
  have hgroup : ∀ i k, i + k ≤ 32 → (((hexDigits u.bytes).drop i).take k).length = k := by
    intro i k hle
    rw [List.length_take, List.length_drop, hlength]
    omega
  refine ⟨_, _, _, _, _, hgroup 0 8 (by decide), hgroup 8 4 (by decide), hgroup 12 4 (by decide),
    hgroup 16 4 (by decide), hgroup 20 12 (by decide), ?_, ?_⟩
  · have hsplit : ∀ i k, ((hexDigits u.bytes).drop i).take k ++ (hexDigits u.bytes).drop (i + k) =
        (hexDigits u.bytes).drop i := by
      intro i k
      rw [← List.drop_drop, List.take_append_drop]
    have hlast : ((hexDigits u.bytes).drop 20).take 12 = (hexDigits u.bytes).drop 20 :=
      List.take_of_length_le (by rw [List.length_drop, hlength])
    rw [hlast, List.append_assoc, List.append_assoc, List.append_assoc, hsplit 16 4, hsplit 12 4,
      hsplit 8 4, hsplit 0 8, List.drop_zero]
  · simp [text]

/-- **An id is read from its text.** -/
theorem parse?_text (u : Uuid) : parse? u.text = some u := by
  obtain ⟨a, b, c, d, e, ha, hb, hc, hd, he, hdigits, htext⟩ := u.toList_text
  have hlength : u.text.toList.length = 36 := by
    simp only [htext, List.length_append, List.length_cons]
    omega
  rw [parse?, if_neg (by rw [hlength]; decide), if_pos hlength, htext,
    parseHyphenated?_groups ha hb hc hd he, hdigits, parseSimple?_hexDigits]

end Uuid

/-! ### Readers and writers -/

namespace Reading

variable {α : Type} {r : Reader α} {w : α → Value}

/-- **A reader gives back what a writer wrote.** -/
def Inverts (r : Reader α) (w : α → Value) : Prop := ∀ a, r (w a) = some a

theorem Inverts.isSome (h : Inverts r w) (a : α) : (r (w a)).isSome = true :=
  Option.isSome_of_eq_some (h a)

theorem Inverts.list (h : Inverts r w) :
    Inverts (Reading.list r) fun items => .array (items.map w) := by
  intro items
  change (items.map w).mapM r = _
  induction items with
  | nil => rfl
  | cons a rest ih =>
    rw [List.map_cons, List.mapM_cons, h a, ih]
    rfl

/-- An optional value is written as null when it is missing, which no other value is. -/
theorem Inverts.nullable (h : Inverts r w) (hnull : ∀ a, w a ≠ .null) :
    Inverts (Reading.nullable r) fun a => (a.map w).getD .null := by
  intro a
  cases a with
  | none => rfl
  | some a =>
    change Reading.nullable r (w a) = some (some a)
    rw [Reading.nullable, h a]
    · rfl
    · exact hnull a

end Reading

namespace Form

open Reading

variable (form : Form)

theorem fields?_document (names : List String) (d : Document) :
    form.fields? names (.document d) = some d := by
  cases form <;> rfl

/-- **Ids are read as they are written**, in either form. -/
theorem inverts_id : Inverts form.id form.ofUuid := by
  intro u
  cases form with
  | stored => exact id_ofUuid_stored u
  | exchanged => exact Uuid.parse?_text u

/-- **Times are read as they are written**, in either form. -/
theorem inverts_time : Inverts form.time form.ofTime := by
  intro ms
  cases form with
  | stored => exact time_ofTime_stored ms
  | exchanged =>
    have hread : exchanged.spelledTime
        (.document [("$numberLong", .string (toString ms.toInt))]) = some ms :=
      Text.parseInt64?_toString ms
    have hvalue : exchanged.value (exchanged.ofTime ms) = some (.dateTime ms) :=
      congrArg (Option.map Value.dateTime) hread
    rw [time, hvalue]

end Form

end Registrar
