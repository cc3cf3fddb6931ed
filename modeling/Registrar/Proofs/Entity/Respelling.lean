import Registrar.Entity.Form
import Registrar.Proofs.Text.Times

/-!
# Spelled values are spelled again

What a text spells can be read as the entries of an object only if it is itself spelled by a single
text. Then this text spells the same value, though it need not be the text that was there before:
an object id comes back in small digits, and a time in universal time. Only a decimal number is
spelled by its bytes, under a key that no text goes with.

* `Uuid.bytesOfHex?_hexDigits`: bytes are read as they are written.
* `Value.Spelt`: the kinds of values that texts spell.
* `Value.ofText?_respelled`: **what a text spells is spelled by a text again**, decimals apart.
-/

namespace Registrar

namespace Uuid

theorem hexValue?_digitChar : ∀ n < 16, hexValue? (Nat.digitChar n) = some n := by decide

theorem bytesOfHex?_hexDigits (bytes : List UInt8) :
    bytesOfHex? (hexDigits bytes) = some bytes := by
  induction bytes with
  | nil => rfl
  | cons b bytes ih =>
    have hb := b.toNat_lt
    change bytesOfHex? (Nat.digitChar (b.toNat / 16) :: Nat.digitChar (b.toNat % 16) ::
      hexDigits bytes) = _
    rw [bytesOfHex?, hexValue?_digitChar _ (by omega), hexValue?_digitChar _ (by omega), ih]
    simp only [Option.bind_eq_bind, Option.bind_some, Option.pure_def]
    rw [Nat.div_add_mod, UInt8.ofNat_toNat]

theorem length_hexDigits (bytes : List UInt8) : (hexDigits bytes).length = 2 * bytes.length := by
  induction bytes with
  | nil => rfl
  | cons b bytes ih =>
    change (hexDigits bytes).length + 1 + 1 = _
    rw [ih, List.length_cons]
    omega

theorem length_of_bytesOfHex? {cs : List Char} {bytes : List UInt8}
    (h : bytesOfHex? cs = some bytes) : cs.length = 2 * bytes.length := by
  induction cs using bytesOfHex?.induct generalizing bytes with
  | case1 =>
    cases h
    rfl
  | case2 => cases h
  | case3 a b cs ih =>
    rw [bytesOfHex?] at h
    simp only [Option.bind_eq_bind, Option.bind_eq_some_iff, Option.pure_def,
      Option.some.injEq] at h
    obtain ⟨_, -, _, -, rest, hrest, rfl⟩ := h
    rw [List.length_cons, List.length_cons, ih hrest, List.length_cons]
    omega

end Uuid

namespace Value

/-- **The kinds of values that texts spell.** None has parts. -/
inductive Spelt : Value → Prop where
  | objectId (bytes : List UInt8) (size : bytes.length = 12) : Spelt (.objectId bytes)
  | symbol (s : String) : Spelt (.symbol s)
  | code (s : String) : Spelt (.code s)
  | int32 (n : Int32) : Spelt (.int32 n)
  | int64 (n : Int64) : Spelt (.int64 n)
  | double (x : Double) : Spelt (.double x)
  | decimal128 (bytes : List UInt8) : Spelt (.decimal128 bytes)
  | dateTime (ms : Int64) : Spelt (.dateTime ms)

theorem spelt_of_ofText? {key text : String} {v : Value} (h : ofText? key text = some v) :
    v.Spelt := by
  unfold ofText? at h
  split at h
  · rw [objectId?] at h
    split at h
    · rename_i hlength
      obtain ⟨bytes, hbytes, rfl⟩ := Option.map_eq_some_iff.mp h
      have hsize := Uuid.length_of_bytesOfHex? hbytes
      exact .objectId bytes (by omega)
    · cases h
  · cases h
    exact .symbol text
  · cases h
    exact .code text
  · obtain ⟨n, -, h⟩ := Option.bind_eq_some_iff.mp h
    split at h
    · cases h
      exact .int32 _
    · cases h
  · obtain ⟨n, -, rfl⟩ := Option.map_eq_some_iff.mp h
    exact .int64 n
  · obtain ⟨x, -, rfl⟩ := Option.map_eq_some_iff.mp h
    exact .double x
  · obtain ⟨n, -, rfl⟩ := Option.map_eq_some_iff.mp h
    exact .decimal128 _
  · obtain ⟨ms, -, rfl⟩ := Option.map_eq_some_iff.mp h
    exact .dateTime _
  · cases h

theorem scalar_of_ofText? {key text : String} {v : Value} (h : ofText? key text = some v) :
    v.array? = none ∧ v.document? = none ∧ v ≠ .null := by
  cases spelt_of_ofText? h <;> exact ⟨rfl, rfl, nofun⟩

theorem objectId?_hexDigits {bytes : List UInt8} (h : bytes.length = 12) :
    objectId? (String.ofList (Uuid.hexDigits bytes)) = some (.objectId bytes) := by
  rw [objectId?, String.toList_ofList, if_pos (by rw [Uuid.length_hexDigits, h]),
    Uuid.bytesOfHex?_hexDigits]
  rfl

theorem entries_of_spelling {v : Value} {key text : String} (hdocument : v.document? = none)
    (h : v.spelling? = some [(key, .string text)]) :
    Form.stored.entries v = some [(key, text)] := by
  have hobject : Form.stored.object? v = some [(key, .string text)] := by
    rw [Form.object?, hdocument, h]
    rfl
  rw [Form.entries, hobject]
  rfl

theorem date_of_entries {ms : Int64} {entries : List (String × String)}
    (h : Form.stored.entries (.dateTime ms) = some entries) :
    ∃ text, entries = [("$date", text)] ∧
      (Value.dateTime ms).spelling? = some [("$date", .string text)] ∧
        ofText? "$date" text = some (.dateTime ms) := by
  have hspelling : (Value.dateTime ms).spelling? = some [("$date", timeSpelling ms.toInt)] := rfl
  rw [timeSpelling] at hspelling
  split at hspelling
  · rename_i hrange
    refine ⟨Calendar.spelled ms.toInt, ?_, hspelling, ?_⟩
    · exact Option.some.inj (h.symm.trans (entries_of_spelling rfl hspelling))
    · rw [ofText?, Calendar.parseSpelled?_spelled hrange.1 hrange.2, Option.map_some,
        Int64.ofInt_toInt]
  · have hobject : Form.stored.object? (.dateTime ms) = _ := hspelling
    rw [Form.entries, hobject] at h
    cases h

/-- **What a text spells is spelled by a text again**, if it can be read as entries at all and is no
decimal number. -/
theorem ofText?_respelled {key text : String} {v : Value} {entries : List (String × String)}
    (h : ofText? key text = some v) (hentries : Form.stored.entries v = some entries)
    (hdecimal : ∀ bytes, v ≠ .decimal128 bytes) :
    ∃ key' text', entries = [(key', text')] ∧ v.spelling? = some [(key', .string text')] ∧
      ofText? key' text' = some v := by
  cases spelt_of_ofText? h with
  | objectId bytes hsize =>
    have hspelling := entries_of_spelling (v := .objectId bytes) rfl rfl
    exact ⟨_, _, Option.some.inj (hentries.symm.trans hspelling), rfl, objectId?_hexDigits hsize⟩
  | symbol | code =>
    exact ⟨_, _, Option.some.inj (hentries.symm.trans (entries_of_spelling rfl rfl)), rfl, rfl⟩
  | int32 | int64 | double => cases hentries
  | decimal128 bytes => exact absurd rfl (hdecimal bytes)
  | dateTime ms => exact ⟨"$date", date_of_entries hentries⟩

theorem decimal_respelled {bytes : List UInt8} {entries : List (String × String)}
    (h : Form.stored.entries (.decimal128 bytes) = some entries) :
    ∃ key text, entries = [(key, text)] ∧ ofText? key text = none := by
  have hobject : Form.stored.object? (.decimal128 bytes) =
      some [("$numberDecimalBytes", .binary plainSubtype bytes)] := rfl
  rw [Form.entries, hobject] at h
  simp only [Option.bind_some, List.mapM_cons, List.mapM_nil, Option.bind_eq_bind,
    Option.bind_eq_some_iff, Option.map_eq_some_iff, Option.pure_def, Option.some.injEq] at h
  obtain ⟨_, ⟨text, -, rfl⟩, _, rfl, rfl⟩ := h
  exact ⟨_, text, rfl, rfl⟩

end Value

end Registrar
