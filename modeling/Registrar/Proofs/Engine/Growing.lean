import Registrar.Proofs.Engine.Incarnations
import Registrar.Proofs.Store.Counting

/-!
# Counters that grow

Every increment goes through a double, those of a version too. So an increment is exact just if the
number it adds to has 53 places, or is the greatest one. A version begins at zero and is counted up
by one, so it grows with every write until it is 2^53 + 1, and it stays there.

* `value?_version_of_concerned`: the version of a document that was written.
* `increments_exact_iff`: increments, repeated increments and versions, and where they are exact.
-/

namespace Registrar

open Double

namespace Pool

variable {s : Store} {asked : Nat → Asked} {w : Surroundings} {id : Uuid} {d d' : Document}
  {τ₁ τ₂ : List (Event (Except Failure (Answer Unit)))} {e : Event (Except Failure (Answer Unit))}

/-- **A document that is written and stays** has the next version, which is greater unless the last
one is reached. -/
theorem value?_version_of_concerned (hk : Asked.Lawful asked)
    (h : (ofAsked s asked).History w (τ₁ ++ e :: τ₂)) {field : String}
    (hf : Asked.CountsIn asked (asked e.actor).collection.name field)
    (hs : Counted field (s.entries (asked e.actor).collection.name))
    (hc : e.exchange.1.Concerns e.before (asked e.actor).collection.name id)
    (hd : (id, d) ∈ e.before.entries (asked e.actor).collection.name)
    (hd' : (id, d') ∈ e.after.entries (asked e.actor).collection.name) :
    ∃ v v' : Int64, d.value? field = some (.int64 v) ∧ d'.value? field = some (.int64 v') ∧
      v'.toInt = min (v.toInt + 1) (2 ^ 53 + 1) ∧ (v.toInt < v'.toInt ↔ v.toInt ≤ 2 ^ 53) := by
  have hissues := issues_ofAsked hk h e (List.mem_append_right _ List.mem_cons_self)
  have hbefore := counted_after hk hf (history_append.mp h).1 hs
  have hstep := h.step
  rw [← hstep.before] at hbefore
  have hwrites := (asked e.actor).collection.writes_reply hissues hstep.reply
  obtain ⟨v, hv, h0, hb⟩ := hbefore.version _ hd
  rcases hwrites.cases_of_concerned hbefore.toKeyed hc hd' with
    ⟨hnew, -⟩ | ⟨x, u, hx, hincs, hsets, rfl⟩
  · exact absurd (List.mem_map_of_mem hd) hnew
  · have hone : x = d := Entries.eq_of_mem hbefore.nodup hx hd
    subst hone
    have hnext := Collection.value?_versioned_next (hk e.actor).schema (hf e.actor rfl) hincs hsets
      hv h0 hb
    refine ⟨v, _, hv, hnext, ?_, ?_⟩
    · rw [toInt_nextVersion h0 hb, lastVersion]
    · rw [lastVersion] at hb
      rw [toInt_nextVersion h0 hb, lastVersion]
      omega

end Pool

/-- **Where increments are exact.** An update that counts up at a path by an amount leaves the sum of
the number that is read there and the amount, if this is within 64 bits. If the sum with the number
that is stored is within 64 bits, it is what is left just if that number has 53 places, or is the
greatest one. Increments by one that are repeated come to a halt at 2^53 + 1. And in every history
of operations, a document that is written has a greater version afterwards just if its version was
2^53 at most. -/
theorem increments_exact_iff {u : Update} {path : String} {k : Int64} (hu : u.Adds path k)
    {d : Document} {n : Int64} (h : d.readPath? path = some (.int64 n)) :
    (-2 ^ 63 ≤ (counted n).toInt + k.toInt → (counted n).toInt + k.toInt < 2 ^ 63 →
      ∃ v : Int64, (u.apply d).readPath? path = some (.int64 v) ∧
        v.toInt = (counted n).toInt + k.toInt) ∧
    (-2 ^ 63 ≤ n.toInt + k.toInt → n.toInt + k.toInt < 2 ^ 63 →
      ((∃ v : Int64, (u.apply d).readPath? path = some (.int64 v) ∧
        v.toInt = n.toInt + k.toInt) ↔
        2 ^ lostPlaces n.toInt.natAbs ∣ n.toInt.natAbs ∨ n.toInt = maxInt64)) ∧
    (-2 ^ 53 ≤ n.toInt → n.toInt ≤ 2 ^ 53 + 1 → ∀ m : Nat, ∃ v : Int64,
      ((Update.succ path).apply^[m] d).readPath? path = some (.int64 v) ∧
      v.toInt = min (n.toInt + m) (2 ^ 53 + 1)) ∧
    ∀ asked : Nat → Asked, Asked.Lawful asked → ∀ (s : Store) (w : Surroundings)
      (τ₁ : List (Event (Except Failure (Answer Unit))))
      (e : Event (Except Failure (Answer Unit)))
      (τ₂ : List (Event (Except Failure (Answer Unit)))),
      (Pool.ofAsked s asked).History w (τ₁ ++ e :: τ₂) → ∀ field : String,
      Asked.CountsIn asked (asked e.actor).collection.name field →
      Counted field (s.entries (asked e.actor).collection.name) →
      ∀ (id : Uuid) (d d' : Document),
      e.exchange.1.Concerns e.before (asked e.actor).collection.name id →
      (id, d) ∈ e.before.entries (asked e.actor).collection.name →
      (id, d') ∈ e.after.entries (asked e.actor).collection.name →
      ∃ v v' : Int64, d.value? field = some (.int64 v) ∧ d'.value? field = some (.int64 v') ∧
        v'.toInt = min (v.toInt + 1) (2 ^ 53 + 1) ∧ (v.toInt < v'.toInt ↔ v.toInt ≤ 2 ^ 53) := by
  refine ⟨exists_sum_of_adds hu h, exact_iff hu h, fun hlow hhigh m => ?_, ?_⟩
  · exact readPath?_iterate_succ h hlow hhigh m
  · intro asked hk s w τ₁ e τ₂ hhist field hf hs id d d' hc hd hd'
    exact Pool.value?_version_of_concerned hk hhist hf hs hc hd hd'

/-! ### A book that has been written too often -/

namespace Directory

/-- A book with the last version. -/
def wornBook : Document :=
  [("id", Value.ofUuid firstBook), ("name", .string "Work"), ("description", .null),
    ("last_update", .dateTime 0), ("last_update_by", .string ""),
    ("version", .int64 9007199254740993)]

def wornStore : Store := ⟨[("phone_books", [(firstBook, wornBook)])]⟩

/-- The book gets another name. -/
def renameWorn (_ : Nat) : Asked :=
  ⟨openBooks, {}, .update { id := firstBook, name := "Office" } none⟩

def wornTurns : List (Event (Except Failure (Answer Unit))) :=
  (Pool.ofAsked wornStore renameWorn).play [0, 0, 0, 0, 0, 0, 0]

/-- The turn updates the first book. -/
def updatesFirst (e : Event (Except Failure (Answer Unit))) : Bool :=
  match e.exchange.1 with
  | .store (.updateFirst f _ name) => name == openBooks.name &&
    ((e.before.entries openBooks.name).find? (Entries.meets f)).map Prod.fst == some firstBook
  | _ => false

theorem concerns_of_updatesFirst {e : Event (Except Failure (Answer Unit))}
    (h : updatesFirst e = true) : e.exchange.1.Concerns e.before openBooks.name firstBook := by
  rw [updatesFirst] at h
  split at h
  · rename_i f u name hcall
    rw [Bool.and_eq_true, beq_iff_eq, beq_iff_eq] at h
    obtain ⟨⟨id, d⟩, hfind, hid⟩ := Option.map_eq_some_iff.mp h.2
    dsimp only at hid
    subst hid
    rw [hcall]
    exact ⟨h.1, d, hfind⟩
  · cases h

/-- The ids and the names of the books, and whether they have the last version. -/
def bookRows (s : Store) : List (Uuid × Option String × Bool) :=
  (s.entries openBooks.name).map fun x => (x.1, (x.2.value? "name").bind Value.string?,
    match x.2.value? "version" with
    | some (.int64 v) => v == 9007199254740993
    | _ => false)

theorem exists_of_bookRows {s : Store} {name : String} {last : Bool}
    (h : bookRows s = [(firstBook, some name, last)]) :
    ∃ d, (firstBook, d) ∈ s.entries openBooks.name ∧
      (d.value? "name").bind Value.string? = some name ∧
      (last = true → d.value? "version" = some (.int64 9007199254740993)) := by
  obtain ⟨⟨id, d⟩, hone, hid⟩ := List.map_eq_singleton_iff.mp h
  obtain ⟨rfl, hname, hlast⟩ : id = firstBook ∧ _ ∧ _ := by simpa using hid
  refine ⟨d, ?_, hname, fun ht => ?_⟩
  · rw [hone]
    exact List.mem_cons_self
  · subst ht
    split at hlast
    · rename_i v hv
      rw [hv, beq_iff_eq.mp hlast]
    · cases hlast

/-- **A version that stays**: counting up from it leaves it as it is, and when the book is renamed
it has the same version afterwards. -/
theorem wornBook_stays :
    ((Update.succ "version").apply wornBook).readPath? "version" =
      some (.int64 9007199254740993) ∧
    ∃ e ∈ wornTurns, ∃ d d', (firstBook, d) ∈ e.before.entries openBooks.name ∧
      (firstBook, d') ∈ e.after.entries openBooks.name ∧
      (d.value? "name").bind Value.string? = some "Work" ∧
      (d'.value? "name").bind Value.string? = some "Office" ∧
      d.value? "version" = some (.int64 9007199254740993) ∧
      d'.value? "version" = some (.int64 9007199254740993) := by
  have hread : wornBook.readPath? "version" = some (.int64 9007199254740993) := rfl
  obtain ⟨hadds, -, -, hgrows⟩ := increments_exact_iff (Update.adds_single "version" 1) hread
  constructor
  · obtain ⟨v, hv, hsum⟩ := hadds (by decide +kernel) (by decide +kernel)
    have hstays : (counted 9007199254740993).toInt + (1 : Int64).toInt =
        (9007199254740993 : Int64).toInt := by decide +kernel
    rw [hstays, Int64.toInt_inj] at hsum
    exact hsum ▸ hv
  · have hlawful : Asked.Lawful renameWorn := fun _ => Book.lawful
    have hcounts : Asked.CountsIn renameWorn openBooks.name "version" := fun _ _ => rfl
    have hcounted : Counted "version" (wornStore.entries openBooks.name) := by
      refine ⟨⟨by decide, ?_⟩, ?_⟩
      · rintro x hx
        rw [List.mem_singleton.mp hx]
        rfl
      · rintro x hx
        rw [List.mem_singleton.mp hx]
        exact ⟨9007199254740993, rfl, by decide, by decide⟩
    obtain ⟨e, he, hupdates, hbefore, hafter⟩ : ∃ e ∈ wornTurns, updatesFirst e = true ∧
        bookRows e.before = [(firstBook, some "Work", true)] ∧
        (bookRows e.after).map (fun x => (x.1, x.2.1)) = [(firstBook, some "Office")] := by
      decide +kernel
    obtain ⟨⟨id, name, last⟩, hrows, hx⟩ := List.map_eq_singleton_iff.mp hafter
    cases hx
    obtain ⟨d, hd, hname, hlast⟩ := exists_of_bookRows hbefore
    obtain ⟨d', hd', hname', -⟩ := exists_of_bookRows hrows
    have hhist : (Pool.ofAsked wornStore renameWorn).History .any wornTurns :=
      Pool.history_play trivial _ _
    obtain ⟨τ₁, τ₂, hsplit⟩ := List.append_of_mem he
    rw [hsplit] at hhist
    obtain ⟨v, v', hv, hv', hnext, -⟩ := hgrows renameWorn hlawful wornStore .any τ₁ e τ₂ hhist
      "version" hcounts hcounted firstBook d d' (concerns_of_updatesFirst hupdates) hd hd'
    rw [hlast rfl] at hv
    cases hv
    have hsame : v' = 9007199254740993 := by
      rw [← Int64.toInt_inj, hnext]
      decide
    rw [hsame] at hv'
    exact ⟨e, he, d, d', hd, hd', hname, hname', hlast rfl, hv'⟩

end Directory

end Registrar
