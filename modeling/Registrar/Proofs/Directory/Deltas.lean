import Registrar.Proofs.Directory.Counts
import Registrar.Proofs.Engine.Deltas

/-!
# What deltas touch

In every store that a run reaches, a delta touches what it names and nothing else. Two things are
as one might not expect. A field that is computed from a named one is written as a whole, so parts
of it are not spared, even if other names lead to parts of it only; such parts come into a count
when an assignment names them. And a document whose version is the last one keeps its version.

* `delta_commits`: what a delta that succeeds leaves in the store.
* `reached_version`: every version up to the last is reached.
* `recountTorn_loses`: a part of a count that is lost, and a version that is kept.
-/

namespace Registrar.Directory

namespace IsKind

variable {E : Type} {k : EntityKind E}

theorem knowsRelations (h : IsKind k) : k.schema.KnowsRelations := by
  cases h <;> decide

end IsKind

/-- **A delta that succeeds touches what it names**, and nothing else. -/
theorem delta_commits {E : Type} {k : EntityKind E} (hk : IsKind k) {s t : Store} (hs : Reached s)
    (u : Setup) (caller : Caller) {delta : Delta E} (hplain : delta.Plain) {report : WriteReport}
    (h : ((u.collection k).applyDelta caller delta).run.Runs .any s (.ok report) t) :
    (u.collection k).Committed s delta report t :=
  Collection.committed_of_ok (c := u.collection k) hk.lawful.schema hk.linked hk.dotlessLeaves
    hk.knowsRelations hk.versionName? hs.keyed (hs.counted _) hplain h

/-! ### A color by itself -/

/-- Whether an update succeeded and wrote something. -/
def wrote : Except Failure WriteReport → Bool
  | .ok report => !report.wroteNothing
  | .error _ => false

theorem exists_report {E : Type} (c : Collection E) (caller : Caller) {x : Session}
    (hd : x.disturbances = []) (delta : Delta E)
    (h : wrote ((c.applyDelta caller delta).run.run x).1 = true) :
    ∃ report, (c.applyDelta caller delta).run.Runs .any x.store (.ok report)
      ((c.applyDelta caller delta).run.run x).2.store ∧ report.wroteNothing = false := by
  have hany : ((c.applyDelta caller delta).run.run x).1.toOption.any
      (fun report => !report.wroteNothing) = true := by
    revert h
    cases ((c.applyDelta caller delta).run.run x).1 <;> exact fun h => h
  simpa using exists_runs_ok (c.applyDelta caller delta) hd hany

/-- A category with settings. -/
def painted : Session := serveAll {} {} .fresh
  [.category (.add { Category.ofName "Suppliers" with
    id := .ofByte 1
    settings := some { priority := 3, color := some "red" } })]

/-- A delta that names the color in the settings. -/
def recolor : Delta Category where
  id := .ofByte 1
  paths := ["settings.color"]
  data := { Category.ofName "" with settings := some { priority := 0, color := some "blue" } }

/-- The delta succeeds, writes, and touches what it names. -/
theorem recolor_commits : Reached painted.store ∧ recolor.Plain ∧ ∃ report t,
    ((({} : Setup).collection Category.kind).applyDelta {} recolor).run.Runs .any painted.store
      (.ok report) t ∧ report.wroteNothing = false ∧
    (({} : Setup).collection Category.kind).Committed painted.store recolor report t := by
  have hreached : Reached painted.store := Reached.empty.serveAll (x := .fresh) rfl _ _ _
  have hplain : recolor.Plain := by decide +kernel
  obtain ⟨report, hruns, hwrote⟩ := exists_report (({} : Setup).collection Category.kind) {}
    (x := painted) rfl recolor (by decide +kernel)
  exact ⟨hreached, hplain, report, _, hruns, hwrote,
    delta_commits .category hreached {} {} hplain hruns⟩

/-! ### Every version is reached -/

/-- A phone book with a version. -/
def countedBook (v : Int64) : Document :=
  [("id", Value.ofUuid (.ofByte 1)),
   ("name", .string "Old"),
   ("description", .null),
   ("last_update", .dateTime 0),
   ("last_update_by", .string ""),
   ("version", .int64 v)]

def countedStore (v : Int64) : Store := ⟨[("phone_books", [(.ofByte 1, countedBook v)])]⟩

/-- An assignment of no description. -/
def clearDescription : Assignment Book := ⟨[.ofByte 1], ["description"], Book.ofName ""⟩

theorem assignedTo_countedStore {v : Int64} (h0 : 0 ≤ v.toInt) (hb : v.toInt ≤ lastVersion) :
    ({} : Setup).books.assignedTo {} (countedStore v) [.ofByte 1]
        ([("description", .null)] ++ ({} : Setup).books.stampsAt {} 0) =
      countedStore (nextVersion v) := by
  have hmeets : Entries.meets (({} : Setup).books.visibleAmong {} [.ofByte 1])
      (.ofByte 1, countedBook v) = true :=
    (Filter.hasIdIn_holds (d := countedBook v) (k := .ofByte 1) rfl _).mpr List.mem_cons_self
  have hupdate : (({} : Setup).books.withVersion
      { sets := [("description", .null)] ++ ({} : Setup).books.stampsAt {} 0 }).apply
        (countedBook v) = countedBook ((countedBook v).counter "version" + 1) := rfl
  rw [counter_succ (by decide) rfl h0 hb] at hupdate
  rw [Collection.assignedTo, Store.updateAll, Store.modify, countedStore]
  simp only [List.map_cons, List.map_nil, Entries.updateAll, hmeets, if_true, hupdate]
  rfl

theorem reached_countedStore {v : Int64} (h : Reached (countedStore v)) (h0 : 0 ≤ v.toInt)
    (hb : v.toInt ≤ lastVersion) : Reached (countedStore (nextVersion v)) := by
  refine IsKind.book.reached h {} {} (.assign clearDescription) ?_
  rw [← assignedTo_countedStore h0 hb]
  have hassign : (({} : Setup).books.assign {} clearDescription).run.Runs .any (countedStore v)
      (.ok _) (({} : Setup).books.assignedTo {} (countedStore v) [.ofByte 1]
        ([("description", .null)] ++ ({} : Setup).books.stampsAt {} 0)) :=
    Collection.runs_assign (e := (Book.ofName "").normalize) rfl rfl rfl rfl rfl rfl _ 0
  exact ⟨_, runs_bindE_ok hassign ⟨rfl, rfl⟩⟩

/-- **Step by step every version up to the last is reached**, if the first one is. -/
theorem exists_reached_version {stores : Int64 → Store} (h : Reached (stores 0))
    (hnext : ∀ v : Int64, Reached (stores v) → 0 ≤ v.toInt → v.toInt ≤ lastVersion →
      Reached (stores (nextVersion v))) (n : Nat) (hn : (n : Int) ≤ lastVersion) :
    ∃ v : Int64, v.toInt = n ∧ Reached (stores v) := by
  induction n with
  | zero => exact ⟨0, rfl, h⟩
  | succ n ih =>
    push_cast at hn
    obtain ⟨v, hv, hreached⟩ := ih (by omega)
    have h0 : 0 ≤ v.toInt := by omega
    have hb : v.toInt ≤ lastVersion := by omega
    refine ⟨nextVersion v, ?_, hnext v hreached h0 hb⟩
    rw [toInt_nextVersion h0 hb]
    push_cast
    omega

/-- **Every version up to the last** is reached. -/
theorem reached_version (n : Nat) (hn : (n : Int) ≤ lastVersion) :
    ∃ v : Int64, v.toInt = n ∧ Reached (countedStore v) := by
  have hadded : (serveAll {} {} .fresh [.book (.add { Book.ofName "Old" with
      id := .ofByte 1 })]).store = countedStore 0 := rfl
  refine exists_reached_version ?_ (fun v => reached_countedStore) n hn
  rw [← hadded]
  exact Reached.empty.serveAll (x := .fresh) rfl _ _ _

/-! ### What is not spared -/

/-- A contact whose count holds an object with two parts. -/
def tornCount : Session := serveAll {} {} .fresh
  [.contact (.add (.ofRecord { ContactRecord.ofName "Ann" "Aebi" with id := .ofByte 1 })),
   .contact (.assign ⟨[.ofByte 1],
     ["number_of_telephone_numbers.x", "number_of_telephone_numbers.y"],
     .ofRecord (ContactRecord.ofName "" "")⟩)]

/-- A delta that names the numbers, and one part of their count. -/
def recountTorn : Delta Contact where
  id := .ofByte 1
  paths := ["numbers", "number_of_telephone_numbers.x"]
  data := .ofRecord (ContactRecord.ofName "" "")

/-- A delta that names the description. -/
def redescribe : Delta Book where
  id := .ofByte 1
  properties := ["description"]
  data := Book.ofName ""

/-- The part of the count of a contact. -/
def countPart? (d : Document) (leaf : String) : Option Value :=
  ((d.value? countField.name).bind Value.document?).bind (Document.value? · leaf)

theorem recountTorn_names : Contact.schema.NamesParts recountTorn.paths countField ∧
    ¬ Contact.schema.NamesLeaf recountTorn.paths countField "y" := by
  have hnumbers : Contact.schema.reached? "numbers" ≠ some countField := fun hreach =>
    absurd (congrArg (Option.map Field.name) hreach) (by decide +kernel)
  have hpaths : ∀ {name : String}, name ∈ recountTorn.paths →
      Contact.schema.reached? name = some countField → name = "number_of_telephone_numbers.x" := by
    intro name hname hreach
    rcases List.mem_cons.mp hname with rfl | hname
    · exact absurd hreach hnumbers
    · exact List.mem_singleton.mp hname
  refine ⟨⟨⟨_, .tail _ (.head _), rfl⟩, fun name hname hreach => ?_⟩, ?_⟩
  · rw [hpaths hname hreach]
    decide
  · rintro ⟨name, hname, hreach, hleaf⟩
    rw [hpaths hname hreach] at hleaf
    exact absurd hleaf (by decide)

/-- **Parts that are not named may be lost**, and a version may be kept. The part "y" of the count
is lost, since the count is computed from the numbers; and a document keeps the last version. -/
theorem recountTorn_loses :
    (Reached tornCount.store ∧ recountTorn.Plain ∧ countField.kind.isCollection = false ∧
      Contact.schema.NamesParts recountTorn.paths countField ∧
      ¬ Contact.schema.NamesLeaf recountTorn.paths countField "y" ∧
      ∃ report t d d', ((({} : Setup).collection Contact.kind).applyDelta {} recountTorn).run.Runs
          .any tornCount.store (.ok report) t ∧ report.wroteNothing = false ∧
        (recountTorn.id, d) ∈ tornCount.store.entries "contacts" ∧
        (recountTorn.id, d') ∈ t.entries "contacts" ∧
        (countPart? d "y").isSome ∧ (countPart? d' "y") = none) ∧
    ∃ s v, Reached s ∧ redescribe.Plain ∧
      ∃ report t d d', ((({} : Setup).collection Book.kind).applyDelta {} redescribe).run.Runs
          .any s (.ok report) t ∧ report.wroteNothing = false ∧
        (redescribe.id, d) ∈ s.entries "phone_books" ∧
        (redescribe.id, d') ∈ t.entries "phone_books" ∧
        d.value? "version" = some (.int64 v) ∧ d'.value? "version" = some (.int64 v) := by
  constructor
  · have hreached : Reached tornCount.store := Reached.empty.serveAll (x := .fresh) rfl _ _ _
    obtain ⟨report, hruns, hwrote⟩ := exists_report (({} : Setup).collection Contact.kind) {}
      (x := tornCount) rfl recountTorn (by decide +kernel)
    obtain ⟨⟨k, d⟩, hd, rfl, hpart⟩ : ∃ e ∈ tornCount.store.entries "contacts",
        e.1 = recountTorn.id ∧ (countPart? e.2 "y").isSome := by decide +kernel
    obtain ⟨⟨k', d'⟩, hd', rfl, hpart'⟩ : ∃ e ∈ (((({} : Setup).collection Contact.kind).applyDelta
        {} recountTorn).run.run tornCount).2.store.entries "contacts",
        e.1 = recountTorn.id ∧ (countPart? e.2 "y").isNone := by decide +kernel
    exact ⟨hreached, by decide +kernel, rfl, recountTorn_names.1, recountTorn_names.2, report, _, d,
      d', hruns, hwrote, hd, hd', hpart, Option.isNone_iff_eq_none.mp hpart'⟩
  · obtain ⟨v, hv, hreached⟩ := reached_version (2 ^ 53 + 1) le_rfl
    obtain rfl : v = Int64.ofInt lastVersion := Int64.toInt_inj.mp (hv.trans rfl)
    have hplain : redescribe.Plain := by decide +kernel
    obtain ⟨report, hruns, hwrote⟩ := exists_report (({} : Setup).collection Book.kind) {}
      (x := { Session.fresh with store := countedStore (Int64.ofInt lastVersion) }) rfl redescribe
      (by decide +kernel)
    have hcommitted := Collection.committed_of_ok (c := ({} : Setup).collection Book.kind)
      Book.lawful.schema Book.linked IsKind.book.dotlessLeaves IsKind.book.knowsRelations rfl
      hreached.keyed (hreached.counted _) hplain hruns
    obtain ⟨d, d', hd, hd', htouches⟩ := hcommitted.touched hwrote
    obtain rfl : d = countedBook _ := congrArg Prod.snd (List.mem_singleton.mp hd)
    obtain ⟨v, hv, hv'⟩ := htouches.version "version" rfl
    cases hv
    exact ⟨_, _, hreached, hplain, report, _, _, d', hruns, hwrote, hd, hd', rfl, hv'⟩

end Registrar.Directory
