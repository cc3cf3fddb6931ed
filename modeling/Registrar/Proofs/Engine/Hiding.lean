import Registrar.Proofs.Engine.LostUpdates
import Registrar.Proofs.Engine.Shared

/-!
# What is hidden stays as it is

A caller sees the documents that the access policy accepts and that meet its filter. Operations
check this in different places: a document that is loaded has to be seen, and of several documents
those are meant that are granted and meet the filter. Whatever it is that an operation changes, the
caller has seen it, and in other collections nothing is changed.

* `AccessPolicy.Sees`: the documents that a caller sees.
* `tells_load_seen`: a document that is loaded is seen.
* `Operation.subject?`, `eq_or_seen`: an operation on one document sees it, or changes nothing.
* `unseen_stays`: what the caller does not see is still there afterwards.
-/

namespace Registrar

/-! ### What a caller sees -/

/-- **The ids by which a document is known**: the filter for the id finds it, or it is read as
having the id. -/
def Document.KnownBy (d : Document) (id : Uuid) : Prop :=
  (Filter.hasId id).holds d = true ∨ (d.value? "id").bind Value.uuid? = some id

theorem Entries.Keyed.knownBy_iff {es : Entries} (h : es.Keyed) {k id : Uuid} {d : Document}
    (hd : (k, d) ∈ es) : d.KnownBy id ↔ k = id := by
  have hid : d.value? "id" = some (Value.ofUuid k) := h.id _ hd
  rw [Document.KnownBy, Filter.hasId_holds hid, hid, Option.bind_some, Value.uuid?_ofUuid,
    Option.some_inj, or_self]

namespace AccessPolicy

variable (a : AccessPolicy) (caller : Caller) (name : String)

/-- The policy accepts the entity of a document. -/
def Accepts (d : Document) : Prop := ∃ id, d.KnownBy id ∧ a.grants name id caller = .ok true

/-- **The caller sees a document**: the policy accepts it, and it meets the policy's filter. -/
structure Sees (d : Document) : Prop where
  accepted : a.Accepts caller name d
  visible : Filter.admits (a.visibility name caller) d = true

variable {a caller name}

theorem accepts_iff {es : Entries} (h : es.Keyed) {id : Uuid} {d : Document} (hd : (id, d) ∈ es) :
    a.Accepts caller name d ↔ a.grants name id caller = .ok true := by
  constructor
  · rintro ⟨k, hk, hgrants⟩
    rwa [(h.knownBy_iff hd).mp hk]
  · exact fun hgrants => ⟨id, (h.knownBy_iff hd).mpr rfl, hgrants⟩

/-- **The ids that are granted** among others are those that the policy accepts. -/
theorem mem_grantedAmong {listed ids : List Uuid}
    (h : a.grantedAmong name caller listed = .ok ids) (id : Uuid) :
    id ∈ ids ↔ id ∈ listed ∧ a.grants name id caller = .ok true := by
  obtain ⟨-, rfl⟩ := grantedAmong_eq_ok_iff.mp h
  rw [List.mem_filter, accepts_iff_grants]

end AccessPolicy

/-! ### What an operation loads -/

/-- **The id of the document that an operation is about**, if it is about one that exists. -/
def Operation.subject? {E : Type} (k : EntityKind E) : Operation E → Option Uuid
  | .update e _ => some (k.id e)
  | .applyDelta delta => some delta.id
  | .get id _ | .delete id | .link id _ _ | .unlink id _ _ | .refer id _ _ => some id
  | .add _ | .search _ | .assign _ | .deleteListed _ => none

namespace Collection

variable {E α : Type} {c : Collection E} {caller : Caller} {w : Surroundings} {s t : Store}
  {id : Uuid}

theorem holds_visible_iff {f : Filter} {d : Document} :
    (c.visible caller f).holds d = true ↔
      f.holds d = true ∧ Filter.admits (c.policy.visibility c.name caller) d = true := by
  rw [visible]
  cases c.policy.visibility c.name caller with
  | none => exact (and_iff_left rfl).symm
  | some v => exact Filter.and_pair_holds f v

/-- The caller sees a document that is stored and that the filter for the id finds. -/
structure SeesStored (c : Collection E) (caller : Caller) (s : Store) (id : Uuid) (d : Document) :
    Prop where
  stored : d ∈ (s.entries c.name).documents
  found : (Filter.hasId id).holds d = true
  seen : c.policy.Sees caller c.name d

/-- **A document that is loaded is seen.** -/
theorem tells_load_seen (id : Uuid) (place : String) :
    Tells w s True (c.SeesStored caller s id) (c.load caller id place) := by
  refine (((tells_find (fun _ => trivial) _ _).guarded fun _ => trivial).inPlace _).bind
    fun ds hds => ?_
  obtain ⟨ds', hperm, rfl⟩ := hds
  split
  · exact tells_throw trivial _ _
  · rename_i d hd
    obtain ⟨hmem, hvisible⟩ := Query.mem_of_mem_answer (List.mem_of_mem_head? hd)
    have hstored : d ∈ (s.entries c.name).documents := hperm.mem_iff.mp hmem
    obtain ⟨hholds, hadmits⟩ := holds_visible_iff.mp hvisible
    refine ((tells_decided trivial _).inPlace place).bind fun accessible haccessible => ?_
    cases accessible with
    | true => exact tells_pure ⟨hstored, hholds, ⟨id, .inl hholds, haccessible⟩, hadmits⟩
    | false => exact tells_throw trivial _ _

theorem ends_load {k : Document → OperationM α} (place : String) :
    Ends w s (fun t => t = s ∨ ∃ d, c.SeesStored caller s id d)
      (c.load caller id place >>= k) :=
  (tells_load_seen id place).ends (.inl rfl) fun d hd _ _ _ => .inr ⟨d, hd⟩

/-- **An operation on one document** sees it, or changes nothing. -/
theorem eq_or_seen {op : Operation E} (hop : op.subject? c.kind = some id)
    {r : Except Failure (Answer E)} (h : (op.program c caller).run.Runs w s r t) :
    t = s ∨ ∃ d, c.SeesStored caller s id d := by
  have hends : Ends w s (fun t => t = s ∨ ∃ d, c.SeesStored caller s id d)
      (op.program c caller) := by
    cases op with
    | update e asked =>
      cases hop
      exact (ends_load _).bind_quiet fun _ => always_pureE _
    | applyDelta delta =>
      cases hop
      exact (ends_load _).bind_quiet fun _ => always_pureE _
    | get id lookup =>
      cases hop
      exact (ends_load _).bind_quiet fun _ => always_pureE _
    | delete id =>
      cases hop
      exact (ends_load _).bind_quiet fun _ => always_pureE _
    | link id name target =>
      cases hop
      refine Ends.bind_quiet ?_ fun _ => always_pureE _
      exact (tells_relation name .many).ends (.inl rfl) fun r _ => ends_load _
    | unlink id name target =>
      cases hop
      refine Ends.bind_quiet ?_ fun _ => always_pureE _
      exact (tells_relation name .many).ends (.inl rfl) fun r _ => ends_load _
    | refer id name target =>
      cases hop
      refine Ends.bind_quiet ?_ fun _ => always_pureE _
      exact (tells_relation name .one).ends (.inl rfl) fun r _ => ends_load _
    | add e => cases hop
    | search p => cases hop
    | assign bulk => cases hop
    | deleteListed ids => cases hop
  exact hends r t h

theorem Proposes.subject? {op : Operation E} {d : Document} {changes : Changes}
    (h : c.Proposes s op id d changes) : op.subject? c.kind = some id := by
  cases h <;> rfl

theorem sees_of_visibleAmong (hk : s.Keyed) {listed ids : List Uuid}
    (hgranted : c.policy.grantedAmong c.name caller listed = .ok ids) {k : Uuid} {d : Document}
    (hd : (k, d) ∈ s.entries c.name) (h : (c.visibleAmong caller ids).holds d = true) :
    c.policy.Sees caller c.name d := by
  have hmem := mem_of_visibleAmong hk hd h
  have hgrants := ((AccessPolicy.mem_grantedAmong hgranted k).mp hmem).2
  exact ⟨(AccessPolicy.accepts_iff (hk c.name) hd).mpr hgrants, (holds_visible_iff.mp h).2⟩

/-- **What the caller does not see** is there after the effect of an operation. -/
theorem Effect.keeps_unseen {op : Operation E} (h : c.Effect caller s op t) (hk : s.Keyed)
    (hsubject : ∀ id, op.subject? c.kind = some id → t = s ∨ ∃ d, c.SeesStored caller s id d)
    {k : Uuid} {d : Document} (hd : (k, d) ∈ s.entries c.name)
    (hunseen : ¬ c.policy.Sees caller c.name d) : (k, d) ∈ t.entries c.name := by
  by_cases heq : t = s
  · rw [heq]
    exact hd
  -- What the operation is about is seen, so it is another document.
  have hother : ∀ id, op.subject? c.kind = some id → k ≠ id := by
    rintro id hid rfl
    obtain ⟨x, hx, hholds, hsees⟩ := (hsubject k hid).resolve_left heq
    obtain ⟨k', hkx⟩ := Entries.mem_documents.mp hx
    obtain rfl := (Filter.hasId_holds ((hk c.name).id _ hkx) k).mp hholds
    obtain rfl := Entries.eq_of_mem (hk c.name).nodup hkx hd
    exact hunseen hsees
  cases h with
  | idle => exact absurd rfl heq
  | added prepares free inserts =>
    rw [Store.entries_insert inserts, if_pos rfl]
    exact Entries.mem_insert.mpr (.inr hd)
  | updated stored proposes =>
    exact (mem_writtenTo_of_ne hk fun h => hother _ proposes.subject? h.2).mpr hd
  | pruned stored short => exact (mem_writtenTo_of_ne hk fun h => hother _ rfl h.2).mpr hd
  | assigned granted normal hchanges unshared =>
    refine unassigned_mem hd ?_ _
    exact Bool.eq_false_iff.mpr fun h => hunseen (sees_of_visibleAmong hk granted hd h)
  | deleted id =>
    rw [Store.deleteFirst, Store.entries_modify _ _ _ rfl, if_pos rfl,
      Entries.mem_deleteFirst (hk c.name).nodup]
    refine ⟨hd, fun x hx => hother id rfl ?_⟩
    have hmeets := List.find?_some hx
    exact (Filter.hasId_holds ((hk c.name).id _ (List.mem_of_find?_eq_some hx)) id).mp hmeets
  | deletedListed granted =>
    rw [Store.deleteAll, Store.entries_modify _ _ _ rfl, if_pos rfl, Entries.mem_deleteAll]
    exact ⟨hd, Bool.eq_false_iff.mpr fun h => hunseen (sees_of_visibleAmong hk granted hd h)⟩

end Collection

/-- **What the caller does not see** is still there after an operation, and is what it was; and
other collections are what they were. -/
theorem unseen_stays {E : Type} {c : Collection E} (hk : c.kind.Lawful) (hl : c.schema.Linked)
    {caller : Caller} {op : Operation E} {w : Surroundings} {s t : Store} (hs : s.Made)
    {r : Except Failure (Answer E)} (h : (op.program c caller).run.Runs w s r t) :
    (∀ id d, (id, d) ∈ s.entries c.name → ¬ c.policy.Sees caller c.name d →
        ∀ x, (id, x) ∈ t.entries c.name ↔ x = d) ∧
      ∀ name, name ≠ c.name → t.entries name = s.entries name := by
  refine ⟨fun id d hd hunseen x => ?_, fun name hn => Collection.entries_program hk h hn⟩
  have hafter : t.Keyed := Collection.keyed_program hk h hs.keyed
  have heffect := effect_program hk.schema hl hs.keyed op h
  have hstays := heffect.keeps_unseen hs.keyed (fun _ hop => Collection.eq_or_seen hop h) hd hunseen
  constructor
  · exact fun hx => Entries.eq_of_mem (hafter c.name).nodup hx hstays
  · rintro rfl
    exact hstays

/-! ### A shelf with one hidden book -/

namespace Directory

def secondBook : Uuid := .ofByte 2

/-- The first book is hidden from everybody. -/
def guardedBooks : Collection Book where
  kind := Book.kind
  policy := { AccessPolicy.unrestricted with grants := fun _ id _ => .ok (id ≠ firstBook) }
  settings := {}

/-- Two books are added. -/
def shelve (i : Nat) : Asked :=
  ⟨openBooks, {}, .add (if i = 0 then { id := firstBook, name := "Work" }
    else { id := secondBook, name := "Home" })⟩

/-- The store with the two books. -/
def shelf : Store :=
  ((Pool.ofAsked .empty shelve).after
    ((Pool.ofAsked .empty shelve).play [0, 1, 0, 1, 0, 1, 0, 1, 0, 1])).store

theorem shelf_made : shelf.Made :=
  ⟨shelve, _, fun _ => Book.lawful, Pool.history_play trivial _ _, rfl⟩

/-- Of two books that a caller wants to delete, the hidden one stays. -/
theorem deleteBooks_spares :
    ∃ r t, ((Operation.deleteListed [firstBook, secondBook]).program guardedBooks {}).run.Runs
        .any shelf r t ∧
      (∃ d, (firstBook, d) ∈ shelf.entries guardedBooks.name ∧
        (firstBook, d) ∈ t.entries guardedBooks.name) ∧
      shelf.Has guardedBooks.name secondBook ∧ ¬ t.Has guardedBooks.name secondBook := by
  let x : Session := { store := shelf, supply := fun _ => .nil }
  let program := ((Operation.deleteListed [firstBook, secondBook]).program guardedBooks {}).run
  have hruns := program.runs_run (w := .any) x rfl (fun _ => trivial) fun _ => trivial
  obtain ⟨d, hd⟩ : ∃ d, (firstBook, d) ∈ shelf.entries guardedBooks.name :=
    Store.has_iff.mp (show firstBook ∈ (shelf.entries guardedBooks.name).map Prod.fst by
      decide +kernel)
  have hunseen : ¬ guardedBooks.policy.Sees {} guardedBooks.name d := by
    intro hsees
    have hgrants := (AccessPolicy.accepts_iff (shelf_made.keyed _) hd).mp hsees.accepted
    exact absurd hgrants (by decide)
  obtain ⟨hstays, -⟩ := unseen_stays (c := guardedBooks) Book.lawful Book.linked shelf_made hruns
  refine ⟨_, _, hruns, ⟨d, hd, (hstays firstBook d hd hunseen d).mpr rfl⟩, ?_, ?_⟩
  · show secondBook ∈ (shelf.entries guardedBooks.name).map Prod.fst
    decide +kernel
  · show secondBook ∉ ((program.run x).2.store.entries guardedBooks.name).map Prod.fst
    decide +kernel

end Directory

end Registrar
