import Registrar.Proofs.Engine.Finding
import Registrar.Proofs.Program.Telling

/-!
# What a caller is shown

An access policy that decides about an entity accepts it or hides it. Hydrating fetches the
entities that several documents refer to with one query for each relation, asks the policy about
all of them, and fills in the copies. For each document this comes to the same as looking every id
up by itself. A policy may fail to decide; then the documents that refer to the entity cannot be
hydrated.

* `AccessPolicy.accepts`, `grantedAmong_eq_ok_iff`: the entities that the caller may access.
* `Relation.hydratedIn`, `Collection.hydratedIn`: a document with its copies, said for it alone.
* `Relation.FetchedOnly`: what was fetched, and that it is nothing else.
* `Relation.Decided`: the policy decides about what a document refers to.
* `tells_hydrate`: hydrating many documents gives just these copies.
-/

namespace Registrar

/-! ### What the caller may access -/

namespace AccessPolicy

variable (a : AccessPolicy) (caller : Caller)

/-- **The policy decides** about an entity. -/
def Decides (name : String) (id : Uuid) : Prop := ∃ b, a.grants name id caller = .ok b

/-- The policy decides about every entity. -/
def Answers : Prop := ∀ name id, ∃ b, a.grants name id caller = .ok b

/-- **Whether the caller may access an entity**; not, if this cannot be decided. -/
def accepts (name : String) (id : Uuid) : Bool :=
  match a.grants name id caller with
  | .ok b => b
  | .error _ => false

variable {a caller} {name : String} {id : Uuid}

theorem accepts_iff_grants :
    a.accepts caller name id = true ↔ a.grants name id caller = .ok true := by
  rw [accepts]
  cases a.grants name id caller <;> simp

/-- **Of several ids those are granted** that the policy accepts, if it decides about all. -/
theorem grantedAmong_eq_ok_iff {ids granted : List Uuid} :
    a.grantedAmong name caller ids = .ok granted ↔
      (∀ id ∈ ids, a.Decides caller name id) ∧ granted = ids.filter (a.accepts caller name) := by
  induction ids generalizing granted with
  | nil => simp [grantedAmong, eq_comm]
  | cons id r ih =>
    rw [grantedAmong, List.forall_mem_cons, Decides, List.filter_cons, accepts]
    cases a.grants name id caller with
    | error e => exact iff_of_false nofun fun h => nomatch h.1.1
    | ok b =>
      cases hrest : a.grantedAmong name caller r with
      | error e =>
        have hundecided : ¬ ∀ id ∈ r, a.Decides caller name id := fun h => by
          cases hrest.symm.trans (ih.mpr ⟨h, rfl⟩)
        exact iff_of_false nofun fun h => hundecided h.1.2
      | ok rest =>
        obtain ⟨hdecides, rfl⟩ := ih.mp hrest
        exact ⟨fun h => ⟨⟨⟨b, rfl⟩, hdecides⟩, (Except.ok.inj h).symm⟩, fun h => congrArg _ h.2.symm⟩

end AccessPolicy

/-! ### Following relations -/

theorem mem_collected {α : Type} [BEq α] [LawfulBEq α] {a : α} {before as : List α} :
    a ∈ as.foldl (fun as a => if a ∈ as then as else as ++ [a]) before ↔ a ∈ before ∨ a ∈ as := by
  induction as generalizing before with
  | nil => simp
  | cons x xs ih =>
    have hx : a ∈ (if x ∈ before then before else before ++ [x]) ↔ a ∈ before ∨ a = x := by
      split
      · rename_i hm
        exact ⟨.inl, fun h => h.elim (fun h => h) fun h => h ▸ hm⟩
      · simp
    rw [List.foldl_cons, ih, hx, List.mem_cons, or_assoc]

namespace Viewer

/-- The policy of a viewer; nothing is hidden from nobody. -/
def policy (viewer : Viewer) : AccessPolicy :=
  match viewer with
  | some (a, _) => a
  | none => .unrestricted

def caller (viewer : Viewer) : Caller :=
  match viewer with
  | some (_, caller) => caller
  | none => {}

end Viewer

namespace Relation

variable {a : AccessPolicy} {caller : Caller} {viewer : Viewer} {w : Surroundings} {s : Store}
  {F : Prop} {r : Relation} {found : Found} {ids : List Uuid}

/-- **What a relation of a document shows the caller**: the entities referred to that exist and
that the caller may access. -/
def shownIn (a : AccessPolicy) (caller : Caller) (s : Store) (r : Relation) (d : Document) :
    List Document :=
  ((r.targetIds d).filter (a.accepts caller r.target)).filterMap (s.entries r.target).document?

/-- **A document with its copies** for a relation. -/
def hydratedIn (a : AccessPolicy) (caller : Caller) (s : Store) (d : Document) (r : Relation) :
    Document :=
  d.put r.navigation (r.navigationValue (r.shownIn a caller s d))

/-- What was fetched tells of each of the ids whether it is kept in the store, and what. -/
def Fetched (s : Store) (r : Relation) (ids : List Uuid) (found : Found) : Prop :=
  ∀ id ∈ ids, found.get? id = (s.entries r.target).document? id

/-- **What was fetched** for ids: the entities with these ids that exist, and no others. -/
structure FetchedOnly (s : Store) (r : Relation) (ids : List Uuid) (found : Found) : Prop where
  each : r.Fetched s ids found
  mem_ids : ∀ id, id ∈ found.ids ↔ id ∈ ids ∧ s.Has r.target id

theorem tells_fetch (hc : w.cancels → F) (hf : w.fails → F) (hk : s.Keyed) (r : Relation)
    (ids : List Uuid) : Tells w s F (r.FetchedOnly s ids) (r.fetch ids) := by
  rw [fetch]
  cases ids with
  | nil => exact tells_pure ⟨fun id hid => absurd hid List.not_mem_nil, by simp [Found.ids]⟩
  | cons id ids =>
    refine ((tells_find hf _ _).guarded hc).bind fun ds hds => tells_pure ?_
    obtain ⟨ds', hperm, rfl⟩ := hds
    refine ⟨fun k hk' => get?_fetched (hk r.target) hperm hk', fun k => ?_⟩
    rw [Found.ids, List.mem_map, Store.has_iff]
    constructor
    · rintro ⟨x, hx, rfl⟩
      obtain ⟨hstored, hids⟩ := (mem_fetched (hk r.target) hperm).mp hx
      exact ⟨hids, x.2, hstored⟩
    · rintro ⟨hids, x, hx⟩
      exact ⟨(k, x), (mem_fetched (hk r.target) hperm).mpr ⟨hx, hids⟩, rfl⟩

/-- **What is hidden from a viewer** among the entities found, if the policy decides about all. -/
theorem hidden_eq_ok_iff {refused : List Uuid} :
    r.hidden viewer found = .ok refused ↔
      (∀ id ∈ found.ids, viewer.policy.Decides viewer.caller r.target id) ∧
        refused = found.ids.filter
          (· ∉ found.ids.filter (viewer.policy.accepts viewer.caller r.target)) := by
  cases viewer with
  | none =>
    have hnone : (found.ids.filter (· ∉ found.ids.filter fun _ => true)) = [] := by simp
    exact ⟨fun h => ⟨fun _ _ => ⟨true, rfl⟩, (Except.ok.inj h).symm.trans hnone.symm⟩,
      fun h => congrArg _ (h.2.trans hnone).symm⟩
  | some v =>
    have hgranted : ∀ granted, v.1.grantedAmong r.target v.2 found.ids = .ok granted ↔ _ :=
      fun granted => AccessPolicy.grantedAmong_eq_ok_iff
    rw [hidden]
    cases hv : v.1.grantedAmong r.target v.2 found.ids with
    | error e =>
      refine iff_of_false nofun fun h => ?_
      cases hv.symm.trans ((hgranted _).mpr ⟨h.1, rfl⟩)
    | ok granted =>
      obtain ⟨hdecides, rfl⟩ := (hgranted _).mp hv
      exact ⟨fun h => ⟨hdecides, (Except.ok.inj h).symm⟩, fun h => congrArg _ h.2.symm⟩

/-- The policy of a viewer decides about the entities with the ids that exist. -/
def DecidesAmong (viewer : Viewer) (s : Store) (r : Relation) (ids : List Uuid) : Prop :=
  ∀ id ∈ ids, s.Has r.target id → viewer.policy.Decides viewer.caller r.target id

theorem tells_hidden (hfound : r.FetchedOnly s ids found)
    (hF : ¬ r.DecidesAmong viewer s ids → F) :
    Tells w s F (fun refused => r.DecidesAmong viewer s ids ∧ refused = found.ids.filter
        (· ∉ found.ids.filter (viewer.policy.accepts viewer.caller r.target)))
      (StoreM.ofExcept (r.hidden viewer found)) := by
  have hamong : r.DecidesAmong viewer s ids ↔
      ∀ id ∈ found.ids, viewer.policy.Decides viewer.caller r.target id := by
    simp only [DecidesAmong, hfound.mem_ids, and_imp]
  refine (tells_settled ?_).mono fun refused hrefused => ?_
  · rintro ⟨e, he⟩
    refine hF fun hdecides => ?_
    cases he.symm.trans (hidden_eq_ok_iff.mpr ⟨hamong.mp hdecides, rfl⟩)
  · obtain ⟨hdecides, rfl⟩ := hidden_eq_ok_iff.mp hrefused
    exact ⟨hamong.mpr hdecides, rfl⟩

theorem mem_ids_of_get? {found : Found} {id : Uuid} {d : Document} (h : found.get? id = some d) :
    id ∈ found.ids := by
  rw [Found.get?, Option.map_eq_some_iff] at h
  obtain ⟨x, hx, -⟩ := h
  have hid := List.find?_some hx
  obtain rfl : x.1 = id := by simpa using hid
  exact List.mem_map_of_mem (List.mem_of_find?_eq_some hx)

theorem shown_fetched {r : Relation} {d : Document} {found : Found}
    (hfound : r.Fetched s (r.targetIds d) found) :
    (((r.targetIds d).filter fun id => (found.get? id).isSome).filter
      (· ∉ found.ids.filter (· ∉ found.ids.filter (a.accepts caller r.target)))).filterMap
        found.get? = r.shownIn a caller s d := by
  rw [shownIn, List.filterMap_filter, List.filterMap_filter, List.filterMap_filter]
  refine List.filterMap_congr fun id hid => ?_
  rw [← hfound id hid]
  cases hg : found.get? id with
  | none => simp
  | some x =>
    have hm := mem_ids_of_get? hg
    simp [hm]

/-- **A document after a relation was followed**: it has the copies. -/
theorem lookup_hydrate {r : Relation} {d : Document} {found : Found}
    (hfound : r.Fetched s (r.targetIds d) found) :
    (r.lookup ⟨false, true⟩ found
        (found.ids.filter (· ∉ found.ids.filter (a.accepts caller r.target))) d).1 =
      r.hydratedIn a caller s d := by
  unfold lookup hydratedIn
  dsimp only
  rw [shown_fetched hfound]
  rfl

/-- **The policy decides about what a document refers to.** -/
def Decided (viewer : Viewer) (s : Store) (r : Relation) (d : Document) : Prop :=
  r.DecidesAmong viewer s (r.targetIds d)

/-- **The copies of many documents** for one relation are those of each of them. -/
theorem tells_hydrate (hc : w.cancels → F) (hf : w.fails → F) (hk : s.Keyed) {ds : List Document}
    (hF : (¬ ∀ d ∈ ds, r.Decided viewer s d) → F) :
    Tells w s F (fun out => (∀ d ∈ ds, r.Decided viewer s d) ∧
        out = ds.map fun d => r.hydratedIn viewer.policy viewer.caller s d)
      (r.hydrate viewer ds) := by
  have hids : ∀ id, id ∈ r.targetIdsInAll ds ↔ ∃ d ∈ ds, id ∈ r.targetIds d := by
    intro id
    rw [targetIdsInAll, mem_collected, List.mem_flatMap]
    exact or_iff_right List.not_mem_nil
  have hall : r.DecidesAmong viewer s (r.targetIdsInAll ds) ↔ ∀ d ∈ ds, r.Decided viewer s d := by
    simp only [Decided, DecidesAmong, hids, forall_exists_index, and_imp]
    exact ⟨fun h d hd id hid => h id d hd hid, fun h id d hd hid => h d hd id hid⟩
  refine (tells_fetch hc hf hk r _).bind fun found hfound => ?_
  refine (tells_hidden hfound fun h => hF (hall.not.mp h)).bind
    fun refused hrefused => tells_pure ?_
  obtain ⟨hdecides, rfl⟩ := hrefused
  refine ⟨hall.mp hdecides, List.map_congr_left fun d hd => ?_⟩
  exact lookup_hydrate fun id hid => hfound.each id ((hids id).mpr ⟨d, hd, hid⟩)

/-! ### The copies in a document -/

theorem stored_of_shown {r : Relation} {d x : Document} (h : x ∈ r.shownIn a caller s d) :
    x ∈ (s.entries r.target).documents := by
  obtain ⟨id, -, hx⟩ := List.mem_filterMap.mp h
  obtain ⟨e, he, rfl⟩ := Option.map_eq_some_iff.mp hx
  exact List.mem_map_of_mem (List.mem_of_find?_eq_some he)

theorem value?_hydrated_of_ne {rs : List Relation} {name : String}
    (h : ∀ r ∈ rs, name ≠ r.navigation) (d : Document) :
    (rs.foldl (hydratedIn a caller s) d).value? name = d.value? name := by
  induction rs generalizing d with
  | nil => rfl
  | cons r rs ih =>
    rw [List.foldl_cons, ih (fun x hx => h x (List.mem_cons_of_mem r hx)), hydratedIn,
      Document.value?_put_of_ne _ _ (h r List.mem_cons_self)]

/-- **The copies are stored documents** of the relation's target. -/
theorem value?_hydrated {rs : List Relation} (hnodup : (rs.map navigation).Nodup) {r : Relation}
    (hr : r ∈ rs) (d : Document) : ∃ shown,
      (∀ x ∈ shown, x ∈ (s.entries r.target).documents) ∧
        (rs.foldl (hydratedIn a caller s) d).value? r.navigation =
          some (r.navigationValue shown) := by
  induction rs generalizing d with
  | nil => cases hr
  | cons r' rs ih =>
    rw [List.map_cons, List.nodup_cons] at hnodup
    rcases List.mem_cons.mp hr with rfl | hr
    · refine ⟨r.shownIn a caller s d, fun x hx => stored_of_shown hx, ?_⟩
      have hne : ∀ x ∈ rs, r.navigation ≠ x.navigation := fun x hx heq =>
        hnodup.1 (heq ▸ List.mem_map_of_mem hx)
      rw [List.foldl_cons, value?_hydrated_of_ne hne, hydratedIn, Document.value?_put_self]
    · exact ih hnodup.2 hr _

end Relation

namespace Collection

variable {E : Type} (c : Collection E) (caller : Caller) (s : Store)

/-- **A document with the copies of all its relations**, as the caller is shown it. -/
def hydratedIn (d : Document) : Document :=
  c.schema.relations.foldl (Relation.hydratedIn c.policy caller s) d

/-- The stored documents of the collection can be read, as they are and with their copies. -/
def ReadableIn : Prop :=
  ∀ d ∈ (s.entries c.name).documents, (c.kind.ofDocument? d).isSome = true ∧
    (c.kind.ofDocument? (c.hydratedIn caller s d)).isSome = true

end Collection

end Registrar
