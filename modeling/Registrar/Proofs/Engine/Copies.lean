import Registrar.Proofs.Engine.Hiding
import Registrar.Proofs.Engine.Hydrating

/-!
# Copies of entities

A document that is hydrated has copies of other documents in its navigation fields. Each of them
is a stored document that the policy accepts for the caller. Whether it meets the filter of its own
collection is not asked for. In a keyed store the copies are all that the document refers to and
the policy accepts.

* `Relation.copies`: the copies in a document.
* `CopiesFor`: what the copies in a document are.
* `FollowedAll`: a document after several relations were followed.
* `FollowedAll.copiesFor`: all of its copies are such copies.
* `tells_hydrateEach_followed`, `tells_resolve_followed`: hydrating follows all relations.
-/

namespace Registrar

namespace Relation

variable {a : AccessPolicy} {caller : Caller} {w : Surroundings} {s : Store} {sc : Schema}
  {r : Relation} {d x : Document}

/-- **The copies in a document** for a relation. -/
def copies (r : Relation) (x : Document) : List Document :=
  match x.value? r.navigation with
  | some (.array items) => items.filterMap Value.document?
  | some (.document y) => [y]
  | _ => []

/-- **What a document refers to**, if it exists and the policy accepts it. -/
def Reaches (a : AccessPolicy) (caller : Caller) (s : Store) (r : Relation) (d y : Document) :
    Prop :=
  ∃ id ∈ r.targetIds d, (id, y) ∈ s.entries r.target ∧ a.grants r.target id caller = .ok true

/-- **What the copies in a document are**, which another document was read for: stored documents
that the policy accepts. -/
structure CopiesFor (a : AccessPolicy) (caller : Caller) (s : Store) (r : Relation)
    (d x : Document) : Prop where
  stored : ∀ y ∈ r.copies x, y ∈ (s.entries r.target).documents
  accepted : ∀ y ∈ r.copies x, a.Accepts caller r.target y
  all : s.Keyed → ∀ y, y ∈ r.copies x ↔ r.Reaches a caller s d y

theorem CopiesFor.congr {d' x' : Document} (h : r.CopiesFor a caller s d x)
    (hd : d'.value? r.idField = d.value? r.idField)
    (hx : x'.value? r.navigation = x.value? r.navigation) : r.CopiesFor a caller s d' x' := by
  have hcopies : r.copies x' = r.copies x := by rw [copies, copies, hx]
  refine ⟨hcopies ▸ h.stored, hcopies ▸ h.accepted, fun hk y => ?_⟩
  rw [hcopies, h.all hk, Reaches, Reaches, targetIds_congr hd]

/-! ### Following a relation -/

/-- **A document after a relation was followed** has its copies, and other fields are what they
were. -/
structure Followed (a : AccessPolicy) (caller : Caller) (s : Store) (r : Relation)
    (d x : Document) : Prop where
  copies : r.CopiesFor a caller s d x
  frame : ∀ name, r.Avoids ⟨true, true⟩ name → x.value? name = d.value? name

/-- **A document after several relations were followed**, one after the other. -/
inductive FollowedAll (a : AccessPolicy) (caller : Caller) (s : Store) :
    List Relation → Document → Document → Prop
  | nil (d : Document) : FollowedAll a caller s [] d d
  | cons {r : Relation} {rs : List Relation} {d d' x : Document}
      (first : r.Followed a caller s d d') (rest : FollowedAll a caller s rs d' x) :
      FollowedAll a caller s (r :: rs) d x

theorem FollowedAll.frame {rs : List Relation} (h : FollowedAll a caller s rs d x) {name : String}
    (hn : ∀ r ∈ rs, r.Avoids ⟨true, true⟩ name) : x.value? name = d.value? name := by
  induction h with
  | nil d => rfl
  | cons first rest ih =>
    rw [ih fun r hr => hn r (List.mem_cons_of_mem _ hr)]
    exact first.frame name (hn _ List.mem_cons_self)

theorem FollowedAll.cons_each {rs : List Relation} {ds ds' out : List Document}
    (h : List.Forall₂ (r.Followed a caller s) ds ds')
    (hrest : List.Forall₂ (FollowedAll a caller s rs) ds' out) :
    List.Forall₂ (FollowedAll a caller s (r :: rs)) ds out := by
  induction h generalizing out with
  | nil =>
    cases hrest
    exact .nil
  | cons first _ ih =>
    cases hrest with
    | cons rest hrest => exact .cons (.cons first rest) (ih hrest)

theorem avoids_navigation (hs : sc.Lawful) (hl : sc.Linked) {r' : Relation}
    (hr : r ∈ sc.relations) (hr' : r' ∈ sc.relations) (hne : r'.navigation ≠ r.navigation)
    (options : FollowOptions) : r.Avoids options r'.navigation := by
  refine ⟨?_, fun _ => hne⟩
  obtain ⟨f, hf, hrole, hname⟩ := hl.navigation r' hr'
  obtain ⟨g, hg, hrole', hname'⟩ := hs.references r hr
  rw [← hname, ← hname']
  exact hs.name_ne hf hg (by rw [hrole, hrole']; exact FieldRole.noConfusion)

/-- **All copies are copies for the document**, if no field is used for two relations. -/
theorem FollowedAll.copiesFor (hs : sc.Lawful) (hl : sc.Linked) {rs : List Relation}
    (h : FollowedAll a caller s rs d x) (hrs : ∀ r ∈ rs, r ∈ sc.relations)
    (hids : (rs.map idField).Nodup) (hnavigation : (rs.map navigation).Nodup) :
    ∀ r ∈ rs, r.CopiesFor a caller s d x := by
  induction h with
  | nil d => simp
  | @cons r rs d d' x first rest ih =>
    rw [List.map_cons, List.nodup_cons] at hids hnavigation
    have hr : r ∈ sc.relations := hrs r List.mem_cons_self
    have hrest : ∀ r' ∈ rs, r' ∈ sc.relations := fun r' hr' => hrs r' (List.mem_cons_of_mem r hr')
    intro r' hr'
    rcases List.mem_cons.mp hr' with rfl | hr'
    · -- The relations that are followed later leave the copies alone.
      refine first.copies.congr rfl (rest.frame fun q hq => ?_)
      refine avoids_navigation hs hl (hrest q hq) hr (fun heq => hnavigation.1 ?_) _
      exact heq ▸ List.mem_map_of_mem hq
    · -- The relation that was followed first has left the ids alone.
      refine (ih hrest hids.2 hnavigation.2 r' hr').congr (first.frame _ ?_).symm rfl
      refine avoids_idField hs hl hr (hrest r' hr') (fun heq => hids.1 ?_) _
      exact heq ▸ List.mem_map_of_mem hr'

/-! ### What is fetched -/

/-- **What was fetched** are stored documents, known by their ids. -/
structure FetchedFrom (s : Store) (r : Relation) (ids : List Uuid) (found : Found) : Prop where
  stored : ∀ id y, found.get? id = some y → y ∈ (s.entries r.target).documents ∧ y.KnownBy id
  all : s.Keyed → r.Fetched s ids found

theorem tells_fetch_from (r : Relation) (ids : List Uuid) :
    Tells w s True (FetchedFrom s r ids) (r.fetch ids) := by
  rw [fetch]
  cases ids with
  | nil =>
    refine tells_pure ⟨fun id y h => ?_, fun _ id hid => absurd hid List.not_mem_nil⟩
    cases h
  | cons id ids =>
    refine ((tells_find (fun _ => trivial) _ _).guarded fun _ => trivial).bind
      fun ds hds => tells_pure ?_
    obtain ⟨ds', hperm, rfl⟩ := hds
    refine ⟨fun k y h => ?_, fun hk k hid => get?_fetched (hk r.target) hperm hid⟩
    obtain ⟨e, he, rfl⟩ := Option.map_eq_some_iff.mp h
    have hkey := List.find?_some he
    obtain rfl : e.1 = k := by simpa using hkey
    obtain ⟨y, hy, hread⟩ := List.mem_filterMap.mp (List.mem_of_find?_eq_some he)
    obtain ⟨k, hk, rfl⟩ := Option.map_eq_some_iff.mp hread
    have hmem : y ∈ ds' := (Query.mem_of_mem_answer hy).1
    exact ⟨hperm.mem_iff.mp hmem, .inr hk⟩

theorem tells_hidden_ungranted (r : Relation) (found : Found) :
    Tells w s True (fun hidden => ∀ id ∈ found.ids,
        id ∉ hidden ↔ a.grants r.target id caller = .ok true)
      (StoreM.ofExcept (r.hidden (some (a, caller)) found)) := by
  refine (tells_decided trivial _).mono fun hidden h id hid => ?_
  obtain ⟨-, rfl⟩ := hidden_eq_ok_iff.mp h
  simp [hid, ← AccessPolicy.accepts_iff_grants, Viewer.policy, Viewer.caller]

/-! ### Copies are made -/

theorem length_targetIds_le (h : r.cardinality = .one) (d : Document) :
    (r.targetIds d).length ≤ 1 := by
  rw [targetIds, h]
  dsimp only
  cases (d.valueOrNull r.idField).uuid? <;> simp

/-- **Following a relation** gives a document its copies. -/
theorem followed_lookup {options : FollowOptions} (hh : options.hydrate = true) {found : Found}
    {ids hidden : List Uuid} (hfound : r.FetchedFrom s ids found)
    (hids : ∀ id ∈ r.targetIds d, id ∈ ids)
    (hhidden : ∀ id ∈ found.ids, id ∉ hidden ↔ a.grants r.target id caller = .ok true) :
    r.Followed a caller s d (r.lookup options found hidden d).1 := by
  let kept := (r.targetIds d).filter fun id => (found.get? id).isSome
  let shown := (kept.filter (· ∉ hidden)).filterMap found.get?
  have hvalue : (r.lookup options found hidden d).1.value? r.navigation =
      some (r.navigationValue shown) := by
    unfold lookup
    dsimp only
    rw [if_pos hh, Document.value?_put_self]
  have hcopies : r.copies (r.lookup options found hidden d).1 = shown := by
    rw [copies, hvalue, navigationValue]
    cases hcard : r.cardinality with
    | many =>
      dsimp only
      rw [List.filterMap_map]
      exact List.filterMap_some
    | one =>
      have hlen : shown.length ≤ 1 :=
        calc shown.length
            ≤ (kept.filter (· ∉ hidden)).length := List.length_filterMap_le _ _
          _ ≤ kept.length := List.length_filter_le _ _
          _ ≤ (r.targetIds d).length := List.length_filter_le _ _
          _ ≤ 1 := length_targetIds_le hcard d
      match shown, hlen with
      | [], _ => rfl
      | [y], _ => rfl
  have hshown : ∀ y, y ∈ shown ↔
      ∃ id ∈ r.targetIds d, found.get? id = some y ∧ a.grants r.target id caller = .ok true := by
    intro y
    rw [List.mem_filterMap]
    refine exists_congr fun id => ?_
    rw [List.mem_filter, List.mem_filter, decide_eq_true_iff, and_assoc, and_assoc]
    refine and_congr_right fun _ => ?_
    constructor
    · rintro ⟨-, hn, hy⟩
      exact ⟨hy, (hhidden id (mem_ids_of_get? hy)).mp hn⟩
    · rintro ⟨hy, hgrants⟩
      exact ⟨by rw [hy]; rfl, (hhidden id (mem_ids_of_get? hy)).mpr hgrants, hy⟩
  refine ⟨⟨fun y hy => ?_, fun y hy => ?_, fun hk y => ?_⟩, fun name hn => ?_⟩
  · rw [hcopies] at hy
    obtain ⟨id, -, hget, -⟩ := (hshown y).mp hy
    exact (hfound.stored id y hget).1
  · rw [hcopies] at hy
    obtain ⟨id, -, hget, hgrants⟩ := (hshown y).mp hy
    exact ⟨id, (hfound.stored id y hget).2, hgrants⟩
  · rw [hcopies, hshown, Reaches]
    refine exists_congr fun id => and_congr_right fun hid => and_congr_left fun _ => ?_
    rw [hfound.all hk id (hids id hid), (hk r.target).document?_eq_some]
  · exact value?_lookup_of_avoids ⟨hn.1, fun _ => hn.2 rfl⟩ found hidden d

theorem tells_resolve_one {options : FollowOptions} (hh : options.hydrate = true) (r : Relation)
    (d : Document) : Tells w s True (fun out => r.Followed a caller s d out.1)
      (r.resolve (some (a, caller)) options d) := by
  refine (tells_fetch_from r _).bind fun found hfound => ?_
  rw [hh, if_pos rfl]
  refine (tells_hidden_ungranted r found).bind fun hidden hhidden => tells_pure ?_
  exact followed_lookup hh hfound (fun _ => id) hhidden

theorem tells_hydrate_followed (r : Relation) (ds : List Document) :
    Tells w s True (List.Forall₂ (r.Followed a caller s) ds)
      (r.hydrate (some (a, caller)) ds) := by
  refine (tells_fetch_from r _).bind fun found hfound => ?_
  refine (tells_hidden_ungranted r found).bind fun hidden hhidden => tells_pure ?_
  rw [List.forall₂_map_right_iff, List.forall₂_same]
  intro d hd
  refine followed_lookup rfl hfound (fun id hid => ?_) hhidden
  exact mem_collected.mpr (.inr (List.mem_flatMap_of_mem hd hid))

theorem tells_resolve_followed {options : FollowOptions} (hh : options.hydrate = true)
    (rs : List Relation) (d : Document) (changes : Changes) :
    Tells w s True (fun out => FollowedAll a caller s rs d out.1)
      (resolveAll (some (a, caller)) options rs d changes) := by
  induction rs generalizing d changes with
  | nil => exact tells_pure (.nil d)
  | cons r rs ih =>
    refine (tells_resolve_one hh r d).bind fun out hout => ?_
    exact (ih out.1 _).mono fun final hfinal => .cons hout hfinal

theorem tells_hydrateEach_followed (rs : List Relation) (ds : List Document) :
    Tells w s True (List.Forall₂ (FollowedAll a caller s rs) ds)
      (hydrateEach (some (a, caller)) rs ds) := by
  induction rs generalizing ds with
  | nil => exact tells_pure (List.forall₂_same.mpr fun d _ => .nil d)
  | cons r rs ih =>
    refine (tells_hydrate_followed r ds).bind fun ds' hds => ?_
    exact (ih ds').mono fun out hout => FollowedAll.cons_each hds hout

end Relation

end Registrar
