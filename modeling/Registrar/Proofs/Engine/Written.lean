import Registrar.Proofs.Change.Planned
import Registrar.Proofs.Engine.Effects
import Registrar.Proofs.Engine.Versions

/-!
# The documents that an operation leaves

What an operation leaves in the store, entry by entry. Other collections stay as they are, and
collections stay keyed. In its own collection a document is as it was, or it is the one that was
written; and what was written into a field is told by the changes alone, since the stamps and the
version have fields of their own.

* `keyed_program`, `entries_program`: what every operation keeps.
* `value?_stamped`: stamps and versions leave the other fields alone.
* `mem_writtenTo`, `mem_assignedTo`: the documents after an update.
* `written_of_ne`, `assigned_of_ne`: a write that does anything writes a document that was meant.
* `Effect.forall_entries`: what all documents have in common after an operation.
-/

namespace Registrar

namespace Collection

variable {E : Type} {c : Collection E} {caller : Caller} {w : Surroundings} {s t : Store}

/-! ### What every operation keeps -/

/-- **Other collections stay as they are.** -/
theorem entries_of_reply {name : String} (hn : name ≠ c.name) {r : Request} {a : r.Answer}
    (hi : c.Issues r) (h : w.Reply s r a t) : t.entries name = s.entries name := by
  have hwrite : ∀ {f : Entries → Entries}, f [] = [] → t = s.modify c.name f →
      t.entries name = s.entries name := fun hf ht => by
    rw [ht, Store.entries_modify _ _ _ hf, if_neg hn]
  cases r with
  | store call =>
    cases call with
    | insert id d other =>
      obtain ⟨rfl, -⟩ := hi
      have hr : (a, t) = s.serve (.insert id d c.name) := h.replies rfl
      rw [Store.serve] at hr
      cases hs : s.insert id d c.name with
      | ok s' =>
        rw [hs] at hr
        cases hr
        rw [Store.entries_insert hs, if_neg hn]
      | error e =>
        rw [hs] at hr
        cases hr
        rfl
    | updateFirst f u other =>
      obtain ⟨rfl, -⟩ := hi
      exact hwrite rfl (congrArg Prod.snd (h.replies rfl))
    | updateAll f u other =>
      obtain ⟨rfl, -⟩ := hi
      exact hwrite rfl (congrArg Prod.snd (h.replies rfl))
    | deleteFirst f other =>
      obtain rfl : other = c.name := hi
      exact hwrite rfl (congrArg Prod.snd (h.replies rfl))
    | deleteAll f other =>
      obtain rfl : other = c.name := hi
      exact hwrite rfl (congrArg Prod.snd (h.replies rfl))
    | createCollection other => exact hi.elim
    | dropCollection other => exact hi.elim
    | find query other => rw [h.eq_of_isQuiet rfl]
    | count filter other => rw [h.eq_of_isQuiet rfl]
    | listCollections => rw [h.eq_of_isQuiet rfl]
  | isCancelled => rw [h.eq_of_isQuiet rfl]
  | newId => rw [h.eq_of_isQuiet rfl]
  | now => rw [h.eq_of_isQuiet rfl]

theorem keyed_of_reply (hs : c.schema.Lawful) {r : Request} {a : r.Answer} (hi : c.Issues r)
    (h : w.Reply s r a t) (hk : s.Keyed) : t.Keyed := by
  intro name
  by_cases hn : name = c.name
  · rw [hn]
    exact (c.writes_reply hi h).keyed hs (hk c.name)
  · rw [entries_of_reply hn hi h]
    exact hk name

/-- **An operation keeps a store keyed.** -/
theorem keyed_program (hk : c.kind.Lawful) {op : Operation E} {r : Except Failure (Answer E)}
    (h : (op.program c caller).run.Runs w s r t) (hs : s.Keyed) : t.Keyed :=
  h.invariant (c.issues_program caller hk op) (fun _ _ _ _ hi => keyed_of_reply hk.schema hi) hs

theorem entries_program (hk : c.kind.Lawful) {op : Operation E} {r : Except Failure (Answer E)}
    (h : (op.program c caller).run.Runs w s r t) {name : String} (hn : name ≠ c.name) :
    t.entries name = s.entries name := by
  refine h.invariant (I := fun u => u.entries name = s.entries name)
    (c.issues_program caller hk op) (fun _ _ _ _ hi hr hu => ?_) rfl
  rw [entries_of_reply hn hi hr, hu]

/-! ### Documents after an update -/

theorem versionName?_ne_name (hs : c.schema.Lawful) {g : Field} (hg : g ∈ c.schema.fields)
    (hr : g.role ≠ .version) : c.schema.versionName? ≠ some g.name := by
  intro hversion
  obtain ⟨f, hf, hrole, hname⟩ := Schema.versionName?_eq_some hversion
  exact hs.name_ne hf hg (by rw [hrole]; exact hr.symm) hname

theorem value?_withVersion_of_ne (hs : c.schema.Lawful) {name : String}
    (hname : c.schema.versionName? ≠ some name) (u : Update) (d : Document) :
    ((c.withVersion u).apply d).value? name = (u.apply d).value? name := by
  rw [withVersion]
  split
  · rename_i field hfield
    obtain ⟨f, hf, -, rfl⟩ := Schema.versionName?_eq_some hfield
    refine Update.value?_apply_inc_of_ne 1 ?_ d
    rw [Schema.headSegment_name hs hf]
    exact fun heq => hname (heq ▸ hfield)
  · rfl

/-- **What an update writes** is told by what it sets, but for the version. -/
theorem value?_written_of_ne (hs : c.schema.Lawful) {name : String}
    (hname : c.schema.versionName? ≠ some name) (sets : List (String × Value)) (d : Document) :
    ((c.withVersion { sets }).apply d).value? name = (Document.setAll sets d).value? name := by
  rw [value?_withVersion_of_ne hs hname, Update.apply_eq, Document.addAll, List.foldl_nil]

theorem name_ne_headSegment_stamp (hs : c.schema.Lawful) {g : Field} (hg : g ∈ c.schema.fields)
    (hr : g.role ≠ .updatedAt ∧ g.role ≠ .updatedBy) {now : Int64} {p : String × Value}
    (hp : p ∈ c.stampsAt caller now) : g.name ≠ Text.headSegment p.1 := by
  obtain ⟨f, hf, -, hname⟩ := c.mem_stampsAt caller hp
  rw [hname, Schema.headSegment_name hs hf, ← hname]
  exact c.name_ne_stamp caller hs hg hr hp

/-- **What an update writes into a field** is told by what it sets. -/
theorem value?_versioned (hs : c.schema.Lawful) {g : Field} (hg : g ∈ c.schema.fields)
    (hr : g.role ≠ .version) (sets : List (String × Value)) (d : Document) :
    ((c.withVersion { sets }).apply d).value? g.name = (Document.setAll sets d).value? g.name :=
  value?_written_of_ne hs (versionName?_ne_name hs hg hr) sets d

/-- **Stamps and versions leave the other fields alone.** -/
theorem value?_stamped (hs : c.schema.Lawful) {g : Field} (hg : g ∈ c.schema.fields)
    (hr : g.role ≠ .updatedAt ∧ g.role ≠ .updatedBy ∧ g.role ≠ .version) (changes : Changes)
    (now : Int64) (d : Document) :
    ((c.withVersion { sets := changes ++ c.stampsAt caller now }).apply d).value? g.name =
      (Document.setAll changes d).value? g.name := by
  rw [value?_versioned hs hg hr.2.2, Document.setAll_append, Document.value?_setAll_of_ne
    fun p hp => name_ne_headSegment_stamp hs hg ⟨hr.1, hr.2.1⟩ hp]

theorem eq_of_unchangedSince (hk : s.Keyed) {id k : Uuid} {version : Option Int64} {d : Document}
    (hd : (k, d) ∈ s.entries c.name) (h : (c.unchangedSince id version).1.holds d = true) :
    k = id := by
  have hid : d.value? "id" = some (Value.ofUuid k) := (hk c.name).id _ hd
  refine (Filter.hasId_holds hid id).mp ?_
  unfold unchangedSince at h
  split at h
  · exact ((Filter.and_pair_holds _ _).mp h).1
  · exact h

theorem mem_of_visibleAmong (hk : s.Keyed) {ids : List Uuid} {k : Uuid} {d : Document}
    (hd : (k, d) ∈ s.entries c.name) (h : (c.visibleAmong caller ids).holds d = true) : k ∈ ids :=
  (Filter.hasIdIn_holds ((hk c.name).id _ hd) ids).mp (holds_of_visible h)

theorem entries_writtenTo (id : Uuid) (d : Document) (sets : List (String × Value)) :
    (c.writtenTo s id d sets).entries c.name = (s.entries c.name).updateFirst
      (c.unchangedSince id (c.knownVersion d)).1 (c.withVersion { sets }) := by
  rw [writtenTo, Store.updateFirst, Store.entries_modify _ _ _ rfl, if_pos rfl]

theorem entries_assignedTo (ids : List Uuid) (sets : List (String × Value)) :
    (c.assignedTo caller s ids sets).entries c.name = (s.entries c.name).updateAll
      (c.visibleAmong caller ids) (c.withVersion { sets }) := by
  rw [assignedTo, Store.updateAll, Store.entries_modify _ _ _ rfl, if_pos rfl]

/-- **After a write of a loaded document** every document is as it was, or it is the written one. -/
theorem mem_writtenTo (hk : s.Keyed) {id : Uuid} {d : Document} (hd : (id, d) ∈ s.entries c.name)
    {sets : List (String × Value)} {e : Uuid × Document}
    (he : e ∈ (c.writtenTo s id d sets).entries c.name) :
    e ∈ s.entries c.name ∨ e = (id, (c.withVersion { sets }).apply d) := by
  rw [entries_writtenTo] at he
  rcases Entries.mem_updateFirst_cases he with he | ⟨d', hd', hf, hu⟩
  · exact .inl he
  · obtain rfl : e.1 = id := eq_of_unchangedSince hk hd' hf
    obtain rfl : d' = d := Entries.eq_of_mem (hk c.name).nodup hd' hd
    exact .inr (Prod.ext rfl hu)

/-- **A write of a loaded document** leaves the others alone. -/
theorem mem_writtenTo_of_ne (hk : s.Keyed) {id : Uuid} {d : Document}
    {sets : List (String × Value)} {name : String} {k : Uuid} {x : Document}
    (h : ¬ (name = c.name ∧ k = id)) :
    (k, x) ∈ (c.writtenTo s id d sets).entries name ↔ (k, x) ∈ s.entries name := by
  by_cases hname : name = c.name
  · have hother : ∀ y, (s.entries c.name).find? (Entries.meets
        (c.unchangedSince id (c.knownVersion d)).1) ≠ some (k, y) := by
      intro y hy
      have hmeets := List.find?_some hy
      exact h ⟨hname, eq_of_unchangedSince hk (List.mem_of_find?_eq_some hy) hmeets⟩
    rw [hname, entries_writtenTo, Entries.mem_updateFirst (hk c.name).nodup]
    constructor
    · rintro (⟨hmem, -⟩ | ⟨y, hy, -⟩)
      · exact hmem
      · exact absurd hy (hother y)
    · exact fun hmem => .inl ⟨hmem, hother⟩
  · rw [writtenTo, Store.updateFirst, Store.entries_modify _ _ _ rfl, if_neg hname]

/-- **If such a write means any document**, the written document is there. -/
theorem written_of_meets (hk : s.Keyed) {id : Uuid} {d : Document}
    (hd : (id, d) ∈ s.entries c.name) (h : ∃ e ∈ s.entries c.name,
      (c.unchangedSince id (c.knownVersion d)).1.holds e.2 = true) (sets : List (String × Value)) :
    (id, (c.withVersion { sets }).apply d) ∈ (c.writtenTo s id d sets).entries c.name := by
  obtain ⟨⟨k, d'⟩, he, hf⟩ := h
  obtain rfl : k = id := eq_of_unchangedSince hk he hf
  obtain rfl : d' = d := Entries.eq_of_mem (hk c.name).nodup he hd
  rw [entries_writtenTo, Entries.mem_updateFirst (hk c.name).nodup]
  exact .inr ⟨d', Entries.find?_meets (hk c.name).nodup hd hf
    fun x hx hm => eq_of_unchangedSince hk hx hm, rfl⟩

/-- **If such a write does anything**, the written document is there. -/
theorem written_of_ne (hk : s.Keyed) {id : Uuid} {d : Document} (hd : (id, d) ∈ s.entries c.name)
    {sets : List (String × Value)}
    (h : (c.writtenTo s id d sets).entries c.name ≠ s.entries c.name) :
    (id, (c.withVersion { sets }).apply d) ∈ (c.writtenTo s id d sets).entries c.name := by
  refine written_of_meets hk hd ?_ sets
  by_contra hnone
  push Not at hnone
  rw [entries_writtenTo] at h
  exact h (Entries.updateFirst_of_none fun e he => Bool.eq_false_iff.mpr (hnone e he))

/-- **After an assignment** every document is as it was, or it is a listed one with what was
assigned. -/
theorem mem_assignedTo (hk : s.Keyed) {ids : List Uuid} {sets : List (String × Value)}
    {e : Uuid × Document} (he : e ∈ (c.assignedTo caller s ids sets).entries c.name) :
    e ∈ s.entries c.name ∨ ∃ d, (e.1, d) ∈ s.entries c.name ∧ e.1 ∈ ids ∧
      (c.visibleAmong caller ids).holds d = true ∧ e.2 = (c.withVersion { sets }).apply d := by
  rw [entries_assignedTo, Entries.mem_updateAll] at he
  rcases he with ⟨he, -⟩ | ⟨d, hd, hf, hu⟩
  · exact .inl he
  · exact .inr ⟨d, hd, mem_of_visibleAmong hk hd hf, hf, hu⟩

theorem assigned_mem {ids : List Uuid} {k : Uuid} {d : Document} (hd : (k, d) ∈ s.entries c.name)
    (hf : (c.visibleAmong caller ids).holds d = true) (sets : List (String × Value)) :
    (k, (c.withVersion { sets }).apply d) ∈
      (c.assignedTo caller s ids sets).entries c.name := by
  rw [entries_assignedTo, Entries.mem_updateAll]
  exact .inr ⟨d, hd, hf, rfl⟩

theorem unassigned_mem {ids : List Uuid} {e : Uuid × Document} (he : e ∈ s.entries c.name)
    (hf : (c.visibleAmong caller ids).holds e.2 = false) (sets : List (String × Value)) :
    e ∈ (c.assignedTo caller s ids sets).entries c.name := by
  rw [entries_assignedTo, Entries.mem_updateAll]
  exact .inl ⟨he, hf⟩

/-- **If an assignment does anything**, there is a document that it means. -/
theorem assigned_of_ne {ids : List Uuid} {sets : List (String × Value)}
    (h : (c.assignedTo caller s ids sets).entries c.name ≠ s.entries c.name) :
    ∃ e ∈ s.entries c.name, (c.visibleAmong caller ids).holds e.2 = true := by
  by_contra hnone
  push Not at hnone
  rw [entries_assignedTo] at h
  exact h (Entries.updateAll_of_none fun e he => Bool.eq_false_iff.mpr (hnone e he))

/-- **What an effect keeps**: every document of the collection has something in common, if new
documents have it and every way of writing a document keeps it. -/
theorem Effect.forall_entries {op : Operation E} {P : Document → Prop}
    (h : c.Effect caller s op t) (hk : s.Keyed)
    (hs : ∀ id d, (id, d) ∈ s.entries c.name → P d)
    (hadd : ∀ e e' now, op = .add e → c.Prepares e e' →
      P (c.stampedNewAt caller now (c.newDocument s e')))
    (hupdate : ∀ id d changes now, (id, d) ∈ s.entries c.name → P d →
      c.Proposes s op id d changes →
        P ((c.withVersion { sets := changes ++ c.stampsAt caller now }).apply d))
    (hprune : ∀ d changes, P d → (∀ p ∈ changes, ∃ r ∈ c.schema.relations, r.Shortened d p) →
      P ((c.withVersion { sets := changes }).apply d))
    (hassign : ∀ bulk ids e' changes now id d, op = .assign bulk →
      c.policy.grantedAmong c.name caller bulk.ids = .ok ids →
      (c.kind.normalize bulk.template).Gives e' →
      changes = c.schema.plan bulk.properties [] (c.patchOf s bulk.properties e') none →
      (id, d) ∈ s.entries c.name → (c.visibleAmong caller ids).holds d = true → P d →
        P ((c.withVersion { sets := changes ++ c.stampsAt caller now }).apply d)) :
    ∀ id d, (id, d) ∈ t.entries c.name → P d := by
  intro k x hx
  cases h with
  | idle => exact hs k x hx
  | added prepares free inserts =>
    rw [Store.entries_insert inserts, if_pos rfl, Entries.mem_insert] at hx
    rcases hx with heq | hx
    · rw [(Prod.mk.inj heq).2]
      exact hadd _ _ _ rfl prepares
    · exact hs k x hx
  | updated stored proposes =>
    rcases mem_writtenTo hk stored hx with hx | heq
    · exact hs k x hx
    · rw [(Prod.mk.inj heq).2]
      exact hupdate _ _ _ _ stored (hs _ _ stored) proposes
  | pruned stored short =>
    rcases mem_writtenTo hk stored hx with hx | heq
    · exact hs k x hx
    · rw [(Prod.mk.inj heq).2]
      exact hprune _ _ (hs _ _ stored) short
  | assigned granted normal hchanges unshared =>
    rcases mem_assignedTo hk hx with hx | ⟨d, hd, -, hmeant, heq⟩
    · exact hs k x hx
    · rw [show x = _ from heq]
      exact hassign _ _ _ _ _ _ d rfl granted normal hchanges hd hmeant (hs _ _ hd)
  | deleted id => exact hs k x (Store.mem_of_mem_deleteFirst hx)
  | deletedListed granted => exact hs k x (Store.mem_of_mem_deleteAll hx)

end Collection

end Registrar
