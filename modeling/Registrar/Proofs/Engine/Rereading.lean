import Registrar.Proofs.Engine.Columns
import Registrar.Proofs.Engine.Hiding

/-!
# Reading what was written

An update without references compares what is stored with the canonical form of the submitted
entity, and writes the fields that differ. A caller who reads the entity afterwards finds the
submitted data there, and the references as they were, provided that the data is kept and that the
caller still sees the document.

* `tells_load_of_sees`, `tells_get_of_sees`: what the caller sees is loaded and read.
* `Collection.Replaced`: what an update without references leaves in the store.
* `replaced_of_ok`: every such update that succeeds does so.
* `reread_iff`: **when the submitted data is read afterwards**.
-/

namespace Registrar

theorem Query.exists_head_answer {f : Filter} {ds : List Document} {d : Document} (hd : d ∈ ds)
    (hf : f.holds d = true) :
    ∃ x, (Query.answer { filter := some f, limit := some 1 } ds).head? = some x := by
  have hmem : d ∈ sortBy (orderDocuments []) (ds.filter (Filter.admits (some f))) :=
    mem_sortBy.mpr (List.mem_filter.mpr ⟨hd, hf⟩)
  change ∃ x, (((sortBy (orderDocuments []) (ds.filter (Filter.admits (some f)))).drop 0).take
    1).head? = some x
  obtain ⟨x, rest, hcons⟩ := List.exists_cons_of_ne_nil (List.ne_nil_of_mem hmem)
  rw [hcons]
  exact ⟨x, rfl⟩

namespace Collection

variable {E : Type} {c : Collection E} {caller : Caller} {w : Surroundings} {s t : Store}
  {id : Uuid} {d d' : Document} {e e' e₀ : E}

/-! ### Reading one entity -/

/-- **What the caller sees is loaded**, if nothing disturbs the operation. -/
theorem tells_load_of_sees (hk : s.Keyed) (hd : (id, d) ∈ s.entries c.name)
    (hsees : c.policy.Sees caller c.name d) (place : String) :
    Tells .calm s False (· = d) (c.load caller id place) := by
  have hid : (Filter.hasId id).holds d = true :=
    (Filter.hasId_holds ((hk c.name).id _ hd) id).mpr rfl
  refine (((tells_find (fun h => h) _ _).guarded fun h => h).inPlace _).bind fun ds hds => ?_
  obtain ⟨ds', hperm, rfl⟩ := hds
  have hmem : d ∈ ds' := hperm.mem_iff.mpr (Entries.mem_documents.mpr ⟨id, hd⟩)
  obtain ⟨x, hx⟩ := Query.exists_head_answer hmem (holds_visible_iff.mpr ⟨hid, hsees.visible⟩)
  obtain ⟨hfound, hvisible⟩ := Query.mem_of_mem_answer (List.mem_of_mem_head? hx)
  obtain ⟨k, hkx⟩ := Entries.mem_documents.mp (hperm.mem_iff.mp hfound)
  obtain rfl := Entries.eq_of_mem (hk c.name).nodup (stored_of_visible (hk c.name) hkx hvisible) hd
  rw [hx]
  have hgrants := (AccessPolicy.accepts_iff (hk c.name) hd).mp hsees.accepted
  refine ((tells_ofExcept (Q := (· = true)) hgrants rfl).inPlace place).bind
    fun accessible haccessible => ?_
  rw [haccessible]
  exact tells_pure rfl

theorem tells_get_of_sees (hk : s.Keyed) (hd : (id, d) ∈ s.entries c.name)
    (hsees : c.policy.Sees caller c.name d) (he : c.kind.ofDocument? d = some e) :
    Tells .calm s False (· = ⟨e, []⟩) (c.get caller id false) := by
  refine (tells_load_of_sees hk hd hsees _).bind fun x hx => ?_
  subst hx
  have hread : Tells .calm s False (· = e) (c.ofDocument x) := by
    refine tells_ofExcept ?_ rfl
    rw [he]
  refine (hread.inPlace _).bind fun e' he' => ?_
  rw [he']
  exact tells_pure rfl

/-- **What is read** is stored, and the caller sees it. -/
theorem ok_get {report : ReadReport E}
    (h : (c.get caller id false).run.Runs w s (.ok report) t) :
    t = s ∧ report.changedFields = [] ∧
      ∃ d, c.SeesStored caller s id d ∧ c.kind.ofDocument? d = some report.entity := by
  obtain ⟨d, hd, h⟩ := (tells_load_seen id _).ok h
  obtain ⟨e, he, h⟩ := ((tells_ofDocument d).inPlace (c.place "get")).ok h
  obtain ⟨hreport, rfl⟩ := h
  cases hreport
  exact ⟨rfl, rfl, d, hd, he⟩

/-! ### Replacing the data of an entity -/

/-- **What an update without references leaves**: a document that was read, and the document in
its place, to which the difference from the canonical form of the submitted entity was written. -/
structure Replaced (c : Collection E) (s : Store) (e e' : E) (d d' : Document)
    (report : WriteReport) (t : Store) : Prop where
  normal : (c.kind.normalize e).Gives e'
  found : (c.kind.id e, d) ∈ s.entries c.name
  report_eq : report = ⟨c.kind.id e, (c.schema.diff false d (c.kind.toDocument e')).keys⟩
  left : (c.kind.id e, d') ∈ t.entries c.name
  stamped : c.schema.Stamped
    (Document.setAll (c.schema.diff false d (c.kind.toDocument e')) d) d'
  others : ∀ name id x, ¬ (name = c.name ∧ id = c.kind.id e) →
    ((id, x) ∈ t.entries name ↔ (id, x) ∈ s.entries name)

theorem report_of_commit {changes : Changes} {place : String} {report : WriteReport}
    (h : (c.commit caller id d changes place).run.Runs w s (.ok report) t) :
    report = ⟨id, changes.keys⟩ := by
  rw [commit_eq] at h
  split at h
  · rename_i hempty
    rw [List.isEmpty_iff.mp hempty]
    exact Except.ok.inj h.1
  · rcases (runs_bindE _ _).mp h with ⟨_, u, -, h⟩ | ⟨_, -, he⟩
    · rcases (runs_bindE _ _).mp h with ⟨_, u, -, h⟩ | ⟨_, -, he⟩
      · exact Except.ok.inj h.1
      · cases he
    · cases he

/-- **Every update without references that succeeds** replaces the data. -/
theorem replaced_of_ok (hs : c.schema.Lawful) (hk : s.Keyed) {asked : Option Bool}
    (hasked : asked.getD c.settings.includeDependencyFields = false) {report : WriteReport}
    (h : (c.update caller e asked).run.Runs w s (.ok report) t) :
    ∃ e' d d', c.Replaced s e e' d d' report t := by
  obtain ⟨d, hd, h⟩ := (tells_load hk _ _).ok h
  obtain ⟨e', he', h⟩ := (tells_ofDraws _).ok h
  rw [hasked] at h
  obtain ⟨proposed, hproposed, h⟩ := (tells_prunedIf hk _ _ _ _).ok h
  obtain rfl : proposed = c.kind.toDocument e' := hproposed
  have hreport := report_of_commit h
  rcases ok_commit hk hd h with ⟨hnil, rfl, -⟩ | ⟨-, -, now, rfl, hd'⟩
  · refine ⟨e', d, d, he', hd, hreport, hd, ?_, fun _ _ _ _ => Iff.rfl⟩
    rw [hnil]
    exact .refl _ d
  · exact ⟨e', d, _, he', hd, hreport, hd', stamped_written hs _ now d,
      fun _ _ _ => mem_writtenTo_of_ne hk⟩

/-- **When the submitted data is read afterwards**: whenever the caller sees the document that was
left, and the data is kept. -/
theorem reread_iff (caller : Caller) {columns : List (Column E)} (htable : c.kind.Tabled columns)
    (hs : c.schema.Lawful) (hk : t.Keyed) {report : WriteReport}
    (h : c.Replaced s e e' d d' report t) (hd : c.kind.ofDocument? d = some e₀)
    (hfix : ∀ col ∈ columns, col.field.role.isDiffed false = true → col.Fixes e') :
    (∀ r v, (c.get caller (c.kind.id e) false).run.Runs .calm t r v →
      ∃ e₂, r = .ok ⟨e₂, []⟩ ∧
        (∀ col ∈ columns, col.field.role.isDiffed false = true → col.part e₂ = col.part e') ∧
        ∀ col ∈ columns, col.field.role.isReference = true → col.part e₂ = col.part e₀) ↔
      c.policy.Sees caller c.name d' ∧
        ∀ col ∈ columns, col.field.role.isDiffed false = true → col.Keeps e' := by
  rw [← htable.ofDocument?_replaced hs hd h.stamped hfix]
  constructor
  · intro hall
    obtain ⟨r, v, hruns⟩ := Program.exists_runs (w := .calm) ⟨.nil, trivial⟩
      (c.get caller (c.kind.id e) false).run t
    obtain ⟨e₂, rfl, hparts⟩ := hall r v hruns
    obtain ⟨-, -, x, hx, hread⟩ := ok_get hruns
    obtain ⟨k, hkx⟩ := Entries.mem_documents.mp hx.stored
    obtain rfl := (Filter.hasId_holds ((hk c.name).id _ hkx) _).mp hx.found
    obtain rfl := Entries.eq_of_mem (hk c.name).nodup hkx h.left
    exact ⟨hx.seen, e₂, hread, hparts⟩
  · rintro ⟨hsees, e₂, hread, hparts⟩ r v hruns
    obtain ⟨-, hr⟩ := tells_get_of_sees hk h.left hsees hread r v hruns
    cases r with
    | ok report => exact ⟨e₂, congrArg Except.ok hr, hparts⟩
    | error => exact hr.elim

end Collection

end Registrar
