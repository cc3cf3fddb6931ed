import Registrar.Proofs.Change.Deltas
import Registrar.Proofs.Engine.Ceiling
import Registrar.Proofs.Engine.Hydrating
import Registrar.Proofs.Engine.References
import Registrar.Proofs.Engine.Submitted

/-!
# What a delta commits

A delta that succeeds has either planned nothing, and then nothing was written, or its plan was
written to the document that was loaded, together with the stamps and the next version. The patch
is the canonical form of the submitted entity without references to missing entities. The engine
prunes only the relations that the delta names, but no others are written.

* `ok_commit`, `ok_applyDelta`: what was written when an update succeeded.
* `value?_patchOf`: the fields that are named are pruned.
* `Collection.Committed`: what a delta leaves in the store.
* `committed_of_ok`: every delta that succeeds does so.
-/

namespace Registrar

namespace Collection

variable {E : Type} {c : Collection E} {caller : Caller} {w : Surroundings} {s t : Store}
  {delta : Delta E}

/-! ### Updates that succeed -/

theorem ok_writeUpdate {id : Uuid} {version : Option Int64} {u : Update} {place : String}
    (h : (c.writeUpdate id version u place).run.Runs w s (.ok ()) t) :
    t = (s.updateFirst (c.unchangedSince id version).1 (c.withVersion u) c.name).1 ∧
      ∃ e ∈ s.entries c.name, (c.unchangedSince id version).1.holds e.2 = true := by
  rw [writeUpdate_steps] at h
  generalize c.unchangedSince id version = filter at h ⊢
  rcases (runs_bindE _ _).mp h with ⟨n, v, hplace, hrest⟩ | ⟨e, -, he⟩
  · rcases (runs_inPlace _ _).mp hplace with ⟨n', hwrite, hn⟩ | ⟨e, -, he⟩
    · cases hn
      obtain ⟨_, v', hcheck, hcall⟩ : ∃ a v', StoreM.check.run.Runs w s (.ok a) v' ∧
          (StoreM.updateFirst filter.1 (c.withVersion u) c.name).run.Runs w v' (.ok n) v :=
        ((runs_bindE _ _).mp hwrite).resolve_right fun ⟨_, _, he⟩ => nomatch he
      obtain ⟨-, rfl⟩ := runs_check.mp hcheck
      have hreply := ((runs_call (.updateFirst _ _ _)).mp hcall).replies rfl
      obtain ⟨hn, rfl⟩ := Prod.mk.inj hreply
      obtain rfl : n = _ := Except.ok.inj hn
      split at hrest
      · split at hrest <;> exact nomatch hrest.1
      · rename_i hmatched
        refine ⟨hrest.2, ?_⟩
        have hpos : 0 < v'.matched filter.1 c.name :=
          Nat.pos_of_ne_zero fun hzero => hmatched (by rw [Store.updateFirst, hzero]; rfl)
        obtain ⟨e, he⟩ := List.exists_mem_of_length_pos hpos
        exact ⟨e, (List.mem_filter.mp he).1, (List.mem_filter.mp he).2⟩
    · cases he
  · cases he

/-- **An update that succeeds** has no changes, or they are written. -/
theorem ok_commit (hk : s.Keyed) {id : Uuid} {d : Document} (hd : (id, d) ∈ s.entries c.name)
    {changes : Changes} {place : String} {report : WriteReport}
    (h : (c.commit caller id d changes place).run.Runs w s (.ok report) t) :
    changes = [] ∧ t = s ∧ report.wroteNothing = true ∨
      changes ≠ [] ∧ report.wroteNothing = false ∧ ∃ now,
        t = c.writtenTo s id d (changes ++ c.stampsAt caller now) ∧
          (id, (c.withVersion { sets := changes ++ c.stampsAt caller now }).apply d) ∈
            t.entries c.name := by
  rw [commit_eq] at h
  split at h
  · rename_i hempty
    obtain ⟨hreport, rfl⟩ := h
    cases hreport
    exact .inl ⟨List.isEmpty_iff.mp hempty, rfl, rfl⟩
  · rename_i hchanges
    have hquiet : (if c.settings.validateUniqueNames then c.refuseTakenRename changes id place
        else pure ()).run.Quiet := by
      split
      · exact c.quiet_refuseTakenRename changes id place
      · exact always_pureE _
    obtain ⟨_, -, h⟩ := (tells_of_yields hquiet (yields_trivial _)).ok h
    rcases (runs_bindE _ _).mp h with ⟨_, u, hwrite, hreport, rfl⟩ | ⟨e, -, he⟩
    · obtain ⟨update, ⟨now, rfl⟩, hwrite⟩ := (tells_stampedUpdate changes).ok hwrite
      obtain ⟨rfl, hmeets⟩ := ok_writeUpdate hwrite
      cases hreport
      refine .inr ⟨fun hnil => hchanges (by rw [hnil]; rfl), ?_, now, rfl,
        written_of_meets hk hd hmeets _⟩
      simpa [WriteReport.wroteNothing, Document.keys] using hchanges
    · cases he

/-- **A delta that succeeds** was planned for the document that was loaded. -/
theorem ok_applyDelta (hk : s.Keyed) {report : WriteReport}
    (h : (c.applyDelta caller delta).run.Runs w s (.ok report) t) :
    ∃ d, (delta.id, d) ∈ s.entries c.name ∧
      (delta.isEmpty = true ∧ t = s ∧ report.wroteNothing = true ∨
        ∃ e', (c.kind.normalize (c.kind.withId delta.id delta.data)).Gives e' ∧
          (c.commit caller delta.id d (c.schema.plan delta.properties delta.paths
            (c.patchOf s delta.roots e') (some d)) (c.place "update_delta")).run.Runs w s
              (.ok report) t) := by
  obtain ⟨d, hd, h⟩ := (tells_load hk _ _).ok h
  refine ⟨d, hd, ?_⟩
  split at h
  · rename_i hempty
    obtain ⟨hreport, rfl⟩ := h
    cases hreport
    exact .inl ⟨hempty, rfl, rfl⟩
  · obtain ⟨e', he', h⟩ := (tells_ofDraws _).ok h
    obtain ⟨patch, rfl, h⟩ := (tells_prunedIf hk _ _ _ _).ok h
    exact .inr ⟨e', he', h⟩

/-! ### The patch -/

theorem mem_roots {root : String} :
    root ∈ delta.roots ↔ ∃ name ∈ delta.names, Text.headSegment name = root := by
  rw [Delta.roots, mem_collected, List.mem_map, or_iff_right List.not_mem_nil]
  rfl

section

variable (hs : c.schema.Lawful) (hl : c.schema.Linked) (hknown : c.schema.KnowsRelations)

include hknown in
/-- **A relation that is named** without blanks around it is found among the roots. -/
theorem chosen_of_names (hplain : delta.Plain) {f : Field} {r : Relation}
    (hr : r ∈ c.schema.relations) (hname : f.name = r.idField)
    (h : c.schema.Names delta.names f) : r ∈ c.schema.chosenRelations (some delta.roots) := by
  obtain ⟨name, hmem, hreach⟩ := h
  have hfound := (Option.filter_eq_some_iff.mp hreach).1
  rw [hplain.trimmed name hmem] at hfound
  have hkey : nameKey f.name = nameKey (Text.headSegment name) := by
    simpa using List.find?_some hfound
  rw [hname] at hkey
  refine List.mem_filter.mpr ⟨hr, List.any_eq_true.mpr ⟨_, mem_roots.mpr ⟨name, hmem, rfl⟩, ?_⟩⟩
  rw [← Schema.relation?_congr hkey, hknown r hr, Option.map_some, decide_eq_true_iff]

include hs hl hknown in
/-- **What is named is pruned** as it is when all relations are. -/
theorem value?_patchOf (hplain : delta.Plain) {f : Field} (hf : f ∈ c.schema.fields)
    (h : c.schema.Names delta.names f ∨ c.schema.Follows delta.names f) (e : E) :
    (c.patchOf s delta.roots e).value? f.name =
      (c.submitted s c.settings.lookupOnUpdate none (c.kind.toDocument e)).value? f.name := by
  by_cases hrelation : ∃ r ∈ c.schema.relations, f.name = r.idField
  · obtain ⟨r, hr, hname⟩ := hrelation
    obtain ⟨g, hg, hrole, hg'⟩ := hs.references r hr
    obtain rfl := hs.eq_of_name_eq hf hg (hname.trans hg'.symm)
    have hnames : c.schema.Names delta.names f := by
      refine h.resolve_right fun ⟨source, _, hderived⟩ => ?_
      rw [hrole] at hderived
      cases hderived
    have hchosen := chosen_of_names hknown hplain hr hname hnames
    rw [patchOf, touchesRelation_of_chosen hchosen, Bool.true_and, submitted, submitted]
    cases c.settings.lookupOnUpdate with
    | true => rw [if_pos rfl, if_pos rfl, hname, Schema.value?_prunedIn_of_chosen hl hchosen]
    | false => rfl
  · have hother : ∀ r ∈ c.schema.relations, f.name ≠ r.idField := fun r hr heq =>
      hrelation ⟨r, hr, heq⟩
    rw [patchOf, value?_submitted hother, value?_submitted hother]

end

/-! ### Around the named fields -/

theorem value?_stamped_of_not (hs : c.schema.Lawful) {name : String}
    (h : ∀ f ∈ c.schema.fields, f.name = name → f.isStamp = false) (changes : Changes)
    (now : Int64) (d : Document) :
    ((c.withVersion { sets := changes ++ c.stampsAt caller now }).apply d).value? name =
      (Document.setAll changes d).value? name := by
  have hne : ∀ f ∈ c.schema.fields, f.isStamp = true → name ≠ Text.headSegment f.name := by
    intro f hf hstamp heq
    rw [Schema.headSegment_name hs hf] at heq
    rw [h f hf heq.symm] at hstamp
    cases hstamp
  have hsets : (({ sets := changes ++ c.stampsAt caller now } : Update).apply d).value? name =
      (Document.setAll changes d).value? name := by
    rw [Update.apply_eq, Document.addAll, List.foldl_nil, Document.setAll_append]
    refine Document.value?_setAll_of_ne (fun p hp => ?_) _
    obtain ⟨f, hf, hrole, hname⟩ := c.mem_stampsAt caller hp
    rw [hname]
    exact hne f hf (by rcases hrole with hrole | hrole <;> rw [Field.isStamp, hrole])
  rw [value?_withVersion_of_ne hs, hsets]
  intro hversion
  obtain ⟨f, hf, hrole, hname⟩ := Schema.versionName?_eq_some hversion
  refine hne f hf (by rw [Field.isStamp, hrole]) ?_
  rw [Schema.headSegment_name hs hf, hname]

/-! ### What a delta does -/

/-- **What a delta does to a document**: it writes what is named, as the canonical form of the
submitted entity has it without references to missing entities, and counts the write. -/
structure Touches (c : Collection E) (s : Store) (delta : Delta E) (d d' : Document) : Prop where
  applied : ∃ e', (c.kind.normalize (c.kind.withId delta.id delta.data)).Gives e' ∧
    delta.Applied c.schema
      (c.submitted s c.settings.lookupOnUpdate none (c.kind.toDocument e')) d d'
  version : ∀ field, c.schema.versionName? = some field → ∃ v,
    d.value? field = some (.int64 v) ∧ d'.value? field = some (.int64 (nextVersion v))

/-- **What a delta leaves in the store**: nothing new if it names no field, and otherwise one
document that it touched. -/
structure Committed (c : Collection E) (s : Store) (delta : Delta E) (report : WriteReport)
    (t : Store) : Prop where
  idle : report.wroteNothing = true ↔ ∀ f, ¬ c.schema.Names delta.names f
  same : report.wroteNothing = true → t = s
  touched : report.wroteNothing = false → ∃ d d', (delta.id, d) ∈ s.entries c.name ∧
    (delta.id, d') ∈ t.entries c.name ∧ c.Touches s delta d d'
  others : ∀ name id d, ¬ (name = c.name ∧ id = delta.id) →
    ((id, d) ∈ t.entries name ↔ (id, d) ∈ s.entries name)

/-- **Every delta that succeeds** touches what it names, and nothing else. -/
theorem committed_of_ok (hs : c.schema.Lawful) (hl : c.schema.Linked)
    (hleaves : c.schema.DotlessLeaves) (hknown : c.schema.KnowsRelations) {field : String}
    (hf : c.schema.versionName? = some field) (hk : s.Keyed)
    (hcounted : Counted field (s.entries c.name)) (hplain : delta.Plain) {report : WriteReport}
    (h : (c.applyDelta caller delta).run.Runs w s (.ok report) t) :
    c.Committed s delta report t := by
  have hidle : report.wroteNothing = true → t = s → (∀ f, ¬ c.schema.Names delta.names f) →
      c.Committed s delta report t := by
    rintro hnothing rfl hnone
    exact ⟨iff_of_true hnothing hnone, fun _ => rfl,
      fun hwrote => absurd hnothing (by simp [hwrote]),
      fun _ _ _ _ => Iff.rfl⟩
  obtain ⟨d, hd, ⟨hempty, rfl, hnothing⟩ | ⟨e', he', h⟩⟩ := ok_applyDelta hk h
  · refine hidle hnothing rfl fun f ⟨name, hname, _⟩ => ?_
    obtain ⟨hproperties, hpaths⟩ := Bool.and_eq_true_iff.mp hempty
    rw [Delta.names, List.isEmpty_iff.mp hproperties, List.isEmpty_iff.mp hpaths] at hname
    cases hname
  have hnil :
      c.schema.plan delta.properties delta.paths (c.patchOf s delta.roots e') (some d) = [] ↔
        ∀ f, ¬ c.schema.Names delta.names f := by
    rw [Schema.plan_eq_nil_iff hs]
    exact forall_congr' fun f => not_congr (Schema.names_planned_iff hs)
  rcases ok_commit hk hd h with ⟨hplan, rfl, hnothing⟩ | ⟨hplan, hwrote, now, rfl, hd'⟩
  · exact hidle hnothing rfl (hnil.mp hplan)
  · obtain ⟨v, hv, h0, hb⟩ := hcounted.version _ hd
    refine ⟨?_, fun hnothing => ?_, fun _ => ⟨d, _, hd, hd', ⟨e', he', ?_⟩, fun field' hf' => ?_⟩,
      fun _ _ _ => mem_writtenTo_of_ne hk⟩
    · rw [hwrote]
      exact iff_of_false Bool.false_ne_true (mt hnil.mpr hplan)
    · rw [hwrote] at hnothing
      cases hnothing
    · refine (Schema.applied_plan hs hleaves hplain _ d).congr hs (fun f hf hnamed => ?_)
        fun name hname => value?_stamped_of_not hs hname _ now d
      rw [Document.valueOrNull, Document.valueOrNull, value?_patchOf hs hl hknown hplain hf hnamed]
    · rw [hf] at hf'
      cases hf'
      refine ⟨v, hv, value?_versioned_next hs hf rfl ?_ hv h0 hb⟩
      exact (Schema.permits_plan hs _ _ _ _).append (c.permitsAll_stampsAt caller hs now)

end Collection

end Registrar
