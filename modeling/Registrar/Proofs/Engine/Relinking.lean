import Registrar.Proofs.Engine.Columns
import Registrar.Proofs.Engine.Incarnations
import Registrar.Proofs.Engine.Rereading

/-!
# References that are changed

Linking, unlinking and referring all go the same way. When the ids are as they should be, nothing is
written. Otherwise the entity to refer to has to exist, and then the new ids are written to the
document that was loaded; since nothing happens in between, the document still has the version that
it was loaded with. Once the ids have been changed, there is nothing left to change.

* `Relinking`: the three ways of changing references.
* `Relinking.Settled`, `Relinking.changed`: when there is nothing to change, and the ids after it.
* `runs_writeStamped`: an undisturbed write succeeds.
* `Collection.Relinked`: what a change leaves in the store.
* `Collection.Relinks`, `relinks`: **what a change of references does**.
-/

namespace Registrar

/-- **A change of the references** of an entity by a relation. -/
inductive Relinking where
  | link (target : Uuid)
  | unlink (target : Uuid)
  | refer (target : Option Uuid)

namespace Relinking

/-- How many entities the relation has to refer to. -/
def cardinality : Relinking → Cardinality
  | link _ | unlink _ => .many
  | refer _ => .one

/-- **There is nothing to change** about the ids. -/
def Settled : Relinking → List Uuid → Prop
  | link target, ids => target ∈ ids
  | unlink target, ids => target ∉ ids
  | refer target, ids => ids = target.toList

instance : (m : Relinking) → (ids : List Uuid) → Decidable (m.Settled ids)
  | link target, ids => inferInstanceAs (Decidable (target ∈ ids))
  | unlink target, ids => inferInstanceAs (Decidable (target ∉ ids))
  | refer target, ids => inferInstanceAs (Decidable (ids = target.toList))

/-- **The ids after the change.** -/
def changed : Relinking → List Uuid → List Uuid
  | link target, ids => ids ++ [target]
  | unlink target, ids => ids.filter (· ≠ target)
  | refer target, _ => target.toList

/-- The entity that has to exist. -/
def newcomer? : Relinking → Option Uuid
  | link target => some target
  | unlink _ => none
  | refer target => target

/-- What the failures call the change. -/
def place : Relinking → String
  | link _ => "associate"
  | unlink _ => "dissociate"
  | refer _ => "set_reference"

/-- **The change as an operation** on an entity, by the name of a relation. -/
def operation {E : Type} (id : Uuid) (name : String) : Relinking → Operation E
  | link target => .link id name target
  | unlink target => .unlink id name target
  | refer target => .refer id name target

/-- **The program** of the operation. -/
def program {E : Type} (c : Collection E) (caller : Caller) (id : Uuid) (name : String) :
    Relinking → OperationM Bool
  | link target => c.link caller id name target
  | unlink target => c.unlink caller id name target
  | refer target => c.refer caller id name target

/-- **After a change there is nothing to change.** -/
theorem settled_changed (m : Relinking) (ids : List Uuid) : m.Settled (m.changed ids) := by
  cases m with
  | link target => exact List.mem_append_right _ List.mem_cons_self
  | unlink target => exact fun h => by simpa using (List.mem_filter.mp h).2
  | refer target => rfl

/-- **Unlinking takes a linked id away again.** -/
theorem unlink_link {target : Uuid} {ids : List Uuid} (h : target ∉ ids) :
    (unlink target).changed ((link target).changed ids) = ids := by
  have hids : ids.filter (· ≠ target) = ids :=
    List.filter_eq_self.mpr fun id hid => decide_eq_true fun heq => h (heq ▸ hid)
  rw [changed, changed, List.filter_append, hids]
  simp

end Relinking

namespace Relation

variable {r : Relation} {d : Document} {ids : List Uuid}

/-- **The stored form of the ids** of a relation. -/
def idsValue (r : Relation) (ids : List Uuid) : Value :=
  match r.cardinality with
  | .many => Value.ofUuids ids
  | .one => (ids.head?.map Value.ofUuid).getD .null

theorem targetIds_of_idsValue (hd : d.value? r.idField = some (r.idsValue ids))
    (h : r.cardinality = .one → ids.length ≤ 1) : r.targetIds d = ids := by
  rw [targetIds, Document.valueOrNull, hd, Option.getD_some, idsValue]
  cases hc : r.cardinality with
  | many => exact Value.uuids_ofUuids ids
  | one =>
    have hlen := h hc
    cases ids with
    | nil => rfl
    | cons id rest =>
      obtain rfl : rest = [] := List.eq_nil_of_length_eq_zero (by simpa using hlen)
      exact congrArg Option.toList (Value.uuid?_ofUuid id)

theorem targetIds_eq_toList_iff (hone : r.cardinality = .one) (target : Option Uuid) :
    r.targetIds d = target.toList ↔ (d.value? r.idField).bind Value.uuid? = target := by
  have hids : r.targetIds d = ((d.value? r.idField).bind Value.uuid?).toList := by
    rw [targetIds, hone, Document.valueOrNull]
    cases d.value? r.idField <;> rfl
  rw [hids]
  generalize (d.value? r.idField).bind Value.uuid? = found
  cases found <;> cases target <;> simp

end Relation

/-! ### What happens undisturbed -/

namespace Collection

variable {E : Type} {c : Collection E} {caller : Caller} {w : Surroundings} {s t : Store}
  {id : Uuid} {d : Document} {field : String}

theorem tells_entityExists_iff (hk : s.Keyed) (name : String) (id : Uuid) :
    Tells .calm s False (fun b => b = true ↔ s.Has name id) (entityExists name id) := by
  refine ((tells_count (fun h => h) _ _).guarded fun h => h).bind fun n hn => tells_pure ?_
  rw [hn, Store.count, decide_eq_true_iff, List.length_pos_iff_exists_mem, Store.has_iff]
  constructor
  · rintro ⟨e, he⟩
    obtain ⟨hm, hf⟩ := List.mem_filter.mp he
    exact ⟨e.2, (Filter.hasId_holds ((hk name).id e hm) id).mp hf ▸ hm⟩
  · rintro ⟨x, hx⟩
    exact ⟨(id, x), List.mem_filter.mpr ⟨hx, (Filter.hasId_holds ((hk name).id _ hx) id).mpr rfl⟩⟩

theorem surely_requireTarget (hk : s.Keyed) {r : Relation} {target : Uuid}
    (h : s.Has r.target target) (place : String) :
    Surely s (requireTarget r target place) (.ok ()) := by
  refine ((((tells_entityExists_iff hk _ _).inPlace _).mono fun b hb => ?_).surely).bind
    (a := true) fun _ _ => Iff.rfl
  exact hb.mpr h

theorem surely_requireTarget_of_not (hk : s.Keyed) {r : Relation} {target : Uuid}
    (h : ¬ s.Has r.target target) (place : String) :
    Surely s (requireTarget r target place) (.error (.missing r.target target)) := by
  refine ((((tells_entityExists_iff hk _ _).inPlace _).mono fun b hb => ?_).surely).bind
    (a := false) fun _ _ => Iff.rfl
  exact Bool.eq_false_iff.mpr (mt hb.mp h)

/-- **What the filter hides** looks missing. -/
theorem surely_load_of_hidden (hk : s.Keyed) (hd : (id, d) ∈ s.entries c.name)
    (hidden : Filter.admits (c.policy.visibility c.name caller) d = false) (place : String) :
    Surely s (c.load caller id place) (.error (.missing c.name id)) := by
  have hfind : Tells .calm s False (· = []) (OperationM.inPlace place (StoreM.guarded
      (StoreM.find { filter := some (c.visible caller (.hasId id)), limit := some 1 }
        c.name))) := by
    refine (((tells_find (fun h => h) _ _).guarded fun h => h).inPlace _).mono fun ds hds => ?_
    obtain ⟨ds', hperm, rfl⟩ := hds
    refine List.eq_nil_iff_forall_not_mem.mpr fun x hx => ?_
    obtain ⟨hmem, hvisible⟩ := Query.mem_of_mem_answer hx
    obtain ⟨k, hkx⟩ := Entries.mem_documents.mp (hperm.mem_iff.mp hmem)
    have hstored := stored_of_visible (hk c.name) hkx hvisible
    obtain rfl := Entries.eq_of_mem (hk c.name).nodup hstored hd
    rw [(holds_visible_iff.mp hvisible).2] at hidden
    cases hidden
  exact hfind.surely.bind fun _ _ => Iff.rfl

theorem runs_stampedUpdate {changes : Changes} {r : Except Failure Update}
    (h : (c.stampedUpdate caller changes).run.Runs w s r t) :
    (∃ now, r = .ok { sets := changes ++ c.stampsAt caller now }) ∧ t = s := by
  obtain ⟨now, u, rfl, rfl, rfl⟩ := h
  exact ⟨⟨now, rfl⟩, rfl⟩

theorem runs_checked (call : StoreCall) (hwrite : call.isWrite = true)
    {r : Except StoreError call.Result}
    (h : (StoreM.check >>= fun _ => StoreM.call call).run.Runs .calm s r t) :
    (r, t) = s.serve call := by
  have hreply : s.Replies call r t := by
    rcases (runs_bindE _ _).mp h with ⟨_, u, hcheck, hcall⟩ | ⟨e, hcheck, -⟩
    · obtain ⟨-, rfl⟩ := runs_check.mp hcheck
      exact ((runs_call call).mp hcall).replies hwrite
    · obtain ⟨hno | ⟨hno, -⟩, -⟩ := runs_check.mp hcheck
      · cases hno
      · exact hno.elim
  cases call with
  | find query name => cases hwrite
  | _ => exact hreply

/-- **An undisturbed update** of a document that is still as it was loaded succeeds. -/
theorem runs_writeUpdate {version : Option Int64} {u : Update} {place : String}
    (hd : (id, d) ∈ s.entries c.name) (hmeets : (c.unchangedSince id version).1.holds d = true)
    {r : Except Failure Unit} (h : (c.writeUpdate id version u place).run.Runs .calm s r t) :
    r = .ok () ∧
      t = (s.updateFirst (c.unchangedSince id version).1 (c.withVersion u) c.name).1 := by
  have hmatched : 0 < s.matched (c.unchangedSince id version).1 c.name :=
    List.length_pos_of_mem (List.mem_filter.mpr ⟨hd, hmeets⟩)
  rw [writeUpdate_steps] at h
  rcases (runs_bindE _ _).mp h with ⟨n, v, hplace, hrest⟩ | ⟨e, hplace, -⟩
  · rcases (runs_inPlace _ _).mp hplace with ⟨n', hrun, hn⟩ | ⟨e, -, he⟩
    · cases hn
      obtain ⟨hn, rfl⟩ := Prod.mk.inj (runs_checked (.updateFirst _ _ _) rfl hrun)
      have hpos : n ≠ 0 := by
        obtain rfl : n = _ := Except.ok.inj hn
        rw [Store.updateFirst, Nat.min_eq_left hmatched]
        exact Nat.one_ne_zero
      rw [if_neg hpos] at hrest
      exact hrest
    · cases he
  · rcases (runs_inPlace _ _).mp hplace with ⟨n', -, he⟩ | ⟨e', hrun, -⟩
    · cases he
    · have hserved := (Prod.mk.inj (runs_checked (.updateFirst _ _ _) rfl hrun)).1
      cases hserved

/-- **An undisturbed write** of a document that was just loaded succeeds. -/
theorem runs_writeStamped (hs : c.schema.Lawful) (hf : c.schema.versionName? = some field)
    (hcounted : Counted field (s.entries c.name)) (hd : (id, d) ∈ s.entries c.name)
    {changes : Changes} {place : String} {r : Except Failure Unit}
    (h : (c.writeStamped caller id (c.knownVersion d) changes place).run.Runs .calm s r t) :
    r = .ok () ∧ ∃ now, t = c.writtenTo s id d (changes ++ c.stampsAt caller now) := by
  have hmeets : (c.unchangedSince id (c.knownVersion d)).1.holds d = true :=
    (unchangedSince_holds_iff hs hf hcounted hcounted hd hd).mpr ⟨rfl, rfl⟩
  rcases (runs_bindE _ _).mp h with ⟨u, v, hstamps, hwrite⟩ | ⟨e, hstamps, -⟩
  · obtain ⟨⟨now, hu⟩, rfl⟩ := runs_stampedUpdate hstamps
    cases hu
    obtain ⟨rfl, rfl⟩ := runs_writeUpdate hd hmeets hwrite
    exact ⟨rfl, now, rfl⟩
  · obtain ⟨⟨now, he⟩, -⟩ := runs_stampedUpdate hstamps
    cases he

end Collection

/-! ### How a change goes -/

namespace Relinking

variable {E : Type} {c : Collection E} {caller : Caller} {s : Store} {id : Uuid} {name : String}
  {r : Relation} {d : Document}

/-- Fails unless the entity to refer to exists, if there is one. -/
def requireNewcomer (m : Relinking) (r : Relation) (place : String) : OperationM Unit :=
  match m.newcomer? with
  | some target => Collection.requireTarget r target place
  | none => pure ()

/-- What remains to be done when the document has been loaded. -/
def settle (m : Relinking) (c : Collection E) (caller : Caller) (id : Uuid) (r : Relation)
    (d : Document) : OperationM Bool :=
  if m.Settled (r.targetIds d) then return false
  else do
    m.requireNewcomer r (c.place m.place)
    c.writeReferences caller id d r (r.idsValue (m.changed (r.targetIds d))) (c.place m.place)

theorem program_eq (m : Relinking) (hr : c.schema.relation? name = some r)
    (hm : r.cardinality = m.cardinality) :
    m.program c caller id name =
      (c.load caller id (c.place m.place) >>= m.settle c caller id r) := by
  have hfound : c.relation name m.cardinality = pure r := by
    rw [Collection.relation, hr, Option.filter_some, if_pos (decide_eq_true hm)]
  have hids : ∀ d, r.cardinality = .many → r.targetIds d = (d.valueOrNull r.idField).uuids :=
    fun d hmany => by rw [Relation.targetIds, hmany]
  have hvalue : ∀ ids, r.cardinality = .many → r.idsValue ids = Value.ofUuids ids :=
    fun ids hmany => by rw [Relation.idsValue, hmany]
  cases m with
  | link target =>
    change (c.relation name .many >>= _) = _
    rw [show c.relation name .many = pure r from hfound, pure_bind]
    refine congrArg (c.load caller id _ >>= ·) (funext fun d => ?_)
    rw [settle, hids d hm, hvalue _ hm]
    rfl
  | unlink target =>
    change (c.relation name .many >>= _) = _
    rw [show c.relation name .many = pure r from hfound, pure_bind]
    refine congrArg (c.load caller id _ >>= ·) (funext fun d => ?_)
    rw [settle, hids d hm, hvalue _ hm]
    by_cases hmem : target ∈ (d.valueOrNull r.idField).uuids
    · rw [if_neg (show ¬ Settled (unlink target) _ from fun h => h hmem), if_pos hmem]
      rfl
    · rw [if_pos (show Settled (unlink target) _ from hmem)]
      dsimp only
      rw [if_neg hmem]
  | refer target =>
    change (c.relation name .one >>= _) = _
    rw [show c.relation name .one = pure r from hfound, pure_bind]
    refine congrArg (c.load caller id _ >>= ·) (funext fun d => ?_)
    rw [settle]
    by_cases hsame : (d.value? r.idField).bind Value.uuid? = target
    · rw [if_pos (show Settled (refer target) _ from
        (Relation.targetIds_eq_toList_iff hm target).mpr hsame), if_pos hsame]
    · rw [if_neg (show ¬ Settled (refer target) _ from
        mt (Relation.targetIds_eq_toList_iff hm target).mp hsame), if_neg hsame,
        Relation.idsValue, show r.cardinality = .one from hm]
      cases target <;> rfl

theorem targetIds_changed (m : Relinking) (hm : r.cardinality = m.cardinality) {ids : List Uuid}
    (hd : d.value? r.idField = some (r.idsValue (m.changed ids))) :
    r.targetIds d = m.changed ids := by
  refine Relation.targetIds_of_idsValue hd fun hone => ?_
  cases m with
  | link target => exact nomatch hm.symm.trans hone
  | unlink target => exact nomatch hm.symm.trans hone
  | refer target => cases target <;> simp [changed]

end Relinking

namespace Collection

variable {E : Type} {c : Collection E} {caller : Caller} {s t : Store} {id : Uuid} {name : String}
  {r : Relation} {d d' : Document} {field : String}

/-- **What a change of references leaves**: the document has the ids and the next version and is
otherwise as it was, apart from its stamps. All other documents stay. -/
structure Relinked (c : Collection E) (s : Store) (id : Uuid) (d : Document) (r : Relation)
    (ids : List Uuid) (d' : Document) (t : Store) : Prop where
  left : (id, d') ∈ t.entries c.name
  written : d'.value? r.idField = some (r.idsValue ids)
  same : ∀ name, name ≠ r.idField →
    (∀ f ∈ c.schema.fields, f.name = name → f.isStamp = false) → d'.value? name = d.value? name
  version : ∀ field, c.schema.versionName? = some field → ∃ v,
    d.value? field = some (.int64 v) ∧ d'.value? field = some (.int64 (nextVersion v))
  others : ∀ name k x, ¬ (name = c.name ∧ k = id) →
    ((k, x) ∈ t.entries name ↔ (k, x) ∈ s.entries name)

theorem relinked_writtenTo (hs : c.schema.Lawful) (hf : c.schema.versionName? = some field)
    (hcounted : ∀ name, Counted field (s.entries name)) (hd : (id, d) ∈ s.entries c.name)
    (hr : r ∈ c.schema.relations) (ids : List Uuid) (now : Int64) :
    ∃ d', c.Relinked s id d r ids d'
      (c.writtenTo s id d ([(r.idField, r.idsValue ids)] ++ c.stampsAt caller now)) := by
  have hk : s.Keyed := fun name => (hcounted name).toKeyed
  have hmeets : (c.unchangedSince id (c.knownVersion d)).1.holds d = true :=
    (unchangedSince_holds_iff hs hf (hcounted _) (hcounted _) hd hd).mpr ⟨rfl, rfl⟩
  obtain ⟨g, hg, hrole, hname⟩ := hs.references r hr
  have hdot : '.' ∉ r.idField.toList := hname ▸ hs.dotless g hg
  have hset : Document.setAll [(r.idField, r.idsValue ids)] d =
      d.put r.idField (r.idsValue ids) := Document.writePath_of_dotless d _ hdot
  have hreference : c.schema.PermitsAll [(r.idField, r.idsValue ids)] := fun p hp => by
    rw [List.mem_singleton.mp hp]
    exact hs.permits_reference hr
  refine ⟨_, written_of_meets hk hd ⟨_, hd, hmeets⟩ _, ?_, fun name hne hstamp => ?_,
    fun field' hf' => ?_, fun _ _ _ => mem_writtenTo_of_ne hk⟩
  · rw [← hname, value?_stamped hs hg (by rw [hrole]; exact ⟨nofun, nofun, nofun⟩), hname, hset,
      Document.value?_put_self]
  · rw [value?_stamped_of_not hs hstamp, hset, Document.value?_put_of_ne _ _ hne]
  · obtain rfl : field = field' := Option.some.inj (hf.symm.trans hf')
    obtain ⟨v, hv, h0, hb⟩ := (hcounted _).version _ hd
    exact ⟨v, hv, value?_versioned_next hs hf rfl
      (hreference.append (c.permitsAll_stampsAt caller hs now)) hv h0 hb⟩

/-! ### What a change does -/

variable {m : Relinking}

/-- **What a change of references does** to a document that the caller sees. -/
structure Relinks (c : Collection E) (caller : Caller) (s : Store) (id : Uuid) (d : Document)
    (name : String) (r : Relation) (m : Relinking) : Prop where
  /-- When there is nothing to change, nothing is changed. -/
  settled : m.Settled (r.targetIds d) → Surely s (m.program c caller id name) (.ok false)
  /-- A missing entity is not referred to. -/
  missing : ¬ m.Settled (r.targetIds d) → ∀ target, m.newcomer? = some target →
    ¬ s.Has r.target target →
      Surely s (m.program c caller id name) (.error (.missing r.target target))
  /-- Otherwise the ids are changed. -/
  written : ¬ m.Settled (r.targetIds d) →
    (∀ target, m.newcomer? = some target → s.Has r.target target) → ∀ answer t,
      (m.program c caller id name).run.Runs .calm s answer t → answer = .ok true ∧
        ∃ d', c.Relinked s id d r (m.changed (r.targetIds d)) d' t

theorem surely_requireNewcomer (hk : s.Keyed)
    (h : ∀ target, m.newcomer? = some target → s.Has r.target target) (place : String) :
    Surely s (m.requireNewcomer r place) (.ok ()) := by
  rw [Relinking.requireNewcomer]
  cases hm : m.newcomer? with
  | none => exact fun _ _ => Iff.rfl
  | some target => exact surely_requireTarget hk (h target hm) place

/-- **Once**: every change of references does so. -/
theorem relinks (hs : c.schema.Lawful) (hf : c.schema.versionName? = some field)
    (hcounted : ∀ name, Counted field (s.entries name)) (hd : (id, d) ∈ s.entries c.name)
    (hsees : c.policy.Sees caller c.name d) (hr : c.schema.relation? name = some r)
    (hm : r.cardinality = m.cardinality) : c.Relinks caller s id d name r m := by
  have hk : s.Keyed := fun name => (hcounted name).toKeyed
  have hload : Surely s (c.load caller id (c.place m.place)) (.ok d) :=
    (tells_load_of_sees hk hd hsees _).surely
  have hmem : r ∈ c.schema.relations := List.mem_of_find?_eq_some hr
  constructor
  · intro hsettled
    rw [Relinking.program_eq m hr hm]
    refine hload.bind ?_
    rw [Relinking.settle, if_pos hsettled]
    exact fun _ _ => Iff.rfl
  · intro hopen target htarget hmissing
    rw [Relinking.program_eq m hr hm]
    refine hload.bind ?_
    rw [Relinking.settle, if_neg hopen, Relinking.requireNewcomer, htarget]
    exact (surely_requireTarget_of_not hk hmissing _).bind_error
  · intro hopen hexist answer t hrun
    rw [Relinking.program_eq m hr hm] at hrun
    have hsettle := hload.rest hrun
    rw [Relinking.settle, if_neg hopen] at hsettle
    have hwrite := (surely_requireNewcomer hk hexist _).rest hsettle
    rcases (runs_bindE _ _).mp hwrite with ⟨_, u, hstamped, hanswer, rfl⟩ | ⟨e, hstamped, -⟩
    · obtain ⟨-, now, rfl⟩ := runs_writeStamped hs hf (hcounted _) hd hstamped
      exact ⟨hanswer, relinked_writtenTo hs hf hcounted hd hmem _ now⟩
    · cases (runs_writeStamped hs hf (hcounted _) hd hstamped).1

/-! ### Changing again -/

theorem sees_relinked (hk : s.Keyed) (ht : t.Keyed) (hd : (id, d) ∈ s.entries c.name)
    (hd' : (id, d') ∈ t.entries c.name) (hsees : c.policy.Sees caller c.name d)
    (hvisible : Filter.admits (c.policy.visibility c.name caller) d' = true) :
    c.policy.Sees caller c.name d' :=
  ⟨(AccessPolicy.accepts_iff (ht c.name) hd').mpr
    ((AccessPolicy.accepts_iff (hk c.name) hd).mp hsees.accepted), hvisible⟩

theorem runs_operation {w : Surroundings} {b : Bool}
    (h : (m.program c caller id name).run.Runs w s (.ok b) t) :
    (Operation.program c caller (m.operation id name)).run.Runs w s (.ok (.changed b)) t := by
  cases m with
  | link target => exact runs_bindE_ok (m := c.link caller id name target) h ⟨rfl, rfl⟩
  | unlink target => exact runs_bindE_ok (m := c.unlink caller id name target) h ⟨rfl, rfl⟩
  | refer target => exact runs_bindE_ok (m := c.refer caller id name target) h ⟨rfl, rfl⟩

/-- **After a change**: repeating it changes nothing, and what was linked can be unlinked again, as
long as the caller sees the document. If the filter hides it now, it looks missing. -/
structure Relinkable (c : Collection E) (caller : Caller) (t : Store) (id : Uuid) (name : String)
    (r : Relation) (m : Relinking) (ids : List Uuid) (d' : Document) : Prop where
  repeated : Filter.admits (c.policy.visibility c.name caller) d' = true →
    Surely t (m.program c caller id name) (.ok false)
  restored : Filter.admits (c.policy.visibility c.name caller) d' = true →
    ∀ target, m = .link target → ∀ answer v,
      ((Relinking.unlink target).program c caller id name).run.Runs .calm t answer v →
        answer = .ok true ∧ ∃ x, c.Relinked t id d' r ids x v
  hidden : Filter.admits (c.policy.visibility c.name caller) d' = false →
    ∀ m' : Relinking, m'.cardinality = m.cardinality →
      Surely t (m'.program c caller id name) (.error (.missing c.name id))

theorem relinkable (hs : c.schema.Lawful) (hf : c.schema.versionName? = some field) (hk : s.Keyed)
    (hcounted : ∀ name, Counted field (t.entries name)) (hd : (id, d) ∈ s.entries c.name)
    (hsees : c.policy.Sees caller c.name d) (hr : c.schema.relation? name = some r)
    (hm : r.cardinality = m.cardinality) (hopen : ¬ m.Settled (r.targetIds d))
    (hd' : c.Relinked s id d r (m.changed (r.targetIds d)) d' t) :
    c.Relinkable caller t id name r m (r.targetIds d) d' := by
  have ht : t.Keyed := fun name => (hcounted name).toKeyed
  have hids : r.targetIds d' = m.changed (r.targetIds d) := m.targetIds_changed hm hd'.written
  have hagain := fun hvisible (m' : Relinking) hm' => relinks (m := m') hs hf hcounted hd'.left
    (sees_relinked hk ht hd hd'.left hsees hvisible) hr hm'
  constructor
  · intro hvisible
    refine (hagain hvisible m hm).settled ?_
    rw [hids]
    exact m.settled_changed _
  · rintro hvisible target rfl answer v hrun
    have hnew : target ∉ r.targetIds d := hopen
    have hlinked : ¬ (Relinking.unlink target).Settled (r.targetIds d') := by
      rw [hids]
      exact fun h => h (List.mem_append_right _ List.mem_cons_self)
    have hunlinked := (hagain hvisible (.unlink target) hm).written hlinked nofun answer v hrun
    rwa [hids, Relinking.unlink_link hnew] at hunlinked
  · intro hhidden m' hm'
    rw [Relinking.program_eq m' hr (hm.trans hm'.symm)]
    exact (surely_load_of_hidden ht hd'.left hhidden _).bind_error

end Collection

end Registrar
