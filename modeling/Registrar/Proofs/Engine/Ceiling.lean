import Registrar.Proofs.Engine.Written

/-!
# Where versions stop

A version is counted up as a double. Up to 2^53 nothing is lost, but the number after that is read
as 2^53 again, so a document that has got there keeps its version for good. New documents have
version zero. Hence every document has one of these versions, and a write makes the next one of it.

* `nextVersion`: the version after one more write.
* `same_ofInt_of_le`: which versions are compared as equal.
* `Counted`: every document tells one of the versions that occur.
* `value?_versioned_next`: what a write makes of the version.
* `counted_program`: operations keep all collections counted.
* `runs_assign`: an assignment counts up, whatever else it writes.
-/

namespace Registrar

/-- **The last version.** -/
def lastVersion : Int := 2 ^ 53 + 1

/-- **The version after one more write.** -/
def nextVersion (v : Int64) : Int64 := if v.toInt ≤ 2 ^ 53 then v + 1 else v

theorem toInt_nextVersion {v : Int64} (h0 : 0 ≤ v.toInt) (hb : v.toInt ≤ lastVersion) :
    (nextVersion v).toInt = min (v.toInt + 1) lastVersion := by
  rw [lastVersion] at hb ⊢
  rw [nextVersion]
  split
  · rw [Int64.toInt_add, Int64.toInt_one, Int.bmod_eq_of_le (by omega) (by omega)]
    omega
  · omega

theorem toInt64_ofInt_of_le {n : Int} (h0 : 0 ≤ n) (hb : n ≤ lastVersion) :
    (Double.ofInt n).toInt64 = min n (2 ^ 53) := by
  rw [lastVersion] at hb
  by_cases hsmall : n < 2 ^ 53
  · rw [Double.toInt64_ofInt (by rw [Double.wholeBound]; omega)]
    omega
  · -- 2^53 + 1 is no double; it lies between two of them, and the even one is taken.
    have hcases : n = 2 ^ 53 ∨ n = 2 ^ 53 + 1 := by omega
    rcases hcases with rfl | rfl <;> decide +kernel

/-- **Versions are told apart** as long as they are counted up. -/
theorem same_ofInt_of_le {m n : Int} (hm : 0 ≤ m) (hm' : m ≤ lastVersion) (hn : 0 ≤ n)
    (hn' : n ≤ lastVersion) :
    (Double.ofInt m).same (Double.ofInt n) = true ↔ min m (2 ^ 53) = min n (2 ^ 53) := by
  constructor
  · intro h
    rw [← toInt64_ofInt_of_le hm hm', ← toInt64_ofInt_of_le hn hn', Double.toInt64_eq_of_same h]
  · intro h
    rw [lastVersion] at hm' hn'
    by_cases hsmall : m < 2 ^ 53
    · have heq : m = n := by omega
      have hbound : n.natAbs < Double.wholeBound := by
        rw [Double.wholeBound]
        omega
      exact (Double.same_ofInt (heq ▸ hbound) hbound).mpr heq
    · have hmc : m = 2 ^ 53 ∨ m = 2 ^ 53 + 1 := by omega
      have hnc : n = 2 ^ 53 ∨ n = 2 ^ 53 + 1 := by omega
      rcases hmc with rfl | rfl <;> rcases hnc with rfl | rfl <;> decide +kernel

theorem counter_succ {d : Document} {field : String} {v : Int64} (hd : '.' ∉ field.toList)
    (hv : d.value? field = some (.int64 v)) (h0 : 0 ≤ v.toInt) (hb : v.toInt ≤ lastVersion) :
    d.counter field + 1 = nextVersion v := by
  rw [Document.counter, Document.readPath?_of_dotless d hd, hv]
  simp only [Option.bind_some, Value.number?, Option.map_some, Option.getD_some]
  rw [toInt64_ofInt_of_le h0 hb, nextVersion]
  rw [lastVersion] at hb
  split
  · rename_i hle
    rw [min_eq_left hle, Int64.ofInt_toInt]
  · rw [← Int64.toInt_inj, Int64.toInt_add, Int64.toInt_one, Int.min_eq_right (by omega)]
    have hlast : v.toInt = 2 ^ 53 + 1 := by omega
    rw [hlast]
    decide

/-- **Keyed entries that are counted**: every document tells one of the versions that occur. -/
structure Counted (field : String) (es : Entries) : Prop extends es.Keyed where
  version : ∀ e ∈ es, ∃ v : Int64, Document.value? e.2 field = some (.int64 v) ∧ 0 ≤ v.toInt ∧
    v.toInt ≤ lastVersion

theorem Counted.nil (field : String) : Counted field [] := ⟨.nil, by simp⟩

namespace Collection

variable {E : Type} {c : Collection E} {caller : Caller} {w : Surroundings} {s t : Store}
  {field : String} {es es' : Entries} {concerned : Uuid → Prop}

/-- **A write makes the next version.** -/
theorem value?_versioned_next (hs : c.schema.Lawful) (hf : c.schema.versionName? = some field)
    {u : Update} (hi : u.incs = []) (hu : c.schema.PermitsAll u.sets) {d : Document} {v : Int64}
    (hv : d.value? field = some (.int64 v)) (h0 : 0 ≤ v.toInt) (hb : v.toInt ≤ lastVersion) :
    ((c.withVersion u).apply d).value? field = some (.int64 (nextVersion v)) := by
  obtain ⟨f, hm, -, hn⟩ := Schema.versionName?_eq_some hf
  have hd : '.' ∉ field.toList := hn ▸ hs.dotless f hm
  rw [withVersion, hf]
  dsimp only
  rw [Update.value?_apply_inc hd (Schema.spares_version hs hu hi hf), counter_succ hd hv h0 hb]

theorem Writes.counted (h : c.Writes es es' concerned) (hs : c.schema.Lawful)
    (hf : c.schema.versionName? = some field) (hes : Counted field es) : Counted field es' where
  toKeyed := h.keyed hs hes.toKeyed
  version := by
    rintro ⟨id, d⟩ hd
    by_cases hc : concerned id
    · rcases h.cases_of_concerned hes.toKeyed hc hd with ⟨-, hz⟩ | ⟨x, u, hx, hi, hu, rfl⟩
      · exact ⟨0, hz field hf, by decide, by decide⟩
      · obtain ⟨v, hv, h0, hb⟩ := hes.version _ hx
        refine ⟨nextVersion v, value?_versioned_next hs hf hi hu hv h0 hb, ?_⟩
        rw [toInt_nextVersion h0 hb, lastVersion]
        omega
    · exact hes.version _ ((h.mem_iff_of_not_concerned hes.toKeyed hc d).mp hd)

/-- **Operations keep all collections counted.** -/
theorem counted_program (hk : c.kind.Lawful) (hf : c.schema.versionName? = some field)
    {op : Operation E} {r : Except Failure (Answer E)}
    (h : (op.program c caller).run.Runs w s r t)
    (hs : ∀ name, Counted field (s.entries name)) (name : String) :
    Counted field (t.entries name) := by
  refine h.invariant (I := fun u => ∀ name, Counted field (u.entries name))
    (c.issues_program caller hk op) (fun _ _ u u' hi hreply hu other => ?_) hs name
  by_cases hname : other = c.name
  · rw [hname]
    exact (c.writes_reply hi hreply).counted hk.schema hf (hu c.name)
  · rw [entries_of_reply hname hi hreply]
    exact hu other

/-- **An assignment to one entity** succeeds, if it plans anything and names no relation. -/
theorem runs_assign {bulk : Assignment E} {ids : List Uuid} {e : E} {changes : Changes}
    (hgranted : c.policy.grantedAmong c.name caller bulk.ids = .ok ids) (hone : ids.length = 1)
    (hnormal : c.kind.normalize bulk.template = .done e)
    (hunpruned : c.touchesRelation bulk.properties = false)
    (hplan : c.schema.plan bulk.properties [] (c.kind.toDocument e) none = changes)
    (hchanges : changes.isEmpty = false) (s : Store) (now : Int64) :
    (c.assign caller bulk).run.Runs w s (.ok (s.matched (c.visibleAmong caller ids) c.name))
      (c.assignedTo caller s ids (changes ++ c.stampsAt caller now)) := by
  have hids : ids.isEmpty = false := by
    cases ids with
    | nil => cases hone
    | cons id r => rfl
  have hshared : (c.refuseShared changes ids.length).run.Runs w s (.ok ()) s := by
    rw [refuseShared, hone]
    split
    · rw [Bool.and_comm]
      exact ⟨rfl, rfl⟩
    · exact ⟨rfl, rfl⟩
  have hstamped : (c.stampedUpdate caller changes).run.Runs w s
      (.ok { sets := changes ++ c.stampsAt caller now }) s := ⟨now, s, rfl, rfl, rfl⟩
  refine runs_bindE_ok (u := s) ((runs_inPlace _ _).mpr (.inl ⟨ids, ⟨hgranted.symm, rfl⟩, rfl⟩)) ?_
  rw [hids, hnormal, hunpruned, Bool.false_and]
  refine runs_bindE_ok (u := s) (a := e) ⟨rfl, rfl⟩ ?_
  refine runs_bindE_ok (u := s) (a := c.kind.toDocument e) ⟨rfl, rfl⟩ ?_
  dsimp only
  rw [hplan, hchanges]
  refine runs_bindE_ok hshared (runs_bindE_ok hstamped ?_)
  refine (runs_inPlace _ _).mpr (.inl ⟨_, runs_bindE_ok (runs_check.mpr ⟨.inl rfl, rfl⟩) ?_, rfl⟩)
  exact (runs_call (.updateAll _ _ _)).mpr (.inl rfl)

end Collection

end Registrar
