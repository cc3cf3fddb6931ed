import Registrar.Proofs.Engine.Effects
import Registrar.Proofs.Engine.Submitted

/-!
# What an addition has stored

An addition that fails stores nothing, unless it fails after the insertion because the new entity
cannot be read back. Otherwise it has inserted one document, whose plain fields hold what the
entity was prepared to, and the entity that it gives back is read from this document. This is so in
every store, also if documents were put there that no operation has written.

* `IdleOr`: a program that fails and leaves a store as it is, or does something.
* `Tells.idleOr`, `idleOr_inserted`: reading first, and inserting at last.
* `Collection.Inserted`: a document that an addition has stored.
* `Collection.idleOr_add`: **every addition** is idle or stores one.
-/

namespace Registrar

/-- **A program fails and leaves a store as it is**, or its result and the store that it leaves have
the property. -/
def IdleOr {ε α : Type} (w : Surroundings) (s : Store) (P : Except ε α → Store → Prop)
    (m : ExceptT ε Program α) : Prop :=
  ∀ r t, m.run.Runs w s r t → (t = s ∧ ∃ e, r = .error e) ∨ P r t

section

variable {ε α β : Type} {w : Surroundings} {s t : Store} {F : Prop} {Q : α → Prop} {id : Uuid}
  {d : Document} {name : String}

theorem Tells.idleOr {P : Except ε β → Store → Prop} {m : ExceptT ε Program α}
    {k : α → ExceptT ε Program β} (hm : Tells w s F Q m) (hk : ∀ a, Q a → IdleOr w s P (k a)) :
    IdleOr w s P (m >>= k) := by
  intro r t h
  rcases (runs_bindE m k).mp h with ⟨a, u, ha, hka⟩ | ⟨e, he, rfl⟩
  · obtain ⟨rfl, hQ⟩ := hm _ _ ha
    exact hk a hQ r t hka
  · exact .inl ⟨(hm _ _ he).1, e, rfl⟩

theorem idleOr_insert : IdleOr w s (fun r t => r = .ok () ∧ s.insert id d name = .ok t)
    (StoreM.check >>= fun _ => StoreM.insert id d name) := by
  have hcheck : Tells w s True (fun _ => True) StoreM.check :=
    tells_of_yields quiet_check (yields_trivial _)
  refine hcheck.idleOr fun _ _ r t h => ?_
  have hserve : (r, t) = s.serve (.insert id d name) := ((runs_call _).mp h).replies rfl
  rw [Store.serve] at hserve
  cases hinsert : s.insert id d name with
  | ok u =>
    rw [hinsert] at hserve
    obtain ⟨rfl, rfl⟩ := Prod.mk.inj hserve
    exact .inr ⟨rfl, rfl⟩
  | error e =>
    rw [hinsert] at hserve
    obtain ⟨rfl, rfl⟩ := Prod.mk.inj hserve
    exact .inl ⟨rfl, e, rfl⟩

/-- **An insertion at last**, of which a result is told afterwards. -/
theorem idleOr_inserted {k : Unit → OperationM β} {P : Except Failure β → Store → Prop}
    (hk : ∀ t, s.insert id d name = .ok t → ∀ r u, (k ()).run.Runs w t r u → P r u)
    (place : String) :
    IdleOr w s P (OperationM.inPlace place
      (StoreM.check >>= fun _ => StoreM.insert id d name) >>= k) := by
  intro r t h
  rcases (runs_bindE _ _).mp h with ⟨_, u, hwrite, hlast⟩ | ⟨e, hwrite, rfl⟩
  · rcases (runs_inPlace _ _).mp hwrite with ⟨a, ha, -⟩ | ⟨x, -, hx⟩
    · rcases idleOr_insert _ _ ha with ⟨-, x, hx⟩ | ⟨-, hinsert⟩
      · cases hx
      · exact .inr (hk u hinsert r t hlast)
    · cases hx
  · rcases (runs_inPlace _ _).mp hwrite with ⟨a, -, ha⟩ | ⟨x, hx, -⟩
    · cases ha
    · rcases idleOr_insert _ _ hx with ⟨ht, -⟩ | ⟨hok, -⟩
      · exact .inl ⟨ht, e, rfl⟩
      · cases hok

end

/-! ### The document -/

namespace Collection

variable {E : Type} (c : Collection E) {caller : Caller} {w : Surroundings} {s t : Store}

/-- **A document that an addition has stored**: it was inserted under the id of the entity that was
prepared, and its plain fields hold what was submitted. If an entity is given back, it is read from
this document. -/
structure Inserted (s : Store) (e : E) (r : Except Failure E) (t : Store) (id : Uuid)
    (d : Document) : Prop where
  inserts : s.insert id d c.name = .ok t
  submitted : ∃ e', c.Prepares e e' ∧ c.kind.id e' = id ∧
    ∀ g ∈ c.schema.fields, g.IsPlain → d.value? g.name = (c.kind.toDocument e').value? g.name
  given : ∀ added, r = .ok added → c.kind.ofDocument? d = some added

variable {c}

/-- **An addition fails and stores nothing**, or it has stored a document. -/
theorem idleOr_add (hs : c.schema.Lawful) (e : E) :
    IdleOr w s (fun r t => ∃ id d, c.Inserted s e r t id d) (c.add caller e) := by
  have hquiet : ∀ {α : Type} {m : OperationM α}, m.run.Quiet → Tells w s True (fun _ => True) m :=
    fun hm => tells_of_yields hm (yields_trivial _)
  rw [add_eq]
  refine (tells_prepared e).idleOr fun e' he' => ?_
  refine (hquiet (always_inPlace (quiet_entityExists _ _))).idleOr fun taken _ => ?_
  refine (hquiet ?_).idleOr fun _ _ => (hquiet ?_).idleOr fun _ _ => ?_
  · split
    · exact always_throwE _
    · exact always_pureE _
  · split
    · exact c.quiet_refuseTakenName _ _ _
    · exact always_pureE _
  refine (tells_of_yields (always_inPlace (c.schema.quiet_resolve _ _ _ _))
    (yields_inPlace (c.schema.yields_resolve hs _ _ _ _))).idleOr fun out hout => ?_
  refine (tells_stampedNew out.1).idleOr fun d hd => ?_
  obtain ⟨now, rfl⟩ := hd
  refine idleOr_inserted (fun t hinserts r u hread => ?_) _
  obtain ⟨rfl, hgiven⟩ := (tells_ofDocument _).inPlace _ r u hread
  refine ⟨_, _, hinserts, ⟨e', he', rfl, fun g hg hp => ?_⟩, ?_⟩
  · have hother := hp.ne_reference hs hg
    rw [c.value?_stampedNewAt caller hs hg hp.ne_stamp,
      hout.1 g.name fun r hr => ⟨hother r (Schema.mem_chosenRelations hr), nofun⟩,
      c.value?_withLists hother, c.value?_withoutNavigation hs hg hp.ne_navigation]
  · rintro added rfl
    exact hgiven

theorem Inserted.id (hk : c.kind.Lawful) {e : E} {r : Except Failure E} {id : Uuid} {d : Document}
    (h : c.Inserted s e r t id d) : d.value? "id" = some (Value.ofUuid id) := by
  obtain ⟨e', -, rfl, hplain⟩ := h.submitted
  exact (hplain Field.idField hk.schema.id trivial).trans (hk.id e')

end Collection

end Registrar
