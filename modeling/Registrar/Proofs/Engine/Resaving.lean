import Registrar.Proofs.Engine.Failures
import Registrar.Proofs.Engine.Identity
import Registrar.Proofs.Engine.Rereading

/-!
# Saving an entity again

Adding and updating save whole entities, in their canonical form. What all documents have in common
when they are saved in this way, the other operations keep, as long as none writes parts of an
entity. Then each field for data holds what some canonical entity wrote there. An entity that is
read and saved again changes nothing, if it is in its canonical form and agrees with what is stored.

* `Draws.Ensures`: what every result has, given the ids that may be drawn.
* `EntityKind.SavedAs`: what saving gives to all documents.
* `forall_saved`: **every operation that writes no parts keeps it**.
* `WrittenFor`: documents that hold what was written for canonical entities.
* `resave_iff`: **when saving an entity again changes nothing**.
-/

namespace Registrar

variable {α β E : Type}

/-! ### Ids that are drawn -/

namespace Draws

variable {D : Uuid → Prop} {Q : α → Prop} {R : β → Prop}

/-- **What every result has**, if the ids that are drawn are of a sort. -/
def Ensures (D : Uuid → Prop) (Q : α → Prop) : Draws α → Prop
  | done a => Q a
  | draw next => ∀ id, D id → Ensures D Q (next id)

theorem Ensures.bind {x : Draws α} {f : α → Draws β} (hx : x.Ensures D Q)
    (hf : ∀ a, Q a → (f a).Ensures D R) : (x >>= f).Ensures D R := by
  induction x with
  | done a => exact hf a hx
  | draw next ih => exact fun id hid => ih id (hx id hid)

end Draws

theorem tells_ensured {w : Surroundings} {s : Store} {Q : α → Prop} {x : Draws α}
    (h : x.Ensures w.draws Q) : Tells w s True Q (OperationM.ofProgram (Program.ofDraws x)) := by
  induction x with
  | done a => exact tells_pure h
  | draw next ih =>
    rintro r t ⟨id, u, ⟨hid, rfl⟩, hrest⟩
    exact ih id (h id hid) r t hrest

/-! ### Saving whole entities -/

/-- **The operation saves whole entities** of a sort, and writes no parts of others. -/
def Operation.Saves (Given : E → Prop) : Operation E → Prop
  | .add e | .update e _ => Given e
  | .applyDelta _ | .assign _ => False
  | _ => True

/-- **What saving gives to all documents**: those of canonical entities have it, and it stays when
the engine gives values of its own and when a difference from such an entity is written. -/
structure EntityKind.SavedAs (k : EntityKind E) (D : Uuid → Prop) (Given Normal : E → Prop)
    (P : Document → Prop) : Prop where
  bare : ∀ e, k.schema.Bare (k.toDocument e)
  normal : ∀ e, Given e → (k.normalize e).Ensures D Normal
  withId : ∀ id e, Normal e → Normal (k.withId id e)
  new : ∀ e, Normal e → P (k.toDocument e)
  regives : ∀ d d', k.schema.Regives d d' → P d → P d'
  diff : ∀ e dependencies patch d, Normal e → k.schema.Regives (k.toDocument e) patch → P d →
    P (Document.setAll (k.schema.diff dependencies d patch) d)

namespace Collection

variable {c : Collection E} {caller : Caller} {w : Surroundings} {s t : Store}
  {Given Normal : E → Prop} {P : Document → Prop}

theorem tells_prepared_normal (h : c.kind.SavedAs w.draws Given Normal P) {e : E} (he : Given e) :
    Tells w s True Normal (c.prepared e) := by
  refine (tells_ensured (h.normal e he)).bind fun e' he' => ?_
  split
  · exact (tells_newId w s).bind fun id _ => tells_pure (h.withId id e' he')
  · exact tells_pure he'

/-- **What saving gives to all documents**, every operation keeps that writes no parts. -/
theorem forall_saved (h : c.kind.SavedAs w.draws Given Normal P) (hs : c.schema.Lawful)
    (hl : c.schema.Linked) (hk : s.Keyed) {op : Operation E} (hop : op.Saves Given)
    (hall : ∀ id d, (id, d) ∈ s.entries c.name → P d) {r : Except Failure (Answer E)}
    (hruns : (op.program c caller).run.Runs w s r t) :
    ∀ id d, (id, d) ∈ t.entries c.name → P d := by
  have hothers : (∀ e, op ≠ .add e) → (∀ e asked, op ≠ .update e asked) →
      ∀ id d, (id, d) ∈ t.entries c.name → P d := by
    intro hadd hupdate
    refine (effect_program hs hl hk op hruns).forall_given hs h.bare hk hall h.regives
      (fun e _ heq => absurd heq (hadd e)) (fun e asked _ _ _ _ heq => absurd heq (hupdate e asked))
      ?_ ?_
    · rintro delta e' patch d rfl
      exact hop.elim
    · rintro bulk e' patch d rfl
      exact hop.elim
  cases op with
  | add e =>
    have hends : Ends w s (fun t => ∀ id d, (id, d) ∈ t.entries c.name → P d)
        (c.add caller e) := by
      refine ends_prepared hk e (tells_prepared_normal h hop) hall ?_
      intro e' now t he' _ hinserts id d hd
      rcases (mem_inserted hinserts).mp hd with heq | hd
      · rw [(Prod.mk.inj heq).2]
        exact h.regives _ _ (regives_new hs (h.bare e') now) (h.new e' he')
      · exact hall id d hd
    exact hends.bind_quiet (fun _ => always_pureE _) r t hruns
  | update e asked =>
    have hends : Ends w s (fun t => ∀ id d, (id, d) ∈ t.entries c.name → P d)
        (c.update caller e asked) := by
      refine ends_updated hk e asked (tells_ensured (h.normal e hop)) hall ?_
      rintro d e' changes now hstored he' rfl - id x hx
      rcases mem_writtenTo hk hstored hx with hx | heq
      · exact hall id x hx
      · rw [(Prod.mk.inj heq).2]
        exact h.regives _ _ (regives_stamped hs _ now d)
          (h.diff e' _ _ d he' (regives_submitted hs _ _ _) (hall _ _ hstored))
    exact hends.bind_quiet (fun _ => always_pureE _) r t hruns
  | _ => exact hothers nofun nofun

end Collection

/-! ### What was written for canonical entities -/

/-- **A document that was written for canonical entities**: each column that takes part in a
difference holds what one of them wrote. -/
def WrittenFor (columns : List (Column E)) (Normal : E → Prop) (d : Document) : Prop :=
  ∀ c ∈ columns, c.field.role.isDiffed false = true →
    ∃ e, Normal e ∧ d.value? c.field.name = some (c.write (c.part e))

namespace EntityKind.Tabled

variable {k : EntityKind E} {columns : List (Column E)} {c : Column E} {Normal : E → Prop}
  {e e₀ : E} {d d' patch : Document} (h : k.Tabled columns)

include h

theorem writtenFor_toDocument (he : Normal e) : WrittenFor columns Normal (k.toDocument e) :=
  fun c hc _ => ⟨e, he, h.writes c hc e⟩

theorem writtenFor_regives (hgiven : k.schema.Regives d d') (hd : WrittenFor columns Normal d) :
    WrittenFor columns Normal d' := by
  intro c hc hrole
  rw [hgiven.value?_of_diffed (h.mem_fields hc).1 hrole]
  exact hd c hc hrole

theorem writtenFor_diff (hs : k.schema.Lawful) (he : Normal e)
    (hpatch : k.schema.Regives (k.toDocument e) patch) (hd : WrittenFor columns Normal d)
    (dependencies : Bool) :
    WrittenFor columns Normal (Document.setAll (k.schema.diff dependencies d patch) d) := by
  intro c hc hrole
  have hf := (h.mem_fields hc).1
  rw [Schema.value?_diff hs hf]
  split
  · refine ⟨e, he, ?_⟩
    rw [Document.valueOrNull, hpatch.value?_of_diffed hf hrole, h.writes c hc, Option.getD_some]
  · exact hd c hc hrole

/-- **What was written is read again**, if it is kept. -/
theorem part_eq (hd : k.ofDocument? d = some e₀) (hc : c ∈ columns)
    (hvalue : d.value? c.field.name = some (c.write (c.part e))) (hkeeps : c.Keeps e) :
    c.part e₀ = c.part e := by
  have hread := h.reads d e₀ hd c hc
  rw [hvalue, hkeeps] at hread
  exact (Option.some.inj hread).symm

/-- **An entity does not differ from a document** just if it agrees with it in all columns. -/
theorem diff_eq_nil_iff (hs : k.schema.Lawful) :
    k.schema.diff false d (k.toDocument e) = [] ↔
      ∀ c ∈ columns, c.field.role.isDiffed false = true →
        (d.valueOrNull c.field.name).agrees (c.write (c.part e)) = true := by
  rw [Schema.diff_eq hs, List.map_eq_nil_iff, List.filter_eq_nil_iff]
  constructor
  · intro hall c hc hrole
    have hagrees := hall c.field (List.mem_filter.mpr ⟨(h.mem_fields hc).1, hrole⟩)
    rwa [Schema.agreesIn, h.valueOrNull hc, Bool.not_eq_true', Bool.not_eq_false] at hagrees
  · intro hall f hf
    obtain ⟨hmem, hrole⟩ := List.mem_filter.mp hf
    obtain ⟨c, hc, rfl⟩ := h.exists_column hmem hrole
    rw [Schema.agreesIn, h.valueOrNull hc, hall c hc hrole]
    exact Bool.false_ne_true

end EntityKind.Tabled

/-! ### Saving what was read -/

namespace Collection

variable {c : Collection E} {caller : Caller} {w : Surroundings} {s t : Store} {d : Document}
  {e : E} {asked : Option Bool} {l : List Exchange}

/-- **An update that reports no change** requested no write. -/
theorem quiet_of_wroteNothing {report : WriteReport}
    (h : (c.update caller e asked).run.Exchanges w s l (.ok report) t)
    (hreport : report.wroteNothing = true) : ∀ x ∈ l, x.1.isQuiet = true := by
  rcases (careful_update e asked).exchanges_cases h with ⟨hquiet, -⟩ |
    ⟨_, call, answer, -, -, -, -, hreports⟩
  · exact hquiet
  · exact absurd (hreports.symm.trans hreport) Bool.false_ne_true

theorem tells_update_same (hk : s.Keyed) (hd : (c.kind.id e, d) ∈ s.entries c.name)
    (hsees : c.policy.Sees caller c.name d) (hnormal : c.kind.normalize e = .done e)
    (hasked : asked.getD c.settings.includeDependencyFields = false)
    (hsame : c.schema.diff false d (c.kind.toDocument e) = []) :
    Tells .calm s False (· = ⟨c.kind.id e, []⟩) (c.update caller e asked) := by
  refine (tells_load_of_sees hk hd hsees _).bind fun x hx => ?_
  subst hx
  rw [hnormal, hasked]
  change Tells .calm s False _ (c.commit caller (c.kind.id e) x
    (c.schema.diff false x (c.kind.toDocument e)) (c.place "update"))
  rw [hsame, commit_eq]
  exact tells_pure rfl

/-- **When saving an entity again changes nothing**: just if it does not differ from what is
stored. Then it succeeds, and no write is requested. -/
theorem resave_iff (hs : c.schema.Lawful) (hk : s.Keyed)
    (hd : (c.kind.id e, d) ∈ s.entries c.name) (hsees : c.policy.Sees caller c.name d)
    (hnormal : c.kind.normalize e = .done e)
    (hasked : asked.getD c.settings.includeDependencyFields = false) :
    (∀ l r t, (c.update caller e asked).run.Exchanges .calm s l r t →
      r = .ok ⟨c.kind.id e, []⟩ ∧ t = s ∧ ∀ x ∈ l, x.1.isQuiet = true) ↔
        c.schema.diff false d (c.kind.toDocument e) = [] := by
  constructor
  · intro hall
    obtain ⟨r, t, hruns⟩ := Program.exists_runs (w := .calm) ⟨.nil, trivial⟩
      (c.update caller e asked).run s
    obtain ⟨l, hexchanges⟩ := hruns.exchanges
    obtain ⟨rfl, -, -⟩ := hall l r t hexchanges
    obtain ⟨e', d₁, d', hreplaced⟩ := replaced_of_ok hs hk hasked hruns
    obtain rfl := Entries.eq_of_mem (hk c.name).nodup hreplaced.found hd
    obtain rfl : e' = e := by
      have hgives := hreplaced.normal
      rw [hnormal] at hgives
      cases hgives
      rfl
    have hkeys := congrArg WriteReport.changedFields hreplaced.report_eq
    exact List.map_eq_nil_iff.mp hkeys.symm
  · intro hsame l r t hexchanges
    obtain ⟨rfl, hr⟩ := tells_update_same hk hd hsees hnormal hasked hsame r t hexchanges.runs
    cases r with
    | ok report =>
      subst hr
      exact ⟨rfl, rfl, quiet_of_wroteNothing hexchanges rfl⟩
    | error => exact hr.elim

end Collection

end Registrar
