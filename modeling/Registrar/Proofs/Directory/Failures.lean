import Registrar.Proofs.Directory.Spoiling
import Registrar.Proofs.Engine.Failures

/-!
# What failures leave behind

A call to the directory writes once at most, and not if it was cancelled before. When it fails, the
store is as it was, apart from what a look-up pruned, with one exception. A contact with misspelt
attributes is inserted first and then cannot be read back, so adding it fails and the contact stays.

* `Call.Performs`: a call, with what it exchanges and whether it fails.
* `Call.Prunes`, `Call.Misspells`: what a look-up leaves, and the calls that are the exception.
* `atomic_iff`: every call writes once at most, and when its failure leaves nothing.
* `addMisspelt_stays`: a contact that stays.
-/

namespace Registrar.Directory

/-- **A call is performed**: what is exchanged, whether it fails, and the store that it leaves. The
operation may be cancelled whenever it asks, and any read may fail. -/
def Call.Performs (u : Setup) (caller : Caller) (s : Store) (l : List Exchange) (failed : Bool)
    (t : Store) : Call → Prop
  | .book op => ∃ r, (op.program u.books caller).run.Exchanges .any s l r t ∧ failed = !r.isOk
  | .category op =>
    ∃ r, (op.program u.categories caller).run.Exchanges .any s l r t ∧ failed = !r.isOk
  | .contact op => ∃ r, (op.program u.contacts caller).run.Exchanges .any s l r t ∧ failed = !r.isOk

/-- The call is a look-up that pruned the entity it is about. -/
def Call.Prunes (u : Setup) (s t : Store) : Call → Prop
  | .book op => u.books.Prunes s t op
  | .category op => u.categories.Prunes s t op
  | .contact op => u.contacts.Prunes s t op

/-- **The call adds a contact with misspelt attributes.** -/
def Call.Misspells : Call → Prop
  | .book op => op.Adds fun _ => False
  | .category op => op.Adds fun _ => False
  | .contact op => op.Adds Contact.Misspelt

variable {u : Setup} {caller : Caller} {s t : Store} {l : List Exchange} {failed : Bool}

/-- Operations are atomic, unless they add an entity that does not fit. -/
theorem atomic_of_kind {E : Type} {k : EntityKind E} (hkind : IsKind k) {takers : List Taker}
    {parts : String → List (String × Taker)} (hread : k.ReadBy takers parts)
    (hfit : k.FitFor takers) {sort : E → Prop} (hsort : ∀ e, k.Unfit takers e ↔ sort e)
    (hs : Reached s) {op : Operation E}
    (h : ∃ r, (op.program (u.collection k) caller).run.Exchanges .any s l r t ∧ failed = !r.isOk) :
    WroteOnce l ∧ (Steady l → Exchange.cancels ∈ l → t = s) ∧
      ((failed = true → t = s ∨ (u.collection k).Prunes s t op) ↔ ¬ (op.Adds sort ∧ t ≠ s)) := by
  obtain ⟨r, hrun, rfl⟩ := h
  have hwrote : WroteOnce l := (Collection.careful_program op).wroteOnce hrun
  refine ⟨hwrote, fun hsteady hc => hrun.eq_of_quiet (hwrote.quiet_of_cancels hsteady hc), ?_⟩
  rw [← Operation.adds_congr hsort, Bool.not_eq_true']
  exact Collection.failed_clean_iff (c := u.collection k) hread hfit hkind.lawful.schema
    hkind.linked hs.keyed hkind.versionName? hs.distinct (hs.counted _) hrun

/-- **Calls are atomic**, with one exception. They write once at most, right after they asked
whether they were cancelled, and leave the store as it was if they have been. And a call that fails
leaves nothing but what a look-up pruned, unless it inserts a contact with misspelt attributes. -/
theorem atomic_iff (hs : Reached s) {call : Call} (h : call.Performs u caller s l failed t) :
    WroteOnce l ∧ (Steady l → Exchange.cancels ∈ l → t = s) ∧
      ((failed = true → t = s ∨ call.Prunes u s t) ↔ ¬ (call.Misspells ∧ t ≠ s)) := by
  cases call with
  | book op => exact atomic_of_kind .book Book.readBy Book.fitFor Book.unfit_iff hs h
  | category op =>
    exact atomic_of_kind .category Category.readBy Category.fitFor Category.unfit_iff hs h
  | contact op =>
    exact atomic_of_kind .contact Contact.readBy Contact.fitFor Contact.unfit_iff hs h

/-! ### A contact that stays -/

/-- A contact is added whose attributes spell a number. -/
def addMisspelt : Operation Contact :=
  .add (.ofRecord { ContactRecord.ofName "Ann" "Aebi" with
    id := .ofByte 1
    attributes := [("$numberInt", "5")] })

/-- Adding it fails, and the contact stays. -/
theorem addMisspelt_stays : Reached .empty ∧ ∃ l t,
    (Call.contact addMisspelt).Performs {} {} .empty l true t ∧
      ¬ (t = .empty ∨ (Call.contact addMisspelt).Prunes {} .empty t) := by
  let p := (addMisspelt.program ({} : Setup).contacts {}).run
  have hruns : p.Runs .any .empty (p.run .fresh).1 (p.run .fresh).2.store :=
    p.runs_run .fresh rfl (fun _ => trivial) fun _ => trivial
  obtain ⟨l, hexchanges⟩ := hruns.exchanges
  have hfailed : true = !(p.run .fresh).1.isOk := by decide +kernel
  have hstays : (p.run .fresh).2.store ≠ .empty := fun heq =>
    absurd (congrArg (fun s => (s.entries "contacts").length) heq) (by decide +kernel)
  have hperforms : (Call.contact addMisspelt).Performs {} {} .empty l true
      (p.run .fresh).2.store := ⟨_, hexchanges, hfailed⟩
  exact ⟨.empty, l, _, hperforms, fun hclean =>
    (atomic_iff .empty hperforms).2.2.mp (fun _ => hclean) ⟨rfl, hstays⟩⟩

end Registrar.Directory
