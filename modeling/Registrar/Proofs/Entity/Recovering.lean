import Registrar.Proofs.Entity.Readers
import Registrar.Proofs.Value.Agreement

/-!
# What is read from values that agree

A field that agrees with a proposed value is not written, so what is read from it must be what
would have been read from the proposal. A value **fixes** what is read if this is so: whatever can
be read and agrees with it is read alike. Values without parts do, for they agree with themselves
only, and so do numbers, as long as the reader takes no doubles. Lists and records fix what is read
if their parts do.

* `Reading.Fixes`: a value fixes what a reader reads.
* `fixes_of_scalar`, `fixes_int32`: values without parts.
* `fixes_nullable`, `fixes_list`: values built from others.
* `FieldReader`, `fixesField_required`, `fixesField_optional`: fields of a record.
-/

namespace Registrar.Reading

variable {α : Type} {r : Reader α} {w : Value}

/-- **A value fixes what is read**: what can be read and agrees with it is read alike. -/
def Fixes (r : Reader α) (w : Value) : Prop :=
  ∀ v, (r v).isSome = true → v.agrees w = true → r v = r w

/-! ### Values -/

theorem fixes_of_scalar (hnumber : w.number? = none) (harray : w.array? = none)
    (hdocument : w.document? = none) : Fixes r w := by
  intro v _ h
  rcases Value.eq_of_agrees harray hdocument h with ⟨-, hsome⟩ | rfl
  · rw [hnumber] at hsome
    cases hsome
  · rfl

theorem fixes_string (s : String) : Fixes r (.string s) := fixes_of_scalar rfl rfl rfl

theorem fixes_null : Fixes r .null := fixes_of_scalar rfl rfl rfl

theorem fixes_int32 (n : Int32) : Fixes int32 (.int32 n) := by
  intro v hsome h
  have hread : ∀ {m : Int}, v.number? = some (Double.ofInt m) → integer v = some m →
      int32 v = int32 (.int32 n) := by
    intro m hnumber hinteger
    have hrange : -0x80000000 ≤ m ∧ m ≤ 0x7FFFFFFF := by
      by_contra hout
      rw [int32, within, hinteger, Option.filter_some, if_neg (by simpa using hout)] at hsome
      cases hsome
    have hm : m.natAbs < Double.wholeBound := by
      rw [Double.wholeBound]
      omega
    obtain rfl := (Value.agrees_ofInt hnumber rfl hm (Value.natAbs_toInt_lt n)).mp h
    rw [int32, within, hinteger, int32, within, integer]
  cases v with
  | int32 m => exact hread rfl rfl
  | int64 m => exact hread rfl rfl
  | _ => cases hsome

theorem fixes_nullable (h : Fixes r w) : Fixes (nullable r) w := by
  intro v hsome hagrees
  by_cases hw : w = .null
  · subst hw
    rw [Value.eq_null_of_agrees hagrees]
  · have hv : v ≠ .null := by
      rintro rfl
      rw [Value.agrees_null] at hagrees
      cases w <;> first | exact hw rfl | cases hagrees
    have hread : (r v).isSome = true := (isSome_nullable.mp hsome).resolve_left hv
    rw [nullable, nullable, h v hread hagrees]
    · exact hw
    · exact hv

theorem fixes_list {ws : List Value} (h : ∀ w ∈ ws, Fixes r w) : Fixes (list r) (.array ws) := by
  intro v hsome hagrees
  obtain ⟨vs, rfl, hitems⟩ := Value.agrees_array_iff.mp hagrees
  have hread := isSome_list.mp hsome
  change vs.mapM r = ws.mapM r
  clear hsome hagrees
  induction hitems with
  | nil => rfl
  | cons hhead htail ih =>
    rw [List.forall_mem_cons] at h hread
    rw [List.mapM_cons, List.mapM_cons, h.1 _ hread.1 hhead, ih h.2 hread.2]

/-! ### Fields -/

/-- **How a field is read** from its value, or when it is missing. -/
abbrev FieldReader (α : Type) := Option Value → Option α

/-- A field that has to be there. -/
def ofRequired (r : Reader α) : FieldReader α := fun v => v.bind r

/-- A field with a default. -/
def ofOptional (default : α) (r : Reader α) : FieldReader α := fun v => v.elim (some default) r

/-- **A value fixes what is read from a field**, a missing field counting as null. -/
def FixesField (r : FieldReader α) (w : Value) : Prop :=
  ∀ v, (r v).isSome = true → (v.getD .null).agrees w = true → r v = r (some w)

theorem required_eq (d : Document) (name : String) (r : Reader α) :
    required d name r = ofRequired r (d.value? name) := rfl

theorem optional_eq (d : Document) (name : String) (default : α) (r : Reader α) :
    Reading.optional d name default r = ofOptional default r (d.value? name) := by
  rw [Reading.optional]
  cases d.value? name <;> rfl

theorem fixesField_required (h : Fixes r w) : FixesField (ofRequired r) w := by
  intro v hsome hagrees
  cases v with
  | none => cases hsome
  | some v => exact h v hsome hagrees

/-- **A field with a default** is fixed, if null stands for the default. -/
theorem fixesField_optional {default : α} (h : Fixes r w)
    (hnull : w.isNull = true → r w = some default) : FixesField (ofOptional default r) w := by
  intro v hsome hagrees
  cases v with
  | none =>
    rw [Option.getD_none, Value.agrees_null] at hagrees
    exact (hnull hagrees).symm
  | some v => exact h v hsome hagrees

theorem fixesField_of_not_isNull {default : α} (h : Fixes r w) (hw : w.isNull = false) :
    FixesField (ofOptional default r) w :=
  fixesField_optional h fun hnull => absurd (hw.symm.trans hnull) Bool.false_ne_true

end Registrar.Reading
