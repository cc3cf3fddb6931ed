import Registrar.Proofs.Double.Rounding
import Registrar.Proofs.Store.Lens

/-!
# Counting up

A counter is read as a double and written back as an integer. So what an increment adds to is not
the number that is stored but the nearest one of 53 places, kept within 64 bits. The increment is
exact if the number has 53 places, and at the greatest integer, to which its own nearest number is
cut down. Counting up from below, 2^53 + 1 is the first number that is read as another one, and no
count goes beyond it.

* `counted`: the number to which an increment adds.
* `counted_eq_self_iff`: which numbers are counted up exactly.
* `exists_sum_of_adds`: what an update leaves at a path that it counts up.
* `readPath?_iterate_succ`: where repeated increments by one come to a halt.
-/

namespace Registrar

open Double

/-- **The number to which an increment adds.** -/
def counted (n : Int64) : Int64 :=
  Int64.ofInt (max minInt64 (min maxInt64 (nearest n.toInt)))

theorem toInt_counted (n : Int64) :
    (counted n).toInt = max minInt64 (min maxInt64 (nearest n.toInt)) := by
  rw [counted, Int64.toInt_ofInt_of_le]
  · rw [minInt64, maxInt64]
    omega
  · rw [minInt64, maxInt64]
    omega

/-- **The numbers that are counted up exactly**: those of 53 places, and the greatest one. -/
theorem counted_eq_self_iff {n : Int64} : counted n = n ↔
    2 ^ lostPlaces n.toInt.natAbs ∣ n.toInt.natAbs ∨ n.toInt = maxInt64 := by
  have hlow := n.le_toInt
  have hhigh := n.toInt_lt
  rw [← nearest_eq_self_iff, ← Int64.toInt_inj, toInt_counted]
  have hgreatest : nearest maxInt64 = 2 ^ 63 := by decide +kernel
  have hleast : nearest minInt64 = minInt64 := by decide +kernel
  rw [minInt64] at hleast ⊢
  rw [maxInt64] at hgreatest ⊢
  constructor
  · intro h
    by_cases hmax : n.toInt = 0x7FFFFFFFFFFFFFFF
    · exact .inr hmax
    · -- Below the greatest number nothing is cut off.
      have hmin : -0x8000000000000000 ≤ nearest n.toInt := by
        have hmono := nearest_mono (m := -0x8000000000000000) (n := n.toInt) (by omega)
        rwa [hleast] at hmono
      left
      omega
  · rintro (h | h)
    · rw [h]
      omega
    · rw [h, hgreatest]
      omega

theorem counted_of_natAbs_le {n : Int64} (h : n.toInt.natAbs ≤ 2 ^ 53) : counted n = n :=
  counted_eq_self_iff.mpr (.inl (nearest_eq_self_iff.mp (nearest_of_natAbs_le h)))

/-! ### One update -/

namespace Document

variable {d : Document} {path : String} {n : Int64}

theorem counter_of_int64 (h : d.readPath? path = some (.int64 n)) : d.counter path = counted n := by
  rw [counter, h]
  simp only [Option.bind_some, Value.number?, Option.map_some, Option.getD_some]
  rw [toInt64_ofInt_eq (natAbs_toInt_le n), counted]

end Document

/-- **The update counts up at the path once**, by the amount, and writes what else it writes apart
from the path. -/
structure Update.Adds (u : Update) (path : String) (k : Int64) : Prop where
  once : ∃ before after, u.incs = before ++ (path, k) :: after ∧
    ∀ i ∈ before ++ after, Apart i.1 path
  sets : ∀ s ∈ u.sets, Apart s.1 path

theorem Update.adds_single (path : String) (k : Int64) :
    Update.Adds { incs := [(path, k)] } path k :=
  ⟨⟨[], [], rfl, by simp⟩, by simp⟩

/-- **What an update leaves** at a path that it counts up. -/
theorem readPath?_apply_of_adds {u : Update} {path : String} {k : Int64} (hu : u.Adds path k)
    {d : Document} {n : Int64} (h : d.readPath? path = some (.int64 n)) :
    (u.apply d).readPath? path = some (.int64 (counted n + k)) := by
  obtain ⟨before, after, hincs, hothers⟩ := hu.once
  rw [List.forall_mem_append] at hothers
  have hkept : (Document.addAll before (Document.setAll u.sets d)).readPath? path =
      some (.int64 n) := by
    rw [Document.readPath?_addAll_of_apart hothers.1, Document.readPath?_setAll_of_apart hu.sets, h]
  rw [Update.apply_eq, hincs, Document.addAll_append, Document.addAll_cons,
    Document.readPath?_addAll_of_apart hothers.2, Document.addPath,
    Document.readPath?_writePath_self, Document.counter_of_int64 hkept]

/-- **The sum is left**, as long as it is within 64 bits. -/
theorem exists_sum_of_adds {u : Update} {path : String} {k : Int64} (hu : u.Adds path k)
    {d : Document} {n : Int64} (h : d.readPath? path = some (.int64 n))
    (hlow : -2 ^ 63 ≤ (counted n).toInt + k.toInt) (hhigh : (counted n).toInt + k.toInt < 2 ^ 63) :
    ∃ v : Int64, (u.apply d).readPath? path = some (.int64 v) ∧
      v.toInt = (counted n).toInt + k.toInt := by
  refine ⟨_, readPath?_apply_of_adds hu h, ?_⟩
  rw [Int64.toInt_add, Int.bmod_eq_of_le (by omega) (by omega)]

/-- **An increment is exact** just if the number is counted up exactly. -/
theorem exact_iff {u : Update} {path : String} {k : Int64} (hu : u.Adds path k) {d : Document}
    {n : Int64} (h : d.readPath? path = some (.int64 n))
    (hlow : -2 ^ 63 ≤ n.toInt + k.toInt) (hhigh : n.toInt + k.toInt < 2 ^ 63) :
    (∃ v : Int64, (u.apply d).readPath? path = some (.int64 v) ∧ v.toInt = n.toInt + k.toInt) ↔
      2 ^ lostPlaces n.toInt.natAbs ∣ n.toInt.natAbs ∨ n.toInt = maxInt64 := by
  have hsum : (n + k).toInt = n.toInt + k.toInt := by
    rw [Int64.toInt_add, Int.bmod_eq_of_le (by omega) (by omega)]
  rw [← counted_eq_self_iff, readPath?_apply_of_adds hu h]
  constructor
  · rintro ⟨v, hv, hexact⟩
    cases hv
    rw [← hsum, Int64.toInt_inj] at hexact
    exact (Int64.add_left_inj k).mp hexact
  · intro hcounted
    exact ⟨_, rfl, by rw [hcounted, hsum]⟩

/-! ### Repeated increments -/

/-- The update that counts up at a path by one. -/
def Update.succ (path : String) : Update := { incs := [(path, 1)] }

/-- **Repeated increments by one** come to a halt at 2^53 + 1. -/
theorem readPath?_iterate_succ {d : Document} {path : String} {n : Int64}
    (h : d.readPath? path = some (.int64 n)) (hlow : -2 ^ 53 ≤ n.toInt)
    (hhigh : n.toInt ≤ 2 ^ 53 + 1) (m : Nat) :
    ∃ v : Int64, ((Update.succ path).apply^[m] d).readPath? path = some (.int64 v) ∧
      v.toInt = min (n.toInt + m) (2 ^ 53 + 1) := by
  induction m with
  | zero =>
    refine ⟨n, h, ?_⟩
    omega
  | succ m ih =>
    obtain ⟨v, hv, hcount⟩ := ih
    refine ⟨counted v + 1, ?_, ?_⟩
    · rw [Function.iterate_succ_apply']
      exact readPath?_apply_of_adds (Update.adds_single path 1) hv
    · by_cases hlast : v.toInt = 2 ^ 53 + 1
      · have hread : (counted v).toInt = 2 ^ 53 := by
          rw [toInt_counted, hlast]
          decide +kernel
        rw [Int64.toInt_add, hread, Int64.toInt_one, Int.bmod_eq_of_le (by decide) (by decide)]
        push_cast
        omega
      · rw [counted_of_natAbs_le (by omega), Int64.toInt_add, Int64.toInt_one,
          Int.bmod_eq_of_le (by omega) (by omega)]
        push_cast
        omega

end Registrar
