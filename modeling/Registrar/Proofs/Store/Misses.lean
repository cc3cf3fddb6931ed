import Registrar.Proofs.Program.Runs
import Registrar.Proofs.Store.Keyed

/-!
# Writes that miss

A write that fails, or that finds no document, leaves the store exactly as it was, down to the list
of its collections. A write by filter goes through all collections with a name, so for this to be
true no two collections may have the same name; and no call makes two of them.

* `Store.Distinct`: collections have different names.
* `Replies.distinct`: every call keeps it so.
* `StoreCall.Misses`: the answers which tell that nothing was written.
* `Replies.eq_of_misses`: nothing was written.
-/

namespace Registrar

/-- **Collections have different names.** -/
def Store.Distinct (s : Store) : Prop := (s.collections.map Prod.fst).Nodup

namespace Store

variable {s t : Store} {name : String} {f : Entries → Entries}

theorem map_fst_modify (s : Store) (name : String) (f : Entries → Entries) :
    (s.modify name f).collections.map Prod.fst = s.collections.map Prod.fst := by
  rw [modify, List.map_map]
  refine List.map_congr_left fun c _ => ?_
  rw [Function.comp_apply]
  split <;> rfl

theorem Distinct.modify (h : s.Distinct) : (s.modify name f).Distinct := by
  rw [Distinct, map_fst_modify]
  exact h

theorem Distinct.create (h : s.Distinct) (name : String) : (s.create name).Distinct := by
  rw [Store.create]
  split
  · exact h
  · rename_i hnew
    rw [collection?, Option.isSome_map, List.find?_isSome] at hnew
    rw [Distinct, List.map_append, List.map_singleton, List.nodup_append]
    refine ⟨h, List.nodup_singleton _, fun a ha b hb => ?_⟩
    obtain ⟨c, hc, rfl⟩ := List.mem_map.mp ha
    rw [List.mem_singleton.mp hb]
    exact fun heq => hnew ⟨c, hc, by simpa using heq⟩

theorem Replies.distinct {call : StoreCall} {answer : Except StoreError call.Result}
    (h : s.Replies call answer t) (hs : s.Distinct) : t.Distinct := by
  cases call with
  | find query name => exact h.2 ▸ hs
  | count filter name => exact (Prod.mk.inj h).2 ▸ hs
  | listCollections => exact (Prod.mk.inj h).2 ▸ hs
  | insert id d name =>
    have hserve : (answer, t) = s.serve (.insert id d name) := h
    rw [serve, Store.insert] at hserve
    split at hserve
    · rename_i hfree
      split at hfree
      · cases hfree
      · cases hfree
        exact (Prod.mk.inj hserve).2 ▸ (hs.create name).modify
    · exact (Prod.mk.inj hserve).2 ▸ hs
  | updateFirst f u name => exact (Prod.mk.inj h).2 ▸ hs.modify
  | updateAll f u name => exact (Prod.mk.inj h).2 ▸ hs.modify
  | deleteFirst f name => exact (Prod.mk.inj h).2 ▸ hs.modify
  | deleteAll f name => exact (Prod.mk.inj h).2 ▸ hs.modify
  | createCollection name => exact (Prod.mk.inj h).2 ▸ hs.create name
  | dropCollection name =>
    exact (Prod.mk.inj h).2 ▸ hs.sublist (List.filter_sublist.map Prod.fst)

theorem distinct_of_reply {w : Surroundings} {r : Request} {answer : r.Answer}
    (h : w.Reply s r answer t) (hs : s.Distinct) : t.Distinct := by
  cases r with
  | store call =>
    rcases h with h | ⟨-, -, -, rfl⟩
    · exact h.distinct hs
    · exact hs
  | isCancelled => exact h.2 ▸ hs
  | newId => exact h.2 ▸ hs
  | now => exact (show t = s from h) ▸ hs

theorem modify_of_same (hs : s.Distinct) (h : f (s.entries name) = s.entries name) :
    s.modify name f = s := by
  -- All collections with the name are changed, but there is only the one that is found by it.
  have hmap : s.collections.map (fun c => if c.1 == name then (c.1, f c.2) else c) =
      s.collections := by
    refine (List.map_congr_left fun c hc => ?_).trans (List.map_id _)
    split
    · rename_i hname
      have hfound : s.entries name = c.2 := by
        rw [entries, collection?]
        cases hfind : s.collections.find? (·.1 == name) with
        | none => exact absurd hname (List.find?_eq_none.mp hfind c hc)
        | some c' =>
          have hname' := List.find?_some hfind
          rw [List.inj_on_of_nodup_map hs (List.mem_of_find?_eq_some hfind) hc
            (by rw [beq_iff_eq.mp hname, beq_iff_eq.mp hname'])]
          rfl
      rw [← hfound, h, hfound]
      rfl
    · rfl
  rw [Store.modify, hmap]

theorem none_of_matched {filter : Filter} (h : s.matched filter name = 0) :
    ∀ e ∈ s.entries name, Entries.meets filter e = false := by
  rw [matched, List.length_eq_zero_iff, List.filter_eq_nil_iff] at h
  exact fun e he => Bool.eq_false_iff.mpr (h e he)

end Store

/-- **The answers which tell that nothing was written.** -/
def StoreCall.Misses : (call : StoreCall) → Except StoreError call.Result → Prop
  | _, .error _ => True
  | .updateFirst _ _ _, .ok n | .updateAll _ _ _, .ok n | .deleteFirst _ _, .ok n
  | .deleteAll _ _, .ok n => n = (0 : Nat)
  | _, .ok _ => False

namespace Store

theorem Replies.eq_of_error {s t : Store} {call : StoreCall} {e : StoreError}
    (h : s.Replies call (.error e) t) : t = s := by
  cases call with
  | find query name => exact h.2
  | insert id d name =>
    have hserve : (Except.error e, t) = s.serve (.insert id d name) := h
    rw [serve] at hserve
    split at hserve
    · cases hserve
    · exact (Prod.mk.inj hserve).2
  | _ => exact nomatch (Prod.mk.inj h).1

/-- **A call that misses** has written nothing. -/
theorem Replies.eq_of_misses {s t : Store} {call : StoreCall}
    {answer : Except StoreError call.Result} (h : s.Replies call answer t) (hs : s.Distinct)
    (hm : call.Misses answer) : t = s := by
  cases answer with
  | error e => exact h.eq_of_error
  | ok n =>
    cases call with
    | updateFirst f u name =>
      obtain ⟨hn, rfl⟩ := Prod.mk.inj h
      obtain rfl := Except.ok.inj hn
      have hzero : s.matched f name = 0 := by
        have hmin : min 1 (s.matched f name) = 0 := hm
        omega
      exact modify_of_same hs (Entries.updateFirst_of_none (none_of_matched hzero))
    | updateAll f u name =>
      obtain ⟨hn, rfl⟩ := Prod.mk.inj h
      obtain rfl := Except.ok.inj hn
      exact modify_of_same hs (Entries.updateAll_of_none (none_of_matched hm))
    | deleteFirst f name =>
      obtain ⟨hn, rfl⟩ := Prod.mk.inj h
      obtain rfl := Except.ok.inj hn
      have hzero : s.matched f name = 0 := by
        have hmin : min 1 (s.matched f name) = 0 := hm
        omega
      refine modify_of_same hs (List.eraseP_of_forall_not fun e he => ?_)
      rw [none_of_matched hzero e he]
      exact Bool.false_ne_true
    | deleteAll f name =>
      obtain ⟨hn, rfl⟩ := Prod.mk.inj h
      obtain rfl := Except.ok.inj hn
      refine modify_of_same hs (List.filter_eq_self.mpr fun e he => ?_)
      rw [none_of_matched hm e he]
      rfl
    | _ => exact hm.elim

end Store

end Registrar
