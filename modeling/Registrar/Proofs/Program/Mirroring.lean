import Registrar.Proofs.Program.Telling

/-!
# Programs that mirror each other

Two programs that only read, each run undisturbed in a store of its own, **mirror** each other when
whatever the first one may do the second one may do too: where the first fails the second may fail
alike, and where it succeeds the second may succeed with a related result. What the stores have in
common enters where they are asked; from there it is passed on, one rule for each way of putting
programs together.

* `Mirrors`: every result of the first is related to one of the second.
* `Mirrors.bind`, `mirrors_mapM`: programs one after the other.
* `mirrors_find`: what two stores answer to a query.
* `Tells.mirrors`: programs that each have their one result.
-/

namespace Registrar

variable {ε α α' β β' : Type} {s t : Store} {R : α → α' → Prop} {Q : β → β' → Prop}

/-- **What the first program may do in its store, the second may do in the other one.** -/
def Mirrors (s t : Store) (R : α → α' → Prop) (m : ExceptT ε Program α)
    (k : ExceptT ε Program α') : Prop :=
  ∀ r u, m.run.Runs .calm s r u → u = s ∧ match r with
    | .ok a => ∃ b, k.run.Runs .calm t (.ok b) t ∧ R a b
    | .error e => k.run.Runs .calm t (.error e) t

theorem mirrors_pure {a : α} {b : α'} (h : R a b) :
    Mirrors s t R (pure a : ExceptT ε Program α) (pure b) := by
  rintro r u ⟨rfl, rfl⟩
  exact ⟨rfl, b, ⟨rfl, rfl⟩, h⟩

theorem Mirrors.bind {m : ExceptT ε Program α} {m' : ExceptT ε Program α'}
    {k : α → ExceptT ε Program β} {k' : α' → ExceptT ε Program β'} (hm : Mirrors s t R m m')
    (hk : ∀ a b, R a b → Mirrors s t Q (k a) (k' b)) : Mirrors s t Q (m >>= k) (m' >>= k') := by
  intro r u h
  rcases (runs_bindE m k).mp h with ⟨a, v, ha, hrest⟩ | ⟨e, he, rfl⟩
  · obtain ⟨rfl, b, hb, hab⟩ := hm _ _ ha
    obtain ⟨hu, hr⟩ := hk a b hab r u hrest
    refine ⟨hu, ?_⟩
    cases r with
    | ok c =>
      obtain ⟨c', hc, hcc⟩ := hr
      exact ⟨c', runs_bindE_ok hb hc, hcc⟩
    | error e => exact runs_bindE_ok hb hr
  · obtain ⟨hu, hr⟩ := hm _ _ he
    exact ⟨hu, (runs_bindE m' k').mpr (.inr ⟨e, hr, rfl⟩)⟩

theorem Mirrors.mono {m : ExceptT ε Program α} {k : ExceptT ε Program α'} {R' : α → α' → Prop}
    (hm : Mirrors s t R m k) (h : ∀ a b, R a b → R' a b) : Mirrors s t R' m k := by
  intro r u hr
  obtain ⟨hu, hR⟩ := hm r u hr
  refine ⟨hu, ?_⟩
  cases r with
  | ok a =>
    obtain ⟨b, hb, hab⟩ := hR
    exact ⟨b, hb, h a b hab⟩
  | error e => exact hR

theorem Mirrors.inPlace {m : StoreM α} {k : StoreM α'} (hm : Mirrors s t R m k) (place : String) :
    Mirrors s t R (OperationM.inPlace place m) (OperationM.inPlace place k) := by
  intro r u h
  rcases (runs_inPlace place m).mp h with ⟨a, ha, rfl⟩ | ⟨e, he, rfl⟩
  · obtain ⟨hu, b, hb, hab⟩ := hm _ _ ha
    exact ⟨hu, b, (runs_inPlace place k).mpr (.inl ⟨b, hb, rfl⟩), hab⟩
  · obtain ⟨hu, hr⟩ := hm _ _ he
    exact ⟨hu, (runs_inPlace place k).mpr (.inr ⟨e, hr, rfl⟩)⟩

theorem Mirrors.guarded {m : StoreM α} {k : StoreM α'} (hm : Mirrors s t R m k) :
    Mirrors s t R (StoreM.guarded m) (StoreM.guarded k) := by
  intro r u h
  rcases (runs_guarded m).mp h with h | ⟨hc, -⟩
  · obtain ⟨hu, hr⟩ := hm r u h
    refine ⟨hu, ?_⟩
    cases r with
    | ok a =>
      obtain ⟨b, hb, hab⟩ := hr
      exact ⟨b, (runs_guarded k).mpr (.inl hb), hab⟩
    | error e => exact (runs_guarded k).mpr (.inl hr)
  · exact hc.elim

/-- **What has been decided already** is the same for both, or related. -/
theorem mirrors_ofExcept {e : Except StoreError α} {e' : Except StoreError α'}
    (h : match e with
      | .ok a => ∃ b, e' = .ok b ∧ R a b
      | .error x => e' = .error x) :
    Mirrors s t R (StoreM.ofExcept e) (StoreM.ofExcept e') := by
  rintro r u ⟨rfl, rfl⟩
  refine ⟨rfl, ?_⟩
  cases r with
  | ok a =>
    obtain ⟨b, rfl, hab⟩ := h
    exact ⟨b, ⟨rfl, rfl⟩, hab⟩
  | error x =>
    obtain rfl : e' = .error x := h
    exact ⟨rfl, rfl⟩

theorem mirrors_decided (e : Except StoreError α) :
    Mirrors s t (fun a b => a = b ∧ e = .ok a) (StoreM.ofExcept e) (StoreM.ofExcept e) := by
  refine mirrors_ofExcept ?_
  cases e with
  | ok a => exact ⟨a, rfl, rfl, rfl⟩
  | error x => exact rfl

/-- **What two stores answer to a query**, if each order of the one collection has a related order
of the other. -/
theorem mirrors_find {query : Query} {name : String}
    {R : List Document → List Document → Prop}
    (h : ∀ ds, ds.Perm (s.entries name).documents →
      ∃ ds', ds'.Perm (t.entries name).documents ∧ R (query.answer ds) (query.answer ds')) :
    Mirrors s t R (StoreM.find query name) (StoreM.find query name) := by
  intro r u hr
  rcases (runs_call _).mp hr with ⟨⟨ds, hp, rfl⟩, rfl⟩ | ⟨hf, -⟩
  · obtain ⟨ds', hp', hR⟩ := h ds hp
    exact ⟨rfl, query.answer ds', (runs_call _).mpr (.inl ⟨⟨ds', hp', rfl⟩, rfl⟩), hR⟩
  · exact hf.elim

theorem mirrors_mapM {f : α → ExceptT ε Program β} (as : List α)
    (h : ∀ a ∈ as, Mirrors s t Eq (f a) (f a)) : Mirrors s t Eq (as.mapM f) (as.mapM f) := by
  induction as with
  | nil => exact mirrors_pure rfl
  | cons a as ih =>
    rw [List.mapM_cons]
    refine (h a List.mem_cons_self).bind fun b _ hb => hb ▸ ?_
    refine (ih fun x hx => h x (List.mem_cons_of_mem a hx)).bind fun bs _ hbs => hbs ▸ ?_
    exact mirrors_pure rfl

/-- **Programs that surely succeed** mirror each other if their results are related. -/
theorem Tells.mirrors {m : ExceptT ε Program α} {k : ExceptT ε Program α'} {P : α → Prop}
    {P' : α' → Prop} (hm : Tells .calm s False P m) (hk : Tells .calm t False P' k)
    (h : ∀ a b, P a → P' b → R a b) : Mirrors s t R m k := by
  intro r u hr
  obtain ⟨rfl, hP⟩ := hm r u hr
  cases r with
  | error e => exact hP.elim
  | ok a =>
    obtain ⟨r', u', hr'⟩ := Program.exists_runs (w := .calm) ⟨.nil, trivial⟩ k.run t
    obtain ⟨rfl, hP'⟩ := hk r' u' hr'
    cases r' with
    | error e => exact hP'.elim
    | ok b => exact ⟨rfl, b, hr', h a b hP hP'⟩

theorem Mirrors.runs {m : ExceptT ε Program α} (h : Mirrors s t Eq m m) {r : Except ε α}
    (hr : m.run.Runs .calm s r s) : m.run.Runs .calm t r t := by
  have hm := (h r s hr).2
  cases r with
  | ok a =>
    obtain ⟨b, hb, rfl⟩ := hm
    exact hb
  | error e => exact hm

end Registrar
