import Registrar.Proofs.Store.Writing

/-!
# Joining segments

Segments that are joined with dots are the segments of the joined text, unless one of them has a dot
of its own, and the segments of a path, joined again, are the path. So a path leads through another
just if it is the other with a dot and a further path behind it.

* `splitDots_append_dot`: a text is split on both sides of a dot by itself.
* `segments_intercalate`, `intercalate_segments`: splitting and joining undo each other.
* `segments_prefix_iff`: which paths begin with the segments of a path.
-/

namespace Registrar.Text

theorem splitDots_dot (cs : List Char) : splitDots ('.' :: cs) = [] :: splitDots cs := by
  rw [splitDots, if_pos rfl]

theorem splitDots_cons_of_ne {c : Char} (h : c ≠ '.') {cs s : List Char} {r : List (List Char)}
    (hcs : splitDots cs = s :: r) : splitDots (c :: cs) = (c :: s) :: r := by
  rw [splitDots, if_neg h, hcs]

/-- **A text is split on both sides of a dot by itself.** -/
theorem splitDots_append_dot (cs ds : List Char) :
    splitDots (cs ++ '.' :: ds) = splitDots cs ++ splitDots ds := by
  induction cs with
  | nil => exact splitDots_dot ds
  | cons c cs ih =>
    by_cases h : c = '.'
    · subst h
      rw [List.cons_append, splitDots_dot, splitDots_dot, ih, List.cons_append]
    · obtain ⟨s, r, hs⟩ := List.exists_cons_of_ne_nil (splitDots_ne_nil cs)
      rw [hs, List.cons_append] at ih
      rw [List.cons_append, splitDots_cons_of_ne h ih, splitDots_cons_of_ne h hs, List.cons_append]

theorem dotless_of_mem_splitDots {cs s : List Char} (h : s ∈ splitDots cs) : '.' ∉ s := by
  induction cs generalizing s with
  | nil =>
    rw [splitDots, List.mem_singleton] at h
    subst h
    exact List.not_mem_nil
  | cons c cs ih =>
    by_cases hc : c = '.'
    · subst hc
      rw [splitDots_dot, List.mem_cons] at h
      rcases h with rfl | h
      · exact List.not_mem_nil
      · exact ih h
    · obtain ⟨first, r, hs⟩ := List.exists_cons_of_ne_nil (splitDots_ne_nil cs)
      rw [splitDots_cons_of_ne hc hs, List.mem_cons] at h
      rcases h with rfl | h
      · have hfirst : '.' ∉ first := ih (by rw [hs]; exact List.mem_cons_self)
        simp [hfirst, Ne.symm hc]
      · exact ih (by rw [hs]; exact List.mem_cons_of_mem _ h)

/-! ### Paths -/

theorem dotless_of_mem_segments {path name : String} (h : name ∈ segments path) :
    '.' ∉ name.toList := by
  obtain ⟨cs, hcs, rfl⟩ := List.mem_map.mp h
  rw [String.toList_ofList]
  exact dotless_of_mem_splitDots hcs

theorem segments_join (path rest : String) :
    segments (path ++ "." ++ rest) = segments path ++ segments rest := by
  have htoList : (path ++ "." ++ rest).toList = path.toList ++ '.' :: rest.toList := by
    simp [String.toList_append]
  rw [segments, htoList, splitDots_append_dot, List.map_append]
  rfl

/-- **Joined segments are split again**, if none of them has a dot. -/
theorem segments_intercalate {names : List String} (hne : names ≠ [])
    (h : ∀ name ∈ names, '.' ∉ name.toList) : segments (".".intercalate names) = names := by
  induction names with
  | nil => exact absurd rfl hne
  | cons name names ih =>
    rw [List.forall_mem_cons] at h
    cases names with
    | nil => rw [String.intercalate_singleton, segments_of_dotless h.1]
    | cons next names =>
      rw [String.intercalate_cons_cons, segments_join, segments_of_dotless h.1,
        ih (List.cons_ne_nil _ _) h.2]
      rfl

/-- **A path is joined again** from its segments. -/
theorem intercalate_segments (path : String) : ".".intercalate (segments path) = path := by
  have hjoin : ∀ cs : List Char,
      ".".intercalate ((splitDots cs).map String.ofList) = String.ofList cs := by
    intro cs
    induction cs with
    | nil => rfl
    | cons c cs ih =>
      obtain ⟨s, r, hs⟩ := List.exists_cons_of_ne_nil (splitDots_ne_nil cs)
      rw [hs, List.map_cons] at ih
      by_cases hc : c = '.'
      · subst hc
        rw [splitDots_dot, hs, List.map_cons, List.map_cons, String.intercalate_cons_cons, ih,
          ← String.toList_inj]
        simp [String.toList_append]
      · have hcons : String.ofList (c :: s) = String.ofList [c] ++ String.ofList s := by
          rw [← String.ofList_append]
          rfl
        rw [splitDots_cons_of_ne hc hs, List.map_cons, hcons, String.intercalate_cons_append, ih,
          ← String.ofList_append]
        rfl
  rw [segments, hjoin, String.ofList_toList]

theorem segments_inj {path other : String} : segments path = segments other ↔ path = other := by
  refine ⟨fun h => ?_, congrArg segments⟩
  rw [← intercalate_segments path, h, intercalate_segments]

/-- **A path leads through another** if it is the other, or goes on behind it. -/
theorem segments_prefix_iff {path other : String} :
    segments path <+: segments other ↔ other = path ∨ ∃ rest, other = path ++ "." ++ rest := by
  constructor
  · rintro ⟨names, h⟩
    by_cases hnames : names = []
    · subst hnames
      rw [List.append_nil] at h
      exact .inl (segments_inj.mp h.symm)
    · right
      have hdotless : ∀ name ∈ names, '.' ∉ name.toList := by
        intro name hname
        exact dotless_of_mem_segments (h ▸ List.mem_append_right _ hname)
      refine ⟨".".intercalate names, segments_inj.mp ?_⟩
      rw [segments_join, segments_intercalate hnames hdotless, h]
  · rintro (rfl | ⟨rest, rfl⟩)
    · exact List.prefix_rfl
    · rw [segments_join]
      exact List.prefix_append _ _

end Registrar.Text
