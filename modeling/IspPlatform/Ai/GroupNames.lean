import IspPlatform.Ai.EvalHarness

/-!
# Reports that leave groups out

A report lists group names, joined by commas. COMPLETENESS looks for a group's name anywhere in
the text, so a name inside another one is found where only the longer one was reported.
-/

namespace IspPlatform.Ai

open Py

variable {U : Unicode}

/-! ## Names in lower case -/

theorem not_mem_lowerChar {c x : Char} (hU : U.Lowers) (hx : x = ',' ∨ x = ' ') (hc : c ≠ x) :
    x ∉ U.lowerChar c := by
  unfold Unicode.lowerChar
  cases hascii : isAscii c with
  | true =>
    rw [if_pos rfl, List.mem_singleton]
    intro h
    have hlt : x.toNat < 97 := by rcases hx with rfl | rfl <;> decide
    exact hc (eq_of_toLower hlt h.symm)
  | false =>
    rw [if_neg (by simp)]
    rcases hx with rfl | rfl
    · exact (hU.apart c hascii).1
    · exact (hU.apart c hascii).2

theorem not_mem_lowerFrom {x : Char} (hU : U.Lowers) (hx : x = ',' ∨ x = ' ') {m : Str}
    (hm : x ∉ m) (r : Str) : x ∉ U.lowerFrom r m := by
  induction m generalizing r with
  | nil => exact List.not_mem_nil
  | cons c m ih =>
    rw [List.mem_cons, not_or] at hm
    unfold Unicode.lowerFrom
    rw [List.mem_append, not_or]
    refine ⟨?_, ih hm.2 _⟩
    by_cases hc : c = 'Σ'
    · rw [if_pos hc, List.mem_singleton]
      rcases hx with rfl | rfl <;> split <;> decide
    · rw [if_neg hc]
      exact not_mem_lowerChar hU hx (Ne.symm hm.1)

theorem lowered_ne_nil (hU : U.Lowers) {s : Str} (hs : s ≠ []) : U.lowered s ≠ [] := by
  cases s with
  | nil => exact absurd rfl hs
  | cons c s =>
    unfold Unicode.lowered Unicode.lowerFrom
    apply List.append_ne_nil_of_left_ne_nil
    by_cases hc : c = 'Σ'
    · rw [if_pos hc]
      exact List.cons_ne_nil _ _
    · rw [if_neg hc]
      unfold Unicode.lowerChar
      cases hascii : isAscii c with
      | true => exact List.cons_ne_nil _ _
      | false => exact hU.nonempty c hascii

theorem lowered_separated (s t : Str) :
    U.lowered (s ++ (lit ", " ++ t)) = U.lowered s ++ (lit ", " ++ U.lowered t) := by
  have hs : U.lowerWithin (lit ", " ++ t) [] s = U.lowered s :=
    U.lowerWithin_alone rfl rfl [] s
  have ht : U.lowerFrom ([' ', ','] ++ s.reverse) t = U.lowered t := by
    rw [U.lowerFrom_eq_within]
    exact U.lowerWithin_alone rfl rfl [] t
  show U.lowerFrom [] (s ++ (lit ", " ++ t)) = _
  rw [U.lowerFrom_append, hs, List.append_nil, ← ht]
  rfl

/-- `", ".join(names)`. -/
def joined (names : List Str) : Str := (lit ", ").intercalate names

theorem lowered_joined (names : List Str) :
    U.lowered (joined names) = joined (names.map U.lowered) := by
  induction names with
  | nil => rfl
  | cons s names ih =>
    cases names with
    | nil =>
      unfold joined
      rw [List.map_singleton, List.intercalate_singleton, List.intercalate_singleton]
    | cons t names =>
      unfold joined at ih ⊢
      rw [List.map_cons, List.map_cons, List.intercalate_cons_cons, List.intercalate_cons_cons,
        List.append_assoc, lowered_separated, ih, List.map_cons, List.append_assoc]

/-- A name is found in a report where a reported name holds it. -/
theorem named_joined_iff (hU : U.Lowers) {g : Str} (hg : g ≠ []) (hcomma : ',' ∉ g)
    (hblank : ' ' ∉ g) {names : List Str} :
    Named U g (joined names) ↔ ∃ g' ∈ names, U.lowered g <:+: U.lowered g' := by
  unfold Named
  rw [lowered_joined]
  unfold joined
  rw [infix_join_iff (lowered_ne_nil hU hg) (not_mem_lowerFrom hU (.inl rfl) hcomma [])
    (not_mem_lowerFrom hU (.inr rfl) hblank [])]
  simp only [List.mem_map, exists_exists_and_eq_and]

/-! ## Omissions -/

/-- A report of some of the groups, in any order, is complete only if it has them all. -/
def DetectsOmissions (U : Unicode) (case : EvalCase) : Prop :=
  ∀ names : List Str, names.Nodup → names.toFinset ⊆ case.expectedGroups →
    ((scoreCase U case ⟨joined names, []⟩).scores .completeness = some true ↔
      names.toFinset = case.expectedGroups)

variable {case : EvalCase}

theorem complete_joined_iff (hU : U.Lowers) (hr : case.expectRefusal = false)
    (hgroups : ∀ g ∈ case.expectedGroups, g ≠ [] ∧ ',' ∉ g ∧ g.all (!isSpace ·) = true)
    {names : List Str} :
    (scoreCase U case ⟨joined names, []⟩).scores .completeness = some true ↔
      ∀ g ∈ case.expectedGroups, ∃ g' ∈ names, U.lowered g <:+: U.lowered g' := by
  rw [scores_completeness hr, Option.some.injEq, decide_eq_true_iff]
  refine forall₂_congr fun g hg => ?_
  obtain ⟨hne, hcomma, hspace⟩ := hgroups g hg
  have hblank : ' ' ∉ g := by
    intro hin
    have := List.all_eq_true.mp hspace ' ' hin
    revert this
    decide
  exact named_joined_iff hU hne hcomma hblank

/-- **Omissions.** Every partial report of a case is seen to be one exactly when no group's name
stands inside another's, in any letter case. -/
theorem detectsOmissions_iff (hU : U.Lowers) (hr : case.expectRefusal = false)
    (hgroups : ∀ g ∈ case.expectedGroups, g ≠ [] ∧ ',' ∉ g ∧ g.all (!isSpace ·) = true) :
    DetectsOmissions U case ↔
      ∀ g ∈ case.expectedGroups, ∀ g' ∈ case.expectedGroups, g ≠ g' →
        ¬ U.lowered g <:+: U.lowered g' := by
  constructor
  · intro hdetects g hg g' hg' hne hin
    -- the report without `g`
    obtain ⟨names, hnodup, hnames⟩ : ∃ names : List Str, names.Nodup ∧
        names.toFinset = case.expectedGroups.erase g :=
      ⟨(case.expectedGroups.erase g).toList, Finset.nodup_toList _, Finset.toList_toFinset _⟩
    have hmem : ∀ x, x ∈ names ↔ x ≠ g ∧ x ∈ case.expectedGroups := by
      intro x
      rw [← List.mem_toFinset, hnames, Finset.mem_erase]
    have hsub : names.toFinset ⊆ case.expectedGroups := hnames ▸ Finset.erase_subset _ _
    have hcomplete := (complete_joined_iff hU hr hgroups).mpr (fun x hx => by
      by_cases hxg : x = g
      · exact ⟨g', (hmem g').mpr ⟨Ne.symm hne, hg'⟩, hxg ▸ hin⟩
      · exact ⟨x, (hmem x).mpr ⟨hxg, hx⟩, List.infix_rfl⟩)
    have hall := (hdetects names hnodup hsub).mp hcomplete
    rw [hnames] at hall
    rw [← hall] at hg
    exact Finset.notMem_erase g _ hg
  · intro hapart names _ hsub
    rw [complete_joined_iff hU hr hgroups]
    constructor
    · intro hcomplete
      refine hsub.antisymm fun g hg => ?_
      obtain ⟨g', hg', hin⟩ := hcomplete g hg
      by_cases hne : g = g'
      · rw [hne, List.mem_toFinset]
        exact hg'
      · exact absurd hin (hapart g hg g' (hsub (List.mem_toFinset.mpr hg')) hne)
    · intro hall g hg
      rw [← hall, List.mem_toFinset] at hg
      exact ⟨g, hg, List.infix_rfl⟩

/-- A case that expects these groups. -/
def expectingAll (groups : Finset Str) : EvalCase := ⟨lit "groups", groups, false, false⟩

theorem detectsOmissions_iff_proxy :
    DetectsOmissions asciiOnly (expectingAll {lit "proxy", lit "system"}) ↔
      ∀ g ∈ (expectingAll {lit "proxy", lit "system"}).expectedGroups,
        ∀ g' ∈ (expectingAll {lit "proxy", lit "system"}).expectedGroups, g ≠ g' →
          ¬ asciiOnly.lowered g <:+: asciiOnly.lowered g' :=
  detectsOmissions_iff Unicode.lowers_asciiOnly rfl (by decide)

/-- The replica's name reports the database too. -/
theorem replica_reports_database :
    lit "db" ∉ [lit "db-replica"] ∧
      (scoreCase asciiOnly (expectingAll {lit "db", lit "db-replica"})
        ⟨joined [lit "db-replica"], []⟩).scores .completeness = some true ∧
      ¬ DetectsOmissions asciiOnly (expectingAll {lit "db", lit "db-replica"}) := by
  have hcomplete : (scoreCase asciiOnly (expectingAll {lit "db", lit "db-replica"})
      ⟨joined [lit "db-replica"], []⟩).scores .completeness = some true := by decide
  refine ⟨by decide, hcomplete, fun hdetects => ?_⟩
  have hall := (hdetects [lit "db-replica"] (by decide) (by decide)).mp hcomplete
  revert hall
  decide

end IspPlatform.Ai
