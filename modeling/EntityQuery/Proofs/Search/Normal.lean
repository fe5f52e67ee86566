import EntityQuery.Proofs.Search.Grouped

/-!
# The normal form of aggregates

The aggregates of a request are sent in any spelling, with or without a grouping.  Settled, all
their paths are in plain spelling, no path is grouped by and aggregated, and a grouping is there
only if there is something to group by: the one that was sent, or else the selected fields that are
not aggregated.

Nothing is left to settle then, since plain spellings stay as they are and a grouping by what is not
aggregated cannot meet what is.  Where the grouping is missing there was nothing left to group by,
and there is nothing the second time.

## Main definitions

* `Aggregates.Conflicts` : a path is grouped by and aggregated as sent
* `Aggregates.IsNormalFormOf` : settled aggregates and the ones that were sent

## Main statements

* `IsNormalFormOf.normalize_eq_self` : aggregates in normal form stay as they are
* `normalForm_of_normalize` : when aggregates are settled, and what comes of it
-/

namespace EntityQuery.Aggregates

variable {marker path : String} {selected : List String} {a n : Aggregates}

/-! ## Paths of functions -/

theorem mem_calls_iff {fn : AggregateFn} : (fn, path) ∈ a.calls ↔ path ∈ a.paths fn := by
  have hall : fn ∈ AggregateFn.all := by cases fn <;> decide
  simp [calls, hall]

theorem paths_map (f : String → String) (a : Aggregates) (fn : AggregateFn) :
    (a.map f).paths fn = (a.paths fn).map f := by
  cases fn <;> rfl

theorem calls_congr (hpaths : ∀ fn, a.paths fn = n.paths fn) : a.calls = n.calls := by
  simp only [calls, hpaths]

theorem called_map (f : String → String) (a : Aggregates) :
    (a.map f).calls.map Prod.snd = (a.calls.map Prod.snd).map f := by
  rw [calls_map, List.map_map, List.map_map]
  rfl

theorem eq_of_paths (hpaths : ∀ fn, a.paths fn = n.paths fn)
    (hgroup : a.groupBy = n.groupBy) : a = n := by
  obtain ⟨count, sum, avg, min, max, group⟩ := a
  obtain ⟨count', sum', avg', min', max', group'⟩ := n
  have hcount : count = count' := hpaths .count
  have hsum : sum = sum' := hpaths .sum
  have havg : avg = avg' := hpaths .avg
  have hmin : min = min' := hpaths .min
  have hmax : max = max' := hpaths .max
  rw [hcount, hsum, havg, hmin, hmax, show group = group' from hgroup]

/-! ## Groupings -/

theorem groupBy_map_eq_none_iff {f : String → String} :
    (a.map f).groupBy = none ↔ a.groupBy.getD [] = [] := by
  cases hgroup : a.groupBy with
  | none => simp [map, hgroup]
  | some group => simp [map, hgroup]

theorem groupBy_map_eq_some_iff {f : String → String} {group : List String} :
    (a.map f).groupBy = some group ↔ group ≠ [] ∧ (a.groupBy.getD []).map f = group := by
  cases hgroup : a.groupBy with
  | none =>
      refine iff_of_false (by simp [map, hgroup]) ?_
      rintro ⟨hne, hnil⟩
      exact hne hnil.symm
  | some sent =>
      rw [map, hgroup, Option.map_some, Option.filter_eq_some_iff, Option.getD_some,
        Option.some.injEq, and_comm]
      simp

/-! ## Settling, case by case -/

/-- A path in plain spelling is grouped by and aggregated as sent. -/
def Conflicts (marker : String) (a : Aggregates) (path : String) : Prop :=
  path ∈ (a.groupBy.getD []).map (Spelling.plain marker) ∧
    path ∈ (a.calls.map Prod.snd).map (Spelling.plain marker)

theorem contains_map_iff {f : String → String} :
    (a.map f).contains path = true ↔ path ∈ (a.calls.map Prod.snd).map f := by
  rw [contains_iff, called_map]

theorem normalize_of_grouped (hgroup : a.groupBy.getD [] ≠ [])
    (hapart : ∀ path, ¬ a.Conflicts marker path) :
    a.normalize marker selected = .ok (some (a.map (Spelling.plain marker))) := by
  have hplain : (a.map (Spelling.plain marker)).groupBy =
      some ((a.groupBy.getD []).map (Spelling.plain marker)) :=
    groupBy_map_eq_some_iff.mpr ⟨by simpa using hgroup, rfl⟩
  have hnone : ((a.groupBy.getD []).map (Spelling.plain marker)).find?
      (a.map (Spelling.plain marker)).contains = none :=
    List.find?_eq_none.mpr fun path hpath hcontains =>
      hapart path ⟨hpath, contains_map_iff.mp hcontains⟩
  unfold normalize
  simp only [hplain, hnone]
  rfl

/-- A conflict is a fault, which names it. -/
theorem normalize_of_conflicts (selected : List String) (hconflict : a.Conflicts marker path) :
    ∃ found, a.Conflicts marker found ∧
      a.normalize marker selected = .error (.aggregateConflict found) := by
  have hne : (a.groupBy.getD []).map (Spelling.plain marker) ≠ [] := List.ne_nil_of_mem hconflict.1
  have hplain : (a.map (Spelling.plain marker)).groupBy =
      some ((a.groupBy.getD []).map (Spelling.plain marker)) :=
    groupBy_map_eq_some_iff.mpr ⟨hne, rfl⟩
  have hsome :
      ((a.groupBy.getD []).map (Spelling.plain marker)).find?
        (a.map (Spelling.plain marker)).contains ≠ none := by
    rw [ne_eq, List.find?_eq_none, not_forall]
    exact ⟨path, fun h => h hconflict.1 (contains_map_iff.mpr hconflict.2)⟩
  obtain ⟨found, hfound⟩ := Option.ne_none_iff_exists'.mp hsome
  refine ⟨found, ⟨List.mem_of_find?_eq_some hfound, contains_map_iff.mp (List.find?_some hfound)⟩,
    ?_⟩
  unfold normalize
  simp only [hplain, hfound]
  rfl

theorem normalize_of_ungrouped (hgroup : a.groupBy.getD [] = []) :
    a.normalize marker selected =
      .ok (if a.calls = [] then none
        else some ((a.map (Spelling.plain marker)).groupedBySelection selected)) := by
  have hplain : (a.map (Spelling.plain marker)).groupBy = none := groupBy_map_eq_none_iff.mpr hgroup
  unfold normalize
  simp only [hplain]
  by_cases hcalls : a.calls = []
  · simp [hasFunctions, calls_map, hcalls]
  · simp [hasFunctions, calls_map, hcalls]

/-! ## The normal form -/

/-- Settled aggregates and the ones that were sent: the functions are applied to the same fields in
plain spelling, no path is grouped by and aggregated, and a grouping is there only if there is
something to group by.  It is the one that was sent, if it was not empty, and holds the selected
fields that are not aggregated otherwise. -/
structure IsNormalFormOf (marker : String) (selected : List String) (a n : Aggregates) : Prop where
  functions : ∀ fn, n.paths fn = (a.paths fn).map (Spelling.plain marker)
  plain : ∀ path ∈ n.groupBy.getD [] ++ n.calls.map Prod.snd, Spelling.plain marker path = path
  nonempty : n.groupBy ≠ some []
  disjoint : List.Disjoint (n.groupBy.getD []) (n.calls.map Prod.snd)
  explicit : ∀ group, a.groupBy = some group → group ≠ [] →
    n.groupBy = some (group.map (Spelling.plain marker))
  derived : a.groupBy.getD [] = [] → n.groupBy.getD [] = selected.filter (· ∉ n.calls.map Prod.snd)

theorem groupBy_eq_none_iff (hnonempty : n.groupBy ≠ some []) :
    n.groupBy.getD [] = [] ↔ n.groupBy = none := by
  cases hgroup : n.groupBy with
  | none => simp
  | some group => simpa [hgroup] using hnonempty

theorem map_eq_self {f : String → String}
    (hf : ∀ path ∈ n.groupBy.getD [] ++ n.calls.map Prod.snd, f path = path)
    (hnonempty : n.groupBy ≠ some []) : n.map f = n := by
  rw [List.forall_mem_append] at hf
  refine eq_of_paths (fun fn => ?_) ?_
  · rw [paths_map]
    refine (List.map_congr_left fun path hpath => ?_).trans (List.map_id _)
    exact hf.2 path (List.mem_map.mpr ⟨(fn, path), mem_calls_iff.mpr hpath, rfl⟩)
  · by_cases hgroup : n.groupBy.getD [] = []
    · rw [groupBy_map_eq_none_iff.mpr hgroup, (groupBy_eq_none_iff hnonempty).mp hgroup]
    · cases hsome : n.groupBy with
      | none => simp [hsome] at hgroup
      | some group =>
          rw [hsome, Option.getD_some] at hgroup hf
          refine groupBy_map_eq_some_iff.mpr ⟨hgroup, ?_⟩
          rw [hsome, Option.getD_some]
          exact (List.map_congr_left hf.1).trans (List.map_id _)

theorem calls_groupedBySelection (a : Aggregates) (selected : List String) :
    (a.groupedBySelection selected).calls = a.calls :=
  calls_congr fun fn => by cases fn <;> rfl

theorem groupBy_groupedBySelection (a : Aggregates) (selected : List String) :
    (a.groupedBySelection selected).groupBy ≠ some [] ∧
      (a.groupedBySelection selected).groupBy.getD [] =
        selected.filter (· ∉ a.calls.map Prod.snd) := by
  have hfilter : selected.filter (!a.contains ·) = selected.filter (· ∉ a.calls.map Prod.snd) := by
    refine List.filter_congr fun path _ => ?_
    rw [Bool.eq_iff_iff, Bool.not_eq_true', decide_eq_true_iff, ← contains_iff, Bool.not_eq_true]
  unfold groupedBySelection
  dsimp only
  rw [hfilter]
  cases selected.filter (· ∉ a.calls.map Prod.snd) with
  | nil => exact ⟨by simp, rfl⟩
  | cons first rest => exact ⟨by simp, rfl⟩

/-- Aggregates in normal form stay as they are. -/
theorem IsNormalFormOf.normalize_eq_self (hn : IsNormalFormOf marker selected a n)
    (hasks : a.calls ≠ [] ∨ a.groupBy.getD [] ≠ []) :
    n.normalize marker selected = .ok (some n) := by
  have hsame : n.map (Spelling.plain marker) = n := map_eq_self hn.plain hn.nonempty
  by_cases hgroup : n.groupBy.getD [] = []
  · -- nothing was left to group by, and nothing is
    have hsent : a.groupBy.getD [] = [] := by
      cases hsent : a.groupBy with
      | none => rfl
      | some group =>
          rw [Option.getD_some]
          by_contra hne
          simp [hn.explicit group hsent hne, hne] at hgroup
    have hcalls : n.calls ≠ [] := by
      have hcalls : n.calls = (a.map (Spelling.plain marker)).calls :=
        calls_congr fun fn => (hn.functions fn).trans (paths_map _ a fn).symm
      simpa [hcalls, calls_map, hsent] using hasks
    have hselected := groupBy_groupedBySelection n selected
    rw [normalize_of_ungrouped hgroup, if_neg hcalls, hsame]
    refine congrArg _ (congrArg _ (eq_of_paths (fun fn => by cases fn <;> rfl) ?_))
    rw [(groupBy_eq_none_iff hn.nonempty).mp hgroup, ← groupBy_eq_none_iff hselected.1, hselected.2,
      ← hn.derived hsent, hgroup]
  · rw [normalize_of_grouped hgroup, hsame]
    rintro path ⟨hgrouped, haggregated⟩
    have hplain := hn.plain
    rw [List.forall_mem_append] at hplain
    rw [(List.map_congr_left hplain.1).trans (List.map_id _)] at hgrouped
    rw [(List.map_congr_left hplain.2).trans (List.map_id _)] at haggregated
    exact hn.disjoint hgrouped haggregated

/-! ## Both together -/

/-- A grouping that was sent, in plain spelling. -/
theorem isNormalFormOf_of_grouped (hgroup : a.groupBy.getD [] ≠ [])
    (hapart : ∀ path, ¬ a.Conflicts marker path) :
    IsNormalFormOf marker selected a (a.map (Spelling.plain marker)) := by
  have hplain : (a.map (Spelling.plain marker)).groupBy =
      some ((a.groupBy.getD []).map (Spelling.plain marker)) :=
    groupBy_map_eq_some_iff.mpr ⟨by simpa using hgroup, rfl⟩
  refine ⟨paths_map _ a, ?_, ?_, ?_, ?_, fun hnone => absurd hnone hgroup⟩
  · rw [hplain, called_map, Option.getD_some, ← List.map_append, List.forall_mem_map]
    exact fun path _ => Spelling.plain_plain marker path
  · simp [hplain, hgroup]
  · rw [hplain, called_map, Option.getD_some]
    exact fun path hgrouped haggregated => hapart path ⟨hgrouped, haggregated⟩
  · intro group hsent _
    rw [hplain, hsent, Option.getD_some]

/-- A grouping by the selected fields. -/
theorem isNormalFormOf_of_ungrouped
    (hselected : ∀ path ∈ selected, Spelling.plain marker path = path)
    (hgroup : a.groupBy.getD [] = []) :
    IsNormalFormOf marker selected a
      ((a.map (Spelling.plain marker)).groupedBySelection selected) := by
  obtain ⟨hnonempty, hderived⟩ :=
    groupBy_groupedBySelection (a.map (Spelling.plain marker)) selected
  have hcalls := calls_groupedBySelection (a.map (Spelling.plain marker)) selected
  refine ⟨fun fn => ?_, ?_, hnonempty, ?_, ?_, fun _ => ?_⟩
  · cases fn <;> rfl
  · rw [hderived, hcalls, called_map, List.forall_mem_append, List.forall_mem_map]
    exact ⟨fun path hpath => hselected path (List.mem_filter.mp hpath).1,
      fun path _ => Spelling.plain_plain marker path⟩
  · rw [hderived, hcalls]
    intro path hgrouped haggregated
    exact of_decide_eq_true (List.mem_filter.mp hgrouped).2 haggregated
  · intro group hsent hne
    simp [hsent, hne] at hgroup
  · rw [hderived, hcalls]

/-- Aggregates are settled into their normal form, in which they stay, unless nothing is asked for
or a path is both grouped by and aggregated. -/
theorem normalForm_of_normalize (hselected : ∀ path ∈ selected, Spelling.plain marker path = path)
    (a : Aggregates) :
    (a.normalize marker selected = .ok none ↔
      a.calls = [] ∧ (a.groupBy = none ∨ a.groupBy = some [])) ∧
      (∀ n, a.normalize marker selected = .ok (some n) →
        IsNormalFormOf marker selected a n ∧ n.normalize marker selected = .ok (some n)) ∧
      ((∃ fault, a.normalize marker selected = .error fault) ↔ ∃ path, a.Conflicts marker path) ∧
      ∀ fault, a.normalize marker selected = .error fault →
        ∃ path, a.Conflicts marker path ∧ fault = .aggregateConflict path := by
  have hempty : a.groupBy.getD [] = [] ↔ a.groupBy = none ∨ a.groupBy = some [] := by
    cases a.groupBy <;> simp
  rw [← hempty]
  by_cases hgroup : a.groupBy.getD [] = []
  -- without a path to group by nothing can conflict, and only an empty request settles to nothing
  · have hapart : ¬ ∃ path, a.Conflicts marker path := by
      rintro ⟨path, hgrouped, -⟩
      simp [hgroup] at hgrouped
    rw [normalize_of_ungrouped hgroup]
    refine ⟨by simp [hgroup], fun n hn => ?_, iff_of_false (by simp) hapart, by simp⟩
    by_cases hcalls : a.calls = []
    · simp [hcalls] at hn
    · rw [if_neg hcalls, Except.ok.injEq, Option.some.injEq] at hn
      have hform : IsNormalFormOf marker selected a n :=
        hn ▸ isNormalFormOf_of_ungrouped hselected hgroup
      exact ⟨hform, hform.normalize_eq_self (.inl hcalls)⟩
  · by_cases hconflict : ∃ path, a.Conflicts marker path
    · obtain ⟨path, hpath⟩ := hconflict
      -- the fault names the first conflict in order, which may be another than the given one
      obtain ⟨found, hfound, hfault⟩ := normalize_of_conflicts selected hpath
      rw [hfault]
      refine ⟨by simp [hgroup], by simp, iff_of_true ⟨_, rfl⟩ ⟨path, hpath⟩,
        fun fault h => ⟨found, hfound, ?_⟩⟩
      exact (Except.error.inj h).symm
    · rw [not_exists] at hconflict
      rw [normalize_of_grouped hgroup hconflict]
      refine ⟨by simp [hgroup], fun n hn => ?_, iff_of_false (by simp) (not_exists.mpr hconflict),
        by simp⟩
      rw [Except.ok.injEq, Option.some.injEq] at hn
      have hform : IsNormalFormOf marker selected a n :=
        hn ▸ isNormalFormOf_of_grouped hgroup hconflict
      exact ⟨hform, hform.normalize_eq_self (.inr hgroup)⟩

/-- Prices are added up by the category, which is selected with them. -/
theorem normalForm_of_normalize_prices :
    (∀ path ∈ ["category", "price"], Spelling.plain "data" path = path) ∧
      ∃ n, ({ empty with sum := ["data.price"] } : Aggregates).normalize "data" ["category",
        "price"] = .ok (some n) ∧
        n.sum = ["price"] ∧ n.groupBy = some ["category"] ∧
        n.normalize "data" ["category", "price"] = .ok (some n) := by
  have hselected : ∀ path ∈ ["category", "price"], Spelling.plain "data" path = path := by decide
  have hnormalize : ({ empty with sum := ["data.price"] } : Aggregates).normalize "data"
      ["category", "price"] =
      .ok (some { empty with sum := ["price"], groupBy := some ["category"] }) := rfl
  obtain ⟨-, hform, -⟩ := normalForm_of_normalize hselected { empty with sum := ["data.price"] }
  exact ⟨hselected, _, hnormalize, rfl, rfl, (hform _ hnormalize).2⟩

end EntityQuery.Aggregates
