/-
# What is read of a context

A range that is read lies in the period, an event that is read has few ranges and groups that are
known, and what is not read is put aside under what it is called.
-/
import Apowerb.Forecast.Context

namespace Apowerb.Forecast

/-! ## 1. Sorted ranges -/

/-- The order of ranges. -/
def spanLe (a b : Span) : Bool := a.1 < b.1 || (a.1 == b.1 && a.2 ≤ b.2)

theorem spanLe_trans (a b c : Span) (hab : spanLe a b = true) (hbc : spanLe b c = true) :
    spanLe a c = true := by
  simp only [spanLe, Bool.or_eq_true, Bool.and_eq_true, decide_eq_true_eq, beq_iff_eq] at *
  omega

theorem spanLe_total (a b : Span) : (spanLe a b || spanLe b a) = true := by
  simp only [spanLe, Bool.or_eq_true, Bool.and_eq_true, decide_eq_true_eq, beq_iff_eq]
  omega

theorem spanLe_antisymm {a b : Span} (hab : spanLe a b = true) (hba : spanLe b a = true) :
    a = b := by
  simp only [spanLe, Bool.or_eq_true, Bool.and_eq_true, decide_eq_true_eq, beq_iff_eq] at *
  exact Prod.ext (by omega) (by omega)

variable {spans more : List Span}

@[simp] theorem mem_sortedSpans {s : Span} : s ∈ sortedSpans spans ↔ s ∈ spans := by
  rw [sortedSpans, List.mem_mergeSort, List.mem_dedup]

theorem length_sortedSpans : (sortedSpans spans).length = spans.dedup.length :=
  List.length_mergeSort _

theorem length_sortedSpans_le : (sortedSpans spans).length ≤ spans.length := by
  rw [length_sortedSpans]
  exact (List.dedup_sublist spans).length_le

/-- **The sorted ranges are told by which they are.** -/
theorem sortedSpans_congr (h : ∀ s, s ∈ spans ↔ s ∈ more) : sortedSpans spans = sortedSpans more := by
  have hperm : (sortedSpans spans).Perm (sortedSpans more) := by
    refine (List.mergeSort_perm _ _).trans (.trans ?_ (List.mergeSort_perm _ _).symm)
    refine (List.perm_ext_iff_of_nodup (List.nodup_dedup _) (List.nodup_dedup _)).mpr fun s => ?_
    rw [List.mem_dedup, List.mem_dedup]
    exact h s
  have hsorted : ∀ l, (sortedSpans l).Pairwise fun a b => spanLe a b = true := fun l =>
    List.pairwise_mergeSort spanLe_trans spanLe_total l.dedup
  exact hperm.eq_of_pairwise (fun a b _ _ hab hba => spanLe_antisymm hab hba) (hsorted spans)
    (hsorted more)

theorem mem_sorted {g : String} {names : List String} : g ∈ Text.sorted names ↔ g ∈ names := by
  rw [Text.sorted, List.mem_insertionSort, List.mem_dedup]

@[simp] theorem sortedSpans_sortedSpans : sortedSpans (sortedSpans spans) = sortedSpans spans :=
  sortedSpans_congr fun _ => mem_sortedSpans

/-! ## 2. What is read -/

variable {c : Checker} {raw : Value} {what : String}

/-- The range lies in the period, and is not reversed. -/
def InPeriod (c : Checker) (s : Span) : Prop := c.lo ≤ s.1 ∧ s.1 ≤ s.2 ∧ s.2 ≤ c.hi

theorem span_inPeriod {s : Span} (h : (c.span raw what).1 = some s) : InPeriod c s := by
  unfold Checker.span at h
  split at h
  · split at h
    · split at h
      · cases h
      · split at h
        · cases h
        · rename_i hle hin
          cases h
          exact ⟨by omega, by omega, by omega⟩
    · cases h
  · cases h

/-- What is read of a range does not depend on what it is called. -/
theorem span_what (what' : String) : (c.span raw what).1 = (c.span raw what').1 := by
  unfold Checker.span
  split
  · split
    · split
      · rfl
      · split <;> rfl
    · rfl
  · rfl

/-- What is put aside with a range is the range. -/
theorem span_items {r : Rejection} (h : r ∈ (c.span raw what).2) : r.item = what := by
  unfold Checker.span aside at h
  split at h
  · split at h
    · split at h
      · rw [List.mem_singleton.mp h]
      · split at h
        · rw [List.mem_singleton.mp h]
        · cases h
    · rw [List.mem_singleton.mp h]
  · rw [List.mem_singleton.mp h]

theorem name_what (what' : String) : (Checker.name raw what).1 = (Checker.name raw what').1 := by
  unfold Checker.name
  split
  · split <;> rfl
  · rfl

theorem name_aside (h : (Checker.name raw what).1 = none) :
    ∃ reason, (Checker.name raw what).2 = [⟨what, reason⟩] := by
  cases raw with
  | str s =>
    unfold Checker.name at h ⊢
    dsimp only at h ⊢
    split
    · exact ⟨_, rfl⟩
    · rename_i hblank
      rw [if_neg hblank] at h
      cases h
  | _ => exact ⟨_, rfl⟩

/-- What is put aside is told of an element: by what it is called, and by its name after that. -/
def Tells (what : String) (r : Rejection) : Prop :=
  r.item = what ∨ (what ++ " « ").toList <+: r.item.toList

theorem tells_self (what reason : String) : Tells what ⟨what, reason⟩ := .inl rfl

theorem tells_named (what name after reason : String) :
    Tells what ⟨named what name ++ after, reason⟩ := by
  refine .inr ?_
  have hitem : named what name ++ after = what ++ " « " ++ (name ++ " »" ++ after) := by
    simp only [named, String.append_assoc]
  rw [hitem, String.toList_append (s := what ++ " « ")]
  exact List.prefix_append _ _

/-- What holds of an event that is read. -/
structure ReadEvent (c : Checker) (e : Event) : Prop where
  period : ∀ s ∈ e.ranges, InPeriod c s
  few : e.ranges.length ≤ maxRanges
  sorted : sortedSpans e.ranges = e.ranges
  groups : ∀ groups, e.groups = some groups → ∀ g ∈ groups, g ∈ c.groups

theorem namedEvent_read {d : Dict} {name : String} {e : Event}
    (h : (c.namedEvent d what name).1 = some e) : e.name = name ∧ ReadEvent c e := by
  unfold Checker.namedEvent at h
  split at h
  · cases h
  rename_i hfew
  dsimp only at h
  split at h
  · cases h
  split at h
  · cases h
  rename_i hknown
  cases h
  refine ⟨rfl, ?_, ?_, sortedSpans_sortedSpans, ?_⟩
  · intro s hs
    rw [mem_sortedSpans, List.mem_filterMap] at hs
    obtain ⟨read, hread, hs⟩ := hs
    unfold Checker.eventSpans at hread
    obtain ⟨i, hi, rfl⟩ := List.mem_mapIdx.mp hread
    exact span_inPeriod hs
  · refine (length_sortedSpans_le.trans (List.length_filterMap_le _ _)).trans ?_
    unfold Checker.eventSpans
    rw [List.length_mapIdx]
    omega
  · intro groups hgroups g hg
    split at hgroups
    · cases hgroups
    · cases hgroups
      by_contra hunknown
      refine hknown ?_
      have hmem : g ∈ Text.sorted ((Checker.eventGroups d).filter (· ∉ c.groups)) :=
        mem_sorted.mpr (List.mem_filter.mpr ⟨mem_sorted.mp hg, by simpa using hunknown⟩)
      exact List.ne_nil_of_mem hmem

/-- An event that is not read has its reason. -/
theorem namedEvent_aside {d : Dict} {name : String} (h : (c.namedEvent d what name).1 = none) :
    ∃ r ∈ (c.namedEvent d what name).2, Tells what r := by
  unfold Checker.namedEvent at h ⊢
  have htells : ∀ reason, Tells what ⟨named what name, reason⟩ := by
    intro reason
    have hnamed := tells_named what name "" reason
    rwa [String.append_empty] at hnamed
  split
  · exact ⟨_, List.mem_singleton_self _, htells _⟩
  rename_i hfew
  rw [if_neg hfew] at h
  dsimp only at h ⊢
  split
  · split
    · exact ⟨_, List.mem_singleton_self _, htells _⟩
    · -- No range was read, and something was put aside: it was a range.
      rename_i hreasons
      obtain ⟨r, hr⟩ := List.exists_mem_of_ne_nil _ hreasons
      refine ⟨r, hr, ?_⟩
      obtain ⟨read, hread, hr⟩ := List.mem_flatMap.mp hr
      unfold Checker.eventSpans at hread
      obtain ⟨i, hi, rfl⟩ := List.mem_mapIdx.mp hread
      have hitem : r.item = named what name ++ " plage " ++ toString (i + 1) := span_items hr
      have hrange := tells_named what name (" plage " ++ toString (i + 1)) r.reason
      rwa [← String.append_assoc, ← hitem] at hrange
  · rename_i hspans
    rw [if_neg hspans] at h
    split
    · exact ⟨_, List.mem_append_right _ (List.mem_singleton_self _), htells _⟩
    · rename_i hknown
      rw [if_neg hknown] at h
      cases h

theorem event_read {e : Event} (h : (c.event raw what).1 = some e) : ReadEvent c e := by
  cases raw with
  | dict d =>
    unfold Checker.event at h
    dsimp only at h
    cases hname : Checker.name (Dict.get d "name") what with
    | mk name rejected =>
      cases name with
      | none =>
        rw [hname] at h
        cases h
      | some name =>
        rw [hname] at h
        exact (namedEvent_read h).2
  | _ => cases h

/-- **An event that is not read has its reason.** -/
theorem event_aside (h : (c.event raw what).1 = none) : ∃ r ∈ (c.event raw what).2, Tells what r := by
  cases raw with
  | dict d =>
    unfold Checker.event at h ⊢
    dsimp only at h ⊢
    cases hname : Checker.name (Dict.get d "name") what with
    | mk name rejected =>
      cases name with
      | none =>
        obtain ⟨reason, hreason⟩ := name_aside (congrArg Prod.fst hname)
        rw [hname] at hreason
        dsimp only at hreason ⊢
        rw [hreason]
        exact ⟨_, List.mem_singleton_self _, tells_self what reason⟩
      | some name =>
        rw [hname] at h
        exact namedEvent_aside h
  | _ => exact ⟨_, List.mem_singleton_self _, tells_self what _⟩

theorem eventSpans_what (d : Dict) (what' : String) :
    (c.eventSpans d what).filterMap (·.1) = (c.eventSpans d what').filterMap (·.1) := by
  have hmap : (c.eventSpans d what).map (·.1) = (c.eventSpans d what').map (·.1) := by
    unfold Checker.eventSpans
    refine List.ext_getElem (by simp) fun i hi hi' => ?_
    simp only [List.getElem_map, List.getElem_mapIdx]
    exact span_what _
  have hread := congrArg (List.filterMap id) hmap
  rwa [List.filterMap_map, List.filterMap_map] at hread

/-- What is read of an event does not depend on what it is called. -/
theorem event_what (what' : String) : (c.event raw what).1 = (c.event raw what').1 := by
  cases raw with
  | dict d =>
    have hnamed : ∀ name, (c.namedEvent d what name).1 = (c.namedEvent d what' name).1 := by
      intro name
      unfold Checker.namedEvent
      split
      · rfl
      dsimp only
      rw [eventSpans_what d (named what' name)]
      split
      · rfl
      · split <;> rfl
    have hname := @name_what (Dict.get d "name") what what'
    unfold Checker.event
    dsimp only
    cases hread : Checker.name (Dict.get d "name") what with
    | mk name rejected =>
      cases hread' : Checker.name (Dict.get d "name") what' with
      | mk name' rejected' =>
        rw [hread, hread'] at hname
        cases hname
        cases name with
        | none => rfl
        | some name => exact hnamed name
  | _ => rfl

end Apowerb.Forecast
