/-
# Events by their names

What `_merge` makes of the events of one name, and what a scenario makes of it: the event stays or is
dropped, and has the ranges that are added under its name.
-/
import Mathlib.Data.List.Perm.Subperm
import Apowerb.Forecast.Reading

namespace Apowerb.Forecast

variable {c : Checker} {raw : Value} {what : String} {spans : List Span}

/-! ## 1. Events by their names -/

theorem nodup_eraseDups (l : List String) : l.eraseDups.Nodup := by
  match l with
  | [] => exact List.nodup_nil
  | a :: rest =>
    have hless : (rest.filter fun b => !b == a).length ≤ rest.length := List.length_filter_le _ _
    have ih := nodup_eraseDups (rest.filter fun b => !b == a)
    rw [List.eraseDups_cons, List.nodup_cons]
    refine ⟨fun ha => ?_, ih⟩
    rw [List.mem_eraseDups, List.mem_filter] at ha
    simp at ha
termination_by l.length
decreasing_by
  simp only [List.length_cons]
  omega

variable {events : List Event} {e : Event} {name : String}

theorem mem_names : name ∈ names events ↔ ∃ e ∈ events, e.name = name := by
  rw [names, List.mem_eraseDups, List.mem_map]

theorem find_name (h : find events name = some e) : e ∈ events ∧ e.name = name := by
  refine ⟨List.mem_of_find?_eq_some h, ?_⟩
  simpa using List.find?_some h

theorem find_eq_none : find events name = none ↔ ∀ e ∈ events, e.name ≠ name := by
  unfold find
  simp

/-- The events have each a name of its own. -/
def Distinct (events : List Event) : Prop := (events.map (·.name)).Nodup

/-- Then an event is told by its name. -/
theorem find_of_mem (h : Distinct events) (he : e ∈ events) : find events e.name = some e := by
  induction events with
  | nil => cases he
  | cons f rest ih =>
    obtain ⟨hf, hrest⟩ := List.nodup_cons.mp h
    unfold find
    rcases List.mem_cons.mp he with rfl | he
    · rw [List.find?_cons_of_pos (by simp)]
    · have hne : f.name ≠ e.name := fun heq => hf (List.mem_map.mpr ⟨e, he, heq.symm⟩)
      rw [List.find?_cons_of_neg (by simpa using hne)]
      exact ih hrest he

/-- What `_merge` makes of the events of a name. -/
def mergedOf (events : List Event) (first : Event) : Event :=
  { first with
    ranges := sortedSpans ((events.filter (·.name = first.name)).flatMap (·.ranges)) }

theorem merge_eq (events : List Event) : merge events =
    (names events).filterMap fun name => (find events name).map (mergedOf events) := by
  unfold merge
  refine List.filterMap_congr fun name _ => ?_
  cases hfind : find events name with
  | none => rfl
  | some first =>
    obtain ⟨-, rfl⟩ := find_name hfind
    rfl

theorem distinct_merge (events : List Event) : Distinct (merge events) := by
  have hnames : (merge events).map (·.name) = names events := by
    rw [merge_eq, List.map_filterMap]
    have hsome : ∀ name ∈ names events,
        ((find events name).map (mergedOf events)).map (·.name) = some name := by
      intro name hname
      obtain ⟨e, he, rfl⟩ := mem_names.mp hname
      cases hfind : find events e.name with
      | none => exact absurd rfl (find_eq_none.mp hfind e he)
      | some first => exact congrArg some (find_name hfind).2
    rw [List.filterMap_congr hsome, List.filterMap_some]
  unfold Distinct
  rw [hnames]
  exact nodup_eraseDups _

/-- **An event of the merge**: one of its name, with the ranges of all of its name. -/
theorem mem_merge (h : e ∈ merge events) :
    ∃ first ∈ events, e = mergedOf events first := by
  rw [merge_eq, List.mem_filterMap] at h
  obtain ⟨name, -, h⟩ := h
  cases hfind : find events name with
  | none =>
    rw [hfind] at h
    cases h
  | some first =>
    rw [hfind] at h
    cases h
    exact ⟨first, (find_name hfind).1, rfl⟩

/-! ## 2. The events of a scenario -/

/-- The events that `with` adds: those that are read, and are known. -/
def added (c : Checker) (base : List Event) (items : List Value) : List Event :=
  (items.filterMap fun raw => (c.event raw "").1).filter fun e => (find base e.name).isSome

theorem additions_eq (c : Checker) (base : List Event) (what : String) (j : Nat)
    (items : List Value) (future : List Event) :
    (c.additions base what j items future).1 = (added c base items).foldl addTo future := by
  induction items generalizing j future with
  | nil => rfl
  | cons raw rest ih =>
    have hread := @event_what c raw (what ++ " ajout " ++ toString (j + 1)) ""
    unfold Checker.additions added
    rw [List.filterMap_cons, ← hread]
    cases hevent : c.event raw (what ++ " ajout " ++ toString (j + 1)) with
    | mk event rejected =>
      cases event with
      | none => exact ih (j + 1) future
      | some e =>
        dsimp only
        by_cases hbase : (find base e.name).isSome = true
        · rw [if_pos hbase, List.filter_cons, if_pos hbase]
          exact ih (j + 1) (addTo future e)
        · rw [if_neg hbase, List.filter_cons, if_neg hbase]
          exact ih (j + 1) future

/-- An event with the ranges of others. -/
def extended (f : Event) (more : List Event) : Event :=
  if more = [] then f else { f with ranges := sortedSpans (f.ranges ++ more.flatMap (·.ranges)) }

theorem extended_cons (f e : Event) (more : List Event) :
    extended { f with ranges := sortedSpans (f.ranges ++ e.ranges) } more = extended f (e :: more) := by
  unfold extended
  rw [if_neg (List.cons_ne_nil e more), List.flatMap_cons, ← List.append_assoc]
  split
  · rename_i hnone
    rw [hnone, List.flatMap_nil, List.append_nil]
  · have hall : sortedSpans (sortedSpans (f.ranges ++ e.ranges) ++ more.flatMap (·.ranges)) =
        sortedSpans (f.ranges ++ e.ranges ++ more.flatMap (·.ranges)) := by
      refine sortedSpans_congr fun s => ?_
      rw [List.mem_append, mem_sortedSpans, List.mem_append (s := f.ranges ++ e.ranges)]
    rw [hall]

/-- What becomes of the event of a name: the one that is kept, or else the first that is added,
with the ranges that are added under its name. -/
def futureOf (kept adds : List Event) (name : String) : Option Event :=
  let more := adds.filter (·.name = name)
  ((find kept name).or (more.head?.map fun e => { e with ranges := [] })).map (extended · more)

theorem find_cons (f : Event) (rest : List Event) (name : String) :
    find (f :: rest) name = if f.name = name then some f else find rest name := by
  unfold find
  by_cases h : f.name = name
  · rw [List.find?_cons_of_pos (by simpa using h), if_pos h]
  · rw [List.find?_cons_of_neg (by simpa using h), if_neg h]

theorem find_replace (events : List Event) (e : Event) (name : String) :
    find (events.map fun f => if f.name = e.name then e else f) name =
      if name = e.name then (find events name).map fun _ => e else find events name := by
  induction events with
  | nil => simp [find]
  | cons f rest ih =>
    rw [List.map_cons, find_cons, find_cons, ih]
    by_cases hf : f.name = e.name
    · rw [if_pos hf]
      by_cases hname : name = e.name
      · rw [hname, if_pos rfl, if_pos rfl, if_pos hf]
        rfl
      · rw [if_neg (Ne.symm hname), if_neg hname, if_neg hname, hf, if_neg (Ne.symm hname)]
    · rw [if_neg hf]
      by_cases hname : name = e.name
      · rw [hname, if_neg hf, if_pos rfl, if_pos rfl, if_neg hf]
      · rw [if_neg hname, if_neg hname]

theorem find_append (events more : List Event) (name : String) :
    find (events ++ more) name = (find events name).or (find more name) := List.find?_append

theorem find_setEvent (events : List Event) (e : Event) (name : String) :
    find (setEvent events e) name = if name = e.name then some e else find events name := by
  unfold setEvent
  split
  · rename_i hany
    rw [find_replace]
    split
    · rename_i hname
      obtain ⟨f, hf, hsame⟩ := List.any_eq_true.mp hany
      cases hfind : find events name with
      | none => exact absurd (hname ▸ of_decide_eq_true hsame) (find_eq_none.mp hfind f hf)
      | some g => rfl
    · rfl
  · rename_i hnone
    rw [find_append]
    split
    · rename_i hname
      have habsent : find events name = none := by
        refine find_eq_none.mpr fun f hf hsame => hnone ?_
        exact List.any_eq_true.mpr ⟨f, hf, decide_eq_true (hsame.trans hname)⟩
      rw [habsent, find_cons, if_pos hname.symm]
      rfl
    · rename_i hname
      rw [find_cons, if_neg (Ne.symm hname)]
      cases find events name <;> rfl

theorem find_addTo (future : List Event) (e : Event) (name : String) :
    find (addTo future e) name = if name = e.name then
      some { (find future e.name).getD { e with ranges := [] } with
        ranges := sortedSpans (((find future e.name).getD { e with ranges := [] }).ranges ++ e.ranges) }
      else find future name := by
  have hname : ((find future e.name).getD { e with ranges := [] }).name = e.name := by
    cases hfind : find future e.name with
    | none => rfl
    | some f => exact (find_name hfind).2
  unfold addTo
  dsimp only
  rw [find_setEvent]
  dsimp only
  rw [hname]

/-- **What becomes of an event**, where events are added to those that are kept. -/
theorem find_foldl (kept adds : List Event) (name : String) :
    find (adds.foldl addTo kept) name = futureOf kept adds name := by
  induction adds generalizing kept with
  | nil =>
    unfold futureOf
    cases hfind : find kept name with
    | none => simp [hfind]
    | some f => simp [hfind, extended]
  | cons e rest ih =>
    rw [List.foldl_cons, ih]
    unfold futureOf
    rw [find_addTo]
    by_cases hname : name = e.name
    · subst hname
      rw [if_pos rfl, List.filter_cons_of_pos (by simp)]
      cases find kept e.name with
      | none => exact congrArg some (extended_cons { e with ranges := [] } e _)
      | some f => exact congrArg some (extended_cons f e _)
    · rw [if_neg hname, List.filter_cons_of_neg (by simpa using Ne.symm hname)]

/-! ## 3. Its names -/

theorem distinct_setEvent (h : Distinct events) : Distinct (setEvent events e) := by
  unfold setEvent
  split
  · have hnames : (events.map fun f => if f.name = e.name then e else f).map (·.name) =
        events.map (·.name) := by
      rw [List.map_map]
      refine List.map_congr_left fun f _ => ?_
      dsimp only [Function.comp]
      split
      · rename_i hname
        exact hname.symm
      · rfl
    unfold Distinct
    rwa [hnames]
  · rename_i hnone
    unfold Distinct
    rw [List.map_append, List.nodup_append]
    refine ⟨h, List.nodup_singleton _, ?_⟩
    intro a ha b hb hsame
    obtain ⟨f, hf, rfl⟩ := List.mem_map.mp ha
    rw [List.map_singleton, List.mem_singleton] at hb
    exact hnone (List.any_eq_true.mpr ⟨f, hf, decide_eq_true (hsame.trans hb)⟩)

theorem distinct_foldl {kept adds : List Event} (h : Distinct kept) :
    Distinct (adds.foldl addTo kept) := by
  induction adds generalizing kept with
  | nil => exact h
  | cons e rest ih => exact ih (distinct_setEvent h)

theorem distinct_filter (h : Distinct events) (p : Event → Bool) : Distinct (events.filter p) :=
  h.sublist (List.filter_sublist.map _)

theorem nodup_of_distinct (h : Distinct events) : events.Nodup := List.Nodup.of_map _ h

/-! ## 4. The base, in a scenario -/

variable {base adds : List Event} {without : List String} {b : Event}

/-- The events of a scenario: those of the base that it does not drop, and what it adds. -/
def future (base : List Event) (without : List String) (adds : List Event) : List Event :=
  adds.foldl addTo (base.filter (·.name ∉ without))

/-- The ranges that an event of the base has in a scenario. -/
def spansOf (without : List String) (adds : List Event) (b : Event) : List Span :=
  (if b.name ∈ without then [] else b.ranges) ++
    (adds.filter (·.name = b.name)).flatMap (·.ranges)

theorem find_kept (h : Distinct base) (hb : b ∈ base) :
    find (base.filter (·.name ∉ without)) b.name = if b.name ∈ without then none else some b := by
  split
  · rename_i hdropped
    refine find_eq_none.mpr fun f hf hname => ?_
    have hkept := (List.mem_filter.mp hf).2
    rw [hname] at hkept
    exact of_decide_eq_true hkept hdropped
  · rename_i hkept
    exact find_of_mem (distinct_filter h _) (List.mem_filter.mpr ⟨hb, decide_eq_true hkept⟩)

/-- **What becomes of an event of the base.** -/
theorem find_future (h : Distinct base) (hb : b ∈ base) (hsorted : sortedSpans b.ranges = b.ranges) :
    find (future base without adds) b.name =
      (if b.name ∈ without then find adds b.name else some b).map fun f =>
        { f with ranges := sortedSpans (spansOf without adds b) } := by
  unfold future spansOf
  rw [find_foldl]
  unfold futureOf
  dsimp only
  rw [find_kept h hb, List.head?_filter]
  by_cases hdropped : b.name ∈ without
  · rw [if_pos hdropped, if_pos hdropped, if_pos hdropped]
    unfold find
    cases hfirst : adds.find? (·.name = b.name) with
    | none => rfl
    | some e =>
      obtain ⟨he, hname⟩ := find_name hfirst
      have hmore : adds.filter (·.name = b.name) ≠ [] :=
        List.ne_nil_of_mem (List.mem_filter.mpr ⟨he, decide_eq_true hname⟩)
      simp [extended, hmore]
  · rw [if_neg hdropped, if_neg hdropped, if_neg hdropped]
    refine congrArg some ?_
    unfold extended
    split
    · rename_i hnone
      rw [hnone, List.flatMap_nil, List.append_nil, hsorted]
    · rfl

theorem distinct_future (h : Distinct base) : Distinct (future base without adds) :=
  distinct_foldl (distinct_filter h _)

/-- An event of a scenario has the name of an event of the base. -/
theorem mem_future (h : Distinct base) (hadds : ∀ e ∈ adds, ∃ b ∈ base, b.name = e.name)
    (he : e ∈ future base without adds) :
    ∃ b ∈ base, b.name = e.name ∧ find (future base without adds) b.name = some e := by
  have hfind := find_of_mem (distinct_future h) he
  have hname : ∃ b ∈ base, b.name = e.name := by
    have hread := hfind
    unfold future at hread
    rw [find_foldl] at hread
    unfold futureOf at hread
    dsimp only at hread
    rw [List.head?_filter] at hread
    cases hkept : find (base.filter (·.name ∉ without)) e.name with
    | some f =>
      obtain ⟨hf, hname⟩ := find_name hkept
      exact ⟨f, (List.mem_filter.mp hf).1, hname⟩
    | none =>
      rw [hkept] at hread
      cases hfirst : adds.find? (·.name = e.name) with
      | none =>
        rw [hfirst] at hread
        cases hread
      | some f =>
        obtain ⟨hf, hname⟩ := find_name hfirst
        rw [← hname]
        exact hadds f hf
  obtain ⟨b, hb, hname⟩ := hname
  rw [← hname] at hfind
  exact ⟨b, hb, hname, hfind⟩

/-- The scenario leaves the event as it is: its groups, and its ranges. -/
def Leaves (without : List String) (adds : List Event) (b : Event) : Prop :=
  (b.name ∈ without → ∃ e, find adds b.name = some e ∧ e.groups = b.groups) ∧
    ∀ s, s ∈ spansOf without adds b ↔ s ∈ b.ranges

theorem leaves_iff (h : Distinct base) (hb : b ∈ base) (hsorted : sortedSpans b.ranges = b.ranges) :
    find (future base without adds) b.name = some b ↔ Leaves without adds b := by
  have hspans : sortedSpans (spansOf without adds b) = b.ranges ↔
      ∀ s, s ∈ spansOf without adds b ↔ s ∈ b.ranges := by
    constructor
    · intro heq s
      rw [← heq, mem_sortedSpans]
    · intro hsame
      rw [sortedSpans_congr hsame, hsorted]
  rw [find_future h hb hsorted]
  unfold Leaves
  rw [← hspans]
  by_cases hdropped : b.name ∈ without
  · rw [if_pos hdropped]
    cases hfirst : find adds b.name with
    | none => simp [hdropped]
    | some e =>
      have hname := (find_name hfirst).2
      obtain ⟨name, ranges, groups⟩ := b
      simp only [Option.map_some, Option.some.injEq, Event.mk.injEq, hdropped, forall_const,
        exists_eq_left']
      constructor
      · rintro ⟨-, hranges, hgroups⟩
        exact ⟨hgroups, hranges⟩
      · rintro ⟨hgroups, hranges⟩
        exact ⟨hname, hranges, hgroups⟩
  · rw [if_neg hdropped]
    obtain ⟨name, ranges, groups⟩ := b
    simp only [Option.map_some, Option.some.injEq, Event.mk.injEq, true_and, and_true]
    constructor
    · intro hranges
      exact ⟨fun hmem => absurd hmem hdropped, hranges⟩
    · rintro ⟨-, hranges⟩
      exact hranges

/-! ## 5. The base, changed or not -/

variable {events' : List Event}

/-- The events of one list are those of another. -/
theorem sameEvents_of_perm (h : Distinct events') (hperm : events.Perm events') :
    sameEvents events events' = true := by
  unfold sameEvents
  rw [Bool.and_eq_true, beq_iff_eq, List.all_eq_true]
  refine ⟨hperm.length_eq, fun e he => ?_⟩
  rw [find_of_mem h (hperm.mem_iff.mp he)]
  exact beq_self_eq_true _

theorem perm_of_sameEvents (h : Distinct events) (hsame : sameEvents events events' = true) :
    events.Perm events' := by
  unfold sameEvents at hsame
  rw [Bool.and_eq_true, beq_iff_eq, List.all_eq_true] at hsame
  obtain ⟨hlength, hall⟩ := hsame
  have hsub : events ⊆ events' := fun e he => (find_name (eq_of_beq (hall e he))).1
  exact (List.Nodup.subperm (nodup_of_distinct h) hsub).perm_of_length_le hlength.ge

/-- **A scenario changes nothing** exactly where it leaves each event of the base as it is. -/
theorem sameEvents_future_iff (h : Distinct base) (hadds : ∀ e ∈ adds, ∃ b ∈ base, b.name = e.name)
    (hsorted : ∀ b ∈ base, sortedSpans b.ranges = b.ranges) :
    sameEvents (future base without adds) base = true ↔ ∀ b ∈ base, Leaves without adds b := by
  have hfuture := @distinct_future base adds without h
  constructor
  · intro hsame b hb
    have hperm := perm_of_sameEvents hfuture hsame
    rw [← leaves_iff h hb (hsorted b hb)]
    exact find_of_mem hfuture (hperm.mem_iff.mpr hb)
  · intro hleaves
    have hfind : ∀ b ∈ base, find (future base without adds) b.name = some b := fun b hb =>
      (leaves_iff h hb (hsorted b hb)).mpr (hleaves b hb)
    refine sameEvents_of_perm h ?_
    refine (List.perm_ext_iff_of_nodup (nodup_of_distinct hfuture) (nodup_of_distinct h)).mpr ?_
    intro e
    constructor
    · intro he
      obtain ⟨b, hb, -, hread⟩ := mem_future h hadds he
      rw [hfind b hb] at hread
      cases hread
      exact hb
    · intro he
      exact (find_name (hfind e he)).1

/-- A scenario has no more events than the base. -/
theorem length_future_le (h : Distinct base) (hadds : ∀ e ∈ adds, ∃ b ∈ base, b.name = e.name) :
    (future base without adds).length ≤ base.length := by
  have hsub : (future base without adds).map (·.name) ⊆ base.map (·.name) := by
    intro name hname
    obtain ⟨e, he, rfl⟩ := List.mem_map.mp hname
    obtain ⟨b, hb, hsame, -⟩ := mem_future h hadds he
    exact List.mem_map.mpr ⟨b, hb, hsame⟩
  have hle := (List.Nodup.subperm (distinct_future h) hsub).length_le
  rwa [List.length_map, List.length_map] at hle

end Apowerb.Forecast
