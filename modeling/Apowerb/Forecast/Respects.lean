/-
# What the reading of a context keeps to

The result of `check` keeps to the period, the groups and the limits, and tells of every event of the
model.  It may not where a scenario adds ranges to an event that has many (`maxRanges` is asked of each
event as it is read, not of what becomes of it), and nothing is returned where an element of the answer
is not what the code goes through: `without`, `with` or `notes` a number, `adjustments` an object, a
number too large for a `float`.  `check_concludes_iff` says exactly where it does.
-/
import Apowerb.Forecast.Merged
import Apowerb.Lib.Except

namespace Apowerb.Forecast

/-! ## 1. What is asked of a result -/

/-- The checker of the known events: any date does. -/
def Checker.ofKnown (c : Checker) : Checker := ⟨1, Schedule.Iso.maxOrdinal, c.groups⟩

/-- The known events are valid: each is what is read of something. -/
def ValidKnown (c : Checker) (known : List Event) : Prop :=
  ∀ k ∈ known, ∃ raw what, (c.ofKnown.event raw what).1 = some k

/-- What is asked of an event. -/
structure Keeps (c : Checker) (known : List Event) (e : Event) : Prop where
  ranges : ∀ s ∈ e.ranges, InPeriod c s ∨ ∃ k ∈ known, k.name = e.name ∧ s ∈ k.ranges
  few : e.ranges.length ≤ maxRanges
  groups : ∀ groups, e.groups = some groups → ∀ g ∈ groups, g ∈ c.groups

/-- What is asked of a scenario, over a base. -/
structure KeepsScenario (c : Checker) (known base : List Event) (s : Scenario) : Prop where
  events : ∀ events, s.events = some events → ∀ e ∈ events, Keeps c known e
  fewEvents : ∀ events, s.events = some events → events.length ≤ maxEvents
  adjustments : ∀ a ∈ s.adjustments, InPeriod c a.span
  fewAdjustments : s.adjustments.length ≤ maxAdjustments
  differs : s.adjustments = [] → ∃ events, s.events = some events ∧ ¬ events.Perm base

/-- The base forecast: the events that are known, and those found. -/
def Checker.base (c : Checker) (known : List Event) (data : Dict) : List Event :=
  merge (known ++ c.found data)

/-- What is asked of a result.  No known event makes up for a range of an event that is found. -/
structure Respects (c : Checker) (known : List Event) (data : Dict) (r : Result) : Prop where
  events : ∀ e ∈ r.events, Keeps c [] e
  fewEvents : r.events.length ≤ maxEvents
  scenarios : ∀ s ∈ r.scenarios, KeepsScenario c known (c.base known data) s
  fewScenarios : r.scenarios.length ≤ maxScenarios
  fewNotes : r.notes.length ≤ 10
  told : ∀ i raw, (listOf (Dict.get data "events"))[i]? = some raw →
    (∃ e ∈ r.events, (c.event raw "").1 = some e) ∨
      ∃ rejection ∈ r.rejected, Tells ("événement " ++ toString (i + 1)) rejection

/-- `check` concludes: as it is documented to, or with a result that keeps to what is asked. -/
def Concludes (c : Checker) (known : List Event) (content : String)
    (out : Except Refused Result) : Prop :=
  (∀ e, out ≠ .error (.raised e)) ∧
    ∀ r, out = .ok r →
      ∃ data, Json.loads content.toList = some (.dict data) ∧ Respects c known data r

/-! ## 2. Where it holds -/

/-- An adjustment whose number is too large for a `float`. -/
def Huge (c : Checker) (raw : Value) : Prop :=
  ∃ d span key i, raw = .dict d ∧ (c.span raw "").1 = some span ∧ givenKeys d = [key] ∧
    Dict.get d key = .int i ∧ floatOverflow ≤ i.natAbs

/-- A scenario that can be gone through, and that leaves the base as it is, or no event of it with
too many ranges. -/
def ScenarioHolds (c : Checker) (base : List Event) (d : Dict) : Prop :=
  ∃ dropped adding adjusting, elements (Dict.get d "without") = .ok dropped ∧
    elements (Dict.get d "with") = .ok adding ∧
    sliced (Dict.get d "adjustments") maxAdjustments = .ok adjusting ∧
    (∀ raw ∈ adjusting, ¬ Huge c raw) ∧
    ((∀ b ∈ base, Leaves (withoutNames dropped) (added c base adding) b) ∨
      ∀ b ∈ base,
        (spansOf (withoutNames dropped) (added c base adding) b).dedup.length ≤ maxRanges)

/-- The text is one that Python reads, and the answer in it, where its events are not too many, has
notes and scenarios that can be gone through. -/
def HoldsWhen (limits : String → Option Raised) (content : String) (c : Checker)
    (known : List Event) : Prop :=
  limits content = none ∧
    ∀ data, Json.loads content.toList = some (.dict data) →
      (c.base known data).length ≤ maxEvents →
      (∃ notes, elements (Dict.get data "notes") = .ok notes) ∧
        ∀ d, .dict d ∈ (listOf (Dict.get data "scenarios")).take maxScenarios →
          (Checker.name (Dict.get d "name") "").1 ≠ none → ScenarioHolds c (c.base known data) d

/-! ## 3. The base -/

variable {c : Checker} {known base : List Event} {data d : Dict} {raw : Value} {what : String}

theorem mem_found {e : Event} (h : e ∈ c.found data) : ReadEvent c e := by
  unfold Checker.found Checker.events at h
  obtain ⟨read, hread, he⟩ := List.mem_filterMap.mp h
  obtain ⟨i, hi, rfl⟩ := List.mem_mapIdx.mp hread
  exact event_read he

/-- An event that is read keeps to what is asked. -/
theorem ReadEvent.keeps {e : Event} (h : ReadEvent c e) : Keeps c known e :=
  ⟨fun s hs => .inl (h.period s hs), h.few, h.groups⟩

/-- The base, as a scenario finds it. -/
structure Base (c : Checker) (known base : List Event) : Prop where
  distinct : Distinct base
  sorted : ∀ b ∈ base, sortedSpans b.ranges = b.ranges
  ranges : ∀ b ∈ base, ∀ s ∈ b.ranges, InPeriod c s ∨ ∃ k ∈ known, k.name = b.name ∧ s ∈ k.ranges
  groups : ∀ b ∈ base, ∀ groups, b.groups = some groups → ∀ g ∈ groups, g ∈ c.groups

theorem base_read (hknown : ValidKnown c known) : Base c known (c.base known data) where
  distinct := distinct_merge _
  sorted := by
    intro b hb
    obtain ⟨first, -, rfl⟩ := mem_merge hb
    exact sortedSpans_sortedSpans
  ranges := by
    intro b hb s hs
    obtain ⟨first, -, rfl⟩ := mem_merge hb
    unfold mergedOf at hs
    rw [mem_sortedSpans, List.mem_flatMap] at hs
    obtain ⟨e, he, hs⟩ := hs
    obtain ⟨he, hname⟩ := List.mem_filter.mp he
    rcases List.mem_append.mp he with he | he
    · exact .inr ⟨e, he, of_decide_eq_true hname, hs⟩
    · exact .inl ((mem_found he).period s hs)
  groups := by
    intro b hb
    obtain ⟨first, hfirst, rfl⟩ := mem_merge hb
    rcases List.mem_append.mp hfirst with hfirst | hfirst
    · obtain ⟨raw, what, hread⟩ := hknown first hfirst
      exact (event_read hread).groups
    · exact (mem_found hfirst).groups

theorem mem_added {adding : List Value} {e : Event} (h : e ∈ added c base adding) :
    ReadEvent c e ∧ ∃ b ∈ base, b.name = e.name := by
  unfold added at h
  obtain ⟨hread, hbase⟩ := List.mem_filter.mp h
  obtain ⟨raw, -, hread⟩ := List.mem_filterMap.mp hread
  obtain ⟨b, hb⟩ := Option.isSome_iff_exists.mp hbase
  exact ⟨event_read hread, b, find_name hb⟩

/-! ## 4. The events of a scenario -/

section Future

variable {without : List String} {adding : List Value}

/-- The ranges of an event of the base, in a scenario, come from the known events or were read. -/
theorem mem_spansOf (h : Base c known base) {b : Event} (hb : b ∈ base) {s : Span}
    (hs : s ∈ spansOf without (added c base adding) b) :
    InPeriod c s ∨ ∃ k ∈ known, k.name = b.name ∧ s ∈ k.ranges := by
  unfold spansOf at hs
  rcases List.mem_append.mp hs with hs | hs
  · split at hs
    · cases hs
    · exact h.ranges b hb s hs
  · obtain ⟨e, he, hs⟩ := List.mem_flatMap.mp hs
    exact .inl ((mem_added (List.mem_filter.mp he).1).1.period s hs)

/-- **An event of a scenario** keeps to what is asked of it exactly where its ranges are few. -/
theorem keeps_future_iff (h : Base c known base) :
    (∀ e ∈ future base without (added c base adding), Keeps c known e) ↔
      ∀ b ∈ base, (spansOf without (added c base adding) b).dedup.length ≤ maxRanges := by
  have hadds : ∀ e ∈ added c base adding, ∃ b ∈ base, b.name = e.name := fun e he => (mem_added he).2
  constructor
  · intro hkeeps b hb
    have hfind : find (future base without (added c base adding)) b.name = _ :=
      find_future h.distinct hb (h.sorted b hb)
    cases hfirst : if b.name ∈ without then find (added c base adding) b.name else some b with
    | some f =>
      rw [hfirst] at hfind
      have hfew := (hkeeps _ (find_name hfind).1).few
      rwa [length_sortedSpans] at hfew
    | none =>
      -- The event is dropped, and nothing is added to it.
      split at hfirst
      · rename_i hdropped
        have hnone : (added c base adding).filter (·.name = b.name) = [] :=
          List.filter_eq_nil_iff.mpr fun e he => by simpa using find_eq_none.mp hfirst e he
        unfold spansOf
        rw [if_pos hdropped, hnone]
        exact Nat.zero_le _
      · cases hfirst
  · intro hfew e he
    obtain ⟨b, hb, hname, hfind⟩ := mem_future h.distinct hadds he
    rw [find_future h.distinct hb (h.sorted b hb)] at hfind
    obtain ⟨f, hfirst, rfl⟩ := Option.map_eq_some_iff.mp hfind
    refine ⟨fun s hs => ?_, ?_, ?_⟩
    · rw [← hname]
      exact mem_spansOf h hb (mem_sortedSpans.mp hs)
    · rw [length_sortedSpans]
      exact hfew b hb
    · split at hfirst
      · exact (mem_added (find_name hfirst).1).1.groups
      · cases hfirst
        intro groups hgroups
        exact h.groups b hb groups hgroups

end Future

/-! ## 5. The adjustments of a scenario -/

theorem isFinite_raises_iff {v : Value} :
    (∃ b, isFinite v = .ok b) ↔ ¬ ∃ i, v = .int i ∧ floatOverflow ≤ i.natAbs := by
  unfold isFinite
  split
  · split
    · rename_i i hhuge
      exact ⟨nofun, fun h => absurd ⟨i, rfl, hhuge⟩ h⟩
    · rename_i i hsmall
      refine ⟨fun _ => ?_, fun _ => ⟨true, rfl⟩⟩
      rintro ⟨i', hi, hhuge⟩
      cases hi
      exact hsmall hhuge
  · exact ⟨fun _ => nofun, fun _ => ⟨_, rfl⟩⟩
  · rename_i hint _
    refine ⟨fun _ => ?_, fun _ => ⟨false, rfl⟩⟩
    rintro ⟨i, hi, -⟩
    exact hint i hi

theorem adjusted_returns_iff {key : String} {span : Span} :
    (∃ r, adjusted d what key span = .ok r) ↔ ∃ b, isFinite (Dict.get d key) = .ok b := by
  refine Except.bind_returns_iff fun finite => ?_
  split
  · split
    · exact ⟨_, rfl⟩
    · exact ⟨_, rfl⟩
  · exact ⟨_, rfl⟩

/-- **An adjustment raises** exactly where its number is too large for a `float`. -/
theorem adjustment_returns_iff : (∃ r, c.adjustment raw what = .ok r) ↔ ¬ Huge c raw := by
  have hwhat := @span_what c raw what ""
  unfold Checker.adjustment
  cases hread : c.span raw what with
  | mk span rejected =>
    rw [hread] at hwhat
    cases span with
    | none =>
      refine ⟨fun _ => ?_, fun _ => ⟨_, rfl⟩⟩
      rintro ⟨d, span, key, i, -, hspan, -⟩
      rw [← hwhat] at hspan
      cases hspan
    | some span =>
      cases raw with
      | dict d =>
        dsimp only
        split
        · rename_i key hkey
          rw [adjusted_returns_iff, isFinite_raises_iff, not_iff_not]
          constructor
          · rintro ⟨i, hi, hhuge⟩
            exact ⟨d, span, key, i, rfl, hwhat.symm, hkey, hi, hhuge⟩
          · rintro ⟨d', -, key', i, hd, -, hkey', hi, hhuge⟩
            cases hd
            rw [hkey] at hkey'
            cases hkey'
            exact ⟨i, hi, hhuge⟩
        · rename_i hkeys
          refine ⟨fun _ => ?_, fun _ => ⟨_, rfl⟩⟩
          rintro ⟨d', -, key, i, hd, -, hkey, -⟩
          cases hd
          exact hkeys key hkey
      | _ => cases hread

theorem adjusted_span {key : String} {span : Span} {a : Adjustment} {rejected : List Rejection}
    (h : adjusted d what key span = .ok (some a, rejected)) : a.span = span := by
  unfold adjusted at h
  obtain ⟨finite, -, h⟩ := Except.bind_eq_ok_iff.mp h
  split at h
  · split at h
    · cases h
    · cases h
      rfl
  · cases h

theorem adjustment_inPeriod {a : Adjustment} {rejected : List Rejection}
    (h : c.adjustment raw what = .ok (some a, rejected)) : InPeriod c a.span := by
  unfold Checker.adjustment at h
  split at h
  · rename_i span _ d hspan
    split at h
    · rw [adjusted_span h]
      exact span_inPeriod (congrArg Prod.fst hspan)
    · cases h
  · cases h

/-- The adjustments of a scenario, each as it is read. -/
def Checker.adjustments (c : Checker) (adjusting : List Value) (what : String) :
    Except Raised (List (Checked Adjustment)) :=
  adjusting.zipIdx.mapM fun (r, j) => c.adjustment r (what ++ " ajustement " ++ toString (j + 1))

theorem adjustments_return_iff {adjusting : List Value} :
    (∃ read, c.adjustments adjusting what = .ok read) ↔ ∀ raw ∈ adjusting, ¬ Huge c raw := by
  unfold Checker.adjustments
  rw [Except.mapM_returns_iff]
  constructor
  · intro h raw hraw
    obtain ⟨j, hj, rfl⟩ := List.mem_iff_getElem.mp hraw
    have hmem : (adjusting[j], j) ∈ adjusting.zipIdx :=
      List.mem_zipIdx_iff_getElem?.mpr (List.getElem?_eq_getElem hj)
    exact adjustment_returns_iff.mp (h _ hmem)
  · rintro h ⟨raw, j⟩ hmem
    exact adjustment_returns_iff.mpr (h raw (List.fst_mem_of_mem_zipIdx hmem))

theorem adjustments_length {adjusting : List Value} {read : List (Checked Adjustment)}
    (h : c.adjustments adjusting what = .ok read) : read.length = adjusting.length := by
  have hlength := Except.length_of_mapM h
  rwa [List.length_zipIdx] at hlength

theorem adjustments_inPeriod {adjusting : List Value} {read : List (Checked Adjustment)}
    (h : c.adjustments adjusting what = .ok read) {a : Adjustment} (ha : a ∈ read.filterMap (·.1)) :
    InPeriod c a.span := by
  obtain ⟨⟨_, rejected⟩, hr, rfl⟩ := List.mem_filterMap.mp ha
  obtain ⟨⟨raw, j⟩, -, hread⟩ := Except.exists_of_mem_mapM h hr
  exact adjustment_inPeriod hread

/-! ## 6. A scenario -/

theorem length_sliced {v : Value} {n : Nat} {items : List Value} (h : sliced v n = .ok items) :
    items.length ≤ n := by
  unfold sliced at h
  split at h
  · cases h
    exact List.length_take_le _ _
  · cases h
    rw [List.length_map]
    exact List.length_take_le _ _
  · cases h
  · cases h

/-- The scenario of these events and adjustments, if it changes anything. -/
def scenarioOf (name : String) (base events : List Event) (adjustments : List Adjustment) :
    Option Scenario :=
  if sameEvents events base = true ∧ adjustments = [] then none
  else some ⟨name, if sameEvents events base = true then none else some events, adjustments⟩

variable {name : String} {dropped adding adjusting : List Value} {read : List (Checked Adjustment)}

/-- **What is read of a scenario**, where its elements can be gone through. -/
theorem namedScenario_eq (hdropped : elements (Dict.get d "without") = .ok dropped)
    (hadding : elements (Dict.get d "with") = .ok adding)
    (hadjusting : sliced (Dict.get d "adjustments") maxAdjustments = .ok adjusting)
    (hread : c.adjustments adjusting ("scénario « " ++ name ++ " »") = .ok read) :
    ∃ rejected, c.namedScenario base d name = .ok (scenarioOf name base
      (future base (withoutNames dropped) (added c base adding)) (read.filterMap (·.1)), rejected) := by
  unfold Checker.adjustments at hread
  unfold Checker.namedScenario scenarioOf
  simp only [hdropped, hadding, hadjusting, hread, bind, Except.bind, additions_eq]
  unfold future
  cases sameEvents ((added c base adding).foldl addTo
    (base.filter (·.name ∉ withoutNames dropped))) base with
  | false => exact ⟨_, rfl⟩
  | true =>
    by_cases hnone : read.filterMap (·.1) = []
    · simp only [hnone]
      exact ⟨_, rfl⟩
    · simp only [hnone]
      exact ⟨_, rfl⟩

/-- A scenario that is read could be gone through. -/
theorem namedScenario_elements {r : Checked Scenario} (h : c.namedScenario base d name = .ok r) :
    ∃ dropped adding adjusting read, elements (Dict.get d "without") = .ok dropped ∧
      elements (Dict.get d "with") = .ok adding ∧
      sliced (Dict.get d "adjustments") maxAdjustments = .ok adjusting ∧
      c.adjustments adjusting ("scénario « " ++ name ++ " »") = .ok read := by
  unfold Checker.namedScenario at h
  obtain ⟨dropped, hdropped, h⟩ := Except.bind_eq_ok_iff.mp h
  obtain ⟨adding, hadding, h⟩ := Except.bind_eq_ok_iff.mp h
  obtain ⟨adjusting, hadjusting, h⟩ := Except.bind_eq_ok_iff.mp h
  obtain ⟨read, hread, -⟩ := Except.bind_eq_ok_iff.mp h
  exact ⟨dropped, adding, adjusting, read, hdropped, hadding, hadjusting, hread⟩

theorem scenarioOf_changed {events : List Event} {adjustments : List Adjustment}
    (h : ¬ sameEvents events base = true) :
    scenarioOf name base events adjustments = some ⟨name, some events, adjustments⟩ := by
  unfold scenarioOf
  rw [if_neg fun hnone => h hnone.1, if_neg h]

section Named

variable (h : Base c known base) (hfew : base.length ≤ maxEvents)
include h

theorem sameEvents_iff_leaves : sameEvents (future base (withoutNames dropped)
    (added c base adding)) base = true ↔
      ∀ b ∈ base, Leaves (withoutNames dropped) (added c base adding) b :=
  sameEvents_future_iff h.distinct (fun _ he => (mem_added he).2) h.sorted

include hfew

theorem scenarioOf_keeps {s : Scenario} (hread : c.adjustments adjusting what = .ok read)
    (hlength : adjusting.length ≤ maxAdjustments)
    (hholds : (∀ b ∈ base, Leaves (withoutNames dropped) (added c base adding) b) ∨
      ∀ b ∈ base, (spansOf (withoutNames dropped) (added c base adding) b).dedup.length ≤ maxRanges)
    (hs : scenarioOf name base (future base (withoutNames dropped) (added c base adding))
      (read.filterMap (·.1)) = some s) : KeepsScenario c known base s := by
  have hadjustments : ∀ a ∈ read.filterMap (·.1), InPeriod c a.span := fun a ha =>
    adjustments_inPeriod hread ha
  have hfewAdjustments : (read.filterMap (·.1)).length ≤ maxAdjustments :=
    (List.length_filterMap_le _ _).trans ((adjustments_length hread).trans_le hlength)
  by_cases hsame :
      sameEvents (future base (withoutNames dropped) (added c base adding)) base = true
  · unfold scenarioOf at hs
    split at hs
    · cases hs
    · rename_i hchanges
      cases hs
      exact ⟨nofun, nofun, hadjustments, hfewAdjustments,
        fun hnone => absurd ⟨hsame, hnone⟩ hchanges⟩
  · rw [scenarioOf_changed hsame] at hs
    cases hs
    have hspans := hholds.resolve_left fun hleaves => hsame ((sameEvents_iff_leaves h).mpr hleaves)
    refine ⟨?_, ?_, hadjustments, hfewAdjustments, fun _ => ⟨_, rfl, fun hperm => ?_⟩⟩
    · rintro events heq
      cases heq
      exact (keeps_future_iff h).mpr hspans
    · rintro events heq
      cases heq
      exact (length_future_le h.distinct fun _ he => (mem_added he).2).trans hfew
    · exact hsame (sameEvents_of_perm h.distinct hperm)

/-- **A scenario is read, and keeps to what is asked**, exactly where it holds. -/
theorem namedScenario_keeps_iff :
    (∃ r, c.namedScenario base d name = .ok r ∧ ∀ s, r.1 = some s → KeepsScenario c known base s) ↔
      ScenarioHolds c base d := by
  constructor
  · rintro ⟨r, hr, hkeeps⟩
    obtain ⟨dropped, adding, adjusting, read, hdropped, hadding, hadjusting, hread⟩ :=
      namedScenario_elements hr
    obtain ⟨rejected, heq⟩ := @namedScenario_eq c base d name dropped adding adjusting read hdropped
      hadding hadjusting hread
    rw [heq] at hr
    cases hr
    refine ⟨dropped, adding, adjusting, hdropped, hadding, hadjusting,
      adjustments_return_iff.mp ⟨read, hread⟩, ?_⟩
    by_cases hsame :
        sameEvents (future base (withoutNames dropped) (added c base adding)) base = true
    · exact .inl ((sameEvents_iff_leaves h).mp hsame)
    · have hevents := (hkeeps _ (scenarioOf_changed hsame)).events _ rfl
      exact .inr ((keeps_future_iff h).mp hevents)
  · rintro ⟨dropped, adding, adjusting, hdropped, hadding, hadjusting, hsmall, hholds⟩
    obtain ⟨read, hread⟩ := adjustments_return_iff.mpr hsmall
    obtain ⟨rejected, heq⟩ := @namedScenario_eq c base d name dropped adding adjusting read hdropped
      hadding hadjusting hread
    refine ⟨_, heq, fun s hs => ?_⟩
    exact scenarioOf_keeps h hfew hread (length_sliced hadjusting) hholds hs

theorem scenario_keeps_iff {i : Nat} :
    (∃ r, c.scenario base raw i = .ok r ∧ ∀ s, r.1 = some s → KeepsScenario c known base s) ↔
      ∀ d, raw = .dict d → (Checker.name (Dict.get d "name") "").1 ≠ none →
        ScenarioHolds c base d := by
  have haside : ∀ item reason, ∃ r : Checked Scenario,
      (.ok (aside item reason) : Except Raised (Checked Scenario)) = .ok r ∧
        ∀ s, r.1 = some s → KeepsScenario c known base s := fun item reason => ⟨_, rfl, nofun⟩
  cases raw with
  | dict d =>
    have hname := @name_what (Dict.get d "name") "" ("scénario " ++ toString (i + 1))
    unfold Checker.scenario
    dsimp only
    cases hread : Checker.name (Dict.get d "name") ("scénario " ++ toString (i + 1)) with
    | mk name rejected =>
      rw [hread] at hname
      cases name with
      | none =>
        refine ⟨fun _ d' hd hnamed => ?_, fun _ => ⟨_, rfl, nofun⟩⟩
        cases hd
        exact absurd hname hnamed
      | some name =>
        dsimp only
        rw [namedScenario_keeps_iff h hfew]
        constructor
        · intro hholds d' hd _
          cases hd
          exact hholds
        · intro hall
          refine hall d rfl ?_
          rw [hname]
          exact Option.some_ne_none name
  | _ =>
    refine ⟨fun _ d hd => ?_, fun _ => haside _ _⟩
    cases hd

end Named

/-! ## 7. The answer of the model -/

/-- The elements of a value are gone through, or nothing is returned. -/
theorem notesOf_returns_iff {v : Value} :
    (∃ notes, notesOf v = .ok notes) ↔ ∃ items, elements v = .ok items :=
  Except.bind_returns_iff fun _ => ⟨_, rfl⟩

theorem length_notesOf {v : Value} {notes : List String} (h : notesOf v = .ok notes) :
    notes.length ≤ 10 := by
  unfold notesOf at h
  obtain ⟨items, -, h⟩ := Except.bind_eq_ok_iff.mp h
  cases h
  exact List.length_take_le _ _

/-- The scenarios of an answer, each as it is read. -/
def Checker.scenarios (c : Checker) (known : List Event) (data : Dict) :
    Except Raised (List (Checked Scenario)) :=
  ((listOf (Dict.get data "scenarios")).take maxScenarios).zipIdx.mapM fun (raw, i) =>
    c.scenario (c.base known data) raw i

/-- **Every event of the model** is found, or has its reason. -/
theorem told_events {i : Nat} (h : (listOf (Dict.get data "events"))[i]? = some raw) :
    (∃ e ∈ c.found data, (c.event raw "").1 = some e) ∨
      ∃ rejection ∈ (c.events data).flatMap (·.2) ++ tooMany data,
        Tells ("événement " ++ toString (i + 1)) rejection := by
  obtain ⟨hi, rfl⟩ := List.getElem?_eq_some_iff.mp h
  by_cases hfew : i < maxEvents
  · have hread : c.event (listOf (Dict.get data "events"))[i] ("événement " ++ toString (i + 1)) ∈
        c.events data := by
      unfold Checker.events
      refine List.mem_mapIdx.mpr ⟨i, ?_, ?_⟩
      · rw [List.length_take]
        omega
      · rw [List.getElem_take]
    cases hevent : (c.event (listOf (Dict.get data "events"))[i]
        ("événement " ++ toString (i + 1))).1 with
    | some e =>
      refine .inl ⟨e, List.mem_filterMap.mpr ⟨_, hread, hevent⟩, ?_⟩
      rw [event_what ("événement " ++ toString (i + 1)), hevent]
    | none =>
      obtain ⟨r, hr, htells⟩ := event_aside hevent
      exact .inr ⟨r, List.mem_append_left _ (List.mem_flatMap.mpr ⟨_, hread, hr⟩), htells⟩
  · refine .inr ⟨⟨"événement " ++ toString (i + 1), _⟩, List.mem_append_right _ ?_,
      tells_self _ ("au plus " ++ toString maxEvents ++ " événements")⟩
    unfold tooMany
    refine List.mem_map.mpr ⟨i, List.mem_range'_1.mpr ⟨?_, ?_⟩, rfl⟩
    · omega
    · omega

theorem length_found_le : (c.found data).length ≤ maxEvents := by
  unfold Checker.found Checker.events
  refine (List.length_filterMap_le _ _).trans ?_
  rw [List.length_mapIdx]
  exact List.length_take_le _ _

/-- The result of what was read. -/
def Checker.resultOf (c : Checker) (data : Dict) (read : List (Checked Scenario))
    (notes : List String) : Result where
  events := c.found data
  scenarios := read.filterMap (·.1)
  rejected := (c.events data).flatMap (·.2) ++ tooMany data ++ read.flatMap (·.2)
  notes := notes
  offTopic := (Dict.get data "off_topic").truthy && c.found data = [] && read.filterMap (·.1) = []

theorem answer_eq : c.answer known data =
    if maxEvents < (c.base known data).length then .error (.tooManyEvents maxEvents)
    else (c.scenarios known data).mapError .raised >>= fun read =>
      (notesOf (Dict.get data "notes")).mapError .raised >>= fun notes =>
        .ok (c.resultOf data read notes) := rfl

/-- What is asked of each scenario of an answer. -/
theorem scenarios_keep_iff (h : Base c known (c.base known data))
    (hfew : (c.base known data).length ≤ maxEvents) :
    (∃ read, c.scenarios known data = .ok read ∧
        ∀ s ∈ read.filterMap (·.1), KeepsScenario c known (c.base known data) s) ↔
      ∀ d, .dict d ∈ (listOf (Dict.get data "scenarios")).take maxScenarios →
        (Checker.name (Dict.get d "name") "").1 ≠ none → ScenarioHolds c (c.base known data) d := by
  constructor
  · rintro ⟨read, hread, hkeeps⟩ d hd hname
    obtain ⟨i, hi, hraw⟩ := List.mem_iff_getElem.mp hd
    have hmem : (.dict d, i) ∈ ((listOf (Dict.get data "scenarios")).take maxScenarios).zipIdx :=
      List.mem_zipIdx_iff_getElem?.mpr (List.getElem?_eq_some_iff.mpr ⟨hi, hraw⟩)
    obtain ⟨r, hr, hscenario⟩ := Except.mem_of_mapM hread hmem
    refine (scenario_keeps_iff h hfew).mp ⟨r, hscenario, fun s hs => ?_⟩ d rfl hname
    exact hkeeps s (List.mem_filterMap.mpr ⟨r, hr, hs⟩)
  · intro hholds
    have hall : ∀ p ∈ ((listOf (Dict.get data "scenarios")).take maxScenarios).zipIdx,
        ∃ r, c.scenario (c.base known data) p.1 p.2 = .ok r ∧
          ∀ s, r.1 = some s → KeepsScenario c known (c.base known data) s := by
      rintro ⟨raw, i⟩ hp
      refine (scenario_keeps_iff h hfew).mpr fun d hd hname => hholds d ?_ hname
      rw [← hd]
      exact List.fst_mem_of_mem_zipIdx hp
    obtain ⟨read, hread⟩ := Except.mapM_returns_iff.mpr fun p hp => (hall p hp).imp fun _ hr => hr.1
    refine ⟨read, hread, fun s hs => ?_⟩
    obtain ⟨r, hr, hs⟩ := List.mem_filterMap.mp hs
    obtain ⟨p, hp, hscenario⟩ := Except.exists_of_mem_mapM hread hr
    obtain ⟨r', hr', hkeeps⟩ := hall p hp
    rw [hscenario] at hr'
    cases hr'
    exact hkeeps s hs

/-- A result keeps to what is asked, if its scenarios do. -/
theorem resultOf_respects {read : List (Checked Scenario)} {notes : List String}
    (hread : c.scenarios known data = .ok read)
    (hkeeps : ∀ s ∈ read.filterMap (·.1), KeepsScenario c known (c.base known data) s)
    (hnotes : notesOf (Dict.get data "notes") = .ok notes) :
    Respects c known data (c.resultOf data read notes) where
  events := fun _ he => (mem_found he).keeps
  fewEvents := length_found_le
  scenarios := hkeeps
  fewScenarios := by
    refine (List.length_filterMap_le _ _).trans ?_
    rw [Except.length_of_mapM hread, List.length_zipIdx]
    exact List.length_take_le _ _
  fewNotes := length_notesOf hnotes
  told := by
    intro i raw hraw
    refine (told_events hraw).imp_right ?_
    rintro ⟨r, hr, htells⟩
    exact ⟨r, List.mem_append_left _ hr, htells⟩

theorem answer_concludes_iff {content : String} (hknown : ValidKnown c known)
    (hloads : Json.loads content.toList = some (.dict data)) :
    Concludes c known content (c.answer known data) ↔
      ((c.base known data).length ≤ maxEvents →
        (∃ notes, elements (Dict.get data "notes") = .ok notes) ∧
          ∀ d, .dict d ∈ (listOf (Dict.get data "scenarios")).take maxScenarios →
            (Checker.name (Dict.get d "name") "").1 ≠ none →
              ScenarioHolds c (c.base known data) d) := by
  have hbase : Base c known (c.base known data) := base_read hknown
  rw [answer_eq]
  split
  · rename_i hmany
    exact ⟨fun _ hfew => absurd hmany (Nat.not_lt.mpr hfew), fun _ => ⟨nofun, nofun⟩⟩
  · rename_i hfew
    have hfew := Nat.le_of_not_lt hfew
    rw [← scenarios_keep_iff hbase hfew, ← notesOf_returns_iff]
    constructor
    · intro hconcludes _
      cases hread : c.scenarios known data with
      | error e =>
        rw [hread] at hconcludes
        exact absurd rfl (hconcludes.1 e)
      | ok read =>
        cases hnotes : notesOf (Dict.get data "notes") with
        | error e =>
          rw [hread, hnotes] at hconcludes
          exact absurd rfl (hconcludes.1 e)
        | ok notes =>
          rw [hread, hnotes] at hconcludes
          obtain ⟨data', hloads', hrespects⟩ := hconcludes.2 _ rfl
          rw [hloads] at hloads'
          cases hloads'
          exact ⟨⟨notes, rfl⟩, read, rfl, hrespects.scenarios⟩
    · intro hholds
      obtain ⟨⟨notes, hnotes⟩, read, hread, hkeeps⟩ := hholds hfew
      rw [hread, hnotes]
      refine ⟨nofun, fun r hr => ⟨data, hloads, ?_⟩⟩
      cases hr
      exact resultOf_respects hread hkeeps hnotes

theorem check_eq_answer {limits : String → Option Raised} {content : String}
    (hlimits : limits content = none) (hloads : Json.loads content.toList = some (.dict data)) :
    check limits content c known = c.answer known data := by
  unfold check
  rw [hlimits, hloads]

/-- **The reading of a context concludes, within its limits**, exactly where the answer of the model
can be gone through and its scenarios add few enough ranges. -/
theorem check_concludes_iff (limits : String → Option Raised) (content : String) (c : Checker)
    (known : List Event) (hknown : ValidKnown c known) :
    Concludes c known content (check limits content c known) ↔ HoldsWhen limits content c known := by
  unfold check HoldsWhen
  cases hlimits : limits content with
  | some e => exact ⟨fun h => absurd rfl (h.1 e), fun h => nomatch h.1⟩
  | none =>
    dsimp only
    cases hloads : Json.loads content.toList with
    | none => exact ⟨fun _ => ⟨rfl, nofun⟩, fun _ => ⟨nofun, nofun⟩⟩
    | some v =>
      cases v with
      | dict data =>
        dsimp only
        rw [answer_concludes_iff hknown hloads]
        constructor
        · intro hholds
          refine ⟨rfl, fun data' hdata => ?_⟩
          cases hdata
          exact hholds
        · rintro ⟨-, hholds⟩
          exact hholds data rfl
      | _ => exact ⟨fun _ => ⟨rfl, nofun⟩, fun _ => ⟨nofun, nofun⟩⟩

/-- The first ten days, and no group. -/
def tenDays : Checker := ⟨1, 10, []⟩

/-- An event of the second day. -/
def secondDay : Event := ⟨"promo", [(2, 2)], none⟩

theorem secondDay_valid : ValidKnown tenDays [secondDay] := by
  intro k hk
  rw [List.mem_singleton] at hk
  subst hk
  refine ⟨.dict [("name", .str "promo"), ("ranges", .list [.dict [("start", .str "0001-01-02")]])],
    "", ?_⟩
  decide +kernel

/-- The answer without anything, beside a known event. -/
theorem check_concludes_empty :
    Concludes tenDays [secondDay] "\x7b\x7d" (check (fun _ => none) "\x7b\x7d" tenDays [secondDay]) := by
  refine (check_concludes_iff _ _ _ _ secondDay_valid).mpr ⟨rfl, fun data hdata _ => ?_⟩
  have hempty : Json.loads "\x7b\x7d".toList = some (.dict []) := by decide +kernel
  rw [hempty] at hdata
  cases hdata
  refine ⟨⟨[], rfl⟩, fun d hd => ?_⟩
  cases hd

/-- A scenario whose `without` is a number. -/
def withoutNumber : Dict :=
  [("scenarios", .list [.dict [("name", .str "x"), ("without", .int 1)]])]

/-- Its text. -/
def withoutNumberText : String := "\x7b\"scenarios\":[\x7b\"name\":\"x\",\"without\":1\x7d]\x7d"

theorem withoutNumber_read : check (fun _ => none) withoutNumberText tenDays [] =
    tenDays.answer [] withoutNumber :=
  check_eq_answer rfl (by decide +kernel)

/-- **Its reading raises.** -/
theorem withoutNumber_raises :
    ¬ ∀ limits content c known, ValidKnown c known →
      Concludes c known content (check limits content c known) := by
  intro h
  have hknown : ValidKnown tenDays [] := fun k hk => absurd hk List.not_mem_nil
  have hraised : tenDays.answer [] withoutNumber = .error (.raised (.other "TypeError")) := by
    decide +kernel
  have hconcludes := h (fun _ => none) withoutNumberText tenDays [] hknown
  exact hconcludes.1 _ (withoutNumber_read.trans hraised)

end Apowerb.Forecast
