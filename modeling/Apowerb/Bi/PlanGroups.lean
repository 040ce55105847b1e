/-
# The groups of a replenishment plan

A group of a replenishment plan against the plan of its rows alone (`_replenishment_plan_step` of
`bi/spec/transforms.py`).  The rows that were in the frame never mix: a group is sorted, outlined and
written back on its own (`keptRows_alone`).

**The rows appended for the groups without a forecast are grouped once more, by the text of their
key.**  Two such groups with one text (a missing key and the text `nan`, or keys that hold a `|`) are
planned as one: the periods of the second go on counting where those of the first end.

* `independent_iff`: the groups do not mix exactly where no two of these have one text.
-/
import Apowerb.Bi.Plans
import Apowerb.Bi.Exact
import Apowerb.Lib.Except

namespace Apowerb.Bi.Transforms

open Series Lib

variable {V F : Type} [DecidableEq V] [Floats F]

/-! ## 1. What is relied on -/

/-- The values are sorted by a linear order, and whole numbers are told apart in a column. -/
structure Lawful (t : Tables V F) : Prop where
  total : ∀ a b, t.before a b = true ∨ t.before b a = true
  trans : ∀ a b c, t.before a b = true → t.before b c = true → t.before a c = true
  antisymm : ∀ a b, t.before a b = true → t.before b a = true → a = b
  injective : ∀ m n : ℕ, t.number (m : F) = t.number (n : F) → m = n
  number_nan : ∀ n : ℕ, t.number Floats.nan ≠ t.number (n : F)

variable {t : Tables V F}

theorem rowBefore_total (h : Lawful t) (columns : List String) (a b : Row V) :
    rowBefore t columns a b = true ∨ rowBefore t columns b a = true := by
  induction columns with
  | nil => exact .inl rfl
  | cons c columns ih =>
    simp only [rowBefore, List.map_cons, keysBefore]
    by_cases hab : a c = b c
    · rw [if_pos hab, if_pos hab.symm]
      exact ih
    · rw [if_neg hab, if_neg (Ne.symm hab)]
      exact h.total _ _

theorem rowBefore_trans (h : Lawful t) (columns : List String) {a b c : Row V}
    (hab : rowBefore t columns a b = true) (hbc : rowBefore t columns b c = true) :
    rowBefore t columns a c = true := by
  induction columns with
  | nil => rfl
  | cons col columns ih =>
    simp only [rowBefore, List.map_cons, keysBefore] at hab hbc ⊢
    by_cases hab' : a col = b col
    · rw [if_pos hab'] at hab
      rw [hab']
      by_cases hbc' : b col = c col
      · rw [if_pos hbc'] at hbc ⊢
        exact ih hab hbc
      · rw [if_neg hbc'] at hbc ⊢
        exact hbc
    · rw [if_neg hab'] at hab
      by_cases hbc' : b col = c col
      · rw [← hbc', if_neg hab']
        exact hab
      · rw [if_neg hbc'] at hbc
        have hne : a col ≠ c col := fun heq => hab' (h.antisymm _ _ hab (heq ▸ hbc))
        rw [if_neg hne]
        exact h.trans _ _ _ hab hbc

/-- The order of tagged rows. -/
theorem filter_sorted (h : Lawful t) {α : Type} (columns : List String) (row : α → Row V)
    (p : α → Bool) (l : List α) :
    (l.insertionSort fun a b => rowBefore t columns (row a) (row b) = true).filter p =
      (l.filter p).insertionSort fun a b => rowBefore t columns (row a) (row b) = true := by
  have _ : Std.Total fun a b => rowBefore t columns (row a) (row b) = true :=
    ⟨fun a b => rowBefore_total h columns (row a) (row b)⟩
  have _ : IsTrans α fun a b => rowBefore t columns (row a) (row b) = true :=
    ⟨fun _ _ _ => rowBefore_trans h columns⟩
  exact filter_insertionSort p l

/-! ## 2. A group alone -/

/-- The rows of a frame that are of a group. -/
def alone (t : Tables V F) (step : ReplenishmentPlan F) (df : Frame V) (g : List V) : Frame V :=
  ⟨df.columns, df.rows.filter fun r => step.key (prepareRow t step df r) = g⟩

/-- The dates of the rows of a group are read alone as they are read among the others: of dates that
are time stamps or of one format, this is so. -/
def ReadAlike (t : Tables V F) (step : ReplenishmentPlan F) (df : Frame V) : Prop :=
  ∀ g, ∀ r ∈ (alone t step df g).rows,
    prepareRow t step (alone t step df g) r = prepareRow t step df r

variable {step : ReplenishmentPlan F} {df : Frame V}

theorem planFrame_alone (h : Lawful t) (hread : ReadAlike t step df) (g : List V) :
    planFrame t step (alone t step df g) = groupRows step (planFrame t step df) g := by
  have hprepared : (alone t step df g).rows.map (prepareRow t step (alone t step df g)) =
      (df.rows.map (prepareRow t step df)).filter fun r => step.key r = g := by
    rw [List.map_congr_left (hread g), List.filter_map]
    rfl
  rw [planFrame, hprepared, groupRows, planFrame, sortedRows, sortedRows]
  exact (filter_sorted h step.sortColumns id _ _).symm

omit [Floats F] in
theorem groupRows_groupRows (rows : List (Row V)) (g : List V) :
    groupRows step (groupRows step rows g) g = groupRows step rows g := by
  rw [groupRows, groupRows, List.filter_filter]
  simp only [Bool.and_self]

/-- The rows that were in the frame do not mix. -/
theorem keptRows_alone (rows : List (Row V)) (g : List V) :
    keptRows t step (groupRows step rows g) =
      (keptRows t step rows).filter fun x => x.1 = g := by
  have hkey : ∀ r ∈ groupRows step rows g, step.key r = g := fun r hr => by
    simpa using (List.mem_filter.mp hr).2
  have hfilter : (keptRows t step rows).filter (fun x => x.1 = g) =
      ((scatter step.key (fun g => keptCells t step (keyText t g) (groupRows step rows g))
        rows).filter fun x => step.key x.1 = g).filterMap
          fun x => x.2.map fun cells => (step.key x.1, setAll x.1 cells) := by
    rw [keptRows, List.filter_filterMap, List.filterMap_filter]
    refine List.filterMap_congr fun x _ => ?_
    obtain ⟨r, cells⟩ := x
    cases cells with
    | none => simp
    | some cells => by_cases hr : step.key r = g <;> simp [hr, Option.filter]
  rw [hfilter, filter_scatter, keptRows, scatter_eq_zip hkey, groupRows_groupRows]
  rfl

/-! ## 3. The rows appended -/

/-- What is appended for a group. -/
def made (t : Tables V F) (step : ReplenishmentPlan F) (rows : List (Row V)) (g : List V) :
    List (Appended V F) :=
  (appendedRows t step g (groupRows step rows g)).result

/-- What is appended for all groups. -/
def madeAll (t : Tables V F) (step : ReplenishmentPlan F) (rows : List (Row V)) :
    List (Appended V F) :=
  (rows.map step.key).dedup.flatMap (made t step rows)

/-- The rows of the plan, once those appended are known. -/
def assembled (t : Tables V F) (step : ReplenishmentPlan F) (rows : List (Row V))
    (appended : List (Appended V F)) : List (List V × Row V) × Bool :=
  let kept := keptRows t step rows
  if appended.isEmpty then (kept, false)
  else ((kept ++ extraRows t step appended).insertionSort
    fun a b => rowBefore t step.sortColumns a.2 b.2 = true, true)

omit [Floats F] in
theorem groupRows_eq_nil {rows : List (Row V)} {g : List V}
    (h : g ∉ (rows.map step.key).dedup) : groupRows step rows g = [] := by
  rw [List.mem_dedup, List.mem_map] at h
  refine List.filter_eq_nil_iff.mpr fun r hr => ?_
  simpa using fun heq => h ⟨r, hr, heq⟩

/-- A plan is made where the rows of every group are appended. -/
theorem planRows_eq_ok {x : List (List V × Row V) × Bool} :
    planRows t step df = .ok x ↔
      (∀ g, appendedRows t step g (groupRows step (planFrame t step df) g) =
        .ok (made t step (planFrame t step df) g)) ∧
      x = assembled t step (planFrame t step df) (madeAll t step (planFrame t step df)) := by
  have hunfold : planRows t step df = (do
      let appended ← ((planFrame t step df).map step.key).dedup.mapM fun g =>
        appendedRows t step g (groupRows step (planFrame t step df) g)
      .ok (assembled t step (planFrame t step df) appended.flatten)) := by
    unfold planRows assembled
    dsimp only
    congr 1
    funext appended
    cases appended.flatten.isEmpty <;> rfl
  rw [hunfold, Except.bind_eq_ok_iff]
  constructor
  · rintro ⟨appended, happended, hx⟩
    obtain ⟨hall, rfl⟩ := Except.eq_map_of_mapM happended
    refine ⟨fun g => ?_, ?_⟩
    · by_cases hg : g ∈ ((planFrame t step df).map step.key).dedup
      · exact hall g hg
      · rw [made, groupRows_eq_nil hg]
        rfl
    · rw [madeAll, List.flatMap_def]
      exact (Except.ok.inj hx).symm
  · rintro ⟨hall, rfl⟩
    refine ⟨_, Except.mapM_eq_ok fun g _ => hall g, ?_⟩
    rw [madeAll, List.flatMap_def]

/-- What is appended for a group: a row for each period, of its key and its text, where its rows
have a stock and no forecast. -/
theorem made_spec {rows : List (Row V)} {g : List V} {a : Appended V F}
    (ha : a ∈ made t step rows g) :
    a.group = g ∧ a.text = keyText t g ∧ (made t step rows g).length = step.horizon ∧
      ∃ o, outline t step (groupRows step rows g) = some o ∧ o.future.isEmpty = true := by
  rw [made, appendedRows] at ha ⊢
  cases ho : outline t step (groupRows step rows g) with
  | none =>
    rw [ho] at ha
    cases ha
  | some o =>
    rw [ho] at ha
    dsimp only at ha ⊢
    by_cases hfuture : o.future.isEmpty = true
    · rw [if_pos hfuture] at ha ⊢
      cases hdates : futureDates t
          (((groupRows step rows g).take (o.last + 1)).map (· step.date)) step.horizon with
      | error e =>
        rw [hdates] at ha
        cases ha
      | ok dates =>
        rw [hdates] at ha
        obtain ⟨ts, -, rfl⟩ := List.mem_map.mp ha
        refine ⟨rfl, rfl, (List.length_map _).trans ?_, o, rfl, hfuture⟩
        unfold futureDates datesAfter at hdates
        dsimp only at hdates
        split at hdates
        · cases hdates
        · cases hdates
          rw [List.length_map, List.length_range]
    · rw [if_neg hfuture] at ha
      cases ha

theorem made_alone (rows : List (Row V)) (g : List V) :
    madeAll t step (groupRows step rows g) = made t step rows g := by
  have hmade : made t step (groupRows step rows g) g = made t step rows g := by
    rw [made, groupRows_groupRows, made]
  have hkeys : (groupRows step rows g).map step.key =
      List.replicate (groupRows step rows g).length g := by
    refine List.eq_replicate_iff.mpr ⟨List.length_map _, fun k hk => ?_⟩
    obtain ⟨r, hr, rfl⟩ := List.mem_map.mp hk
    simpa using (List.mem_filter.mp hr).2
  rw [madeAll, hkeys]
  by_cases hnil : (groupRows step rows g).length = 0
  · rw [hnil, made, List.length_eq_zero_iff.mp hnil]
    rfl
  · rw [List.replicate_dedup hnil, List.flatMap_singleton, hmade]

/-- **A group alone** is made where the whole plan is, from its own rows. -/
theorem planRows_alone (h : Lawful t) (hread : ReadAlike t step df)
    {x : List (List V × Row V) × Bool} (hok : planRows t step df = .ok x) (g : List V) :
    planRows t step (alone t step df g) =
      .ok (assembled t step (groupRows step (planFrame t step df) g)
        (made t step (planFrame t step df) g)) := by
  obtain ⟨hall, -⟩ := planRows_eq_ok.mp hok
  refine planRows_eq_ok.mpr ⟨fun k => ?_, ?_⟩
  · rw [planFrame_alone h hread]
    by_cases hk : k = g
    · subst hk
      rw [made, groupRows_groupRows, hall]
      rfl
    · have hnil : groupRows step (groupRows step (planFrame t step df) g) k = [] := by
        refine List.filter_eq_nil_iff.mpr fun r hr => ?_
        have hg : step.key r = g := by simpa using (List.mem_filter.mp hr).2
        rw [hg]
        simpa using Ne.symm hk
      rw [made, hnil]
      rfl
  · rw [planFrame_alone h hread, made_alone]

/-! ## 4. What tells the periods apart -/

omit [DecidableEq V] [Floats F] in
theorem setAll_planCells (r : Row V) (a b c d e f g semaine : F) :
    setAll r (planCells t a b c d e f g semaine) "semaine_plan" = t.number semaine := by
  simp [planCells, planColumns, setAll]

omit [DecidableEq V] in
/-- The number of a future period. -/
theorem fill_getElem? (step : ReplenishmentPlan F) (text : String) (last : Row V) (fc : List F)
    {k : ℕ} (hk : k < fc.length) : ∃ cells, (fill t step text last fc)[k]? = some cells ∧
      ∀ r : Row V, setAll r cells "semaine_plan" = t.number ((k + 1 : ℕ) : F) := by
  have hlength : ∀ stock0 seuil lead cover lot,
      (planReplenishment stock0 fc seuil lead cover lot).length = fc.length := by
    intro stock0 seuil lead cover lot
    simp [planReplenishment, floored]
  unfold fill
  dsimp only
  rw [List.getElem?_map, List.getElem?_zipIdx, List.getElem?_eq_getElem (by rwa [hlength])]
  refine ⟨_, rfl, fun r => ?_⟩
  rw [setAll_planCells, Nat.zero_add]

omit [DecidableEq V] in
theorem length_fill (step : ReplenishmentPlan F) (text : String) (last : Row V) (fc : List F) :
    (fill t step text last fc).length = fc.length := by
  simp [fill, planReplenishment, floored]

/-- A row kept of a group without a forecast is of no future period. -/
theorem kept_semaine {rows : List (Row V)} {g : List V} {o : Outline V F}
    (ho : outline t step (groupRows step rows g) = some o) (hfuture : o.future.isEmpty = true)
    {x : List V × Row V} (hx : x ∈ keptRows t step (groupRows step rows g)) :
    x.2 "semaine_plan" = t.number zero ∨ x.2 "semaine_plan" = t.number Floats.nan := by
  have hkey : ∀ r ∈ groupRows step rows g, step.key r = g := fun r hr => by
    simpa using (List.mem_filter.mp hr).2
  rw [keptRows, scatter_eq_zip hkey, groupRows_groupRows] at hx
  obtain ⟨⟨r, cells⟩, hmem, hx⟩ := List.mem_filterMap.mp hx
  obtain ⟨cells, rfl, rfl⟩ := Option.map_eq_some_iff.mp hx
  have hcells := (List.of_mem_zip hmem).2
  rw [keptCells, ho] at hcells
  obtain ⟨i, -, hi⟩ := List.mem_map.mp hcells
  dsimp only at hi ⊢
  split at hi
  · cases hi
    rw [setAll_planCells]
    split
    · exact .inl rfl
    · exact .inr rfl
  · split at hi
    · next hmem => exact absurd hmem (by simp [List.isEmpty_iff.mp hfuture])
    · cases hi

/-- The rows appended of a group, among all those appended. -/
theorem filter_extraRows {appended : List (Appended V F)} {g : List V} {text : String}
    (htext : ∀ a ∈ appended, a.group = g → a.text = text) :
    (extraRows t step appended).filter (fun x => x.1 = g) =
      (((appended.filter fun a => a.text = text).zip (appendedCells t step appended text)).filter
        fun x => x.1.group = g).map fun (a, cells) => (a.group, setAll a.row cells) := by
  rw [← filter_scatter Appended.text, extraRows, List.filter_map, List.filter_filter]
  congr 1
  refine List.filter_congr fun x hx => ?_
  have hx' := htext x.1 (mem_of_mem_scatter hx)
  by_cases hg : x.1.group = g
  · simp [hg, hx' hg]
  · simp [hg]

omit [DecidableEq V] in
/-- The rows of one text alone. -/
theorem extraRows_eq {appended : List (Appended V F)} {text : String}
    (htext : ∀ a ∈ appended, a.text = text) :
    extraRows t step appended = (appended.zip (appendedCells t step appended text)).map
      fun (a, cells) => (a.group, setAll a.row cells) := by
  rw [extraRows, scatter_eq_zip htext]

/-! ## 5. Groups that do not mix -/

/-- A group with a stock and without a forecast. -/
def FallsBack (t : Tables V F) (step : ReplenishmentPlan F) (rows : List (Row V)) (g : List V) :
    Prop :=
  ∃ o, outline t step (groupRows step rows g) = some o ∧ o.future.isEmpty = true

/-- No two groups without a forecast have one text. -/
def Distinct (t : Tables V F) (step : ReplenishmentPlan F) (df : Frame V) : Prop :=
  ∀ g g', FallsBack t step (planFrame t step df) g → FallsBack t step (planFrame t step df) g' →
    keyText t g = keyText t g' → g = g'

/-- The rows of a plan that are of a group are those of the plan of its rows alone. -/
def Independent (t : Tables V F) (step : ReplenishmentPlan F) (s : TransformState V)
    (what : String) : Prop :=
  ∀ rows fallback, planRows t step s.df = .ok (rows, fallback) → ∀ g, ∃ s',
    replenishmentPlanStep t ⟨alone t step s.df g, s.prov⟩ step what = .ok s' ∧
      ((rows.filter fun x => x.1 = g).map (·.2)).Perm s'.df.rows

theorem mem_group {rows : List (Row V)} {g : List V} {o : Outline V F}
    (ho : outline t step (groupRows step rows g) = some o) :
    g ∈ (rows.map step.key).dedup := by
  by_contra hg
  rw [groupRows_eq_nil hg] at ho
  cases ho

theorem fallsBack_of_mem {rows : List (Row V)} {g : List V} {a : Appended V F}
    (ha : a ∈ made t step rows g) : FallsBack t step rows g := (made_spec ha).2.2.2

/-- A group without a forecast has its rows appended. -/
theorem made_ne_nil {rows : List (Row V)} {g : List V} (hhorizon : 1 ≤ step.horizon)
    (hall : appendedRows t step g (groupRows step rows g) = .ok (made t step rows g))
    (h : FallsBack t step rows g) : made t step rows g ≠ [] := by
  obtain ⟨o, ho, hfuture⟩ := h
  rw [appendedRows, ho] at hall
  dsimp only at hall
  rw [if_pos hfuture] at hall
  obtain ⟨dates, hdates, hmade⟩ := Except.bind_eq_ok_iff.mp hall
  unfold futureDates datesAfter at hdates
  dsimp only at hdates
  split at hdates
  · cases hdates
  · cases hdates
    rw [← Except.ok.inj hmade]
    simp only [ne_eq, List.map_eq_nil_iff, List.range_eq_nil]
    omega

theorem mem_madeAll {rows : List (Row V)} {a : Appended V F} (ha : a ∈ madeAll t step rows) :
    a ∈ made t step rows a.group := by
  obtain ⟨g, -, hg⟩ := List.mem_flatMap.mp ha
  rwa [(made_spec hg).1]

/-- What is appended with the text of a group is what is appended for the group. -/
theorem filter_madeAll (hdistinct : Distinct t step df) {g : List V}
    (hg : made t step (planFrame t step df) g ≠ []) :
    ((madeAll t step (planFrame t step df)).filter fun a => a.text = keyText t g) =
      made t step (planFrame t step df) g := by
  obtain ⟨a, ha⟩ := List.exists_mem_of_ne_nil _ hg
  have hfalls := fallsBack_of_mem ha
  obtain ⟨o, ho, -⟩ := id hfalls
  rw [madeAll, List.filter_flatMap,
    flatMap_eq_of_mem (List.nodup_dedup _) (mem_group ho) fun g' _ hne => ?_]
  · exact List.filter_eq_self.mpr fun b hb => by simpa using (made_spec hb).2.1
  · refine List.filter_eq_nil_iff.mpr fun b hb => ?_
    rw [(made_spec hb).2.1]
    simpa using fun heq => hne (hdistinct g' g (fallsBack_of_mem hb) hfalls heq)

/-- The rows appended do not mix either. -/
theorem extraRows_alone (hdistinct : Distinct t step df) (g : List V) :
    (extraRows t step (madeAll t step (planFrame t step df))).filter (fun x => x.1 = g) =
      extraRows t step (made t step (planFrame t step df) g) := by
  have htext : ∀ a ∈ madeAll t step (planFrame t step df), a.group = g →
      a.text = keyText t g := by
    rintro a ha rfl
    exact (made_spec (mem_madeAll ha)).2.1
  have htext' : ∀ a ∈ made t step (planFrame t step df) g, a.text = keyText t g :=
    fun a ha => (made_spec ha).2.1
  rw [filter_extraRows htext, extraRows_eq htext']
  by_cases hnil : made t step (planFrame t step df) g = []
  · rw [hnil, List.zip_nil_left, List.map_nil, List.map_eq_nil_iff]
    refine List.filter_eq_nil_iff.mpr fun x hx => ?_
    have hmem := (List.mem_filter.mp (List.of_mem_zip hx).1).1
    simp only [decide_eq_true_eq]
    rintro rfl
    have hmade := mem_madeAll hmem
    rw [hnil] at hmade
    exact absurd hmade List.not_mem_nil
  · have hpart := filter_madeAll hdistinct hnil
    have hcells : appendedCells t step (madeAll t step (planFrame t step df)) (keyText t g) =
        appendedCells t step (made t step (planFrame t step df) g) (keyText t g) := by
      rw [appendedCells, appendedCells, hpart,
        List.filter_eq_self.mpr fun a ha => by simpa using htext' a ha]
    rw [hpart, hcells, List.filter_eq_self.mpr fun x hx => ?_]
    simpa using (made_spec (List.of_mem_zip hx).1).1

variable (t step) in
/-- A plan has the rows kept and those appended, in some order. -/
theorem assembled_perm (rows : List (Row V)) (appended : List (Appended V F)) :
    (assembled t step rows appended).1.Perm (keptRows t step rows ++ extraRows t step appended) := by
  unfold assembled
  dsimp only
  split
  · next hnil =>
    rw [List.isEmpty_iff.mp hnil]
    exact (List.append_nil _).symm ▸ List.Perm.refl _
  · exact List.perm_insertionSort _ _

/-- The step returns where its columns are there and its rows are made. -/
theorem step_rows {s s' : TransformState V} {what : String}
    (h : replenishmentPlanStep t s step what = .ok s') :
    need s.df (step.date :: step.stock :: step.demand :: step.by_ ++
      step.safetyColumn.toList ++ step.leadTimeColumn.toList) what = .ok () ∧
    ∃ x, planRows t step s.df = .ok x ∧ s'.df.rows = x.1.map (·.2) := by
  unfold replenishmentPlanStep at h
  obtain ⟨⟨⟩, hneed, h⟩ := Except.bind_eq_ok_iff.mp h
  obtain ⟨x, hrows, h⟩ := Except.bind_eq_ok_iff.mp h
  have hdf := congrArg (fun s => s.df.rows) (Except.ok.inj h)
  exact ⟨hneed, x, hrows, hdf.symm⟩

theorem step_returns {s : TransformState V} {what : String}
    (hneed : need s.df (step.date :: step.stock :: step.demand :: step.by_ ++
      step.safetyColumn.toList ++ step.leadTimeColumn.toList) what = .ok ())
    {x : List (List V × Row V) × Bool} (hrows : planRows t step s.df = .ok x) :
    ∃ s', replenishmentPlanStep t s step what = .ok s' ∧ s'.df.rows = x.1.map (·.2) := by
  unfold replenishmentPlanStep
  rw [hneed, hrows]
  exact ⟨_, rfl, rfl⟩

/-- What a plan alone has, in the same order of parts. -/
theorem alone_perm (h : Lawful t) {s s' : TransformState V} {what : String}
    (hread : ReadAlike t step s.df) (hok : replenishmentPlanStep t s step what = .ok s')
    (g : List V) :
    ∃ a, replenishmentPlanStep t ⟨alone t step s.df g, s.prov⟩ step what = .ok a ∧
      a.df.rows.Perm (((keptRows t step (groupRows step (planFrame t step s.df) g)) ++
        extraRows t step (made t step (planFrame t step s.df) g)).map (·.2)) := by
  obtain ⟨hneed, x, hrows, -⟩ := step_rows hok
  obtain ⟨a, ha, harows⟩ := step_returns (s := ⟨alone t step s.df g, s.prov⟩) hneed
    (planRows_alone h hread hrows g)
  exact ⟨a, ha, harows ▸ (assembled_perm t step _ _).map _⟩

theorem independent_of_distinct (h : Lawful t) {s s' : TransformState V} {what : String}
    (hread : ReadAlike t step s.df) (hok : replenishmentPlanStep t s step what = .ok s')
    (hdistinct : Distinct t step s.df) : Independent t step s what := by
  intro rows fallback hrows g
  obtain ⟨a, ha, hperm⟩ := alone_perm h hread hok g
  refine ⟨a, ha, List.Perm.trans ?_ hperm.symm⟩
  obtain ⟨-, hx⟩ := planRows_eq_ok.mp hrows
  have hrows' : rows.Perm (keptRows t step (planFrame t step s.df) ++
      extraRows t step (madeAll t step (planFrame t step s.df))) := by
    have hperm := assembled_perm t step (planFrame t step s.df)
      (madeAll t step (planFrame t step s.df))
    rwa [← hx] at hperm
  rw [keptRows_alone, ← extraRows_alone hdistinct, ← List.filter_append]
  exact (hrows'.filter _).map _

/-- A row appended for a group alone is of one of the periods of the horizon. -/
theorem extra_semaine {rows : List (Row V)} {g : List V} {x : List V × Row V}
    (hx : x ∈ extraRows t step (made t step rows g)) :
    ∃ k < step.horizon, x.2 "semaine_plan" = t.number ((k + 1 : ℕ) : F) := by
  have htext : ∀ a ∈ made t step rows g, a.text = keyText t g := fun a ha => (made_spec ha).2.1
  rw [extraRows_eq htext] at hx
  obtain ⟨⟨a, cells⟩, hmem, rfl⟩ := List.mem_map.mp hx
  obtain ⟨ha, hcells⟩ := List.of_mem_zip hmem
  rw [appendedCells, List.filter_eq_self.mpr fun b hb => by simpa using htext b hb] at hcells
  cases hhead : (made t step rows g).head? with
  | none =>
    rw [hhead] at hcells
    exact absurd hcells List.not_mem_nil
  | some first =>
    rw [hhead] at hcells
    obtain ⟨k, hk⟩ := List.mem_iff_getElem?.mp hcells
    have hlt : k < ((made t step rows g).map (·.mean)).length := by
      have hlt := (List.getElem?_eq_some_iff.mp hk).1
      rwa [length_fill] at hlt
    obtain ⟨cells', hcells', hsemaine⟩ := fill_getElem? (t := t) step (keyText t g) first.lastRow
      ((made t step rows g).map (·.mean)) hlt
    rw [hk, Option.some_inj] at hcells'
    rw [List.length_map, (made_spec ha).2.2.1] at hlt
    exact ⟨k, hlt, hcells' ▸ hsemaine a.row⟩

variable (t step) in
/-- The rows of one text are numbered through. -/
theorem exists_extra {appended : List (Appended V F)} {text : String} {i : ℕ} {a : Appended V F}
    (htext : ∀ b ∈ appended, b.group = a.group → b.text = text)
    (hi : (appended.filter fun b => b.text = text)[i]? = some a) :
    ∃ row : Row V, (a.group, row) ∈ extraRows t step appended ∧
      row "semaine_plan" = t.number ((i + 1 : ℕ) : F) := by
  have hmem := List.mem_of_getElem? hi
  have hlt := (List.getElem?_eq_some_iff.mp hi).1
  obtain ⟨first, hfirst⟩ : ∃ first, (appended.filter fun b => b.text = text).head? = some first := by
    cases hpart : appended.filter fun b => b.text = text with
    | nil =>
      rw [hpart] at hmem
      exact absurd hmem List.not_mem_nil
    | cons b bs => exact ⟨b, rfl⟩
  obtain ⟨cells, hcells, hsemaine⟩ := fill_getElem? (t := t) step text first.lastRow
    ((appended.filter fun b => b.text = text).map (·.mean)) (by rwa [List.length_map])
  refine ⟨setAll a.row cells, ?_, hsemaine a.row⟩
  refine List.mem_of_mem_filter (p := fun x => x.1 = a.group) ?_
  rw [filter_extraRows htext]
  refine List.mem_map.mpr ⟨(a, cells), List.mem_filter.mpr ⟨?_, by simp⟩, rfl⟩
  refine List.mem_of_getElem? (i := i) ?_
  have hall : appendedCells t step appended text = fill t step text first.lastRow
      ((appended.filter fun b => b.text = text).map (·.mean)) := by
    rw [appendedCells, hfirst]
  rw [hall, List.getElem?_zip_eq_some]
  exact ⟨hi, hcells⟩

theorem distinct_of_independent (h : Lawful t) {s s' : TransformState V} {what : String}
    (hhorizon : 1 ≤ step.horizon) (hread : ReadAlike t step s.df)
    (hok : replenishmentPlanStep t s step what = .ok s')
    (hindependent : Independent t step s what) : Distinct t step s.df := by
  intro g g' hg hg' htext
  by_contra hne
  obtain ⟨-, ⟨rows, fallback⟩, hrows, -⟩ := step_rows hok
  obtain ⟨hall, hx⟩ := planRows_eq_ok.mp hrows
  obtain ⟨o, ho, -⟩ := id hg
  obtain ⟨o', ho', -⟩ := id hg'
  -- the two groups in the rows of their text, one after the other
  have hpart (k : List V) (hk : k = g ∨ k = g') :
      ((made t step (planFrame t step s.df) k).filter fun a => a.text = keyText t g) =
        made t step (planFrame t step s.df) k := by
    refine List.filter_eq_self.mpr fun b hb => ?_
    rw [(made_spec hb).2.1]
    rcases hk with rfl | rfl
    · simp
    · simp [htext]
  have hnil (k : List V) (hk : k = g ∨ k = g') :
      made t step (planFrame t step s.df) k ≠ [] := by
    refine made_ne_nil hhorizon (hall k) ?_
    rcases hk with rfl | rfl
    · exact hg
    · exact hg'
  have hlength (k : List V) (hk : k = g ∨ k = g') :
      (made t step (planFrame t step s.df) k).length = step.horizon := by
    obtain ⟨b, hb⟩ := List.exists_mem_of_ne_nil _ (hnil k hk)
    exact (made_spec hb).2.2.1
  obtain ⟨i, a, hi, ha⟩ := exists_later
    (f := fun k => (made t step (planFrame t step s.df) k).filter fun a => a.text = keyText t g)
    hne (mem_group ho) (mem_group ho')
    (by rw [hpart g (.inl rfl)]; exact hnil g (.inl rfl))
    (by rw [hpart g' (.inr rfl)]; exact hnil g' (.inr rfl))
  rw [← List.filter_flatMap] at hi
  have hgroup : (a.group = g ∨ a.group = g') ∧ step.horizon ≤ i := by
    rw [hpart g (.inl rfl), hpart g' (.inr rfl), hlength g (.inl rfl), hlength g' (.inr rfl)] at ha
    rcases ha with ⟨ha, hle⟩ | ⟨ha, hle⟩
    · exact ⟨.inr (made_spec ha).1, hle⟩
    · exact ⟨.inl (made_spec ha).1, hle⟩
  have htext' : ∀ b ∈ madeAll t step (planFrame t step s.df), b.group = a.group →
      b.text = keyText t g := by
    intro b hb hba
    rw [(made_spec (mem_madeAll hb)).2.1, hba]
    rcases hgroup.1 with heq | heq
    · rw [heq]
    · rw [heq, htext]
  obtain ⟨row, hrow, hsemaine⟩ := exists_extra t step htext' hi
  -- the row is one of the plan of its group alone
  obtain ⟨s₁, hs₁, hperm⟩ := hindependent rows fallback hrows a.group
  obtain ⟨s₂, hs₂, hperm₂⟩ := alone_perm h hread hok a.group
  cases hs₁.symm.trans hs₂
  have hmem : row ∈ s₁.df.rows := by
    refine hperm.mem_iff.mp (List.mem_map.mpr ⟨(a.group, row), ?_, rfl⟩)
    refine List.mem_filter.mpr ⟨?_, by simp⟩
    have hassembled := assembled_perm t step (planFrame t step s.df)
      (madeAll t step (planFrame t step s.df))
    rw [← hx] at hassembled
    exact hassembled.mem_iff.mpr (List.mem_append_right _ hrow)
  obtain ⟨x, hx', rfl⟩ := List.mem_map.mp (hperm₂.mem_iff.mp hmem)
  obtain ⟨o'', ho'', hfuture⟩ : FallsBack t step (planFrame t step s.df) a.group := by
    rcases hgroup.1 with heq | heq
    · rwa [heq]
    · rwa [heq]
  rcases List.mem_append.mp hx' with hkept | hextra
  · rcases kept_semaine ho'' hfuture hkept with hzero | hnan
    · exact absurd (h.injective (i + 1) 0 (hsemaine.symm.trans hzero)) (Nat.succ_ne_zero i)
    · exact h.number_nan (i + 1) (hnan.symm.trans hsemaine)
  · obtain ⟨k, hk, hsemaine'⟩ := extra_semaine hextra
    have heq := h.injective (i + 1) (k + 1) (hsemaine.symm.trans hsemaine')
    omega

/-- **The groups of a plan do not mix** exactly where no two of those without a forecast have one
text. -/
theorem independent_iff (h : Lawful t) (s s' : TransformState V) (what : String)
    (hhorizon : 1 ≤ step.horizon) (hread : ReadAlike t step s.df)
    (hok : replenishmentPlanStep t s step what = .ok s') :
    Independent t step s what ↔ Distinct t step s.df :=
  ⟨distinct_of_independent h hhorizon hread hok, independent_of_distinct h hread hok⟩

/-! ## 6. A missing family and the family `nan` -/

inductive Datum
  | number (x : Exact ℚ)
  | text (s : String)
deriving DecidableEq

/-- Numbers first, what is missing last. -/
def Datum.before : Datum → Datum → Bool
  | .number (.of x), .number (.of y) => x ≤ y
  | .number (.of _), _ => true
  | .text s, .text s' => s ≤ s'
  | .text _, .number .nan => true
  | .number .nan, .number .nan => true
  | _, _ => false

/-- Tables of exact numbers and of texts, where a date is a number. -/
def exactTables : Tables Datum (Exact ℚ) where
  missing := .number .nan
  before := Datum.before
  numeric
    | .number x => x
    | .text _ => .nan
  number := .number
  nanos _
    | .number (.of x) => some ⌊x⌋
    | _ => none
  instant n := .number (.of n)
  label
    | .number .nan => "nan"
    | .number (.of x) => toString ⌊x⌋
    | .text s => s
  median steps := (steps.insertionSort (· ≤ ·)).getD (steps.length / 2) 0
  draws _ _ n := List.replicate n (.of 1)
  isMonthEnd _ := false
  monthEnd d _ := d
  addMonths d _ := d

theorem lawful_exactTables : Lawful exactTables where
  total a b := by
    rcases a with ⟨_ | x⟩ | s <;> rcases b with ⟨_ | y⟩ | s' <;>
      simp [exactTables, Datum.before, le_total, String.le_total]
  trans a b c := by
    rcases a with ⟨_ | x⟩ | s <;> rcases b with ⟨_ | y⟩ | s' <;> rcases c with ⟨_ | z⟩ | s'' <;>
      simp [exactTables, Datum.before]
    · exact fun h h' => h.trans h'
    · exact fun h h' => String.le_trans h h'
  antisymm a b := by
    rcases a with ⟨_ | x⟩ | s <;> rcases b with ⟨_ | y⟩ | s' <;>
      simp [exactTables, Datum.before]
    · exact fun h h' => le_antisymm h h'
    · exact fun h h' => String.le_antisymm h h'
  injective m n h := by
    simpa [exactTables] using h
  number_nan n h := by
    simp [exactTables] at h

def weekly : ReplenishmentPlan (Exact ℚ) where
  date := "semaine"
  by_ := ["famille"]
  stock := "stock"
  demand := "ventes"
  forecast := "prevision"
  safetyColumn := none
  leadTimeColumn := none
  safetyWeeks := .of 1
  leadTime := 1
  targetCover := 0
  horizon := 1
  keepHistory := 1
  lotSizes := []
  defaultLot := 1

/-- A week of the family `nan` and one of no family. -/
def families : TransformState Datum where
  df := ⟨["semaine", "famille", "stock", "ventes"],
    [setAll (fun _ => .number .nan) [("semaine", .number (.of 0)), ("famille", .text "nan"),
      ("stock", .number (.of 10)), ("ventes", .number (.of 1))],
    setAll (fun _ => .number .nan) [("semaine", .number (.of 0)),
      ("stock", .number (.of 20)), ("ventes", .number (.of 2))]]⟩
  prov _ := none

theorem weekly_returns : ∃ s', replenishmentPlanStep exactTables families weekly "plan" = .ok s' := by
  have h : (fun s' => s'.df.rows.length) <$>
      replenishmentPlanStep exactTables families weekly "plan" = .ok 4 := by decide +kernel
  obtain ⟨s', hs', -⟩ := Except.map_eq_ok_iff.mp h
  exact ⟨s', hs'⟩

theorem readAlike_families : ReadAlike exactTables weekly families.df := fun _ _ _ => rfl

theorem independent_iff_families :
    Independent exactTables weekly families "plan" ↔ Distinct exactTables weekly families.df := by
  obtain ⟨s', hs'⟩ := weekly_returns
  exact independent_iff lawful_exactTables families s' "plan" (by decide) readAlike_families hs'

/-- The only week planned for no family counts as the second one. -/
theorem not_independent_families : Lawful exactTables ∧
    (∃ s', replenishmentPlanStep exactTables families weekly "plan" = .ok s') ∧
    ¬ Independent exactTables weekly families "plan" := by
  refine ⟨lawful_exactTables, weekly_returns, fun hindependent => ?_⟩
  have hwhole : (fun x => (x.1.filter fun y => y.1 = [Datum.number .nan]).map
      fun y => y.2 "semaine_plan") <$> planRows exactTables weekly families.df =
      .ok [.number (.of 0), .number (.of 2)] := by decide +kernel
  have halone : (fun s' => s'.df.rows.map (· "semaine_plan")) <$> replenishmentPlanStep exactTables
      ⟨alone exactTables weekly families.df [.number .nan], families.prov⟩ weekly "plan" =
      .ok [.number (.of 0), .number (.of 1)] := by decide +kernel
  obtain ⟨⟨rows, fallback⟩, hrows, hweeks⟩ := Except.map_eq_ok_iff.mp hwhole
  obtain ⟨s', hs', hperm⟩ := hindependent rows fallback hrows [.number .nan]
  obtain ⟨s'', hs'', hweeks'⟩ := Except.map_eq_ok_iff.mp halone
  cases hs'.symm.trans hs''
  have hmap := hperm.map (· "semaine_plan")
  rw [List.map_map] at hmap
  have hmem : Datum.number (.of 2) ∈ s'.df.rows.map (· "semaine_plan") := by
    refine hmap.mem_iff.mp ?_
    have hlist : (rows.filter fun y => y.1 = [Datum.number .nan]).map
        (fun y => y.2 "semaine_plan") = [.number (.of 0), .number (.of 2)] := hweeks
    rw [show (rows.filter fun y => y.1 = [Datum.number .nan]).map
      ((· "semaine_plan") ∘ (·.2)) = _ from hlist]
    exact List.mem_cons_of_mem _ List.mem_cons_self
  rw [hweeks'] at hmem
  exact absurd hmem (by decide)

end Apowerb.Bi.Transforms
