/-
# The choices of a filter

`filter_options` offers the values of a column; what a reader chooses comes back as the value of the
filter, and `apply_filters` compares its key (`_vkey`) with those of the cells (`_key`).

**The two keys differ where a value has two spellings.**  `_vkey` reads a text as a number, `_key`
does not; `_vkey` rounds an integer to a float, `_key` does not; a missing cell has the key of the
text that spells it; and a text that spells `all` asks for no restriction at all.

* `option_selects_iff`: the columns and the choices for which the filter keeps exactly the rows that
  have the value.

A boolean is always found (`Selectable`).  Two floats are equal where they are the same number: the
two zeros are one.
-/
import Mathlib
import Apowerb.Bi.Filters

namespace Apowerb.Bi.Filters

variable {F : Type}

/-! ## 1. What is relied on -/

def inInt64 (n : Int) : Prop := int64Min ≤ n ∧ n ≤ int64Max

instance (n : Int) : Decidable (inInt64 n) := inferInstanceAs (Decidable (_ ∧ _))

/-- What Python and numpy say of floats: `int()` of a whole one is the number itself, `repr()` is
read back as the number it was written for, a decimal integer is read as a whole number, and an
integer of 64 bits is rounded to 53. -/
structure Lawful (P : Pandas F) : Prop where
  whole_inj : ∀ x y n, P.whole x = some n → P.whole y = some n → x = y
  cast_whole : ∀ x n, P.whole x = some n → inInt64 n → P.cast x = n
  cast_range : ∀ x, inInt64 (P.cast x)
  ofInt_whole : ∀ n, int64Min ≤ n → n ≤ 2 * int64Max + 1 →
    ∃ x, P.ofInt n = some x ∧ P.whole x = some (roundInt n)
  parse_text : ∀ x, P.whole x = none → P.parse (P.text x) = some x
  parse_decimal : ∀ n, inInt64 n → ∃ x, P.parse (toString n) = some x ∧ (P.whole x).isSome
  parse_nan : P.parse "nan" = none

/-- The request with which a reader chooses one value. -/
def asked (spec : FilterSpec F) (v : Scalar F) : Raw F :=
  if spec.type = .multi then .list [some v] else .scalar v

/-- The values of a column that can be chosen.

A text is to be none of those that ask for all, unless the column holds nothing else; not another
spelling of a whole number; and not that of a missing cell.  An integer is to be a float of 53 bits
and to fit in an `int64`.  A whole float is to fit in one, and none of the column that does not is to
be cast to it. -/
def Selectable (P : Pandas F) (column : List (Cell F)) : Scalar F → Prop
  | .text s =>
    if (Scalar.text s : Scalar F).isAll then ∀ cell ∈ column, cell = .value (.text s)
    else (∀ x n, P.parse s = some x → P.whole x = some n → s = toString n) ∧ .missing s ∉ column
  | .int n => roundInt n = n ∧ n ≤ int64Max
  | .float x => ∀ n, P.whole x = some n → inInt64 n ∧
      ∀ y m, .value (.float y) ∈ column → P.whole y = some m → ¬ inInt64 m → P.cast y ≠ n
  | .bool _ | .instant _ => True

/-! ## 2. The choices are values of the column -/

theorem mem_update {P : Pandas F} {items : List (Scalar F)} {v : Scalar F} :
    ∀ {values : List (Scalar F)}, v ∈ update P values items → v ∈ values ∨ v ∈ items := by
  unfold update
  induction items with
  | nil => exact fun h => .inl h
  | cons item rest ih =>
    intro values h
    rw [List.foldl_cons] at h
    rcases ih h with hv | hv
    · split at hv
      · exact .inl hv
      · rcases List.mem_append.mp hv with hv | hv
        · exact .inl hv
        · exact .inr (List.mem_cons.mpr (.inl (List.mem_singleton.mp hv)))
    · exact .inr (List.mem_cons_of_mem _ hv)

theorem mem_sortedValues {P : Pandas F} {values : List (Scalar F)} {v : Scalar F} :
    v ∈ sortedValues P values ↔ v ∈ values := by
  unfold sortedValues
  split <;> exact List.mem_mergeSort

/-- A choice of one source is a cell of its column. -/
theorem mem_column_of_offered {P : Pandas F} {m : MatSource F} {spec : FilterSpec F}
    {options : List (Scalar F)} {v : Scalar F}
    (hoptions : (filterOptions P [spec] [m]).lookup spec.id = some options) (hv : v ∈ options) :
    .value v ∈ m.df.column spec.field := by
  have heq : options = optionsOf P [m] spec := by
    unfold filterOptions at hoptions
    by_cases htype : spec.type = .select ∨ spec.type = .multi
    · simp [htype] at hoptions
      exact hoptions.symm
    · simp [htype] at hoptions
  rw [heq, optionsOf, mem_sortedValues] at hv
  by_cases happlies : spec.appliesIn m
  · simp only [happlies, List.filter_cons_of_pos, List.filter_nil, List.foldl_cons,
      List.foldl_nil] at hv
    rcases mem_update hv with hv | hv
    · cases hv
    · obtain ⟨cell, hcell, hvalue⟩ := List.mem_filterMap.mp hv
      cases cell with
      | missing shown => cases hvalue
      | value w =>
        cases hvalue
        exact hcell
  · simp [happlies] at hv

/-! ## 3. The key of a choice -/

attribute [local grind =] asInt64 Dtype.holds key number vkey

section Keys

variable {P : Pandas F} (hP : Lawful P) {column : List (Cell F)}

theorem toString_inj {n m : Int} : toString n = toString m ↔ n = m := Int.repr_inj

theorem asInt64_of_range {n : Int} (h : inInt64 n) : asInt64 n = n := by
  unfold asInt64 inInt64 int64Max int64Min at *
  omega

/-- The cells with the key of a choice are those with its value. -/
def Finds (P : Pandas F) (column : List (Cell F)) (v : Scalar F) : Prop :=
  ∃ k, vkey P v = .ok k ∧ ∀ cell ∈ column, key P column cell = k ↔ cell = .value v

theorem finds_of_vkey {v : Scalar F} {k : String} (hk : vkey P v = .ok k) :
    Finds P column v ↔ ∀ cell ∈ column, key P column cell = k ↔ cell = .value v := by
  constructor
  · rintro ⟨k', hk', h⟩
    rw [hk] at hk'
    cases hk'
    exact h
  · exact fun h => ⟨k, hk, h⟩

/-- A text is found where it is its own key and no missing cell spells it. -/
theorem finds_text {s : String} (hcolumn : ∀ cell ∈ column, Dtype.text.holds cell = true)
    (hs : .value (.text s) ∈ column) :
    Finds P column (.text s) ↔
      (∀ x n, P.parse s = some x → P.whole x = some n → s = toString n) ∧
        .missing s ∉ column := by
  -- the cell with the text has the text for its key, so that this is what the choice's is to be
  have hown (k : String) (h : ∀ cell ∈ column, key P column cell = k ↔ cell = .value (.text s)) :
      s = k := (h _ hs).mpr rfl
  have hcells : (∀ cell ∈ column, key P column cell = s ↔ cell = .value (.text s)) ↔
      .missing s ∉ column := by
    constructor
    · intro h hmissing
      cases (h _ hmissing).mp rfl
    · intro hnot cell hcell
      have hholds := hcolumn cell hcell
      match cell with
      | .missing shown =>
        constructor
        · rintro rfl
          exact absurd hcell hnot
        · nofun
      | .value (.text t) => simp [key]
      | .value (.int _) | .value (.float _) | .value (.bool _) | .value (.instant _) =>
        cases hholds
  cases hread : (P.parse s).bind P.whole with
  | none =>
    rw [finds_of_vkey (k := s) (by simp [vkey, number, Except.map, hread, pyStr]), hcells]
    refine ⟨fun h => ⟨fun x n hx hn => ?_, h⟩, And.right⟩
    rw [hx, Option.bind_some, hn] at hread
    cases hread
  | some n =>
    obtain ⟨x, hx, hn⟩ := Option.bind_eq_some_iff.mp hread
    rw [finds_of_vkey (k := toString n) (by simp [vkey, number, Except.map, hread])]
    constructor
    · intro h
      have hsn := hown _ h
      refine ⟨fun y m hy hm => ?_, hcells.mp (hsn ▸ h)⟩
      rw [hx, Option.some.injEq] at hy
      subst hy
      rw [hn, Option.some.injEq] at hm
      exact hm ▸ hsn
    · rintro ⟨hspelled, hmissing⟩
      rw [← hspelled x n hx hn]
      exact hcells.mpr hmissing

theorem roundInt_nonneg {n : Int} (h : 0 ≤ n) : 0 ≤ roundInt n := by
  unfold roundInt
  exact Int.mul_nonneg (Int.sign_nonneg_iff.mpr h) (Int.natCast_nonneg _)

/-- Two integers of one column have one key only where they are equal, if one fits in an `int64`. -/
theorem asInt64_eq_iff {n m : Int} {d : Dtype} (hd : d = .int64 ∨ d = .uint64)
    (hn : d.holds (.value (.int n) : Cell F) = true) (hm : d.holds (.value (.int m) : Cell F) = true)
    (hmax : n ≤ int64Max) : asInt64 m = n ↔ m = n := by
  rcases hd with rfl | rfl
  · have hm' : inInt64 m := of_decide_eq_true hm
    rw [asInt64_of_range hm']
  · have hn' : 0 ≤ n ∧ n ≤ 2 * int64Max + 1 := of_decide_eq_true hn
    have hm' : 0 ≤ m ∧ m ≤ 2 * int64Max + 1 := of_decide_eq_true hm
    unfold asInt64 int64Min
    unfold int64Max at *
    omega

/-- An integer is found where it is a float of 53 bits and fits in an `int64`. -/
theorem finds_int (hP : Lawful P) {n : Int} {d : Dtype} (hd : d = .int64 ∨ d = .uint64)
    (hcolumn : ∀ cell ∈ column, d.holds cell = true) (hn : .value (.int n) ∈ column) :
    Finds P column (.int n) ↔ roundInt n = n ∧ n ≤ int64Max := by
  have hself := hcolumn _ hn
  have hrange : int64Min ≤ n ∧ n ≤ 2 * int64Max + 1 := by
    rcases hd with rfl | rfl
    · have hin : int64Min ≤ n ∧ n ≤ int64Max := of_decide_eq_true hself
      unfold int64Max at *
      omega
    · have hin : 0 ≤ n ∧ n ≤ 2 * int64Max + 1 := of_decide_eq_true hself
      unfold int64Min
      omega
  obtain ⟨x, hx, hwhole⟩ := hP.ofInt_whole n hrange.1 hrange.2
  rw [finds_of_vkey (k := toString (roundInt n)) (by simp [vkey, number, hx, Except.map, hwhole])]
  constructor
  · intro h
    -- the cell itself is found: what it is cast to is what the choice is rounded to
    have hkey : asInt64 n = roundInt n := toString_inj.mp ((h _ hn).mpr rfl)
    by_cases hmax : n ≤ int64Max
    · exact ⟨by rw [← hkey, asInt64_of_range ⟨hrange.1, hmax⟩], hmax⟩
    · have hpos := roundInt_nonneg (n := n) (by unfold int64Max at hmax; omega)
      unfold asInt64 int64Min at hkey
      unfold int64Max at *
      omega
  · rintro ⟨hround, hmax⟩ cell hcell
    have hholds := hcolumn cell hcell
    match cell with
    | .value (.int m) =>
      simp only [key, hround, toString_inj, Cell.value.injEq, Scalar.int.injEq]
      exact asInt64_eq_iff hd hself hholds hmax
    | .missing _ | .value (.text _) | .value (.float _) | .value (.bool _) | .value (.instant _) =>
      rcases hd with rfl | rfl <;> cases hholds

/-- A float is found where it is not whole, or fits in an `int64` into which no other is cast. -/
theorem finds_float (hP : Lawful P) {x : F}
    (hcolumn : ∀ cell ∈ column, Dtype.float64.holds cell = true)
    (hx : .value (.float x) ∈ column) :
    Finds P column (.float x) ↔ ∀ n, P.whole x = some n → inInt64 n ∧
      ∀ y m, .value (.float y) ∈ column → P.whole y = some m → ¬ inInt64 m → P.cast y ≠ n := by
  cases hwhole : P.whole x with
  | none =>
    rw [finds_of_vkey (k := P.text x) (by simp [vkey, number, Except.map, hwhole, pyStr])]
    refine iff_of_true (fun cell hcell => ?_) nofun
    have hholds := hcolumn cell hcell
    match cell with
    | .missing shown =>
      have hnan : shown = "nan" := beq_iff_eq.mp hholds
      refine iff_of_false (fun h => ?_) nofun
      have hread := hP.parse_text x hwhole
      rw [← h, key, hnan, hP.parse_nan] at hread
      cases hread
    | .value (.float y) =>
      simp only [key, Cell.value.injEq, Scalar.float.injEq]
      cases hy : P.whole y with
      | none =>
        simp only [Option.isSome_none, Bool.false_eq_true, if_false]
        refine ⟨fun h => ?_, fun h => h ▸ rfl⟩
        have hread := hP.parse_text y hy
        rw [h, hP.parse_text x hwhole] at hread
        exact (Option.some.inj hread).symm
      | some m =>
        simp only [Option.isSome_some, if_true]
        refine iff_of_false (fun h => ?_) fun h => ?_
        · obtain ⟨z, hz, hwz⟩ := hP.parse_decimal _ (hP.cast_range y)
          rw [h, hP.parse_text x hwhole, Option.some.injEq] at hz
          rw [← hz, hwhole] at hwz
          cases hwz
        · rw [h, hwhole] at hy
          cases hy
    | .value (.text _) | .value (.int _) | .value (.bool _) | .value (.instant _) => cases hholds
  | some n =>
    rw [finds_of_vkey (k := toString n) (by simp [vkey, number, Except.map, hwhole])]
    simp only [Option.some.injEq, forall_eq']
    constructor
    · intro h
      have hself := (h _ hx).mpr rfl
      simp only [key, hwhole, Option.isSome_some, if_true, toString_inj] at hself
      have hin : inInt64 n := hself ▸ hP.cast_range x
      refine ⟨hin, fun y m hy hm hbig hcast => ?_⟩
      have hyx := (h _ hy).mp (by simp [key, hm, hcast])
      cases hyx
      rw [hwhole] at hm
      cases hm
      exact hbig hin
    · rintro ⟨hin, hbig⟩ cell hcell
      have hholds := hcolumn cell hcell
      match cell with
      | .missing shown =>
        have hnan : shown = "nan" := beq_iff_eq.mp hholds
        refine iff_of_false (fun h => ?_) nofun
        obtain ⟨z, hz, -⟩ := hP.parse_decimal n hin
        rw [← h, key, hnan, hP.parse_nan] at hz
        cases hz
      | .value (.float y) =>
        simp only [key, Cell.value.injEq, Scalar.float.injEq]
        cases hy : P.whole y with
        | none =>
          simp only [Option.isSome_none, Bool.false_eq_true, if_false]
          refine iff_of_false (fun h => ?_) fun h => ?_
          · obtain ⟨z, hz, hwz⟩ := hP.parse_decimal n hin
            rw [← h, hP.parse_text y hy, Option.some.injEq] at hz
            rw [← hz, hy] at hwz
            cases hwz
          · rw [h, hwhole] at hy
            cases hy
        | some m =>
          simp only [Option.isSome_some, if_true, toString_inj]
          constructor
          · intro hcast
            by_cases hm : inInt64 m
            · rw [hP.cast_whole y m hy hm] at hcast
              exact hP.whole_inj y x n (hcast ▸ hy) hwhole
            · exact absurd hcast (hbig y m hcell hy hm)
          · rintro rfl
            rw [hwhole, Option.some.injEq] at hy
            exact hy ▸ hP.cast_whole y n hwhole hin
      | .value (.text _) | .value (.int _) | .value (.bool _) | .value (.instant _) =>
        cases hholds

/-- A boolean is found. -/
theorem finds_bool {b : Bool} (hcolumn : ∀ cell ∈ column, Dtype.bool.holds cell = true) :
    Finds P column (.bool b) := by
  refine (finds_of_vkey (k := if b then "True" else "False") rfl).mpr fun cell hcell => ?_
  have hholds := hcolumn cell hcell
  match cell with
  | .missing shown =>
    have hna : shown = "<NA>" := beq_iff_eq.mp hholds
    subst hna
    exact iff_of_false (by cases b <;> simp [key]) nofun
  | .value (.bool c) => cases b <;> cases c <;> simp [key]
  | .value (.text _) | .value (.int _) | .value (.float _) | .value (.instant _) => cases hholds

end Keys

/-! ## 4. The rows kept -/

section Rows

variable {P : Pandas F} {mats : List (MatSource F)} {m : MatSource F}
  {spec : FilterSpec F} {v : Scalar F}

/-- What the request for a choice is resolved to. -/
def wantedFor (spec : FilterSpec F) (v : Scalar F) : Wanted F :=
  if v.isAll then .nothing
  else if spec.type = .multi then .many [v] else .one (.scalar v)

theorem resolve_asked (htype : spec.type = .select ∨ spec.type = .multi) :
    resolve P [(spec.id, asked spec v)] mats spec =
      .ok ⟨spec, wantedFor spec v, none, none, (mats.filter spec.appliesIn).map (·.name)⟩ := by
  rcases htype with htype | htype <;> cases hall : v.isAll <;>
    simp [resolve, htype, asked, wantedFor, hall, Raw.isAll, normaliseMulti, wanted, orNone]

/-- A choice that asks for all keeps every row. -/
theorem cut_all (htype : spec.type = .select ∨ spec.type = .multi) (hall : v.isAll = true)
    (sources : List String) :
    cut P m ⟨spec, wantedFor spec v, none, none, sources⟩ = .ok fun _ => true := by
  rcases htype with htype | htype <;>
    simp [cut, wantedFor, hall, ActiveFilter.restricts, ActiveFilter.isPeriod, htype]

/-- Another choice keeps the rows with its key. -/
theorem cut_one (htype : spec.type = .select ∨ spec.type = .multi) (hall : v.isAll = false)
    {sources : List String} (hin : m.name ∈ sources) :
    cut P m ⟨spec, wantedFor spec v, none, none, sources⟩ = (vkey P v).map fun k row =>
      decide (key P (m.df.column spec.field) (row spec.field) = k) := by
  rcases htype with htype | htype <;> cases hk : vkey P v <;>
    simp [cut, part, rawKey, wantedFor, hall, hin, hk, ActiveFilter.restricts,
      ActiveFilter.isPeriod, htype, Except.map, bind, Except.bind, pure, Except.pure]

theorem forall_column {df : Frame F} {field : String} {p : Cell F → Prop} :
    (∀ cell ∈ df.column field, p cell) ↔ ∀ row ∈ df.rows, p (row field) := by
  simp [Frame.column]

theorem dtype_of_text {d : Dtype} {s : String} (h : d.holds (.value (.text s) : Cell F) = true) :
    d = .text := by
  cases d <;> simp_all [Dtype.holds]

theorem dtype_of_int {d : Dtype} {n : Int} (h : d.holds (.value (.int n) : Cell F) = true) :
    d = .int64 ∨ d = .uint64 := by
  cases d <;> simp_all [Dtype.holds]

theorem dtype_of_float {d : Dtype} {x : F} (h : d.holds (.value (.float x) : Cell F) = true) :
    d = .float64 := by
  cases d <;> simp_all [Dtype.holds]

theorem dtype_of_bool {d : Dtype} {b : Bool} (h : d.holds (.value (.bool b) : Cell F) = true) :
    d = .bool := by
  cases d <;> simp_all [Dtype.holds]

theorem dtype_of_instant {d : Dtype} {t : Int}
    (h : d.holds (.value (.instant t) : Cell F) = true) : d = .datetime := by
  cases d <;> simp_all [Dtype.holds]

variable [DecidableEq F]

/-- A choice selects its rows where it is found among the cells. -/
theorem selects_asked_iff (hm : m ∈ mats) (htype : spec.type = .select ∨ spec.type = .multi)
    (happlies : spec.appliesIn m = true) :
    Selects P mats m spec (asked spec v) (fun row => row spec.field = .value v) ↔
      if v.isAll then ∀ cell ∈ m.df.column spec.field, cell = .value v
      else Finds P (m.df.column spec.field) v := by
  have hsources : m.name ∈ (mats.filter spec.appliesIn).map (·.name) :=
    List.mem_map.mpr ⟨m, List.mem_filter.mpr ⟨hm, happlies⟩, rfl⟩
  simp only [selects_iff, resolve_asked htype, Except.ok.injEq]
  cases hall : v.isAll with
  | true =>
    simp only [if_true, forall_column]
    constructor
    · rintro ⟨flt, mask, rfl, hmask, hkeep⟩ row hrow
      rw [cut_all htype hall] at hmask
      cases hmask
      exact of_decide_eq_true (hkeep row hrow).symm
    · intro h
      exact ⟨_, _, rfl, cut_all htype hall _, fun row hrow => (decide_eq_true (h row hrow)).symm⟩
  | false =>
    simp only [Bool.false_eq_true, if_false]
    constructor
    · rintro ⟨flt, mask, rfl, hmask, hkeep⟩
      rw [cut_one htype hall hsources] at hmask
      obtain ⟨k, hk, rfl⟩ := Except.map_eq_ok_iff.mp hmask
      exact ⟨k, hk, forall_column.mpr fun row hrow => decide_eq_decide.mp (hkeep row hrow)⟩
    · rintro ⟨k, hk, h⟩
      refine ⟨_, _, rfl, (cut_one htype hall hsources).trans (by rw [hk]; rfl), fun row hrow => ?_⟩
      exact decide_eq_decide.mpr (forall_column.mp h row hrow)

/-- **The rows kept for a choice are those that have its value**, and there is one, exactly where the
choice can be told from the other cells of the column. -/
theorem option_selects_iff (P : Pandas F) (hP : Lawful P) (mats : List (MatSource F))
    (m : MatSource F) (spec : FilterSpec F) (d : Dtype) (options : List (Scalar F)) (v : Scalar F)
    (hm : m ∈ mats) (htype : spec.type = .select ∨ spec.type = .multi)
    (happlies : spec.appliesIn m = true) (hd : m.df.dtype spec.field = some d)
    (hvalues : d ≠ .datetime)
    (hoptions : (filterOptions P [spec] [m]).lookup spec.id = some options) (hv : v ∈ options) :
    (Selects P mats m spec (asked spec v) (fun row => row spec.field = .value v) ∧
        ∃ row ∈ m.df.rows, row spec.field = .value v) ↔
      Selectable P (m.df.column spec.field) v := by
  have hcell := mem_column_of_offered hoptions hv
  have hrow : ∃ row ∈ m.df.rows, row spec.field = .value v := List.mem_map.mp hcell
  have hcolumn : ∀ cell ∈ m.df.column spec.field, d.holds cell = true :=
    forall_column.mpr fun row hrow => m.df.typed row hrow spec.field d hd
  rw [selects_asked_iff hm htype happlies, and_iff_left hrow]
  have hholds := hcolumn _ hcell
  cases v with
  | text s =>
    obtain rfl := dtype_of_text hholds
    simp only [Selectable]
    by_cases hall : (Scalar.text s : Scalar F).isAll = true
    · simp only [hall, if_true]
    · simp only [hall]
      exact finds_text hcolumn hcell
  | int n => exact finds_int hP (dtype_of_int hholds) hcolumn hcell
  | float x =>
    obtain rfl := dtype_of_float hholds
    exact finds_float hP hcolumn hcell
  | bool b =>
    obtain rfl := dtype_of_bool hholds
    exact iff_of_true (finds_bool hcolumn) trivial
  | instant t => exact absurd (dtype_of_instant hholds) hvalues

end Rows

/-! ## 5. A column of codes -/

/-- A decimal integer is read back. -/
theorem decimal?_toString (n : Int) : ∃ m, decimal? (toString n) = some m := by
  cases n with
  | ofNat k =>
    have hlist : (toString (Int.ofNat k)).toList = Nat.toDigits 10 k := String.toList_ofList
    have hread := Text.digits?_toDigits k
    unfold decimal?
    rw [hlist]
    split
    · next cs hcs =>
      have hdash : Text.digitValue '-' = none := by decide
      simp [hcs, Text.digits?, hdash] at hread
    · exact ⟨_, by rw [hread]; rfl⟩
  | negSucc k =>
    have hlist : (toString (Int.negSucc k)).toList = '-' :: Nat.toDigits 10 (k + 1) := by
      have hshown : toString (Int.negSucc k) = "-" ++ Nat.repr (k + 1) := rfl
      rw [hshown, String.toList_append]
      exact congrArg ("-".toList ++ ·) String.toList_ofList
    unfold decimal?
    rw [hlist]
    exact ⟨_, by simp only [Text.digits?_toDigits]; rfl⟩

theorem lawful_whole : Lawful wholePandas where
  whole_inj _ _ _ hx hy := Option.some.inj (hx.trans hy.symm)
  cast_whole x n hx hin := by
    cases hx
    exact if_pos hin
  cast_range x := by
    unfold wholePandas
    dsimp only
    split
    · assumption
    · decide
  ofInt_whole n _ _ := ⟨roundInt n, rfl, rfl⟩
  parse_text x hx := nomatch hx
  parse_decimal n _ := by
    obtain ⟨m, hm⟩ := decimal?_toString n
    exact ⟨roundInt m, congrArg (Option.map roundInt) hm, rfl⟩
  parse_nan := by decide

/-- Stores by their codes. -/
def stores : MatSource Int where
  name := "stores"
  df := Frame.single "code" .text [.value (.text "007"), .value (.text "north")] (by decide)

def byCode : FilterSpec Int := ⟨"store", "code", .select, .null, none⟩

/-- The code with leading zeros is offered, and choosing it keeps no row. -/
theorem option_selects_none :
    (∃ options, (filterOptions wholePandas [byCode] [stores]).lookup "store" = some options ∧
      .text "007" ∈ options) ∧
    ¬ Selects wholePandas [stores] stores byCode (asked byCode (.text "007"))
      (fun row => row "code" = .value (.text "007")) := by
  refine ⟨⟨_, rfl, mem_sortedValues.mpr (by decide)⟩, ?_⟩
  rintro ⟨active, out, hactive, hout, hrows⟩
  have hcount : (resolveFilters wholePandas [byCode] [("store", asked byCode (.text "007"))]
      [stores] >>= fun active => applyFilters wholePandas stores active [] false >>= fun out =>
        .ok out.df.rows.length) = .ok 0 := by
    decide +kernel
  obtain ⟨_, hactive', hcount⟩ := Except.bind_eq_ok_iff.mp hcount
  obtain ⟨_, hout', hcount⟩ := Except.bind_eq_ok_iff.mp hcount
  cases hactive.symm.trans hactive'
  cases hout.symm.trans hout'
  have hnone := Except.ok.inj hcount
  rw [hrows] at hnone
  exact absurd hnone (by decide +kernel)

/-- Choosing a code that is a word keeps its row. -/
theorem option_selects_word :
    Selects wholePandas [stores] stores byCode (asked byCode (.text "north"))
        (fun row => row "code" = .value (.text "north")) ∧
      ∃ row ∈ stores.df.rows, row "code" = .value (.text "north") := by
  refine (option_selects_iff wholePandas lawful_whole [stores] stores byCode .text
    (optionsOf wholePandas [stores] byCode) (.text "north") (List.mem_singleton.mpr rfl) (.inl rfl)
    (by decide) rfl nofun rfl (mem_sortedValues.mpr (by decide))).mpr ?_
  have hall : (Scalar.text "north" : Scalar Int).isAll = false := by decide
  simp only [Selectable, hall]
  refine ⟨fun x n hx => ?_, by decide⟩
  rw [show wholePandas.parse "north" = none by decide] at hx
  cases hx

end Apowerb.Bi.Filters
