/-
# The filters of a dashboard

`bi/spec/filters.py`: what a reader asks of a dashboard is resolved into ACTIVE filters, and each
of them cuts the rows of the frames that have its field.  Here are the filters on values (`select`,
`multi`) and on days (`date_range`); a filter by preset is a period like a range once it is
resolved, and a filter that reshapes cuts nothing.

The rows of a frame are read by the name of a column, and a column has a dtype.  An instant is a
count of nanoseconds, as a `Timestamp` holds it.

What Python and pandas do with a number or a date is taken as given (`Pandas`).  A float is a
number, and not NaN: in a column that is a cell with nothing in it, and `float()` of a text that
spells it is like one of a text that spells no number, since neither is whole.
-/
import Mathlib.Algebra.Group.Int.Defs
import Mathlib.Algebra.Group.Nat.Defs
import Apowerb.Lib.Except
import Apowerb.Raised
import Apowerb.Text

namespace Apowerb.Bi.Filters

variable {F : Type}

/-! ## 1. Frames -/

/-- A value of a cell or of a request. -/
inductive Scalar (F : Type)
  | text (s : String)
  | int (n : Int)
  | float (x : F)
  | bool (b : Bool)
  | instant (t : Int)
deriving DecidableEq

/-- A cell, where a missing value is written `None`, `nan` or `<NA>`. -/
inductive Cell (F : Type)
  | missing (shown : String)
  | value (v : Scalar F)
deriving DecidableEq

/-- The dtypes: `text` is `object` with texts, `bool` also the one that may be missing. -/
inductive Dtype
  | text | int64 | uint64 | float64 | bool | datetime
deriving DecidableEq, Repr

def int64Min : Int := -9223372036854775808
def int64Max : Int := 9223372036854775807

/-- What a column of a dtype may hold. -/
def Dtype.holds : Dtype → Cell F → Bool
  | .text, .missing _ | .text, .value (.text _) => true
  | .int64, .value (.int n) => int64Min ≤ n ∧ n ≤ int64Max
  | .uint64, .value (.int n) => 0 ≤ n ∧ n ≤ 2 * int64Max + 1
  | .float64, .missing shown => shown == "nan"
  | .float64, .value (.float _) => true
  | .bool, .missing shown => shown == "<NA>"
  | .bool, .value (.bool _) => true
  | .datetime, .missing shown => shown == "NaT"
  | .datetime, .value (.instant _) => true
  | _, _ => false

/-- A row, by the names of the columns. -/
abbrev Row (F : Type) := String → Cell F

/-- A `DataFrame`. -/
structure Frame (F : Type) where
  dtype : String → Option Dtype
  rows : List (Row F)
  typed : ∀ row ∈ rows, ∀ c d, dtype c = some d → d.holds (row c) = true

/-- `df[mask]`. -/
def Frame.where (df : Frame F) (mask : Row F → Bool) : Frame F where
  dtype := df.dtype
  rows := df.rows.filter mask
  typed row hrow := df.typed row (List.mem_of_mem_filter hrow)

/-- A frame with one column. -/
def Frame.single (field : String) (d : Dtype) (cells : List (Cell F))
    (h : ∀ cell ∈ cells, d.holds cell = true) : Frame F where
  dtype c := if c = field then some d else none
  rows := cells.map fun cell _ => cell
  typed row hrow c d' hd := by
    obtain ⟨cell, hcell, rfl⟩ := List.mem_map.mp hrow
    split at hd
    · cases hd
      exact h cell hcell
    · cases hd

/-- The cells of a column. -/
def Frame.column (df : Frame F) (c : String) : List (Cell F) := df.rows.map (· c)

/-- `MatSource`. -/
structure MatSource (F : Type) where
  name : String
  df : Frame F

/-- A value of a request: `None`, a value, a list, or the dict with `from` and `to`. -/
inductive Raw (F : Type)
  | null
  | scalar (v : Scalar F)
  | list (items : List (Option (Scalar F)))
  | range (start stop : Option (Scalar F))
deriving DecidableEq

inductive FilterType
  | select | multi | dateRange
deriving DecidableEq, Repr

/-- `FilterSpec`. -/
structure FilterSpec (F : Type) where
  id : String
  field : String
  type : FilterType
  default : Raw F
  appliesTo : Option (List String)

/-- What Python and pandas do. -/
structure Pandas (F : Type) where
  /-- `float(text)` -/
  parse : String → Option F
  /-- `float(n)`; an `OverflowError` where there is none -/
  ofInt : Int → Option F
  /-- `int(x)` of an `x` that `is_integer()` -/
  whole : F → Option Int
  /-- `str(x)` -/
  text : F → String
  /-- `astype("int64")` of a column, for a cell that is whole -/
  cast : F → Int
  /-- `v <= w` of two numbers -/
  le : Scalar F → Scalar F → Bool
  /-- `str()` of a list, a dict or a time stamp -/
  str : Raw F → String
  /-- `astype(str)` of a column of instants -/
  stamp : List (Cell F) → Int → String
  /-- `to_datetime(value, errors="coerce")` without its time zone -/
  toDatetime : Scalar F → Option Int
  /-- `to_datetime(column, errors="coerce")` at a cell, for a column that holds no instants -/
  coerced : List (Cell F) → Cell F → Option Int

/-- `float(n)` of an integer that is not too large: the nearest number of 53 bits, and the even one
of two that are. -/
def roundInt (n : Int) : Int :=
  let k := n.natAbs.log2 + 1 - 53
  let q := n.natAbs / 2 ^ k
  let r := 2 * (n.natAbs % 2 ^ k)
  n.sign * ((if r > 2 ^ k ∨ (r = 2 ^ k ∧ q % 2 = 1) then q + 1 else q) * 2 ^ k : Nat)

/-- A sign and decimal digits. -/
def decimal? (s : String) : Option Int :=
  match s.toList with
  | '-' :: cs => (Text.digits? cs).map fun n => -n
  | cs => (Text.digits? cs).map Int.ofNat

/-- Pandas where every number is whole and the only date of a request is 5 March 2024. -/
def wholePandas : Pandas Int where
  parse s := (decimal? s).map roundInt
  ofInt n := some (roundInt n)
  whole n := some n
  text n := toString n ++ ".0"
  cast n := if int64Min ≤ n ∧ n ≤ int64Max then n else int64Min
  le
    | .int n, .int m | .int n, .float m | .float n, .int m | .float n, .float m => decide (n ≤ m)
    | _, _ => false
  str _ := ""
  stamp _ _ := ""
  toDatetime
    | .text "2024-03-05" => some 1709596800000000000
    | _ => none
  coerced _ _ := none

/-! ## 2. Keys -/

/-- `astype("int64")` of a column of integers, which wraps. -/
def asInt64 (n : Int) : Int := (n - int64Min) % 2 ^ 64 + int64Min

/-- `_key(column)`, at a cell. -/
def key (P : Pandas F) (column : List (Cell F)) : Cell F → String
  | .missing shown => shown
  | .value (.text s) => s
  | .value (.int n) => toString (asInt64 n)
  | .value (.float x) => if (P.whole x).isSome then toString (P.cast x) else P.text x
  | .value (.bool b) => if b then "True" else "False"
  | .value (.instant t) => P.stamp column t

/-- `str(value)`. -/
def pyStr (P : Pandas F) : Scalar F → String
  | .text s => s
  | .int n => toString n
  | .float x => P.text x
  | .bool b => if b then "True" else "False"
  | .instant t => P.str (.scalar (.instant t))

/-- `float(value)`: an `OverflowError`, or nothing where the error is caught. -/
def number (P : Pandas F) : Scalar F → Except Raised (Option F)
  | .text s => .ok (P.parse s)
  | .int n =>
    match P.ofInt n with
    | some x => .ok (some x)
    | none => .error (.other "OverflowError")
  | .float x => .ok (some x)
  | .bool _ | .instant _ => .ok none

/-- `_vkey`. -/
def vkey (P : Pandas F) (value : Scalar F) : Except Raised String :=
  (number P value).map fun x =>
    match x.bind P.whole with
    | some n => toString n
    | none => pyStr P value

def allStrings : List String := ["", "all", "__all__", "*"]

/-- `_is_all` of a value that is there. -/
def Scalar.isAll : Scalar F → Bool
  | .text s => Text.lowerAscii (Text.strip s) ∈ allStrings
  | _ => false

/-- `_is_all`. -/
def Raw.isAll : Raw F → Bool
  | .null => true
  | .scalar v => v.isAll
  | _ => false

/-- The items of a list that are not `_is_all`. -/
def wanted (items : List (Option (Scalar F))) : List (Scalar F) :=
  items.filterMap fun item => item.bind fun v => if v.isAll then none else some v

/-- `items or None`. -/
def orNone {α : Type} (items : List α) : Option (List α) := if items = [] then none else some items

/-- `_normalise_multi`. -/
def normaliseMulti (P : Pandas F) : Raw F → Option (List (Scalar F))
  | .null => none
  | .scalar v => if v.isAll then none else pieces (pyStr P v)
  | .list items => orNone (wanted items)
  | .range start stop => pieces (P.str (.range start stop))
where
  /-- The pieces of a text between commas, without those that are blank. -/
  pieces (s : String) : Option (List (Scalar F)) :=
    orNone (((s.toList.splitOn ',').map Text.stripChars).filter (· ≠ []) |>.map
      fun piece => .text (String.ofList piece))

/-! ## 3. Days -/

def nanosPerDay : Int := 86400000000000
def nanosPerMicro : Int := 1000

/-- The bounds of a `Timestamp`. -/
def inTimestamp (t : Int) : Bool := int64Min < t ∧ t ≤ int64Max

/-- `t + delta` of time stamps. -/
def shift (t delta : Int) : Except Raised Int :=
  if inTimestamp (t + delta) then .ok (t + delta) else .error (.other "OutOfBoundsDatetime")

theorem shift_eq_ok_iff {t delta r : Int} :
    shift t delta = .ok r ↔ inTimestamp (t + delta) = true ∧ t + delta = r := by
  unfold shift
  split <;> simp [*]

/-- `_to_ts`. -/
def toTs (P : Pandas F) (value : Option (Scalar F)) : Option Int :=
  value.bind fun v => if v.isAll then none else P.toDatetime v

/-- The two ends that a value of a range names. -/
def Raw.ends : Raw F → Option (Scalar F) × Option (Scalar F)
  | .range start stop | .list [start, stop] => (start, stop)
  | _ => (none, none)

/-! ## 4. Resolution -/

/-- What an active filter asks for. -/
inductive Wanted (F : Type)
  | nothing
  | one (value : Raw F)
  | many (values : List (Scalar F))
  | span (start stop : Option (Scalar F))
deriving DecidableEq

/-- `ActiveFilter`. -/
structure ActiveFilter (F : Type) where
  spec : FilterSpec F
  value : Wanted F
  loExcl : Option Int
  hiIncl : Option Int
  sources : List String

def ActiveFilter.isPeriod (flt : ActiveFilter F) : Bool := flt.spec.type = .dateRange

def ActiveFilter.restricts (flt : ActiveFilter F) : Bool :=
  if flt.isPeriod then flt.loExcl.isSome || flt.hiIncl.isSome
  else
    match flt.value with
    | .nothing => false
    | _ => true

/-- Whether a filter goes over a source. -/
def FilterSpec.appliesIn (spec : FilterSpec F) (m : MatSource F) : Bool :=
  (m.df.dtype spec.field).isSome &&
    match spec.appliesTo with
    | none => true
    | some names => m.name ∈ names

/-- `_resolve_range`. -/
def resolveRange (P : Pandas F) (spec : FilterSpec F) (raw : Raw F) (sources : List String) :
    Except Raised (ActiveFilter F) := do
  let lo := toTs P raw.ends.1
  let hi := toTs P raw.ends.2
  let loExcl ← lo.mapM fun t => shift t (-nanosPerDay)
  let hiIncl ← hi.mapM fun t => do shift (← shift t nanosPerDay) (-nanosPerMicro)
  let value := if lo = none ∧ hi = none then .nothing else .span raw.ends.1 raw.ends.2
  .ok ⟨spec, value, loExcl, hiIncl, sources⟩

/-- `resolve_filters`, for one filter. -/
def resolve (P : Pandas F) (requested : List (String × Raw F)) (mats : List (MatSource F))
    (spec : FilterSpec F) : Except Raised (ActiveFilter F) :=
  let raw := (requested.lookup spec.id).getD spec.default
  let sources := (mats.filter spec.appliesIn).map (·.name)
  match spec.type with
  | .select => .ok ⟨spec, if raw.isAll then .nothing else .one raw, none, none, sources⟩
  | .multi =>
    let value := match normaliseMulti P raw with
      | none => .nothing
      | some values => .many values
    .ok ⟨spec, value, none, none, sources⟩
  | .dateRange => resolveRange P spec raw sources

/-- `resolve_filters`: the active filters in the order of their specifications, of which a later
one takes the place of an earlier one with its id. -/
def resolveFilters (P : Pandas F) (specs : List (FilterSpec F)) (requested : List (String × Raw F))
    (mats : List (MatSource F)) : Except Raised (List (ActiveFilter F)) := do
  let active ← specs.mapM (resolve P requested mats)
  .ok (active.foldl place [])
where
  place (active : List (ActiveFilter F)) (flt : ActiveFilter F) : List (ActiveFilter F) :=
    if active.any (·.spec.id = flt.spec.id) then
      active.map fun other => if other.spec.id = flt.spec.id then flt else other
    else active ++ [flt]

/-! ## 5. The choices -/

/-- `v == w` of two values. -/
def pyEq (P : Pandas F) : Scalar F → Scalar F → Bool
  | .text s, .text t => s == t
  | .instant s, .instant t => s == t
  | v, w => isNumber v && isNumber w && P.le v w && P.le w v
where
  isNumber : Scalar F → Bool
    | .int _ | .float _ | .bool _ => true
    | _ => false

/-- `values.update(items)`: a value equal to one that is there is left out. -/
def update (P : Pandas F) (values items : List (Scalar F)) : List (Scalar F) :=
  items.foldl (fun vs v => if vs.any (pyEq P v) then vs else vs ++ [v]) values

/-- `v <= w`; nothing where the two do not compare. -/
def le? (P : Pandas F) : Scalar F → Scalar F → Option Bool
  | .text s, .text t => some (decide (s ≤ t))
  | .instant s, .instant t => some (decide (s ≤ t))
  | v, w => if pyEq.isNumber v && pyEq.isNumber w then some (P.le v w) else none

/-- `sorted(values)`, and by their texts where two of them do not compare. -/
def sortedValues (P : Pandas F) (values : List (Scalar F)) : List (Scalar F) :=
  if values.all fun v => values.all fun w => (le? P v w).isSome then
    values.mergeSort fun v w => (le? P v w).getD true
  else values.mergeSort fun v w => decide (pyStr P v ≤ pyStr P w)

/-- `m.df[field].dropna().unique().tolist()`, but for the repetitions that `update` drops. -/
def MatSource.values (m : MatSource F) (field : String) : List (Scalar F) :=
  (m.df.column field).filterMap fun
    | .missing _ => none
    | .value v => some v

/-- `filter_options`, for one filter. -/
def optionsOf (P : Pandas F) (mats : List (MatSource F)) (spec : FilterSpec F) : List (Scalar F) :=
  sortedValues P ((mats.filter spec.appliesIn).foldl (fun vs m => update P vs (m.values spec.field)) [])

/-- `filter_options`. -/
def filterOptions (P : Pandas F) (specs : List (FilterSpec F)) (mats : List (MatSource F)) :
    List (String × List (Scalar F)) :=
  ((specs.filter fun spec => spec.type = .select ∨ spec.type = .multi).map
    fun spec => (spec.id, optionsOf P mats spec)).reverse

/-! ## 6. Application -/

/-- `to_datetime(col, errors="coerce")`, at a cell. -/
def dateOf (P : Pandas F) (df : Frame F) (field : String) (cell : Cell F) : Option Int :=
  match df.dtype field, cell with
  | some .datetime, .value (.instant t) => some t
  | some .datetime, _ => none
  | _, cell => P.coerced (df.column field) cell

/-- Whether a date lies within a period. -/
def within (loExcl hiIncl : Option Int) (date : Option Int) : Bool :=
  loExcl.all (fun lo => date.any (lo < ·)) && hiIncl.all (fun hi => date.any (· ≤ hi))

/-- The key of the value of a `select` filter. -/
def rawKey (P : Pandas F) : Raw F → Except Raised String
  | .scalar v => vkey P v
  | raw => .ok (P.str raw)

/-- The mask of a filter over a frame. -/
def part (P : Pandas F) (df : Frame F) (flt : ActiveFilter F) : Except Raised (Row F → Bool) :=
  let field := flt.spec.field
  if flt.isPeriod then
    .ok fun row => within flt.loExcl flt.hiIncl (dateOf P df field (row field))
  else
    match flt.value with
    | .many values => do
      let keys ← values.mapM (vkey P)
      .ok fun row => key P (df.column field) (row field) ∈ keys
    | .one raw => do
      let wantedKey ← rawKey P raw
      .ok fun row => key P (df.column field) (row field) = wantedKey
    | _ => .ok fun _ => true

/-- What `apply_filters` returns: the frame, the ids of the filters that cut it with their values,
and the ids of those skipped. -/
structure Filtered (F : Type) where
  df : Frame F
  applied : List (String × Wanted F)
  ignored : List String

/-- `apply_filters`, on one filter after those before it. -/
def applyOne (P : Pandas F) (m : MatSource F) (skip : List String) (skipPeriods : Bool)
    (acc : Filtered F) (flt : ActiveFilter F) : Except Raised (Filtered F) :=
  if m.name ∉ flt.sources then .ok acc
  else if flt.spec.id ∈ skip then .ok { acc with ignored := acc.ignored ++ [flt.spec.id] }
  else if !flt.restricts || (flt.isPeriod && skipPeriods) then .ok acc
  else do
    let mask ← part P m.df flt
    .ok { acc with
      df := acc.df.where mask
      applied := acc.applied ++ [(flt.spec.id, flt.value)] }

/-- `apply_filters`.  The masks are all of the frame as it came, so that cutting it by one after the
other is cutting it by all of them. -/
def applyFilters (P : Pandas F) (m : MatSource F) (active : List (ActiveFilter F))
    (skip : List String) (skipPeriods : Bool) : Except Raised (Filtered F) :=
  active.foldlM (applyOne P m skip skipPeriods) ⟨m.df, [], []⟩

/-! ## 7. One filter alone -/

/-- The mask of a filter; where it does not cut, the mask that keeps all. -/
def cut (P : Pandas F) (m : MatSource F) (flt : ActiveFilter F) : Except Raised (Row F → Bool) :=
  if m.name ∈ flt.sources ∧ flt.restricts = true then part P m.df flt else .ok fun _ => true

/-- A request for one filter keeps exactly the rows that it is to keep. -/
def Selects (P : Pandas F) (mats : List (MatSource F)) (m : MatSource F) (spec : FilterSpec F)
    (raw : Raw F) (keep : Row F → Bool) : Prop :=
  ∃ active out, resolveFilters P [spec] [(spec.id, raw)] mats = .ok active ∧
    applyFilters P m active [] false = .ok out ∧ out.df.rows = m.df.rows.filter keep

theorem filter_eq_filter_iff {α : Type} {p q : α → Bool} {l : List α} :
    l.filter p = l.filter q ↔ ∀ x ∈ l, p x = q x := by
  constructor
  · intro h x hx
    have hiff : x ∈ l.filter p ↔ x ∈ l.filter q := by rw [h]
    rw [List.mem_filter, List.mem_filter] at hiff
    exact Bool.eq_iff_iff.mpr ⟨fun hp => (hiff.mp ⟨hx, hp⟩).2, fun hq => (hiff.mpr ⟨hx, hq⟩).2⟩
  · exact List.filter_congr

variable {P : Pandas F} {mats : List (MatSource F)} {m : MatSource F} {spec : FilterSpec F}
  {raw : Raw F}

theorem resolveFilters_singleton (active : List (ActiveFilter F)) :
    resolveFilters P [spec] [(spec.id, raw)] mats = .ok active ↔
      ∃ flt, resolve P [(spec.id, raw)] mats spec = .ok flt ∧ active = [flt] := by
  simp only [resolveFilters, List.mapM_cons, List.mapM_nil, Except.bind_eq_ok_iff, Except.ok.injEq]
  constructor
  · rintro ⟨_, ⟨flt, hflt, rest, hrest, hall⟩, hplaced⟩
    cases hrest
    cases hall
    exact ⟨flt, hflt, hplaced.symm⟩
  · rintro ⟨flt, hflt, rfl⟩
    exact ⟨[flt], ⟨flt, hflt, [], rfl, rfl⟩, rfl⟩

theorem applyFilters_singleton {flt : ActiveFilter F} {keep : Row F → Bool} :
    (∃ out, applyFilters P m [flt] [] false = .ok out ∧ out.df.rows = m.df.rows.filter keep) ↔
      ∃ mask, cut P m flt = .ok mask ∧ ∀ row ∈ m.df.rows, mask row = keep row := by
  have hwhole : m.df.rows = m.df.rows.filter fun _ => true := by simp
  simp only [applyFilters, List.foldlM_cons, List.foldlM_nil, applyOne, cut, List.not_mem_nil,
    if_false, Bool.and_false, Bool.or_false]
  by_cases hin : m.name ∈ flt.sources
  · cases hcut : flt.restricts with
    | false =>
      simp only [hin, not_true, if_false, Bool.not_false, if_true, and_false, Bool.false_eq_true]
      constructor
      · rintro ⟨out, hout, hrows⟩
        cases hout
        exact ⟨_, rfl, filter_eq_filter_iff.mp (hwhole.symm.trans hrows)⟩
      · rintro ⟨mask, hmask, hrows⟩
        cases hmask
        exact ⟨_, rfl, hwhole.trans (filter_eq_filter_iff.mpr hrows)⟩
    | true =>
      simp only [hin, not_true, if_false, Bool.not_true, Bool.false_eq_true, and_self, if_true]
      constructor
      · rintro ⟨out, hout, hrows⟩
        obtain ⟨acc, hacc, hout⟩ := Except.bind_eq_ok_iff.mp hout
        obtain ⟨mask, hmask, hacc⟩ := Except.bind_eq_ok_iff.mp hacc
        cases hacc
        cases hout
        exact ⟨mask, hmask, filter_eq_filter_iff.mp hrows⟩
      · rintro ⟨mask, hmask, hrows⟩
        exact ⟨_, by rw [hmask]; rfl, filter_eq_filter_iff.mpr hrows⟩
  · simp only [hin, not_false_eq_true, if_true, false_and, if_false]
    constructor
    · rintro ⟨out, hout, hrows⟩
      cases hout
      exact ⟨_, rfl, filter_eq_filter_iff.mp (hwhole.symm.trans hrows)⟩
    · rintro ⟨mask, hmask, hrows⟩
      cases hmask
      exact ⟨_, rfl, hwhole.trans (filter_eq_filter_iff.mpr hrows)⟩

theorem selects_iff {keep : Row F → Bool} : Selects P mats m spec raw keep ↔
    ∃ flt mask, resolve P [(spec.id, raw)] mats spec = .ok flt ∧ cut P m flt = .ok mask ∧
      ∀ row ∈ m.df.rows, mask row = keep row := by
  unfold Selects
  constructor
  · rintro ⟨active, out, hactive, hout, hrows⟩
    obtain ⟨flt, hflt, rfl⟩ := (resolveFilters_singleton active).mp hactive
    obtain ⟨mask, hmask, hkeep⟩ := applyFilters_singleton.mp ⟨out, hout, hrows⟩
    exact ⟨flt, mask, hflt, hmask, hkeep⟩
  · rintro ⟨flt, mask, hflt, hmask, hkeep⟩
    obtain ⟨out, hout, hrows⟩ := applyFilters_singleton.mpr ⟨mask, hmask, hkeep⟩
    exact ⟨[flt], out, (resolveFilters_singleton _).mpr ⟨flt, hflt, rfl⟩, hout, hrows⟩

end Apowerb.Bi.Filters
