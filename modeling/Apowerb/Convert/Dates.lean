/-
# Reading a date

`_parse_date` of `core/workflow_graph.py`: what a `convert` node with the target `date` reads.  A
number is a count of seconds since 1970, a text is a date as the French write it or an ISO one.

The result of `fromisoformat` loses its offset (`replace(tzinfo=None)`), though the docstring says
"naïf, UTC": the wall clock that is left is that of the offset, not of UTC.
`parseDate_of_offset` says so, `parseDate_isoformat` that a result is read back as it is.

`datetime.fromtimestamp` is CPython's on Linux: `time_t` has 64 bits, and `gmtime` fails where the
year does not fit a C `int`.
-/
import Apowerb.Convert.Numbers
import Apowerb.Schedule.Zulu

namespace Apowerb.Convert

open Schedule Schedule.Iso

/-- A `date`, or a naive `datetime`. -/
inductive Parsed
  | date (ordinal : Int)
  | datetime (wall : Int)
deriving DecidableEq, Repr

/-- `value.isoformat()`. -/
def Parsed.isoformat : Parsed → String
  | .date ordinal => String.ofList (dateText ordinal)
  | .datetime wall => String.ofList (datetimeText wall)

/-! ## 1. `%d/%m/%Y` -/

/-- `[a-b]`, for digits of ASCII. -/
def digitIn (low high : Nat) (c : Char) : Option Nat :=
  if c.isDigit ∧ low ≤ c.toNat - '0'.toNat ∧ c.toNat - '0'.toNat ≤ high then
    some (c.toNat - '0'.toNat)
  else none

/-- `3[0-1]|[1-2]\d|0[1-9]|[1-9]| [1-9]`: `\d` is any decimal digit of Unicode. -/
def dayField : List Char → Option Nat
  | [d] => digitIn 1 9 d
  | ['3', d] => (digitIn 0 1 d).map (30 + ·)
  | ['2', d] => (Text.digitValue d).map (20 + ·)
  | ['1', d] => (Text.digitValue d).map (10 + ·)
  | ['0', d] => digitIn 1 9 d
  | [' ', d] => digitIn 1 9 d
  | _ => none

/-- `1[0-2]|0[1-9]|[1-9]`. -/
def monthField : List Char → Option Nat
  | [m] => digitIn 1 9 m
  | ['1', m] => (digitIn 0 2 m).map (10 + ·)
  | ['0', m] => digitIn 1 9 m
  | _ => none

/-- `\d\d\d\d`. -/
def yearField (cs : List Char) : Option Nat :=
  if cs.length = 4 then Text.digits? cs else none

/-- `datetime.strptime(text, "%d/%m/%Y").date()`. -/
def strptime? (cs : List Char) : Option Int :=
  match Text.splitFirst '/' cs with
  | (d, some rest) =>
    match Text.splitFirst '/' rest with
    | (m, some y) => do
      let day ← dayField d
      let month ← monthField m
      let year ← yearField y
      ordinal? ⟨year, month, day⟩
    | _ => none
  | _ => none

/-! ## 2. Numbers -/

/-- The ordinal of 1 January 1970. -/
def epochOrdinal : Int := 719163

/-- A number of seconds, in microseconds: its fraction is multiplied as a double, then rounded. -/
def timestampMicros (units : Int) : Int :=
  let whole := units.tdiv Double.one
  let fraction := units - whole * Double.one
  let scaled := Double.rounded (fraction.natAbs * 1000000) 1
  let micros : Int := Double.halfEven scaled Double.one
  whole * 1000000 + if fraction < 0 then -micros else micros

/-- The year of a number of seconds since 1970. -/
def yearOf (seconds : Int) : Int := (ord2ymd (epochOrdinal + seconds / 86400)).year

/-- `datetime.fromtimestamp(x, tz=timezone.utc).replace(tzinfo=None)`. -/
def fromTimestamp : Double → Except Raised Int
  | .nan => .error (.other "ValueError")
  | .infinity _ => .error (.other "OverflowError")
  | .finite units =>
    let micros := timestampMicros units
    let seconds := micros / 1000000
    if seconds < -2 ^ 63 ∨ 2 ^ 63 ≤ seconds then .error (.other "OverflowError")
    else if yearOf seconds - 1900 < -2 ^ 31 ∨ 2 ^ 31 ≤ yearOf seconds - 1900 then
      .error (.other "OSError")
    else
      let wall := epochOrdinal * microsPerDay + micros
      if InReach wall then .ok wall else .error (.other "ValueError")

/-! ## 3. The code -/

/-- `text[:-1] + "+00:00" if text.endswith("Z") else text`. -/
def isoText (cs : List Char) : List Char :=
  if cs.getLast? = some 'Z' then cs.dropLast ++ utc else cs

/-- What `_parse_date` does with a text that is not empty. -/
def parseText (cs : List Char) : Except Raised Parsed :=
  match strptime? cs with
  | some ordinal => .ok (.date ordinal)
  | none =>
    match dateFromIso? (isoText cs) with
    | some ordinal => .ok (.date ordinal)
    | none =>
      match datetime? (isoText cs) with
      | some (wall, _) => .ok (.datetime wall)
      | none => .error (.other "ValueError")

/-- `_parse_date`. -/
def parseDate : Value → Except Raised Parsed
  | .bool _ => .error (.other "ValueError")
  | .int i => do
    let x ← floatOfInt i
    return .datetime (← fromTimestamp x)
  | .float m k => (fromTimestamp (Double.ofDecimal m k)).map .datetime
  | .str s =>
    if Text.stripChars s.toList = [] then .error (.other "ValueError")
    else parseText (Text.stripChars s.toList)
  | _ => .error (.other "ValueError")

/-! ## 4. What is read, and read again -/

/-- A text that begins with four digits has no day before its first slash. -/
theorem strptime?_of_digits {ds rest : List Char} (hlength : ds.length = 4)
    (hdigits : ∀ c ∈ ds, c.isDigit = true) : strptime? (ds ++ rest) = none := by
  have hslash : ∀ c ∈ ds, decide (c ≠ '/') = true := by
    intro c hc
    rw [decide_eq_true_eq]
    rintro rfl
    exact absurd (hdigits '/' hc) (by decide)
  obtain ⟨a, b, c, d, rfl⟩ : ∃ a b c d, ds = [a, b, c, d] := by
    match ds, hlength with
    | [a, b, c, d], _ => exact ⟨a, b, c, d, rfl⟩
  have htake : ((([a, b, c, d] ++ rest).takeWhile fun c => decide (c ≠ '/'))) =
      [a, b, c, d] ++ rest.takeWhile fun c => decide (c ≠ '/') :=
    List.takeWhile_append_of_pos hslash
  have hday : ∀ tail, dayField ([a, b, c, d] ++ tail) = none := fun tail => by
    unfold dayField
    rfl
  unfold strptime? Text.splitFirst
  split
  · rename_i day rest' heq
    split at heq
    · cases heq
    · cases heq
      rw [htake, hday]
      split <;> rfl
  · rfl

theorem strptime?_of_date {cs rest : List Char} {ordinal : Int}
    (h : date? cs = some (ordinal, rest)) : strptime? cs = none := by
  obtain ⟨ds, rest', rfl, hlength, hdigits⟩ := of_date? h
  exact strptime?_of_digits hlength hdigits

theorem date?_of_datetime? {cs : List Char} {wall : Int} {offset : Option Int}
    (h : datetime? cs = some (wall, offset)) : ∃ ordinal rest, date? cs = some (ordinal, rest) := by
  obtain ⟨⟨ordinal, rest⟩, hdate, -⟩ := Option.bind_eq_some_iff.mp h
  exact ⟨ordinal, rest, hdate⟩

/-- **The wall clock of a `datetime` with an offset is kept as it is**, whatever the offset. -/
theorem parseText_of_offset {cs : List Char} {wall offset : Int}
    (h : datetime? cs = some (wall, some offset)) : parseText cs = .ok (.datetime wall) := by
  obtain ⟨ordinal, rest, hdate⟩ := date?_of_datetime? h
  obtain ⟨o, hiso⟩ : ∃ o, datetime? (isoText cs) = some (wall, some o) := by
    unfold isoText
    split
    · rename_i hZ
      obtain ⟨init, rfl⟩ := List.getLast?_eq_some_iff.mp hZ
      rw [List.dropLast_concat]
      exact ⟨0, (datetime?_zulu h).2⟩
    · exact ⟨offset, h⟩
  unfold parseText
  rw [strptime?_of_date hdate]
  dsimp only
  rw [dateFromIso?_of_offset hiso, hiso]

theorem parseDate_of_offset {s : String} {wall offset : Int}
    (h : datetime? (Text.stripChars s.toList) = some (wall, some offset)) :
    parseDate (.str s) = .ok (.datetime wall) := by
  unfold parseDate
  dsimp only
  split
  · rename_i hempty
    rw [hempty] at h
    cases h
  · exact parseText_of_offset h

/-- What a result is made of. -/
def Parsed.Valid : Parsed → Prop
  | .date ordinal => 1 ≤ ordinal ∧ ordinal ≤ maxOrdinal
  | .datetime wall => InReach wall

theorem strptime?_bounds {cs : List Char} {ordinal : Int} (h : strptime? cs = some ordinal) :
    1 ≤ ordinal ∧ ordinal ≤ maxOrdinal := by
  unfold strptime? at h
  split at h
  · split at h
    · obtain ⟨day, -, h⟩ := Option.bind_eq_some_iff.mp h
      obtain ⟨month, -, h⟩ := Option.bind_eq_some_iff.mp h
      obtain ⟨year, -, h⟩ := Option.bind_eq_some_iff.mp h
      exact ordinal?_bounds h
    · cases h
  · cases h

theorem fromTimestamp_inReach {x : Double} {wall : Int} (h : fromTimestamp x = .ok wall) :
    InReach wall := by
  unfold fromTimestamp at h
  split at h
  · cases h
  · cases h
  · dsimp only at h
    split at h
    · cases h
    · split at h
      · cases h
      · split at h
        · rename_i hreach
          cases h
          exact hreach
        · cases h

theorem parseText_valid {cs : List Char} {p : Parsed} (h : parseText cs = .ok p) : p.Valid := by
  unfold parseText at h
  split at h
  · rename_i hslash
    cases h
    exact strptime?_bounds hslash
  · split at h
    · rename_i hdate
      cases h
      exact date?_bounds (of_dateFromIso? hdate)
    · split at h
      · rename_i hdatetime
        cases h
        exact datetime?_inReach hdatetime
      · cases h

theorem parseDate_valid {v : Value} {p : Parsed} (h : parseDate v = .ok p) : p.Valid := by
  unfold parseDate at h
  split at h
  · cases h
  · obtain ⟨x, -, h⟩ := Except.bind_eq_ok_iff.mp h
    obtain ⟨wall, hwall, h⟩ := Except.bind_eq_ok_iff.mp h
    cases h
    exact fromTimestamp_inReach hwall
  · rename_i m k
    cases hwall : fromTimestamp (Double.ofDecimal m k) with
    | error e =>
      rw [hwall] at h
      cases h
    | ok wall =>
      rw [hwall] at h
      cases h
      exact fromTimestamp_inReach hwall
  · split at h
    · cases h
    · exact parseText_valid h
  · cases h

/-- A character that neither `strip` nor the test of a final `Z` touches. -/
def isPlain (c : Char) : Bool := !Text.isSpace c && c != 'Z'

theorem stripChars_of_plain {cs : List Char} (h : ∀ c ∈ cs, isPlain c = true) :
    Text.stripChars cs = cs := by
  have hspace : ∀ c ∈ cs, Text.isSpace c = false := by
    intro c hc
    have hplain := h c hc
    unfold isPlain at hplain
    simp only [Bool.and_eq_true, Bool.not_eq_true'] at hplain
    exact hplain.1
  have hdrop : cs.dropWhile Text.isSpace = cs := by
    cases cs with
    | nil => rfl
    | cons c cs => rw [List.dropWhile_cons_of_neg (by simp [hspace c])]
  unfold Text.stripChars
  rw [hdrop]
  rcases List.eq_nil_or_concat cs with rfl | ⟨init, c, rfl⟩
  · rfl
  · rw [List.concat_eq_append, List.rdropWhile_concat_neg _ _ _ (by simp [hspace c])]

theorem isoText_of_plain {cs : List Char} (h : ∀ c ∈ cs, isPlain c = true) : isoText cs = cs := by
  unfold isoText
  rw [if_neg]
  intro hZ
  exact absurd (h 'Z' (List.mem_of_getLast? hZ)) (by decide)

theorem digit_plain : ∀ d < 10, isPlain (Nat.digitChar d) = true := by decide

theorem dateText_plain (ordinal : Int) : ∀ c ∈ dateText ordinal, isPlain c = true := by
  have hpadded := forall_padded (P := (isPlain · = true)) digit_plain
  intro c hc
  unfold dateText at hc
  dsimp only at hc
  simp only [List.append_assoc, List.cons_append, List.mem_append, List.mem_cons] at hc
  rcases hc with hc | rfl | hc | rfl | hc
  · exact hpadded _ _ c hc
  · rfl
  · exact hpadded _ _ c hc
  · rfl
  · exact hpadded _ _ c hc

theorem isoformat_plain (p : Parsed) : ∀ c ∈ p.isoformat.toList, isPlain c = true := by
  intro c hc
  cases p with
  | date ordinal =>
    unfold Parsed.isoformat at hc
    rw [String.toList_ofList] at hc
    exact dateText_plain ordinal c hc
  | datetime wall =>
    unfold Parsed.isoformat datetimeText at hc
    rw [String.toList_ofList] at hc
    rcases List.mem_append.mp hc with hc | hc
    · exact dateText_plain _ c hc
    · rcases List.mem_cons.mp hc with rfl | hc
      · rfl
      · exact forall_timeText (P := (isPlain · = true)) digit_plain rfl rfl _ c hc

theorem parseText_isoformat {p : Parsed} (h : p.Valid) :
    parseText p.isoformat.toList = .ok p := by
  have hiso := isoText_of_plain (isoformat_plain p)
  cases p with
  | date ordinal =>
    have hread := dateFromIso?_dateText h
    unfold Parsed.isoformat at hiso ⊢
    rw [String.toList_ofList] at hiso ⊢
    unfold parseText
    rw [strptime?_of_date (of_dateFromIso? hread), hiso, hread]
  | datetime wall =>
    have hread := datetime?_datetimeText h
    have hdate : date? (datetimeText wall) =
        some (ordinalOf wall, 'T' :: timeText (wall % microsPerDay).toNat) := date?_dateText h _
    unfold Parsed.isoformat at hiso ⊢
    rw [String.toList_ofList] at hiso ⊢
    unfold parseText dateFromIso?
    rw [strptime?_of_date hdate, hiso, hread, hdate]

/-- **A result is read back as it is.** -/
theorem parseDate_isoformat {v : Value} {p : Parsed} (h : parseDate v = .ok p) :
    parseDate (.str p.isoformat) = .ok p := by
  have hread := parseText_isoformat (parseDate_valid h)
  unfold parseDate
  dsimp only
  rw [stripChars_of_plain (isoformat_plain p)]
  split
  · rename_i hempty
    rw [hempty] at hread
    cases hread
  · exact hread

example : parseDate (.int 0) = .ok (.datetime (wallOf ⟨1970, 1, 1⟩ 0 0)) := by decide +kernel
example : parseDate (.str "31/02/2024") = .error (.other "ValueError") := by decide +kernel

end Apowerb.Convert
