/-
# CSV

`_rows_to_csv` and `_csv_to_rows` of `core/workflow_graph.py`: what a `convert` node with the target
`csv` makes of a list of rows, and of a text.

The writer always separates with a comma; the reader asks `csv.Sniffer`, which may answer with a
semicolon or a tab that the cells hold.  `csvToRows_rowsToCsv_iff` says of each table when it comes
back: with the comma always, up to the longest field that the reader takes; with another delimiter
only where there is one column, and where each cell that holds the delimiter is quoted.
-/
import Apowerb.Convert.Numbers
import Apowerb.Lib.Assoc
import Apowerb.Lib.Csv

namespace Apowerb.Convert

/-! ## 1. The code -/

/-- `MAX_CSV_BYTES`, `MAX_CSV_ROWS`, and `csv.field_size_limit()`. -/
def maxCsvBytes : Nat := 1048576
def maxCsvRows : Nat := 10000
def fieldLimit : Nat := 131072

/-- `_CSV_DELIMITERS`. -/
def csvDelimiters : List Char := [',', ';', '\t']

/-- The keys of the rows, in the order of their first appearance. -/
def fieldnames (rows : List Dict) : List String :=
  rows.foldl (fun names row => row.foldl
    (fun names e => if e.1 ∈ names then names else names ++ [e.1]) names) []

/-- What `csv.writer` writes for a value. -/
def cellText (py : Interpreter) : Value → Except Raised String
  | .null => .ok ""
  | .str s => .ok s
  | v => strOf py v

/-- One row of `csv.DictWriter`: an empty text where a key is missing. -/
def recordOf (py : Interpreter) (names : List String) (row : Dict) :
    Except Raised (List String) :=
  names.mapM fun key => cellText py (row.getOr key (.str ""))

/-- The text of the records. -/
def written (records : List (List String)) : String :=
  String.ofList (records.flatMap fun r => Csv.writeRecord ',' (r.map String.toList))

/-- `_rows_to_csv`. -/
def rowsToCsv (py : Interpreter) (rows : List Dict) : Except Raised String := do
  refuse (maxCsvRows < rows.length) (.other "ValueError")
  let cells ← rows.mapM (recordOf py (fieldnames rows))
  let text := written (fieldnames rows :: cells)
  refuse (maxCsvBytes < text.utf8ByteSize) (.other "ValueError")
  return text

/-- A row of `csv.DictReader`: `None` where the record was too short, and what was too many under
the key `None`. -/
structure Row where
  named : List (String × Option String)
  rest : Option (List String)
deriving DecidableEq, Repr

/-- The cells of a record with their names, `None` for those that are missing. -/
def cellsUnder (header record : List String) : List (String × Option String) :=
  header.zip (record.map some) ++ (header.drop record.length).map fun key => (key, none)

/-- A record under the names of the first one. -/
def toRow (header record : List String) : Row where
  named := Assoc.fill (cellsUnder header record)
  rest := if header.length < record.length then some (record.drop header.length) else none

/-- `csv.DictReader`: empty lines are skipped after the first record. -/
def dictReader : List (List String) → List Row
  | [] => []
  | header :: records => (records.filter (· ≠ [])).map (toRow header)

/-- The delimiter that the reader uses. -/
def delimiterOf (py : Interpreter) (text : String) : Char :=
  (py.sniff (String.ofList (text.toList.take 4096))).getD ','

/-- `_csv_to_rows`: rows are counted as they are read, so that a text with too many of them is
refused before an error that comes after. -/
def csvToRows (py : Interpreter) (text : String) : Except Raised (List Row) := do
  refuse (maxCsvBytes < text.utf8ByteSize) (.other "ValueError")
  let (records, failed) :=
    Csv.records fieldLimit (delimiterOf py text) Csv.start text.toList
  let rows := dictReader (records.map (·.map String.ofList))
  refuse (maxCsvRows < rows.length) (.other "ValueError")
  refuse (failed = true) (.other "csv.Error")
  return rows

/-! ## 2. Tables -/

/-- Rows of texts, one at least, with the same keys. -/
structure Table where
  first : List (String × String)
  others : List (List (String × String))
  nodup : (first.map (·.1)).Nodup
  same : ∀ row ∈ others, (row.map (·.1)).Perm (first.map (·.1))

namespace Table

def rows (t : Table) : List (List (String × String)) := t.first :: t.others

def keys (t : Table) : List String := t.first.map (·.1)

/-- The rows as the code receives them. -/
def dicts (t : Table) : List Dict := t.rows.map fun row => row.map fun e => (e.1, .str e.2)

/-- The cells of a row in the order of the keys. -/
def record (t : Table) (row : List (String × String)) : List String :=
  t.keys.map fun key => (row.lookup key).getD ""

/-- The keys, and the cells of each row. -/
def records (t : Table) : List (List String) := t.keys :: t.rows.map t.record

theorem perm_keys (t : Table) {row : List (String × String)} (h : row ∈ t.rows) :
    (row.map (·.1)).Perm t.keys := by
  rcases List.mem_cons.mp h with rfl | h
  · exact List.Perm.refl _
  · exact t.same row h

theorem nodup_keys (t : Table) {row : List (String × String)} (h : row ∈ t.rows) :
    (row.map (·.1)).Nodup :=
  (t.perm_keys h).nodup_iff.mpr t.nodup

end Table

/-- A row that is read is a row that was written. -/
def Row.Is (r : Row) (row : List (String × String)) : Prop :=
  r.rest = none ∧ r.named.Perm (row.map fun e => (e.1, some e.2))

/-- What comes back is what was written. -/
def ComesBack (py : Interpreter) (t : Table) (text : String) : Prop :=
  ∃ back, csvToRows py text = .ok back ∧ List.Forall₂ Row.Is back t.rows

/-- The tables that a delimiter brings back: there is a column, no cell is too long, and a delimiter
other than the comma finds one column whose cells it does not cut. -/
def Readable (t : Table) (d : Char) : Prop :=
  t.keys ≠ [] ∧ (∀ r ∈ t.records, ∀ cell ∈ r, cell.length ≤ fieldLimit) ∧
    (d = ',' ∨ t.keys.length = 1 ∧
      ∀ r ∈ t.records, ∀ cell ∈ r, Csv.needsQuotes ',' cell.toList = true ∨ d ∉ cell.toList)

/-! ## 3. What is written -/

/-- Names that are there are not added. -/
theorem addNames_of_subset {names : List String} {row : Dict} (h : ∀ e ∈ row, e.1 ∈ names) :
    row.foldl (fun names e => if e.1 ∈ names then names else names ++ [e.1]) names = names := by
  induction row with
  | nil => rfl
  | cons e row ih =>
    rw [List.foldl_cons, if_pos (h e List.mem_cons_self)]
    exact ih fun x hx => h x (List.mem_cons_of_mem e hx)

/-- Names that are new are added in their order. -/
theorem addNames_of_nodup {names : List String} {row : Dict}
    (h : (names ++ row.map (·.1)).Nodup) :
    row.foldl (fun names e => if e.1 ∈ names then names else names ++ [e.1]) names =
      names ++ row.map (·.1) := by
  induction row generalizing names with
  | nil => simp
  | cons e row ih =>
    have hnew : e.1 ∉ names := fun hmem =>
      (List.nodup_append.mp h).2.2 e.1 hmem e.1 (by simp) rfl
    rw [List.foldl_cons, if_neg hnew, ih (by simpa using h)]
    simp

theorem fieldnames_dicts (t : Table) : fieldnames t.dicts = t.keys := by
  have hkeys : ∀ row : List (String × String),
      ((row.map fun e => (e.1, Value.str e.2)) : Dict).map (·.1) = row.map (·.1) := by
    intro row
    simp
  unfold fieldnames Table.dicts Table.rows
  rw [List.map_cons, List.foldl_cons, addNames_of_nodup (by simpa [hkeys] using t.nodup)]
  have hothers : ∀ rows : List (List (String × String)),
      (∀ row ∈ rows, (row.map (·.1)).Perm t.keys) →
      (rows.map fun row => row.map fun e => (e.1, Value.str e.2)).foldl
        (fun names row => row.foldl
          (fun names e => if e.1 ∈ names then names else names ++ [e.1]) names) t.keys =
        t.keys := by
    intro rows hrows
    induction rows with
    | nil => rfl
    | cons row rows ih =>
      rw [List.map_cons, List.foldl_cons, addNames_of_subset]
      · exact ih fun r hr => hrows r (List.mem_cons_of_mem row hr)
      · intro e he
        have hmem : e.1 ∈ row.map (·.1) := by
          obtain ⟨x, hx, rfl⟩ := List.mem_map.mp he
          exact List.mem_map.mpr ⟨x, hx, rfl⟩
        exact (hrows row List.mem_cons_self).mem_iff.mp hmem
  have hfirst : [] ++ ((t.first.map fun e => (e.1, Value.str e.2)) : Dict).map (·.1) = t.keys := by
    rw [List.nil_append, hkeys]
    rfl
  rw [hfirst]
  exact hothers t.others t.same

theorem lookup_strings (row : List (String × String)) (key : String) :
    ((row.map fun e => (e.1, Value.str e.2)) : Dict).lookup key =
      (row.lookup key).map Value.str := by
  induction row with
  | nil => rfl
  | cons e row ih =>
    obtain ⟨k, v⟩ := e
    by_cases h : key = k
    · simp [h]
    · simpa [List.lookup_cons, beq_eq_false_iff_ne.mpr h] using ih

theorem recordOf_strings (py : Interpreter) (t : Table) (row : List (String × String)) :
    recordOf py t.keys (row.map fun e => (e.1, .str e.2)) = .ok (t.record row) := by
  refine Except.mapM_eq_ok fun key _ => ?_
  unfold Dict.getOr
  rw [lookup_strings]
  cases row.lookup key <;> rfl

/-- **What is written of a table**: its keys, and each row in their order. -/
theorem rowsToCsv_dicts {py : Interpreter} {t : Table} {text : String}
    (h : rowsToCsv py t.dicts = .ok text) :
    text = written t.records ∧ text.utf8ByteSize ≤ maxCsvBytes ∧ t.rows.length ≤ maxCsvRows := by
  unfold rowsToCsv at h
  obtain ⟨_, hrows, h⟩ := Except.bind_eq_ok_iff.mp h
  obtain ⟨cells, hcells, h⟩ := Except.bind_eq_ok_iff.mp h
  obtain ⟨_, hsize, h⟩ := Except.bind_eq_ok_iff.mp h
  rw [refuse_eq_ok_iff] at hrows hsize
  have hrecords : t.dicts.mapM (recordOf py (fieldnames t.dicts)) =
      .ok (t.rows.map t.record) := by
    rw [fieldnames_dicts]
    unfold Table.dicts
    rw [List.mapM_map]
    exact Except.mapM_eq_ok fun row _ => recordOf_strings py t row
  rw [hrecords] at hcells
  cases hcells
  cases h
  rw [fieldnames_dicts] at hsize ⊢
  refine ⟨rfl, by omega, ?_⟩
  unfold Table.dicts at hrows
  rw [List.length_map] at hrows
  omega

/-! ## 4. What comes back -/

theorem plain_of_mem {d : Char} (h : d ∈ csvDelimiters) : Csv.Plain d := by
  unfold csvDelimiters at h
  simp only [List.mem_cons, List.not_mem_nil, or_false] at h
  rcases h with rfl | rfl | rfl <;> exact ⟨by decide, by decide⟩

theorem plain_comma : Csv.Plain ',' := plain_of_mem (by decide)

/-- The characters of the records. -/
def charsOf (records : List (List String)) : List (List (List Char)) :=
  records.map (·.map String.toList)

theorem written_toList (records : List (List String)) :
    (written records).toList = (charsOf records).flatMap (Csv.writeRecord ',') := by
  unfold written charsOf
  rw [String.toList_ofList, List.flatMap_map]

theorem charsOf_back (records : List (List String)) :
    (charsOf records).map (·.map String.ofList) = records := by
  unfold charsOf
  rw [List.map_map]
  conv_rhs => rw [← List.map_id records]
  refine List.map_congr_left fun r _ => ?_
  rw [Function.comp_apply, List.map_map]
  conv_rhs => rw [id_eq, ← List.map_id r]
  refine List.map_congr_left fun s _ => ?_
  rw [Function.comp_apply, String.ofList_toList, id_eq]

/-- The records that a delimiter brings back, an empty line being one without fields. -/
def Whole (d : Char) (r : List (List Char)) : Prop :=
  (∀ f ∈ r, f.length ≤ fieldLimit) ∧ (r = [] ∨ d = ',' ∨ ∃ f, r = [f] ∧ Csv.Kept d ',' f)

theorem records_flatMap {d : Char} (hd : Csv.Plain d) {rs : List (List (List Char))}
    (h : ∀ r ∈ rs, Whole d r) :
    Csv.records fieldLimit d Csv.start (rs.flatMap (Csv.writeRecord ',')) = (rs, false) := by
  induction rs with
  | nil => rfl
  | cons r rs ih =>
    obtain ⟨hlength, hwhole⟩ := h r List.mem_cons_self
    have hrest := ih fun x hx => h x (List.mem_cons_of_mem r hx)
    have hone : Csv.records fieldLimit d Csv.start
        (Csv.writeRecord ',' r ++ rs.flatMap (Csv.writeRecord ',')) =
          Csv.emit r (Csv.records fieldLimit d Csv.start
            (rs.flatMap (Csv.writeRecord ','))) := by
      rcases hwhole with rfl | rfl | ⟨f, rfl, hkept⟩
      · rfl
      · cases r with
        | nil => rfl
        | cons f fs => exact Csv.records_writeRecord hd hlength _
      · exact Csv.records_writeRecord_single hd plain_comma hkept (hlength f (by simp)) _
    rw [List.flatMap_cons, hone, hrest]
    rfl

/-- A record of a table, under its keys, is the row. -/
theorem toRow_record (t : Table) {row : List (String × String)} (h : row ∈ t.rows) :
    (toRow t.keys (t.record row)).Is row := by
  have hlength : (t.record row).length = t.keys.length := by simp [Table.record]
  have hzip : t.keys.zip ((t.record row).map some) =
      t.keys.map fun key => (key, some ((row.lookup key).getD "")) := by
    unfold Table.record
    rw [List.map_map]
    exact List.map_prod_left_eq_zip.symm
  have hnamed : (toRow t.keys (t.record row)).named =
      t.keys.map fun key => (key, some ((row.lookup key).getD "")) := by
    unfold toRow cellsUnder
    dsimp only
    rw [hlength, List.drop_length, List.map_nil, List.append_nil, hzip]
    refine Assoc.fill_of_nodup ?_
    rw [List.map_map]
    exact (List.map_id t.keys).symm ▸ t.nodup
  refine ⟨?_, ?_⟩
  · unfold toRow
    dsimp only
    rw [if_neg (by omega)]
  · rw [hnamed]
    have hrow : (row.map fun e => (e.1, some e.2)) =
        (row.map (·.1)).map fun key => (key, some ((row.lookup key).getD "")) := by
      rw [List.map_map]
      refine List.map_congr_left fun e he => ?_
      have hlookup : row.lookup e.1 = some e.2 := Assoc.lookup_of_mem (t.nodup_keys h) he
      rw [Function.comp_apply, hlookup]
      rfl
    rw [hrow]
    exact ((t.perm_keys h).symm.map _)

theorem record_ne_nil {t : Table} (h : t.keys ≠ []) (row : List (String × String)) :
    t.record row ≠ [] := by
  unfold Table.record
  simpa using h

theorem dictReader_records {t : Table} (h : t.keys ≠ []) :
    dictReader t.records = t.rows.map fun row => toRow t.keys (t.record row) := by
  have hfilter : (t.rows.map t.record).filter (· ≠ []) = t.rows.map t.record := by
    rw [List.filter_eq_self]
    intro r hr
    obtain ⟨row, -, rfl⟩ := List.mem_map.mp hr
    simpa using record_ne_nil h row
  unfold Table.records dictReader
  dsimp only
  rw [hfilter, List.map_map]
  rfl

theorem length_of_mem_records {t : Table} {r : List String} (h : r ∈ t.records) :
    r.length = t.keys.length := by
  rcases List.mem_cons.mp h with rfl | h
  · rfl
  · obtain ⟨row, -, rfl⟩ := List.mem_map.mp h
    simp [Table.record]

theorem whole_of_readable {t : Table} {d : Char} (h : Readable t d) :
    ∀ r ∈ charsOf t.records, Whole d r := by
  obtain ⟨-, hlength, hdelimiter⟩ := h
  intro cs hcs
  obtain ⟨r, hr, rfl⟩ := List.mem_map.mp hcs
  have hsize := length_of_mem_records hr
  refine ⟨?_, ?_⟩
  · intro f hf
    obtain ⟨cell, hcell, rfl⟩ := List.mem_map.mp hf
    rw [String.length_toList]
    exact hlength r hr cell hcell
  · rcases hdelimiter with rfl | ⟨hone, hkept⟩
    · exact Or.inr (Or.inl rfl)
    · obtain ⟨cell, rfl⟩ := List.length_eq_one_iff.mp (hsize.trans hone)
      exact Or.inr (Or.inr ⟨cell.toList, rfl, hkept _ hr cell (by simp)⟩)

/-- **What a table needs is enough.** -/
theorem comesBack_of_readable {py : Interpreter} {t : Table} {text : String}
    (hplain : Csv.Plain (delimiterOf py text)) (hwrite : rowsToCsv py t.dicts = .ok text)
    (h : Readable t (delimiterOf py text)) : ComesBack py t text := by
  obtain ⟨rfl, hsize, hcount⟩ := rowsToCsv_dicts hwrite
  have hread := records_flatMap hplain (whole_of_readable h)
  rw [← written_toList] at hread
  refine ⟨t.rows.map fun row => toRow t.keys (t.record row), ?_, ?_⟩
  · unfold csvToRows
    rw [hread]
    dsimp only
    rw [charsOf_back, dictReader_records h.1]
    have hbytes : refuse (maxCsvBytes < (written t.records).utf8ByteSize) (.other "ValueError") =
        .ok () := refuse_eq_ok_iff.mpr (by omega)
    have hrows : refuse (maxCsvRows < (t.rows.map fun row => toRow t.keys (t.record row)).length)
        (.other "ValueError") = .ok () :=
      refuse_eq_ok_iff.mpr (by rw [List.length_map]; omega)
    rw [hbytes, hrows]
    rfl
  · rw [List.forall₂_map_left_iff, List.forall₂_same]
    exact fun row hrow => toRow_record t hrow

/-! ## 5. What does not -/

/-- How often the delimiter stands in some texts. -/
def countIn (d : Char) (cells : List String) : Nat := (cells.map fun s => s.toList.count d).sum

theorem sum_le_of_subperm {l l' : List Nat} (h : List.Subperm l l') : l.sum ≤ l'.sum := by
  obtain ⟨m, hperm, hsub⟩ := h
  rw [← hperm.sum_eq]
  exact hsub.sum_le_sum fun n _ => Nat.zero_le n

theorem cellsUnder_keys (header : List String) {record : List String}
    (h : record.length ≤ header.length) : (cellsUnder header record).map (·.1) = header := by
  unfold cellsUnder
  induction header generalizing record with
  | nil => simp
  | cons key header ih =>
    cases record with
    | nil =>
      have hnil := @ih [] (Nat.zero_le _)
      simpa using hnil
    | cons cell record => simpa using ih (by simpa using h)

theorem cellsUnder_values (header : List String) {record : List String}
    (h : record.length ≤ header.length) : (cellsUnder header record).filterMap (·.2) = record := by
  unfold cellsUnder
  induction header generalizing record with
  | nil => simpa using h
  | cons key header ih =>
    cases record with
    | nil => simp
    | cons cell record => simpa using ih (by simpa using h)

/-- What a row holds of a record: its keys are in the header, its values in the record. -/
theorem Row.Is.subperm {header record : List String} {row : List (String × String)}
    (h : (toRow header record).Is row) :
    record.length ≤ header.length ∧ List.Subperm (row.map (·.1)) header ∧
      List.Subperm (row.map (·.2)) record := by
  obtain ⟨hrest, hnamed⟩ := h
  have hshort : record.length ≤ header.length := by
    unfold toRow at hrest
    dsimp only at hrest
    split at hrest
    · cases hrest
    · omega
  obtain ⟨l, hperm, hsub⟩ : List.Subperm (row.map fun e => (e.1, some e.2))
      (cellsUnder header record) := hnamed.symm.subperm.trans (Assoc.subperm_fill _)
  refine ⟨hshort, ?_, ?_⟩
  · have hkeys := hperm.map (·.1)
    rw [List.map_map] at hkeys
    exact ⟨l.map (·.1), hkeys, cellsUnder_keys header hshort ▸ hsub.map (·.1)⟩
  · have hvalues := hperm.filterMap (·.2)
    have hrow : (row.map fun e => (e.1, some e.2)).filterMap (·.2) = row.map (·.2) := by
      rw [List.filterMap_map, ← List.filterMap_eq_map]
      rfl
    rw [hrow] at hvalues
    exact ⟨l.filterMap (·.2), hvalues, cellsUnder_values header hshort ▸ hsub.filterMap (·.2)⟩

/-- What came back was read without an error, and how. -/
theorem of_comesBack {py : Interpreter} {t : Table} {text : String} (h : ComesBack py t text) :
    ∃ rs, Csv.records fieldLimit (delimiterOf py text) Csv.start text.toList = (rs, false) ∧
      List.Forall₂ Row.Is (dictReader (rs.map (·.map String.ofList))) t.rows := by
  obtain ⟨back, hread, hrows⟩ := h
  unfold csvToRows at hread
  obtain ⟨_, -, hread⟩ := Except.bind_eq_ok_iff.mp hread
  obtain ⟨_, -, hread⟩ := Except.bind_eq_ok_iff.mp hread
  obtain ⟨_, hfailed, hread⟩ := Except.bind_eq_ok_iff.mp hread
  rw [refuse_eq_ok_iff, Bool.not_eq_true] at hfailed
  cases hread
  exact ⟨_, Prod.ext rfl hfailed, hrows⟩

/-- Each row is what stands under the header in some record that has fields. -/
theorem dictReader_cons_of_rows {rs : List (List String)} {t : Table}
    (h : List.Forall₂ Row.Is (dictReader rs) t.rows) :
    ∃ header data, rs = header :: data ∧
      List.Forall₂ (fun record row => (toRow header record).Is row) (data.filter (· ≠ [])) t.rows := by
  cases rs with
  | nil => cases h
  | cons header data =>
    refine ⟨header, data, rfl, ?_⟩
    unfold dictReader at h
    exact List.forall₂_map_left_iff.mp h

/-- What a record weighs, in the terms of its texts. -/
theorem weight_charsOf (d : Char) (record : List String) :
    Csv.weight d (record.map String.toList) = countIn d record + record.length := by
  unfold Csv.weight countIn
  induction record with
  | nil => rfl
  | cons cell record ih =>
    simp only [List.map_cons, List.sum_cons, List.length_cons] at ih ⊢
    omega

theorem countIn_le {d : Char} {cells cells' : List String} (h : List.Subperm cells cells') :
    countIn d cells ≤ countIn d cells' := by
  obtain ⟨l, hperm, hsub⟩ := h
  exact sum_le_of_subperm ⟨l.map fun s => s.toList.count d, hperm.map _, hsub.map _⟩

theorem countIn_perm {d : Char} {cells cells' : List String} (h : cells.Perm cells') :
    countIn d cells = countIn d cells' := (h.map _).sum_eq

/-- The delimiters of what is written with the comma are those of the cells. -/
theorem count_writeField {d : Char} (hd : Csv.Plain d) (f : List Char) :
    (Csv.writeField ',' f).count d = f.count d := by
  have hescape : (Csv.escape f).count d = f.count d := by
    unfold Csv.escape
    induction f with
    | nil => rfl
    | cons c f ih =>
      rw [List.flatMap_cons, List.count_append, ih, List.count_cons]
      by_cases hc : c = '"'
      · simp [hc, Ne.symm hd.1]
      · rw [if_neg hc, List.count_singleton]
        omega
  unfold Csv.writeField
  split
  · unfold Csv.quoted
    rw [List.count_append, List.count_cons, hescape]
    simp [Ne.symm hd.1]
  · rfl

theorem count_writeFields {d : Char} (hd : Csv.Plain d) (hne : d ≠ ',')
    (fs : List (List Char)) :
    (Csv.writeFields ',' fs).count d = (fs.map (·.count d)).sum := by
  have hnewline : ('\n' : Char) ≠ d := by
    rintro rfl
    exact absurd hd.2 (by decide)
  induction fs with
  | nil => simp [Csv.writeFields, hnewline]
  | cons f fs ih =>
    cases fs with
    | nil => simp [Csv.writeFields, hnewline, count_writeField hd]
    | cons g fs =>
      rw [Csv.writeFields, List.count_append, List.count_cons, count_writeField hd, ih]
      simp [Ne.symm hne]

theorem count_writeRecord {d : Char} (hd : Csv.Plain d) (hne : d ≠ ',') (record : List String) :
    (Csv.writeRecord ',' (record.map String.toList)).count d = countIn d record := by
  have hfields := count_writeFields hd hne (record.map String.toList)
  have hcount : ((record.map String.toList).map (·.count d)).sum = countIn d record := by
    rw [List.map_map]
    rfl
  rw [hcount] at hfields
  unfold Csv.writeRecord
  split
  · rename_i heq
    have hnewline : ('\n' : Char) ≠ d := by
      rintro rfl
      exact absurd hd.2 (by decide)
    rw [heq] at hcount
    simpa [Csv.quoted, Csv.escape, hnewline, Ne.symm hd.1] using hcount
  · exact hfields

theorem count_written {d : Char} (hd : Csv.Plain d) (hne : d ≠ ',') (records : List (List String)) :
    (written records).toList.count d = (records.map (countIn d)).sum := by
  rw [written_toList]
  unfold charsOf
  induction records with
  | nil => rfl
  | cons r records ih =>
    rw [List.map_cons, List.flatMap_cons, List.count_append, count_writeRecord hd hne, ih]
    rfl

/-- The cells of a row are its values. -/
theorem perm_record (t : Table) {row : List (String × String)} (h : row ∈ t.rows) :
    (t.record row).Perm (row.map (·.2)) := by
  have hvalues : row.map (·.2) = (row.map (·.1)).map fun key => (row.lookup key).getD "" := by
    rw [List.map_map]
    refine List.map_congr_left fun e he => ?_
    have hlookup : row.lookup e.1 = some e.2 := Assoc.lookup_of_mem (t.nodup_keys h) he
    rw [Function.comp_apply, hlookup]
    rfl
  rw [hvalues]
  exact ((t.perm_keys h).symm.map _)

theorem exists_of_forall₂ {α β : Type} {R : α → β → Prop} {l : List α} {l' : List β}
    (h : List.Forall₂ R l l') {b : β} (hb : b ∈ l') : ∃ a ∈ l, R a b := by
  induction h with
  | nil => cases hb
  | cons hr _ ih =>
    rcases List.mem_cons.mp hb with rfl | hb
    · exact ⟨_, List.mem_cons_self, hr⟩
    · obtain ⟨a, ha, hab⟩ := ih hb
      exact ⟨a, List.mem_cons_of_mem _ ha, hab⟩

section ComesBack

variable {t : Table} {header : List String} {data : List (List String)} {d : Char}

/-- The header holds the keys. -/
theorem keys_subperm
    (h : List.Forall₂ (fun record row => (toRow header record).Is row)
      (data.filter (· ≠ [])) t.rows) : List.Subperm t.keys header := by
  obtain ⟨record, -, hfirst⟩ := exists_of_forall₂ h (List.mem_cons_self : t.first ∈ t.rows)
  exact hfirst.subperm.2.1

/-- Each record of the table is held by one that was read. -/
theorem record_subperm
    (h : List.Forall₂ (fun record row => (toRow header record).Is row)
      (data.filter (· ≠ [])) t.rows) {r : List String} (hr : r ∈ t.records) :
    ∃ r' ∈ header :: data, List.Subperm r r' := by
  rcases List.mem_cons.mp hr with rfl | hr
  · exact ⟨header, List.mem_cons_self, keys_subperm h⟩
  · obtain ⟨row, hrow, rfl⟩ := List.mem_map.mp hr
    obtain ⟨record, hrecord, his⟩ := exists_of_forall₂ h hrow
    exact ⟨record, List.mem_cons_of_mem header (List.mem_filter.mp hrecord).1,
      (perm_record t hrow).subperm.trans his.subperm.2.2⟩

/-- The records that have fields weigh what the rows do, and a field each. -/
theorem countIn_rows_le
    (h : List.Forall₂ (fun record row => (toRow header record).Is row)
      (data.filter (· ≠ [])) t.rows) :
    (t.rows.map fun row => countIn d (t.record row)).sum + Csv.filled (charsOf data) ≤
      Csv.total d (charsOf data) := by
  have hcells : (t.rows.map fun row => countIn d (t.record row)) =
      t.rows.map fun row => countIn d (row.map (·.2)) :=
    List.map_congr_left fun row hrow => countIn_perm (perm_record t hrow)
  rw [hcells]
  generalize t.rows = rows at h
  unfold Csv.total Csv.filled charsOf
  induction data generalizing rows with
  | nil =>
    cases h
    rfl
  | cons record data ih =>
    rw [List.filter_cons] at h
    rw [List.map_cons, List.filter_cons, List.map_cons, List.sum_cons, weight_charsOf]
    by_cases hempty : record = []
    · subst hempty
      have hrest := ih rows (by simpa using h)
      simpa [countIn] using hrest
    · rw [if_pos (by simpa using hempty)] at h ⊢
      cases h with
      | cons his hrest =>
        have hrows := ih _ hrest
        have hvalues := countIn_le (d := d) his.subperm.2.2
        have hpos := List.length_pos_of_ne_nil hempty
        simp only [List.map_cons, List.sum_cons, List.length_cons]
        omega

/-- **With another delimiter**, what comes back has one column at most. -/
theorem header_length_le
    (h : List.Forall₂ (fun record row => (toRow header record).Is row)
      (data.filter (· ≠ [])) t.rows)
    (htotal : Csv.total d (charsOf (header :: data)) + 1 ≤
      1 + (t.records.map (countIn d)).sum + Csv.filled (charsOf (header :: data))) :
    header.length ≤ 1 := by
  have hrows := countIn_rows_le (d := d) h
  have hkeys := countIn_le (d := d) (keys_subperm h)
  have hrecords : (t.records.map (countIn d)).sum =
      countIn d t.keys + (t.rows.map fun row => countIn d (t.record row)).sum := by
    unfold Table.records
    rw [List.map_cons, List.sum_cons, List.map_map]
    rfl
  have hheader : charsOf (header :: data) = header.map String.toList :: charsOf data := rfl
  rw [hheader, Csv.total_cons, Csv.filled_cons, weight_charsOf, hrecords] at htotal
  split at htotal <;> omega

/-- No record that was read is longer than the header. -/
theorem length_le_header
    (h : List.Forall₂ (fun record row => (toRow header record).Is row)
      (data.filter (· ≠ [])) t.rows) {r : List String} (hr : r ∈ header :: data) :
    r.length ≤ header.length := by
  rcases List.mem_cons.mp hr with rfl | hr
  · exact le_refl _
  · by_cases hempty : r = []
    · simp [hempty]
    · obtain ⟨row, -, his⟩ := exists_of_forall₂ h.flip
        (List.mem_filter.mpr ⟨hr, by simpa using hempty⟩)
      exact (Row.Is.subperm his).1

end ComesBack

/-- Lines of one cell that are read as records of one field at most are read whole. -/
theorem kept_of_records {d : Char} (hd : Csv.Plain d) {cells : List (List Char)}
    {rs : List (List (List Char))} (hlength : ∀ f ∈ cells, f.length ≤ fieldLimit)
    (hread : Csv.records fieldLimit d Csv.start
      (cells.flatMap fun f => Csv.writeRecord ',' [f]) = (rs, false))
    (hone : ∀ r ∈ rs, r.length ≤ 1) : ∀ f ∈ cells, Csv.Kept d ',' f := by
  induction cells generalizing rs with
  | nil => simp
  | cons f cells ih =>
    have hshort := hlength f List.mem_cons_self
    rw [List.flatMap_cons] at hread
    by_cases hkept : Csv.Kept d ',' f
    · rw [Csv.records_writeRecord_single hd plain_comma hkept hshort] at hread
      obtain ⟨rfl, hfailed⟩ := Prod.mk.inj hread
      intro g hg
      rcases List.mem_cons.mp hg with rfl | hg
      · exact hkept
      · exact ih (fun x hx => hlength x (List.mem_cons_of_mem f hx)) (Prod.ext rfl hfailed)
          (fun r hr => hone r (List.mem_cons_of_mem _ hr)) g hg
    · unfold Csv.Kept at hkept
      rw [not_or, Bool.not_eq_true, not_not] at hkept
      have hf : f ≠ [] := List.ne_nil_of_mem hkept.2
      rcases Csv.records_bare plain_comma hkept.1 hf (cells.flatMap fun f =>
          Csv.writeRecord ',' [f]) with hfail | ⟨r, hr, hread'⟩
      · rw [hfail] at hread
        cases hread
      · rw [hread'] at hread
        obtain ⟨rfl, -⟩ := Prod.mk.inj hread
        have hcount := List.count_pos_iff.mpr hkept.2
        have hlong := hone r List.mem_cons_self
        omega

/-- A list of lists of one element. -/
theorem eq_singletons {α : Type} {l : List (List α)} (h : ∀ r ∈ l, r.length = 1) :
    l = l.flatten.map fun a => [a] := by
  induction l with
  | nil => rfl
  | cons r l ih =>
    obtain ⟨a, rfl⟩ := List.length_eq_one_iff.mp (h r List.mem_cons_self)
    rw [List.flatten_cons, List.singleton_append, List.map_cons,
      ← ih fun x hx => h x (List.mem_cons_of_mem _ hx)]

/-- **What comes back meets what a table needs.** -/
theorem readable_of_comesBack {py : Interpreter} {t : Table} {text : String}
    (hplain : Csv.Plain (delimiterOf py text)) (hwrite : rowsToCsv py t.dicts = .ok text)
    (h : ComesBack py t text) : Readable t (delimiterOf py text) := by
  obtain ⟨rfl, -, -⟩ := rowsToCsv_dicts hwrite
  obtain ⟨rs, hread, hrows⟩ := of_comesBack h
  obtain ⟨header, data, hrs, hmatch⟩ := dictReader_cons_of_rows hrows
  generalize delimiterOf py (written t.records) = d at hplain hread ⊢
  have hchars : rs = charsOf (header :: data) := by
    rw [← hrs]
    unfold charsOf
    simp [Function.comp_def]
  subst hchars
  have hkeys : t.keys ≠ [] := by
    intro hnone
    have hempty : ∀ r ∈ t.records, r = [] := by
      intro r hr
      rw [← List.length_eq_zero_iff, length_of_mem_records hr, hnone]
      rfl
    have hwhole : ∀ r ∈ charsOf t.records, Whole d r := by
      intro cs hcs
      obtain ⟨r, hr, rfl⟩ := List.mem_map.mp hcs
      rw [hempty r hr]
      exact ⟨by simp, Or.inl rfl⟩
    rw [written_toList, records_flatMap hplain hwhole] at hread
    have hsame : t.records = header :: data := by
      rw [← charsOf_back (header :: data), ← (Prod.mk.inj hread).1, charsOf_back]
    obtain ⟨-, rfl⟩ := List.cons.inj hsame
    obtain ⟨record, hrecord, -⟩ := exists_of_forall₂ hmatch (List.mem_cons_self : t.first ∈ t.rows)
    obtain ⟨hmem, hfilled⟩ := List.mem_filter.mp hrecord
    rw [hempty record (List.mem_cons_of_mem _ hmem)] at hfilled
    cases hfilled
  have hlength : ∀ r ∈ t.records, ∀ cell ∈ r, cell.length ≤ fieldLimit := by
    intro r hr cell hcell
    obtain ⟨r', hr', hsub⟩ := record_subperm hmatch hr
    have hstart : Csv.start.Short fieldLimit := ⟨by simp [Csv.start], by simp [Csv.start]⟩
    have hfields := Csv.length_le_of_mem_records (d := d) hstart (written t.records).toList
    rw [hread] at hfields
    have hshort := hfields (r'.map String.toList) (List.mem_map_of_mem hr') cell.toList
      (List.mem_map_of_mem (hsub.subset hcell))
    rwa [String.length_toList] at hshort
  refine ⟨hkeys, hlength, ?_⟩
  by_cases hcomma : d = ','
  · exact Or.inl hcomma
  · have htotal : Csv.total d
          (Csv.records fieldLimit d Csv.start (written t.records).toList).1 + 1 ≤
        1 + (written t.records).toList.count d +
          Csv.filled (Csv.records fieldLimit d Csv.start (written t.records).toList).1 :=
      Csv.total_le Csv.start _
    rw [hread, count_written hplain hcomma] at htotal
    have hheader := header_length_le hmatch htotal
    have hone : t.keys.length = 1 := by
      have hle := (keys_subperm hmatch).length_le
      have hpos := List.length_pos_of_ne_nil hkeys
      omega
    refine Or.inr ⟨hone, ?_⟩
    have hsingle : ∀ r ∈ charsOf t.records, r.length = 1 := by
      intro cs hcs
      obtain ⟨r, hr, rfl⟩ := List.mem_map.mp hcs
      rw [List.length_map, length_of_mem_records hr, hone]
    rw [written_toList, eq_singletons hsingle, List.flatMap_map] at hread
    have hkept := kept_of_records hplain (fun f hf => by
        obtain ⟨cs, hcs, hf⟩ := List.mem_flatten.mp hf
        obtain ⟨r, hr, rfl⟩ := List.mem_map.mp hcs
        obtain ⟨cell, hcell, rfl⟩ := List.mem_map.mp hf
        rw [String.length_toList]
        exact hlength r hr cell hcell) hread (fun cs hcs => by
        obtain ⟨r, hr, rfl⟩ := List.mem_map.mp hcs
        rw [List.length_map]
        exact (length_le_header hmatch hr).trans hheader)
    intro r hr cell hcell
    exact hkept cell.toList
      (List.mem_flatten.mpr ⟨_, List.mem_map_of_mem hr, List.mem_map_of_mem hcell⟩)

/-! ## 6. The round trip -/

/-- **A table comes back exactly where the delimiter that is guessed suits it.** -/
theorem csvToRows_rowsToCsv_iff (py : Interpreter)
    (hsniff : ∀ text d, py.sniff text = some d → d ∈ csvDelimiters) (t : Table) {text : String}
    (hwrite : rowsToCsv py t.dicts = .ok text) :
    ComesBack py t text ↔ Readable t (delimiterOf py text) := by
  have hplain : Csv.Plain (delimiterOf py text) := by
    unfold delimiterOf
    cases hguess : py.sniff (String.ofList (text.toList.take 4096)) with
    | none => exact plain_comma
    | some d => exact plain_of_mem (hsniff _ d hguess)
  exact ⟨readable_of_comesBack hplain hwrite, comesBack_of_readable hplain hwrite⟩

/-- `[{"a": "1", "b": "2"}]`, for which the sniffer finds the comma. -/
def twoColumns : Table := ⟨[("a", "1"), ("b", "2")], [], by decide, by simp⟩

theorem csvToRows_rowsToCsv_twoColumns :
    ComesBack (Interpreter.flat (some ',')) twoColumns "a,b\n1,2\n" ↔
      Readable twoColumns (delimiterOf (Interpreter.flat (some ',')) "a,b\n1,2\n") :=
  csvToRows_rowsToCsv_iff (Interpreter.flat (some ','))
    (fun text d h => by
      cases h
      decide)
    twoColumns (by decide +kernel)

/-- `[{"a;b": "1;2"}]`, for which the sniffer finds the semicolon. -/
def semicolons : Table := ⟨[("a;b", "1;2")], [], by decide, by simp⟩

/-- One column comes back as two. -/
theorem not_comesBack_semicolons :
    ¬ ∀ (py : Interpreter), (∀ text d, py.sniff text = some d → d ∈ csvDelimiters) →
      ∀ (t : Table) (text : String), rowsToCsv py t.dicts = .ok text → ComesBack py t text := by
  intro h
  have hback := h (Interpreter.flat (some ';')) (fun text d h => by
    cases h
    decide) semicolons "a;b\n1;2\n" (by decide +kernel)
  obtain ⟨-, -, hdelimiter⟩ := readable_of_comesBack ⟨by decide, by decide⟩ (by decide +kernel) hback
  rcases hdelimiter with hcomma | ⟨-, hkept⟩
  · exact absurd hcomma (by decide)
  · have hcell := hkept ["a;b"] (by decide) "a;b" (by decide)
    exact absurd hcell (by decide)

example : (csvToRows (Interpreter.flat (some ';')) "a;b\n1;2\n").toOption =
    some [⟨[("a", some "1"), ("b", some "2")], none⟩] := by decide +kernel

end Apowerb.Convert
