/-
# Comma-separated values

The reader and the writer of RFC 4180 for a given delimiter, the reader as the state machine that
most of them are: lenient inside an unquoted field, and refusing a carriage return that is not
followed by a line feed, or a field longer than a limit.  The reader and the writer need not use
the same delimiter, which is where a round trip can go wrong.

* `records_writeRecord`: with one delimiter, a record is read back.
* `records_writeRecord_single`: with another one, a record of one field is, if the field is quoted
  or does not hold it; `records_bare` says what happens otherwise.
* `total_le`: the reader loses a delimiter for each field it ends, and keeps the others.  Nothing
  is read back from a file of several columns with a delimiter that is not theirs.
-/
import Mathlib.Algebra.Order.BigOperators.Group.List
import Mathlib.Algebra.Order.Ring.Nat

namespace Csv

/-! ## 1. The reader -/

/-- The states of the reader. -/
inductive State
  | startRecord | startField | inField | inQuotedField | quoteInQuotedField | eatCrNl
deriving DecidableEq, Repr

/-- What the reader remembers: the field it is in, and the fields of the record before it. -/
structure Cursor where
  state : State
  field : List Char
  fields : List (List Char)
deriving DecidableEq, Repr

def start : Cursor := ⟨.startRecord, [], []⟩

def isBreak (c : Char) : Bool := c == '\n' || c == '\r'

/-- The field is over. -/
def Cursor.save (s : Cursor) (state : State) : Cursor := ⟨state, [], s.fields ++ [s.field]⟩

/-- One more character in the field. -/
def Cursor.add (limit : Nat) (s : Cursor) (state : State) (c : Char) : Option Cursor :=
  if s.field.length < limit then some ⟨state, s.field ++ [c], s.fields⟩ else none

/-- What a field begins with. -/
def startField (limit : Nat) (d : Char) (s : Cursor) (c : Char) : Option Cursor :=
  if isBreak c then some (s.save .eatCrNl)
  else if c = '"' then some { s with state := .inQuotedField }
  else if c = d then some (s.save .startField)
  else s.add limit .inField c

/-- One character; `none` is an error. -/
def step (limit : Nat) (d : Char) (s : Cursor) (c : Char) : Option Cursor :=
  match s.state with
  | .startRecord =>
    if isBreak c then some { s with state := .eatCrNl } else startField limit d s c
  | .startField => startField limit d s c
  | .inField =>
    if isBreak c then some (s.save .eatCrNl)
    else if c = d then some (s.save .startField)
    else s.add limit .inField c
  | .inQuotedField =>
    if c = '"' then some { s with state := .quoteInQuotedField }
    else s.add limit .inQuotedField c
  | .quoteInQuotedField =>
    if c = '"' then s.add limit .inQuotedField c
    else if c = d then some (s.save .startField)
    else if isBreak c then some (s.save .eatCrNl)
    else s.add limit .inField c
  | .eatCrNl => if isBreak c then some s else none

/-- The record that the end of the text ends. -/
def Cursor.last (s : Cursor) : List (List (List Char)) :=
  match s.state with
  | .startRecord => []
  | .eatCrNl => [s.fields]
  | _ => [s.fields ++ [s.field]]

/-- A record before others. -/
def emit (r : List (List Char)) (p : List (List (List Char)) × Bool) :
    List (List (List Char)) × Bool :=
  (r :: p.1, p.2)

/-- The records of a text, and whether an error ends them.  A line feed ends a record, except
between quotes; an empty line is a record without fields. -/
def records (limit : Nat) (d : Char) (s : Cursor) : List Char → List (List (List Char)) × Bool
  | [] => (s.last, false)
  | c :: cs =>
    match step limit d s c with
    | none => ([], true)
    | some s' =>
      if c = '\n' ∧ s'.state = .eatCrNl then emit s'.fields (records limit d start cs)
      else records limit d s' cs

/-! ## 2. The writer -/

/-- A field is quoted where it holds the delimiter, a quote or a line break. -/
def isSpecial (d : Char) (c : Char) : Bool := c == d || c == '"' || isBreak c

def needsQuotes (d : Char) (f : List Char) : Bool := f.any (isSpecial d)

/-- Quotes are doubled. -/
def escape (f : List Char) : List Char := f.flatMap fun c => if c = '"' then ['"', '"'] else [c]

def quoted (f : List Char) : List Char := '"' :: escape f ++ ['"']

def writeField (d : Char) (f : List Char) : List Char := if needsQuotes d f then quoted f else f

def writeFields (d : Char) : List (List Char) → List Char
  | [] => ['\n']
  | [f] => writeField d f ++ ['\n']
  | f :: g :: fs => writeField d f ++ d :: writeFields d (g :: fs)

/-- A record: an empty field alone is quoted, not to be an empty line. -/
def writeRecord (d : Char) : List (List Char) → List Char
  | [[]] => quoted [] ++ ['\n']
  | fs => writeFields d fs

/-! ## 3. One field -/

/-- A delimiter that means nothing else. -/
def Plain (d : Char) : Prop := d ≠ '"' ∧ isBreak d = false

variable {limit : Nat} {d w : Char}

theorem records_step {s s' : Cursor} {c : Char} (h : step limit d s c = some s')
    (hquiet : ¬ (c = '\n' ∧ s'.state = .eatCrNl)) (cs : List Char) :
    records limit d s (c :: cs) = records limit d s' cs := by
  rw [records, h]
  dsimp only
  rw [if_neg hquiet]

/-- A field has been read whole. -/
def Done (s : Cursor) (f : List Char) (fields : List (List Char)) : Prop :=
  s.field = f ∧ s.fields = fields ∧
    (s.state = .startField ∧ f = [] ∨ s.state = .inField ∨ s.state = .quoteInQuotedField)

theorem Done.step_delimiter {s : Cursor} {f : List Char} {fields : List (List Char)}
    (h : Done s f fields) (hd : Plain d) :
    step limit d s d = some ⟨.startField, [], fields ++ [f]⟩ := by
  obtain ⟨rfl, rfl, hstate⟩ := h
  rcases hstate with ⟨hstate, -⟩ | hstate | hstate
  · simp [step, hstate, startField, hd.1, hd.2, Cursor.save]
  · simp [step, hstate, hd.2, Cursor.save]
  · simp [step, hstate, hd.1, Cursor.save]

theorem Done.step_newline {s : Cursor} {f : List Char} {fields : List (List Char)}
    (h : Done s f fields) (hd : Plain d) :
    step limit d s '\n' = some ⟨.eatCrNl, [], fields ++ [f]⟩ := by
  have hne : ('\n' : Char) ≠ d := by
    rintro rfl
    exact absurd hd.2 (by decide)
  have hbreak : isBreak '\n' = true := by decide
  obtain ⟨rfl, rfl, hstate⟩ := h
  rcases hstate with ⟨hstate, -⟩ | hstate | hstate
  · simp [step, hstate, startField, hbreak, Cursor.save]
  · simp [step, hstate, hbreak, Cursor.save]
  · simp [step, hstate, hbreak, hne, Cursor.save]

theorem records_inField (acc : List Char) {f : List Char} {fields : List (List Char)}
    {rest : List Char} (hbare : needsQuotes d f = false) (hlength : acc.length + f.length ≤ limit) :
    records limit d ⟨.inField, acc, fields⟩ (f ++ rest) =
      records limit d ⟨.inField, acc ++ f, fields⟩ rest := by
  induction f generalizing acc with
  | nil => simp
  | cons c f ih =>
    unfold needsQuotes at hbare ih
    rw [List.any_cons, Bool.or_eq_false_iff] at hbare
    obtain ⟨hc, hf⟩ := hbare
    unfold isSpecial at hc
    simp only [Bool.or_eq_false_iff, beq_eq_false_iff_ne] at hc
    rw [List.length_cons] at hlength
    have hstep : step limit d ⟨.inField, acc, fields⟩ c =
        some ⟨.inField, acc ++ [c], fields⟩ := by
      simp only [step, hc.2, Bool.false_eq_true, if_false, hc.1.1, Cursor.add]
      rw [if_pos (by omega)]
    rw [List.cons_append, records_step hstep (by simp), ih _ hf (by simp; omega)]
    simp

/-- A field without quotes. -/
theorem records_unquoted {f : List Char} {fields : List (List Char)} {rest : List Char}
    (hbare : needsQuotes d f = false) (hlength : f.length ≤ limit) :
    ∃ s, Done s f fields ∧
      records limit d ⟨.startField, [], fields⟩ (f ++ rest) = records limit d s rest := by
  cases f with
  | nil => exact ⟨⟨.startField, [], fields⟩, ⟨rfl, rfl, Or.inl ⟨rfl, rfl⟩⟩, rfl⟩
  | cons c f =>
    have hcons := hbare
    unfold needsQuotes at hcons
    rw [List.any_cons, Bool.or_eq_false_iff] at hcons
    obtain ⟨hc, hf⟩ := hcons
    unfold isSpecial at hc
    simp only [Bool.or_eq_false_iff, beq_eq_false_iff_ne] at hc
    rw [List.length_cons] at hlength
    have hstep : step limit d ⟨.startField, [], fields⟩ c = some ⟨.inField, [c], fields⟩ := by
      simp only [step, startField, hc.2, Bool.false_eq_true, if_false, hc.1.1, hc.1.2, Cursor.add]
      rw [if_pos (by simp; omega)]
      rfl
    refine ⟨⟨.inField, c :: f, fields⟩, ⟨rfl, rfl, Or.inr (Or.inl rfl)⟩, ?_⟩
    rw [List.cons_append, records_step hstep (by simp),
      records_inField [c] hf (by simp; omega)]
    rfl

theorem records_inQuotedField (acc : List Char) {f : List Char} {fields : List (List Char)}
    {rest : List Char} (hlength : acc.length + f.length ≤ limit) :
    records limit d ⟨.inQuotedField, acc, fields⟩ (escape f ++ rest) =
      records limit d ⟨.inQuotedField, acc ++ f, fields⟩ rest := by
  induction f generalizing acc with
  | nil => simp [escape]
  | cons c f ih =>
    rw [List.length_cons] at hlength
    have hroom : acc.length < limit := by omega
    have hrest := ih (acc ++ [c]) (by simp; omega)
    have hescape : escape (c :: f) = (if c = '"' then ['"', '"'] else [c]) ++ escape f := rfl
    rw [hescape]
    by_cases hc : c = '"'
    · subst hc
      have hopen : step limit d ⟨.inQuotedField, acc, fields⟩ '"' =
          some ⟨.quoteInQuotedField, acc, fields⟩ := by simp [step]
      have hagain : step limit d ⟨.quoteInQuotedField, acc, fields⟩ '"' =
          some ⟨.inQuotedField, acc ++ ['"'], fields⟩ := by simp [step, Cursor.add, hroom]
      rw [if_pos rfl]
      simp only [List.cons_append, List.nil_append]
      rw [records_step hopen (by simp), records_step hagain (by simp), hrest]
      simp
    · have hstep : step limit d ⟨.inQuotedField, acc, fields⟩ c =
          some ⟨.inQuotedField, acc ++ [c], fields⟩ := by simp [step, Cursor.add, hc, hroom]
      rw [if_neg hc]
      simp only [List.cons_append, List.nil_append]
      rw [records_step hstep (by simp), hrest]
      simp

/-- A field between quotes, whatever it holds. -/
theorem records_quoted {f : List Char} (hlength : f.length ≤ limit)
    (fields : List (List Char)) (rest : List Char) :
    ∃ s, Done s f fields ∧
      records limit d ⟨.startField, [], fields⟩ (quoted f ++ rest) = records limit d s rest := by
  have hbreak : isBreak '"' = false := by decide
  have hopen : step limit d ⟨.startField, [], fields⟩ '"' =
      some ⟨.inQuotedField, [], fields⟩ := by simp [step, startField, hbreak]
  have hclose : step limit d ⟨.inQuotedField, f, fields⟩ '"' =
      some ⟨.quoteInQuotedField, f, fields⟩ := by simp [step]
  refine ⟨⟨.quoteInQuotedField, f, fields⟩, ⟨rfl, rfl, Or.inr (Or.inr rfl)⟩, ?_⟩
  unfold quoted
  rw [List.append_assoc, List.cons_append, records_step hopen (by simp),
    records_inQuotedField [] (by simpa using hlength), List.nil_append,
    List.singleton_append, records_step hclose (by simp)]

/-! ## 4. One record -/

/-- Read with `d`, a field that is written for `w` stays whole. -/
def Kept (d w : Char) (f : List Char) : Prop := needsQuotes w f = true ∨ d ∉ f

theorem kept_self (f : List Char) : Kept d d f := by
  cases hneeds : needsQuotes d f with
  | true => exact Or.inl hneeds
  | false =>
    refine Or.inr fun hd => ?_
    unfold needsQuotes at hneeds
    rw [List.any_eq_false] at hneeds
    exact hneeds d hd (by simp [isSpecial])

theorem needsQuotes_of_kept {f : List Char} (hw : needsQuotes w f = false) (hd : d ∉ f) :
    needsQuotes d f = false := by
  unfold needsQuotes at hw ⊢
  rw [List.any_eq_false] at hw ⊢
  intro c hc
  have hspecial := hw c hc
  have hne : c ≠ d := fun h => hd (h ▸ hc)
  unfold isSpecial at hspecial ⊢
  simp only [Bool.or_eq_true, beq_iff_eq, not_or] at hspecial ⊢
  exact ⟨⟨hne, hspecial.1.2⟩, hspecial.2⟩

theorem records_writeField {f : List Char} (hkept : Kept d w f) (hlength : f.length ≤ limit)
    (fields : List (List Char)) (rest : List Char) :
    ∃ s, Done s f fields ∧
      records limit d ⟨.startField, [], fields⟩ (writeField w f ++ rest) =
        records limit d s rest := by
  unfold writeField
  cases hneeds : needsQuotes w f with
  | true =>
    rw [if_pos rfl]
    exact records_quoted hlength fields rest
  | false =>
    rw [if_neg Bool.false_ne_true]
    have hd : d ∉ f := hkept.resolve_left (by simp [hneeds])
    exact records_unquoted (needsQuotes_of_kept hneeds hd) hlength

/-- The line feed that ends a record. -/
theorem Done.records_newline {s : Cursor} {f : List Char} {fields : List (List Char)}
    (h : Done s f fields) (hd : Plain d) (rest : List Char) :
    records limit d s ('\n' :: rest) = emit (fields ++ [f]) (records limit d start rest) := by
  rw [records, h.step_newline hd]
  dsimp only
  rw [if_pos ⟨rfl, rfl⟩]

theorem records_writeFields (hd : Plain d) {f : List Char} {fs : List (List Char)}
    (hlength : ∀ g ∈ f :: fs, g.length ≤ limit) (fields : List (List Char)) (rest : List Char) :
    records limit d ⟨.startField, [], fields⟩ (writeFields d (f :: fs) ++ rest) =
      emit (fields ++ f :: fs) (records limit d start rest) := by
  induction fs generalizing f fields with
  | nil =>
    obtain ⟨s, hdone, hread⟩ := records_writeField (kept_self f) (hlength f List.mem_cons_self)
      fields ('\n' :: rest)
    rw [writeFields, List.append_assoc, List.singleton_append, hread, hdone.records_newline hd]
  | cons g fs ih =>
    obtain ⟨s, hdone, hread⟩ := records_writeField (kept_self f) (hlength f List.mem_cons_self)
      fields (d :: (writeFields d (g :: fs) ++ rest))
    rw [writeFields, List.append_assoc, List.cons_append, hread,
      records_step (hdone.step_delimiter hd) (by simp),
      ih (fun h hh => hlength h (List.mem_cons_of_mem f hh))]
    simp

/-- A record begins as its first field does. -/
theorem records_start {c : Char} (hc : isBreak c = false) (cs : List Char) :
    records limit d start (c :: cs) = records limit d ⟨.startField, [], []⟩ (c :: cs) := by
  have hstep : step limit d start c = step limit d ⟨.startField, [], []⟩ c := by
    unfold step start
    dsimp only
    rw [hc]
    rfl
  rw [records, records, hstep]

theorem writeField_head {f : List Char} (hf : f ≠ []) :
    ∃ c cs, writeField w f = c :: cs ∧ isBreak c = false := by
  unfold writeField
  split
  · exact ⟨'"', _, rfl, by decide⟩
  · rename_i hneeds
    cases f with
    | nil => exact absurd rfl hf
    | cons c f =>
      refine ⟨c, f, rfl, ?_⟩
      unfold needsQuotes isSpecial at hneeds
      simp only [List.any_cons, Bool.or_eq_true, not_or, Bool.not_eq_true] at hneeds
      exact hneeds.1.2

/-- No record is written as an empty line. -/
theorem writeRecord_head (hw : Plain w) (f : List Char) (fs : List (List Char)) :
    ∃ c cs, writeRecord w (f :: fs) = c :: cs ∧ isBreak c = false := by
  cases f with
  | nil =>
    cases fs with
    | nil => exact ⟨'"', _, rfl, by decide⟩
    | cons g fs => exact ⟨w, _, rfl, hw.2⟩
  | cons a f =>
    obtain ⟨c, cs, hwrite, hc⟩ := writeField_head (w := w) (List.cons_ne_nil a f)
    cases fs with
    | nil => exact ⟨c, cs ++ ['\n'], by simp [writeRecord, writeFields, hwrite], hc⟩
    | cons g fs =>
      exact ⟨c, cs ++ w :: writeFields w (g :: fs),
        by simp [writeRecord, writeFields, hwrite], hc⟩

theorem records_writeRecord_start (hw : Plain w) {f : List Char} {fs : List (List Char)}
    (rest : List Char) :
    records limit d start (writeRecord w (f :: fs) ++ rest) =
      records limit d ⟨.startField, [], []⟩ (writeRecord w (f :: fs) ++ rest) := by
  obtain ⟨c, cs, hwrite, hc⟩ := writeRecord_head hw f fs
  rw [hwrite, List.cons_append, records_start hc]

/-- **A record of one field**, which another delimiter may leave whole. -/
theorem records_writeRecord_single (hd : Plain d) (hw : Plain w) {f : List Char}
    (hkept : Kept d w f) (hlength : f.length ≤ limit) (rest : List Char) :
    records limit d start (writeRecord w [f] ++ rest) =
      emit [f] (records limit d start rest) := by
  rw [records_writeRecord_start hw]
  cases f with
  | nil =>
    obtain ⟨s, hdone, hread⟩ : ∃ s, Done s [] [] ∧
        records limit d ⟨.startField, [], []⟩ (quoted [] ++ '\n' :: rest) =
          records limit d s ('\n' :: rest) := records_quoted hlength [] _
    rw [writeRecord, List.append_assoc, List.singleton_append, hread, hdone.records_newline hd]
    rfl
  | cons a f =>
    obtain ⟨s, hdone, hread⟩ := records_writeField hkept hlength [] ('\n' :: rest)
    rw [writeRecord, writeFields, List.append_assoc, List.singleton_append, hread,
      hdone.records_newline hd]
    · rfl
    · simp

/-- **A record is read back** with the delimiter it was written for. -/
theorem records_writeRecord (hd : Plain d) {f : List Char} {fs : List (List Char)}
    (hlength : ∀ g ∈ f :: fs, g.length ≤ limit) (rest : List Char) :
    records limit d start (writeRecord d (f :: fs) ++ rest) =
      emit (f :: fs) (records limit d start rest) := by
  cases fs with
  | nil => exact records_writeRecord_single hd hd (kept_self f) (hlength f List.mem_cons_self) rest
  | cons g fs =>
    have hwrite : writeRecord d (f :: g :: fs) = writeFields d (f :: g :: fs) := by
      cases f <;> rfl
    rw [records_writeRecord_start hd, hwrite]
    exact records_writeFields hd hlength [] rest

/-! ## 5. With another delimiter -/

/-- What reads a field that holds only delimiters and plain characters. -/
def InLine (s : Cursor) : Prop := s.state = .startField ∨ s.state = .inField

theorem InLine.newline {s : Cursor} (h : InLine s) :
    step limit d s '\n' = some (s.save .eatCrNl) := by
  have hbreak : isBreak '\n' = true := by decide
  rcases h with h | h <;> simp [step, h, startField, hbreak]

/-- A character that is no quote and no line break stays in the line. -/
theorem InLine.advance {s s' : Cursor} {c : Char} (h : InLine s) (hc : isBreak c = false)
    (hquote : c ≠ '"') (hstep : step limit d s c = some s') :
    InLine s' ∧ s'.fields.length = s.fields.length + if c = d then 1 else 0 := by
  by_cases hd : c = d
  · subst hd
    have hsave : step limit c s c = some (s.save .startField) := by
      rcases h with h | h <;> simp [step, h, startField, hc, hquote]
    rw [hsave] at hstep
    cases hstep
    exact ⟨Or.inl rfl, by simp [Cursor.save]⟩
  · have hadd : step limit d s c = s.add limit .inField c := by
      rcases h with h | h <;> simp [step, h, startField, hc, hquote, hd]
    rw [hadd] at hstep
    unfold Cursor.add at hstep
    split at hstep
    · cases hstep
      exact ⟨Or.inr rfl, by simp [hd]⟩
    · cases hstep

/-- An unquoted field is cut at each delimiter of the reader. -/
theorem records_line {s : Cursor} (h : InLine s) {f : List Char} (hbare : needsQuotes w f = false)
    (rest : List Char) :
    records limit d s (f ++ '\n' :: rest) = ([], true) ∨
      ∃ r, r.length = s.fields.length + f.count d + 1 ∧
        records limit d s (f ++ '\n' :: rest) = emit r (records limit d start rest) := by
  induction f generalizing s with
  | nil =>
    refine Or.inr ⟨s.fields ++ [s.field], by simp, ?_⟩
    rw [List.nil_append, records, h.newline]
    dsimp only
    rw [if_pos ⟨rfl, rfl⟩]
    rfl
  | cons c f ih =>
    unfold needsQuotes at hbare ih
    rw [List.any_cons, Bool.or_eq_false_iff] at hbare
    obtain ⟨hc, hf⟩ := hbare
    unfold isSpecial at hc
    simp only [Bool.or_eq_false_iff, beq_eq_false_iff_ne] at hc
    cases hstep : step limit d s c with
    | none =>
      refine Or.inl ?_
      rw [List.cons_append, records, hstep]
    | some s' =>
      obtain ⟨hline, hfields⟩ := h.advance hc.2 hc.1.2 hstep
      have hquiet : ¬ (c = '\n' ∧ s'.state = .eatCrNl) := by
        rintro ⟨rfl, -⟩
        exact absurd hc.2 (by decide)
      rw [List.cons_append, records_step hstep hquiet]
      rcases ih hline hf with hfail | ⟨r, hr, hread⟩
      · exact Or.inl hfail
      · refine Or.inr ⟨r, ?_, hread⟩
        rw [hr, hfields, List.count_cons]
        simp only [beq_iff_eq]
        omega

/-- **An unquoted record of one field** has one more field for each delimiter of the reader. -/
theorem records_bare (hw : Plain w) {f : List Char} (hbare : needsQuotes w f = false)
    (hf : f ≠ []) (rest : List Char) :
    records limit d start (writeRecord w [f] ++ rest) = ([], true) ∨
      ∃ r, r.length = f.count d + 1 ∧
        records limit d start (writeRecord w [f] ++ rest) =
          emit r (records limit d start rest) := by
  have hwrite : writeRecord w [f] = f ++ ['\n'] := by
    cases f with
    | nil => exact absurd rfl hf
    | cons a f =>
      rw [writeRecord, writeFields, writeField, if_neg (by simp [hbare])]
      simp
  rw [records_writeRecord_start hw, hwrite, List.append_assoc, List.singleton_append]
  simpa using records_line (s := ⟨.startField, [], []⟩) (Or.inl rfl) hbare rest

/-! ## 6. What is read, counted -/

/-- No field of a cursor is too long. -/
def Cursor.Short (limit : Nat) (s : Cursor) : Prop :=
  s.field.length ≤ limit ∧ ∀ f ∈ s.fields, f.length ≤ limit

theorem Cursor.Short.save {s : Cursor} (h : s.Short limit) (state : State) :
    (s.save state).Short limit := by
  refine ⟨Nat.zero_le limit, ?_⟩
  intro f hf
  rcases List.mem_append.mp hf with hf | hf
  · exact h.2 f hf
  · rw [List.mem_singleton.mp hf]
    exact h.1

theorem Cursor.Short.add {s s' : Cursor} {state : State} {c : Char} (h : s.Short limit)
    (hadd : s.add limit state c = some s') : s'.Short limit := by
  unfold Cursor.add at hadd
  split at hadd
  · rename_i hroom
    cases hadd
    exact ⟨by simpa [Nat.succ_le_iff] using hroom, h.2⟩
  · cases hadd

theorem Cursor.Short.startField {s s' : Cursor} {c : Char} (h : s.Short limit)
    (hstep : startField limit d s c = some s') : s'.Short limit := by
  unfold Csv.startField at hstep
  split at hstep
  · cases hstep
    exact h.save _
  · split at hstep
    · cases hstep
      exact h
    · split at hstep
      · cases hstep
        exact h.save _
      · exact h.add hstep

theorem Cursor.Short.step {s s' : Cursor} {c : Char} (h : s.Short limit)
    (hstep : step limit d s c = some s') : s'.Short limit := by
  unfold Csv.step at hstep
  split at hstep
  · split at hstep
    · cases hstep
      exact h
    · exact h.startField hstep
  · exact h.startField hstep
  · split at hstep
    · cases hstep
      exact h.save _
    · split at hstep
      · cases hstep
        exact h.save _
      · exact h.add hstep
  · split at hstep
    · cases hstep
      exact h
    · exact h.add hstep
  · split at hstep
    · exact h.add hstep
    · split at hstep
      · cases hstep
        exact h.save _
      · split at hstep
        · cases hstep
          exact h.save _
        · exact h.add hstep
  · split at hstep
    · cases hstep
      exact h
    · cases hstep

/-- **No field that is read is longer than the limit.** -/
theorem length_le_of_mem_records {s : Cursor} (h : s.Short limit) (cs : List Char) :
    ∀ r ∈ (records limit d s cs).1, ∀ f ∈ r, f.length ≤ limit := by
  induction cs generalizing s with
  | nil =>
    intro r hr f hf
    rw [records] at hr
    unfold Cursor.last at hr
    split at hr
    · cases hr
    · rw [List.mem_singleton.mp hr] at hf
      exact h.2 f hf
    · rw [List.mem_singleton.mp hr] at hf
      rcases List.mem_append.mp hf with hf | hf
      · exact h.2 f hf
      · rw [List.mem_singleton.mp hf]
        exact h.1
  | cons c cs ih =>
    intro r hr f hf
    rw [records] at hr
    cases hstep : step limit d s c with
    | none =>
      rw [hstep] at hr
      cases hr
    | some s' =>
      have hshort := h.step hstep
      rw [hstep] at hr
      dsimp only at hr
      split at hr
      · have hstart : start.Short limit := ⟨by simp [start], by simp [start]⟩
        rcases List.mem_cons.mp hr with rfl | hr
        · exact hshort.2 f hf
        · exact ih hstart r hr f hf
      · exact ih hshort r hr f hf

/-- The delimiters that a record holds, and the one that ends each field. -/
def weight (d : Char) (r : List (List Char)) : Nat := (r.map fun f => f.count d + 1).sum

theorem weight_append (r r' : List (List Char)) :
    weight d (r ++ r') = weight d r + weight d r' := by
  unfold weight
  rw [List.map_append, List.sum_append]

theorem weight_singleton (f : List Char) : weight d [f] = f.count d + 1 := by
  simp [weight]

/-- What a cursor has read, the record that it is in counting for one at least. -/
def Cursor.weight (d : Char) (s : Cursor) : Nat :=
  match s.state with
  | .eatCrNl => max 1 (Csv.weight d s.fields)
  | _ => Csv.weight d s.fields + (s.field.count d + 1)

theorem Cursor.one_le_weight (d : Char) (s : Cursor) : 1 ≤ s.weight d := by
  unfold Cursor.weight
  split
  · exact Nat.le_max_left ..
  · omega

theorem weight_le_cursor (d : Char) (s : Cursor) : Csv.weight d s.fields ≤ s.weight d := by
  unfold Cursor.weight
  split
  · exact Nat.le_max_right ..
  · omega

/-- Where no line feed was seen, the field in progress counts. -/
theorem Cursor.weight_of_ne {s : Cursor} (h : s.state ≠ .eatCrNl) :
    s.weight d = Csv.weight d s.fields + (s.field.count d + 1) := by
  unfold Cursor.weight
  split
  · rename_i heat
    exact absurd heat h
  · rfl

theorem Cursor.weight_save {s : Cursor} (h : s.state ≠ .eatCrNl) :
    (s.save .eatCrNl).weight d = s.weight d ∧ (s.save .startField).weight d = s.weight d + 1 := by
  rw [Cursor.weight_of_ne h]
  unfold Cursor.weight Cursor.save
  dsimp only
  rw [weight_append, weight_singleton]
  exact ⟨by omega, rfl⟩

theorem Cursor.weight_add {s s' : Cursor} {state : State} {c : Char} (h : s.state ≠ .eatCrNl)
    (hstate : state ≠ .eatCrNl) (hadd : s.add limit state c = some s') :
    s'.weight d = s.weight d + if c = d then 1 else 0 := by
  unfold Cursor.add at hadd
  split at hadd
  · cases hadd
    rw [Cursor.weight_of_ne h, Cursor.weight_of_ne hstate]
    dsimp only
    rw [List.count_append, List.count_singleton]
    simp only [beq_iff_eq]
    omega
  · cases hadd

theorem Cursor.weight_state {s : Cursor} (h : s.state ≠ .eatCrNl) (state : State) :
    Cursor.weight d { s with state := state } ≤ s.weight d := by
  have hone := Cursor.one_le_weight d s
  have hfields := weight_le_cursor d s
  rw [Cursor.weight_of_ne h] at hone hfields ⊢
  unfold Cursor.weight
  dsimp only
  split <;> omega

theorem weight_startField {s s' : Cursor} {c : Char} (h : s.state ≠ .eatCrNl)
    (hstep : startField limit d s c = some s') :
    s'.weight d ≤ s.weight d + if c = d then 1 else 0 := by
  obtain ⟨hbreak, hdelimiter⟩ := Cursor.weight_save (d := d) h
  unfold startField at hstep
  split at hstep
  · cases hstep
    omega
  · split at hstep
    · cases hstep
      have hstate := Cursor.weight_state (d := d) h .inQuotedField
      omega
    · split at hstep
      · rename_i hd
        cases hstep
        rw [if_pos hd]
        omega
      · rw [Cursor.weight_add h (by decide) hstep]

/-- **One character** adds a delimiter, or nothing. -/
theorem weight_step {s s' : Cursor} {c : Char} (hstep : step limit d s c = some s') :
    s'.weight d ≤ s.weight d + if c = d then 1 else 0 := by
  unfold step at hstep
  split at hstep
  · rename_i hs
    have h : s.state ≠ .eatCrNl := by simp [hs]
    split at hstep
    · cases hstep
      have hstate := Cursor.weight_state (d := d) h .eatCrNl
      omega
    · exact weight_startField h hstep
  · rename_i hs
    exact weight_startField (by simp [hs]) hstep
  · rename_i hs
    have h : s.state ≠ .eatCrNl := by simp [hs]
    obtain ⟨hbreak, hdelimiter⟩ := Cursor.weight_save (d := d) h
    split at hstep
    · cases hstep
      omega
    · split at hstep
      · rename_i hd
        cases hstep
        rw [if_pos hd]
        omega
      · rw [Cursor.weight_add h (by decide) hstep]
  · rename_i hs
    have h : s.state ≠ .eatCrNl := by simp [hs]
    split at hstep
    · cases hstep
      have hstate := Cursor.weight_state (d := d) h .quoteInQuotedField
      omega
    · rw [Cursor.weight_add h (by decide) hstep]
  · rename_i hs
    have h : s.state ≠ .eatCrNl := by simp [hs]
    obtain ⟨hbreak, hdelimiter⟩ := Cursor.weight_save (d := d) h
    split at hstep
    · rw [Cursor.weight_add h (by decide) hstep]
    · split at hstep
      · rename_i hd
        cases hstep
        rw [if_pos hd]
        omega
      · split at hstep
        · cases hstep
          omega
        · rw [Cursor.weight_add h (by decide) hstep]
  · split at hstep
    · cases hstep
      omega
    · cases hstep

/-- What several records weigh, and how many of them have fields. -/
def total (d : Char) (rs : List (List (List Char))) : Nat := (rs.map (weight d)).sum

def filled (rs : List (List (List Char))) : Nat := (rs.filter (· ≠ [])).length

theorem total_cons (r : List (List Char)) (rs : List (List (List Char))) :
    total d (r :: rs) = weight d r + total d rs := by
  simp [total]

theorem filled_cons (r : List (List Char)) (rs : List (List (List Char))) :
    filled (r :: rs) = (if r = [] then 0 else 1) + filled rs := by
  unfold filled
  rw [List.filter_cons]
  by_cases hr : r = []
  · simp [hr]
  · simp [hr, Nat.add_comm]

/-- **The delimiters of a text** are those that its fields hold and those between them. -/
theorem total_le (s : Cursor) (cs : List Char) :
    total d (records limit d s cs).1 + 1 ≤
      s.weight d + cs.count d + filled (records limit d s cs).1 := by
  induction cs generalizing s with
  | nil =>
    have hone := Cursor.one_le_weight d s
    rw [records]
    unfold Cursor.last
    split
    · simpa [total, filled] using hone
    · rename_i hs
      have hfields := weight_le_cursor d s
      rw [total_cons, filled_cons]
      by_cases hempty : s.fields = []
      · rw [if_pos hempty, hempty]
        simpa [total, filled, weight] using hone
      · rw [if_neg hempty]
        simp [total, filled]
        omega
    · rename_i hs
      rw [total_cons, filled_cons, if_neg (by simp), weight_append, weight_singleton,
        Cursor.weight_of_ne hs]
      simp [total, filled]
  | cons c cs ih =>
    have hone := Cursor.one_le_weight d s
    rw [records]
    cases hstep : step limit d s c with
    | none =>
      simp [total, filled]
      omega
    | some s' =>
      have hweight := weight_step hstep
      rw [List.count_cons]
      simp only [beq_iff_eq]
      split
      · have hrest := ih start
        have hfields := weight_le_cursor d s'
        have hstart : start.weight d = 1 := by simp [start, Cursor.weight, weight]
        have hone' := Cursor.one_le_weight d s'
        unfold emit
        dsimp only
        rw [total_cons, filled_cons]
        by_cases hempty : s'.fields = []
        · rw [if_pos hempty, hempty]
          have hzero : weight d [] = 0 := rfl
          omega
        · rw [if_neg hempty]
          omega
      · have hrest := ih s'
        omega

end Csv
