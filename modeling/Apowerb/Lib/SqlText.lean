/-
# The text of a query as a database reads it

In the text of a query stand comments, literals and quoted names, and where one of them begins and
ends is up to the database (`Dialect`).  `read` takes a text apart (`Piece`), character by
character; a text in which something is not closed has no reading.

`tokens` takes a text apart in its words and its other characters, without the white space.

* `read_append`: a text in which all is closed is read on its own, whatever it goes on with.
* `tokens_space`, `grp_space`: where white space may be put without changing the tokens.

A name in which the closing quote is doubled is read in parts, one for each quote that is closed, so
that each part is a text between quotes.
-/
import Mathlib.Data.List.TakeWhile

namespace SqlText

/-! ## 1. Dialects -/

/-- What a database reads in its own way. -/
structure Dialect where
  /-- block comments nest -/
  nests : Bool
  /-- a double dash opens a comment only before white space, a control character or the end -/
  dashesBlank : Bool
  /-- a carriage return ends a line; else only one before a line feed does, or the line feed -/
  returnEnds : Bool
  /-- `#` opens a comment -/
  hash : Bool
  /-- a backslash takes the next character with it, between quotes of either kind -/
  backslash : Bool
  /-- names stand in back quotes too -/
  backquotes : Bool
  /-- names stand in square brackets too -/
  brackets : Bool
  /-- there are literals `E'…'`, names `U&"…"` and dollar quotes -/
  prefixes : Bool

def postgres : Dialect := ⟨true, false, true, false, false, false, false, true⟩

/-- With `ANSI_QUOTES` or without: what stands in double quotes is read as a name. -/
def mysql : Dialect := ⟨false, true, false, true, true, true, false, false⟩

def sqlServer : Dialect := ⟨true, false, false, false, false, false, true, false⟩

/-- A part of a text: a character; or a comment, a literal or a part of a quoted name, as they are
written.  A line comment that the text ends in has not ended. -/
inductive Piece
  | text (c : Char)
  | comment (ended : Bool) (raw : List Char)
  | literal (raw : List Char)
  | name (unicode first last : Bool) (raw : List Char)
  deriving DecidableEq

/-- What a quote opens: how it is closed, whether a backslash escapes, and whether it is a name,
then the first part of one, and one with Unicode escapes. -/
structure Quote where
  close : Char
  escapes : Bool
  isName : Bool
  first : Bool
  unicode : Bool

/-- Where a reader stands: in the text after some characters, before one that was looked at already,
or in something that was opened; with what was read of it, last first. -/
inductive Mode
  | text (before : List Char)
  | skip (after : Mode)
  | line (acc : List Char)
  | block (depth : Nat) (acc : List Char)
  | quoted (q : Quote) (acc : List Char)
  | dollar (tag acc : List Char)

/-! ## 2. Reading -/

def isAsciiLetter (c : Char) : Bool := ('a' ≤ c && c ≤ 'z') || ('A' ≤ c && c ≤ 'Z')

def isDigit (c : Char) : Bool := '0' ≤ c && c ≤ '9'

/-- What begins a name that is not quoted, in PostgreSQL. -/
def startsName (c : Char) : Bool := isAsciiLetter c || c = '_' || 128 ≤ c.toNat

def inName (c : Char) : Bool := startsName c || isDigit c || c = '$'

/-- After the `E` of a literal with escapes. -/
def afterE : List Char → Bool
  | c :: rest => (c = 'e' || c = 'E') && !rest.head?.any inName
  | [] => false

/-- After the `U&` of a name with Unicode escapes. -/
def afterU : List Char → Bool
  | '&' :: c :: rest => (c = 'u' || c = 'U') && !rest.head?.any inName
  | _ => false

/-- The tag of a dollar quote, after its first dollar sign; there is none within a name. -/
def dollarTag (before cs : List Char) : Option (List Char) :=
  let tag := cs.takeWhile fun c => startsName c || isDigit c
  if (before.takeWhile inName).any startsName || tag.head?.any isDigit then none
  else if (cs.drop tag.length).head? = some '$' then some tag
  else none

/-- A blank or a control character. -/
def isBlank (c : Char) : Bool := c.toNat ≤ 32 || c.toNat = 127

def backquote : Char := Char.ofNat 0x60

/-- What a character opens in the text. -/
def opens (d : Dialect) (before : List Char) (c : Char) (cs : List Char) : Option Mode :=
  if c = '-' ∧ cs.head? = some '-' ∧ (d.dashesBlank → cs.tail.head?.all isBlank) then
    some (.skip (.line ['-', '-']))
  else if c = '#' ∧ d.hash then some (.line ['#'])
  else if c = '/' ∧ cs.head? = some '*' then some (.skip (.block 0 ['*', '/']))
  else if c = '\'' then
    some (.quoted ⟨'\'', d.backslash || (d.prefixes && afterE before), false, true, false⟩ [c])
  else if c = '"' then
    some (.quoted ⟨'"', d.backslash, true, true, d.prefixes && afterU before⟩ [c])
  else if c = '[' ∧ d.brackets then some (.quoted ⟨']', false, true, true, false⟩ [c])
  else if c = backquote ∧ d.backquotes then
    some (.quoted ⟨backquote, false, true, true, false⟩ [c])
  else if c = '$' ∧ d.prefixes then
    (dollarTag before cs).map fun tag =>
      Nat.repeat .skip (tag.length + 1) (.dollar tag (('$' :: tag ++ ['$']).reverse))
  else none

/-- Whether a line comment ends with a character. -/
def endsLine (d : Dialect) (c : Char) (cs : List Char) : Bool :=
  c = '\n' || (c = '\r' && (d.returnEnds || cs.head? = some '\n'))

/-- What was read between quotes. -/
def Quote.piece (q : Quote) (last : Bool) (acc : List Char) : Piece :=
  if q.isName then .name q.unicode q.first last acc.reverse else .literal acc.reverse

/-- Take a text apart. -/
def read (d : Dialect) : Mode → List Char → Option (List Piece)
  | .text _, [] => some []
  | .line acc, [] => some [.comment false acc.reverse]
  | _, [] => none
  | .skip m, _ :: cs => read d m cs
  | .text before, c :: cs =>
    match opens d before c cs with
    | some m => read d m cs
    | none => (read d (.text (c :: before)) cs).map (.text c :: ·)
  | .line acc, c :: cs =>
    if endsLine d c cs then
      (read d (.text []) cs).map (.comment true (c :: acc).reverse :: ·)
    else read d (.line (c :: acc)) cs
  | .block depth acc, c :: cs =>
    if c = '*' ∧ cs.head? = some '/' then
      if depth = 0 then
        (read d (.skip (.text [])) cs).map (.comment true ('/' :: '*' :: acc).reverse :: ·)
      else read d (.skip (.block (depth - 1) ('/' :: '*' :: acc))) cs
    else if c = '/' ∧ cs.head? = some '*' ∧ d.nests then
      read d (.skip (.block (depth + 1) ('*' :: '/' :: acc))) cs
    else read d (.block depth (c :: acc)) cs
  | .quoted q acc, c :: cs =>
    if c = '\\' ∧ q.escapes then
      read d (.skip (.quoted q (cs.head?.toList ++ c :: acc))) cs
    else if c = q.close then
      if cs.head? = some q.close then
        if q.isName then
          (read d (.skip (.quoted { q with first := false } [c])) cs).map
            (q.piece false (c :: acc) :: ·)
        else read d (.skip (.quoted q (c :: c :: acc))) cs
      else (read d (.text []) cs).map (q.piece true (c :: acc) :: ·)
    else read d (.quoted q (c :: acc)) cs
  | .dollar tag acc, c :: cs =>
    if c = '$' ∧ (tag ++ ['$']).isPrefixOf cs = true then
      (read d (Nat.repeat .skip (tag.length + 1) (.text [])) cs).map
        (.literal (acc.reverse ++ '$' :: tag ++ ['$']) :: ·)
    else read d (.dollar tag (c :: acc)) cs

/-- A whole text. -/
def reading (d : Dialect) (cs : List Char) : Option (List Piece) := read d (.text []) cs

section
variable {d : Dialect} {c : Char} {cs : List Char}

theorem read_line {acc : List Char} : read d (.line acc) (c :: cs) =
    if endsLine d c cs then (read d (.text []) cs).map (.comment true (c :: acc).reverse :: ·)
    else read d (.line (c :: acc)) cs := rfl

theorem read_block {acc : List Char} : read d (.block 0 acc) (c :: cs) =
    if c = '*' ∧ cs.head? = some '/' then
      (read d (.skip (.text [])) cs).map (.comment true ('/' :: '*' :: acc).reverse :: ·)
    else if c = '/' ∧ cs.head? = some '*' ∧ d.nests then
      read d (.skip (.block 1 ('*' :: '/' :: acc))) cs
    else read d (.block 0 (c :: acc)) cs := rfl

theorem read_text {before : List Char} : read d (.text before) (c :: cs) =
    match opens d before c cs with
    | some m => read d m cs
    | none => (read d (.text (c :: before)) cs).map (.text c :: ·) := rfl

theorem read_nested {depth : Nat} {acc : List Char} : read d (.block depth acc) (c :: cs) =
    if c = '*' ∧ cs.head? = some '/' then
      if depth = 0 then
        (read d (.skip (.text [])) cs).map (.comment true ('/' :: '*' :: acc).reverse :: ·)
      else read d (.skip (.block (depth - 1) ('/' :: '*' :: acc))) cs
    else if c = '/' ∧ cs.head? = some '*' ∧ d.nests then
      read d (.skip (.block (depth + 1) ('*' :: '/' :: acc))) cs
    else read d (.block depth (c :: acc)) cs := rfl

theorem read_dollar {tag acc : List Char} : read d (.dollar tag acc) (c :: cs) =
    if c = '$' ∧ (tag ++ ['$']).isPrefixOf cs = true then
      (read d (Nat.repeat .skip (tag.length + 1) (.text [])) cs).map
        (.literal (acc.reverse ++ '$' :: tag ++ ['$']) :: ·)
    else read d (.dollar tag (c :: acc)) cs := rfl

theorem read_quoted {q : Quote} {acc : List Char} : read d (.quoted q acc) (c :: cs) =
    if c = '\\' ∧ q.escapes then
      read d (.skip (.quoted q (cs.head?.toList ++ c :: acc))) cs
    else if c = q.close then
      if cs.head? = some q.close then
        if q.isName then
          (read d (.skip (.quoted { q with first := false } [c])) cs).map
            (q.piece false (c :: acc) :: ·)
        else read d (.skip (.quoted q (c :: c :: acc))) cs
      else (read d (.text []) cs).map (q.piece true (c :: acc) :: ·)
    else read d (.quoted q (c :: acc)) cs := rfl

end

/-! ## 3. Texts put together -/

attribute [local grind =] dollarTag opens

/-- Where a reader can stand: quotes are closed by a quote, and the tags of dollar quotes are
names. -/
def Mode.Fits (d : Dialect) : Mode → Prop
  | .skip m => m.Fits d
  | .quoted q _ => q.close ∈ ['\'', '"', ']', backquote]
  | .dollar tag _ => d.prefixes = true ∧ ∀ c ∈ tag, inName c = true
  | .text _ | .line _ | .block _ _ => True

/-- A text that closes and opens nothing together with the character before it, nor goes on with a
name, where a dialect looks at names. -/
def Inert (d : Dialect) (z : List Char) : Prop :=
  ∀ c ∈ z.head?, c ∉ ['-', '*', '/', '\'', '"', ']', backquote, '\n'] ∧
    (d.prefixes = true → inName c = false)

section
variable {d : Dialect} {z : List Char}

theorem Inert.head? (hz : Inert d z) {k : Char}
    (hk : k ∈ ['-', '*', '/', '\'', '"', ']', backquote, '\n']) (cs : List Char) :
    (cs ++ z).head? = some k ↔ cs.head? = some k := by
  cases cs with
  | nil =>
    refine ⟨fun h => absurd hk (hz k h).1, nofun⟩
  | cons c cs => rfl

/-- Whether a comment or a quote is open. -/
def Mode.isOpen : Mode → Bool
  | .skip m => m.isOpen
  | .text _ => false
  | .line _ | .block _ _ | .quoted _ _ | .dollar _ _ => true

theorem fits_repeat (n : Nat) {m : Mode} (h : m.Fits d) : (Nat.repeat .skip n m).Fits d := by
  induction n with
  | zero => exact h
  | succ n ih => exact ih

theorem isOpen_repeat (n : Nat) (m : Mode) : (Nat.repeat .skip n m).isOpen = m.isOpen := by
  induction n with
  | zero => rfl
  | succ n ih => exact ih

theorem inName_tag {c : Char} (h : (startsName c || isDigit c) = true) : inName c = true := by
  unfold inName
  rw [h, Bool.true_or]

theorem takeWhile_inert (hz : ∀ c ∈ z.head?, inName c = false) (cs : List Char) :
    (cs ++ z).takeWhile (fun c => startsName c || isDigit c) =
      cs.takeWhile fun c => startsName c || isDigit c := by
  induction cs with
  | nil =>
    cases z with
    | nil => rfl
    | cons c z =>
      refine List.takeWhile_cons_of_neg fun hc => ?_
      exact absurd (inName_tag hc) (by simp [hz c rfl])
  | cons c cs ih => rw [List.cons_append, List.takeWhile_cons, List.takeWhile_cons, ih]

theorem dollarTag_inert (hz : ∀ c ∈ z.head?, inName c = false) (before cs : List Char) :
    dollarTag before (cs ++ z) = dollarTag before cs := by
  let tag := cs.takeWhile fun c => startsName c || isDigit c
  have hlength : tag.length ≤ cs.length := (List.takeWhile_prefix _).length_le
  have hdrop : (cs ++ z).drop tag.length = cs.drop tag.length ++ z :=
    List.drop_append_of_le_length hlength
  have hdollar : (cs.drop tag.length ++ z).head? = some '$' ↔
      (cs.drop tag.length).head? = some '$' := by
    cases cs.drop tag.length with
    | nil => exact ⟨fun h => absurd (hz _ h) (by decide), nofun⟩
    | cons c cs => rfl
  unfold dollarTag
  simp only [takeWhile_inert hz]
  rw [hdrop]
  simp only [hdollar, tag]

theorem isPrefixOf_inert {p : List Char} (hp : ∀ c ∈ p, inName c = true)
    (hz : ∀ c ∈ z.head?, inName c = false) (cs : List Char) :
    p.isPrefixOf (cs ++ z) = p.isPrefixOf cs := by
  induction p generalizing cs with
  | nil => rfl
  | cons a p ih =>
    have ha := hp a List.mem_cons_self
    cases cs with
    | cons c cs =>
      rw [List.cons_append, List.isPrefixOf_cons_cons, List.isPrefixOf_cons_cons,
        ih fun c hc => hp c (List.mem_cons_of_mem _ hc)]
    | nil =>
      cases z with
      | nil => rfl
      | cons c z =>
        have hne : a ≠ c := by
          rintro rfl
          exact absurd ha (by simp [hz a rfl])
        simp [List.isPrefixOf_cons_cons, hne]

/-- What a character opens does not depend on what the text goes on with, unless the text ends in a
double dash. -/
theorem opens_inert (hz : Inert d z) (before : List Char) {c : Char} {cs : List Char}
    (hdash : ¬ (c = '-' ∧ cs = ['-'])) : opens d before c (cs ++ z) = opens d before c cs := by
  have hdashes : (c = '-' ∧ (cs ++ z).head? = some '-' ∧
      (d.dashesBlank → (cs ++ z).tail.head?.all isBlank)) ↔
        (c = '-' ∧ cs.head? = some '-' ∧ (d.dashesBlank → cs.tail.head?.all isBlank)) := by
    rw [hz.head? (by decide)]
    match cs with
    | [] => simp
    | [a] =>
      constructor
      · rintro ⟨hc, ha, -⟩
        exact absurd ⟨hc, congrArg (fun x => [x]) (Option.some.inj ha)⟩ hdash
      · rintro ⟨hc, ha, -⟩
        exact absurd ⟨hc, congrArg (fun x => [x]) (Option.some.inj ha)⟩ hdash
    | a :: b :: cs => rfl
  have hstar : (c = '/' ∧ (cs ++ z).head? = some '*') ↔ (c = '/' ∧ cs.head? = some '*') := by
    rw [hz.head? (by decide)]
  unfold opens
  simp only [hdashes, hstar]
  by_cases hp : d.prefixes = true
  · rw [dollarTag_inert fun c hc => (hz c hc).2 hp]
  · have hdollar : ¬ (c = '$' ∧ d.prefixes = true) := fun hdollar => hp hdollar.2
    rw [if_neg hdollar, if_neg hdollar]

/-- What is opened. -/
theorem opens_cases {before : List Char} {c : Char} {cs : List Char} {m : Mode}
    (h : opens d before c cs = some m) : m.Fits d ∧ m.isOpen = true := by
  unfold opens at h
  split at h
  · cases h
    exact ⟨trivial, rfl⟩
  split at h
  · cases h
    exact ⟨trivial, rfl⟩
  split at h
  · cases h
    exact ⟨trivial, rfl⟩
  split at h
  · cases h
    exact ⟨by simp [Mode.Fits], rfl⟩
  split at h
  · cases h
    exact ⟨by simp [Mode.Fits], rfl⟩
  split at h
  · cases h
    exact ⟨by simp [Mode.Fits], rfl⟩
  split at h
  · cases h
    exact ⟨by simp [Mode.Fits], rfl⟩
  split at h
  · next hdollar =>
    obtain ⟨tag, htag, rfl⟩ := Option.map_eq_some_iff.mp h
    refine ⟨fits_repeat _ ⟨hdollar.2, ?_⟩, isOpen_repeat _ _⟩
    unfold dollarTag at htag
    dsimp only at htag
    split at htag
    · cases htag
    split at htag
    · cases htag
      exact fun c hc => inName_tag (c := c) (by simpa using List.mem_takeWhile_imp hc)
    · cases htag
  · cases h

/-- A text in which all is closed is read on its own, whatever it goes on with. -/
theorem read_append (hz : Inert d z) {R : List Piece} {m : Mode} {x : List Char} (hm : m.Fits d)
    (h : read d m x = some R) (hended : ∀ raw, .comment false raw ∉ R) :
    ∃ before, read d m (x ++ z) = (read d (.text before) z).map (R ++ ·) := by
  induction x generalizing m R with
  | nil =>
    cases m with
    | text before =>
      cases h
      exact ⟨before, by simp⟩
    | line acc =>
      cases h
      exact absurd List.mem_cons_self (hended acc.reverse)
    | skip | block | quoted | dollar => cases h
  | cons c cs ih =>
    -- what is read next, and then a piece or none
    have hpass (m' : Mode) (hm' : m'.Fits d) (hread : read d m (c :: cs) = read d m' cs)
        (hread' : read d m (c :: cs ++ z) = read d m' (cs ++ z)) :
        ∃ before, read d m (c :: cs ++ z) = (read d (.text before) z).map (R ++ ·) := by
      rw [hread']
      exact ih hm' (hread.symm.trans h) hended
    have hpiece (m' : Mode) (p : Piece) (hm' : m'.Fits d)
        (hread : read d m (c :: cs) = (read d m' cs).map (p :: ·))
        (hread' : read d m (c :: cs ++ z) = (read d m' (cs ++ z)).map (p :: ·)) :
        ∃ before, read d m (c :: cs ++ z) = (read d (.text before) z).map (R ++ ·) := by
      rw [hread, Option.map_eq_some_iff] at h
      obtain ⟨R', hR', rfl⟩ := h
      obtain ⟨before, hbefore⟩ := ih hm' hR' fun raw hraw =>
        hended raw (List.mem_cons_of_mem _ hraw)
      refine ⟨before, ?_⟩
      rw [hread', hbefore, Option.map_map]
      rfl
    cases m with
    | skip m => exact hpass m hm rfl rfl
    | text before =>
      by_cases hdash : c = '-' ∧ cs = ['-']
      · -- a comment that has not ended
        obtain ⟨rfl, rfl⟩ := hdash
        have hopens : opens d before '-' ['-'] = some (.skip (.line ['-', '-'])) := by
          simp [opens]
        simp only [read_text, hopens] at h
        cases h
        exact absurd List.mem_cons_self (hended _)
      · have hopens := opens_inert hz before hdash
        cases ho : opens d before c cs with
        | some m' =>
          refine hpass m' (opens_cases ho).1 ?_ ?_
          · simp only [read_text, ho]
          · simp only [List.cons_append, read_text, hopens, ho]
        | none =>
          refine hpiece (.text (c :: before)) (p := .text c) trivial ?_ ?_
          · simp only [read_text, ho]
          · simp only [List.cons_append, read_text, hopens, ho]
    | line acc =>
      have hends : endsLine d c (cs ++ z) = endsLine d c cs := by
        simp only [endsLine, hz.head? (k := '\n') (by decide)]
      cases he : endsLine d c cs with
      | true =>
        refine hpiece (.text []) trivial (p := .comment true (c :: acc).reverse) ?_ ?_
        · rw [read_line, he, if_pos rfl]
        · rw [List.cons_append, read_line, hends, he, if_pos rfl]
      | false =>
        refine hpass (.line (c :: acc)) trivial ?_ ?_
        · rw [read_line, he, if_neg Bool.false_ne_true]
        · rw [List.cons_append, read_line, hends, he, if_neg Bool.false_ne_true]
    | block depth acc =>
      have hslash : (c = '*' ∧ (cs ++ z).head? = some '/') ↔ (c = '*' ∧ cs.head? = some '/') := by
        rw [hz.head? (by decide)]
      have hstar : (c = '/' ∧ (cs ++ z).head? = some '*' ∧ d.nests = true) ↔
          (c = '/' ∧ cs.head? = some '*' ∧ d.nests = true) := by
        rw [hz.head? (by decide)]
      by_cases hclose : c = '*' ∧ cs.head? = some '/'
      · by_cases hdepth : depth = 0
        · refine hpiece (.skip (.text [])) trivial
            (p := .comment true ('/' :: '*' :: acc).reverse) ?_ ?_
          · simp only [read_nested, if_pos hclose, if_pos hdepth]
          · simp only [List.cons_append, read_nested, hslash, if_pos hclose, if_pos hdepth]
        · refine hpass (.skip (.block (depth - 1) ('/' :: '*' :: acc))) trivial ?_ ?_
          · simp only [read_nested, if_pos hclose, if_neg hdepth]
          · simp only [List.cons_append, read_nested, hslash, if_pos hclose, if_neg hdepth]
      · by_cases hopen : c = '/' ∧ cs.head? = some '*' ∧ d.nests = true
        · refine hpass (.skip (.block (depth + 1) ('*' :: '/' :: acc))) trivial ?_ ?_
          · simp only [read_nested, if_neg hclose, if_pos hopen]
          · simp only [List.cons_append, read_nested, hslash, hstar, if_neg hclose, if_pos hopen]
        · refine hpass (.block depth (c :: acc)) trivial ?_ ?_
          · simp only [read_nested, if_neg hclose, if_neg hopen]
          · simp only [List.cons_append, read_nested, hslash, hstar, if_neg hclose, if_neg hopen]
    | quoted q acc =>
      have hsub : ['\'', '"', ']', backquote] ⊆
          ['-', '*', '/', '\'', '"', ']', backquote, '\n'] := by decide
      have hq := hsub hm
      by_cases hesc : c = '\\' ∧ q.escapes = true
      · cases cs with
        | nil =>
          rw [read_quoted, if_pos hesc] at h
          cases h
        | cons n cs =>
          refine hpass (.skip (.quoted q (n :: c :: acc))) hm ?_ ?_
          · rw [read_quoted, if_pos hesc]
            rfl
          · rw [List.cons_append, read_quoted, if_pos hesc]
            rfl
      · by_cases hclose : c = q.close
        · by_cases hagain : cs.head? = some q.close
          · have hagain' := (hz.head? hq cs).mpr hagain
            by_cases hname : q.isName = true
            · refine hpiece (.skip (.quoted { q with first := false } [c])) hm
                (p := q.piece false (c :: acc)) ?_ ?_
              · rw [read_quoted, if_neg hesc, if_pos hclose, if_pos hagain, if_pos hname]
              · rw [List.cons_append, read_quoted, if_neg hesc, if_pos hclose, if_pos hagain',
                  if_pos hname]
            · refine hpass (.skip (.quoted q (c :: c :: acc))) hm ?_ ?_
              · rw [read_quoted, if_neg hesc, if_pos hclose, if_pos hagain, if_neg hname]
              · rw [List.cons_append, read_quoted, if_neg hesc, if_pos hclose, if_pos hagain',
                  if_neg hname]
          · have hagain' := fun h => hagain ((hz.head? hq cs).mp h)
            refine hpiece (.text []) trivial (p := q.piece true (c :: acc)) ?_ ?_
            · rw [read_quoted, if_neg hesc, if_pos hclose, if_neg hagain]
            · rw [List.cons_append, read_quoted, if_neg hesc, if_pos hclose, if_neg hagain']
        · refine hpass (.quoted q (c :: acc)) hm ?_ ?_
          · rw [read_quoted, if_neg hesc, if_neg hclose]
          · rw [List.cons_append, read_quoted, if_neg hesc, if_neg hclose]
    | dollar tag acc =>
      have hp (a : Char) (ha : a ∈ tag ++ ['$']) : inName a = true := by
        rcases List.mem_append.mp ha with ha | ha
        · exact hm.2 a ha
        · rw [List.mem_singleton.mp ha]
          rfl
      have htag := isPrefixOf_inert hp (fun a ha => (hz a ha).2 hm.1) cs
      by_cases hclose : c = '$' ∧ (tag ++ ['$']).isPrefixOf cs = true
      · refine hpiece (Nat.repeat .skip (tag.length + 1) (.text []))
          (p := .literal (acc.reverse ++ '$' :: tag ++ ['$'])) (fits_repeat _ trivial) ?_ ?_
        · simp only [read_dollar, if_pos hclose]
        · simp only [List.cons_append, read_dollar, htag, if_pos hclose]
      · refine hpass (.dollar tag (c :: acc)) hm ?_ ?_
        · simp only [read_dollar, if_neg hclose]
        · simp only [List.cons_append, read_dollar, htag, if_neg hclose]

/-- Whether a character opens nothing, whatever stands beside it. -/
def isOrdinary (c : Char) : Bool := c ∉ ['-', '#', '/', '\'', '"', '[', backquote, '$']

/-- Characters of a kind to which none belongs that may open something. -/
theorem isOrdinary_of {p : Char → Bool}
    (hp : ['-', '#', '/', '\'', '"', '[', backquote, '$'].all (fun k => !p k) = true) {c : Char}
    (h : p c = true) : isOrdinary c = true := by
  unfold isOrdinary
  rw [decide_eq_true_eq]
  intro hc
  have hnot := List.all_eq_true.mp hp c hc
  rw [h] at hnot
  cases hnot

theorem opens_ordinary {c : Char} (h : isOrdinary c = true) (before cs : List Char) :
    opens d before c cs = none := by
  simp only [isOrdinary, List.mem_cons, List.not_mem_nil, or_false, decide_eq_true_eq, not_or] at h
  obtain ⟨hdash, hhash, hslash, hquote, hname, hbracket, hback, hdollar⟩ := h
  simp [opens, hdash, hhash, hslash, hquote, hname, hbracket, hback, hdollar]

theorem read_ordinary {x : List Char} (hx : ∀ c ∈ x, isOrdinary c = true) (before : List Char) :
    read d (.text before) (x ++ z) =
      (read d (.text (x.reverse ++ before)) z).map (x.map .text ++ ·) := by
  induction x generalizing before with
  | nil => simp
  | cons c x ih =>
    have hopens := opens_ordinary (d := d) (hx c List.mem_cons_self) before (x ++ z)
    simp only [List.cons_append, read_text, hopens, ih fun c' hc' => hx c' (List.mem_cons_of_mem _ hc'),
      Option.map_map, List.reverse_cons, List.append_assoc, List.map_cons]
    rfl

/-- After a parenthesis a text is read as from its beginning. -/
theorem read_parenthesis (x before cs : List Char) :
    read d (.text (x ++ '(' :: before)) cs = read d (.text x) cs := by
  have hafterE (x : List Char) : afterE (x ++ '(' :: before) = afterE x := by
    match x with
    | [] => rfl
    | [c] => simp [afterE, inName, startsName, isAsciiLetter, isDigit]
    | c :: n :: x => rfl
  have hafterU (x : List Char) : afterU (x ++ '(' :: before) = afterU x := by
    match x with
    | [] => rfl
    | [c] =>
      by_cases hc : c = '&'
      · subst hc
        rfl
      · simp [afterU, hc]
    | [c, n] =>
      by_cases hc : c = '&'
      · subst hc
        simp [afterU, inName, startsName, isAsciiLetter, isDigit]
      · simp [afterU, hc]
    | c :: n :: n' :: x =>
      by_cases hc : c = '&'
      · subst hc
        rfl
      · simp [afterU, hc]
  have hname (x : List Char) : (x ++ '(' :: before).takeWhile inName = x.takeWhile inName := by
    induction x with
    | nil => rfl
    | cons c x ih => rw [List.cons_append, List.takeWhile_cons, List.takeWhile_cons, ih]
  have hopens (x : List Char) (c : Char) (cs : List Char) :
      opens d (x ++ '(' :: before) c cs = opens d x c cs := by
    simp only [opens, dollarTag, hafterE, hafterU, hname]
  induction cs generalizing x with
  | nil => rfl
  | cons c cs ih => simp only [read_text, hopens, ← List.cons_append, ih]

/-- Where there are no prefixes it does not matter what was read. -/
theorem read_text_eq (hd : d.prefixes = false) (before before' cs : List Char) :
    read d (.text before) cs = read d (.text before') cs := by
  induction cs generalizing before before' with
  | nil => rfl
  | cons c cs ih =>
    have hopens : opens d before c cs = opens d before' c cs := by
      simp only [opens, hd, Bool.false_and, and_false, Bool.false_eq_true, if_false]
    simp only [read_text, hopens, ih (c :: before) (c :: before')]

/-- A text in which all is closed, and a word after it. -/
theorem reading_append (hd : d.prefixes = false) {x w : List Char} {X : List Piece}
    (hX : reading d x = some X) (hended : ∀ raw, .comment false raw ∉ X)
    (hw : ∀ c ∈ w, isOrdinary c = true) (hinert : Inert d (w ++ z)) :
    reading d (x ++ (w ++ z)) = (reading d z).map fun R => X ++ (w.map .text ++ R) := by
  obtain ⟨before, hbefore⟩ := read_append (m := .text []) hinert trivial hX hended
  rw [reading, hbefore, read_ordinary hw, read_text_eq hd _ [], Option.map_map]
  rfl

/-- What is open is the first that is read. -/
theorem head_of_isOpen {m : Mode} {cs : List Char} {R : List Piece} (hm : m.isOpen = true)
    (h : read d m cs = some R) : ∃ p ∈ R.head?, ∀ c, p ≠ .text c := by
  induction cs generalizing m with
  | nil =>
    cases m with
    | line acc =>
      cases h
      exact ⟨_, rfl, nofun⟩
    | skip | block | quoted | dollar => cases h
    | text => cases hm
  | cons c cs ih =>
    have hpiece {m' : Mode} {p : Piece} (hp : ∀ c, p ≠ .text c)
        (h : (read d m' cs).map (p :: ·) = some R) : ∃ p ∈ R.head?, ∀ c, p ≠ .text c := by
      obtain ⟨R', -, rfl⟩ := Option.map_eq_some_iff.mp h
      exact ⟨p, rfl, hp⟩
    have hquoted (q : Quote) (last : Bool) (acc : List Char) (c : Char) :
        q.piece last acc ≠ .text c := by
      unfold Quote.piece
      split <;> nofun
    cases m with
    | skip m => exact ih (m := m) hm h
    | text => cases hm
    | line acc =>
      rw [read_line] at h
      split at h
      · exact hpiece (p := .comment true _) nofun h
      · exact ih rfl h
    | block depth acc =>
      rw [read_nested] at h
      split at h
      · split at h
        · exact hpiece (p := .comment true _) nofun h
        · exact ih rfl h
      · split at h
        · exact ih rfl h
        · exact ih rfl h
    | quoted q acc =>
      rw [read_quoted] at h
      split at h
      · exact ih rfl h
      · split at h
        · split at h
          · split at h
            · exact hpiece (hquoted q false _) h
            · exact ih rfl h
          · exact hpiece (hquoted q true _) h
        · exact ih rfl h
    | dollar tag acc =>
      rw [read_dollar] at h
      split at h
      · exact hpiece (p := .literal _) nofun h
      · exact ih rfl h

/-- The first that is read is the first character, or what it opens. -/
theorem head_of_read {before : List Char} {c : Char} {cs : List Char} {R : List Piece}
    (h : read d (.text before) (c :: cs) = some R) :
    ∃ p ∈ R.head?, ∀ c', p = .text c' → c' = c := by
  cases ho : opens d before c cs with
  | some m =>
    simp only [read_text, ho] at h
    obtain ⟨p, hp, hne⟩ := head_of_isOpen (opens_cases ho).2 h
    exact ⟨p, hp, fun c' hc' => absurd hc' (hne c')⟩
  | none =>
    simp only [read_text, ho] at h
    obtain ⟨R', -, rfl⟩ := Option.map_eq_some_iff.mp h
    exact ⟨_, rfl, fun c' hc' => (Piece.text.inj hc').symm⟩

end

/-! ## 4. Tokens -/

/-- A word, or a character that is in none. -/
inductive Token
  | word (w : List Char)
  | sym (c : Char)
  deriving DecidableEq

section
variable (isWord isSpace : Char → Bool)

/-- The tokens with a word before them, if there is one. -/
def flush (w : List Char) (ts : List Token) : List Token := if w = [] then ts else .word w :: ts

/-- The word at the front of a text, and the tokens after it. -/
def grp : List Char → List Char × List Token
  | [] => ([], [])
  | c :: cs =>
    let (w, ts) := grp cs
    if isWord c then (c :: w, ts)
    else ([], if isSpace c then flush w ts else .sym c :: flush w ts)

def tokens (cs : List Char) : List Token :=
  flush (grp isWord isSpace cs).1 (grp isWord isSpace cs).2

end

attribute [local grind =] flush grp tokens

variable {isWord isSpace : Char → Bool}

/-- What is put before texts with the same front. -/
theorem grp_append {a b : List Char} (h : grp isWord isSpace a = grp isWord isSpace b)
    (x : List Char) : grp isWord isSpace (x ++ a) = grp isWord isSpace (x ++ b) := by
  induction x with
  | nil => exact h
  | cons c x ih => simp only [List.cons_append, grp, ih]

theorem tokens_eq_of_grp {a b : List Char} (h : grp isWord isSpace a = grp isWord isSpace b) :
    tokens isWord isSpace a = tokens isWord isSpace b := by
  unfold tokens
  rw [h]

/-- After a character that is in no word the tokens are all that matters. -/
theorem grp_cons_of_tokens {a b : List Char} {c : Char} (hc : isWord c = false)
    (h : tokens isWord isSpace a = tokens isWord isSpace b) :
    grp isWord isSpace (c :: a) = grp isWord isSpace (c :: b) := by
  unfold tokens at h
  simp only [grp, hc, Bool.false_eq_true, if_false, h]

theorem grp_append_of_tokens {a b x : List Char} (hx : x ≠ []) (hword : ∀ c ∈ x, isWord c = false)
    (h : tokens isWord isSpace a = tokens isWord isSpace b) :
    grp isWord isSpace (x ++ a) = grp isWord isSpace (x ++ b) := by
  induction x with
  | nil => exact absurd rfl hx
  | cons c x ih =>
    have hc := hword c List.mem_cons_self
    cases x with
    | nil => exact grp_cons_of_tokens hc h
    | cons c' x =>
      have htail := ih (List.cons_ne_nil _ _) fun a ha => hword a (List.mem_cons_of_mem _ ha)
      exact grp_cons_of_tokens hc (tokens_eq_of_grp htail)

theorem front_append {a x : List Char} (hx : x ≠ []) (hword : ∀ c ∈ x, isWord c = false) :
    (grp isWord isSpace (x ++ a)).1 = [] := by
  cases x with
  | nil => exact absurd rfl hx
  | cons c x =>
    have hc := hword c List.mem_cons_self
    simp only [List.cons_append, grp, hc, Bool.false_eq_true, if_false]

section
variable {s : Char} (hspace : isSpace s = true) (hs : isWord s = false)
include hspace hs

theorem tokens_space (a : List Char) :
    tokens isWord isSpace (s :: a) = tokens isWord isSpace a := by
  simp only [tokens, grp, hs, hspace, Bool.false_eq_true, if_false, if_true, flush]

/-- White space may stand before a text that begins with no word. -/
theorem grp_space {a b : List Char} (hfront : (grp isWord isSpace a).1 = [])
    (h : tokens isWord isSpace a = tokens isWord isSpace b) :
    grp isWord isSpace a = grp isWord isSpace (s :: b) := by
  have ha : tokens isWord isSpace a = (grp isWord isSpace a).2 := by
    unfold tokens
    rw [hfront]
    rfl
  have hb : grp isWord isSpace (s :: b) = ([], tokens isWord isSpace b) := by
    simp only [tokens, grp, hs, hspace, Bool.false_eq_true, if_false, if_true]
  rw [hb, ← h, ha, ← hfront]

end

/-- A text that begins with no word is taken apart on its own. -/
theorem tokens_append {z : List Char} (hz : ∀ c ∈ z.head?, isWord c = false) (x : List Char) :
    tokens isWord isSpace (x ++ z) = tokens isWord isSpace x ++ tokens isWord isSpace z := by
  have hfront : grp isWord isSpace z = ([], tokens isWord isSpace z) := by
    cases z with
    | nil => rfl
    | cons c z =>
      have hc : isWord c = false := hz c rfl
      simp [tokens, grp, hc, flush]
  have hflush (w : List Char) (ts : List Token) :
      flush w (ts ++ tokens isWord isSpace z) = flush w ts ++ tokens isWord isSpace z := by
    unfold flush
    split <;> rfl
  have happend : grp isWord isSpace (x ++ z) =
      ((grp isWord isSpace x).1, (grp isWord isSpace x).2 ++ tokens isWord isSpace z) := by
    induction x with
    | nil => exact hfront
    | cons c x ih =>
      simp only [List.cons_append, grp, ih]
      split
      · rfl
      · split
        · rw [hflush]
        · rw [hflush, List.cons_append]
  rw [tokens, happend, hflush]
  rfl

theorem tokens_sym {c : Char} (hword : isWord c = false) (hspace : isSpace c = false)
    (a : List Char) : tokens isWord isSpace (c :: a) = .sym c :: tokens isWord isSpace a := by
  simp [tokens, grp, flush, hword, hspace]

theorem grp_word {w z : List Char} (hw : ∀ c ∈ w, isWord c = true)
    (hz : ∀ c ∈ z.head?, isWord c = false) :
    grp isWord isSpace (w ++ z) = (w, tokens isWord isSpace z) := by
  induction w with
  | nil =>
    cases z with
    | nil => rfl
    | cons c z => simp [tokens, grp, flush, hz c rfl]
  | cons c w ih =>
    simp only [List.cons_append, grp, ih fun c' hc' => hw c' (List.mem_cons_of_mem _ hc'),
      hw c List.mem_cons_self, if_true]

theorem tokens_word {w z : List Char} (hne : w ≠ []) (hw : ∀ c ∈ w, isWord c = true)
    (hz : ∀ c ∈ z.head?, isWord c = false) :
    tokens isWord isSpace (w ++ z) = .word w :: tokens isWord isSpace z := by
  rw [tokens, grp_word hw hz, flush, if_neg hne]

theorem mem_of_flush {c : Char} {w : List Char} {ts : List Token} (h : .sym c ∈ flush w ts) :
    .sym c ∈ ts := by
  unfold flush at h
  split at h
  · exact h
  · simpa using h

theorem mem_of_grp {c : Char} {x : List Char} (h : .sym c ∈ (grp isWord isSpace x).2) : c ∈ x := by
  induction x with
  | nil => cases h
  | cons c' x ih =>
    simp only [grp] at h
    split at h
    · exact List.mem_cons_of_mem _ (ih h)
    · split at h
      · exact List.mem_cons_of_mem _ (ih (mem_of_flush h))
      · rcases List.mem_cons.mp h with h | h
        · cases h
          exact List.mem_cons_self
        · exact List.mem_cons_of_mem _ (ih (mem_of_flush h))

theorem mem_of_sym {c : Char} {x : List Char} (h : .sym c ∈ tokens isWord isSpace x) : c ∈ x :=
  mem_of_grp (mem_of_flush h)

/-! ## 5. Parentheses -/

/-- How many parentheses are open after some tokens; none where one is closed that is not open. -/
def depth : Nat → List Token → Option Nat
  | k, [] => some k
  | k, t :: ts =>
    if t = .sym '(' then depth (k + 1) ts
    else if t = .sym ')' then if k = 0 then none else depth (k - 1) ts
    else depth k ts

theorem depth_append (k : Nat) (a b : List Token) :
    depth k (a ++ b) = (depth k a).bind (depth · b) := by
  induction a generalizing k with
  | nil => rfl
  | cons t a ih =>
    simp only [List.cons_append, depth, ih]
    split
    · rfl
    · split
      · split <;> rfl
      · rfl

end SqlText
