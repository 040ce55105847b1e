/-
# The guard of the SQL fragments

`bi/spec/sql_guard.py`: the text of an expression or of a query, before the database sees it.  A
fragment is scanned into two texts of one length, `cleaned` without the comments and `code` with
blanks in place of what stands in quotes; words are looked for in `code`, paths in `cleaned`.

* **What stands in a literal does not matter** to any test on `code`, to the scan, or to the start
  of a query (`passesTokens_iff_of_alike`); the two tests for paths do read it.  A literal `'from'` is
  refused where `'fram'` is not, so that two fragments with other literals fare alike where these
  tests, and the bound on the length, say the same of both.
* **What is returned is clean**: no comment, one statement, and the guard returns it as it is
  (`clean_of_accepted`), except that an expression which is nothing but comments is returned empty, and
  what is empty is refused.

Together they are `guard_iff`.  Which characters are in words, and which match which letter without
regard to case, is up to the tables of Unicode (`Letters`).
-/
import Apowerb.Lib.Regex
import Apowerb.Text
import Mathlib.Data.Bool.AllAny

namespace Apowerb.Bi.SqlGuard

open Text Regex

/-! ## 1. The scan -/

/-- A part of a fragment. -/
inductive Piece
  | plain (c : Char)
  | comment (raw : List Char)
  /-- a literal or an identifier in quotes, with what stands between them -/
  | quoted (q : Char) (content : List Char)
  /-- the rest of a fragment in which something is not closed, with the message -/
  | unclosed (message : String) (raw : List Char)
deriving DecidableEq

/-- What follows `/*`: the comment, and the rest after `*/`. -/
def blockEnd : List Char → Option (List Char × List Char)
  | [] => none
  | c :: cs =>
    if c = '*' ∧ cs.head? = some '/' then some ([], cs.tail)
    else (blockEnd cs).map fun x => (c :: x.1, x.2)

/-- What follows a quote: the text up to the quote that closes it, and the rest.  A doubled quote
stands for itself. -/
def quoteEnd (q : Char) : List Char → Option (List Char × List Char)
  | [] => none
  | [c] => if c = q then some ([], []) else none
  | c :: c' :: cs =>
    if c = q then
      if c' = q then (quoteEnd q cs).map fun x => (q :: q :: x.1, x.2) else some ([], c' :: cs)
    else (quoteEnd q (c' :: cs)).map fun x => (c :: x.1, x.2)

/-- The turn of the loop of `_scan` at a character, and what is left. -/
def nextPiece (c : Char) (cs : List Char) : Piece × List Char :=
  if c = '-' ∧ cs.head? = some '-' then
    (.comment (c :: cs.takeWhile (· ≠ '\n')), cs.dropWhile (· ≠ '\n'))
  else if c = '/' ∧ cs.head? = some '*' then
    match blockEnd cs.tail with
    | none => (.unclosed "Commentaire SQL non fermé." (c :: cs), [])
    | some (text, rest) => (.comment (c :: '*' :: text ++ ['*', '/']), rest)
  else if c = '\'' ∨ c = '"' then
    match quoteEnd c cs with
    | none => (.unclosed "Littéral ou identifiant SQL non fermé." (c :: cs), [])
    | some (text, rest) => (.quoted c text, rest)
  else (.plain c, cs)

/-- The loop of `_scan`: each turn takes a character at least. -/
def lexFuel : Nat → List Char → List Piece
  | _, [] => []
  | 0, _ => []
  | fuel + 1, c :: cs => (nextPiece c cs).1 :: lexFuel fuel (nextPiece c cs).2

def lex (sql : List Char) : List Piece := lexFuel sql.length sql

/-- What a part adds to `cleaned`. -/
def Piece.cleaned : Piece → List Char
  | .plain c => [c]
  | .comment _ => [' ']
  | .quoted q content => q :: content ++ [q]
  | .unclosed _ _ => []

/-- What a part adds to `code`. -/
def Piece.code : Piece → List Char
  | .plain c => [c]
  | .comment _ => [' ']
  | .quoted q content => q :: List.replicate content.length ' ' ++ [q]
  | .unclosed _ _ => []

/-- The message that a part raises. -/
def Piece.error : Piece → Option String
  | .unclosed message _ => some message
  | _ => none

def cleanedOf (ps : List Piece) : List Char := ps.flatMap Piece.cleaned

def codeOf (ps : List Piece) : List Char := ps.flatMap Piece.code

/-- `_scan`. -/
def scan (sql : List Char) : Except String (List Char × List Char) :=
  match (lex sql).findSome? Piece.error with
  | some message => .error message
  | none => .ok (cleanedOf (lex sql), codeOf (lex sql))

/-! ## 2. The patterns -/

/-- `[a-z0-9_]` -/
def identChars : List Char := "abcdefghijklmnopqrstuvwxyz0123456789_".toList

/-- `[a-z_]` -/
def nameChars : List Char := "abcdefghijklmnopqrstuvwxyz_".toList

/-- What the patterns ask of Unicode. -/
structure Letters where
  /-- `\w` -/
  isWord : Char → Bool
  /-- whether a letter of a pattern matches a character, with `re.IGNORECASE` -/
  same : Char → Char → Bool
  /-- `str.upper` -/
  upper : List Char → List Char
  word_of_same : ∀ p ∈ identChars, ∀ c, same p c = true → isWord c = true
  space_not_word : ∀ c, isSpace c = true → isWord c = false
  quote_not_word : isWord '\'' = false

section Patterns

variable (L : Letters)

/-- A text of a pattern. -/
def written (text : String) : Re Char :=
  text.toList.foldr (fun p r => .seq (.one (L.same p)) r) .empty

def anyOf (rs : List (Re Char)) : Re Char := rs.foldr .alt (.one fun _ => false)

def oneOf (texts : List String) : Re Char := anyOf (texts.map (written L))

def inClass (chars : List Char) (c : Char) : Bool := chars.any (L.same · c)

def forbiddenWords : List String :=
  ["alter", "attach", "call", "checkpoint", "copy", "create", "delete", "describe", "detach", "drop",
    "exec", "execute", "explain", "export", "glob", "import", "insert", "install", "load", "pragma",
    "prepare", "read_csv", "read_json", "read_parquet", "recursive", "set", "summarize", "truncate",
    "update", "use", "vacuum"]

/-- The group of `_WORD_RE`, which an edge is to follow. -/
def wordRe : Re Char := .seq .edge (oneOf L forbiddenWords)

/-- The group of `_FORBIDDEN_FUNCTION_RE`. -/
def functionRe : Re Char :=
  .seq .edge (anyOf [
    oneOf L ["repeat", "lpad", "rpad", "space", "range", "generate_series", "generate_subscripts",
      "list_resize", "array_resize", "repeat_row", "list_repeat", "array_repeat"],
    .seq (written L "read_") (.many (inClass L identChars)),
    .seq (.many (inClass L identChars)) (written L "_scan"),
    .seq (written L "parquet_") (.seq (.one (inClass L nameChars)) (.many (inClass L nameChars))),
    oneOf L ["sniff_csv", "glob"],
    .seq (written L "duckdb_") (.seq (.one (inClass L nameChars)) (.many (inClass L nameChars))),
    .seq (written L "pragma_") (.seq (.one (inClass L nameChars)) (.many (inClass L nameChars))),
    oneOf L ["getenv", "current_setting", "query", "query_table"],
    .seq (written L "http") (.many (inClass L nameChars)),
    oneOf L ["load_extension", "export_database", "import_database"],
    .seq (.many (inClass L nameChars)) (.seq (written L "file") (.many (inClass L nameChars)))])

/-- What is to follow the name of a function: `\s*\(`. -/
def callRe : Re Char := .seq (.many isSpace) (.one (· = '('))

/-- `_CATALOG_RE` -/
def catalogRe : Re Char :=
  .seq .edge (.alt (.seq (written L "duckdb_") (.many (inClass L identChars)))
    (.seq (written L "pragma_") (.many (inClass L identChars))))

/-- A path in quotes, or a literal: `(?:'|\"[^\"]*[./\\])`. -/
def pathRe : Re Char :=
  .alt (.one (· = '\'')) (.seq (.one (· = '"')) (.seq (.many (· ≠ '"'))
    (.one fun c => c = '.' || c = '/' || c = '\\')))

/-- `_PATH_AS_TABLE_RE` -/
def pathAsTableRe : Re Char :=
  .seq .edge (.seq (oneOf L ["from", "join"]) (.seq (.many isSpace) pathRe))

/-- `_COMMA_PATH_RE` -/
def commaPathRe : Re Char := .seq (.one (· = ',')) (.seq (.many isSpace) pathRe)

/-- `_FROM_RE` -/
def fromRe : Re Char := .seq .edge (.seq (written L "from") .edge)

/-- `_FROM_END_RE` -/
def fromEndRe : Re Char :=
  .seq .edge (.seq (oneOf L ["where", "group", "order", "having", "limit", "union", "except",
    "intersect", "qualify", "window", "offset", "on", "using"]) .edge)

/-- `_QUERY_START_RE` -/
def queryStartRe : Re Char :=
  .seq (.many isSpace) (.seq (oneOf L ["select", "with", "from"]) .edge)

/-! ## 3. Paths in the list of a FROM

The two texts are read side by side, each character of `cleaned` with that of `code`. -/

/-- Up to a parenthesis that is closed and was not opened. -/
def segment : Nat → List (Char × Char) → List (Char × Char)
  | _, [] => []
  | depth, x :: xs =>
    if x.2 = '(' then x :: segment (depth + 1) xs
    else if x.2 = ')' then
      match depth with
      | 0 => []
      | depth + 1 => x :: segment depth xs
    else x :: segment depth xs

/-- The segment, up to the word that ends the list. -/
def listed (xs : List (Char × Char)) : List (Char × Char) :=
  match firstStart L.isWord (fromEndRe L) false ((segment 0 xs).map (·.2)) with
  | some n => (segment 0 xs).take n
  | none => segment 0 xs

/-- `flat`: blanks in place of what stands in parentheses. -/
def flat : Int → List (Char × Char) → List Char
  | _, [] => []
  | depth, x :: xs =>
    let depth := if x.2 = '(' then depth + 1 else if x.2 = ')' then depth - 1 else depth
    (if depth = 0 then x.1 else ' ') :: flat depth xs

/-- Whether the list after a FROM has a path. -/
def pathListed (xs : List (Char × Char)) : Bool :=
  search L.isWord commaPathRe false (flat 0 (listed L xs))

/-- Whether a FROM stands at a place, with a path in its list. -/
def fromAt (after : Bool) (xs : List (Char × Char)) : Bool :=
  (ends L.isWord (fromRe L) (after, xs.map (·.2))).any fun e =>
    pathListed L (xs.drop (xs.length - e.2.length))

def fromAfter : Bool → List (Char × Char) → Bool
  | after, [] => fromAt L after []
  | after, x :: xs => fromAt L after (x :: xs) || fromAfter (L.isWord x.2) xs

/-- `_comma_path_in_from`. -/
def commaPathInFrom (cleaned code : List Char) : Bool := fromAfter L false (cleaned.zip code)

/-! ## 4. The checks -/

/-- `MAX_FRAGMENT_LENGTH`. -/
def maxFragmentLength : Nat := 20000

/-- Whether the parentheses are balanced, after some that are open. -/
def balanced : Nat → List Char → Bool
  | depth, [] => depth = 0
  | depth, c :: cs =>
    if c = '(' then balanced (depth + 1) cs
    else if c = ')' then
      match depth with
      | 0 => false
      | depth + 1 => balanced depth cs
    else balanced depth cs

/-- The two texts without the semicolons at the end. -/
def withoutTrailing (cleaned code : List Char) : List Char × List Char :=
  let stripped := cleaned.rdropWhile fun c => isSpace c || c = ';'
  let trimmed := (cleaned.rdropWhile isSpace).length - stripped.length
  (stripped, (code.take ((code.rdropWhile isSpace).length - trimmed)).rdropWhile isSpace)

/-- « » around what a pattern found. -/
def found (group : List Char) : String := "« " ++ String.ofList group ++ " »"

/-- The refusals of `_check`, in its order. -/
def refusals (what : String) (cleaned code : List Char) : List (Option String) :=
  [if ';' ∈ code then
      some (what ++ " : une seule instruction est permise (pas de « ; »).") else none,
    if balanced 0 code then none else some (what ++ " : parenthèses non équilibrées."),
    (firstGroup L.isWord (wordRe L) .edge false code).map fun g =>
      what ++ " : " ++ found (L.upper g) ++ " n'est pas autorisé (lecture seule).",
    (firstGroup L.isWord (functionRe L) callRe false code).map fun g =>
      what ++ " : la fonction " ++ found g ++
        " n'est pas autorisée (pas d'accès aux fichiers ni au système).",
    (firstGroup L.isWord (catalogRe L) .empty false code).map fun g =>
      what ++ " : " ++ found g ++ " n'est pas autorisé (catalogue système).",
    if search L.isWord (pathAsTableRe L) false cleaned || commaPathInFrom L cleaned code then
      some (what ++ " : lire un fichier n'est pas autorisé.") else none]

/-- `_check`. -/
def check (sql : List Char) (what : String) (allowTrailingSemicolon : Bool) :
    Except String (List Char) :=
  if stripChars sql = [] then .error (what ++ " : expression SQL vide.")
  else if maxFragmentLength < sql.length then
    .error (what ++ " : expression SQL trop longue (max " ++ toString maxFragmentLength ++
      " caractères).")
  else
    match scan sql with
    | .error message => .error (what ++ " : " ++ message)
    | .ok texts =>
      let texts := if allowTrailingSemicolon then withoutTrailing texts.1 texts.2 else texts
      match (refusals L what texts.1 texts.2).findSome? id with
      | some message => .error message
      | none => .ok (stripChars texts.1)

/-- `check_expression`. -/
def checkExpression (expr : List Char) (what : String) : Except String (List Char) :=
  check L expr what false

/-- `check_query`. -/
def checkQuery (query : List Char) (what : String) : Except String (List Char) :=
  match check L query what true with
  | .error message => .error message
  | .ok cleaned =>
    if matchesAt L.isWord (queryStartRe L) (false, cleaned) then .ok cleaned
    else .error (what ++ " : seules les requêtes SELECT sont permises.")

end Patterns

/-! ## 5. A fragment and its parts -/

/-- A part as it is written. -/
def Piece.raw : Piece → List Char
  | .plain c => [c]
  | .comment raw => raw
  | .quoted q content => q :: content ++ [q]
  | .unclosed _ raw => raw

theorem eq_of_blockEnd {cs text rest : List Char} (h : blockEnd cs = some (text, rest)) :
    cs = text ++ '*' :: '/' :: rest := by
  induction cs generalizing text with
  | nil => cases h
  | cons c cs ih =>
    rw [blockEnd] at h
    split at h
    · rename_i hend
      cases h
      obtain ⟨rfl, hslash⟩ := hend
      cases cs with
      | nil => cases hslash
      | cons d ds =>
        cases hslash
        rfl
    · obtain ⟨⟨text', rest'⟩, hrest, heq⟩ := Option.map_eq_some_iff.mp h
      cases heq
      rw [ih hrest]
      rfl

/-- What stands between quotes: where the closing quote is not doubled, the text ends there. -/
def Content (q : Char) (content : List Char) : Prop :=
  ∀ rest : List Char, rest.head? ≠ some q →
    quoteEnd q (content ++ q :: rest) = some (content, rest)

theorem content_nil (q : Char) : Content q [] := by
  intro rest hrest
  cases rest with
  | nil => simp [quoteEnd]
  | cons c cs =>
    have hc : c ≠ q := fun h => hrest (congrArg some h)
    simp [quoteEnd, hc]

theorem Content.cons {q c : Char} {content : List Char} (h : Content q content) (hc : c ≠ q) :
    Content q (c :: content) := by
  intro rest hrest
  have hmore := h rest hrest
  cases hcontent : content ++ q :: rest with
  | nil => simp at hcontent
  | cons d ds =>
    rw [hcontent] at hmore
    rw [List.cons_append, hcontent, quoteEnd, if_neg hc, hmore]
    rfl

theorem Content.doubled {q : Char} {content : List Char} (h : Content q content) :
    Content q (q :: q :: content) := by
  intro rest hrest
  rw [List.cons_append, List.cons_append, quoteEnd, if_pos rfl, if_pos rfl, h rest hrest]
  rfl

theorem eq_of_quoteEnd {q : Char} {cs content rest : List Char}
    (h : quoteEnd q cs = some (content, rest)) :
    cs = content ++ q :: rest ∧ rest.head? ≠ some q ∧ Content q content := by
  induction cs using quoteEnd.induct q generalizing content rest with
  | case1 => cases h
  | case2 =>
    rw [quoteEnd, if_pos rfl] at h
    cases h
    exact ⟨rfl, by simp, content_nil q⟩
  | case3 c hc =>
    rw [quoteEnd, if_neg hc] at h
    cases h
  | case4 cs ih =>
    rw [quoteEnd, if_pos rfl, if_pos rfl] at h
    obtain ⟨⟨content', rest'⟩, hrest, heq⟩ := Option.map_eq_some_iff.mp h
    cases heq
    obtain ⟨rfl, hhead, hcontent⟩ := ih hrest
    exact ⟨rfl, hhead, hcontent.doubled⟩
  | case5 c' cs hc' =>
    rw [quoteEnd, if_pos rfl, if_neg hc'] at h
    cases h
    exact ⟨rfl, fun heq => hc' (Option.some.inj heq), content_nil q⟩
  | case6 c c' cs hc ih =>
    rw [quoteEnd, if_neg hc] at h
    obtain ⟨⟨content', rest'⟩, hrest, heq⟩ := Option.map_eq_some_iff.mp h
    cases heq
    obtain ⟨hcs, hhead, hcontent⟩ := ih hrest
    exact ⟨by rw [hcs]; rfl, hhead, hcontent.cons hc⟩

/-- A character of its own. -/
structure Plain (c : Char) (next : Option Char) : Prop where
  single : c ≠ '\''
  double : c ≠ '"'
  dashes : ¬ (c = '-' ∧ next = some '-')
  slash : ¬ (c = '/' ∧ next = some '*')

/-- Something in quotes. -/
structure Quoted (q : Char) (content : List Char) (next : Option Char) : Prop where
  quote : q = '\'' ∨ q = '"'
  content : Content q content
  next : next ≠ some q

/-- What a turn may find. -/
inductive Turn (c : Char) (cs : List Char) : Piece × List Char → Prop
  | comment {raw rest : List Char} (hc : c = '-' ∨ c = '/') (hcs : cs = raw ++ rest) :
    Turn c cs (.comment (c :: raw), rest)
  | unclosed (message : String) : Turn c cs (.unclosed message (c :: cs), [])
  | quoted {content rest : List Char} (hquoted : Quoted c content rest.head?)
    (hcs : cs = content ++ c :: rest) : Turn c cs (.quoted c content, rest)
  | plain (hplain : Plain c cs.head?) : Turn c cs (.plain c, cs)

theorem turn_nextPiece (c : Char) (cs : List Char) : Turn c cs (nextPiece c cs) := by
  unfold nextPiece
  split
  · rename_i hdash
    exact .comment (.inl hdash.1) List.takeWhile_append_dropWhile.symm
  · rename_i hdash
    split
    · rename_i hblock
      obtain ⟨rfl, hstar⟩ := hblock
      split
      · exact .unclosed _
      · rename_i text rest hend
        obtain ⟨d, ds, rfl⟩ : ∃ d ds, cs = d :: ds := by
          cases cs with
          | nil => cases hstar
          | cons d ds => exact ⟨d, ds, rfl⟩
        cases hstar
        have hds : ds = text ++ '*' :: '/' :: rest := eq_of_blockEnd hend
        have hcs : '*' :: ds = ('*' :: text ++ ['*', '/']) ++ rest := by simp [hds]
        exact .comment (.inr rfl) hcs
    · rename_i hblock
      split
      · rename_i hquote
        split
        · exact .unclosed _
        · rename_i content rest hend
          obtain ⟨hcs, hne, hcontent⟩ := eq_of_quoteEnd hend
          exact .quoted ⟨hquote, hcontent, hne⟩ hcs
      · rename_i hquote
        obtain ⟨hsingle, hdouble⟩ := not_or.mp hquote
        exact .plain ⟨hsingle, hdouble, hdash, hblock⟩

/-- Nothing is lost in a turn. -/
theorem raw_nextPiece (c : Char) (cs : List Char) :
    (nextPiece c cs).1.raw ++ (nextPiece c cs).2 = c :: cs := by
  have hturn := turn_nextPiece c cs
  generalize nextPiece c cs = next at hturn ⊢
  cases hturn with
  | comment hc hcs => simp [Piece.raw, hcs]
  | unclosed message => simp [Piece.raw]
  | quoted hquoted hcs => simp [Piece.raw, hcs]
  | plain hplain => rfl

theorem raw_ne_nil (c : Char) (cs : List Char) : (nextPiece c cs).1.raw ≠ [] := by
  have hturn := turn_nextPiece c cs
  generalize nextPiece c cs = next at hturn ⊢
  cases hturn <;> exact List.cons_ne_nil _ _

theorem length_nextPiece (c : Char) (cs : List Char) : (nextPiece c cs).2.length ≤ cs.length := by
  have h := congrArg List.length (raw_nextPiece c cs)
  have hpos := List.length_pos_iff.mpr (raw_ne_nil c cs)
  rw [List.length_append, List.length_cons] at h
  omega

theorem lexFuel_eq {fuel : Nat} {cs : List Char} (h : cs.length ≤ fuel) :
    lexFuel fuel cs = lex cs := by
  induction fuel using Nat.strong_induction_on generalizing cs with
  | _ fuel ih =>
    cases cs with
    | nil => cases fuel <;> rfl
    | cons c cs =>
      have hrest := length_nextPiece c cs
      cases fuel with
      | zero => cases h
      | succ fuel =>
        have hfuel : cs.length ≤ fuel := Nat.le_of_succ_le_succ h
        rw [lex, List.length_cons, lexFuel, lexFuel, ih fuel (Nat.lt_succ_self _) (hrest.trans hfuel)]
        congr 1
        rcases Nat.eq_or_lt_of_le hfuel with heq | hlt
        · rw [heq, ih fuel (Nat.lt_succ_self _) (heq ▸ hrest)]
        · exact (ih cs.length (hlt.trans (Nat.lt_succ_self _)) hrest).symm

theorem lex_cons (c : Char) (cs : List Char) :
    lex (c :: cs) = (nextPiece c cs).1 :: lex (nextPiece c cs).2 := by
  rw [lex, List.length_cons, lexFuel, lexFuel_eq (length_nextPiece c cs)]

/-- The parts in order are the fragment. -/
theorem raw_lex (cs : List Char) : (lex cs).flatMap Piece.raw = cs := by
  induction hn : cs.length using Nat.strong_induction_on generalizing cs with
  | _ n ih =>
    cases cs with
    | nil => rfl
    | cons c cs =>
      have hlt : (nextPiece c cs).2.length < n := by
        rw [← hn]
        exact Nat.lt_succ_of_le (length_nextPiece c cs)
      rw [lex_cons, List.flatMap_cons, ih _ hlt _ rfl, raw_nextPiece]

/-! ## 6. The text without comments, scanned again -/

/-- A comment is a blank. -/
def Piece.bare : Piece → Piece
  | .comment _ => .plain ' '
  | p => p

@[simp] theorem cleaned_bare (p : Piece) : p.bare.cleaned = p.cleaned := by cases p <;> rfl

@[simp] theorem code_bare (p : Piece) : p.bare.code = p.code := by cases p <;> rfl

/-- The parts of a fragment, without its comments. -/
def bareLex (sql : List Char) : List Piece := (lex sql).map Piece.bare

theorem cleanedOf_bareLex (sql : List Char) : cleanedOf (bareLex sql) = cleanedOf (lex sql) := by
  simp [cleanedOf, bareLex, List.flatMap_map]

theorem codeOf_bareLex (sql : List Char) : codeOf (bareLex sql) = codeOf (lex sql) := by
  simp [codeOf, bareLex, List.flatMap_map]

@[simp] theorem cleanedOf_cons (p : Piece) (ps : List Piece) :
    cleanedOf (p :: ps) = p.cleaned ++ cleanedOf ps := rfl

@[simp] theorem codeOf_cons (p : Piece) (ps : List Piece) :
    codeOf (p :: ps) = p.code ++ codeOf ps := rfl

@[simp] theorem cleanedOf_append (ps ps' : List Piece) :
    cleanedOf (ps ++ ps') = cleanedOf ps ++ cleanedOf ps' := List.flatMap_append

@[simp] theorem codeOf_append (ps ps' : List Piece) :
    codeOf (ps ++ ps') = codeOf ps ++ codeOf ps' := List.flatMap_append

/-- Parts that a scan of their text finds again: none of them goes on with the next one. -/
def Fits : List Piece → Prop
  | [] => True
  | .plain c :: ps => Plain c (cleanedOf ps).head? ∧ Fits ps
  | .quoted q content :: ps => Quoted q content (cleanedOf ps).head? ∧ Fits ps
  | .comment _ :: _ | .unclosed _ _ :: _ => False

theorem nextPiece_plain {c : Char} {cs : List Char} (h : Plain c cs.head?) :
    nextPiece c cs = (.plain c, cs) := by
  rw [nextPiece, if_neg h.dashes, if_neg h.slash, if_neg (not_or.mpr ⟨h.single, h.double⟩)]

theorem nextPiece_quoted {q : Char} {content cs : List Char} (h : Quoted q content cs.head?) :
    nextPiece q (content ++ q :: cs) = (.quoted q content, cs) := by
  have hdash : q ≠ '-' := by
    rintro rfl
    exact absurd h.quote (by decide)
  have hslash : q ≠ '/' := by
    rintro rfl
    exact absurd h.quote (by decide)
  rw [nextPiece, if_neg fun hq => hdash hq.1, if_neg fun hq => hslash hq.1, if_pos h.quote,
    h.content cs h.next]

/-- **A text without comments is taken apart as it was put together.** -/
theorem lex_cleanedOf {ps : List Piece} (h : Fits ps) : lex (cleanedOf ps) = ps := by
  induction ps with
  | nil => rfl
  | cons p ps ih =>
    cases p with
    | plain c =>
      rw [show cleanedOf (.plain c :: ps) = c :: cleanedOf ps from rfl, lex_cons,
        nextPiece_plain h.1, ih h.2]
    | quoted q content =>
      have htext : cleanedOf (.quoted q content :: ps) = q :: (content ++ q :: cleanedOf ps) := by
        simp [Piece.cleaned]
      rw [htext, lex_cons, nextPiece_quoted h.1, ih h.2]
    | comment raw => cases h
    | unclosed message raw => cases h

/-- All is closed. -/
def Closed (sql : List Char) : Prop := ∀ p ∈ lex sql, p.error = none

/-- What a fragment begins with, a comment being a blank. -/
theorem head_cleanedOf {cs : List Char} (h : Closed cs) :
    (cleanedOf (lex cs)).head? = cs.head? ∨ (cleanedOf (lex cs)).head? = some ' ' := by
  cases cs with
  | nil => exact .inl rfl
  | cons c cs =>
    have herror := h (nextPiece c cs).1 (by rw [lex_cons]; exact List.mem_cons_self)
    have hturn := turn_nextPiece c cs
    rw [lex_cons, cleanedOf_cons]
    generalize nextPiece c cs = next at herror hturn ⊢
    cases hturn with
    | comment hc hcs => exact .inr rfl
    | unclosed message => cases herror
    | quoted hquoted hcs => exact .inl rfl
    | plain hplain => exact .inl rfl

theorem closed_tail {c : Char} {cs : List Char} (h : Closed (c :: cs)) :
    Closed (nextPiece c cs).2 := by
  intro p hp
  refine h p ?_
  rw [lex_cons]
  exact List.mem_cons_of_mem _ hp

theorem bareLex_cons (c : Char) (cs : List Char) :
    bareLex (c :: cs) = (nextPiece c cs).1.bare :: bareLex (nextPiece c cs).2 := by
  rw [bareLex, lex_cons]
  rfl

theorem plain_blank (next : Option Char) : Plain ' ' next :=
  ⟨by decide, by decide, fun h => absurd h.1 (by decide), fun h => absurd h.1 (by decide)⟩

/-- What a scan finds fits. -/
theorem fits_bareLex {cs : List Char} (h : Closed cs) : Fits (bareLex cs) := by
  induction hn : cs.length using Nat.strong_induction_on generalizing cs with
  | _ n ih =>
    cases cs with
    | nil => trivial
    | cons c cs =>
      have hlt : (nextPiece c cs).2.length < n := by
        rw [← hn]
        exact Nat.lt_succ_of_le (length_nextPiece c cs)
      have htail := ih _ hlt (closed_tail h) rfl
      have hhead := head_cleanedOf (closed_tail h)
      rw [← cleanedOf_bareLex] at hhead
      have herror := h (nextPiece c cs).1 (by rw [lex_cons]; exact List.mem_cons_self)
      have hturn := turn_nextPiece c cs
      rw [bareLex_cons]
      generalize nextPiece c cs = next at hhead htail herror hturn ⊢
      cases hturn with
      | comment hc hcs => exact ⟨plain_blank _, htail⟩
      | unclosed message => cases herror
      | quoted hquoted hcs =>
        refine ⟨{ hquoted with next := fun hsame => ?_ }, htail⟩
        rcases hhead with hhead | hhead
        · exact hquoted.next (hhead.symm.trans hsame)
        · have hblank : ' ' = c := Option.some.inj (hhead.symm.trans hsame)
          subst hblank
          exact absurd hquoted.quote (by decide)
      | plain hplain =>
        refine ⟨{ hplain with
          dashes := fun hboth => ?_
          slash := fun hboth => ?_ }, htail⟩
        · rcases hhead with hhead | hhead
          · exact hplain.dashes ⟨hboth.1, hhead.symm.trans hboth.2⟩
          · exact absurd (hhead.symm.trans hboth.2) (by decide)
        · rcases hhead with hhead | hhead
          · exact hplain.slash ⟨hboth.1, hhead.symm.trans hboth.2⟩
          · exact absurd (hhead.symm.trans hboth.2) (by decide)

/-! ## 7. What is cut off at the ends -/

/-- A character of its own of a class. -/
def Piece.isPlain (f : Char → Bool) : Piece → Bool
  | .plain c => f c
  | _ => false

/-- The class holds no quotes. -/
def QuoteFree (f : Char → Bool) : Prop := f '\'' = false ∧ f '"' = false

/-- What a part adds to one of the two texts ends with a character of a class only where it is that
character. -/
theorem ends_piece {f : Char → Bool} (hf : QuoteFree f) (text : Piece → List Char)
    (hplain : ∀ c, text (.plain c) = [c])
    (hquoted : ∀ q content, ∃ u, text (.quoted q content) = q :: u ++ [q]) {ps : List Piece}
    (h : Fits ps) : ∀ p ∈ ps, if p.isPlain f then ∃ c, text p = [c] ∧ f c = true
      else (∃ u c, text p = u ++ [c] ∧ f c = false) ∧ ∃ c u, text p = c :: u ∧ f c = false := by
  induction ps with
  | nil => exact fun p hp => absurd hp List.not_mem_nil
  | cons p ps ih =>
    refine List.forall_mem_cons.mpr ?_
    cases p with
    | plain c =>
      refine ⟨?_, ih h.2⟩
      rw [hplain]
      cases hc : f c with
      | true => simp [Piece.isPlain, hc]
      | false => simpa [Piece.isPlain, hc] using ⟨[], c, rfl, hc⟩
    | quoted q content =>
      refine ⟨?_, ih h.2⟩
      obtain ⟨u, hu⟩ := hquoted q content
      have hq : f q = false := by
        rcases h.1.quote with rfl | rfl
        · exact hf.1
        · exact hf.2
      exact ⟨⟨q :: u, q, hu, hq⟩, q, u ++ [q], hu, hq⟩
    | comment raw => cases h
    | unclosed message raw => cases h

theorem rdropWhile_flatMap {β : Type} {text : β → List Char} {f : Char → Bool} {g : β → Bool}
    {ps : List β} (h : ∀ p ∈ ps, if g p then ∃ c, text p = [c] ∧ f c = true
      else (∃ u c, text p = u ++ [c] ∧ f c = false) ∧ ∃ c u, text p = c :: u ∧ f c = false) :
    (ps.flatMap text).rdropWhile f = (ps.rdropWhile g).flatMap text := by
  induction ps using List.reverseRecOn with
  | nil => rfl
  | append_singleton ps p ih =>
    have hp := h p (List.mem_append_right _ List.mem_cons_self)
    rw [List.flatMap_append, List.flatMap_singleton, List.rdropWhile_concat]
    split at hp
    · rename_i hg
      obtain ⟨c, hc, hf⟩ := hp
      rw [if_pos hg, hc, List.rdropWhile_concat, if_pos hf,
        ih fun p' hp' => h p' (List.mem_append_left _ hp')]
    · rename_i hg
      obtain ⟨⟨u, c, hc, hf⟩, -⟩ := hp
      rw [if_neg hg, hc, ← List.append_assoc, List.rdropWhile_concat, if_neg (by simp [hf]),
        List.flatMap_append, List.flatMap_singleton, hc, List.append_assoc]

theorem dropWhile_flatMap {β : Type} {text : β → List Char} {f : Char → Bool} {g : β → Bool}
    {ps : List β} (h : ∀ p ∈ ps, if g p then ∃ c, text p = [c] ∧ f c = true
      else (∃ u c, text p = u ++ [c] ∧ f c = false) ∧ ∃ c u, text p = c :: u ∧ f c = false) :
    (ps.flatMap text).dropWhile f = (ps.dropWhile g).flatMap text := by
  induction ps with
  | nil => rfl
  | cons p ps ih =>
    have hp := h p List.mem_cons_self
    rw [List.flatMap_cons, List.dropWhile_cons]
    split at hp
    · rename_i hg
      obtain ⟨c, hc, hf⟩ := hp
      rw [if_pos hg, hc, List.singleton_append, List.dropWhile_cons, if_pos hf,
        ih fun p' hp' => h p' (List.mem_cons_of_mem p hp')]
    · rename_i hg
      obtain ⟨-, c, u, hc, hf⟩ := hp
      rw [if_neg hg, hc, List.cons_append, List.dropWhile_cons, if_neg (by simp [hf]),
        List.flatMap_cons, hc, List.cons_append]

theorem cleaned_rdropWhile {f : Char → Bool} (hf : QuoteFree f) {ps : List Piece} (h : Fits ps) :
    (cleanedOf ps).rdropWhile f = cleanedOf (ps.rdropWhile (·.isPlain f)) :=
  rdropWhile_flatMap (ends_piece hf _ (fun _ => rfl) (fun _ content => ⟨content, rfl⟩) h)

theorem code_rdropWhile {f : Char → Bool} (hf : QuoteFree f) {ps : List Piece} (h : Fits ps) :
    (codeOf ps).rdropWhile f = codeOf (ps.rdropWhile (·.isPlain f)) :=
  rdropWhile_flatMap (ends_piece hf _ (fun _ => rfl)
    (fun _ content => ⟨List.replicate content.length ' ', rfl⟩) h)

theorem cleaned_dropWhile {f : Char → Bool} (hf : QuoteFree f) {ps : List Piece} (h : Fits ps) :
    (cleanedOf ps).dropWhile f = cleanedOf (ps.dropWhile (·.isPlain f)) :=
  dropWhile_flatMap (ends_piece hf _ (fun _ => rfl) (fun _ content => ⟨content, rfl⟩) h)

theorem length_codeOf (ps : List Piece) : (codeOf ps).length = (cleanedOf ps).length := by
  induction ps with
  | nil => rfl
  | cons p ps ih =>
    rw [codeOf_cons, cleanedOf_cons, List.length_append, List.length_append, ih]
    cases p <;> simp [Piece.code, Piece.cleaned]

theorem Fits.suffix {ps ps' : List Piece} (h : Fits (ps ++ ps')) : Fits ps' := by
  induction ps with
  | nil => exact h
  | cons p ps ih =>
    cases p with
    | plain c => exact ih h.2
    | quoted q content => exact ih h.2
    | comment raw => cases h
    | unclosed message raw => cases h

/-- Nothing at all comes after the last part. -/
theorem head_append (ps ps' : List Piece) :
    (cleanedOf ps).head? = (cleanedOf (ps ++ ps')).head? ∨ (cleanedOf ps).head? = none := by
  rw [cleanedOf_append]
  cases cleanedOf ps with
  | nil => exact .inr rfl
  | cons c cs => exact .inl rfl

theorem Fits.take {ps ps' : List Piece} (h : Fits (ps ++ ps')) : Fits ps := by
  induction ps with
  | nil => trivial
  | cons p ps ih =>
    have hhead := head_append ps ps'
    cases p with
    | plain c =>
      refine ⟨?_, ih h.2⟩
      rcases hhead with hhead | hhead
      · rw [hhead]
        exact h.1
      · rw [hhead]
        exact ⟨h.1.single, h.1.double, by simp, by simp⟩
    | quoted q content =>
      refine ⟨?_, ih h.2⟩
      rcases hhead with hhead | hhead
      · rw [hhead]
        exact h.1
      · rw [hhead]
        exact ⟨h.1.quote, h.1.content, by simp⟩
    | comment raw => cases h
    | unclosed message raw => cases h

theorem quoteFree_space : QuoteFree isSpace := ⟨by decide, by decide⟩

/-- White space and semicolons. -/
def isTrailing (c : Char) : Bool := isSpace c || c = ';'

theorem quoteFree_trailing : QuoteFree isTrailing := ⟨by decide, by decide⟩

/-- The parts without those at the end that are of a class. -/
theorem rdropWhile_append (g : Piece → Bool) (ps : List Piece) :
    ∃ t, ps = ps.rdropWhile g ++ t ∧ ∀ p ∈ t, g p = true := by
  exact ⟨ps.rtakeWhile g, List.rdropWhile_append_rtakeWhile.symm,
    fun p hp => List.mem_rtakeWhile_imp hp⟩

theorem Fits.rdropWhile {ps : List Piece} (h : Fits ps) (g : Piece → Bool) :
    Fits (ps.rdropWhile g) := by
  obtain ⟨t, ht, -⟩ := rdropWhile_append g ps
  rw [ht] at h
  exact h.take

theorem Fits.dropWhile {ps : List Piece} (h : Fits ps) (g : Piece → Bool) :
    Fits (ps.dropWhile g) := by
  rw [← List.takeWhile_append_dropWhile (p := g) (l := ps)] at h
  exact h.suffix

theorem rdropWhile_rdropWhile {β : Type} {g g' : β → Bool} (h : ∀ p, g p = true → g' p = true)
    (ps : List β) : (ps.rdropWhile g).rdropWhile g' = ps.rdropWhile g' := by
  conv_rhs => rw [← List.rdropWhile_append_rtakeWhile (p := g) (l := ps)]
  simp only [List.rdropWhile, List.rtakeWhile, List.reverse_append, List.reverse_reverse]
  rw [List.dropWhile_append_of_pos fun p hp => h p (List.mem_takeWhile_imp hp)]

/-- What ends with nothing of a class ends with nothing of a smaller one. -/
theorem rdropWhile_eq_self {β : Type} {g g' : β → Bool} (h : ∀ p, g p = true → g' p = true)
    {ps : List β} (hps : ps.rdropWhile g' = ps) : ps.rdropWhile g = ps := by
  rw [List.rdropWhile_eq_self_iff] at hps ⊢
  exact fun hne hlast => hps hne (h _ hlast)

theorem trailing_of_space (c : Char) (h : isSpace c = true) : isTrailing c = true := by
  simp [isTrailing, h]

theorem isPlain_trailing (p : Piece) (h : p.isPlain isSpace = true) :
    p.isPlain isTrailing = true := by
  cases p with
  | plain c => exact trailing_of_space c h
  | _ => cases h

/-- **The semicolons at the end are cut off both texts alike.** -/
theorem withoutTrailing_eq {ps : List Piece} (h : Fits ps) :
    withoutTrailing (cleanedOf ps) (codeOf ps) =
      (cleanedOf (ps.rdropWhile (·.isPlain isTrailing)),
        codeOf (ps.rdropWhile (·.isPlain isTrailing))) := by
  have hstripped : (cleanedOf ps).rdropWhile (fun c => isSpace c || c = ';') =
      cleanedOf (ps.rdropWhile (·.isPlain isTrailing)) := cleaned_rdropWhile quoteFree_trailing h
  obtain ⟨t, ht, -⟩ := rdropWhile_append (·.isPlain isTrailing) ps
  have hcore := h.rdropWhile (·.isPlain isTrailing)
  have hend : (ps.rdropWhile (·.isPlain isTrailing)).rdropWhile (·.isPlain isSpace) =
      ps.rdropWhile (·.isPlain isTrailing) :=
    rdropWhile_eq_self isPlain_trailing (List.rdropWhile_idempotent _ _)
  have hle : (cleanedOf (ps.rdropWhile (·.isPlain isTrailing))).length ≤
      (cleanedOf (ps.rdropWhile (·.isPlain isSpace))).length := by
    obtain ⟨t', ht', -⟩ :=
      rdropWhile_append (·.isPlain isTrailing) (ps.rdropWhile (·.isPlain isSpace))
    rw [rdropWhile_rdropWhile isPlain_trailing] at ht'
    rw [ht', cleanedOf_append, List.length_append]
    exact Nat.le_add_right _ _
  have htake : (codeOf ps).take (cleanedOf (ps.rdropWhile (·.isPlain isTrailing))).length =
      codeOf (ps.rdropWhile (·.isPlain isTrailing)) := by
    have hcode : codeOf ps = codeOf (ps.rdropWhile (·.isPlain isTrailing)) ++ codeOf t := by
      rw [← codeOf_append, ← ht]
    rw [hcode, ← length_codeOf, List.take_left]
  rw [withoutTrailing, hstripped, cleaned_rdropWhile quoteFree_space h,
    code_rdropWhile quoteFree_space h, length_codeOf, Nat.sub_sub_self hle, htake,
    code_rdropWhile quoteFree_space hcore, hend]

/-- `strip`, on the parts. -/
def trim (ps : List Piece) : List Piece :=
  (ps.dropWhile (·.isPlain isSpace)).rdropWhile (·.isPlain isSpace)

theorem stripChars_cleanedOf {ps : List Piece} (h : Fits ps) :
    stripChars (cleanedOf ps) = cleanedOf (trim ps) := by
  rw [stripChars, cleaned_dropWhile quoteFree_space h,
    cleaned_rdropWhile quoteFree_space (h.dropWhile _), trim]

theorem Fits.trim {ps : List Piece} (h : Fits ps) : Fits (trim ps) := (h.dropWhile _).rdropWhile _

/-- What is cut off at both ends is white space. -/
theorem append_trim_append (ps : List Piece) :
    ∃ w t, ps = w ++ trim ps ++ t ∧ (∀ p ∈ w, p.isPlain isSpace = true) ∧
      ∀ p ∈ t, p.isPlain isSpace = true := by
  obtain ⟨t, ht, hall⟩ := rdropWhile_append (·.isPlain isSpace) (ps.dropWhile (·.isPlain isSpace))
  refine ⟨ps.takeWhile (·.isPlain isSpace), t, ?_, fun p hp => List.mem_takeWhile_imp hp, hall⟩
  rw [List.append_assoc, trim, ← ht, List.takeWhile_append_dropWhile]

/-! ## 8. What is accepted -/

inductive Kind
  | expression | query
deriving DecidableEq

section Accepted

variable (L : Letters) (kind : Kind) (sql : List Char)

/-- `check_expression` and `check_query`. -/
def guard (what : String) : Except String (List Char) :=
  match kind with
  | .expression => checkExpression L sql what
  | .query => checkQuery L sql what

/-- The two texts that are looked at. -/
def texts : List Char × List Char :=
  match kind with
  | .expression => (cleanedOf (lex sql), codeOf (lex sql))
  | .query => withoutTrailing (cleanedOf (lex sql)) (codeOf (lex sql))

/-- The tests that look at `code`, or at the start of what is returned. -/
structure PassesTokens : Prop where
  given : stripChars sql ≠ []
  closed : Closed sql
  statement : ';' ∉ (texts kind sql).2
  parentheses : balanced 0 (texts kind sql).2 = true
  words : search L.isWord (.seq (wordRe L) .edge) false (texts kind sql).2 = false
  functions : search L.isWord (.seq (functionRe L) callRe) false (texts kind sql).2 = false
  catalog : search L.isWord (.seq (catalogRe L) .empty) false (texts kind sql).2 = false
  start : kind = .query →
    matchesAt L.isWord (queryStartRe L) (false, stripChars (texts kind sql).1) = true

/-- The tests that see what stands in the literals: the length, and those for paths. -/
structure PassesContents : Prop where
  length : sql.length ≤ maxFragmentLength
  table : search L.isWord (pathAsTableRe L) false (texts kind sql).1 = false
  list : commaPathInFrom L (texts kind sql).1 (texts kind sql).2 = false

def Accepted (what : String) : Prop := ∃ r, guard L kind sql what = .ok r

end Accepted

variable {L : Letters} {kind : Kind} {sql : List Char} {what : String}

theorem scan_of_closed (h : Closed sql) : scan sql = .ok (cleanedOf (lex sql), codeOf (lex sql)) := by
  have hnone : (lex sql).findSome? Piece.error = none := List.findSome?_eq_none_iff.mpr h
  rw [scan, hnone]

theorem closed_of_scan {texts : List Char × List Char} (h : scan sql = .ok texts) :
    Closed sql := by
  unfold scan at h
  split at h
  · cases h
  · rename_i hnone
    exact List.findSome?_eq_none_iff.mp hnone

/-- Nothing is refused. -/
theorem refusals_none_iff {cleaned code : List Char} :
    (refusals L what cleaned code).findSome? id = none ↔
      ';' ∉ code ∧ balanced 0 code = true ∧
      search L.isWord (.seq (wordRe L) .edge) false code = false ∧
      search L.isWord (.seq (functionRe L) callRe) false code = false ∧
      search L.isWord (.seq (catalogRe L) .empty) false code = false ∧
      search L.isWord (pathAsTableRe L) false cleaned = false ∧
      commaPathInFrom L cleaned code = false := by
  simp only [refusals, List.findSome?_eq_none_iff, List.forall_mem_cons, id_eq,
    Option.map_eq_none_iff, firstGroup_eq_none_iff, List.not_mem_nil, false_implies,
    implies_true, and_true]
  simp

theorem check_eq_ok_iff {allow : Bool} {r : List Char} :
    check L sql what allow = .ok r ↔
      stripChars sql ≠ [] ∧ sql.length ≤ maxFragmentLength ∧ Closed sql ∧
      ∃ texts, texts = (if allow then withoutTrailing (cleanedOf (lex sql)) (codeOf (lex sql))
          else (cleanedOf (lex sql), codeOf (lex sql))) ∧
        (refusals L what texts.1 texts.2).findSome? id = none ∧ r = stripChars texts.1 := by
  unfold check
  by_cases hgiven : stripChars sql = []
  · simp [hgiven]
  · rw [if_neg hgiven]
    by_cases hlength : maxFragmentLength < sql.length
    · rw [if_pos hlength]
      constructor
      · exact nofun
      · rintro ⟨-, hle, -⟩
        exact absurd hlength (Nat.not_lt.mpr hle)
    · rw [if_neg hlength]
      by_cases hclosed : Closed sql
      · rw [scan_of_closed hclosed]
        dsimp only
        generalize (if allow = true then _ else _ : List Char × List Char) = texts
        cases hrefused : (refusals L what texts.1 texts.2).findSome? id with
        | some message =>
          constructor
          · exact nofun
          · rintro ⟨-, -, -, texts', rfl, hnone, -⟩
            rw [hrefused] at hnone
            cases hnone
        | none =>
          constructor
          · intro h
            exact ⟨hgiven, Nat.not_lt.mp hlength, hclosed, texts, rfl, hrefused,
              (Except.ok.inj h).symm⟩
          · rintro ⟨-, -, -, texts', rfl, -, rfl⟩
            rfl
      · constructor
        · intro h
          split at h
          · cases h
          · rename_i hscan
            exact absurd (closed_of_scan hscan) hclosed
        · rintro ⟨-, -, h, -⟩
          exact absurd h hclosed

/-- **What the guard accepts**, and what it returns. -/
theorem guard_eq_ok_iff {r : List Char} :
    guard L kind sql what = .ok r ↔
      PassesTokens L kind sql ∧ PassesContents L kind sql ∧ r = stripChars (texts kind sql).1 := by
  cases kind with
  | expression =>
    rw [guard, checkExpression, check_eq_ok_iff]
    constructor
    · rintro ⟨hgiven, hlength, hclosed, -, rfl, hnone, rfl⟩
      obtain ⟨hone, hparens, hwords, hfunctions, hcatalog, htable, hlist⟩ :=
        refusals_none_iff.mp hnone
      exact ⟨⟨hgiven, hclosed, hone, hparens, hwords, hfunctions, hcatalog, nofun⟩,
        ⟨hlength, htable, hlist⟩, rfl⟩
    · rintro ⟨h, hc, rfl⟩
      exact ⟨h.given, hc.length, h.closed, _, rfl, refusals_none_iff.mpr ⟨h.statement,
        h.parentheses, h.words, h.functions, h.catalog, hc.table, hc.list⟩, rfl⟩
  | query =>
    rw [guard, checkQuery]
    constructor
    · intro h
      split at h
      · cases h
      · rename_i cleaned hcheck
        split at h
        · rename_i hstart
          cases h
          obtain ⟨hgiven, hlength, hclosed, -, rfl, hnone, rfl⟩ := check_eq_ok_iff.mp hcheck
          obtain ⟨hone, hparens, hwords, hfunctions, hcatalog, htable, hlist⟩ :=
            refusals_none_iff.mp hnone
          exact ⟨⟨hgiven, hclosed, hone, hparens, hwords, hfunctions, hcatalog,
            fun _ => hstart⟩, ⟨hlength, htable, hlist⟩, rfl⟩
        · cases h
    · rintro ⟨h, hc, rfl⟩
      have hcheck : check L sql what true = .ok (stripChars (texts .query sql).1) :=
        check_eq_ok_iff.mpr ⟨h.given, hc.length, h.closed, _, rfl, refusals_none_iff.mpr
          ⟨h.statement, h.parentheses, h.words, h.functions, h.catalog, hc.table, hc.list⟩, rfl⟩
      rw [hcheck]
      exact if_pos (h.start rfl)

theorem accepted_iff :
    Accepted L kind sql what ↔ PassesTokens L kind sql ∧ PassesContents L kind sql := by
  simp only [Accepted, guard_eq_ok_iff, exists_and_left, exists_eq, and_true]

/-- What a query loses at its end. -/
def Kind.core : Kind → List Piece → List Piece
  | .expression, ps => ps
  | .query, ps => ps.rdropWhile (·.isPlain isTrailing)

theorem Fits.core {ps : List Piece} (h : Fits ps) (kind : Kind) : Fits (kind.core ps) := by
  cases kind with
  | expression => exact h
  | query => exact h.rdropWhile _

/-- The texts are those of the parts that are left. -/
theorem texts_eq (h : Closed sql) : texts kind sql =
    (cleanedOf (kind.core (bareLex sql)), codeOf (kind.core (bareLex sql))) := by
  cases kind with
  | expression => rw [texts, ← cleanedOf_bareLex, ← codeOf_bareLex]; rfl
  | query => rw [texts, ← cleanedOf_bareLex, ← codeOf_bareLex, withoutTrailing_eq (fits_bareLex h)]; rfl

/-- What is returned is the text of these parts without the white space around it. -/
theorem stripChars_texts (h : Closed sql) :
    stripChars (texts kind sql).1 = cleanedOf (trim (kind.core (bareLex sql))) := by
  rw [texts_eq h, stripChars_cleanedOf ((fits_bareLex h).core kind)]

/-! ## 9. What stands in a literal -/

def Piece.isLiteral : Piece → Bool
  | .quoted q _ => q = '\''
  | _ => false

/-- The same part, or two literals. -/
def Piece.Alike (p p' : Piece) : Prop := p = p' ∨ (p.isLiteral = true ∧ p'.isLiteral = true)

/-- Two fragments that differ in what stands in their literals only. -/
def Alike (sql sql' : List Char) : Prop := List.Forall₂ Piece.Alike (lex sql) (lex sql')

theorem Piece.Alike.symm {p p' : Piece} (h : p.Alike p') : p'.Alike p :=
  h.imp Eq.symm And.symm

theorem forall₂_symm {ps ps' : List Piece} (h : List.Forall₂ Piece.Alike ps ps') :
    List.Forall₂ Piece.Alike ps' ps := by
  induction h with
  | nil => exact .nil
  | cons hp _ ih => exact .cons hp.symm ih

theorem Alike.symm {sql sql' : List Char} (h : Alike sql sql') : Alike sql' sql := forall₂_symm h

theorem literal_cases {p : Piece} (h : p.isLiteral = true) : ∃ content, p = .quoted '\'' content := by
  cases p with
  | quoted q content => exact ⟨content, by rw [of_decide_eq_true h]⟩
  | _ => cases h

theorem Piece.Alike.bare {p p' : Piece} (h : p.Alike p') : p.bare.Alike p'.bare := by
  rcases h with rfl | ⟨hp, hp'⟩
  · exact .inl rfl
  · obtain ⟨content, rfl⟩ := literal_cases hp
    obtain ⟨content', rfl⟩ := literal_cases hp'
    exact .inr ⟨rfl, rfl⟩

/-- Literals are not cut off. -/
theorem Piece.Alike.isPlain {p p' : Piece} (h : p.Alike p') (f : Char → Bool) :
    p.isPlain f = p'.isPlain f := by
  rcases h with rfl | ⟨hp, hp'⟩
  · rfl
  · obtain ⟨content, rfl⟩ := literal_cases hp
    obtain ⟨content', rfl⟩ := literal_cases hp'
    rfl

theorem forall₂_dropWhile {ps ps' : List Piece} (h : List.Forall₂ Piece.Alike ps ps')
    (f : Char → Bool) :
    List.Forall₂ Piece.Alike (ps.dropWhile (·.isPlain f)) (ps'.dropWhile (·.isPlain f)) := by
  induction h with
  | nil => exact .nil
  | cons hp hps ih =>
    rw [List.dropWhile_cons, List.dropWhile_cons, hp.isPlain f]
    split
    · exact ih
    · exact .cons hp hps

theorem forall₂_rdropWhile {ps ps' : List Piece} (h : List.Forall₂ Piece.Alike ps ps')
    (f : Char → Bool) :
    List.Forall₂ Piece.Alike (ps.rdropWhile (·.isPlain f)) (ps'.rdropWhile (·.isPlain f)) :=
  List.forall₂_reverse_iff.mpr (forall₂_dropWhile (List.forall₂_reverse_iff.mpr h) f)

theorem forall₂_trim {ps ps' : List Piece} (h : List.Forall₂ Piece.Alike ps ps') :
    List.Forall₂ Piece.Alike (trim ps) (trim ps') :=
  forall₂_rdropWhile (forall₂_dropWhile h _) _

theorem Alike.core {sql sql' : List Char} (h : Alike sql sql') (kind : Kind) :
    List.Forall₂ Piece.Alike (kind.core (bareLex sql)) (kind.core (bareLex sql')) := by
  have hbare : List.Forall₂ Piece.Alike (bareLex sql) (bareLex sql') :=
    List.forall₂_map_left_iff.mpr (List.forall₂_map_right_iff.mpr (h.imp fun _ _ hp => hp.bare))
  cases kind with
  | expression => exact hbare
  | query => exact forall₂_rdropWhile hbare _

/-- What holds of alike parts, of all of them. -/
theorem forall_mem_alike {ps ps' : List Piece} (h : List.Forall₂ Piece.Alike ps ps')
    {P : Piece → Prop} (hP : ∀ p p', p.Alike p' → P p → P p') (hps : ∀ p ∈ ps, P p) :
    ∀ p ∈ ps', P p := by
  induction h with
  | nil => exact fun p hp => absurd hp List.not_mem_nil
  | cons hp _ ih =>
    obtain ⟨hhead, htail⟩ := List.forall_mem_cons.mp hps
    exact List.forall_mem_cons.mpr ⟨hP _ _ hp hhead, ih htail⟩

theorem Alike.closed {sql sql' : List Char} (h : Alike sql sql') (hclosed : Closed sql) :
    Closed sql' := by
  refine forall_mem_alike (P := fun p => p.error = none) h (fun p p' hp herror => ?_) hclosed
  rcases hp with rfl | ⟨-, hp'⟩
  · exact herror
  · obtain ⟨content, rfl⟩ := literal_cases hp'
    rfl

theorem stripChars_eq_nil_iff {cs : List Char} :
    stripChars cs = [] ↔ ∀ c ∈ cs, isSpace c = true := by
  rw [stripChars, List.rdropWhile_eq_nil_iff]
  constructor
  · intro h c hc
    rw [← List.takeWhile_append_dropWhile (p := isSpace) (l := cs), List.mem_append] at hc
    exact hc.elim List.mem_takeWhile_imp (h c)
  · exact fun h c hc => h c ((List.dropWhile_sublist isSpace).subset hc)

/-- A fragment is blank where its parts are. -/
theorem blank_iff {cs : List Char} :
    stripChars cs = [] ↔ ∀ p ∈ lex cs, ∀ c ∈ p.raw, isSpace c = true := by
  rw [stripChars_eq_nil_iff]
  constructor
  · intro h p hp c hc
    refine h c ?_
    rw [← raw_lex cs]
    exact List.mem_flatMap.mpr ⟨p, hp, hc⟩
  · intro h c hc
    rw [← raw_lex cs] at hc
    obtain ⟨p, hp, hcp⟩ := List.mem_flatMap.mp hc
    exact h p hp c hcp

theorem Alike.blank {sql sql' : List Char} (h : Alike sql sql') (hblank : stripChars sql' = []) :
    stripChars sql = [] := by
  rw [blank_iff] at hblank ⊢
  refine forall_mem_alike (P := fun p => ∀ c ∈ p.raw, isSpace c = true) h.symm
    (fun p p' hp hspaces => ?_) hblank
  rcases hp with rfl | ⟨hp, -⟩
  · exact hspaces
  · obtain ⟨content, rfl⟩ := literal_cases hp
    exact absurd (hspaces '\'' List.mem_cons_self) (by decide)

theorem statement_alike {ps ps' : List Piece} (h : List.Forall₂ Piece.Alike ps ps')
    (hps : ';' ∉ codeOf ps) : ';' ∉ codeOf ps' := by
  simp only [codeOf, List.mem_flatMap, not_exists, not_and] at hps ⊢
  refine forall_mem_alike (P := fun p => ';' ∉ p.code) h (fun p p' hp hno => ?_) hps
  rcases hp with rfl | ⟨-, hp'⟩
  · exact hno
  · obtain ⟨content, rfl⟩ := literal_cases hp'
    simp [Piece.code]

def isParen (c : Char) : Bool := c = '(' || c = ')'

/-- Only the parentheses count. -/
theorem balanced_filter (depth : Nat) (cs : List Char) :
    balanced depth cs = balanced depth (cs.filter isParen) := by
  induction cs generalizing depth with
  | nil => rfl
  | cons c cs ih =>
    by_cases hopen : c = '('
    · subst hopen
      simpa [balanced, isParen] using ih (depth + 1)
    · by_cases hclose : c = ')'
      · subst hclose
        cases depth with
        | zero => simp [balanced, isParen]
        | succ depth => simpa [balanced, isParen] using ih depth
      · simpa [balanced, isParen, hopen, hclose] using ih depth

theorem parens_alike {ps ps' : List Piece} (h : List.Forall₂ Piece.Alike ps ps') :
    (codeOf ps).filter isParen = (codeOf ps').filter isParen := by
  induction h with
  | nil => rfl
  | cons hp _ ih =>
    rw [codeOf_cons, codeOf_cons, List.filter_append, List.filter_append, ih]
    rcases hp with rfl | ⟨hp, hp'⟩
    · rfl
    · obtain ⟨content, rfl⟩ := literal_cases hp
      obtain ⟨content', rfl⟩ := literal_cases hp'
      simp [Piece.code, isParen]

/-- **No pattern that passes no quote and begins at the edge of a word sees the literals.** -/
theorem search_alike {r : Re Char} (hedge : r.StartsAtEdge) (hr : r.Avoids '\'')
    {ps ps' : List Piece} (h : List.Forall₂ Piece.Alike ps ps') (b : Bool) (before : List Char) :
    search L.isWord r b (before ++ codeOf ps) = search L.isWord r b (before ++ codeOf ps') := by
  induction h generalizing b before with
  | nil => rfl
  | cons hp _ ih =>
    rw [codeOf_cons, codeOf_cons]
    rcases hp with rfl | ⟨hp, hp'⟩
    · rw [← List.append_assoc, ← List.append_assoc, ih]
    · obtain ⟨content, rfl⟩ := literal_cases hp
      obtain ⟨content', rfl⟩ := literal_cases hp'
      have hblank (n : Nat) : search L.isWord r false (List.replicate n ' ') = false := by
        refine search_eq_false hedge fun c hc => ?_
        rw [List.eq_of_mem_replicate hc]
        exact L.space_not_word ' ' (by decide)
      have hcut (content : List Char) (rest : List Char) :
          search L.isWord r b (before ++ ((Piece.quoted '\'' content).code ++ rest)) =
            (search L.isWord r b before || search L.isWord r false rest) := by
        have htext : before ++ ((Piece.quoted '\'' content).code ++ rest) =
            before ++ '\'' :: (List.replicate content.length ' ' ++ '\'' :: rest) := by
          simp [Piece.code]
        rw [htext, search_append hr L.quote_not_word, search_append hr L.quote_not_word, hblank,
          Bool.false_or]
      rw [hcut, hcut]
      exact congrArg _ (ih false [])

/-- What a text begins with, before its first literal. -/
theorem matchesAt_alike {r : Re Char} (hr : r.Avoids '\'') {ps ps' : List Piece}
    (h : List.Forall₂ Piece.Alike ps ps') (b : Bool) (before : List Char) :
    matchesAt L.isWord r (b, before ++ cleanedOf ps) =
      matchesAt L.isWord r (b, before ++ cleanedOf ps') := by
  induction h generalizing before with
  | nil => rfl
  | cons hp _ ih =>
    rw [cleanedOf_cons, cleanedOf_cons]
    rcases hp with rfl | ⟨hp, hp'⟩
    · rw [← List.append_assoc, ← List.append_assoc, ih]
    · obtain ⟨content, rfl⟩ := literal_cases hp
      obtain ⟨content', rfl⟩ := literal_cases hp'
      have hcut (content : List Char) (rest : List Char) :
          matchesAt L.isWord r (b, before ++ ((Piece.quoted '\'' content).cleaned ++ rest)) =
            matchesAt L.isWord r (b, before) :=
        matchesAt_append hr L.quote_not_word b before
      rw [hcut, hcut]

/-! ### What the patterns pass -/

/-- A character that is not one of a word matches no letter of a pattern. -/
theorem same_eq_false {x : Char} (hx : L.isWord x = false) {p : Char} (hp : p ∈ identChars) :
    L.same p x = false := by
  cases h : L.same p x with
  | false => rfl
  | true => exact (hx.symm.trans (L.word_of_same p hp x h)).symm

theorem inClass_eq_false {x : Char} (hx : L.isWord x = false) {chars : List Char}
    (hchars : ∀ p ∈ chars, p ∈ identChars) : inClass L chars x = false := by
  rw [inClass, List.any_eq_false]
  intro p hp
  rw [same_eq_false hx (hchars p hp)]
  exact Bool.false_ne_true

theorem written_avoids {x : Char} (hx : L.isWord x = false) {text : String}
    (htext : text.toList.all (fun p => decide (p ∈ identChars)) = true) :
    (written L text).Avoids x := by
  rw [List.all_iff_forall_prop] at htext
  unfold written
  generalize text.toList = cs at htext
  induction cs with
  | nil => trivial
  | cons c cs ih =>
    obtain ⟨hc, hcs⟩ := List.forall_mem_cons.mp htext
    exact ⟨same_eq_false hx hc, ih hcs⟩

theorem anyOf_avoids {x : Char} {rs : List (Re Char)} (h : ∀ r ∈ rs, r.Avoids x) :
    (anyOf rs).Avoids x := by
  induction rs with
  | nil => rfl
  | cons r rs ih =>
    obtain ⟨hr, hrs⟩ := List.forall_mem_cons.mp h
    exact ⟨hr, ih hrs⟩

theorem oneOf_avoids {x : Char} (hx : L.isWord x = false) {texts : List String}
    (htexts : ∀ text ∈ texts, text.toList.all (fun p => decide (p ∈ identChars)) = true) :
    (oneOf L texts).Avoids x := by
  refine anyOf_avoids fun r hr => ?_
  obtain ⟨text, htext, rfl⟩ := List.mem_map.mp hr
  exact written_avoids hx (htexts text htext)

theorem space_avoids : (Re.many isSpace).Avoids '\'' := by
  have hspace : isSpace '\'' = false := by decide
  exact hspace

theorem ident_subset : ∀ p ∈ identChars, p ∈ identChars := fun _ h => h

theorem name_subset : ∀ p ∈ nameChars, p ∈ identChars :=
  List.all_iff_forall_prop.mp (by decide)

theorem wordRe_avoids : (Re.seq (wordRe L) .edge).Avoids '\'' :=
  ⟨⟨trivial, oneOf_avoids L.quote_not_word (by decide)⟩, trivial⟩

theorem functionRe_avoids : (Re.seq (functionRe L) callRe).Avoids '\'' := by
  have hx := L.quote_not_word
  have hident : inClass L identChars '\'' = false := inClass_eq_false hx ident_subset
  have hname : inClass L nameChars '\'' = false := inClass_eq_false hx name_subset
  refine ⟨⟨trivial, anyOf_avoids ?_⟩, space_avoids, rfl⟩
  simp only [List.forall_mem_cons, List.not_mem_nil, false_implies, implies_true, and_true]
  exact ⟨oneOf_avoids hx (by decide), ⟨written_avoids hx (by decide), hident⟩,
    ⟨hident, written_avoids hx (by decide)⟩, ⟨written_avoids hx (by decide), hname, hname⟩,
    oneOf_avoids hx (by decide), ⟨written_avoids hx (by decide), hname, hname⟩,
    ⟨written_avoids hx (by decide), hname, hname⟩, oneOf_avoids hx (by decide),
    ⟨written_avoids hx (by decide), hname⟩, oneOf_avoids hx (by decide),
    hname, written_avoids hx (by decide), hname⟩

theorem catalogRe_avoids : (Re.seq (catalogRe L) .empty).Avoids '\'' := by
  have hident : inClass L identChars '\'' = false := inClass_eq_false L.quote_not_word ident_subset
  exact ⟨⟨trivial, ⟨written_avoids L.quote_not_word (by decide), hident⟩,
    written_avoids L.quote_not_word (by decide), hident⟩, trivial⟩

theorem queryStartRe_avoids : (queryStartRe L).Avoids '\'' :=
  ⟨space_avoids, oneOf_avoids L.quote_not_word (by decide), trivial⟩

theorem fromEndRe_avoids {x : Char} (hx : L.isWord x = false) : (fromEndRe L).Avoids x :=
  ⟨trivial, oneOf_avoids hx (by decide), trivial⟩

/-- **The tests on the tokens say the same of alike fragments.** -/
theorem PassesTokens.of_alike {sql sql' : List Char} (halike : Alike sql sql')
    (h : PassesTokens L kind sql) : PassesTokens L kind sql' := by
  have hclosed := halike.closed h.closed
  have hcore := halike.core kind
  have hcode : (texts kind sql).2 = codeOf (kind.core (bareLex sql)) := by rw [texts_eq h.closed]
  have hcode' : (texts kind sql').2 = codeOf (kind.core (bareLex sql')) := by rw [texts_eq hclosed]
  constructor
  case given => exact fun hblank => h.given (halike.blank hblank)
  case closed => exact hclosed
  case statement =>
    rw [hcode']
    exact statement_alike hcore (hcode ▸ h.statement)
  case parentheses =>
    rw [hcode', balanced_filter, ← parens_alike hcore, ← balanced_filter, ← hcode]
    exact h.parentheses
  case words =>
    have hsame := search_alike (L := L) (r := .seq (wordRe L) .edge) trivial wordRe_avoids hcore
      false []
    rw [hcode', ← List.nil_append (codeOf _), ← hsame, List.nil_append, ← hcode]
    exact h.words
  case functions =>
    have hsame := search_alike (L := L) (r := .seq (functionRe L) callRe) trivial functionRe_avoids
      hcore false []
    rw [hcode', ← List.nil_append (codeOf _), ← hsame, List.nil_append, ← hcode]
    exact h.functions
  case catalog =>
    have hsame := search_alike (L := L) (r := .seq (catalogRe L) .empty) trivial catalogRe_avoids
      hcore false []
    rw [hcode', ← List.nil_append (codeOf _), ← hsame, List.nil_append, ← hcode]
    exact h.catalog
  case start =>
    intro hkind
    have hsame := matchesAt_alike (L := L) (r := queryStartRe L) queryStartRe_avoids
      (forall₂_trim hcore) false []
    rw [stripChars_texts hclosed, ← List.nil_append (cleanedOf _), ← hsame, List.nil_append,
      ← stripChars_texts h.closed]
    exact h.start hkind

theorem passesTokens_iff_of_alike {sql sql' : List Char} (h : Alike sql sql') :
    PassesTokens L kind sql ↔ PassesTokens L kind sql' :=
  ⟨.of_alike h, .of_alike h.symm⟩

/-! ## 10. White space around a fragment -/

/-- Only white space, in both texts. -/
def Spaces (xs : List (Char × Char)) : Prop := ∀ x ∈ xs, isSpace x.1 = true ∧ isSpace x.2 = true

theorem Spaces.head_not_word {t : List (Char × Char)} (ht : Spaces t) :
    (t.map (·.2)).head?.any L.isWord = false := by
  cases t with
  | nil => rfl
  | cons x xs => exact L.space_not_word x.2 (ht x List.mem_cons_self).2

theorem spaces_head_not_word {t : List Char} (ht : ∀ c ∈ t, isSpace c = true) :
    t.head?.any L.isWord = false := by
  cases t with
  | nil => rfl
  | cons c cs => exact L.space_not_word c (ht c List.mem_cons_self)

/-- What a search finds, it finds between white space. -/
theorem search_around {r : Re Char} {w a t : List Char} (hw : ∀ c ∈ w, isSpace c = true)
    (ht : ∀ c ∈ t, isSpace c = true) (h : search L.isWord r false a = true) :
    search L.isWord r false (w ++ a ++ t) = true := by
  have hfold : ∀ w : List Char, (∀ c ∈ w, isSpace c = true) →
      w.foldl (fun _ c => L.isWord c) false = false := by
    intro w hw
    induction w with
    | nil => rfl
    | cons c cs ih =>
      obtain ⟨hc, hcs⟩ := List.forall_mem_cons.mp hw
      rw [List.foldl_cons, L.space_not_word c hc]
      exact ih hcs
  exact search_mono (spaces_head_not_word ht) (search_after h w (hfold w hw))

theorem space_ne_paren {c : Char} (h : isSpace c = true) : c ≠ '(' ∧ c ≠ ')' := by
  constructor
  · rintro rfl
    exact absurd h (by decide)
  · rintro rfl
    exact absurd h (by decide)

theorem segment_cons (depth : Nat) (x : Char × Char) (xs : List (Char × Char)) :
    segment depth (x :: xs) =
      if x.2 = '(' then x :: segment (depth + 1) xs
      else if x.2 = ')' then
        match depth with
        | 0 => []
        | depth + 1 => x :: segment depth xs
      else x :: segment depth xs := by
  rw [segment.eq_def]

theorem segment_spaces {depth : Nat} {t : List (Char × Char)} (ht : Spaces t) :
    segment depth t = t := by
  induction t with
  | nil => rfl
  | cons x xs ih =>
    obtain ⟨hx, hxs⟩ := List.forall_mem_cons.mp ht
    obtain ⟨hopen, hclose⟩ := space_ne_paren hx.2
    rw [segment_cons, if_neg hopen, if_neg hclose, ih hxs]

theorem segment_append (depth : Nat) (xs : List (Char × Char)) {t : List (Char × Char)}
    (ht : Spaces t) :
    ∃ t', Spaces t' ∧ segment depth (xs ++ t) = segment depth xs ++ t' := by
  induction xs generalizing depth with
  | nil => exact ⟨t, ht, segment_spaces ht⟩
  | cons x xs ih =>
    rw [List.cons_append, segment_cons, segment_cons]
    split
    · obtain ⟨t', ht', heq⟩ := ih (depth + 1)
      exact ⟨t', ht', by rw [heq]; rfl⟩
    · split
      · cases depth with
        | zero => exact ⟨[], fun _ hx => absurd hx List.not_mem_nil, rfl⟩
        | succ depth =>
          obtain ⟨t', ht', heq⟩ := ih depth
          exact ⟨t', ht', congrArg (x :: ·) heq⟩
      · obtain ⟨t', ht', heq⟩ := ih depth
        exact ⟨t', ht', by rw [heq]; rfl⟩

theorem listed_append (L : Letters) (xs : List (Char × Char)) {t : List (Char × Char)}
    (ht : Spaces t) : ∃ t', Spaces t' ∧ listed L (xs ++ t) = listed L xs ++ t' := by
  obtain ⟨t', ht', heq⟩ := segment_append 0 xs ht
  have hfirst : firstStart L.isWord (fromEndRe L) false ((segment 0 xs ++ t').map (·.2)) =
      firstStart L.isWord (fromEndRe L) false ((segment 0 xs).map (·.2)) := by
    rw [List.map_append]
    cases t' with
    | nil => rw [List.map_nil, List.append_nil]
    | cons x rest =>
      obtain ⟨hx, hrest⟩ := List.forall_mem_cons.mp ht'
      have hword := L.space_not_word x.2 hx.2
      refine firstStart_append (fromEndRe_avoids hword) hword _ _ ?_
      refine search_eq_false (r := fromEndRe L) trivial fun c hc => ?_
      obtain ⟨y, hy, rfl⟩ := List.mem_map.mp hc
      exact L.space_not_word y.2 (hrest y hy).2
  rw [listed, listed, heq, hfirst]
  split
  · rename_i n hn
    have hle := firstStart_le hn
    rw [List.length_map] at hle
    refine ⟨[], fun _ hx => absurd hx List.not_mem_nil, ?_⟩
    rw [List.take_append_of_le_length hle, List.append_nil]
  · exact ⟨t', ht', rfl⟩

theorem flat_cons (depth : Int) (x : Char × Char) (xs : List (Char × Char)) :
    ∃ depth' : Int, ∀ t, flat depth (x :: xs ++ t) =
      (if depth' = 0 then x.1 else ' ') :: flat depth' (xs ++ t) :=
  ⟨if x.2 = '(' then depth + 1 else if x.2 = ')' then depth - 1 else depth, fun _ => rfl⟩

theorem flat_spaces {depth : Int} {t : List (Char × Char)} (ht : Spaces t) :
    ∀ c ∈ flat depth t, isSpace c = true := by
  induction t generalizing depth with
  | nil => exact fun c hc => absurd hc List.not_mem_nil
  | cons x xs ih =>
    obtain ⟨hx, hxs⟩ := List.forall_mem_cons.mp ht
    obtain ⟨depth', heq⟩ := flat_cons depth x xs
    have hflat := heq []
    rw [List.append_nil, List.append_nil] at hflat
    rw [hflat]
    refine List.forall_mem_cons.mpr ⟨?_, ih hxs⟩
    by_cases hdepth : depth' = 0
    · rw [if_pos hdepth]
      exact hx.1
    · rw [if_neg hdepth]
      decide

theorem flat_append (depth : Int) (xs : List (Char × Char)) {t : List (Char × Char)}
    (ht : Spaces t) :
    ∃ t' : List Char, (∀ c ∈ t', isSpace c = true) ∧ flat depth (xs ++ t) = flat depth xs ++ t' := by
  induction xs generalizing depth with
  | nil => exact ⟨flat depth t, flat_spaces ht, rfl⟩
  | cons x xs ih =>
    obtain ⟨depth', heq⟩ := flat_cons depth x xs
    obtain ⟨t', ht', hrest⟩ := ih depth'
    have hflat := heq []
    rw [List.append_nil, List.append_nil] at hflat
    refine ⟨t', ht', ?_⟩
    rw [heq t, hflat, hrest]
    rfl

theorem pathListed_append {xs t : List (Char × Char)} (ht : Spaces t)
    (h : pathListed L xs = true) : pathListed L (xs ++ t) = true := by
  obtain ⟨t', ht', hlisted⟩ := listed_append L xs ht
  obtain ⟨t'', ht'', hflat⟩ := flat_append 0 (listed L xs) ht'
  rw [pathListed, hlisted, hflat]
  exact search_mono (spaces_head_not_word ht'') h

theorem fromAt_append {after : Bool} {xs t : List (Char × Char)} (ht : Spaces t)
    (h : fromAt L after xs = true) : fromAt L after (xs ++ t) = true := by
  obtain ⟨e, he, hpath⟩ := List.any_eq_true.mp h
  refine List.any_eq_true.mpr ⟨more (t.map (·.2)) e, ?_, ?_⟩
  · rw [List.map_append]
    exact mem_ends_more ht.head_not_word he
  · have hsub : (xs ++ t).length - (more (t.map (·.2)) e).2.length = xs.length - e.2.length := by
      simp only [more, List.length_append, List.length_map]
      omega
    rw [hsub, List.drop_append_of_le_length (Nat.sub_le _ _)]
    exact pathListed_append ht hpath

theorem fromAfter_append {after : Bool} {xs t : List (Char × Char)} (ht : Spaces t)
    (h : fromAfter L after xs = true) : fromAfter L after (xs ++ t) = true := by
  induction xs generalizing after with
  | nil =>
    have hat := fromAt_append ht h
    rw [List.nil_append] at hat ⊢
    cases t with
    | nil => exact h
    | cons x xs => rw [fromAfter, hat, Bool.true_or]
  | cons x xs ih =>
    rw [fromAfter, Bool.or_eq_true] at h
    rw [List.cons_append, fromAfter, Bool.or_eq_true]
    rcases h with hat | hrest
    · exact .inl (fromAt_append ht hat)
    · exact .inr (ih hrest)

theorem fromAfter_after {w xs : List (Char × Char)} (hw : Spaces w)
    (h : fromAfter L false xs = true) : fromAfter L false (w ++ xs) = true := by
  induction w with
  | nil => exact h
  | cons x w ih =>
    obtain ⟨hx, hw⟩ := List.forall_mem_cons.mp hw
    rw [List.cons_append, fromAfter, L.space_not_word x.2 hx.2, ih hw, Bool.or_true]

theorem fromAfter_spaces {xs : List (Char × Char)} (h : Spaces xs) :
    fromAfter L false xs = false := by
  have hat : ∀ xs : List (Char × Char), Spaces xs → fromAt L false xs = false := by
    intro xs hxs
    have hedge : atEdge L.isWord (false, xs.map (·.2)) = false := by
      simp only [atEdge, hxs.head_not_word]
      decide
    rw [fromAt, ends_eq_nil (r := fromRe L) trivial hedge]
    rfl
  induction xs with
  | nil => exact hat [] h
  | cons x xs ih =>
    obtain ⟨hx, hxs⟩ := List.forall_mem_cons.mp h
    rw [fromAfter, hat _ h, L.space_not_word x.2 hx.2, ih hxs]
    rfl

/-! ## 11. What is returned -/

/-- No prefix closes more parentheses than it opens, and the whole closes all of them. -/
def Balanced (cs : List Char) : Prop :=
  (∀ n, (cs.take n).count ')' ≤ (cs.take n).count '(') ∧ cs.count '(' = cs.count ')'

theorem balanced_iff_from {depth : Nat} {cs : List Char} : balanced depth cs = true ↔
    (∀ n, (cs.take n).count ')' ≤ depth + (cs.take n).count '(') ∧
      depth + cs.count '(' = cs.count ')' := by
  induction cs generalizing depth with
  | nil => simp [balanced]
  | cons c cs ih =>
    have hbegins (P : List Char → Prop) (hnil : P []) :
        (∀ n, P ((c :: cs).take n)) ↔ ∀ n, P (c :: cs.take n) := by
      constructor
      · exact fun h n => h (n + 1)
      · intro h n
        cases n with
        | zero => exact hnil
        | succ n => exact h n
    rw [hbegins (fun l => l.count ')' ≤ depth + l.count '(') (by simp), balanced.eq_def]
    dsimp only
    by_cases hopen : c = '('
    · subst hopen
      rw [if_pos rfl, ih]
      simp only [List.count_cons_self, List.count_cons_of_ne (show '(' ≠ ')' by decide)]
      refine and_congr (forall_congr' fun n => ?_) ?_ <;> omega
    · rw [if_neg hopen]
      by_cases hclose : c = ')'
      · subst hclose
        rw [if_pos rfl]
        simp only [List.count_cons_self, List.count_cons_of_ne (show ')' ≠ '(' by decide)]
        cases depth with
        | zero =>
          simp only [Bool.false_eq_true, false_iff, not_and]
          exact fun h => absurd (h 0) (by simp)
        | succ depth =>
          dsimp only
          rw [ih]
          refine and_congr (forall_congr' fun n => ?_) ?_ <;> omega
      · rw [if_neg hclose, ih]
        simp only [List.count_cons_of_ne hopen, List.count_cons_of_ne hclose]

theorem balanced_iff {cs : List Char} : balanced 0 cs = true ↔ Balanced cs := by
  rw [balanced_iff_from, Balanced]
  simp only [Nat.zero_add]

/-- A text that the guard has nothing left to do with. -/
structure Clean (L : Letters) (kind : Kind) (what : String) (r : List Char) : Prop where
  /-- no comment, and all is closed -/
  parts : ∀ p ∈ lex r, (∃ c, p = .plain c) ∨ ∃ q content, p = .quoted q content
  statement : .plain ';' ∉ lex r
  parentheses : Balanced (codeOf (lex r))
  again : guard L kind r what = .ok r

theorem Fits.cases {ps : List Piece} (h : Fits ps) : ∀ p ∈ ps,
    (∃ c, p = .plain c) ∨ ∃ q content, p = .quoted q content := by
  induction ps with
  | nil => exact fun p hp => absurd hp List.not_mem_nil
  | cons p ps ih =>
    refine List.forall_mem_cons.mpr ?_
    cases p with
    | plain c => exact ⟨.inl ⟨c, rfl⟩, ih h.2⟩
    | quoted q content => exact ⟨.inr ⟨q, content, rfl⟩, ih h.2⟩
    | comment raw => cases h
    | unclosed message raw => cases h

theorem Fits.bare {ps : List Piece} (h : Fits ps) : ps.map Piece.bare = ps := by
  refine (List.map_congr_left fun p hp => ?_).trans (List.map_id ps)
  rcases h.cases p hp with ⟨c, rfl⟩ | ⟨q, content, rfl⟩ <;> rfl

theorem closed_cleanedOf {ps : List Piece} (h : Fits ps) : Closed (cleanedOf ps) := by
  intro p hp
  rw [lex_cleanedOf h] at hp
  rcases h.cases p hp with ⟨c, rfl⟩ | ⟨q, content, rfl⟩ <;> rfl

theorem bareLex_cleanedOf {ps : List Piece} (h : Fits ps) : bareLex (cleanedOf ps) = ps := by
  rw [bareLex, lex_cleanedOf h, h.bare]

/-- The parts that are returned. -/
def returned (kind : Kind) (sql : List Char) : List Piece := trim (kind.core (bareLex sql))

theorem fits_returned (kind : Kind) (h : Closed sql) : Fits (returned kind sql) :=
  ((fits_bareLex h).core kind).trim

/-- Nothing more is cut off at the end of what is returned. -/
theorem core_returned (kind : Kind) (sql : List Char) :
    kind.core (returned kind sql) = returned kind sql := by
  cases kind with
  | expression => rfl
  | query =>
    have hend : ((bareLex sql).rdropWhile (·.isPlain isTrailing)).rdropWhile (·.isPlain isTrailing) =
        (bareLex sql).rdropWhile (·.isPlain isTrailing) := List.rdropWhile_idempotent _ _
    generalize hps : (bareLex sql).rdropWhile (·.isPlain isTrailing) = ps at hend
    have hdrop : (ps.dropWhile (·.isPlain isSpace)).rdropWhile (·.isPlain isTrailing) =
        ps.dropWhile (·.isPlain isSpace) := by
      rw [List.rdropWhile_eq_self_iff] at hend ⊢
      intro hne hlast
      have hsuffix := List.dropWhile_suffix (l := ps) (·.isPlain isSpace)
      refine hend (fun h => hne (by rw [h]; rfl)) ?_
      rw [← hsuffix.getLast hne]
      exact hlast
    have htrim : returned .query sql = ps.dropWhile (·.isPlain isSpace) := by
      rw [returned, Kind.core, hps, trim, rdropWhile_eq_self isPlain_trailing hdrop]
    rw [htrim]
    exact hdrop

theorem texts_returned (h : Closed sql) : texts kind (cleanedOf (returned kind sql)) =
    (cleanedOf (returned kind sql), codeOf (returned kind sql)) := by
  have hfits := fits_returned kind h
  rw [texts_eq (closed_cleanedOf hfits), bareLex_cleanedOf hfits, core_returned]

theorem texts_plain {ps : List Piece} (h : ∀ p ∈ ps, p.isPlain isSpace = true) :
    codeOf ps = cleanedOf ps ∧ ∀ c ∈ cleanedOf ps, isSpace c = true := by
  induction ps with
  | nil => exact ⟨rfl, fun c hc => absurd hc List.not_mem_nil⟩
  | cons p ps ih =>
    obtain ⟨hp, hps⟩ := List.forall_mem_cons.mp h
    obtain ⟨hsame, hspaces⟩ := ih hps
    cases p with
    | plain c => exact ⟨congrArg (c :: ·) hsame, List.forall_mem_cons.mpr ⟨hp, hspaces⟩⟩
    | _ => cases hp

theorem spaces_zip {cs : List Char} (h : ∀ c ∈ cs, isSpace c = true) : Spaces (cs.zip cs) := by
  rintro ⟨a, b⟩ hx
  obtain ⟨ha, hb⟩ := List.of_mem_zip hx
  exact ⟨h a ha, h b hb⟩

/-- The texts of a fragment are those that are returned, between white space. -/
theorem texts_around (kind : Kind) (h : Closed sql) : ∃ w t : List Char,
    (∀ c ∈ w, isSpace c = true) ∧ (∀ c ∈ t, isSpace c = true) ∧
      texts kind sql = (w ++ cleanedOf (returned kind sql) ++ t,
        w ++ codeOf (returned kind sql) ++ t) := by
  obtain ⟨w, t, heq, hw, ht⟩ := append_trim_append (kind.core (bareLex sql))
  obtain ⟨hwcode, hwspaces⟩ := texts_plain hw
  obtain ⟨htcode, htspaces⟩ := texts_plain ht
  refine ⟨cleanedOf w, cleanedOf t, hwspaces, htspaces, ?_⟩
  rw [texts_eq h, heq, cleanedOf_append, cleanedOf_append, codeOf_append, codeOf_append, hwcode,
    htcode, returned]

/-- A part as it is written is not shorter than what it adds to the texts. -/
theorem length_cleaned_le (cs : List Char) :
    (cleanedOf (lex cs)).length ≤ cs.length := by
  induction hn : cs.length using Nat.strong_induction_on generalizing cs with
  | _ n ih =>
    cases cs with
    | nil => exact Nat.zero_le _
    | cons c cs =>
      subst hn
      have hrest := ih _ (Nat.lt_succ_of_le (length_nextPiece c cs)) _ rfl
      have hraw := congrArg List.length (raw_nextPiece c cs)
      have hpos := List.length_pos_iff.mpr (raw_ne_nil c cs)
      have hpiece : (nextPiece c cs).1.cleaned.length ≤ (nextPiece c cs).1.raw.length := by
        generalize (nextPiece c cs).1 = p at hpos ⊢
        cases p with
        | comment raw => exact hpos
        | unclosed message raw => exact Nat.zero_le _
        | _ => exact Nat.le_refl _
      rw [lex_cons, cleanedOf_cons, List.length_append]
      rw [List.length_append] at hraw
      omega

/-- **What was accepted and is not empty is accepted as it was returned.** -/
theorem again_of_accepted {r : List Char} (h : guard L kind sql what = .ok r) (hr : r ≠ []) :
    guard L kind r what = .ok r := by
  obtain ⟨htokens, hcontents, heq⟩ := guard_eq_ok_iff.mp h
  have hclosed := htokens.closed
  have hfits := fits_returned kind hclosed
  have hstrip : stripChars r = r := by rw [heq, stripChars_stripChars]
  have hrest : r = cleanedOf (returned kind sql) := heq.trans (stripChars_texts hclosed)
  obtain ⟨w, t, hw, ht, htexts⟩ := texts_around kind hclosed
  have hagain : texts kind r = (r, codeOf (returned kind sql)) := by
    rw [hrest]
    exact texts_returned hclosed
  have hcode {re : Re Char}
      (hno : search L.isWord re false (texts kind sql).2 = false) :
      search L.isWord re false (codeOf (returned kind sql)) = false := by
    cases hsearch : search L.isWord re false (codeOf (returned kind sql)) with
    | false => rfl
    | true =>
      rw [htexts] at hno
      exact (search_around hw ht hsearch).symm.trans hno
  refine guard_eq_ok_iff.mpr ⟨?_, ?_, by rw [hagain, hstrip]⟩
  · constructor
    case given => rwa [hstrip]
    case closed =>
      rw [hrest]
      exact closed_cleanedOf hfits
    case statement =>
      rw [hagain]
      intro hmem
      refine htokens.statement ?_
      rw [htexts]
      exact List.mem_append_left _ (List.mem_append_right _ hmem)
    case parentheses =>
      have hnone {cs : List Char} (hcs : ∀ c ∈ cs, isSpace c = true) : cs.filter isParen = [] := by
        refine List.filter_eq_nil_iff.mpr fun c hc => ?_
        simp [isParen, space_ne_paren (hcs c hc)]
      have hparens := htokens.parentheses
      rw [htexts, balanced_filter, List.filter_append, List.filter_append, hnone hw, hnone ht,
        List.nil_append, List.append_nil, ← balanced_filter] at hparens
      rwa [hagain]
    case words =>
      rw [hagain]
      exact hcode htokens.words
    case functions =>
      rw [hagain]
      exact hcode htokens.functions
    case catalog =>
      rw [hagain]
      exact hcode htokens.catalog
    case start =>
      intro hkind
      rw [hagain, hstrip, heq]
      exact htokens.start hkind
  · constructor
    case length =>
      refine Nat.le_trans ?_ hcontents.length
      refine Nat.le_trans ?_ (length_cleaned_le sql)
      have htext : (texts kind sql).1.length = (cleanedOf (kind.core (bareLex sql))).length := by
        rw [texts_eq hclosed]
      have hlength : (cleanedOf (kind.core (bareLex sql))).length ≤ (cleanedOf (lex sql)).length := by
        rw [← cleanedOf_bareLex]
        cases kind with
        | expression => exact Nat.le_refl _
        | query =>
          obtain ⟨u, hu, -⟩ := rdropWhile_append (·.isPlain isTrailing) (bareLex sql)
          rw [Kind.core]
          conv_rhs => rw [hu]
          rw [cleanedOf_append, List.length_append]
          exact Nat.le_add_right _ _
      rw [htexts] at htext
      simp only [List.length_append] at htext
      rw [hrest]
      omega
    case table =>
      rw [hagain]
      cases hsearch : search L.isWord (pathAsTableRe L) false r with
      | false => rfl
      | true =>
        have hno := hcontents.table
        rw [htexts] at hno
        rw [hrest] at hsearch
        exact (search_around hw ht hsearch).symm.trans hno
    case list =>
      rw [hagain]
      cases hfrom : commaPathInFrom L r (codeOf (returned kind sql)) with
      | false => rfl
      | true =>
        have hno := hcontents.list
        have hlength := (length_codeOf (returned kind sql)).symm
        rw [htexts, commaPathInFrom, List.zip_append (by simp [hlength]),
          List.zip_append rfl] at hno
        rw [hrest, commaPathInFrom] at hfrom
        have hyes := fromAfter_append (spaces_zip ht) (fromAfter_after (spaces_zip hw) hfrom)
        exact hyes.symm.trans hno

theorem clean_of_accepted {r : List Char} (h : guard L kind sql what = .ok r) (hr : r ≠ []) :
    Clean L kind what r := by
  obtain ⟨htokens, -, heq⟩ := guard_eq_ok_iff.mp h
  have hclosed := htokens.closed
  have hfits := fits_returned kind hclosed
  have hlex : lex r = returned kind sql := by
    rw [heq, stripChars_texts hclosed, ← returned, lex_cleanedOf hfits]
  have hagain := again_of_accepted h hr
  have hcode : (texts kind r).2 = codeOf (lex r) := by
    rw [hlex, heq, stripChars_texts hclosed, ← returned, texts_returned hclosed]
  have hpasses := (guard_eq_ok_iff.mp hagain).1
  constructor
  · rw [hlex]
    exact hfits.cases
  · intro hmem
    refine hpasses.statement ?_
    rw [hcode]
    exact List.mem_flatMap.mpr ⟨_, hmem, List.mem_cons_self⟩
  · rw [← balanced_iff, ← hcode]
    exact hpasses.parentheses
  · exact hagain

/-! ## 12. Fragments of nothing but comments -/

/-- Comments and white space, with one comment at least, no longer than a fragment may be. -/
structure OnlyComments (sql : List Char) : Prop where
  length : sql.length ≤ maxFragmentLength
  comment : ∃ raw, .comment raw ∈ lex sql
  blank : ∀ p ∈ bareLex sql, p.isPlain isSpace = true

/-- A comment begins with a dash or a slash. -/
theorem comment_cases {cs raw : List Char} (h : .comment raw ∈ lex cs) :
    ∃ c rest, raw = c :: rest ∧ isSpace c = false := by
  induction hn : cs.length using Nat.strong_induction_on generalizing cs with
  | _ n ih =>
    cases cs with
    | nil => cases h
    | cons c cs =>
      subst hn
      have hlt := Nat.lt_succ_of_le (length_nextPiece c cs)
      have hturn := turn_nextPiece c cs
      rw [lex_cons] at h
      rcases List.mem_cons.mp h with heq | hrest
      · generalize nextPiece c cs = next at heq hturn
        cases hturn with
        | comment hc hcs =>
          cases heq
          refine ⟨c, _, rfl, ?_⟩
          rcases hc with rfl | rfl <;> decide
        | unclosed message => cases heq
        | quoted hquoted hcs => cases heq
        | plain hplain => cases heq
      · exact ih _ hlt hrest rfl

/-- Nothing but comments is accepted as an expression, and returned as nothing. -/
theorem OnlyComments.guard (L : Letters) (what : String) (h : OnlyComments sql) :
    guard L .expression sql what = .ok [] := by
  have hclosed : Closed sql := by
    intro p hp
    have hblank := h.blank p.bare (List.mem_map_of_mem hp)
    cases p with
    | unclosed message raw => cases hblank
    | _ => rfl
  obtain ⟨hsame, hspaces⟩ := texts_plain h.blank
  have htexts : texts .expression sql = (cleanedOf (bareLex sql), cleanedOf (bareLex sql)) := by
    rw [texts_eq hclosed, Kind.core, hsame]
  have hno (re : Re Char) (hre : re.StartsAtEdge) :
      search L.isWord re false (cleanedOf (bareLex sql)) = false :=
    search_eq_false hre fun c hc => L.space_not_word c (hspaces c hc)
  have hstrip : stripChars (cleanedOf (bareLex sql)) = [] := stripChars_eq_nil_iff.mpr hspaces
  refine guard_eq_ok_iff.mpr ⟨?_, ?_, by rw [htexts, hstrip]⟩
  · constructor
    case given =>
      obtain ⟨raw, hraw⟩ := h.comment
      obtain ⟨c, rest, rfl, hc⟩ := comment_cases hraw
      intro hblank
      exact absurd ((blank_iff.mp hblank _ hraw c List.mem_cons_self).symm.trans hc) (by decide)
    case closed => exact hclosed
    case statement =>
      rw [htexts]
      exact fun hmem => absurd (hspaces _ hmem) (by decide)
    case parentheses =>
      have hnone : (cleanedOf (bareLex sql)).filter isParen = [] := by
        refine List.filter_eq_nil_iff.mpr fun c hc => ?_
        simp [isParen, space_ne_paren (hspaces c hc)]
      rw [htexts, balanced_filter, hnone]
      rfl
    case words =>
      rw [htexts]
      exact hno (.seq (wordRe L) .edge) trivial
    case functions =>
      rw [htexts]
      exact hno (.seq (functionRe L) callRe) trivial
    case catalog =>
      rw [htexts]
      exact hno (.seq (catalogRe L) .empty) trivial
    case start => exact nofun
  · constructor
    case length => exact h.length
    case table =>
      rw [htexts]
      exact hno (pathAsTableRe L) trivial
    case list =>
      rw [htexts]
      exact fromAfter_spaces (spaces_zip hspaces)

/-- What is returned as nothing is an expression of nothing but comments. -/
theorem onlyComments_of_empty (h : guard L kind sql what = .ok []) :
    kind = .expression ∧ OnlyComments sql := by
  obtain ⟨htokens, hcontents, heq⟩ := guard_eq_ok_iff.mp h
  have hclosed := htokens.closed
  cases kind with
  | query =>
    have hstart := htokens.start rfl
    rw [← heq] at hstart
    cases hstart
  | expression =>
    have hspaces : ∀ c ∈ cleanedOf (bareLex sql), isSpace c = true := by
      rw [texts_eq hclosed] at heq
      exact stripChars_eq_nil_iff.mp heq.symm
    have hblank : ∀ p ∈ bareLex sql, p.isPlain isSpace = true := by
      intro p hp
      have hpspaces : ∀ c ∈ p.cleaned, isSpace c = true :=
        fun c hc => hspaces c (List.mem_flatMap.mpr ⟨p, hp, hc⟩)
      rcases (fits_bareLex hclosed).cases p hp with ⟨c, rfl⟩ | ⟨q, content, rfl⟩
      · exact hpspaces c List.mem_cons_self
      · have hends := ends_piece quoteFree_space Piece.cleaned (fun _ => rfl)
          (fun _ content => ⟨content, rfl⟩) (fits_bareLex hclosed) _ hp
        obtain ⟨-, c, u, hc, hspace⟩ := hends
        have hyes := hpspaces c (by rw [hc]; exact List.mem_cons_self)
        exact absurd (hyes.symm.trans hspace) (by decide)
    refine ⟨rfl, hcontents.length, ?_, hblank⟩
    -- without a comment the fragment itself would be blank
    by_contra hnone
    refine htokens.given (blank_iff.mpr fun p hp c hc => ?_)
    have hplain := hblank p.bare (List.mem_map_of_mem hp)
    cases p with
    | plain d =>
      cases List.mem_singleton.mp hc
      exact hplain
    | comment raw => exact absurd ⟨raw, hp⟩ hnone
    | _ => cases hplain

/-- **The guard ignores what stands in the literals of a fragment, and returns what is clean**,
exactly where the tests on the tokens refuse both or the tests that see the literals agree, and the
fragment is not an expression of nothing but comments. -/
theorem guard_iff {sql sql' : List Char} (h : Alike sql sql') :
    ((Accepted L kind sql what ↔ Accepted L kind sql' what) ∧
        ∀ r, guard L kind sql what = .ok r → Clean L kind what r) ↔
      (PassesTokens L kind sql → (PassesContents L kind sql ↔ PassesContents L kind sql')) ∧
        ¬ (kind = .expression ∧ OnlyComments sql) := by
  have htokens : PassesTokens L kind sql ↔ PassesTokens L kind sql' := passesTokens_iff_of_alike h
  refine and_congr ?_ ?_
  · rw [accepted_iff, accepted_iff, ← htokens]
    by_cases hpasses : PassesTokens L kind sql <;> simp [hpasses]
  · constructor
    · rintro hclean ⟨rfl, honly⟩
      have hagain := (hclean [] (honly.guard L what)).again
      exact (guard_eq_ok_iff.mp hagain).1.given rfl
    · intro hnot r hr
      refine clean_of_accepted hr fun hempty => hnot ?_
      rw [hempty] at hr
      exact onlyComments_of_empty hr

/-! ## 13. A literal that reads like a FROM -/

theorem word_of_toLower {p c : Char} (hp : p ∈ identChars) (h : c.toLower = p) :
    (c.isAlphanum || c = '_') = true := by
  have hident : ∀ p ∈ identChars, (p.isAlphanum || p = '_') = true :=
    List.all_eq_true.mp (by decide)
  by_cases hupper : c.isUpper = true
  · have halpha : c.isAlpha = (c.isUpper || c.isLower) := rfl
    simp [Char.isAlphanum, halpha, hupper]
  · have hc : c.toLower = c := dif_neg fun hbounds => hupper (decide_eq_true hbounds)
    rw [hc] at h
    rw [h]
    exact hident p hp

theorem space_not_alphanum {c : Char} (h : isSpace c = true) :
    (c.isAlphanum || c = '_') = false := by
  cases hword : (c.isAlphanum || c = '_' : Bool) with
  | false => rfl
  | true =>
    have hspaces : (9 ≤ c.toNat ∧ c.toNat ≤ 32) ∨ 128 ≤ c.toNat := by
      simp only [isSpace, Bool.or_eq_true, Bool.and_eq_true, decide_eq_true_eq, beq_iff_eq] at h
      omega
    have hletters : 48 ≤ c.toNat ∧ c.toNat ≤ 122 := by
      rcases Bool.or_eq_true _ _ |>.mp hword with halnum | hscore
      · have hranges : ((decide ('A'.val ≤ c.val ∧ c.val ≤ 'Z'.val) ||
            (decide ('a'.val ≤ c.val) && decide (c.val ≤ 'z'.val))) ||
            (decide ('0'.val ≤ c.val) && decide (c.val ≤ '9'.val))) = true := halnum
        simp only [Bool.or_eq_true, Bool.and_eq_true, decide_eq_true_eq,
          UInt32.le_iff_toNat_le] at hranges
        have hval : c.toNat = c.val.toNat := rfl
        have hbounds : ('A'.val.toNat = 65 ∧ 'Z'.val.toNat = 90) ∧ ('a'.val.toNat = 97 ∧
            'z'.val.toNat = 122) ∧ '0'.val.toNat = 48 ∧ '9'.val.toNat = 57 := by decide
        omega
      · cases of_decide_eq_true hscore
        decide
    omega

/-- The letters of ASCII. -/
def ascii : Letters where
  isWord c := c.isAlphanum || c = '_'
  same p c := c.toLower = p
  upper := List.map Char.toUpper
  word_of_same p hp c h := word_of_toLower hp (of_decide_eq_true h)
  space_not_word _ h := space_not_alphanum h
  quote_not_word := by decide

/-- Two comparisons with a literal. -/
theorem alike_from : Alike "x = 'from'".toList "x = 'fram'".toList := by
  have hfrom : lex "x = 'from'".toList =
      [.plain 'x', .plain ' ', .plain '=', .plain ' ', .quoted '\'' "from".toList] := by
    decide +kernel
  have hfram : lex "x = 'fram'".toList =
      [.plain 'x', .plain ' ', .plain '=', .plain ' ', .quoted '\'' "fram".toList] := by
    decide +kernel
  rw [Alike, hfrom, hfram]
  exact .cons (.inl rfl) (.cons (.inl rfl) (.cons (.inl rfl) (.cons (.inl rfl)
    (.cons (.inr ⟨rfl, rfl⟩) .nil))))

theorem guard_iff_from :
    ((Accepted ascii .expression "x = 'from'".toList "Test" ↔
          Accepted ascii .expression "x = 'fram'".toList "Test") ∧
        ∀ r, guard ascii .expression "x = 'from'".toList "Test" = .ok r →
          Clean ascii .expression "Test" r) ↔
      (PassesTokens ascii .expression "x = 'from'".toList →
        (PassesContents ascii .expression "x = 'from'".toList ↔
          PassesContents ascii .expression "x = 'fram'".toList)) ∧
        ¬ (Kind.expression = .expression ∧ OnlyComments "x = 'from'".toList) :=
  guard_iff alike_from

/-- The one literal is refused as a path and the other is not; and a comment alone is accepted,
while what is returned for it is refused. -/
theorem not_ignored_from :
    (Alike "x = 'from'".toList "x = 'fram'".toList ∧
      ¬ Accepted ascii .expression "x = 'from'".toList "Test" ∧
      Accepted ascii .expression "x = 'fram'".toList "Test") ∧
    guard ascii .expression "-- x".toList "Test" = .ok [] ∧
      ¬ Accepted ascii .expression [] "Test" := by
  have hfrom : guard ascii .expression "x = 'from'".toList "Test" =
      .error "Test : lire un fichier n'est pas autorisé." := by decide +kernel
  have hfram : guard ascii .expression "x = 'fram'".toList "Test" = .ok "x = 'fram'".toList := by
    decide +kernel
  have hempty : guard ascii .expression [] "Test" = .error "Test : expression SQL vide." := by
    decide +kernel
  refine ⟨⟨alike_from, ?_, ⟨_, hfram⟩⟩, by decide +kernel, ?_⟩
  · rintro ⟨r, hr⟩
    cases hfrom.symm.trans hr
  · rintro ⟨r, hr⟩
    cases hempty.symm.trans hr

end Apowerb.Bi.SqlGuard
