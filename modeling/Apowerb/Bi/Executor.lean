/-
# A chart query on its way to a database

`bi/data/db_executor.py` checks the text of a query on a copy without comments, and sends the text
itself, put into a SELECT that limits the rows (PostgreSQL and MySQL), or with a TOP of its own put
after its first SELECT (SQL Server).

The patterns ignore the case of letters (`fold`).  A word of a text is a run of letters, digits and
underscores, so that the search for `\b(INSERT|…)\b` is the question which of the words is one of
these.
-/
import Apowerb.Sqlgen.Safety

namespace Apowerb.Bi.Executor

open SqlText

/-! ## 1. Patterns -/

/-- A character as `re.IGNORECASE` compares it with a capital letter of ASCII: the long s, the
Kelvin sign and the two i's, one with a dot and one without, are letters of either case too. -/
def fold (c : Char) : Char :=
  if c.toNat = 0x17f then 'S' else if c.toNat = 0x212a then 'K'
  else if c.toNat = 0x130 ∨ c.toNat = 0x131 then 'I' else c.toUpper

/-- `str.upper` and `\w` on the characters beyond ASCII. -/
structure Env extends Sqlgen.Env where
  /-- what the patterns take for a letter of ASCII is in a word -/
  folded : ∀ c, 128 ≤ c.toNat → (fold c).toNat < 128 → isWordWide c = true

variable (env : Env)

/-- What follows a word with which a text begins. -/
def afterKeyword (kw : String) (cs : List Char) : Option (List Char) :=
  if (cs.take kw.length).map fold = kw.toList then some (cs.drop kw.length) else none

/-- `\b` after a word. -/
def wordEnds (rest : List Char) : Bool := !rest.head?.any env.isWord

/-- `KW\s+KW2\b`: what follows. -/
def afterKeywords (kw kw2 : String) (cs : List Char) : Option (List Char) := do
  let rest ← afterKeyword kw cs
  if rest.head?.any Text.isSpace then
    let rest ← afterKeyword kw2 (rest.dropWhile Text.isSpace)
    if wordEnds env rest then some rest else none
  else none

/-- `\bKW\b`, in a text that may stand after a character of a word: what is before its first
occurrence, and what is after it. -/
def splitKeyword (kw : String) : Bool → List Char → Option (List Char × List Char)
  | _, [] => none
  | inWord, c :: cs =>
    match if inWord then none else (afterKeyword kw (c :: cs)).filter (wordEnds env) with
    | some rest => some ([], rest)
    | none => (splitKeyword kw (env.isWord c) cs).map fun (before, rest) => (c :: before, rest)

/-! ## 2. Comments -/

/-- How many characters it takes to close a block comment. -/
def blockEnd : List Char → Option Nat
  | [] => none
  | c :: cs => if c = '*' ∧ cs.head? = some '/' then some 2 else (blockEnd cs).map (· + 1)

/-- `_BLOCK_COMMENT_RE.sub(" ", query)`, where some characters are of a comment already. -/
def stripBlocks : Nat → List Char → List Char
  | _, [] => []
  | n + 1, _ :: cs => stripBlocks n cs
  | 0, c :: cs =>
    match if c = '/' ∧ cs.head? = some '*' then blockEnd cs.tail else none with
    | some n => ' ' :: stripBlocks (n + 1) cs
    | none => c :: stripBlocks 0 cs

/-- `_LINE_COMMENT_RE.sub(" ", query)`, in a comment already or not. -/
def stripLines : Bool → List Char → List Char
  | _, [] => []
  | true, c :: cs => if c = '\n' then c :: stripLines false cs else stripLines true cs
  | false, c :: cs =>
    if c = '-' ∧ cs.head? = some '-' then ' ' :: stripLines true cs else c :: stripLines false cs

/-- `_strip_comments`. -/
def stripComments (query : List Char) : List Char := stripLines false (stripBlocks 0 query)

/-! ## 3. What is checked -/

/-- `_FORBIDDEN_KEYWORDS`. -/
def forbiddenKeywords : List String :=
  ["INSERT", "UPDATE", "DELETE", "DROP", "ALTER", "CREATE", "TRUNCATE", "EXEC", "EXECUTE", "GRANT",
    "REVOKE", "CALL", "SET", "REPLACE", "LOAD", "COPY", "VACUUM", "ANALYZE", "EXPLAIN"]

/-- Whether a word is one of these. -/
def isForbidden (w : List Char) : Bool := forbiddenKeywords.any fun kw => w.map fold = kw.toList

/-- `_FORBIDDEN_RE.search(cleaned)`. -/
def forbiddenWord (cleaned : List Char) : Option (List Char) :=
  (env.tokens cleaned).findSome? fun
    | .word w => if isForbidden w then some w else none
    | .sym _ => none

/-- `parts`. -/
def statements (cleaned : List Char) : List (List Char) :=
  ((cleaned.splitOn ';').map Text.stripChars).filter (· ≠ [])

/-- `validate_query`. -/
def validateQuery (query : List Char) : Except String Unit :=
  let cleaned := stripComments query
  if "SELECT".toList.isPrefixOf (env.up (Text.stripChars cleaned)) then
    match forbiddenWord env cleaned with
    | some w =>
      .error ("Query rejected: '" ++ String.ofList w ++
        "' statements are not allowed. Only SELECT queries are permitted.")
    | none =>
      if 1 < (statements cleaned).length then
        .error ("Query rejected: multiple statements are not allowed. " ++
          "Only a single SELECT query is permitted.")
      else .ok ()
  else .error "Query rejected: only SELECT queries are permitted."

/-! ## 4. What is sent -/

inductive DbType
  | postgresql
  | mysql
  | mssql
  deriving DecidableEq

/-- `query.rstrip().rstrip(";")`. -/
def cleanQuery (query : List Char) : List Char :=
  (query.rdropWhile Text.isSpace).rdropWhile (· = ';')

/-- `SELECT * FROM ({clean_query}) AS _q LIMIT {limit}`. -/
def wrapped (query : List Char) (limit : Nat) : List Char :=
  "SELECT * FROM (".toList ++ cleanQuery query ++ ") AS _q LIMIT ".toList ++ Nat.toDigits 10 limit

/-- `SELECT TOP {limit}`. -/
def selectTop (limit : Nat) : List Char := "SELECT TOP ".toList ++ Nat.toDigits 10 limit

/-- `^\s*SELECT\s+TOP\b`. -/
def startsTop (query : List Char) : Bool :=
  (afterKeywords env "SELECT" "TOP" (query.dropWhile Text.isSpace)).isSome

/-- `^\s*WITH\b`. -/
def startsWith (query : List Char) : Bool :=
  (afterKeyword "WITH" (query.dropWhile Text.isSpace)).any (wordEnds env)

/-- `\bORDER\s+BY\b[^()]*$`, in a text that may stand after a character of a word. -/
def endsOrdered : Bool → List Char → Bool
  | _, [] => false
  | inWord, c :: cs =>
    (!inWord && (afterKeywords env "ORDER" "BY" (c :: cs)).any fun rest =>
      '(' ∉ rest && ')' ∉ rest) || endsOrdered (env.isWord c) cs

/-- The text that `_run_mssql` sends. -/
def topped (query : List Char) (limit : Nat) : List Char :=
  let clean := Text.stripChars (cleanQuery query)
  if startsTop env clean then clean
  else if startsWith env clean then
    if endsOrdered env false clean then
      clean ++ " OFFSET 0 ROWS FETCH NEXT ".toList ++ Nat.toDigits 10 limit ++ " ROWS ONLY".toList
    else selectTop limit ++ " * FROM (".toList ++ clean ++ ") AS _q".toList
  else
    match splitKeyword env "SELECT" false clean with
    | some (before, rest) => before ++ selectTop limit ++ rest
    | none => clean

/-- The text that is sent to a database. -/
def sent (db : DbType) (query : List Char) (limit : Nat) : List Char :=
  match db with
  | .postgresql | .mysql => wrapped query limit
  | .mssql => topped env query limit

/-- What `run` reads of a `DataSource`. -/
structure DataSource where
  query : String
  limit : Option Nat

/-- `min(source.limit or self._max_rows, self._max_rows)`. -/
def rowLimit (source : DataSource) (maxRows : Nat) : Nat :=
  min (match source.limit with
    | none | some 0 => maxRows
    | some n => n) maxRows

/-- `run`, up to the text that is sent. -/
def run (db : DbType) (source : DataSource) (maxRows : Nat) : Except String (List Char) := do
  let query := Text.stripChars source.query.toList
  validateQuery env query
  return sent env db query (rowLimit source maxRows)

end Apowerb.Bi.Executor
