/-
# What may be sent to a database

`sqlgen/safety.py` lets a query pass if it is one statement that only reads.  Its text is read once,
with comments, literals and quoted names set aside, in two views (`views`): in the view of keywords a
quoted name leaves its quotes, in the view of functions what it says.

A word of a view is a run of letters, digits and underscores, so that the search for `\bDROP\b` is
the question whether DROP is one of the words, and that for `\bSLEEP\s*\(` whether the word SLEEP
stands before a parenthesis.
-/
import Apowerb.Lib.SqlText
import Apowerb.Text

namespace Apowerb.Sqlgen

open SqlText

/-! ## 1. The tables -/

/-- `_FORBIDDEN`. -/
def forbidden : List String :=
  ["DROP", "DELETE", "UPDATE", "INSERT", "ALTER", "CREATE", "TRUNCATE", "GRANT", "REVOKE", "EXEC",
    "EXECUTE", "INTO", "WAITFOR"]

/-- A pattern of `_FORBIDDEN_FUNCTIONS`: a name, or one that may or must go on (`\w*`, `\w+`). -/
inductive Pattern
  | exactly (s : String)
  | star (s : String)
  | plus (s : String)

def Pattern.fits (w : List Char) : Pattern → Bool
  | .exactly s => w = s.toList
  | .star s => s.toList.isPrefixOf w
  | .plus s => s.toList.isPrefixOf w && s.length < w.length

/-- `_FORBIDDEN_FUNCTIONS`. -/
def forbiddenFunctions : List Pattern :=
  [.star "PG_SLEEP", .exactly "SLEEP", .exactly "BENCHMARK", .plus "PG_READ_", .exactly "PG_LS_DIR",
    .exactly "PG_STAT_FILE", .star "DBLINK", .exactly "PG_TERMINATE_BACKEND",
    .exactly "PG_CANCEL_BACKEND", .exactly "SET_CONFIG", .plus "LO_", .exactly "PG_RELOAD_CONF",
    .exactly "PG_ROTATE_LOGFILE", .exactly "PG_LOGDIR_LS", .plus "PG_FILE_", .plus "PG_ADVISORY_",
    .plus "PG_TRY_ADVISORY_", .exactly "NEXTVAL", .exactly "SETVAL"]

/-! ## 2. Characters -/

/-- `str.upper` and `\w` on the characters beyond ASCII. -/
structure Env where
  upperWide : Char → List Char
  isWordWide : Char → Bool
  /-- white space is in no word -/
  space : ∀ c, Text.isSpace c = true → isWordWide c = false

variable (env : Env)

/-- `str.upper` on one character. -/
def Env.upper (c : Char) : List Char :=
  if c.toNat < 128 then [c.toUpper] else env.upperWide c

/-- `\w`. -/
def Env.isWord (c : Char) : Bool :=
  if c.toNat < 128 then c.isAlphanum || c = '_' else env.isWordWide c

def Env.up (cs : List Char) : List Char := cs.flatMap env.upper

/-- The words of a text, and what stands between them. -/
def Env.tokens (cs : List Char) : List Token := SqlText.tokens env.isWord Text.isSpace cs

/-! ## 3. The two views -/

/-- `_UNMODELLED_QUOTING`: a dollar quote, a back quote, or `/*!`. -/
def unmodelled (cs : List Char) : Bool :=
  cs.tails.any fun
    | [] => false
    | c :: rest =>
      (c = '$' && (rest.dropWhile env.isWord).head? = some '$') || c = backquote ||
        ['/', '*', '!'].isPrefixOf (c :: rest)

/-- Whether a square bracket may be passed, given what follows it: it is closed, by one that is not
doubled, and no quote and no comment begins before that. -/
def bracketPasses (cs : List Char) : Bool :=
  let span := cs.takeWhile (· ≠ ']')
  match cs.dropWhile (· ≠ ']') with
  | [] => false
  | _ :: rest =>
    rest.head? ≠ some ']' && span.all (fun c => c ≠ '\'' && c ≠ '"') &&
      span.tails.all fun t => !(['-', '-'].isPrefixOf t) && !(['/', '*'].isPrefixOf t)

/-- Where the loop of `_views` stands: in the text, before a character that was looked at already, or
in something that was opened. -/
inductive Place
  | text
  | skip (after : Place)
  | line
  | block
  | literal
  | name (body : List Char)

/-- What is appended to both views. -/
def append (k f : List Char) (rest : Option (List Char × List Char)) :
    Option (List Char × List Char) := rest.map fun (ks, fs) => (k ++ ks, f ++ fs)

/-- The loop of `_views`: the keywords and the functions, none where the text cannot be read. -/
def views : Place → List Char → Option (List Char × List Char)
  | .text, [] => some ([], [])
  | .line, [] => some ([], [])
  | _, [] => none
  | .skip p, _ :: cs => views p cs
  | .text, c :: cs =>
    if c = '#' then none
    else if c = '-' ∧ cs.head? = some '-' then append [' '] [' '] (views (.skip .line) cs)
    else if c = '/' ∧ cs.head? = some '*' then append [' '] [' '] (views (.skip .block) cs)
    else if c = '[' ∧ bracketPasses cs = false then none
    else if c = '\'' then views .literal cs
    else if c = '"' then views (.name []) cs
    else append [c] [c] (views .text cs)
  | .line, c :: cs => if c = '\n' ∨ c = '\r' then views .text cs else views .line cs
  | .block, c :: cs =>
    if c = '*' ∧ cs.head? = some '/' then views (.skip .text) cs else views .block cs
  | .literal, c :: cs =>
    if c = '\'' then
      if cs.head? = some '\'' then views (.skip .literal) cs
      else append ['\'', '\''] ['\'', '\''] (views .text cs)
    else if c = '\\' then none
    else views .literal cs
  | .name body, c :: cs =>
    if c = '"' then append ['"', '"'] body.reverse (views .text cs)
    else views (.name (c :: body)) cs

/-! ## 4. The checks -/

/-- What is called: the words before an opening parenthesis. -/
def called : List Token → List (List Char)
  | .word w :: .sym '(' :: rest => w :: called (.sym '(' :: rest)
  | _ :: rest => called rest
  | [] => []

/-- `_LOCKING_CLAUSE`. -/
def locks : List Token → Bool
  | .word w :: rest =>
    (w = "FOR".toList && match rest with
      | .word w' :: rest' =>
        w' = "SHARE".toList ||
          (w' = "KEY".toList && rest'.head? = some (.word "SHARE".toList))
      | _ => false) || locks rest
  | _ :: rest => locks rest
  | [] => false

/-- `";" in view.strip().rstrip(";")`. -/
def manyStatements (view : List Char) : Bool :=
  ';' ∈ (Text.stripChars view).rdropWhile (· = ';')

/-- Whether a text begins with SELECT or WITH. -/
def selects (ts : List Token) : Bool :=
  ts.head? = some (.word "SELECT".toList) || ts.head? = some (.word "WITH".toList)

/-- `validate_sql_safety`: the error, if there is one.  The text of that about a function names the
word that was found. -/
def validateSqlSafety (sql : String) : Option String :=
  if unmodelled env sql.toList then
    some "Query uses quoting or comments that cannot be checked safely"
  else
    match views .text sql.toList with
    | none => some "Query uses quoting or comments that cannot be checked safely"
    | some (k, f) =>
      let keywords := env.tokens (env.up k)
      let calls := called (env.tokens (env.up f))
      if manyStatements (env.up k) then some "Multi-statement queries are not allowed"
      else match forbidden.find? fun kw => .word kw.toList ∈ keywords with
        | some kw => some ("Query contains forbidden operation: " ++ kw)
        | none =>
          match forbiddenFunctions.findSome? fun p => calls.find? p.fits with
          | some name => some ("Query calls a forbidden function: " ++ String.ofList name)
          | none =>
            if locks keywords then
              some "Row-locking clauses (FOR SHARE, FOR KEY SHARE) are not allowed"
            else if selects keywords then none
            else some "Only SELECT (or WITH ... SELECT) queries are allowed"

end Apowerb.Sqlgen
