/-
# The query that a database receives

What is sent of a chart query that passes the check is to be one SELECT that returns no more rows
than it may (`OneSelect`).  It is not, where what was checked is not what is sent:

* the check takes `--` and `/*` for comments in literals and in quoted names too, where they hide
  what follows; MySQL takes some dashes for no comment, reads `#` for one, and runs some;
* semicolons at the end of the query are taken off only where nothing stands between them;
* a comment at the end of the query takes the limit with it, and a parenthesis that closes the one
  before the query puts the limit elsewhere;
* in SQL Server, the first SELECT may stand in a comment, or be part of a UNION, a TOP of the
  query's own may be any number, and statements need no semicolon between them.

`Straight` excludes these, and `oneSelect_of_run` is the rest.
-/
import Apowerb.Bi.Executor
import Apowerb.Lib.Except
import Apowerb.Sqlgen.Readings
import Mathlib.Data.Bool.AllAny

namespace Apowerb.Bi.Executor

open SqlText Sqlgen

/-! ## 1. One SELECT -/

def dialect : DbType → Dialect
  | .postgresql => postgres
  | .mysql => SqlText.mysql
  | .mssql => sqlServer

def capital (w : List Char) : List Char := w.map Char.toUpper

/-- A comment that MySQL runs, or MariaDB. -/
def isRun (db : DbType) : Piece → Bool
  | .comment _ raw => db = .mysql && ("/*!".toList.isPrefixOf raw || "/*M!".toList.isPrefixOf raw)
  | .text _ | .literal _ | .name _ _ _ _ => false

/-- The words outside of parentheses, some of which are open already. -/
def outer : Nat → List Token → List (List Char)
  | _, [] => []
  | k, .word w :: ts => if k = 0 then w :: outer k ts else outer k ts
  | k, .sym c :: ts =>
    outer (if c = '(' then k + 1 else if c = ')' then k - 1 else k) ts

/-- The words that begin a statement of SQL Server, and after which words they do not. -/
def beginners : List (String × List String) :=
  [("SELECT", ["EXCEPT", "INTERSECT"]), ("FETCH", ["ROW", "ROWS"]), ("BACKUP", []), ("BEGIN", []),
    ("BREAK", []), ("BULK", []), ("CHECKPOINT", []), ("CLOSE", []), ("COMMIT", []),
    ("CONTINUE", []), ("DBCC", []), ("DEALLOCATE", []), ("DECLARE", []), ("DENY", []), ("DUMP", []),
    ("GOTO", []), ("IF", []), ("KILL", []), ("LINENO", []), ("OPEN", []), ("PRINT", []),
    ("RAISERROR", []), ("READTEXT", []), ("RECONFIGURE", []), ("RESTORE", []), ("RETURN", []),
    ("REVERT", []), ("ROLLBACK", []), ("SAVE", []), ("SETUSER", []), ("SHUTDOWN", []),
    ("UPDATETEXT", []), ("USE", []), ("WAITFOR", []), ("WHILE", []), ("WRITETEXT", [])]

def begins (before w : List Char) : Bool :=
  beginners.any fun (kw, after) =>
    w.map fold = kw.toList && after.all fun a => capital before ≠ a.toList

/-- No word begins a statement, but for the first. -/
def lone : List (List Char) → Bool
  | a :: b :: ws => !begins a b && lone (b :: ws)
  | _ => true

def number? (w : List Char) : Option Nat := if w.all isDigit then Text.digits? w else none

/-- `SELECT TOP n` or `SELECT TOP (n)`: the number, and what follows. -/
def topRows : List Token → Option (Nat × List Token)
  | .word a :: .word b :: ts =>
    if capital a = "SELECT".toList ∧ capital b = "TOP".toList then
      match ts with
      | .word m :: rest => (number? m).map (·, rest)
      | .sym '(' :: .word m :: .sym ')' :: rest => (number? m).map (·, rest)
      | _ => none
    else none
  | _ => none

/-- The number of rows ends before this, and is neither a percentage nor goes on with the ties. -/
def isExact : List Token → Bool
  | .word w :: _ => capital w ≠ "PERCENT".toList && capital w ≠ "WITH".toList
  | .sym c :: _ => c ≠ '.'
  | [] => true

/-- What is read begins with SELECT. -/
def Selects (ts : List Token) : Prop :=
  ∃ w rest, ts = .word w :: rest ∧ capital w = "SELECT".toList

/-- No more than a number of rows is returned. -/
def Capped (db : DbType) (limit : Nat) (ts : List Token) : Prop :=
  match db with
  | .postgresql | .mysql => [.word "LIMIT".toList, .word (Nat.toDigits 10 limit)] <:+ ts
  | .mssql =>
    (∃ n rest, topRows ts = some (n, rest) ∧ n ≤ limit ∧ isExact rest = true) ∧
      ∀ w ∈ outer 0 ts, capital w ≠ "UNION".toList

/-- What is read is one SELECT, without a forbidden word, and limited as a whole. -/
structure OneSelect (env : Env) (db : DbType) (limit : Nat) (R : List Piece) : Prop where
  comments : ∀ p ∈ R, isRun db p = false
  single : .sym ';' ∉ env.tokens (R.flatMap outside)
  lone : db = .mssql → lone (outer 0 (env.tokens (R.flatMap outside))) = true
  selects : Selects (env.tokens (R.flatMap outside))
  keywords : ∀ w, .word w ∈ env.tokens (R.flatMap outside) →
    ∀ kw ∈ forbiddenKeywords, capital w ≠ kw.toList
  balanced : depth 0 (env.tokens (R.flatMap outside)) = some 0
  capped : Capped db limit (env.tokens (R.flatMap outside))

/-! ## 2. Straight queries -/

/-- The query as it is put into the text that is sent. -/
def clean (db : DbType) (query : List Char) : List Char :=
  match db with
  | .postgresql | .mysql => cleanQuery query
  | .mssql => Text.stripChars (cleanQuery query)

/-- No comment that goes on after the text. -/
def isEnded : Piece → Bool
  | .comment ended _ => ended
  | .text _ | .literal _ | .name _ _ _ _ => true

/-- A blank, or a comment that has ended. -/
def isBetween : Piece → Bool
  | .text c => Text.isSpace c
  | .comment ended _ => ended
  | .literal _ | .name _ _ _ _ => false

/-- The first SELECT of a text is the one it begins with, after blanks and comments, and what
follows it does not belong to a TOP. -/
def Placed (env : Env) (query : List Char) (ts : List Token) : Prop :=
  ∃ before rest X, splitKeyword env "SELECT" false query = some (before, rest) ∧
    reading sqlServer before = some X ∧ (∀ p ∈ X, isBetween p = true) ∧ isExact ts.tail = true

/-- What the query must be for the text it is put into. -/
def Fits (env : Env) (db : DbType) (limit : Nat) (query : List Char) (R : List Piece)
    (ts : List Token) : Prop :=
  match db with
  | .postgresql | .mysql => depth 1 ts = some 1 ∧ ∀ p ∈ R, isEnded p = true
  | .mssql =>
    depth 0 ts = some 0 ∧ lone (outer 0 ts) = true ∧
      (∀ w ∈ outer 0 ts, capital w ≠ "UNION".toList) ∧
      if startsTop env query then
        ∃ n rest, topRows ts = some (n, rest) ∧ n ≤ limit ∧ isExact rest = true
      else Placed env query ts

/-- A query that the database reads as the check does: all that is opened in it is closed, what the
database reads outside of comments, but for quotes, stands in the copy that was checked, and there
is no semicolon but those that are taken off. -/
structure Straight (env : Env) (db : DbType) (limit : Nat) (query : List Char) (R : List Piece) :
    Prop where
  read : reading (dialect db) query = some R
  comments : ∀ p ∈ R, isRun db p = false
  seen : ∀ t ∈ env.tokens (R.flatMap outside), t ∉ [.sym '\'', .sym '"'] →
    t ∈ env.tokens (stripComments query)
  ends : ';' ∉ stripComments query
  fits : Fits env db limit query R (env.tokens (R.flatMap outside))

/-! ## 3. Letters and digits -/

theorem fold_of_capital {c : Char} (h : c.toUpper.toNat < 128) : fold c = c.toUpper := by
  have hwide (n : Nat) (hn : n ∈ [0x17f, 0x212a, 0x130, 0x131]) : c.toNat ≠ n := by
    intro hc
    have hall : ∀ n ∈ [0x17f, 0x212a, 0x130, 0x131], ¬ (Char.ofNat n).toUpper.toNat < 128 := by
      decide
    rw [← hc] at hn
    have hnot := hall c.toNat hn
    rw [Char.ofNat_toNat] at hnot
    exact hnot h
  unfold fold
  rw [if_neg (hwide _ (by decide)), if_neg (hwide _ (by decide)),
    if_neg (not_or.mpr ⟨hwide _ (by decide), hwide _ (by decide)⟩)]

/-- A word of ASCII in capitals is one that the patterns find. -/
theorem fold_of_capital_eq {w : List Char} {s : String} (hs : s.toList.all (fun c => decide (c.toNat < 128)) = true)
    (h : capital w = s.toList) : w.map fold = s.toList := by
  rw [← h]
  refine List.map_congr_left fun c hc => fold_of_capital (List.all_iff_forall_prop.mp hs _ ?_)
  rw [← h]
  exact List.mem_map_of_mem hc

/-- What the patterns take for a letter of SELECT is in a word. -/
theorem isWord_of_select {env : Env} {c : Char} (h : fold c ∈ "SELECT".toList) :
    env.isWord c = true := by
  unfold Sqlgen.Env.isWord
  split
  · next hlow =>
    have hall : ∀ n : Fin 128, fold (Char.ofNat n) ∈ "SELECT".toList →
        ((Char.ofNat n).isAlphanum || Char.ofNat n = '_') = true := by
      decide +kernel
    have hc := hall ⟨c.toNat, hlow⟩
    rw [Char.ofNat_toNat] at hc
    exact hc h
  · next hwide =>
    have hlow : ∀ k ∈ "SELECT".toList, k.toNat < 128 := List.all_iff_forall_prop.mp (by decide)
    exact env.folded c (by omega) (hlow _ h)

theorem isOrdinary_of_fold {c : Char} (h : (fold c).isAlpha = true) : isOrdinary c = true :=
  isOrdinary_of (p := fun c => (fold c).isAlpha) (by decide) h

theorem isAlpha_of_select {c : Char} (h : fold c ∈ "SELECT".toList) : (fold c).isAlpha = true := by
  have hall : ∀ k ∈ "SELECT".toList, k.isAlpha = true := List.all_eq_true.mp (by decide)
  exact hall _ h

theorem isOrdinary_of_space {c : Char} (h : Text.isSpace c = true) : isOrdinary c = true :=
  isOrdinary_of (by decide) h

theorem isOrdinary_of_digit {c : Char} (h : isDigit c = true) : isOrdinary c = true :=
  isOrdinary_of (by decide) h

theorem isDigit_lt {c : Char} (h : isDigit c = true) : c.toNat < 128 := by
  simp only [isDigit, Bool.and_eq_true, decide_eq_true_eq] at h
  have hle : c.toNat ≤ '9'.toNat := h.2
  exact Nat.lt_of_le_of_lt hle (by decide)

/-- A digit is the same in capitals. -/
theorem digit_fixed {c : Char} (h : isDigit c = true) : fold c = c ∧ c.toUpper = c := by
  have hall : ∀ n : Fin 128, isDigit (Char.ofNat n) = true →
      fold (Char.ofNat n) = Char.ofNat n ∧ (Char.ofNat n).toUpper = Char.ofNat n := by
    decide +kernel
  have hc := hall ⟨c.toNat, isDigit_lt h⟩
  rw [Char.ofNat_toNat] at hc
  exact hc h

/-- A number is no word. -/
theorem number_ne {w : List Char} (hw : ∀ c ∈ w, isDigit c = true) {s : String}
    (hs : s.toList.all isDigit = false) : capital w ≠ s.toList ∧ w.map fold ≠ s.toList := by
  have hcapital : capital w = w :=
    (List.map_congr_left fun c hc => (digit_fixed (hw c hc)).2).trans (List.map_id w)
  have hfold : w.map fold = w :=
    (List.map_congr_left fun c hc => (digit_fixed (hw c hc)).1).trans (List.map_id w)
  have hne : w ≠ s.toList := by
    rintro rfl
    rw [List.all_eq_true.mpr hw] at hs
    cases hs
  rw [hcapital, hfold]
  exact ⟨hne, hne⟩

theorem isDigit_of_mem {n : Nat} {c : Char} (hc : c ∈ Nat.toDigits 10 n) : isDigit c = true := by
  have h := Nat.isDigit_of_mem_toDigits (by decide) (by decide) hc
  exact h

theorem number?_toDigits (n : Nat) : number? (Nat.toDigits 10 n) = some n := by
  unfold number?
  rw [if_pos (List.all_eq_true.mpr fun c hc => isDigit_of_mem hc), Text.digits?_toDigits]

theorem isWord_digit {env : Env} {c : Char} (h : isDigit c = true) : env.isWord c = true := by
  have hall : ∀ n : Fin 128, isDigit (Char.ofNat n) = true →
      (Char.ofNat n).isAlphanum = true := by
    decide +kernel
  have hlow := isDigit_lt h
  have hc := hall ⟨c.toNat, hlow⟩
  rw [Char.ofNat_toNat] at hc
  unfold Sqlgen.Env.isWord
  rw [if_pos hlow, hc h, Bool.true_or]

/-! ## 4. The copy that was checked -/

/-- White space and semicolons, which are taken off. -/
def isTail (c : Char) : Bool := Text.isSpace c || c = ';'

section
variable {s : List Char} (hs : ∀ c ∈ s, isTail c = true)
include hs

theorem head?_tail {k : Char} (hk : isTail k = false) (t : List Char) :
    (t ++ s).head? = some k ↔ t.head? = some k := by
  cases t with
  | nil =>
    refine ⟨fun h => ?_, nofun⟩
    rw [hs k (List.mem_of_mem_head? h)] at hk
    cases hk
  | cons c t => rfl

theorem blockEnd_append (t : List Char) : blockEnd (t ++ s) = blockEnd t := by
  induction t with
  | nil =>
    have hnone (r : List Char) (hr : '*' ∉ r) : blockEnd r = none := by
      induction r with
      | nil => rfl
      | cons c r ih =>
        have hc : ¬ (c = '*' ∧ r.head? = some '/') := fun hc => hr (hc.1 ▸ List.mem_cons_self)
        rw [blockEnd, if_neg hc, ih fun hmem => hr (List.mem_cons_of_mem _ hmem)]
        rfl
    exact hnone s fun hmem => absurd (hs _ hmem) (by decide)
  | cons c t ih =>
    simp only [List.cons_append, blockEnd, head?_tail hs (k := '/') (by decide), ih]

theorem blockEnd_tail (cs : List Char) :
    (if (cs ++ s).head? = some '*' then blockEnd (cs ++ s).tail else none) =
      if cs.head? = some '*' then blockEnd cs.tail else none := by
  cases cs with
  | nil =>
    rw [if_neg fun h => absurd ((head?_tail hs (by decide) []).mp h) nofun]
    rfl
  | cons c cs => rw [List.cons_append, List.tail_cons, List.tail_cons, blockEnd_append hs]; rfl

omit hs in
theorem blockEnd_le {t : List Char} {n : Nat} (h : blockEnd t = some n) : n ≤ t.length := by
  induction t generalizing n with
  | nil => cases h
  | cons c t ih =>
    rw [blockEnd] at h
    split at h
    · next hclose =>
      cases h
      cases t with
      | nil => cases hclose.2
      | cons => simp
    · obtain ⟨k, hk, rfl⟩ := Option.map_eq_some_iff.mp h
      exact Nat.succ_le_succ (ih hk)

theorem stripBlocks_append (n : Nat) (q : List Char) (hn : n ≤ q.length) :
    stripBlocks n (q ++ s) = stripBlocks n q ++ s := by
  induction q generalizing n with
  | nil =>
    obtain rfl : n = 0 := Nat.le_zero.mp hn
    have hself (r : List Char) (hr : '/' ∉ r) : stripBlocks 0 r = r := by
      induction r with
      | nil => rfl
      | cons c r ih =>
        have hc : ¬ (c = '/' ∧ r.head? = some '*') := fun hc => hr (hc.1 ▸ List.mem_cons_self)
        rw [stripBlocks, if_neg hc]
        exact congrArg (c :: ·) (ih fun hmem => hr (List.mem_cons_of_mem _ hmem))
    exact hself s fun hmem => absurd (hs _ hmem) (by decide)
  | cons c q ih =>
    cases n with
    | succ n => exact ih n (Nat.le_of_succ_le_succ hn)
    | zero =>
      have hopen : (if c = '/' ∧ (q ++ s).head? = some '*' then blockEnd (q ++ s).tail else none) =
          if c = '/' ∧ q.head? = some '*' then blockEnd q.tail else none := by
        have htail := blockEnd_tail hs q
        by_cases hc : c = '/'
        · simpa only [hc, true_and] using htail
        · simp only [hc, false_and, if_false]
      rw [List.cons_append, stripBlocks, stripBlocks, hopen]
      split
      · next k hk =>
        split at hk
        · next hstar =>
          have hlength := blockEnd_le hk
          cases q with
          | nil => cases hstar.2
          | cons c' q => exact congrArg (' ' :: ·) (ih (k + 1) (Nat.succ_le_succ hlength))
        · cases hk
      · exact congrArg (c :: ·) (ih 0 (Nat.zero_le _))

theorem stripLines_append (b : Bool) (q : List Char) :
    ∃ s', stripLines b (q ++ s) = stripLines b q ++ s' ∧ ∀ c ∈ s', c ∈ s := by
  induction q generalizing b with
  | nil =>
    refine ⟨stripLines b s, by cases b <;> rfl, ?_⟩
    have hdash : '-' ∉ s := fun hmem => absurd (hs _ hmem) (by decide)
    clear hs
    induction s generalizing b with
    | nil => cases b <;> exact fun c hc => hc
    | cons a s ih =>
      have hrest (b : Bool) (c : Char) (hc : c ∈ stripLines b s) : c ∈ a :: s :=
        List.mem_cons_of_mem _ (ih b (fun hmem => hdash (List.mem_cons_of_mem _ hmem)) c hc)
      have hcons (b : Bool) (c : Char) (hc : c ∈ a :: stripLines b s) : c ∈ a :: s := by
        rcases List.mem_cons.mp hc with rfl | hc
        · exact List.mem_cons_self
        · exact hrest b c hc
      have ha : ¬ (a = '-' ∧ s.head? = some '-') := fun ha => hdash (ha.1 ▸ List.mem_cons_self)
      cases b with
      | true =>
        rw [stripLines]
        split
        · exact hcons false
        · exact hrest true
      | false =>
        rw [stripLines, if_neg ha]
        exact hcons false
  | cons c q ih =>
    cases b with
    | true =>
      simp only [List.cons_append, stripLines]
      split
      · obtain ⟨s', hs', hmem⟩ := ih false
        exact ⟨s', by rw [hs']; rfl, hmem⟩
      · exact ih true
    | false =>
      simp only [List.cons_append, stripLines, head?_tail hs (k := '-') (by decide)]
      split
      · obtain ⟨s', hs', hmem⟩ := ih true
        exact ⟨s', by rw [hs']; rfl, hmem⟩
      · obtain ⟨s', hs', hmem⟩ := ih false
        exact ⟨s', by rw [hs']; rfl, hmem⟩

/-- What is taken off the end of a query is at the end of the copy, or in a comment. -/
theorem stripComments_append (q : List Char) :
    ∃ s', stripComments (q ++ s) = stripComments q ++ s' ∧ ∀ c ∈ s', isTail c = true := by
  unfold stripComments
  rw [stripBlocks_append hs 0 q (Nat.zero_le _)]
  obtain ⟨s', hs', hmem⟩ := stripLines_append hs false (stripBlocks 0 q)
  exact ⟨s', hs', fun c hc => hs c (hmem c hc)⟩

end

theorem stripComments_blanks {p : List Char} (hp : ∀ c ∈ p, Text.isSpace c = true)
    (y : List Char) : stripComments (p ++ y) = p ++ stripComments y := by
  induction p with
  | nil => rfl
  | cons c p ih =>
    have hc := hp c List.mem_cons_self
    have hslash : c ≠ '/' := by
      rintro rfl
      exact absurd hc (by decide)
    have hdash : c ≠ '-' := by
      rintro rfl
      exact absurd hc (by decide)
    have hrest := ih fun c' hc' => hp c' (List.mem_cons_of_mem _ hc')
    unfold stripComments at hrest ⊢
    simp only [List.cons_append, stripBlocks, hslash, hdash, false_and, if_false, stripLines, hrest]

/-- What is taken off a query. -/
theorem clean_parts (db : DbType) (query : List Char) :
    ∃ p s, query = p ++ (clean db query ++ s) ∧ (∀ c ∈ p, Text.isSpace c = true) ∧
      ∀ c ∈ s, isTail c = true := by
  have hspace {c : Char} (hc : Text.isSpace c = true) : isTail c = true := by
    unfold isTail
    rw [hc, Bool.true_or]
  have hsemi {c : Char} (hc : c = ';') : isTail c = true := by
    rw [hc]
    rfl
  let taken :=
    (query.rdropWhile Text.isSpace).rtakeWhile (· = ';') ++ query.rtakeWhile Text.isSpace
  have hquery : query = cleanQuery query ++ taken := by
    unfold cleanQuery taken
    rw [← List.append_assoc, List.rdropWhile_append_rtakeWhile, List.rdropWhile_append_rtakeWhile]
  have htail (c : Char) (hc : c ∈ taken) : isTail c = true := by
    rcases List.mem_append.mp hc with hc | hc
    · exact hsemi (by simpa using List.mem_rtakeWhile_imp hc)
    · exact hspace (List.mem_rtakeWhile_imp hc)
  cases db with
  | postgresql | mysql => exact ⟨[], _, hquery, nofun, htail⟩
  | mssql =>
    let start := (cleanQuery query).dropWhile Text.isSpace
    have hclean : cleanQuery query = (cleanQuery query).takeWhile Text.isSpace ++
        (Text.stripChars (cleanQuery query) ++ start.rtakeWhile Text.isSpace) := by
      unfold Text.stripChars
      rw [List.rdropWhile_append_rtakeWhile, List.takeWhile_append_dropWhile]
    refine ⟨(cleanQuery query).takeWhile Text.isSpace, start.rtakeWhile Text.isSpace ++ taken,
      ?_, fun c hc => List.mem_takeWhile_imp hc, fun c hc => ?_⟩
    · conv_lhs => rw [hquery, hclean]
      simp only [List.append_assoc]
      rfl
    · rcases List.mem_append.mp hc with hc | hc
      · exact hspace (List.mem_rtakeWhile_imp hc)
      · exact htail c hc

variable {env : Env}

/-- The words of the copy of what is sent are among those that were checked. -/
theorem words_clean {db : DbType} {query w : List Char}
    (hw : .word w ∈ env.tokens (stripComments (clean db query))) :
    .word w ∈ env.tokens (stripComments query) := by
  obtain ⟨p, s, hquery, hp, hs⟩ := clean_parts db query
  obtain ⟨s', hs', htail⟩ := stripComments_append hs (clean db query)
  have hhead (c : Char) (hc : c ∈ s'.head?) : env.isWord c = false := by
    have hc := htail c (List.mem_of_mem_head? hc)
    simp only [isTail, Bool.or_eq_true, decide_eq_true_eq] at hc
    rcases hc with hc | rfl
    · exact isWord_of_space env.toEnv hc
    · rfl
  conv => rw [hquery]
  rw [stripComments_blanks hp, hs', tokens_blank hp, Sqlgen.Env.tokens, tokens_append hhead]
  exact List.mem_append_left _ hw

/-- What the check lets pass. -/
theorem unforbidden {query : List Char} (h : validateQuery env query = .ok ()) {w : List Char}
    (hw : .word w ∈ env.tokens (stripComments query)) : isForbidden w = false := by
  unfold validateQuery at h
  dsimp only at h
  split at h
  · split at h
    · cases h
    · next hnone =>
      have hword := List.findSome?_eq_none_iff.mp hnone _ hw
      dsimp only at hword
      split at hword
      · cases hword
      · next hw => simpa using hw
  · cases h

/-! ## 5. What is read -/

theorem flatMap_outside_text (x : List Char) : (x.map Piece.text).flatMap outside = x := by
  induction x with
  | nil => rfl
  | cons c x ih => rw [List.map_cons, List.flatMap_cons, ih]; rfl

theorem tokens_number {limit : Nat} {z : List Char} (hz : ∀ c ∈ z.head?, env.isWord c = false) :
    env.tokens (' ' :: (Nat.toDigits 10 limit ++ z)) =
      .word (Nat.toDigits 10 limit) :: env.tokens z := by
  have hword (c : Char) (hc : c ∈ Nat.toDigits 10 limit) : env.isWord c = true :=
    isWord_digit (isDigit_of_mem hc)
  exact (tokens_space (by decide) (@isWord_space env.toEnv) _).trans
    (tokens_word Nat.toDigits_ne_nil hword hz)

section
variable {db : DbType} {limit : Nat} {query : List Char} {R : List Piece}

theorem Straight.single (h : Straight env db limit query R) :
    .sym ';' ∉ env.tokens (R.flatMap outside) :=
  fun hmem => h.ends (mem_of_sym (h.seen _ hmem (by decide)))

theorem Straight.keywords (h : Straight env db limit (clean db query) R)
    (hcheck : validateQuery env query = .ok ()) {w : List Char}
    (hw : .word w ∈ env.tokens (R.flatMap outside)) {kw : String} (hkw : kw ∈ forbiddenKeywords) :
    capital w ≠ kw.toList := by
  intro heq
  have hnot := unforbidden hcheck (words_clean (h.seen _ hw (by simp)))
  have hlow : ∀ kw ∈ forbiddenKeywords,
      kw.toList.all (fun c => decide (c.toNat < 128)) = true := by decide
  have hfold := fold_of_capital_eq (hlow kw hkw) heq
  have hfound : isForbidden w = true :=
    List.any_eq_true.mpr ⟨kw, hkw, decide_eq_true hfold⟩
  rw [hnot] at hfound
  cases hfound

/-- `SELECT * FROM (` -/
def opening : List Token :=
  [.word "SELECT".toList, .sym '*', .word "FROM".toList, .sym '(']

/-- `) AS _q LIMIT {limit}` -/
def closing (limit : Nat) : List Token :=
  [.sym ')', .word "AS".toList, .word "_q".toList, .word "LIMIT".toList,
    .word (Nat.toDigits 10 limit)]

theorem tokens_wrapped (env : Env) (x : List Char) (limit : Nat) :
    env.tokens ("SELECT * FROM (".toList ++ (x ++ (") AS _q LIMIT ".toList ++
      Nat.toDigits 10 limit))) = opening ++ (env.tokens x ++ closing limit) := by
  let stop := ") AS _q LIMIT ".toList ++ Nat.toDigits 10 limit
  have hopening : env.tokens ("SELECT * FROM (".toList ++ (x ++ stop)) =
      opening ++ env.tokens (x ++ stop) := by
    have hstart : env.tokens "SELECT * FROM ".toList = opening.dropLast := rfl
    have hsym : env.tokens ('(' :: (x ++ stop)) = .sym '(' :: env.tokens (x ++ stop) :=
      tokens_sym rfl (by decide) _
    have happend : env.tokens ("SELECT * FROM ".toList ++ '(' :: (x ++ stop)) =
        env.tokens "SELECT * FROM ".toList ++ env.tokens ('(' :: (x ++ stop)) :=
      tokens_append (by rintro c ⟨⟩; rfl) _
    exact happend.trans (by rw [hstart, hsym]; rfl)
  have hmiddle : env.tokens (x ++ stop) = env.tokens x ++ env.tokens stop :=
    tokens_append (by rintro c ⟨⟩; rfl) x
  have hclosing : env.tokens stop = closing limit := by
    have hstart : env.tokens ") AS _q LIMIT".toList = (closing limit).dropLast := rfl
    have hnumber : env.tokens (' ' :: (Nat.toDigits 10 limit ++ [])) =
        [.word (Nat.toDigits 10 limit)] := tokens_number nofun
    rw [List.append_nil] at hnumber
    have happend : env.tokens (") AS _q LIMIT".toList ++ ' ' :: Nat.toDigits 10 limit) =
        env.tokens ") AS _q LIMIT".toList ++ env.tokens (' ' :: Nat.toDigits 10 limit) :=
      tokens_append (by rintro c ⟨⟩; rfl) _
    exact happend.trans (by rw [hstart, hnumber]; rfl)
  rw [hopening, hmiddle, hclosing]

/-- The query in parentheses, and the limit. -/
theorem Straight.wrapped (h : Straight env db limit (clean db query) R)
    (hcheck : validateQuery env query = .ok ()) (hdb : db ≠ .mssql) :
    ∃ R', reading (dialect db) (wrapped query limit) = some R' ∧ OneSelect env db limit R' := by
  let start : List Char := "SELECT * FROM (".toList
  let stop := ") AS _q LIMIT ".toList ++ Nat.toDigits 10 limit
  let R' := start.map Piece.text ++ (R ++ stop.map Piece.text)
  obtain ⟨hclean, hdepth, hended, hcapped⟩ : clean db query = cleanQuery query ∧
      depth 1 (env.tokens (R.flatMap outside)) = some 1 ∧ (∀ p ∈ R, isEnded p = true) ∧
        ∀ ts, Capped db limit ts ↔
          [.word "LIMIT".toList, .word (Nat.toDigits 10 limit)] <:+ ts := by
    have hfits := h.fits
    cases db with
    | postgresql | mysql => exact ⟨rfl, hfits.1, hfits.2, fun ts => Iff.rfl⟩
    | mssql => exact absurd rfl hdb
  have hread : reading (dialect db) (Executor.wrapped query limit) = some R' := by
    have hstart : ∀ c ∈ start, isOrdinary c = true := List.all_eq_true.mp (by decide)
    have hstop (c : Char) (hc : c ∈ stop) : isOrdinary c = true := by
      rcases List.mem_append.mp hc with hc | hc
      · have hall : ∀ c ∈ ") AS _q LIMIT ".toList, isOrdinary c = true :=
          List.all_eq_true.mp (by decide)
        exact hall c hc
      · exact isOrdinary_of_digit (isDigit_of_mem hc)
    have hinert : Inert (dialect db) stop := by
      rintro c ⟨⟩
      exact ⟨by decide, fun _ => by decide⟩
    have hquery : SqlText.read (dialect db) (.text []) (cleanQuery query) = some R :=
      hclean ▸ h.read
    obtain ⟨before, hbefore⟩ := read_append (m := .text []) hinert trivial hquery
      fun raw hraw => absurd (hended _ hraw) Bool.false_ne_true
    have hlast : SqlText.read (dialect db) (.text before) stop = some (stop.map Piece.text) := by
      have hnil := read_ordinary (d := dialect db) (z := []) hstop before
      rw [List.append_nil] at hnil
      rw [hnil]
      simp [SqlText.read]
    have hfirst := read_ordinary (d := dialect db) (z := cleanQuery query ++ stop) hstart []
    have hreverse : start.reverse ++ [] = [] ++ '(' :: "SELECT * FROM ".toList.reverse := by
      decide
    have hsplit : Executor.wrapped query limit = start ++ (cleanQuery query ++ stop) := by
      unfold Executor.wrapped
      rw [List.append_assoc, List.append_assoc]
    rw [reading, hsplit, hfirst, hreverse, read_parenthesis, hbefore, hlast]
    rfl
  have htokens : env.tokens (R'.flatMap outside) =
      opening ++ (env.tokens (R.flatMap outside) ++ closing limit) := by
    rw [← tokens_wrapped]
    simp only [R', List.flatMap_append, flatMap_outside_text, start, stop]
  refine ⟨R', hread, ?_, ?_, fun heq => absurd heq hdb, ?_, ?_, ?_, ?_⟩
  · intro p hp
    simp only [R', List.mem_append, List.mem_map] at hp
    rcases hp with ⟨c, -, rfl⟩ | hp | ⟨c, -, rfl⟩
    · rfl
    · exact h.comments p hp
    · rfl
  · rw [htokens]
    have hsingle := h.single
    simpa [opening, closing] using hsingle
  · rw [htokens]
    exact ⟨_, _, rfl, by decide⟩
  · rw [htokens]
    intro w hw kw hkw
    have hnone : ∀ kw ∈ forbiddenKeywords, kw.toList.all isDigit = false ∧
        ∀ s ∈ ["SELECT", "FROM", "AS", "_q", "LIMIT"], capital s.toList ≠ kw.toList := by
      decide
    simp only [opening, closing, List.mem_append, List.mem_cons, Token.word.injEq, reduceCtorEq,
      List.not_mem_nil, or_false, false_or] at hw
    rcases hw with (rfl | rfl) | hw | rfl | rfl | rfl | rfl
    · exact (hnone kw hkw).2 "SELECT" (by decide)
    · exact (hnone kw hkw).2 "FROM" (by decide)
    · exact h.keywords hcheck hw hkw
    · exact (hnone kw hkw).2 "AS" (by decide)
    · exact (hnone kw hkw).2 "_q" (by decide)
    · exact (hnone kw hkw).2 "LIMIT" (by decide)
    · exact (number_ne (fun c hc => isDigit_of_mem hc) (hnone kw hkw).1).1
  · have hopening : depth 0 opening = some 1 := by decide
    have hclosing : depth 1 (closing limit) = some 0 := rfl
    rw [htokens, depth_append, hopening, Option.bind_some, depth_append, hdepth, Option.bind_some,
      hclosing]
  · rw [hcapped, htokens]
    exact ⟨opening ++ (env.tokens (R.flatMap outside) ++
      [.sym ')', .word "AS".toList, .word "_q".toList]), by simp [closing]⟩

theorem splitKeyword_eq {kw : String} {inWord : Bool} {before rest : List Char}
    (h : splitKeyword env kw inWord query = some (before, rest)) :
    ∃ w, query = before ++ (w ++ rest) ∧ w.map fold = kw.toList ∧ wordEnds env rest = true := by
  induction query generalizing inWord before with
  | nil => cases h
  | cons c cs ih =>
    rw [splitKeyword] at h
    split at h
    · next found hfound =>
      obtain ⟨rfl, rfl⟩ := Prod.mk.inj (Option.some.inj h)
      split at hfound
      · cases hfound
      · obtain ⟨hafter, hends⟩ := Option.filter_eq_some_iff.mp hfound
        unfold afterKeyword at hafter
        split at hafter
        · next hword =>
          refine ⟨(c :: cs).take kw.length, ?_, hword, hends⟩
          rw [← Option.some.inj hafter, List.nil_append, List.take_append_drop]
        · cases hafter
    · obtain ⟨⟨before', rest'⟩, hsplit, heq⟩ := Option.map_eq_some_iff.mp h
      obtain ⟨rfl, rfl⟩ := Prod.mk.inj heq
      obtain ⟨w, hcs, hw, hends⟩ := ih hsplit
      exact ⟨w, by rw [hcs]; rfl, hw, hends⟩

/-- A query that begins with SELECT does not begin with WITH. -/
theorem startsWith_eq_false {before w rest : List Char} {X : List Piece}
    (hX : reading sqlServer before = some X) (hbetween : ∀ p ∈ X, isBetween p = true)
    (hw : w.map fold = "SELECT".toList) : startsWith env (before ++ (w ++ rest)) = false := by
  -- the first character that is no blank
  have hfirst (hwith : startsWith env (before ++ (w ++ rest)) = true) :
      ∃ c cs, (before ++ (w ++ rest)).dropWhile Text.isSpace = c :: cs ∧ fold c = 'W' := by
    unfold startsWith afterKeyword at hwith
    split at hwith
    · next hword =>
      cases hdrop : (before ++ (w ++ rest)).dropWhile Text.isSpace with
      | nil =>
        rw [hdrop] at hword
        cases hword
      | cons c cs =>
        rw [hdrop] at hword
        exact ⟨c, cs, rfl, (List.cons.inj hword).1⟩
    · cases hwith
  rw [← Bool.not_eq_true]
  intro hwith
  obtain ⟨c, cs, hdrop, hc⟩ := hfirst hwith
  rw [List.dropWhile_append] at hdrop
  split at hdrop
  · -- it is the first of SELECT
    cases w with
    | nil => cases hw
    | cons a w =>
      have ha : fold a = 'S' := (List.cons.inj hw).1
      have hspace : Text.isSpace a ≠ true := by
        intro hspace
        have hword : env.isWord a = true := isWord_of_select (by rw [ha]; decide)
        rw [isWord_of_space env.toEnv hspace] at hword
        cases hword
      rw [List.cons_append, List.dropWhile_cons_of_neg hspace] at hdrop
      rw [← (List.cons.inj hdrop).1, ha] at hc
      exact absurd hc (by decide)
  · -- it is read as a character of the text
    next hnot =>
    cases hbefore : before.dropWhile Text.isSpace with
    | nil =>
      rw [hbefore] at hnot
      exact absurd rfl hnot
    | cons a after =>
      rw [hbefore] at hdrop
      obtain rfl : a = c := (List.cons.inj hdrop).1
      have hspace : Text.isSpace a = false := by
        have hne : before.dropWhile Text.isSpace ≠ [] := by
          rw [hbefore]
          exact List.cons_ne_nil _ _
        have hhead := List.head_dropWhile_not Text.isSpace hne
        simpa only [hbefore, List.head_cons] using hhead
      have hblank (c : Char) (hc : c ∈ before.takeWhile Text.isSpace) : isOrdinary c = true :=
        isOrdinary_of_space (List.mem_takeWhile_imp hc)
      have hordinary : isOrdinary a = true := isOrdinary_of_fold (by rw [hc]; decide)
      rw [reading, ← List.takeWhile_append_dropWhile (p := Text.isSpace) (l := before), hbefore,
        read_ordinary hblank, Option.map_eq_some_iff] at hX
      obtain ⟨X', hX', rfl⟩ := hX
      simp only [SqlText.read, opens_ordinary hordinary] at hX'
      obtain ⟨X'', -, rfl⟩ := Option.map_eq_some_iff.mp hX'
      have hgap := hbetween (.text a) (by simp)
      rw [isBetween, hspace] at hgap
      cases hgap

/-- What is read after a word does not go on with it. -/
theorem head_outside {d : Dialect} {before rest : List Char} {R : List Piece}
    (hrest : wordEnds env rest = true) (h : SqlText.read d (.text before) rest = some R) :
    ∀ c ∈ (R.flatMap outside).head?, env.isWord c = false := by
  cases rest with
  | nil =>
    cases h
    exact nofun
  | cons a rest =>
    obtain ⟨p, hp, htext⟩ := head_of_read h
    cases R with
    | nil => cases hp
    | cons p' R =>
      obtain rfl : p' = p := Option.some.inj hp
      cases p' with
      | text c =>
        rintro _ ⟨⟩
        rw [htext c rfl]
        simpa [wordEnds] using hrest
      | comment | literal | name =>
        rintro _ ⟨⟩
        rfl

theorem inert_of_select {w : List Char} (hne : w ≠ [])
    (hw : ∀ c ∈ w, fold c ∈ "SELECT".toList) (z : List Char) : Inert sqlServer (w ++ z) := by
  cases w with
  | nil => exact absurd rfl hne
  | cons a w =>
    rintro _ ⟨⟩
    have hall : ∀ k ∈ ['-', '*', '/', '\'', '"', ']', backquote, '\n'],
        fold k ∉ "SELECT".toList :=
      List.all_iff_forall_prop.mp (by decide)
    exact ⟨fun ha => hall a ha (hw a List.mem_cons_self), fun hprefixes => by cases hprefixes⟩

theorem topped_own (htop : startsTop env (clean .mssql query) = true) :
    topped env query limit = clean .mssql query := by
  unfold clean at htop ⊢
  unfold topped
  dsimp only at htop ⊢
  rw [if_pos htop]

theorem topped_put {before rest : List Char} (htop : startsTop env (clean .mssql query) = false)
    (hwith : startsWith env (clean .mssql query) = false)
    (hsplit : splitKeyword env "SELECT" false (clean .mssql query) = some (before, rest)) :
    topped env query limit = before ++ (selectTop limit ++ rest) := by
  unfold clean at htop hwith hsplit
  unfold topped
  dsimp only at htop hwith hsplit ⊢
  rw [htop, hwith, hsplit, if_neg Bool.false_ne_true, if_neg Bool.false_ne_true]
  exact List.append_assoc ..

/-- The query with a TOP of its own. -/
theorem Straight.own (h : Straight env .mssql limit (clean .mssql query) R)
    (hcheck : validateQuery env query = .ok ()) (htop : startsTop env (clean .mssql query) = true) :
    OneSelect env .mssql limit R := by
  obtain ⟨hdepth, hlone, hunion, hfits⟩ := h.fits
  rw [if_pos htop] at hfits
  refine ⟨h.comments, h.single, fun _ => hlone, ?_, fun w hw kw hkw => h.keywords hcheck hw hkw,
    hdepth, hfits, hunion⟩
  obtain ⟨n, rest, hrows, -, -⟩ := hfits
  unfold topRows at hrows
  split at hrows
  · split at hrows
    · next hwords => exact ⟨_, _, by assumption, hwords.1⟩
    · cases hrows
  · cases hrows

/-- `SELECT TOP {limit}` -/
def topTokens (limit : Nat) : List Token :=
  [.word "SELECT".toList, .word "TOP".toList, .word (Nat.toDigits 10 limit)]

theorem tokens_selectTop (env : Env) (limit : Nat) {z : List Char}
    (hz : ∀ c ∈ z.head?, env.isWord c = false) :
    env.tokens (selectTop limit ++ z) = topTokens limit ++ env.tokens z := by
  have hstart : env.tokens "SELECT TOP".toList = (topTokens limit).dropLast := rfl
  have happend : env.tokens ("SELECT TOP".toList ++ ' ' :: (Nat.toDigits 10 limit ++ z)) =
      env.tokens "SELECT TOP".toList ++ env.tokens (' ' :: (Nat.toDigits 10 limit ++ z)) :=
    tokens_append (by rintro c ⟨⟩; rfl) _
  have hsplit : selectTop limit ++ z =
      "SELECT TOP".toList ++ ' ' :: (Nat.toDigits 10 limit ++ z) := by
    unfold selectTop
    rw [List.append_assoc]
    rfl
  rw [hsplit, happend, hstart, tokens_number hz]
  rfl

/-- No word that begins a statement follows a number, where none follows SELECT. -/
theorem lone_top {w : List Char} {ws : List (List Char)} (hw : w.map fold = "SELECT".toList)
    (h : lone (w :: ws) = true) :
    lone ("SELECT".toList :: "TOP".toList :: Nat.toDigits 10 limit :: ws) = true := by
  have htable : ∀ e ∈ beginners, e.1.toList.all isDigit = false ∧
      ∀ a ∈ e.2, a.toList.all (fun c => decide (c.toNat < 128)) = true ∧ "SELECT".toList ≠ a.toList := by
    decide
  have hnumber : begins "TOP".toList (Nat.toDigits 10 limit) = false := by
    refine List.any_eq_false.mpr fun e he => ?_
    have hne := (number_ne (fun c hc => isDigit_of_mem (n := limit) hc) (htable e he).1).2
    simp [hne]
  have htop : begins "SELECT".toList "TOP".toList = false := by decide
  have hfirst : lone (Nat.toDigits 10 limit :: ws) = true := by
    cases ws with
    | nil => rfl
    | cons v ws =>
      rw [lone, Bool.and_eq_true, Bool.not_eq_true'] at h ⊢
      refine ⟨?_, h.2⟩
      rw [← Bool.not_eq_true]
      intro hbegins
      obtain ⟨e, he, hv⟩ := List.any_eq_true.mp hbegins
      have hbegins' : begins w v = true := by
        refine List.any_eq_true.mpr ⟨e, he, ?_⟩
        rw [Bool.and_eq_true] at hv ⊢
        refine ⟨hv.1, List.all_eq_true.mpr fun a ha => decide_eq_true fun heq => ?_⟩
        obtain ⟨hlow, hne⟩ := (htable e he).2 a ha
        exact hne (hw.symm.trans (fold_of_capital_eq hlow heq))
      rw [h.1] at hbegins'
      cases hbegins'
  rw [lone, lone, htop, hnumber, hfirst]
  rfl

/-- The query with a TOP put after its SELECT. -/
theorem Straight.put (h : Straight env .mssql limit (clean .mssql query) R)
    (hcheck : validateQuery env query = .ok ())
    (htop : startsTop env (clean .mssql query) = false) :
    ∃ R', reading sqlServer (topped env query limit) = some R' ∧ OneSelect env .mssql limit R' := by
  obtain ⟨hdepth, hlone, hunion, hfits⟩ := h.fits
  rw [if_neg (by rw [htop]; exact Bool.false_ne_true)] at hfits
  obtain ⟨before, rest, X, hsplit, hX, hbetween, hexact⟩ := hfits
  obtain ⟨w, hclean, hw, hends⟩ := splitKeyword_eq hsplit
  have hletters (c : Char) (hc : c ∈ w) : fold c ∈ "SELECT".toList := by
    rw [← hw]
    exact List.mem_map_of_mem hc
  have hended (raw : List Char) : .comment false raw ∉ X := fun hraw =>
    absurd (hbetween _ hraw) Bool.false_ne_true
  have hword : ∀ c ∈ w, isOrdinary c = true := fun c hc =>
    isOrdinary_of_fold (isAlpha_of_select (hletters c hc))
  have hne : w ≠ [] := by
    rintro rfl
    cases hw
  have hselect (c : Char) (hc : c ∈ selectTop limit) : isOrdinary c = true := by
    rcases List.mem_append.mp hc with hc | hc
    · have hall : ∀ c ∈ "SELECT TOP ".toList, isOrdinary c = true :=
        List.all_eq_true.mp (by decide)
      exact hall c hc
    · exact isOrdinary_of_digit (isDigit_of_mem hc)
  have hinert : Inert sqlServer (selectTop limit ++ rest) := by
    rintro _ ⟨⟩
    exact ⟨by decide, fun hprefixes => by cases hprefixes⟩
  -- the query and what is sent, in three parts
  obtain ⟨R₂, hrest, rfl⟩ : ∃ R₂, reading sqlServer rest = some R₂ ∧
      X ++ (w.map Piece.text ++ R₂) = R := by
    have hread : reading sqlServer (before ++ (w ++ rest)) = some R := hclean ▸ h.read
    rw [reading_append rfl hX hended hword (inert_of_select hne hletters rest)] at hread
    exact Option.map_eq_some_iff.mp hread
  have hread : reading sqlServer (before ++ (selectTop limit ++ rest)) =
      some (X ++ ((selectTop limit).map Piece.text ++ R₂)) := by
    rw [reading_append rfl hX hended hselect hinert, hrest]
    rfl
  have hhead := head_outside hends hrest
  have hblank (c : Char) (hc : c ∈ X.flatMap outside) : Text.isSpace c = true := by
    obtain ⟨p, hp, hc⟩ := List.mem_flatMap.mp hc
    have hpiece := hbetween p hp
    cases p with
    | text a =>
      rw [List.mem_singleton.mp hc]
      exact hpiece
    | comment => rw [List.mem_singleton.mp hc]; decide
    | literal | name => cases hpiece
  have houtside (v : List Char) : (X ++ (v.map Piece.text ++ R₂)).flatMap outside =
      X.flatMap outside ++ (v ++ R₂.flatMap outside) := by
    rw [List.flatMap_append, List.flatMap_append, flatMap_outside_text]
  have htokens : env.tokens ((X ++ (w.map Piece.text ++ R₂)).flatMap outside) =
      .word w :: env.tokens (R₂.flatMap outside) := by
    rw [houtside, tokens_blank hblank]
    exact tokens_word hne (fun c hc => isWord_of_select (hletters c hc)) hhead
  have htokens' : env.tokens ((X ++ ((selectTop limit).map Piece.text ++ R₂)).flatMap outside) =
      topTokens limit ++ env.tokens (R₂.flatMap outside) := by
    rw [houtside, tokens_blank hblank, tokens_selectTop env limit hhead]
  have hwith : startsWith env (before ++ (w ++ rest)) = false :=
    startsWith_eq_false hX hbetween hw
  rw [← hclean] at hwith
  have htext : topped env query limit = before ++ (selectTop limit ++ rest) :=
    topped_put htop hwith hsplit
  rw [htokens] at hdepth hlone hunion hexact
  refine ⟨_, htext ▸ hread, ?_, ?_, ?_, ?_, ?_, ?_, ?_⟩
  · intro p hp
    simp only [List.mem_append, List.mem_map] at hp
    rcases hp with hp | ⟨c, -, rfl⟩ | hp
    · exact h.comments p (List.mem_append_left _ hp)
    · rfl
    · exact h.comments p (List.mem_append_right _ (List.mem_append_right _ hp))
  · have hsingle := h.single
    rw [htokens] at hsingle
    rw [htokens']
    simpa [topTokens] using hsingle
  · intro _
    rw [htokens']
    exact lone_top hw hlone
  · rw [htokens']
    exact ⟨_, _, rfl, by decide⟩
  · rw [htokens']
    intro v hv kw hkw
    have hnone : ∀ kw ∈ forbiddenKeywords, kw.toList.all isDigit = false ∧
        ∀ s ∈ ["SELECT", "TOP"], capital s.toList ≠ kw.toList := by
      decide
    simp only [topTokens, List.mem_append, List.mem_cons, Token.word.injEq, List.not_mem_nil,
      or_false] at hv
    rcases hv with (rfl | rfl | rfl) | hv
    · exact (hnone kw hkw).2 "SELECT" (by decide)
    · exact (hnone kw hkw).2 "TOP" (by decide)
    · exact (number_ne (fun c hc => isDigit_of_mem hc) (hnone kw hkw).1).1
    · exact h.keywords hcheck (htokens ▸ List.mem_cons_of_mem _ hv) hkw
  · rw [htokens']
    exact hdepth
  · rw [htokens']
    refine ⟨⟨limit, env.tokens (R₂.flatMap outside), ?_, Nat.le_refl _, hexact⟩, ?_⟩
    · have hcapitals : capital "SELECT".toList = "SELECT".toList ∧
          capital "TOP".toList = "TOP".toList := by decide
      have hnumber := number?_toDigits limit
      simp only [topTokens, List.cons_append, List.nil_append, topRows, hcapitals, hnumber]
      rfl
    · intro v hv
      have hwords : v ∈ "SELECT".toList :: "TOP".toList :: Nat.toDigits 10 limit ::
          outer 0 (env.tokens (R₂.flatMap outside)) := hv
      rcases List.mem_cons.mp hwords with rfl | hwords
      · decide
      rcases List.mem_cons.mp hwords with rfl | hwords
      · decide
      rcases List.mem_cons.mp hwords with rfl | hwords
      · exact (number_ne (fun c hc => isDigit_of_mem hc) (by decide)).1
      · exact hunion v (List.mem_cons_of_mem _ hwords)

end

/-- Texts of ASCII characters, and the letters that the patterns take for some of these. -/
def asciiEnv : Env where
  upperWide c := [c]
  isWordWide c := c.toNat ∈ [0x17f, 0x212a, 0x130, 0x131]
  space c hc := by
    rw [decide_eq_false_iff_not]
    intro hmem
    have hall : ∀ n ∈ [0x17f, 0x212a, 0x130, 0x131], Text.isSpace (Char.ofNat n) = false := by
      decide
    have hnot := hall _ hmem
    rw [Char.ofNat_toNat, hc] at hnot
    cases hnot
  folded c hwide hlow := by
    have hupper : c.toUpper = c := by
      unfold Char.toUpper
      refine dif_neg fun hrange => ?_
      have hle : c.toNat ≤ 'z'.toNat := hrange.2
      exact absurd (Nat.le_trans hwide hle) (by decide)
    rw [decide_eq_true_eq]
    unfold fold at hlow
    rw [hupper] at hlow
    by_contra hmem
    simp only [List.mem_cons, List.not_mem_nil, or_false, not_or] at hmem
    rw [if_neg hmem.1, if_neg hmem.2.1, if_neg (not_or.mpr hmem.2.2)] at hlow
    omega

/-- A literal, and what it hides from the check. -/
def hidden : DataSource := ⟨"SELECT '--'; DROP TABLE t", some 50⟩

/-- Comments, a name, a literal and a semicolon. -/
def plainQuery : DataSource :=
  ⟨"/* all */ SELECT [order id], 'it''s' FROM t WHERE (n-1) > 0 -- of today\n ORDER BY 1;", some 50⟩

/-- What SQL Server reads of it. -/
def plainReading : List Piece :=
  (reading sqlServer (clean .mssql (Text.stripChars plainQuery.query.toList))).getD []

end Apowerb.Bi.Executor
