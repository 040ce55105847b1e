/-
# The query as the database reads it

`validate_sql_safety` reads a query with one reader for all databases.  What PostgreSQL and MySQL
read of it is to be one statement that only reads (`ReadOnly`), and is not, where that reader and
theirs disagree (a block comment in a block comment, `U&"…"`, a double dash that no blank follows, a
carriage return in a comment, a backslash in double quotes), or where a quoted name stands right
beside a word: the view of functions GLUES them together, and a call is not seen.

* `plain` excludes these, place by place, with no more than the dialect at hand disagrees on.
* `readOnly_of_safe`: a query that passes, and is plain, is read as one statement that only reads.

What `views` appends is compared with the pieces of the dialect (`Agrees`), by induction on the text:
each place of the one reader belongs to one of the other (`Sim`).
-/
import Apowerb.Sqlgen.Safety
import Mathlib.Data.List.Infix

namespace Apowerb.Sqlgen

open SqlText

variable (env : Env)

/-! ## 1. What a reading finds -/

/-- What stands outside: the text, with a blank for a comment, and the quotes of what is quoted. -/
def outside : Piece → List Char
  | .text c => [c]
  | .comment _ _ => [' ']
  | .literal _ => ['\'', '\'']
  | .name _ _ _ _ => ['"', '"']

/-- The character that a hexadecimal number stands for. -/
def hexChar (n : Nat) (cs : List Char) : Option Char :=
  if cs.length = n ∧ cs.all (fun c => isDigit c || ('a' ≤ c.toLower && c.toLower ≤ 'f')) then
    some (Char.ofNat (cs.foldl (fun acc c =>
      acc * 16 + if isDigit c then c.toNat - 48 else c.toLower.toNat - 87) 0))
  else none

/-- A name with Unicode escapes, some of whose characters were read already. -/
def decode (esc : Char) : Nat → List Char → List Char
  | _, [] => []
  | n + 1, _ :: cs => decode esc n cs
  | 0, c :: cs =>
    if c = esc then
      if cs.head? = some esc then esc :: decode esc 1 cs
      else match hexChar 4 (cs.take 4), hexChar 6 ((cs.drop 1).take 6) with
        | some u, _ => u :: decode esc 4 cs
        | none, some u => if cs.head? = some '+' then u :: decode esc 7 cs else c :: decode esc 0 cs
        | none, none => c :: decode esc 0 cs
    else c :: decode esc 0 cs

def isGap : Piece → Bool
  | .text c => Text.isSpace c
  | .comment _ _ => true
  | _ => false

/-- The escape character of a name, which a `UESCAPE` after it may give. -/
def escapeOf (rest : List Piece) : Char :=
  let rest := rest.dropWhile isGap
  if (rest.take 7).map (fun x => (outside x).map Char.toUpper) =
      "UESCAPE".toList.map ([·]) then
    match (rest.drop 7).dropWhile isGap with
    | .literal ['\'', c, '\''] :: _ => c
    | _ => '\\'
  else '\\'

/-- What the pieces say, with what is quoted as a name set apart by blanks. -/
def spoken : List Piece → List Char
  | [] => []
  | .name unicode first last raw :: rest =>
    let name := raw.tail.dropLast
    (if first then [' '] else []) ++ (if unicode then decode (escapeOf rest) 0 name else name) ++
      (if last then [' '] else []) ++ spoken rest
  | x :: rest => outside x ++ spoken rest

/-- One statement: nothing but semicolons after a semicolon. -/
def OneStatement (ts : List Token) : Prop :=
  ∀ a b, ts = a ++ .sym ';' :: b → ∀ t ∈ b, t = .sym ';'

/-- What is read is one statement that only reads. -/
structure ReadOnly (R : List Piece) : Prop where
  single : OneStatement (env.tokens (env.up (R.flatMap outside)))
  begins : selects (env.tokens (env.up (R.flatMap outside))) = true
  keywords : ∀ kw ∈ forbidden, .word kw.toList ∉ env.tokens (env.up (R.flatMap outside))
  locking : locks (env.tokens (env.up (R.flatMap outside))) = false
  calls : ∀ name ∈ called (env.tokens (env.up (spoken R))), ∀ p ∈ forbiddenFunctions,
    p.fits name = false

/-! ## 2. Plain texts -/

/-- Whether a character may run into a word beside it, once it is in upper case. -/
def Env.glues (c : Char) : Bool := (env.upper c).isEmpty || (env.upper c).any env.isWord

/-- What the dialect reads as `views` does, after some characters of the text. -/
def plain (d : Dialect) : Place → List Char → List Char → Bool
  | _, _, [] => true
  | .skip p, _, _ :: cs => plain d p [] cs
  | .text, before, c :: cs =>
    if c = '-' ∧ cs.head? = some '-' then
      (!d.dashesBlank || cs.tail.head?.all isBlank) && plain d (.skip .line) [] cs
    else if c = '/' ∧ cs.head? = some '*' then plain d (.skip .block) [] cs
    else if c = '\'' then plain d .literal [] cs
    else if c = '"' then
      !before.head?.any env.glues && !(d.prefixes && afterU before) && plain d (.name []) [] cs
    else !(c = '$' && d.prefixes && (dollarTag before cs).isSome) && plain d .text (c :: before) cs
  | .line, _, c :: cs =>
    if c = '\n' then plain d .text [] cs
    else if c = '\r' then (d.returnEnds || cs.head?.all (· = '\n')) && plain d .text [] cs
    else plain d .line [] cs
  | .block, _, c :: cs =>
    if c = '*' ∧ cs.head? = some '/' then plain d (.skip .text) [] cs
    else !(d.nests && c = '/' && cs.head? = some '*') && plain d .block [] cs
  | .literal, _, c :: cs =>
    if c = '\'' then
      if cs.head? = some '\'' then plain d (.skip .literal) [] cs else plain d .text [] cs
    else plain d .literal [] cs
  | .name body, _, c :: cs =>
    if c = '"' then
      cs.head?.all (fun n => n = '"' || !env.glues n) && plain d .text [] cs
    else !(d.backslash && c = '\\') && plain d (.name (c :: body)) [] cs

/-- Nothing in the text is read otherwise by the dialect, and no quoted name stands beside a word. -/
def Plain (d : Dialect) (sql : String) : Prop := plain env d .text [] sql.toList = true

/-! ## 3. Characters and tokens -/

variable {env}

theorem up_append (a b : List Char) : env.up (a ++ b) = env.up a ++ env.up b :=
  List.flatMap_append

theorem isWord_space : env.isWord ' ' = false := rfl

theorem tokens_up_space (cs : List Char) :
    env.tokens (env.up (' ' :: cs)) = env.tokens (env.up cs) :=
  tokens_space (by decide) isWord_space _

/-- The word at the front of a text in upper case, and the tokens after it. -/
def Env.front (env : Env) (cs : List Char) : List Char × List Token :=
  grp env.isWord Text.isSpace (env.up cs)

theorem tokens_of_front {a b : List Char} (h : env.front a = env.front b) :
    env.tokens (env.up a) = env.tokens (env.up b) := tokens_eq_of_grp h

theorem front_append_eq {a b : List Char} (h : env.front a = env.front b) (x : List Char) :
    env.front (x ++ a) = env.front (x ++ b) := by
  unfold Env.front at *
  rw [up_append, up_append]
  exact grp_append h _

/-- After a character that does not glue, or a quote, the tokens are all that matters. -/
theorem front_cons_of_tokens {a b : List Char} {c : Char} (hc : env.glues c = false)
    (h : env.tokens (env.up a) = env.tokens (env.up b)) :
    env.front (c :: a) = env.front (c :: b) := by
  simp only [Env.glues, Bool.or_eq_false_iff, List.isEmpty_eq_false_iff, List.any_eq_false] at hc
  exact grp_append_of_tokens hc.1 (fun x hx => by simpa using hc.2 x hx) h

theorem front_nil_of_glues {a : List Char} {c : Char} (hc : env.glues c = false) :
    (env.front (c :: a)).1 = [] := by
  simp only [Env.glues, Bool.or_eq_false_iff, List.isEmpty_eq_false_iff, List.any_eq_false] at hc
  exact front_append hc.1 fun x hx => by simpa using hc.2 x hx

theorem front_space {a b : List Char} (hfront : (env.front a).1 = [])
    (h : env.tokens (env.up a) = env.tokens (env.up b)) :
    env.front a = env.front (' ' :: b) := grp_space (by decide) isWord_space hfront h

theorem glues_space : env.glues ' ' = false := rfl

theorem glues_apostrophe : env.glues '\'' = false := rfl

/-! ## 4. Both readers -/

/-- Where the readers stand in a text: `views` is in the same place as the dialect's; or in the text,
before a quote that goes on with a name. -/
inductive Sim (d : Dialect) : Place → Mode → List Char → List Char → Prop
  | text (before cs : List Char) : Sim d .text (.text before) before cs
  | again {q : Quote} (cs : List Char) :
      q = ⟨'"', d.backslash, true, false, false⟩ →
      Sim d .text (.skip (.quoted q ['"'])) [] ('"' :: cs)
  | skip {p : Place} {m : Mode} {c : Char} {cs : List Char} :
      Sim d p m [] cs → Sim d (.skip p) (.skip m) [] (c :: cs)
  | line (acc cs : List Char) : Sim d .line (.line acc) [] cs
  | block (acc cs : List Char) : Sim d .block (.block 0 acc) [] cs
  | literal {q : Quote} (acc cs : List Char) :
      q.close = '\'' → q.isName = false → Sim d .literal (.quoted q acc) [] cs
  | name {q : Quote} (body cs : List Char) (first : Bool) :
      q = ⟨'"', d.backslash, true, first, false⟩ →
      Sim d (.name body) (.quoted q (body ++ ['"'])) [] cs

/-- What `views` has appended already of what the dialect is reading. -/
def owed : Mode → List Char
  | .skip m => owed m
  | .line _ | .block _ _ => [' ']
  | .text _ | .quoted _ _ | .dollar _ _ => []

/-- Whether what comes next may run into what `views` has appended last, so that the front of the
text matters. -/
def joined : Mode → List Char → Prop
  | .skip m, _ :: cs => joined m cs
  | .text _, cs => cs.head? ≠ some '"'
  | .quoted q _, _ => q.isName = false ∨ q.first = false
  | _, _ => False

/-- Whether what comes next runs into nothing. -/
def apart (env : Env) : Mode → List Char → Prop
  | .skip m, _ :: cs => apart env m cs
  | .text _, cs => ∀ n ∈ cs.head?, n ≠ '"' ∧ env.glues n = false
  | .quoted q _, _ => q.isName = false
  | _, _ => False

/-- The views of what is left, and the pieces that the dialect reads. -/
structure Agrees (env : Env) (d : Dialect) (m : Mode) (cs : List Char) (k f : List Char)
    (R : List Piece) : Prop where
  read : read d m cs = some R
  outside : R.flatMap outside = owed m ++ k
  tokens : env.tokens (env.up f) = env.tokens (env.up (spoken R))
  joined : joined m cs → env.front f = env.front (spoken R)
  apart : apart env m cs → (env.front f).1 = []
  blank : owed m = [' '] → (env.front (spoken R)).1 = []

attribute [local grind =] plain views SqlText.read

variable {d : Dialect} {m : Mode} {cs k f : List Char} {R : List Piece}

/-- A character of the text. -/
theorem Agrees.char {before : List Char} {c : Char} (hopens : opens d before c cs = none)
    (hjoin : env.glues c = true → cs.head? ≠ some '"')
    (h : Agrees env d (.text (c :: before)) cs k f R) :
    Agrees env d (.text before) (c :: cs) (c :: k) (c :: f) (.text c :: R) := by
  have hfront : env.front (c :: f) = env.front (c :: spoken R) := by
    cases hc : env.glues c with
    | true => exact front_append_eq (h.joined (hjoin hc)) [c]
    | false => exact front_cons_of_tokens hc h.tokens
  refine ⟨?_, ?_, tokens_of_front hfront, fun _ => hfront, fun hn => ?_, nofun⟩
  · simp only [SqlText.read, hopens, h.read, Option.map_some]
  · simpa [Sqlgen.outside, owed] using h.outside
  · exact front_nil_of_glues (hn c rfl).2

/-- A comment is opened, for which `views` appends a blank. -/
theorem Agrees.opened_comment {before : List Char} {c : Char} {m : Mode}
    (hopens : opens d before c cs = some m) (howed : owed m = [' '])
    (h : Agrees env d m cs k f R) :
    Agrees env d (.text before) (c :: cs) (' ' :: k) (' ' :: f) R := by
  have hfront : env.front (' ' :: f) = env.front (spoken R) :=
    (front_space (h.blank howed) h.tokens.symm).symm
  refine ⟨?_, ?_, tokens_of_front hfront, fun _ => hfront, fun _ => ?_, nofun⟩
  · simp only [SqlText.read, hopens, h.read]
  · rw [h.outside, howed]
    rfl
  · exact front_nil_of_glues glues_space

/-- A comment is closed. -/
theorem Agrees.closed_comment {m m' : Mode} {c : Char} {raw : List Char} (howed : owed m = [' '])
    (hread : SqlText.read d m (c :: cs) = (SqlText.read d m' cs).map (.comment true raw :: ·))
    (howed' : owed m' = []) (hjoined : ¬ Sqlgen.joined m (c :: cs))
    (hapart : ¬ Sqlgen.apart env m (c :: cs))
    (h : Agrees env d m' cs k f R) : Agrees env d m (c :: cs) k f (.comment true raw :: R) := by
  refine ⟨?_, ?_, ?_, fun hm => absurd hm hjoined, fun hm => absurd hm hapart, fun _ => ?_⟩
  · rw [hread, h.read, Option.map_some]
  · rw [List.flatMap_cons, h.outside, howed, howed']
    rfl
  · rw [h.tokens]
    exact (tokens_up_space _).symm
  · exact front_nil_of_glues glues_space

/-- A character of what is skipped or opened. -/
theorem Agrees.pass {m m' : Mode} {c : Char} (hread : SqlText.read d m (c :: cs) = SqlText.read d m' cs)
    (howed : owed m = owed m') (hjoined : Sqlgen.joined m (c :: cs) → Sqlgen.joined m' cs)
    (hapart : Sqlgen.apart env m (c :: cs) → Sqlgen.apart env m' cs)
    (h : Agrees env d m' cs k f R) : Agrees env d m (c :: cs) k f R :=
  ⟨hread.trans h.read, howed ▸ h.outside, h.tokens, fun hm => h.joined (hjoined hm),
    fun hm => h.apart (hapart hm), fun ho => h.blank (howed ▸ ho)⟩

/-- A literal is closed, of which both keep the quotes. -/
theorem Agrees.closed_literal {q : Quote} {acc : List Char} {c : Char} (hname : q.isName = false)
    (hread : SqlText.read d (.quoted q acc) (c :: cs) =
      (SqlText.read d (.text []) cs).map (q.piece true (c :: acc) :: ·))
    (h : Agrees env d (.text []) cs k f R) :
    Agrees env d (.quoted q acc) (c :: cs) ('\'' :: '\'' :: k) ('\'' :: '\'' :: f)
      (.literal (c :: acc).reverse :: R) := by
  have hfront : env.front ('\'' :: '\'' :: f) = env.front ('\'' :: '\'' :: spoken R) :=
    front_cons_of_tokens glues_apostrophe
      (tokens_of_front (front_cons_of_tokens glues_apostrophe h.tokens))
  refine ⟨?_, ?_, tokens_of_front hfront, fun _ => hfront, fun _ => ?_, nofun⟩
  · rw [hread, h.read, Option.map_some, Quote.piece, hname, if_neg Bool.false_ne_true]
  · rw [List.flatMap_cons, h.outside]
    rfl
  · exact front_nil_of_glues glues_apostrophe

theorem body_eq (body : List Char) : ('"' :: (body ++ ['"'])).reverse.tail.dropLast = body.reverse := by
  simp

/-- A part of a name is closed: `views` appends what it says, and the dialect's reading sets the
whole name apart. -/
theorem Agrees.closed_name {body : List Char} {first last : Bool} {m' : Mode} {acc : List Char}
    {q : Quote} (hq : q.isName = true ∧ q.first = first) (howed : owed m' = [])
    (hread : SqlText.read d (.quoted q acc) ('"' :: cs) = (SqlText.read d m' cs).map
      (.name false first last ('"' :: (body ++ ['"'])).reverse :: ·))
    (hnext : last = true → Sqlgen.apart env m' cs) (hgoes : last = false → Sqlgen.joined m' cs)
    (h : Agrees env d m' cs k f R) :
    Agrees env d (.quoted q acc) ('"' :: cs) ('"' :: '"' :: k) (body.reverse ++ f)
      (.name false first last ('"' :: (body ++ ['"'])).reverse :: R) := by
  have hrest : env.front f = env.front ((if last then [' '] else []) ++ spoken R) := by
    cases last with
    | true => exact front_space (h.apart (hnext rfl)) h.tokens
    | false => exact h.joined (hgoes rfl)
  have hbody := front_append_eq hrest body.reverse
  have hspoken : spoken (.name false first last ('"' :: (body ++ ['"'])).reverse :: R) =
      (if first then [' '] else []) ++ (body.reverse ++ ((if last then [' '] else []) ++ spoken R)) := by
    simp only [spoken, body_eq, Bool.false_eq_true, if_false, List.append_assoc]
  refine ⟨?_, ?_, ?_, fun hm => ?_, fun hm => ?_, nofun⟩
  · rw [hread, h.read, Option.map_some]
  · rw [List.flatMap_cons, h.outside, howed]
    rfl
  · rw [hspoken]
    cases first with
    | true => exact (tokens_of_front hbody).trans (tokens_up_space _).symm
    | false => exact tokens_of_front hbody
  · have hfirst : first = false := by
      rcases hm with hm | hm
      · rw [hq.1] at hm
        cases hm
      · exact hq.2.symm.trans hm
    rw [hspoken, hfirst]
    exact hbody
  · have hm : q.isName = false := hm
    rw [hq.1] at hm
    cases hm

theorem append_eq_some {x y : List Char} {rest : Option (List Char × List Char)} {k f : List Char}
    (h : append x y rest = some (k, f)) :
    ∃ ks fs, rest = some (ks, fs) ∧ k = x ++ ks ∧ f = y ++ fs := by
  obtain ⟨⟨ks, fs⟩, hrest, hsome⟩ := Option.map_eq_some_iff.mp h
  obtain ⟨rfl, rfl⟩ := Prod.mk.inj hsome
  exact ⟨ks, fs, hrest, rfl, rfl⟩

/-- The readers agree on a text, from wherever they stand together. -/
def Follow (env : Env) (d : Dialect) (cs : List Char) : Prop :=
  ∀ {p m before k f}, Sim d p m before cs → plain env d p before cs = true →
    views p cs = some (k, f) → ∃ R, Agrees env d m cs k f R

variable {c : Char}

theorem Follow.line (h : Follow env d cs) (acc : List Char)
    (hplain : plain env d .line [] (c :: cs) = true) (hviews : views .line (c :: cs) = some (k, f)) :
    ∃ R, Agrees env d (.line acc) (c :: cs) k f R := by
  have hpass (hline : plain env d .line [] cs = true) (hends : endsLine d c cs = false)
      (hviews : views .line cs = some (k, f)) : ∃ R, Agrees env d (.line acc) (c :: cs) k f R := by
    obtain ⟨R, hR⟩ := h (.line (c :: acc) cs) hline hviews
    have hread : SqlText.read d (.line acc) (c :: cs) = SqlText.read d (.line (c :: acc)) cs := by
      rw [read_line, hends, if_neg Bool.false_ne_true]
    exact ⟨R, hR.pass hread rfl id id⟩
  have hclose (htext : plain env d .text [] cs = true) (hends : endsLine d c cs = true)
      (hviews : views .text cs = some (k, f)) : ∃ R, Agrees env d (.line acc) (c :: cs) k f R := by
    obtain ⟨R, hR⟩ := h (.text [] cs) htext hviews
    exact ⟨_, hR.closed_comment rfl (by rw [read_line, hends, if_pos rfl]) rfl id id⟩
  simp only [plain] at hplain
  simp only [views] at hviews
  by_cases hfeed : c = '\n'
  · rw [if_pos hfeed] at hplain
    rw [if_pos (.inl hfeed)] at hviews
    exact hclose hplain (by simp [endsLine, hfeed]) hviews
  · rw [if_neg hfeed] at hplain
    by_cases hreturn : c = '\r'
    · rw [if_pos hreturn, Bool.and_eq_true] at hplain
      rw [if_pos (.inr hreturn)] at hviews
      cases hends : endsLine d c cs with
      | true => exact hclose hplain.2 hends hviews
      | false =>
        -- the text ends with the carriage return, and so does the comment
        cases cs with
        | nil =>
          cases hviews
          exact hpass rfl hends rfl
        | cons n cs =>
          have hnext := hplain.1
          simp [endsLine, hreturn] at hends
          simp [hends.1, hends.2] at hnext
    · rw [if_neg hreturn] at hplain
      rw [if_neg (by simp [hfeed, hreturn])] at hviews
      exact hpass hplain (by simp [endsLine, hfeed, hreturn]) hviews

theorem Follow.block (h : Follow env d cs) (acc : List Char)
    (hplain : plain env d .block [] (c :: cs) = true)
    (hviews : views .block (c :: cs) = some (k, f)) :
    ∃ R, Agrees env d (.block 0 acc) (c :: cs) k f R := by
  simp only [plain] at hplain
  simp only [views] at hviews
  by_cases hclose : c = '*' ∧ cs.head? = some '/'
  · rw [if_pos hclose] at hplain hviews
    cases cs with
    | nil => cases hclose.2
    | cons n cs =>
      obtain ⟨R, hR⟩ := h (.skip (.text [] cs)) hplain hviews
      exact ⟨_, hR.closed_comment rfl (by rw [read_block, if_pos hclose]) rfl id id⟩
  · rw [if_neg hclose, Bool.and_eq_true, Bool.not_eq_true'] at hplain
    rw [if_neg hclose] at hviews
    obtain ⟨R, hR⟩ := h (.block (c :: acc) cs) hplain.2 hviews
    have hopen : ¬ (c = '/' ∧ cs.head? = some '*' ∧ d.nests = true) := by
      rintro ⟨hc, hnext, hnests⟩
      simp [hc, hnext, hnests] at hplain
    have hread : SqlText.read d (.block 0 acc) (c :: cs) =
        SqlText.read d (.block 0 (c :: acc)) cs := by
      rw [read_block, if_neg hclose, if_neg hopen]
    exact ⟨R, hR.pass hread rfl id id⟩

theorem Follow.literal {q : Quote} (h : Follow env d cs) (acc : List Char) (hq : q.close = '\'')
    (hname : q.isName = false) (hplain : plain env d .literal [] (c :: cs) = true)
    (hviews : views .literal (c :: cs) = some (k, f)) :
    ∃ R, Agrees env d (.quoted q acc) (c :: cs) k f R := by
  simp only [plain] at hplain
  simp only [views] at hviews
  by_cases hquote : c = '\''
  · have hesc : ¬ (c = '\\' ∧ q.escapes = true) := by simp [hquote]
    have hclose : c = q.close := hquote.trans hq.symm
    rw [if_pos hquote] at hplain hviews
    by_cases hagain : cs.head? = some '\''
    · rw [if_pos hagain] at hplain hviews
      cases cs with
      | nil => cases hagain
      | cons n cs =>
        obtain ⟨R, hR⟩ := h (.skip (.literal (c :: c :: acc) cs hq hname)) hplain hviews
        have hread : SqlText.read d (.quoted q acc) (c :: n :: cs) =
            SqlText.read d (.skip (.quoted q (c :: c :: acc))) (n :: cs) := by
          rw [read_quoted, if_neg hesc, if_pos hclose, hq, if_pos hagain, hname,
            if_neg Bool.false_ne_true]
        exact ⟨R, hR.pass hread rfl id id⟩
    · rw [if_neg hagain] at hplain hviews
      obtain ⟨ks, fs, hrest, rfl, rfl⟩ := append_eq_some hviews
      obtain ⟨R, hR⟩ := h (.text [] cs) hplain hrest
      refine ⟨_, hR.closed_literal hname ?_⟩
      rw [read_quoted, if_neg hesc, if_pos hclose, hq, if_neg hagain]
  · rw [if_neg hquote] at hplain hviews
    by_cases hback : c = '\\'
    · rw [if_pos hback] at hviews
      cases hviews
    · rw [if_neg hback] at hviews
      obtain ⟨R, hR⟩ := h (.literal (c :: acc) cs hq hname) hplain hviews
      have hread : SqlText.read d (.quoted q acc) (c :: cs) =
          SqlText.read d (.quoted q (c :: acc)) cs := by
        rw [read_quoted, if_neg fun hesc => hback hesc.1, hq, if_neg hquote]
      exact ⟨R, hR.pass hread rfl id id⟩

theorem Follow.name {q : Quote} {first : Bool} (h : Follow env d cs) (body : List Char)
    (hq : q = ⟨'"', d.backslash, true, first, false⟩)
    (hplain : plain env d (.name body) [] (c :: cs) = true)
    (hviews : views (.name body) (c :: cs) = some (k, f)) :
    ∃ R, Agrees env d (.quoted q (body ++ ['"'])) (c :: cs) k f R := by
  subst hq
  simp only [plain] at hplain
  simp only [views] at hviews
  by_cases hquote : c = '"'
  · subst hquote
    simp only [if_true, Bool.and_eq_true] at hplain
    rw [if_pos rfl] at hviews
    obtain ⟨ks, fs, hrest, rfl, rfl⟩ := append_eq_some hviews
    have hesc : ¬ ('"' = '\\' ∧ d.backslash = true) := fun hesc => absurd hesc.1 (by decide)
    by_cases hagain : cs.head? = some '"'
    · cases cs with
      | nil => cases hagain
      | cons n cs =>
        obtain rfl : n = '"' := Option.some.inj hagain
        obtain ⟨R, hR⟩ := h (.again cs rfl) hplain.2 hrest
        have hread : SqlText.read d (.quoted ⟨'"', d.backslash, true, first, false⟩ (body ++ ['"']))
            ('"' :: '"' :: cs) =
              (SqlText.read d (.skip (.quoted ⟨'"', d.backslash, true, false, false⟩ ['"']))
                ('"' :: cs)).map (.name false first false ('"' :: (body ++ ['"'])).reverse :: ·) := by
          rw [read_quoted, if_neg hesc, if_pos rfl, if_pos hagain, if_pos rfl]
          rfl
        have hgoes : joined (.skip (.quoted ⟨'"', d.backslash, true, false, false⟩ ['"']))
            ('"' :: cs) := .inr rfl
        exact ⟨_, hR.closed_name ⟨rfl, rfl⟩ rfl hread (fun hlast => by cases hlast) fun _ => hgoes⟩
    · obtain ⟨R, hR⟩ := h (.text [] cs) hplain.2 hrest
      have hread : SqlText.read d (.quoted ⟨'"', d.backslash, true, first, false⟩ (body ++ ['"']))
          ('"' :: cs) = (SqlText.read d (.text []) cs).map
            (.name false first true ('"' :: (body ++ ['"'])).reverse :: ·) := by
        rw [read_quoted, if_neg hesc, if_pos rfl, if_neg hagain]
        rfl
      have hnext : apart env (.text []) cs := by
        intro n hn
        have hnext := hplain.1
        rw [hn] at hnext hagain
        have hne : n ≠ '"' := fun heq => hagain (congrArg some heq)
        exact ⟨hne, by simpa [hne] using hnext⟩
      exact ⟨_, hR.closed_name ⟨rfl, rfl⟩ rfl hread (fun _ => hnext) fun hlast => by cases hlast⟩
  · rw [if_neg hquote, Bool.and_eq_true, Bool.not_eq_true'] at hplain
    rw [if_neg hquote] at hviews
    obtain ⟨R, hR⟩ := h (.name (c :: body) cs first rfl) hplain.2 hviews
    have hesc : ¬ (c = '\\' ∧ d.backslash = true) := by
      rintro ⟨hc, hd⟩
      simp [hc, hd] at hplain
    have hread : SqlText.read d (.quoted ⟨'"', d.backslash, true, first, false⟩ (body ++ ['"']))
        (c :: cs) = SqlText.read d (.quoted ⟨'"', d.backslash, true, first, false⟩
          (c :: body ++ ['"'])) cs := by
      rw [read_quoted, if_neg hesc, if_neg hquote]
      rfl
    exact ⟨R, hR.pass hread rfl id id⟩

theorem read_opened {before : List Char} {m : Mode} (h : opens d before c cs = some m) :
    SqlText.read d (.text before) (c :: cs) = SqlText.read d m cs := by
  simp only [SqlText.read, h]

/-- A comment is opened, where both find one. -/
theorem Follow.opened_comment {p : Place} {m : Mode} {before : List Char} (h : Follow env d cs)
    (hopens : opens d before c cs = some m) (howed : owed m = [' ']) (hsim : Sim d p m [] cs)
    (hplain : plain env d p [] cs = true) (hviews : append [' '] [' '] (views p cs) = some (k, f)) :
    ∃ R, Agrees env d (.text before) (c :: cs) k f R := by
  obtain ⟨ks, fs, hrest, rfl, rfl⟩ := append_eq_some hviews
  obtain ⟨R, hR⟩ := h hsim hplain hrest
  exact ⟨R, hR.opened_comment hopens howed⟩

/-- A character that opens nothing. -/
theorem Follow.char {before : List Char} (h : Follow env d cs)
    (hopens : opens d before c cs = none) (hplain : plain env d .text (c :: before) cs = true)
    (hviews : append [c] [c] (views .text cs) = some (k, f)) :
    ∃ R, Agrees env d (.text before) (c :: cs) k f R := by
  obtain ⟨ks, fs, hrest, rfl, rfl⟩ := append_eq_some hviews
  obtain ⟨R, hR⟩ := h (.text (c :: before) cs) hplain hrest
  refine ⟨_, hR.char hopens fun hglues hnext => ?_⟩
  -- a quoted name after a character that glues is not plain
  cases cs with
  | nil => cases hnext
  | cons n cs =>
    obtain rfl : n = '"' := Option.some.inj hnext
    simp [plain, hglues] at hplain

theorem Follow.text (h : Follow env d cs) (hbrackets : d.brackets = false) (hback : c ≠ backquote)
    (before : List Char) (hplain : plain env d .text before (c :: cs) = true)
    (hviews : views .text (c :: cs) = some (k, f)) :
    ∃ R, Agrees env d (.text before) (c :: cs) k f R := by
  simp only [plain] at hplain
  simp only [views] at hviews
  by_cases hhash : c = '#'
  · rw [if_pos hhash] at hviews
    cases hviews
  rw [if_neg hhash] at hviews
  by_cases hdash : c = '-' ∧ cs.head? = some '-'
  · rw [if_pos hdash] at hviews
    rw [if_pos hdash, Bool.and_eq_true] at hplain
    have hblank : d.dashesBlank → cs.tail.head?.all isBlank := fun hd => by
      simpa [hd] using hplain.1
    have hopens : opens d before c cs = some (.skip (.line ['-', '-'])) := by
      rw [opens, if_pos ⟨hdash.1, hdash.2, hblank⟩]
    cases cs with
    | nil => cases hdash.2
    | cons n cs => exact h.opened_comment hopens rfl (.skip (.line _ cs)) hplain.2 hviews
  rw [if_neg hdash] at hplain hviews
  have hline : ¬ (c = '-' ∧ cs.head? = some '-' ∧ (d.dashesBlank → cs.tail.head?.all isBlank)) :=
    fun hline => hdash ⟨hline.1, hline.2.1⟩
  have hcomment : ¬ (c = '#' ∧ d.hash = true) := fun hcomment => hhash hcomment.1
  by_cases hblock : c = '/' ∧ cs.head? = some '*'
  · rw [if_pos hblock] at hplain hviews
    have hopens : opens d before c cs = some (.skip (.block 0 ['*', '/'])) := by
      rw [opens, if_neg hline, if_neg hcomment, if_pos hblock]
    cases cs with
    | nil => cases hblock.2
    | cons n cs => exact h.opened_comment hopens rfl (.skip (.block _ cs)) hplain hviews
  rw [if_neg hblock] at hplain hviews
  by_cases hbracket : c = '[' ∧ bracketPasses cs = false
  · rw [if_pos hbracket] at hviews
    cases hviews
  rw [if_neg hbracket] at hviews
  by_cases hquote : c = '\''
  · rw [if_pos hquote] at hplain hviews
    have hopens : opens d before c cs = some (.quoted
        ⟨'\'', d.backslash || (d.prefixes && afterE before), false, true, false⟩ [c]) := by
      rw [opens, if_neg hline, if_neg hcomment, if_neg hblock, if_pos hquote]
    have hsim : Sim d .literal (.quoted
        ⟨'\'', d.backslash || (d.prefixes && afterE before), false, true, false⟩ [c]) [] cs :=
      .literal [c] cs rfl rfl
    obtain ⟨R, hR⟩ := h hsim hplain hviews
    exact ⟨R, hR.pass (read_opened hopens) rfl (fun _ => .inl rfl) fun _ => rfl⟩
  rw [if_neg hquote] at hplain hviews
  by_cases hname : c = '"'
  · subst hname
    simp only [if_true, Bool.and_eq_true, Bool.not_eq_true'] at hplain
    rw [if_pos rfl] at hviews
    have hopens : opens d before '"' cs = some (.quoted ⟨'"', d.backslash, true, true, false⟩
        ['"']) := by
      rw [opens, if_neg hline, if_neg hcomment, if_neg hblock, if_neg hquote, if_pos rfl,
        hplain.1.2]
    obtain ⟨R, hR⟩ := h (.name [] cs true rfl) hplain.2 hviews
    refine ⟨R, hR.pass (read_opened hopens) rfl (fun hjoined => ?_) fun hapart => ?_⟩
    · exact absurd rfl hjoined
    · exact absurd rfl (hapart '"' rfl).1
  rw [if_neg hname, Bool.and_eq_true, Bool.not_eq_true'] at hplain
  rw [if_neg hname] at hviews
  refine h.char ?_ hplain.2 hviews
  rw [opens, if_neg hline, if_neg hcomment, if_neg hblock, if_neg hquote, if_neg hname,
    if_neg (by simp [hbrackets]), if_neg (by simp [hback])]
  by_cases hdollar : c = '$' ∧ d.prefixes = true
  · rw [if_pos hdollar, Option.map_eq_none_iff]
    simpa [hdollar.1, hdollar.2] using hplain.1
  · rw [if_neg hdollar]

/-- The readers agree from where they stand together, on what is plain. -/
theorem follow (hbrackets : d.brackets = false) :
    ∀ cs : List Char, (∀ c ∈ cs, c ≠ backquote) → Follow env d cs
  | [], _, _, _, _, _, _, hsim, _, hviews => by
    cases hsim with
    | text =>
      cases hviews
      exact ⟨[], rfl, rfl, rfl, fun _ => rfl, fun _ => rfl, nofun⟩
    | line acc =>
      cases hviews
      refine ⟨[.comment false acc.reverse], rfl, rfl, ?_, nofun, nofun, fun _ => ?_⟩
      · exact (tokens_up_space []).symm
      · exact front_nil_of_glues glues_space
    | block | literal | name => cases hviews
  | c :: cs, hback, p, m, before, k, f, hsim, hplain, hviews => by
    have ih : Follow env d cs :=
      follow hbrackets cs fun c hc => hback c (List.mem_cons_of_mem _ hc)
    cases hsim with
    | skip hsim =>
      obtain ⟨R, hR⟩ := ih hsim hplain hviews
      exact ⟨R, hR.pass rfl rfl id id⟩
    | again cs hq =>
      have hplain' : plain env d (.name []) [] cs = true := by
        have hquote : (d.prefixes = false ∨ afterU [] = false) ∧
            plain env d (.name []) [] cs = true := by simpa [plain] using hplain
        exact hquote.2
      obtain ⟨R, hR⟩ := ih (.name [] cs false hq) hplain' hviews
      exact ⟨R, hR.pass rfl rfl id id⟩
    | line acc => exact ih.line acc hplain hviews
    | block acc => exact ih.block acc hplain hviews
    | literal acc _ hclose hname => exact ih.literal acc hclose hname hplain hviews
    | name body _ first hq => exact ih.name body hq hplain hviews
    | text => exact ih.text hbrackets (hback c List.mem_cons_self) before hplain hviews

/-! ## 5. What a reading finds of a query that passes -/

theorem isWord_of_space (env : Env) {c : Char} (h : Text.isSpace c = true) :
    env.isWord c = false := by
  have hascii : ∀ n : Fin 128, Text.isSpace (Char.ofNat n) = true →
      ((Char.ofNat n).isAlphanum || Char.ofNat n = '_') = false := by
    decide
  unfold Env.isWord
  split
  · next hlow =>
    have hc := hascii ⟨c.toNat, hlow⟩
    rw [Char.ofNat_toNat] at hc
    exact hc h
  · exact env.space c h

theorem tokens_blank {x : List Char} (h : ∀ c ∈ x, Text.isSpace c = true) (y : List Char) :
    env.tokens (x ++ y) = env.tokens y := by
  induction x with
  | nil => rfl
  | cons c x ih =>
    have hc := h c List.mem_cons_self
    exact (tokens_space hc (isWord_of_space env hc) _).trans
      (ih fun c' hc' => h c' (List.mem_cons_of_mem _ hc'))

theorem tokens_semicolons {x : List Char} (h : ∀ c ∈ x, c = ';') :
    ∀ t ∈ env.tokens x, t = .sym ';' := by
  induction x with
  | nil => exact fun t ht => absurd ht List.not_mem_nil
  | cons c x ih =>
    obtain rfl := h c List.mem_cons_self
    have hcons : env.tokens (';' :: x) = .sym ';' :: env.tokens x := by
      have hword : env.isWord ';' = false := rfl
      have hspace : Text.isSpace ';' = false := by decide
      simp [Env.tokens, tokens, grp, flush, hword, hspace]
    intro t ht
    rw [hcons] at ht
    rcases List.mem_cons.mp ht with rfl | ht
    · rfl
    · exact ih (fun c' hc' => h c' (List.mem_cons_of_mem _ hc')) t ht

/-- The semicolons of a view that has only one statement stand at its end. -/
theorem oneStatement {view : List Char} (h : manyStatements view = false) :
    OneStatement (env.tokens view) := by
  let start := view.dropWhile Text.isSpace
  let stripped := Text.stripChars view
  let core := stripped.rdropWhile (· = ';')
  have hcore : ';' ∉ core := by simpa [manyStatements] using h
  have hblank : ∀ c ∈ start.rtakeWhile Text.isSpace, Text.isSpace c = true :=
    fun c hc => List.mem_rtakeWhile_imp hc
  have hstart : env.tokens view = env.tokens start := by
    rw [← List.takeWhile_append_dropWhile (p := Text.isSpace) (l := view)]
    exact tokens_blank (fun c hc => List.mem_takeWhile_imp hc) _
  have hend : env.tokens start = env.tokens stripped := by
    have hcut : start = stripped ++ start.rtakeWhile Text.isSpace :=
      List.rdropWhile_append_rtakeWhile.symm
    have hnone : env.tokens (start.rtakeWhile Text.isSpace) = [] := by
      rw [← List.append_nil (start.rtakeWhile Text.isSpace)]
      exact tokens_blank hblank []
    conv_lhs => rw [hcut]
    rw [Env.tokens, tokens_append fun c hc => isWord_of_space env
      (hblank c (List.mem_of_mem_head? hc))]
    exact (congrArg _ hnone).trans (List.append_nil _)
  have hsemi (c : Char) (hc : c ∈ stripped.rtakeWhile (· = ';')) : c = ';' := by
    simpa using List.mem_rtakeWhile_imp hc
  have hparts : env.tokens view =
      env.tokens core ++ env.tokens (stripped.rtakeWhile (· = ';')) := by
    rw [hstart, hend]
    conv_lhs => rw [← List.rdropWhile_append_rtakeWhile (p := (· = ';')) (l := stripped)]
    refine tokens_append (fun c hc => ?_) _
    rw [hsemi c (List.mem_of_mem_head? hc)]
    rfl
  -- what follows a semicolon is among those at the end
  intro a b hab t ht
  rw [hparts] at hab
  rcases List.append_eq_append_iff.mp hab with ⟨x, -, hx⟩ | ⟨x, hx, hx'⟩
  · have hmem : t ∈ env.tokens (stripped.rtakeWhile (· = ';')) := by
      rw [hx]
      exact List.mem_append_right _ (List.mem_cons_of_mem _ ht)
    exact tokens_semicolons hsemi t hmem
  · cases x with
    | nil =>
      have hmem : t ∈ env.tokens (stripped.rtakeWhile (· = ';')) := by
        rw [← List.nil_append (env.tokens _), ← hx']
        exact List.mem_cons_of_mem _ ht
      exact tokens_semicolons hsemi t hmem
    | cons y x =>
      have hy : .sym ';' ∈ env.tokens core := by
        rw [hx, ← (List.cons.inj hx').1]
        exact List.mem_append_right _ List.mem_cons_self
      exact absurd (mem_of_sym hy) hcore

theorem no_backquote {cs : List Char} (h : unmodelled env cs = false) {c : Char} (hc : c ∈ cs) :
    c ≠ backquote := by
  rintro rfl
  obtain ⟨before, after, rfl⟩ := List.append_of_mem hc
  unfold unmodelled at h
  rw [List.any_eq_false] at h
  exact h (backquote :: after) ((List.mem_tails ..).mpr (List.suffix_append ..)) (by simp)

/-- **A query that passes is read as one statement that only reads**, by PostgreSQL and by MySQL,
where it is plain. -/
theorem readOnly_of_safe (env : Env) (d : Dialect) (hd : d = postgres ∨ d = mysql) (sql : String)
    (hsafe : validateSqlSafety env sql = none) (hplain : Plain env d sql) :
    ∃ R, reading d sql.toList = some R ∧ ReadOnly env R := by
  have hbrackets : d.brackets = false := by rcases hd with rfl | rfl <;> rfl
  unfold validateSqlSafety at hsafe
  split at hsafe
  · cases hsafe
  next hmodelled =>
  split at hsafe
  · cases hsafe
  next k f hviews =>
  have hback (c : Char) (hc : c ∈ sql.toList) : c ≠ backquote :=
    no_backquote (by simpa using hmodelled) hc
  obtain ⟨R, hR⟩ := follow hbrackets sql.toList hback (.text [] _) hplain hviews
  have hk : R.flatMap outside = k := hR.outside
  dsimp only at hsafe
  split at hsafe
  · cases hsafe
  next hmany =>
  split at hsafe
  · cases hsafe
  next hkeywords =>
  split at hsafe
  · cases hsafe
  next hcalls =>
  split at hsafe
  · cases hsafe
  next hlocks =>
  split at hsafe
  · next hselects =>
    refine ⟨R, hR.read, ?_, ?_, ?_, ?_, ?_⟩
    · rw [hk]
      exact oneStatement (by simpa using hmany)
    · rw [hk]
      exact hselects
    · rw [hk]
      intro kw hkw
      simpa using List.find?_eq_none.mp hkeywords kw hkw
    · rw [hk]
      simpa using hlocks
    · rw [← hR.tokens]
      intro name hname p hp
      have hnone := List.findSome?_eq_none_iff.mp hcalls p hp
      simpa using List.find?_eq_none.mp hnone name hname
  · cases hsafe

/-! ## 6. Two queries -/

/-- Texts of ASCII characters. -/
def asciiEnv : Env := ⟨fun c => [c], fun _ => false, fun _ _ => rfl⟩

/-- A call right after a word. -/
def gluedCall : String := "SELECT\"pg_sleep\"(10)"

/-- Names, a literal and comments, apart from each other. -/
def apartQuery : String :=
  "/* all */ SELECT \"a\"\"b\", 'it''s' FROM t WHERE n-1 > 0 -- of today\nORDER BY \"a\"\"b\";"

/-- A call that the one reader does not see. -/
theorem gluedCall_passes : ¬ ∀ sql d, (d = postgres ∨ d = mysql) →
    validateSqlSafety asciiEnv sql = none →
      ∃ R, reading d sql.toList = some R ∧ ReadOnly asciiEnv R := by
  intro h
  have hsafe : validateSqlSafety asciiEnv gluedCall = none := by decide +kernel
  have hcalled : (reading postgres gluedCall.toList).map (fun R =>
      called (asciiEnv.tokens (asciiEnv.up (spoken R)))) = some ["PG_SLEEP".toList] := by
    decide +kernel
  obtain ⟨R, hR, hread⟩ := h gluedCall postgres (.inl rfl) hsafe
  rw [hR, Option.map_some, Option.some.injEq] at hcalled
  have hnot := hread.calls "PG_SLEEP".toList (by rw [hcalled]; exact List.mem_cons_self)
    (.star "PG_SLEEP") List.mem_cons_self
  exact absurd hnot (by decide)

theorem readOnly_of_safe_apart :
    ∃ R, reading mysql apartQuery.toList = some R ∧ ReadOnly asciiEnv R :=
  readOnly_of_safe asciiEnv mysql (.inr rfl) apartQuery (by decide +kernel)
    (by unfold Plain; decide +kernel)

end Apowerb.Sqlgen
