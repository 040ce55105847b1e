/-
# Reading JSON

`json.loads`, over the characters of a text.  A parser returns what it read and the rest; what it
read does not depend on the rest (`value_exact`), except that a number ends where no more of its
characters follow.

* `loads_prefix`: where a text is an object, no beginning of it that stops before a character other
  than white space can be read.

Read as the code reads it: a key that comes twice keeps its place and its last value; `NaN` and the
infinities are objects that can only be shown.  A lone surrogate is read as the replacement
character.  The limits of Python on the depth of a value and on the digits of an `int` are left out.
A number is the longest run of characters that a number may hold: where Python's scanner stops
before the end of that run, what follows is refused.
-/
import Mathlib.Algebra.Group.Int.Defs
import Mathlib.Algebra.Group.Nat.Defs
import Apowerb.Value

namespace Apowerb.Json

/-! ## 1. The characters -/

/-- The white space of JSON. -/
def isWs (c : Char) : Bool := c = ' ' || c = '\t' || c = '\n' || c = '\r'

def skipWs (cs : List Char) : List Char := cs.dropWhile isWs

/-- The value of a hexadecimal digit. -/
def hexDigit (c : Char) : Option Nat :=
  if c.isDigit then some (c.toNat - 48)
  else if 'a' ≤ c ∧ c ≤ 'f' then some (c.toNat - 87)
  else if 'A' ≤ c ∧ c ≤ 'F' then some (c.toNat - 55)
  else none

/-- What follows a backslash, other than `u`. -/
def escapes : List (Char × Nat) :=
  [('"', 34), ('\\', 92), ('/', 47), ('b', 8), ('f', 12), ('n', 10), ('r', 13), ('t', 9)]

/-- Where a string stands: between two characters, after a backslash, or in a `\u` with the number
of digits to come and the value so far. -/
inductive Lex
  | plain
  | escape
  | hex (digits : Nat) (value : Nat)
deriving DecidableEq, Repr

/-- One character of a string: the code unit it completes, if any, and where the string stands
after it, `none` after the last quote; it may be refused. -/
def Lex.next : Lex → Char → Option (Option Nat × Option Lex)
  | .plain, c =>
    if c = '"' then some (none, none)
    else if c = '\\' then some (none, some .escape)
    else if c.toNat < 32 then none
    else some (some c.toNat, some .plain)
  | .escape, c =>
    if c = 'u' then some (none, some (.hex 4 0))
    else (escapes.lookup c).map fun u => (some u, some .plain)
  | .hex digits value, c =>
    (hexDigit c).map fun d =>
      if digits ≤ 1 then (some (16 * value + d), some .plain)
      else (none, some (.hex (digits - 1) (16 * value + d)))

/-- The code units of a string, from after its first quote, and what follows its last. -/
def units : Lex → List Char → Option (List Nat × List Char)
  | _, [] => none
  | st, c :: cs =>
    (st.next c).bind fun (u, st) =>
      match st with
      | none => some (u.toList, cs)
      | some st => (units st cs).map fun (us, rest) => (u.toList ++ us, rest)

/-- The first and the second half of a character beyond the basic plane. -/
def isHigh (u : Nat) : Bool := 0xd800 ≤ u && u ≤ 0xdbff
def isLow (u : Nat) : Bool := 0xdc00 ≤ u && u ≤ 0xdfff

/-- The characters of code units, after a first half or not. -/
def characters : Option Nat → List Nat → List Char
  | none, [] => []
  | some _, [] => [Char.ofNat 0xfffd]
  | none, u :: us =>
    if isHigh u then characters (some u) us
    else (if isLow u then Char.ofNat 0xfffd else Char.ofNat u) :: characters none us
  | some h, u :: us =>
    if isLow u then
      Char.ofNat (0x10000 + (h - 0xd800) * 0x400 + (u - 0xdc00)) :: characters none us
    else if isHigh u then Char.ofNat 0xfffd :: characters (some u) us
    else Char.ofNat 0xfffd :: Char.ofNat u :: characters none us

/-- A string, from after its first quote. -/
def string (cs : List Char) : Option (String × List Char) :=
  (units .plain cs).map fun (us, rest) => (String.ofList (characters none us), rest)

/-! ## 2. Numbers -/

/-- The characters of a number. -/
def isNumeric (c : Char) : Bool :=
  c.isDigit || c = '-' || c = '+' || c = '.' || c = 'e' || c = 'E'

def natural (cs : List Char) : Nat := cs.foldl (fun n c => 10 * n + (c.toNat - 48)) 0

/-- The exponent, from its `e`. -/
def exponent? : List Char → Option Int
  | e :: cs =>
    if e = 'e' ∨ e = 'E' then
      let (negative, digits) : Bool × List Char := match cs with
        | '-' :: rest => (true, rest)
        | '+' :: rest => (false, rest)
        | rest => (false, rest)
      if digits = [] ∨ ¬ digits.all Char.isDigit then none
      else some (if negative then -(natural digits : Int) else natural digits)
    else none
  | [] => none

/-- A decimal `sign digits * 10 ^ power`. -/
def decimal (negative : Bool) (digits : List Char) (power : Int) : Value :=
  let mantissa : Int := if negative then -(natural digits : Int) else natural digits
  if 0 ≤ power then .float (mantissa * 10 ^ power.toNat) 0 else .float mantissa (-power).toNat

/-- `(0|[1-9]\d*)(\.\d+)?([eE][-+]?\d+)?`. -/
def unsigned? (negative : Bool) (cs : List Char) : Option Value :=
  let whole := cs.takeWhile Char.isDigit
  if whole = [] ∨ (whole.head? = some '0' ∧ whole ≠ ['0']) then none
  else match cs.dropWhile Char.isDigit with
    | [] => some (.int (if negative then -(natural whole : Int) else natural whole))
    | '.' :: rest =>
      let fraction := rest.takeWhile Char.isDigit
      let rest := rest.dropWhile Char.isDigit
      if fraction = [] then none
      else if rest = [] then some (decimal negative (whole ++ fraction) (-(fraction.length : Int)))
      else (exponent? rest).map fun e => decimal negative (whole ++ fraction) (e - fraction.length)
    | rest => (exponent? rest).map (decimal negative whole)

/-- The same, after a sign or none. -/
def number? : List Char → Option Value
  | '-' :: cs => unsigned? true cs
  | cs => unsigned? false cs

/-- The words that stand for a value. -/
def words : List (List Char × Value) :=
  [("null".toList, .null), ("true".toList, .bool true), ("false".toList, .bool false),
    ("NaN".toList, .object "nan"), ("Infinity".toList, .object "inf"),
    ("-Infinity".toList, .object "-inf")]

/-- A number or a word. -/
def scalar (cs : List Char) : Option (Value × List Char) :=
  match number? (cs.takeWhile isNumeric) with
  | some v => some (v, cs.dropWhile isNumeric)
  | none => (words.find? (·.1.isPrefixOf cs)).map fun w => (w.2, cs.drop w.1.length)

/-! ## 3. Values -/

/-- The next character other than white space. -/
def next (cs : List Char) : Option (Char × List Char) :=
  match skipWs cs with
  | [] => none
  | c :: rest => some (c, rest)

/-- What stands after an opening bracket: the closing one, or what `f` reads. -/
def bracketed {β : Type} (close : Char) (empty : β) (f : List Char → Option (β × List Char))
    (cs : List Char) : Option (β × List Char) :=
  if (skipWs cs).head? = some close then some (empty, (skipWs cs).tail) else f (skipWs cs)

mutual

/-- A value and the rest, from its first character. -/
def value : Nat → List Char → Option (Value × List Char)
  | 0, _ => none
  | _ + 1, [] => none
  | n + 1, c :: cs =>
    if c = '"' then (string cs).map fun (s, rest) => (.str s, rest)
    else if c = '[' then (bracketed ']' [] (items n) cs).map fun (vs, rest) => (.list vs, rest)
    else if c = '{' then
      (bracketed '}' [] (entries n []) cs).map fun (es, rest) => (.dict es, rest)
    else scalar (c :: cs)

/-- The values of a list, from the first character of one. -/
def items : Nat → List Char → Option (List Value × List Char)
  | 0, _ => none
  | n + 1, cs =>
    (value n cs).bind fun (v, rest) =>
      (next rest).bind fun (c, rest) =>
        if c = ',' then (items n (skipWs rest)).map fun (vs, rest) => (v :: vs, rest)
        else if c = ']' then some ([v], rest)
        else none

/-- The entries of an object, from the quote of a key, after those read before. -/
def entries : Nat → Dict → List Char → Option (Dict × List Char)
  | 0, _, _ => none
  | _ + 1, _, [] => none
  | n + 1, before, q :: cs =>
    if q ≠ '"' then none
    else (string cs).bind fun (key, rest) =>
      (next rest).bind fun (c, rest) =>
        if c ≠ ':' then none
        else (value n (skipWs rest)).bind fun (v, rest) =>
          (next rest).bind fun (c, rest) =>
            if c = ',' then entries n (before.put key v) (skipWs rest)
            else if c = '}' then some (before.put key v, rest)
            else none

end

/-- `json.loads(text)`. -/
def loads (cs : List Char) : Option Value :=
  match value (cs.length + 1) (skipWs cs) with
  | some (v, rest) => if skipWs rest = [] then some v else none
  | none => none

example : loads "[1, -2.50, \"\\u00e9\", \x7b\"a\": 1, \"a\": null\x7d] ".toList =
    some (.list [.int 1, .float (-250) 2, .str "é", .dict [("a", .null)]]) := by decide +kernel

/-! ## 4. What is read does not depend on the rest -/

variable {n m : Nat} {cs rest : List Char} {v : Value} {d : Dict}

/-- `f` has read `b` and left `rest`, and it reads the same before any rest that begins as `ends`
says. -/
def Reads {β : Type} (f : List Char → Option (β × List Char)) (ends : Option Char → Prop)
    (cs : List Char) (b : β) (rest : List Char) : Prop :=
  ∃ u, u ≠ [] ∧ cs = u ++ rest ∧ ∀ x, ends x.head? → f (u ++ x) = some (b, x)

/-- Any rest. -/
def anyRest (_ : Option Char) : Prop := True

section Readers

variable {α β : Type} {f : List Char → Option (α × List Char)}
  {g : α → List Char → Option (β × List Char)} {ends ends' : Option Char → Prop} {a : α} {b : β}
  {mid : List Char}

theorem Reads.bind (hf : Reads f ends cs a mid) (hends : ends mid.head?)
    (hg : Reads (g a) ends' mid b rest) :
    Reads (fun cs => (f cs).bind fun p => g p.1 p.2) ends' cs b rest := by
  obtain ⟨u, hu, rfl, hx⟩ := hf
  obtain ⟨w, hw, rfl, hy⟩ := hg
  refine ⟨u ++ w, by simp [hu], by simp, fun x hxe => ?_⟩
  have hhead : (w ++ x).head? = (w ++ rest).head? := by
    cases w with
    | nil => exact absurd rfl hw
    | cons c w => rfl
  have hread := hx (w ++ x) (by rw [hhead]; exact hends)
  simp [hread, hy x hxe]

/-- The last character decides alone. -/
theorem Reads.bind_last (hf : Reads f ends cs a rest) (hg : ∀ x, g a x = some (b, x)) :
    Reads (fun cs => (f cs).bind fun p => g p.1 p.2) ends cs b rest := by
  obtain ⟨u, hu, rfl, hx⟩ := hf
  exact ⟨u, hu, rfl, fun x hxe => by simp [hx x hxe, hg]⟩

theorem Reads.map (hf : Reads f ends cs a rest) (h : α → β) :
    Reads (fun cs => (f cs).map fun p => (h p.1, p.2)) ends cs (h a) rest := by
  obtain ⟨u, hu, rfl, hx⟩ := hf
  exact ⟨u, hu, rfl, fun x hxe => by simp [hx x hxe]⟩

/-- One character in front. -/
theorem Reads.cons {f' : List Char → Option (α × List Char)} {c : Char}
    (hf : Reads f ends cs a rest) (h : ∀ x, f' (c :: x) = f x) : Reads f' ends (c :: cs) a rest := by
  obtain ⟨u, -, rfl, hx⟩ := hf
  exact ⟨c :: u, by simp, rfl, fun x hxe => by simp [h, hx x hxe]⟩

theorem Reads.mono (hf : Reads f ends cs a rest) (h : ∀ o, ends' o → ends o) :
    Reads f ends' cs a rest := by
  obtain ⟨u, hu, hcs, hx⟩ := hf
  exact ⟨u, hu, hcs, fun x hxe => hx x (h _ hxe)⟩

theorem Reads.congr {f' : List Char → Option (α × List Char)} (hf : Reads f ends cs a rest)
    (h : ∀ x, f' x = f x) : Reads f' ends cs a rest := by
  obtain ⟨u, hu, hcs, hx⟩ := hf
  exact ⟨u, hu, hcs, fun x hxe => by rw [h, hx x hxe]⟩

end Readers

theorem skipWs_eq (cs : List Char) : ∃ ws, cs = ws ++ skipWs cs ∧ ∀ c ∈ ws, isWs c = true :=
  ⟨cs.takeWhile isWs, List.takeWhile_append_dropWhile.symm, fun _ hc => List.mem_takeWhile_imp hc⟩

theorem skipWs_cons_head {c : Char} {x : List Char} (h : skipWs cs = c :: x) : isWs c = false := by
  have hhead := List.head?_dropWhile_not isWs cs
  unfold skipWs at h
  rw [h] at hhead
  simpa using hhead

/-- White space in front is skipped. -/
theorem skipWs_append {ws : List Char} {c : Char} (hws : ∀ c ∈ ws, isWs c = true)
    (hc : isWs c = false) (x : List Char) : skipWs (ws ++ c :: x) = c :: x := by
  unfold skipWs
  rw [List.dropWhile_append_of_pos hws]
  simp [hc]

theorem next_exact {c : Char} (h : next cs = some (c, rest)) : Reads next anyRest cs c rest := by
  unfold next at h
  split at h
  · cases h
  · rename_i hskip
    cases h
    obtain ⟨ws, hcs, hws⟩ := skipWs_eq cs
    refine ⟨ws ++ [c], by simp, by rw [hcs, hskip]; simp, fun x _ => ?_⟩
    have hstart : skipWs (ws ++ c :: x) = c :: x := skipWs_append hws (skipWs_cons_head hskip) x
    simp [next, hstart]

/-- What is read after white space. -/
theorem Reads.skip {β : Type} {f : List Char → Option (β × List Char)} {ends : Option Char → Prop}
    {b : β} (h : Reads f ends (skipWs cs) b rest) :
    Reads (fun cs => f (skipWs cs)) ends cs b rest := by
  obtain ⟨u, hu, hskip, hx⟩ := h
  obtain ⟨ws, hcs, hws⟩ := skipWs_eq cs
  cases u with
  | nil => exact absurd rfl hu
  | cons c u =>
    refine ⟨ws ++ c :: u, by simp, by rw [hcs, hskip]; simp, fun x hxe => ?_⟩
    have hstart : skipWs (ws ++ c :: (u ++ x)) = c :: (u ++ x) :=
      skipWs_append hws (skipWs_cons_head hskip) _
    simpa [hstart] using hx x hxe

theorem bracketed_exact {β : Type} {close : Char} {empty b : β}
    {f : List Char → Option (β × List Char)}
    (hf : ∀ cs b rest, f cs = some (b, rest) → Reads f anyRest cs b rest)
    (h : bracketed close empty f cs = some (b, rest)) :
    Reads (bracketed close empty f) anyRest cs b rest := by
  unfold bracketed at h
  obtain ⟨ws, hcs, hws⟩ := skipWs_eq cs
  split at h
  · rename_i hclose
    cases h
    obtain ⟨x, hskip⟩ : ∃ x, skipWs cs = close :: x := by
      cases hs : skipWs cs with
      | nil => simp [hs] at hclose
      | cons c x =>
        rw [hs] at hclose
        cases hclose
        exact ⟨x, rfl⟩
    have hwhole : cs = (ws ++ [close]) ++ (skipWs cs).tail := by
      conv_lhs => rw [hcs, hskip]
      simp [hskip]
    refine ⟨ws ++ [close], by simp, hwhole, fun y _ => ?_⟩
    have hstart : skipWs (ws ++ close :: y) = close :: y :=
      skipWs_append hws (skipWs_cons_head hskip) y
    simp [bracketed, hstart]
  · rename_i hopen
    obtain ⟨u, hu, hskip, hx⟩ := hf _ _ _ h
    cases u with
    | nil => exact absurd rfl hu
    | cons c u =>
      refine ⟨ws ++ c :: u, by simp, by rw [hcs, hskip]; simp, fun y hy => ?_⟩
      have hstart : skipWs (ws ++ c :: (u ++ y)) = c :: (u ++ y) :=
        skipWs_append hws (skipWs_cons_head hskip) _
      rw [hskip] at hopen
      have hne : ¬ some c = some close := by simpa using hopen
      simpa [bracketed, hstart, hne] using hx y hy

theorem units_exact {st : Lex} {us : List Nat} (h : units st cs = some (us, rest)) :
    Reads (units st) anyRest cs us rest := by
  induction cs generalizing st us with
  | nil => cases h
  | cons c cs ih =>
    simp only [units] at h
    obtain ⟨⟨out, st'⟩, hnext, h⟩ := Option.bind_eq_some_iff.mp h
    cases st' with
    | none =>
      cases h
      exact ⟨[c], by simp, rfl, fun x _ => by simp [units, hnext]⟩
    | some st' =>
      obtain ⟨⟨us', rest'⟩, hus, heq⟩ := Option.map_eq_some_iff.mp h
      cases heq
      exact ((ih hus).map (out.toList ++ ·)).cons fun x => by simp [units, hnext]

theorem string_exact {s : String} (h : string cs = some (s, rest)) :
    Reads string anyRest cs s rest := by
  obtain ⟨⟨us, rest'⟩, hus, heq⟩ := Option.map_eq_some_iff.mp h
  cases heq
  exact (units_exact hus).map fun us => String.ofList (characters none us)

/-- No more characters of a number follow, unless the value is an object. -/
def Ends (v : Value) (next : Option Char) : Prop :=
  v.isDict = true ∨ ∀ c ∈ next, isNumeric c = false

theorem decimal_isDict (negative : Bool) (digits : List Char) (power : Int) :
    (decimal negative digits power).isDict = false := by
  unfold decimal
  dsimp only
  split <;> split <;> rfl

theorem unsigned_isDict {negative : Bool} (h : unsigned? negative cs = some v) :
    v.isDict = false := by
  unfold unsigned? at h
  dsimp only at h
  split at h
  · cases h
  · split at h
    · cases h
      rfl
    · split at h
      · cases h
      · split at h
        · cases h
          exact decimal_isDict _ _ _
        · obtain ⟨e, -, rfl⟩ := Option.map_eq_some_iff.mp h
          exact decimal_isDict _ _ _
    · obtain ⟨e, -, rfl⟩ := Option.map_eq_some_iff.mp h
      exact decimal_isDict _ _ _

theorem number_isDict (h : number? cs = some v) : v.isDict = false := by
  unfold number? at h
  split at h
  · exact unsigned_isDict h
  · exact unsigned_isDict h

theorem scalar_exact (h : scalar cs = some (v, rest)) :
    v.isDict = false ∧ Reads scalar (Ends v) cs v rest := by
  unfold scalar at h
  split at h
  · rename_i v' hnumber
    cases h
    have hdict := number_isDict hnumber
    refine ⟨hdict, cs.takeWhile isNumeric, ?_, List.takeWhile_append_dropWhile.symm, ?_⟩
    · intro hnil
      rw [hnil] at hnumber
      cases hnumber
    · intro x hx
      have hall : ∀ c ∈ cs.takeWhile isNumeric, isNumeric c = true :=
        fun c hc => List.mem_takeWhile_imp hc
      have hnone : ∀ c ∈ x.head?, isNumeric c = false :=
        hx.resolve_left (by rw [hdict]; decide)
      have htake : x.takeWhile isNumeric = [] := by
        cases x with
        | nil => rfl
        | cons c x => simp [hnone c rfl]
      have hdrop : x.dropWhile isNumeric = x := by
        cases x with
        | nil => rfl
        | cons c x => simp [hnone c rfl]
      simp only [scalar, List.takeWhile_append_of_pos hall, List.dropWhile_append_of_pos hall, htake,
        hdrop, List.append_nil, hnumber]
  · obtain ⟨⟨word, v'⟩, hfind, heq⟩ := Option.map_eq_some_iff.mp h
    cases heq
    have hword : (word, v') ∈ words := List.mem_of_find?_eq_some hfind
    have hprefix : word.isPrefixOf cs = true := by simpa using List.find?_some hfind
    obtain ⟨tail, rfl⟩ := List.isPrefixOf_iff_prefix.mp hprefix
    have hscalar : ∀ w ∈ words, w.2.isDict = false ∧ w.1 ≠ [] := by decide
    obtain ⟨hdict, hne⟩ := hscalar _ hword
    refine ⟨hdict, word, hne, by simp, fun x _ => ?_⟩
    -- No word is the beginning of another, or of a number.
    simp only [words, List.mem_cons, List.not_mem_nil, or_false, Prod.mk.injEq] at hword
    rcases hword with ⟨rfl, rfl⟩ | ⟨rfl, rfl⟩ | ⟨rfl, rfl⟩ | ⟨rfl, rfl⟩ | ⟨rfl, rfl⟩ | ⟨rfl, rfl⟩ <;> rfl

/-- White space holds no character of a number. -/
theorem isWs_not_numeric {c : Char} (h : isWs c = true) : isNumeric c = false := by
  simp only [isWs, Bool.or_eq_true, decide_eq_true_eq] at h
  rcases h with ((rfl | rfl) | rfl) | rfl <;> decide

/-- What stands after a value of a list or an object ends it. -/
theorem Ends.of_next {c : Char} {x : List Char} (h : next rest = some (c, x))
    (hc : isNumeric c = false) : Ends v rest.head? := by
  unfold next at h
  split at h
  · cases h
  · rename_i hskip
    cases h
    obtain ⟨ws, hcs, hws⟩ := skipWs_eq rest
    refine .inr fun b hb => ?_
    rw [hcs, hskip] at hb
    cases ws with
    | nil =>
      cases hb
      exact hc
    | cons w ws =>
      cases hb
      exact isWs_not_numeric (hws b (List.mem_cons_self ..))

section Step

variable (ihvalue : ∀ cs v rest, value n cs = some (v, rest) → Reads (value n) (Ends v) cs v rest)
  (ihitems : ∀ cs vs rest, items n cs = some (vs, rest) → Reads (items n) anyRest cs vs rest)
  (ihentries : ∀ before cs d rest, entries n before cs = some (d, rest) →
    Reads (entries n before) anyRest cs d rest)

include ihitems ihentries in
theorem value_exact_step (h : value (n + 1) cs = some (v, rest)) :
    Reads (value (n + 1)) (Ends v) cs v rest := by
  cases cs with
  | nil => simp [value] at h
  | cons c cs =>
    simp only [value] at h
    split at h
    · rename_i hquote
      obtain ⟨⟨s, rest'⟩, hs, heq⟩ := Option.map_eq_some_iff.mp h
      cases heq
      refine (((string_exact hs).map Value.str).cons fun x => ?_).mono fun _ _ => trivial
      simp [value, hquote]
    · rename_i hquote
      split at h
      · rename_i hlist
        obtain ⟨⟨vs, rest'⟩, hvs, heq⟩ := Option.map_eq_some_iff.mp h
        cases heq
        have hread := (bracketed_exact ihitems hvs).map Value.list
        refine (hread.cons fun x => ?_).mono fun _ _ => trivial
        simp [value, hlist]
      · rename_i hlist
        split at h
        · rename_i hdict
          obtain ⟨⟨es, rest'⟩, hes, heq⟩ := Option.map_eq_some_iff.mp h
          cases heq
          have hread := (bracketed_exact (ihentries []) hes).map Value.dict
          refine (hread.cons fun x => ?_).mono fun _ _ => trivial
          simp [value, hdict]
        · rename_i hdict
          obtain ⟨-, u, hu, hcs, hx⟩ := scalar_exact h
          cases u with
          | nil => exact absurd rfl hu
          | cons b u =>
            cases hcs
            exact ⟨c :: u, by simp, rfl, fun x hxe => by
              simpa [value, hquote, hlist, hdict] using hx x hxe⟩

include ihvalue ihitems in
theorem items_exact_step {vs : List Value} (h : items (n + 1) cs = some (vs, rest)) :
    Reads (items (n + 1)) anyRest cs vs rest := by
  simp only [items] at h
  obtain ⟨⟨v, mid⟩, hv, h⟩ := Option.bind_eq_some_iff.mp h
  obtain ⟨⟨c, mid'⟩, hc, h⟩ := Option.bind_eq_some_iff.mp h
  dsimp only at h
  -- What follows a value: the character after it, then the other values.
  let after (v : Value) (c : Char) (rest : List Char) : Option (List Value × List Char) :=
    if c = ',' then (items n (skipWs rest)).map fun p => (v :: p.1, p.2)
    else if c = ']' then some ([v], rest)
    else none
  have hafter : Reads (fun cs => (next cs).bind fun p => after v p.1 p.2) anyRest mid vs rest ∧
      isNumeric c = false := by
    split at h
    · rename_i hcomma
      obtain ⟨⟨vs', rest'⟩, hvs, heq⟩ := Option.map_eq_some_iff.mp h
      cases heq
      have hmore := ((ihitems _ _ _ hvs).map (v :: ·)).skip
      exact ⟨(next_exact hc).bind trivial (hmore.congr fun x => by simp [after, hcomma]),
        by rw [hcomma]; decide⟩
    · rename_i hcomma
      split at h
      · rename_i hclose
        cases h
        exact ⟨(next_exact hc).bind_last fun x => by simp [after, hclose],
          by rw [hclose]; decide⟩
      · cases h
  have hread := (ihvalue _ _ _ hv).bind (g := fun v cs => (next cs).bind fun p => after v p.1 p.2)
    (Ends.of_next hc hafter.2) hafter.1
  exact hread.congr fun x => by simp [items, after]

include ihvalue ihentries in
theorem entries_exact_step {before : Dict} (h : entries (n + 1) before cs = some (d, rest)) :
    Reads (entries (n + 1) before) anyRest cs d rest := by
  cases cs with
  | nil => simp [entries] at h
  | cons q cs =>
    simp only [entries] at h
    split at h
    · cases h
    · rename_i hquote
      obtain ⟨⟨key, mid⟩, hkey, h⟩ := Option.bind_eq_some_iff.mp h
      obtain ⟨⟨c, mid'⟩, hc, h⟩ := Option.bind_eq_some_iff.mp h
      dsimp only at h
      split at h
      · cases h
      · rename_i hcolon
        obtain ⟨⟨v, mid''⟩, hv, h⟩ := Option.bind_eq_some_iff.mp h
        obtain ⟨⟨e, last⟩, he, h⟩ := Option.bind_eq_some_iff.mp h
        dsimp only at h
        -- What follows a value: the character after it, then the other entries.
        let after (key : String) (v : Value) (c : Char) (rest : List Char) :
            Option (Dict × List Char) :=
          if c = ',' then entries n (before.put key v) (skipWs rest)
          else if c = '}' then some (before.put key v, rest)
          else none
        have hafter :
            Reads (fun cs => (next cs).bind fun p => after key v p.1 p.2) anyRest mid'' d rest ∧
              isNumeric e = false := by
          split at h
          · rename_i hcomma
            have hmore := (ihentries _ _ _ _ h).skip
            exact ⟨(next_exact he).bind trivial (hmore.congr fun x => by simp [after, hcomma]),
              by rw [hcomma]; decide⟩
          · rename_i hcomma
            split at h
            · rename_i hclose
              cases h
              exact ⟨(next_exact he).bind_last fun x => by simp [after, hclose],
                by rw [hclose]; decide⟩
            · cases h
        have hvalue := ((ihvalue _ _ _ hv).skip).bind
          (g := fun v cs => (next cs).bind fun p => after key v p.1 p.2)
          (Ends.of_next he hafter.2) hafter.1
        let colon (key : String) (c : Char) (rest : List Char) : Option (Dict × List Char) :=
          if c ≠ ':' then none
          else (value n (skipWs rest)).bind fun p => (next p.2).bind fun r => after key p.1 r.1 r.2
        have hpair :
            Reads (fun cs => (next cs).bind fun p => colon key p.1 p.2) anyRest mid d rest :=
          (next_exact hc).bind trivial (hvalue.congr fun x => by simp [colon, hcolon])
        have hread := (string_exact hkey).bind
          (g := fun key cs => (next cs).bind fun p => colon key p.1 p.2) trivial hpair
        refine hread.cons fun x => ?_
        simp [entries, hquote, colon, after]

end Step

/-- **What is read does not depend on the rest.** -/
theorem value_exact (n : Nat) :
    (∀ cs v rest, value n cs = some (v, rest) → Reads (value n) (Ends v) cs v rest) ∧
    (∀ cs vs rest, items n cs = some (vs, rest) → Reads (items n) anyRest cs vs rest) ∧
    ∀ before cs d rest, entries n before cs = some (d, rest) →
      Reads (entries n before) anyRest cs d rest := by
  induction n with
  | zero =>
    refine ⟨fun _ _ _ h => ?_, fun _ _ _ h => ?_, fun _ _ _ _ h => ?_⟩
    · simp [value] at h
    · simp [items] at h
    · simp [entries] at h
  | succ n ih =>
    obtain ⟨ihvalue, ihitems, ihentries⟩ := ih
    exact ⟨fun _ _ _ h => value_exact_step ihitems ihentries h,
      fun _ _ _ h => items_exact_step ihvalue ihitems h,
      fun _ _ _ _ h => entries_exact_step ihvalue ihentries h⟩

/-- More fuel reads the same. -/
theorem value_succ (n : Nat) :
    (∀ cs p, value n cs = some p → value (n + 1) cs = some p) ∧
    (∀ cs p, items n cs = some p → items (n + 1) cs = some p) ∧
    ∀ before cs p, entries n before cs = some p → entries (n + 1) before cs = some p := by
  induction n with
  | zero =>
    refine ⟨fun _ _ h => ?_, fun _ _ h => ?_, fun _ _ _ h => ?_⟩
    · simp [value] at h
    · simp [items] at h
    · simp [entries] at h
  | succ n ih =>
    obtain ⟨ihvalue, ihitems, ihentries⟩ := ih
    have hbracketed : ∀ {β : Type} {f g : List Char → Option (β × List Char)} {close : Char}
        {empty : β} {cs : List Char} {p : β × List Char},
        (∀ cs p, f cs = some p → g cs = some p) → bracketed close empty f cs = some p →
          bracketed close empty g cs = some p := by
      intro β f g close empty cs p hfg h
      unfold bracketed at h ⊢
      split at h
      · rename_i hclose
        rw [if_pos hclose]
        exact h
      · rename_i hopen
        rw [if_neg hopen]
        exact hfg _ _ h
    refine ⟨fun cs p h => ?_, fun cs p h => ?_, fun before cs p h => ?_⟩
    · cases cs with
      | nil => simp [value] at h
      | cons c cs =>
        unfold value at h ⊢
        split at h
        · rename_i hquote
          rw [if_pos hquote]
          exact h
        · rename_i hquote
          rw [if_neg hquote]
          split at h
          · rename_i hlist
            obtain ⟨q, hq, rfl⟩ := Option.map_eq_some_iff.mp h
            rw [if_pos hlist, hbracketed ihitems hq]
            rfl
          · rename_i hlist
            rw [if_neg hlist]
            split at h
            · rename_i hdict
              obtain ⟨q, hq, rfl⟩ := Option.map_eq_some_iff.mp h
              rw [if_pos hdict, hbracketed (ihentries []) hq]
              rfl
            · rename_i hdict
              rw [if_neg hdict]
              exact h
    · unfold items at h ⊢
      obtain ⟨⟨v, mid⟩, hv, h⟩ := Option.bind_eq_some_iff.mp h
      obtain ⟨⟨c, mid'⟩, hc, h⟩ := Option.bind_eq_some_iff.mp h
      simp only [ihvalue _ _ hv, hc, Option.bind_some]
      dsimp only at h
      split at h
      · rename_i hcomma
        obtain ⟨q, hq, rfl⟩ := Option.map_eq_some_iff.mp h
        rw [if_pos hcomma, ihitems _ _ hq]
        rfl
      · rename_i hcomma
        rw [if_neg hcomma]
        exact h
    · cases cs with
      | nil => simp [entries] at h
      | cons q cs =>
        unfold entries at h ⊢
        split at h
        · cases h
        · rename_i hquote
          rw [if_neg hquote]
          obtain ⟨⟨key, mid⟩, hkey, h⟩ := Option.bind_eq_some_iff.mp h
          obtain ⟨⟨c, mid'⟩, hc, h⟩ := Option.bind_eq_some_iff.mp h
          simp only [hkey, hc, Option.bind_some]
          dsimp only at h
          split at h
          · cases h
          · rename_i hcolon
            rw [if_neg hcolon]
            obtain ⟨⟨v, mid''⟩, hv, h⟩ := Option.bind_eq_some_iff.mp h
            obtain ⟨⟨e, last⟩, he, h⟩ := Option.bind_eq_some_iff.mp h
            simp only [ihvalue _ _ hv, he, Option.bind_some]
            dsimp only at h
            split at h
            · rename_i hcomma
              rw [if_pos hcomma]
              exact ihentries _ _ _ h
            · rename_i hcomma
              rw [if_neg hcomma]
              exact h

theorem value_fuel {p : Value × List Char} (h : value n cs = some p) (hle : n ≤ m) :
    value m cs = some p := by
  induction hle with
  | refl => exact h
  | step _ ih => exact (value_succ _).1 _ _ ih

/-! ## 5. The beginning of an object -/

/-- A value is an object exactly where it begins with the bracket of one. -/
theorem value_isDict {c : Char} (h : value n (c :: cs) = some (v, rest)) :
    v.isDict = true ↔ c = '{' := by
  cases n with
  | zero => simp [value] at h
  | succ n =>
    unfold value at h
    split at h
    · rename_i hquote
      obtain ⟨q, -, heq⟩ := Option.map_eq_some_iff.mp h
      cases heq
      simp [hquote, Value.isDict]
    · split at h
      · rename_i hlist
        obtain ⟨q, -, heq⟩ := Option.map_eq_some_iff.mp h
        cases heq
        simp [hlist, Value.isDict]
      · split at h
        · rename_i hdict
          obtain ⟨q, -, heq⟩ := Option.map_eq_some_iff.mp h
          cases heq
          simp [hdict, Value.isDict]
        · rename_i hdict
          simp [(scalar_exact h).1, hdict]

theorem loads_eq_some : loads cs = some v ↔
    ∃ rest, value (cs.length + 1) (skipWs cs) = some (v, rest) ∧ skipWs rest = [] := by
  unfold loads
  constructor
  · intro h
    split at h
    · rename_i v' rest hvalue
      split at h
      · rename_i hend
        cases h
        exact ⟨rest, hvalue, hend⟩
      · cases h
    · cases h
  · rintro ⟨rest, hvalue, hend⟩
    simp [hvalue, hend]

/-- What can be read begins, after white space, with what decides what it is. -/
theorem skipWs_append_right {p : List Char} {c : Char} {x : List Char} (h : skipWs p = c :: x)
    (rest : List Char) : skipWs (p ++ rest) = c :: (x ++ rest) := by
  obtain ⟨ws, hp, hws⟩ := skipWs_eq p
  rw [h] at hp
  rw [hp, List.append_assoc]
  exact skipWs_append hws (skipWs_cons_head h) _

/-- **The beginning of an object that can be read is the object**, and white space follows it. -/
theorem loads_prefix {p : List Char} (h : loads (p ++ rest) = some (.dict d))
    (hp : loads p = some v) : v = .dict d ∧ ∀ c ∈ rest, isWs c = true := by
  obtain ⟨tail, hvalue, hend⟩ := loads_eq_some.mp h
  obtain ⟨tail', hvalue', hend'⟩ := loads_eq_some.mp hp
  cases hskip : skipWs p with
  | nil =>
    rw [hskip] at hvalue'
    simp [value] at hvalue'
  | cons c x =>
    rw [hskip] at hvalue'
    rw [skipWs_append_right hskip] at hvalue
    have hbracket : c = '{' := (value_isDict hvalue).mp rfl
    have hdict : v.isDict = true := (value_isDict hvalue').mpr hbracket
    -- The same characters are read from the longer text.
    obtain ⟨u, hu, hcut, hread⟩ := (value_exact _).1 _ _ _ hvalue'
    have hlonger := value_fuel (hread (tail' ++ rest) (.inl hdict))
      (show p.length + 1 ≤ (p ++ rest).length + 1 by simp)
    rw [← List.append_assoc, ← hcut, List.cons_append, hvalue] at hlonger
    cases hlonger
    refine ⟨rfl, fun c hc => ?_⟩
    have hall : ∀ c ∈ tail' ++ rest, isWs c = true := by
      simpa [skipWs, List.dropWhile_eq_nil_iff] using hend
    exact hall c (List.mem_append_right _ hc)

/-- A text that is an object begins with its bracket, after white space. -/
theorem loads_dict (h : loads cs = some (.dict d)) :
    ∃ ws x, cs = ws ++ '{' :: x ∧ ∀ c ∈ ws, isWs c = true := by
  obtain ⟨tail, hvalue, -⟩ := loads_eq_some.mp h
  obtain ⟨ws, hcs, hws⟩ := skipWs_eq cs
  cases hskip : skipWs cs with
  | nil =>
    rw [hskip] at hvalue
    simp [value] at hvalue
  | cons c x =>
    rw [hskip] at hvalue hcs
    obtain rfl : c = '{' := (value_isDict hvalue).mp rfl
    exact ⟨ws, x, hcs, hws⟩

end Apowerb.Json
