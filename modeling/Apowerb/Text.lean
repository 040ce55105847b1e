/-
# Text

The methods of Python's `str` that the modelled code calls, over the list of characters of a Lean
`String`.  A Python string is a sequence of code points; the surrogate code points, which a Lean
`Char` cannot hold, are left out.

`str.lower` needs the full Unicode case tables, and no result depends on what it returns: where
the code lowers a name it is a parameter of the model.
-/
import Mathlib.Data.List.Dedup
import Mathlib.Data.List.DropRight
import Mathlib.Data.List.Sort

namespace Apowerb.Text

/-! ## 1. White space -/

/-- `str.isspace` on one character: the white-space characters of Python's `str`. -/
def isSpace (c : Char) : Bool :=
  let n := c.toNat
  (9 ≤ n && n ≤ 13) || (28 ≤ n && n ≤ 32) || n == 0x85 || n == 0xa0 || n == 0x1680 ||
    (0x2000 ≤ n && n ≤ 0x200a) || n == 0x2028 || n == 0x2029 || n == 0x202f || n == 0x205f ||
    n == 0x3000

/-- `str.strip` on characters. -/
def stripChars (cs : List Char) : List Char := (cs.dropWhile isSpace).rdropWhile isSpace

/-- `str.strip`. -/
def strip (s : String) : String := String.ofList (stripChars s.toList)

theorem stripChars_stripChars (cs : List Char) : stripChars (stripChars cs) = stripChars cs := by
  unfold stripChars
  have hdrop : ((cs.dropWhile isSpace).rdropWhile isSpace).dropWhile isSpace =
      (cs.dropWhile isSpace).rdropWhile isSpace := by
    rw [List.dropWhile_eq_self_iff]
    intro hpos
    have hprefix := List.rdropWhile_prefix isSpace (cs.dropWhile isSpace)
    have hfirst := List.dropWhile_get_zero_not isSpace cs (Nat.lt_of_lt_of_le hpos hprefix.length_le)
    rwa [List.get_eq_getElem, ← hprefix.getElem hpos] at hfirst
  rw [hdrop, List.rdropWhile_idempotent]

theorem strip_strip (s : String) : strip (strip s) = strip s := by
  unfold strip
  rw [String.toList_ofList, stripChars_stripChars]

/-- `str.split()`: the words between runs of white space. -/
def words (cs : List Char) : List (List Char) := (cs.splitOnP isSpace).filter (· ≠ [])

/-- `str.split(sep, 1)` with a separator of one character: what is before its first occurrence,
and what is after it where there is one. -/
def splitFirst (sep : Char) (cs : List Char) : List Char × Option (List Char) :=
  match cs.dropWhile (· ≠ sep) with
  | [] => (cs, none)
  | _ :: rest => (cs.takeWhile (· ≠ sep), some rest)

/-! ## 2. Decimal digits -/

/-- The zeros of the decimal digits of Unicode (category Nd); each script's ten digits follow its
zero. -/
def digitZeros : List Nat :=
  [0x30, 0x660, 0x6f0, 0x7c0, 0x966, 0x9e6, 0xa66, 0xae6, 0xb66, 0xbe6, 0xc66, 0xce6, 0xd66,
    0xde6, 0xe50, 0xed0, 0xf20, 0x1040, 0x1090, 0x17e0, 0x1810, 0x1946, 0x19d0, 0x1a80, 0x1a90,
    0x1b50, 0x1bb0, 0x1c40, 0x1c50, 0xa620, 0xa8d0, 0xa900, 0xa9d0, 0xa9f0, 0xaa50, 0xabf0,
    0xff10, 0x104a0, 0x10d30, 0x11066, 0x110f0, 0x11136, 0x111d0, 0x112f0, 0x11450, 0x114d0,
    0x11650, 0x116c0, 0x11730, 0x118e0, 0x11950, 0x11c50, 0x11d50, 0x11da0, 0x11f50, 0x16a60,
    0x16ac0, 0x16b50, 0x1d7ce, 0x1d7d8, 0x1d7e2, 0x1d7ec, 0x1d7f6, 0x1e140, 0x1e2f0, 0x1e4f0,
    0x1e950, 0x1fbf0]

/-- The value of a decimal digit. -/
def digitValue (c : Char) : Option Nat :=
  (digitZeros.find? fun z => z ≤ c.toNat && c.toNat < z + 10).map (c.toNat - ·)

/-- `int(s)` where `s.isdigit()`, and `none` where either refuses: the characters that `isdigit`
accepts and `int` does not (superscripts, circled digits) raise a `ValueError` there too. -/
def digits? (cs : List Char) : Option Nat :=
  if cs = [] then none
  else cs.foldlM (fun n c => (digitValue c).map (10 * n + ·)) 0

/-- The first and the last of each run of digits that are no decimal ones (superscripts, circled
digits and their like). -/
def otherDigits : List (Nat × Nat) :=
  [(0xb2, 0xb3), (0xb9, 0xb9), (0x1369, 0x1371), (0x19da, 0x19da), (0x2070, 0x2070),
    (0x2074, 0x2079), (0x2080, 0x2089), (0x2460, 0x2468), (0x2474, 0x247c), (0x2488, 0x2490),
    (0x24ea, 0x24ea), (0x24f5, 0x24fd), (0x24ff, 0x24ff), (0x2776, 0x277e), (0x2780, 0x2788),
    (0x278a, 0x2792), (0x10a40, 0x10a43), (0x10e60, 0x10e68), (0x11052, 0x1105a),
    (0x1f100, 0x1f10a)]

/-- `str.isdigit`. -/
def isDigits (cs : List Char) : Bool :=
  cs ≠ [] && cs.all fun c =>
    (digitValue c).isSome || otherDigits.any fun run => run.1 ≤ c.toNat && c.toNat ≤ run.2

theorem digitValue_digitChar : ∀ d < 10, digitValue (Nat.digitChar d) = some d := by decide

/-- `int(str(n))`. -/
theorem digits?_toDigits (n : Nat) : digits? (Nat.toDigits 10 n) = some n := by
  unfold digits?
  rw [if_neg Nat.toDigits_ne_nil]
  induction n using Nat.strongRecOn with
  | ind n ih =>
    rcases Nat.lt_or_ge n 10 with hlt | hge
    · rw [Nat.toDigits_of_lt_base hlt]
      simp [digitValue_digitChar n hlt]
    · have hmod : n % 10 < 10 := Nat.mod_lt n (by decide)
      rw [Nat.toDigits_of_base_le (by decide) hge, List.foldlM_append, ih (n / 10) (by omega)]
      simp only [List.foldlM_cons, List.foldlM_nil, digitValue_digitChar _ hmod, Option.map_some]
      exact congrArg some (Nat.div_add_mod n 10)

theorem isDigits_toDigits (n : Nat) : isDigits (Nat.toDigits 10 n) = true := by
  have hall : ∀ {k : Nat} (cs : List Char), (cs.foldlM (fun n c => (digitValue c).map
      (10 * n + ·)) k).isSome → cs.all fun c => (digitValue c).isSome := by
    intro k cs h
    induction cs generalizing k with
    | nil => rfl
    | cons c cs ih =>
      rw [List.foldlM_cons] at h
      cases hc : digitValue c with
      | none =>
        rw [hc] at h
        cases h
      | some d =>
        rw [hc] at h
        rw [List.all_cons, hc, ih h]
        rfl
  have hread := digits?_toDigits n
  unfold digits? at hread
  rw [if_neg Nat.toDigits_ne_nil] at hread
  have hsome := hall (Nat.toDigits 10 n) (Option.isSome_iff_exists.mpr ⟨n, hread⟩)
  rw [List.all_eq_true] at hsome
  unfold isDigits
  simp only [Nat.toDigits_ne_nil, ne_eq, not_false_eq_true, decide_true, Bool.true_and,
    List.all_eq_true]
  intro c hc
  rw [hsome c hc, Bool.true_or]

/-- `int(s)`: white space around, a sign, and single underscores between the digits. -/
def int? (s : String) : Option Int :=
  let natural? (cs : List Char) : Option Nat :=
    if [] ∈ cs.splitOn '_' then none else digits? (cs.filter (· ≠ '_'))
  match stripChars s.toList with
  | '-' :: cs => (natural? cs).map fun n => -n
  | '+' :: cs => (natural? cs).map Int.ofNat
  | cs => (natural? cs).map Int.ofNat

/-! ## 3. Names -/

/-- `^…$` with `match`: `$` also matches before a line break that ends the text. -/
def wholeLine (p : List Char → Bool) (s : String) : Bool :=
  p s.toList || (s.toList.getLast? = some '\n' && p s.toList.dropLast)

/-- `^[A-Za-z_][A-Za-z0-9_]{0,n}$`, without the bound. -/
def isName : List Char → Bool
  | c :: cs => (c.isAlpha || c = '_') && cs.all fun d => d.isAlphanum || d = '_'
  | [] => false

/-- `str.lower` as far as the names compared with it are ASCII: the characters whose lower case is
one ASCII letter are lowered, the others stay. -/
def lowerAscii (s : String) : String :=
  String.ofList (s.toList.map fun c => if c.toNat = 0x212a then 'k' else c.toLower)

/-- `sorted({…})` of texts. -/
def sorted (names : List String) : List String :=
  names.dedup.insertionSort (· ≤ ·)

/-- The texts that occur more than once. -/
def duplicates (names : List String) : List String :=
  sorted (names.filter fun n => names.count n > 1)

theorem nodup_of_duplicates {names : List String} (h : duplicates names = []) : names.Nodup := by
  rw [List.nodup_iff_count_le_one]
  intro n
  by_contra hcount
  have hmem : n ∈ names := by
    rw [← List.count_pos_iff]
    omega
  have hdup : n ∈ duplicates names := by
    unfold duplicates sorted
    rw [List.mem_insertionSort, List.mem_dedup, List.mem_filter]
    exact ⟨hmem, by simpa using hcount⟩
  rw [h] at hdup
  cases hdup

/-- `word in text`. -/
def contains (word text : String) : Bool := text.toList.tails.any (word.toList.isPrefixOf ·)

/-- What follows a word, where the text begins with it. -/
def afterWord (word : String) (cs : List Char) : Option (List Char) :=
  if word.toList.isPrefixOf cs then some (cs.drop word.length) else none

theorem afterWord_eq_some {word : String} {cs rest : List Char} :
    afterWord word cs = some rest ↔ cs = word.toList ++ rest := by
  unfold afterWord
  rw [← String.length_toList]
  constructor
  · intro h
    split at h
    · rename_i hprefix
      obtain ⟨tail, rfl⟩ := List.isPrefixOf_iff_prefix.mp hprefix
      cases h
      simp
    · cases h
  · rintro rfl
    simp

/-- What follows the first occurrence of a word: `text.split(word, 1)[1]` where `word in text`. -/
def afterFirst (word : List Char) : List Char → Option (List Char)
  | [] => if word = [] then some [] else none
  | c :: cs =>
    if word.isPrefixOf (c :: cs) then some ((c :: cs).drop word.length) else afterFirst word cs

theorem of_afterFirst {word cs rest : List Char} (h : afterFirst word cs = some rest) :
    ∃ before, cs = before ++ word ++ rest := by
  induction cs with
  | nil =>
    simp only [afterFirst, Option.ite_none_right_eq_some, Option.some.injEq] at h
    obtain ⟨rfl, rfl⟩ := h
    exact ⟨[], rfl⟩
  | cons c cs ih =>
    unfold afterFirst at h
    split at h
    · rename_i hhere
      obtain ⟨tail, htail⟩ := List.isPrefixOf_iff_prefix.mp hhere
      rw [← htail, List.drop_left] at h
      cases h
      exact ⟨[], htail.symm⟩
    · obtain ⟨before, rfl⟩ := ih h
      exact ⟨c :: before, rfl⟩

theorem afterFirst_isSome (before word rest : List Char) :
    (afterFirst word (before ++ word ++ rest)).isSome = true := by
  induction before with
  | nil =>
    rw [List.nil_append]
    cases hcs : word ++ rest with
    | nil =>
      rw [(List.append_eq_nil_iff.mp hcs).1]
      rfl
    | cons c cs =>
      have hhere : word.isPrefixOf (c :: cs) = true :=
        List.isPrefixOf_iff_prefix.mpr ⟨rest, hcs⟩
      rw [afterFirst, if_pos hhere]
      rfl
  | cons b before ih =>
    rw [List.cons_append, List.cons_append, afterFirst]
    split
    · rfl
    · exact ih

/-- `text.replace(word, "")` on characters; `skip` counts what is left of an occurrence. -/
def without (word : List Char) : Nat → List Char → List Char
  | _, [] => []
  | skip + 1, _ :: cs => without word skip cs
  | 0, c :: cs =>
    if word.isPrefixOf (c :: cs) then without word (word.length - 1) cs
    else c :: without word 0 cs

/-- `", ".join(names)`. -/
def joined (names : List String) : String := ", ".intercalate names

end Apowerb.Text
