/-
# What is written is read back

`json.dumps` and `json.loads`: the text of a value reads as the value.  Two ways to write the
characters of a text are told apart, with what is not ASCII left as it is or escaped; a value that
holds no object of Python, and each key of a dictionary once, comes back from both.

* `loads_written`: the round trip.
* `loads_flipped`: what is read from inside a text that was written holds no backquote.

The floats are decimals, at least one digit after the point.
-/
import Apowerb.Json
import Mathlib.Data.Bool.AllAny

namespace Apowerb.Json

/-! ## 1. The characters of a text -/

/-- What is read of some characters inside a text: the code units they complete, and where the text
stands after them. -/
def Lex.feed : Lex → List Char → Option (List Nat × Lex)
  | st, [] => some ([], st)
  | st, c :: cs =>
    (st.next c).bind fun p =>
      p.2.bind fun st => (feed st cs).map fun q => (p.1.toList ++ q.1, q.2)

theorem units_feed {st st' : Lex} {cs : List Char} {us : List Nat}
    (h : st.feed cs = some (us, st')) (rest : List Char) :
    units st (cs ++ rest) = (units st' rest).map fun p => (us ++ p.1, p.2) := by
  induction cs generalizing st us with
  | nil =>
    cases h
    simp
  | cons c cs ih =>
    simp only [Lex.feed] at h
    obtain ⟨⟨out, st₁⟩, hnext, h⟩ := Option.bind_eq_some_iff.mp h
    obtain ⟨st₂, hst, h⟩ := Option.bind_eq_some_iff.mp h
    obtain ⟨⟨us', st₃⟩, hfeed, heq⟩ := Option.map_eq_some_iff.mp h
    dsimp only at hst
    cases hst
    cases heq
    rw [List.cons_append, units, hnext, Option.bind_some]
    dsimp only
    rw [ih hfeed, Option.map_map]
    congr 1
    funext p
    simp

theorem feed_append {st st' : Lex} {a b : List Char} {us : List Nat}
    (h : st.feed a = some (us, st')) :
    st.feed (a ++ b) = (st'.feed b).map fun q => (us ++ q.1, q.2) := by
  induction a generalizing st us with
  | nil =>
    cases h
    simp
  | cons c a ih =>
    simp only [Lex.feed] at h
    obtain ⟨⟨out, st₁⟩, hnext, h⟩ := Option.bind_eq_some_iff.mp h
    obtain ⟨st₂, hst, h⟩ := Option.bind_eq_some_iff.mp h
    obtain ⟨⟨us', st₃⟩, hfeed, heq⟩ := Option.map_eq_some_iff.mp h
    dsimp only at hst
    cases hst
    cases heq
    rw [List.cons_append, Lex.feed, hnext, Option.bind_some, Option.bind_some, ih hfeed,
      Option.map_map]
    congr 1
    funext q
    simp

/-- Where what is written stands: between texts, in a text, or in a text after a backslash. -/
inductive Quotes
  | outside
  | inside
  | escaped
deriving DecidableEq, Repr

/-- A backquote: it stands in no number, no word and no punctuation of JSON. -/
def backquote : Char := Char.ofNat 96

/-- One character; between texts, a backslash and a backquote are refused. -/
def Quotes.next : Quotes → Char → Option Quotes
  | .outside, c =>
    if c = '"' then some .inside else if c = '\\' ∨ c = backquote then none else some .outside
  | .inside, c =>
    if c = '"' then some .outside else if c = '\\' then some .escaped else some .inside
  | .escaped, _ => some .inside

def Quotes.run (q : Quotes) (cs : List Char) : Option Quotes := cs.foldlM Quotes.next q

/-- How characters are written in a text: the reader takes what is written for the character, and
stays in the text. -/
structure Shows (shown : Char → List Char) : Prop where
  reads : ∀ c, ∃ us, Lex.feed .plain (shown c) = some (us, .plain) ∧
    ∀ more, characters none (us ++ more) = c :: characters none more
  stays : ∀ c, Quotes.run .inside (shown c) = some .inside
  marks : ∀ c, backquote ∈ shown c → c = backquote

/-- A text between its quotes. -/
def quoted (shown : Char → List Char) (s : String) : List Char :=
  '"' :: (s.toList.flatMap shown ++ ['"'])

theorem units_shown {shown : Char → List Char} (h : Shows shown) (cs rest : List Char) :
    ∃ us, units .plain (cs.flatMap shown ++ '"' :: rest) = some (us, rest) ∧
      characters none us = cs := by
  induction cs with
  | nil => exact ⟨[], rfl, rfl⟩
  | cons c cs ih =>
    obtain ⟨us, hus, hcs⟩ := ih
    obtain ⟨first, hfirst, hc⟩ := h.reads c
    refine ⟨first ++ us, ?_, ?_⟩
    · rw [List.flatMap_cons, List.append_assoc, units_feed hfirst, hus]
      rfl
    · rw [hc, hcs]

/-- A text is read back. -/
theorem string_quoted {shown : Char → List Char} (h : Shows shown) (s : String)
    (rest : List Char) : string (s.toList.flatMap shown ++ '"' :: rest) = some (s, rest) := by
  obtain ⟨us, hus, hcs⟩ := units_shown h s.toList rest
  rw [string, hus, Option.map_some]
  simp only [hcs, String.ofList_toList]

/-! ## 2. What `json.dumps` writes -/

/-- A character, as `json.dumps(…, ensure_ascii=False)` writes it. -/
def jsonShown (c : Char) : List Char :=
  if c = '"' || c = '\\' then ['\\', c]
  else if c = '\n' then ['\\', 'n']
  else if c = '\r' then ['\\', 'r']
  else if c = '\t' then ['\\', 't']
  else if c.toNat = 8 then ['\\', 'b']
  else if c.toNat = 12 then ['\\', 'f']
  else if c.toNat < 32 then
    ['\\', 'u', '0', '0', Nat.digitChar (c.toNat / 16), Nat.digitChar (c.toNat % 16)]
  else [c]

theorem jsonString_eq (s : String) : (Value.jsonString s).toList = quoted jsonShown s := by
  unfold Value.jsonString quoted
  rw [String.toList_ofList]
  rfl

theorem not_surrogate (c : Char) : isHigh c.toNat = false ∧ isLow c.toNat = false := by
  have hvalid : c.toNat < 0xd800 ∨ 0xdfff < c.toNat ∧ c.toNat < 0x110000 := c.valid
  simp only [isHigh, isLow, Bool.and_eq_false_iff, decide_eq_false_iff_not]
  omega

theorem characters_one (c : Char) (more : List Nat) :
    characters none (c.toNat :: more) = c :: characters none more := by
  obtain ⟨hhigh, hlow⟩ := not_surrogate c
  rw [characters, if_neg (by simp [hhigh]), if_neg (by simp [hlow]), Char.ofNat_toNat]

/-- A character that is left as it is. -/
theorem feed_self {c : Char} (hquote : c ≠ '"') (hslash : c ≠ '\\') (hle : 32 ≤ c.toNat) :
    Lex.feed .plain [c] = some ([c.toNat], .plain) := by
  simp [Lex.feed, Lex.next, hquote, hslash, Nat.not_lt.mpr hle]

theorem jsonShown_self {c : Char} (hquote : c ≠ '"') (hslash : c ≠ '\\') (hle : 32 ≤ c.toNat) :
    jsonShown c = [c] := by
  have hne : ∀ d : Char, d.toNat < 32 → c ≠ d := by
    rintro d hd rfl
    omega
  have h8 : c.toNat ≠ 8 := by omega
  have h12 : c.toNat ≠ 12 := by omega
  have hlt : ¬ c.toNat < 32 := by omega
  simp [jsonShown, hquote, hslash, hne '\n' (by decide), hne '\r' (by decide),
    hne '\t' (by decide), h8, h12, hlt]

/-- What is true of every control character, of a quote, of a backslash and of a character that is
left as it is, is true of every character. -/
theorem shown_cases {P : Char → List Char → Prop}
    (hcontrol : ∀ n < 32, P (Char.ofNat n) (jsonShown (Char.ofNat n)))
    (hquote : P '"' ['\\', '"']) (hslash : P '\\' ['\\', '\\'])
    (hself : ∀ c, c ≠ '"' → c ≠ '\\' → 32 ≤ c.toNat → P c [c]) (c : Char) :
    P c (jsonShown c) := by
  by_cases hle : 32 ≤ c.toNat
  · by_cases hq : c = '"'
    · subst hq
      exact hquote
    · by_cases hs : c = '\\'
      · subst hs
        exact hslash
      · rw [jsonShown_self hq hs hle]
        exact hself c hq hs hle
  · have hshown := hcontrol c.toNat (by omega)
    rwa [Char.ofNat_toNat] at hshown

theorem feed_jsonShown (c : Char) : Lex.feed .plain (jsonShown c) = some ([c.toNat], .plain) :=
  shown_cases (P := fun c cs => Lex.feed .plain cs = some ([c.toNat], .plain)) (by decide)
    (by decide) (by decide) (fun _ => feed_self) c

theorem stays_self {c : Char} (hquote : c ≠ '"') (hslash : c ≠ '\\') :
    Quotes.run .inside [c] = some .inside := by
  simp [Quotes.run, Quotes.next, hquote, hslash]

theorem shows_json : Shows jsonShown where
  reads c := ⟨[c.toNat], feed_jsonShown c, characters_one c⟩
  stays := shown_cases (P := fun _ cs => Quotes.run .inside cs = some .inside) (by decide)
    (by decide) (by decide) fun _ hquote hslash _ => stays_self hquote hslash
  marks := shown_cases (P := fun c cs => backquote ∈ cs → c = backquote) (by decide) (by decide)
    (by decide) fun _ _ _ _ h => (List.mem_singleton.mp h).symm

/-! ## 3. Numbers -/

/-- No character of a number follows. -/
def Follows (rest : List Char) : Prop := ∀ c, rest.head? = some c → isNumeric c = false

theorem Follows.takeWhile {text rest : List Char} (htext : ∀ c ∈ text, isNumeric c = true)
    (h : Follows rest) :
    (text ++ rest).takeWhile isNumeric = text ∧ (text ++ rest).dropWhile isNumeric = rest := by
  rw [List.takeWhile_append_of_pos htext, List.dropWhile_append_of_pos htext]
  cases rest with
  | nil => simp
  | cons c rest =>
    have hc : ¬ isNumeric c = true := by simp [h c rfl]
    rw [List.takeWhile_cons_of_neg hc, List.dropWhile_cons_of_neg hc]
    simp

theorem isNumeric_of_isDigit {c : Char} (h : c.isDigit = true) : isNumeric c = true := by
  simp [isNumeric, h]

theorem digits_isDigit (n : Nat) : ∀ c ∈ Nat.toDigits 10 n, c.isDigit = true := fun _ hc =>
  Nat.isDigit_of_mem_toDigits (by decide) (by decide) hc

theorem natural_toDigits (n : Nat) : natural (Nat.toDigits 10 n) = n :=
  Nat.ofDigitChars_ten_toDigits

/-- Only zero begins with a zero. -/
theorem head_toDigits (n : Nat) (h : (Nat.toDigits 10 n).head? = some '0') : n = 0 := by
  induction n using Nat.strongRecOn with
  | _ n ih =>
    by_cases hsmall : n < 10
    · rw [Nat.toDigits_of_lt_base hsmall, List.head?_cons, Option.some_inj] at h
      have hzero : ∀ d < 10, Nat.digitChar d = '0' → d = 0 := by decide
      exact hzero n hsmall h
    · rw [Nat.toDigits_of_base_le (by decide) (by omega),
        List.head?_append_of_ne_nil _ Nat.toDigits_ne_nil] at h
      have hdiv := ih (n / 10) (by omega) h
      omega

theorem takeWhile_isDigit {ds : List Char} (hds : ∀ c ∈ ds, c.isDigit = true) (rest : List Char)
    (hrest : ∀ c, rest.head? = some c → c.isDigit = false) :
    (ds ++ rest).takeWhile Char.isDigit = ds ∧ (ds ++ rest).dropWhile Char.isDigit = rest := by
  rw [List.takeWhile_append_of_pos hds, List.dropWhile_append_of_pos hds]
  cases rest with
  | nil => simp
  | cons c rest =>
    have hc : ¬ c.isDigit = true := by simp [hrest c rfl]
    rw [List.takeWhile_cons_of_neg hc, List.dropWhile_cons_of_neg hc]
    simp

/-- The digits of a natural number. -/
theorem unsigned_toDigits (negative : Bool) (n : Nat) :
    unsigned? negative (Nat.toDigits 10 n) = some (.int (if negative then -(n : Int) else n)) := by
  obtain ⟨htake, hdrop⟩ := takeWhile_isDigit (digits_isDigit n) [] (by simp)
  rw [List.append_nil] at htake hdrop
  have hzero : ¬ ((Nat.toDigits 10 n).head? = some '0' ∧ Nat.toDigits 10 n ≠ ['0']) := by
    rintro ⟨hhead, hne⟩
    rw [head_toDigits n hhead] at hne
    exact hne rfl
  unfold unsigned?
  simp only [htake, hdrop, natural_toDigits]
  rw [if_neg]
  rintro (hnil | hboth)
  · exact Nat.toDigits_ne_nil hnil
  · exact hzero hboth

theorem natural_replicate (k : Nat) (ds : List Char) :
    natural (List.replicate k '0' ++ ds) = natural ds := by
  induction k with
  | zero => rfl
  | succ k ih =>
    rw [List.replicate_succ, List.cons_append, ← ih]
    rfl

/-- The digits of a decimal before and after the point. -/
theorem unsigned_point (negative : Bool) {whole fraction : List Char}
    (hwhole : ∀ c ∈ whole, c.isDigit = true) (hne : whole ≠ [])
    (hzero : whole.head? = some '0' → whole = ['0'])
    (hfraction : ∀ c ∈ fraction, c.isDigit = true) (hfne : fraction ≠ []) :
    unsigned? negative (whole ++ '.' :: fraction) =
      some (decimal negative (whole ++ fraction) (-(fraction.length : Int))) := by
  obtain ⟨htake, hdrop⟩ := takeWhile_isDigit hwhole ('.' :: fraction) (by
    intro c hc
    cases hc
    decide)
  obtain ⟨hftake, hfdrop⟩ := takeWhile_isDigit hfraction [] (by simp)
  rw [List.append_nil] at hftake hfdrop
  unfold unsigned?
  simp only [htake, hdrop, hftake, hfdrop]
  rw [if_neg, if_neg hfne, if_pos trivial]
  rintro (hnil | ⟨hhead, hother⟩)
  · exact hne hnil
  · exact hother (hzero hhead)

/-- The digits of a decimal as it is shown, with zeros in front. -/
def padded (m : Int) (k : Nat) : List Char :=
  List.replicate (k + 1 - (Nat.toDigits 10 m.natAbs).length) '0' ++ Nat.toDigits 10 m.natAbs

theorem length_padded (m : Int) (k : Nat) : k + 1 ≤ (padded m k).length := by
  simp only [padded, List.length_append, List.length_replicate]
  omega

theorem padded_isDigit (m : Int) (k : Nat) : ∀ c ∈ padded m k, c.isDigit = true := by
  intro c hc
  rcases List.mem_append.mp hc with hzero | hdigit
  · rw [(List.mem_replicate.mp hzero).2]
    decide
  · exact digits_isDigit _ c hdigit

/-- Before the point, only zero begins with a zero. -/
theorem head_padded {m : Int} {k : Nat}
    (h : ((padded m k).take ((padded m k).length - k)).head? = some '0') :
    (padded m k).length - k = 1 := by
  have hlen := length_padded m k
  by_cases hshort : (Nat.toDigits 10 m.natAbs).length ≤ k + 1
  · have htotal : (padded m k).length = k + 1 := by
      simp only [padded, List.length_append, List.length_replicate]
      omega
    omega
  · have hself : padded m k = Nat.toDigits 10 m.natAbs := by
      have hnone : k + 1 - (Nat.toDigits 10 m.natAbs).length = 0 := by omega
      rw [padded, hnone, List.replicate_zero, List.nil_append]
    rw [List.head?_take, if_neg (by omega), hself] at h
    have hm := head_toDigits _ h
    rw [hm] at hshort
    exact absurd (show (Nat.toDigits 10 0).length ≤ k + 1 by simp) hshort

theorem decimalText_eq (m : Int) {k : Nat} (hk : 0 < k) : (Value.decimalText m k).toList =
    (if m < 0 then ['-'] else []) ++ ((padded m k).take ((padded m k).length - k) ++
      '.' :: (padded m k).drop ((padded m k).length - k)) := by
  have htext : (toString m.natAbs).toList = Nat.toDigits 10 m.natAbs := by
    simp [toString, Nat.repr]
  unfold Value.decimalText
  simp only [htext, if_neg (Nat.ne_of_gt hk), String.toList_ofList]
  rw [List.append_assoc]
  rfl

theorem decimal_scaled (negative : Bool) (digits : List Char) {k : Nat} (hk : 0 < k) :
    decimal negative digits (-(k : Int)) =
      .float (if negative then -(natural digits : Int) else natural digits) k := by
  have hpower : ¬ (0 : Int) ≤ -(k : Int) := by omega
  have hscale : (-(-(k : Int))).toNat = k := by omega
  rw [decimal, if_neg hpower, hscale]

/-- A text that begins with a digit has no sign. -/
theorem number_digit {c : Char} {cs : List Char} (h : c.isDigit = true) :
    number? (c :: cs) = unsigned? false (c :: cs) := by
  rw [number?]
  rintro rest heq
  cases heq
  exact absurd h (by decide)

/-- The text of a decimal that has a digit after the point is read back. -/
theorem number_decimalText (m : Int) {k : Nat} (hk : 0 < k) :
    number? (Value.decimalText m k).toList = some (.float m k) := by
  have hlen := length_padded m k
  set whole := (padded m k).take ((padded m k).length - k) with hwholedef
  set fraction := (padded m k).drop ((padded m k).length - k) with hfractiondef
  have hboth : whole ++ fraction = padded m k := List.take_append_drop ..
  have hdigits : ∀ c ∈ whole ++ fraction, c.isDigit = true := by
    rw [hboth]
    exact padded_isDigit m k
  have hwlen : whole.length = (padded m k).length - k := by
    rw [hwholedef, List.length_take]
    omega
  have hflen : fraction.length = k := by
    rw [hfractiondef, List.length_drop]
    omega
  have hne : whole ≠ [] := by
    intro hnil
    rw [hnil, List.length_nil] at hwlen
    omega
  have hzero : whole.head? = some '0' → whole = ['0'] := by
    intro hhead
    have hone := head_padded hhead
    obtain ⟨c, hc⟩ := List.length_eq_one_iff.mp (hwlen.trans hone)
    rw [hc] at hhead ⊢
    cases hhead
    rfl
  have hread : ∀ negative, unsigned? negative (whole ++ '.' :: fraction) =
      some (decimal negative (padded m k) (-(k : Int))) := by
    intro negative
    rw [unsigned_point negative (fun c hc => hdigits c (List.mem_append_left _ hc)) hne hzero
      (fun c hc => hdigits c (List.mem_append_right _ hc)) (by
        intro hnil
        rw [hnil, List.length_nil] at hflen
        omega), hboth, hflen]
  have hnatural : natural (padded m k) = m.natAbs := by
    rw [padded, natural_replicate, natural_toDigits]
  rw [decimalText_eq m hk, ← hwholedef, ← hfractiondef]
  by_cases hneg : m < 0
  · have hm : -(m.natAbs : Int) = m := by omega
    rw [if_pos hneg]
    change unsigned? true (whole ++ '.' :: fraction) = _
    rw [hread, decimal_scaled _ _ hk, hnatural, if_pos rfl, hm]
  · have hm : (m.natAbs : Int) = m := by omega
    obtain ⟨c, cs, hcons⟩ := List.exists_cons_of_ne_nil hne
    have hread := hread false
    rw [hcons] at hread ⊢
    rw [if_neg hneg, List.nil_append, List.cons_append, number_digit (hdigits c (by simp [hcons])),
      ← List.cons_append, hread, decimal_scaled _ _ hk, hnatural, if_neg (by decide), hm]

theorem decimalText_isNumeric (m : Int) {k : Nat} (hk : 0 < k) :
    ∀ c ∈ (Value.decimalText m k).toList, isNumeric c = true := by
  intro c hc
  rw [decimalText_eq m hk, List.mem_append, List.mem_append, List.mem_cons] at hc
  have hpadded : c ∈ padded m k → isNumeric c = true := fun h =>
    isNumeric_of_isDigit (padded_isDigit m k c h)
  rcases hc with hsign | hwhole | rfl | hfraction
  · split at hsign
    · rw [List.mem_singleton.mp hsign]
      decide
    · cases hsign
  · exact hpadded (List.mem_of_mem_take hwhole)
  · decide
  · exact hpadded (List.mem_of_mem_drop hfraction)

/-- The digits of an integer, after its sign. -/
theorem toString_int (i : Int) : (toString i).toList =
    (if i < 0 then ['-'] else []) ++ Nat.toDigits 10 i.natAbs := by
  cases i with
  | ofNat n =>
    have hneg : ¬ (Int.ofNat n < 0) := by simp
    rw [if_neg hneg]
    simp [toString, Int.repr, Nat.repr]
  | negSucc n =>
    rw [if_pos (Int.negSucc_lt_zero n)]
    simp [toString, Int.repr, Nat.repr]

theorem number_toString (i : Int) : number? (toString i).toList = some (.int i) := by
  rw [toString_int]
  by_cases hneg : i < 0
  · have hi : -(i.natAbs : Int) = i := by omega
    rw [if_pos hneg]
    change unsigned? true (Nat.toDigits 10 i.natAbs) = _
    rw [unsigned_toDigits, if_pos rfl, hi]
  · have hi : (i.natAbs : Int) = i := by omega
    obtain ⟨c, cs, hcons⟩ := List.exists_cons_of_ne_nil (Nat.toDigits_ne_nil (n := i.natAbs)
      (b := 10))
    have hread := unsigned_toDigits false i.natAbs
    have hdigit := digits_isDigit i.natAbs c (by simp [hcons])
    rw [if_neg hneg, List.nil_append]
    rw [hcons] at hread ⊢
    rw [number_digit hdigit, hread, if_neg (by decide), hi]

theorem toString_isNumeric (i : Int) : ∀ c ∈ (toString i).toList, isNumeric c = true := by
  intro c hc
  rw [toString_int, List.mem_append] at hc
  rcases hc with hsign | hdigit
  · split at hsign
    · rw [List.mem_singleton.mp hsign]
      decide
    · cases hsign
  · exact isNumeric_of_isDigit (digits_isDigit _ c hdigit)

/-- A number is read up to where no more of its characters follow. -/
theorem scalar_number {text rest : List Char} {v : Value} (hnumber : number? text = some v)
    (hall : ∀ c ∈ text, isNumeric c = true) (h : Follows rest) :
    scalar (text ++ rest) = some (v, rest) := by
  obtain ⟨htake, hdrop⟩ := h.takeWhile hall
  simp only [scalar, htake, hdrop, hnumber]

/-! ## 4. Values -/

mutual

/-- A value that JSON writes and reads: no object of Python, floats with a digit after the point,
each key of a dictionary once. -/
def Standard : Value → Prop
  | .float _ k => 0 < k
  | .list items => StandardItems items
  | .dict entries => (entries.map (·.1)).Nodup ∧ StandardEntries entries
  | .object _ => False
  | _ => True

def StandardItems : List Value → Prop
  | [] => True
  | v :: rest => Standard v ∧ StandardItems rest

def StandardEntries : List (String × Value) → Prop
  | [] => True
  | (_, v) :: rest => Standard v ∧ StandardEntries rest

end

section Written

variable (shown : Char → List Char)

mutual

/-- The text of a value: one line, a space after each comma and each colon. -/
def written : Value → List Char
  | .null => "null".toList
  | .bool b => (if b then "true" else "false").toList
  | .int i => (toString i).toList
  | .float m k => (Value.decimalText m k).toList
  | .str s => quoted shown s
  | .list items => '[' :: ([',', ' '].intercalate (writtenItems items) ++ [']'])
  | .dict entries => '{' :: ([',', ' '].intercalate (writtenEntries entries) ++ ['}'])
  | .object text => quoted shown text

def writtenItems : List Value → List (List Char)
  | [] => []
  | v :: rest => written v :: writtenItems rest

def writtenEntries : List (String × Value) → List (List Char)
  | [] => []
  | (k, v) :: rest => (quoted shown k ++ ':' :: ' ' :: written v) :: writtenEntries rest

end

end Written

section Escaped

variable {shown f : Char → List Char}

theorem flatMap_ascii (hf : ∀ c : Char, c.toNat < 127 → f c = [c]) {cs : List Char}
    (h : ∀ c ∈ cs, c.toNat < 127) : cs.flatMap f = cs := by
  induction cs with
  | nil => rfl
  | cons c cs ih =>
    rw [List.flatMap_cons, hf c (h c (List.mem_cons_self ..)),
      ih fun c hc => h c (List.mem_cons_of_mem _ hc), List.singleton_append]

theorem isNumeric_ascii {c : Char} (h : isNumeric c = true) : c.toNat < 127 := by
  simp only [isNumeric, Bool.or_eq_true, decide_eq_true_eq] at h
  rcases h with ((((hdigit | rfl) | rfl) | rfl) | rfl) | rfl
  · have hle : c.toNat ≤ '9'.toNat := by
      simp only [Char.isDigit, Bool.and_eq_true, decide_eq_true_eq] at hdigit
      exact hdigit.2
    exact Nat.lt_of_le_of_lt hle (by decide)
  all_goals decide

theorem flatMap_quoted (hf : ∀ c : Char, c.toNat < 127 → f c = [c]) (s : String) :
    (quoted shown s).flatMap f = quoted (fun c => (shown c).flatMap f) s := by
  simp only [quoted, List.flatMap_cons, List.flatMap_append, List.flatMap_assoc, List.flatMap_nil]
  rw [hf '"' (by decide), List.append_nil, List.singleton_append]

theorem flatMap_intercalate (hf : ∀ c : Char, c.toNat < 127 → f c = [c])
    (texts : List (List Char)) : ([',', ' '].intercalate texts).flatMap f =
      [',', ' '].intercalate (texts.map (·.flatMap f)) := by
  match texts with
  | [] => rfl
  | [t] => simp
  | t :: u :: more =>
    have hsep : ([',', ' '] : List Char).flatMap f = [',', ' '] :=
      flatMap_ascii hf (List.all_iff_forall_prop.mp (by decide))
    rw [List.intercalate_cons_cons, List.flatMap_append, List.flatMap_append, hsep,
      flatMap_intercalate hf (u :: more), List.map_cons, List.map_cons, List.map_cons,
      List.intercalate_cons_cons]

mutual

/-- To write some characters of a whole text otherwise is to write them so in its texts, where the
punctuation stays. -/
theorem written_flatMap (hf : ∀ c : Char, c.toNat < 127 → f c = [c]) : ∀ v : Value,
    Standard v → (written shown v).flatMap f = written (fun c => (shown c).flatMap f) v
  | .null, _ => by
    rw [written, written]
    exact flatMap_ascii hf (List.all_iff_forall_prop.mp (by decide))
  | .bool b, _ => by
    rw [written, written]
    cases b <;> exact flatMap_ascii hf (List.all_iff_forall_prop.mp (by decide))
  | .int i, _ => flatMap_ascii hf fun c hc => isNumeric_ascii (toString_isNumeric i c hc)
  | .float m _, hv =>
    flatMap_ascii hf fun c hc => isNumeric_ascii (decimalText_isNumeric m hv c hc)
  | .str s, _ => flatMap_quoted hf s
  | .object s, _ => flatMap_quoted hf s
  | .list items, hv => by
    rw [written, written, List.flatMap_cons, List.flatMap_append, flatMap_intercalate hf,
      items_flatMap hf items hv, flatMap_ascii hf (List.forall_mem_singleton.mpr (by decide)),
      hf '[' (by decide)]
    rfl
  | .dict entries, hv => by
    rw [written, written, List.flatMap_cons, List.flatMap_append, flatMap_intercalate hf,
      entries_flatMap hf entries hv.2, flatMap_ascii hf (List.forall_mem_singleton.mpr (by decide)),
      hf '{' (by decide)]
    rfl

theorem items_flatMap (hf : ∀ c : Char, c.toNat < 127 → f c = [c]) : ∀ items : List Value,
    StandardItems items → (writtenItems shown items).map (·.flatMap f) =
      writtenItems (fun c => (shown c).flatMap f) items
  | [], _ => rfl
  | v :: rest, hv => by
    rw [writtenItems, writtenItems, List.map_cons, written_flatMap hf v hv.1,
      items_flatMap hf rest hv.2]

theorem entries_flatMap (hf : ∀ c : Char, c.toNat < 127 → f c = [c]) :
    ∀ entries : List (String × Value), StandardEntries entries →
      (writtenEntries shown entries).map (·.flatMap f) =
        writtenEntries (fun c => (shown c).flatMap f) entries
  | [], _ => rfl
  | (k, v) :: rest, hv => by
    rw [writtenEntries, writtenEntries, List.map_cons, entries_flatMap hf rest hv.2,
      List.flatMap_append, flatMap_quoted hf, List.flatMap_cons, List.flatMap_cons,
      written_flatMap hf v hv.1, hf ':' (by decide), hf ' ' (by decide)]
    rfl

end

end Escaped

mutual

theorem json_eq : ∀ v : Value, v.json.toList = written jsonShown v
  | .null => rfl
  | .bool b => by cases b <;> rfl
  | .int _ => rfl
  | .float _ _ => rfl
  | .str s => by rw [Value.json, written, jsonString_eq]
  | .object s => by rw [Value.json, written, jsonString_eq]
  | .list items => by
    have hitems := jsonItems_eq items
    rw [Value.json, written, ← hitems]
    simp [String.toList_intercalate]
  | .dict entries => by
    have hentries := jsonEntries_eq entries
    rw [Value.json, written, ← hentries]
    simp [String.toList_intercalate]

theorem jsonItems_eq : ∀ items : List Value,
    (Value.jsonItems items).map String.toList = writtenItems jsonShown items
  | [] => rfl
  | v :: rest => by
    rw [Value.jsonItems, writtenItems, List.map_cons, json_eq v, jsonItems_eq rest]

theorem jsonEntries_eq : ∀ entries : List (String × Value),
    (Value.jsonEntries entries).map String.toList = writtenEntries jsonShown entries
  | [] => rfl
  | (k, v) :: rest => by
    rw [Value.jsonEntries, writtenEntries, List.map_cons, jsonEntries_eq rest]
    simp [json_eq v, jsonString_eq]

end

section Read

variable {shown : Char → List Char} {n : Nat}

/-- What a value begins with. -/
theorem written_head (shown : Char → List Char) {v : Value} (hv : Standard v) :
    ∃ c cs, written shown v = c :: cs ∧ isWs c = false ∧ c ≠ ']' ∧ c ≠ '}' := by
  have hnumber : ∀ {text : List Char}, text ≠ [] → (∀ c ∈ text, isNumeric c = true) →
      ∃ c cs, text = c :: cs ∧ isWs c = false ∧ c ≠ ']' ∧ c ≠ '}' := by
    intro text hne hall
    obtain ⟨c, cs, rfl⟩ := List.exists_cons_of_ne_nil hne
    have hc := hall c (List.mem_cons_self ..)
    refine ⟨c, cs, rfl, ?_, ?_, ?_⟩
    · by_contra hws
      rw [isWs_not_numeric (by simpa using hws)] at hc
      cases hc
    · rintro rfl
      exact absurd hc (by decide)
    · rintro rfl
      exact absurd hc (by decide)
  cases v with
  | null => exact ⟨_, _, rfl, by decide, by decide, by decide⟩
  | bool b => cases b <;> exact ⟨_, _, rfl, by decide, by decide, by decide⟩
  | int i =>
    refine hnumber ?_ (toString_isNumeric i)
    rw [written, toString_int]
    exact List.append_ne_nil_of_right_ne_nil _ Nat.toDigits_ne_nil
  | float m k =>
    refine hnumber ?_ (decimalText_isNumeric m hv)
    rw [written, decimalText_eq m hv]
    simp
  | str s => exact ⟨_, _, rfl, by decide, by decide, by decide⟩
  | list items => exact ⟨_, _, rfl, by decide, by decide, by decide⟩
  | dict entries => exact ⟨_, _, rfl, by decide, by decide, by decide⟩
  | object s => cases hv

theorem skipWs_written (shown : Char → List Char) {v : Value} (hv : Standard v) (rest : List Char) :
    skipWs (written shown v ++ rest) = written shown v ++ rest := by
  obtain ⟨c, cs, heq, hc, -⟩ := written_head shown hv
  rw [heq, List.cons_append, skipWs, List.dropWhile_cons_of_neg (by simp [hc])]

/-- A number or a word is read by itself. -/
theorem value_scalar {c : Char} {cs : List Char} (hquote : c ≠ '"') (hlist : c ≠ '[')
    (hdict : c ≠ '{') : value (n + 1) (c :: cs) = scalar (c :: cs) := by
  rw [value, if_neg hquote, if_neg hlist, if_neg hdict]

theorem value_number {text rest : List Char} {v : Value} (hnumber : number? text = some v)
    (hall : ∀ c ∈ text, isNumeric c = true) (hn : 0 < n) (h : Follows rest) :
    value n (text ++ rest) = some (v, rest) := by
  obtain ⟨m, rfl⟩ : ∃ m, n = m + 1 := ⟨n - 1, by omega⟩
  have hread := scalar_number hnumber hall h
  cases text with
  | nil => cases hnumber
  | cons c cs =>
    have hc := hall c (List.mem_cons_self ..)
    rw [List.cons_append] at hread ⊢
    rw [value_scalar, hread]
    all_goals
      rintro rfl
      exact absurd hc (by decide)

theorem next_close {c : Char} (hc : isWs c = false) (rest : List Char) :
    next (c :: rest) = some (c, rest) := by
  rw [next, skipWs, List.dropWhile_cons_of_neg (by simp [hc])]

/-- An empty list or object. -/
theorem bracketed_empty {β : Type} {close : Char} (hclose : isWs close = false) (empty : β)
    (f : List Char → Option (β × List Char)) (rest : List Char) :
    bracketed close empty f (close :: rest) = some (empty, rest) := by
  have hskip : skipWs (close :: rest) = close :: rest := by
    rw [skipWs, List.dropWhile_cons_of_neg (by simp [hclose])]
  rw [bracketed, hskip, List.head?_cons, if_pos rfl, List.tail_cons]

theorem bracketed_cons {β : Type} {close c : Char} (hc : isWs c = false) (hne : c ≠ close)
    (empty : β) (f : List Char → Option (β × List Char)) (cs : List Char) :
    bracketed close empty f (c :: cs) = f (c :: cs) := by
  have hskip : skipWs (c :: cs) = c :: cs := by
    rw [skipWs, List.dropWhile_cons_of_neg (by simp [hc])]
  rw [bracketed, hskip, if_neg (by simpa using hne)]

theorem follows_of_head {c : Char} (hc : isNumeric c = false) (rest : List Char) :
    Follows (c :: rest) := by
  intro d hd
  cases hd
  exact hc

/-- A key that is not there yet is added at the end. -/
theorem put_new {d : Dict} {key : String} (h : key ∉ d.map (·.1)) (v : Value) :
    d.put key v = d ++ [(key, v)] := by
  induction d with
  | nil => rfl
  | cons entry rest ih =>
    obtain ⟨k, w⟩ := entry
    rw [List.map_cons, List.mem_cons, not_or] at h
    rw [Dict.put, if_neg (Ne.symm h.1), ih h.2, List.cons_append]

/-- A space in front of a value is skipped. -/
theorem skipWs_space {v : Value} (hv : Standard v) (rest : List Char) :
    skipWs (' ' :: (written shown v ++ rest)) = written shown v ++ rest := by
  obtain ⟨c, cs, hhead, hws, -⟩ := written_head shown hv
  rw [hhead, List.cons_append]
  exact skipWs_append (List.forall_mem_singleton.mpr (by decide : isWs ' ' = true)) hws _

/-- Items begin with the first of them, entries with the quote of a key. -/
theorem items_head (shown : Char → List Char) {items : List Value} (hne : items ≠ [])
    (hv : StandardItems items) (rest : List Char) :
    ∃ c more, [',', ' '].intercalate (writtenItems shown items) ++ rest = c :: more ∧
      isWs c = false ∧ c ≠ ']' := by
  match items, hne, hv with
  | [v], _, hv =>
    obtain ⟨c, cs, hhead, hws, hclose, -⟩ := written_head shown hv.1
    exact ⟨c, cs ++ rest, by simp [writtenItems, hhead], hws, hclose⟩
  | v :: w :: vs, _, hv =>
    obtain ⟨c, cs, hhead, hws, hclose, -⟩ := written_head shown hv.1
    exact ⟨c, _, by simp [writtenItems, hhead, List.intercalate_cons_cons]; rfl, hws, hclose⟩

theorem entries_head (shown : Char → List Char) {entries : List (String × Value)}
    (hne : entries ≠ []) (rest : List Char) :
    ∃ more, [',', ' '].intercalate (writtenEntries shown entries) ++ rest = '"' :: more := by
  match entries, hne with
  | [(k, v)], _ => exact ⟨_, by simp [writtenEntries, quoted]; rfl⟩
  | (k, v) :: entry :: more, _ =>
    exact ⟨_, by simp [writtenEntries, quoted, List.intercalate_cons_cons]; rfl⟩

/-- An entry is read up to the character after its value. -/
theorem entries_entry (hs : Shows shown) {k : String} {v : Value} (hv : Standard v) {c : Char}
    {before : Dict} {rest : List Char} (hnew : k ∉ before.map (·.1)) (hc : isWs c = false)
    (hread : value n (written shown v ++ c :: rest) = some (v, c :: rest)) :
    entries (n + 1) before (quoted shown k ++ ':' :: ' ' :: (written shown v ++ c :: rest)) =
      if c = ',' then entries n (before ++ [(k, v)]) (skipWs rest)
      else if c = '}' then some (before ++ [(k, v)], rest)
      else none := by
  rw [quoted, List.cons_append, List.append_assoc, List.singleton_append, entries,
    if_neg (by simp), string_quoted hs, Option.bind_some]
  dsimp only
  rw [next_close (by decide), Option.bind_some]
  dsimp only
  rw [if_neg (by simp), skipWs_space hv, hread, Option.bind_some]
  dsimp only
  rw [next_close hc, Option.bind_some]
  dsimp only
  rw [put_new hnew]

mutual

/-- A value is read back, before anything that does not continue a number. -/
theorem value_written (hs : Shows shown) : ∀ (v : Value), Standard v → ∀ (n : Nat)
    (rest : List Char), (written shown v).length ≤ n → Follows rest →
      value n (written shown v ++ rest) = some (v, rest)
  | .null, _, n, rest, hn, _ => by
    obtain ⟨m, rfl⟩ : ∃ m, n = m + 1 := ⟨n - 1, by simp [written] at hn; omega⟩
    rfl
  | .bool b, _, n, rest, hn, _ => by
    obtain ⟨m, rfl⟩ : ∃ m, n = m + 1 := ⟨n - 1, by cases b <;> simp [written] at hn <;> omega⟩
    cases b <;> rfl
  | .int i, _, n, rest, hn, hrest => by
    obtain ⟨c, cs, heq, -⟩ := written_head shown (v := .int i) trivial
    rw [heq, List.length_cons] at hn
    exact value_number (number_toString i) (toString_isNumeric i) (by omega) hrest
  | .float m k, hv, n, rest, hn, hrest => by
    obtain ⟨c, cs, heq, -⟩ := written_head shown hv
    rw [heq, List.length_cons] at hn
    exact value_number (number_decimalText m hv) (decimalText_isNumeric m hv) (by omega) hrest
  | .str s, _, n, rest, hn, _ => by
    obtain ⟨m, rfl⟩ : ∃ m, n = m + 1 := ⟨n - 1, by simp [written, quoted] at hn; omega⟩
    rw [written, quoted, List.cons_append, List.append_assoc, List.singleton_append, value,
      if_pos rfl, string_quoted hs]
    rfl
  | .list items, hv, n, rest, hn, _ => by
    obtain ⟨m, rfl⟩ : ∃ m, n = m + 1 := ⟨n - 1, by simp [written] at hn; omega⟩
    rw [written, List.cons_append, List.append_assoc, List.singleton_append, value,
      if_neg (by decide), if_pos rfl]
    cases items with
    | nil =>
      rw [writtenItems, List.intercalate_nil, List.nil_append, bracketed_empty (by decide)]
      rfl
    | cons v vs =>
      have hread := items_written hs (v :: vs) (by simp) hv m rest (by
        simp only [written, List.length_cons, List.length_append, List.length_nil] at hn
        omega)
      obtain ⟨c, more, hmore, hws, hclose⟩ := items_head shown (by simp) hv
        (']' :: rest)
      rw [hmore] at hread ⊢
      rw [bracketed_cons hws hclose, hread]
      rfl
  | .dict entries, hv, n, rest, hn, _ => by
    obtain ⟨m, rfl⟩ : ∃ m, n = m + 1 := ⟨n - 1, by simp [written] at hn; omega⟩
    rw [written, List.cons_append, List.append_assoc, List.singleton_append, value,
      if_neg (by decide), if_neg (by decide), if_pos rfl]
    cases entries with
    | nil =>
      rw [writtenEntries, List.intercalate_nil, List.nil_append, bracketed_empty (by decide)]
      rfl
    | cons entry more =>
      have hread := entries_written hs (entry :: more) [] (by simp) (by simpa using hv.1) hv.2 m
        rest (by
          simp only [written, List.length_cons, List.length_append, List.length_nil] at hn
          omega)
      obtain ⟨tail, htail⟩ := entries_head shown (List.cons_ne_nil entry more)
        ('}' :: rest)
      rw [htail] at hread ⊢
      rw [bracketed_cons (by decide) (by decide), hread]
      rfl
  | .object _, hv, _, _, _, _ => by cases hv

theorem items_written (hs : Shows shown) : ∀ (items : List Value), items ≠ [] →
    StandardItems items → ∀ (n : Nat) (rest : List Char),
      ([',', ' '].intercalate (writtenItems shown items)).length + 1 ≤ n →
        Json.items n ([',', ' '].intercalate (writtenItems shown items) ++ ']' :: rest) =
          some (items, rest)
  | [], h, _, _, _, _ => absurd rfl h
  | [v], _, hv, n, rest, hn => by
    obtain ⟨m, rfl⟩ : ∃ m, n = m + 1 := ⟨n - 1, by omega⟩
    simp only [writtenItems, List.intercalate_singleton] at hn ⊢
    have hread := value_written hs v hv.1 m (']' :: rest) (by omega)
      (follows_of_head (by decide) rest)
    rw [Json.items, hread, Option.bind_some]
    dsimp only
    rw [next_close (by decide), Option.bind_some]
    dsimp only
    rw [if_neg (by decide), if_pos rfl]
  | v :: w :: vs, _, hv, n, rest, hn => by
    obtain ⟨m, rfl⟩ : ∃ m, n = m + 1 := ⟨n - 1, by omega⟩
    simp only [writtenItems, List.intercalate_cons_cons, List.length_append, List.length_cons,
      List.length_nil] at hn
    have hmore := items_written hs (w :: vs) (by simp) hv.2 m rest (by
      simp only [writtenItems]
      omega)
    have hskip : skipWs (' ' :: ([',', ' '].intercalate (writtenItems shown (w :: vs)) ++
        ']' :: rest)) = [',', ' '].intercalate (writtenItems shown (w :: vs)) ++ ']' :: rest := by
      obtain ⟨c, more, hbody, hws, -⟩ := items_head shown (by simp) hv.2 (']' :: rest)
      rw [hbody]
      exact skipWs_append (List.forall_mem_singleton.mpr (by decide : isWs ' ' = true)) hws more
    have hread := value_written hs v hv.1 m (',' :: ' ' ::
      ([',', ' '].intercalate (writtenItems shown (w :: vs)) ++ ']' :: rest)) (by omega)
      (follows_of_head (by decide) _)
    have hsplit : [',', ' '].intercalate (writtenItems shown (v :: w :: vs)) ++ ']' :: rest =
        written shown v ++ ',' :: ' ' ::
          ([',', ' '].intercalate (writtenItems shown (w :: vs)) ++ ']' :: rest) := by
      simp [writtenItems, List.intercalate_cons_cons]
    rw [hsplit, Json.items, hread, Option.bind_some]
    dsimp only
    rw [next_close (by decide), Option.bind_some]
    dsimp only
    rw [if_pos rfl, hskip, hmore]
    rfl

theorem entries_written (hs : Shows shown) : ∀ (entries : List (String × Value)) (before : Dict),
    entries ≠ [] → ((before ++ entries).map (·.1)).Nodup → StandardEntries entries →
      ∀ (n : Nat) (rest : List Char),
        ([',', ' '].intercalate (writtenEntries shown entries)).length + 1 ≤ n →
          Json.entries n before
            ([',', ' '].intercalate (writtenEntries shown entries) ++ '}' :: rest) =
              some (before ++ entries, rest)
  | [], _, h, _, _, _, _, _ => absurd rfl h
  | [(k, v)], before, _, hkeys, hv, n, rest, hn => by
    obtain ⟨m, rfl⟩ : ∃ m, n = m + 1 := ⟨n - 1, by omega⟩
    have hnew : k ∉ before.map (·.1) := by
      rw [List.map_append, List.nodup_append] at hkeys
      exact fun hk => hkeys.2.2 k hk k (by simp) rfl
    simp only [writtenEntries, List.intercalate_singleton, List.length_append, List.length_cons]
      at hn
    have hread := value_written hs v hv.1 m ('}' :: rest) (by omega)
      (follows_of_head (by decide) rest)
    have hsplit : [',', ' '].intercalate (writtenEntries shown [(k, v)]) ++ '}' :: rest =
        quoted shown k ++ ':' :: ' ' :: (written shown v ++ '}' :: rest) := by
      simp [writtenEntries]
    rw [hsplit, entries_entry hs hv.1 hnew (by decide) hread, if_neg (by decide), if_pos rfl]
  | (k, v) :: (l, w) :: more, before, _, hkeys, hv, n, rest, hn => by
    obtain ⟨m, rfl⟩ : ∃ m, n = m + 1 := ⟨n - 1, by omega⟩
    have hnew : k ∉ before.map (·.1) := by
      rw [List.map_append, List.nodup_append] at hkeys
      exact fun hk => hkeys.2.2 k hk k (by simp) rfl
    simp only [writtenEntries, List.intercalate_cons_cons, List.length_append, List.length_cons,
      List.length_nil] at hn
    have hmore := entries_written hs ((l, w) :: more) (before ++ [(k, v)]) (by simp)
      (by simpa using hkeys) hv.2 m rest (by
        simp only [writtenEntries]
        omega)
    set tail := [',', ' '].intercalate (writtenEntries shown ((l, w) :: more)) ++ '}' :: rest
      with htail
    have hread := value_written hs v hv.1 m (',' :: ' ' :: tail) (by omega)
      (follows_of_head (by decide) _)
    have hsplit : [',', ' '].intercalate (writtenEntries shown ((k, v) :: (l, w) :: more)) ++
        '}' :: rest = quoted shown k ++ ':' :: ' ' :: (written shown v ++
          ',' :: ' ' :: tail) := by
      simp [writtenEntries, List.intercalate_cons_cons, htail]
    have hskip : skipWs (' ' :: tail) = tail := by
      obtain ⟨more', hbody⟩ := entries_head shown (List.cons_ne_nil (l, w) more)
        ('}' :: rest)
      rw [htail, hbody]
      exact skipWs_append (List.forall_mem_singleton.mpr (by decide : isWs ' ' = true)) (by decide) more'
    rw [hsplit, entries_entry hs hv.1 hnew (by decide) hread, if_pos rfl, hskip, hmore,
      List.append_assoc, List.singleton_append]

end

/-- **What is written is read back.** -/
theorem loads_written (hs : Shows shown) {v : Value} (hv : Standard v) :
    loads (written shown v) = some v := by
  have hskip := skipWs_written shown hv []
  have hread := value_written hs v hv ((written shown v).length + 1) [] (by omega)
    (by intro c hc; cases hc)
  rw [List.append_nil] at hskip hread
  exact loads_eq_some.mpr ⟨[], by rw [hskip, hread], rfl⟩

end Read

/-! ## 5. Where the texts of what is written stand -/

theorem run_append (q : Quotes) (a b : List Char) :
    q.run (a ++ b) = (q.run a).bind fun q => q.run b := by
  rw [Quotes.run, List.foldlM_append]
  rfl

theorem run_cons (q : Quotes) (c : Char) (cs : List Char) :
    q.run (c :: cs) = (q.next c).bind fun q => q.run cs := by
  rw [Quotes.run, List.foldlM_cons]
  rfl

/-- Text without a quote and a backslash does not leave a text, and without a backquote it does not
begin one. -/
theorem run_inside {cs : List Char} (h : ∀ c ∈ cs, c ≠ '"' ∧ c ≠ '\\') :
    Quotes.run .inside cs = some .inside := by
  induction cs with
  | nil => rfl
  | cons c cs ih =>
    obtain ⟨hquote, hslash⟩ := h c (List.mem_cons_self ..)
    rw [run_cons, Quotes.next, if_neg hquote, if_neg hslash, Option.bind_some]
    exact ih fun c hc => h c (List.mem_cons_of_mem _ hc)

theorem run_outside {cs : List Char} (h : ∀ c ∈ cs, c ≠ '"' ∧ c ≠ '\\' ∧ c ≠ backquote) :
    Quotes.run .outside cs = some .outside := by
  induction cs with
  | nil => rfl
  | cons c cs ih =>
    obtain ⟨hquote, hslash, htick⟩ := h c (List.mem_cons_self ..)
    rw [run_cons, Quotes.next, if_neg hquote, if_neg (by simp [hslash, htick]), Option.bind_some]
    exact ih fun c hc => h c (List.mem_cons_of_mem _ hc)

theorem isNumeric_bare {c : Char} (h : isNumeric c = true) :
    c ≠ '"' ∧ c ≠ '\\' ∧ c ≠ backquote := by
  refine ⟨?_, ?_, ?_⟩ <;>
  · rintro rfl
    exact absurd h (by decide)

theorem isWs_bare {c : Char} (h : isWs c = true) : c ≠ '"' ∧ c ≠ '\\' ∧ c ≠ backquote := by
  refine ⟨?_, ?_, ?_⟩ <;>
  · rintro rfl
    exact absurd h (by decide)

theorem run_quoted {shown : Char → List Char} (hs : Shows shown) (s : String) :
    Quotes.run .outside (quoted shown s) = some .outside := by
  have hbody : ∀ cs : List Char, Quotes.run .inside (cs.flatMap shown) = some .inside := by
    intro cs
    induction cs with
    | nil => rfl
    | cons c cs ih =>
      rw [List.flatMap_cons, run_append, hs.stays, Option.bind_some]
      exact ih
  rw [quoted, run_cons]
  change Quotes.run .inside _ = _
  rw [run_append, hbody]
  rfl

/-- Texts that close what they open, one after the other. -/
theorem run_intercalate {texts : List (List Char)}
    (h : ∀ t ∈ texts, Quotes.run .outside t = some .outside) :
    Quotes.run .outside ([',', ' '].intercalate texts) = some .outside := by
  match texts, h with
  | [], _ => rfl
  | [t], h => simpa using h t (by simp)
  | t :: u :: more, h =>
    rw [List.intercalate_cons_cons, run_append, run_append, h t (by simp)]
    exact run_intercalate fun x hx => h x (List.mem_cons_of_mem _ hx)

section Quoted

variable {shown : Char → List Char}

mutual

/-- What is written closes the texts it opens, and backquotes stand in them. -/
theorem run_written (hs : Shows shown) : ∀ v : Value, Standard v →
    Quotes.run .outside (written shown v) = some .outside
  | .null, _ => rfl
  | .bool b, _ => by cases b <;> rfl
  | .int i, _ => run_outside fun c hc => isNumeric_bare (toString_isNumeric i c hc)
  | .float m _, hv => run_outside fun c hc => isNumeric_bare (decimalText_isNumeric m hv c hc)
  | .str s, _ => run_quoted hs s
  | .list items, hv => by
    rw [written, run_cons]
    change Quotes.run .outside _ = _
    rw [run_append, run_intercalate (run_items hs items hv)]
    rfl
  | .dict entries, hv => by
    rw [written, run_cons]
    change Quotes.run .outside _ = _
    rw [run_append, run_intercalate (run_entries hs entries hv.2)]
    rfl
  | .object s, _ => run_quoted hs s

theorem run_items (hs : Shows shown) : ∀ items : List Value, StandardItems items →
    ∀ t ∈ writtenItems shown items, Quotes.run .outside t = some .outside
  | [], _, t, ht => by cases ht
  | v :: rest, hv, t, ht => by
    rw [writtenItems, List.mem_cons] at ht
    rcases ht with rfl | ht
    · exact run_written hs v hv.1
    · exact run_items hs rest hv.2 t ht

theorem run_entries (hs : Shows shown) : ∀ entries : List (String × Value),
    StandardEntries entries →
      ∀ t ∈ writtenEntries shown entries, Quotes.run .outside t = some .outside
  | [], _, t, ht => by cases ht
  | (k, v) :: rest, hv, t, ht => by
    rw [writtenEntries, List.mem_cons] at ht
    rcases ht with rfl | ht
    · rw [run_append, run_quoted hs]
      exact run_written hs v hv.1
    · exact run_entries hs rest hv.2 t ht

end

/-! ## 6. Reading from inside a text -/

mutual

/-- No text of a value holds a backquote. -/
def Unmarked : Value → Prop
  | .str s => backquote ∉ s.toList
  | .list items => UnmarkedItems items
  | .dict entries => UnmarkedEntries entries
  | _ => True

def UnmarkedItems : List Value → Prop
  | [] => True
  | v :: rest => Unmarked v ∧ UnmarkedItems rest

def UnmarkedEntries : List (String × Value) → Prop
  | [] => True
  | (k, v) :: rest => backquote ∉ k.toList ∧ Unmarked v ∧ UnmarkedEntries rest

end

theorem unmarked_put {d : Dict} {key : String} {v : Value} (hd : UnmarkedEntries d)
    (hkey : backquote ∉ key.toList) (hv : Unmarked v) : UnmarkedEntries (d.put key v) := by
  induction d with
  | nil => exact ⟨hkey, hv, trivial⟩
  | cons entry rest ih =>
    obtain ⟨k, w⟩ := entry
    obtain ⟨hk, hw, hrest⟩ := hd
    rw [Dict.put]
    split
    · exact ⟨hk, hv, hrest⟩
    · exact ⟨hk, hw, ih hrest⟩

theorem not_mem_quoted (hs : Shows shown) {s : String} (h : backquote ∉ s.toList) :
    backquote ∉ quoted shown s := by
  intro hmem
  rw [quoted, List.mem_cons, List.mem_append, List.mem_flatMap] at hmem
  rcases hmem with hquote | ⟨c, hc, hshown⟩ | hquote
  · exact absurd hquote (by decide)
  · rw [hs.marks c hshown] at hc
    exact h hc
  · exact absurd hquote (by decide)

theorem not_mem_intercalate {texts : List (List Char)} (h : ∀ t ∈ texts, backquote ∉ t) :
    backquote ∉ [',', ' '].intercalate texts := by
  match texts, h with
  | [], _ => simp
  | [t], h => simpa using h t (by simp)
  | t :: u :: more, h =>
    rw [List.intercalate_cons_cons, List.mem_append, List.mem_append, not_or, not_or]
    exact ⟨⟨h t (by simp), by decide⟩,
      not_mem_intercalate fun x hx => h x (List.mem_cons_of_mem _ hx)⟩

mutual

/-- A value whose texts hold no backquote is written without one. -/
theorem not_mem_written (hs : Shows shown) : ∀ v : Value, Standard v → Unmarked v →
    backquote ∉ written shown v
  | .null, _, _ => by
    rw [written]
    decide
  | .bool b, _, _ => by cases b <;> rw [written] <;> decide
  | .int i, _, _ => fun h => (isNumeric_bare (toString_isNumeric i _ h)).2.2 rfl
  | .float m _, hv, _ => fun h => (isNumeric_bare (decimalText_isNumeric m hv _ h)).2.2 rfl
  | .str _, _, h => not_mem_quoted hs h
  | .list items, hv, h => by
    have hitems := not_mem_intercalate (not_mem_items hs items hv h)
    rw [written, List.mem_cons, List.mem_append, not_or, not_or]
    exact ⟨by decide, hitems, by decide⟩
  | .dict entries, hv, h => by
    have hentries := not_mem_intercalate (not_mem_entries hs entries hv.2 h)
    rw [written, List.mem_cons, List.mem_append, not_or, not_or]
    exact ⟨by decide, hentries, by decide⟩
  | .object _, hv, _ => by cases hv

theorem not_mem_items (hs : Shows shown) : ∀ items : List Value, StandardItems items →
    UnmarkedItems items → ∀ t ∈ writtenItems shown items, backquote ∉ t
  | [], _, _, t, ht => by cases ht
  | v :: rest, hv, h, t, ht => by
    rw [writtenItems, List.mem_cons] at ht
    rcases ht with rfl | ht
    · exact not_mem_written hs v hv.1 h.1
    · exact not_mem_items hs rest hv.2 h.2 t ht

theorem not_mem_entries (hs : Shows shown) : ∀ entries : List (String × Value),
    StandardEntries entries → UnmarkedEntries entries →
      ∀ t ∈ writtenEntries shown entries, backquote ∉ t
  | [], _, _, t, ht => by cases ht
  | (k, v) :: rest, hv, h, t, ht => by
    rw [writtenEntries, List.mem_cons] at ht
    rcases ht with rfl | ht
    · rw [List.mem_append, List.mem_cons, List.mem_cons, not_or, not_or, not_or]
      exact ⟨not_mem_quoted hs h.1, by decide, by decide, not_mem_written hs v hv.1 h.2.1⟩
    · exact not_mem_entries hs rest hv.2 h.2.2 t ht

end

end Quoted

section Flipped

variable {q : Quotes} {cs rest : List Char} {n : Nat}

/-- What is left after some characters is as the text was before them. -/
theorem run_rest {a b : List Char} {p : Quotes} (ha : p.run a = some p)
    (h : p.run (a ++ b) = some q) : p.run b = some q := by
  rwa [run_append, ha, Option.bind_some] at h

theorem run_skipWs (h : Quotes.run .inside cs = some q) :
    Quotes.run .inside (skipWs cs) = some q := by
  obtain ⟨ws, hcs, hws⟩ := skipWs_eq cs
  rw [hcs] at h
  exact run_rest (run_inside fun c hc => ⟨(isWs_bare (hws c hc)).1, (isWs_bare (hws c hc)).2.1⟩) h

theorem run_next {c : Char} (h : Quotes.run .inside cs = some q) (hnext : next cs = some (c, rest))
    (hquote : c ≠ '"') (hslash : c ≠ '\\') : Quotes.run .inside rest = some q := by
  have hskip := run_skipWs h
  unfold next at hnext
  split at hnext
  · cases hnext
  · rename_i heq
    cases hnext
    rw [heq, run_cons, Quotes.next, if_neg hquote, if_neg hslash, Option.bind_some] at hskip
    exact hskip

theorem units_flipped {us : List Nat} (h : Quotes.run .outside cs = some q)
    (hunits : units .plain cs = some (us, rest)) :
    (∃ text : List Char, us = text.map Char.toNat ∧ backquote ∉ text) ∧
      Quotes.run .inside rest = some q := by
  induction cs generalizing us with
  | nil => cases hunits
  | cons c cs ih =>
    rw [run_cons, Quotes.next] at h
    simp only [units, Lex.next] at hunits
    by_cases hquote : c = '"'
    · rw [if_pos hquote] at h hunits
      cases hunits
      exact ⟨⟨[], rfl, by simp⟩, h⟩
    · rw [if_neg hquote] at h hunits
      by_cases hmark : c = '\\' ∨ c = backquote
      · rw [if_pos hmark] at h
        cases h
      · rw [if_neg hmark, Option.bind_some] at h
        rw [not_or] at hmark
        rw [if_neg hmark.1] at hunits
        split at hunits
        · cases hunits
        · obtain ⟨⟨us', rest'⟩, hmore, heq⟩ := Option.map_eq_some_iff.mp hunits
          cases heq
          obtain ⟨⟨text, rfl, htext⟩, hrest⟩ := ih h hmore
          refine ⟨⟨c :: text, rfl, ?_⟩, hrest⟩
          rw [List.mem_cons, not_or]
          exact ⟨fun heq => hmark.2 heq.symm, htext⟩

theorem characters_map (text : List Char) : characters none (text.map Char.toNat) = text := by
  induction text with
  | nil => rfl
  | cons c text ih => rw [List.map_cons, characters_one, ih]

/-- Between the texts of what is written, a text is read that holds no backquote. -/
theorem string_flipped {s : String} (h : Quotes.run .outside cs = some q)
    (hstring : string cs = some (s, rest)) :
    backquote ∉ s.toList ∧ Quotes.run .inside rest = some q := by
  obtain ⟨⟨us, rest'⟩, hunits, heq⟩ := Option.map_eq_some_iff.mp hstring
  cases heq
  obtain ⟨⟨text, rfl, htext⟩, hrest⟩ := units_flipped h hunits
  rw [characters_map, String.toList_ofList]
  exact ⟨htext, hrest⟩

theorem decimal_unmarked (negative : Bool) (digits : List Char) (power : Int) :
    Unmarked (decimal negative digits power) := by
  unfold decimal
  dsimp only
  split <;> trivial

theorem unsigned_unmarked {negative : Bool} {v : Value} (h : unsigned? negative cs = some v) :
    Unmarked v := by
  unfold unsigned? at h
  dsimp only at h
  split at h
  · cases h
  · split at h
    · cases h
      trivial
    · split at h
      · cases h
      · split at h
        · cases h
          exact decimal_unmarked _ _ _
        · obtain ⟨e, -, rfl⟩ := Option.map_eq_some_iff.mp h
          exact decimal_unmarked _ _ _
    · obtain ⟨e, -, rfl⟩ := Option.map_eq_some_iff.mp h
      exact decimal_unmarked _ _ _

theorem number_unmarked {v : Value} (h : number? cs = some v) : Unmarked v := by
  unfold number? at h
  split at h
  · exact unsigned_unmarked h
  · exact unsigned_unmarked h

theorem scalar_flipped {v : Value} (h : Quotes.run .inside cs = some q)
    (hscalar : scalar cs = some (v, rest)) : Unmarked v ∧ Quotes.run .inside rest = some q := by
  unfold scalar at hscalar
  split at hscalar
  · rename_i v' hnumber
    cases hscalar
    refine ⟨number_unmarked hnumber, run_rest (a := cs.takeWhile isNumeric) ?_ ?_⟩
    · refine run_inside fun c hc => ?_
      obtain ⟨hquote, hslash, -⟩ := isNumeric_bare (List.mem_takeWhile_imp hc)
      exact ⟨hquote, hslash⟩
    · rwa [List.takeWhile_append_dropWhile]
  · obtain ⟨⟨word, v'⟩, hfind, heq⟩ := Option.map_eq_some_iff.mp hscalar
    cases heq
    have hword : (word, v') ∈ words := List.mem_of_find?_eq_some hfind
    have hbegins : word.isPrefixOf cs = true := by simpa using List.find?_some hfind
    obtain ⟨tail, rfl⟩ := List.isPrefixOf_iff_prefix.mp hbegins
    have hbare : ∀ w ∈ words, w.1.all (fun c => decide (c ≠ '"' ∧ c ≠ '\\')) = true := by decide
    have hplain : Unmarked v' := by
      simp only [words, List.mem_cons, List.not_mem_nil, or_false, Prod.mk.injEq] at hword
      rcases hword with ⟨-, rfl⟩ | ⟨-, rfl⟩ | ⟨-, rfl⟩ | ⟨-, rfl⟩ | ⟨-, rfl⟩ | ⟨-, rfl⟩ <;> trivial
    exact ⟨hplain, by simpa using run_rest (run_inside (List.all_iff_forall_prop.mp (hbare _ hword))) h⟩

theorem bracketed_flipped {β : Type} {close : Char} {empty b : β}
    {f : List Char → Option (β × List Char)} {P : β → Prop} (hempty : P empty)
    (hclose : close ≠ '"') (hslash : close ≠ '\\')
    (hf : ∀ cs b rest, Quotes.run .inside cs = some q → f cs = some (b, rest) →
      P b ∧ Quotes.run .inside rest = some q)
    (h : Quotes.run .inside cs = some q) (hread : bracketed close empty f cs = some (b, rest)) :
    P b ∧ Quotes.run .inside rest = some q := by
  have hskip := run_skipWs h
  unfold bracketed at hread
  split at hread
  · rename_i hhead
    cases hread
    obtain ⟨x, hx⟩ : ∃ x, skipWs cs = close :: x := by
      cases hs : skipWs cs with
      | nil => simp [hs] at hhead
      | cons c x =>
        rw [hs] at hhead
        cases hhead
        exact ⟨x, rfl⟩
    rw [hx, run_cons, Quotes.next, if_neg hclose, if_neg hslash, Option.bind_some] at hskip
    exact ⟨hempty, by rwa [hx]⟩
  · exact hf _ _ _ hskip hread

/-- **Read from inside a text, nothing holds a backquote**: the texts that are read are what stands
between those that were written. -/
theorem value_flipped (n : Nat) :
    (∀ cs v rest, Quotes.run .inside cs = some q → value n cs = some (v, rest) →
      Unmarked v ∧ Quotes.run .inside rest = some q) ∧
    (∀ cs vs rest, Quotes.run .inside cs = some q → items n cs = some (vs, rest) →
      UnmarkedItems vs ∧ Quotes.run .inside rest = some q) ∧
    ∀ before cs d rest, UnmarkedEntries before → Quotes.run .inside cs = some q →
      entries n before cs = some (d, rest) →
        UnmarkedEntries d ∧ Quotes.run .inside rest = some q := by
  induction n with
  | zero =>
    refine ⟨fun _ _ _ _ h => ?_, fun _ _ _ _ h => ?_, fun _ _ _ _ _ _ h => ?_⟩
    · simp [value] at h
    · simp [items] at h
    · simp [entries] at h
  | succ n ih =>
    obtain ⟨ihvalue, ihitems, ihentries⟩ := ih
    refine ⟨fun cs v rest hrun h => ?_, fun cs vs rest hrun h => ?_,
      fun before cs d rest hbefore hrun h => ?_⟩
    · cases cs with
      | nil => simp [value] at h
      | cons c cs =>
        unfold value at h
        split at h
        · rename_i hquote
          obtain ⟨⟨s, rest'⟩, hs, heq⟩ := Option.map_eq_some_iff.mp h
          cases heq
          rw [run_cons, Quotes.next, if_pos hquote, Option.bind_some] at hrun
          exact string_flipped hrun hs
        · rename_i hquote
          split at h
          · rename_i hlist
            obtain ⟨⟨vs, rest'⟩, hvs, heq⟩ := Option.map_eq_some_iff.mp h
            cases heq
            subst hlist
            have hinside : Quotes.run .inside cs = some q := hrun
            have hread : UnmarkedItems vs ∧ Quotes.run .inside rest = some q :=
              bracketed_flipped (P := UnmarkedItems) (show UnmarkedItems [] from trivial)
                (by decide) (by decide) ihitems hinside hvs
            exact hread
          · split at h
            · rename_i hdict
              obtain ⟨⟨es, rest'⟩, hes, heq⟩ := Option.map_eq_some_iff.mp h
              cases heq
              subst hdict
              have hinside : Quotes.run .inside cs = some q := hrun
              have hread : UnmarkedEntries es ∧ Quotes.run .inside rest = some q :=
                bracketed_flipped (P := UnmarkedEntries) (show UnmarkedEntries [] from trivial)
                  (by decide) (by decide) (fun cs d rest => ihentries [] cs d rest trivial)
                  hinside hes
              exact hread
            · exact scalar_flipped hrun h
    · unfold items at h
      obtain ⟨⟨v, mid⟩, hv, h⟩ := Option.bind_eq_some_iff.mp h
      obtain ⟨⟨c, mid'⟩, hc, h⟩ := Option.bind_eq_some_iff.mp h
      obtain ⟨hunmarked, hmid⟩ := ihvalue _ _ _ hrun hv
      dsimp only at h
      split at h
      · rename_i hcomma
        obtain ⟨⟨vs', rest'⟩, hvs, heq⟩ := Option.map_eq_some_iff.mp h
        cases heq
        subst hcomma
        obtain ⟨hmore, hrest⟩ := ihitems _ _ _
          (run_skipWs (run_next hmid hc (by decide) (by decide))) hvs
        exact ⟨⟨hunmarked, hmore⟩, hrest⟩
      · split at h
        · rename_i hclose
          cases h
          subst hclose
          exact ⟨⟨hunmarked, trivial⟩, run_next hmid hc (by decide) (by decide)⟩
        · cases h
    · cases cs with
      | nil => simp [entries] at h
      | cons quote cs =>
        unfold entries at h
        split at h
        · cases h
        · rename_i hquote
          rw [not_not] at hquote
          obtain ⟨⟨key, mid⟩, hkey, h⟩ := Option.bind_eq_some_iff.mp h
          obtain ⟨⟨c, mid'⟩, hc, h⟩ := Option.bind_eq_some_iff.mp h
          rw [run_cons, Quotes.next, if_pos hquote, Option.bind_some] at hrun
          obtain ⟨hkeymark, hmid⟩ := string_flipped hrun hkey
          dsimp only at h
          split at h
          · cases h
          · rename_i hcolon
            rw [not_not] at hcolon
            subst hcolon
            obtain ⟨⟨v, mid''⟩, hv, h⟩ := Option.bind_eq_some_iff.mp h
            obtain ⟨⟨e, last⟩, he, h⟩ := Option.bind_eq_some_iff.mp h
            obtain ⟨hunmarked, hmid⟩ := ihvalue _ _ _
              (run_skipWs (run_next hmid hc (by decide) (by decide))) hv
            have hput := unmarked_put hbefore hkeymark hunmarked
            dsimp only at h
            split at h
            · rename_i hcomma
              subst hcomma
              exact ihentries _ _ _ _ hput
                (run_skipWs (run_next hmid he (by decide) (by decide))) h
            · split at h
              · rename_i hclose
                cases h
                subst hclose
                exact ⟨hput, run_next hmid he (by decide) (by decide)⟩
              · cases h

/-- A whole value. -/
theorem loads_flipped {v : Value} (h : Quotes.run .inside cs = some q) (hv : loads cs = some v) :
    Unmarked v := by
  obtain ⟨rest, hvalue, -⟩ := loads_eq_some.mp hv
  exact ((value_flipped _).1 _ _ _ (run_skipWs h) hvalue).1

end Flipped

end Apowerb.Json
