/-
# The JSON object of an answer

`core/agent_helpers/callbacks.py`: `extract_json` takes an object out of what a model wrote.  It tries
the whole text, then the last block between fences that is an object, then the last object that
stands anywhere.  The text is what the caller makes of the answer with `str`.

* `extractJson_iff`: the object that a text holds, in braces of its own only, is found when the text
  is nothing else, and otherwise exactly when every fenced passage that is an object is this one.

The block between fences is found by a regular expression that knows nothing of texts: a fence that
stands in a text of the object begins a passage too, and what is read of it is never the object
(`Within.ne`).
-/
import Apowerb.Agent.Stream
import Apowerb.Json.Written

namespace Apowerb.Agent.ExtractJson

open Apowerb.Json (Quotes Shows Standard Unmarked backquote jsonShown quoted written)

/-! ## 1. The program -/

/-- What `` ```(?:json)?\s* `` leaves. -/
def opening (cs : List Char) : Option (List Char) :=
  (Text.afterWord "```" cs).map fun rest =>
    ((Text.afterWord "json" rest).getD rest).dropWhile Text.isSpace

/-- What `` \s*``` `` leaves. -/
def closing (cs : List Char) : Option (List Char) :=
  Text.afterWord "```" (cs.dropWhile Text.isSpace)

/-- `.*?\}` before a closing fence: the first brace that one follows. -/
def shortest : List Char → Option (List Char × List Char)
  | [] => none
  | c :: cs =>
    match if c = '}' then closing cs else none with
    | some rest => some ([c], rest)
    | none => (shortest cs).map fun p => (c :: p.1, p.2)

/-- `_FENCED_JSON_RE` at the beginning of a text: its group, and what follows the match. -/
def fencedJson (cs : List Char) : Option (List Char × List Char) :=
  (opening cs).bind fun rest =>
    if rest.head? = some '{' then (shortest rest.tail).map fun p => ('{' :: p.1, p.2) else none

/-- `_FENCED_JSON_RE.findall`. -/
def findAll : Nat → List Char → List (List Char)
  | 0, _ => []
  | _ + 1, [] => []
  | n + 1, c :: cs =>
    match fencedJson (c :: cs) with
    | some (group, rest) => group :: findAll n rest
    | none => findAll n cs

/-- `json.loads(candidate)`, if it is a dictionary. -/
def asObject (cs : List Char) : Option Dict :=
  match Json.loads cs with
  | some (.dict d) => some d
  | _ => none

/-- `_decode_balanced_objects`. -/
def decodeBalancedObjects : Nat → List Char → List Dict
  | 0, _ => []
  | _ + 1, [] => []
  | n + 1, c :: cs =>
    if c ≠ '{' then decodeBalancedObjects n cs
    else match Json.value ((c :: cs).length + 1) (c :: cs) with
      | some (.dict d, rest) => d :: decodeBalancedObjects n rest
      | some (_, rest) => decodeBalancedObjects n rest
      | none => decodeBalancedObjects n cs

/-- 1) Raw JSON. -/
def rawJson (text : List Char) : Option Dict :=
  let s := Text.stripChars text
  if s.head? = some '{' ∧ s.getLast? = some '}' then asObject s else none

/-- 2) Markdown-fenced: the last valid block. -/
def markdownFenced (text : List Char) : Option Dict :=
  (findAll text.length text).reverse.findSome? asObject

/-- 3) Balanced scan: the last object that is not empty, else the last. -/
def balancedScan (text : List Char) : Option Dict :=
  let decoded := decodeBalancedObjects text.length text
  (decoded.reverse.find? fun d => d ≠ []).or decoded.getLast?

/-- `extract_json`. -/
def extractJson (text : String) : Option Dict :=
  ((rawJson text.toList).or (markdownFenced text.toList)).or (balancedScan text.toList)

example : extractJson "Example: \x7b\"status\": \"skip\"\x7d\nFinal: \x7b\"n\": 5\x7d" =
    some [("n", .int 5)] := by decide +kernel

/-! ## 2. How `json.dumps` writes -/

/-- A character, as `json.dumps` writes it: what is not ASCII is escaped. -/
def asciiShown (c : Char) : List Char :=
  (jsonShown c).flatMap fun b => if b.toNat < 127 then [b] else Stream.asciiEscape b.toNat

theorem dumps_eq {v : Value} (hv : Standard v) :
    (Stream.dumps v).toList = written asciiShown v := by
  rw [Stream.dumps, String.toList_ofList, Json.json_eq]
  exact Json.written_flatMap (fun c hc => if_pos hc) v hv

theorem hexDigit_digitChar : ∀ d < 16, Json.hexDigit (Nat.digitChar d) = some d := by decide

/-- The escape of a code unit. -/
def unitEscape (u : Nat) : List Char :=
  ['\\', 'u', Nat.digitChar (u / 4096), Nat.digitChar (u / 256 % 16),
    Nat.digitChar (u / 16 % 16), Nat.digitChar (u % 16)]

/-- A digit of an escape, before others and at the end. -/
theorem feed_hex {k v d : Nat} (hd : d < 16) (hk : 1 < k) (cs : List Char) :
    Json.Lex.feed (.hex k v) (Nat.digitChar d :: cs) =
      Json.Lex.feed (.hex (k - 1) (16 * v + d)) cs := by
  rw [Json.Lex.feed, Json.Lex.next, hexDigit_digitChar d hd, Option.map_some,
    if_neg (by omega), Option.bind_some]
  dsimp only
  rw [Option.bind_some]
  simp

theorem feed_last {v d : Nat} (hd : d < 16) :
    Json.Lex.feed (.hex 1 v) [Nat.digitChar d] = some ([16 * v + d], .plain) := by
  rw [Json.Lex.feed, Json.Lex.next, hexDigit_digitChar d hd, Option.map_some,
    if_pos (by omega)]
  rfl

theorem feed_unit {u : Nat} (h : u < 0x10000) :
    Json.Lex.feed .plain (unitEscape u) = some ([u], .plain) := by
  have hvalue :
      16 * (16 * (16 * (16 * 0 + u / 4096) + u / 256 % 16) + u / 16 % 16) + u % 16 = u := by
    omega
  have hbegin : ∀ cs, Json.Lex.feed .plain ('\\' :: 'u' :: cs) = Json.Lex.feed (.hex 4 0) cs := by
    intro cs
    change ((Json.Lex.feed (.hex 4 0) cs).map _).map _ = _
    simp
  rw [unitEscape, hbegin, feed_hex (by omega) (by decide), feed_hex (by omega) (by decide),
    feed_hex (by omega) (by decide), feed_last (by omega), hvalue]

theorem digitChar_bare : ∀ d < 16, Nat.digitChar d ≠ '"' ∧ Nat.digitChar d ≠ '\\' ∧
    Nat.digitChar d ≠ backquote := by
  decide

theorem unitEscape_stays {u : Nat} (h : u < 0x10000) :
    Quotes.run .inside (unitEscape u) = some .inside := by
  have hdigits : ∀ c ∈ [Nat.digitChar (u / 4096), Nat.digitChar (u / 256 % 16),
      Nat.digitChar (u / 16 % 16), Nat.digitChar (u % 16)], c ≠ '"' ∧ c ≠ '\\' := by
    simp only [List.forall_mem_cons]
    exact ⟨⟨(digitChar_bare _ (by omega)).1, (digitChar_bare _ (by omega)).2.1⟩,
      ⟨(digitChar_bare _ (by omega)).1, (digitChar_bare _ (by omega)).2.1⟩,
      ⟨(digitChar_bare _ (by omega)).1, (digitChar_bare _ (by omega)).2.1⟩,
      ⟨(digitChar_bare _ (by omega)).1, (digitChar_bare _ (by omega)).2.1⟩, by simp⟩
  have hrun := Json.run_inside hdigits
  exact hrun

theorem unitEscape_unmarked {u : Nat} (h : u < 0x10000) : backquote ∉ unitEscape u := by
  simp only [unitEscape, List.mem_cons, List.not_mem_nil, or_false, not_or]
  exact ⟨by decide, by decide, (digitChar_bare _ (by omega)).2.2.symm,
    (digitChar_bare _ (by omega)).2.2.symm, (digitChar_bare _ (by omega)).2.2.symm,
    (digitChar_bare _ (by omega)).2.2.symm⟩

/-- The escapes of a character: one, or the two halves. -/
theorem asciiEscape_cases (c : Char) :
    (Stream.asciiEscape c.toNat = unitEscape c.toNat ∧ c.toNat < 0x10000) ∨
      ∃ high low, Stream.asciiEscape c.toNat = unitEscape high ++ unitEscape low ∧
        (0xd800 ≤ high ∧ high ≤ 0xdbff) ∧ (0xdc00 ≤ low ∧ low ≤ 0xdfff) ∧
          0x10000 + (high - 0xd800) * 0x400 + (low - 0xdc00) = c.toNat := by
  have hvalid : c.toNat < 0xd800 ∨ 0xdfff < c.toNat ∧ c.toNat < 0x110000 := c.valid
  by_cases hsmall : c.toNat < 0x10000
  · refine .inl ⟨?_, hsmall⟩
    rw [Stream.asciiEscape, if_pos hsmall]
    rfl
  · refine .inr ⟨0xd800 + (c.toNat - 0x10000) / 0x400, 0xdc00 + (c.toNat - 0x10000) % 0x400, ?_,
      by omega, by omega, by omega⟩
    rw [Stream.asciiEscape, if_neg hsmall]
    rfl

/-- The two halves of a character are read as the character. -/
theorem characters_pair {high low : Nat} {c : Char} (hhigh : 0xd800 ≤ high ∧ high ≤ 0xdbff)
    (hlow : 0xdc00 ≤ low ∧ low ≤ 0xdfff)
    (hc : 0x10000 + (high - 0xd800) * 0x400 + (low - 0xdc00) = c.toNat) (more : List Nat) :
    Json.characters none (high :: low :: more) = c :: Json.characters none more := by
  have hisHigh : Json.isHigh high = true := by simp [Json.isHigh, hhigh]
  have hisLow : Json.isLow low = true := by simp [Json.isLow, hlow]
  rw [Json.characters, if_pos hisHigh, Json.characters, if_pos hisLow, hc, Char.ofNat_toNat]

theorem asciiShown_small {c : Char} (h : c.toNat < 127) : asciiShown c = jsonShown c := by
  have hsmall : ∀ n < 127, (jsonShown (Char.ofNat n)).all fun b => b.toNat < 127 := by decide
  have hall := hsmall c.toNat h
  rw [Char.ofNat_toNat, List.all_eq_true] at hall
  exact Json.flatMap_ascii (fun b hb => if_pos hb) fun b hb => by simpa using hall b hb

theorem asciiShown_large {c : Char} (h : ¬ c.toNat < 127) :
    asciiShown c = Stream.asciiEscape c.toNat := by
  have hself : jsonShown c = [c] := by
    refine Json.jsonShown_self ?_ ?_ (by omega) <;>
    · rintro rfl
      exact h (by decide)
  rw [asciiShown, hself, List.flatMap_singleton, if_neg h]

theorem shows_ascii : Shows asciiShown where
  reads c := by
    by_cases hsmall : c.toNat < 127
    · rw [asciiShown_small hsmall]
      exact Json.shows_json.reads c
    · rw [asciiShown_large hsmall]
      rcases asciiEscape_cases c with ⟨heq, hlt⟩ | ⟨high, low, heq, hhigh, hlow, hc⟩
      · exact ⟨[c.toNat], by rw [heq, feed_unit hlt], Json.characters_one c⟩
      · refine ⟨[high, low], ?_, characters_pair hhigh hlow hc⟩
        rw [heq, Json.feed_append (feed_unit (by omega)), feed_unit (by omega)]
        rfl
  stays c := by
    by_cases hsmall : c.toNat < 127
    · rw [asciiShown_small hsmall]
      exact Json.shows_json.stays c
    · rw [asciiShown_large hsmall]
      rcases asciiEscape_cases c with ⟨heq, hlt⟩ | ⟨high, low, heq, hhigh, hlow, hc⟩
      · rw [heq, unitEscape_stays hlt]
      · rw [heq, Json.run_append, unitEscape_stays (by omega), Option.bind_some,
          unitEscape_stays (by omega)]
  marks c h := by
    by_cases hsmall : c.toNat < 127
    · rw [asciiShown_small hsmall] at h
      exact Json.shows_json.marks c h
    · rw [asciiShown_large hsmall] at h
      rcases asciiEscape_cases c with ⟨heq, hlt⟩ | ⟨high, low, heq, hhigh, hlow, hc⟩
      · rw [heq] at h
        exact absurd h (unitEscape_unmarked hlt)
      · rw [heq, List.mem_append] at h
        exact absurd h (not_or.mpr
          ⟨unitEscape_unmarked (by omega), unitEscape_unmarked (by omega)⟩)

/-! ## 3. The whole text, and the scan -/

section Text

variable {pre post : List Char} {n : Nat}

/-- Nothing around an object has a brace. -/
def Braceless (cs : List Char) : Prop := '{' ∉ cs ∧ '}' ∉ cs

theorem dropWhile_blank (h : ∀ c ∈ pre, Text.isSpace c = true) {c : Char}
    (hc : Text.isSpace c = false) (rest : List Char) :
    (pre ++ c :: rest).dropWhile Text.isSpace = c :: rest := by
  rw [List.dropWhile_append_of_pos h, List.dropWhile_cons_of_neg (by simp [hc])]

/-- Something that is not white space comes first. -/
theorem dropWhile_head (h : ¬ ∀ c ∈ pre, Text.isSpace c = true) (rest : List Char) :
    ∃ c ∈ pre, ((pre ++ rest).dropWhile Text.isSpace).head? = some c ∧
      Text.isSpace c = false := by
  induction pre with
  | nil => exact absurd (by simp) h
  | cons c pre ih =>
    by_cases hc : Text.isSpace c = true
    · rw [List.cons_append, List.dropWhile_cons_of_pos hc]
      have hmore : ¬ ∀ d ∈ pre, Text.isSpace d = true := by
        intro hall
        refine h fun d hd => ?_
        rcases List.mem_cons.mp hd with rfl | hd
        · exact hc
        · exact hall d hd
      obtain ⟨d, hd, hhead⟩ := ih hmore
      exact ⟨d, List.mem_cons_of_mem _ hd, hhead⟩
    · rw [List.cons_append, List.dropWhile_cons_of_neg hc]
      exact ⟨c, List.mem_cons_self .., rfl, by simpa using hc⟩

theorem stripChars_head {cs : List Char} {c : Char}
    (h : (Text.stripChars cs).head? = some c) : (cs.dropWhile Text.isSpace).head? = some c := by
  unfold Text.stripChars at h
  obtain ⟨tail, htail⟩ := List.rdropWhile_prefix Text.isSpace (cs.dropWhile Text.isSpace)
  rw [← htail]
  cases hs : (cs.dropWhile Text.isSpace).rdropWhile Text.isSpace with
  | nil =>
    rw [hs] at h
    cases h
  | cons b bs =>
    rw [hs] at h
    exact h

/-- An object with white space around is left by `strip`. -/
theorem stripChars_blank {body : List Char} (hpre : ∀ c ∈ pre, Text.isSpace c = true)
    (hpost : ∀ c ∈ post, Text.isSpace c = true) :
    Text.stripChars (pre ++ '{' :: (body ++ '}' :: post)) = '{' :: (body ++ ['}']) := by
  have hback : ('{' :: (body ++ '}' :: post)).reverse =
      post.reverse ++ '}' :: (body.reverse ++ ['{']) := by
    simp
  rw [Text.stripChars, dropWhile_blank hpre (by decide), List.rdropWhile, hback,
    dropWhile_blank (by simpa using hpost) (by decide)]
  simp

/-- Otherwise what `strip` leaves does not begin and end with the braces. -/
theorem stripChars_other {body : List Char} (hpre : Braceless pre) (hpost : Braceless post)
    (hblank : ¬ ((∀ c ∈ pre, Text.isSpace c = true) ∧ ∀ c ∈ post, Text.isSpace c = true)) :
    ¬ ((Text.stripChars (pre ++ '{' :: (body ++ '}' :: post))).head? = some '{' ∧
      (Text.stripChars (pre ++ '{' :: (body ++ '}' :: post))).getLast? = some '}') := by
  rintro ⟨hhead, hlast⟩
  by_cases hfirst : ∀ c ∈ pre, Text.isSpace c = true
  · have hother : ¬ ∀ c ∈ post.reverse, Text.isSpace c = true := fun hall =>
      hblank ⟨hfirst, by simpa using hall⟩
    have hback : ('{' :: (body ++ '}' :: post)).reverse =
        post.reverse ++ '}' :: (body.reverse ++ ['{']) := by
      simp
    obtain ⟨c, hc, hchead, -⟩ := dropWhile_head hother ('}' :: (body.reverse ++ ['{']))
    rw [Text.stripChars, dropWhile_blank hfirst (by decide), List.rdropWhile, hback,
      List.getLast?_reverse, hchead] at hlast
    cases hlast
    exact hpost.2 (List.mem_reverse.mp hc)
  · obtain ⟨c, hc, hchead, -⟩ := dropWhile_head hfirst ('{' :: (body ++ '}' :: post))
    rw [stripChars_head hhead] at hchead
    cases hchead
    exact hpre.1 hc

/-- No object begins where no brace opens. -/
theorem decode_braceless (h : '{' ∉ pre) (rest : List Char) :
    decodeBalancedObjects (pre.length + n) (pre ++ rest) = decodeBalancedObjects n rest := by
  induction pre with
  | nil => rw [List.length_nil, Nat.zero_add, List.nil_append]
  | cons c pre ih =>
    rw [List.mem_cons, not_or] at h
    have hlen : (c :: pre).length + n = (pre.length + n) + 1 := by
      simp only [List.length_cons]
      omega
    rw [hlen, List.cons_append, decodeBalancedObjects, if_pos (Ne.symm h.1), ih h.2]

theorem decode_none (h : '{' ∉ post) : decodeBalancedObjects n post = [] := by
  induction n generalizing post with
  | zero => rfl
  | succ n ih =>
    cases post with
    | nil => rfl
    | cons c post =>
      rw [List.mem_cons, not_or] at h
      rw [decodeBalancedObjects, if_pos (Ne.symm h.1), ih h.2]

/-- The only object of a text is the last. -/
theorem balancedScan_eq {J : List Char} {o : Dict} (hJ : J.head? = some '{')
    (hall : Json.value (J.length + 1) J = some (.dict o, [])) (hne : o ≠ [])
    (hpre : Braceless pre) (hpost : Braceless post) :
    balancedScan (pre ++ (J ++ post)) = some o := by
  obtain ⟨c, body, rfl⟩ : ∃ c body, J = c :: body := by
    cases J with
    | nil => cases hJ
    | cons c body => exact ⟨c, body, rfl⟩
  cases hJ
  have hlen : (pre ++ ('{' :: body ++ post)).length = pre.length + ((body ++ post).length + 1) := by
    simp
  obtain ⟨u, -, hu, hmore⟩ := (Json.value_exact _).1 _ _ _ hall
  rw [List.append_nil] at hu
  have hlonger := Json.value_fuel (hmore post (.inl rfl))
    (show ('{' :: body).length + 1 ≤ ('{' :: (body ++ post)).length + 1 by simp)
  rw [← hu, List.cons_append] at hlonger
  have hdecoded : decodeBalancedObjects (pre ++ ('{' :: body ++ post)).length
      (pre ++ ('{' :: body ++ post)) = [o] := by
    rw [hlen, decode_braceless hpre.1, List.cons_append, decodeBalancedObjects,
      if_neg (by simp), hlonger]
    dsimp only
    rw [decode_none hpost.1]
  rw [balancedScan, hdecoded]
  simp [hne]

end Text

/-! ## 4. The passages between fences -/

/-- Three backquotes. -/
def fence : List Char := "```".toList

theorem closing_eq {cs rest : List Char} (h : closing cs = some rest) :
    ∃ blank, cs = blank ++ fence ++ rest := by
  refine ⟨cs.takeWhile Text.isSpace, ?_⟩
  rw [List.append_assoc, fence, ← Text.afterWord_eq_some.mp h, List.takeWhile_append_dropWhile]

theorem opening_eq {cs rest : List Char} (h : opening cs = some rest) :
    ∃ mid, cs = fence ++ mid ++ rest ∧ ∀ c ∈ mid, c ≠ '{' ∧ c ≠ '"' ∧ c ≠ '\\' := by
  obtain ⟨after, hafter, rfl⟩ := Option.map_eq_some_iff.mp h
  rw [Text.afterWord_eq_some] at hafter
  have hblank : ∀ c ∈ List.takeWhile Text.isSpace ((Text.afterWord "json" after).getD after),
      c ≠ '{' ∧ c ≠ '"' ∧ c ≠ '\\' := by
    intro c hc
    have hspace := List.mem_takeWhile_imp hc
    refine ⟨?_, ?_, ?_⟩ <;>
    · rintro rfl
      exact absurd hspace (by decide)
  cases hjson : Text.afterWord "json" after with
  | none =>
    rw [hjson, Option.getD_none] at hblank
    refine ⟨after.takeWhile Text.isSpace, ?_, hblank⟩
    rw [hafter, Option.getD_none, List.append_assoc, List.takeWhile_append_dropWhile, fence]
  | some rest =>
    rw [hjson, Option.getD_some] at hblank
    rw [Text.afterWord_eq_some] at hjson
    refine ⟨"json".toList ++ rest.takeWhile Text.isSpace, ?_, ?_⟩
    · rw [hafter, Option.getD_some, hjson, List.append_assoc, List.append_assoc,
        List.takeWhile_append_dropWhile, fence]
    · intro c hc
      rcases List.mem_append.mp hc with hword | hspace
      · have hletters : ∀ c ∈ "json".toList, c ≠ '{' ∧ c ≠ '"' ∧ c ≠ '\\' :=
          List.all_iff_forall_prop.mp (by decide)
        exact hletters c hword
      · exact hblank c hspace

theorem shortest_eq {cs group rest : List Char} (h : shortest cs = some (group, rest)) :
    ∃ more B, cs = group ++ B ∧ group = more ++ ['}'] ∧ ∃ skipped, B = skipped ++ rest := by
  induction cs generalizing group with
  | nil => cases h
  | cons c cs ih =>
    simp only [shortest] at h
    split at h
    · rename_i rest' hclosing
      cases h
      split at hclosing
      · rename_i hbrace
        obtain ⟨blank, hblank⟩ := closing_eq hclosing
        exact ⟨[], cs, by simp, by simp [hbrace], blank ++ fence, hblank⟩
      · cases hclosing
    · obtain ⟨⟨group', rest'⟩, hmore, heq⟩ := Option.map_eq_some_iff.mp h
      cases heq
      obtain ⟨more, B, hcs, hgroup, hrest⟩ := ih hmore
      exact ⟨c :: more, B, by simp [hcs], by simp [hgroup], hrest⟩

/-- A passage of a text: between the fence and its brace stand white space and a word. -/
structure Passage (cs A mid group B : List Char) : Prop where
  split : cs = A ++ (fence ++ mid) ++ (group ++ B)
  bare : ∀ c ∈ mid, c ≠ '{' ∧ c ≠ '"' ∧ c ≠ '\\'
  braces : ∃ body, group = '{' :: (body ++ ['}'])

theorem fencedJson_eq {cs group rest : List Char} (h : fencedJson cs = some (group, rest)) :
    ∃ mid skipped, Passage cs [] mid group (skipped ++ rest) := by
  obtain ⟨after, hopening, h⟩ := Option.bind_eq_some_iff.mp h
  split at h
  · rename_i hhead
    obtain ⟨⟨group', rest'⟩, hshortest, heq⟩ := Option.map_eq_some_iff.mp h
    cases heq
    obtain ⟨mid, hcs, hmid⟩ := opening_eq hopening
    obtain ⟨more, B, htail, hgroup, skipped, rfl⟩ := shortest_eq hshortest
    have hafter : after = '{' :: after.tail := (List.cons_head?_tail hhead).symm
    refine ⟨mid, skipped, ?_, hmid, more, by rw [hgroup]⟩
    rw [hcs, List.nil_append, hafter, htail, List.cons_append]
  · cases h

/-- Where a passage that is found stands; after the first, a brace opens before it. -/
theorem findAll_eq {n : Nat} {cs group : List Char} {before after : List (List Char)}
    (h : findAll n cs = before ++ group :: after) :
    ∃ A mid B, Passage cs A mid group B ∧ (before ≠ [] → '{' ∈ A) := by
  induction n generalizing cs before with
  | zero => simp [findAll] at h
  | succ n ih =>
    cases cs with
    | nil => simp [findAll] at h
    | cons c cs =>
      rw [findAll] at h
      split at h
      · rename_i group' rest hfenced
        obtain ⟨mid, skipped, hpassage⟩ := fencedJson_eq hfenced
        cases before with
        | nil =>
          cases h
          exact ⟨[], mid, skipped ++ rest, hpassage, fun hne => absurd rfl hne⟩
        | cons first before =>
          obtain ⟨rfl, hmore⟩ := List.cons_eq_cons.mp h
          obtain ⟨A, mid', B, hlater, -⟩ := ih hmore
          refine ⟨fence ++ mid ++ group' ++ skipped ++ A, mid', B,
            ⟨?_, hlater.bare, hlater.braces⟩, fun _ => ?_⟩
          · rw [hpassage.split, hlater.split]
            simp only [List.nil_append, List.append_assoc]
          · obtain ⟨body, hbody⟩ := hpassage.braces
            simp [hbody]
      · obtain ⟨A, mid, B, hpassage, hbrace⟩ := ih h
        refine ⟨c :: A, mid, B, ⟨?_, hpassage.bare, hpassage.braces⟩,
          fun hne => List.mem_cons_of_mem _ (hbrace hne)⟩
        rw [hpassage.split, List.cons_append, List.cons_append]

/-! ## 5. Where passages begin in the text of an object -/

section Object

variable {pre post J A mid group B : List Char}

/-- A passage of a text whose braces are those of an object stands in the object. -/
theorem Passage.within (h : Passage (pre ++ (J ++ post)) A mid group B) (hpre : Braceless pre)
    (hpost : Braceless post) : ∃ P after, A ++ (fence ++ mid) = pre ++ P ∧
      J = P ++ (group ++ after) := by
  obtain ⟨body, hgroup⟩ := h.braces
  -- Its first brace is not before the object.
  obtain ⟨P, hP, htail⟩ : ∃ P, A ++ (fence ++ mid) = pre ++ P ∧ J ++ post = P ++ (group ++ B) := by
    rcases List.append_eq_append_iff.mp h.split with ⟨P, hP, hJ⟩ | ⟨extra, hextra, hgr⟩
    · exact ⟨P, hP, hJ⟩
    · cases extra with
      | nil => exact ⟨[], by simpa using hextra.symm, by simpa using hgr.symm⟩
      | cons c extra =>
        rw [hgroup, List.cons_append, List.cons_append, List.cons.injEq] at hgr
        exact absurd (by rw [hextra, ← hgr.1]; simp) hpre.1
  -- Its last brace is not after the object.
  rw [← List.append_assoc] at htail
  rcases List.append_eq_append_iff.mp htail with ⟨extra, hextra, hpost'⟩ | ⟨after, hafter, -⟩
  · rcases List.eq_nil_or_concat extra with rfl | ⟨most, last, rfl⟩
    · exact ⟨P, [], hP, by rw [List.append_nil, hextra, List.append_nil]⟩
    · rw [List.concat_eq_append] at hextra hpost'
      rw [hgroup, ← List.cons_append, ← List.append_assoc, ← List.append_assoc] at hextra
      have hbrace := (List.append_inj' hextra rfl).2
      exact absurd (by rw [hpost', ← hbrace]; simp) hpost.2
  · exact ⟨P, after, hP, by rw [hafter, List.append_assoc]⟩

variable {shown : Char → List Char} {o : Dict}

/-- After a fence a text stands open. -/
theorem run_fence {q q' : Quotes} (h : q.run fence = some q') : q' = .inside := by
  cases q with
  | outside =>
    have hnone : Quotes.run .outside fence = none := by decide
    rw [hnone] at h
    cases h
  | inside => exact (Option.some.inj h).symm
  | escaped => exact (Option.some.inj h).symm

/-- A passage that begins with the object reads as the object, if at all. -/
theorem asObject_start {d : Dict} {after : List Char} (hJ : Json.loads J = some (.dict o))
    (hcut : J = group ++ after) (hd : asObject group = some d) : d = o := by
  have hloads : Json.loads group = some (.dict d) := by
    unfold asObject at hd
    split at hd
    · rename_i hloads
      cases hd
      exact hloads
    · cases hd
  rw [hcut] at hJ
  have hsame := (Json.loads_prefix hJ hloads).1
  cases hsame
  rfl

/-- One that begins with a fence of the object does not: **what stands between its texts has no
backquote**. -/
theorem asObject_inside {d : Dict} {P after : List Char} (hs : Shows shown)
    (ho : Standard (.dict o)) (hcut : written shown (.dict o) = P ++ (group ++ after))
    {start : List Char} (hP : P = start ++ (fence ++ mid))
    (hmid : ∀ c ∈ mid, c ≠ '{' ∧ c ≠ '"' ∧ c ≠ '\\') (hd : asObject group = some d) : d ≠ o := by
  have hrun := Json.run_written hs (.dict o) ho
  rw [hcut, hP, List.append_assoc, Json.run_append] at hrun
  obtain ⟨q, -, hrun⟩ := Option.bind_eq_some_iff.mp hrun
  rw [List.append_assoc, Json.run_append] at hrun
  obtain ⟨q', hfence, hrun⟩ := Option.bind_eq_some_iff.mp hrun
  rw [run_fence hfence, Json.run_append, Json.run_inside fun c hc => ⟨(hmid c hc).2.1,
    (hmid c hc).2.2⟩, Option.bind_some, Json.run_append] at hrun
  obtain ⟨last, hgroup, -⟩ := Option.bind_eq_some_iff.mp hrun
  have hunmarked : Unmarked (.dict d) := by
    unfold asObject at hd
    split at hd
    · rename_i hloads
      cases hd
      exact Json.loads_flipped hgroup hloads
    · cases hd
  rintro rfl
  refine Json.not_mem_written hs _ ho hunmarked ?_
  rw [hcut, hP]
  simp [fence, backquote]

end Object

/-! ## 6. Which object is found -/

section Found

variable {shown : Char → List Char} {o : Dict} {pre post : List Char}

/-- What a passage that is an object is: the object itself, where it begins with it. -/
theorem asObject_passage (hs : Shows shown) (ho : Standard (.dict o)) (hpre : Braceless pre)
    {A mid group B : List Char} {d : Dict} (hpost : Braceless post)
    (h : Passage (pre ++ (written shown (.dict o) ++ post)) A mid group B)
    (hd : asObject group = some d) :
    (d = o ∧ '{' ∉ A) ∨ (d ≠ o ∧ fence <:+: written shown (.dict o)) := by
  obtain ⟨P, after, hP, hcut⟩ := h.within hpre hpost
  cases P with
  | nil =>
    rw [List.nil_append] at hcut
    rw [List.append_nil] at hP
    refine .inl ⟨asObject_start (Json.loads_written hs ho) hcut hd, fun hmem => hpre.1 ?_⟩
    rw [← hP]
    exact List.mem_append_left _ hmem
  | cons c P =>
    have hc : c = '{' := by
      have hhead := congrArg List.head? hcut
      exact (Option.some.inj hhead).symm
    -- The fence before the passage is in the object, whose brace comes first.
    have hnone : '{' ∉ fence ++ mid := by
      rw [List.mem_append, not_or]
      exact ⟨by decide, fun hmem => (h.bare '{' hmem).1 rfl⟩
    rcases List.append_eq_append_iff.mp hP with ⟨start, hstart, hmid⟩ | ⟨start, hstart, hP'⟩
    · exact absurd (by rw [hmid, hc]; simp) hnone
    · refine .inr ⟨asObject_inside hs ho hcut hP' h.bare hd, ?_⟩
      rw [hcut, hP']
      exact ⟨start, mid ++ (group ++ after), by simp⟩

/-- **Which object is found** in the text of one between texts without braces. -/
theorem extractJson_written (hs : Shows shown) (ho : Standard (.dict o)) (hne : o ≠ [])
    (hpre : Braceless pre) (hpost : Braceless post) {text : String}
    (htext : text.toList = pre ++ (written shown (.dict o) ++ post)) :
    (extractJson text = some o ↔
      ((∀ c ∈ pre, Text.isSpace c = true) ∧ ∀ c ∈ post, Text.isSpace c = true) ∨
        ∀ group ∈ findAll text.toList.length text.toList, ∀ d, asObject group = some d → d = o) ∧
    (¬ fence <:+: written shown (.dict o) → extractJson text = some o) := by
  have hloads := Json.loads_written hs ho
  have hobject : asObject (written shown (.dict o)) = some o := by
    rw [asObject, hloads]
  have hvalue := Json.value_written hs (.dict o) ho ((written shown (.dict o)).length + 1) []
    (by omega) (by intro c hc; cases hc)
  rw [List.append_nil] at hvalue
  have hscan : balancedScan text.toList = some o := by
    rw [htext]
    exact balancedScan_eq rfl hvalue hne hpre hpost
  obtain ⟨body, hbody⟩ : ∃ body, written shown (.dict o) = '{' :: (body ++ ['}']) :=
    ⟨_, rfl⟩
  have hshape : text.toList = pre ++ '{' :: (body ++ '}' :: post) := by
    rw [htext, hbody]
    simp
  by_cases hblank : (∀ c ∈ pre, Text.isSpace c = true) ∧ ∀ c ∈ post, Text.isSpace c = true
  · have hlast : (written shown (.dict o)).getLast? = some '}' := by
      rw [hbody, ← List.cons_append, List.getLast?_append]
      rfl
    have hraw : rawJson text.toList = some o := by
      rw [rawJson, hshape, stripChars_blank hblank.1 hblank.2, ← hbody, if_pos ⟨rfl, hlast⟩,
        hobject]
    have hfound : extractJson text = some o := by
      rw [extractJson, hraw]
      rfl
    exact ⟨⟨fun _ => .inl hblank, fun _ => hfound⟩, fun _ => hfound⟩
  · have hraw : rawJson text.toList = none := by
      rw [rawJson, hshape]
      exact if_neg (stripChars_other hpre hpost hblank)
    have hextract : extractJson text = (markdownFenced text.toList).or (some o) := by
      rw [extractJson, hraw, Option.none_or, hscan]
    have hpassage : ∀ {before after : List (List Char)} {group : List Char} {d : Dict},
        findAll text.toList.length text.toList = before ++ group :: after →
          asObject group = some d →
            (d = o ∧ before = []) ∨ (d ≠ o ∧ fence <:+: written shown (.dict o)) := by
      intro before after group d hfind hd
      obtain ⟨A, mid, B, h, hbrace⟩ := findAll_eq hfind
      rw [htext] at h
      rcases asObject_passage hs ho hpre hpost h hd with ⟨heq, hA⟩ | hother
      · refine .inl ⟨heq, ?_⟩
        by_contra hbefore
        exact hA (hbrace hbefore)
      · exact .inr hother
    have hall : (∀ group ∈ findAll text.toList.length text.toList, ∀ d,
        asObject group = some d → d = o) → extractJson text = some o := by
      intro hall
      rw [hextract]
      cases hfenced : markdownFenced text.toList with
      | none => rfl
      | some d =>
        obtain ⟨group, hgroup, hd⟩ := List.exists_of_findSome?_eq_some hfenced
        rw [hall group (List.mem_reverse.mp hgroup) d hd]
        rfl
    refine ⟨⟨fun hfound => .inr fun group hgroup d hd => ?_, fun h => ?_⟩, fun hfence => ?_⟩
    · rw [hextract] at hfound
      cases hfenced : markdownFenced text.toList with
      | none =>
        have hnone := List.findSome?_eq_none_iff.mp hfenced group (List.mem_reverse.mpr hgroup)
        rw [hd] at hnone
        cases hnone
      | some last =>
        rw [hfenced] at hfound
        cases hfound
        -- The last passage that is an object is the first of all, and no other is one.
        obtain ⟨later, chosen, earlier, hrev, hchosen, hlater⟩ :=
          List.findSome?_eq_some_iff.mp hfenced
        have hfind : findAll text.toList.length text.toList =
            earlier.reverse ++ chosen :: later.reverse := by
          rw [← List.reverse_reverse (findAll _ _), hrev]
          simp
        rcases hpassage hfind hchosen with ⟨-, hfirst⟩ | ⟨hother, -⟩
        · rw [hfind, hfirst, List.nil_append, List.mem_cons, List.mem_reverse] at hgroup
          rcases hgroup with rfl | hgroup
          · rw [hchosen] at hd
            exact (Option.some.inj hd).symm
          · rw [hlater group hgroup] at hd
            cases hd
        · exact absurd rfl hother
    · exact hall (h.resolve_left hblank)
    · refine hall fun group hgroup d hd => ?_
      obtain ⟨before, after, hfind⟩ := List.append_of_mem hgroup
      rcases hpassage hfind hd with ⟨heq, -⟩ | ⟨-, hinside⟩
      · exact heq
      · exact absurd hinside hfence

end Found

/-- The same, for the two texts of `json.dumps`.  `pre` and `post` are what stands around: nothing,
the fences of a block, prose. -/
theorem extractJson_iff {o : Dict} (ho : Standard (.dict o)) (hne : o ≠ [])
    {json pre post : String}
    (hjson : json = Stream.dumps (.dict o) ∨ json = (Value.dict o).json)
    (hpre : Braceless pre.toList) (hpost : Braceless post.toList) :
    (extractJson (pre ++ json ++ post) = some o ↔
      ((∀ c ∈ pre.toList, Text.isSpace c = true) ∧ ∀ c ∈ post.toList, Text.isSpace c = true) ∨
        ∀ group ∈ findAll (pre ++ json ++ post).toList.length (pre ++ json ++ post).toList,
          ∀ d, asObject group = some d → d = o) ∧
    (¬ fence <:+: json.toList → extractJson (pre ++ json ++ post) = some o) := by
  have hwritten : ∃ shown, Shows shown ∧ json.toList = written shown (.dict o) := by
    rcases hjson with rfl | rfl
    · exact ⟨asciiShown, shows_ascii, dumps_eq ho⟩
    · exact ⟨jsonShown, Json.shows_json, Json.json_eq _⟩
  obtain ⟨shown, hs, htext⟩ := hwritten
  have hfound := extractJson_written hs ho hne hpre hpost
    (show (pre ++ json ++ post).toList = pre.toList ++ (written shown (.dict o) ++ post.toList) by
      rw [String.toList_append, String.toList_append, htext, List.append_assoc])
  rwa [htext]

/-- A fenced block of an object. -/
theorem extractJson_block :
    extractJson ("```json\n" ++ Stream.dumps (.dict [("status", .str "ok")]) ++ "\n```") =
      some [("status", .str "ok")] :=
  (extractJson_iff (by simp [Json.Standard, Json.StandardEntries]) (by decide) (.inl rfl)
    (by constructor <;> decide) (by constructor <;> decide)).2 (by decide +kernel)

/-- An object whose text shows an empty object in fences: the empty object is found. -/
theorem not_extractJson_fence : ¬ ∀ (o : Dict) (pre post : String), Standard (.dict o) → o ≠ [] →
    (∀ c ∈ pre.toList ++ post.toList, c ≠ '{' ∧ c ≠ '}' ∧ c ≠ backquote) →
      extractJson (pre ++ Stream.dumps (.dict o) ++ post) = some o := by
  intro h
  have hfound := h [("x", .str "```\x7b\x7d```")] "Result: " " Done."
    (by simp [Json.Standard, Json.StandardEntries]) (by decide)
    (List.all_iff_forall_prop.mp (by decide))
  have hempty : extractJson ("Result: " ++ Stream.dumps (.dict [("x", .str "```\x7b\x7d```")]) ++
      " Done.") = some [] := by
    decide +kernel
  rw [hempty] at hfound
  exact absurd hfound (by decide)

end Apowerb.Agent.ExtractJson
