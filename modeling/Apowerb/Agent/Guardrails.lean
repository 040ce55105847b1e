/-
# Guardrails

`core/guardrails.py`: the callbacks that look at what goes to the model and at what comes back.  The
first one answers in the place of the model where the user's words hold a blocked term or are too
long; the second one replaces a response that holds one, and cuts one that is too long.

* `screens_iff`: a message that holds a blocked term in some part is answered by the guardrail
  exactly when the first part holds one too or is too long; what is released of an answer holds no
  blocked term exactly when none straddles two of the texts released and none is in a notice there.

The first callback reads one part of the message; the second one sees each response alone, and so
never what stands across two of them.

`str.lower` is a parameter, character by character: the capital sigma, whose lower case depends on
what stands around it, has one lower case here.  A length that is not an integer is left out.
-/
import Mathlib.Data.List.Infix
import Apowerb.Lib.Joined
import Apowerb.Text

namespace Apowerb.Agent.Guardrails

/-! ## 1. The configuration -/

/-- The lower case of each character: one character or more. -/
structure Lower where
  char : Char → List Char
  ne_nil : ∀ c, char c ≠ []

/-- `text.lower()`. -/
def Lower.text (lower : Lower) (cs : List Char) : List Char := cs.flatMap lower.char

/-- What the guardrails read of their configuration. -/
structure Config where
  blockedTerms : List String
  maxInputLength : Option Int
  maxOutputLength : Option Int

/-- `[t.strip().lower() for t in config.get("blocked_terms", []) if t.strip()]`. -/
def Config.terms (config : Config) (lower : Lower) : List (List Char) :=
  ((config.blockedTerms.map fun t => Text.stripChars t.toList).filter (· ≠ [])).map lower.text

/-- `max_length and len(text) > int(max_length)`. -/
def tooLong (maxLength : Option Int) (text : List Char) : Bool :=
  match maxLength with
  | none => false
  | some n => n ≠ 0 && n < text.length

/-- `text[:n]`. -/
def sliceTo (n : Int) (text : List Char) : List Char :=
  if 0 ≤ n then text.take n.toNat else text.take (text.length - n.natAbs)

/-- The first blocked term of a text. -/
def blocked (lower : Lower) (config : Config) (text : List Char) : Option (List Char) :=
  (config.terms lower).find? fun t => t <:+: lower.text text

/-! ## 2. The callbacks -/

/-- A message: who says it, and the texts of its parts, `none` for a part without. -/
structure Content where
  role : String
  parts : List (Option String)

/-- The texts of the parts that have one. -/
def Content.texts (content : Content) : List (List Char) :=
  content.parts.filterMap fun part =>
    (part.map String.toList).filter (· ≠ [])

/-- The last user message text: the first text part of the last message that has one. -/
def lastUserText (contents : List Content) : Option (List Char) :=
  contents.reverse.findSome? fun content =>
    if content.role = "user" then content.texts.head? else none

/-- `before_model_callback`: the text of the answer in the place of the model's. -/
def beforeModelCallback (lower : Lower) (config : Config) (contents : List Content) :
    Option (List Char) :=
  match lastUserText contents with
  | none => none
  | some text =>
    match blocked lower config text with
    | some term => some ("I cannot process this request. The term '".toList ++ term ++
        "' is not allowed by the guardrail policy.".toList)
    | none =>
      if tooLong config.maxInputLength text then
        some ("Input too long. Maximum allowed length is ".toList ++
          (toString (config.maxInputLength.getD 0)).toList ++ " characters.".toList)
      else none

/-- The notice in the place of a response that holds a blocked term. -/
def filtered : List Char :=
  "[Response filtered by guardrail policy: output contained blocked content.]".toList

/-- The notice at the end of a response that was too long. -/
def truncated : List Char := "\n\n[Response truncated by guardrail policy.]".toList

/-- `after_model_callback`: the text in the place of a response's. -/
def afterModelCallback (lower : Lower) (config : Config) (response : Content) :
    Option (List Char) :=
  let text := response.texts.flatten
  if text = [] then none
  else match blocked lower config text with
    | some _ => some filtered
    | none =>
      if tooLong config.maxOutputLength text then
        some (sliceTo (config.maxOutputLength.getD 0) text ++ truncated)
      else none

/-- The text that the client gets of a response. -/
def released (lower : Lower) (config : Config) (response : Content) : List Char :=
  (afterModelCallback lower config response).getD response.texts.flatten

example :
    let lower : Lower := ⟨fun c => [c.toLower], fun _ => List.cons_ne_nil _ _⟩
    released lower ⟨["Secret "], none, none⟩ ⟨"model", [some "a SEC", none, some "RET"]⟩ =
      filtered := by decide +kernel

/-! ## 3. What goes in -/

section

variable {lower : Lower} {config : Config} {term text : List Char}

theorem Lower.text_append (a b : List Char) :
    lower.text (a ++ b) = lower.text a ++ lower.text b := List.flatMap_append

theorem Lower.text_flatten (texts : List (List Char)) :
    lower.text texts.flatten = (texts.map lower.text).flatten := by
  induction texts with
  | nil => rfl
  | cons text texts ih =>
    rw [List.flatten_cons, Lower.text_append, ih, List.map_cons, List.flatten_cons]

theorem term_ne_nil (h : term ∈ config.terms lower) : term ≠ [] := by
  obtain ⟨t, ht, rfl⟩ := List.mem_map.mp h
  have hne : t ≠ [] := by simpa using (List.mem_filter.mp ht).2
  obtain ⟨c, cs, rfl⟩ := List.exists_cons_of_ne_nil hne
  rw [Lower.text, List.flatMap_cons]
  exact List.append_ne_nil_of_left_ne_nil (lower.ne_nil c) _

/-- A text holds a blocked term. -/
def Holds (lower : Lower) (config : Config) (text : List Char) : Prop :=
  ∃ term ∈ config.terms lower, term <:+: lower.text text

theorem blocked_isSome : (blocked lower config text).isSome ↔ Holds lower config text := by
  rw [blocked, List.find?_isSome]
  simp [Holds]

theorem blocked_eq_none : blocked lower config text = none ↔ ¬ Holds lower config text := by
  rw [← blocked_isSome, Option.not_isSome_iff_eq_none]

/-- The last message of the user. -/
def lastMessage (contents : List Content) : Option Content :=
  contents.reverse.find? fun content => content.role = "user"

/-- Where the last message of the user has a text, the first one is what is read. -/
theorem lastUserText_eq {contents : List Content} {content : Content}
    (h : lastMessage contents = some content) (hne : content.texts ≠ []) :
    lastUserText contents = content.texts.head? := by
  obtain ⟨first, more, htexts⟩ := List.exists_cons_of_ne_nil hne
  unfold lastMessage at h
  unfold lastUserText
  generalize contents.reverse = later at h ⊢
  induction later with
  | nil => cases h
  | cons c rest ih =>
    rw [List.find?_cons] at h
    rw [List.findSome?_cons]
    by_cases hrole : c.role = "user"
    · simp only [hrole, decide_true, Option.some.injEq] at h
      rw [if_pos hrole, h, htexts]
      rfl
    · simp only [hrole, decide_false] at h
      rw [if_neg hrole]
      exact ih h

/-- The guardrail answers where the text it reads holds a blocked term or is too long. -/
theorem beforeModelCallback_isSome {contents : List Content}
    (h : lastUserText contents = some text) :
    (beforeModelCallback lower config contents).isSome ↔
      Holds lower config text ∨ tooLong config.maxInputLength text = true := by
  rw [beforeModelCallback, h]
  dsimp only
  cases hblocked : blocked lower config text with
  | some term =>
    have hholds := blocked_isSome.mp (Option.isSome_of_eq_some hblocked)
    simp [hholds]
  | none =>
    have hholds := blocked_eq_none.mp hblocked
    by_cases hlong : tooLong config.maxInputLength text = true <;> simp [hholds, hlong]

end

/-! ## 4. What comes back -/

section

variable {lower : Lower} {config : Config} {term : List Char}

/-- The texts that what is released of a response is made of. -/
def pieces (lower : Lower) (config : Config) (response : Content) : List (List Char) :=
  let text := response.texts.flatten
  if text = [] then []
  else if (blocked lower config text).isSome then [filtered]
  else if tooLong config.maxOutputLength text then
    [sliceTo (config.maxOutputLength.getD 0) text, truncated]
  else [text]

theorem released_eq (response : Content) :
    released lower config response = (pieces lower config response).flatten := by
  unfold released afterModelCallback pieces
  dsimp only
  by_cases hnil : response.texts.flatten = []
  · rw [if_pos hnil, if_pos hnil, hnil]
    rfl
  · rw [if_neg hnil, if_neg hnil]
    cases hblocked : blocked lower config response.texts.flatten with
    | some term => simp
    | none =>
      by_cases hlong : tooLong config.maxOutputLength response.texts.flatten = true
      · simp [hlong]
      · simp [hlong]

theorem sliceTo_prefix (n : Int) (text : List Char) : sliceTo n text <+: text := by
  unfold sliceTo
  split
  · exact List.take_prefix ..
  · exact List.take_prefix ..

/-- **A piece that is not a notice holds no blocked term**: each response is looked at. -/
theorem not_holds_piece {response : Content} {piece : List Char}
    (hpiece : piece ∈ pieces lower config response) (hfiltered : piece ≠ filtered)
    (htruncated : piece ≠ truncated) : ¬ Holds lower config piece := by
  unfold pieces at hpiece
  dsimp only at hpiece
  split at hpiece
  · cases hpiece
  · split at hpiece
    · exact absurd (List.mem_singleton.mp hpiece) hfiltered
    · rename_i hblocked
      rw [blocked_isSome] at hblocked
      split at hpiece
      · rw [List.mem_cons, List.mem_singleton] at hpiece
        rcases hpiece with rfl | rfl
        · rintro ⟨term, hterm, hin⟩
          obtain ⟨rest, hrest⟩ := sliceTo_prefix (config.maxOutputLength.getD 0)
            response.texts.flatten
          refine hblocked ⟨term, hterm, ?_⟩
          rw [← hrest, Lower.text_append]
          exact List.infix_append_of_infix_left hin
        · exact absurd rfl htruncated
      · rw [List.mem_singleton.mp hpiece]
        exact hblocked

/-- All the pieces of an answer. -/
def allPieces (lower : Lower) (config : Config) (answer : List Content) : List (List Char) :=
  answer.flatMap (pieces lower config)

/-- The text that is released of an answer. -/
def releasedText (lower : Lower) (config : Config) (answer : List Content) : List Char :=
  (answer.map (released lower config)).flatten

theorem releasedText_eq (answer : List Content) :
    releasedText lower config answer = (allPieces lower config answer).flatten := by
  unfold releasedText allPieces
  induction answer with
  | nil => rfl
  | cons response answer ih =>
    rw [List.map_cons, List.flatten_cons, ih, List.flatMap_cons, List.flatten_append,
      released_eq]

/-- No blocked term stands across two pieces of an answer, and none in a notice among them. -/
def Seamless (lower : Lower) (config : Config) (answer : List Content) : Prop :=
  ∀ term ∈ config.terms lower,
    (∀ notice ∈ [filtered, truncated], notice ∈ allPieces lower config answer →
      ¬ term <:+: lower.text notice) ∧
    ¬ Joined.Straddles term ((allPieces lower config answer).map lower.text)

/-- **What is released holds no blocked term exactly when no notice does and none straddles.** -/
theorem not_holds_releasedText_iff (answer : List Content) :
    ¬ Holds lower config (releasedText lower config answer) ↔ Seamless lower config answer := by
  have hjoined : ∀ term ∈ config.terms lower,
      (term <:+: lower.text (releasedText lower config answer) ↔
        (∃ piece ∈ allPieces lower config answer, term <:+: lower.text piece) ∨
          Joined.Straddles term ((allPieces lower config answer).map lower.text)) := by
    intro term hterm
    rw [releasedText_eq, Lower.text_flatten, Joined.infix_flatten_iff (term_ne_nil hterm)]
    simp only [List.mem_map, exists_exists_and_eq_and]
  constructor
  · intro h term hterm
    have hnone : ¬ term <:+: lower.text (releasedText lower config answer) := fun hin =>
      h ⟨term, hterm, hin⟩
    rw [hjoined term hterm, not_or] at hnone
    exact ⟨fun notice _ hmem hin => hnone.1 ⟨notice, hmem, hin⟩, hnone.2⟩
  · rintro h ⟨term, hterm, hin⟩
    obtain ⟨hnotice, hacross⟩ := h term hterm
    rcases (hjoined term hterm).mp hin with ⟨piece, hpiece, hin⟩ | hstraddles
    · by_cases hother : piece ≠ filtered ∧ piece ≠ truncated
      · obtain ⟨response, -, hof⟩ := List.mem_flatMap.mp hpiece
        exact not_holds_piece hof hother.1 hother.2 ⟨term, hterm, hin⟩
      · refine hnotice piece ?_ hpiece hin
        rw [List.mem_cons, List.mem_singleton]
        by_contra hneither
        exact hother (not_or.mp hneither)
    · exact hacross hstraddles

end

/-! ## 5. What the guardrails promise -/

/-- A response and the others, then the one that has all their text. -/
def streamed (partials : List Content) : List Content :=
  partials ++ [⟨"model", [some (String.ofList (partials.flatMap Content.texts).flatten)]⟩]

section

variable {lower : Lower} {config : Config}

/-- A message of the user that holds a blocked term, in any of its parts, is not sent. -/
def Answered (lower : Lower) (config : Config) (contents : List Content) : Prop :=
  ∀ content, lastMessage contents = some content →
    (∃ text ∈ content.texts, Holds lower config text) →
      (beforeModelCallback lower config contents).isSome

theorem answered_iff {contents : List Content} : Answered lower config contents ↔
    ∀ content, lastMessage contents = some content →
      (∃ text ∈ content.texts, Holds lower config text) →
        ∃ first, content.texts.head? = some first ∧
          (Holds lower config first ∨ tooLong config.maxInputLength first = true) := by
  have hread : ∀ content, lastMessage contents = some content →
      (∃ text ∈ content.texts, Holds lower config text) → ∃ first,
        content.texts.head? = some first ∧ lastUserText contents = some first := by
    rintro content hlast ⟨text, htext, -⟩
    obtain ⟨first, more, htexts⟩ := List.exists_cons_of_ne_nil (List.ne_nil_of_mem htext)
    have hfirst : content.texts.head? = some first := by
      rw [htexts, List.head?_cons]
    exact ⟨first, hfirst, by rw [lastUserText_eq hlast (List.ne_nil_of_mem htext), hfirst]⟩
  constructor
  · intro h content hlast hholds
    obtain ⟨first, hfirst, hlastText⟩ := hread content hlast hholds
    exact ⟨first, hfirst, (beforeModelCallback_isSome hlastText).mp (h content hlast hholds)⟩
  · intro h content hlast hholds
    obtain ⟨first, hfirst, hlastText⟩ := hread content hlast hholds
    obtain ⟨other, hother, hverdict⟩ := h content hlast hholds
    rw [hfirst] at hother
    cases hother
    exact (beforeModelCallback_isSome hlastText).mpr hverdict

/-- **What the guardrails see**, of a request and of an answer in parts, without and with the
response that has all its text. -/
theorem screens_iff (lower : Lower) (config : Config) (contents partials : List Content) :
    (Answered lower config contents ↔
      ∀ content, lastMessage contents = some content →
        (∃ text ∈ content.texts, Holds lower config text) →
          ∃ first, content.texts.head? = some first ∧
            (Holds lower config first ∨ tooLong config.maxInputLength first = true)) ∧
    (¬ Holds lower config (releasedText lower config partials) ↔
      Seamless lower config partials) ∧
    (¬ Holds lower config (releasedText lower config (streamed partials)) ↔
      Seamless lower config (streamed partials)) :=
  ⟨answered_iff, not_holds_releasedText_iff _, not_holds_releasedText_iff _⟩

/-- The lower case of ASCII. -/
def asciiLower : Lower := ⟨fun c => [c.toLower], fun _ => List.cons_ne_nil _ _⟩

/-- A term in the second part of a message is sent, and one that two responses share is released. -/
theorem not_screens_parts :
    ¬ Answered asciiLower ⟨["password"], none, none⟩
      [⟨"user", [some "Here it is:", some "the password"]⟩] ∧
    Holds asciiLower ⟨["password"], none, none⟩
      (releasedText asciiLower ⟨["password"], none, none⟩
        (streamed [⟨"model", [some "pass"]⟩, ⟨"model", [some "word"]⟩])) := by
  have hterm : "password".toList ∈ Config.terms ⟨["password"], none, none⟩ asciiLower := by
    decide +kernel
  constructor
  · intro h
    have hanswer := h _ rfl ⟨"the password".toList, by decide +kernel, "password".toList, hterm,
      by decide +kernel⟩
    exact absurd hanswer (by decide +kernel)
  · exact ⟨"password".toList, hterm, by decide +kernel⟩

end

end Apowerb.Agent.Guardrails
