/-
# The route that an answer names

`core/workflow_graph.py`, `_pick_route`: the answer of a classifier, reduced to its words in lower
case, is compared with the routes in lower case, and then searched for them.  The routes are not
reduced: one that holds anything but words, hyphens and single spaces is never found, not even by
an answer that is that route, as the prompt asks for.  Nor is a route that comes after another one
of the same letters in another case.

`pickRoute_iff` is exactly when the answer `r` picks the route `r`.  The direction that is not plain
is that a route which the reduction changes cannot be picked by the search either: it would be a part
of a text that weighs less (`clean_of_infix`), lengths in lower case being the weights of
`Lib/Squeeze`.
-/
import Apowerb.Graph.Validate
import Apowerb.Lib.Regex
import Apowerb.Lib.Squeeze

namespace Apowerb.Engine.PickRoute

open Graph Regex Squeeze

/-! ## 1. The code -/

/-- What Unicode says of characters: those of words, and lower case.  Lower case is written
character by character, one or more for each; only a space has a space in it. -/
structure Letters where
  /-- `\w` -/
  word : Char → Bool
  /-- `str.lower` -/
  lower : List Char → List Char
  /-- The number of characters of the lower case of a character. -/
  width : Char → Nat
  width_pos : ∀ c, 0 < width c
  width_blank : width ' ' = 1
  length_lower : ∀ cs, (lower cs).length = total width cs
  count_lower : ∀ cs, (lower cs).count ' ' = cs.count ' '
  blank_not_word : word ' ' = false

section Code

variable (L : Letters)

/-- `[\w-]` -/
def inRoute (c : Char) : Bool := L.word c || c == '-'

/-- `re.sub(r"[^\w-]+", " ", text).strip()`. -/
def clean (text : List Char) : List Char := Text.stripChars (squeeze (inRoute L) ' ' text)

/-- `re.escape(text)`, as a pattern. -/
def literal (text : List Char) : Re Char :=
  text.foldr (fun c r => .seq (.one (· == c)) r) .empty

/-- `re.search(rf"\b{re.escape(r.lower())}\b", text)`. -/
def isHit (text : List Char) : Value → Bool
  | .str r => search L.word (.seq .edge (.seq (literal (L.lower r.toList)) .edge)) false text
  | _ => false

/-- The first route that is the text, up to case. -/
def sameRoute (text : List Char) : List Value → Except Raised (Option Value)
  | [] => .ok none
  | .str r :: rest => if text = L.lower r.toList then .ok (some (.str r)) else sameRoute text rest
  | _ :: _ => .error (.other "AttributeError")

/-- `_pick_route`. -/
def pickRoute (answer : Value) (routes : List Value) : Except Raised (Option Value) := do
  let text := L.lower (clean L answer.text.toList)
  match ← sameRoute L text routes with
  | some r => return some r
  | none =>
    match routes.filter (isHit L text) with
    | [r] => return some r
    | _ => return none

end Code

/-! ## 2. A route that is found is a part of the text -/

theorem infix_of_ends_literal {word : Char → Bool} {text : List Char} {p e : Place Char}
    (h : e ∈ ends word (literal text) p) : text <+: p.2 := by
  induction text generalizing p with
  | nil => exact List.nil_prefix
  | cons c cs ih =>
    obtain ⟨mid, hmid, hrest⟩ := List.mem_flatMap.mp h
    obtain ⟨b, a⟩ := p
    cases a with
    | nil => cases hmid
    | cons d ds =>
      simp only [ends] at hmid
      split at hmid
      · rename_i hd
        obtain rfl := List.mem_singleton.mp hmid
        have hcd : d = c := by simpa using hd
        rw [hcd]
        exact List.cons_prefix_cons.mpr ⟨rfl, ih hrest⟩
      · cases hmid

theorem infix_of_search {word : Char → Bool} {text : List Char} (b : Bool) (cs : List Char)
    (h : search word (.seq .edge (.seq (literal text) .edge)) b cs = true) : text <:+: cs := by
  have hat : ∀ p : Place Char,
      matchesAt word (.seq .edge (.seq (literal text) .edge)) p = true → text <+: p.2 := by
    intro p hp
    obtain ⟨e, he⟩ := matchesAt_iff.mp hp
    obtain ⟨mid, hmid, he⟩ := List.mem_flatMap.mp he
    obtain ⟨mid', hmid', -⟩ := List.mem_flatMap.mp he
    simp only [ends] at hmid
    split at hmid
    · obtain rfl := List.mem_singleton.mp hmid
      exact infix_of_ends_literal hmid'
    · cases hmid
  induction cs generalizing b with
  | nil =>
    have hprefix := hat (b, []) h
    exact hprefix.isInfix
  | cons c cs ih =>
    rw [search, Bool.or_eq_true] at h
    rcases h with h | h
    · exact (hat (b, c :: cs) h).isInfix
    · exact List.infix_cons (ih _ h)

section Found

variable {L : Letters}

/-- **A text in lower case is no part of its reduction**, unless the reduction leaves it alone. -/
theorem clean_of_infix {text : List Char} (h : L.lower text <:+: L.lower (clean L text)) :
    clean L text = text := by
  have hwidth := L.width_pos
  have hblank : inRoute L ' ' = false := by simp [inRoute, L.blank_not_word]
  have hstrip : (clean L text).Sublist (squeeze (inRoute L) ' ' text) :=
    (List.rdropWhile_prefix _ _).sublist.trans (List.dropWhile_suffix _).sublist
  have hsqueeze : total L.width (squeeze (inRoute L) ' ' text) ≤ total L.width text :=
    total_squeezeFrom_le hwidth L.width_blank false text
  have hstripped : total L.width (clean L text) ≤ _ := total_le_of_sublist hstrip
  have hlength := h.length_le
  rw [L.length_lower, L.length_lower] at hlength
  -- Nothing is lost: not by the strip, and not by a run.
  have hclean : clean L text = squeeze (inRoute L) ' ' text :=
    eq_of_sublist_of_total hwidth hstrip (by omega)
  have hlower : L.lower text = L.lower (clean L text) :=
    h.eq_of_length (by rw [L.length_lower, L.length_lower]; omega)
  have hcount : (squeeze (inRoute L) ' ' text).count ' ' = text.count ' ' := by
    rw [← hclean, ← L.count_lower, ← hlower, L.count_lower]
  rw [hclean]
  exact squeeze_eq_of_weight hwidth L.width_blank hblank (by omega) hcount

/-- What the first loop finds, and that it has passed the routes before. -/
theorem sameRoute_eq_some_iff {text : List Char} {routes : List Value} {r : String} :
    sameRoute L text routes = .ok (some (.str r)) ↔
      text = L.lower r.toList ∧ ∃ before after, routes = before ++ .str r :: after ∧
        ∀ v ∈ before, ∃ s, v = .str s ∧ text ≠ L.lower s.toList := by
  induction routes with
  | nil => simp [sameRoute]
  | cons v rest ih =>
    cases v with
    | str s =>
      rw [sameRoute]
      split
      · rename_i hsame
        constructor
        · intro h
          obtain rfl : s = r := by simpa using h
          exact ⟨hsame, [], rest, rfl, by simp⟩
        · rintro ⟨-, before, after, hsplit, hbefore⟩
          cases before with
          | nil =>
            obtain ⟨rfl, -⟩ : s = r ∧ rest = after := by simpa using hsplit
            rfl
          | cons w before =>
            obtain ⟨t, rfl, hne⟩ := hbefore w List.mem_cons_self
            obtain ⟨rfl, -⟩ : s = t ∧ rest = before ++ .str r :: after := by simpa using hsplit
            exact absurd hsame hne
      · rename_i hother
        rw [ih]
        constructor
        · rintro ⟨htext, before, after, rfl, hbefore⟩
          refine ⟨htext, .str s :: before, after, rfl, ?_⟩
          intro v hv
          rcases List.mem_cons.mp hv with rfl | hv
          · exact ⟨s, rfl, hother⟩
          · exact hbefore v hv
        · rintro ⟨htext, before, after, hsplit, hbefore⟩
          cases before with
          | nil =>
            obtain ⟨rfl, -⟩ : s = r ∧ rest = after := by simpa using hsplit
            exact absurd htext hother
          | cons w before =>
            obtain ⟨-, hrest⟩ : .str s = w ∧ rest = before ++ .str r :: after := by
              simpa using hsplit
            exact ⟨htext, before, after, hrest,
              fun v hv => hbefore v (List.mem_cons_of_mem _ hv)⟩
    | _ =>
      constructor
      · intro h
        cases h
      · rintro ⟨-, before, after, hsplit, hbefore⟩
        cases before with
        | nil => simp at hsplit
        | cons w before =>
          obtain ⟨t, rfl, -⟩ := hbefore w List.mem_cons_self
          simp at hsplit

/-- What it passes. -/
theorem of_sameRoute_eq_none {text : List Char} {routes : List Value}
    (h : sameRoute L text routes = .ok none) {r : String} (hr : .str r ∈ routes) :
    text ≠ L.lower r.toList := by
  induction routes with
  | nil => cases hr
  | cons v rest ih =>
    cases v with
    | str s =>
      rw [sameRoute] at h
      split at h
      · cases h
      · rename_i hother
        rcases List.mem_cons.mp hr with heq | hr
        · obtain rfl : r = s := by simpa using heq
          exact hother
        · exact ih h hr
    | _ => cases h

/-- No route before it is the same up to case, and all of them are texts. -/
def FirstOfCase (L : Letters) (r : String) (routes : List Value) : Prop :=
  ∃ before after, routes = before ++ .str r :: after ∧
    ∀ v ∈ before, ∃ s, v = .str s ∧ L.lower s.toList ≠ L.lower r.toList

end Found

/-! ## 3. When an answer that is a route picks it -/

/-- **An answer that is exactly a route picks that route** if and only if the reduction leaves the
route as it is, and it is the first of the list with its letters. -/
theorem pickRoute_iff (L : Letters) (r : String) (routes : List Value) :
    pickRoute L (.str r) routes = .ok (some (.str r)) ↔
      clean L r.toList = r.toList ∧ FirstOfCase L r routes := by
  have htext : (Value.str r).text = r := rfl
  unfold pickRoute
  rw [htext]
  dsimp only
  constructor
  · intro h
    obtain ⟨found, hfound, h⟩ := Except.bind_eq_ok_iff.mp h
    cases found with
    | some v =>
      obtain rfl : v = .str r := Option.some.inj (Except.ok.inj h)
      obtain ⟨hlower, before, after, hsplit, hbefore⟩ := sameRoute_eq_some_iff.mp hfound
      have hclean : clean L r.toList = r.toList := clean_of_infix (by rw [hlower])
      refine ⟨hclean, before, after, hsplit, fun v hv => ?_⟩
      obtain ⟨s, rfl, hne⟩ := hbefore v hv
      rw [hlower] at hne
      exact ⟨s, rfl, hne.symm⟩
    | none =>
      dsimp only at h
      split at h
      · rename_i v hhits
        obtain rfl : v = .str r := Option.some.inj (Except.ok.inj h)
        have hmem : Value.str r ∈ routes.filter (isHit L (L.lower (clean L r.toList))) := by
          rw [hhits]
          exact List.mem_singleton_self _
        obtain ⟨hroute, hhit⟩ := List.mem_filter.mp hmem
        -- A hit would be a part of the text, which is the route itself then.
        have hclean := clean_of_infix (infix_of_search false _ hhit)
        exact absurd (by rw [hclean]) (of_sameRoute_eq_none hfound hroute)
      · cases h
  · rintro ⟨hclean, before, after, hsplit, hbefore⟩
    have hfound : sameRoute L (L.lower (clean L r.toList)) routes = .ok (some (.str r)) := by
      rw [hclean]
      refine sameRoute_eq_some_iff.mpr ⟨rfl, before, after, hsplit, fun v hv => ?_⟩
      obtain ⟨s, rfl, hne⟩ := hbefore v hv
      exact ⟨s, rfl, hne.symm⟩
    rw [hfound]
    rfl

/-! ## 4. Routes that are not found -/

theorem toLower_ne_blank {c : Char} (hc : c ≠ ' ') : c.toLower ≠ ' ' := by
  unfold Char.toLower
  split
  · rename_i hupper
    intro h
    have hval := congrArg (fun d : Char => d.val.toNat) h
    have hlow := UInt32.le_iff_toNat_le.mp hupper.1
    have hhigh := UInt32.le_iff_toNat_le.mp hupper.2
    simp at hval hlow hhigh
    omega
  · exact hc

/-- The letters of ASCII. -/
def asciiLetters : Letters where
  word c := c.isAlphanum || c == '_'
  lower cs := cs.map Char.toLower
  width _ := 1
  width_pos _ := Nat.one_pos
  width_blank := rfl
  length_lower cs := by simp [total]
  count_lower cs := by
    induction cs with
    | nil => rfl
    | cons c cs ih =>
      rw [List.map_cons, List.count_cons, List.count_cons, ih]
      by_cases hc : c = ' '
      · subst hc
        rfl
      · simp [hc, toLower_ne_blank hc]
  blank_not_word := by decide

/-- A classifier of two departments. -/
def departments : Node where
  id := "classifier1"
  type := .classifier
  config := [("agent_id", .str "a1"),
    ("routes", .list [.dict [("route", .str "Q&A")], .dict [("route", .str "Sales")]])]

/-- The validator accepts it, and the answer "Q&A" is no route of it. -/
theorem not_pickRoute_punctuation :
    (∀ readBody ctx, validateNode readBody ctx departments = .ok ()) ∧
      pickRoute asciiLetters (.str "Q&A") [.str "Q&A", .str "Sales"] = .ok none := by
  refine ⟨fun readBody ctx => rfl, by decide +kernel⟩

end Apowerb.Engine.PickRoute
