/-
# Regular expressions with word edges

A regular expression looks at a text from a place in it: what follows the place, and whether a
character of a word comes before it, which is all that a word edge has to know.  `ends` lists where
a match can end, in the order in which a backtracking matcher tries; only classes of characters are
repeated, so that a match needs no fuel.

* `search_append`: what no match can pass cuts a search in two.
* `search_mono`: what does not begin with a character of a word can be put after a text, and
  anything before it, without losing a match.
* `search_eq_false`: a search for what begins at an edge finds nothing where there are no words.
-/
import Mathlib.Data.List.Basic

namespace Regex

variable {α : Type}

inductive Re (α : Type)
  | empty
  | one (p : α → Bool)
  | many (p : α → Bool)
  | edge
  | seq (r s : Re α)
  | alt (r s : Re α)

/-! ## 1. Matches -/

/-- A place in a text: whether a character of a word comes before it, and what follows it. -/
abbrev Place (α : Type) := Bool × List α

section Matches

variable (word : α → Bool)

/-- `\b` -/
def atEdge (p : Place α) : Bool := p.1 != p.2.head?.any word

/-- Where the greedy repetition of a class can end, the longest first. -/
def manyEnds (p : α → Bool) : Bool → List α → List (Place α)
  | b, [] => [(b, [])]
  | b, c :: cs => if p c then manyEnds p (word c) cs ++ [(b, c :: cs)] else [(b, c :: cs)]

def ends : Re α → Place α → List (Place α)
  | .empty, p => [p]
  | .one f, p =>
    match p.2 with
    | [] => []
    | c :: cs => if f c then [(word c, cs)] else []
  | .many f, p => manyEnds word f p.1 p.2
  | .edge, p => if atEdge word p then [p] else []
  | .seq r s, p => (ends r p).flatMap (ends s)
  | .alt r s, p => ends r p ++ ends s p

/-- `re.match` at a place. -/
def matchesAt (r : Re α) (p : Place α) : Bool := !(ends word r p).isEmpty

/-- `re.search` from a place on. -/
def search (r : Re α) : Bool → List α → Bool
  | b, [] => matchesAt word r (b, [])
  | b, c :: cs => matchesAt word r (b, c :: cs) || search r (word c) cs

/-- Where the first match begins. -/
def firstStart (r : Re α) : Bool → List α → Option Nat
  | b, [] => if matchesAt word r (b, []) then some 0 else none
  | b, c :: cs =>
    if matchesAt word r (b, c :: cs) then some 0 else (firstStart r (word c) cs).map (· + 1)

/-- The text of the first match of `group` that `tail` can follow. -/
def firstGroup (group tail : Re α) : Bool → List α → Option (List α)
  | b, [] => if matchesAt word (.seq group tail) (b, []) then some [] else none
  | b, c :: cs =>
    match (ends word group (b, c :: cs)).find? (matchesAt word tail) with
    | some e => some ((c :: cs).take ((c :: cs).length - e.2.length))
    | none => firstGroup group tail (word c) cs

end Matches

/-! ## 2. What is put around a text -/

/-- No class of the expression has the character. -/
def Re.Avoids (x : α) : Re α → Prop
  | .empty | .edge => True
  | .one p | .many p => p x = false
  | .seq r s | .alt r s => r.Avoids x ∧ s.Avoids x

variable {word : α → Bool}

/-- A place with more text after it. -/
def more (t : List α) (p : Place α) : Place α := (p.1, p.2 ++ t)

theorem atEdge_more {t : List α} (ht : t.head?.any word = false) (p : Place α) :
    atEdge word (more t p) = atEdge word p := by
  obtain ⟨b, a⟩ := p
  cases a with
  | nil => simp [atEdge, more, ht]
  | cons c cs => rfl

/-- The ends of a match, where it cannot pass what follows. -/
theorem manyEnds_more {p : α → Bool} {x : α} {t : List α} (hx : p x = false) (b : Bool)
    (a : List α) :
    manyEnds word p b (a ++ x :: t) = (manyEnds word p b a).map (more (x :: t)) := by
  induction a generalizing b with
  | nil => simp [manyEnds, hx, more]
  | cons c cs ih =>
    simp only [List.cons_append, manyEnds]
    split
    · rw [ih, List.map_append]
      rfl
    · rfl

theorem ends_more {r : Re α} {x : α} {t : List α} (hr : r.Avoids x) (hx : word x = false)
    (p : Place α) : ends word r (more (x :: t) p) = (ends word r p).map (more (x :: t)) := by
  induction r generalizing p with
  | empty => rfl
  | one f =>
    obtain ⟨b, a⟩ := p
    cases a with
    | nil =>
      have hf : f x = false := hr
      simp [ends, more, hf]
    | cons c cs =>
      simp only [ends, more, List.cons_append]
      split <;> rfl
  | many f => exact manyEnds_more hr p.1 p.2
  | edge =>
    have hedge : atEdge word (more (x :: t) p) = atEdge word p := atEdge_more (by simpa using hx) p
    simp only [ends, hedge]
    split <;> rfl
  | seq r s ihr ihs =>
    simp only [ends, ihr hr.1, List.flatMap_map, List.map_flatMap]
    exact List.flatMap_congr fun e _ => ihs hr.2 e
  | alt r s ihr ihs => simp only [ends, ihr hr.1, ihs hr.2, List.map_append]

/-- A match stays one where more text follows that does not go on with a word. -/
theorem mem_manyEnds_more {p : α → Bool} {t : List α} {b : Bool} {a : List α} {e : Place α}
    (h : e ∈ manyEnds word p b a) : more t e ∈ manyEnds word p b (a ++ t) := by
  induction a generalizing b with
  | nil =>
    cases List.mem_singleton.mp h
    cases t with
    | nil => exact List.mem_singleton_self _
    | cons c cs =>
      simp only [List.nil_append, manyEnds, more]
      split
      · exact List.mem_append_right _ (List.mem_singleton_self _)
      · exact List.mem_singleton_self _
  | cons c cs ih =>
    simp only [List.cons_append, manyEnds] at h ⊢
    split at h
    · rename_i hc
      rw [if_pos hc]
      rcases List.mem_append.mp h with hrest | hlast
      · exact List.mem_append_left _ (ih hrest)
      · cases List.mem_singleton.mp hlast
        exact List.mem_append_right _ (List.mem_singleton_self _)
    · rename_i hc
      rw [if_neg hc]
      cases List.mem_singleton.mp h
      exact List.mem_singleton_self _

theorem mem_ends_more {r : Re α} {t : List α} (ht : t.head?.any word = false) {p e : Place α}
    (h : e ∈ ends word r p) : more t e ∈ ends word r (more t p) := by
  induction r generalizing p e with
  | empty =>
    cases List.mem_singleton.mp h
    exact List.mem_singleton_self _
  | one f =>
    obtain ⟨b, a⟩ := p
    cases a with
    | nil => cases h
    | cons c cs =>
      simp only [ends, more, List.cons_append] at h ⊢
      split at h
      · rename_i hc
        rw [if_pos hc]
        cases List.mem_singleton.mp h
        exact List.mem_singleton_self _
      · cases h
  | many f => exact mem_manyEnds_more h
  | edge =>
    simp only [ends, atEdge_more ht] at h ⊢
    split at h
    · rename_i hedge
      rw [if_pos hedge]
      cases List.mem_singleton.mp h
      exact List.mem_singleton_self _
    · cases h
  | seq r s ihr ihs =>
    obtain ⟨mid, hmid, he⟩ := List.mem_flatMap.mp h
    exact List.mem_flatMap.mpr ⟨more t mid, ihr hmid, ihs he⟩
  | alt r s ihr ihs =>
    rcases List.mem_append.mp h with h | h
    · exact List.mem_append_left _ (ihr h)
    · exact List.mem_append_right _ (ihs h)

theorem matchesAt_iff {r : Re α} {p : Place α} :
    matchesAt word r p = true ↔ ∃ e, e ∈ ends word r p := by
  rw [matchesAt, Bool.not_eq_true', List.isEmpty_eq_false_iff_exists_mem]

/-- Whether there is a match at a place, where it cannot pass what follows. -/
theorem matchesAt_append {r : Re α} {x : α} {t : List α} (hr : r.Avoids x) (hx : word x = false)
    (b : Bool) (a : List α) :
    matchesAt word r (b, a ++ x :: t) = matchesAt word r (b, a) := by
  have h := ends_more (t := t) hr hx (b, a)
  rw [matchesAt, matchesAt, show (b, a ++ x :: t) = more (x :: t) (b, a) from rfl, h,
    List.isEmpty_map]

theorem matchesAt_mono {r : Re α} {t : List α} (ht : t.head?.any word = false) {b : Bool}
    {a : List α} (h : matchesAt word r (b, a) = true) :
    matchesAt word r (b, a ++ t) = true := by
  obtain ⟨e, he⟩ := matchesAt_iff.mp h
  exact matchesAt_iff.mpr ⟨more t e, mem_ends_more ht he⟩

/-! ## 3. Searches -/

/-- **A character that no match can pass** cuts a search in two. -/
theorem search_append {r : Re α} {x : α} {t : List α} (hr : r.Avoids x) (hx : word x = false)
    (b : Bool) (a : List α) :
    search word r b (a ++ x :: t) = (search word r b a || search word r false t) := by
  induction a generalizing b with
  | nil =>
    rw [List.nil_append, search, search, hx]
    exact congrArg (· || _) (matchesAt_append hr hx b [])
  | cons c cs ih =>
    rw [List.cons_append, search, search, ih, Bool.or_assoc, ← List.cons_append,
      matchesAt_append hr hx]

theorem firstGroup_eq_none_iff {group tail : Re α} {b : Bool} {a : List α} :
    firstGroup word group tail b a = none ↔ search word (.seq group tail) b a = false := by
  induction a generalizing b with
  | nil => simp [firstGroup, search]
  | cons c cs ih =>
    rw [firstGroup, search, Bool.or_eq_false_iff, ← ih]
    have hat : (ends word group (b, c :: cs)).find? (matchesAt word tail) = none ↔
        matchesAt word (.seq group tail) (b, c :: cs) = false := by
      rw [List.find?_eq_none, ← Bool.not_eq_true, matchesAt_iff]
      simp only [matchesAt_iff, ends, List.mem_flatMap]
      grind
    cases h : (ends word group (b, c :: cs)).find? (matchesAt word tail) with
    | some e =>
      rw [h] at hat
      simp only [reduceCtorEq, false_iff, not_and]
      exact fun hno => absurd (hat.mpr hno) (by simp)
    | none => simp [hat.mp h]

theorem firstStart_eq_none {r : Re α} {b : Bool} {a : List α} (h : search word r b a = false) :
    firstStart word r b a = none := by
  induction a generalizing b with
  | nil =>
    have hat : matchesAt word r (b, []) = false := h
    simp [firstStart, hat]
  | cons c cs ih =>
    obtain ⟨hat, hrest⟩ := Bool.or_eq_false_iff.mp h
    rw [firstStart, if_neg (by simp [hat]), ih hrest]
    rfl

theorem firstStart_append {r : Re α} {x : α} {t : List α} (hr : r.Avoids x) (hx : word x = false)
    (b : Bool) (a : List α) (ht : search word r false t = false) :
    firstStart word r b (a ++ x :: t) = firstStart word r b a := by
  induction a generalizing b with
  | nil =>
    have hat := matchesAt_append (t := t) hr hx b []
    rw [List.nil_append] at hat ⊢
    rw [firstStart, firstStart, hat, hx, firstStart_eq_none ht]
    rfl
  | cons c cs ih =>
    rw [List.cons_append, firstStart, firstStart, ih, ← List.cons_append, matchesAt_append hr hx]

/-- The first match begins in the text. -/
theorem firstStart_le {r : Re α} {b : Bool} {a : List α} {n : Nat}
    (h : firstStart word r b a = some n) : n ≤ a.length := by
  induction a generalizing b n with
  | nil =>
    rw [firstStart] at h
    split at h
    · cases h
      exact Nat.le_refl _
    · cases h
  | cons c cs ih =>
    rw [firstStart] at h
    split at h
    · cases h
      exact Nat.zero_le _
    · obtain ⟨m, hm, rfl⟩ := Option.map_eq_some_iff.mp h
      exact Nat.succ_le_succ (ih hm)

theorem search_after {r : Re α} {b : Bool} {a : List α}
    (h : search word r b a = true) (before : List α) {b' : Bool}
    (hb : (before.foldl (fun _ c => word c) b') = b) :
    search word r b' (before ++ a) = true := by
  induction before generalizing b' with
  | nil =>
    subst hb
    exact h
  | cons c cs ih =>
    rw [List.cons_append, search, ih hb, Bool.or_true]

theorem search_mono {r : Re α} {t : List α} (ht : t.head?.any word = false) {b : Bool}
    {a : List α} (h : search word r b a = true) : search word r b (a ++ t) = true := by
  induction a generalizing b with
  | nil =>
    have hat := matchesAt_mono ht (t := t) h
    rw [List.nil_append] at hat ⊢
    cases t with
    | nil => exact h
    | cons c cs => rw [search, hat, Bool.true_or]
  | cons c cs ih =>
    rw [search, Bool.or_eq_true] at h
    rw [List.cons_append, search, Bool.or_eq_true]
    rcases h with hat | hrest
    · exact .inl (matchesAt_mono ht hat)
    · exact .inr (ih hrest)

/-- A match begins at an edge. -/
def Re.StartsAtEdge : Re α → Prop
  | .edge => True
  | .seq r _ => r.StartsAtEdge
  | _ => False

theorem ends_eq_nil {r : Re α} (hr : r.StartsAtEdge) {p : Place α} (hp : atEdge word p = false) :
    ends word r p = [] := by
  induction r with
  | edge => simp [ends, hp]
  | seq r s ihr _ => rw [ends, ihr hr, List.flatMap_nil]
  | _ => cases hr

/-- There is no edge where there are no words. -/
theorem search_eq_false {r : Re α} (hr : r.StartsAtEdge) {a : List α}
    (h : ∀ c ∈ a, word c = false) : search word r false a = false := by
  induction a with
  | nil => rw [search, matchesAt, ends_eq_nil hr rfl]; rfl
  | cons c cs ih =>
    have hc := h c List.mem_cons_self
    have hedge : atEdge word (false, c :: cs) = false := by simp [atEdge, hc]
    rw [search, matchesAt, ends_eq_nil hr hedge, hc, ih fun x hx => h x (List.mem_cons_of_mem c hx)]
    rfl

end Regex
