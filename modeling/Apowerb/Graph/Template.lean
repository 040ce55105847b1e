/-
# Templates

The scanner of `_TEMPLATE` (`core/workflow_graph.py`), the regular expression that finds the
references of a text, and what the validator extracts with it (`_refs`, `_ref_paths`).

`_TEMPLATE` reads two braces, white space, an id, segments that each follow a point, white space,
two braces.  No character may both extend a part and start the next one, so the greedy reading is
the only one, and `matchAt` is a function of the text.

The engine reads a text in two ways: whole, without the white space around it
(`_TEMPLATE.fullmatch(template.strip())`), or reference by reference (`finditer`); the validator
only the second.  `mem_textRefPaths_of_whole` is why nothing is missed: a text that is one reference
as a whole holds that reference.
-/
import Apowerb.Value

namespace Apowerb.Graph

open Text

/-! ## 1. One reference -/

/-- `[A-Za-z0-9_-]`. -/
def isIdChar (c : Char) : Bool := c.isAlphanum || c = '_' || c = '-'

/-- `[A-Za-z0-9_.-]`: the characters of the segments and the points before them. -/
def isPathChar (c : Char) : Bool := isIdChar c || c = '.'

/-- `[A-Za-z][A-Za-z0-9_-]*`. -/
def isId : List Char → Bool
  | c :: cs => c.isAlpha && cs.all isIdChar
  | [] => false

/-- `(?:\.[A-Za-z0-9_-]+)*`, on characters of a path. -/
def isPath (cs : List Char) : Bool :=
  match cs with
  | [] => true
  | '.' :: rest => (rest.splitOn '.').all (· ≠ [])
  | _ :: _ => false

/-- A match: the two groups, and the rest of the text. -/
structure Match where
  id : List Char
  path : List Char
  rest : List Char
deriving DecidableEq, Repr

/-- The end of a reference: white space and two braces. -/
def closing (cs : List Char) : Option (List Char) :=
  match cs.dropWhile isSpace with
  | '}' :: '}' :: rest => some rest
  | _ => none

/-- `_TEMPLATE.match` at the start of a text. -/
def matchAt (cs : List Char) : Option Match :=
  match cs with
  | '{' :: '{' :: body =>
    let start := body.dropWhile isSpace
    let id := start.takeWhile isIdChar
    let tail := start.dropWhile isIdChar
    let path := tail.takeWhile isPathChar
    if isId id && isPath path then
      (closing (tail.dropWhile isPathChar)).map fun rest => ⟨id, path, rest⟩
    else none
  | _ => none

/-! ## 2. The references of a text -/

/-- A piece of a text: what is between two references, or a reference and its path. -/
inductive Piece
  | literal (text : String)
  | ref (id path : String)
deriving DecidableEq, Repr

/-- `finditer`, with the text between the matches.  `before` is what was passed since the last
match, in reverse; every step passes at least one character. -/
def piecesFrom : Nat → List Char → List Char → List Piece
  | 0, before, cs => [.literal (String.ofList (before.reverse ++ cs))]
  | fuel + 1, before, cs =>
    match matchAt cs with
    | some m =>
      .literal (String.ofList before.reverse) ::
        .ref (String.ofList m.id) (String.ofList m.path) :: piecesFrom fuel [] m.rest
    | none =>
      match cs with
      | [] => [.literal (String.ofList before.reverse)]
      | c :: cs => piecesFrom fuel (c :: before) cs

/-- The pieces of a template. -/
def pieces (template : String) : List Piece :=
  piecesFrom (template.toList.length + 1) [] template.toList

/-- `_TEMPLATE.fullmatch(template.strip())`. -/
def whole (template : String) : Option (String × String) :=
  match matchAt (stripChars template.toList) with
  | some ⟨id, path, []⟩ => some (String.ofList id, String.ofList path)
  | _ => none

/-- A piece that is a reference. -/
def Piece.ref? : Piece → Option (String × String)
  | .literal _ => none
  | .ref id path => some (id, path)

/-- `_ref_paths` of a text. -/
def textRefPaths (template : String) : List (String × String) :=
  (pieces template).filterMap Piece.ref?

/-! ## 3. The references of a value -/

mutual

/-- `_ref_paths`. -/
def refPaths : Value → List (String × String)
  | .str s => textRefPaths s
  | .list items => refPathsItems items
  | .dict entries => refPathsEntries entries
  | _ => []

def refPathsItems : List Value → List (String × String)
  | [] => []
  | v :: rest => refPaths v ++ refPathsItems rest

def refPathsEntries : List (String × Value) → List (String × String)
  | [] => []
  | (_, v) :: rest => refPaths v ++ refPathsEntries rest

end

/-- `_refs`. -/
def refs (value : Value) : List String := (refPaths value).map Prod.fst

theorem mem_refPathsItems {r : String × String} {items : List Value} :
    r ∈ refPathsItems items ↔ ∃ v ∈ items, r ∈ refPaths v := by
  induction items with
  | nil => simp [refPathsItems]
  | cons v rest ih => simp [refPathsItems, ih]

theorem mem_refPathsEntries {r : String × String} {entries : List (String × Value)} :
    r ∈ refPathsEntries entries ↔ ∃ e ∈ entries, r ∈ refPaths e.2 := by
  induction entries with
  | nil => simp [refPathsEntries]
  | cons e rest ih => simp [refPathsEntries, ih]

/-- What the value of a key refers to, the dictionary refers to. -/
theorem refPaths_get_subset (d : Dict) (key : String) :
    refPaths (d.get key) ⊆ refPaths (.dict d) := by
  intro r hr
  unfold Dict.get at hr
  cases hfound : d.lookup key with
  | none =>
    rw [hfound] at hr
    simp [refPaths] at hr
  | some v =>
    rw [hfound] at hr
    simp only [refPaths, mem_refPathsEntries]
    obtain ⟨l₁, l₂, rfl, _⟩ := List.lookup_eq_some_iff.mp hfound
    exact ⟨(key, v), by simp, hr⟩

theorem refs_get_subset (d : Dict) (key : String) : refs (d.get key) ⊆ refs (.dict d) :=
  List.map_subset _ (refPaths_get_subset d key)

/-- What an entry refers to, the dictionary refers to. -/
theorem refs_entry_subset {d : Dict} {e : String × Value} (h : e ∈ d) :
    refs e.2 ⊆ refs (.dict d) := by
  refine List.map_subset _ fun r hr => ?_
  simp only [refPaths, mem_refPathsEntries]
  exact ⟨e, h, hr⟩

/-- What an item refers to, the list refers to. -/
theorem refs_mem_subset {items : List Value} {v : Value} (h : v ∈ items) :
    refs v ⊆ refs (.list items) := by
  refine List.map_subset _ fun r hr => ?_
  simp only [refPaths, mem_refPathsItems]
  exact ⟨v, h, hr⟩

theorem refs_orElse_subset {v default : Value} (h : refs default = []) :
    refs (v.orElse default) ⊆ refs v := by
  unfold Value.orElse
  split
  · exact List.Subset.refl _
  · rw [h]
    exact List.nil_subset _

theorem refs_getOr_subset {d : Dict} {key : String} {default : Value} (h : refs default = []) :
    refs (d.getOr key default) ⊆ refs (.dict d) := by
  intro r hr
  unfold Dict.getOr at hr
  cases hfound : d.lookup key with
  | none =>
    rw [hfound, Option.getD_none, h] at hr
    cases hr
  | some v =>
    refine refs_get_subset d key ?_
    rwa [Dict.get, hfound, Option.getD_some, ← Option.getD_some (a := v) (b := default), ← hfound]

theorem refs_item_subset {v w : Value} {key : String} (h : v.item key = .ok w) :
    refs w ⊆ refs v := by
  unfold Value.item at h
  split at h
  · rename_i d
    split at h
    · rename_i found hfound
      cases h
      have hget : Dict.get d key = w := by rw [Dict.get, hfound, Option.getD_some]
      rw [← hget]
      exact refs_get_subset d key
    · cases h
  · cases h

theorem refs_attrGet_subset {v w : Value} {key : String} (h : v.attrGet key = .ok w) :
    refs w ⊆ refs v := by
  unfold Value.attrGet at h
  split at h
  · cases h
    exact refs_get_subset _ key
  · cases h

theorem refs_attrGetOr_subset {v w default : Value} {key : String} (hdefault : refs default = [])
    (h : v.attrGetOr key default = .ok w) : refs w ⊆ refs v := by
  unfold Value.attrGetOr at h
  split at h
  · cases h
    exact refs_getOr_subset hdefault
  · cases h

/-- The dictionaries that an iteration yields are the items of a list. -/
theorem refs_iter_subset {v w : Value} {items : List Value} (h : v.iter = .ok items)
    (hw : w ∈ items) (hdict : w.isDict = true) : refs w ⊆ refs v := by
  unfold Value.iter at h
  split at h
  · cases h
    exact refs_mem_subset hw
  · cases h
    obtain ⟨_, _, rfl⟩ := List.mem_map.mp hw
    cases hdict
  · cases h
    obtain ⟨_, _, rfl⟩ := List.mem_map.mp hw
    cases hdict
  · cases h

/-! ## 4. A whole reference is a reference -/

theorem dropWhile_append_of_ne_nil {p : Char → Bool} {cs : List Char} (ds : List Char)
    (h : cs.dropWhile p ≠ []) : (cs ++ ds).dropWhile p = cs.dropWhile p ++ ds := by
  rw [List.dropWhile_append, if_neg (by simpa [List.isEmpty_iff] using h)]

theorem takeWhile_append_of_ne_nil {p : Char → Bool} {cs : List Char} (ds : List Char)
    (h : cs.dropWhile p ≠ []) : (cs ++ ds).takeWhile p = cs.takeWhile p := by
  rw [List.takeWhile_append, if_neg]
  intro hlen
  refine h ?_
  have := congrArg List.length (List.takeWhile_append_dropWhile (p := p) (l := cs))
  rw [List.length_append] at this
  exact List.eq_nil_of_length_eq_zero (by omega)

theorem closing_append {cs rest : List Char} (ds : List Char) (h : closing cs = some rest) :
    closing (cs ++ ds) = some (rest ++ ds) := by
  unfold closing at h ⊢
  split at h
  · rename_i rest' heq
    cases h
    rw [dropWhile_append_of_ne_nil ds (by rw [heq]; exact List.cons_ne_nil _ _), heq]
    rfl
  · cases h

/-- A reference is read the same, whatever follows it. -/
theorem matchAt_append {cs : List Char} {m : Match} (ds : List Char) (h : matchAt cs = some m) :
    matchAt (cs ++ ds) = some { m with rest := m.rest ++ ds } := by
  unfold matchAt at h
  split at h
  · rename_i body
    simp only at h
    split at h
    · rename_i hok
      obtain ⟨rest, hclosing, rfl⟩ := Option.map_eq_some_iff.mp h
      -- Each part ends before the closing braces, so inside `cs`.
      have hclosed : (body.dropWhile isSpace |>.dropWhile isIdChar |>.dropWhile isPathChar) ≠ [] := by
        intro hnil
        rw [hnil] at hclosing
        cases hclosing
      have htail : (body.dropWhile isSpace |>.dropWhile isIdChar) ≠ [] := by
        intro hnil
        rw [hnil] at hclosed
        exact hclosed rfl
      have hstart : body.dropWhile isSpace ≠ [] := by
        intro hnil
        rw [hnil] at htail
        exact htail rfl
      unfold matchAt
      simp only [List.cons_append, dropWhile_append_of_ne_nil ds hstart,
        dropWhile_append_of_ne_nil ds htail, dropWhile_append_of_ne_nil ds hclosed,
        takeWhile_append_of_ne_nil ds htail, takeWhile_append_of_ne_nil ds hclosed,
        closing_append ds hclosing, hok, if_true, Option.map_some]
    · cases h
  · cases h

theorem matchAt_of_isSpace {c : Char} (cs : List Char) (h : isSpace c = true) :
    matchAt (c :: cs) = none := by
  unfold matchAt
  split
  · rename_i heq
    cases heq
    cases h
  · rfl

/-- The scan passes over white space. -/
theorem piecesFrom_space (fuel : Nat) (spaces before cs : List Char)
    (h : ∀ c ∈ spaces, isSpace c = true) :
    piecesFrom (spaces.length + fuel) before (spaces ++ cs) =
      piecesFrom fuel (spaces.reverse ++ before) cs := by
  induction spaces generalizing before with
  | nil => simp
  | cons c spaces ih =>
    have hc : isSpace c = true := h c List.mem_cons_self
    have hrest : ∀ d ∈ spaces, isSpace d = true := fun d hd => h d (List.mem_cons_of_mem c hd)
    have hlen : (c :: spaces).length + fuel = (spaces.length + fuel) + 1 := by
      rw [List.length_cons]
      omega
    rw [hlen, List.cons_append, piecesFrom, matchAt_of_isSpace _ hc]
    simp only
    rw [ih (c :: before) hrest, List.reverse_cons, List.append_assoc]
    rfl

/-- A text is its stripped characters, between white space. -/
theorem stripChars_spec (cs : List Char) :
    ∃ before after, cs = before ++ stripChars cs ++ after ∧ ∀ c ∈ before, isSpace c = true := by
  refine ⟨cs.takeWhile isSpace, (cs.dropWhile isSpace).rtakeWhile isSpace, ?_, ?_⟩
  · unfold stripChars
    rw [List.append_assoc, List.rdropWhile_append_rtakeWhile, List.takeWhile_append_dropWhile]
  · intro c hc
    exact List.mem_takeWhile_imp hc

/-- **What a text refers to as a whole is among the references found in it.** -/
theorem mem_textRefPaths_of_whole {template : String} {r : String × String}
    (h : whole template = some r) : r ∈ textRefPaths template := by
  unfold whole at h
  split at h
  · rename_i id path hmatch
    cases h
    obtain ⟨before, after, hsplit, hspace⟩ := stripChars_spec template.toList
    have hfound := matchAt_append after hmatch
    unfold textRefPaths pieces
    have hfuel : template.toList.length + 1 =
        before.length + ((stripChars template.toList ++ after).length + 1) := by
      conv_lhs => rw [hsplit]
      simp only [List.length_append]
      omega
    have hpassed := piecesFrom_space ((stripChars template.toList ++ after).length + 1) before []
      (stripChars template.toList ++ after) hspace
    have hread (passed : List Char) :
        (String.ofList id, String.ofList path) ∈
          (piecesFrom ((stripChars template.toList ++ after).length + 1) passed
            (stripChars template.toList ++ after)).filterMap Piece.ref? := by
      simp [piecesFrom, hfound, Piece.ref?]
    rw [← hfuel, ← List.append_assoc, ← hsplit] at hpassed
    rw [hpassed]
    exact hread _
  · cases h

end Apowerb.Graph
