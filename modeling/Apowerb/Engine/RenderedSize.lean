/-
# The size of what is rendered

`render` (`core/workflow_graph.py`) counts the characters that it produces against a budget, and
`_rendered_size_bound` (`routers/workflows.py`) bounds the bytes that it would produce without
rendering anything.  Both leave out the keys of the objects of a template, which rendering copies;
apart from them the texts of a result stay within the budget and below the bound.

A text is measured by a weight for each character (`size`), one for the budget and the bytes of
UTF-8 for the bound.  JSON never writes a text lighter (`texts_le_written`), nor a part of a value
heavier than the value (`writtenSize_of_walk`), which is why the JSON of an output bounds whatever a
reference takes from it.
-/
import Apowerb.Agent.Stream
import Apowerb.Engine.Render
import Apowerb.Json.Written
import Apowerb.Lib.Squeeze
import Apowerb.Lib.Yields

namespace Apowerb.Engine

open Graph Agent Squeeze

/-! ## 1. The estimate -/

section Estimate

variable (text : String → Nat) (other : Value → Nat)

mutual

/-- The sum over the texts and the other leaves of a template: its lists and the values of its
objects are walked through. -/
def templateSum : Value → Nat
  | .str s => text s
  | .list items => templateSumItems items
  | .dict entries => templateSumEntries entries
  | v => other v

def templateSumItems : List Value → Nat
  | [] => 0
  | v :: rest => templateSum v + templateSumItems rest

def templateSumEntries : List (String × Value) → Nat
  | [] => 0
  | (_, v) :: rest => templateSum v + templateSumEntries rest

end

end Estimate

/-- `_size`: the bytes of an output in JSON. -/
def outputSize (outputs : Dict) (ref : String) : Nat :=
  match outputs.lookup ref with
  | some v => v.json.utf8ByteSize
  | none => 0

/-- `_rendered_size_bound`. -/
def renderedSizeBound (template : Value) (outputs : Dict) : Nat :=
  templateSum
    (fun s => s.utf8ByteSize + ((textRefPaths s).map fun r => outputSize outputs r.1).sum)
    (fun v => (Stream.dumps v).utf8ByteSize) template

/-! ## 2. Rendering with given outputs -/

/-- What answers while a template is rendered: `outputs.get(ref)`. -/
def lookups (outputs : Dict) : Prog.Handler Reply := fun _ e =>
  match e with
  | .look id => outputs.lookup id
  | .ask _ => .error (.of (.internal "RuntimeError"))
  | .resolve _ => .ok none
  | .expires _ => false

/-- `render(template, outputs, node_id)`. -/
def renderWith (outputs : Dict) (nodeId : String) (template : Value) : Except Stop Value :=
  (render [] nodeId template).run (lookups outputs) []

/-- The replies are the outputs. -/
def FromOutputs (outputs : Dict) (e : Event) (r : Reply e) : Prop :=
  match e, r with
  | .look id, r => r = outputs.lookup id
  | _, _ => True

theorem fromOutputs_lookups (outputs : Dict) (past : List (Sigma Reply)) (e : Event) :
    FromOutputs outputs e (lookups outputs past e) := by
  cases e <;> trivial

/-! ## 3. Weights of texts -/

section Weights

variable (weight : Char → Nat)

/-- The weight of a text. -/
def size (s : String) : Nat := total weight s.toList

mutual

/-- The weight of the texts of a value, the keys of its objects among them. -/
def texts : Value → Nat
  | .str s => size weight s
  | .list items => textsItems items
  | .dict entries => textsEntries entries
  | _ => 0

def textsItems : List Value → Nat
  | [] => 0
  | v :: rest => texts v + textsItems rest

def textsEntries : List (String × Value) → Nat
  | [] => 0
  | (k, v) :: rest => size weight k + texts v + textsEntries rest

end

mutual

/-- The weight of the keys of the objects of a template. -/
def keys : Value → Nat
  | .list items => keysItems items
  | .dict entries => keysEntries entries
  | _ => 0

def keysItems : List Value → Nat
  | [] => 0
  | v :: rest => keys v + keysItems rest

def keysEntries : List (String × Value) → Nat
  | [] => 0
  | (k, v) :: rest => size weight k + keys v + keysEntries rest

end

/-- The weight of a value in JSON. -/
def writtenSize (v : Value) : Nat := total weight (Json.written Json.jsonShown v)

end Weights

/-! ## 4. JSON is no lighter -/

section Written

variable {weight : Char → Nat}

/-- Every part of a list of texts is in it, whatever separates them. -/
theorem sum_le_intercalate (weight : Char → Nat) (sep : List Char) (l : List (List Char)) :
    (l.map (total weight)).sum ≤ total weight (sep.intercalate l) := by
  match l with
  | [] => exact Nat.le_refl _
  | [t] => simp
  | t :: u :: rest =>
    have ih := sum_le_intercalate weight sep (u :: rest)
    rw [List.intercalate_cons_cons, total_append, total_append, List.map_cons, List.sum_cons]
    omega

/-- An item weighs no more than its list, in JSON. -/
theorem writtenSize_item {items : List Value} {v : Value} (h : v ∈ items) :
    writtenSize weight v ≤ writtenSize weight (.list items) := by
  have hitems : ∀ items : List Value,
      Json.writtenItems Json.jsonShown items = items.map (Json.written Json.jsonShown) := by
    intro items
    induction items with
    | nil => rfl
    | cons v rest ih => rw [Json.writtenItems, ih, List.map_cons]
  have hsum := sum_le_intercalate weight [',', ' ']
    (Json.writtenItems Json.jsonShown items)
  have hmem : writtenSize weight v ∈
      (Json.writtenItems Json.jsonShown items).map (total weight) := by
    rw [hitems, List.map_map]
    exact List.mem_map.mpr ⟨v, h, rfl⟩
  have hle := List.single_le_sum (fun _ _ => Nat.zero_le _) _ hmem
  rw [writtenSize, writtenSize, Json.written, total_cons, total_append]
  rw [writtenSize] at hle
  omega

/-- So does the value of an entry. -/
theorem writtenSize_entry {entries : List (String × Value)} {e : String × Value}
    (h : e ∈ entries) : writtenSize weight e.2 ≤ writtenSize weight (.dict entries) := by
  have hentries : ∀ entries : List (String × Value),
      Json.writtenEntries Json.jsonShown entries = entries.map fun e =>
        Json.quoted Json.jsonShown e.1 ++ ':' :: ' ' :: Json.written Json.jsonShown e.2 := by
    intro entries
    induction entries with
    | nil => rfl
    | cons e rest ih =>
      obtain ⟨k, v⟩ := e
      rw [Json.writtenEntries, ih, List.map_cons]
  have hsum := sum_le_intercalate weight [',', ' ']
    (Json.writtenEntries Json.jsonShown entries)
  have hmem : total weight (Json.quoted Json.jsonShown e.1 ++
      ':' :: ' ' :: Json.written Json.jsonShown e.2) ∈
      (Json.writtenEntries Json.jsonShown entries).map (total weight) := by
    rw [hentries, List.map_map]
    exact List.mem_map.mpr ⟨e, h, rfl⟩
  have hle := List.single_le_sum (fun _ _ => Nat.zero_le _) _ hmem
  rw [total_append, total_cons, total_cons] at hle
  rw [writtenSize, writtenSize, Json.written, total_cons, total_append]
  omega

/-- What a path leads to weighs no more than the output, unless it leads nowhere. -/
theorem writtenSize_of_walk {nodeId ref path : String} {keys : List (List Char)} {v w : Value}
    (h : walk nodeId ref path keys v = .ok w) :
    w = .null ∨ writtenSize weight w ≤ writtenSize weight v := by
  induction keys generalizing v with
  | nil =>
    obtain rfl : v = w := Except.ok.inj h
    exact .inr (Nat.le_refl _)
  | cons key rest ih =>
    have hnull : ∀ {w}, walk nodeId ref path rest .null = .ok w → w = .null := by
      intro w h
      cases rest with
      | nil => exact (Except.ok.inj h).symm
      | cons _ _ => exact (Except.ok.inj h).symm
    cases v with
    | dict entries =>
      rw [walk] at h
      unfold Dict.get at h
      cases hfound : entries.lookup (String.ofList key) with
      | none =>
        rw [hfound] at h
        exact .inl (hnull h)
      | some u =>
        rw [hfound] at h
        obtain ⟨before, after, hsplit, -⟩ := List.lookup_eq_some_iff.mp hfound
        have hmem : (String.ofList key, u) ∈ entries := by simp [hsplit]
        exact (ih h).imp id fun hle => hle.trans (writtenSize_entry hmem)
    | list items =>
      rw [walk] at h
      split at h
      · split at h
        · rename_i u hu
          exact (ih h).imp id fun hle => hle.trans (writtenSize_item (List.mem_of_getElem? hu))
        · exact .inl (Except.ok.inj h).symm
      · exact .inl (Except.ok.inj h).symm
    | null => exact .inl (Except.ok.inj h).symm
    | object _ => exact .inl (Except.ok.inj h).symm
    | _ => cases h

/-- No character is written lighter than it is. -/
def NoLighter (weight : Char → Nat) : Prop :=
  ∀ c, weight c ≤ total weight (Json.jsonShown c)

/-- A text weighs no more than between its quotes. -/
theorem size_le_quoted (hshown : NoLighter weight) (s : String) :
    size weight s ≤ total weight (Json.quoted Json.jsonShown s) := by
  have hflat : ∀ cs : List Char, total weight cs ≤ total weight (cs.flatMap Json.jsonShown) := by
    intro cs
    induction cs with
    | nil => exact Nat.le_refl _
    | cons c cs ih =>
      have := hshown c
      rw [List.flatMap_cons, total_append, total_cons]
      omega
  have := hflat s.toList
  rw [Json.quoted, total_cons, total_append, size]
  omega

mutual

/-- **JSON writes the texts of a value no lighter than they are.** -/
theorem texts_le_written (hshown : NoLighter weight) : ∀ v : Value, texts weight v ≤ writtenSize weight v
  | .str s => size_le_quoted hshown s
  | .list items => by
    have hitems := texts_le_writtenItems hshown items
    have hsum := sum_le_intercalate weight [',', ' ']
      (Json.writtenItems Json.jsonShown items)
    rw [texts, writtenSize, Json.written, total_cons, total_append]
    omega
  | .dict entries => by
    have hentries := texts_le_writtenEntries hshown entries
    have hsum := sum_le_intercalate weight [',', ' ']
      (Json.writtenEntries Json.jsonShown entries)
    rw [texts, writtenSize, Json.written, total_cons, total_append]
    omega
  | .null => Nat.zero_le _
  | .bool _ => Nat.zero_le _
  | .int _ => Nat.zero_le _
  | .float .. => Nat.zero_le _
  | .object _ => Nat.zero_le _

theorem texts_le_writtenItems (hshown : NoLighter weight) : ∀ items : List Value,
    textsItems weight items ≤ ((Json.writtenItems Json.jsonShown items).map (total weight)).sum
  | [] => Nat.le_refl _
  | v :: rest => by
    have hhead := texts_le_written hshown v
    have htail := texts_le_writtenItems hshown rest
    rw [textsItems, Json.writtenItems, List.map_cons, List.sum_cons]
    exact Nat.add_le_add hhead htail

theorem texts_le_writtenEntries (hshown : NoLighter weight) : ∀ entries : List (String × Value),
    textsEntries weight entries ≤
      ((Json.writtenEntries Json.jsonShown entries).map (total weight)).sum
  | [] => Nat.le_refl _
  | (k, v) :: rest => by
    have hkey := size_le_quoted hshown k
    have hhead := texts_le_written hshown v
    have htail := texts_le_writtenEntries hshown rest
    rw [writtenSize] at hhead
    rw [textsEntries, Json.writtenEntries, List.map_cons, List.sum_cons, total_append, total_cons,
      total_cons]
    omega

end

/-- The text that a value is rendered as, inside another. -/
theorem size_asText_le (hshown : NoLighter weight) {v : Value} {text : String} (h : v.asText = .ok text) :
    size weight text ≤ writtenSize weight v := by
  have hjson : ∀ u : Value, size weight u.json = writtenSize weight u := by
    intro u
    rw [size, writtenSize, Json.json_eq]
  have hdumps : ∀ u : Value, u.dumps = .ok text → size weight text ≤ writtenSize weight u := by
    intro u h
    unfold Value.dumps at h
    split at h
    · rw [← Except.ok.inj h, hjson]
    · cases h
  unfold Value.asText at h
  split at h
  · rw [← Except.ok.inj h]
    exact size_le_quoted hshown _
  · exact hdumps _ h

end Written

/-! ## 5. What a template yields -/

section Yields

variable {scope : Dict} {nodeId : String} {weight : Char → Nat}
  {answers : (e : Event) → Reply e → Prop}

/-- What is spent is no longer left. -/
theorem spend_yields (left n : Nat) :
    (spend nodeId left n).Yields answers fun left' => left' + n = left := by
  unfold spend
  split
  · rename_i hle
    exact Nat.sub_add_cancel hle
  · trivial

theorem leaf_le (spent share : Nat) : 0 + spent ≤ spent + share + 0 := by omega

section Template

variable {slack : Nat → Nat} {text : String → Nat} {other : Value → Nat}

/-- Rendering a text adds no more than its share to the texts produced and what is left. -/
def TextAdds (scope : Dict) (nodeId : String) (weight : Char → Nat)
    (answers : (e : Event) → Reply e → Prop) (slack : Nat → Nat) (text : String → Nat) : Prop :=
  ∀ left s, (renderText scope nodeId left s).Yields answers fun p =>
    texts weight p.1 + slack p.2 ≤ slack left + text s

mutual

/-- **A template adds the shares of its texts**, and its own keys. -/
theorem renderValue_yields (htext : TextAdds scope nodeId weight answers slack text) :
    ∀ (template : Value) (left : Nat), (renderValue scope nodeId left template).Yields answers
      fun p => texts weight p.1 + slack p.2 ≤
        slack left + templateSum text other template + keys weight template
  | .str s, left => (htext left s).mono fun p hp => Nat.le_trans hp (Nat.le_add_right _ _)
  | .list items, left => by
    refine (renderItems_yields htext items left).bind fun p hp => ?_
    exact hp
  | .dict entries, left => by
    refine (renderEntries_yields htext entries left).bind fun p hp => ?_
    exact hp
  | .null, _ => leaf_le _ _
  | .bool _, _ => leaf_le _ _
  | .int _, _ => leaf_le _ _
  | .float .., _ => leaf_le _ _
  | .object _, _ => leaf_le _ _

theorem renderItems_yields (htext : TextAdds scope nodeId weight answers slack text) :
    ∀ (items : List Value) (left : Nat), (renderItems scope nodeId left items).Yields answers
      fun p => textsItems weight p.1 + slack p.2 ≤
        slack left + templateSumItems text other items + keysItems weight items
  | [], left => leaf_le _ _
  | v :: rest, left => by
    refine (renderValue_yields htext v left).bind fun p hp => ?_
    refine (renderItems_yields htext rest p.2).bind fun q hq => ?_
    simp only [Prog.pure_eq_ret, Prog.Yields, textsItems, templateSumItems, keysItems]
    omega

theorem renderEntries_yields (htext : TextAdds scope nodeId weight answers slack text) :
    ∀ (entries : List (String × Value)) (left : Nat),
      (renderEntries scope nodeId left entries).Yields answers
        fun p => textsEntries weight p.1 + slack p.2 ≤
          slack left + templateSumEntries text other entries + keysEntries weight entries
  | [], left => leaf_le _ _
  | (k, v) :: rest, left => by
    refine (renderValue_yields htext v left).bind fun p hp => ?_
    refine (renderEntries_yields htext rest p.2).bind fun q hq => ?_
    simp only [Prog.pure_eq_ret, Prog.Yields, textsEntries, templateSumEntries, keysEntries]
    omega

end

end Template

end Yields

/-! ## 6. The budget -/

section Budget

variable {scope : Dict} {nodeId : String} {answers : (e : Event) → Reply e → Prop}

theorem noLighter_one : NoLighter fun _ => 1 :=
  Json.shown_cases (P := fun _ cs => 1 ≤ total (fun _ => 1) cs) (by decide) (by decide) (by decide)
    fun _ _ _ _ => Nat.le_refl _

theorem size_one (s : String) : size (fun _ => 1) s = s.length := by
  simp [size, total, String.length_toList]

@[simp] theorem size_append (weight : Char → Nat) (s t : String) :
    size weight (s ++ t) = size weight s + size weight t := by
  simp [size]

/-- `_value_size` counts the texts of a value. -/
theorem texts_le_valueSize (v : Value) : texts (fun _ => 1) v ≤ valueSize v := by
  have hjson : ∀ u : Value, writtenSize (fun _ => 1) u = u.json.length := by
    intro u
    rw [← size_one, size, Json.json_eq]
    rfl
  have hle := texts_le_written noLighter_one v
  rw [hjson] at hle
  cases v with
  | str s => exact Nat.le_of_eq (size_one s)
  | list items => exact hle
  | dict entries => exact hle
  | _ => exact Nat.zero_le _

/-- What is rendered so far, and what is left of the budget. -/
def spentOrLeft (rendered : String × Nat) : Nat := size (fun _ => 1) rendered.1 + rendered.2

/-- A piece adds to the text what it takes from the budget. -/
theorem renderPiece_budget (rendered : String × Nat) (piece : Piece) :
    (renderPiece scope nodeId rendered piece).Yields answers fun rendered' =>
      spentOrLeft rendered' ≤ spentOrLeft rendered + 0 := by
  have hspent : ∀ text : String, ∀ left, left + text.length = rendered.2 →
      spentOrLeft (rendered.1 ++ text, left) ≤ spentOrLeft rendered + 0 := by
    intro text left hleft
    rw [spentOrLeft, spentOrLeft, size_append, size_one text]
    omega
  cases piece with
  | literal text => exact (spend_yields _ _).bind fun left hleft => hspent text left hleft
  | ref id path =>
    refine (Prog.yields_true _).bind fun v _ => ?_
    split
    · exact Nat.le_refl _
    · refine (Prog.yields_true _).bind fun text _ => ?_
      exact (spend_yields _ _).bind fun left hleft => hspent text left hleft

/-- A text takes its length from the budget. -/
theorem renderText_budget : TextAdds scope nodeId (fun _ => 1) answers id fun _ => 0 := by
  intro left s
  unfold renderText
  split
  · refine (Prog.yields_true _).bind fun v _ => ?_
    refine (spend_yields _ _).bind fun left' hleft => ?_
    have := texts_le_valueSize v
    simp only [Prog.pure_eq_ret, Prog.Yields, id]
    omega
  · have hfold : (Prog.fold (renderPiece scope nodeId) ("", left) (pieces s)).Yields answers
        fun r => spentOrLeft r ≤ spentOrLeft ("", left) + ((pieces s).map fun _ => 0).sum :=
      Prog.Yields.fold_le spentOrLeft (fun _ => 0) fun r piece _ => renderPiece_budget r piece
    refine Prog.Yields.bind hfold fun r hr => ?_
    have hzero : ((pieces s).map fun _ => 0).sum = 0 := by simp
    have hempty : size (fun _ => 1) "" = 0 := rfl
    rw [hzero, spentOrLeft, spentOrLeft, hempty] at hr
    simp only [Prog.pure_eq_ret, Prog.Yields, texts, id]
    omega

end Budget

/-! ## 7. The bound -/

section Bound

theorem noLighter_bytes : NoLighter Char.utf8Size :=
  Json.shown_cases (P := fun c cs => c.utf8Size ≤ total Char.utf8Size cs) (by decide) (by decide)
    (by decide) fun c _ _ _ => by simp

/-- The bytes of a text are those of its characters. -/
theorem size_bytes (s : String) : size Char.utf8Size s = s.utf8ByteSize := by
  have hlist : ∀ cs : List Char, total Char.utf8Size cs = (String.ofList cs).utf8ByteSize := by
    intro cs
    induction cs with
    | nil => rfl
    | cons c rest ih =>
      have hsplit : String.ofList (c :: rest) = String.singleton c ++ String.ofList rest := by
        rw [← String.toList_inj]
        simp
      rw [hsplit, String.utf8ByteSize_append, String.utf8ByteSize_singleton, total_cons, ih]
  rw [size, hlist, String.ofList_toList]

/-- A match ends in the text. -/
theorem matchAt_rest {cs : List Char} {m : Match} (h : matchAt cs = some m) : m.rest <:+ cs := by
  unfold matchAt at h
  split at h
  · rename_i body
    dsimp only at h
    split at h
    · obtain ⟨rest, hrest, rfl⟩ := Option.map_eq_some_iff.mp h
      unfold closing at hrest
      split at hrest
      · rename_i tail htail
        obtain rfl := Option.some.inj hrest
        have hafter : ('}' :: '}' :: tail) <:+ body := by
          rw [← htail]
          refine (List.dropWhile_suffix _).trans ((List.dropWhile_suffix _).trans ?_)
          exact (List.dropWhile_suffix _).trans (List.dropWhile_suffix _)
        have htails : tail <:+ body :=
          (List.suffix_cons _ _).trans ((List.suffix_cons _ _).trans hafter)
        exact htails.trans ((List.suffix_cons _ _).trans (List.suffix_cons _ _))
      · cases hrest
    · cases h
  · cases h

/-- The weight of what a piece keeps of the template. -/
def literalSize (weight : Char → Nat) : Piece → Nat
  | .literal text => size weight text
  | .ref _ _ => 0

/-- What the pieces keep of a template is parts of it. -/
theorem literals_le (weight : Char → Nat) (fuel : Nat) (before cs : List Char) :
    ((piecesFrom fuel before cs).map (literalSize weight)).sum ≤
      total weight before + total weight cs := by
  have hreverse : ∀ cs : List Char, total weight cs.reverse = total weight cs := by
    intro cs
    rw [total, total, List.map_reverse, List.sum_reverse]
  induction fuel generalizing before cs with
  | zero =>
    simp [piecesFrom, literalSize, size, hreverse]
  | succ fuel ih =>
    simp only [piecesFrom]
    split
    · rename_i m hm
      have hrest : total weight m.rest ≤ total weight cs :=
        total_le_of_sublist (matchAt_rest hm).sublist
      have := ih [] m.rest
      simp only [List.map_cons, List.sum_cons, literalSize, size, String.toList_ofList, hreverse,
        total_nil] at this ⊢
      omega
    · split
      · simp [literalSize, size, hreverse]
      · rename_i c cs _
        have := ih (c :: before) cs
        rw [total_cons] at this ⊢
        omega

variable {outputs : Dict} {nodeId : String}

/-- The weight of a value in bytes is the size of its JSON. -/
theorem writtenSize_bytes (v : Value) : writtenSize Char.utf8Size v = v.json.utf8ByteSize := by
  rw [← size_bytes, size, Json.json_eq]
  rfl

theorem outputSize_eq (outputs : Dict) (ref : String) :
    outputSize outputs ref =
      ((outputs.lookup ref).map (writtenSize Char.utf8Size)).getD 0 := by
  unfold outputSize
  cases outputs.lookup ref with
  | none => rfl
  | some v => exact (writtenSize_bytes v).symm

/-- What a reference leads to weighs no more than its output. -/
theorem lookup_yields (ref path : String) :
    (lookup [] nodeId ref path).Yields (FromOutputs outputs) fun v =>
      v = .null ∨ writtenSize Char.utf8Size v ≤ outputSize outputs ref := by
  have hlook : (output? [] ref).Yields (FromOutputs outputs) fun found =>
      found = outputs.lookup ref := fun r hr => hr
  refine Prog.Yields.bind hlook fun found hfound => ?_
  rw [outputSize_eq, ← hfound]
  cases found with
  | none => exact .inl rfl
  | some u =>
    refine Prog.Yields.ofExcept fun v hv => ?_
    have hwalk : walk nodeId ref path (pathKeys path) u = .ok v := by
      cases hresult : walk nodeId ref path (pathKeys path) u with
      | ok w =>
        rw [hresult] at hv
        exact congrArg Except.ok (Except.ok.inj hv)
      | error e =>
        rw [hresult] at hv
        cases hv
    exact writtenSize_of_walk hwalk

/-- The share of a piece in the bound. -/
def pieceBound (outputs : Dict) : Piece → Nat
  | .literal text => size Char.utf8Size text
  | .ref id _ => outputSize outputs id

/-- The bytes of what is rendered so far. -/
def renderedBytes (rendered : String × Nat) : Nat := size Char.utf8Size rendered.1

theorem renderPiece_bound (rendered : String × Nat) (piece : Piece) :
    (renderPiece [] nodeId rendered piece).Yields (FromOutputs outputs) fun rendered' =>
      renderedBytes rendered' ≤ renderedBytes rendered + pieceBound outputs piece := by
  cases piece with
  | literal text =>
    refine (Prog.yields_true _).bind fun left _ => ?_
    exact Nat.le_of_eq (size_append _ _ _)
  | ref id path =>
    refine (lookup_yields id path).bind fun v hv => ?_
    split
    · exact Nat.le_add_right _ _
    · rename_i hnull
      have hvalue : writtenSize Char.utf8Size v ≤ outputSize outputs id := hv.resolve_left hnull
      have htext : (lift v.asText).Yields (FromOutputs outputs) fun text =>
          size Char.utf8Size text ≤ writtenSize Char.utf8Size v := by
        refine Prog.Yields.ofExcept fun text h => size_asText_le noLighter_bytes ?_
        cases hresult : v.asText with
        | ok t =>
          rw [hresult] at h
          exact congrArg Except.ok (Except.ok.inj h)
        | error e =>
          rw [hresult] at h
          cases h
      refine htext.bind fun text htext => ?_
      refine (Prog.yields_true _).bind fun left _ => ?_
      have hshare : size Char.utf8Size text ≤ outputSize outputs id := htext.trans hvalue
      have happend := size_append Char.utf8Size rendered.1 text
      simp only [Prog.pure_eq_ret, Prog.Yields, pieceBound, renderedBytes, happend]
      omega

/-- The shares of the pieces of a text are the text and the outputs it refers to. -/
theorem pieceBound_le (outputs : Dict) (s : String) :
    ((pieces s).map (pieceBound outputs)).sum ≤
      s.utf8ByteSize + ((textRefPaths s).map fun r => outputSize outputs r.1).sum := by
  have hsplit : ∀ ps : List Piece, (ps.map (pieceBound outputs)).sum =
      (ps.map (literalSize Char.utf8Size)).sum +
        ((ps.filterMap Piece.ref?).map fun r => outputSize outputs r.1).sum := by
    intro ps
    induction ps with
    | nil => rfl
    | cons piece rest ih =>
      cases piece with
      | literal text =>
        rw [List.filterMap_cons_none rfl, List.map_cons, List.map_cons, List.sum_cons,
          List.sum_cons, ih, pieceBound, literalSize, Nat.add_assoc]
      | ref id path =>
        rw [List.filterMap_cons_some (f := Piece.ref?) rfl, List.map_cons, List.map_cons,
          List.map_cons, List.sum_cons, List.sum_cons, List.sum_cons, ih, pieceBound, literalSize]
        dsimp only
        omega
  have hliterals := literals_le Char.utf8Size (s.toList.length + 1) [] s.toList
  have hbytes : total Char.utf8Size s.toList = s.utf8ByteSize := size_bytes s
  rw [total_nil, Nat.zero_add, hbytes] at hliterals
  rw [hsplit, textRefPaths]
  exact Nat.add_le_add_right hliterals _

/-- A text yields no more than its bytes and the outputs it refers to. -/
theorem renderText_bound : TextAdds [] nodeId Char.utf8Size (FromOutputs outputs) (fun _ => 0)
    fun s => s.utf8ByteSize + ((textRefPaths s).map fun r => outputSize outputs r.1).sum := by
  intro left s
  unfold renderText
  split
  · rename_i id path hwhole
    refine (lookup_yields id path).bind fun v hv => ?_
    refine (Prog.yields_true _).bind fun left' _ => ?_
    -- The reference is among those of the text, so its output is in the sum.
    have hmem : outputSize outputs id ∈
        (textRefPaths s).map fun r => outputSize outputs r.1 :=
      List.mem_map.mpr ⟨(id, path), mem_textRefPaths_of_whole hwhole, rfl⟩
    have hsum := List.single_le_sum (fun _ _ => Nat.zero_le _) _ hmem
    have htexts : texts Char.utf8Size v ≤ outputSize outputs id := by
      rcases hv with rfl | hv
      · exact Nat.zero_le _
      · exact (texts_le_written noLighter_bytes v).trans hv
    simp only [Prog.pure_eq_ret, Prog.Yields]
    omega
  · have hfold : (Prog.fold (renderPiece [] nodeId) ("", left) (pieces s)).Yields
        (FromOutputs outputs) fun r => renderedBytes r ≤
          renderedBytes ("", left) + ((pieces s).map (pieceBound outputs)).sum :=
      Prog.Yields.fold_le renderedBytes (pieceBound outputs) fun r piece _ =>
        renderPiece_bound r piece
    refine Prog.Yields.bind hfold fun r hr => ?_
    have hempty : size Char.utf8Size "" = 0 := rfl
    have hpieces := pieceBound_le outputs s
    rw [renderedBytes, renderedBytes, hempty] at hr
    simp only [Prog.pure_eq_ret, Prog.Yields, texts]
    omega

end Bound

/-! ## 8. Rendering -/

theorem templateSum_zero : ∀ template : Value,
    templateSum (fun _ => 0) (fun _ => 0) template = 0 := by
  intro template
  induction template using Value.rec (motive_2 := fun items =>
      templateSumItems (fun _ => 0) (fun _ => 0) items = 0)
    (motive_3 := fun entries => templateSumEntries (fun _ => 0) (fun _ => 0) entries = 0)
    (motive_4 := fun e => templateSum (fun _ => 0) (fun _ => 0) e.2 = 0) with
  | _ => simp_all [templateSum, templateSumItems, templateSumEntries]

/-- **What is rendered stays within the budget and below the estimate**, the keys of the objects of
the template apart: they are copied, and neither counts them. -/
theorem renderWith_bounded (outputs : Dict) (nodeId : String) (template : Value) {v : Value}
    (h : renderWith outputs nodeId template = .ok v) :
    texts (fun _ => 1) v ≤ maxRenderedChars + keys (fun _ => 1) template ∧
      texts Char.utf8Size v ≤
        renderedSizeBound template outputs + keys Char.utf8Size template := by
  constructor
  · have hyields : (render [] nodeId template).Yields (FromOutputs outputs) fun v =>
        texts (fun _ => 1) v ≤ maxRenderedChars + keys (fun _ => 1) template := by
      have hvalue : (renderValue [] nodeId maxRenderedChars template).Yields (FromOutputs outputs)
          fun p => texts (fun _ => 1) p.1 + p.2 ≤ maxRenderedChars +
            templateSum (fun _ => 0) (fun _ => 0) template + keys (fun _ => 1) template :=
        renderValue_yields renderText_budget template maxRenderedChars
      rw [templateSum_zero template] at hvalue
      exact hvalue.bind fun p hp => Nat.le_trans (Nat.le_add_right _ _) hp
    exact Prog.of_run hyields (fromOutputs_lookups outputs) h
  · have hyields : (render [] nodeId template).Yields (FromOutputs outputs) fun v =>
        texts Char.utf8Size v ≤
          renderedSizeBound template outputs + keys Char.utf8Size template := by
      have hvalue : (renderValue [] nodeId maxRenderedChars template).Yields (FromOutputs outputs)
          fun p => texts Char.utf8Size p.1 + 0 ≤
            0 + renderedSizeBound template outputs + keys Char.utf8Size template :=
        renderValue_yields renderText_bound template maxRenderedChars
      rw [Nat.zero_add] at hvalue
      exact hvalue.bind fun p hp => hp
    exact Prog.of_run hyields (fromOutputs_lookups outputs) h

/-- A list of a text and of a whole output, the output an object. -/
theorem renderWith_bounded_total :
    texts (fun _ => 1) (.list [.str "total: 3", .dict [("n", .int 3)]]) ≤ maxRenderedChars ∧
      texts Char.utf8Size (.list [.str "total: 3", .dict [("n", .int 3)]]) ≤
        renderedSizeBound (.list [.str "total: \x7b\x7ba.n\x7d\x7d", .str "\x7b\x7ba\x7d\x7d"])
          [("a", .dict [("n", .int 3)])] :=
  renderWith_bounded [("a", .dict [("n", .int 3)])] "out"
    (.list [.str "total: \x7b\x7ba.n\x7d\x7d", .str "\x7b\x7ba\x7d\x7d"]) (by decide +kernel)

/-- The key of an object is a text of the result, and is in neither count. -/
theorem not_bounded_key :
    renderWith [] "out" (.dict [("a", .str "b")]) = .ok (.dict [("a", .str "b")]) ∧
      renderedSizeBound (.dict [("a", .str "b")]) [] = 1 ∧
      texts Char.utf8Size (.dict [("a", .str "b")]) = 2 := by
  decide +kernel

end Apowerb.Engine
