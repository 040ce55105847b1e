/-
# Observed shapes

`core/workflow_shapes.py`: what is kept of the reply of a tool is its shape, the keys and the types
of a value and none of its data.  A key is kept where it looks like the name of a field; any other
key is data, and its value is described without it.

`Shape` is the dictionary that the code builds, one constructor for each set of keys it may have
(`Shape.toValue`).  The results:

* `shapeOf_alike`: two values that differ by their data only have the same shape;
* `keys_shapeOf`: every key of a shape is the name of a field;
* `size_cappedShape`: a capped shape fits in its limit.
-/
import Apowerb.Agent.Stream

namespace Apowerb.Shapes

open Agent (Stream.dumps)

/-! ## 1. Shapes -/

/-- `MAX_DEPTH`. -/
def maxDepth : Nat := 6

/-- `MAX_KEYS`. -/
def maxKeys : Nat := 50

/-- `MAX_SHAPE_BYTES`. -/
def maxShapeBytes : Nat := 8000

/-- `MAX_KEY_DIGITS`. -/
def maxKeyDigits : Nat := 1

/-- A character of `_FIELD_KEY`, the first of a key. -/
def startsKey (c : Char) : Bool := c.isAlpha || c == '_'

/-- `_is_field_key`. -/
def isFieldKey (key : String) : Bool :=
  match key.toList with
  | [] => false
  | c :: rest =>
    startsKey c && rest.length ≤ 63 && rest.all (fun c => startsKey c || c.isDigit) &&
      (c :: rest).countP Char.isDigit ≤ maxKeyDigits

/-- A shape.  An object or an array of which nothing more is known has no `fields` and no `items`;
an object has `others` where it has keys that are data, and is a map where it has no other. -/
inductive Shape
  | any | null | string | number | boolean
  | bareObject
  | object (fields : List (String × Shape)) (truncated : Bool)
  | mixed (fields : List (String × Shape)) (truncated : Bool) (others : Shape)
  | bareArray
  | array (items : Shape)
  | map (values : Shape)
deriving Repr, Inhabited

/-- `{"type": name}`. -/
def typed (name : String) : Dict := [("type", .str name)]

/-- The mark of an object whose keys were cut. -/
def cutMark (truncated : Bool) : Dict := if truncated then [("truncated", .bool true)] else []

mutual

/-- The dictionary that stands for a shape. -/
def Shape.toValue : Shape → Value
  | .any => .dict (typed "any")
  | .null => .dict (typed "null")
  | .string => .dict (typed "string")
  | .number => .dict (typed "number")
  | .boolean => .dict (typed "boolean")
  | .bareObject => .dict (typed "object")
  | .object fields truncated =>
    .dict (typed "object" ++ ("fields", .dict (fieldsValue fields)) :: cutMark truncated)
  | .mixed fields truncated others =>
    .dict (typed "object" ++ ("fields", .dict (fieldsValue fields)) :: cutMark truncated ++
      [("others", others.toValue)])
  | .bareArray => .dict (typed "array")
  | .array items => .dict (typed "array" ++ [("items", items.toValue)])
  | .map values => .dict (typed "map" ++ [("values", values.toValue)])

def fieldsValue : List (String × Shape) → Dict
  | [] => []
  | (k, shape) :: rest => (k, shape.toValue) :: fieldsValue rest

end

mutual

/-- The keys that a shape shows. -/
def Shape.keys : Shape → List String
  | .object fields _ => fieldsKeys fields
  | .mixed fields _ others => fieldsKeys fields ++ others.keys
  | .array items => items.keys
  | .map values => values.keys
  | _ => []

def fieldsKeys : List (String × Shape) → List String
  | [] => []
  | (k, shape) :: rest => k :: (shape.keys ++ fieldsKeys rest)

end

/-- The shape of an object, from its entries that are fields and the first one that is data, both
described by `describe`. -/
def objectShape (describe : Value → Shape) (entries : Dict) : Shape :=
  let named := entries.filter fun e => isFieldKey e.1
  let fields := (named.take maxKeys).map fun e => (e.1, describe e.2)
  let truncated := decide (maxKeys < named.length)
  match entries.filter fun e => !isFieldKey e.1 with
  | [] => .object fields truncated
  | (_, v) :: _ => if named = [] then .map (describe v) else .mixed fields truncated (describe v)

/-- `shape_of`. -/
def shapeOf : Nat → Value → Shape
  | _, .null => .null
  | _, .bool _ => .boolean
  | _, .int _ => .number
  | _, .float .. => .number
  | _, .str _ => .string
  | 0, .dict _ => .bareObject
  | depth + 1, .dict entries => objectShape (shapeOf depth) entries
  | 0, .list _ => .bareArray
  | _ + 1, .list [] => .bareArray
  | depth + 1, .list (v :: _) => .array (shapeOf depth v)
  | _, .object _ => .any

/-- `len(json.dumps(shape))`. -/
def Shape.size (shape : Shape) : Nat := (Stream.dumps shape.toValue).length

/-- The depths that `capped_shape` tries, from one down. -/
def cappedFrom (value : Value) : Nat → Shape
  | 0 => if (shapeOf 0 value).size ≤ maxShapeBytes then shapeOf 0 value else .any
  | depth + 1 =>
    if (shapeOf (depth + 1) value).size ≤ maxShapeBytes then shapeOf (depth + 1) value
    else cappedFrom value depth

/-- `capped_shape`. -/
def cappedShape (value : Value) : Shape := cappedFrom value maxDepth

/-! ## 2. Data does not show -/

mutual

/-- Two values of one structure: the leaves are of one type, and a key is the same unless it is
data on both sides. -/
def Alike : Value → Value → Prop
  | .null, .null => True
  | .bool _, .bool _ => True
  | .int _, .int _ => True
  | .int _, .float .. => True
  | .float .., .int _ => True
  | .float .., .float .. => True
  | .str _, .str _ => True
  | .list as, .list bs => AlikeItems as bs
  | .dict as, .dict bs => AlikeEntries as bs
  | .object _, .object _ => True
  | _, _ => False

def AlikeItems : List Value → List Value → Prop
  | [], [] => True
  | a :: as, b :: bs => Alike a b ∧ AlikeItems as bs
  | _, _ => False

def AlikeEntries : List (String × Value) → List (String × Value) → Prop
  | [], [] => True
  | (k, a) :: as, (l, b) :: bs =>
    (k = l ∨ isFieldKey k = false ∧ isFieldKey l = false) ∧ Alike a b ∧ AlikeEntries as bs
  | _, _ => False

end

/-- Entries that are fields on both sides. -/
def SameField (describe : Value → Shape) (a b : String × Value) : Prop :=
  a.1 = b.1 ∧ describe a.2 = describe b.2

/-- Alike objects have the same fields, and data that is described alike. -/
theorem alikeEntries_split {describe : Value → Shape}
    (hdescribe : ∀ v w, Alike v w → describe v = describe w) :
    ∀ as bs : List (String × Value), AlikeEntries as bs →
      List.Forall₂ (SameField describe) (as.filter fun e => isFieldKey e.1)
        (bs.filter fun e => isFieldKey e.1) ∧
      List.Forall₂ (fun a b => describe a.2 = describe b.2) (as.filter fun e => !isFieldKey e.1)
        (bs.filter fun e => !isFieldKey e.1)
  | [], [], _ => ⟨.nil, .nil⟩
  | [], _ :: _, h => h.elim
  | _ :: _, [], h => h.elim
  | (k, a) :: as, (l, b) :: bs, h => by
    obtain ⟨hkey, hvalue, hrest⟩ := h
    obtain ⟨hfields, hdata⟩ := alikeEntries_split hdescribe as bs hrest
    have hsame := hdescribe a b hvalue
    rcases hkey with rfl | ⟨hk, hl⟩
    · cases hk : isFieldKey k with
      | true =>
        simp only [List.filter_cons, hk, if_true, Bool.not_true, Bool.false_eq_true, if_false]
        exact ⟨.cons ⟨rfl, hsame⟩ hfields, hdata⟩
      | false =>
        simp only [List.filter_cons, hk, Bool.not_false, if_true, Bool.false_eq_true, if_false]
        exact ⟨hfields, .cons hsame hdata⟩
    · simp only [List.filter_cons, hk, hl, Bool.not_false, if_true, Bool.false_eq_true, if_false]
      exact ⟨hfields, .cons hsame hdata⟩

/-- The fields of two objects with the same fields are described alike. -/
theorem fields_eq {describe : Value → Shape} {as bs : List (String × Value)}
    (h : List.Forall₂ (SameField describe) as bs) (n : Nat) :
    (as.take n).map (fun e => (e.1, describe e.2)) =
      (bs.take n).map fun e => (e.1, describe e.2) := by
  induction h generalizing n with
  | nil => rfl
  | cons hab _ ih =>
    cases n with
    | zero => rfl
    | succ n =>
      rw [List.take_succ_cons, List.take_succ_cons, List.map_cons, List.map_cons, ih n, hab.1, hab.2]

theorem objectShape_alike {describe : Value → Shape}
    (hdescribe : ∀ v w, Alike v w → describe v = describe w) {as bs : List (String × Value)}
    (h : AlikeEntries as bs) : objectShape describe as = objectShape describe bs := by
  obtain ⟨hfields, hdata⟩ := alikeEntries_split hdescribe as bs h
  have hlength := hfields.length_eq
  unfold objectShape
  dsimp only
  rw [fields_eq hfields, hlength]
  generalize as.filter (fun e => isFieldKey e.1) = named at hfields hlength ⊢
  generalize bs.filter (fun e => isFieldKey e.1) = named' at hfields hlength ⊢
  generalize as.filter (fun e => !isFieldKey e.1) = data at hdata ⊢
  generalize bs.filter (fun e => !isFieldKey e.1) = data' at hdata ⊢
  have hnone : named = [] ↔ named' = [] := by
    rw [← List.length_eq_zero_iff, ← List.length_eq_zero_iff, hlength]
  cases hdata with
  | nil => rfl
  | cons hab _ =>
    dsimp only
    rw [hab]
    by_cases hnamed : named = []
    · rw [if_pos hnamed, if_pos (hnone.mp hnamed)]
    · rw [if_neg hnamed, if_neg (fun hnamed' => hnamed (hnone.mpr hnamed'))]

/-- **A shape does not depend on data**: leaves may be replaced by others of their types, and keys
that are not the name of a field renamed. -/
theorem shapeOf_alike (depth : Nat) {v w : Value} (h : Alike v w) :
    shapeOf depth v = shapeOf depth w := by
  induction depth generalizing v w with
  | zero => cases v <;> cases w <;> first | rfl | exact h.elim
  | succ depth ih =>
    cases v <;> cases w
    case list.list as bs =>
      cases as <;> cases bs
      case nil.nil => rfl
      case cons.cons a as b bs => exact congrArg Shape.array (ih h.1)
      all_goals exact h.elim
    case dict.dict as bs => exact objectShape_alike (fun v w hvw => ih hvw) h
    all_goals first | rfl | exact h.elim

theorem cappedFrom_alike {v w : Value} (h : Alike v w) (depth : Nat) :
    cappedFrom v depth = cappedFrom w depth := by
  induction depth with
  | zero => rw [cappedFrom, cappedFrom, shapeOf_alike 0 h]
  | succ depth ih => rw [cappedFrom, cappedFrom, shapeOf_alike (depth + 1) h, ih]

/-! ## 3. Only names of fields show -/

theorem mem_fieldsKeys {describe : Value → Shape} (hdescribe : ∀ v, ∀ k ∈ (describe v).keys,
    isFieldKey k = true) (entries : List (String × Value))
    (hnamed : ∀ e ∈ entries, isFieldKey e.1 = true) :
    ∀ k ∈ fieldsKeys (entries.map fun e => (e.1, describe e.2)), isFieldKey k = true := by
  induction entries with
  | nil =>
    intro k hk
    cases hk
  | cons e rest ih =>
    intro k hk
    rw [List.map_cons, fieldsKeys, List.mem_cons, List.mem_append] at hk
    rcases hk with rfl | hk | hk
    · exact hnamed e List.mem_cons_self
    · exact hdescribe e.2 k hk
    · exact ih (fun e he => hnamed e (List.mem_cons_of_mem _ he)) k hk

theorem keys_objectShape {describe : Value → Shape} (hdescribe : ∀ v, ∀ k ∈ (describe v).keys,
    isFieldKey k = true) (entries : Dict) :
    ∀ k ∈ (objectShape describe entries).keys, isFieldKey k = true := by
  have hfields := mem_fieldsKeys hdescribe ((entries.filter fun e => isFieldKey e.1).take maxKeys)
    (fun e he => by simpa using (List.mem_filter.mp (List.mem_of_mem_take he)).2)
  unfold objectShape
  dsimp only
  split
  · exact hfields
  · split
    · exact hdescribe _
    · intro k hk
      rw [Shape.keys, List.mem_append] at hk
      rcases hk with hk | hk
      · exact hfields k hk
      · exact hdescribe _ k hk

/-- **Every key of a shape is the name of a field.** -/
theorem keys_shapeOf (depth : Nat) (v : Value) :
    ∀ k ∈ (shapeOf depth v).keys, isFieldKey k = true := by
  have hleaf : ∀ k ∈ ([] : List String), isFieldKey k = true := fun k hk => by cases hk
  induction depth generalizing v with
  | zero => cases v <;> exact hleaf
  | succ depth ih =>
    cases v with
    | list items =>
      cases items with
      | nil => exact hleaf
      | cons item _ => exact ih item
    | dict entries => exact keys_objectShape ih entries
    | _ => exact hleaf

/-! ## 4. A capped shape fits -/

/-- A text of ASCII characters is as many bytes as it has characters. -/
theorem utf8ByteSize_ascii (cs : List Char) (h : ∀ c ∈ cs, c.toNat < 128) :
    (String.ofList cs).utf8ByteSize = cs.length := by
  induction cs with
  | nil => rfl
  | cons c rest ih =>
    have hone : c.utf8Size = 1 := by
      rw [Char.utf8Size_eq_one_iff]
      have := h c List.mem_cons_self
      exact UInt32.le_iff_toNat_le.mpr (Nat.le_of_lt_succ this)
    have hsplit : String.ofList (c :: rest) = String.singleton c ++ String.ofList rest := by
      rw [← String.toList_inj]
      simp
    rw [hsplit, String.utf8ByteSize_append, String.utf8ByteSize_singleton, hone,
      ih fun c hc => h c (List.mem_cons_of_mem _ hc), List.length_cons, Nat.add_comm]

theorem digitChar_ascii (n : Nat) : (Nat.digitChar n).toNat < 128 := by
  have hsmall : ∀ d < 16, (Nat.digitChar d).toNat < 128 := by decide
  by_cases hn : n < 16
  · exact hsmall n hn
  · have hstar : Nat.digitChar n = '*' := by
      simp [Nat.digitChar, show ∀ k, k < 16 → n ≠ k by omega]
    rw [hstar]
    decide

/-- `json.dumps` writes ASCII. -/
theorem dumps_ascii (v : Value) : ∀ c ∈ (Stream.dumps v).toList, c.toNat < 128 := by
  have hunit : ∀ u, ∀ c ∈ ['\\', 'u', Nat.digitChar (u / 4096), Nat.digitChar (u / 256 % 16),
      Nat.digitChar (u / 16 % 16), Nat.digitChar (u % 16)], c.toNat < 128 := by
    intro u c hc
    simp only [List.mem_cons, List.not_mem_nil, or_false] at hc
    rcases hc with rfl | rfl | rfl | rfl | rfl | rfl
    · decide
    · decide
    all_goals exact digitChar_ascii _
  intro c hc
  rw [Stream.dumps, String.toList_ofList, List.mem_flatMap] at hc
  obtain ⟨b, -, hc⟩ := hc
  split at hc
  · rename_i hsmall
    rw [List.mem_singleton.mp hc]
    omega
  · unfold Agent.Stream.asciiEscape at hc
    dsimp only at hc
    split at hc
    · exact hunit _ c hc
    · rcases List.mem_append.mp hc with hc | hc
      · exact hunit _ c hc
      · exact hunit _ c hc

/-- What is tried last has nothing in it, and fits. -/
theorem size_shapeOf_zero (v : Value) : (shapeOf 0 v).size ≤ maxShapeBytes := by
  have hbare : ∀ shape ∈ [Shape.any, .null, .string, .number, .boolean, .bareObject, .bareArray],
      shape.size ≤ maxShapeBytes := by decide +kernel
  cases v <;> exact hbare _ (by simp [shapeOf])

theorem size_cappedFrom (v : Value) (depth : Nat) : (cappedFrom v depth).size ≤ maxShapeBytes := by
  induction depth with
  | zero =>
    rw [cappedFrom, if_pos (size_shapeOf_zero v)]
    exact size_shapeOf_zero v
  | succ depth ih =>
    rw [cappedFrom]
    split
    · assumption
    · exact ih

/-- **A capped shape fits in its limit**, in bytes. -/
theorem size_cappedShape (v : Value) :
    (Stream.dumps (cappedShape v).toValue).utf8ByteSize ≤ maxShapeBytes := by
  have hsize := size_cappedFrom v maxDepth
  have hbytes := utf8ByteSize_ascii _ (dumps_ascii (cappedShape v).toValue)
  rw [String.ofList_toList] at hbytes
  rw [hbytes, String.length_toList]
  exact hsize

/-- A capped shape is the shape of the value at some depth. -/
theorem cappedFrom_eq (v : Value) (depth : Nat) : ∃ d, cappedFrom v depth = shapeOf d v := by
  induction depth with
  | zero => exact ⟨0, by rw [cappedFrom, if_pos (size_shapeOf_zero v)]⟩
  | succ depth ih =>
    rw [cappedFrom]
    split
    · exact ⟨depth + 1, rfl⟩
    · exact ih

/-! ## 5. Together -/

/-- **Observed shapes leak no data**: they are the same for values that differ by their data only,
they show names of fields only, and a capped one fits in its limit. -/
theorem observed_leaks_nothing :
    (∀ (depth : Nat) (v w : Value), Alike v w →
      shapeOf depth v = shapeOf depth w ∧ cappedShape v = cappedShape w) ∧
    (∀ (depth : Nat) (v : Value), (∀ k ∈ (shapeOf depth v).keys, isFieldKey k = true) ∧
      ∀ k ∈ (cappedShape v).keys, isFieldKey k = true) ∧
    ∀ v : Value, (Stream.dumps (cappedShape v).toValue).utf8ByteSize ≤ maxShapeBytes := by
  refine ⟨fun depth v w h => ⟨shapeOf_alike depth h, cappedFrom_alike h maxDepth⟩,
    fun depth v => ⟨keys_shapeOf depth v, ?_⟩, size_cappedShape⟩
  obtain ⟨d, hd⟩ := cappedFrom_eq v maxDepth
  rw [cappedShape, hd]
  exact keys_shapeOf d v

/-- A mailbox indexed by address, and another: the addresses and the subjects do not show. -/
theorem observed_leaks_nothing_mailbox :
    shapeOf maxDepth (.dict [("ada@acme.fr", .dict [("subject", .str "hello"), ("n", .int 1)])]) =
      shapeOf maxDepth (.dict [("42", .dict [("subject", .str ""), ("n", .float 25 1)])]) := by
  refine (observed_leaks_nothing.1 maxDepth _ _ ?_).1
  exact ⟨.inr ⟨by decide, by decide⟩, ⟨.inl rfl, trivial, .inl rfl, trivial, trivial⟩, trivial⟩

end Apowerb.Shapes
