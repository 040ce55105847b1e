/-
# What a tool returns, made ready to store

`helpers/jsonify.py`: `to_jsonable` makes of what a tool returns a value of JSON that PostgreSQL can
store: scalars of NumPy become those of Python, NaN becomes null, collections become lists and
dictionaries, and the NUL characters of texts and keys are removed.

* `storable_iff`: what is returned can be stored exactly if none of the floats that are kept is
  infinite and no scalar of NumPy has no counterpart in Python.  Such a scalar is its own `item()`,
  and the conversion does not end.
* `toJsonable_of_isJson`: a value that can be stored comes back unchanged.

A key of a dictionary is known by its text, `str(k)`, so that two keys may be equal here.  An array
has one dimension or more and is known by its `tolist()`; a float of NumPy by the float that it
converts to.  The limit of Python on the depth of a value is left out, and so are the log lines.
-/
import Apowerb.Lib.Assoc
import Apowerb.Lib.Except
import Apowerb.Raised

namespace Apowerb.Tools.Jsonable

/-! ## 1. Values -/

/-- A float: a decimal `mantissa / 10 ^ scale`, an infinity, or NaN. -/
inductive PyFloat
  | finite (mantissa : Int) (scale : Nat)
  | infinite (negative : Bool)
  | nan
deriving DecidableEq, Repr

def PyFloat.isFinite : PyFloat → Bool
  | .finite _ _ => true
  | .infinite _ | .nan => false

def nul : Char := Char.ofNat 0

/-- A text without NUL. -/
def isClean (s : String) : Bool := s.toList.all (· ≠ nul)

/-- What a tool returns. -/
inductive PyValue
  | none
  | bool (b : Bool)
  | int (i : Int)
  | float (f : PyFloat)
  | str (s : String)
  | list (items : List PyValue)
  | tuple (items : List PyValue)
  | set (items : List PyValue)
  | dict (entries : List (String × PyValue))
  | npBool (b : Bool)
  | npInteger (i : Int)
  | npFloating (f : PyFloat)
  | npArray (items : List PyValue)
  /-- another scalar of NumPy, with its `item()` -/
  | npGeneric (item : PyValue)
  /-- a complex number of extended precision: `item()` is the scalar itself -/
  | npExtended
  /-- `NaT` -/
  | missing
  /-- a date, with its `isoformat()` -/
  | moment (iso : Subtype fun s => isClean s = true)
  /-- any other value, with its `str()` -/
  | other (shown : String)

/-! ## 2. The conversion -/

/-- `strip_nul`. -/
def stripNul (s : String) : String := String.ofList (s.toList.filter (· ≠ nul))

/-- `f if f == f else None`. -/
def ofFloat (f : PyFloat) : PyValue := if f = .nan then .none else .float f

mutual

/-- `to_jsonable`. -/
def toJsonable : PyValue → Except Raised PyValue
  | .none | .missing => .ok .none
  | .bool b | .npBool b => .ok (.bool b)
  | .npInteger i | .int i => .ok (.int i)
  | .npFloating f | .float f => .ok (ofFloat f)
  | .npGeneric item => toJsonable item
  | .npExtended => .error (.other "RecursionError")
  | .str s | .other s => .ok (.str (stripNul s))
  | .dict entries => do
    let pairs ← toJsonableEntries entries
    .ok (.dict (Assoc.fill pairs))
  | .npArray items | .list items | .tuple items | .set items => do
    let items ← toJsonableItems items
    .ok (.list items)
  | .moment iso => .ok (.str iso.1)

def toJsonableItems : List PyValue → Except Raised (List PyValue)
  | [] => .ok []
  | v :: rest => do
    let v ← toJsonable v
    let rest ← toJsonableItems rest
    .ok (v :: rest)

/-- The pairs that a dictionary is filled from. -/
def toJsonableEntries : List (String × PyValue) → Except Raised (List (String × PyValue))
  | [] => .ok []
  | (k, v) :: rest => do
    let v ← toJsonable v
    let rest ← toJsonableEntries rest
    .ok ((stripNul k, v) :: rest)

end

/-! ## 3. What can be stored -/

mutual

/-- A value of JSON that PostgreSQL stores: finite numbers, and no NUL in a text or a key. -/
def isJson : PyValue → Bool
  | .none | .bool _ | .int _ => true
  | .float f => f.isFinite
  | .str s => isClean s
  | .list items => isJsonItems items
  | .dict entries => decide (entries.map (·.1)).Nodup && isJsonEntries entries
  | _ => false

def isJsonItems : List PyValue → Bool
  | [] => true
  | v :: rest => isJson v && isJsonItems rest

def isJsonEntries : List (String × PyValue) → Bool
  | [] => true
  | (k, v) :: rest => isClean k && isJson v && isJsonEntries rest

end

mutual

/-- No scalar of NumPy is its own `item()`. -/
def ends : PyValue → Bool
  | .npExtended => false
  | .npGeneric item => ends item
  | .dict entries => endsEntries entries
  | .npArray items | .list items | .tuple items | .set items => endsItems items
  | _ => true

def endsItems : List PyValue → Bool
  | [] => true
  | v :: rest => ends v && endsItems rest

def endsEntries : List (String × PyValue) → Bool
  | [] => true
  | (_, v) :: rest => ends v && endsEntries rest

end

mutual

/-- No float is infinite, but in the value of a key that comes again once its NULs are removed. -/
def bounded : PyValue → Bool
  | .npFloating f | .float f => f = .nan || f.isFinite
  | .npGeneric item => bounded item
  | .dict entries => boundedEntries entries
  | .npArray items | .list items | .tuple items | .set items => boundedItems items
  | _ => true

def boundedItems : List PyValue → Bool
  | [] => true
  | v :: rest => bounded v && boundedItems rest

def boundedEntries : List (String × PyValue) → Bool
  | [] => true
  | (k, v) :: rest =>
    (decide (stripNul k ∈ rest.map fun e => stripNul e.1) || bounded v) && boundedEntries rest

end

theorem isClean_stripNul (s : String) : isClean (stripNul s) = true := by
  unfold isClean stripNul
  rw [String.toList_ofList, List.all_filter]
  simp

theorem stripNul_of_isClean {s : String} (h : isClean s = true) : stripNul s = s := by
  unfold stripNul
  rw [List.filter_eq_self.mpr (List.all_eq_true.mp h), String.ofList_toList]

theorem isJson_ofFloat (f : PyFloat) :
    isJson (ofFloat f) = (decide (f = .nan) || f.isFinite) := by
  cases f <;> rfl

/-- A value that can be stored, entry by entry. -/
theorem isJsonEntries_iff {entries : List (String × PyValue)} :
    isJsonEntries entries = true ↔
      (∀ k ∈ entries.map (·.1), isClean k = true) ∧ ∀ e ∈ entries, isJson e.2 = true := by
  induction entries with
  | nil => simp [isJsonEntries]
  | cons e rest ih =>
    obtain ⟨k, v⟩ := e
    simp only [isJsonEntries, Bool.and_eq_true, ih, List.map_cons, List.forall_mem_cons]
    exact ⟨fun ⟨⟨hk, hv⟩, hks, hvs⟩ => ⟨⟨hk, hks⟩, hv, hvs⟩,
      fun ⟨⟨hk, hks⟩, hv, hvs⟩ => ⟨⟨hk, hv⟩, hks, hvs⟩⟩

/-! ## 4. What is made of a value -/

/-- What is made of the items of a collection, said of the collection. -/
theorem collection_spec {items : List PyValue} {r : Except Raised PyValue}
    (h : r = do
      let items ← toJsonableItems items
      .ok (.list items))
    (hends : endsItems items = true ↔ ∃ js, toJsonableItems items = .ok js)
    (hbounded : ∀ js, toJsonableItems items = .ok js →
      (isJsonItems js = true ↔ boundedItems items = true)) :
    (endsItems items = true ↔ ∃ j, r = .ok j) ∧
      ∀ j, r = .ok j → (isJson j = true ↔ boundedItems items = true) := by
  subst h
  refine ⟨hends.trans ⟨?_, ?_⟩, fun j hj => ?_⟩
  · rintro ⟨js, hjs⟩
    exact ⟨.list js, by rw [hjs]; rfl⟩
  · rintro ⟨j, hj⟩
    obtain ⟨js, hjs, -⟩ := Except.bind_eq_ok_iff.mp hj
    exact ⟨js, hjs⟩
  · obtain ⟨js, hjs, hj⟩ := Except.bind_eq_ok_iff.mp hj
    cases hj
    exact hbounded js hjs

/-- A result that is there. -/
theorem ok_spec (v : PyValue) {b : Bool} (h : isJson v = b) :
    ((true : Bool) = true ↔ ∃ j, (.ok v : Except Raised PyValue) = .ok j) ∧
      ∀ j, (.ok v : Except Raised PyValue) = .ok j → (isJson j = true ↔ b = true) := by
  refine ⟨⟨fun _ => ⟨v, rfl⟩, fun _ => rfl⟩, fun j hj => ?_⟩
  cases hj
  rw [h]

mutual

/-- A value is made exactly if every scalar ends, and can be stored exactly if it is bounded. -/
theorem toJsonable_spec : ∀ v : PyValue,
    (ends v = true ↔ ∃ j, toJsonable v = .ok j) ∧
      ∀ j, toJsonable v = .ok j → (isJson j = true ↔ bounded v = true)
  | .none | .missing | .bool _ | .npBool _ | .int _ | .npInteger _ => ok_spec _ rfl
  | .float f | .npFloating f => ok_spec _ (isJson_ofFloat f)
  | .str s | .other s => ok_spec _ (isClean_stripNul s)
  | .moment iso => ok_spec _ iso.2
  | .npGeneric item => by
    rw [toJsonable, ends, bounded]
    exact toJsonable_spec item
  | .npExtended => by
    constructor
    · constructor
      · intro h
        cases h
      · rintro ⟨j, hj⟩
        cases hj
    · intro j hj
      cases hj
  | .npArray items | .list items | .tuple items | .set items =>
    collection_spec (by rw [toJsonable]) (toJsonableItems_spec items).1
      (toJsonableItems_spec items).2
  | .dict entries => by
    obtain ⟨hends, hentries⟩ := toJsonableEntries_spec entries
    rw [toJsonable, ends, bounded]
    refine ⟨hends.trans ⟨?_, ?_⟩, fun j hj => ?_⟩
    · rintro ⟨pairs, hpairs⟩
      exact ⟨_, by rw [hpairs]; rfl⟩
    · rintro ⟨j, hj⟩
      obtain ⟨pairs, hpairs, -⟩ := Except.bind_eq_ok_iff.mp hj
      exact ⟨pairs, hpairs⟩
    · obtain ⟨pairs, hpairs, hj⟩ := Except.bind_eq_ok_iff.mp hj
      cases hj
      obtain ⟨hkeys, hkept⟩ := hentries pairs hpairs
      have hclean : ∀ k ∈ (Assoc.fill pairs).map (·.1), isClean k = true := by
        intro k hk
        rw [Assoc.mem_keys_fill, hkeys] at hk
        obtain ⟨e, -, rfl⟩ := List.mem_map.mp hk
        exact isClean_stripNul e.1
      rw [isJson, Bool.and_eq_true, decide_eq_true_eq, isJsonEntries_iff, ← hkept,
        ← Assoc.forall_fill_iff]
      exact ⟨fun h => h.2.2, fun h => ⟨Assoc.nodup_fill, hclean, h⟩⟩

theorem toJsonableItems_spec : ∀ items : List PyValue,
    (endsItems items = true ↔ ∃ js, toJsonableItems items = .ok js) ∧
      ∀ js, toJsonableItems items = .ok js →
        (isJsonItems js = true ↔ boundedItems items = true)
  | [] => by
    refine ⟨⟨fun _ => ⟨[], rfl⟩, fun _ => rfl⟩, fun js hjs => ?_⟩
    cases hjs
    exact Iff.rfl
  | v :: rest => by
    obtain ⟨hv, hvjson⟩ := toJsonable_spec v
    obtain ⟨hrest, hrestjson⟩ := toJsonableItems_spec rest
    rw [toJsonableItems, endsItems, boundedItems, Bool.and_eq_true, Bool.and_eq_true, hv, hrest]
    refine ⟨⟨?_, ?_⟩, fun js hjs => ?_⟩
    · rintro ⟨⟨j, hj⟩, js, hjs⟩
      exact ⟨j :: js, by rw [hj, hjs]; rfl⟩
    · rintro ⟨js, hjs⟩
      obtain ⟨j, hj, hjs⟩ := Except.bind_eq_ok_iff.mp hjs
      obtain ⟨js, hrestjs, -⟩ := Except.bind_eq_ok_iff.mp hjs
      exact ⟨⟨j, hj⟩, js, hrestjs⟩
    · obtain ⟨j, hj, hjs⟩ := Except.bind_eq_ok_iff.mp hjs
      obtain ⟨js, hrestjs, hjs⟩ := Except.bind_eq_ok_iff.mp hjs
      cases hjs
      rw [isJsonItems, Bool.and_eq_true, hvjson j hj, hrestjson js hrestjs]

theorem toJsonableEntries_spec : ∀ entries : List (String × PyValue),
    (endsEntries entries = true ↔ ∃ pairs, toJsonableEntries entries = .ok pairs) ∧
      ∀ pairs, toJsonableEntries entries = .ok pairs →
        (pairs.map (·.1) = entries.map fun e => stripNul e.1) ∧
          (Assoc.KeptAll (fun j => isJson j = true) pairs ↔ boundedEntries entries = true)
  | [] => by
    refine ⟨⟨fun _ => ⟨[], rfl⟩, fun _ => rfl⟩, fun pairs hpairs => ?_⟩
    cases hpairs
    exact ⟨rfl, fun _ => rfl, fun _ => trivial⟩
  | (k, v) :: rest => by
    obtain ⟨hv, hvjson⟩ := toJsonable_spec v
    obtain ⟨hrest, hrestjson⟩ := toJsonableEntries_spec rest
    rw [toJsonableEntries, endsEntries, boundedEntries, Bool.and_eq_true, hv, hrest]
    refine ⟨⟨?_, ?_⟩, fun pairs hpairs => ?_⟩
    · rintro ⟨⟨j, hj⟩, pairs, hpairs⟩
      exact ⟨(stripNul k, j) :: pairs, by rw [hj, hpairs]; rfl⟩
    · rintro ⟨pairs, hpairs⟩
      obtain ⟨j, hj, hpairs⟩ := Except.bind_eq_ok_iff.mp hpairs
      obtain ⟨pairs, hrestpairs, -⟩ := Except.bind_eq_ok_iff.mp hpairs
      exact ⟨⟨j, hj⟩, pairs, hrestpairs⟩
    · obtain ⟨j, hj, hpairs⟩ := Except.bind_eq_ok_iff.mp hpairs
      obtain ⟨pairs, hrestpairs, hpairs⟩ := Except.bind_eq_ok_iff.mp hpairs
      cases hpairs
      obtain ⟨hkeys, hkept⟩ := hrestjson pairs hrestpairs
      refine ⟨by rw [List.map_cons, List.map_cons, hkeys], ?_⟩
      simp only [Assoc.KeptAll, hkeys, hkept, hvjson j hj, Bool.and_eq_true, Bool.or_eq_true,
        decide_eq_true_eq]

end

mutual

/-- **A value that can be stored comes back unchanged.** -/
theorem toJsonable_of_isJson : ∀ v : PyValue, isJson v = true → toJsonable v = .ok v
  | .none, _ | .bool _, _ | .int _, _ => rfl
  | .float f, h => by
    cases f with
    | finite m k => rfl
    | infinite b | nan => cases h
  | .str s, h => by rw [toJsonable, stripNul_of_isClean h]
  | .list items, h => by
    rw [toJsonable, toJsonableItems_of_isJson items h]
    rfl
  | .dict entries, h => by
    rw [isJson, Bool.and_eq_true, decide_eq_true_eq] at h
    rw [toJsonable, toJsonableEntries_of_isJson entries h.2]
    change Except.ok (PyValue.dict (Assoc.fill entries)) = .ok (.dict entries)
    rw [Assoc.fill_of_nodup h.1]

theorem toJsonableItems_of_isJson : ∀ items : List PyValue, isJsonItems items = true →
    toJsonableItems items = .ok items
  | [], _ => rfl
  | v :: rest, h => by
    rw [isJsonItems, Bool.and_eq_true] at h
    rw [toJsonableItems, toJsonable_of_isJson v h.1, toJsonableItems_of_isJson rest h.2]
    rfl

theorem toJsonableEntries_of_isJson : ∀ entries : List (String × PyValue),
    isJsonEntries entries = true → toJsonableEntries entries = .ok entries
  | [], _ => rfl
  | (k, v) :: rest, h => by
    rw [isJsonEntries, Bool.and_eq_true, Bool.and_eq_true] at h
    rw [toJsonableEntries, toJsonable_of_isJson v h.1.2, toJsonableEntries_of_isJson rest h.2,
      stripNul_of_isClean h.1.1]
    rfl

end

/-- What is made of a value can be stored, and comes back unchanged. -/
def Storable (v : PyValue) : Prop :=
  ∃ j, toJsonable v = .ok j ∧ isJson j = true ∧ toJsonable j = .ok j

/-- **What is returned can be stored** exactly if every scalar ends and no infinity is kept; and what
can be stored already comes back unchanged. -/
theorem storable_iff (v : PyValue) :
    (Storable v ↔ ends v = true ∧ bounded v = true) ∧
      ∀ j, isJson j = true → toJsonable j = .ok j := by
  refine ⟨?_, toJsonable_of_isJson⟩
  obtain ⟨hends, hbounded⟩ := toJsonable_spec v
  constructor
  · rintro ⟨j, hj, hjson, -⟩
    exact ⟨hends.mpr ⟨j, hj⟩, (hbounded j hj).mp hjson⟩
  · rintro ⟨hend, hbound⟩
    obtain ⟨j, hj⟩ := hends.mp hend
    have hjson := (hbounded j hj).mpr hbound
    exact ⟨j, hj, hjson, toJsonable_of_isJson j hjson⟩

/-- A float that is infinite, of Python or of NumPy, is returned as it is; a scalar that is its own
`item()` is not returned at all. -/
theorem not_storable_infinity :
    toJsonable (.dict [("ratio", .float (.infinite false))]) =
        .ok (.dict [("ratio", .float (.infinite false))]) ∧
      ¬ Storable (.dict [("ratio", .float (.infinite false))]) ∧
      ¬ Storable (.npFloating (.infinite true)) ∧ ¬ Storable .npExtended := by
  refine ⟨rfl, ?_, ?_, ?_⟩
  · rintro ⟨j, hj, hjson, -⟩
    cases hj
    cases hjson
  · rintro ⟨j, hj, hjson, -⟩
    cases hj
    cases hjson
  · rintro ⟨j, hj, -⟩
    cases hj

example : isJson <$> toJsonable (.dict [("a\x00", .npArray [.npFloating .nan, .npInteger 3]),
    ("b", .tuple [.npBool true, .str "x\x00"])]) = .ok true := by decide +kernel

end Apowerb.Tools.Jsonable
