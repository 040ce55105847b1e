/-
# The fields of an output, before the run and after it

`_output_form` of `core/workflow_graph.py` says what a node gives before it runs, and
`validate_graph` refuses a template that reads another field.  The bodies of the nodes say it once
more, each in its own way: this file compares the two.

* `body_fits`: what a body returns has the fields that were announced.
* `body_leaves`: what a failure leaves behind has the fields of a success, so that
  `_ERROR_OUTPUT_KEYS` are all that a failure that is absorbed adds.
* `reference_accepted`: a field that an output has is never refused, with two exceptions.  The name
  `route` is, below a node that routes, whatever the node received; and nothing is said here of the
  error that an `extract` gives on when its failure is absorbed.
-/
import Apowerb.Convert.Values
import Apowerb.Engine.Machine
import Apowerb.Lib.Path
import Apowerb.Lib.Yields

namespace Apowerb.Engine

open Graph

/-! ## 1. What the services reply -/

/-- The result of `_search_rag`. -/
def ragResult (query : String) (passages : List Value) : Value :=
  .dict [("query", .str query), ("passages", .list passages)]

/-- The result of `_read_capped_response`. -/
def httpResponse (status : Int) (headers : Dict) (body : Value) : Value :=
  .dict [("status", .int status), ("headers", .dict headers), ("body", body)]

/-- What a search and a request return, and what a service raises: only a `tool` and an `http` hang
a result on a failure, and they do so after the service has returned. -/
def Truthful (e : Event) (r : Reply e) : Prop :=
  match e, r with
  | .ask (.runBody ..), _ => True
  | .ask _, .error f => f.partialResult = none
  | .ask (.rag _ query _), .ok v => ∃ passages, v = ragResult query passages
  | .ask (.http ..), .ok v => ∃ status headers body, v = httpResponse status headers body
  | _, _ => True

/-! ## 2. Outputs that fit -/

/-- Every field is among the keys. -/
def Within (keys : List String) (v : Value) : Prop :=
  ∀ d, v = .dict d → ∀ k ∈ d.map Prod.fst, k ∈ keys

/-- An output is of a form. -/
def Fits : OutputForm → Value → Prop
  | .scalar, v => v.isDict = false
  | .known keys, v => Within keys v
  | .unknown, _ => True

theorem within_of_keys {keys : List String} {d : Dict} (h : d.map Prod.fst ⊆ keys) :
    Within keys (.dict d) := by
  intro d' hd
  cases hd
  exact h

theorem Within.mono {keys keys' : List String} {v : Value} (h : Within keys v)
    (hsub : keys ⊆ keys') : Within keys' v :=
  fun d hd k hk => hsub (h d hd k hk)

/-! ## 3. What the bodies return -/

section Bodies

variable {c : Compiler} {n : Node}

theorem lift_yields {α : Type} {Q : α → Prop} {x : Except Raised α} (h : ∀ a, x = .ok a → Q a) :
    (lift x).Yields Truthful Q :=
  .ofExcept_mapError h

theorem unrouted_yields {Q : Value → Prop} {work : Work Value} (h : work.Yields Truthful Q) :
    (unrouted work).Yields Truthful fun out => Q out.1 :=
  .bind h fun _ hv => hv

theorem ragBody_yields : (ragBody c.host n).Yields Truthful (Within ["query", "passages"]) := by
  refine .after fun template => .after fun query => .after fun text => .after fun _ => ?_
  refine .after fun agentId reply hreply => ?_
  cases reply with
  | error f => trivial
  | ok v =>
    obtain ⟨passages, rfl⟩ := hreply
    exact within_of_keys (List.Subset.refl _)

theorem perform_yields {Q : Value → Prop} {request : Request}
    (h : ∀ v, Truthful (.ask request) (.ok v : Except Failure Value) → Q v) :
    (perform request).Yields Truthful Q := by
  intro reply hreply
  cases reply with
  | error f => trivial
  | ok v => exact h v hreply

theorem httpBody_yields :
    (httpBody c.host n).Yields Truthful (Within ["status", "headers", "body"]) := by
  refine .after fun method => .after fun template => .after fun url => .after fun text => ?_
  refine .after fun items => .after fun headers => .after fun content => ?_
  refine .bind (perform_yields fun v hv => hv) fun response hresponse => .after fun status => ?_
  split
  · trivial
  · obtain ⟨code, fields, body, rfl⟩ := hresponse
    exact within_of_keys (List.Subset.refl _)

theorem notificationBody_yields :
    (notificationBody c.host n).Yields Truthful (Within ["channel", "sent"]) := by
  refine .after fun channel => .after fun templates => .after fun rendered => ?_
  refine .after fun recipients => .after fun subject => .after fun _ => ?_
  refine .after fun message => .after fun _ => .after fun _ => .after fun refs => ?_
  refine .after fun sent => ?_
  exact within_of_keys (List.Subset.refl _)

theorem readDocuments_yields :
    (readDocuments c.host n).Yields Truthful (Within ["documents", "text", "count"]) := by
  refine .after fun _ => .after fun files => .after fun value => .after fun refs => ?_
  refine .after fun documents => .after fun text => ?_
  exact within_of_keys (List.Subset.refl _)

theorem dbWrite_yields :
    (dbWrite c.host n).Yields Truthful (Within ["table", "inserted"]) := by
  refine .after fun _ => .after fun columns => .after fun row => .after fun connection => ?_
  refine .after fun table => .after fun result => .after fun inserted => ?_
  exact within_of_keys (List.Subset.refl _)

theorem makeFile_yields : (makeFile c.host n).Yields Truthful
    (Within ["name", "ref", "size", "content_type", "format", "rows"]) := by
  refine .after fun _ => .after fun format => .after fun content => .after fun value => ?_
  refine .after fun rendered => .after fun built => .after fun _ => .after fun _ => ?_
  refine .after fun type => .after fun stored => .after fun name => .after fun ref => ?_
  refine .after fun size => ?_
  exact within_of_keys (List.Subset.refl _)

theorem saveToDrive_yields : (saveToDrive c.host n).Yields Truthful
    (Within ["provider", "name", "path", "web_url"]) := by
  refine .after fun _ => .after fun file => .after fun value => ?_
  split
  · trivial
  · refine .after fun rendered => .after fun folder => .after fun provider => ?_
    refine .after fun result => .after fun name => .after fun path => .after fun url => ?_
    exact within_of_keys (List.Subset.refl _)

theorem approvalBody_yields : (approvalBody c n).Yields Truthful fun out =>
    Within ["choice", "text", "answered_by", "answered_at"] out.1 := by
  unfold approvalBody
  split
  · trivial
  · split
    · exact within_of_keys (List.Subset.refl _)
    · exact .after fun question => .after fun _ => .after fun prompt => trivial

theorem mergeBody_yields (input : Value) :
    (mergeBody c.graph n input).Yields Truthful (Within (c.graph.parents n.id)) := by
  refine .after fun received => within_of_keys ?_
  intro k hk
  rw [List.map_map] at hk
  obtain ⟨id, hid, rfl⟩ := List.mem_map.mp hk
  have hsource := List.mem_dedup.mp ((List.perm_insertionSort _ _).mem_iff.mp hid)
  exact List.mem_dedup.mpr hsource

/-- The fields of a `set` or of an `extract`, each with its name. -/
def Named (n : Node) (key : String) (items : List Value) : Prop :=
  n.config.get "fields" = .list items ∧
    ∀ f ∈ items, ∃ d k, f = .dict d ∧ Dict.get d key = .str k

theorem Named.mem_fieldNames {key name : String} {items : List Value} {d : Dict}
    (h : Named n key items) (hd : .dict d ∈ items) (hname : Dict.get d key = .str name) :
    name ∈ fieldNames n key := by
  unfold fieldNames
  rw [h.1]
  refine List.mem_filterMap.mpr ⟨.dict d, hd, ?_⟩
  dsimp only
  rw [hname]
  rfl

theorem of_str? {v : Value} {s : String} (h : v.str? = some s) : v = .str s := by
  cases v with
  | str s' =>
    cases h
    rfl
  | _ => cases h

/-- What yields dictionaries is a list. -/
theorem iter_dicts {v : Value} {items : List Value} (h : v.iter = .ok items)
    (htruthy : v.truthy = true) (hdicts : ∀ f ∈ items, f.isDict = true) : v = .list items := by
  cases v with
  | list items' =>
    cases h
    rfl
  | dict entries =>
    cases h
    cases entries with
    | nil => cases htruthy
    | cons e rest => cases hdicts (.str e.1) List.mem_cons_self
  | str s =>
    cases h
    cases hs : s.toList with
    | nil =>
      rw [String.toList_eq_nil_iff.mp hs] at htruthy
      cases htruthy
    | cons ch rest =>
      rw [hs] at hdicts
      cases hdicts (.str (String.singleton ch)) List.mem_cons_self
  | _ => cases h

theorem named_of_validateSet (h : validateSet n = .ok ()) : ∃ items, Named n "key" items := by
  unfold validateSet at h
  dsimp only at h
  obtain ⟨_, htruthy, h⟩ := Except.bind_eq_ok_iff.mp h
  rw [refuse_eq_ok_iff, not_not] at htruthy
  obtain ⟨fields, hiter, h⟩ := Except.bind_eq_ok_iff.mp h
  have hfields : (n.config.get "fields").orElse (.list []) = n.config.get "fields" := by
    unfold Value.orElse at htruthy ⊢
    split
    · rfl
    · rename_i hfalsy
      rw [if_neg hfalsy] at htruthy
      cases htruthy
  rw [hfields] at hiter
  split at h
  · cases h
  · rename_i keys hkeys
    have hnamed : ∀ f ∈ fields, ∃ d k, f = .dict d ∧ Dict.get d "key" = .str k := by
      intro f hf
      obtain ⟨k, hk⟩ := exists_of_mapM_some hkeys hf
      split at hk
      · rename_i d
        exact ⟨d, k, rfl, of_str? (Option.filter_eq_some_iff.mp hk).1⟩
      · cases hk
    refine ⟨fields, ?_, hnamed⟩
    rw [hfields] at htruthy
    exact iter_dicts hiter htruthy fun f hf => by
      obtain ⟨d, k, rfl, -⟩ := hnamed f hf
      rfl

theorem named_of_checkExtractFields {names : List String} {items : List Value}
    (h : checkExtractFields n names items = .ok ()) :
    ∀ f ∈ items, ∃ d k, f = .dict d ∧ Dict.get d "name" = .str k := by
  induction items generalizing names with
  | nil => exact fun f hf => absurd hf List.not_mem_nil
  | cons first rest ih =>
    cases first with
    | dict field =>
      rw [checkExtractFields] at h
      split at h
      · rename_i name hname
        obtain ⟨_, _, h⟩ := Except.bind_eq_ok_iff.mp h
        obtain ⟨_, _, h⟩ := Except.bind_eq_ok_iff.mp h
        obtain ⟨_, _, h⟩ := Except.bind_eq_ok_iff.mp h
        intro f hf
        rcases List.mem_cons.mp hf with rfl | hf
        · exact ⟨field, name, rfl, hname⟩
        · exact ih h f hf
      · cases h
    | _ => cases h

theorem named_of_validateExtractFields (h : validateExtractFields n = .ok ()) :
    ∃ items, Named n "name" items := by
  unfold validateExtractFields at h
  split at h
  · rename_i items hitems
    obtain ⟨_, _, h⟩ := Except.bind_eq_ok_iff.mp h
    exact ⟨items, hitems, named_of_checkExtractFields h⟩
  · cases h

/-- The fields that a body goes through are those of the configuration. -/
theorem fields_of_named {key : String} {items fields : List Value} (h : Named n key items)
    (hfields : (field n "fields" >>= Value.iter) = .ok fields) : fields = items := by
  obtain ⟨v, hv, hiter⟩ := Except.bind_eq_ok_iff.mp hfields
  rw [← field_eq_get hv, h.1] at hiter
  cases hiter
  rfl

theorem item_of_get {d : Dict} {key name : String} {v : Value} (h : (Value.dict d).item key = .ok v)
    (hname : Dict.get d key = .str name) : v = .str name := by
  unfold Value.item at h
  dsimp only at h
  split at h
  · rename_i hlookup
    cases h
    unfold Dict.get at hname
    rw [hlookup] at hname
    exact hname
  · cases h

theorem setBody_yields (h : validateSet n = .ok ()) :
    (setBody n).Yields Truthful (Within (fieldNames n "key")) := by
  obtain ⟨items, hnamed⟩ := named_of_validateSet h
  refine .bind (lift_yields fun _ hfields => fields_of_named hnamed hfields) fun fields hf => ?_
  subst hf
  have hfield : ∀ f ∈ fields, (setField n f).Yields Truthful fun e => e.1 ∈ fieldNames n "key" := by
    intro f hf
    obtain ⟨d, name, rfl, hname⟩ := hnamed.2 f hf
    refine .bind (lift_yields fun v hv => item_of_get hv hname) fun key hkey => ?_
    subst hkey
    refine .after fun template => .after fun value => ?_
    exact hnamed.mem_fieldNames hf hname
  refine .bind (.each hfield) fun entries hentries => within_of_keys ?_
  intro k hk
  obtain ⟨e, he, rfl⟩ := List.mem_map.mp hk
  exact hentries e he

theorem extractFields_keys {parsed : Dict} {items : List Value} {d : Dict}
    (h : extractFields n parsed items = .ok d) :
    ∀ k ∈ d.map Prod.fst, ∃ f ∈ items, ∃ v, f.item "name" = .ok v ∧ v.text = k := by
  induction items generalizing d with
  | nil =>
    cases h
    exact fun k hk => absurd hk List.not_mem_nil
  | cons f rest ih =>
    rw [extractFields] at h
    obtain ⟨name, hname, h⟩ := Except.bind_eq_ok_iff.mp h
    obtain ⟨type, -, h⟩ := Except.bind_eq_ok_iff.mp h
    obtain ⟨required, -, h⟩ := Except.bind_eq_ok_iff.mp h
    rw [Except.mapError_eq_ok_iff] at hname
    have hrest : ∃ d', extractFields n parsed rest = .ok d' ∧
        d = (name.text, Dict.get parsed name.text) :: d' := by
      dsimp only at h
      split at h
      · split at h
        · cases h
        · obtain ⟨d', hd', h⟩ := Except.bind_eq_ok_iff.mp h
          cases h
          exact ⟨d', hd', rfl⟩
      · split at h
        · cases h
        · obtain ⟨d', hd', h⟩ := Except.bind_eq_ok_iff.mp h
          cases h
          exact ⟨d', hd', rfl⟩
    obtain ⟨d', hd', rfl⟩ := hrest
    intro k hk
    rcases List.mem_cons.mp hk with rfl | hk
    · exact ⟨f, List.mem_cons_self, name, hname, rfl⟩
    · obtain ⟨g, hg, hkey⟩ := ih hd' k hk
      exact ⟨g, List.mem_cons_of_mem f hg, hkey⟩

theorem extractBody_yields (h : validateExtractFields n = .ok ()) (input : Value) :
    (extractBody c.host n input).Yields Truthful (Within (fieldNames n "name")) := by
  obtain ⟨items, hnamed⟩ := named_of_validateExtractFields h
  refine .after fun value => .after fun text => ?_
  refine .bind (lift_yields fun _ hfields => fields_of_named hnamed hfields) fun fields hf => ?_
  subst hf
  refine .after fun prompt => .after fun agentId => .after fun answer => ?_
  refine .ofExcept fun v hv => ?_
  unfold extractResult at hv
  split at hv
  · obtain ⟨d, hd, hv⟩ := Except.bind_eq_ok_iff.mp hv
    cases hv
    refine within_of_keys fun k hk => ?_
    obtain ⟨f, hf, name, hname, rfl⟩ := extractFields_keys hd k hk
    obtain ⟨field, text, rfl, htext⟩ := hnamed.2 f hf
    rw [item_of_get hname htext]
    exact hnamed.mem_fieldNames hf htext
  · cases hv

theorem convertBody_yields {py : Convert.Interpreter}
    (hconvert : c.host.convertValue = Convert.hostConvert py) (input : Value)
    (hscalar : (n.config.get "to").oneOf ["text", "number", "boolean", "date"] = true) :
    (convertBody c.host n input).Yields Truthful fun v => v.isDict = false := by
  refine .after fun value => ?_
  refine .bind (lift_yields fun target htarget => field_eq_get htarget) fun target htarget => ?_
  subst htarget
  refine lift_yields fun v hv => ?_
  rw [Except.mapError_eq_ok_iff, hconvert] at hv
  exact Convert.hostConvert_scalar hv hscalar

/-- A success has the fields of a success, whether or not those of a failure are announced too. -/
theorem fits_fixed {p : Prop} [Decidable p] {keys : List String} {v : Value} (h : Within keys v) :
    Fits (if p then .known (keys ++ errorOutputKeys) else .known keys) v := by
  split
  · exact h.mono (List.subset_append_left _ _)
  · exact h

/-- **What a body returns is of the form that was announced.** -/
theorem body_fits {py : Convert.Interpreter}
    (hconvert : c.host.convertValue = Convert.hostConvert py)
    {readBody : Dict → Except Raised WorkflowGraph} {ctx : Context}
    (hvalid : validateNode readBody ctx n = .ok ()) (input : Value) :
    (body c n input).Yields Truthful fun out => Fits (outputForm n c.graph) out.1 := by
  have hunknown {work : Work (Value × Option Value)} :
      work.Yields Truthful fun out => Fits .unknown out.1 :=
    .mono (Prog.yields_true work) fun _ _ => trivial
  unfold validateNode at hvalid
  unfold body outputForm
  cases htype : n.type with
  | convert =>
    dsimp only
    split
    · exact unrouted_yields (convertBody_yields hconvert input ‹_›)
    · exact hunknown
  | merge => exact unrouted_yields (mergeBody_yields input)
  | set =>
    rw [htype] at hvalid
    exact unrouted_yields (setBody_yields hvalid)
  | extract =>
    rw [htype] at hvalid
    obtain ⟨_, _, hfields⟩ := Except.bind_eq_ok_iff.mp hvalid
    obtain ⟨_, _, hfields⟩ := Except.bind_eq_ok_iff.mp hfields
    exact unrouted_yields (extractBody_yields hfields input)
  | rag => exact unrouted_yields (ragBody_yields.mono fun _ => fits_fixed)
  | http => exact unrouted_yields (httpBody_yields.mono fun _ => fits_fixed)
  | notification => exact unrouted_yields (notificationBody_yields.mono fun _ => fits_fixed)
  | document => exact unrouted_yields (readDocuments_yields.mono fun _ => fits_fixed)
  | dbWrite => exact unrouted_yields (dbWrite_yields.mono fun _ => fits_fixed)
  | file => exact unrouted_yields (makeFile_yields.mono fun _ => fits_fixed)
  | fileSave => exact unrouted_yields (saveToDrive_yields.mono fun _ => fits_fixed)
  | approval => exact approvalBody_yields.mono fun _ => fits_fixed
  | _ => exact hunknown

/-! ## 4. What a failure leaves behind -/

/-- The partial result of a failure, if it has one, has no other field than these. -/
def Leaves (keys : List String) (stop : Stop) : Prop :=
  ∀ f v, stop = .failed f → f.partialResult = some v → Within keys v

variable {keys : List String}

theorem leaves_of_none {f : Failure} (h : f.partialResult = none) : Leaves keys (.failed f) := by
  intro f' v hf hv
  cases hf
  rw [h] at hv
  cases hv

theorem leaves_raise (e : Raised) : Leaves keys (.raise e) := leaves_of_none rfl

theorem raise_leaves {α : Type} (e : Raised) :
    (raise e : Work α).Raises Truthful (Leaves keys) :=
  leaves_raise e

theorem lift_leaves {α : Type} (x : Except Raised α) : (lift x).Raises Truthful (Leaves keys) :=
  .ofExcept_mapError fun e _ => leaves_raise e

theorem perform_leaves {request : Request}
    (h : ∀ f, Truthful (.ask request) (.error f : Except Failure Value) → f.partialResult = none) :
    (perform request).Raises Truthful (Leaves keys) := by
  intro reply hreply
  cases reply with
  | error f => exact leaves_of_none (h f hreply)
  | ok v => trivial

section Render

variable (scope : Dict) (nodeId : String)

theorem spend_leaves (left k : Nat) : (spend nodeId left k).Raises Truthful (Leaves keys) := by
  unfold spend
  split
  · trivial
  · exact raise_leaves _

theorem lookup_leaves (ref path : String) :
    (lookup scope nodeId ref path).Raises Truthful (Leaves keys) := by
  refine .after ?_ fun found => ?_
  · unfold output?
    split
    · trivial
    · exact fun _ _ => trivial
  · split
    · exact lift_leaves _
    · trivial

theorem renderText_leaves (left : Nat) (template : String) :
    (renderText scope nodeId left template).Raises Truthful (Leaves keys) := by
  unfold renderText
  split
  · exact .after (lookup_leaves scope nodeId _ _) fun _ =>
      .after (spend_leaves nodeId _ _) fun _ => trivial
  · refine .after (.fold fun rendered piece _ => ?_) fun _ => trivial
    cases piece with
    | literal text => exact .after (spend_leaves nodeId _ _) fun _ => trivial
    | ref id path =>
      refine .after (lookup_leaves scope nodeId id path) fun v => ?_
      split
      · trivial
      · exact .after (lift_leaves _) fun _ => .after (spend_leaves nodeId _ _) fun _ => trivial

mutual

theorem renderValue_leaves (left : Nat) : ∀ template : Value,
    (renderValue scope nodeId left template).Raises Truthful (Leaves keys)
  | .str s => renderText_leaves scope nodeId left s
  | .list items => .after (renderItems_leaves left items) fun _ => trivial
  | .dict entries => .after (renderEntries_leaves left entries) fun _ => trivial
  | .null => trivial
  | .bool _ => trivial
  | .int _ => trivial
  | .float .. => trivial
  | .object _ => trivial

theorem renderItems_leaves (left : Nat) : ∀ items : List Value,
    (renderItems scope nodeId left items).Raises Truthful (Leaves keys)
  | [] => trivial
  | v :: rest => .after (renderValue_leaves left v) fun _ =>
      .after (renderItems_leaves _ rest) fun _ => trivial

theorem renderEntries_leaves (left : Nat) : ∀ entries : List (String × Value),
    (renderEntries scope nodeId left entries).Raises Truthful (Leaves keys)
  | [] => trivial
  | (_, v) :: rest => .after (renderValue_leaves left v) fun _ =>
      .after (renderEntries_leaves _ rest) fun _ => trivial

end

theorem render_leaves (template : Value) :
    (render scope nodeId template).Raises Truthful (Leaves keys) :=
  .after (renderValue_leaves scope nodeId _ template) fun _ => trivial

end Render

theorem unrouted_leaves {work : Work Value} (h : work.Raises Truthful (Leaves keys)) :
    (unrouted work).Raises Truthful (Leaves keys) :=
  .after h fun _ => trivial

theorem ragBody_leaves : (ragBody c.host n).Raises Truthful (Leaves keys) := by
  refine .after (lift_leaves _) fun template => .after (render_leaves _ _ _) fun query => ?_
  refine .after (lift_leaves _) fun text => .after (lift_leaves _) fun _ => ?_
  refine .after (lift_leaves _) fun agentId reply hreply => ?_
  cases reply with
  | ok v => trivial
  | error f =>
    change Leaves keys (ragError n f)
    unfold ragError
    split
    · split
      · exact leaves_of_none rfl
      · exact leaves_of_none hreply
    · exact leaves_of_none hreply

theorem renderedHeader_leaves (h : Value) :
    (renderedHeader c.host n h).Raises Truthful (Leaves keys) := by
  refine .after (lift_leaves _) fun _ => .after (render_leaves _ _ _) fun key => ?_
  refine .after (lift_leaves _) fun _ => .after (render_leaves _ _ _) fun value => ?_
  refine .after (lift_leaves _) fun key => .after (lift_leaves _) fun value => ?_
  exact .after (lift_leaves _) fun _ => trivial

theorem httpContent_leaves : (httpContent n).Raises Truthful (Leaves keys) := by
  unfold httpContent
  split
  · trivial
  · refine .after (render_leaves _ _ _) fun v => ?_
    split
    · trivial
    · trivial
    · trivial
    · exact .after (lift_leaves _) fun _ => trivial

/-- **The response that an `http` hangs on its failure has the fields of a response.** -/
theorem httpBody_leaves :
    (httpBody c.host n).Raises Truthful (Leaves ["status", "headers", "body"]) := by
  refine .after (lift_leaves _) fun method => .after (lift_leaves _) fun template => ?_
  refine .after (render_leaves _ _ _) fun url => .after (lift_leaves _) fun text => ?_
  refine .after (lift_leaves _) fun items => ?_
  refine .after (.each fun h _ => renderedHeader_leaves h) fun headers => ?_
  refine .after httpContent_leaves fun content => ?_
  refine .bind (perform_leaves fun f hf => hf) (perform_yields fun v hv => hv)
    fun response hresponse => .after (lift_leaves _) fun status => ?_
  split
  · intro f v hf hv
    cases hf
    cases hv
    obtain ⟨code, fields, body, rfl⟩ := hresponse
    exact within_of_keys (List.Subset.refl _)
  · trivial

theorem attachmentRefs_leaves : (attachmentRefs n).Raises Truthful (Leaves keys) := by
  unfold attachmentRefs
  dsimp only
  split
  · refine .after (render_leaves _ _ _) fun v => .after (lift_leaves _) fun refs => ?_
    exact .after (lift_leaves _) fun _ => trivial
  · trivial

theorem notificationBody_leaves : (notificationBody c.host n).Raises Truthful (Leaves keys) := by
  refine .after (lift_leaves _) fun channel => .after (lift_leaves _) fun templates => ?_
  refine .after (.each fun template _ => render_leaves _ _ _) fun rendered => ?_
  refine .after (lift_leaves _) fun recipients => .after (render_leaves _ _ _) fun _ => ?_
  refine .after (lift_leaves _) fun subject => .after (render_leaves _ _ _) fun _ => ?_
  refine .after (lift_leaves _) fun message => .after (lift_leaves _) fun _ => ?_
  refine .after attachmentRefs_leaves fun refs => ?_
  exact .after (perform_leaves fun f hf => hf) fun sent => trivial

theorem readDocuments_leaves : (readDocuments c.host n).Raises Truthful (Leaves keys) := by
  refine .after (lift_leaves _) fun _ => .after (lift_leaves _) fun files => ?_
  refine .after (render_leaves _ _ _) fun value => .after (lift_leaves _) fun refs => ?_
  refine .after (.each fun ref _ => ?_) fun documents => .after (lift_leaves _) fun text => trivial
  refine .after (perform_leaves fun f hf => hf) fun doc => .after (lift_leaves _) fun name => ?_
  exact .after (lift_leaves _) fun text => .after (lift_leaves _) fun pages => trivial

theorem dbWrite_leaves : (dbWrite c.host n).Raises Truthful (Leaves keys) := by
  refine .after (lift_leaves _) fun _ => .after (lift_leaves _) fun columns => ?_
  refine .after (.each fun column _ => .after (render_leaves _ _ _) fun _ => trivial) fun row => ?_
  refine .after (lift_leaves _) fun connection => .after (lift_leaves _) fun table => ?_
  refine .after (perform_leaves fun f hf => hf) fun result => ?_
  exact .after (lift_leaves _) fun inserted => trivial

/-- **A failure leaves nothing behind but fields of a success.** -/
theorem body_leaves (hkeys : fixedOutputKeys n.type = some keys) (herror : n.type ∈ onErrorTypes)
    (input : Value) : (body c n input).Raises Truthful (Leaves keys) := by
  unfold body
  cases htype : n.type with
  | rag => exact unrouted_leaves ragBody_leaves
  | http =>
    rw [htype] at hkeys
    cases hkeys
    exact unrouted_leaves httpBody_leaves
  | notification => exact unrouted_leaves notificationBody_leaves
  | document => exact unrouted_leaves readDocuments_leaves
  | dbWrite => exact unrouted_leaves dbWrite_leaves
  | file =>
    rw [htype] at herror
    exact absurd herror (by decide)
  | fileSave =>
    rw [htype] at herror
    exact absurd herror (by decide)
  | approval =>
    rw [htype] at herror
    exact absurd herror (by decide)
  | _ =>
    rw [htype] at hkeys
    cases hkeys

theorem attempt_yields {Q : Value → Prop} {input : Value}
    (h : (body c n input).Yields Truthful fun out => Q out.1) :
    (attempt c n input).Yields Truthful fun out => Q out.1 := by
  refine .bind (Q := fun out => Q out.1) ?_ fun out hout => .after fun _ => ?_
  · unfold timed
    split
    · exact h
    · intro late _
      dsimp only
      split
      · trivial
      · exact h
  · exact hout

theorem attempt_leaves {input : Value}
    (h : (body c n input).Raises Truthful (Leaves keys)) :
    (attempt c n input).Raises Truthful (Leaves keys) := by
  refine .after ?_ fun out => .after (lift_leaves _) fun _ => trivial
  unfold timed
  split
  · exact h
  · intro late _
    dsimp only
    split
    · exact raise_leaves _
    · exact h

end Bodies

/-! ## 5. A firing -/

section Fire

variable {r : Setting} {n : Node} {input : Value} {outputs : Dict}

theorem truthful_answers {world : Prog.Handler Reply} (h : ∀ past e, Truthful e (world past e))
    (past : List (Sigma Reply)) (e : Event) : Truthful e (answers world outputs past e) := by
  cases e with
  | look id => trivial
  | ask request => exact h past (.ask request)
  | resolve id => exact h past (.resolve id)
  | expires seconds => exact h past (.expires seconds)

theorem capped_eq_ok {out out' : Value × Option Value} (h : capped n out = .ok out') :
    out = out' := by
  unfold capped at h
  dsimp only at h
  split at h
  · cases h
  · cases h
    rfl

/-- An output is what the body returned, or what a failure that was absorbed gives on. -/
theorem of_fire {v : Value} {route : Option Value}
    (h : (r.fire n input outputs).result = .ok (v, route)) :
    (attempt r.compiler n input).run (answers (r.world n.id) outputs) [] = .ok (v, route) ∨
    ∃ f, (attempt r.compiler n input).run (answers (r.world n.id) outputs) [] = .error (.failed f) ∧
      handled r.compiler.host n f = some (v, route) ∧ (r.fire n input outputs).absorbed ≠ none := by
  unfold Setting.fire at h ⊢
  cases hrun : (attempt r.compiler n input).run (answers (r.world n.id) outputs) [] with
  | ok out =>
    rw [hrun] at h
    exact Or.inl (congrArg Except.ok (capped_eq_ok h))
  | error stop =>
    rw [hrun] at h
    cases stop with
    | awaiting prompt => cases h
    | failed f =>
      refine Or.inr ⟨f, rfl, ?_⟩
      unfold wrap at h ⊢
      dsimp only at h ⊢
      cases hhandled : handled r.compiler.host n f with
      | none =>
        rw [hhandled] at h
        cases h
      | some out =>
        rw [hhandled] at h
        obtain rfl := capped_eq_ok h
        exact ⟨rfl, by simp⟩

/-- What a failure gives on: its partial result, or its description. -/
theorem handled_within {keys : List String} {host : Host} {f : Failure}
    {out : Value × Option Value} (hleaves : Leaves keys (.failed f))
    (h : handled host n f = some out) : Within (keys ++ errorOutputKeys) out.1 := by
  have herror : Within (keys ++ errorOutputKeys) (.dict (errorOutput host f (some n.id))) :=
    within_of_keys (List.subset_append_right keys errorOutputKeys)
  unfold handled at h
  dsimp only at h
  split at h
  · cases h
  split at h
  · cases h
  · cases h
    exact herror
  · split at h
    · cases h
    · cases h
      cases hpartial : f.partialResult with
      | none => exact herror
      | some v => exact (hleaves f v rfl hpartial).mono (List.subset_append_left _ _)

theorem mem_onErrorTypes {n : Node} (h : onError n ≠ .fail) : n.type ∈ onErrorTypes := by
  unfold onError at h
  split at h
  · assumption
  · exact absurd rfl h

theorem outputForm_fixed {keys : List String} (graph : WorkflowGraph)
    (h : fixedOutputKeys n.type = some keys) : outputForm n graph =
      if n.type ∈ onErrorTypes ∧ onError n ≠ .fail then .known (keys ++ errorOutputKeys)
      else .known keys := by
  unfold outputForm
  cases htype : n.type <;> rw [htype] at h <;> cases h <;> rfl

/-- **An output is of the form that was announced**, the absorbed failure of an `extract` apart. -/
theorem fire_fits {py : Convert.Interpreter}
    (hconvert : r.compiler.host.convertValue = Convert.hostConvert py)
    (hworld : ∀ past e, Truthful e (r.world n.id past e))
    {readBody : Dict → Except Raised WorkflowGraph} {ctx : Context}
    (hvalid : validateNode readBody ctx n = .ok ()) {v : Value} {route : Option Value}
    (hfire : (r.fire n input outputs).result = .ok (v, route))
    (hextract : n.type = .extract → (r.fire n input outputs).absorbed = none) :
    Fits (outputForm n r.graph) v := by
  have hanswers : ∀ past e, Truthful e (answers (r.world n.id) outputs past e) :=
    truthful_answers hworld
  rcases of_fire hfire with hrun | ⟨f, hrun, hhandled, habsorbed⟩
  · exact Prog.of_run (attempt_yields (body_fits hconvert hvalid input)) hanswers hrun
  · have hfail : onError n ≠ .fail := by
      intro hfail
      unfold handled at hhandled
      rw [hfail] at hhandled
      dsimp only at hhandled
      split at hhandled <;> cases hhandled
    have herror := mem_onErrorTypes hfail
    cases hkeys : fixedOutputKeys n.type with
    | some keys =>
      rw [outputForm_fixed r.graph hkeys, if_pos ⟨herror, hfail⟩]
      have hleaves :=
        Prog.raised_of_run (attempt_leaves (body_leaves hkeys herror input)) hanswers hrun
      exact handled_within hleaves hhandled
    | none =>
      -- An agent, a tool, a classifier or a subworkflow: nothing is announced.
      unfold outputForm
      cases htype : n.type with
      | extract => exact absurd (hextract htype) habsorbed
      | agent => trivial
      | tool => trivial
      | classifier => trivial
      | subworkflow => trivial
      | _ =>
        rw [htype] at herror hkeys
        first | exact absurd herror (by decide) | cases hkeys

end Fire

/-! ## 6. The check of a path -/

/-- What `validate_graph` asks of the path of a reference. -/
def checkPath (graph : WorkflowGraph) (m : Node) (ref path : String) : Except Raised Unit :=
  match graph.find? ref with
  | some target => checkTemplatePath m.id ref path target graph
  | none => .error (.other "KeyError")

/-- The nodes that keep the name `route` for themselves. -/
def routingTypes : List NodeType := [.router, .classifier, .condition, .tryBody]

theorem firstSegment_key {k : String} (hempty : k ≠ "") (hdot : '.' ∉ k.toList) :
    firstSegment ("." ++ k) = some k := by
  have hchars : k.toList ≠ [] := fun hnil => hempty (String.toList_eq_nil_iff.mp hnil)
  have hsplit : ("." ++ k).toList.splitOn '.' = [[], k.toList] := by
    rw [String.toList_append]
    exact (List.splitOn_append_cons_self [] k.toList).trans (by rw [Path.split_plain hdot]; rfl)
  unfold firstSegment
  rw [hsplit]
  simp [hchars]

theorem checkTemplatePath_of_fits {graph : WorkflowGraph} {n : Node} {d : Dict} {k nodeId : String}
    (h : Fits (outputForm n graph) (.dict d)) (hk : k ∈ d.map Prod.fst) (hdot : '.' ∉ k.toList)
    (hroute : ¬ (n.type ∈ routingTypes ∧ k = "route")) :
    checkTemplatePath nodeId n.id ("." ++ k) n graph = .ok () := by
  unfold checkTemplatePath
  by_cases hempty : k = ""
  · subst hempty
    rfl
  · rw [firstSegment_key hempty hdot]
    refine Except.bind_eq_ok_iff.mpr ⟨(), refuse_eq_ok_iff.mpr hroute, ?_⟩
    cases hform : outputForm n graph with
    | scalar =>
      rw [hform] at h
      cases h
    | known keys =>
      rw [hform] at h
      exact refuse_eq_ok_iff.mpr (not_not.mpr (h d rfl k hk))
    | unknown => rfl

/-- **No field of an output is refused**: whatever the node and its configuration, and whether it
completed or its failure was absorbed, a node further down may read a field of what it gave, `route`
below a node that routes and the error of an `extract` apart. -/
theorem reference_accepted {r : Setting} {py : Convert.Interpreter}
    (hconvert : r.compiler.host.convertValue = Convert.hostConvert py)
    {n : Node} (hn : r.graph.find? n.id = some n)
    (hworld : ∀ past e, Truthful e (r.world n.id past e))
    {readBody : Dict → Except Raised WorkflowGraph} {ctx : Context}
    (hvalid : validateNode readBody ctx n = .ok ()) {input : Value} {outputs d : Dict}
    {route : Option Value} (hfire : (r.fire n input outputs).result = .ok (.dict d, route))
    (hextract : n.type = .extract → (r.fire n input outputs).absorbed = none)
    {k : String} (hk : k ∈ d.map Prod.fst) (hdot : '.' ∉ k.toList)
    (hroute : ¬ (n.type ∈ routingTypes ∧ k = "route"))
    {order : List String} {m : Node}
    (habove : n.id ∈ Dfs.lookup (Dfs.ancestors r.graph.parents order) m.id) :
    checkRef r.graph (Dfs.lookup (Dfs.ancestors r.graph.parents order) m.id) m n.id = .ok () ∧
    checkPath r.graph m n.id ("." ++ k) = .ok () := by
  constructor
  · have hid : n.id ∈ r.graph.ids :=
      List.mem_map.mpr ⟨n, (WorkflowGraph.find?_some hn).1, rfl⟩
    unfold checkRef
    refine Except.bind_eq_ok_iff.mpr ⟨(), refuse_eq_ok_iff.mpr (not_not.mpr hid), ?_⟩
    exact refuse_eq_ok_iff.mpr (not_not.mpr habove)
  · unfold checkPath
    rw [hn]
    exact checkTemplatePath_of_fits (fire_fits hconvert hworld hvalid hfire hextract) hk hdot hroute

/-! ## 7. A run -/

def routerNode : Node :=
  ⟨"router", .router, [("rules", .list [.dict [("op", .str "exists"), ("route", .str "a")]])]⟩

def getNode : Node :=
  ⟨"get", .http, [("method", .str "GET"), ("url", .str "https://example.com")]⟩

def lastNode : Node :=
  ⟨"last", .set, [("fields", .list [.dict [("key", .str "status"),
    ("value", .str "\x7b\x7bget.status\x7d\x7d")]])]⟩

/-- A payload is routed to a request, and a `set` reads the status of the response. -/
def requesting : WorkflowGraph where
  nodes := [⟨"start", .trigger, []⟩, routerNode, getNode, lastNode]
  edges := [⟨"start", "router", none⟩, ⟨"router", "get", some "a"⟩, ⟨"get", "last", none⟩]

/-- Every request is answered, and nothing else is there. -/
def answering : Prog.Handler Reply := fun _ e =>
  match e with
  | .look _ => none
  | .ask (.http ..) => .ok (httpResponse 200 [] (.str "hello"))
  | .ask _ => .error (.of (.internal "RuntimeError"))
  | .resolve _ => .ok none
  | .expires _ => false

def requestingRun : Setting where
  engine := .fifo
  compiler := topCompiler
    { bareHost noServices with convertValue := Convert.hostConvert (.flat none) } requesting .null
    (fun _ => none) none
  world := fun _ => answering
  past := .none

theorem truthful_answering (past : List (Sigma Reply)) (e : Event) :
    Truthful e (answering past e) := by
  cases e with
  | ask request =>
    cases request with
    | http => exact ⟨200, [], .str "hello", rfl⟩
    | runBody => trivial
    | _ => rfl
  | _ => trivial

theorem reference_accepted_status :
    checkRef requesting (Dfs.lookup (Dfs.ancestors requesting.parents
      ["start", "router", "get", "last"]) "last") lastNode "get" = .ok () ∧
    checkPath requesting lastNode "get" ("." ++ "status") = .ok () := by
  have hconvert : requestingRun.compiler.host.convertValue = Convert.hostConvert (.flat none) := rfl
  have hvalid : validateNode (fun _ => .ok requesting) quiet getNode = .ok () := by decide
  have hfire : (requestingRun.fire getNode .null []).result = .ok
      (.dict [("status", .int 200), ("headers", .dict []), ("body", .str "hello")], none) := by
    decide
  have habove : getNode.id ∈ Dfs.lookup (Dfs.ancestors requestingRun.graph.parents
      ["start", "router", "get", "last"]) lastNode.id := by decide
  exact reference_accepted hconvert (by decide) truthful_answering hvalid hfire (by decide)
    (by decide) (by decide) (by decide) habove

/-- What the router received has a field `route`, and so has what it gives; a template that reads it
is refused. -/
theorem route_refused :
    validateGraph 1 quiet requesting = .ok () ∧
    (requestingRun.fire routerNode (.dict [("route", .str "north")]) []).result =
      .ok (.dict [("route", .str "north")], some (.str "a")) ∧
    "router" ∈ Dfs.lookup (Dfs.ancestors requesting.parents ["start", "router", "get", "last"])
      lastNode.id ∧
    checkPath requesting lastNode "router" ".route" ≠ .ok () := by
  refine ⟨by decide, by decide, by decide, ?_⟩
  decide

end Apowerb.Engine
