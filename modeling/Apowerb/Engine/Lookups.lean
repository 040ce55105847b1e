/-
# What a node looks up

`Asks` bounds what the body of a node may ask: it looks up the nodes that the validator read off
its configuration (`outerRefs`), and it runs its own body or a graph that it has just validated.
`Questions` says besides on which stack, and at which level, a graph is run.  Every body satisfies
both (`attempt_questions`, `attempt_asks`), type by type.

A loop's condition also reads `iteration`, which its scope holds: no lookup of a node answers it.
-/
import Apowerb.Engine.Nested

namespace Apowerb.Engine

open Graph Relation

/-! ## 1. What a body may ask -/

/-- A question that the body of a node may ask. -/
def Asks (c : Compiler) (n : Node) : Event → Prop
  | .look id => id ∈ outerRefs n
  | .ask (.runBody body _ _ _) =>
    ((n.type = .loop ∨ n.type = .tryBody) ∧ bodyOf n = .ok body) ∨
      ∃ target, checkSubworkflow c n target body = .ok ()
  | _ => True

/-- What a node may ask to run, and on which stack: its own body on the stack of its graph, or the
graph of a workflow that is not on the stack yet, one level deeper. -/
def Calls (c : Compiler) (n : Node) (body : WorkflowGraph) (stack : List String) (level : Nat) :
    Prop :=
  ((n.type = .loop ∨ n.type = .tryBody) ∧ bodyOf n = .ok body ∧ stack = c.stack ∧
    level = c.level) ∨
  (n.type = .subworkflow ∧ ∃ target, target ∉ c.stack ∧
    checkSubworkflow c n target body = .ok () ∧ stack = c.stack ++ [target] ∧
    level = c.level + 1 ∧ level ≤ maxSubworkflowDepth)

/-- A question that the body of a node may ask, the surroundings of a nested run included. -/
def Questions (c : Compiler) (n : Node) : Event → Prop
  | .look id => id ∈ outerRefs n
  | .ask (.runBody body _ stack level) => Calls c n body stack level
  | _ => True

variable {c : Compiler} {n : Node}

theorem Questions.asks {e : Event} (h : Questions c n e) : Asks c n e := by
  cases e with
  | look id => exact h
  | ask request =>
    cases request with
    | runBody body payload stack level =>
      rcases h with ⟨htype, hbody, -⟩ | ⟨-, target, -, hchecked, -⟩
      · exact Or.inl ⟨htype, hbody⟩
      · exact Or.inr ⟨target, hchecked⟩
    | _ => trivial
  | _ => trivial

theorem all_lift_bind {α β : Type} {P : Event → Prop} {x : Except Raised α} {f : α → Work β}
    (h : ∀ a, x = .ok a → (f a).All P) : ((lift x).bind f).All P :=
  .ofExcept_bind fun a ha => h a (Except.mapError_eq_ok_iff.mp ha)

theorem all_perform {P : Event → Prop} {request : Request} (h : P (.ask request)) :
    (perform request).All P :=
  ⟨h, fun _ => .ofExcept _⟩

/-- A template whose references, the scope apart, are read off the configuration. -/
theorem render_scope_asks {scope : Dict} {template : Value}
    (h : ∀ id ∈ refs template, scope.lookup id = none → id ∈ outerRefs n) :
    (render scope n.id template).All (Questions c n) := by
  refine (render_looks template).mono fun e he => ?_
  cases e with
  | look id => exact h id he.1 he.2
  | _ => exact absurd he id

theorem render_asks {template : Value} (h : refs template ⊆ outerRefs n) :
    (render [] n.id template).All (Questions c n) :=
  render_scope_asks fun _ hr _ => h hr

theorem isDict_of_attrGet {v w : Value} {key : String} (h : v.attrGet key = .ok w) :
    v.isDict = true := by
  cases v with
  | dict entries => rfl
  | _ => cases h

theorem ruleSubject_asks {scope : Dict} {rule default : Value}
    (h : rule.isDict = true → ∀ id ∈ refs rule, scope.lookup id = none → id ∈ outerRefs n) :
    (ruleSubject scope n.id rule default).All (Questions c n) := by
  refine all_lift_bind fun template htemplate => ?_
  have hrefs : ∀ id ∈ refs template, scope.lookup id = none → id ∈ outerRefs n :=
    fun id hid => h (isDict_of_attrGet htemplate) id (refs_attrGet_subset htemplate hid)
  split
  · trivial
  · split
    · trivial
    · exact render_scope_asks hrefs
  · exact render_scope_asks hrefs

/-- A node that holds no graph: every reference of its configuration counts. -/
theorem outerRefs_eq (hloop : n.type ≠ .loop) (htry : n.type ≠ .tryBody) :
    outerRefs n = refs (.dict n.config) := by
  unfold outerRefs
  split
  · rename_i h
    exact absurd h hloop
  · rename_i h
    exact absurd h htry
  · rfl

/-- A workflow that may be called is not on the stack. -/
theorem not_mem_stack_of_checkCall {target : String} (h : checkCall c n target = .ok ()) :
    target ∉ c.stack := by
  obtain ⟨_, -, hcycle⟩ := Except.bind_eq_ok_iff.mp h
  exact refuse_eq_ok_iff.mp hcycle

theorem level_le_of_checkLevel (h : checkLevel c n = .ok ()) :
    c.level + 1 ≤ maxSubworkflowDepth := by
  unfold checkLevel at h
  split at h
  · cases h
  · exact Nat.not_lt.mp ‹_›

/-! ## 2. Nodes that hold no graph -/

section Plain

variable (hplain : refs (.dict n.config) ⊆ outerRefs n)

include hplain

theorem render_get_asks (key : String) : (render [] n.id (n.config.get key)).All (Questions c n) :=
  render_asks fun _ hr => hplain (refs_get_subset _ _ hr)

theorem render_orElse_asks (key : String) {default : Value} (h : refs default = []) :
    (render [] n.id ((n.config.get key).orElse default)).All (Questions c n) :=
  render_asks fun _ hr => hplain (refs_get_subset _ _ (refs_orElse_subset h hr))

theorem render_getOr_asks (key : String) {default : Value} (h : refs default = []) :
    (render [] n.id (n.config.getOr key default)).All (Questions c n) :=
  render_asks fun _ hr => hplain (refs_getOr_subset h hr)

theorem renderedOr_asks (key : String) (input : Value) :
    (renderedOr n key input).All (Questions c n) := by
  unfold renderedOr
  split
  · exact render_get_asks hplain key
  · trivial

theorem agentBody_asks (input : Value) : (agentBody n input).All (Questions c n) := by
  refine .bind ?_ fun message => .bind (all_lift _) fun _ => all_perform trivial
  unfold agentMessage
  dsimp only
  split
  · split
    · split
      · trivial
      · exact all_lift _
    · exact all_lift _
  · exact .bind (render_get_asks hplain "input") fun _ => all_lift _

theorem toolBody_asks (input : Value) : (toolBody n input).All (Questions c n) := by
  refine .bind ?_ fun args => .bind (all_lift _) fun tool =>
    .bind (all_perform trivial) fun result => ?_
  · unfold toolArgs
    split
    · trivial
    · exact .bind (render_get_asks hplain "args") fun _ => .bind (all_lift _) fun _ => trivial
  · split
    · trivial
    · exact .bind (all_lift _) fun _ => trivial

/-- What an item of a list of the configuration holds, it refers to. -/
theorem refs_of_item {key : String} {v w : Value} {items : List Value}
    (hitems : (field n key >>= Value.iter) = .ok items) (hv : v ∈ items)
    (hdict : v.isDict = true) (hw : refs w ⊆ refs v) : refs w ⊆ outerRefs n := by
  obtain ⟨value, hfield, hiter⟩ := Except.bind_eq_ok_iff.mp hitems
  intro r hr
  exact hplain (refs_item_subset hfield (refs_iter_subset hiter hv hdict (hw hr)))

omit hplain in
theorem routerRoute_asks (input : Value) (rules : List Value)
    (h : ∀ rule ∈ rules, rule.isDict = true → refs rule ⊆ outerRefs n) :
    (routerRoute c.host n input rules).All (Questions c n) := by
  induction rules with
  | nil =>
    unfold routerRoute
    dsimp only
    split <;> trivial
  | cons rule rest ih =>
    have hrule := h rule List.mem_cons_self
    refine .bind (ruleSubject_asks fun hdict id hid _ => hrule hdict hid) fun subject => ?_
    refine .bind (all_lift _) fun holds => ?_
    split
    · exact .bind (all_lift _) fun _ => trivial
    · exact ih fun r hr => h r (List.mem_cons_of_mem rule hr)

theorem routerBody_asks (input : Value) : (routerBody c.host n input).All (Questions c n) := by
  refine all_lift_bind fun rules hrules => ?_
  refine .bind (routerRoute_asks input rules fun rule hrule hdict => ?_) fun _ => trivial
  exact refs_of_item hplain hrules hrule hdict (List.Subset.refl _)

omit hplain in
theorem conditionSubject_asks {rule input : Value}
    (h : rule.isDict = true → refs rule ⊆ outerRefs n) :
    (conditionSubject n rule input).All (Questions c n) := by
  refine all_lift_bind fun template htemplate => ?_
  split
  · split
    · trivial
    · refine all_lift_bind fun value hvalue => render_asks fun r hr => ?_
      exact h (isDict_of_attrGet htemplate) (refs_item_subset hvalue hr)
  · trivial

theorem conditionBody_asks (input : Value) :
    (conditionBody c.host n input).All (Questions c n) := by
  refine all_lift_bind fun rules hrules => .bind (.each fun rule hrule => ?_) fun _ => trivial
  refine .bind (conditionSubject_asks fun hdict => ?_) fun _ => all_lift _
  exact refs_of_item hplain hrules hrule hdict (List.Subset.refl _)

omit hplain in
theorem classifierBody_asks (input : Value) :
    (classifierBody c.host n input).All (Questions c n) := by
  refine .bind (all_lift _) fun items => .bind (all_lift _) fun prompt => ?_
  refine .bind (all_lift _) fun agentId => .bind (all_perform trivial) fun answer => ?_
  refine .bind (all_lift _) fun routes => .bind (all_lift _) fun picked => ?_
  split
  · trivial
  · exact .bind (all_lift _) fun _ => trivial

theorem jevReply_asks (input : Value) : (jevReply c.host n input).All (Questions c n) := by
  refine .bind (all_lift _) fun _ => .bind ?_ fun text => .bind (all_lift _) fun _ => ?_
  · unfold jevText
    split
    · exact all_lift _
    · exact .bind (render_get_asks hplain "text") fun _ => trivial
  · exact .bind (all_lift _) fun items => .bind (all_lift _) fun labels => all_perform trivial

theorem jevBody_asks (graph : WorkflowGraph) (input : Value) :
    (jevBody c.host graph n input).All (Questions c n) :=
  .bind (jevReply_asks hplain input) fun _ => .bind (all_lift _) fun _ => trivial

theorem outputBody_asks (input : Value) : (outputBody n input).All (Questions c n) :=
  renderedOr_asks hplain "value" input

theorem convertBody_asks (input : Value) : (convertBody c.host n input).All (Questions c n) :=
  .bind (renderedOr_asks hplain "input" input) fun _ => .bind (all_lift _) fun _ => all_lift _

theorem setBody_asks : (setBody n).All (Questions c n) := by
  refine all_lift_bind fun fields hfields => .bind (.each fun f hf => ?_) fun _ => trivial
  refine .bind (all_lift _) fun key => ?_
  refine all_lift_bind fun template htemplate => .bind (render_asks ?_) fun _ => trivial
  exact refs_of_item hplain hfields hf (isDict_of_attrGet htemplate)
    (refs_attrGet_subset htemplate)

theorem extractBody_asks (input : Value) : (extractBody c.host n input).All (Questions c n) := by
  refine .bind (renderedOr_asks hplain "input" input) fun value => .bind (all_lift _) fun text => ?_
  refine .bind (all_lift _) fun fields => .bind (all_lift _) fun prompt => ?_
  exact .bind (all_lift _) fun agentId => .bind (all_perform trivial) fun _ => .ofExcept _

/-- A key read with `cfg[key]` and rendered, before the rest. -/
theorem field_render_asks (key : String) {β : Type} {f : Value → Work β}
    (hf : ∀ v, (f v).All (Questions c n)) :
    ((lift (field n key)).bind fun template => (render [] n.id template).bind f).All
      (Questions c n) :=
  all_lift_bind fun _ ht =>
    .bind (render_asks fun _ hr => hplain (refs_item_subset ht hr)) hf

theorem ragBody_asks : (ragBody c.host n).All (Questions c n) := by
  refine field_render_asks hplain "query" fun query => .bind (all_lift _) fun text => ?_
  refine .bind (all_lift _) fun _ => .bind (all_lift _) fun agentId => ?_
  exact ⟨trivial, fun _ => .ofExcept _⟩

omit hplain in
theorem renderedHeader_asks {h : Value} (hrefs : h.isDict = true → refs h ⊆ outerRefs n) :
    (renderedHeader c.host n h).All (Questions c n) := by
  have hdict {key : String} {v : Value} (hv : h.attrGetOr key (.str "") = .ok v) :
      refs v ⊆ outerRefs n := by
    refine fun r hr => hrefs ?_ (refs_attrGetOr_subset (by decide) hv hr)
    cases h with
    | dict entries => rfl
    | _ => cases hv
  refine all_lift_bind fun key hkey => .bind (render_asks (hdict hkey)) fun key => ?_
  refine all_lift_bind fun value hvalue => .bind (render_asks (hdict hvalue)) fun value => ?_
  refine .bind (all_lift _) fun key => .bind (all_lift _) fun value => ?_
  exact .bind (all_lift _) fun _ => trivial

theorem httpBody_asks : (httpBody c.host n).All (Questions c n) := by
  refine .bind (all_lift _) fun method => field_render_asks hplain "url" fun url => ?_
  refine .bind (all_lift _) fun url => all_lift_bind fun items hitems => ?_
  refine .bind (.each fun h hh => renderedHeader_asks fun hdict r hr => ?_) fun headers => ?_
  · exact hplain (refs_get_subset _ _ (refs_orElse_subset (by decide)
      (refs_iter_subset hitems hh hdict hr)))
  refine .bind ?_ fun content => .bind (all_perform trivial) fun response => ?_
  · unfold httpContent
    split
    · trivial
    · refine .bind (render_get_asks hplain "body") fun content => ?_
      split
      · trivial
      · trivial
      · trivial
      · exact .bind (all_lift _) fun _ => trivial
  · refine .bind (all_lift _) fun status => ?_
    split <;> trivial

/-- The recipients must be a list: the keys of a dictionary are no templates of the graph. -/
theorem notificationBody_asks (hto : ((n.config.get "to").orElse (.list [])).isList = true) :
    (notificationBody c.host n).All (Questions c n) := by
  refine .bind (all_lift _) fun channel => all_lift_bind fun templates htemplates => ?_
  refine .bind (.each fun template htemplate => render_asks fun r hr => ?_) fun recipients => ?_
  · have hnil : refs (.list []) = [] := by decide
    refine hplain (refs_get_subset _ "to" (refs_orElse_subset hnil ?_))
    cases hval : (n.config.get "to").orElse (.list []) with
    | list items =>
      rw [hval] at htemplates
      cases htemplates
      exact refs_mem_subset htemplate hr
    | _ =>
      rw [hval] at hto
      cases hto
  refine .bind (all_lift _) fun recipients => ?_
  refine .bind (render_getOr_asks hplain "subject" (by decide)) fun subject => ?_
  refine .bind (all_lift _) fun subject => ?_
  refine .bind (render_getOr_asks hplain "body" (by decide)) fun message => ?_
  refine .bind (all_lift _) fun message => .bind (all_lift _) fun _ => .bind ?_ fun refs => ?_
  · unfold attachmentRefs
    dsimp only
    split
    · refine .bind (render_get_asks hplain "attachments") fun _ => .bind (all_lift _) fun _ => ?_
      exact .bind (all_lift _) fun _ => trivial
    · trivial
  · exact .bind (all_perform trivial) fun _ => trivial

theorem readDocuments_asks : (readDocuments c.host n).All (Questions c n) := by
  refine .bind (all_lift _) fun _ => field_render_asks hplain "files" fun files => ?_
  refine .bind (all_lift _) fun refs => .bind (.each fun ref _ => ?_) fun documents => ?_
  · refine .bind (all_perform trivial) fun doc => .bind (all_lift _) fun _ => ?_
    exact .bind (all_lift _) fun _ => .bind (all_lift _) fun _ => trivial
  · exact .bind (all_lift _) fun _ => trivial

theorem dbWrite_asks : (dbWrite c.host n).All (Questions c n) := by
  refine .bind (all_lift _) fun _ => all_lift_bind fun columns hcolumns => ?_
  refine .bind (.each fun column hcolumn => .bind (render_asks ?_) fun _ => trivial) fun row => ?_
  · obtain ⟨value, hfield, hentries⟩ := Except.bind_eq_ok_iff.mp hcolumns
    intro r hr
    cases value with
    | dict entries =>
      cases hentries
      exact hplain (refs_item_subset hfield (refs_entry_subset hcolumn hr))
    | _ => cases hentries
  · refine .bind (all_lift _) fun connection => .bind (all_lift _) fun table => ?_
    exact .bind (all_perform trivial) fun _ => .bind (all_lift _) fun _ => trivial

theorem makeFile_asks : (makeFile c.host n).All (Questions c n) := by
  refine .bind (all_lift _) fun _ => .bind (all_lift _) fun format => ?_
  refine field_render_asks hplain "content" fun value => ?_
  refine .bind (render_get_asks hplain "filename") fun rendered => ?_
  refine .bind (all_lift _) fun built => .bind (all_lift _) fun _ => .bind (all_lift _) fun _ => ?_
  refine .bind (all_lift _) fun type => .bind (all_perform trivial) fun stored => ?_
  exact .bind (all_lift _) fun _ => .bind (all_lift _) fun _ => .bind (all_lift _) fun _ => trivial

theorem saveToDrive_asks : (saveToDrive c.host n).All (Questions c n) := by
  refine .bind (all_lift _) fun _ => field_render_asks hplain "file" fun value => ?_
  split
  · trivial
  · refine .bind (render_orElse_asks hplain "folder" (by decide)) fun rendered => ?_
    refine .bind (all_lift _) fun folder => .bind (all_lift _) fun provider => ?_
    refine .bind (all_perform trivial) fun result => .bind (all_lift _) fun _ => ?_
    exact .bind (all_lift _) fun _ => .bind (all_lift _) fun _ => trivial

theorem subworkflowBody_asks (hsub : n.type = .subworkflow) (input : Value) :
    (subworkflowBody c n input).All (Questions c n) := by
  refine .bind (all_lift _) fun target => all_lift_bind fun _ hcall => ?_
  refine .ofExcept_bind fun _ hlevel => .bind ⟨trivial, fun _ => .ofExcept _⟩ fun found => ?_
  split
  · trivial
  · rename_i body
    refine all_lift_bind fun _ hchecked => .bind ?_ fun payload => all_perform ?_
    · unfold subworkflowPayload
      split
      · trivial
      · exact render_get_asks hplain "input"
    · exact Or.inr ⟨hsub, _, not_mem_stack_of_checkCall hcall, hchecked, rfl, rfl,
        level_le_of_checkLevel hlevel⟩

theorem approvalBody_asks : (approvalBody c n).All (Questions c n) := by
  unfold approvalBody
  split
  · trivial
  · split
    · trivial
    · exact field_render_asks hplain "question" fun _ => .bind (all_lift _) fun _ => trivial

end Plain

/-! ## 3. Loops and attempts -/

theorem foreachRounds_asks {body : WorkflowGraph} (hloop : n.type = .loop)
    (hbody : bodyOf n = .ok body) (items : List Value) (index : Nat) (previous : Value) :
    (foreachRounds c body index previous items).All (Questions c n) := by
  induction items generalizing index previous with
  | nil => trivial
  | cons item rest ih =>
    refine .bind (all_perform (Or.inl ⟨Or.inl hloop, hbody, rfl, rfl⟩)) fun result => ?_
    exact .bind (ih (index + 1) result) fun _ => trivial

theorem untilRounds_asks {body : WorkflowGraph} {condition : Value} (hloop : n.type = .loop)
    (hbody : bodyOf n = .ok body)
    (hcondition : ∀ id ∈ refs condition, id ≠ iterationRef → id ∈ outerRefs n)
    (left index : Nat) (previous : Value) :
    (untilRounds c n body condition index left previous).All (Questions c n) := by
  induction left generalizing index previous with
  | zero => trivial
  | succ left ih =>
    refine .bind (all_perform (Or.inl ⟨Or.inl hloop, hbody, rfl, rfl⟩)) fun result => ?_
    refine .bind (ruleSubject_asks fun _ id hid hscope => hcondition id hid ?_) fun subject => ?_
    · -- `iteration` is in the scope: it is no node.
      rintro rfl
      simp at hscope
    · refine .bind (all_lift _) fun holds => ?_
      split
      · trivial
      · exact ih (index + 1) result

theorem field_eq_get {key : String} {v : Value} (h : field n key = .ok v) :
    n.config.get key = v := by
  simp only [field, Value.item] at h
  split at h
  · rename_i hfound
    cases h
    simp [Dict.get, hfound]
  · cases h

theorem loopBody_asks (hloop : n.type = .loop) (input : Value) :
    (loopBody c n input).All (Questions c n) := by
  have houter : outerRefs n = refs (n.config.get "items") ++
      (refs (n.config.get "until")).filter (· ≠ iterationRef) := by
    simp [outerRefs, hloop]
  refine all_lift_bind fun body hbody => ?_
  dsimp only
  split
  · refine all_lift_bind fun items hitems => .bind (render_asks fun r hr => ?_) fun items => ?_
    · rw [houter, field_eq_get hitems]
      exact List.mem_append_left _ hr
    · split
      · exact .bind (foreachRounds_asks hloop hbody _ _ _) fun _ => trivial
      · trivial
  · refine all_lift_bind fun condition hcondition => ?_
    refine untilRounds_asks hloop hbody (fun id hid hne => ?_) _ _ _
    rw [houter, field_eq_get hcondition]
    exact List.mem_append_right _ (List.mem_filter.mpr ⟨hid, by simpa using hne⟩)

theorem attempts_asks {body : WorkflowGraph} (htry : n.type = .tryBody)
    (hbody : bodyOf n = .ok body) (input : Value) (left : Nat) :
    (attempts c body input left).All (Questions c n) := by
  have hrun : Questions c n (runBody c body input) := Or.inl ⟨Or.inr htry, hbody, rfl, rfl⟩
  induction left with
  | zero =>
    refine ⟨hrun, fun reply => ?_⟩
    cases reply with
    | ok result => trivial
    | error f => dsimp only; split <;> trivial
  | succ left ih =>
    refine ⟨hrun, fun reply => ?_⟩
    cases reply with
    | ok result => trivial
    | error f =>
      dsimp only
      split
      · trivial
      · exact ih

theorem tryBody_asks (htry : n.type = .tryBody) (input : Value) :
    (tryBody c n input).All (Questions c n) :=
  all_lift_bind fun _ hbody => attempts_asks htry hbody input _

theorem mergeBody_asks (input : Value) : (mergeBody c.graph n input).All (Questions c n) :=
  .bind (all_lift _) fun _ => trivial

/-! ## 4. Every type -/

/-- The recipients of an accepted notification are a list. -/
theorem recipients_isList {readBody : Dict → Except Raised WorkflowGraph} {ctx : Context}
    (hn : n.type = .notification) (h : validateNode readBody ctx n = .ok ()) :
    ((n.config.get "to").orElse (.list [])).isList = true := by
  unfold validateNode at h
  rw [hn] at h
  obtain ⟨_, _, h⟩ := Except.bind_eq_ok_iff.mp h
  unfold validateNotification at h
  obtain ⟨channel, _, h⟩ := Except.bind_eq_ok_iff.mp h
  obtain ⟨_, _, h⟩ := Except.bind_eq_ok_iff.mp h
  obtain ⟨_, _, h⟩ := Except.bind_eq_ok_iff.mp h
  obtain ⟨_, _, h⟩ := Except.bind_eq_ok_iff.mp h
  -- Not truthy: `or []` takes its place.
  have hfalsy {v : Value} (hv : ¬ (v.orElse (.list [])).truthy) :
      (v.orElse (.list [])).isList = true := by
    unfold Value.orElse at hv ⊢
    split
    · rename_i htruthy
      rw [if_pos htruthy] at hv
      exact absurd htruthy hv
    · rfl
  split at h
  · split at h
    · rename_i items hitems
      rw [hitems]
      rfl
    · obtain ⟨_, h, _⟩ := Except.bind_eq_ok_iff.mp h
      cases h
  · exact hfalsy (refuse_eq_ok_iff.mp h)
  · obtain ⟨_, h, _⟩ := Except.bind_eq_ok_iff.mp h
    exact hfalsy (refuse_eq_ok_iff.mp h)

theorem unrouted_asks {work : Work Value} (h : work.All (Questions c n)) :
    (unrouted work).All (Questions c n) :=
  .bind h fun _ => trivial

/-- A node that holds no graph. -/
theorem plainBody_asks (hloop : n.type ≠ .loop) (htry : n.type ≠ .tryBody)
    (hto : n.type = .notification → ((n.config.get "to").orElse (.list [])).isList = true)
    (input : Value) : (body c n input).All (Questions c n) := by
  have hplain : refs (.dict n.config) ⊆ outerRefs n := by
    rw [outerRefs_eq hloop htry]
    exact List.Subset.refl _
  unfold body
  cases htype : n.type with
  | loop => exact absurd htype hloop
  | tryBody => exact absurd htype htry
  | trigger => exact unrouted_asks trivial
  | merge => exact unrouted_asks (mergeBody_asks input)
  | agent => exact unrouted_asks (agentBody_asks hplain input)
  | tool => exact unrouted_asks (toolBody_asks hplain input)
  | router => exact routerBody_asks hplain input
  | condition => exact conditionBody_asks hplain input
  | classifier =>
    dsimp only
    split
    · exact jevBody_asks hplain c.graph input
    · exact classifierBody_asks input
  | subworkflow => exact unrouted_asks (subworkflowBody_asks hplain htype input)
  | approval => exact approvalBody_asks hplain
  | output => exact unrouted_asks (outputBody_asks hplain input)
  | convert => exact unrouted_asks (convertBody_asks hplain input)
  | set => exact unrouted_asks (setBody_asks hplain)
  | extract => exact unrouted_asks (extractBody_asks hplain input)
  | rag => exact unrouted_asks (ragBody_asks hplain)
  | http => exact unrouted_asks (httpBody_asks hplain)
  | notification => exact unrouted_asks (notificationBody_asks hplain (hto htype))
  | document => exact unrouted_asks (readDocuments_asks hplain)
  | dbWrite => exact unrouted_asks (dbWrite_asks hplain)
  | file => exact unrouted_asks (makeFile_asks hplain)
  | fileSave => exact unrouted_asks (saveToDrive_asks hplain)

theorem body_asks {readBody : Dict → Except Raised WorkflowGraph} {ctx : Context}
    (hvalid : validateNode readBody ctx n = .ok ()) (input : Value) :
    (body c n input).All (Questions c n) := by
  by_cases hloop : n.type = .loop
  · unfold body
    rw [hloop]
    exact unrouted_asks (loopBody_asks hloop input)
  · by_cases htry : n.type = .tryBody
    · unfold body
      rw [htry]
      exact tryBody_asks htry input
    · exact plainBody_asks hloop htry (fun h => recipients_isList h hvalid) input

/-- **The body of an accepted node looks up what its configuration refers to, and runs its own
body or a graph it has validated**, one level deeper and on the stack where it calls another
workflow. -/
theorem attempt_questions {readBody : Dict → Except Raised WorkflowGraph} {ctx : Context}
    (hvalid : validateNode readBody ctx n = .ok ()) (input : Value) :
    (attempt c n input).All (Questions c n) := by
  refine .bind ?_ fun result => .bind (all_lift _) fun _ => trivial
  unfold timed
  split
  · exact body_asks hvalid input
  · refine ⟨trivial, fun late => ?_⟩
    cases late with
    | true => trivial
    | false => exact body_asks hvalid input

theorem attempt_asks {readBody : Dict → Except Raised WorkflowGraph} {ctx : Context}
    (hvalid : validateNode readBody ctx n = .ok ()) (input : Value) :
    (attempt c n input).All (Asks c n) :=
  (attempt_questions hvalid input).mono fun _ => Questions.asks

end Apowerb.Engine
