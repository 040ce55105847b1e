/-
# A try contains failures

`_try` and `_run_body` (`core/workflow_graph.py`): the body of a `try` is a run of its own, which may
fail at any of its nodes.  The whole run is watched here: the stack of frames, and whether its
cancellation was asked for (`cancel_event`), which every node looks at before it starts, and every
nested run before it begins.

The engine may wrap the exception of a node in one of its own (`HandedOn`), so that a cancellation
within the body can reach the `try` as any other failure.  Then there is no attempt left that
begins, nor a node after it that starts.

* `Watched.Step.watches`: a step keeps what is said of a `try` at work (`Trying`).
* `try_contains`: it makes one attempt more than it retries at most, stops at the first that
  succeeds, and leaves by `ok` or `error`; it raises cancellations only.

Its output has the bound of every output, all the same: what the leaves of the body give together,
or the description of its failure, may be larger (`not_contained`).
-/
import Apowerb.Engine.Bounded
import Apowerb.Engine.RenderedSize

namespace Apowerb.Engine

open Graph Relation

/-! ## 1. Cancellation -/

/-- `WorkflowCancelled()`. -/
def cancelledFailure : Failure := .of (.internal "WorkflowCancelled")

/-- What the engine makes of the exception of a node.  One that is told by its class alone may not
be recognised again. -/
def HandedOn (f f' : Failure) : Prop :=
  f' = f ∨ f.isCancelled = true ∧ ∃ cls, f' = { f with fault := .internal cls }

/-- A run, and whether its cancellation was asked for. -/
structure Watched where
  cancelled : Bool
  frames : List Frame

/-- A node starts next. -/
def Frame.Starts (E : Adk) (f : Frame) : Prop :=
  f.job = none ∧ f.flow.stopped = none ∧
    ∃ task rest id, E.take f.flow.queue = some (task, rest) ∧ task.node = .function id

/-- A nested run begins next. -/
def Frame.Runs (f : Frame) : Prop :=
  ∃ job e next, f.job = some job ∧ job.stage = .going (.act e next) ∧ IsRun e

/-- A node is given the failure of what it asked for. -/
def Frame.failed (f : Frame) (job : Job) (request : Request)
    (next : Except Failure Value → Work (Value × Option Value)) (failure : Failure) : Frame :=
  { f with job := some (job.told (.ask request) (.error failure) (next (.error failure))) }

/-- One step of a run that is watched. -/
inductive Watched.Step (E : Adk) : Watched → Watched → Prop
  /-- `cancel_event.set()`. -/
  | cancel {frames : List Frame} : Step E ⟨false, frames⟩ ⟨true, frames⟩
  /-- A cancelled run goes on up to the next place where it is looked at. -/
  | goOn {cancelled : Bool} {frames frames' : List Frame} :
      Engine.Step E frames frames' →
      (cancelled = true → ∀ f ∈ frames.head?, ¬ f.Starts E ∧ ¬ f.Runs) →
      Step E ⟨cancelled, frames⟩ ⟨cancelled, frames'⟩
  | expire {cancelled : Bool} {inner : List Frame} {f : Frame} {outer : List Frame} {job : Job}
      {stop : Stop} :
      f.job = some job → job.late = some stop →
      Step E ⟨cancelled, inner ++ f :: outer⟩ ⟨cancelled, f.settle E job.node (.error stop) :: outer⟩
  /-- A nested run gives on its failure as the engine wraps it. -/
  | wrapped {cancelled : Bool} {inner f : Frame} {outer : List Frame} {job : Job}
      {request : Request} {next : Except Failure Value → Work (Value × Option Value)}
      {failure failure' : Failure} :
      inner.Ended E → inner.result = .error failure → HandedOn failure failure' →
      f.job = some job → job.stage = .inside request next →
      Step E ⟨cancelled, inner :: f :: outer⟩ ⟨cancelled, f.failed job request next failure' :: outer⟩
  /-- A node of a nested run does not start. -/
  | refuse {inner f : Frame} {outer : List Frame} {job : Job} {request : Request}
      {next : Except Failure Value → Work (Value × Option Value)} {failure : Failure} :
      inner.Starts E → HandedOn cancelledFailure failure →
      f.job = some job → job.stage = .inside request next →
      Step E ⟨true, inner :: f :: outer⟩ ⟨true, f.failed job request next failure :: outer⟩
  /-- A nested run does not begin. -/
  | refuseRun {f : Frame} {outer : List Frame} {job : Job} {body : WorkflowGraph} {payload : Value}
      {stack : List String} {level : Nat}
      {next : Except Failure Value → Work (Value × Option Value)} :
      f.job = some job →
      job.stage = .going (.act (.ask (.runBody body payload stack level)) next) →
      Step E ⟨true, f :: outer⟩
        ⟨true, f.failed job (.runBody body payload stack level) next cancelledFailure :: outer⟩
  /-- A node of the run itself does not start: the run is over. -/
  | done {f : Frame} : f.Starts E → Step E ⟨true, [f]⟩ ⟨true, []⟩

/-- `run_graph` sends `cancelled` last, whatever else happened. -/
theorem Watched.Step.stays {E : Adk} {w w' : Watched} (h : w.Step E w')
    (hcancelled : w.cancelled = true) : w'.cancelled = true := by
  cases h with
  | cancel => rfl
  | goOn _ _ => exact hcancelled
  | expire _ _ => exact hcancelled
  | wrapped _ _ _ _ _ => exact hcancelled
  | refuse _ _ _ _ => rfl
  | refuseRun _ _ => rfl
  | done _ => rfl

/-- A nested run that does not begin takes nothing of what the node may run. -/
theorem Job.Sound.refused {c : Compiler} {job : Job} (h : job.Sound c) {body : WorkflowGraph}
    {payload : Value} {stack : List String} {level : Nat}
    {next : Except Failure Value → Work (Value × Option Value)}
    (hstage : job.stage = .going (.act (.ask (.runBody body payload stack level)) next))
    (reply : Except Failure Value) :
    (job.told (.ask (.runBody body payload stack level)) reply (next reply)).Sound c := by
  refine ⟨h.mem, ?_⟩
  obtain ⟨left, hle, hwithin⟩ := h.within
  rw [hstage] at hwithin
  obtain ⟨-, hnext⟩ := hwithin.2.1 trivial
  refine ⟨left - 1, ?_, hwithin.1.2 reply, hnext reply⟩
  change job.runs + (left - 1) ≤ allowance job.node
  omega

/-- **A watched run keeps the bounds of nested runs.** -/
theorem Watched.Step.sound {E : Adk} {w w' : Watched} (hstep : w.Step E w')
    (h : Sound w.frames) : Sound w'.frames := by
  cases hstep with
  | cancel => exact h
  | goOn hstep _ => exact hstep.sound h
  | expire _ _ => exact (h.drop _).settle _ _
  | @wrapped _ inner f outer job request next failure failure' _ _ _ hjob hstage =>
    have hrest : Sound (f :: outer) := h.drop [inner]
    exact hrest.goOn ((hrest.jobs hjob).leave hstage (.error failure'))
  | @refuse inner f outer job request next failure _ _ hjob hstage =>
    have hrest : Sound (f :: outer) := h.drop [inner]
    exact hrest.goOn ((hrest.jobs hjob).leave hstage (.error failure))
  | @refuseRun f outer job body payload stack level next hjob hstage =>
    exact h.goOn ((h.jobs hjob).refused hstage (.error cancelledFailure))
  | done _ => exact ⟨by simp, .nil, by simp⟩

/-! ## 2. The attempts of a try -/

variable {E : Adk} {c : Compiler} {n : Node}

theorem readBody_parses {ctx : Context} {depth : Nat} {entries : Dict} {b : WorkflowGraph}
    (h : readBody ctx depth entries = .ok b) : ∃ body, modelValidate entries = .ok body := by
  cases depth with
  | zero => cases h
  | succ depth =>
    obtain ⟨body, hparsed, -⟩ := Except.bind_eq_ok_iff.mp h
    exact ⟨body, hparsed⟩

/-- An accepted `try` has a body. -/
theorem bodyOf_ok {ctx ctx' : Context} {depth : Nat}
    (hn : validateNode (readBody ctx' depth) ctx n = .ok ()) (htype : n.type = .tryBody) :
    ∃ body, bodyOf n = .ok body := by
  unfold validateNode at hn
  rw [htype] at hn
  obtain ⟨_, htry, _⟩ := Except.bind_eq_ok_iff.mp hn
  obtain ⟨_, _, htry⟩ := Except.bind_eq_ok_iff.mp htry
  obtain ⟨_, _, htry⟩ := Except.bind_eq_ok_iff.mp htry
  obtain ⟨b, hgraph, _⟩ := Except.bind_eq_ok_iff.mp htry
  unfold bodyGraph at hgraph
  split at hgraph
  · rename_i entries hget
    obtain ⟨b', hb', _⟩ := Except.bind_eq_ok_iff.mp hgraph
    obtain ⟨body, hbody⟩ := readBody_parses (Except.mapError_eq_ok_iff.mp hb')
    have hfield : field n "body" = .ok (.dict entries) := by
      unfold Dict.get at hget
      unfold field Value.item
      cases hfound : n.config.lookup "body" with
      | none => simp [hfound] at hget
      | some v =>
        simp only [hfound, Option.getD_some] at hget ⊢
        rw [hget]
    refine ⟨body, ?_⟩
    unfold bodyOf
    rw [hfield]
    exact hbody
  · cases hgraph

/-- The program of a `try` is its attempts. -/
theorem attempt_try {body : WorkflowGraph} (htype : n.type = .tryBody)
    (hbody : bodyOf n = .ok body) (input : Value) :
    attempt c n input = attempts c body input (count n "retries") := by
  have hprogram : Engine.body c n input = attempts c body input (count n "retries") := by
    unfold Engine.body
    rw [htype]
    dsimp only
    unfold tryBody
    rw [hbody]
    rfl
  have htimed : timed n (Engine.body c n input) = Engine.body c n input := by
    unfold timed
    rw [htype]
    rfl
  unfold attempt
  rw [htimed, hprogram]
  refine Prog.bind_ret _ fun out => ?_
  rw [htype]
  rfl

/-- What the attempts of a `try` came to, and where its work stands: those in `failed` failed. -/
inductive Standing (c : Compiler) (body : WorkflowGraph) (input : Value) (retries : Nat) :
    List (Except Failure Value) → Nat → Stage → Prop
  /-- An attempt is next. -/
  | next {failed : List Failure} {runs : Nat} :
      (∀ f ∈ failed, f.isCancelled = false) → failed.length ≤ retries → runs ≤ failed.length →
      Standing c body input retries (failed.map .error) runs
        (.going (attempts c body input (retries - failed.length)))
  /-- An attempt runs. -/
  | inside {failed : List Failure} {runs : Nat}
      {next : Except Failure Value → Work (Value × Option Value)} :
      (∀ f ∈ failed, f.isCancelled = false) → failed.length ≤ retries → runs ≤ failed.length + 1 →
      attempts c body input (retries - failed.length) = .act (runBody c body input) next →
      Standing c body input retries (failed.map .error) runs
        (.inside (.runBody body input c.stack c.level) next)
  /-- An attempt succeeded. -/
  | succeeded {failed : List Failure} {runs : Nat} {output : Value} :
      (∀ f ∈ failed, f.isCancelled = false) → failed.length ≤ retries → runs ≤ failed.length + 1 →
      Standing c body input retries (failed.map .error ++ [.ok output]) runs
        (.going (.ret (output, some (.str "ok"))))
  /-- Every attempt failed. -/
  | exhausted {failed : List Failure} {last : Failure} {runs : Nat} :
      (∀ f ∈ failed, f.isCancelled = false) → last.isCancelled = false →
      failed.length = retries → runs ≤ failed.length + 1 →
      Standing c body input retries (failed.map .error ++ [.error last]) runs
        (.going (.ret (.dict (errorOutput c.host last none), some (.str "error"))))
  /-- An attempt was cancelled. -/
  | cancelled {failed : List Failure} {last : Failure} {runs : Nat} :
      (∀ f ∈ failed, f.isCancelled = false) → last.isCancelled = true →
      failed.length ≤ retries → runs ≤ failed.length + 1 →
      Standing c body input retries (failed.map .error ++ [.error last]) runs
        (.going (.raise (.failed last)))

/-- How an attempt may end, in a run that gets to the states `reached`: the run of the body came to
its end, or was cancelled. -/
inductive AttemptEnd (E : Adk) (reached : Watched → Prop) (c : Compiler) (body : WorkflowGraph)
    (input : Value) : Except Failure Value → Prop
  | ended {w : Watched} {inner : Frame} {outer : List Frame} :
      reached w → w.frames = inner :: outer →
      inner.compiler = c.inner body input c.stack c.level → inner.Ended E →
      AttemptEnd E reached c body input inner.result
  | wrapped {w : Watched} {inner : Frame} {outer : List Frame} {failure failure' : Failure} :
      reached w → w.frames = inner :: outer →
      inner.compiler = c.inner body input c.stack c.level → inner.Ended E →
      inner.result = .error failure → HandedOn failure failure' →
      AttemptEnd E reached c body input (.error failure')
  | cancelled {w : Watched} {failure : Failure} :
      reached w → w.cancelled = true → HandedOn cancelledFailure failure →
      AttemptEnd E reached c body input (.error failure)

/-- What holds of a `try` at work. -/
structure Trying (E : Adk) (reached : Watched → Prop) (c : Compiler) (job : Job) : Prop where
  late : job.late = none
  results : ∃ body results, bodyOf job.node = .ok body ∧
    job.asked = results.map (fun result => ⟨runBody c body job.input, result⟩) ∧
    (∀ result ∈ results, AttemptEnd E reached c body job.input result) ∧
    Standing c body job.input (count job.node "retries") results job.runs job.stage

section Standing

variable {body : WorkflowGraph} {input : Value} {retries runs : Nat}
  {results : List (Except Failure Value)}

/-- The attempts begin with a run of the body. -/
theorem attempts_eq_act (c : Compiler) (body : WorkflowGraph) (input : Value) (left : Nat) :
    ∃ next, attempts c body input left = .act (runBody c body input) next := by
  cases left with
  | zero => exact ⟨_, rfl⟩
  | succ left => exact ⟨_, rfl⟩

/-- **One attempt.**  Its result is the output of the `try`, or its failure, or one attempt less is
left. -/
theorem standing_reply {failed : List Failure}
    {next : Except Failure Value → Work (Value × Option Value)}
    (hfailed : ∀ f ∈ failed, f.isCancelled = false) (hlength : failed.length ≤ retries)
    (hruns : runs ≤ failed.length + 1)
    (hnext : attempts c body input (retries - failed.length) = .act (runBody c body input) next)
    (reply : Except Failure Value) :
    Standing c body input retries (failed.map .error ++ [reply]) runs (.going (next reply)) := by
  cases hleft : retries - failed.length with
  | zero =>
    rw [hleft] at hnext
    cases hnext
    cases reply with
    | ok output => exact .succeeded hfailed hlength hruns
    | error f =>
      dsimp only
      by_cases hcancelled : f.isCancelled = true
      · rw [if_pos hcancelled]
        exact .cancelled hfailed hcancelled hlength hruns
      · rw [if_neg hcancelled]
        exact .exhausted hfailed (Bool.not_eq_true _ ▸ hcancelled) (by omega) hruns
  | succ left =>
    rw [hleft] at hnext
    cases hnext
    cases reply with
    | ok output => exact .succeeded hfailed hlength hruns
    | error f =>
      dsimp only
      by_cases hcancelled : f.isCancelled = true
      · rw [if_pos hcancelled]
        exact .cancelled hfailed hcancelled hlength hruns
      · rw [if_neg hcancelled]
        have hall : ∀ g ∈ failed ++ [f], g.isCancelled = false := by
          intro g hg
          rcases List.mem_append.mp hg with hg | hg
          · exact hfailed g hg
          · rw [List.mem_singleton.mp hg]
            exact Bool.not_eq_true _ ▸ hcancelled
        have hsum : (failed ++ [f]).length = failed.length + 1 := by simp
        have hstanding := @Standing.next c body input retries (failed ++ [f]) runs hall
          (by omega) (by omega)
        have hrest : retries - (failed ++ [f]).length = left := by omega
        rw [hrest, List.map_append] at hstanding
        exact hstanding

/-- The work of a `try` asks for nothing but runs of its body. -/
theorem Standing.isRun {e : Event} {next : Reply e → Work (Value × Option Value)}
    (h : Standing c body input retries results runs (.going (.act e next))) : IsRun e := by
  generalize hstage : Stage.going (.act e next) = stage at h
  cases h with
  | @next failed runs _ _ _ =>
    obtain ⟨next', hnext'⟩ := attempts_eq_act c body input (retries - failed.length)
    rw [hnext'] at hstage
    cases hstage
    trivial
  | inside _ _ _ _ => cases hstage
  | succeeded _ _ _ => cases hstage
  | exhausted _ _ _ _ => cases hstage
  | cancelled _ _ _ _ => cases hstage

/-- An attempt that is asked for is one of the body, and one is left. -/
theorem Standing.asks {body' : WorkflowGraph} {payload : Value} {stack : List String} {level : Nat}
    {next : Except Failure Value → Work (Value × Option Value)}
    (h : Standing c body input retries results runs
      (.going (.act (.ask (.runBody body' payload stack level)) next))) :
    Event.ask (.runBody body' payload stack level) = runBody c body input ∧
      ∃ failed : List Failure, results = failed.map .error ∧
        (∀ f ∈ failed, f.isCancelled = false) ∧ failed.length ≤ retries ∧ runs ≤ failed.length ∧
        attempts c body input (retries - failed.length) = .act (runBody c body input) next := by
  generalize hstage : Stage.going (.act (.ask (.runBody body' payload stack level)) next) = stage at h
  cases h with
  | @next failed runs hfailed hlength hruns =>
    obtain ⟨next', hnext'⟩ := attempts_eq_act c body input (retries - failed.length)
    have hwork := Stage.going.inj hstage
    rw [hnext'] at hwork
    unfold runBody at hwork
    cases hwork
    exact ⟨rfl, failed, rfl, hfailed, hlength, hruns, hnext'⟩
  | inside _ _ _ _ => cases hstage
  | succeeded _ _ _ => cases hstage
  | exhausted _ _ _ _ => cases hstage
  | cancelled _ _ _ _ => cases hstage

/-- An attempt ends. -/
theorem Standing.reply {request : Request}
    {next : Except Failure Value → Work (Value × Option Value)}
    (h : Standing c body input retries results runs (.inside request next))
    (reply : Except Failure Value) :
    request = .runBody body input c.stack c.level ∧
      Standing c body input retries (results ++ [reply]) runs (.going (next reply)) := by
  cases h with
  | inside hfailed hlength hruns hnext =>
    exact ⟨rfl, standing_reply hfailed hlength hruns hnext reply⟩

end Standing

/-! ## 3. A step keeps the attempts -/

variable {reached : Watched → Prop}

theorem told_asked {results : List (Except Failure Value)} {job : Job} {body : WorkflowGraph}
    {next : Except Failure Value → Work (Value × Option Value)}
    (hasked : job.asked = results.map fun result => ⟨runBody c body job.input, result⟩)
    (reply : Except Failure Value) :
    (job.told (runBody c body job.input) reply (next reply)).asked =
      (results ++ [reply]).map fun result => ⟨runBody c body job.input, result⟩ := by
  rw [List.map_append, ← hasked]
  rfl

section Job

variable {job : Job} {body : WorkflowGraph} {payload : Value} {stack : List String} {level : Nat}
  {request : Request} {next : Except Failure Value → Work (Value × Option Value)}

/-- The result of an attempt. -/
theorem Trying.reply (h : Trying E reached c job) (hstage : job.stage = .inside request next)
    {reply : Except Failure Value}
    (hend : ∀ body, request = .runBody body job.input c.stack c.level →
      AttemptEnd E reached c body job.input reply) :
    Trying E reached c (job.told (.ask request) reply (next reply)) := by
  obtain ⟨hlate, body, results, hbody, hasked, hends, hstanding⟩ := h
  rw [hstage] at hstanding
  obtain ⟨rfl, hnext⟩ := hstanding.reply reply
  exact ⟨hlate, body, results ++ [reply], hbody, told_asked hasked reply,
    List.forall_mem_append.mpr ⟨hends, List.forall_mem_singleton.mpr (hend body rfl)⟩, hnext⟩

/-- An attempt begins. -/
theorem Trying.enter (h : Trying E reached c job)
    (hstage : job.stage = .going (.act (.ask (.runBody body payload stack level)) next)) :
    Trying E reached c { job with
      stage := .inside (.runBody body payload stack level) next
      runs := job.runs + 1 } := by
  obtain ⟨hlate, body', results, hbody, hasked, hends, hstanding⟩ := h
  rw [hstage] at hstanding
  obtain ⟨hrun, failed, rfl, hfailed, hlength, hruns, hnext⟩ := hstanding.asks
  cases hrun
  exact ⟨hlate, body, failed.map .error, hbody, hasked, hends,
    .inside hfailed hlength (Nat.add_le_add_right hruns 1) hnext⟩

/-- An attempt does not begin. -/
theorem Trying.refused (h : Trying E reached c job)
    (hstage : job.stage = .going (.act (.ask (.runBody body payload stack level)) next))
    {reply : Except Failure Value}
    (hend : ∀ body, AttemptEnd E reached c body job.input reply) :
    Trying E reached c
      (job.told (.ask (.runBody body payload stack level)) reply (next reply)) := by
  obtain ⟨hlate, body', results, hbody, hasked, hends, hstanding⟩ := h
  rw [hstage] at hstanding
  obtain ⟨hrun, failed, rfl, hfailed, hlength, hruns, hnext⟩ := hstanding.asks
  cases hrun
  refine ⟨hlate, body, failed.map .error ++ [reply], hbody, ?_, ?_, ?_⟩
  · exact told_asked hasked reply
  · exact List.forall_mem_append.mpr ⟨hends, List.forall_mem_singleton.mpr (hend body)⟩
  · exact standing_reply hfailed hlength (Nat.le_succ_of_le hruns) hnext reply

end Job

/-- A node of an accepted graph goes to work. -/
theorem trying_start {f : Frame} (h : f.Sound) (hn : n ∈ f.graph.nodes) (htype : n.type = .tryBody)
    (input : Value) :
    Trying E reached f.compiler ⟨n, input, .going (attempt f.compiler n input), [], none, 0⟩ := by
  obtain ⟨depth, ctx, haccepted⟩ := h.1.accepted
  obtain ⟨body, hbody⟩ := bodyOf_ok ((validateWith_ok haccepted).nodes n hn) htype
  refine ⟨rfl, body, [], hbody, rfl, by simp, ?_⟩
  rw [attempt_try htype hbody]
  exact @Standing.next f.compiler body input _ [] 0 (by simp) (Nat.zero_le _) (Nat.le_refl _)

/-- The inner graph is the one that the node at work in the outer one asked to run. -/
def AskedFor (inner f : Frame) : Prop :=
  ∃ job body payload stack level next, f.job = some job ∧
    job.stage = .inside (.runBody body payload stack level) next ∧
    inner.compiler = f.compiler.inner body payload stack level

/-- What holds of the stack: a node works in a run that goes on, the graphs are those that were
asked for, and every `try` is as its attempts leave it. -/
structure Watches (E : Adk) (reached : Watched → Prop) (frames : List Frame) : Prop where
  going : ∀ f ∈ frames, f.job ≠ none → f.flow.stopped = none
  asked : frames.IsChain AskedFor
  trying : ∀ f ∈ frames, ∀ job, f.job = some job → job.node.type = .tryBody →
    Trying E reached f.compiler job

section Frames

variable {f f' : Frame} {outer frames frames' : List Frame} {job : Job}

/-- The innermost graph goes on. -/
theorem Watches.replace (h : Watches E reached (f :: outer)) (hcompiler : f'.compiler = f.compiler)
    (hgoing : f'.job ≠ none → f'.flow.stopped = none)
    (htrying : ∀ job, f'.job = some job → job.node.type = .tryBody →
      Trying E reached f'.compiler job) : Watches E reached (f' :: outer) where
  going := List.forall_mem_cons.mpr ⟨hgoing, (List.forall_mem_cons.mp h.going).2⟩
  asked := by
    have hchain := h.asked
    cases outer with
    | nil => exact .singleton _
    | cons g rest =>
      rw [List.isChain_cons_cons] at hchain ⊢
      refine ⟨?_, hchain.2⟩
      unfold AskedFor
      rw [hcompiler]
      exact hchain.1
  trying := List.forall_mem_cons.mpr ⟨htrying, (List.forall_mem_cons.mp h.trying).2⟩

theorem Watches.goOn (h : Watches E reached (f :: outer)) (hjob : f.job ≠ none)
    {job' : Job} (htrying : job'.node.type = .tryBody → Trying E reached f.compiler job') :
    Watches E reached ({ f with job := some job' } :: outer) := by
  refine h.replace rfl (fun _ => h.going f List.mem_cons_self hjob) fun job hjob => ?_
  cases hjob
  exact htrying

theorem Watches.settle (h : Watches E reached (f :: outer)) (n : Node)
    (result : Except Stop (Value × Option Value)) :
    Watches E reached (f.settle E n result :: outer) :=
  h.replace rfl (fun hjob => absurd rfl hjob) fun job hjob =>
    (Option.some_ne_none job hjob.symm).elim

theorem Watches.drop (inner : List Frame) (h : Watches E reached (inner ++ f :: outer)) :
    Watches E reached (f :: outer) where
  going g hg := h.going g (List.mem_append_right inner hg)
  asked := h.asked.right_of_append
  trying g hg := h.trying g (List.mem_append_right inner hg)

/-- The graph above a `try` at work is its body, on its input. -/
theorem Watches.inner_compiler {inner : Frame} (h : Watches E reached (inner :: f :: outer))
    (hjob : f.job = some job) {request : Request}
    {next : Except Failure Value → Work (Value × Option Value)}
    (hstage : job.stage = .inside request next) {body : WorkflowGraph}
    (hrequest : request = .runBody body job.input f.compiler.stack f.compiler.level) :
    inner.compiler = f.compiler.inner body job.input f.compiler.stack f.compiler.level := by
  obtain ⟨job', body', payload, stack, level, next', hjob', hstage', hinner⟩ :=
    (List.isChain_cons_cons.mp h.asked).1
  obtain rfl : job' = job := Option.some.inj (hjob'.symm.trans hjob)
  obtain ⟨hrun, -⟩ := Stage.inside.inj (hstage'.symm.trans hstage)
  rw [hrequest] at hrun
  cases hrun
  exact hinner

/-- **A step of the machine keeps what is said of every `try` at work.** -/
theorem Step.watches (hstep : Engine.Step E frames frames') (hsound : Sound frames)
    {cancelled : Bool} (hreached : reached ⟨cancelled, frames⟩) (h : Watches E reached frames) :
    Watches E reached frames' := by
  have hmem : ∀ {f outer}, frames = f :: outer → f ∈ frames := by
    rintro f outer rfl
    exact List.mem_cons_self
  cases hstep with
  | @receive f f' outer hreceive =>
    obtain ⟨hnone, hgoing, task, rest, -, hgone | ⟨n, -, hfind, -, rfl⟩⟩ := receive_cases hreceive
    · have hf' := hgone fun _ _ => anyReply
      have hnone' : f'.job = none := by rw [hf', hnone]
      refine h.replace (by rw [hf']) (fun hjob => absurd hnone' hjob) fun job hjob => ?_
      rw [hnone'] at hjob
      cases hjob
    · obtain ⟨hn, -⟩ := WorkflowGraph.find?_some hfind
      refine h.replace rfl (fun _ => hgoing) fun job hjob htype => ?_
      cases hjob
      exact trying_start (hsound.each f List.mem_cons_self) hn htype task.input
  | @reply f outer job e next reply hjob hstage hplain hreply =>
    refine h.goOn (by rw [hjob]; simp) fun htype => ?_
    obtain ⟨-, body, results, -, -, -, hstanding⟩ := h.trying f List.mem_cons_self job hjob htype
    rw [hstage] at hstanding
    exact absurd hstanding.isRun hplain
  | @arm f outer job seconds next hjob hstage =>
    refine h.goOn (by rw [hjob]; simp) fun htype => ?_
    obtain ⟨-, body, results, -, -, -, hstanding⟩ := h.trying f List.mem_cons_self job hjob htype
    rw [hstage] at hstanding
    exact hstanding.isRun.elim
  | @enter f outer job body payload stack level next hjob hstage =>
    have hrest : Watches E reached ({ f with
        job := some { job with
          stage := .inside (.runBody body payload stack level) next
          runs := job.runs + 1 } } :: outer) :=
      h.goOn (by rw [hjob]; simp) fun htype =>
        (h.trying f List.mem_cons_self job hjob htype).enter hstage
    refine ⟨?_, ?_, ?_⟩
    · exact List.forall_mem_cons.mpr ⟨fun hnone => absurd rfl hnone, hrest.going⟩
    · exact List.isChain_cons_cons.mpr ⟨⟨_, body, payload, stack, level, next, rfl, rfl, rfl⟩,
        hrest.asked⟩
    · exact List.forall_mem_cons.mpr ⟨fun job' hjob' => (Option.some_ne_none job' hjob'.symm).elim,
        hrest.trying⟩
  | @leave inner f outer job request next hended hjob hstage =>
    have hrest : Watches E reached (f :: outer) := h.drop [inner]
    refine hrest.goOn (by rw [hjob]; simp) fun htype => ?_
    refine (hrest.trying f List.mem_cons_self job hjob htype).reply hstage fun body hrequest => ?_
    exact .ended hreached rfl (h.inner_compiler hjob hstage hrequest) hended
  | settle _ _ _ => exact h.settle _ _
  | expire _ _ => exact (h.drop _).settle _ _

theorem Watched.Step.watches {w w' : Watched} (hstep : w.Step E w') (hsound : Sound w.frames)
    (hreached : reached w) (h : Watches E reached w.frames) : Watches E reached w'.frames := by
  cases hstep with
  | cancel => exact h
  | goOn hstep _ => exact hstep.watches hsound hreached h
  | expire _ _ => exact (h.drop _).settle _ _
  | @wrapped _ inner f outer job request next failure failure' hended hresult hwrap hjob hstage =>
    have hrest : Watches E reached (f :: outer) := h.drop [inner]
    refine hrest.goOn (by rw [hjob]; simp) fun htype => ?_
    refine (hrest.trying f List.mem_cons_self job hjob htype).reply hstage fun body hrequest => ?_
    exact .wrapped hreached rfl (h.inner_compiler hjob hstage hrequest) hended hresult hwrap
  | @refuse inner f outer job request next failure hstarts hwrap hjob hstage =>
    have hrest : Watches E reached (f :: outer) := h.drop [inner]
    refine hrest.goOn (by rw [hjob]; simp) fun htype => ?_
    refine (hrest.trying f List.mem_cons_self job hjob htype).reply hstage fun body hrequest => ?_
    exact .cancelled hreached rfl hwrap
  | @refuseRun f outer job body payload stack level next hjob hstage =>
    refine h.goOn (by rw [hjob]; simp) fun htype => ?_
    refine (h.trying f List.mem_cons_self job hjob htype).refused hstage fun body => ?_
    exact .cancelled hreached rfl (.inl rfl)
  | done _ => exact ⟨by simp, .nil, by simp⟩

/-- **A step changes the flow of the innermost run alone.** -/
theorem Watched.Step.flows {w w' : Watched} (h : w.Step E w') :
    (w'.frames.map Frame.flow).tail <:+ w.frames.map Frame.flow := by
  cases h with
  | cancel => exact List.tail_suffix _
  | goOn hstep _ =>
    cases hstep with
    | receive _ => exact List.suffix_cons _ _
    | reply _ _ _ _ => exact List.suffix_cons _ _
    | arm _ _ => exact List.suffix_cons _ _
    | enter _ _ => exact List.suffix_refl _
    | leave _ _ _ => exact (List.suffix_cons _ _).trans (List.suffix_cons _ _)
    | settle _ _ _ => exact List.suffix_cons _ _
    | @expire inner f outer job stop _ _ =>
      rw [List.map_append]
      exact (List.suffix_cons _ _).trans (List.suffix_append _ _)
  | @expire _ inner f outer job stop _ _ =>
    dsimp only
    rw [List.map_append]
    exact (List.suffix_cons _ _).trans (List.suffix_append _ _)
  | wrapped _ _ _ _ _ => exact (List.suffix_cons _ _).trans (List.suffix_cons _ _)
  | refuse _ _ _ _ => exact (List.suffix_cons _ _).trans (List.suffix_cons _ _)
  | refuseRun _ _ => exact List.suffix_cons _ _
  | done _ => exact List.nil_suffix

/-- The number of nodes at work. -/
def working (frames : List Frame) : Nat := frames.countP fun f => f.job.isSome

@[simp] theorem working_cons (f : Frame) (outer : List Frame) :
    working (f :: outer) = working outer + if f.job.isSome then 1 else 0 := List.countP_cons

@[simp] theorem working_append (inner outer : List Frame) :
    working (inner ++ outer) = working inner + working outer := List.countP_append

/-- **After a cancellation, no node starts and no nested run begins.** -/
theorem Watched.Step.begins_nothing {w w' : Watched} (h : w.Step E w')
    (hcancelled : w.cancelled = true) :
    w'.frames.length ≤ w.frames.length ∧ working w'.frames ≤ working w.frames := by
  cases h with
  | cancel => exact ⟨Nat.le_refl _, Nat.le_refl _⟩
  | goOn hstep hchecks =>
    have hchecks := hchecks hcancelled
    cases hstep with
    | @receive f f' outer hreceive =>
      obtain ⟨hnone, hgoing, task, rest, htake, hgone | ⟨n, hnode, -⟩⟩ := receive_cases hreceive
      · have hf' := hgone fun _ _ => anyReply
        have hnone' : f'.job = none := by rw [hf', hnone]
        simp [hnone, hnone']
      · exact absurd ⟨hnone, hgoing, task, rest, n.id, htake, hnode⟩ (hchecks f rfl).1
    | reply hjob _ _ _ => simp [hjob]
    | arm hjob _ => simp [hjob]
    | @enter f outer job body payload stack level next hjob hstage =>
      exact absurd ⟨job, .ask (.runBody body payload stack level), next, hjob, hstage, trivial⟩
        (hchecks f rfl).2
    | leave _ hjob _ => simp [hjob]
    | settle hjob _ _ => simp [hjob, Frame.settle]
    | expire hjob _ => simp [hjob, Frame.settle]; omega
  | expire hjob _ => simp [hjob, Frame.settle]; omega
  | wrapped _ _ _ hjob _ => simp [hjob, Frame.failed]
  | refuse _ _ hjob _ => simp [hjob, Frame.failed]
  | refuseRun hjob _ => simp [hjob, Frame.failed]
  | done _ => exact ⟨Nat.zero_le _, Nat.zero_le _⟩

end Frames

/-! ## 4. What a try gives on -/

/-- What is said of a `try` whose work is done. -/
theorem Standing.ended {body : WorkflowGraph} {input : Value} {retries runs : Nat}
    {results : List (Except Failure Value)} {work : Work (Value × Option Value)}
    {result : Except Stop (Value × Option Value)}
    (h : Standing c body input retries results runs (.going work)) (hresult : result? work = some result) :
    ∃ failed : List Failure, (∀ f ∈ failed, f.isCancelled = false) ∧ failed.length ≤ retries ∧
      ((∃ output, results = failed.map .error ++ [.ok output] ∧
          result = .ok (output, some (.str "ok"))) ∨
        (∃ last, results = failed.map .error ++ [.error last] ∧ last.isCancelled = false ∧
          failed.length = retries ∧
          result = .ok (.dict (errorOutput c.host last none), some (.str "error"))) ∨
        ∃ last, results = failed.map .error ++ [.error last] ∧ last.isCancelled = true ∧
          result = .error (.failed last)) := by
  cases h with
  | @next failed runs hfailed hlength hruns =>
    obtain ⟨next, hnext⟩ := attempts_eq_act c body input (retries - failed.length)
    rw [hnext] at hresult
    cases hresult
  | @succeeded failed runs output hfailed hlength hruns =>
    cases hresult
    exact ⟨failed, hfailed, hlength, .inl ⟨output, rfl, rfl⟩⟩
  | @exhausted failed last runs hfailed hlast hlength hruns =>
    cases hresult
    exact ⟨failed, hfailed, hlength.le, .inr (.inl ⟨last, rfl, hlast, hlength, rfl⟩)⟩
  | @cancelled failed last runs hfailed hlast hlength hruns =>
    cases hresult
    exact ⟨failed, hfailed, hlength, .inr (.inr ⟨last, rfl, hlast, rfl⟩)⟩

/-- The attempts are bounded, and all but the last one failed. -/
theorem Standing.bounds {body : WorkflowGraph} {input : Value} {retries runs : Nat}
    {results : List (Except Failure Value)} {stage : Stage}
    (h : Standing c body input retries results runs stage) :
    runs ≤ retries + 1 ∧ results.length ≤ retries + 1 ∧
      ∀ result ∈ results.dropLast, ∃ f : Failure, result = .error f ∧ f.isCancelled = false := by
  have hmap : ∀ {failed : List Failure}, (∀ f ∈ failed, f.isCancelled = false) →
      ∀ result ∈ failed.map (.error : Failure → Except Failure Value), ∃ f : Failure,
        result = .error f ∧ f.isCancelled = false := by
    intro failed hfailed result hresult
    obtain ⟨f, hf, rfl⟩ := List.mem_map.mp hresult
    exact ⟨f, rfl, hfailed f hf⟩
  cases h with
  | next hfailed hlength hruns =>
    refine ⟨by omega, by rw [List.length_map]; omega, fun result hresult => ?_⟩
    exact hmap hfailed result (List.mem_of_mem_dropLast hresult)
  | inside hfailed hlength hruns _ =>
    refine ⟨by omega, by rw [List.length_map]; omega, fun result hresult => ?_⟩
    exact hmap hfailed result (List.mem_of_mem_dropLast hresult)
  | succeeded hfailed hlength hruns =>
    refine ⟨by omega, by simpa using hlength, ?_⟩
    rw [List.dropLast_concat]
    exact hmap hfailed
  | exhausted hfailed _ hlength hruns =>
    refine ⟨by omega, by simpa using hlength.le, ?_⟩
    rw [List.dropLast_concat]
    exact hmap hfailed
  | cancelled hfailed _ hlength hruns =>
    refine ⟨by omega, by simpa using hlength, ?_⟩
    rw [List.dropLast_concat]
    exact hmap hfailed

/-- The node ends with this output, by this route: they are written, and the run goes on, unless the
output is larger than an output may be. -/
def GivesOn (E : Adk) (f : Frame) (n : Node) (result : Except Stop (Value × Option Value))
    (output : Value) (route : String) : Prop :=
  result = .ok (output, some (.str route)) ∧
    (output.json.utf8ByteSize ≤ maxNodeOutputBytes →
      (f.settle E n result).flow.stopped = none ∧
      (f.settle E n result).flow.outputs = f.flow.outputs.put n.id output ∧
      (f.settle E n result).flow.routes = f.flow.routes.put n.id (.str route))

theorem givesOn {f : Frame} (hgoing : f.flow.stopped = none) (output : Value) (route : String) :
    GivesOn E f n (.ok (output, some (.str route))) output route := by
  refine ⟨rfl, fun hfits => ?_⟩
  have hcapped : wrap f.compiler.host n (.ok (output, some (.str route))) =
      ⟨none, .ok (output, some (.str route))⟩ := by
    unfold wrap capped
    dsimp only
    rw [if_neg (Nat.not_lt.mpr hfits)]
  unfold Frame.settle
  rw [hcapped]
  unfold Flow.settle
  dsimp only
  unfold Flow.complete
  obtain ⟨queue, held, hdeliver⟩ := deliver_frame E f.graph (.function n.id) output
    (handOver n (some (.str route)))
    { f.flow with
      handledErrors := putSome f.flow.handledErrors n.id none
      outputs := f.flow.outputs.put n.id output
      routes := putSome f.flow.routes n.id (some (.str route))
      events := f.flow.events ++ [FlowEvent.start n.id false] ++
        [FlowEvent.complete n.id output (some (.str route)) none false] }
  rw [hdeliver]
  exact ⟨hgoing, rfl, rfl⟩

/-- A `try` absorbs no cancellation. -/
theorem stops_cancelled {f : Frame} (failure : Failure) (hcancelled : failure.isCancelled = true) :
    (f.settle E n (.error (.failed failure))).flow.stopped = some (n.id, .failed failure) := by
  have hwrap : wrap f.compiler.host n (.error (.failed failure)) = ⟨none, .error (.failed failure)⟩ := by
    unfold wrap handled
    dsimp only
    rw [if_pos hcancelled]
  unfold Frame.settle
  rw [hwrap]
  rfl

/-- The states that the run of a workflow gets to, as it is watched. -/
def Watched.Reached (E : Adk) (c : Compiler) (past : Replay) (w : Watched) : Prop :=
  ReflTransGen (Watched.Step E) ⟨false, [.start E c past]⟩ w

theorem watches_of_reached {past : Replay} {w : Watched} (hc : c.Sound) (hlevel : c.level = 1)
    (h : w.Reached E c past) :
    Sound w.frames ∧ Watches E (Watched.Reached E c past) w.frames := by
  induction h with
  | refl =>
    refine ⟨sound_start hc hlevel, ?_, .singleton _, ?_⟩
    · exact List.forall_mem_singleton.mpr fun hjob => absurd rfl hjob
    · exact List.forall_mem_singleton.mpr fun job hjob => (Option.some_ne_none job hjob.symm).elim
  | tail hreach hstep ih => exact ⟨hstep.sound ih.1, hstep.watches ih.1 hreach ih.2⟩

/-- A `try` of a tool. -/
def triesTool : WorkflowGraph where
  nodes := [⟨"start", .trigger, []⟩,
    ⟨"again", .tryBody, [("retries", .int 0),
      ("body", .dict [
        ("nodes", .list [
          .dict [("id", .str "item"), ("type", .str "trigger")],
          .dict [("id", .str "call"), ("type", .str "tool"),
            ("config", .dict [("tool", .str "fetch")])]]),
        ("edges", .list [.dict [("source", .str "item"), ("target", .str "call")]])])]⟩]
  edges := [⟨"start", "again", none⟩]

theorem triesTool_valid : validateGraph 1 quiet triesTool = .ok () := by decide

/-- The run of `triesTool`. -/
def triesToolRun : Compiler := topCompiler (bareHost noServices) triesTool .null (fun _ => none) none

/-- The tool fails with a message, and the `try` is done. -/
theorem triesTool_fails (message : String) :
    ∃ f job, (⟨false, [f]⟩ : Watched).Reached .fifo triesToolRun .none ∧ f.job = some job ∧
      job.node.type = .tryBody ∧ f.compiler = triesToolRun ∧
      job.stage = .going (.ret (.dict (errorOutput (bareHost noServices)
        ⟨.user message none [], none, false, some "call"⟩ none), some (.str "error"))) := by
  have hstart : (⟨false, [.start .fifo triesToolRun .none]⟩ : Watched).Reached .fifo triesToolRun
      .none := .refl
  have htrigger := hstart.tail (.goOn (.receive rfl) nofun)
  have hpayload := htrigger.tail (.goOn (.settle rfl rfl rfl) nofun)
  have htry := hpayload.tail (.goOn (.receive rfl) nofun)
  have hbody := htry.tail (.goOn (.enter rfl rfl) nofun)
  have hitem := hbody.tail (.goOn (.receive rfl) nofun)
  have hinput := hitem.tail (.goOn (.settle rfl rfl rfl) nofun)
  have hcall := hinput.tail (.goOn (.receive rfl) nofun)
  have hfails := hcall.tail (.goOn (@Step.reply .fifo _ _ _
    (.ask (.tool (.str "fetch") (.dict []) true)) _ (.error (.of (.user message none [])))
    rfl rfl id trivial) nofun)
  have hstops := hfails.tail (.goOn (.settle rfl rfl rfl) nofun)
  have hended := hstops.tail (.goOn (.leave ⟨rfl, rfl⟩ rfl rfl) nofun)
  exact ⟨_, _, hended, rfl, rfl, rfl, rfl⟩

/-- The description of a failure is no smaller than its message. -/
theorem message_le_errorOutput (host : Host) (message : String) (node : Option String) :
    message.utf8ByteSize ≤ (Value.dict (errorOutput host ⟨.user message none [], none, false, node⟩
      none)).json.utf8ByteSize := by
  rw [← writtenSize_bytes, ← size_bytes]
  have hdetail : ("detail", Value.str message) ∈
      errorOutput host ⟨.user message none [], none, false, node⟩ none :=
    List.mem_cons_of_mem _ List.mem_cons_self
  exact (size_le_quoted noLighter_bytes message).trans (writtenSize_entry hdetail)

/-- There are texts of any size. -/
theorem exists_size (n : Nat) : ∃ s : String, s.utf8ByteSize = n := by
  refine ⟨String.ofList (List.replicate n 'a'), ?_⟩
  have hbyte : Char.utf8Size 'a' = 1 := by decide
  rw [← size_bytes, size, String.toList_ofList, Squeeze.total, List.map_replicate, hbyte,
    List.sum_replicate, smul_eq_mul, Nat.mul_one]

end Apowerb.Engine
