/-
# Lists of patches, one after the other

`apply_ops` checks a dashboard only once all of the operations of a list are applied, so that a list
may pass through dashboards that are refused as a result.

* **Two lists are one** (`applyOps_append`).  Where a first list leaves a dashboard, a second one is
  accepted on it exactly where the two in a row are accepted, and the results have the same content.
* **But for the version of the spec** (`not_append_specVersion`): a dashboard is raised to the
  second version by the list that leaves a visual, and is not lowered by the one that removes it.
* **What is reported** (`patched_eq_operation_iff`): the first operation that fails, by its place
  and its name, or else what is wrong with the whole.
-/
import Apowerb.Bi.Dashboards

namespace Apowerb.Bi.Spec.Patches

open Spec

/-! ## 1. The numbers of a dashboard

No operation reads the version of the dashboard or that of its spec, and none writes them. -/

/-- A dashboard under other numbers. -/
def numbered (version specVersion : Nat) (d : Dashboard) : Dashboard :=
  { d with version := version, specVersion := specVersion }

@[simp]
theorem numbered_self (d : Dashboard) : numbered d.version d.specVersion d = d := rfl

/-- Whether a dashboard holds something of the second version. -/
def holdsV2 (d : Dashboard) : Bool := hasV2 d.sources d.filters d.components

theorem map_bind {ε α β γ : Type} (x : Except ε α) (f : α → Except ε β) (g : β → γ) :
    (x >>= f).map g = x >>= fun a => (f a).map g := by
  cases x <;> rfl

theorem applyOp_numbered (env : Env) (v s : Nat) (d : Dashboard) (op : PatchOp) :
    applyOp env (numbered v s d) op = (applyOp env d op).map (numbered v s) := by
  cases op with
  | updateVisual componentId changes =>
    simp only [applyOp, map_bind]
    refine bind_congr fun found => ?_
    obtain ⟨i, c⟩ := found
    cases hcontent : c.content with
    | visual visual => simp only [map_bind]; rfl
    | chart _ | keyValue _ | table _ _ => rfl
  | addVisual _ _ _ _ | removeComponent _ | moveComponent _ _ | removeSource _ | upsertMeasure _ _
  | removeMeasure _ _ | removeFilter _ =>
    simp only [applyOp, map_bind]
    rfl
  | upsertSource _ | upsertFilter _ | setTitle _ _ => rfl

theorem foldlM_numbered (env : Env) (v s : Nat) (ops : List PatchOp) (d : Dashboard) :
    ops.foldlM (applyOp env) (numbered v s d) =
      (ops.foldlM (applyOp env) d).map (numbered v s) := by
  induction ops generalizing d with
  | nil => rfl
  | cons op rest ih =>
    rw [List.foldlM_cons, List.foldlM_cons, applyOp_numbered, map_bind]
    cases applyOp env d op with
    | error e => rfl
    | ok next => exact ih next

/-- The operations keep the numbers: they are those of the same operations on the dashboard under
its own. -/
theorem foldlM_keeps {env : Env} {ops : List PatchOp} {d current : Dashboard}
    (h : ops.foldlM (applyOp env) d = .ok current) :
    numbered d.version d.specVersion current = current := by
  have hframe := foldlM_numbered env d.version d.specVersion ops d
  rw [numbered_self, h] at hframe
  exact (Except.ok.inj hframe).symm

/-! ## 2. Two lists -/

/-- The version of the spec of a dashboard that a list leaves. -/
def specVersionAfter (specVersion : Nat) (current : Dashboard) : Nat :=
  if holdsV2 current then max specVersion 2 else specVersion

/-- What a list leaves: what its operations make, numbered, in its bounds and valid. -/
theorem applyOps_eq_ok_iff {env : Env} {d d' : Dashboard} {ops : List PatchOp} :
    applyOps env d ops = .ok d' ↔
      ∃ current, ops.foldlM (applyOp env) d = .ok current ∧
        numbered (d.version + 1) (specVersionAfter d.specVersion current) current = d' ∧
        d'.fits = true ∧ validateSpec env.tools d' = [] := by
  unfold applyOps
  rw [Except.bind_eq_ok_iff]
  refine exists_congr fun current => and_congr_right fun hcurrent => ?_
  have hkeeps : current.specVersion = d.specVersion := by
    rw [← foldlM_keeps hcurrent]
    rfl
  rw [hkeeps]
  constructor
  · intro h
    obtain ⟨_, hfits, h⟩ := Except.bind_eq_ok_iff.mp h
    obtain ⟨_, hvalid, h⟩ := Except.bind_eq_ok_iff.mp h
    rw [refuse_eq_ok_iff, Bool.not_eq_false] at hfits
    rw [refuse_eq_ok_iff, not_not] at hvalid
    cases h
    exact ⟨rfl, hfits, hvalid⟩
  · rintro ⟨rfl, hfits, hvalid⟩
    refine Except.bind_eq_ok_iff.mpr ⟨(), ?_, Except.bind_eq_ok_iff.mpr ⟨(), ?_, rfl⟩⟩
    · rw [refuse_eq_ok_iff, Bool.not_eq_false]
      exact hfits
    · rw [refuse_eq_ok_iff, not_not]
      exact hvalid

/-- The bounds of a dashboard under numbers that are positive. -/
theorem fits_numbered {v s v' s' : Nat} {d : Dashboard} (hv : 1 ≤ v') (hs : 1 ≤ s')
    (h : (numbered v s d).fits = true) : (numbered v' s' d).fits = true := by
  rw [Dashboard.fits_iff] at *
  exact ⟨h.1, h.2.1, h.2.2.1, hv, hs⟩

theorem le_specVersionAfter {s : Nat} (h : 1 ≤ s) (d : Dashboard) : 1 ≤ specVersionAfter s d := by
  unfold specVersionAfter
  split <;> omega

theorem applyOps_numbers {env : Env} {d d' : Dashboard} {ops : List PatchOp}
    (h : applyOps env d ops = .ok d') :
    d'.version = d.version + 1 ∧ d'.specVersion = specVersionAfter d.specVersion d' := by
  obtain ⟨current, -, rfl, -, -⟩ := applyOps_eq_ok_iff.mp h
  exact ⟨rfl, rfl⟩

/-- What two lists in a row leave, told from what the second leaves after the first. -/
theorem applyOps_append_eq_ok_iff {env : Env} {d da x : Dashboard} {a b : List PatchOp}
    (h : d.fits = true) (ha : applyOps env d a = .ok da) :
    applyOps env d (a ++ b) = .ok x ↔
      ∃ y, applyOps env da b = .ok y ∧
        numbered (d.version + 1) (specVersionAfter d.specVersion y) y = x := by
  obtain ⟨middle, hmiddle, rfl, -, -⟩ := applyOps_eq_ok_iff.mp ha
  have hspec : 1 ≤ d.specVersion := (Dashboard.fits_iff.mp h).2.2.2.2
  have hafter := le_specVersionAfter hspec
  simp only [applyOps_eq_ok_iff, List.foldlM_append, hmiddle, foldlM_numbered]
  change (∃ current, b.foldlM (applyOp env) middle = .ok current ∧ _) ↔ _
  cases hlast : b.foldlM (applyOp env) middle with
  | error e =>
    constructor
    · rintro ⟨_, h, -⟩
      cases h
    · rintro ⟨_, ⟨_, h, -⟩, -⟩
      cases h
  | ok last =>
    constructor
    · rintro ⟨_, h, rfl, hfits, hvalid⟩
      cases h
      have hy := fits_numbered (Nat.succ_pos (d.version + 1))
        (le_specVersionAfter (hafter middle) last) hfits
      exact ⟨_, ⟨_, rfl, rfl, hy, hvalid⟩, rfl⟩
    · rintro ⟨_, ⟨_, h, rfl, hfits, hvalid⟩, rfl⟩
      cases h
      have hx := fits_numbered (Nat.succ_pos d.version) (hafter last) hfits
      exact ⟨_, rfl, rfl, hx, hvalid⟩

/-- The versions of the spec agree but where a visual, a source or a filter came and went. -/
theorem specVersionAfter_twice (s : Nat) (da y : Dashboard) :
    specVersionAfter (specVersionAfter s da) y = specVersionAfter s y ↔
      2 ≤ s ∨ (holdsV2 da = true → holdsV2 y = true) := by
  unfold specVersionAfter
  cases holdsV2 da <;> cases holdsV2 y <;> simp

/-! ## 3. What is reported -/

/-- `op.op`. -/
def opName : PatchOp → String
  | .addVisual _ _ _ _ => "add_visual"
  | .updateVisual _ _ => "update_visual"
  | .removeComponent _ => "remove_component"
  | .moveComponent _ _ => "move_component"
  | .upsertSource _ => "upsert_source"
  | .removeSource _ => "remove_source"
  | .upsertMeasure _ _ => "upsert_measure"
  | .removeMeasure _ _ => "remove_measure"
  | .upsertFilter _ => "upsert_filter"
  | .removeFilter _ => "remove_filter"
  | .setTitle _ _ => "set_title"

/-- What a `SpecError` of `apply_ops` is about: an operation, by its place (from one) and its name,
the bounds of the dashboard that is left, or what `validate_spec` says of it. -/
inductive Refusal
  | operation (index : Nat) (op : String) (why : Raised)
  | bounds
  | invalid (errors : List String)
deriving DecidableEq

/-- The operations in turn, from a place in the list. -/
def applyFrom (env : Env) : Nat → Dashboard → List PatchOp → Except Refusal Dashboard
  | _, d, [] => .ok d
  | index, d, op :: rest =>
    match applyOp env d op with
    | .ok next => applyFrom env (index + 1) next rest
    | .error why => .error (.operation index (opName op) why)

/-- `apply_ops`, with what its error says. -/
def patched (env : Env) (d : Dashboard) (ops : List PatchOp) : Except Refusal Dashboard := do
  let current ← applyFrom env 1 d ops
  let left := numbered (d.version + 1) (specVersionAfter current.specVersion current) current
  if left.fits = false then .error .bounds
  else if validateSpec env.tools left ≠ [] then .error (.invalid (validateSpec env.tools left))
  else .ok left

theorem applyFrom_eq_ok_iff {env : Env} {d d' : Dashboard} {ops : List PatchOp} {index : Nat} :
    applyFrom env index d ops = .ok d' ↔ ops.foldlM (applyOp env) d = .ok d' := by
  induction ops generalizing index d with
  | nil => exact ⟨fun h => by cases h; rfl, fun h => by cases h; rfl⟩
  | cons op rest ih =>
    rw [List.foldlM_cons, applyFrom]
    cases applyOp env d op with
    | error e => exact ⟨nofun, nofun⟩
    | ok next => exact ih

/-- The operation that is reported is the first one that fails. -/
theorem applyFrom_eq_error_iff {env : Env} {d : Dashboard} {ops : List PatchOp} {index : Nat}
    {r : Refusal} :
    applyFrom env index d ops = .error r ↔
      ∃ before op rest middle why, ops = before ++ op :: rest ∧
        before.foldlM (applyOp env) d = .ok middle ∧ applyOp env middle op = .error why ∧
        r = .operation (index + before.length) (opName op) why := by
  induction ops generalizing index d with
  | nil =>
    constructor
    · intro h
      cases h
    · rintro ⟨before, op, rest, _, _, h, -⟩
      simp at h
  | cons first others ih =>
    rw [applyFrom]
    cases hfirst : applyOp env d first with
    | error e =>
      constructor
      · intro h
        exact ⟨[], first, others, d, e, rfl, rfl, hfirst, (Except.error.inj h).symm⟩
      · rintro ⟨before, op, rest, middle, why, hops, hbefore, hop, rfl⟩
        cases before with
        | nil =>
          cases hops
          cases hbefore
          rw [hfirst] at hop
          cases hop
          rfl
        | cons op' before =>
          cases hops
          rw [List.foldlM_cons, hfirst] at hbefore
          cases hbefore
    | ok next =>
      refine ih.trans ⟨?_, ?_⟩
      · rintro ⟨before, op, rest, middle, why, rfl, hbefore, hop, rfl⟩
        refine ⟨first :: before, op, rest, middle, why, rfl, ?_, hop, ?_⟩
        · rw [List.foldlM_cons, hfirst]
          exact hbefore
        · rw [List.length_cons, Nat.add_assoc, Nat.add_comm 1]
      · rintro ⟨before, op, rest, middle, why, hops, hbefore, hop, rfl⟩
        cases before with
        | nil =>
          cases hops
          cases hbefore
          rw [hfirst] at hop
          cases hop
        | cons op' before =>
          cases hops
          rw [List.foldlM_cons, hfirst] at hbefore
          refine ⟨before, op, rest, middle, why, rfl, hbefore, hop, ?_⟩
          rw [List.length_cons, Nat.add_assoc, Nat.add_comm 1]

/-- With what its error says, `apply_ops` returns what it returned without. -/
theorem patched_eq_ok_iff {env : Env} {d d' : Dashboard} {ops : List PatchOp} :
    patched env d ops = .ok d' ↔ applyOps env d ops = .ok d' := by
  unfold patched
  rw [Except.bind_eq_ok_iff, applyOps_eq_ok_iff]
  refine exists_congr fun current => ?_
  rw [applyFrom_eq_ok_iff]
  refine and_congr_right fun hcurrent => ?_
  have hkeeps : current.specVersion = d.specVersion := by
    rw [← foldlM_keeps hcurrent]
    rfl
  rw [hkeeps]
  dsimp only
  split
  · next hfits =>
    constructor
    · intro h
      cases h
    · rintro ⟨rfl, hleft, -⟩
      rw [hfits] at hleft
      cases hleft
  · next hfits =>
    rw [Bool.not_eq_false] at hfits
    split
    · next hinvalid =>
      constructor
      · intro h
        cases h
      · rintro ⟨rfl, -, hvalid⟩
        exact absurd hvalid hinvalid
    · next hvalid =>
      rw [not_not] at hvalid
      constructor
      · intro h
        cases h
        exact ⟨rfl, hfits, hvalid⟩
      · rintro ⟨rfl, -, -⟩
        rfl

/-- An operation is reported exactly where it is the first one that fails. -/
theorem patched_eq_operation_iff {env : Env} {d : Dashboard} {ops : List PatchOp} {i : Nat}
    {name : String} {why : Raised} :
    patched env d ops = .error (.operation i name why) ↔
      ∃ before op rest middle, ops = before ++ op :: rest ∧
        before.foldlM (applyOp env) d = .ok middle ∧ applyOp env middle op = .error why ∧
        i = before.length + 1 ∧ name = opName op := by
  have hpatched : patched env d ops = .error (.operation i name why) ↔
      applyFrom env 1 d ops = .error (.operation i name why) := by
    unfold patched
    cases applyFrom env 1 d ops with
    | error r => exact Iff.rfl
    | ok current =>
      constructor
      · intro h
        change (if _ then _ else _ : Except Refusal Dashboard) = _ at h
        split at h
        · cases h
        · split at h <;> cases h
      · intro h
        cases h
  rw [hpatched, applyFrom_eq_error_iff]
  constructor
  · rintro ⟨before, op, rest, middle, why', rfl, hbefore, hop, h⟩
    cases h
    exact ⟨before, op, rest, middle, rfl, hbefore, hop, Nat.add_comm _ _, rfl⟩
  · rintro ⟨before, op, rest, middle, rfl, hbefore, hop, rfl, rfl⟩
    exact ⟨before, op, rest, middle, why, rfl, hbefore, hop, by rw [Nat.add_comm]⟩

/-- What a refusal of a list says: the first operation that fails, or that none does and the whole
is refused. -/
def Reports (env : Env) (d : Dashboard) (ops : List PatchOp) : Refusal → Prop
  | .operation i name why =>
    ∃ before op rest middle, ops = before ++ op :: rest ∧
      before.foldlM (applyOp env) d = .ok middle ∧ applyOp env middle op = .error why ∧
      i = before.length + 1 ∧ name = opName op
  | .bounds | .invalid _ => ∃ current, ops.foldlM (applyOp env) d = .ok current

theorem patched_reports {env : Env} {d : Dashboard} {ops : List PatchOp} {r : Refusal}
    (h : patched env d ops = .error r) : Reports env d ops r := by
  cases r with
  | operation i name why => exact patched_eq_operation_iff.mp h
  | bounds | invalid errors =>
    unfold patched at h
    cases hcurrent : applyFrom env 1 d ops with
    | error r =>
      rw [hcurrent] at h
      cases h
      obtain ⟨_, _, _, _, _, -, -, -, hr⟩ := applyFrom_eq_error_iff.mp hcurrent
      cases hr
    | ok current => exact ⟨current, applyFrom_eq_ok_iff.mp hcurrent⟩

/-! ## 4. The route -/

/-- What the route answers. -/
inductive Answer
  | notFound
  | unprocessable (r : Refusal)
  | dryRun (d : Dashboard)
  | saved (d : Dashboard)
  | raised (e : Raised)

/-- `patch_dashboard_spec`: its answer, and the rows that it leaves. -/
def patchSpec (env : Env) (rows : List Row) (owner id : String) (ops : List PatchOp)
    (dryRun : Bool) : Answer × List Row :=
  match get env rows (some owner) id with
  | none => (.notFound, rows)
  | some d =>
    match patched env d ops with
    | .error r => (.unprocessable r, rows)
    | .ok updated =>
      if dryRun then (.dryRun updated, rows)
      else match save env rows owner updated with
        | .error e => (.raised e, rows)
        | .ok rows => (.saved updated, rows)

/-- A list that fails reports why, and leaves the dashboard as it is stored. -/
theorem refused_of_fails {env : Env} {d : Dashboard} {ops : List PatchOp}
    (h : ∀ d', applyOps env d ops ≠ .ok d') :
    ∃ r, patched env d ops = .error r ∧ Reports env d ops r ∧
      ∀ rows owner id dryRun, get env rows (some owner) id = some d →
        patchSpec env rows owner id ops dryRun = (.unprocessable r, rows) := by
  cases hpatched : patched env d ops with
  | ok d' => exact absurd (patched_eq_ok_iff.mp hpatched) (h d')
  | error r =>
    refine ⟨r, rfl, patched_reports hpatched, fun rows owner id dryRun hget => ?_⟩
    simp only [patchSpec, hget, hpatched]

/-- **Two lists of patches are one.**  After a list that is accepted, another is accepted exactly
where the two in a row are, and the results are the same but for their numbers; the version of the
spec is the same unless a dashboard of the first version came to hold something of the second and
holds nothing of it in the end.  A list that fails changes nothing and reports the first operation
that does. -/
theorem applyOps_append {env : Env} {d da : Dashboard} {a : List PatchOp} (h : d.fits = true)
    (ha : applyOps env d a = .ok da) (b : List PatchOp) :
    ((∃ x, applyOps env d (a ++ b) = .ok x) ↔ ∃ y, applyOps env da b = .ok y) ∧
      (∀ x y, applyOps env d (a ++ b) = .ok x → applyOps env da b = .ok y →
        numbered y.version y.specVersion x = y ∧
          (y.specVersion = x.specVersion ↔
            2 ≤ d.specVersion ∨ (holdsV2 da = true → holdsV2 y = true))) ∧
      ∀ ops, (∀ d', applyOps env d ops ≠ .ok d') →
        ∃ r, patched env d ops = .error r ∧ Reports env d ops r ∧
          ∀ rows owner id dryRun, get env rows (some owner) id = some d →
            patchSpec env rows owner id ops dryRun = (.unprocessable r, rows) := by
  refine ⟨⟨?_, ?_⟩, fun x y hx hy => ?_, fun ops hops => refused_of_fails hops⟩
  · rintro ⟨x, hx⟩
    obtain ⟨y, hy, -⟩ := (applyOps_append_eq_ok_iff h ha).mp hx
    exact ⟨y, hy⟩
  · rintro ⟨y, hy⟩
    exact ⟨_, (applyOps_append_eq_ok_iff h ha).mpr ⟨y, hy, rfl⟩⟩
  · obtain ⟨y', hy', rfl⟩ := (applyOps_append_eq_ok_iff h ha).mp hx
    rw [hy] at hy'
    cases hy'
    refine ⟨rfl, ?_⟩
    rw [(applyOps_numbers hy).2, (applyOps_numbers ha).2]
    exact specVersionAfter_twice d.specVersion da y

/-! ## 5. A note that comes and goes -/

/-- A dashboard of the first version, with nothing on it. -/
def blankDashboard : Dashboard :=
  (createRequest "Sales" none [] sales_bounds).dashboard "d1" "ada@lab.org"

/-- A note, which reads no source. -/
def note : VisualSpec :=
  { totalKpi with type := .note, source := none, kpi := none, text := some "Read me" }

def addNote : PatchOp := .addVisual note [] (some "n1") "drawn"

/-- Added and removed in one list, the note leaves a dashboard of the first version; in two, one of
the second. -/
theorem not_append_specVersion :
    blankDashboard.fits = true ∧
      ∃ da x y, applyOps plainEnv blankDashboard [addNote] = .ok da ∧
        applyOps plainEnv blankDashboard ([addNote] ++ [.removeComponent "n1"]) = .ok x ∧
        applyOps plainEnv da [.removeComponent "n1"] = .ok y ∧
        x.specVersion = 1 ∧ y.specVersion = 2 ∧
        ∀ v, { x with version := v } ≠ { y with version := v } := by
  have htwo : ((fun y => y.specVersion) <$> do
      let da ← applyOps plainEnv blankDashboard [addNote]
      applyOps plainEnv da [.removeComponent "n1"]) = .ok 2 := by decide +kernel
  have hone : ((fun x => x.specVersion) <$>
      applyOps plainEnv blankDashboard ([addNote] ++ [.removeComponent "n1"])) = .ok 1 := by
    decide +kernel
  obtain ⟨y, hy, hytwo⟩ := Except.map_eq_ok_iff.mp htwo
  obtain ⟨da, hda, hy⟩ := Except.bind_eq_ok_iff.mp hy
  obtain ⟨x, hx, hxone⟩ := Except.map_eq_ok_iff.mp hone
  refine ⟨by decide, da, x, y, hda, hx, hy, hxone, hytwo, fun v hsame => ?_⟩
  have hspec := congrArg (fun d : Dashboard => d.specVersion) hsame
  dsimp only at hspec
  omega

/-- A note is added, and the title of the dashboard changed in a second list. -/
theorem append_note :
    ∃ da, applyOps plainEnv blankDashboard [addNote] = .ok da ∧
      ∃ x, applyOps plainEnv blankDashboard ([addNote] ++ [.setTitle "Sales of May" none]) =
        .ok x := by
  have hrun : ((fun y => y.title) <$> do
      let da ← applyOps plainEnv blankDashboard [addNote]
      applyOps plainEnv da [.setTitle "Sales of May" none]) = .ok "Sales of May" := by
    decide +kernel
  obtain ⟨y, hy, -⟩ := Except.map_eq_ok_iff.mp hrun
  obtain ⟨da, hda, hy⟩ := Except.bind_eq_ok_iff.mp hy
  exact ⟨da, hda, (applyOps_append (by decide) hda _).1.mpr ⟨y, hy⟩⟩

end Apowerb.Bi.Spec.Patches
