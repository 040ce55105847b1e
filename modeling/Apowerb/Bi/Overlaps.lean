/-
# Modifications that overlap

A modification reads a dashboard, makes another of it, and saves that as the whole row.  Nothing is
locked in between and no version is compared, so that the steps of several calls interleave, and the
later of two saves undoes what the earlier one did if it read before it.

* `edits_serial`: in a run where each call saves over the dashboard that it read (`Calm`), the
  stored dashboard is what the saved modifications make of the first one after the other, and its
  version has grown by those that count.

The order is that of the saves.  `Progress` is where a call stands; a check of the slug reads the
rows once more, between the read and the save.
-/
import Apowerb.Bi.Dashboards
import Apowerb.Lib.Replace

namespace Apowerb.Bi.Spec.Overlaps

open Runs

/-! ## 1. Calls in progress -/

/-- Where a call stands: it has read, it has made the dashboard to save, it has saved it, or it has
raised. -/
inductive Progress
  | read (d : Dashboard) (e : Edit)
  | prepared (d new : Dashboard) (e : Edit)
  | saved (e : Edit)
  | failed

/-- The modification of a call that returned. -/
def Progress.saved? : Progress → Option Edit
  | .saved e => some e
  | _ => none

structure State where
  rows : List Row
  calls : List Progress

inductive Event
  | begin (e : Edit)
  | prepare (order : Order) (i : Nat)
  | commit (i : Nat)

/-- A step of one of the calls of an owner on a dashboard. -/
def step (env : Env) (owner id : String) (s : State) : Event → Option State
  | .begin e =>
    match get env s.rows (some owner) id with
    | none => some { s with calls := s.calls ++ [.failed] }
    | some d => if e.Fresh d then some { s with calls := s.calls ++ [.read d e] } else none
  | .prepare order i =>
    match s.calls[i]? with
    | some (.read d e) =>
      match Spec.prepare env order s.rows owner d e with
      | .ok new => some { s with calls := s.calls.set i (.prepared d new e) }
      | .error _ => some { s with calls := s.calls.set i .failed }
    | _ => none
  | .commit i =>
    match s.calls[i]? with
    | some (.prepared _ new e) =>
      match save env s.rows owner new with
      | .ok rows => some ⟨rows, s.calls.set i (.saved e)⟩
      | .error _ => some { s with calls := s.calls.set i .failed }
    | _ => none

def start (rows : List Row) : State := ⟨rows, []⟩

/-- A call saves over the dashboard that it read. -/
def Calm (env : Env) (owner id : String) (s : State) : Event → Prop
  | .commit i =>
    match s.calls[i]? with
    | some (.prepared d _ _) => get env s.rows (some owner) id = some d
    | _ => True
  | _ => True

instance (env : Env) (owner id : String) (s : State) : ∀ a, Decidable (Calm env owner id s a)
  | .commit i =>
    match h : s.calls[i]? with
    | some (.prepared d _ _) =>
      decidable_of_iff (get env s.rows (some owner) id = some d) (by simp only [Calm, h])
    | none | some (.read _ _) | some (.saved _) | some .failed =>
      .isTrue (by simp only [Calm, h])
  | .begin _ | .prepare _ _ => .isTrue trivial

/-! ## 2. What is stored -/

/-- The dashboard in the row with an id, whether it can be read or has outgrown its bounds. -/
def stored (rows : List Row) (id : String) : Option Dashboard :=
  (rows.find? (·.id = id)).map fun row => { row.config with createdBy := some row.owner }

theorem stored_of_get {env : Env} {rows : List Row} {owner : Option String} {id : String}
    {d : Dashboard} (h : get env rows owner id = some d) : stored rows id = some d := by
  obtain ⟨row, hfind, -, -, rfl⟩ := get_eq_some h
  rw [stored, hfind, Option.map_some]

theorem find?_replaceRow {rows : List Row} {old new : Row} {id : String}
    (h : rows.find? (·.id = id) = some old) (hid : new.id = id) :
    (replaceRow rows new).find? (·.id = id) = some new := by
  induction rows with
  | nil => cases h
  | cons row rest ih =>
    by_cases hrow : row.id = id
    · simp [replaceRow, hrow, hid]
    · have hrest : rest.find? (·.id = id) = some old := by simpa [hrow] using h
      have hne : row.id ≠ new.id := hid ▸ hrow
      simpa [replaceRow, hrow, hne] using ih hrest

/-- What is saved over a dashboard that was read is stored. -/
theorem stored_save {env : Env} {rows rows' : List Row} {owner id : String} {d new : Dashboard}
    (hget : get env rows (some owner) id = some d) (hid : new.id = id)
    (howner : new.createdBy = d.createdBy) (hsave : save env rows owner new = .ok rows') :
    stored rows' id = some new := by
  obtain ⟨row, hfind, hscope, -, rfl⟩ := get_eq_some hget
  have hrow : row.id = id := by simpa using List.find?_some hfind
  have hlive : row.deleted = false := by
    simp only [inScope, Bool.and_eq_true, Bool.not_eq_true'] at hscope
    exact hscope.1
  have hown : ¬ (owner ≠ "" ∧ env.lower row.owner ≠ env.lower owner) := by
    simp only [inScope, Bool.and_eq_true, Option.all_some, Bool.or_eq_true,
      decide_eq_true_eq] at hscope
    grind
  unfold save at hsave
  rw [hid, hfind] at hsave
  simp only [hlive, Bool.false_eq_true, if_false, hown] at hsave
  split at hsave
  · cases hsave
  · cases hsave
    have hfound : (replaceRow rows (rowOver env owner new row)).find? (·.id = id) =
        some (rowOver env owner new row) := find?_replaceRow hfind hrow
    have hkept : (rowOver env owner new row).owner = row.owner := rfl
    have howner' : some row.owner = new.createdBy := howner.symm
    rw [stored, hfound, Option.map_some, hkept, howner']
    rfl

/-! ## 3. The invariant -/

/-- The modifications one after the other. -/
def inOrder (env : Env) (d : Dashboard) (edits : List Edit) : Except Raised Dashboard :=
  edits.foldlM (fun d e => e.run env d) d

theorem inOrder_concat {env : Env} {d d' new : Dashboard} {edits : List Edit} {e : Edit}
    (h : inOrder env d edits = .ok d') (he : e.run env d' = .ok new) :
    inOrder env d (edits ++ [e]) = .ok new := by
  unfold inOrder at *
  rw [List.foldlM_append, h]
  exact Except.bind_eq_ok_iff.mpr ⟨d', rfl, Except.bind_eq_ok_iff.mpr ⟨new, he, rfl⟩⟩

/-- The stored dashboard is what the saved modifications made of the first, in some order. -/
def Serial (env : Env) (id : String) (first : Dashboard) (s : State) : Prop :=
  ∃ done d, done.Perm (s.calls.filterMap Progress.saved?) ∧ inOrder env first done = .ok d ∧
    stored s.rows id = some d ∧ d.version = first.version + done.countP Edit.counts

structure Inv (env : Env) (id : String) (first : Dashboard) (s : State) : Prop where
  serial : Serial env id first s
  /-- what a call is about to save was made of what it read -/
  made : ∀ d new e, .prepared d new e ∈ s.calls → e.run env d = .ok new
  own : ∀ d, stored s.rows id = some d → d.id = id

variable {env : Env} {id : String} {first : Dashboard} {s s' : State}

/-- A call that only changes where it stands, and has not saved. -/
theorem Serial.of_calls {calls : List Progress} (h : Serial env id first s)
    (hsaved : calls.filterMap Progress.saved? = s.calls.filterMap Progress.saved?) :
    Serial env id first { s with calls := calls } := by
  obtain ⟨done, d, hdone, horder, hget, hversion⟩ := h
  exact ⟨done, d, hsaved ▸ hdone, horder, hget, hversion⟩

theorem Inv.begin {owner : String} {e : Edit} (h : Inv env id first s)
    (hs : step env owner id s (.begin e) = some s') : Inv env id first s' := by
  simp only [step] at hs
  split at hs
  · cases hs
    refine ⟨h.serial.of_calls (by simp [Progress.saved?]), fun d new e' hmem => ?_, h.own⟩
    exact h.made d new e' (by simpa using hmem)
  · split at hs
    · cases hs
      refine ⟨h.serial.of_calls (by simp [Progress.saved?]), fun d new e' hmem => ?_, h.own⟩
      exact h.made d new e' (by simpa using hmem)
    · cases hs

theorem Inv.prepare {owner : String} {order : Order} {i : Nat} (h : Inv env id first s)
    (hs : step env owner id s (.prepare order i) = some s') : Inv env id first s' := by
  simp only [step] at hs
  split at hs
  · next d e hi =>
    split at hs
    · next new hprepare =>
      cases hs
      refine ⟨h.serial.of_calls (Replace.filterMap_set_same hi rfl),
        fun d' new' e' hmem => ?_, h.own⟩
      rcases List.mem_or_eq_of_mem_set hmem with hmem | heq
      · exact h.made d' new' e' hmem
      · cases heq
        obtain ⟨_, -, hrun⟩ := Except.bind_eq_ok_iff.mp hprepare
        exact hrun
    · cases hs
      refine ⟨h.serial.of_calls (Replace.filterMap_set_same hi rfl),
        fun d' new' e' hmem => ?_, h.own⟩
      rcases List.mem_or_eq_of_mem_set hmem with hmem | heq
      · exact h.made d' new' e' hmem
      · cases heq
  · cases hs

/-- A call that comes to stand where nothing is about to be saved. -/
theorem Inv.made_set {i : Nat} {c : Progress} (h : Inv env id first s)
    (hc : ∀ d new e, c ≠ .prepared d new e) (d new : Dashboard) (e : Edit)
    (hmem : .prepared d new e ∈ s.calls.set i c) : e.run env d = .ok new := by
  rcases List.mem_or_eq_of_mem_set hmem with hmem | heq
  · exact h.made d new e hmem
  · exact absurd heq.symm (hc d new e)

theorem Progress.saved_ne {e : Edit} (d new : Dashboard) (e' : Edit) :
    Progress.saved e ≠ .prepared d new e' :=
  Progress.noConfusion

theorem Progress.failed_ne (d new : Dashboard) (e : Edit) :
    Progress.failed ≠ .prepared d new e :=
  Progress.noConfusion

/-- What is stored is what the call read, so that its modification is the next in the order. -/
theorem Serial.commit {i : Nat} {d new : Dashboard} {e : Edit} {rows : List Row}
    (h : Serial env id first s) (hi : s.calls[i]? = some (.prepared d new e))
    (hread : stored s.rows id = some d) (hrun : e.run env d = .ok new)
    (hsaved : stored rows id = some new)
    (hversion : new.version = d.version + if e.counts then 1 else 0) :
    Serial env id first ⟨rows, s.calls.set i (.saved e)⟩ := by
  obtain ⟨done, d', hdone, horder, hstored, hgrown⟩ := h
  obtain rfl : d' = d := Option.some.inj (hstored.symm.trans hread)
  have hperm : ((s.calls.set i (.saved e)).filterMap Progress.saved?).Perm
      (e :: s.calls.filterMap Progress.saved?) := Replace.filterMap_set_perm hi rfl rfl
  refine ⟨done ++ [e], new, ?_, inOrder_concat horder hrun, hsaved, ?_⟩
  · exact (List.perm_append_singleton e done).trans ((hdone.cons e).trans hperm.symm)
  · rw [hversion, hgrown, List.countP_append, List.countP_singleton, Nat.add_assoc]

theorem Inv.commit {owner : String} {i : Nat} (h : Inv env id first s)
    (hcalm : Calm env owner id s (.commit i))
    (hs : step env owner id s (.commit i) = some s') : Inv env id first s' := by
  simp only [step] at hs
  split at hs
  · next d new e hi =>
    simp only [Calm, hi] at hcalm
    split at hs
    · next rows hsave =>
      cases hs
      have hread := stored_of_get hcalm
      have hrun := h.made d new e (List.mem_of_getElem? hi)
      obtain ⟨row, -, -, hfits, hrow⟩ := get_eq_some hcalm
      have haddr := Edit.run_addressed (by rw [hrow]; exact hfits) hrun
      have hid : new.id = id := haddr.id.trans (h.own d hread)
      have hsaved := stored_save hcalm hid haddr.createdBy hsave
      refine ⟨h.serial.commit hi hread hrun hsaved haddr.version, h.made_set Progress.saved_ne,
        fun d' hd' => ?_⟩
      rw [← Option.some.inj (hsaved.symm.trans hd')]
      exact hid
    · cases hs
      exact ⟨h.serial.of_calls (Replace.filterMap_set_same hi rfl),
        h.made_set Progress.failed_ne, h.own⟩
  · cases hs

/-- **The stored dashboard is what the saved modifications make of the first**, one after the other,
in every run where each call saves over the dashboard that it read. -/
theorem edits_serial (env : Env) (owner id : String) (rows : List Row) (first : Dashboard)
    (hfirst : get env rows (some owner) id = some first) (hid : first.id = id) (s : State)
    (h : Reach (step env owner id) (Calm env owner id) (start rows) s) :
    Serial env id first s := by
  have hinv : Inv env id first s := by
    have hnone (d new : Dashboard) (e : Edit) (hmem : .prepared d new e ∈ (start rows).calls) :
        e.run env d = .ok new := absurd hmem List.not_mem_nil
    have hstored := stored_of_get hfirst
    refine h.invariant ⟨⟨[], first, .refl _, rfl, hstored, rfl⟩, hnone, fun d hd => ?_⟩ ?_
    · rw [← Option.some.inj (hstored.symm.trans hd)]
      exact hid
    · intro s a s' hinv hcalm hs
      cases a with
      | begin e => exact hinv.begin hs
      | prepare order i => exact hinv.prepare hs
      | commit i => exact hinv.commit hcalm hs
  exact hinv.serial

/-! ## 4. A title and a publication -/

/-- A dashboard as it was created. -/
def created : Dashboard :=
  (createRequest "Sales" none [] sales_bounds).dashboard "d1" "ada@lab.org"

def createdRows : List Row := [newRow plainEnv "ada@lab.org" created]

/-- The dashboard is given another title, and is published. -/
def retitle : Edit := .patch [.setTitle "Turnover" none]

def share : Edit := .publish .«private»

/-- The two calls one after the other. -/
def oneByOne : List Event :=
  [.begin retitle, .prepare asStored 0, .commit 0, .begin share, .prepare asStored 1, .commit 1]

/-- The two calls, of which both read before either saves. -/
def overlapping : List Event :=
  [.begin retitle, .begin share, .prepare asStored 0, .prepare asStored 1, .commit 0, .commit 1]

theorem get_created : get plainEnv createdRows (some "ada@lab.org") "d1" = some created := by
  decide +kernel

/-- Of two modifications that both read before either saves, the first is lost. -/
theorem edits_lost : ¬ ∀ rows first s, get plainEnv rows (some "ada@lab.org") "d1" = some first →
    first.id = "d1" →
    Reach (step plainEnv "ada@lab.org" "d1") anyStep (start rows) s →
    Serial plainEnv "d1" first s := by
  intro h
  have hrun : (replay (step plainEnv "ada@lab.org" "d1") anyStep (start createdRows)
      overlapping).map (fun s => ((s.calls.filterMap Progress.saved?).countP Edit.counts,
        (stored s.rows "d1").map (·.version))) = some (2, some 2) := by
    decide +kernel
  obtain ⟨s, hs, hshape⟩ := Option.map_eq_some_iff.mp hrun
  obtain ⟨hsaved, hversion⟩ := Prod.mk.inj hshape
  obtain ⟨done, d, hdone, -, hstored, hgrown⟩ :=
    h createdRows created s get_created rfl (.of_replay _ hs)
  rw [hstored, Option.map_some, Option.some.injEq] at hversion
  rw [hdone.countP_eq, hsaved, hversion] at hgrown
  exact absurd hgrown (by decide)

/-- One after the other, both are there. -/
theorem edits_serial_both : ∃ s,
    Reach (step plainEnv "ada@lab.org" "d1") (Calm plainEnv "ada@lab.org" "d1")
      (start createdRows) s ∧
    (stored s.rows "d1").map (fun d => (d.title, d.status, d.version)) =
      some ("Turnover", .published, 3) ∧
    Serial plainEnv "d1" created s := by
  have hrun : (replay (step plainEnv "ada@lab.org" "d1") (Calm plainEnv "ada@lab.org" "d1")
      (start createdRows) oneByOne).map (fun s =>
        (stored s.rows "d1").map fun d => (d.title, d.status, d.version)) =
      some (some ("Turnover", .published, 3)) := by
    decide +kernel
  obtain ⟨s, hs, hshape⟩ := Option.map_eq_some_iff.mp hrun
  have hreach := Reach.of_replay _ hs
  exact ⟨s, hreach, hshape, edits_serial plainEnv "ada@lab.org" "d1" createdRows created
    get_created rfl s hreach⟩

end Apowerb.Bi.Spec.Overlaps
