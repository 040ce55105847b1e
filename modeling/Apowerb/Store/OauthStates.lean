/-
# The states of an OAuth flow

The table `oauth_states`, and any number of workers that `create`, `consume` and clean up.  A
`consume` reads the row, deletes it and commits, and then checks what it READ: the expiry first
(400), then the user and the provider (403).  The deletion of a row that is no longer there raises
nothing, and nobody asks whether there was one.

* `accepted_once`: as long as every deletion finds its row, or the row has expired, a state is
  accepted at most once, from the user and for the provider it was created for and before its
  expiry, and one that was refused with 403 is never accepted.
* `accepted_twice`: two calls that read the row before either deletes it are both accepted.

A deletion holds the row until its commit, and another one waits for it; so the two are one
operation.  A state is drawn by `secrets`, so `create` never draws one a second time.

GHOST STATE: the rows that were ever created, and of each call whether it took a row away.
-/
import Apowerb.Lib.Replace
import Apowerb.Lib.Runs
import Mathlib.Data.List.Nodup

namespace Apowerb.Store.OauthStates

open Runs

/-! ## 1. The machine -/

/-- A row of `oauth_states`. -/
structure OAuthState where
  state : String
  userId : Int
  provider : String
  expiresAt : Int
deriving DecidableEq, Repr

/-- Where a `consume` stands. -/
inductive Phase
  | read (row : OAuthState)
  /-- The deletion is committed. -/
  | removed (row : OAuthState)
  | accepted (clock : Int)
  | refused (status : Nat)
  /-- A statement raised. -/
  | raised
deriving DecidableEq, Repr

structure Call where
  state : String
  userId : Int
  provider : String
  phase : Phase
  took : Bool
deriving DecidableEq, Repr

structure State where
  now : Int
  rows : List OAuthState
  calls : List Call
  created : List OAuthState

inductive Op
  | pass (d : Nat)
  /-- `create`, by the clock that it read. -/
  | create (state : String) (userId : Int) (provider : String) (ttl clock : Int)
  /-- `_cleanup_expired`, by the clock that it read. -/
  | cleanup (clock : Int)
  /-- `consume` up to its `SELECT`. -/
  | consume (state : String) (userId : Int) (provider : String)
  | remove (i : Nat)
  | check (i : Nat)
  | abort (i : Nat)

def State.setCall (s : State) (i : Nat) (call : Call) : State :=
  { s with calls := s.calls.set i call }

def State.addCall (s : State) (call : Call) : State := { s with calls := s.calls ++ [call] }

/-- What `consume` makes of its `SELECT`. -/
def selected (rows : List OAuthState) (state : String) : Phase :=
  if state = "" then .refused 400
  else
    match rows.find? (·.state = state) with
    | none => .refused 400
    | some row => .read row

/-- The checks of `consume`, on the row that it read. -/
def verdict (call : Call) (row : OAuthState) (now : Int) : Phase :=
  if row.expiresAt ≤ now then .refused 400
  else if row.provider ≠ call.provider ∨ row.userId ≠ call.userId then .refused 403
  else .accepted now

/-- Whether the table has a row of this state. -/
def holds (rows : List OAuthState) (state : String) : Bool := rows.any (·.state = state)

def stepRemove (s : State) (i : Nat) : Option State :=
  match s.calls[i]? with
  | none => none
  | some call =>
    match call.phase with
    | .read row =>
      let deleted : State := { s with rows := s.rows.filter (·.state ≠ row.state) }
      some (deleted.setCall i
        { call with phase := .removed row, took := holds s.rows row.state })
    | _ => none

def stepCheck (s : State) (i : Nat) : Option State :=
  match s.calls[i]? with
  | none => none
  | some call =>
    match call.phase with
    | .removed row => some (s.setCall i { call with phase := verdict call row s.now })
    | _ => none

def stepAbort (s : State) (i : Nat) : Option State :=
  match s.calls[i]? with
  | none => none
  | some call =>
    match call.phase with
    | .read _ => some (s.setCall i { call with phase := .raised })
    | _ => none

/-- One operation; `none` where it cannot happen. -/
def step (s : State) : Op → Option State
  | .pass d => some { s with now := s.now + d }
  | .create state userId provider ttl clock =>
    if state ∈ s.created.map (·.state) then none
    else
      let row : OAuthState := ⟨state, userId, provider, clock + ttl⟩
      some { s with rows := s.rows ++ [row], created := s.created ++ [row] }
  | .cleanup clock =>
    if clock ≤ s.now then
      some { s with rows := s.rows.filter fun row => ¬ row.expiresAt < clock }
    else none
  | .consume state userId provider =>
    some (s.addCall ⟨state, userId, provider, selected s.rows state, false⟩)
  | .remove i => stepRemove s i
  | .check i => stepCheck s i
  | .abort i => stepAbort s i

/-- An empty table. -/
def start (now : Int) : State := ⟨now, [], [], []⟩

/-! ## 2. What is to hold, and when -/

/-- The state that a call accepted. -/
def Call.acceptedState (call : Call) : Option String :=
  match call.phase with
  | .accepted _ => some call.state
  | _ => none

/-- Each state is accepted at most once, and as it was created. -/
structure Safe (s : State) : Prop where
  once : (s.calls.filterMap Call.acceptedState).Nodup
  owner : ∀ call ∈ s.calls, ∀ clock, call.phase = .accepted clock →
    (∃ row ∈ s.created, row.state = call.state) ∧
      ∀ row ∈ s.created, row.state = call.state →
        row.userId = call.userId ∧ row.provider = call.provider ∧ clock < row.expiresAt
  /-- What was refused for its user or provider is spent. -/
  spent : ∀ call ∈ s.calls, call.phase = .refused 403 →
    (∀ row ∈ s.rows, row.state ≠ call.state) ∧
      ∀ other ∈ s.calls, other.state = call.state → other.acceptedState = none

/-- The steps of a calm run: a deletion finds its row, or the row has expired. -/
def Calm (s : State) : Op → Prop
  | .remove i => ∀ call, s.calls[i]? = some call → ∀ row, call.phase = .read row →
    holds s.rows row.state = true ∨ row.expiresAt ≤ s.now
  | _ => True

/-! ## 3. The invariant -/

/-- The state whose row a call took away. -/
def Call.spent (call : Call) : Option String := if call.took then some call.state else none

/-- The row that a call read is the one that was created for its state. -/
def Call.has (created : List OAuthState) (call : Call) (row : OAuthState) : Prop :=
  row ∈ created ∧ row.state = call.state

/-- A phase of a call against the clock and the rows that were created. -/
def PhaseOk (created : List OAuthState) (now : Int) (call : Call) : Prop :=
  match call.phase with
  | .read row => call.has created row ∧ call.took = false
  | .removed row => call.has created row ∧ (call.took = true ∨ row.expiresAt ≤ now)
  | .accepted clock => call.took = true ∧ ∃ row, call.has created row ∧
      row.userId = call.userId ∧ row.provider = call.provider ∧ clock < row.expiresAt
  | .refused status => status = 403 → call.took = true ∧ ∃ row, call.has created row ∧
      (row.provider ≠ call.provider ∨ row.userId ≠ call.userId)
  | .raised => True

structure Inv (s : State) : Prop where
  rows : ∀ row ∈ s.rows, row ∈ s.created
  created : (s.created.map (·.state)).Nodup
  calls : ∀ call ∈ s.calls, PhaseOk s.created s.now call
  once : (s.calls.filterMap Call.spent).Nodup
  gone : ∀ state ∈ s.calls.filterMap Call.spent, state ∈ s.created.map (·.state) ∧
    holds s.rows state = false

variable {s s' : State} {op : Op} {i : Nat}

/-- **What the invariant says of the claim.** -/
theorem Inv.safe (h : Inv s) : Safe s := by
  have hspent : ∀ call ∈ s.calls, ∀ state, call.acceptedState = some state →
      call.spent = some state := by
    intro call hcall state haccepted
    have hok := h.calls call hcall
    unfold Call.acceptedState at haccepted
    split at haccepted
    · rename_i clock hphase
      cases haccepted
      simp only [PhaseOk, hphase] at hok
      exact if_pos hok.1
    · cases haccepted
  refine ⟨h.once.sublist (Replace.filterMap_sublist s.calls hspent), ?_, ?_⟩
  · intro call hcall clock hphase
    have hok := h.calls call hcall
    simp only [PhaseOk, hphase] at hok
    obtain ⟨_, row, ⟨hmem, hstate⟩, hrow⟩ := hok
    refine ⟨⟨row, hmem, hstate⟩, fun other hother heq => ?_⟩
    have : other = row :=
      List.inj_on_of_nodup_map h.created hother hmem (heq.trans hstate.symm)
    rwa [this]
  · intro call hcall hphase
    have hok := h.calls call hcall
    simp only [PhaseOk, hphase] at hok
    obtain ⟨htook, -⟩ := hok trivial
    have hcallSpent : call.spent = some call.state := if_pos htook
    constructor
    · have hgone := (h.gone call.state (List.mem_filterMap.mpr ⟨call, hcall, hcallSpent⟩)).2
      simpa [holds] using hgone
    · intro other hother hstate
      cases haccepted : other.acceptedState with
      | none => rfl
      | some state =>
        have hsame : state = other.state := by
          unfold Call.acceptedState at haccepted
          split at haccepted
          · exact (Option.some.inj haccepted).symm
          · cases haccepted
        have hother' := hspent other hother state haccepted
        rw [hsame, hstate] at hother'
        -- Both took the one row there was, so they are one call.
        have := Replace.holder_unique h.once hcall hother hcallSpent hother'
        subst this
        simp [Call.acceptedState, hphase] at haccepted

/-! ## 4. Every operation keeps it -/

theorem PhaseOk.later {created : List OAuthState} {now : Int} {call : Call}
    (h : PhaseOk created now call) (d : Nat) : PhaseOk created (now + d) call := by
  unfold PhaseOk at h ⊢
  split at h
  · exact h
  · exact ⟨h.1, h.2.imp_right fun hle => by omega⟩
  · exact h
  · exact h
  · trivial

theorem PhaseOk.more {created : List OAuthState} {now : Int} {call : Call} {new : OAuthState}
    (h : PhaseOk created now call) : PhaseOk (created ++ [new]) now call := by
  have hmore : ∀ {row}, call.has created row → call.has (created ++ [new]) row :=
    fun hrow => ⟨List.mem_append_left _ hrow.1, hrow.2⟩
  unfold PhaseOk at h ⊢
  split at h
  · exact ⟨hmore h.1, h.2⟩
  · exact ⟨hmore h.1, h.2⟩
  · obtain ⟨htook, row, hhas, hrow⟩ := h
    exact ⟨htook, row, hmore hhas, hrow⟩
  · intro hstatus
    obtain ⟨htook, row, hhas, hrow⟩ := h hstatus
    exact ⟨htook, row, hmore hhas, hrow⟩
  · trivial

/-- Rows that are deleted. -/
theorem Inv.fewer (h : Inv s) {rows : List OAuthState} (hrows : rows ⊆ s.rows) :
    Inv { s with rows := rows } where
  rows row hrow := h.rows row (hrows hrow)
  created := h.created
  calls := h.calls
  once := h.once
  gone state hstate := by
    obtain ⟨hcreated, hgone⟩ := h.gone state hstate
    refine ⟨hcreated, ?_⟩
    simp only [holds, List.any_eq_false] at hgone ⊢
    exact fun row hrow => hgone row (hrows hrow)

/-- A call that moves and takes nothing. -/
theorem Inv.setCall (h : Inv s) {old new : Call} (hi : s.calls[i]? = some old)
    (hnew : PhaseOk s.created s.now new) (hspent : new.spent = old.spent) :
    Inv (s.setCall i new) where
  rows := h.rows
  created := h.created
  calls call hcall := by
    rcases List.mem_or_eq_of_mem_set hcall with hold | rfl
    · exact h.calls call hold
    · exact hnew
  once := by
    show ((s.calls.set i new).filterMap Call.spent).Nodup
    rw [Replace.filterMap_set_same hi hspent]
    exact h.once
  gone state hstate := by
    replace hstate : state ∈ (s.calls.set i new).filterMap Call.spent := hstate
    rw [Replace.filterMap_set_same hi hspent] at hstate
    exact h.gone state hstate

theorem Inv.pass (h : Inv s) (d : Nat) : Inv { s with now := s.now + d } where
  rows := h.rows
  created := h.created
  calls call hcall := (h.calls call hcall).later d
  once := h.once
  gone := h.gone

theorem Inv.create (h : Inv s) {row : OAuthState} (hfresh : row.state ∉ s.created.map (·.state)) :
    Inv { s with rows := s.rows ++ [row], created := s.created ++ [row] } where
  rows r hr := by
    rcases List.mem_append.mp hr with hold | hnew
    · exact List.mem_append_left _ (h.rows r hold)
    · exact List.mem_append_right _ hnew
  created := by
    rw [List.map_append, List.map_singleton, List.nodup_append]
    refine ⟨h.created, List.nodup_singleton _, ?_⟩
    rintro a ha b hb rfl
    exact hfresh (List.mem_singleton.mp hb ▸ ha)
  calls call hcall := (h.calls call hcall).more
  once := h.once
  gone state hstate := by
    obtain ⟨hcreated, hgone⟩ := h.gone state hstate
    refine ⟨by rw [List.map_append]; exact List.mem_append_left _ hcreated, ?_⟩
    have hne : row.state ≠ state := fun heq => hfresh (heq ▸ hcreated)
    simpa [holds, hne] using hgone

theorem phaseOk_selected (h : Inv s) (state : String) (userId : Int) (provider : String) :
    PhaseOk s.created s.now ⟨state, userId, provider, selected s.rows state, false⟩ := by
  unfold selected
  split
  · intro hstatus
    cases hstatus
  · split
    · intro hstatus
      cases hstatus
    · rename_i row hfound
      have hstate : row.state = state := by simpa using List.find?_some hfound
      exact ⟨⟨h.rows row (List.mem_of_find?_eq_some hfound), hstate⟩, rfl⟩

theorem Inv.addCall (h : Inv s) {call : Call} (hcall : PhaseOk s.created s.now call)
    (htook : call.took = false) : Inv (s.addCall call) := by
  have hspent : (s.addCall call).calls.filterMap Call.spent = s.calls.filterMap Call.spent := by
    simp [State.addCall, Call.spent, htook]
  refine ⟨h.rows, h.created, ?_, ?_, ?_⟩
  · intro c hc
    rcases List.mem_append.mp hc with hold | hnew
    · exact h.calls c hold
    · rwa [List.mem_singleton.mp hnew]
  · rw [hspent]
    exact h.once
  · rw [hspent]
    exact h.gone

/-- The call that finds the row is the first to take it. -/
theorem Inv.take (h : Inv s) {call : Call} {row : OAuthState} (hi : s.calls[i]? = some call)
    (hhas : call.has s.created row) (htook : call.took = false)
    (hthere : holds s.rows row.state = true) :
    Inv { s with
      rows := s.rows.filter (·.state ≠ row.state)
      calls := s.calls.set i { call with phase := .removed row, took := true } } := by
  have hfewer : Inv { s with rows := s.rows.filter (·.state ≠ row.state) } :=
    h.fewer (List.filter_subset_self _)
  have hperm : ((s.calls.set i { call with phase := .removed row, took := true }).filterMap
      Call.spent).Perm (call.state :: s.calls.filterMap Call.spent) :=
    Replace.filterMap_set_perm hi (by simp [Call.spent, htook]) (by simp [Call.spent])
  have hnot : call.state ∉ s.calls.filterMap Call.spent := by
    intro hmem
    rw [← hhas.2, ← Bool.not_eq_false] at *
    exact hthere (h.gone row.state (hhas.2 ▸ hmem)).2
  refine ⟨hfewer.rows, h.created, ?_, ?_, ?_⟩
  · intro c hc
    rcases List.mem_or_eq_of_mem_set hc with hold | rfl
    · exact h.calls c hold
    · exact ⟨hhas, .inl rfl⟩
  · exact hperm.nodup_iff.mpr (List.nodup_cons.mpr ⟨hnot, h.once⟩)
  · intro state hstate
    rcases List.mem_cons.mp (hperm.mem_iff.mp hstate) with rfl | hold
    · refine ⟨hhas.2 ▸ List.mem_map_of_mem hhas.1, ?_⟩
      simp [holds, hhas.2]
    · exact hfewer.gone state hold

theorem Inv.remove (h : Inv s) (hok : Calm s (.remove i)) (hs : stepRemove s i = some s') :
    Inv s' := by
  unfold stepRemove at hs
  split at hs
  · cases hs
  · rename_i call hi
    have hcall := h.calls call (List.mem_of_getElem? hi)
    split at hs
    · rename_i row hphase
      cases hs
      simp only [PhaseOk, hphase] at hcall
      obtain ⟨hhas, htook⟩ := hcall
      cases hthere : holds s.rows row.state with
      | true => exact h.take hi hhas htook hthere
      | false =>
        have hexpired : row.expiresAt ≤ s.now :=
          (hok call hi row hphase).resolve_left (by rw [hthere]; decide)
        have hfewer : Inv { s with rows := s.rows.filter (·.state ≠ row.state) } :=
          h.fewer (List.filter_subset_self _)
        exact hfewer.setCall hi ⟨hhas, .inr hexpired⟩ (by simp [Call.spent, htook])
    · cases hs

theorem phaseOk_verdict {call : Call} {row : OAuthState} (hhas : call.has s.created row)
    (htook : call.took = true ∨ row.expiresAt ≤ s.now) :
    PhaseOk s.created s.now { call with phase := verdict call row s.now } := by
  unfold verdict
  split
  · intro hstatus
    cases hstatus
  · rename_i hlive
    have htook' := htook.resolve_right hlive
    split
    · rename_i hother
      exact fun _ => ⟨htook', row, hhas, hother⟩
    · rename_i hsame
      obtain ⟨hprovider, huser⟩ := not_or.mp hsame
      exact ⟨htook', row, hhas, not_not.mp huser, not_not.mp hprovider, Int.not_le.mp hlive⟩

theorem Inv.check (h : Inv s) (hs : stepCheck s i = some s') : Inv s' := by
  unfold stepCheck at hs
  split at hs
  · cases hs
  · rename_i call hi
    have hcall := h.calls call (List.mem_of_getElem? hi)
    split at hs
    · rename_i row hphase
      cases hs
      simp only [PhaseOk, hphase] at hcall
      exact h.setCall hi (phaseOk_verdict hcall.1 hcall.2) rfl
    · cases hs

theorem Inv.abort (h : Inv s) (hs : stepAbort s i = some s') : Inv s' := by
  unfold stepAbort at hs
  split at hs
  · cases hs
  · rename_i call hi
    split at hs
    · cases hs
      exact h.setCall hi trivial rfl
    · cases hs

theorem Inv.step (h : Inv s) (hok : Calm s op) (hs : OauthStates.step s op = some s') :
    Inv s' := by
  cases op with
  | pass d =>
    cases hs
    exact h.pass d
  | create state userId provider ttl clock =>
    simp only [OauthStates.step] at hs
    split at hs
    · cases hs
    · rename_i hfresh
      cases hs
      exact h.create hfresh
  | cleanup clock =>
    simp only [OauthStates.step] at hs
    split at hs
    · cases hs
      exact h.fewer (List.filter_subset_self _)
    · cases hs
  | consume state userId provider =>
    cases hs
    exact h.addCall (phaseOk_selected h state userId provider) rfl
  | remove i => exact h.remove hok hs
  | check i => exact h.check hs
  | abort i => exact h.abort hs

theorem start_inv (now : Int) : Inv (start now) where
  rows row hrow := by cases hrow
  created := List.nodup_nil
  calls call hcall := by cases hcall
  once := List.nodup_nil
  gone state hstate := by cases hstate

/-! ## 5. The result -/

/-- **A state is accepted at most once**, where every deletion finds its row or an expired one. -/
theorem accepted_once {now : Int} (hrun : Reach step Calm (start now) s) : Safe s :=
  (hrun.invariant (start_inv now) fun _ _ _ h hok hs => h.step hok hs).safe

instance (s : State) : (op : Op) → Decidable (Calm s op)
  | .remove i =>
    match h : s.calls[i]? with
    | none => .isTrue fun call hcall => by cases h.symm.trans hcall
    | some call =>
      match hphase : call.phase with
      | .read row =>
        decidable_of_iff (holds s.rows row.state = true ∨ row.expiresAt ≤ s.now)
          ⟨fun hok c hc r hr => by
            cases h.symm.trans hc
            cases hphase.symm.trans hr
            exact hok,
          fun hall => hall call h row hphase⟩
      | .removed _ | .accepted _ | .refused _ | .raised => .isTrue fun c hc r hr => by
          cases h.symm.trans hc
          cases hphase.symm.trans hr
  | .pass _ | .create .. | .cleanup _ | .consume .. | .check _ | .abort _ => .isTrue trivial

/-- A state of user 1. -/
def connect (state : String) : Op := .create state 1 "github" 600 0

/-- User 1 consumes a state; user 2 tries another one, and then user 1 does. -/
def consumed : List Op :=
  [connect "a", connect "b", .consume "a" 1 "github", .pass 5, .remove 0, .check 0,
    .consume "b" 2 "github", .remove 1, .check 1, .consume "b" 1 "github", .cleanup 5]

theorem accepted_once_consumed : ∃ s,
    Reach step Calm (start 0) s ∧
      s.calls.map (·.phase) = [.accepted 5, .refused 403, .refused 400] ∧ Safe s := by
  have hplay : (replay step Calm (start 0) consumed).map (fun s => s.calls.map (·.phase)) =
      some [.accepted 5, .refused 403, .refused 400] := by decide
  obtain ⟨s, hs, hout⟩ := Option.map_eq_some_iff.mp hplay
  have hrun := Reach.of_replay consumed hs
  exact ⟨s, hrun, hout, accepted_once hrun⟩

/-- Two calls that both read the row before either deletes it. -/
def doubled : List Op :=
  [connect "a", .consume "a" 1 "github", .consume "a" 1 "github", .remove 0, .remove 1, .check 0,
    .check 1]

/-- **A state can be accepted twice.** -/
theorem accepted_twice : ¬ ∀ now s, Reach step anyStep (start now) s → Safe s := by
  intro hall
  have hplay : (replay step anyStep (start 0) doubled).map
      (fun s => s.calls.filterMap Call.acceptedState) = some ["a", "a"] := by decide
  obtain ⟨s, hs, hout⟩ := Option.map_eq_some_iff.mp hplay
  have honce := (hall 0 s (Reach.of_replay doubled hs)).once
  rw [hout] at honce
  exact absurd honce (by decide)

end Apowerb.Store.OauthStates
