/-
# The pool of database connections

Any number of threads that `_acquire_conn` and `_release_conn` for any agents.  A pool key has a
semaphore and a connection pool of the same size; a thread takes a permit, and with it a connection
of the pool.  Between the two, and between their returns, the permit is IN HAND.

Both functions look the state of the agent up, and find the semaphore and the pool by it; and an
agent may be registered again in between, with another database.

* `slots_conserved`: as long as a connection goes back while the agent's pool is the one it came
  from, a connection just handed out can be set up, and the pool can take one back, the permits of
  a key, those in hand and the connections checked out of its pool are the initial maximum.
* `slot_lost`: a connection that goes back after the agent was registered with another database
  stays checked out of the old pool, its permit is lost, and the new key has one too many.

`psycopg2`'s pool is known by what it documents: it raises when all its connections are out or it
cannot connect, and when it is to take back a connection that it has not handed out.
-/
import Apowerb.Lib.Replace
import Apowerb.Lib.Runs
import Apowerb.Text

namespace Apowerb.Tools.SqlPool

open Runs

/-! ## 1. States and keys -/

/-- `SQL_POOL_ENABLED` and `SQL_POOL_MAX`, as the process was started. -/
structure Env where
  enabled : String
  max : String

def poolEnabled (env : Env) : Bool :=
  ["1", "true", "yes"].contains (Text.lowerAscii (Text.strip env.enabled))

def poolMax (env : Env) : Nat :=
  match Text.int? env.max with
  | some n => (max 1 n).toNat
  | none => 4

/-- What `_AgentState` says of the database. -/
structure AgentState where
  dbOk : Bool
  dbType : String
  dbHost : String
  dbPort : Int
  dbName : String
  dbUser : String
deriving DecidableEq, Repr

structure PoolKey where
  host : String
  port : Int
  name : String
  user : String
deriving DecidableEq, Repr

/-- `_pg_pool_key`. -/
def pgPoolKey (s : AgentState) : PoolKey := ⟨s.dbHost, s.dbPort, s.dbName, s.dbUser⟩

/-- `_use_pool`. -/
def usePool (env : Env) (s : AgentState) : Bool :=
  poolEnabled env && s.dbType == "postgresql" && s.dbOk

/-- The key under which an agent takes its connections, if it takes them from a pool. -/
def poolOf (env : Env) (s : AgentState) : Option PoolKey :=
  if usePool env s then some (pgPoolKey s) else none

/-! ## 2. The machine -/

/-- Where a thread stands between `_acquire_conn` and the end of `_release_conn`. -/
inductive Phase
  /-- It waits for the semaphore of the key. -/
  | waiting (key : PoolKey)
  /-- It has the permit. -/
  | admitted (key : PoolKey)
  /-- It has found the pool. -/
  | connecting (key : PoolKey)
  /-- It has the connection, before `autocommit`. -/
  | setting (key : PoolKey) (conn : Nat)
  /-- Its caller has the connection, of the pool of this key or of none. -/
  | holding (key : Option PoolKey) (conn : Nat)
  /-- `_release_conn` has found the pool of the key. -/
  | returning (key : PoolKey) (conn : Nat)
  /-- The permit is to be released, to the semaphore of the key. -/
  | returned (key : PoolKey)
  | ended
  | raised
deriving DecidableEq, Repr

structure Call where
  agent : String
  phase : Phase
deriving DecidableEq, Repr

structure State where
  /-- `_state_registry`. -/
  registry : String → Option AgentState
  /-- `_PG_POOLS`: the connections that are checked out of each. -/
  pools : PoolKey → Option (List Nat)
  /-- `_PG_POOL_SEMAS`: the permits of each. -/
  semas : PoolKey → Option Nat
  nextConn : Nat
  calls : List Call

inductive Op
  /-- `make_text_to_sql_tools`. -/
  | register (agent : String) (state : AgentState)
  /-- `_acquire_conn` up to the semaphore, or to a connection of its own. -/
  | acquire (agent : String) (connected : Bool)
  | take (i : Nat)
  | timeout (i : Nat)
  /-- `_get_pg_pool`. -/
  | openPool (i : Nat) (connected : Bool)
  | getconn (i : Nat) (connected : Bool)
  | autocommit (i : Nat) (ok : Bool)
  /-- `_release_conn` up to the pool, or to the end. -/
  | release (i : Nat) (connected : Bool)
  /-- `putconn`, and where it fails `putconn(close=True)`, and where that fails `close`. -/
  | putconn (i : Nat) (first second : Bool)
  | giveBack (i : Nat)

variable (env : Env)

def State.setPhase (s : State) (i : Nat) (call : Call) (phase : Phase) : State :=
  { s with calls := s.calls.set i { call with phase := phase } }

/-- `_get_or_create_pool`, where it returns. -/
def State.withPool (s : State) (key : PoolKey) : State :=
  { s with pools := Function.update s.pools key (some ((s.pools key).getD [])) }

/-- The permits after a `release` of the semaphore, which is created if it is not there. -/
def State.withPermit (s : State) (key : PoolKey) : State :=
  { s with semas := Function.update s.semas key (some ((s.semas key).getD (poolMax env) + 1)) }

def stepAcquire (s : State) (agent : String) (connected : Bool) : State :=
  let add (s : State) (phase : Phase) : State := { s with calls := s.calls ++ [⟨agent, phase⟩] }
  match s.registry agent with
  | none => add s .raised
  | some state =>
    match poolOf env state with
    | some key =>
      add { s with semas :=
        Function.update s.semas key (some ((s.semas key).getD (poolMax env))) } (.waiting key)
    | none =>
      if state.dbOk && connected then
        add { s with nextConn := s.nextConn + 1 } (.holding none s.nextConn)
      else add s .raised

def stepTake (s : State) (i : Nat) : Option State :=
  match s.calls[i]? with
  | some ⟨agent, .waiting key⟩ =>
    match s.semas key with
    | some (permits + 1) =>
      let taken : State := { s with semas := Function.update s.semas key (some permits) }
      some (taken.setPhase i ⟨agent, .waiting key⟩ (.admitted key))
    | _ => none
  | _ => none

def stepTimeout (s : State) (i : Nat) : Option State :=
  match s.calls[i]? with
  | some ⟨agent, .waiting key⟩ => some (s.setPhase i ⟨agent, .waiting key⟩ .raised)
  | _ => none

def stepOpenPool (s : State) (i : Nat) (connected : Bool) : Option State :=
  match s.calls[i]? with
  | some ⟨agent, .admitted key⟩ =>
    if (s.pools key).isSome || connected then
      some ((s.withPool key).setPhase i ⟨agent, .admitted key⟩ (.connecting key))
    else some ((s.withPermit env key).setPhase i ⟨agent, .admitted key⟩ .raised)
  | _ => none

def stepGetconn (s : State) (i : Nat) (connected : Bool) : Option State :=
  match s.calls[i]? with
  | some ⟨agent, .connecting key⟩ =>
    let used := (s.pools key).getD []
    if used.length < poolMax env && connected then
      let handed : State :=
        { s with
          pools := Function.update s.pools key (some (s.nextConn :: used))
          nextConn := s.nextConn + 1 }
      some (handed.setPhase i ⟨agent, .connecting key⟩ (.setting key s.nextConn))
    else some ((s.withPermit env key).setPhase i ⟨agent, .connecting key⟩ .raised)
  | _ => none

def stepAutocommit (s : State) (i : Nat) (ok : Bool) : Option State :=
  match s.calls[i]? with
  | some ⟨agent, .setting key conn⟩ =>
    if ok then some (s.setPhase i ⟨agent, .setting key conn⟩ (.holding (some key) conn))
    else some ((s.withPermit env key).setPhase i ⟨agent, .setting key conn⟩ .raised)
  | _ => none

def stepRelease (s : State) (i : Nat) (connected : Bool) : Option State :=
  match s.calls[i]? with
  | some ⟨agent, .holding source conn⟩ =>
    match s.registry agent with
    | none => some (s.setPhase i ⟨agent, .holding source conn⟩ .raised)
    | some state =>
      match poolOf env state with
      | some key =>
        if (s.pools key).isSome || connected then
          some ((s.withPool key).setPhase i ⟨agent, .holding source conn⟩ (.returning key conn))
        else some (s.setPhase i ⟨agent, .holding source conn⟩ .raised)
      | none => some (s.setPhase i ⟨agent, .holding source conn⟩ .ended)
  | _ => none

def stepPutconn (s : State) (i : Nat) (first second : Bool) : Option State :=
  match s.calls[i]? with
  | some ⟨agent, .returning key conn⟩ =>
    let used := (s.pools key).getD []
    if conn ∈ used ∧ (first = true ∨ second = true) then
      let back : State := { s with pools := Function.update s.pools key (some (used.erase conn)) }
      some (back.setPhase i ⟨agent, .returning key conn⟩ (.returned key))
    else some (s.setPhase i ⟨agent, .returning key conn⟩ (.returned key))
  | _ => none

def stepGiveBack (s : State) (i : Nat) : Option State :=
  match s.calls[i]? with
  | some ⟨agent, .returned key⟩ =>
    some ((s.withPermit env key).setPhase i ⟨agent, .returned key⟩ .ended)
  | _ => none

/-- One primitive step; `none` where it cannot happen. -/
def step (s : State) : Op → Option State
  | .register agent state =>
    some { s with registry := Function.update s.registry agent (some state) }
  | .acquire agent connected => some (stepAcquire env s agent connected)
  | .take i => stepTake s i
  | .timeout i => stepTimeout s i
  | .openPool i connected => stepOpenPool env s i connected
  | .getconn i connected => stepGetconn env s i connected
  | .autocommit i ok => stepAutocommit env s i ok
  | .release i connected => stepRelease env s i connected
  | .putconn i first second => stepPutconn s i first second
  | .giveBack i => stepGiveBack env s i

def start : State := ⟨fun _ => none, fun _ => none, fun _ => none, 0, []⟩

/-! ## 3. What is to hold, and when -/

/-- The connections that are checked out under a key. -/
def State.checkedOut (s : State) (key : PoolKey) : Nat := ((s.pools key).getD []).length

/-- The key whose permit a thread has in hand, without a connection. -/
def Phase.inHand : Phase → Option PoolKey
  | .admitted key | .connecting key | .returned key => some key
  | _ => none

/-- The permits of a key, those in hand and the connections that are out are the maximum. -/
structure Conserved (s : State) : Prop where
  sum : ∀ key permits, s.semas key = some permits →
    permits + s.calls.countP (fun call => call.phase.inHand = some key) + s.checkedOut key =
      poolMax env
  bound : ∀ key, s.checkedOut key ≤ poolMax env

/-- The steps of a calm run: a connection goes back while the agent's pool is the one it came from,
it can be set up, and the pool can take it back. -/
def Calm (s : State) : Op → Prop
  | .autocommit _ ok => ok = true
  | .release i _ => ∀ agent source conn, s.calls[i]? = some ⟨agent, .holding source conn⟩ →
    ∃ state, s.registry agent = some state ∧ poolOf env state = source
  | .putconn _ first second => first = true ∨ second = true
  | _ => True

/-! ## 4. The invariant -/

/-- The connection that a thread has from a pool. -/
def Phase.out : Phase → Option (PoolKey × Nat)
  | .setting key conn | .holding (some key) conn | .returning key conn => some (key, conn)
  | _ => none

/-- The key whose permit a thread has. -/
def Phase.permit (phase : Phase) : Option PoolKey :=
  phase.inHand.or (phase.out.map (·.1))

/-- The connection that a thread has from the pool of this key. -/
def Phase.outAt (key : PoolKey) (phase : Phase) : Option Nat :=
  match phase.out with
  | some (k, conn) => if k = key then some conn else none
  | none => none

structure Inv (s : State) : Prop where
  sema : ∀ key, (s.semas key).getD (poolMax env) +
    s.calls.countP (fun call => call.phase.permit = some key) = poolMax env
  used : ∀ key, ((s.pools key).getD []).Perm (s.calls.filterMap fun call => call.phase.outAt key)

variable {env} {s s' : State} {op : Op} {i : Nat}

/-- A permit is in hand, or has its connection. -/
theorem permit_split (key : PoolKey) (calls : List Call) :
    calls.countP (fun call => call.phase.permit = some key) =
      calls.countP (fun call => call.phase.inHand = some key) +
        (calls.filterMap fun call => call.phase.outAt key).length := by
  induction calls with
  | nil => rfl
  | cons call rest ih =>
    rw [List.countP_cons, List.countP_cons, List.filterMap_cons, ih]
    obtain ⟨agent, phase⟩ := call
    have hcall : (if phase.permit = some key then 1 else 0) =
        (if phase.inHand = some key then 1 else 0) + (phase.outAt key).toList.length := by
      have hout : ∀ (k : PoolKey) (conn : Nat), (if some k = some key then 1 else 0) =
          (if k = key then some conn else none).toList.length := by
        intro k conn
        by_cases hk : k = key
        · simp [hk]
        · simp [hk]
      cases phase with
      | setting k conn => exact (hout k conn).trans (Nat.zero_add _).symm
      | returning k conn => exact (hout k conn).trans (Nat.zero_add _).symm
      | holding source conn =>
        cases source with
        | none => rfl
        | some k => exact (hout k conn).trans (Nat.zero_add _).symm
      | _ => rfl
    cases hout : phase.outAt key with
    | none =>
      rw [hout] at hcall
      simp only [decide_eq_true_eq, Option.toList_none, List.length_nil] at hcall ⊢
      omega
    | some conn =>
      rw [hout] at hcall
      simp only [decide_eq_true_eq, Option.toList_some, List.length_cons, List.length_nil] at hcall ⊢
      omega

/-- **What the invariant says of the claim.** -/
theorem Inv.conserved (h : Inv env s) : Conserved env s := by
  have hsum : ∀ key, (s.semas key).getD (poolMax env) +
      (s.calls.countP (fun call => call.phase.inHand = some key) + s.checkedOut key) =
        poolMax env := by
    intro key
    unfold State.checkedOut
    rw [(h.used key).length_eq, ← permit_split]
    exact h.sema key
  constructor
  · intro key permits hpermits
    have := hsum key
    rw [hpermits, Option.getD_some] at this
    omega
  · intro key
    have := hsum key
    omega

/-! ## 5. Every step keeps it -/

/-- A thread moves: what its permit loses the semaphore gains, and the pool is what is out. -/
theorem Inv.move (h : Inv env s) {old : Call} (new : Call) (hi : s.calls[i]? = some old)
    {semas : PoolKey → Option Nat} {pools : PoolKey → Option (List Nat)} (nextConn : Nat)
    (hsema : ∀ key, (semas key).getD (poolMax env) +
      (if new.phase.permit = some key then 1 else 0) =
        (s.semas key).getD (poolMax env) + if old.phase.permit = some key then 1 else 0)
    (hused : ∀ key, ((pools key).getD []).Perm
      ((s.calls.set i new).filterMap fun call => call.phase.outAt key)) :
    Inv env { s with
      semas := semas, pools := pools, nextConn := nextConn, calls := s.calls.set i new } where
  sema key := by
    have hcount := Replace.countP_set hi new fun call => decide (call.phase.permit = some key)
    have hkey := hsema key
    have hold := h.sema key
    simp only [decide_eq_true_eq] at hcount
    show (semas key).getD (poolMax env) + (s.calls.set i new).countP _ = _
    omega
  used := hused

/-- The connections out are those that were. -/
theorem Inv.used_same (h : Inv env s) {old new : Call} (hi : s.calls[i]? = some old)
    (hout : new.phase.out = old.phase.out) (key : PoolKey) :
    ((s.pools key).getD []).Perm
      ((s.calls.set i new).filterMap fun call => call.phase.outAt key) := by
  have hsame : new.phase.outAt key = old.phase.outAt key := by
    unfold Phase.outAt
    rw [hout]
  rw [Replace.filterMap_set_same hi hsame]
  exact h.used key

/-- A thread that moves with what it has. -/
theorem Inv.setPhase (h : Inv env s) {agent : String} {old new : Phase}
    (hi : s.calls[i]? = some ⟨agent, old⟩) (hout : new.out = old.out)
    (hpermit : new.permit = old.permit) : Inv env (s.setPhase i ⟨agent, old⟩ new) := by
  refine h.move ⟨agent, new⟩ hi s.nextConn (fun key => ?_) (h.used_same hi hout)
  simp only [hpermit]

theorem Inv.withPool (h : Inv env s) (key : PoolKey) : Inv env (s.withPool key) where
  sema := h.sema
  used k := by
    have hsame : (((s.withPool key).pools k).getD []) = (s.pools k).getD [] := by
      by_cases hk : k = key
      · subst hk
        simp [State.withPool]
      · simp [State.withPool, Function.update_of_ne hk]
    rw [hsame]
    exact h.used k

/-- A thread gives its permit back. -/
theorem Inv.withPermit (h : Inv env s) {agent : String} {old new : Phase} {key : PoolKey}
    (hi : s.calls[i]? = some ⟨agent, old⟩) (hout : new.out = old.out)
    (hold : old.permit = some key) (hnew : new.permit = none) :
    Inv env ((s.withPermit env key).setPhase i ⟨agent, old⟩ new) := by
  refine h.move ⟨agent, new⟩ hi s.nextConn (fun k => ?_) (h.used_same hi hout)
  simp only [hold, hnew]
  by_cases hk : k = key
  · subst hk
    simp [State.withPermit]
  · simp [State.withPermit, Function.update_of_ne hk, Ne.symm hk]

/-- A thread begins, with neither permit nor connection of a pool. -/
theorem Inv.addCall (h : Inv env s) {call : Call} {semas : PoolKey → Option Nat} (nextConn : Nat)
    (hsema : ∀ key, (semas key).getD (poolMax env) = (s.semas key).getD (poolMax env))
    (hout : call.phase.out = none) (hhand : call.phase.inHand = none) :
    Inv env { s with semas := semas, nextConn := nextConn, calls := s.calls ++ [call] } where
  sema key := by
    have hnone : ¬ call.phase.permit = some key := by
      unfold Phase.permit
      rw [hout, hhand]
      exact nofun
    show (semas key).getD _ + (s.calls ++ [call]).countP _ = _
    rw [hsema, List.countP_append, List.countP_singleton, if_neg (by simpa using hnone)]
    exact h.sema key
  used key := by
    have hnone : call.phase.outAt key = none := by
      unfold Phase.outAt
      rw [hout]
    show ((s.pools key).getD []).Perm ((s.calls ++ [call]).filterMap _)
    rw [List.filterMap_append, List.filterMap_cons, hnone, List.filterMap_nil, List.append_nil]
    exact h.used key

theorem Inv.acquire (h : Inv env s) (agent : String) (connected : Bool) :
    Inv env (stepAcquire env s agent connected) := by
  unfold stepAcquire
  split
  · exact h.addCall s.nextConn (fun _ => rfl) rfl rfl
  · split
    · rename_i key _
      refine h.addCall s.nextConn (fun k => ?_) rfl rfl
      by_cases hk : k = key
      · subst hk
        simp
      · simp [Function.update_of_ne hk]
    · split
      · exact h.addCall (s.nextConn + 1) (fun _ => rfl) rfl rfl
      · exact h.addCall s.nextConn (fun _ => rfl) rfl rfl

theorem Inv.take (h : Inv env s) (hs : stepTake s i = some s') : Inv env s' := by
  unfold stepTake at hs
  split at hs
  · rename_i agent key hi
    split at hs
    · rename_i permits hpermits
      cases hs
      refine h.move ⟨agent, .admitted key⟩ hi s.nextConn (fun k => ?_)
        (h.used_same hi rfl)
      have hnew : (Phase.admitted key).permit = some key := rfl
      have hold : (Phase.waiting key).permit = none := rfl
      simp only [hnew, hold]
      by_cases hk : k = key
      · subst hk
        simp [hpermits]
      · simp [Function.update_of_ne hk, Ne.symm hk]
    · cases hs
  · cases hs

theorem Inv.openPool (h : Inv env s) {connected : Bool}
    (hs : stepOpenPool env s i connected = some s') : Inv env s' := by
  unfold stepOpenPool at hs
  split at hs
  · rename_i agent key hi
    split at hs
    · cases hs
      exact (h.withPool key).setPhase hi rfl rfl
    · cases hs
      exact h.withPermit hi rfl rfl rfl
  · cases hs

theorem Inv.getconn (h : Inv env s) {connected : Bool}
    (hs : stepGetconn env s i connected = some s') : Inv env s' := by
  unfold stepGetconn at hs
  split at hs
  · rename_i agent key hi
    simp only at hs
    split at hs
    · cases hs
      refine h.move ⟨agent, .setting key s.nextConn⟩ hi (s.nextConn + 1) (fun _ => rfl)
        fun k => ?_
      by_cases hk : k = key
      · subst hk
        have hgain : ((s.calls.set i ⟨agent, .setting k s.nextConn⟩).filterMap
            fun call => call.phase.outAt k).Perm
              (s.nextConn :: s.calls.filterMap fun call => call.phase.outAt k) :=
          Replace.filterMap_set_perm hi rfl (if_pos rfl : Phase.outAt k (.setting k _) = some _)
        simp only [Function.update_self, Option.getD_some]
        exact ((h.used k).cons _).trans hgain.symm
      · have hsame : (Phase.setting key s.nextConn).outAt k = (Phase.connecting key).outAt k :=
          if_neg (Ne.symm hk)
        rw [Replace.filterMap_set_same hi hsame]
        simp only [Function.update_of_ne hk]
        exact h.used k
    · cases hs
      exact h.withPermit hi rfl rfl rfl
  · cases hs

/-- The connection of a thread is checked out of its pool. -/
theorem Inv.mem_used (h : Inv env s) {call : Call} (hi : s.calls[i]? = some call) {key : PoolKey}
    {conn : Nat} (hout : call.phase.outAt key = some conn) : conn ∈ (s.pools key).getD [] :=
  (h.used key).mem_iff.mpr (List.mem_filterMap.mpr ⟨call, List.mem_of_getElem? hi, hout⟩)

theorem Inv.release (h : Inv env s) {connected : Bool} (hok : Calm env s (.release i connected))
    (hs : stepRelease env s i connected = some s') : Inv env s' := by
  unfold stepRelease at hs
  split at hs
  · rename_i agent source conn hi
    obtain ⟨state, hstate, hpool⟩ := hok agent source conn hi
    rw [hstate] at hs
    simp only [hpool] at hs
    cases source with
    | none =>
      cases hs
      exact h.setPhase hi rfl rfl
    | some key =>
      have hmem : conn ∈ (s.pools key).getD [] := h.mem_used hi (if_pos rfl)
      have hsome : (s.pools key).isSome = true := by
        cases hnone : s.pools key with
        | none =>
          rw [hnone] at hmem
          cases hmem
        | some used => rfl
      simp only [hsome, Bool.true_or, if_true] at hs
      cases hs
      exact (h.withPool key).setPhase hi rfl rfl
  · cases hs

theorem Inv.putconn (h : Inv env s) {first second : Bool}
    (hok : first = true ∨ second = true) (hs : stepPutconn s i first second = some s') :
    Inv env s' := by
  unfold stepPutconn at hs
  split at hs
  · rename_i agent key conn hi
    have hmem : conn ∈ (s.pools key).getD [] := h.mem_used hi (if_pos rfl)
    simp only [if_pos (And.intro hmem hok)] at hs
    cases hs
    refine h.move ⟨agent, .returned key⟩ hi s.nextConn (fun _ => rfl) fun k => ?_
    by_cases hk : k = key
    · subst hk
      have hlose : (s.calls.filterMap fun call => call.phase.outAt k).Perm
          (conn :: (s.calls.set i ⟨agent, .returned k⟩).filterMap
            fun call => call.phase.outAt k) :=
        Replace.perm_filterMap_set hi (if_pos rfl : Phase.outAt k (.returning k conn) = _) rfl
      simp only [Function.update_self, Option.getD_some]
      have hless := ((h.used k).trans hlose).erase conn
      rwa [List.erase_cons_head] at hless
    · have hsame : (Phase.returned key).outAt k = (Phase.returning key conn).outAt k :=
        (if_neg (Ne.symm hk)).symm
      rw [Replace.filterMap_set_same hi hsame]
      simp only [Function.update_of_ne hk]
      exact h.used k
  · cases hs

theorem Inv.step (h : Inv env s) (hok : Calm env s op) (hs : SqlPool.step env s op = some s') :
    Inv env s' := by
  cases op with
  | register agent state =>
    cases hs
    exact ⟨h.sema, h.used⟩
  | acquire agent connected =>
    cases hs
    exact h.acquire agent connected
  | take i => exact h.take hs
  | timeout i =>
    simp only [SqlPool.step, stepTimeout] at hs
    split at hs
    · rename_i hi
      cases hs
      exact h.setPhase hi rfl rfl
    · cases hs
  | openPool i connected => exact h.openPool hs
  | getconn i connected => exact h.getconn hs
  | autocommit i ok =>
    simp only [Calm] at hok
    simp only [SqlPool.step, stepAutocommit, hok, if_true] at hs
    split at hs
    · rename_i hi
      cases hs
      exact h.setPhase hi rfl rfl
    · cases hs
  | release i connected => exact h.release hok hs
  | putconn i first second => exact h.putconn hok hs
  | giveBack i =>
    simp only [SqlPool.step, stepGiveBack] at hs
    split at hs
    · rename_i hi
      cases hs
      exact h.withPermit hi rfl rfl rfl
    · cases hs

theorem start_inv (env : Env) : Inv env start where
  sema _ := rfl
  used _ := List.Perm.refl _

/-! ## 6. The result -/

/-- **Slots are conserved**, where each connection goes back to the pool that it came from, can be
set up and can be taken back. -/
theorem slots_conserved (hrun : Reach (step env) (Calm env) start s) : Conserved env s :=
  (hrun.invariant (start_inv env) fun _ _ _ h hok hs => h.step hok hs).conserved

instance (env : Env) (s : State) : (op : Op) → Decidable (Calm env s op)
  | .autocommit _ ok => inferInstanceAs (Decidable (ok = true))
  | .putconn _ first second => inferInstanceAs (Decidable (first = true ∨ second = true))
  | .release i _ =>
    match h : s.calls[i]? with
    | some ⟨agent, .holding source conn⟩ =>
      decidable_of_iff ((s.registry agent).map (poolOf env) = some source)
        ⟨fun hpool a src c hc => by
          cases h.symm.trans hc
          exact Option.map_eq_some_iff.mp hpool,
        fun hall => Option.map_eq_some_iff.mpr (hall agent source conn h)⟩
    | some ⟨_, .waiting _⟩ | some ⟨_, .admitted _⟩ | some ⟨_, .connecting _⟩
    | some ⟨_, .setting ..⟩ | some ⟨_, .returning ..⟩ | some ⟨_, .returned _⟩ | some ⟨_, .ended⟩
    | some ⟨_, .raised⟩ | none => .isTrue fun a src c hc => by cases h.symm.trans hc
  | .register .. | .acquire .. | .take _ | .timeout _ | .openPool .. | .getconn .. | .giveBack _ =>
    .isTrue trivial

/-- Two connections at most. -/
def two : Env := ⟨"1", "2"⟩

/-- An agent with a database of this name. -/
def database (name : String) : Op :=
  .register "agent1" ⟨true, "postgresql", "localhost", 5432, name, "reader"⟩

def keyOf (name : String) : PoolKey := ⟨"localhost", 5432, name, "reader"⟩

/-- A connection of `sales` is checked out. -/
def checkOut : List Op :=
  [database "sales", .acquire "agent1" true, .take 0, .openPool 0 true, .getconn 0 true,
    .autocommit 0 true]

theorem slots_conserved_checkedOut : ∃ s, Reach (step two) (Calm two) start s ∧
    (s.semas (keyOf "sales"), s.checkedOut (keyOf "sales")) = (some 1, 1) ∧ Conserved two s := by
  have hplay : (replay (step two) (Calm two) start checkOut).map
      (fun s => (s.semas (keyOf "sales"), s.checkedOut (keyOf "sales"))) = some (some 1, 1) := by
    decide +kernel
  obtain ⟨s, hs, hout⟩ := Option.map_eq_some_iff.mp hplay
  have hrun := Reach.of_replay checkOut hs
  exact ⟨s, hrun, hout, slots_conserved hrun⟩

/-- The agent is registered with another database, and the connection goes back. -/
def moved : List Op :=
  checkOut ++ [database "stock", .release 0 true, .putconn 0 false false, .giveBack 0]

/-- **A slot can be lost**, and another key gets one too many. -/
theorem slot_lost : ¬ ∀ env s, Reach (step env) anyStep start s → Conserved env s := by
  intro hall
  have hplay : (replay (step two) anyStep start moved).map
      (fun s => (s.semas (keyOf "stock"), s.checkedOut (keyOf "sales"), s.calls.map (·.phase))) =
        some (some 3, 1, [.ended]) := by decide +kernel
  obtain ⟨s, hs, hout⟩ := Option.map_eq_some_iff.mp hplay
  simp only [Prod.mk.injEq] at hout
  have hsum := (hall two s (Reach.of_replay moved hs)).sum (keyOf "stock") 3 hout.1
  have hmax : poolMax two = 2 := by decide +kernel
  omega

end Apowerb.Tools.SqlPool
