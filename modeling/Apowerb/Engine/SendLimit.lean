/-
# The limit of the sends

`_reserve_sends` of `core/workflow_runtime.py`: thirty sends an hour for an owner, in the memory of
one process.  The moments are those of `time.monotonic()`, doubles that are held here as the number
of their units, and an hour has passed between two of them when their difference, ROUNDED to a
double, is not below 3600.

A call drops the sends that are an hour old BEFORE it looks whether the others leave room.  So a
call that is refused reserves nothing, and still changes what is recorded (`not_unchanged`).

* `sends_limited`: in every run no hour has more than thirty sends of an owner, and a refused call
  drops the sends that are an hour old and changes nothing else.

GHOST STATE: all the sends that were reserved.
-/
import Apowerb.Lib.Double
import Apowerb.Lib.Runs
import Apowerb.Lib.Window
import Apowerb.Raised

namespace Apowerb.Engine.SendLimit

open Runs Window

/-! ## 1. The call -/

/-- `_SEND_LIMIT`. -/
def sendLimit : Nat := 30

/-- An hour, in units. -/
def oneHour : Int := 3600 * Double.one

/-- `_SEND_WINDOW_S`. -/
def sendWindow : Double := .finite oneHour

/-- `now - t < _SEND_WINDOW_S`. -/
@[irreducible] def recent (now t : Int) : Bool := Double.lt (Double.sub (.finite now) (.finite t)) sendWindow

/-- `_send_history`: an owner who is not in it has no sends. -/
abbrev History := String → List Int

def History.put (h : History) (owner : String) (ts : List Int) : History :=
  fun other => if other = owner then ts else h other

/-- The sends of an owner that are not an hour old. -/
def History.pruned (h : History) (now : Int) (owner : String) : History :=
  h.put owner ((h owner).filter (recent now))

/-- `_reserve_sends`, and the history that it leaves. -/
def reserveSends (now : Int) (h : History) (ownerEmail nodeId : String) (count : Int) :
    Except Raised Unit × History :=
  let kept := h.pruned now ownerEmail
  if (kept ownerEmail).length + count > sendLimit then
    (.error (.coded s!"{nodeId} : limite de {sendLimit} envois par heure dépassée"
      "notification_rate_limited" [("node", nodeId), ("limit", toString sendLimit)]), kept)
  else (.ok (), kept.put ownerEmail (kept ownerEmail ++ List.replicate count.toNat now))

/-! ## 2. Runs -/

structure State where
  clock : Int
  history : History
  sent : History

/-- A call at a moment. -/
structure Call where
  now : Int
  ownerEmail : String
  nodeId : String
  count : Int

/-- The sends that a call reserves. -/
def reserved (s : State) (c : Call) : History :=
  match (reserveSends c.now s.history c.ownerEmail c.nodeId c.count).1 with
  | .ok () => s.sent.put c.ownerEmail (s.sent c.ownerEmail ++ List.replicate c.count.toNat c.now)
  | .error _ => s.sent

/-- The clock does not go back. -/
def step (s : State) (c : Call) : Option State :=
  if s.clock ≤ c.now then
    some ⟨c.now, (reserveSends c.now s.history c.ownerEmail c.nodeId c.count).2, reserved s c⟩
  else none

/-- The process starts. -/
def start (clock : Int) : State := ⟨clock, fun _ => [], fun _ => []⟩

/-! ## 3. The invariant -/

/-- A larger difference is no smaller once it is rounded. -/
theorem recent_mono {now now' t t' : Int} (hnow : now ≤ now') (ht : t' ≤ t)
    (h : recent now' t' = true) : recent now t = true := by
  unfold recent at h ⊢
  obtain ⟨units, hunits⟩ : ∃ units, sendWindow = .finite units := ⟨_, rfl⟩
  rw [hunits, Double.sub] at h ⊢
  exact Double.lt_ofUnits_mono (by omega) h

def hour : Recency Int := ⟨recent, recent_mono⟩

theorem hour_recent : hour.recent = recent := rfl

/-- What is recorded of each owner stands for all that was reserved. -/
def Inv (s : State) : Prop :=
  ∀ owner, Tracked hour sendLimit s.clock (s.history owner) (s.sent owner)

theorem History.put_self (h : History) (owner : String) (ts : List Int) :
    h.put owner ts owner = ts := if_pos rfl

theorem History.put_other (h : History) {owner other : String} (hne : other ≠ owner)
    (ts : List Int) : h.put owner ts other = h other := if_neg hne

theorem Inv.step {s s' : State} {c : Call} (h : Inv s) (hs : SendLimit.step s c = some s') :
    Inv s' := by
  unfold SendLimit.step at hs
  split at hs
  · rename_i hclock
    cases hs
    intro owner
    by_cases howner : owner = c.ownerEmail
    · subst howner
      have hpruned := ((h c.ownerEmail).later hclock).prune
      rw [hour_recent] at hpruned
      unfold reserved reserveSends
      dsimp only
      split
      · simpa only [History.pruned, History.put_self] using hpruned
      · rename_i hroom
        simp only [History.pruned, History.put_self] at hroom ⊢
        rcases Int.lt_or_le 0 c.count with hsome | hnone
        · have hkept : ∀ t ∈ (s.history c.ownerEmail).filter (recent c.now),
              hour.recent c.now t = true := fun t ht => (List.mem_filter.mp ht).2
          exact hpruned.grant hkept (by omega)
        · -- Nothing is reserved.
          have hzero : c.count.toNat = 0 := Int.toNat_eq_zero.mpr hnone
          simpa only [hzero, List.replicate_zero, List.append_nil] using hpruned
    · have hlater := (h owner).later hclock
      unfold reserved reserveSends
      dsimp only
      split <;> simpa only [History.pruned, History.put_other _ howner] using hlater
  · cases hs

theorem inv_of_reach {clock : Int} {s : State} (h : Reach step anyStep (start clock) s) : Inv s :=
  h.invariant (fun _ => tracked_nil hour sendLimit clock) fun _ _ _ hs _ hstep => hs.step hstep

/-! ## 4. The result -/

/-- **No hour has more than thirty sends of an owner**, and a call that is refused only drops the
sends of its owner that are an hour old. -/
theorem sends_limited {clock : Int} {s : State} (h : Reach step anyStep (start clock) s) :
    (∀ owner a b, recent b a = true → (within a b (s.sent owner)).length ≤ sendLimit) ∧
      ∀ now ownerEmail nodeId count e history',
        reserveSends now s.history ownerEmail nodeId count = (.error e, history') →
          history' = s.history.put ownerEmail ((s.history ownerEmail).filter (recent now)) := by
  refine ⟨fun owner a b hrecent => (inv_of_reach h owner).bounded a b hrecent, ?_⟩
  intro now ownerEmail nodeId count e history' hcall
  unfold reserveSends at hcall
  dsimp only at hcall
  split at hcall
  · exact (Prod.mk.inj hcall).2.symm
  · cases (Prod.mk.inj hcall).1


/-- One send is reserved. -/
def first : Call := ⟨0, "o@x", "n", 1⟩

theorem reach_first : ∃ s, Reach step anyStep (start 0) s ∧ s.clock = 0 ∧ s.sent "o@x" = [0] ∧
    s.history "o@x" = [0] := by
  have hplay : (replay step anyStep (start 0) [first]).map
      (fun s => (s.clock, s.sent "o@x", s.history "o@x")) = some (0, [0], [0]) := by
    decide +kernel
  obtain ⟨s, hs, hout⟩ := Option.map_eq_some_iff.mp hplay
  obtain ⟨hclock, hout⟩ := Prod.mk.inj hout
  obtain ⟨hsent, hhistory⟩ := Prod.mk.inj hout
  exact ⟨s, Reach.of_replay [first] hs, hclock, hsent, hhistory⟩

theorem sends_limited_first : ∃ s : State, s.sent "o@x" = [0] ∧
    (∀ owner a b, recent b a = true → (within a b (s.sent owner)).length ≤ sendLimit) ∧
      ∀ now ownerEmail nodeId count e history',
        reserveSends now s.history ownerEmail nodeId count = (.error e, history') →
          history' = s.history.put ownerEmail ((s.history ownerEmail).filter (recent now)) := by
  obtain ⟨s, hreach, -, hsent, -⟩ := reach_first
  exact ⟨s, hsent, sends_limited hreach⟩

/-- **A refused call changes what is recorded**: an hour after the one send, thirty-one are refused
and it is dropped. -/
theorem not_unchanged : ¬ ∀ s, Reach step anyStep (start 0) s →
    ∀ now ownerEmail nodeId count e history', s.clock ≤ now →
      reserveSends now s.history ownerEmail nodeId count = (.error e, history') →
        history' = s.history := by
  intro hall
  obtain ⟨s, hreach, hclock, -, hhistory⟩ := reach_first
  have hold : recent oneHour 0 = false := by decide +kernel
  have hnow : s.clock ≤ oneHour := by
    rw [hclock]
    exact Int.mul_nonneg (by decide) (Int.natCast_nonneg _)
  have hcall : ∃ e, reserveSends oneHour s.history "o@x" "n" 31 =
      (.error e, s.history.put "o@x" []) := by
    simp [reserveSends, History.pruned, History.put_self, hhistory, hold, sendLimit]
  obtain ⟨e, hcall⟩ := hcall
  have hsame := congrFun (hall s hreach oneHour "o@x" "n" 31 e _ hnow hcall) "o@x"
  rw [History.put_self, hhistory] at hsame
  cases hsame

end Apowerb.Engine.SendLimit
