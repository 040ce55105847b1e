/-
# Time zones

A time zone is an offset for each instant, and, for the way back, an offset for each wall-clock
time.  A clock change makes the wall clock repeat a stretch (an instant of each pass then shows
the same time) or skip one.  `datetime` resolves a repeated time to its FIRST reading (`fold=0`)
and pushes a skipped one past the change; the three laws of `Zone` say so, for zones with any
number of changes, in any order and of any size.

Every bounded offset function has such a way back (`Zone.ofOffset`), so a theorem about all zones
is about all offset functions.
-/
import Mathlib.Order.Bounds.Basic
import Mathlib.Data.Int.LeastGreatest

namespace Apowerb.Schedule

/-- A time zone, as `zoneinfo` presents it.  Instants are UTC. -/
structure Zone where
  /-- The offset in force at an instant (`instant.astimezone(tz).utcoffset()`). -/
  offset : Int → Int
  /-- The offset given to a naive wall-clock time (`wall.replace(tzinfo=tz).utcoffset()`). -/
  wallOffset : Int → Int
  /-- A time the clock shows is resolved to its first reading. -/
  first_reading : ∀ u, u + offset u - wallOffset (u + offset u) ≤ u
  /-- A time the clock shows is resolved to one of its readings. -/
  resolves : ∀ w, (∃ u, u + offset u = w) →
    w - wallOffset w + offset (w - wallOffset w) = w
  /-- A time the clock skips is resolved past every instant that shows an earlier time. -/
  skipped : ∀ w, (¬ ∃ u, u + offset u = w) → ∀ u, u + offset u < w → u < w - wallOffset w

namespace Zone

/-- `instant.astimezone(tz)`: what the clock shows. -/
def toWall (z : Zone) (u : Int) : Int := u + z.offset u

/-- `wall.astimezone(timezone.utc)` for a wall-clock time of the zone. -/
def toUtc (z : Zone) (w : Int) : Int := w - z.wallOffset w

variable (z : Zone)

/-- **Back to an absolute instant.**  A time later than the one shown at `after` comes back at or
before `after` exactly when the clock had shown it already. -/
theorem toUtc_le_iff {after w : Int} (hw : z.toWall after < w) :
    z.toUtc w ≤ after ↔ ∃ u ≤ after, z.toWall u = w := by
  constructor
  · intro hle
    by_cases hread : ∃ u, z.toWall u = w
    · exact ⟨z.toUtc w, hle, z.resolves w hread⟩
    · exact absurd (z.skipped w hread after hw) (not_lt.mpr hle)
  · rintro ⟨u, hu, rfl⟩
    exact le_trans (z.first_reading u) hu

/-! ## Zones -/

/-- A zone without clock changes. -/
def fixed (offset : Int) : Zone where
  offset := fun _ => offset
  wallOffset := fun _ => offset
  first_reading u := by omega
  resolves w _ := by omega
  skipped w hw := by
    exact absurd ⟨w - offset, by omega⟩ hw

@[simp] theorem toWall_fixed (offset u : Int) : (fixed offset).toWall u = u + offset := rfl

@[simp] theorem toUtc_fixed (offset w : Int) : (fixed offset).toUtc w = w - offset := rfl

/-- A zone with one clock change. -/
def change (instant before later : Int) : Zone where
  offset := fun u => if u < instant then before else later
  wallOffset := fun w => if w < instant + max before later then before else later
  first_reading u := by
    split <;> split <;> omega
  resolves w hw := by
    obtain ⟨u, hu⟩ := hw
    split at hu <;> split <;> split <;> omega
  skipped w hw u hu := by
    have hbefore : ¬ w - before < instant := fun h => hw ⟨w - before, by rw [if_pos h]; omega⟩
    have hlater : w - later < instant := by
      by_contra h
      exact hw ⟨w - later, by rw [if_neg h]; omega⟩
    split at hu <;> split <;> omega

open Classical in
/-- The wall offset that a bounded offset function determines. -/
noncomputable def resolve (f : Int → Int) (bound w : Int) : Int :=
  if h : ∃ u, u + f u = w ∧ ∀ v, v + f v = w → u ≤ v then w - h.choose else - bound

/-- A time that a bounded offset function shows is first shown at some instant. -/
theorem exists_first {f : Int → Int} {bound : Int} (hf : ∀ u, -bound ≤ f u ∧ f u ≤ bound)
    {w : Int} (h : ∃ u, u + f u = w) : ∃ u, u + f u = w ∧ ∀ v, v + f v = w → u ≤ v := by
  refine Int.exists_least_of_bdd ⟨w - bound, ?_⟩ h
  intro u hu
  have := (hf u).2
  omega

/-- **Any bounded offset function is a zone.** -/
noncomputable def ofOffset (f : Int → Int) (bound : Int)
    (hf : ∀ u, -bound ≤ f u ∧ f u ≤ bound) : Zone where
  offset := f
  wallOffset := resolve f bound
  first_reading u := by
    have h := exists_first hf ⟨u, rfl⟩
    rw [resolve, dif_pos h]
    have := h.choose_spec.2 u rfl
    omega
  resolves w hw := by
    have h := exists_first hf hw
    have hfirst : w - resolve f bound w = h.choose := by
      rw [resolve, dif_pos h]
      omega
    rw [hfirst]
    exact h.choose_spec.1
  skipped w hw u hu := by
    have h : ¬ ∃ u, u + f u = w ∧ ∀ v, v + f v = w → u ≤ v := fun ⟨v, hv, _⟩ => hw ⟨v, hv⟩
    rw [resolve, dif_neg h]
    have := (hf u).1
    omega

end Zone

end Apowerb.Schedule
