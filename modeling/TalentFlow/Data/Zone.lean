import Mathlib.Algebra.Order.Ring.Int
import Mathlib.Tactic.SplitIfs

/-!
# Data.Zone

Local time, as the setters of ECMAScript's `Date` compute with it. Instants and local times are
numbers of milliseconds, days are counted from the epoch. `TimeClip` and what lies beyond it are
left out.

* `Zone`: what the offset of local time and its inverse have to do with each other.
* `setDate_getDate`: setting the date to so many days from now moves the local day by as many.
* `fixed`, `changing`: a zone with one offset, and one that changes it once.
-/

namespace Data

/-- A time zone. Where the offset grows, local times are skipped; where it falls, they repeat. -/
structure Zone where
  /-- by how much local time is ahead of UTC at an instant -/
  offset : ℤ → ℤ
  /-- the instant that a local time stands for -/
  utc : ℤ → ℤ
  utc_local : ∀ t, utc (t + offset t) + offset (utc (t + offset t)) = t + offset t
  /-- of the instants with the same local time, the first one -/
  utc_le : ∀ t, utc (t + offset t) ≤ t
  /-- a local time that is skipped is read with the offset before -/
  utc_skipped : ∀ l, (∀ t, t + offset t ≠ l) → ∃ t₀, t₀ + offset t₀ < l ∧
    (∀ t, t + offset t < l → t + offset t ≤ t₀ + offset t₀) ∧
    (∀ t, t + offset t = t₀ + offset t₀ → t ≤ t₀) ∧ utc l = l - offset t₀

def msPerDay : ℤ := 86400000

def utcDay (t : ℤ) : ℤ := t / msPerDay

def dayOfMonth (day : ℤ) : ℤ :=
  -- days since the first of March of the year 0, and then of the era of 400 years
  let z := day + 719468
  let dayOfEra := z % 146097
  let yearOfEra := (dayOfEra - dayOfEra / 1460 + dayOfEra / 36524 - dayOfEra / 146096) / 365
  let dayOfYear := dayOfEra - (365 * yearOfEra + yearOfEra / 4 - yearOfEra / 100)
  let month := (5 * dayOfYear + 2) / 153
  dayOfYear - (153 * month + 2) / 5 + 1

example : [0, 30, 31, 58, 59, 364, 19781, 19782].map dayOfMonth = [1, 31, 1, 28, 1, 31, 28, 29] := by
  decide

namespace Zone

variable (z : Zone)

def toLocal (t : ℤ) : ℤ := t + z.offset t

def localDay (t : ℤ) : ℤ := z.toLocal t / msPerDay

def getDate (t : ℤ) : ℤ := dayOfMonth (z.localDay t)

/-- The day of the local month, which may lie outside of it, at the local time of day. -/
def setDate (t date : ℤ) : ℤ :=
  z.utc ((z.localDay t - dayOfMonth (z.localDay t) + date) * msPerDay + z.toLocal t % msPerDay)

/-- `setHours(0, 0, 0, 0)`: the beginning of the local day. -/
def setMidnight (t : ℤ) : ℤ := z.utc (z.localDay t * msPerDay)

theorem setDate_getDate (t k : ℤ) : z.setDate t (z.getDate t + k) =
    z.utc ((z.localDay t + k) * msPerDay + z.toLocal t % msPerDay) := by
  unfold setDate getDate
  congr 3
  omega

/-- Setting the date that it is leads to the first instant with the same local time. -/
theorem setDate_self_le (t : ℤ) : z.setDate t (z.getDate t + 0) ≤ t := by
  rw [setDate_getDate, add_zero, localDay, Int.ediv_mul_add_emod]
  exact z.utc_le t

def fixed (offset : ℤ) : Zone where
  offset _ := offset
  utc l := l - offset
  utc_local _ := by omega
  utc_le _ := by omega
  utc_skipped l h := absurd (by omega) (h (l - offset))

def changing (before : ℤ) (change : ℤ) (after : ℤ) : Zone where
  offset t := if t < change then before else after
  utc l := if l - before < change ∨ l < change + after then l - before else l - after
  utc_local t := by split_ifs <;> omega
  utc_le t := by split_ifs <;> omega
  utc_skipped l h := by
    have hbefore : ¬ l - before < change := fun hlt => h (l - before) (by rw [if_pos hlt]; omega)
    have hafter : l - after < change := by
      by_contra hge
      exact h (l - after) (by rw [if_neg hge]; omega)
    refine ⟨change - 1, ?_, fun t ht => ?_, fun t ht => ?_, ?_⟩
    · rw [if_pos (by omega)]
      omega
    · rw [if_pos (by omega : change - 1 < change)]
      split_ifs at ht ⊢ <;> omega
    · rw [if_pos (by omega : change - 1 < change)] at ht
      split_ifs at ht <;> omega
    · rw [if_pos (.inr (by omega)), if_pos (by omega)]

end Zone

end Data
