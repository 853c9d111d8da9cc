import Mathlib.Data.List.Sort
import TalentFlow.Gateway.Analytics
import TalentFlow.Gateway.WellFormed

/-!
# Guarantees.Trends

The points of the trends. Days begin at local midnight, but points are for UTC dates: a date may
be left out, come twice, or be added behind the others by an application.

* `trends_counts`, `trends_total`: whatever the zone, what the points count.
* `InStep`: the local days begin on the UTC dates up to today, or applications add the last ones.
* `inStep_fixed_iff`: when they do in a zone with one offset.
* `trends_iff`: then, and only then, there is one point for each day.
-/

namespace TalentFlow

open Data InsertionMap Paging AnalyticsService

/-- `days + 1` dates in a row, of which the last one is `today`. -/
def datesUpTo (today : ℤ) (days : ℕ) : List ℤ := run (today - days) (days + 1)

theorem mem_datesUpTo {today d : ℤ} {days : ℕ} :
    d ∈ datesUpTo today days ↔ today - days ≤ d ∧ d ≤ today := by
  rw [datesUpTo, mem_run]
  omega

/-- The trend has one point for each day, which counts the applications of its date. -/
structure OnePointPerDay (today : ℤ) (days : ℕ) (applications : List Application)
    (points : List TrendPointDto) : Prop where
  dates : points.map TrendPointDto.date = datesUpTo today days
  counts : ∀ p ∈ points, p.applications =
    (applications.filter fun app => decide (utcDay app.appliedAt = p.date)).length
  total : (points.map TrendPointDto.applications).sum = applications.length

/-! ## What points count -/

section Points

variable (zone : Zone) (now : ℤ) (days : ℕ) (applications : List Application)

def appliedDates : List ℤ := applications.map fun app => utcDay app.appliedAt

theorem trends_dates : (getTrends zone now days applications).map TrendPointDto.date =
    collect (collect [] (trendsDates zone (trendsStart zone now days) days))
      (appliedDates applications) := by
  simp only [getTrends, List.map_map]
  change List.map Prod.fst _ = _
  rw [tally, keys_upsertAll, keys_upsertAll]
  rfl

theorem prepared_zero (dates : List ℤ) :
    ∀ entry ∈ upsertAll (fun _ => 0) dates [], entry.2 = 0 :=
  forall_upsertAll (p := (· = 0)) (fun _ => rfl) dates (by simp)

theorem trends_counts : ∀ p ∈ getTrends zone now days applications, p.applications =
    (applications.filter fun app => decide (utcDay app.appliedAt = p.date)).length := by
  intro p hp
  obtain ⟨entry, hentry, rfl⟩ := List.mem_map.mp hp
  set prepared : List (ℤ × ℕ) :=
    upsertAll (fun _ => 0) (trendsDates zone (trendsStart zone now days) days) [] with hprepared
  have hnodup : ((tally (appliedDates applications) prepared).map Prod.fst).Nodup := by
    rw [tally, keys_upsertAll, hprepared, keys_upsertAll]
    exact nodup_collect (nodup_collect List.nodup_nil _) _
  have hvalue := lookup_tally (appliedDates applications) prepared entry.1
  have hzero : (prepared.lookup entry.1).getD 0 = 0 := by
    cases hlookup : prepared.lookup entry.1 with
    | none => rfl
    | some n => exact prepared_zero _ _ (mem_of_lookup hlookup)
  rw [lookup_of_mem hnodup hentry, hzero, Nat.zero_add, appliedDates, List.count_eq_length_filter,
    List.filter_map, List.length_map] at hvalue
  exact hvalue

theorem trends_total : ((getTrends zone now days applications).map TrendPointDto.applications).sum =
    applications.length := by
  have hzero : ((upsertAll (fun _ => 0)
      (trendsDates zone (trendsStart zone now days) days) []).map Prod.snd).sum = 0 := by
    refine List.sum_eq_zero_iff_forall_eq_nat.mpr fun n hn => ?_
    obtain ⟨entry, hentry, rfl⟩ := List.mem_map.mp hn
    exact prepared_zero _ entry hentry
  simp only [getTrends, List.map_map]
  change (List.map Prod.snd _).sum = _
  rw [sum_tally, hzero, Nat.zero_add, List.length_map]

end Points

/-! ## The days -/

section Days

variable (zone : Zone) (now : ℤ) (days : ℕ)

/-- When the first local day begins: at midnight, unless the clock leaves it out. -/
def firstMorning : ℤ :=
  zone.setMidnight (zone.utc ((zone.localDay now - days) * msPerDay + zone.toLocal now % msPerDay))

/-- The UTC date on which the local day begins that comes `i` days after the first one. -/
def beginsOn (i : ℕ) : ℤ :=
  let first := firstMorning zone now days
  utcDay (zone.utc ((zone.localDay first + i) * msPerDay + zone.toLocal first % msPerDay))

/-- The local days begin on the UTC dates up to today. -/
structure InStep (applications : List Application) : Prop where
  first : beginsOn zone now days 0 = utcDay now - days
  within : ∀ i ≤ days, utcDay now - days ≤ beginsOn zone now days i ∧
    beginsOn zone now days i ≤ utcDay now
  /-- no UTC date is left out where the offset falls -/
  gap : ∀ i < days, ∃ k ≤ i, beginsOn zone now days (i + 1) ≤ beginsOn zone now days k + 1
  /-- where fewer dates begin a day, applications add the last ones -/
  added : ∀ d ≤ utcDay now, (∀ i ≤ days, beginsOn zone now days i < d) →
    ∃ app ∈ applications, utcDay app.appliedAt = d

theorem trendsStart_eq : trendsStart zone now days = firstMorning zone now days := by
  simp only [trendsStart, firstMorning, sub_eq_add_neg, Zone.setDate_getDate]

theorem trendsDates_eq : trendsDates zone (trendsStart zone now days) days =
    (List.range (days + 1)).map (beginsOn zone now days) := by
  rw [trendsStart_eq]
  simp only [trendsDates, Zone.setDate_getDate]
  rfl

theorem beginsOn_zero_le : beginsOn zone now days 0 ≤ utcDay (trendsStart zone now days) := by
  have hle := zone.setDate_self_le (firstMorning zone now days)
  rw [Zone.setDate_getDate] at hle
  rw [trendsStart_eq]
  exact Int.ediv_le_ediv (by decide) hle

/-- The prepared dates are one run from the first one on where no date is left out. -/
theorem InStep.prepared {applications : List Application} (h : InStep zone now days applications) :
    ∃ n, collect [] (trendsDates zone (trendsStart zone now days) days) =
      run (utcDay now - days) n := by
  rw [trendsDates_eq, ← h.first]
  refine (collect_eq_run_iff _ days).mpr ⟨fun i hi => ?_, h.gap⟩
  rw [h.first]
  exact (h.within i hi).1

theorem mem_prepared {d : ℤ} :
    d ∈ collect [] (trendsDates zone (trendsStart zone now days) days) ↔
      ∃ i ≤ days, beginsOn zone now days i = d := by
  rw [trendsDates_eq, mem_collect_range]
  simp only [Nat.lt_succ_iff]

section Fetched

variable {zone now days} {applications : List Application}

theorem appliedDates_sorted (h : applications.Pairwise fun a b => a.appliedAt ≤ b.appliedAt) :
    (appliedDates applications).Pairwise fun a b => a = b ∨ a < b := by
  rw [appliedDates, List.pairwise_map]
  refine h.imp fun {a b} hab => ?_
  exact (Int.ediv_le_ediv (by decide) (Int.ofNat_le.mpr hab)).eq_or_lt

theorem appliedDates_within (h : InStep zone now days applications)
    (hfetched : ∀ app ∈ applications, trendsStart zone now days ≤ app.appliedAt ∧
      (app.appliedAt : ℤ) ≤ now) :
    ∀ d ∈ appliedDates applications, utcDay now - days ≤ d ∧ d ≤ utcDay now := by
  intro d hd
  obtain ⟨app, happ, rfl⟩ := List.mem_map.mp hd
  obtain ⟨hstart, hnow⟩ := hfetched app happ
  rw [← h.first]
  exact ⟨(beginsOn_zero_le zone now days).trans (Int.ediv_le_ediv (by decide) hstart),
    Int.ediv_le_ediv (by decide) hnow⟩

theorem mem_dates_iff (h : InStep zone now days applications)
    (happlied : ∀ d ∈ appliedDates applications, utcDay now - days ≤ d ∧ d ≤ utcDay now) (d : ℤ) :
    ((∃ i ≤ days, beginsOn zone now days i = d) ∨ d ∈ appliedDates applications) ↔
      d ∈ datesUpTo (utcDay now) days := by
  rw [mem_datesUpTo]
  constructor
  · rintro (⟨i, hi, rfl⟩ | hd)
    · exact h.within i hi
    · exact happlied d hd
  · rintro ⟨hbelow, habove⟩
    by_cases hday : ∃ i ≤ days, beginsOn zone now days i = d
    · exact .inl hday
    · -- the dates that begin a day are a run, and this one is behind it
      obtain ⟨n, hrun⟩ := h.prepared
      have hmem : ∀ d, d ∈ run (utcDay now - days) n ↔ ∃ i ≤ days, beginsOn zone now days i = d := by
        intro d
        rw [← hrun, mem_prepared]
      refine .inr (List.mem_map.mpr (h.added d habove fun i hi => ?_))
      have hi' := (hmem _).mpr ⟨i, hi, rfl⟩
      rw [← hmem, mem_run] at hday
      rw [mem_run] at hi'
      omega

theorem dates_of_inStep (h : InStep zone now days applications)
    (hsorted : applications.Pairwise fun a b => a.appliedAt ≤ b.appliedAt)
    (hfetched : ∀ app ∈ applications, trendsStart zone now days ≤ app.appliedAt ∧
      (app.appliedAt : ℤ) ≤ now) :
    (getTrends zone now days applications).map TrendPointDto.date =
      datesUpTo (utcDay now) days := by
  have happlied := appliedDates_within h hfetched
  have hmem : ∀ d, d ∈ (getTrends zone now days applications).map TrendPointDto.date ↔
      d ∈ datesUpTo (utcDay now) days := by
    intro d
    rw [trends_dates, mem_collect, mem_prepared, mem_dates_iff h happlied]
  have hascending : ((getTrends zone now days applications).map TrendPointDto.date).Pairwise
      (· < ·) := by
    obtain ⟨n, hrun⟩ := h.prepared
    rw [trends_dates, hrun]
    refine pairwise_collect (sorted_run _ _) (appliedDates_sorted hsorted) fun d hd => ?_
    by_cases hseen : d ∈ run (utcDay now - days) n
    · exact .inl hseen
    · refine .inr fun s hs => ?_
      have hbelow := (happlied d hd).1
      rw [mem_run] at hseen hs
      omega
  exact hascending.eq_of_mem_iff (sorted_run _ _) hmem

/-- Where the points are for the dates up to today, the days begin on these dates. -/
theorem inStep_of_dates
    (hdates : (getTrends zone now days applications).map TrendPointDto.date =
      datesUpTo (utcDay now) days) : InStep zone now days applications := by
  have hmem : ∀ d, d ∈ datesUpTo (utcDay now) days ↔
      (∃ i ≤ days, beginsOn zone now days i = d) ∨ d ∈ appliedDates applications := by
    intro d
    rw [← hdates, trends_dates, mem_collect, mem_prepared]
  have hpreparedFirst : collect [] ((List.range (days + 1)).map (beginsOn zone now days)) <+:
      datesUpTo (utcDay now) days := by
    rw [← hdates, trends_dates, trendsDates_eq]
    exact prefix_collect _ _
  have hrun := eq_run_of_prefix hpreparedFirst
  have hwithin : ∀ i ≤ days, utcDay now - days ≤ beginsOn zone now days i ∧
      beginsOn zone now days i ≤ utcDay now := by
    intro i hi
    exact mem_datesUpTo.mp ((hmem _).mpr (.inl ⟨i, hi, rfl⟩))
  refine ⟨first_of_collect_eq_run _ hrun, hwithin, gap_of_collect_eq_run _ hrun, fun d hd hbehind => ?_⟩
  have hd' : d ∈ datesUpTo (utcDay now) days := by
    exact mem_datesUpTo.mpr ⟨(hwithin 0 (Nat.zero_le days)).1.trans
      (hbehind 0 (Nat.zero_le days)).le, hd⟩
  obtain ⟨i, hi, rfl⟩ | happlied := (hmem d).mp hd'
  · exact absurd (hbehind i hi) (lt_irrefl _)
  · exact List.mem_map.mp happlied

end Fetched

end Days

/-! ## One offset -/

section Fixed

variable (offset now : ℤ) (days : ℕ)

theorem firstMorning_fixed : firstMorning (Zone.fixed offset) now days =
    ((now + offset) / msPerDay - days) * msPerDay - offset := by
  simp only [firstMorning, Zone.setMidnight, Zone.localDay, Zone.toLocal, Zone.fixed, msPerDay]
  omega

theorem beginsOn_fixed (i : ℕ) : beginsOn (Zone.fixed offset) now days i =
    utcDay ((Zone.fixed offset).setMidnight now) - days + i := by
  simp only [beginsOn, firstMorning_fixed]
  simp only [Zone.setMidnight, Zone.localDay, Zone.toLocal, Zone.fixed, utcDay, msPerDay]
  omega

/-- With one offset all depends on the date of the local midnight before now. -/
theorem inStep_fixed_iff (applications : List Application) :
    InStep (Zone.fixed offset) now days applications ↔
      utcDay ((Zone.fixed offset).setMidnight now) = utcDay now := by
  constructor
  · intro h
    have hfirst := h.first
    rw [beginsOn_fixed] at hfirst
    omega
  · intro h
    refine ⟨?_, fun i hi => ?_, fun i hi => ⟨i, le_rfl, ?_⟩, fun d hd hbehind => ?_⟩
    · rw [beginsOn_fixed]
      omega
    · rw [beginsOn_fixed]
      omega
    · rw [beginsOn_fixed, beginsOn_fixed]
      omega
    · -- the last day begins today
      have hlast := hbehind days le_rfl
      rw [beginsOn_fixed] at hlast
      omega

end Fixed

/-! ## One point a day -/

/-- There is one point for each of the days up to today when these days begin on their dates. -/
theorem trends_iff (zone : Zone) (now : ℤ) (days : ℕ) (db : Db) (rows : List Application)
    (hrows : IsSorting appliedEarlier (db.appliedSince (trendsStart zone now days)) rows)
    (hpast : ∀ app ∈ db.liveApplications, (app.appliedAt : ℤ) ≤ now) :
    OnePointPerDay (utcDay now) days rows (getTrends zone now days rows) ↔
      InStep zone now days rows := by
  constructor
  · intro h
    exact inStep_of_dates h.dates
  · intro h
    have hsorted : rows.Pairwise fun a b => a.appliedAt ≤ b.appliedAt :=
      hrows.2.imp fun hab => of_decide_eq_true hab
    have hfetched : ∀ app ∈ rows, trendsStart zone now days ≤ app.appliedAt ∧
        (app.appliedAt : ℤ) ≤ now := by
      intro app happ
      obtain ⟨hlive, hstart⟩ := List.mem_filter.mp (hrows.1.mem_iff.mp happ)
      exact ⟨of_decide_eq_true hstart, hpast app hlive⟩
    exact ⟨dates_of_inStep h hsorted hfetched, trends_counts zone now days rows,
      trends_total zone now days rows⟩

/-- Ten in the morning UTC of the day after the epoch, when it is five in New York. -/
theorem trends_new_york :
    OnePointPerDay 1 7 [cleosApplication]
      (getTrends (Zone.fixed (-18000000)) 122400000 7 [cleosApplication]) :=
  (trends_iff (Zone.fixed (-18000000)) 122400000 7 seeded.db [cleosApplication] (by decide +kernel)
    (by decide +kernel)).mpr ((inStep_fixed_iff _ _ _ _).mpr (by decide +kernel))

/-- At noon in Bangkok, the day began on the UTC date before. -/
theorem trends_bangkok :
    IsSorting appliedEarlier
      (seeded.db.appliedSince (trendsStart (Zone.fixed 25200000) 1728018000000 7)) [] ∧
    (∀ app ∈ seeded.db.liveApplications, (app.appliedAt : ℤ) ≤ 1728018000000) ∧
    utcDay 1728018000000 = 20000 ∧
    getTrends (Zone.fixed 25200000) 1728018000000 7 [] =
      (run 19992 8).map (fun date => { date, applications := 0 }) ∧
    ¬ OnePointPerDay (utcDay 1728018000000) 7 []
      (getTrends (Zone.fixed 25200000) 1728018000000 7 []) := by
  refine ⟨by decide +kernel, by decide +kernel, by decide +kernel, by decide +kernel, fun h => ?_⟩
  exact absurd h.dates (by decide +kernel)

/-- In London, where clocks went forward four days ago, two days begin on one date and none does
today. -/
example :
    (getTrends (Zone.changing 0 1711846800000 3600000) 1712232000000 7 []).map TrendPointDto.date =
      run 19810 7 ∧ utcDay 1712232000000 = 19817 := by
  decide +kernel

end TalentFlow
