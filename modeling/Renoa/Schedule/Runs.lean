import Renoa.Schedule.Cron

/-!
# What the cron search finds

The search finds the least run of the first date that has one, so it is complete as far as it
looks and as long as no time on its way leaves the timestamps. The run found is the least of all
unless a time that the zone skips runs out of the order of the dates. The minute field alone bounds
the time between two runs only while their offsets differ by whole hours.
-/

namespace Renoa.Schedule

open Foundation List

/-! ## Zones -/

theorem resolveFrom_mem (offset time : Int) (transitions : List (Int × Int)) :
    resolveFrom offset time transitions ∈ offset :: transitions.map Prod.snd := by
  fun_induction resolveFrom with
  | case1 offset => exact mem_cons_self
  | case2 offset start next rest => exact mem_cons_self
  | case3 offset start next rest _ ih => exact mem_cons_of_mem _ ih

theorem offsetFrom_mem (offset instant : Int) (transitions : List (Int × Int)) :
    offsetFrom offset instant transitions ∈ offset :: transitions.map Prod.snd := by
  fun_induction offsetFrom with
  | case1 offset => exact mem_cons_self
  | case2 offset start next rest => exact mem_cons_self
  | case3 offset start next rest _ ih => exact mem_cons_of_mem _ ih

/-- The zone has no instant with this local time, which lies in a gap between two offsets. -/
def skipsFrom (offset : Int) (time : Int) : List (Int × Int) → Bool
  | [] => false
  | (start, next) :: rest =>
    if time - offset < start then false
    else if time - next < start then true else skipsFrom next time rest

/-- A time behind a transition is resolved behind it. -/
theorem le_sub_resolveFrom {start offset time : Int} {transitions : List (Int × Int)}
    (htime : start ≤ time - offset) (hlater : ∀ later ∈ transitions, start < later.1) :
    start ≤ time - resolveFrom offset time transitions := by
  induction transitions generalizing offset with
  | nil => exact htime
  | cons first rest ih =>
    have hfirst := hlater first mem_cons_self
    rw [resolveFrom]
    split
    · exact htime
    · exact ih (by omega) fun later hmem => hlater later (mem_cons_of_mem _ hmem)

/-- A time that is resolved behind a later one is skipped. -/
theorem skipsFrom_of_resolve_lt {offset time later : Int} {transitions : List (Int × Int)}
    (hsorted : transitions.Pairwise (·.1 < ·.1)) (hlt : time < later)
    (hresolve : later - resolveFrom offset later transitions <
      time - resolveFrom offset time transitions) :
    skipsFrom offset time transitions = true := by
  induction transitions generalizing offset with
  | nil =>
    simp only [resolveFrom] at hresolve
    omega
  | cons first rest ih =>
    obtain ⟨hfirst, hrest⟩ := pairwise_cons.mp hsorted
    rw [skipsFrom]
    rw [resolveFrom, resolveFrom] at hresolve
    by_cases hbefore : time - offset < first.1
    · -- `time` is resolved in front of the transition, and `later` there too or behind it
      rw [if_pos (.inl hbefore : time - offset < first.1 ∨ _)] at hresolve
      split at hresolve
      · omega
      · have hbehind : first.1 ≤ later - first.2 := by omega
        have := le_sub_resolveFrom hbehind hfirst
        omega
    · rw [if_neg hbefore]
      by_cases hgap : time - first.2 < first.1
      · exact if_pos hgap
      · rw [if_neg hgap]
        rw [if_neg (by omega), if_neg (by omega)] at hresolve
        exact ih hrest hresolve

/-- A time in front of the local time of an instant, but resolved behind it, is skipped. -/
theorem skipsFrom_of_lt_resolve {offset time instant : Int} {transitions : List (Int × Int)}
    (hlt : time < instant + offsetFrom offset instant transitions)
    (hresolve : instant < time - resolveFrom offset time transitions) :
    skipsFrom offset time transitions = true := by
  induction transitions generalizing offset with
  | nil =>
    simp only [resolveFrom, offsetFrom] at hlt hresolve
    omega
  | cons first rest ih =>
    rw [skipsFrom]
    rw [resolveFrom] at hresolve
    rw [offsetFrom] at hlt
    by_cases hbefore : time - offset < first.1
    · rw [if_pos (.inl hbefore)] at hresolve
      split at hlt <;> omega
    · rw [if_neg hbefore]
      by_cases hgap : time - first.2 < first.1
      · exact if_pos hgap
      · rw [if_neg hgap]
        rw [if_neg (by omega)] at hresolve
        rw [if_neg (by omega)] at hlt
        exact ih hlt hresolve

namespace Zone

variable {zone : Zone} {time instant : Int}

def skips (zone : Zone) (time : Int) : Bool := skipsFrom zone.offset time zone.transitions

theorem toZoned_eq_ok {run : Timestamp} :
    zone.toZoned time = .ok run ↔ zone.resolve time = run := by
  rw [toZoned]
  constructor
  · intro h
    split at h
    · cases h
      rfl
    · cases h
  · intro h
    rw [dif_pos (h ▸ run.2)]
    exact congrArg _ (Subtype.ext h)

/-- A time from the fourth date on is resolved behind an instant, whatever the offsets. -/
theorem lt_resolve (h : zone.date instant + 3 < time / dayMs) : instant < zone.resolve time := by
  have hoffset := zone.bounded _ (resolveFrom_mem zone.offset time zone.transitions)
  have hinstant := zone.bounded _ (offsetFrom_mem zone.offset instant zone.transitions)
  simp only [date, resolve, offsetFor, maxOffset, dayMs, hourMs, minuteMs] at *
  omega

/-- A time that is resolved to a timestamp is of a date in the calendar. -/
theorem date_le_maxDate (h : zone.resolve time ≤ maxTimestamp) : time / dayMs ≤ maxDate := by
  have hoffset := zone.bounded _ (resolveFrom_mem zone.offset time zone.transitions)
  simp only [resolve, offsetFor, maxOffset, maxTimestamp, maxDate, dayMs, hourMs, minuteMs] at *
  omega

end Zone

namespace Cron

variable {cron : Cron} {zone : Zone} {now run next : Timestamp} {date : Int} {expression : String}

/-! ## The times of an expression -/

/-- A local time that the expression matches. -/
structure Time (cron : Cron) where
  date : Int
  hour : Nat
  minute : Nat
  runsOn : cron.runsOn date = true
  hour_mem : hour ∈ values cron.hours 24
  minute_mem : minute ∈ values cron.minutes 60

namespace Time

def localTime (time : Time cron) : Int := Schedule.localTime time.date time.hour time.minute

/-- The instant a time runs at. -/
def runsAt (time : Time cron) (zone : Zone) : Int := zone.resolve time.localTime

theorem localTime_div (time : Time cron) : time.localTime / dayMs = time.date := by
  have hhour := mem_range.mp (mem_filter.mp time.hour_mem).1
  have hminute := mem_range.mp (mem_filter.mp time.minute_mem).1
  simp only [localTime, Schedule.localTime, dayMs, hourMs, minuteMs]
  omega

theorem localTime_mem (time : Time cron) : time.localTime ∈ cron.times time.date :=
  mem_flatMap.mpr ⟨time.hour, time.hour_mem, mem_map.mpr ⟨time.minute, time.minute_mem, rfl⟩⟩

/-- The first time that runs after an instant, in the order of the dates and on its date in the
order of the runs. -/
structure First (zone : Zone) (now start : Int) (time : Time cron) : Prop where
  start_le : start ≤ time.date
  lt_runsAt : now < time.runsAt zone
  le : ∀ other : Time cron, start ≤ other.date → now < other.runsAt zone →
    time.date < other.date ∨ time.date = other.date ∧ time.runsAt zone ≤ other.runsAt zone

theorem First.runsAt_eq {now start : Int} {first second : Time cron}
    (h : first.First zone now start) (h' : second.First zone now start) :
    first.runsAt zone = second.runsAt zone := by
  have := h.le second h'.start_le h'.lt_runsAt
  have := h'.le first h.start_le h.lt_runsAt
  omega

end Time

theorem exists_time_of_mem {clock : Int} (hdate : cron.runsOn date = true)
    (h : clock ∈ cron.times date) :
    ∃ time : Time cron, time.date = date ∧ time.localTime = clock := by
  obtain ⟨hour, hhour, hclock⟩ := mem_flatMap.mp h
  obtain ⟨minute, hminute, rfl⟩ := mem_map.mp hclock
  exact ⟨⟨date, hour, minute, hdate, hhour, hminute⟩, rfl, rfl⟩

/-! ## The least run of a date -/

theorem earliest_eq_min? (best : Option Timestamp) (runs : List Timestamp) :
    earliest now best runs = (best.toList ++ runs.filter (now < ·)).min? := by
  induction runs generalizing best with
  | nil => cases best <;> simp [earliest]
  | cons run rest ih =>
    -- the fold keeps the smaller of the best so far and a later run
    rw [earliest, foldl_cons, ← earliest, ih]
    by_cases hlat : now < run
    · cases best with
      | none => simp [hlat]
      | some best =>
        have hmin : (if run < best then some run else some best) = some (min best run) := by
          split <;> rename_i hlt
          · rw [min_eq_right hlt.le]
          · rw [min_eq_left (not_lt.mp hlt)]
        simp only [Subtype.coe_lt_coe, hlat, Option.all_some, decide_eq_true_eq, true_and, hmin,
          decide_true, filter_cons_of_pos, Option.toList_some, cons_append, nil_append,
          min?_cons', foldl_cons]
    · simp [hlat]

/-- The runs of a date that are all timestamps. -/
theorem mem_runs {runs : List Timestamp} (hdate : cron.runsOn date = true)
    (h : (cron.times date).mapM zone.toZoned = .ok runs) :
    (∀ run ∈ runs, ∃ time : Time cron, time.date = date ∧ time.runsAt zone = run) ∧
      ∀ time : Time cron, time.date = date → ∃ run ∈ runs, time.runsAt zone = run := by
  have hall := mapM_eq_ok h
  refine ⟨fun run hmem => ?_, ?_⟩
  · obtain ⟨clock, hclock, hrun⟩ := exists_of_forall₂_of_mem hall.flip hmem
    obtain ⟨time, htime, rfl⟩ := exists_time_of_mem hdate hclock
    exact ⟨time, htime, Zone.toZoned_eq_ok.mp hrun⟩
  · rintro time rfl
    obtain ⟨run, hmem, hrun⟩ := exists_of_forall₂_of_mem hall time.localTime_mem
    exact ⟨run, hmem, Zone.toZoned_eq_ok.mp hrun⟩

/-- What the search takes from one date: its first time after `now`, or that it has none. -/
theorem ofDate_ok {best : Option Timestamp} (h : cron.ofDate zone now date = .ok best) :
    (∀ time : Time cron, time.date = date → time.runsAt zone ∈ Set.Icc minTimestamp maxTimestamp) ∧
      (∀ run, best = some run → now < run ∧ ∃ time : Time cron, time.date = date ∧
        time.runsAt zone = run) ∧
      ∀ time : Time cron, time.date = date → now < time.runsAt zone →
        ∃ run, best = some run ∧ run ≤ time.runsAt zone := by
  rw [ofDate] at h
  split at h
  · rename_i hdate
    obtain ⟨runs, hruns, rfl⟩ := map_ok h
    obtain ⟨hto, hfrom⟩ := mem_runs hdate hruns
    rw [earliest_eq_min?, Option.toList_none, nil_append]
    refine ⟨fun time htime => ?_, fun run hrun => ?_, fun time htime hlt => ?_⟩
    · obtain ⟨run, -, hrun⟩ := hfrom time htime
      exact hrun ▸ run.2
    · have hmem := mem_filter.mp (min?_eq_some_iff.mp hrun).1
      exact ⟨of_decide_eq_true hmem.2, hto run hmem.1⟩
    · obtain ⟨run, hmem, hrun⟩ := hfrom time htime
      rw [hrun] at hlt ⊢
      have hlater : run ∈ runs.filter (now < ·) := mem_filter.mpr ⟨hmem, decide_eq_true hlt⟩
      cases hmin : (runs.filter (now < ·)).min? with
      | none => exact absurd (min?_eq_none_iff.mp hmin ▸ hlater) not_mem_nil
      | some least => exact ⟨least, rfl, (min?_eq_some_iff.mp hmin).2 run hlater⟩
  · rename_i hdate
    cases h
    -- no time is of a date that does not run
    have hno (time : Time cron) (htime : time.date = date) : False := hdate (htime ▸ time.runsOn)
    exact ⟨fun time htime => (hno time htime).elim, fun run hrun => absurd hrun.symm (by simp),
      fun time htime => (hno time htime).elim⟩

theorem exists_ofDate (h : ∀ time : Time cron, time.date = date →
    time.runsAt zone ∈ Set.Icc minTimestamp maxTimestamp) :
    ∃ best, cron.ofDate zone now date = .ok best := by
  rw [ofDate]
  split
  · rename_i hdate
    have hruns : Avoids (fun _ => True) ((cron.times date).mapM zone.toZoned) := by
      refine avoids_mapM fun clock hclock => ?_
      obtain ⟨time, htime, rfl⟩ := exists_time_of_mem hdate hclock
      have hrun : zone.toZoned _ = .ok ⟨_, h time htime⟩ := Zone.toZoned_eq_ok.mpr rfl
      rw [hrun]
      exact avoids_ok _
    cases hmap : (cron.times date).mapM zone.toZoned with
    | ok runs => exact ⟨_, rfl⟩
    | error e => exact absurd trivial (hruns e hmap)
  · exact ⟨none, rfl⟩

/-! ## The search over the dates -/

/-- The search finds the run of the first time, and all times on its way are timestamps. -/
theorem search_ok {left : Nat} (h : cron.search zone now left date = .ok run) :
    ∃ time : Time cron, time.runsAt zone = run ∧ time.First zone now date ∧
      time.date < date + left ∧
      ∀ other : Time cron, date ≤ other.date → other.date ≤ time.date →
        other.runsAt zone ∈ Set.Icc minTimestamp maxTimestamp := by
  induction left generalizing date with
  | zero => cases h
  | succ left ih =>
    obtain ⟨best, hbest, h⟩ := bind_ok h
    obtain ⟨hrange, hfound, hleast⟩ := ofDate_ok hbest
    cases best with
    | some run =>
      cases h
      obtain ⟨hlt, time, rfl, hrun⟩ := hfound run rfl
      refine ⟨time, hrun, ⟨le_rfl, hrun ▸ hlt, fun other hoth hlat => ?_⟩, by omega,
        fun other hle hge => hrange other (by omega)⟩
      by_cases heq : other.date = time.date
      · obtain ⟨least, hsome, hle⟩ := hleast other heq hlat
        cases hsome
        exact .inr ⟨heq.symm, hrun ▸ hle⟩
      · exact .inl (by omega)
    | none =>
      have hno (other : Time cron) (hdate : other.date = date) : ¬ now < other.runsAt zone :=
        fun hlt => by simpa using hleast other hdate hlt
      dsimp only at h
      split at h
      · obtain ⟨time, hrun, hfst, hlt, hall⟩ := ih h
        have hstart := hfst.start_le
        refine ⟨time, hrun, ⟨by omega, hfst.lt_runsAt, fun other hoth hlat => ?_⟩, by omega,
          fun other hle hge => ?_⟩
        · have hne : other.date ≠ date := fun heq => hno other heq hlat
          exact hfst.le other (by omega) hlat
        · by_cases heq : other.date = date
          · exact hrange other heq
          · exact hall other (by omega) hge
      · cases h

/-- The search gets as far as a time after `now` if all times on its way are timestamps. -/
theorem exists_search {left : Nat} {time : Time cron} (hle : date ≤ time.date)
    (hlt : time.date < date + left) (hlater : now < time.runsAt zone)
    (hrange : ∀ other : Time cron, date ≤ other.date → other.date ≤ time.date →
      other.runsAt zone ∈ Set.Icc minTimestamp maxTimestamp) :
    ∃ run, cron.search zone now left date = .ok run := by
  induction left generalizing date with
  | zero => omega
  | succ left ih =>
    obtain ⟨best, hbest⟩ : ∃ best, cron.ofDate zone now date = .ok best :=
      exists_ofDate fun other hoth => hrange other hoth.ge (by omega)
    refine exists_bind_eq_ok hbest ?_
    cases best with
    | some run => exact ⟨run, rfl⟩
    | none =>
      have hne : time.date ≠ date := fun heq => by
        simpa using (ofDate_ok hbest).2.2 time heq hlater
      have hmax := Zone.date_le_maxDate (hrange time hle le_rfl).2
      rw [time.localTime_div] at hmax
      dsimp only
      rw [if_pos (by omega)]
      exact ih (by omega) (by omega) fun other hoth => hrange other (by omega)

/-- The search gets to a time after `now`, which every one from the fourth date on is, and no time
on its way leaves the timestamps. -/
def Reaches (cron : Cron) (zone : Zone) (now : Timestamp) : Prop :=
  ∃ time : Time cron, zone.date now ≤ time.date ∧ time.date < zone.date now + searchDays ∧
    (zone.date now + 3 < time.date ∨ now < time.runsAt zone) ∧
    ∀ other : Time cron, zone.date now ≤ other.date → other.date ≤ time.date →
      other.runsAt zone ∈ Set.Icc minTimestamp maxTimestamp

/-- **The search is complete exactly as far as it looks.** Where a later date matches, a run is
returned if and only if one of the next dates, eight years of them, is within reach. -/
theorem nextAfter_complete_iff (cron : Cron) (zone : Zone) (now : Timestamp) :
    ((∃ date, zone.date now < date ∧ date ≤ maxDate ∧ cron.runsOn date = true) →
        ∃ run, cron.nextAfter zone now = .ok run) ↔
      ((∃ date, zone.date now < date ∧ date ≤ maxDate ∧ cron.runsOn date = true) →
        cron.Reaches zone now) := by
  refine imp_congr_right fun _ => ⟨?_, ?_⟩
  · rintro ⟨run, hrun⟩
    obtain ⟨time, -, hfst, hlt, hrange⟩ := search_ok hrun
    exact ⟨time, hfst.start_le, hlt, .inr hfst.lt_runsAt, hrange⟩
  · rintro ⟨time, hle, hlt, hlater, hrange⟩
    refine exists_search hle hlt ?_ hrange
    rcases hlater with hfar | hlater
    · exact Zone.lt_resolve (by rwa [time.localTime_div])
    · exact hlater

def utc : Zone := { offset := 0, transitions := [] }

/-- 1 February where it is a Monday, since a stepped star leaves the day unrestricted. -/
def firstMonday : Cron := ⟨1, 1, 1 <<< 1, 1 <<< 2, 1 <<< 1, false, true⟩

/-- Midnight on 1 February 2027. -/
def february : Timestamp := ⟨20850 * dayMs, by decide⟩

/-- After 1 February 2027 the next one on a Monday is in 2038, and the search ends before it. -/
theorem nextAfter_incomplete :
    Cron.parse "0 0 */31 2 1" = .ok firstMonday ∧
      utc.date february < 24868 ∧ 24868 ≤ maxDate ∧ firstMonday.runsOn 24868 = true ∧
      firstMonday.nextAfter utc february = .error (.invalid
        "cron expression never runs; check that its day-of-month exists in its month") := by
  decide +kernel

/-- Midnight on the last day of the year. -/
def lastDay : Cron := ⟨1, 1, 1 <<< 31, 1 <<< 12, 0x7f, true, false⟩

-- 31 December 9999 is in the calendar but behind the last timestamp
example : lastDay.runsOn maxDate = true ∧
    lastDay.nextAfter utc ⟨2932895 * dayMs, by decide⟩ = .error .time := by decide

/-- No skipped time that matches runs out of the order of the dates, from a date before that of
`now` or behind a time of a later date, unless another time runs first: of the dates from that of
`now` on, and in the second case up to the date of the skipped time. -/
structure DatesInOrder (cron : Cron) (zone : Zone) (now : Timestamp) : Prop where
  earlier : ∀ time : Time cron, zone.skips time.localTime = true → time.date < zone.date now →
    now < time.runsAt zone →
    ∃ first : Time cron, zone.date now ≤ first.date ∧ now < first.runsAt zone ∧
      first.runsAt zone ≤ time.runsAt zone
  later : ∀ time other : Time cron, zone.skips time.localTime = true →
    zone.date now ≤ time.date → time.date < other.date → now < other.runsAt zone →
    other.runsAt zone < time.runsAt zone →
    ∃ first : Time cron, zone.date now ≤ first.date ∧ first.date ≤ time.date ∧
      now < first.runsAt zone ∧ first.runsAt zone ≤ other.runsAt zone

/-- A time of a date before that of an instant, but resolved behind the instant, is skipped. -/
theorem Time.skips_of_date_lt {time : Time cron} (hdate : time.date < zone.date now)
    (hrun : now < time.runsAt zone) : zone.skips time.localTime = true := by
  refine skipsFrom_of_lt_resolve ?_ hrun
  rw [← time.localTime_div, Zone.date] at hdate
  simp only [dayMs, hourMs, minuteMs] at hdate
  omega

/-- A time of an earlier date, but resolved behind a later one's, is skipped. -/
theorem Time.skips_of_runsAt_lt {time other : Time cron} (hdate : time.date < other.date)
    (hrun : other.runsAt zone < time.runsAt zone) : zone.skips time.localTime = true := by
  refine skipsFrom_of_resolve_lt zone.sorted ?_ hrun
  rw [← time.localTime_div, ← other.localTime_div] at hdate
  simp only [dayMs, hourMs, minuteMs] at hdate
  omega

/-- **The run found is the least exactly where no skipped time is out of order.** It is after `now`
in any case. -/
theorem nextAfter_least_iff (h : cron.nextAfter zone now = .ok run) :
    now < run ∧
      (IsLeast {run : Timestamp | now < run ∧ ∃ time : Time cron, time.runsAt zone = run} run ↔
        cron.DatesInOrder zone now) := by
  obtain ⟨found, hrun, hfst, -, -⟩ := search_ok h
  have hlater : now < run := by
    have := hfst.lt_runsAt
    rwa [hrun] at this
  refine ⟨hlater, ⟨fun hleast => ?_, fun horder => ?_⟩⟩
  · -- a time that is no timestamp runs behind all that are
    have hle (time : Time cron) (hlt : now < time.runsAt zone) :
        found.runsAt zone ≤ time.runsAt zone := by
      rw [hrun]
      by_cases hmax : time.runsAt zone ≤ maxTimestamp
      · exact hleast.2 (show ⟨_, now.2.1.trans hlt.le, hmax⟩ ∈ _ from ⟨hlt, time, rfl⟩)
      · exact run.2.2.trans (not_le.mp hmax).le
    refine ⟨fun time _ _ hlt => ⟨found, hfst.start_le, hfst.lt_runsAt, hle time hlt⟩, ?_⟩
    intro time other _ hdate hlt hoth hbefore
    refine ⟨found, hfst.start_le, ?_, hfst.lt_runsAt, hle other hoth⟩
    have := hfst.le time hdate (hoth.trans hbefore)
    omega
  · -- of the dates from that of `now` on, every time runs behind the one found
    have hfrom (time : Time cron) (hdate : zone.date now ≤ time.date)
        (hlt : now < time.runsAt zone) : found.runsAt zone ≤ time.runsAt zone := by
      rcases hfst.le time hdate hlt with hafter | ⟨-, hle⟩
      · by_contra hnot
        have hbefore := not_le.mp hnot
        obtain ⟨first, hstart, hend, hgt, hle⟩ := horder.later found time
          (Time.skips_of_runsAt_lt hafter hbefore) hfst.start_le hafter hlt hbefore
        have := hfst.le first hstart hgt
        omega
      · exact hle
    refine ⟨⟨hlater, found, hrun⟩, ?_⟩
    rintro other ⟨hlt, time, htime⟩
    have hrunlt : now < time.runsAt zone := by rwa [htime]
    suffices hle : found.runsAt zone ≤ time.runsAt zone by rwa [hrun, htime] at hle
    by_cases hdate : zone.date now ≤ time.date
    · exact hfrom time hdate hrunlt
    · obtain ⟨first, hstart, hgt, hle⟩ := horder.earlier time
        (Time.skips_of_date_lt (not_le.mp hdate) hrunlt) (not_le.mp hdate) hrunlt
      exact (hfrom first hstart hgt).trans hle

/-- Half past nine on weekdays. -/
def weekdayMorning : Cron := ⟨1 <<< 30, 1 <<< 9, 0xfffffffe, 0x1ffe, 0x3e, false, true⟩

def epoch : Timestamp := ⟨0, by decide⟩

theorem nextAfter_least_utc :
    IsLeast {run : Timestamp | epoch < run ∧ ∃ time : Time weekdayMorning, time.runsAt utc = run}
      ⟨9 * hourMs + 30 * minuteMs, by decide⟩ := by
  -- UTC skips no time
  refine (nextAfter_least_iff (by decide +kernel)).2.mpr ⟨fun time hskip => ?_, ?_⟩
  · cases hskip
  · intro time other hskip
    cases hskip

/-- Apia went over the date line at the end of 29 December 2011 and had no 30 December. -/
def apia : Zone :=
  { offset := -10 * hourMs, transitions := [(15338 * dayMs + 10 * hourMs, 14 * hourMs)] }

/-- The instant of the change. -/
def dateLine : Timestamp := ⟨15338 * dayMs + 10 * hourMs, by decide⟩

/-- Ten o'clock on 30 December. -/
def yearEnd : Cron := ⟨1, 1 <<< 10, 1 <<< 30, 1 <<< 12, 0x7f, true, false⟩

/-- The skipped time runs as far behind the gap, but the search starts on the date after it. -/
theorem nextAfter_not_least :
    Cron.parse "0 10 30 12 *" = .ok yearEnd ∧
      yearEnd.nextAfter apia dateLine = .ok ⟨15704 * dayMs - 4 * hourMs, by decide⟩ ∧
      ¬ IsLeast {run : Timestamp | dateLine < run ∧ ∃ time : Time yearEnd, time.runsAt apia = run}
        ⟨15704 * dayMs - 4 * hourMs, by decide⟩ := by
  refine ⟨by decide +kernel, by decide +kernel, fun hleast => ?_⟩
  let skipped : Timestamp := ⟨15338 * dayMs + 20 * hourMs, by decide⟩
  have hskipped := hleast.2 (show skipped ∈ _ from
    ⟨by decide, ⟨15338, 10, 0, by decide, by decide, by decide⟩, by decide⟩)
  exact absurd hskipped (by decide)

/-! ## The spacing of the minutes -/

theorem spaced_pairwise {minutes : List Nat} (h : spaced minutes = true) :
    minutes.Pairwise (· + 5 ≤ ·) := by
  induction minutes with
  | nil => exact .nil
  | cons first rest ih =>
    cases rest with
    | nil => exact pairwise_singleton _ first
    | cons second rest =>
      obtain ⟨hnear, hspaced⟩ := Bool.and_eq_true_iff.mp h
      have hgap : 5 ≤ second - first := of_decide_eq_true hnear
      have hrest := ih hspaced
      refine pairwise_cons.mpr ⟨fun minute hminute => ?_, hrest⟩
      rcases mem_cons.mp hminute with rfl | hmem
      · omega
      · have hlat := (pairwise_cons.mp hrest).1 minute hmem
        omega

theorem parse_spaced (h : Cron.parse expression = .ok cron) :
    spaced (wrapped (values cron.minutes 60)) = true := by
  obtain ⟨-, -, h⟩ := bind_ok h
  split at h
  · obtain ⟨weekdays, -, h⟩ := bind_ok h
    obtain ⟨minutes, -, h⟩ := bind_ok h
    obtain ⟨hours, -, h⟩ := bind_ok h
    obtain ⟨days, -, h⟩ := bind_ok h
    obtain ⟨months, -, h⟩ := bind_ok h
    obtain ⟨hspaced, h⟩ := ensure_bind_ok h
    cases h
    exact hspaced
  · cases h

/-- Two minutes are the same or five minutes apart on the clock face, either way round. -/
def Apart (a b : Nat) : Prop := a = b ∨ 5 ≤ ((b : Int) - a) % 60 ∧ 5 ≤ ((a : Int) - b) % 60

instance : Std.Symm Apart := ⟨fun _ _ h => h.imp Eq.symm And.symm⟩

theorem minutes_apart (h : Cron.parse expression = .ok cron) {a b : Nat}
    (ha : a ∈ values cron.minutes 60) (hb : b ∈ values cron.minutes 60) : Apart a b := by
  have hwrapped := spaced_pairwise (parse_spaced h)
  generalize values cron.minutes 60 = minutes at *
  cases minutes with
  | nil => cases ha
  | cons first rest =>
    obtain ⟨hpair, -, hwrap⟩ := pairwise_append.mp hwrapped
    have hapart : (first :: rest).Pairwise Apart := by
      refine hpair.imp_of_mem fun {a b} ha hb hab => ?_
      -- the wrap bounds how far a minute is behind the first, and so behind every other
      have hlast := hwrap b hb (first + 60) (mem_singleton_self _)
      have hfst : first ≤ a := by
        rcases mem_cons.mp ha with rfl | hmem
        · exact le_rfl
        · have hlat := (pairwise_cons.mp hpair).1 a hmem
          omega
      refine .inr ⟨?_, ?_⟩
      · omega
      · omega
    exact hapart.forall_of_forall (fun _ _ => .inl rfl) ha hb

/-- The offset a time is resolved with. -/
def Time.offset (time : Time cron) (zone : Zone) : Int := zone.offsetFor time.localTime

/-- Where the offsets of the first time after `now` and of the first one after that do not differ by
whole hours, the two times are five minutes further apart than the offset goes forward. -/
def StaysSpaced (cron : Cron) (zone : Zone) (now : Int) : Prop :=
  ∀ first second : Time cron, first.First zone now (zone.date now) →
    second.First zone (first.runsAt zone) (zone.date (first.runsAt zone)) →
    (second.offset zone - first.offset zone) % hourMs ≠ 0 →
    first.localTime + (second.offset zone - first.offset zone) + minGapMinutes * minuteMs ≤
      second.localTime

/-- Every five minutes. -/
def fiveMinutes : Cron := ⟨0x84210842108421, 0xffffff, 0xfffffffe, 0x1ffe, 0x7f, false, false⟩

/-- Lord Howe Island goes forward by half an hour, at two o'clock on 6 October 2024. -/
def lordHowe : Zone :=
  { offset := 10 * hourMs + 30 * minuteMs
    transitions := [(20002 * dayMs - 8 * hourMs - 30 * minuteMs, 11 * hourMs)] }

/-- Ten past two and eighteen to three. -/
def smallHours : Cron := ⟨1 <<< 10 + 1 <<< 42, 1 <<< 2, 0xfffffffe, 0x1ffe, 0x7f, false, false⟩

end Cron

end Renoa.Schedule
