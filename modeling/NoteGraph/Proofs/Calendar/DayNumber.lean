import NoteGraph.Proofs.Calendar.IsoText

/-!
# Counting days

Days are numbered on without a gap over the ends of months and years, leap years and full
centuries included, so the order of the calendar is that of the numbers, and that of the texts.
The week of a day starts on the last Monday up to the day. The first day of the calendar is a
Monday, so no week starts before the calendar does.
-/

namespace NoteGraph.Date

/-! ### Years and months -/

/-- The next year starts after the days of a year. -/
theorem daysBeforeYear_succ {year : ℕ} (h : 1 ≤ year) :
    daysBeforeYear (year + 1) = daysBeforeYear year + daysInYear year := by
  obtain ⟨n, rfl⟩ := Nat.exists_eq_add_of_le' h
  -- a quotient grows by one exactly where the divisor divides the year
  have hquotient : ∀ k, (n + 1) / k = n / k + if (n + 1) % k = 0 then 1 else 0 := by
    intro k
    rw [Nat.succ_div]
    simp only [Nat.dvd_iff_mod_eq_zero]
  have hcenturies : n / 100 ≤ n / 4 := Nat.div_le_div_left (by decide) (by decide)
  have h100 : (n + 1) % 100 = 0 → (n + 1) % 4 = 0 := by omega
  have h400 : (n + 1) % 400 = 0 → (n + 1) % 100 = 0 := by omega
  unfold daysBeforeYear daysInYear isLeap
  simp only [Nat.add_sub_cancel, hquotient]
  generalize n / 4 = fours, n / 100 = centuries, n / 400 = cycles at hcenturies ⊢
  generalize (n + 1) % 4 = r4, (n + 1) % 100 = r100, (n + 1) % 400 = r400 at h100 h400 ⊢
  by_cases hr4 : r4 = 0 <;> by_cases hr100 : r100 = 0 <;> by_cases hr400 : r400 = 0
  all_goals
    simp [hr4, hr100, hr400] at h100 h400 ⊢
    try omega

theorem daysBeforeYear_mono {year later : ℕ} (h : 1 ≤ year) (hle : year ≤ later) :
    daysBeforeYear year ≤ daysBeforeYear later := by
  induction later, hle using Nat.le_induction with
  | base => exact le_rfl
  | succ later hle ih =>
    rw [daysBeforeYear_succ (h.trans hle)]
    omega

/-- The next month starts after the days of a month. -/
theorem daysBeforeMonth_succ (year : ℕ) {month : ℕ} (h : 1 ≤ month) :
    daysBeforeMonth year (month + 1) = daysBeforeMonth year month + daysInMonth year month := by
  obtain ⟨n, rfl⟩ := Nat.exists_eq_add_of_le' h
  unfold daysBeforeMonth
  rw [Nat.add_sub_cancel, Nat.add_sub_cancel, List.range_succ, List.foldl_concat]

theorem daysBeforeMonth_mono (year : ℕ) {month later : ℕ} (h : 1 ≤ month) (hle : month ≤ later) :
    daysBeforeMonth year month ≤ daysBeforeMonth year later := by
  induction later, hle using Nat.le_induction with
  | base => exact le_rfl
  | succ later hle ih =>
    rw [daysBeforeMonth_succ year (h.trans hle)]
    omega

/-- The twelve months of a year make up its days. -/
theorem daysBeforeMonth_thirteen (year : ℕ) : daysBeforeMonth year 13 = daysInYear year := by
  have hmonths : List.range 12 = [0, 1, 2, 3, 4, 5, 6, 7, 8, 9, 10, 11] := by decide
  unfold daysBeforeMonth daysInYear
  rw [hmonths]
  cases hleap : isLeap year <;> simp [daysInMonth, hleap]

theorem daysInMonth_pos (year month : ℕ) : 1 ≤ daysInMonth year month := by
  unfold daysInMonth
  split_ifs <;> omega

/-! ### The order of days -/

section Order

variable {d e : Date}

/-- The days of a year lie between those of the years before it and those of the next year. -/
theorem Valid.dayNumber_bounds (h : d.Valid) :
    daysBeforeYear d.year < d.dayNumber ∧ d.dayNumber ≤ daysBeforeYear (d.year + 1) := by
  obtain ⟨⟨hyear, -⟩, ⟨hmonth, hlast⟩, hday, hdays⟩ := h
  have hnext := daysBeforeMonth_succ d.year hmonth
  have hall := daysBeforeMonth_mono d.year (Nat.le_add_left 1 d.month) (Nat.succ_le_succ hlast)
  rw [daysBeforeMonth_thirteen] at hall
  rw [daysBeforeYear_succ hyear, dayNumber]
  omega

theorem Valid.dayNumber_pos (h : d.Valid) : 1 ≤ d.dayNumber := by
  have := h.dayNumber_bounds
  omega

/-- A day that comes later in the calendar has a larger number. -/
theorem dayNumber_lt (hd : d.Valid) (he : e.Valid) (h : ¬e.NotAfter d) :
    d.dayNumber < e.dayNumber := by
  unfold NotAfter at h
  by_cases hyear : d.year < e.year
  · have hd' := hd.dayNumber_bounds
    have he' := he.dayNumber_bounds
    have hle := daysBeforeYear_mono (Nat.le_add_left 1 d.year) (Nat.succ_le_of_lt hyear)
    omega
  · have hsame : e.year = d.year := by omega
    obtain ⟨-, ⟨hmonth, -⟩, -, hdays⟩ := hd
    obtain ⟨-, -, hday, -⟩ := he
    unfold dayNumber
    rw [hsame]
    by_cases hmonths : d.month < e.month
    · have hnext := daysBeforeMonth_succ d.year hmonth
      have hle :=
        daysBeforeMonth_mono d.year (Nat.le_add_left 1 d.month) (Nat.succ_le_of_lt hmonths)
      omega
    · have hmonths' : e.month = d.month := by omega
      rw [hmonths']
      omega

/-- Days are in the order of their numbers. -/
theorem dayNumber_le_iff (hd : d.Valid) (he : e.Valid) :
    d.dayNumber ≤ e.dayNumber ↔ d.NotAfter e := by
  constructor
  · intro hle
    by_contra hnot
    exact absurd (dayNumber_lt he hd hnot) (Nat.not_lt.mpr hle)
  · intro h
    by_contra hlt
    by_cases hback : e.NotAfter d
    · -- each is no later than the other, so they are the same day
      have hparts : d.year = e.year ∧ d.month = e.month ∧ d.day = e.day := by
        unfold NotAfter at h hback
        omega
      unfold dayNumber at hlt
      rw [hparts.1, hparts.2.1, hparts.2.2] at hlt
      exact hlt le_rfl
    · exact hlt (dayNumber_lt hd he hback).le

theorem eq_of_dayNumber_eq (hd : d.Valid) (he : e.Valid) (h : d.dayNumber = e.dayNumber) :
    d = e := by
  have hle := (dayNumber_le_iff hd he).mp h.le
  have hge := (dayNumber_le_iff he hd).mp h.ge
  have hparts : d.year = e.year ∧ d.month = e.month ∧ d.day = e.day := by
    unfold NotAfter at hle hge
    omega
  cases d
  cases e
  simpa using hparts

theorem isoText_injective (hd : d.Valid) (he : e.Valid) (h : d.isoText = e.isoText) : d = e := by
  have hread := read_isoText hd
  rw [h, read_isoText he] at hread
  exact (Except.ok.inj hread).symm

/-- The texts of days are in the order of their numbers. -/
theorem isoText_le_iff (hd : d.Valid) (he : e.Valid) :
    d.isoText ≤ e.isoText ↔ d.dayNumber ≤ e.dayNumber := by
  rw [dayNumber_le_iff hd he]
  constructor
  · intro hle
    by_contra hnot
    have hlt := dayNumber_lt he hd hnot
    have hge := isoText_le hd ((dayNumber_le_iff he hd).mp hlt.le)
    rw [isoText_injective hd he (le_antisymm hle hge)] at hlt
    exact lt_irrefl _ hlt
  · exact isoText_le he

end Order

/-! ### The days before a day -/

section Before

variable {d : Date}

/-- Every day but the first has a day before it. -/
theorem Valid.yesterday (h : d.Valid) (hfirst : 1 < d.dayNumber) :
    d.yesterday.Valid ∧ d.yesterday.dayNumber + 1 = d.dayNumber := by
  obtain ⟨hyear, hmonth, hday⟩ := h
  unfold Date.yesterday
  split_ifs with hinner hlater
  · refine ⟨⟨hyear, hmonth, ?_⟩, ?_⟩
    · show 1 ≤ d.day - 1 ∧ d.day - 1 ≤ daysInMonth d.year d.month
      omega
    · show daysBeforeYear d.year + daysBeforeMonth d.year d.month + (d.day - 1) + 1 = d.dayNumber
      unfold dayNumber
      omega
  · -- the last day of the month before
    have hpos := daysInMonth_pos d.year (d.month - 1)
    refine ⟨⟨hyear, ?_, hpos, le_rfl⟩, ?_⟩
    · show 1 ≤ d.month - 1 ∧ d.month - 1 ≤ 12
      omega
    · have hnext := @daysBeforeMonth_succ d.year (d.month - 1) (by omega)
      have hsucc : d.month - 1 + 1 = d.month := by omega
      rw [hsucc] at hnext
      show daysBeforeYear d.year + daysBeforeMonth d.year (d.month - 1) +
        daysInMonth d.year (d.month - 1) + 1 = d.dayNumber
      unfold dayNumber
      omega
  · -- the last day of the year before, which is not the year 0
    have hone : d.month = 1 ∧ d.day = 1 := by omega
    have hstart : d.dayNumber = daysBeforeYear d.year + 1 := by
      unfold dayNumber
      rw [hone.1, hone.2]
      rfl
    have hyear' : 2 ≤ d.year := by
      by_contra hlt
      have hfirstYear : d.year = 1 := by omega
      have hzero : daysBeforeYear 1 = 0 := rfl
      rw [hfirstYear, hzero] at hstart
      omega
    have hnextYear := @daysBeforeYear_succ (d.year - 1) (by omega)
    have hsucc : d.year - 1 + 1 = d.year := by omega
    rw [hsucc, ← daysBeforeMonth_thirteen, daysBeforeMonth_succ _ (by decide : 1 ≤ 12)] at hnextYear
    have hdecember : daysInMonth (d.year - 1) 12 = 31 := rfl
    have hlast : (1 ≤ 12 ∧ 12 ≤ 12) ∧ 1 ≤ 31 := by decide
    refine ⟨⟨?_, hlast.1, hlast.2, hdecember.ge⟩, ?_⟩
    · show 1 ≤ d.year - 1 ∧ d.year - 1 ≤ lastYear
      omega
    · show daysBeforeYear (d.year - 1) + daysBeforeMonth (d.year - 1) 12 + 31 + 1 = d.dayNumber
      omega

/-- The day some days before a day, as long as the calendar has it. -/
theorem Valid.daysAgo (h : d.Valid) {n : ℕ} (hn : n < d.dayNumber) :
    (d.daysAgo n).Valid ∧ (d.daysAgo n).dayNumber + n = d.dayNumber := by
  induction n with
  | zero => exact ⟨h, rfl⟩
  | succ n ih =>
    obtain ⟨hvalid, hnumber⟩ := ih (by omega)
    obtain ⟨hvalid', hnumber'⟩ := hvalid.yesterday (by omega)
    refine ⟨hvalid', ?_⟩
    show (d.daysAgo n).yesterday.dayNumber + (n + 1) = d.dayNumber
    omega

end Before

/-! ### Weeks -/

/-- A Monday of the calendar. -/
def IsMonday (d : Date) : Prop := d.Valid ∧ d.weekday = 0

section Weeks

variable {d e : Date}

theorem weekday_le (d : Date) : d.weekday ≤ 6 := by
  unfold weekday
  omega

/-- The week of a day starts on a Monday, the weekday's number of days before it. -/
theorem Valid.weekStart (h : d.Valid) :
    d.weekStart.IsMonday ∧ d.weekStart.dayNumber + d.weekday = d.dayNumber := by
  have hpos := h.dayNumber_pos
  have hlt : d.weekday < d.dayNumber := by
    unfold weekday
    omega
  obtain ⟨hvalid, hnumber⟩ := h.daysAgo hlt
  refine ⟨⟨hvalid, ?_⟩, hnumber⟩
  show (d.daysAgo d.weekday).weekday = 0
  unfold weekday at hnumber ⊢
  omega

theorem IsMonday.weekStart_eq (h : d.IsMonday) : d.weekStart = d := by
  rw [weekStart, h.2]
  rfl

/-- No Monday lies after the start of the week of a day, up to the day. -/
theorem IsMonday.dayNumber_le_weekStart {m : Date} (hm : m.IsMonday) (h : d.Valid)
    (hle : m.dayNumber ≤ d.dayNumber) : m.dayNumber ≤ d.weekStart.dayNumber := by
  obtain ⟨⟨-, hmonday⟩, hnumber⟩ := h.weekStart
  have hsmall := weekday_le d
  have hm' := hm.2
  have hpos := h.weekStart.1.1.dayNumber_pos
  have hpos' := hm.1.dayNumber_pos
  unfold weekday at hm' hmonday
  omega

theorem weekStart_mono (hd : d.Valid) (he : e.Valid) (h : d.dayNumber ≤ e.dayNumber) :
    d.weekStart.dayNumber ≤ e.weekStart.dayNumber := by
  apply hd.weekStart.1.dayNumber_le_weekStart he
  have := hd.weekStart.2
  omega

/-- Of two days the later is in the week of the earlier if no Monday comes between. -/
theorem weekStart_eq_iff (hd : d.Valid) (he : e.Valid) (h : d.dayNumber ≤ e.dayNumber) :
    d.weekStart = e.weekStart ↔
      ¬∃ m : Date, m.IsMonday ∧ d.dayNumber < m.dayNumber ∧ m.dayNumber ≤ e.dayNumber := by
  constructor
  · rintro hsame ⟨m, hm, hlater, hle⟩
    have hstart := hm.dayNumber_le_weekStart he hle
    rw [← hsame] at hstart
    have := hd.weekStart.2
    omega
  · intro hnone
    by_contra hne
    apply hnone
    refine ⟨e.weekStart, he.weekStart.1, ?_, by have := he.weekStart.2; omega⟩
    by_contra hlater
    -- the week of the later day would have started by the earlier one
    have hback := he.weekStart.1.dayNumber_le_weekStart hd (Nat.not_lt.mp hlater)
    have hforth := weekStart_mono hd he h
    exact hne (eq_of_dayNumber_eq hd.weekStart.1.1 he.weekStart.1.1 (le_antisymm hforth hback))

end Weeks

end NoteGraph.Date
