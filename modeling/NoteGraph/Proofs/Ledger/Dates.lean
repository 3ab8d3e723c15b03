import NoteGraph.Proofs.Calendar.DayNumber
import NoteGraph.Proofs.Ledger.Rows

/-!
# Dates of a ledger

The date of a row is the text of a day that the calendar has, and the text of every such day can
be the date of a row. So the key of a week can always be told: it is the text of the Monday that
starts the week of the day. Later days have later keys, and two days have the same one if no
Monday comes in between.
-/

namespace NoteGraph

/-- A Monday is the last one up to a day. -/
structure Date.StartsWeek (m d : Date) : Prop where
  isMonday : m.IsMonday
  not_after : m.dayNumber ≤ d.dayNumber
  in_week : d.dayNumber ≤ m.dayNumber + 6

theorem Date.Valid.startsWeek {d : Date} (h : d.Valid) : d.weekStart.StartsWeek d := by
  obtain ⟨hmonday, hnumber⟩ := h.weekStart
  have := d.weekday_le
  exact ⟨hmonday, by omega, by omega⟩

/-- A week starts on one day only. -/
theorem Date.StartsWeek.eq_weekStart {m d : Date} (hm : m.StartsWeek d) (h : d.Valid) :
    m = d.weekStart := by
  have hstart := h.startsWeek
  have hle := hm.isMonday.dayNumber_le_weekStart h hm.not_after
  have hmonday := hm.isMonday.2
  have hmonday' := hstart.isMonday.2
  have hwithin := hm.in_week
  have hbefore := hstart.not_after
  apply Date.eq_of_dayNumber_eq hm.isMonday.1 hstart.isMonday.1
  unfold Date.weekday at hmonday hmonday'
  omega

namespace Ledger

open Text (IsLine)

/-! ### Dates of rows -/

/-- A date that some row of a ledger has. -/
def IsRowDate (text : String) : Prop :=
  ∃ line number t, Transaction.ofLine? line number = some t ∧ t.date = text

theorem exists_day_of_isDate {cell : List Char} (h : isDate cell = true) :
    ∃ d : Date, d.Valid ∧ d.isoText.toList = cell := by
  unfold isDate at h
  split at h
  · rename_i y₁ y₂ y₃ y₄ m₁ m₂ d₁ d₂
    cases hread : Date.read (String.ofList [y₁, y₂, y₃, y₄, '-', m₁, m₂, '-', d₁, d₂]) with
    | error e =>
      rw [hread] at h
      cases h
    | ok d => exact ⟨d, Date.eq_isoText_of_read hread⟩
  · cases h

theorem isDate_of_ofLine? {line : List Char} {number : Option ℕ} {t : Transaction Number}
    (h : Transaction.ofLine? line number = some t) : isDate t.date.toList = true := by
  unfold Transaction.ofLine? at h
  split at h
  · rename_i date description amount account rest hcells
    split_ifs at h with hdate
    split at h
    · obtain rfl := Option.some.inj h
      rwa [String.toList_ofList]
    · cases h
  · cases h

/-- The dates of rows are the texts of the days of the calendar. -/
theorem isRowDate_iff {text : String} :
    IsRowDate text ↔ ∃ d : Date, d.Valid ∧ d.isoText = text := by
  constructor
  · rintro ⟨line, number, t, hline, rfl⟩
    obtain ⟨d, hd, htext⟩ := exists_day_of_isDate (isDate_of_ofLine? hline)
    exact ⟨d, hd, String.toList_inj.mp htext⟩
  · rintro ⟨d, hd, rfl⟩
    let one : PlainFraction := ⟨none, ['1'], [], by simp, by simp, by decide, by decide⟩
    let row : Booking :=
      { date := d
        description := []
        amount := one
        account := ['a']
        target := none
        tags := []
        valid_date := hd
        trim_description := rfl
        bar_notMem_description := by simp
        isAccountName_account := ⟨by decide, by simp, by simp, by decide⟩
        isAccountName_target := by simp
        tags_plain := by simp }
    have hdate : '\n' ∉ d.isoText.toList := by
      intro hc
      rcases Date.isPlainDigit_or_dash hc with h | h <;> exact absurd h (by decide)
    have hline : IsLine row.line := by
      intro hmem
      simp [row, one, Booking.line, Booking.cells, Ledger.row, spaced, hdate,
        PlainFraction.text, PlainFraction.pointed, Booking.accountCell, Booking.tagWords] at hmem
    exact ⟨row.line, some 1, row.transaction 1, row.ofLine?_line hline 1, rfl⟩

/-! ### Weeks of dates -/

theorem weekKey_isoText {d : Date} (h : d.Valid) :
    weekKey d.isoText = .ok d.weekStart.isoText := by
  rw [weekKey, Date.read_isoText h]
  rfl

/-- **Keys of weeks**: the dates of rows are the texts of the days of the calendar, the first and
the last included. The key of a week is the text of the Monday that starts the week of the date,
and it is its own key. The order of texts is that of days, and keys are in the order of the dates.
Two dates have the same key exactly if no Monday lies after the earlier one up to the later. -/
theorem weekKey_of_isRowDate :
    (∀ text : String, IsRowDate text ↔ ∃ d : Date, d.Valid ∧ d.isoText = text) ∧
    ∀ s t : String, IsRowDate s → IsRowDate t → ∃ d e m n : Date,
      (d.Valid ∧ d.isoText = s) ∧ (e.Valid ∧ e.isoText = t) ∧
      (m.StartsWeek d ∧ weekKey s = .ok m.isoText ∧ weekKey m.isoText = .ok m.isoText) ∧
      (n.StartsWeek e ∧ weekKey t = .ok n.isoText ∧ weekKey n.isoText = .ok n.isoText) ∧
      (s ≤ t ↔ d.dayNumber ≤ e.dayNumber) ∧
      (s ≤ t → m.isoText ≤ n.isoText ∧
        (m.isoText = n.isoText ↔ ¬∃ monday : Date,
          monday.IsMonday ∧ d.dayNumber < monday.dayNumber ∧
            monday.dayNumber ≤ e.dayNumber)) := by
  refine ⟨fun _ => isRowDate_iff, fun s t hs ht => ?_⟩
  obtain ⟨d, hd, rfl⟩ := isRowDate_iff.mp hs
  obtain ⟨e, he, rfl⟩ := isRowDate_iff.mp ht
  have hm := hd.startsWeek
  have hn := he.startsWeek
  have hkey : ∀ {m : Date}, m.IsMonday → weekKey m.isoText = .ok m.isoText := by
    intro m hmonday
    rw [weekKey_isoText hmonday.1, hmonday.weekStart_eq]
  refine ⟨d, e, d.weekStart, e.weekStart, ⟨hd, rfl⟩, ⟨he, rfl⟩,
    ⟨hm, weekKey_isoText hd, hkey hm.isMonday⟩, ⟨hn, weekKey_isoText he, hkey hn.isMonday⟩,
    Date.isoText_le_iff hd he, fun hle => ?_⟩
  have hle' := (Date.isoText_le_iff hd he).mp hle
  constructor
  · rw [Date.isoText_le_iff hm.isMonday.1 hn.isMonday.1]
    exact Date.weekStart_mono hd he hle'
  · rw [← Date.weekStart_eq_iff hd he hle']
    exact ⟨Date.isoText_injective hm.isMonday.1 hn.isMonday.1, fun h => by rw [h]⟩

/-- A Monday that is the first day of a leap year starts a week of its own. -/
theorem weekKey_newYear : IsRowDate "2023-12-31" ∧ IsRowDate "2024-01-01" ∧
    ∃ d e m n : Date,
      (d.Valid ∧ d.isoText = "2023-12-31") ∧ (e.Valid ∧ e.isoText = "2024-01-01") ∧
      (m.StartsWeek d ∧ weekKey "2023-12-31" = .ok m.isoText ∧
        weekKey m.isoText = .ok m.isoText) ∧
      (n.StartsWeek e ∧ weekKey "2024-01-01" = .ok n.isoText ∧
        weekKey n.isoText = .ok n.isoText) ∧
      ("2023-12-31" ≤ "2024-01-01" ↔ d.dayNumber ≤ e.dayNumber) ∧
      ("2023-12-31" ≤ "2024-01-01" → m.isoText ≤ n.isoText ∧
        (m.isoText = n.isoText ↔ ¬∃ monday : Date,
          monday.IsMonday ∧ d.dayNumber < monday.dayNumber ∧
            monday.dayNumber ≤ e.dayNumber)) := by
  have hs : IsRowDate "2023-12-31" := isRowDate_iff.mpr ⟨⟨2023, 12, 31⟩, by decide, by decide⟩
  have ht : IsRowDate "2024-01-01" := isRowDate_iff.mpr ⟨⟨2024, 1, 1⟩, by decide, by decide⟩
  exact ⟨hs, ht, weekKey_of_isRowDate.2 _ _ hs ht⟩

/-- The calendar starts on a Monday, so its first week is not cut short. -/
example : weekKey "0001-01-07" = .ok "0001-01-01" ∧ weekKey "1900-03-01" = .ok "1900-02-26" := by
  decide +kernel

end Ledger

end NoteGraph
