import Mathlib.Data.Nat.Notation
import Mathlib.Logic.Function.Iterate

/-!
# The calendar

Dates of the Gregorian calendar, counted from the first day of the year 1, a Monday.
-/

set_option autoImplicit false

namespace Calendar

def leap (year : ℕ) : Bool := year%4 = 0 && (year%100 ≠ 0 || year%400 = 0)

def monthLength (year month : ℕ) : ℕ :=
  if month = 2 then 28+(leap year).toNat
  else if month = 4 ∨ month = 6 ∨ month = 9 ∨ month = 11 then 30
  else 31

@[ext] structure Date where
  year : ℕ
  month : ℕ
  day : ℕ
  yearFits : 1 ≤ year
  monthFits : 1 ≤ month ∧ month ≤ 12
  dayFits : 1 ≤ day ∧ day ≤ monthLength year month
  deriving DecidableEq

theorem one_le_monthLength (year month : ℕ) : 1 ≤ monthLength year month := by
  unfold monthLength
  split
  · omega
  · split <;> omega

def daysBeforeYear (year : ℕ) : ℕ :=
  let past := year-1
  past*365+past/4-past/100+past/400

def daysBeforeMonth (year : ℕ) : ℕ → ℕ
  | 0 => 0
  | 1 => 0
  | month+2 => daysBeforeMonth year (month+1)+monthLength year (month+1)

namespace Date

def ordinal (d : Date) : ℕ := daysBeforeYear d.year+daysBeforeMonth d.year d.month+d.day

def weekday (d : Date) : ℕ := (d.ordinal+6)%7

def first : Date where
  year := 1
  month := 1
  day := 1
  yearFits := Nat.le_refl 1
  monthFits := ⟨Nat.le_refl 1,by omega⟩
  dayFits := ⟨Nat.le_refl 1,one_le_monthLength 1 1⟩

def next (d : Date) : Date :=
  if hday : d.day < monthLength d.year d.month then
    ⟨d.year,d.month,d.day+1,d.yearFits,d.monthFits,⟨by omega,hday⟩⟩
  else if hmonth : d.month < 12 then
    ⟨d.year,d.month+1,1,d.yearFits,⟨by omega,hmonth⟩,⟨Nat.le_refl _,one_le_monthLength ..⟩⟩
  else ⟨d.year+1,1,1,by omega,⟨Nat.le_refl _,by omega⟩,⟨Nat.le_refl _,one_le_monthLength ..⟩⟩

end Date

theorem leap_toNat (year : ℕ) : (leap year).toNat+(if year%100 = 0 then 1 else 0) =
    (if year%4 = 0 then 1 else 0)+(if year%400 = 0 then 1 else 0) := by
  by_cases hfour : year%4 = 0
  · by_cases hcentury : year%100 = 0
    · by_cases hfourth : year%400 = 0 <;> simp [leap, hfour, hcentury, hfourth]
    · have hfourth : year%400 ≠ 0 := by omega
      simp [leap, hfour, hcentury, hfourth]
  · have hcentury : year%100 ≠ 0 := by omega
    have hfourth : year%400 ≠ 0 := by omega
    simp [leap, hfour, hcentury, hfourth]

theorem daysBeforeYear_succ (year : ℕ) (h : 1 ≤ year) :
    daysBeforeYear (year+1) = daysBeforeYear year+365+(leap year).toNat := by
  obtain ⟨past,rfl⟩ := Nat.exists_eq_add_of_le' h
  have hfour : (past+1)/4 = past/4+(if (past+1)%4 = 0 then 1 else 0) := by split <;> omega
  have hcentury : (past+1)/100 = past/100+(if (past+1)%100 = 0 then 1 else 0) := by
    split <;> omega
  have hfourth : (past+1)/400 = past/400+(if (past+1)%400 = 0 then 1 else 0) := by
    split <;> omega
  have hleap := leap_toNat (past+1)
  simp only [daysBeforeYear, Nat.add_sub_cancel]
  generalize (leap (past+1)).toNat = extra at hleap ⊢
  have hless : past/100 ≤ past*365 := by omega
  rw [hfour, hcentury, hfourth]
  omega

theorem daysBeforeMonth_december (year : ℕ) :
    daysBeforeMonth year 12+31 = 365+(leap year).toNat := by
  simp [daysBeforeMonth, monthLength]
  omega

theorem ordinal_next (d : Date) : d.next.ordinal = d.ordinal+1 := by
  have hday := d.dayFits
  have hmonth := d.monthFits
  unfold Date.next
  split
  · simp only [Date.ordinal]
    omega
  · rename_i hlast
    split
    · obtain ⟨month,hsucc⟩ : ∃ month, d.month = month+1 := ⟨d.month-1,by omega⟩
      simp only [Date.ordinal, hsucc, daysBeforeMonth]
      rw [hsucc] at hday hlast
      omega
    · rename_i hdecember
      have hmonth' : d.month = 12 := by omega
      have hlength : monthLength d.year 12 = 31 := rfl
      have hyear := daysBeforeYear_succ d.year d.yearFits
      have hfull := daysBeforeMonth_december d.year
      rw [hmonth', hlength] at hday hlast
      have hjanuary : daysBeforeMonth (d.year+1) 1 = 0 := rfl
      simp only [Date.ordinal, hmonth', hyear, hjanuary]
      omega

theorem ordinal_iterate (d : Date) (k : ℕ) : (Date.next^[k] d).ordinal = d.ordinal+k := by
  induction k with
  | zero => rfl
  | succ k ih => rw [Function.iterate_succ_apply', ordinal_next, ih, Nat.add_assoc]

theorem iterate_injective (d : Date) (j k : ℕ) (h : Date.next^[j] d = Date.next^[k] d) :
    j = k := by
  have hordinal := congrArg Date.ordinal h
  rw [ordinal_iterate, ordinal_iterate] at hordinal
  omega

theorem weekday_iterate (d : Date) (k : ℕ) :
    (Date.next^[k] d).weekday = (d.weekday+k)%7 := by
  rw [Date.weekday, ordinal_iterate, Date.weekday]
  omega

end Calendar
