import Emma.Library.Calendar
import Emma.Library.Delimited
import Emma.Library.FixedWidth

/-!
# What time it is

The sentence of `current_time` names the minute and the day that the clocks of the zone
show, and `datetime` counts the weekday from the date. Where the clocks go back, an hour
is shown twice.
-/

set_option autoImplicit false

namespace Emma.Clock
open Calendar Delimited FixedWidth

abbrev Text := List Char

def days : List Text :=
  ["lunedi'".toList,"martedi'".toList,"mercoledi'".toList,"giovedi'".toList,"venerdi'".toList,
    "sabato".toList,"domenica".toList]

def months : List Text :=
  [[],"gennaio".toList,"febbraio".toList,"marzo".toList,"aprile".toList,"maggio".toList,
    "giugno".toList,"luglio".toList,"agosto".toList,"settembre".toList,"ottobre".toList,
    "novembre".toList,"dicembre".toList]

@[ext] structure Now where
  date : Date
  hour : ℕ
  minute : ℕ
  hourFits : hour < 24
  minuteFits : minute < 60

def dayName (d : Date) : Text := days.getD d.weekday []

def monthName (d : Date) : Text := months.getD d.month []

def opening : Text := "Sono le ".toList

def between : Text := " di ".toList

def inexact : Text := " (ora di sistema: il fuso non e' verificabile su questa macchina)".toList

/-- `describe_now`; `exact` is whether the zone was known. -/
def describeNow (exact : Bool) (now : Now) : Text :=
  opening ++ (padded 2 now.hour ++ ':'::(padded 2 now.minute ++ (between ++
    (dayName now.date ++ ' '::(Nat.toDigits 10 now.date.day ++ ' '::(monthName now.date ++
      ' '::(Nat.toDigits 10 now.date.year ++ '.'::(if exact then [] else inexact))))))))

theorem blank_notMem_dayName (d : Date) : ' ' ∉ dayName d := by
  have hall : ∀ i : Fin 7, ' ' ∉ days.getD i [] := by decide
  exact hall ⟨d.weekday,Nat.mod_lt _ (by decide)⟩

theorem blank_notMem_monthName (d : Date) : ' ' ∉ monthName d := by
  have hall : ∀ i : Fin 13, ' ' ∉ months.getD i [] := by decide
  exact hall ⟨d.month,Nat.lt_succ_of_le d.monthFits.2⟩

theorem monthName_inj (d e : Date) (h : monthName d = monthName e) : d.month = e.month := by
  have hall : ∀ i j : Fin 13, months.getD i [] = months.getD j [] → i = j := by decide
  exact congrArg Fin.val (hall ⟨d.month,Nat.lt_succ_of_le d.monthFits.2⟩
    ⟨e.month,Nat.lt_succ_of_le e.monthFits.2⟩ h)

theorem describeNow_inj (exact exact' : Bool) (a b : Now)
    (h : describeNow exact a = describeNow exact' b) : a = b ∧ exact = exact' := by
  have hstops : ∀ c rest, c.isDigit = false → Stops Char.isDigit (c::rest) :=
    fun c rest hc => stops_cons _ c rest hc
  obtain ⟨hhour,h⟩ := List.append_inj (List.append_cancel_left h) (by simp)
  obtain ⟨hminute,h⟩ := List.append_inj (List.cons.inj h).2 (by simp)
  obtain ⟨-,h⟩ := cut_unique (blank_notMem_dayName _) (blank_notMem_dayName _)
    (List.append_cancel_left h)
  obtain ⟨hday,h⟩ := numeral_unique (hstops ' ' _ rfl) (hstops ' ' _ rfl) h
  obtain ⟨hmonth,h⟩ := cut_unique (blank_notMem_monthName _) (blank_notMem_monthName _)
    (List.cons.inj h).2
  obtain ⟨hyear,h⟩ := numeral_unique (hstops '.' _ rfl) (hstops '.' _ rfl) h
  constructor
  · apply Now.ext
    · exact Date.ext hyear (monthName_inj _ _ hmonth) hday
    · exact (padded_inj 2 _ _ (Nat.lt_trans a.hourFits (by decide))
        (Nat.lt_trans b.hourFits (by decide))).mp hhour
    · exact (padded_inj 2 _ _ (Nat.lt_trans a.minuteFits (by decide))
        (Nat.lt_trans b.minuteFits (by decide))).mp hminute
  · have htail := (List.cons.inj h).2
    cases exact <;> cases exact' <;> first | rfl | exact absurd htail (by decide)

/-- What a machine knows of its place: by how many seconds the clocks there are ahead at
an instant. The zone is missing where there is no database of them. -/
structure Place where
  zone : Option (ℕ → ℤ)
  system : ℕ → ℤ

/-- The seconds of the clocks, as the instants counted from the first midnight of the
calendar. -/
def Place.shown (p : Place) (instant : ℕ) : ℕ :=
  (instant+(p.zone.getD p.system) instant).toNat

def reading (seconds : ℕ) : Now where
  date := Date.next^[seconds/86400] Date.first
  hour := seconds/3600%24
  minute := seconds/60%60
  hourFits := Nat.mod_lt _ (Nat.succ_pos 23)
  minuteFits := Nat.mod_lt _ (Nat.succ_pos 59)

/-- `_now`: the time, and whether it came from the named zone. -/
def now (p : Place) (instant : ℕ) : Now × Bool := (reading (p.shown instant),p.zone.isSome)

def run (p : Place) (instant : ℕ) : Text :=
  match now p instant with
  | (now,exact) => describeNow exact now

theorem reading_eq_iff (s t : ℕ) : reading s = reading t ↔ s/60 = t/60 := by
  constructor
  · intro h
    have hday := iterate_injective Date.first _ _ (congrArg Now.date h)
    have hhour : s/3600%24 = t/3600%24 := congrArg Now.hour h
    have hminute : s/60%60 = t/60%60 := congrArg Now.minute h
    omega
  · intro h
    have hday : s/86400 = t/86400 := by omega
    have hhour : s/3600 = t/3600 := by omega
    apply Now.ext
    · exact congrArg (fun days => Date.next^[days] Date.first) hday
    · exact congrArg (· % 24) hhour
    · exact congrArg (· % 60) h

/-- Two answers are the same exactly when the clocks showed the same minute of the same
day; and the weekdays go round the week with the days since the first Monday. -/
theorem time_is_told (p q : Place) (s t : ℕ) :
    (run p s = run q t ↔ p.shown s/60 = q.shown t/60 ∧ p.zone.isSome = q.zone.isSome) ∧
      dayName (now p s).1.date = days.getD (p.shown s/86400%7) [] := by
  constructor
  · rw [← reading_eq_iff]
    constructor
    · exact describeNow_inj _ _ _ _
    · rintro ⟨hshown,hexact⟩
      rw [run, run, now, now, hshown, hexact]
  · have hmonday : Date.first.weekday = 0 := by decide
    rw [now, reading, dayName, weekday_iterate, hmonday, Nat.zero_add]

/-- Where the clocks go back an hour, the answer is given a second time. -/
theorem hour_is_told_twice (p : Place) (s : ℕ)
    (h : (p.zone.getD p.system) (s+3600)+3600 = (p.zone.getD p.system) s) :
    run p (s+3600) = run p s := by
  have hlater : ((s+3600 : ℕ) : ℤ) = s+3600 := Int.natCast_add s 3600
  have hshown : p.shown (s+3600) = p.shown s := by
    rw [Place.shown, Place.shown, hlater]
    omega
  rw [run, run, now, now, hshown]

end Emma.Clock
