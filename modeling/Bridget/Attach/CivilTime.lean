import Bridget.Attach.Relay
import Bridget.Foundation.Numerals

/-!
# The date of a time

The seconds since 1970 are turned into a date and a time of the day by integer formulas over eras
of 400 years that begin in March. They are compared with the Gregorian calendar, counted year by
year and month by month.
-/

namespace Bridget.Attach

open Foundation Journal Finset

@[ext] structure CivilTime where
  year : Int
  (month day : Nat)
  (hour minute second : Int)
  deriving DecidableEq

/-- `as u32`. -/
def asU32 (n : Int) : Nat := (n % 2 ^ 32).toNat

/-- No value on the way leaves `i64`. -/
def civilTime (seconds : Int) : CivilTime :=
  let days := seconds / 86400
  let daySeconds := seconds % 86400
  let z := days + 719468
  let era := (if 0 ≤ z then z else z - 146096).tdiv 146097
  let doe := z - era * 146097
  let yoe := (doe - doe.tdiv 1460 + doe.tdiv 36524 - doe.tdiv 146096).tdiv 365
  let year := yoe + era * 400
  let doy := doe - (365 * yoe + yoe.tdiv 4 - yoe.tdiv 100)
  let mp := (5 * doy + 2).tdiv 153
  let day := doy - (153 * mp + 2).tdiv 5 + 1
  let month := mp + if mp < 10 then 3 else -9
  let year := year + if month ≤ 2 then 1 else 0
  ⟨year, asU32 month, asU32 day, daySeconds.tdiv 3600, (daySeconds.tdiv 60).tmod 60,
    daySeconds.tmod 60⟩

namespace CivilTime

def date (t : CivilTime) : String :=
  padded 4 t.year ++ "-" ++ padded 2 t.month ++ "-" ++ padded 2 t.day

/-- The days of the Gregorian calendar before a year, from the first of January of the year 1. -/
def daysBeforeYear (year : Int) : Int :=
  365 * (year - 1) + (year - 1) / 4 - (year - 1) / 100 + (year - 1) / 400

def daysBeforeMonth (year : Int) (month : Nat) : Nat := ∑ i ∈ range month, daysInMonth year i

def daysFromCivil (year : Int) (month day : Nat) : Int :=
  daysBeforeYear year + daysBeforeMonth year month + day - 719163

def days (t : CivilTime) : Int := daysFromCivil t.year t.month t.day

/-- A date of the calendar and a time of day. -/
structure Valid (t : CivilTime) : Prop where
  day : 1 ≤ t.day ∧ t.day ≤ daysInMonth t.year t.month
  hour : 0 ≤ t.hour ∧ t.hour < 24
  minute : 0 ≤ t.minute ∧ t.minute < 60
  second : 0 ≤ t.second ∧ t.second < 60

def Earlier (t t' : CivilTime) : Prop :=
  t.year < t'.year ∨ t.year = t'.year ∧ (t.month < t'.month ∨ t.month = t'.month ∧ t.day < t'.day)

def epoch (t : CivilTime) : Int := t.days * 86400 + t.hour * 3600 + t.minute * 60 + t.second

end CivilTime

open CivilTime

variable {t t' : CivilTime}

theorem era_eq (z : Int) : (if 0 ≤ z then z else z - 146096).tdiv 146097 = z / 146097 := by
  split
  · next h => exact Int.tdiv_eq_ediv_of_nonneg h
  · rename_i h
    rw [show z - 146096 = -(146096 - z) by omega, Int.neg_tdiv,
      Int.tdiv_eq_ediv_of_nonneg (by omega)]
    omega

/-- The year of the era in which a day of the era lies. -/
theorem yearOfEra_spec {doe yoe : Int} (hlow : 0 ≤ doe) (hhigh : doe < 146097)
    (hyoe : yoe = (doe - doe / 1460 + doe / 36524 - doe / 146096) / 365) :
    0 ≤ yoe ∧ yoe < 400 ∧ 365 * yoe + yoe / 4 - yoe / 100 ≤ doe ∧
      doe < 365 * (yoe + 1) + (yoe + 1) / 4 - (yoe + 1) / 100 + (yoe + 1) / 400 := by
  by_cases hend : doe = 146096
  · subst hend
    obtain rfl : yoe = 399 := hyoe
    omega
  -- all but the last day lie in the century that their number has
  have hlast : doe / 146096 = 0 := by omega
  rw [hlast] at hyoe
  generalize hc : doe / 36524 = c at hyoe
  have hcentury : 100 * c ≤ yoe ∧ yoe < 100 * c + 100 := by
    obtain ⟨h0, h3⟩ : 0 ≤ c ∧ c ≤ 3 := by omega
    interval_cases c <;> omega
  have hyoe100 : yoe / 100 = c := by omega
  have hera : 0 ≤ (yoe + 1) / 400 := by omega
  by_cases hturn : yoe = 100 * c + 99
  · have : (yoe + 1) / 100 = c + 1 := by omega
    have : (yoe + 1) / 4 = 25 * c + 25 := by omega
    omega
  have : (yoe + 1) / 100 = c := by omega
  rcases lt_trichotomy (doe / 1460) (yoe / 4) with hfour | hfour | hfour
  · omega
  · have : yoe / 4 ≤ (yoe + 1) / 4 := by omega
    omega
  · have : doe / 1460 = yoe / 4 + 1 := by omega
    have : (yoe + 1) / 4 = yoe / 4 + 1 := by omega
    omega

theorem CivilTime.Valid.bounds (h : t.Valid) : 1 ≤ t.month ∧ t.month ≤ 12 ∧ t.day ≤ 31 := by
  obtain ⟨hlow, hhigh⟩ := h.day
  simp only [daysInMonth, List.mem_cons, List.not_mem_nil, or_false] at hhigh
  split_ifs at hhigh <;> omega

theorem daysBeforeYear_era (era yoe : Int) : daysBeforeYear (yoe + era * 400 + 1) =
    era * 146097 + (365 * yoe + yoe / 4 - yoe / 100 + yoe / 400) := by
  unfold daysBeforeYear
  omega

theorem daysInMonth_february (year : Int) : (daysInMonth year 2 : Int) =
    daysBeforeYear (year + 1) - daysBeforeYear year - 337 := by
  simp only [daysInMonth, daysBeforeYear, add_sub_cancel_right]
  simp
  split <;> omega

/-- The date of a day in a year that begins in March. -/
theorem date_of_day {year doy mp : Int} (hdoy : 0 ≤ doy)
    (hleap : doy < daysBeforeYear (year + 1 + 1) - daysBeforeYear (year + 1))
    (hmp : mp = (5 * doy + 2) / 153) :
    let day := asU32 (doy - (153 * mp + 2) / 5 + 1)
    let month := mp + if mp < 10 then 3 else -9
    let year' := year + if month ≤ 2 then 1 else 0
    (1 ≤ day ∧ day ≤ daysInMonth year' (asU32 month)) ∧
      daysFromCivil year' (asU32 month) day = daysBeforeYear (year + 1) + doy - 719468 := by
  have hshort : daysBeforeYear (year + 1 + 1) - daysBeforeYear (year + 1) ≤ 366 := by
    unfold daysBeforeYear
    omega
  have hfebruary := daysInMonth_february year
  have hnext := daysInMonth_february (year + 1)
  obtain ⟨hlow, hhigh⟩ : 0 ≤ mp ∧ mp ≤ 11 := by omega
  -- with the lengths of the two Februaries named, no leap year has to be told from another
  generalize daysBeforeYear (year + 1 + 1) = after at hleap hnext hshort
  interval_cases mp
  all_goals
    simp [asU32, daysFromCivil, daysBeforeMonth, sum_range_succ]
    generalize daysInMonth year 2 = february, daysInMonth (year + 1) 2 = next at *
    generalize daysBeforeYear (year + 1) = march at *
    simp [daysInMonth]
    omega

theorem civilTime_exact (seconds : Int) :
    (civilTime seconds).Valid ∧ (civilTime seconds).epoch = seconds := by
  unfold civilTime
  extract_lets days daySeconds z era doe yoe year doy mp day month year'
  have hseconds : 0 ≤ daySeconds := Int.emod_nonneg _ (by decide)
  have hera : era = z / 146097 := era_eq z
  have hdoe : 0 ≤ doe ∧ doe < 146097 := by omega
  have hyoe : yoe = (doe - doe / 1460 + doe / 36524 - doe / 146096) / 365 := by
    simp only [yoe]
    rw [Int.tdiv_eq_ediv_of_nonneg hdoe.1, Int.tdiv_eq_ediv_of_nonneg hdoe.1,
      Int.tdiv_eq_ediv_of_nonneg hdoe.1, Int.tdiv_eq_ediv_of_nonneg (by omega)]
  obtain ⟨hlow, hhigh, hstart, hend⟩ := yearOfEra_spec hdoe.1 hdoe.2 hyoe
  have hdoy : doy = doe - (365 * yoe + yoe / 4 - yoe / 100) := by
    simp only [doy, Int.tdiv_eq_ediv_of_nonneg hlow]
  have hmp : mp = (5 * doy + 2) / 153 := Int.tdiv_eq_ediv_of_nonneg (by omega)
  have hday : day = doy - (153 * mp + 2) / 5 + 1 := by
    simp only [day]
    rw [Int.tdiv_eq_ediv_of_nonneg (by omega)]
  have hmarch := daysBeforeYear_era era yoe
  have hafter := daysBeforeYear_era era (yoe + 1)
  rw [show yoe + 1 + era * 400 + 1 = year + 1 + 1 by omega] at hafter
  change daysBeforeYear (year + 1) = _ at hmarch
  obtain ⟨hvalid, hdays⟩ := @date_of_day year doy mp (by omega) (by omega) hmp
  rw [← hday] at hvalid hdays
  have hminutes : daySeconds.tdiv 60 = daySeconds / 60 := Int.tdiv_eq_ediv_of_nonneg hseconds
  rw [Int.tdiv_eq_ediv_of_nonneg hseconds, hminutes, Int.tmod_eq_emod_of_nonneg (by omega),
    Int.tmod_eq_emod_of_nonneg hseconds]
  refine ⟨⟨hvalid, ?_, ?_, ?_⟩, ?_⟩
  · simp only
    omega
  · simp only
    omega
  · simp only
    omega
  · have hexact : daysFromCivil year' (asU32 month) (asU32 day) = days := hdays.trans (by omega)
    have hclock : daySeconds / 3600 * 3600 + daySeconds / 60 % 60 * 60 + daySeconds % 60 =
        daySeconds := by
      clear * -
      omega
    simp only [epoch, CivilTime.days, hexact]
    omega

theorem daysBeforeMonth_thirteen (year : Int) :
    (daysBeforeMonth year 13 : Int) = daysBeforeYear (year + 1) - daysBeforeYear year := by
  have hfebruary := daysInMonth_february year
  simp only [daysBeforeMonth, sum_range_succ]
  generalize daysInMonth year 2 = february at *
  simp [daysInMonth]
  omega

/-- Dates are in the order of the days that lie behind them. -/
theorem days_lt_iff (h : t.Valid) (h' : t'.Valid) : t.days < t'.days ↔ t.Earlier t' := by
  have hlt : ∀ {t t' : CivilTime}, t.Valid → t'.Valid → t.Earlier t' → t.days < t'.days := by
    intro t t' h h' hearlier
    have hday := h.day
    have hday' := h'.day
    have hbounds := h.bounds
    have hmono : ∀ {month month' : Nat}, month ≤ month' →
        daysBeforeMonth t.year month ≤ daysBeforeMonth t.year month' :=
      fun hle => sum_le_sum_of_subset (range_mono hle)
    -- a month ends before the next one begins
    have hend : daysBeforeMonth t.year t.month + t.day ≤ daysBeforeMonth t.year (t.month + 1) := by
      rw [daysBeforeMonth, daysBeforeMonth, sum_range_succ]
      omega
    unfold days daysFromCivil
    rcases hearlier with hyear | ⟨hyear, hmonth | ⟨hmonth, hless⟩⟩
    · have hyears : daysBeforeYear (t.year + 1) ≤ daysBeforeYear t'.year := by
        unfold daysBeforeYear
        omega
      have hmonths := hmono (show t.month + 1 ≤ 13 by omega)
      have := daysBeforeMonth_thirteen t.year
      omega
    · have hmonths := hmono (show t.month + 1 ≤ t'.month from hmonth)
      rw [← hyear]
      omega
    · rw [← hyear, ← hmonth]
      omega
  refine ⟨fun hdays => ?_, hlt h h'⟩
  by_contra hnot
  obtain hsame | hearlier : t.year = t'.year ∧ t.month = t'.month ∧ t.day = t'.day ∨
      t'.Earlier t := by
    unfold Earlier at hnot ⊢
    omega
  · rw [days, hsame.1, hsame.2.1, hsame.2.2] at hdays
    exact lt_irrefl _ hdays
  · exact lt_asymm hdays (hlt h' h hearlier)

theorem eq_of_epoch_eq (h : t.Valid) (h' : t'.Valid) (heq : t.epoch = t'.epoch) : t = t' := by
  have hlt := days_lt_iff h h'
  have hgt := days_lt_iff h' h
  obtain ⟨-, hhour, hminute, hsecond⟩ := h
  obtain ⟨-, hhour', hminute', hsecond'⟩ := h'
  unfold epoch at heq
  have hdays : t.days = t'.days := by omega
  rw [hdays, lt_self_iff_false, false_iff, Earlier] at hlt hgt
  ext <;> omega

def digitsOf : Nat → Nat → List Char
  | 0, _ => []
  | places + 1, n => digitsOf places (n / 10) ++ [(n % 10).digitChar]

theorem toList_padded {places n : Nat} (h : n < 10 ^ (places + 1)) :
    (padded (places + 1) n).toList = digitsOf (places + 1) n := by
  have hlist : ∀ places n : Nat, (padded places n).toList =
      List.replicate (places - (Nat.toDigits 10 n).length) '0' ++ Nat.toDigits 10 n := by
    intro places n
    have hsign : ¬ (n : Int) < 0 := by omega
    simp [padded, hsign, ← String.length_toList]
  induction places generalizing n with
  | zero =>
    have hn : n < 10 := by omega
    simp [hlist, digitsOf, Nat.toDigits_of_lt_base hn, Nat.mod_eq_of_lt hn]
  | succ _ ih =>
    rw [digitsOf, ← ih (by omega), hlist, hlist, Nat.toDigits_eq_if (n := n) (by decide)]
    split
    · next hn => simp [Nat.div_eq_of_lt hn, Nat.mod_eq_of_lt hn, List.replicate_succ']
    · simp

theorem digitsOf_append_lt {places n n' : Nat} {rest rest' : List Char} (h : n < 10 ^ places)
    (h' : n' < 10 ^ places) :
    digitsOf places n ++ rest < digitsOf places n' ++ rest' ↔ n < n' ∨ n = n' ∧ rest < rest' := by
  induction places generalizing n n' rest rest' with
  | zero => simp [digitsOf, show n = 0 by omega, show n' = 0 by omega]
  | succ _ ih =>
    have hdigit : ∀ n : Nat, (n % 10).digitChar.toNat = 48 + n % 10 := fun n =>
      Nat.toNat_digitChar_of_lt_ten (Nat.mod_lt n (by decide))
    have hlt : (n % 10).digitChar < (n' % 10).digitChar ↔ n % 10 < n' % 10 := by
      rw [show ∀ c c' : Char, c < c' ↔ c.toNat < c'.toNat from fun _ _ => .rfl, hdigit, hdigit]
      omega
    have heq : (n % 10).digitChar = (n' % 10).digitChar ↔ n % 10 = n' % 10 := by
      rw [← Char.toNat_inj, hdigit, hdigit]
      omega
    simp only [digitsOf, List.append_assoc, List.singleton_append]
    rw [ih (by omega) (by omega), List.cons_lt_cons_iff, hlt, heq]
    by_cases hrest : rest < rest' <;> simp [hrest] <;> omega

theorem utf8_ofList_cons (c : Char) (l : List Char) :
    utf8 (String.ofList (c :: l)) = String.utf8EncodeChar c ++ utf8 (String.ofList l) := by
  simp [utf8, String.toUTF8_eq_toByteArray, List.utf8Encode_singleton]

theorem digit_byte (n : Nat) :
    String.utf8EncodeChar (n % 10).digitChar = [digitByte (n % 10).digitChar] ∧
    isAsciiDigit (digitByte (n % 10).digitChar) = true ∧
    (digitByte (n % 10).digitChar).toNat - 0x30 = n % 10 := by
  have hlt : n % 10 < 10 := Nat.mod_lt n (by decide)
  generalize n % 10 = digit at hlt
  interval_cases digit <;> decide +kernel

section

variable {n n' : Nat} (h : t.Valid) (hyear : t.year = n) (hn : n ≤ 9999)
include h hyear hn

theorem date_eq : t.date = String.ofList (digitsOf 4 n ++
    '-' :: (digitsOf 2 t.month ++ '-' :: digitsOf 2 t.day)) := by
  have hbounds := h.bounds
  have hfour : (padded 4 n).toList = digitsOf 4 n := toList_padded (by omega)
  have htwo : ∀ k ≤ 31, (padded 2 (k : Nat)).toList = digitsOf 2 k := fun k _ =>
    toList_padded (by omega)
  apply String.toList_inj.mp
  simp [date, hyear, hfour, htwo t.month (by omega), htwo t.day (by omega)]

theorem isDate_date : isDate t.date = true := by
  obtain ⟨-, hmonth, hday⟩ := h.bounds
  have hvalid := h.day
  have hdash : String.utf8EncodeChar '-' = [0x2d] := by decide +kernel
  have hnil : utf8 (String.ofList []) = [] := rfl
  rw [date_eq h hyear hn, isDate]
  simp only [digitsOf, List.nil_append, List.cons_append, utf8_ofList_cons,
    (digit_byte _).1, hdash, hnil]
  simp only [List.all_cons, List.all_nil, (digit_byte _).2.1, Bool.true_and, parseU64,
    List.foldl_cons, List.foldl_nil, (digit_byte _).2.2, reduceCtorEq, if_false, asU64]
  have hfour : 10 * (10 * (10 * (10 * 0 + n / 10 / 10 / 10 % 10) + n / 10 / 10 % 10) +
      n / 10 % 10) + n % 10 = n := by omega
  have htwo : ∀ k ≤ 31, 10 * (10 * 0 + k / 10 % 10) + k % 10 = k := by omega
  have hread : ∀ k ≤ 9999, Option.filter (fun n => decide (n ≤ u64Max)) (some k) = some k :=
    fun k hk => if_pos (decide_eq_true (hk.trans (by decide)))
  rw [hfour, htwo _ hday, htwo t.month (by omega), hread n hn, hread _ (by omega),
    hread t.day (by omega)]
  simpa [hyear] using hvalid

theorem date_lt_date (h' : t'.Valid) (hyear' : t'.year = n') (hn' : n' ≤ 9999) :
    t.date < t'.date ↔ t.Earlier t' := by
  have hbounds := h.bounds
  have hbounds' := h'.bounds
  rw [date_eq h hyear hn, date_eq h' hyear' hn', String.lt_iff, String.toList_ofList,
    String.toList_ofList, digitsOf_append_lt (by omega) (by omega), List.cons_lt_cons_iff,
    digitsOf_append_lt (by omega) (by omega), List.cons_lt_cons_iff,
    ← List.append_nil (digitsOf 2 t.day), ← List.append_nil (digitsOf 2 t'.day),
    digitsOf_append_lt (by omega) (by omega)]
  simp only [lt_self_iff_false, false_or, true_and, and_false, or_false, Earlier]
  omega

end

/-- The formulas are the Gregorian calendar, and the dates that they give are read in order. -/
theorem civil_time_is_gregorian :
    (∀ seconds : Int, (civilTime seconds).Valid ∧ (civilTime seconds).epoch = seconds ∧
      ∀ t : CivilTime, t.Valid → t.epoch = seconds → t = civilTime seconds) ∧
    (∀ seconds, 0 ≤ (civilTime seconds).year → (civilTime seconds).year ≤ 9999 →
      isDate (civilTime seconds).date = true) ∧
    ∀ seconds seconds', 0 ≤ (civilTime seconds).year → (civilTime seconds).year ≤ 9999 →
      0 ≤ (civilTime seconds').year → (civilTime seconds').year ≤ 9999 →
      ((civilTime seconds).date < (civilTime seconds').date ↔
        seconds / 86400 < seconds' / 86400) := by
  refine ⟨fun seconds => ?_, fun seconds hlow hhigh => ?_, ?_⟩
  · obtain ⟨hvalid, hepoch⟩ := civilTime_exact seconds
    exact ⟨hvalid, hepoch, fun t h heq => eq_of_epoch_eq h hvalid (heq.trans hepoch.symm)⟩
  · obtain ⟨n, hn⟩ := Int.eq_ofNat_of_zero_le hlow
    exact isDate_date (civilTime_exact seconds).1 hn (by omega)
  intro seconds seconds' hlow hhigh hlow' hhigh'
  have hdays : ∀ s, (civilTime s).days = s / 86400 := by
    intro s
    obtain ⟨⟨-, hhour, hminute, hsecond⟩, hepoch⟩ := civilTime_exact s
    unfold epoch at hepoch
    omega
  obtain ⟨n, hn⟩ := Int.eq_ofNat_of_zero_le hlow
  obtain ⟨n', hn'⟩ := Int.eq_ofNat_of_zero_le hlow'
  have hvalid := (civilTime_exact seconds).1
  have hvalid' := (civilTime_exact seconds').1
  rw [date_lt_date hvalid hn (by omega) hvalid' hn' (by omega), ← days_lt_iff hvalid hvalid',
    hdays, hdays]

end Bridget.Attach
