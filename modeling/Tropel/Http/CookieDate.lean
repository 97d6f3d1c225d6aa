import Mathlib.Tactic.IntervalCases
import Tropel.Lib.Calendar
import Tropel.Lib.Decimal

/-!
# Dates of cookies

The expiry of a cookie is an RFC 1123 date.

* `cookieDates_roundTrip`: instants are read back.
-/

namespace Tropel

open Lib List Option Int Prod

/-! ## Day numbers -/

def daysFromCivil (y m d : ℤ) : ℤ :=
  let y := if m ≤ 2 then y - 1 else y
  let era := (if y ≥ 0 then y else y - 399).tdiv 400
  let yoe := y - era * 400
  let mp := (m + 9).tmod 12
  let doy := (153 * mp + 2).tdiv 5 + d - 1
  let doe := yoe * 365 + yoe.tdiv 4 - yoe.tdiv 100 + doy
  era * 146097 + doe - 719468

def civilFromDays (z : ℤ) : ℤ × ℤ × ℤ :=
  let z := z + 719468
  let era := (if z ≥ 0 then z else z - 146096).tdiv 146097
  let doe := z - era * 146097
  let yoe := (doe - doe.tdiv 1460 + doe.tdiv 36524 - doe.tdiv 146096).tdiv 365
  let y := yoe + era * 400
  let doy := doe - (365 * yoe + yoe.tdiv 4 - yoe.tdiv 100)
  let mp := (5 * doy + 2).tdiv 153
  let d := doy - (153 * mp + 2).tdiv 5 + 1
  let m := if mp < 10 then mp + 3 else mp - 9
  (if m ≤ 2 then y + 1 else y, m, d)

variable {n y doy mp m secs z : ℤ}

theorem tdiv_floor (x : ℤ) (hn : 0 < n) : (if x ≥ 0 then x else x - (n - 1)).tdiv n = x / n := by
  split_ifs with hx
  · exact tdiv_eq_ediv_of_nonneg hx
  · have hneg : x - (n - 1) = -(n - 1 - x) := by omega
    have hdiv : (n - 1 - x) / n = -(x / n) := by
      have hlt := emod_lt_of_pos x hn
      have hnonneg := emod_nonneg x hn.ne'
      have hx := emod_add_mul_ediv x n
      refine (ediv_eq_iff_of_pos hn).2 ⟨?_, ?_⟩ <;> linarith
    rw [hneg, Int.neg_tdiv, Int.tdiv_eq_ediv_of_nonneg (by omega), hdiv, neg_neg]

section

variable {y m : ℤ}

def marchYear (y m : ℤ) : ℤ := if m ≤ 2 then y - 1 else y

theorem daysFromCivil_eq (hm : 1 ≤ m) (d : ℤ) :
    daysFromCivil y m d =
      yearStart (marchYear y m) + (monthStart ((m + 9) % 12) + d - 1) - 719468 := by
  obtain ⟨y', hy'⟩ : ∃ y', marchYear y m = y' := ⟨_, rfl⟩
  have hera := tdiv_floor y' (n := 400) (by decide)
  norm_num only at hera
  have hyoe : 0 ≤ y' - y' / 400 * 400 := by omega
  rw [hy', daysFromCivil, ← marchYear, hy']
  rw [hera, tmod_eq_emod_of_nonneg (by omega), tdiv_eq_ediv_of_nonneg hyoe,
    tdiv_eq_ediv_of_nonneg hyoe, tdiv_eq_ediv_of_nonneg (by omega), yearStart, monthStart]
  omega

theorem civilFromDays_eq (z : ℤ) :
    let doe := (z + 719468) % 146097
    let yoe := yearOfEra doe
    let doy := doe - yearStart yoe
    let mp := monthOf doy
    civilFromDays z = (yoe + (z + 719468) / 146097 * 400 + (if mp < 10 then 0 else 1),
      if mp < 10 then mp + 3 else mp - 9, doy - monthStart mp + 1) := by
  intro doe yoe doy mp
  have hera := tdiv_floor (z + 719468) (n := 146097) (by decide)
  norm_num only at hera
  have hdoe : z + 719468 - (z + 719468) / 146097 * 146097 = doe := by omega
  have hdoe₀ : 0 ≤ doe := by omega
  obtain ⟨hyoe₀, hyoe₁, hstart, -⟩ := yearOfEra_spec hdoe₀ (by omega)
  have hdoy₀ : 0 ≤ doy := sub_nonneg.2 hstart
  have hmp₀ : 0 ≤ mp := by
    change 0 ≤ (5 * doy + 2) / 153
    omega
  have hyoe : (doe - doe / 1460 + doe / 36524 - doe / 146096).tdiv 365 = yoe :=
    tdiv_eq_ediv_of_nonneg (by omega)
  have hdoy : doe - (365 * yoe + yoe.tdiv 4 - yoe.tdiv 100) = doy := by
    rw [tdiv_eq_ediv_of_nonneg hyoe₀, tdiv_eq_ediv_of_nonneg hyoe₀]
    change _ = doe - (365 * yoe + yoe / 4 - yoe / 100 + yoe / 400)
    omega
  have hmp : (5 * doy + 2).tdiv 153 = mp := tdiv_eq_ediv_of_nonneg (by omega)
  have hmonth : (153 * mp + 2).tdiv 5 = monthStart mp := tdiv_eq_ediv_of_nonneg (by omega)
  rw [civilFromDays]
  rw [hera, hdoe, tdiv_eq_ediv_of_nonneg hdoe₀, tdiv_eq_ediv_of_nonneg hdoe₀,
    tdiv_eq_ediv_of_nonneg hdoe₀, hyoe, hdoy, hmp, hmonth]
  -- January and February are the last months of the year that begins in March.
  have hmp₁ : mp < 12 := by
    have := (monthOf_spec (n := doy) (m := mp)).1 rfl
    have := yearStart_succ yoe
    have : doe < yearStart (yoe + 1) := (yearOfEra_spec hdoe₀ (by omega)).2.2.2
    unfold monthStart at *
    split_ifs at * <;> omega
  split_ifs <;> first | rfl | omega | (congr 1; omega)

end

/-! ## Day numbers are dates -/

variable (t : Date)

def dayNumber : ℤ := daysFromCivil t.year t.month t.day

theorem marchDay_spec :
    let mp := (t.month + 9) % 12
    let y := marchYear t.year t.month
    let doy := monthStart mp + t.day - 1
    (monthStart mp ≤ doy ∧ doy < monthStart (mp + 1)) ∧
      yearStart y ≤ yearStart y + doy ∧ yearStart y + doy < yearStart (y + 1) := by
  obtain ⟨y, m, d, hm₀, hm₁, hd₀, hd₁⟩ := t
  dsimp only
  rw [yearStart_succ]
  unfold daysInMonth at hd₁
  unfold marchYear monthStart
  interval_cases m <;> simp at hd₁ ⊢ <;> split_ifs at * <;> omega

theorem era_of_yearStart (h₀ : 0 ≤ doy) (h₁ : yearStart y + doy < yearStart (y + 1)) :
    (yearStart y + doy) / 146097 = y / 400 ∧
      (yearStart y + doy) % 146097 = yearStart (y % 400) + doy ∧
      yearOfEra (yearStart (y % 400) + doy) = y % 400 := by
  have hstart : yearStart y = y / 400 * 146097 + yearStart (y % 400) := by
    rw [← yearStart_era]
    congr 1
    omega
  have hsucc : yearStart (y + 1) = y / 400 * 146097 + yearStart (y % 400 + 1) := by
    rw [← yearStart_era]
    congr 1
    omega
  have hnonneg : yearStart 0 ≤ yearStart (y % 400) := yearStart_mono (by omega)
  have hle : yearStart (y % 400 + 1) ≤ yearStart 400 := yearStart_mono (by omega)
  have hzero : yearStart 0 = 0 := by decide
  have hera : yearStart 400 = 146097 := by decide
  have hspec := yearOfEra_spec (n := yearStart (y % 400) + doy) (by omega) (by omega)
  exact ⟨by omega, by omega, eq_of_yearStart hspec.2.2.1 hspec.2.2.2 (by omega) (by omega)⟩

theorem civilFromDays_dayNumber : civilFromDays (dayNumber t) = t.civil := by
  obtain ⟨hmonth, -, hyear⟩ := marchDay_spec t
  have hmonth₀ : 0 ≤ monthStart ((t.month + 9) % 12) := by
    unfold monthStart
    omega
  obtain ⟨hera, hdoe, hyoe⟩ := era_of_yearStart (by have := hmonth.1; omega) hyear
  have hdays : dayNumber t + 719468 = yearStart (marchYear t.year t.month) +
      (monthStart ((t.month + 9) % 12) + t.day - 1) := by
    rw [dayNumber, daysFromCivil_eq t.one_le_month]
    omega
  rw [civilFromDays_eq, hdays, hera, hdoe, hyoe, add_sub_cancel_left, monthOf_spec.2 hmonth]
  have hm₀ := t.one_le_month
  have hm₁ := t.month_le
  unfold marchYear Date.civil
  refine Prod.ext ?_ (Prod.ext ?_ (by dsimp only; omega)) <;> dsimp only <;> split_ifs <;> omega

theorem exists_date (hdoy : 0 ≤ doy) (hmonth : monthOf doy = mp)
    (hyear : yearStart y + doy < yearStart (y + 1)) : ∃ t : Date, marchYear t.year t.month = y ∧
      (t.month + 9) % 12 = mp ∧ monthStart mp + t.day - 1 = doy := by
  obtain ⟨hmonth₀, hmonth₁⟩ := monthOf_spec.1 hmonth
  rw [yearStart_succ] at hyear
  have hmp₀ : 0 ≤ mp := by
    unfold monthStart at hmonth₁
    omega
  have hmp₁ : mp < 12 := by
    unfold monthStart at hmonth₀
    split_ifs at hyear <;> omega
  let month := if mp < 10 then mp + 3 else mp - 9
  let year := if mp < 10 then y else y + 1
  have hday : doy - monthStart mp + 1 ≤ daysInMonth year month := by
    unfold monthStart at *
    unfold year month daysInMonth
    interval_cases mp <;> simp at * <;> split_ifs at * <;> omega
  refine ⟨⟨year, month, doy - monthStart mp + 1, ?_, ?_, by omega, hday⟩, ?_, ?_, ?_⟩
  · unfold month
    split_ifs <;> omega
  · unfold month
    split_ifs <;> omega
  · unfold marchYear year month
    dsimp only
    split_ifs <;> omega
  · unfold month
    dsimp only
    split_ifs <;> omega
  · dsimp only
    omega

theorem exists_dayNumber (z : ℤ) : ∃ t : Date, dayNumber t = z := by
  obtain ⟨doe, hdoe⟩ : ∃ doe, (z + 719468) % 146097 = doe := ⟨_, rfl⟩
  obtain ⟨hyoe₀, hyoe₁, hstart, hnext⟩ := yearOfEra_spec (n := doe) (by omega) (by omega)
  let y := yearOfEra doe + (z + 719468) / 146097 * 400
  have hy : yearStart y = (z + 719468) / 146097 * 146097 + yearStart (yearOfEra doe) :=
    yearStart_era _ _
  have hy' : yearStart (y + 1) =
      (z + 719468) / 146097 * 146097 + yearStart (yearOfEra doe + 1) := by
    rw [← yearStart_era]
    congr 1
    omega
  obtain ⟨t, htyear, htmonth, htday⟩ := exists_date (y := y) (sub_nonneg.2 hstart) rfl (by omega)
  refine ⟨t, ?_⟩
  rw [dayNumber, daysFromCivil_eq t.one_le_month, htyear, htmonth, htday, hy]
  omega

def monthBegin (y m : ℤ) : ℤ := yearStart (marchYear y m) + monthStart ((m + 9) % 12)

theorem monthBegin_succ (y : ℤ) (hm₀ : 1 ≤ m) (hm₁ : m < 12) :
    monthBegin y (m + 1) = monthBegin y m + daysInMonth y m := by
  have hsucc := yearStart_succ (y - 1)
  rw [sub_add_cancel] at hsucc
  unfold monthBegin marchYear daysInMonth monthStart
  -- The year begins after February, with its leap day.
  obtain rfl | hne := eq_or_ne m 2
  · norm_num [hsucc]
    split_ifs <;> omega
  · interval_cases m <;> first | exact absurd rfl hne | (norm_num <;> omega)

theorem monthBegin_newYear (y : ℤ) : monthBegin (y + 1) 1 = monthBegin y 12 + daysInMonth y 12 := by
  unfold monthBegin marchYear daysInMonth monthStart
  norm_num
  omega

theorem dayNumber_eq : dayNumber t = monthBegin t.year t.month + t.day - 719469 := by
  rw [dayNumber, daysFromCivil_eq t.one_le_month, monthBegin]
  omega

theorem dayNumber_next : dayNumber t.next = dayNumber t + 1 := by
  have hday := t.day_le
  rw [dayNumber_eq, dayNumber_eq, Date.next]
  split_ifs with hlt hm <;> dsimp only
  · omega
  · rw [monthBegin_succ t.year t.one_le_month hm]
    omega
  · have hm : t.month = 12 := le_antisymm t.month_le (not_lt.1 hm)
    rw [hm] at hlt hday ⊢
    rw [monthBegin_newYear]
    omega

/-! ## Texts -/

def zeroPad (w : ℕ) (n : ℤ) : Text :=
  let sign := if n < 0 then ['-'] else []
  let digits := Nat.toDigits 10 n.natAbs
  sign ++ List.replicate (w - sign.length - digits.length) '0' ++ digits

def months : List Text :=
  ["Jan", "Feb", "Mar", "Apr", "May", "Jun", "Jul", "Aug", "Sep", "Oct", "Nov",
    "Dec"].map String.toList

def weekdays : List Text := ["Sun", "Mon", "Tue", "Wed", "Thu", "Fri", "Sat"].map String.toList

def weekdayOf (days : ℤ) : ℕ := ((days + 4) % 7).toNat

def timeText (secs : ℤ) : Text := [':'].intercalate
  [zeroPad 2 (secs.tdiv 3600), zeroPad 2 ((secs.tmod 3600).tdiv 60), zeroPad 2 (secs.tmod 60)]

def formatImfFixdate (epoch : ℤ) : Text :=
  let days := epoch / 86400
  let secs := epoch % 86400
  let (y, m, d) := civilFromDays days
  let weekday := weekdays[weekdayOf days]?.getD []
  let mon := months[(m - 1).toNat]?.getD []
  weekday ++ (", " ++ [' '].intercalate [zeroPad 2 d, mon, zeroPad 4 y, timeText secs, "GMT"])

def parseZone (zone : Text) : Result Unit ℤ :=
  match zone with
  | [] => .error (.err ())
  | c :: digits =>
    if zone.all Char.isAlpha && decide (byteLen zone ≤ 5) then .ok 0
    else if c.utf8Size ≠ 1 then .error .panic
    else if (c = '+' ∨ c = '-') ∧ digits.length = 4 ∧ digits.all Char.isDigit then do
      let hours ← okOr (parseI64 (digits.take 2)) ()
      let mins ← okOr (parseI64 (digits.drop 2)) ()
      return (if c = '+' then 1 else -1) * (hours * 3600 + mins * 60)
    else .error (.err ())

def parseTime (time : Text) : Option ℤ :=
  match time.splitOn ':' with
  | [hh, mm, ss] => do
    let hh ← parseI64 hh
    let mm ← parseI64 mm
    let ss ← parseI64 ss
    if hh > 23 ∨ mm > 59 ∨ ss > 60 then none else some (hh * 3600 + mm * 60 + ss)
  | _ => none

def parseDay (day month year : Text) : Option ℤ :=
  if byteLen day ≠ 2 ∨ byteLen year ≠ 4 then none
  else do
    let day ← parseI64 day
    let year ← parseI64 year
    let month ← months.findIdx? (· = month)
    if 1 ≤ day ∧ day ≤ 31 then some (daysFromCivil year (month + 1) day) else none

def readRfc1123 (s : Text) : Result Unit ℤ := do
  let (weekday, rest) ← okOr (splitOncePattern ", " s) ()
  if weekdays.contains weekday then
    match rest.splitOn ' ' with
    | [day, month, year, time, zone] =>
      let days ← okOr (parseDay day month year) ()
      let secs ← okOr (parseTime time) ()
      let offset ← parseZone zone
      return wrap64 (days * 86400 + secs - offset)
    | _ => .error (.err ())
  else .error (.err ())

def parseRfc1123 (s : Text) : Result String ℤ :=
  match readRfc1123 (trim s) with
  | .ok epoch => .ok epoch
  | .error .panic => .error .panic
  | .error (.err ()) => .error (.err s!"cookie jar: `expires` is not RFC1123: '{String.ofList s}'")

/-! ## Reading back -/

section

variable {w : ℕ} {n : ℤ}

theorem zeroPad_eq (h : 0 ≤ n) (w : ℕ) : zeroPad w n =
    List.replicate (w - (Nat.toDigits 10 n.toNat).length) '0' ++ Nat.toDigits 10 n.toNat := by
  have hn : n.natAbs = n.toNat := by omega
  rw [zeroPad, if_neg (not_lt.2 h), hn]
  rfl

variable {c : Char}

theorem isDigit_of_mem_zeroPad (h : 0 ≤ n) (hc : c ∈ zeroPad w n) : c.isDigit := by
  rw [zeroPad_eq h, mem_append] at hc
  rcases hc with hc | hc
  · rw [eq_of_mem_replicate hc]
    rfl
  · exact isDigit_of_mem_toDigits hc

theorem not_mem_zeroPad (h : 0 ≤ n) (hc : c.isDigit = false) : c ∉ zeroPad w n := by
  intro hmem
  rw [isDigit_of_mem_zeroPad h hmem] at hc
  cases hc

theorem byteLen_zeroPad (hw : 0 < w) (h : 0 ≤ n) (hlt : n < 10 ^ w) :
    byteLen (zeroPad w n) = w := by
  have hle : (Nat.toDigits 10 n.toNat).length ≤ w := by
    refine (Nat.length_toDigits_le_iff (by decide) hw).2 ?_
    rw [toNat_lt h]
    exact_mod_cast hlt
  rw [byteLen_of_isDigit fun c => isDigit_of_mem_zeroPad h, zeroPad_eq h, length_append,
    length_replicate, Nat.sub_add_cancel hle]

theorem parseI64_zeroPad (h : 0 ≤ n) (hlt : n < 2 ^ 63) (w : ℕ) :
    parseI64 (zeroPad w n) = some n := by
  rw [zeroPad_eq h, parseI64_zeros _ (by omega), toNat_of_nonneg h]

end

theorem parseTime_eq (h₀ : 0 ≤ secs) (h₁ : secs < 86400) :
    parseTime (timeText secs) = some secs := by
  have hmod₀ : 0 ≤ secs % 3600 := by omega
  rw [timeText, tmod_eq_emod_of_nonneg h₀, tmod_eq_emod_of_nonneg h₀, tdiv_eq_ediv_of_nonneg h₀,
    tdiv_eq_ediv_of_nonneg hmod₀]
  have hsplit : ([':'].intercalate [zeroPad 2 (secs / 3600), zeroPad 2 (secs % 3600 / 60),
      zeroPad 2 (secs % 60)]).splitOn ':' =
      [zeroPad 2 (secs / 3600), zeroPad 2 (secs % 3600 / 60), zeroPad 2 (secs % 60)] := by
    refine splitOn_intercalate _ ?_ (cons_ne_nil _ _)
    simp only [forall_mem_cons]
    exact ⟨not_mem_zeroPad (by omega) rfl, not_mem_zeroPad (by omega) rfl,
      not_mem_zeroPad (by omega) rfl, forall_mem_nil _⟩
  rw [parseTime, hsplit]
  dsimp only
  rw [parseI64_zeroPad (by omega) (by omega), parseI64_zeroPad (by omega) (by omega),
    parseI64_zeroPad (by omega) (by omega)]
  dsimp only [bind_eq_bind, bind_some]
  rw [if_neg (by omega)]
  congr 1
  omega

theorem parseDay_eq (h₀ : 0 ≤ t.year) (h₁ : t.year ≤ 9999) :
    parseDay (zeroPad 2 t.day) (months[(t.month - 1).toNat]?.getD []) (zeroPad 4 t.year) =
      some (dayNumber t) := by
  have hd₀ := t.one_le_day
  have hd₁ := t.day_le_thirtyOne
  have hm₀ := t.one_le_month
  have hm₁ := t.month_le
  have hmonth : months.findIdx? (· = months[(t.month - 1).toNat]?.getD []) =
      some (t.month - 1).toNat := by
    generalize t.month = m at hm₀ hm₁
    interval_cases m <;> decide
  rw [parseDay, byteLen_zeroPad (by decide) (by omega) (by omega),
    byteLen_zeroPad (by decide) h₀ (by omega), if_neg (by decide),
      parseI64_zeroPad (by omega) (by omega), parseI64_zeroPad h₀ (by omega), hmonth]
  dsimp only [bind_eq_bind, bind_some]
  rw [if_pos ⟨hd₀, hd₁⟩, dayNumber]
  congr 2
  omega

theorem weekdayOf_lt (days : ℤ) : weekdayOf days < 7 := by
  unfold weekdayOf
  omega

theorem weekday_spec {i : ℕ} (hi : i < 7) :
    weekdays[i]?.getD [] ∈ weekdays ∧ ',' ∉ weekdays[i]?.getD [] ∧
    ∃ c ∈ (weekdays[i]?.getD []).head?, isWhitespace c = false := by
  interval_cases i <;> exact ⟨by decide, by decide, _, rfl, rfl⟩

theorem space_not_mem_month (hm₀ : 1 ≤ m) (hm₁ : m ≤ 12) :
    ' ' ∉ months[(m - 1).toNat]?.getD [] := by
  interval_cases m <;> decide

theorem dayNumber_bounds (h₀ : -n ≤ t.year) (h₁ : t.year ≤ n) :
    -(366 * n) - 720200 ≤ dayNumber t ∧ dayNumber t ≤ 366 * n := by
  have hyear : -n - 1 ≤ marchYear t.year t.month ∧ marchYear t.year t.month ≤ n := by
    unfold marchYear
    split_ifs <;> omega
  have hm₀ := t.one_le_month
  have hd₀ := t.one_le_day
  have hd₁ := t.day_le_thirtyOne
  rw [dayNumber, daysFromCivil_eq hm₀]
  unfold yearStart monthStart
  omega

theorem inI64_instant (h₀ : 0 ≤ t.year) (h₁ : t.year ≤ 9999) (hs₀ : 0 ≤ secs) (hs₁ : secs < 86400) :
    InI64 (dayNumber t * 86400 + secs) := by
  have hbound := dayNumber_bounds t (by omega) h₁
  unfold InI64
  omega

section

variable {weekday day month year time : Text}

def dateText (weekday day month year time : Text) : Text :=
  weekday ++ (", " ++ [' '].intercalate [day, month, year, time, "GMT"])

theorem trim_dateText (hhead : ∃ c ∈ weekday.head?, isWhitespace c = false) :
    trim (dateText weekday day month year time) = dateText weekday day month year time := by
  obtain ⟨c, hc, hspace⟩ := hhead
  refine trim_eq_of_ends ?_ ?_
  · intro d hd
    rw [dateText, head?_append, mem_def.1 hc, some_or] at hd
    exact some.inj hd ▸ hspace
  · intro d hd
    have hlast : "GMT".toList.getLast? = some 'T' := rfl
    simp only [dateText, intercalate_cons_cons, intercalate_singleton, getLast?_append, hlast,
      some_or] at hd
    exact some.inj hd ▸ rfl

theorem readRfc1123_dateText (hweekday : weekday ∈ weekdays) (hcomma : ',' ∉ weekday)
    (hparts : ∀ part ∈ [day, month, year, time, "GMT"], ' ' ∉ part) {days secs : ℤ}
    (hdays : parseDay day month year = some days) (hsecs : parseTime time = some secs) :
    readRfc1123 (dateText weekday day month year time) = .ok (wrap64 (days * 86400 + secs)) := by
  have hsplit : splitOncePattern ", " (dateText weekday day month year time) =
      some (weekday, [' '].intercalate [day, month, year, time, "GMT"]) :=
    splitOncePattern_append (p := [' ']) hcomma _
  have hzone : parseZone "GMT" = .ok 0 := by decide +kernel
  rw [readRfc1123, hsplit]
  dsimp only [okOr, bind, Except.bind]
  rw [if_pos (contains_iff_mem.2 hweekday), splitOn_intercalate _ hparts (cons_ne_nil _ _)]
  dsimp only
  rw [hdays, hsecs, hzone]
  dsimp only [okOr, pure, Except.pure]
  rw [sub_zero]

end

theorem space_not_mem_time (h : 0 ≤ secs) : ' ' ∉ timeText secs := by
  refine not_mem_intercalate (by decide) ?_
  simp only [forall_mem_cons]
  exact ⟨not_mem_zeroPad (Int.tdiv_nonneg h (by decide)) rfl,
    not_mem_zeroPad (Int.tdiv_nonneg (Int.tmod_nonneg 3600 h) (by decide)) rfl,
    not_mem_zeroPad (tmod_nonneg _ h) rfl, forall_mem_nil _⟩

theorem parseRfc1123_formatImfFixdate (h₀ : 0 ≤ t.year) (h₁ : t.year ≤ 9999) {epoch : ℤ}
    (hday : dayNumber t = epoch / 86400) : parseRfc1123 (formatImfFixdate epoch) = .ok epoch := by
  have hsecs₀ : 0 ≤ epoch % 86400 := by omega
  have hsecs₁ : epoch % 86400 < 86400 := by omega
  have hcivil : civilFromDays (epoch / 86400) = (t.year, t.month, t.day) := by
    rw [← hday]
    exact civilFromDays_dayNumber t
  obtain ⟨hweekday, hcomma, hhead⟩ := weekday_spec (weekdayOf_lt (epoch / 86400))
  have hformat : formatImfFixdate epoch = dateText (weekdays[weekdayOf (epoch / 86400)]?.getD [])
      (zeroPad 2 t.day) (months[(t.month - 1).toNat]?.getD []) (zeroPad 4 t.year)
        (timeText (epoch % 86400)) := by
    rw [formatImfFixdate, hcivil]
    rfl
  have hread := readRfc1123_dateText hweekday hcomma (by
    simp only [forall_mem_cons]
    exact ⟨not_mem_zeroPad (by have := t.one_le_day; omega) rfl,
      space_not_mem_month t.one_le_month t.month_le, not_mem_zeroPad h₀ rfl,
        space_not_mem_time hsecs₀, by decide, forall_mem_nil _⟩)
    (parseDay_eq t h₀ h₁) (parseTime_eq hsecs₀ hsecs₁)
  have hepoch : epoch / 86400 * 86400 + epoch % 86400 = epoch := by omega
  rw [wrap64_of_inI64 (inI64_instant t h₀ h₁ hsecs₀ hsecs₁), hday, hepoch] at hread
  rw [parseRfc1123, hformat, trim_dateText hhead, hread]

/-! ## In the range of the machine -/

def floorChecked (x n : ℤ) : Result Unit ℤ :=
  (if x ≥ 0 then pure x else checked64 (x - (n - 1))) >>= fun x => div64 x n

def daysFromCivilChecked (y m d : ℤ) : Result Unit ℤ :=
  (if m ≤ 2 then checked64 (y - 1) else pure y) >>= fun y => do
    let era ← floorChecked y 400
    let yoe ← checked64 (y - (← checked64 (era * 400)))
    let mp ← rem64 (← checked64 (m + 9)) 12
    let doy ← checked64
        ((← checked64 ((← div64 (← checked64 ((← checked64 (153 * mp)) + 2)) 5) + d)) - 1)
    let quarters ← checked64 ((← checked64 (yoe * 365)) + (← div64 yoe 4))
    let doe ← checked64 ((← checked64 (quarters - (← div64 yoe 100))) + doy)
    checked64 ((← checked64 ((← checked64 (era * 146097)) + doe)) - 719468)

def civilChecked (y mp d : ℤ) : Result Unit (ℤ × ℤ × ℤ) :=
  (if mp < 10 then checked64 (mp + 3) else checked64 (mp - 9)) >>= fun m =>
    (if m ≤ 2 then checked64 (y + 1) else pure y) >>= fun y => pure (y, m, d)

def civilFromDaysChecked (z : ℤ) : Result Unit (ℤ × ℤ × ℤ) := do
  let z ← checked64 (z + 719468)
  let era ← floorChecked z 146097
  let doe ← checked64 (z - (← checked64 (era * 146097)))
  let quarters ← checked64 (doe - (← div64 doe 1460))
  let yoe ← div64
      (← checked64 ((← checked64 (quarters + (← div64 doe 36524))) - (← div64 doe 146096))) 365
  let y ← checked64 (yoe + (← checked64 (era * 400)))
  let years ← checked64 ((← checked64 (365 * yoe)) + (← div64 yoe 4))
  let doy ← checked64 (doe - (← checked64 (years - (← div64 yoe 100))))
  let mp ← div64 (← checked64 ((← checked64 (5 * doy)) + 2)) 153
  let start ← div64 (← checked64 ((← checked64 (153 * mp)) + 2)) 5
  let d ← checked64 ((← checked64 (doy - start)) + 1)
  civilChecked y mp d

section

variable {α : Type} {x n : ℤ}

theorem checked64_bind (h₀ : -2 ^ 63 ≤ x) (h₁ : x < 2 ^ 63) (f : ℤ → Result Unit α) :
    checked64 x >>= f = f x := by
  rw [checked64, if_pos ⟨h₀, h₁⟩]
  rfl

theorem div64_bind (h₀ : 0 ≤ x) (h : 0 < n) (f : ℤ → Result Unit α) :
    div64 x n >>= f = f (x / n) := by
  rw [div64_eq h, tdiv_eq_ediv_of_nonneg h₀]
  rfl

theorem rem64_bind (h₀ : 0 ≤ x) (h : 0 < n) (f : ℤ → Result Unit α) :
    rem64 x n >>= f = f (x % n) := by
  rw [rem64_eq h, tmod_eq_emod_of_nonneg h₀]
  rfl

theorem floorChecked_bind (h₀ : -2 ^ 62 ≤ x) (h : 0 < n) (h₁ : n < 2 ^ 62) (f : ℤ → Result Unit α) :
    floorChecked x n >>= f = f (x / n) := by
  rw [← tdiv_floor x h, floorChecked]
  split_ifs with hx
  · rw [pure_bind, div64_eq h]
    rfl
  · rw [checked64_bind (by omega) (by omega), div64_eq h]
    rfl

end

theorem daysFromCivilChecked_eq (h₀ : -10 ^ 16 ≤ t.year) (h₁ : t.year ≤ 10 ^ 16) :
    daysFromCivilChecked t.year t.month t.day = .ok (dayNumber t) := by
  have hm₀ := t.one_le_month
  have hm₁ := t.month_le
  have hd₀ := t.one_le_day
  have hd₁ := t.day_le_thirtyOne
  have hyear : (if t.month ≤ 2 then checked64 (t.year - 1) else pure t.year : Result Unit ℤ) =
      pure (marchYear t.year t.month) := by
    unfold marchYear
    split_ifs
    · exact checked64_eq_ok.2 ⟨⟨by omega, by omega⟩, rfl⟩
    · rfl
  have hbound : -10 ^ 16 - 1 ≤ marchYear t.year t.month ∧ marchYear t.year t.month ≤ 10 ^ 16 := by
    unfold marchYear
    split_ifs <;> omega
  rw [dayNumber, daysFromCivil_eq hm₀, daysFromCivilChecked, hyear, pure_bind]
  generalize marchYear t.year t.month = y at hbound
  simp (disch := omega) only [floorChecked_bind, checked64_bind, div64_bind, rem64_bind]
  refine checked64_eq_ok.2 ⟨⟨by omega, by omega⟩, ?_⟩
  unfold yearStart monthStart
  omega

theorem civilChecked_eq (h₀ : -2 ^ 62 ≤ y) (h₁ : y ≤ 2 ^ 62) (hmp₀ : 0 ≤ mp) (hmp₁ : mp < 12)
    (d : ℤ) :
    civilChecked y mp d = .ok (y + (if mp < 10 then 0 else 1), if mp < 10 then mp + 3 else mp - 9,
      d) := by
  rw [civilChecked]
  by_cases hmp : mp < 10
  · rw [if_pos hmp, if_pos hmp, if_pos hmp, checked64_bind (by omega) (by omega), if_neg (by omega),
      add_zero]
    rfl
  · rw [if_neg hmp, if_neg hmp, if_neg hmp, checked64_bind (by omega) (by omega), if_pos (by omega),
      checked64_bind (by omega) (by omega)]
    rfl

theorem civilFromDaysChecked_eq (h₀ : -2 ^ 62 ≤ z) (h₁ : z ≤ 2 ^ 62) :
    civilFromDaysChecked z = .ok (civilFromDays z) := by
  obtain ⟨doe, hdoe⟩ : ∃ doe, (z + 719468) % 146097 = doe := ⟨_, rfl⟩
  obtain ⟨hyoe₀, hyoe₁, hstart, hnext⟩ := yearOfEra_spec (n := doe) (by omega) (by omega)
  have hdoe' : z + 719468 - (z + 719468) / 146097 * 146097 = doe := by omega
  rw [civilFromDays_eq, civilFromDaysChecked]
  simp (disch := omega) only [floorChecked_bind, checked64_bind, div64_bind, hdoe', hdoe]
  rw [← yearOfEra]
  generalize yearOfEra doe = yoe at *
  have hyears : 365 * yoe + yoe / 4 - yoe / 100 = yearStart yoe := by
    unfold yearStart
    omega
  have hsucc := yearStart_succ yoe
  obtain ⟨doy, hdoy⟩ : ∃ doy, doe - yearStart yoe = doy := ⟨_, rfl⟩
  have hmonth : (5 * doy + 2) / 153 = monthOf doy := rfl
  simp (disch := omega) only [checked64_bind, div64_bind, hyears, hdoy]
  rw [civilChecked_eq (by omega) (by omega) (by omega) (by omega), hmonth, ← monthStart]

theorem dayNumber_eq_iff {t : Date} : dayNumber t = z ↔ civilFromDays z = t.civil := by
  constructor
  · rintro rfl
    exact civilFromDays_dayNumber t
  · intro h
    obtain ⟨t', rfl⟩ := exists_dayNumber z
    rw [civilFromDays_dayNumber, Date.civil, Date.civil, mk.injEq, mk.injEq] at h
    rw [dayNumber, dayNumber, h.1, h.2.1, h.2.2]

/-- Instants of the years 0 to 9999 are read back from their texts, dates and day numbers from each
    other; consecutive days have consecutive dates and weekdays. Nothing overflows up to the year
    10^16. -/
theorem cookieDates_roundTrip :
    (∀ (epoch : ℤ) (t : Date), civilFromDays (epoch / 86400) = t.civil → 0 ≤ t.year →
      t.year ≤ 9999 → parseRfc1123 (formatImfFixdate epoch) = .ok epoch) ∧
    (∀ t : Date, civilFromDays (daysFromCivil t.year t.month t.day) = t.civil ∧
      (-10 ^ 16 ≤ t.year → t.year ≤ 10 ^ 16 →
        daysFromCivilChecked t.year t.month t.day = .ok (daysFromCivil t.year t.month t.day) ∧
        civilFromDaysChecked (daysFromCivil t.year t.month t.day) = .ok t.civil)) ∧
    ∀ z : ℤ, ∃ t : Date, civilFromDays z = t.civil ∧ daysFromCivil t.year t.month t.day = z ∧
      civilFromDays (z + 1) = t.next.civil ∧ weekdayOf (z + 1) = (weekdayOf z + 1) % 7 := by
  refine ⟨fun epoch t ht h₀ h₁ => ?_, fun t => ⟨civilFromDays_dayNumber t, fun h₀ h₁ => ?_⟩,
    fun z => ?_⟩
  · exact parseRfc1123_formatImfFixdate t h₀ h₁ (dayNumber_eq_iff.2 ht)
  · refine ⟨daysFromCivilChecked_eq t h₀ h₁, ?_⟩
    have hbound := dayNumber_bounds t h₀ h₁
    rw [← dayNumber, civilFromDaysChecked_eq (by omega) (by omega), civilFromDays_dayNumber]
  · obtain ⟨t, rfl⟩ := exists_dayNumber z
    refine ⟨t, civilFromDays_dayNumber t, rfl, ?_, ?_⟩
    · rw [← dayNumber_next, civilFromDays_dayNumber]
    · unfold weekdayOf
      omega

end Tropel
