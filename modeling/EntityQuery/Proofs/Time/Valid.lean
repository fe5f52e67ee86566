import EntityQuery.Proofs.Text.Digits
import EntityQuery.Time.Reader
import Mathlib.Data.Int.Order.Basic

/-!
# Times that are read

Whatever notation a date or time is read in, it is one that exists: a day of the calendar, a time
that a clock can show, and an offset of less than a day.  In strict notation the year has four
digits, so a moment that is carried over to universal time stays far from the first and the last
year.

## Main definitions

* `Clock.Valid`, `DateTime.Valid`, `Moment.Valid` : times that exist

## Main statements

* `Clock.of?_shown` : a time is the one that its clock shows
* `DateTime.shift_valid` : the clock may be turned by less than a day
* `Date.valid_of_read?`, `DateTime.valid_of_read?`, `Moment.valid_of_read?` : what is read exists
-/

namespace EntityQuery

/-! ## Days -/

namespace Date

variable {d : Date} {year : ℤ} {month day : ℕ}

theorem isValid_iff : d.isValid = true ↔
    minYear ≤ d.year ∧ d.year ≤ maxYear ∧ 1 ≤ d.day ∧ d.day ≤ daysIn d.year d.month := by
  simp [isValid, and_assoc]

theorem of?_eq_some_iff :
    of? year month day = some d ↔ d = ⟨year, month, day⟩ ∧ d.isValid = true := by
  unfold of?
  dsimp only
  split
  · next h =>
    rw [Option.some.injEq, eq_comm]
    exact ⟨fun heq => ⟨heq, heq ▸ h⟩, And.left⟩
  · next h =>
    rw [eq_comm]
    simp only [reduceCtorEq, false_iff, not_and]
    exact fun heq hvalid => h (heq ▸ hvalid)

theorem daysIn_le (year : ℤ) (month : ℕ) : daysIn year month ≤ 31 := by
  unfold daysIn
  repeat' split
  all_goals omega

theorem month_of_daysIn_pos (h : 0 < daysIn year month) : 1 ≤ month ∧ month ≤ 12 := by
  unfold daysIn at h
  repeat' split at h
  all_goals omega

theorem daysIn_pos (h : 1 ≤ month ∧ month ≤ 12) : 0 < daysIn year month := by
  unfold daysIn
  repeat' split
  all_goals omega

theorem month_of_isValid (h : d.isValid = true) : 1 ≤ d.month ∧ d.month ≤ 12 := by
  obtain ⟨-, -, hday, hdays⟩ := isValid_iff.mp h
  exact month_of_daysIn_pos (Nat.lt_of_lt_of_le hday hdays)

theorem day_of_isValid (h : d.isValid = true) : d.day ≤ 31 :=
  Nat.le_trans (isValid_iff.mp h).2.2.2 (daysIn_le ..)

theorem isValid_next (h : d.isValid = true) (hyear : d.year < maxYear) : d.next.isValid = true := by
  obtain ⟨hmin, hmax, hday, hdays⟩ := isValid_iff.mp h
  unfold next
  split
  · next hless => exact isValid_iff.mpr ⟨hmin, hmax, Nat.le_add_left 1 _, hless⟩
  · split
    · next hless =>
      have hnext : 0 < daysIn d.year (d.month + 1) := daysIn_pos ⟨Nat.le_add_left 1 _, hless⟩
      exact isValid_iff.mpr ⟨hmin, hmax, Nat.le_refl _, hnext⟩
    · have hnext : 0 < daysIn (d.year + 1) 1 := daysIn_pos ⟨by decide, by decide⟩
      exact isValid_iff.mpr ⟨by dsimp only; omega, hyear, Nat.le_refl _, hnext⟩

theorem isValid_previous (h : d.isValid = true) (hyear : minYear < d.year) :
    d.previous.isValid = true := by
  obtain ⟨hmin, hmax, hday, hdays⟩ := isValid_iff.mp h
  have hmonth := month_of_isValid h
  unfold previous
  split
  · next hless => exact isValid_iff.mpr ⟨hmin, hmax, by dsimp only; omega, by dsimp only; omega⟩
  · split
    · next hless =>
      have hbefore : 0 < daysIn d.year (d.month - 1) := daysIn_pos (by omega)
      exact isValid_iff.mpr ⟨hmin, hmax, hbefore, Nat.le_refl _⟩
    · exact isValid_iff.mpr ⟨by dsimp only; omega, by dsimp only; omega, Nat.le_add_left 1 _,
        Nat.le_refl _⟩

end Date

/-! ## Times of day -/

/-- The time exists. -/
structure Clock.Valid (t : Clock) : Prop where
  hour : t.hour < 24
  minute : t.minute < 60
  second : t.second < 60
  nano : t.nano < 2 * Clock.billion
  leap : Clock.billion ≤ t.nano → t.second = 59

namespace Clock

variable {t : Clock}

theorem valid_midnight : midnight.Valid := ⟨by decide, by decide, by decide, by decide, by decide⟩

theorem Valid.shownSecond_le (h : t.Valid) : t.shownSecond ≤ 60 := by
  have hsecond := h.second
  have hnano := h.nano
  have hleap := h.leap
  unfold shownSecond billion at *
  omega

theorem shownNano_lt (t : Clock) : t.shownNano < billion := Nat.mod_lt _ (by decide)

theorem valid_of_of? {hour minute second fraction : ℕ} (hfraction : fraction < billion)
    (ht : of? hour minute second fraction = some t) : t.Valid := by
  unfold of? at ht
  obtain ⟨⟨hhour, hminute, hsecond⟩, ht⟩ := Option.ite_none_right_eq_some.mp ht
  obtain rfl := Option.some.inj ht
  unfold billion at hfraction
  split
  · exact ⟨hhour, hminute, Nat.lt_succ_self 59, by simp only [billion]; omega, fun _ => rfl⟩
  · exact ⟨hhour, hminute, by dsimp only; omega, by simp only [billion]; omega,
      by simp only [billion]; omega⟩

/-- A time is the one that its clock shows. -/
theorem of?_shown (h : t.Valid) : of? t.hour t.minute t.shownSecond t.shownNano = some t := by
  unfold of?
  rw [if_pos ⟨h.hour, h.minute, h.shownSecond_le⟩]
  have hsecond := h.second
  have hnano := h.nano
  have hleap := h.leap
  -- a billion nanoseconds or more are those of a leap second
  unfold shownSecond shownNano billion at *
  by_cases hplain : t.nano < 1000000000
  · rw [Nat.div_eq_of_lt hplain, Nat.mod_eq_of_lt hplain, if_neg (by omega), Nat.add_zero]
  · have hfifty := hleap (Nat.le_of_not_lt hplain)
    have hsum : 1000000000 + t.nano % 1000000000 = t.nano := by omega
    rw [if_pos (by omega), hsum, ← hfifty]

end Clock

/-! ## Dates with times -/

/-- The date and the time exist. -/
structure DateTime.Valid (t : DateTime) : Prop where
  date : t.date.isValid = true
  clock : t.clock.Valid

/-- The date and the time exist, and the offset is less than a day. -/
structure Moment.Valid (t : Moment) : Prop where
  here : t.here.Valid
  offset : t.offset.natAbs < 1440

/-- A clock that is turned by less than a day shows a time that exists, unless the calendar begins
or ends there. -/
theorem DateTime.shift_valid {t : DateTime} (h : t.Valid) (hmin : Date.minYear < t.date.year)
    (hmax : t.date.year < Date.maxYear) (minutes : ℤ) : (t.shift minutes).Valid := by
  obtain ⟨hdate, hclock⟩ := h
  have hday : (60 * t.clock.hour + t.clock.minute + minutes).toNat % 1440 < 1440 :=
    Nat.mod_lt _ (by decide)
  refine ⟨?_, ?_⟩
  · simp only [shift]
    split
    · exact Date.isValid_previous hdate hmin
    · split
      · exact Date.isValid_next hdate hmax
      · exact hdate
  · simp only [shift]
    exact ⟨by dsimp only; omega, by dsimp only; omega, hclock.second, hclock.nano, hclock.leap⟩

theorem Moment.universal_valid {t : Moment} (h : t.Valid)
    (hyear : 0 ≤ t.here.date.year ∧ t.here.date.year ≤ 9999) : t.universal.Valid :=
  DateTime.shift_valid h.here (by unfold Date.minYear; omega) (by unfold Date.maxYear; omega) _

/-! ## Readers -/

namespace TimeReader

variable {cs rest : List Char} {n : ℕ} {t : DateTime}

theorem isDigit_of_mem_leadingDigits {most : ℕ} {c : Char} (hc : c ∈ leadingDigits most cs) :
    c.isDigit = true :=
  List.all_eq_true.mp List.all_takeWhile c hc

theorem length_leadingDigits_le (most : ℕ) (cs : List Char) :
    (leadingDigits most cs).length ≤ most :=
  Nat.le_trans (List.takeWhile_sublist _).length_le (List.length_take_le ..)

theorem digits_lt {least most : ℕ} (h : digits least most cs = some (n, rest)) : n < 10 ^ most := by
  unfold digits at h
  obtain ⟨-, h⟩ := Option.ite_none_left_eq_some.mp h
  obtain ⟨rfl, -⟩ := Prod.mk.inj (Option.some.inj h)
  exact Nat.lt_of_lt_of_le (Text.number_lt fun _ => isDigit_of_mem_leadingDigits)
    (Nat.pow_le_pow_right (by decide) (length_leadingDigits_le most cs))

theorem fraction_lt (h : fraction cs = some (n, rest)) : n < Clock.billion := by
  unfold fraction at h
  split at h
  · next cs =>
    obtain ⟨-, h⟩ := Option.ite_none_left_eq_some.mp h
    obtain ⟨rfl, -⟩ := Prod.mk.inj (Option.some.inj h)
    have hdigits : ∀ c ∈ leadingDigits 9 cs ++ List.replicate (9 - (leadingDigits 9 cs).length) '0',
        c.isDigit = true := by
      rw [List.forall_mem_append]
      exact ⟨fun _ => isDigit_of_mem_leadingDigits,
        fun c hc => by rw [List.eq_of_mem_replicate hc]; rfl⟩
    have hlt := Text.number_lt hdigits
    rw [List.length_append, List.length_replicate,
      Nat.add_sub_cancel' (length_leadingDigits_le 9 cs)] at hlt
    exact hlt
  · obtain ⟨rfl, -⟩ := Prod.mk.inj (Option.some.inj h)
    decide

theorem valid_of_lenientClock {clock : Clock} (h : lenientClock cs = some (clock, rest)) :
    clock.Valid := by
  unfold lenientClock at h
  obtain ⟨⟨hour, _⟩, -, h⟩ := Option.bind_eq_some_iff.mp h
  obtain ⟨⟨_, _⟩, -, h⟩ := Option.bind_eq_some_iff.mp h
  obtain ⟨⟨minute, _⟩, -, h⟩ := Option.bind_eq_some_iff.mp h
  obtain ⟨⟨_, _⟩, -, h⟩ := Option.bind_eq_some_iff.mp h
  obtain ⟨⟨second, _⟩, -, h⟩ := Option.bind_eq_some_iff.mp h
  obtain ⟨⟨nano, _⟩, hnano, h⟩ := Option.bind_eq_some_iff.mp h
  obtain ⟨found, hfound, h⟩ := Option.bind_eq_some_iff.mp h
  obtain ⟨rfl, -⟩ := Prod.mk.inj (Option.some.inj h)
  exact Clock.valid_of_of? (fraction_lt hnano) hfound

theorem complete_eq_some_iff {α : Type} {found : Option (α × List Char)} {value : α} :
    complete found = some value ↔ found = some (value, []) := by
  unfold complete
  split <;> simp_all

theorem isValid_of_dateOnly? {d : Date} (h : dateOnly? cs = some d) : d.isValid = true := by
  obtain ⟨⟨year, month, day⟩, -, h⟩ := Option.bind_eq_some_iff.mp h
  exact (Date.of?_eq_some_iff.mp h).2

theorem valid_of_dateTimeWith? {separator : List Char → Option (List Char)}
    (h : dateTimeWith? separator cs = some t) : t.Valid := by
  obtain ⟨⟨⟨year, month, day⟩, behind⟩, -, h⟩ := Option.bind_eq_some_iff.mp h
  obtain ⟨behind, -, h⟩ := Option.bind_eq_some_iff.mp h
  obtain ⟨clock, hclock, h⟩ := Option.bind_eq_some_iff.mp h
  obtain ⟨date, hdate, h⟩ := Option.bind_eq_some_iff.mp h
  obtain rfl := Option.some.inj h
  exact ⟨(Date.of?_eq_some_iff.mp hdate).2, valid_of_lenientClock (complete_eq_some_iff.mp hclock)⟩

theorem offset_lt {minutes : ℤ} (h : offset cs = some (minutes, rest)) : minutes.natAbs < 1440 := by
  unfold offset at h
  split at h
  · obtain ⟨rfl, -⟩ := Prod.mk.inj (Option.some.inj h)
    decide
  · obtain ⟨rfl, -⟩ := Prod.mk.inj (Option.some.inj h)
    decide
  · obtain ⟨⟨factor, _⟩, hsign, h⟩ := Option.bind_eq_some_iff.mp h
    obtain ⟨⟨hours, _⟩, -, h⟩ := Option.bind_eq_some_iff.mp h
    obtain ⟨⟨_, _⟩, -, h⟩ := Option.bind_eq_some_iff.mp h
    obtain ⟨⟨minutes, _⟩, -, h⟩ := Option.bind_eq_some_iff.mp h
    obtain ⟨hbounds, h⟩ := Option.ite_none_right_eq_some.mp h
    obtain ⟨rfl, -⟩ := Prod.mk.inj (Option.some.inj h)
    have hfactor : factor.natAbs = 1 := by
      unfold sign at hsign
      split at hsign
      all_goals simp only [Option.some.injEq, Prod.mk.injEq, reduceCtorEq] at hsign
      all_goals
        rw [← hsign.1]
        rfl
    rw [Int.natAbs_mul, hfactor, Int.natAbs_natCast]
    omega

/-! ### Strict notation -/

/-- The numbers of a date in strict notation. -/
def strictDate (cs : List Char) : Option ((ℕ × ℕ × ℕ) × List Char) := do
  let (year, cs) ← digits 4 4 cs
  let (_, cs) ← char '-' cs
  let (month, cs) ← digits 2 2 cs
  let (_, cs) ← char '-' cs
  let (day, cs) ← digits 2 2 cs
  return ((year, month, day), cs)

/-- The mark between date and time in strict notation. -/
def afterStrictMark : List Char → Option (List Char)
  | 'T' :: rest | 't' :: rest | ' ' :: rest => some rest
  | _ => none

/-- The numbers of a time in strict notation. -/
def strictClock (cs : List Char) : Option ((ℕ × ℕ × ℕ × ℕ) × List Char) := do
  let (hour, cs) ← digits 2 2 cs
  let (_, cs) ← char ':' cs
  let (minute, cs) ← digits 2 2 cs
  let (_, cs) ← char ':' cs
  let (second, cs) ← digits 2 2 cs
  let (nano, cs) ← fraction cs
  return ((hour, minute, second, nano), cs)

/-- A moment in strict notation is a date, a mark, a time and an offset. -/
theorem moment?_eq (cs : List Char) :
    moment? cs = (do
      let ((year, month, day), cs) ← strictDate cs
      let cs ← afterStrictMark cs
      let ((hour, minute, second, nano), cs) ← strictClock cs
      let offset ← complete (offset cs)
      return ⟨⟨← Date.of? year month day, ← Clock.of? hour minute second nano⟩, offset⟩) := by
  unfold strictDate strictClock
  simp only [bind_assoc, pure_bind]
  refine bind_congr fun ⟨year, cs⟩ => bind_congr fun ⟨_, cs⟩ => bind_congr fun ⟨month, cs⟩ =>
    bind_congr fun ⟨_, cs⟩ => bind_congr fun ⟨day, cs⟩ => ?_
  dsimp only
  split <;> simp [afterStrictMark, *]

theorem year_of_strictDate {year month day : ℕ}
    (h : strictDate cs = some ((year, month, day), rest)) : year < 10 ^ 4 := by
  obtain ⟨⟨found, _⟩, hyear, h⟩ := Option.bind_eq_some_iff.mp h
  obtain ⟨⟨_, _⟩, -, h⟩ := Option.bind_eq_some_iff.mp h
  obtain ⟨⟨_, _⟩, -, h⟩ := Option.bind_eq_some_iff.mp h
  obtain ⟨⟨_, _⟩, -, h⟩ := Option.bind_eq_some_iff.mp h
  obtain ⟨⟨_, _⟩, -, h⟩ := Option.bind_eq_some_iff.mp h
  obtain ⟨hnumbers, -⟩ := Prod.mk.inj (Option.some.inj h)
  obtain ⟨rfl, -⟩ := Prod.mk.inj hnumbers
  exact digits_lt hyear

theorem nano_of_strictClock {hour minute second nano : ℕ}
    (h : strictClock cs = some ((hour, minute, second, nano), rest)) : nano < Clock.billion := by
  obtain ⟨⟨_, _⟩, -, h⟩ := Option.bind_eq_some_iff.mp h
  obtain ⟨⟨_, _⟩, -, h⟩ := Option.bind_eq_some_iff.mp h
  obtain ⟨⟨_, _⟩, -, h⟩ := Option.bind_eq_some_iff.mp h
  obtain ⟨⟨_, _⟩, -, h⟩ := Option.bind_eq_some_iff.mp h
  obtain ⟨⟨_, _⟩, -, h⟩ := Option.bind_eq_some_iff.mp h
  obtain ⟨⟨found, _⟩, hnano, h⟩ := Option.bind_eq_some_iff.mp h
  obtain ⟨hnumbers, -⟩ := Prod.mk.inj (Option.some.inj h)
  simp only [Prod.mk.injEq] at hnumbers
  obtain ⟨-, -, -, rfl⟩ := hnumbers
  exact fraction_lt hnano

/-- A moment in strict notation exists, and its year has four digits. -/
theorem valid_of_moment? {t : Moment} (h : moment? cs = some t) :
    t.Valid ∧ 0 ≤ t.here.date.year ∧ t.here.date.year ≤ 9999 := by
  rw [moment?_eq] at h
  obtain ⟨⟨⟨year, month, day⟩, rest⟩, hnumbers, h⟩ := Option.bind_eq_some_iff.mp h
  obtain ⟨behind, -, h⟩ := Option.bind_eq_some_iff.mp h
  obtain ⟨⟨⟨hour, minute, second, nano⟩, tail⟩, htime, h⟩ := Option.bind_eq_some_iff.mp h
  obtain ⟨minutes, hminutes, h⟩ := Option.bind_eq_some_iff.mp h
  obtain ⟨date, hdate, h⟩ := Option.bind_eq_some_iff.mp h
  obtain ⟨clock, hclock, h⟩ := Option.bind_eq_some_iff.mp h
  obtain rfl := Option.some.inj h
  obtain ⟨rfl, hvalid⟩ := Date.of?_eq_some_iff.mp hdate
  have hyear := year_of_strictDate hnumbers
  have hclockValid := Clock.valid_of_of? (nano_of_strictClock htime) hclock
  have hoffset := offset_lt (complete_eq_some_iff.mp hminutes)
  exact ⟨⟨⟨hvalid, hclockValid⟩, hoffset⟩, Int.natCast_nonneg _, by dsimp only; omega⟩

end TimeReader

open TimeReader

/-! ## Values that are read -/

theorem DateTime.valid_of_read? {text : String} {t : DateTime} (h : DateTime.read? text = some t) :
    t.Valid := by
  unfold read? at h
  simp only [Option.orElse_eq_orElse, Option.orElse_eq_or, Option.or_eq_some_iff,
    Option.map_eq_some_iff] at h
  rcases h with h | ⟨-, h | ⟨-, ⟨moment, h, rfl⟩ | ⟨-, date, h, rfl⟩⟩⟩
  · exact valid_of_dateTimeWith? h
  · exact valid_of_dateTimeWith? h
  · obtain ⟨hvalid, hyear⟩ := valid_of_moment? h
    exact Moment.universal_valid hvalid hyear
  · exact ⟨isValid_of_dateOnly? h, Clock.valid_midnight⟩

theorem Date.valid_of_read? {text : String} {d : Date} (h : Date.read? text = some d) :
    d.isValid = true := by
  unfold read? at h
  simp only [Option.orElse_eq_orElse, Option.orElse_eq_or, Option.or_eq_some_iff,
    Option.map_eq_some_iff] at h
  rcases h with h | ⟨-, t, h, rfl⟩
  · exact isValid_of_dateOnly? h
  · exact (DateTime.valid_of_read? h).date

theorem Moment.valid_of_read? {text : String} {t : Moment} (h : Moment.read? text = some t) :
    t.Valid := by
  unfold read? at h
  simp only [Option.orElse_eq_orElse, Option.orElse_eq_or, Option.or_eq_some_iff,
    Option.map_eq_some_iff] at h
  rcases h with h | ⟨-, t, h, rfl⟩
  · exact (valid_of_moment? h).1
  · exact ⟨DateTime.valid_of_read? h, Nat.zero_lt_succ _⟩

end EntityQuery
