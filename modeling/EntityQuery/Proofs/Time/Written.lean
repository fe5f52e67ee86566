import EntityQuery.Proofs.Time.Valid
import EntityQuery.Time.Printer

/-!
# Times that are written and read again

A date, or a date with a time, is written in a form that lenient notation reads as the same value
again, whatever the year is.  A moment is written with its offset, which only strict notation takes,
and there the year has four digits: so a moment is read again exactly if its local year needs no
sign.

## Strategy

Every part is read from the front of a text, and what is behind it is left for the next one.  A
number of a fixed number of digits needs nothing of what follows, a year with a sign and a fraction
end at the first character that is not a digit.

## Main statements

* `year_yearText`, `fraction_fractionText`, `offset_offsetText` : parts that are read again
* `Date.read?_text`, `DateTime.read?_text` : dates and times that are read again
* `Moment.read?_text` : moments that are read again
-/

namespace EntityQuery

namespace TimeReader

open Text (padded number)

variable {ds rest : List Char} {least most n : ℕ}

/-! ## Digits -/

/-- No number goes on into the text. -/
def Stops (rest : List Char) : Prop := ∀ c ∈ rest.head?, c.isDigit = false ∧ c ≠ '.'

theorem stops_nil : Stops [] := by simp [Stops]

theorem stops_cons {c : Char} (hc : c.isDigit = false ∧ c ≠ '.') (rest : List Char) :
    Stops (c :: rest) := by
  simpa [Stops] using hc

/-- The digits in front of a text are its leading digits, if no more are asked for or none
follow. -/
theorem leadingDigits_append (hds : ∀ c ∈ ds, c.isDigit = true) (hmost : ds.length ≤ most)
    (hrest : ds.length = most ∨ Stops rest) : leadingDigits most (ds ++ rest) = ds := by
  have hend : (rest.take (most - ds.length)).takeWhile Char.isDigit = [] := by
    rcases hrest with hfull | hstops
    · rw [hfull, Nat.sub_self, List.take_zero, List.takeWhile_nil]
    · cases rest with
      | nil => rw [List.take_nil, List.takeWhile_nil]
      | cons c rest =>
          cases most - ds.length with
          | zero => rfl
          | succ k =>
              rw [List.take_succ_cons, List.takeWhile_cons_of_neg (by simp [(hstops c rfl).1])]
  rw [leadingDigits, List.take_append, List.take_of_length_le hmost,
    List.takeWhile_append_of_pos hds, hend, List.append_nil]

theorem digits_append (hds : ∀ c ∈ ds, c.isDigit = true) (hleast : least ≤ ds.length)
    (hmost : ds.length ≤ most) (hrest : ds.length = most ∨ Stops rest) :
    digits least most (ds ++ rest) = some (number ds, rest) := by
  unfold digits
  dsimp only
  rw [leadingDigits_append hds hmost hrest, if_neg (Nat.not_lt.mpr hleast), List.drop_left]

theorem digits_padded (hmost : 0 < most) (hleast : least ≤ most) (hn : n < 10 ^ most)
    (rest : List Char) : digits least most ((padded most n).toList ++ rest) = some (n, rest) := by
  have hlength := Text.length_padded hmost hn
  rw [digits_append (fun _ => Text.isDigit_of_mem_padded)
    (Nat.le_trans hleast (Nat.le_of_eq hlength.symm)) (Nat.le_of_eq hlength) (.inl hlength),
    Text.number_padded]

theorem isBlank_of_isDigit {c : Char} (hc : c.isDigit = true) : Text.isBlank c = false := by
  have hcode := Char.isDigit_iff_toNat.mp hc
  have hnine : '9'.toNat = 57 := rfl
  have hzero : '0'.toNat = 48 := rfl
  simp only [Text.isBlank, Bool.or_eq_false_iff, Bool.and_eq_false_iff, decide_eq_false_iff_not,
    beq_eq_false_iff_ne]
  omega

theorem dropWhile_isBlank_padded (width n : ℕ) (hwidth : 0 < width) (rest : List Char) :
    ((padded width n).toList ++ rest).dropWhile Text.isBlank = (padded width n).toList ++ rest := by
  obtain ⟨c, cs, hcs⟩ :=
    List.exists_cons_of_length_pos (Nat.lt_of_lt_of_le hwidth (Text.le_length_padded width n))
  have hdigit : c.isDigit = true := Text.isDigit_of_mem_padded (hcs ▸ List.mem_cons_self ..)
  rw [hcs, List.cons_append, List.dropWhile_cons_of_neg (by simp [isBlank_of_isDigit hdigit])]

theorem shortNumber_padded (hn : n < 100) (rest : List Char) :
    shortNumber ((padded 2 n).toList ++ rest) = some (n, rest) := by
  rw [shortNumber, dropWhile_isBlank_padded 2 n (by decide),
    digits_padded (by decide) (by decide) hn]

theorem twoDigits_padded (hn : n < 100) (rest : List Char) :
    digits 2 2 ((padded 2 n).toList ++ rest) = some (n, rest) :=
  digits_padded (by decide) (by decide) hn rest

theorem char_cons (c : Char) (rest : List Char) : char c (c :: rest) = some ((), rest) := if_pos rfl

/-! ## Parts of a time -/

theorem year_minus (rest : List Char) :
    year ('-' :: rest) = (digits 1 rest.length rest).map fun (n, rest) => (-(n : ℤ), rest) := rfl

theorem year_plus (rest : List Char) :
    year ('+' :: rest) = (digits 1 rest.length rest).map fun (n, rest) => ((n : ℤ), rest) := rfl

/-- Without a sign there are at most four digits. -/
theorem year_padded (width n : ℕ) (hwidth : 0 < width) (rest : List Char) :
    year ((padded width n).toList ++ rest) =
      (digits 1 4 ((padded width n).toList ++ rest)).map fun (n, rest) => ((n : ℤ), rest) := by
  obtain ⟨c, cs, hcs⟩ :=
    List.exists_cons_of_length_pos (Nat.lt_of_lt_of_le hwidth (Text.le_length_padded width n))
  have hdigit : c.isDigit = true := Text.isDigit_of_mem_padded (hcs ▸ List.mem_cons_self ..)
  rw [year, dropWhile_isBlank_padded width n hwidth, hcs, List.cons_append]
  split
  · next heq =>
    obtain ⟨rfl, -⟩ := List.cons.inj heq
    exact absurd hdigit (by decide)
  · next heq =>
    obtain ⟨rfl, -⟩ := List.cons.inj heq
    exact absurd hdigit (by decide)
  · rfl

/-- A year is read again in front of a hyphen. -/
theorem year_yearText (y : ℤ) (rest : List Char) :
    year ((Date.yearText y).toList ++ '-' :: rest) = some (y, '-' :: rest) := by
  have hstops : Stops ('-' :: rest) := stops_cons (by decide) rest
  -- with a sign, the digits go on to the hyphen
  have hsigned : digits 1 ((padded 4 y.natAbs).toList ++ '-' :: rest).length
      ((padded 4 y.natAbs).toList ++ '-' :: rest) = some (y.natAbs, '-' :: rest) := by
    rw [digits_append (fun _ => Text.isDigit_of_mem_padded)
      (Nat.le_trans (by decide) (Text.le_length_padded ..))
      (by simp) (.inr hstops), Text.number_padded]
  unfold Date.yearText
  split
  · next hplain =>
    rw [year_padded 4 _ (by decide), digits_padded (by decide) (by decide) (by omega),
      Option.map_some]
    simp only [Int.toNat_of_nonneg hplain.1]
  · split
    · next hneg =>
      have htext : ("-" ++ padded 4 y.natAbs).toList ++ '-' :: rest =
          '-' :: ((padded 4 y.natAbs).toList ++ '-' :: rest) := by simp
      rw [htext, year_minus, hsigned, Option.map_some]
      simp only [Int.ofNat_natAbs_of_nonpos (Int.le_of_lt hneg), Int.neg_neg]
    · next hpos =>
      have htext : ("+" ++ padded 4 y.natAbs).toList ++ '-' :: rest =
          '+' :: ((padded 4 y.natAbs).toList ++ '-' :: rest) := by simp
      rw [htext, year_plus, hsigned, Option.map_some]
      simp only [Int.natAbs_of_nonneg (Int.not_lt.mp hpos)]

theorem fraction_point (cs : List Char) :
    fraction ('.' :: cs) =
      if (leadingDigits 9 cs).isEmpty then none
      else some
        (number (leadingDigits 9 cs ++ List.replicate (9 - (leadingDigits 9 cs).length) '0'),
        cs.dropWhile Char.isDigit) := rfl

theorem fraction_digits (hds : ∀ c ∈ ds, c.isDigit = true) (hne : ds ≠ []) (hlength : ds.length ≤ 9)
    (hrest : Stops rest) :
    fraction ('.' :: (ds ++ rest)) = some (10 ^ (9 - ds.length) * number ds, rest) := by
  have hdrop : (ds ++ rest).dropWhile Char.isDigit = rest := by
    rw [List.dropWhile_append_of_pos hds]
    cases rest with
    | nil => rfl
    | cons c rest => exact List.dropWhile_cons_of_neg (by simp [(hrest c rfl).1])
  rw [fraction_point, leadingDigits_append hds hlength (.inr hrest), if_neg (by simpa using hne),
    Text.number_append_zeros, hdrop]

/-- A fraction is read again. -/
theorem fraction_fractionText (hn : n < Clock.billion) (hrest : Stops rest) :
    fraction ((Clock.fractionText n).toList ++ rest) = some (n, rest) := by
  have hpart (width k : ℕ) (hwidth : 0 < width) (hle : width ≤ 9) (hk : k < 10 ^ width) :
      fraction (("." ++ padded width k).toList ++ rest) = some (10 ^ (9 - width) * k, rest) := by
    have hlength := Text.length_padded hwidth hk
    have hne : (padded width k).toList ≠ [] :=
      List.ne_nil_of_length_pos (Nat.lt_of_lt_of_eq hwidth hlength.symm)
    have htext : ("." ++ padded width k).toList ++ rest =
        '.' :: ((padded width k).toList ++ rest) := by simp
    rw [htext,
      fraction_digits (fun _ => Text.isDigit_of_mem_padded) hne
        (Nat.le_trans (Nat.le_of_eq hlength) hle) hrest,
      Text.number_padded, hlength]
  unfold Clock.billion at hn
  unfold Clock.fractionText
  split
  · next hzero =>
    subst hzero
    change fraction rest = _
    unfold fraction
    split
    · exact absurd rfl (hrest '.' rfl).2
    · rfl
  · split
    · rw [hpart 3 _ (by decide) (by decide) (by omega), Option.some.injEq, Prod.mk.injEq]
      exact ⟨by omega, rfl⟩
    · split
      · rw [hpart 6 _ (by decide) (by decide) (by omega), Option.some.injEq, Prod.mk.injEq]
        exact ⟨by omega, rfl⟩
      · rw [hpart 9 _ (by decide) (by decide) (by omega), Nat.sub_self, Nat.pow_zero, Nat.one_mul]

theorem offset_plus (cs : List Char) :
    offset ('+' :: cs) = (do
      let (hours, cs) ← digits 2 2 cs
      let (_, cs) ← char ':' cs
      let (minutes, cs) ← digits 2 2 cs
      if hours < 24 ∧ minutes < 60 then some (1 * ((60 * hours + minutes : ℕ) : ℤ), cs)
      else none) := rfl

theorem offset_minus (cs : List Char) :
    offset ('-' :: cs) = (do
      let (hours, cs) ← digits 2 2 cs
      let (_, cs) ← char ':' cs
      let (minutes, cs) ← digits 2 2 cs
      if hours < 24 ∧ minutes < 60 then some (-1 * ((60 * hours + minutes : ℕ) : ℤ), cs)
      else none) := rfl

/-- An offset of less than a day is read again. -/
theorem offset_offsetText {minutes : ℤ} (h : minutes.natAbs < 1440) :
    offset (Moment.offsetText minutes).toList = some (minutes, []) := by
  have hhours : minutes.natAbs / 60 < 24 := by omega
  have hminutes : minutes.natAbs % 60 < 60 := Nat.mod_lt _ (by decide)
  have hsum : 60 * (minutes.natAbs / 60) + minutes.natAbs % 60 = minutes.natAbs :=
    Nat.div_add_mod ..
  have hlast : digits 2 2 (padded 2 (minutes.natAbs % 60)).toList =
      some (minutes.natAbs % 60, []) := by
    simpa using twoDigits_padded (show minutes.natAbs % 60 < 100 by omega) []
  unfold Moment.offsetText
  split
  · next hneg =>
    have htext :
        ("-" ++ padded 2 (minutes.natAbs / 60) ++ ":" ++ padded 2 (minutes.natAbs % 60)).toList =
        '-' ::
          ((padded 2 (minutes.natAbs / 60)).toList ++ ':' ::
            (padded 2 (minutes.natAbs % 60)).toList) := by simp
    rw [htext, offset_minus, twoDigits_padded (by omega)]
    simp only [Option.bind_eq_bind, Option.bind_some, char_cons, hlast, hhours, hminutes, and_self,
      if_true, hsum, Int.ofNat_natAbs_of_nonpos (Int.le_of_lt hneg), Int.neg_one_mul, Int.neg_neg]
  · next hpos =>
    have htext :
        ("+" ++ padded 2 (minutes.natAbs / 60) ++ ":" ++ padded 2 (minutes.natAbs % 60)).toList =
        '+' ::
          ((padded 2 (minutes.natAbs / 60)).toList ++ ':' ::
            (padded 2 (minutes.natAbs % 60)).toList) := by simp
    rw [htext, offset_plus, twoDigits_padded (by omega)]
    simp only [Option.bind_eq_bind, Option.bind_some, char_cons, hlast, hhours, hminutes, and_self,
      if_true, hsum, Int.natAbs_of_nonneg (Int.not_lt.mp hpos), Int.one_mul]

/-! ## Dates and times of day -/

theorem toList_dateText (d : Date) (rest : List Char) :
    d.text.toList ++ rest = (Date.yearText d.year).toList ++
      '-' :: ((padded 2 d.month).toList ++ '-' :: ((padded 2 d.day).toList ++ rest)) := by
  simp [Date.text]

theorem toList_clockText (t : Clock) (rest : List Char) :
    t.text.toList ++ rest =
      (padded 2 t.hour).toList ++ ':' :: ((padded 2 t.minute).toList ++ ':' ::
        ((padded 2 t.shownSecond).toList ++
          ((Clock.fractionText t.shownNano).toList ++ rest))) := by
  simp [Clock.text]

theorem lenientDate_text {d : Date} (h : d.isValid = true) (rest : List Char) :
    lenientDate (d.text.toList ++ rest) = some ((d.year, d.month, d.day), rest) := by
  have hmonth := Date.month_of_isValid h
  have hday := Date.day_of_isValid h
  rw [toList_dateText, lenientDate, year_yearText]
  simp only [Option.bind_eq_bind, Option.bind_some, char_cons,
    shortNumber_padded (show d.month < 100 by omega),
    shortNumber_padded (show d.day < 100 by omega), Option.pure_def]

theorem lenientClock_text {t : Clock} (h : t.Valid) (hrest : Stops rest) :
    lenientClock (t.text.toList ++ rest) = some (t, rest) := by
  have hhour := h.hour
  have hminute := h.minute
  have hsecond := h.shownSecond_le
  rw [toList_clockText, lenientClock, shortNumber_padded (by omega)]
  simp only [Option.bind_eq_bind, Option.bind_some, char_cons,
    shortNumber_padded (show t.minute < 100 by omega),
    shortNumber_padded (show t.shownSecond < 100 by omega),
    fraction_fractionText t.shownNano_lt hrest, Clock.of?_shown h, Option.pure_def]

theorem strictDate_text {d : Date} (h : d.isValid = true) (hyear : 0 ≤ d.year ∧ d.year ≤ 9999)
    (rest : List Char) :
    strictDate (d.text.toList ++ rest) = some ((d.year.toNat, d.month, d.day), rest) := by
  have hmonth := Date.month_of_isValid h
  have hday := Date.day_of_isValid h
  rw [toList_dateText, strictDate, Date.yearText, if_pos hyear,
    digits_padded (by decide) (by decide) (by omega)]
  simp only [Option.bind_eq_bind, Option.bind_some, char_cons,
    twoDigits_padded (show d.month < 100 by omega), twoDigits_padded (show d.day < 100 by omega),
    Option.pure_def]

theorem strictClock_text {t : Clock} (h : t.Valid) (hrest : Stops rest) :
    strictClock (t.text.toList ++ rest) =
      some ((t.hour, t.minute, t.shownSecond, t.shownNano), rest) := by
  have hhour := h.hour
  have hminute := h.minute
  have hsecond := h.shownSecond_le
  rw [toList_clockText, strictClock, twoDigits_padded (by omega)]
  simp only [Option.bind_eq_bind, Option.bind_some, char_cons,
    twoDigits_padded (show t.minute < 100 by omega),
    twoDigits_padded (show t.shownSecond < 100 by omega),
    fraction_fractionText t.shownNano_lt hrest, Option.pure_def]

/-! ## Dates with times -/

theorem toList_dateTimeText (t : DateTime) (rest : List Char) :
    (t.text "T").toList ++ rest = t.date.text.toList ++ 'T' :: (t.clock.text.toList ++ rest) := by
  simp [DateTime.text]

theorem afterMark_cons (rest : List Char) : afterMark ('T' :: rest) = some rest := rfl

theorem dateOnly?_text {d : Date} (h : d.isValid = true) : dateOnly? d.text.toList = some d := by
  have hread := lenientDate_text h []
  rw [List.append_nil] at hread
  rw [dateOnly?, hread]
  exact Date.of?_eq_some_iff.mpr ⟨rfl, h⟩

theorem dateTimeWith?_text {t : DateTime} (h : t.Valid) :
    dateTimeWith? afterMark (t.text "T").toList = some t := by
  have hclock := lenientClock_text h.clock stops_nil
  rw [List.append_nil] at hclock
  have htext := toList_dateTimeText t []
  rw [List.append_nil, List.append_nil] at htext
  rw [dateTimeWith?, htext, lenientDate_text h.date]
  simp only [Option.bind_eq_bind, Option.bind_some, afterMark_cons, hclock, complete,
    Date.of?_eq_some_iff.mpr ⟨rfl, h.date⟩, Option.pure_def]

/-! ## Moments -/

theorem toList_momentText (t : Moment) :
    t.text.toList =
      t.here.date.text.toList ++ 'T' ::
        (t.here.clock.text.toList ++ (Moment.offsetText t.offset).toList) := by
  simp [Moment.text, DateTime.text]

theorem exists_offsetText (minutes : ℤ) :
    ∃ c rest, (Moment.offsetText minutes).toList = c :: rest ∧ c.isDigit = false ∧ c ≠ '.' := by
  unfold Moment.offsetText
  split
  · exact ⟨'-', (padded 2 (minutes.natAbs / 60)).toList ++ ':' ::
      (padded 2 (minutes.natAbs % 60)).toList, by simp,
      by decide, by decide⟩
  · exact ⟨'+', (padded 2 (minutes.natAbs / 60)).toList ++ ':' ::
      (padded 2 (minutes.natAbs % 60)).toList, by simp,
      by decide, by decide⟩

theorem stops_offsetText (minutes : ℤ) : Stops (Moment.offsetText minutes).toList := by
  obtain ⟨c, rest, htext, hc⟩ := exists_offsetText minutes
  rw [htext]
  exact stops_cons hc rest

theorem moment?_text {t : Moment} (h : t.Valid)
    (hyear : 0 ≤ t.here.date.year ∧ t.here.date.year ≤ 9999) : moment? t.text.toList = some t := by
  have hmark (rest : List Char) : afterStrictMark ('T' :: rest) = some rest := rfl
  have hdate : Date.of? t.here.date.year t.here.date.month t.here.date.day = some t.here.date :=
    Date.of?_eq_some_iff.mpr ⟨rfl, h.here.date⟩
  rw [moment?_eq, toList_momentText, strictDate_text h.here.date hyear]
  simp only [Option.bind_eq_bind, Option.bind_some, hmark,
    strictClock_text h.here.clock (stops_offsetText _), offset_offsetText h.offset, complete,
    Int.toNat_of_nonneg hyear.1, hdate, Clock.of?_shown h.here.clock, Option.pure_def]

theorem moment?_cons {c : Char} (hc : c.isDigit = false) (cs : List Char) :
    moment? (c :: cs) = none := by
  have hdigits : digits 4 4 (c :: cs) = none := by simp [digits, leadingDigits, hc]
  rw [moment?, hdigits]
  rfl

theorem moment?_text_of_signed {t : Moment}
    (hyear : ¬ (0 ≤ t.here.date.year ∧ t.here.date.year ≤ 9999)) :
    moment? t.text.toList = none := by
  rw [toList_momentText, toList_dateText, Date.yearText, if_neg hyear]
  split
  · rw [String.toList_append]
    exact moment?_cons (by decide) _
  · rw [String.toList_append]
    exact moment?_cons (by decide) _

/-- In lenient notation nothing follows a time, so a text with an offset is not read. -/
theorem dateTimeWith?_momentText {t : Moment} (h : t.Valid) :
    dateTimeWith? afterMark t.text.toList = none ∧ dateTimeWith? afterBlanks t.text.toList = none ∧
      dateOnly? t.text.toList = none := by
  obtain ⟨c, rest, hoffset, hc, -⟩ := exists_offsetText t.offset
  have hclock := lenientClock_text h.here.clock (stops_offsetText t.offset)
  rw [hoffset] at hclock
  rw [toList_momentText, hoffset]
  refine ⟨?_, ?_, ?_⟩
  · rw [dateTimeWith?, lenientDate_text h.here.date]
    simp only [Option.bind_eq_bind, Option.bind_some, afterMark_cons, hclock, complete,
      Option.bind_none]
  · have hblanks (cs : List Char) : afterBlanks ('T' :: cs) = some ('T' :: cs) := rfl
    have hmark (cs : List Char) : lenientClock ('T' :: cs) = none := rfl
    rw [dateTimeWith?, lenientDate_text h.here.date]
    simp only [Option.bind_eq_bind, Option.bind_some, hblanks, hmark, complete, Option.bind_none]
  · rw [dateOnly?, lenientDate_text h.here.date]
    rfl

end TimeReader

open TimeReader

/-! ## Values that are written -/

/-- A date and time that exists is read again. -/
theorem DateTime.read?_text {t : DateTime} (h : t.Valid) :
    DateTime.read? (t.text "T") = some t := by
  rw [read?, dateTimeWith?_text h]
  rfl

/-- A date that exists is read again. -/
theorem Date.read?_text {d : Date} (h : d.isValid = true) : Date.read? d.text = some d := by
  rw [read?, dateOnly?_text h]
  rfl

/-- A moment that exists is read again exactly if its local year is written without a sign. -/
theorem Moment.read?_text {t : Moment} (h : t.Valid) :
    Moment.read? t.text =
      if 0 ≤ t.here.date.year ∧ t.here.date.year ≤ 9999 then some t else none := by
  split
  · next hyear =>
    rw [read?, moment?_text h hyear]
    rfl
  · next hyear =>
    obtain ⟨hmark, hblanks, hdate⟩ := dateTimeWith?_momentText h
    rw [read?, DateTime.read?]
    simp only [moment?_text_of_signed hyear, hmark, hblanks, hdate]
    rfl

end EntityQuery
