import CourseDb.Lib.Calendar
import CourseDb.Lib.Decimal
import CourseDb.Parser.Parser

/-! # The timestamps of REVERT

With `mktime` taken as the conversion of a UTC date of the Gregorian calendar
into seconds, a timestamp stands for the moment it names if the month has that
day. The parser accepts every day up to the 31st of every month, and a day that
a month does not have becomes one of the next month.
-/

namespace CourseDb

open Decimal (fixed)
open Calendar (monthStart dateOf yearOf)

structure TimeFields where
  year : ℕ
  month : ℕ
  day : ℕ
  hour : ℕ
  minute : ℕ
  second : ℕ
  millis : ℕ
deriving DecidableEq

namespace TimeFields

/-- What the parser checks, and what the number of digits implies. -/
structure InRange (f : TimeFields) : Prop where
  year_lt : f.year < 10000
  month_pos : 1 ≤ f.month
  month_le : f.month ≤ 12
  day_pos : 1 ≤ f.day
  day_le : f.day ≤ 31
  hour_le : f.hour ≤ 23
  minute_le : f.minute ≤ 59
  second_le : f.second ≤ 59
  millis_lt : f.millis < 1000

def date (f : TimeFields) : Calendar.Date := ⟨f.year, f.month - 1, f.day⟩

def tm (f : TimeFields) : Parser.Tm :=
  { year := f.year - 1900, month := f.month - 1, day := f.day, hour := f.hour, minute := f.minute,
    second := f.second }

def printDate (f : TimeFields) : ByteString :=
  fixed 4 f.year ++ (Lexer.dot :: fixed 2 f.month) ++ (Lexer.dot :: fixed 2 f.day)

/-- `yyyy.mm.dd-hh:mm:ss.mmm`. -/
def print (f : TimeFields) : ByteString :=
  f.printDate ++ (Lexer.minus :: fixed 2 f.hour) ++ (Lexer.colon :: fixed 2 f.minute) ++
    (Lexer.colon :: fixed 2 f.second) ++ (Lexer.dot :: fixed 3 f.millis)

theorem print_length (f : TimeFields) : f.print.length = 23 := by
  simp [print, printDate]

end TimeFields

def epochDay : ℤ := Calendar.yearStart 1970

/-- `mktime` for UTC: fields out of range are carried into the next larger ones. -/
def utcMktime : Parser.Mktime := fun tm =>
  let year := tm.year + 1900 + tm.month / 12
  let days := Calendar.yearStart year + monthStart year (tm.month % 12).toNat +
    (tm.day - 1) - epochDay
  let seconds := days * 86400 + tm.hour * 3600 + tm.minute * 60 + tm.second
  if seconds = -1 then none else some seconds

/-- The calendar fields of a moment, in milliseconds since 1970. -/
def timeFieldsOf (timestampMs : ℤ) : TimeFields :=
  let seconds := timestampMs / 1000
  let date := dateOf (seconds / 86400 + epochDay)
  { year := date.year.toNat
    month := date.month + 1
    day := date.day
    hour := (seconds % 86400 / 3600).toNat
    minute := (seconds % 3600 / 60).toNat
    second := (seconds % 60).toNat
    millis := (timestampMs % 1000).toNat }

namespace TimeFields

variable {f g : TimeFields}

/-- The time of the day, on the day of a number. -/
def onDay (f : TimeFields) (day : ℤ) : ℤ :=
  (day * 86400 + f.hour * 3600 + f.minute * 60 + f.second) * 1000 + f.millis

/-- The moment that the fields are converted to. -/
def timestampMs (f : TimeFields) : ℤ := f.onDay (f.date.number - epochDay)

theorem utcMktime_tm {seconds : ℤ} (h : f.InRange) (hconv : utcMktime f.tm = some seconds) :
    seconds * 1000 + f.millis = f.timestampMs := by
  have hyear : ((f.year : ℤ) - 1900 + 1900 + ((f.month : ℤ) - 1) / 12) = f.year := by
    have := h.month_pos
    have := h.month_le
    omega
  have hmonth : (((f.month : ℤ) - 1) % 12).toNat = f.month - 1 := by
    have := h.month_pos
    have := h.month_le
    omega
  unfold utcMktime tm at hconv
  simp only [hyear, hmonth] at hconv
  split_ifs at hconv
  rw [timestampMs, onDay, Calendar.Date.number, date, ← Option.some.inj hconv]

/-- However the days are carried over, they stay in the year. -/
theorem yearOf_number (h : f.InRange) : yearOf f.date.number = f.year := by
  have hnumber := Calendar.Date.number_eq (d := f.date) h.day_pos
  have hyear := Calendar.monthStart_twelve f.year
  have hmonth : monthStart f.year (f.month - 1) ≤ monthStart f.year 11 :=
    Calendar.monthStart_mono (by have := h.month_le; omega)
  have hlast : monthStart f.year 12 = monthStart f.year 11 + 31 := rfl
  have hday := h.day_le
  unfold date at hnumber ⊢
  dsimp only at hnumber
  apply Calendar.yearOf_eq <;> omega

/-- Year and time of the day come back, and so does the number of the day. -/
theorem timeFieldsOf_eq (h : f.InRange) :
    timeFieldsOf f.timestampMs =
      { f with
        month := (dateOf f.date.number).month + 1
        day := (dateOf f.date.number).day } := by
  have hyear : (dateOf f.date.number).year.toNat = f.year := by
    change (yearOf f.date.number).toNat = f.year
    rw [yearOf_number h, Int.toNat_natCast]
  obtain ⟨-, -, -, -, -, hhour, hminute, hsecond, hmillis⟩ := h
  have hseconds : f.timestampMs / 1000 =
      (f.date.number - epochDay) * 86400 + f.hour * 3600 + f.minute * 60 + f.second := by
    unfold timestampMs onDay
    omega
  have hms : f.timestampMs % 1000 = f.millis := by
    unfold timestampMs onDay
    omega
  have hday : ((f.date.number - epochDay) * 86400 + f.hour * 3600 + f.minute * 60 + f.second) /
      86400 + epochDay = f.date.number := by omega
  unfold timeFieldsOf
  simp only [hseconds, hms, hday, hyear, TimeFields.mk.injEq, true_and]
  omega

theorem timeFieldsOf_inRange (h : f.InRange) : (timeFieldsOf f.timestampMs).InRange := by
  have hvalid := Calendar.dateOf_valid f.date.number
  have hday := hvalid.day_le.trans (Calendar.monthLength_le _ _)
  rw [timeFieldsOf_eq h]
  exact ⟨h.year_lt, Nat.le_add_left 1 _, hvalid.month_lt, hvalid.day_pos, hday, h.hour_le,
    h.minute_le, h.second_le, h.millis_lt⟩

/-- The fields come back exactly if the month has the day. -/
theorem timeFieldsOf_timestampMs (h : f.InRange) :
    timeFieldsOf f.timestampMs = f ↔ f.date.Valid := by
  rw [timeFieldsOf_eq h]
  constructor
  · intro heq
    have hmonth := congrArg TimeFields.month heq
    have hday := congrArg TimeFields.day heq
    have hdate : dateOf f.date.number = f.date := by
      apply Calendar.Date.ext
      · exact yearOf_number h
      · exact Nat.eq_sub_of_add_eq hmonth
      · exact hday
    rw [← hdate]
    exact Calendar.dateOf_valid _
  · intro hvalid
    rw [Calendar.dateOf_number hvalid]
    have hmonth : f.month - 1 + 1 = f.month := Nat.sub_add_cancel h.month_pos
    simp only [date, hmonth]

/-! ## Order -/

/-- Texts of the same length are ordered as numbers are. -/
structure Agree (t t' : ByteString) (n n' : ℤ) : Prop where
  length_eq : t.length = t'.length
  lt_iff : t < t' ↔ n < n'
  eq_iff : t = t' ↔ n = n'

namespace Agree

variable {t t' r r' : ByteString} {n n' k k' : ℤ}

theorem digits (w : ℕ) {a b : ℕ} (ha : a < 10 ^ w) (hb : b < 10 ^ w) :
    Agree (fixed w a) (fixed w b) a b := by
  have hva : Decimal.value (fixed w a) = a := by rw [Decimal.value_fixed, Nat.mod_eq_of_lt ha]
  have hvb : Decimal.value (fixed w b) = b := by rw [Decimal.value_fixed, Nat.mod_eq_of_lt hb]
  refine ⟨by simp, ?_, ?_⟩
  · rw [Decimal.lt_iff_value_lt (Decimal.isDigit_fixed w a) (Decimal.isDigit_fixed w b) (by simp),
      hva, hvb, Int.ofNat_lt]
  · rw [Int.ofNat_inj]
    constructor
    · intro heq
      rw [← hva, ← hvb, heq]
    · rintro rfl
      rfl

theorem cons (b : Byte) (h : Agree t t' n n') : Agree (b :: t) (b :: t') n n' := by
  refine ⟨by simp [h.length_eq], ?_, ?_⟩
  · rw [List.cons_lt_cons_iff, ← h.lt_iff]
    simp
  · rw [← h.eq_iff]
    simp

theorem append (h : Agree t t' n n') (h' : Agree r r' k k') {R : ℤ} (hk : 0 ≤ k ∧ k < R)
    (hk' : 0 ≤ k' ∧ k' < R) : Agree (t ++ r) (t' ++ r') (n * R + k) (n' * R + k') := by
  refine ⟨by simp [h.length_eq, h'.length_eq], ?_, ?_⟩
  · rw [Decimal.append_lt_append_iff h.length_eq, Decimal.radix_lt_iff hk hk', h.lt_iff, h.eq_iff,
      h'.lt_iff]
  · constructor
    · intro heq
      obtain ⟨ht, hr⟩ := List.append_inj heq h.length_eq
      rw [h.eq_iff.mp ht, h'.eq_iff.mp hr]
    · intro heq
      have hlt : n * R + k < n' * R + k' ↔ n < n' ∨ n = n' ∧ k < k' := Decimal.radix_lt_iff hk hk'
      have hgt : n' * R + k' < n * R + k ↔ n' < n ∨ n' = n ∧ k' < k := Decimal.radix_lt_iff hk' hk
      rw [h.eq_iff.mpr (by omega), h'.eq_iff.mpr (by omega)]

end Agree

theorem Agree.congr {t t' : ByteString} {n n' m m' : ℤ} (h : Agree t t' n n')
    (hlt : n < n' ↔ m < m') (hgt : n' < n ↔ m' < m) : Agree t t' m m' := by
  refine ⟨h.length_eq, h.lt_iff.trans hlt, h.eq_iff.trans ?_⟩
  omega

section

variable (hf : f.InRange) (hg : g.InRange)
include hf hg

theorem printDate_agree :
    Agree f.printDate g.printDate ((f.year * 100 + f.month) * 100 + f.day)
      ((g.year * 100 + g.month) * 100 + g.day) := by
  obtain ⟨hyear, hmonth, hmonth', -, hday', -⟩ := hf
  obtain ⟨gyear, gmonth, gmonth', -, gday', -⟩ := hg
  have htoMonth := (Agree.digits 4 hyear gyear).append
    ((Agree.digits 2 (a := f.month) (b := g.month) (by omega) (by omega)).cons Lexer.dot)
    (R := 100) (by omega) (by omega)
  exact htoMonth.append
    ((Agree.digits 2 (a := f.day) (b := g.day) (by omega) (by omega)).cons Lexer.dot)
    (R := 100) (by omega) (by omega)

/-- The time of the day is written after the date, in the order of the moments. -/
theorem print_agree {n n' : ℤ} (hdate : Agree f.printDate g.printDate n n') :
    Agree f.print g.print (f.onDay n) (g.onDay n') := by
  obtain ⟨-, -, -, -, -, hhour, hminute, hsecond, hmillis⟩ := hf
  obtain ⟨-, -, -, -, -, ghour, gminute, gsecond, gmillis⟩ := hg
  have htoHour := hdate.append
    ((Agree.digits 2 (a := f.hour) (b := g.hour) (by omega) (by omega)).cons Lexer.minus)
    (R := 24) (by omega) (by omega)
  have htoMinute := htoHour.append
    ((Agree.digits 2 (a := f.minute) (b := g.minute) (by omega) (by omega)).cons Lexer.colon)
    (R := 60) (by omega) (by omega)
  have htoSecond := htoMinute.append
    ((Agree.digits 2 (a := f.second) (b := g.second) (by omega) (by omega)).cons Lexer.colon)
    (R := 60) (by omega) (by omega)
  have htoMillis := htoSecond.append
    ((Agree.digits 3 (a := f.millis) (b := g.millis) (by omega) (by omega)).cons Lexer.dot)
    (R := 1000) (by omega) (by omega)
  refine htoMillis.congr ?_ ?_
  · unfold onDay
    omega
  · unfold onDay
    omega

theorem print_inj : f.print = g.print ↔ f = g := by
  constructor
  · intro heq
    have hkey := (print_agree hf hg (printDate_agree hf hg)).eq_iff.mp heq
    obtain ⟨-, -, fmonth, -, fday, fhour, fminute, fsecond, fmillis⟩ := hf
    obtain ⟨-, -, gmonth, -, gday, ghour, gminute, gsecond, gmillis⟩ := hg
    unfold onDay at hkey
    cases f
    cases g
    simp only [TimeFields.mk.injEq]
    dsimp only at *
    omega
  · rintro rfl
    rfl

/-- Timestamps of days that exist are written in the order of the moments. -/
theorem print_agree_timestampMs (hvf : f.date.Valid) (hvg : g.date.Valid) :
    Agree f.print g.print f.timestampMs g.timestampMs := by
  have hlt := Calendar.Date.number_lt_iff hvf hvg
  have hgt := Calendar.Date.number_lt_iff hvg hvf
  have hmonth := hf.month_pos
  have hmonth' := hf.month_le
  have gmonth := hg.month_pos
  have gmonth' := hg.month_le
  have hday := hf.day_le
  have gday := hg.day_le
  refine print_agree hf hg ((printDate_agree hf hg).congr ?_ ?_)
  · rw [sub_lt_sub_iff_right, hlt]
    unfold Calendar.Date.Before date
    dsimp only
    omega
  · rw [sub_lt_sub_iff_right, hgt]
    unfold Calendar.Date.Before date
    dsimp only
    omega

end

end TimeFields

/-! ## Reading -/

namespace Parser

variable {raw : ByteString} {pos n : ℕ} {mktime : Mktime} {timestampMs : ℤ}

theorem isDigit_iff (b : Byte) : Lexer.isDigit b = true ↔ Decimal.IsDigit b := by
  simp [Lexer.isDigit, Decimal.IsDigit]

/-- The digits that were read stand in the text. -/
theorem digitsAt_some {w : ℕ} (h : digitsAt raw pos w = some n) :
    raw.drop pos = fixed w n ++ raw.drop (pos + w) ∧ n < 10 ^ w := by
  unfold digitsAt at h
  dsimp only at h
  split_ifs at h with hdigits
  obtain ⟨hlen, hall⟩ := hdigits
  have hvalue : Decimal.value ((raw.drop pos).take w) = n := Option.some.inj h
  have hisDigit : ∀ b ∈ (raw.drop pos).take w, Decimal.IsDigit b := fun b hb =>
    (isDigit_iff b).mp (List.all_eq_true.mp hall b hb)
  constructor
  · have hfixed := Decimal.fixed_value hisDigit
    rw [hlen, hvalue] at hfixed
    rw [hfixed, ← List.drop_drop, List.take_append_drop]
  · have hlt := Decimal.value_lt hisDigit
    rwa [hlen, hvalue] at hlt

theorem drop_of_getElem? {b : Byte} (h : raw[pos]? = some b) :
    raw.drop pos = b :: raw.drop (pos + 1) := by
  obtain ⟨hlt, rfl⟩ := List.getElem?_eq_some_iff.mp h
  exact List.drop_eq_getElem_cons hlt

/-- The text starts with the fields as they are printed, and they are read at their places. -/
structure ReadsAs (raw : ByteString) (f : TimeFields) : Prop where
  inRange : f.InRange
  text_eq : raw = f.print ++ raw.drop 23
  year : digitsAt raw 0 4 = some f.year
  month : digitsAt raw 5 2 = some f.month
  day : digitsAt raw 8 2 = some f.day

/-- What a text that is accepted looks like. -/
theorem parseRevertTimestampMs_some (h : parseRevertTimestampMs mktime raw = some timestampMs) :
    ∃ f : TimeFields, ReadsAs raw f ∧
      ∃ seconds, mktime f.tm = some seconds ∧ timestampMs = seconds * 1000 + f.millis := by
  unfold parseRevertTimestampMs at h
  simp only [Option.bind_eq_bind, Option.bind_eq_some_iff, Option.guard_eq_some', exists_const,
    Bool.and_eq_true, decide_eq_true_iff] at h
  obtain ⟨-, ⟨⟨⟨⟨⟨h4, h7⟩, h10⟩, h13⟩, h16⟩, h19⟩, year, hyear, month, hmonth, day, hday, hour, hhour,
    minute, hminute, second, hsecond, millis, hmillis, hrange, -, seconds, hconv, hresult⟩ := h
  obtain ⟨tyear, ryear⟩ := digitsAt_some hyear
  obtain ⟨tmonth, -⟩ := digitsAt_some hmonth
  obtain ⟨tday, -⟩ := digitsAt_some hday
  obtain ⟨thour, -⟩ := digitsAt_some hhour
  obtain ⟨tminute, -⟩ := digitsAt_some hminute
  obtain ⟨tsecond, -⟩ := digitsAt_some hsecond
  obtain ⟨tmillis, rmillis⟩ := digitsAt_some hmillis
  obtain ⟨hmonth₁, hmonth₂, hday₁, hday₂, hhour', hminute', hsecond'⟩ := hrange
  refine ⟨⟨year, month, day, hour, minute, second, millis⟩, ⟨⟨ryear, hmonth₁, hmonth₂, hday₁, hday₂,
    hhour', hminute', hsecond', rmillis⟩, ?_, hyear, hmonth, hday⟩, seconds, hconv,
    (Option.some.inj hresult).symm⟩
  -- the pieces of the text, one after the other
  calc raw = raw.drop 0 := rfl
    _ = _ := by
      rw [tyear, drop_of_getElem? h4, tmonth, drop_of_getElem? h7, tday, drop_of_getElem? h10,
        thour, drop_of_getElem? h13, tminute, drop_of_getElem? h16, tsecond,
        drop_of_getElem? h19, tmillis]
      simp [TimeFields.print, TimeFields.printDate]

/-- A number is no timestamp. -/
theorem parseRevertTimestampMs_of_digits (h : raw.all Lexer.isDigit) :
    parseRevertTimestampMs mktime raw = none := by
  rcases hparse : parseRevertTimestampMs mktime raw with _ | timestampMs
  · rfl
  · obtain ⟨f, hreads, -⟩ := parseRevertTimestampMs_some hparse
    have hdot : Lexer.dot ∈ raw := by
      rw [hreads.text_eq]
      simp [TimeFields.print]
    have := List.all_eq_true.mp h _ hdot
    cases this

/-- The day is one that the month has. -/
def NamesDay (raw : ByteString) : Prop :=
  ∀ year month day, digitsAt raw 0 4 = some year → digitsAt raw 5 2 = some month →
    digitsAt raw 8 2 = some day → day ≤ Calendar.monthLength year (month - 1)

theorem ReadsAs.namesDay_iff {f : TimeFields} (h : ReadsAs raw f) :
    NamesDay raw ↔ f.date.Valid := by
  have hpos := h.inRange.month_pos
  have hle := h.inRange.month_le
  constructor
  · intro hday
    exact ⟨show f.month - 1 < 12 by omega, h.inRange.day_pos, hday _ _ _ h.year h.month h.day⟩
  · rintro hvalid year month day hyear hmonth hday
    cases Option.some.inj (h.year.symm.trans hyear)
    cases Option.some.inj (h.month.symm.trans hmonth)
    cases Option.some.inj (h.day.symm.trans hday)
    exact hvalid.day_le

/-- A moment as it is written in a REVERT. -/
def formatRevertTimestamp (timestampMs : ℤ) : ByteString := (timeFieldsOf timestampMs).print

/-- Two texts that are accepted with days that exist stand for moments in their order. -/
def InOrder (raw raw' : ByteString) (timestampMs timestampMs' : ℤ) : Prop :=
  (timestampMs = timestampMs' ↔ raw = raw') ∧ (timestampMs < timestampMs' ↔ raw < raw')

/-- A text stands for the moment that it names exactly if the month has the day; texts without
further digits are then ordered as the moments are. -/
theorem revertTimestamp_named_iff (raw : ByteString) (timestampMs : ℤ)
    (h : parseRevertTimestampMs utcMktime raw = some timestampMs) :
    (formatRevertTimestamp timestampMs = raw.take 23 ↔ NamesDay raw) ∧
    ∀ raw' timestampMs', parseRevertTimestampMs utcMktime raw' = some timestampMs' →
      raw.length = 23 → raw'.length = 23 → NamesDay raw → NamesDay raw' →
      InOrder raw raw' timestampMs timestampMs' := by
  obtain ⟨f, hreads, seconds, hconv, rfl⟩ := parseRevertTimestampMs_some h
  constructor
  · have hin := hreads.inRange
    have htake : raw.take 23 = f.print := by
      rw [hreads.text_eq, List.take_left' f.print_length]
    rw [hreads.namesDay_iff, htake, formatRevertTimestamp, TimeFields.utcMktime_tm hin hconv,
      TimeFields.print_inj (TimeFields.timeFieldsOf_inRange hin) hin,
      TimeFields.timeFieldsOf_timestampMs hin]
  · intro raw' timestampMs' h' hlen hlen' hday hday'
    obtain ⟨g, hreads', seconds', hconv', rfl⟩ := parseRevertTimestampMs_some h'
    have hraw : raw = f.print := by
      rw [hreads.text_eq, List.drop_of_length_le hlen.le, List.append_nil]
    have hraw' : raw' = g.print := by
      rw [hreads'.text_eq, List.drop_of_length_le hlen'.le, List.append_nil]
    have hagree := TimeFields.print_agree_timestampMs hreads.inRange hreads'.inRange
      (hreads.namesDay_iff.mp hday) (hreads'.namesDay_iff.mp hday')
    rw [TimeFields.utcMktime_tm hreads.inRange hconv, TimeFields.utcMktime_tm hreads'.inRange hconv',
      hraw, hraw']
    exact ⟨hagree.eq_iff.symm, hagree.lt_iff.symm⟩

theorem revertTimestamp_leapDay :
    formatRevertTimestamp 1709208000123 = (ascii "2024.02.29-12:00:00.123").take 23 ∧
      NamesDay (ascii "2024.02.29-12:00:00.123") := by
  have hparse : parseRevertTimestampMs utcMktime (ascii "2024.02.29-12:00:00.123") =
      some 1709208000123 := by decide +kernel
  have hformat : formatRevertTimestamp 1709208000123 =
      (ascii "2024.02.29-12:00:00.123").take 23 := by decide +kernel
  exact ⟨hformat, (revertTimestamp_named_iff _ _ hparse).1.mp hformat⟩

/-- The 30th of February is accepted and becomes the 2nd of March. -/
theorem revertTimestamp_february :
    (parseRevertTimestampMs utcMktime (ascii "2023.02.30-00:00:00.000")).map formatRevertTimestamp =
        some (ascii "2023.03.02-00:00:00.000") ∧
      parseRevertTimestampMs utcMktime (ascii "2023.02.30-00:00:00.000") =
        parseRevertTimestampMs utcMktime (ascii "2023.03.02-00:00:00.000") := by
  decide +kernel

end Parser

end CourseDb
