/-
Timestamps as text and as microseconds. Each formatter cuts the microseconds at the second towards zero, and writes what is
left as the fraction; each parser reads the fields in front and up to six digits behind the first comma. A time before 1970
that is not a whole second comes back as another one: its fraction is negative, and is not read.
-/
import TinyIoT.Base.Json
import TinyIoT.Lib.Scan

namespace TinyIoT

/-- `struct tm`, as far as it is used. -/
structure Tm where
  year : Int
  mon : Int
  mday : Int
  hour : Int
  min : Int
  sec : Int
  deriving DecidableEq, Repr

/-- `timegm` and `gmtime_r`. -/
structure Calendar where
  timegm : Tm → Int
  gmtime : Int → Tm

/-- A broken-down time whose fields print in their widths. -/
structure Tm.Civil (t : Tm) : Prop where
  year : 0 ≤ t.year + 1900 ∧ t.year + 1900 < 10000
  mon : 0 ≤ t.mon ∧ t.mon < 12
  mday : 1 ≤ t.mday ∧ t.mday < 32
  hour : 0 ≤ t.hour ∧ t.hour < 24
  min : 0 ≤ t.min ∧ t.min < 60
  sec : 0 ≤ t.sec ∧ t.sec < 60

/-- The second is that of a four-digit year, and `timegm` undoes `gmtime_r` there. -/
structure Calendar.Inverse (cal : Calendar) (second : Int) : Prop where
  civil : (cal.gmtime second).Civil
  back : cal.timegm (cal.gmtime second) = second

/-! ## Parsing -/

/-- `sscanf` with `%4d%2d%2dT%2d%2d%2d`, where all six are read. -/
def scanTm (s : CStr) : Option Tm :=
  (Scan.number 4 s).bind fun year => (Scan.number 2 year.2).bind fun mon => (Scan.number 2 mon.2).bind fun mday =>
    if mday.2.head? = some 'T' then
      (Scan.number 2 mday.2.tail).bind fun hour => (Scan.number 2 hour.2).bind fun min =>
        (Scan.number 2 min.2).map fun sec => ⟨year.1 - 1900, mon.1 - 1, mday.1, hour.1, min.1, sec.1⟩
    else none

/-- The microseconds behind the first comma: up to six digits, filled up with zeros. -/
def fractionUs (s : CStr) : Int :=
  let digits := ((s.dropWhile (· ≠ ',')).tail.take 6).takeWhile Char.isDigit
  Decimal.value (digits ++ List.replicate (6 - digits.length) '0')

/-- What both parsers compute. -/
def parseTimeUs (cal : Calendar) (s : CStr) : Int :=
  if s.length < 15 then 0
  else (scanTm s).elim 0 fun t => if cal.timegm t = -1 then 0 else cal.timegm t * 1000000 + fractionUs s

/-- `parse_time_to_us_tsi`. -/
def parseTimeToUsTsi (cal : Calendar) (s : CStr) : Int := parseTimeUs cal s

/-- `parse_time_monitor_us`. -/
def parseTimeMonitorUs (cal : Calendar) (s : CStr) : Int := parseTimeUs cal s

/-! ## Formatting -/

/-- `%04d%02d%02dT%02d%02d%02d`. -/
def printTm (t : Tm) : CStr :=
  Scan.zeroPadded 4 (t.year + 1900) ++ (Scan.zeroPadded 2 (t.mon + 1) ++ (Scan.zeroPadded 2 t.mday ++
    'T' :: (Scan.zeroPadded 2 t.hour ++ (Scan.zeroPadded 2 t.min ++ Scan.zeroPadded 2 t.sec))))

/-- `us_to_iso8601_tsi`: the fraction is written where it is not zero. -/
def usToIso8601Tsi (cal : Calendar) (us : Int) : CStr :=
  if us.tmod 1000000 ≠ 0 then printTm (cal.gmtime (us.tdiv 1000000)) ++ ',' :: Scan.zeroPadded 6 (us.tmod 1000000)
  else printTm (cal.gmtime (us.tdiv 1000000))

/-- `us_to_iso8601_monitor`: the fraction is always written. -/
def usToIso8601Monitor (cal : Calendar) (us : Int) : CStr :=
  printTm (cal.gmtime (us.tdiv 1000000)) ++ ',' :: Scan.zeroPadded 6 (us.tmod 1000000)

/-- Nothing, or up to six digits behind a comma. -/
structure FractionText where
  digits : Option CStr
  short : ∀ ds ∈ digits, ds.length ≤ 6
  decimal : ∀ ds ∈ digits, ∀ c ∈ ds, c.isDigit = true

namespace FractionText

def text (f : FractionText) : CStr := f.digits.elim [] (',' :: ·)

/-- The microseconds it stands for. -/
def us (f : FractionText) : Int := Decimal.value (f.digits.getD [] ++ List.replicate (6 - (f.digits.getD []).length) '0')

theorem us_range (f : FractionText) : 0 ≤ f.us ∧ f.us < 1000000 := by
  obtain ⟨digits, hshort, hdecimal⟩ := f
  have hlen : (digits.getD []).length ≤ 6 := by
    cases digits with
    | none => exact Nat.zero_le _
    | some ds => exact hshort ds rfl
  have hdigits : ∀ c ∈ digits.getD [] ++ List.replicate (6 - (digits.getD []).length) '0', c.isDigit = true := by
    intro c hc
    rcases List.mem_append.mp hc with hc | hc
    · cases digits with
      | none => cases hc
      | some ds => exact hdecimal ds rfl c hc
    · rw [List.eq_of_mem_replicate hc]
      rfl
  have hlt := Scan.value_lt hdigits
  rw [List.length_append, List.length_replicate, Nat.add_sub_cancel' hlen] at hlt
  unfold us
  dsimp only
  omega

end FractionText

/-! ## A printed time is read -/

section

variable {t : Tm} {cal : Calendar} {second : Int}

theorem scanTm_printTm (h : t.Civil) (s : CStr) : scanTm (printTm t ++ s) = some t := by
  obtain ⟨⟨y₀, y₁⟩, ⟨mo₀, mo₁⟩, ⟨d₀, d₁⟩, ⟨h₀, h₁⟩, ⟨mi₀, mi₁⟩, ⟨s₀, s₁⟩⟩ := h
  unfold scanTm printTm
  simp only [List.append_assoc, List.cons_append]
  rw [Scan.number_zeroPadded (by decide) y₀ (by omega), Option.bind_some]
  dsimp only
  rw [Scan.number_zeroPadded (by decide) (by omega) (by omega), Option.bind_some]
  dsimp only
  rw [Scan.number_zeroPadded (by decide) (by omega) (by omega), Option.bind_some]
  simp only [List.head?_cons, List.tail_cons, ↓reduceIte]
  rw [Scan.number_zeroPadded (by decide) h₀ (by omega), Option.bind_some]
  dsimp only
  rw [Scan.number_zeroPadded (by decide) mi₀ (by omega), Option.bind_some]
  dsimp only
  rw [Scan.number_zeroPadded (by decide) s₀ (by omega), Option.map_some]
  dsimp only
  rw [Int.add_sub_cancel, Int.add_sub_cancel]

theorem length_printTm (h : t.Civil) : (printTm t).length = 15 := by
  obtain ⟨⟨y₀, y₁⟩, ⟨mo₀, mo₁⟩, ⟨d₀, d₁⟩, ⟨h₀, h₁⟩, ⟨mi₀, mi₁⟩, ⟨s₀, s₁⟩⟩ := h
  unfold printTm
  simp only [List.length_append, List.length_cons]
  rw [Scan.length_zeroPadded (by decide) y₀ (by omega), Scan.length_zeroPadded (by decide) (by omega) (by omega),
    Scan.length_zeroPadded (by decide) (by omega) (by omega), Scan.length_zeroPadded (by decide) h₀ (by omega),
    Scan.length_zeroPadded (by decide) mi₀ (by omega), Scan.length_zeroPadded (by decide) s₀ (by omega)]

theorem comma_notMem_zeroPadded (w : Nat) (i : Int) : ',' ∉ Scan.zeroPadded w i := by
  have hfill : ∀ w n, ',' ∉ Scan.fill w n := by
    intro w n hc
    exact absurd (Scan.isDigit_fill w n _ hc) (by decide)
  unfold Scan.zeroPadded
  split
  · rw [List.mem_cons, not_or]
    exact ⟨by decide, hfill _ _⟩
  · exact hfill _ _

theorem comma_notMem_printTm (t : Tm) : ',' ∉ printTm t := by
  unfold printTm
  simp [comma_notMem_zeroPadded]

/-- The fraction of a printed time. -/
theorem fractionUs_printTm (t : Tm) (s : CStr) : fractionUs (printTm t ++ ',' :: s) =
    Decimal.value ((s.take 6).takeWhile Char.isDigit ++
      List.replicate (6 - ((s.take 6).takeWhile Char.isDigit).length) '0') := by
  have hdrop : (printTm t ++ ',' :: s).dropWhile (· ≠ ',') = ',' :: s := by
    have hne : ∀ c ∈ printTm t, decide (c ≠ ',') = true := by
      rintro c hc
      refine decide_eq_true ?_
      rintro rfl
      exact comma_notMem_printTm t hc
    rw [List.dropWhile_append_of_pos hne, List.dropWhile_cons_of_neg (by simp)]
  unfold fractionUs
  rw [hdrop]
  rfl

theorem fractionUs_printTm_nil (t : Tm) : fractionUs (printTm t) = 0 := by
  have hdrop : (printTm t).dropWhile (· ≠ ',') = [] := by
    rw [List.dropWhile_eq_nil_iff]
    rintro c hc
    refine decide_eq_true ?_
    rintro rfl
    exact comma_notMem_printTm t hc
  unfold fractionUs
  rw [hdrop]
  rfl

/-- Microseconds in six digits. -/
theorem fractionUs_zeroPadded (t : Tm) {i : Int} (h₀ : 0 ≤ i) (h₁ : i < 1000000) :
    fractionUs (printTm t ++ ',' :: Scan.zeroPadded 6 i) = i := by
  have hlt : i.natAbs < 10 ^ 6 := Scan.natAbs_lt_pow h₀ (by omega)
  have hlen := Scan.length_fill (w := 6) (by decide) hlt
  have htake : ((Scan.fill 6 i.natAbs).take 6).takeWhile Char.isDigit = Scan.fill 6 i.natAbs := by
    rw [List.take_of_length_le (by omega), List.takeWhile_eq_self_iff]
    exact Scan.isDigit_fill 6 _
  rw [fractionUs_printTm]
  unfold Scan.zeroPadded
  rw [if_neg (by omega), htake, hlen]
  simp only [Nat.sub_self, List.replicate_zero, List.append_nil]
  rw [Scan.value_fill, Int.natAbs_of_nonneg h₀]

/-- A negative fraction is not read. -/
theorem fractionUs_negative (t : Tm) {i : Int} (h : i < 0) :
    fractionUs (printTm t ++ ',' :: Scan.zeroPadded 6 i) = 0 := by
  rw [fractionUs_printTm]
  unfold Scan.zeroPadded
  rw [if_pos h]
  rfl

theorem fractionUs_text (t : Tm) (f : FractionText) : fractionUs (printTm t ++ f.text) = f.us := by
  obtain ⟨digits, hshort, hdecimal⟩ := f
  cases digits with
  | none =>
    show fractionUs (printTm t ++ []) = 0
    rw [List.append_nil, fractionUs_printTm_nil]
  | some ds =>
    have hlen := hshort ds rfl
    have htake : (ds.take 6).takeWhile Char.isDigit = ds := by
      rw [List.take_of_length_le hlen, List.takeWhile_eq_self_iff]
      exact hdecimal ds rfl
    show fractionUs (printTm t ++ ',' :: ds) = _
    rw [fractionUs_printTm, htake]
    rfl

/-- What is read of a printed time. -/
theorem parseTimeUs_printTm (h : t.Civil) (s : CStr) : parseTimeUs cal (printTm t ++ s) =
    if cal.timegm t = -1 then 0 else cal.timegm t * 1000000 + fractionUs (printTm t ++ s) := by
  unfold parseTimeUs
  rw [if_neg (by rw [List.length_append, length_printTm h]; omega), scanTm_printTm h]
  rfl

/-- Reading back what is printed for a number of microseconds. -/
theorem parse_format {us : Int} (h : cal.Inverse (us.tdiv 1000000)) :
    (parseTimeUs cal (usToIso8601Tsi cal us) = us ∧ parseTimeUs cal (usToIso8601Monitor cal us) = us) ↔
      0 ≤ us ∨ (us.tmod 1000000 = 0 ∧ us ≠ -1000000) := by
  obtain ⟨hcivil, hback⟩ := h
  have hsplit : us = us.tdiv 1000000 * 1000000 + us.tmod 1000000 := by
    have := Int.mul_tdiv_add_tmod us 1000000
    omega
  have hread : ∀ s, parseTimeUs cal (printTm (cal.gmtime (us.tdiv 1000000)) ++ s) = if us.tdiv 1000000 = -1 then 0
      else us.tdiv 1000000 * 1000000 + fractionUs (printTm (cal.gmtime (us.tdiv 1000000)) ++ s) := by
    intro s
    rw [parseTimeUs_printTm hcivil, hback]
  have hwhole := hread []
  rw [List.append_nil, fractionUs_printTm_nil] at hwhole
  have hfrac := hread (',' :: Scan.zeroPadded 6 (us.tmod 1000000))
  unfold usToIso8601Tsi usToIso8601Monitor
  rw [hfrac]
  rcases Int.le_total 0 us with hus | hus
  · -- the fraction is not negative, and is read
    have h₀ : 0 ≤ us.tmod 1000000 := Int.tmod_nonneg _ hus
    have h₁ : us.tmod 1000000 < 1000000 := Int.tmod_lt_of_pos us (by decide)
    have hsec : us.tdiv 1000000 ≠ -1 := by
      have := Int.tdiv_nonneg hus (show (0 : Int) ≤ 1000000 by decide)
      omega
    rw [fractionUs_zeroPadded _ h₀ h₁] at hfrac ⊢
    rw [if_neg hsec] at hwhole hfrac ⊢
    refine iff_of_true ⟨?_, by omega⟩ (.inl hus)
    split
    · omega
    · omega
  · have h₀ : us.tmod 1000000 ≤ 0 := by
      rw [show us = -(-us) by omega, Int.neg_tmod]
      have := Int.tmod_nonneg 1000000 (show 0 ≤ -us by omega)
      omega
    rcases Int.lt_or_eq_of_le h₀ with hneg | hzero
    · -- a negative fraction is lost
      rw [fractionUs_negative _ hneg] at hfrac ⊢
      refine iff_of_false ?_ ?_
      · rintro ⟨-, hm⟩
        split at hm
        · omega
        · omega
      · rintro (hp | ⟨hz, -⟩)
        · obtain rfl : us = 0 := by omega
          simp at hneg
        · omega
    · have hsec : us = us.tdiv 1000000 * 1000000 := by omega
      rw [hzero] at hfrac ⊢
      rw [fractionUs_zeroPadded _ (Int.le_refl 0) (by decide)] at hfrac ⊢
      rw [if_neg (by simp), hwhole]
      by_cases hlast : us.tdiv 1000000 = -1
      · -- the last second before 1970 is taken for a failure
        rw [if_pos hlast]
        omega
      · rw [if_neg hlast]
        omega

/-- Where the parsed value of a timestamp is printed and read again: the value of a time before 1970 that is no whole
second is lost, but for the last second, which is read as zero. -/
theorem reparse_iff (h : t.Civil) (f : FractionText)
    (hinv : cal.Inverse ((parseTimeUs cal (printTm t ++ f.text)).tdiv 1000000)) :
    (parseTimeUs cal (usToIso8601Tsi cal (parseTimeUs cal (printTm t ++ f.text))) =
        parseTimeUs cal (printTm t ++ f.text) ∧
      parseTimeUs cal (usToIso8601Monitor cal (parseTimeUs cal (printTm t ++ f.text))) =
        parseTimeUs cal (printTm t ++ f.text)) ↔
      ¬ (cal.timegm t < -1 ∧ f.us ≠ 0) := by
  rw [parse_format hinv, parseTimeUs_printTm h, fractionUs_text]
  obtain ⟨hf₀, hf₁⟩ := f.us_range
  have hsmall : ∀ x : Int, x < 0 → -1000000 < x → x.tmod 1000000 = x := by
    intro x h₀ h₁
    rw [show x = -(-x) by omega, Int.neg_tmod, Int.tmod_eq_of_lt (by omega) (by omega)]
  by_cases hlast : cal.timegm t = -1
  · rw [if_pos hlast]
    omega
  · rw [if_neg hlast]
    rcases Int.lt_or_le (cal.timegm t) 0 with hneg | hpos
    · have hmod : (cal.timegm t * 1000000 + f.us).tmod 1000000 = 0 ↔ f.us = 0 := by
        rw [← Int.dvd_iff_tmod_eq_zero]
        omega
      rw [hmod]
      omega
    · omega

end

/-- Printing and parsing give a number of microseconds back from 1970 on; the parsers agree; and the value of a timestamp
with a fraction comes back from printing exactly where it is not a time before the last second of 1969 with a fraction that
is not zero. -/
theorem timestamps_roundtrip_iff (cal : Calendar) (us : Int) (s : CStr) (t : Tm) (f : FractionText) :
    (0 ≤ us → cal.Inverse (us.tdiv 1000000) →
      parseTimeToUsTsi cal (usToIso8601Tsi cal us) = us ∧ parseTimeMonitorUs cal (usToIso8601Monitor cal us) = us) ∧
    parseTimeToUsTsi cal s = parseTimeMonitorUs cal s ∧
    (t.Civil → cal.Inverse ((parseTimeToUsTsi cal (printTm t ++ f.text)).tdiv 1000000) →
      ((parseTimeToUsTsi cal (usToIso8601Tsi cal (parseTimeToUsTsi cal (printTm t ++ f.text))) =
          parseTimeToUsTsi cal (printTm t ++ f.text) ∧
        parseTimeMonitorUs cal (usToIso8601Monitor cal (parseTimeMonitorUs cal (printTm t ++ f.text))) =
          parseTimeMonitorUs cal (printTm t ++ f.text)) ↔ ¬ (cal.timegm t < -1 ∧ f.us ≠ 0))) :=
  ⟨fun hus hinv => (parse_format hinv).mpr (.inl hus), rfl, fun ht hinv => reparse_iff ht f hinv⟩

/-- The minute before and the minute after the beginning of 1970. -/
def epochCalendar : Calendar where
  timegm := fun t => if t.year = 69 then t.sec - 60 else t.sec
  gmtime := fun x => if x < 0 then ⟨69, 11, 31, 23, 59, x + 60⟩ else ⟨70, 0, 1, 0, 0, x⟩

/-- The second before the last of 1969. -/
def lateIn1969 : Tm := ⟨69, 11, 31, 23, 59, 58⟩

/-- Half a second. -/
def half : FractionText where
  digits := some ['5']
  short := by decide
  decimal := by simp

theorem epochCalendar_inverse {x : Int} (h₀ : -60 ≤ x) (h₁ : x < 60) : epochCalendar.Inverse x := by
  unfold epochCalendar
  by_cases h : x < 0
  · have hg : (if x < 0 then (⟨69, 11, 31, 23, 59, x + 60⟩ : Tm) else ⟨70, 0, 1, 0, 0, x⟩) =
        ⟨69, 11, 31, 23, 59, x + 60⟩ := if_pos h
    refine ⟨?_, ?_⟩
    all_goals dsimp only
    all_goals rw [hg]
    · constructor <;> dsimp only <;> omega
    · dsimp only
      rw [if_pos rfl]
      omega
  · have hg : (if x < 0 then (⟨69, 11, 31, 23, 59, x + 60⟩ : Tm) else ⟨70, 0, 1, 0, 0, x⟩) = ⟨70, 0, 1, 0, 0, x⟩ :=
      if_neg h
    refine ⟨?_, ?_⟩
    all_goals dsimp only
    all_goals rw [hg]
    · constructor <;> dsimp only <;> omega
    · dsimp only
      rw [if_neg (by decide)]

/-- The first second of 1970 is over. -/
def earlyIn1970 : Tm := ⟨70, 0, 1, 0, 0, 1⟩

theorem timestamps_roundtrip_iff_epoch : (0 : Int) ≤ 7 ∧ epochCalendar.Inverse ((7 : Int).tdiv 1000000) ∧
    (parseTimeToUsTsi epochCalendar (usToIso8601Tsi epochCalendar 7) = 7 ∧
      parseTimeMonitorUs epochCalendar (usToIso8601Monitor epochCalendar 7) = 7) ∧
    parseTimeToUsTsi epochCalendar "19700101T000001.25x".toList =
      parseTimeMonitorUs epochCalendar "19700101T000001.25x".toList ∧
    earlyIn1970.Civil ∧
    parseTimeToUsTsi epochCalendar (usToIso8601Tsi epochCalendar
        (parseTimeToUsTsi epochCalendar (printTm earlyIn1970 ++ half.text))) =
      parseTimeToUsTsi epochCalendar (printTm earlyIn1970 ++ half.text) ∧
    parseTimeMonitorUs epochCalendar (usToIso8601Monitor epochCalendar
        (parseTimeMonitorUs epochCalendar (printTm earlyIn1970 ++ half.text))) =
      parseTimeMonitorUs epochCalendar (printTm earlyIn1970 ++ half.text) := by
  have hinv : epochCalendar.Inverse ((7 : Int).tdiv 1000000) := epochCalendar_inverse (by decide) (by decide)
  have hcivil : earlyIn1970.Civil := ⟨by decide, by decide, by decide, by decide, by decide, by decide⟩
  have hvalue : parseTimeToUsTsi epochCalendar (printTm earlyIn1970 ++ half.text) = 1500000 := by
    unfold parseTimeToUsTsi
    rw [parseTimeUs_printTm hcivil, fractionUs_text]
    rfl
  have hback : epochCalendar.Inverse
      ((parseTimeToUsTsi epochCalendar (printTm earlyIn1970 ++ half.text)).tdiv 1000000) := by
    rw [hvalue]
    exact epochCalendar_inverse (by decide) (by decide)
  obtain ⟨hformat, hagree, hparsed⟩ :=
    timestamps_roundtrip_iff epochCalendar 7 "19700101T000001.25x".toList earlyIn1970 half
  exact ⟨by decide, hinv, hformat (by decide) hinv, hagree, hcivil,
    (hparsed hcivil hback).mpr fun h => absurd h.1 (by decide)⟩

/-- Half a second before the last second of 1969 is read as another time. -/
theorem not_roundtrip_1969 : ¬ ∀ (cal : Calendar) (t : Tm) (f : FractionText), t.Civil →
    cal.Inverse ((parseTimeToUsTsi cal (printTm t ++ f.text)).tdiv 1000000) →
      parseTimeToUsTsi cal (usToIso8601Tsi cal (parseTimeToUsTsi cal (printTm t ++ f.text))) =
        parseTimeToUsTsi cal (printTm t ++ f.text) := by
  intro h
  have hcivil : lateIn1969.Civil := ⟨by decide, by decide, by decide, by decide, by decide, by decide⟩
  have hvalue : parseTimeToUsTsi epochCalendar (printTm lateIn1969 ++ half.text) = -1500000 := by
    unfold parseTimeToUsTsi
    rw [parseTimeUs_printTm hcivil, fractionUs_text]
    rfl
  have heq := h epochCalendar lateIn1969 half hcivil
  rw [hvalue] at heq
  have hback := heq (epochCalendar_inverse (by decide) (by decide))
  have hinv : epochCalendar.Inverse (-1) := epochCalendar_inverse (by decide) (by decide)
  have htext : usToIso8601Tsi epochCalendar (-1500000) =
      printTm (epochCalendar.gmtime (-1)) ++ ',' :: Scan.zeroPadded 6 (-500000) := rfl
  -- what is printed is in the second that `timegm` fails with
  rw [htext] at hback
  unfold parseTimeToUsTsi at hback
  rw [parseTimeUs_printTm hinv.civil, hinv.back, if_pos rfl] at hback
  exact absurd hback (by decide)

end TinyIoT
