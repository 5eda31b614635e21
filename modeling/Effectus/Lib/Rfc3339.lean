import Effectus.Lib.JsonNumber

/-!
Instants and their text as RFC 3339 spells it, with a fraction of a second without trailing zeros. An instant is a number
of nanoseconds since the start of year 1 of the Gregorian calendar, carried on before it was in use.
-/

namespace Effectus

namespace Rfc3339

/-! ### The calendar -/

structure Date where
  year : Int
  month : Nat
  day : Nat
  deriving DecidableEq

def isLeap (year : Int) : Bool := decide (year % 4 = 0 ∧ (year % 100 ≠ 0 ∨ year % 400 = 0))

/-- The days of a year before each month, and in the whole year. -/
def daysBefore (leap : Bool) (month : Nat) : Nat :=
  [0, 31, 59, 90, 120, 151, 181, 212, 243, 273, 304, 334, 365].getD (month - 1) 365 + if leap ∧ 2 < month then 1 else 0

def daysIn (leap : Bool) (month : Nat) : Nat := daysBefore leap (month + 1) - daysBefore leap month

/-- The days before a year. -/
def daysBeforeYear (year : Int) : Int := 365 * (year - 1) + (year - 1) / 4 - (year - 1) / 100 + (year - 1) / 400

/-- The day of a date, from zero on. -/
def Date.toDays (d : Date) : Int := daysBeforeYear d.year + daysBefore (isLeap d.year) d.month + d.day - 1

/-- The month a day of a year is in. -/
def monthOf (leap : Bool) (yearDay : Nat) : Nat :=
  ((List.range' 2 11).filter fun month => decide (daysBefore leap month ≤ yearDay)).length + 1

/-- The year of a day, and the day of the year: by 400, 100, 4 and single years. -/
def yearOf (days : Int) : Int × Nat :=
  let era := days / 146097
  let dayOfEra := (days % 146097).toNat
  let centuries := min (dayOfEra / 36524) 3
  let dayOfCentury := dayOfEra - 36524 * centuries
  let dayOfFour := dayOfCentury % 1461
  let years := min (dayOfFour / 365) 3
  (400 * era + 100 * centuries + 4 * (dayOfCentury / 1461 : Nat) + years + 1, dayOfFour - 365 * years)

/-- The date of a day of a year. -/
def Date.ofYearDay (year : Int) (yearDay : Nat) : Date :=
  let month := monthOf (isLeap year) yearDay
  ⟨year, month, yearDay - daysBefore (isLeap year) month + 1⟩

def Date.ofDays (days : Int) : Date := .ofYearDay (yearOf days).1 (yearOf days).2

def Date.Valid (d : Date) : Prop := 1 ≤ d.month ∧ d.month ≤ 12 ∧ 1 ≤ d.day ∧ d.day ≤ daysIn (isLeap d.year) d.month

instance (d : Date) : Decidable d.Valid := inferInstanceAs (Decidable (_ ∧ _))

/-- A day by the years it is counted in. Only a year that ends four of them, and a century's last only if it ends four
centuries, has a 366th day. -/
theorem yearOf_eq (days : Int) : ∃ (era : Int) (c q y d : Nat),
    yearOf days = (400 * era + 100 * c + 4 * q + y + 1, d) ∧ days = 146097 * era + 36524 * c + 1461 * q + 365 * y + d ∧
      c ≤ 3 ∧ q ≤ 24 ∧ y ≤ 3 ∧ d ≤ 365 ∧ (d = 365 → y = 3 ∧ (q = 24 → c = 3)) := by
  refine ⟨_, _, _, _, _, rfl, ?_⟩
  have hlow : 0 ≤ days % 146097 := Int.emod_nonneg _ (by decide)
  have hhigh : days % 146097 < 146097 := Int.emod_lt_of_pos _ (by decide)
  generalize hn : (days % 146097).toNat = n
  have hdays : days = 146097 * (days / 146097) + n := by omega
  have hbound : n < 146097 := by omega
  clear hlow hhigh hn
  generalize hc : min (n / 36524) 3 = c
  generalize hm : n - 36524 * c = m
  have hcentury : n = 36524 * c + m ∧ c ≤ 3 ∧ m ≤ 36524 ∧ (c < 3 → m < 36524) := by omega
  generalize hy : min (m % 1461 / 365) 3 = y
  omega

theorem daysBeforeYear_eq (era : Int) {c q y : Nat} (hc : c ≤ 3) (hq : q ≤ 24) (hy : y ≤ 3) :
    daysBeforeYear (400 * era + 100 * c + 4 * q + y + 1) = 146097 * era + 36524 * c + 1461 * q + 365 * y := by
  unfold daysBeforeYear
  omega

theorem isLeap_eq (era : Int) {c q y : Nat} (hc : c ≤ 3) (hq : q ≤ 24) (hy : y ≤ 3) :
    isLeap (400 * era + 100 * c + 4 * q + y + 1) = decide (y = 3 ∧ (q = 24 → c = 3)) := by
  unfold isLeap
  rw [decide_eq_decide]
  omega

theorem yearOf_spec (days : Int) : daysBeforeYear (yearOf days).1 + (yearOf days).2 = days ∧
    (yearOf days).2 < daysBefore (isLeap (yearOf days).1) 13 := by
  obtain ⟨era, c, q, y, d, heq, hdays, hc, hq, hy, hd, hlast⟩ := yearOf_eq days
  rw [heq, daysBeforeYear_eq era hc hq hy, isLeap_eq era hc hq hy]
  refine ⟨hdays.symm, ?_⟩
  by_cases h365 : d = 365
  · rw [decide_eq_true (hlast h365), h365]
    exact (by decide : 365 < daysBefore true 13)
  · have hmin : 365 ≤ daysBefore (decide (y = 3 ∧ (q = 24 → c = 3))) 13 := by
      cases decide (y = 3 ∧ (q = 24 → c = 3)) <;> decide
    show d < _
    omega

theorem monthOf_spec : ∀ leap, ∀ yearDay < daysBefore leap 13, 1 ≤ monthOf leap yearDay ∧ monthOf leap yearDay ≤ 12 ∧
    daysBefore leap (monthOf leap yearDay) ≤ yearDay ∧ yearDay < daysBefore leap (monthOf leap yearDay + 1) := by
  decide +kernel

theorem Date.ofYearDay_spec {year : Int} {yearDay : Nat} (h : yearDay < daysBefore (isLeap year) 13) :
    (ofYearDay year yearDay).Valid ∧ (ofYearDay year yearDay).toDays = daysBeforeYear year + yearDay := by
  obtain ⟨hone, htwelve, hfrom, hto⟩ := monthOf_spec _ _ h
  refine ⟨⟨hone, htwelve, Nat.succ_pos _, ?_⟩, ?_⟩
  · show yearDay - daysBefore (isLeap year) (monthOf (isLeap year) yearDay) + 1 ≤
      daysBefore (isLeap year) (monthOf (isLeap year) yearDay + 1) -
        daysBefore (isLeap year) (monthOf (isLeap year) yearDay)
    omega
  · show daysBeforeYear year + daysBefore (isLeap year) (monthOf (isLeap year) yearDay) +
      (yearDay - daysBefore (isLeap year) (monthOf (isLeap year) yearDay) + 1 : Nat) - 1 = _
    omega

theorem Date.ofDays_valid (days : Int) : (ofDays days).Valid := (ofYearDay_spec (yearOf_spec days).2).1

/-- A day is the day of its date. -/
theorem Date.toDays_ofDays (days : Int) : (ofDays days).toDays = days :=
  (ofYearDay_spec (yearOf_spec days).2).2.trans (yearOf_spec days).1

/-! ### Digits -/

/-- A number in so many digits. -/
def pad : Nat → Nat → Text
  | 0, _ => []
  | width + 1, n => pad width (n / 10) ++ [UInt8.ofNat (0x30 + n % 10)]

/-- So many digits at the front. -/
def digits (width : Nat) (t : Text) : Option (Nat × Text) :=
  if (t.take width).length = width ∧ (t.take width).all Text.isDigit then
    some (Text.digitsValue 0 (t.take width), t.drop width)
  else none

/-- One byte at the front. -/
def expect (b : UInt8) : Text → Option Text
  | [] => none
  | c :: t => if c = b then some t else none

@[simp] theorem length_pad (width n : Nat) : (pad width n).length = width := by
  induction width generalizing n with
  | zero => rfl
  | succ width ih => simp [pad, ih]

theorem isDigit_pad {b : UInt8} {width n : Nat} (h : b ∈ pad width n) : Text.isDigit b = true := by
  induction width generalizing n with
  | zero => simp [pad] at h
  | succ width ih =>
    rcases List.mem_append.1 h with h | h
    · exact ih h
    · rw [List.mem_singleton.1 h]
      exact Text.isDigit_digit (Nat.mod_lt _ (by decide))

theorem digitsValue_pad {width n : Nat} (h : n < 10 ^ width) : Text.digitsValue 0 (pad width n) = n := by
  induction width generalizing n with
  | zero =>
    rw [Nat.pow_zero, Nat.lt_one_iff] at h
    rw [h]
    rfl
  | succ width ih =>
    have hdiv : n / 10 < 10 ^ width := Nat.div_lt_of_lt_mul (by rwa [Nat.mul_comm, ← Nat.pow_succ])
    rw [pad, Text.digitsValue_append, ih hdiv, Text.digitsValue_cons, Text.sub_digit (Nat.mod_lt _ (by decide))]
    exact Nat.div_add_mod n 10

theorem digits_pad {width n : Nat} (h : n < 10 ^ width) (rest : Text) : digits width (pad width n ++ rest) = some (n, rest) := by
  have htake : (pad width n ++ rest).take width = pad width n := List.take_left' (length_pad ..)
  have hdrop : (pad width n ++ rest).drop width = rest := List.drop_left' (length_pad ..)
  unfold digits
  rw [htake, hdrop, if_pos ⟨length_pad .., List.all_eq_true.2 fun b hb => isDigit_pad hb⟩, digitsValue_pad h]

@[simp] theorem expect_cons (b : UInt8) (t : Text) : expect b (b :: t) = some t := if_pos rfl

/-! ### Instants -/

def nanosPerSecond : Int := 1000000000

def secondsPerDay : Int := 86400

/-- The fraction of a second, without trailing zeros. -/
def fraction (nanos : Nat) : Text :=
  if nanos = 0 then [] else 0x2E :: ((pad 9 nanos).reverse.dropWhile (· == 0x30)).reverse

/-- A year in four digits; a later one takes more, and one before year 0 has a sign. -/
def yearText (year : Int) : Text :=
  if year < 0 then 0x2D :: pad 4 year.natAbs
  else if year < 10000 then pad 4 year.toNat
  else Text.decimal year.toNat

def dateText (date : Date) : Text := yearText date.year ++ 0x2D :: (pad 2 date.month ++ 0x2D :: pad 2 date.day)

/-- A second of a day. -/
def clockText (second : Nat) : Text :=
  pad 2 (second / 3600) ++ 0x3A :: (pad 2 (second / 60 % 60) ++ 0x3A :: pad 2 (second % 60))

/-- `Format(time.RFC3339Nano)` in UTC. -/
def format (t : Int) : Text :=
  dateText (.ofDays (t / nanosPerSecond / secondsPerDay)) ++ 0x54 ::
    (clockText (t / nanosPerSecond % secondsPerDay).toNat ++ (fraction (t % nanosPerSecond).toNat ++ [0x5A]))

def readDate (t : Text) : Option (Date × Text) := do
  let (year, t) ← digits 4 t
  let (month, t) ← digits 2 (← expect 0x2D t)
  let (day, t) ← digits 2 (← expect 0x2D t)
  if Date.Valid ⟨year, month, day⟩ then some (⟨year, month, day⟩, t) else none

def readClock (t : Text) : Option (Nat × Text) := do
  let (hour, t) ← digits 2 t
  let (minute, t) ← digits 2 (← expect 0x3A t)
  let (second, t) ← digits 2 (← expect 0x3A t)
  if hour < 24 ∧ minute < 60 ∧ second < 60 then some (hour * 3600 + minute * 60 + second, t) else none

/-- A fraction of a second in nanoseconds, if there is one; digits past the ninth are dropped. -/
def readFraction : Text → Option (Nat × Text)
  | 0x2E :: t =>
    let ds := t.takeWhile Text.isDigit
    if ds = [] then none
    else some (Text.digitsValue 0 (ds.take 9) * 10 ^ (9 - (ds.take 9).length), t.dropWhile Text.isDigit)
  | t => some (0, t)

/-- The offset of a zone in seconds. -/
def readZone : Text → Option Int
  | [0x5A] => some 0
  | 0x2B :: t => do
    let (hours, t) ← digits 2 t
    let (minutes, t) ← digits 2 (← expect 0x3A t)
    if t = [] ∧ hours ≤ 24 ∧ minutes ≤ 60 then some ((hours * 60 + minutes) * 60) else none
  | 0x2D :: t => do
    let (hours, t) ← digits 2 t
    let (minutes, t) ← digits 2 (← expect 0x3A t)
    if t = [] ∧ hours ≤ 24 ∧ minutes ≤ 60 then some (-((hours * 60 + minutes) * 60)) else none
  | _ => none

/-- `time.Parse(time.RFC3339Nano, _)` on what RFC 3339 allows. -/
def parse (t : Text) : Option Int := do
  let (date, t) ← readDate t
  let (second, t) ← readClock (← expect 0x54 t)
  let (nanos, t) ← readFraction t
  let offset ← readZone t
  return (date.toDays * secondsPerDay + second - offset) * nanosPerSecond + nanos

/-- The instants of the years 0 to 9999. -/
def Printable (t : Int) : Prop :=
  0 ≤ (Date.ofDays (t / nanosPerSecond / secondsPerDay)).year ∧ (Date.ofDays (t / nanosPerSecond / secondsPerDay)).year < 10000

instance (t : Int) : Decidable (Printable t) := inferInstanceAs (Decidable (_ ∧ _))

/-- The first instant of the year 10000. -/
def unprintable : Int := daysBeforeYear 10000 * secondsPerDay * nanosPerSecond

theorem printable_of_lt {t : Int} (hlow : 0 ≤ t) (hhigh : t < unprintable) : Printable t := by
  have hdays : 0 ≤ t / nanosPerSecond / secondsPerDay ∧ t / nanosPerSecond / secondsPerDay < 3652059 := by
    simp only [unprintable, show daysBeforeYear 10000 = 3652059 by decide, secondsPerDay, nanosPerSecond] at hhigh ⊢
    omega
  obtain ⟨era, c, q, y, d, heq, hsum, hc, hq, hy, hd, hlast⟩ := yearOf_eq (t / nanosPerSecond / secondsPerDay)
  show 0 ≤ (yearOf _).1 ∧ (yearOf _).1 < 10000
  rw [heq]
  dsimp only
  omega

/-! ### Round trip -/

theorem digitsValue_zeros (acc k : Nat) : Text.digitsValue acc (List.replicate k 0x30) = acc * 10 ^ k := by
  induction k generalizing acc with
  | zero => rw [Nat.pow_zero, Nat.mul_one]; rfl
  | succ k ih =>
    rw [List.replicate_succ, Text.digitsValue_cons, ih]
    show (10 * acc + 0) * 10 ^ k = acc * 10 ^ (k + 1)
    rw [Nat.pow_succ]
    ring

/-- A text ends in the zeros that are taken off. -/
theorem trim_zeros (t : Text) : ∃ k, t = (t.reverse.dropWhile (· == 0x30)).reverse ++ List.replicate k 0x30 := by
  refine ⟨(t.reverse.takeWhile (· == 0x30)).length, ?_⟩
  have hzeros : t.reverse.takeWhile (· == 0x30) = List.replicate (t.reverse.takeWhile (· == 0x30)).length 0x30 := by
    refine List.eq_replicate_of_mem fun b hb => ?_
    simpa using List.mem_takeWhile_imp hb
  have hsplit := congrArg List.reverse (List.takeWhile_append_dropWhile (p := (· == (0x30 : UInt8))) (l := t.reverse))
  rw [List.reverse_append, List.reverse_reverse, hzeros, List.reverse_replicate] at hsplit
  exact hsplit.symm

theorem readFraction_fraction {nanos : Nat} (h : nanos < 10 ^ 9) :
    readFraction (fraction nanos ++ [0x5A]) = some (nanos, [0x5A]) := by
  unfold fraction
  split
  · rename_i hzero
    rw [hzero]
    rfl
  · rename_i hne
    obtain ⟨k, hk⟩ := trim_zeros (pad 9 nanos)
    have hlen := congrArg List.length hk
    have hvalue := digitsValue_pad h
    have hall : ∀ b ∈ (pad 9 nanos).reverse.dropWhile (· == 0x30), Text.isDigit b = true := fun b hb =>
      isDigit_pad (List.mem_reverse.1 ((List.dropWhile_sublist _).subset hb))
    generalize (pad 9 nanos).reverse.dropWhile (· == 0x30) = kept at hk hlen hall ⊢
    rw [hk, Text.digitsValue_append, digitsValue_zeros] at hvalue
    rw [length_pad, List.length_append, List.length_replicate] at hlen
    have hdigits : ∀ b ∈ kept.reverse, Text.isDigit b = true := fun b hb => hall b (List.mem_reverse.1 hb)
    have htake : (kept.reverse ++ [0x5A]).takeWhile Text.isDigit = kept.reverse := by
      rw [List.takeWhile_append_of_pos hdigits]
      simp [show Text.isDigit 0x5A = false from rfl]
    have hdrop : (kept.reverse ++ [0x5A]).dropWhile Text.isDigit = [0x5A] := by
      rw [List.dropWhile_append_of_pos hdigits]
      simp [show Text.isDigit 0x5A = false from rfl]
    have hsome : kept.reverse ≠ [] := by
      intro hnil
      rw [hnil] at hvalue
      exact hne (hvalue.symm.trans (Nat.zero_mul _))
    rw [List.cons_append, readFraction, htake, hdrop, if_neg hsome, List.take_of_length_le (by omega),
      show 9 - kept.reverse.length = k by omega, hvalue]

theorem daysIn_le : ∀ leap, ∀ month ≤ 12, daysIn leap month ≤ 31 := by decide

theorem readDate_dateText {date : Date} (hvalid : date.Valid) (hlow : 0 ≤ date.year) (hhigh : date.year < 10000)
    (rest : Text) : readDate (dateText date ++ rest) = some (date, rest) := by
  obtain ⟨year, month, day⟩ := date
  obtain ⟨y, rfl⟩ := Int.eq_ofNat_of_zero_le hlow
  have hyear : y < 10 ^ 4 := by
    have : (y : Int) < 10000 := hhigh
    omega
  have hyearText : yearText (y : Int) = pad 4 y := by
    rw [yearText, if_neg (by omega), if_pos hhigh, Int.toNat_natCast]
  have hmonth : month < 10 ^ 2 := Nat.lt_of_le_of_lt hvalid.2.1 (by decide)
  have hday : day < 10 ^ 2 := Nat.lt_of_le_of_lt (hvalid.2.2.2.trans (daysIn_le _ month hvalid.2.1)) (by decide)
  have htext : dateText ⟨y, month, day⟩ ++ rest =
      pad 4 y ++ (0x2D :: (pad 2 month ++ (0x2D :: (pad 2 day ++ rest)))) := by
    simp [dateText, hyearText]
  rw [htext, readDate]
  simp only [Option.bind_eq_bind, Option.bind_some, expect_cons, digits_pad hyear, digits_pad hmonth, digits_pad hday]
  exact if_pos hvalid

theorem readClock_clockText {second : Nat} (h : second < 86400) (rest : Text) :
    readClock (clockText second ++ rest) = some (second, rest) := by
  have htext : clockText second ++ rest = pad 2 (second / 3600) ++ (0x3A :: (pad 2 (second / 60 % 60) ++
      (0x3A :: (pad 2 (second % 60) ++ rest)))) := by
    simp [clockText]
  have hhour : second / 3600 < 10 ^ 2 := by omega
  have hminute : second / 60 % 60 < 10 ^ 2 := by omega
  have hsecond : second % 60 < 10 ^ 2 := by omega
  have hclock : second / 3600 * 3600 + second / 60 % 60 * 60 + second % 60 = second := by omega
  rw [htext, readClock]
  simp only [Option.bind_eq_bind, Option.bind_some, expect_cons, digits_pad hhour, digits_pad hminute, digits_pad hsecond]
  rw [if_pos ⟨by omega, by omega, by omega⟩, hclock]

/-- An instant of the years 0 to 9999 reads back from its text. -/
theorem parse_format {t : Int} (h : Printable t) : parse (format t) = some t := by
  have hday : 0 ≤ t / nanosPerSecond % secondsPerDay := Int.emod_nonneg _ (by decide)
  have hday' : t / nanosPerSecond % secondsPerDay < 86400 := Int.emod_lt_of_pos _ (by decide)
  have hnanos : 0 ≤ t % nanosPerSecond := Int.emod_nonneg _ (by decide)
  have hnanos' : t % nanosPerSecond < 1000000000 := Int.emod_lt_of_pos _ (by decide)
  have hsecond : (t / nanosPerSecond % secondsPerDay).toNat < 86400 := by omega
  have hfraction : (t % nanosPerSecond).toNat < 10 ^ 9 := by omega
  have hzone : readZone [0x5A] = some 0 := rfl
  rw [format, parse, readDate_dateText (Date.ofDays_valid _) h.1 h.2]
  simp only [Option.bind_eq_bind, Option.bind_some, expect_cons, readClock_clockText hsecond,
    readFraction_fraction hfraction, hzone]
  refine congrArg some ?_
  rw [sub_zero, Date.toDays_ofDays, Int.toNat_of_nonneg hday, Int.toNat_of_nonneg hnanos, Int.ediv_mul_add_emod,
    Int.ediv_mul_add_emod]

end Rfc3339

end Effectus
