/-
Timestamps as texts.  An instant is written in ISO 8601, with the fraction of a
second left out when it is zero, and stored instants are compared as texts.  The
order of the texts is the order of the instants, except within one second: the
'Z' after a whole second comes after the '.' before a fraction.
-/
import Mathlib.Algebra.Ring.Nat
import Mathlib.Tactic.SplitIfs

namespace QhpcEcosystem

/-! ## Texts of digits -/

/-- Texts compare by their first difference; the shorter of two texts without a
difference comes first. -/
def textLt : List Char → List Char → Bool
  | _, [] => false
  | [], _ :: _ => true
  | c :: rest, d :: others => c.toNat < d.toNat || (c.toNat = d.toNat && textLt rest others)

/-- A number of at most `width` decimal digits, padded with zeros. -/
def paddedDigits : Nat → Nat → List Char
  | 0, _ => []
  | width + 1, n => Nat.digitChar (n / 10 ^ width) :: paddedDigits width (n % 10 ^ width)

/-- Two mixed numbers compare by their quotients, then by their remainders. -/
theorem radix_lt_iff {width a b c d : Nat} (hb : b < width) (hd : d < width) :
    a * width + b < c * width + d ↔ a < c ∨ a = c ∧ b < d := by
  rcases Nat.lt_trichotomy a c with hlt | rfl | hlt
  · have hstep : (a + 1) * width ≤ c * width := Nat.mul_le_mul_right width hlt
    rw [Nat.add_mul] at hstep
    constructor
    · exact fun _ => .inl hlt
    · intro _
      omega
  · simp
  · have hstep : (c + 1) * width ≤ a * width := Nat.mul_le_mul_right width hlt
    rw [Nat.add_mul] at hstep
    constructor
    · intro h
      omega
    · intro h
      omega

theorem textLt_cons {c d : Char} {rest others : List Char} :
    textLt (c :: rest) (d :: others) = true ↔
      c.toNat < d.toNat ∨ c.toNat = d.toNat ∧ textLt rest others = true := by
  simp [textLt]

/-- Numbers written with one width compare as texts, and what follows decides
between equal ones. -/
theorem textLt_digits {width m n : Nat} {rest others : List Char} (hm : m < 10 ^ width)
    (hn : n < 10 ^ width) :
    textLt (paddedDigits width m ++ rest) (paddedDigits width n ++ others) = true ↔
      m < n ∨ m = n ∧ textLt rest others = true := by
  induction width generalizing m n with
  | zero =>
      have hm : m = 0 := by simpa using hm
      have hn : n = 0 := by simpa using hn
      simp [paddedDigits, hm, hn]
  | succ width ih =>
      have hpos : 0 < 10 ^ width := Nat.pow_pos (by decide)
      rw [Nat.pow_succ] at hm hn
      have hmhead : m / 10 ^ width < 10 := Nat.div_lt_of_lt_mul hm
      have hnhead : n / 10 ^ width < 10 := Nat.div_lt_of_lt_mul hn
      have hmtail : m % 10 ^ width < 10 ^ width := Nat.mod_lt m hpos
      have hntail : n % 10 ^ width < 10 ^ width := Nat.mod_lt n hpos
      have hsplit := radix_lt_iff (a := m / 10 ^ width) (c := n / 10 ^ width) hmtail hntail
      have hmeq := Nat.div_add_mod' m (10 ^ width)
      have hneq := Nat.div_add_mod' n (10 ^ width)
      rw [hmeq, hneq] at hsplit
      have hequal : m = n ↔ m / 10 ^ width = n / 10 ^ width ∧ m % 10 ^ width = n % 10 ^ width := by
        constructor
        · rintro rfl
          exact ⟨rfl, rfl⟩
        · rintro ⟨hhead, htail⟩
          rw [← hmeq, ← hneq, hhead, htail]
      rw [paddedDigits, paddedDigits, List.cons_append, List.cons_append, textLt_cons,
        Nat.toNat_digitChar_of_lt_ten hmhead, Nat.toNat_digitChar_of_lt_ten hnhead,
        Nat.add_lt_add_iff_left, Nat.add_left_cancel_iff, ih hmtail hntail, hsplit, hequal]
      simp only [and_or_left, and_assoc, or_assoc]

/-! ## The calendar -/

def isLeap (year : Nat) : Bool := year % 4 = 0 && (year % 100 ≠ 0 || year % 400 = 0)

def daysInYear (year : Nat) : Nat := if isLeap year then 366 else 365

def daysInMonth (year : Nat) : Nat → Nat
  | 2 => if isLeap year then 29 else 28
  | 4 | 6 | 9 | 11 => 30
  | _ => 31

/-- The days before the first of January, from the first of January of year 1. -/
def daysBeforeYear (year : Nat) : Nat :=
  (year - 1) * 365 + (year - 1) / 4 - (year - 1) / 100 + (year - 1) / 400

/-- The days of the year before the first of the month. -/
def daysBeforeMonth (year month : Nat) : Nat :=
  ((List.range (month - 1)).map fun previous => daysInMonth year (previous + 1)).sum

theorem daysBeforeYear_succ {year : Nat} (h : 1 ≤ year) :
    daysBeforeYear (year + 1) = daysBeforeYear year + daysInYear year := by
  obtain ⟨past, rfl⟩ := Nat.exists_eq_add_of_le' h
  have hcenturies : past / 100 ≤ past / 4 := Nat.div_le_div_left (by decide) (by decide)
  have hfour : (past + 1) % 100 = 0 → (past + 1) % 4 = 0 := by omega
  have hcentury : (past + 1) % 400 = 0 → (past + 1) % 100 = 0 := by omega
  simp only [daysBeforeYear, daysInYear, isLeap, Nat.add_sub_cancel, Nat.succ_div,
    Nat.dvd_iff_mod_eq_zero, Bool.and_eq_true, Bool.or_eq_true, decide_eq_true_eq]
  generalize past / 4 = fours at *
  generalize past / 100 = hundreds at *
  generalize past / 400 = cycles at *
  split_ifs <;> omega

theorem daysBeforeYear_mono {year later : Nat} (hyear : 1 ≤ year) (h : year < later) :
    daysBeforeYear year + daysInYear year ≤ daysBeforeYear later := by
  induction later with
  | zero => omega
  | succ later ih =>
      by_cases hequal : year = later
      · rw [hequal, daysBeforeYear_succ (hequal ▸ hyear)]
      · have hprevious := ih (by omega)
        rw [daysBeforeYear_succ (by omega)]
        omega

theorem daysBeforeMonth_succ {year month : Nat} (h : 1 ≤ month) :
    daysBeforeMonth year (month + 1) = daysBeforeMonth year month + daysInMonth year month := by
  obtain ⟨previous, rfl⟩ := Nat.exists_eq_add_of_le' h
  simp [daysBeforeMonth, List.range_succ]

theorem daysBeforeMonth_mono (year : Nat) {month later : Nat} (hmonth : 1 ≤ month)
    (h : month < later) :
    daysBeforeMonth year month + daysInMonth year month ≤ daysBeforeMonth year later := by
  induction later with
  | zero => omega
  | succ later ih =>
      by_cases hequal : month = later
      · rw [hequal, daysBeforeMonth_succ (hequal ▸ hmonth)]
      · have hprevious := ih (by omega)
        rw [daysBeforeMonth_succ (by omega)]
        omega

/-- The twelve months make up the year. -/
theorem daysBeforeMonth_thirteen (year : Nat) : daysBeforeMonth year 13 = daysInYear year := by
  simp only [daysBeforeMonth, daysInMonth, daysInYear, List.range_succ]
  split <;> rfl

/-! ## Instants -/

/-- A `datetime` in UTC. -/
structure DateTime where
  year : Nat
  month : Nat
  day : Nat
  hour : Nat
  minute : Nat
  second : Nat
  microsecond : Nat
  year_pos : 1 ≤ year
  year_le : year ≤ 9999
  month_pos : 1 ≤ month
  month_le : month ≤ 12
  day_pos : 1 ≤ day
  day_le : day ≤ daysInMonth year month
  hour_lt : hour < 24
  minute_lt : minute < 60
  second_lt : second < 60
  microsecond_lt : microsecond < 1000000

namespace DateTime

/-- The days since the first of January of year 1. -/
def days (t : DateTime) : Nat :=
  daysBeforeYear t.year + daysBeforeMonth t.year t.month + (t.day - 1)

/-- The seconds since the beginning of year 1. -/
def seconds (t : DateTime) : Nat := ((t.days * 24 + t.hour) * 60 + t.minute) * 60 + t.second

/-- The microseconds since the beginning of year 1. -/
def instant (t : DateTime) : Nat := t.seconds * 1000000 + t.microsecond

/-- The fraction of a second, which `isoformat` leaves out when it is zero, and the
suffix of UTC. -/
def fraction (t : DateTime) : List Char :=
  if t.microsecond = 0 then ['Z'] else '.' :: paddedDigits 6 t.microsecond ++ ['Z']

/-- `isoformat().replace("+00:00", "Z")`. -/
def isoformat (t : DateTime) : List Char :=
  paddedDigits 4 t.year ++ '-' :: (paddedDigits 2 t.month ++ '-' :: (paddedDigits 2 t.day ++
    'T' :: (paddedDigits 2 t.hour ++ ':' :: (paddedDigits 2 t.minute ++ ':' ::
      (paddedDigits 2 t.second ++ t.fraction)))))

end DateTime

/-! ## The order of the texts -/

/-- The second of an instant and the place of its fraction among the texts of that
second: a whole second comes last. -/
def timestampKey (instant : Int) : Int × Int :=
  (instant / 1000000, if instant % 1000000 = 0 then 1000000 else instant % 1000000)

/-- Stored instants are compared as texts. -/
def timestampLt (x y : Int) : Bool :=
  (timestampKey x).1 < (timestampKey y).1 ||
    ((timestampKey x).1 = (timestampKey y).1 && (timestampKey x).2 < (timestampKey y).2)

/-- Two instants are in different seconds, or both have a fraction, or they are the
same. -/
def WrittenAlike (x y : Int) : Prop :=
  x / 1000000 = y / 1000000 → x % 1000000 ≠ 0 ∧ y % 1000000 ≠ 0 ∨ x = y

instance (x y : Int) : Decidable (WrittenAlike x y) := by
  unfold WrittenAlike
  infer_instance

theorem timestampLt_iff {x y : Int} : (timestampLt x y = true ↔ x < y) ↔ WrittenAlike x y := by
  simp only [timestampLt, WrittenAlike, Bool.or_eq_true, Bool.and_eq_true, decide_eq_true_eq]
  simp only [timestampKey]
  split_ifs <;> omega

namespace DateTime

variable (t u : DateTime)

theorem microsecond_eq : t.instant % 1000000 = t.microsecond := by
  have h := t.microsecond_lt
  simp only [instant]
  omega

theorem seconds_eq : t.instant / 1000000 = t.seconds := by
  have h := t.microsecond_lt
  simp only [instant]
  omega

theorem days_lt_iff : t.days < u.days ↔ t.year < u.year ∨ t.year = u.year ∧
    (t.month < u.month ∨ t.month = u.month ∧ t.day < u.day) := by
  have hwithin (t : DateTime) : daysBeforeMonth t.year t.month + (t.day - 1) < daysInYear t.year := by
    have hday := t.day_pos
    have hlast := t.day_le
    have hmonth := daysBeforeMonth_mono t.year t.month_pos (Nat.lt_succ_of_le t.month_le)
    rw [daysBeforeMonth_thirteen] at hmonth
    omega
  have ht := hwithin t
  have hu := hwithin u
  have htday := t.day_pos
  have huday := u.day_pos
  simp only [days]
  rcases Nat.lt_trichotomy t.year u.year with hyear | hyear | hyear
  · have hmono := daysBeforeYear_mono t.year_pos hyear
    omega
  · have htlast := t.day_le
    have hulast := u.day_le
    rw [hyear] at htlast ⊢
    rcases Nat.lt_trichotomy t.month u.month with hmonth | hmonth | hmonth
    · have hmono := daysBeforeMonth_mono u.year t.month_pos hmonth
      omega
    · rw [hmonth]
      omega
    · have hmono := daysBeforeMonth_mono u.year u.month_pos hmonth
      omega
  · have hmono := daysBeforeYear_mono u.year_pos hyear
    omega

theorem seconds_lt_iff : t.seconds < u.seconds ↔ t.days < u.days ∨ t.days = u.days ∧
    (t.hour < u.hour ∨ t.hour = u.hour ∧ (t.minute < u.minute ∨ t.minute = u.minute ∧
      t.second < u.second)) := by
  have hthour := t.hour_lt
  have huhour := u.hour_lt
  have htminute := t.minute_lt
  have huminute := u.minute_lt
  have htsecond := t.second_lt
  have husecond := u.second_lt
  simp only [seconds]
  omega

/-- Texts of one second compare by their fractions. -/
theorem textLt_fraction : textLt t.fraction u.fraction = true ↔
    (timestampKey t.instant).2 < (timestampKey u.instant).2 := by
  have ht := t.microsecond_lt
  have hu := u.microsecond_lt
  have hkey (t : DateTime) : (timestampKey t.instant).2 =
      if t.microsecond = 0 then 1000000 else (t.microsecond : Int) := by
    have hmicrosecond := t.microsecond_eq
    simp only [timestampKey]
    split_ifs <;> omega
  rw [hkey, hkey, fraction, fraction]
  split_ifs with hzero hother hother
  · simp [textLt]
  · simp [textLt]
    omega
  · simp [textLt]
    omega
  · rw [List.cons_append, List.cons_append, textLt_cons, textLt_digits ht hu]
    simp [textLt]

/-- The texts of two instants compare as the key says. -/
theorem textLt_isoformat :
    textLt t.isoformat u.isoformat = true ↔ timestampLt t.instant u.instant = true := by
  have hwidth (t : DateTime) : t.year < 10 ^ 4 ∧ t.month < 10 ^ 2 ∧ t.day < 10 ^ 2 ∧
      t.hour < 10 ^ 2 ∧ t.minute < 10 ^ 2 ∧ t.second < 10 ^ 2 := by
    have hyear := t.year_le
    have hmonth := t.month_le
    have hday := t.day_le
    have hmonthDays : daysInMonth t.year t.month ≤ 31 := by
      unfold daysInMonth
      split
      · split <;> decide
      all_goals decide
    have hhour := t.hour_lt
    have hminute := t.minute_lt
    have hsecond := t.second_lt
    omega
  obtain ⟨htyear, htmonth, htday, hthour, htminute, htsecond⟩ := hwidth t
  obtain ⟨huyear, humonth, huday, huhour, huminute, husecond⟩ := hwidth u
  have hkey (t : DateTime) : (timestampKey t.instant).1 = t.seconds := by
    rw [← t.seconds_eq]
    rfl
  have hdays : t.days = u.days ↔ t.year = u.year ∧ t.month = u.month ∧ t.day = u.day := by
    have hbefore := t.days_lt_iff u
    have hafter := u.days_lt_iff t
    omega
  have hseconds : t.seconds = u.seconds ↔ t.days = u.days ∧ t.hour = u.hour ∧
      t.minute = u.minute ∧ t.second = u.second := by
    have hbefore := t.seconds_lt_iff u
    have hafter := u.seconds_lt_iff t
    omega
  simp only [isoformat, textLt_digits htyear huyear, textLt_digits htmonth humonth,
    textLt_digits htday huday, textLt_digits hthour huhour, textLt_digits htminute huminute,
    textLt_digits htsecond husecond, textLt_cons, lt_irrefl, true_and, false_or]
  simp only [timestampLt, Bool.or_eq_true, Bool.and_eq_true, decide_eq_true_eq, hkey,
    Int.ofNat_lt, Int.ofNat_inj, hseconds, t.seconds_lt_iff u, hdays, t.days_lt_iff u,
    t.textLt_fraction u]
  simp only [and_or_left, and_assoc, or_assoc]

end DateTime

end QhpcEcosystem
