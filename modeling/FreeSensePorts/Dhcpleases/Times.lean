import FreeSensePorts.Dhcpleases.Model
import Mathlib.Tactic.IntervalCases

/-!
# The times of leases

`convert_time` turns a date into the seconds since 1970 with one formula.  `Date.epochSeconds` counts
them by the calendar instead, year by year and month by month.  Up to 2099 every fourth year is a
leap year, so the formula gives the days of the calendar; but its sum is an `int`, and from
2038-01-19 03:14:08 on it is negative (`convertTime_tm`).
-/

namespace FreeSense.Dhcpleases

open List

/-! ## The calendar -/

def isLeap (year : ℕ) : Bool := year % 4 = 0 ∧ (year % 100 ≠ 0 ∨ year % 400 = 0)

def daysOfYear (year : ℕ) : ℕ := if isLeap year then 366 else 365

def daysOfMonth (year mon : ℕ) : ℕ :=
  if mon = 2 then if isLeap year then 29 else 28
  else if mon = 4 ∨ mon = 6 ∨ mon = 9 ∨ mon = 11 then 30
  else 31

/-- A date and a time of day from 1970 to 2099. -/
structure Date where
  year : ℕ
  mon : ℕ
  mday : ℕ
  hour : ℕ
  min : ℕ
  sec : ℕ
  year_ge : 1970 ≤ year
  year_le : year ≤ 2099
  mon_ge : 1 ≤ mon
  mon_le : mon ≤ 12
  mday_ge : 1 ≤ mday
  mday_le : mday ≤ daysOfMonth year mon
  hour_lt : hour < 24
  min_lt : min < 60
  sec_lt : sec < 60

namespace Date

variable (d : Date)

/-- The days between the first of January 1970 and the first of January of a year. -/
def daysBeforeYear (year : ℕ) : ℕ := ((List.range (year - 1970)).map fun n => daysOfYear (1970 + n)).sum

def daysBeforeMonth (year mon : ℕ) : ℕ :=
  ((List.range (mon - 1)).map fun m => daysOfMonth year (m + 1)).sum

def epochDays : ℕ := daysBeforeYear d.year + daysBeforeMonth d.year d.mon + (d.mday - 1)

def epochSeconds : ℕ := ((d.epochDays * 24 + d.hour) * 60 + d.min) * 60 + d.sec

def tm : Tm := ⟨d.year, d.mon, d.mday, d.hour, d.min, d.sec⟩

lemma isLeap_iff {year : ℕ} (hge : 1970 ≤ year) (hle : year ≤ 2099) :
    isLeap year = true ↔ year % 4 = 0 := by
  simp only [isLeap, decide_eq_true_eq]
  omega

lemma daysBeforeYear_eq {n : ℕ} (h : n ≤ 129) : daysBeforeYear (1970 + n) = 365 * n + (n + 1) / 4 := by
  induction n with
  | zero => rfl
  | succ n ih =>
    have hstep : daysBeforeYear (1970 + (n + 1)) = daysBeforeYear (1970 + n) + daysOfYear (1970 + n) := by
      have hcount : 1970 + (n + 1) - 1970 = (1970 + n - 1970) + 1 := by omega
      rw [daysBeforeYear, hcount, range_succ, map_append, sum_append, ← daysBeforeYear]
      simp
    have hleap : isLeap (1970 + n) = true ↔ (1970 + n) % 4 = 0 :=
      isLeap_iff (Nat.le_add_right _ _) (by omega)
    rw [hstep, daysOfYear]
    split_ifs with hyear
    · have := hleap.mp hyear
      omega
    · have := mt hleap.mpr hyear
      omega

/-- The table of `convert_time`, and the leap day. -/
lemma daysBeforeMonth_eq (year : ℕ) {mon : ℕ} (hge : 1 ≤ mon) (hle : mon ≤ 12) (x : ℤ) :
    (daysBeforeMonth year mon : ℤ)
      = (if (mon : ℤ) > 1 then (months[((mon : ℤ) - 2).toNat]?).getD x else 0)
        + if mon > 2 ∧ isLeap year then 1 else 0 := by
  cases hleap : isLeap year <;> interval_cases mon <;>
    simp [daysBeforeMonth, daysOfMonth, hleap, range_succ, months]

/-- **The formula gives the seconds of the calendar**, as an `int`. -/
lemma convertTime_tm (beyond : ℤ → ℤ) : convertTime beyond d.tm = Text.toInt d.epochSeconds := by
  obtain ⟨n, hn⟩ : ∃ n, d.year = 1970 + n := Nat.exists_eq_add_of_le d.year_ge
  have hle := d.year_le
  have hyears := daysBeforeYear_eq (show n ≤ 129 by omega)
  have hmonths := daysBeforeMonth_eq d.year d.mon_ge d.mon_le (beyond (d.mon - 2))
  have hday := d.mday_ge
  have hsmall : Text.toInt ((d.year : ℤ) - 1969) = (d.year : ℤ) - 1969 :=
    Int.bmod_eq_of_le (by omega) (by omega)
  have hdiv : ((d.year : ℤ) - 1969).tdiv 4 = ((n + 1) / 4 : ℕ) := by
    rw [Int.tdiv_eq_ediv_of_nonneg (by omega)]
    omega
  have hleap : (if (d.mon : ℤ) > 2 ∧ ((d.year : ℤ) - 1972) % 4 = 0 then (1 : ℤ) else 0)
      = if d.mon > 2 ∧ isLeap d.year then 1 else 0 := by
    refine if_congr ?_ rfl rfl
    rw [isLeap_iff d.year_ge d.year_le]
    omega
  have hdays : (d.epochDays : ℤ) = 365 * ((d.year : ℤ) - 1970) + ((n + 1) / 4 : ℕ)
      + daysBeforeMonth d.year d.mon + d.mday - 1 := by
    rw [epochDays, hn]
    omega
  have hseconds : (d.epochSeconds : ℤ)
      = (((d.epochDays : ℤ) * 24 + d.hour) * 60 + d.min) * 60 + d.sec := by
    rw [epochSeconds]
    omega
  have hformula : convertTime beyond d.tm = Text.toInt (((((365 * ((d.year : ℤ) - 1970)
      + (Text.toInt ((d.year : ℤ) - 1969)).tdiv 4
      + (if (d.mon : ℤ) > 1 then (months[((d.mon : ℤ) - 2).toNat]?).getD (beyond (d.mon - 2)) else 0)
      + (if (d.mon : ℤ) > 2 ∧ ((d.year : ℤ) - 1972) % 4 = 0 then 1 else 0) + d.mday - 1) * 24
      + d.hour) * 60) + d.min) * 60 + d.sec) := rfl
  rw [hformula, hsmall, hdiv, hleap, hseconds, hdays, hmonths, ← Int.add_assoc]

end Date

lemma mem_pruned_of_lt {now : ℤ} {leases : List Lease} {l : Lease} {entry : Entry} (hl : l ∈ leases)
    (hexpires : l.expires = entry.expires) (hnow : now < entry.ttd) (htime : 0 ≤ entry.ttd) :
    l ∈ pruned now leases := by
  rw [pruned, mem_filter]
  refine ⟨hl, ?_⟩
  have hend : l.expires = 0 ∨ l.expires = entry.ttd := by
    have httd : (if entry.ttd = -1 then 0 else entry.ttd) = entry.ttd := if_neg (by omega)
    rw [hexpires, Entry.expires, httd]
    split_ifs
    · exact .inl rfl
    · exact .inr rfl
  have hstays : l.expires = 0 ∨ ¬l.expires < now := by omega
  simpa [Classical.or_iff_not_imp_left] using hstays

/-- **A time is converted to the right instant**, and a lease that ends then stays until then, exactly
if the instant is before 2038-01-19 03:14:08. -/
theorem convertTime_iff (d : Date) (beyond : ℤ → ℤ) :
    (convertTime beyond d.tm = d.epochSeconds ∧
        ∀ (entry : Entry) (now : ℤ) (leases : List Lease) (l : Lease),
          entry.ttd = convertTime beyond d.tm → now < d.epochSeconds → l ∈ leases →
          l.expires = entry.expires → l ∈ pruned now leases) ↔
      d.epochSeconds < 2 ^ 31 := by
  rw [d.convertTime_tm]
  constructor
  · rintro ⟨hconvert, -⟩
    have hlt : Text.toInt d.epochSeconds < 2 ^ 31 := Int.bmod_lt (by decide)
    rw [hconvert] at hlt
    exact_mod_cast hlt
  · intro hlt
    have hconvert : Text.toInt d.epochSeconds = d.epochSeconds :=
      Int.bmod_eq_of_le (by omega) (by omega)
    refine ⟨hconvert, fun entry now leases l httd hnow hl hexpires => ?_⟩
    rw [hconvert] at httd
    exact mem_pruned_of_lt hl hexpires (httd ▸ hnow) (httd ▸ Int.natCast_nonneg _)

/-- The first second that an `int` cannot hold. -/
def rollover : Date :=
  ⟨2038, 1, 19, 3, 14, 8, by decide, by decide, by decide, by decide, by decide, by decide, by decide,
    by decide, by decide⟩

/-- **A lease of the far future is pruned.**  It ends in 2038, and is gone in 2033. -/
theorem far_future_pruned :
    rollover.epochSeconds = 2147483648 ∧ convertTime (fun _ => 0) rollover.tm = -2147483648 ∧
      pruned 2000000000
        [(⟨lit "host", convertTime (fun _ => 0) rollover.tm, -1⟩ : Entry).lease (lit "local")
          ⟨192, 0, 2, 10⟩] = [] :=
  ⟨by decide +kernel, by decide +kernel, by decide +kernel⟩

end FreeSense.Dhcpleases
