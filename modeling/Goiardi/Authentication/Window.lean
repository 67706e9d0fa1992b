import Goiardi.Authentication.Requests

/-! The time window of a request, and where the arithmetic of durations leaves it open. -/

namespace Goiardi.Authentication

variable {parse : Text → Except Text ℤ} {timeNow timeHeader : ℤ} {timestamp : Text} {slew : Int64}

lemma toInt_sub (t u : ℤ) :
    (sub t u).toInt = if t - u < -2 ^ 63 then -2 ^ 63 else if 2 ^ 63 ≤ t - u then 2 ^ 63 - 1 else t - u := by
  unfold sub Text.minInt64 Text.maxInt64
  split
  · rfl
  · split
    · rw [if_pos (by omega)]
      rfl
    · rw [if_neg (by omega), Int64.toInt_ofInt_of_le (by omega) (by omega)]

lemma toInt_neg (d : Int64) : (-d).toInt = if d.toInt = -2 ^ 63 then -2 ^ 63 else -d.toInt := by
  have hl := d.le_toInt
  have hh := d.toInt_lt
  rw [Int64.toInt_neg]
  split
  · next h =>
    rw [h]
    rfl
  · exact Int.bmod_eq_of_le (by omega) (by omega)

def spread (timeNow timeHeader : ℤ) : Int64 :=
  if sub timeNow timeHeader < 0 then -sub timeNow timeHeader else sub timeNow timeHeader

lemma checkTimeStamp_eq_ok_iff (hp : parse timestamp = .ok timeHeader) :
    checkTimeStamp parse timeNow timestamp slew = .ok () ↔ (spread timeNow timeHeader).toInt ≤ slew.toInt := by
  have hm : checkTimeStamp parse timeNow timestamp slew =
      if slew < spread timeNow timeHeader then .error (unauthorized clockMessage) else .ok () := by
    rw [checkTimeStamp, hp]
    rfl
  rw [hm, ← not_lt, ← Int64.lt_iff_toInt_lt]
  split <;> simp [*]

lemma toInt_spread (timeNow timeHeader : ℤ) :
    (spread timeNow timeHeader).toInt =
      if timeNow - timeHeader ≤ -2 ^ 63 then -2 ^ 63
      else if 2 ^ 63 ≤ timeNow - timeHeader then 2 ^ 63 - 1
      else |timeNow - timeHeader| := by
  have hn : sub timeNow timeHeader < 0 ↔ (sub timeNow timeHeader).toInt < 0 := Int64.lt_iff_toInt_lt
  unfold spread
  generalize hd : timeNow - timeHeader = d
  by_cases h : d < 0
  · have hs : (sub timeNow timeHeader).toInt = if d < -2 ^ 63 then -2 ^ 63 else d := by
      rw [toInt_sub, hd]
      split
      · rfl
      · exact if_neg (by omega)
    rw [if_pos (hn.mpr (by rw [hs]; split <;> omega)), toInt_neg, hs, abs_of_neg h]
    split_ifs <;> omega
  · have hs : (sub timeNow timeHeader).toInt = if 2 ^ 63 ≤ d then 2 ^ 63 - 1 else d := by
      rw [toInt_sub, hd, if_neg (by omega)]
    rw [if_neg (mt hn.mp (by rw [hs]; split <;> omega)), hs, abs_of_nonneg (not_lt.mp h)]
    split_ifs <;> omega

/-- The window is the exact one unless the time is 2⁶³ nanoseconds ahead, or as far back and the slew is the largest
duration. -/
theorem checkTimeStamp_exact_iff (parse : Text → Except Text ℤ) (timeNow timeHeader : ℤ) (timestamp : Text)
    (slew : Int64) (hparse : parse timestamp = .ok timeHeader) (hslew : 0 ≤ slew.toInt) :
    (checkTimeStamp parse timeNow timestamp slew = .ok () ↔ |timeNow - timeHeader| ≤ slew.toInt) ↔
      timeHeader - timeNow < 2 ^ 63 ∧ (timeNow - timeHeader < 2 ^ 63 ∨ slew.toInt < 2 ^ 63 - 1) := by
  have hlt := slew.toInt_lt
  rw [checkTimeStamp_eq_ok_iff hparse, toInt_spread]
  split
  · next h =>
    -- the smallest duration is within every window, and the difference is within none
    rw [abs_of_neg (by omega)]
    constructor <;> intro h' <;> omega
  · split
    · rw [abs_of_nonneg (by omega)]
      constructor <;> intro h' <;> omega
    · exact ⟨fun _ => ⟨by omega, .inl (by omega)⟩, fun _ => Iff.rfl⟩

def isLeap (year : ℕ) : Bool := year % 4 = 0 && (year % 100 ≠ 0 || year % 400 = 0)

def monthLengths (year : ℕ) : List ℕ := [31, if isLeap year then 29 else 28, 31, 30, 31, 30, 31, 31, 30, 31, 30, 31]

def seconds (year month day hour minute second : ℕ) : ℕ :=
  let days := 365 * year + (year + 3) / 4 - (year + 99) / 100 + (year + 399) / 400 +
    ((monthLengths year).take (month - 1)).sum + (day - 1)
  ((days * 24 + hour) * 60 + minute) * 60 + second

def parseUTC (t : Text) : Except Text ℤ :=
  match t.splitOn 'T' with
  | [date, time] =>
    match date.splitOn '-', (time.dropLast).splitOn ':', time.getLast? with
    | [year, month, day], [hour, minute, second], some 'Z' =>
      .ok (1000000000 * seconds (Text.digitsValue year) (Text.digitsValue month) (Text.digitsValue day)
        (Text.digitsValue hour) (Text.digitsValue minute) (Text.digitsValue second))
    | _, _, _ => .error "cannot parse"
  | _ => .error "cannot parse"

def someDay : ℤ := 1000000000 * seconds 2020 2 29 12 0 0

theorem checkTimeStamp_exact_iff_someDay :
    checkTimeStamp parseUTC someDay "2020-02-29T12:05:00Z" defaultTimeSlew = .ok () ↔
      |someDay - (someDay + 300000000000)| ≤ defaultTimeSlew.toInt :=
  (checkTimeStamp_exact_iff parseUTC someDay _ _ _ (by decide) (by decide)).mpr ⟨by decide, .inl (by decide)⟩

theorem checkTimeStamp_open : ∃ timeHeader, parseUTC "2400-01-01T00:00:00Z" = .ok timeHeader ∧
    checkTimeStamp parseUTC someDay "2400-01-01T00:00:00Z" defaultTimeSlew = .ok () ∧
    ¬ |someDay - timeHeader| ≤ defaultTimeSlew.toInt :=
  ⟨1000000000 * seconds 2400 1 1 0 0 0, by decide, by decide, by decide⟩

end Goiardi.Authentication
