import ScratchDb.Values.CivilDays

/-!
# Reading dates and times back

A text has a place for four digits of a year and two of an hour. Dates outside
the years 0 to 9999 and times of a day's length or more are not read back; a
date with a time is read back as the day and the second that were printed.
-/

namespace ScratchDb

open PaddedDecimal

/-! ## Three numbers and two separators -/

/-- The number that a text of digits alone stands for. -/
def allDigits (digits : List Char) : Option Nat :=
  if digits.all Char.isDigit then some (Nat.ofDigitChars 10 digits 0) else none

theorem allDigits_padded (width n : Nat) : allDigits (padded width n) = some n := by
  have hdigits : (padded width n).all Char.isDigit = true := by
    rw [List.all_eq_true]
    exact fun c => isDigit_of_mem_padded
  rw [allDigits, if_pos hdigits, ofDigitChars_padded]

theorem parseDigits_append {front piece back : List Char} {pos count : Nat}
    (hpos : front.length = pos) (hcount : piece.length = count) :
    parseDigits (front ++ (piece ++ back)) pos count = allDigits piece := by
  subst hpos hcount
  rw [parseDigits, if_neg (by rw [List.length_append, List.length_append]; omega)]
  simp only [List.drop_left, List.take_left]
  rfl

theorem getElem?_append_length (front back : List Char) (c : Char) {pos : Nat}
    (h : front.length = pos) : (front ++ c :: back)[pos]? = some c := by
  rw [List.getElem?_append_right (by omega), h, Nat.sub_self]
  rfl

section Fields

variable {first second third : List Char} {separator : Char} {n m k : Nat}

/-- The fields of a text are found at the places that their lengths give. -/
theorem parseDigits_fields (hfirst : first.length = n) (hsecond : second.length = m)
    (hthird : third.length = k) :
    let text := first ++ separator :: (second ++ separator :: third)
    (text[n]? = some separator ∧ text[n + 1 + m]? = some separator) ∧
      parseDigits text 0 n = allDigits first ∧ parseDigits text (n + 1) m = allDigits second ∧
      parseDigits text (n + 1 + m + 1) k = allDigits third := by
  intro text
  have hone : text = (first ++ [separator]) ++ (second ++ (separator :: third)) := by
    simp [text]
  have htwo : text = (first ++ separator :: second) ++ separator :: third := by simp [text]
  have hthree : text = (first ++ separator :: (second ++ [separator])) ++ (third ++ []) := by
    simp [text]
  refine ⟨⟨getElem?_append_length _ _ _ hfirst, ?_⟩, ?_, ?_, ?_⟩
  · rw [htwo]
    exact getElem?_append_length _ _ _ (by simp [hfirst, hsecond]; omega)
  · exact @parseDigits_append [] _ _ _ _ rfl hfirst
  · rw [hone]
    exact parseDigits_append (by simp [hfirst]) hsecond
  · rw [hthree]
    exact parseDigits_append (by simp [hfirst, hsecond]; omega) hthird

theorem length_fields (hfirst : first.length = n) (hsecond : second.length = m)
    (hthird : third.length = k) :
    (first ++ separator :: (second ++ separator :: third)).length = n + m + k + 2 := by
  simp only [List.length_append, List.length_cons]
  omega

end Fields

theorem length_twoDigits {n : Nat} (h : n < 100) : (twoDigits n).length = 2 :=
  length_padded (by decide) h

/-! ## Times -/

theorem Time.toString_eq (seconds : Nat) :
    Time.toString seconds = twoDigits (seconds / 3600) ++
      ':' :: (twoDigits (seconds % 3600 / 60) ++ ':' :: twoDigits (seconds % 60)) := rfl

theorem Time.length_toString {seconds : Nat} (h : seconds < 360000) :
    (Time.toString seconds).length = 8 :=
  length_fields (length_twoDigits (by omega)) (length_twoDigits (by omega))
    (length_twoDigits (by omega))

theorem Time.fromString_toString (seconds : Nat) :
    Time.fromString (Time.toString seconds) = if seconds < 86400 then some seconds else none := by
  have hminute : (twoDigits (seconds % 3600 / 60)).length = 2 := length_twoDigits (by omega)
  have hsecond : (twoDigits (seconds % 60)).length = 2 := length_twoDigits (by omega)
  rcases Nat.lt_or_ge seconds 360000 with hshort | hlong
  · have hhour : (twoDigits (seconds / 3600)).length = 2 := length_twoDigits (by omega)
    obtain ⟨⟨hat, hat'⟩, hreadH, hreadM, hreadS⟩ :=
      @parseDigits_fields _ _ _ ':' _ _ _ hhour hminute hsecond
    rw [← Time.toString_eq] at hat hat' hreadH hreadM hreadS
    rw [twoDigits, allDigits_padded] at hreadH hreadM hreadS
    have hform : ¬ ((Time.toString seconds).length ≠ 8 ∨
        (Time.toString seconds)[2]? ≠ some ':' ∨ (Time.toString seconds)[5]? ≠ some ':') := by
      rw [Time.length_toString hshort, hat, hat']
      simp
    rw [Time.fromString, if_neg hform]
    simp only [hreadH, hreadM, hreadS, Option.bind_eq_bind, Option.bind_some]
    rcases Nat.lt_or_ge seconds 86400 with hday | hday
    · rw [if_neg (by omega), if_pos hday]
      exact congrArg some (by omega)
    · rw [if_pos (by omega), if_neg (by omega)]
  · -- an hour of three digits
    have hhour : 2 < (twoDigits (seconds / 3600)).length :=
      lt_length_padded (by decide) (show 10 ^ 2 ≤ seconds / 3600 by omega)
    have hlength := @length_fields (twoDigits (seconds / 3600)) _ _ ':' _ _ _ rfl hminute hsecond
    rw [← Time.toString_eq] at hlength
    rw [Time.fromString, if_pos (.inl (by omega)), if_neg (by omega)]

/-! ## Dates -/

theorem Date.toString_eq (days : Int) :
    Date.toString days = (signedDecimal (civilFromDays days).1).leftpad 4 '0' ++
      '-' :: (twoDigits (civilFromDays days).2.1 ++ '-' :: twoDigits (civilFromDays days).2.2) :=
  rfl

/-- The place of the year holds a number exactly in the years 0 to 9999. -/
theorem yearText_spec (year : Int) :
    (0 ≤ year ∧ year ≤ 9999 → ((signedDecimal year).leftpad 4 '0').length = 4 ∧
      allDigits ((signedDecimal year).leftpad 4 '0') = some year.toNat) ∧
    (¬ (0 ≤ year ∧ year ≤ 9999) → ((signedDecimal year).leftpad 4 '0').length = 4 →
      allDigits ((signedDecimal year).leftpad 4 '0') = none) := by
  rcases lt_or_ge year 0 with hneg | hnonneg
  · refine ⟨fun h => by omega, fun _ _ => ?_⟩
    -- the sign is no digit
    have hsign : '-' ∈ (signedDecimal year).leftpad 4 '0' := by
      rw [signedDecimal, if_pos hneg]
      exact List.mem_append_right _ List.mem_cons_self
    rw [allDigits, if_neg]
    intro hall
    exact absurd (List.all_eq_true.mp hall _ hsign) (by decide)
  · have htext : (signedDecimal year).leftpad 4 '0' = padded 4 year.toNat := by
      rw [signedDecimal, if_neg (by omega), show year.natAbs = year.toNat by omega]
      rfl
    rw [htext]
    refine ⟨fun h => ⟨length_padded (by decide) (by omega), allDigits_padded 4 _⟩,
      fun h hfour => ?_⟩
    have hlong : 4 < (padded 4 year.toNat).length :=
      lt_length_padded (by decide) (show 10 ^ 4 ≤ year.toNat by omega)
    omega

/-- The days that a DATE is read back for. -/
def Date.HasFourDigits (days : Int) : Prop := -719528 ≤ days ∧ days ≤ 2932896

instance (days : Int) : Decidable (Date.HasFourDigits days) := inferInstanceAs (Decidable (_ ∧ _))

theorem Date.fromString_toString (days : Int) :
    Date.fromString (Date.toString days) =
      if Date.HasFourDigits days then some days else none := by
  obtain ⟨era, yearOfEra, dayOfYear, hfits, hdays, hcivil⟩ := civilFromDays_parts days
  have hback := @daysFromCivil_civilOf era _ _ hfits
  have hvalid := @isValidDate_civilOf era _ _ hfits
  obtain ⟨hlow, hhigh⟩ := civilOf_year_iff hfits hdays
  rw [← hcivil] at hback hvalid hlow hhigh
  have hinside : Date.HasFourDigits days ↔
      0 ≤ (civilFromDays days).1 ∧ (civilFromDays days).1 ≤ 9999 := by
    rw [hlow, hhigh]
    rfl
  have hday : (civilFromDays days).2.1 < 100 ∧ (civilFromDays days).2.2 < 100 := by
    rw [hcivil]
    exact twoDigits_suffice ⟨dayOfYear, hfits.2.1⟩
  obtain ⟨hread, hunread⟩ := yearText_spec (civilFromDays days).1
  have hlengthM : (twoDigits (civilFromDays days).2.1).length = 2 := length_twoDigits hday.1
  have hlengthD : (twoDigits (civilFromDays days).2.2).length = 2 := length_twoDigits hday.2
  by_cases hyear : ((signedDecimal (civilFromDays days).1).leftpad 4 '0').length = 4
  · have hlength := @length_fields _ _ _ '-' _ _ _ hyear hlengthM hlengthD
    obtain ⟨⟨hat, hat'⟩, hreadY, hreadM, hreadD⟩ :=
      @parseDigits_fields _ _ _ '-' _ _ _ hyear hlengthM hlengthD
    rw [← Date.toString_eq] at hat hat' hreadY hreadM hreadD hlength
    rw [twoDigits, allDigits_padded] at hreadM hreadD
    have hform : ¬ ((Date.toString days).length ≠ 10 ∨ (Date.toString days)[4]? ≠ some '-' ∨
        (Date.toString days)[7]? ≠ some '-') := by
      rw [hlength, hat, hat']
      simp
    rw [Date.fromString, if_neg hform]
    simp only [hreadY, hreadM, hreadD, Option.bind_eq_bind]
    by_cases hin : Date.HasFourDigits days
    · have hyears := hinside.mp hin
      rw [(hread hyears).2, if_pos hin]
      simp only [Option.bind_some, hvalid, if_true]
      have hnat : ((civilFromDays days).1.toNat : Int) = (civilFromDays days).1 := by omega
      rw [hnat, hback]
      exact congrArg some (by omega)
    · rw [hunread (fun h => hin (hinside.mpr h)) hyear, if_neg hin]
      rfl
  · have hlength := @length_fields ((signedDecimal (civilFromDays days).1).leftpad 4 '0') _ _ '-'
      _ _ _ rfl hlengthM hlengthD
    rw [← Date.toString_eq] at hlength
    rw [Date.fromString, if_pos (.inl (by omega)),
      if_neg fun h => hyear (hread (hinside.mp h)).1]

/-! ## Dates with times -/

/-- The day that is printed: rounded towards 1970 and cast to `int32_t`. -/
def DateTime.printedDay (seconds : Int) : Int := (seconds.tdiv 86400).bmod (2 ^ 32)

theorem DateTime.toString_eq (seconds : Int) :
    DateTime.toString seconds =
      Date.toString (DateTime.printedDay seconds) ++
        ' ' :: Time.toString (seconds % 86400).toNat := by
  have hseconds : (if seconds.tmod secondsPerDay < 0 then seconds.tmod secondsPerDay + secondsPerDay
      else seconds.tmod secondsPerDay) = seconds % 86400 := by
    rw [secondsPerDay, Int.tmod_def, Int.tdiv_eq_ediv]
    have hsign : Int.sign 86400 = 1 := rfl
    simp only [Nat.cast_ofNat, hsign]
    split <;> split <;> omega
  rw [DateTime.toString]
  simp only [hseconds]
  rfl

theorem DateTime.fromString_toString (seconds : Int) :
    DateTime.fromString (DateTime.toString seconds) =
      if Date.HasFourDigits (DateTime.printedDay seconds) then
        some (DateTime.printedDay seconds * 86400 + seconds % 86400)
      else none := by
  have hday : (seconds % 86400).toNat < 86400 := by omega
  have htime := Time.fromString_toString (seconds % 86400).toNat
  have hdate := Date.fromString_toString (DateTime.printedDay seconds)
  have hlengthT : (Time.toString (seconds % 86400).toNat).length = 8 :=
    Time.length_toString (by omega)
  rw [if_pos hday] at htime
  rw [DateTime.toString_eq]
  by_cases hlength : (Date.toString (DateTime.printedDay seconds)).length = 10
  · rw [DateTime.fromString, List.take_left' hlength, if_neg]
    · have hrest : ((Date.toString (DateTime.printedDay seconds) ++
          ' ' :: Time.toString (seconds % 86400).toNat).drop 11).take 8 =
          Time.toString (seconds % 86400).toNat := by
        have hbefore : (Date.toString (DateTime.printedDay seconds) ++ [' ']).length = 11 := by
          rw [List.length_append, hlength]
          rfl
        rw [List.append_cons, List.drop_left' hbefore, List.take_of_length_le (by omega)]
      simp only [hrest, htime, hdate, Option.bind_eq_bind]
      split
      · simp only [Option.bind_some, secondsPerDay]
        exact congrArg some (by omega)
      · rfl
    · rw [getElem?_append_length _ _ _ hlength]
      simp [hlength, hlengthT]
  · have hunread : Date.fromString (Date.toString (DateTime.printedDay seconds)) = none := by
      rw [Date.fromString, if_pos (.inl hlength)]
    rw [hunread] at hdate
    rw [DateTime.fromString, if_pos (.inl (by simp [hlengthT]; omega))]
    split at hdate
    · cases hdate
    · rename_i hout
      rw [if_neg hout]

end ScratchDb
