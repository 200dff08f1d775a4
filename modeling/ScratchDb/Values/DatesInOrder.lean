import ScratchDb.Values.DateTexts

/-!
# Dates and times in order

A text that is read as a date, a time or both has fields of fixed widths, and so
its order is that of its numbers. The text is printed back except for moments
before 1970 that are not midnight: their day is rounded the wrong way.
-/

namespace ScratchDb

open PaddedDecimal

/-! ## Fields -/

theorem drop_of_getElem? {text : List Char} {pos : Nat} {c : Char} (h : text[pos]? = some c) :
    text.drop pos = c :: text.drop (pos + 1) := by
  obtain ⟨hlt, hc⟩ := List.getElem?_eq_some_iff.mp h
  rw [List.drop_eq_getElem_cons hlt, hc]

/-- A text is its fields and the separators between them. -/
theorem fields_of_places {text : List Char} {separator : Char} {n m k : Nat}
    (hlen : text.length = n + m + k + 2) (hat : text[n]? = some separator)
    (hat' : text[n + 1 + m]? = some separator) :
    text = text.take n ++ separator :: ((text.drop (n + 1)).take m ++
      separator :: (text.drop (n + 1 + m + 1)).take k) := by
  have hlast : (text.drop (n + 1 + m + 1)).take k = text.drop (n + 1 + m + 1) :=
    List.take_of_length_le (by rw [List.length_drop]; omega)
  have hrest : (text.drop (n + 1)).drop m = separator :: text.drop (n + 1 + m + 1) := by
    rw [List.drop_drop, drop_of_getElem? hat']
  rw [hlast, ← hrest, List.take_append_drop, ← drop_of_getElem? hat, List.take_append_drop]

/-- Texts with fields of the same lengths are ordered by the first field that differs. -/
theorem fields_lt_iff {f f' s s' t t' : List Char} (separator : Char)
    (hf : f.length = f'.length) (hs : s.length = s'.length) :
    f ++ separator :: (s ++ separator :: t) < f' ++ separator :: (s' ++ separator :: t') ↔
      f < f' ∨ f = f' ∧ (s < s' ∨ s = s' ∧ t < t') := by
  rw [append_lt_append_iff _ _ hf, List.cons_lt_cons_self, append_lt_append_iff _ _ hs,
    List.cons_lt_cons_self]

/-- What is read at a place is the number that is printed there. -/
theorem parseDigits_eq_some {text : List Char} {pos count n : Nat} (hpos : 0 < count)
    (h : parseDigits text pos count = some n) :
    (text.drop pos).take count = padded count n ∧ n < 10 ^ count := by
  rw [parseDigits] at h
  split at h
  · cases h
  · rename_i hlong
    dsimp only at h
    split at h
    · rename_i hall
      have hdigits : ∀ c ∈ (text.drop pos).take count, c.isDigit = true := List.all_eq_true.mp hall
      have hlen : ((text.drop pos).take count).length = count := by
        rw [List.length_take, List.length_drop]
        omega
      have hne : (text.drop pos).take count ≠ [] := List.ne_nil_of_length_pos (by omega)
      have hprinted := padded_ofDigitChars hdigits hne
      have hbound := ofDigitChars_lt hdigits
      rw [hlen] at hprinted hbound
      cases h
      exact ⟨hprinted.symm, hbound⟩
    · cases h

/-! ## Dates -/

theorem Date.fromString_eq_some {text : List Char} {days : Int}
    (h : Date.fromString text = some days) :
    ∃ year month day, text = padded 4 year ++ '-' :: (twoDigits month ++ '-' :: twoDigits day) ∧
      (year < 10 ^ 4 ∧ month < 10 ^ 2 ∧ day < 10 ^ 2) ∧ isValidDate year month day = true ∧
      days = daysFromCivil year month day := by
  rw [Date.fromString] at h
  split at h
  · cases h
  · rename_i hform
    simp only [not_or, not_not] at hform
    obtain ⟨hlen, hat, hat'⟩ := hform
    obtain ⟨year, hyear, h⟩ := Option.bind_eq_some_iff.mp h
    obtain ⟨month, hmonth, h⟩ := Option.bind_eq_some_iff.mp h
    obtain ⟨day, hday, h⟩ := Option.bind_eq_some_iff.mp h
    split at h
    · rename_i hvalid
      cases h
      obtain ⟨hyear, hyears⟩ := parseDigits_eq_some (by decide) hyear
      obtain ⟨hmonth, hmonths⟩ := parseDigits_eq_some (by decide) hmonth
      obtain ⟨hday, hdays⟩ := parseDigits_eq_some (by decide) hday
      refine ⟨year, month, day, ?_, ⟨hyears, hmonths, hdays⟩, hvalid, rfl⟩
      have hfields := @fields_of_places text '-' 4 2 2 hlen hat hat'
      rw [← List.drop_zero (l := text), hyear, List.drop_zero, hmonth, hday] at hfields
      exact hfields
    · cases h

theorem Date.toString_fromString {text : List Char} {days : Int}
    (h : Date.fromString text = some days) : Date.toString days = text := by
  obtain ⟨year, month, day, rfl, -, hvalid, rfl⟩ := Date.fromString_eq_some h
  rw [Date.toString_eq, civilFromDays_daysFromCivil hvalid]
  have hyear : (signedDecimal (year : Int)).leftpad 4 '0' = padded 4 year := by
    rw [signedDecimal, if_neg (by omega), Int.natAbs_natCast]
    rfl
  rw [hyear]

theorem Date.fromString_lt_iff {text text' : List Char} {days days' : Int}
    (h : Date.fromString text = some days) (h' : Date.fromString text' = some days') :
    days < days' ↔ text < text' := by
  obtain ⟨year, month, day, rfl, ⟨hyear, hmonth, hday⟩, hvalid, rfl⟩ := Date.fromString_eq_some h
  obtain ⟨year', month', day', rfl, ⟨hyear', hmonth', hday'⟩, hvalid', rfl⟩ :=
    Date.fromString_eq_some h'
  rw [daysFromCivil_lt_iff hvalid hvalid', Earlier, fields_lt_iff '-'
    (by rw [length_padded (by decide) hyear, length_padded (by decide) hyear'])
    (by rw [length_twoDigits hmonth, length_twoDigits hmonth']), twoDigits, twoDigits, twoDigits,
    twoDigits, padded_lt_iff (by decide) hyear hyear', padded_lt_iff (by decide) hmonth hmonth',
    padded_lt_iff (by decide) hday hday', padded_inj, padded_inj]

/-! ## Times -/

theorem Time.fromString_eq_some {text : List Char} {seconds : Nat}
    (h : Time.fromString text = some seconds) :
    ∃ hour minute second, text =
        twoDigits hour ++ ':' :: (twoDigits minute ++ ':' :: twoDigits second) ∧
      hour ≤ 23 ∧ minute ≤ 59 ∧ second ≤ 59 ∧ seconds = hour * 3600 + minute * 60 + second := by
  rw [Time.fromString] at h
  split at h
  · cases h
  · rename_i hform
    simp only [not_or, not_not] at hform
    obtain ⟨hlen, hat, hat'⟩ := hform
    obtain ⟨hour, hhour, h⟩ := Option.bind_eq_some_iff.mp h
    obtain ⟨minute, hminute, h⟩ := Option.bind_eq_some_iff.mp h
    obtain ⟨second, hsecond, h⟩ := Option.bind_eq_some_iff.mp h
    split at h
    · cases h
    · rename_i hrange
      cases h
      obtain ⟨hhour, -⟩ := parseDigits_eq_some (by decide) hhour
      obtain ⟨hminute, -⟩ := parseDigits_eq_some (by decide) hminute
      obtain ⟨hsecond, -⟩ := parseDigits_eq_some (by decide) hsecond
      refine ⟨hour, minute, second, ?_, by omega, by omega, by omega, rfl⟩
      have hfields := @fields_of_places text ':' 2 2 2 hlen hat hat'
      rw [← List.drop_zero (l := text), hhour, List.drop_zero, hminute, hsecond] at hfields
      exact hfields

theorem Time.toString_fromString {text : List Char} {seconds : Nat}
    (h : Time.fromString text = some seconds) : Time.toString seconds = text := by
  obtain ⟨hour, minute, second, rfl, hhour, hminute, hsecond, rfl⟩ := Time.fromString_eq_some h
  have hparts : (hour * 3600 + minute * 60 + second) / 3600 = hour ∧
      (hour * 3600 + minute * 60 + second) % 3600 / 60 = minute ∧
      (hour * 3600 + minute * 60 + second) % 60 = second := by omega
  rw [Time.toString_eq, hparts.1, hparts.2.1, hparts.2.2]

theorem Time.fromString_lt_iff {text text' : List Char} {seconds seconds' : Nat}
    (h : Time.fromString text = some seconds) (h' : Time.fromString text' = some seconds') :
    seconds < seconds' ↔ text < text' := by
  obtain ⟨hour, minute, second, rfl, hhour, hminute, hsecond, rfl⟩ := Time.fromString_eq_some h
  obtain ⟨hour', minute', second', rfl, hhour', hminute', hsecond', rfl⟩ :=
    Time.fromString_eq_some h'
  have hwidth : ∀ {n : Nat}, n ≤ 59 → n < 10 ^ 2 := fun {n} hn => by omega
  rw [fields_lt_iff ':'
    (by rw [length_twoDigits (by omega), length_twoDigits (by omega)])
    (by rw [length_twoDigits (by omega), length_twoDigits (by omega)]), twoDigits, twoDigits,
    twoDigits, twoDigits, twoDigits, twoDigits,
    padded_lt_iff (by decide) (hwidth (by omega)) (hwidth (by omega)),
    padded_lt_iff (by decide) (hwidth hminute) (hwidth hminute'),
    padded_lt_iff (by decide) (hwidth hsecond) (hwidth hsecond'), padded_inj, padded_inj]
  omega

/-! ## Dates with times -/

theorem DateTime.fromString_eq_some {text : List Char} {seconds : Int}
    (h : DateTime.fromString text = some seconds) :
    ∃ date time, Date.fromString (text.take 10) = some date ∧
      Time.fromString (text.drop 11) = some time ∧ text = text.take 10 ++ ' ' :: text.drop 11 ∧
      (text.take 10).length = 10 ∧ seconds = date * 86400 + time := by
  rw [DateTime.fromString] at h
  split at h
  · cases h
  · rename_i hform
    simp only [not_or, not_not] at hform
    obtain ⟨hlen, hat⟩ := hform
    obtain ⟨date, hdate, h⟩ := Option.bind_eq_some_iff.mp h
    obtain ⟨time, htime, h⟩ := Option.bind_eq_some_iff.mp h
    rw [List.take_of_length_le (by rw [List.length_drop]; omega)] at htime
    cases h
    refine ⟨date, time, hdate, htime, ?_, by rw [List.length_take]; omega, rfl⟩
    rw [← drop_of_getElem? hat, List.take_append_drop]

theorem Time.fromString_bound {text : List Char} {seconds : Nat}
    (h : Time.fromString text = some seconds) : seconds < 86400 := by
  obtain ⟨hour, minute, second, -, hhour, hminute, hsecond, rfl⟩ := Time.fromString_eq_some h
  omega

theorem Date.fromString_bounds {text : List Char} {days : Int}
    (h : Date.fromString text = some days) : Date.HasFourDigits days := by
  have hback := Date.fromString_toString days
  rw [Date.toString_fromString h, h] at hback
  by_contra hnot
  rw [if_neg hnot] at hback
  cases hback

theorem DateTime.fromString_lt_iff {text text' : List Char} {seconds seconds' : Int}
    (h : DateTime.fromString text = some seconds)
    (h' : DateTime.fromString text' = some seconds') : seconds < seconds' ↔ text < text' := by
  obtain ⟨date, time, hdate, htime, htext, hlen, rfl⟩ := DateTime.fromString_eq_some h
  obtain ⟨date', time', hdate', htime', htext', hlen', rfl⟩ := DateTime.fromString_eq_some h'
  have hdates := Date.fromString_lt_iff hdate hdate'
  have htimes := Time.fromString_lt_iff htime htime'
  have hbound := Time.fromString_bound htime
  have hbound' := Time.fromString_bound htime'
  have hsame : date = date' ↔ text.take 10 = text'.take 10 := by
    constructor
    · rintro rfl
      rw [← Date.toString_fromString hdate, Date.toString_fromString hdate']
    · intro heq
      rw [heq, hdate'] at hdate
      exact (Option.some.inj hdate).symm
  rw [htext, htext', append_lt_append_iff _ _ (hlen.trans hlen'.symm), List.cons_lt_cons_self,
    ← hdates, ← htimes, ← hsame]
  omega

/-- The day that is printed is one too late for a moment before 1970 that is not midnight. -/
theorem DateTime.printedDay_eq {date : Int} {time : Nat} (hdate : Date.HasFourDigits date)
    (htime : time < 86400) :
    DateTime.printedDay (date * 86400 + time) = if 0 ≤ date ∨ time = 0 then date else date + 1 := by
  obtain ⟨hlow, hhigh⟩ := hdate
  have hsign : Int.sign 86400 = 1 := rfl
  have hday : (date * 86400 + time).tdiv 86400 = if 0 ≤ date ∨ time = 0 then date else date + 1 := by
    rw [Int.tdiv_eq_ediv, hsign]
    split <;> split <;> omega
  rw [DateTime.printedDay, hday]
  split <;> exact Int.bmod_eq_of_le (by omega) (by omega)

/-- The texts of midnight and of moments from 1970 on. -/
def DateTime.PrintedBack (text : List Char) : Prop :=
  ¬ text.take 10 < "1970-01-01".toList ∨ text.drop 11 = "00:00:00".toList

theorem DateTime.toString_fromString_iff {text : List Char} {seconds : Int}
    (h : DateTime.fromString text = some seconds) :
    DateTime.toString seconds = text ↔ DateTime.PrintedBack text := by
  obtain ⟨date, time, hdate, htime, htext, hlen, rfl⟩ := DateTime.fromString_eq_some h
  have hbounds := Date.fromString_bounds hdate
  have hbound := Time.fromString_bound htime
  have hsecond : ((date * 86400 + time) % 86400).toNat = time := by omega
  have hepoch : 0 ≤ date ↔ ¬ text.take 10 < "1970-01-01".toList := by
    have hstart : Date.fromString "1970-01-01".toList = some 0 := by decide
    rw [← not_lt, Date.fromString_lt_iff hdate hstart]
  have hmidnight : time = 0 ↔ text.drop 11 = "00:00:00".toList := by
    have hzero : Time.fromString "00:00:00".toList = some 0 := by decide
    constructor
    · rintro rfl
      rw [← Time.toString_fromString htime, Time.toString_fromString hzero]
    · intro heq
      rw [heq, hzero] at htime
      exact (Option.some.inj htime).symm
  rw [DateTime.toString_eq, hsecond, DateTime.printedDay_eq hbounds hbound,
    Time.toString_fromString htime, DateTime.PrintedBack, ← hepoch, ← hmidnight]
  split
  · rename_i hrounded
    rw [Date.toString_fromString hdate]
    exact iff_of_true htext.symm hrounded
  · rename_i hearly
    refine iff_of_false (fun heq => ?_) hearly
    -- the next day has another text
    obtain ⟨hlow, hhigh⟩ := hbounds
    have hnext := Date.fromString_toString (date + 1)
    rw [if_pos ⟨by omega, by omega⟩] at hnext
    have hlength : (Date.toString (date + 1)).length = (text.take 10).length := by
      have htotal := congrArg List.length heq
      have hown := congrArg List.length htext
      simp only [List.length_append] at htotal hown
      omega
    have hfront : Date.toString (date + 1) = text.take 10 :=
      (List.append_inj (heq.trans htext) hlength).1
    rw [hfront, hdate] at hnext
    have := Option.some.inj hnext
    omega

/-! ## The three types -/

inductive CalendarType where
  | date
  | time
  | datetime
deriving DecidableEq

namespace CalendarType

def fromString (type : CalendarType) (text : List Char) : Option Int :=
  match type with
  | .date => Date.fromString text
  | .time => (Time.fromString text).map Int.ofNat
  | .datetime => DateTime.fromString text

def toString (type : CalendarType) (value : Int) : List Char :=
  match type with
  | .date => Date.toString value
  | .time => Time.toString value.toNat
  | .datetime => DateTime.toString value

/-- The texts that are printed back. -/
def PrintedBack (type : CalendarType) (text : List Char) : Prop :=
  type = .datetime → DateTime.PrintedBack text

variable {type : CalendarType} {text first second : List Char} {value x y : Int}

theorem toString_eq_iff (h : type.fromString text = some value) :
    type.toString value = text ↔ type.PrintedBack text := by
  cases type with
  | date =>
    refine iff_of_true (Date.toString_fromString h) fun hother => ?_
    cases hother
  | time =>
    obtain ⟨seconds, hseconds, rfl⟩ := Option.map_eq_some_iff.mp h
    refine iff_of_true (Time.toString_fromString hseconds) fun hother => ?_
    cases hother
  | datetime => exact (DateTime.toString_fromString_iff h).trans ⟨fun h _ => h, fun h => h rfl⟩

theorem lt_iff (hx : type.fromString first = some x) (hy : type.fromString second = some y) :
    x < y ↔ first < second := by
  cases type with
  | date => exact Date.fromString_lt_iff hx hy
  | time =>
    obtain ⟨seconds, hfirst, rfl⟩ := Option.map_eq_some_iff.mp hx
    obtain ⟨seconds', hsecond, rfl⟩ := Option.map_eq_some_iff.mp hy
    exact Int.ofNat_lt.trans (Time.fromString_lt_iff hfirst hsecond)
  | datetime => exact DateTime.fromString_lt_iff hx hy

/-- The values of two texts are in the order of the texts; and the texts are printed back unless
they are moments before 1970 other than midnight. -/
theorem roundTrip_in_order_iff (hx : type.fromString first = some x)
    (hy : type.fromString second = some y) :
    (type.toString x = first ∧ type.toString y = second ∧ (x < y ↔ first < second)) ↔
      type.PrintedBack first ∧ type.PrintedBack second := by
  rw [toString_eq_iff hx, toString_eq_iff hy]
  constructor
  · rintro ⟨hfirst, hsecond, -⟩
    exact ⟨hfirst, hsecond⟩
  · rintro ⟨hfirst, hsecond⟩
    exact ⟨hfirst, hsecond, lt_iff hx hy⟩

/-- A midnight before 1970 and a moment after it. -/
theorem roundTrip_midnight :
    toString .datetime (-86400) = "1969-12-31 00:00:00".toList ∧
      toString .datetime 1787995830 = "2026-08-29 09:30:30".toList ∧
      ((-86400 : Int) < 1787995830 ↔
        "1969-12-31 00:00:00".toList < "2026-08-29 09:30:30".toList) := by
  refine (roundTrip_in_order_iff (by decide) (by decide)).mpr ⟨fun _ => .inr ?_, fun _ => .inl ?_⟩
  · decide
  · decide

/-- The last second of 1969 is printed with the day after it. -/
theorem last_second_of_1969 :
    ¬ ∀ (type : CalendarType) (first second : List Char) (x y : Int),
      type.fromString first = some x → type.fromString second = some y →
        type.toString x = first ∧ type.toString y = second ∧ (x < y ↔ first < second) := by
  intro h
  have hread : fromString .datetime "1969-12-31 23:59:59".toList = some (-1) := by decide
  have hprinted : toString .datetime (-1) = "1970-01-01 23:59:59".toList := by decide
  have hback := (h .datetime _ _ _ _ hread hread).1
  rw [hprinted] at hback
  exact absurd hback (by decide)

end CalendarType

end ScratchDb
