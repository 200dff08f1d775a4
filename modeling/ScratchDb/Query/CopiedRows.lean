import ScratchDb.Query.Executor
import ScratchDb.Select.OnOperands
import ScratchDb.Values.CopiedTexts

/-!
# Rows copied by `INSERT ... SELECT`

A row that came from a list of literals is written as such a list again, which
is split and parsed as the first one was. What a copy loses of a value, it
loses for good: the copies of some rows are the rows themselves only where
each value is kept.
-/

namespace ScratchDb

open ValueParser

/-! ## Values in the new table -/

/-- What a table of that storage mode gives back of a value. -/
def Value.storedIn (mode : TableStorageMode) (v : Value) : Value :=
  match mode with
  | .disk => v.padded
  | .memory => v

theorem StoredTable.stored_eq (t : StoredTable) (values : List Value) :
    t.stored values = values.map (Value.storedIn t.schema.storageMode) := by
  rw [stored]
  cases t.schema.storageMode with
  | disk => rfl
  | memory => exact (List.map_id _).symm

/-- The values that a copy into a table of that storage mode keeps: no string `NULL`, no zero bytes
behind a STRING of a disk table, and before 1970 only midnights. -/
def Value.KeptByCopy (mode : TableStorageMode) : Value → Prop
  | .string s => s ≠ bytesOf "NULL".toList ∧ (mode = .disk → s.getLast? ≠ some 0)
  | .varstring s => s ≠ bytesOf "NULL".toList
  | .text s => s ≠ bytesOf "NULL".toList
  | .datetime seconds => 0 ≤ seconds ∨ seconds % 86400 = 0
  | _ => True

/-- The day of a DATETIME has a year of four digits. -/
def Value.InCalendar (v : Value) : Prop :=
  ∀ seconds, v = .datetime seconds → Date.HasFourDigits (seconds / 86400)

/-- What a copy can only make smaller. -/
def Value.weight : Value → Int
  | .string s => s.length
  | .varstring s => s.length
  | .text s => s.length
  | .datetime seconds => -seconds
  | _ => 0

theorem copied_datetime {seconds : Int} (h : Date.HasFourDigits (seconds / 86400)) :
    copiedValue (.datetime seconds) =
      .datetime (if 0 ≤ seconds ∨ seconds % 86400 = 0 then seconds else seconds + 86400) := by
  have hday : seconds / 86400 * 86400 + ((seconds % 86400).toNat : Int) = seconds := by omega
  have hprinted := @DateTime.printedDay_eq (seconds / 86400) (seconds % 86400).toNat h (by omega)
  rw [hday] at hprinted
  rw [copiedValue, hprinted]
  congr 1
  split <;> split <;> omega

theorem rdropWhile_zeros_iff (s : Bytes) :
    s.rdropWhile (· = 0) = s ↔ s.getLast? ≠ some 0 := by
  rw [List.rdropWhile_eq_self_iff]
  constructor
  · intro h hlast
    obtain ⟨front, rfl⟩ := List.getLast?_eq_some_iff.mp hlast
    have hne : front ++ [0] ≠ [] := List.append_ne_nil_of_right_ne_nil _ (List.cons_ne_nil _ _)
    exact h hne (by simp)
  · intro h hne hzero
    refine h ?_
    rw [List.getLast?_eq_some_getLast hne, of_decide_eq_true hzero]

section

variable {mode : TableStorageMode} {v : Value}

theorem copy_eq_iff (hv : v.InCalendar) :
    (copiedValue v).storedIn mode = v ↔ v.KeptByCopy mode := by
  have hstring : ∀ s : Bytes, (Value.string s).storedIn mode = .string s ↔
      (mode = .disk → s.getLast? ≠ some 0) := by
    intro s
    cases mode with
    | disk =>
      rw [Value.storedIn, Value.padded, Value.string.injEq, rdropWhile_zeros_iff]
      simp
    | memory => exact iff_of_true rfl fun h => by cases h
  cases v with
  | datetime seconds =>
    have hmode : ∀ n, (Value.datetime n).storedIn mode = .datetime n := by
      intro n
      cases mode <;> rfl
    rw [copied_datetime (hv seconds rfl), hmode, Value.datetime.injEq, Value.KeptByCopy]
    split
    · rename_i hkept
      exact iff_of_true rfl hkept
    · rename_i hmoved
      exact iff_of_false (by omega) hmoved
  | string s =>
    rw [copiedValue, Value.KeptByCopy]
    split
    · rename_i hnull
      refine iff_of_false (fun h => ?_) fun h => h.1 hnull
      cases mode <;> cases h
    · rename_i hnull
      rw [hstring]
      exact (and_iff_right hnull).symm
  | varstring s | text s =>
    rw [copiedValue, Value.KeptByCopy]
    split
    · rename_i hnull
      refine iff_of_false (fun h => ?_) fun h => h hnull
      cases mode <;> cases h
    · rename_i hnull
      refine iff_of_true ?_ hnull
      cases mode <;> rfl
  | null | integer n | number n | character s | date n | time n =>
    refine iff_of_true ?_ trivial
    cases mode <;> rfl

/-- A copy that weighs as much as the value is the value. -/
theorem weight_copy (hv : v.InCalendar) :
    ((copiedValue v).storedIn mode).weight ≤ v.weight ∧
      (((copiedValue v).storedIn mode).weight = v.weight → (copiedValue v).storedIn mode = v) := by
  have hword : (bytesOf "NULL".toList).length = 4 := by decide
  have hnull : Value.null.storedIn mode = .null := by cases mode <;> rfl
  cases v with
  | datetime seconds =>
    have hmode : ∀ n, (Value.datetime n).storedIn mode = .datetime n := by
      intro n
      cases mode <;> rfl
    rw [copied_datetime (hv seconds rfl), hmode]
    split
    · exact ⟨le_rfl, fun _ => rfl⟩
    · simp only [Value.weight]
      exact ⟨by omega, fun h => by omega⟩
  | string s =>
    rw [copiedValue]
    split
    · rename_i hs
      rw [hnull]
      simp only [Value.weight, hs, hword]
      exact ⟨by decide, fun h => absurd h (by decide)⟩
    · cases mode with
      | disk =>
        have hfront : s.rdropWhile (· = 0) <+: s := List.rdropWhile_prefix _ _
        have hlength := hfront.length_le
        simp only [Value.storedIn, Value.padded, Value.weight]
        refine ⟨by omega, fun h => congrArg Value.string (hfront.eq_of_length (by omega))⟩
      | memory => exact ⟨le_rfl, fun _ => rfl⟩
  | varstring s | text s =>
    rw [copiedValue]
    split
    · rename_i hs
      rw [hnull]
      simp only [Value.weight, hs, hword]
      exact ⟨by decide, fun h => absurd h (by decide)⟩
    · cases mode <;> exact ⟨le_rfl, fun _ => rfl⟩
  | null | integer n | number n | character s | date n | time n =>
    cases mode <;> exact ⟨le_rfl, fun _ => rfl⟩

end

/-! ## Rows -/

def copiedRow (mode : TableStorageMode) (values : List Value) : List Value :=
  values.map fun v => (copiedValue v).storedIn mode

theorem copiedRow_eq_iff {mode : TableStorageMode} {values : List Value}
    (hvalues : ∀ v ∈ values, v.InCalendar) :
    copiedRow mode values = values ↔ ∀ v ∈ values, v.KeptByCopy mode := by
  have hself : copiedRow mode values = values ↔
      ∀ v ∈ values, (copiedValue v).storedIn mode = v := by
    rw [copiedRow, ← List.map_inj_left, List.map_id']
  rw [hself]
  exact forall₂_congr fun v hv => copy_eq_iff (hvalues v hv)

/-- The sum of all weights. -/
def totalWeight (rows : List (List Value)) : Int := (rows.map fun row => (row.map Value.weight).sum).sum

theorem weight_copiedRow {mode : TableStorageMode} {values : List Value}
    (hvalues : ∀ v ∈ values, v.InCalendar) :
    ((copiedRow mode values).map Value.weight).sum ≤ (values.map Value.weight).sum ∧
      (((copiedRow mode values).map Value.weight).sum = (values.map Value.weight).sum →
        copiedRow mode values = values) := by
  induction values with
  | nil => exact ⟨le_rfl, fun _ => rfl⟩
  | cons v values ih =>
    obtain ⟨hle, heq⟩ := @weight_copy mode v (hvalues v List.mem_cons_self)
    obtain ⟨hrest, hsame⟩ := ih fun w hw => hvalues w (List.mem_cons_of_mem _ hw)
    rw [copiedRow] at hrest hsame ⊢
    simp only [List.map_cons, List.sum_cons]
    refine ⟨by omega, fun h => ?_⟩
    rw [heq (by omega), hsame (by omega)]

/-- If the copies are the rows in some order, every value was kept. -/
theorem kept_of_perm {mode : TableStorageMode} {rows : List (List Value)}
    (hrows : ∀ row ∈ rows, ∀ v ∈ row, v.InCalendar)
    (h : (rows.map (copiedRow mode)).Perm rows) :
    ∀ row ∈ rows, ∀ v ∈ row, v.KeptByCopy mode := by
  have hall : totalWeight (rows.map (copiedRow mode)) ≤ totalWeight rows ∧
      (totalWeight (rows.map (copiedRow mode)) = totalWeight rows →
        ∀ row ∈ rows, copiedRow mode row = row) := by
    clear h
    induction rows with
    | nil => exact ⟨le_rfl, fun _ row hrow => absurd hrow List.not_mem_nil⟩
    | cons row rows ih =>
      obtain ⟨hle, heq⟩ := @weight_copiedRow mode row (hrows row List.mem_cons_self)
      obtain ⟨hrest, hsame⟩ := ih fun r hr => hrows r (List.mem_cons_of_mem _ hr)
      simp only [totalWeight, List.map_cons, List.sum_cons] at hrest hsame ⊢
      refine ⟨by omega, fun h => ?_⟩
      rw [List.forall_mem_cons]
      exact ⟨heq (by omega), hsame (by omega)⟩
  have hweight : totalWeight (rows.map (copiedRow mode)) = totalWeight rows :=
    (h.map _).sum_eq
  intro row hrow
  exact (copiedRow_eq_iff (hrows row hrow)).mp (hall.2 hweight row hrow)

/-! ## The list of a row -/

/-- A row of literals, each read for its column. -/
inductive ParsedRow : List Column → List (String × Nat) → List Value → Prop where
  | nil : ParsedRow [] [] []
  | cons {column : Column} {columns : List Column} {part : String × Nat} {parts : List (String × Nat)}
      {value : Value} {row : List Value} :
      parseCleaned column (trim part.1.toList) = .ok value → ParsedRow columns parts row →
      ParsedRow (column :: columns) (part :: parts) (value :: row)

section

variable {numbers : Select.LongDouble}

theorem parsedRow_of_parseParts {columns : List Column} {parts : List (String × Nat)}
    {row : List Value} (hlength : parts.length = columns.length)
    (h : parseParts (Select.sourceTexts numbers).toValueParser columns parts = .ok row) :
    ParsedRow columns parts row := by
  induction columns generalizing parts row with
  | nil =>
    rw [List.eq_nil_of_length_eq_zero hlength] at h ⊢
    rw [← Except.ok.inj h]
    exact .nil
  | cons column columns ih =>
    cases parts with
    | nil => cases hlength
    | cons part parts =>
      obtain ⟨text, position⟩ := part
      rw [parseParts] at h
      cases hread : parseCleaned column (trim text.toList) with
      | error e =>
        simp only [Select.sourceTexts, parseValueWithError, hread] at h
        cases h
      | ok value =>
        simp only [Select.sourceTexts, parseValueWithError, hread] at h
        split at h
        · cases hrest : parseParts (Select.sourceTexts numbers).toValueParser columns parts with
          | error e =>
            simp only [Select.sourceTexts] at hrest
            rw [hrest] at h
            cases h
          | ok rest =>
            have hparsed := ih (Nat.succ.inj hlength) hrest
            simp only [Select.sourceTexts] at hrest
            rw [hrest] at h
            rw [← Except.ok.inj h]
            exact .cons hread hparsed
        · cases h

theorem parsedRow_of_parseRow {schema : Schema} {text : String} {position : Nat} {row : List Value}
    (h : parseRow (Select.sourceTexts numbers).toValueParser schema text position = .ok row) :
    ParsedRow schema.columns (splitCsvWithPositions text position) row := by
  rw [parseRow] at h
  split at h
  · cases h
  · rename_i hlength
    exact parsedRow_of_parseParts (not_not.mp hlength) h

end

/-- What a scan tells of the parts of a text. -/
structure Scanned (texts : List (List Char)) : Prop where
  uncut : ∀ text ∈ texts, valueSplitter.cutCount (false, 0) text = 0
  returns : ∀ text ∈ texts.dropLast, valueSplitter.run (false, 0) text = (false, 0)

theorem scanned_splitCsv (text : String) (basePosition : Nat) :
    Scanned ((splitCsvWithPositions text basePosition).map fun part => part.1.toList) := by
  by_cases hempty : text.toList = []
  · rw [splitCsvWithPositions, if_pos hempty]
    exact ⟨fun t ht => absurd ht List.not_mem_nil, fun t ht => absurd ht List.not_mem_nil⟩
  · have hcut : ∀ (s : Bool × Nat) (c : Char), valueSplitter.cuts s c = true →
        s = (false, 0) ∧ valueSplitter.next s c = (false, 0) := by
      intro s c h
      obtain ⟨inString, opened⟩ := s
      obtain ⟨rfl, hstring, hopened⟩ := of_decide_eq_true h
      simp only [Bool.not_eq_true] at hstring
      simp only at hopened
      subst hstring hopened
      exact ⟨rfl, rfl⟩
    have hpieces := @Splitter.pieces_of_text _ _ valueSplitter (false, 0) [] hcut rfl text.toList
    have hstart : valueSplitter.run (false, 0) [] = (false, 0) := rfl
    have hparts : (splitCsvWithPositions text basePosition).map (fun part => part.1.toList) =
        (valueSplitter.pieces (false, 0) [] text.toList).map trim := by
      rw [splitCsvWithPositions_eq hempty, ← Splitter.map_fst_placedPieces _ _ basePosition,
        List.map_map, List.map_map]
      refine List.map_congr_left fun p _ => ?_
      exact String.toList_ofList
    rw [hstart] at hpieces
    rw [hparts]
    constructor
    · intro t ht
      obtain ⟨piece, hpiece, rfl⟩ := List.mem_map.mp ht
      rw [(scan_trim _ piece).2]
      exact hpieces.1 piece hpiece
    · intro t ht
      rw [← List.map_dropLast] at ht
      obtain ⟨piece, hpiece, rfl⟩ := List.mem_map.mp ht
      rw [(scan_trim _ piece).1]
      exact hpieces.2 piece hpiece

/-- Copies that the scan goes over as over the literals. -/
theorem Scanned.copies {texts copies : List (List Char)} (h : List.Forall₂ Follows texts copies)
    (hscanned : Scanned texts) : Scanned copies := by
  induction h with
  | nil => exact hscanned
  | @cons text copy texts copies hfollows hrest ih =>
    obtain ⟨huncut, hreturn⟩ := hfollows (hscanned.uncut text List.mem_cons_self)
    cases hrest with
    | nil =>
      refine ⟨fun t ht => ?_, fun t ht => absurd ht List.not_mem_nil⟩
      rw [List.mem_singleton.mp ht]
      exact huncut
    | @cons text' copy' texts copies hfollows' hrest =>
      have htail := ih ⟨fun t ht => hscanned.uncut t (List.mem_cons_of_mem _ ht),
        fun t ht => hscanned.returns t (List.mem_cons_of_mem _ ht)⟩
      constructor
      · intro t ht
        rcases List.mem_cons.mp ht with rfl | ht
        · exact huncut
        · exact htail.uncut t ht
      · intro t ht
        rcases List.mem_cons.mp ht with rfl | ht
        · exact hreturn (hscanned.returns text List.mem_cons_self)
        · exact htail.returns t ht

/-- A row of a table that came from this list. -/
inductive KeptRow : List Value → List Value → Prop where
  | nil : KeptRow [] []
  | cons {v raw : Value} {values row : List Value} : KeptAs v raw → KeptRow values row →
      KeptRow (v :: values) (raw :: row)

theorem keptRow_stored (t : StoredTable) (row : List Value) : KeptRow (t.stored row) row := by
  rw [StoredTable.stored_eq]
  induction row with
  | nil => exact .nil
  | cons v row ih =>
    refine .cons ?_ ih
    cases t.schema.storageMode with
    | disk => exact .inr rfl
    | memory => exact .inl rfl

def copyLiterals (columns : List Column) (values : List Value) : List (List Char) :=
  columns.zipWith copyLiteral values

section

variable {columns : List Column} {parts : List (String × Nat)} {row values : List Value}

theorem follows_copies (h : ParsedRow columns parts row) (hkept : KeptRow values row)
    (hbytes : ∀ part ∈ parts, ∀ c ∈ part.1.toList, c.toNat < 256) :
    List.Forall₂ Follows (parts.map fun part => part.1.toList) (copyLiterals columns values) := by
  induction h generalizing values with
  | nil =>
    cases hkept
    exact .nil
  | @cons column columns part parts value row hread hrest ih =>
    cases hkept with
    | @cons v raw values row hvalue hvalues =>
      refine .cons ?_ (ih hvalues fun p hp => hbytes p (List.mem_cons_of_mem _ hp))
      have htrim : ∀ c ∈ trim part.1.toList, c.toNat < 256 := by
        intro c hc
        obtain ⟨back, hparts⟩ := exists_trim part.1.toList
        refine hbytes part List.mem_cons_self c ?_
        rw [hparts]
        exact List.mem_append_right _ (List.mem_append_left _ hc)
      have hfollows := copy_follows (spelled_of_parseCleaned hread) htrim hvalue
      rw [Follows, (scan_trim _ _).1, (scan_trim _ _).2] at hfollows
      exact hfollows

theorem copyLiterals_spec (h : ParsedRow columns parts row) (hkept : KeptRow values row) :
    (copyLiterals columns values).length = columns.length ∧ values.length = columns.length ∧
      ∀ text ∈ copyLiterals columns values, trim text = text ∧ text ≠ [] := by
  induction h generalizing values with
  | nil =>
    cases hkept
    exact ⟨rfl, rfl, fun t ht => absurd ht List.not_mem_nil⟩
  | cons hread hrest ih =>
    cases hkept with
    | cons hvalue hvalues =>
      obtain ⟨hlength, hvalueLength, htexts⟩ := ih hvalues
      refine ⟨congrArg (· + 1) hlength, congrArg (· + 1) hvalueLength, fun t ht => ?_⟩
      rcases List.mem_cons.mp ht with rfl | ht
      · exact copyLiteral_spec (spelled_of_parseCleaned hread) hvalue
      · exact htexts t ht

/-- The copies of a row are read as its copied values. -/
theorem values_of_copies {copies : List (String × Nat)} {copy : List Value}
    (hvalid : ∀ column ∈ columns, column.isValid = true) (h : ParsedRow columns parts row)
    (hkept : KeptRow values row) (hcopy : ParsedRow columns copies copy)
    (htexts : copies.map (fun part => part.1.toList) = copyLiterals columns values) :
    copy = values.map copiedValue := by
  induction h generalizing values copies copy with
  | nil =>
    cases hkept
    cases hcopy
    rfl
  | cons hread hrest ih =>
    cases hkept with
    | cons hvalue hvalues =>
      cases hcopy with
      | cons hreadCopy hrestCopy =>
        have hspelled := spelled_of_parseCleaned hread
        obtain ⟨htext, htexts⟩ := List.cons.inj htexts
        dsimp only at htext
        rw [htext, (copyLiteral_spec hspelled hvalue).1] at hreadCopy
        rw [value_of_copy (hvalid _ List.mem_cons_self) hspelled hvalue hreadCopy,
          ih (fun c hc => hvalid c (List.mem_cons_of_mem _ hc)) hvalues hrestCopy htexts]
        rfl

theorem inCalendar_of_spelled {column : Column} {text : List Char} {seconds : Int}
    (h : Spelled column text (.datetime seconds)) : Date.HasFourDigits (seconds / 86400) := by
  cases h with
  | quoted _ hquoted =>
    cases hquoted with
    | datetime _ htext =>
      obtain ⟨date, time, hdate, htime, -, -, rfl⟩ := DateTime.fromString_eq_some htext
      have hbound := Time.fromString_bound htime
      have hday : (date * 86400 + (time : Int)) / 86400 = date := by omega
      rw [hday]
      exact Date.fromString_bounds hdate

theorem inCalendar_of_parsed (h : ParsedRow columns parts row) (hkept : KeptRow values row) :
    ∀ v ∈ values, v.InCalendar := by
  induction h generalizing values with
  | nil =>
    cases hkept
    exact fun v hv => absurd hv List.not_mem_nil
  | @cons column columns part parts raw row hread hrest ih =>
    cases hkept with
    | cons hvalue hvalues =>
      rw [List.forall_mem_cons]
      refine ⟨?_, ih hvalues⟩
      rintro seconds rfl
      have hraw : raw = .datetime seconds := by
        rcases hvalue with hvalue | hvalue
        · exact hvalue.symm
        · cases raw <;> simp [Value.padded] at hvalue
          rw [hvalue]
      rw [hraw] at hread
      exact inCalendar_of_spelled (spelled_of_parseCleaned hread)

end

end ScratchDb
