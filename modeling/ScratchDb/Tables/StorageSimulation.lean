import ScratchDb.Tables.TableUpkeep

/-!
# Memory tables and disk tables

The same calls on a table of each storage mode. Row by row the memory table holds
what the disk table has at the place that the insertion returned, as long as no
rollback has anything to undo, no statement fails in a transaction, and no record
id of a deleted row is used that the table file has given out again.
-/

namespace ScratchDb.StorageModes

/-! ## Rows with their record ids -/

/-- The rows that are still there, with the record ids of their insertions. -/
def liveRows {Id : Type} (recordIds : List Id) (rows : List (Option (List Value))) :
    List (Id × List Value) :=
  (recordIds.zip rows).filterMap fun r => r.2.map fun values => (r.1, values)

section LiveRows

variable {Id : Type} {recordIds : List Id} {rows : List (Option (List Value))}

theorem liveRows_append (hlength : recordIds.length = rows.length) (id : Id)
    (row : Option (List Value)) :
    liveRows (recordIds ++ [id]) (rows ++ [row]) =
      liveRows recordIds rows ++ (row.map fun values => (id, values)).toList := by
  rw [liveRows, List.zip_append hlength, List.filterMap_append, liveRows]
  cases row <;> rfl

/-- One row is replaced, the others are left. -/
theorem liveRows_set {i : Nat} (hid : i < recordIds.length) (hrow : i < rows.length) (id : Id)
    (row : Option (List Value)) :
    (liveRows (recordIds.set i id) (rows.set i row)).Perm
      ((row.map fun values => (id, values)).toList ++ liveRows recordIds (rows.set i none)) := by
  induction recordIds generalizing rows i with
  | nil => cases hid
  | cons first recordIds ih =>
    cases rows with
    | nil => cases hrow
    | cons r rows =>
      cases i with
      | zero => cases row <;> exact .refl _
      | succ i =>
        have hperm := ih (Nat.lt_of_succ_lt_succ hid) (Nat.lt_of_succ_lt_succ hrow)
        cases r with
        | none => exact hperm
        | some values => exact (hperm.cons (first, values)).trans List.perm_middle.symm

theorem liveRows_of_live {i : Nat} {id : Id} {values : List Value}
    (hid : recordIds[i]? = some id) (hrow : rows[i]? = some (some values)) :
    (liveRows recordIds rows).Perm ((id, values) :: liveRows recordIds (rows.set i none)) := by
  obtain ⟨hlt, hidEq⟩ := List.getElem?_eq_some_iff.mp hid
  obtain ⟨hlt', hrowEq⟩ := List.getElem?_eq_some_iff.mp hrow
  have hperm := liveRows_set hlt hlt' id (some values)
  rw [← hidEq, ← hrowEq, List.set_getElem_self, List.set_getElem_self, hidEq, hrowEq] at hperm
  exact hperm

theorem map_snd_liveRows (hlength : recordIds.length = rows.length) :
    (liveRows recordIds rows).map Prod.snd = rows.filterMap id := by
  induction recordIds generalizing rows with
  | nil =>
    cases rows with
    | nil => rfl
    | cons _ _ => cases hlength
  | cons first recordIds ih =>
    cases rows with
    | nil => cases hlength
    | cons row rows =>
      have hrest := ih (Nat.succ.inj hlength)
      cases row with
      | none => exact hrest
      | some values => exact congrArg (values :: ·) hrest

end LiveRows

/-! ## Keys of a memory table -/

section Keys

variable {schema : Schema} {t : MemoryTableStore} {values : List Value}

theorem keyTaken_iff {index : IndexDefinition} {key : Bytes} {skip : Option Nat} :
    t.keyTaken schema index key skip = true ↔
      ∃ i row, some i ≠ skip ∧ t.rows[i]? = some (some row) ∧
        indexKey schema index row = some key := by
  rw [MemoryTableStore.keyTaken, List.any_eq_true]
  constructor
  · rintro ⟨r, hr, htaken⟩
    obtain ⟨hskip, hkey⟩ := Bool.and_eq_true_iff.mp htaken
    obtain ⟨row, hrow, hindex⟩ := (Option.any_eq_true _ _).mp hkey
    refine ⟨r.2, row, of_decide_eq_true hskip, ?_, of_decide_eq_true hindex⟩
    rw [← hrow]
    exact List.mk_mem_zipIdx_iff_getElem?.mp hr
  · rintro ⟨i, row, hskip, hrow, hindex⟩
    refine ⟨(some row, i), List.mk_mem_zipIdx_iff_getElem?.mpr hrow, ?_⟩
    rw [Bool.and_eq_true_iff]
    exact ⟨decide_eq_true hskip, decide_eq_true hindex⟩

/-- The live rows but the one at `skip`. -/
def otherRows (t : MemoryTableStore) : Option Nat → List (List Value)
  | none => t.scanMemoryRows
  | some i => (t.rows.set i none).filterMap id

theorem mem_otherRows {skip : Option Nat} {row : List Value} :
    row ∈ otherRows t skip ↔ ∃ i, some i ≠ skip ∧ t.rows[i]? = some (some row) := by
  have hscan : ∀ rows : List (Option (List Value)),
      row ∈ rows.filterMap id ↔ ∃ i : Nat, rows[i]? = some (some row) := by
    intro rows
    rw [List.mem_filterMap]
    constructor
    · rintro ⟨r, hr, rfl⟩
      exact List.mem_iff_getElem?.mp hr
    · rintro ⟨i, hi⟩
      exact ⟨some row, List.mem_iff_getElem?.mpr ⟨i, hi⟩, rfl⟩
  cases skip with
  | none =>
    rw [otherRows, MemoryTableStore.scanMemoryRows, hscan]
    exact exists_congr fun i => (and_iff_right (Option.some_ne_none i)).symm
  | some k =>
    rw [otherRows, hscan]
    refine exists_congr fun i => ?_
    by_cases hik : i = k
    · subst hik
      rw [List.getElem?_set_self']
      refine iff_of_false (fun h => ?_) fun h => h.1 rfl
      cases hi : t.rows[i]? <;> rw [hi] at h <;> cases h
    · rw [List.getElem?_set_ne (Ne.symm hik)]
      exact (and_iff_right fun h => hik (Option.some.inj h)).symm

/-- The loop looks at the live rows but the one that it skips. -/
theorem uniqueKeysFree_iff (haccepts : schema.accepts values = true) (skip : Option Nat) :
    t.uniqueKeysFree schema values skip = true ↔ KeysFree schema (otherRows t skip) values := by
  rw [MemoryTableStore.uniqueKeysFree, List.all_eq_true]
  refine forall₂_congr fun index hindex => ?_
  obtain ⟨key, hkey, -⟩ := indexKey_of_accepts hindex haccepts
  rw [hkey]
  cases hunique : index.unique with
  | false => exact iff_of_true rfl fun h => absurd h Bool.false_ne_true
  | true =>
    rw [Bool.not_true, Bool.false_or, Bool.not_eq_true', ← Bool.not_eq_true, keyTaken_iff]
    constructor
    · intro hfree _ row hrow heq
      obtain ⟨i, hskip, hi⟩ := mem_otherRows.mp hrow
      exact hfree ⟨i, row, hskip, hi, heq⟩
    · rintro hfree ⟨i, row, hskip, hi, heq⟩
      exact hfree rfl row (mem_otherRows.mpr ⟨i, hskip, hi⟩) heq

end Keys

/-! ## The two tables -/

/-- The sessions of a disk table and of a memory table. -/
structure Twins where
  disk : Session DiskTable Place
  memory : Session MemoryTableStore RecordId

namespace Twins

variable (schema : Schema) (s : Twins) {place id : Place} {values : List Value} {row : Nat}

def start : Twins := ⟨.start (.create schema), .start {}⟩

/-- A call on both tables, with the place that the table file has for a record. -/
def call (c : Call × Place) : Twins where
  disk := (s.disk.call (diskEngine schema c.2) schema c.1).2
  memory := (s.memory.call (memoryEngine schema) schema c.1).2

/-- Row by row, the memory table holds what the disk table has at the record id of the row. -/
structure Related : Prop where
  kept : Kept schema s.disk.table
  inTransaction : s.memory.inTransaction = s.disk.inTransaction
  diskSound : s.disk.transactionAborted = false
  memorySound : s.memory.transactionAborted = false
  nextPageId : s.memory.table.nextPageId = (s.memory.table.rows.length + 1) % 2 ^ 32
  recordIds : s.memory.recordIds =
    (List.range s.memory.table.rows.length).map fun i => ⟨i + 1, 0⟩
  length : s.disk.recordIds.length = s.memory.table.rows.length
  rows : s.disk.table.rows.Perm (liveRows s.disk.recordIds s.memory.table.rows)

variable {schema s}

theorem related_start (schema : Schema) : (start schema).Related schema where
  kept := kept_create schema
  inTransaction := rfl
  diskSound := rfl
  memorySound := rfl
  nextPageId := rfl
  recordIds := rfl
  length := rfl
  rows := .refl _

namespace Related

variable (h : s.Related schema)

include h

theorem scan_perm : (s.disk.table.rows.map (·.2)).Perm s.memory.table.scanMemoryRows := by
  have hperm := h.rows.map Prod.snd
  rw [map_snd_liveRows h.length] at hperm
  exact hperm

theorem refuses : s.disk.refuses = false ∧ s.memory.refuses = false := by
  constructor
  · rw [Session.refuses, h.diskSound, Bool.and_false]
  · rw [Session.refuses, h.memorySound, Bool.and_false]

/-- The record ids of a row in both tables. -/
theorem recordIds_cases (row : Nat) :
    (s.disk.recordIds[row]? = none ∧ s.memory.recordIds[row]? = none) ∨
      ∃ (place : Place) (entry : Option (List Value)), s.disk.recordIds[row]? = some place ∧
        s.memory.recordIds[row]? = some ⟨row + 1, 0⟩ ∧ s.memory.table.rows[row]? = some entry := by
  rw [h.recordIds, List.getElem?_map]
  by_cases hlt : row < s.memory.table.rows.length
  · have hlt' : row < s.disk.recordIds.length := h.length ▸ hlt
    refine .inr ⟨s.disk.recordIds[row], s.memory.table.rows[row], ?_, ?_, ?_⟩
    · exact List.getElem?_eq_getElem _
    · rw [List.getElem?_range hlt]
      rfl
    · exact List.getElem?_eq_getElem hlt
  · refine .inl ⟨List.getElem?_eq_none (h.length ▸ Nat.le_of_not_lt hlt), ?_⟩
    rw [List.getElem?_eq_none (by rwa [List.length_range, ← Nat.not_lt])]
    rfl

omit h in
theorem position_eq {t : MemoryTableStore} {entry : Option (List Value)}
    (hentry : t.rows[row]? = some entry) :
    t.position ⟨row + 1, 0⟩ = if entry.isSome then some row else none := by
  rw [MemoryTableStore.position]
  simp [hentry]

omit h in
/-- A row that is deleted is not there to be read, updated or deleted again. -/
theorem position_none {t : MemoryTableStore} (hentry : t.rows[row]? = some none) :
    t.position ⟨row + 1, 0⟩ = none := by
  rw [position_eq hentry]
  rfl

theorem rowAt_of_live (hplace : s.disk.recordIds[row]? = some place)
    (hentry : s.memory.table.rows[row]? = some (some values)) :
    s.disk.table.rowAt place = some values := by
  rw [h.kept.rowAt_eq_some_iff, h.rows.mem_iff, (liveRows_of_live hplace hentry).mem_iff]
  exact List.mem_cons_self

/-- The rows of the disk table without one of them. -/
theorem rows_without (hplace : s.disk.recordIds[row]? = some place)
    (hentry : s.memory.table.rows[row]? = some (some values)) :
    (s.disk.table.rows.filter fun r => r.1 ≠ place).Perm
      (liveRows s.disk.recordIds (s.memory.table.rows.set row none)) := by
  have hperm := h.rows.trans (liveRows_of_live hplace hentry)
  have hnodup := (hperm.map Prod.fst).nodup_iff.mp h.kept.places
  rw [List.map_cons, List.nodup_cons] at hnodup
  have hothers : ∀ r ∈ liveRows s.disk.recordIds (s.memory.table.rows.set row none),
      decide (r.1 ≠ place) = true := fun r hr => by
    exact decide_eq_true fun heq => hnodup.1 (List.mem_map.mpr ⟨r, hr, heq⟩)
  have hfiltered := hperm.filter fun r => decide (r.1 ≠ place)
  rw [List.filter_cons_of_neg (by simp), List.filter_eq_self.mpr hothers] at hfiltered
  exact hfiltered

variable {t : DiskTable}

theorem inserted (hroom : s.memory.table.rows.length + 1 < 2 ^ 32) (hkept : Kept schema t)
    (hrows : t.rows = s.disk.table.rows ++ [(place, values)]) :
    Related schema
      ⟨{ s.disk with table := t, recordIds := s.disk.recordIds ++ [place] },
        { s.memory with
          table := { nextPageId := (s.memory.table.nextPageId + 1) % 2 ^ 32,
                     rows := s.memory.table.rows ++ [some values] }
          recordIds := s.memory.recordIds ++ [⟨s.memory.table.nextPageId, 0⟩] }⟩ := by
  have hnext : s.memory.table.nextPageId = s.memory.table.rows.length + 1 := by
    rw [h.nextPageId, Nat.mod_eq_of_lt hroom]
  refine ⟨hkept, h.inTransaction, h.diskSound, h.memorySound, ?_, ?_, ?_, ?_⟩
  · dsimp only
    rw [hnext, List.length_append]
    rfl
  · dsimp only
    rw [h.recordIds, hnext, List.length_append, List.length_singleton, List.range_succ,
      List.map_append]
    rfl
  · dsimp only
    rw [List.length_append, List.length_append, h.length]
    rfl
  · dsimp only
    rw [hrows, liveRows_append h.length]
    exact h.rows.append_right _

theorem updated {old : List Value} (hid : s.disk.recordIds[row]? = some id)
    (hid' : s.memory.recordIds[row]? = some ⟨row + 1, 0⟩)
    (hentry : s.memory.table.rows[row]? = some (some old)) (hkept : Kept schema t)
    (hrows : t.rows = (s.disk.table.rows.filter fun r => r.1 ≠ id) ++ [(place, values)]) :
    Related schema
      ⟨{ s.disk with table := t, recordIds := s.disk.recordIds.set row place },
        { s.memory with
          table := { s.memory.table with rows := s.memory.table.rows.set row (some values) }
          recordIds := s.memory.recordIds.set row ⟨row + 1, 0⟩ }⟩ := by
  have hothers := h.rows_without hid hentry
  have hset := liveRows_set (List.getElem?_eq_some_iff.mp hid).1
    (List.getElem?_eq_some_iff.mp hentry).1 place (some values)
  obtain ⟨hlt, heq⟩ := List.getElem?_eq_some_iff.mp hid'
  have hsame := List.set_getElem_self hlt
  rw [heq] at hsame
  refine ⟨hkept, h.inTransaction, h.diskSound, h.memorySound, ?_, ?_, ?_, ?_⟩
  · dsimp only
    rw [List.length_set]
    exact h.nextPageId
  · dsimp only
    rw [hsame, List.length_set]
    exact h.recordIds
  · dsimp only
    rw [List.length_set, List.length_set]
    exact h.length
  · dsimp only
    rw [hrows]
    exact (List.perm_append_singleton _ _).trans ((hothers.cons _).trans hset.symm)

theorem deleted {old : List Value} (hid : s.disk.recordIds[row]? = some id)
    (hentry : s.memory.table.rows[row]? = some (some old)) (hkept : Kept schema t)
    (hrows : t.rows = s.disk.table.rows.filter fun r => r.1 ≠ id) :
    Related schema
      ⟨{ s.disk with table := t },
        { s.memory with
          table := { s.memory.table with rows := s.memory.table.rows.set row none } }⟩ := by
  refine ⟨hkept, h.inTransaction, h.diskSound, h.memorySound, ?_, ?_, ?_, ?_⟩
  · dsimp only
    rw [List.length_set]
    exact h.nextPageId
  · dsimp only
    rw [List.length_set]
    exact h.recordIds
  · dsimp only
    rw [List.length_set]
    exact h.length
  · dsimp only
    rw [hrows]
    exact h.rows_without hid hentry

end Related

/-! ## One call -/

/-- Both tables reply alike, and stay related. -/
def AnsweredAlike (schema : Schema) (disk : Reply × Session DiskTable Place)
    (memory : Reply × Session MemoryTableStore RecordId) : Prop :=
  disk.1 = memory.1 ∧ Related schema ⟨disk.2, memory.2⟩

theorem failedStatement_disk {t : DiskTable} (hout : s.disk.inTransaction = false) :
    s.disk.failedStatement (diskEngine schema place) t = s.disk := by
  rw [Session.failedStatement, hout]
  rfl

theorem keysFree_perm {rows rows' : List (List Value)} (h : rows.Perm rows') :
    KeysFree schema rows values ↔ KeysFree schema rows' values :=
  ⟨fun hfree => hfree.of_subset h.symm.subset, fun hfree => hfree.of_subset h.subset⟩

namespace Related

variable (h : s.Related schema)

include h

theorem insertRow_alike (hplain : values.map Value.padded = values)
    (hplace : s.disk.table.rowAt place = none) (hroom : s.memory.table.rows.length + 1 < 2 ^ 32)
    (htame : s.disk.inTransaction = true → schema.accepts values = true →
      KeysFree schema (s.disk.table.rows.map (·.2)) values) :
    AnsweredAlike schema (s.disk.insertRow (diskEngine schema place) schema values)
      (s.memory.insertRow (memoryEngine schema) schema values) := by
  rw [Session.insertRow, Session.insertRow, h.refuses.1, h.refuses.2]
  cases haccepts : schema.accepts values with
  | false => exact ⟨rfl, h⟩
  | true =>
    have hmemory := @uniqueKeysFree_iff schema s.memory.table values haccepts none
    rw [otherRows, ← keysFree_perm h.scan_perm] at hmemory
    simp only [Bool.not_true, Bool.or_false, Bool.false_eq_true, if_false]
    by_cases hfree : KeysFree schema (s.disk.table.rows.map (·.2)) values
    · obtain ⟨hinserted, hrows, hkept⟩ :=
        h.kept.insertRow_some haccepts hplain (rowAt_eq_none_iff.mp hplace) hfree
      have hdisk : (diskEngine schema place).insert s.disk.table values =
          (some place, (s.disk.table.insertRow schema place values).2) := Prod.ext hinserted rfl
      have hstore : (memoryEngine schema).insert s.memory.table values =
          (some ⟨s.memory.table.nextPageId, 0⟩,
            { nextPageId := (s.memory.table.nextPageId + 1) % 2 ^ 32,
              rows := s.memory.table.rows ++ [some values] }) := by
        show s.memory.table.insertMemoryRow schema values = _
        rw [MemoryTableStore.insertMemoryRow, if_pos (hmemory.mpr hfree)]
      rw [hdisk, hstore]
      exact ⟨rfl, h.inserted hroom hkept hrows⟩
    · have hdisk : (diskEngine schema place).insert s.disk.table values =
          (none, (s.disk.table.insertRow schema place values).2) :=
        Prod.ext (h.kept.insertRow_none haccepts hfree) rfl
      have hstore : (memoryEngine schema).insert s.memory.table values =
          (none, s.memory.table) := by
        show s.memory.table.insertMemoryRow schema values = _
        rw [MemoryTableStore.insertMemoryRow, if_neg (fun hok => hfree (hmemory.mp hok))]
      have hout : s.disk.inTransaction = false := by
        rw [← Bool.not_eq_true]
        exact fun hin => hfree (htame hin haccepts)
      rw [hdisk, hstore]
      dsimp only
      rw [failedStatement_disk hout]
      exact ⟨rfl, h⟩

theorem updateRow_alike (hplain : values.map Value.padded = values)
    (hplace : ∀ id, s.disk.recordIds[row]? = some id → place = id ∨ s.disk.table.rowAt place = none)
    (hnames : ∀ id, s.disk.recordIds[row]? = some id → s.memory.table.rows[row]? = some none →
      s.disk.table.rowAt id = none)
    (htame : s.disk.inTransaction = true → schema.accepts values = true →
      ∀ id, s.disk.recordIds[row]? = some id → s.disk.table.rowAt id ≠ none ∧
        KeysFree schema ((s.disk.table.rows.filter fun r => r.1 ≠ id).map (·.2)) values) :
    AnsweredAlike schema
      (s.disk.call (diskEngine schema place) schema (.updateRow row values))
      (s.memory.call (memoryEngine schema) schema (.updateRow row values)) := by
  rw [Session.call, Session.call]
  rcases h.recordIds_cases row with ⟨hnone, hnone'⟩ | ⟨id, entry, hid, hid', hentry⟩
  · rw [hnone, hnone']
    exact ⟨rfl, h⟩
  rw [hid, hid']
  dsimp only
  rw [Session.updateRow, Session.updateRow, h.refuses.1, h.refuses.2]
  cases haccepts : schema.accepts values with
  | false => exact ⟨rfl, h⟩
  | true =>
    simp only [Bool.not_true, Bool.or_false, Bool.false_eq_true, if_false]
    cases entry with
    | none =>
      -- the row has been deleted, and both tables find nothing
      have hrow := hnames id hid hentry
      have hdisk : (diskEngine schema place).update s.disk.table id values =
          (none, s.disk.table) := updateRow_none hrow
      have hstore : (memoryEngine schema).update s.memory.table ⟨row + 1, 0⟩ values =
          (none, s.memory.table) := by
        show s.memory.table.updateMemoryRow schema _ values = _
        rw [MemoryTableStore.updateMemoryRow, position_none hentry]
      have hout : s.disk.inTransaction = false := by
        rw [← Bool.not_eq_true]
        exact fun hin => (htame hin haccepts id hid).1 hrow
      rw [hdisk, hstore]
      dsimp only
      rw [failedStatement_disk hout]
      exact ⟨rfl, h⟩
    | some old =>
      have hrow := h.rowAt_of_live hid hentry
      have hposition : s.memory.table.position ⟨row + 1, 0⟩ = some row := position_eq hentry
      have hothers := h.rows_without hid hentry
      have hlength : s.disk.recordIds.length = (s.memory.table.rows.set row none).length := by
        rw [List.length_set, h.length]
      have hkeys := hothers.map Prod.snd
      rw [map_snd_liveRows hlength] at hkeys
      have hmemory := @uniqueKeysFree_iff schema s.memory.table values haccepts (some row)
      rw [otherRows, ← keysFree_perm hkeys] at hmemory
      by_cases hfree : KeysFree schema ((s.disk.table.rows.filter fun r => r.1 ≠ id).map (·.2)) values
      · have hnew : place ∉ (s.disk.table.rows.filter fun r => r.1 ≠ id).map (·.1) := by
          rcases hplace id hid with rfl | hnone
          · intro hmem
            obtain ⟨r, hr, heq⟩ := List.mem_map.mp hmem
            exact of_decide_eq_true (List.mem_filter.mp hr).2 heq
          · exact fun hmem => rowAt_eq_none_iff.mp hnone
              ((List.filter_sublist.map _).subset hmem)
        obtain ⟨hupdated, hrows, hkept⟩ := h.kept.updateRow_some haccepts hplain hrow hnew hfree
        have hdisk : (diskEngine schema place).update s.disk.table id values =
            (some place, (s.disk.table.updateRow schema place id values).2) := Prod.ext hupdated rfl
        have hstore : (memoryEngine schema).update s.memory.table ⟨row + 1, 0⟩ values =
            (some ⟨row + 1, 0⟩,
              { s.memory.table with rows := s.memory.table.rows.set row (some values) }) := by
          show s.memory.table.updateMemoryRow schema _ values = _
          rw [MemoryTableStore.updateMemoryRow, hposition]
          dsimp only
          rw [if_pos (hmemory.mpr hfree)]
        rw [hdisk, hstore]
        exact ⟨rfl, h.updated hid hid' hentry hkept hrows⟩
      · have hdisk : (diskEngine schema place).update s.disk.table id values =
            (none, (s.disk.table.updateRow schema place id values).2) :=
          Prod.ext (h.kept.updateRow_refused haccepts hrow hfree) rfl
        have hstore : (memoryEngine schema).update s.memory.table ⟨row + 1, 0⟩ values =
            (none, s.memory.table) := by
          show s.memory.table.updateMemoryRow schema _ values = _
          rw [MemoryTableStore.updateMemoryRow, hposition]
          dsimp only
          rw [if_neg (fun hok => hfree (hmemory.mp hok))]
        have hout : s.disk.inTransaction = false := by
          rw [← Bool.not_eq_true]
          exact fun hin => hfree (htame hin haccepts id hid).2
        rw [hdisk, hstore]
        dsimp only
        rw [failedStatement_disk hout]
        exact ⟨rfl, h⟩

theorem deleteRow_alike
    (hnames : ∀ id, s.disk.recordIds[row]? = some id → s.memory.table.rows[row]? = some none →
      s.disk.table.rowAt id = none)
    (htame : s.disk.inTransaction = true → ∀ id, s.disk.recordIds[row]? = some id →
      s.disk.table.rowAt id ≠ none) :
    AnsweredAlike schema (s.disk.call (diskEngine schema place) schema (.deleteRow row))
      (s.memory.call (memoryEngine schema) schema (.deleteRow row)) := by
  rw [Session.call, Session.call]
  rcases h.recordIds_cases row with ⟨hnone, hnone'⟩ | ⟨id, entry, hid, hid', hentry⟩
  · rw [hnone, hnone']
    exact ⟨rfl, h⟩
  rw [hid, hid']
  dsimp only
  rw [Session.deleteRow, Session.deleteRow, h.refuses.1, h.refuses.2]
  simp only [Bool.false_eq_true, if_false]
  cases entry with
  | none =>
    have hrow := hnames id hid hentry
    have hdisk : (diskEngine schema place).delete s.disk.table id = (false, s.disk.table) :=
      Kept.deleteRow_none hrow
    have hstore : (memoryEngine schema).delete s.memory.table ⟨row + 1, 0⟩ =
        (false, s.memory.table) := by
      show s.memory.table.deleteMemoryRow _ = _
      rw [MemoryTableStore.deleteMemoryRow, position_none hentry]
    have hout : s.disk.inTransaction = false := by
      rw [← Bool.not_eq_true]
      exact fun hin => htame hin id hid hrow
    rw [hdisk, hstore]
    dsimp only
    rw [failedStatement_disk hout]
    exact ⟨rfl, h⟩
  | some old =>
    obtain ⟨hdeleted, hrows, hkept⟩ := h.kept.deleteRow_some (h.rowAt_of_live hid hentry)
    have hdisk : (diskEngine schema place).delete s.disk.table id =
        (true, (s.disk.table.deleteRow schema id).2) := Prod.ext hdeleted rfl
    have hposition : s.memory.table.position ⟨row + 1, 0⟩ = some row := position_eq hentry
    have hstore : (memoryEngine schema).delete s.memory.table ⟨row + 1, 0⟩ =
        (true, { s.memory.table with rows := s.memory.table.rows.set row none }) := by
      show s.memory.table.deleteMemoryRow _ = _
      rw [MemoryTableStore.deleteMemoryRow, hposition]
    rw [hdisk, hstore]
    exact ⟨rfl, h.deleted hid hentry hkept hrows⟩

theorem readRow_alike
    (hnames : ∀ id, s.disk.recordIds[row]? = some id → s.memory.table.rows[row]? = some none →
      s.disk.table.rowAt id = none) :
    AnsweredAlike schema (s.disk.call (diskEngine schema place) schema (.readRow row))
      (s.memory.call (memoryEngine schema) schema (.readRow row)) := by
  rw [Session.call, Session.call]
  rcases h.recordIds_cases row with ⟨hnone, hnone'⟩ | ⟨id, entry, hid, hid', hentry⟩
  · rw [hnone, hnone']
    exact ⟨rfl, h⟩
  rw [hid, hid']
  dsimp only
  refine ⟨?_, h⟩
  have hread : (diskEngine schema place).read s.disk.table id =
      (memoryEngine schema).read s.memory.table ⟨row + 1, 0⟩ := by
    show s.disk.table.rowAt id = s.memory.table.readMemoryRow ⟨row + 1, 0⟩
    rw [MemoryTableStore.readMemoryRow]
    cases entry with
    | none => rw [hnames id hid hentry, position_none hentry, Option.bind_none]
    | some old =>
      have hposition : s.memory.table.position ⟨row + 1, 0⟩ = some row := position_eq hentry
      rw [h.rowAt_of_live hid hentry, hposition, Option.bind_some, hentry]
      rfl
  dsimp only
  rw [Session.readRow, Session.readRow, h.refuses.1, h.refuses.2, hread]

/-- The calls that open and close a transaction. -/
theorem control_alike {c : Call}
    (hc : c = .beginTransaction ∨ c = .commitTransaction ∨ c = .rollbackTransaction)
    (htame : c = .rollbackTransaction → s.disk.inTransaction = true →
      s.disk.atBegin = s.disk.table) :
    AnsweredAlike schema (s.disk.call (diskEngine schema place) schema c)
      (s.memory.call (memoryEngine schema) schema c) := by
  rcases hc with rfl | rfl | rfl
  · show AnsweredAlike schema s.disk.beginTransaction s.memory.beginTransaction
    rw [Session.beginTransaction, Session.beginTransaction, h.inTransaction]
    split
    · exact ⟨rfl, h⟩
    · exact ⟨rfl, h.kept, rfl, rfl, rfl, h.nextPageId, h.recordIds, h.length, h.rows⟩
  · show AnsweredAlike schema s.disk.commitTransaction s.memory.commitTransaction
    rw [Session.commitTransaction, Session.commitTransaction, h.inTransaction, h.diskSound,
      h.memorySound]
    split
    · exact ⟨rfl, h⟩
    · exact ⟨rfl, h.kept, rfl, rfl, rfl, h.nextPageId, h.recordIds, h.length, h.rows⟩
  · show AnsweredAlike schema (s.disk.rollbackTransaction (diskEngine schema place))
      (s.memory.rollbackTransaction (memoryEngine schema))
    rw [Session.rollbackTransaction, Session.rollbackTransaction, h.inTransaction]
    cases hin : s.disk.inTransaction with
    | false => exact ⟨rfl, h⟩
    | true =>
      have hsame := htame rfl hin
      refine ⟨rfl, ?_⟩
      simp only [Bool.not_true, Bool.false_eq_true, if_false, diskEngine, memoryEngine, if_true,
        hsame]
      exact ⟨h.kept, rfl, rfl, rfl, h.nextPageId, h.recordIds, h.length, h.rows⟩

end Related

/-! ## Runs -/

section Run

variable (schema s)

/-- What holds before each of the calls. -/
def Throughout (P : Twins → Call × Place → Prop) : Twins → List (Call × Place) → Prop
  | _, [] => True
  | s, c :: calls => P s c ∧ Throughout P (s.call schema c) calls

/-- The call succeeds on both tables or on none, and a scan behind it yields the same rows. -/
def AgreeOn (c : Call × Place) : Prop :=
  (s.disk.call (diskEngine schema c.2) schema c.1).1.ok =
      (s.memory.call (memoryEngine schema) schema c.1).1.ok ∧
    ((s.call schema c).disk.scanRows (diskEngine schema c.2)).Perm
      ((s.call schema c).memory.scanRows (memoryEngine schema))

/-- The table file puts a record where no other record is. -/
def PlaceFree (c : Call × Place) : Prop :=
  match c.1 with
  | .insertRow _ => s.disk.table.rowAt c.2 = none
  | .updateRow row _ => ∀ id, s.disk.recordIds[row]? = some id →
      c.2 = id ∨ s.disk.table.rowAt c.2 = none
  | _ => True

/-- No other row has got the place of the row, if it has been deleted. -/
def KeepsId (row : Nat) : Prop :=
  ∀ id, s.disk.recordIds[row]? = some id → s.memory.table.rows[row]? = some none →
    s.disk.table.rowAt id = none

/-- The row is there, and no other row has a key of the new one. -/
def Updates (row : Nat) (values : List Value) : Prop :=
  ∀ id, s.disk.recordIds[row]? = some id → s.disk.table.rowAt id ≠ none ∧
    KeysFree schema ((s.disk.table.rows.filter fun r => r.1 ≠ id).map (·.2)) values

/-- The calls that a memory table answers as a disk table does: a rollback has nothing to undo, no
statement fails in a transaction once its row is accepted, no record id has become that of another
row, and the record ids suffice. -/
def Tame (c : Call × Place) : Prop :=
  match c.1 with
  | .rollbackTransaction => s.disk.inTransaction = true → s.disk.atBegin = s.disk.table
  | .insertRow values =>
    s.memory.table.rows.length + 1 < 2 ^ 32 ∧
      (s.disk.inTransaction = true → schema.accepts values = true →
        KeysFree schema (s.disk.table.rows.map (·.2)) values)
  | .updateRow row values =>
    s.KeepsId row ∧
      (s.disk.inTransaction = true → schema.accepts values = true → s.Updates schema row values)
  | .deleteRow row =>
    s.KeepsId row ∧ (s.disk.inTransaction = true → ∀ id, s.disk.recordIds[row]? = some id →
      s.disk.table.rowAt id ≠ none)
  | .readRow row => s.KeepsId row
  | _ => True

end Run

end Twins

/-- No STRING value ends in a zero byte. -/
def Call.Plain : Call → Prop
  | .insertRow values => values.map Value.padded = values
  | .updateRow _ values => values.map Value.padded = values
  | _ => True

namespace Twins

variable {schema : Schema} {s : Twins} {c : Call × Place}

theorem Related.call_alike (h : s.Related schema) (hplain : c.1.Plain) (hplace : s.PlaceFree c)
    (htame : s.Tame schema c) :
    AnsweredAlike schema (s.disk.call (diskEngine schema c.2) schema c.1)
      (s.memory.call (memoryEngine schema) schema c.1) := by
  obtain ⟨call, place⟩ := c
  cases call with
  | beginTransaction => exact h.control_alike (.inl rfl) fun heq => by cases heq
  | commitTransaction => exact h.control_alike (.inr (.inl rfl)) fun heq => by cases heq
  | rollbackTransaction => exact h.control_alike (.inr (.inr rfl)) fun _ => htame
  | insertRow values => exact h.insertRow_alike hplain hplace htame.1 htame.2
  | updateRow row values => exact h.updateRow_alike hplain hplace htame.1 htame.2
  | deleteRow row => exact h.deleteRow_alike htame.1 htame.2
  | readRow row => exact h.readRow_alike htame
  | scanRows =>
    refine ⟨?_, h⟩
    show (⟨!s.disk.refuses, none⟩ : Reply) = ⟨!s.memory.refuses, none⟩
    rw [h.refuses.1, h.refuses.2]

theorem agreeOn_of_alike
    (halike : AnsweredAlike schema (s.disk.call (diskEngine schema c.2) schema c.1)
      (s.memory.call (memoryEngine schema) schema c.1)) : s.AgreeOn schema c := by
  refine ⟨congrArg Reply.ok halike.1, ?_⟩
  have hnext : (s.call schema c).Related schema := halike.2
  rw [Session.scanRows, Session.scanRows, hnext.refuses.1, hnext.refuses.2]
  exact hnext.scan_perm

theorem Related.throughout {calls : List (Call × Place)} (h : s.Related schema)
    (hplain : ∀ c ∈ calls, c.1.Plain) (hplaces : Throughout schema PlaceFree s calls)
    (htame : Throughout schema (Tame schema) s calls) :
    Throughout schema (AgreeOn schema) s calls := by
  induction calls generalizing s with
  | nil => trivial
  | cons c calls ih =>
    have halike := h.call_alike (hplain c List.mem_cons_self) hplaces.1 htame.1
    exact ⟨agreeOn_of_alike halike,
      ih halike.2 (fun c' hc' => hplain c' (List.mem_cons_of_mem c hc')) hplaces.2 htame.2⟩

end Twins

/-! ## One row in a transaction -/

def firstPlace : Place := ⟨⟨0, 0⟩, fits_firstSlot⟩

/-- A row is inserted in a transaction, which ends with `last`. -/
def insertThen (last : Call) : List (Call × Place) :=
  [(.beginTransaction, firstPlace), (.insertRow [.integer 1], firstPlace), (last, firstPlace)]

theorem placeFree_insertThen {last : Call} (hlast : last = .commitTransaction ∨
    last = .rollbackTransaction) :
    Twins.Throughout numbersSchema Twins.PlaceFree (.start numbersSchema) (insertThen last) := by
  rcases hlast with rfl | rfl <;> exact ⟨trivial, rfl, trivial, trivial⟩

theorem plain_insertThen {last : Call} (hlast : last.Plain) :
    ∀ c ∈ insertThen last, c.1.Plain := by
  simp only [insertThen, List.forall_mem_cons, List.not_mem_nil, IsEmpty.forall_iff, implies_true,
    and_true]
  exact ⟨trivial, rfl, hlast⟩

end ScratchDb.StorageModes
