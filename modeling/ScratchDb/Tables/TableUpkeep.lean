import ScratchDb.Tables.IndexedRows

/-!
# The upkeep of a disk table

Each statement keeps the entries of all indexes those of the rows, and succeeds
exactly if no other row has a key of the new row in a unique index.
-/

namespace ScratchDb.StorageModes

open DiskTable

/-! ## All indexes of a table -/

section Indexes

variable {change : IndexDefinition → List IndexEntry → Bool × List IndexEntry}

theorem changeIndexes_ok_iff (l : List (IndexDefinition × List IndexEntry)) :
    (changeIndexes change l).1 = true ↔ ∀ p ∈ l, (change p.1 p.2).1 = true := by
  induction l with
  | nil => simp [changeIndexes]
  | cons p rest ih =>
    cases hp : (change p.1 p.2).1 with
    | false => simp [changeIndexes, hp]
    | true => simp [changeIndexes, hp, ih]

theorem changeIndexes_of_ok {l : List (IndexDefinition × List IndexEntry)}
    (h : (changeIndexes change l).1 = true) :
    (changeIndexes change l).2 = l.map fun p => (p.1, (change p.1 p.2).2) := by
  induction l with
  | nil => rfl
  | cons p rest ih =>
    have hall := (changeIndexes_ok_iff _).mp h
    have hp := hall p List.mem_cons_self
    have hrest := (changeIndexes_ok_iff rest).mpr fun q hq => hall q (List.mem_cons_of_mem p hq)
    simp only [changeIndexes, hp, if_true, ih hrest, List.map_cons]

end Indexes

/-- Every index of the schema lists the keys of the rows, and each row has its own place. -/
structure Kept (schema : Schema) (t : DiskTable) : Prop where
  aligned : t.indexes.map (·.1) = schema.indexes
  lists : ∀ p ∈ t.indexes, Lists schema p.1 p.2 t.rows
  places : (t.rows.map (·.1)).Nodup

section Kept

variable {schema : Schema} {t : DiskTable} {place : Place} {values old : List Value}

theorem kept_create (schema : Schema) : Kept schema (create schema) where
  aligned := by
    rw [create, List.map_map]
    exact List.map_id _
  lists := by
    intro p hp
    obtain ⟨index, -, rfl⟩ := List.mem_map.mp hp
    exact ⟨indexList_nil _, by simp [create]⟩
  places := List.nodup_nil

theorem Kept.rowAt_eq_some_iff (h : Kept schema t) :
    t.rowAt place = some values ↔ (place, values) ∈ t.rows := by
  rw [rowAt, Option.map_eq_some_iff]
  constructor
  · rintro ⟨r, hfind, rfl⟩
    have hplace : r.1 = place := by simpa using List.find?_some hfind
    rw [← hplace]
    exact List.mem_of_find?_eq_some hfind
  · intro hmem
    cases hfind : t.rows.find? fun r => r.1 = place with
    | none => exact absurd (List.find?_eq_none.mp hfind _ hmem) (by simp)
    | some r =>
      have hplace : r.1 = place := by simpa using List.find?_some hfind
      have hr := List.mem_of_find?_eq_some hfind
      exact ⟨r, rfl, by rw [List.inj_on_of_nodup_map h.places hr hmem hplace]⟩

theorem rowAt_eq_none_iff : t.rowAt place = none ↔ place ∉ t.rows.map (·.1) := by
  rw [rowAt, Option.map_eq_none_iff, List.find?_eq_none]
  simp only [decide_eq_true_eq, List.mem_map, not_exists, not_and]

/-- Entries of any index with the rows of the table at hand. -/
theorem keysFree_iff_addEntry (place : Place) {indexes : List (IndexDefinition × List IndexEntry)}
    {rows : List (Place × List Value)} (haligned : indexes.map (·.1) = schema.indexes)
    (hlists : ∀ p ∈ indexes, Lists schema p.1 p.2 rows) (haccepts : schema.accepts values = true) :
    (∀ p ∈ indexes, (addEntry schema place values p.1 p.2).1 = true) ↔
      KeysFree schema (rows.map (·.2)) values := by
  constructor
  · intro hall index hindex hunique row hrow
    rw [← haligned] at hindex
    obtain ⟨p, hp, rfl⟩ := List.mem_map.mp hindex
    obtain ⟨r, hr, rfl⟩ := List.mem_map.mp hrow
    have hmem : p.1 ∈ schema.indexes := by
      rw [← haligned]
      exact List.mem_map_of_mem hp
    exact ((hlists p hp).addEntry_iff hmem haccepts).mp (hall p hp) hunique r hr
  · intro hfree p hp
    have hmem : p.1 ∈ schema.indexes := by
      rw [← haligned]
      exact List.mem_map_of_mem hp
    exact ((hlists p hp).addEntry_iff hmem haccepts).mpr fun hunique r hr =>
      hfree p.1 hmem hunique r.2 (List.mem_map_of_mem hr)

/-! ## Statements -/

theorem Kept.insertRow_none (h : Kept schema t) (haccepts : schema.accepts values = true)
    (hfree : ¬ KeysFree schema (t.rows.map (·.2)) values) :
    (t.insertRow schema place values).1 = none := by
  have hrefused : ¬ (changeIndexes (addEntry schema place values) t.indexes).1 = true := by
    rw [changeIndexes_ok_iff, keysFree_iff_addEntry _ h.aligned h.lists haccepts]
    exact hfree
  exact if_neg hrefused

theorem Kept.insertRow_some (h : Kept schema t) (haccepts : schema.accepts values = true)
    (hplain : values.map Value.padded = values) (hplace : place ∉ t.rows.map (·.1))
    (hfree : KeysFree schema (t.rows.map (·.2)) values) :
    (t.insertRow schema place values).1 = some place ∧
      (t.insertRow schema place values).2.rows = t.rows ++ [(place, values)] ∧
      Kept schema (t.insertRow schema place values).2 := by
  have hall := (keysFree_iff_addEntry place h.aligned h.lists haccepts).mpr hfree
  have hok := (changeIndexes_ok_iff t.indexes).mpr hall
  have hrows : (t.insertRow schema place values).2.rows = t.rows ++ [(place, values)] := by
    rw [insertRow, hplain]
  have hindexes : (t.insertRow schema place values).2.indexes =
      t.indexes.map fun p => (p.1, (addEntry schema place values p.1 p.2).2) :=
    changeIndexes_of_ok hok
  refine ⟨if_pos hok, hrows, ?_, ?_, ?_⟩
  · rw [hindexes, List.map_map]
    exact h.aligned
  · rw [hindexes, hrows]
    intro q hq
    obtain ⟨p, hp, rfl⟩ := List.mem_map.mp hq
    exact (h.lists p hp).addEntry (hall p hp)
  · rw [hrows, List.map_append]
    refine List.nodup_append.mpr ⟨h.places, List.nodup_singleton _, ?_⟩
    intro a ha b hb
    cases List.mem_singleton.mp hb
    rintro rfl
    exact hplace ha

theorem Kept.deleteRow_none (hrow : t.rowAt place = none) :
    t.deleteRow schema place = (false, t) := by
  rw [deleteRow, hrow]

/-- The table without one of its rows. -/
theorem Kept.dropRow (h : Kept schema t) (hrow : (place, old) ∈ t.rows) :
    Kept schema ⟨t.rows.filter fun r => r.1 ≠ place,
      t.indexes.map fun p => (p.1, dropEntry schema place old p.1 p.2)⟩ where
  aligned := by
    rw [List.map_map]
    exact h.aligned
  lists := by
    intro q hq
    obtain ⟨p, hp, rfl⟩ := List.mem_map.mp hq
    exact (h.lists p hp).dropEntry h.places hrow
  places := h.places.sublist (List.filter_sublist.map _)

theorem Kept.deleteRow_some (h : Kept schema t) (hrow : t.rowAt place = some old) :
    (t.deleteRow schema place).1 = true ∧
      (t.deleteRow schema place).2.rows = t.rows.filter (fun r => r.1 ≠ place) ∧
      Kept schema (t.deleteRow schema place).2 := by
  rw [deleteRow, hrow]
  exact ⟨rfl, rfl, h.dropRow (h.rowAt_eq_some_iff.mp hrow)⟩

theorem updateRow_none {newPlace : Place} (hrow : t.rowAt place = none) :
    t.updateRow schema newPlace place values = (none, t) := by
  rw [updateRow, hrow]

/-- Each index first loses the old entry. -/
theorem changeIndexes_drop_iff {newPlace : Place} (l : List (IndexDefinition × List IndexEntry)) :
    (changeIndexes (fun index entries =>
        addEntry schema newPlace values index (dropEntry schema place old index entries)) l).1 = true ↔
      ∀ p ∈ l.map (fun p => (p.1, dropEntry schema place old p.1 p.2)),
        (addEntry schema newPlace values p.1 p.2).1 = true := by
  rw [changeIndexes_ok_iff, List.forall_mem_map]

theorem Kept.updateRow_refused {newPlace : Place} (h : Kept schema t)
    (haccepts : schema.accepts values = true) (hrow : t.rowAt place = some old)
    (hfree : ¬ KeysFree schema ((t.rows.filter fun r => r.1 ≠ place).map (·.2)) values) :
    (t.updateRow schema newPlace place values).1 = none := by
  have hdropped := h.dropRow (h.rowAt_eq_some_iff.mp hrow)
  have hrefused : ¬ (changeIndexes (fun index entries =>
      addEntry schema newPlace values index (dropEntry schema place old index entries))
        t.indexes).1 = true := by
    rw [changeIndexes_drop_iff, keysFree_iff_addEntry _ hdropped.aligned hdropped.lists haccepts]
    exact hfree
  rw [updateRow, hrow]
  exact if_neg hrefused

/-- An update is the insertion of the new row into the table without the old one. -/
theorem Kept.updateRow_some {newPlace : Place} (h : Kept schema t)
    (haccepts : schema.accepts values = true) (hplain : values.map Value.padded = values)
    (hrow : t.rowAt place = some old)
    (hplace : newPlace ∉ (t.rows.filter fun r => r.1 ≠ place).map (·.1))
    (hfree : KeysFree schema ((t.rows.filter fun r => r.1 ≠ place).map (·.2)) values) :
    (t.updateRow schema newPlace place values).1 = some newPlace ∧
      (t.updateRow schema newPlace place values).2.rows =
        (t.rows.filter fun r => r.1 ≠ place) ++ [(newPlace, values)] ∧
      Kept schema (t.updateRow schema newPlace place values).2 := by
  have hdropped := h.dropRow (h.rowAt_eq_some_iff.mp hrow)
  have hall := (keysFree_iff_addEntry newPlace hdropped.aligned hdropped.lists
    haccepts).mpr hfree
  have hok := (changeIndexes_drop_iff t.indexes).mpr hall
  obtain ⟨-, hrows, hkept⟩ := hdropped.insertRow_some haccepts hplain hplace hfree
  have hindexes : (changeIndexes (fun index entries =>
        addEntry schema newPlace values index (dropEntry schema place old index entries))
        t.indexes).2 =
      (changeIndexes (addEntry schema newPlace values)
        (t.indexes.map fun p => (p.1, dropEntry schema place old p.1 p.2))).2 := by
    rw [changeIndexes_of_ok hok, changeIndexes_of_ok ((changeIndexes_ok_iff _).mpr hall),
      List.map_map]
    rfl
  have hsame : (t.updateRow schema newPlace place values).2 =
      (insertRow schema newPlace ⟨t.rows.filter fun r => r.1 ≠ place,
        t.indexes.map fun p => (p.1, dropEntry schema place old p.1 p.2)⟩ values).2 := by
    rw [updateRow, hrow, insertRow]
    dsimp only
    rw [hindexes]
  rw [hsame]
  refine ⟨?_, hrows, hkept⟩
  rw [updateRow, hrow]
  exact if_pos hok

end Kept

end ScratchDb.StorageModes
