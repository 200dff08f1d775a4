import ScratchDb.Lib.FirstFit
import ScratchDb.Query.Database
import ScratchDb.Record.Serializer
import ScratchDb.Tables.RecordStore

/-!
# Where the rows of a table are

The rows of a table in the order of a scan, and the pages that hold them: for
a disk table what the file decodes to, for a memory table a page for each row.
A new row goes to the place that the pages have for it.
-/

namespace ScratchDb

open SlottedStore

/-! ## Places -/

/-- A memory table counts its rows from 1. -/
def rowId (mode : TableStorageMode) (p : Place) : RecordId :=
  match mode with
  | .disk => .ofPlace p
  | .memory => ⟨p.1 + 1, p.2⟩

theorem precedes_rowId {mode : TableStorageMode} {p q : Place} (h : Before p q) :
    (rowId mode p).precedes (rowId mode q) = true := by
  have hlex := Prod.lex_iff.mp h
  rw [RecordId.precedes_iff]
  cases mode with
  | disk => exact hlex
  | memory =>
    rcases hlex with hpage | ⟨hpage, hslot⟩
    · exact .inl (Nat.succ_lt_succ hpage)
    · exact .inr ⟨congrArg (· + 1) hpage, hslot⟩

theorem rowId_inj {mode : TableStorageMode} {p q : Place} (h : rowId mode p = rowId mode q) :
    p = q := by
  cases mode <;> simp only [rowId, RecordId.ofPlace, RecordId.mk.injEq] at h
  · exact Prod.ext h.1 h.2
  · exact Prod.ext (Nat.succ.inj h.1) h.2

/-- The bytes that `make_record` gives. -/
def rowRecord (schema : Schema) (values : List Value) : Bytes :=
  (RecordSerializer.serialize schema values).getD []

/-- The room of the pages: of the table file, or none beside a row of a memory table. -/
def rowCapacity (schema : Schema) : Capacity (List Value) :=
  match schema.storageMode with
  | .disk => Page.capacity.comap (rowRecord schema)
  | .memory => { takes := fun slots _ => slots.isEmpty, fits := fun _ _ _ => true }

/-- The table file puts the record of a row where a page has room for the row. -/
theorem insertRecord_rows {f : TableFile} {s : OpenFile} {schema : Schema}
    {pages : List (Slots (List Value))} (hmode : schema.storageMode = .disk)
    (h : s.Represents f (encoded (rowRecord schema) pages)) (values : List Value) :
    f.Leaves (f.insertRecord (rowRecord schema values)) s
      (TableFile.insertedAt ((insert (rowCapacity schema) pages values).map fun stored =>
        (stored.1, encoded (rowRecord schema) stored.2)))
      (TableFile.pagesAfter (encoded (rowRecord schema) pages)
        ((insert (rowCapacity schema) pages values).map fun stored =>
          (stored.1, encoded (rowRecord schema) stored.2))) := by
  have hcapacity : rowCapacity schema = Page.capacity.comap (rowRecord schema) := by
    rw [rowCapacity, hmode]
  rw [hcapacity, ← insert_encoded]
  exact TableFile.insertRecord_leaves h (rowRecord schema values)

/-- A memory table has its rows in the order in which they were inserted. -/
theorem keepsOrder_memory {schema : Schema} (hmode : schema.storageMode = .memory)
    (pages : List (Slots (List Value))) (rows : List (List Value)) :
    KeepsOrder (rowCapacity schema) pages rows := by
  refine keepsOrder_of_uniform (fun slots a b => ?_) pages rows
  rw [rowCapacity, hmode]

/-! ## Rows in pages -/

theorem eq_of_inOrder {rows rows' : List TableRow} (h : InOrder rows) (h' : InOrder rows')
    (hmem : ∀ r, r ∈ rows ↔ r ∈ rows') : rows = rows' := by
  have hirrefl : ∀ a b : TableRow, a.recordId.precedes b.recordId = true → a ≠ b := by
    rintro a b hab rfl
    exact RecordId.ne_of_precedes hab rfl
  rw [InOrder] at h h'
  have hperm : rows.Perm rows' :=
    (List.perm_ext_iff_of_nodup (h.imp (hirrefl _ _)) (h'.imp (hirrefl _ _))).mpr hmem
  refine hperm.eq_of_pairwise ?_ h h'
  intro a b _ _ hab hba
  exact absurd rfl (hirrefl a a (RecordId.precedes_trans hab hba))

/-- The rows that a scan finds in the pages. -/
def heldRows (mode : TableStorageMode) (pages : List (Slots (List Value))) : List TableRow :=
  (entries pages).map fun e => ⟨rowId mode e.1, e.2⟩

theorem mem_heldRows {mode : TableStorageMode} {pages : List (Slots (List Value))} {r : TableRow} :
    r ∈ heldRows mode pages ↔ ∃ p values, lookup pages p = some values ∧ ⟨rowId mode p, values⟩ = r := by
  constructor
  · intro hr
    obtain ⟨e, he, rfl⟩ := List.mem_map.mp hr
    exact ⟨e.1, e.2, mem_entries.mp he, rfl⟩
  · rintro ⟨p, values, hp, rfl⟩
    exact List.mem_map.mpr ⟨(p, values), mem_entries.mpr hp, rfl⟩

theorem inOrder_heldRows (mode : TableStorageMode) (pages : List (Slots (List Value))) :
    InOrder (heldRows mode pages) := by
  rw [InOrder, heldRows, List.pairwise_map]
  exact (pairwise_entries pages).imp fun hbefore => precedes_rowId hbefore

namespace StoredTable

variable {t : StoredTable} {pages after : List (Slots (List Value))} {p : Place}
  {values : List Value}

def HeldIn (t : StoredTable) (pages : List (Slots (List Value))) : Prop :=
  t.rows = heldRows t.schema.storageMode pages

theorem heldIn_empty (schema : Schema) : (StoredTable.empty schema).HeldIn [] := by
  rw [HeldIn, heldRows]
  rfl

theorem HeldIn.contents (h : t.HeldIn pages) : t.rows.map (·.values) = contents pages := by
  rw [h, heldRows, List.map_map]
  rfl

/-- A new row stands where the pages have put it. -/
theorem HeldIn.insert (h : t.HeldIn pages)
    (hinsert : SlottedStore.insert (rowCapacity t.schema) pages (t.stored values) =
      some (p, after)) :
    (t.insert (rowId t.schema.storageMode p) values).HeldIn after := by
  obtain ⟨hfree, hlookup⟩ := lookup_insert hinsert
  refine eq_of_inOrder (t.insert _ values).inOrder (inOrder_heldRows _ after) fun r => ?_
  have hschema : (t.insert (rowId t.schema.storageMode p) values).schema = t.schema := rfl
  rw [hschema, mem_heldRows, StoredTable.insert, mem_insertRowSorted, remove, List.mem_filter, h,
    mem_heldRows, hlookup]
  constructor
  · rintro (rfl | ⟨⟨q, a, hq, rfl⟩, -⟩)
    · exact ⟨p, t.stored values, Function.update_self .., rfl⟩
    · refine ⟨q, a, ?_, rfl⟩
      rw [Function.update_of_ne, hq]
      rintro rfl
      rw [hfree] at hq
      cases hq
  · rintro ⟨q, a, hq, rfl⟩
    by_cases hqp : q = p
    · subst hqp
      rw [Function.update_self, Option.some.injEq] at hq
      rw [hq]
      exact .inl rfl
    · rw [Function.update_of_ne hqp] at hq
      refine .inr ⟨⟨q, a, hq, rfl⟩, ?_⟩
      simp only [ne_eq, decide_eq_true_eq]
      exact fun heq => hqp (rowId_inj heq)

end StoredTable

/-! ## Rows inserted one after another -/

/-- The ids that rows get in the pages. -/
def PlacedIn (t : StoredTable) : List (Slots (List Value)) → List (RecordId × List Value) → Prop
  | _, [] => True
  | pages, row :: rows =>
    ∃ stored, insert (rowCapacity t.schema) pages (t.stored row.2) = some stored ∧
      row.1 = rowId t.schema.storageMode stored.1 ∧ PlacedIn t stored.2 rows

/-- Insert all rows in their places. -/
def StoredTable.insertRows (t : StoredTable) (rows : List (RecordId × List Value)) : StoredTable :=
  rows.foldl (fun t row => t.insert row.1 row.2) t

theorem heldIn_insertRows {t : StoredTable} {pages : List (Slots (List Value))}
    {rows : List (RecordId × List Value)} (h : t.HeldIn pages) (hplaced : PlacedIn t pages rows) :
    ∃ after, insertAll (rowCapacity t.schema) pages (rows.map fun row => t.stored row.2) =
        some after ∧ (t.insertRows rows).HeldIn after := by
  induction rows generalizing t pages with
  | nil => exact ⟨pages, rfl, h⟩
  | cons row rows ih =>
    obtain ⟨stored, hinsert, hid, hrest⟩ := hplaced
    have hheld := h.insert hinsert
    rw [← hid] at hheld
    have hsame : ∀ pages rows, PlacedIn t pages rows → PlacedIn (t.insert row.1 row.2) pages rows := by
      intro pages rows hrows
      induction rows generalizing pages with
      | nil => trivial
      | cons r rows ihRows =>
        obtain ⟨s, hs, hr, hmore⟩ := hrows
        exact ⟨s, hs, hr, ihRows _ hmore⟩
    obtain ⟨after, hall, hafter⟩ := ih hheld (hsame _ _ hrest)
    refine ⟨after, ?_, hafter⟩
    rw [List.map_cons, insertAll, hinsert]
    exact hall

end ScratchDb
