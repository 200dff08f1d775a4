import ScratchDb.Indexes.IndexMirrors
import ScratchDb.Tables.StorageModes

/-!
# Rows and their index entries

On a disk table whose indexes list the keys of its rows, an index refuses a row
exactly if it is unique and another row has the key, and the statements keep the
entries those of the rows.
-/

namespace ScratchDb.StorageModes

/-! ## Keys -/

theorem length_keyBytes_le {v : Value} {column : Column} (hvalid : column.isValid = true)
    (h : v.matchesColumn column = true) : v.keyBytes.length ≤ 2049 := by
  have hint : ∀ n, (int64Key n).length = 8 := fun n => by
    rw [int64Key, List.length_reverse, LittleEndian.length_encode]
  have huint : ∀ n, (uint32Key n).length = 4 := fun n => by
    rw [uint32Key, List.length_reverse, LittleEndian.length_encode]
  have hsize : column.maxSize ≤ 2048 := by
    unfold Column.isValid at hvalid
    cases htype : column.type <;> simp [htype, Column.fixedSize] at hvalid <;> omega
  cases v with
  | null => simp [Value.keyBytes]
  | integer n | number n | date n | time n | datetime n =>
    simp [Value.keyBytes, hint, huint]
  | character s | string s | varstring s | text s =>
    simp [Value.matchesColumn] at h
    simp [Value.keyBytes]
    omega

theorem entry_fits (place : Place) {key : Bytes} (h : key.length ≤ 2049) :
    IndexFile.entryFitsEmptyLeaf (place.entry key) = true := by
  have hsizes : 2049 ≤ uint16Max ∧ leafHeaderSize + entryHeaderSize + 2049 ≤ pageSize := by
    simp [uint16Max, leafHeaderSize, entryHeaderSize, pageSize]
  rw [IndexFile.entryFitsEmptyLeaf, Bool.and_eq_true]
  exact ⟨decide_eq_true (h.trans hsizes.1),
    decide_eq_true ((Nat.add_le_add_left h _).trans hsizes.2)⟩

/-- Every row that a table takes has a key in each of its indexes, and the entry fits into a leaf. -/
theorem indexKey_of_accepts {schema : Schema} {index : IndexDefinition} {values : List Value}
    (hindex : index ∈ schema.indexes) (h : schema.accepts values = true) :
    ∃ key, indexKey schema index values = some key ∧ key.length ≤ 2049 := by
  obtain ⟨-, -, hone, hcolumn⟩ := schema.indexesValid.1 index hindex
  obtain ⟨name, hname⟩ := List.length_eq_one_iff.mp hone
  obtain ⟨i, hi⟩ := Option.isSome_iff_exists.mp (hcolumn name (by simp [hname]))
  obtain ⟨hlt, -⟩ := List.findIdx?_eq_some_iff_getElem.mp hi
  rw [SchemaParts.accepts, Bool.and_eq_true, decide_eq_true_eq, List.all_eq_true] at h
  have hlt' : i < values.length := h.1 ▸ hlt
  have hmem : (values[i], schema.columns[i]) ∈ values.zip schema.columns := by
    rw [List.mem_iff_getElem]
    exact ⟨i, by simp [hlt, hlt'], by simp⟩
  have hmatches : (values[i]).matchesColumn schema.columns[i] = true := h.2 _ hmem
  have hvalid : (schema.columns[i]).isValid = true :=
    schema.columnsValid.2.2.1 _ (List.getElem_mem hlt)
  refine ⟨(values[i]).keyBytes, ?_, length_keyBytes_le hvalid hmatches⟩
  rw [indexKey, hname, List.head?_cons, Option.bind_eq_bind, Option.bind_some, hi]
  rw [Option.bind_eq_bind, Option.bind_some, List.getElem?_eq_getElem hlt]
  rw [Option.bind_eq_bind, Option.bind_some, List.getElem?_eq_getElem hlt']
  rw [Option.bind_eq_bind, Option.bind_some, makeIndexKey_eq, if_pos hmatches]

/-- No row among `rows` has a key of these values in a unique index. -/
def KeysFree (schema : Schema) (rows : List (List Value)) (values : List Value) : Prop :=
  ∀ index ∈ schema.indexes, index.unique = true → ∀ row ∈ rows,
    indexKey schema index row ≠ indexKey schema index values

theorem KeysFree.of_subset {schema : Schema} {rows rows' : List (List Value)} {values : List Value}
    (h : KeysFree schema rows values) (hsub : rows' ⊆ rows) : KeysFree schema rows' values :=
  fun index hindex hunique row hrow => h index hindex hunique row (hsub hrow)

/-! ## Entries -/

/-- The entries of an index are the keys of these rows. -/
structure Lists (schema : Schema) (index : IndexDefinition) (entries : List IndexEntry)
    (rows : List (Place × List Value)) : Prop where
  list : IndexList index.unique entries
  mem : ∀ e, e ∈ entries ↔ ∃ r ∈ rows, indexKey schema index r.2 = some e.key ∧ e.recordId = r.1.1

theorem Place.eq_entry {place : Place} {e : IndexEntry} (h : e.recordId = place.1) :
    e = place.entry e.key := by
  cases e
  cases h
  rfl

/-- A unique index refuses a key that it lists. -/
theorem insertInMemory_taken {entries : List IndexEntry} {entry e : IndexEntry}
    (hsorted : Sorted entries) (hmem : e ∈ entries) (hkey : e.key = entry.key) :
    insertInMemory true entries entry = none := by
  rw [insertInMemory]
  split
  · rfl
  · rw [if_pos]
    rw [Bool.true_and]
    exact (any_key_iff hsorted entry.key).mpr ⟨e, hmem, hkey⟩

/-- A row is added exactly if its index is not unique or no row has its key. -/
theorem Lists.addEntry_iff {schema : Schema} {index : IndexDefinition} {entries : List IndexEntry}
    {rows : List (Place × List Value)} {place : Place} {values : List Value}
    (h : Lists schema index entries rows) (hindex : index ∈ schema.indexes)
    (haccepts : schema.accepts values = true) :
    (DiskTable.addEntry schema place values index entries).1 = true ↔
      (index.unique = true → ∀ r ∈ rows, indexKey schema index r.2 ≠ indexKey schema index values) := by
  obtain ⟨key, hkey, hlength⟩ := indexKey_of_accepts hindex haccepts
  rw [DiskTable.addEntry, hkey]
  dsimp only
  constructor
  · intro hadded hunique r hr heq
    have htaken : insertInMemory index.unique entries (place.entry key) = none := by
      rw [hunique]
      exact insertInMemory_taken h.list.sorted ((h.mem (r.1.entry key)).mpr ⟨r, hr, heq, rfl⟩) rfl
    rw [htaken] at hadded
    cases hadded
  · intro hfree
    obtain ⟨m, hm⟩ := insertInMemory_ne_none h.list.sorted (entry_fits place hlength)
      fun hunique a ha hsame => by
        obtain ⟨r, hr, hrkey, -⟩ := (h.mem a).mp ha
        exact hfree hunique r hr (hrkey.trans (congrArg some hsame))
    rw [hm]

/-- The entries behind a row that is added. -/
theorem Lists.addEntry {schema : Schema} {index : IndexDefinition} {entries : List IndexEntry}
    {rows : List (Place × List Value)} {place : Place} {values : List Value}
    (h : Lists schema index entries rows)
    (hadded : (DiskTable.addEntry schema place values index entries).1 = true) :
    Lists schema index (DiskTable.addEntry schema place values index entries).2
      (rows ++ [(place, values)]) := by
  rw [DiskTable.addEntry] at hadded ⊢
  cases hkey : indexKey schema index values with
  | none =>
    rw [hkey] at hadded
    cases hadded
  | some key =>
    rw [hkey] at hadded
    dsimp only at hadded ⊢
    cases hinsert : insertInMemory index.unique entries (place.entry key) with
    | none =>
      rw [hinsert] at hadded
      cases hadded
    | some m =>
      obtain ⟨hm, hmem⟩ := insertInMemory_eq_some h.list hinsert
      refine ⟨hm, fun e => ?_⟩
      rw [hmem, h.mem]
      constructor
      · rintro (rfl | ⟨r, hr, hrkey, hplace⟩)
        · exact ⟨(place, values), by simp, hkey, rfl⟩
        · exact ⟨r, by simp [hr], hrkey, hplace⟩
      · rintro ⟨r, hr, hrkey, hplace⟩
        rcases List.mem_append.mp hr with hr | hr
        · exact .inr ⟨r, hr, hrkey, hplace⟩
        · cases List.mem_singleton.mp hr
          refine .inl ?_
          rw [Place.eq_entry hplace, Option.some.inj (hkey.symm.trans hrkey)]

/-- The entries behind a row that is taken out. -/
theorem Lists.dropEntry {schema : Schema} {index : IndexDefinition} {entries : List IndexEntry}
    {rows : List (Place × List Value)} {place : Place} {values : List Value}
    (h : Lists schema index entries rows) (hplaces : (rows.map (·.1)).Nodup)
    (hrow : (place, values) ∈ rows) :
    Lists schema index (DiskTable.dropEntry schema place values index entries)
      (rows.filter fun r => r.1 ≠ place) := by
  have hother : ∀ r ∈ rows, r.1 = place → r = (place, values) := fun r hr heq =>
    List.inj_on_of_nodup_map hplaces hr hrow heq
  rw [DiskTable.dropEntry]
  cases hkey : indexKey schema index values with
  | none =>
    refine ⟨h.list, fun e => ?_⟩
    rw [h.mem]
    constructor
    · rintro ⟨r, hr, hrkey, hplace⟩
      refine ⟨r, List.mem_filter.mpr ⟨hr, ?_⟩, hrkey, hplace⟩
      refine decide_eq_true fun heq => ?_
      rw [hother r hr heq, hkey] at hrkey
      cases hrkey
    · rintro ⟨r, hr, hrkey, hplace⟩
      exact ⟨r, (List.mem_filter.mp hr).1, hrkey, hplace⟩
  | some key =>
    obtain ⟨hlist, hmem⟩ := removeInMemory_spec (place.entry key) h.list
    refine ⟨hlist, fun e => ?_⟩
    dsimp only
    rw [hmem, h.mem]
    constructor
    · rintro ⟨⟨r, hr, hrkey, hplace⟩, hne⟩
      refine ⟨r, List.mem_filter.mpr ⟨hr, ?_⟩, hrkey, hplace⟩
      refine decide_eq_true fun heq => hne ?_
      rw [hother r hr heq] at hrkey hplace
      rw [Place.eq_entry hplace, Option.some.inj (hkey.symm.trans hrkey)]
    · rintro ⟨r, hr, hrkey, hplace⟩
      obtain ⟨hr, hne⟩ := List.mem_filter.mp hr
      refine ⟨⟨r, hr, hrkey, hplace⟩, fun heq => of_decide_eq_true hne (Subtype.ext ?_)⟩
      rw [← hplace, heq]
      rfl

end ScratchDb.StorageModes
