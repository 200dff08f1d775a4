import ScratchDb.Tables.RecordStore
import ScratchDb.Tables.WriteAhead

/-!
# A table file is a map of records

After any run of operations, closing and reopening included, every record id
gives the bytes that were stored under it last, and every answer of an
operation agrees with that map.
-/

namespace ScratchDb

open SlottedStore

/-- Page first, then slot. -/
def RecordId.Before (a b : RecordId) : Prop :=
  a.pageId < b.pageId ∨ a.pageId = b.pageId ∧ a.slotId < b.slotId

namespace TableFile

open OpenFile PageCache

/-- The calls on a table file; `reopen` destroys it and constructs another one of the same file. -/
inductive StoreOperation where
  | insertRecord (record : Bytes)
  | updateRecord (recordId : RecordId) (record : Bytes)
  | deleteRecord (recordId : RecordId)
  | readRecord (recordId : RecordId)
  | scanRecords
  | flush (order : HashOrder)
  | reopen (order : HashOrder) (walManager : Bool) (transactionId : Nat)

inductive StoreAnswer where
  | inserted (recordId : RecordId)
  | updated (recordId : RecordId)
  | read (record : Option Bytes)
  | scanned (records : List (RecordId × Bytes))
  | done
  | failed
  | threw
deriving DecidableEq

def answerOf {α : Type} (returned : α → StoreAnswer) : Except Stop α → StoreAnswer
  | .ok a => returned a
  | .error _ => .threw

def StoreAnswer.of (done : Bool) : StoreAnswer := if done then .done else .failed

/-- The table file that is open, and its state. -/
abbrev StoreState := TableFile × OpenFile

def call {α : Type} (m : FileIo α) (returned : α → StoreAnswer) (s : StoreState) :
    StoreAnswer × StoreState :=
  (answerOf returned (m s.2).1, (s.1, (m s.2).2))

def apply (s : StoreState) : StoreOperation → StoreAnswer × StoreState
  | .insertRecord record => call (s.1.insertRecord record) .inserted s
  | .updateRecord recordId record =>
    call (s.1.updateRecord recordId record) (fun moved => (moved.map .updated).getD .failed) s
  | .deleteRecord recordId => call (s.1.deleteRecord recordId) .of s
  | .readRecord recordId => call (s.1.readRecord recordId) .read s
  | .scanRecords => call s.1.scanRecords .scanned s
  | .flush order => call (s.1.flush order) .of s
  | .reopen order walManager transactionId =>
    let f : TableFile := ⟨s.1.path, walManager, transactionId⟩
    (.done, (f, s.1.reopened order f s.2))

/-- The answers to a run of calls, and the state after it. -/
def applyAll : StoreState → List StoreOperation → List (StoreOperation × StoreAnswer) × StoreState
  | s, [] => ([], s)
  | s, op :: ops =>
    let rest := applyAll (apply s op).2 ops
    ((op, (apply s op).1) :: rest.1, rest.2)

abbrev Records := RecordId → Option Bytes

/-- The record that an operation stored under an id, or the id it freed. -/
def recordsAfter (records : Records) : StoreOperation × StoreAnswer → Records
  | (.insertRecord record, .inserted recordId) => Function.update records recordId (some record)
  | (.updateRecord recordId record, .updated newId) =>
    Function.update (Function.update records recordId none) newId (some record)
  | (.deleteRecord recordId, .done) => Function.update records recordId none
  | _ => records

/-- A blank page takes the record. -/
def Storable (record : Bytes) : Prop :=
  record ≠ [] ∧ Page.directoryEnd 1 + record.length ≤ pageSize

/-- A scan gives every record once, in the order of the ids. -/
structure ScanOf (records : Records) (scanned : List (RecordId × Bytes)) : Prop where
  mem : ∀ recordId record, (recordId, record) ∈ scanned ↔ records recordId = some record
  inOrder : scanned.Pairwise fun x y => x.1.Before y.1

/-- What a call may answer when the file holds the records. -/
def Right (records : Records) : StoreOperation → StoreAnswer → Prop
  | .insertRecord _, .inserted recordId => records recordId = none
  | .insertRecord record, .threw => ¬ Storable record
  | .updateRecord recordId _, .updated newId =>
    records recordId ≠ none ∧ (newId = recordId ∨ records newId = none)
  | .updateRecord recordId record, .failed => records recordId = none ∨ ¬ Storable record
  | .deleteRecord recordId, .done => records recordId ≠ none
  | .deleteRecord recordId, .failed => records recordId = none
  | .readRecord recordId, .read record => record = records recordId
  | .scanRecords, .scanned scanned => ScanOf records scanned
  | .flush _, .done => True
  | .reopen _ _ _, .done => True
  | _, _ => False

/-- Every call of a run answers right about the records of the calls before it. -/
def Faithful (records : Records) : List (StoreOperation × StoreAnswer) → Prop
  | [] => True
  | entry :: log => Right records entry.1 entry.2 ∧ Faithful (recordsAfter records entry) log

/-- A file that is well laid out on disk. -/
structure WellStored (path : Path) (w : World) : Prop where
  parent : w.disk.fs.parentExists path = true
  placed : ∀ k < w.disk.fs.pageCount path, (w.disk.fs.pageAt path k).Placed

/-- The records in the blocks of a file. -/
def recordsOnDisk (path : Path) (w : World) : Records := fun recordId =>
  if recordId.pageId < w.disk.fs.pageCount path then
    (w.disk.fs.pageAt path recordId.pageId).read recordId.slotId
  else none

variable {f : TableFile} {s : OpenFile} {pages after : List (Slots Bytes)}

/-! ## Places and record ids -/

/-- The records of a store by their ids. -/
def recordsOf (pages : List (Slots Bytes)) : Records := fun recordId => lookup pages recordId.place

theorem place_ofPlace (p : Place) : (RecordId.ofPlace p).place = p := rfl

theorem ofPlace_place (recordId : RecordId) : RecordId.ofPlace recordId.place = recordId := rfl

theorem recordsOf_update {p : Place} {r : Option Bytes}
    (h : lookup after = Function.update (lookup pages) p r) :
    recordsOf after = Function.update (recordsOf pages) (RecordId.ofPlace p) r := by
  funext recordId
  rw [recordsOf, h, Function.update_apply, Function.update_apply]
  refine if_congr ?_ rfl rfl
  exact ⟨fun heq => by rw [← heq, ofPlace_place], fun heq => by rw [heq, place_ofPlace]⟩

theorem takes_nil_iff (record : Bytes) : Page.capacity.takes [] record = true ↔ Storable record := by
  refine decide_eq_true_iff.trans (and_congr_right fun _ => ?_)
  exact and_iff_right (by decide)

theorem not_storable_of_insert {record : Bytes} (h : insert Page.capacity pages record = none) :
    ¬ Storable record := by
  rw [SlottedStore.insert] at h
  rw [← takes_nil_iff]
  split at h
  · cases h
  · split at h
    · cases h
    · assumption

theorem before_of_lex {p q : Place} (h : SlottedStore.Before p q) :
    (RecordId.ofPlace p).Before (RecordId.ofPlace q) := Prod.lex_iff.mp h

theorem scanOf_listed (pages : List (Slots Bytes)) :
    ScanOf (recordsOf pages) (listed (entries pages)) := by
  refine ⟨fun recordId record => ?_, List.pairwise_map.mpr ?_⟩
  · rw [recordsOf, ← mem_entries, listed, List.mem_map]
    constructor
    · rintro ⟨e, he, heq⟩
      cases heq
      exact he
    · intro he
      exact ⟨(recordId.place, record), he, rfl⟩
  · exact (pairwise_entries pages).imp fun h => before_of_lex h

/-! ## Steps and runs -/

/-- A call answers right, and the file holds the records after it. -/
theorem apply_right (h : s.Represents f pages) (op : StoreOperation) :
    Right (recordsOf pages) op (apply (f, s) op).1 ∧
      ∃ after, (apply (f, s) op).2.2.Represents (apply (f, s) op).2.1 after ∧
        (apply (f, s) op).2.1.path = f.path ∧
        recordsOf after = recordsAfter (recordsOf pages) (op, (apply (f, s) op).1) := by
  cases op with
  | insertRecord record =>
    obtain ⟨t, hrun, ht⟩ := insertRecord_leaves h record
    cases hstored : insert Page.capacity pages record with
    | none =>
      rw [hstored] at hrun ht
      rw [apply, call, hrun]
      exact ⟨not_storable_of_insert hstored, pages, ht, rfl, rfl⟩
    | some stored =>
      rw [hstored] at hrun ht
      obtain ⟨hfree, hlookup⟩ := lookup_insert (show insert Page.capacity pages record =
        some (stored.1, stored.2) from hstored)
      rw [apply, call, hrun]
      exact ⟨hfree, stored.2, ht, rfl, recordsOf_update hlookup⟩
  | updateRecord recordId record =>
    obtain ⟨t, hrun, ht⟩ := updateRecord_leaves h recordId record
    rw [apply, call, hrun]
    cases hmoved : update Page.capacity pages recordId.place record with
    | none =>
      rw [hmoved] at ht
      exact ⟨(update_eq_none hmoved).imp_right not_storable_of_insert, pages, ht, rfl, rfl⟩
    | some moved =>
      rw [hmoved] at ht
      obtain ⟨hlive, hor⟩ := lookup_update (show update Page.capacity pages recordId.place record =
        some (moved.1, moved.2) from hmoved)
      refine ⟨⟨hlive, hor.imp (fun hstays => congrArg RecordId.ofPlace hstays.1) And.left⟩,
        moved.2, ht, rfl, ?_⟩
      rcases hor with ⟨hplace, hlookup⟩ | ⟨hfree, hlookup⟩
      · refine (recordsOf_update hlookup).trans ?_
        have hsame : RecordId.ofPlace moved.1 = recordId := congrArg RecordId.ofPlace hplace
        simp only [recordsAfter, answerOf, Option.map_some, Option.getD_some, hsame,
          ofPlace_place, Function.update_idem]
      · have hne : recordId.place ≠ moved.1 := by
          intro heq
          rw [← heq] at hfree
          exact hlive hfree
        rw [Function.update_comm hne.symm] at hlookup
        funext other
        rw [recordsOf, hlookup]
        have hids : ∀ p : Place, other.place = p ↔ other = RecordId.ofPlace p := fun p =>
          ⟨fun heq => by rw [← heq, ofPlace_place], fun heq => by rw [heq, place_ofPlace]⟩
        simp only [recordsAfter, answerOf, Option.map_some, Option.getD_some,
          Function.update_apply, hids]
        rfl
  | deleteRecord recordId =>
    obtain ⟨t, hrun, ht⟩ := deleteRecord_leaves h recordId
    rw [apply, call, hrun]
    cases hremoved : remove pages recordId.place with
    | none =>
      rw [hremoved] at ht
      exact ⟨remove_eq_none hremoved, pages, ht, rfl, rfl⟩
    | some after =>
      rw [hremoved] at ht
      obtain ⟨hlive, hlookup⟩ := lookup_remove hremoved
      exact ⟨hlive, after, ht, rfl, recordsOf_update hlookup⟩
  | readRecord recordId =>
    obtain ⟨t, hrun, ht⟩ := readRecord_leaves h recordId
    rw [apply, call, hrun]
    exact ⟨rfl, pages, ht, rfl, rfl⟩
  | scanRecords =>
    obtain ⟨t, hrun, ht⟩ := scanRecords_leaves h
    rw [apply, call, hrun]
    exact ⟨scanOf_listed pages, pages, ht, rfl, rfl⟩
  | flush order =>
    obtain ⟨t, hrun, ht, -⟩ := flush_leaves order h
    rw [apply, call, hrun]
    exact ⟨trivial, pages, ht, rfl, rfl⟩
  | reopen order walManager transactionId =>
    have hpath : (⟨f.path, walManager, transactionId⟩ : TableFile).path = f.path := rfl
    exact ⟨trivial, pages, reopened_represents h order hpath, rfl, rfl⟩

theorem applyAll_faithful (h : s.Represents f pages) (ops : List StoreOperation) :
    Faithful (recordsOf pages) (applyAll (f, s) ops).1 := by
  induction ops generalizing f s pages with
  | nil => trivial
  | cons op ops ih =>
    obtain ⟨hright, after, hafter, -, hrecords⟩ := apply_right h op
    refine ⟨hright, ?_⟩
    rw [← hrecords]
    exact ih hafter

/-- The slots in the blocks of a file. -/
def slotsOnDisk (path : Path) (w : World) : List (Slots Bytes) :=
  (List.range (w.disk.fs.pageCount path)).map fun k => (w.disk.fs.pageAt path k).slots

theorem slotsAt_slotsOnDisk {path : Path} {w : World} {k : Nat}
    (hk : k < w.disk.fs.pageCount path) :
    slotsAt (slotsOnDisk path w) k = (w.disk.fs.pageAt path k).slots := by
  rw [slotsAt, slotsOnDisk, List.getElem?_map, List.getElem?_range hk]
  rfl

theorem recordsOf_slotsOnDisk (path : Path) (w : World) :
    recordsOf (slotsOnDisk path w) = recordsOnDisk path w := by
  funext recordId
  rw [recordsOnDisk]
  split
  · rename_i hk
    rw [← Page.join_slots, ← slotsAt_slotsOnDisk hk]
    rfl
  · rename_i hk
    refine lookup_behind ?_
    rw [slotsOnDisk, List.length_map, List.length_range]
    exact Nat.not_lt.mp hk

theorem WellStored.represents {w : World} (h : WellStored (pathOf f.path) w) :
    (f.start w).Represents f (slotsOnDisk (pathOf f.path) w) := by
  have hlength : (slotsOnDisk (pathOf f.path) w).length =
      w.disk.fs.pageCount (pathOf f.path) := by
    rw [slotsOnDisk, List.length_map, List.length_range]
  refine start_represents h.parent hlength fun k hk => ?_
  rw [hlength] at hk
  rw [slotsAt_slotsOnDisk hk]
  exact (h.placed k hk).stores

theorem wellStored_sixtyFivePages : WellStored (pathOf smallTable.path) sixtyFivePages := by
  refine ⟨rfl, fun k hk => ?_⟩
  have hpath : pathOf smallTable.path = [[116]] := by decide
  rw [hpath] at hk ⊢
  have hblocks : sixtyFivePages.disk.fs.pages [[116]] = some (List.replicate 65 Page.blank) := rfl
  rw [FileSystem.pageCount, hblocks, Option.getD_some, List.length_replicate] at hk
  rw [FileSystem.pageAt, hblocks, Option.getD_some, List.getD_replicate _ hk]
  exact Page.placed_blank.1

end TableFile

end ScratchDb
