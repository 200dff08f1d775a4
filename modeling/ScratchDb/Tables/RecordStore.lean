import ScratchDb.Tables.HeldPages

/-!
# Table files as slotted stores

Every operation of a table file answers and does what the store of its slots
says, whether it is given a WAL manager or not, and whatever the cache holds.
-/

namespace ScratchDb

open SlottedStore

def RecordId.place (recordId : RecordId) : Place := (recordId.pageId, recordId.slotId)

def RecordId.ofPlace (p : Place) : RecordId := ⟨p.1, p.2⟩

namespace TableFile

open OpenFile PageCache

variable {f : TableFile} {s t : OpenFile} {pages : List (Slots Bytes)} {slots : Slots Bytes}
  {before after page : Page} {k : Nat}

/-- The call ends with `result` and leaves the pages. -/
def Leaves {α : Type} (f : TableFile) (m : FileIo α) (s : OpenFile) (result : Except Stop α)
    (pages : List (Slots Bytes)) : Prop :=
  ∃ t, m s = (result, t) ∧ t.Represents f pages

/-- What a call leaves that changed the pages if it has a result. -/
def pagesAfter {α : Type} (pages : List (Slots Bytes)) (result : Option (α × List (Slots Bytes))) :
    List (Slots Bytes) :=
  (result.map Prod.snd).getD pages

/-! ## One page -/

theorem logPageUpdate_off (hwal : f.walManager = false) (before after : Page) :
    f.logPageUpdate k before after s = (.ok (some after), s) := by
  rw [logPageUpdate, hwal]
  rfl

/-- A fetched page that is changed and unpinned. -/
theorem change_leaves (h : s.Represents f pages) (hk : k < s.pageCount)
    (hafter : after.Stores slots) :
    ∃ t u, f.logOrRestore k (s.content (f.key k)) after (s.fetched (f.key k)) = (.ok true, t) ∧
      unpinPage (f.key k) true t = (.ok true, u) ∧ u.Represents f (pages.set k slots) := by
  cases hwal : f.walManager with
  | true =>
    refine ⟨_, _, logOrRestore_fetched hwal s after, unpinPage_changed h.toReady after, ?_⟩
    exact (h.visited hk (hafter.setPageLsn s.nextLsn) fun hd => by cases hd).logged f k _ _
  | false =>
    refine ⟨(s.fetched (f.key k)).paged (f.key k) after, s.visited (f.key k) after true, ?_,
      unpinPage_fetched h.toReady after true, h.visited hk hafter fun hd => by cases hd⟩
    rw [logOrRestore, Prog.bind_ok (logPageUpdate_off hwal _ after)]
    rfl

/-- A page appended behind the others. -/
theorem appendPage_leaves (h : s.Represents f pages) (hpage : page.Stores slots) :
    f.Leaves (f.appendPage page) s (.ok true) (pages ++ [slots]) := by
  -- the page that is written, and the file with it
  have hbrought : ∀ {u : OpenFile} {written : Page}, u.Represents f (pages ++ [slots]) →
      u.cache.find (f.key s.pageCount) = none → u.pageCount = s.pageCount + 1 →
      written.Stores slots →
      ((u.noted (f.key s.pageCount)).roomed.placed (f.key s.pageCount) written).Represents f
        (pages ++ [slots]) := by
    intro u written hu hnone hcount hwritten
    have hnoted := hu.noted (f.key s.pageCount)
    refine hnoted.roomed.placed ?_ ?_ (length_roomed hnoted.toTidy) ?_
    · rw [pageCount_roomed]
      show s.pageCount < u.pageCount
      omega
    · rcases find_roomed hnoted.toTidy (f.key s.pageCount) with hsame | ⟨hgone, -⟩
      · rw [hsame]
        exact hnone
      · exact hgone
    · rw [slotsAt_append, if_pos h.length.symm]
      exact hwritten
  have hbehind := h.toReady.find_behind (Nat.le_refl _)
  cases hwal : f.walManager with
  | true =>
    have hstamped := hpage.setPageLsn s.nextLsn
    have hlogged := (h.logged f s.pageCount Page.blank page).flushedThrough
      (page.setPageLsn s.nextLsn).pageLsn
    have hgrown : s.grown f page = ((s.logged f s.pageCount Page.blank page).flushedThrough
        (page.setPageLsn s.nextLsn).pageLsn).extended f (page.setPageLsn s.nextLsn) := by
      rw [grown, OpenFile.extended, pageCount_flushedThrough]
      rfl
    refine ⟨_, appendPage_eq hwal h.toReady page, hbrought ?_ ?_ (pageCount_grown s f page) hstamped⟩
    · rw [hgrown]
      exact hlogged.extended hstamped
    · rw [cache_grown]
      exact hbehind
  | false =>
    have hextended := h.extended hpage
    have hwrite : OpenFile.io (perform (.writePage (pathOf f.path) s.pageCount page)) s =
        (.ok true, s.written (f.key s.pageCount) page) := by
      have hpossible : (Effect.writePage (pathOf f.path) s.pageCount page).possible
          s.world.disk.fs = true := h.parent
      rw [io_apply, perform_ok hpossible]
      rfl
    have hnew := newPage_eq hextended.toReady hbehind page
    refine ⟨_, ?_, hbrought hextended hbehind rfl hpage⟩
    rw [appendPage, Prog.bind_ok (Prog.get_apply s), Prog.bind_ok (logPageUpdate_off hwal _ page)]
    simp only [hwal, Bool.false_eq_true, if_false]
    rw [Prog.bind_ok (Prog.pure_apply true s)]
    simp only [Bool.not_true, Bool.false_eq_true, if_false]
    rw [Prog.bind_ok hwrite]
    simp only [Bool.not_true, Bool.false_eq_true, if_false]
    rw [Prog.bind_ok (Prog.modify_apply _ _)]
    refine (Prog.bind_ok hnew).trans ?_
    simp only [Bool.not_true, Bool.false_eq_true, if_false]
    exact unpinPage_fresh _ _ _

/-! ## Inserting -/

theorem drop_eq_cons (hk : k < pages.length) :
    pages.drop k = slotsAt pages k :: pages.drop (k + 1) := by
  rw [slotsAt_of_lt hk, List.drop_eq_getElem_cons hk]

/-- The scan stops at the first page that takes the record. -/
theorem insertScan_leaves (record : Bytes) {count : Nat} (h : s.Represents f pages)
    (hk : k + count = pages.length) :
    f.Leaves (f.insertScan record count k) s
      (.ok (((pages.drop k).findIdx? (Page.capacity.takes · record)).map fun j =>
        RecordId.ofPlace (insertAt pages (k + j) record).1))
      ((((pages.drop k).findIdx? (Page.capacity.takes · record)).map fun j =>
        (insertAt pages (k + j) record).2).getD pages) := by
  induction count generalizing k s with
  | zero =>
    have hnil : pages.drop k = [] := List.drop_eq_nil_of_le (by omega)
    rw [hnil]
    exact ⟨s, rfl, h⟩
  | succ count ih =>
    have hlt : k < pages.length := by omega
    have hlt' : k < s.pageCount := h.length ▸ hlt
    have hinsert := (h.content hlt').insert record
    have hfetch := fetchPage_eq h.toReady hlt'
    rw [drop_eq_cons hlt, List.findIdx?_cons, Leaves, insertScan, Prog.bind_ok hfetch]
    rcases hresult : (s.content (f.key k)).insert record with ⟨stored, page⟩
    rw [hresult] at hinsert
    split at hinsert
    · rename_i htakes
      obtain ⟨rfl, hpage⟩ := hinsert
      obtain ⟨t, u, hlog, hunpin, hu⟩ := change_leaves h hlt' hpage
      rw [if_pos htakes]
      simp only [hresult]
      rw [Prog.bind_ok hlog]
      simp only [Bool.not_true, Bool.false_eq_true, if_false]
      rw [Prog.bind_ok hunpin]
      exact ⟨u, rfl, hu⟩
    · rename_i htakes
      obtain ⟨rfl, hpage⟩ := hinsert
      have hset : setPage (f.key k) page (s.fetched (f.key k)) =
          (.ok (), (s.fetched (f.key k)).paged (f.key k) page) := rfl
      have hrest := ih (h.looked hlt' hpage) (show k + 1 + count = pages.length by omega)
      have hshift : ∀ {β : Type} (g : Nat → β),
          (((pages.drop (k + 1)).findIdx? (Page.capacity.takes · record)).map (· + 1)).map
              (fun j => g (k + j)) =
            ((pages.drop (k + 1)).findIdx? (Page.capacity.takes · record)).map
              fun j => g (k + 1 + j) := by
        intro β g
        rw [Option.map_map]
        refine congrArg (Option.map · _) (funext fun j => ?_)
        rw [Function.comp_apply, Nat.add_comm j 1, ← Nat.add_assoc]
      rw [if_neg htakes]
      simp only [hresult]
      rw [Prog.bind_ok hset, Prog.bind_ok (unpinPage_fetched h.toReady page false),
        hshift fun j => RecordId.ofPlace (insertAt pages j record).1,
        hshift fun j => (insertAt pages j record).2]
      exact hrest

/-- What `insert_record` answers. -/
def insertedAt (result : Option (Place × List (Slots Bytes))) : Except Stop RecordId :=
  match result with
  | some stored => .ok (RecordId.ofPlace stored.1)
  | none => .error .exception

theorem insertRecord_leaves (h : s.Represents f pages) (record : Bytes) :
    f.Leaves (f.insertRecord record) s (insertedAt (insert Page.capacity pages record))
      (pagesAfter pages (insert Page.capacity pages record)) := by
  have hscan := insertScan_leaves record h (show 0 + s.pageCount = pages.length by
    rw [h.length, Nat.zero_add])
  rw [List.drop_zero] at hscan
  obtain ⟨t, hrun, ht⟩ := hscan
  rw [Leaves, insertRecord, Prog.bind_ok (Prog.get_apply s), Prog.bind_ok hrun,
    SlottedStore.insert]
  cases hfind : pages.findIdx? (Page.capacity.takes · record) with
  | some j =>
    rw [hfind, Option.map_some, Option.getD_some, Nat.zero_add] at ht
    refine ⟨t, ?_, ht⟩
    rw [Option.map_some, Nat.zero_add]
    rfl
  | none =>
    -- a page more, if a blank one takes the record
    rw [hfind, Option.map_none, Option.getD_none] at ht
    have hblank := Page.stores_blank.insert record
    rcases hresult : Page.blank.insert record with ⟨stored, page⟩
    rw [hresult] at hblank
    split at hblank
    · rename_i htakes
      obtain ⟨rfl, hpage⟩ := hblank
      obtain ⟨u, happend, hu⟩ := appendPage_leaves ht hpage
      refine ⟨u, ?_, ?_⟩
      · simp only [Option.map_none, hresult, if_pos htakes]
        rw [Prog.bind_ok (Prog.get_apply t), Prog.bind_ok happend, ← ht.length]
        rfl
      · rw [pagesAfter, if_pos htakes]
        exact hu
    · rename_i htakes
      obtain ⟨rfl, -⟩ := hblank
      refine ⟨t, ?_, ?_⟩
      · simp only [Option.map_none, hresult, if_neg htakes]
        rfl
      · rw [pagesAfter, if_neg htakes]
        exact ht

/-! ## Deleting and replacing -/

theorem lookup_behind {p : Place} (hk : pages.length ≤ p.1) : lookup pages p = none := by
  by_contra hlive
  exact absurd (lt_of_lookup hlive).1 (Nat.not_lt.mpr hk)

theorem deleteRecord_leaves (h : s.Represents f pages) (recordId : RecordId) :
    f.Leaves (f.deleteRecord recordId) s (.ok (remove pages recordId.place).isSome)
      ((remove pages recordId.place).getD pages) := by
  rw [Leaves, deleteRecord, Prog.bind_ok (Prog.get_apply s), SlottedStore.remove]
  by_cases hk : recordId.pageId ≥ s.pageCount
  · have hnone : lookup pages recordId.place = none := lookup_behind (h.length ▸ hk)
    rw [if_pos hk, hnone]
    exact ⟨s, rfl, h⟩
  have hlt : recordId.pageId < s.pageCount := Nat.not_le.mp hk
  have hremove := (h.content hlt).remove recordId.slotId
  rw [if_neg hk, Prog.bind_ok (fetchPage_eq h.toReady hlt)]
  rcases hresult : (s.content (f.key recordId.pageId)).remove recordId.slotId with ⟨done, page⟩
  rw [hresult] at hremove
  split at hremove
  · rename_i hlive
    obtain ⟨rfl, hpage⟩ := hremove
    obtain ⟨t, u, hlog, hunpin, hu⟩ := change_leaves h hlt hpage
    have hsome : (lookup pages recordId.place).isNone = false :=
      Option.isNone_eq_false_iff.mpr (Option.isSome_iff_ne_none.mpr hlive)
    simp only [hresult, hsome, Bool.false_eq_true, if_false]
    rw [Prog.bind_ok hlog]
    simp only [Bool.not_true, Bool.false_eq_true, if_false]
    exact ⟨u, hunpin, hu⟩
  · rename_i hdead
    cases hremove
    have hnone : lookup pages recordId.place = none := not_not.mp hdead
    simp only [hresult, hnone]
    rw [Prog.bind_ok (unpinPage_visit h.toReady _)]
    exact ⟨_, rfl, h.looked hlt (h.content hlt)⟩

/-- A record that has become too long is inserted anew, and then deleted in its old place. -/
theorem updateRecord_leaves (h : s.Represents f pages) (recordId : RecordId) (record : Bytes) :
    f.Leaves (f.updateRecord recordId record) s
      (.ok ((update Page.capacity pages recordId.place record).map fun moved =>
        RecordId.ofPlace moved.1))
      (pagesAfter pages (update Page.capacity pages recordId.place record)) := by
  rw [Leaves, updateRecord, Prog.bind_ok (Prog.get_apply s), SlottedStore.update]
  by_cases hk : recordId.pageId ≥ s.pageCount
  · have hnone : lookup pages recordId.place = none := lookup_behind (h.length ▸ hk)
    rw [if_pos hk, hnone]
    exact ⟨s, rfl, h⟩
  have hlt : recordId.pageId < s.pageCount := Nat.not_le.mp hk
  have hcontent := h.content hlt
  have hlooked := h.looked hlt hcontent
  have hread : (s.content (f.key recordId.pageId)).read recordId.slotId =
      lookup pages recordId.place := hcontent.read recordId.slotId
  rw [if_neg hk, Prog.bind_ok (fetchPage_eq h.toReady hlt)]
  simp only [hread]
  by_cases hlive : (lookup pages recordId.place).isNone = true
  · rw [if_pos hlive, if_pos hlive, Prog.bind_ok (unpinPage_visit h.toReady _)]
    exact ⟨_, rfl, hlooked⟩
  rw [if_neg hlive, if_neg hlive]
  rw [Option.isNone_iff_eq_none] at hlive
  have hslot : (slotsAt pages recordId.pageId)[recordId.slotId]?.join ≠ none := hlive
  have hupdate := hcontent.update hslot record
  rcases hresult : (s.content (f.key recordId.pageId)).update recordId.slotId record with
    ⟨done, page⟩
  rw [hresult] at hupdate
  split at hupdate
  · rename_i hfits
    obtain ⟨rfl, hpage⟩ := hupdate
    obtain ⟨t, u, hlog, hunpin, hu⟩ := change_leaves h hlt hpage
    have hplace : Page.capacity.fits (slotsAt pages recordId.place.1) recordId.place.2 record =
        true := hfits
    rw [if_pos hplace]
    refine ⟨u, ?_, hu⟩
    simp only
    rw [Prog.bind_ok hlog]
    simp only [Bool.not_true, Bool.false_eq_true, if_false]
    rw [Prog.bind_ok hunpin]
    rfl
  · rename_i hfull
    cases hupdate
    have hplace : ¬ Page.capacity.fits (slotsAt pages recordId.place.1) recordId.place.2 record =
        true := hfull
    obtain ⟨t, hinsert, ht⟩ := insertRecord_leaves hlooked record
    rw [if_neg hplace]
    simp only
    rw [Prog.bind_ok (unpinPage_visit h.toReady _)]
    cases hstored : insert Page.capacity pages record with
    | none =>
      rw [hstored] at hinsert ht
      have hrescue : Prog.rescue (do
            let newRecordId ← f.insertRecord record
            pure (some newRecordId)) (· == .exception) (pure none)
          (s.visited (f.key recordId.pageId) (s.content (f.key recordId.pageId)) false) =
          (.ok none, t) := by
        rw [Prog.rescue, Prog.bind_error hinsert]
        rfl
      rw [Prog.bind_ok hrescue]
      exact ⟨t, rfl, ht⟩
    | some stored =>
      rw [hstored] at hinsert ht
      have hrescue : Prog.rescue (do
            let newRecordId ← f.insertRecord record
            pure (some newRecordId)) (· == .exception) (pure none)
          (s.visited (f.key recordId.pageId) (s.content (f.key recordId.pageId)) false) =
          (.ok (some (RecordId.ofPlace stored.1)), t) := by
        rw [Prog.rescue, Prog.bind_ok hinsert]
        rfl
      -- the old record is still there
      obtain ⟨hfree, hlookup⟩ := lookup_insert (show insert Page.capacity pages record =
        some (stored.1, stored.2) from hstored)
      have hne : recordId.place ≠ stored.1 := by
        intro heq
        rw [← heq] at hfree
        exact hlive hfree
      have hold : lookup stored.2 recordId.place ≠ none := by
        rw [hlookup, Function.update_of_ne hne]
        exact hlive
      have hremove : remove stored.2 recordId.place = some (put stored.2 recordId.place none) := by
        rw [SlottedStore.remove, if_neg]
        rw [Option.isNone_iff_eq_none]
        exact hold
      have hmoved : t.Represents f stored.2 := ht
      obtain ⟨u, hdelete, hu⟩ := deleteRecord_leaves hmoved recordId
      rw [hremove] at hdelete hu
      rw [Prog.bind_ok hrescue]
      simp only
      rw [Prog.bind_ok hdelete]
      exact ⟨u, rfl, hu⟩

/-! ## Reading -/

theorem readPage_leaves (h : s.Represents f pages) (hk : k < s.pageCount) :
    ∃ page t, f.readPage k s = (.ok (some page), t) ∧ page.Stores (slotsAt pages k) ∧
      t.Represents f pages ∧ t.pageCount = s.pageCount :=
  ⟨_, _, readPage_eq h.toReady hk, h.content hk, h.looked hk (h.content hk), pageCount_visited _ _ _ _⟩

theorem readRecord_leaves (h : s.Represents f pages) (recordId : RecordId) :
    f.Leaves (f.readRecord recordId) s (.ok (lookup pages recordId.place)) pages := by
  rw [Leaves, readRecord]
  by_cases hk : recordId.pageId < s.pageCount
  · obtain ⟨page, t, hread, hpage, ht, -⟩ := readPage_leaves h hk
    rw [Prog.bind_ok hread]
    refine ⟨t, ?_, ht⟩
    exact congrArg (fun r => (Except.ok r, t)) (hpage.read recordId.slotId)
  · have hnone : lookup pages recordId.place = none := lookup_behind (h.length ▸ Nat.not_lt.mp hk)
    rw [Prog.bind_ok (readPage_behind (Nat.not_lt.mp hk)), hnone]
    exact ⟨s, rfl, h⟩

/-- The callback of `scan_records` that keeps every record. -/
def collect (records : List (RecordId × Bytes)) (recordId : RecordId) (record : Bytes) :
    List (RecordId × Bytes) × Bool :=
  (records ++ [(recordId, record)], true)

def listed (entries : List (Place × Bytes)) : List (RecordId × Bytes) :=
  entries.map fun e => (RecordId.ofPlace e.1, e.2)

theorem scanSlots_collect (h : page.Stores slots) (k : Nat) {count i : Nat}
    (hi : i + count = slots.length) (records : List (RecordId × Bytes)) :
    scanSlots page k collect count i records =
      (records ++ listed (entriesOf k i (slots.drop i)), true) := by
  induction count generalizing i records with
  | zero =>
    have hnil : slots.drop i = [] := List.drop_eq_nil_of_le (by omega)
    rw [hnil, entriesOf, listed, List.map_nil, List.append_nil]
    rfl
  | succ count ih =>
    have hlt : i < slots.length := by omega
    have hread : page.read i = slots[i] := by
      rw [h.read, List.getElem?_eq_getElem hlt]
      rfl
    rw [scanSlots, hread, List.drop_eq_getElem_cons hlt]
    cases slots[i] with
    | none => exact ih (by omega) records
    | some record =>
      refine (ih (i := i + 1) (by omega) _).trans ?_
      rw [entriesOf, listed, listed, List.map_cons, List.append_assoc]
      rfl

theorem scanPages_collect {count : Nat} (h : s.Represents f pages) (hk : k + count = pages.length)
    (records : List (RecordId × Bytes)) :
    f.Leaves (f.scanPages collect count k records) s
      (.ok (records ++ listed (entriesFrom k (pages.drop k)), true)) pages := by
  induction count generalizing k s records with
  | zero =>
    have hnil : pages.drop k = [] := List.drop_eq_nil_of_le (by omega)
    rw [hnil, entriesFrom, listed, List.map_nil, List.append_nil]
    exact ⟨s, rfl, h⟩
  | succ count ih =>
    have hlt : k < pages.length := by omega
    obtain ⟨page, t, hread, hpage, ht, -⟩ := readPage_leaves h (show k < s.pageCount from h.length ▸ hlt)
    have hcount : page.slotCount = (slotsAt pages k).length := by
      rw [← hpage.slots, Page.length_slots]
    have hslots := scanSlots_collect hpage k (show 0 + page.slotCount = _ by omega) records
    rw [List.drop_zero] at hslots
    obtain ⟨u, hrest, hu⟩ := ih ht (show k + 1 + count = pages.length by omega)
      (records ++ listed (entriesOf k 0 (slotsAt pages k)))
    refine ⟨u, ?_, hu⟩
    rw [scanPages, Prog.bind_ok hread]
    simp only [hslots]
    rw [hrest, drop_eq_cons hlt, entriesFrom]
    simp only [listed, List.map_append, List.append_assoc]

theorem scanRecords_leaves (h : s.Represents f pages) :
    f.Leaves f.scanRecords s (.ok (listed (entries pages))) pages := by
  obtain ⟨t, hrun, ht⟩ := scanPages_collect h (show 0 + s.pageCount = pages.length by
    rw [h.length, Nat.zero_add]) []
  rw [List.nil_append, List.drop_zero] at hrun
  have hwith : f.scanRecordsWith collect [] s = (.ok (listed (entries pages), true), t) := by
    rw [scanRecordsWith, Prog.bind_ok (Prog.get_apply s)]
    exact hrun
  refine ⟨t, ?_, ht⟩
  exact Prog.bind_ok hwith

/-! ## Flushing and reopening -/

theorem steps_represents (hsteps : Steps f (fun _ _ => False) s t) (h : s.Represents f pages) :
    t.Represents f pages := by
  refine (hsteps.invariant (P := fun s => s.Represents f pages) ?_ h.toReady h).2
  intro s t hstep _ h
  cases hstep with
  | visit hk hpage =>
    refine h.looked hk ?_
    have hcontent := h.content hk
    rcases hpage with rfl | ⟨record, hinsert⟩
    · exact hcontent
    · have hkept := hcontent.insert record
      rw [hinsert] at hkept
      split at hkept
      · cases hkept.1
      · exact hkept.2
  | update _ _ hchange => exact hchange.elim
  | append _ hchange => exact hchange.elim
  | clean hfind _ => exact h.cleaned hfind

theorem flush_leaves (order : HashOrder) (h : s.Represents f pages) :
    ∃ t, f.flush order s = (.ok true, t) ∧ t.Represents f pages ∧
      ∀ key frame, t.cache.find key = some frame → frame.isDirty = false := by
  obtain ⟨t, heq, hsteps, hclean⟩ := flush_steps order h.toReady
  exact ⟨t, heq, steps_represents hsteps h, hclean⟩

theorem opened_represents {w : World} (hparent : w.disk.fs.parentExists (pathOf f.path) = true)
    (hlength : pages.length = w.disk.fs.pageCount (pathOf f.path))
    (hstored : ∀ k < pages.length, (w.disk.fs.pageAt (pathOf f.path) k).Stores (slotsAt pages k)) :
    (f.opened w).Represents f pages := by
  have hready : (f.opened w).Ready f :=
    ⟨⟨sound_empty (by decide), fun _ h => absurd h List.not_mem_nil,
      fun _ h => absurd h List.not_mem_nil, hparent⟩, fun _ h => absurd h List.not_mem_nil, rfl⟩
  refine ⟨hready, hlength, fun k frame hfind => ?_, fun k hk _ => hstored k ?_⟩
  · cases hfind
  · rw [hlength]
    exact hk

/-- The constructor. -/
def start (f : TableFile) (w : World) : OpenFile :=
  f.opened (perform (.openCreate (pathOf f.path)) w).2

theorem start_represents {w : World} (hparent : w.disk.fs.parentExists (pathOf f.path) = true)
    (hlength : pages.length = w.disk.fs.pageCount (pathOf f.path))
    (hstored : ∀ k < pages.length, (w.disk.fs.pageAt (pathOf f.path) k).Stores (slotsAt pages k)) :
    (f.start w).Represents f pages := by
  have hpossible : (Effect.openCreate (pathOf f.path)).possible w.disk.fs = true := hparent
  have hpages : ((Effect.openCreate (pathOf f.path)).applyFs w.disk.fs).pages (pathOf f.path) =
      some ((w.disk.fs.pages (pathOf f.path)).getD []) := if_pos rfl
  rw [start, perform_ok hpossible]
  refine opened_represents hparent (hlength.trans ?_) fun k hk => ?_
  · show _ = ((((Effect.openCreate (pathOf f.path)).applyFs w.disk.fs).pages
      (pathOf f.path)).getD []).length
    rw [hpages]
    rfl
  · have hsame : ((w.advance [.openCreate (pathOf f.path)] w.manager.lastLsn).disk.fs.pageAt
        (pathOf f.path) k) = w.disk.fs.pageAt (pathOf f.path) k := by
      show ((((Effect.openCreate (pathOf f.path)).applyFs w.disk.fs).pages
        (pathOf f.path)).getD []).getD k Page.zero = _
      rw [hpages]
      rfl
    rw [hsame]
    exact hstored k hk

/-- The destructor, and the constructor of `f'`. -/
def reopened (f : TableFile) (order : HashOrder) (f' : TableFile) (s : OpenFile) : OpenFile :=
  let closed := (do let _ ← f.flush order; discardCache : FileIo Unit) s
  f'.start closed.2.world

/-- Every page is in its block when the file is closed. -/
theorem reopened_represents (h : s.Represents f pages) (order : HashOrder) {f' : TableFile}
    (hpath : f'.path = f.path) : (f.reopened order f' s).Represents f' pages := by
  obtain ⟨t, hflush, ht, hclean⟩ := flush_leaves order h
  have hclosed : (do let _ ← f.flush order; discardCache : FileIo Unit) s =
      (.ok (), { t with cache := t.cache.cleared }) := by
    rw [Prog.bind_ok hflush]
    rfl
  rw [reopened, hclosed]
  refine start_represents ?_ ?_ fun k hk => ?_
  · rw [hpath]
    exact ht.parent
  · rw [hpath]
    exact ht.length.trans ht.count.symm
  · rw [hpath]
    refine ht.stored k (ht.length ▸ hk) ?_
    rw [isDirty]
    rcases hfind : t.cache.find (f.key k) with _ | frame
    · rfl
    · exact hclean _ frame hfind

end TableFile

end ScratchDb
