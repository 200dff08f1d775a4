import ScratchDb.Tables.FileSteps

/-!
# The write-ahead rule

When a page image reaches the table file, the log is durable through its
`page_lsn`. Flushes and appends see to it; an eviction writes its frame without
asking, so the rule holds in a run exactly when no eviction takes a dirty
frame whose record is not yet durable.
-/

namespace ScratchDb

open OpenFile PageCache

/-- The log was durable through the `page_lsn` of the page written. -/
def IoEvent.WrittenAhead (e : IoEvent) : Prop :=
  ∀ file k page, e.effect = .writePage file k page → page.pageLsn ≤ e.durableLsn

/-- Where a page that is not cached finds the cache full, the frame that has
to go is clean, or its record durable. -/
def PageAccess.Safe (a : PageAccess) : Prop :=
  a.cache.find a.key = none → ¬a.cache.pages.length < a.cache.capacity →
    ∀ frame, a.cache.victim = some frame → frame.isDirty = true →
      frame.page.pageLsn ≤ a.durableLsn

namespace OpenFile

variable {f : TableFile} {s t : OpenFile} {key : CachedPageKey} {change : Page → Page → Prop}

/-! ## Dirty frames are logged -/

/-- The record of every dirty frame has been appended. -/
def DirtyLogged (s : OpenFile) : Prop :=
  ∀ key frame, s.cache.find key = some frame → frame.isDirty = true →
    frame.page.pageLsn ≤ s.world.manager.lastLsn

theorem DirtyLogged.madeRoom (h : s.DirtyLogged) (hs : s.Ready f) (key : CachedPageKey) :
    (s.madeRoom key).DirtyLogged := by
  intro key' frame hfind hd
  rw [TableFile.manager_madeRoom]
  rcases hkey : s.cache.find key with _ | g <;> rw [OpenFile.madeRoom, hkey] at hfind
  · rcases find_roomed (hs.noted key).missed.toTidy key' with hsame | ⟨hnone, -⟩
    · exact h key' frame (hsame ▸ hfind) hd
    · rw [hnone] at hfind
      cases hfind
  · exact h key' frame hfind hd

theorem DirtyLogged.visited (h : s.DirtyLogged) (hs : s.Ready f) {page : Page} {dirty : Bool}
    (hpage : (s.isDirty key || dirty) = true → page.pageLsn ≤ s.world.manager.lastLsn) :
    (s.visited key page dirty).DirtyLogged := by
  intro key' frame hfind hd
  rw [find_visited hs] at hfind
  rw [world_visited]
  split at hfind
  · obtain rfl := Option.some.inj hfind
    rw [TableFile.manager_madeRoom]
    exact hpage hd
  · exact h.madeRoom hs key key' frame hfind hd

theorem DirtyLogged.mono (h : s.DirtyLogged)
    (hlsn : s.world.manager.lastLsn ≤ t.world.manager.lastLsn)
    (hfind : ∀ key frame, t.cache.find key = some frame → frame.isDirty = true →
      s.cache.find key = some frame ∨ frame.page.pageLsn ≤ t.world.manager.lastLsn) :
    t.DirtyLogged := by
  intro key frame hframe hd
  rcases hfind key frame hframe hd with hold | hle
  · exact (h key frame hold hd).trans hlsn
  · exact hle

theorem pageLsn_stamped (page : Page) (lsn : Nat) : (page.setPageLsn lsn).pageLsn ≤ lsn := by
  rw [Page.pageLsn_setPageLsn]
  exact Nat.mod_le _ _

theorem DirtyLogged.updated (h : s.DirtyLogged) (hs : s.Ready f) (k : Nat) (after : Page) :
    (s.updated f k after).DirtyLogged := by
  have hroom := h.madeRoom hs (f.key k)
  have hlast : (s.updated f k after).world.manager.lastLsn = s.nextLsn := by
    have hworld := world_visited s (f.key k) (after.setPageLsn s.nextLsn) true
    rw [OpenFile.updated, logged, World.advance_lastLsn, nextLsn, hworld,
      TableFile.manager_madeRoom, nextLsn]
  intro key frame hfind hd
  have hfind : (s.visited (f.key k) (after.setPageLsn s.nextLsn) true).cache.find key =
      some frame := hfind
  rw [hlast]
  rw [find_visited hs] at hfind
  split at hfind
  · obtain rfl := Option.some.inj hfind
    exact pageLsn_stamped _ _
  · have hle := hroom key frame hfind hd
    rw [TableFile.manager_madeRoom] at hle
    exact hle.trans (Nat.le_succ _)

theorem DirtyLogged.appendedPage (h : s.DirtyLogged) (hs : s.Ready f) (page : Page) :
    (s.appendedPage f page).DirtyLogged := by
  have hlast : (s.grown f page).world.manager.lastLsn = s.nextLsn := by
    simp [OpenFile.grown, written, logged, World.advance]
  have hready := (hs.grown page).noted (f.key s.pageCount)
  have hgrown : ((s.grown f page).noted (f.key s.pageCount)).DirtyLogged := by
    refine h.mono ?_ fun key frame hfind _ => Or.inl ?_
    · rw [OpenFile.noted, hlast]
      exact Nat.le_succ _
    · rwa [OpenFile.noted, cache_grown] at hfind
  intro key frame hfind hd
  have hmanager : (s.appendedPage f page).world.manager = (s.grown f page).world.manager := by
    refine Eq.trans ?_ (TableFile.lastLsn_roomed ((s.grown f page).noted (f.key s.pageCount)))
    rfl
  rw [hmanager]
  rw [OpenFile.appendedPage, find_placed] at hfind
  split at hfind
  · obtain rfl := Option.some.inj hfind
    rw [hlast]
    exact pageLsn_stamped _ _
  · rcases find_roomed hready.toTidy key with hsame | ⟨hnone, -⟩
    · rw [hsame] at hfind
      exact hgrown key frame hfind hd
    · rw [hnone] at hfind
      cases hfind

theorem manager_cleaned (f : TableFile) (s : OpenFile) (frame : CachedPageFrame) :
    (s.cleaned f frame).world.manager.lastLsn = s.world.manager.lastLsn := by
  unfold cleaned
  split <;> simp [written, World.advance]

theorem Step.dirtyLogged (hstep : Step f change s t) (hs : s.Ready f) (h : s.DirtyLogged) :
    t.DirtyLogged := by
  cases hstep with
  | @visit k page hk hpage =>
      refine h.visited hs fun hd => ?_
      have hcontent : page.pageLsn = (s.content (f.key k)).pageLsn := by
        rcases hpage with rfl | ⟨record, hinsert⟩
        · rfl
        · rcases Page.insert_none hinsert with heq | heq
          · rw [heq]
          · rw [heq, Page.pageLsn_compact]
      rw [hcontent]
      rw [Bool.or_false, isDirty] at hd
      rw [content]
      rcases hfind : s.cache.find (f.key k) with _ | frame
      · rw [hfind] at hd
        cases hd
      · rw [hfind] at hd
        exact h _ frame hfind hd
  | update _ _ _ => exact h.updated hs _ _
  | append _ _ => exact h.appendedPage hs _
  | @clean frame hfind _ =>
      refine h.mono (manager_cleaned f s frame).ge fun key g hg hd => Or.inl ?_
      rw [TableFile.find_cleaned] at hg
      split at hg
      · obtain ⟨g', -, rfl⟩ := Option.map_eq_some_iff.mp hg
        cases hd
      · exact hg

/-! ## Writes and accesses -/

/-- The writes since `s` are ahead exactly when its later accesses are safe. -/
def Accounted (s t : OpenFile) : Prop :=
  ∃ events accesses, t.world.trace = s.world.trace ++ events ∧
    t.accesses = s.accesses ++ accesses ∧
    ((∀ e ∈ events, e.WrittenAhead) ↔ ∀ a ∈ accesses, a.Safe)

theorem Accounted.refl (s : OpenFile) : s.Accounted s := ⟨[], [], by simp, by simp, by simp⟩

theorem Accounted.trans {u : OpenFile} (h : s.Accounted t) (h' : t.Accounted u) :
    s.Accounted u := by
  obtain ⟨events, accesses, htrace, haccesses, hiff⟩ := h
  obtain ⟨events', accesses', htrace', haccesses', hiff'⟩ := h'
  refine ⟨events ++ events', accesses ++ accesses', ?_, ?_, ?_⟩
  · rw [htrace', htrace, List.append_assoc]
  · rw [haccesses', haccesses, List.append_assoc]
  · simp only [List.forall_mem_append, hiff, hiff']

/-- A write of which the log is durable accounts for itself. -/
theorem Accounted.of_written {events : List IoEvent} (haccesses : t.accesses = s.accesses)
    (htrace : t.world.trace = s.world.trace ++ events) (h : ∀ e ∈ events, e.WrittenAhead) :
    s.Accounted t :=
  ⟨events, [], htrace, by simp [haccesses], by simpa using h⟩

theorem writtenAhead_append (r : WalRecord) (lsn : Nat) :
    IoEvent.WrittenAhead ⟨.append r, lsn⟩ := by
  intro file k page heq
  cases heq

theorem writtenAhead_write {file : Path} {k lsn : Nat} {page : Page} :
    IoEvent.WrittenAhead ⟨.writePage file k page, lsn⟩ ↔ page.pageLsn ≤ lsn := by
  refine ⟨fun h => h file k page rfl, fun h file' k' page' heq => ?_⟩
  cases heq
  exact h

theorem trace_written (s : OpenFile) (key : CachedPageKey) (page : Page) :
    (s.written key page).world.trace = s.world.trace ++
      [⟨.writePage key.tableFile key.pageId page, s.world.manager.durableLsn⟩] := rfl

theorem trace_logged (s : OpenFile) (f : TableFile) (k : Nat) (before after : Page) :
    (s.logged f k before after).world.trace = s.world.trace ++
      [⟨.append (pageRecord f s.nextLsn k before after), s.world.manager.durableLsn⟩] := rfl

/-- Making room writes the victim, and that is safe or not. -/
theorem roomed_accounts (h : s.Ready f) (hnone : s.cache.find key = none) :
    ∃ events, s.roomed.world.trace = s.world.trace ++ events ∧
      ((∀ e ∈ events, e.WrittenAhead) ↔
        PageAccess.Safe ⟨s.cache, key, s.world.manager.durableLsn⟩) := by
  rcases roomed_cases h.toTidy with ⟨hroom, heq⟩ | ⟨v, hv, hroom, heq⟩
  · refine ⟨[], by rw [heq, List.append_nil], ?_⟩
    simp only [List.not_mem_nil, false_implies, implies_true, true_iff]
    exact fun _ hfull => absurd hroom hfull
  · by_cases hd : v.isDirty = true
    · refine ⟨[⟨.writePage v.key.tableFile v.key.pageId v.page, s.world.manager.durableLsn⟩], ?_, ?_⟩
      · rw [heq, evicted, if_pos hd]
        rfl
      · simp only [List.forall_mem_singleton, writtenAhead_write]
        constructor
        · intro hle _ _ frame hframe _
          obtain rfl := Option.some.inj (hv.symm.trans hframe)
          exact hle
        · exact fun hsafe => hsafe hnone hroom v hv hd
    · refine ⟨[], by rw [heq, evicted, if_neg hd, List.append_nil], ?_⟩
      simp only [List.not_mem_nil, false_implies, implies_true, true_iff]
      intro _ _ frame hframe hdirty
      obtain rfl := Option.some.inj (hv.symm.trans hframe)
      exact absurd hdirty hd

theorem visited_accounted (h : s.Ready f) (key : CachedPageKey) (page : Page) (dirty : Bool) :
    s.Accounted (s.visited key page dirty) := by
  obtain ⟨events, htrace, hiff⟩ : ∃ events,
      (s.madeRoom key).world.trace = s.world.trace ++ events ∧
        ((∀ e ∈ events, e.WrittenAhead) ↔
          PageAccess.Safe ⟨s.cache, key, s.world.manager.durableLsn⟩) := by
    rcases hkey : s.cache.find key with _ | frame <;> rw [madeRoom, hkey]
    · exact roomed_accounts (h.noted key).missed hkey
    · refine ⟨[], (List.append_nil _).symm, ?_⟩
      simp only [List.not_mem_nil, false_implies, implies_true, true_iff]
      intro hnone
      rw [hkey] at hnone
      cases hnone
  refine ⟨events, [⟨s.cache, key, s.world.manager.durableLsn⟩], ?_, accesses_visited _ _ _ _, ?_⟩
  · rw [world_visited, htrace]
  · simpa using hiff

theorem appendedPage_accounted (h : s.Ready f) (page : Page) :
    s.Accounted (s.appendedPage f page) := by
  have hgrown : s.Accounted (s.grown f page) := by
    have hlog : s.Accounted (s.logged f s.pageCount Page.blank page) :=
      Accounted.of_written rfl (trace_logged _ _ _ _ _) (by simpa using writtenAhead_append _ _)
    refine hlog.trans ?_
    have hle : (page.setPageLsn s.nextLsn).pageLsn ≤
        ((s.logged f s.pageCount Page.blank page).flushedThrough
          (page.setPageLsn s.nextLsn).pageLsn).world.manager.durableLsn :=
      le_durableLsn_flushedThrough (pageLsn_stamped _ _)
    refine Accounted.of_written (accesses_flushedThrough _ _)
      ((trace_written _ _ _).trans (by rw [trace_flushedThrough])) ?_
    simpa using writtenAhead_write.mpr hle
  refine hgrown.trans ?_
  have hready := (h.grown page).noted (f.key s.pageCount)
  have hnone : ((s.grown f page).noted (f.key s.pageCount)).cache.find (f.key s.pageCount) = none := by
    rw [noted, cache_grown]
    exact h.find_behind (Nat.le_refl _)
  obtain ⟨events, htrace, hiff⟩ := roomed_accounts hready hnone
  refine ⟨events, [⟨(s.grown f page).cache, f.key s.pageCount,
    (s.grown f page).world.manager.durableLsn⟩], htrace, accesses_roomed _, ?_⟩
  rw [hiff, List.forall_mem_singleton]
  rfl

theorem Step.accounted (hwal : f.walManager = true) (hstep : Step f change s t) (hs : s.Ready f)
    (h : s.DirtyLogged) : s.Accounted t := by
  cases hstep with
  | visit _ _ => exact visited_accounted hs _ _ _
  | @update k after _ hk _ =>
      refine (visited_accounted hs (f.key k) (after.setPageLsn s.nextLsn) true).trans
        (Accounted.of_written rfl (trace_logged _ _ _ _ _) ?_)
      simpa using writtenAhead_append _ _
  | append _ _ => exact appendedPage_accounted hs _
  | @clean frame hfind hd =>
      have hle := h _ frame hfind hd
      have hclean : ∀ u : OpenFile, u.accesses = s.accesses → u.world.trace = s.world.trace →
          frame.page.pageLsn ≤ u.world.manager.durableLsn →
          s.Accounted { u.written frame.key frame.page with
            cache := (u.written frame.key frame.page).cache.change frame.key .clean } := by
        intro u haccesses htrace hu
        refine Accounted.of_written haccesses (htrace ▸ trace_written u frame.key frame.page) ?_
        simpa using writtenAhead_write.mpr hu
      rw [cleaned]
      rw [if_pos hwal]
      exact hclean _ (accesses_flushedThrough _ _) (trace_flushedThrough _ _)
        (le_durableLsn_flushedThrough hle)

theorem Steps.accounted (hwal : f.walManager = true) (hsteps : Steps f change s t)
    (hs : s.Ready f) (h : s.DirtyLogged) : t.Ready f ∧ t.DirtyLogged ∧ s.Accounted t :=
  hsteps.invariant (P := fun t => t.DirtyLogged ∧ s.Accounted t)
    (fun _ _ hstep ha hP =>
      ⟨hstep.dirtyLogged ha hP.1, hP.2.trans (hstep.accounted hwal ha hP.1)⟩)
    hs ⟨h, Accounted.refl s⟩

end OpenFile

/-! ## Runs -/

/-- The operations of a table file. A scan stops when `stops` says so of what
it has been given. -/
inductive TableOperation where
  | insertRecord (record : Bytes)
  | updateRecord (recordId : RecordId) (record : Bytes)
  | deleteRecord (recordId : RecordId)
  | writePage (pageId : Nat) (page : Page)
  | readRecord (recordId : RecordId)
  | scanRecords (stops : List (RecordId × Bytes) → Bool)
  | flush (order : HashOrder)

namespace TableFile

variable {f : TableFile} {s : OpenFile} {n : Nat}

/-- What an operation leaves, whether it returns or throws. -/
def run (f : TableFile) (op : TableOperation) (s : OpenFile) : OpenFile :=
  match op with
  | .insertRecord record => (f.insertRecord record s).2
  | .updateRecord recordId record => (f.updateRecord recordId record s).2
  | .deleteRecord recordId => (f.deleteRecord recordId s).2
  | .writePage pageId page => (f.writePage pageId page s).2
  | .readRecord recordId => (f.readRecord recordId s).2
  | .scanRecords stops => (f.scanRecordsWith (fun seen recordId record =>
      (seen ++ [(recordId, record)], !stops (seen ++ [(recordId, record)]))) [] s).2
  | .flush order => (f.flush order s).2

def runAll (f : TableFile) (ops : List TableOperation) (s : OpenFile) : OpenFile :=
  ops.foldl (fun s op => f.run op s) s

theorem runAll_concat (f : TableFile) (ops : List TableOperation) (op : TableOperation)
    (s : OpenFile) : f.runAll (ops ++ [op]) s = f.run op (f.runAll ops s) := by
  simp [runAll, List.foldl_append]

theorem runAll_cons (f : TableFile) (op : TableOperation) (ops : List TableOperation)
    (s : OpenFile) : f.runAll (op :: ops) s = f.runAll ops (f.run op s) := rfl

theorem run_steps (hwal : f.walManager = true) (op : TableOperation) (h : s.Ready f) :
    Steps f (fun _ _ => True) s (f.run op s) := by
  cases op with
  | insertRecord record => exact (insertRecord_steps hwal record h).mono fun _ _ _ => trivial
  | updateRecord recordId record =>
      exact (updateRecord_steps hwal recordId record h).mono fun _ _ _ => trivial
  | deleteRecord recordId => exact (deleteRecord_steps hwal recordId h).mono fun _ _ _ => trivial
  | writePage pageId page => exact writePage_steps hwal pageId page h
  | readRecord recordId => exact readRecord_steps recordId h
  | scanRecords stops => exact scanRecordsWith_steps _ _ h
  | flush order =>
      obtain ⟨t, heq, hsteps, -⟩ := flush_steps order h
      rw [run, heq]
      exact hsteps

theorem runAll_steps (hwal : f.walManager = true) (ops : List TableOperation) (h : s.Ready f) :
    Steps f (fun _ _ => True) s (f.runAll ops s) := by
  induction ops generalizing s with
  | nil => exact .refl
  | cons op ops ih =>
      have hop := run_steps hwal op h
      exact hop.trans (ih (hop.ready h))

theorem ready_opened {w : World} (hparent : w.disk.fs.parentExists (pathOf f.path) = true) :
    (f.opened w).Ready f :=
  ⟨⟨sound_empty (by decide), by simp [opened, PageCache.empty], by simp [opened, PageCache.empty],
    hparent⟩, by simp [opened, PageCache.empty], rfl⟩

/-! ## A table larger than its cache -/

/-- A table file of 65 blank pages, in the current directory, and its log empty. -/
def sixtyFivePages : World where
  disk := ⟨⟨fun _ => false, fun _ => none, fun p =>
    if p = [[116]] then some (List.replicate 65 Page.blank) else none⟩, []⟩
  manager := ⟨0, 0⟩
  trace := []

def smallTable : TableFile := ⟨[116], true, 1⟩

/-- Page 0 is dirty and the oldest of the cached pages `0, …, n`. -/
structure OldestDirty (f : TableFile) (n : Nat) (s : OpenFile) : Prop where
  ready : s.Ready f
  lru : s.cache.lru = ((List.range (n + 1)).map f.key).reverse
  dirty : ∃ frame, s.cache.find (f.key 0) = some frame ∧ frame.isDirty = true ∧
    frame.page.pageLsn = 1
  capacity : s.cache.capacity = 64
  durable : s.world.manager.durableLsn = 0
  count : s.pageCount = 65

theorem OldestDirty.length (h : OldestDirty f n s) : s.cache.pages.length = n + 1 := by
  have hperm : s.cache.lru.Perm (s.cache.pages.map (·.key)) :=
    (List.perm_ext_iff_of_nodup h.ready.sound.lruDistinct h.ready.sound.distinct).mpr
      h.ready.sound.listed
  have hlength := hperm.length_eq
  rw [h.lru] at hlength
  simpa using hlength.symm

theorem OldestDirty.find_next (h : OldestDirty f n s) : s.cache.find (f.key (n + 1)) = none := by
  by_contra hne
  have hmem := (h.ready.sound.listed _).mpr (PageCache.find_ne_none_iff.mp hne)
  rw [h.lru] at hmem
  simp [TableFile.key] at hmem

theorem OldestDirty.read (h : OldestDirty f n s) (hn : n < 63) :
    OldestDirty f (n + 1) (s.visited (f.key (n + 1)) (s.content (f.key (n + 1))) false) := by
  have hnone := h.find_next
  have hcount := h.count
  have hroom : (s.noted (f.key (n + 1))).missed.roomed = (s.noted (f.key (n + 1))).missed := by
    rw [roomed, if_pos]
    have hlength := h.length
    have hcapacity := h.capacity
    show s.cache.pages.length < s.cache.capacity
    omega
  have hmade : s.madeRoom (f.key (n + 1)) = (s.noted (f.key (n + 1))).missed := by
    rw [madeRoom, hnone, hroom]
  obtain ⟨frame, hframe, hd, hlsn⟩ := h.dirty
  refine ⟨h.ready.visited (by omega) _ _, ?_, ⟨frame, ?_, hd, hlsn⟩, ?_, ?_, ?_⟩
  · have hlru : (s.visited (f.key (n + 1)) (s.content (f.key (n + 1))) false).cache.lru =
        f.key (n + 1) :: s.cache.lru := by
      simp only [visited, fetched, hnone, hmade]
      rfl
    rw [hlru, h.lru, List.range_succ (n := n + 1)]
    simp
  · rw [find_visited h.ready, if_neg (by simp [TableFile.key]), hmade]
    exact hframe
  · have hcap : (s.visited (f.key (n + 1)) (s.content (f.key (n + 1))) false).cache.capacity =
        s.cache.capacity := by
      simp only [visited, fetched, hnone, hmade]
      rfl
    rw [hcap, h.capacity]
  · rw [world_visited, manager_madeRoom, h.durable]
  · rw [pageCount_visited, h.count]

theorem run_readRecord (h : s.Ready f) {k slotId : Nat} (hk : k < s.pageCount) :
    f.run (.readRecord ⟨k, slotId⟩) s = s.visited (f.key k) (s.content (f.key k)) false := by
  rw [run, readRecord, Prog.bind_ok (readPage_eq h hk)]
  rfl

theorem OldestDirty.reads (h : OldestDirty f 0 s) (n : Nat) (hn : n ≤ 63) :
    OldestDirty f n (f.runAll ((List.range n).map fun k => .readRecord ⟨k + 1, 0⟩) s) := by
  induction n with
  | zero => exact h
  | succ n ih =>
      have ih := ih (by omega)
      have hcount := ih.count
      rw [List.range_succ, List.map_append, List.map_singleton, runAll_concat,
        run_readRecord ih.ready (by omega)]
      exact ih.read (by omega)

/-- The read of a 65th page is not safe. -/
theorem OldestDirty.unsafe_read (h : OldestDirty f 63 s) :
    ∃ a ∈ (f.run (.readRecord ⟨64, 0⟩) s).accesses, ¬a.Safe := by
  have hcount := h.count
  rw [run_readRecord h.ready (by omega), accesses_visited]
  refine ⟨_, List.mem_append_right _ (List.mem_singleton_self _), fun hsafe => ?_⟩
  obtain ⟨frame, hframe, hd, hlsn⟩ := h.dirty
  have hpin : frame.pinCount = 0 := h.ready.unpinned frame (PageCache.mem_of_find hframe).1
  have hvictim : s.cache.victim = some frame := by
    rw [PageCache.victim, h.lru, List.reverse_reverse, List.range_succ_eq_map, List.map_cons,
      List.filterMap_cons, hframe]
    exact List.find?_cons_of_pos (by simpa using hpin)
  have hfull : ¬s.cache.pages.length < s.cache.capacity := by
    rw [h.length, h.capacity]
    omega
  have hle : frame.page.pageLsn ≤ s.world.manager.durableLsn :=
    hsafe h.find_next hfull frame hvictim hd
  rw [hlsn, h.durable] at hle
  omega

theorem oldestDirty_write (hwal : f.walManager = true) (h : s.Ready f) (hempty : s.cache.pages = [])
    (hcapacity : s.cache.capacity = 64) (hmanager : s.world.manager = ⟨0, 0⟩)
    (hcount : s.pageCount = 65) : OldestDirty f 0 (f.run (.writePage 0 Page.blank) s) := by
  have hk : 0 < s.pageCount := by omega
  have hrun : f.run (.writePage 0 Page.blank) s = s.updated f 0 Page.blank := by
    rw [run, writePage_eq hwal Page.blank h hk]
  have hlru : s.cache.lru = [] := by
    refine List.eq_nil_iff_forall_not_mem.mpr fun key hkey => ?_
    have hmem := (h.sound.listed key).mp hkey
    rw [hempty] at hmem
    cases hmem
  have hnone : s.cache.find (f.key 0) = none := by
    rw [PageCache.find, hempty]
    rfl
  have hroom : (s.noted (f.key 0)).missed.roomed = (s.noted (f.key 0)).missed := by
    rw [roomed, if_pos]
    show s.cache.pages.length < s.cache.capacity
    rw [hempty, hcapacity]
    decide
  have hmade : s.madeRoom (f.key 0) = (s.noted (f.key 0)).missed := by
    rw [madeRoom, hnone, hroom]
  have hnext : s.nextLsn = 1 := by rw [nextLsn, hmanager]
  rw [hrun]
  refine ⟨h.updated hk _, ?_, ⟨⟨f.key 0, Page.blank.setPageLsn s.nextLsn, true, 0⟩, ?_, rfl, ?_⟩,
    ?_, ?_, ?_⟩
  · have hcache : (s.updated f 0 Page.blank).cache.lru = f.key 0 :: s.cache.lru := by
      simp only [updated, logged, visited, fetched, hnone, hmade]
      rfl
    rw [hcache, hlru]
    rfl
  · refine (find_visited h _ _ _ _).trans ?_
    rw [if_pos rfl, Bool.or_true]
  · rw [Page.pageLsn_setPageLsn, hnext]
    decide
  · have hcache : (s.updated f 0 Page.blank).cache.capacity = s.cache.capacity := by
      simp only [updated, logged, visited, fetched, hnone, hmade]
      rfl
    rw [hcache, hcapacity]
  · have hdurable : (s.updated f 0 Page.blank).world.manager.durableLsn =
        (s.visited (f.key 0) (Page.blank.setPageLsn s.nextLsn) true).world.manager.durableLsn := rfl
    rw [hdurable, world_visited, manager_madeRoom, hmanager]
  · exact (pageCount_visited s (f.key 0) (Page.blank.setPageLsn s.nextLsn) true).trans hcount

/-- Page 0 is written, then the other 64 pages are read; the last read evicts it. -/
def writeAndRead : List TableOperation :=
  .writePage 0 Page.blank :: (List.range 63).map (fun k => .readRecord ⟨k + 1, 0⟩) ++
    [.readRecord ⟨64, 0⟩]

theorem pageCount_sixtyFivePages : (smallTable.opened sixtyFivePages).pageCount = 65 := by
  have hpath : pathOf smallTable.path = [[116]] := by decide
  rw [opened, hpath, FileSystem.pageCount, sixtyFivePages]
  simp

end TableFile

end ScratchDb
