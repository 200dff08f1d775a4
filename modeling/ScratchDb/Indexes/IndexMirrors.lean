import ScratchDb.Indexes.IndexPages
import ScratchDb.Indexes.SharedIndex

/-!
# The index file mirrors the table

While no statement is in progress and no rebuild is past its `reset`, the file
has exactly the entries of the rows, in every run in which no stale copy is
written back and statements and rebuilds keep out of each other's way.
-/

namespace ScratchDb

/-! ## Entries in memory -/

/-- What the entries of an index are, in memory and in the file. -/
structure IndexList (unique : Bool) (entries : List IndexEntry) : Prop where
  sorted : Sorted entries
  fits : ∀ e ∈ entries, IndexFile.entryFitsEmptyLeaf e = true
  keys : unique = true → ∀ a ∈ entries, ∀ b ∈ entries, a.key = b.key → a = b

theorem indexList_nil (unique : Bool) : IndexList unique [] :=
  ⟨.nil, by simp, by simp⟩

theorem lowestEntry_le (e : IndexEntry) : IndexFile.lowestEntry e.key ≤ e := by
  rw [← not_lt, IndexEntry.lt_iff]
  rintro (h | ⟨-, h | ⟨-, h⟩⟩)
  · exact lt_irrefl _ h
  · exact Nat.not_lt_zero _ h
  · exact Nat.not_lt_zero _ h

/-- `insert` meets the key it is to insert exactly when an entry has it. -/
theorem any_key_iff {entries : List IndexEntry} (hsorted : Sorted entries) (key : Bytes) :
    ((lowerBound entries (IndexFile.lowestEntry key)).head?.any fun e => e.key = key) = true ↔
      ∃ e ∈ entries, e.key = key := by
  constructor
  · intro h
    obtain ⟨e, he, hkey⟩ := (Option.any_eq_true _ _).mp h
    exact ⟨e, (List.dropWhile_sublist _).subset (List.mem_of_head? he), of_decide_eq_true hkey⟩
  · rintro ⟨e, he, rfl⟩
    have hmem : e ∈ lowerBound entries (IndexFile.lowestEntry e.key) := by
      rw [← beforeBound_append_lowerBound entries (IndexFile.lowestEntry e.key)] at he
      rcases List.mem_append.mp he with he | he
      · exact absurd (lowestEntry_le e) (not_le.mpr (lt_of_mem_beforeBound he))
      · exact he
    cases hbound : lowerBound entries (IndexFile.lowestEntry e.key) with
    | nil => simp [hbound] at hmem
    | cons b bs =>
      have hb : b ∈ lowerBound entries (IndexFile.lowestEntry e.key) := by simp [hbound]
      -- the first entry from the bound on is not above `e`, and not below its key
      have hbe : b ≤ e := by
        rw [hbound] at hmem
        rcases List.mem_cons.mp hmem with rfl | hmem
        · exact le_refl _
        · have hsorted' : (b :: bs).Pairwise (· < ·) :=
            hbound ▸ hsorted.sublist (List.dropWhile_sublist _)
          exact le_of_lt ((List.pairwise_cons.mp hsorted').1 e hmem)
      have hlow := le_of_mem_lowerBound hsorted hb
      have hkey : b.key = e.key := by
        refine le_antisymm ?_ ?_
        · rcases lt_or_eq_of_le hbe with h | rfl
          · exact IndexEntry.key_le_of_lt h
          · exact le_refl _
        · have hle : (IndexFile.lowestEntry e.key).key ≤ b.key := by
            rcases lt_or_eq_of_le hlow with h | h
            · exact IndexEntry.key_le_of_lt h
            · rw [h]
          exact hle
      simpa using hkey

theorem insertInMemory_eq_some {unique : Bool} {entries m : List IndexEntry} {entry : IndexEntry}
    (hlist : IndexList unique entries) (h : insertInMemory unique entries entry = some m) :
    IndexList unique m ∧ ∀ a, a ∈ m ↔ a = entry ∨ a ∈ entries := by
  rw [insertInMemory] at h
  split at h
  · cases h
  rename_i hfits
  split at h
  · cases h
  rename_i hunique
  rw [Bool.not_eq_true, Bool.not_eq_false'] at hfits
  split at h
  · rename_i hhead
    rw [Option.some.injEq] at h
    subst h
    have hmem := (head?_lowerBound hlist.sorted).mp hhead
    exact ⟨hlist, fun a => ⟨.inr, fun h => h.elim (fun heq => heq ▸ hmem) id⟩⟩
  · rename_i hhead
    rw [Option.some.injEq] at h
    subst h
    have hnew : entry ∉ entries := fun hmem => hhead ((head?_lowerBound hlist.sorted).mpr hmem)
    have hmem : ∀ a, a ∈ insertEntry entries entry ↔ a = entry ∨ a ∈ entries :=
      fun a => mem_insertEntry
    refine ⟨⟨sorted_insertEntry hlist.sorted hnew, fun e he => ?_, fun hu a ha b hb hkey => ?_⟩, hmem⟩
    · rcases (hmem e).mp he with rfl | he
      · exact hfits
      · exact hlist.fits e he
    · -- no entry had the key of the new one
      have hkeys : ∀ e ∈ entries, e.key ≠ entry.key := fun e he heq => by
        rw [hu, Bool.true_and] at hunique
        exact hunique ((any_key_iff hlist.sorted _).mpr ⟨e, he, heq⟩)
      rcases (hmem a).mp ha with ha' | ha' <;> rcases (hmem b).mp hb with hb' | hb'
      · rw [ha', hb']
      · exact absurd (hkey.symm.trans (congrArg _ ha')) (hkeys b hb')
      · exact absurd (hkey.trans (congrArg _ hb')) (hkeys a ha')
      · exact hlist.keys hu a ha' b hb' hkey

/-- An entry that fits is refused only for its key. -/
theorem insertInMemory_ne_none {unique : Bool} {entries : List IndexEntry} {entry : IndexEntry}
    (hsorted : Sorted entries) (hfits : IndexFile.entryFitsEmptyLeaf entry = true)
    (hkey : unique = true → ∀ a ∈ entries, a.key ≠ entry.key) :
    ∃ m, insertInMemory unique entries entry = some m := by
  have hunique : ¬(unique && (lowerBound entries (IndexFile.lowestEntry entry.key)).head?.any
      fun e => e.key = entry.key) = true := by
    rw [Bool.and_eq_true, any_key_iff hsorted]
    rintro ⟨hu, e, he, heq⟩
    exact hkey hu e he heq
  rw [insertInMemory, hfits, if_neg (by simp), if_neg hunique]
  split
  · exact ⟨_, rfl⟩
  · exact ⟨_, rfl⟩

theorem removeInMemory_spec {unique : Bool} {entries : List IndexEntry} (entry : IndexEntry)
    (hlist : IndexList unique entries) : IndexList unique (removeInMemory entries entry) ∧
      ∀ a, a ∈ removeInMemory entries entry ↔ a ∈ entries ∧ a ≠ entry := by
  by_cases hmem : entry ∈ entries
  · have hhead := (head?_lowerBound hlist.sorted).mpr hmem
    rw [removeInMemory, if_neg (not_not.mpr hhead)]
    have h : ∀ a, a ∈ eraseEntry entries entry ↔ a ∈ entries ∧ a ≠ entry :=
      fun a => mem_eraseEntry hlist.sorted hmem
    exact ⟨⟨sorted_eraseEntry hlist.sorted, fun e he => hlist.fits e ((h e).mp he).1,
      fun hu a ha b hb => hlist.keys hu a ((h a).mp ha).1 b ((h b).mp hb).1⟩, h⟩
  · have hhead : (lowerBound entries entry).head? ≠ some entry := fun h =>
      hmem ((head?_lowerBound hlist.sorted).mp h)
    rw [removeInMemory, if_pos hhead]
    exact ⟨hlist, fun a => ⟨fun h => ⟨h, fun heq => hmem (heq ▸ h)⟩, And.left⟩⟩

/-- An `IndexFile` changes the entries that it has in memory, and refuses what they refuse. -/
theorem IndexFile.entries_of_insert {fuel : Nat} {f g : IndexFile} {entry : IndexEntry}
    {unique answer : Bool} (h : f.insert fuel entry unique = some (answer, g)) :
    insertInMemory unique f.entries entry = if answer then some g.entries else none := by
  rw [IndexFile.insert] at h
  rw [insertInMemory]
  split at h
  · rename_i hfits
    obtain ⟨rfl, rfl⟩ := Prod.mk.inj (Option.some.inj h)
    rw [if_pos hfits]
    rfl
  rename_i hfits
  rw [if_neg hfits]
  split at h
  · rename_i hunique
    obtain ⟨rfl, rfl⟩ := Prod.mk.inj (Option.some.inj h)
    rw [if_pos hunique]
    rfl
  rename_i hunique
  rw [if_neg hunique]
  split at h
  · rename_i hhead
    obtain ⟨rfl, rfl⟩ := Prod.mk.inj (Option.some.inj h)
    rw [if_pos hhead]
    rfl
  · rename_i hhead
    rw [Option.map_eq_some_iff] at h
    obtain ⟨g', hwrite, heq⟩ := h
    obtain ⟨rfl, rfl⟩ := Prod.mk.inj heq
    rw [if_neg hhead, (IndexFile.writePages_eq_some hwrite).2.1]
    rfl

theorem IndexFile.entries_of_remove {fuel : Nat} {f g : IndexFile} {entry : IndexEntry}
    {answer : Bool} (h : f.remove fuel entry = some (answer, g)) :
    g.entries = removeInMemory f.entries entry := by
  rw [IndexFile.remove] at h
  rw [removeInMemory]
  split at h
  · rename_i hhead
    obtain ⟨rfl, rfl⟩ := Prod.mk.inj (Option.some.inj h)
    rw [if_pos hhead]
  · rename_i hhead
    rw [Option.map_eq_some_iff] at h
    obtain ⟨g', hwrite, heq⟩ := h
    obtain ⟨rfl, rfl⟩ := Prod.mk.inj heq
    rw [if_neg hhead, (IndexFile.writePages_eq_some hwrite).2.1]

/-- What a change does to the set of the entries. -/
def EntryChange.effect (s : Set IndexEntry) : EntryChange → Set IndexEntry
  | .add entry => s ∪ {entry}
  | .drop entry => s \ {entry}

theorem EntryChange.apply_eq_some {unique : Bool} {entries m : List IndexEntry} {c : EntryChange}
    (hlist : IndexList unique entries) (h : c.apply unique entries = some m) :
    IndexList unique m ∧ {e | e ∈ m} = c.effect {e | e ∈ entries} := by
  cases c with
  | add entry =>
    obtain ⟨hm, hmem⟩ := insertInMemory_eq_some hlist h
    refine ⟨hm, Set.ext fun a => ?_⟩
    change a ∈ m ↔ a ∈ entries ∨ a = entry
    rw [hmem, or_comm]
  | drop entry =>
    rw [EntryChange.apply, Option.some.injEq] at h
    subst h
    obtain ⟨hm, hmem⟩ := removeInMemory_spec entry hlist
    exact ⟨hm, Set.ext fun a => hmem a⟩

/-- The index maintenance of a statement does to the entries what the statement does to the rows. -/
theorem RowChange.effect_entryChanges (rows : Finset IndexEntry) (c : RowChange) :
    c.entryChanges.foldl EntryChange.effect ↑rows = (↑(c.apply rows) : Set IndexEntry) := by
  cases c with
  | insert row => simp [entryChanges, apply, EntryChange.effect]
  | delete row => simp [entryChanges, apply, EntryChange.effect]
  | update old new => simp [entryChanges, apply, EntryChange.effect]

/-- The entries are those of the rows. -/
structure Mirrors (unique : Bool) (file : List IndexEntry) (rows : Finset IndexEntry) : Prop where
  list : IndexList unique file
  mem : ∀ e, e ∈ file ↔ e ∈ rows

/-! ## The invariant -/

/-- A rebuild has emptied the file and not closed it. -/
def IndexTask.rebuilding : IndexTask → Bool
  | .rebuild _ .opened => false
  | .rebuild _ _ => true
  | _ => false

/-- A lookup has other entries than the file. -/
def IndexTask.stale (file : List IndexEntry) : IndexTask → Bool
  | .lookup copy _ => copy ≠ file
  | _ => false

/-- The copy of a rebuild has the rows that it has scanned. -/
def RebuildInv (unique : Bool) (rows : Finset IndexEntry) (copy : List IndexEntry) :
    RebuildStage → Prop
  | .opened => True
  | .stopped => False
  | .scanning pages fetched => IndexList unique copy ∧ pages.Nodup ∧
      (∀ e ∈ fetched, e ∈ rows ∧ e.recordId.pageId ∉ pages) ∧
      ∀ e, e ∈ copy ↔ e ∈ rows ∧ e.recordId.pageId ∉ pages ∧ e ∉ fetched

/-- A statement that is in progress. -/
structure StatementInv (unique : Bool) (rows : Finset IndexEntry) (file : List IndexEntry)
    (run : StatementRun) : Prop where
  list : IndexList unique file
  handle : ∀ copy pending, run.handle = some (copy, pending) → copy = file ∧ run.fileBefore ≠ none
  todo : run.failed = false → run.todo.foldl EntryChange.effect {e | e ∈ file} =
    (↑(run.change.apply rows) : Set IndexEntry)
  before : Mirrors unique (run.fileBefore.getD file) rows

namespace IndexState

variable {Session : Type}

/-- No statement is in progress, and no rebuild past its `reset`. -/
def Quiet (s : IndexState Session) : Prop :=
  s.writer = none ∧ ∀ u, (s.tasks u).rebuilding = false

structure Inv (unique : Bool) (s : IndexState Session) : Prop where
  rows : ∃ entries, Mirrors unique entries s.rows
  writer : ∀ t, (∃ run, s.tasks t = .statement run) ↔ s.writer = some t
  apart : ∀ t, s.writer = some t → ∀ u, (s.tasks u).rebuilding = false
  quiet : s.Quiet → Mirrors unique s.file s.rows
  rebuild : ∀ t copy stage, s.tasks t = .rebuild copy stage → RebuildInv unique s.rows copy stage
  statement : ∀ t run, s.tasks t = .statement run → StatementInv unique s.rows s.file run

/-- A lookup closes while the file has the entries with which it was opened, or while a rebuild will
write it again; statements begin while no rebuild is past its `reset`, and rebuilds empty the file
while no statement is in progress. -/
def Undisturbed (s : IndexState Session) : Action Session → Prop
  | .closeLookup t => (s.tasks t).stale s.file = false ∨ ∃ u, (s.tasks u).rebuilding = true
  | .begin _ _ => ∀ u, (s.tasks u).rebuilding = false
  | .reset _ _ => s.writer = none
  | _ => True

instance [Fintype Session] (s : IndexState Session) (a : Action Session) :
    Decidable (s.Undisturbed a) := by
  unfold Undisturbed
  split <;> infer_instance

variable {unique : Bool} {s : IndexState Session} {t : Session}

/-- While a rebuild is past its `reset`, no statement is in progress. -/
theorem Inv.writer_eq_none (h : s.Inv unique) (hrebuilding : (s.tasks t).rebuilding = true) :
    s.writer = none := by
  cases hwriter : s.writer with
  | none => rfl
  | some u =>
    rw [h.apart u hwriter t] at hrebuilding
    cases hrebuilding

variable [DecidableEq Session]

theorem tasks_setTask_self (s : IndexState Session) (t : Session) (task : IndexTask) :
    (s.setTask t task).tasks t = task := by
  simp [setTask]

theorem tasks_setTask_of_ne (s : IndexState Session) {t u : Session} (h : u ≠ t)
    (task : IndexTask) : (s.setTask t task).tasks u = s.tasks u := by
  simp [setTask, h]

/-- A step that leaves the rows and the lock as they are. -/
theorem Inv.update (h : s.Inv unique) (t : Session) (task : IndexTask) (entries : List IndexEntry)
    (hkind : (∃ run, task = .statement run) ↔ ∃ run, s.tasks t = .statement run)
    (hrebuild : ∀ copy stage, task = .rebuild copy stage → RebuildInv unique s.rows copy stage)
    (hstatement : ∀ run, task = .statement run → StatementInv unique s.rows entries run)
    (hapart : task.rebuilding = true → s.writer = none)
    (hothers : ∀ u, u ≠ t → s.writer = some u → entries = s.file)
    (hquiet : s.writer = none → (∀ u, u ≠ t → (s.tasks u).rebuilding = false) →
      task.rebuilding = false → Mirrors unique entries s.rows) :
    ((s.write entries).setTask t task).Inv unique := by
  have hself := tasks_setTask_self (s.write entries) t task
  have hother : ∀ u, u ≠ t → ((s.write entries).setTask t task).tasks u = s.tasks u :=
    fun u hu => tasks_setTask_of_ne (s.write entries) hu task
  constructor
  · exact h.rows
  · intro u
    change _ ↔ s.writer = some u
    by_cases hu : u = t
    · subst hu
      rw [hself, hkind]
      exact h.writer u
    · rw [hother u hu]
      exact h.writer u
  · intro u hwriter v
    change s.writer = some u at hwriter
    by_cases hv : v = t
    · subst hv
      rw [hself]
      by_contra hne
      rw [Bool.not_eq_false] at hne
      rw [hapart hne] at hwriter
      cases hwriter
    · rw [hother v hv]
      exact h.apart u hwriter v
  · rintro ⟨hwriter, hall⟩
    refine hquiet hwriter (fun u hu => ?_) ?_
    · have := hall u
      rwa [hother u hu] at this
    · have := hall t
      rwa [hself] at this
  · intro u copy stage htask
    by_cases hu : u = t
    · subst hu
      rw [hself] at htask
      exact hrebuild copy stage htask
    · rw [hother u hu] at htask
      exact h.rebuild u copy stage htask
  · intro u run htask
    by_cases hu : u = t
    · subst hu
      rw [hself] at htask
      exact hstatement run htask
    · rw [hother u hu] at htask
      have hsame : entries = s.file := hothers u hu ((h.writer u).mp ⟨run, htask⟩)
      change StatementInv unique s.rows entries run
      rw [hsame]
      exact h.statement u run htask

/-! ### Lookups -/

/-- A step of a session that writes nothing and is neither in a statement nor past a `reset`. -/
theorem Inv.setTask_idle (h : s.Inv unique) {task : IndexTask}
    (hbefore : ∀ run, s.tasks t ≠ .statement run) (hrebuilding : (s.tasks t).rebuilding = false)
    (hafter : ∀ run, task ≠ .statement run) (hafter' : task.rebuilding = false) :
    (s.setTask t task).Inv unique := by
  refine h.update t task s.file ?_ ?_ ?_ ?_ (fun _ _ _ => rfl) fun hwriter hall _ => h.quiet ⟨hwriter, ?_⟩
  · exact ⟨fun ⟨run, hrun⟩ => absurd hrun (hafter run), fun ⟨run, hrun⟩ => absurd hrun (hbefore run)⟩
  · rintro copy stage rfl
    cases stage with
    | opened => trivial
    | scanning pages fetched => cases hafter'
    | stopped => cases hafter'
  · rintro run rfl
    exact absurd rfl (hafter run)
  · intro hne
    rw [hafter'] at hne
    cases hne
  · intro u
    by_cases hu : u = t
    · rw [hu]
      exact hrebuilding
    · exact hall u hu

theorem inv_closeLookup (h : s.Inv unique) {copy : List IndexEntry} {found : Option (List RecordId)}
    (htask : s.tasks t = .lookup copy found) (hok : s.Undisturbed (.closeLookup t)) :
    ((s.write copy).setTask t .idle).Inv unique := by
  rcases hok with hsame | ⟨u, hu⟩
  · -- the copy is what the file has
    rw [htask] at hsame
    rw [show copy = s.file by simpa [IndexTask.stale] using hsame]
    exact h.setTask_idle (by simp [htask]) (by simp [htask, IndexTask.rebuilding]) (by simp) rfl
  · -- a rebuild will write the file again
    have hwriter := h.writer_eq_none hu
    have hne : u ≠ t := by
      rintro rfl
      rw [htask] at hu
      cases hu
    refine h.update t .idle copy (by simp [htask]) (by simp) (by simp) (fun _ => hwriter) ?_ ?_
    · intro v _ hv
      rw [hwriter] at hv
      cases hv
    · intro _ hall
      rw [hall u hne] at hu
      cases hu

theorem inv_nextLookup (h : s.Inv unique) {copy : List IndexEntry} {found : Option (List RecordId)}
    {a : Action Session} {s' : IndexState Session} (ha : a.session = t)
    (htask : s.tasks t = .lookup copy found) (hok : s.Undisturbed a)
    (hnext : s.nextLookup t copy found a = some s') : s'.Inv unique := by
  have hread : ∀ found', (s.setTask t (.lookup copy found')).Inv unique := fun found' =>
    h.setTask_idle (by simp [htask]) (by simp [htask, IndexTask.rebuilding]) (by simp) rfl
  cases a with
  | find _ recordIds =>
    rw [nextLookup, Option.ite_none_right_eq_some, Option.some.injEq] at hnext
    exact hnext.2 ▸ hread _
  | readRow _ =>
    rcases found with _ | _ | ⟨_, rest⟩
    · cases hnext
    · cases hnext
    · rw [nextLookup, Option.ite_none_right_eq_some, Option.some.injEq] at hnext
      exact hnext.2 ▸ hread _
  | closeLookup u =>
    cases ha
    rw [nextLookup, Option.ite_none_right_eq_some, Option.some.injEq] at hnext
    exact hnext.2 ▸ inv_closeLookup h htask hok
  | _ => cases hnext

/-! ### Rebuilds -/

/-- A step of a rebuild from its `reset` on. -/
theorem Inv.update_rebuild (h : s.Inv unique) {copy copy' : List IndexEntry}
    {stage stage' : RebuildStage} (htask : s.tasks t = .rebuild copy stage)
    (hwriter : s.writer = none) (entries : List IndexEntry)
    (hinv : RebuildInv unique s.rows copy' stage') (hstage : stage' ≠ .opened) :
    ((s.write entries).setTask t (.rebuild copy' stage')).Inv unique := by
  refine h.update t _ entries (by simp [htask]) ?_ (by simp) (fun _ => hwriter) ?_ ?_
  · rintro _ _ ⟨⟩
    exact hinv
  · intro u _ hu
    rw [hwriter] at hu
    cases hu
  · intro _ _ hrebuilding
    cases stage' with
    | opened => exact absurd rfl hstage
    | scanning pages fetched => cases hrebuilding
    | stopped => cases hrebuilding

/-- A page is read: its rows are still to be inserted. -/
theorem rebuildInv_fetch {rows : Finset IndexEntry} {copy : List IndexEntry} {page : Nat}
    {pages : List Nat} (h : RebuildInv unique rows copy (.scanning (page :: pages) ∅)) :
    RebuildInv unique rows copy
      (.scanning pages (rows.filter fun r => r.recordId.pageId = page)) := by
  obtain ⟨hlist, hnodup, -, hmem⟩ := h
  obtain ⟨hpage, hpages⟩ := List.nodup_cons.mp hnodup
  refine ⟨hlist, hpages, fun e he => ?_, fun e => ?_⟩
  · obtain ⟨hrow, rfl⟩ := Finset.mem_filter.mp he
    exact ⟨hrow, hpage⟩
  · rw [hmem, List.mem_cons, Finset.mem_filter, not_or]
    simp only [Finset.notMem_empty, not_false_eq_true, and_true]
    tauto

/-- A row that was read is inserted. -/
theorem rebuildInv_insertRow {rows : Finset IndexEntry} {copy entries : List IndexEntry}
    {pages : List Nat} {fetched : Finset IndexEntry} {row : IndexEntry}
    (h : RebuildInv unique rows copy (.scanning pages fetched)) (hrow : row ∈ fetched)
    (hinsert : insertInMemory unique copy row = some entries) :
    RebuildInv unique rows entries (.scanning pages (fetched.erase row)) := by
  obtain ⟨hlist, hnodup, hfetched, hmem⟩ := h
  obtain ⟨hentries, hmem'⟩ := insertInMemory_eq_some hlist hinsert
  refine ⟨hentries, hnodup, fun e he => hfetched e (Finset.mem_of_mem_erase he), fun e => ?_⟩
  rw [hmem', hmem, Finset.mem_erase]
  constructor
  · rintro (rfl | ⟨he, hpage, hnot⟩)
    · exact ⟨(hfetched e hrow).1, (hfetched e hrow).2, fun h => h.1 rfl⟩
    · exact ⟨he, hpage, fun h => hnot h.2⟩
  · rintro ⟨he, hpage, hnot⟩
    by_cases heq : e = row
    · exact .inl heq
    · exact .inr ⟨he, hpage, fun hfetched => hnot ⟨heq, hfetched⟩⟩

/-- The rows of a table have entries that can all be inserted. -/
theorem insertInMemory_ne_none_of_fetched {rows : Finset IndexEntry}
    (hrows : ∃ entries, Mirrors unique entries rows) {copy : List IndexEntry} {pages : List Nat}
    {fetched : Finset IndexEntry} {row : IndexEntry}
    (h : RebuildInv unique rows copy (.scanning pages fetched)) (hrow : row ∈ fetched) :
    ∃ entries, insertInMemory unique copy row = some entries := by
  obtain ⟨hlist, -, hfetched, hmem⟩ := h
  obtain ⟨file, hfile⟩ := hrows
  have hin : row ∈ file := (hfile.mem row).mpr (hfetched row hrow).1
  refine insertInMemory_ne_none hlist.sorted (hfile.list.fits row hin) fun hunique a ha heq => ?_
  have ha' := (hmem a).mp ha
  have hsame : a = row := hfile.list.keys hunique a ((hfile.mem a).mpr ha'.1) row hin heq
  exact ha'.2.2 (hsame ▸ hrow)

theorem inv_closeRebuild (h : s.Inv unique) {copy : List IndexEntry}
    (htask : s.tasks t = .rebuild copy (.scanning [] ∅)) :
    ((s.write copy).setTask t .idle).Inv unique := by
  obtain ⟨hlist, -, -, hmem⟩ := h.rebuild t _ _ htask
  have hwriter : s.writer = none := h.writer_eq_none (by rw [htask]; rfl)
  refine h.update t .idle copy (by simp [htask]) (by simp) (by simp) (fun _ => hwriter) ?_ ?_
  · intro u _ hu
    rw [hwriter] at hu
    cases hu
  · exact fun _ _ _ => ⟨hlist, fun e => by simpa using hmem e⟩

theorem inv_nextRebuild (h : s.Inv unique) {copy : List IndexEntry} {stage : RebuildStage}
    {a : Action Session} {s' : IndexState Session} (ha : a.session = t)
    (htask : s.tasks t = .rebuild copy stage) (hok : s.Undisturbed a)
    (hnext : s.nextRebuild unique t copy stage a = some s') : s'.Inv unique := by
  have hinv := h.rebuild t copy stage htask
  cases stage with
  | stopped => exact hinv.elim
  | opened =>
    cases a with
    | reset _ pageCount =>
      rw [nextRebuild, Option.ite_none_right_eq_some, Option.some.injEq] at hnext
      obtain ⟨hpages, rfl⟩ := hnext
      refine h.update_rebuild htask hok [] ⟨indexList_nil unique, List.nodup_range, by simp, ?_⟩
        (by simp)
      -- the row's page is still to be read
      intro e
      simp only [List.not_mem_nil, List.mem_range, false_iff, not_and, not_not]
      exact fun he hpage => absurd (hpages e he) hpage
    | _ => cases hnext
  | scanning pages fetched =>
    have hwriter : s.writer = none := h.writer_eq_none (by rw [htask]; rfl)
    cases a with
    | fetchPage _ =>
      cases pages with
      | nil => cases hnext
      | cons page pages =>
        rw [nextRebuild, Option.ite_none_right_eq_some, Option.some.injEq] at hnext
        obtain ⟨rfl, rfl⟩ := hnext
        exact h.update_rebuild htask hwriter s.file (rebuildInv_fetch hinv) (by simp)
    | insertRow _ row =>
      rw [nextRebuild, Option.ite_none_right_eq_some] at hnext
      obtain ⟨hrow, hnext⟩ := hnext
      obtain ⟨entries, hinsert⟩ := insertInMemory_ne_none_of_fetched h.rows hinv hrow
      rw [hinsert] at hnext
      cases hnext
      exact h.update_rebuild htask hwriter _ (rebuildInv_insertRow hinv hrow hinsert) (by simp)
    | closeRebuild _ =>
      cases pages with
      | cons page pages => cases hnext
      | nil =>
        rw [nextRebuild, Option.ite_none_right_eq_some, Option.some.injEq] at hnext
        obtain ⟨rfl, rfl⟩ := hnext
        exact inv_closeRebuild h htask
    | _ => cases pages <;> cases hnext

/-! ### Statements -/

/-- A step of a statement that keeps the lock. -/
theorem Inv.update_statement (h : s.Inv unique) {run run' : StatementRun}
    (htask : s.tasks t = .statement run) (entries : List IndexEntry)
    (hinv : StatementInv unique s.rows entries run') :
    ((s.write entries).setTask t (.statement run')).Inv unique := by
  have hwriter : s.writer = some t := (h.writer t).mp ⟨run, htask⟩
  refine h.update t _ entries ⟨fun _ => ⟨run, htask⟩, fun _ => ⟨run', rfl⟩⟩ (by simp) ?_
    (by simp [IndexTask.rebuilding]) ?_ ?_
  · rintro _ ⟨⟩
    exact hinv
  · intro u hu hu'
    rw [hwriter] at hu'
    exact absurd (Option.some.inj hu').symm hu
  · intro hnone
    rw [hwriter] at hnone
    cases hnone

/-- The end of a statement, in which the file has the entries of the rows. -/
theorem Inv.finish (h : s.Inv unique) {run : StatementRun} (htask : s.tasks t = .statement run)
    {rows : Finset IndexEntry} {entries : List IndexEntry} (hmirrors : Mirrors unique entries rows) :
    ((⟨rows, entries, none, s.tasks⟩ : IndexState Session).setTask t .idle).Inv unique := by
  have hwriter : s.writer = some t := (h.writer t).mp ⟨run, htask⟩
  have hnone : ∀ u, (s.tasks u).rebuilding = false := h.apart t hwriter
  have htasks : ∀ u task,
      ((⟨rows, entries, none, s.tasks⟩ : IndexState Session).setTask t .idle).tasks u = task →
        task ≠ .idle → s.tasks u = task := by
    intro u task heq hne
    by_cases hu : u = t
    · rw [hu, tasks_setTask_self] at heq
      exact absurd heq.symm hne
    · rwa [tasks_setTask_of_ne _ hu] at heq
  -- no other session is in a statement
  have hstatement : ∀ u run',
      ((⟨rows, entries, none, s.tasks⟩ : IndexState Session).setTask t .idle).tasks u ≠
        .statement run' := by
    intro u run' heq
    have hu := (h.writer u).mp ⟨run', htasks u _ heq (by simp)⟩
    rw [hwriter, Option.some.injEq] at hu
    rw [← hu, tasks_setTask_self] at heq
    cases heq
  constructor
  · exact ⟨entries, hmirrors⟩
  · intro u
    exact ⟨fun ⟨run', heq⟩ => absurd heq (hstatement u run'), fun heq => by cases heq⟩
  · intro u heq
    cases heq
  · exact fun _ => hmirrors
  · intro u copy stage heq
    have hu := htasks u _ heq (by simp)
    have hopened := hnone u
    rw [hu] at hopened
    cases stage with
    | opened => trivial
    | scanning pages fetched => cases hopened
    | stopped => cases hopened
  · intro u run' heq
    exact absurd heq (hstatement u run')

theorem inv_changeIndex (h : s.Inv unique) {run : StatementRun} {copy : List IndexEntry}
    {change : EntryChange} {rest : List EntryChange} (htask : s.tasks t = .statement run)
    (hhandle : run.handle = some (copy, true)) (htodo : run.todo = change :: rest)
    {s' : IndexState Session} (hnext : s.nextStatement unique t run (.changeIndex t) = some s') :
    s'.Inv unique := by
  have hinv := h.statement t run htask
  obtain ⟨rfl, hbefore⟩ := hinv.handle copy true hhandle
  simp only [nextStatement, hhandle, htodo] at hnext
  cases happly : change.apply unique s.file with
  | none =>
    rw [happly] at hnext
    cases hnext
    refine h.update_statement htask s.file ⟨hinv.list, ?_, fun hfailed => (by cases hfailed), hinv.before⟩
    rintro copy pending ⟨⟩
    exact ⟨rfl, hbefore⟩
  | some entries =>
    rw [happly] at hnext
    cases hnext
    obtain ⟨hlist, heffect⟩ := EntryChange.apply_eq_some hinv.list happly
    -- the file has the entries of the copy, with or without a flush
    have hflush : (if entries = s.file then s.file else entries) = entries := by
      split
      · rename_i heq
        exact heq.symm
      · rfl
    rw [flush, hflush]
    refine h.update_statement htask entries ⟨hlist, ?_, fun hfailed => ?_, ?_⟩
    · rintro copy pending ⟨⟩
      exact ⟨rfl, hbefore⟩
    · have htodo' := hinv.todo hfailed
      rw [htodo, List.foldl_cons, ← heffect] at htodo'
      exact htodo'
    · obtain ⟨file, hfile⟩ := Option.ne_none_iff_exists'.mp hbefore
      have hmirrors := hinv.before
      rw [hfile, Option.getD_some] at hmirrors
      change Mirrors unique (run.fileBefore.getD entries) s.rows
      rwa [hfile, Option.getD_some]

theorem inv_nextStatement (h : s.Inv unique) {run : StatementRun} {a : Action Session}
    {s' : IndexState Session} (ha : a.session = t) (htask : s.tasks t = .statement run)
    (hnext : s.nextStatement unique t run a = some s') : s'.Inv unique := by
  have hinv := h.statement t run htask
  cases a with
  | openIndex _ =>
    rw [nextStatement, Option.ite_none_right_eq_some, Option.some.injEq] at hnext
    obtain ⟨-, rfl⟩ := hnext
    refine h.update_statement htask s.file ⟨hinv.list, ?_, hinv.todo, hinv.before⟩
    rintro copy pending ⟨⟩
    exact ⟨rfl, by simp⟩
  | changeIndex u =>
    cases ha
    cases hhandle : run.handle with
    | none => simp [nextStatement, hhandle] at hnext
    | some handle =>
      obtain ⟨copy, pending⟩ := handle
      cases htodo : run.todo with
      | nil => cases pending <;> simp [nextStatement, hhandle, htodo] at hnext
      | cons change rest =>
        cases pending with
        | false => simp [nextStatement, hhandle] at hnext
        | true => exact inv_changeIndex h htask hhandle htodo hnext
  | closeIndex _ =>
    cases hhandle : run.handle with
    | none => simp [nextStatement, hhandle] at hnext
    | some handle =>
      obtain ⟨copy, pending⟩ := handle
      cases pending with
      | true => simp [nextStatement, hhandle] at hnext
      | false =>
        simp only [nextStatement, hhandle, Option.some.injEq] at hnext
        subst hnext
        rw [(hinv.handle copy false hhandle).1]
        exact h.update_statement htask s.file
          ⟨hinv.list, fun copy pending heq => (by cases heq), hinv.todo, hinv.before⟩
  | fail _ =>
    rw [nextStatement, Option.ite_none_right_eq_some, Option.some.injEq] at hnext
    obtain ⟨-, rfl⟩ := hnext
    exact h.update_statement htask s.file
      ⟨hinv.list, hinv.handle, fun hfailed => (by cases hfailed), hinv.before⟩
  | commit _ =>
    rw [nextStatement, Option.ite_none_right_eq_some, Option.some.injEq] at hnext
    obtain ⟨⟨-, hfailed, htodo⟩, rfl⟩ := hnext
    have hrows := hinv.todo hfailed
    rw [htodo, List.foldl_nil] at hrows
    exact h.finish htask ⟨hinv.list, fun e => by
      rw [← Finset.mem_coe, ← hrows]
      rfl⟩
  | abort _ =>
    rw [nextStatement, Option.ite_none_right_eq_some, Option.some.injEq] at hnext
    obtain ⟨-, rfl⟩ := hnext
    exact h.finish htask hinv.before
  | _ => cases hnext

theorem inv_begin (h : s.Inv unique) {change : RowChange} (hidle : s.tasks t = .idle)
    (hfree : s.writer = none) (hok : ∀ u, (s.tasks u).rebuilding = false) :
    (({ s with writer := some t } : IndexState Session).setTask t
      (.statement ⟨change, change.entryChanges, none, false, none⟩)).Inv unique := by
  have hmirrors := h.quiet ⟨hfree, hok⟩
  have hother : ∀ u, u ≠ t → (({ s with writer := some t } : IndexState Session).setTask t
      (.statement ⟨change, change.entryChanges, none, false, none⟩)).tasks u = s.tasks u :=
    fun u hu => tasks_setTask_of_ne _ hu _
  have hself : (({ s with writer := some t } : IndexState Session).setTask t
      (.statement ⟨change, change.entryChanges, none, false, none⟩)).tasks t = _ :=
    tasks_setTask_self _ _ _
  constructor
  · exact h.rows
  · intro u
    change _ ↔ some t = some u
    by_cases hu : u = t
    · subst hu
      rw [hself]
      exact ⟨fun _ => rfl, fun _ => ⟨_, rfl⟩⟩
    · rw [hother u hu, h.writer u, hfree]
      exact ⟨fun heq => (by cases heq), fun heq => absurd (Option.some.inj heq).symm hu⟩
  · intro _ _ u
    by_cases hu : u = t
    · subst hu
      rw [hself]
      rfl
    · rw [hother u hu]
      exact hok u
  · rintro ⟨hwriter, -⟩
    cases hwriter
  · intro u copy stage heq
    by_cases hu : u = t
    · subst hu
      rw [hself] at heq
      cases heq
    · rw [hother u hu] at heq
      exact h.rebuild u copy stage heq
  · intro u run heq
    by_cases hu : u = t
    · subst hu
      rw [hself] at heq
      cases heq
      refine ⟨hmirrors.list, fun copy pending heq => (by cases heq), fun _ => ?_, hmirrors⟩
      have hsame : ({e | e ∈ s.file} : Set IndexEntry) = ↑s.rows := Set.ext hmirrors.mem
      have heffect := RowChange.effect_entryChanges s.rows change
      rw [← hsame] at heffect
      exact heffect
    · rw [hother u hu] at heq
      have := (h.writer u).mp ⟨run, heq⟩
      rw [hfree] at this
      cases this

theorem inv_step {s' : IndexState Session} {a : Action Session} (h : s.Inv unique)
    (hok : s.Undisturbed a) (hnext : s.next unique a = some s') : s'.Inv unique := by
  unfold next at hnext
  cases htask : s.tasks a.session with
  | lookup copy found =>
    rw [htask] at hnext
    exact inv_nextLookup h rfl htask hok hnext
  | rebuild copy stage =>
    rw [htask] at hnext
    exact inv_nextRebuild h rfl htask hok hnext
  | statement run =>
    rw [htask] at hnext
    exact inv_nextStatement h rfl htask hnext
  | idle =>
    rw [htask] at hnext
    cases a with
    | openLookup t =>
      cases hnext
      change s.tasks t = .idle at htask
      exact h.setTask_idle (by simp [htask]) (by simp [htask, IndexTask.rebuilding]) (by simp) rfl
    | openRebuild t =>
      cases hnext
      change s.tasks t = .idle at htask
      exact h.setTask_idle (by simp [htask]) (by simp [htask, IndexTask.rebuilding]) (by simp) rfl
    | begin t change =>
      dsimp only at hnext
      rw [Option.ite_none_right_eq_some, Option.some.injEq] at hnext
      obtain ⟨⟨hfree, -⟩, rfl⟩ := hnext
      exact inv_begin h htask hfree hok
    | _ => cases hnext

end IndexState

/-- In every run in which no stale copy is written back and statements and rebuilds keep apart, the
file has exactly the entries of the rows whenever no statement is in progress and no rebuild past
its `reset`. -/
theorem mirrors_of_reaches {Session : Type} [DecidableEq Session] {unique : Bool}
    {s : IndexState Session}
    (h : (indexMachine Session unique).Reaches IndexState.Undisturbed s) (hquiet : s.Quiet) :
    Mirrors unique s.file s.rows := by
  have hempty : Mirrors unique [] ∅ := ⟨indexList_nil unique, by simp⟩
  refine (h.invariant (I := IndexState.Inv unique) ?_ fun s t a hinv hok hnext =>
    IndexState.inv_step hinv hok hnext).quiet hquiet
  exact ⟨⟨[], hempty⟩, fun t => (by simp [indexMachine]), fun t ht => (by cases ht),
    fun _ => hempty, fun t copy stage heq => (by cases heq), fun t run heq => (by cases heq)⟩

/-! ## A lookup that overlaps an insertion -/

theorem fits_firstSlot : RecordId.Fits ⟨0, 0⟩ := ⟨Nat.two_pow_pos 32, Nat.two_pow_pos 16⟩

def firstRow : IndexEntry := ⟨[1], ⟨0, 0⟩, fits_firstSlot⟩

/-- One session inserts a row. -/
def insertFirstRow : List (IndexState.Action Bool) :=
  [.begin true (.insert firstRow), .openIndex true, .changeIndex true, .closeIndex true, .commit true]

/-- The other session has the index open meanwhile. -/
def lookupAround : List (IndexState.Action Bool) :=
  [.openLookup false, .find false []] ++ insertFirstRow ++ [.closeLookup false]

/-- The sessions take their turns: a lookup, and a rebuild. -/
def lookupAndRebuild : List (IndexState.Action Bool) :=
  insertFirstRow ++ [.openLookup false, .find false [⟨0, 0⟩], .readRow false, .closeLookup false,
    .openRebuild true, .reset true 1, .fetchPage true, .insertRow true firstRow, .closeRebuild true]

theorem lookup_loses_entry :
    ¬∀ (unique : Bool) (s : IndexState Bool), (indexMachine Bool unique).Reachable s → s.Quiet →
      Mirrors unique s.file s.rows := by
  intro h
  have hrun : ∃ s, (indexMachine Bool false).run lookupAround = some s ∧ s.rows = {firstRow} ∧
      s.file = [] ∧ s.writer = none ∧ ∀ u, s.tasks u = .idle := ⟨_, rfl, rfl, rfl, rfl, by decide⟩
  obtain ⟨s, hrun, hrows, hfile, hwriter, hidle⟩ := hrun
  have hmirrors := h false s (Machine.reachable_of_run hrun)
    ⟨hwriter, fun u => by rw [hidle u]; rfl⟩
  have hmem := (hmirrors.mem firstRow).mpr (by simp [hrows])
  rw [hfile] at hmem
  cases hmem

theorem mirrors_of_reaches_inTurn : ∃ s : IndexState Bool, s.rows = {firstRow} ∧
    Mirrors true s.file s.rows := by
  have hrun : ∃ s, (indexMachine Bool true).runWhile IndexState.Undisturbed
      (indexMachine Bool true).init lookupAndRebuild = some s ∧ s.rows = {firstRow} ∧
      s.writer = none ∧ ∀ u, s.tasks u = .idle := ⟨_, rfl, rfl, rfl, by decide⟩
  obtain ⟨s, hrun, hrows, hwriter, hidle⟩ := hrun
  exact ⟨s, hrows, mirrors_of_reaches (Machine.Reaches.init.runWhile hrun)
    ⟨hwriter, fun u => by rw [hidle u]; rfl⟩⟩

end ScratchDb
