import ScratchDb.Recovery.TableHistory
import ScratchDb.Sessions.TableCreation

/-!
# Refused tables

What a `create_table` that returns false leaves behind. Where nothing is at
the path of the new table, its records make and remove files at that path
only, and every replay of the log with them agrees with one without them
everywhere else. Where a table is there, undoing the `create_table` record
removes it.
-/

namespace ScratchDb

open WalManager

/-! ## States that agree apart from one directory -/

/-- `k` is at, under or above `d`. -/
def Near (d : Path) (k : Loc) : Prop := d <+: k.path ∨ k.path <+: d

/-- The states differ at most near `d`, and there only if `free`; no directory is missing in the
second one. -/
def Grown (free : Prop) (d : Path) (s s' : Loc → Val Page) : Prop :=
  ∀ k, s' k = s k ∨ free ∧ Near d k ∧ ∀ p, k = .directory p → s' k = .present true

theorem Grown.refl (free : Prop) (d : Path) (s : Loc → Val Page) : Grown free d s s :=
  fun _ => .inl rfl

section Grown

variable {free : Prop} {d : Path} {s s' : Loc → Val Page}

/-- Assigning the same values keeps the states alike. -/
theorem Grown.apply (h : Grown free d s s') (p : Patch Loc (Val Page)) :
    Grown free d (p.apply s) (p.apply s') := by
  intro k
  rcases hp : p k with _ | v
  · rw [Patch.apply_of_none hp, Patch.apply_of_none hp]
    exact h k
  · rw [Patch.apply_of_some hp, Patch.apply_of_some hp]
    exact .inl rfl

theorem Grown.finds (h : Grown free d s s') {file : Path} (hf : Finds file s) : Finds file s' := by
  rcases hf with hf | hf
  · exact .inl hf
  · rcases h (.directory file.dropLast) with heq | ⟨-, -, hdir⟩
    · exact .inr (heq.trans hf)
    · exact .inr (hdir _ rfl)

/-- What can be replayed from the first state can be replayed from the second. -/
theorem Grown.play (h : Grown free d s s') {f : WalRecord → Patch.Guarded Loc (Val Page)}
    (hready : ∀ r, (f r).ready = r.Ready) {rs : List WalRecord}
    (hp : Patch.Playable (rs.map f) s) :
    Patch.Playable (rs.map f) s' ∧ Grown free d (Patch.play (rs.map f) s) (Patch.play (rs.map f) s') := by
  induction rs generalizing s s' with
  | nil => exact ⟨trivial, h⟩
  | cons r rs ih =>
    obtain ⟨hr, hrest⟩ := hp
    obtain ⟨hrest', hgrown⟩ := ih (h.apply (f r).patch) hrest
    refine ⟨⟨?_, hrest'⟩, hgrown⟩
    rw [hready] at hr ⊢
    exact fun htype => h.finds (hr htype)

/-- A patch that only makes or removes what is near `d`. -/
def Local (d : Path) (p : Patch Loc (Val Page)) : Prop :=
  ∀ k v, p k = some v → Near d k ∧ (∀ x, k = .directory x → v = .present true) ∨
    d <+: k.path ∧ v = k.absent contentView

/-- A patch near `d` is of no consequence where nothing is at `d`. -/
theorem Grown.local (h : Grown free d s s') {p : Patch Loc (Val Page)}
    (hp : p = Patch.skip ∨ (free ∧ Vacant d s) ∧ Local d p) : Grown free d s (p.apply s') := by
  rcases hp with rfl | ⟨⟨hfree, hv⟩, hp⟩
  · exact h
  intro k
  rcases hk : p k with _ | v
  · rw [Patch.apply_of_none hk]
    exact h k
  · rw [Patch.apply_of_some hk]
    rcases hp k v hk with ⟨hnear, hdir⟩ | ⟨hunder, rfl⟩
    · exact .inr ⟨hfree, hnear, hdir⟩
    · exact .inl (hv k hunder).symm

theorem local_dropPatch (d : Path) : Local d (dropPatch contentView d) := by
  intro k v h
  unfold dropPatch at h
  split at h
  · rename_i hunder
    exact .inr ⟨List.isPrefixOf_iff_prefix.mp hunder, (Option.some.inj h).symm⟩
  · cases h

theorem local_schemaPatch (d : Path) (t : Bytes) : Local d (schemaPatch d t) := by
  intro k v h
  cases k with
  | directory p =>
    simp only [schemaPatch, Option.ite_none_right_eq_some, Option.some.injEq,
      List.isPrefixOf_iff_prefix] at h
    exact .inl ⟨.inr h.1, fun _ _ => h.2.symm⟩
  | text p =>
    simp only [schemaPatch, Option.ite_none_right_eq_some] at h
    exact .inl ⟨.inl (h.1 ▸ List.prefix_append _ _), fun _ hx => by cases hx⟩
  | file p => cases h
  | page p j => cases h

theorem local_createPatch (d : Path) (t : Bytes) : Local d (createPatch d t) := by
  intro k v h
  cases k with
  | file p =>
    simp only [createPatch, Option.ite_none_right_eq_some] at h
    exact .inl ⟨.inl (h.1 ▸ List.prefix_append _ _), fun _ hx => by cases hx⟩
  | _ => exact local_schemaPatch d t _ v h

/-- Patches near `d` one after the other. -/
theorem Grown.play_local (h : Grown free d s s') {f : WalRecord → Patch.Guarded Loc (Val Page)}
    (rs : List WalRecord) (hrs : ∀ r ∈ rs, (∀ u, (f r).ready u) ∧
      ((f r).patch = Patch.skip ∨ (free ∧ Vacant d s) ∧ Local d (f r).patch)) :
    Patch.Playable (rs.map f) s' ∧ Grown free d s (Patch.play (rs.map f) s') := by
  induction rs generalizing s' with
  | nil => exact ⟨trivial, h⟩
  | cons r rs ih =>
    obtain ⟨hready, hlocal⟩ := hrs r List.mem_cons_self
    obtain ⟨hplay, hgrown⟩ := ih (h.local hlocal) fun q hq => hrs q (List.mem_cons_of_mem _ hq)
    exact ⟨⟨hready s', hplay⟩, hgrown⟩

/-- The catalog only touches the directory of the new table. -/
theorem local_effects (d : Path) (schemaText : Bytes) (files : TableCreation) :
    ∀ e ∈ files.effects d schemaText, Local d (e.patch contentView) := by
  have hmake : Local d ((Effect.createDirectories d).patch contentView) := by
    intro k v h
    cases k with
    | directory p =>
      simp only [Effect.patch, Option.ite_none_right_eq_some, Option.some.injEq,
        List.isPrefixOf_iff_prefix] at h
      exact .inl ⟨.inr h.1, fun _ _ => h.2.symm⟩
    | _ => cases h
  have hfile : Local d ((Effect.openCreate (d ++ [tableFileName])).patch contentView) := by
    intro k v h
    cases k with
    | file p =>
      simp only [Effect.patch, Option.ite_none_right_eq_some] at h
      exact .inl ⟨.inl (h.1 ▸ List.prefix_append _ _), fun _ hx => by cases hx⟩
    | _ => cases h
  have htext : Local d
      ((Effect.replaceText (d ++ [schemaFileName]) schemaText).patch contentView) := by
    intro k v h
    cases k with
    | text p =>
      simp only [Effect.patch, Option.ite_none_right_eq_some] at h
      exact .inl ⟨.inl (h.1 ▸ List.prefix_append _ _), fun _ hx => by cases hx⟩
    | _ => cases h
  have hremove : Local d ((Effect.removeAll d).patch contentView) := local_dropPatch d
  intro e he
  cases files <;> simp only [TableCreation.effects, List.mem_cons, List.not_mem_nil, or_false] at he
  · exact he ▸ hmake
  · rcases he with rfl | rfl
    · exact hmake
    · exact hremove
  · rcases he with rfl | rfl | rfl
    · exact hmake
    · exact hfile
    · exact hremove
  · rcases he with rfl | rfl | rfl
    · exact hmake
    · exact hfile
    · exact htext

theorem Grown.applyFsAll {fs : FileSystem} (hv : free ∧ Vacant d s) {es : List Effect}
    (hes : ∀ e ∈ es, Local d (e.patch contentView)) (h : Grown free d s (fs.view contentView)) :
    Grown free d s ((Effect.applyFsAll fs es).view contentView) := by
  induction es generalizing fs with
  | nil => exact h
  | cons e es ih =>
    refine @ih (e.applyFs fs) (fun q hq => hes q (List.mem_cons_of_mem _ hq)) ?_
    rw [Effect.view_applyFs]
    exact h.local (.inr ⟨hv, hes e List.mem_cons_self⟩)

end Grown

/-! ## A log with the records of one new table -/

/-- A record that begins or ends a transaction, or makes or removes table directory `d`. -/
def OfTable (d : Path) (r : WalRecord) : Prop :=
  (r.type = .beginTransaction ∨ r.type = .commitTransaction ∨ r.type = .abortTransaction) ∨
    (r.type = .createTable ∨ r.type = .dropTable) ∧ pathOf r.tableFile = d

section OfTable

variable {d : Path} {r : WalRecord}

theorem OfTable.redoPatch (h : OfTable d r) :
    r.redoPatch contentView = Patch.skip ∨ r.directory ≠ none ∧ Local d (r.redoPatch contentView) := by
  unfold WalRecord.redoPatch WalRecord.directory
  rcases h with (h | h | h) | ⟨h | h, rfl⟩ <;> rw [h]
  · exact .inl rfl
  · exact .inl rfl
  · exact .inl rfl
  · exact .inr ⟨by simp, local_createPatch _ _⟩
  · exact .inr ⟨by simp, local_dropPatch _⟩

theorem OfTable.undoPatch (h : OfTable d r) :
    r.undoPatch contentView = Patch.skip ∨ r.directory ≠ none ∧ Local d (r.undoPatch contentView) := by
  unfold WalRecord.undoPatch WalRecord.directory
  rcases h with (h | h | h) | ⟨h | h, rfl⟩ <;> rw [h]
  · exact .inl rfl
  · exact .inl rfl
  · exact .inl rfl
  · exact .inr ⟨by simp, local_dropPatch _⟩
  · exact .inl rfl

/-- Only making the table is compensated, by removing it. -/
theorem OfTable.compensation (h : OfTable d r) (hc : r.compensated = true) (lsn : Nat) :
    OfTable d (r.compensation lsn) ∧ r.directory ≠ none := by
  unfold WalRecord.compensated at hc
  rcases h with (h | h | h) | ⟨h | h, hd⟩ <;> rw [h] at hc <;> try cases hc
  have htype : (r.compensation lsn).type = .dropTable := by simp [WalRecord.compensation, h]
  refine ⟨.inr ⟨.inr htype, ?_⟩, by simp [WalRecord.directory, h]⟩
  rw [compensation_tableFile, hd]

theorem OfTable.ready (h : OfTable d r) (u : Loc → Val Page) : r.Ready u := by
  intro hpage
  rcases h with (h | h | h) | ⟨h | h, -⟩ <;> rw [h] at hpage <;> cases hpage

end OfTable

/-- The log `new` begins and ends only transactions that `log` does not know. -/
def NewTo (log new : List WalRecord) : Prop :=
  ∀ q ∈ new, q.type = .beginTransaction ∨ q.type = .commitTransaction ∨
    q.type = .abortTransaction → ∀ r ∈ log, r.transactionId ≠ q.transactionId

section Replay

variable {log new : List WalRecord}

theorem NewTo.hasRecord_iff (h : NewTo log new) {type : WalRecordType}
    (htype : type = .beginTransaction ∨ type = .commitTransaction ∨ type = .abortTransaction)
    {r : WalRecord} (hr : r ∈ log) :
    HasRecord (log ++ new) type r.transactionId ↔ HasRecord log type r.transactionId := by
  rw [hasRecord_append]
  constructor
  · rintro (hlog | ⟨q, hq, rfl, hid⟩)
    · exact hlog
    · exact absurd hid.symm (h q hq htype r hr)
  · exact .inl

theorem NewTo.redoSkips_eq (h : NewTo log new) {r : WalRecord} (hr : r ∈ log) :
    redoSkips (log ++ new) r = redoSkips log r := by
  have hb := h.hasRecord_iff (.inl rfl) hr
  have hc := h.hasRecord_iff (.inr (.inl rfl)) hr
  have ha := h.hasRecord_iff (.inr (.inr rfl)) hr
  rw [Bool.eq_iff_iff]
  simp only [redoSkips, Bool.and_eq_true, List.contains_eq_mem, mem_transactionsWith, mem_losersOf,
    Active, Committed, Aborted, hb, hc, ha, Bool.not_eq_true', decide_eq_false_iff_not]

theorem NewTo.redone_append (h : NewTo log new) :
    redone (log ++ new) = redone log ++ new.filter (!redoSkips (log ++ new) ·) := by
  rw [redone, List.filter_append, redone]
  congr 1
  exact List.filter_congr fun r hr => by rw [h.redoSkips_eq hr]

theorem NewTo.undone_append (h : NewTo log new) : undone (log ++ new) =
    (new.reverse.filter fun r => (losersOf (log ++ new)).contains r.transactionId) ++
      undone log := by
  rw [undone, List.reverse_append, List.filter_append, undone]
  congr 1
  refine List.filter_congr fun r hr => ?_
  have hr := List.mem_reverse.mp hr
  have hb := h.hasRecord_iff (.inl rfl) hr
  have hc := h.hasRecord_iff (.inr (.inl rfl)) hr
  have ha := h.hasRecord_iff (.inr (.inr rfl)) hr
  rw [Bool.eq_iff_iff]
  simp only [List.contains_eq_mem, decide_eq_true_eq, mem_losersOf, Active, Committed, Aborted, hb,
    hc, ha]

variable {free : Prop} {d : Path} {s s' : Loc → Val Page}

/-- Where the replay of a log leaves nothing at `d`, a replay with the records of a new table at `d`
agrees with it apart from `d`. -/
theorem NewTo.replay_grown (h : NewTo log new) (hnew : ∀ r ∈ new, OfTable d r) (hs : Grown free d s s')
    (hv : ∀ r ∈ new, r.directory ≠ none → free ∧
      Vacant d (Patch.play ((redone log).map (WalRecord.redoGuard contentView)) s))
    (hp : Patch.Playable (replayGuards contentView log) s) :
    Patch.Playable (replayGuards contentView (log ++ new)) s' ∧
      Grown free d (Patch.play (replayGuards contentView log) s)
        (Patch.play (replayGuards contentView (log ++ new)) s') := by
  rw [replayGuards, Patch.playable_append] at hp
  rw [replayGuards, replayGuards, h.redone_append, h.undone_append, List.map_append,
    List.map_append, Patch.playable_append, Patch.playable_append, Patch.playable_append,
    Patch.play_append, Patch.play_append, Patch.play_append, Patch.play_append, Patch.play_append]
  obtain ⟨hp1, hg1⟩ := hs.play (fun _ => rfl) hp.1
  obtain ⟨hp2, hg2⟩ := hg1.play_local (new.filter (!redoSkips (log ++ new) ·))
    (f := WalRecord.redoGuard contentView) fun r hr =>
      have hmem := List.mem_of_mem_filter hr
      ⟨(hnew r hmem).ready, (hnew r hmem).redoPatch.imp_right fun hl => ⟨hv r hmem hl.1, hl.2⟩⟩
  obtain ⟨hp3, hg3⟩ := hg2.play_local
    (new.reverse.filter fun r => (losersOf (log ++ new)).contains r.transactionId)
    (f := WalRecord.undoGuard contentView) fun r hr =>
      have hmem := List.mem_reverse.mp (List.mem_of_mem_filter hr)
      ⟨(hnew r hmem).ready, (hnew r hmem).undoPatch.imp_right fun hl => ⟨hv r hmem hl.1, hl.2⟩⟩
  obtain ⟨hp4, hg4⟩ := hg3.play (fun _ => rfl) hp.2
  exact ⟨⟨⟨hp1, hp2⟩, hp3, hp4⟩, hg4⟩

end Replay

namespace LoggedDatabase

/-! ## Steps of the statement -/

/-- The log of the database, if there is one, is open and recovered. -/
def Opened (s : LoggedDatabase) : Prop :=
  s.disk.fs.isDirectory s.directory = true → s.manager.isSome = true

/-- Nothing happens in `wal_manager` any more. -/
theorem walManager_opened {s : LoggedDatabase} (h : s.Opened) :
    walManager s = (.ok (s.disk.fs.isDirectory s.directory), s) := by
  rw [walManager, Prog.bind_ok (Prog.get_apply s)]
  cases hdir : s.disk.fs.isDirectory s.directory with
  | false => rfl
  | true => simp [h hdir]

theorem inTransaction_eq (s : LoggedDatabase) :
    inTransaction s = (.ok (decide (s.activeTransactionId ≠ 0)), s) := rfl

/-- The log has grown by records of a new table at `d`; the table is mentioned only where `free`. -/
def LogGrown (free : Prop) (d : Path) (log log' : List WalRecord) : Prop :=
  ∃ new, log' = log ++ new ∧ NewTo log new ∧
    ∀ q ∈ new, OfTable d q ∧ q.WellFormed ∧ (q.directory ≠ none → free)

theorem LogGrown.append {free : Prop} {d : Path} {log log' extra : List WalRecord}
    (h : LogGrown free d log log') (hnew : NewTo log extra)
    (hextra : ∀ q ∈ extra, OfTable d q ∧ q.WellFormed ∧ (q.directory ≠ none → free)) :
    LogGrown free d log (log' ++ extra) := by
  obtain ⟨new, rfl, hto, hof⟩ := h
  refine ⟨new ++ extra, List.append_assoc .., fun q hq => ?_, fun q hq => ?_⟩
  · exact (List.mem_append.mp hq).elim (hto q) (hnew q)
  · exact (List.mem_append.mp hq).elim (hof q) (hextra q)

/-- What the statement for a table at `d` has left of `s` so far. -/
structure Leaves (free : Prop) (d : Path) (s t : LoggedDatabase) : Prop where
  wal : LogGrown free d s.disk.wal t.disk.wal
  files : Grown free d s.view t.view
  active : t.activeTransactionId = s.activeTransactionId
  directory : t.directory = s.directory
  opened : t.Opened

section Leaves

variable {free : Prop} {d : Path} {s t u : LoggedDatabase}

theorem Leaves.refl (hs : s.Opened) : Leaves free d s s where
  wal := ⟨[], by simp, by simp [NewTo], by simp⟩
  files := .refl free d _
  active := rfl
  directory := rfl
  opened := hs

/-- Fields that neither the log nor the files know do not count. -/
theorem Leaves.congr (h : Leaves free d s t) (hdisk : u.disk = t.disk)
    (hactive : u.activeTransactionId = t.activeTransactionId)
    (hdirectory : u.directory = t.directory) (hmanager : u.manager.isSome = t.manager.isSome) :
    Leaves free d s u where
  wal := by rw [hdisk]; exact h.wal
  files := by unfold view; rw [hdisk]; exact h.files
  active := hactive.trans h.active
  directory := hdirectory.trans h.directory
  opened := by unfold Opened; rw [hdisk, hdirectory, hmanager]; exact h.opened

/-- One more record at the end of the log. -/
def withRecord (s : LoggedDatabase) (r : WalRecord) : LoggedDatabase :=
  { s with
    disk := { s.disk with wal := s.disk.wal ++ [r] }
    manager := some { s.manager.getD ⟨0, 0⟩ with lastLsn := s.lastLsn + 1 } }

theorem withManager_appendRecord (type : WalRecordType) (t : Nat) (file : Bytes) (k : Nat)
    (before after : Bytes) (ids : List Nat) (s : LoggedDatabase) :
    withManager (appendRecord type t file k before after ids) s = (.ok (s.lastLsn + 1),
      s.withRecord ⟨type, s.lastLsn + 1, t, k, file, before, after, ids⟩) := by
  simp only [withManager, appendRecord_eq]
  rfl

/-- Flushing changes nothing but the manager. -/
theorem withManager_flushThrough (lsn : Nat) (s : LoggedDatabase) :
    ∃ m, withManager (flushThrough lsn) s = (.ok true, { s with manager := some m }) := by
  simp only [withManager, flushThrough, Prog.bind_apply, Prog.get_apply]
  split
  · exact ⟨_, rfl⟩
  · exact ⟨_, rfl⟩

theorem Leaves.append (h : Leaves free d s t) {r : WalRecord} (hnew : NewTo s.disk.wal [r])
    (hr : OfTable d r) (hform : r.WellFormed) (hfree : r.directory ≠ none → free) :
    Leaves free d s (t.withRecord r) where
  wal := h.wal.append hnew fun q hq => by
    rw [List.mem_singleton.mp hq]
    exact ⟨hr, hform, hfree⟩
  files := h.files
  active := h.active
  directory := h.directory
  opened _ := rfl

/-- What `rollback_transaction` of the manager does when it can undo every record. -/
theorem rollbackTransaction_view (s : LoggedDatabase) {id : Nat} (hid : id ≠ 0)
    (hform : ∀ r ∈ s.disk.wal, r.WellFormed)
    (hp : Patch.Playable ((rolledBack id s.disk.wal).map (WalRecord.undoGuard contentView)) s.view) :
    ∃ u, withManager (WalManager.rollbackTransaction id) s = (.ok true, u) ∧
      u.view = Patch.play ((rolledBack id s.disk.wal).map (WalRecord.undoGuard contentView)) s.view ∧
      (∃ lsn, u.disk.wal = s.disk.wal ++ (compensations s.lastLsn (rolledBack id s.disk.wal) ++
        [abortRecord id lsn])) ∧
      u.activeTransactionId = s.activeTransactionId ∧ u.directory = s.directory ∧
      u.manager.isSome = true := by
  let w : World := ⟨s.disk, s.manager.getD ⟨0, 0⟩, []⟩
  have hview := view_rollback contentView (w := w) hid hform hp
  have hp' := (Effect.performable_iff contentView s.disk.fs (undoAll s.lastLsn _)).mpr
    ((playable_undoAll contentView _ s.lastLsn _).mpr hp)
  have hrun := rollbackTransaction_ok (w := w) hid hform hp'
  refine ⟨(withManager (WalManager.rollbackTransaction id) s).2, ?_, hview, ?_, rfl, rfl, rfl⟩
  · refine Prod.ext ?_ rfl
    show (WalManager.rollbackTransaction id w).1 = .ok true
    rw [hrun]
  · refine ⟨lsnAfterUndoAll s.lastLsn (rolledBack id s.disk.wal) + 1, ?_⟩
    show (WalManager.rollbackTransaction id w).2.disk.wal = _
    rw [hrun, World.flushed_disk, World.advance_wal, rollbackEffects, appended_append]
    rfl

/-- Undoing the transaction, whose records are all of the new table. -/
theorem Leaves.rollback (h : Leaves free d s t) (hform : ∀ r ∈ s.disk.wal, r.WellFormed)
    (hv : free → Vacant d s.view) {id : Nat} (hid : id ≠ 0)
    (hfresh : ∀ r ∈ s.disk.wal, r.transactionId ≠ id) :
    ∃ u, rollbackStatement id t = (.ok true, u) ∧ Leaves free d s u := by
  rw [rollbackStatement, Prog.bind_ok (walManager_opened h.opened)]
  cases hdir : t.disk.fs.isDirectory t.directory with
  | false => exact ⟨t, rfl, h⟩
  | true =>
    simp only [Bool.not_true, Bool.false_eq_true, if_false]
    obtain ⟨new, hwal, hto, hof⟩ := h.wal
    have hform' : ∀ r ∈ t.disk.wal, r.WellFormed := by
      rw [hwal]
      exact fun r hr => (List.mem_append.mp hr).elim (hform r) fun hr => (hof r hr).2.1
    have hown : ∀ r ∈ rolledBack id t.disk.wal, r ∈ new := by
      intro r hr
      obtain ⟨hr, hrid⟩ := mem_rolledBack.mp hr
      rw [hwal] at hr
      exact (List.mem_append.mp hr).resolve_left fun hr => hfresh r hr hrid
    obtain ⟨hplay, hgrown⟩ := h.files.play_local (rolledBack id t.disk.wal)
      (f := WalRecord.undoGuard contentView) fun r hr =>
        have hofr := hof r (hown r hr)
        ⟨hofr.1.ready, hofr.1.undoPatch.imp_right fun hl => ⟨⟨hofr.2.2 hl.1, hv (hofr.2.2 hl.1)⟩, hl.2⟩⟩
    obtain ⟨u, hrun, hview, ⟨lsn, hwal'⟩, hactive, hdirectory, hopened⟩ :=
      rollbackTransaction_view t hid hform' hplay
    refine ⟨u, hrun, ?_, ?_, hactive.trans h.active, hdirectory.trans h.directory, fun _ => hopened⟩
    · rw [hwal']
      refine h.wal.append (fun q hq htype r hr => ?_) fun q hq => ?_
      · rcases List.mem_append.mp hq with hq | hq
        · -- a compensation neither begins nor ends a transaction
          obtain ⟨q', -, l, -, rfl⟩ := mem_compensations hq
          rcases compensation_type q' l with hc | hc | hc <;> rw [hc] at htype <;> simp at htype
        · rw [List.mem_singleton.mp hq]
          exact hfresh r hr
      · rcases List.mem_append.mp hq with hq | hq
        · obtain ⟨q', hq', l, hc, rfl⟩ := mem_compensations hq
          have hofq := hof q' (hown q' hq')
          obtain ⟨hcomp, hdir'⟩ := hofq.1.compensation hc l
          exact ⟨hcomp, compensation_wellFormed hofq.2.1 hc l, fun _ => hofq.2.2 hdir'⟩
        · rw [List.mem_singleton.mp hq]
          exact ⟨.inl (.inr (.inr rfl)), trivial, fun hdir' => absurd rfl hdir'⟩
    · rw [hview]
      exact hgrown

/-- `abort_statement`: in a transaction it only takes a note. -/
theorem Leaves.refuse (h : Leaves free d s t) (hform : ∀ r ∈ s.disk.wal, r.WellFormed)
    (hv : free → Vacant d s.view) {id : Nat} (hid : id ≠ 0)
    (hfresh : s.activeTransactionId = 0 → ∀ r ∈ s.disk.wal, r.transactionId ≠ id) :
    ∃ u, refuseTable id t = (.ok false, u) ∧ Leaves free d s u := by
  by_cases hactive : t.activeTransactionId = 0
  · obtain ⟨u, hrun, hu⟩ := h.rollback hform hv hid (hfresh (h.active.symm.trans hactive))
    have habort : abortStatement id t = (.ok true, u) := by
      rw [abortStatement, Prog.bind_ok (inTransaction_eq t)]
      simp only [hactive, ne_eq, not_true_eq_false, decide_false, Bool.false_eq_true, if_false]
      exact hrun
    exact ⟨u, by rw [refuseTable, Prog.bind_ok habort]; rfl, hu⟩
  · have habort : abortStatement id t = (.ok false,
        if t.activeTransactionId = id then { t with transactionAborted := true } else t) := by
      rw [abortStatement, Prog.bind_ok (inTransaction_eq t)]
      simp only [hactive, ne_eq, not_false_eq_true, decide_true, if_true]
      rfl
    refine ⟨_, by rw [refuseTable, Prog.bind_ok habort]; rfl, ?_⟩
    split
    · exact h.congr rfl rfl rfl rfl
    · exact h

section Steps

variable {root : Bytes} {new : NewTable} {answers : CreateAnswers}

theorem Leaves.catalog (h : Leaves free (pathOf (tableDirectory root new)) s t)
    (hv : free ∧ Vacant (pathOf (tableDirectory root new)) s.view) :
    ∃ b u, catalogCreateTable root new answers t = (.ok b, u) ∧
      Leaves free (pathOf (tableDirectory root new)) s u := by
  rw [catalogCreateTable, Prog.bind_ok (Prog.get_apply t)]
  split
  · exact ⟨_, t, rfl, h⟩
  · rename_i hmade
    have hmanager : t.manager.isSome = true := h.opened (by simp at hmade; exact hmade.1.1)
    refine ⟨_, _, Prog.bind_ok (Prog.modify_apply _ t), ?_⟩
    exact ⟨h.wal, .applyFsAll hv (local_effects _ _ _) h.files, h.active, h.directory,
      fun _ => hmanager⟩

theorem Leaves.finish (h : Leaves free d s t) {id : Nat} (hid : id ≠ 0) (logged : Bool)
    (hfresh : s.activeTransactionId = 0 → ∀ r ∈ s.disk.wal, r.transactionId ≠ id) :
    ∃ b u, createFinish answers logged id t = (.ok b, u) ∧ Leaves free d s u := by
  rw [createFinish, Prog.bind_ok (inTransaction_eq t)]
  by_cases hactive : t.activeTransactionId = 0
  · simp only [hactive, ne_eq, not_true_eq_false, decide_false, Bool.false_eq_true, if_false]
    by_cases hrefused : (logged && !answers.commits) = true
    · exact ⟨false, t, by rw [if_pos hrefused]; rfl, h⟩
    · rw [if_neg hrefused, commitStatement, Prog.bind_ok (Prog.get_apply t),
        if_neg (by rw [hactive]; exact fun hno => hid hno.1.symm),
        Prog.bind_ok (walManager_opened h.opened)]
      cases hdir : t.disk.fs.isDirectory t.directory with
      | false => exact ⟨true, t, rfl, h⟩
      | true =>
        simp only [Bool.not_true, Bool.false_eq_true, if_false]
        rw [WalManager.commitTransaction, Prog.bind_ok (withManager_appendRecord ..)]
        have hcommit := h.append (r := ⟨.commitTransaction, t.lastLsn + 1, id, noPageId, [], [], [], []⟩)
          (fun q hq _ r hr => by
            rw [List.mem_singleton.mp hq]
            exact hfresh (h.active.symm.trans hactive) r hr)
          (.inl (.inr (.inl rfl))) trivial fun hno => absurd rfl hno
        rw [if_neg (Nat.succ_ne_zero _)]
        obtain ⟨m, hflush⟩ := withManager_flushThrough (t.lastLsn + 1) (t.withRecord _)
        exact ⟨true, _, hflush, hcommit.congr rfl rfl rfl rfl⟩
  · exact ⟨true, t, by simp [hactive], h⟩

theorem Leaves.begin (h : Leaves free d s t) (answers : CreateAnswers) (id : Nat) (called : Bool)
    (hfresh : called = true → ∀ r ∈ s.disk.wal, r.transactionId ≠ id) :
    ∃ b u, createBeginRefused answers called id t = (.ok b, u) ∧ Leaves free d s u ∧
      u.disk.fs = t.disk.fs := by
  unfold createBeginRefused
  cases called with
  | false => exact ⟨false, t, rfl, h, rfl⟩
  | true =>
    cases answers.begins with
    | false => exact ⟨true, t, rfl, h, rfl⟩
    | true =>
      refine ⟨_, _, Prog.bind_ok (withManager_appendRecord ..), h.append (fun q hq _ r hr => ?_)
        (.inl (.inl rfl)) trivial fun hno => absurd rfl hno, rfl⟩
      rw [List.mem_singleton.mp hq]
      exact hfresh rfl r hr

theorem Leaves.log (h : Leaves free (pathOf (tableDirectory root new)) s t) (id : Nat)
    (logged : Bool) (hreach : answers.logs = true → free) :
    ∃ b u, createLogRefused root new answers logged id t = (.ok b, u) ∧
      Leaves free (pathOf (tableDirectory root new)) s u ∧ u.disk.fs = t.disk.fs ∧
      (b = false → logged = true → free) := by
  unfold createLogRefused
  cases logged with
  | false => exact ⟨false, t, rfl, h, rfl, fun _ hno => by cases hno⟩
  | true =>
    cases hlogs : answers.logs with
    | false => exact ⟨true, t, rfl, h, rfl, fun hno => by cases hno⟩
    | true =>
      refine ⟨_, _, Prog.bind_ok (withManager_appendRecord ..), h.append (fun q hq htype => ?_)
        (.inr ⟨.inl rfl, rfl⟩) ?_ fun _ => hreach hlogs, rfl, fun _ _ => hreach hlogs⟩
      · rw [List.mem_singleton.mp hq] at htype
        rcases htype with htype | htype | htype <;> cases htype
      · simp [WalRecord.WellFormed, tableDirectory, joinPath]

/-- `create_table` once it has its id: where it reaches the catalog, nothing is at `d`. -/
theorem Leaves.create
    (h : Leaves free (pathOf (tableDirectory root new)) s t)
    (hform : ∀ r ∈ s.disk.wal, r.WellFormed)
    (hv : free → Vacant (pathOf (tableDirectory root new)) s.view) {id : Nat} (hid : id ≠ 0)
    (hfresh : s.activeTransactionId = 0 → ∀ r ∈ s.disk.wal, r.transactionId ≠ id)
    (hreach : answers.logs = true → free) :
    ∃ b u, logAndCreateTable root new answers (t.disk.fs.isDirectory t.directory) id t = (.ok b, u) ∧
      Leaves free (pathOf (tableDirectory root new)) s u := by
  rw [logAndCreateTable, Prog.bind_ok (inTransaction_eq t)]
  obtain ⟨refused, t1, hbegin, h1, hfs1⟩ := h.begin answers id
    (!decide (t.activeTransactionId ≠ 0) && t.disk.fs.isDirectory t.directory) fun hcalled =>
      hfresh (h.active ▸ by simpa using (Bool.and_eq_true_iff.mp hcalled).1)
  rw [Prog.bind_ok hbegin]
  cases refused with
  | true => exact ⟨false, t1, rfl, h1⟩
  | false =>
    rw [if_neg Bool.false_ne_true]
    obtain ⟨refused, t2, hlog, h2, hfs2, hfree⟩ := h1.log id
      (t.disk.fs.isDirectory t.directory) hreach
    rw [Prog.bind_ok hlog]
    have hrefuse := fun {u} (hu : Leaves free (pathOf (tableDirectory root new)) s u) =>
      hu.refuse hform hv hid hfresh
    cases refused with
    | true =>
      obtain ⟨u, hrun, hu⟩ := hrefuse h2
      exact ⟨false, u, hrun, hu⟩
    | false =>
      rw [if_neg Bool.false_ne_true]
      obtain ⟨made, t3, hcatalog, h3⟩ : ∃ b u, catalogCreateTable root new answers t2 = (.ok b, u) ∧
          Leaves free (pathOf (tableDirectory root new)) s u := by
        cases hdir : t.disk.fs.isDirectory t.directory with
        | true => exact h2.catalog ⟨hfree rfl hdir, hv (hfree rfl hdir)⟩
        | false =>
          -- without a database directory the catalog refuses at once
          have hdir2 : t2.disk.fs.isDirectory t2.directory = false := by
            rw [hfs2, hfs1, h2.directory, ← h.directory, hdir]
          refine ⟨false, t2, ?_, h2⟩
          rw [catalogCreateTable, Prog.bind_ok (Prog.get_apply t2),
            if_pos (by simp [hdir2])]
          rfl
      rw [Prog.bind_ok hcatalog]
      cases made with
      | true => exact h3.finish hid _ hfresh
      | false =>
        obtain ⟨u, hrun, hu⟩ := hrefuse h3
        exact ⟨false, u, hrun, hu⟩

end Steps

end Leaves

/-! ## The call -/

/-- What holds of a `Database` object between calls. -/
structure Sound (s : LoggedDatabase) : Prop where
  opened : s.Opened
  counter : 0 < s.nextTransactionId
  wellFormed : ∀ r ∈ s.disk.wal, r.WellFormed

/-- The id that the next statement gets. -/
def statementId (s : LoggedDatabase) : Nat :=
  if s.activeTransactionId ≠ 0 then s.activeTransactionId else s.nextTransactionId

/-- The lock is refused, or there is nothing to log to, or no transaction can be begun. -/
def RefusedEarly (s : LoggedDatabase) (answers : CreateAnswers) : Prop :=
  s.activeTransactionId ≠ 0 ∧ (s.transactionAborted = true ∨ answers.granted = false) ∨
    s.disk.fs.isDirectory s.directory = false ∨
    s.activeTransactionId = 0 ∧ answers.begins = false

/-- Outside a transaction the statement gets an id that the log does not know. -/
def IdUnused (s : LoggedDatabase) : Prop :=
  s.activeTransactionId = 0 → ∀ r ∈ s.disk.wal, r.transactionId ≠ s.nextTransactionId

/-- Nothing is at the path of the new table, nor when the log is replayed. -/
def PathFree (s : LoggedDatabase) (d : Path) : Prop :=
  Vacant d s.view ∧
    Vacant d (Patch.play ((redone s.disk.wal).map (WalRecord.redoGuard contentView)) s.view)

/-- When a `create_table` that returns false is sure to do no harm. -/
def SafeToRefuse (root : Bytes) (new : NewTable) (answers : CreateAnswers) (s : LoggedDatabase) :
    Prop :=
  s.RefusedEarly answers ∨
    s.IdUnused ∧ (answers.logs = false ∨ s.PathFree (pathOf (tableDirectory root new)))

section Call

variable {free : Prop} {d : Path} {s : LoggedDatabase} {root : Bytes} {new : NewTable}
  {answers : CreateAnswers}

theorem currentTransactionId_eq (s : LoggedDatabase) :
    ∃ t, currentTransactionId s = (.ok s.statementId, t) ∧ t.disk = s.disk ∧
      t.activeTransactionId = s.activeTransactionId ∧ t.directory = s.directory ∧
      t.manager = s.manager := by
  rw [currentTransactionId, Prog.bind_ok (Prog.get_apply s)]
  unfold statementId
  split
  · exact ⟨s, rfl, rfl, rfl, rfl, rfl⟩
  · exact ⟨_, rfl, rfl, rfl, rfl, rfl⟩

theorem Sound.statementId_ne_zero (hs : s.Sound) : s.statementId ≠ 0 := by
  unfold statementId
  split
  · assumption
  · exact hs.counter.ne'

variable (root new answers) in
/-- A call that gets its lock logs under the next id. -/
theorem databaseCreateTable_eq (hs : s.Opened)
    (hlock : s.activeTransactionId = 0 ∨ s.transactionAborted = false ∧ answers.granted = true) :
    ∃ t, databaseCreateTable root new answers s =
        logAndCreateTable root new answers (t.disk.fs.isDirectory t.directory) s.statementId t ∧
      t.disk = s.disk ∧ t.activeTransactionId = s.activeTransactionId ∧
      t.directory = s.directory ∧ t.manager = s.manager := by
  obtain ⟨t, hid, hdisk, hactive, hdirectory, hmanager⟩ := currentTransactionId_eq s
  refine ⟨t, ?_, hdisk, hactive, hdirectory, hmanager⟩
  have hacquire : acquireTransactionLock answers.granted s = (.ok true, s) := by
    rw [acquireTransactionLock, Prog.bind_ok (Prog.get_apply s)]
    rcases hlock with h | ⟨h, h'⟩
    · rw [if_pos h]
      rfl
    · simp only [h, h', Bool.false_eq_true, if_false]
      split <;> rfl
  rw [databaseCreateTable, Prog.bind_ok hacquire, if_neg (by simp),
    Prog.bind_ok (walManager_opened hs), Prog.bind_ok hid, hdisk, hdirectory]

/-- Nothing that counts has changed. -/
structure Untouched (s t : LoggedDatabase) : Prop where
  disk : t.disk = s.disk
  active : t.activeTransactionId = s.activeTransactionId
  directory : t.directory = s.directory
  manager : t.manager.isSome = s.manager.isSome

variable (root new answers) in
/-- Without the directory of the database nothing is logged or made. -/
theorem logAndCreateTable_unlogged {t : LoggedDatabase} (ht : t.Opened)
    (hdir : t.disk.fs.isDirectory t.directory = false) (id : Nat) :
    ∃ u, logAndCreateTable root new answers false id t = (.ok false, u) ∧ Untouched t u := by
  have hbegin : createBeginRefused answers (!decide (t.activeTransactionId ≠ 0) && false) id t =
      (.ok false, t) := by simp [createBeginRefused]
  have hcatalog : catalogCreateTable root new answers t = (.ok false, t) := by
    rw [catalogCreateTable, Prog.bind_ok (Prog.get_apply t), if_pos (by simp [hdir])]
    rfl
  have habort : ∃ b u, abortStatement id t = (.ok b, u) ∧ Untouched t u := by
    rw [abortStatement, Prog.bind_ok (inTransaction_eq t)]
    split
    · refine ⟨_, _, rfl, ?_⟩
      dsimp only
      split <;> exact ⟨rfl, rfl, rfl, rfl⟩
    · rw [rollbackStatement, Prog.bind_ok (walManager_opened ht), hdir]
      exact ⟨true, t, rfl, rfl, rfl, rfl, rfl⟩
  obtain ⟨b, u, habort, hu⟩ := habort
  refine ⟨u, ?_, hu⟩
  rw [logAndCreateTable, Prog.bind_ok (inTransaction_eq t), Prog.bind_ok hbegin, if_neg (by simp),
    Prog.bind_ok (show createLogRefused root new answers false id t = (.ok false, t) from rfl),
    if_neg (by simp), Prog.bind_ok hcatalog, if_pos (by simp), refuseTable, Prog.bind_ok habort]
  rfl

variable (root new) in
theorem databaseCreateTable_early (hs : s.Opened) (h : s.RefusedEarly answers) :
    ∃ t, databaseCreateTable root new answers s = (.ok false, t) ∧ Untouched s t := by
  by_cases hlock : s.activeTransactionId = 0 ∨
      s.transactionAborted = false ∧ answers.granted = true
  · obtain ⟨t, hrun, hdisk, hactive, hdirectory, hmanager⟩ :=
      databaseCreateTable_eq root new answers hs hlock
    have ht : t.Opened := by
      unfold Opened
      rw [hdisk, hdirectory, hmanager]
      exact hs
    rw [hrun]
    cases hdir : t.disk.fs.isDirectory t.directory with
    | false =>
      obtain ⟨u, hrun', hu⟩ := logAndCreateTable_unlogged root new answers ht hdir s.statementId
      exact ⟨u, hrun', hu.disk.trans hdisk, hu.active.trans hactive, hu.directory.trans hdirectory,
        hu.manager.trans (by rw [hmanager])⟩
    | true =>
      have hbegins : t.activeTransactionId = 0 ∧ answers.begins = false := by
        rcases h with ⟨hne, h⟩ | h | h
        · rcases hlock with hz | ⟨ha, hg⟩
          · exact absurd hz hne
          · rw [ha, hg] at h
            simp at h
        · rw [hdisk, hdirectory, h] at hdir
          cases hdir
        · exact ⟨hactive.trans h.1, h.2⟩
      have hbegin : createBeginRefused answers (!decide (t.activeTransactionId ≠ 0) && true)
          s.statementId t = (.ok true, t) := by
        simp [createBeginRefused, hbegins]
      refine ⟨t, ?_, hdisk, hactive, hdirectory, by rw [hmanager]⟩
      rw [logAndCreateTable, Prog.bind_ok (inTransaction_eq t), Prog.bind_ok hbegin]
      rfl
  · have hacquire : acquireTransactionLock answers.granted s = (.ok false, s) := by
      obtain ⟨hne, hno⟩ := not_or.mp hlock
      rw [acquireTransactionLock, Prog.bind_ok (Prog.get_apply s), if_neg hne]
      split
      · rfl
      · rename_i haborted
        have hgranted : answers.granted = false := by simpa [haborted] using hno
        rw [hgranted]
        rfl
    refine ⟨s, ?_, rfl, rfl, rfl, rfl⟩
    rw [databaseCreateTable, Prog.bind_ok hacquire]
    rfl

/-- What a call leaves that is safe to refuse. -/
theorem leaves_databaseCreateTable (hs : s.Sound) (h : s.SafeToRefuse root new answers) :
    ∃ b t, databaseCreateTable root new answers s = (.ok b, t) ∧
      Leaves (s.PathFree (pathOf (tableDirectory root new))) (pathOf (tableDirectory root new)) s
        t := by
  by_cases hearly : s.RefusedEarly answers
  · obtain ⟨t, hrun, ht⟩ := databaseCreateTable_early root new hs.opened hearly
    exact ⟨false, t, hrun, (Leaves.refl hs.opened).congr ht.disk ht.active ht.directory ht.manager⟩
  · obtain ⟨hunused, hpath⟩ := h.resolve_left hearly
    obtain ⟨t, hrun, hdisk, hactive, hdirectory, hmanager⟩ :=
      databaseCreateTable_eq root new answers hs.opened (by
        unfold RefusedEarly at hearly
        cases hlock : answers.granted <;> cases habort : s.transactionAborted <;>
          simp_all)
    rw [hrun]
    refine Leaves.create ((Leaves.refl hs.opened).congr hdisk hactive hdirectory (by rw [hmanager]))
      hs.wellFormed And.left hs.statementId_ne_zero (fun hzero r hr => ?_) fun hlogs => ?_
    · have hid : s.statementId = s.nextTransactionId := if_neg (by simpa using hzero)
      rw [hid]
      exact hunused hzero r hr
    · exact hpath.resolve_left (by simp [hlogs])

end Call

/-! ## Harm -/

/-- A table is at directory `d`. -/
structure TableAt (d : Path) (v : Loc → Val Page) : Prop where
  directory : v (.directory d) = .present true
  schema : ∃ t, v (.text (d ++ [schemaFileName])) = .text (some t)
  rows : v (.file (d ++ [tableFileName])) = .present true

/-- Every table of `v` has in `after` the schema, the rows and the index pages that it has in
`before`. -/
def SameTables (root : Path) (v before after : Loc → Val Page) : Prop :=
  ∀ name, TableAt (root ++ [name]) v → ∀ k, root ++ [name] <+: k.path → after k = before k

/-- The call that led from `s` to `t` has harmed no table: they are as before, a `ROLLBACK` of the
enclosing transaction gives what it would have given without the call, and so does recovery. -/
structure Harmless (root : Path) (s t : LoggedDatabase) : Prop where
  now : SameTables root s.view s.view t.view
  rollback : s.activeTransactionId ≠ 0 → s.rolledBackState.1 = .ok true →
    t.rolledBackState.1 = .ok true ∧
      SameTables root s.view s.rolledBackState.2.view t.rolledBackState.2.view
  recovery : s.recovered.1 = .ok true →
    t.recovered.1 = .ok true ∧
      SameTables root s.view (s.recovered.2.disk.fs.view contentView)
        (t.recovered.2.disk.fs.view contentView)

section Harm

variable {free : Prop} {root : Path} {name : Bytes} {s t : LoggedDatabase}
  {v before after : Loc → Val Page}

/-- Two directories of tables are the same or apart. -/
theorem sameTables_of_grown (h : Grown free (root ++ [name]) before after)
    (hv : free → Vacant (root ++ [name]) v) : SameTables root v before after := by
  intro name' htable k hk
  refine (h k).resolve_right ?_
  rintro ⟨hfree, hnear, -⟩
  have hsame : root ++ [name'] = root ++ [name] := by
    have hlen : (root ++ [name']).length = (root ++ [name]).length := by simp
    rcases hnear with hnear | hnear
    · exact (List.prefix_of_prefix_length_le hk hnear hlen.le).eq_of_length hlen
    · exact (hk.trans hnear).eq_of_length hlen
  have hdir := htable.directory
  rw [hsame, hv hfree (.directory (root ++ [name])) (List.prefix_refl _)] at hdir
  cases hdir

/-- What `ROLLBACK` does, where there is a log. -/
theorem rolledBackState_iff (hopened : s.Opened) (hform : ∀ r ∈ s.disk.wal, r.WellFormed)
    (hactive : s.activeTransactionId ≠ 0)
    (hdir : s.disk.fs.isDirectory s.directory = true) :
    (s.rolledBackState.1 = .ok true ↔
      Patch.Playable ((rolledBack s.activeTransactionId s.disk.wal).map
        (WalRecord.undoGuard contentView)) s.view) ∧
    (s.rolledBackState.1 = .ok true → s.rolledBackState.2.view =
      Patch.play ((rolledBack s.activeTransactionId s.disk.wal).map
        (WalRecord.undoGuard contentView)) s.view) := by
  have hrun : s.rolledBackState =
      withManager (WalManager.rollbackTransaction s.activeTransactionId) s := by
    rw [rolledBackState, rollbackStatement, Prog.bind_ok (walManager_opened hopened), hdir]
    rfl
  have hiff := rollback_true_iff contentView (w := ⟨s.disk, s.manager.getD ⟨0, 0⟩, []⟩) hactive hform
  rw [hrun]
  refine ⟨hiff, fun h => ?_⟩
  obtain ⟨u, hu, hview, -⟩ := rollbackTransaction_view s hactive hform (hiff.mp h)
  rw [hu]
  exact hview

theorem Leaves.wellFormed {d : Path} (h : Leaves free d s t)
    (hform : ∀ r ∈ s.disk.wal, r.WellFormed) : ∀ r ∈ t.disk.wal, r.WellFormed := by
  obtain ⟨new, hwal, -, hof⟩ := h.wal
  rw [hwal]
  exact fun r hr => (List.mem_append.mp hr).elim (hform r) fun hr => (hof r hr).2.1

theorem Leaves.harmless (h : Leaves (s.PathFree (root ++ [name])) (root ++ [name]) s t)
    (hs : s.Sound)
    (hdir : t.disk.fs.isDirectory t.directory = s.disk.fs.isDirectory s.directory) :
    Harmless root s t := by
  have hform := h.wellFormed hs.wellFormed
  obtain ⟨new, hwal, hto, hof⟩ := h.wal
  refine ⟨sameTables_of_grown h.files And.left, fun hactive hback => ?_, fun hrec => ?_⟩
  · have hactive' : t.activeTransactionId ≠ 0 := h.active ▸ hactive
    cases hlog : s.disk.fs.isDirectory s.directory with
    | false =>
      have hnone : ∀ u : LoggedDatabase, u.Opened → u.disk.fs.isDirectory u.directory = false →
          u.rolledBackState = (.ok true, u) := by
        intro u hu hno
        rw [rolledBackState, rollbackStatement, Prog.bind_ok (walManager_opened hu), hno]
        rfl
      rw [hnone s hs.opened hlog, hnone t h.opened (hdir.trans hlog)]
      exact ⟨rfl, sameTables_of_grown h.files And.left⟩
    | true =>
      obtain ⟨hiff, hview⟩ := rolledBackState_iff hs.opened hs.wellFormed hactive hlog
      obtain ⟨hiff', hview'⟩ := rolledBackState_iff h.opened hform hactive' (hdir.trans hlog)
      -- the records of the call are undone first
      have hsplit : rolledBack t.activeTransactionId t.disk.wal =
          rolledBack s.activeTransactionId new ++ rolledBack s.activeTransactionId s.disk.wal := by
        rw [h.active, hwal, rolledBack, List.reverse_append, List.filter_append]
        rfl
      obtain ⟨hp, hg⟩ := h.files.play_local (rolledBack s.activeTransactionId new)
        (f := WalRecord.undoGuard contentView) fun r hr =>
          have hofr := hof r (mem_rolledBack.mp hr).1
          ⟨hofr.1.ready, hofr.1.undoPatch.imp_right fun hl =>
            ⟨⟨hofr.2.2 hl.1, (hofr.2.2 hl.1).1⟩, hl.2⟩⟩
      obtain ⟨hp', hg'⟩ := hg.play (fun _ => rfl) (hiff.mp hback)
      have htrue : t.rolledBackState.1 = .ok true := by
        rw [hiff', hsplit, List.map_append, Patch.playable_append]
        exact ⟨hp, hp'⟩
      refine ⟨htrue, ?_⟩
      rw [hview hback, hview' htrue, hsplit, List.map_append, Patch.play_append]
      exact sameTables_of_grown hg' And.left
  · have hp := (recover_true_iff contentView (w := reopen s.disk) hs.wellFormed).mp hrec
    obtain ⟨hp', hg⟩ := hto.replay_grown (fun r hr => (hof r hr).1) h.files
      (fun r hr hne => ⟨(hof r hr).2.2 hne, ((hof r hr).2.2 hne).2⟩) hp
    have hp' : Patch.Playable (replayGuards contentView t.disk.wal) t.view := by
      rw [hwal]
      exact hp'
    refine ⟨(recover_true_iff contentView (w := reopen t.disk) hform).mpr hp', ?_⟩
    have hafter := view_recover contentView (w := reopen s.disk) hs.wellFormed hp
    have hafter' := view_recover contentView (w := reopen t.disk) hform hp'
    rw [recovered, recovered, hafter, hafter']
    show SameTables root s.view (Patch.play (replayGuards contentView s.disk.wal) s.view)
      (Patch.play (replayGuards contentView t.disk.wal) t.view)
    rw [hwal]
    exact sameTables_of_grown hg And.left

end Harm

/-! ## The refusal of a taken name -/

/-- The call gets as far as the catalog, and a table has the name. The enclosing transaction can be
rolled back and has no record of the table. -/
structure LosesTable (root : Bytes) (new : NewTable) (answers : CreateAnswers) (s : LoggedDatabase) :
    Prop where
  goesOn : ¬s.RefusedEarly answers
  logs : answers.logs = true
  unused : s.IdUnused
  table : TableAt (pathOf (tableDirectory root new)) s.view
  transaction : s.activeTransactionId ≠ 0 → s.rolledBackState.1 = .ok true ∧
    ∀ r ∈ s.disk.wal, r.transactionId = s.activeTransactionId → ∀ e ∈ r.directory,
      ¬pathOf (tableDirectory root new) <+: e ∧ ¬e <+: pathOf (tableDirectory root new)

section Taken

variable {root : Bytes} {new : NewTable} {answers : CreateAnswers} {s : LoggedDatabase}

def beginRecord (id lsn : Nat) : WalRecord := ⟨.beginTransaction, lsn, id, noPageId, [], [], [], []⟩

def createRecord (root : Bytes) (new : NewTable) (id lsn : Nat) : WalRecord :=
  ⟨.createTable, lsn, id, noPageId, tableDirectory root new, [], new.schemaText, []⟩

/-- The record is in the log when the catalog finds the name taken. -/
theorem LosesTable.run (h : s.LosesTable root new answers) (hs : s.Sound) :
    ∃ t lsn lsn', databaseCreateTable root new answers s = refuseTable s.statementId t ∧
      t.disk.fs = s.disk.fs ∧
      t.disk.wal = s.disk.wal ++ ((if s.activeTransactionId = 0 then
        [beginRecord s.statementId lsn] else []) ++ [createRecord root new s.statementId lsn']) ∧
      t.activeTransactionId = s.activeTransactionId ∧ t.directory = s.directory ∧
      t.manager.isSome = true := by
  obtain ⟨t, hrun, hdisk, hactive, hdirectory, hmanager⟩ :=
    databaseCreateTable_eq root new answers hs.opened (by
      have hgo := h.goesOn
      unfold RefusedEarly at hgo
      cases hlock : answers.granted <;> cases habort : s.transactionAborted <;> simp_all)
  have hdir : s.disk.fs.isDirectory s.directory = true := by
    by_contra hno
    exact h.goesOn (.inr (.inl (by simpa using hno)))
  have hdir' : t.disk.fs.isDirectory t.directory = true := by rw [hdisk, hdirectory, hdir]
  -- the begin record
  obtain ⟨u, lsn, hbegin, hfs, hwal, hactive', hdirectory'⟩ : ∃ u lsn,
      createBeginRefused answers (!decide (t.activeTransactionId ≠ 0) && true) s.statementId t =
        (.ok false, u) ∧ u.disk.fs = t.disk.fs ∧
      u.disk.wal = t.disk.wal ++ (if s.activeTransactionId = 0 then
        [beginRecord s.statementId lsn] else []) ∧
      u.activeTransactionId = t.activeTransactionId ∧ u.directory = t.directory := by
    by_cases hzero : s.activeTransactionId = 0
    · have hbegins : answers.begins = true := by
        by_contra hno
        exact h.goesOn (.inr (.inr ⟨hzero, by simpa using hno⟩))
      refine ⟨t.withRecord (beginRecord s.statementId (t.lastLsn + 1)), t.lastLsn + 1, ?_, rfl, ?_,
        rfl, rfl⟩
      · rw [hactive, hzero]
        simp only [createBeginRefused, hbegins, ne_eq, not_true_eq_false, decide_false,
          Bool.not_false, Bool.and_true, Bool.not_true, Bool.false_eq_true, if_false, beginRefused,
          if_true]
        exact Prog.bind_ok (withManager_appendRecord ..)
      · rw [if_pos hzero]
        rfl
    · refine ⟨t, 0, ?_, rfl, ?_, rfl, rfl⟩
      · simp [createBeginRefused, hactive, hzero]
      · rw [if_neg hzero, List.append_nil]
  have hlog : createLogRefused root new answers true s.statementId u =
      (.ok false, u.withRecord (createRecord root new s.statementId (u.lastLsn + 1))) := by
    simp only [createLogRefused, h.logs, Bool.not_true, Bool.false_eq_true, if_false]
    exact Prog.bind_ok (withManager_appendRecord ..)
  have hcatalog : ∀ w : LoggedDatabase, w.disk.fs = s.disk.fs →
      catalogCreateTable root new answers w = (.ok false, w) := by
    intro w hw
    have hexists : w.disk.fs.exists (pathOf (tableDirectory root new)) = true := by
      have hd := h.table.directory
      simp only [view, FileSystem.view_directory, Val.present.injEq] at hd
      simp [FileSystem.exists, hw, hd]
    rw [catalogCreateTable, Prog.bind_ok (Prog.get_apply w), if_pos (by simp [hexists])]
    rfl
  have hrefused := hcatalog (u.withRecord (createRecord root new s.statementId (u.lastLsn + 1)))
    (hfs.trans (by rw [hdisk]))
  refine ⟨u.withRecord (createRecord root new s.statementId (u.lastLsn + 1)), lsn, u.lastLsn + 1, ?_,
    ?_, ?_, hactive'.trans hactive, hdirectory'.trans hdirectory, rfl⟩
  · rw [hrun, hdir', logAndCreateTable, Prog.bind_ok (inTransaction_eq t), Prog.bind_ok hbegin,
      if_neg (by simp), Prog.bind_ok hlog, if_neg (by simp),
      Prog.bind_ok hrefused, if_pos (by simp)]
  · exact hfs.trans (by rw [hdisk])
  · show u.disk.wal ++ _ = _
    rw [hwal, hdisk, List.append_assoc]

/-- Undoing records of other directories leaves directory `d`. -/
theorem undo_elsewhere {d : Path} {rs : List WalRecord} (v : Loc → Val Page)
    (hrs : ∀ r ∈ rs, ∀ e ∈ r.directory, ¬d <+: e ∧ ¬e <+: d) :
    Patch.play (rs.map (WalRecord.undoGuard contentView)) v (.directory d) = v (.directory d) := by
  rw [Patch.play, Patch.applyAll_eq_last]
  refine Patch.apply_of_none (Patch.last_eq_none_iff.mpr fun p hp => ?_) v
  obtain ⟨g, hg, rfl⟩ := List.mem_map.mp hp
  obtain ⟨r, hr, rfl⟩ := List.mem_map.mp hg
  by_contra hne
  obtain ⟨w, hw⟩ := Option.ne_none_iff_exists'.mp hne
  obtain ⟨e, he, hwithin⟩ := undoPatch_within contentView (r := r) hw
  rcases hwithin with hwithin | ⟨-, x, hx, hwithin⟩
  · exact (hrs r hr e he).2 hwithin
  · cases hx
    exact (hrs r hr e he).1 hwithin

/-- Undoing the record of a new table removes the directory, whoever made it. -/
theorem undo_createRecord {id lsn : Nat} {rs : List WalRecord} (v : Loc → Val Page)
    (hrs : ∀ r ∈ rs, ∀ e ∈ r.directory, ¬pathOf (tableDirectory root new) <+: e ∧
      ¬e <+: pathOf (tableDirectory root new)) :
    Patch.play ((createRecord root new id lsn :: rs).map (WalRecord.undoGuard contentView)) v
      (.directory (pathOf (tableDirectory root new))) = .present false := by
  rw [List.map_cons, Patch.play_cons, undo_elsewhere _ hrs]
  refine Patch.apply_of_some ?_ v
  simp [WalRecord.undoGuard, WalRecord.undoPatch, createRecord, dropPatch, Loc.path, Loc.absent]

theorem tableDirectory_path (root : Bytes) (new : NewTable) :
    pathOf (tableDirectory root new) = pathOf root ++ [new.name] :=
  pathOf_joinPath root new.noSeparator

/-- Outside a transaction the directory is gone at once. -/
theorem LosesTable.not_harmless_autocommit (h : s.LosesTable root new answers) (hs : s.Sound)
    (hzero : s.activeTransactionId = 0) :
    (databaseCreateTable root new answers s).1 = .ok false ∧
      ¬Harmless (pathOf root) s (databaseCreateTable root new answers s).2 := by
  obtain ⟨t, lsn, lsn', hrun, hfs, hwal, hactive, hdirectory, hopened⟩ := h.run hs
  have hid : s.statementId = s.nextTransactionId := if_neg (by simpa using hzero)
  rw [if_pos hzero, List.singleton_append] at hwal
  have hform : ∀ r ∈ t.disk.wal, r.WellFormed := by
    rw [hwal]
    intro r hr
    rcases List.mem_append.mp hr with hr | hr
    · exact hs.wellFormed r hr
    · simp only [List.mem_cons, List.not_mem_nil, or_false] at hr
      rcases hr with rfl | rfl
      · trivial
      · simp [WalRecord.WellFormed, createRecord, tableDirectory, joinPath]
  have hback : rolledBack s.statementId t.disk.wal =
      [createRecord root new s.statementId lsn', beginRecord s.statementId lsn] := by
    have hnone : s.disk.wal.filter (·.transactionId == s.statementId) = [] :=
      List.filter_eq_nil_iff.mpr fun r hr => by simpa [hid] using h.unused hzero r hr
    rw [rolledBack_eq, hwal, List.filter_append, hnone]
    simp [createRecord, beginRecord]
  have hplay : Patch.Playable ((rolledBack s.statementId t.disk.wal).map
      (WalRecord.undoGuard contentView)) t.view := by
    rw [hback]
    exact ⟨fun hno => (by cases hno), fun hno => (by cases hno), trivial⟩
  obtain ⟨u, hu, hview, -⟩ := rollbackTransaction_view t hs.statementId_ne_zero hform hplay
  have habort : abortStatement s.statementId t = (.ok true, u) := by
    have hdir : t.disk.fs.isDirectory t.directory = true := by
      rw [hfs, hdirectory]
      by_contra hno
      exact h.goesOn (.inr (.inl (by simpa using hno)))
    rw [abortStatement, Prog.bind_ok (inTransaction_eq t), hactive, hzero, if_neg (by simp),
      rollbackStatement, Prog.bind_ok (walManager_opened fun _ => hopened), hdir]
    exact hu
  have hcall : databaseCreateTable root new answers s = (.ok false, u) := by
    rw [hrun, refuseTable, Prog.bind_ok habort]
    rfl
  rw [hcall]
  refine ⟨rfl, fun hharm => ?_⟩
  have hsame := hharm.now new.name (tableDirectory_path root new ▸ h.table)
    (.directory (pathOf root ++ [new.name])) (List.prefix_refl _)
  rw [hview, hback, ← tableDirectory_path, h.table.directory,
    undo_createRecord _ (by simp [beginRecord, WalRecord.directory])] at hsame
  cases hsame

/-- In a transaction the directory goes with the `ROLLBACK`. -/
theorem LosesTable.not_harmless_transaction (h : s.LosesTable root new answers) (hs : s.Sound)
    (hactive0 : s.activeTransactionId ≠ 0) :
    (databaseCreateTable root new answers s).1 = .ok false ∧
      ¬Harmless (pathOf root) s (databaseCreateTable root new answers s).2 := by
  obtain ⟨t, lsn, lsn', hrun, hfs, hwal, hactive, hdirectory, hopened⟩ := h.run hs
  have hid : s.statementId = s.activeTransactionId := if_pos hactive0
  rw [if_neg hactive0, List.nil_append] at hwal
  obtain ⟨hback, haway⟩ := h.transaction hactive0
  have hdir : s.disk.fs.isDirectory s.directory = true := by
    by_contra hno
    exact h.goesOn (.inr (.inl (by simpa using hno)))
  obtain ⟨u, hu⟩ : ∃ u, u = { t with transactionAborted := true } := ⟨_, rfl⟩
  have hcall : databaseCreateTable root new answers s = (.ok false, u) := by
    have habort : abortStatement s.statementId t = (.ok false, u) := by
      rw [abortStatement, Prog.bind_ok (inTransaction_eq t), hactive, if_pos (by simp [hactive0]), hu]
      simp [Prog.bind_apply, hactive, hid]
    rw [hrun, refuseTable, Prog.bind_ok habort]
    rfl
  have hform : ∀ r ∈ u.disk.wal, r.WellFormed := by
    rw [hu, hwal]
    intro r hr
    rcases List.mem_append.mp hr with hr | hr
    · exact hs.wellFormed r hr
    · rw [List.mem_singleton.mp hr]
      simp [WalRecord.WellFormed, createRecord, tableDirectory, joinPath]
  have hlist : rolledBack u.activeTransactionId u.disk.wal =
      createRecord root new s.statementId lsn' :: rolledBack s.activeTransactionId s.disk.wal := by
    rw [hu, rolledBack_eq, rolledBack_eq]
    simp [hwal, hactive, createRecord, hid]
  have haway' : ∀ r ∈ rolledBack s.activeTransactionId s.disk.wal, ∀ e ∈ r.directory,
      ¬pathOf (tableDirectory root new) <+: e ∧ ¬e <+: pathOf (tableDirectory root new) :=
    fun r hr => haway r (mem_rolledBack.mp hr).1 (mem_rolledBack.mp hr).2
  have hstate := (rolledBackState_iff hs.opened hs.wellFormed hactive0 hdir).2 hback
  have hstate' := (rolledBackState_iff (s := u) (by rw [hu]; exact fun _ => hopened) hform
    (by rw [hu]; exact hactive ▸ hactive0) (by rw [hu]; show t.disk.fs.isDirectory _ = _; rw [hfs]; exact hdirectory ▸ hdir)).2
  rw [hcall]
  refine ⟨rfl, fun hharm => ?_⟩
  obtain ⟨htrue, hsame⟩ := hharm.rollback hactive0 hback
  have hsame := hsame new.name (tableDirectory_path root new ▸ h.table)
    (.directory (pathOf root ++ [new.name])) (List.prefix_refl _)
  rw [hstate' htrue, hstate, hlist, ← tableDirectory_path, undo_createRecord _ haway',
    undo_elsewhere _ haway', h.table.directory] at hsame
  cases hsame

end Taken

/-! ## The results -/

section Results

variable (root : Bytes) (new : NewTable) (answers : CreateAnswers)

/-- A `create_table` harms no table if nothing is at the path of the new one, or if it is refused
before the record of the new table is in the log. If it finds a table there, which the enclosing
transaction has not written, then it returns false and that table is lost: at once, or with the
`ROLLBACK`. -/
theorem createTable_harmless {s : LoggedDatabase} (hs : s.Sound) :
    (s.SafeToRefuse root new answers →
      Harmless (pathOf root) s (databaseCreateTable root new answers s).2) ∧
    (s.LosesTable root new answers →
      (databaseCreateTable root new answers s).1 = .ok false ∧
        ¬Harmless (pathOf root) s (databaseCreateTable root new answers s).2) := by
  constructor
  · intro hsafe
    obtain ⟨b, t, hrun, hleaves⟩ := leaves_databaseCreateTable hs hsafe
    rw [tableDirectory_path] at hleaves
    rw [hrun]
    refine hleaves.harmless hs ?_
    by_cases hearly : s.RefusedEarly answers
    · obtain ⟨u, hrun', hu⟩ :=
        databaseCreateTable_early root new hs.opened hearly
      rw [hrun'] at hrun
      cases hrun
      rw [hu.disk, hu.directory]
    · have hdir : s.disk.fs.isDirectory s.directory = true := by
        by_contra hno
        exact hearly (.inr (.inl (by simpa using hno)))
      rw [hdir, hleaves.directory]
      have hview : s.view (.directory s.directory) = .present true := by
        rw [view, FileSystem.view_directory, hdir]
      have hgrown : t.view (.directory s.directory) = .present true := by
        rcases hleaves.files (.directory s.directory) with h | ⟨-, -, h⟩
        · rw [h, hview]
        · exact h _ rfl
      simpa [view] using hgrown
  · intro hloses
    by_cases hzero : s.activeTransactionId = 0
    · exact hloses.not_harmless_autocommit hs hzero
    · exact hloses.not_harmless_transaction hs hzero

/-- The database `d` with one table. -/
def smallDatabase (name : UInt8) : LoggedDatabase where
  disk :=
    { fs :=
        { isDirectory p := p = [[100]] || p = [[100], [name]]
          text p := if p = [[100], [name], schemaFileName] then some [115] else none
          pages p := if p = [[100], [name], tableFileName] then some [] else none }
      wal := [] }
  directory := [[100]]
  manager := some ⟨0, 0⟩

theorem sound_smallDatabase (name : UInt8) : (smallDatabase name).Sound :=
  ⟨fun _ => rfl, Nat.one_pos, by simp [smallDatabase]⟩

def tableT : NewTable where
  name := [116]
  noSeparator := by decide
  isValid := true
  schemaText := [120]

def allGranted : CreateAnswers := ⟨true, true, true, .made, true⟩

theorem pathOf_tableT : pathOf (tableDirectory [100] tableT) = [[100], [116]] := by decide

theorem vacant_smallDatabase : Vacant [[100], [116]] (smallDatabase 117).view := by
  intro k hk
  have hne : ∀ p : Path, [[100], [116]] <+: p → ∀ q, p ≠ [100] :: [117] :: q := by
    rintro p ⟨rest, rfl⟩ q
    simp
  have hroot : ∀ p : Path, [[100], [116]] <+: p → p ≠ [[100]] := by
    rintro p ⟨rest, rfl⟩
    simp
  cases k with
  | directory p => simp [view, smallDatabase, Loc.absent, hne p hk, hroot p hk]
  | text p => simp [view, FileSystem.view, smallDatabase, Loc.absent, hne p hk]
  | file p => simp [view, FileSystem.view, smallDatabase, Loc.absent, hne p hk]
  | page p j =>
    simp [view, smallDatabase, FileSystem.pageAt, Loc.absent, hne p hk]

theorem createTable_harmless_smallDatabase :
    Harmless (pathOf [100]) (smallDatabase 117)
      (databaseCreateTable [100] tableT { allGranted with files := .noTableFile }
        (smallDatabase 117)).2 := by
  refine (createTable_harmless [100] tableT { allGranted with files := .noTableFile }
    (sound_smallDatabase 117)).1 (.inr ⟨fun _ r hr => (by cases hr), .inr ?_⟩)
  rw [pathOf_tableT]
  exact ⟨vacant_smallDatabase, vacant_smallDatabase⟩

/-- `CREATE TABLE t` where `t` exists removes the table. -/
theorem createTable_removes_table :
    (databaseCreateTable [100] tableT allGranted (smallDatabase 116)).1 = .ok false ∧
      ¬Harmless (pathOf [100]) (smallDatabase 116)
        (databaseCreateTable [100] tableT allGranted (smallDatabase 116)).2 := by
  refine LosesTable.not_harmless_autocommit ⟨?_, rfl, fun _ r hr => (by cases hr), ?_,
    fun hno => absurd rfl hno⟩ (sound_smallDatabase 116) rfl
  · rintro (⟨h, -⟩ | h | ⟨-, h⟩)
    · exact h rfl
    · revert h
      decide
    · cases h
  · rw [pathOf_tableT]
    exact ⟨rfl, ⟨_, rfl⟩, rfl⟩

end Results

end LoggedDatabase

end ScratchDb
