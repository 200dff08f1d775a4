import ScratchDb.Recovery.Replay

/-!
# Log records as patches

What redo and undo of one record assign, and when they succeed: a page update
needs the directory of its file, every other record brings what it needs. The
loops of recovery then are lists of guarded patches.
-/

namespace ScratchDb

variable {V : Type} (E : PageView V)

/-! ## The four kinds of patches -/

/-- A page written to its file. -/
def pagePatch (file : Path) (k : Nat) (v : V) : Patch Loc (Val V)
  | .file p => if p = file then some (.present true) else none
  | .page p j => if p = file ∧ j = k then some (.page v) else none
  | _ => none

/-- A directory with its schema text. -/
def schemaPatch (d : Path) (t : Bytes) : Patch Loc (Val V)
  | .directory p => if p.isPrefixOf d then some (.present true) else none
  | .text p => if p = d ++ [schemaFileName] then some (.text (some t)) else none
  | _ => none

/-- A directory with its schema text and a table file. -/
def createPatch (d : Path) (t : Bytes) : Patch Loc (Val V)
  | .file p => if p = d ++ [tableFileName] then some (.present true) else none
  | loc => schemaPatch d t loc

/-- Everything under a directory gone. -/
def dropPatch (d : Path) : Patch Loc (Val V) := fun loc =>
  if d.isPrefixOf loc.path then some (loc.absent E) else none

namespace WalRecord

def redoPatch (r : WalRecord) : Patch Loc (Val V) :=
  match r.type with
  | .pageUpdate => pagePatch (pathOf r.tableFile) r.pageId
      (E.look (pathOf r.tableFile) (Page.ofImage r.afterImage))
  | .createTable => createPatch (pathOf r.tableFile) r.afterImage
  | .dropTable => dropPatch E (pathOf r.tableFile)
  | .schemaUpdate => schemaPatch (pathOf r.tableFile) r.afterImage
  | _ => Patch.skip

def undoPatch (r : WalRecord) : Patch Loc (Val V) :=
  match r.type with
  | .pageUpdate => pagePatch (pathOf r.tableFile) r.pageId
      (E.look (pathOf r.tableFile) (Page.ofImage r.beforeImage))
  | .createTable => dropPatch E (pathOf r.tableFile)
  | .schemaUpdate => schemaPatch (pathOf r.tableFile) r.beforeImage
  | _ => Patch.skip

/-- Redo and undo of the record succeed in this state. -/
def Ready (r : WalRecord) (s : Loc → Val V) : Prop :=
  r.type = .pageUpdate → Finds (pathOf r.tableFile) s

def redoGuard (r : WalRecord) : Patch.Guarded Loc (Val V) := ⟨r.Ready, r.redoPatch E⟩

def undoGuard (r : WalRecord) : Patch.Guarded Loc (Val V) := ⟨r.Ready, r.undoPatch E⟩

end WalRecord

/-! ## The effects behind them -/

theorem finds_in_directory {d : Path} {name : Bytes} {s : Loc → Val V}
    (h : s (.directory d) = .present true) : Finds (d ++ [name]) s :=
  Or.inr (by simpa using h)

theorem look_stamped (r : WalRecord) (image : Bytes) (lsn : Nat) :
    E.look (pathOf r.tableFile) (r.stamped image lsn) =
      E.look (pathOf r.tableFile) (Page.ofImage image) := by
  unfold WalRecord.stamped
  split
  · rename_i h
    exact E.look_setPageLsn _ _ _ h
  · rfl

theorem play_pageEffects (r : WalRecord) (image : Bytes) (lsn : Nat) (s : Loc → Val V) :
    Patch.play ((r.pageEffects image lsn).map (Effect.guarded E)) s =
      (pagePatch (pathOf r.tableFile) r.pageId
        (E.look (pathOf r.tableFile) (Page.ofImage image))).apply s := by
  have hlook := look_stamped E r image lsn
  funext loc
  cases loc with
  | file p =>
      by_cases hp : p = pathOf r.tableFile <;>
        simp [WalRecord.pageEffects, Patch.play, Patch.applyAll, Patch.apply, Effect.guarded,
          Effect.patch, pagePatch, hp]
  | page p j =>
      by_cases hp : p = pathOf r.tableFile ∧ j = r.pageId
      · obtain ⟨rfl, rfl⟩ := hp
        simp [WalRecord.pageEffects, Patch.play, Patch.applyAll, Patch.apply, Effect.guarded,
          Effect.patch, pagePatch, hlook]
      · simp [WalRecord.pageEffects, Patch.play, Patch.applyAll, Patch.apply, Effect.guarded,
          Effect.patch, pagePatch, hp]
  | _ => rfl

theorem playable_pageEffects (r : WalRecord) (image : Bytes) (lsn : Nat) (s : Loc → Val V) :
    Patch.Playable ((r.pageEffects image lsn).map (Effect.guarded E)) s ↔
      Finds (pathOf r.tableFile) s := by
  simp only [WalRecord.pageEffects, List.map_cons, List.map_nil, Patch.playable_cons,
    Effect.guarded, Effect.Ready, Patch.playable_nil, and_true]
  exact ⟨fun h => h.1, fun h => ⟨h, h⟩⟩

theorem createDirectories_directory (d : Path) (s : Loc → Val V) :
    ((Effect.createDirectories d).patch E).apply s (.directory d) = .present true := by
  simp [Effect.patch, Patch.apply]

theorem play_createEffects (r : WalRecord) (s : Loc → Val V) :
    Patch.play (r.createEffects.map (Effect.guarded E)) s =
      (createPatch (pathOf r.tableFile) r.afterImage).apply s := by
  funext loc
  cases loc with
  | directory p =>
      simp [WalRecord.createEffects, Patch.play, Patch.applyAll, Patch.apply, Effect.guarded,
        Effect.patch, createPatch, schemaPatch]
  | text p =>
      by_cases hp : p = pathOf r.tableFile ++ [schemaFileName] <;>
        simp [WalRecord.createEffects, Patch.play, Patch.applyAll, Patch.apply, Effect.guarded,
          Effect.patch, createPatch, schemaPatch, pathOf_schemaFile, hp]
  | file p =>
      simp [WalRecord.createEffects, Patch.play, Patch.applyAll, Patch.apply, Effect.guarded,
        Effect.patch, createPatch, pathOf_tableFile]
  | page p j => rfl

theorem play_schemaEffects (r : WalRecord) (t : Bytes) (s : Loc → Val V) :
    Patch.play ((r.schemaEffects t).map (Effect.guarded E)) s =
      (schemaPatch (pathOf r.tableFile) t).apply s := by
  funext loc
  cases loc with
  | directory p =>
      simp [WalRecord.schemaEffects, Patch.play, Patch.applyAll, Patch.apply, Effect.guarded,
        Effect.patch, schemaPatch]
  | text p =>
      by_cases hp : p = pathOf r.tableFile ++ [schemaFileName] <;>
        simp [WalRecord.schemaEffects, Patch.play, Patch.applyAll, Patch.apply, Effect.guarded,
          Effect.patch, schemaPatch, pathOf_schemaFile, hp]
  | _ => rfl

theorem playable_createEffects (r : WalRecord) (s : Loc → Val V) :
    Patch.Playable (r.createEffects.map (Effect.guarded E)) s := by
  have hdir := createDirectories_directory E (pathOf r.tableFile) s
  simp only [WalRecord.createEffects, pathOf_tableFile, pathOf_schemaFile, List.map_cons,
    List.map_nil, Patch.playable_cons, Effect.guarded, Effect.Ready, Patch.playable_nil, and_true,
    true_and]
  exact ⟨finds_in_directory hdir, finds_in_directory hdir, finds_in_directory hdir⟩

theorem playable_schemaEffects (r : WalRecord) (t : Bytes) (s : Loc → Val V) :
    Patch.Playable ((r.schemaEffects t).map (Effect.guarded E)) s := by
  have hdir := createDirectories_directory E (pathOf r.tableFile) s
  simp only [WalRecord.schemaEffects, pathOf_schemaFile, List.map_cons, List.map_nil,
    Patch.playable_cons, Effect.guarded, Effect.Ready, Patch.playable_nil, and_true, true_and]
  exact ⟨finds_in_directory hdir, finds_in_directory hdir⟩

namespace WalRecord

theorem play_redoEffects (r : WalRecord) (s : Loc → Val V) :
    Patch.play (r.redoEffects.map (Effect.guarded E)) s = (r.redoPatch E).apply s := by
  unfold redoEffects redoPatch
  rcases r.type with _ | _ | _ | _ | _ | _ | _ | _ | c
  case pageUpdate => exact play_pageEffects E r _ _ s
  case createTable => exact play_createEffects E r s
  case schemaUpdate => exact play_schemaEffects E r _ s
  all_goals rfl

theorem playable_redoEffects (r : WalRecord) (s : Loc → Val V) :
    Patch.Playable (r.redoEffects.map (Effect.guarded E)) s ↔ r.Ready s := by
  unfold redoEffects Ready
  rcases r.type with _ | _ | _ | _ | _ | _ | _ | _ | c
  case pageUpdate => simpa using playable_pageEffects E r _ _ s
  case createTable => simpa using playable_createEffects E r s
  case schemaUpdate => simpa using playable_schemaEffects E r _ s
  all_goals simp [dropEffects, Patch.Playable, Effect.guarded, Effect.Ready]

theorem play_undoEffects (r : WalRecord) (lsn : Nat) (s : Loc → Val V) :
    Patch.play ((r.undoEffects lsn).map (Effect.guarded E)) s = (r.undoPatch E).apply s := by
  unfold undoEffects undoPatch
  rcases r.type with _ | _ | _ | _ | _ | _ | _ | _ | c
  case pageUpdate => exact play_pageEffects E r _ _ s
  case schemaUpdate => exact play_schemaEffects E r _ s
  all_goals rfl

theorem playable_undoEffects (r : WalRecord) (lsn : Nat) (s : Loc → Val V) :
    Patch.Playable ((r.undoEffects lsn).map (Effect.guarded E)) s ↔ r.Ready s := by
  unfold undoEffects Ready
  rcases r.type with _ | _ | _ | _ | _ | _ | _ | _ | c
  case pageUpdate => simpa using playable_pageEffects E r _ _ s
  case schemaUpdate => simpa using playable_schemaEffects E r _ s
  all_goals simp [dropEffects, Patch.Playable, Effect.guarded, Effect.Ready]

theorem undoPatch_of_not_compensated {r : WalRecord} (h : r.compensated = false) :
    r.undoPatch E = Patch.skip := by
  unfold compensated at h
  unfold undoPatch
  rcases htype : r.type with _ | _ | _ | _ | _ | _ | _ | _ | c <;> simp_all

theorem ready_of_not_compensated {r : WalRecord} (h : r.compensated = false)
    (s : Loc → Val V) : r.Ready s := by
  intro htype
  simp [compensated, htype] at h

theorem play_undoSteps (r : WalRecord) (lsn : Nat) (s : Loc → Val V) :
    Patch.play ((r.undoSteps lsn).map (Effect.guarded E)) s = (r.undoPatch E).apply s := by
  unfold undoSteps
  rcases h : r.compensated with _ | _
  · simp [undoPatch_of_not_compensated E h]
  · simpa [Patch.play_cons, Effect.guarded, Effect.patch] using play_undoEffects E r (lsn + 1) s

theorem playable_undoSteps (r : WalRecord) (lsn : Nat) (s : Loc → Val V) :
    Patch.Playable ((r.undoSteps lsn).map (Effect.guarded E)) s ↔ r.Ready s := by
  unfold undoSteps
  rcases h : r.compensated with _ | _
  · simp [ready_of_not_compensated h]
  · simpa [Patch.playable_cons, Effect.guarded, Effect.patch, Effect.Ready] using
      playable_undoEffects E r (lsn + 1) s

end WalRecord

/-! ## The loops -/

namespace WalManager

open Patch WalRecord

theorem play_redoAll (rs : List WalRecord) (s : Loc → Val V) :
    play ((redoAll rs).map (Effect.guarded E)) s = play (rs.map (redoGuard E)) s := by
  induction rs generalizing s with
  | nil => rfl
  | cons r rs ih =>
      rw [redoAll, List.flatMap_cons, List.map_append, play_append, play_redoEffects]
      exact ih _

theorem playable_redoAll (rs : List WalRecord) (s : Loc → Val V) :
    Playable ((redoAll rs).map (Effect.guarded E)) s ↔ Playable (rs.map (redoGuard E)) s := by
  induction rs generalizing s with
  | nil => exact Iff.rfl
  | cons r rs ih =>
      rw [redoAll, List.flatMap_cons, List.map_append, playable_append, playable_redoEffects,
        play_redoEffects]
      exact and_congr_right fun _ => ih _

theorem play_undoAll (rs : List WalRecord) (lsn : Nat) (s : Loc → Val V) :
    play ((undoAll lsn rs).map (Effect.guarded E)) s = play (rs.map (undoGuard E)) s := by
  induction rs generalizing s lsn with
  | nil => rfl
  | cons r rs ih =>
      rw [undoAll, List.map_append, play_append, play_undoSteps]
      exact ih _ _

theorem playable_undoAll (rs : List WalRecord) (lsn : Nat) (s : Loc → Val V) :
    Playable ((undoAll lsn rs).map (Effect.guarded E)) s ↔ Playable (rs.map (undoGuard E)) s := by
  induction rs generalizing s lsn with
  | nil => exact Iff.rfl
  | cons r rs ih =>
      rw [undoAll, List.map_append, playable_append, playable_undoSteps, play_undoSteps]
      exact and_congr_right fun _ => ih _ _

theorem play_aborts (ids : List Nat) (lsn : Nat) (s : Loc → Val V) :
    play ((aborts lsn ids).map (Effect.guarded E)) s = s := by
  induction ids generalizing lsn with
  | nil => rfl
  | cons id ids ih => exact ih (lsn + 1)

/-- What recovery applies: all records it does not pass over from the first
on, then those of the losers from the last back. -/
def replayGuards (records : List WalRecord) : List (Guarded Loc (Val V)) :=
  (redone records).map (redoGuard E) ++ (undone records).map (undoGuard E)

theorem performable_replay {fs : FileSystem} {records : List WalRecord} (lsn : Nat) :
    Effect.performable fs (replayEffects lsn records) = true ↔
      Playable (replayGuards E records) (fs.view E) := by
  rw [Effect.performable_iff E, replayEffects, List.map_append, playable_append, replayGuards,
    playable_append, playable_redoAll, play_redoAll, playable_undoAll]

theorem view_recoverEffects (fs : FileSystem) (records : List WalRecord) (lsn : Nat) :
    (Effect.applyFsAll fs (recoverEffects lsn records)).view E =
      play (replayGuards E records) (fs.view E) := by
  rw [Effect.view_applyFsAll, recoverEffects, replayEffects, List.map_append, List.map_append,
    play_append, play_append, play_redoAll, play_undoAll, play_aborts, replayGuards, play_append]

/-- `recover` returns true exactly when its patches are playable. -/
theorem recover_true_iff {w : World} (hform : ∀ r ∈ w.disk.wal, r.WellFormed) :
    (recover w).1 = .ok true ↔ Playable (replayGuards E w.disk.wal) (w.disk.fs.view E) := by
  rw [← performable_replay E (WalFile.maxLsn w.manager.lastLsn w.disk.wal)]
  constructor
  · intro h
    by_contra hp
    rw [recover_refused hform (by simpa using hp)] at h
    cases h
  · intro hp
    rw [recover_ok hform hp]

theorem view_recover {w : World} (hform : ∀ r ∈ w.disk.wal, r.WellFormed)
    (hp : Playable (replayGuards E w.disk.wal) (w.disk.fs.view E)) :
    (recover w).2.disk.fs.view E = play (replayGuards E w.disk.wal) (w.disk.fs.view E) := by
  rw [← performable_replay E (WalFile.maxLsn w.manager.lastLsn w.disk.wal)] at hp
  rw [recover_ok hform hp]
  exact view_recoverEffects E _ _ _

theorem rollback_true_iff {w : World} {t : Nat} (ht : t ≠ 0)
    (hform : ∀ r ∈ w.disk.wal, r.WellFormed) :
    (rollbackTransaction t w).1 = .ok true ↔
      Playable ((rolledBack t w.disk.wal).map (undoGuard E)) (w.disk.fs.view E) := by
  rw [← playable_undoAll E _ w.manager.lastLsn, ← Effect.performable_iff]
  constructor
  · intro h
    by_contra hp
    rw [rollbackTransaction_refused hform (by simpa using hp)] at h
    cases h
  · intro hp
    rw [rollbackTransaction_ok ht hform hp]

theorem view_rollback {w : World} {t : Nat} (ht : t ≠ 0)
    (hform : ∀ r ∈ w.disk.wal, r.WellFormed)
    (hp : Playable ((rolledBack t w.disk.wal).map (undoGuard E)) (w.disk.fs.view E)) :
    (rollbackTransaction t w).2.disk.fs.view E =
      play ((rolledBack t w.disk.wal).map (undoGuard E)) (w.disk.fs.view E) := by
  rw [← playable_undoAll E _ w.manager.lastLsn, ← Effect.performable_iff] at hp
  rw [rollbackTransaction_ok ht hform hp, World.flushed_disk, World.advance_fs,
    Effect.view_applyFsAll, rollbackEffects, List.map_append, play_append, play_undoAll]
  rfl

end WalManager

end ScratchDb
