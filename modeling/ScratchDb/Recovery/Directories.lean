import Mathlib.Data.List.Chain
import ScratchDb.Recovery.Transactions

/-!
# What replay does to one directory

A page update needs the directory of its file, `create_table` and
`schema_update` bring it, `drop_table` takes it away. A list of redo and undo
steps is playable when, directory by directory, the word of these moves never
needs a directory that is not there.
-/

namespace ScratchDb

open WalManager

/-! ## Moves -/

inductive Move where
  | idle
  | need
  | make
  | kill
deriving DecidableEq, Repr

namespace Move

/-- The directory after a move, `none` when the move needs it and it is gone. -/
def step (b : Bool) : Move → Option Bool
  | idle => some b
  | need => if b then some true else none
  | make => some true
  | kill => some false

def run (b : Bool) : List Move → Option Bool
  | [] => some b
  | m :: ms => (m.step b).bind (run · ms)

@[simp] theorem run_nil (b : Bool) : run b [] = some b := rfl

theorem run_cons (b : Bool) (m : Move) (ms : List Move) :
    run b (m :: ms) = (m.step b).bind (run · ms) := rfl

theorem run_append (b : Bool) (ms ns : List Move) :
    run b (ms ++ ns) = (run b ms).bind (run · ns) := by
  induction ms generalizing b with
  | nil => rfl
  | cons m ms ih =>
      rw [List.cons_append, run_cons, run_cons]
      rcases m.step b with _ | c
      · rfl
      · exact ih c

theorem run_idle_cons (b : Bool) (ms : List Move) : run b (idle :: ms) = run b ms := rfl

/-- What leaves the directory alone can be left out. -/
theorem run_map_filter {α : Type} {l : List α} {keep : α → Bool} {move : α → Move}
    (h : ∀ a ∈ l, keep a = false → move a = idle) (b : Bool) :
    run b ((l.filter keep).map move) = run b (l.map move) := by
  induction l generalizing b with
  | nil => rfl
  | cons a l ih =>
      have ih := fun b => ih (b := b) fun c hc => h c (List.mem_cons_of_mem _ hc)
      rcases hkeep : keep a with _ | _
      · rw [List.filter_cons_of_neg (by simp [hkeep]), ih, List.map_cons,
          h a List.mem_cons_self hkeep, run_idle_cons]
      · rw [List.filter_cons_of_pos hkeep, List.map_cons, List.map_cons, run_cons, run_cons]
        exact congrArg _ (funext ih)

theorem run_isSome_of_not_need {ms : List Move} (h : need ∉ ms) (b : Bool) :
    (run b ms).isSome = true := by
  induction ms generalizing b with
  | nil => rfl
  | cons m ms ih =>
      have ih := ih fun hm => h (List.mem_cons_of_mem _ hm)
      cases m with
      | need => exact absurd List.mem_cons_self h
      | _ => exact ih _

/-- A word that starts on a missing directory also runs on a present one. -/
theorem run_mono {ms : List Move} (h : (run false ms).isSome = true) :
    (run true ms).isSome = true := by
  induction ms with
  | nil => rfl
  | cons m ms ih =>
      cases m with
      | idle => exact ih h
      | need => cases h
      | _ => exact h

/-- After a word that ends with a need or a make the directory is there. -/
theorem run_concat_eq_true {ms : List Move} {m : Move} {b c : Bool}
    (h : run b (ms ++ [m]) = some c) (hm : m = need ∨ m = make) : c = true := by
  rw [run_append] at h
  rcases hms : run b ms with _ | e
  · simp [hms] at h
  · rw [hms] at h
    rcases hm with rfl | rfl
    · cases e
      · cases h
      · exact (Option.some.inj h).symm
    · exact (Option.some.inj h).symm

end Move

/-! ## Moves of records -/

namespace WalRecord

/-- The table directory a record works in. -/
def directory (r : WalRecord) : Option Path :=
  match r.type with
  | .pageUpdate => some (pathOf r.tableFile).dropLast
  | .createTable => some (pathOf r.tableFile)
  | .dropTable => some (pathOf r.tableFile)
  | .schemaUpdate => some (pathOf r.tableFile)
  | _ => none

/-- What redo of the record does to directory `d`. -/
def redoMove (d : Path) (r : WalRecord) : Move :=
  match r.type with
  | .pageUpdate => if (pathOf r.tableFile).dropLast = d ∧ d ≠ [] then .need else .idle
  | .createTable => if d.isPrefixOf (pathOf r.tableFile) then .make else .idle
  | .dropTable => if (pathOf r.tableFile).isPrefixOf d then .kill else .idle
  | .schemaUpdate => if d.isPrefixOf (pathOf r.tableFile) then .make else .idle
  | _ => .idle

/-- What undo of the record does to directory `d`. -/
def undoMove (d : Path) (r : WalRecord) : Move :=
  match r.type with
  | .pageUpdate => if (pathOf r.tableFile).dropLast = d ∧ d ≠ [] then .need else .idle
  | .createTable => if (pathOf r.tableFile).isPrefixOf d then .kill else .idle
  | .schemaUpdate => if d.isPrefixOf (pathOf r.tableFile) then .make else .idle
  | _ => .idle

end WalRecord

/-- One step of a replay. -/
inductive Act where
  | redo (r : WalRecord)
  | undo (r : WalRecord)

namespace Act

variable {V : Type} (E : PageView V)

def guard : Act → Patch.Guarded Loc (Val V)
  | redo r => r.redoGuard E
  | undo r => r.undoGuard E

def move (d : Path) : Act → Move
  | redo r => r.redoMove d
  | undo r => r.undoMove d

theorem ready_iff {a : Act} {s : Loc → Val V} {b : Path → Bool}
    (hb : ∀ d, s (.directory d) = .present (b d)) :
    (a.guard E).ready s ↔ ∀ d, ((a.move d).step (b d)).isSome = true := by
  have hpage : ∀ r : WalRecord, r.type = .pageUpdate → (r.Ready s ↔ ∀ d,
      ((if (pathOf r.tableFile).dropLast = d ∧ d ≠ [] then Move.need else Move.idle).step
        (b d)).isSome = true) := by
    intro r htype
    simp only [WalRecord.Ready, htype, true_implies, Finds, hb, Val.present.injEq]
    constructor
    · intro h d
      split
      · rename_i hd
        obtain ⟨rfl, hne⟩ := hd
        simp [Move.step, h.resolve_left hne]
      · rfl
    · intro h
      by_cases hne : (pathOf r.tableFile).dropLast = []
      · exact Or.inl hne
      · have hd := h (pathOf r.tableFile).dropLast
        rw [if_pos ⟨rfl, hne⟩] at hd
        right
        cases hbd : b (pathOf r.tableFile).dropLast
        · rw [hbd] at hd
          cases hd
        · rfl
  cases a with
  | redo r =>
      by_cases htype : r.type = .pageUpdate
      · simpa [guard, WalRecord.redoGuard, move, WalRecord.redoMove, htype] using hpage r htype
      · have hready : r.Ready s := fun h => absurd h htype
        simp only [guard, WalRecord.redoGuard, hready, true_iff, move, WalRecord.redoMove]
        intro d
        rcases h : r.type with _ | _ | _ | _ | _ | _ | _ | _ | c <;> simp only <;>
          first | exact absurd h htype | (split <;> rfl) | rfl
  | undo r =>
      by_cases htype : r.type = .pageUpdate
      · simpa [guard, WalRecord.undoGuard, move, WalRecord.undoMove, htype] using hpage r htype
      · have hready : r.Ready s := fun h => absurd h htype
        simp only [guard, WalRecord.undoGuard, hready, true_iff, move, WalRecord.undoMove]
        intro d
        rcases h : r.type with _ | _ | _ | _ | _ | _ | _ | _ | c <;> simp only <;>
          first | exact absurd h htype | (split <;> rfl) | rfl

/-- The directory flags after a step. -/
theorem patch_directory {a : Act} {s : Loc → Val V} {b : Path → Bool}
    (hb : ∀ d, s (.directory d) = .present (b d)) (d : Path) :
    (a.guard E).patch.apply s (.directory d) = .present (((a.move d).step (b d)).getD (b d)) := by
  have hneed : ∀ c : Bool, (Move.need.step c).getD c = c := by decide
  cases a with
  | redo r =>
      rcases htype : r.type with _ | _ | _ | _ | _ | _ | _ | _ | c <;>
        simp only [guard, move, WalRecord.redoGuard, WalRecord.redoPatch, WalRecord.redoMove,
          htype, Patch.apply, pagePatch, createPatch, schemaPatch, dropPatch, Loc.path,
          Loc.absent, Patch.skip, hb] <;> first | rfl | (split <;> first | rfl | exact congrArg Val.present (hneed (b d)).symm | simp_all [Move.step])
  | undo r =>
      rcases htype : r.type with _ | _ | _ | _ | _ | _ | _ | _ | c <;>
        simp only [guard, move, WalRecord.undoGuard, WalRecord.undoPatch, WalRecord.undoMove,
          htype, Patch.apply, pagePatch, schemaPatch, dropPatch, Loc.path,
          Loc.absent, Patch.skip, hb] <;> first | rfl | (split <;> first | rfl | exact congrArg Val.present (hneed (b d)).symm | simp_all [Move.step])

/-- A replay is playable exactly when the word of every directory runs. -/
theorem playable_iff_run (acts : List Act) {s : Loc → Val V} {b : Path → Bool}
    (hb : ∀ d, s (.directory d) = .present (b d)) :
    Patch.Playable (acts.map (guard E)) s ↔
      ∀ d, (Move.run (b d) (acts.map (move d))).isSome = true := by
  induction acts generalizing s b with
  | nil => simp
  | cons a acts ih =>
      rw [List.map_cons, Patch.playable_cons, ready_iff E hb, ih (patch_directory E hb)]
      constructor
      · rintro ⟨hready, hrest⟩ d
        obtain ⟨c, hc⟩ := Option.isSome_iff_exists.mp (hready d)
        have hrest := hrest d
        rw [List.map_cons, Move.run_cons, hc]
        simpa [hc] using hrest
      · intro h
        have hready : ∀ d, ((a.move d).step (b d)).isSome = true := by
          intro d
          have hd := h d
          rw [List.map_cons, Move.run_cons] at hd
          rcases hstep : (a.move d).step (b d) with _ | c
          · simp [hstep] at hd
          · rfl
        refine ⟨hready, fun d => ?_⟩
        obtain ⟨c, hc⟩ := Option.isSome_iff_exists.mp (hready d)
        have hd := h d
        rw [List.map_cons, Move.run_cons, hc] at hd
        simpa [hc] using hd

end Act

/-! ## One directory of a flat log -/

/-- Table directories lie side by side: none is inside another one. -/
def Flat (log : List WalRecord) : Prop :=
  ∀ r ∈ log, ∀ q ∈ log, ∀ d ∈ r.directory, ∀ e ∈ q.directory, d <+: e → d = e

/-- No record works in the root of the paths. -/
def Placed (log : List WalRecord) : Prop := ∀ r ∈ log, r.directory ≠ some []

namespace WalRecordType

def redoOf : WalRecordType → Move
  | pageUpdate => .need
  | createTable => .make
  | dropTable => .kill
  | schemaUpdate => .make
  | _ => .idle

def undoOf : WalRecordType → Move
  | pageUpdate => .need
  | createTable => .kill
  | schemaUpdate => .make
  | _ => .idle

/-- What undoing the compensation of an undone record does: the compensation
of a `create_table` is a `drop_table`, for which undo has no branch. -/
def reundoOf : WalRecordType → Move
  | pageUpdate => .need
  | schemaUpdate => .make
  | _ => .idle

end WalRecordType

section Flat

variable {log : List WalRecord} {r q : WalRecord} {d : Path}

theorem directory_of_page (h : r.type = .pageUpdate) :
    r.directory = some (pathOf r.tableFile).dropLast := by
  simp [WalRecord.directory, h]

/-- In a flat log only the records of a mentioned directory move it. -/
theorem redoMove_eq (hflat : Flat log) (hplaced : Placed log) (hq : q ∈ log)
    (hd : q.directory = some d) (hr : r ∈ log) :
    r.redoMove d = if r.directory = some d then r.type.redoOf else .idle := by
  have hne : d ≠ [] := fun h => hplaced q hq (h ▸ hd)
  have hin : ∀ e, r.directory = some e → (d <+: e ↔ e = d) := fun e he =>
    ⟨fun h => (hflat q hq r hr d hd e he h).symm, fun h => h ▸ List.prefix_refl _⟩
  have hout : ∀ e, r.directory = some e → (e <+: d ↔ e = d) := fun e he =>
    ⟨fun h => hflat r hr q hq e he d hd h, fun h => h ▸ List.prefix_refl _⟩
  unfold WalRecord.redoMove
  unfold WalRecord.directory at hin hout ⊢
  rcases htype : r.type with _ | _ | _ | _ | _ | _ | _ | _ | c <;>
    simp_all [WalRecordType.redoOf]

theorem undoMove_eq (hflat : Flat log) (hplaced : Placed log) (hq : q ∈ log)
    (hd : q.directory = some d) (hr : r ∈ log) :
    r.undoMove d = if r.directory = some d then r.type.undoOf else .idle := by
  have hne : d ≠ [] := fun h => hplaced q hq (h ▸ hd)
  have hin : ∀ e, r.directory = some e → (d <+: e ↔ e = d) := fun e he =>
    ⟨fun h => (hflat q hq r hr d hd e he h).symm, fun h => h ▸ List.prefix_refl _⟩
  have hout : ∀ e, r.directory = some e → (e <+: d ↔ e = d) := fun e he =>
    ⟨fun h => hflat r hr q hq e he d hd h, fun h => h ▸ List.prefix_refl _⟩
  unfold WalRecord.undoMove
  unfold WalRecord.directory at hin hout ⊢
  rcases htype : r.type with _ | _ | _ | _ | _ | _ | _ | _ | c <;>
    simp_all [WalRecordType.undoOf]

/-- The records of one directory. -/
def inDirectory (log : List WalRecord) (d : Path) : List WalRecord :=
  log.filter fun r => decide (r.directory = some d)

theorem inDirectory_append (log log' : List WalRecord) (d : Path) :
    inDirectory (log ++ log') d = inDirectory log d ++ inDirectory log' d :=
  List.filter_append ..

theorem mem_inDirectory : r ∈ inDirectory log d ↔ r ∈ log ∧ r.directory = some d := by
  simp [inDirectory]

/-- The word of a mentioned directory only depends on its own records. -/
theorem run_inDirectory {rs : List WalRecord} {move : WalRecord → Move}
    {kind : WalRecordType → Move}
    (h : ∀ r ∈ rs, move r = if r.directory = some d then kind r.type else .idle) (b : Bool) :
    Move.run b (rs.map move) =
      Move.run b ((inDirectory rs d).map fun r => kind r.type) := by
  have hmap : (inDirectory rs d).map (fun r => kind r.type) = (inDirectory rs d).map move :=
    List.map_congr_left fun r hr => by
      rw [h r (mem_inDirectory.mp hr).1, if_pos (mem_inDirectory.mp hr).2]
  rw [hmap]
  refine (Move.run_map_filter (fun r hr hkeep => ?_) b).symm
  rw [h r hr, if_neg (by simpa using hkeep)]

end Flat

/-! ## Words of one unfinished transaction -/

namespace WalRecordType

/-- `create_table` and `page_update` do not stand next to each other. -/
def Apart (x y : WalRecordType) : Prop :=
  ¬(x = createTable ∧ y = pageUpdate) ∧ ¬(x = pageUpdate ∧ y = createTable)

instance (x y : WalRecordType) : Decidable (Apart x y) := by
  unfold Apart
  infer_instance

theorem Apart.symm {x y : WalRecordType} (h : Apart x y) : Apart y x :=
  ⟨fun h' => h.2 ⟨h'.2, h'.1⟩, fun h' => h.1 ⟨h'.2, h'.1⟩⟩

/-- The changes an undo can take back. -/
def Undoable (x : WalRecordType) : Prop := x = pageUpdate ∨ x = createTable ∨ x = schemaUpdate

/-- A page update may be undone right after `x` was. -/
def Before (x y : WalRecordType) : Prop := y = pageUpdate → x = pageUpdate ∨ x = schemaUpdate

/-- Undoing a word in which no page update comes right after a `create_table`
or `drop_table`: every page update finds the directory. -/
theorem run_undo {l : List WalRecordType} (hchain : l.IsChain Before)
    {c : Bool} (hhead : ∀ x ∈ l.head?, x = pageUpdate → c = true) :
    ∃ c', Move.run c (l.map undoOf) = some c' ∧
      ∀ x ∈ l.getLast?, x = pageUpdate → c' = true := by
  induction l generalizing c with
  | nil => exact ⟨c, rfl, by simp⟩
  | cons x l ih =>
      have hstep : ∃ c₁, x.undoOf.step c = some c₁ ∧
          (x = pageUpdate ∨ x = schemaUpdate → c₁ = true) := by
        by_cases hx : x = pageUpdate
        · subst hx
          rw [hhead pageUpdate (by simp) rfl]
          exact ⟨true, rfl, fun _ => rfl⟩
        · cases x <;> first | exact absurd rfl hx | exact ⟨_, rfl, by simp⟩
      obtain ⟨c₁, hc₁, htrue⟩ := hstep
      rw [List.isChain_cons] at hchain
      obtain ⟨c', hrun, hlast⟩ := ih hchain.2 (c := c₁) fun y hy hpage =>
        htrue (hchain.1 y hy hpage)
      refine ⟨c', by rw [List.map_cons, Move.run_cons, hc₁]; exact hrun, ?_⟩
      rcases l with _ | ⟨y, l⟩
      · intro z hz hpage
        have hxz : x = z := by simpa using hz
        obtain rfl : c₁ = c' := Option.some.inj hrun
        exact htrue (Or.inl (hxz.trans hpage))
      · simpa using hlast

/-- Undoing the compensations of a word, last one first. -/
theorem run_reundo {l : List WalRecordType} (hl : ∀ x ∈ l, Undoable x) (hchain : l.IsChain Apart)
    {c : Bool} (hhead : ∀ x ∈ l.head?, x = pageUpdate → c = true) :
    ∃ c', Move.run c (l.map reundoOf) = some c' ∧ (c = true → c' = true) ∧
      ∀ x ∈ l.getLast?, x = pageUpdate → c' = true := by
  induction l generalizing c with
  | nil => exact ⟨c, rfl, id, by simp⟩
  | cons x l ih =>
      have hstep : ∃ c₁, x.reundoOf.step c = some c₁ ∧ (c = true → c₁ = true) ∧
          (x ≠ createTable → c₁ = true) := by
        rcases hl x List.mem_cons_self with rfl | rfl | rfl
        · rw [hhead pageUpdate (by simp) rfl]
          exact ⟨true, rfl, fun _ => rfl, fun _ => rfl⟩
        · exact ⟨c, rfl, id, fun h => absurd rfl h⟩
        · exact ⟨true, rfl, fun _ => rfl, fun _ => rfl⟩
      obtain ⟨c₁, hc₁, hmono, htrue⟩ := hstep
      rw [List.isChain_cons] at hchain
      obtain ⟨c', hrun, hmono', hlast⟩ := ih (fun y hy => hl y (List.mem_cons_of_mem _ hy))
        hchain.2 (c := c₁) fun y hy hpage => htrue fun hx => (hchain.1 y hy).1 ⟨hx, hpage⟩
      refine ⟨c', by rw [List.map_cons, Move.run_cons, hc₁]; exact hrun,
        fun h => hmono' (hmono h), ?_⟩
      rcases l with _ | ⟨y, l⟩
      · intro z hz hpage
        have hxz : x = z := by simpa using hz
        obtain rfl : c₁ = c' := Option.some.inj hrun
        refine htrue ?_
        rw [hxz, hpage]
        simp
      · simpa using hlast

/-- The undo of a page update right after the undo of a `create_table` fails. -/
theorem run_undo_eq_none (a b : List WalRecordType) (c : Bool) :
    Move.run c ((a ++ createTable :: pageUpdate :: b).map undoOf) = none := by
  rw [List.map_append, Move.run_append]
  rcases Move.run c (a.map undoOf) with _ | e
  · rfl
  · rfl

/-- Stopped right after the undo of a `create_table`, the next recovery fails
at the compensation of the page update undone before it. -/
theorem run_undo_reundo_eq_none (a : List WalRecordType) (ms : List Move) (c : Bool) :
    Move.run c ((a ++ [pageUpdate, createTable]).map undoOf ++
      ((a ++ [pageUpdate, createTable]).reverse.map reundoOf ++ ms)) = none := by
  rw [List.map_append, List.append_assoc, Move.run_append]
  rcases Move.run c (a.map undoOf) with _ | e
  · rfl
  · cases e
    · rfl
    · simp [Move.run_cons, Move.step, undoOf, reundoOf]

end WalRecordType

end ScratchDb
