import Mathlib.Data.List.Induction
import ScratchDb.Recovery.Directories

/-!
# Taking back table and schema changes

Histories of page updates, `create_table`, `drop_table` and `schema_update` of
any number of transactions over the tables they lock, and what undoing the one
unfinished transaction gives back. Undo has no branch for `drop_table`, so the
steps must meet a condition: tables are created where nothing is, and the
transaction only drops tables it created itself.
-/

namespace ScratchDb

open WalManager

/-! ## Histories -/

/-- The state of the files when every record of the log has taken effect. -/
def replayed (start : FileSystem) (log : List WalRecord) : Loc → Val Page :=
  Patch.applyAll (log.map (WalRecord.redoPatch contentView)) (start.view contentView)

/-- Nothing exists at or under directory `d`. -/
def Vacant (d : Path) (s : Loc → Val Page) : Prop :=
  ∀ k : Loc, d <+: k.path → s k = k.absent contentView

/-- `v` is what was at `k`, or the blank page that stands for a page behind
the end of its file. -/
def Restored (k : Loc) (before v : Val Page) : Prop :=
  v = before ∨ ∃ file j, k = .page file j ∧
    before = .page (contentView.look file Page.zero) ∧
    v = .page (contentView.look file Page.blank)

namespace WalRecord

/-- What the database has checked or read when it logs the record. The before
image of an appended page is blank. -/
def Matches (r : WalRecord) (s : Loc → Val Page) : Prop :=
  match r.type with
  | .pageUpdate => Finds (pathOf r.tableFile) s ∧
      Restored (.page (pathOf r.tableFile) r.pageId)
        (s (.page (pathOf r.tableFile) r.pageId))
        (.page (contentView.look (pathOf r.tableFile) (Page.ofImage r.beforeImage)))
  | .createTable => ∀ x, x <+: pathOf r.tableFile → x ≠ pathOf r.tableFile →
      s (.directory x) = .present true
  | .dropTable => s (.directory (pathOf r.tableFile)) = .present true
  | .schemaUpdate => (∀ x, x <+: pathOf r.tableFile → s (.directory x) = .present true) ∧
      s (.text (pathOf r.tableFile ++ [schemaFileName])) = .text (some r.beforeImage)
  | _ => True

end WalRecord

/-- A change that the database can log after `log`: by a transaction under way
that holds the lock of the table, with images that match the files. -/
structure Logged (start : FileSystem) (log : List WalRecord) (r : WalRecord) : Prop where
  wellFormed : r.WellFormed
  change : ∃ d, r.directory = some d ∧ d ≠ []
  active : Active log r.transactionId
  unlocked : ∀ q ∈ log, Active log q.transactionId → q.directory = r.directory →
    q.transactionId = r.transactionId
  beside : ∀ q ∈ log, ∀ d ∈ q.directory, ∀ e ∈ r.directory, d <+: e ∨ e <+: d → d = e
  content : r.Matches (replayed start log)

/-- The logs a database writes from the files `start` on, every change meeting
`condition` where it is logged. -/
inductive TableHistory (condition : List WalRecord → WalRecord → Prop) (start : FileSystem) :
    List WalRecord → Prop
  | nil : TableHistory condition start []
  | begin {log : List WalRecord} {r : WalRecord} : TableHistory condition start log →
      r.type = .beginTransaction → r.transactionId ≠ 0 →
      (∀ q ∈ log, q.transactionId ≠ r.transactionId) → TableHistory condition start (log ++ [r])
  | finish {log : List WalRecord} {r : WalRecord} : TableHistory condition start log →
      r.type = .commitTransaction ∨ r.type = .abortTransaction → Active log r.transactionId →
      TableHistory condition start (log ++ [r])
  | change {log : List WalRecord} {r : WalRecord} : TableHistory condition start log →
      Logged start log r → condition log r → TableHistory condition start (log ++ [r])

/-- The records of transaction `t` in a directory. -/
def ownIn (t : Nat) (log : List WalRecord) (p : Path) : List WalRecord :=
  (inDirectory log p).filter fun r => decide (r.transactionId = t)

/-- The condition on a step. A table is created where nothing is. A dropped
table is one the log has created, or has not written before; transaction `t`
only drops tables it has created, and not right after writing a page. -/
def SafeStep (t : Nat) (start : FileSystem) (log : List WalRecord) (r : WalRecord) : Prop :=
  match r.type with
  | .createTable => Vacant (pathOf r.tableFile) (replayed start log)
  | .dropTable =>
      Move.run false (log.map (WalRecord.redoMove (pathOf r.tableFile))) ≠ none ∧
      (r.transactionId = t →
        (∃ q ∈ ownIn t log (pathOf r.tableFile), q.type = .createTable) ∧
        ∀ q ∈ (ownIn t log (pathOf r.tableFile)).getLast?, q.type ≠ .pageUpdate)
  | _ => True

/-! ## Facts of every history -/

section History

variable {condition : List WalRecord → WalRecord → Prop} {start : FileSystem}
  {log : List WalRecord} {r : WalRecord} {p : Path}

theorem replayed_concat (start : FileSystem) (log : List WalRecord) (r : WalRecord) :
    replayed start (log ++ [r]) = (r.redoPatch contentView).apply (replayed start log) := by
  rw [replayed, List.map_append, Patch.applyAll_append]
  rfl

theorem replayed_control (h : r.directory = none) :
    replayed start (log ++ [r]) = replayed start log := by
  have hskip : r.redoPatch contentView = (Patch.skip : Patch Loc (Val Page)) := by
    unfold WalRecord.directory at h
    unfold WalRecord.redoPatch
    rcases htype : r.type with _ | _ | _ | _ | _ | _ | _ | _ | c <;> simp_all
  rw [replayed_concat, hskip, Patch.skip_apply]

theorem undoPatch_control (h : r.directory = none) :
    r.undoPatch contentView = (Patch.skip : Patch Loc (Val Page)) := by
  unfold WalRecord.directory at h
  unfold WalRecord.undoPatch
  rcases htype : r.type with _ | _ | _ | _ | _ | _ | _ | _ | c <;> simp_all

theorem directory_control (h : r.type = .beginTransaction ∨ r.type = .commitTransaction ∨
    r.type = .abortTransaction) : r.directory = none := by
  rcases h with h | h | h <;> simp [WalRecord.directory, h]

theorem TableHistory.allBegun (h : TableHistory condition start log) : AllBegun log := by
  induction h with
  | nil => intro r hr; cases hr
  | begin _ htype _ _ ih =>
      refine ih.append fun q hq => ?_
      rw [List.mem_singleton.mp hq]
      exact hasRecord_concat.mpr (Or.inr ⟨htype, rfl⟩)
  | finish _ _ hactive ih =>
      refine ih.append fun q hq => ?_
      rw [List.mem_singleton.mp hq]
      exact hactive.1.append_left
  | change _ hlogged _ ih =>
      refine ih.append fun q hq => ?_
      rw [List.mem_singleton.mp hq]
      exact hlogged.active.1.append_left

theorem TableHistory.wellFormed (h : TableHistory condition start log) :
    ∀ r ∈ log, r.WellFormed := by
  have hcontrol : ∀ {r : WalRecord}, r.directory = none → r.WellFormed := by
    intro r hr
    unfold WalRecord.directory at hr
    unfold WalRecord.WellFormed
    rcases htype : r.type with _ | _ | _ | _ | _ | _ | _ | _ | c <;> simp_all
  induction h with
  | nil => intro r hr; cases hr
  | begin _ htype _ _ ih =>
      intro q hq
      rcases List.mem_append.mp hq with hq | hq
      · exact ih q hq
      · rw [List.mem_singleton.mp hq]
        exact hcontrol (directory_control (Or.inl htype))
  | finish _ htype _ ih =>
      intro q hq
      rcases List.mem_append.mp hq with hq | hq
      · exact ih q hq
      · rw [List.mem_singleton.mp hq]
        exact hcontrol (directory_control (Or.inr htype))
  | change _ hlogged _ ih =>
      intro q hq
      rcases List.mem_append.mp hq with hq | hq
      · exact ih q hq
      · rw [List.mem_singleton.mp hq]
        exact hlogged.wellFormed

theorem TableHistory.placed (h : TableHistory condition start log) : Placed log := by
  induction h with
  | nil => intro r hr; cases hr
  | begin _ htype _ _ ih =>
      intro q hq
      rcases List.mem_append.mp hq with hq | hq
      · exact ih q hq
      · rw [List.mem_singleton.mp hq, directory_control (Or.inl htype)]
        simp
  | finish _ htype _ ih =>
      intro q hq
      rcases List.mem_append.mp hq with hq | hq
      · exact ih q hq
      · rw [List.mem_singleton.mp hq, directory_control (Or.inr htype)]
        simp
  | change _ hlogged _ ih =>
      intro q hq
      rcases List.mem_append.mp hq with hq | hq
      · exact ih q hq
      · obtain ⟨d, hd, hne⟩ := hlogged.change
        rw [List.mem_singleton.mp hq, hd]
        simpa using hne

theorem Flat.append_control (h : Flat log) (hr : r.directory = none) : Flat (log ++ [r]) := by
  intro a ha b hb d hd e he hde
  rcases List.mem_append.mp ha with ha | ha
  · rcases List.mem_append.mp hb with hb | hb
    · exact h a ha b hb d hd e he hde
    · rw [List.mem_singleton.mp hb, hr] at he
      cases he
  · rw [List.mem_singleton.mp ha, hr] at hd
    cases hd

theorem TableHistory.flat (h : TableHistory condition start log) : Flat log := by
  induction h with
  | nil => intro r hr; cases hr
  | begin _ htype _ _ ih => exact ih.append_control (directory_control (Or.inl htype))
  | finish _ htype _ ih => exact ih.append_control (directory_control (Or.inr htype))
  | change _ hlogged _ ih =>
      intro a ha b hb d hd e he hde
      rcases List.mem_append.mp ha with ha | ha
      · rcases List.mem_append.mp hb with hb | hb
        · exact ih a ha b hb d hd e he hde
        · rw [List.mem_singleton.mp hb] at he
          exact hlogged.beside a ha d hd e he (Or.inl hde)
      · rw [List.mem_singleton.mp ha] at hd
        rcases List.mem_append.mp hb with hb | hb
        · exact (hlogged.beside b hb e he d hd (Or.inr hde)).symm
        · rw [List.mem_singleton.mp hb] at he
          exact Option.some.inj (hd.symm.trans he)

theorem Logged.ready (h : Logged start log r) : r.Ready (replayed start log) := by
  intro htype
  have hcontent := h.content
  rw [WalRecord.Matches, htype] at hcontent
  exact hcontent.1

/-- Redo from the starting files finds every directory. -/
theorem TableHistory.playable (h : TableHistory condition start log) :
    Patch.Playable (log.map (WalRecord.redoGuard contentView)) (start.view contentView) := by
  have hstep : ∀ {log : List WalRecord} {r : WalRecord},
      Patch.Playable (log.map (WalRecord.redoGuard contentView)) (start.view contentView) →
      r.Ready (replayed start log) →
      Patch.Playable ((log ++ [r]).map (WalRecord.redoGuard contentView))
        (start.view contentView) := by
    intro log r hlog hr
    rw [List.map_append, Patch.playable_append]
    refine ⟨hlog, ⟨?_, trivial⟩⟩
    rw [Patch.play, List.map_map]
    exact hr
  have hcontrol : ∀ {r : WalRecord} {s : Loc → Val Page}, r.directory = none → r.Ready s := by
    intro r s hr htype
    rw [directory_of_page htype] at hr
    cases hr
  induction h with
  | nil => trivial
  | begin _ htype _ _ ih => exact hstep ih (hcontrol (directory_control (Or.inl htype)))
  | finish _ htype _ ih => exact hstep ih (hcontrol (directory_control (Or.inr htype)))
  | change _ hlogged _ ih => exact hstep ih hlogged.ready

/-- The word of a directory, from whether it was there at the start. -/
theorem TableHistory.run_eq (h : TableHistory condition start log) (p : Path) :
    ∃ c, Move.run (start.isDirectory p) (log.map (WalRecord.redoMove p)) = some c ∧
      replayed start log (.directory p) = .present c := by
  have hstep : ∀ {log : List WalRecord} {r : WalRecord} {b : Path → Bool},
      (∀ p, replayed start log (.directory p) = .present (b p)) →
      r.Ready (replayed start log) → ∀ p, ∃ c, (r.redoMove p).step (b p) = some c ∧
        replayed start (log ++ [r]) (.directory p) = .present c := by
    intro log r b hb hr p
    have hready := (Act.ready_iff contentView (a := .redo r) hb).mp hr p
    obtain ⟨c, hc⟩ := Option.isSome_iff_exists.mp hready
    refine ⟨c, hc, ?_⟩
    rw [replayed_concat]
    have hpatch := Act.patch_directory contentView (a := .redo r) hb p
    rw [hc] at hpatch
    exact hpatch
  have hcontrol : ∀ {r : WalRecord} {s : Loc → Val Page}, r.directory = none → r.Ready s := by
    intro r s hr htype
    rw [directory_of_page htype] at hr
    cases hr
  suffices h : ∀ p, ∃ c, Move.run (start.isDirectory p) (log.map (WalRecord.redoMove p)) = some c ∧
      replayed start log (.directory p) = .present c from h p
  have hconcat : ∀ {log : List WalRecord} {r : WalRecord},
      (∀ p, ∃ c, Move.run (start.isDirectory p) (log.map (WalRecord.redoMove p)) = some c ∧
        replayed start log (.directory p) = .present c) → r.Ready (replayed start log) →
      ∀ p, ∃ c, Move.run (start.isDirectory p) ((log ++ [r]).map (WalRecord.redoMove p)) = some c ∧
        replayed start (log ++ [r]) (.directory p) = .present c := by
    intro log r ih hr p
    choose b hb using ih
    obtain ⟨c, hc, hp⟩ := hstep (fun p => (hb p).2) hr p
    refine ⟨c, ?_, hp⟩
    rw [List.map_append, Move.run_append, (hb p).1, Option.bind_some, List.map_singleton,
      Move.run_cons, hc]
    rfl
  induction h with
  | nil => exact fun p => ⟨_, rfl, rfl⟩
  | begin _ htype _ _ ih => exact hconcat ih (hcontrol (directory_control (Or.inl htype)))
  | finish _ htype _ ih => exact hconcat ih (hcontrol (directory_control (Or.inr htype)))
  | change _ hlogged _ ih => exact hconcat ih hlogged.ready

theorem TableHistory.concat_inv (h : TableHistory condition start (log ++ [r])) :
    TableHistory condition start log ∧
      (r.directory = none ∨ Logged start log r ∧ condition log r) := by
  generalize hl : log ++ [r] = log' at h
  cases h with
  | nil => simp at hl
  | begin h htype _ _ =>
      obtain ⟨rfl, hr⟩ := List.append_inj' hl rfl
      obtain rfl := List.singleton_inj.mp hr
      exact ⟨h, Or.inl (directory_control (Or.inl htype))⟩
  | finish h htype _ =>
      obtain ⟨rfl, hr⟩ := List.append_inj' hl rfl
      obtain rfl := List.singleton_inj.mp hr
      exact ⟨h, Or.inl (directory_control (Or.inr htype))⟩
  | change h hlogged hcond =>
      obtain ⟨rfl, hr⟩ := List.append_inj' hl rfl
      obtain rfl := List.singleton_inj.mp hr
      exact ⟨h, Or.inr ⟨hlogged, hcond⟩⟩

end History

/-! ## The unfinished transaction -/

section Unfinished

variable {t : Nat} {start : FileSystem} {log : List WalRecord} {r : WalRecord} {p : Path}

/-- Transaction `t` has neither committed nor aborted. -/
def Unfinished (log : List WalRecord) (t : Nat) : Prop := ¬Committed log t ∧ ¬Aborted log t

theorem Unfinished.of_concat (h : Unfinished (log ++ [r]) t) : Unfinished log t :=
  ⟨fun h' => h.1 h'.append_left, fun h' => h.2 h'.append_left⟩

theorem mem_ownIn {q : WalRecord} :
    q ∈ ownIn t log p ↔ q ∈ log ∧ q.directory = some p ∧ q.transactionId = t := by
  simp [ownIn, mem_inDirectory, and_assoc]

theorem ownIn_concat (t : Nat) (log : List WalRecord) (r : WalRecord) (p : Path) :
    ownIn t (log ++ [r]) p =
      ownIn t log p ++ if r.directory = some p ∧ r.transactionId = t then [r] else [] := by
  rw [ownIn, inDirectory_append, List.filter_append]
  by_cases hd : r.directory = some p <;> by_cases ht : r.transactionId = t <;>
    simp [ownIn, inDirectory, hd, ht]

theorem TableHistory.active_of_own {condition : List WalRecord → WalRecord → Prop}
    (h : TableHistory condition start log) (hopen : Unfinished log t) {q : WalRecord}
    (hq : q ∈ log) (ht : q.transactionId = t) : Active log t :=
  ⟨ht ▸ h.allBegun q hq, hopen.1, hopen.2⟩

theorem Logged.redoMove_other (h : Logged start log r) {q : WalRecord} (hq : q ∈ log)
    (hp : q.directory = some p) (hne : r.directory ≠ some p) : r.redoMove p = .idle := by
  obtain ⟨d, hd, -⟩ := h.change
  have hbeside := fun hor => h.beside q hq p hp d hd hor
  have hnot : ¬(p <+: d ∨ d <+: p) := fun hor => hne (hd.trans (congrArg some (hbeside hor).symm))
  rw [not_or] at hnot
  unfold WalRecord.directory at hd
  unfold WalRecord.redoMove
  rcases htype : r.type with _ | _ | _ | _ | _ | _ | _ | _ | c <;> simp only [htype] at hd ⊢
  · rw [if_neg]
    rintro ⟨rfl, -⟩
    exact hnot.1 (by simp_all)
  all_goals simp_all

/-- The directory of the last page update of the transaction is there. -/
theorem own_present (h : TableHistory (SafeStep t start) start log) (hopen : Unfinished log t)
    {q : WalRecord} (hq : q ∈ (ownIn t log p).getLast?) (htype : q.type = .pageUpdate) :
    replayed start log (.directory p) = .present true := by
  induction log using List.reverseRecOn generalizing q with
  | nil => cases hq
  | append_singleton log r ih =>
      obtain ⟨h', hstep⟩ := h.concat_inv
      have hmem : q ∈ ownIn t (log ++ [r]) p := List.mem_of_getLast? hq
      rw [ownIn_concat] at hq
      by_cases hr : r.directory = some p ∧ r.transactionId = t
      · -- the update itself
        rw [if_pos hr] at hq
        obtain rfl : r = q := by simpa using hq
        obtain ⟨hlogged, -⟩ := hstep.resolve_left (by simp [hr.1])
        rw [directory_of_page htype] at hr
        obtain rfl := Option.some.inj hr.1
        have hne : (pathOf r.tableFile).dropLast ≠ [] := fun hnil => by
          obtain ⟨d, hd, hne⟩ := hlogged.change
          rw [directory_of_page htype, hnil] at hd
          exact hne (Option.some.inj hd).symm
        have hready := (hlogged.ready htype).resolve_left hne
        obtain ⟨c, -, hc⟩ := h.run_eq (pathOf r.tableFile).dropLast
        rw [replayed_concat, Patch.apply_of_none, hready]
        simp [WalRecord.redoPatch, htype, pagePatch]
      · rw [if_neg hr, List.append_nil] at hq
        have ih := ih h' hopen.of_concat hq htype
        obtain ⟨hqlog, hqp, hqt⟩ := mem_ownIn.mp (List.mem_of_getLast? hq)
        rcases hstep with hcontrol | ⟨hlogged, -⟩
        · rw [replayed_control hcontrol, ih]
        · -- no other transaction moves the directory while the lock is held
          have hother : r.directory ≠ some p := fun hrp => hr ⟨hrp, by
            have hactive := h'.active_of_own hopen.of_concat hqlog hqt
            rw [← hqt, hlogged.unlocked q hqlog (hqt ▸ hactive) (hqp.trans hrp.symm)]⟩
          have hidle := hlogged.redoMove_other hqlog hqp hother
          have hflags : ∀ p, ∃ c, replayed start log (.directory p) = .present c := fun p => by
            obtain ⟨c, -, hc⟩ := h'.run_eq p
            exact ⟨c, hc⟩
          choose b hb using hflags
          have hpatch := Act.patch_directory contentView (a := .redo r) hb p
          have hbp : b p = true := by
            have := (hb p).symm.trans ih
            simpa using this
          rw [replayed_concat]
          refine hpatch.trans ?_
          simp [Act.move, hidle, Move.step, hbp]

/-- Among the transaction's records of a directory only page updates and
schema updates come right after a page update. -/
theorem own_chain (h : TableHistory (SafeStep t start) start log) (hopen : Unfinished log t)
    (p : Path) :
    ((ownIn t log p).map (·.type)).IsChain fun y x => WalRecordType.Before x y := by
  induction log using List.reverseRecOn with
  | nil => exact List.isChain_nil
  | append_singleton log r ih =>
      obtain ⟨h', hstep⟩ := h.concat_inv
      have ih := ih h' hopen.of_concat
      rw [ownIn_concat]
      by_cases hr : r.directory = some p ∧ r.transactionId = t
      swap
      · rwa [if_neg hr, List.append_nil]
      rw [if_pos hr, List.map_append, List.isChain_append]
      refine ⟨ih, List.isChain_singleton _, fun y hy x hx hpage => ?_⟩
      obtain rfl : r.type = x := by simpa using hx
      rw [List.getLast?_map, Option.mem_map] at hy
      obtain ⟨q, hq, rfl⟩ := hy
      obtain ⟨hlogged, hsafe⟩ := hstep.resolve_left (by simp [hr.1])
      have hpresent := own_present h' hopen.of_concat hq hpage
      have hdir := hr.1
      unfold WalRecord.directory at hdir
      unfold SafeStep at hsafe
      rcases htype : r.type with _ | _ | _ | _ | _ | _ | _ | _ | c <;>
        simp only [htype] at hdir hsafe <;>
        first | exact Or.inl rfl | exact Or.inr rfl | contradiction | skip
      · -- a table is created where nothing is
        obtain rfl := Option.some.inj hdir
        have hvacant := hsafe (.directory (pathOf r.tableFile)) (List.prefix_refl _)
        rw [hpresent] at hvacant
        cases hvacant
      · -- a table is not dropped right after a page update
        obtain rfl := Option.some.inj hdir
        exact absurd hpage ((hsafe.2 hr.2).2 q hq)

/-- What undo of the transaction's records assigns: the first of them decides. -/
def ownUndo (t : Nat) (log : List WalRecord) : Patch Loc (Val Page) :=
  Patch.last ((log.filter fun r => decide (r.transactionId = t)).reverse.map
    (WalRecord.undoPatch contentView))

theorem ownUndo_concat (t : Nat) (log : List WalRecord) (r : WalRecord) (k : Loc) :
    ownUndo t (log ++ [r]) k = (ownUndo t log k).or
      (if r.transactionId = t then r.undoPatch contentView k else none) := by
  unfold ownUndo
  rw [List.filter_append, List.reverse_append, List.map_append, Patch.last_append]
  by_cases ht : r.transactionId = t
  · simp [ht, Patch.last_singleton]
  · simp [ht, Patch.last, Patch.skip]

/-- Table directories, schema texts and pages. -/
def Loc.Counts : Loc → Prop
  | file _ => False
  | _ => True

theorem undo_value (hlogged : Logged start log r) (hsafe : SafeStep t start log r) {k : Loc}
    (hk : k.Counts) {v : Val Page} (hv : r.undoPatch contentView k = some v) :
    Restored k (replayed start log k) v := by
  have hcontent := hlogged.content
  unfold WalRecord.Matches at hcontent
  unfold SafeStep at hsafe
  unfold WalRecord.undoPatch at hv
  rcases htype : r.type with _ | _ | _ | _ | _ | _ | _ | _ | c <;>
    simp only [htype] at hcontent hsafe hv <;> try cases hv
  · cases k <;> simp [pagePatch] at hv
    · exact hk.elim
    · obtain ⟨⟨rfl, rfl⟩, rfl⟩ := hv
      exact hcontent.2
  · simp [dropPatch] at hv
    obtain ⟨hunder, rfl⟩ := hv
    exact Or.inl (hsafe k hunder).symm
  · cases k <;> simp [schemaPatch] at hv
    · obtain ⟨hunder, rfl⟩ := hv
      exact Or.inl (hcontent.1 _ hunder).symm
    · obtain ⟨rfl, rfl⟩ := hv
      exact Or.inl hcontent.2.symm

theorem redo_frame (hlogged : Logged start log r) (hdrop : r.type ≠ .dropTable) {k : Loc}
    (hk : k.Counts) (hu : r.undoPatch contentView k = none) :
    replayed start (log ++ [r]) k = replayed start log k := by
  have hcontent := hlogged.content
  rw [replayed_concat]
  unfold WalRecord.Matches at hcontent
  unfold WalRecord.undoPatch at hu
  unfold WalRecord.redoPatch
  rcases htype : r.type with _ | _ | _ | _ | _ | _ | _ | _ | c <;>
    simp only [htype] at hcontent hu ⊢ <;> try rfl
  · refine Patch.apply_of_none ?_ _
    cases k <;> simp_all [pagePatch, Loc.Counts]
  · -- above its own, `create_table` finds the directories it needs
    cases k with
    | directory x =>
        by_cases hx : x <+: pathOf r.tableFile
        · have hne : x ≠ pathOf r.tableFile := by
            rintro rfl
            simp [dropPatch, Loc.path] at hu
          rw [Patch.apply_of_some (v := .present true) (by simp [createPatch, schemaPatch, hx]),
            hcontent x hx hne]
        · exact Patch.apply_of_none (by simp [createPatch, schemaPatch, hx]) _
    | text x =>
        refine Patch.apply_of_none ?_ _
        have hne : x ≠ pathOf r.tableFile ++ [schemaFileName] := by
          rintro rfl
          simp [dropPatch, Loc.path] at hu
        simp [createPatch, schemaPatch, hne]
    | file x => exact hk.elim
    | page x j => rfl
  · exact absurd htype hdrop
  · refine Patch.apply_of_none ?_ _
    cases k <;> simp_all [schemaPatch]

/-- A location that undo of the transaction does not assign is as before the
transaction, and what undo assigns is what was there. -/
theorem own_restores {pre post : List WalRecord}
    (h : TableHistory (SafeStep t start) start (pre ++ post))
    (hpre : ∀ r ∈ pre, r.transactionId ≠ t) {k : Loc} (hk : k.Counts)
    (hothers : ∀ r ∈ post, r.transactionId ≠ t → r.redoPatch contentView k = none) :
    (ownUndo t (pre ++ post) k = none ∧
      replayed start (pre ++ post) k = replayed start pre k) ∨
    ∃ v, ownUndo t (pre ++ post) k = some v ∧ Restored k (replayed start pre k) v := by
  induction post using List.reverseRecOn with
  | nil =>
      rw [List.append_nil]
      refine Or.inl ⟨?_, rfl⟩
      rw [ownUndo, List.filter_eq_nil_iff.mpr fun r hr => by simpa using hpre r hr]
      rfl
  | append_singleton post r ih =>
      rw [← List.append_assoc] at h ⊢
      obtain ⟨h', hstep⟩ := h.concat_inv
      have hundo := ownUndo_concat t (pre ++ post) r k
      rcases ih h' fun q hq => hothers q (List.mem_append_left _ hq) with ⟨hu, ih⟩ | ⟨v, hu, ih⟩
      swap
      · -- decided by an earlier record
        rw [hu, Option.some_or] at hundo
        exact Or.inr ⟨v, hundo, ih⟩
      rw [hu, Option.none_or] at hundo
      by_cases ht : r.transactionId = t
      swap
      · rw [if_neg ht] at hundo
        refine Or.inl ⟨hundo, ?_⟩
        rw [replayed_concat, Patch.apply_of_none (hothers r (by simp) ht), ih]
      rw [if_pos ht] at hundo
      rcases hstep with hcontrol | ⟨hlogged, hsafe⟩
      · rw [undoPatch_control hcontrol] at hundo
        exact Or.inl ⟨hundo, by rw [replayed_control hcontrol, ih]⟩
      rcases hv : r.undoPatch contentView k with _ | v
      · rw [hv] at hundo
        refine Or.inl ⟨hundo, ?_⟩
        by_cases hdrop : r.type = .dropTable
        · -- the transaction created what it drops, so nothing else is touched
          rw [replayed_concat, Patch.apply_of_none, ih]
          rw [SafeStep, hdrop] at hsafe
          obtain ⟨q, hq, hqtype⟩ := (hsafe.2 ht).1
          obtain ⟨hqlog, hqp, hqt⟩ := mem_ownIn.mp hq
          have hnone := Patch.last_eq_none_iff.mp hu (q.undoPatch contentView)
            (List.mem_map_of_mem (List.mem_reverse.mpr (List.mem_filter.mpr
              ⟨hqlog, by simpa using hqt⟩)))
          have hpath : pathOf q.tableFile = pathOf r.tableFile := by
            simpa [WalRecord.directory, hqtype] using hqp
          rw [WalRecord.undoPatch, hqtype] at hnone
          simpa [WalRecord.redoPatch, hdrop, hpath] using hnone
        · rw [redo_frame hlogged hdrop hk hv, ih]
      · rw [hv] at hundo
        have hvalue := undo_value hlogged hsafe hk hv
        rw [ih] at hvalue
        exact Or.inr ⟨v, hundo, hvalue⟩

/-- Undo of the transaction, in a state that is as logged where undo does not
assign, gives every location back that no other transaction has assigned since. -/
theorem ownUndo_restores {pre post : List WalRecord}
    (h : TableHistory (SafeStep t start) start (pre ++ post))
    (hpre : ∀ r ∈ pre, r.transactionId ≠ t) {k : Loc} (hk : k.Counts)
    (hothers : ∀ r ∈ post, r.transactionId ≠ t → r.redoPatch contentView k = none)
    {s : Loc → Val Page}
    (hs : ownUndo t (pre ++ post) k = none → s k = replayed start (pre ++ post) k) :
    Restored k (replayed start pre k) ((ownUndo t (pre ++ post)).apply s k) := by
  rcases own_restores h hpre hk hothers with ⟨hnone, hsame⟩ | ⟨v, hv, hrestored⟩
  · rw [Patch.apply_of_none hnone, hs hnone, hsame]
    exact Or.inl rfl
  · rwa [Patch.apply_of_some hv]

/-! ## Undo and recovery -/

/-- The steps that undo the transaction's records. -/
def ownActs (t : Nat) (log : List WalRecord) : List Act :=
  (log.filter fun r => decide (r.transactionId = t)).reverse.map Act.undo

/-- Undo finds every directory from a state that has those of the last updates. -/
theorem own_playable (h : TableHistory (SafeStep t start) start log) (hopen : Unfinished log t)
    {s : Loc → Val Page} {b : Path → Bool} (hb : ∀ p, s (.directory p) = .present (b p))
    (hlast : ∀ p, ∀ q ∈ (ownIn t log p).getLast?, q.type = .pageUpdate → b p = true) :
    Patch.Playable ((ownActs t log).map (Act.guard contentView)) s := by
  refine (Act.playable_iff_run contentView _ hb).mpr fun p => ?_
  by_cases hneed : Move.need ∈ (ownActs t log).map (Act.move p)
  swap
  · exact Move.run_isSome_of_not_need hneed _
  obtain ⟨q, hq, hqp⟩ : ∃ q ∈ log, q.directory = some p := by
    obtain ⟨a, ha, hmove⟩ := List.mem_map.mp hneed
    obtain ⟨r, hr, rfl⟩ := List.mem_map.mp ha
    have hneed : r.undoMove p = .need := hmove
    refine ⟨r, List.mem_of_mem_filter (List.mem_reverse.mp hr), ?_⟩
    unfold WalRecord.undoMove at hneed
    unfold WalRecord.directory
    rcases htype : r.type with _ | _ | _ | _ | _ | _ | _ | _ | c <;> simp only [htype] at hneed ⊢ <;>
      grind
  have hown : inDirectory (log.filter fun r => decide (r.transactionId = t)).reverse p =
      (ownIn t log p).reverse := by
    rw [inDirectory, List.filter_reverse, ownIn, inDirectory, List.filter_comm]
  have hword : Move.run (b p) ((log.filter fun r => decide (r.transactionId = t)).reverse.map
      (WalRecord.undoMove p)) = _ :=
    run_inDirectory (fun r hr => undoMove_eq h.flat h.placed hq hqp
      (List.mem_of_mem_filter (List.mem_reverse.mp hr))) (b p)
  rw [hown] at hword
  have hchain : ((ownIn t log p).reverse.map (·.type)).IsChain WalRecordType.Before := by
    rw [List.map_reverse, List.isChain_reverse]
    exact own_chain h hopen p
  obtain ⟨c, hc, -⟩ := WalRecordType.run_undo hchain (c := b p) fun x hx hpage => by
    rw [List.map_reverse, List.head?_reverse, List.getLast?_map, Option.mem_map] at hx
    obtain ⟨q, hq, rfl⟩ := hx
    exact hlast p q hq hpage
  have hmoves : (ownActs t log).map (Act.move p) =
      (log.filter fun r => decide (r.transactionId = t)).reverse.map (WalRecord.undoMove p) := by
    simp [ownActs, Function.comp_def, Act.move]
  rw [hmoves, hword]
  rw [List.map_map] at hc
  exact Option.isSome_iff_exists.mpr ⟨c, hc⟩

theorem play_ownActs (t : Nat) (log : List WalRecord) (s : Loc → Val Page) :
    Patch.play ((ownActs t log).map (Act.guard contentView)) s = (ownUndo t log).apply s := by
  rw [Patch.play, Patch.applyAll_eq_last, ownUndo, ownActs, List.map_map, List.map_map]
  rfl

/-- What a rollback may find on disk: everything as logged, except where the
transaction itself has made changes, but with the directories it wrote in. -/
structure RollbackDisk (t : Nat) (start : FileSystem) (log : List WalRecord) (fs : FileSystem) :
    Prop where
  others : ∀ k, ownUndo t log k = none → fs.view contentView k = replayed start log k
  directories : ∀ r ∈ log, r.transactionId = t → r.type = .pageUpdate →
    Finds (pathOf r.tableFile) (replayed start log) →
    Finds (pathOf r.tableFile) (fs.view contentView)

/-- What a crash may leave on disk: anything where a record of the log has
assigned, and every directory of the start that no `drop_table` named. -/
structure CrashDisk (start : FileSystem) (log : List WalRecord) (fs : FileSystem) : Prop where
  unassigned : ∀ k, (∀ r ∈ log, r.redoPatch contentView k = none) →
    fs.view contentView k = start.view contentView k
  directories : ∀ p, start.isDirectory p = true →
    (∀ r ∈ log, r.type = .dropTable → ¬pathOf r.tableFile <+: p) → fs.isDirectory p = true

theorem TableHistory.last_own {condition : List WalRecord → WalRecord → Prop}
    (h : TableHistory condition start log) {q : WalRecord}
    (hq : q ∈ (ownIn t log p).getLast?) (htype : q.type = .pageUpdate) :
    q ∈ log ∧ q.transactionId = t ∧ (pathOf q.tableFile).dropLast = p ∧ p ≠ [] := by
  obtain ⟨hlog, hp, ht⟩ := mem_ownIn.mp (List.mem_of_getLast? hq)
  have hpath := hp
  rw [directory_of_page htype] at hpath
  exact ⟨hlog, ht, Option.some.inj hpath, fun hnil => h.placed q hlog (hnil ▸ hp)⟩

/-- `rollback_transaction` of the unfinished transaction. -/
theorem rollback_restores {pre post : List WalRecord}
    (h : TableHistory (SafeStep t start) start (pre ++ post)) (ht : t ≠ 0)
    (hpre : ∀ r ∈ pre, r.transactionId ≠ t) (hopen : Unfinished (pre ++ post) t) {w : World}
    (hwal : w.disk.wal = pre ++ post) (hdisk : RollbackDisk t start (pre ++ post) w.disk.fs) :
    (rollbackTransaction t w).1 = .ok true ∧ ∀ k : Loc, k.Counts →
      (∀ r ∈ post, r.transactionId ≠ t → r.redoPatch contentView k = none) →
      Restored k (replayed start pre k)
        ((rollbackTransaction t w).2.disk.fs.view contentView k) := by
  have hform : ∀ r ∈ w.disk.wal, r.WellFormed := by
    rw [hwal]
    exact h.wellFormed
  have hacts : (rolledBack t w.disk.wal).map (WalRecord.undoGuard contentView) =
      (ownActs t (pre ++ post)).map (Act.guard contentView) := by
    rw [hwal, rolledBack_eq, ownActs, List.map_map]
    rfl
  have hplay : Patch.Playable ((rolledBack t w.disk.wal).map (WalRecord.undoGuard contentView))
      (w.disk.fs.view contentView) := by
    rw [hacts]
    refine own_playable h hopen (b := w.disk.fs.isDirectory) (fun _ => rfl) fun p q hq htype => ?_
    obtain ⟨hqlog, hqt, rfl, hne⟩ := h.last_own hq htype
    have hpresent := own_present h hopen hq htype
    have hfinds := hdisk.directories q hqlog hqt htype (Or.inr hpresent)
    simpa using hfinds.resolve_left hne
  refine ⟨(rollback_true_iff contentView ht hform).mpr hplay, fun k hk hothers => ?_⟩
  rw [view_rollback contentView ht hform hplay, hacts, play_ownActs]
  exact ownUndo_restores h hpre hk hothers (hdisk.others k)

theorem Move.run_of_kill {ms : List Move} {c : Bool} (hkill : Move.kill ∈ ms)
    (h : Move.run false ms = some c) (b : Bool) : Move.run b ms = some c := by
  induction ms generalizing b with
  | nil => cases hkill
  | cons m ms ih =>
      cases m with
      | idle =>
          exact ih (by simpa using hkill) h b
      | need => cases h
      | _ => exact h

/-- A directory that is dropped was not needed before the log brought it. -/
theorem run_false_of_drop (h : TableHistory (SafeStep t start) start log) {q : WalRecord}
    (hq : q ∈ log) (hqp : q.directory = some p)
    (hkill : Move.kill ∈ log.map (WalRecord.redoMove p)) :
    Move.run false (log.map (WalRecord.redoMove p)) ≠ none := by
  induction log using List.reverseRecOn generalizing q with
  | nil => cases hkill
  | append_singleton log r ih =>
      obtain ⟨h', hstep⟩ := h.concat_inv
      rw [List.map_append, List.map_singleton] at hkill ⊢
      rw [Move.run_append]
      by_cases hearlier : Move.kill ∈ log.map (WalRecord.redoMove p)
      · obtain ⟨q', hq', hq'p⟩ : ∃ q ∈ log, q.directory = some p := by
          obtain ⟨a, ha, hmove⟩ := List.mem_map.mp hearlier
          have heq := redoMove_eq h.flat h.placed hq hqp (List.mem_append_left _ ha)
          rw [hmove] at heq
          refine ⟨a, ha, ?_⟩
          by_contra hne
          rw [if_neg hne] at heq
          cases heq
        have ih := ih h' hq' hq'p hearlier
        obtain ⟨c, hc⟩ := Option.ne_none_iff_exists'.mp ih
        obtain ⟨c', hc', -⟩ := h.run_eq p
        rw [List.map_append, List.map_singleton, Move.run_append,
          Move.run_of_kill hearlier hc] at hc'
        rw [hc, hc']
        simp
      · have hr : r.redoMove p = .kill := by simpa [hearlier, eq_comm] using hkill
        have heq := redoMove_eq h.flat h.placed hq hqp (r := r) (by simp)
        rw [hr] at heq
        have hrp : r.directory = some p := by
          by_contra hne
          rw [if_neg hne] at heq
          cases heq
        rw [if_pos hrp] at heq
        have htype : r.type = .dropTable := by
          rcases htype : r.type with _ | _ | _ | _ | _ | _ | _ | _ | c <;>
            simp [htype, WalRecordType.redoOf] at heq ⊢
        obtain ⟨-, hsafe⟩ := hstep.resolve_left (by simp [hrp])
        rw [SafeStep, htype] at hsafe
        have hpath : pathOf r.tableFile = p := by simpa [WalRecord.directory, htype] using hrp
        rw [hpath] at hsafe
        obtain ⟨c, hc⟩ := Option.ne_none_iff_exists'.mp hsafe.1
        rw [hc, Option.bind_some, hr]
        simp [Move.run_cons, Move.step]

/-- Redo of a history finds every directory on the disk of a crash. -/
theorem redo_playable (h : TableHistory (SafeStep t start) start log) {fs : FileSystem}
    (hdisk : CrashDisk start log fs) :
    Patch.Playable (log.map (WalRecord.redoGuard contentView)) (fs.view contentView) := by
  have hacts : log.map (WalRecord.redoGuard contentView) =
      (log.map Act.redo).map (Act.guard contentView) := by
    rw [List.map_map]
    rfl
  have hmoves : ∀ p, (log.map Act.redo).map (Act.move p) = log.map (WalRecord.redoMove p) :=
    fun p => by
      rw [List.map_map]
      rfl
  rw [hacts]
  refine (Act.playable_iff_run contentView _ (b := fs.isDirectory) fun _ => rfl).mpr fun p => ?_
  rw [hmoves]
  by_cases hneed : Move.need ∈ log.map (WalRecord.redoMove p)
  swap
  · exact Move.run_isSome_of_not_need hneed _
  rcases hrun : Move.run false (log.map (WalRecord.redoMove p)) with _ | c
  · -- needed before the log brings it: it was there and no drop names it
    obtain ⟨q, hq, hmove⟩ := List.mem_map.mp hneed
    have hqp : q.directory = some p := by
      unfold WalRecord.redoMove at hmove
      unfold WalRecord.directory
      rcases htype : q.type with _ | _ | _ | _ | _ | _ | _ | _ | c <;>
        simp only [htype] at hmove ⊢ <;> grind
    obtain ⟨c, hc, -⟩ := h.run_eq p
    have hstart : start.isDirectory p = true := by
      cases hs : start.isDirectory p
      · rw [hs, hrun] at hc
        cases hc
      · rfl
    have hnokill : Move.kill ∉ log.map (WalRecord.redoMove p) := fun hkill =>
      run_false_of_drop h hq hqp hkill hrun
    have hhere : fs.isDirectory p = true := by
      refine hdisk.directories p hstart fun r hr htype hunder => hnokill ?_
      refine List.mem_map.mpr ⟨r, hr, ?_⟩
      simp [WalRecord.redoMove, htype, hunder]
    rw [hstart] at hc
    rw [hhere, hc]
    rfl
  · have hfalse : (Move.run false (log.map (WalRecord.redoMove p))).isSome = true := by
      rw [hrun]
      rfl
    cases fs.isDirectory p
    · exact hfalse
    · exact Move.run_mono hfalse

/-- `recover` with one unfinished transaction. -/
theorem recover_restores {pre post : List WalRecord}
    (h : TableHistory (SafeStep t start) start (pre ++ post))
    (hpre : ∀ r ∈ pre, r.transactionId ≠ t) (hopen : Unfinished (pre ++ post) t)
    (honly : ∀ u, Active (pre ++ post) u ↔ u = t) {w : World} (hwal : w.disk.wal = pre ++ post)
    (hdisk : CrashDisk start (pre ++ post) w.disk.fs) :
    (recover w).1 = .ok true ∧ ∀ k : Loc, k.Counts →
      (∀ r ∈ post, r.transactionId ≠ t → r.redoPatch contentView k = none) →
      Restored k (replayed start pre k) ((recover w).2.disk.fs.view contentView k) := by
  have hform : ∀ r ∈ w.disk.wal, r.WellFormed := by
    rw [hwal]
    exact h.wellFormed
  have hguards : replayGuards contentView w.disk.wal =
      (pre ++ post).map (WalRecord.redoGuard contentView) ++
        (ownActs t (pre ++ post)).map (Act.guard contentView) := by
    rw [hwal, replayGuards_eq contentView h.allBegun, ownActs, List.map_map]
    simp only [honly]
    rfl
  -- redo brings the disk to the logged state
  have hredone : Patch.play ((pre ++ post).map (WalRecord.redoGuard contentView))
      (w.disk.fs.view contentView) = replayed start (pre ++ post) := by
    rw [Patch.play, List.map_map, replayed]
    refine Patch.applyAll_congr fun k hnone => hdisk.unassigned k fun r hr => ?_
    exact hnone _ (List.mem_map_of_mem hr)
  have hflags : ∀ p, ∃ c, replayed start (pre ++ post) (.directory p) = .present c := fun p => by
    obtain ⟨c, -, hc⟩ := h.run_eq p
    exact ⟨c, hc⟩
  choose b hb using hflags
  have hplay : Patch.Playable (replayGuards contentView w.disk.wal)
      (w.disk.fs.view contentView) := by
    rw [hguards, Patch.playable_append, hredone]
    refine ⟨redo_playable h hdisk, own_playable h hopen hb fun p q hq htype => ?_⟩
    have hpresent := (hb p).symm.trans (own_present h hopen hq htype)
    simpa using hpresent
  refine ⟨(recover_true_iff contentView hform).mpr hplay, fun k hk hothers => ?_⟩
  rw [view_recover contentView hform hplay, hguards, Patch.play_append, hredone, play_ownActs]
  exact ownUndo_restores h hpre hk hothers fun _ => rfl

/-- `rollback_transaction` and `recover` return true and leave what was there
before `t`, where no other transaction has made a change since. -/
def TakenBack (t : Nat) (start : FileSystem) (pre post : List WalRecord) (w : World) : Prop :=
  (RollbackDisk t start (pre ++ post) w.disk.fs →
    (rollbackTransaction t w).1 = .ok true ∧ ∀ k : Loc, k.Counts →
      (∀ r ∈ post, r.transactionId ≠ t → r.redoPatch contentView k = none) →
      Restored k (replayed start pre k)
        ((rollbackTransaction t w).2.disk.fs.view contentView k)) ∧
  (CrashDisk start (pre ++ post) w.disk.fs →
    (recover w).1 = .ok true ∧ ∀ k : Loc, k.Counts →
      (∀ r ∈ post, r.transactionId ≠ t → r.redoPatch contentView k = none) →
      Restored k (replayed start pre k) ((recover w).2.disk.fs.view contentView k))

/-- The disk that has every change of the log. -/
def upToDate (start : FileSystem) (log : List WalRecord) : FileSystem :=
  Effect.applyFsAll start (redoAll log)

theorem view_upToDate (start : FileSystem) (log : List WalRecord) :
    (upToDate start log).view contentView = replayed start log := by
  rw [upToDate, Effect.view_applyFsAll, play_redoAll, Patch.play, List.map_map]
  rfl

theorem rollbackDisk_upToDate (t : Nat) (start : FileSystem) (log : List WalRecord) :
    RollbackDisk t start log (upToDate start log) where
  others k _ := congrFun (view_upToDate start log) k
  directories r _ _ _ hfinds := by rwa [view_upToDate]

theorem crashDisk_upToDate {start : FileSystem} {log : List WalRecord}
    (hdirs : ∀ p, start.isDirectory p = true →
      (∀ r ∈ log, r.type = .dropTable → ¬pathOf r.tableFile <+: p) →
      replayed start log (.directory p) = .present true) :
    CrashDisk start log (upToDate start log) where
  unassigned k hk := by
    rw [view_upToDate, replayed, Patch.applyAll_eq_last]
    refine Patch.apply_of_none (Patch.last_eq_none_iff.mpr fun q hq => ?_) _
    obtain ⟨r, hr, rfl⟩ := List.mem_map.mp hq
    exact hk r hr
  directories p hp hdrop := by
    have hview := (congrFun (view_upToDate start log) (.directory p)).trans (hdirs p hp hdrop)
    simpa using hview

end Unfinished

/-! ## A table created, and a table dropped -/

/-- The disk on which nothing exists but the directory of the database. -/
def noFiles : FileSystem := ⟨fun p => p.isEmpty, fun _ => none, fun _ => none⟩

def beginOne : WalRecord := ⟨.beginTransaction, 1, 1, noPageId, [], [], [], []⟩

/-- Transaction 1 creates table `d`. -/
def createOne : WalRecord := ⟨.createTable, 2, 1, noPageId, [100], [], [116, 100], []⟩

/-- Transaction 1 drops table `d`. -/
def dropOne : WalRecord := ⟨.dropTable, 2, 1, noPageId, [100], [], [], []⟩

theorem active_beginOne (r : WalRecord) (hr : r = createOne ∨ r = dropOne) (u : Nat) :
    Active ([] ++ [beginOne, r]) u ↔ u = 1 := by
  have hlist : ([] ++ [beginOne, r] : List WalRecord) = [beginOne] ++ [r] := rfl
  have hbegin : Active ([] ++ [beginOne]) u ↔ Active [] u ∨ 1 = u :=
    active_append_begin rfl (by simp)
  rw [hlist, active_append_of_changes]
  · rw [← List.nil_append [beginOne], hbegin]
    simp [Active, HasRecord, eq_comm]
  · intro q hq
    rw [List.mem_singleton.mp hq]
    rcases hr with rfl | rfl <;> decide

theorem tableHistory_createOne :
    TableHistory (SafeStep 1 noFiles) noFiles ([] ++ [beginOne, createOne]) := by
  have hpath : pathOf createOne.tableFile = [[100]] := by decide
  refine (TableHistory.nil.begin (r := beginOne) rfl (by decide) (by simp)).change (r := createOne)
    ⟨List.cons_ne_nil _ _, ⟨[[100]], rfl, by decide⟩, by decide, by decide, ?_, ?_⟩ ?_
  · intro q hq d hd
    rw [List.mem_singleton.mp hq] at hd
    cases hd
  · -- the only directory above it is that of the database
    intro x hx hne
    rw [hpath] at hx hne
    rcases List.prefix_cons_iff.mp hx with rfl | ⟨y, rfl, hy⟩
    · rfl
    · exact absurd (by rw [List.prefix_nil.mp hy]) hne
  · intro k hk
    rw [hpath] at hk
    have hne : k.path ≠ [] := by
      rintro hnil
      rw [hnil, List.prefix_nil] at hk
      cases hk
    cases k with
    | directory p => exact congrArg Val.present (by simpa [noFiles, Loc.path] using hne)
    | _ => rfl

/-- The disk with the directory of table `d`. -/
def oneTable : FileSystem :=
  ⟨fun p => p.isEmpty || p == [[100]], fun _ => none, fun _ => none⟩

end ScratchDb
