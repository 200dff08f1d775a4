import ScratchDb.Recovery.Restart

/-!
# When recovery is restartable

The state an interrupted and repeated recovery ends in, and the exact
condition under which every interruption can be recovered from.
-/

namespace ScratchDb

open WalManager

/-! ## Where a record assigns -/

section Covers

variable {V : Type} (E : PageView V)

/-- The location lies under directory `e`, or it is a directory above `e` that
is being created. -/
def Within (e : Path) (k : Loc) (v : Val V) : Prop :=
  e <+: k.path ∨ v = .present true ∧ ∃ x, k = .directory x ∧ x <+: e

theorem pagePatch_within {file : Path} {j : Nat} {u : V} {k : Loc} {v : Val V}
    (h : pagePatch file j u k = some v) : Within file.dropLast k v := by
  have hunder := List.dropLast_prefix file
  cases k <;> simp [pagePatch] at h
  · exact Or.inl (h.1 ▸ hunder)
  · exact Or.inl (h.1.1 ▸ hunder)

theorem schemaPatch_within {d : Path} {t : Bytes} {k : Loc} {v : Val V}
    (h : schemaPatch d t k = some v) : Within d k v := by
  cases k <;> simp [schemaPatch] at h
  · exact Or.inr ⟨h.2.symm, _, rfl, h.1⟩
  · exact Or.inl (h.1 ▸ List.prefix_append _ _)

theorem createPatch_within {d : Path} {t : Bytes} {k : Loc} {v : Val V}
    (h : createPatch d t k = some v) : Within d k v := by
  cases k with
  | file p =>
      simp [createPatch] at h
      exact Or.inl (h.1 ▸ List.prefix_append _ _)
  | _ => exact schemaPatch_within (t := t) h

theorem dropPatch_within {d : Path} {k : Loc} {v : Val V} (h : dropPatch E d k = some v) :
    Within d k v := by
  simp [dropPatch] at h
  exact Or.inl h.1

theorem redoPatch_within {r : WalRecord} {k : Loc} {v : Val V} (h : r.redoPatch E k = some v) :
    ∃ e, r.directory = some e ∧ Within e k v := by
  unfold WalRecord.redoPatch at h
  unfold WalRecord.directory
  rcases htype : r.type with _ | _ | _ | _ | _ | _ | _ | _ | c <;> rw [htype] at h <;>
    first
    | exact ⟨_, rfl, pagePatch_within h⟩
    | exact ⟨_, rfl, createPatch_within h⟩
    | exact ⟨_, rfl, dropPatch_within E h⟩
    | exact ⟨_, rfl, schemaPatch_within h⟩
    | simp [Patch.skip] at h

theorem undoPatch_within {r : WalRecord} {k : Loc} {v : Val V} (h : r.undoPatch E k = some v) :
    ∃ e, r.directory = some e ∧ Within e k v := by
  unfold WalRecord.undoPatch at h
  unfold WalRecord.directory
  rcases htype : r.type with _ | _ | _ | _ | _ | _ | _ | _ | c <;> rw [htype] at h <;>
    first
    | exact ⟨_, rfl, pagePatch_within h⟩
    | exact ⟨_, rfl, dropPatch_within E h⟩
    | exact ⟨_, rfl, schemaPatch_within h⟩
    | simp [Patch.skip] at h

theorem reundoPatch_within {r : WalRecord} {k : Loc} {v : Val V} (h : reundoPatch E r k = some v) :
    ∃ e, r.directory = some e ∧ Within e k v := by
  unfold reundoPatch at h
  unfold WalRecord.directory
  rcases htype : r.type with _ | _ | _ | _ | _ | _ | _ | _ | c <;> rw [htype] at h <;>
    first
    | exact ⟨_, rfl, pagePatch_within h⟩
    | exact ⟨_, rfl, schemaPatch_within h⟩
    | simp [Patch.skip] at h

/-- A directory above its own that undo of a record creates, redo creates too. -/
theorem redoPatch_above {r : WalRecord} {x e : Path} {v : Val V}
    (h : r.undoPatch E (.directory x) = some v) (he : r.directory = some e) (hne : ¬e <+: x) :
    r.redoPatch E (.directory x) = some (.present true) := by
  unfold WalRecord.undoPatch at h
  unfold WalRecord.directory at he
  unfold WalRecord.redoPatch
  rcases htype : r.type with _ | _ | _ | _ | _ | _ | _ | _ | c <;>
    simp_all [Patch.skip, pagePatch, dropPatch, schemaPatch, Loc.path]

end Covers

/-! ## The state after a repeated recovery -/

section State

variable {V : Type} (E : PageView V) {log log' soFar : List WalRecord} {finished : List Nat}

theorem last_map_eq_none {rs : List WalRecord} {f : WalRecord → Patch Loc (Val V)} {k : Loc}
    (h : ∀ r ∈ rs, f r k = none) : Patch.last (rs.map f) k = none := by
  rw [Patch.last_eq_none_iff]
  intro p hp
  obtain ⟨r, hr, rfl⟩ := List.mem_map.mp hp
  exact h r hr

theorem last_map_filter {rs : List WalRecord} {f : WalRecord → Patch Loc (Val V)} {k : Loc}
    {keep : WalRecord → Bool} (h : ∀ r ∈ rs, keep r = false → f r k = none) :
    Patch.last ((rs.filter keep).map f) k = Patch.last (rs.map f) k := by
  induction rs with
  | nil => rfl
  | cons r rs ih =>
      have ih := ih fun q hq => h q (List.mem_cons_of_mem _ hq)
      rcases hkeep : keep r with _ | _
      · rw [List.filter_cons_of_neg (by simp [hkeep]), ih]
        simp [Patch.last, h r List.mem_cons_self hkeep]
      · rw [List.filter_cons_of_pos hkeep]
        simp [Patch.last, ih]

theorem compensated_of_undoPatch {r : WalRecord} (h : r.compensated = false) (k : Loc) :
    r.undoPatch E k = none := by
  rw [WalRecord.undoPatch_of_not_compensated E h]
  rfl

/-- What a repeated recovery assigns: redo of the log and of the undone part,
undo of that part where still unfinished, and undo of what is unfinished. -/
theorem Interrupted.last_replay (h : Interrupted log log' soFar finished) (hlog : AllBegun log)
    (k : Loc) :
    Patch.last ((replayGuards E log').map Patch.Guarded.patch) k =
      (Patch.last (((undone log).filter fun r => decide (Active log' r.transactionId)).map
          (WalRecord.undoPatch E)) k).or
        ((Patch.last ((soFar.filter fun r => decide (Active log' r.transactionId)).reverse.map
          (reundoPatch E)) k).or
          ((Patch.last (soFar.map (WalRecord.undoPatch E)) k).or
            (Patch.last (log.map (WalRecord.redoPatch E)) k))) := by
  have hundone : (log.filter fun r => decide (Active log' r.transactionId)).reverse =
      (undone log).filter fun r => decide (Active log' r.transactionId) := by
    rw [undone_eq, List.filter_reverse, List.filter_filter]
    congr 1
    refine List.filter_congr fun r _ => ?_
    by_cases hr : Active log' r.transactionId
    · simp [hr, (h.active_iff.mp hr).1]
    · simp [hr]
  rw [replayGuards_eq E (h.allBegun hlog), ← hundone]
  generalize hkeep : (fun t => decide (Active log' t)) = keep
  have hkeep' : ∀ rs : List WalRecord, rs.filter (fun r => decide (Active log' r.transactionId)) =
      rs.filter fun r => keep r.transactionId := fun rs => by rw [← hkeep]
  simp only [hkeep']
  obtain ⟨lsn, lsn', rfl⟩ := h.shape
  have habort : ∀ r ∈ abortRecords lsn' finished,
      r.redoPatch E k = none ∧ r.undoPatch E k = none := by
    intro r hr
    obtain ⟨id, -, l, rfl⟩ := mem_abortRecords hr
    exact ⟨rfl, rfl⟩
  have hredo := map_compensations (f := WalRecord.redoPatch E) (g := WalRecord.undoPatch E) soFar
    (fun r _ hc l => redoPatch_compensation E hc l) (fun _ => true) lsn
  have hundo := map_compensations (f := WalRecord.undoPatch E) (g := reundoPatch E) soFar
    (fun r _ hc l => undoPatch_compensation E hc l) keep lsn
  simp only [List.filter_true] at hredo
  have h1 : Patch.last ((compensations lsn soFar).map (WalRecord.redoPatch E)) k =
      Patch.last (soFar.map (WalRecord.undoPatch E)) k := by
    rw [hredo]
    exact last_map_filter fun r _ hc => compensated_of_undoPatch E hc k
  have h2 : Patch.last (((compensations lsn soFar).filter fun r =>
      keep r.transactionId).reverse.map (WalRecord.undoPatch E)) k =
      Patch.last ((soFar.filter fun r => keep r.transactionId).reverse.map (reundoPatch E)) k := by
    rw [List.map_reverse, hundo, ← List.map_reverse, List.filter_comm, ← List.filter_reverse]
    exact last_map_filter fun r _ hc => reundoPatch_eq_none E (compensated_of_undoPatch E hc k)
  have h3 := last_map_eq_none (f := WalRecord.redoPatch E) fun r hr => (habort r hr).1
  have h4 : Patch.last (((abortRecords lsn' finished).filter fun r =>
      keep r.transactionId).reverse.map (WalRecord.undoPatch E)) k = none :=
    last_map_eq_none fun r hr => (habort r (List.mem_of_mem_filter (List.mem_reverse.mp hr))).2
  simp only [List.map_append, List.map_map, Function.comp_def, WalRecord.redoGuard,
    WalRecord.undoGuard, List.filter_append, List.reverse_append, Patch.last_append, h1, h2, h3,
    h4, Option.or_none, Option.none_or, Option.or_assoc]

/-- Undone records that assign one location belong to one transaction, unless
they create a directory above their own. -/
theorem DatabaseLog.same_of_within (hlog : DatabaseLog log) {r q : WalRecord} {k : Loc}
    {v u : Val V} (hr : r ∈ undone log) (hq : q ∈ undone log) {e : Path}
    (hre : r.directory = some e) (hunder : e <+: k.path) (hqk : q.undoPatch E k = some u)
    (_hrk : r.undoPatch E k = some v) : q.transactionId = r.transactionId := by
  obtain ⟨f, hqf, hwithin⟩ := undoPatch_within E hqk
  have hmem : ∀ s ∈ undone log, s ∈ log ∧ Active log s.transactionId := fun s hs => by
    rw [undone_eq, List.mem_reverse, List.mem_filter] at hs
    exact ⟨hs.1, by simpa using hs.2⟩
  have hef : f = e := by
    rcases hwithin with hf | ⟨-, x, rfl, hx⟩
    · rcases List.prefix_or_prefix_of_prefix hf hunder with h | h
      · exact hlog.flat q (hmem q hq).1 r (hmem r hr).1 f hqf e hre h
      · exact (hlog.flat r (hmem r hr).1 q (hmem q hq).1 e hre f hqf h).symm
    · exact (hlog.flat r (hmem r hr).1 q (hmem q hq).1 e hre f hqf (hunder.trans hx)).symm
  subst hef
  exact hlog.same_transaction (mem_liveIn.mpr ⟨(hmem q hq).1, hqf, (hmem q hq).2⟩)
    (mem_liveIn.mpr ⟨(hmem r hr).1, hre, (hmem r hr).2⟩)

/-- A repeated recovery assigns to every location what an uninterrupted one does. -/
theorem Interrupted.last_eq (h : Interrupted log log' soFar finished) (hlog : DatabaseLog log)
    (k : Loc) :
    Patch.last ((replayGuards E log').map Patch.Guarded.patch) k =
      Patch.last ((replayGuards E log).map Patch.Guarded.patch) k := by
  have hsub : ∀ r ∈ soFar, r ∈ undone log := by
    obtain ⟨j, rfl⟩ := h.fromLast
    exact fun r hr => List.mem_of_mem_take hr
  have hplain : Patch.last ((replayGuards E log).map Patch.Guarded.patch) k =
      (Patch.last ((undone log).map (WalRecord.undoPatch E)) k).or
        (Patch.last (log.map (WalRecord.redoPatch E)) k) := by
    rw [replayGuards, redone_eq hlog.begun]
    simp only [List.map_append, List.map_map, Function.comp_def, WalRecord.redoGuard,
      WalRecord.undoGuard, Patch.last_append]
  rw [h.last_replay E hlog.begun, hplain]
  by_cases hcovered : ∃ r ∈ undone log, r.undoPatch E k ≠ none
  swap
  · -- no undo touches the location
    have hnone : ∀ r ∈ undone log, r.undoPatch E k = none := fun r hr => by
      by_contra hne
      exact hcovered ⟨r, hr, hne⟩
    rw [last_map_eq_none fun r hr => hnone r (List.mem_of_mem_filter hr),
      last_map_eq_none fun r hr => reundoPatch_eq_none E
        (hnone r (hsub r (List.mem_of_mem_filter (List.mem_reverse.mp hr)))),
      last_map_eq_none fun r hr => hnone r (hsub r hr), last_map_eq_none hnone]
    rfl
  obtain ⟨r, hr, hrk⟩ := hcovered
  obtain ⟨v, hv⟩ := Option.ne_none_iff_exists'.mp hrk
  obtain ⟨e, he, hwithin⟩ := undoPatch_within E hv
  have hsome : ∀ rs : List WalRecord, r ∈ rs →
      ∃ u, Patch.last (rs.map (WalRecord.undoPatch E)) k = some u := by
    intro rs hrs
    refine Option.ne_none_iff_exists'.mp fun hnone => hrk ?_
    exact Patch.last_eq_none_iff.mp hnone _ (List.mem_map_of_mem hrs)
  obtain ⟨u, hu⟩ := hsome (undone log) hr
  by_cases hunder : e <+: k.path
  · -- all undone records here are of one transaction
    have hsame : ∀ q ∈ undone log, q.undoPatch E k ≠ none →
        q.transactionId = r.transactionId := fun q hq hqk => by
      obtain ⟨u', hu'⟩ := Option.ne_none_iff_exists'.mp hqk
      exact hlog.same_of_within E hr hq he hunder hu' hv
    by_cases hactive : Active log' r.transactionId
    · have hkeep : Patch.last (((undone log).filter fun q =>
          decide (Active log' q.transactionId)).map (WalRecord.undoPatch E)) k = some u := by
        rw [last_map_filter fun q hq hdrop => ?_, hu]
        by_contra hqk
        rw [hsame q hq hqk] at hdrop
        simp [hactive] at hdrop
      rw [hkeep, hu]
      rfl
    · -- that transaction has its abort record, so all compensations are there
      have hfinished : finished ≠ [] := by
        rintro rfl
        rw [h.active_iff] at hactive
        rw [undone_eq, List.mem_reverse, List.mem_filter] at hr
        exact hactive ⟨by simpa using hr.2, by simp⟩
      have hnone : ∀ q ∈ undone log, decide (Active log' q.transactionId) = true →
          q.undoPatch E k = none := fun q hq hq' => by
        by_contra hqk
        rw [hsame q hq hqk] at hq'
        simp [hactive] at hq'
      rw [h.complete hfinished,
        last_map_eq_none fun q hq => hnone q (List.mem_filter.mp hq).1 (List.mem_filter.mp hq).2,
        last_map_eq_none fun q hq => reundoPatch_eq_none E
          (hnone q (List.mem_filter.mp (List.mem_reverse.mp hq)).1
            (List.mem_filter.mp (List.mem_reverse.mp hq)).2), hu]
      rfl
  · -- a directory above the table directories: every step that assigns it creates it
    obtain ⟨-, x, rfl, hx⟩ := hwithin.resolve_left hunder
    have hlogr : r ∈ log := mem_undone hr
    have hconst : ∀ q ∈ log, ∀ f u', q.directory = some f → Within f (.directory x) u' →
        u' = (.present true : Val V) := by
      intro q hq f u' hqf hw
      rcases hw with hf | ⟨hw, -⟩
      · have hfe := hlog.flat q hq r hlogr f hqf e he (List.IsPrefix.trans hf hx)
        exact absurd (hfe ▸ hf) hunder
      · exact hw
    have hredo : ∀ q ∈ log, q.redoPatch E (.directory x) = none ∨
        q.redoPatch E (.directory x) = some (.present true) := by
      intro q hq
      rcases hq' : q.redoPatch E (.directory x) with _ | u'
      · exact Or.inl rfl
      · obtain ⟨f, hf, hw⟩ := redoPatch_within E hq'
        exact Or.inr (congrArg some (hconst q hq f u' hf hw))
    have hundo : ∀ q ∈ log, q.undoPatch E (.directory x) = none ∨
        q.undoPatch E (.directory x) = some (.present true) := by
      intro q hq
      rcases hq' : q.undoPatch E (.directory x) with _ | u'
      · exact Or.inl rfl
      · obtain ⟨f, hf, hw⟩ := undoPatch_within E hq'
        exact Or.inr (congrArg some (hconst q hq f u' hf hw))
    have hreundo : ∀ q ∈ log, reundoPatch E q (.directory x) = none ∨
        reundoPatch E q (.directory x) = some (.present true) := by
      intro q hq
      rcases hq' : reundoPatch E q (.directory x) with _ | u'
      · exact Or.inl rfl
      · obtain ⟨f, hf, hw⟩ := reundoPatch_within E hq'
        exact Or.inr (congrArg some (hconst q hq f u' hf hw))
    have hall : Patch.last (log.map (WalRecord.redoPatch E)) (.directory x) =
        some (.present true) := by
      refine Patch.last_eq_some_of_constant ⟨_, List.mem_map_of_mem hlogr, ?_⟩ fun p hp => ?_
      · rw [redoPatch_above E hv he hunder]
        simp
      · obtain ⟨q, hq, rfl⟩ := List.mem_map.mp hp
        exact hredo q hq
    have hlast : ∀ (rs : List WalRecord) (f : WalRecord → Patch Loc (Val V)),
        (∀ q ∈ rs, f q (.directory x) = none ∨ f q (.directory x) = some (.present true)) →
        Patch.last (rs.map f) (.directory x) = none ∨
          Patch.last (rs.map f) (.directory x) = some (.present true) := by
      intro rs f hf
      rcases hl : Patch.last (rs.map f) (.directory x) with _ | u'
      · exact Or.inl rfl
      · obtain ⟨p, hp, hp'⟩ := Patch.last_mem hl
        obtain ⟨q, hq, rfl⟩ := List.mem_map.mp hp
        rcases hf q hq with hn | hs
        · simp [hn] at hp'
        · exact Or.inr (by rw [← hp', hs])
    have hin : ∀ q ∈ undone log, q ∈ log := fun q hq => mem_undone hq
    rw [hall]
    rcases hlast (undone log) _ fun q hq => hundo q (hin q hq) with h1 | h1 <;>
      rcases hlast _ _ fun q hq => hundo q (hin q (List.mem_of_mem_filter hq)) with h2 | h2 <;>
      rcases hlast _ _ fun q hq => hreundo q
        (hin q (hsub q (List.mem_of_mem_filter (List.mem_reverse.mp hq)))) with h3 | h3 <;>
      rcases hlast soFar _ fun q hq => hundo q (hin q (hsub q hq)) with h4 | h4 <;>
      rw [h1, h2, h3, h4] <;> rfl

end State

/-! ## The disk at the interruption -/

section Effects

variable {V : Type} (E : PageView V) {log : List WalRecord} {lsn : Nat} {e : Effect} {k : Loc}

theorem mem_undoAll {rs : List WalRecord} (h : e ∈ undoAll lsn rs) :
    ∃ r ∈ rs, ∃ l, e ∈ r.undoSteps l := by
  induction rs generalizing lsn with
  | nil => cases h
  | cons r rs ih =>
      rcases List.mem_append.mp h with h | h
      · exact ⟨r, List.mem_cons_self, lsn, h⟩
      · obtain ⟨q, hq, rest⟩ := ih h
        exact ⟨q, List.mem_cons_of_mem _ hq, rest⟩

theorem mem_aborts {ids : List Nat} (h : e ∈ aborts lsn ids) : ∃ r, e = .append r := by
  induction ids generalizing lsn with
  | nil => cases h
  | cons id ids ih =>
      rcases List.mem_cons.mp h with rfl | h
      · exact ⟨_, rfl⟩
      · exact ih h

theorem mem_recoverEffects (h : e ∈ recoverEffects lsn log) :
    (∃ r ∈ redone log, e ∈ r.redoEffects) ∨ (∃ r ∈ undone log, ∃ l, e ∈ r.undoSteps l) ∨
      ∃ r, e = .append r := by
  rcases List.mem_append.mp h with h | h
  · rcases List.mem_append.mp h with h | h
    · exact Or.inl (List.mem_flatMap.mp h)
    · exact Or.inr (Or.inl (mem_undoAll h))
  · exact Or.inr (Or.inr (mem_aborts h))

theorem pageEffects_covered {r : WalRecord} {image : Bytes} {l : Nat} {v : V}
    (he : e ∈ r.pageEffects image l) (hk : pagePatch (pathOf r.tableFile) r.pageId v k = none) :
    e.patch E k = none := by
  simp only [WalRecord.pageEffects, List.mem_cons, List.not_mem_nil, or_false] at he
  rcases he with rfl | rfl <;> cases k <;> simp_all [Effect.patch, pagePatch]

theorem schemaEffects_covered {r : WalRecord} {t : Bytes} (he : e ∈ r.schemaEffects t)
    (hk : schemaPatch (V := V) (pathOf r.tableFile) t k = none) : e.patch E k = none := by
  simp only [WalRecord.schemaEffects, pathOf_schemaFile, List.mem_cons, List.not_mem_nil,
    or_false] at he
  rcases he with rfl | rfl | rfl <;> cases k <;> simp_all [Effect.patch, schemaPatch]

theorem createEffects_covered {r : WalRecord} (he : e ∈ r.createEffects)
    (hk : createPatch (V := V) (pathOf r.tableFile) r.afterImage k = none) :
    e.patch E k = none := by
  simp only [WalRecord.createEffects, pathOf_schemaFile, pathOf_tableFile, List.mem_cons,
    List.not_mem_nil, or_false] at he
  rcases he with rfl | rfl | rfl | rfl <;> cases k <;>
    simp_all [Effect.patch, createPatch, schemaPatch]

/-- The effects of a record stay within what its patch assigns. -/
theorem redoEffects_covered {r : WalRecord} (he : e ∈ r.redoEffects)
    (hk : r.redoPatch E k = none) : e.patch E k = none := by
  unfold WalRecord.redoEffects at he
  unfold WalRecord.redoPatch at hk
  rcases htype : r.type with _ | _ | _ | _ | _ | _ | _ | _ | c <;> rw [htype] at he hk <;>
    first
    | exact pageEffects_covered E he hk
    | exact createEffects_covered E he hk
    | exact schemaEffects_covered E he hk
    | (rw [List.mem_singleton.mp he]; exact hk)
    | cases he

theorem undoSteps_covered {r : WalRecord} {l : Nat} (he : e ∈ r.undoSteps l)
    (hk : r.undoPatch E k = none) : e.patch E k = none := by
  have hundo : e ∈ r.undoEffects (l + 1) ∨ ∃ q, e = .append q := by
    unfold WalRecord.undoSteps at he
    split at he
    · rcases List.mem_cons.mp he with rfl | he
      · exact Or.inr ⟨_, rfl⟩
      · exact Or.inl he
    · cases he
  rcases hundo with he | ⟨q, rfl⟩
  swap
  · rfl
  unfold WalRecord.undoEffects at he
  unfold WalRecord.undoPatch at hk
  rcases htype : r.type with _ | _ | _ | _ | _ | _ | _ | _ | c <;> rw [htype] at he hk <;>
    first
    | exact pageEffects_covered E he hk
    | exact schemaEffects_covered E he hk
    | (rw [List.mem_singleton.mp he]; exact hk)
    | cases he

/-- An interruption leaves alone what the whole recovery does not assign. -/
theorem view_interrupted {fs : FileSystem} (n : Nat)
    (hk : Patch.last ((replayGuards E log).map Patch.Guarded.patch) k = none) :
    (Effect.applyFsAll fs ((recoverEffects lsn log).take n)).view E k = fs.view E k := by
  rw [Effect.view_applyFsAll, Patch.play, Patch.applyAll_eq_last]
  refine Patch.apply_of_none ?_ _
  rw [Patch.last_eq_none_iff] at hk ⊢
  intro p hp
  obtain ⟨g, hg, rfl⟩ := List.mem_map.mp hp
  obtain ⟨e, he, rfl⟩ := List.mem_map.mp hg
  rcases mem_recoverEffects (List.mem_of_mem_take he) with ⟨r, hr, he⟩ | ⟨r, hr, l, he⟩ | ⟨r, rfl⟩
  · refine redoEffects_covered E he (hk _ ?_)
    exact List.mem_map.mpr ⟨_, List.mem_append_left _ (List.mem_map_of_mem hr), rfl⟩
  · refine undoSteps_covered E he (hk _ ?_)
    exact List.mem_map.mpr ⟨_, List.mem_append_right _ (List.mem_map_of_mem hr), rfl⟩
  · rfl

/-- An effect of recovery that takes a directory away belongs to a
`drop_table`, or to the undo of a `create_table`. -/
theorem removes_directory {p : Path} (he : e ∈ recoverEffects lsn log)
    (hp : e.patch contentView (.directory p) = some (.present false)) :
    ∃ r ∈ log, ∃ d, r.directory = some d ∧ d <+: p ∧
      (r.type = .dropTable ∨ r.type = .createTable ∧ Active log r.transactionId) := by
  have hremove : ∃ d, e = .removeAll d ∧ d <+: p := by
    cases e <;> simp [Effect.patch, Patch.skip, Loc.path] at hp
    exact ⟨_, rfl, hp.1⟩
  obtain ⟨d, rfl, hd⟩ := hremove
  rcases mem_recoverEffects he with ⟨r, hr, he⟩ | ⟨r, hr, l, he⟩ | ⟨r, he⟩
  · refine ⟨r, mem_redone hr, d, ?_⟩
    unfold WalRecord.redoEffects at he
    rcases htype : r.type with _ | _ | _ | _ | _ | _ | _ | _ | c <;> rw [htype] at he <;>
      simp_all [WalRecord.pageEffects, WalRecord.createEffects, WalRecord.schemaEffects,
        WalRecord.dropEffects, WalRecord.directory]
  · have hactive : Active log r.transactionId := by
      rw [undone_eq, List.mem_reverse, List.mem_filter] at hr
      simpa using hr.2
    refine ⟨r, mem_undone hr, d, ?_⟩
    unfold WalRecord.undoSteps WalRecord.undoEffects at he
    rcases htype : r.type with _ | _ | _ | _ | _ | _ | _ | _ | c <;> rw [htype] at he <;>
      simp_all [WalRecord.pageEffects, WalRecord.schemaEffects, WalRecord.dropEffects,
        WalRecord.directory]
  · cases he

end Effects

/-! ## The condition -/

/-- Opening the log of a disk anew. -/
def reopen (d : Disk) : World := (openLog ⟨d, ⟨0, 0⟩, []⟩).2

@[simp] theorem reopen_disk (d : Disk) : (reopen d).disk = d := rfl

@[simp] theorem reopen_trace (d : Disk) : (reopen d).trace = [] := rfl

/-- Wherever `recover` is interrupted, running it again on what is there
returns true and leaves what an uninterrupted run leaves. -/
def Restartable (d : Disk) : Prop :=
  ∀ n, (recover (reopen (d.after ((recover (reopen d)).2.trace.take n)))).1 = .ok true ∧
    (recover (reopen (d.after ((recover (reopen d)).2.trace.take n)))).2.disk.fs.view contentView =
      (recover (reopen d)).2.disk.fs.view contentView

/-- Read from its start, the log needs no directory that is not there, and a
directory it needs before bringing it is never taken away. -/
structure DirectoriesStay (d : Disk) : Prop where
  found : ∀ p, (Move.run (d.fs.isDirectory p) (d.wal.map (WalRecord.redoMove p))).isSome = true
  kept : ∀ p, Move.run false (d.wal.map (WalRecord.redoMove p)) = none →
    ∀ r ∈ d.wal, r.directory = some p →
      r.type ≠ .dropTable ∧ (r.type = .createTable → ¬Active d.wal r.transactionId)

/-- No unfinished transaction has a `create_table` right before or after a
page update among its records of one directory. -/
def CreatesApart (log : List WalRecord) : Prop :=
  ∀ p, ((liveIn log p).map (·.type)).IsChain WalRecordType.Apart

section Restartable

variable {d : Disk}

/-- The LSN the undo loop starts from when the log of `d` is opened anew. -/
def reopenLsn (d : Disk) : Nat :=
  WalFile.maxLsn (WalFile.maxLsn 0 d.wal) d.wal

theorem trace_recover_reopen (hform : ∀ r ∈ d.wal, r.WellFormed)
    (hp : Patch.Playable (replayGuards contentView d.wal) (d.fs.view contentView)) :
    ∃ l, (recover (reopen d)).2.trace =
      (recoverEffects (reopenLsn d) d.wal).map fun e => ⟨e, l⟩ := by
  rw [← performable_replay contentView (reopenLsn d)] at hp
  have hrun := recover_ok (w := reopen d) hform hp
  exact ⟨_, by rw [hrun, World.flushed_trace]; rfl⟩

/-- The disk and the log after an interruption. -/
theorem interrupted_disk {l : Nat} (n : Nat) :
    d.after (((recoverEffects (reopenLsn d) d.wal).map fun e => ⟨e, l⟩).take n) =
      ⟨Effect.applyFsAll d.fs ((recoverEffects (reopenLsn d) d.wal).take n),
        d.wal ++ appended ((recoverEffects (reopenLsn d) d.wal).take n)⟩ := by
  rw [← List.map_take, Disk.after_map]

theorem interrupted_nil (log : List WalRecord) : Interrupted log log [] [] :=
  ⟨⟨0, 0, by simp [compensations, undoAll, appended, abortRecords]⟩, ⟨0, rfl⟩, by simp, by simp⟩

/-- A directory the log needs from its start outlives every interruption. -/
theorem isDirectory_interrupted (hlog : DatabaseLog d.wal) (hstay : DirectoriesStay d) {p : Path}
    (hneed : Move.run false (d.wal.map (WalRecord.redoMove p)) = none) (n : Nat) :
    (Effect.applyFsAll d.fs ((recoverEffects (reopenLsn d) d.wal).take n)).isDirectory p =
      true := by
  have hhere : d.fs.isDirectory p = true := by
    cases h : d.fs.isDirectory p
    · have hfound := hstay.found p
      rw [h, hneed] at hfound
      cases hfound
    · rfl
  obtain ⟨q, hq, hqp⟩ : ∃ q ∈ d.wal, q.directory = some p := by
    by_contra hnone
    have hidle : Move.need ∉ d.wal.map (WalRecord.redoMove p) := fun hmem => by
      obtain ⟨r, hr, hmove⟩ := List.mem_map.mp hmem
      exact hnone ⟨r, hr, (need_directory (Or.inl hmove)).2⟩
    have hrun := Move.run_isSome_of_not_need hidle false
    rw [hneed] at hrun
    cases hrun
  suffices h : (Effect.applyFsAll d.fs ((recoverEffects (reopenLsn d) d.wal).take n)).view
      contentView (.directory p) = .present true by simpa using h
  rw [Effect.view_applyFsAll, Patch.play, Patch.applyAll_eq_last]
  rcases hlast : Patch.last ((((recoverEffects (reopenLsn d) d.wal).take n).map
    (Effect.guarded contentView)).map Patch.Guarded.patch) (.directory p) with _ | v
  · rw [Patch.apply_of_none hlast, FileSystem.view_directory, hhere]
  · rw [Patch.apply_of_some hlast]
    obtain ⟨g, hg, hgv⟩ := Patch.last_mem hlast
    rw [List.map_map] at hg
    obtain ⟨e, he, rfl⟩ := List.mem_map.mp hg
    have he := List.mem_of_mem_take he
    have hv : v = .present true ∨ v = .present false := by
      cases e <;> simp [Effect.guarded, Effect.patch, Patch.skip, Loc.path, Loc.absent] at hgv
      · exact Or.inl hgv.2.symm
      · exact Or.inr hgv.2.symm
    refine hv.resolve_right fun hfalse => ?_
    subst hfalse
    obtain ⟨r, hr, e', hre, hunder, hkind⟩ := removes_directory he hgv
    have hrp : r.directory = some p := by rw [hre, hlog.flat r hr q hq e' hre p hqp hunder]
    obtain ⟨h1, h2⟩ := hstay.kept p hneed r hr hrp
    rcases hkind with hkind | ⟨hkind, hactive⟩
    · exact h1 hkind
    · exact h2 hkind hactive

/-- Under the condition every interruption is recovered from. -/
theorem restartable_of_apart (hlog : DatabaseLog d.wal) (hstay : DirectoriesStay d)
    (hapart : CreatesApart d.wal) : Restartable d := by
  have hplay : Patch.Playable (replayGuards contentView d.wal) (d.fs.view contentView) :=
    (playable_replay_iff contentView _ _).mpr fun p =>
      (interrupted_nil d.wal).run_isSome hlog (hstay.found p) (hapart p)
  intro n
  obtain ⟨l, htrace⟩ := trace_recover_reopen hlog.wellFormed hplay
  rw [htrace, interrupted_disk]
  obtain ⟨soFar, finished, hint⟩ := interrupted_take d.wal (reopenLsn d) n
  set log' := d.wal ++ appended ((recoverEffects (reopenLsn d) d.wal).take n)
  set fs' := Effect.applyFsAll d.fs ((recoverEffects (reopenLsn d) d.wal).take n) with hfs'
  have hform : ∀ r ∈ (reopen ⟨fs', log'⟩).disk.wal, r.WellFormed := hint.wellFormed hlog.wellFormed
  have hplay' : Patch.Playable (replayGuards contentView (reopen ⟨fs', log'⟩).disk.wal)
      ((reopen ⟨fs', log'⟩).disk.fs.view contentView) := by
    refine (playable_replay_iff contentView _ _).mpr fun p => hint.run_isSome hlog ?_ (hapart p)
    rcases hrun : Move.run false (d.wal.map (WalRecord.redoMove p)) with _ | c
    · rw [reopen_disk, hfs', isDirectory_interrupted hlog hstay hrun n]
      cases hdir : d.fs.isDirectory p
      · have hfound := hstay.found p
        rw [hdir, hrun] at hfound
        cases hfound
      · have hfound := hstay.found p
        rwa [hdir] at hfound
    · have hfalse : (Move.run false (d.wal.map (WalRecord.redoMove p))).isSome = true := by
        rw [hrun]
        rfl
      cases (reopen ⟨fs', log'⟩).disk.fs.isDirectory p
      · exact hfalse
      · exact Move.run_mono hfalse
  refine ⟨(recover_true_iff contentView hform).mpr hplay', ?_⟩
  rw [view_recover contentView hform hplay', view_recover contentView (w := reopen d)
    hlog.wellFormed hplay, Patch.play, Patch.play, Patch.applyAll_eq_last, Patch.applyAll_eq_last]
  rw [reopen_disk, reopen_disk]
  funext k
  have hlast := hint.last_eq contentView hlog k
  rcases hk : Patch.last ((replayGuards contentView d.wal).map Patch.Guarded.patch) k with _ | v
  · rw [Patch.apply_of_none (hlast.trans hk), Patch.apply_of_none hk]
    exact view_interrupted contentView n hk
  · rw [Patch.apply_of_some (hlast.trans hk), Patch.apply_of_some hk]

/-- A `drop_table`, or a `create_table` to be undone, is an effect of recovery. -/
theorem removeAll_mem {p : Path} {r : WalRecord} {lsn : Nat} (hbegun : AllBegun d.wal)
    (hr : r ∈ d.wal) (hp : r.directory = some p)
    (hkind : r.type = .dropTable ∨ r.type = .createTable ∧ Active d.wal r.transactionId) :
    Effect.removeAll p ∈ recoverEffects lsn d.wal := by
  refine List.mem_append_left _ ?_
  rcases hkind with htype | ⟨htype, hactive⟩
  · have hpath : pathOf r.tableFile = p := by simpa [WalRecord.directory, htype] using hp
    refine List.mem_append_left _ (List.mem_flatMap.mpr ⟨r, by rwa [redone_eq hbegun], ?_⟩)
    simp [WalRecord.redoEffects, htype, WalRecord.dropEffects, hpath]
  · have hpath : pathOf r.tableFile = p := by simpa [WalRecord.directory, htype] using hp
    refine List.mem_append_right _ ?_
    have hmem : r ∈ undone d.wal := by
      rw [undone_eq, List.mem_reverse, List.mem_filter]
      exact ⟨hr, by simpa using hactive⟩
    generalize undone d.wal = rs at hmem
    induction rs generalizing lsn with
    | nil => cases hmem
    | cons q rs ih =>
        rcases List.mem_cons.mp hmem with rfl | hmem
        · refine List.mem_append_left _ ?_
          simp [WalRecord.undoSteps, WalRecord.compensated, htype, WalRecord.undoEffects,
            WalRecord.dropEffects, hpath]
        · exact List.mem_append_right _ (ih hmem)

theorem undoAll_take (lsn : Nat) (rs : List WalRecord) (j : Nat) :
    ∃ m, (undoAll lsn rs).take m = undoAll lsn (rs.take j) := by
  induction rs generalizing lsn j with
  | nil => exact ⟨0, by simp [undoAll]⟩
  | cons r rs ih =>
      cases j with
      | zero => exact ⟨0, rfl⟩
      | succ j =>
          obtain ⟨m, hm⟩ := ih (r.lsnAfterUndo lsn) j
          refine ⟨(r.undoSteps lsn).length + m, ?_⟩
          rw [undoAll, List.take_length_add_append, hm]
          rfl

/-- Recovery can be interrupted right after any number of undone records. -/
theorem interrupted_at (log : List WalRecord) (lsn j : Nat) :
    ∃ n, Interrupted log (log ++ appended ((recoverEffects lsn log).take n))
      ((undone log).take j) [] := by
  obtain ⟨m, hm⟩ := undoAll_take lsn (undone log) j
  by_cases hle : m ≤ (undoAll lsn (undone log)).length
  · refine ⟨(redoAll (redone log)).length + m, ⟨lsn, 0, ?_⟩, ⟨j, rfl⟩, by simp, by simp⟩
    rw [recoverEffects, replayEffects, List.append_assoc, List.take_length_add_append,
      List.take_append_of_le_length hle, hm, appended_append, appended_redoAll]
    simp [abortRecords, compensations]
  · rw [List.take_of_length_le (by omega)] at hm
    refine ⟨(redoAll (redone log) ++ undoAll lsn (undone log)).length, ⟨lsn, 0, ?_⟩, ⟨j, rfl⟩,
      by simp, by simp⟩
    rw [recoverEffects, replayEffects, List.take_left, appended_append, appended_redoAll, hm]
    simp [abortRecords, compensations]

/-- Where every interruption is recovered from, the condition holds. -/
theorem apart_of_restartable (hlog : DatabaseLog d.wal) (h : Restartable d) :
    DirectoriesStay d ∧ CreatesApart d.wal := by
  have hplay : Patch.Playable (replayGuards contentView d.wal) (d.fs.view contentView) := by
    have h0 := (h 0).1
    rw [List.take_zero] at h0
    exact (recover_true_iff contentView (w := reopen d) hlog.wellFormed).mp h0
  obtain ⟨l, htrace⟩ := trace_recover_reopen hlog.wellFormed hplay
  -- every interruption leaves words that run
  have hruns : ∀ n p soFar finished, Interrupted d.wal
      (d.wal ++ appended ((recoverEffects (reopenLsn d) d.wal).take n)) soFar finished →
      (Move.run ((Effect.applyFsAll d.fs
        ((recoverEffects (reopenLsn d) d.wal).take n)).isDirectory p)
        ((replayActs (d.wal ++ appended
          ((recoverEffects (reopenLsn d) d.wal).take n))).map (Act.move p))).isSome = true := by
    intro n p soFar finished hint
    have hn := (h n).1
    rw [htrace, interrupted_disk] at hn
    have hform : ∀ r ∈ (reopen ⟨Effect.applyFsAll d.fs
        ((recoverEffects (reopenLsn d) d.wal).take n),
        d.wal ++ appended ((recoverEffects (reopenLsn d) d.wal).take n)⟩).disk.wal, r.WellFormed :=
      hint.wellFormed hlog.wellFormed
    exact (playable_replay_iff contentView _ _).mp
      ((recover_true_iff contentView hform).mp hn) p
  have hacts : ∀ {log' soFar finished}, Interrupted d.wal log' soFar finished → ∀ p, ∃ rest,
      (replayActs log').map (Act.move p) = d.wal.map (WalRecord.redoMove p) ++ rest := by
    intro log' soFar finished hint p
    have hredone := redone_eq (hint.allBegun hlog.begun)
    obtain ⟨lsn, lsn', rfl⟩ := hint.shape
    refine ⟨(compensations lsn soFar ++ abortRecords lsn' finished).map (WalRecord.redoMove p) ++
      (undone (d.wal ++ compensations lsn soFar ++ abortRecords lsn' finished)).map
        (WalRecord.undoMove p), ?_⟩
    rw [replayActs, hredone]
    simp [Function.comp_def, Act.move]
  have hredo : ∀ {b : Bool} {ms rest : List Move}, (Move.run b (ms ++ rest)).isSome = true →
      (Move.run b ms).isSome = true := by
    intro b ms rest hrun
    rw [Move.run_append] at hrun
    rcases hms : Move.run b ms with _ | c
    · simp [hms] at hrun
    · rfl
  refine ⟨⟨fun p => ?_, fun p hneed r hr hrp => ?_⟩, fun p => ?_⟩
  · obtain ⟨rest, hrest⟩ := hacts (interrupted_nil d.wal) p
    have hrun := (playable_replay_iff contentView _ _).mp hplay p
    rw [hrest] at hrun
    exact hredo hrun
  · -- stop right after the directory is taken away
    by_contra hkind
    have hkind : r.type = .dropTable ∨ r.type = .createTable ∧ Active d.wal r.transactionId := by
      tauto
    have hmem : Effect.removeAll p ∈ recoverEffects (reopenLsn d) d.wal :=
      removeAll_mem hlog.begun hr hrp hkind
    obtain ⟨pre, post, hsplit⟩ := List.append_of_mem hmem
    have htake : (recoverEffects (reopenLsn d) d.wal).take (pre.length + 1) =
        pre ++ [.removeAll p] := by
      rw [hsplit, List.take_length_add_append]
      rfl
    obtain ⟨soFar, finished, hint⟩ := interrupted_take d.wal (reopenLsn d) (pre.length + 1)
    obtain ⟨rest, hrest⟩ := hacts hint p
    have hrun := hruns _ p _ _ hint
    have hgone : (Effect.applyFsAll d.fs
        ((recoverEffects (reopenLsn d) d.wal).take (pre.length + 1))).isDirectory p = false := by
      rw [htake, applyFsAll_append]
      simp [Effect.applyFsAll, Effect.applyFs]
    rw [hgone, hrest] at hrun
    have hfalse := hredo hrun
    rw [hneed] at hfalse
    cases hfalse
  · -- a create_table next to a page update
    by_contra hchain
    rw [List.isChain_iff_forall_rel_of_append_cons_cons] at hchain
    push Not at hchain
    obtain ⟨x, y, a, b, hsplit, hxy⟩ := hchain
    obtain ⟨ra, rest, hlive, rfl, hrest⟩ := List.map_eq_append_iff.mp hsplit
    obtain ⟨rx, rest', rfl, rfl, hrest'⟩ := List.map_eq_cons_iff.mp hrest
    obtain ⟨ry, rb, rfl, rfl, rfl⟩ := List.map_eq_cons_iff.mp hrest'
    obtain ⟨hq, hqd, -⟩ := mem_liveIn.mp (show rx ∈ liveIn d.wal p by simp [hlive])
    have hcase : rx.type = .createTable ∧ ry.type = .pageUpdate ∨
        rx.type = .pageUpdate ∧ ry.type = .createTable := by
      unfold WalRecordType.Apart at hxy
      tauto
    rcases hcase with ⟨hx, hy⟩ | ⟨hx, hy⟩
    · -- stop right after the creation is undone
      have hundone : inDirectory (undone d.wal) p = (rb.reverse ++ [ry, rx]) ++ ra.reverse := by
        rw [inDirectory_undone, hlive]
        simp
      obtain ⟨k₁, k₂, hk, hk₁, -⟩ := List.filter_eq_append_iff.mp hundone
      obtain ⟨n, hint⟩ := interrupted_at d.wal (reopenLsn d) k₁.length
      have hsoFar : (undone d.wal).take k₁.length = k₁ := by rw [hk, List.take_left]
      rw [hsoFar] at hint
      have hrun := hruns n p _ _ hint
      rw [hint.sameRun hlog hq hqd] at hrun
      have hkeep := (hint.kept_eq hlog p)
      have hactive : Active (d.wal ++ appended ((recoverEffects (reopenLsn d) d.wal).take n))
          rx.transactionId := by
        rw [hint.active_iff]
        exact ⟨(mem_liveIn.mp (show rx ∈ liveIn d.wal p by simp [hlive])).2.2, by simp⟩
      rcases hkeep with ⟨h1, h2⟩ | ⟨h1, h2⟩
      · have hk₁' : inDirectory k₁ p = rb.reverse ++ [ry, rx] := hk₁
        rw [h2, h1, hk₁', Move.run_append] at hrun
        rcases hr : Move.run ((Effect.applyFsAll d.fs ((recoverEffects (reopenLsn d)
          d.wal).take n)).isDirectory p) ((inDirectory d.wal p).map fun r => r.type.redoOf)
          with _ | c
        · simp [hr] at hrun
        · have hnone := WalRecordType.run_undo_reundo_eq_none (rb.reverse.map (·.type))
            ((liveIn d.wal p).reverse.map fun r => r.type.undoOf) c
          have htypes : (rb.reverse ++ [ry, rx]).map WalRecord.type =
              rb.reverse.map WalRecord.type ++ [.pageUpdate, .createTable] := by
            simp [hx, hy]
          have hundo : (rb.reverse ++ [ry, rx]).map (fun r => r.type.undoOf) =
              ((rb.reverse ++ [ry, rx]).map WalRecord.type).map WalRecordType.undoOf := by
            rw [List.map_map]
            rfl
          have hreundo : (rb.reverse ++ [ry, rx]).reverse.map (fun r => r.type.reundoOf) =
              ((rb.reverse ++ [ry, rx]).map WalRecord.type).reverse.map
                WalRecordType.reundoOf := by
            rw [← List.map_reverse, List.map_map]
            rfl
          rw [htypes] at hundo hreundo
          rw [hr, Option.bind_some, hundo, hreundo, hnone] at hrun
          cases hrun
      · have hmem : rx ∈ (inDirectory d.wal p).filter fun r => decide (Active (d.wal ++ appended
            ((recoverEffects (reopenLsn d) d.wal).take n)) r.transactionId) :=
          List.mem_filter.mpr ⟨mem_inDirectory.mpr ⟨hq, hqd⟩, by simpa using hactive⟩
        rw [h1] at hmem
        cases hmem
    · -- undo itself needs the directory it has just taken away
      have hrun := (playable_replay_iff contentView _ _).mp hplay p
      rw [(interrupted_nil d.wal).sameRun hlog hq hqd, Move.run_append] at hrun
      have hnil : inDirectory ([] : List WalRecord) p = [] := rfl
      have hliveEq : (inDirectory d.wal p).filter (fun r => decide (Active d.wal r.transactionId)) =
          liveIn d.wal p := rfl
      rw [hnil, hliveEq, hlive] at hrun
      rcases hr : Move.run (d.fs.isDirectory p) ((inDirectory d.wal p).map fun r => r.type.redoOf)
        with _ | c
      · simp [hr] at hrun
      · have hnone := WalRecordType.run_undo_eq_none (rb.reverse.map (·.type))
          (ra.reverse.map (·.type)) c
        rw [hr, Option.bind_some] at hrun
        simp [hx, hy, Function.comp_def] at hrun hnone
        simp [hnone] at hrun

/-- Recovery of a database's log is restartable exactly when its directories
stay and its creations stand apart from its page updates. -/
theorem restartable_iff (hlog : DatabaseLog d.wal) :
    Restartable d ↔ DirectoriesStay d ∧ CreatesApart d.wal :=
  ⟨apart_of_restartable hlog, fun h => restartable_of_apart hlog h.1 h.2⟩

end Restartable

/-! ## A table created and written by one unfinished transaction -/

/-- Transaction 1 creates table `d`, writes its first page and does not end. -/
def createdAndWritten : List WalRecord :=
  [⟨.beginTransaction, 1, 1, noPageId, [], [], [], []⟩,
    ⟨.createTable, 2, 1, noPageId, [100], [], [116, 100], []⟩,
    ⟨.pageUpdate, 3, 1, 0, joinPath [100] tableFileName, Page.blank.image,
      (Page.blank.insert [7]).2.image, []⟩]

theorem databaseLog_createdAndWritten : DatabaseLog createdAndWritten where
  begun := by
    unfold AllBegun
    decide
  wellFormed r hr := by
    simp only [createdAndWritten, List.mem_cons, List.not_mem_nil, or_false] at hr
    rcases hr with rfl | rfl | rfl
    · trivial
    · exact List.cons_ne_nil _ _
    · refine ⟨by decide, by decide, ?_, ?_⟩ <;> simp only [Page.length_image]
  flat := by
    intro r hr q hq d hd e he _
    have hdir : ∀ r ∈ createdAndWritten, ∀ d ∈ r.directory, d = [[100]] := by
      intro r hr d hd
      simp only [createdAndWritten, List.mem_cons, List.not_mem_nil, or_false] at hr
      rcases hr with rfl | rfl | rfl
      · cases hd
      · exact (Option.some.inj hd).symm
      · exact (Option.some.inj hd).symm
    rw [hdir r hr d hd, hdir q hq e he]
  placed := by
    intro r hr
    simp only [createdAndWritten, List.mem_cons, List.not_mem_nil, or_false] at hr
    rcases hr with rfl | rfl | rfl <;> simp [WalRecord.directory, pathOf_ne_nil, pathOf_tableFile]
  locked := by
    have htid : ∀ r ∈ createdAndWritten, r.transactionId = 1 := by decide
    exact List.pairwise_of_forall_mem_list fun r hr q hq _ _ _ => by rw [htid r hr, htid q hq]
  noDrop := by decide

/-- The disk on which no table exists yet. -/
def noTables : FileSystem := ⟨fun _ => false, fun _ => none, fun _ => none⟩

theorem restartable_iff_createdAndWritten :
    Restartable ⟨noTables, createdAndWritten⟩ ↔
      DirectoriesStay ⟨noTables, createdAndWritten⟩ ∧ CreatesApart createdAndWritten :=
  restartable_iff databaseLog_createdAndWritten

/-- Interrupted while it takes the table back, recovery cannot be repeated. -/
theorem createdAndWritten_not_restartable :
    DatabaseLog createdAndWritten ∧ ¬Restartable ⟨noTables, createdAndWritten⟩ := by
  refine ⟨databaseLog_createdAndWritten, fun h => ?_⟩
  have hchain := (apart_of_restartable databaseLog_createdAndWritten h).2 [[100]]
  have htypes : (liveIn createdAndWritten [[100]]).map (·.type) =
      [.createTable, .pageUpdate] := by decide
  rw [htypes, List.isChain_cons_cons] at hchain
  exact absurd hchain.1 (by decide)

end ScratchDb
