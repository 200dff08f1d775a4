import ScratchDb.Catalog.KnownTables

/-!
# System calls and the view

What the parts of the catalog's operations do to files that agree with a view:
the syncs, a new schema file, a new data file, and the removal of a directory
with what is in it. Each keeps the agreement at each of its steps.
-/

namespace ScratchDb

open DurableFiles DurableFiles.Files Passage

namespace Catalog

variable {fs gs : CatalogFiles} {k : CatalogView}

/-! ## What a program leaves alone -/

/-- Only directory `t` has other versions. -/
def SameBut (fs gs : CatalogFiles) (t : Nat) : Prop :=
  ∀ e, e ≠ t → gs.current e = fs.current e ∧ gs.older e = fs.older e

theorem SameBut.refl (fs : CatalogFiles) (t : Nat) : SameBut fs fs t := fun _ _ => ⟨rfl, rfl⟩

theorem SameBut.trans {hs : CatalogFiles} {t : Nat} (h : SameBut fs gs t) (h' : SameBut gs hs t) :
    SameBut fs hs t := by
  intro e he
  exact ⟨(h' e he).1.trans (h e he).1, (h' e he).2.trans (h e he).2⟩

theorem SameBut.versions {t e : Nat} (h : SameBut fs gs t) (he : e ≠ t) :
    gs.versions e = fs.versions e := by
  rw [Files.versions, Files.versions, (h e he).1, (h e he).2]

theorem sameBut_enter (fs : CatalogFiles) (t : Nat) (v : Version String) :
    SameBut fs (fs.enter t v) t :=
  fun _ he => ⟨Function.update_of_ne he .., Function.update_of_ne he ..⟩

/-- The directory of a table, in the current versions. -/
structure Located (fs : CatalogFiles) (database table : String) (d t : Nat) : Prop where
  database : (fs.current 0).lookup database = some (.directory d)
  table : (fs.current d).lookup table = some (.directory t)

namespace Located

variable {database table : String} {d t : Nat}

theorem place (h : Located fs database table d t) : TablePlace fs database table d t :=
  ⟨mentions_current h.database, mentions_current h.table⟩

theorem of_sameBut (h : Located fs database table d t) (hwf : fs.WellFormed)
    (hsame : SameBut fs gs t) : Located gs database table d t := by
  obtain ⟨-, ht0, htd⟩ := h.place.ne_zero hwf
  exact ⟨(hsame 0 ht0.symm).1 ▸ h.database, (hsame d htd.symm).1 ▸ h.table⟩

end Located

/-- Nothing of a table is found through its temporary file. -/
theorem not_through_temp {database table database' table' : String} {d t : Nat}
    (hwf : fs.WellFormed) (hplace : TablePlace fs database table d t) :
    ¬ Through fs t tempFile database' table' := by
  rintro (⟨h0, -⟩ | ⟨hdatabase, -⟩ | ⟨_, -, heq | heq⟩)
  · exact (hplace.ne_zero hwf).2.1 h0
  · exact hplace.not_database hwf hdatabase
  · exact absurd heq (by decide)
  · exact absurd heq (by decide)

/-- What is found through the data file of a table is this table. -/
theorem through_tableFile {database table database' table' : String} {d t : Nat}
    (hwf : fs.WellFormed) (hplace : TablePlace fs database table d t)
    (h : Through fs t tableFile database' table') : database = database' ∧ table = table' := by
  rcases h with ⟨h0, -⟩ | ⟨hdatabase, -⟩ | ⟨d', hplace', -⟩
  · exact absurd h0 (hplace.ne_zero hwf).2.1
  · exact absurd hdatabase (hplace.not_database hwf)
  · obtain ⟨hd, ht, -⟩ := hplace.unique hwf hplace'
    exact ⟨hd, ht⟩

/-! ## Syncs -/

theorem fsyncDirectory_throughout (h : Agrees fs k) (d : Nat) (a : SyncAnswers) :
    Throughout (Agrees · k) (fsyncDirectory d a) fs fun r gs =>
      Agrees gs k ∧ gs.current = fs.current ∧ SameBut fs gs d ∧ gs.content = fs.content ∧
        (∀ e, ∀ v ∈ gs.versions e, v ∈ fs.versions e) ∧
        (r = .ok true → gs.versions d = [gs.current d]) := by
  rw [fsyncDirectory]
  split
  · refine throughout_step_bind (h.syncDirectory d) (throughout_pure ⟨h.syncDirectory d, rfl, ?_, rfl,
      fun e v hv => mem_versions_syncDirectory hv, fun _ => versions_syncDirectory⟩)
    exact fun e he => ⟨rfl, Function.update_of_ne he ..⟩
  · rename_i hsynced
    refine throughout_pure ⟨h, rfl, SameBut.refl fs d, rfl, fun _ _ hv => hv, fun htrue => ?_⟩
    rw [Except.ok.injEq, Bool.and_eq_true] at htrue
    exact absurd htrue.1 hsynced

theorem fsyncFile_throughout (h : Agrees fs k) (i : Nat) (a : SyncAnswers) :
    Throughout (Agrees · k) (fsyncFile i a) fs fun r gs =>
      Agrees gs k ∧ gs.current = fs.current ∧ gs.older = fs.older ∧ gs.content = fs.content ∧
        (∃ b, r = .ok b) ∧ (r = .ok true → gs.settled i = true) := by
  rw [fsyncFile]
  split
  · exact throughout_step_bind (h.syncFile i) (throughout_pure ⟨h.syncFile i, rfl, rfl, rfl,
      ⟨_, rfl⟩, fun _ => Function.update_self ..⟩)
  · rename_i hsynced
    refine throughout_pure ⟨h, rfl, rfl, rfl, ⟨_, rfl⟩, fun htrue => ?_⟩
    rw [Except.ok.injEq, Bool.and_eq_true] at htrue
    exact absurd htrue.1 hsynced

/-! ## A new schema file -/

/-- The temporary file is open, and no version of a directory has it as its schema file. -/
theorem openTruncated_throughout (h : Agrees fs k) {t : Nat} (ht : t < fs.next) :
    Throughout (Agrees · k) (openTruncated t tempFile) fs fun r gs =>
      Agrees gs k ∧ SameBut fs gs t ∧
        (∀ other, other ≠ tempFile → (gs.current t).lookup other = (fs.current t).lookup other) ∧
        ∃ o, r = .ok o ∧ ∀ i, o = some i →
          (gs.current t).lookup tempFile = some (.file i) ∧ gs.content i = [] := by
  rw [openTruncated]
  refine throughout_look_bind ?_
  split
  · rename_i hfree
    have hcreated := h.createFile ht hfree (by decide) (fun heq => absurd heq (by decide))
    refine throughout_step_bind hcreated (throughout_pure ⟨hcreated, ?_, ?_, _, rfl, ?_⟩)
    · exact sameBut_enter fs t _
    · intro other hother
      change (Function.update fs.current t _ t).lookup other = _
      rw [Function.update_self, AList.lookup_insert_ne hother]
    · intro i hi
      obtain rfl := Option.some_inj.mp hi
      refine ⟨?_, Function.update_self ..⟩
      change (Function.update fs.current t _ t).lookup tempFile = _
      rw [Function.update_self, AList.lookup_insert]
  · rename_i i hfile
    refine throughout_step_bind (h.write hfile []) (throughout_pure ⟨h.write hfile [], ?_, ?_, _,
      rfl, ?_⟩)
    · exact fun _ _ => ⟨rfl, rfl⟩
    · exact fun _ _ => rfl
    · intro j hj
      obtain rfl := Option.some_inj.mp hj
      exact ⟨hfile, Function.update_self ..⟩
  · exact throughout_pure ⟨h, SameBut.refl fs t, fun _ _ => rfl, none, rfl,
      fun i hi => absurd hi (by simp)⟩

theorem writeAll_throughout (h : Agrees fs k) {t i : Nat}
    (htemp : (fs.current t).lookup tempFile = some (.file i)) (done text : List Char)
    (answers : List Nat) (hdone : fs.content i = done) :
    Throughout (Agrees · k) (writeAll i done text answers) fs fun r gs =>
      Agrees gs k ∧ gs.current = fs.current ∧ gs.older = fs.older ∧ (∃ b, r = .ok b) ∧
        (r = .ok true → gs.content i = done ++ text) := by
  induction answers generalizing fs done text with
  | nil =>
    cases text with
    | nil =>
      rw [writeAll]
      exact throughout_pure ⟨h, rfl, rfl, ⟨_, rfl⟩, fun _ => by rw [hdone, List.append_nil]⟩
    | cons c rest =>
      rw [writeAll]
      exact throughout_pure ⟨h, rfl, rfl, ⟨_, rfl⟩, fun heq => by cases heq⟩
  | cons n answers ih =>
    cases text with
    | nil =>
      rw [writeAll]
      exact throughout_pure ⟨h, rfl, rfl, ⟨_, rfl⟩, fun _ => by rw [hdone, List.append_nil]⟩
    | cons c rest =>
      rw [writeAll]
      split
      · exact throughout_pure ⟨h, rfl, rfl, ⟨_, rfl⟩, fun heq => by cases heq⟩
      · have hwritten := h.write htemp (done ++ (c :: rest).take n)
        refine throughout_step_bind hwritten ?_
        refine (ih hwritten htemp _ _ (Function.update_self ..)).mono ?_
        rintro r gs ⟨hagrees, hcurrent, holder, hresult, htext⟩
        refine ⟨hagrees, hcurrent, holder, hresult, fun htrue => ?_⟩
        rw [htext htrue, List.append_assoc, List.take_append_drop]

theorem removeTemp_throughout (h : Agrees fs k) {database table : String} {d t : Nat}
    (hplace : TablePlace fs database table d t) (removed : Bool) :
    Throughout (Agrees · k) (removeTemp t removed) fs fun r gs =>
      Agrees gs k ∧ SameBut fs gs t ∧
        (gs.current t).lookup tableFile = (fs.current t).lookup tableFile ∧ r ≠ .ok true := by
  rw [removeTemp]
  split
  · have hremoved : Agrees (fs.remove t tempFile) k := by
      refine h.remove (fun database' table' hthrough => ?_) (fun h0 => ?_)
      · exact absurd hthrough (not_through_temp h.wellFormed hplace)
      · exact absurd h0 (hplace.ne_zero h.wellFormed).2.1
    refine throughout_step_bind hremoved (throughout_pure ⟨hremoved, sameBut_enter fs t _, ?_, by simp⟩)
    change (Function.update fs.current t _ t).lookup tableFile = _
    rw [Function.update_self, AList.lookup_erase_ne (by decide)]
  · exact throughout_stop ⟨h, SameBut.refl fs t, rfl, by simp⟩

/-- The table directory has only one version left, with a data file and this schema file. -/
structure Written (gs : CatalogFiles) (t : Nat) (schema : Schema) : Prop where
  versions : gs.versions t = [gs.current t]
  schemaFile : ∃ i, (gs.current t).lookup schemaFile = some (.file i) ∧
    gs.content i = serializeSchema schema.toSchemaParts

theorem writeSchemaFile_throughout (h : Agrees fs k) {database table : String} {d t : Nat}
    (hlocated : Located fs database table d t) {schema : Schema}
    (hmay : some schema ∈ k.possible database table) (a : SchemaFileAnswers) :
    Throughout (Agrees · k) (writeSchemaFile t schema a) fs fun r gs =>
      Agrees gs k ∧ SameBut fs gs t ∧
        (gs.current t).lookup tableFile = (fs.current t).lookup tableFile ∧
        (r = .ok true → Written gs t schema) := by
  rw [writeSchemaFile]
  split
  · exact throughout_pure ⟨h, SameBut.refl fs t, rfl, fun heq => by cases heq⟩
  have hborn : t < fs.next := (h.wellFormed.born _ _ _ hlocated.place.2).2
  refine throughout_bind (openTruncated_throughout h hborn) ?_ ?_
  swap
  · rintro e gs ⟨-, -, -, o, heq, -⟩
    cases heq
  rintro o fs₁ ⟨h₁, hsame₁, hother₁, o', heq, hopened⟩
  obtain rfl := Except.ok.inj heq
  have htable₁ := hother₁ tableFile (by decide)
  cases o with
  | none => exact throughout_pure ⟨h₁, hsame₁, htable₁, fun heq => by cases heq⟩
  | some i =>
    obtain ⟨htemp₁, hempty₁⟩ := hopened i rfl
    have hlocated₁ := hlocated.of_sameBut h.wellFormed hsame₁
    refine throughout_bind (writeAll_throughout h₁ htemp₁ [] _ a.written hempty₁) ?_ ?_
    swap
    · rintro e gs ⟨-, -, -, ⟨b, heq⟩, -⟩
      cases heq
    rintro ok fs₂ ⟨h₂, hcurrent₂, holder₂, -, htext₂⟩
    have hsame₂ : SameBut fs fs₂ t := hsame₁.trans fun e _ => by rw [hcurrent₂, holder₂]; exact ⟨rfl, rfl⟩
    have hlocated₂ := hlocated.of_sameBut h.wellFormed hsame₂
    have htable₂ : (fs₂.current t).lookup tableFile = (fs.current t).lookup tableFile := by
      rw [hcurrent₂]
      exact htable₁
    -- the sync of the temporary file, where it was written as a whole
    refine throughout_bind (Q := fun r fs₃ => Agrees fs₃ k ∧ fs₃.current = fs₂.current ∧
      fs₃.older = fs₂.older ∧ fs₃.content = fs₂.content ∧
      (r = .ok true → fs₃.settled i = true ∧ ok = true) ∧ ∃ b, r = .ok b) ?_ ?_ ?_
    · rw [fsyncWritten]
      split
      · rename_i hok
        refine (fsyncFile_throughout h₂ i a.file).mono ?_
        rintro r fs₃ ⟨h₃, hcurrent₃, holder₃, hcontent₃, hresult, hsettled₃⟩
        exact ⟨h₃, hcurrent₃, holder₃, hcontent₃, fun htrue => ⟨hsettled₃ htrue, hok⟩, hresult⟩
      · exact throughout_pure ⟨h₂, rfl, rfl, rfl, fun heq => (by cases heq), ⟨_, rfl⟩⟩
    · rintro ok' fs₃ ⟨h₃, hcurrent₃, holder₃, hcontent₃, hsettled₃, -⟩
      have hsame₃ : SameBut fs fs₃ t := hsame₂.trans fun e _ => by
        rw [hcurrent₃, holder₃]
        exact ⟨rfl, rfl⟩
      have hlocated₃ := hlocated.of_sameBut h.wellFormed hsame₃
      have htable₃ : (fs₃.current t).lookup tableFile = (fs.current t).lookup tableFile := by
        rw [hcurrent₃]
        exact htable₂
      have hfailed : Throughout (Agrees · k) (removeTemp t a.removed) fs₃ fun r gs =>
          Agrees gs k ∧ SameBut fs gs t ∧
            (gs.current t).lookup tableFile = (fs.current t).lookup tableFile ∧
            (r = .ok true → Written gs t schema) := by
        refine (removeTemp_throughout h₃ hlocated₃.place a.removed).mono ?_
        rintro r gs ⟨hagrees, hsame, htable, hresult⟩
        exact ⟨hagrees, hsame₃.trans hsame, htable.trans htable₃, fun htrue => absurd htrue hresult⟩
      cases ok' with
      | false => exact hfailed
      | true =>
        simp only [Bool.not_true, Bool.false_eq_true, if_false]
        split
        · exact hfailed
        · obtain ⟨hsettled, rfl⟩ := hsettled₃ rfl
          have htemp₃ : (fs₃.current t).lookup tempFile = some (.file i) := by
            rw [hcurrent₃, hcurrent₂]
            exact htemp₁
          have htext₃ : fs₃.content i = serializeSchema schema.toSchemaParts := by
            rw [hcontent₃]
            exact htext₂ rfl
          have hrenamed := h₃.renameTemp hlocated₃.place htemp₃ hsettled hmay htext₃
          have henter : fs₃.rename t tempFile schemaFile =
              fs₃.enter t (((fs₃.current t).erase tempFile).insert schemaFile (.file i)) := by
            rw [Files.rename, htemp₃]
          refine throughout_step_bind hrenamed ?_
          refine (fsyncDirectory_throughout hrenamed t a.parent).mono ?_
          rintro r gs ⟨hagrees, hcurrent, hsame, hcontent, -, hsynced⟩
          have hlookup : ∀ other, (gs.current t).lookup other =
              (((fs₃.current t).erase tempFile).insert schemaFile (.file i)).lookup other := by
            intro other
            rw [hcurrent, henter]
            change (Function.update fs₃.current t _ t).lookup other = _
            rw [Function.update_self]
          refine ⟨hagrees, (hsame₃.trans ?_).trans hsame, ?_, fun htrue => ⟨hsynced htrue, i, ?_, ?_⟩⟩
          · rw [henter]
            exact sameBut_enter fs₃ t _
          · rw [hlookup, AList.lookup_insert_ne (by decide), AList.lookup_erase_ne (by decide)]
            exact htable₃
          · rw [hlookup, AList.lookup_insert]
          · rw [hcontent, henter]
            exact htext₃
    · rintro e gs ⟨-, -, -, -, -, b, heq⟩
      cases heq

/-! ## A new data file -/

theorem createEmptyFileDurable_throughout (h : Agrees fs k) {database table : String} {d t : Nat}
    (hlocated : Located fs database table d t)
    (hall : ∀ w ∈ fs.versions d, w.lookup table = some (.directory t))
    (hschema : (fs.current t).lookup schemaFile = none)
    (hnone : none ∈ k.possible database table) (a : EmptyFileAnswers) :
    Throughout (Agrees · k) (createEmptyFileDurable t tableFile a) fs fun r gs =>
      Agrees gs k ∧ SameBut fs gs t ∧
        (r = .ok true → ∃ j, (gs.current t).lookup tableFile = some (.file j)) := by
  rw [createEmptyFileDurable]
  refine throughout_look_bind ?_
  split
  · exact throughout_pure ⟨h, SameBut.refl fs t, fun heq => by cases heq⟩
  rename_i hopened
  rw [Bool.not_eq_true, Bool.or_eq_false_iff] at hopened
  have hfree : (fs.current t).lookup tableFile = none := Option.isNone_iff_eq_none.mp (by
    simpa using hopened.1)
  have hborn : t < fs.next := (h.wellFormed.born _ _ _ hlocated.place.2).2
  have hanchored : ∀ e name, (fs.current e).lookup name = some (.directory t) →
      ∀ w ∈ fs.versions e, w.lookup name = some (.directory t) := by
    intro e name hname
    obtain ⟨rfl, rfl⟩ := h.wellFormed.directoryPlace _ _ _ _ _ (mentions_current hname)
      hlocated.place.2
    exact hall
  have hcreated : Agrees (fs.createFile t tableFile) k :=
    h.createFile hborn hfree (by decide) fun _ => ⟨hschema, hanchored⟩
  have hsame : SameBut fs (fs.createFile t tableFile) t := sameBut_enter fs t _
  have hfile : ((fs.createFile t tableFile).current t).lookup tableFile = some (.file fs.next) := by
    change (Function.update fs.current t _ t).lookup tableFile = _
    rw [Function.update_self, AList.lookup_insert]
  refine throughout_step_bind hcreated ?_
  refine throughout_bind (fsyncFile_throughout hcreated fs.next a.file) ?_ ?_
  swap
  · rintro e gs ⟨-, -, -, -, ⟨b, heq⟩, -⟩
    cases heq
  rintro synced fs₁ ⟨h₁, hcurrent₁, holder₁, -, -, -⟩
  have hsame₁ : SameBut fs fs₁ t := hsame.trans fun e _ => by
    rw [hcurrent₁, holder₁]
    exact ⟨rfl, rfl⟩
  cases synced with
  | true =>
    refine (fsyncDirectory_throughout h₁ t a.parent).mono ?_
    rintro r gs ⟨hagrees, hcurrent, hsame₂, -, -, -⟩
    refine ⟨hagrees, hsame₁.trans hsame₂, fun _ => ⟨fs.next, ?_⟩⟩
    rw [hcurrent, hcurrent₁]
    exact hfile
  | false =>
    simp only [Bool.false_eq_true, if_false]
    split
    · have hremoved : Agrees (fs₁.remove t tableFile) k := by
        have hlocated₁ := hlocated.of_sameBut h.wellFormed hsame₁
        refine h₁.remove (fun database' table' hthrough => ?_) (fun h0 => ?_)
        · obtain ⟨rfl, rfl⟩ := through_tableFile h₁.wellFormed hlocated₁.place hthrough
          exact hnone
        · exact absurd h0 (hlocated₁.place.ne_zero h₁.wellFormed).2.1
      refine throughout_step_bind hremoved (throughout_pure ⟨hremoved, ?_, fun heq => by cases heq⟩)
      exact hsame₁.trans (sameBut_enter fs₁ t _)
    · exact throughout_stop ⟨h₁, hsame₁, fun heq => by cases heq⟩

/-! ## Removing a directory with what is in it -/

/-- Only tables are found through the entry that may not exist. -/
structure Expendable (fs : CatalogFiles) (k : CatalogView) (d : Nat) (name : String) : Prop where
  through : ∀ database table, Through fs d name database table → none ∈ k.possible database table
  unsettled : d = 0 → k.settled name = false

theorem Through.mono {e : Nat} {name database table : String}
    (hm : ∀ d other x, gs.Mentions d other x → fs.Mentions d other x)
    (h : Through gs e name database table) : Through fs e name database table := by
  rcases h with h | ⟨hdatabase, htable⟩ | ⟨d, hplace, hname⟩
  · exact .inl h
  · exact .inr (.inl ⟨hm _ _ _ hdatabase, htable⟩)
  · exact .inr (.inr ⟨d, ⟨hm _ _ _ hplace.1, hm _ _ _ hplace.2⟩, hname⟩)

theorem Expendable.mono {d : Nat} {name : String} (h : Expendable fs k d name)
    (hm : ∀ d other x, gs.Mentions d other x → fs.Mentions d other x) : Expendable gs k d name :=
  ⟨fun database table hthrough => h.through database table (hthrough.mono hm), h.unsettled⟩

/-- What is in a directory goes with it. -/
theorem Expendable.below {d e : Nat} {name : String} (h : Expendable fs k d name)
    (hwf : fs.WellFormed) (he : fs.Mentions d name (.directory e)) (other : String) :
    Expendable fs k e other := by
  have he0 : e ≠ 0 := by
    rintro rfl
    exact hwf.noRoot _ _ he
  refine ⟨fun database table hthrough => h.through database table ?_, fun h0 => absurd h0 he0⟩
  rcases hthrough with ⟨h0, -⟩ | ⟨hdatabase, -⟩ | ⟨d', hplace, -⟩
  · exact absurd h0 he0
  · obtain ⟨rfl, rfl⟩ := hwf.directoryPlace _ _ _ _ _ he hdatabase
    exact .inl ⟨rfl, rfl⟩
  · obtain ⟨rfl, rfl⟩ := hwf.directoryPlace _ _ _ _ _ he hplace.2
    exact .inr (.inl ⟨hplace.1, rfl⟩)

theorem mentions_remove {d e : Nat} {name other : String} {x : Node}
    (h : (fs.remove d name).Mentions e other x) : fs.Mentions e other x := by
  rcases mentions_enter.mp h with h | ⟨rfl, hx⟩
  · exact h
  · exact mentions_current (lookup_erase_eq_some.mp hx).2

/-- One removal keeps the agreement, and brings no entry. -/
theorem removePath_agrees (h : Agrees fs k) {d : Nat} {name : String}
    (hexpendable : Expendable fs k d name) (path : List String) :
    Agrees (removePath fs d (name :: path)) k ∧
      ∀ e other x, (removePath fs d (name :: path)).Mentions e other x → fs.Mentions e other x := by
  have hremove : ∀ {e other}, Expendable fs k e other → Agrees (fs.remove e other) k ∧
      ∀ f n x, (fs.remove e other).Mentions f n x → fs.Mentions f n x := fun hexp =>
    ⟨h.remove hexp.through hexp.unsettled, fun _ _ _ hm => mentions_remove hm⟩
  induction path generalizing d name with
  | nil =>
    rw [removePath]
    split
    · split
      · exact hremove hexpendable
      · exact ⟨h, fun _ _ _ hm => hm⟩
    · exact hremove hexpendable
    · exact ⟨h, fun _ _ _ hm => hm⟩
  | cons other path ih =>
    rw [removePath]
    split
    · rename_i e he
      exact ih (hexpendable.below h.wellFormed (mentions_current he) other)
    · exact ⟨h, fun _ _ _ hm => hm⟩

theorem removePaths_throughout (h : Agrees fs k) {d : Nat} {name : String}
    (hexpendable : Expendable fs k d name) (paths : List (List String)) :
    Throughout (Agrees · k) (removePaths d name paths) fs fun r gs =>
      r = .ok () ∧ Agrees gs k ∧ ∀ e other x, gs.Mentions e other x → fs.Mentions e other x := by
  induction paths generalizing fs with
  | nil =>
    rw [removePaths]
    exact throughout_pure ⟨rfl, h, fun _ _ _ hm => hm⟩
  | cons path paths ih =>
    rw [removePaths]
    obtain ⟨hagrees, hmentions⟩ := removePath_agrees h hexpendable path
    refine throughout_step_bind hagrees ?_
    refine (ih hagrees (hexpendable.mono hmentions)).mono ?_
    rintro r gs ⟨hresult, hagrees', hmentions'⟩
    exact ⟨hresult, hagrees', fun e other x hm => hmentions e other x (hmentions' e other x hm)⟩

theorem removeAll_throughout (h : Agrees fs k) {d : Nat} {name : String}
    (hexpendable : Expendable fs k d name) (a : RemoveAnswers) :
    Throughout (Agrees · k) (removeAll d name a) fs fun r gs =>
      Agrees gs k ∧ (∀ e other x, gs.Mentions e other x → fs.Mentions e other x) ∧
        (∃ b, r = .ok b) ∧ (r = .ok true → (gs.current d).lookup name = none) := by
  rw [removeAll]
  refine throughout_bind (removePaths_throughout h hexpendable a.removals) ?_ ?_
  · rintro - gs ⟨-, hagrees, hmentions⟩
    refine throughout_look_bind (throughout_pure ⟨hagrees, hmentions, ⟨_, rfl⟩, fun htrue => ?_⟩)
    rwa [Except.ok.injEq, Option.isNone_iff_eq_none] at htrue
  · rintro e gs ⟨heq, -⟩
    cases heq

/-- `remove_all` and the sync of the parent directory, where it succeeded. -/
theorem removeDurable_throughout (h : Agrees fs k) {d : Nat} {name : String}
    (hexpendable : Expendable fs k d name) (a : RemoveAnswers) :
    Throughout (Agrees · k)
      (do if ← removeAll d name a then fsyncDirectory d a.parent else pure false) fs fun r gs =>
      Agrees gs k ∧ (∀ e other x, gs.Mentions e other x → fs.Mentions e other x) ∧
        (r = .ok true → gs.versions d = [gs.current d] ∧ (gs.current d).lookup name = none) := by
  refine throughout_bind (removeAll_throughout h hexpendable a) ?_ ?_
  · rintro removed fs₁ ⟨h₁, hmentions₁, -, hgone⟩
    cases removed with
    | false => exact throughout_pure ⟨h₁, hmentions₁, fun heq => by cases heq⟩
    | true =>
      refine (fsyncDirectory_throughout h₁ d a.parent).mono ?_
      rintro r gs ⟨hagrees, hcurrent, -, -, hversions, hsynced⟩
      refine ⟨hagrees, ?_, fun htrue => ⟨hsynced htrue, ?_⟩⟩
      · rintro e other x ⟨v, hv, hx⟩
        exact hmentions₁ e other x ⟨v, hversions e v hv, hx⟩
      · rw [hcurrent]
        exact hgone rfl
  · rintro e gs ⟨-, -, ⟨b, heq⟩, -⟩
    cases heq

end Catalog

end ScratchDb
