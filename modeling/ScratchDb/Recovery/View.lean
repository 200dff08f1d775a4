import ScratchDb.Lib.Patch
import ScratchDb.Storage.FileSystem
import ScratchDb.Storage.PageBytes

/-!
# What a file system holds, location by location

A file system seen as a state over locations: which directories exist, the
schema texts, which paged files exist and what each page holds. Every effect
is a patch of that state, so a list of effects is decided, location by
location, by the last one that assigns it.
-/

namespace ScratchDb

/-! ## Locations -/

inductive Loc where
  | directory (p : Path)
  | text (p : Path)
  | file (p : Path)
  | page (p : Path) (k : Nat)
deriving DecidableEq

/-- The path a location belongs to. -/
def Loc.path : Loc → Path
  | directory p => p
  | text p => p
  | file p => p
  | page p _ => p

inductive Val (V : Type) where
  | present (b : Bool)
  | text (t : Option Bytes)
  | page (v : V)

/-- What is looked at in a page of a file. The `page_lsn` of a table page is
never part of it. -/
structure PageView (V : Type) where
  look : Path → Page → V
  look_setPageLsn : ∀ (file : Path) (p : Page) (lsn : Nat), file.filename = tableFileName →
    look file (p.setPageLsn lsn) = look file p

/-- The value of a location where nothing is. -/
def Loc.absent {V : Type} (E : PageView V) : Loc → Val V
  | directory _ => .present false
  | text _ => .text none
  | file _ => .present false
  | page p _ => .page (E.look p Page.zero)

namespace FileSystem

variable {V : Type} (E : PageView V)

def view (fs : FileSystem) : Loc → Val V
  | .directory p => .present (fs.isDirectory p)
  | .text p => .text (fs.text p)
  | .file p => .present (fs.pages p).isSome
  | .page p k => .page (E.look p (fs.pageAt p k))

@[simp] theorem view_directory (fs : FileSystem) (p : Path) :
    fs.view E (.directory p) = .present (fs.isDirectory p) := rfl

@[simp] theorem view_page (fs : FileSystem) (p : Path) (k : Nat) :
    fs.view E (.page p k) = .page (E.look p (fs.pageAt p k)) := rfl

end FileSystem

/-- Pages byte by byte, a table page without its `page_lsn`. -/
def contentView : PageView Page where
  look file p := if file.filename = tableFileName then p.withoutPageLsn else p
  look_setPageLsn file p lsn h := by simp [h, Page.withoutPageLsn_setPageLsn]

/-- Equal contents of a page of `file`; `page_lsn` does not count in a table. -/
def SameContent (file : Path) (p q : Page) : Prop := contentView.look file p = contentView.look file q

theorem SameContent.symm {file : Path} {p q : Page} (h : SameContent file p q) :
    SameContent file q p := Eq.symm h

theorem SameContent.trans {file : Path} {p q r : Page} (h : SameContent file p q)
    (h' : SameContent file q r) : SameContent file p r := Eq.trans h h'

/-- The state in which a file can be created in its directory. -/
def Finds {V : Type} (file : Path) (s : Loc → Val V) : Prop :=
  file.dropLast = [] ∨ s (.directory file.dropLast) = .present true

theorem finds_view_iff {V : Type} {E : PageView V} {fs : FileSystem} {file : Path} :
    Finds file (fs.view E) ↔ fs.parentExists file = true := by
  simp [Finds, FileSystem.parentExists, List.isEmpty_iff]

/-! ## Blocks of a file -/

theorem length_writeBlock (blocks : List Page) (k : Nat) (page : Page) :
    (writeBlock blocks k page).length = max blocks.length (k + 1) := by
  unfold writeBlock
  split
  · rw [List.length_set]
    omega
  · simp only [List.length_append, List.length_replicate, List.length_singleton]
    omega

theorem getD_writeBlock (blocks : List Page) (k j : Nat) (page : Page) :
    (writeBlock blocks k page).getD j Page.zero =
      if j = k then page else blocks.getD j Page.zero := by
  unfold writeBlock
  split
  · rename_i hk
    by_cases hj : j = k
    · subst hj
      simp [List.getD, hk]
    · simp [List.getD, hj, List.getElem?_set_ne (Ne.symm hj)]
  · rename_i hk
    by_cases hj : j = k
    · subst hj
      have hlen : (blocks ++ List.replicate (j - blocks.length) Page.zero).length = j := by
        simp
        omega
      rw [if_pos rfl, List.getD, List.getElem?_append_right (Nat.le_of_eq hlen), hlen]
      simp
    · rw [if_neg hj]
      by_cases hlt : j < blocks.length
      · simp [List.getD, List.append_assoc, List.getElem?_append_left hlt]
      · -- a block of the gap, or one behind the written block
        have hnone : blocks[j]? = none := List.getElem?_eq_none (by omega)
        rw [List.append_assoc, List.getD, List.getElem?_append_right (by omega), List.getD, hnone]
        by_cases hgap : j - blocks.length < k - blocks.length
        · rw [List.getElem?_append_left (by simpa using hgap), List.getElem?_replicate]
          simp [hgap]
        · rw [List.getElem?_append_right (by simpa using hgap), List.length_replicate,
            List.getElem?_eq_none (by simp; omega)]

theorem pageAt_writePage (fs : FileSystem) (file : Path) (k : Nat) (page : Page) (p : Path)
    (j : Nat) : ((Effect.writePage file k page).applyFs fs).pageAt p j =
      if p = file ∧ j = k then page else fs.pageAt p j := by
  by_cases hp : p = file
  · subst hp
    simpa [FileSystem.pageAt, Effect.applyFs] using
      getD_writeBlock ((fs.pages p).getD []) k j page
  · simp [FileSystem.pageAt, Effect.applyFs, hp]

/-! ## Effects as patches -/

namespace Effect

variable {V : Type} (E : PageView V)

/-- What an effect assigns. -/
def patch : Effect → Patch Loc (Val V)
  | append _ => Patch.skip
  | createDirectories d => fun
    | .directory p => if p.isPrefixOf d then some (.present true) else none
    | _ => none
  | openCreate file => fun
    | .file p => if p = file then some (.present true) else none
    | _ => none
  | truncateText file => fun
    | .text p => if p = file then some (.text (some [])) else none
    | _ => none
  | writeText file t => fun
    | .text p => if p = file then some (.text (some t)) else none
    | _ => none
  | replaceText file t => fun
    | .text p => if p = file then some (.text (some t)) else none
    | _ => none
  | removeAll d => fun loc => if d.isPrefixOf loc.path then some (loc.absent E) else none
  | writePage file k page => fun
    | .file p => if p = file then some (.present true) else none
    | .page p j => if p = file ∧ j = k then some (.page (E.look p page)) else none
    | _ => none

/-- An effect changes the view as its patch says. -/
theorem view_applyFs (fs : FileSystem) (e : Effect) :
    (e.applyFs fs).view E = (e.patch E).apply (fs.view E) := by
  funext loc
  cases e with
  | append r => rfl
  | createDirectories d =>
      cases loc <;> simp only [FileSystem.view, applyFs, patch, Patch.apply, FileSystem.pageAt] <;>
        try rfl
      split <;> simp_all
  | openCreate file =>
      cases loc with
      | page p k =>
          simp only [FileSystem.view, patch, Patch.apply, Option.getD_none, FileSystem.pageAt,
            applyFs]
          split <;> simp
      | file p =>
          simp only [FileSystem.view, patch, Patch.apply, applyFs]
          split <;> simp
      | _ => rfl
  | truncateText file =>
      cases loc <;> simp only [FileSystem.view, applyFs, patch, Patch.apply, FileSystem.pageAt] <;>
        try rfl
      split <;> simp
  | writeText file t =>
      cases loc <;> simp only [FileSystem.view, applyFs, patch, Patch.apply, FileSystem.pageAt] <;>
        try rfl
      split <;> simp
  | replaceText file t =>
      cases loc <;> simp only [FileSystem.view, applyFs, patch, Patch.apply, FileSystem.pageAt] <;>
        try rfl
      split <;> simp
  | removeAll d =>
      rcases hp : d.isPrefixOf loc.path with _ | _ <;> simp only [patch, Patch.apply, hp] <;>
        cases loc <;>
        simp_all [FileSystem.view, applyFs, Loc.absent, Loc.path, FileSystem.pageAt,
          -List.isPrefixOf_iff_prefix]
  | writePage file k page =>
      cases loc with
      | page p j =>
          rw [FileSystem.view_page, pageAt_writePage]
          simp only [patch, Patch.apply]
          split <;> simp
      | file p =>
          simp only [FileSystem.view, patch, Patch.apply, applyFs]
          split <;> simp
      | _ => rfl

/-- What an effect needs, as a condition on the view. -/
def Ready (e : Effect) (s : Loc → Val V) : Prop :=
  match e with
  | openCreate file => Finds file s
  | truncateText file => Finds file s
  | writeText file _ => Finds file s
  | replaceText file _ => Finds file s
  | writePage file _ _ => Finds file s
  | _ => True

theorem ready_view_iff {fs : FileSystem} {e : Effect} :
    e.Ready (fs.view E) ↔ e.possible fs = true := by
  cases e <;> simp [Ready, possible, finds_view_iff]

/-- The effect as a guarded patch. -/
def guarded (e : Effect) : Patch.Guarded Loc (Val V) := ⟨e.Ready, e.patch E⟩

def applyFsAll (fs : FileSystem) (es : List Effect) : FileSystem := es.foldl applyFs fs

theorem view_applyFsAll (fs : FileSystem) (es : List Effect) :
    (applyFsAll fs es).view E = Patch.play (es.map (guarded E)) (fs.view E) := by
  induction es generalizing fs with
  | nil => rfl
  | cons e es ih =>
      have h := ih (e.applyFs fs)
      rw [view_applyFs] at h
      exact h

/-- Each effect of the list is possible where it is reached. -/
def performable (fs : FileSystem) : List Effect → Bool
  | [] => true
  | e :: es => e.possible fs && performable (e.applyFs fs) es

theorem performable_iff (fs : FileSystem) (es : List Effect) :
    performable fs es = true ↔ Patch.Playable (es.map (guarded E)) (fs.view E) := by
  induction es generalizing fs with
  | nil => simp [performable]
  | cons e es ih =>
      simp only [performable, Bool.and_eq_true, List.map_cons, Patch.playable_cons, ih]
      rw [view_applyFs]
      exact and_congr (ready_view_iff E).symm Iff.rfl

theorem performable_append (fs : FileSystem) (es fs' : List Effect) :
    performable fs (es ++ fs') = (performable fs es && performable (applyFsAll fs es) fs') := by
  induction es generalizing fs with
  | nil => rfl
  | cons e es ih => simp [performable, applyFsAll, ih, Bool.and_assoc]

end Effect

/-! ## Performing effects -/

/-- The log records a list of effects appends. -/
def appended : List Effect → List WalRecord
  | [] => []
  | .append r :: es => r :: appended es
  | _ :: es => appended es

theorem appended_append (es es' : List Effect) :
    appended (es ++ es') = appended es ++ appended es' := by
  induction es with
  | nil => rfl
  | cons e es ih => cases e <;> simp [appended, ih]

theorem applyFsAll_append (fs : FileSystem) (es es' : List Effect) :
    Effect.applyFsAll fs (es ++ es') = Effect.applyFsAll (Effect.applyFsAll fs es) es' := by
  simp [Effect.applyFsAll, List.foldl_append]

namespace World

/-- The world after performing `es`, with `last_lsn_ = lastLsn` at the end. -/
def advance (w : World) (es : List Effect) (lastLsn : Nat) : World :=
  { disk := ⟨Effect.applyFsAll w.disk.fs es, w.disk.wal ++ appended es⟩
    manager := { w.manager with lastLsn := lastLsn }
    trace := w.trace ++ es.map fun e => ⟨e, w.manager.durableLsn⟩ }

theorem advance_nil (w : World) : w.advance [] w.manager.lastLsn = w := by
  simp [advance, Effect.applyFsAll, appended]

theorem advance_advance (w : World) (es es' : List Effect) (l l' : Nat) :
    (w.advance es l).advance es' l' = w.advance (es ++ es') l' := by
  simp [advance, applyFsAll_append, appended_append]

end World

theorem perform_ok {e : Effect} {w : World} (h : e.possible w.disk.fs = true) :
    perform e w = (.ok true, w.advance [e] w.manager.lastLsn) := by
  unfold perform
  rw [if_pos h]
  cases e <;> simp [World.advance, Effect.apply, Effect.applyFsAll, appended, Effect.applyFs]

theorem perform_refused {e : Effect} {w : World} (h : e.possible w.disk.fs = false) :
    perform e w = (.ok false, w) := by
  unfold perform
  rw [if_neg (by simp [h])]

/-- Perform effects one after the other until one is refused. -/
def performAll : List Effect → Io Bool
  | [] => pure true
  | e :: es => do
    if !(← perform e) then pure false else performAll es

theorem performAll_ok {es : List Effect} {w : World}
    (h : Effect.performable w.disk.fs es = true) :
    performAll es w = (.ok true, w.advance es w.manager.lastLsn) := by
  induction es generalizing w with
  | nil => simp [performAll, World.advance_nil]
  | cons e es ih =>
      obtain ⟨he, hes⟩ := Bool.and_eq_true_iff.mp h
      rw [performAll, Prog.bind_ok (perform_ok he)]
      have hrest := ih (w := w.advance [e] w.manager.lastLsn) hes
      simp only [Bool.not_true, Bool.false_eq_true, if_false]
      rw [hrest, World.advance_advance]
      rfl

theorem performAll_refused {es : List Effect} {w : World}
    (h : Effect.performable w.disk.fs es = false) : (performAll es w).1 = .ok false := by
  induction es generalizing w with
  | nil => simp [Effect.performable] at h
  | cons e es ih =>
      rcases he : e.possible w.disk.fs with _ | _
      · rw [performAll, Prog.bind_ok (perform_refused he)]
        rfl
      · rw [performAll, Prog.bind_ok (perform_ok he)]
        have hes : Effect.performable (e.applyFs w.disk.fs) es = false := by
          simpa [Effect.performable, he] using h
        simpa using ih (w := w.advance [e] w.manager.lastLsn) hes

end ScratchDb
