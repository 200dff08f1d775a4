import Mathlib.Data.List.AList
import Mathlib.Logic.Function.Basic

/-!
# A file system that can lose power

Directories and files are told apart by numbers that are never used again. A
directory keeps its versions since it was last synced, and a power loss brings
any of them back; a file that was not synced comes back with any content.
Renaming takes a directory from one version to the next, so it happens as a
whole or not at all.
-/

namespace DurableFiles

/-- What a name of a directory stands for. -/
inductive Node where
  | directory (id : Nat)
  | file (id : Nat)
deriving DecidableEq, Repr

def Node.id : Node → Nat
  | .directory id => id
  | .file id => id

/-- The entries of a directory. -/
abbrev Version (Name : Type) := AList fun _ : Name => Node

/-- The directories with their versions, the files with their content, and the first number that
was not used yet. -/
structure Files (Name α : Type) where
  current : Nat → Version Name
  /-- the versions before the current one that a power loss may bring back -/
  older : Nat → List (Version Name)
  content : Nat → List α
  settled : Nat → Bool
  next : Nat

namespace Files

variable {Name α : Type}

/-- Only the root, number 0, which is empty. -/
def empty : Files Name α where
  current _ := ∅
  older _ := []
  content _ := []
  settled _ := true
  next := 1

def versions (fs : Files Name α) (d : Nat) : List (Version Name) := fs.current d :: fs.older d

/-- A new version of a directory. -/
def enter (fs : Files Name α) (d : Nat) (v : Version Name) : Files Name α :=
  { fs with
    current := Function.update fs.current d v
    older := Function.update fs.older d (fs.versions d) }

section Steps

variable [DecidableEq Name] (fs : Files Name α) (d : Nat) (name : Name)

def makeDirectory : Files Name α :=
  { fs.enter d ((fs.current d).insert name (.directory fs.next)) with next := fs.next + 1 }

def createFile : Files Name α :=
  { fs.enter d ((fs.current d).insert name (.file fs.next)) with
    content := Function.update fs.content fs.next []
    settled := Function.update fs.settled fs.next false
    next := fs.next + 1 }

def remove : Files Name α := fs.enter d ((fs.current d).erase name)

/-- Only files are renamed; a file that has the name already is replaced. -/
def rename (target : Name) : Files Name α :=
  match (fs.current d).lookup name with
  | some (.file i) => fs.enter d (((fs.current d).erase name).insert target (.file i))
  | _ => fs

def syncDirectory : Files Name α := { fs with older := Function.update fs.older d [] }

def write (i : Nat) (text : List α) : Files Name α :=
  { fs with
    content := Function.update fs.content i text
    settled := Function.update fs.settled i false }

def syncFile (i : Nat) : Files Name α :=
  { fs with settled := Function.update fs.settled i true }

/-- `choice` says which version of a directory comes back, `torn` what is in the other files. -/
def powerLoss (choice : Nat → Nat) (torn : Nat → List α) : Files Name α :=
  { fs with
    current := fun d => (fs.versions d)[choice d]?.getD (fs.current d)
    older := fun _ => []
    content := fun i => if fs.settled i then fs.content i else torn i
    settled := fun _ => true }

end Steps

section Lookups

variable [DecidableEq Name]

/-- A version of a directory has the entry. -/
def Mentions (fs : Files Name α) (d : Nat) (name : Name) (x : Node) : Prop :=
  ∃ v ∈ fs.versions d, v.lookup name = some x

/-- One version for each directory. -/
def Snapshot (fs : Files Name α) (s : Nat → Version Name) : Prop := ∀ d, s d ∈ fs.versions d

/-- The directory that a name stands for. -/
def directoryIn (s : Nat → Version Name) (d : Nat) (name : Name) : Option Nat :=
  match (s d).lookup name with
  | some (.directory e) => some e
  | _ => none

/-- The file that a name stands for. -/
def fileIn (s : Nat → Version Name) (d : Nat) (name : Name) : Option Nat :=
  match (s d).lookup name with
  | some (.file i) => some i
  | _ => none

theorem directoryIn_eq_some {s : Nat → Version Name} {d e : Nat} {name : Name} :
    directoryIn s d name = some e ↔ (s d).lookup name = some (.directory e) := by
  rw [directoryIn]
  rcases h : (s d).lookup name with _ | _ | _ <;> simp

theorem fileIn_eq_some {s : Nat → Version Name} {d i : Nat} {name : Name} :
    fileIn s d name = some i ↔ (s d).lookup name = some (.file i) := by
  rw [fileIn]
  rcases h : (s d).lookup name with _ | _ | _ <;> simp

end Lookups

/-! ## Entries -/

section Entries

variable [DecidableEq Name] {v : Version Name} {name other : Name} {x y : Node}

theorem lookup_erase_eq_some :
    (v.erase name).lookup other = some x ↔ other ≠ name ∧ v.lookup other = some x := by
  by_cases h : other = name
  · subst h
    simp [AList.lookup_erase]
  · simp [AList.lookup_erase_ne h, h]

theorem lookup_insert_eq_some : (v.insert name y).lookup other = some x ↔
    other = name ∧ x = y ∨ other ≠ name ∧ v.lookup other = some x := by
  by_cases h : other = name
  · subst h
    simp [AList.lookup_insert, eq_comm]
  · simp [AList.lookup_insert_ne h, h]

/-- An entry in a snapshot that shows another version of one directory. -/
theorem lookup_update_eq_some {s : Nat → Version Name} {d e : Nat} :
    (Function.update s d v e).lookup name = some x ↔
      e = d ∧ v.lookup name = some x ∨ e ≠ d ∧ (s e).lookup name = some x := by
  by_cases h : e = d
  · subst h
    simp
  · simp [h]

end Entries

/-! ## Versions after a step -/

section Versions

variable [DecidableEq Name] {fs : Files Name α} {d e : Nat} {v : Version Name} {name : Name}
  {x : Node}

theorem mem_versions_enter {w : Version Name} :
    w ∈ (fs.enter d v).versions e ↔ w ∈ fs.versions e ∨ e = d ∧ w = v := by
  by_cases h : e = d
  · subst h
    simp [versions, enter, or_comm]
  · simp [versions, enter, h]

theorem mentions_enter :
    (fs.enter d v).Mentions e name x ↔ fs.Mentions e name x ∨ e = d ∧ v.lookup name = some x := by
  constructor
  · rintro ⟨w, hw, hx⟩
    rcases mem_versions_enter.mp hw with hw | ⟨he, rfl⟩
    · exact .inl ⟨w, hw, hx⟩
    · exact .inr ⟨he, hx⟩
  · rintro (⟨w, hw, hx⟩ | ⟨he, hx⟩)
    · exact ⟨w, mem_versions_enter.mpr (.inl hw), hx⟩
    · exact ⟨v, mem_versions_enter.mpr (.inr ⟨he, rfl⟩), hx⟩

theorem mentions_current (h : (fs.current d).lookup name = some x) : fs.Mentions d name x :=
  ⟨fs.current d, List.mem_cons_self, h⟩

theorem mem_versions_syncDirectory {w : Version Name} (h : w ∈ (fs.syncDirectory d).versions e) :
    w ∈ fs.versions e := by
  by_cases he : e = d
  · subst he
    simp only [syncDirectory, versions, Function.update_self, List.mem_singleton] at h
    exact h ▸ List.mem_cons_self
  · simpa [syncDirectory, versions, he] using h

theorem versions_syncDirectory : (fs.syncDirectory d).versions d = [fs.current d] := by
  simp [syncDirectory, versions]

theorem mem_versions_powerLoss {choice : Nat → Nat} {torn : Nat → List α} {w : Version Name}
    (h : w ∈ (fs.powerLoss choice torn).versions e) : w ∈ fs.versions e := by
  simp only [versions, powerLoss, List.mem_cons, List.not_mem_nil, or_false] at h
  subst h
  rcases hchoice : (fs.current e :: fs.older e)[choice e]? with _ | w
  · exact List.mem_cons_self
  · exact List.mem_of_getElem? hchoice

theorem snapshot_current (fs : Files Name α) : fs.Snapshot fs.current :=
  fun _ => List.mem_cons_self

/-- What holds for the old snapshots, and for those that show the new version in place of the
current one, holds for all of them. -/
theorem forall_snapshot_enter {P : (Nat → Version Name) → Prop} (hold : ∀ s, fs.Snapshot s → P s)
    (hnew : ∀ s, fs.Snapshot s → s d = fs.current d → P (Function.update s d v)) (s : Nat → Version Name)
    (hs : (fs.enter d v).Snapshot s) : P s := by
  by_cases h : s d ∈ fs.versions d
  · refine hold s fun e => ?_
    rcases mem_versions_enter.mp (hs e) with he | ⟨rfl, -⟩
    · exact he
    · exact h
  · have hv : s d = v := by
      rcases mem_versions_enter.mp (hs d) with hd | ⟨-, hd⟩
      · exact absurd hd h
      · exact hd
    have hsnap : fs.Snapshot (Function.update s d (fs.current d)) := by
      intro e
      by_cases he : e = d
      · subst he
        rw [Function.update_self]
        exact List.mem_cons_self
      · rw [Function.update_of_ne he]
        rcases mem_versions_enter.mp (hs e) with he' | ⟨rfl, -⟩
        · exact he'
        · exact absurd rfl he
    have hP := hnew _ hsnap (Function.update_self ..)
    rwa [Function.update_idem, ← hv, Function.update_eq_self] at hP

end Versions

/-! ## Directories and files have one place -/

section WellFormed

variable [DecidableEq Name]

/-- Numbers are used once: a directory has one name in one directory, and all names of a file are in
one directory. -/
structure WellFormed (fs : Files Name α) : Prop where
  rootFree : 0 < fs.next
  noRoot : ∀ d name, ¬ fs.Mentions d name (.directory 0)
  born : ∀ d name x, fs.Mentions d name x → d < fs.next ∧ x.id < fs.next
  directoryPlace : ∀ d d' name name' e, fs.Mentions d name (.directory e) →
    fs.Mentions d' name' (.directory e) → d = d' ∧ name = name'
  filePlace : ∀ d d' name name' i, fs.Mentions d name (.file i) →
    fs.Mentions d' name' (.file i) → d = d'

variable {fs : Files Name α} {d : Nat}

theorem wellFormed_empty : (empty : Files Name α).WellFormed := by
  have hnone : ∀ d name x, ¬ (empty : Files Name α).Mentions d name x := by
    rintro d name x ⟨v, hv, hx⟩
    simp only [versions, empty, List.mem_cons, List.not_mem_nil, or_false] at hv
    rw [hv, AList.lookup_empty] at hx
    cases hx
  exact ⟨Nat.one_pos, fun d name => hnone d name _, fun d name x h => absurd h (hnone d name x),
    fun d _ name _ _ h => absurd h (hnone d name _), fun d _ name _ _ h => absurd h (hnone d name _)⟩

namespace WellFormed

theorem of_mentions {gs : Files Name α} (h : fs.WellFormed) (hnext : gs.next = fs.next)
    (hsub : ∀ d name x, gs.Mentions d name x → fs.Mentions d name x) : gs.WellFormed where
  rootFree := hnext ▸ h.rootFree
  noRoot d name hm := h.noRoot d name (hsub _ _ _ hm)
  born d name x hm := hnext ▸ h.born d name x (hsub _ _ _ hm)
  directoryPlace d d' name name' e hm hm' :=
    h.directoryPlace d d' name name' e (hsub _ _ _ hm) (hsub _ _ _ hm')
  filePlace d d' name name' i hm hm' :=
    h.filePlace d d' name name' i (hsub _ _ _ hm) (hsub _ _ _ hm')

theorem syncDirectory (h : fs.WellFormed) : (fs.syncDirectory d).WellFormed := by
  refine h.of_mentions rfl ?_
  rintro e name x ⟨v, hv, hx⟩
  exact ⟨v, mem_versions_syncDirectory hv, hx⟩

theorem powerLoss (h : fs.WellFormed) (choice : Nat → Nat) (torn : Nat → List α) :
    (fs.powerLoss choice torn).WellFormed := by
  refine h.of_mentions rfl ?_
  rintro e name x ⟨v, hv, hx⟩
  exact ⟨v, mem_versions_powerLoss hv, hx⟩

/-- The new version has entries of the current one, and files of the directory under other names. -/
theorem enter (h : fs.WellFormed) {v : Version Name}
    (hv : ∀ name x, v.lookup name = some x → fs.Mentions d name x ∨
      ∃ i source, x = .file i ∧ fs.Mentions d source (.file i)) : (fs.enter d v).WellFormed := by
  have hdirectory : ∀ e name j, (fs.enter d v).Mentions e name (.directory j) →
      fs.Mentions e name (.directory j) := by
    intro e name j hm
    rcases mentions_enter.mp hm with hm | ⟨rfl, hx⟩
    · exact hm
    · rcases hv name _ hx with hm | ⟨i, source, heq, -⟩
      · exact hm
      · cases heq
  have hfile : ∀ e name i, (fs.enter d v).Mentions e name (.file i) →
      ∃ source, fs.Mentions e source (.file i) := by
    intro e name i hm
    rcases mentions_enter.mp hm with hm | ⟨rfl, hx⟩
    · exact ⟨name, hm⟩
    · rcases hv name _ hx with hm | ⟨j, source, heq, hm⟩
      · exact ⟨name, hm⟩
      · cases heq
        exact ⟨source, hm⟩
  refine ⟨h.rootFree, fun e name hm => h.noRoot e name (hdirectory _ _ _ hm), ?_, ?_, ?_⟩
  · intro e name x hm
    cases x with
    | directory j => exact h.born e name _ (hdirectory _ _ _ hm)
    | file i =>
      obtain ⟨source, hm⟩ := hfile _ _ _ hm
      exact h.born e source _ hm
  · intro e e' name name' j hm hm'
    exact h.directoryPlace _ _ _ _ j (hdirectory _ _ _ hm) (hdirectory _ _ _ hm')
  · intro e e' name name' i hm hm'
    obtain ⟨source, hm⟩ := hfile _ _ _ hm
    obtain ⟨source', hm'⟩ := hfile _ _ _ hm'
    exact h.filePlace _ _ _ _ i hm hm'

theorem remove (h : fs.WellFormed) (name : Name) : (fs.remove d name).WellFormed := by
  refine h.enter fun other x hx => .inl (mentions_current ?_)
  by_cases hne : other = name
  · subst hne
    rw [AList.lookup_erase] at hx
    cases hx
  · rwa [AList.lookup_erase_ne hne] at hx

theorem rename (h : fs.WellFormed) (name target : Name) : (fs.rename d name target).WellFormed := by
  rw [Files.rename]
  rcases hfile : (fs.current d).lookup name with _ | j | i
  · exact h
  · exact h
  · refine h.enter fun other x hx => ?_
    by_cases htarget : other = target
    · subst htarget
      rw [AList.lookup_insert, Option.some_inj] at hx
      exact .inr ⟨i, name, hx.symm, mentions_current hfile⟩
    · rw [AList.lookup_insert_ne htarget] at hx
      by_cases hne : other = name
      · subst hne
        rw [AList.lookup_erase] at hx
        cases hx
      · rw [AList.lookup_erase_ne hne] at hx
        exact .inl (mentions_current hx)

/-- The new version has one more entry, with the number that was not used yet. -/
theorem fresh {gs : Files Name α} (h : fs.WellFormed) (hd : d < fs.next) {name : Name} {x : Node}
    (hid : x.id = fs.next) (hnext : gs.next = fs.next + 1)
    (hmentions : ∀ e other y, gs.Mentions e other y →
      fs.Mentions e other y ∨ e = d ∧ other = name ∧ y = x) : gs.WellFormed := by
  have hold : ∀ {e other y}, y.id ≠ fs.next → gs.Mentions e other y → fs.Mentions e other y := by
    intro e other y hy hm
    rcases hmentions e other y hm with hm | ⟨-, -, rfl⟩
    · exact hm
    · exact absurd hid hy
  have hnew : ∀ {e other y}, y.id = fs.next → gs.Mentions e other y → e = d ∧ other = name := by
    intro e other y hy hm
    rcases hmentions e other y hm with hm | ⟨he, hother, -⟩
    · exact absurd (h.born e other y hm).2 (by omega)
    · exact ⟨he, hother⟩
  have hpos := h.rootFree
  refine ⟨by omega, fun e other hm => h.noRoot e other (hold (Nat.ne_of_lt hpos) hm), ?_, ?_, ?_⟩
  · intro e other y hm
    rcases hmentions e other y hm with hm | ⟨rfl, -, rfl⟩
    · have hborn := h.born e other y hm
      omega
    · omega
  · intro e e' other other' j hm hm'
    by_cases hj : j = fs.next
    · have he := hnew (y := .directory j) hj hm
      have he' := hnew (y := .directory j) hj hm'
      exact ⟨he.1.trans he'.1.symm, he.2.trans he'.2.symm⟩
    · exact h.directoryPlace _ _ _ _ j (hold hj hm) (hold hj hm')
  · intro e e' other other' i hm hm'
    by_cases hi : i = fs.next
    · exact (hnew (y := .file i) hi hm).1.trans (hnew (y := .file i) hi hm').1.symm
    · exact h.filePlace _ _ _ _ i (hold hi hm) (hold hi hm')

theorem mentions_enter_insert {e : Nat} {name other : Name} {x y : Node}
    (hm : (fs.enter d ((fs.current d).insert name x)).Mentions e other y) :
    fs.Mentions e other y ∨ e = d ∧ other = name ∧ y = x := by
  rcases mentions_enter.mp hm with hm | ⟨rfl, hy⟩
  · exact .inl hm
  · by_cases hother : other = name
    · subst hother
      rw [AList.lookup_insert, Option.some_inj] at hy
      exact .inr ⟨rfl, rfl, hy.symm⟩
    · rw [AList.lookup_insert_ne hother] at hy
      exact .inl (mentions_current hy)

theorem makeDirectory (h : fs.WellFormed) (hd : d < fs.next) (name : Name) :
    (fs.makeDirectory d name).WellFormed :=
  h.fresh hd (x := .directory fs.next) rfl rfl fun _ _ _ hm => mentions_enter_insert hm

theorem createFile (h : fs.WellFormed) (hd : d < fs.next) (name : Name) :
    (fs.createFile d name).WellFormed :=
  h.fresh hd (x := .file fs.next) rfl rfl fun _ _ _ hm => mentions_enter_insert hm

/-- A directory that does not exist yet is empty. -/
theorem lookup_unborn (h : fs.WellFormed) {e : Nat} (he : fs.next ≤ e) {v : Version Name}
    (hv : v ∈ fs.versions e) (name : Name) : v.lookup name = none := by
  rcases hx : v.lookup name with _ | x
  · rfl
  · have hborn := (h.born e name x ⟨v, hv, hx⟩).1
    omega

end WellFormed

end WellFormed

end Files

end DurableFiles
