import Mathlib.Data.List.Lex
import Mathlib.Data.Prod.Lex
import Mathlib.Data.Set.Insert
import ScratchDb.Storage.TableFile

/-!
# Index entries

`IndexFile::Entry` and its order, and the entries an `IndexFile` keeps in
memory: a sorted list in which `insert` and `remove` search with
`std::lower_bound`. The list is the sorted listing of a set of entries, to
which the operations add and from which they take.
-/

namespace ScratchDb

/-- Bytes in the order of their numbers, as `std::vector<uint8_t>` compares them. -/
instance instLinearOrderUInt8 : LinearOrder UInt8 where
  le_refl := UInt8.le_refl
  le_trans _ _ _ := UInt8.le_trans
  le_antisymm _ _ := UInt8.le_antisymm
  le_total := UInt8.le_total
  lt_iff_le_not_ge a b := by
    rw [UInt8.lt_iff_toNat_lt, UInt8.le_iff_toNat_le, UInt8.le_iff_toNat_le]
    omega
  toDecidableLE := inferInstance
  toDecidableLT := inferInstance

/-- The record id fits its types, `uint32_t` and `uint16_t`. -/
def RecordId.Fits (r : RecordId) : Prop := r.pageId < 2 ^ 32 ∧ r.slotId < 2 ^ 16

/-- `IndexFile::Entry`. -/
structure IndexEntry where
  key : Bytes
  recordId : RecordId
  fits : recordId.Fits
deriving DecidableEq

namespace IndexEntry

/-- `entry_less`. -/
def less (left right : IndexEntry) : Bool :=
  if left.key ≠ right.key then left.key < right.key
  else if left.recordId.pageId ≠ right.recordId.pageId then
    left.recordId.pageId < right.recordId.pageId
  else left.recordId.slotId < right.recordId.slotId

/-- What entries are compared by: the key, then the page, then the slot. -/
def rank (e : IndexEntry) : Bytes ×ₗ ℕ ×ₗ ℕ :=
  toLex (e.key, toLex (e.recordId.pageId, e.recordId.slotId))

theorem rank_injective : Function.Injective rank := by
  rintro ⟨k, ⟨p, s⟩, h⟩ ⟨k', ⟨p', s'⟩, h'⟩ heq
  simpa [rank] using heq

instance : LinearOrder IndexEntry := LinearOrder.lift' rank rank_injective

theorem lt_iff {a b : IndexEntry} : a < b ↔ a.key < b.key ∨ a.key = b.key ∧
    (a.recordId.pageId < b.recordId.pageId ∨
      a.recordId.pageId = b.recordId.pageId ∧ a.recordId.slotId < b.recordId.slotId) := by
  change a.rank < b.rank ↔ _
  rw [rank, rank, Prod.Lex.toLex_lt_toLex, Prod.Lex.toLex_lt_toLex]

@[simp] theorem less_iff {a b : IndexEntry} : a.less b = true ↔ a < b := by
  rw [lt_iff, less]
  by_cases hkey : a.key = b.key
  · by_cases hpage : a.recordId.pageId = b.recordId.pageId <;> simp [hkey, hpage]
  · simp [hkey]

/-- Keys stand in order where entries do. -/
theorem key_le_of_lt {a b : IndexEntry} (h : a < b) : a.key ≤ b.key := by
  rcases lt_iff.mp h with h | h
  · exact le_of_lt h
  · exact le_of_eq h.1

end IndexEntry

/-! ## The entries in memory -/

/-- The entries from `std::lower_bound` on. -/
def lowerBound (entries : List IndexEntry) (entry : IndexEntry) : List IndexEntry :=
  entries.dropWhile fun e => e.less entry

/-- The entries before `std::lower_bound`. -/
def beforeBound (entries : List IndexEntry) (entry : IndexEntry) : List IndexEntry :=
  entries.takeWhile fun e => e.less entry

/-- `entries_` is sorted, and no entry is in it twice. -/
def Sorted (entries : List IndexEntry) : Prop := entries.Pairwise (· < ·)

section Sorted

variable {entries : List IndexEntry} {entry a : IndexEntry}

theorem beforeBound_append_lowerBound (entries : List IndexEntry) (entry : IndexEntry) :
    beforeBound entries entry ++ lowerBound entries entry = entries :=
  List.takeWhile_append_dropWhile

theorem lt_of_mem_beforeBound (h : a ∈ beforeBound entries entry) : a < entry :=
  IndexEntry.less_iff.mp (List.all_eq_true.mp List.all_takeWhile a h)

/-- No entry from the bound on is below it. -/
theorem le_of_mem_lowerBound (hsorted : Sorted entries) (h : a ∈ lowerBound entries entry) :
    entry ≤ a := by
  induction entries with
  | nil => simp [lowerBound] at h
  | cons b bs ih =>
    have hb := List.pairwise_cons.mp hsorted
    rw [lowerBound, List.dropWhile_cons] at h
    split at h
    · exact ih hb.2 h
    · rename_i hge
      rw [IndexEntry.less_iff, not_lt] at hge
      rcases List.mem_cons.mp h with rfl | h
      · exact hge
      · exact hge.trans (le_of_lt (hb.1 a h))

/-- The bound meets the entry itself where it is among the entries. -/
theorem head?_lowerBound (hsorted : Sorted entries) :
    (lowerBound entries entry).head? = some entry ↔ entry ∈ entries := by
  constructor
  · intro h
    rw [← beforeBound_append_lowerBound entries entry]
    exact List.mem_append_right _ (List.mem_of_head? h)
  · intro h
    rw [← beforeBound_append_lowerBound entries entry] at h
    rcases List.mem_append.mp h with h | h
    · exact absurd (lt_of_mem_beforeBound h) (lt_irrefl _)
    · cases hbound : lowerBound entries entry with
      | nil => simp [hbound] at h
      | cons b bs =>
        have hb : entry ≤ b := le_of_mem_lowerBound hsorted (by simp [hbound])
        have hsorted' : (b :: bs).Pairwise (· < ·) := hbound ▸ hsorted.sublist
          (List.dropWhile_sublist _)
        rw [hbound] at h
        rcases List.mem_cons.mp h with rfl | h
        · rfl
        · exact absurd ((List.pairwise_cons.mp hsorted').1 _ h) (not_lt.mpr hb)

/-- `entries_.insert(position, entry)`. -/
def insertEntry (entries : List IndexEntry) (entry : IndexEntry) : List IndexEntry :=
  beforeBound entries entry ++ entry :: lowerBound entries entry

/-- `entries_.erase(position)`. -/
def eraseEntry (entries : List IndexEntry) (entry : IndexEntry) : List IndexEntry :=
  beforeBound entries entry ++ (lowerBound entries entry).tail

theorem mem_insertEntry : a ∈ insertEntry entries entry ↔ a = entry ∨ a ∈ entries := by
  have h := beforeBound_append_lowerBound entries entry
  constructor
  · intro ha
    rw [← h]
    simp only [insertEntry, List.mem_append, List.mem_cons] at ha ⊢
    tauto
  · intro ha
    rw [← h] at ha
    simp only [insertEntry, List.mem_append, List.mem_cons] at ha ⊢
    tauto

theorem sorted_insertEntry (hsorted : Sorted entries) (hnew : entry ∉ entries) :
    Sorted (insertEntry entries entry) := by
  have hbound : ∀ a ∈ lowerBound entries entry, entry < a := by
    intro a ha
    refine lt_of_le_of_ne (le_of_mem_lowerBound hsorted ha) ?_
    rintro rfl
    exact hnew ((List.dropWhile_sublist _).subset ha)
  refine List.pairwise_append.mpr ⟨hsorted.sublist (List.takeWhile_sublist _), ?_, ?_⟩
  · exact List.pairwise_cons.mpr ⟨hbound, hsorted.sublist (List.dropWhile_sublist _)⟩
  · intro a ha b hb
    rcases List.mem_cons.mp hb with rfl | hb
    · exact lt_of_mem_beforeBound ha
    · exact (lt_of_mem_beforeBound ha).trans (hbound b hb)

/-- The entries around one that is among them. -/
theorem lowerBound_of_mem (hsorted : Sorted entries) (hmem : entry ∈ entries) :
    lowerBound entries entry = entry :: (lowerBound entries entry).tail :=
  (List.cons_head?_tail ((head?_lowerBound hsorted).mpr hmem)).symm

theorem sorted_eraseEntry (hsorted : Sorted entries) : Sorted (eraseEntry entries entry) := by
  refine hsorted.sublist ?_
  conv_rhs => rw [← beforeBound_append_lowerBound entries entry]
  exact (List.Sublist.refl _).append (List.tail_sublist _)

theorem mem_eraseEntry (hsorted : Sorted entries) (hmem : entry ∈ entries) :
    a ∈ eraseEntry entries entry ↔ a ∈ entries ∧ a ≠ entry := by
  have hsplit := beforeBound_append_lowerBound entries entry
  rw [lowerBound_of_mem hsorted hmem] at hsplit
  have hmem' : a ∈ entries ↔
      a ∈ beforeBound entries entry ∨ a = entry ∨ a ∈ (lowerBound entries entry).tail := by
    conv_lhs => rw [← hsplit]
    simp
  -- the entry stands once in the list
  have hsorted' := hsorted
  rw [Sorted, ← hsplit] at hsorted'
  have hafter : ∀ b ∈ (lowerBound entries entry).tail, entry < b :=
    (List.pairwise_cons.mp (List.pairwise_append.mp hsorted').2.1).1
  rw [hmem', eraseEntry, List.mem_append]
  constructor
  · rintro (h | h)
    · exact ⟨.inl h, (lt_of_mem_beforeBound h).ne⟩
    · exact ⟨.inr (.inr h), (hafter a h).ne'⟩
  · rintro ⟨h | h | h, hne⟩
    · exact .inl h
    · exact absurd h hne
    · exact .inr h

/-- Two sorted lists of the same entries are one list. -/
theorem eq_of_sorted {l m : List IndexEntry} (hl : Sorted l) (hm : Sorted m)
    (h : ∀ e, e ∈ l ↔ e ∈ m) : l = m :=
  ((List.perm_ext_iff_of_nodup (hl.imp ne_of_lt) (hm.imp ne_of_lt)).mpr h).eq_of_pairwise
    (fun _ _ _ _ hab hba => absurd hba (not_lt.mpr (le_of_lt hab))) hl hm

end Sorted

end ScratchDb
