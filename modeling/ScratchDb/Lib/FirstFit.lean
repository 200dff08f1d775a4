import Mathlib.Data.List.ReduceOption
import ScratchDb.Lib.SlottedStore

/-!
# Filling a store

Records that are inserted one after another into a store without records are
listed in that order exactly if no page takes a record behind one that it has
refused.
-/

namespace SlottedStore

variable {α : Type} {c : Capacity α} {pages after : List (Slots α)} {slots : Slots α} {a : α}
  {records : List α}

def insertAll (c : Capacity α) : List (Slots α) → List α → Option (List (Slots α))
  | pages, [] => some pages
  | pages, a :: records => (insert c pages a).bind fun stored => insertAll c stored.2 records

/-- The records in the order of a scan. -/
def contents (pages : List (Slots α)) : List α := (entries pages).map Prod.snd

/-- A page that refuses a record takes none of those behind it. -/
def KeepsOrder (c : Capacity α) : List (Slots α) → List α → Prop
  | _, [] => True
  | [], a :: records => KeepsOrder c [[some a]] records
  | slots :: pages, a :: records =>
    if c.takes slots a then KeepsOrder c (fill slots (freeSlot slots) a :: pages) records
    else (∀ b ∈ records, c.takes slots b = false) ∧ KeepsOrder c pages (a :: records)
termination_by pages records => (records.length, pages.length)

/-! ## Records as something else -/

section

variable {β : Type}

/-- The capacity for what `f` encodes. -/
def Capacity.comap (c : Capacity β) (f : α → β) : Capacity α where
  takes slots a := c.takes (slots.map (Option.map f)) (f a)
  fits slots i a := c.fits (slots.map (Option.map f)) i (f a)

def encoded (f : α → β) (pages : List (Slots α)) : List (Slots β) :=
  pages.map fun slots => slots.map (Option.map f)

theorem freeSlot_map (f : α → β) (slots : Slots α) :
    freeSlot (slots.map (Option.map f)) = freeSlot slots := by
  rw [freeSlot, freeSlot, List.findIdx_map]
  congr 1
  funext r
  exact Option.isNone_map

theorem fill_map (f : α → β) (slots : Slots α) (i : Nat) (a : α) :
    fill (slots.map (Option.map f)) i (f a) = (fill slots i a).map (Option.map f) := by
  rw [fill, fill, List.length_map]
  split
  · rw [List.map_set]
    rfl
  · rw [List.map_append]
    rfl

/-- Inserting encoded records is inserting the records. -/
theorem insert_encoded (c : Capacity β) (f : α → β) (pages : List (Slots α)) (a : α) :
    insert c (encoded f pages) (f a) =
      (insert (c.comap f) pages a).map fun stored => (stored.1, encoded f stored.2) := by
  have hfind : (encoded f pages).findIdx? (c.takes · (f a)) =
      pages.findIdx? ((c.comap f).takes · a) := by
    rw [encoded, List.findIdx?_map]
    rfl
  rw [insert, insert, hfind]
  cases hk : pages.findIdx? ((c.comap f).takes · a) with
  | some k =>
    have hlt : k < pages.length := (List.findIdx?_eq_some_iff_findIdx_eq.mp hk).1
    have hslots : slotsAt (encoded f pages) k = (slotsAt pages k).map (Option.map f) := by
      rw [slotsAt_of_lt hlt, slotsAt_of_lt (by rwa [encoded, List.length_map])]
      exact List.getElem_map _
    simp only [insertAt, hslots, freeSlot_map, fill_map, Option.map_some]
    rw [encoded, encoded, List.map_set]
  | none =>
    have htakes : c.takes [] (f a) = (c.comap f).takes [] a := rfl
    dsimp only
    rw [htakes]
    split
    · rw [Option.map_some, encoded, encoded, List.length_map, List.map_append]
      rfl
    · rfl

end

/-! ## Contents -/

theorem contents_eq (pages : List (Slots α)) : contents pages = pages.flatMap List.reduceOption := by
  have hpage : ∀ (slots : Slots α) (k i : Nat),
      (entriesOf k i slots).map Prod.snd = slots.reduceOption := by
    intro slots
    induction slots with
    | nil => intro k i; rfl
    | cons r slots ih =>
      intro k i
      cases r with
      | none => exact ih k (i + 1)
      | some b => exact congrArg (b :: ·) (ih k (i + 1))
  have hfrom : ∀ k, (entriesFrom k pages).map Prod.snd = pages.flatMap List.reduceOption := by
    induction pages with
    | nil => intro k; rfl
    | cons slots pages ih =>
      intro k
      rw [entriesFrom, List.map_append, hpage, ih, List.flatMap_cons]
  exact hfrom 0

theorem contents_cons (slots : Slots α) (pages : List (Slots α)) :
    contents (slots :: pages) = slots.reduceOption ++ contents pages := by
  rw [contents_eq, contents_eq, List.flatMap_cons]

/-! ## One page -/

/-- The used slots stand in front of the free ones. -/
def Compact (slots : Slots α) : Prop :=
  ∃ (records : List α) (n : Nat), slots = records.map some ++ List.replicate n none

theorem compact_of_free {slots : Slots α} (h : slots.reduceOption = []) : Compact slots := by
  refine ⟨[], slots.length, ?_⟩
  induction slots with
  | nil => rfl
  | cons r slots ih =>
    cases r with
    | none => exact congrArg (none :: ·) (ih h)
    | some b => cases h

theorem Compact.fill (h : Compact slots) (a : α) :
    Compact (fill slots (freeSlot slots) a) ∧
      (SlottedStore.fill slots (freeSlot slots) a).reduceOption = slots.reduceOption ++ [a] := by
  obtain ⟨records, n, rfl⟩ := h
  have hfree : freeSlot (records.map some ++ List.replicate n none) = records.length := by
    refine freeSlot_eq ?_ ?_ ?_
    · rw [List.length_append, List.length_map]
      exact Nat.le_add_right _ _
    · rw [List.getElem?_append_right (by rw [List.length_map]), List.length_map, Nat.sub_self]
      cases n <;> rfl
    · intro j hj
      rw [List.getElem?_append_left (by rwa [List.length_map]), List.getElem?_map,
        List.getElem?_eq_getElem hj]
      exact Option.some_ne_none _
  have hfill : SlottedStore.fill (records.map some ++ List.replicate n none) records.length a =
      (records ++ [a]).map some ++ List.replicate (n - 1) none := by
    rw [SlottedStore.fill, List.map_append, List.append_assoc]
    cases n with
    | zero =>
      rw [if_neg (by simp)]
      simp
    | succ n =>
      rw [if_pos (by simp), List.set_append_right _ _ (by simp), List.length_map, Nat.sub_self,
        List.append_assoc]
      rfl
  have hreduce : ∀ (l : List α) (m : Nat),
      (l.map some ++ List.replicate m none).reduceOption = l := by
    intro l m
    have hsome : (l.map some).reduceOption = l := by
      rw [List.reduceOption, List.filterMap_map]
      exact List.filterMap_some
    rw [List.reduceOption_append, hsome, List.reduceOption_replicate_none, List.append_nil]
  rw [hfree, hfill, hreduce, hreduce]
  exact ⟨⟨records ++ [a], n - 1, rfl⟩, rfl⟩

/-- What a page takes of some records, and the records that it refuses. -/
def fillPage (c : Capacity α) : Slots α → List α → Slots α × List α
  | slots, [] => (slots, [])
  | slots, a :: records =>
    if c.takes slots a then fillPage c (fill slots (freeSlot slots) a) records
    else ((fillPage c slots records).1, a :: (fillPage c slots records).2)

theorem insert_cons (c : Capacity α) (slots : Slots α) (pages : List (Slots α)) (a : α) :
    insert c (slots :: pages) a =
      if c.takes slots a then some ((0, freeSlot slots), fill slots (freeSlot slots) a :: pages)
      else (insert c pages a).map fun stored =>
        ((stored.1.1 + 1, stored.1.2), slots :: stored.2) := by
  rw [insert, List.findIdx?_cons]
  split
  · rename_i k hk
    split at hk
    · rename_i htakes
      rw [if_pos htakes, ← Option.some.inj hk]
      rfl
    · rename_i htakes
      obtain ⟨j, hj, rfl⟩ := Option.map_eq_some_iff.mp hk
      rw [if_neg htakes, insert, hj]
      rfl
  · rename_i hk
    split at hk
    · cases hk
    · rename_i htakes
      rw [if_neg htakes, insert, Option.map_eq_none_iff.mp hk]
      dsimp only
      split <;> rfl

/-- The first page takes what it can, the other pages get the rest. -/
theorem insertAll_cons (slots : Slots α) (pages : List (Slots α)) (records : List α) :
    insertAll c (slots :: pages) records =
      (insertAll c pages (fillPage c slots records).2).map ((fillPage c slots records).1 :: ·) := by
  induction records generalizing slots pages with
  | nil => rfl
  | cons a records ih =>
    rw [insertAll, insert_cons, fillPage]
    by_cases htakes : c.takes slots a = true
    · rw [if_pos htakes, if_pos htakes, Option.bind_some, ih]
    · rw [if_neg htakes, if_neg htakes, insertAll]
      cases insert c pages a with
      | none => rfl
      | some stored => exact ih slots stored.2

theorem insertAll_nil (a : α) (records : List α) (h : insertAll c [] (a :: records) = some after) :
    insertAll c [[some a]] records = some after := by
  rw [insertAll, insert, List.findIdx?_nil] at h
  dsimp only at h
  split at h
  · exact h
  · cases h

theorem fillPage_of_refused (h : ∀ b ∈ records, c.takes slots b = false) :
    fillPage c slots records = (slots, records) := by
  induction records with
  | nil => rfl
  | cons a records ih =>
    rw [fillPage, h a List.mem_cons_self, if_neg Bool.false_ne_true,
      ih fun b hb => h b (List.mem_cons_of_mem _ hb)]

theorem prefix_fillPage (h : Compact slots) (records : List α) :
    ∃ taken, (fillPage c slots records).1.reduceOption = slots.reduceOption ++ taken := by
  induction records generalizing slots with
  | nil => exact ⟨[], (List.append_nil _).symm⟩
  | cons a records ih =>
    rw [fillPage]
    split
    · obtain ⟨taken, htaken⟩ := ih (h.fill a).1
      refine ⟨a :: taken, ?_⟩
      rw [htaken, (h.fill a).2, List.append_assoc]
      rfl
    · exact ih h

/-- The first record that a page takes. -/
theorem fillPage_of_taken (h : Compact slots) (htaken : ∃ b ∈ records, c.takes slots b = true) :
    ∃ b taken, c.takes slots b = true ∧
      (fillPage c slots records).1.reduceOption = slots.reduceOption ++ b :: taken := by
  induction records with
  | nil =>
    obtain ⟨b, hb, -⟩ := htaken
    exact absurd hb List.not_mem_nil
  | cons a records ih =>
    rw [fillPage]
    by_cases htakes : c.takes slots a = true
    · obtain ⟨taken, hfront⟩ := prefix_fillPage (c := c) (h.fill a).1 records
      refine ⟨a, taken, htakes, ?_⟩
      rw [if_pos htakes, hfront, (h.fill a).2, List.append_assoc]
      rfl
    · rw [if_neg htakes]
      apply ih
      obtain ⟨b, hb, hbtakes⟩ := htaken
      rcases List.mem_cons.mp hb with rfl | hb
      · exact absurd hbtakes htakes
      · exact ⟨b, hb, hbtakes⟩

/-! ## The whole store -/

theorem reduceOption_fill (slots : Slots α) (a : α) :
    (fill slots (freeSlot slots) a).reduceOption.Perm (a :: slots.reduceOption) := by
  induction slots with
  | nil => exact .refl _
  | cons r slots ih =>
    cases r with
    | none => exact .refl _
    | some b =>
      have hfree : freeSlot (some b :: slots) = freeSlot slots + 1 := by
        rw [freeSlot, List.findIdx_cons]
        rfl
      have hfill : fill (some b :: slots) (freeSlot slots + 1) a =
          some b :: fill slots (freeSlot slots) a := by
        rw [fill, fill, List.length_cons]
        split <;> split
        · rfl
        · omega
        · omega
        · rfl
      rw [hfree, hfill]
      exact (ih.cons b).trans (List.Perm.swap a b _)

theorem contents_insert {stored : Place × List (Slots α)} (h : insert c pages a = some stored) :
    (contents stored.2).Perm (a :: contents pages) := by
  induction pages generalizing stored with
  | nil =>
    rw [insert, List.findIdx?_nil] at h
    dsimp only at h
    split at h
    · rw [← Option.some.inj h]
      exact .refl _
    · cases h
  | cons slots pages ih =>
    rw [insert_cons] at h
    split at h
    · rw [← Option.some.inj h, contents_cons, contents_cons]
      exact (reduceOption_fill slots a).append_right _
    · obtain ⟨rest, hrest, rfl⟩ := Option.map_eq_some_iff.mp h
      rw [contents_cons, contents_cons]
      exact ((ih hrest).append_left _).trans List.perm_middle

/-- The records are in the store in some order. -/
theorem contents_insertAll (h : insertAll c pages records = some after) :
    (contents after).Perm (records ++ contents pages) := by
  induction records generalizing pages with
  | nil =>
    rw [← Option.some.inj h]
    exact .refl _
  | cons a records ih =>
    rw [insertAll] at h
    obtain ⟨stored, hstored, hrest⟩ := Option.bind_eq_some_iff.mp h
    refine (ih hrest).trans ?_
    refine ((contents_insert hstored).append_left records).trans ?_
    exact List.perm_middle

/-- A store whose first page may hold records already. -/
theorem contents_insertAll_iff (h : insertAll c pages records = some after)
    (hcompact : ∀ slots ∈ pages.head?, Compact slots)
    (hfree : ∀ slots ∈ pages.tail, slots.reduceOption = []) :
    contents after = contents pages ++ records ↔ KeepsOrder c pages records := by
  fun_induction KeepsOrder c pages records generalizing after with
  | case1 pages =>
    rw [← Option.some.inj h, List.append_nil]
    exact iff_of_true rfl trivial
  | case2 a records ih =>
    refine Iff.trans ?_ (ih (insertAll_nil a records h) ?_ ?_)
    · rfl
    · intro slots hslots
      rw [← Option.some.inj hslots]
      exact ⟨[a], 0, rfl⟩
    · intro slots hslots
      exact absurd hslots List.not_mem_nil
  | case3 slots pages a records htakes ih =>
    have hfilled := (hcompact slots rfl).fill a
    have hpages : contents pages = [] := by
      rw [contents_eq, List.flatMap_eq_nil_iff]
      exact hfree
    rw [insertAll, insert_cons, if_pos htakes, Option.bind_some] at h
    refine Iff.trans ?_ (ih h ?_ hfree)
    · rw [contents_cons, contents_cons, hfilled.2, hpages, List.append_nil, List.append_nil,
        List.append_assoc]
      rfl
    · intro slots' hslots'
      rw [← Option.some.inj hslots']
      exact hfilled.1
  | case4 slots pages a records htakes ih =>
    have hcompacts := hcompact slots rfl
    have hpages : contents pages = [] := by
      rw [contents_eq, List.flatMap_eq_nil_iff]
      exact hfree
    rw [insertAll_cons, fillPage, if_neg htakes] at h
    obtain ⟨rest, hrest, rfl⟩ := Option.map_eq_some_iff.mp h
    rw [contents_cons, contents_cons, hpages, List.append_nil]
    by_cases hrefused : ∀ b ∈ records, c.takes slots b = false
    · rw [fillPage_of_refused hrefused] at hrest ⊢
      have hih := ih hrest ?_ ?_
      · rw [hpages, List.nil_append] at hih
        rw [List.append_cancel_left_eq, hih]
        exact (and_iff_right hrefused).symm
      · intro slots' hslots'
        exact compact_of_free (hfree slots' (List.mem_of_head? hslots'))
      · intro slots' hslots'
        exact hfree slots' (List.mem_of_mem_tail hslots')
    · -- the page takes another record where it has refused `a`
      have htaken : ∃ b ∈ records, c.takes slots b = true := by
        simpa only [not_forall, Bool.not_eq_false, exists_prop] using hrefused
      obtain ⟨b, taken, hb, hfilled⟩ := fillPage_of_taken hcompacts htaken
      refine iff_of_false (fun heq => ?_) fun hall => hrefused hall.1
      rw [hfilled, List.append_assoc, List.append_cancel_left_eq, List.cons_append] at heq
      exact htakes (List.head_eq_of_cons_eq heq ▸ hb)

/-- Pages that do not look at the record. -/
theorem keepsOrder_of_uniform (h : ∀ slots a b, c.takes slots a = c.takes slots b)
    (pages : List (Slots α)) (records : List α) : KeepsOrder c pages records := by
  fun_induction KeepsOrder c pages records with
  | case1 pages => trivial
  | case2 a records ih => exact ih
  | case3 slots pages a records htakes ih => exact ih
  | case4 slots pages a records htakes ih =>
    refine ⟨fun b _ => ?_, ih⟩
    rw [h slots b a]
    exact Bool.not_eq_true _ ▸ htakes

end SlottedStore
