import Mathlib.Data.List.Pairwise
import Mathlib.Data.Prod.Lex
import Mathlib.Logic.Function.Basic

/-!
# Slotted stores

A store is a list of pages, a page a list of slots that are free or hold a
record. A record goes to the lowest free slot of the first page that takes it,
or to a new page, and it keeps its place as long as its page has room for it.
-/

namespace SlottedStore

variable {α : Type}

abbrev Slots (α : Type) := List (Option α)

/-- Page and slot of a record. -/
abbrev Place := Nat × Nat

/-- Which pages take one more record, and in which the record of a slot can be replaced. -/
structure Capacity (α : Type) where
  takes : Slots α → α → Bool
  fits : Slots α → Nat → α → Bool

/-- The lowest free slot, or the one behind the last. -/
def freeSlot (slots : Slots α) : Nat := slots.findIdx (·.isNone)

def fill (slots : Slots α) (i : Nat) (a : α) : Slots α :=
  if i < slots.length then slots.set i (some a) else slots ++ [some a]

def slotsAt (pages : List (Slots α)) (k : Nat) : Slots α := pages[k]?.getD []

def lookup (pages : List (Slots α)) (p : Place) : Option α := (slotsAt pages p.1)[p.2]?.join

/-- A record more in page `k`. -/
def insertAt (pages : List (Slots α)) (k : Nat) (a : α) : Place × List (Slots α) :=
  ((k, freeSlot (slotsAt pages k)),
    pages.set k (fill (slotsAt pages k) (freeSlot (slotsAt pages k)) a))

def insert (c : Capacity α) (pages : List (Slots α)) (a : α) : Option (Place × List (Slots α)) :=
  match pages.findIdx? (c.takes · a) with
  | some k => some (insertAt pages k a)
  | none => if c.takes [] a then some ((pages.length, 0), pages ++ [[some a]]) else none

/-- Another content of a slot that is there. -/
def put (pages : List (Slots α)) (p : Place) (r : Option α) : List (Slots α) :=
  pages.set p.1 ((slotsAt pages p.1).set p.2 r)

def remove (pages : List (Slots α)) (p : Place) : Option (List (Slots α)) :=
  if (lookup pages p).isNone then none else some (put pages p none)

def update (c : Capacity α) (pages : List (Slots α)) (p : Place) (a : α) :
    Option (Place × List (Slots α)) :=
  if (lookup pages p).isNone then none
  else if c.fits (slotsAt pages p.1) p.2 a then some (p, put pages p (some a))
  else (insert c pages a).map fun moved => (moved.1, put moved.2 p none)

/-- The records of page `k` from slot `i` on. -/
def entriesOf (k : Nat) : Nat → Slots α → List (Place × α)
  | _, [] => []
  | i, none :: slots => entriesOf k (i + 1) slots
  | i, some a :: slots => ((k, i), a) :: entriesOf k (i + 1) slots

/-- The records of the pages from `k` on. -/
def entriesFrom : Nat → List (Slots α) → List (Place × α)
  | _, [] => []
  | k, slots :: pages => entriesOf k 0 slots ++ entriesFrom (k + 1) pages

def entries (pages : List (Slots α)) : List (Place × α) := entriesFrom 0 pages

variable {c : Capacity α} {pages after : List (Slots α)} {slots : Slots α} {p q : Place} {a : α}

/-! ## Slots -/

theorem freeSlot_le (slots : Slots α) : freeSlot slots ≤ slots.length := List.findIdx_le_length

theorem join_freeSlot (slots : Slots α) : slots[freeSlot slots]?.join = none := by
  by_cases hlt : freeSlot slots < slots.length
  · have hnone : (slots[freeSlot slots]).isNone = true := List.findIdx_getElem
    rw [List.getElem?_eq_getElem hlt, Option.isNone_iff_eq_none.mp hnone]
    rfl
  · rw [List.getElem?_eq_none (Nat.not_lt.mp hlt)]
    rfl

theorem join_set (slots : Slots α) (i j : Nat) (r : Option α) (hi : i < slots.length) :
    (slots.set i r)[j]?.join = if j = i then r else slots[j]?.join := by
  split
  · rename_i hji
    rw [hji, List.getElem?_set_self hi]
    rfl
  · rename_i hji
    rw [List.getElem?_set_ne (Ne.symm hji)]

theorem join_fill {i : Nat} (hi : i ≤ slots.length) (a : α) (j : Nat) :
    (fill slots i a)[j]?.join = if j = i then some a else slots[j]?.join := by
  rw [fill]
  split
  · rename_i hlt
    exact join_set slots i j (some a) hlt
  · rename_i hlen
    have heq : i = slots.length := Nat.le_antisymm hi (Nat.not_lt.mp hlen)
    subst heq
    split
    · rename_i hj
      rw [hj, List.getElem?_append_right (Nat.le_refl _), Nat.sub_self]
      rfl
    · rename_i hj
      rcases Nat.lt_or_gt_of_ne hj with hlt | hgt
      · rw [List.getElem?_append_left hlt]
      · have hlen : (slots ++ [some a]).length ≤ j := by
          rw [List.length_append, List.length_singleton]
          exact hgt
        rw [List.getElem?_eq_none hlen, List.getElem?_eq_none (Nat.le_of_lt hgt)]

theorem length_fill {i : Nat} (hi : i ≤ slots.length) (a : α) :
    (fill slots i a).length = max slots.length (i + 1) := by
  rw [fill]
  split
  · rename_i hlt
    rw [List.length_set]
    omega
  · rw [List.length_append, List.length_singleton]
    omega

/-- Slots are the same if there are as many, with the same records. -/
theorem ext_join {slots' : Slots α} (hlen : slots.length = slots'.length)
    (hjoin : ∀ j : Nat, slots[j]?.join = slots'[j]?.join) : slots = slots' := by
  refine List.ext_getElem hlen fun j h h' => ?_
  have hj := hjoin j
  rwa [List.getElem?_eq_getElem h, List.getElem?_eq_getElem h'] at hj

theorem freeSlot_eq {i : Nat} (hi : i ≤ slots.length) (hfree : slots[i]?.join = none)
    (hbefore : ∀ j < i, slots[j]?.join ≠ none) : freeSlot slots = i := by
  have hnot : ¬ freeSlot slots < i := fun hlt => hbefore _ hlt (join_freeSlot slots)
  refine Nat.le_antisymm (Nat.not_lt.mp fun hlt => ?_) (Nat.not_lt.mp hnot)
  have hlen : i < slots.length := Nat.lt_of_lt_of_le hlt (freeSlot_le slots)
  have hsome := List.not_of_lt_findIdx hlt
  rw [List.getElem?_eq_getElem hlen] at hfree
  have hnone : slots[i] = none := hfree
  rw [hnone] at hsome
  cases hsome

/-! ## Records after an operation -/

theorem slotsAt_of_lt {k : Nat} (hk : k < pages.length) : slotsAt pages k = pages[k] := by
  rw [slotsAt, List.getElem?_eq_getElem hk, Option.getD_some]

theorem slotsAt_set {k : Nat} (hk : k < pages.length) (slots : Slots α) (j : Nat) :
    slotsAt (pages.set k slots) j = if j = k then slots else slotsAt pages j := by
  rw [slotsAt, slotsAt]
  split
  · rename_i hjk
    rw [hjk, List.getElem?_set_self hk, Option.getD_some]
  · rename_i hjk
    rw [List.getElem?_set_ne (Ne.symm hjk)]

theorem slotsAt_append (pages : List (Slots α)) (slots : Slots α) (j : Nat) :
    slotsAt (pages ++ [slots]) j = if j = pages.length then slots else slotsAt pages j := by
  rw [slotsAt, slotsAt]
  split
  · rename_i hj
    rw [hj, List.getElem?_append_right (Nat.le_refl _), Nat.sub_self]
    rfl
  · rename_i hj
    rcases Nat.lt_or_gt_of_ne hj with hlt | hgt
    · rw [List.getElem?_append_left hlt]
    · have hlen : (pages ++ [slots]).length ≤ j := by
        rw [List.length_append, List.length_singleton]
        exact hgt
      rw [List.getElem?_eq_none hlen, List.getElem?_eq_none (Nat.le_of_lt hgt)]

/-- A store whose page `k` has another content in slot `i`, and that is otherwise as before. -/
theorem lookup_eq_update {k i : Nat} {r : Option α}
    (hother : ∀ j, j ≠ k → slotsAt after j = slotsAt pages j)
    (hslots : ∀ j, (slotsAt after k)[j]?.join = if j = i then r else (slotsAt pages k)[j]?.join) :
    lookup after = Function.update (lookup pages) (k, i) r := by
  funext p
  rw [Function.update_apply, lookup, lookup]
  by_cases hk : p.1 = k
  · rw [hk, hslots]
    by_cases hi : p.2 = i
    · rw [if_pos hi, if_pos (Prod.ext hk hi)]
    · rw [if_neg hi, if_neg fun heq => hi (congrArg Prod.snd heq)]
  · rw [hother _ hk, if_neg fun heq => hk (congrArg Prod.fst heq)]

theorem lookup_freeSlot (pages : List (Slots α)) (k : Nat) :
    lookup pages (k, freeSlot (slotsAt pages k)) = none := join_freeSlot _

theorem lookup_insertAt {k : Nat} (hk : k < pages.length) (a : α) :
    lookup (insertAt pages k a).2 =
      Function.update (lookup pages) (insertAt pages k a).1 (some a) := by
  refine lookup_eq_update (fun j hj => ?_) fun j => ?_
  · rw [insertAt, slotsAt_set hk, if_neg hj]
  · rw [insertAt, slotsAt_set hk, if_pos rfl, join_fill (freeSlot_le _)]

/-- A new record is put where there was none. -/
theorem lookup_insert (h : insert c pages a = some (p, after)) :
    lookup pages p = none ∧ lookup after = Function.update (lookup pages) p (some a) := by
  rw [insert] at h
  cases hfind : pages.findIdx? (c.takes · a) with
  | some k =>
    rw [hfind] at h
    have hk : k < pages.length := (List.findIdx?_eq_some_iff_findIdx_eq.mp hfind).1
    have hp : insertAt pages k a = (p, after) := Option.some.inj h
    have hat := lookup_insertAt hk a
    rw [hp] at hat
    have hplace : (insertAt pages k a).1 = p := congrArg Prod.fst hp
    refine ⟨?_, hat⟩
    rw [← hplace]
    exact lookup_freeSlot pages k
  | none =>
    rw [hfind] at h
    dsimp only at h
    split at h
    · cases h
      have hbehind : slotsAt pages pages.length = [] := by
        rw [slotsAt, List.getElem?_eq_none (Nat.le_refl _), Option.getD_none]
      refine ⟨by rw [lookup, hbehind]; rfl, lookup_eq_update (fun j hj => ?_) fun j => ?_⟩
      · rw [slotsAt_append, if_neg hj]
      · rw [slotsAt_append, if_pos rfl, hbehind]
        cases j with
        | zero => rfl
        | succ j => rfl
    · cases h

theorem lt_of_lookup (h : lookup pages p ≠ none) :
    p.1 < pages.length ∧ p.2 < (slotsAt pages p.1).length := by
  have hslot : p.2 < (slotsAt pages p.1).length := by
    by_contra hge
    exact h (by rw [lookup, List.getElem?_eq_none (Nat.not_lt.mp hge)]; rfl)
  refine ⟨?_, hslot⟩
  by_contra hge
  rw [slotsAt, List.getElem?_eq_none (Nat.not_lt.mp hge), Option.getD_none] at hslot
  exact Nat.not_lt_zero _ hslot

theorem lookup_put (h : lookup pages p ≠ none) (r : Option α) :
    lookup (put pages p r) = Function.update (lookup pages) p r := by
  obtain ⟨hpage, hslot⟩ := lt_of_lookup h
  refine lookup_eq_update (fun j hj => ?_) fun j => ?_
  · rw [put, slotsAt_set hpage, if_neg hj]
  · rw [put, slotsAt_set hpage, if_pos rfl, join_set _ _ _ _ hslot]

theorem lookup_remove (h : remove pages p = some after) :
    lookup pages p ≠ none ∧ lookup after = Function.update (lookup pages) p none := by
  rw [remove] at h
  split at h
  · cases h
  · rename_i hlive
    rw [Option.isNone_iff_eq_none] at hlive
    cases h
    exact ⟨hlive, lookup_put hlive none⟩

/-- A changed record stays in its place, or moves to one that was free. -/
theorem lookup_update (h : update c pages p a = some (q, after)) :
    lookup pages p ≠ none ∧
      (q = p ∧ lookup after = Function.update (lookup pages) p (some a) ∨
        lookup pages q = none ∧
          lookup after = Function.update (Function.update (lookup pages) q (some a)) p none) := by
  rw [update] at h
  split at h
  · cases h
  · rename_i hlive
    rw [Option.isNone_iff_eq_none] at hlive
    refine ⟨hlive, ?_⟩
    split at h
    · cases h
      exact .inl ⟨rfl, lookup_put hlive (some a)⟩
    · obtain ⟨moved, hmoved, heq⟩ := Option.map_eq_some_iff.mp h
      obtain ⟨hfree, hlookup⟩ := lookup_insert hmoved
      cases heq
      have hne : p ≠ moved.1 := fun heq => hlive (heq ▸ hfree)
      have hlive' : lookup moved.2 p ≠ none := by
        rw [hlookup, Function.update_of_ne hne]
        exact hlive
      exact .inr ⟨hfree, by rw [lookup_put hlive', hlookup]⟩

theorem remove_eq_none (h : remove pages p = none) : lookup pages p = none := by
  rw [remove] at h
  split at h
  · rename_i hnone
    exact Option.isNone_iff_eq_none.mp hnone
  · cases h

theorem update_eq_none (h : update c pages p a = none) :
    lookup pages p = none ∨ insert c pages a = none := by
  rw [update] at h
  split at h
  · rename_i hnone
    exact .inl (Option.isNone_iff_eq_none.mp hnone)
  · split at h
    · cases h
    · exact .inr (Option.map_eq_none_iff.mp h)

/-! ## All records -/

theorem mem_entriesOf {k i : Nat} {slots : Slots α} :
    (p, a) ∈ entriesOf k i slots ↔ p.1 = k ∧ i ≤ p.2 ∧ slots[p.2 - i]?.join = some a := by
  induction slots generalizing i with
  | nil => simp [entriesOf]
  | cons r slots ih =>
    have hrest : (p, a) ∈ entriesOf k (i + 1) slots ↔
        p.1 = k ∧ i < p.2 ∧ (r :: slots)[p.2 - i]?.join = some a := by
      rw [ih]
      refine and_congr_right fun _ => and_congr_right fun hlt => ?_
      have hsub : p.2 - i = p.2 - (i + 1) + 1 := by omega
      rw [hsub, List.getElem?_cons_succ]
    have hsplit : i ≤ p.2 ↔ p.2 = i ∨ i < p.2 := by omega
    cases r with
    | none =>
      rw [entriesOf, hrest]
      refine and_congr_right fun _ => ⟨fun h => ⟨Nat.le_of_lt h.1, h.2⟩, fun h => ⟨?_, h.2⟩⟩
      rcases hsplit.mp h.1 with heq | hlt
      · rw [heq, Nat.sub_self] at h
        cases h.2
      · exact hlt
    | some b =>
      rw [entriesOf, List.mem_cons, hrest]
      constructor
      · rintro (heq | ⟨hk, hlt, hslot⟩)
        · cases heq
          exact ⟨rfl, Nat.le_refl _, by rw [Nat.sub_self]; rfl⟩
        · exact ⟨hk, Nat.le_of_lt hlt, hslot⟩
      · rintro ⟨hk, hle, hslot⟩
        rcases hsplit.mp hle with heq | hlt
        · rw [heq, Nat.sub_self] at hslot
          cases hslot
          exact .inl (by rw [← hk, ← heq])
        · exact .inr ⟨hk, hlt, hslot⟩

theorem mem_entriesFrom {k : Nat} {pages : List (Slots α)} :
    (p, a) ∈ entriesFrom k pages ↔ k ≤ p.1 ∧ (slotsAt pages (p.1 - k))[p.2]?.join = some a := by
  induction pages generalizing k with
  | nil => simp [entriesFrom, slotsAt]
  | cons slots pages ih =>
    rw [entriesFrom, List.mem_append, mem_entriesOf, ih]
    constructor
    · rintro (⟨hk, -, hslot⟩ | ⟨hlt, hslot⟩)
      · rw [hk, Nat.sub_self]
        exact ⟨Nat.le_refl _, hslot⟩
      · have hsub : p.1 - k = p.1 - (k + 1) + 1 := by omega
        rw [hsub]
        exact ⟨by omega, hslot⟩
    · rintro ⟨hle, hslot⟩
      by_cases hk : p.1 = k
      · rw [hk, Nat.sub_self] at hslot
        exact .inl ⟨hk, Nat.zero_le _, hslot⟩
      · have hsub : p.1 - k = p.1 - (k + 1) + 1 := by omega
        rw [hsub] at hslot
        exact .inr ⟨by omega, hslot⟩

/-- Every record is listed, with its place. -/
theorem mem_entries : (p, a) ∈ entries pages ↔ lookup pages p = some a := by
  rw [entries, mem_entriesFrom, lookup, Nat.sub_zero]
  exact and_iff_right (Nat.zero_le _)

/-- Page first, then slot. -/
def Before (p q : Place) : Prop := Prod.Lex (· < ·) (· < ·) p q

theorem pairwise_entriesOf (k i : Nat) (slots : Slots α) :
    (entriesOf k i slots).Pairwise fun x y => Before x.1 y.1 := by
  induction slots generalizing i with
  | nil => exact .nil
  | cons r slots ih =>
    cases r with
    | none => exact ih (i + 1)
    | some b =>
      refine .cons (fun y hy => ?_) (ih (i + 1))
      obtain ⟨hk, hlt, -⟩ := mem_entriesOf.mp (show (y.1, y.2) ∈ _ from hy)
      exact Prod.lex_iff.mpr (.inr ⟨hk.symm, hlt⟩)

/-- The places come in order, each once. -/
theorem pairwise_entries (pages : List (Slots α)) :
    (entries pages).Pairwise fun x y => Before x.1 y.1 := by
  have hfrom : ∀ k, (entriesFrom k pages).Pairwise fun x y => Before x.1 y.1 := by
    induction pages with
    | nil => exact fun _ => .nil
    | cons slots pages ih =>
      intro k
      refine List.pairwise_append.mpr ⟨pairwise_entriesOf k 0 slots, ih (k + 1), fun x hx y hy => ?_⟩
      obtain ⟨hxk, -⟩ := mem_entriesOf.mp (show (x.1, x.2) ∈ _ from hx)
      obtain ⟨hyk, -⟩ := mem_entriesFrom.mp (show (y.1, y.2) ∈ _ from hy)
      exact Prod.lex_iff.mpr (.inl (by omega))
  exact hfrom 0

end SlottedStore
