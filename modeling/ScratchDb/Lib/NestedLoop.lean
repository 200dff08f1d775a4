import Mathlib.Algebra.BigOperators.Group.List.Basic
import Mathlib.Data.List.Perm.Subperm
import Mathlib.Data.List.ProdSigma
import Mathlib.Tactic.Ring

/-!
# Nested loops over candidates

The rows of a nested loop that tries, for each outer element, some of the inner
ones. With `missing`, an outer element without a match has a row of its own.
-/

namespace NestedLoop

variable {L R O T : Type*}

section Loop

variable (matched : L → R → Bool) (combine : L → R → O) (missing : L → Option O)

/-- The rows of one outer element. -/
def rowsFor (candidates : List R) (l : L) : List O :=
  if (candidates.filter (matched l)).isEmpty then (missing l).toList
  else (candidates.filter (matched l)).map (combine l)

def loop (candidates : L → List R) (ls : List L) : List O :=
  ls.flatMap fun l => rowsFor matched combine missing (candidates l) l

theorem map_rowsFor (show' : O → T) (candidates : List R) (l : L) :
    (rowsFor matched combine missing candidates l).map show' =
      rowsFor matched (fun l r => show' (combine l r)) (fun l => (missing l).map show') candidates l := by
  unfold rowsFor
  split
  · cases hmissing : missing l with
    | none =>
      show [] = ((missing l).map show').toList
      rw [hmissing]
      rfl
    | some o =>
      show [show' o] = ((missing l).map show').toList
      rw [hmissing]
      rfl
  · rw [List.map_map]
    rfl

theorem map_loop (show' : O → T) (candidates : L → List R) (ls : List L) :
    (loop matched combine missing candidates ls).map show' =
      loop matched (fun l r => show' (combine l r)) (fun l => (missing l).map show') candidates
        ls := by
  rw [loop, List.map_flatMap]
  exact congrArg (ls.flatMap ·) (funext fun l => map_rowsFor matched combine missing show' _ l)

end Loop

/-! ## Candidates -/

/-- Sums of numbers that are pairwise in order, and equal only if the numbers are. -/
theorem sum_le_and_eq {f g : L → Nat} {ls : List L} (hle : ∀ l ∈ ls, f l ≤ g l) :
    (ls.map f).sum ≤ (ls.map g).sum ∧
      ((ls.map f).sum = (ls.map g).sum → ∀ l ∈ ls, f l = g l) := by
  induction ls with
  | nil => exact ⟨Nat.le_refl _, fun _ i hi => absurd hi List.not_mem_nil⟩
  | cons l ls ih =>
    have hl := hle l List.mem_cons_self
    obtain ⟨hrest, heq⟩ := ih fun i hi => hle i (List.mem_cons_of_mem l hi)
    rw [List.map_cons, List.map_cons, List.sum_cons, List.sum_cons]
    refine ⟨by omega, fun hsum i hi => ?_⟩
    rcases List.mem_cons.mp hi with rfl | hi
    · omega
    · exact heq (by omega) i hi

section Candidates

variable {matched : L → R → Bool} {combine : L → R → O} {missing : L → Option O}
  {candidates right : List R} {l : L}

/-- Every match is a candidate. -/
def Offered (matched : L → R → Bool) (candidates right : List R) (l : L) : Prop :=
  ∀ r ∈ right, matched l r = true → r ∈ candidates

/-- The only match is no candidate. -/
def Overlooked (matched : L → R → Bool) (candidates right : List R) (l : L) (r : R) : Prop :=
  (∀ r ∈ candidates, matched l r = false) ∧ right.filter (matched l) = [r]

/-- What the candidates of `l` leave out changes none of its rows: the only match gives the row
of an element without one. -/
def Covers (matched : L → R → Bool) (combine : L → R → O) (missing : L → Option O)
    (candidates right : List R) (l : L) : Prop :=
  Offered matched candidates right l ∨
    ∃ r, Overlooked matched candidates right l r ∧ missing l = some (combine l r)

theorem filter_perm (hsub : candidates.Subperm right) (hright : right.Nodup)
    (h : Offered matched candidates right l) :
    (candidates.filter (matched l)).Perm (right.filter (matched l)) := by
  refine (hsub.filter (matched l)).antisymm ?_
  refine List.Nodup.subperm (hright.filter (matched l)) fun r hr => ?_
  rw [List.mem_filter] at hr ⊢
  exact ⟨h r hr.1 hr.2, hr.2⟩

theorem rowsFor_perm (hsub : candidates.Subperm right) (hright : right.Nodup)
    (h : Offered matched candidates right l) :
    (rowsFor matched combine missing candidates l).Perm
      (rowsFor matched combine missing right l) := by
  have hperm := filter_perm hsub hright h
  unfold rowsFor
  rw [hperm.isEmpty_eq]
  split
  · exact .refl _
  · exact hperm.map _

theorem rowsFor_overlooked {r : R} (h : Overlooked matched candidates right l r) :
    rowsFor matched combine missing candidates l = (missing l).toList ∧
      rowsFor matched combine missing right l = [combine l r] := by
  have hnone : candidates.filter (matched l) = [] :=
    List.filter_eq_nil_iff.mpr fun r hr => by simp [h.1 r hr]
  unfold rowsFor
  rw [hnone, h.2]
  exact ⟨rfl, rfl⟩

theorem Covers.rowsFor_perm (hsub : candidates.Subperm right) (hright : right.Nodup)
    (h : Covers matched combine missing candidates right l) :
    (rowsFor matched combine missing candidates l).Perm
      (rowsFor matched combine missing right l) := by
  rcases h with hoffered | ⟨r, hover, hmissing⟩
  · exact NestedLoop.rowsFor_perm hsub hright hoffered
  · obtain ⟨hcandidates, hall⟩ := @rowsFor_overlooked _ _ _ _ combine missing _ _ _ _ hover
    rw [hcandidates, hall, hmissing]
    exact .refl _

theorem length_rowsFor_le (hsub : candidates.Subperm right) :
    (rowsFor matched combine missing candidates l).length ≤
      (rowsFor matched combine missing right l).length := by
  have hle := (hsub.filter (matched l)).length_le
  unfold rowsFor
  cases hc : candidates.filter (matched l) with
  | nil =>
    cases hr : right.filter (matched l) with
    | nil => exact Nat.le_refl _
    | cons r rs =>
      show (missing l).toList.length ≤ _
      exact Nat.le_trans Option.length_toList_le (by simp)
  | cons c cs =>
    rw [hc] at hle
    cases hr : right.filter (matched l) with
    | nil =>
      rw [hr] at hle
      simp at hle
    | cons r rs =>
      rw [hr] at hle
      simpa using hle

/-- As many rows: either nothing is left out or the only match is. -/
theorem offered_or_overlooked (hsub : candidates.Subperm right)
    (heq : (rowsFor matched combine missing candidates l).length =
      (rowsFor matched combine missing right l).length) :
    Offered matched candidates right l ∨
      ∃ r o, Overlooked matched candidates right l r ∧ missing l = some o := by
  unfold rowsFor at heq
  cases hc : candidates.filter (matched l) with
  | nil =>
    have hnone : ∀ r ∈ candidates, matched l r = false := fun r hr => by
      simpa using List.filter_eq_nil_iff.mp hc r hr
    cases hr : right.filter (matched l) with
    | nil =>
      refine .inl fun r hmem hmatched => ?_
      exact absurd hmatched (List.filter_eq_nil_iff.mp hr r hmem)
    | cons r rs =>
      rw [hc, hr] at heq
      cases hmissing : missing l with
      | none =>
        rw [hmissing] at heq
        simp at heq
      | some o =>
        rw [hmissing] at heq
        have hrs : rs = [] := by simpa using heq.symm
        exact .inr ⟨r, o, ⟨hnone, by rw [hr, hrs]⟩, rfl⟩
  | cons c cs =>
    refine .inl fun r hmem hmatched => ?_
    have hperm : (candidates.filter (matched l)).Perm (right.filter (matched l)) := by
      refine (hsub.filter (matched l)).perm_of_length_le ?_
      rw [hc] at heq ⊢
      cases hr : right.filter (matched l) with
      | nil => exact Nat.zero_le _
      | cons r rs =>
        rw [hr] at heq
        exact Nat.le_of_eq (by simpa using heq.symm)
    exact List.mem_of_mem_filter (hperm.mem_iff.mpr (List.mem_filter.mpr ⟨hmem, hmatched⟩))

end Candidates

/-- The rows of the loop over candidates are those of the loop over all inner elements exactly if
nothing is left out that changes the rows of an outer element. `tail` is the part of a row that
tells a row without a match. -/
theorem loop_perm_iff [DecidableEq T] {matched : L → R → Bool} {combine : L → R → O}
    {missing : L → Option O} {candidates : L → List R} {right : List R} {ls : List L}
    (hsub : ∀ l ∈ ls, (candidates l).Subperm right) (hright : right.Nodup) (tail : O → T) (t : T)
    (hmissing : ∀ l ∈ ls, ∀ o, missing l = some o → tail o = t)
    (htail : ∀ l ∈ ls, ∀ r ∈ right, ∀ o, missing l = some o → tail (combine l r) = t →
      combine l r = o) :
    (loop matched combine missing candidates ls).Perm
        (loop matched combine missing (fun _ => right) ls) ↔
      ∀ l ∈ ls, Covers matched combine missing (candidates l) right l := by
  constructor
  · intro hperm
    have hlength : ∀ l ∈ ls, (rowsFor matched combine missing (candidates l) l).length =
        (rowsFor matched combine missing right l).length := by
      refine (sum_le_and_eq fun l hl => length_rowsFor_le (hsub l hl)).2 ?_
      have heq := hperm.length_eq
      rw [loop, loop, List.length_flatMap, List.length_flatMap] at heq
      exact heq
    -- An overlooked match that does not look like a missing one has lost its row for good.
    have hcount : ∀ l ∈ ls, (rowsFor matched combine missing right l).countP (tail · = t) =
        (rowsFor matched combine missing (candidates l) l).countP (tail · = t) := by
      refine (sum_le_and_eq fun l hl => ?_).2 ?_
      · rcases offered_or_overlooked (hsub l hl) (hlength l hl) with hoffered | ⟨r, o, hover, ho⟩
        · exact Nat.le_of_eq ((rowsFor_perm (hsub l hl) hright hoffered).countP_eq _).symm
        · obtain ⟨hcandidates, hall⟩ := @rowsFor_overlooked _ _ _ _ combine missing _ _ _ _ hover
          have hlooks : decide (tail o = t) = true := decide_eq_true (hmissing l hl o ho)
          rw [hcandidates, hall, ho, Option.toList_some, List.countP_singleton,
            List.countP_singleton, if_pos hlooks]
          split
          · exact Nat.le_refl _
          · exact Nat.zero_le _
      · have heq := hperm.countP_eq (tail · = t)
        rw [loop, loop, List.countP_flatMap, List.countP_flatMap] at heq
        exact heq.symm
    intro l hl
    rcases offered_or_overlooked (hsub l hl) (hlength l hl) with hoffered | ⟨r, o, hover, ho⟩
    · exact .inl hoffered
    · refine .inr ⟨r, hover, ?_⟩
      obtain ⟨hcandidates, hall⟩ := @rowsFor_overlooked _ _ _ _ combine missing _ _ _ _ hover
      have hlooks : decide (tail o = t) = true := decide_eq_true (hmissing l hl o ho)
      have hone := hcount l hl
      rw [hcandidates, hall, ho, Option.toList_some, List.countP_singleton,
        List.countP_singleton, if_pos hlooks] at hone
      have hr : r ∈ right := by
        have hmem : r ∈ right.filter (matched l) := by rw [hover.2]; exact List.mem_singleton_self r
        exact List.mem_of_mem_filter hmem
      have hsame : tail (combine l r) = t := by
        by_contra hne
        rw [if_neg (by simpa using hne)] at hone
        cases hone
      rw [ho, htail l hl r hr o ho hsame]
  · intro hcovers
    exact List.Perm.flatMap_left ls fun l hl => (hcovers l hl).rowsFor_perm (hsub l hl) hright

/-! ## The inner side -/

section Outer

variable {matched : L → R → Bool} {combine : L → R → O} {ls : List L} {rs : List R}

/-- The pairs that match, outer elements first or inner elements first. -/
theorem pairs_perm :
    (ls.flatMap fun l => (rs.filter (matched l)).map (combine l)).Perm
      (rs.flatMap fun r => (ls.filter fun l => matched l r).map fun l => combine l r) := by
  induction ls with
  | nil =>
    have hnone : (rs.flatMap fun r => (([] : List L).filter fun l => matched l r).map fun l =>
        combine l r) = [] := List.flatMap_eq_nil_iff.mpr fun r _ => rfl
    rw [List.flatMap_nil, hnone]
  | cons l ls ih =>
    have hfirst : (rs.filter (matched l)).map (combine l) =
        rs.flatMap fun r => if matched l r = true then [combine l r] else [] := by
      clear ih
      induction rs with
      | nil => rfl
      | cons r rs ihr =>
        rw [List.flatMap_cons, List.filter_cons]
        split
        · rw [List.map_cons, ihr]
          rfl
        · exact ihr
    have hcons : (rs.flatMap fun r => ((l :: ls).filter fun l => matched l r).map fun l => combine l r) =
        rs.flatMap fun r => (if matched l r = true then [combine l r] else []) ++
          (ls.filter fun l => matched l r).map fun l => combine l r := by
      refine congrArg (rs.flatMap ·) (funext fun r => ?_)
      rw [List.filter_cons]
      split
      · rfl
      · rfl
    rw [List.flatMap_cons, hfirst, hcons]
    exact ((List.Perm.refl _).append ih).trans (List.flatMap_append_perm rs _ _)

/-- A loop that gives rows for pairs only. -/
theorem loop_pairs :
    loop matched combine (fun _ => none) (fun _ => rs) ls =
      ls.flatMap fun l => (rs.filter (matched l)).map (combine l) := by
  refine congrArg (ls.flatMap ·) (funext fun l => ?_)
  rw [rowsFor]
  split
  · rename_i hnone
    rw [List.isEmpty_iff.mp hnone]
    rfl
  · rfl

theorem loop_product :
    loop matched combine (fun _ => none) (fun _ => rs) ls =
      ((ls ×ˢ rs).filter fun p => matched p.1 p.2).map fun p => combine p.1 p.2 := by
  rw [loop_pairs]
  induction ls with
  | nil => rfl
  | cons l ls ih =>
    rw [List.flatMap_cons, List.product_cons, List.filter_append, List.map_append, ih,
      List.filter_map, List.map_map]
    rfl

/-- A loop that gives rows for pairs only keeps the inner side exactly if every inner element has a
match. -/
theorem loop_perm_inner_iff (missing : R → O) :
    (loop matched combine (fun _ => none) (fun _ => rs) ls).Perm
        (loop (fun r l => matched l r) (fun r l => combine l r) (fun r => some (missing r))
          (fun _ => ls) rs) ↔
      ∀ r ∈ rs, ∃ l ∈ ls, matched l r = true := by
  have hmatched : ∀ r, (∃ l ∈ ls, matched l r = true) ↔
      (ls.filter fun l => matched l r).isEmpty = false := by
    intro r
    rw [List.isEmpty_eq_false_iff_exists_mem]
    exact exists_congr fun l => by rw [List.mem_filter]
  rw [loop_pairs]
  constructor
  · intro h
    have hlength := (pairs_perm.symm.trans h).length_eq
    rw [loop, List.length_flatMap, List.length_flatMap] at hlength
    have heq := (sum_le_and_eq fun r _ => ?_).2 hlength
    · intro r hr
      have hone := heq r hr
      rw [hmatched]
      by_contra hempty
      have hnone : (ls.filter fun l => matched l r).isEmpty = true := by simpa using hempty
      rw [rowsFor, if_pos hnone, List.isEmpty_iff.mp hnone] at hone
      cases hone
    · rw [rowsFor]
      split
      · rename_i hnone
        rw [List.isEmpty_iff.mp hnone]
        exact Nat.zero_le _
      · exact Nat.le_refl _
  · intro h
    refine pairs_perm.trans (List.Perm.flatMap_left rs fun r hr => ?_)
    rw [rowsFor, if_neg (by rw [(hmatched r).mp (h r hr)]; decide)]

end Outer

/-! ## Filters that a projection respects -/

/-- What two filters keep looks alike only if they keep the same elements, where they depend on the
look of an element alone. -/
theorem map_filter_perm_iff {α β : Type*} {f : α → β} {p q : α → Bool} {as : List α}
    (hp : ∀ a ∈ as, ∀ b ∈ as, f a = f b → p a = p b)
    (hq : ∀ a ∈ as, ∀ b ∈ as, f a = f b → q a = q b) :
    ((as.filter p).map f).Perm ((as.filter q).map f) ↔ ∀ a ∈ as, p a = q a := by
  have hmem : ∀ {s : α → Bool}, (∀ a ∈ as, ∀ b ∈ as, f a = f b → s a = s b) → ∀ a ∈ as,
      (f a ∈ (as.filter s).map f ↔ s a = true) := by
    intro s hs a ha
    constructor
    · intro h
      obtain ⟨b, hb, hlook⟩ := List.mem_map.mp h
      obtain ⟨hb, hkept⟩ := List.mem_filter.mp hb
      rw [hs a ha b hb hlook.symm]
      exact hkept
    · intro h
      exact List.mem_map.mpr ⟨a, List.mem_filter.mpr ⟨ha, h⟩, rfl⟩
  constructor
  · intro h a ha
    rw [Bool.eq_iff_iff, ← hmem hp a ha, ← hmem hq a ha]
    exact h.mem_iff
  · intro h
    rw [List.filter_congr h]

end NestedLoop
