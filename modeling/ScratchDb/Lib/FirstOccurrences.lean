import Mathlib.Data.List.Lattice
import Mathlib.Logic.Basic
import ScratchDb.Lib.Grouping

/-!
# Lists of first occurrences

A list that keeps some elements of another one in their order, and of equal
elements always the first ones. Such lists are what is left by a filter, by
removing duplicates and by the common part of two lists with multiplicities.
-/

namespace FirstOccurrences

variable {A : Type*}

/-- Of equal elements the first ones are kept: none is kept behind one that is left out. -/
inductive KeepsFirst : List A → List A → Prop
  | nil : KeepsFirst [] []
  | keep {a : A} {as bs : List A} : KeepsFirst as bs → KeepsFirst (a :: as) (a :: bs)
  | skip {a : A} {as bs : List A} : KeepsFirst as bs → a ∉ bs → KeepsFirst (a :: as) bs

/-! ## Lawful equality -/

section Lawful

variable [BEq A] [LawfulBEq A]

theorem cons_bagInter (a : A) (as bs : List A) [Decidable (a ∈ bs)] :
    (a :: as).bagInter bs = if a ∈ bs then a :: as.bagInter (bs.erase a) else as.bagInter bs := by
  cases bs with
  | nil => cases as <;> simp [List.bagInter]
  | cons b bs =>
    rw [List.bagInter]
    · simp only [List.elem_iff]
    · exact List.cons_ne_nil b bs

theorem mem_of_mem_bagInter {a : A} {as bs : List A} (h : a ∈ as.bagInter bs) : a ∈ bs := by
  obtain rfl : ‹BEq A› = @instBEqOfDecidableEq A (Classical.decEq A) :=
    lawful_beq_subsingleton _ _
  exact ((@List.mem_bagInter A (Classical.decEq A) a as bs).mp h).2

theorem count_bagInter (a : A) (as bs : List A) :
    (as.bagInter bs).count a = min (as.count a) (bs.count a) := by
  obtain rfl : ‹BEq A› = @instBEqOfDecidableEq A (Classical.decEq A) :=
    lawful_beq_subsingleton _ _
  exact @List.count_bagInter A (Classical.decEq A) a as bs

theorem count_eraseDups (as : List A) (a : A) [Decidable (a ∈ as)] :
    as.eraseDups.count a = if a ∈ as then 1 else 0 := by
  split
  · rename_i hmem
    exact List.count_eq_one_of_mem (Grouping.nodup_eraseDups as) (List.mem_eraseDups.mpr hmem)
  · rename_i hnot
    exact List.count_eq_zero.mpr fun hmem => hnot (List.mem_eraseDups.mp hmem)

end Lawful

/-! ## Which lists keep the first ones -/

namespace KeepsFirst

variable {as bs cs : List A}

theorem sublist (h : KeepsFirst as bs) : bs.Sublist as := by
  induction h with
  | nil => exact .slnil
  | keep _ ih => exact ih.cons_cons _
  | skip _ _ ih => exact ih.cons _

theorem refl (as : List A) : KeepsFirst as as := by
  induction as with
  | nil => exact .nil
  | cons a as ih => exact .keep ih

theorem trans (h : KeepsFirst as bs) (h' : KeepsFirst bs cs) : KeepsFirst as cs := by
  induction h generalizing cs with
  | nil => exact h'
  | keep _ ih =>
    cases h' with
    | keep h' => exact .keep (ih h')
    | skip h' hnot => exact .skip (ih h') hnot
  | skip _ hnot ih =>
    exact .skip (ih h') fun hmem => hnot (h'.sublist.subset hmem)

theorem filter (p : A → Bool) (as : List A) : KeepsFirst as (as.filter p) := by
  induction as with
  | nil => exact .nil
  | cons a as ih =>
    by_cases hp : p a = true
    · rw [List.filter_cons_of_pos hp]
      exact .keep ih
    · rw [List.filter_cons_of_neg hp]
      exact .skip ih fun hmem => hp (List.mem_filter.mp hmem).2

theorem append_right (h : KeepsFirst as bs) (more : List A) : KeepsFirst (as ++ more) bs := by
  induction h with
  | nil =>
    induction more with
    | nil => exact .nil
    | cons a more ih => exact .skip ih List.not_mem_nil
  | keep _ ih => exact .keep ih
  | skip _ hnot ih => exact .skip ih hnot

variable [BEq A]

theorem eraseDups (as : List A) : KeepsFirst as as.eraseDups := by
  -- the recursion goes on with the others of the tail
  induction hn : as.length using Nat.strongRecOn generalizing as with
  | _ n ih =>
    cases as with
    | nil => exact .nil
    | cons a as =>
      have hlength := List.length_filter_le (fun b => !b == a) as
      rw [List.length_cons] at hn
      rw [List.eraseDups_cons]
      exact .keep ((filter _ as).trans (ih _ (by omega) _ rfl))

theorem bagInter [LawfulBEq A] (as bs : List A) : KeepsFirst as (as.bagInter bs) := by
  induction as generalizing bs with
  | nil => exact (by cases bs <;> exact .nil)
  | cons a as ih =>
    by_cases h : a ∈ bs
    · rw [cons_bagInter, if_pos h]
      exact .keep (ih _)
    · rw [cons_bagInter, if_neg h]
      exact .skip (ih _) fun hmem => h (mem_of_mem_bagInter hmem)

end KeepsFirst

end FirstOccurrences
