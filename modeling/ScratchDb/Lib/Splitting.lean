import Mathlib.Algebra.BigOperators.Group.List.Basic
import Mathlib.Algebra.Ring.Nat

/-!
# Splitting a text

A scan that cuts a text at separators, where its state tells which characters
separate: a list of words, joined with separators, is split into the words
again exactly if no word is cut itself.
-/

namespace ScratchDb

universe u v

/-- A scan: the state behind each character, and where the text is cut. -/
structure Splitter (α : Type u) (σ : Type v) where
  next : σ → α → σ
  cuts : σ → α → Bool

namespace Splitter

variable {α : Type u} {σ : Type v} (m : Splitter α σ)

def run (s : σ) (text : List α) : σ := text.foldl m.next s

/-- How often a text is cut. -/
def cutCount : σ → List α → Nat
  | _, [] => 0
  | s, a :: text => (if m.cuts s a then 1 else 0) + cutCount (m.next s a) text

/-- The pieces of a text behind the beginning `current` of a piece. -/
def pieces : σ → List α → List α → List (List α)
  | _, current, [] => [current]
  | s, current, a :: text =>
    if m.cuts s a then current :: pieces (m.next s a) [] text
    else pieces (m.next s a) (current ++ [a]) text

/-- The pieces and where they start, the first one at `position`. -/
def placedPieces : σ → List α → Nat → List α → List (List α × Nat)
  | _, current, position, [] => [(current, position)]
  | s, current, position, a :: text =>
    if m.cuts s a then
      (current, position) :: placedPieces (m.next s a) [] (position + current.length + 1) text
    else placedPieces (m.next s a) (current ++ [a]) position text

variable {m} {s : σ} {current text : List α}

theorem run_append (s : σ) (text rest : List α) :
    m.run s (text ++ rest) = m.run (m.run s text) rest :=
  List.foldl_append

theorem cutCount_append (s : σ) (text rest : List α) :
    m.cutCount s (text ++ rest) = m.cutCount s text + m.cutCount (m.run s text) rest := by
  induction text generalizing s with
  | nil => exact (Nat.zero_add _).symm
  | cons a text ih => rw [List.cons_append, cutCount, cutCount, ih, Nat.add_assoc]; rfl

theorem length_pieces (s : σ) (current text : List α) :
    (m.pieces s current text).length = m.cutCount s text + 1 := by
  induction text generalizing s current with
  | nil => rfl
  | cons a text ih =>
    rw [pieces, cutCount]
    split
    · rw [List.length_cons, ih, Nat.add_comm 1]
    · rw [ih, Nat.zero_add]

/-- A word that is not cut belongs to the current piece. -/
theorem pieces_append {word : List α} (h : m.cutCount s word = 0) (current rest : List α) :
    m.pieces s current (word ++ rest) = m.pieces (m.run s word) (current ++ word) rest := by
  induction word generalizing s current with
  | nil => rw [List.nil_append, List.append_nil]; rfl
  | cons a word ih =>
    rw [cutCount] at h
    have hcuts : m.cuts s a = false := by
      by_contra hcut
      rw [Bool.not_eq_false] at hcut
      rw [if_pos hcut] at h
      omega
    rw [hcuts, if_neg Bool.false_ne_true, Nat.zero_add] at h
    rw [List.cons_append, pieces, hcuts, if_neg Bool.false_ne_true, ih h, List.append_assoc]
    rfl

/-- Where only the state `s` cuts and the separators leave it alone, no piece of a text is cut, and
each piece but the last leads back to `s`. -/
theorem pieces_of_text (hcut : ∀ s' a, m.cuts s' a = true → s' = s ∧ m.next s' a = s)
    (hcurrent : m.cutCount s current = 0) (text : List α) :
    (∀ piece ∈ m.pieces (m.run s current) current text, m.cutCount s piece = 0) ∧
      ∀ piece ∈ (m.pieces (m.run s current) current text).dropLast, m.run s piece = s := by
  induction text generalizing current with
  | nil =>
    constructor
    · intro piece hpiece
      rw [List.mem_singleton.mp hpiece]
      exact hcurrent
    · intro piece hpiece
      exact absurd hpiece List.not_mem_nil
  | cons a text ih =>
    rw [pieces]
    by_cases h : m.cuts (m.run s current) a = true
    · obtain ⟨hback, hnext⟩ := hcut _ a h
      have hrest := @ih [] rfl
      have hstart : m.run s ([] : List α) = s := rfl
      rw [hstart] at hrest
      rw [if_pos h, hnext]
      constructor
      · intro piece hpiece
        rcases List.mem_cons.mp hpiece with rfl | hpiece
        · exact hcurrent
        · exact hrest.1 piece hpiece
      · intro piece hpiece
        have hne : m.pieces s [] text ≠ [] :=
          List.ne_nil_of_length_pos (by rw [length_pieces]; exact Nat.succ_pos _)
        rw [List.dropLast_cons_of_ne_nil hne] at hpiece
        rcases List.mem_cons.mp hpiece with rfl | hpiece
        · exact hback
        · exact hrest.2 piece hpiece
    · have hrun : m.run s (current ++ [a]) = m.next (m.run s current) a := run_append _ _ _
      have huncut : m.cutCount s (current ++ [a]) = 0 := by
        rw [cutCount_append, hcurrent, cutCount, if_neg h]
        rfl
      rw [if_neg h, ← hrun]
      exact ih huncut

/-! ## Places -/

theorem map_fst_placedPieces (s : σ) (current : List α) (position : Nat) (text : List α) :
    (m.placedPieces s current position text).map Prod.fst = m.pieces s current text := by
  induction text generalizing s current position with
  | nil => rfl
  | cons a text ih =>
    rw [placedPieces, pieces]
    split
    · rw [List.map_cons, ih]
    · rw [ih]

/-- Each piece is an excerpt of the text from its place on. -/
theorem excerpt_of_placedPieces {p : List α × Nat} (before : List α)
    (h : p ∈ m.placedPieces s current before.length text) :
    before.length ≤ p.2 ∧ ∃ front back, before ++ (current ++ text) = front ++ (p.1 ++ back) ∧
      front.length = p.2 := by
  induction text generalizing s current before with
  | nil =>
    rw [List.mem_singleton.mp h]
    exact ⟨Nat.le_refl _, before, [], rfl, rfl⟩
  | cons a text ih =>
    rw [placedPieces] at h
    split at h
    · rcases List.mem_cons.mp h with rfl | h
      · exact ⟨Nat.le_refl _, before, a :: text, rfl, rfl⟩
      · have hlength : (before ++ (current ++ [a])).length = before.length + current.length + 1 := by
          simp only [List.length_append, List.length_singleton]
          omega
        rw [← hlength] at h
        obtain ⟨hle, front, back, heq, hfront⟩ := ih _ h
        refine ⟨by omega, front, back, ?_, hfront⟩
        rw [← heq]
        simp
    · obtain ⟨hle, front, back, heq, hfront⟩ := ih before h
      refine ⟨hle, front, back, ?_, hfront⟩
      rw [← heq]
      simp

/-! ## Joined words -/

section

variable {a : α} {blanks word : List α} {words : List (List α)}

/-- All words but the last leave the scan where it starts, and so does the separator, which is cut at
its first character only. -/
structure Joins (m : Splitter α σ) (s : σ) (a : α) (blanks : List α) (words : List (List α)) :
    Prop where
  words : ∀ word ∈ words.dropLast, m.run s word = s
  cuts : m.cuts s a = true
  next : m.next s a = s
  blanks : m.run s blanks = s ∧ m.cutCount s blanks = 0

theorem Joins.tail (h : Joins m s a blanks (word :: words)) : Joins m s a blanks words := by
  refine ⟨fun w hw => ?_, h.cuts, h.next, h.blanks⟩
  cases words with
  | nil => exact absurd hw List.not_mem_nil
  | cons next words => exact h.words w (List.mem_cons_of_mem _ hw)

theorem Joins.cutCount (h : Joins m s a blanks (word :: words)) :
    m.cutCount s ((a :: blanks).intercalate (word :: words)) =
      ((word :: words).map (m.cutCount s)).sum + words.length := by
  induction words generalizing word with
  | nil =>
    rw [List.intercalate_singleton, List.map_singleton, List.sum_singleton, List.length_nil,
      Nat.add_zero]
  | cons next words ih =>
    have hword := h.words word List.mem_cons_self
    have hseparator : m.run s (a :: blanks) = s := by
      rw [run, List.foldl_cons, h.next]
      exact h.blanks.1
    have hone : m.cutCount s (a :: blanks) = 1 := by
      rw [Splitter.cutCount, if_pos h.cuts, h.next, h.blanks.2]
    rw [List.intercalate_cons_cons, cutCount_append, cutCount_append, hword, run_append, hword,
      hseparator, hone, ih h.tail]
    simp only [List.map_cons, List.sum_cons, List.length_cons]
    omega

theorem Joins.pieces (h : Joins m s a blanks (word :: words))
    (hwords : ∀ w ∈ word :: words, m.cutCount s w = 0) (current : List α) :
    m.pieces s current ((a :: blanks).intercalate (word :: words)) =
      (current ++ word) :: words.map (blanks ++ ·) := by
  induction words generalizing word current with
  | nil =>
    rw [List.intercalate_singleton, ← List.append_nil word,
      pieces_append (hwords word List.mem_cons_self), List.append_nil]
    rfl
  | cons next words ih =>
    have hword := h.words word List.mem_cons_self
    rw [List.intercalate_cons_cons, List.append_assoc,
      pieces_append (hwords word List.mem_cons_self), hword, List.cons_append, Splitter.pieces,
      if_pos h.cuts, h.next, pieces_append h.blanks.2, h.blanks.1,
      ih h.tail fun w hw => hwords w (List.mem_cons_of_mem _ hw), List.nil_append, List.map_cons]

/-- Joined words have as many pieces as there are words exactly if no word is cut. -/
theorem Joins.length_pieces_iff (h : Joins m s a blanks (word :: words)) :
    (m.pieces s [] ((a :: blanks).intercalate (word :: words))).length = words.length + 1 ↔
      ∀ w ∈ word :: words, m.cutCount s w = 0 := by
  have hsum : ((word :: words).map (m.cutCount s)).sum = 0 ↔
      ∀ w ∈ word :: words, m.cutCount s w = 0 := by
    rw [List.sum_eq_zero_iff_forall_eq_nat, List.forall_mem_map]
  rw [← hsum, length_pieces, h.cutCount]
  omega

end

end Splitter

end ScratchDb
