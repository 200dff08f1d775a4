import Mathlib.Data.List.Basic
import Mathlib.Data.List.TakeWhile

/-!
# Delimited text

Words between separators, lists joined with one separator, lines, and decimal
numbers, each with the conditions under which reading gives back what was
written.
-/

namespace DelimitedText

variable {α : Type}

/-! ## Words -/

section Words

variable (isSep : α → Bool)

/-- Skip separators, then take what comes before the next one. -/
def takeWord (cs : List α) : Option (List α × List α) :=
  match cs.dropWhile isSep with
  | [] => none
  | c :: rest => some (c :: rest.takeWhile (!isSep ·), rest.dropWhile (!isSep ·))

/-- Not empty and without separators. -/
structure IsWord (w : List α) : Prop where
  nonempty : w ≠ []
  plain : ∀ c ∈ w, isSep c = false

variable {isSep} {w cs : List α} {x : α}

theorem takeWord_cons_sep (h : isSep x = true) : takeWord isSep (x :: cs) = takeWord isSep cs := by
  rw [takeWord, List.dropWhile_cons_of_pos h, takeWord]

theorem IsWord.takeWord_append (h : IsWord isSep w) (hx : isSep x = true) :
    takeWord isSep (w ++ x :: cs) = some (w, x :: cs) := by
  cases w with
  | nil => exact absurd rfl h.nonempty
  | cons c w =>
    have hc := h.plain c List.mem_cons_self
    have hw : ∀ a ∈ w, (!isSep a) = true := fun a ha => by
      rw [h.plain a (List.mem_cons_of_mem c ha)]
      rfl
    rw [takeWord, List.cons_append, List.dropWhile_cons_of_neg (by simp [hc])]
    simp only [List.takeWhile_append_of_pos hw, List.dropWhile_append_of_pos hw]
    simp [hx]

theorem IsWord.takeWord_eq (h : IsWord isSep w) : takeWord isSep w = some (w, []) := by
  cases w with
  | nil => exact absurd rfl h.nonempty
  | cons c w =>
    have hc := h.plain c List.mem_cons_self
    have hw : ∀ a ∈ w, (!isSep a) = true := fun a ha => by
      rw [h.plain a (List.mem_cons_of_mem c ha)]
      rfl
    rw [takeWord, List.dropWhile_cons_of_neg (by simp [hc])]
    simp only [List.takeWhile_eq_self_iff.mpr hw, List.dropWhile_eq_nil_iff.mpr hw]

/-- What is taken is a word. -/
theorem isWord_of_takeWord {rest : List α} (h : takeWord isSep cs = some (w, rest)) :
    IsWord isSep w := by
  unfold takeWord at h
  cases hd : cs.dropWhile isSep with
  | nil => rw [hd] at h; cases h
  | cons c tail =>
    rw [hd] at h
    cases h
    refine ⟨List.cons_ne_nil _ _, fun a ha => ?_⟩
    rcases List.mem_cons.mp ha with rfl | ha
    · have hhead := List.head_dropWhile_not isSep (l := cs) (by rw [hd]; exact List.cons_ne_nil _ _)
      simpa [hd] using hhead
    · simpa using List.mem_takeWhile_imp ha

end Words

/-! ## Cutting and joining at one separator -/

section Separator

variable [DecidableEq α] (x : α)

/-- Cut at the first `x`. -/
def cutAt (cs : List α) : Option (List α × List α) :=
  match cs.dropWhile (· ≠ x) with
  | [] => none
  | _ :: rest => some (cs.takeWhile (· ≠ x), rest)

/-- The parts between the `x`, without empty ones. -/
def splitNonempty (cs : List α) : List (List α) := (cs.splitOn x).filter (· ≠ [])

/-- The pieces that end with `x`, and a last one that does not if it is not empty. -/
def linesOf (cs : List α) : List (List α) :=
  let parts := cs.splitOn x
  if parts.getLast? = some [] then parts.dropLast else parts

variable {x} {a b cs l : List α} {ls : List (List α)}

theorem cutAt_append (h : x ∉ a) : cutAt x (a ++ x :: b) = some (a, b) := by
  have ha : ∀ c ∈ a, decide (c ≠ x) = true := fun c hc => by
    simpa using fun hcx : c = x => h (hcx ▸ hc)
  rw [cutAt, List.dropWhile_append_of_pos ha, List.takeWhile_append_of_pos ha]
  simp

theorem cutAt_eq_none (h : x ∉ a) : cutAt x a = none := by
  have ha : ∀ c ∈ a, decide (c ≠ x) = true := fun c hc => by
    simpa using fun hcx : c = x => h (hcx ▸ hc)
  rw [cutAt, List.dropWhile_eq_nil_iff.mpr ha]

/-- A list that holds an `x` is cut before the first one. -/
theorem cutAt_of_mem (h : x ∈ cs) : ∃ a b, cs = a ++ x :: b ∧ x ∉ a ∧ cutAt x cs = some (a, b) := by
  obtain ⟨a, b, rfl, ha⟩ := List.eq_append_cons_of_mem h
  exact ⟨a, b, rfl, ha, cutAt_append ha⟩

theorem eq_of_cutAt (h : cutAt x cs = some (a, b)) : cs = a ++ x :: b := by
  by_cases hx : x ∈ cs
  · obtain ⟨a', b', rfl, -, hcut⟩ := cutAt_of_mem hx
    cases hcut.symm.trans h
    rfl
  · rw [cutAt_eq_none hx] at h
    cases h

theorem splitNonempty_intercalate (h : ∀ l ∈ ls, l ≠ [] ∧ x ∉ l) :
    splitNonempty x ([x].intercalate ls) = ls := by
  cases ls with
  | nil => simp [splitNonempty]
  | cons l ls =>
    rw [splitNonempty, List.splitOn_intercalate x (fun m hm => (h m hm).2) (List.cons_ne_nil _ _)]
    exact List.filter_eq_self.mpr fun m hm => by simpa using (h m hm).1

theorem mem_splitOn (h : l ∈ cs.splitOn x) : x ∉ l ∧ ∀ c ∈ l, c ∈ cs := by
  induction cs generalizing l with
  | nil => simp_all
  | cons y cs ih =>
    rw [List.splitOn_cons_eq_if_modifyHead] at h
    split at h
    · rcases List.mem_cons.mp h with rfl | h
      · simp
      · exact ⟨(ih h).1, fun c hc => List.mem_cons_of_mem y ((ih h).2 c hc)⟩
    · rename_i hy
      obtain ⟨hd, tl, hparts⟩ := List.exists_cons_of_ne_nil (List.splitOn_ne_nil x cs)
      rw [hparts] at h ih
      rcases List.mem_cons.mp h with rfl | h
      · obtain ⟨hx, hmem⟩ := ih List.mem_cons_self
        refine ⟨?_, fun c hc => ?_⟩
        · simpa [hx] using fun hxy : x = y => hy (by simp [hxy])
        · rcases List.mem_cons.mp hc with rfl | hc
          · exact List.mem_cons_self
          · exact List.mem_cons_of_mem y (hmem c hc)
      · obtain ⟨hx, hmem⟩ := ih (List.mem_cons_of_mem hd h)
        exact ⟨hx, fun c hc => List.mem_cons_of_mem y (hmem c hc)⟩

theorem mem_splitNonempty (h : l ∈ splitNonempty x cs) :
    l ≠ [] ∧ x ∉ l ∧ ∀ c ∈ l, c ∈ cs := by
  obtain ⟨hmem, hne⟩ := List.mem_filter.mp h
  exact ⟨by simpa using hne, mem_splitOn hmem⟩

theorem linesOf_unlines (h : ∀ l ∈ ls, x ∉ l) : linesOf x (ls.flatMap (· ++ [x])) = ls := by
  have hsplit : (ls.flatMap (· ++ [x])).splitOn x = ls ++ [[]] := by
    induction ls with
    | nil => simp
    | cons l ls ih =>
      rw [List.flatMap_cons, List.append_assoc, List.singleton_append,
        List.splitOn_append_cons_self_of_not_mem (h l List.mem_cons_self),
        ih fun m hm => h m (List.mem_cons_of_mem l hm), List.cons_append]
  rw [linesOf, hsplit]
  simp

end Separator

/-! ## Decimal numbers -/

/-- Digits up to the first character that is none. -/
def takeNumber (cs : List Char) : Option (Nat × List Char) :=
  match cs.takeWhile Char.isDigit with
  | [] => none
  | ds => some (Nat.ofDigitChars 10 ds 0, cs.dropWhile Char.isDigit)

theorem isDigit_of_mem_toDigits {n : Nat} {c : Char} (h : c ∈ Nat.toDigits 10 n) :
    c.isDigit = true := Nat.isDigit_of_mem_toDigits (by decide) (by decide) h

/-- A number is read back where no digit follows. -/
theorem takeNumber_toDigits {n : Nat} {cs : List Char} (h : ∀ c ∈ cs.head?, c.isDigit = false) :
    takeNumber (Nat.toDigits 10 n ++ cs) = some (n, cs) := by
  have hd : ∀ c ∈ Nat.toDigits 10 n, c.isDigit = true := fun c => isDigit_of_mem_toDigits
  have htake : cs.takeWhile Char.isDigit = [] := by
    cases cs with
    | nil => rfl
    | cons c cs => simp [h c rfl]
  have hdrop : cs.dropWhile Char.isDigit = cs := by
    cases cs with
    | nil => rfl
    | cons c cs => simp [h c rfl]
  rw [takeNumber, List.takeWhile_append_of_pos hd, List.dropWhile_append_of_pos hd, htake, hdrop,
    List.append_nil]
  have hvalue : Nat.ofDigitChars 10 (Nat.toDigits 10 n) 0 = n := Nat.ofDigitChars_ten_toDigits
  cases hne : Nat.toDigits 10 n with
  | nil => exact absurd hne Nat.toDigits_ne_nil
  | cons c ds =>
    rw [hne] at hvalue
    simp only [hvalue]

end DelimitedText
