import Mathlib.Data.List.Basic

/-!
# Pieces of a text

A scanner cuts a text into pieces, one after the other, with blanks between
them. Brackets among the pieces that are all closed, and those that are still
open in the middle of a scan.
-/

namespace ScratchDb

universe u

/-- A piece of a text, and where it starts. -/
structure Piece (α : Type u) where
  position : Nat
  text : List α

variable {α : Type u} {blank : α → Bool} {text : List α} {stop : Nat} {pieces : List (Piece α)}

/-- The pieces of the text before `stop`: excerpts that follow one another, and blanks elsewhere. -/
structure Tiled (blank : α → Bool) (text : List α) (stop : Nat) (pieces : List (Piece α)) :
    Prop where
  nonempty : ∀ p ∈ pieces, p.text ≠ []
  excerpt : ∀ p ∈ pieces, (text.drop p.position).take p.text.length = p.text
  increasing : pieces.Pairwise fun p q => p.position < q.position
  apart : pieces.Pairwise fun p q => p.position + p.text.length ≤ q.position
  before : ∀ p ∈ pieces, p.position + p.text.length ≤ stop
  between : ∀ i a, i < stop → text[i]? = some a → blank a = true ∨
    ∃ p ∈ pieces, p.position ≤ i ∧ i < p.position + p.text.length

namespace Tiled

theorem nil (blank : α → Bool) (text : List α) : Tiled blank text 0 [] where
  nonempty _ h := absurd h List.not_mem_nil
  excerpt _ h := absurd h List.not_mem_nil
  increasing := .nil
  apart := .nil
  before _ h := absurd h List.not_mem_nil
  between _ _ h := absurd h (Nat.not_lt_zero _)

/-- Blanks are passed over. -/
theorem skip (h : Tiled blank text stop pieces) (n : Nat)
    (hblank : ∀ a ∈ (text.drop stop).take n, blank a = true) :
    Tiled blank text (stop + n) pieces where
  nonempty := h.nonempty
  excerpt := h.excerpt
  increasing := h.increasing
  apart := h.apart
  before p hp := Nat.le_add_right_of_le (h.before p hp)
  between i a hi ha := by
    rcases Nat.lt_or_ge i stop with hold | hge
    · exact h.between i a hold ha
    · refine .inl (hblank a (List.mem_of_getElem? (i := i - stop) ?_))
      rw [List.getElem?_take_of_lt (by omega), List.getElem?_drop, Nat.add_sub_cancel' hge, ha]

/-- The next piece starts where the scan stands. -/
theorem push (h : Tiled blank text stop pieces) {n : Nat} (hpos : 0 < n)
    (hfits : stop + n ≤ text.length) :
    Tiled blank text (stop + n) (pieces ++ [⟨stop, (text.drop stop).take n⟩]) := by
  have hlength : ((text.drop stop).take n).length = n := by
    rw [List.length_take, List.length_drop]
    omega
  have hnew : ∀ p ∈ pieces ++ [⟨stop, (text.drop stop).take n⟩],
      p ∈ pieces ∨ p = ⟨stop, (text.drop stop).take n⟩ := fun p hp =>
    (List.mem_append.mp hp).imp_right List.mem_singleton.mp
  refine ⟨fun p hp => ?_, fun p hp => ?_, ?_, ?_, fun p hp => ?_, fun i a hi ha => ?_⟩
  · rcases hnew p hp with hold | rfl
    · exact h.nonempty p hold
    · exact List.ne_nil_of_length_pos (by rw [hlength]; exact hpos)
  · rcases hnew p hp with hold | rfl
    · exact h.excerpt p hold
    · dsimp only
      rw [hlength]
  · refine List.pairwise_append.mpr ⟨h.increasing, List.pairwise_singleton _ _, fun p hp q hq => ?_⟩
    rw [List.mem_singleton.mp hq]
    have hbefore := h.before p hp
    have hsome := List.length_pos_iff.mpr (h.nonempty p hp)
    dsimp only
    omega
  · refine List.pairwise_append.mpr ⟨h.apart, List.pairwise_singleton _ _, fun p hp q hq => ?_⟩
    rw [List.mem_singleton.mp hq]
    exact h.before p hp
  · rcases hnew p hp with hold | rfl
    · exact Nat.le_add_right_of_le (h.before p hold)
    · exact Nat.le_of_eq (congrArg (stop + ·) hlength)
  · rcases Nat.lt_or_ge i stop with hold | hge
    · rcases h.between i a hold ha with hblank | ⟨p, hp, hcovered⟩
      · exact .inl hblank
      · exact .inr ⟨p, List.mem_append_left _ hp, hcovered⟩
    · refine .inr ⟨_, List.mem_append_right _ (List.mem_singleton_self _), hge, ?_⟩
      dsimp only
      rwa [hlength]

end Tiled

/-! ## Brackets -/

section

variable {opens closes : α → Prop} {as bs : List α} {a b : α} {n : Nat}

/-- Each opening bracket is closed by one of its own. -/
inductive Balanced (opens closes : α → Prop) : List α → Prop where
  | nil : Balanced opens closes []
  | other {a : α} {as : List α} : ¬ opens a → ¬ closes a → Balanced opens closes as →
      Balanced opens closes (a :: as)
  | pair {a b : α} {inner rest : List α} : opens a → closes b → Balanced opens closes inner →
      Balanced opens closes rest → Balanced opens closes (a :: (inner ++ b :: rest))

/-- A list in which so many brackets are still open. -/
inductive Pending (opens closes : α → Prop) : Nat → List α → Prop where
  | balanced {as : List α} : Balanced opens closes as → Pending opens closes 0 as
  | opened {n : Nat} {a : α} {as bs : List α} : Pending opens closes n as → opens a →
      Balanced opens closes bs → Pending opens closes (n + 1) (as ++ a :: bs)

theorem Balanced.append (ha : Balanced opens closes as) (hb : Balanced opens closes bs) :
    Balanced opens closes (as ++ bs) := by
  induction ha with
  | nil => exact hb
  | other hopen hclose _ ih => exact .other hopen hclose ih
  | @pair a b inner rest hopen hclose hinner _ _ ih =>
    have hsame : a :: (inner ++ b :: rest) ++ bs = a :: (inner ++ b :: (rest ++ bs)) := by simp
    rw [hsame]
    exact .pair hopen hclose hinner ih

theorem Pending.append (ha : Pending opens closes n as) (hb : Balanced opens closes bs) :
    Pending opens closes n (as ++ bs) := by
  cases ha with
  | balanced ha => exact .balanced (ha.append hb)
  | @opened n a as cs ha hopen hc =>
    rw [List.append_assoc, List.cons_append]
    exact .opened ha hopen (hc.append hb)

theorem Pending.open (h : Pending opens closes n as) (ha : opens a) :
    Pending opens closes (n + 1) (as ++ [a]) :=
  .opened h ha .nil

theorem Pending.close (h : Pending opens closes (n + 1) as) (hb : closes b) :
    Pending opens closes n (as ++ [b]) := by
  cases h with
  | @opened _ a as cs ha hopen hc =>
    rw [List.append_assoc, List.cons_append]
    exact ha.append (.pair hopen hb hc .nil)

theorem Pending.other (h : Pending opens closes n as) (hopen : ¬ opens a) (hclose : ¬ closes a) :
    Pending opens closes n (as ++ [a]) :=
  h.append (.other hopen hclose .nil)

theorem Pending.all_closed (h : Pending opens closes 0 as) : Balanced opens closes as := by
  cases h with
  | balanced h => exact h

end

end ScratchDb
