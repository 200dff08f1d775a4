import Mathlib.Init

/-!
# Stateful programs that may stop

Programs over a state `σ` that return a value or stop with an `ε`, keeping
the state they reached, and the rules for their postconditions.
-/

/-- A program: from a state to a value, or a reason to stop, and a state. -/
def Prog (ε σ α : Type) : Type := σ → Except ε α × σ

namespace Prog

variable {ε σ τ α β : Type}

protected def pure (a : α) : Prog ε σ α := fun s => (.ok a, s)

protected def bind (m : Prog ε σ α) (f : α → Prog ε σ β) : Prog ε σ β := fun s =>
  match m s with
  | (.ok a, t) => f a t
  | (.error e, t) => (.error e, t)

instance : Monad (Prog ε σ) where
  pure := Prog.pure
  bind := Prog.bind

/-- Stop with `e`. -/
def stop (e : ε) : Prog ε σ α := fun s => (.error e, s)

/-- The current state. -/
def get : Prog ε σ σ := fun s => (.ok s, s)

/-- Change the state. -/
def modify (f : σ → σ) : Prog ε σ Unit := fun s => (.ok (), f s)

/-- Run `handler` where `m` stopped for a reason that `caught` accepts. -/
def rescue (m : Prog ε σ α) (caught : ε → Bool) (handler : Prog ε σ α) : Prog ε σ α := fun s =>
  match m s with
  | (.ok a, t) => (.ok a, t)
  | (.error e, t) => if caught e then handler t else (.error e, t)

/-- Run `cleanup` after `m`, whether it returned or stopped. -/
def ensuring (m : Prog ε σ α) (cleanup : Prog ε σ Unit) : Prog ε σ α := fun s =>
  match cleanup (m s).2 with
  | (.ok _, t) => ((m s).1, t)
  | (.error e, t) => (.error e, t)

@[simp] theorem pure_apply (a : α) (s : σ) : (pure a : Prog ε σ α) s = (.ok a, s) := rfl

@[simp] theorem stop_apply (e : ε) (s : σ) : (stop e : Prog ε σ α) s = (.error e, s) := rfl

@[simp] theorem get_apply (s : σ) : (get : Prog ε σ σ) s = (.ok s, s) := rfl

@[simp] theorem modify_apply (f : σ → σ) (s : σ) :
    (modify f : Prog ε σ Unit) s = (.ok (), f s) := rfl

theorem bind_apply (m : Prog ε σ α) (f : α → Prog ε σ β) (s : σ) :
    (m >>= f) s = match m s with
      | (.ok a, t) => f a t
      | (.error e, t) => (.error e, t) := rfl

theorem bind_ok {m : Prog ε σ α} {f : α → Prog ε σ β} {s t : σ} {a : α} (h : m s = (.ok a, t)) :
    (m >>= f) s = f a t := by
  rw [bind_apply, h]

theorem bind_error {m : Prog ε σ α} {f : α → Prog ε σ β} {s t : σ} {e : ε}
    (h : m s = (.error e, t)) : (m >>= f) s = (.error e, t) := by
  rw [bind_apply, h]

theorem bind_assoc {γ : Type} (m : Prog ε σ α) (f : α → Prog ε σ β) (g : β → Prog ε σ γ) :
    m >>= f >>= g = m >>= fun a => f a >>= g := by
  funext s
  rw [bind_apply, bind_apply, bind_apply]
  rcases m s with ⟨_ | _, _⟩ <;> rfl

/-! ## Programs with their values mapped -/

/-- The same run, with its value mapped. -/
def map (f : α → β) (m : Prog ε σ α) : Prog ε σ β := fun s => ((m s).1.map f, (m s).2)

theorem map_pure (f : α → β) (a : α) : map f (pure a : Prog ε σ α) = pure (f a) := rfl

theorem map_bind {γ : Type} (f : β → γ) (m : Prog ε σ α) (g : α → Prog ε σ β) :
    map f (m >>= g) = m >>= fun a => map f (g a) := by
  funext s
  rw [bind_apply, map, bind_apply]
  rcases m s with ⟨_ | _, _⟩ <;> rfl

theorem bind_map {γ : Type} (f : α → β) (m : Prog ε σ α) (g : β → Prog ε σ γ) :
    map f m >>= g = m >>= fun a => g (f a) := by
  funext s
  rw [bind_apply, bind_apply, map]
  rcases m s with ⟨_ | _, _⟩ <;> rfl

/-- A run that returns has returned from its first part. -/
theorem bind_eq_ok {m : Prog ε σ α} {f : α → Prog ε σ β} {s t : σ} {b : β}
    (h : (m >>= f) s = (.ok b, t)) : ∃ a u, m s = (.ok a, u) ∧ f a u = (.ok b, t) := by
  rw [bind_apply] at h
  rcases hm : m s with ⟨e | a, u⟩
  · rw [hm] at h
    cases h
  · rw [hm] at h
    exact ⟨a, u, rfl, h⟩

/-! ## Postconditions -/

/-- `m`, started in `s`, ends in an outcome and a state that satisfy `Q`. -/
def Ends (m : Prog ε σ α) (s : σ) (Q : Except ε α → σ → Prop) : Prop := Q (m s).1 (m s).2

theorem Ends.mono {m : Prog ε σ α} {s : σ} {Q R : Except ε α → σ → Prop}
    (h : m.Ends s Q) (hQR : ∀ r t, Q r t → R r t) : m.Ends s R :=
  hQR _ _ h

theorem ends_pure {a : α} {s : σ} {Q : Except ε α → σ → Prop} (h : Q (.ok a) s) :
    (pure a : Prog ε σ α).Ends s Q := h

theorem ends_stop {e : ε} {s : σ} {Q : Except ε α → σ → Prop} (h : Q (.error e) s) :
    (stop e : Prog ε σ α).Ends s Q := h

/-- Sequencing: a postcondition of the first program from which the second
establishes the goal, and which carries over when the first one stops. -/
theorem ends_bind {m : Prog ε σ α} {f : α → Prog ε σ β} {s : σ} {Q : Except ε α → σ → Prop}
    {R : Except ε β → σ → Prop} (hm : m.Ends s Q)
    (hok : ∀ a t, Q (.ok a) t → (f a).Ends t R)
    (hstop : ∀ e t, Q (.error e) t → R (.error e) t) : (m >>= f).Ends s R := by
  unfold Ends at hm ⊢
  rw [bind_apply]
  rcases h : m s with ⟨_ | a, t⟩
  · rw [h] at hm
    exact hstop _ _ hm
  · rw [h] at hm
    exact hok a t hm

/-! ## Programs that only move along a relation -/

/-- Every run of `m` moves the state along `R`. -/
def Keeps (R : σ → σ → Prop) (m : Prog ε σ α) : Prop := ∀ s, R s (m s).2

section Keeps

variable {R : σ → σ → Prop}

theorem keeps_pure (hrefl : ∀ s, R s s) (a : α) : Keeps R (pure a : Prog ε σ α) := fun s => hrefl s

theorem keeps_stop (hrefl : ∀ s, R s s) (e : ε) : Keeps R (stop e : Prog ε σ α) := fun s => hrefl s

theorem keeps_get (hrefl : ∀ s, R s s) : Keeps R (get : Prog ε σ σ) := fun s => hrefl s

theorem keeps_modify {f : σ → σ} (h : ∀ s, R s (f s)) : Keeps R (modify f : Prog ε σ Unit) := h

theorem keeps_bind (htrans : ∀ a b c, R a b → R b c → R a c) {m : Prog ε σ α}
    {f : α → Prog ε σ β} (hm : Keeps R m) (hf : ∀ a, Keeps R (f a)) : Keeps R (m >>= f) := by
  intro s
  have h1 := hm s
  rw [bind_apply]
  rcases h : m s with ⟨_ | a, t⟩
  · simpa [h] using h1
  · rw [h] at h1
    exact htrans _ _ _ h1 (hf a t)

end Keeps

end Prog
