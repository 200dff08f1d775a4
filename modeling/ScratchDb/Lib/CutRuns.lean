import ScratchDb.Lib.Prog

/-!
# Programs that can be cut off

A program on a state that the outside can stop after any of its steps. The
program keeps the states it has passed through, and a triple for such programs
has two postconditions: one for the end of the run, and one for every state on
the way.
-/

/-- The states that a program has passed through, the last one first. -/
structure Passage (σ : Type) where
  first : σ
  passed : List σ

namespace Passage

variable {ε σ α β : Type}

/-- The state now. -/
def now (p : Passage σ) : σ := p.passed.headD p.first

/-- One step that the run can be cut off behind. -/
def step (f : σ → σ) : Prog ε (Passage σ) Unit :=
  Prog.modify fun p => { p with passed := f p.now :: p.passed }

/-- The state now, as a value. -/
def look : Prog ε (Passage σ) σ := fun p => (.ok p.now, p)

/-- What holds of each state that `m` passes through from `s` on, and of its outcome with the state
it ends in. -/
def Throughout (I : σ → Prop) (m : Prog ε (Passage σ) α) (s : σ) (Q : Except ε α → σ → Prop) :
    Prop :=
  ∀ p : Passage σ, p.now = s → (∀ t ∈ p.passed, I t) →
    (m p).2.first = p.first ∧ (∀ t ∈ (m p).2.passed, I t) ∧ Q (m p).1 (m p).2.now

variable {I : σ → Prop} {s : σ} {m : Prog ε (Passage σ) α} {Q : Except ε α → σ → Prop}

theorem Throughout.mono {R : Except ε α → σ → Prop} (h : Throughout I m s Q)
    (hQR : ∀ r t, Q r t → R r t) : Throughout I m s R := by
  intro p hnow hpassed
  obtain ⟨hfirst, hI, hQ⟩ := h p hnow hpassed
  exact ⟨hfirst, hI, hQR _ _ hQ⟩

theorem throughout_pure {a : α} (h : Q (.ok a) s) :
    Throughout I (pure a : Prog ε (Passage σ) α) s Q := by
  intro p hnow hpassed
  exact ⟨rfl, hpassed, hnow ▸ h⟩

theorem throughout_stop {e : ε} (h : Q (.error e) s) :
    Throughout I (Prog.stop e : Prog ε (Passage σ) α) s Q := by
  intro p hnow hpassed
  exact ⟨rfl, hpassed, hnow ▸ h⟩

theorem throughout_look {Q : Except ε σ → σ → Prop} (h : Q (.ok s) s) :
    Throughout I (look : Prog ε (Passage σ) σ) s Q := by
  intro p hnow hpassed
  subst hnow
  exact ⟨rfl, hpassed, h⟩

theorem throughout_step {f : σ → σ} {Q : Except ε Unit → σ → Prop} (hI : I (f s))
    (h : Q (.ok ()) (f s)) : Throughout I (step f : Prog ε (Passage σ) Unit) s Q := by
  intro p hnow hpassed
  subst hnow
  exact ⟨rfl, List.forall_mem_cons.mpr ⟨hI, hpassed⟩, h⟩

/-- Sequencing: where the first program stops, its outcome is the outcome of both. -/
theorem throughout_bind {f : α → Prog ε (Passage σ) β} {R : Except ε β → σ → Prop}
    (hm : Throughout I m s Q) (hok : ∀ a t, Q (.ok a) t → Throughout I (f a) t R)
    (hstop : ∀ e t, Q (.error e) t → R (.error e) t) : Throughout I (m >>= f) s R := by
  intro p hnow hpassed
  obtain ⟨hfirst, hI, hQ⟩ := hm p hnow hpassed
  rw [Prog.bind_apply]
  rcases hrun : m p with ⟨e | a, t⟩
  · rw [hrun] at hfirst hI hQ
    exact ⟨hfirst, hI, hstop e _ hQ⟩
  · rw [hrun] at hfirst hI hQ
    obtain ⟨hfirst', hI', hR⟩ := hok a t.now hQ t rfl hI
    exact ⟨hfirst'.trans hfirst, hI', hR⟩

/-- A step in front of a program. -/
theorem throughout_step_bind {f : σ → σ} {g : Unit → Prog ε (Passage σ) β}
    {R : Except ε β → σ → Prop} (hI : I (f s)) (h : Throughout I (g ()) (f s) R) :
    Throughout I (step f >>= g) s R := by
  refine throughout_bind (throughout_step (Q := fun r t => r = .ok () ∧ t = f s) hI ⟨rfl, rfl⟩)
    (fun _ t ht => ?_) (fun e t ht => ?_)
  · rw [ht.2]
    exact h
  · cases ht.1

/-- A program that looks at the state first. -/
theorem throughout_look_bind {g : σ → Prog ε (Passage σ) β} {R : Except ε β → σ → Prop}
    (h : Throughout I (g s) s R) : Throughout I (look >>= g) s R := by
  refine throughout_bind (throughout_look (Q := fun r t => r = .ok s ∧ t = s) ⟨rfl, rfl⟩)
    (fun a t ht => ?_) (fun e t ht => ?_)
  · rw [ht.2, Except.ok.inj ht.1]
    exact h
  · cases ht.1

/-- A triple for the run that starts here. -/
theorem Throughout.run (h : Throughout I m s Q) :
    (∀ t ∈ (m ⟨s, []⟩).2.passed, I t) ∧ Q (m ⟨s, []⟩).1 (m ⟨s, []⟩).2.now ∧
      ((m ⟨s, []⟩).2.passed = [] → (m ⟨s, []⟩).2.now = s) := by
  obtain ⟨hfirst, hI, hQ⟩ := h ⟨s, []⟩ rfl (fun t ht => absurd ht List.not_mem_nil)
  refine ⟨hI, hQ, fun hnil => ?_⟩
  rw [now, hnil]
  exact hfirst

end Passage
