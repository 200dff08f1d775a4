import Mathlib.Data.List.Basic

/-!
# Accesses to a buffer

Computations that note which bytes of a buffer they touch and which numbers they
narrow. A computation is safe if the bytes lie in the buffer and the numbers fit;
a sequence is safe exactly if its parts are.
-/

namespace Accesses

inductive Event where
  /-- `size` bytes from `offset` on, in a buffer of `limit` bytes -/
  | access (offset size limit : Nat)
  /-- a number that is cast to a type of `bound` values -/
  | cast (n bound : Nat)
deriving DecidableEq, Repr

def Event.Safe : Event → Prop
  | .access offset size limit => offset + size ≤ limit
  | .cast n bound => n < bound

structure Logged (A : Type) where
  value : A
  log : List Event

namespace Logged

variable {A B : Type}

instance : Monad Logged where
  pure a := ⟨a, []⟩
  bind x f := ⟨(f x.value).value, x.log ++ (f x.value).log⟩

/-- The result of an access. -/
def touch (offset size limit : Nat) (value : A) : Logged A := ⟨value, [.access offset size limit]⟩

/-- A number as the type holds it. -/
def narrow (n bound : Nat) : Logged Nat := ⟨n % bound, [.cast n bound]⟩

def Safe (x : Logged A) : Prop := ∀ e ∈ x.log, e.Safe

@[simp] theorem value_pure (a : A) : (pure a : Logged A).value = a := (rfl)

@[simp] theorem value_bind (x : Logged A) (f : A → Logged B) :
    (x >>= f).value = (f x.value).value := (rfl)

@[simp] theorem value_touch (offset size limit : Nat) (a : A) :
    (touch offset size limit a).value = a := (rfl)

@[simp] theorem value_narrow (n bound : Nat) : (narrow n bound).value = n % bound := (rfl)

@[simp] theorem value_ite {c : Prop} [Decidable c] (x y : Logged A) :
    (if c then x else y).value = if c then x.value else y.value := by
  split <;> rfl

@[simp] theorem safe_pure (a : A) : (pure a : Logged A).Safe := by
  intro b hb
  cases hb

@[simp] theorem safe_bind {x : Logged A} {f : A → Logged B} :
    (x >>= f).Safe ↔ x.Safe ∧ (f x.value).Safe := List.forall_mem_append

@[simp] theorem safe_touch {offset size limit : Nat} {a : A} :
    (touch offset size limit a).Safe ↔ offset + size ≤ limit := by
  constructor
  · exact fun h => h (.access offset size limit) (List.mem_singleton_self _)
  · intro h b hb
    cases List.mem_singleton.mp hb
    exact h

@[simp] theorem safe_narrow {n bound : Nat} : (narrow n bound).Safe ↔ n < bound := by
  constructor
  · exact fun h => h (.cast n bound) (List.mem_singleton_self _)
  · intro h b hb
    cases List.mem_singleton.mp hb
    exact h

theorem safe_ite {c : Prop} [Decidable c] {x y : Logged A} :
    (if c then x else y).Safe ↔ (c → x.Safe) ∧ (¬ c → y.Safe) := by
  split
  · rename_i hc
    exact ⟨fun h => ⟨fun _ => h, fun hn => absurd hc hn⟩, fun h => h.1 hc⟩
  · rename_i hc
    exact ⟨fun h => ⟨fun hy => absurd hy hc, fun _ => h⟩, fun h => h.2 hc⟩

end Logged

end Accesses
