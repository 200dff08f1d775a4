import Mathlib.Data.List.Nodup
import Mathlib.Data.List.Perm.Basic

/-!
# Linked lists

A list whose elements are found through handles. A handle stays with its
element when other elements come, go or move, as an iterator of a linked list
does. Lists that are kept in the order in which their elements were last used.
-/

namespace ScratchDb

universe u

/-- The elements with their handles; new handles are counted up from `next`. -/
structure LinkedList (α : Type u) where
  nodes : List (Nat × α)
  next : Nat
  distinct : (nodes.map Prod.fst).Nodup
  below : ∀ node ∈ nodes, node.1 < next

namespace LinkedList

variable {α : Type u}

def empty : LinkedList α := ⟨[], 0, List.nodup_nil, fun _ h => absurd h List.not_mem_nil⟩

def values (l : LinkedList α) : List α := l.nodes.map Prod.snd

/-- The element at a handle. -/
def get? (l : LinkedList α) (handle : Nat) : Option α :=
  (l.nodes.find? fun node => decide (node.1 = handle)).map Prod.snd

/-- The handle of the first element, or the one behind the last. -/
def front (l : LinkedList α) : Nat := (l.nodes.head?.map Prod.fst).getD l.next

def pushFront (l : LinkedList α) (a : α) : LinkedList α where
  nodes := (l.next, a) :: l.nodes
  next := l.next + 1
  distinct := by
    refine List.nodup_cons.mpr ⟨fun hmem => ?_, l.distinct⟩
    obtain ⟨node, hnode, heq⟩ := List.mem_map.mp hmem
    exact absurd heq (Nat.ne_of_lt (l.below node hnode))
  below node h := by
    rcases List.mem_cons.mp h with rfl | h
    · exact Nat.lt_succ_self _
    · exact Nat.lt_succ_of_lt (l.below node h)

def erase (l : LinkedList α) (handle : Nat) : LinkedList α where
  nodes := l.nodes.filter fun node => decide (node.1 ≠ handle)
  next := l.next
  distinct := l.distinct.sublist (List.filter_sublist.map _)
  below node h := l.below node (List.mem_of_mem_filter h)

/-- The element at a handle moves to the front. -/
def splice (l : LinkedList α) (handle : Nat) : LinkedList α where
  nodes := (l.nodes.filter fun node => decide (node.1 = handle)) ++
    l.nodes.filter fun node => decide (node.1 ≠ handle)
  next := l.next
  distinct := by
    have hperm := (List.filter_append_perm (fun node => decide (node.1 = handle)) l.nodes).map Prod.fst
    simp only [← decide_not] at hperm
    exact hperm.nodup_iff.mpr l.distinct
  below node h := by
    rcases List.mem_append.mp h with h | h
    · exact l.below node (List.mem_of_mem_filter h)
    · exact l.below node (List.mem_of_mem_filter h)

section

variable {l : LinkedList α} {a b : α} {handle other : Nat}

theorem get?_eq_some_iff : l.get? handle = some a ↔ (handle, a) ∈ l.nodes := by
  constructor
  · intro h
    obtain ⟨node, hfind, rfl⟩ := Option.map_eq_some_iff.mp h
    have hhandle : node.1 = handle := by simpa using List.find?_some hfind
    rw [← hhandle]
    exact List.mem_of_find?_eq_some hfind
  · intro h
    rw [get?]
    cases hfind : l.nodes.find? fun node => decide (node.1 = handle) with
    | none =>
      have hnot := List.find?_eq_none.mp hfind _ h
      exact absurd (decide_eq_true rfl) hnot
    | some node =>
      have hhandle : node.1 = handle := by simpa using List.find?_some hfind
      have hmem := List.mem_of_find?_eq_some hfind
      rw [List.inj_on_of_nodup_map l.distinct hmem h hhandle]
      rfl

theorem mem_values_iff : a ∈ l.values ↔ ∃ handle, l.get? handle = some a := by
  rw [values, List.mem_map]
  constructor
  · rintro ⟨⟨handle, b⟩, hnode, rfl⟩
    exact ⟨handle, get?_eq_some_iff.mpr hnode⟩
  · rintro ⟨handle, h⟩
    exact ⟨(handle, a), get?_eq_some_iff.mp h, rfl⟩

/-! ## Elements that come -/

@[simp] theorem values_empty : (empty : LinkedList α).values = [] := rfl

@[simp] theorem values_pushFront (l : LinkedList α) (a : α) :
    (l.pushFront a).values = a :: l.values := rfl

@[simp] theorem front_pushFront (l : LinkedList α) (a : α) : (l.pushFront a).front = l.next := rfl

theorem get?_pushFront_front : (l.pushFront a).get? (l.pushFront a).front = some a :=
  get?_eq_some_iff.mpr List.mem_cons_self

theorem get?_pushFront (h : l.get? handle = some b) : (l.pushFront a).get? handle = some b :=
  get?_eq_some_iff.mpr (List.mem_cons_of_mem _ (get?_eq_some_iff.mp h))

/-! ## Elements that go -/

theorem get?_erase_of_ne (h : l.get? other = some b) (hne : other ≠ handle) :
    (l.erase handle).get? other = some b :=
  get?_eq_some_iff.mpr (List.mem_filter.mpr ⟨get?_eq_some_iff.mp h, decide_eq_true hne⟩)

/-- The other elements of a list without repetitions. -/
theorem values_erase (h : l.get? handle = some a) (hnodup : l.values.Nodup) [DecidableEq α] :
    (l.erase handle).values = l.values.erase a := by
  have hmem := get?_eq_some_iff.mp h
  rw [hnodup.erase_eq_filter, values, values, List.filter_map]
  refine congrArg (List.map Prod.snd) (List.filter_congr fun node hnode => ?_)
  have hsame : node.1 = handle ↔ node.2 = a := by
    constructor
    · intro hhandle
      exact congrArg Prod.snd (List.inj_on_of_nodup_map l.distinct hnode hmem hhandle)
    · intro hvalue
      exact congrArg Prod.fst (List.inj_on_of_nodup_map hnodup hnode hmem hvalue)
  by_cases hvalue : node.2 = a <;> simp [hsame, hvalue]

/-! ## Elements that move -/

theorem get?_splice (h : l.get? other = some b) : (l.splice handle).get? other = some b := by
  have hmem := get?_eq_some_iff.mp h
  refine get?_eq_some_iff.mpr (List.mem_append.mpr ?_)
  by_cases heq : other = handle
  · exact .inl (List.mem_filter.mpr ⟨hmem, decide_eq_true heq⟩)
  · exact .inr (List.mem_filter.mpr ⟨hmem, decide_eq_true heq⟩)

theorem nodes_splice (h : l.get? handle = some a) :
    (l.splice handle).nodes = (handle, a) :: (l.erase handle).nodes := by
  refine congrArg (· ++ (l.erase handle).nodes) (?_ : _ = [(handle, a)])
  obtain ⟨before, after, hsplit⟩ := List.append_of_mem (get?_eq_some_iff.mp h)
  have hdistinct := l.distinct
  rw [hsplit, List.map_append, List.map_cons] at hdistinct
  obtain ⟨-, hafter, hdisjoint⟩ := List.nodup_append.mp hdistinct
  have hnone : ∀ nodes : List (Nat × α), handle ∉ nodes.map Prod.fst →
      (nodes.filter fun node => decide (node.1 = handle)) = [] := by
    intro nodes hnot
    refine List.filter_eq_nil_iff.mpr fun node hnode heq => hnot ?_
    rw [← of_decide_eq_true heq]
    exact List.mem_map_of_mem hnode
  rw [hsplit, List.filter_append, List.filter_cons_of_pos (by simp),
    hnone before fun hmem => hdisjoint _ hmem _ List.mem_cons_self rfl,
    hnone after (List.nodup_cons.mp hafter).1, List.nil_append]

theorem front_splice (h : l.get? handle = some a) : (l.splice handle).front = handle := by
  rw [front, nodes_splice h]
  rfl

theorem values_splice (h : l.get? handle = some a) (hnodup : l.values.Nodup) [DecidableEq α] :
    (l.splice handle).values = a :: l.values.erase a := by
  rw [← values_erase h hnodup, values, nodes_splice h]
  rfl

end

end LinkedList

/-! ## The order of the last uses -/

section

variable {α : Type u} {uses keys keys' : List α} {a b : α}

/-- `b` was used after the last use of `a`. -/
def UsedAfter (uses : List α) (a b : α) : Prop :=
  ∃ before after, uses = before ++ a :: after ∧ a ∉ after ∧ b ∈ after

/-- The keys, the one used last first. -/
structure Recent (uses keys : List α) : Prop where
  used : ∀ a ∈ keys, a ∈ uses
  ordered : keys.Pairwise fun b a => UsedAfter uses a b

theorem exists_last_use (h : a ∈ uses) : ∃ before after, uses = before ++ a :: after ∧ a ∉ after := by
  induction uses with
  | nil => cases h
  | cons b uses ih =>
    by_cases hlater : a ∈ uses
    · obtain ⟨before, after, rfl, hnot⟩ := ih hlater
      exact ⟨b :: before, after, rfl, hnot⟩
    · rcases List.mem_cons.mp h with rfl | h
      · exact ⟨[], uses, rfl, hlater⟩
      · exact absurd h hlater

theorem UsedAfter.of_last (h : a ∈ uses) (hne : a ≠ b) : UsedAfter (uses ++ [b]) a b := by
  obtain ⟨before, after, rfl, hnot⟩ := exists_last_use h
  refine ⟨before, after ++ [b], by rw [List.append_assoc, List.cons_append], ?_, ?_⟩
  · rw [List.mem_append, List.mem_singleton, not_or]
    exact ⟨hnot, hne⟩
  · exact List.mem_append_right _ (List.mem_singleton_self b)

theorem UsedAfter.concat {c : α} (h : UsedAfter uses a b) (hne : a ≠ c) :
    UsedAfter (uses ++ [c]) a b := by
  obtain ⟨before, after, rfl, hnot, hmem⟩ := h
  refine ⟨before, after ++ [c], by rw [List.append_assoc, List.cons_append], ?_, ?_⟩
  · rw [List.mem_append, List.mem_singleton, not_or]
    exact ⟨hnot, hne⟩
  · exact List.mem_append_left _ hmem

theorem Recent.nil (uses : List α) : Recent uses [] :=
  ⟨fun _ h => absurd h List.not_mem_nil, .nil⟩

theorem Recent.sublist (h : Recent uses keys) (hsub : keys'.Sublist keys) : Recent uses keys' :=
  ⟨fun a ha => h.used a (hsub.subset ha), h.ordered.sublist hsub⟩

/-- A key that is used comes to the front. -/
theorem Recent.use (h : Recent uses keys) (hnot : a ∉ keys) : Recent (uses ++ [a]) (a :: keys) := by
  refine ⟨fun b hb => ?_, List.pairwise_cons.mpr ⟨fun b hb => ?_, ?_⟩⟩
  · rcases List.mem_cons.mp hb with rfl | hb
    · exact List.mem_append_right _ (List.mem_singleton_self b)
    · exact List.mem_append_left _ (h.used b hb)
  · exact .of_last (h.used b hb) fun heq => hnot (heq ▸ hb)
  · refine h.ordered.imp_of_mem fun {b c} _ hc hbc => hbc.concat fun heq => hnot (heq ▸ hc)

end

end ScratchDb
