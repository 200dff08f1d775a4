import Mathlib.Logic.Function.Basic
import ScratchDb.Storage.Compaction

/-!
# Pages as slot maps

A page is a map from slots to records: what each operation does to it, and
that after any run of operations from a blank page every slot reads as the
last record that was stored in it.
-/

namespace ScratchDb

namespace Page

/-- The map of a page after `i` was given `r`. -/
def Reads (p q : Page) (i : Nat) (r : Option Bytes) : Prop :=
  ∀ j, q.read j = if j = i then r else p.read j

/-! ## Parts of the operations -/

theorem placed_blank : blank.Placed ∧ blank.slotCount = 0 ∧ blank.pageLsn = 0 := by
  have hheader : blank.header = ⟨0, pageSize, 0⟩ :=
    header_writeHeader _ ⟨by decide, by decide, by decide⟩
  have hcount : blank.slotCount = 0 := by rw [slotCount, hheader]
  refine ⟨⟨?_, ?_, ?_, fun i hi => ?_, fun i _ hi => ?_⟩, hcount, ?_⟩
  · rw [hcount]
    exact Nat.zero_le _
  · rw [hcount, hheader]
    decide
  · rw [hheader]
  · exact absurd hi.1 (by rw [hcount]; exact Nat.not_lt_zero i)
  · exact absurd hi.1 (by rw [hcount]; exact Nat.not_lt_zero i)
  · rw [Page.pageLsn, hheader]

/-- A record of the same length is written over the old one. -/
theorem Placed.copy_record {p : Page} (h : p.Placed) {i : Nat} {r : Bytes} (hi : p.Live i)
    (hlen : r.length = (p.slot i).size) :
    (p.copy (p.slot i).offset r).Placed ∧ p.Reads (p.copy (p.slot i).offset r) i (some r) ∧
      (p.copy (p.slot i).offset r).pageLsn = p.pageLsn := by
  have hbounds := h.inside i hi
  have hslots := h.slots
  have hdir := h.directory
  have hend := directoryEnd_eq p.slotCount
  have hheader : (p.copy (p.slot i).offset r).header = p.header := header_copy p r (by omega)
  have hcount : (p.copy (p.slot i).offset r).slotCount = p.slotCount := by
    rw [slotCount, slotCount, hheader]
  have hslot : ∀ j < p.slotCount, (p.copy (p.slot i).offset r).slot j = p.slot j := fun j hj => by
    have := directoryEnd_eq (j + 1)
    exact slot_copy p r (by omega) (by omega)
  have hlive : ∀ j, (p.copy (p.slot i).offset r).Live j ↔ p.Live j := fun j => by
    rw [Live, Live, hcount]
    exact and_congr_right fun hj => by rw [hslot j hj]
  have hplaced : (p.copy (p.slot i).offset r).Placed :=
    h.of_slots hcount (congrArg PageHeader.freeSpaceEnd hheader) fun j hj =>
      ⟨(hlive j).mp hj, hslot j ((hlive j).mp hj).1⟩
  refine ⟨hplaced, fun j => ?_, congrArg PageHeader.pageLsn hheader⟩
  split
  · rename_i hji
    subst hji
    rw [hplaced.read_of_live ((hlive j).mpr hi), hslot j hi.1, ← hlen, slice_copy_self p (by omega)]
  · rename_i hji
    refine h.read_congr hplaced (hlive j) fun hj => ?_
    have happart := h.apart j i hj hi hji
    rw [hslot j hj.1]
    exact slice_copy_of_disjoint p (by rw [hlen]; exact happart)

theorem Placed.setPageLsn {p : Page} (h : p.Placed) {lsn : Nat} (hlsn : lsn < 2 ^ 64) :
    (p.setPageLsn lsn).Placed ∧ ∀ i, (p.setPageLsn lsn).read i = p.read i := by
  have hslots := h.slots
  have hheader := p.header_setPageLsn hlsn
  have hcount : (p.setPageLsn lsn).slotCount = p.slotCount := by
    rw [slotCount, hheader, slotCount]
  have hslot : ∀ j < p.slotCount, (p.setPageLsn lsn).slot j = p.slot j := fun j hj =>
    slot_setPageLsn p lsn (by omega)
  have hlive : ∀ j, (p.setPageLsn lsn).Live j ↔ p.Live j := fun j => by
    rw [Live, Live, hcount]
    exact and_congr_right fun hj => by rw [hslot j hj]
  have hplaced : (p.setPageLsn lsn).Placed :=
    h.of_slots hcount (by rw [hheader]) fun j hj => ⟨(hlive j).mp hj, hslot j ((hlive j).mp hj).1⟩
  refine ⟨hplaced, fun i => h.read_congr hplaced (hlive i) fun hi => ?_⟩
  have hbounds := h.inside i hi
  have hdir := h.directory
  have hend := directoryEnd_eq p.slotCount
  rw [hslot i hi.1]
  exact slice_congr fun k h1 _ => p.get_setPageLsn_of_outside lsn (by omega)

/-- A record is stored in a free slot. -/
theorem Placed.placeRecord {p : Page} (h : p.Placed) {i : Nat} {r : Bytes} {newSlot : Bool}
    (hroom : p.Room i r newSlot) :
    (p.placeRecord i r newSlot).Placed ∧ p.Reads (p.placeRecord i r newSlot) i (some r) ∧
      (p.placeRecord i r newSlot).pageLsn = p.pageLsn := by
  obtain ⟨hplaced, hreads⟩ := (h.stored_placeRecord hroom).placed h
  exact ⟨hplaced, hreads, pageLsn_placeRecord p i r newSlot⟩

/-! ## The operations -/

/-- The first slot without a record. -/
def LowestFree (p : Page) (i : Nat) : Prop := p.read i = none ∧ ∀ j < i, p.read j ≠ none

theorem firstFreeSlot_eq_some {p : Page} {count i s : Nat}
    (h : p.firstFreeSlot count i = some s) :
    i ≤ s ∧ s < i + count ∧ (p.slot s).size = 0 ∧ ∀ j, i ≤ j → j < s → (p.slot j).size ≠ 0 := by
  induction count generalizing i with
  | zero => cases h
  | succ count ih =>
    rw [firstFreeSlot] at h
    split at h
    · rename_i hdead
      cases h
      exact ⟨Nat.le_refl _, by omega, hdead, fun j h1 h2 => by omega⟩
    · rename_i hlive
      obtain ⟨h1, h2, h3, h4⟩ := ih h
      refine ⟨by omega, by omega, h3, fun j hj hjs => ?_⟩
      by_cases heq : j = i
      · rwa [heq]
      · exact h4 j (by omega) hjs

theorem firstFreeSlot_eq_none {p : Page} {count i : Nat} (h : p.firstFreeSlot count i = none) :
    ∀ j, i ≤ j → j < i + count → (p.slot j).size ≠ 0 := by
  induction count generalizing i with
  | zero => exact fun j h1 h2 => by omega
  | succ count ih =>
    rw [firstFreeSlot] at h
    split at h
    · cases h
    · rename_i hlive
      intro j hj hjs
      by_cases heq : j = i
      · rwa [heq]
      · exact ih h j (by omega) (by omega)

/-- `insert` takes the lowest free slot. -/
theorem Placed.lowestFree {p : Page} (h : p.Placed) :
    p.LowestFree ((p.firstFreeSlot p.slotCount 0).getD p.slotCount) := by
  cases hfree : p.firstFreeSlot p.slotCount 0 with
  | none =>
    have hall := firstFreeSlot_eq_none hfree
    refine ⟨read_of_not_live fun hlive => Nat.lt_irrefl _ hlive.1, fun j hj hnone => ?_⟩
    rw [Option.getD_none] at hj
    exact h.read_eq_none_iff.mp hnone ⟨hj, hall j (Nat.zero_le j) (by omega)⟩
  | some s =>
    obtain ⟨-, hs, hdead, hbefore⟩ := firstFreeSlot_eq_some hfree
    rw [Option.getD_some]
    refine ⟨read_of_not_live fun hlive => hlive.2 hdead, fun j hj hnone => ?_⟩
    exact h.read_eq_none_iff.mp hnone ⟨by omega, hbefore j (Nat.zero_le j) hj⟩

theorem Placed.room {p : Page} (h : p.Placed) {i : Nat} {r : Bytes} {newSlot : Bool}
    (hne : r ≠ []) (hfree : p.read i = none)
    (htarget : if newSlot then i = p.slotCount ∧ i < maxSlots else i < p.slotCount)
    (hspace : r.length + (if newSlot then slotSize else 0) ≤ p.contiguousFreeSpace) :
    p.Room i r newSlot := by
  have hlen := List.length_pos_iff.mpr hne
  have hend := directoryEnd_eq p.slotCount
  have hend' := directoryEnd_eq (p.slotCount + newSlot.toNat)
  have hslot : slotSize = 4 := rfl
  refine ⟨hne, h.read_eq_none_iff.mp hfree, htarget, ?_⟩
  rw [h.contiguousFreeSpace] at hspace
  cases newSlot with
  | false =>
    rw [if_neg (by simp)] at hspace
    rw [Bool.toNat_false] at hend' ⊢
    omega
  | true =>
    rw [if_pos rfl] at hspace
    rw [Bool.toNat_true] at hend' ⊢
    omega

/-- What an operation did that stored `r` in slot `i`, or removed the record there. -/
structure Changed (p q : Page) (i : Nat) (r : Option Bytes) : Prop where
  placed : q.Placed
  reads : p.Reads q i r
  pageLsn : q.pageLsn = p.pageLsn

/-- What an operation did that changed no record. -/
structure Kept (p q : Page) : Prop where
  placed : q.Placed
  reads : ∀ i, q.read i = p.read i
  pageLsn : q.pageLsn = p.pageLsn

theorem Placed.kept_compact {p : Page} (h : p.Placed) : p.Kept p.compact :=
  ⟨h.compact.1, h.compact.2.2, p.pageLsn_compact⟩

theorem Placed.kept_self {p : Page} (h : p.Placed) : p.Kept p := ⟨h, fun _ => rfl, rfl⟩

/-- Storing `r` in slot `i` of a page that reads like `p`. -/
theorem Kept.place {p q : Page} (hq : p.Kept q) {i : Nat} {r : Bytes} {newSlot : Bool}
    (hne : r ≠ []) (hfree : p.read i = none)
    (htarget : if newSlot then i = q.slotCount ∧ i < maxSlots else i < q.slotCount)
    (hspace : r.length + (if newSlot then slotSize else 0) ≤ q.contiguousFreeSpace) :
    p.Changed (q.placeRecord i r newSlot) i (some r) := by
  have hroom := hq.placed.room hne ((hq.reads i).trans hfree) htarget hspace
  obtain ⟨hplaced, hreads, hlsn⟩ := hq.placed.placeRecord hroom
  refine ⟨hplaced, fun j => ?_, hlsn.trans hq.pageLsn⟩
  rw [hreads j, hq.reads j]

/-- What `insert` answers, and what it has done. -/
structure Inserted (p : Page) (r : Bytes) (result : Option Nat × Page) : Prop where
  stored : ∀ i, result.1 = some i → p.LowestFree i ∧ p.Changed result.2 i (some r)
  failed : result.1 = none → p.Kept result.2

theorem inserted_of_kept {p q : Page} {r : Bytes} (h : p.Kept q) : p.Inserted r (none, q) :=
  ⟨fun _ hi => absurd hi (by simp), fun _ => h⟩

theorem inserted_of_changed {p q : Page} {i : Nat} {r : Bytes} (hfree : p.LowestFree i)
    (h : p.Changed q i (some r)) : p.Inserted r (some i, q) := by
  refine ⟨fun j hj => ?_, fun hnone => absurd hnone (by simp)⟩
  cases hj
  exact ⟨hfree, h⟩

/-- The end of `insert`: the record is stored if it has room, in the page as it is or packed. -/
theorem Placed.inserted_place {p : Page} (h : p.Placed) {i : Nat} {r : Bytes} {newSlot : Bool}
    (hne : r ≠ []) (hfree : p.LowestFree i)
    (htarget : if newSlot then i = p.slotCount ∧ i < maxSlots else i < p.slotCount) :
    p.Inserted r
      (if p.contiguousFreeSpace < r.length + (if newSlot then slotSize else 0) then
        if p.compact.contiguousFreeSpace < r.length + (if newSlot then slotSize else 0) then
          (none, p.compact)
        else (some i, p.compact.placeRecord i r newSlot)
      else (some i, p.placeRecord i r newSlot)) := by
  generalize hneeded : r.length + (if newSlot then slotSize else 0) = neededBytes
  by_cases hspace : p.contiguousFreeSpace < neededBytes
  · rw [if_pos hspace]
    by_cases hpacked : p.compact.contiguousFreeSpace < neededBytes
    · rw [if_pos hpacked]
      exact inserted_of_kept h.kept_compact
    · rw [if_neg hpacked]
      refine inserted_of_changed hfree (h.kept_compact.place hne hfree.1 ?_ (by omega))
      rw [h.compact.2.1]
      exact htarget
  · rw [if_neg hspace]
    exact inserted_of_changed hfree (h.kept_self.place hne hfree.1 htarget (by omega))

theorem Placed.insert {p : Page} (h : p.Placed) (r : Bytes) : p.Inserted r (p.insert r) := by
  have hslots := h.slots
  have hlowest := h.lowestFree
  have hcount : p.header.slotCount = p.slotCount := rfl
  rw [Page.insert]
  by_cases hne : r = []
  · rw [hne, List.isEmpty_nil, Bool.true_or, if_pos rfl]
    exact inserted_of_kept h.kept_self
  · have hempty : r.isEmpty = false := by simpa using hne
    rw [hempty, h.hasValidLayout, Bool.not_true, Bool.or_false, if_neg Bool.false_ne_true]
    dsimp only
    rw [hcount]
    cases hfree : p.firstFreeSlot p.slotCount 0 with
    | none =>
      rw [hfree, Option.getD_none] at hlowest
      simp only [Option.isNone_none, Option.isSome_none, Bool.true_and, Option.getD_none,
        Bool.false_eq_true, if_false, beq_iff_eq]
      split
      · exact inserted_of_kept h.kept_self
      · rename_i hfull
        exact @Placed.inserted_place p h _ r true hne hlowest ⟨rfl, by omega⟩
    | some s =>
      rw [hfree, Option.getD_some] at hlowest
      have hs := (firstFreeSlot_eq_some hfree).2.1
      simp only [Option.isNone_some, Option.isSome_some, Bool.false_and, Option.getD_some,
        Bool.false_eq_true, if_false, if_true]
      have hs' : s < p.slotCount := by omega
      exact @Placed.inserted_place p h s r false hne hlowest hs'

/-- What `remove` and `update` answer, and what they have done with slot `i`. -/
structure Answered (p : Page) (i : Nat) (r : Option Bytes) (result : Bool × Page) : Prop where
  done : result.1 = true → p.read i ≠ none ∧ p.Changed result.2 i r
  failed : result.1 = false → p.Kept result.2

theorem Placed.answered_false {p : Page} (h : p.Placed) (i : Nat) (r : Option Bytes) :
    p.Answered i r (false, p) :=
  ⟨fun hdone => absurd hdone Bool.false_ne_true, fun _ => h.kept_self⟩

theorem answered_true {p q : Page} {i : Nat} {r : Option Bytes} (hread : p.read i ≠ none)
    (h : p.Changed q i r) : p.Answered i r (true, q) :=
  ⟨fun _ => ⟨hread, h⟩, fun hfailed => absurd hfailed.symm Bool.false_ne_true⟩

/-- The page without the record of a live slot. -/
theorem Placed.changed_writeSlot {p : Page} (h : p.Placed) {i : Nat} (hi : i < p.slotCount) :
    p.Changed (p.writeSlot i ⟨0, 0⟩) i none := by
  have hslots := h.slots
  obtain ⟨hplaced, hreads⟩ := h.writeSlot_zero hi
  exact ⟨hplaced, hreads, congrArg PageHeader.pageLsn (header_writeSlot p _ (by omega))⟩

theorem Placed.remove {p : Page} (h : p.Placed) (i : Nat) :
    p.Answered i none (p.remove i) := by
  rw [Page.remove, h.hasValidLayout, Bool.not_true, if_neg Bool.false_ne_true]
  by_cases hlive : p.Live i
  · have hread : p.read i ≠ none := mt h.read_eq_none_iff.mp (not_not.mpr hlive)
    have hcount : ¬ p.header.slotCount ≤ i := Nat.not_le.mpr hlive.1
    rw [if_neg (by simp [hcount, hlive.2])]
    exact answered_true hread (h.changed_writeSlot hlive.1)
  · rw [if_pos]
    · exact h.answered_false i none
    · rw [Live, slotCount] at hlive
      simp only [Bool.or_eq_true, decide_eq_true_eq, beq_iff_eq]
      omega

/-- A record that replaces one of another length is stored as in a page without that one. -/
theorem Changed.replace {p trial q : Page} {i : Nat} {r : Option Bytes}
    (htrial : p.Changed trial i none) (h : trial.Changed q i r) : p.Changed q i r := by
  refine ⟨h.placed, fun j => ?_, h.pageLsn.trans htrial.pageLsn⟩
  rw [h.reads j]
  split
  · rfl
  · rename_i hj
    rw [htrial.reads j, if_neg hj]

theorem Placed.update {p : Page} (h : p.Placed) (i : Nat) (r : Bytes) :
    p.Answered i (some r) (p.update i r) := by
  rw [Page.update, h.hasValidLayout, Bool.not_true, Bool.or_false]
  by_cases hlive : p.Live i ∧ r ≠ []
  · obtain ⟨hlive, hne⟩ := hlive
    have hread : p.read i ≠ none := mt h.read_eq_none_iff.mp (not_not.mpr hlive)
    have hcount : ¬ p.header.slotCount ≤ i := Nat.not_le.mpr hlive.1
    rw [if_neg (by simp [hcount, hne])]
    dsimp only
    rw [if_neg hlive.2]
    by_cases hsame : r.length = (p.slot i).size
    · rw [if_pos hsame]
      obtain ⟨hplaced, hreads, hlsn⟩ := h.copy_record hlive hsame
      exact answered_true hread ⟨hplaced, hreads, hlsn⟩
    · rw [if_neg hsame]
      have htrial := h.changed_writeSlot hlive.1
      have hfree : (p.writeSlot i ⟨0, 0⟩).read i = none := by
        rw [htrial.reads i, if_pos rfl]
      have hslots := h.slots
      have hi := hlive.1
      have htarget : i < (p.writeSlot i ⟨0, 0⟩).slotCount := by
        rw [slotCount_writeSlot p _ (by omega)]
        exact hi
      by_cases hspace : (p.writeSlot i ⟨0, 0⟩).contiguousFreeSpace < r.length
      · rw [if_pos hspace]
        by_cases hpacked : (p.writeSlot i ⟨0, 0⟩).compact.contiguousFreeSpace < r.length
        · rw [if_pos hpacked]
          exact h.answered_false i (some r)
        · rw [if_neg hpacked]
          have hplace := @Kept.place _ _ htrial.placed.kept_compact _ _ false hne hfree
            (by rw [htrial.placed.compact.2.1]; exact htarget) (by simpa using hpacked)
          exact answered_true hread (htrial.replace hplace)
      · rw [if_neg hspace]
        have hplace := @Kept.place _ _ htrial.placed.kept_self _ _ false hne hfree htarget
          (by simpa using hspace)
        exact answered_true hread (htrial.replace hplace)
  · by_cases hguard : (r.isEmpty || decide (i ≥ p.header.slotCount)) = true
    · rw [if_pos hguard]
      exact h.answered_false i (some r)
    · rw [if_neg hguard]
      dsimp only
      rw [if_pos]
      · exact h.answered_false i (some r)
      · rw [Live, slotCount] at hlive
        simp only [Bool.or_eq_true, List.isEmpty_iff, decide_eq_true_eq, not_or] at hguard
        by_contra hsize
        exact hlive ⟨⟨by omega, hsize⟩, hguard.1⟩

/-! ## Runs -/

/-- The operations on a page. -/
inductive Op where
  | insert (record : Bytes)
  | remove (slotId : Nat)
  | update (slotId : Nat) (record : Bytes)
  | compact
  | setPageLsn (pageLsn : UInt64)
deriving DecidableEq

/-- What an operation answers: the slot of a new record, or whether it succeeded. -/
inductive Answer where
  | inserted (slotId : Nat)
  | done
  | failed
deriving DecidableEq, Repr

def Answer.of (done : Bool) : Answer := if done then .done else .failed

def apply (p : Page) : Op → Answer × Page
  | .insert record =>
    let result := p.insert record
    ((result.1.map Answer.inserted).getD .failed, result.2)
  | .remove slotId => ((Answer.of (p.remove slotId).1), (p.remove slotId).2)
  | .update slotId record => ((Answer.of (p.update slotId record).1), (p.update slotId record).2)
  | .compact => (.done, p.compact)
  | .setPageLsn pageLsn => (.done, p.setPageLsn pageLsn.toNat)

/-- The answers to a run of operations, and the page after it. -/
def run : Page → List Op → List (Op × Answer) × Page
  | p, [] => ([], p)
  | p, op :: ops =>
    let rest := (p.apply op).2.run ops
    ((op, (p.apply op).1) :: rest.1, rest.2)

/-- The records of the slots after an operation. -/
def recordsAfter (records : Nat → Option Bytes) : Op × Answer → Nat → Option Bytes
  | (.insert record, .inserted slotId) => Function.update records slotId (some record)
  | (.remove slotId, .done) => Function.update records slotId none
  | (.update slotId record, .done) => Function.update records slotId (some record)
  | _ => records

/-- The last record that was stored in each slot and not removed. -/
def stored (log : List (Op × Answer)) : Nat → Option Bytes := log.foldl recordsAfter fun _ => none

def lsnAfter (pageLsn : Nat) : Op × Answer → Nat
  | (.setPageLsn pageLsn, _) => pageLsn.toNat
  | _ => pageLsn

/-- The `page_lsn` that was set last. -/
def lastLsn (log : List (Op × Answer)) : Nat := log.foldl lsnAfter 0

/-- The slot that an operation is about. -/
def Op.slotId : Op × Answer → Option Nat
  | (.insert _, .inserted slotId) => some slotId
  | (.remove slotId, _) => some slotId
  | (.update slotId _, _) => some slotId
  | _ => none

/-- What a caller may rely on in one operation. -/
structure Faithful (p : Page) (op : Op) (answer : Answer) (q : Page) : Prop where
  others : ∀ i, Op.slotId (op, answer) ≠ some i → q.read i = p.read i
  lowest : ∀ i, answer = .inserted i → p.LowestFree i
  failed : answer = .failed → ∀ i, q.read i = p.read i
  pageLsn : (∀ pageLsn, op ≠ .setPageLsn pageLsn) → q.pageLsn = p.pageLsn

theorem recordsAfter_of_ne {records : Nat → Option Bytes} {entry : Op × Answer} {i : Nat}
    (h : Op.slotId entry ≠ some i) : recordsAfter records entry i = records i := by
  unfold recordsAfter Op.slotId at *
  split <;> first | rfl | exact Function.update_of_ne (fun heq => h (congrArg some heq.symm)) _ _

theorem recordsAfter_failed (records : Nat → Option Bytes) (op : Op) :
    recordsAfter records (op, .failed) = records := by
  cases op <;> rfl

/-- What one operation does. -/
structure Applied (p : Page) (op : Op) (answer : Answer) (q : Page) : Prop where
  placed : q.Placed
  records : q.read = recordsAfter p.read (op, answer)
  pageLsn : q.pageLsn = lsnAfter p.pageLsn (op, answer)
  lowest : ∀ i, answer = .inserted i → p.LowestFree i

theorem Changed.read_eq {p q : Page} {i : Nat} {r : Option Bytes} (h : p.Changed q i r) :
    q.read = Function.update p.read i r := by
  funext j
  rw [h.reads j, Function.update_apply]

theorem Answered.applied {p : Page} {i : Nat} {r : Option Bytes} {op : Op} {result : Bool × Page}
    (h : p.Answered i r result)
    (hrecords : recordsAfter p.read (op, .done) = Function.update p.read i r)
    (hlsn : ∀ answer, lsnAfter p.pageLsn (op, answer) = p.pageLsn) :
    Applied p op (Answer.of result.1) result.2 := by
  cases hdone : result.1 with
  | true =>
    have hchanged := (h.done hdone).2
    exact ⟨hchanged.placed, hchanged.read_eq.trans hrecords.symm,
      hchanged.pageLsn.trans (hlsn .done).symm, fun _ hi => by cases hi⟩
  | false =>
    have hkept := h.failed hdone
    exact ⟨hkept.placed, (funext hkept.reads).trans (recordsAfter_failed _ _).symm,
      hkept.pageLsn.trans (hlsn .failed).symm, fun _ hi => by cases hi⟩

theorem Placed.apply {p : Page} (h : p.Placed) (op : Op) :
    Applied p op (p.apply op).1 (p.apply op).2 := by
  cases op with
  | insert record =>
    have hinsert := h.insert record
    cases hresult : (p.insert record).1 with
    | none =>
      have hkept := hinsert.failed hresult
      have hanswer : (p.apply (.insert record)).1 = .failed := by
        simp only [Page.apply, hresult, Option.map_none, Option.getD_none]
      rw [hanswer]
      exact ⟨hkept.placed, (funext hkept.reads).trans (recordsAfter_failed _ _).symm,
        hkept.pageLsn, fun _ hi => by cases hi⟩
    | some i =>
      obtain ⟨hfree, hchanged⟩ := hinsert.stored i hresult
      have hanswer : (p.apply (.insert record)).1 = .inserted i := by
        simp only [Page.apply, hresult, Option.map_some, Option.getD_some]
      rw [hanswer]
      refine ⟨hchanged.placed, hchanged.read_eq, hchanged.pageLsn, fun j hj => ?_⟩
      cases hj
      exact hfree
  | remove slotId => exact (h.remove slotId).applied rfl fun _ => rfl
  | update slotId record => exact (h.update slotId record).applied rfl fun _ => rfl
  | compact =>
    have hkept := h.kept_compact
    exact ⟨hkept.placed, funext hkept.reads, hkept.pageLsn, fun _ hi => by cases hi⟩
  | setPageLsn pageLsn =>
    obtain ⟨hplaced, hreads⟩ := h.setPageLsn pageLsn.toNat_lt
    refine ⟨hplaced, funext hreads, ?_, fun _ hi => by cases hi⟩
    exact (pageLsn_setPageLsn p _).trans (Nat.mod_eq_of_lt pageLsn.toNat_lt)

theorem Applied.faithful {p q : Page} {op : Op} {answer : Answer} (h : Applied p op answer q) :
    Faithful p op answer q := by
  refine ⟨fun i hi => ?_, h.lowest, fun hfailed i => ?_, fun hop => ?_⟩
  · rw [h.records, recordsAfter_of_ne hi]
  · rw [h.records, hfailed, recordsAfter_failed]
  · rw [h.pageLsn]
    cases op with
    | setPageLsn pageLsn => exact absurd rfl (hop pageLsn)
    | insert _ | remove _ | update _ _ | compact => rfl

/-- A run stores what its log says, on top of what the page held before. -/
theorem Placed.run {p : Page} (h : p.Placed) (ops : List Op) :
    (p.run ops).2.Placed ∧ (p.run ops).2.read = (p.run ops).1.foldl recordsAfter p.read ∧
      (p.run ops).2.pageLsn = (p.run ops).1.foldl lsnAfter p.pageLsn := by
  induction ops generalizing p with
  | nil => exact ⟨h, rfl, rfl⟩
  | cons op ops ih =>
    have happlied := h.apply op
    obtain ⟨hplaced, hrecords, hlsn⟩ := ih happlied.placed
    rw [happlied.records] at hrecords
    rw [happlied.pageLsn] at hlsn
    rw [Page.run]
    dsimp only
    rw [List.foldl_cons, List.foldl_cons]
    exact ⟨hplaced, hrecords, hlsn⟩

/-- The page is the map of its slots that the run has made. -/
structure SlotMap (log : List (Op × Answer)) (p : Page) : Prop where
  placed : p.Placed
  records : ∀ i, p.read i = stored log i
  pageLsn : p.pageLsn = lastLsn log
  next : ∀ op, Faithful p op (p.apply op).1 (p.apply op).2

/-- After any run of operations a fresh page is the map from slots to the records stored last. -/
theorem slotMap_run (ops : List Op) : SlotMap (blank.run ops).1 (blank.run ops).2 := by
  obtain ⟨hblank, hcount, hlsn⟩ := placed_blank
  have hempty : blank.read = fun _ => none := funext fun i =>
    read_of_not_live fun hlive => Nat.not_lt_zero i (hcount ▸ hlive.1)
  obtain ⟨hplaced, hrecords, hlast⟩ := hblank.run ops
  rw [hempty] at hrecords
  rw [hlsn] at hlast
  exact ⟨hplaced, congrFun hrecords, hlast, fun op => (hplaced.apply op).faithful⟩

end Page

end ScratchDb
