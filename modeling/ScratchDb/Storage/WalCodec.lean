import ScratchDb.Storage.WalRecord

/-!
# Reading the log back

`read_all_records` inverts `append_record` record by record, stops at a torn
tail, and is blind to everything behind one: the reopened file is appended to
as it is.
-/

namespace ScratchDb

open LittleEndian WalFile

/-! ## Fields of one record -/

namespace WalRecord

@[simp] theorem length_header (r : WalRecord) : r.header.length = walHeaderSize := by
  simp [header, walHeaderSize]

@[simp] theorem length_encodeIds (ids : List Nat) : (encodeIds ids).length = 8 * ids.length := by
  induction ids with
  | nil => rfl
  | cons id ids ih =>
      simp only [encodeIds, List.length_append, length_encode, ih, List.length_cons]
      omega

theorem length_body (r : WalRecord) : r.body.length = r.tableFile.length +
    r.beforeImage.length + r.afterImage.length + 8 * r.activeTransactions.length := by
  simp only [body, List.length_append, length_encodeIds]

theorem length_toBytes (r : WalRecord) : r.toBytes.length = walHeaderSize + r.body.length := by
  simp [toBytes]

theorem length_toBytes_pos (r : WalRecord) : 0 < r.toBytes.length := by
  rw [length_toBytes]
  simp [walHeaderSize]

end WalRecord

namespace WalFile

theorem field_append_left {a b : Bytes} {off size : Nat} (h : off + size ≤ a.length) :
    field (a ++ b) off size = field a off size := by
  rw [field, field, List.drop_append_of_le_length (by omega), List.take_append_of_le_length]
  rw [List.length_drop]
  omega

theorem field_append_right {a b : Bytes} {off size : Nat} (h : a.length ≤ off) :
    field (a ++ b) off size = field b (off - a.length) size := by
  rw [field, field, List.drop_append, List.drop_eq_nil_of_le h, List.nil_append]

theorem field_self {a : Bytes} {size : Nat} (h : a.length = size) : field a 0 size = a := by
  rw [field, List.drop_zero, ← h, List.take_length]

theorem field_middle {a b : Bytes} {off size : Nat} (ha : a.length = off) (hb : b.length = size) :
    field (a ++ b) off size = b := by
  rw [field_append_right (by omega), ha, Nat.sub_self, field_self hb]

theorem readUint_of_field {bytes b : Bytes} {off size v : Nat} (h : field bytes off size = b)
    (hv : decode b = v) : readUint bytes off size = v := by
  rw [readUint, h, hv]

theorem readUint_magic (r : WalRecord) : readUint r.header 0 4 = walMagic := by
  refine readUint_of_field (b := encode 4 walMagic) ?_ (decode_encode (by decide))
  simp (disch := simp) only [WalRecord.header, field_append_left, field_self]

section Fields

variable {r : WalRecord} (hr : r.Encodable)

include hr

theorem readUint_type : readUint r.header 4 2 = r.type.code := by
  refine readUint_of_field (b := encode 2 r.type.code) ?_ (decode_encode (WalRecordType.code_lt hr.named))
  simp (disch := simp) only [WalRecord.header, field_append_left, field_middle]

theorem readUint_lsn : readUint r.header 6 8 = r.lsn := by
  refine readUint_of_field (b := encode 8 r.lsn) ?_ (decode_encode hr.lsn)
  simp (disch := simp) only [WalRecord.header, field_append_left, field_middle]

theorem readUint_transactionId : readUint r.header 14 8 = r.transactionId := by
  refine readUint_of_field (b := encode 8 r.transactionId) ?_ (decode_encode hr.transactionId)
  simp (disch := simp) only [WalRecord.header, field_append_left, field_middle]

theorem readUint_pageId : readUint r.header 22 4 = r.pageId := by
  refine readUint_of_field (b := encode 4 r.pageId) ?_ (decode_encode hr.pageId)
  simp (disch := simp) only [WalRecord.header, field_append_left, field_middle]

theorem readUint_tableFileSize : readUint r.header 26 4 = r.tableFile.length := by
  refine readUint_of_field (b := encode 4 r.tableFile.length) ?_ (decode_encode hr.tableFile)
  simp (disch := simp) only [WalRecord.header, field_append_left, field_middle]

theorem readUint_beforeSize : readUint r.header 30 4 = r.beforeImage.length := by
  refine readUint_of_field (b := encode 4 r.beforeImage.length) ?_ (decode_encode hr.beforeImage)
  simp (disch := simp) only [WalRecord.header, field_append_left, field_middle]

theorem readUint_afterSize : readUint r.header 34 4 = r.afterImage.length := by
  refine readUint_of_field (b := encode 4 r.afterImage.length) ?_ (decode_encode hr.afterImage)
  simp (disch := simp) only [WalRecord.header, field_append_left, field_middle]

theorem readUint_activeCount : readUint r.header 38 4 = r.activeTransactions.length := by
  refine readUint_of_field (b := encode 4 r.activeTransactions.length) ?_ (decode_encode hr.activeCount)
  simp (disch := simp) only [WalRecord.header, field_middle]

theorem bodySize_header : bodySize r.header = r.body.length := by
  rw [bodySize, readUint_tableFileSize hr, readUint_beforeSize hr, readUint_afterSize hr,
    readUint_activeCount hr, WalRecord.length_body]
  omega

omit hr in
theorem readIds_encodeIds (ids : List Nat) (hids : ∀ id ∈ ids, id < 2 ^ 64) :
    readIds ids.length (WalRecord.encodeIds ids) = ids := by
  induction ids with
  | nil => rfl
  | cons id ids ih =>
      have hid : decode (encode 8 id) = id := decode_encode (hids id (by simp))
      have htail := ih fun i hi => hids i (by simp [hi])
      simp [readIds, WalRecord.encodeIds, readUint, field, hid, htail]

/-- The parsed record agrees with the written one field for field. -/
theorem parseRecord_header_body : parseRecord r.header r.body = r := by
  unfold parseRecord
  simp only [readUint_type hr, readUint_lsn hr, readUint_transactionId hr, readUint_pageId hr,
    readUint_tableFileSize hr, readUint_beforeSize hr, readUint_afterSize hr,
    readUint_activeCount hr, WalRecordType.ofCode_code hr.named]
  have htable : r.body.take r.tableFile.length = r.tableFile := by
    simp [WalRecord.body]
  have hbefore : field r.body r.tableFile.length r.beforeImage.length = r.beforeImage := by
    simp [field, WalRecord.body]
  have hafter : field r.body (r.tableFile.length + r.beforeImage.length) r.afterImage.length =
      r.afterImage := by
    rw [WalRecord.body, field_append_left (by simp [Nat.add_assoc])]
    exact field_middle (by simp) rfl
  have hactive : r.body.drop (r.tableFile.length + r.beforeImage.length + r.afterImage.length) =
      WalRecord.encodeIds r.activeTransactions := by
    rw [WalRecord.body]
    apply List.drop_left'
    simp only [List.length_append]
  rw [htable, hbefore, hafter, hactive, readIds_encodeIds _ hr.active]

/-! ## One round of the loop -/

theorem readLoop_toBytes (rounds : Nat) (rest : Bytes) :
    readLoop (rounds + 1) (r.toBytes ++ rest) = (readLoop rounds rest).map (r :: ·) := by
  have hlen : ¬ (r.toBytes ++ rest).length < walHeaderSize := by
    rw [List.length_append, WalRecord.length_toBytes]
    omega
  have hhead : (r.toBytes ++ rest).take walHeaderSize = r.header := by
    rw [WalRecord.toBytes, List.append_assoc]
    exact List.take_left' (WalRecord.length_header r)
  have hbody : field (r.toBytes ++ rest) walHeaderSize r.body.length = r.body := by
    rw [field, WalRecord.toBytes, List.append_assoc,
      List.drop_left' (WalRecord.length_header r)]
    exact List.take_left
  have hrest : (r.toBytes ++ rest).drop (walHeaderSize + r.body.length) = rest :=
    List.drop_left' (WalRecord.length_toBytes r)
  have hfull : ¬ (r.toBytes ++ rest).length < walHeaderSize + r.body.length := by
    rw [List.length_append, WalRecord.length_toBytes]
    omega
  rw [readLoop, if_neg hlen]
  simp only [hhead, readUint_magic, ne_eq, not_true_eq_false, if_false, bodySize_header hr,
    if_neg hfull, hbody, hrest, parseRecord_header_body hr]

/-- A record that is not there in full ends the loop. -/
theorem readLoop_torn (rounds : Nat) {torn rest : Bytes} (htorn : torn ++ rest = r.toBytes)
    (hrest : rest ≠ []) : readLoop (rounds + 1) torn = some [] := by
  have hpos : 0 < rest.length := List.length_pos_iff.mpr hrest
  have hlen : torn.length + rest.length = walHeaderSize + r.body.length := by
    rw [← List.length_append, htorn, WalRecord.length_toBytes]
  rw [readLoop]
  by_cases hshort : torn.length < walHeaderSize
  · rw [if_pos hshort]
  · have hhead : torn.take walHeaderSize = r.header := by
      have h : (torn ++ rest).take walHeaderSize = r.header := by
        rw [htorn, WalRecord.toBytes]
        exact List.take_left' (WalRecord.length_header r)
      rwa [List.take_append_of_le_length (by omega)] at h
    rw [if_neg hshort]
    simp only [hhead, readUint_magic, ne_eq, not_true_eq_false, if_false, bodySize_header hr]
    rw [if_pos (by omega)]

end Fields

theorem readLoop_nil (rounds : Nat) : readLoop rounds [] = some [] := by
  cases rounds with
  | zero => rfl
  | succ rounds => simp [readLoop, walHeaderSize]

/-! ## Whole files -/

theorem length_walBytes_cons (r : WalRecord) (rs : List WalRecord) :
    (walBytes (r :: rs)).length = r.toBytes.length + (walBytes rs).length := by
  simp [walBytes]

theorem walBytes_append (rs qs : List WalRecord) :
    walBytes (rs ++ qs) = walBytes rs ++ walBytes qs := by
  simp [walBytes]

theorem length_le_length_walBytes (rs : List WalRecord) : rs.length ≤ (walBytes rs).length := by
  induction rs with
  | nil => simp
  | cons r rs ih =>
      have hpos := r.length_toBytes_pos
      rw [length_walBytes_cons, List.length_cons]
      omega

/-- The loop reads the complete records and then goes on with what follows. -/
theorem readLoop_walBytes (rs : List WalRecord) (hrs : ∀ r ∈ rs, r.Encodable) (rounds : Nat)
    (rest : Bytes) :
    readLoop (rs.length + rounds) (walBytes rs ++ rest) = (readLoop rounds rest).map (rs ++ ·) := by
  induction rs with
  | nil => simp [walBytes]
  | cons r rs ih =>
      have htail := ih fun q hq => hrs q (by simp [hq])
      have hcons : walBytes (r :: rs) ++ rest = r.toBytes ++ (walBytes rs ++ rest) := by
        simp [walBytes]
      have hcount : (r :: rs).length + rounds = (rs.length + rounds) + 1 := by
        rw [List.length_cons]
        omega
      rw [hcons, hcount, readLoop_toBytes (hrs r (by simp)), htail]
      cases readLoop rounds rest <;> simp

theorem readAllRecords_append (rs : List WalRecord) (hrs : ∀ r ∈ rs, r.Encodable) (rest : Bytes) :
    ∃ rounds, rest.length < rounds ∧
      readAllRecords (walBytes rs ++ rest) = (readLoop rounds rest).map (rs ++ ·) := by
  have hle := length_le_length_walBytes rs
  refine ⟨(walBytes rs ++ rest).length + 1 - rs.length, ?_, ?_⟩
  · rw [List.length_append]
    omega
  · have hsplit : (walBytes rs ++ rest).length + 1 =
        rs.length + ((walBytes rs ++ rest).length + 1 - rs.length) := by
      rw [List.length_append]
      omega
    rw [readAllRecords, hsplit, readLoop_walBytes rs hrs]
    congr 2
    omega

/-- Reading a file of whole records gives the records back. -/
theorem readAllRecords_walBytes (rs : List WalRecord) (hrs : ∀ r ∈ rs, r.Encodable) :
    readAllRecords (walBytes rs) = some rs := by
  obtain ⟨rounds, _, h⟩ := readAllRecords_append rs hrs []
  rw [List.append_nil] at h
  rw [h, readLoop_nil]
  simp

/-- A torn last record is not read. -/
theorem readAllRecords_torn (rs : List WalRecord) (hrs : ∀ r ∈ rs, r.Encodable) {r : WalRecord}
    (hr : r.Encodable) {torn rest : Bytes} (htorn : torn ++ rest = r.toBytes) (hrest : rest ≠ []) :
    readAllRecords (walBytes rs ++ torn) = some rs := by
  obtain ⟨rounds, hrounds, h⟩ := readAllRecords_append rs hrs torn
  obtain ⟨k, rfl⟩ : ∃ k, rounds = k + 1 := ⟨rounds - 1, by omega⟩
  rw [h, readLoop_torn hr k htorn hrest]
  simp

/-! ## Appending through a manager -/

theorem appendAll_bytes (w : WalFile) (cs : List AppendCall) :
    (w.appendAll cs).bytes = w.bytes ++ walBytes (recordsFor w.lastLsn cs) := by
  induction cs generalizing w with
  | nil => simp [appendAll, recordsFor, walBytes]
  | cons c cs ih =>
      have htail := ih (w.append c)
      simp only [appendAll, recordsFor, htail]
      simp [append, walBytes]

theorem recordsFor_encodable (lastLsn : Nat) (cs : List AppendCall) (hcs : ∀ c ∈ cs, c.Fits) :
    ∀ r ∈ recordsFor lastLsn cs, r.Encodable := by
  induction cs generalizing lastLsn with
  | nil => simp [recordsFor]
  | cons c cs ih =>
      intro r hr
      rw [recordsFor, List.mem_cons] at hr
      rcases hr with rfl | hr
      · exact (hcs c (by simp)).encodable (Nat.mod_lt _ (by decide))
      · exact ih _ (fun d hd => hcs d (by simp [hd])) r hr

/-! ## Cutting the file -/

/-- The records lying wholly in the first `cut` bytes of the file of `records`. -/
def completeRecords (cut : Nat) : List WalRecord → List WalRecord
  | [] => []
  | r :: rs =>
    if r.toBytes.length ≤ cut then r :: completeRecords (cut - r.toBytes.length) rs else []

/-- The file was cut between two records. -/
def OnBoundary (records : List WalRecord) (cut : Nat) : Prop :=
  (walBytes (completeRecords cut records)).length = cut

theorem mem_of_mem_completeRecords {cut : Nat} {rs : List WalRecord} {r : WalRecord}
    (h : r ∈ completeRecords cut rs) : r ∈ rs := by
  induction rs generalizing cut with
  | nil => simp [completeRecords] at h
  | cons q rs ih =>
      rw [completeRecords] at h
      split at h
      · rcases List.mem_cons.mp h with rfl | h
        · simp
        · exact List.mem_cons_of_mem _ (ih h)
      · simp at h

/-- A cut file is its complete records followed by a proper part of one more
record, which is empty exactly on a boundary. -/
theorem take_walBytes (rs : List WalRecord) (cut : Nat) (hcut : cut ≤ (walBytes rs).length) :
    ∃ torn, (walBytes rs).take cut = walBytes (completeRecords cut rs) ++ torn ∧
      (OnBoundary rs cut ↔ torn = []) ∧
      (torn ≠ [] → ∃ r ∈ rs, ∃ rest, torn ++ rest = r.toBytes ∧ rest ≠ []) := by
  induction rs generalizing cut with
  | nil =>
      refine ⟨[], by simp [walBytes, completeRecords], ?_, by simp⟩
      have : cut = 0 := by simpa [walBytes] using hcut
      simp [OnBoundary, completeRecords, walBytes, this]
  | cons r rs ih =>
      have hbytes : walBytes (r :: rs) = r.toBytes ++ walBytes rs := by simp [walBytes]
      by_cases hfit : r.toBytes.length ≤ cut
      · -- the first record survives: cut the rest of the file
        obtain ⟨torn, htake, hbound, htorn⟩ := ih (cut - r.toBytes.length) (by
          rw [length_walBytes_cons] at hcut
          omega)
        have hcomplete : completeRecords cut (r :: rs) =
            r :: completeRecords (cut - r.toBytes.length) rs := by
          rw [completeRecords, if_pos hfit]
        refine ⟨torn, ?_, ?_, ?_⟩
        · rw [hcomplete, hbytes, List.take_append, List.take_of_length_le hfit, htake]
          simp [walBytes]
        · rw [← hbound, OnBoundary, OnBoundary, hcomplete, length_walBytes_cons]
          omega
        · intro hne
          obtain ⟨q, hq, rest, hrest⟩ := htorn hne
          exact ⟨q, List.mem_cons_of_mem _ hq, rest, hrest⟩
      · -- the cut is inside the first record
        have hcomplete : completeRecords cut (r :: rs) = [] := by
          rw [completeRecords, if_neg hfit]
        refine ⟨r.toBytes.take cut, ?_, ?_, ?_⟩
        · rw [hcomplete, hbytes, List.take_append_of_le_length (by omega)]
          simp [walBytes]
        · have hpos := r.length_toBytes_pos
          rw [OnBoundary, hcomplete, List.take_eq_nil_iff]
          constructor
          · intro h
            left
            simpa [walBytes] using h.symm
          · rintro (h | h)
            · simp [walBytes, h]
            · simp [h] at hpos
        · intro _
          refine ⟨r, by simp, r.toBytes.drop cut, List.take_append_drop _ _, ?_⟩
          rw [ne_eq, List.drop_eq_nil_iff]
          exact hfit

end WalFile

end ScratchDb
