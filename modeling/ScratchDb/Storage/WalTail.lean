import ScratchDb.Storage.WalCodec

/-!
# Torn tails

The constructor reopens the log in append mode without cutting a torn record
off, so what is appended next lands behind the torn bytes. A reopened log
reads back as its complete records and the new ones exactly when it was cut
between two records.
-/

namespace ScratchDb

open LittleEndian WalFile

namespace AppendCall

/-- The call `begin_transaction(transaction_id)` makes. -/
def beginTransaction (transactionId : Nat) : AppendCall :=
  ⟨.beginTransaction, transactionId, noPageId, [], [], [], []⟩

theorem beginTransaction_fits {transactionId : Nat} (h : transactionId < 2 ^ 64) :
    (beginTransaction transactionId).Fits where
  named := trivial
  transactionId := h
  pageId := by
    show noPageId < 2 ^ 32
    decide
  tableFile := by simp [beginTransaction]
  beforeImage := by simp [beginTransaction]
  afterImage := by simp [beginTransaction]
  activeCount := by simp [beginTransaction]
  active := by simp [beginTransaction]

end AppendCall

namespace WalFile

theorem field_eq_encode {bytes : Bytes} {off size v : Nat} (hlen : off + size ≤ bytes.length)
    (h : readUint bytes off size = v) : field bytes off size = encode size v := by
  have hsize : (field bytes off size).length = size := by
    rw [field, List.length_take, List.length_drop]
    omega
  rw [← h, readUint]
  conv_lhs => rw [← encode_decode (field bytes off size), hsize]

theorem drop_eq_field_append {bytes : Bytes} (off size : Nat) :
    bytes.drop off = field bytes off size ++ bytes.drop (off + size) := by
  rw [field, ← List.drop_drop, List.take_append_drop]

@[simp] theorem length_readIds (count : Nat) (bytes : Bytes) :
    (readIds count bytes).length = count := by
  induction count generalizing bytes with
  | zero => rfl
  | succ count ih => simp [readIds, ih]

/-- A header that parses to a record without variable parts promises none. -/
theorem sizes_eq_zero {header body : Bytes} (hbody : body.length = bodySize header)
    (htable : (parseRecord header body).tableFile = [])
    (hbefore : (parseRecord header body).beforeImage = [])
    (hafter : (parseRecord header body).afterImage = [])
    (hactive : (parseRecord header body).activeTransactions = []) :
    readUint header 26 4 = 0 ∧ readUint header 30 4 = 0 ∧ readUint header 34 4 = 0 ∧
      readUint header 38 4 = 0 := by
  have h1 := congrArg List.length htable
  have h2 := congrArg List.length hbefore
  have h3 := congrArg List.length hafter
  have h4 := congrArg List.length hactive
  simp only [parseRecord, field, List.length_take, List.length_drop, length_readIds,
    List.length_nil, hbody, bodySize] at h1 h2 h3 h4
  omega

/-- The last 28 bytes of the header of `begin_transaction(1)`. -/
def beginSuffix : Bytes :=
  encode 8 1 ++ encode 4 noPageId ++ encode 4 0 ++ encode 4 0 ++ encode 4 0 ++ encode 4 0

theorem toBytes_beginTransaction (lsn : Nat) :
    ((AppendCall.beginTransaction 1).record lsn).toBytes =
      encode 4 walMagic ++ encode 2 1 ++ encode 8 lsn ++ beginSuffix := by
  simp [WalRecord.toBytes, WalRecord.header, WalRecord.body, WalRecord.encodeIds,
    AppendCall.beginTransaction, AppendCall.record, WalRecordType.code, beginSuffix]

/-- Only a header with the right last 28 bytes parses to that record. -/
theorem drop_of_parse_begin {header body : Bytes} {lsn : Nat} (hlen : header.length = 42)
    (hbody : body.length = bodySize header)
    (hparse : parseRecord header body = (AppendCall.beginTransaction 1).record lsn) :
    header.drop 14 = beginSuffix := by
  have hsizes := sizes_eq_zero hbody (by rw [hparse]; rfl) (by rw [hparse]; rfl)
    (by rw [hparse]; rfl) (by rw [hparse]; rfl)
  have hid : readUint header 14 8 = 1 := congrArg WalRecord.transactionId hparse
  have hpage : readUint header 22 4 = noPageId := congrArg WalRecord.pageId hparse
  rw [drop_eq_field_append 14 8, field_eq_encode (by omega) hid,
    drop_eq_field_append 22 4, field_eq_encode (by omega) hpage,
    drop_eq_field_append 26 4, field_eq_encode (by omega) hsizes.1,
    drop_eq_field_append 30 4, field_eq_encode (by omega) hsizes.2.1,
    drop_eq_field_append 34 4, field_eq_encode (by omega) hsizes.2.2.1,
    drop_eq_field_append 38 4, field_eq_encode (by omega) hsizes.2.2.2,
    List.drop_eq_nil_of_le (by omega)]
  simp [beginSuffix]

/-- The bytes of `begin_transaction(1)` shifted by less than a header do not
look like a header of it: its page id would overlap the length fields, or its
magic number one of the fields. -/
theorem shifted_header_ne {torn : Bytes} {lsn : Nat} (hne : torn ≠ []) (hshort : torn.length < 42) :
    ((torn ++ ((AppendCall.beginTransaction 1).record lsn).toBytes).take 42).drop 14 ≠
      beginSuffix := by
  intro h
  have hpos : 0 < torn.length := List.length_pos_iff.mpr hne
  have hat : ∀ i, torn.length ≤ i → 14 ≤ i → i < 42 →
      beginSuffix[i - 14]? =
        ((AppendCall.beginTransaction 1).record lsn).toBytes[i - torn.length]? := by
    intro i hi h14 h42
    rw [← h, List.getElem?_drop, List.getElem?_take, if_pos (by omega),
      List.getElem?_append_right (by omega)]
    congr 1
    omega
  rw [toBytes_beginTransaction] at hat
  by_cases hlow : torn.length ≤ 16
  · -- the byte 0xff that ends the page id falls into a length field
    have hzero : ∀ j : Fin 28, 12 ≤ j.val → beginSuffix[j.val]? = some 0 := by decide
    have hff : beginSuffix[11]? = some 255 := by decide
    have hbyte := hat (torn.length + 25) (by omega) (by omega) (by omega)
    have hleft := hzero ⟨torn.length + 25 - 14, by omega⟩ (by
      show 12 ≤ torn.length + 25 - 14
      omega)
    rw [show torn.length + 25 - torn.length = 25 by omega,
      List.getElem?_append_right (by simp)] at hbyte
    simp only [List.length_append, length_encode] at hbyte
    rw [hff, hleft] at hbyte
    simp at hbyte
  · -- the first magic byte falls into a field
    have hmagic : ∀ j : Fin 28, 3 ≤ j.val → beginSuffix[j.val]? ≠ some 0x57 := by decide
    have hbyte := hat torn.length (by omega) (by omega) hshort
    rw [Nat.sub_self, List.append_assoc, List.append_assoc,
      List.getElem?_append_left (by simp)] at hbyte
    have hfirst : (encode 4 walMagic)[0]? = some 0x57 := by decide
    rw [hfirst] at hbyte
    have hidx : 3 ≤ torn.length - 14 := by omega
    exact hmagic ⟨torn.length - 14, by omega⟩ hidx hbyte

/-- A record appended behind a torn one is not read back. -/
theorem readLoop_behind_torn {r : WalRecord} (hr : r.Encodable) {torn rest : Bytes}
    (htorn : torn ++ rest = r.toBytes) (hrest : rest ≠ []) (hne : torn ≠ []) (rounds lsn : Nat) :
    readLoop (rounds + 1) (torn ++ ((AppendCall.beginTransaction 1).record lsn).toBytes) ≠
      some [(AppendCall.beginTransaction 1).record lsn] := by
  intro h
  have hbegin : ((AppendCall.beginTransaction 1).record lsn).toBytes.length = 42 := by
    rw [toBytes_beginTransaction]
    simp [beginSuffix]
  have hpos : 0 < torn.length := List.length_pos_iff.mpr hne
  have hlen : (torn ++ ((AppendCall.beginTransaction 1).record lsn).toBytes).length =
      torn.length + 42 := by
    rw [List.length_append, hbegin]
  obtain ⟨bytes, hbytes⟩ : ∃ bytes,
      bytes = torn ++ ((AppendCall.beginTransaction 1).record lsn).toBytes := ⟨_, rfl⟩
  rw [← hbytes] at h hlen
  have h42 : walHeaderSize = 42 := rfl
  rw [readLoop, if_neg (by omega)] at h
  by_cases hmagic : readUint (bytes.take walHeaderSize) 0 4 = walMagic
  swap
  · rw [if_pos hmagic] at h
    exact absurd h (by simp)
  rw [if_neg (not_not.mpr hmagic)] at h
  by_cases hpart : bytes.length < walHeaderSize + bodySize (bytes.take walHeaderSize)
  · rw [if_pos hpart] at h
    exact absurd h (by simp)
  rw [if_neg hpart] at h
  -- the loop parsed a whole record: compare its header with the begin record
  obtain ⟨records, _, hcons⟩ := Option.map_eq_some_iff.mp h
  have hparse := (List.cons.inj hcons).1
  have hbody : (field bytes walHeaderSize (bodySize (bytes.take walHeaderSize))).length =
      bodySize (bytes.take walHeaderSize) := by
    rw [field, List.length_take, List.length_drop]
    omega
  by_cases hshort : torn.length < 42
  · have hdrop := drop_of_parse_begin (by rw [List.length_take, hlen]; omega) hbody hparse
    rw [hbytes] at hdrop
    exact shifted_header_ne hne hshort hdrop
  · -- the header is the torn record's own, which promises a body
    have hhead : bytes.take walHeaderSize = r.header := by
      have htake : (torn ++ rest).take walHeaderSize = r.header := by
        rw [htorn, WalRecord.toBytes]
        exact List.take_left' (WalRecord.length_header r)
      rw [hbytes, List.take_append_of_le_length (by omega)]
      rwa [List.take_append_of_le_length (by omega)] at htake
    have hsizes := sizes_eq_zero hbody (by rw [hparse]; rfl) (by rw [hparse]; rfl)
      (by rw [hparse]; rfl) (by rw [hparse]; rfl)
    have hzero : r.body.length = 0 := by
      rw [← bodySize_header hr, ← hhead, bodySize]
      omega
    have htotal : torn.length + rest.length = 42 := by
      rw [← List.length_append, htorn, WalRecord.length_toBytes, hzero]
      rfl
    have hrestpos : 0 < rest.length := List.length_pos_iff.mpr hrest
    omega

/-! ## Reopening a cut log -/

theorem openFile_bytes (bytes : Bytes) : (openFile bytes).bytes = bytes := by
  unfold openFile
  split <;> rfl

theorem openFile_nil : openFile [] = ⟨[], 0⟩ := by
  simp [openFile, readAllRecords, readLoop, walHeaderSize, maxLsn]

/-- What a log of calls `cs` holds when it is cut at `cut`, reopened and
appended to by `ds`. -/
def reopenedBytes (cs : List AppendCall) (cut : Nat) (ds : List AppendCall) : Bytes :=
  ((openFile (((openFile []).appendAll cs).bytes.take cut)).appendAll ds).bytes

/-- The records complete in the cut log, then the records of the later calls. -/
def survivingRecords (cs : List AppendCall) (cut : Nat) (ds : List AppendCall) : List WalRecord :=
  completeRecords cut (recordsFor 0 cs) ++
    recordsFor (openFile (((openFile []).appendAll cs).bytes.take cut)).lastLsn ds

/-- A log cut at any byte and reopened reads back as its complete records and
everything appended later, whatever is appended, exactly when the cut lies
between two records. -/
theorem reopened_log_reads_back_iff (cs : List AppendCall) (hcs : ∀ c ∈ cs, c.Fits) (cut : Nat)
    (hcut : cut ≤ ((openFile []).appendAll cs).bytes.length) :
    (∀ ds : List AppendCall, (∀ d ∈ ds, d.Fits) →
      readAllRecords (reopenedBytes cs cut ds) = some (survivingRecords cs cut ds)) ↔
    OnBoundary (recordsFor 0 cs) cut := by
  have hfile : ((openFile []).appendAll cs).bytes = walBytes (recordsFor 0 cs) := by
    rw [appendAll_bytes, openFile_nil, List.nil_append]
  have henc := recordsFor_encodable 0 cs hcs
  have hcomplete : ∀ r ∈ completeRecords cut (recordsFor 0 cs), r.Encodable :=
    fun r hr => henc r (mem_of_mem_completeRecords hr)
  rw [hfile] at hcut
  obtain ⟨torn, htake, hbound, htorn⟩ := take_walBytes (recordsFor 0 cs) cut hcut
  set lastLsn := (openFile (((openFile []).appendAll cs).bytes.take cut)).lastLsn with hlast
  have hbytes : ∀ ds, reopenedBytes cs cut ds =
      walBytes (completeRecords cut (recordsFor 0 cs)) ++ (torn ++ walBytes (recordsFor lastLsn ds)) := by
    intro ds
    rw [reopenedBytes, appendAll_bytes, openFile_bytes, hlast, hfile, htake, List.append_assoc]
  constructor
  · intro h
    by_contra hoff
    have hne : torn ≠ [] := fun hnil => hoff (hbound.mpr hnil)
    obtain ⟨r, hr, rest, hrest, hrestne⟩ := htorn hne
    -- one record of a later begin_transaction(1) is enough to see the damage
    have hread := h [.beginTransaction 1] (by
      intro d hd
      rw [List.mem_singleton.mp hd]
      exact AppendCall.beginTransaction_fits (by decide))
    obtain ⟨rounds, hrounds, hloop⟩ := readAllRecords_append _ hcomplete
      (torn ++ walBytes (recordsFor lastLsn [.beginTransaction 1]))
    obtain ⟨k, rfl⟩ : ∃ k, rounds = k + 1 := ⟨rounds - 1, by omega⟩
    rw [hbytes, hloop, survivingRecords] at hread
    obtain ⟨records, hrecords, happend⟩ := Option.map_eq_some_iff.mp hread
    have hrec : records = [(AppendCall.beginTransaction 1).record ((lastLsn + 1) % 2 ^ 64)] :=
      List.append_cancel_left happend
    apply readLoop_behind_torn (henc r hr) hrest hrestne hne k ((lastLsn + 1) % 2 ^ 64)
    simpa [recordsFor, walBytes, hrec] using hrecords
  · intro hon ds hds
    have hnil : torn = [] := hbound.mp hon
    rw [hbytes, hnil, List.nil_append, ← walBytes_append, survivingRecords]
    apply readAllRecords_walBytes
    intro r hr
    rcases List.mem_append.mp hr with hr | hr
    · exact hcomplete r hr
    · exact recordsFor_encodable lastLsn ds hds r hr

/-- A cut at the end of the first of two records is survived. -/
theorem reopened_log_reads_back_at_42 :
    OnBoundary (recordsFor 0 [.beginTransaction 1, .beginTransaction 2]) 42 ↔
    ∀ ds : List AppendCall, (∀ d ∈ ds, d.Fits) →
      readAllRecords (reopenedBytes [.beginTransaction 1, .beginTransaction 2] 42 ds) =
        some (survivingRecords [.beginTransaction 1, .beginTransaction 2] 42 ds) := by
  refine (reopened_log_reads_back_iff [.beginTransaction 1, .beginTransaction 2] ?_ 42 ?_).symm
  · intro c hc
    rcases List.mem_pair.mp hc with rfl | rfl
    · exact AppendCall.beginTransaction_fits (by decide)
    · exact AppendCall.beginTransaction_fits (by decide)
  · rw [appendAll_bytes, openFile_nil]
    simp [recordsFor, walBytes, WalRecord.length_toBytes, walHeaderSize]
    omega

/-- A crash leaves ten bytes of a begin record, and the next session appends
its own record behind them: the read returns true, without that record. -/
theorem torn_tail_loses_log :
    10 ≤ ((openFile []).appendAll [.beginTransaction 1]).bytes.length ∧
    readAllRecords (reopenedBytes [.beginTransaction 1] 10 [.beginTransaction 2]) = some [] ∧
    survivingRecords [.beginTransaction 1] 10 [.beginTransaction 2] =
      [(AppendCall.beginTransaction 2).record 1] := by
  decide

end WalFile

end ScratchDb
