import ScratchDb.Lib.LittleEndian

/-!
# The write-ahead log file

The record type of `wal_manager.cpp`, the byte layout `append_record` writes
and the loop of `read_all_records` that reads a file back.
-/

namespace ScratchDb

abbrev Bytes := List UInt8

/-- `WAL_MAGIC`, the four bytes `WAL0`. -/
def walMagic : Nat := 0x304c4157

/-- `NO_PAGE_ID`: the record names no page. -/
def noPageId : Nat := 0xffffffff

/-- `WalRecordType`. The enumeration has a fixed underlying type, so a code
read from a file may name no enumerator. -/
inductive WalRecordType where
  | beginTransaction
  | pageUpdate
  | commitTransaction
  | abortTransaction
  | checkpoint
  | createTable
  | dropTable
  | schemaUpdate
  | unnamed (code : Nat)
deriving DecidableEq, Repr

namespace WalRecordType

def code : WalRecordType → Nat
  | beginTransaction => 1
  | pageUpdate => 2
  | commitTransaction => 3
  | abortTransaction => 4
  | checkpoint => 5
  | createTable => 6
  | dropTable => 7
  | schemaUpdate => 8
  | unnamed code => code

def ofCode : Nat → WalRecordType
  | 1 => beginTransaction
  | 2 => pageUpdate
  | 3 => commitTransaction
  | 4 => abortTransaction
  | 5 => checkpoint
  | 6 => createTable
  | 7 => dropTable
  | 8 => schemaUpdate
  | code => unnamed code

/-- The enumerators, the only types `append_record` is called with. -/
def Named : WalRecordType → Prop
  | unnamed _ => False
  | _ => True

theorem ofCode_code {t : WalRecordType} (h : t.Named) : ofCode t.code = t := by
  cases t <;> first | rfl | exact h.elim

theorem code_lt {t : WalRecordType} (h : t.Named) : t.code < 256 ^ 2 := by
  cases t <;> first | decide | exact h.elim

end WalRecordType

/-- `WalRecord`. -/
structure WalRecord where
  type : WalRecordType
  lsn : Nat
  transactionId : Nat
  pageId : Nat
  tableFile : Bytes
  beforeImage : Bytes
  afterImage : Bytes
  activeTransactions : List Nat
deriving DecidableEq, Repr

/-- `HEADER_SIZE` of `read_all_records`. -/
def walHeaderSize : Nat := 42

namespace WalRecord

open LittleEndian

/-- The fixed part of a record as `append_record` writes it. -/
def header (r : WalRecord) : Bytes :=
  encode 4 walMagic ++ encode 2 r.type.code ++ encode 8 r.lsn ++
    encode 8 r.transactionId ++ encode 4 r.pageId ++ encode 4 r.tableFile.length ++
    encode 4 r.beforeImage.length ++ encode 4 r.afterImage.length ++
    encode 4 r.activeTransactions.length

def encodeIds : List Nat → Bytes
  | [] => []
  | id :: ids => encode 8 id ++ encodeIds ids

def body (r : WalRecord) : Bytes :=
  r.tableFile ++ r.beforeImage ++ r.afterImage ++ encodeIds r.activeTransactions

def toBytes (r : WalRecord) : Bytes := r.header ++ r.body

/-- What the field types and the 32-bit length fields promise: each number
fits its field. -/
structure Encodable (r : WalRecord) : Prop where
  named : r.type.Named
  lsn : r.lsn < 2 ^ 64
  transactionId : r.transactionId < 2 ^ 64
  pageId : r.pageId < 2 ^ 32
  tableFile : r.tableFile.length < 2 ^ 32
  beforeImage : r.beforeImage.length < 2 ^ 32
  afterImage : r.afterImage.length < 2 ^ 32
  activeCount : r.activeTransactions.length < 2 ^ 32
  active : ∀ id ∈ r.activeTransactions, id < 2 ^ 64

end WalRecord

/-- The file holding `records` one after the other. -/
def walBytes (records : List WalRecord) : Bytes := records.flatMap WalRecord.toBytes

namespace WalFile

open LittleEndian

/-- The bytes `[offset, offset + size)` of a header or body. -/
def field (bytes : Bytes) (offset size : Nat) : Bytes := (bytes.drop offset).take size

/-- `read_uint32(ptr)` and its siblings, on the bytes from `offset` on. -/
def readUint (bytes : Bytes) (offset size : Nat) : Nat := decode (field bytes offset size)

/-- The loop over `active_count` entries of eight bytes. -/
def readIds : Nat → Bytes → List Nat
  | 0, _ => []
  | count + 1, bytes => readUint bytes 0 8 :: readIds count (bytes.drop 8)

/-- `body_size`, from the four length fields of the header. -/
def bodySize (header : Bytes) : Nat :=
  readUint header 26 4 + readUint header 30 4 + readUint header 34 4 + readUint header 38 4 * 8

/-- The record a header and the body behind it stand for. -/
def parseRecord (header body : Bytes) : WalRecord :=
  let tableFileSize := readUint header 26 4
  let beforeSize := readUint header 30 4
  let afterSize := readUint header 34 4
  let activeCount := readUint header 38 4
  { type := .ofCode (readUint header 4 2)
    lsn := readUint header 6 8
    transactionId := readUint header 14 8
    pageId := readUint header 22 4
    tableFile := body.take tableFileSize
    beforeImage := field body tableFileSize beforeSize
    afterImage := field body (tableFileSize + beforeSize) afterSize
    activeTransactions := readIds activeCount (body.drop (tableFileSize + beforeSize + afterSize)) }

/-- The `while` loop of `read_all_records` on the bytes from `offset` to the
end of the file. A wrong magic number makes the whole read fail; a header or
body that is not there in full ends it. Every round consumes a header, so
`rounds` may be any number above the file size. -/
def readLoop : Nat → Bytes → Option (List WalRecord)
  | 0, _ => some []
  | rounds + 1, bytes =>
    if bytes.length < walHeaderSize then some []
    else
      let header := bytes.take walHeaderSize
      if readUint header 0 4 ≠ walMagic then none
      else
        let size := bodySize header
        if bytes.length < walHeaderSize + size then some []
        else
          let body := field bytes walHeaderSize size
          (readLoop rounds (bytes.drop (walHeaderSize + size))).map (parseRecord header body :: ·)

/-- `read_all_records`: `none` when it returns false. -/
def readAllRecords (bytes : Bytes) : Option (List WalRecord) :=
  readLoop (bytes.length + 1) bytes

end WalFile

/-- The arguments of one `append_record` call. -/
structure AppendCall where
  type : WalRecordType
  transactionId : Nat
  pageId : Nat
  tableFile : Bytes
  beforeImage : Bytes
  afterImage : Bytes
  activeTransactions : List Nat
deriving DecidableEq, Repr

namespace AppendCall

/-- The record `append_record` writes when it draws the number `lsn`. -/
def record (c : AppendCall) (lsn : Nat) : WalRecord :=
  { type := c.type, lsn := lsn, transactionId := c.transactionId, pageId := c.pageId,
    tableFile := c.tableFile, beforeImage := c.beforeImage, afterImage := c.afterImage,
    activeTransactions := c.activeTransactions }

/-- The argument types of `append_record`, with field lengths below `2 ^ 32`. -/
structure Fits (c : AppendCall) : Prop where
  named : c.type.Named
  transactionId : c.transactionId < 2 ^ 64
  pageId : c.pageId < 2 ^ 32
  tableFile : c.tableFile.length < 2 ^ 32
  beforeImage : c.beforeImage.length < 2 ^ 32
  afterImage : c.afterImage.length < 2 ^ 32
  activeCount : c.activeTransactions.length < 2 ^ 32
  active : ∀ id ∈ c.activeTransactions, id < 2 ^ 64

theorem Fits.encodable {c : AppendCall} (h : c.Fits) {lsn : Nat} (hlsn : lsn < 2 ^ 64) :
    (c.record lsn).Encodable :=
  ⟨h.named, hlsn, h.transactionId, h.pageId, h.tableFile, h.beforeImage, h.afterImage,
    h.activeCount, h.active⟩

end AppendCall

/-- A `WalManager` at the level of its file: the bytes on disk and the 64-bit
counter `last_lsn_`. -/
structure WalFile where
  bytes : Bytes
  lastLsn : Nat
deriving Repr

namespace WalFile

/-- The largest LSN among `records`, starting from `lastLsn`. -/
def maxLsn (lastLsn : Nat) : List WalRecord → Nat
  | [] => lastLsn
  | r :: rs => maxLsn (if r.lsn > lastLsn then r.lsn else lastLsn) rs

theorem le_maxLsn (lastLsn : Nat) (rs : List WalRecord) : lastLsn ≤ maxLsn lastLsn rs := by
  induction rs generalizing lastLsn with
  | nil => exact le_rfl
  | cons r rs ih =>
    rw [maxLsn]
    refine le_trans ?_ (ih _)
    split <;> omega

theorem lsn_le_maxLsn {lastLsn : Nat} {rs : List WalRecord} {r : WalRecord} (hr : r ∈ rs) :
    r.lsn ≤ maxLsn lastLsn rs := by
  induction rs generalizing lastLsn with
  | nil => cases hr
  | cons q rs ih =>
    rw [maxLsn]
    rcases List.mem_cons.mp hr with rfl | hr
    · refine le_trans ?_ (le_maxLsn _ _)
      split <;> omega
    · exact ih hr

/-- `WalManager::WalManager`: the file is opened in append mode as it is, and
`last_lsn_` stays 0 when it cannot be read. -/
def openFile (bytes : Bytes) : WalFile :=
  match readAllRecords bytes with
  | some records => ⟨bytes, maxLsn 0 records⟩
  | none => ⟨bytes, 0⟩

/-- `WalManager::append_record` on the file, with its 64-bit LSN. -/
def append (w : WalFile) (c : AppendCall) : WalFile :=
  let lsn := (w.lastLsn + 1) % 2 ^ 64
  ⟨w.bytes ++ (c.record lsn).toBytes, lsn⟩

def appendAll (w : WalFile) : List AppendCall → WalFile
  | [] => w
  | c :: cs => (w.append c).appendAll cs

/-- The records a manager with `last_lsn_ = lastLsn` writes for `cs`. -/
def recordsFor (lastLsn : Nat) : List AppendCall → List WalRecord
  | [] => []
  | c :: cs =>
    let lsn := (lastLsn + 1) % 2 ^ 64
    c.record lsn :: recordsFor lsn cs

end WalFile

end ScratchDb
