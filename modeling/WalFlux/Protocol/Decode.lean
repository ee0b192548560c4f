import WalFlux.Common
import WalFlux.Library.Bytes
import WalFlux.Library.Cursor

/-! The pgoutput version 1 decoder: message types, the bounds-checked reader and one
decoder per message kind. -/

namespace WalFlux.Protocol

inductive ColumnValue
  | null
  | unchangedToast
  | text (s : String)
  deriving DecidableEq, Repr

abbrev TupleData := List ColumnValue

/-- Microseconds from the Postgres epoch to the ends of `datetime`'s range, years 1 and 9999. -/
def minMicros : ℤ := -(730119 * 86400 * 1000000)

def maxMicros : ℤ := 2921940 * 86400 * 1000000 - 1

/-- An aware UTC `datetime`, as its distance from 2000-01-01. -/
structure Timestamp where
  micros : ℤ
  inRange : minMicros ≤ micros ∧ micros ≤ maxMicros
  deriving DecidableEq

def Timestamp.epoch : Timestamp := ⟨0, by decide⟩

structure Column where
  name : String
  typeOid : ℕ
  typeMod : ℤ
  isKey : Bool
  deriving DecidableEq, Repr

structure Relation where
  relId : ℕ
  ns : String
  name : String
  replicaIdentity : Char
  columns : List Column
  deriving DecidableEq, Repr

structure Begin where
  finalLsn : ℕ
  commitTs : Timestamp
  xid : ℕ
  deriving DecidableEq

structure Commit where
  flags : ℕ
  commitLsn : ℕ
  endLsn : ℕ
  commitTs : Timestamp
  deriving DecidableEq

structure Insert where
  relId : ℕ
  new : TupleData
  deriving DecidableEq, Repr

structure Update where
  relId : ℕ
  old : Option TupleData
  key : Option TupleData
  new : TupleData
  deriving DecidableEq, Repr

structure Delete where
  relId : ℕ
  old : Option TupleData
  key : Option TupleData
  deriving DecidableEq, Repr

structure Truncate where
  options : ℕ
  relIds : List ℕ
  deriving DecidableEq, Repr

structure Origin where
  commitLsn : ℕ
  name : String
  deriving DecidableEq, Repr

structure TypeInfo where
  typeOid : ℕ
  ns : String
  name : String
  deriving DecidableEq, Repr

inductive Message
  | begin (m : Begin)
  | commit (m : Commit)
  | relation (m : Relation)
  | insert (m : Insert)
  | update (m : Update)
  | delete (m : Delete)
  | truncate (m : Truncate)
  | origin (m : Origin)
  | typeInfo (m : TypeInfo)
  deriving DecidableEq

/-- `_Reader`: the buffer, the message kind and the offset of the next byte. -/
abbrev Reader := Cursor.Reader Char Error

def reprKind (kind : Char) : String := Python.repr (String.singleton kind)

def fail {α : Type} (msg : Cursor Char → String) : Reader α := fun r => .error (.protocol (msg r))

def raise {α : Type} (e : Error) : Reader α := fun _ => .error e

/-- Only the upper bound is checked, so a negative `n` moves the cursor back. -/
def take (n : ℤ) : Reader (List UInt8) := fun r =>
  let stop := r.pos + n
  if stop > r.buf.length then
    .error (.protocol (s!"truncated {reprKind r.kind} message: need {n} byte(s) at offset " ++
      s!"{r.pos}, buffer has {r.buf.length}"))
  else .ok (Python.slice r.buf r.pos stop, { r with pos := stop })

def uint8 : Reader ℕ := do
  match ← take 1 with
  | [] => raise .index
  | b :: _ => return b.toNat

def tag : Reader Char := do return Char.ofNat (← uint8)

def unpack (w : ℕ) : Reader ℕ := do
  let bs ← take w
  if bs.length = w then return Bytes.toNat bs else raise .structSize

def uint16 : Reader ℕ := unpack 2

def int32 : Reader ℤ := do return Bytes.signed 4 (← unpack 4)

def uint32 : Reader ℕ := unpack 4

def uint64 : Reader ℕ := unpack 8

def timestamp : Reader Timestamp := do
  let micros := Bytes.signed 8 (← unpack 8)
  if h : minMicros ≤ micros ∧ micros ≤ maxMicros then return ⟨micros, h⟩ else raise .overflow

def decodeText (bs : List UInt8) : Reader String :=
  match Bytes.decodeUtf8 bs with
  | none => raise .unicodeDecode
  | some s => pure s

def untilNul : Reader (List UInt8) := fun r =>
  match Python.find r.buf 0 r.pos with
  | none => .error (.protocol
      s!"unterminated string in {reprKind r.kind} message at offset {r.pos}")
  | some stop => .ok (Python.slice r.buf r.pos stop, { r with pos := (stop : ℤ) + 1 })

def cstring : Reader String := do decodeText (← untilNul)

def decodeColumnValue : Reader ColumnValue := do
  let category ← tag
  if category = 'n' then return .null
  else if category = 'u' then return .unchangedToast
  else if category = 't' then
    let length ← int32
    return .text (← decodeText (← take length))
  else if category = 'b' then
    fail fun r =>
      s!"binary column format 'b' in {reprKind r.kind} message at offset {r.pos - 1}: " ++
      "requires pgoutput protocol >= 2, but WalFlux negotiates version 1"
  else
    fail fun r => s!"unknown tuple column category {reprKind category} in {reprKind r.kind} " ++
      s!"message at offset {r.pos - 1}"

def decodeTupleData : Reader TupleData := do Cursor.times decodeColumnValue (← uint16)

def expectTag (expected got : Char) : Reader Unit :=
  if got ≠ expected then
    fail fun r => s!"expected {reprKind expected} submessage in {reprKind r.kind} message at " ++
      s!"offset {r.pos - 1}, got {reprKind got}"
  else return ()

def decodeBegin : Reader Message := do
  let finalLsn ← uint64
  let commitTs ← timestamp
  let xid ← uint32
  return .begin ⟨finalLsn, commitTs, xid⟩

def decodeCommit : Reader Message := do
  let flags ← uint8
  let commitLsn ← uint64
  let endLsn ← uint64
  let commitTs ← timestamp
  return .commit ⟨flags, commitLsn, endLsn, commitTs⟩

def decodeOrigin : Reader Message := do
  let commitLsn ← uint64
  let name ← cstring
  return .origin ⟨commitLsn, name⟩

def replicaIdentities : List Char := ['d', 'n', 'f', 'i']

def decodeColumn : Reader Column := do
  let flags ← uint8
  let name ← cstring
  let typeOid ← uint32
  let typeMod ← int32
  return ⟨name, typeOid, typeMod, flags % 2 = 1⟩

def decodeRelation : Reader Message := do
  let relId ← uint32
  let ns ← cstring
  let name ← cstring
  let replicaIdentity ← tag
  if replicaIdentity ∉ replicaIdentities then
    fail fun r => s!"unknown replica identity {reprKind replicaIdentity} in 'R' message at " ++
      s!"offset {r.pos - 1}"
  else
    let columns ← Cursor.times decodeColumn (← uint16)
    return .relation ⟨relId, ns, name, replicaIdentity, columns⟩

def decodeType : Reader Message := do
  let typeOid ← uint32
  let ns ← cstring
  let name ← cstring
  return .typeInfo ⟨typeOid, ns, name⟩

def decodeInsert : Reader Message := do
  let relId ← uint32
  expectTag 'N' (← tag)
  return .insert ⟨relId, ← decodeTupleData⟩

def decodeUpdate : Reader Message := do
  let relId ← uint32
  let submessage ← tag
  if submessage = 'K' then
    let key ← decodeTupleData
    expectTag 'N' (← tag)
    return .update ⟨relId, none, some key, ← decodeTupleData⟩
  else if submessage = 'O' then
    let old ← decodeTupleData
    expectTag 'N' (← tag)
    return .update ⟨relId, some old, none, ← decodeTupleData⟩
  else
    expectTag 'N' submessage
    return .update ⟨relId, none, none, ← decodeTupleData⟩

def decodeDelete : Reader Message := do
  let relId ← uint32
  let submessage ← tag
  if submessage = 'K' then
    return .delete ⟨relId, none, some (← decodeTupleData)⟩
  else if submessage = 'O' then
    return .delete ⟨relId, some (← decodeTupleData), none⟩
  else
    fail fun r => s!"expected 'K' or 'O' submessage in 'D' message at offset {r.pos - 1}, " ++
      s!"got {reprKind submessage}"

def decodeTruncate : Reader Message := do
  let count ← uint32
  let options ← uint8
  return .truncate ⟨options, ← Cursor.times uint32 count⟩

def decoders : Char → Option (Reader Message)
  | 'B' => some decodeBegin
  | 'C' => some decodeCommit
  | 'O' => some decodeOrigin
  | 'R' => some decodeRelation
  | 'Y' => some decodeType
  | 'I' => some decodeInsert
  | 'U' => some decodeUpdate
  | 'D' => some decodeDelete
  | 'T' => some decodeTruncate
  | _ => none

def hexByte (b : UInt8) : String := String.ofList ((Python.hexPadded 2 b.toNat).map Char.toUpper)

def decodeMessage (buf : List UInt8) : Except Error Message :=
  match buf with
  | [] => .error (.protocol "empty pgoutput message buffer")
  | b :: _ =>
    let kind := Char.ofNat b.toNat
    match decoders kind with
    | none => .error (.protocol
        s!"unknown pgoutput message type {reprKind kind} (byte 0x{hexByte b}) at offset 0")
    | some decoder => (decoder ⟨buf, kind, 1⟩).map Prod.fst

end WalFlux.Protocol
