import WalFlux.Daemon.Relations
import WalFlux.Protocol.RoundTrip
import WalFlux.Values.Output

/-! What the source commits and how the server sends it: tables with typed rows, transactions of
changes to them, and the publisher as a machine that writes one pgoutput message at a time. -/

namespace WalFlux

open Aggregates Protocol Python

instance (s : String) : Decidable (NulFree s) := inferInstanceAs (Decidable (_ ∉ _))

/-! ### Tables -/

/-- A table as the catalog has it at some time, with full replica identity. -/
structure PublishedTable where
  relId : ℕ
  ns : String
  name : String
  columns : List WireColumn
  distinct : (columns.map WireColumn.name).Nodup
  fits : (Wire.relation relId ns name 'f' columns).Fits

namespace PublishedTable

def wire (t : PublishedTable) : Wire := .relation t.relId t.ns t.name 'f' t.columns

def relation (t : PublishedTable) : Relation :=
  ⟨t.relId, t.ns, t.name, 'f', t.columns.map WireColumn.column⟩

def names (t : PublishedTable) : List String := t.columns.map WireColumn.name

def views (config : Config) (t : PublishedTable) : List ViewSpec :=
  config.views.filter fun v => (v.sourceSchema, v.sourceTable) = (t.ns, t.name)

end PublishedTable

variable {F : Type} [PyFloat F]

abbrev SourceField (F : Type) := Option (Datum F)

namespace SourceField

def value : SourceField F → Value F
  | none => .none
  | some d => d.value

def cell : SourceField F → ColumnValue
  | none => .null
  | some d => .text d.output

end SourceField

/-- The field is of the column's type and within the length the protocol can carry. -/
structure FieldOf (c : WireColumn) (d : SourceField F) : Prop where
  typed : ∀ x ∈ d, x.OfType c.typeOid
  fits : (SourceField.cell d).Fits

structure SourceRow (F : Type) [PyFloat F] (t : PublishedTable) where
  fields : List (SourceField F)
  typed : List.Forall₂ FieldOf t.columns fields

namespace SourceRow

variable {t : PublishedTable}

def row (r : SourceRow F t) : Row F := t.names.zip (r.fields.map SourceField.value)

def data (r : SourceRow F t) : TupleData := r.fields.map SourceField.cell

end SourceRow

/-! ### Changes -/

/-- A field before and after an update. The server does not send a value that is stored out of line
and that the update leaves as it is. -/
inductive FieldUpdate (F : Type)
  | stored (old new : SourceField F)
  | kept (d : SourceField F)

namespace FieldUpdate

def old : FieldUpdate F → SourceField F
  | stored old _ => old
  | kept d => d

def new : FieldUpdate F → SourceField F
  | stored _ new => new
  | kept d => d

def cell : FieldUpdate F → ColumnValue
  | stored _ new => new.cell
  | kept _ => .unchangedToast

end FieldUpdate

structure SourceUpdate (F : Type) [PyFloat F] (t : PublishedTable) where
  fields : List (FieldUpdate F)
  oldTyped : List.Forall₂ FieldOf t.columns (fields.map FieldUpdate.old)
  newTyped : List.Forall₂ FieldOf t.columns (fields.map FieldUpdate.new)

namespace SourceUpdate

variable {t : PublishedTable}

def old (u : SourceUpdate F t) : SourceRow F t := ⟨u.fields.map FieldUpdate.old, u.oldTyped⟩

def new (u : SourceUpdate F t) : SourceRow F t := ⟨u.fields.map FieldUpdate.new, u.newTyped⟩

def data (u : SourceUpdate F t) : TupleData := u.fields.map FieldUpdate.cell

end SourceUpdate

structure SourceTruncate where
  tables : List PublishedTable
  options : ℕ
  distinct : (tables.map PublishedTable.relId).Nodup
  fits : tables.length < 2 ^ 32 ∧ options < 2 ^ 8

inductive Change (F : Type) [PyFloat F]
  | insert (t : PublishedTable) (new : SourceRow F t)
  | update (t : PublishedTable) (fields : SourceUpdate F t)
  | delete (t : PublishedTable) (old : SourceRow F t)
  | truncate (ts : SourceTruncate)

namespace Change

def tables : Change F → List PublishedTable
  | insert t _ | update t _ | delete t _ => [t]
  | truncate ts => ts.tables

/-- The message about a change; with full replica identity it has the whole old row. -/
def wire : Change F → Wire
  | insert t new => .insert t.relId new.data
  | update t u => .update t.relId (.old u.old.data) u.data
  | delete t old => .delete t.relId (.old old.data)
  | truncate ts => .truncate ts.options (ts.tables.map PublishedTable.relId)

def ops (config : Config) : Change F → List (Op F)
  | insert t new => (t.views config).map fun v => .insert v.name new.row
  | update t u => (t.views config).map fun v => .update v.name u.old.row u.new.row
  | delete t old => (t.views config).map fun v => .delete v.name old.row
  | truncate ts => ts.tables.flatMap fun t => (t.views config).map fun v => .truncate v.name

end Change

structure SourceTxn (F : Type) [PyFloat F] where
  endLsn : ℕ
  changes : List (Change F)
  fits : endLsn < 2 ^ 64

def SourceTxn.sealed (config : Config) (t : SourceTxn F) : SealedTxn F :=
  ⟨t.endLsn, t.changes.flatMap (Change.ops config)⟩

def SourceTxn.tables (t : SourceTxn F) : List PublishedTable := t.changes.flatMap Change.tables

/-! ### The publisher -/

/-- A connection: the tables it was told of, by id, the transactions it was sent in full, and the
changes of the one being sent. -/
structure Publisher (F : Type) [PyFloat F] where
  known : ℕ → Option PublishedTable
  sent : List (SourceTxn F)
  current : Option (List (Change F))

namespace Publisher

def fresh : Publisher F := ⟨fun _ => none, [], none⟩

def announce (w : Publisher F) (t : PublishedTable) : Publisher F :=
  { w with known := Function.update w.known t.relId (some t) }

theorem announce_known_self (w : Publisher F) (t : PublishedTable) :
    (w.announce t).known t.relId = some t := Function.update_self ..

theorem announce_known_of_ne (w : Publisher F) {t : PublishedTable} {id : ℕ} (h : id ≠ t.relId) :
    (w.announce t).known id = w.known id := Function.update_of_ne h ..

/-- One message. A table is announced before its first change, in the version it has then, and may
be announced again at any time within a transaction. -/
inductive Sends (tables : Set PublishedTable) (w : Publisher F) : Wire → Publisher F → Prop
  | begin {finalLsn : ℕ} {commitTs : Timestamp} {xid : ℕ} (hnone : w.current = none)
      (hfits : (Wire.begin finalLsn commitTs xid).Fits) :
      Sends tables w (.begin finalLsn commitTs xid) { w with current := some [] }
  | announce {t : PublishedTable} (hsome : w.current.isSome) (ht : t ∈ tables) :
      Sends tables w t.wire (w.announce t)
  | origin {commitLsn : ℕ} {name : String} (hsome : w.current.isSome)
      (hfits : (Wire.origin commitLsn name).Fits) : Sends tables w (.origin commitLsn name) w
  | type {typeOid : ℕ} {ns name : String} (hsome : w.current.isSome)
      (hfits : (Wire.type typeOid ns name).Fits) : Sends tables w (.type typeOid ns name) w
  | change {c : Change F} {changes : List (Change F)} (hcurrent : w.current = some changes)
      (hknown : ∀ t ∈ c.tables, w.known t.relId = some t) :
      Sends tables w c.wire { w with current := some (changes ++ [c]) }
  | commit {flags commitLsn : ℕ} {commitTs : Timestamp} {t : SourceTxn F}
      (hcurrent : w.current = some t.changes)
      (hfits : (Wire.commit flags commitLsn t.endLsn commitTs).Fits) :
      Sends tables w (.commit flags commitLsn t.endLsn commitTs)
        { w with sent := w.sent ++ [t], current := none }

inductive SendsAll (tables : Set PublishedTable) : Publisher F → List Wire → Publisher F → Prop
  | nil (w : Publisher F) : SendsAll tables w [] w
  | cons {w w' w'' : Publisher F} {m : Wire} {ms : List Wire} :
      Sends tables w m w' → SendsAll tables w' ms w'' → SendsAll tables w (m :: ms) w''

theorem SendsAll.append {tables : Set PublishedTable} {w w' w'' : Publisher F} {ms ms' : List Wire}
    (h : SendsAll tables w ms w') (h' : SendsAll tables w' ms' w'') :
    SendsAll tables w (ms ++ ms') w'' := by
  induction h with
  | nil => exact h'
  | cons hsends _ ih => exact .cons hsends (ih h')

end Publisher

/-! ### What is sent can be read -/

omit [PyFloat F] in
theorem decodeMessage_append {m : Wire} (h : m.Fits) (rest : List UInt8) :
    decodeMessage (encodeMessage m ++ rest) = .ok m.message := by
  have hkind : Char.ofNat (UInt8.ofNat m.kind.toNat).toNat = m.kind := by
    rw [UInt8.toNat_ofNat', Nat.mod_eq_of_lt (kind_lt m), Char.ofNat_toNat]
  have hbody := body_consumes (k := m.kind) m h (encodeTag m.kind) rest
  have hone : (1 : ℤ) = ((encodeTag m.kind).length : ℤ) := rfl
  have hbuf : encodeMessage m ++ rest = UInt8.ofNat m.kind.toNat :: (m.body ++ rest) := rfl
  rw [hbuf, decodeMessage, hkind, decoders_kind]
  dsimp only
  rw [hone]
  change (m.decoder ⟨encodeTag m.kind ++ m.body ++ rest, m.kind, _⟩).map Prod.fst = _
  rw [hbody]
  rfl

theorem SourceRow.tupleFits {t : PublishedTable} (r : SourceRow F t) : TupleFits r.data := by
  obtain ⟨-, -, -, -, hlen, -⟩ := t.fits
  refine ⟨?_, fun v hv => ?_⟩
  · rwa [SourceRow.data, List.length_map, ← r.typed.length_eq]
  · obtain ⟨d, hd, rfl⟩ := List.mem_map.mp hv
    obtain ⟨c, -, hfield⟩ := r.typed.exists_of_mem_right hd
    exact hfield.fits

theorem SourceUpdate.tupleFits {t : PublishedTable} (u : SourceUpdate F t) : TupleFits u.data := by
  obtain ⟨-, -, -, -, hlen, -⟩ := t.fits
  refine ⟨?_, fun v hv => ?_⟩
  · rwa [SourceUpdate.data, List.length_map, ← List.length_map
      FieldUpdate.new, ← u.newTyped.length_eq]
  · obtain ⟨f, hf, rfl⟩ := List.mem_map.mp hv
    cases f with
    | kept d => trivial
    | stored old new =>
      obtain ⟨c, -, hfield⟩ := u.newTyped.exists_of_mem_right (List.mem_map_of_mem hf)
      exact hfield.fits

theorem Change.fits (c : Change F) : c.wire.Fits := by
  cases c with
  | insert t new => exact ⟨t.fits.1, new.tupleFits⟩
  | update t u => exact ⟨t.fits.1, u.old.tupleFits, u.tupleFits⟩
  | delete t old => exact ⟨t.fits.1, old.tupleFits⟩
  | truncate ts =>
    refine ⟨ts.fits.2, ?_, fun id hid => ?_⟩
    · rw [List.length_map]
      exact ts.fits.1
    · obtain ⟨t, -, rfl⟩ := List.mem_map.mp hid
      exact t.fits.1

theorem Publisher.Sends.fits {tables : Set PublishedTable} {w w' : Publisher F} {m : Wire}
    (h : w.Sends tables m w') : m.Fits := by
  cases h with
  | begin _ hfits => exact hfits
  | announce => exact PublishedTable.fits _
  | origin _ hfits => exact hfits
  | type _ hfits => exact hfits
  | change => exact Change.fits _
  | commit _ hfits => exact hfits

theorem Publisher.SendsAll.decodes {tables : Set PublishedTable} {w w' : Publisher F}
    {ms : List Wire} (h : Publisher.SendsAll tables w ms w') :
    ∀ m ∈ ms, decodeMessage (encodeMessage m) = .ok m.message := by
  induction h with
  | nil => exact fun m hm => (by cases hm)
  | cons hsends _ ih =>
    refine List.forall_mem_cons.mpr ⟨?_, ih⟩
    have hdecode := decodeMessage_append hsends.fits []
    rwa [List.append_nil] at hdecode

end WalFlux
