import WalFlux.Protocol.Decode

/-! The wire format of pgoutput version 1, written as an encoder, and the decoder as its
left inverse. -/

namespace WalFlux.Protocol
open Cursor Bytes

structure WireColumn where
  flags : ℕ
  name : String
  typeOid : ℕ
  typeMod : ℤ

inductive OldPart
  | absent
  | key (values : TupleData)
  | old (values : TupleData)

inductive DeletePart
  | key (values : TupleData)
  | old (values : TupleData)

/-- The nine message kinds with every field the wire carries. -/
inductive Wire
  | begin (finalLsn : ℕ) (commitTs : Timestamp) (xid : ℕ)
  | commit (flags commitLsn endLsn : ℕ) (commitTs : Timestamp)
  | origin (commitLsn : ℕ) (name : String)
  | relation (relId : ℕ) (ns name : String) (replicaIdentity : Char) (columns : List WireColumn)
  | type (typeOid : ℕ) (ns name : String)
  | insert (relId : ℕ) (new : TupleData)
  | update (relId : ℕ) (before : OldPart) (new : TupleData)
  | delete (relId : ℕ) (before : DeletePart)
  | truncate (options : ℕ) (relIds : List ℕ)

def WireColumn.column (c : WireColumn) : Column :=
  ⟨c.name, c.typeOid, c.typeMod, c.flags % 2 = 1⟩

def Wire.message : Wire → Message
  | .begin finalLsn commitTs xid => .begin ⟨finalLsn, commitTs, xid⟩
  | .commit flags commitLsn endLsn commitTs => .commit ⟨flags, commitLsn, endLsn, commitTs⟩
  | .origin commitLsn name => .origin ⟨commitLsn, name⟩
  | .relation relId ns name identity columns =>
    .relation ⟨relId, ns, name, identity, columns.map WireColumn.column⟩
  | .type typeOid ns name => .typeInfo ⟨typeOid, ns, name⟩
  | .insert relId new => .insert ⟨relId, new⟩
  | .update relId .absent new => .update ⟨relId, none, none, new⟩
  | .update relId (.key values) new => .update ⟨relId, none, some values, new⟩
  | .update relId (.old values) new => .update ⟨relId, some values, none, new⟩
  | .delete relId (.key values) => .delete ⟨relId, none, some values⟩
  | .delete relId (.old values) => .delete ⟨relId, some values, none⟩
  | .truncate options relIds => .truncate ⟨options, relIds⟩

/-! ### The encoder -/

def encodeTag (c : Char) : List UInt8 := [UInt8.ofNat c.toNat]

def encodeCstring (s : String) : List UInt8 := encodeUtf8 s ++ [0]

def encodeTimestamp (t : Timestamp) : List UInt8 := ofNat 8 (unsigned 8 t.micros)

def encodeColumnValue : ColumnValue → List UInt8
  | .null => encodeTag 'n'
  | .unchangedToast => encodeTag 'u'
  | .text s => encodeTag 't' ++ ofNat 4 (unsigned 4 (encodeUtf8 s).length) ++ encodeUtf8 s

def encodeTupleData (values : TupleData) : List UInt8 :=
  ofNat 2 values.length ++ values.flatMap encodeColumnValue

def encodeColumn (c : WireColumn) : List UInt8 :=
  ofNat 1 c.flags ++ encodeCstring c.name ++ ofNat 4 c.typeOid ++ ofNat 4 (unsigned 4 c.typeMod)

def encodeOldPart : OldPart → List UInt8
  | .absent => []
  | .key values => encodeTag 'K' ++ encodeTupleData values
  | .old values => encodeTag 'O' ++ encodeTupleData values

def encodeDeletePart : DeletePart → List UInt8
  | .key values => encodeTag 'K' ++ encodeTupleData values
  | .old values => encodeTag 'O' ++ encodeTupleData values

def Wire.kind : Wire → Char
  | .begin .. => 'B'
  | .commit .. => 'C'
  | .origin .. => 'O'
  | .relation .. => 'R'
  | .type .. => 'Y'
  | .insert .. => 'I'
  | .update .. => 'U'
  | .delete .. => 'D'
  | .truncate .. => 'T'

def Wire.body : Wire → List UInt8
  | .begin finalLsn commitTs xid => ofNat 8 finalLsn ++ encodeTimestamp commitTs ++ ofNat 4 xid
  | .commit flags commitLsn endLsn commitTs =>
    ofNat 1 flags ++ ofNat 8 commitLsn ++ ofNat 8 endLsn ++ encodeTimestamp commitTs
  | .origin commitLsn name => ofNat 8 commitLsn ++ encodeCstring name
  | .relation relId ns name identity columns =>
    ofNat 4 relId ++ encodeCstring ns ++ encodeCstring name ++ encodeTag identity ++
      ofNat 2 columns.length ++ columns.flatMap encodeColumn
  | .type typeOid ns name => ofNat 4 typeOid ++ encodeCstring ns ++ encodeCstring name
  | .insert relId new => ofNat 4 relId ++ encodeTag 'N' ++ encodeTupleData new
  | .update relId before new =>
    ofNat 4 relId ++ encodeOldPart before ++ encodeTag 'N' ++ encodeTupleData new
  | .delete relId before => ofNat 4 relId ++ encodeDeletePart before
  | .truncate options relIds =>
    ofNat 4 relIds.length ++ ofNat 1 options ++ relIds.flatMap (ofNat 4)

def encodeMessage (w : Wire) : List UInt8 := encodeTag w.kind ++ w.body

/-! ### The values the format can carry -/

def NulFree (s : String) : Prop := '\x00' ∉ s.toList

def ColumnValue.Fits : ColumnValue → Prop
  | .text s => (encodeUtf8 s).length < 2 ^ 31
  | _ => True

def TupleFits (values : TupleData) : Prop := values.length < 2 ^ 16 ∧ ∀ v ∈ values, v.Fits

structure WireColumn.Fits (c : WireColumn) : Prop where
  flags : c.flags < 2 ^ 8
  name : NulFree c.name
  typeOid : c.typeOid < 2 ^ 32
  typeMod : -(2 ^ 31) ≤ c.typeMod ∧ c.typeMod < 2 ^ 31

def OldPart.Fits : OldPart → Prop
  | .absent => True
  | .key values => TupleFits values
  | .old values => TupleFits values

def DeletePart.Fits : DeletePart → Prop
  | .key values => TupleFits values
  | .old values => TupleFits values

def Wire.Fits : Wire → Prop
  | .begin finalLsn _ xid => finalLsn < 2 ^ 64 ∧ xid < 2 ^ 32
  | .commit flags commitLsn endLsn _ => flags < 2 ^ 8 ∧ commitLsn < 2 ^ 64 ∧ endLsn < 2 ^ 64
  | .origin commitLsn name => commitLsn < 2 ^ 64 ∧ NulFree name
  | .relation relId ns name identity columns =>
    relId < 2 ^ 32 ∧ NulFree ns ∧ NulFree name ∧ identity ∈ replicaIdentities ∧
      columns.length < 2 ^ 16 ∧ ∀ c ∈ columns, c.Fits
  | .type typeOid ns name => typeOid < 2 ^ 32 ∧ NulFree ns ∧ NulFree name
  | .insert relId new => relId < 2 ^ 32 ∧ TupleFits new
  | .update relId before new => relId < 2 ^ 32 ∧ before.Fits ∧ TupleFits new
  | .delete relId before => relId < 2 ^ 32 ∧ before.Fits
  | .truncate options relIds =>
    options < 2 ^ 8 ∧ relIds.length < 2 ^ 32 ∧ ∀ r ∈ relIds, r < 2 ^ 32

/-! ### Each reader consumes its field -/

variable {k : Char}

theorem take_consumes (bs : List UInt8) : Consumes k (take bs.length) bs bs := by
  intro pre rest
  have hle : ¬ ((pre.length : ℤ) + bs.length > ((pre ++ bs ++ rest).length : ℕ)) := by
    simp only [List.length_append]
    omega
  simp only [take, if_neg hle, Python.slice_append]

theorem unpack_consumes {w n : ℕ} (h : n < 256 ^ w) : Consumes k (unpack w) (ofNat w n) n := by
  have ht := take_consumes (k := k) (ofNat w n)
  rw [length_ofNat] at ht
  refine ht.bind_nil ?_
  rw [length_ofNat, if_pos rfl, Bytes.toNat_ofNat h]
  exact Consumes.pure k n

theorem ofNat_one {n : ℕ} (h : n < 2 ^ 8) : ofNat 1 n = [UInt8.ofNat n] := by
  rw [ofNat, ofNat, List.nil_append, show n % 256 = n from Nat.mod_eq_of_lt h]

theorem uint8_consumes {n : ℕ} (h : n < 2 ^ 8) : Consumes k uint8 (ofNat 1 n) n := by
  have ht := take_consumes (k := k) (ofNat 1 n)
  rw [length_ofNat] at ht
  refine ht.bind_nil ?_
  have hn : (UInt8.ofNat n).toNat = n := by
    rw [UInt8.toNat_ofNat', show n % 2 ^ 8 = n from Nat.mod_eq_of_lt h]
  rw [ofNat_one h]
  change Consumes k (pure (UInt8.ofNat n).toNat) [] n
  rw [hn]
  exact Consumes.pure k n

theorem tag_consumes {c : Char} (h : c.toNat < 2 ^ 8) : Consumes k tag (encodeTag c) c := by
  rw [encodeTag, ← ofNat_one h]
  have := (uint8_consumes (k := k) h).map Char.ofNat
  rwa [Char.ofNat_toNat] at this

theorem signed_consumes {w : ℕ} {i : ℤ} (hlo : -(256 ^ w) ≤ 2 * i) (hhi : 2 * i < 256 ^ w) :
    Consumes k (signed w <$> unpack w) (ofNat w (unsigned w i)) i := by
  have := (unpack_consumes (k := k) (unsigned_lt w i)).map (signed w)
  rwa [signed_unsigned hlo hhi] at this

theorem int32_consumes {i : ℤ} (h : -(2 ^ 31) ≤ i ∧ i < 2 ^ 31) :
    Consumes k int32 (ofNat 4 (unsigned 4 i)) i :=
  signed_consumes (by norm_num; linarith [h.1]) (by norm_num; linarith [h.2])

theorem timestamp_consumes (t : Timestamp) : Consumes k timestamp (encodeTimestamp t) t := by
  obtain ⟨micros, hr⟩ := t
  have hm := hr
  simp only [minMicros, maxMicros] at hm
  have hs : signed 8 (unsigned 8 micros) = micros :=
    signed_unsigned (by norm_num; linarith [hm.1]) (by norm_num; linarith [hm.2])
  refine (unpack_consumes (unsigned_lt 8 micros)).bind_nil ?_
  simp only [hs, hr, and_self, dite_true]
  exact Consumes.pure k _

theorem decodeText_consumes (s : String) : Consumes k (decodeText (encodeUtf8 s)) [] s := by
  simp only [decodeText, decodeUtf8_encodeUtf8]
  exact Consumes.pure k s

theorem untilNul_consumes {bs : List UInt8} (h : 0 ∉ bs) :
    Consumes k untilNul (bs ++ [0]) bs := by
  intro pre rest
  have hb : pre ++ (bs ++ [0]) ++ rest = pre ++ bs ++ 0 :: rest := by
    simp only [List.append_assoc, List.singleton_append]
  rw [hb]
  simp only [untilNul, Python.find_append pre bs rest 0 h, Nat.cast_add, Python.slice_append,
    List.length_append, List.length_singleton, Nat.cast_one, add_assoc]

theorem cstring_consumes {s : String} (h : NulFree s) :
    Consumes k cstring (encodeCstring s) s :=
  (untilNul_consumes (zero_notMem_encodeUtf8 h)).bind_nil (decodeText_consumes s)

theorem decodeColumnValue_consumes {v : ColumnValue} (h : v.Fits) :
    Consumes k decodeColumnValue (encodeColumnValue v) v := by
  cases v with
  | null =>
    refine (tag_consumes (c := 'n') (by decide)).bind_nil ?_
    exact Consumes.pure k ColumnValue.null
  | unchangedToast =>
    refine (tag_consumes (c := 'u') (by decide)).bind_nil ?_
    exact Consumes.pure k ColumnValue.unchangedToast
  | text s =>
    have hlen : -(2 ^ 31) ≤ ((encodeUtf8 s).length : ℤ) ∧ ((encodeUtf8 s).length : ℤ) < 2 ^ 31 :=
      ⟨by omega, by exact_mod_cast h⟩
    rw [encodeColumnValue, List.append_assoc]
    refine (tag_consumes (c := 't') (by decide)).bind ?_
    refine (int32_consumes hlen).bind ?_
    refine (take_consumes (encodeUtf8 s)).bind_nil ?_
    exact (decodeText_consumes s).bind_nil (Consumes.pure k _)

theorem decodeTupleData_consumes {values : TupleData} (h : TupleFits values) :
    Consumes k decodeTupleData (encodeTupleData values) values := by
  refine (unpack_consumes (w := 2) (by simpa using h.1)).bind ?_
  have := Consumes.times (k := k) (d := id) values fun v hv =>
    decodeColumnValue_consumes (h.2 v hv)
  rwa [List.map_id] at this

theorem decodeColumn_consumes {c : WireColumn} (h : c.Fits) :
    Consumes k decodeColumn (encodeColumn c) c.column := by
  rw [encodeColumn, List.append_assoc, List.append_assoc]
  refine (uint8_consumes h.flags).bind ?_
  refine (cstring_consumes h.name).bind ?_
  refine (unpack_consumes (by simpa using h.typeOid)).bind ?_
  exact (int32_consumes h.typeMod).bind_nil (Consumes.pure k _)

theorem expectTag_consumes {c : Char} : Consumes k (expectTag c c) [] () := by
  rw [expectTag, if_neg (not_not_intro rfl)]
  exact Consumes.pure k ()

/-! ### One decoder per kind -/

def Wire.decoder : Wire → Reader Message
  | .begin .. => decodeBegin
  | .commit .. => decodeCommit
  | .origin .. => decodeOrigin
  | .relation .. => decodeRelation
  | .type .. => decodeType
  | .insert .. => decodeInsert
  | .update .. => decodeUpdate
  | .delete .. => decodeDelete
  | .truncate .. => decodeTruncate

theorem decoders_kind (w : Wire) : decoders w.kind = some w.decoder := by
  cases w <;> rfl

theorem kind_lt (w : Wire) : w.kind.toNat < 2 ^ 8 := by
  cases w <;> simp only [Wire.kind] <;> decide

theorem replicaIdentity_lt {c : Char} (h : c ∈ replicaIdentities) : c.toNat < 2 ^ 8 := by
  simp only [replicaIdentities, List.mem_cons, List.not_mem_nil, or_false] at h
  rcases h with rfl | rfl | rfl | rfl <;> decide

theorem expectNew_consumes {values : TupleData} (h : TupleFits values)
    (f : TupleData → Message) :
    Consumes k (do
      expectTag 'N' (← tag)
      return f (← decodeTupleData)) (encodeTag 'N' ++ encodeTupleData values) (f values) := by
  refine (tag_consumes (c := 'N') (by decide)).bind ?_
  refine (expectTag_consumes (c := 'N')).bind ?_
  exact (decodeTupleData_consumes h).bind_nil (Consumes.pure k _)

theorem decodeRelation_consumes {relId : ℕ} {ns name : String} {c : Char}
    {columns : List WireColumn} (h : (Wire.relation relId ns name c columns).Fits) :
    Consumes k decodeRelation (Wire.relation relId ns name c columns).body
      (Wire.relation relId ns name c columns).message := by
  obtain ⟨hid, hns, hname, hc, hlen, hcols⟩ := h
  simp only [Wire.body, List.append_assoc]
  refine (unpack_consumes (by simpa using hid)).bind ?_
  refine (cstring_consumes hns).bind ?_
  refine (cstring_consumes hname).bind ?_
  refine (tag_consumes (replicaIdentity_lt hc)).bind ?_
  rw [if_neg (not_not_intro hc)]
  refine (unpack_consumes (w := 2) (by simpa using hlen)).bind ?_
  refine (Consumes.times columns fun c hcol => decodeColumn_consumes (hcols c hcol)).bind_nil ?_
  exact Consumes.pure k _

theorem decodeUpdate_consumes {relId : ℕ} {before : OldPart} {new : TupleData}
    (h : (Wire.update relId before new).Fits) :
    Consumes k decodeUpdate (Wire.update relId before new).body
      (Wire.update relId before new).message := by
  obtain ⟨hid, hb, hnew⟩ := h
  simp only [Wire.body, List.append_assoc]
  refine (unpack_consumes (by simpa using hid)).bind ?_
  cases before with
  | absent =>
    refine (tag_consumes (c := 'N') (by decide)).bind ?_
    refine (expectTag_consumes (c := 'N')).bind ?_
    exact (decodeTupleData_consumes hnew).bind_nil (Consumes.pure k _)
  | key values =>
    rw [encodeOldPart, List.append_assoc]
    refine (tag_consumes (c := 'K') (by decide)).bind ?_
    refine (decodeTupleData_consumes (show TupleFits values from hb)).bind ?_
    exact expectNew_consumes hnew fun new => .update ⟨relId, none, some values, new⟩
  | old values =>
    rw [encodeOldPart, List.append_assoc]
    refine (tag_consumes (c := 'O') (by decide)).bind ?_
    refine (decodeTupleData_consumes (show TupleFits values from hb)).bind ?_
    exact expectNew_consumes hnew fun new => .update ⟨relId, some values, none, new⟩

theorem decodeDelete_consumes {relId : ℕ} {before : DeletePart}
    (h : (Wire.delete relId before).Fits) :
    Consumes k decodeDelete (Wire.delete relId before).body
      (Wire.delete relId before).message := by
  refine (unpack_consumes (by simpa using h.1)).bind ?_
  cases before with
  | key values =>
    refine (tag_consumes (c := 'K') (by decide)).bind ?_
    exact (decodeTupleData_consumes (show TupleFits values from h.2)).bind_nil (Consumes.pure k _)
  | old values =>
    refine (tag_consumes (c := 'O') (by decide)).bind ?_
    exact (decodeTupleData_consumes (show TupleFits values from h.2)).bind_nil (Consumes.pure k _)

theorem decodeTruncate_consumes {options : ℕ} {relIds : List ℕ}
    (h : (Wire.truncate options relIds).Fits) :
    Consumes k decodeTruncate (Wire.truncate options relIds).body
      (Wire.truncate options relIds).message := by
  obtain ⟨ho, hlen, hids⟩ := h
  rw [Wire.body, List.append_assoc]
  refine (unpack_consumes (by simpa using hlen)).bind ?_
  refine (uint8_consumes ho).bind ?_
  have ht := Consumes.times (k := k) (p := uint32) (d := id) relIds fun r hr =>
    unpack_consumes (w := 4) (n := r) (by simpa using hids r hr)
  rw [List.map_id] at ht
  exact ht.bind_nil (Consumes.pure k _)

theorem body_consumes (w : Wire) (h : w.Fits) : Consumes k w.decoder w.body w.message := by
  cases w with
  | begin finalLsn t xid =>
    rw [Wire.body, List.append_assoc]
    refine (unpack_consumes (by simpa using h.1)).bind ?_
    refine (timestamp_consumes t).bind ?_
    exact (unpack_consumes (by simpa using h.2)).bind_nil (Consumes.pure k _)
  | commit flags commitLsn endLsn t =>
    simp only [Wire.body, List.append_assoc]
    refine (uint8_consumes h.1).bind ?_
    refine (unpack_consumes (by simpa using h.2.1)).bind ?_
    refine (unpack_consumes (by simpa using h.2.2)).bind ?_
    exact (timestamp_consumes t).bind_nil (Consumes.pure k _)
  | origin commitLsn name =>
    refine (unpack_consumes (by simpa using h.1)).bind ?_
    exact (cstring_consumes h.2).bind_nil (Consumes.pure k _)
  | relation relId ns name c columns => exact decodeRelation_consumes h
  | type typeOid ns name =>
    rw [Wire.body, List.append_assoc]
    refine (unpack_consumes (by simpa using h.1)).bind ?_
    refine (cstring_consumes h.2.1).bind ?_
    exact (cstring_consumes h.2.2).bind_nil (Consumes.pure k _)
  | insert relId new =>
    rw [Wire.body, List.append_assoc]
    refine (unpack_consumes (by simpa using h.1)).bind ?_
    exact expectNew_consumes h.2 fun new => .insert ⟨relId, new⟩
  | update relId before new => exact decodeUpdate_consumes h
  | delete relId before => exact decodeDelete_consumes h
  | truncate options relIds => exact decodeTruncate_consumes h

/-- Decoding undoes encoding, with the upper column flags forgotten. -/
theorem decodeMessage_encodeMessage (w : Wire) (h : w.Fits) :
    decodeMessage (encodeMessage w) = .ok w.message := by
  have hk : Char.ofNat (UInt8.ofNat w.kind.toNat).toNat = w.kind := by
    rw [UInt8.toNat_ofNat', Nat.mod_eq_of_lt (kind_lt w), Char.ofNat_toNat]
  have hc := body_consumes (k := w.kind) w h (encodeTag w.kind) []
  rw [List.append_nil] at hc
  rw [encodeMessage, encodeTag, List.singleton_append, decodeMessage]
  simp only [hk, decoders_kind]
  rw [encodeTag, List.singleton_append] at hc
  rw [show (1 : ℤ) = (([UInt8.ofNat w.kind.toNat] : List UInt8).length : ℤ) from rfl, hc]
  rfl

theorem decodeMessage_encodeMessage_update :
    decodeMessage (encodeMessage (.update 16385 (.old [.null, .text "é"]) [.unchangedToast])) =
      .ok (.update ⟨16385, some [.null, .text "é"], none, [.unchangedToast]⟩) :=
  decodeMessage_encodeMessage _ ⟨by decide,
    ⟨by decide, by simp [ColumnValue.Fits, show (encodeUtf8 "é").length = 2 by decide]⟩,
    ⟨by decide, by simp [ColumnValue.Fits]⟩⟩

end WalFlux.Protocol
