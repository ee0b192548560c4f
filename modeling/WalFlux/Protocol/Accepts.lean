import WalFlux.Library.Accepts
import WalFlux.Library.Except
import WalFlux.Protocol.Failures
import WalFlux.Protocol.RoundTrip

/-! What the decoder accepts. The layout is walked once more, for the runs the cursor moves over and
for the text lengths it is steered by; the decoder returns only what the bytes encode exactly if
none of these lengths is negative. -/

namespace WalFlux.Protocol
open Cursor Bytes

abbrev WalkScan := Scan (Passed ℤ)

namespace Walk

def run (n : ℤ) : WalkScan (List UInt8) := fun buf pos =>
  if pos + n > buf.length then ([], none)
  else ([.run pos (pos + n)], some (Python.slice buf pos (pos + n), pos + n))

def fixed (w : ℕ) : WalkScan ℕ := do
  let bs ← run w
  if bs.length = w then return Bytes.toNat bs else Scan.stop

def signed4 : WalkScan ℤ := do return Bytes.signed 4 (← fixed 4)

def byte : WalkScan ℕ := do
  match ← run 1 with
  | [] => Scan.stop
  | b :: _ => return b.toNat

def mark : WalkScan Char := do return Char.ofNat (← byte)

def stamp : WalkScan Unit := do
  let _ ← fixed 8
  return ()

def name : WalkScan Unit := fun buf pos =>
  match Python.find buf 0 pos with
  | none => ([], none)
  | some stop => ([.run pos ((stop : ℤ) + 1)], some ((), (stop : ℤ) + 1))

def announced (n : ℤ) : WalkScan Unit := do
  Scan.field (.field n)
  let _ ← run n
  return ()

def value : WalkScan Unit := do
  let category ← mark
  if category = 'n' then return ()
  else if category = 'u' then return ()
  else if category = 't' then announced (← signed4)
  else Scan.stop

def tuple : WalkScan Unit := do Scan.times value (← fixed 2)

def expect (c got : Char) : WalkScan Unit := if got ≠ c then Scan.stop else return ()

def newTuple : WalkScan Unit := do
  expect 'N' (← mark)
  tuple

def column : WalkScan Unit := do
  let _ ← byte
  name
  let _ ← fixed 4
  let _ ← signed4
  return ()

def relation : WalkScan Unit := do
  let _ ← fixed 4
  name
  name
  let identity ← mark
  if identity ∉ replicaIdentities then Scan.stop else Scan.times column (← fixed 2)

def update : WalkScan Unit := do
  let _ ← fixed 4
  let submessage ← mark
  if submessage = 'K' then
    tuple
    newTuple
  else if submessage = 'O' then
    tuple
    newTuple
  else
    expect 'N' submessage
    tuple

def delete : WalkScan Unit := do
  let _ ← fixed 4
  let submessage ← mark
  if submessage = 'K' then tuple
  else if submessage = 'O' then tuple
  else Scan.stop

def message : Char → WalkScan Unit
  | 'B' => do
    let _ ← fixed 8
    stamp
    let _ ← fixed 4
    return ()
  | 'C' => do
    let _ ← byte
    let _ ← fixed 8
    let _ ← fixed 8
    stamp
  | 'O' => do
    let _ ← fixed 8
    name
  | 'R' => relation
  | 'Y' => do
    let _ ← fixed 4
    name
    name
  | 'I' => do
    let _ ← fixed 4
    newTuple
  | 'U' => update
  | 'D' => delete
  | 'T' => do
    let count ← fixed 4
    let _ ← byte
    Scan.times (fixed 4) count
  | _ => Scan.stop

end Walk

def passed : List UInt8 → List (Passed ℤ)
  | [] => []
  | b :: bs => .run 0 1 :: (Walk.message (Char.ofNat b.toNat) (b :: bs) 1).1

def announcedLengths (buf : List UInt8) : List ℤ :=
  (passed buf).filterMap fun
    | .run _ _ => none
    | .field n => some n

/-! ### Every reader accepts only encodings -/

abbrev Reads {α γ : Type} (p : Reader α) (s : WalkScan γ) (g : α → γ)
    (enc : α → List UInt8 → Prop) : Prop :=
  Accepts (0 ≤ ·) p s g enc

theorem take_reads {n : ℤ} (hn : 0 ≤ n) :
    Reads (take n) (Walk.run n) id fun bs' bs => bs' = bs ∧ (bs.length : ℤ) = n := by
  intro pre rest k a r h _
  obtain ⟨m, rfl⟩ := Int.eq_ofNat_of_zero_le hn
  unfold take at h
  dsimp only at h
  split_ifs at h with hstop
  cases h
  have hlen : m ≤ rest.length := by
    rw [List.length_append, Nat.cast_add] at hstop
    omega
  have htake : (rest.take m).length = m := List.length_take_of_le hlen
  have hslice : Python.slice (pre ++ rest) pre.length ((pre.length : ℤ) + m) = rest.take m := by
    have h := Python.slice_append pre (rest.take m) (rest.drop m)
    rwa [List.append_assoc, List.take_append_drop, htake] at h
  refine ⟨rest.take m, rest.drop m, (List.take_append_drop m rest).symm, ⟨hslice, ?_⟩, ?_⟩
  · rw [htake]
  · rw [htake, Walk.run, if_neg hstop]
    exact ⟨rfl, rfl, rfl, by omega, rfl⟩

theorem raise_reads {α γ : Type} (e : Error) (s : WalkScan γ) (g : α → γ)
    (enc : α → List UInt8 → Prop) : Reads (raise e) s g enc :=
  Accepts.error fun _ => ⟨e, rfl⟩

theorem fail_reads {α γ : Type} (msg : Cursor Char → String) (s : WalkScan γ) (g : α → γ)
    (enc : α → List UInt8 → Prop) : Reads (fail msg) s g enc :=
  Accepts.error fun r => ⟨.protocol (msg r), rfl⟩

theorem unpack_reads (w : ℕ) :
    Reads (unpack w) (Walk.fixed w) id fun n bs => n < 256 ^ w ∧ bs = ofNat w n := by
  refine ((take_reads (Int.natCast_nonneg w)).bind (h := id) (e := fun bs' n bs =>
    bs'.length = w ∧ n = toNat bs' ∧ bs = []) fun bs' => ?_).imp ?_
  · simp only [id]
    split_ifs with hlen
    · refine (Accepts.pure _ id).imp ?_
      rintro _ _ ⟨rfl, rfl⟩
      exact ⟨hlen, rfl, rfl⟩
    · exact raise_reads _ _ _ _
  · rintro _ _ ⟨bs, _, _, rfl, ⟨rfl, -⟩, hlen, rfl, rfl⟩
    rw [List.append_nil]
    exact ⟨hlen ▸ toNat_lt bs, by rw [← hlen, ofNat_toNat]⟩

theorem uint8_reads : Reads uint8 Walk.byte id fun n bs => n < 2 ^ 8 ∧ bs = ofNat 1 n := by
  refine ((take_reads one_pos.le).bind (h := id) (e := fun bs' n bs =>
    (∃ b bs'', bs' = b :: bs'' ∧ n = b.toNat) ∧ bs = []) fun bs' => ?_).imp ?_
  · cases bs' with
    | nil => exact raise_reads _ _ _ _
    | cons b bs'' =>
      refine (Accepts.pure _ id).imp ?_
      rintro _ _ ⟨rfl, rfl⟩
      exact ⟨⟨b, bs'', rfl, rfl⟩, rfl⟩
  · rintro _ _ ⟨_, bs, _, rfl, ⟨rfl, hlen⟩, ⟨b, bs'', rfl, rfl⟩, rfl⟩
    have hnil : bs'' = [] := List.length_eq_zero_iff.mp (by
      rw [List.length_cons] at hlen
      omega)
    subst hnil
    rw [List.append_nil, ofNat_one b.toNat_lt, UInt8.ofNat_toNat]
    exact ⟨b.toNat_lt, rfl⟩

theorem toNat_charOfNat {n : ℕ} (h : n < 2 ^ 8) : (Char.ofNat n).toNat = n := by
  rw [Char.toNat_ofNat, if_pos (.inl (by omega))]

theorem tag_reads : Reads tag Walk.mark id fun c bs => c.toNat < 2 ^ 8 ∧ bs = encodeTag c := by
  refine (uint8_reads.bind (h := id) fun n => Accepts.pure (Char.ofNat n) id).imp ?_
  rintro _ _ ⟨n, bs, _, rfl, ⟨hn, rfl⟩, rfl, rfl⟩
  rw [encodeTag, toNat_charOfNat hn, List.append_nil, ofNat_one hn]
  exact ⟨hn, rfl⟩

theorem int32_reads : Reads int32 Walk.signed4 id fun i bs =>
    (-(2 ^ 31) ≤ i ∧ i < 2 ^ 31) ∧ bs = ofNat 4 (unsigned 4 i) := by
  refine ((unpack_reads 4).bind (h := id) fun n => Accepts.pure (signed 4 n) id).imp ?_
  rintro _ _ ⟨n, bs, _, rfl, ⟨hn, rfl⟩, rfl, rfl⟩
  have hbounds := signed_bounds hn
  rw [unsigned_signed hn, List.append_nil]
  exact ⟨⟨by omega, by omega⟩, rfl⟩

theorem timestamp_reads :
    Reads timestamp Walk.stamp (fun _ => ()) fun t bs => bs = encodeTimestamp t := by
  refine ((unpack_reads 8).bind (h := fun _ => ()) (e := fun n t bs =>
    t.micros = signed 8 n ∧ bs = []) fun n => ?_).imp ?_
  · dsimp only
    split_ifs with hrange
    · refine (Accepts.pure _ fun _ => ()).imp ?_
      rintro _ _ ⟨rfl, rfl⟩
      exact ⟨rfl, rfl⟩
    · exact raise_reads _ _ _ _
  · rintro t _ ⟨n, bs, _, rfl, ⟨hn, rfl⟩, ht, rfl⟩
    rw [encodeTimestamp, ht, unsigned_signed hn, List.append_nil]

theorem decodeText_reads (bs : List UInt8) :
    Reads (decodeText bs) (pure ()) (fun _ => ()) fun s bs' => encodeUtf8 s = bs ∧ bs' = [] := by
  unfold decodeText
  cases hs : decodeUtf8 bs with
  | none => exact raise_reads _ _ _ _
  | some s =>
    refine (Accepts.pure s fun _ => ()).imp ?_
    rintro _ _ ⟨rfl, rfl⟩
    exact ⟨encodeUtf8_of_decodeUtf8 hs, rfl⟩

theorem untilNul_reads :
    Reads untilNul Walk.name (fun _ => ()) fun bs' bs => 0 ∉ bs' ∧ bs = bs' ++ [0] := by
  intro pre rest k a r h _
  unfold untilNul at h
  unfold Walk.name
  cases hfind : Python.find (pre ++ rest) 0 (pre.length : ℤ) with
  | none =>
    dsimp only at h
    rw [hfind] at h
    cases h
  | some stop =>
    dsimp only at h
    rw [hfind] at h
    cases h
    obtain ⟨mid, rest', rfl, hmid, rfl⟩ := Python.find_eq_some hfind
    have hslice : Python.slice (pre ++ (mid ++ 0 :: rest')) pre.length
        ((pre.length + mid.length : ℕ) : ℤ) = mid := by
      have h := Python.slice_append pre mid (0 :: rest')
      rwa [List.append_assoc, ← Nat.cast_add] at h
    have hpos : ((pre.length + mid.length : ℕ) : ℤ) + 1 =
        (pre.length : ℤ) + (mid ++ [(0 : UInt8)]).length := by
      rw [List.length_append, List.length_singleton]
      push_cast
      ring
    refine ⟨mid ++ [0], rest', by rw [List.append_assoc]; rfl, ?_, ?_, ?_, ?_⟩
    · rw [hslice]
      exact ⟨hmid, rfl⟩
    · rw [hpos]
    · rw [← hpos]
    · exact ⟨rfl, by omega, hpos⟩

theorem cstring_reads :
    Reads cstring Walk.name (fun _ => ()) fun s bs => NulFree s ∧ bs = encodeCstring s := by
  rw [← Scan.bind_pure Walk.name]
  refine (untilNul_reads.bind fun bs => decodeText_reads bs).imp ?_
  rintro s _ ⟨bs, _, _, rfl, ⟨hnul, rfl⟩, rfl, rfl⟩
  exact ⟨fun hs => hnul (zero_mem_encodeUtf8 hs), List.append_nil _⟩

/-! ### Tuples and columns -/

theorem text_reads (n : ℤ) :
    Reads (do return ColumnValue.text (← decodeText (← take n))) (Walk.announced n) (fun _ => ())
      fun v bs => ∃ s, v = .text s ∧ (encodeUtf8 s).length = n ∧ bs = encodeUtf8 s := by
  refine Accepts.field n fun hn => ?_
  refine ((take_reads hn).bind fun bs => (decodeText_reads bs).map _ fun _ => rfl).imp ?_
  rintro _ _ ⟨_, bs, _, rfl, ⟨rfl, hlen⟩, s, rfl, rfl, rfl⟩
  rw [List.append_nil]
  exact ⟨s, rfl, hlen, rfl⟩

theorem decodeColumnValue_reads :
    Reads decodeColumnValue Walk.value (fun _ => ()) fun v bs => v.Fits ∧
      bs = encodeColumnValue v := by
  refine (tag_reads.bind (h := fun _ => ()) (e := fun c v bs =>
    v.Fits ∧ encodeTag c ++ bs = encodeColumnValue v) fun c => ?_).imp ?_
  · simp only [id]
    split_ifs with hn hu ht
    · refine (Accepts.pure _ fun _ => ()).imp ?_
      rintro _ _ ⟨rfl, rfl⟩
      exact ⟨trivial, by rw [hn]; rfl⟩
    · refine (Accepts.pure _ fun _ => ()).imp ?_
      rintro _ _ ⟨rfl, rfl⟩
      exact ⟨trivial, by rw [hu]; rfl⟩
    · refine (int32_reads.bind fun n => text_reads n).imp ?_
      rintro _ _ ⟨n, _, _, rfl, ⟨hn, rfl⟩, s, rfl, rfl, rfl⟩
      refine ⟨show (encodeUtf8 s).length < 2 ^ 31 by omega, ?_⟩
      rw [ht, encodeColumnValue, List.append_assoc]
    · exact fail_reads _ _ _ _
    · exact fail_reads _ _ _ _
  · rintro v _ ⟨c, _, bs, rfl, ⟨-, rfl⟩, hfits, hbs⟩
    exact ⟨hfits, hbs⟩

theorem decodeTupleData_reads : Reads decodeTupleData Walk.tuple (fun _ => ()) fun values bs =>
    TupleFits values ∧ bs = encodeTupleData values := by
  refine ((unpack_reads 2).bind fun n => decodeColumnValue_reads.times n).imp ?_
  rintro values _ ⟨_, _, _, rfl, ⟨hn, rfl⟩, rfl, parts, hparts, rfl⟩
  obtain ⟨hfits, henc⟩ := (List.forall₂_and_left _ _).mp hparts
  have hparts : values.map encodeColumnValue = parts.map id := henc.map_eq fun v bs h => h.symm
  refine ⟨⟨by simpa using hn, hfits⟩, ?_⟩
  rw [encodeTupleData, List.flatMap_def, hparts, List.map_id]

theorem expectTag_reads (c got : Char) : Reads (expectTag c got) (Walk.expect c got) (fun _ => ())
    fun _ bs => got = c ∧ bs = [] := by
  unfold expectTag Walk.expect
  split_ifs with hgot
  · exact fail_reads _ _ _ _
  · refine (Accepts.pure () fun _ => ()).imp ?_
    rintro _ _ ⟨-, rfl⟩
    exact ⟨not_not.mp hgot, rfl⟩

theorem newTuple_reads (f : TupleData → Message) :
    Reads (do
      expectTag 'N' (← tag)
      return f (← decodeTupleData)) Walk.newTuple (fun _ => ()) fun m bs =>
        ∃ new, m = f new ∧ TupleFits new ∧ bs = encodeTag 'N' ++ encodeTupleData new := by
  refine (tag_reads.bind fun got => (expectTag_reads 'N' got).bind fun _ =>
    decodeTupleData_reads.map f fun _ => rfl).imp ?_
  rintro _ _ ⟨_, _, _, rfl, ⟨-, rfl⟩, _, _, _, rfl, ⟨rfl, rfl⟩, new, rfl, hfits, rfl⟩
  exact ⟨new, rfl, hfits, rfl⟩

theorem decodeColumn_reads : Reads decodeColumn Walk.column (fun _ => ()) fun c bs =>
    ∃ w : WireColumn, w.Fits ∧ w.column = c ∧ bs = encodeColumn w := by
  refine (uint8_reads.bind fun flags => cstring_reads.bind fun name => (unpack_reads 4).bind
    fun typeOid => int32_reads.bind fun typeMod =>
      Accepts.pure (Column.mk name typeOid typeMod (flags % 2 = 1)) fun _ => ()).imp ?_
  rintro _ _ ⟨flags, _, _, rfl, ⟨hflags, rfl⟩, name, _, _, rfl, ⟨hname, rfl⟩, typeOid, _, _, rfl,
    ⟨hoid, rfl⟩, typeMod, _, _, rfl, ⟨hmod, rfl⟩, rfl, rfl⟩
  refine ⟨⟨flags, name, typeOid, typeMod⟩, ⟨hflags, hname, by simpa using hoid, hmod⟩, rfl, ?_⟩
  rw [encodeColumn, List.append_assoc, List.append_assoc, List.append_nil]

/-! ### The messages -/

def BodyOf (kind : Char) (m : Message) (bs : List UInt8) : Prop :=
  ∃ w : Wire, w.Fits ∧ w.message = m ∧ w.kind = kind ∧ bs = w.body

theorem columns_wire {columns : List Column} {parts : List (List UInt8)}
    (h : List.Forall₂ (fun c bs => ∃ w : WireColumn, w.Fits ∧ w.column = c ∧ bs = encodeColumn w)
      columns parts) :
    ∃ ws : List WireColumn, (∀ w ∈ ws, w.Fits) ∧ columns = ws.map WireColumn.column ∧
      parts.flatten = ws.flatMap encodeColumn := by
  induction h with
  | nil => exact ⟨[], fun w hw => (by cases hw), rfl, rfl⟩
  | cons hw _ ih =>
    obtain ⟨w, hfits, rfl, rfl⟩ := hw
    obtain ⟨ws, hws, rfl, hflat⟩ := ih
    refine ⟨w :: ws, List.forall_mem_cons.mpr ⟨hfits, hws⟩, rfl, ?_⟩
    rw [List.flatten_cons, hflat, List.flatMap_cons]

theorem decodeRelation_reads : Reads decodeRelation Walk.relation (fun _ => ()) (BodyOf 'R') := by
  refine ((unpack_reads 4).bind fun relId => cstring_reads.bind fun ns =>
      cstring_reads.bind fun name =>
    tag_reads.bind (h := fun _ => ()) (e := fun c m bs => c ∈ replicaIdentities ∧
      ∃ columns : List WireColumn, columns.length < 2 ^ 16 ∧ (∀ w ∈ columns, w.Fits) ∧
        m = .relation ⟨relId, ns, name, c, columns.map WireColumn.column⟩ ∧
        bs = ofNat 2 columns.length ++ columns.flatMap encodeColumn) fun c => ?_).imp ?_
  · simp only [id]
    split_ifs with hc
    · refine ((unpack_reads 2).bind fun n => (decodeColumn_reads.times n).map _ fun _ => rfl).imp ?_
      rintro _ _ ⟨_, _, _, rfl, ⟨hn, rfl⟩, cols, rfl, rfl, parts, hparts, rfl⟩
      obtain ⟨columns, hfits, rfl, hflat⟩ := columns_wire hparts
      rw [List.length_map] at hn ⊢
      exact ⟨hc, columns, by simpa using hn, hfits, rfl, by rw [hflat]⟩
    · exact fail_reads _ _ _ _
  · rintro m _ ⟨relId, _, _, rfl, ⟨hid, rfl⟩, ns, _, _, rfl, ⟨hns, rfl⟩, name, _, _,
      rfl, ⟨hname, rfl⟩, c, _, _, rfl, ⟨-, rfl⟩, hc, columns, hlen, hfits, rfl, rfl⟩
    refine ⟨.relation relId ns name c columns, ⟨by simpa using hid, hns, hname, hc, hlen, hfits⟩,
      rfl, rfl, ?_⟩
    simp only [Wire.body, List.append_assoc]

theorem decodeUpdate_reads : Reads decodeUpdate Walk.update (fun _ => ()) (BodyOf 'U') := by
  refine ((unpack_reads 4).bind fun relId => tag_reads.bind (h := fun _ => ()) (e := fun c m bs =>
    ∃ before new, OldPart.Fits before ∧ TupleFits new ∧ m = (Wire.update relId before new).message ∧
      encodeTag c ++ bs = encodeOldPart before ++ encodeTag 'N' ++ encodeTupleData new)
    fun c => ?_).imp ?_
  · simp only [id]
    split_ifs with hk ho
    · refine (decodeTupleData_reads.bind fun key => newTuple_reads fun new =>
        .update ⟨relId, none, some key, new⟩).imp ?_
      rintro _ _ ⟨key, _, _, rfl, ⟨hkey, rfl⟩, new, rfl, hnew, rfl⟩
      refine ⟨.key key, new, hkey, hnew, rfl, ?_⟩
      rw [hk, encodeOldPart]
      simp only [List.append_assoc]
    · refine (decodeTupleData_reads.bind fun old => newTuple_reads fun new =>
        .update ⟨relId, some old, none, new⟩).imp ?_
      rintro _ _ ⟨old, _, _, rfl, ⟨hold, rfl⟩, new, rfl, hnew, rfl⟩
      refine ⟨.old old, new, hold, hnew, rfl, ?_⟩
      rw [ho, encodeOldPart]
      simp only [List.append_assoc]
    · refine ((expectTag_reads 'N' c).bind fun _ => decodeTupleData_reads.map _ fun _ => rfl).imp ?_
      rintro _ _ ⟨_, _, _, rfl, ⟨rfl, rfl⟩, new, rfl, hnew, rfl⟩
      exact ⟨.absent, new, trivial, hnew, rfl, rfl⟩
  · rintro _ _ ⟨relId, _, _, rfl, ⟨hid, rfl⟩, c, _, _, rfl, ⟨-, rfl⟩, before, new, hbefore,
      hnew, rfl, hbs⟩
    refine ⟨.update relId before new, ⟨by simpa using hid, hbefore, hnew⟩, rfl, rfl, ?_⟩
    rw [hbs, Wire.body]
    simp only [List.append_assoc]

theorem decodeDelete_reads : Reads decodeDelete Walk.delete (fun _ => ()) (BodyOf 'D') := by
  refine ((unpack_reads 4).bind fun relId => tag_reads.bind (h := fun _ => ()) (e := fun c m bs =>
    ∃ before, DeletePart.Fits before ∧ m = (Wire.delete relId before).message ∧
      encodeTag c ++ bs = encodeDeletePart before) fun c => ?_).imp ?_
  · simp only [id]
    split_ifs with hk ho
    · refine (decodeTupleData_reads.map _ fun _ => rfl).imp ?_
      rintro _ _ ⟨key, rfl, hkey, rfl⟩
      exact ⟨.key key, hkey, rfl, by rw [hk, encodeDeletePart]⟩
    · refine (decodeTupleData_reads.map _ fun _ => rfl).imp ?_
      rintro _ _ ⟨old, rfl, hold, rfl⟩
      exact ⟨.old old, hold, rfl, by rw [ho, encodeDeletePart]⟩
    · exact fail_reads _ _ _ _
  · rintro _ _ ⟨relId, _, _, rfl, ⟨hid, rfl⟩, c, _, _, rfl, ⟨-, rfl⟩, before, hbefore, rfl, hbs⟩
    refine ⟨.delete relId before, ⟨by simpa using hid, hbefore⟩, rfl, rfl, ?_⟩
    rw [hbs, Wire.body]

theorem decoders_reads {kind : Char} {p : Reader Message} (h : decoders kind = some p) :
    Reads p (Walk.message kind) (fun _ => ()) (BodyOf kind) := by
  unfold decoders at h
  split at h
  · cases h
    refine ((unpack_reads 8).bind fun finalLsn => timestamp_reads.bind fun commitTs =>
      (unpack_reads 4).bind fun xid => Accepts.pure (Message.begin ⟨finalLsn, commitTs, xid⟩)
        fun _ => ()).imp ?_
    rintro _ _ ⟨finalLsn, _, _, rfl, ⟨hlsn, rfl⟩, commitTs, _, _, rfl, rfl, xid, _, _,
      rfl, ⟨hxid, rfl⟩, rfl, rfl⟩
    refine ⟨.begin finalLsn commitTs xid, ⟨by simpa using hlsn, by simpa using hxid⟩, rfl, rfl, ?_⟩
    rw [Wire.body, List.append_assoc, List.append_nil]
  · cases h
    refine (uint8_reads.bind fun flags => (unpack_reads 8).bind fun commitLsn =>
      (unpack_reads 8).bind fun endLsn => timestamp_reads.map _ fun _ => rfl).imp ?_
    rintro _ _ ⟨flags, _, _, rfl, ⟨hflags, rfl⟩, commitLsn, _, _, rfl, ⟨hcommit, rfl⟩,
      endLsn, _, _, rfl, ⟨hend, rfl⟩, commitTs, rfl, rfl⟩
    refine ⟨.commit flags commitLsn endLsn commitTs,
      ⟨hflags, by simpa using hcommit, by simpa using hend⟩, rfl, rfl, ?_⟩
    simp only [Wire.body, List.append_assoc]
  · cases h
    refine ((unpack_reads 8).bind fun commitLsn => cstring_reads.map _ fun _ => rfl).imp ?_
    rintro _ _ ⟨commitLsn, _, _, rfl, ⟨hlsn, rfl⟩, name, rfl, hname, rfl⟩
    exact ⟨.origin commitLsn name, ⟨by simpa using hlsn, hname⟩, rfl, rfl, rfl⟩
  · cases h
    exact decodeRelation_reads
  · cases h
    refine ((unpack_reads 4).bind fun typeOid => cstring_reads.bind fun ns =>
      cstring_reads.map _ fun _ => rfl).imp ?_
    rintro _ _ ⟨typeOid, _, _, rfl, ⟨hoid, rfl⟩, ns, _, _, rfl, ⟨hns, rfl⟩, name, rfl, hname, rfl⟩
    refine ⟨.type typeOid ns name, ⟨by simpa using hoid, hns, hname⟩, rfl, rfl, ?_⟩
    rw [Wire.body, List.append_assoc]
  · cases h
    refine ((unpack_reads 4).bind fun relId => newTuple_reads fun new =>
      .insert ⟨relId, new⟩).imp ?_
    rintro _ _ ⟨relId, _, _, rfl, ⟨hid, rfl⟩, new, rfl, hnew, rfl⟩
    refine ⟨.insert relId new, ⟨by simpa using hid, hnew⟩, rfl, rfl, ?_⟩
    rw [Wire.body, List.append_assoc]
  · cases h
    exact decodeUpdate_reads
  · cases h
    exact decodeDelete_reads
  · cases h
    refine ((unpack_reads 4).bind fun count => uint8_reads.bind fun options =>
      ((unpack_reads 4).times count).map _ fun _ => rfl).imp ?_
    rintro _ _ ⟨_, _, _, rfl, ⟨hcount, rfl⟩, options, _, _, rfl, ⟨hoptions, rfl⟩, relIds, rfl, rfl,
      parts, hparts, rfl⟩
    obtain ⟨hids, henc⟩ := (List.forall₂_and_left _ _).mp hparts
    have hparts : relIds.map (ofNat 4) = parts.map id := henc.map_eq fun n bs h => h.symm
    refine ⟨.truncate options relIds, ⟨hoptions, by simpa using hcount, by simpa using hids⟩, rfl,
      rfl, ?_⟩
    rw [Wire.body, List.append_assoc, List.flatMap_def, hparts, List.map_id]
  · cases h

/-! ### Accepted buffers -/

/-- The buffer starts with an encoding of the message: the decoder stops right after it, and the
runs its cursor passed follow on each other, forwards, from the first byte to there. -/
structure StartsWith (buf : List UInt8) (m : Message) (w : Wire) : Prop where
  fits : w.Fits
  message_eq : w.message = m
  encoded : encodeMessage w <+: buf
  stops : w.decoder ⟨buf, w.kind, 1⟩ = .ok (m, ⟨buf, w.kind, (encodeMessage w).length⟩)
  path : Cursor.Path (passed buf) 0 (encodeMessage w).length

def LayoutEnds : List UInt8 → Prop
  | [] => False
  | b :: bs => ((Layout.message (Char.ofNat b.toNat) (b :: bs) 1).2).isSome

/-- The bytes that follow are there, and no text column announces a negative length. -/
def Described (buf : List UInt8) : Prop := LayoutEnds buf ∧ ∀ n ∈ announcedLengths buf, 0 ≤ n

/-- What the decoder returns is what the buffer starts with, and a buffer that its length and count
fields do not describe raises `ProtocolError`. -/
structure AcceptsOnlyEncodings (buf : List UInt8) : Prop where
  accepted : ∀ m, decodeMessage buf = .ok m → ∃ w, StartsWith buf m w
  rejected : ¬ Described buf → ∃ msg, decodeMessage buf = .error (.protocol msg)

theorem decodeMessage_ok {buf : List UInt8} {m : Message} (h : decodeMessage buf = .ok m) :
    ∃ b bs p r, buf = b :: bs ∧ decoders (Char.ofNat b.toNat) = some p ∧
      p ⟨buf, Char.ofNat b.toNat, 1⟩ = .ok (m, r) := by
  cases buf with
  | nil => cases h
  | cons b bs =>
    cases hp : decoders (Char.ofNat b.toNat) with
    | none =>
      simp only [decodeMessage, hp] at h
      cases h
    | some p =>
      simp only [decodeMessage, hp] at h
      obtain ⟨⟨m, r⟩, hr, rfl⟩ := Except.map_eq_ok.mp h
      exact ⟨b, bs, p, r, rfl, hp, hr⟩

theorem good_of_announced {buf : List UInt8} (h : ∀ n ∈ announcedLengths buf, 0 ≤ n) :
    ∀ f ∈ passed buf, f.Good (0 ≤ ·) := by
  intro f hf
  cases f with
  | run src dst => trivial
  | field n => exact h n (List.mem_filterMap.mpr ⟨_, hf, rfl⟩)

theorem startsWith_of_decoded {buf : List UInt8} {m : Message}
    (hlengths : ∀ n ∈ announcedLengths buf, 0 ≤ n) (h : decodeMessage buf = .ok m) :
    ∃ w, StartsWith buf m w := by
  obtain ⟨b, bs, p, r, rfl, hp, hr⟩ := decodeMessage_ok h
  have hgood := List.forall_mem_cons.mp (good_of_announced hlengths)
  obtain ⟨body, rest, rfl, ⟨w, hfits, rfl, hkind, rfl⟩, rfl, -, hpath⟩ :=
    decoders_reads hp [b] bs (Char.ofNat b.toNat) m r hr hgood.2
  have hb : encodeTag w.kind = [b] := by
    rw [encodeTag, hkind, toNat_charOfNat b.toNat_lt, UInt8.ofNat_toNat]
  have henc : encodeMessage w = b :: w.body := by
    rw [encodeMessage, hb, List.singleton_append]
  have hlen : ((encodeMessage w).length : ℤ) = ([b].length : ℤ) + w.body.length := by
    rw [henc, List.length_cons, List.length_singleton, Nat.cast_add, add_comm]
  have hdecoder : w.decoder = p := by
    have hw := decoders_kind w
    rw [hkind, hp] at hw
    exact (Option.some.inj hw).symm
  refine ⟨w, hfits, rfl, ?_, ?_, ?_⟩
  · rw [henc]
    exact ⟨rest, rfl⟩
  · rw [hlen, hdecoder, hkind]
    exact hr
  · rw [hlen]
    exact ⟨rfl, by decide, hpath⟩

/-! ### The layout decides -/

theorem isProtocol_iff {e : Error} : e.IsProtocol ↔ ∃ msg, e = .protocol msg := by
  cases e <;> simp [Error.IsProtocol]

theorem raises_of_unclean {buf : List UInt8} (h : ¬ ∀ f ∈ rawFields buf, f.Clean) :
    ∃ e, decodeMessage buf = .error e ∧ ¬ e.IsProtocol := by
  have hfails := mt (failsAsDocumented_iff buf).mp h
  unfold FailsAsDocumented at hfails
  push Not at hfails
  exact hfails

theorem decoded_iff {buf : List UInt8} (h : ∀ f ∈ rawFields buf, f.Clean) :
    (∃ m, decodeMessage buf = .ok m) ↔ LayoutEnds buf := by
  cases buf with
  | nil =>
    refine ⟨?_, fun hends => hends.elim⟩
    rintro ⟨m, hm⟩
    cases hm
  | cons b bs =>
    cases hp : decoders (Char.ofNat b.toNat) with
    | none =>
      rw [LayoutEnds, message_of_decoders_eq_none hp]
      simp only [decodeMessage, hp]
      refine ⟨?_, fun hends => (by cases hends)⟩
      rintro ⟨m, hm⟩
      cases hm
    | some p =>
      have htracks := decoders_tracks hp
      simp only [decodeMessage, hp, LayoutEnds]
      rw [rawFields] at h
      rcases hs : Layout.message (Char.ofNat b.toNat) (b :: bs) 1 with ⟨fs, _ | ⟨c, next⟩⟩
      · rw [hs] at h
        obtain ⟨e, he, -⟩ := htracks.ends ⟨b :: bs, Char.ofNat b.toNat, 1⟩ fs hs h
        rw [he]
        refine ⟨?_, fun hends => (by cases hends)⟩
        rintro ⟨m, hm⟩
        cases hm
      · rw [hs] at h
        obtain ⟨m, -, hm⟩ := htracks.reads ⟨b :: bs, Char.ofNat b.toNat, 1⟩ fs c next hs h
        rw [hm]
        exact ⟨fun _ => rfl, fun _ => ⟨m, rfl⟩⟩

/-- The decoder accepts only encodings exactly on the buffers where the layout, when it comes to its
end, announces no negative length and, when it stops early, has passed clean fields only. -/
theorem acceptsOnlyEncodings_iff (buf : List UInt8) : AcceptsOnlyEncodings buf ↔
    (LayoutEnds buf → ∀ n ∈ announcedLengths buf, 0 ≤ n) ∧
      (¬ LayoutEnds buf → ∀ f ∈ rawFields buf, f.Clean) := by
  constructor
  · intro h
    -- a buffer that is not described is turned away with a documented error
    have hclean : ¬ Described buf → (∀ f ∈ rawFields buf, f.Clean) ∧ ¬ LayoutEnds buf := by
      intro hd
      obtain ⟨msg, hmsg⟩ := h.rejected hd
      have hclean : ∀ f ∈ rawFields buf, f.Clean := by
        by_contra hc
        obtain ⟨e, he, hne⟩ := raises_of_unclean hc
        cases hmsg.symm.trans he
        exact hne trivial
      refine ⟨hclean, fun hends => ?_⟩
      obtain ⟨m, hm⟩ := (decoded_iff hclean).mpr hends
      cases hmsg.symm.trans hm
    refine ⟨fun hends => ?_, fun hends => (hclean fun hd => hends hd.1).1⟩
    by_contra hneg
    exact (hclean fun hd => hneg hd.2).2 hends
  · rintro ⟨hlengths, hclean⟩
    refine ⟨fun m hm => ?_, fun hd => ?_⟩
    · refine startsWith_of_decoded (hlengths ?_) hm
      by_contra hends
      exact hends ((decoded_iff (hclean hends)).mp ⟨m, hm⟩)
    · have hends : ¬ LayoutEnds buf := fun hends => hd ⟨hends, hlengths hends⟩
      cases hdecode : decodeMessage buf with
      | ok m => exact absurd ((decoded_iff (hclean hends)).mp ⟨m, hdecode⟩) hends
      | error e =>
        obtain ⟨msg, rfl⟩ := isProtocol_iff.mp
          ((failsAsDocumented_iff buf).mpr (hclean hends) e hdecode)
        exact ⟨msg, rfl⟩

/-- An Insert of two columns of which only one follows: its length -5 takes the cursor back to the
column's own tag, which is then read a second time. -/
def rereadInsert : List UInt8 := [73, 0, 0, 0, 1, 78, 0, 2, 116, 255, 255, 255, 251]

theorem passed_rereadInsert : passed rereadInsert =
    [.run 0 1, .run 1 5, .run 5 6, .run 6 8, .run 8 9, .run 9 13, .field (-5), .run 13 8,
      .run 8 9, .run 9 13, .field (-5), .run 13 8] := by
  decide

theorem reread_insert_accepted :
    decodeMessage rereadInsert = .ok (.insert ⟨1, [.text "", .text ""]⟩) ∧
      (∀ w, ¬ StartsWith rereadInsert (.insert ⟨1, [.text "", .text ""]⟩) w) ∧
      ¬ AcceptsOnlyEncodings rereadInsert := by
  have hdecode : decodeMessage rereadInsert = .ok (.insert ⟨1, [.text "", .text ""]⟩) := by
    decide
  have hback : ∀ w, ¬ StartsWith rereadInsert (.insert ⟨1, [.text "", .text ""]⟩) w := by
    intro w hw
    have hpath := hw.path
    rw [passed_rereadInsert] at hpath
    simp [Cursor.Path] at hpath
  refine ⟨hdecode, hback, fun h => ?_⟩
  obtain ⟨w, hw⟩ := h.accepted _ hdecode
  exact hback w hw

end WalFlux.Protocol
