import WalFlux.Protocol.Decode
import WalFlux.Library.Scan

/-! Which buffers make the decoder raise something other than a `ProtocolError`. The layout is
scanned for its raw fields, without decoding any; the condition is on those fields alone. -/

namespace WalFlux.Protocol
open Cursor

/-- A run of bytes the layout calls text, a microsecond count, or a fixed-size field that came
out short, which only a cursor in front of the buffer produces. -/
inductive RawField
  | text (bytes : List UInt8)
  | micros (n : ℤ)
  | short
  deriving DecidableEq, Repr

def RawField.Clean : RawField → Prop
  | .text bytes => bytes.toByteArray.IsValidUTF8
  | .micros n => minMicros ≤ n ∧ n ≤ maxMicros
  | .short => False

abbrev RawScan := Scan RawField

namespace Layout

def run (n : ℤ) : RawScan (List UInt8) := fun buf pos =>
  if pos + n > buf.length then ([], none)
  else ([], some (Python.slice buf pos (pos + n), pos + n))

def fixed (w : ℕ) : RawScan ℕ := do
  let bs ← run w
  if bs.length = w then return Bytes.toNat bs
  else
    Scan.field .short
    Scan.stop

def signed4 : RawScan ℤ := do return Bytes.signed 4 (← fixed 4)

def byte : RawScan ℕ := do
  match ← run 1 with
  | [] =>
    Scan.field .short
    Scan.stop
  | b :: _ => return b.toNat

def mark : RawScan Char := do return Char.ofNat (← byte)

def stamp : RawScan Unit := do Scan.field (.micros (Bytes.signed 8 (← fixed 8)))

def name : RawScan Unit := fun buf pos =>
  match Python.find buf 0 pos with
  | none => ([], none)
  | some stop => ([.text (Python.slice buf pos stop)], some ((), (stop : ℤ) + 1))

/-- The announced length may be negative; the run is then whatever the slice holds. -/
def value : RawScan Unit := do
  let category ← mark
  if category = 'n' then return ()
  else if category = 'u' then return ()
  else if category = 't' then
    let length ← signed4
    Scan.field (.text (← run length))
  else Scan.stop

def tuple : RawScan Unit := do Scan.times value (← fixed 2)

def expect (c got : Char) : RawScan Unit := if got ≠ c then Scan.stop else return ()

def newTuple : RawScan Unit := do
  expect 'N' (← mark)
  tuple

def column : RawScan Unit := do
  let _ ← byte
  name
  let _ ← fixed 4
  let _ ← signed4
  return ()

def relation : RawScan Unit := do
  let _ ← fixed 4
  name
  name
  let identity ← mark
  if identity ∉ replicaIdentities then Scan.stop else Scan.times column (← fixed 2)

def update : RawScan Unit := do
  let _ ← fixed 4
  let submessage ← mark
  if submessage = 'K' then
    tuple
    newTuple
  else if submessage = 'O' then
    tuple
    newTuple
  else
    expect 'N' submessage
    tuple

def delete : RawScan Unit := do
  let _ ← fixed 4
  let submessage ← mark
  if submessage = 'K' then tuple
  else if submessage = 'O' then tuple
  else Scan.stop

def message : Char → RawScan Unit
  | 'B' => do
    let _ ← fixed 8
    stamp
    let _ ← fixed 4
    return ()
  | 'C' => do
    let _ ← byte
    let _ ← fixed 8
    let _ ← fixed 8
    stamp
  | 'O' => do
    let _ ← fixed 8
    name
  | 'R' => relation
  | 'Y' => do
    let _ ← fixed 4
    name
    name
  | 'I' => do
    let _ ← fixed 4
    newTuple
  | 'U' => update
  | 'D' => delete
  | 'T' => do
    let count ← fixed 4
    let _ ← byte
    Scan.times (fixed 4) count
  | _ => Scan.stop

end Layout

def rawFields : List UInt8 → List RawField
  | [] => []
  | b :: bs => (Layout.message (Char.ofNat b.toNat) (b :: bs) 1).1

/-! ### Every reader follows its part of the layout -/

/-- The decoder's error contract: only `ProtocolError`. -/
abbrev Tracks {α γ : Type} (p : Reader α) (s : RawScan γ) (g : α → γ) : Prop :=
  Follows RawField.Clean Error.IsProtocol p s g

theorem fail_tracks {α γ : Type} (msg : Cursor Char → String) (g : α → γ) :
    Tracks (fail msg) Scan.stop g := Follows.stop fun r => ⟨.protocol (msg r), rfl, trivial⟩

theorem take_tracks (n : ℤ) : Tracks (take n) (Layout.run n) id where
  ends r fs hs _ := by
    unfold Layout.run at hs
    split at hs
    · next h => exact ⟨.protocol _, if_pos h, trivial⟩
    · cases hs
  reads r fs c next hs _ := by
    unfold Layout.run at hs
    split at hs
    · cases hs
    · next h =>
      cases hs
      exact ⟨Python.slice r.buf r.pos (r.pos + n), rfl, if_neg h⟩
  escapes r f hf := by
    unfold Layout.run at hf
    split at hf <;> cases hf

theorem raise_tracks {α γ : Type} {e : Error} (he : ¬ e.IsProtocol) {f : RawField}
    (hf : ¬ f.Clean) (g : α → γ) : Tracks (raise e) (do Scan.field f; Scan.stop) g where
  ends r fs hs hc := by
    cases hs
    exact absurd (hc f List.mem_cons_self) hf
  reads r fs c next hs := by cases hs
  escapes r x _ _ := ⟨e, rfl, he⟩

theorem unpack_tracks (w : ℕ) : Tracks (unpack w) (Layout.fixed w) id := by
  refine (take_tracks w).bind fun bs => ?_
  by_cases h : bs.length = w
  · simp only [id, if_pos h]
    exact Follows.pure _ id
  · simp only [id, if_neg h]
    exact raise_tracks (by decide) (f := .short) not_false id

theorem uint8_tracks : Tracks uint8 Layout.byte id := by
  refine (take_tracks 1).bind fun bs => ?_
  cases bs with
  | nil => exact raise_tracks (by decide) (f := .short) not_false id
  | cons b bs => exact Follows.pure _ id

theorem tag_tracks : Tracks tag Layout.mark id :=
  uint8_tracks.bind fun _ => Follows.pure _ id

theorem field_tracks {α : Type} {p : Reader α} {f : RawField}
    (hok : f.Clean → ∃ a, ∀ r, p r = .ok (a, r))
    (herr : ¬ f.Clean → ∀ r, ∃ e, p r = .error e ∧ ¬ e.IsProtocol) :
    Tracks p (Scan.field f) fun _ => () where
  ends r fs hs := by cases hs
  reads r fs c next hs hc := by
    cases hs
    obtain ⟨a, ha⟩ := hok (hc f List.mem_cons_self)
    exact ⟨a, rfl, ha r⟩
  escapes r x hx hu := by
    cases List.mem_singleton.mp hx
    exact herr hu r

theorem decodeText_tracks (bs : List UInt8) :
    Tracks (decodeText bs) (Scan.field (.text bs)) fun _ => () := by
  apply field_tracks
  · intro h
    cases hd : Bytes.decodeUtf8 bs with
    | none => exact absurd h (Bytes.decodeUtf8_eq_none.mp hd)
    | some s => exact ⟨s, fun r => by simp only [decodeText, hd]; rfl⟩
  · intro h r
    exact ⟨.unicodeDecode, by simp only [decodeText, Bytes.decodeUtf8_eq_none.mpr h]; rfl,
      by decide⟩

theorem timestamp_tracks : Tracks timestamp Layout.stamp fun _ => () := by
  refine (unpack_tracks 8).bind fun n => ?_
  have hclean : (RawField.micros (Bytes.signed 8 n)).Clean ↔
      minMicros ≤ Bytes.signed 8 n ∧ Bytes.signed 8 n ≤ maxMicros := Iff.rfl
  apply field_tracks
  · intro h
    exact ⟨⟨_, hclean.mp h⟩, fun r => by rw [dif_pos (hclean.mp h)]; rfl⟩
  · intro h r
    exact ⟨.overflow, by rw [dif_neg (mt hclean.mpr h)]; rfl, by decide⟩

theorem cstring_tracks : Tracks cstring Layout.name fun _ => () where
  ends r fs hs hc := by
    unfold Layout.name at hs
    split at hs
    · next h =>
      obtain ⟨msg, hm⟩ : ∃ msg, untilNul r = .error (.protocol msg) :=
        ⟨_, by simp only [untilNul, h]; rfl⟩
      refine ⟨.protocol msg, ?_, trivial⟩
      change (untilNul r >>= fun x => decodeText x.1 x.2) = _
      rw [hm]
      rfl
    · cases hs
  reads r fs c next hs hc := by
    unfold Layout.name at hs
    split at hs
    · cases hs
    · next stop h =>
      cases hs
      obtain ⟨s, -, hd⟩ := (decodeText_tracks (Python.slice r.buf r.pos stop)).reads
        { r with pos := (stop : ℤ) + 1 } _ _ _ rfl hc
      refine ⟨s, rfl, ?_⟩
      change (untilNul r >>= fun x => decodeText x.1 x.2) = _
      simp only [untilNul, h]
      exact hd
  escapes r f hf hu := by
    unfold Layout.name at hf
    split at hf
    · cases hf
    · next stop h =>
      obtain ⟨e, he, hd⟩ := (decodeText_tracks (Python.slice r.buf r.pos stop)).escapes
        { r with pos := (stop : ℤ) + 1 } f hf hu
      refine ⟨e, ?_, hd⟩
      change (untilNul r >>= fun x => decodeText x.1 x.2) = _
      simp only [untilNul, h]
      exact he

theorem int32_tracks : Tracks int32 Layout.signed4 id :=
  (unpack_tracks 4).bind fun _ => Follows.pure _ id

theorem decodeColumnValue_tracks : Tracks decodeColumnValue Layout.value fun _ => () := by
  refine tag_tracks.bind fun category => ?_
  simp only [id]
  split_ifs
  · exact Follows.pure _ fun _ => ()
  · exact Follows.pure _ fun _ => ()
  · refine int32_tracks.bind fun n => ?_
    refine (take_tracks _).bind fun bs => ?_
    exact (decodeText_tracks bs).bind_pure _ fun _ => rfl
  · exact fail_tracks _ _
  · exact fail_tracks _ _

theorem decodeTupleData_tracks : Tracks decodeTupleData Layout.tuple fun _ => () :=
  (unpack_tracks 2).bind fun n => decodeColumnValue_tracks.times n

theorem expectTag_tracks (c got : Char) :
    Tracks (expectTag c got) (Layout.expect c got) fun _ => () := by
  unfold expectTag Layout.expect
  split_ifs
  · exact fail_tracks _ _
  · exact Follows.pure _ fun _ => ()

theorem newTuple_tracks (f : TupleData → Message) :
    Tracks (do
      expectTag 'N' (← tag)
      return f (← decodeTupleData)) Layout.newTuple fun _ => () := by
  refine tag_tracks.bind fun got => ?_
  refine (expectTag_tracks 'N' got).bind fun _ => ?_
  exact decodeTupleData_tracks.bind_pure f fun _ => rfl

theorem decodeColumn_tracks : Tracks decodeColumn Layout.column fun _ => () := by
  refine uint8_tracks.bind fun _ => ?_
  refine cstring_tracks.bind fun _ => ?_
  refine (unpack_tracks 4).bind fun _ => ?_
  exact int32_tracks.bind fun _ => Follows.pure _ fun _ => ()

theorem decodeRelation_tracks : Tracks decodeRelation Layout.relation fun _ => () := by
  refine (unpack_tracks 4).bind fun _ => ?_
  refine cstring_tracks.bind fun _ => ?_
  refine cstring_tracks.bind fun _ => ?_
  refine tag_tracks.bind fun identity => ?_
  simp only [id]
  split_ifs
  · refine (unpack_tracks 2).bind fun n => ?_
    exact (decodeColumn_tracks.times n).bind_pure _ fun _ => rfl
  · exact fail_tracks _ _

theorem decodeUpdate_tracks : Tracks decodeUpdate Layout.update fun _ => () := by
  refine (unpack_tracks 4).bind fun relId => ?_
  refine tag_tracks.bind fun submessage => ?_
  simp only [id]
  split_ifs
  · refine decodeTupleData_tracks.bind fun key => ?_
    exact newTuple_tracks fun new => .update ⟨relId, none, some key, new⟩
  · refine decodeTupleData_tracks.bind fun old => ?_
    exact newTuple_tracks fun new => .update ⟨relId, some old, none, new⟩
  · refine (expectTag_tracks 'N' submessage).bind fun _ => ?_
    exact decodeTupleData_tracks.bind_pure _ fun _ => rfl

theorem decodeDelete_tracks : Tracks decodeDelete Layout.delete fun _ => () := by
  refine (unpack_tracks 4).bind fun relId => ?_
  refine tag_tracks.bind fun submessage => ?_
  simp only [id]
  split_ifs
  · exact decodeTupleData_tracks.bind_pure _ fun _ => rfl
  · exact decodeTupleData_tracks.bind_pure _ fun _ => rfl
  · exact fail_tracks _ _

theorem decoders_tracks {kind : Char} {p : Reader Message} (h : decoders kind = some p) :
    Tracks p (Layout.message kind) fun _ => () := by
  unfold decoders at h
  split at h
  · cases h
    refine (unpack_tracks 8).bind fun _ => ?_
    refine timestamp_tracks.bind fun _ => ?_
    exact (unpack_tracks 4).bind fun _ => Follows.pure _ fun _ => ()
  · cases h
    refine uint8_tracks.bind fun _ => ?_
    refine (unpack_tracks 8).bind fun _ => ?_
    refine (unpack_tracks 8).bind fun _ => ?_
    exact timestamp_tracks.bind_pure _ fun _ => rfl
  · cases h
    refine (unpack_tracks 8).bind fun _ => ?_
    exact cstring_tracks.bind_pure _ fun _ => rfl
  · cases h
    exact decodeRelation_tracks
  · cases h
    refine (unpack_tracks 4).bind fun _ => ?_
    refine cstring_tracks.bind fun _ => ?_
    exact cstring_tracks.bind_pure _ fun _ => rfl
  · cases h
    refine (unpack_tracks 4).bind fun relId => ?_
    exact newTuple_tracks fun new => .insert ⟨relId, new⟩
  · cases h
    exact decodeUpdate_tracks
  · cases h
    exact decodeDelete_tracks
  · cases h
    refine (unpack_tracks 4).bind fun count => ?_
    refine uint8_tracks.bind fun _ => ?_
    exact ((unpack_tracks 4).times count).bind_pure _ fun _ => rfl
  · cases h

theorem message_of_decoders_eq_none {kind : Char} (h : decoders kind = none) :
    Layout.message kind = Scan.stop := by
  unfold Layout.message
  split <;> first | rfl | simp [decoders] at h

/-- Every exception that leaves the decoder is a `ProtocolError`. -/
def FailsAsDocumented (buf : List UInt8) : Prop :=
  ∀ e, decodeMessage buf = .error e → e.IsProtocol

/-- The decoder fails outside its documentation exactly on buffers with an unclean raw field:
text that is not UTF-8, a timestamp beyond `datetime`, a field short after a backward length. -/
theorem failsAsDocumented_iff (buf : List UInt8) :
    FailsAsDocumented buf ↔ ∀ f ∈ rawFields buf, f.Clean := by
  cases buf with
  | nil =>
    refine ⟨fun _ f hf => absurd hf List.not_mem_nil, fun _ e he => ?_⟩
    cases he
    trivial
  | cons b bs =>
    cases hd : decoders (Char.ofNat b.toNat) with
    | none =>
      have hf : rawFields (b :: bs) = [] := by
        rw [rawFields, message_of_decoders_eq_none hd]
        rfl
      rw [hf]
      refine ⟨fun _ f hf => absurd hf List.not_mem_nil, fun _ e he => ?_⟩
      simp only [decodeMessage, hd] at he
      cases he
      trivial
    | some p =>
      refine Iff.trans ?_ ((decoders_tracks hd).documented_iff ⟨b :: bs, Char.ofNat b.toNat, 1⟩)
      refine forall_congr' fun e => imp_congr_left ?_
      simp only [decodeMessage, hd]
      cases p ⟨b :: bs, Char.ofNat b.toNat, 1⟩ with
      | error e' => simp only [Except.map, Except.error.injEq]
      | ok x => simp only [Except.map, reduceCtorEq]

def notUtf8Insert : List UInt8 := [73, 0, 0, 0, 1, 78, 0, 1, 116, 0, 0, 0, 1, 255]

def farFutureBegin : List UInt8 :=
  [66, 0, 0, 0, 0, 0, 0, 0, 1, 127, 255, 255, 255, 255, 255, 255, 255, 0, 0, 0, 1]

/-- An Insert of two columns whose first announces length -14. -/
def backwardInsert : List UInt8 := [73, 0, 0, 0, 1, 78, 0, 2, 116, 255, 255, 255, 242]

theorem undocumented_failures :
    (decodeMessage notUtf8Insert = .error .unicodeDecode ∧ ¬ FailsAsDocumented notUtf8Insert) ∧
    (decodeMessage farFutureBegin = .error .overflow ∧ ¬ FailsAsDocumented farFutureBegin) ∧
    (decodeMessage backwardInsert = .error .index ∧ ¬ FailsAsDocumented backwardInsert) := by
  have h1 : decodeMessage notUtf8Insert = .error .unicodeDecode := by decide
  have h2 : decodeMessage farFutureBegin = .error .overflow := by decide
  have h3 : decodeMessage backwardInsert = .error .index := by decide
  exact ⟨⟨h1, fun h => absurd (h _ h1) (by decide)⟩, ⟨h2, fun h => absurd (h _ h2) (by decide)⟩,
    ⟨h3, fun h => absurd (h _ h3) (by decide)⟩⟩

end WalFlux.Protocol
