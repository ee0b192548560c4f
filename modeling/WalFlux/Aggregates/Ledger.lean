import WalFlux.Aggregates.DeltaBatch
import WalFlux.Library.Except

/-! The ledger of a view: its row events since the last truncate, gathered by group, and the exact
sums over them. A batch is in step with the ledger when no sum was rounded. -/

namespace WalFlux.Aggregates

open Sql Python

variable {F : Type} [PyFloat F]

inductive RowEvent (F : Type)
  | insert (view : String) (row : Row F)
  | delete (view : String) (row : Row F)
  | truncate (view : String)

namespace RowEvent

def view : RowEvent F → String
  | .insert view _ => view
  | .delete view _ => view
  | .truncate view => view

def entry : RowEvent F → Option (ℤ × Row F)
  | .insert _ row => some (1, row)
  | .delete _ row => some (-1, row)
  | .truncate _ => none

end RowEvent

def Op.events : Op F → List (RowEvent F)
  | .insert view new => [.insert view new]
  | .update view old new => [.delete view old, .insert view new]
  | .delete view old => [.delete view old]
  | .truncate view => [.truncate view]

def DeltaBatch.applyEvent (b : DeltaBatch F) : RowEvent F → Except Error (DeltaBatch F)
  | .insert view row => b.applyInsert view row
  | .delete view row => b.applyDelete view row
  | .truncate view => b.applyTruncate view

def foldEvents (views : List ViewSpec) (events : List (RowEvent F)) :
    Except Error (DeltaBatch F) := do
  events.foldlM DeltaBatch.applyEvent (← DeltaBatch.init views)

theorem applyEvent_row (b : DeltaBatch F) {e : RowEvent F} {sign : ℤ} {row : Row F}
    (h : e.entry = some (sign, row)) : b.applyEvent e = b.apply e.view row sign := by
  cases e <;> cases h <;> rfl

theorem applyEvent_truncate (b : DeltaBatch F) {e : RowEvent F} (h : e.entry = none) :
    b.applyEvent e = b.applyTruncate e.view := by
  cases e with
  | truncate name => rfl
  | insert => cases h
  | delete => cases h

theorem applyOp_eq (b : DeltaBatch F) (op : Op F) :
    b.applyOp op = op.events.foldlM DeltaBatch.applyEvent b := by
  cases op with
  | insert view new => exact (bind_pure _).symm
  | delete view old => exact (bind_pure _).symm
  | truncate view => exact (bind_pure _).symm
  | update view old new =>
    simp only [Op.events, List.foldlM_cons, List.foldlM_nil, bind_pure]
    rfl

theorem foldOps_eq (views : List ViewSpec) (ops : List (Op F)) :
    foldOps views ops = foldEvents views (ops.flatMap Op.events) := by
  have h : ∀ b : DeltaBatch F, ops.foldlM DeltaBatch.applyOp b =
      (ops.flatMap Op.events).foldlM DeltaBatch.applyEvent b := by
    induction ops with
    | nil => exact fun b => rfl
    | cons op ops ih =>
      intro b
      rw [List.flatMap_cons, List.foldlM_append, List.foldlM_cons, applyOp_eq]
      exact bind_congr ih
  exact bind_congr h

/-! ### Storage slots -/

inductive Slot
  | rows
  | count (column : Option String)
  | sum (column : String)
  | nonNull (column : String)
  deriving DecidableEq

def Slot.isSum : Slot → Bool
  | .sum _ => true
  | _ => false

def Slot.value (row : Row F) : Slot → ℚ
  | .rows => 1
  | .count none => 1
  | .count (some c) => if isNull (row.value c) then 0 else 1
  | .sum c => (numberOf (row.value c)).getD 0
  | .nonNull c => if isNull (row.value c) then 0 else 1

def Slot.total (slot : Slot) (entries : List (ℤ × Row F)) : ℚ :=
  (entries.map fun e => e.1 * slot.value e.2).sum

omit [PyFloat F] in
theorem Slot.total_append (slot : Slot) (entries : List (ℤ × Row F)) (sign : ℤ) (row : Row F) :
    slot.total (entries ++ [(sign, row)]) = slot.total entries + sign * slot.value row := by
  simp [Slot.total]

def aggSlots (agg : AggSpec) : List Slot :=
  match agg.fn, agg.column with
  | .count, column => [.count column]
  | _, some c => [.sum c, .nonNull c]
  | _, none => []

def slots (view : ViewSpec) : List Slot := .rows :: view.aggregates.flatMap aggSlots

/-! ### The ledger -/

abbrev Ledger (F : Type) := Dict (List (Value F)) (List (ℤ × Row F))

def groupKey (view : ViewSpec) (row : Row F) : List (Value F) := view.groupBy.map row.value

def ledgerStep (view : ViewSpec) (ledger : Ledger F) (e : RowEvent F) : Ledger F :=
  if e.view = view.name then
    match e.entry with
    | some entry => ledger.push (groupKey view entry.2) entry
    | none => if view.groupBy ≠ [] then [] else [([], [])]
  else ledger

def ledger (view : ViewSpec) (events : List (RowEvent F)) : Ledger F :=
  events.foldl (ledgerStep view) []

theorem ledger_append (view : ViewSpec) (events : List (RowEvent F)) (e : RowEvent F) :
    ledger view (events ++ [e]) = ledgerStep view (ledger view events) e := by
  simp [ledger]

/-- A row image the view can use: complete, and numeric where it sums. -/
structure Fits (view : ViewSpec) (row : Row F) : Prop where
  complete : ∀ c ∈ view.groupBy ++ view.aggregates.filterMap AggSpec.column,
    ∃ value, Dict.get? row c = some value ∧ value ≠ .unchangedToast
  finite : ∀ agg ∈ view.aggregates, agg.fn ≠ .count → ∀ c, agg.column = some c →
    isNull (row.value c) = true ∨ (numberOf (row.value c)).isSome

def Feeds (views : List ViewSpec) (e : RowEvent F) : Prop :=
  ∃ view ∈ views, view.name = e.view ∧ ∀ sign row, e.entry = some (sign, row) → Fits view row

end WalFlux.Aggregates
