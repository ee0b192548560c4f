import WalFlux.Aggregates.Objects
import WalFlux.Daemon.RowOps

/-! The ops of a row message with the objects their rows are made of: the new row of an update takes
over the old row's object where the new tuple has a marker, and every other value is made anew. -/

namespace WalFlux.Daemon

open Aggregates Protocol Python

variable {F : Type} [PyFloat F]

def fillObjects (old new : ObjRow F) : Except Error (ObjRow F) :=
  new.mapM fun p => do
    match p.2.value with
    | .unchangedToast => return (p.1, ← old.index p.1)
    | _ => return p

def updateObjects (config : Config) (a : Assembly F) (message : ℕ) (m : Update) :
    Except Error (List (ObjOp F)) := do
  let rel ← relationOf a m.relId
  let views := viewsOf config rel
  if views = [] then return []
  else
    match m.old with
    | none => .error (.schemaDrift (s!"update on {rel.ns}.{rel.name} arrived without the old " ++
        "row; the table needs REPLICA IDENTITY FULL — re-run `walflux setup --force`"))
    | some old =>
      let old ← decodeRow rel.columns old
      let new ← decodeRow rel.columns m.new
      let new ← fillObjects (.make message false old) (.make message true new)
      return views.map fun view => .update view.name (.make message false old) new

/-- `_row_ops`, where the messages of a batch have distinct numbers. -/
def rowObjects (config : Config) (a : Assembly F) (message : ℕ) :
    Message → Except Error (List (ObjOp F))
  | .update m => updateObjects config a message m
  | m => (rowOps config a m).map fun ops => ops.map (Op.make message)

omit [PyFloat F] in
theorem op_make (message : ℕ) (op : Op F) : (op.make message).op = op := by
  cases op <;> simp [Op.make, ObjOp.op]

omit [PyFloat F] in
theorem fillObjects_values (old new : ObjRow F) :
    Except.Rel (fun row values => row.values = values) (fillObjects old new)
      (fillUnchanged old.values new.values) := by
  have hsame : List.Forall₂ (fun (p : String × Obj F) q => q = (p.1, p.2.value)) new new.values :=
    List.forall₂_map_right_iff.mpr (List.forall₂_same.mpr fun _ _ => rfl)
  refine (Except.Rel.mapM (R := fun p q => q = (p.1, p.2.value)) hsame ?_).mono ?_
  · rintro ⟨name, origin, value⟩ _ rfl
    cases value with
    | unchangedToast =>
      dsimp only
      rw [index_values]
      cases old.index name with
      | error e => exact .error e
      | ok a => exact .ok rfl
    | _ => exact .ok rfl
  · intro row values h
    exact (h.map_eq (g := id) fun _ _ hp => hp.symm).trans (List.map_id values)

theorem updateObjects_op (config : Config) (a : Assembly F) (message : ℕ) (m : Update) :
    Except.Rel (fun ops ops' => ops.map ObjOp.op = ops') (updateObjects config a message m)
      (updateOps config a m) := by
  unfold updateObjects updateOps
  refine (Except.rel_refl (relationOf a m.relId)).bind ?_
  rintro rel _ rfl
  dsimp only
  split_ifs
  · exact .ok rfl
  · cases m.old with
    | none => exact .error _
    | some old =>
      refine (Except.rel_refl (decodeRow rel.columns old)).bind ?_
      rintro old _ rfl
      refine (Except.rel_refl (decodeRow rel.columns m.new)).bind ?_
      rintro new _ rfl
      have hfill := fillObjects_values (.make message false old) (.make message true new)
      rw [values_make, values_make] at hfill
      refine hfill.bind ?_
      rintro row _ rfl
      exact .ok (by simp [ObjOp.op])

theorem rowObjects_op (config : Config) (a : Assembly F) (message : ℕ) (m : Message) :
    (rowObjects config a message m).map (·.map ObjOp.op) = rowOps config a m := by
  have hmake : ∀ r : Except Error (List (Op F)),
      (r.map fun ops => ops.map (Op.make message)).map (·.map ObjOp.op) = r := by
    intro r
    cases r with
    | error e => rfl
    | ok ops => exact congrArg Except.ok (by simp [Function.comp_def, op_make])
  cases m with
  | update m => exact (updateObjects_op config a message m).map_eq_right fun _ _ h => h
  | _ =>
    unfold rowObjects
    exact hmake _

end WalFlux.Daemon
