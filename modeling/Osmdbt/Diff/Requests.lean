import Osmdbt.System.LogFiles
import Osmdbt.Diff.Phases

/-! What create-diff asks of the system, whatever it is told: all it ever does in
`log_dir` is to rename complete log files. -/

namespace Osmdbt

open General

/-- It renames complete log files and does not touch anything else in `log_dir`. -/
def DiffOp (op : Op) : Prop :=
  op.Local (fun path => path.dir ≠ .log) ∨
    (∃ oldName newName, op = .rename oldName newName ∧ oldName.dir ≠ .log ∧ newName.dir ≠ .log) ∨
    ∃ name, op = .rename ⟨.log, name⟩ (doneFile name) ∧ isLog name = true

theorem Op.Looks.diffOp {op : Op} (looks : op.Looks) : DiffOp op := .inl (Looking.looks op looks)

theorem Op.Writes.diffOp {path : Path} (outside : path.dir ≠ .log) {op : Op} (writes : op.Writes path) : DiffOp op :=
  .inl (writes.local outside)

theorem MakeOp.diffOp {op : Op} (makes : MakeOp op) : DiffOp op := by
  refine .inl (makes.local.mono ?_)
  rintro path (rfl | rfl | rfl) <;> decide

/-- The renames of the publish section. -/
theorem PublishOp.diffOp {state : State} {logFiles : List Text} (logs : ∀ name ∈ logFiles, isLog name = true) {op : Op}
    (used : PublishOp state logFiles op) : DiffOp op := by
  cases used with
  | look looks => exact looks.diffOp
  | lock writes => exact writes.diffOp (by decide)
  | unlock => exact .inl (show lockFile.dir ≠ .log by decide)
  | change => exact .inr (.inl ⟨_, _, rfl, by decide, by rintro ⟨⟩⟩)
  | own => exact .inr (.inl ⟨_, _, rfl, by decide, by rintro ⟨⟩⟩)
  | copy => exact .inr (.inl ⟨_, _, rfl, by decide, by decide⟩)
  | log member => exact .inr (.inr ⟨_, rfl, logs _ member⟩)

theorem createDiff_uses {options : CreateDiffOptions} (config : Config) (given : options.logFileNames = []) :
    (createDiff config options).Uses DiffOp (fun _ => True) := by
  refine (createDiff_requests config options).weaken (fun op request => ?_) (fun _ here => here)
  cases request with
  | look looks => exact looks.diffOp
  | pid writes => exact writes.diffOp (by rintro ⟨⟩)
  | removePid => exact .inl (show (pidPath _).dir ≠ .log by rintro ⟨⟩)
  | make makes => exact makes.diffOp
  | publish used logs => exact used.diffOp (logs given)

end Osmdbt
