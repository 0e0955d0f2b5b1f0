import Osmdbt.System.World
import Osmdbt.Log.LogName

/-! The three names a log file has during its life: `X.log.new` while get-log
writes it, `X.log`, and `X.log.done` when it was published. -/

namespace Osmdbt

open General

/-- The file a log is written to before it gets its name. -/
def newLog (name : Text) : Path := ⟨.log, name ++ ".new".toList⟩

def doneFile (name : Text) : Path := ⟨.log, name ++ ".done".toList⟩

theorem doneFile_ne {name : Text} (log : isLog name = true) (other : Text) :
    (⟨.log, name⟩ : Path) ≠ doneFile other := by
  intro same
  obtain rfl : name = other ++ ".done".toList := congrArg Path.name same
  rw [isLog_done] at log
  cases log

theorem newLog_ne {name : Text} (log : isLog name = true) (other : Text) : (⟨.log, name⟩ : Path) ≠ newLog other := by
  intro same
  obtain rfl : name = other ++ ".new".toList := congrArg Path.name same
  rw [isLog_new] at log
  cases log

theorem newLog_ne_doneFile (name other : Text) : newLog name ≠ doneFile other := by
  intro same
  have last := congrArg List.getLast? (congrArg Path.name same)
  simp [newLog, doneFile] at last

theorem doneFile_inj {name other : Text} (same : doneFile name = doneFile other) : name = other :=
  List.append_cancel_right (congrArg Path.name same)

/-- A complete log file, published or not. -/
def LogFile (w : World) (name : Text) (content : Content) : Prop :=
  isLog name = true ∧ (w.get ⟨.log, name⟩ = some content ∨ w.get (doneFile name) = some content)

end Osmdbt
