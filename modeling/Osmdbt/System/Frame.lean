import Osmdbt.System.Io

/-! Which files an operation can change, and rules for the parts of a program
that leave everything an assertion speaks about alone. -/

namespace Osmdbt

open General

/-- Everything but the contents of `touched` files is as before. -/
structure Untouched (touched : Path → Prop) (w w' : World) : Prop where
  wal : w'.wal = w.wal
  slot : w'.slot = w.slot
  tables : w'.tables = w.tables
  returned : w'.returned = w.returned
  renames : w'.renames = w.renames
  get : ∀ path, ¬ touched path → w'.get path = w.get path

theorem Untouched.refl {touched : Path → Prop} (w : World) : Untouched touched w w :=
  ⟨rfl, rfl, rfl, rfl, rfl, fun _ _ => rfl⟩

theorem Untouched.mono {touched wider : Path → Prop} {w w' : World} (same : Untouched touched w w')
    (more : ∀ path, touched path → wider path) : Untouched wider w w' :=
  ⟨same.wal, same.slot, same.tables, same.returned, same.renames,
    fun path outside => same.get path (fun inside => outside (more path inside))⟩

theorem untouched_put (w : World) (path : Path) (content : Content) : Untouched (· = path) w (w.put path content) :=
  ⟨rfl, rfl, rfl, rfl, rfl, fun _ other => World.get_put_ne _ _ _ other⟩

theorem untouched_drop (w : World) (path : Path) : Untouched (· = path) w (w.drop path) :=
  ⟨rfl, rfl, rfl, rfl, rfl, fun _ other => World.get_drop_ne _ _ other⟩

/-- Operations whose only effect is on the contents of files in `touched`. -/
def Op.Local (touched : Path → Prop) : Op → Prop
  | .openExcl path => touched path
  | .write path _ => touched path
  | .unlink path => touched path
  | .openWriter path => touched path
  | .closeWriter path _ _ => touched path
  | .rename _ _ => False
  | .peek _ => False
  | .advance _ => False
  | _ => True

theorem Op.Local.mono {touched wider : Path → Prop} {op : Op} (inside : op.Local touched)
    (more : ∀ path, touched path → wider path) : op.Local wider := by
  cases op with
  | openExcl path => exact more path inside
  | write path c => exact more path inside
  | unlink path => exact more path inside
  | openWriter path => exact more path inside
  | closeWriter path sources objects => exact more path inside
  | rename => exact inside
  | peek => exact inside
  | advance => exact inside
  | _ => exact trivial

theorem Step.untouched {touched : Path → Prop} {w w' : World} {op : Op} {reply : Reply op}
    (step : Step w op reply w') (inside : op.Local touched) : Untouched touched w w' := by
  cases reply with
  | error code =>
    obtain ⟨_, rfl, _⟩ := step
    exact Untouched.refl _
  | ok value =>
    have written (path : Path) (content : Content) (here : touched path) : Untouched touched w (w.put path content) :=
      (untouched_put w path content).mono (fun _ same => same ▸ here)
    cases op with
    | openExcl path =>
      obtain ⟨_, rfl⟩ := step
      exact written path _ inside
    | write path c =>
      obtain ⟨data, _, rfl⟩ := step
      exact written path _ inside
    | unlink path =>
      obtain ⟨_, rfl⟩ := step
      exact (untouched_drop w path).mono (fun _ same => same ▸ inside)
    | openWriter path =>
      obtain rfl : w' = _ := step
      exact written path _ inside
    | closeWriter path sources objects =>
      obtain rfl : w' = _ := step
      exact written path _ inside
    | rename => exact absurd inside id
    | peek => exact absurd inside id
    | advance => exact absurd inside id
    | «exists» path => exact step.2 ▸ Untouched.refl _
    | list dir => exact step.2.2 ▸ Untouched.refl _
    | readFile path => exact step.2 ▸ Untouched.refl _
    | query statement => exact step.2 ▸ Untouched.refl _
    | _ =>
      obtain rfl : w' = w := step
      exact Untouched.refl _

/-- Operations without an effect that look into `changes_dir` and `log_dir` only. -/
def Op.Looks : Op → Prop
  | .exists path => path.dir = .changes
  | .list dir => dir = .log
  | .openExcl _ => False
  | .write _ _ => False
  | .unlink _ => False
  | .openWriter _ => False
  | .closeWriter _ _ _ => False
  | .rename _ _ => False
  | .peek _ => False
  | .advance _ => False
  | _ => True

/-- Whoever is free to look around. -/
class Looking (allowed : Op → Prop) : Prop where
  looks : ∀ op, op.Looks → allowed op

instance (touched : Path → Prop) : Looking (Op.Local touched) where
  looks op looks := by cases op <;> trivial

theorem Op.Looks.local {op : Op} (looks : op.Looks) (touched : Path → Prop) :
    op.Local touched := Looking.looks op looks

/-- Making a file piece by piece. -/
inductive Op.Writes (path : Path) : Op → Prop where
  | openExcl : Op.Writes path (.openExcl path)
  | write (c : Char) : Op.Writes path (.write path c)

theorem Op.Writes.local {touched : Path → Prop} {path : Path} (inside : touched path) {op : Op}
    (writes : op.Writes path) :
    op.Local touched := by
  cases writes <;> exact inside

section Local

variable {allowed : Op → Prop} [Looking allowed] {touched : Path → Prop}

omit [Looking allowed] in
theorem perform_uses {op : Op} {what : Text} (here : allowed op) : (perform op what).Uses allowed (fun _ => True) := by
  unfold perform
  refine Program.Uses.bind (Program.Uses.request here) (fun reply _ => ?_)
  cases reply with
  | ok value => exact trivial
  | error code => exact Program.Uses.raise

omit [Looking allowed] in
theorem lift_uses {α : Type} (result : Except Fault α) : (Program.lift result : Prog α).Uses allowed (fun _ => True) :=
  Program.Uses.lift.weaken (fun _ here => here) (fun _ _ => trivial)

theorem look_uses {op : Op} {what : Text} (looks : op.Looks) : (perform op what).Uses allowed (fun _ => True) :=
  perform_uses (Looking.looks op looks)

omit [Looking allowed] in
theorem reliableWrite_uses {path : Path} (own : ∀ c, allowed (.write path c)) (data : Text) :
    (reliableWrite path data).Uses allowed (fun _ => True) :=
  Program.Uses.forM (fun c _ => perform_uses (own c))

theorem syncDir_uses (config : Config) (dir : Path) : (syncDir config dir).Uses allowed (fun _ => True) :=
  (look_uses (show (Op.openDir dir).Looks from trivial)).bind
    (fun _ _ => (look_uses (show (Op.fsyncDir dir).Looks from trivial)).bind
    (fun _ _ => look_uses (show (Op.closeDir dir).Looks from trivial)))

theorem ask_uses (statement : Query) : (askDatabase statement).Uses allowed (fun _ => True) :=
  look_uses (show (Op.query statement).Looks from trivial)

theorem getDbVersion_uses : getDbVersion.Uses allowed (fun _ => True) := by
  unfold getDbVersion
  refine Program.Uses.bind (look_uses (show (Op.query .version).Looks from trivial)) (fun rows _ => ?_)
  split
  · split
    · exact trivial
    · exact Program.Uses.raise
  · exact Program.Uses.raise

omit [Looking allowed] in
theorem unlink_uses {path : Path} (own : allowed (.unlink path)) : (unlink path).Uses allowed (fun _ => True) :=
  (Program.Uses.request own).bind (fun _ _ => Program.Uses.pure trivial)

end Local

/-- A discipline over the worlds. -/
abbrev Rules (τ : Type) := Discipline Op Reply World τ

section Quiet

variable {τ α : Type} {D : Rules τ} {touched : Path → Prop}

/-- What a local operation on `touched` files leaves alone. -/
structure Quiet (D : Rules τ) (touched : Path → Prop) (P : World × τ → Prop) : Prop where
  stable : D.Stable P
  kept : ∀ w w' t, P (w, t) → Untouched touched w w' → P (w', t)
  allowed : ∀ w w' t, P (w, t) → Untouched touched w w' → D.move (w, t) (w', t)

theorem Quiet.and_const {P : World × τ → Prop} {p : Prop} (quiet : Quiet D touched P) :
    Quiet D touched (fun c => p ∧ P c) where
  stable := Discipline.Stable.const.and quiet.stable
  kept w w' t here same := ⟨here.1, quiet.kept w w' t here.2 same⟩
  allowed w w' t here same := quiet.allowed w w' t here.2 same

variable (step : D.step = Step)
include step

/-- A local program keeps what it leaves alone, however it ends. -/
theorem Quiet.triple {P : World × τ → Prop} {result : α → Prop} {program : Prog α} (quiet : Quiet D touched P)
    (uses : program.Uses (Op.Local touched) result) :
    D.Triple P program (fun value c => result value ∧ P c) (fun _ => P) := by
  refine Discipline.Triple.uses uses quiet.stable (fun c op reply w' here inside done => ?_)
  obtain ⟨w, t⟩ := c
  rw [step] at done
  have same := Step.untouched done inside
  exact ⟨t, quiet.allowed w w' t here same, quiet.kept w w' t here same⟩

theorem Quiet.unit {P : World × τ → Prop} {program : Prog Unit} (quiet : Quiet D touched P)
    (uses : program.Uses (Op.Local touched) (fun _ => True)) :
    D.Triple P program (fun _ => P) (fun _ => P) :=
  (quiet.triple step uses).weaken (fun _ here => here) (fun _ _ here => here.2) (fun _ _ here => here)

/-- A part that only leaves things alone, with the failure of the whole program. -/
theorem Quiet.value {P failed : World × τ → Prop} (quiet : Quiet D touched P) (fails : ∀ c, P c → failed c)
    {program : Prog α}
    (uses : program.Uses (Op.Local touched) (fun _ => True)) : D.Triple P program (fun _ => P) (fun _ => failed) :=
  (quiet.triple step uses).weaken (fun _ here => here) (fun _ _ here => here.2) (fun _ => fails)

theorem Quiet.part {P failed : World × τ → Prop} (quiet : Quiet D touched P) (fails : ∀ c, P c → failed c)
    {program : Prog Unit}
    (uses : program.Uses (Op.Local touched) (fun _ => True)) : D.Triple P program (fun _ => P) (fun _ => failed) :=
  quiet.value step fails uses

/-- `unlink` raises nothing. -/
theorem unlink_triple {P : World × τ → Prop} {failed : Fault → World × τ → Prop} {path : Path}
    (quiet : Quiet D touched P) (inside : touched path) : D.Triple P (unlink path) (fun _ => P) failed := by
  refine Discipline.Triple.via (fun _ => P) ?_ (fun _ => Discipline.Triple.pure quiet.stable (fun _ here => here))
  refine Discipline.Triple.request quiet.stable (fun _ => quiet.stable) ?_
  rintro ⟨w, t⟩ reply w' here done
  rw [step] at done
  have same := Step.untouched done (show (Op.unlink path).Local touched from inside)
  exact ⟨t, quiet.allowed w w' t here same, quiet.kept w w' t here same⟩

/-- What holds after either reply. -/
def Outcome {op : Op} (post : op.Value → World × τ → Prop) (failed : World × τ → Prop) : Reply op → World × τ → Prop
  | .ok value => post value
  | .error _ => failed

theorem outcome_triple {P failed : World × τ → Prop} {op : Op} {post : op.Value → World × τ → Prop}
    (stable : D.Stable P) (stablePost : ∀ value, D.Stable (post value)) (stableFailed : D.Stable failed)
    (ok : ∀ w t value w', P (w, t) → Done w op value w' → ∃ t', D.move (w, t) (w', t') ∧ post value (w', t'))
    (error : ∀ w t, P (w, t) → D.move (w, t) (w, t) ∧ failed (w, t)) :
    D.Triple P (Program.request op : Prog (Reply op)) (Outcome post failed) (fun _ => failed) := by
  refine Discipline.Triple.request stable ?_ ?_
  · intro reply
    cases reply with
    | ok value => exact stablePost value
    | error code => exact stableFailed
  · rintro ⟨w, t⟩ reply w' here done
    rw [step] at done
    cases reply with
    | ok value => exact ok w t value w' here done
    | error code =>
      obtain ⟨_, rfl, _⟩ := done
      exact ⟨t, error w' t here⟩

/-- One operation, seen from the program that raises its failure. -/
theorem perform_triple {P failed : World × τ → Prop} {op : Op} {what : Text} {post : op.Value → World × τ → Prop}
    (stable : D.Stable P) (stablePost : ∀ value, D.Stable (post value)) (stableFailed : D.Stable failed)
    (ok : ∀ w t value w', P (w, t) → Done w op value w' → ∃ t', D.move (w, t) (w', t') ∧ post value (w', t'))
    (error : ∀ w t, P (w, t) → D.move (w, t) (w, t) ∧ failed (w, t)) :
    D.Triple P (perform op what) post (fun _ => failed) := by
  unfold perform
  refine (outcome_triple step stable stablePost stableFailed ok error).bind (fun reply => ?_)
  cases reply with
  | ok value => exact Discipline.Triple.pure (stablePost value) (fun _ here => here)
  | error code => exact Discipline.Triple.raise stableFailed (fun _ here => here)

/-- Opening a file with `O_EXCL`: the program goes on with a new, empty file, or it raises. -/
theorem exclusive_triple {P created failed : World × τ → Prop} {post : α → World × τ → Prop} {path : Path}
    {next : Reply (Op.openExcl path) → Prog α} {fault : Errno → Fault}
    (stable : D.Stable P) (stableCreated : D.Stable created) (stableFailed : D.Stable failed)
    (create : ∀ w t, P (w, t) → w.get path = none →
      ∃ t', D.move (w, t) (w.put path (.text []), t') ∧ created (w.put path (.text []), t'))
    (error : ∀ w t, P (w, t) → D.move (w, t) (w, t) ∧ failed (w, t))
    (raises : ∀ code, next (.error code) = Program.raise (fault code))
    (goesOn : ∀ value, D.Triple created (next (.ok value)) post (fun _ => failed)) :
    D.Triple P (exclWriteOpen path >>= next) post (fun _ => failed) := by
  have opened : D.Triple P (exclWriteOpen path) (Outcome (fun _ => created) failed) (fun _ => failed) := by
    refine outcome_triple step stable (fun _ => stableCreated) stableFailed (fun w t _ w' here done => ?_) error
    obtain ⟨free, rfl⟩ := done
    exact create w t here free
  refine opened.bind (fun reply => ?_)
  cases reply with
  | ok value => exact goesOn value
  | error code =>
    rw [raises code]
    exact Discipline.Triple.raise stableFailed (fun _ here => here)

/-- Writing piece by piece: `P` speaks about what has been written so far. -/
theorem reliableWrite_triple {P : Text → World × τ → Prop} {failed : World × τ → Prop} {path : Path} (data : Text)
    (stable : ∀ written, D.Stable (P written)) (stableFailed : D.Stable failed)
    (each : ∀ written c w t stored, P written (w, t) → w.get path = some (.text stored) →
      ∃ t', D.move (w, t) (w.put path (.text (stored ++ [c])), t') ∧
        P (written ++ [c]) (w.put path (.text (stored ++ [c])), t'))
    (error : ∀ written w t, P written (w, t) → D.move (w, t) (w, t) ∧ failed (w, t)) :
    D.Triple (P []) (reliableWrite path data) (fun _ => P data) (fun _ => failed) := by
  have lasts (rest : Text) : D.Stable (fun c => ∃ written, written ++ rest = data ∧ P written c) :=
    Discipline.Stable.exists (fun _ => Discipline.Stable.const.and (stable _))
  have loop : D.Triple (fun c => ∃ written, written ++ data = data ∧ P written c) (reliableWrite path data)
      (fun _ c => ∃ written, written ++ [] = data ∧ P written c) (fun _ => failed) := by
    refine Discipline.Triple.forM (fun rest c => ∃ written, written ++ rest = data ∧ P written c) data (lasts [])
      (fun c rest => ?_)
    apply perform_triple step (lasts _) (fun _ => lasts _) stableFailed
    · rintro w t _ w' ⟨written, split, here⟩ ⟨stored, found, rfl⟩
      obtain ⟨t', moved, later⟩ := each written c w t stored here found
      exact ⟨t', moved, written ++ [c], by simp [← split], later⟩
    · rintro w t ⟨written, _, here⟩
      exact error written w t here
  refine loop.weaken (fun c here => ⟨[], rfl, here⟩) (fun _ c here => ?_) (fun _ _ here => here)
  obtain ⟨written, rfl, here⟩ := here
  rwa [List.append_nil]

/-- The new file is written to its end, synced and closed. -/
theorem synced_triple {P : Text → World × τ → Prop} {failed : World × τ → Prop} {path : Path} (data : Text)
    (quiet : ∀ written, Quiet D touched (P written)) (stableFailed : D.Stable failed)
    (fails : ∀ written c, P written c → failed c)
    (each : ∀ written c w t stored, P written (w, t) → w.get path = some (.text stored) →
      ∃ t', D.move (w, t) (w.put path (.text (stored ++ [c])), t') ∧
        P (written ++ [c]) (w.put path (.text (stored ++ [c])), t')) :
    D.Triple (P []) (writeSynced path data) (fun _ => P data) (fun _ => failed) := by
  have written : D.Triple (P []) (reliableWrite path data) (fun _ => P data) (fun _ => failed) :=
    reliableWrite_triple step data (fun written => (quiet written).stable) stableFailed each
      (fun written w t here => ⟨(quiet written).allowed w w t here (Untouched.refl _), fails written _ here⟩)
  unfold writeSynced
  refine written.bind (fun _ => ?_)
  exact ((quiet data).part step (fails data) (perform_uses trivial)).bind
    (fun _ => (quiet data).part step (fails data) (perform_uses trivial))

/-- The answer of a statement comes from some state of the tables. -/
theorem askDatabase_triple {P : World × τ → Prop} (quiet : Quiet D touched P) (statement : Query) :
    D.Triple P (askDatabase statement)
      (fun rows c => (∃ tables : Tables, Answers tables.toDatabase statement rows) ∧ P c) (fun _ => P) := by
  apply perform_triple step quiet.stable (fun _ => quiet.and_const.stable) quiet.stable
  · rintro w t rows w' here ⟨answers, rfl⟩
    exact ⟨t, quiet.allowed _ _ t here (Untouched.refl _), ⟨_, answers⟩, here⟩
  · exact fun w t here => ⟨quiet.allowed _ _ t here (Untouched.refl _), here⟩

/-- The pid file is of no concern to anything that is said about other directories. -/
theorem pidFile_triple {P failed : World × τ → Prop} {post : α → World × τ → Prop} (config : Config) (name : Text)
    {body : Prog α} (before : Quiet D (fun path => path.dir = .run) P)
    (after : ∀ value, Quiet D (fun path => path.dir = .run) (post value))
    (faulty : Quiet D (fun path => path.dir = .run) failed) (start : ∀ c, P c → failed c)
    (run : D.Triple P body post (fun _ => failed)) :
    D.Triple P (pidFile config name body) post (fun _ => failed) := by
  unfold pidFile
  split
  · exact run
  · have inRun : (pidPath name).dir = .run := rfl
    refine (before.value step start (Program.Uses.request
      (show (Op.openExcl (pidPath name)).Local (fun path => path.dir = .run) from inRun))).bind (fun reply => ?_)
    cases reply with
    | error code => exact Discipline.Triple.raise faulty.stable start
    | ok value =>
      refine (before.value step start (perform_uses (show Op.getpid.Local _ from trivial))).bind
        (fun (pid : Nat) => ?_)
      refine (before.part step start (reliableWrite_uses (fun _ => inRun) _)).bind (fun _ => ?_)
      refine (before.part step start (perform_uses (show (Op.close (pidPath name)).Local _ from trivial))).bind
        (fun _ => ?_)
      intro c here
      refine Discipline.Safe.scope ((run c here).weaken ?_ ?_) (fun value => (after value).stable)
        (fun _ => faulty.stable)
      · intro value c' done
        exact unlink_triple step (after value) inRun c' done
      · intro fault c' done
        exact unlink_triple step faulty inRun c' done

end Quiet

end Osmdbt
