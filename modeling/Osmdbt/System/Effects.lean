import Osmdbt.General.Completion
import Osmdbt.System.Frame

/-! What is left behind when a program runs on its own and ends. -/

namespace Osmdbt

open General

/-- A run of a program on the files and the database, without anybody else. -/
abbrev Ends {α : Type} (program : Prog α) (w : World) (result : Except Fault α) (w' : World) : Prop :=
  program.Ends Step w result w'

/-- Nothing changed. -/
abbrev Same (w w' : World) : Prop := Untouched (fun _ => False) w w'

theorem Untouched.trans {touched : Path → Prop} {w w₁ w' : World} (first : Untouched touched w w₁)
    (second : Untouched touched w₁ w') : Untouched touched w w' :=
  ⟨second.wal.trans first.wal, second.slot.trans first.slot, second.tables.trans first.tables,
    second.returned.trans first.returned, second.renames.trans first.renames,
    fun path outside => (second.get path outside).trans (first.get path outside)⟩

theorem Same.touching {touched : Path → Prop} {w w' : World} (same : Same w w') : Untouched touched w w' :=
  same.mono (fun _ none => none.elim)

/-- A program that only works on some files leaves the others alone. -/
theorem visits_untouched {α : Type} {touched : Path → Prop} {post : α → Prop} {program : Prog α} {w w' : World}
    (uses : program.Uses (Op.Local touched) post) (visits : program.Visits Step w w') : Untouched touched w w' :=
  @Program.Visits.kept _ _ _ _ _ _ _ _ _ _ _ (fun w₁ => Untouched touched w w₁) uses visits
    (fun _ _ _ _ so inside done => so.trans (Step.untouched done inside)) (Untouched.refl w)

theorem ends_untouched {α : Type} {touched : Path → Prop} {post : α → Prop} {program : Prog α} {w w' : World}
    {result : Except Fault α} (uses : program.Uses (Op.Local touched) post) (ends : Ends program w result w') :
    Untouched touched w w' := visits_untouched uses ends.visits

/-- A program is followed part by part, from `w` to `w'`: to its end, or to where it
is stopped. `failed` is what is known when nothing comes after a part. -/
structure Partwise {β : Type} (R : Prog β → World → World → Prop) (failed : Prop) : Prop where
  pure : ∀ {value : β} {w w' : World}, R (.pure value) w w' → w' = w
  raise : ∀ {fault : Fault} {w w' : World}, R (.raise fault) w w' → failed ∧ w' = w
  bind : ∀ {α : Type} {touched : Path → Prop} {post : α → Prop} {program : Prog α} {next : α → Prog β} {w w' : World},
    program.Uses (Op.Local touched) post → R (program >>= next) w w' →
    (∃ value w₁, Ends program w (.ok value) w₁ ∧ Untouched touched w w₁ ∧ R (next value) w₁ w') ∨
      failed ∧ Untouched touched w w'
  scope : ∀ {body : Prog β} {path : Path} {w w' : World}, R (body.scope (unlink path)) w w' →
    ∃ w₁, R body w w₁ ∧ Untouched (· = path) w₁ w'

theorem ownUnlink_uses (path : Path) : (unlink path).Uses (Op.Local (· = path)) (fun _ => True) :=
  unlink_uses (show (Op.unlink path).Local (· = path) from rfl)

theorem partwise_ends {β : Type} (result : Except Fault β) :
    Partwise (fun program w w' => Ends program w result w') (∃ fault, result = .error fault) where
  pure ends := ends.2
  raise ends := ⟨⟨_, ends.1⟩, ends.2⟩
  bind uses ends := by
    rcases Program.ends_bind.mp ends with ⟨value, w₁, first, rest⟩ | ⟨fault, same, failed⟩
    · exact .inl ⟨value, w₁, first, ends_untouched uses first, rest⟩
    · exact .inr ⟨⟨fault, same⟩, ends_untouched uses failed⟩
  scope ends := by
    obtain ⟨first, w₁, ran, ⟨cleaned, rfl⟩ | ⟨fault, ⟨_, _, _, wrong, _⟩, _⟩⟩ := Program.ends_scope.mp ends
    · exact ⟨w₁, ran, ends_untouched (ownUnlink_uses _) cleaned⟩
    · cases wrong

/-- All states a run comes to, also when only some steps count. -/
private theorem partwise_visits_within {β : Type} {step : World → (op : Op) → Reply op → World → Prop}
    (within : ∀ w op reply w', step w op reply w' → Step w op reply w') :
    Partwise (fun (program : Prog β) w w' => program.Visits step w w') True where
  pure visits := visits
  raise visits := ⟨trivial, visits⟩
  bind {_ _ _ program _ _ _} uses visits := by
    rcases Program.visits_bind visits with inside | ⟨value, w₁, first, rest⟩
    · exact .inr ⟨trivial, visits_untouched uses
        (inside.within program.uses_anything (fun _ _ _ _ _ done => within _ _ _ _ done))⟩
    · have first := first.within within
      exact .inl ⟨value, w₁, first, ends_untouched uses first, rest⟩
  scope {_ path _ w'} visits := by
    rcases Program.visits_scope visits with inside | ⟨_, w₁, ran, cleaning⟩
    · exact ⟨w', inside, Untouched.refl w'⟩
    · refine ⟨w₁, ran.visits, visits_untouched (ownUnlink_uses path) ?_⟩
      exact cleaning.within (Program.uses_anything _) (fun _ _ _ _ _ done => within _ _ _ _ done)

theorem partwise_visits {β : Type} : Partwise (fun (program : Prog β) w w' => program.Visits Step w w') True :=
  partwise_visits_within (fun _ _ _ _ done => done)

theorem perform_ends {op : Op} {what : Text} {w w' : World} {result : Except Fault op.Value} :
    Ends (perform op what) w result w' ↔ (∃ value, result = .ok value ∧ Done w op value w') ∨
      op.Fallible ∧ result = .error (.systemError what) ∧ w' = w := by
  unfold perform
  constructor
  · rintro ⟨reply, w₁, done, rest⟩
    cases reply with
    | ok value =>
      obtain ⟨rfl, rfl⟩ := rest
      exact .inl ⟨value, rfl, done⟩
    | error code =>
      obtain ⟨rfl, rfl⟩ := rest
      exact .inr ⟨done.1, rfl, done.2.1⟩
  · rintro (⟨value, rfl, done⟩ | ⟨fallible, rfl, rfl⟩)
    · exact ⟨.ok value, w', done, rfl, rfl⟩
    · refine ⟨.error .other, w', ⟨fallible, rfl, fun path _ code => ?_⟩, rfl, rfl⟩
      cases code

theorem perform_ok {op : Op} {what : Text} {w w' : World} {value : op.Value} :
    Ends (perform op what) w (.ok value) w' ↔ Done w op value w' := by
  rw [perform_ends]
  constructor
  · rintro (⟨other, same, done⟩ | ⟨_, wrong, _⟩)
    · exact Except.ok.inj same ▸ done
    · cases wrong
  · exact fun done => .inl ⟨value, rfl, done⟩

/-- The operation behind a value, whatever system it runs on. -/
theorem perform_done {σ : Type} {step : σ → (op : Op) → Reply op → σ → Prop} {s s' : σ} {op : Op}
    {what : Text} {value : op.Value}
    (ends : (perform op what).Ends step s (.ok value) s') : step s op (.ok value) s' := by
  obtain ⟨reply, s₁, done, rest⟩ := ends
  cases reply with
  | ok other =>
    obtain ⟨same, rfl⟩ := rest
    exact Except.ok.inj same ▸ done
  | error code => cases rest.1

section Files

variable {w w' : World} {path : Path}

theorem ownWrite_uses (path : Path) (data : Text) :
    (reliableWrite path data).Uses (Op.Local (· = path)) (fun _ => True) :=
  reliableWrite_uses (fun _ => rfl) data

theorem reliableWrite_ok {stored data : Text} (opened : w.get path = some (.text stored))
    (ends : Ends (reliableWrite path data) w (.ok ()) w') :
    w'.get path = some (.text (stored ++ data)) ∧ Untouched (· = path) w w' := by
  refine ⟨?_, ends_untouched (ownWrite_uses path data) ends⟩
  induction data generalizing w stored with
  | nil =>
    obtain ⟨_, rfl⟩ := ends
    rwa [List.append_nil]
  | cons c rest ih =>
    obtain ⟨_, w₁, first, later⟩ := Program.ends_bind_ok.mp ends
    obtain ⟨before, here, rfl⟩ := perform_ok.mp first
    obtain rfl : stored = before := by simpa [opened] using here
    have written := ih (World.get_put_self _ _ _) later
    rwa [List.append_assoc, List.singleton_append] at written

theorem syncDir_ends {config : Config} {dir : Path} {result : Except Fault Unit}
    (ends : Ends (syncDir config dir) w result w') : Same w w' :=
  ends_untouched (syncDir_uses config dir) ends

private theorem writeSynced_uses (path : Path) (data : Text) :
    (writeSynced path data).Uses (Op.Local (· = path)) (fun _ => True) :=
  (ownWrite_uses path data).bind (fun _ _ => (perform_uses (show (Op.fsync path).Local _ from trivial)).bind
    (fun _ _ => perform_uses (show (Op.close path).Local _ from trivial)))

theorem writeSynced_ok {stored data : Text} (opened : w.get path = some (.text stored))
    (ends : Ends (writeSynced path data) w (.ok ()) w') :
    w'.get path = some (.text (stored ++ data)) ∧ Untouched (· = path) w w' := by
  refine ⟨?_, ends_untouched (writeSynced_uses path data) ends⟩
  obtain ⟨_, w₁, written, rest⟩ := Program.ends_bind_ok.mp ends
  obtain ⟨_, w₂, synced, closed⟩ := Program.ends_bind_ok.mp rest
  obtain ⟨content, _⟩ := reliableWrite_ok opened written
  obtain rfl : w₂ = w₁ := perform_ok.mp synced
  obtain rfl : w' = w₂ := perform_ok.mp closed
  exact content

/-- The file is there afterwards, under its final name only. -/
theorem writeDataToFile_ok {config : Config} {data fileName : Text}
    (ends : Ends (writeDataToFile config data fileName) w (.ok ()) w') :
    w'.get ⟨.log, fileName⟩ = some (.text data) ∧ w'.get ⟨.log, fileName ++ ".new".toList⟩ = none ∧
      (∀ path, path ≠ ⟨.log, fileName⟩ → path ≠ ⟨.log, fileName ++ ".new".toList⟩ → w'.get path = w.get path) ∧
      w'.wal = w.wal ∧ w'.slot = w.slot ∧ w'.tables = w.tables ∧ w'.returned = w.returned ∧ w'.renames = w.renames ++
        [⟨⟨.log, fileName ++ ".new".toList⟩, ⟨.log, fileName⟩, .text data, w.returned⟩] := by
  have different : (⟨.log, fileName ++ ".new".toList⟩ : Path) ≠ ⟨.log, fileName⟩ := by
    intro same
    have length := congrArg List.length (congrArg Path.name same)
    simp at length
  obtain ⟨reply, w₁, opened, rest⟩ := Program.ends_bind_ok.mp ends
  obtain ⟨_, done, same⟩ := Program.ends_request.mp opened
  obtain rfl := Except.ok.inj same
  cases reply with
  | error code => cases rest.1
  | ok _ =>
    obtain ⟨free, rfl⟩ := done
    obtain ⟨_, w₂, written, rest⟩ := Program.ends_bind_ok.mp rest
    obtain ⟨content, others⟩ := writeSynced_ok (World.get_put_self _ _ _) written
    obtain ⟨_, w₃, renamed, synced⟩ := Program.ends_bind_ok.mp rest
    obtain ⟨stored, here, rfl⟩ := perform_ok.mp renamed
    obtain rfl : stored = .text data := Option.some.inj (here.symm.trans content)
    have last := syncDir_ends synced
    refine ⟨?_, ?_, fun path notFinal notTmp => ?_, ?_, ?_, ?_, ?_, ?_⟩
    · rw [last.get _ not_false, World.get_rename_new]
    · rw [last.get _ not_false, World.get_rename_old _ _ _ different]
    · rw [last.get _ not_false, World.get_rename_ne _ _ _ notTmp notFinal, others.get path notTmp,
        World.get_put_ne _ _ _ notTmp]
    · exact last.wal.trans (others.wal.trans rfl)
    · exact last.slot.trans (others.slot.trans rfl)
    · exact last.tables.trans (others.tables.trans rfl)
    · exact last.returned.trans (others.returned.trans rfl)
    · rw [last.renames]
      simp only [World.rename, others.renames, others.returned]
      rfl

end Files

/-- The constructor of `PIDFile`, when there is a directory. -/
def makePidFile (config : Config) (name : Text) : Prog Unit := do
  match ← exclWriteOpen (pidPath name) with
  | .error code => Program.raise (pidFileFault config name code)
  | .ok _ =>
    let pid : Nat ← perform .getpid []
    reliableWrite (pidPath name) (natText pid ++ ['\n'])
    reliableClose (pidPath name)

theorem pidFile_eq {α : Type} {config : Config} {name : Text} (some : config.runDir ≠ []) (body : Prog α) :
    pidFile config name body = makePidFile config name >>= fun _ => body.scope (unlink (pidPath name)) := by
  unfold pidFile makePidFile
  rw [if_neg (fun empty => some (List.isEmpty_iff.mp empty)), bind_assoc]
  congr 1
  funext reply
  cases reply with
  | error code => rfl
  | ok _ =>
    refine Eq.trans ?_ (Program.bind_assoc _ _ _).symm
    exact congrArg (Program.bind (perform Op.getpid [])) (funext (fun _ => (Program.bind_assoc _ _ _).symm))

section Succeeding

variable {step : World → (op : Op) → Reply op → World → Prop}
    (does : ∀ w op value w', Done w op value w' → step w op (.ok value) w')
include does

theorem perform_does {op : Op} {what : Text} {value : op.Value} {w w' : World} (done : Done w op value w') :
    (perform op what).Ends step w (.ok value) w' := ⟨.ok value, w', does w op value w' done, rfl, rfl⟩

theorem reliableWrite_does {w : World} {path : Path} {stored : Text} (data : Text)
    (opened : w.get path = some (.text stored)) :
    ∃ w', (reliableWrite path data).Ends step w (.ok ()) w' := by
  induction data generalizing w stored with
  | nil => exact ⟨w, rfl, rfl⟩
  | cons c rest ih =>
    obtain ⟨w', later⟩ := ih (World.get_put_self w path (.text (stored ++ [c])))
    exact ⟨w', Program.ends_bind_ok.mpr ⟨(), _, perform_does does ⟨stored, opened, rfl⟩, later⟩⟩

/-- The pid file can be made when there is none. -/
theorem makePidFile_does {config : Config} {name : Text} {w : World} (free : w.get (pidPath name) = none) :
    ∃ w', (makePidFile config name).Ends step w (.ok ()) w' := by
  obtain ⟨w', written⟩ := reliableWrite_does does (natText 1 ++ ['\n'])
    (World.get_put_self w (pidPath name) (.text []))
  have asked : (perform Op.getpid []).Ends step (w.put (pidPath name) (.text [])) (.ok (1 : Nat)) _ :=
    perform_does does rfl
  have closed : (reliableClose (pidPath name)).Ends step w' (.ok ()) w' := perform_does does rfl
  have opened : (exclWriteOpen (pidPath name)).Ends step w (.ok (.ok ())) (w.put (pidPath name) (.text [])) :=
    Program.ends_request.mpr ⟨.ok (), does _ _ _ _ ⟨free, rfl⟩, rfl⟩
  exact ⟨w', Program.ends_bind_ok.mpr ⟨_, _, opened, Program.ends_bind_ok.mpr ⟨_, _, asked,
    Program.ends_bind_ok.mpr ⟨_, _, written, closed⟩⟩⟩⟩

end Succeeding

theorem writeSynced_does {w : World} {path : Path} {stored : Text} (data : Text)
    (opened : w.get path = some (.text stored)) :
    ∃ w', Ends (writeSynced path data) w (.ok ()) w' := by
  obtain ⟨w₁, wrote⟩ := @reliableWrite_does Step (fun _ _ _ _ done => done) w path stored data opened
  exact ⟨w₁, Program.ends_bind_ok.mpr ⟨(), w₁, wrote, Program.ends_bind_ok.mpr
    ⟨(), w₁, perform_ok.mpr rfl, perform_ok.mpr rfl⟩⟩⟩

theorem syncDir_does {config : Config} {w : World} (dir : Path) : Ends (syncDir config dir) w (.ok ()) w :=
  Program.ends_bind_ok.mpr ⟨(), w, perform_ok.mpr rfl, Program.ends_bind_ok.mpr
    ⟨(), w, perform_ok.mpr rfl, perform_ok.mpr rfl⟩⟩

theorem writeDataToFile_does {config : Config} {w : World} {fileName : Text} (data : Text)
    (free : w.get ⟨.log, fileName ++ ".new".toList⟩ = none) :
    ∃ w', Ends (writeDataToFile config data fileName) w (.ok ()) w' := by
  obtain ⟨w₁, synced⟩ := writeSynced_does data (World.get_put_self w ⟨.log, fileName ++ ".new".toList⟩ (.text []))
  have content := (writeSynced_ok (World.get_put_self _ _ _) synced).1
  have opened : Ends (exclWriteOpen ⟨.log, fileName ++ ".new".toList⟩) w (.ok (.ok ()))
      (w.put ⟨.log, fileName ++ ".new".toList⟩ (.text [])) := Program.ends_request.mpr ⟨.ok (), ⟨free, rfl⟩, rfl⟩
  have renamed : Ends (renameFile config ⟨.log, fileName ++ ".new".toList⟩ ⟨.log, fileName⟩) w₁ (.ok ())
      (w₁.rename ⟨.log, fileName ++ ".new".toList⟩ ⟨.log, fileName⟩ (.text ([] ++ data))) :=
        perform_ok.mpr ⟨_, content, rfl⟩
  exact ⟨_, Program.ends_bind_ok.mpr ⟨_, _, opened, Program.ends_bind_ok.mpr ⟨_, _, synced,
    Program.ends_bind_ok.mpr ⟨_, _, renamed, syncDir_does _⟩⟩⟩⟩

/-- What the constructor asks for. -/
theorem makePidFile_uses {config : Config} {name : Text} {allowed : Op → Prop} [Looking allowed]
    (writes : ∀ op, op.Writes (pidPath name) → allowed op) :
    (makePidFile config name).Uses allowed (fun _ => True) := by
  refine (Program.Uses.request (writes _ .openExcl)).bind (fun reply _ => ?_)
  cases reply with
  | error _ => exact Program.Uses.raise
  | ok _ =>
    refine (look_uses (show Op.getpid.Looks from trivial)).bind (fun (number : Nat) _ => ?_)
    exact (reliableWrite_uses (fun c => writes _ (.write c)) _).bind
      (fun _ _ => look_uses (show (Op.close (pidPath name)).Looks from trivial))

/-- What is asked for while a pid file is held, and for the pid file itself. -/
theorem pidFile_uses {α : Type} {config : Config} {name : Text} {body : Prog α} {allowed : Op → Prop} [Looking allowed]
    {post : α → Prop} (writes : ∀ op, op.Writes (pidPath name) → allowed op)
    (removes : allowed (.unlink (pidPath name)))
    (uses : body.Uses allowed post) :
    (pidFile config name body).Uses allowed post := by
  by_cases none : config.runDir = []
  · unfold pidFile
    rwa [if_pos (List.isEmpty_iff.mpr none)]
  · rw [pidFile_eq none]
    exact (makePidFile_uses writes).bind (fun _ _ => uses.scope (unlink_uses removes))

/-- The pid file, if there is a directory for it. -/
def PidFileOf (config : Config) (name : Text) (path : Path) : Prop := config.runDir ≠ [] ∧ path = pidPath name

theorem makePidFile_free {config : Config} {name : Text} {w w' : World}
    (made : Ends (makePidFile config name) w (.ok ()) w') :
    w.get (pidPath name) = none := by
  obtain ⟨reply, w₃, opened, making⟩ := Program.ends_bind_ok.mp made
  obtain ⟨_, done, same⟩ := Program.ends_request.mp opened
  obtain rfl := Except.ok.inj same
  cases reply with
  | error code => cases making.1
  | ok _ => exact done.1

/-- Also for a file that is not there. -/
theorem unlink_does (path : Path) (w : World) : ∃ w', Ends (unlink path) w (.ok ()) w' ∧ w'.get path = none := by
  have failed : Step w (.unlink path) (.error .other) w := ⟨trivial, rfl, fun _ wrong => nomatch wrong⟩
  by_cases there : (w.get path).isSome
  · exact ⟨w.drop path, ⟨.ok (), _, ⟨there, rfl⟩, rfl, rfl⟩, World.get_drop_self w path⟩
  · exact ⟨w, ⟨.error .other, w, failed, rfl, rfl⟩, by simpa using there⟩

/-- The body runs between changes of the pid file, which was free, or it does not run at all. -/
theorem Partwise.pidFile {β : Type} {R : Prog β → World → World → Prop} {failed : Prop} (parts : Partwise R failed)
    {config : Config} {name : Text} {body : Prog β} {w w' : World} (run : R (pidFile config name body) w w') :
    (∃ w₁ w₂, (config.runDir ≠ [] → w.get (pidPath name) = none) ∧ Untouched (PidFileOf config name) w w₁ ∧
      R body w₁ w₂ ∧ Untouched (PidFileOf config name) w₂ w') ∨ failed ∧ Untouched (PidFileOf config name) w w' := by
  by_cases none : config.runDir = []
  · unfold Osmdbt.pidFile at run
    rw [if_pos (List.isEmpty_iff.mpr none)] at run
    exact .inl ⟨w, w', fun some => absurd none some, Untouched.refl w, run, Untouched.refl w'⟩
  rw [pidFile_eq none] at run
  have held {v v' : World} (same : Untouched (· = pidPath name) v v') : Untouched (PidFileOf config name) v v' :=
    same.mono (fun _ here => ⟨none, here⟩)
  have own : (makePidFile config name).Uses (Op.Local (· = pidPath name)) (fun _ => True) :=
    makePidFile_uses (fun _ writes => @Op.Writes.local (· = pidPath name) _ rfl _ writes)
  rcases parts.bind own run with ⟨_, w₁, made, before, inside⟩ | ⟨stopped, same⟩
  swap
  · exact .inr ⟨stopped, held same⟩
  obtain ⟨w₂, ran, cleaned⟩ := parts.scope inside
  exact .inl ⟨w₁, w₂, fun _ => makePidFile_free made, held before, ran, held cleaned⟩

/-- A body that can end normally can do so under its pid file, which is gone afterwards. -/
theorem pidFile_does {α : Type} {config : Config} {name : Text} {body : Prog α} {w : World}
    {post : α → World → World → Prop} (free : config.runDir ≠ [] → w.get (pidPath name) = none)
    (inside : ∀ w₁, Untouched (PidFileOf config name) w w₁ → ∃ value w₂, Ends body w₁ (.ok value) w₂ ∧
      post value w₁ w₂) :
    ∃ value w₁ w₂ w', Ends (pidFile config name body) w (.ok value) w' ∧ Untouched (PidFileOf config name) w w₁ ∧
      post value w₁ w₂ ∧ Untouched (PidFileOf config name) w₂ w' ∧
      (config.runDir ≠ [] → w'.get (pidPath name) = none) := by
  by_cases none : config.runDir = []
  · obtain ⟨value, w', ran, after⟩ := inside w (Untouched.refl w)
    refine ⟨value, w, w', w', ?_, Untouched.refl w, after, Untouched.refl w', absurd none⟩
    unfold pidFile
    rwa [if_pos (List.isEmpty_iff.mpr none)]
  rw [pidFile_eq none]
  have held {v v' : World} (same : Untouched (· = pidPath name) v v') : Untouched (PidFileOf config name) v v' :=
    same.mono (fun _ here => ⟨none, here⟩)
  obtain ⟨w₁, made⟩ := @makePidFile_does Step (fun _ _ _ _ done => done) config name w (free none)
  have own : (makePidFile config name).Uses (Op.Local (· = pidPath name)) (fun _ => True) :=
    makePidFile_uses (fun _ writes => @Op.Writes.local (· = pidPath name) _ rfl _ writes)
  have before := held (ends_untouched own made)
  obtain ⟨value, w₂, ran, after⟩ := inside w₁ before
  obtain ⟨w', cleaned, gone⟩ := unlink_does (pidPath name) w₂
  have removed : Untouched (· = pidPath name) w₂ w' :=
    ends_untouched (unlink_uses (show (Op.unlink (pidPath name)).Local (· = pidPath name) from rfl)) cleaned
  refine ⟨value, w₁, w₂, w', ?_, before, after, held removed, fun _ => gone⟩
  exact Program.ends_bind_ok.mpr ⟨(), w₁, made, Program.ends_scope.mpr ⟨_, w₂, ran, .inl ⟨cleaned, rfl⟩⟩⟩

end Osmdbt
