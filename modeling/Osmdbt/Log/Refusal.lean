import Osmdbt.Diff.Requests
import Osmdbt.Log.Exclusion
import Osmdbt.Log.Minutes
import Osmdbt.Log.Rules
import Osmdbt.System.NoLoss
import Osmdbt.System.Serve

/-! catchup reads an LSN in every name of a log file. The names of get-log have one,
those of fake-log do not: they stop catchup for as long as they are in `log_dir`. -/

namespace Osmdbt

open General

/-- The name fake-log gives to the log file of a minute. -/
def fakeName (minute now : Timestamp) : Text := createReplicationLogName (toIso minute) now

/-- The names the two log writers give. -/
inductive WriterName : Text → Prop where
  | log {lsn : Nat} (small : lsn < 2 ^ 64) (time : Timestamp) : WriterName (replicationLogName (lsnStr lsn) time)
  | fake (minute now : Timestamp) : WriterName (fakeName minute now)

/-- The expression of `get_lsn` wants `lsn-` behind the date. -/
private theorem matchLogName_other {date text : Text}
    (dated : List.Forall₂ (fun g c => Glyph.accepts g c = true) datePattern date)
    (other : text.head? ≠ some 'l') : matchLogName ("osm-repl-".toList ++ date ++ '-' :: text) = none := by
  have dropped : dropGlyphs (literal "osm-repl-" ++ datePattern ++ literal "-lsn-")
      ("osm-repl-".toList ++ date ++ '-' :: text) = none := by
    rw [List.append_assoc, List.append_assoc, literal, dropGlyphs_append (literal_accepts _), dropGlyphs_append dated]
    cases text with
    | nil => rfl
    | cons c rest =>
      have different : c ≠ 'l' := fun same => other (congrArg some same)
      simp [literal, dropGlyphs, Glyph.accepts, different]
  rw [matchLogName, dropped]

private theorem dated_head {date : Text} (dated : List.Forall₂ (fun g c => Glyph.accepts g c = true)
    datePattern date) (more : Text) :
    (date ++ more).head? ≠ some 'l' := by
  obtain ⟨c, rest, digit, _, rfl⟩ := List.forall₂_cons_left_iff.mp
    (show List.Forall₂ (fun g c => Glyph.accepts g c = true) (.digit :: datePattern.tail) date from dated)
  intro same
  obtain rfl : c = 'l' := Option.some.inj same
  exact absurd digit (by decide)

/-- fake-log writes the minute there, or nothing. -/
theorem lsnOfName_fakeName (minute now : Timestamp) :
    lsnOfName (fakeName minute now) = .error (invalidLogFile (fakeName minute now)) := by
  have parts : fakeName minute now = "osm-repl-".toList ++ toIsoAll now ++ '-' :: (toIso minute ++ ".log".toList) :=
    List.append_assoc _ _ _
  have noLsn : (toIso minute ++ ".log".toList).head? ≠ some 'l' := by
    unfold toIso
    split
    · decide
    · exact dated_head (toIsoAll_accepted minute) _
  have matched : matchLogName (fakeName minute now) = none := by
    rw [parts]
    exact matchLogName_other (toIsoAll_accepted now) noLsn
  rw [lsnOfName, matched]

private theorem isLog_fakeName (minute now : Timestamp) : isLog (fakeName minute now) = true :=
  FakeLog.isLog_createReplicationLogName _ _

theorem WriterName.refused {name : Text} (written : WriterName name) {fault : Fault}
    (error : lsnOfName name = .error fault) :
    fault = invalidLogFile name ∧ ∃ minute now, name = fakeName minute now := by
  cases written with
  | log small time =>
    rw [lsnOfName_replicationLogName small] at error
    cases error
  | fake minute now =>
    rw [lsnOfName_fakeName] at error
    exact ⟨(Except.error.inj error).symm, minute, now, rfl⟩

/-- The listing is read up to the first name without an LSN. -/
theorem getLsn_cases (files : List Text) : (∃ lsn, getLsn files = .ok lsn) ∨
    ∃ name ∈ files, isLog name = true ∧ ∃ fault, lsnOfName name = .error fault ∧ getLsn files = .error fault := by
  unfold getLsn
  generalize (0 : Nat) = start
  induction files generalizing start with
  | nil => exact .inl ⟨start, rfl⟩
  | cons name rest ih =>
    rw [List.foldlM_cons]
    by_cases log : isLog name = true
    · rw [if_pos log]
      cases own : lsnOfName name with
      | error fault => exact .inr ⟨name, List.mem_cons_self, log, fault, own, rfl⟩
      | ok lsn =>
        refine (ih _).imp id ?_
        rintro ⟨other, member, found⟩
        exact ⟨other, List.mem_cons_of_mem _ member, found⟩
    · rw [if_neg log]
      refine (ih _).imp id ?_
      rintro ⟨other, member, found⟩
      exact ⟨other, List.mem_cons_of_mem _ member, found⟩

section Catchup

variable {config : Config} {w w' : World}

/-- Any other exception than that of `get_lsn`. -/
def Fault.Other (fault : Fault) : Prop := ∀ fileName, fault ≠ invalidLogFile fileName

theorem other_of_head {what : Text} (head : what.head? ≠ some 'I') : (Fault.runtimeError what).Other := by
  intro fileName same
  obtain rfl := Fault.runtimeError.inj same
  exact head rfl

theorem perform_raises (op : Op) (what : Text) : (perform op what).Raises Fault.Other := by
  intro reply
  cases reply with
  | ok value => trivial
  | error code => exact fun _ wrong => nomatch wrong

private theorem makePidFile_raises (name : Text) : (makePidFile config name).Raises Fault.Other := by
  intro reply
  cases reply with
  | error code =>
    cases code with
    | exist => exact other_of_head (by simp)
    | other => exact other_of_head (by simp)
  | ok _ =>
    exact (perform_raises _ _).bind (fun _ => (Program.Raises.forM (fun _ => perform_raises _ _)).bind
      (fun _ => perform_raises _ _))

private theorem getDbVersion_raises : getDbVersion.Raises Fault.Other := by
  refine (perform_raises _ _).bind (fun (rows : List Text) => ?_)
  have expected (what : String) (head : what.toList.head? ≠ some 'I') :
      (Program.raise (databaseError what) : Prog Text).Raises Fault.Other :=
    other_of_head head
  split
  · split
    · trivial
    · exact expected _ (by decide)
  · exact expected _ (by decide)

private theorem catchupToLsn_raises (lsn : Text) : (catchupToLsn lsn).Raises Fault.Other := by
  refine (perform_raises _ _).bind (fun (version : Nat) => ?_)
  exact Program.Raises.ite (perform_raises _ _) (other_of_head (by decide))

/-- What follows on the LSN. -/
def advanceTo (lsn : Nat) : Prog Unit :=
  if lsn = 0 then pure ()
  else do
    connect
    let _ ← getDbVersion
    catchupToLsn (lsnStr lsn)
    commitTransaction

private theorem advanceTo_raises (lsn : Nat) : (advanceTo lsn).Raises Fault.Other := by
  unfold advanceTo
  split
  · trivial
  · exact (perform_raises _ _).bind (fun _ => getDbVersion_raises.bind (fun _ =>
      (catchupToLsn_raises _).bind (fun _ => perform_raises _ _)))

/-- `catchup` without its pid file. -/
theorem body_refused_iff {fileName : Text} :
    Ends (catchupTarget 0 >>= advanceTo) w (.error (invalidLogFile fileName)) w' ↔
      w' = w ∧ ∃ names : List Text, names.Nodup ∧ (∀ name, name ∈ names ↔ (w.get ⟨.log, name⟩).isSome) ∧
        getLsn names = .error (invalidLogFile fileName) := by
  have target {result : Except Fault Nat} : Ends (catchupTarget 0) w result w' ↔ Ends (do
      let files : List Text ← perform (.list .log) "directory iterator cannot open directory".toList
      Program.lift (getLsn files)) w result w' := Iff.rfl
  constructor
  · intro ends
    rcases Program.ends_bind.mp ends with ⟨lsn, w₁, _, rest⟩ | ⟨fault, same, raised⟩
    · exact absurd rfl (rest.raised (advanceTo_raises lsn) fileName)
    obtain rfl := Except.error.inj same
    rcases Program.ends_bind.mp (target.mp raised) with ⟨names, w₁, listed, read⟩ | ⟨_, wrong, failed⟩
    · obtain ⟨distinct, complete, rfl⟩ := perform_ok.mp listed
      obtain ⟨error, rfl⟩ := Program.ends_lift.mp read
      exact ⟨rfl, names, distinct, complete, error.symm⟩
    · obtain rfl := Except.error.inj wrong
      exact absurd rfl (failed.raised (perform_raises _ _) fileName)
  · rintro ⟨rfl, names, distinct, complete, error⟩
    refine Program.ends_bind.mpr (.inr ⟨_, rfl, target.mpr (Program.ends_bind.mpr (.inl ⟨names, w', ?_, ?_⟩))⟩)
    · exact perform_ok.mpr ⟨distinct, complete, rfl⟩
    · exact Program.ends_lift.mpr ⟨error.symm, rfl⟩

private theorem catchup_refused_iff :
    (∃ fileName w', Ends (catchup config 0) w (.error (invalidLogFile fileName)) w') ↔
    (config.runDir ≠ [] → w.get logPidFile = none) ∧ ∃ names : List Text, names.Nodup ∧
      (∀ name, name ∈ names ↔ (w.get ⟨.log, name⟩).isSome) ∧ ∃ fileName,
        getLsn names = .error (invalidLogFile fileName) := by
  have parts : catchup config 0 = pidFile config logPidName (catchupTarget 0 >>= advanceTo) := rfl
  rw [parts]
  by_cases none : config.runDir = []
  · unfold pidFile
    rw [if_pos (List.isEmpty_iff.mpr none)]
    constructor
    · rintro ⟨fileName, w', ends⟩
      obtain ⟨_, names, distinct, complete, error⟩ := body_refused_iff.mp ends
      exact ⟨fun some => absurd none some, names, distinct, complete, fileName, error⟩
    · rintro ⟨_, names, distinct, complete, fileName, error⟩
      exact ⟨fileName, w, body_refused_iff.mpr ⟨rfl, names, distinct, complete, error⟩⟩
  rw [pidFile_eq none]
  have own : (makePidFile config logPidName).Uses (Op.Local (· = logPidFile)) (fun _ => True) :=
    makePidFile_uses (fun _ writes => @Op.Writes.local (· = logPidFile) _ rfl _ writes)
  have elsewhere {w₁ : World} (made : Ends (makePidFile config logPidName) w (.ok ()) w₁) (name : Text) :
      w₁.get ⟨.log, name⟩ = w.get ⟨.log, name⟩ := (ends_untouched own made).get _ (by rintro ⟨⟩)
  constructor
  · rintro ⟨fileName, w', ends⟩
    rcases Program.ends_bind.mp ends with ⟨_, w₁, made, rest⟩ | ⟨fault, same, raised⟩
    swap
    · obtain rfl := Except.error.inj same
      exact absurd rfl (raised.raised (makePidFile_raises _) fileName)
    obtain ⟨first, w₂, ran, ⟨_, rfl⟩ | ⟨fault, wrong, _⟩⟩ := Program.ends_scope.mp rest
    · obtain ⟨_, names, distinct, complete, error⟩ := body_refused_iff.mp ran
      refine ⟨fun _ => makePidFile_free made, names, distinct, fun name => ?_, fileName, error⟩
      rw [complete, elsewhere made]
    · exact (wrong.raised (show (unlink (pidPath logPidName)).Raises (fun _ => False) from fun _ => trivial)).elim
  · rintro ⟨free, names, distinct, complete, fileName, error⟩
    obtain ⟨w₁, made⟩ := @makePidFile_does Step (fun _ _ _ _ done => done) config logPidName w (free none)
    have ran : Ends (catchupTarget 0 >>= advanceTo) w₁ (.error (invalidLogFile fileName)) w₁ :=
      body_refused_iff.mpr ⟨rfl, names, distinct, fun name => by rw [complete, elsewhere made], error⟩
    obtain ⟨w', cleaned, _⟩ := unlink_does logPidFile w₁
    exact ⟨fileName, w', Program.ends_bind.mpr
      (.inl ⟨(), w₁, made, Program.ends_scope.mpr ⟨_, w₁, ran, .inl ⟨cleaned, rfl⟩⟩⟩)⟩

/-- catchup does not come to a name without an LSN. -/
def Unblocked (config : Config) (w : World) : Prop :=
  ∀ fileName w', ¬ Ends (catchup config 0) w (.error (invalidLogFile fileName)) w'

/-- All log files have names the log writers give. -/
def WriterNames (w : World) : Prop := ∀ name, isLog name = true → (w.get ⟨.log, name⟩).isSome → WriterName name

/-- A listing that raises has a name of fake-log. -/
theorem WriterNames.listed (named : WriterNames w) {names : List Text}
    (complete : ∀ name, name ∈ names ↔ (w.get ⟨.log, name⟩).isSome) :
    (∃ fileName, getLsn names = .error (invalidLogFile fileName)) ↔ ∃ minute now,
      (w.get ⟨.log, fakeName minute now⟩).isSome := by
  rcases getLsn_cases names with ⟨lsn, success⟩ | ⟨name, member, log, fault, error, raised⟩
  · refine ⟨fun ⟨_, wrong⟩ => (nomatch success.symm.trans wrong), ?_⟩
    rintro ⟨minute, now, there⟩
    obtain ⟨own, _, found⟩ := (getLsn_spec success).2 _ ((complete _).mpr there) (isLog_fakeName minute now)
    exact nomatch found.symm.trans (lsnOfName_fakeName minute now)
  · have there := (complete name).mp member
    obtain ⟨rfl, minute, now, rfl⟩ := (named name log there).refused error
    exact ⟨fun _ => ⟨minute, now, there⟩, fun _ => ⟨_, raised⟩⟩

/-- With names of the log writers only, catchup is stopped by those of fake-log, unless
it already stops at the pid file. -/
theorem unblocked_iff (named : WriterNames w) :
    Unblocked config w ↔ (config.runDir ≠ [] ∧ (w.get logPidFile).isSome) ∨ ∀ minute now,
      w.get ⟨.log, fakeName minute now⟩ = none := by
  have refused := @catchup_refused_iff config w
  have listing := named.listed (w.mem_names .log)
  constructor
  · intro unblocked
    by_contra either
    obtain ⟨free, some⟩ := not_or.mp either
    obtain ⟨minute, fake⟩ := not_forall.mp some
    obtain ⟨now, there⟩ := not_forall.mp fake
    obtain ⟨fileName, w', ends⟩ :=
      refused.mpr ⟨fun given => Option.not_isSome_iff_eq_none.mp (fun taken => free ⟨given, taken⟩),
      w.names .log, List.nodup_dedup _, w.mem_names .log,
        listing.mpr ⟨minute, now, Option.isSome_iff_ne_none.mpr there⟩⟩
    exact unblocked fileName w' ends
  · intro either fileName w' ends
    obtain ⟨free, names, _, complete, error⟩ := refused.mp ⟨fileName, w', ends⟩
    rcases either with ⟨given, taken⟩ | absent
    · rw [free given] at taken
      cases taken
    · obtain ⟨minute, now, there⟩ := (named.listed complete).mp error
      rw [absent] at there
      cases there

end Catchup

/-- An operation by which no log file appears, unless under a name of the log writers. -/
def NamingOp (op : Op) : Prop :=
  op.Local (fun path => path.dir = .log → isLog path.name = false) ∨ (∃ lsn, op = .advance lsn) ∨
    ∃ oldName newName, op = .rename oldName newName ∧ (newName.dir = .log → isLog newName.name = true →
      WriterName newName.name)

instance : Looking NamingOp := ⟨fun _ looks => .inl (looks.local _)⟩

theorem writes_naming {path : Path} (outside : path.dir ≠ .log) {op : Op} (writes : op.Writes path) : NamingOp op :=
  .inl (writes.local (fun log => absurd log outside))

theorem unlink_naming {path : Path} (outside : path.dir ≠ .log) : NamingOp (.unlink path) :=
  .inl (fun log => absurd log outside)

theorem namingOp_writes : LogWrites NamingOp (fun name => isLog name = true → WriterName name) where
  write name _ _ writes := .inl (writes.local (fun _ => isLog_new name))
  rename _ good := .inr (.inr ⟨_, _, rfl, fun _ log => good log⟩)
  advance lsn := .inr (.inl ⟨lsn, rfl⟩)

theorem pidFile_naming {α : Type} {config : Config} {name : Text} {body : Prog α}
    (uses : body.Uses NamingOp (fun _ => True)) :
    (pidFile config name body).Uses NamingOp (fun _ => True) := by
  have outside : (pidPath name).dir ≠ .log := by rintro ⟨⟩
  exact pidFile_uses (fun _ => writes_naming outside) (unlink_naming outside) uses

private theorem catchup_naming (config : Config) (lsn : Nat) : (catchup config lsn).Uses NamingOp (fun _ => True) := by
  obtain ⟨body, same, uses⟩ := @catchup_uses config NamingOp _ _ namingOp_writes lsn
  rw [same]
  exact pidFile_naming uses

private theorem fakeLog_naming (config : Config) (options : FakeLogOptions) :
    (fakeLog config options).Uses NamingOp (fun _ => True) := by
  obtain ⟨body, same, uses⟩ := @fakeLog_uses config NamingOp _ _ namingOp_writes
    (fun wrong => absurd wrong (by decide))
    (fun minute now _ => .fake minute now) options
  rw [same]
  exact pidFile_naming uses

/-- Whatever log files it is given, it only renames them to other suffixes. -/
private theorem createDiff_naming (config : Config) (options : CreateDiffOptions) :
    (createDiff config options).Uses NamingOp (fun _ => True) := by
  refine (createDiff_requests config options).weaken (fun op request => ?_) (fun _ here => here)
  cases request with
  | look looks => exact Looking.looks _ looks
  | pid writes => exact writes_naming (by rintro ⟨⟩) writes
  | removePid => exact unlink_naming (by rintro ⟨⟩)
  | make makes =>
    refine .inl (makes.local.mono ?_)
    rintro path (rfl | rfl | rfl) <;> exact fun wrong => nomatch wrong
  | publish used _ =>
    cases used with
    | look looks => exact Looking.looks _ looks
    | lock writes => exact writes_naming (by decide) writes
    | unlock => exact unlink_naming (by decide)
    | change => exact .inr (.inr ⟨_, _, rfl, fun wrong => nomatch wrong⟩)
    | own => exact .inr (.inr ⟨_, _, rfl, fun wrong => nomatch wrong⟩)
    | copy => exact .inr (.inr ⟨_, _, rfl, fun wrong => nomatch wrong⟩)
    | log => exact .inr (.inr ⟨_, _, rfl, fun _ wrong => nomatch wrong.symm.trans (isLog_done _)⟩)

/-- Log files have names of the log writers, and LSNs have 64 bits. -/
structure OwnNames (w : World) : Prop where
  named : WriterNames w
  small : ∀ commit ∈ w.wal, commit.lsn < 2 ^ 64

theorem OwnNames.more {w w' : World} (own : OwnNames w) (wal : w'.wal = w.wal)
    (names : ∀ name, isLog name = true → (w'.get ⟨.log, name⟩).isSome → (w.get ⟨.log, name⟩).isSome ∨
      WriterName name) : OwnNames w' where
  named name log there := (names name log there).elim (own.named name log) id
  small := wal ▸ own.small

theorem OwnNames.untouched {w w' : World} (own : OwnNames w) {touched : Path → Prop} (same : Untouched touched w w')
    (outside : ∀ path, touched path → path.dir = .log → isLog path.name = false) : OwnNames w' := by
  refine own.more same.wal (fun name log there => .inl ?_)
  rwa [same.get _ (fun here => by rw [outside _ here rfl] at log; cases log)] at there

theorem OwnNames.rename {w : World} (own : OwnNames w) {oldName newName : Path} {content : Content}
    (good : newName.dir = .log → isLog newName.name = true → WriterName newName.name) :
    OwnNames (w.rename oldName newName content) := by
  refine own.more rfl (fun name log there => ?_)
  by_cases new : (⟨.log, name⟩ : Path) = newName
  · subst new
    exact .inr (good rfl log)
  by_cases old : (⟨.log, name⟩ : Path) = oldName
  · subst old
    rw [World.get_rename_old _ _ _ new] at there
    cases there
  · rw [World.get_rename_ne _ _ _ old new] at there
    exact .inl there

theorem NamingOp.kept {w w' : World} {op : Op} {reply : Reply op} (used : NamingOp op) (own : OwnNames w)
    (done : Step w op reply w') :
    OwnNames w' := by
  rcases used with inside | ⟨lsn, rfl⟩ | ⟨oldName, newName, rfl, good⟩
  · exact own.untouched (done.untouched inside) (fun _ here => here)
  · cases reply with
    | error code => exact done.2.1 ▸ own
    | ok value =>
      obtain ⟨_, _, rfl⟩ := done
      exact own.more rfl (fun _ _ there => .inl there)
  · cases reply with
    | error code => exact done.2.1 ▸ own
    | ok value =>
      obtain ⟨content, _, rfl⟩ := done
      exact own.rename good

/-- Nobody spoils the names. -/
def nameRules : Rules Unit where
  step := Step
  rely c c' := OwnNames c.1 → OwnNames c'.1
  move c c' := OwnNames c.1 → OwnNames c'.1

theorem ownNames_quiet : Quiet nameRules InRun (fun c => OwnNames c.1) := by
  have outside : ∀ path, InRun path → path.dir = .log → isLog path.name = false := by
    intro path run log
    rw [InRun, log] at run
    cases run
  exact ⟨fun _ _ change own => change own, fun _ _ _ own same => own.untouched same outside,
    fun _ _ _ _ same own => own.untouched same outside⟩

theorem naming_triple {program : Prog Unit} (uses : program.Uses NamingOp (fun _ => True)) :
    nameRules.Triple (fun c => OwnNames c.1) program (fun _ c => OwnNames c.1) (fun _ c => OwnNames c.1) :=
  (Discipline.Triple.uses (P := fun c => OwnNames c.1) uses ownNames_quiet.stable (fun c _ _ _ own used done =>
    ⟨c.2, fun own => used.kept own done, used.kept own done⟩)).weaken (fun _ own => own) (fun _ _ own => own.2)
      (fun _ _ own => own)

/-- What get-log knows of the names: the LSN of the last transaction makes a good one. -/
def nameStations : LogStations Unit where
  ready c := OwnNames c.1
  peeked sent c := (∀ last, sent.getLast? = some last → last.lsn < 2 ^ 64) ∧ OwnNames c.1
  writing sent name _ c := ((∀ last, sent.getLast? = some last → last.lsn < 2 ^ 64) ∧ WriterName name) ∧ OwnNames c.1
  filed sent c := (∀ last, sent.getLast? = some last → last.lsn < 2 ^ 64) ∧ OwnNames c.1
  ended c := OwnNames c.1
  failed c := OwnNames c.1

private theorem nameStations_sound (options : GetLogOptions) : nameStations.Sound nameRules options where
  step := rfl
  ready := ownNames_quiet
  peeked _ := ownNames_quiet.and_const
  writing _ _ _ := ownNames_quiet.and_const
  filed _ := ownNames_quiet.and_const
  ended := ownNames_quiet
  failed := ownNames_quiet
  readyFails _ here := here
  peekedFails _ _ here := here.2
  writingFails _ _ _ _ here := here.2
  filedFails _ _ here := here.2
  endedFails _ here := here
  small _ _ last here ends := here.1 last ends
  peek w _ sent own taken := by
    have kept : OwnNames { w with returned := Commit.objects sent } := own.more rfl (fun _ _ there => .inl there)
    refine ⟨(), fun _ => kept, fun last ends => own.small last ?_, kept⟩
    exact List.mem_of_mem_filter (taken.front.subset (List.mem_of_getLast? ends))
  nothing _ here := here.2
  create w _ sent last time ends _ here _ := by
    have kept : OwnNames (w.put (newLog (replicationLogName (lsnStr last.lsn) time)) (.text [])) :=
      here.2.untouched (untouched_put w _ _) (fun _ same _ => same ▸ isLog_new _)
    exact ⟨(), fun _ => kept, ⟨here.1, .log (here.1 last ends) time⟩, kept⟩
  write w _ sent name _ c stored here _ := by
    have kept : OwnNames (w.put (newLog name) (.text (stored ++ [c]))) :=
      here.2.untouched (untouched_put w _ _) (fun _ same _ => same ▸ isLog_new _)
    exact ⟨(), fun _ => kept, here.1, kept⟩
  file w _ sent name data content here _ _ := by
    have kept : OwnNames (w.rename (newLog name) ⟨.log, name⟩ content) := here.2.rename (fun _ _ => here.1.2)
    exact ⟨(), fun _ => kept, here.1.1, kept⟩
  skip _ _ _ _ here := here
  advance _ w _ sent last _ here := by
    have kept : OwnNames { w with slot := max w.slot last.lsn } := here.2.more rfl (fun _ _ there => .inl there)
    exact ⟨(), fun _ => kept, kept⟩
  finish _ _ _ here := here.2

/-- A run of one of the programs, with any options. -/
def LogDirRun (w : World) (program : Prog Unit) (w' : World) : Prop :=
  w' = w ∧ ((∃ runDir, LogTool runDir program) ∨ ∃ config options, program = createDiff config options)

private theorem logDirRun_safe {w w' : World} {program : Prog Unit} (launched : LogDirRun w program w')
    (own : OwnNames w) :
    OwnNames w' ∧ nameRules.Safe (fun _ c => OwnNames c.1) (fun _ c => OwnNames c.1) program (w', ()) := by
  obtain ⟨rfl, ⟨_, config, _, ⟨options, rfl⟩ | ⟨options, rfl⟩ | ⟨lsn, rfl⟩⟩ | ⟨config, options, rfl⟩⟩ := launched
  · exact ⟨own, getLog_triple (nameStations_sound options) config _ own⟩
  · exact ⟨own, naming_triple ((fakeLog_naming config options).bind (fun _ _ => Program.Uses.pure trivial)) _ own⟩
  · exact ⟨own, naming_triple (catchup_naming config lsn) _ own⟩
  · exact ⟨own, naming_triple (createDiff_naming config options) _ own⟩

theorem Around.ownNames {origin : Nat} {w w' : World} (around : Around origin w w') (own : OwnNames w) :
    OwnNames w' := by
  cases around with
  | commit commit tables above after small =>
    refine ⟨own.named, fun other member => ?_⟩
    rcases List.mem_append.mp member with old | new
    · exact own.small other old
    · obtain rfl := List.mem_singleton.mp new
      exact small
  | tidy same => exact ownNames_quiet.kept w w' () own same

/-- Whatever was run, and stopped anywhere: only names of the log writers are left behind. -/
theorem logDirRuns_ownNames {origin : Nat} {start current : World} (fresh : OwnNames start)
    (reached : Relation.ReflTransGen (Sequential Step (Around origin) LogDirRun) (start, none) (current, none)) :
    OwnNames current := by
  let own (c : World × Unit) : Prop := OwnNames c.1
  have begin : Sequential.Holds nameRules (fun _ => own) (fun _ => own)
    own own (start, (none : Option (Prog Unit))) := ⟨(), fresh⟩
  obtain ⟨_, held⟩ := Sequential.invariant (D := nameRules)
    (fun _ _ t own around => ⟨t, around.ownNames own⟩)
    (fun _ _ t own around => ⟨t, fun own => around.ownNames own, around.ownNames own⟩)
    (fun _ _ _ _ own launched => ⟨(), logDirRun_safe launched own⟩)
    (fun _ _ own moved => moved own)
    (fun _ t own => ⟨t, own⟩) begin reached
  exact held

/-- After any runs that began with no log files, catchup without `--lsn` is stopped by a
name in `log_dir` iff one of fake-log is there, and no pid file. -/
theorem catchup_unblocked (config : Config) {origin : Nat} {start current : World}
    (logless : ∀ name, isLog name = true → start.get ⟨.log, name⟩ = none)
    (small : ∀ commit ∈ start.wal, commit.lsn < 2 ^ 64)
    (reached : Relation.ReflTransGen (Sequential Step (Around origin) LogDirRun) (start, none) (current, none)) :
    Unblocked config current ↔ (config.runDir ≠ [] ∧ (current.get logPidFile).isSome) ∨
      ∀ minute now, current.get ⟨.log, fakeName minute now⟩ = none := by
  have none : WriterNames start := by
    intro name log there
    rw [logless name log] at there
    cases there
  have fresh : OwnNames start := ⟨none, small⟩
  exact unblocked_iff (logDirRuns_ownNames fresh reached).named

/-- A way that was changed in a minute, which nobody has logged. -/
def changedWay : World where
  tables := { ways := [⟨1, 1, 7, true, 1584541081, none⟩], keys := by constructor <;> simp [ObjectKeys, References] }

def sinceThen : FakeLogOptions := ⟨[], 1584541080⟩

/-- After fake-log was run. -/
@[irreducible] def fakeLogged : World := ((fakeLog {} sinceThen).run World.serve changedWay).2

theorem fakeLogged_reached {origin : Nat} :
    Relation.ReflTransGen (Sequential Step (Around origin) LogDirRun) (changedWay, none) (fakeLogged, none) := by
  have ends : Ends (fakeLog {} sinceThen) changedWay (.ok true) fakeLogged := by
    unfold fakeLogged
    exact ends_served (by decide +kernel)
  have run : Ends (fakeLog {} sinceThen >>= fun _ => pure ()) changedWay (.ok ()) fakeLogged :=
    Program.ends_bind_ok.mpr ⟨true, _, ends, rfl, rfl⟩
  exact run.visits.stopped ⟨rfl, .inl ⟨_, {}, rfl, .inr (.inl ⟨sinceThen, rfl⟩)⟩⟩

private theorem fakeLogged_file : (fakeLogged.get ⟨.log, fakeName 1584541080 1584541129⟩).isSome ∧
    fakeLogged.get logPidFile = none := by
  unfold fakeLogged
  decide +kernel

theorem changedWay_own : OwnNames changedWay := ⟨fun _ _ there => (nomatch there), fun _ wrong => nomatch wrong⟩

theorem fakeLogged_free : ¬ ((({} : Config).runDir ≠ [] ∧ (fakeLogged.get logPidFile).isSome) ∨
    ∀ minute now, fakeLogged.get ⟨.log, fakeName minute now⟩ = none) := by
  obtain ⟨there, free⟩ := fakeLogged_file
  rintro (⟨_, taken⟩ | absent)
  · rw [free] at taken
    cases taken
  · rw [absent] at there
    cases there

theorem catchup_unblocked_fake : ¬ Unblocked {} fakeLogged := by
  have blocked := catchup_unblocked {} (fun _ _ => rfl) changedWay_own.small (@fakeLogged_reached 0)
  exact fun unblocked => fakeLogged_free (blocked.mp unblocked)

/-- The log file of fake-log is left in `log_dir`: the next run of catchup stops at it. -/
theorem catchup_blocked : ¬ ∀ (start current : World), (∀ name, isLog name = true → start.get ⟨.log, name⟩ = none) →
    Relation.ReflTransGen (Sequential Step (Around 0) LogDirRun) (start, none) (current, none) →
      Unblocked {} current := by
  intro always
  have own := logDirRuns_ownNames changedWay_own (@fakeLogged_reached 0)
  exact fakeLogged_free ((unblocked_iff own.named).mp (always changedWay fakeLogged (fun _ _ => rfl)
    fakeLogged_reached))

end Osmdbt
