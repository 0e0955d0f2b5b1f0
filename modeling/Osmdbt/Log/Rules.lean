import Osmdbt.System.Frame
import Osmdbt.System.LogFiles
import Osmdbt.Log.GetLog

/-! What a proof about get-log and catchup has to say: one assertion for every
stretch of the program, and one condition for every operation that matters. -/

namespace Osmdbt

open General

def InRun (path : Path) : Prop := path.dir = .run

section GetLog

variable {τ : Type}

/-- The assertions for get-log. `sent` are the transactions that were peeked. -/
structure LogStations (τ : Type) where
  ready : World × τ → Prop
  peeked : List Commit → World × τ → Prop
  /-- the name of the log and what has been written so far -/
  writing : List Commit → Text → Text → World × τ → Prop
  filed : List Commit → World × τ → Prop
  ended : World × τ → Prop
  failed : World × τ → Prop

/-- What connects the assertions. -/
structure LogStations.Sound (stations : LogStations τ) (D : Rules τ) (options : GetLogOptions) : Prop where
  step : D.step = Step
  ready : Quiet D InRun stations.ready
  peeked : ∀ sent, Quiet D InRun (stations.peeked sent)
  writing : ∀ sent name written, Quiet D InRun (stations.writing sent name written)
  filed : ∀ sent, Quiet D InRun (stations.filed sent)
  ended : Quiet D InRun stations.ended
  failed : Quiet D InRun stations.failed
  readyFails : ∀ c, stations.ready c → stations.failed c
  peekedFails : ∀ sent c, stations.peeked sent c → stations.failed c
  writingFails : ∀ sent name written c, stations.writing sent name written c → stations.failed c
  filedFails : ∀ sent c, stations.filed sent c → stations.failed c
  endedFails : ∀ c, stations.ended c → stations.failed c
  small : ∀ sent c last, stations.filed sent c → sent.getLast? = some last → last.lsn < 2 ^ 64
  peek : ∀ w t sent, stations.ready (w, t) → Taken (peekLimit options) w.pending sent →
    ∃ t', D.move (w, t) ({ w with returned := Commit.objects sent }, t') ∧
      stations.peeked sent ({ w with returned := Commit.objects sent }, t')
  nothing : ∀ c, stations.peeked [] c → stations.ended c
  create : ∀ w t sent last time, sent.getLast? = some last → Commit.objects sent ≠ [] → stations.peeked sent (w, t) →
    w.get (newLog (replicationLogName (lsnStr last.lsn) time)) = none →
    ∃ t', D.move (w, t) (w.put (newLog (replicationLogName (lsnStr last.lsn) time)) (.text []), t') ∧
      stations.writing sent (replicationLogName (lsnStr last.lsn) time) []
        (w.put (newLog (replicationLogName (lsnStr last.lsn) time)) (.text []), t')
  write : ∀ w t sent name written c stored, stations.writing sent name written (w, t) →
    w.get (newLog name) = some (.text stored) →
    ∃ t', D.move (w, t) (w.put (newLog name) (.text (stored ++ [c])), t') ∧
      stations.writing sent name (written ++ [c]) (w.put (newLog name) (.text (stored ++ [c])), t')
  file : ∀ w t sent name data content, stations.writing sent name data (w, t) →
    logEntries data = .ok (Commit.objects sent) → w.get (newLog name) = some content →
    ∃ t', D.move (w, t) (w.rename (newLog name) ⟨.log, name⟩ content, t') ∧
      stations.filed sent (w.rename (newLog name) ⟨.log, name⟩ content, t')
  skip : ∀ sent c, sent ≠ [] → Commit.objects sent = [] → stations.peeked sent c → stations.filed sent c
  advance : options.catchup = true → ∀ w t sent last, sent.getLast? = some last → stations.filed sent (w, t) →
    ∃ t', D.move (w, t) ({ w with slot := max w.slot last.lsn }, t') ∧
      stations.ended ({ w with slot := max w.slot last.lsn }, t')
  finish : options.catchup = false → ∀ sent c, stations.filed sent c → stations.ended c

variable {stations : LogStations τ} {D : Rules τ} {options : GetLogOptions}

theorem catchupToLsn_triple {P Q failed : World × τ → Prop} {lsn : Nat} (small : lsn < 2 ^ 64) (step : D.step = Step)
    (before : Quiet D InRun P) (after : D.Stable Q) (faulty : D.Stable failed) (fails : ∀ c, P c → failed c)
    (advance : ∀ w t, P (w, t) → ∃ t', D.move (w, t) ({ w with slot := max w.slot lsn }, t') ∧
      Q ({ w with slot := max w.slot lsn }, t')) :
    D.Triple P (catchupToLsn (lsnStr lsn)) (fun _ => Q) (fun _ => failed) := by
  unfold catchupToLsn
  refine (before.value step fails (perform_uses (show Op.serverVersion.Local _ from trivial))).bind
    (fun (version : Nat) => ?_)
  refine Discipline.Triple.ite (p := version ≥ 110000) (fun _ => ?_) (fun _ => Discipline.Triple.raise faulty fails)
  · apply perform_triple step before.stable (fun _ => after) faulty
    · rintro w t _ w' here ⟨value, parsed, rfl⟩
      obtain rfl : lsn = value := by
        rw [lsnStr, parseLsn_lsnText (.inr rfl) small] at parsed
        exact Except.ok.inj parsed
      exact advance w t here
    · exact fun w t here => ⟨before.allowed w w t here (Untouched.refl _), fails _ here⟩

theorem commit_uses {touched : Path → Prop} : commitTransaction.Uses (Op.Local touched) (fun _ => True) :=
  perform_uses trivial

variable (sound : stations.Sound D options)
include sound

private theorem writeDataToFile_triple (config : Config) {sent : List Commit} {last : Commit} {data : Text}
    (ends : sent.getLast? = some last) (nonempty : Commit.objects sent ≠ []) (time : Timestamp)
    (entries : logEntries data = .ok (Commit.objects sent)) :
    D.Triple (stations.peeked sent) (writeDataToFile config data (replicationLogName (lsnStr last.lsn) time))
      (fun _ => stations.filed sent) (fun _ => stations.failed) := by
  have step := sound.step
  have peeked := sound.peeked sent
  have filed := sound.filed sent
  have writing := sound.writing sent (replicationLogName (lsnStr last.lsn) time)
  have fails := sound.writingFails sent (replicationLogName (lsnStr last.lsn) time)
  unfold writeDataToFile
  refine exclusive_triple step peeked.stable (writing []).stable sound.failed.stable
    (fun w t here free => sound.create w t sent last time ends nonempty here free)
    (fun w t here => ⟨peeked.allowed _ _ t here (Untouched.refl _), sound.peekedFails sent _ here⟩)
      (fun _ => rfl) (fun _ => ?_)
  refine (synced_triple step data writing sound.failed.stable fails
    (fun written c w t stored here found => sound.write w t sent _ written c stored here found)).bind (fun _ => ?_)
  refine Discipline.Triple.via (fun _ => stations.filed sent) ?_ (fun _ =>
    filed.part step (sound.filedFails sent) (syncDir_uses config _))
  apply perform_triple step (writing data).stable (fun _ => filed.stable) sound.failed.stable
  · rintro w t _ w' here ⟨content, found, rfl⟩
    exact sound.file w t sent _ data content here entries found
  · exact fun w t here => ⟨(writing data).allowed w w t here (Untouched.refl _), fails data _ here⟩

private theorem writeLog_triple (config : Config) {sent : List Commit} {last : Commit} {log : LogState}
    (ends : sent.getLast? = some last) (entries : logEntries log.data = .ok (Commit.objects sent))
    (lsn : log.lsn = lsnStr last.lsn) (actual : log.hasActualData = !(Commit.objects sent).isEmpty) :
    D.Triple (stations.peeked sent) (writeLog config log) (fun _ => stations.filed sent)
        (fun _ => stations.failed) := by
  unfold writeLog
  split
  · rename_i data
    have nonempty : Commit.objects sent ≠ [] := by
      rintro none
      simp [actual, none] at data
    refine ((sound.peeked sent).value sound.step (sound.peekedFails sent)
      (perform_uses (show Op.time.Local _ from trivial))).bind (fun (now : Timestamp) => ?_)
    rw [lsn]
    exact writeDataToFile_triple sound config ends nonempty now entries
  · rename_i data
    have empty : Commit.objects sent = [] := by simpa [actual] using data
    have some : sent ≠ [] := by
      rintro rfl
      cases ends
    exact Discipline.Triple.pure (sound.filed sent).stable (fun c here => sound.skip sent c some empty here)

private theorem catchUpLog_triple {sent : List Commit} {last : Commit} {log : LogState}
    (ends : sent.getLast? = some last) (lsn : log.lsn = lsnStr last.lsn) :
    D.Triple (stations.filed sent) (catchUpLog options log) (fun _ => stations.ended) (fun _ => stations.failed) := by
  unfold catchUpLog
  split
  · rename_i catchup
    intro c here
    have small : last.lsn < 2 ^ 64 := sound.small sent c last here ends
    have canonical : canonicalLsn log.lsn = .ok (lsnStr last.lsn) := by
      rw [canonicalLsn, lsn, lsnStr, parseLsn_lsnText (.inr rfl) small]
      rfl
    refine Discipline.Triple.bind (P := stations.filed sent)
      (Discipline.Triple.lift (sound.filed sent).stable (fun _ _ c here => sound.filedFails sent c here))
      (fun text => Discipline.Triple.given (fun same => ?_)) c here
    obtain rfl : lsnStr last.lsn = text := Except.ok.inj (canonical.symm.trans same)
    refine (catchupToLsn_triple small sound.step (sound.filed sent) sound.ended.stable sound.failed.stable
      (sound.filedFails sent) (fun w t here => sound.advance catchup w t sent last ends here)).bind (fun _ => ?_)
    exact sound.ended.part sound.step sound.endedFails commit_uses
  · rename_i catchup
    exact Discipline.Triple.pure sound.ended.stable (fun c here => sound.finish (by simpa using catchup) sent c here)

/-- get-log from its start to its end. -/
theorem getLog_triple (config : Config) :
    D.Triple stations.ready (getLog config options) (fun _ => stations.ended) (fun _ => stations.failed) := by
  have step := sound.step
  unfold getLog
  refine pidFile_triple step config _ sound.ready (fun _ => sound.ended) sound.failed sound.readyFails ?_
  refine (sound.ready.part step sound.readyFails (perform_uses (show Op.connect.Local _ from trivial))).bind
    (fun _ => ?_)
  refine (sound.ready.value step sound.readyFails getDbVersion_uses).bind (fun _ => ?_)
  have peeked (rows : (Op.peek (peekLimit options)).Value) :
      D.Stable (fun c => ∃ sent, Sent sent rows ∧ stations.peeked sent c) :=
    Discipline.Stable.exists (fun sent => Discipline.Stable.const.and (sound.peeked sent).stable)
  refine Discipline.Triple.via (fun (rows : List PeekRow) c => ∃ sent, Sent sent rows ∧ stations.peeked sent c) ?_
    (fun (rows : List PeekRow) => ?_)
  · apply perform_triple step sound.ready.stable peeked sound.failed.stable
    · rintro w t rows w' here ⟨sent, taken, carried, rfl⟩
      obtain ⟨t', moved, later⟩ := sound.peek w t sent here taken
      exact ⟨t', moved, sent, carried, later⟩
    · exact fun w t here => ⟨sound.ready.allowed w w t here (Untouched.refl _), sound.readyFails _ here⟩
  refine Discipline.Triple.exists (fun sent => Discipline.Triple.given (fun carried => ?_))
  by_cases none : rows = []
  · subst none
    obtain rfl : sent = [] := (sent_nil_iff carried).mp rfl
    exact (sound.ended.part step sound.endedFails commit_uses).before sound.nothing
  · have some : sent ≠ [] := fun empty => none ((sent_nil_iff carried).mpr empty)
    obtain ⟨log, decoded, entries, lsn, actual⟩ := decodeRows_sent carried
    have ends := List.getLast?_eq_some_getLast some
    rw [ends, Option.map_some, Option.getD_some] at lsn
    rw [if_neg (by simpa using none), decoded]
    change D.Triple (stations.peeked sent) (writeLog config log >>= fun _ => catchUpLog options log) _ _
    exact (writeLog_triple sound config ends entries lsn actual).bind (fun _ => catchUpLog_triple sound ends lsn)

end GetLog

section Catchup

variable {τ : Type} {D : Rules τ}

/-- catchup without `--lsn`: it learns the largest LSN in the names of the log
files, which is zero when there are none, and moves the slot there. -/
theorem catchup_triple (config : Config) {ready : World × τ → Prop} (found : Nat → World × τ → Prop)
    {ended failed : World × τ → Prop} (step : D.step = Step) (isReady : Quiet D InRun ready)
    (isFound : ∀ lsn, Quiet D InRun (found lsn)) (isEnded : Quiet D InRun ended) (isFailed : Quiet D InRun failed)
    (readyFails : ∀ c, ready c → failed c) (foundFails : ∀ lsn c, found lsn c → failed c)
    (endedFails : ∀ c, ended c → failed c)
    (list : ∀ w t lsn, ready (w, t) → (lsn = 0 ∨ ∃ name, isLog name = true ∧ (w.get ⟨.log, name⟩).isSome ∧
        lsnOfName name = .ok lsn) →
      (∀ name, isLog name = true → (w.get ⟨.log, name⟩).isSome → ∃ own ≤ lsn, lsnOfName name = .ok own) →
      found lsn (w, t))
    (small : ∀ lsn c, found lsn c → lsn < 2 ^ 64)
    (nothing : ∀ c, found 0 c → ended c)
    (advance : ∀ w t lsn, lsn ≠ 0 → found lsn (w, t) → ∃ t', D.move (w, t) ({ w with slot := max w.slot lsn }, t') ∧
      ended ({ w with slot := max w.slot lsn }, t')) :
    D.Triple ready (catchup config 0) (fun _ => ended) (fun _ => failed) := by
  unfold catchup
  refine pidFile_triple step config _ isReady (fun _ => isEnded) isFailed readyFails ?_
  refine Discipline.Triple.via (fun (lsn : Nat) => found lsn) ?_ (fun (lsn : Nat) => ?_)
  · unfold catchupTarget
    rw [if_neg (by simp)]
    -- the listing is only good for the LSN that is taken from it
    refine Discipline.Triple.via (fun (names : List Text) c => ready c ∧ ∀ lsn, getLsn names = .ok lsn →
      found lsn c) ?_
      (fun (names : List Text) => ?_)
    · have known (names : (Op.list .log).Value) :
          D.Stable (fun c => ready c ∧ ∀ lsn, getLsn names = .ok lsn → found lsn c) := by
        refine isReady.stable.and ?_
        intro c c' change here lsn same
        exact (isFound lsn).stable c c' change (here lsn same)
      apply perform_triple step isReady.stable known isFailed.stable
      · rintro w t names w' here ⟨_, complete, rfl⟩
        refine ⟨t, isReady.allowed _ _ t here (Untouched.refl _), here, fun lsn same => ?_⟩
        obtain ⟨source, bound⟩ := getLsn_spec same
        refine list w' t lsn here (source.imp_right ?_) (fun name log there => ?_)
        · rintro ⟨name, member, log, own⟩
          exact ⟨name, log, (complete name).mp member, own⟩
        · exact bound name ((complete name).mpr there) log
      · exact fun w t here => ⟨isReady.allowed w w t here (Untouched.refl _), readyFails _ here⟩
    · intro c here
      cases same : getLsn names with
      | error fault => exact fun c' later => isFailed.stable.later later (readyFails _ here.1)
      | ok lsn => exact fun c' later => (isFound lsn).stable.later later (here.2 lsn same)
  · split
    · rename_i zero
      subst zero
      exact Discipline.Triple.pure isEnded.stable nothing
    · rename_i other
      refine ((isFound lsn).part step (foundFails lsn) (perform_uses (show Op.connect.Local _ from trivial))).bind
        (fun _ => ?_)
      refine ((isFound lsn).value step (foundFails lsn) getDbVersion_uses).bind (fun _ => ?_)
      intro c here
      refine Discipline.Triple.bind (catchupToLsn_triple (small lsn c here) step (isFound lsn) isEnded.stable
        isFailed.stable (foundFails lsn) (fun w t here => advance w t lsn other here)) (fun _ => ?_) c here
      exact isEnded.part step endedFails commit_uses

end Catchup

end Osmdbt
