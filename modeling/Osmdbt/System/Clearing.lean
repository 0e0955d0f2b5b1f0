import Osmdbt.System.Delivery
import Osmdbt.System.Windows

/-! A run of the script that ends well leaves nothing behind, whatever earlier runs had
left: everything that was committed has been published then. -/

namespace Osmdbt

open General

section Logging

variable {config : Config} {w w' : World}

/-- The slot is behind all log files. -/
structure CaughtUpTo (w w' : World) : Prop where
  wal : w'.wal = w.wal
  slot : w.slot ≤ w'.slot
  logs : ∀ name, w'.get ⟨.log, name⟩ = w.get ⟨.log, name⟩
  behind : ∀ name own, isLog name = true → (w.get ⟨.log, name⟩).isSome → lsnOfName name = .ok own → own ≤ w'.slot

theorem CaughtUpTo.same {touched touched' : Path → Prop} {w₁ w₂ : World} (before : Untouched touched w w₁)
    (caught : CaughtUpTo w₁ w₂) (after : Untouched touched' w₂ w') (outside : ∀ path, touched path → path.dir ≠ .log)
    (outside' : ∀ path, touched' path → path.dir ≠ .log) : CaughtUpTo w w' where
  wal := after.wal.trans (caught.wal.trans before.wal)
  slot := by
    rw [after.slot, ← before.slot]
    exact caught.slot
  logs name := (after.logs outside' name).trans ((caught.logs name).trans (before.logs outside name))
  behind name own log there named := by
    rw [after.slot]
    exact caught.behind name own log (before.logs outside name ▸ there) named

private theorem advanceTo_ok {lsn : Nat} (small : lsn < 2 ^ 64) (ends : Ends (advanceTo lsn) w (.ok ()) w') :
    Untouched (fun _ => False) { w with slot := max w.slot lsn } w' := by
  unfold advanceTo at ends
  rcases Program.ends_ite.mp ends with ⟨rfl, _, rfl⟩ | ⟨_, advancing⟩
  · rw [Nat.max_zero]
    exact Untouched.refl _
  · obtain ⟨_, w₁, connected, asking⟩ := Program.ends_bind_ok.mp advancing
    obtain rfl : w₁ = w := perform_ok.mp connected
    obtain ⟨_, w₂, asked, moving⟩ := Program.ends_bind_ok.mp asking
    obtain ⟨_, w₃, moved, committed⟩ := Program.ends_bind_ok.mp moving
    obtain rfl : w' = w₃ := perform_ok.mp committed
    obtain ⟨value, parsed, rfl⟩ := catchupToLsn_ok moved
    obtain rfl : lsn = value := by
      rw [lsnStr, parseLsn_lsnText (.inr rfl) small] at parsed
      exact Except.ok.inj parsed
    have version : Same w₁ w₂ := ends_untouched getDbVersion_uses asked
    exact ⟨version.wal, congrArg (max · lsn) version.slot, version.tables, version.returned,
      version.renames, version.get⟩

theorem catchup_ok (small : ∀ name own, isLog name = true → (w.get ⟨.log, name⟩).isSome →
    lsnOfName name = .ok own → own < 2 ^ 64)
    (ends : Ends (catchup config 0) w (.ok ()) w') : CaughtUpTo w w' := by
  have parts : catchup config 0 = pidFile config logPidName (catchupTarget 0 >>= advanceTo) := rfl
  rw [parts] at ends
  rcases (partwise_ends (.ok ())).pidFile ends with ⟨w₁, w₂, _, before, body, after⟩ | ⟨⟨_, wrong⟩, _⟩
  swap
  · cases wrong
  have away (path : Path) (pid : PidFileOf config logPidName path) : path.dir ≠ .log := by
    rw [pidFileOf_run path pid]
    decide
  refine CaughtUpTo.same before ?_ after away away
  obtain ⟨(lsn : Nat), w₃, found, advanced⟩ := Program.ends_bind_ok.mp body
  have listing : Ends (do
      let files : List Text ← perform (.list .log) "directory iterator cannot open directory".toList
      Program.lift (getLsn files)) w₁ (.ok lsn) w₃ := found
  obtain ⟨(names : List Text), w₄, listed, read⟩ := Program.ends_bind_ok.mp listing
  obtain ⟨_, complete, rfl⟩ := perform_ok.mp listed
  obtain ⟨newest, rfl⟩ := Program.ends_lift.mp read
  obtain ⟨source, bound⟩ := getLsn_spec newest.symm
  have below : lsn < 2 ^ 64 := by
    rcases source with rfl | ⟨name, member, log, named⟩
    · exact Nat.two_pow_pos 64
    · exact small name lsn log (before.logs away name ▸ (complete name).mp member) named
  have moved := advanceTo_ok below advanced
  refine ⟨moved.wal, moved.slot ▸ le_max_left _ _, fun name => moved.get _ not_false,
    fun name own log there named => ?_⟩
  obtain ⟨own', less, named'⟩ := bound name ((complete name).mpr there) log
  obtain rfl := Except.ok.inj (named.symm.trans named')
  rw [moved.slot]
  exact less.trans (le_max_right _ _)

/-- The inserts behind the slot are in a log file, up to its LSN. -/
structure LoggedAll (w w' : World) : Prop where
  wal : w'.wal = w.wal
  slot : w'.slot = w.slot
  written : Commit.objects w.pending = [] ∨ ∃ last name, w.pending.getLast? = some last ∧ isLog name = true ∧
    (w'.get ⟨.log, name⟩).isSome ∧ lsnOfName name = .ok last.lsn

private theorem getLog_ok (streams : w.Streams) (ends : Ends (getLog config {}) w (.ok ()) w') : LoggedAll w w' := by
  rcases (partwise_ends (.ok ())).pidFile ends with ⟨w₁, w₂, _, before, body, after⟩ | ⟨⟨_, wrong⟩, _⟩
  swap
  · cases wrong
  obtain ⟨_, w₃, connected, asking⟩ := Program.ends_bind_ok.mp body
  obtain rfl : w₃ = w₁ := perform_ok.mp connected
  obtain ⟨_, w₄, asked, peeking⟩ := Program.ends_bind_ok.mp asking
  have version : Same w₃ w₄ := ends_untouched getDbVersion_uses asked
  have wal : w₄.wal = w.wal := version.wal.trans before.wal
  have slot : w₄.slot = w.slot := version.slot.trans before.slot
  obtain ⟨(rows : List PeekRow), w₅, peeked, rest⟩ := Program.ends_bind_ok.mp peeking
  obtain ⟨sent, taken, carried, rfl⟩ := perform_ok.mp peeked
  obtain rfl : sent = w.pending := (show sent = w₄.pending from taken).trans (pending_same wal slot)
  rcases Program.ends_ite.mp rest with ⟨empty, committed⟩ | ⟨nonempty, logging⟩
  · obtain rfl : w₂ = _ := perform_ok.mp committed
    have none : w.pending = [] := (sent_nil_iff carried).mp (List.isEmpty_iff.mp empty)
    exact ⟨after.wal.trans wal, after.slot.trans slot, .inl (by rw [none]; rfl)⟩
  · obtain ⟨log, w₆, decoded, writing⟩ := Program.ends_bind_ok.mp logging
    obtain ⟨same, rfl⟩ := Program.ends_lift.mp decoded
    obtain ⟨log', decoded', entries, lsn, actual⟩ := decodeRows_sent carried
    obtain rfl : log = log' := Except.ok.inj (same.trans decoded')
    obtain ⟨_, w₇, written, waited⟩ := Program.ends_bind_ok.mp writing
    obtain ⟨_, rfl⟩ : () = () ∧ w₂ = w₇ := ⟨rfl, waited.2⟩
    have filled : w.pending ≠ [] := fun none => nonempty (List.isEmpty_iff.mpr ((sent_nil_iff carried).mpr none))
    obtain ⟨last, ending⟩ : ∃ last, w.pending.getLast? = some last := ⟨_, List.getLast?_eq_some_getLast filled⟩
    have committed := (List.mem_filter.mp (List.mem_of_getLast? ending)).1
    unfold writeLog at written
    rcases Program.ends_ite.mp written with ⟨data, writing⟩ | ⟨nothing, _, rfl⟩
    · obtain ⟨(now : Timestamp), w₈, clock, stored⟩ := Program.ends_bind_ok.mp writing
      obtain rfl : w₈ = _ := perform_ok.mp clock
      obtain ⟨file, _, _, wal', slot', _⟩ := writeDataToFile_ok stored
      have position : log.lsn = lsnStr last.lsn := by
        rw [lsn, ending]
        rfl
      refine ⟨after.wal.trans (wal'.trans wal), after.slot.trans (slot'.trans slot), .inr ⟨last, _, ending,
        isLog_replicationLogName log.lsn now, ?_, ?_⟩⟩
      · rw [after.logs (fun path pid => by rw [pidFileOf_run path pid]; decide), file]
        rfl
      · rw [position]
        exact lsnOfName_replicationLogName (streams.small last committed) now
    · refine ⟨after.wal.trans wal, after.slot.trans slot, .inl ?_⟩
      rw [actual] at nothing
      simpa using nothing

end Logging

section Publishing

variable {config : Config} {ledger : Ledger} {w w' : World}

/-- One run takes all log files. -/
theorem Ledger.Files.taken (files : ledger.Files w) (fits : Fits w) {block : List (Text × Text)} {rest : List Text}
    (taking : Taking {} w block rest) : rest = [] := by
  by_contra left
  have order := taking.logs rfl
  have logs {name : Text} (member : name ∈ block.map Prod.fst) : isLog name = true :=
    ((w.mem_logs name).mp (order ▸ List.mem_append_left _ member)).1
  have entered : ∀ source ∈ block, ledger.Entered source := by
    intro source member
    obtain ⟨data, text, entered⟩ := files.file source.1 _ (logs (List.mem_map_of_mem member))
      (taking.present source member)
    obtain rfl : source.2 = data := Content.text.inj text
    exact entered
  have distinct := (List.nodup_append.mp (order ▸ w.nodup_logs)).1
  obtain ⟨entries, read, more⟩ := taking.cut.whole
  exact files.no_limit fits distinct entered ⟨entries, read, more left⟩

private theorem createDiff_server (ends : Ends (createDiff config {}) w (.ok ()) w') :
    w'.wal = w.wal ∧ w'.slot = w.slot := by
  refine ends.visits.kept (createDiff_uses config rfl) (P := fun w₁ => w₁.wal = w.wal ∧ w₁.slot = w.slot) ?_ ⟨rfl, rfl⟩
  rintro w₁ op reply w₂ ⟨wal, slot⟩ (files | moves) done
  · have same := Step.untouched done files
    exact ⟨same.wal.trans wal, same.slot.trans slot⟩
  · obtain ⟨oldName, newName, rfl⟩ : ∃ oldName newName, op = .rename oldName newName := by
      rcases moves with ⟨oldName, newName, rfl, _⟩ | ⟨name, rfl, _⟩
      · exact ⟨_, _, rfl⟩
      · exact ⟨_, _, rfl⟩
    cases reply with
    | error code =>
      obtain ⟨_, rfl, _⟩ := done
      exact ⟨wal, slot⟩
    | ok value =>
      obtain ⟨content, _, rfl⟩ := done
      exact ⟨wal, slot⟩

/-- Nothing waits any more. -/
private theorem createDiff_clears (files : ledger.Files w) (fits : Fits w)
    (ends : Ends (createDiff config {}) w (.ok ()) w') :
    w'.waitingEntries = [] := by
  rcases createDiff_parts (partwise_ends (.ok ())) ends with
    ⟨_, ⟨_, wrong⟩ | dryRun | ⟨idle, same⟩⟩ | ⟨block, rest, entries, state, w₁, w₂, w₃, locking, published, after⟩
  · cases wrong
  · cases dryRun
  · have logs : SameLogs w w' := fun name _ => same.logs (fun path pid => by rw [pidFileOf_run path pid]; decide) name
    rw [logs.waitingEntries]
    cases idle with
    | noFiles found =>
      have none : w.logs = [] := List.eq_nil_iff_forall_not_mem.mpr (fun name member =>
        List.not_mem_nil ((found.logs rfl name).mpr ((w.mem_logs name).mp member)))
      rw [World.waitingEntries, none]
      rfl
    | noEntries taking read =>
      obtain rfl := files.taken fits taking
      rw [World.waitingEntries, taking.logs rfl, List.append_nil, flatMap_entriesOf taking.present read]
  · obtain ⟨left, _⟩ := locking.left rfl published after
    obtain rfl := files.taken fits locking.taking
    rw [World.waitingEntries, left]
    rfl

/-- The log files without entries are all there are. -/
theorem World.waitingLogs_cleared (cleared : w.waitingEntries = []) {waiting : List Osmobj}
    (read : readEntries (w.waitingLogs.map Prod.snd) = .ok waiting) : waiting = [] := by
  have present : Present w w.waitingLogs := fun log member => (World.mem_waitingLogs.mp member).2.1
  rw [← flatMap_entriesOf present read, List.flatMap_eq_nil_iff]
  intro name member
  obtain ⟨log, inside, rfl⟩ := List.mem_map.mp member
  obtain ⟨isLog, stored, _⟩ := World.mem_waitingLogs.mp inside
  exact List.flatMap_eq_nil_iff.mp cleared log.1 ((w.mem_logs log.1).mpr ⟨isLog, by rw [stored]; rfl⟩)

end Publishing

/-- What was behind the slot when get-log started has been logged, or inserts nothing. -/
theorem LoggedAll.caught {w w₁ w' : World} (logged : LoggedAll w w₁) (streams : w.Streams)
    (caught : CaughtUpTo w₁ w') {commit : Commit}
    (member : commit ∈ w.wal) (later : w'.slot < commit.lsn) : commit.inserts = [] := by
  have waits : commit ∈ w.pending :=
    List.mem_filter.mpr ⟨member, decide_eq_true ((logged.slot ▸ caught.slot).trans_lt later)⟩
  rcases logged.written with nothing | ⟨last, name, ending, log, there, named⟩
  · exact List.flatMap_eq_nil_iff.mp nothing commit waits
  · have below := lsn_le_last (streams.order.filter _) ending commit waits
    have behind := caught.behind name last.lsn log there named
    exact absurd later (not_lt.mpr (below.trans behind))

/-- After any number of runs of the script, stopped anywhere while transactions commit, one that
ends well while nobody commits: everything since the slot was created has been published, and no entry waits. -/
theorem cycle_clears (config : Config) {start w w' : World} (fresh : NothingWritten start)
    (reached : Relation.ReflTransGen (Sequential Step Commits (Cycle config)) (start, none) (w, none))
    (fits : (Commit.objects w.wal).length ≤ 4294967295) (ends : Ends (script config) w (.ok ()) w') :
    w'.waitingEntries = [] ∧ ∃ published, readEntries (w'.publishedLogs.map Prod.snd) = .ok published ∧
      (Commit.objects (w.wal.filter (fun commit => start.slot < commit.lsn))).Perm published := by
  have known {w₁ : World} (visits : (script config).Visits Step w w₁) :
      ∃ plan ledger, Balanced Anyhow ledger plan w₁ ∧ ledger.Complete start.slot w₁ :=
    (complete_upheld start.slot).reached fresh NothingWritten.complete
      (reached.trans (Program.Visits.stopped ⟨rfl, Untouched.refl _⟩ visits))
  have small {w₁ : World} {ledger : Ledger} (files : ledger.Files w₁) (name : Text) (own : Nat)
    (log : isLog name = true)
    (there : (w₁.get ⟨.log, name⟩).isSome) (named : lsnOfName name = .ok own) : own < 2 ^ 64 := by
    obtain ⟨content, stored⟩ := Option.isSome_iff_exists.mp there
    obtain ⟨_, _, entered⟩ := files.file name content log stored
    obtain ⟨_, last, member, named', _⟩ := files.named name entered.used
    obtain rfl : last.lsn = own := Except.ok.inj (named'.symm.trans named)
    exact files.streams.small last ((files.committed name).subset member)
  obtain ⟨_, w₁, first, logging⟩ := Program.ends_bind_ok.mp ends
  obtain ⟨_, w₂, second, catching⟩ := Program.ends_bind_ok.mp logging
  obtain ⟨_, w₃, third, last⟩ := Program.ends_bind_ok.mp catching
  obtain ⟨_, _, balanced, _⟩ := known (.start _ _)
  obtain ⟨_, _, balanced₂, _⟩ := known (first.then_visits (second.then_visits (.start _ _)))
  obtain ⟨_, _, balanced₃, _⟩ := known (first.then_visits (second.then_visits (third.then_visits (.start _ _))))
  obtain ⟨_, _, balanced', complete⟩ := known ends.visits
  have caught := catchup_ok (small balanced.files) first
  have streams : w₁.Streams := by
    obtain ⟨order, below⟩ := balanced.files.streams
    exact ⟨caught.wal ▸ order, caught.wal ▸ below⟩
  have logged := getLog_ok streams second
  have again := catchup_ok (small balanced₂.files) third
  obtain ⟨wal', slot'⟩ := createDiff_server last
  have wal : w₃.wal = w.wal := again.wal.trans (logged.wal.trans caught.wal)
  have cleared := createDiff_clears balanced₃.files (by rwa [Fits, wal]) last
  obtain ⟨lsn, newest⟩ := balanced'.files.getLsn
  have waiting := readEntries_entered balanced'.waiting_entered
  have nothing := World.waitingLogs_cleared cleared waiting
  refine ⟨cleared, _, readEntries_entered balanced'.published_entered, ?_⟩
  have behind : Commit.objects (w'.wal.filter (fun commit => max w'.slot lsn < commit.lsn)) = [] := by
    refine List.flatMap_eq_nil_iff.mpr (fun commit inside => ?_)
    obtain ⟨member, later⟩ := List.mem_filter.mp inside
    rw [wal', again.wal, logged.wal] at member
    exact logged.caught streams again member (slot' ▸ (le_max_left _ _).trans_lt (of_decide_eq_true later))
  have accounts : (Commit.objects (w'.wal.filter (fun commit => start.slot < commit.lsn))).Perm (Commit.objects _) :=
    (complete.accounts balanced' newest).flatMap_right _
  rwa [objects_append, objects_append, nothing, behind, List.append_nil, List.append_nil, wal', wal] at accounts

private theorem firstCycle_ends : Ends (script {}) firstChange (.ok ()) firstPublished := by
  have each : ∀ node ∈ twoChanges, node.2.type = .node := by decide
  have runs {count : Nat} {program : Prog Unit} {w : World} (ran : (answering count program w).1 = some (.ok ())) :
      Ends program w (.ok ()) (answering count program w).2 :=
    ends_sent (sent_nodes (fun node member => each node (List.mem_of_mem_take member))) ran
  obtain ⟨caught, logged⟩ := firstChange_logged
  obtain ⟨caughtAgain, published, _⟩ := firstLogged_published
  exact Program.ends_bind_ok.mpr ⟨(), _, runs caught, Program.ends_bind_ok.mpr ⟨(), _, runs logged,
    Program.ends_bind_ok.mpr ⟨(), _, runs caughtAgain, runs published⟩⟩⟩

/-- The first run of the script publishes the one node. -/
theorem cycle_clears_node : Commit.objects (firstChange.wal.filter (fun commit => firstChange.slot < commit.lsn)) =
    [⟨.node, 1, 1, 10⟩] ∧
    firstPublished.waitingEntries = [] ∧ ∃ published,
      readEntries (firstPublished.publishedLogs.map Prod.snd) = .ok published ∧
      (Commit.objects (firstChange.wal.filter (fun commit => firstChange.slot < commit.lsn))).Perm published :=
  ⟨by decide, cycle_clears {} firstChange_fresh .refl (by decide) firstCycle_ends⟩

end Osmdbt
