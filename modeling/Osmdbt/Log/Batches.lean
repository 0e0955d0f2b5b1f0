import Osmdbt.System.NoLoss
import Osmdbt.System.Serve

/-! Batches: get-log with `--catchup` and any limits writes, run by run, what it would
write in a single run without a limit. -/

namespace Osmdbt

open General

/-- The replication stream: transactions in the order of their commits, with LSNs of 64 bits. -/
structure World.Streams (w : World) : Prop where
  order : w.wal.Pairwise (fun a b => a.lsn < b.lsn)
  small : ∀ commit ∈ w.wal, commit.lsn < 2 ^ 64

/-- Name and data of a file that got its name in the log directory. -/
def Rename.logFile (rename : Rename) : Option (Text × Text) :=
  match rename.newName.dir, rename.content with
  | .log, .text data => some (rename.newName.name, data)
  | _, _ => none

/-- The log files written between two states, in order of creation. -/
def writtenLogs (w w' : World) : List (Text × Text) := (w'.renames.drop w.renames.length).filterMap Rename.logFile

/-- One complete run with `--catchup` after the other, with these limits. -/
inductive CatchUps (config : Config) : List UInt32 → World → World → Prop where
  | done (w : World) : CatchUps config [] w w
  | run {maxChanges : UInt32} {limits : List UInt32} {w w₁ w' : World}
      (ends : Ends (getLog config { maxChanges, catchup := true }) w (.ok ()) w₁)
      (rest : CatchUps config limits w₁ w') : CatchUps config (maxChanges :: limits) w w'

/-- The transactions `commits` stand in the files `logs`, which were written in this order. -/
structure Batched (w w' : World) (commits : List Commit) (logs : List (Text × Text)) : Prop where
  wal : w'.wal = w.wal
  written : ∃ moved, w'.renames = w.renames ++ moved ∧ moved.filterMap Rename.logFile = logs
  reads : readEntries (logs.map Prod.snd) = .ok (Commit.objects commits)
  stored : ∀ log ∈ logs, isLog log.1 = true ∧ w'.get ⟨.log, log.1⟩ = some (.text log.2) ∧
    ∃ commit ∈ commits, lsnOfName log.1 = .ok commit.lsn
  others : ∀ name, isLog name = true → (∀ log ∈ logs, name ≠ log.1) → w'.get ⟨.log, name⟩ = w.get ⟨.log, name⟩

namespace Batched

variable {w w₁ w' : World} {sent more : List Commit} {logs later : List (Text × Text)}

theorem writtenLogs_eq (batched : Batched w w' sent logs) : writtenLogs w w' = logs := by
  obtain ⟨moved, renames, rfl⟩ := batched.written
  rw [writtenLogs, renames, List.drop_left]

theorem refl (w : World) : Batched w w [] [] where
  wal := rfl
  written := ⟨[], (List.append_nil _).symm, rfl⟩
  reads := rfl
  stored := fun _ wrong => nomatch wrong
  others := fun _ _ _ => rfl

/-- Later batches have other names: they end at other positions. -/
theorem append (first : Batched w w₁ sent logs) (second : Batched w₁ w' more later)
    (order : ∀ early ∈ sent, ∀ late ∈ more, early.lsn < late.lsn) : Batched w w' (sent ++ more) (logs ++ later) where
  wal := second.wal.trans first.wal
  written := by
    obtain ⟨moved, renames, rfl⟩ := first.written
    obtain ⟨moved', renames', rfl⟩ := second.written
    exact ⟨moved ++ moved', by rw [renames', renames, List.append_assoc], List.filterMap_append⟩
  reads := by
    rw [List.map_append, Commit.objects, List.flatMap_append]
    rw [readEntries_append, first.reads, second.reads]
    rfl
  stored := by
    intro log member
    rcases List.mem_append.mp member with early | late
    · obtain ⟨isLog, file, commit, inside, named⟩ := first.stored log early
      refine ⟨isLog, (second.others log.1 isLog (fun other among same => ?_)).trans file, commit,
        List.mem_append_left _ inside, named⟩
      obtain ⟨_, _, commit', inside', named'⟩ := second.stored other among
      have less := order commit inside commit' inside'
      rw [← same, named] at named'
      exact absurd (Except.ok.inj named') less.ne
    · obtain ⟨isLog, file, commit, inside, named⟩ := second.stored log late
      exact ⟨isLog, file, commit, List.mem_append_right _ inside, named⟩
  others := fun name log free =>
    (second.others name log (fun other member => free other (List.mem_append_right _ member))).trans
      (first.others name log (fun other member => free other (List.mem_append_left _ member)))

theorem after (batched : Batched w₁ w' sent logs) (before : Batched w w₁ [] []) : Batched w w' sent logs :=
  before.append batched (fun _ none => nomatch none)

theorem before (batched : Batched w w₁ sent logs) (after : Batched w₁ w' [] []) : Batched w w' sent logs := by
  have both := batched.append after (fun _ _ _ none => nomatch none)
  rwa [List.append_nil, List.append_nil] at both

end Batched

section Run

variable {config : Config} {w w' : World}

/-- The log files and what was committed are left alone. -/
theorem Batched.quiet (wal : w'.wal = w.wal) (renames : w'.renames = w.renames)
    (files : ∀ name, w'.get ⟨.log, name⟩ = w.get ⟨.log, name⟩) : Batched w w' [] [] where
  wal := wal
  written := ⟨[], by rw [renames, List.append_nil], rfl⟩
  reads := rfl
  stored := fun _ wrong => nomatch wrong
  others := fun name _ _ => files name

theorem Batched.pidFile {name : Text} (same : Untouched (PidFileOf config name) w w') : Batched w w' [] [] := by
  refine Batched.quiet same.wal same.renames (fun log => same.get _ (fun own => ?_))
  have dir := congrArg Path.dir own.2
  cases dir

theorem pending_same (wal : w'.wal = w.wal) (slot : w'.slot = w.slot) : w'.pending = w.pending := by
  rw [World.pending, World.pending, wal, slot]

theorem lsn_le_last {sent : List Commit} {last : Commit} (sorted : sent.Pairwise (fun a b => a.lsn < b.lsn))
    (ending : sent.getLast? = some last) : ∀ commit ∈ sent, commit.lsn ≤ last.lsn := by
  obtain ⟨front, rfl⟩ := List.getLast?_eq_some_iff.mp ending
  intro commit member
  rcases List.mem_append.mp member with before | same
  · exact ((List.pairwise_append.mp sorted).2.2 commit before last List.mem_cons_self).le
  · exact (congrArg Commit.lsn (List.mem_singleton.mp same)).le

/-- Behind the end of a batch there is what the batch left over. -/
private theorem pending_advanced (order : w.wal.Pairwise (fun a b => a.lsn < b.lsn)) {sent rest : List Commit}
    {last : Commit}
    (split : w.pending = sent ++ rest) (ending : sent.getLast? = some last) :
    World.pending { w with slot := max w.slot last.lsn } = rest := by
  have sorted : (sent ++ rest).Pairwise (fun a b => a.lsn < b.lsn) := split ▸ order.filter _
  obtain ⟨sortedSent, _, later⟩ := List.pairwise_append.mp sorted
  have twice : World.pending { w with slot := max w.slot last.lsn } =
      w.pending.filter (fun commit => decide (last.lsn < commit.lsn)) := by
    simp [World.pending, List.filter_filter, and_comm]
  have early : sent.filter (fun commit => decide (last.lsn < commit.lsn)) = [] := by
    rw [List.filter_eq_nil_iff]
    intro commit member
    simpa using lsn_le_last sortedSent ending commit member
  have late : rest.filter (fun commit => decide (last.lsn < commit.lsn)) = rest := by
    rw [List.filter_eq_self]
    intro commit member
    simpa using later last (List.mem_of_getLast? ending) commit member
  rw [twice, split, List.filter_append, early, late, List.nil_append]

theorem catchupToLsn_ok {lsn : Text} (ends : Ends (catchupToLsn lsn) w (.ok ()) w') :
    ∃ value, parseLsn lsn = .ok value ∧ w' = { w with slot := max w.slot value } := by
  obtain ⟨(version : Nat), w₁, asked, rest⟩ := Program.ends_bind_ok.mp ends
  obtain rfl : w₁ = w := perform_ok.mp asked
  rcases Program.ends_ite.mp rest with ⟨_, advanced⟩ | ⟨_, failed⟩
  · exact perform_ok.mp advanced
  · cases failed.1

/-- The slot is moved to the end of the batch. -/
private theorem catchUpLog_ok {maxChanges : UInt32} {log : LogState} {last : Commit} (small : last.lsn < 2 ^ 64)
    (lsn : log.lsn = lsnStr last.lsn)
    (ends : Ends (catchUpLog { maxChanges, catchup := true } log) w (.ok ()) w') :
    w' = { w with slot := max w.slot last.lsn } := by
  obtain ⟨canonical, w₁, parsed, rest⟩ := Program.ends_bind_ok.mp ends
  obtain ⟨value, rfl⟩ := Program.ends_lift.mp parsed
  have position : parseLsn (lsnStr last.lsn) = .ok last.lsn := parseLsn_lsnText (.inr rfl) small
  obtain rfl : lsnStr last.lsn = canonical := by
    rw [canonicalLsn, lsn, position] at value
    exact (Except.ok.inj value).symm
  obtain ⟨_, w₂, advanced, committed⟩ := Program.ends_bind_ok.mp rest
  obtain ⟨value, same, rfl⟩ := catchupToLsn_ok advanced
  rw [position] at same
  obtain rfl := Except.ok.inj same
  exact perform_ok.mp committed

/-- The batch is written to one file, unless it inserts nothing. -/
private theorem writeLog_batched {log : LogState} {sent : List Commit} {last : Commit} (small : last.lsn < 2 ^ 64)
    (ending : sent.getLast? = some last) (lsn : log.lsn = lsnStr last.lsn)
    (entries : logEntries log.data = .ok (Commit.objects sent))
    (actual : log.hasActualData = !(Commit.objects sent).isEmpty)
    (ends : Ends (writeLog config log) w (.ok ()) w') :
    (∃ logs, logs.length ≤ 1 ∧ Batched w w' sent logs) ∧ w'.slot = w.slot := by
  unfold writeLog at ends
  by_cases inserts : (Commit.objects sent).isEmpty
  · rw [actual, inserts, if_neg (by decide)] at ends
    obtain rfl := ends.2
    have nothing : Commit.objects sent = [] := List.isEmpty_iff.mp inserts
    refine ⟨⟨[], by simp, { Batched.refl w' with reads := ?_, stored := fun _ wrong => nomatch wrong }⟩, rfl⟩
    rw [nothing]
    rfl
  · rw [actual, if_pos (by simpa using inserts)] at ends
    obtain ⟨(now : Timestamp), w₁, clock, written⟩ := Program.ends_bind_ok.mp ends
    obtain rfl : w₁ = w := perform_ok.mp clock
    rw [lsn] at written
    have isLog := isLog_replicationLogName (lsnStr last.lsn) now
    obtain ⟨stored, _, others, wal, slot, _, _, renames⟩ := writeDataToFile_ok written
    refine ⟨⟨[(replicationLogName (lsnStr last.lsn) now, log.data)], le_rfl, wal, ⟨_, renames, rfl⟩, ?_, ?_, ?_⟩, slot⟩
    · exact (readEntries_single log.data).trans entries
    · intro log member
      obtain rfl := List.mem_singleton.mp member
      exact ⟨isLog, stored, last, List.mem_of_getLast? ending, lsnOfName_replicationLogName small now⟩
    · intro name log free
      refine others _ (fun same => free _ List.mem_cons_self (congrArg Path.name same)) (newLog_ne log _)

/-- A complete run takes a first part of what is pending and leaves the rest. -/
theorem getLog_batched {maxChanges : UInt32} (streams : w.Streams)
    (ends : Ends (getLog config { maxChanges, catchup := true }) w (.ok ()) w') :
    ∃ sent rest logs, w.pending = sent ++ rest ∧ w'.pending = rest ∧ (w.pending ≠ [] → sent ≠ []) ∧
      (maxChanges = 0 → rest = []) ∧ logs.length ≤ 1 ∧ Batched w w' sent logs := by
  rcases (partwise_ends (.ok ())).pidFile ends with ⟨w₁, w₂, _, before, body, after⟩ | ⟨⟨_, wrong⟩, _⟩
  swap
  · cases wrong
  have first := Batched.pidFile before
  have last := Batched.pidFile after
  obtain ⟨_, w₃, connected, asking⟩ := Program.ends_bind_ok.mp body
  obtain rfl : w₃ = w₁ := perform_ok.mp connected
  obtain ⟨_, w₄, asked, peeking⟩ := Program.ends_bind_ok.mp asking
  have version : Same w₃ w₄ := ends_untouched getDbVersion_uses asked
  have quiet : Batched w₃ w₄ [] [] := Batched.quiet version.wal version.renames (fun name => version.get _ not_false)
  have wal : w₄.wal = w.wal := version.wal.trans before.wal
  have slot : w₄.slot = w.slot := version.slot.trans before.slot
  obtain ⟨(result : List PeekRow), w₅, peeked, rest⟩ := Program.ends_bind_ok.mp peeking
  obtain ⟨sent, taken, carried, rfl⟩ := perform_ok.mp peeked
  have peek : Batched w₄ { w₄ with returned := Commit.objects sent } [] [] := Batched.quiet rfl rfl (fun _ => rfl)
  rw [pending_same wal slot] at taken
  obtain ⟨left, split⟩ := taken.front
  have taking : w.pending ≠ [] → sent ≠ [] := taken.some
  have all : maxChanges = 0 → left = [] := by
    rintro rfl
    exact List.append_cancel_left ((split.trans taken.symm).trans (List.append_nil sent).symm)
  have whole {logs : List (Text × Text)} (written : Batched { w₄ with returned := Commit.objects sent } w₂ sent logs) :
      Batched w w' sent logs := (((written.after peek).after quiet).after first).before last
  rcases Program.ends_ite.mp rest with ⟨empty, committed⟩ | ⟨nonempty, logging⟩
  · obtain rfl : w₂ = _ := perform_ok.mp committed
    obtain rfl : sent = [] := (sent_nil_iff carried).mp (List.isEmpty_iff.mp empty)
    refine ⟨[], left, [], split.symm, ?_, taking, all, by simp, whole (Batched.refl _)⟩
    rw [pending_same after.wal after.slot]
    exact (pending_same wal slot).trans split.symm
  · obtain ⟨log, w₆, decoded, writing⟩ := Program.ends_bind_ok.mp logging
    obtain ⟨same, rfl⟩ := Program.ends_lift.mp decoded
    obtain ⟨log', decoded', entries, lsn, actual⟩ := decodeRows_sent carried
    obtain rfl : log = log' := Except.ok.inj (same.trans decoded')
    obtain ⟨_, w₇, written, caught⟩ := Program.ends_bind_ok.mp writing
    have filled : sent ≠ [] := fun none => nonempty (List.isEmpty_iff.mpr ((sent_nil_iff carried).mpr none))
    obtain ⟨final, ending⟩ : ∃ final, sent.getLast? = some final := ⟨_, List.getLast?_eq_some_getLast filled⟩
    have pending : final ∈ w.pending := split ▸ List.mem_append_left _ (List.mem_of_getLast? ending)
    have small : final.lsn < 2 ^ 64 := streams.small final (List.mem_filter.mp pending).1
    have position : log.lsn = lsnStr final.lsn := by
      rw [lsn, ending]
      rfl
    obtain ⟨⟨logs, one, batch⟩, still⟩ := writeLog_batched small ending position entries actual written
    obtain rfl := catchUpLog_ok small position caught
    refine ⟨sent, left, logs, split.symm, ?_, taking, all, one,
      whole (batch.before (Batched.quiet rfl rfl (fun _ => rfl)))⟩
    rw [pending_same after.wal after.slot]
    refine pending_advanced ?_ ((pending_same (batch.wal.trans wal) (still.trans slot)).trans split.symm) ending
    rw [batch.wal]
    exact wal ▸ streams.order

end Run

section Runs

variable {config : Config} {limits : List UInt32} {w w' u : World}

/-- Run by run a first part of the stream is taken; nothing is left after as many runs as transactions. -/
private theorem catchUps_batched (streams : w.Streams) (batches : CatchUps config limits w w') :
    ∃ sent rest logs, w.pending = sent ++ rest ∧ w'.pending = rest ∧ (rest = [] ∨ limits.length ≤ sent.length) ∧
      Batched w w' sent logs := by
  induction batches with
  | done w => exact ⟨[], w.pending, [], rfl, rfl, .inr le_rfl, Batched.refl w⟩
  | @run maxChanges limits w w₁ w' ends _ ih =>
    obtain ⟨first, left, logs, split, pending, taking, _, _, batch⟩ := getLog_batched streams ends
    obtain ⟨second, rest, later, split', pending', progress, batch'⟩ :=
      ih ⟨batch.wal ▸ streams.order, batch.wal ▸ streams.small⟩
    rw [pending] at split'
    subst split'
    have order : (first ++ (second ++ rest)).Pairwise (fun a b => a.lsn < b.lsn) := split ▸ streams.order.filter _
    refine ⟨first ++ second, rest, logs ++ later, by rw [split, List.append_assoc], pending', ?_,
      batch.append batch' (fun early before late after => ?_)⟩
    · rcases progress with nothing | enough
      · exact .inl nothing
      · by_cases empty : first = []
        · have none : w.pending = [] := by_contra (fun some => taking some empty)
          rw [none, empty] at split
          exact .inl (List.append_eq_nil_iff.mp (List.append_eq_nil_iff.mp split.symm).2).2
        · have some := List.length_pos_iff.mpr empty
          refine .inr ?_
          rw [List.length_cons, List.length_append]
          omega
    · exact (List.pairwise_append.mp order).2.2 early before late (List.mem_append_left _ after)

/-- However the stream is cut into batches, the log files have the entries of the one file
of a run without a limit, in the same order. -/
theorem batches_log_the_same (streams : w.Streams) (batches : CatchUps config limits w w')
    (single : Ends (getLog config { catchup := true }) w (.ok ()) u) :
    (w.pending.length ≤ limits.length → w'.pending = []) ∧
      (∀ log ∈ writtenLogs w w', isLog log.1 = true ∧ w'.get ⟨.log, log.1⟩ = some (.text log.2)) ∧
      (writtenLogs w u).length ≤ 1 ∧ u.pending = [] ∧
      readEntries ((writtenLogs w u).map Prod.snd) = .ok (Commit.objects w.pending) ∧
      (w'.pending = [] → readEntries ((writtenLogs w w').map Prod.snd) = .ok (Commit.objects w.pending) ∧
        ∀ content, ((writtenLogs w w').map Prod.snd).foldlM readLog content =
          ((writtenLogs w u).map Prod.snd).foldlM readLog content) := by
  obtain ⟨sent, rest, logs, split, pending, progress, batch⟩ := catchUps_batched streams batches
  obtain ⟨whole, left, file, split', pending', _, unlimited, one, batch'⟩ := getLog_batched streams single
  obtain rfl : left = [] := unlimited rfl
  rw [List.append_nil] at split'
  subst split'
  rw [batch.writtenLogs_eq, batch'.writtenLogs_eq]
  refine ⟨fun enough => ?_, fun log member => ⟨(batch.stored log member).1, (batch.stored log member).2.1⟩,
    one, pending',
    batch'.reads, fun drained => ?_⟩
  · rcases progress with nothing | taken
    · exact pending.trans nothing
    · have lengths := congrArg List.length split
      rw [List.length_append] at lengths
      exact pending.trans (List.length_eq_zero_iff.mp (by omega))
  · obtain rfl : rest = [] := pending.symm.trans drained
    rw [List.append_nil] at split
    have same : readEntries (logs.map Prod.snd) = .ok (Commit.objects w.pending) := split ▸ batch.reads
    exact ⟨same, fun content => by rw [readLogs_eq, readLogs_eq, same, batch'.reads]⟩

end Runs

def twoInserts : List (Nat × Osmobj) := [(64, ⟨.node, 1, 1, 9⟩), (128, ⟨.node, 2, 1, 9⟩)]

/-- One run in which the slot sends these transactions. -/
def takeNodes (nodes : List (Nat × Osmobj)) (maxChanges : UInt32) (w : World) : Option (Except Fault Unit) × World :=
  (getLog {} { maxChanges, catchup := true }).run (World.serveSent (nodeCommits nodes)
    (peekRows (nodeInsertions nodes))) w

theorem takeNodes_ends {nodes : List (Nat × Osmobj)} (each : ∀ node ∈ nodes, node.2.type = .node)
    {maxChanges : UInt32} {w : World}
    (ran : (takeNodes nodes maxChanges w).1 = some (.ok ())) :
    Ends (getLog {} { maxChanges, catchup := true }) w (.ok ()) (takeNodes nodes maxChanges w).2 :=
  ends_sent (sent_nodes each) ran

/-- Two batches of one transaction each write two files. -/
theorem batches_log_the_same_two : ∃ w w' u, CatchUps {} [1, 1] w w' ∧
    Ends (getLog {} { catchup := true }) w (.ok ()) u ∧
    (writtenLogs w w').length = 2 ∧ (writtenLogs w u).length ≤ 1 ∧
      Commit.objects w.pending = [⟨.node, 1, 1, 9⟩, ⟨.node, 2, 1, 9⟩] ∧
    readEntries ((writtenLogs w w').map Prod.snd) = .ok (Commit.objects w.pending) ∧
    readEntries ((writtenLogs w u).map Prod.snd) = .ok (Commit.objects w.pending) := by
  let w : World := { wal := nodeCommits twoInserts }
  let w₁ : World := (takeNodes (twoInserts.take 1) 1 w).2
  let w' : World := (takeNodes (twoInserts.drop 1) 1 w₁).2
  let u : World := (takeNodes twoInserts 0 w).2
  have first : Ends (getLog {} { maxChanges := 1, catchup := true }) w (.ok ()) w₁ :=
    takeNodes_ends (by decide) (by decide +kernel)
  have second : Ends (getLog {} { maxChanges := 1, catchup := true }) w₁ (.ok ()) w' :=
    takeNodes_ends (by decide) (by decide +kernel)
  have single : Ends (getLog {} { catchup := true }) w (.ok ()) u :=
    takeNodes_ends (by decide) (by decide +kernel)
  have streams : w.Streams := ⟨by decide, by decide⟩
  have files : (writtenLogs w w').length = 2 := by decide +kernel
  have batches : CatchUps {} [1, 1] w w' := .run first (.run second (.done w'))
  obtain ⟨drained, _, one, _, whole, same⟩ := batches_log_the_same streams batches single
  exact ⟨w, w', u, batches, single, files, one, by decide, (same (drained (by decide))).1, whole⟩

end Osmdbt
