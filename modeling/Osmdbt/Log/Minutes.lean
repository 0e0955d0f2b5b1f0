import Osmdbt.Log.Writers
import Osmdbt.Log.LineOrder
import Osmdbt.Log.NameOrder
import Osmdbt.System.LogFiles
import Osmdbt.System.Serve

/-! The log files fake-log writes: one for each minute, in the order of their names as
long as the clock does not go back. -/

namespace Osmdbt

open General

namespace FakeLog

def logText (entries : List LogEntry) : Text := entries.flatMap (fun entry => (LogLine.fake entry).text)

theorem appendTo_logText (entries : List LogEntry) (entry : LogEntry) :
    entry.appendTo (logText entries) = logText (entries ++ [entry]) := by
  rw [appendTo_line, logText, logText, List.flatMap_append, List.flatMap_singleton]

theorem logEntries_logText (entries : List LogEntry) :
    logEntries (logText entries) = .ok (entries.map LogEntry.obj) := by
  have lines := logEntries_lines (entries.map LogLine.fake)
  rw [List.flatMap_map, List.filterMap_map] at lines
  have same : LogLine.entry ∘ LogLine.fake = some ∘ LogEntry.obj := rfl
  rw [logText, lines, same, List.filterMap_eq_map]

/-- The lines of a new file are all read back. -/
theorem logText_wellFormed (entries : List LogEntry) : ∀ line ∈ nLines (logText entries), WellFormed line := by
  have texts : logText entries = (entries.map (fun entry => "0/0".toList ++ ' ' :: "0".toList ++ ' ' ::
      (LogLine.fake entry).message)).flatMap (fun line => line ++ ['\n']) := by
    rw [List.flatMap_map]
    rfl
  have single : ∀ line ∈ entries.map
    (fun entry => "0/0".toList ++ ' ' :: "0".toList ++ ' ' :: (LogLine.fake entry).message),
      '\n' ∉ line := by
    intro line member
    obtain ⟨entry, _, rfl⟩ := List.mem_map.mp member
    have message := (LogLine.fake entry).message_single
    simp [message]
  intro line member
  rw [nLines, texts, getlines_lines single] at member
  obtain ⟨entry, _, rfl⟩ := List.mem_map.mp (List.mem_filter.mp member).1
  exact ⟨entry.obj, (LogLine.fake entry).readLine_message⟩

theorem isLog_createReplicationLogName (name : Text) (time : Timestamp) :
    isLog (createReplicationLogName name time) = true := by
  unfold isLog createReplicationLogName
  rw [show ".log".toList = '.' :: "log".toList from rfl, extension_append (by simp) (by decide) (by decide)]
  decide

/-- The times of which the program makes file names. -/
def Timed (entry : LogEntry) : Prop := 0 < entry.time ∧ entry.time < 2 ^ 31

/-- A log file for one minute, made at the time `now`. -/
structure MinuteFile where
  minute : Int
  now : Timestamp
  entries : List LogEntry
  nonempty : entries ≠ []
  own : ∀ entry ∈ entries, entry.time = minute
  positive : 0 < minute
  small : minute < 2 ^ 31

namespace MinuteFile

def name (file : MinuteFile) : Text := createReplicationLogName (toIso (UInt32.ofInt file.minute)) file.now

/-- Its name and its entries. -/
def stored (file : MinuteFile) : Text × List LogEntry := (file.name, file.entries)

variable (file other : MinuteFile)

theorem minute_toNat : ((UInt32.ofInt file.minute).toNat : Int) = file.minute := by
  have positive := file.positive
  have small := file.small
  rw [UInt32.ofInt, UInt32.toNat_ofNat']
  omega

private theorem minute_ne_zero : UInt32.ofInt file.minute ≠ 0 := by
  intro zero
  have value := file.minute_toNat
  have positive := file.positive
  rw [zero, UInt32.toNat_zero] at value
  omega

theorem name_eq : file.name =
    "osm-repl-".toList ++ (toIsoAll file.now ++ '-' :: (toIsoAll (UInt32.ofInt file.minute) ++ ".log".toList)) := by
  have texts (name time : Text) : "osm-repl-".toList ++ time ++ '-' :: name ++ ".log".toList =
      "osm-repl-".toList ++ (time ++ '-' :: (name ++ ".log".toList)) := by
    rw [List.append_assoc, List.append_assoc, List.cons_append]
  have iso : toIso (UInt32.ofInt file.minute) = toIsoAll (UInt32.ofInt file.minute) := if_neg file.minute_ne_zero
  have named : file.name = createReplicationLogName (toIsoAll (UInt32.ofInt file.minute)) file.now :=
    congrArg (fun minute => createReplicationLogName minute file.now) iso
  exact named.trans (texts _ _)

theorem relative : file.name.head? ≠ some '/' := by
  have first : file.name.head? = some 'o' := rfl
  rw [first]
  decide

variable {file other}

/-- Later minutes have later names unless the clock went back. -/
private theorem name_lt (less : file.minute < other.minute) (clock : file.now ≤ other.now) :
    file.name < other.name := by
  have minutes : UInt32.ofInt file.minute < UInt32.ofInt other.minute := by
    have value := file.minute_toNat
    have value' := other.minute_toNat
    rw [UInt32.lt_iff_toNat_lt]
    omega
  rw [name_eq, name_eq]
  refine (Digits.append_lt_append_iff rfl).mpr (.inr ⟨rfl, block_lt (by rw [length_toIsoAll, length_toIsoAll]) ?_⟩)
  rcases Nat.lt_or_eq_of_le (UInt32.le_iff_toNat_le.mp clock) with later | same
  · exact .inl (toIsoAll_lt (UInt32.lt_iff_toNat_lt.mpr later))
  · refine .inr ⟨congrArg toIsoAll (UInt32.toNat_inj.mp same), ?_⟩
    exact (Digits.append_lt_append_iff (by rw [length_toIsoAll, length_toIsoAll])).mpr (.inl (toIsoAll_lt minutes))

/-- Different minutes have different files. -/
private theorem name_ne (different : file.minute ≠ other.minute) : file.name ≠ other.name := by
  intro same
  rw [name_eq, name_eq] at same
  have rest := List.append_cancel_left same
  have tail := (List.append_inj rest (by rw [length_toIsoAll, length_toIsoAll])).2
  have parsed := congrArg parseTimestamp (List.append_cancel_right (List.cons.inj tail).2)
  rw [parseTimestamp_toIsoAll, parseTimestamp_toIsoAll] at parsed
  refine different ?_
  rw [← file.minute_toNat, ← other.minute_toNat, Except.ok.inj parsed]

/-- The file of one entry. -/
def start (entry : LogEntry) (timed : Timed entry) (now : Timestamp) : MinuteFile where
  minute := entry.time
  now := now
  entries := [entry]
  nonempty := List.cons_ne_nil entry []
  own := fun _ member => congrArg LogEntry.time (List.mem_singleton.mp member)
  positive := timed.1
  small := timed.2

/-- One more entry of the same minute. -/
def add (file : MinuteFile) (entry : LogEntry) (same : entry.time = file.minute) : MinuteFile :=
  { file with
    entries := file.entries ++ [entry]
    nonempty := List.concat_ne_nil entry file.entries
    own := fun other member => (List.mem_append.mp member).elim (file.own other)
      (fun last => (congrArg LogEntry.time (List.mem_singleton.mp last)).trans same) }

end MinuteFile

/-- What a run leaves behind: these log files, and everything else as it was. -/
structure Wrote (w w' : World) (files : List (Text × List LogEntry)) : Prop where
  distinct : (files.map Prod.fst).Nodup
  stored : ∀ file ∈ files, w'.get ⟨.log, file.1⟩ = some (.text (logText file.2))
  others : ∀ path, (∀ file ∈ files, path ≠ ⟨.log, file.1⟩) → w'.get path = w.get path
  database : w'.wal = w.wal ∧ w'.slot = w.slot ∧ w'.tables = w.tables

/-- What is noted of a clock that moves in this way. -/
def Clock (moves : Timestamp → Timestamp → Prop) (t : Timestamp) (op : Op) (reply : Reply op)
    (t' : Timestamp) : Prop :=
  match op, reply with
  | .time, .ok (now : Timestamp) => moves t now ∧ t' = now
  | _, _ => t' = t

/-- A run while the clock moves in this way. -/
abbrev ClockedEnds {α : Type} (moves : Timestamp → Timestamp → Prop) (program : Prog α) (w : World) (t : Timestamp)
    (result : Except Fault α) (w' : World) (t' : Timestamp) : Prop :=
  program.Ends (Program.Observed Step (Clock moves)) (w, t) result (w', t')

section Writing

variable {config : Config} {w w' : World}

private theorem writeDataToFile_free {data fileName : Text}
    (ends : Ends (writeDataToFile config data fileName) w (.ok ()) w') :
    w.get (newLog fileName) = none := by
  obtain ⟨reply, w₁, opened, rest⟩ := Program.ends_bind_ok.mp ends
  obtain ⟨_, done, same⟩ := Program.ends_request.mp opened
  obtain rfl := Except.ok.inj same
  cases reply with
  | error code => cases rest.1
  | ok _ => exact done.1

/-- A file is written before the others. -/
theorem Wrote.cons {fileName : Text} {entries : List LogEntry} {w₁ : World} {files : List (Text × List LogEntry)}
    (fresh : fileName ∉ files.map Prod.fst)
    (ends : Ends (writeDataToFile config (logText entries) fileName) w (.ok ()) w₁)
    (rest : Wrote w₁ w' files) : Wrote w w' ((fileName, entries) :: files) := by
  obtain ⟨stored, gone, others, wal, slot, tables, _⟩ := writeDataToFile_ok ends
  have free := writeDataToFile_free ends
  refine ⟨List.nodup_cons.mpr ⟨fresh, rest.distinct⟩, fun file member => ?_, fun path outside => ?_, ?_⟩
  · rcases List.mem_cons.mp member with rfl | member
    · refine (rest.others _ (fun file inside same => fresh ?_)).trans stored
      obtain rfl : fileName = file.1 := congrArg Path.name same
      exact List.mem_map_of_mem inside
    · exact rest.stored file member
  · rw [rest.others path (fun file inside => outside file (List.mem_cons_of_mem _ inside))]
    by_cases new : path = newLog fileName
    · subst new
      exact gone.trans free.symm
    · exact others path (outside _ List.mem_cons_self) new
  · obtain ⟨wal', slot', tables'⟩ := rest.database
    exact ⟨wal'.trans wal, slot'.trans slot, tables'.trans tables⟩

theorem clock_stands {moves : Timestamp → Timestamp → Prop} {t : Timestamp} {op : Op} {reply : Reply op}
    {t' : Timestamp}
    (other : op ≠ .time) : Clock moves t op reply t' ↔ t' = t := by
  unfold Clock
  split
  · exact absurd rfl other
  · rfl

/-- The clock is not asked for while a file is written. -/
theorem writeDataToFile_timeless (data fileName : Text) :
    (writeDataToFile config data fileName).Uses (fun op => op ≠ .time) (fun _ => True) := by
  have asks (op : Op) (what : Text) (other : op ≠ .time) : (perform op what).Uses (fun op => op ≠ .time)
      (fun _ => True) :=
    perform_uses other
  have opened : (exclWriteOpen (newLog fileName)).Uses (fun op => op ≠ .time) (fun _ => True) :=
    Program.Uses.request (by rintro ⟨⟩)
  refine opened.bind (fun reply _ => ?_)
  cases reply with
  | error code => exact Program.Uses.raise
  | ok _ =>
    have pieces : (reliableWrite (newLog fileName) data).Uses (fun op => op ≠ .time) (fun _ => True) :=
      reliableWrite_uses (by rintro _ ⟨⟩) data
    have written : (writeSynced (newLog fileName) data).Uses (fun op => op ≠ .time) (fun _ => True) :=
      pieces.bind (fun _ _ => (asks (.fsync (newLog fileName)) _ (by rintro ⟨⟩)).bind
        (fun _ _ => asks (.close (newLog fileName)) _ (by rintro ⟨⟩)))
    have synced : (syncDir config ⟨.log, []⟩).Uses (fun op => op ≠ .time) (fun _ => True) :=
      (asks (.openDir ⟨.log, []⟩) _ (by rintro ⟨⟩)).bind
        (fun _ _ => (asks (.fsyncDir ⟨.log, []⟩) _ (by rintro ⟨⟩)).bind
        (fun _ _ => asks (.closeDir ⟨.log, []⟩) _ (by rintro ⟨⟩)))
    exact written.bind (fun _ _ => (asks (.rename (newLog fileName) ⟨.log, fileName⟩) _ (by rintro ⟨⟩)).bind
      (fun _ _ => synced))

section Loop

variable {moves : Timestamp → Timestamp → Prop} {t t' : Timestamp}

theorem writeDataToFile_clocked {data fileName : Text} {result : Except Fault Unit}
    (ends : ClockedEnds moves (writeDataToFile config data fileName) w t result w' t') :
    Ends (writeDataToFile config data fileName) w result w' ∧ t' = t :=
  ⟨ends.unobserved, ends.unnoted (writeDataToFile_timeless data fileName)
    (fun _ _ _ _ other noted => (clock_stands other).mp noted)⟩

theorem newFileName_clocked {entry : LogEntry} {name : Text}
    (ends : ClockedEnds moves (newFileName entry) w t (.ok name) w' t') :
    w' = w ∧ moves t t' ∧ name = createReplicationLogName (toIso entry.timestamp) t' := by
  obtain ⟨(now : Timestamp), ⟨w₁, t₁⟩, clock, same, stays⟩ := Program.ends_bind_ok.mp ends
  obtain ⟨rfl, rfl⟩ := Prod.mk.inj stays
  obtain rfl := Except.ok.inj same
  obtain ⟨stands, moved, rfl⟩ := perform_done clock
  exact ⟨stands, moved, rfl⟩

/-- One minute after the other is written; `file` is what the loop has of the current one. -/
private theorem writeLogs_files (transitive : ∀ a b c, moves a b → moves b c → moves a c) (file : MinuteFile)
    {entries : List LogEntry}
    (ordered : (file.entries ++ entries).Pairwise (fun a b => a.time ≤ b.time))
    (timed : ∀ entry ∈ entries, Timed entry)
    (ends : ClockedEnds moves (writeLogs config file.minute file.name (logText file.entries) entries)
      w file.now (.ok ()) w' t') :
    ∃ first rest, first.minute = file.minute ∧ first.now = file.now ∧
      Wrote w w' ((first :: rest).map MinuteFile.stored) ∧
      (first :: rest).flatMap MinuteFile.entries = file.entries ++ entries ∧
      (first :: rest).Pairwise (fun a b => a.minute < b.minute ∧ moves a.now b.now) := by
  induction entries generalizing file w with
  | nil =>
    have none : Wrote w' w' [] := ⟨List.nodup_nil, by simp, fun _ _ => rfl, rfl, rfl, rfl⟩
    have written := (writeDataToFile_clocked ends).1
    exact ⟨file, [], rfl, rfl, none.cons List.not_mem_nil written, by simp, List.pairwise_singleton _ _⟩
  | cons entry rest ih =>
    have timedRest : ∀ other ∈ rest, Timed other := fun other inside => timed other (List.mem_cons_of_mem _ inside)
    unfold writeLogs at ends
    by_cases same : file.minute = entry.time
    · rw [if_neg (not_not.mpr same), appendTo_logText] at ends
      obtain ⟨first, more, minute, now, wrote, whole, chain⟩ := ih (file.add entry same.symm)
        (by simpa [MinuteFile.add] using ordered) timedRest ends
      refine ⟨first, more, minute, now, wrote, whole.trans ?_, chain⟩
      simp [MinuteFile.add]
    · rw [if_pos same] at ends
      obtain ⟨_, ⟨w₁, t₁⟩, flushed, later⟩ := Program.ends_bind_ok.mp ends
      obtain ⟨newName, ⟨w₂, t₂⟩, asked, written⟩ := Program.ends_bind_ok.mp later
      obtain ⟨rfl, moved, rfl⟩ := newFileName_clocked asked
      rw [flush, if_pos file.positive.ne'] at flushed
      obtain ⟨before, rfl⟩ := writeDataToFile_clocked flushed
      have fromHere : entry.appendTo [] = logText [entry] := appendTo_logText [] entry
      rw [if_pos file.positive.ne', fromHere] at written
      have after := List.pairwise_append.mp ordered
      obtain ⟨member, inside⟩ := List.exists_mem_of_ne_nil file.entries file.nonempty
      have below : file.minute < entry.time := by
        have notAfter := after.2.2 member inside entry List.mem_cons_self
        rw [file.own member inside] at notAfter
        omega
      obtain ⟨first, more, minute, now, wrote, whole, chain⟩ :=
        ih (MinuteFile.start entry (timed entry List.mem_cons_self) t₂) after.2.1 timedRest written
      have next (other : MinuteFile) (among : other ∈ first :: more) : file.minute < other.minute ∧
          moves file.now other.now := by
        rcases List.mem_cons.mp among with rfl | among
        · rw [minute, now]
          exact ⟨below, moved⟩
        · obtain ⟨later, moved'⟩ := List.rel_of_pairwise_cons chain among
          rw [minute] at later
          rw [now] at moved'
          exact ⟨below.trans later, transitive _ _ _ moved moved'⟩
      refine ⟨file, first :: more, rfl, rfl, wrote.cons (fun twice => ?_) before, ?_,
        List.pairwise_cons.mpr ⟨next, chain⟩⟩
      · rw [List.map_map] at twice
        obtain ⟨other, among, same⟩ := List.mem_map.mp twice
        exact MinuteFile.name_ne (next other among).1.ne' same
      · rw [List.flatMap_cons, whole]
        rfl

/-- The whole loop. -/
theorem writeLogs_all (transitive : ∀ a b c, moves a b → moves b c → moves a c) {entry : LogEntry}
    {entries : List LogEntry}
    (ordered : (entry :: entries).Pairwise (fun a b => a.time ≤ b.time))
    (timed : ∀ other ∈ entry :: entries, Timed other)
    (ends : ClockedEnds moves (writeLogs config 0 [] [] (entry :: entries)) w t (.ok ()) w' t') :
    ∃ files : List MinuteFile, Wrote w w' (files.map MinuteFile.stored) ∧
      files.flatMap MinuteFile.entries = entry :: entries ∧
      files.Pairwise (fun a b => a.minute < b.minute ∧ moves a.now b.now) := by
  have now := timed entry List.mem_cons_self
  unfold writeLogs at ends
  rw [if_pos now.1.ne] at ends
  obtain ⟨_, c, ⟨_, rfl⟩, later⟩ := Program.ends_bind_ok.mp ends
  obtain ⟨name, ⟨w₁, t₁⟩, asked, loop⟩ := Program.ends_bind_ok.mp later
  obtain ⟨rfl, _, rfl⟩ := newFileName_clocked asked
  have fromHere : entry.appendTo [] = logText [entry] := appendTo_logText [] entry
  rw [if_neg (not_not.mpr rfl), fromHere] at loop
  obtain ⟨first, rest, _, _, wrote, whole, chain⟩ := writeLogs_files transitive (MinuteFile.start entry now t₁) ordered
    (fun other inside => timed other (List.mem_cons_of_mem _ inside)) loop
  exact ⟨first :: rest, wrote, whole, chain⟩

end Loop

private theorem tuple_total : Std.Total (fun a b : LogEntry => a.tuple ≤ b.tuple) :=
  ⟨fun a b => le_total a.tuple b.tuple⟩
private theorem tuple_trans : IsTrans LogEntry (fun a b => a.tuple ≤ b.tuple) :=
  ⟨fun _ _ _ first second => first.trans second⟩

/-- What `std::sort` promises for `operator<`. -/
structure SortedEntries (entries sorted : List LogEntry) : Prop where
  perm : sorted.Perm entries
  ordered : sorted.Pairwise (fun a b => ¬ b.tuple < a.tuple)

theorem sortEntries_sorted (entries : List LogEntry) : SortedEntries entries (sortEntries entries) where
  perm := List.perm_insertionSort _ entries
  ordered := by
    have total := tuple_total
    have transitive := tuple_trans
    exact (List.pairwise_insertionSort (fun a b : LogEntry => a.tuple ≤ b.tuple) entries).imp
      (fun below => not_lt.mpr below)

theorem SortedEntries.times {entries sorted : List LogEntry} (sorting : SortedEntries entries sorted) :
    sorted.Pairwise (fun a b => a.time ≤ b.time) := by
  refine sorting.ordered.imp (fun {a b} notLess => ?_)
  rcases Prod.Lex.toLex_le_toLex.mp (not_lt.mp notLess) with less | ⟨same, _⟩
  · exact le_of_lt less
  · exact le_of_eq same

theorem SortedEntries.timed {entries sorted : List LogEntry} (sorting : SortedEntries entries sorted)
    (timed : ∀ entry ∈ entries, Timed entry) : ∀ entry ∈ sorted, Timed entry :=
  fun entry inside => timed entry (sorting.perm.mem_iff.mp inside)

/-- A run while the clock stands. -/
theorem writeLogs_stands {moves : Timestamp → Timestamp → Prop} {last : Int} {fileName data : Text}
    {entries : List LogEntry}
    {t : Timestamp} (stands : moves t t) (log : last ≠ 0 → isLog fileName = true)
    (free : ∀ name, w.get (newLog name) = none) :
    ∃ w', ClockedEnds moves (writeLogs config last fileName data entries) w t (.ok ()) w' t := by
  have written {data fileName : Text} {w w' : World}
    (ends : Ends (writeDataToFile config data fileName) w (.ok ()) w') :
      ClockedEnds moves (writeDataToFile config data fileName) w t (.ok ()) w' t :=
    ends.quietly (writeDataToFile_timeless data fileName) t (fun _ _ _ other => (clock_stands other).mpr rfl)
  induction entries generalizing last fileName data w with
  | nil =>
    obtain ⟨w', ends⟩ := writeDataToFile_does data (free fileName)
    exact ⟨w', written ends⟩
  | cons entry rest ih =>
    unfold writeLogs
    split
    · obtain ⟨w₁, flushed, free'⟩ : ∃ w₁, ClockedEnds moves (flush config last fileName data) w t (.ok ()) w₁ t ∧
          ∀ name, w₁.get (newLog name) = none := by
        unfold flush
        split
        · rename_i positive
          obtain ⟨w₁, ends⟩ := @writeDataToFile_does config w fileName data (free fileName)
          obtain ⟨_, gone, others, _⟩ := writeDataToFile_ok ends
          refine ⟨w₁, written ends, fun name => ?_⟩
          by_cases own : newLog name = newLog fileName
          · exact own ▸ gone
          · exact (others _ (newLog_ne (log positive) name).symm own).trans (free name)
        · exact ⟨w, ⟨rfl, rfl⟩, free⟩
      have clock : ClockedEnds moves (perform Op.time []) w₁ t (.ok t) w₁ t :=
        ⟨.ok t, (w₁, t), ⟨rfl, stands, rfl⟩, rfl, rfl⟩
      obtain ⟨w', later⟩ := ih (fun _ => isLog_createReplicationLogName (toIso entry.timestamp) t) free'
      exact ⟨w', Program.ends_bind_ok.mpr ⟨_, _, flushed, Program.ends_bind_ok.mpr ⟨_, _,
        Program.ends_bind_ok.mpr ⟨_, _, clock, rfl, rfl⟩, later⟩⟩⟩
    · exact ih log free

private theorem minute_entries {files : List MinuteFile}
    (ascending : files.Pairwise (fun a b => a.minute < b.minute)) :
    files.map MinuteFile.entries = (files.map MinuteFile.minute).map
      (fun minute => (files.flatMap MinuteFile.entries).filter (fun entry => entry.time = minute)) := by
  rw [List.map_map]
  refine List.map_congr_left (fun file member => ?_)
  have only (other : MinuteFile) (among : other ∈ files) :
    other.entries.filter (fun entry => entry.time = file.minute) =
      if other.minute = file.minute then other.entries else [] := by
    split
    · rename_i same
      exact List.filter_eq_self.mpr (fun entry inside => by simpa using (other.own entry inside).trans same)
    · rename_i different
      exact List.filter_eq_nil_iff.mpr (fun entry inside => by simpa [other.own entry inside] using different)
  rw [Function.comp_apply, List.filter_flatMap, List.flatMap_congr only]
  clear only
  induction files with
  | nil => cases member
  | cons first rest ih =>
    obtain ⟨above, later⟩ := List.pairwise_cons.mp ascending
    rw [List.flatMap_cons]
    rcases List.mem_cons.mp member with rfl | inside
    · have nothing : rest.flatMap (fun other => if other.minute = file.minute then other.entries else []) = [] :=
        List.flatMap_eq_nil_iff.mpr (fun other among => if_neg (above other among).ne')
      rw [if_pos rfl, nothing, List.append_nil]
    · rw [if_neg (above file inside).ne, List.nil_append]
      exact ih later inside

/-- The files of the minutes: named in order, each with the entries of its minute, together everything. -/
structure Splits (entries sorted : List LogEntry) (w w' : World) (files : List (Text × List LogEntry))
    (minutes : List Int) : Prop where
  wrote : Wrote w w' files
  named : files.Pairwise (fun a b => a.1 < b.1)
  distinct : minutes.Nodup
  complete : ∀ minute, minute ∈ minutes ↔ ∃ entry ∈ entries, entry.time = minute
  own : files.map Prod.snd = minutes.map (fun minute => sorted.filter (fun entry => entry.time = minute))
  whole : files.flatMap Prod.snd = sorted

/-- While the clock does not go back, the loop splits the entries by their minutes, whatever
order the sort leaves equal entries in; and a run is possible while the clock stands. -/
theorem writeLogs_splits {entries sorted : List LogEntry} (sorting : SortedEntries entries sorted)
    (nonempty : entries ≠ [])
    (timed : ∀ entry ∈ entries, Timed entry) :
    (∀ w t w' t', ClockedEnds (· ≤ ·) (writeLogs config 0 [] [] sorted) w t (.ok ()) w' t' →
      ∃ files minutes, Splits entries sorted w w' files minutes) ∧
    ∀ w t, (∀ name, w.get (newLog name) = none) →
      ∃ w', ClockedEnds (· ≤ ·) (writeLogs config 0 [] [] sorted) w t (.ok ()) w' t := by
  refine ⟨fun w t w' t' ends => ?_, fun w t free => writeLogs_stands (UInt32.le_refl t)
    (fun wrong => absurd rfl wrong) free⟩
  have ordered := sorting.times
  have timed := sorting.timed timed
  cases sorted with
  | nil => exact absurd sorting.perm.nil_eq.symm nonempty
  | cons entry rest =>
    have transitive : ∀ a b c : Timestamp, a ≤ b → b ≤ c → a ≤ c := fun _ _ _ => UInt32.le_trans
    obtain ⟨files, wrote, whole, chain⟩ := writeLogs_all transitive ordered timed ends
    have ascending : files.Pairwise (fun a b => a.minute < b.minute) := chain.imp And.left
    have stored : (files.map MinuteFile.stored).map Prod.snd = files.map MinuteFile.entries := List.map_map
    refine ⟨files.map MinuteFile.stored, files.map MinuteFile.minute, wrote, ?_, ?_, fun minute => ?_, ?_, ?_⟩
    · rw [List.pairwise_map]
      exact chain.imp (fun {a b} both => MinuteFile.name_lt both.1 both.2)
    · rw [List.Nodup, List.pairwise_map]
      exact ascending.imp (fun less => less.ne)
    · rw [List.mem_map]
      constructor
      · rintro ⟨file, member, rfl⟩
        obtain ⟨other, inside⟩ := List.exists_mem_of_ne_nil file.entries file.nonempty
        refine ⟨other, sorting.perm.mem_iff.mp ?_, file.own other inside⟩
        exact whole ▸ List.mem_flatMap.mpr ⟨file, member, inside⟩
      · rintro ⟨other, inside, rfl⟩
        obtain ⟨file, member, among⟩ := List.mem_flatMap.mp (whole ▸ sorting.perm.mem_iff.mpr inside)
        exact ⟨file, member, (file.own other among).symm⟩
    · rw [stored, minute_entries ascending, whole]
    · rw [List.flatMap_map]
      exact whole

end Writing

/-- Three changes in two minutes. -/
def twoMinutes : List LogEntry := [⟨120, .node, 4, 1, 7⟩, ⟨60, .way, 2, 1, 7⟩, ⟨60, .node, 3, 2, 7⟩]

theorem writeLogs_splits_two : ∃ w' files minutes, Splits twoMinutes (sortEntries twoMinutes) {} w' files minutes ∧
    sortEntries twoMinutes = [⟨60, .node, 3, 2, 7⟩, ⟨60, .way, 2, 1, 7⟩, ⟨120, .node, 4, 1, 7⟩] := by
  have timed : ∀ entry ∈ twoMinutes, Timed entry := by simp [twoMinutes, Timed]
  obtain ⟨splits, runs⟩ := @writeLogs_splits {} _ _ (sortEntries_sorted twoMinutes) (List.cons_ne_nil _ _) timed
  obtain ⟨w', ends⟩ := runs {} 180 (fun _ => rfl)
  obtain ⟨files, minutes, split⟩ := splits {} 180 w' 180 ends
  exact ⟨w', files, minutes, split, by decide⟩

end FakeLog

end Osmdbt
