import Osmdbt.System.Cycle
import Osmdbt.System.NoLoss
import Osmdbt.Log.Refusal

/-! Nothing is lost and nothing comes twice: what was inserted since the slot was created is
in the published diffs, in the log files that wait for create-diff, or still to be logged. -/

namespace Osmdbt

open General

/-- The transactions that are not in the ledger are behind the slot and all that are in it. A
log file in the ledger is there, or it has been published. -/
structure Ledger.Complete (origin : Nat) (ledger : Ledger) (w : World) : Prop where
  began : origin ≤ w.slot
  reached : Reached origin w w.slot
  known : ∀ name, ∀ commit ∈ ledger name, commit ∈ w.wal ∧ origin < commit.lsn
  recorded : ∀ commit ∈ w.wal, origin < commit.lsn →
    (∃ name, commit ∈ ledger name) ∨ w.slot < commit.lsn ∧ ∀ name, ∀ other ∈ ledger name, other.lsn < commit.lsn
  there : ∀ name, ledger name ≠ [] → (w.get ⟨.log, name⟩).isSome ∨ 0 < w.timesPublished name

namespace Ledger

variable {origin : Nat} {ledger : Ledger} {w w' : World}

namespace Complete

variable (complete : ledger.Complete origin w)
include complete

theorem kept (wal : w'.wal = w.wal) (slot : w'.slot = w.slot)
    (there : ∀ name, ledger name ≠ [] → (w.get ⟨.log, name⟩).isSome ∨ 0 < w.timesPublished name →
      (w'.get ⟨.log, name⟩).isSome ∨ 0 < w'.timesPublished name) : ledger.Complete origin w' where
  began := slot ▸ complete.began
  reached := by
    rw [Reached, wal, slot]
    exact complete.reached
  known := wal ▸ complete.known
  recorded := wal ▸ slot ▸ complete.recorded
  there name used := there name used (complete.there name used)

/-- Nothing that matters to the ledger has changed. -/
theorem untouched {touched : Path → Prop} (same : Untouched touched w w')
    (outside : ∀ name, ledger name ≠ [] → ¬ touched ⟨.log, name⟩) : ledger.Complete origin w' := by
  refine complete.kept same.wal same.slot (fun name used => ?_)
  rw [same.get _ (outside name used), World.timesPublished, World.timesPublished, same.renames]
  exact id

theorem commits (commits : Commits w w') : ledger.Complete origin w' := by
  cases commits with
  | commit commit tables above small =>
    have later {lsn : Nat} (reached : Reached origin w lsn) (after : origin < commit.lsn) : lsn < commit.lsn := by
      rcases reached with early | ⟨other, member, bound⟩
      · omega
      · exact bound.trans_lt (above other member)
    refine ⟨complete.began, ?_, fun name other member => ?_, fun other member after => ?_, complete.there⟩
    · exact complete.reached.imp_right (fun ⟨other, member, bound⟩ => ⟨other, List.mem_append_left _ member, bound⟩)
    · exact ⟨List.mem_append_left _ (complete.known name other member).1, (complete.known name other member).2⟩
    · rcases List.mem_append.mp member with old | new
      · exact complete.recorded other old after
      · obtain rfl := List.mem_singleton.mp new
        exact .inr ⟨later complete.reached after, fun name own inside => above own (complete.known name own inside).1⟩

/-- The slot moves to a transaction of the ledger. -/
theorem advance {lsn : Nat} (target : lsn = 0 ∨ ∃ name, ∃ last ∈ ledger name, last.lsn = lsn) :
    ledger.Complete origin { w with slot := max w.slot lsn } := by
  have below {bound : Nat} (slot : w.slot < bound) (all : ∀ name, ∀ other ∈ ledger name, other.lsn < bound) :
      max w.slot lsn < bound := by
    rcases target with rfl | ⟨name, last, member, rfl⟩
    · rwa [Nat.max_zero]
    · exact max_lt slot (all name last member)
  refine ⟨complete.began.trans (le_max_left _ _), ?_, complete.known, fun commit member after => ?_, complete.there⟩
  · rcases target with rfl | ⟨name, last, member, rfl⟩
    · rw [Nat.max_zero]
      exact complete.reached
    · rcases max_choice w.slot last.lsn with old | new
      · rw [old]
        exact complete.reached
      · rw [new]
        exact .inr ⟨last, (complete.known name last member).1, le_rfl⟩
  · exact (complete.recorded commit member after).imp_right (fun ⟨slot, all⟩ => ⟨below slot all, all⟩)

/-- A new log file with the first pending transactions. -/
theorem arrive (files : ledger.Files w) {sent : List Commit} (front : sent <+: w.pending) {name : Text}
    (free : ledger name = [])
    (content : Content) : Ledger.Complete origin (Function.update ledger name sent)
      (w.rename (newLog name) ⟨.log, name⟩ content) := by
  obtain ⟨rest, split⟩ := front
  have sorted : (sent ++ rest).Pairwise (fun a b => a.lsn < b.lsn) := split ▸ files.streams.order.filter _
  have pending {commit : Commit} : commit ∈ sent ∨ commit ∈ rest ↔ commit ∈ w.wal ∧ w.slot < commit.lsn := by
    rw [← List.mem_append, split, World.pending, List.mem_filter, decide_eq_true_iff]
  refine ⟨complete.began, complete.reached, fun own commit member => ?_, fun commit member after => ?_,
    fun own used => ?_⟩
  · by_cases same : own = name
    · rw [same, Function.update_self] at member
      obtain ⟨committed, later⟩ := pending.mp (.inl member)
      exact ⟨committed, complete.began.trans_lt later⟩
    · rw [Function.update_of_ne same] at member
      exact complete.known own commit member
  · rcases complete.recorded commit member after with ⟨own, inside⟩ | ⟨later, all⟩
    · have different : own ≠ name := by
        rintro rfl
        rw [free] at inside
        cases inside
      exact .inl ⟨own, by rwa [Function.update_of_ne different]⟩
    rcases pending.mpr ⟨member, later⟩ with here | behind
    · exact .inl ⟨name, by rwa [Function.update_self]⟩
    · refine .inr ⟨later, fun own other inside => ?_⟩
      by_cases same : own = name
      · rw [same, Function.update_self] at inside
        exact (List.pairwise_append.mp sorted).2.2 other inside commit behind
      · rw [Function.update_of_ne same] at inside
        exact all own other inside
  · by_cases same : own = name
    · subst same
      left
      rw [World.get_rename_new]
      rfl
    · rw [Function.update_of_ne same] at used
      have log := (files.named own used).1
      rw [World.get_rename_ne _ _ _ (newLog_ne log name) (fun equal => same (congrArg Path.name equal)),
        timesPublished_rename]
      exact (complete.there own used).imp_right (fun times => Nat.lt_add_right _ times)

/-- A step of create-diff. -/
theorem diffMove {config : Config} {options : CreateDiffOptions} {ready : World × Books → Prop}
    {watch : Books → Text → Prop}
    {books : Books} {plan plan' : Option Plan}
    (move : DiffMove config options ready watch (w, (plan, books)) (w', (plan', books)))
    (named : ∀ name, ledger name ≠ [] → isLog name = true)
    (published : ∀ current, plan = some current → ∀ name ∈ current.published, 0 < w.timesPublished name) :
        ledger.Complete origin w' := by
  have elsewhere {oldName newName : Path} {content : Content} (notOld : oldName.dir ≠ .log)
    (notNew : newName.dir ≠ .log) :
      ledger.Complete origin (w.rename oldName newName content) := by
    refine complete.kept rfl rfl (fun name _ => ?_)
    rw [World.get_rename_ne _ _ _ (by rintro rfl; exact notOld rfl) (by rintro rfl; exact notNew rfl),
      timesPublished_rename]
    exact Or.imp_right (Nat.lt_add_right _)
  cases move with
  | scratch same => exact complete.untouched same (fun name _ inside => scratch_not_log _ inside rfl)
  | lock free prepared here watched => exact complete.untouched (untouched_put _ _ _) (fun name _ => by rintro ⟨⟩)
  | during same held => exact complete.untouched same (fun name _ => by rintro (⟨⟨⟩⟩ | ⟨⟨⟩⟩))
  | moveChange stored => exact elsewhere (by decide) (by rintro ⟨⟩)
  | moveState stored => exact elsewhere (by decide) (by rintro ⟨⟩)
  | moveCopy stored => exact elsewhere (by decide) (by decide)
  | @moveLog _ plan g logFile remaining content stored =>
    refine complete.kept rfl rfl (fun name used there => ?_)
    have times : (w.rename ⟨.log, logFile⟩ (doneFile logFile) content).timesPublished name =
        w.timesPublished name := by
      rw [timesPublished_rename, if_neg (by rintro ⟨⟨⟩, _⟩), Nat.add_zero]
    by_cases same : name = logFile
    · exact .inr (times ▸ published _ rfl name (same ▸ List.mem_cons_self))
    · refine there.imp (fun here => ?_) (fun here => times ▸ here)
      have log := named name used
      change ((w.rename ⟨.log, logFile⟩ (doneFile logFile) content).get ⟨.log, name⟩).isSome
      rwa [World.get_rename_ne _ _ _ (fun equal => same (congrArg Path.name equal)) (doneFile_ne log logFile)]
  | unlock => exact complete.untouched (untouched_drop _ _) (fun name _ => by rintro ⟨⟩)

end Complete

/-- The largest LSN in the names of the log files. -/
theorem Files.listed (files : ledger.Files w) {lsn : Nat}
    (source : lsn = 0 ∨ ∃ name, isLog name = true ∧ (w.get ⟨.log, name⟩).isSome ∧ lsnOfName name = .ok lsn)
    (bound : ∀ name, isLog name = true → (w.get ⟨.log, name⟩).isSome → ∃ own ≤ lsn, lsnOfName name = .ok own) :
    (lsn = 0 ∨ ∃ name, ∃ last ∈ ledger name, last.lsn = lsn) ∧
      ∀ name, ∀ commit ∈ ledger name, w.slot < commit.lsn → commit.lsn ≤ lsn := by
  refine ⟨source.imp_right ?_, fun name commit member later => ?_⟩
  · rintro ⟨name, log, there, named⟩
    obtain ⟨content, stored⟩ := Option.isSome_iff_exists.mp there
    obtain ⟨_, _, entered⟩ := files.file name content log stored
    obtain ⟨_, last, member, own, _⟩ := files.named name entered.used
    exact ⟨name, last, member, Except.ok.inj (own.symm.trans named)⟩
  · obtain ⟨log, last, _, own, largest⟩ := files.named name (List.ne_nil_of_mem member)
    cases stored : w.get ⟨.log, name⟩ with
    | none => exact absurd (files.caught name stored commit member) (not_le.mpr later)
    | some content =>
      obtain ⟨lsn', below, named⟩ := bound name log (by rw [stored]; rfl)
      obtain rfl : last.lsn = lsn' := Except.ok.inj (own.symm.trans named)
      exact (largest commit member).trans below

end Ledger

/-- The log files that create-diff has to publish are known by name. -/
structure Ledger.Found (ledger : Ledger) (watched : Text → Prop) (w : World) : Prop where
  caught : ledger.Caught w
  there : ∀ name, ledger name ≠ [] → 0 < w.timesPublished name ∨ watched name

/-- Something about the ledger that every operation of the programs keeps. -/
structure Upheld (K : Option Plan → Ledger → World → Prop) : Prop where
  kept : ∀ {plan ledger w w'}, w'.wal = w.wal → w'.slot = w.slot → w'.renames = w.renames →
    (∀ name, ledger name ≠ [] → w'.get ⟨.log, name⟩ = w.get ⟨.log, name⟩) → K plan ledger w → K plan ledger w'
  commits : ∀ {plan ledger w w'}, Commits w w' → K plan ledger w → K plan ledger w'
  advance : ∀ {ledger w lsn}, (lsn = 0 ∨ ∃ name, ∃ last ∈ ledger name, last.lsn = lsn) → K none ledger w →
    K none ledger { w with slot := max w.slot lsn }
  arrive : ∀ {ledger w sent name}, Balanced Anyhow ledger none w → sent <+: w.pending → ledger name = [] →
    ∀ content, K none ledger w →
    K none (Function.update ledger name sent) (w.rename (newLog name) ⟨.log, name⟩ content)
  diffMove : ∀ {config ready watch w w' plan plan'} {books : Books},
    (∀ w, ready (w, books) → books.ledger.Found (watch books) w) →
    DiffMove config {} ready watch (w, (plan, books)) (w', (plan', books)) → Balanced Anyhow books.ledger plan w →
    K plan books.ledger w → K plan' books.ledger w'
  stopped : ∀ {plan ledger w}, K plan ledger w → K none ledger w
  there : ∀ {plan ledger w}, K plan ledger w → ∀ name, ledger name ≠ [] → (w.get ⟨.log, name⟩).isSome ∨
    0 < w.timesPublished name

section Account

variable {K : Option Plan → Ledger → World → Prop} {w w' : World}

theorem Upheld.untouched (upheld : Upheld K) {plan : Option Plan} {ledger : Ledger} {touched : Path → Prop}
    (same : Untouched touched w w') (outside : ∀ name, ledger name ≠ [] → ¬ touched ⟨.log, name⟩)
    (here : K plan ledger w) :
    K plan ledger w' :=
  upheld.kept same.wal same.slot same.renames (fun name used => same.get _ (outside name used)) here

variable (K) in
/-- The books are balanced, and what the programs keep holds. -/
def Whole (c : World × (Option Plan × Books)) : Prop := InBalance Anyhow c ∧ K c.2.1 c.2.2.ledger c.1

variable (K) in
def accountRules : Rules (Option Plan × Books) where
  step := Step
  rely c c' := Commits c.1 c'.1 ∧ c'.2 = c.2
  move c c' := Whole K c → Whole K c'

variable (K) in
/-- What the programs keep, and something more. -/
def Recorded (F : Books → World → Prop) (books : Books) (w : World) : Prop := K none books.ledger w ∧ F books w

theorem Resting.whole {F : Books → World → Prop} {c : World × (Option Plan × Books)}
    (resting : Resting Anyhow (Recorded K F) c) :
    Whole K c := by
  obtain ⟨w, plan, books⟩ := c
  obtain rfl : plan = none := resting.idle
  exact ⟨resting.inBalance, resting.fact.1⟩

theorem Resting.known {F F' : Books → World → Prop} {c : World × (Option Plan × Books)}
    (resting : Resting Anyhow (Recorded K F) c)
    (more : F c.2.2 c.1 → F' c.2.2 c.1) : Resting Anyhow (Recorded K F') c :=
      resting.imp (fun here => ⟨here.1, more here.2⟩)

/-- The first pending transactions. -/
def Front (sent : List Commit) (_ : Books) (w : World) : Prop := sent <+: w.pending

theorem steady_front (sent : List Commit) : Steady (Front sent) where
  commits commits here := commits.front here
  untouched same here := by
    rw [Front, pending_same same.wal same.slot]
    exact here

variable (K) in
/-- What get-log knows of the account. -/
def accountStations : LogStations (Option Plan × Books) where
  ready := Resting Anyhow (Recorded K (fun books w => books.ledger.Caught w))
  peeked sent := Resting Anyhow (Recorded K (fun books w => books.ledger.Caught w ∧ Front sent books w))
  writing sent name written := Resting Anyhow
    (Recorded K (fun books w => ((books.ledger.Caught w ∧ Front sent books w) ∧
    ∃ last time, sent.getLast? = some last ∧ name = replicationLogName (lsnStr last.lsn) time) ∧
      w.get (newLog name) = some (.text written)))
  filed sent := Resting Anyhow (Recorded K (fun _ w => ∀ commit ∈ sent, commit ∈ w.wal))
  ended := Resting Anyhow (Recorded K (fun _ _ => True))
  failed := Resting Anyhow (Recorded K (fun _ _ => True))

namespace Upheld

variable (upheld : Upheld K)
include upheld

theorem steady {F : Books → World → Prop} (steady : Steady F) : Steady (Recorded K F) where
  commits commits here := ⟨upheld.commits commits here.1, steady.commits commits here.2⟩
  untouched same here := ⟨upheld.untouched same (fun name _ => by rintro ⟨⟩) here.1, steady.untouched same here.2⟩

theorem quiet {F : Books → World → Prop} (steady : Steady F) :
    Quiet (accountRules K) InRun (Resting Anyhow (Recorded K F)) where
  stable c c' change here := (resting_quiet (upheld.steady steady)).stable c c' change here
  kept w w' t here same := (resting_quiet (upheld.steady steady)).kept w w' t here same
  allowed w w' t here same _ := ((resting_quiet (upheld.steady steady)).kept w w' t here same).whole

theorem put {F F' : Books → World → Prop} {t : Option Plan × Books} {name : Text} {content : Content}
    (resting : Resting Anyhow (Recorded K F) (w, t)) (named : ∀ own, t.2.ledger own ≠ [] → isLog own = true)
    (fact : F t.2 w → F' t.2 (w.put (newLog name) content)) :
    (Whole K (w, t) → Whole K (w.put (newLog name) content, t)) ∧
      Resting Anyhow (Recorded K F') (w.put (newLog name) content, t) := by
  have later : Resting Anyhow (Recorded K F') (w.put (newLog name) content, t) :=
    (resting_put resting (fun here =>
      ⟨upheld.untouched (untouched_put _ _ _) (fun own used => newLog_ne (named own used) name) here.1,
      fact here.2⟩)).2
  exact ⟨fun _ => later.whole, later⟩

private theorem stations_sound {options : GetLogOptions} (waits : options.catchup = false) :
    (accountStations K).Sound (accountRules K) options where
  step := rfl
  ready := upheld.quiet steady_caught
  peeked sent := upheld.quiet (steady_caught.and (steady_front sent))
  writing sent name written := upheld.quiet (((steady_caught.and (steady_front sent)).and Steady.const).and
    (steady_get rfl))
  filed sent := upheld.quiet ⟨fun commits inside commit member => commits.wal commit (inside commit member),
    fun same inside commit member => same.wal ▸ inside commit member⟩
  ended := upheld.quiet Steady.const
  failed := upheld.quiet Steady.const
  readyFails _ here := here.known (fun _ => trivial)
  peekedFails _ _ here := here.known (fun _ => trivial)
  writingFails _ _ _ _ here := here.known (fun _ => trivial)
  filedFails _ _ here := here.known (fun _ => trivial)
  endedFails _ here := here
  small _ _ last here ends := here.balanced.files.streams.small last (here.fact.2 last (List.mem_of_getLast? ends))
  peek := by
    rintro w ⟨plan, books⟩ sent resting taken
    obtain rfl : plan = none := resting.idle
    have balanced : Balanced Anyhow books.ledger none { w with returned := Commit.objects sent } :=
      resting.balanced.kept rfl le_rfl rfl rfl (fun _ _ => ⟨rfl, rfl⟩)
    have recorded : K none books.ledger { w with returned := Commit.objects sent } :=
      upheld.kept (w := w) rfl rfl rfl (fun _ _ => rfl) resting.fact.1
    exact ⟨(none, books), fun _ => ⟨balanced, recorded⟩, rfl, balanced, recorded, resting.fact.2, taken.front⟩
  nothing c here := here.known (fun _ => trivial)
  create w t sent last time ends _ resting free := by
    refine ⟨t, upheld.put resting (fun own used => (resting.balanced.files.named own used).1) (fun fact => ?_)⟩
    exact ⟨⟨fact, last, time, ends, rfl⟩, World.get_put_self _ _ _⟩
  write w t sent name written c stored resting found := by
    obtain rfl : written = stored := by simpa using resting.fact.2.2.symm.trans found
    refine ⟨t, upheld.put resting (fun own used => (resting.balanced.files.named own used).1) (fun fact => ?_)⟩
    exact ⟨fact.1, World.get_put_self _ _ _⟩
  file := by
    rintro w ⟨plan, books⟩ sent name data content resting entries found
    obtain rfl : plan = none := resting.idle
    obtain ⟨recorded, ⟨⟨caught, front⟩, last, time, ends, rfl⟩, stored⟩ := resting.fact
    obtain rfl : content = .text data := Option.some.inj (found.symm.trans stored)
    have files := resting.balanced.files
    have balanced := resting.balanced.arrive caught ends front.sublist entries time
    obtain ⟨committed, later⟩ := List.mem_filter.mp (front.subset (List.mem_of_getLast? ends))
    have free := files.unused caught (by simpa using later) (files.streams.small last committed) time
    have arrived := upheld.arrive resting.balanced front free (.text data) recorded
    refine ⟨(none, ⟨Function.update books.ledger (replicationLogName (lsnStr last.lsn) time) sent, []⟩),
      fun _ => ⟨balanced, arrived⟩, rfl, balanced, arrived, fun commit member => ?_⟩
    exact (List.mem_filter.mp (front.subset member)).1
  skip sent c _ _ here := here.known (fun ⟨_, front⟩ commit member => (List.mem_filter.mp (front.subset member)).1)
  advance catchup := by
    rw [waits] at catchup
    cases catchup
  finish _ _ _ here := here.known (fun _ => trivial)

/-- catchup catches up everything in the ledger. -/
private theorem catchup_kept (config : Config) :
    (accountRules K).Triple (Resting Anyhow (Recorded K (fun _ _ => True)))
    (catchup config 0) (fun _ => Resting Anyhow (Recorded K (fun books w => books.ledger.Caught w)))
    (fun _ => Resting Anyhow (Recorded K (fun _ _ => True))) := by
  have steady (lsn : Nat) : Steady (fun books w => (lsn = 0 ∨ ∃ name, ∃ last ∈ books.ledger name, last.lsn = lsn) ∧
      ∀ name, ∀ commit ∈ books.ledger name, w.slot < commit.lsn → commit.lsn ≤ lsn) := by
    refine Steady.const.and ⟨fun commits here => ?_, fun same here => ?_⟩
    · cases commits with
      | commit => exact here
    · rwa [same.slot]
  refine catchup_triple config (fun lsn => Resting Anyhow (Recorded K (fun books w =>
    (lsn = 0 ∨ ∃ name, ∃ last ∈ books.ledger name, last.lsn = lsn) ∧
      ∀ name, ∀ commit ∈ books.ledger name, w.slot < commit.lsn → commit.lsn ≤ lsn))) rfl (upheld.quiet Steady.const)
    (fun lsn => upheld.quiet (steady lsn)) (upheld.quiet steady_caught) (upheld.quiet Steady.const)
      (fun _ here => here)
    (fun _ _ here => here.known (fun _ => trivial)) (fun _ here => here.known (fun _ => trivial)) ?_ ?_ ?_ ?_
  · exact fun w t lsn resting source bound => resting.known (fun _ => resting.balanced.files.listed source bound)
  · intro lsn c resting
    rcases resting.fact.2.1 with rfl | ⟨name, last, member, rfl⟩
    · exact Nat.two_pow_pos 64
    · have files := resting.balanced.files
      exact files.streams.small last ((files.committed name).subset member)
  · refine fun c resting => resting.known (fun ⟨_, bound⟩ name commit member => ?_)
    by_contra later
    have below := bound name commit member (not_le.mp later)
    omega
  · rintro w ⟨plan, books⟩ lsn _ resting
    obtain rfl : plan = none := resting.idle
    obtain ⟨recorded, target, bound⟩ := resting.fact
    have balanced : Balanced Anyhow books.ledger none { w with slot := max w.slot lsn } :=
      resting.balanced.kept rfl (le_max_left _ _) rfl rfl (fun _ _ => ⟨rfl, rfl⟩)
    have advanced := upheld.advance target recorded
    refine ⟨(none, books), fun _ => ⟨balanced, advanced⟩, rfl, balanced, advanced, fun name commit member => ?_⟩
    by_cases later : w.slot < commit.lsn
    · exact (bound name commit member later).trans (le_max_right _ _)
    · exact (not_lt.mp later).trans (le_max_left _ _)

theorem whole_commits {t : Option Plan × Books} (whole : Whole K (w, t)) (commits : Commits w w') : Whole K (w', t) :=
  ⟨whole.1.commits commits, upheld.commits commits whole.2⟩

variable {config : Config}

private theorem whole_move {ready : World × Books → Prop} {watched : Text → Prop}
    (found : ∀ w books, ready (w, books) → books.ledger.Found watched w) {c c' : World × (Option Plan × Books)}
    (whole : Whole K c)
    (move : DiffMove config {} ready (fun _ => watched) c c') : Whole K c' := by
  have same := move.ghost
  obtain ⟨w, plan, books⟩ := c
  obtain ⟨w', plan', books'⟩ := c'
  obtain rfl : books = books' := same.symm
  have balanced : Balanced Anyhow books.ledger plan w := whole.1
  exact ⟨balanced.diffMove rfl (fun w books here => (found w books here).caught) (fun _ _ _ _ _ _ => trivial) move,
    upheld.diffMove (fun w here => found w books here) move balanced whole.2⟩

private theorem createDiff_kept : (accountRules K).Triple
    (Resting Anyhow (Recorded K (fun books w => books.ledger.Caught w))) (createDiff config {})
    (fun _ => Whole K) (fun _ => Whole K) := by
  rintro ⟨w, plan, books⟩ resting
  obtain rfl : plan = none := resting.idle
  -- the log files that are there now will be published
  let watched (name : Text) : Prop := isLog name = true ∧ (w.get ⟨.log, name⟩).isSome
  let ready : World × Books → Prop := fun c => c.2.ledger.Found watched c.1
  let alone : Rules (Option Plan × Books) :=
    { step := Step, rely := fun c c' => Commits c.1 c'.1 ∧ c'.2 = c.2,
      move := DiffMove config {} ready (fun _ => watched) }
  have rules : Ready ready :=
    ⟨fun others here => ⟨fun name commit member => others.slot ▸ here.caught name commit member,
      fun name used => (here.there name used).imp_left (fun times => by rwa [World.timesPublished, others.renames])⟩,
      fun kept here => ⟨fun name commit member => kept.slot ▸ here.caught name commit member,
      fun name used => (here.there name used).imp_left (fun times => by rwa [World.timesPublished, kept.renames])⟩⟩
  have found : books.ledger.Found watched w := by
    refine ⟨resting.fact.2, fun name used => ?_⟩
    exact (upheld.there resting.fact.1 name used).symm.imp_right
      (fun there => ⟨(resting.balanced.files.named name used).1, there⟩)
  have before : Before ready (fun _ => watched) books (fun _ => True) (w, (none, books)) :=
    ⟨rfl, found, fun _ => id, trivial⟩
  have safe : alone.Safe (fun _ => Ended) (fun _ => Ended) (createDiff config {}) (w, (none, books)) :=
    Discipline.Safe.mono (D := diffRules config {} ready (fun _ => watched)) (fun _ _ _ _ done => done)
      (fun _ _ change => ⟨change.1.aside.2, change.2⟩) (fun _ _ move => move)
      (createDiff_triple config {} (fun _ => watched) rules books _ before)
  have stable : alone.Stable (Whole K) := by
    rintro ⟨w, t⟩ ⟨w', _⟩ ⟨commits, rfl⟩ whole
    exact upheld.whole_commits whole commits
  have moved {c c' : World × (Option Plan × Books)} (whole : Whole K c)
    (move : DiffMove config {} ready (fun _ => watched) c c') :
      Whole K c' := upheld.whole_move (fun _ _ here => here) whole move
  have also := safe.also stable (fun _ _ => moved) resting.whole
  have kept : (accountRules K).Safe (fun _ c => Ended c ∧ Whole K c) (fun _ c => Ended c ∧ Whole K c)
      (createDiff config {}) (w, (none, books)) :=
    Discipline.Safe.mono (D := alone) (fun _ _ _ _ done => done) (fun _ _ change => change)
      (fun _ _ move whole => moved whole move) also
  exact kept.weaken (fun _ _ ended => ended.2) (fun _ _ ended => ended.2)

private theorem script_kept : (accountRules K).Triple (Resting Anyhow (Recorded K (fun _ _ => True))) (script config)
    (fun _ => Whole K) (fun _ => Whole K) := by
  have caught := (upheld.catchup_kept config).weaken (fun _ => id) (fun _ _ => id)
    (fun _ _ (here : Resting Anyhow (Recorded K (fun _ _ => True)) _) => here.whole)
  have waits : GetLogOptions.catchup {} = false := rfl
  have logged := (getLog_triple (upheld.stations_sound waits) config).weaken (fun _ => id) (fun _ _ => id)
    (fun _ _ (here : Resting Anyhow (Recorded K (fun _ _ => True)) _) => here.whole)
  unfold script
  exact caught.bind (fun _ => logged.bind (fun _ => caught.bind (fun _ => upheld.createDiff_kept)))

/-- What holds while the script runs, is stopped and starts again. -/
theorem cycle_kept {start current : World × Option (Prog Unit)}
    (initial : Sequential.Holds (accountRules K) (fun _ => Whole K) (fun _ => Whole K)
      (Resting Anyhow (Recorded K (fun _ _ => True))) (Whole K) start)
    (reached : Relation.ReflTransGen (Sequential Step Commits (Cycle config)) start current) :
    Sequential.Holds (accountRules K) (fun _ => Whole K) (fun _ => Whole K)
      (Resting Anyhow (Recorded K (fun _ _ => True))) (Whole K) current := by
  have quiet : Quiet (accountRules K) InRun (Resting Anyhow (Recorded K (fun _ _ => True))) :=
    upheld.quiet Steady.const
  refine Sequential.invariant (D := accountRules K) ?_ ?_ ?_ ?_ ?_ initial reached
  · exact fun w w' t resting commits => ⟨t, quiet.stable (w, t) (w', t) ⟨commits, rfl⟩ resting⟩
  · exact fun w w' t whole commits => ⟨t, ⟨commits, rfl⟩, upheld.whole_commits whole commits⟩
  · rintro w program w' t resting ⟨rfl, same⟩
    have here := quiet.kept w w' t resting same
    exact ⟨t, here.whole, upheld.script_kept _ here⟩
  · exact fun c c' whole move => move whole
  · rintro w ⟨plan, books⟩ ⟨balanced, recorded⟩
    have ended : plan = none ∨ (w.get lockFile).isSome := by
      cases plan with
      | none => exact .inl rfl
      | some plan => exact .inr balanced.once.1
    exact ⟨(none, books), rfl, balanced.idle ended, upheld.stopped recorded, trivial⟩

/-- Everything that is kept holds after any number of runs. -/
theorem reached {start : World} {current : World × Option (Prog Unit)} (fresh : NothingWritten start)
    (initial : K none (fun _ => []) start)
    (reached : Relation.ReflTransGen (Sequential Step Commits (Cycle config)) (start, none) current) :
    ∃ plan ledger, Balanced Anyhow ledger plan current.1 ∧ K plan ledger current.1 := by
  have started : ∃ t, Resting Anyhow (Recorded K (fun _ _ => True)) (start, t) :=
    ⟨(none, ⟨fun _ => [], []⟩), rfl, fresh.balanced, initial, trivial⟩
  have kept := @cycle_kept K upheld config (start, none) current started reached
  obtain ⟨w, none | program⟩ := current
  · obtain ⟨⟨plan, books⟩, resting⟩ := kept
    exact ⟨plan, books.ledger, resting.whole⟩
  · obtain ⟨⟨plan, books⟩, whole, _⟩ := kept
    exact ⟨plan, books.ledger, whole⟩

end Upheld

end Account

/-- The log files of a published diff, name and data. -/
def Rename.sources (moved : Rename) : List (Text × Text) :=
  match moved.newName.dir, moved.content with
  | .changes, .osc sources _ => sources
  | _, _ => []

def World.publishedLogs (w : World) : List (Text × Text) := w.renames.flatMap Rename.sources

/-- The log files that have not been published yet. -/
def World.waitingLogs (w : World) : List (Text × Text) :=
  (w.names .log).filterMap (fun name =>
    match w.get ⟨.log, name⟩ with
    | some (.text data) => if isLog name ∧ w.timesPublished name = 0 then some (name, data) else none
    | _ => none)

/-- What create-diff has moved counts as published. -/
theorem Balanced.counted {ledger : Ledger} {plan : Plan} {w : World}
    (balanced : Balanced Anyhow ledger (some plan) w) {name : Text}
    (inside : name ∈ plan.published) : 0 < w.timesPublished name := by
  obtain ⟨_, files⟩ : (w.get lockFile).isSome ∧ LogFiles (fun _ => False) plan.published plan.waiting
    w := balanced.once
  have count := (files.account name (files.there name (plan.published_waiting inside)).1).count
  rw [if_pos inside] at count
  omega

section Whereabouts

variable {origin : Nat} {w : World} {ledger : Ledger} {plan : Option Plan}

theorem Rename.sources_names (moved : Rename) : moved.sources.map Prod.fst = moved.logs := by
  unfold Rename.sources Rename.logs
  split
  · rename_i sources _ changes content
    rw [if_pos changes, content]
    rfl
  · rename_i other
    split
    · rename_i changes
      cases content : moved.content with
      | text data => rfl
      | osc sources objects => exact (other sources objects changes content).elim
    · rfl

theorem World.publishedLogs_names (w : World) : w.publishedLogs.map Prod.fst = w.renames.flatMap Rename.logs := by
  rw [World.publishedLogs, List.map_flatMap]
  exact List.flatMap_congr (fun moved _ => moved.sources_names)

theorem World.mem_publishedLogs {name : Text} : name ∈ w.publishedLogs.map Prod.fst ↔ 0 < w.timesPublished name := by
  rw [World.publishedLogs_names, List.mem_flatMap, World.timesPublished, List.countP_pos_iff]
  refine exists_congr (fun moved => and_congr_right (fun _ => ?_))
  by_cases changes : moved.newName.dir = .changes <;> simp [Rename.logs, Rename.publishes, changes]

theorem World.mem_waitingLogs {log : Text × Text} : log ∈ w.waitingLogs ↔
    isLog log.1 = true ∧ w.get ⟨.log, log.1⟩ = some (.text log.2) ∧ w.timesPublished log.1 = 0 := by
  obtain ⟨name, data⟩ := log
  unfold World.waitingLogs
  rw [List.mem_filterMap]
  constructor
  · rintro ⟨own, _, found⟩
    split at found
    · rename_i stored here
      split at found
      · rename_i fits
        obtain ⟨rfl, rfl⟩ := Prod.mk.inj (Option.some.inj found)
        exact ⟨fits.1, here, fits.2⟩
      · cases found
    · cases found
  · rintro ⟨log, stored, unpublished⟩
    refine ⟨name, (w.mem_names .log name).mpr (by rw [stored]; rfl), ?_⟩
    dsimp only at stored unpublished
    rw [stored]
    exact if_pos ⟨log, unpublished⟩

theorem World.waitingLogs_distinct (w : World) : (w.waitingLogs.map Prod.fst).Nodup := by
  have own {name : Text} {log : Text × Text} (found : log ∈ (match w.get ⟨.log, name⟩ with
      | some (.text data) => if isLog name ∧ w.timesPublished name = 0 then some (name, data) else none
      | _ => none)) : log.1 = name := by
    split at found
    · split at found
      · exact (congrArg Prod.fst (Option.some.inj found)).symm
      · cases found
    · cases found
  refine List.Nodup.map_on (fun log member other member' same => ?_)
    (List.Nodup.filterMap (fun name name' log here there => ?_) ?_)
  · have stored := (World.mem_waitingLogs.mp member).2.1
    have stored' := (World.mem_waitingLogs.mp member').2.1
    rw [same] at stored
    exact Prod.ext same (Content.text.inj (Option.some.inj (stored.symm.trans stored')))
  · exact (own here).symm.trans (own there)
  · exact List.nodup_dedup _

theorem Balanced.published_entered (balanced : Balanced Anyhow ledger plan w) :
    ∀ log ∈ w.publishedLogs, ledger.Entered log := by
  intro log member
  obtain ⟨moved, inside, among⟩ := List.mem_flatMap.mp member
  unfold Rename.sources at among
  split at among
  · rename_i sources objects changes content
    exact (balanced.diffs moved inside changes sources objects content).entered log among
  · cases among

theorem Balanced.waiting_entered (balanced : Balanced Anyhow ledger plan w) :
    ∀ log ∈ w.waitingLogs, ledger.Entered log := by
  rintro ⟨name, data⟩ member
  obtain ⟨log, stored, _⟩ := World.mem_waitingLogs.mp member
  obtain ⟨data', text, entered⟩ := balanced.files.file name _ log stored
  obtain rfl : data = data' := Content.text.inj text
  exact entered

theorem Ledger.Files.getLsn (files : ledger.Files w) : ∃ lsn, getLsn (w.names .log) = .ok lsn := by
  refine (getLsn_cases (w.names .log)).resolve_right ?_
  rintro ⟨name, member, log, fault, wrong, _⟩
  obtain ⟨content, stored⟩ := Option.isSome_iff_exists.mp ((w.mem_names .log name).mp member)
  obtain ⟨_, _, entered⟩ := files.file name content log stored
  obtain ⟨_, last, _, own, _⟩ := files.named name entered.used
  cases own.symm.trans wrong

/-- Every transaction is in the ledger under a name that is published or waits, or behind all log files. -/
theorem Ledger.Complete.accounts (complete : ledger.Complete origin w)
    (balanced : Balanced Anyhow ledger plan w) {lsn : Nat}
    (newest : getLsn (w.names .log) = .ok lsn) :
    (w.wal.filter (fun commit => origin < commit.lsn)).Perm
      (((w.publishedLogs.map Prod.fst).flatMap ledger ++ (w.waitingLogs.map Prod.fst).flatMap ledger) ++
        w.wal.filter (fun commit => max w.slot lsn < commit.lsn)) := by
  have files := balanced.files
  obtain ⟨source, bound⟩ := getLsn_spec newest
  have found : lsn = 0 ∨ ∃ name, isLog name = true ∧ (w.get ⟨.log, name⟩).isSome ∧ lsnOfName name = .ok lsn :=
    source.imp_right (fun ⟨name, member, log, own⟩ => ⟨name, log, (w.mem_names .log name).mp member, own⟩)
  obtain ⟨target, below⟩ := files.listed found (fun name log there =>
    bound name ((w.mem_names .log name).mpr there) log)
  have wal : w.wal.Nodup := files.streams.order.imp (fun less same => less.ne (congrArg Commit.lsn same))
  have logged {name : Text} {commit : Commit} (member : commit ∈ ledger name) : commit.lsn ≤ max w.slot lsn := by
    by_cases later : w.slot < commit.lsn
    · exact (below name commit member later).trans (le_max_right _ _)
    · exact (not_lt.mp later).trans (le_max_left _ _)
  have placed {name : Text} (used : ledger name ≠ []) :
      name ∈ w.publishedLogs.map Prod.fst ++ w.waitingLogs.map Prod.fst := by
    rw [List.mem_append, World.mem_publishedLogs]
    by_cases times : 0 < w.timesPublished name
    · exact .inl times
    obtain ⟨content, stored⟩ := Option.isSome_iff_exists.mp ((complete.there name used).resolve_right times)
    have log := (files.named name used).1
    obtain ⟨data, rfl, _⟩ := files.file name content log stored
    exact .inr (List.mem_map.mpr ⟨(name, data), World.mem_waitingLogs.mpr
      ⟨log, stored, Nat.eq_zero_of_not_pos times⟩, rfl⟩)
  have distinct : (w.publishedLogs.map Prod.fst ++ w.waitingLogs.map Prod.fst).Nodup := by
    refine List.nodup_append'.mpr ⟨w.publishedLogs_names ▸ balanced.distinct, w.waitingLogs_distinct,
      fun name published waiting => ?_⟩
    obtain ⟨log, member, rfl⟩ := List.mem_map.mp waiting
    have times := World.mem_publishedLogs.mp published
    rw [(World.mem_waitingLogs.mp member).2.2] at times
    exact times.false
  rw [← List.flatMap_append]
  refine (List.perm_ext_iff_of_nodup (wal.filter _) ?_).mpr (fun commit => ?_)
  · refine List.nodup_append'.mpr ⟨List.nodup_flatMap.mpr ⟨fun name _ => (files.committed name).nodup wal, ?_⟩,
      wal.filter _, ?_⟩
    · exact distinct.imp (fun different => files.apart _ _ different)
    · intro commit inside rest
      obtain ⟨name, _, member⟩ := List.mem_flatMap.mp inside
      have later := (List.mem_filter.mp rest).2
      exact absurd (logged member) (not_le.mpr (by simpa using later))
  · rw [List.mem_append, List.mem_flatMap, List.mem_filter, List.mem_filter, decide_eq_true_iff, decide_eq_true_iff]
    constructor
    · rintro ⟨member, after⟩
      rcases complete.recorded commit member after with ⟨name, inside⟩ | ⟨slot, all⟩
      · exact .inl ⟨name, placed (List.ne_nil_of_mem inside), inside⟩
      · refine .inr ⟨member, max_lt slot ?_⟩
        rcases target with rfl | ⟨name, last, inside, rfl⟩
        · exact (Nat.zero_le _).trans_lt after
        · exact all name last inside
    · rintro (⟨name, _, inside⟩ | ⟨member, later⟩)
      · exact complete.known name commit inside
      · exact ⟨member, complete.began.trans_lt ((le_max_left _ _).trans_lt later)⟩

end Whereabouts

theorem complete_upheld (origin : Nat) : Upheld (fun _ ledger w => ledger.Complete origin w) where
  kept wal slot renames logs here := here.kept wal slot (fun name used => by
    rw [logs name used, World.timesPublished, World.timesPublished, renames]
    exact id)
  commits commits here := here.commits commits
  advance target here := here.advance target
  arrive balanced front free content here := here.arrive balanced.files front free content
  diffMove _ move balanced here := by
    refine here.diffMove move (fun name used => (balanced.files.named name used).1)
      (fun current running name inside => ?_)
    subst running
    exact balanced.counted inside
  stopped here := here
  there here := here.there

theorem NothingWritten.complete {w : World} : Ledger.Complete w.slot (fun _ => []) w where
  began := le_rfl
  reached := .inl le_rfl
  known _ _ none := absurd none List.not_mem_nil
  recorded _ _ after := .inr ⟨after, fun _ _ none => absurd none List.not_mem_nil⟩
  there _ used := absurd rfl used

/-- Over any number of runs of the script, stopped anywhere: what was inserted since the slot was created
is what the published diffs were made from, what waits in log files and what is still to be logged. -/
theorem cycle_conserves (config : Config) {start : World} {current : World × Option (Prog Unit)}
    (fresh : NothingWritten start)
    (reached : Relation.ReflTransGen (Sequential Step Commits (Cycle config)) (start, none) current) :
    ∃ lsn published waiting, getLsn (current.1.names .log) = .ok lsn ∧
      readEntries (current.1.publishedLogs.map Prod.snd) = .ok published ∧
      readEntries (current.1.waitingLogs.map Prod.snd) = .ok waiting ∧
      (Commit.objects (current.1.wal.filter (fun commit => start.slot < commit.lsn))).Perm
        (published ++ waiting ++ Commit.objects
          (current.1.wal.filter (fun commit => max current.1.slot lsn < commit.lsn))) := by
  obtain ⟨plan, ledger, balanced, complete⟩ := (complete_upheld start.slot).reached fresh
    NothingWritten.complete reached
  obtain ⟨lsn, newest⟩ := balanced.files.getLsn
  refine ⟨lsn, _, _, newest, readEntries_entered balanced.published_entered,
    readEntries_entered balanced.waiting_entered, ?_⟩
  rw [← objects_append, ← objects_append]
  exact (complete.accounts balanced newest).flatMap_right _

/-- One run of the script that publishes a node. -/
theorem cycle_conserves_node : firstPublished.diffs.map (fun objects => objects.keys .node) = [[⟨1, 1⟩]] ∧
    ∃ lsn published waiting, getLsn (firstPublished.names .log) = .ok lsn ∧
      readEntries (firstPublished.publishedLogs.map Prod.snd) = .ok published ∧
      readEntries (firstPublished.waitingLogs.map Prod.snd) = .ok waiting ∧
      (Commit.objects (firstPublished.wal.filter (fun commit => firstChange.slot < commit.lsn))).Perm
        (published ++ waiting ++ Commit.objects
          (firstPublished.wal.filter (fun commit => max firstPublished.slot lsn < commit.lsn))) := by
  have reached : Relation.ReflTransGen (Sequential Step Commits (Cycle {})) (firstChange, none)
      (firstPublished, none) :=
    Program.Visits.stopped ⟨rfl, Untouched.refl _⟩ firstCycle_visits
  have conserved := @cycle_conserves {} firstChange (firstPublished, none) firstChange_fresh reached
  dsimp only at conserved
  exact ⟨firstLogged_published.2.2.2.2.2, conserved⟩

end Osmdbt
