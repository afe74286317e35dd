import SocketPractice.Lib.Runs
import SocketPractice.Lib.Stdio

/-!
# The log files (`lib_dbgout/src/dbgout.c`)

A message is written to the stream of a `LogOp`, which `LogFileFopen` opens if there is
none; after `InitLogFile` the next message, of whichever `LogOp`, starts with an empty
file.  Neither `fopen` nor `freopen` is expected to fail: the stream is written to
whatever they return.  A run is thus free of misuse exactly if every file that a message
needs can be opened.
-/

namespace SocketPractice.LibDbgout

open Lib.Memory Lib.Runs Lib.Stdio

/-! ## 1. The code -/

inductive LogType where
  | ALWAYS_OPEN
  | OPEN_EVERY_TIME_WRITE
deriving DecidableEq, Repr

structure LogOp where
  logType : LogType
  logFp : Ptr
  filePath : String
deriving DecidableEq

/-- The flag of the module, and the streams that are open. -/
structure Globals where
  initLogFile : Bool
  streams : Streams String

/-- What `fopen` and `freopen` return where they are called: a stream, and whether it is
    open again. -/
structure Answers where
  fopen : Ptr
  freopen : Bool
deriving DecidableEq

def initLogFile (g : Globals) : Globals := { g with initLogFile := true }

/-- The first half of `LogFileFopen`. -/
def openLogFp (g : Globals) (logOp : LogOp) (answers : Answers) : Globals × LogOp :=
  if logOp.logFp = none then
    ({ g with streams := g.streams.fopen logOp.filePath answers.fopen },
      { logOp with logFp := answers.fopen })
  else (g, logOp)

/-- The second half: what `freopen` returns is not looked at. -/
def truncateLogFp (g : Globals) (logOp : LogOp) (answers : Answers) : Option Globals :=
  if g.initLogFile then do
    let streams ← g.streams.freopen logOp.filePath logOp.logFp answers.freopen
    some { initLogFile := false, streams := streams }
  else some g

def logFileFopen (g : Globals) (logOp : LogOp) (answers : Answers) : Option (Globals × LogOp) := do
  let (g, logOp) := openLogFp g logOp answers
  let g ← truncateLogFp g logOp answers
  some (g, logOp)

def logFileFclose (g : Globals) (logOp : LogOp) : Option (Globals × LogOp) :=
  if logOp.logFp ≠ none then do
    let streams ← g.streams.fclose logOp.logFp
    some ({ g with streams := streams }, { logOp with logFp := none })
  else some (g, logOp)

/-- The macro: `fprintf`, whether it succeeds or not, and `fflush`. -/
def FPRINTF (g : Globals) (fp : Ptr) : Option Unit := do
  g.streams.write fp
  g.streams.write fp

/-- `_dbgout`, as far as the streams go. -/
def dbgout (g : Globals) (logOp : LogOp) (answers : Answers) : Option (Globals × LogOp) :=
  match logOp.logType with
  | .ALWAYS_OPEN => do
      let (g, logOp) ← logFileFopen g logOp answers
      FPRINTF g logOp.logFp
      some (g, logOp)
  | .OPEN_EVERY_TIME_WRITE => do
      let (g, logOp) ← logFileFopen g logOp answers
      FPRINTF g logOp.logFp
      logFileFclose g logOp

/-! ## 2. One message -/

/-- Between messages a stream that is open belongs to a `LogOp` which keeps it, and is
    open for its file. -/
def Kept (g : Globals) (logOp : LogOp) : Prop :=
  ∀ a, logOp.logFp = some a → logOp.logType = .ALWAYS_OPEN ∧ g.streams a = some logOp.filePath

/-- The files that a message needs can be opened. -/
def FilesOpen (g : Globals) (logOp : LogOp) (answers : Answers) : Prop :=
  (logOp.logFp = none → answers.fopen ≠ none) ∧ (g.initLogFile = true → answers.freopen = true)

instance (g : Globals) (logOp : LogOp) (answers : Answers) :
    Decidable (FilesOpen g logOp answers) := by
  unfold FilesOpen
  infer_instance

/-- No stream is closed or given another file. -/
def Extends (m m' : Streams String) : Prop := ∀ a file, m a = some file → m' a = some file

theorem Extends.fopen {m : Streams String} {a : Addr} (ha : m a = none) (file : String) :
    Extends m (m.fopen file (some a)) := by
  intro b old hb
  rw [Streams.fopen_some, Function.update_of_ne (Store.ne_of_none_of_some ha hb).symm, hb]

theorem Kept.mono {g g' : Globals} {logOp : LogOp} (h : Kept g logOp)
    (hext : Extends g.streams g'.streams) : Kept g' logOp := by
  intro a ha
  exact ⟨(h a ha).1, hext a _ (h a ha).2⟩

section Message

variable {g : Globals} {logOp : LogOp} {answers : Answers}

/-- The stream after the first half; it is `NULL` only if `fopen` was called and failed. -/
theorem openLogFp_eq (hkept : Kept g logOp) (hfresh : g.streams.mayReturn answers.fopen = true) :
    ∃ streams fp, openLogFp g logOp answers =
        (⟨g.initLogFile, streams⟩, { logOp with logFp := fp }) ∧
      Extends g.streams streams ∧ (fp = none ↔ logOp.logFp = none ∧ answers.fopen = none) ∧
      ∀ a, fp = some a →
        streams a = some logOp.filePath ∧ (logOp.logFp = none → g.streams a = none) := by
  by_cases hfp : logOp.logFp = none
  · refine ⟨g.streams.fopen logOp.filePath answers.fopen, answers.fopen, ?_, ?_, by simp [hfp], ?_⟩
    · rw [openLogFp, if_pos hfp]
    · rcases hanswer : answers.fopen with _ | a
      · exact fun b file hb => hb
      · rw [hanswer, Store.mayReturn_some] at hfresh
        exact .fopen hfresh _
    · intro a ha
      rw [ha, Store.mayReturn_some] at hfresh
      exact ⟨by simp [ha], fun _ => hfresh⟩
  · refine ⟨g.streams, logOp.logFp, ?_, fun b file hb => hb, by simp [hfp], ?_⟩
    · rw [openLogFp, if_neg hfp]
    · intro a ha
      exact ⟨(hkept a ha).2, fun hnone => absurd hnone hfp⟩

theorem truncateLogFp_of_open {a : Addr} (hfp : logOp.logFp = some a)
    (hopen : g.streams a = some logOp.filePath)
    (hreopen : g.initLogFile = true → answers.freopen = true) :
    truncateLogFp g logOp answers = some ⟨false, g.streams⟩ := by
  cases hflag : g.initLogFile
  · simp only [truncateLogFp, hflag, Bool.false_eq_true, if_false]
    rw [← hflag]
  · simp [truncateLogFp, hflag, hfp, hreopen hflag, Streams.freopen_same hopen]

/-- With `NULL`, or if the stream cannot be opened again, what follows is a fault. -/
theorem truncateLogFp_fault
    (hbad : logOp.logFp = none ∨ g.initLogFile = true ∧ answers.freopen = false) :
    truncateLogFp g logOp answers = none ∨
      ∃ g', truncateLogFp g logOp answers = some g' ∧ FPRINTF g' logOp.logFp = none := by
  cases hflag : g.initLogFile
  · obtain hnull : logOp.logFp = none := by simpa [hflag] using hbad
    exact .inr ⟨g, by simp [truncateLogFp, hflag], by simp [FPRINTF, hnull]⟩
  · rcases hfp : logOp.logFp with _ | a
    · exact .inl (by simp [truncateLogFp, hflag, hfp])
    · obtain hreopen : answers.freopen = false := by simpa [hflag, hfp] using hbad
      rcases hopen : g.streams a with _ | file
      · exact .inl (by simp [truncateLogFp, hflag, hfp, Streams.freopen, hopen])
      · refine .inr ⟨⟨false, Function.update g.streams a none⟩, ?_, by simp [FPRINTF]⟩
        simp [truncateLogFp, hflag, hfp, hreopen, Streams.freopen_eq hopen]

/-- If the files can be opened, `LogFileFopen` leaves an open stream; one that is new was
    not open before. -/
theorem logFileFopen_of_filesOpen (hkept : Kept g logOp)
    (hfresh : g.streams.mayReturn answers.fopen = true) (hfiles : FilesOpen g logOp answers) :
    ∃ a streams, logFileFopen g logOp answers =
        some (⟨false, streams⟩, { logOp with logFp := some a }) ∧
      streams a = some logOp.filePath ∧ Extends g.streams streams ∧
      (logOp.logFp = none → g.streams a = none) := by
  obtain ⟨streams, fp, hhalf, hext, hnull, hstream⟩ := openLogFp_eq hkept hfresh
  obtain ⟨a, rfl⟩ : ∃ a, fp = some a := by
    apply Option.ne_none_iff_exists'.mp
    intro hnone
    obtain ⟨hfp, hanswer⟩ := hnull.mp hnone
    exact hfiles.1 hfp hanswer
  obtain ⟨hopen, hnew⟩ := hstream a rfl
  have htruncate : truncateLogFp ⟨g.initLogFile, streams⟩ { logOp with logFp := some a } answers =
      some ⟨false, streams⟩ := truncateLogFp_of_open rfl hopen hfiles.2
  refine ⟨a, streams, ?_, hopen, hext, hnew⟩
  simp only [logFileFopen, hhalf, htruncate]
  rfl

/-- If not, it uses `NULL`, or what it leaves cannot be written to. -/
theorem logFileFopen_fault (hkept : Kept g logOp)
    (hfresh : g.streams.mayReturn answers.fopen = true) (hfiles : ¬ FilesOpen g logOp answers) :
    logFileFopen g logOp answers = none ∨
      ∃ g' logOp', logFileFopen g logOp answers = some (g', logOp') ∧
        FPRINTF g' logOp'.logFp = none := by
  obtain ⟨streams, fp, hhalf, -, hnull, -⟩ := openLogFp_eq hkept hfresh
  have hbad : fp = none ∨ g.initLogFile = true ∧ answers.freopen = false := by
    rw [hnull]
    rcases Decidable.not_and_iff_or_not.mp hfiles with hfopen | hfreopen
    · exact .inl (by simpa using hfopen)
    · exact .inr (by simpa using hfreopen)
  have hfault : truncateLogFp ⟨g.initLogFile, streams⟩ { logOp with logFp := fp } answers = none ∨
      ∃ g', truncateLogFp ⟨g.initLogFile, streams⟩ { logOp with logFp := fp } answers = some g' ∧
        FPRINTF g' fp = none := truncateLogFp_fault hbad
  rcases hfault with hnone | ⟨g', hg', hwrite⟩
  · left
    simp only [logFileFopen, hhalf, hnone]
    rfl
  · refine .inr ⟨g', { logOp with logFp := fp }, ?_, hwrite⟩
    simp only [logFileFopen, hhalf, hg']
    rfl

/-- A message whose files can be opened closes what it opened for itself, and nothing
    that was open before. -/
theorem dbgout_of_filesOpen (hkept : Kept g logOp)
    (hfresh : g.streams.mayReturn answers.fopen = true) (hfiles : FilesOpen g logOp answers) :
    ∃ g' fp, dbgout g logOp answers = some (g', { logOp with logFp := fp }) ∧
      Kept g' { logOp with logFp := fp } ∧ Extends g.streams g'.streams := by
  obtain ⟨a, streams, hfopen, hopen, hext, hnew⟩ :=
    logFileFopen_of_filesOpen hkept hfresh hfiles
  have hwrite : FPRINTF ⟨false, streams⟩ (some a) = some () := by simp [FPRINTF, hopen]
  cases htype : logOp.logType with
  | ALWAYS_OPEN =>
      refine ⟨⟨false, streams⟩, some a, ?_, ?_, hext⟩
      · simp [dbgout, htype, hfopen, hwrite]
      · rintro b hb
        obtain rfl : a = b := Option.some.inj hb
        exact ⟨rfl, hopen⟩
  | OPEN_EVERY_TIME_WRITE =>
      have hnull : logOp.logFp = none := by
        rw [Option.eq_none_iff_forall_ne_some]
        intro b hb
        have hkeeps := (hkept b hb).1
        rw [htype] at hkeeps
        cases hkeeps
      refine ⟨⟨false, Function.update streams a none⟩, none, ?_, ?_, ?_⟩
      · simp [dbgout, htype, hfopen, hwrite, logFileFclose, Streams.fclose_eq hopen]
      · intro b hb
        cases hb
      · intro b file hb
        have hne : b ≠ a := (Store.ne_of_none_of_some (hnew hnull) hb).symm
        show Function.update streams a none b = some file
        rw [Function.update_of_ne hne]
        exact hext b file hb

theorem dbgout_fault (hkept : Kept g logOp)
    (hfresh : g.streams.mayReturn answers.fopen = true) (hfiles : ¬ FilesOpen g logOp answers) :
    dbgout g logOp answers = none := by
  rcases logFileFopen_fault hkept hfresh hfiles with hnone | ⟨g', logOp', hfopen, hwrite⟩
  · cases htype : logOp.logType <;> simp [dbgout, htype, hnone]
  · cases htype : logOp.logType <;> simp [dbgout, htype, hfopen, hwrite]

end Message

/-! ## 3. Runs -/

/-- A call, with what `fopen` and `freopen` return in it. -/
inductive LogCall (κ : Type) where
  | initLogFile
  | dbgout (op : κ) (answers : Answers)

/-- The program with its `LogOp`s, and whether a call has used what is no open stream;
    that was its last call. -/
structure LogRun (κ : Type) where
  globals : Globals
  logOps : κ → LogOp
  fault : Bool

variable {κ : Type}

/-- No message is written yet; other streams may be open. -/
def newLogRun (logType : κ → LogType) (filePath : κ → String) (streams : Streams String) :
    LogRun κ :=
  { globals := { initLogFile := false, streams := streams }
    logOps := fun op => { logType := logType op, logFp := none, filePath := filePath op }
    fault := false }

/-- Only open streams were used, and none is held that is opened for every message. -/
structure StreamsUsable (s : LogRun κ) : Prop where
  not_faulted : s.fault = false
  not_held : ∀ op, (s.logOps op).logType = .OPEN_EVERY_TIME_WRITE → (s.logOps op).logFp = none

/-- A message whose `LogOp` has no stream gets one from `fopen`, and the first one after
    `InitLogFile` gets its stream back from `freopen`. -/
def CallOpens (s : LogRun κ) : LogCall κ → Prop
  | .initLogFile => True
  | .dbgout op answers => FilesOpen s.globals (s.logOps op) answers

instance decidableCallOpens (s : LogRun κ) : (call : LogCall κ) → Decidable (CallOpens s call)
  | .initLogFile => isTrue trivial
  | .dbgout op answers => inferInstanceAs (Decidable (FilesOpen s.globals (s.logOps op) answers))

/-- Every stream that a `LogOp` has is open, and kept for it. -/
structure AllKept (s : LogRun κ) : Prop where
  not_faulted : s.fault = false
  kept : ∀ op, Kept s.globals (s.logOps op)

theorem AllKept.usable {s : LogRun κ} (h : AllKept s) : StreamsUsable s where
  not_faulted := h.not_faulted
  not_held := by
    intro op htype
    rw [Option.eq_none_iff_forall_ne_some]
    intro a ha
    have halways := (h.kept op a ha).1
    rw [htype] at halways
    cases halways

variable [DecidableEq κ]

def logStep (s : LogRun κ) : LogCall κ → Option (LogRun κ)
  | .initLogFile =>
      if s.fault = false then some { s with globals := initLogFile s.globals } else none
  | .dbgout op answers =>
      if s.fault = false ∧ s.globals.streams.mayReturn answers.fopen = true then
        match dbgout s.globals (s.logOps op) answers with
        | none => some { s with fault := true }
        | some (globals, logOp) => some { s with
            globals := globals
            logOps := Function.update s.logOps op logOp }
      else none

theorem allKept_step (s : LogRun κ) (call : LogCall κ) (t : LogRun κ) (hs : AllKept s)
    (hopens : CallOpens s call) (hstep : logStep s call = some t) : AllKept t := by
  cases call with
  | initLogFile =>
      simp only [logStep, if_pos hs.not_faulted, Option.some.injEq] at hstep
      subst hstep
      exact ⟨hs.not_faulted, fun op => (hs.kept op).mono fun a file ha => ha⟩
  | dbgout op answers =>
      simp only [logStep, Option.ite_none_right_eq_some] at hstep
      obtain ⟨⟨-, hfresh⟩, hstep⟩ := hstep
      obtain ⟨g, fp, hcall, hkept, hext⟩ := dbgout_of_filesOpen (hs.kept op) hfresh hopens
      rw [hcall] at hstep
      obtain rfl := Option.some.inj hstep
      refine ⟨hs.not_faulted, ?_⟩
      intro other
      by_cases hother : other = op
      · subst hother
        simpa using hkept
      · have hkeep := (hs.kept other).mono hext
        simpa [Function.update_of_ne hother] using hkeep

theorem fault_of_not_callOpens (s : LogRun κ) (call : LogCall κ) (t : LogRun κ) (hs : AllKept s)
    (hopens : ¬ CallOpens s call) (hstep : logStep s call = some t) : ¬ StreamsUsable t := by
  cases call with
  | initLogFile => exact absurd trivial hopens
  | dbgout op answers =>
      simp only [logStep, Option.ite_none_right_eq_some] at hstep
      obtain ⟨⟨-, hfresh⟩, hstep⟩ := hstep
      rw [dbgout_fault (hs.kept op) hfresh hopens] at hstep
      obtain rfl := Option.some.inj hstep
      intro husable
      cases husable.not_faulted

/-- In a run of `InitLogFile` and `_dbgout` only open streams are used, and none is held
    that is opened for every message, exactly if all the files can be opened. -/
theorem log_streams_usable_iff {logType : κ → LogType} {filePath : κ → String}
    {streams : Streams String} {calls : List (LogCall κ)} {u : LogRun κ}
    (hrun : exec logStep (newLogRun logType filePath streams) calls = some u) :
    Always logStep StreamsUsable (newLogRun logType filePath streams) calls ↔
      Along logStep CallOpens (newLogRun logType filePath streams) calls := by
  have hnew : AllKept (newLogRun logType filePath streams) := by
    refine ⟨rfl, ?_⟩
    intro op a ha
    cases ha
  exact always_iff_along_of_lost allKept_step (fun s hs => hs.usable) fault_of_not_callOpens
    hnew hrun

/-- Two messages of each kind of log, the first of them into an emptied file. -/
def fourMessages : List (LogCall LogType) :=
  [.initLogFile, .dbgout .ALWAYS_OPEN ⟨some 1, true⟩, .dbgout .OPEN_EVERY_TIME_WRITE ⟨some 2, true⟩,
    .dbgout .ALWAYS_OPEN ⟨none, false⟩, .dbgout .OPEN_EVERY_TIME_WRITE ⟨some 2, true⟩]

/-- One log of each kind. -/
def bothLogs : LogRun LogType :=
  newLogRun id (fun
    | .ALWAYS_OPEN => "always.log"
    | .OPEN_EVERY_TIME_WRITE => "every.log") fun _ => none

theorem log_streams_usable_four : Always logStep StreamsUsable bothLogs fourMessages := by
  obtain ⟨u, hrun⟩ : ∃ u, exec logStep bothLogs fourMessages = some u := ⟨_, rfl⟩
  exact (log_streams_usable_iff hrun).mpr (by decide)

/-- The directory of the log is missing: the message is written to `NULL`. -/
theorem log_stream_null : ∃ u, exec logStep bothLogs [.dbgout .ALWAYS_OPEN ⟨none, true⟩] = some u ∧
    ¬ Always logStep StreamsUsable bothLogs [.dbgout .ALWAYS_OPEN ⟨none, true⟩] := by
  refine ⟨_, rfl, ?_⟩
  intro h
  cases (h.2 _ rfl).not_faulted

end SocketPractice.LibDbgout
