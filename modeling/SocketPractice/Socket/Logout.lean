import SocketPractice.Lib.Runs
import SocketPractice.Lib.Stdio

/-!
# The log (`libsrcs/logout/logout.c`)

All threads of a process log through one static stream without a lock.  `main` logs once
before it starts them: that message opens the stream, and empties the file if the process
has asked for it.  From then on no thread opens anything, and what the threads print ends
up in the file, each stamp and each text in one piece.  A message is two such pieces, so
that those of another thread may come between them.
-/

namespace SocketPractice.Socket

open Lib.Memory Lib.Runs Lib.Stdio

/-! ## 1. The code -/

/-- A call of `__logout`: the path, what the clock will say, and the formatted text. -/
structure LogoutCall (φ : Type) where
  path : φ
  time : List Char
  text : List Char
deriving DecidableEq

/-- What `output_time_stamp` prints. -/
def LogoutCall.timeStamp {φ : Type} (c : LogoutCall φ) : List Char := '(' :: c.time ++ [')']

/-- Where a thread is in `__logout`. -/
inductive LogoutPc where
  | ifNull
  | fopen
  | ifStillNull
  | ifClear
  | freopen
  | unsetClear
  | outputTimeStamp
  | vfprintf
  | fflush
deriving DecidableEq

/-- What the library calls of a step answer: the stream of `fopen` and where it stands,
    whether `freopen` could open the file, and whether the buffer was full. -/
structure LogoutAnswers where
  fopen : Ptr
  start : Nat
  freopen : Bool
  full : Bool
deriving DecidableEq

/-- The statics of `logout.c`, the streams and the files, and the threads. -/
structure Logger (φ ι : Type) where
  gClearLogFile : Bool
  gMaxLogSize : Int
  fp : Ptr
  streams : Streams (Stream φ)
  disk : Disk φ
  pcs : ι → Option (LogoutCall φ × LogoutPc)
  fault : Bool

inductive LogoutEvent (φ ι : Type) where
  | call (i : ι) (c : LogoutCall φ)
  | step (i : ι) (answers : LogoutAnswers)

section Code

variable {φ ι : Type} [DecidableEq φ] [DecidableEq ι]

def newLogger (ι : Type) (disk : Disk φ) : Logger φ ι where
  gClearLogFile := false
  gMaxLogSize := 0
  fp := none
  streams := fun _ => none
  disk := disk
  pcs := fun _ => none
  fault := false

def initLogFileClear (initClearFile : Bool) (maxLogSize : Int) (s : Logger φ ι) : Logger φ ι :=
  { s with gClearLogFile := initClearFile, gMaxLogSize := maxLogSize }

/-- Where the thread is next; `none` if it has returned. -/
def Logger.goto (s : Logger φ ι) (i : ι) (call : Option (LogoutCall φ × LogoutPc)) :
    Logger φ ι :=
  { s with pcs := Function.update s.pcs i call }

/-- Use the stream `fp`: without one that is open this is undefined behaviour. -/
def Logger.withFp (s : Logger φ ι) (use : Addr → Stream φ → Logger φ ι) : Logger φ ι :=
  match s.fp with
  | none => { s with fault := true }
  | some a => match s.streams a with
    | none => { s with fault := true }
    | some st => use a st

def Logger.flush (s : Logger φ ι) (a : Addr) (st : Stream φ) : Logger φ ι :=
  { s with
    disk := Function.update s.disk st.file (st.flushed (s.disk st.file))
    streams := Function.update s.streams a (some (st.fflush (s.disk st.file))) }

/-- A full buffer is written at once. -/
def Logger.fprintf (s : Logger φ ι) (a : Addr) (st : Stream φ) (text : List Char) (full : Bool) :
    Logger φ ι :=
  if full then s.flush a (st.fprintf text)
  else { s with streams := Function.update s.streams a (some (st.fprintf text)) }

/-- `freopen(path, "w+", fp)`: the stream is flushed and closed, and stays closed if the file
    cannot be opened. -/
def Logger.freopen (s : Logger φ ι) (a : Addr) (st : Stream φ) (path : φ) (opened : Bool) :
    Logger φ ι :=
  let s := s.flush a st
  if opened then
    { s with
      disk := Function.update s.disk path []
      streams := Function.update s.streams a (some (.openEmptied path)) }
  else { s with streams := Function.update s.streams a none }

/-- One statement of `__logout`. -/
def logoutStatement (s : Logger φ ι) (i : ι) (c : LogoutCall φ) (answers : LogoutAnswers) :
    LogoutPc → Logger φ ι
  | .ifNull => s.goto i (some (c, if s.fp = none then .fopen else .ifStillNull))
  | .fopen => { s with
      fp := answers.fopen
      streams := s.streams.fopen (.openAppend c.path answers.start) answers.fopen
      }.goto i (some (c, .ifStillNull))
  | .ifStillNull => s.goto i (if s.fp = none then none else some (c, .ifClear))
  | .ifClear =>
      if s.gClearLogFile then s.goto i (some (c, .freopen))
      else if s.gMaxLogSize > 0 then
        s.withFp fun _ st => s.goto i (some (c,
          if (st.ftell (s.disk st.file) : Int) ≥ s.gMaxLogSize then .freopen
          else .outputTimeStamp))
      else s.goto i (some (c, .outputTimeStamp))
  | .freopen =>
      s.withFp fun a st => (s.freopen a st c.path answers.freopen).goto i (some (c, .unsetClear))
  | .unsetClear => { s with gClearLogFile := false }.goto i (some (c, .outputTimeStamp))
  | .outputTimeStamp =>
      s.withFp fun a st => (s.fprintf a st c.timeStamp answers.full).goto i (some (c, .vfprintf))
  | .vfprintf =>
      s.withFp fun a st => (s.fprintf a st c.text answers.full).goto i (some (c, .fflush))
  | .fflush => s.withFp fun a st => (s.flush a st).goto i none

/-- A thread calls `__logout`, or takes a step in it; `fopen` returns a new stream. -/
def logoutStep (s : Logger φ ι) : LogoutEvent φ ι → Option (Logger φ ι)
  | .call i c => if (s.pcs i).isNone then some (s.goto i (some (c, .ifNull))) else none
  | .step i answers =>
      match s.pcs i with
      | none => none
      | some (c, pc) =>
          if pc = .fopen → s.streams.mayReturn answers.fopen = true then
            some (logoutStatement s i c answers pc)
          else none

end Code

/-! ## 2. An open log -/

/-- The log is open for `path`, through the stream `st` at `a`, which writes at its end. -/
structure LogOpen {φ ι : Type} (s : Logger φ ι) (a : Addr) (st : Stream φ) (path : φ) : Prop where
  fp : s.fp = some a
  stream : s.streams a = some st
  file : st.file = path
  atEnd : st.AtEnd (s.disk path)

/-- The text of the log, with what is still in the buffer. -/
def logText {φ ι : Type} (s : Logger φ ι) (st : Stream φ) : List Char :=
  s.disk st.file ++ st.buffer

section Open

variable {φ ι : Type} {s : Logger φ ι} {a : Addr} {st : Stream φ} {path : φ}

section Goto

variable [DecidableEq ι] {i j : ι} {call : Option (LogoutCall φ × LogoutPc)}

@[simp] theorem goto_self : (s.goto i call).pcs i = call := Function.update_self ..

theorem goto_other (hji : j ≠ i) : (s.goto i call).pcs j = s.pcs j :=
  Function.update_of_ne hji ..

/-- Where a thread is, does not matter to the log. -/
theorem LogOpen.goto (h : LogOpen s a st path) (i : ι)
    (call : Option (LogoutCall φ × LogoutPc)) : LogOpen (s.goto i call) a st path :=
  ⟨h.fp, h.stream, h.file, h.atEnd⟩

end Goto

theorem LogOpen.logText_eq (h : LogOpen s a st path) (hempty : st.buffer = []) :
    logText s st = s.disk path := by
  rw [logText, h.file, hempty, List.append_nil]

theorem LogOpen.withFp (h : LogOpen s a st path) (use : Addr → Stream φ → Logger φ ι) :
    s.withFp use = use a st := by
  simp only [Logger.withFp, h.fp, h.stream]

variable [DecidableEq φ]

theorem LogOpen.flush (h : LogOpen s a st path) :
    LogOpen (s.flush a st) a (st.fflush (s.disk path)) path := by
  obtain ⟨hfp, -, rfl, hend⟩ := h
  refine ⟨hfp, ?_, Stream.fflush_file, ?_⟩
  · exact Function.update_self ..
  · show (st.fflush _).AtEnd (Function.update s.disk st.file _ st.file)
    rw [Function.update_self]
    exact hend.fflush

theorem LogOpen.disk_flush (h : LogOpen s a st path) :
    (s.flush a st).disk path = logText s st := by
  obtain ⟨-, -, rfl, hend⟩ := h
  show Function.update s.disk st.file _ st.file = _
  rw [Function.update_self, hend.flushed_eq, logText]

theorem LogOpen.pos_flush (h : LogOpen s a st path) (hsettled : st.Settled (s.disk path)) :
    (st.fflush (s.disk path)).pos = ((s.flush a st).disk path).length := by
  obtain ⟨-, -, rfl, hend⟩ := h
  show _ = (Function.update s.disk st.file _ st.file).length
  rw [Function.update_self]
  exact hend.fflush_pos hsettled

theorem LogOpen.flush_other (h : LogOpen s a st path) {file : φ} (hne : file ≠ path) :
    (s.flush a st).disk file = s.disk file := by
  obtain ⟨-, -, rfl, -⟩ := h
  exact Function.update_of_ne hne ..

/-- What `fprintf` leaves if the log is open. -/
structure Printed (s : Logger φ ι) (a : Addr) (st : Stream φ) (path : φ) (text : List Char)
    (t : Logger φ ι) (st' : Stream φ) : Prop where
  isOpen : LogOpen t a st' path
  logged : logText t st' = logText s st ++ text
  settled : st.Settled (s.disk path) ∨ text ≠ [] → st'.Settled (t.disk path)
  others : ∀ file, file ≠ path → t.disk file = s.disk file
  statics : t.gClearLogFile = s.gClearLogFile ∧ t.gMaxLogSize = s.gMaxLogSize
  pcs : t.pcs = s.pcs
  fault : t.fault = s.fault

/-- What is printed comes behind what has been printed, in the file or still in the
    buffer. -/
theorem LogOpen.fprintf (h : LogOpen s a st path) (text : List Char) (full : Bool) :
    ∃ st', Printed s a st path text (s.fprintf a st text full) st' := by
  have hsettled : st.Settled (s.disk path) ∨ text ≠ [] →
      (st.fprintf text).Settled (s.disk path) := by
    rintro (hst | hne)
    · exact hst.fprintf text
    · exact .inl (List.append_ne_nil_of_right_ne_nil _ hne)
  let t : Logger φ ι := { s with
    streams := Function.update s.streams a (some (st.fprintf text)) }
  have hprinted : Printed s a st path text t (st.fprintf text) := by
    refine ⟨⟨h.fp, Function.update_self .., h.file, h.atEnd.fprintf text⟩, ?_, hsettled,
      fun file hne => rfl, ⟨rfl, rfl⟩, rfl, rfl⟩
    simp only [logText, Stream.fprintf_file, Stream.fprintf_buffer, List.append_assoc, t]
  cases full
  · exact ⟨_, hprinted⟩
  · have hflush : s.fprintf a st text true = t.flush a (st.fprintf text) := by
      simp only [Logger.fprintf, Logger.flush, if_true, Function.update_idem, t]
    rw [hflush]
    have hopen := hprinted.isOpen
    refine ⟨_, hopen.flush, ?_, ?_, ?_, ⟨rfl, rfl⟩, rfl, rfl⟩
    · rw [hopen.flush.logText_eq Stream.fflush_buffer, hopen.disk_flush]
      exact hprinted.logged
    · intro hsome
      exact .inr (hopen.pos_flush (hsettled hsome))
    · intro file hne
      exact hopen.flush_other hne

end Open

/-! ## 3. Any number of threads -/

/-- The pieces that a thread has asked for: the stamp and the text of each call. -/
def piecesOf {φ ι : Type} [DecidableEq ι] (i : ι) (evs : List (LogoutEvent φ ι)) :
    List (List Char) :=
  evs.flatMap fun
    | .call j c => if j = i then [c.timeStamp, c.text] else []
    | .step .. => []

/-- The pieces that a call has still to print. -/
def left {φ : Type} : Option (LogoutCall φ × LogoutPc) → List (List Char)
  | none => []
  | some (_, .fflush) => []
  | some (c, .vfprintf) => [c.text]
  | some (c, _) => [c.timeStamp, c.text]

/-- What a thread has printed of `h`. -/
def printedBy {ι : Type} [DecidableEq ι] (h : List (ι × List Char)) (i : ι) : List (List Char) :=
  (h.filter fun piece => piece.1 = i).map Prod.snd

/-- No thread is opening the log, or emptying it. -/
def LogoutPc.Logs : LogoutPc → Prop
  | .fopen | .freopen | .unsetClear => False
  | _ => True

/-- The call has printed what it has not flushed yet. -/
def LogoutPc.Prints : LogoutPc → Prop
  | .vfprintf | .fflush => True
  | _ => False

/-- The log once it is open: what is in it behind `base` has been printed by the threads,
    piece by piece. -/
structure Logging {φ ι : Type} [DecidableEq ι] (path : φ) (base : List Char) (disk : Disk φ)
    (evs : List (LogoutEvent φ ι)) (s : Logger φ ι) (a : Addr) (st : Stream φ)
    (h : List (ι × List Char)) : Prop where
  isOpen : LogOpen s a st path
  keeps : s.gClearLogFile = false
  unlimited : s.gMaxLogSize = 0
  fault : s.fault = false
  logs : ∀ i c pc, s.pcs i = some (c, pc) → pc.Logs
  waits : st.buffer = [] ∨ ∃ i c pc, s.pcs i = some (c, pc) ∧ pc.Prints
  merged : logText s st = base ++ (h.map Prod.snd).flatten
  printed : ∀ i, printedBy h i ++ left (s.pcs i) = piecesOf i evs
  others : ∀ file, file ≠ path → s.disk file = disk file

section Pieces

variable {φ ι : Type} [DecidableEq ι] {h : List (ι × List Char)}

theorem piecesOf_append (i : ι) (evs evs' : List (LogoutEvent φ ι)) :
    piecesOf i (evs ++ evs') = piecesOf i evs ++ piecesOf i evs' := List.flatMap_append

@[simp] theorem piecesOf_call (i j : ι) (c : LogoutCall φ) :
    piecesOf i [LogoutEvent.call j c] = if j = i then [c.timeStamp, c.text] else [] := by
  simp [piecesOf]

@[simp] theorem piecesOf_step (i j : ι) (answers : LogoutAnswers) :
    piecesOf i [(LogoutEvent.step j answers : LogoutEvent φ ι)] = [] := by
  simp [piecesOf]

theorem printedBy_snoc (i j : ι) (piece : List Char) :
    printedBy (h ++ [(i, piece)]) j = printedBy h j ++ if i = j then [piece] else [] := by
  by_cases hij : i = j <;> simp [printedBy, hij]

end Pieces

section Threads

variable {φ ι : Type} [DecidableEq ι] {path : φ} {base : List Char}
  {disk : Disk φ} {evs : List (LogoutEvent φ ι)} {s t : Logger φ ι} {a : Addr} {st : Stream φ}
  {h : List (ι × List Char)}

theorem logs_goto {i : ι} {call : Option (LogoutCall φ × LogoutPc)}
    (hcall : ∀ c pc, call = some (c, pc) → pc.Logs)
    (hrest : ∀ j c pc, s.pcs j = some (c, pc) → pc.Logs) (j : ι) (c : LogoutCall φ)
    (pc : LogoutPc) (hj : (s.goto i call).pcs j = some (c, pc)) : pc.Logs := by
  by_cases hji : j = i
  · rw [hji, goto_self] at hj
    exact hcall c pc hj
  · rw [goto_other hji] at hj
    exact hrest j c pc hj

/-- A thread goes on without printing. -/
theorem Logging.move (hlog : Logging path base disk evs s a st h) {i : ι} {e : LogoutEvent φ ι}
    {call : Option (LogoutCall φ × LogoutPc)} (hlogs : ∀ c pc, call = some (c, pc) → pc.Logs)
    (hwaits : ∀ c pc, s.pcs i = some (c, pc) → ¬ pc.Prints)
    (hleft : left call = left (s.pcs i) ++ piecesOf i [e])
    (hothers : ∀ j, j ≠ i → piecesOf j [e] = []) :
    Logging path base disk (evs ++ [e]) (s.goto i call) a st h := by
  refine ⟨hlog.isOpen.goto i call, hlog.keeps, hlog.unlimited, hlog.fault,
    logs_goto hlogs hlog.logs, ?_, hlog.merged, ?_, hlog.others⟩
  · refine hlog.waits.imp_right ?_
    rintro ⟨j, c, pc, hj, hprints⟩
    have hji : j ≠ i := by
      rintro rfl
      exact hwaits c pc hj hprints
    exact ⟨j, c, pc, by rwa [goto_other hji], hprints⟩
  · intro j
    rw [piecesOf_append, ← hlog.printed j]
    by_cases hji : j = i
    · subst hji
      rw [goto_self, hleft, List.append_assoc]
    · rw [goto_other hji, hothers j hji, List.append_nil]

variable [DecidableEq φ]

/-- A thread prints its next piece. -/
theorem Logging.print (hlog : Logging path base disk evs s a st h) {i : ι} {c : LogoutCall φ}
    {pc : LogoutPc} {piece : List Char} {answers : LogoutAnswers}
    (hi : s.pcs i = some (c, pc)) (pc' : LogoutPc) (hlogs : pc'.Logs) (hprints : pc'.Prints)
    (hleft : left (some (c, pc)) = piece :: left (some (c, pc'))) :
    ∃ st', Logging path base disk (evs ++ [.step i answers])
      ((s.fprintf a st piece answers.full).goto i (some (c, pc'))) a st'
      (h ++ [(i, piece)]) := by
  obtain ⟨st', hprinted⟩ := hlog.isOpen.fprintf piece answers.full
  refine ⟨st', hprinted.isOpen.goto i _, hprinted.statics.1.trans hlog.keeps,
    hprinted.statics.2.trans hlog.unlimited, hprinted.fault.trans hlog.fault,
    logs_goto ?_ (hprinted.pcs ▸ hlog.logs), .inr ⟨i, c, pc', goto_self, hprints⟩, ?_, ?_, ?_⟩
  · rintro c' pc'' ⟨⟩
    exact hlogs
  · show logText (s.fprintf a st piece answers.full) st' = _
    rw [hprinted.logged, hlog.merged, List.map_append, List.flatten_append, List.append_assoc]
    simp
  · intro j
    rw [piecesOf_append, ← hlog.printed j, piecesOf_step, List.append_nil, printedBy_snoc]
    by_cases hji : j = i
    · subst hji
      rw [if_pos rfl, goto_self, hi, hleft, List.append_assoc]
      rfl
    · rw [if_neg (Ne.symm hji), goto_other hji, hprinted.pcs, List.append_nil]
  · intro file hne
    exact (hprinted.others file hne).trans (hlog.others file hne)

/-- A thread flushes the log and returns. -/
theorem Logging.flush (hlog : Logging path base disk evs s a st h) {i : ι} {c : LogoutCall φ}
    {answers : LogoutAnswers} (hi : s.pcs i = some (c, .fflush)) :
    Logging path base disk (evs ++ [.step i answers]) ((s.flush a st).goto i none) a
      (st.fflush (s.disk path)) h := by
  have hopen := hlog.isOpen
  refine ⟨hopen.flush.goto i none, hlog.keeps, hlog.unlimited, hlog.fault,
    logs_goto ?_ hlog.logs, .inl Stream.fflush_buffer, ?_, ?_, ?_⟩
  · rintro c' pc ⟨⟩
  · rw [(hopen.flush.goto i none).logText_eq Stream.fflush_buffer, ← hlog.merged]
    exact hopen.disk_flush
  · intro j
    rw [piecesOf_append, ← hlog.printed j, piecesOf_step, List.append_nil]
    by_cases hji : j = i
    · subst hji
      rw [goto_self, hi]
      rfl
    · rw [goto_other hji]
      rfl
  · intro file hne
    exact (hopen.flush_other hne).trans (hlog.others file hne)

/-- Whatever a thread does, the log stays open. -/
theorem Logging.step (hlog : Logging path base disk evs s a st h) {e : LogoutEvent φ ι}
    (hstep : logoutStep s e = some t) :
    ∃ st' h', Logging path base disk (evs ++ [e]) t a st' h' := by
  have hfp : s.fp ≠ none := by simp [hlog.isOpen.fp]
  cases e with
  | call i c =>
      simp only [logoutStep, Option.ite_none_right_eq_some, Option.some.injEq,
        Option.isNone_iff_eq_none] at hstep
      obtain ⟨hi, rfl⟩ := hstep
      refine ⟨st, h, hlog.move ?_ ?_ ?_ ?_⟩
      · rintro c' pc ⟨⟩
        trivial
      · intro c' pc hpc
        rw [hi] at hpc
        cases hpc
      · rw [hi, piecesOf_call, if_pos rfl]
        rfl
      · intro j hji
        rw [piecesOf_call, if_neg (Ne.symm hji)]
  | step i answers =>
      rcases hi : s.pcs i with _ | ⟨c, pc⟩
      · simp [logoutStep, hi] at hstep
      · simp only [logoutStep, hi, Option.ite_none_right_eq_some, Option.some.injEq] at hstep
        obtain ⟨-, rfl⟩ := hstep
        have hlogs := hlog.logs i c pc hi
        -- a step that prints nothing leads to another such step
        have hmove : ∀ pc', pc'.Logs → ¬ pc.Prints → left (some (c, pc')) = left (some (c, pc)) →
            ∃ st' h', Logging path base disk (evs ++ [.step i answers])
              (s.goto i (some (c, pc'))) a st' h' := by
          intro pc' hlogs' hprints hleft
          refine ⟨st, h, hlog.move ?_ ?_ ?_ ?_⟩
          · rintro c' pc'' ⟨⟩
            exact hlogs'
          · intro c' pc'' hpc
            rw [hi, Option.some.injEq, Prod.mk.injEq] at hpc
            exact hpc.2 ▸ hprints
          · rw [hi, piecesOf_step, List.append_nil, hleft]
          · exact fun j _ => piecesOf_step j i answers
        cases pc with
        | ifNull =>
            simp only [logoutStatement, if_neg hfp]
            exact hmove .ifStillNull trivial id rfl
        | fopen => exact hlogs.elim
        | ifStillNull =>
            simp only [logoutStatement, if_neg hfp]
            exact hmove .ifClear trivial id rfl
        | ifClear =>
            simp only [logoutStatement, hlog.keeps, hlog.unlimited, Bool.false_eq_true, if_false,
              gt_iff_lt, Int.lt_irrefl]
            exact hmove .outputTimeStamp trivial id rfl
        | freopen => exact hlogs.elim
        | unsetClear => exact hlogs.elim
        | outputTimeStamp =>
            simp only [logoutStatement, hlog.isOpen.withFp]
            obtain ⟨st', hst'⟩ := hlog.print hi .vfprintf trivial trivial rfl
            exact ⟨st', _, hst'⟩
        | vfprintf =>
            simp only [logoutStatement, hlog.isOpen.withFp]
            obtain ⟨st', hst'⟩ := hlog.print hi .fflush trivial trivial rfl
            exact ⟨st', _, hst'⟩
        | fflush =>
            simp only [logoutStatement, hlog.isOpen.withFp]
            exact ⟨_, h, hlog.flush hi⟩

end Threads

/-! ## 4. The first message -/

/-- `fopen` and `freopen` can open the file. -/
def LogoutEvent.Opens {φ ι : Type} : LogoutEvent φ ι → Prop
  | .call .. => True
  | .step _ answers => answers.fopen ≠ none ∧ answers.freopen = true

/-- The step is one of the thread. -/
def LogoutEvent.By {φ ι : Type} (i : ι) : LogoutEvent φ ι → Prop
  | .call j _ => j = i
  | .step j _ => j = i

/-- The log is open and nothing has been printed.  It is empty if the process has asked for
    that, or if it has a limit. -/
structure Opened {φ ι : Type} (path : φ) (clear : Bool) (max : Int) (disk : Disk φ)
    (s : Logger φ ι) (a : Addr) (st : Stream φ) : Prop where
  isOpen : LogOpen s a st path
  empty : st.buffer = []
  keeps : s.gClearLogFile = false
  text : s.disk path = [] ∧ (clear = true ∨ 0 < max) ∨ s.disk path = disk path ∧ clear = false
  others : ∀ file, file ≠ path → s.disk file = disk file

/-- The stream is there, and the file as it was. -/
def JustOpened {φ ι : Type} (path : φ) (clear : Bool) (disk : Disk φ) (s : Logger φ ι) : Prop :=
  s.disk = disk ∧ s.gClearLogFile = clear ∧
    ∃ a start, s.fp = some a ∧ s.streams a = some (.openAppend path start)

/-- What the first message has done so far. -/
def Opening {φ ι : Type} (path : φ) (clear : Bool) (max : Int) (disk : Disk φ)
    (s : Logger φ ι) : LogoutPc → Prop
  | .ifNull | .fopen => s.fp = none ∧ s.disk = disk ∧ s.gClearLogFile = clear
  | .ifStillNull | .ifClear => JustOpened path clear disk s
  | .freopen => JustOpened path clear disk s ∧ (clear = true ∨ 0 < max)
  | .unsetClear =>
      (∃ a, s.fp = some a ∧ s.streams a = some (.openEmptied path)) ∧ s.disk path = [] ∧
        (clear = true ∨ 0 < max) ∧ ∀ file, file ≠ path → s.disk file = disk file
  | .outputTimeStamp => ∃ a st, Opened path clear max disk s a st
  | .vfprintf | .fflush => False

theorem Opening.left_eq {φ ι : Type} {path : φ} {clear : Bool} {max : Int} {disk : Disk φ}
    {s : Logger φ ι} {c : LogoutCall φ} {pc : LogoutPc} (h : Opening path clear max disk s pc) :
    left (some (c, pc)) = [c.timeStamp, c.text] := by
  cases pc with
  | vfprintf => exact h.elim
  | fflush => exact h.elim
  | _ => rfl

section First

variable {φ ι : Type} [DecidableEq ι] {path : φ} {clear : Bool} {max : Int}
  {disk : Disk φ} {s t : Logger φ ι} {c : LogoutCall φ} {i : ι} {answers : LogoutAnswers}

theorem JustOpened.opened (h : JustOpened path clear disk s) (hclear : clear = false)
    (call : Option (LogoutCall φ × LogoutPc)) :
    ∃ a st, Opened path clear max disk (s.goto i call) a st := by
  obtain ⟨hdisk, hkeeps, a, start, hfp, hst⟩ := h
  exact ⟨a, _, ⟨hfp, hst, rfl, .inl rfl⟩, rfl, hkeeps.trans hclear,
    .inr ⟨congrFun hdisk path, hclear⟩, fun file _ => congrFun hdisk file⟩

variable [DecidableEq φ]

/-- Each statement before the first stamp leads on. -/
theorem Opening.step {pc : LogoutPc} (h : Opening path clear s.gMaxLogSize disk s pc)
    (hc : c.path = path) (hpc : pc ≠ .outputTimeStamp)
    (hopen : (LogoutEvent.step i answers : LogoutEvent φ ι).Opens) :
    ∃ pc', Opening path clear s.gMaxLogSize disk (logoutStatement s i c answers pc) pc' ∧
      (logoutStatement s i c answers pc).pcs = Function.update s.pcs i (some (c, pc')) ∧
      (logoutStatement s i c answers pc).gMaxLogSize = s.gMaxLogSize ∧
      (logoutStatement s i c answers pc).fault = s.fault := by
  cases pc with
  | ifNull =>
      refine ⟨.fopen, h, ?_, rfl, rfl⟩
      simp only [logoutStatement, h.1, if_true, Logger.goto]
  | fopen =>
      obtain ⟨-, hdisk, hkeeps⟩ := h
      obtain ⟨a, ha⟩ := Option.ne_none_iff_exists'.mp hopen.1
      refine ⟨.ifStillNull, ⟨hdisk, hkeeps, a, answers.start, ha, ?_⟩, rfl, rfl, rfl⟩
      show s.streams.fopen (.openAppend c.path answers.start) answers.fopen a = _
      rw [ha, Streams.fopen_some, Function.update_self, hc]
  | ifStillNull =>
      have hfp : s.fp ≠ none := by
        obtain ⟨-, -, a, -, hfp, -⟩ := h
        simp [hfp]
      refine ⟨.ifClear, h, ?_, rfl, rfl⟩
      simp only [logoutStatement, if_neg hfp, Logger.goto]
  | ifClear =>
      obtain ⟨hdisk, hkeeps, a, start, hfp, hst⟩ := id h
      by_cases hclear : clear = true
      · simp only [logoutStatement, if_pos (hkeeps.trans hclear)]
        exact ⟨.freopen, ⟨h, .inl hclear⟩, rfl, rfl, rfl⟩
      · rw [Bool.not_eq_true] at hclear
        simp only [logoutStatement, hkeeps.trans hclear, Bool.false_eq_true, if_false,
          Logger.withFp, hfp, hst]
        by_cases hmax : s.gMaxLogSize > 0
        · rw [if_pos hmax]
          split
          · exact ⟨.freopen, ⟨h, .inr hmax⟩, rfl, rfl, rfl⟩
          · exact ⟨.outputTimeStamp, h.opened hclear _, rfl, rfl, rfl⟩
        · rw [if_neg hmax]
          exact ⟨.outputTimeStamp, h.opened hclear _, rfl, rfl, rfl⟩
  | freopen =>
      obtain ⟨⟨hdisk, hkeeps, a, start, hfp, hst⟩, hwhy⟩ := h
      simp only [logoutStatement, Logger.withFp, hfp, hst, Logger.freopen, hopen.2, if_true]
      refine ⟨.unsetClear, ⟨⟨a, hfp, ?_⟩, ?_, hwhy, ?_⟩, rfl, rfl, rfl⟩
      · show Function.update (s.flush a _).streams a _ a = _
        rw [Function.update_self, hc]
      · show Function.update (s.flush a _).disk c.path [] path = []
        rw [hc, Function.update_self]
      · intro file hne
        show Function.update (Function.update s.disk path _) c.path [] file = disk file
        rw [hc, Function.update_of_ne hne, Function.update_of_ne hne, hdisk]
  | unsetClear =>
      obtain ⟨⟨a, hfp, hst⟩, htext, hwhy, hothers⟩ := h
      refine ⟨.outputTimeStamp, ⟨a, .openEmptied path, ⟨hfp, hst, rfl, .inr ?_⟩, rfl, rfl,
        .inl ⟨htext, hwhy⟩, hothers⟩, rfl, rfl, rfl⟩
      show 0 = (s.disk path).length
      rw [htext]
      rfl
  | outputTimeStamp => exact absurd rfl hpc
  | vfprintf => exact h.elim
  | fflush => exact h.elim

end First

/-! ## 5. Every interleaving -/

section Interleaving

variable {φ ι : Type} [DecidableEq ι] {path : φ} {clear : Bool} {disk : Disk φ}
  {s t : Logger φ ι} {main : ι} {c : LogoutCall φ}

/-- What the log holds when the first message starts. -/
def logBase (clear : Bool) (text : List Char) : List Char := if clear then [] else text

/-- `main` is in its first message, or the log is open. -/
def Starting (main : ι) (c : LogoutCall φ) (clear : Bool) (disk : Disk φ)
    (evs : List (LogoutEvent φ ι)) (s : Logger φ ι) : Prop :=
  (∃ pc, s.pcs main = some (c, pc) ∧ (∀ i, i ≠ main → s.pcs i = none) ∧
      (∀ i, piecesOf i evs = left (s.pcs i)) ∧ pc ≠ .outputTimeStamp ∧ s.gMaxLogSize = 0 ∧
      s.fault = false ∧ Opening c.path clear 0 disk s pc) ∨
    ∃ a st h, Logging c.path (logBase clear (disk c.path)) disk evs s a st h

/-- Nothing of the message has been printed before. -/
theorem Opened.logging {evs : List (LogoutEvent φ ι)} {a : Addr} {st : Stream φ}
    (h : Opened c.path clear 0 disk s a st) (hmax : s.gMaxLogSize = 0) (hfault : s.fault = false)
    (hmain : s.pcs main = some (c, .outputTimeStamp)) (hothers : ∀ i, i ≠ main → s.pcs i = none)
    (hpieces : ∀ i, piecesOf i evs = left (s.pcs i)) :
    Logging c.path (logBase clear (disk c.path)) disk evs s a st [] := by
  refine ⟨h.isOpen, h.keeps, hmax, hfault, ?_, .inl h.empty, ?_, ?_, h.others⟩
  · intro i c' pc hi
    by_cases him : i = main
    · rw [him, hmain, Option.some.injEq, Prod.mk.injEq] at hi
      obtain ⟨-, rfl⟩ := hi
      trivial
    · rw [hothers i him] at hi
      cases hi
  · rw [h.isOpen.logText_eq h.empty]
    rcases h.text with ⟨htext, hclear | hlt⟩ | ⟨htext, hclear⟩
    · simp [logBase, htext, hclear]
    · exact absurd hlt (Int.lt_irrefl 0)
    · simp [logBase, htext, hclear]
  · intro i
    rw [hpieces i]
    rfl

/-- The state in which `main` logs that it starts. -/
theorem starting_call (main : ι) (c : LogoutCall φ) (clear : Bool) (disk : Disk φ) :
    Starting main c clear disk [.call main c]
      ((initLogFileClear clear 0 (newLogger ι disk)).goto main (some (c, .ifNull))) := by
  refine .inl ⟨.ifNull, goto_self, fun i hi => goto_other hi, ?_, by decide, rfl, rfl, rfl, rfl,
    rfl⟩
  intro i
  rw [piecesOf_call]
  by_cases him : main = i
  · subst him
    rw [if_pos rfl, goto_self]
    rfl
  · rw [if_neg him, goto_other (Ne.symm him)]
    rfl

variable [DecidableEq φ]

theorem Starting.step {evs : List (LogoutEvent φ ι)} {e : LogoutEvent φ ι}
    (h : Starting main c clear disk evs s) (hby : e.By main) (hopen : e.Opens)
    (hstep : logoutStep s e = some t) : Starting main c clear disk (evs ++ [e]) t := by
  rcases h with ⟨pc, hmain, hothers, hpieces, hpc, hmax, hfault, hopening⟩ | ⟨a, st, h, hlog⟩
  · cases e with
    | call i c' =>
        obtain rfl : i = main := hby
        simp [logoutStep, hmain] at hstep
    | step i answers =>
        obtain rfl : main = i := Eq.symm hby
        simp only [logoutStep, hmain, Option.ite_none_right_eq_some, Option.some.injEq] at hstep
        obtain ⟨-, rfl⟩ := hstep
        obtain ⟨pc', hnext, hpcs, hmax', hfault'⟩ :=
          (hmax ▸ hopening : Opening c.path clear s.gMaxLogSize disk s pc).step rfl hpc hopen
        rw [hmax] at hnext hmax'
        have hmain' := congrFun hpcs main
        rw [Function.update_self] at hmain'
        have hothers' : ∀ i, i ≠ main → (logoutStatement s main c answers pc).pcs i = none := by
          intro i hi
          rw [hpcs, Function.update_of_ne hi, hothers i hi]
        have hpieces' : ∀ i, piecesOf i (evs ++ [.step main answers]) =
            left ((logoutStatement s main c answers pc).pcs i) := by
          intro i
          rw [piecesOf_append, piecesOf_step, List.append_nil, hpieces i]
          by_cases him : i = main
          · rw [him, hmain, hmain', hopening.left_eq, hnext.left_eq]
          · rw [hothers i him, hothers' i him]
        by_cases hstamp : pc' = .outputTimeStamp
        · subst hstamp
          obtain ⟨a, st, hopened⟩ := hnext
          exact .inr ⟨a, st, [], hopened.logging hmax' (hfault'.trans hfault) hmain' hothers'
            hpieces'⟩
        · exact .inl ⟨pc', hmain', hothers', hpieces', hstamp, hmax', hfault'.trans hfault, hnext⟩
  · obtain ⟨st', h', hlog'⟩ := hlog.step hstep
    exact .inr ⟨a, st', h', hlog'⟩

/-- A process without a limit for its log, whose `main` logs once before it starts the other
    threads: whatever they do, and in whatever order, the log is theirs piece by piece.  What
    a thread has printed is what it has logged, in order, up to the pieces that its call has
    still to print; and when no call is under way, all of it is in the file. -/
theorem log_nothing_lost {main : ι} {c : LogoutCall φ} {clear : Bool} {disk : Disk φ}
    {pre evs : List (LogoutEvent φ ι)} {s₀ s : Logger φ ι}
    (hstart : exec logoutStep (initLogFileClear clear 0 (newLogger ι disk)) (.call main c :: pre) =
      some s₀)
    (hby : ∀ e ∈ pre, e.By main) (hopen : ∀ e ∈ pre, e.Opens) (hidle : s₀.pcs main = none)
    (hrun : exec logoutStep s₀ evs = some s) :
    s.fault = false ∧ ∃ a st h, s.fp = some a ∧ s.streams a = some st ∧ st.file = c.path ∧
      s.disk c.path ++ st.buffer = logBase clear (disk c.path) ++ (h.map Prod.snd).flatten ∧
      (∀ i, printedBy h i ++ left (s.pcs i) = piecesOf i (.call main c :: pre ++ evs)) ∧
      ((∀ i, s.pcs i = none) → st.buffer = []) ∧
      ∀ file, file ≠ c.path → s.disk file = disk file := by
  obtain ⟨s₁, hcall, hpre⟩ := exec_cons_eq_some.mp hstart
  have hs₁ : s₁ = (initLogFileClear clear 0 (newLogger ι disk)).goto main (some (c, .ifNull)) := by
    simp only [logoutStep, Option.ite_none_right_eq_some, Option.some.injEq] at hcall
    exact hcall.2.symm
  have hstarting : Starting main c clear disk (.call main c :: pre) s₀ := by
    have hhist := exec_history (K := fun es s => (∀ e ∈ es, e.By main ∧ e.Opens) →
      Starting main c clear disk (.call main c :: es) s) ?_ ?_ hpre
    · exact hhist fun e he => ⟨hby e he, hopen e he⟩
    · intro es s e t hs hstep hes
      exact (hs fun e' he' => hes e' (List.mem_append_left _ he')).step
        (hes e (by simp)).1 (hes e (by simp)).2 hstep
    · intro _
      exact hs₁ ▸ starting_call main c clear disk
  rcases hstarting with ⟨pc, hmain, -⟩ | ⟨a, st₀, h₀, hlog₀⟩
  · rw [hidle] at hmain
    cases hmain
  · have hlog : ∃ st h, Logging c.path (logBase clear (disk c.path)) disk
        (.call main c :: pre ++ evs) s a st h := by
      refine exec_history (K := fun es s => ∃ st h, Logging c.path (logBase clear (disk c.path))
        disk (.call main c :: pre ++ es) s a st h) ?_ ⟨st₀, h₀, by simpa using hlog₀⟩ hrun
      rintro es s e t ⟨st, h, hlog⟩ hstep
      rw [← List.append_assoc]
      exact hlog.step hstep
    obtain ⟨st, h, hlog⟩ := hlog
    refine ⟨hlog.fault, a, st, h, hlog.isOpen.fp, hlog.isOpen.stream, hlog.isOpen.file, ?_,
      hlog.printed, ?_, hlog.others⟩
    · rw [← hlog.merged, logText, hlog.isOpen.file]
    · intro hall
      refine hlog.waits.resolve_right ?_
      rintro ⟨i, c', pc, hi, -⟩
      rw [hall i] at hi
      cases hi

end Interleaving

/-- Answers of library calls that succeed. -/
def allOpens : LogoutAnswers := ⟨some 0, 0, true, false⟩

/-- `main` is in its first message. -/
def firstMessage : List (LogoutEvent Unit Bool) := List.replicate 9 (.step false allOpens)

/-- Two threads log, and the stamp of the second comes before the text of the first. -/
def twoMessages : List (LogoutEvent Unit Bool) :=
  [.call true ⟨(), ['2'], ['a']⟩, .call false ⟨(), ['3'], ['b']⟩] ++
    List.replicate 4 (.step true allOpens) ++ List.replicate 6 (.step false allOpens) ++
    List.replicate 2 (.step true allOpens)

theorem log_nothing_lost_twoThreads : ∃ s₀ s : Logger Unit Bool,
    exec logoutStep (initLogFileClear true 0 (newLogger Bool fun _ => ['o', 'l', 'd']))
      (.call false ⟨(), ['1'], ['s']⟩ :: firstMessage) = some s₀ ∧
    exec logoutStep s₀ twoMessages = some s ∧
    s.fault = false ∧ ∃ a st h, s.fp = some a ∧ s.streams a = some st ∧ st.file = () ∧
      s.disk () ++ st.buffer = logBase true ['o', 'l', 'd'] ++ (h.map Prod.snd).flatten ∧
      (∀ i, printedBy h i ++ left (s.pcs i) =
        piecesOf i (.call false ⟨(), ['1'], ['s']⟩ :: firstMessage ++ twoMessages)) ∧
      ((∀ i, s.pcs i = none) → st.buffer = []) ∧
      ∀ file : Unit, file ≠ () → s.disk file = ['o', 'l', 'd'] := by
  have hby : ∀ e ∈ firstMessage, e.By false := by simp [firstMessage, LogoutEvent.By]
  have hopen : ∀ e ∈ firstMessage, e.Opens := by
    simp [firstMessage, LogoutEvent.Opens, allOpens]
  exact ⟨_, _, rfl, rfl, @log_nothing_lost Unit Bool _ _ false ⟨(), ['1'], ['s']⟩ true
    (fun _ => ['o', 'l', 'd']) firstMessage twoMessages _ _ rfl hby hopen rfl rfl⟩

end SocketPractice.Socket
