import SocketPractice.Socket.Logout

/-!
# The limit of the log (`libsrcs/logout/logout.c`)

With `g_max_log_size` set, a message that finds the log that long empties it first.  A
process with one thread thus keeps its latest messages without a gap, and the log never is a
whole message above the limit.  The text that was there before the process counts only if
`ftell` sees it.
-/

namespace SocketPractice.Socket

open Lib.Memory Lib.Runs Lib.Stdio

/-! ## 1. What the log may hold -/

/-- What a call adds to the log. -/
def LogoutCall.entry {φ : Type} (c : LogoutCall φ) : List Char := c.timeStamp ++ c.text

/-- What the calls of a run add, one after the other. -/
def entriesOf {φ ι : Type} (evs : List (LogoutEvent φ ι)) : List (List Char) :=
  evs.filterMap fun
    | .call _ c => some c.entry
    | .step .. => none

/-- All calls are for one file, and it can be opened. -/
def LogoutEvent.LogsTo {φ ι : Type} (path : φ) : LogoutEvent φ ι → Prop
  | .call _ c => c.path = path
  | .step _ answers => answers.fopen ≠ none ∧ answers.freopen = true

/-- What a log may hold after some entries, with the text before the first of them: it is
    emptied before the first entry, or when it has reached the limit. -/
inductive Latest (clear : Bool) (max : Int) (before : List Char) :
    List (List Char) → List Char → Prop
  | anew (e : List Char) : Latest clear max before [e] e
  | behind (e : List Char) (hclear : clear = false) : Latest clear max before [e] (before ++ e)
  | next {es : List (List Char)} {text : List Char} (e : List Char)
      (h : Latest clear max before es text) (hsmall : 0 < max → text.length < max) :
      Latest clear max before (es ++ [e]) (text ++ e)
  | full {es : List (List Char)} {text : List Char} (e : List Char)
      (h : Latest clear max before es text) (hmax : 0 < max) :
      Latest clear max before (es ++ [e]) e

section Latest

variable {clear : Bool} {max : Int} {before text : List Char} {es : List (List Char)}

/-- It holds the latest entries without a gap, behind the old text or behind nothing. -/
theorem Latest.tail (h : Latest clear max before es text) :
    ∃ old recent, es = old ++ recent ∧ recent ≠ [] ∧ (old ≠ [] → 0 < max) ∧
      (text = recent.flatten ∨ old = [] ∧ clear = false ∧ text = before ++ recent.flatten) := by
  induction h with
  | anew e => exact ⟨[], [e], rfl, by simp, by simp, .inl (by simp)⟩
  | behind e hclear => exact ⟨[], [e], rfl, by simp, by simp, .inr ⟨rfl, hclear, by simp⟩⟩
  | next e h hsmall ih =>
      obtain ⟨old, recent, hes, hrecent, hmax, htext⟩ := ih
      refine ⟨old, recent ++ [e], by rw [hes, List.append_assoc], by simp, hmax, ?_⟩
      rcases htext with htext | ⟨hold, hclear, htext⟩
      · exact .inl (by simp [htext])
      · exact .inr ⟨hold, hclear, by simp [htext]⟩
  | full e h hmax ih => exact ⟨_, [e], rfl, by simp, fun _ => hmax, .inl (by simp)⟩

/-- From the second entry on, it is less than one entry above the limit. -/
theorem Latest.size (h : Latest clear max before es text) (hmax : 0 < max)
    (hlen : 2 ≤ es.length) : ∃ last, es.getLast? = some last ∧ text.length < max + last.length := by
  cases h with
  | anew e => simp at hlen
  | behind e hclear => simp at hlen
  | next e h hsmall =>
      refine ⟨e, by simp, ?_⟩
      have hlt := hsmall hmax
      rw [List.length_append]
      omega
  | full e h hmax => exact ⟨text, by simp, by omega⟩

end Latest

/-! ## 2. A message -/

/-- The log is open and flushed. -/
structure Resting {φ ι : Type} (path : φ) (clear : Bool) (max : Int) (before : List Char)
    (es : List (List Char)) (s : Logger φ ι) (a : Addr) (st : Stream φ) : Prop where
  isOpen : LogOpen s a st path
  empty : st.buffer = []
  pos : st.pos = (s.disk path).length
  keeps : s.gClearLogFile = false
  latest : Latest clear max before es (s.disk path)

/-- The log is open, and with what the call has still to print it is what it should be. -/
structure Writing {φ ι : Type} (path : φ) (clear : Bool) (max : Int) (before : List Char)
    (es : List (List Char)) (c : LogoutCall φ) (pc : LogoutPc) (s : Logger φ ι) (a : Addr)
    (st : Stream φ) : Prop where
  isOpen : LogOpen s a st path
  keeps : s.gClearLogFile = false
  latest : Latest clear max before (es ++ [c.entry])
    (logText s st ++ (left (some (c, pc))).flatten)
  settled : pc ≠ .outputTimeStamp → st.Settled (s.disk path)

/-- What a message has done that finds the log open, and any message from its stamp on. -/
def Later {φ ι : Type} (path : φ) (clear : Bool) (max : Int) (before : List Char)
    (es : List (List Char)) (c : LogoutCall φ) (s : Logger φ ι) : LogoutPc → Prop
  | .ifNull | .ifStillNull | .ifClear => ∃ a st, Resting path clear max before es s a st
  | .fopen => False
  | .freopen => (∃ a st, Resting path clear max before es s a st) ∧ 0 < max
  | .unsetClear =>
      (∃ a, s.fp = some a ∧ s.streams a = some (.openEmptied path)) ∧ s.disk path = [] ∧
        0 < max ∧ ∃ text, Latest clear max before es text
  | pc => ∃ a st, Writing path clear max before es c pc s a st

/-- The thread goes on with the message, or has logged it. -/
def Continues {φ ι : Type} (path : φ) (clear : Bool) (max : Int) (before : List Char)
    (es : List (List Char)) (c : LogoutCall φ) (i : ι) (t : Logger φ ι) : Prop :=
  (∃ pc, t.pcs i = some (c, pc) ∧ Later path clear max before es c t pc) ∨
    t.pcs i = none ∧ ∃ a st, Resting path clear max before (es ++ [c.entry]) t a st

/-- The first stamp. -/
theorem Opened.writing {φ ι : Type} {path : φ} {clear : Bool} {max : Int} {disk : Disk φ}
    {s : Logger φ ι} {c : LogoutCall φ} {a : Addr} {st : Stream φ}
    (h : Opened path clear max disk s a st) :
    Writing path clear max (disk path) [] c .outputTimeStamp s a st := by
  refine ⟨h.isOpen, h.keeps, ?_, fun hne => absurd rfl hne⟩
  have hleft : (left (some (c, .outputTimeStamp))).flatten = c.entry := by
    simp [left, LogoutCall.entry]
  rw [h.isOpen.logText_eq h.empty, hleft]
  rcases h.text with ⟨hempty, -⟩ | ⟨hsame, hclear⟩
  · rw [hempty]
    exact .anew c.entry
  · rw [hsame]
    exact .behind c.entry hclear

section Limit

variable {φ ι : Type} [DecidableEq ι] {path : φ} {clear : Bool} {max : Int} {before : List Char}
  {es : List (List Char)} {s t : Logger φ ι} {c : LogoutCall φ} {i : ι} {a : Addr}
  {st : Stream φ} {answers : LogoutAnswers}

theorem Resting.goto (h : Resting path clear max before es s a st)
    (call : Option (LogoutCall φ × LogoutPc)) :
    Resting path clear max before es (s.goto i call) a st :=
  ⟨h.isOpen.goto i call, h.empty, h.pos, h.keeps, h.latest⟩

/-- The stamp is the next that is printed, behind what is there. -/
theorem Resting.writing (h : Resting path clear max before es s a st)
    (hsmall : 0 < max → (s.disk path).length < max) (call : Option (LogoutCall φ × LogoutPc)) :
    Writing path clear max before es c .outputTimeStamp (s.goto i call) a st := by
  refine ⟨h.isOpen.goto i call, h.keeps, ?_, fun hne => absurd rfl hne⟩
  rw [(h.isOpen.goto i call).logText_eq h.empty]
  show Latest _ _ _ _ (s.disk path ++ _)
  simpa [left, LogoutCall.entry] using h.latest.next c.entry hsmall

variable [DecidableEq φ]

theorem Later.step {pc : LogoutPc} (h : Later path clear s.gMaxLogSize before es c s pc)
    (hi : s.pcs i = some (c, pc)) (hc : c.path = path) (hopen : answers.freopen = true) :
    Continues path clear s.gMaxLogSize before es c i (logoutStatement s i c answers pc) ∧
      (logoutStatement s i c answers pc).gMaxLogSize = s.gMaxLogSize ∧
      (logoutStatement s i c answers pc).fault = s.fault := by
  cases pc with
  | ifNull =>
      obtain ⟨a, st, hrest⟩ := h
      simp only [logoutStatement, hrest.isOpen.fp, reduceCtorEq, if_false]
      exact ⟨.inl ⟨.ifStillNull, goto_self, a, st, hrest.goto _⟩, rfl, rfl⟩
  | fopen => exact h.elim
  | ifStillNull =>
      obtain ⟨a, st, hrest⟩ := h
      simp only [logoutStatement, hrest.isOpen.fp, reduceCtorEq, if_false]
      exact ⟨.inl ⟨.ifClear, goto_self, a, st, hrest.goto _⟩, rfl, rfl⟩
  | ifClear =>
      obtain ⟨a, st, hrest⟩ := h
      have htell : st.ftell (s.disk st.file) = (s.disk path).length := by
        rw [Stream.ftell_of_empty hrest.empty, hrest.pos]
      simp only [logoutStatement, hrest.keeps, Bool.false_eq_true, if_false,
        hrest.isOpen.withFp, htell]
      by_cases hmax : s.gMaxLogSize > 0
      · rw [if_pos hmax]
        by_cases hfull : ((s.disk path).length : Int) ≥ s.gMaxLogSize
        · rw [if_pos hfull]
          exact ⟨.inl ⟨.freopen, goto_self, ⟨a, st, hrest.goto _⟩, hmax⟩, rfl, rfl⟩
        · rw [if_neg hfull]
          exact ⟨.inl ⟨.outputTimeStamp, goto_self, a, st,
            hrest.writing (fun _ => Int.not_le.mp hfull) _⟩, rfl, rfl⟩
      · rw [if_neg hmax]
        exact ⟨.inl ⟨.outputTimeStamp, goto_self, a, st,
          hrest.writing (fun hlt => absurd hlt hmax) _⟩, rfl, rfl⟩
  | freopen =>
      obtain ⟨⟨a, st, hrest⟩, hmax⟩ := h
      simp only [logoutStatement, hrest.isOpen.withFp, Logger.freopen, hopen, if_true]
      refine ⟨.inl ⟨.unsetClear, goto_self, ⟨a, hrest.isOpen.fp, ?_⟩, ?_, hmax,
        _, hrest.latest⟩, rfl, rfl⟩
      · show Function.update (s.flush a st).streams a _ a = _
        rw [Function.update_self, hc]
      · show Function.update (s.flush a st).disk c.path [] path = []
        rw [hc, Function.update_self]
  | unsetClear =>
      obtain ⟨⟨a, hfp, hst⟩, hempty, hmax, text, hlatest⟩ := h
      have hwriting : Writing path clear s.gMaxLogSize before es c .outputTimeStamp
          ({ s with gClearLogFile := false }.goto i (some (c, .outputTimeStamp))) a
          (.openEmptied path) := by
        refine ⟨⟨hfp, hst, rfl, .inr ?_⟩, rfl, ?_, fun hne => absurd rfl hne⟩
        · show 0 = (s.disk path).length
          rw [hempty]
          rfl
        · show Latest _ _ _ _ (s.disk path ++ [] ++ _)
          rw [hempty]
          simpa [left, LogoutCall.entry] using hlatest.full c.entry hmax
      exact ⟨.inl ⟨.outputTimeStamp, goto_self, a, _, hwriting⟩, rfl, rfl⟩
  | outputTimeStamp =>
      obtain ⟨a, st, hw⟩ := h
      simp only [logoutStatement, hw.isOpen.withFp]
      obtain ⟨st', hp⟩ := hw.isOpen.fprintf c.timeStamp answers.full
      refine ⟨.inl ⟨.vfprintf, goto_self, a, st', hp.isOpen.goto i _,
        hp.statics.1.trans hw.keeps, ?_, fun _ => hp.settled (.inr (List.cons_ne_nil _ _))⟩,
        hp.statics.2, hp.fault⟩
      show Latest _ _ _ _ (logText (s.fprintf a st c.timeStamp answers.full) st' ++ _)
      rw [hp.logged]
      simpa [left] using hw.latest
  | vfprintf =>
      obtain ⟨a, st, hw⟩ := h
      simp only [logoutStatement, hw.isOpen.withFp]
      obtain ⟨st', hp⟩ := hw.isOpen.fprintf c.text answers.full
      refine ⟨.inl ⟨.fflush, goto_self, a, st', hp.isOpen.goto i _,
        hp.statics.1.trans hw.keeps, ?_, fun _ => hp.settled (.inl (hw.settled (by decide)))⟩,
        hp.statics.2, hp.fault⟩
      show Latest _ _ _ _ (logText (s.fprintf a st c.text answers.full) st' ++ _)
      rw [hp.logged]
      simpa [left] using hw.latest
  | fflush =>
      obtain ⟨a, st, hw⟩ := h
      simp only [logoutStatement, hw.isOpen.withFp]
      refine ⟨.inr ⟨goto_self, a, _, hw.isOpen.flush.goto i none, Stream.fflush_buffer,
        hw.isOpen.pos_flush (hw.settled (by decide)), hw.keeps, ?_⟩, rfl, rfl⟩
      show Latest _ _ _ _ ((s.flush a st).disk path)
      rw [hw.isOpen.disk_flush]
      simpa [left] using hw.latest

end Limit

/-! ## 3. A run -/

/-- The thread has not logged yet, rests, or is in a message behind the entries `es`. -/
def Single {φ ι : Type} (i : ι) (path : φ) (clear : Bool) (max : Int) (disk : Disk φ)
    (evs : List (LogoutEvent φ ι)) (s : Logger φ ι) : Prop :=
  s.fault = false ∧ s.gMaxLogSize = max ∧
    ((s.pcs i = none ∧
        (entriesOf evs = [] ∧ s.fp = none ∧ s.disk = disk ∧ s.gClearLogFile = clear ∨
          ∃ a st, Resting path clear max (disk path) (entriesOf evs) s a st)) ∨
      ∃ c pc es, s.pcs i = some (c, pc) ∧ c.path = path ∧ entriesOf evs = es ++ [c.entry] ∧
        (es = [] ∧ pc ≠ .outputTimeStamp ∧ Opening path clear max disk s pc ∨
          Later path clear max (disk path) es c s pc))

section Run

variable {φ ι : Type} [DecidableEq φ] [DecidableEq ι] {i : ι} {path : φ} {clear : Bool}
  {max : Int} {disk : Disk φ} {evs : List (LogoutEvent φ ι)} {s t : Logger φ ι}

theorem Single.call (h : Single i path clear max disk evs s) {c : LogoutCall φ}
    (hc : c.path = path) (hstep : logoutStep s (.call i c) = some t) :
    Single i path clear max disk (evs ++ [.call i c]) t := by
  obtain ⟨hfault, hmax, hwhere⟩ := h
  simp only [logoutStep, Option.ite_none_right_eq_some, Option.some.injEq,
    Option.isNone_iff_eq_none] at hstep
  obtain ⟨hnone, rfl⟩ := hstep
  have hentries : entriesOf (evs ++ [.call i c]) = entriesOf evs ++ [c.entry] := by
    simp [entriesOf]
  refine ⟨hfault, hmax, .inr ⟨c, .ifNull, entriesOf evs, goto_self, hc, hentries, ?_⟩⟩
  rcases hwhere with ⟨-, ⟨hnil, hfp, hdisk, hkeeps⟩ | ⟨a, st, hrest⟩⟩ | ⟨c', pc, es, hi, -⟩
  · exact .inl ⟨hnil, by decide, hfp, hdisk, hkeeps⟩
  · exact .inr ⟨a, st, hrest.goto _⟩
  · rw [hnone] at hi
    cases hi

theorem Single.step (h : Single i path clear max disk evs s) {answers : LogoutAnswers}
    (hopen : answers.fopen ≠ none ∧ answers.freopen = true)
    (hstep : logoutStep s (.step i answers) = some t) :
    Single i path clear max disk (evs ++ [.step i answers]) t := by
  obtain ⟨hfault, hmax, hwhere⟩ := h
  have hentries : entriesOf (evs ++ [.step i answers]) = entriesOf evs := by simp [entriesOf]
  rcases hwhere with ⟨hnone, -⟩ | ⟨c, pc, es, hi, hc, hes, hwhere⟩
  · simp [logoutStep, hnone] at hstep
  · simp only [logoutStep, hi, Option.ite_none_right_eq_some, Option.some.injEq] at hstep
    obtain ⟨-, rfl⟩ := hstep
    subst hmax
    rw [Single, hentries, hes]
    rcases hwhere with ⟨rfl, hpc, hopening⟩ | hlater
    · obtain ⟨pc', hnext, hpcs, hmax', hfault'⟩ := hopening.step hc hpc (i := i) hopen
      have hi' := congrFun hpcs i
      rw [Function.update_self] at hi'
      refine ⟨hfault'.trans hfault, hmax', .inr ⟨c, pc', [], hi', hc, rfl, ?_⟩⟩
      by_cases hstamp : pc' = .outputTimeStamp
      · subst hstamp
        obtain ⟨a, st, hopened⟩ := hnext
        exact .inr ⟨a, st, hopened.writing⟩
      · exact .inl ⟨rfl, hstamp, hnext⟩
    · obtain ⟨hcontinues, hmax', hfault'⟩ := hlater.step hi hc hopen.2
      refine ⟨hfault'.trans hfault, hmax', ?_⟩
      rcases hcontinues with ⟨pc', hi', hlater'⟩ | ⟨hnone, hrest⟩
      · exact .inr ⟨c, pc', es, hi', hc, rfl, .inr hlater'⟩
      · exact .inl ⟨hnone, .inr hrest⟩

end Run

/-- A process that logs from one thread, whatever its limit: when it is not in a message, the
    log holds its latest entries without a gap, behind the old text or behind nothing; it has
    dropped entries only if there is a limit; and from the second entry on it is less than one
    entry above that limit. -/
theorem log_holds_latest {φ ι : Type} [DecidableEq φ] [DecidableEq ι] {i : ι} {path : φ}
    {clear : Bool} {max : Int} {disk : Disk φ} {evs : List (LogoutEvent φ ι)} {s : Logger φ ι}
    (hby : ∀ e ∈ evs, e.By i) (hpath : ∀ e ∈ evs, e.LogsTo path)
    (hrun : exec logoutStep (initLogFileClear clear max (newLogger ι disk)) evs = some s)
    (hidle : s.pcs i = none) (hsome : entriesOf evs ≠ []) :
    s.fault = false ∧
      (∃ old recent, entriesOf evs = old ++ recent ∧ recent ≠ [] ∧ (old ≠ [] → 0 < max) ∧
        (s.disk path = recent.flatten ∨
          old = [] ∧ clear = false ∧ s.disk path = disk path ++ recent.flatten)) ∧
      (0 < max → 2 ≤ (entriesOf evs).length → ∃ last, (entriesOf evs).getLast? = some last ∧
        (s.disk path).length < max + last.length) := by
  have hsingle : Single i path clear max disk evs s := by
    have hhist := exec_history (K := fun es s => (∀ e ∈ es, e.By i ∧ e.LogsTo path) →
      Single i path clear max disk es s) ?_ ?_ hrun
    · exact hhist fun e he => ⟨hby e he, hpath e he⟩
    · intro es s e t hs hstep hes
      have hsingle := hs fun e' he' => hes e' (List.mem_append_left _ he')
      obtain ⟨hthread, hlogs⟩ := hes e (by simp)
      cases e with
      | call j c =>
          obtain rfl : i = j := Eq.symm hthread
          exact hsingle.call hlogs hstep
      | step j answers =>
          obtain rfl : i = j := Eq.symm hthread
          exact hsingle.step hlogs hstep
    · exact fun _ => ⟨rfl, rfl, .inl ⟨rfl, .inl ⟨rfl, rfl, rfl, rfl⟩⟩⟩
  obtain ⟨hfault, -, ⟨-, ⟨hnil, -⟩ | ⟨a, st, hrest⟩⟩ | ⟨c, pc, es, hi, -⟩⟩ := hsingle
  · exact absurd hnil hsome
  · exact ⟨hfault, hrest.latest.tail, fun hmax hlen => hrest.latest.size hmax hlen⟩
  · rw [hidle] at hi
    cases hi

/-- Three messages of four characters and a limit of six: the third finds eight. -/
def threeMessages : List (LogoutEvent Unit Unit) :=
  (.call () ⟨(), ['1'], ['a']⟩ :: List.replicate 7 (.step () allOpens)) ++
    (.call () ⟨(), ['2'], ['b']⟩ :: List.replicate 6 (.step () allOpens)) ++
    (.call () ⟨(), ['3'], ['c']⟩ :: List.replicate 8 (.step () allOpens))

theorem log_holds_latest_threeMessages : ∃ s : Logger Unit Unit,
    exec logoutStep (initLogFileClear false 6 (newLogger Unit fun _ => [])) threeMessages =
      some s ∧
    s.disk () = ['(', '3', ')', 'c'] ∧ s.fault = false ∧
      (∃ old recent, entriesOf threeMessages = old ++ recent ∧ recent ≠ [] ∧
        (old ≠ [] → (0 : Int) < 6) ∧ (s.disk () = recent.flatten ∨
          old = [] ∧ false = false ∧ s.disk () = [] ++ recent.flatten)) ∧
      ((0 : Int) < 6 → 2 ≤ (entriesOf threeMessages).length →
        ∃ last, (entriesOf threeMessages).getLast? = some last ∧
          ((s.disk ()).length : Int) < 6 + last.length) := by
  have hby : ∀ e ∈ threeMessages, e.By () := by
    simp [threeMessages, LogoutEvent.By]
  have hpath : ∀ e ∈ threeMessages, e.LogsTo () := by
    simp [threeMessages, LogoutEvent.LogsTo, allOpens]
  exact ⟨_, rfl, rfl, @log_holds_latest Unit Unit _ _ () () false 6 (fun _ => [])
    threeMessages _ hby hpath rfl rfl (by simp [threeMessages, entriesOf])⟩

end SocketPractice.Socket
