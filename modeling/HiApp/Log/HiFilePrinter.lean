import HiApp.Lib.CivilDate
import HiApp.Lib.Runs
import Mathlib.Data.Set.Function

/-!
# Log files

The worker writes the queued entries to the file that is open, and opens one only while none is.
An open file is never closed, and so the file of the first day gets the entries of all days.
-/

namespace HiApp.Log

open Runs

structure HiLogMo where
  timeMillis : ℕ
  level : ℤ
  tag : String
  log : String
  deriving DecidableEq

/-- The entries of the files that exist in the directory, by name. -/
abbrev Files := String → Option (List HiLogMo)

namespace Files

def contents (files : Files) (name : String) : List HiLogMo := (files name).getD []

def append (files : Files) (name : String) (logMo : HiLogMo) : Files :=
  Function.update files name (some (files.contents name ++ [logMo]))

/-- It fails only for a file that does not exist. -/
def createNewFile (files : Files) (name : String) (createFails : Bool) : Option Files :=
  if (files name).isSome then some files
  else if createFails then none
  else some (Function.update files name (some []))

end Files

/-- A moment in which an entry is handled, with the offset of the default time zone. -/
structure Moment where
  currentTimeMillis : ℕ
  zoneOffset : ℤ := 0
  createFails : Bool := false
  openFails : Bool := false
  deriving DecidableEq

namespace Moment

/-- The days from 1 March of the year 0. -/
def localDay (moment : Moment) : ℕ :=
  ((moment.currentTimeMillis + moment.zoneOffset) / 86400000 + 719468).toNat

end Moment

def fileName (day : ℕ) : String := (CivilDate.ofDays day).format

theorem fileName_injective : Function.Injective fileName := CivilDate.format_ofDays_injective

def genFileName (moment : Moment) : String := fileName moment.localDay

/-- A buffered writer is the name of the file that it writes to.  `openedDay` is the day on which
it was opened. -/
structure LogWriter where
  preFileName : Option String := none
  logFile : Option String := none
  bufferedWriter : Option String := none
  openedDay : Option ℕ := none

namespace LogWriter

def isReady (writer : LogWriter) : Bool := writer.bufferedWriter.isSome

def close (writer : LogWriter) : LogWriter :=
  if writer.isReady then {} else writer

def ready (writer : LogWriter) (files : Files) (moment : Moment) (newFileName : String) :
    Bool × LogWriter × Files :=
  let failed := { writer with preFileName := none, logFile := none }
  match files.createNewFile newFileName moment.createFails with
  | none => (false, failed, files)
  | some files =>
      if moment.openFails then (false, failed, files)
      else
        (true,
          { preFileName := some newFileName
            logFile := some newFileName
            bufferedWriter := some newFileName
            openedDay := some moment.localDay }, files)

end LogWriter

/-- `lastMillis` is the time at which the last entry was handled. -/
structure HiFilePrinter where
  files : Files := fun _ ↦ none
  writer : LogWriter := {}
  logs : List HiLogMo := []
  running : Bool := false
  lastMillis : ℕ := 0

namespace HiFilePrinter

def print (printer : HiFilePrinter) (logMo : HiLogMo) : HiFilePrinter :=
  { printer with running := true, logs := printer.logs ++ [logMo] }

/-- Without a buffered writer it throws. -/
def append (printer : HiFilePrinter) (logMo : HiLogMo) : Option HiFilePrinter :=
  printer.writer.bufferedWriter.map fun name ↦
    { printer with files := printer.files.append name logMo }

def doPrint (printer : HiFilePrinter) (moment : Moment) (logMo : HiLogMo) :
    Option HiFilePrinter :=
  match printer.writer.preFileName with
  | none =>
      let newFileName := genFileName moment
      let writer := if printer.writer.isReady then printer.writer.close else printer.writer
      match writer.ready printer.files moment newFileName with
      | (false, writer, files) => some { printer with writer := writer, files := files }
      | (true, writer, files) =>
          { printer with writer := writer, files := files }.append logMo
  | some _ => printer.append logMo

inductive Action where
  | print (logMo : HiLogMo)
  | handle (moment : Moment)
  deriving DecidableEq

/-- The worker takes the entry at the head of the queue and writes it. -/
def handle (printer : HiFilePrinter) (moment : Moment) : Option HiFilePrinter :=
  match printer.logs with
  | [] => none
  | logMo :: logs =>
      { printer with logs := logs, lastMillis := moment.currentTimeMillis }.doPrint moment logMo

/-- The worker runs from the first `print` on, and its times do not decrease. -/
def step (printer : HiFilePrinter) : Action → Option HiFilePrinter
  | .print logMo => some (printer.print logMo)
  | .handle moment =>
      if printer.running ∧ printer.lastMillis ≤ moment.currentTimeMillis then
        printer.handle moment
      else none

/-- The file of a moment is there or can be created, and can be opened. -/
def CanOpen (files : Files) (moment : Moment) : Prop :=
  ((files (genFileName moment)).isSome ∨ moment.createFails = false) ∧ moment.openFails = false

/-- An entry is appended to the file of its moment if that can be opened, and no other file is
changed. -/
structure Filed (files files' : Files) (moment : Moment) (logMo : HiLogMo) : Prop where
  appended : CanOpen files moment → files'.contents (genFileName moment) =
    files.contents (genFileName moment) ++ [logMo]
  others : ∀ name, name ≠ genFileName moment → files'.contents name = files.contents name

/-- The entry that comes next is filed under the day of its moment. -/
def FilesByDay (printer : HiFilePrinter) : Action → Prop
  | .print _ => True
  | .handle moment => ∀ logMo ∈ printer.logs.head?, ∃ printer',
      printer.handle moment = some printer' ∧
        Filed printer.files printer'.files moment logMo

/-- No file is open, or the one that was opened on the same day. -/
def SameDay (printer : HiFilePrinter) : Action → Prop
  | .print _ => True
  | .handle moment => printer.logs ≠ [] → ∀ day ∈ printer.writer.openedDay,
      day = moment.localDay

instance (printer : HiFilePrinter) : DecidablePred printer.SameDay
  | .print _ => inferInstanceAs (Decidable True)
  | .handle _ => inferInstanceAs (Decidable (_ → ∀ day ∈ printer.writer.openedDay, _))

/-- The writer has the file of the day on which it was opened, if it was. -/
structure Inv (printer : HiFilePrinter) : Prop where
  preFileName : printer.writer.preFileName = printer.writer.openedDay.map fileName
  bufferedWriter : printer.writer.bufferedWriter = printer.writer.openedDay.map fileName

variable {printer printer' : HiFilePrinter} {action : Action} {files files' : Files}
  {moment : Moment} {logMo : HiLogMo} {name : String}

theorem contents_append (files : Files) (name : String) (logMo : HiLogMo) (other : String) :
    (files.append name logMo).contents other =
      if other = name then files.contents name ++ [logMo] else files.contents other := by
  unfold Files.append
  rw [Files.contents, Function.update_apply]
  split
  · rfl
  · rfl

theorem contents_createNewFile {createFails : Bool}
    (h : files.createNewFile name createFails = some files') (other : String) :
    files'.contents other = files.contents other := by
  unfold Files.createNewFile at h
  split at h
  · rw [Option.some.inj h]
  · next hnone =>
      obtain ⟨-, hfiles'⟩ := Option.ite_none_left_eq_some.mp h
      obtain rfl := Option.some.inj hfiles'
      by_cases hother : other = name
      · have hfile : files name = none := Option.not_isSome_iff_eq_none.mp hnone
        rw [hother, Files.contents, Files.contents, Function.update_self, hfile]
        rfl
      · rw [Files.contents, Files.contents, Function.update_of_ne hother]

theorem createNewFile_eq_none_iff {createFails : Bool} :
    files.createNewFile name createFails = none ↔
      files name = none ∧ createFails = true := by
  unfold Files.createNewFile
  cases files name with
  | none => simp
  | some entries => simp

/-- The writer gets the file of the day if that can be opened, and no entry is lost or added. -/
theorem ready_cases (writer : LogWriter) (files : Files) (moment : Moment) :
    ∃ files', (∀ name, files'.contents name = files.contents name) ∧
      (¬ CanOpen files moment ∧ writer.ready files moment (genFileName moment) =
        (false, { writer with preFileName := none, logFile := none }, files') ∨
      writer.ready files moment (genFileName moment) =
        (true,
          { preFileName := some (genFileName moment)
            logFile := some (genFileName moment)
            bufferedWriter := some (genFileName moment)
            openedDay := some moment.localDay }, files')) := by
  rw [LogWriter.ready]
  cases hcreate : files.createNewFile (genFileName moment) moment.createFails with
  | none =>
      obtain ⟨hnone, hfails⟩ := createNewFile_eq_none_iff.mp hcreate
      refine ⟨files, fun _ ↦ rfl, .inl ⟨fun hopen ↦ ?_, rfl⟩⟩
      rcases hopen.1 with hsome | hcreated
      · rw [hnone] at hsome
        exact absurd hsome Bool.false_ne_true
      · exact (Bool.false_ne_true (hcreated.symm.trans hfails)).elim
  | some files' =>
      refine ⟨files', contents_createNewFile hcreate, ?_⟩
      dsimp only
      by_cases hopenFails : moment.openFails = true
      · rw [if_pos hopenFails]
        exact .inl ⟨fun hopen ↦ Bool.false_ne_true (hopen.2.symm.trans hopenFails), rfl⟩
      · rw [if_neg hopenFails]
        exact .inr rfl

/-- To the file that was opened, whatever day it is. -/
theorem Inv.doPrint_of_some (h : printer.Inv) {day : ℕ}
    (hday : printer.writer.openedDay = some day) :
    printer.doPrint moment logMo =
      some { printer with files := printer.files.append (fileName day) logMo } := by
  have hname := h.preFileName
  have hwriter := h.bufferedWriter
  rw [hday, Option.map_some] at hname hwriter
  rw [doPrint, hname]
  dsimp only
  rw [append, hwriter, Option.map_some]

/-- A file is opened for the day, or none is. -/
theorem Inv.doPrint_of_none (h : printer.Inv) (hday : printer.writer.openedDay = none) :
    ∃ printer', printer.doPrint moment logMo = some printer' ∧ printer'.Inv ∧
      Filed printer.files printer'.files moment logMo := by
  have hname := h.preFileName
  have hwriter := h.bufferedWriter
  rw [hday, Option.map_none] at hname hwriter
  have hnotReady : ¬ printer.writer.isReady := by
    rw [LogWriter.isReady, hwriter]
    exact Bool.false_ne_true
  rw [doPrint, hname]
  dsimp only
  rw [if_neg hnotReady]
  obtain ⟨files, hcontents, ⟨hnot, hready⟩ | hready⟩ :=
    ready_cases printer.writer printer.files moment
  · rw [hready]
    refine ⟨_, rfl, ⟨?_, ?_⟩, fun hopen ↦ absurd hopen hnot, fun name _ ↦ hcontents name⟩
    · rw [hday, Option.map_none]
    · rw [hday, hwriter, Option.map_none]
  · rw [hready]
    refine ⟨_, rfl, ⟨rfl, rfl⟩, fun _ ↦ ?_, fun name hne ↦ ?_⟩
    · dsimp only
      rw [contents_append, if_pos rfl, hcontents]
    · dsimp only
      rw [contents_append, if_neg hne, hcontents]

theorem Inv.doPrint (h : printer.Inv) (hprint : printer.doPrint moment logMo = some printer') :
    printer'.Inv := by
  cases hday : printer.writer.openedDay with
  | none =>
      obtain ⟨printer'', hprint'', hinv, -⟩ : ∃ printer'',
          printer.doPrint moment logMo = some printer'' ∧ printer''.Inv ∧ _ :=
        h.doPrint_of_none hday
      obtain rfl := Option.some.inj (hprint.symm.trans hprint'')
      exact hinv
  | some day =>
      rw [h.doPrint_of_some hday] at hprint
      obtain rfl := Option.some.inj hprint
      exact ⟨h.preFileName, h.bufferedWriter⟩

theorem Inv.take (h : printer.Inv) (logs : List HiLogMo) (lastMillis : ℕ) :
    Inv { printer with logs := logs, lastMillis := lastMillis } :=
  ⟨h.preFileName, h.bufferedWriter⟩

theorem handle_of_cons {logs : List HiLogMo} (hlogs : printer.logs = logMo :: logs) :
    printer.handle moment =
      { printer with logs := logs, lastMillis := moment.currentTimeMillis }.doPrint moment
        logMo := by
  rw [handle, hlogs]

theorem Inv.step (h : printer.Inv) (hstep : printer.step action = some printer') :
    printer'.Inv := by
  cases action with
  | print logMo =>
      obtain rfl := Option.some.inj hstep
      exact ⟨h.preFileName, h.bufferedWriter⟩
  | handle moment =>
      obtain ⟨-, hhandle⟩ := Option.ite_none_right_eq_some.mp hstep
      cases hlogs : printer.logs with
      | nil =>
          rw [handle, hlogs] at hhandle
          cases hhandle
      | cons logMo logs =>
          rw [handle_of_cons hlogs] at hhandle
          exact (h.take logs moment.currentTimeMillis).doPrint hhandle

/-- An entry that is written to the open file is filed if that is the file of the day. -/
theorem filed_append_iff {day : ℕ} :
    Filed files (files.append (fileName day) logMo) moment logMo ↔ day = moment.localDay := by
  constructor
  · intro hfiled
    by_contra hne
    have hother : fileName day ≠ genFileName moment := fileName_injective.ne hne
    have hsame := hfiled.others _ hother
    rw [contents_append, if_pos rfl] at hsame
    exact absurd hsame (by simp)
  · rintro rfl
    refine ⟨fun _ ↦ ?_, fun name hne ↦ ?_⟩
    · exact (contents_append files _ logMo _).trans (if_pos rfl)
    · exact (contents_append files _ logMo _).trans (if_neg hne)

theorem filesByDay_iff_of_inv (h : printer.Inv) (action : Action) :
    printer.FilesByDay action ↔ printer.SameDay action := by
  cases action with
  | print logMo => exact Iff.rfl
  | handle moment =>
      rw [FilesByDay, SameDay]
      cases hlogs : printer.logs with
      | nil => simp
      | cons logMo logs =>
          have hinv := h.take logs moment.currentTimeMillis
          rw [List.head?_cons, imp_iff_right (List.cons_ne_nil logMo logs), handle_of_cons hlogs]
          simp only [Option.mem_some, forall_eq']
          cases hday : printer.writer.openedDay with
          | none =>
              obtain ⟨printer', hprint, -, hfiled⟩ := hinv.doPrint_of_none hday
              exact iff_of_true ⟨printer', hprint, hfiled⟩ (by simp)
          | some day =>
              rw [hinv.doPrint_of_some hday]
              simp only [Option.mem_some, Option.some.injEq, exists_eq_left', forall_eq',
                filed_append_iff]

/-- Every entry of a run is filed under its day if and only if a file, once it is open, gets only
entries of the day on which it was opened. -/
theorem filesByDay_iff_sameDay (files : Files) (actions : List Action) :
    StepsMeet step FilesByDay { files := files } actions ↔
      StepsMeet step SameDay { files := files } actions := by
  have hinit : Inv { files := files } := ⟨rfl, rfl⟩
  constructor
  · exact stepsMeet_of_imp (fun _ _ _ hu _ hstep ↦ hu.step hstep)
      (fun _ action hu _ ↦ (filesByDay_iff_of_inv hu action).mp) hinit stepsMeet_true
  · exact stepsMeet_of_imp (fun _ _ _ hu _ hstep ↦ hu.step hstep)
      (fun _ action hu _ ↦ (filesByDay_iff_of_inv hu action).mpr) hinit stepsMeet_true

/-- The second entry is handled a second after midnight. -/
theorem not_filesByDay_midnight :
    let first : HiLogMo := { timeMillis := 1785542399000, level := 4, tag := "HiLog", log := "a" }
    let second : HiLogMo :=
      { timeMillis := 1785542401000, level := 4, tag := "HiLog", log := "b" }
    ∃ printer, run step {}
        [.print first, .handle { currentTimeMillis := 1785542399000 }, .print second,
          .handle { currentTimeMillis := 1785542401000 }] = some printer ∧
      printer.files.contents "2026-07-31" = [first, second] ∧
        printer.files.contents "2026-08-01" = [] :=
  exists_run_of_any (by decide)

end HiFilePrinter

end HiApp.Log
