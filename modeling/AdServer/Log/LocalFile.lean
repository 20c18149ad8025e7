import AdServer.Library.Handles
import AdServer.Library.Transition
import AdServer.Log.Frame
import AdServer.Url.Basic

/-!
The local log files of one executor thread. `LogPushLocalTask` keeps the file of its
thread open for an hour, in a record that is local to the thread. The expired file is
closed and the local copy of the pointer is set to null. The stored pointer is replaced
only when the new file has been opened, and two returns come before that.
-/
namespace AdServer.Log

open Transition Handles

structure LogPushLocalThreadData where
  fp : Option Nat
  lastTime : Int
  logCnt : Nat

def LogPushLocalThreadData.create : LogPushLocalThreadData := ⟨none, 0, 0⟩

def hourSecond : Int := 3600

structure Tm where
  tmYear : Nat
  tmMon : Nat
  tmMday : Nat
  tmHour : Nat

/-- What a task finds: the clock, and what `access`, `mkdir` and `fopen` return. -/
structure LocalEnv where
  logFolder : Bytes
  pid : Nat
  thread : Nat
  curTime : Int
  ltime : Tm
  todayStartTime : Int
  folderExists : Bool
  folderMade : Bool
  fileOpened : Bool

def twoDigits (n : Nat) : Bytes := if n < 10 then byte '0' :: decimal n else decimal n

def dirName (logFolder : Bytes) (ltime : Tm) : Bytes :=
  logFolder ++ bytes "/" ++ decimal (1900 + ltime.tmYear) ++ twoDigits (ltime.tmMon + 1) ++
    twoDigits ltime.tmMday ++ twoDigits ltime.tmHour

def fileName (env : LocalEnv) : Bytes :=
  dirName env.logFolder env.ltime ++ bytes "/bussiness." ++ decimal env.pid ++ bytes "." ++
    decimal env.thread ++ bytes "." ++ Url.intToString env.curTime ++ bytes ".log"

structure LocalFile where
  name : Bytes
  content : Bytes

abbrev Files := Table LocalFile

def Files.fopen (name : Bytes) : Files → Files := Table.allocate ⟨name, []⟩

def Files.fwrite (text : Bytes) : Nat → Files → Files :=
  Table.access fun file => { file with content := file.content ++ text }

def Files.fclose : Nat → Files → Files := Table.release

def expired (data : LogPushLocalThreadData) (env : LocalEnv) : Bool :=
  data.fp.isSome && decide (data.lastTime < env.curTime - hourSecond)

/-- The folder is there or can be made, and the file can be opened. That the directory of
the hour cannot be made is only reported. -/
def LocalEnv.opens (env : LocalEnv) : Bool := (env.folderExists || env.folderMade) && env.fileOpened

def closeExpired (data : LogPushLocalThreadData) (env : LocalEnv) (files : Files) : Files :=
  match data.fp with
  | some fp => if expired data env then Files.fclose fp files else files
  | none => files

def writeLog (log : Bytes) (fp : Nat) (data : LogPushLocalThreadData) (files : Files) :
    LogPushLocalThreadData × Files :=
  ({ data with logCnt := data.logCnt + 1 },
    Files.fwrite log fp (Files.fwrite (flag log.length) fp files))

def resetCount (data : LogPushLocalThreadData) (env : LocalEnv) : LogPushLocalThreadData :=
  { data with logCnt := if expired data env then 0 else data.logCnt }

/-- The part of the task in which the expired file is closed and a new one opened. -/
def reopen (log : Bytes) (env : LocalEnv) (data : LogPushLocalThreadData) (files : Files) :
    LogPushLocalThreadData × Files :=
  let files := closeExpired data env files
  let data := resetCount data env
  if !env.folderExists && !env.folderMade then (data, files)
  else if !env.fileOpened then (data, files)
  else
    writeLog log files.next
      { data with
        fp := some files.next
        lastTime := env.todayStartTime + env.ltime.tmHour * hourSecond }
      (Files.fopen (fileName env) files)

/-- `LogPushLocalTask::operator()`. -/
def localTask (log : Bytes) (env : LocalEnv) (data : LogPushLocalThreadData) (files : Files) :
    LogPushLocalThreadData × Files :=
  match data.fp with
  | none => reopen log env data files
  | some fp => if expired data env then reopen log env data files else writeLog log fp data files

/-- The record of the thread until it is deleted, and the files the thread has opened. -/
structure LocalState where
  data : Option LogPushLocalThreadData
  files : Files

inductive LocalEvent where
  | task (log : Bytes) (env : LocalEnv)
  | destroy

inductive LocalStep : LocalState → LocalEvent → LocalState → Prop where
  | task {data : LogPushLocalThreadData} {files : Files} {log : Bytes} {env : LocalEnv} :
      LocalStep ⟨some data, files⟩ (.task log env)
        ⟨some (localTask log env data files).1, (localTask log env data files).2⟩
  | destroyOpen {data : LogPushLocalThreadData} {files : Files} {fp : Nat}
      (hfp : data.fp = some fp) :
      LocalStep ⟨some data, files⟩ .destroy ⟨none, Files.fclose fp files⟩
  | destroyNull {data : LogPushLocalThreadData} {files : Files} (hfp : data.fp = none) :
      LocalStep ⟨some data, files⟩ .destroy ⟨none, files⟩

def localSystem : System LocalState LocalEvent where
  init s := s = ⟨some .create, Table.empty⟩
  step := LocalStep

/-- The stored pointer is null or refers to an open file, and `fclose` and `fwrite` have
been called on open files only. -/
structure HandleSafe (s : LocalState) : Prop where
  stored : ∀ data, s.data = some data → ∀ fp, data.fp = some fp → s.files.isOpen fp = true
  used : s.files.misused = []

/-- An expired file is closed only where the next one can be opened. -/
def Reopens (s : LocalState) : LocalEvent → Prop
  | .task _ env => ∀ data, s.data = some data → expired data env = true → env.opens = true
  | .destroy => True

section
variable {log : Bytes} {env : LocalEnv} {data : LogPushLocalThreadData} {files : Files} {fp : Nat}

theorem isOpen_writeLog (other : Nat) :
    (writeLog log fp data files).2.isOpen other = files.isOpen other := by
  simp only [writeLog, Files.fwrite, Table.isOpen_access]

theorem misused_writeLog (data : LogPushLocalThreadData) :
    (writeLog log fp data files).2.misused = [] ↔ files.misused = [] ∧ files.isOpen fp = true := by
  simp only [writeLog, Files.fwrite, Table.access, Table.misused_use]
  have hopen := Table.isOpen_access (fun file : LocalFile =>
    { file with content := file.content ++ flag log.length }) fp fp files
  rw [Table.access] at hopen
  rw [hopen, and_assoc, and_self]

theorem closeExpired_of_not (files : Files) (hexpired : expired data env = false) :
    closeExpired data env files = files := by
  simp only [closeExpired, hexpired]
  split <;> rfl

theorem closeExpired_of_expired (files : Files) (hfp : data.fp = some fp)
    (hexpired : expired data env = true) : closeExpired data env files = Files.fclose fp files := by
  simp only [closeExpired, hfp, hexpired, if_true]

theorem reopen_of_opens (hopens : env.opens = true) :
    reopen log env data files =
      writeLog log (closeExpired data env files).next
        { resetCount data env with
          fp := some (closeExpired data env files).next
          lastTime := env.todayStartTime + env.ltime.tmHour * hourSecond }
        (Files.fopen (fileName env) (closeExpired data env files)) := by
  rw [LocalEnv.opens, Bool.and_eq_true, Bool.or_eq_true] at hopens
  obtain ⟨hfolder, hfile⟩ := hopens
  cases hfolder with
  | inl hfolder => simp only [reopen, hfolder, hfile, Bool.not_true, Bool.false_and,
      Bool.false_eq_true, if_false]
  | inr hfolder => simp only [reopen, hfolder, hfile, Bool.not_true, Bool.and_false,
      Bool.false_eq_true, if_false]

theorem reopen_of_not_opens (hopens : env.opens = false) :
    reopen log env data files = (resetCount data env, closeExpired data env files) := by
  simp only [LocalEnv.opens, Bool.and_eq_false_iff, Bool.or_eq_false_iff] at hopens
  cases hopens with
  | inl hfolder => simp only [reopen, hfolder, Bool.not_false, Bool.and_self, if_true]
  | inr hfile =>
      simp only [reopen, hfile, Bool.not_false, if_true]
      split <;> rfl

/-- A file that is opened is stored and open, whatever was stored before. -/
theorem HandleSafe.reopened (hused : (closeExpired data env files).misused = [])
    (hopens : env.opens = true) :
    HandleSafe ⟨some (reopen log env data files).1, (reopen log env data files).2⟩ := by
  have hopen := Table.isOpen_allocate_next (⟨fileName env, []⟩ : LocalFile)
    (closeExpired data env files)
  rw [reopen_of_opens hopens]
  refine ⟨?_, ?_⟩
  · rintro data' ⟨⟩ fp ⟨⟩
    rw [isOpen_writeLog]
    exact hopen
  · rw [misused_writeLog]
    exact ⟨hused, hopen⟩

/-- A task that finds an open file keeps the discipline, and one that closes it keeps it
exactly if it opens the next one. -/
theorem HandleSafe.task_iff (h : HandleSafe ⟨some data, files⟩) :
    HandleSafe ⟨some (localTask log env data files).1, (localTask log env data files).2⟩ ↔
      (expired data env = true → env.opens = true) := by
  cases hfp : data.fp with
  | none =>
      have hexpired : expired data env = false := by simp [expired, hfp]
      have hsame := closeExpired_of_not files hexpired
      simp only [localTask, hfp, hexpired, Bool.false_eq_true, false_implies, iff_true]
      cases hopens : env.opens with
      | true => exact HandleSafe.reopened (by rw [hsame]; exact h.used) hopens
      | false =>
          rw [reopen_of_not_opens hopens, hsame]
          refine ⟨?_, h.used⟩
          rintro data' ⟨⟩ fp hstored
          cases hfp.symm.trans hstored
  | some fp =>
      have hopen : files.isOpen fp = true := h.stored data rfl fp hfp
      cases hexpired : expired data env with
      | false =>
          simp only [localTask, hfp, hexpired, Bool.false_eq_true, if_false, false_implies,
            iff_true]
          refine ⟨?_, (misused_writeLog data).mpr ⟨h.used, hopen⟩⟩
          rintro data' ⟨⟩ fp' hstored
          cases hfp.symm.trans hstored
          rw [isOpen_writeLog]
          exact hopen
      | true =>
          have hclosed := closeExpired_of_expired files hfp hexpired
          simp only [localTask, hfp, hexpired, if_true, true_implies]
          cases hopens : env.opens with
          | true =>
              refine iff_of_true (HandleSafe.reopened ?_ hopens) rfl
              rw [hclosed]
              exact (Table.misused_use _ fp files).mpr ⟨h.used, hopen⟩
          | false =>
              -- the closed file is still the one that is stored
              refine iff_of_false ?_ Bool.false_ne_true
              intro hsafe
              rw [reopen_of_not_opens hopens, hclosed] at hsafe
              have hstored := hsafe.stored _ rfl fp hfp
              cases hstored.symm.trans (Table.isOpen_release_self hopen)

end

/-- The runs in which the stored pointer is never dangling and no closed file is used are
those in which every task that closes an expired file opens the next one. -/
theorem handleSafe_iff (events : List LocalEvent) (s : LocalState) :
    Throughout localSystem HandleSafe events s ↔ Run localSystem Reopens events s := by
  refine throughout_iff (fun _ => True) HandleSafe ?_ ?_ (fun _ _ _ _ _ _ _ => trivial) events s
  · rintro s rfl
    refine ⟨trivial, ?_, rfl⟩
    rintro data ⟨⟩ fp hfp
    cases hfp
  · intro s event t _ h hstep
    cases hstep with
    | @task data files log env =>
        rw [h.task_iff, Reopens]
        refine ⟨?_, fun hopens => hopens data rfl⟩
        rintro hopens data' ⟨⟩
        exact hopens
    | @destroyOpen data files fp hfp =>
        refine iff_of_true ⟨nofun, ?_⟩ trivial
        exact (Table.misused_use _ fp files).mpr ⟨h.used, h.stored data rfl fp hfp⟩
    | destroyNull hfp => exact iff_of_true ⟨nofun, h.used⟩ trivial

def sampleEnv (curTime : Int) (folderExists : Bool) : LocalEnv where
  logFolder := bytes "/data/logs"
  pid := 1
  thread := 1
  curTime := curTime
  ltime :=
    { tmYear := 116, tmMon := 7, tmMday := 1, tmHour := ((curTime - 1469980800) / 3600).toNat }
  todayStartTime := 1469980800
  folderExists := folderExists
  folderMade := false
  fileOpened := true

/-- The folder disappears, the task after the full hour closes the file, and the next task
closes it once more. -/
theorem handle_used_after_close :
    ∃ s, Run localSystem (fun _ _ => True)
        [.task (bytes "a") (sampleEnv 1470010000 true),
          .task (bytes "b") (sampleEnv 1470014000 false),
          .task (bytes "c") (sampleEnv 1470014001 false)] s ∧
      ¬ HandleSafe s ∧ s.files.misused = [0] := by
  have hopened : Run localSystem (fun _ _ => True)
      [.task (bytes "a") (sampleEnv 1470010000 true)] _ :=
    (Run.start rfl).next trivial .task
  have hclosed : Run localSystem (fun _ _ => True)
      [.task (bytes "a") (sampleEnv 1470010000 true),
        .task (bytes "b") (sampleEnv 1470014000 false)] _ :=
    hopened.next trivial .task
  refine ⟨_, hclosed.next trivial .task, ?_, by decide⟩
  intro h
  have hused := h.used
  revert hused
  decide

end AdServer.Log
