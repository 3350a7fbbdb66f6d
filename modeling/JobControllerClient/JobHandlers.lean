import JobControllerClient.Foundation.Interleaving
import JobControllerClient.Foundation.Program
import JobControllerClient.JobSubmit
import JobControllerClient.StatusTable
import JobControllerClient.Values

/-! `check_job_status`, `handle_job_cancel` and `handle_job_delete` as programs over the
job table and the status table. One request is one await or one queued message; its
answer is an `Option` where the source has a `Result`. -/
namespace JobControllerClient

namespace JobHandlers

open JobTable (Model wireUlong i32Max)
open JobSubmit (JobUpdate capJobIdForWire jobCompletionSource statusError)
open DbRecords (Status)
open StatusTable (u32Max)

def statusCancelled : ℕ := 70
def statusDeleted : ℕ := 90
def statusCompleted : ℕ := 500

def statusToI32 (status : ℕ) : ℤ := min status i32Max

def stateToU32 (state : ℤ) : ℕ := if state < 0 then u32Max else state.toNat

def cappedStatusFromJson (status : Json) : ℕ := min (status.asU64.getD 0).toNat u32Max

/-- What a bundle function is told about the job, next to the constant cluster name. -/
structure Details where
  jobId : Option ℤ
  schedulerId : Option ℤ
  deriving DecidableEq

def getJobDetails (job : Model) : Details := ⟨job.jobId,job.schedulerId⟩

/-- The bundle functions that answer with a boolean. -/
inductive BundleFunction
  | cancel
  | delete
  deriving DecidableEq

inductive Request
  | isReady
  | getOrCreateByJobId (jobId : ℤ)
  | getJobById (id : ℤ)
  | getRunningJobs
  | saveJob (job : Model)
  | getJobStatusByJobIdAndWhat (jobId : ℤ) (what : String)
  | getJobStatusByJobId (jobId : ℤ)
  | deleteStatusByIdList (ids : List ℤ)
  | saveStatus (status : Status)
  | bundleStatus (bundleHash : String) (details : Details)
  | bundleBool (function : BundleFunction) (bundleHash : String) (details : Details)
  | archive (workingDirectory : String)
  | queueUpdate (update : JobUpdate)
  deriving DecidableEq

def Answer : Request → Type
  | .isReady => Bool
  | .getOrCreateByJobId _ => Option Model
  | .getJobById _ => Option (Option Model)
  | .getRunningJobs => Option (List Model)
  | .saveJob _ => Option Model
  | .getJobStatusByJobIdAndWhat _ _ => Option (List Status)
  | .getJobStatusByJobId _ => Option (List Status)
  | .deleteStatusByIdList _ => Option Unit
  | .saveStatus _ => Option Status
  | .bundleStatus _ _ => Json
  | .bundleBool _ _ _ => Bool
  | .archive _ => Option Unit
  | .queueUpdate _ => Unit

abbrev Async := Program Answer

def isReady : Async Bool := .ask .isReady .done

def getOrCreateByJobId (jobId : ℤ) : Async (Option Model) := .ask (.getOrCreateByJobId jobId) .done

def getJobById (id : ℤ) : Async (Option (Option Model)) := .ask (.getJobById id) .done

def getRunningJobs : Async (Option (List Model)) := .ask .getRunningJobs .done

def saveJob (job : Model) : Async (Option Model) := .ask (.saveJob job) .done

def getJobStatusByJobIdAndWhat (jobId : ℤ) (what : String) : Async (Option (List Status)) :=
  .ask (.getJobStatusByJobIdAndWhat jobId what) .done

def getJobStatusByJobId (jobId : ℤ) : Async (Option (List Status)) :=
  .ask (.getJobStatusByJobId jobId) .done

def deleteStatusByIdList (ids : List ℤ) : Async (Option Unit) :=
  .ask (.deleteStatusByIdList ids) .done

def saveStatus (status : Status) : Async (Option Status) := .ask (.saveStatus status) .done

def runBundleStatus (job : Model) : Async Json :=
  .ask (.bundleStatus job.bundleHash (getJobDetails job)) .done

def runBundleBoolForJob (function : BundleFunction) (job : Model) : Async Bool :=
  .ask (.bundleBool function job.bundleHash (getJobDetails job)) .done

def archiveJob (job : Model) : Async (Option Unit) := .ask (.archive job.workingDirectory) .done

def queueJobUpdate (jobId : ℤ) (source : String) (status : ℕ) (message : String) : Async Unit :=
  .ask (.queueUpdate ⟨capJobIdForWire jobId,source,status,message⟩) .done

/-- An entry of the status list that has a status. -/
structure Report where
  what : String
  status : ℕ
  info : String
  deriving DecidableEq

def report? (stat : Json) : Option Report :=
  if (stat.index "status").isNull then none
  else some
    { what := (stat.index "what").asStr.getD ""
      status := cappedStatusFromJson (stat.index "status")
      info := (stat.index "info").asStr.getD "" }

/-- More than one row for the same `what` are all deleted. -/
def dropDuplicates (vStatus : List Status) : Async (List Status) :=
  if 1 < vStatus.length then do
    let _ ← deleteStatusByIdList (vStatus.map (·.id))
    return []
  else return vStatus

/-- The row to save for a report: a new one, or the row found with its new state. -/
def stateItem (job : Model) (report : Report) (vStatus : List Status) : Status :=
  { vStatus.headD ⟨0,report.what,statusToI32 report.status,job.id⟩ with
    what := report.what
    state := statusToI32 report.status }

def updateStatus (job : Model) (forceNotification : Bool) (report : Report) : Async Unit := do
  let found ← getJobStatusByJobIdAndWhat job.id report.what
  let vStatus ← dropDuplicates (found.getD [])
  if forceNotification || vStatus.head?.all (fun row => report.status ≠ stateToU32 row.state) then
    let _ ← saveStatus (stateItem job report vStatus)
    queueJobUpdate (job.jobId.getD 0) report.what report.status report.info
  else return

/-- One round of the loop over the status list. -/
def checkStatus (job : Model) (forceNotification : Bool) (stat : Json) : Async Unit :=
  match report? stat with
  | none => return
  | some report => updateStatus job forceNotification report

def isError (status : ℕ) : Bool := statusError ≤ status ∧ status ≠ statusCompleted

def jobError (vStatus : List Status) : ℕ :=
  ((vStatus.map fun row => stateToU32 row.state).filter isError).getLast?.getD 0

def jobComplete (vStatus : List Status) : Bool :=
  vStatus.all fun row => stateToU32 row.state = statusCompleted

def saysComplete (statusJson : Json) : Bool := (statusJson.index "complete").asBool.getD false

def completeJob (job : Model) (status : ℕ) : Async Unit := do
  let _ ← saveJob { job with running := false }
  let _ ← archiveJob job
  queueJobUpdate (job.jobId.getD 0) jobCompletionSource status "Job has completed"

/-- The decision at the end of a check. -/
def decideCheck (job : Model) (statusJson : Json) (vStatus : List Status) : Async Unit :=
  if jobError vStatus ≠ 0 ∨ (saysComplete statusJson ∧ jobComplete vStatus) then
    completeJob job (if jobError vStatus ≠ 0 then jobError vStatus else statusCompleted)
  else return

def concludeCheck (job : Model) (statusJson : Json) : Async Unit := do
  let found ← getJobStatusByJobId job.id
  decideCheck job statusJson (found.getD [])

def statusList (statusJson : Json) : List Json := (statusJson.index "status").asArray.getD []

def checkJobStatus (job : Model) (forceNotification : Bool) : Async Unit := do
  let ready ← isReady
  if ready then
    let statusJson ← runBundleStatus job
    Program.each (checkStatus job forceNotification) (statusList statusJson)
    concludeCheck job statusJson
  else return

def listRunning : Async (List Model) := do
  let jobs ← getRunningJobs
  return jobs.getD []

/-- `check_all_jobs_status` up to the point where it spawns the checks. -/
def checkAllJobsStatus : Async (List Model) := do
  let ready ← isReady
  if ready then listRunning else return []

def reportCancelled (jobId : ℤ) : Async Unit :=
  queueJobUpdate jobId jobCompletionSource statusCancelled "Job has been cancelled"

def hasCancelled (vStatus : List Status) : Bool :=
  vStatus.any fun row => stateToU32 row.state = statusCancelled

/-- `reload_job_or_abort`; an abort is `none`. -/
def reloadJobOrAbort (job : Model) : Async (Option Model) := do
  let row ← getJobById job.id
  return row.join

/-- The part after a successful `cancel` of the bundle. -/
def finishCancel (jobId : ℤ) (job : Model) : Async Unit := do
  checkJobStatus job false
  let found ← getJobStatusByJobId job.id
  if hasCancelled (found.getD []) then return
  else
    let _ ← saveJob { job with running := false }
    let _ ← archiveJob { job with running := false }
    reportCancelled jobId

/-- The part after the first status check. -/
def cancelRunning (jobId : ℤ) (job : Model) : Async Unit := do
  if job.running then
    let cancelled ← runBundleBoolForJob .cancel job
    if cancelled then
      match ← reloadJobOrAbort job with
      | none => return
      | some job => finishCancel jobId job
    else return
  else return

/-- The part after the row is read. -/
def cancelRead (jobId : ℤ) (job : Model) : Async Unit := do
  if job.id = 0 ∨ job.running = false ∨ job.submitting then
    if job.submitting then return else reportCancelled jobId
  else
    let found ← getJobStatusByJobId job.id
    if hasCancelled (found.getD []) then return
    else
      checkJobStatus job false
      match ← reloadJobOrAbort job with
      | none => return
      | some job => cancelRunning jobId job

def handleJobCancel (jobId : ℤ) : Async Unit := do
  match ← getOrCreateByJobId jobId with
  | none => return
  | some job => cancelRead jobId job

def reportDeleted (jobId : ℤ) : Async Unit :=
  queueJobUpdate jobId jobCompletionSource statusDeleted "Job has been deleted"

/-- The part after the bundle's answer. -/
def finishDelete (jobId : ℤ) (job : Model) (deleted : Bool) : Async Unit :=
  if deleted then do
    let _ ← saveJob { job with deleting := false, deleted := true }
    reportDeleted jobId
  else do
    let _ ← saveJob { job with deleting := false }
    return

/-- The part after the row is marked. -/
def deleteMarked (jobId : ℤ) (job : Model) : Async Unit := do
  let deleted ← runBundleBoolForJob .delete job
  finishDelete jobId job deleted

def markDeleting (jobId : ℤ) (job : Model) : Async Unit := do
  match ← saveJob { job with deleting := true } with
  | none => return
  | some job => deleteMarked jobId job

/-- The decision on the row that was read. -/
def deleteRead (jobId : ℤ) (job : Model) : Async Unit :=
  if job.id = 0 ∨ job.running ∨ job.submitting ∨ job.deleted then
    if job.id = 0 ∨ job.deleted then reportDeleted jobId else return
  else if job.deleting then return
  else markDeleting jobId job

def handleJobDelete (jobId : ℤ) : Async Unit := do
  match ← getOrCreateByJobId jobId with
  | none => return
  | some job => deleteRead jobId job

end JobHandlers
end JobControllerClient
