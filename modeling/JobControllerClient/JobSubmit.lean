import JobControllerClient.Foundation.Interleaving
import JobControllerClient.JobTable

/-! `handle_job_submit` as a thread over the job table and `SUBMIT_MUTEX`. One action
is one await of the handler: a lock operation, a database request or a bundle call.
A failed request has no effect on the table. -/
namespace JobControllerClient
namespace JobSubmit

open JobTable (Model i64Max i32Max)

def maxSubmitCount : ℤ := 60

def saturatingIncrementSubmitCount (count : ℤ) : ℤ := min (count + 1) i32Max

def capSchedulerId (schedulerId : UInt64) : ℤ := min schedulerId.toNat i64Max

def capJobIdForWire (jobId : ℤ) : ℤ := if 0 ≤ jobId ∧ jobId < 2^32 then jobId else 2^32 - 1

def statusSubmitted : ℕ := 30
def statusError : ℕ := 400

def systemSource : String := "system"
def jobCompletionSource : String := "_job_completion_"

/-- The fields of an `UPDATE_JOB` message. -/
structure JobUpdate where
  jobId : ℤ
  source : String
  status : ℕ
  message : String
  deriving DecidableEq

def submitFailure : String := "Unable to submit job. Please check the logs as to why."

/-- The places at which a handler is suspended, with the locals that are live there.
`rejected` and `submitted` follow the bundle's answer; `checking` and `completing`
belong to the status check spawned for a known job. -/
inductive Handler
  | arrived (jobId : ℤ) (bundleHash : String)
  | locking (jobId : ℤ) (bundleHash : String)
  | getting (jobId : ℤ) (bundleHash : String)
  | duplicate (job : Model)
  | known (job : Model)
  | firstSave (jobId : ℤ) (job : Model)
  | unlocking (jobId : ℤ) (job : Model)
  | resolving (jobId : ℤ) (job : Model)
  | directorySave (jobId : ℤ) (job : Model)
  | submitting (jobId : ℤ) (job : Model)
  | rejected (jobId : ℤ) (job : Model)
  | submitted (jobId : ℤ) (schedulerId : UInt64) (job : Model)
  | leaving
  | checking (job : Model)
  | completing (job : Model) (status : ℕ)
  | done
  deriving DecidableEq

/-- What the environment decides in one action. -/
inductive Choice
  | go
  | connected (ready : Bool)
  | row (id : Option ℤ)
  | saved (id : ℤ)
  | deleted
  | failed
  | workingDirectory (dir : String)
  | scheduler (id : UInt64)
  | status (complete : Option ℕ)
  deriving DecidableEq

structure Shared where
  submitMutex : Option ℕ
  table : JobTable
  updates : List JobUpdate

namespace Shared

def queueJobUpdate (x : Shared) (jobId : ℤ) (source : String) (status : ℕ) (message : String) :
    Shared :=
  { x with updates := x.updates ++ [⟨capJobIdForWire jobId,source,status,message⟩] }

def unlock (x : Shared) : Shared := { x with submitMutex := none }

def reportFailure (x : Shared) (jobId : ℤ) : Shared :=
  (x.queueJobUpdate jobId systemSource statusError submitFailure).queueJobUpdate
    jobId jobCompletionSource statusError submitFailure

def reportSuccess (x : Shared) (jobId : ℤ) : Shared :=
  x.queueJobUpdate jobId systemSource statusSubmitted "Job submitted successfully"

def reportCompletion (x : Shared) (job : Model) (status : ℕ) : Shared :=
  x.queueJobUpdate (job.jobId.getD 0) jobCompletionSource status "Job has completed"

@[simp] theorem reportSuccess_table (x : Shared) (jobId : ℤ) :
    (x.reportSuccess jobId).table = x.table := rfl

end Shared

/-- The decisions between the read of the row and the next request, under the lock. -/
def afterGet (jobId : ℤ) (bundleHash : String) (job : Model) : Handler :=
  let count := saturatingIncrementSubmitCount job.submittingCount
  if job.submitting ∧ count < maxSubmitCount then
    .duplicate { job with submittingCount := count }
  else
    let job := if job.submitting then { job with submittingCount := 0, jobId := some 0 } else job
    if jobId ≠ 0 ∧ job.jobId = some jobId then .known job
    else .firstSave jobId { job with
      jobId := some jobId
      bundleHash := bundleHash
      submitting := true
      workingDirectory := "" }

def submittedRow (schedulerId : UInt64) (job : Model) : Model :=
  { job with schedulerId := some (capSchedulerId schedulerId), submitting := false, running := true }

def exec (x : Shared) (i : ℕ) : Handler → Choice → Option (Shared × Handler × List Handler)
  | .arrived jobId bundleHash, .connected ready =>
    some (x,if ready then .locking jobId bundleHash else .done,[])
  | .locking jobId bundleHash, .go =>
    if x.submitMutex = none then some ({ x with submitMutex := some i },.getting jobId bundleHash,[])
    else none
  | .getting jobId bundleHash, .row id =>
    (x.table.getOrCreateByJobId jobId id).map fun job => (x,afterGet jobId bundleHash job,[])
  | .getting _ _, .failed => some (x,.leaving,[])
  | .duplicate job, .saved id =>
    (x.table.saveJob job id).map fun table => ({ x with table },.leaving,[])
  | .duplicate _, .failed => some (x,.leaving,[])
  | .known job, .go => some (x,.leaving,[.checking job])
  | .firstSave jobId job, .saved id =>
    (x.table.saveJob job id).map fun table => ({ x with table },.unlocking jobId { job with id },[])
  | .firstSave _ _, .failed => some (x,.leaving,[])
  | .unlocking jobId job, .go => some (x.unlock,.resolving jobId job,[])
  | .resolving jobId job, .workingDirectory dir =>
    some (x,.directorySave jobId { job with workingDirectory := dir },[])
  | .directorySave jobId job, .saved id =>
    (x.table.saveJob job id).map fun table => ({ x with table },.submitting jobId { job with id },[])
  | .directorySave _ _, .failed => some (x,.done,[])
  | .submitting jobId job, .scheduler id =>
    some (x,if id = 0 then .rejected jobId job else .submitted jobId id job,[])
  | .rejected jobId job, .deleted =>
    some ({ x with table := x.table.deleteJob job.id }.reportFailure jobId,.done,[])
  | .rejected jobId _, .failed => some (x.reportFailure jobId,.done,[])
  | .submitted jobId schedulerId job, .saved id =>
    (x.table.saveJob (submittedRow schedulerId job) id).map fun table =>
      ({ x with table }.reportSuccess jobId,.done,[])
  | .submitted jobId _ _, .failed => some (x.reportSuccess jobId,.done,[])
  | .leaving, .go => some (x.unlock,.done,[])
  | .checking _, .status none => some (x,.done,[])
  | .checking job, .status (some status) => some (x,.completing job status,[])
  | .completing job status, .saved id =>
    (x.table.saveJob { job with running := false } id).map fun table =>
      ({ x with table }.reportCompletion job status,.done,[])
  | .completing job status, .failed => some (x.reportCompletion job status,.done,[])
  | _, _ => none

def entry : Handler → Bool
  | .arrived _ _ => true
  | _ => false

/-- Any number of handlers over one table. -/
def system : Interleaving Shared Handler Choice := ⟨entry,exec⟩

def initial (table : JobTable) : Interleaving.State Shared Handler := ⟨⟨none,table,[]⟩,[]⟩

def pendingSave : Handler → Option Model
  | .duplicate job => some job
  | .firstSave _ job => some job
  | .directorySave _ job => some job
  | .submitted _ schedulerId job => some (submittedRow schedulerId job)
  | .completing job _ => some { job with running := false }
  | _ => none

def pendingDelete : Handler → Option Model
  | .rejected _ job => some job
  | _ => none

inductive HandlerStep (x : Shared) (i : ℕ) (x' : Shared) :
    Handler → Choice → Handler → List Handler → Prop
  | connected (jobId : ℤ) (hash : String) (hx : x' = x) :
      HandlerStep x i x' (.arrived jobId hash) (.connected true) (.locking jobId hash) []
  | disconnected (jobId : ℤ) (hash : String) (hx : x' = x) :
      HandlerStep x i x' (.arrived jobId hash) (.connected false) .done []
  | lock (jobId : ℤ) (hash : String) (hfree : x.submitMutex = none)
      (hx : x' = { x with submitMutex := some i }) :
      HandlerStep x i x' (.locking jobId hash) .go (.getting jobId hash) []
  | get (jobId : ℤ) (hash : String) (id : Option ℤ) (job : Model)
      (hget : x.table.getOrCreateByJobId jobId id = some job) (hx : x' = x) :
      HandlerStep x i x' (.getting jobId hash) (.row id) (afterGet jobId hash job) []
  | getFailed (jobId : ℤ) (hash : String) (hx : x' = x) :
      HandlerStep x i x' (.getting jobId hash) .failed .leaving []
  | saveDuplicate (job : Model) (id : ℤ) (table : JobTable)
      (hsave : x.table.saveJob job id = some table) (hx : x' = { x with table }) :
      HandlerStep x i x' (.duplicate job) (.saved id) .leaving []
  | duplicateFailed (job : Model) (hx : x' = x) :
      HandlerStep x i x' (.duplicate job) .failed .leaving []
  | spawnCheck (job : Model) (hx : x' = x) :
      HandlerStep x i x' (.known job) .go .leaving [.checking job]
  | saveFirst (jobId : ℤ) (job : Model) (id : ℤ) (table : JobTable)
      (hsave : x.table.saveJob job id = some table) (hx : x' = { x with table }) :
      HandlerStep x i x' (.firstSave jobId job) (.saved id) (.unlocking jobId { job with id }) []
  | firstFailed (jobId : ℤ) (job : Model) (hx : x' = x) :
      HandlerStep x i x' (.firstSave jobId job) .failed .leaving []
  | unlock (jobId : ℤ) (job : Model) (hx : x' = x.unlock) :
      HandlerStep x i x' (.unlocking jobId job) .go (.resolving jobId job) []
  | resolve (jobId : ℤ) (job : Model) (dir : String) (hx : x' = x) :
      HandlerStep x i x' (.resolving jobId job) (.workingDirectory dir)
        (.directorySave jobId { job with workingDirectory := dir }) []
  | saveDirectory (jobId : ℤ) (job : Model) (id : ℤ) (table : JobTable)
      (hsave : x.table.saveJob job id = some table) (hx : x' = { x with table }) :
      HandlerStep x i x' (.directorySave jobId job) (.saved id) (.submitting jobId { job with id }) []
  | directoryFailed (jobId : ℤ) (job : Model) (hx : x' = x) :
      HandlerStep x i x' (.directorySave jobId job) .failed .done []
  | submit (jobId : ℤ) (job : Model) (id : UInt64) (hid : id ≠ 0) (hx : x' = x) :
      HandlerStep x i x' (.submitting jobId job) (.scheduler id) (.submitted jobId id job) []
  | reject (jobId : ℤ) (job : Model) (hx : x' = x) :
      HandlerStep x i x' (.submitting jobId job) (.scheduler 0) (.rejected jobId job) []
  | delete (jobId : ℤ) (job : Model)
      (hx : x' = { x with table := x.table.deleteJob job.id }.reportFailure jobId) :
      HandlerStep x i x' (.rejected jobId job) .deleted .done []
  | deleteFailed (jobId : ℤ) (job : Model) (hx : x' = x.reportFailure jobId) :
      HandlerStep x i x' (.rejected jobId job) .failed .done []
  | saveSubmitted (jobId : ℤ) (schedulerId : UInt64) (job : Model) (id : ℤ) (table : JobTable)
      (hsave : x.table.saveJob (submittedRow schedulerId job) id = some table)
      (hx : x' = { x with table }.reportSuccess jobId) :
      HandlerStep x i x' (.submitted jobId schedulerId job) (.saved id) .done []
  | submittedFailed (jobId : ℤ) (schedulerId : UInt64) (job : Model)
      (hx : x' = x.reportSuccess jobId) :
      HandlerStep x i x' (.submitted jobId schedulerId job) .failed .done []
  | leave (hx : x' = x.unlock) : HandlerStep x i x' .leaving .go .done []
  | unfinished (job : Model) (hx : x' = x) :
      HandlerStep x i x' (.checking job) (.status none) .done []
  | finished (job : Model) (status : ℕ) (hx : x' = x) :
      HandlerStep x i x' (.checking job) (.status (some status)) (.completing job status) []
  | saveCompleted (job : Model) (status : ℕ) (id : ℤ) (table : JobTable)
      (hsave : x.table.saveJob { job with running := false } id = some table)
      (hx : x' = { x with table }.reportCompletion job status) :
      HandlerStep x i x' (.completing job status) (.saved id) .done []
  | completedFailed (job : Model) (status : ℕ) (hx : x' = x.reportCompletion job status) :
      HandlerStep x i x' (.completing job status) .failed .done []

theorem exec_step {x x' : Shared} {i : ℕ} {t t' : Handler} {c : Choice} {new : List Handler}
    (h : exec x i t c = some (x',t',new)) : HandlerStep x i x' t c t' new := by
  unfold exec at h
  split at h <;> simp only [Option.map_eq_some_iff,Option.some.injEq,Prod.mk.injEq,reduceCtorEq,
    Option.ite_none_right_eq_some] at h
  case h_1 jobId hash ready =>
    obtain ⟨rfl,rfl,rfl⟩ := h
    cases ready
    · exact .disconnected jobId hash rfl
    · exact .connected jobId hash rfl
  case h_14 jobId job id =>
    obtain ⟨rfl,rfl,rfl⟩ := h
    split
    · rename_i hid
      subst hid
      exact .reject jobId job rfl
    · rename_i hid
      exact .submit jobId job id hid rfl
  all_goals first
    | (obtain ⟨hx,rfl,rfl⟩ := h; constructor; exact hx.symm)
    | (obtain ⟨hfree,hx,rfl,rfl⟩ := h; exact .lock _ _ hfree hx.symm)
    | (obtain ⟨row,hrow,hx,rfl,rfl⟩ := h; constructor; exacts [hrow,hx.symm])

theorem exec_table {x x' : Shared} {i : ℕ} {t t' : Handler} {c : Choice} {new : List Handler}
    (h : exec x i t c = some (x',t',new)) :
    x'.table = x.table ∨
    (∃ job id, c = .saved id ∧ pendingSave t = some job ∧
      x.table.saveJob job id = some x'.table) ∨
    (∃ job, c = .deleted ∧ pendingDelete t = some job ∧
      x'.table = x.table.deleteJob job.id) := by
  cases exec_step h with
  | saveDuplicate job id table hsave hx | saveFirst _ job id table hsave hx
  | saveDirectory _ job id table hsave hx | saveSubmitted _ _ job id table hsave hx
  | saveCompleted job _ id table hsave hx =>
    subst hx
    exact .inr (.inl ⟨_,id,rfl,rfl,hsave⟩)
  | delete jobId job hx =>
    subst hx
    exact .inr (.inr ⟨job,rfl,rfl,rfl⟩)
  | _ =>
    subst_vars
    exact .inl rfl

theorem afterGet_duplicate {jobId : ℤ} {bundleHash : String} {row job : Model}
    (h : afterGet jobId bundleHash row = .duplicate job) :
    row.submitting = true ∧ job.submitting = true ∧ job.id = row.id := by
  simp only [afterGet] at h
  split at h
  · rename_i hsub
    obtain rfl := Handler.duplicate.inj h
    exact ⟨hsub.1,hsub.1,rfl⟩
  · repeat' split at h
    all_goals cases h

/-- A handler comes to its duplicate save only from a row that is being submitted. -/
theorem exec_duplicate {x x' : Shared} {i : ℕ} {t : Handler} {c : Choice} {job : Model}
    {new : List Handler} (h : exec x i t c = some (x',.duplicate job,new)) :
    x' = x ∧ job.submitting = true ∧
      ∃ row, x.table.row? job.id = some row ∧ row.submitting = true := by
  have hstep := exec_step h
  generalize hdup : Handler.duplicate job = t' at hstep
  cases hstep with
  | get jobId hash choice row hget hx =>
    obtain ⟨hrow,hjob,hid⟩ := afterGet_duplicate hdup.symm
    cases choice with
    | some id =>
      obtain ⟨hfound,hkey⟩ := JobTable.getOrCreate_found hget
      exact ⟨hx,hjob,row,by rw [hid,hkey]; exact hfound,hrow⟩
    | none =>
      simp only [JobTable.getOrCreateByJobId] at hget
      split at hget
      · cases hget
      · obtain rfl := Option.some.inj hget
        cases hrow
  | _ => cases hdup

/-- The only threads a handler spawns are status checks. -/
theorem exec_spawned {x x' : Shared} {i : ℕ} {t t' : Handler} {c : Choice} {new : List Handler}
    (h : exec x i t c = some (x',t',new)) (u : Handler) (hu : u ∈ new) : ∃ job, u = .checking job := by
  cases exec_step h with
  | spawnCheck job hx => exact ⟨job,List.mem_singleton.mp hu⟩
  | _ => cases hu

end JobSubmit
end JobControllerClient
