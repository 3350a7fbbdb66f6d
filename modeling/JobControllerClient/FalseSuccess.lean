import JobControllerClient.StatusCheck

/-! When `check_job_status` reports success. A failed read of the statuses counts as no
statuses, and a failed save leaves none behind; both let an error pass for success. No
other failing request does. -/
namespace JobControllerClient
namespace FalseSuccess

open JobHandlers StatusCheck Program
open JobTable (Model)
open JobSubmit (JobUpdate jobCompletionSource)
open DbRecords (Status)

def queued (x x' : Shared) : List JobUpdate := x'.updates.drop x.updates.length

def reportsSuccess (u : JobUpdate) : Bool :=
  u.source = jobCompletionSource ∧ u.status = statusCompleted

/-- If success is reported, no `what` ends with an error and every stored status of the job is
completed. -/
def Truthful (job : Model) (statusJson : Json) (x x' : Shared) : Prop :=
  (∀ report ∈ reports statusJson, report.what ≠ jobCompletionSource) →
  (queued x x').any reportsSuccess = true →
  (∀ what status, lastStatus (reports statusJson) what = some status →
    isError status = false) ∧
  ∀ row ∈ x'.statuses.byJob job.id, stateToU32 row.state = statusCompleted

/-- Checks that run alone are truthful; `mayFail` tells which requests may fail. -/
def NoFalseSuccess (mayFail : DbCall → Bool) : Prop :=
  ∀ (job : Model) (force : Bool) (x x' : Shared) (statusJson : Json) (cs : List Choice),
    exec (perform mayFail) (checkJobStatus job force) x cs = some ((),x',[]) →
    .json statusJson ∈ cs → Truthful job statusJson x x'

def failures (mayFail : DbCall → Bool) (job : Model) (force : Bool) (x : Shared)
    (cs : List Choice) : List DbCall :=
  (steps (perform mayFail) (checkJobStatus job force) x cs).filterMap fun rc => failure rc.1 rc.2

section Decision

variable {mayFail : DbCall → Bool} {x y z : Shared} {job : Model} {statusJson : Json}
  {vStatus : List Status}

theorem finalStatus_completed (h : finalStatus vStatus = statusCompleted) :
    jobError vStatus = 0 := by
  by_contra hne
  have herror := (jobError_mem hne).1
  rw [finalStatus,if_pos hne] at h
  rw [h] at herror
  cases herror

/-- An error that is on record is not read back as completed. -/
theorem isError_of_recorded {status : ℕ} (h : recorded status = statusCompleted) :
    isError status = false := by
  have hbound : ¬ statusToI32 status < 0 := not_lt.mpr (statusToI32_nonneg status)
  rw [recorded,stateToU32,if_neg hbound,statusToI32] at h
  have hstatus : status = statusCompleted := by
    simp only [statusCompleted,JobTable.i32Max] at h ⊢
    omega
  rw [hstatus]
  rfl

theorem success_concluded (hrecorded : Recorded mayFail job (reports statusJson) x y)
    (hconcluded : Concluded mayFail job statusJson y z)
    (hsource : ∀ report ∈ reports statusJson, report.what ≠ jobCompletionSource)
    (hsuccess : (queued x z).any reportsSuccess = true) : z.statuses = y.statuses ∧
      ∃ vStatus, ReadAll mayFail y.statuses job.id vStatus ∧ jobComplete vStatus = true := by
  obtain ⟨new,hnew,hsources⟩ := hrecorded.updates
  obtain ⟨u,hu,hreport⟩ := List.any_eq_true.mp hsuccess
  obtain ⟨hcompletion,hstatus⟩ := of_decide_eq_true hreport
  have hnotNew : u ∉ new := by
    intro hmem
    obtain ⟨report,hreport,hwhat⟩ := hsources u hmem
    exact hsource report hreport (hwhat.symm.trans hcompletion)
  obtain ⟨vStatus,hread,⟨hfinishes,hdone⟩ | ⟨-,rfl⟩⟩ := hconcluded
  · rw [queued,hdone.updates,hnew,List.append_assoc,List.drop_left,List.mem_append] at hu
    have hu := List.mem_singleton.mp (hu.resolve_left hnotNew)
    rw [hu] at hstatus
    have herror := finalStatus_completed hstatus
    exact ⟨hdone.statuses,vStatus,hread,(hfinishes.resolve_left (fun h => h herror)).2⟩
  · rw [queued,hnew,List.drop_left] at hu
    exact (hnotNew hu).elim

end Decision

theorem noFalseSuccess_of_stored {mayFail : DbCall → Bool}
    (hread : mayFail .getJobStatusByJobId = false) (hsave : mayFail .saveStatus = false) :
    NoFalseSuccess mayFail := by
  intro job force x x' statusJson cs hexec hjson hsource hsuccess
  obtain ⟨outcome,hobserved,hchecked⟩ := checked_of_exec hexec
  obtain rfl : some statusJson = outcome := by
    have hmem := mem_observed hjson
    rwa [hobserved,List.mem_singleton] at hmem
  obtain ⟨y,hrecorded,hconcluded⟩ := hchecked
  obtain ⟨hstatuses,vStatus,hperm | ⟨hfail,-⟩,hcomplete⟩ :=
    success_concluded hrecorded hconcluded hsource hsuccess
  · have hall (row : Status) (hrow : row ∈ y.statuses.byJob job.id) :
        stateToU32 row.state = statusCompleted :=
      of_decide_eq_true (List.all_eq_true.mp hcomplete row (hperm.mem_iff.mpr hrow))
    refine ⟨fun what status hlast => ?_,fun row hrow => hall row (by rwa [hstatuses] at hrow)⟩
    obtain ⟨row,hrow,-,hstate⟩ := hrecorded.last hsave what status hlast
    exact isError_of_recorded (hstate.symm.trans (hall row hrow))
  · rw [hread] at hfail
    cases hfail

/-- It matters only what fails in the run itself. -/
theorem truthful_of_run {mayFail : DbCall → Bool} {job : Model} {force : Bool} {x x' : Shared}
    {statusJson : Json} {cs : List Choice}
    (hexec : exec (perform mayFail) (checkJobStatus job force) x cs = some ((),x',[]))
    (hread : .getJobStatusByJobId ∉ failures mayFail job force x cs)
    (hsave : .saveStatus ∉ failures mayFail job force x cs) (hjson : .json statusJson ∈ cs) :
    Truthful job statusJson x x' := by
  have hexec' : exec (perform fun call => call ∈ failures mayFail job force x cs)
      (checkJobStatus job force) x cs = some ((),x',[]) := by
    refine exec_of_steps hexec fun r c hrc x y => perform_of_call fun call hcall _ => ?_
    exact decide_eq_true (List.mem_filterMap.mpr ⟨(r,c),hrc,hcall⟩)
  exact noFalseSuccess_of_stored (decide_eq_false hread) (decide_eq_false hsave) job force x x'
    statusJson cs hexec' hjson

/-- The only step of the job has failed, and the job has ended. -/
def failedJson : Json := .object
  [("status",.array [.object [("what",.string "step"),("status",.posInt 400)]]),
    ("complete",.bool true)]

theorem failedJson_error : lastStatus (reports failedJson) "step" = some 400 := by decide +kernel

/-- The status is stored, but it cannot be read back. -/
def unreadChoices : List Choice :=
  [.ready true,.json failedJson,.statuses [],.saved 1,.go,.failed,.saved 1,.archived true,.go]

/-- The status cannot be stored, and the table is read back without it. -/
def unsavedChoices : List Choice :=
  [.ready true,.json failedJson,.statuses [],.failed,.go,.statuses [],.saved 1,.archived true,.go]

def endsInSuccess (mayFail : DbCall → Bool) (cs : List Choice) : Bool :=
  (exec (perform mayFail) (checkJobStatus runningJob false) runningShared cs).any fun result =>
    result.2.2.isEmpty && (queued runningShared result.2.1).any reportsSuccess

theorem not_noFalseSuccess {mayFail mayFail' : DbCall → Bool} {cs : List Choice}
    (hends : endsInSuccess mayFail cs = true) (hjson : .json failedJson ∈ cs)
    (hle : ∀ call, mayFail call = true → mayFail' call = true) : ¬ NoFalseSuccess mayFail' := by
  intro h
  obtain ⟨⟨⟨⟩,x',rest⟩,hexec,hboth⟩ := (Option.any_eq_true _ _).mp hends
  obtain ⟨hrest,hsuccess⟩ := Bool.and_eq_true_iff.mp hboth
  obtain rfl : rest = [] := List.isEmpty_iff.mp hrest
  have hexec' := exec_of_steps hexec fun r c _ x y => perform_of_call fun call _ => hle call
  have hsource : ∀ report ∈ reports failedJson, report.what ≠ jobCompletionSource := by
    decide +kernel
  have herror := (h runningJob false runningShared x' failedJson cs hexec' hjson hsource hsuccess).1
    "step" 400 failedJson_error
  cases herror

theorem unread_endsInSuccess :
    endsInSuccess (fun call => call = .getJobStatusByJobId) unreadChoices = true := by
  decide +kernel

theorem unsaved_endsInSuccess :
    endsInSuccess (fun call => call = .saveStatus) unsavedChoices = true := by
  decide +kernel

theorem stored_of_noFalseSuccess {mayFail : DbCall → Bool} (h : NoFalseSuccess mayFail) :
    mayFail .getJobStatusByJobId = false ∧ mayFail .saveStatus = false := by
  constructor
  · by_contra hread
    refine not_noFalseSuccess unread_endsInSuccess (by simp [unreadChoices]) ?_ h
    intro call hcall
    rw [of_decide_eq_true hcall]
    simpa using hread
  · by_contra hsave
    refine not_noFalseSuccess unsaved_endsInSuccess (by simp [unsavedChoices]) ?_ h
    intro call hcall
    rw [of_decide_eq_true hcall]
    simpa using hsave

/-- Checks report no false success exactly if the final read and the saves of statuses
cannot fail, whatever other requests may fail; and where they may, a run in which none of them
does reports none. -/
theorem noFalseSuccess_iff (mayFail : DbCall → Bool) :
    (NoFalseSuccess mayFail ↔
      mayFail .getJobStatusByJobId = false ∧ mayFail .saveStatus = false) ∧
    ∀ (job : Model) (force : Bool) (x x' : Shared) (statusJson : Json) (cs : List Choice),
      exec (perform mayFail) (checkJobStatus job force) x cs = some ((),x',[]) →
      .getJobStatusByJobId ∉ failures mayFail job force x cs →
      .saveStatus ∉ failures mayFail job force x cs →
      .json statusJson ∈ cs → Truthful job statusJson x x' := by
  refine ⟨⟨stored_of_noFalseSuccess,fun h => noFalseSuccess_of_stored h.1 h.2⟩,?_⟩
  intro job force x x' statusJson cs hexec hread hsave hjson
  exact truthful_of_run hexec hread hsave hjson

def completedJson : Json := .object
  [("status",.array [.object [("what",.string "step"),("status",.posInt 500)]]),
    ("complete",.bool true)]

/-- The read by `what` fails; the status is stored and read back. -/
def unmatchedChoices : List Choice :=
  [.ready true,.json completedJson,.failed,.saved 1,.go,.statuses [⟨1,"step",500,1⟩],.saved 1,
    .archived true,.go]

theorem noFalseSuccess_iff_unmatched : ∃ x', exec (perform fun _ => true)
    (checkJobStatus runningJob false) runningShared unmatchedChoices = some ((),x',[]) ∧
      (queued runningShared x').any reportsSuccess = true ∧
      Truthful runningJob completedJson runningShared x' := by
  have hends : endsInSuccess (fun _ => true) unmatchedChoices = true := by decide +kernel
  obtain ⟨⟨⟨⟩,x',rest⟩,hexec,hboth⟩ := (Option.any_eq_true _ _).mp hends
  obtain ⟨hrest,hsuccess⟩ := Bool.and_eq_true_iff.mp hboth
  obtain rfl : rest = [] := List.isEmpty_iff.mp hrest
  have hfailures : failures (fun _ => true) runningJob false runningShared unmatchedChoices =
      [.getJobStatusByJobIdAndWhat] := by decide +kernel
  refine ⟨x',hexec,hsuccess,(noFalseSuccess_iff fun _ => true).2 _ _ _ _ _ _ hexec ?_ ?_ ?_⟩
  · simp [hfailures]
  · simp [hfailures]
  · simp [unmatchedChoices]

/-- With arbitrary failures a failed job is reported as completed. -/
theorem failedJson_falseSuccess : ¬ NoFalseSuccess fun _ => true :=
  not_noFalseSuccess unread_endsInSuccess (by simp [unreadChoices]) fun _ _ => rfl

end FalseSuccess
end JobControllerClient
