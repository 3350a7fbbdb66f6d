import JobControllerClient.JobHandlers

/-! The environment of the job handlers: what each request does to the tables, which
choices are the server's or the bundle's, and the system of any number of handlers. -/
namespace JobControllerClient
namespace JobHandlers

open JobTable (Model wireUlong)
open DbRecords (Status)

/-- The functions of `db/mod.rs` that can return an error. -/
inductive DbCall
  | getJobByJobId
  | getJobById
  | getRunningJobs
  | saveJob
  | deleteJob
  | getJobStatusByJobIdAndWhat
  | getJobStatusByJobId
  | deleteStatusByIdList
  | saveStatus
  deriving DecidableEq

/-- What the environment decides in one action; lists come in the server's order. -/
inductive Choice
  | go
  | ready (b : Bool)
  | row (id : Option ℤ)
  | rows (found : List Model)
  | statuses (found : List Status)
  | saved (id : ℤ)
  | json (value : Json)
  | answered (b : Bool)
  | archived (b : Bool)
  | failed
  | submit (choice : JobSubmit.Choice)

structure Shared extends JobSubmit.Shared where
  statuses : StatusTable

namespace Shared

def runningJobs (x : Shared) : List Model :=
  (x.table.rows.entries.map Sigma.snd).filter (·.running)

/-- A request that returns an error leaves everything as it was. -/
def refuse {α : Type} (x : Shared) (mayFail : Bool) : Option (Shared × Option α) :=
  if mayFail then some (x,none) else none

/-- A list request is answered with all rows that match, in any order. -/
def deliver {α : Type} [DecidableEq α] (x : Shared) (found rows : List α) :
    Option (Shared × Option (List α)) :=
  if found.Perm rows then some (x,some found) else none

end Shared

theorem row_of_runningJobs {x : Shared} {job : Model} (h : job ∈ x.runningJobs) :
    x.table.row? job.id = some job := by
  obtain ⟨⟨id,row⟩,hmem,hrow⟩ := List.mem_map.mp (List.mem_filter.mp h).1
  obtain rfl : row = job := hrow
  have hlookup : x.table.rows.lookup id = some row := AList.mem_lookup_iff.mpr hmem
  rw [x.table.keyed id row hlookup]
  exact hlookup

/-- One request; `mayFail` tells which database calls the environment may let fail. -/
def perform (mayFail : DbCall → Bool) (x : Shared) :
    (r : Request) → Choice → Option (Shared × Answer r)
  | .isReady, .ready b => some (x,b)
  | .getOrCreateByJobId jobId, .row id =>
    (x.table.getOrCreateByJobId jobId id).map fun job => (x,some job)
  | .getOrCreateByJobId _, .failed => x.refuse (mayFail .getJobByJobId)
  | .getJobById id, .go => some (x,some (x.table.row? (wireUlong id)))
  | .getJobById _, .failed => x.refuse (mayFail .getJobById)
  | .getRunningJobs, .rows found => x.deliver found x.runningJobs
  | .getRunningJobs, .failed => x.refuse (mayFail .getRunningJobs)
  | .saveJob job, .saved id =>
    (x.table.saveJob job id).map fun table => ({ x with table },some { job with id })
  | .saveJob _, .failed => x.refuse (mayFail .saveJob)
  | .getJobStatusByJobIdAndWhat jobId what, .statuses found =>
    x.deliver found (x.statuses.byWhat jobId what)
  | .getJobStatusByJobIdAndWhat _ _, .failed => x.refuse (mayFail .getJobStatusByJobIdAndWhat)
  | .getJobStatusByJobId jobId, .statuses found =>
    x.deliver found (x.statuses.byJob jobId)
  | .getJobStatusByJobId _, .failed => x.refuse (mayFail .getJobStatusByJobId)
  | .deleteStatusByIdList ids, .go =>
    some ({ x with statuses := x.statuses.delete ids },some ())
  | .deleteStatusByIdList _, .failed => x.refuse (mayFail .deleteStatusByIdList)
  | .saveStatus status, .saved id =>
    (x.statuses.save status id).map fun statuses => ({ x with statuses },some { status with id })
  | .saveStatus _, .failed => x.refuse (mayFail .saveStatus)
  | .bundleStatus _ _, .json value => some (x,value)
  | .bundleBool _ _ _, .answered b => some (x,b)
  | .archive _, .archived b => some (x,if b then some () else none)
  | .queueUpdate update, .go => some ({ x with updates := x.updates ++ [update] },())
  | _, _ => none

def Request.call : Request → Option DbCall
  | .getOrCreateByJobId _ => some .getJobByJobId
  | .getJobById _ => some .getJobById
  | .getRunningJobs => some .getRunningJobs
  | .saveJob _ => some .saveJob
  | .getJobStatusByJobIdAndWhat _ _ => some .getJobStatusByJobIdAndWhat
  | .getJobStatusByJobId _ => some .getJobStatusByJobId
  | .deleteStatusByIdList _ => some .deleteStatusByIdList
  | .saveStatus _ => some .saveStatus
  | _ => none

/-- The call that fails if a request is answered so. -/
def failure (r : Request) : Choice → Option DbCall
  | .failed => r.call
  | _ => none

section Inversion

variable {mayFail : DbCall → Bool} {x y : Shared} {c : Choice}

theorem refuse_eq_some {α : Type} {b : Bool} {a : Option α} (h : x.refuse b = some (y,a)) :
    b = true ∧ y = x ∧ a = none := by
  simp only [Shared.refuse,Option.ite_none_right_eq_some,Option.some.injEq,Prod.mk.injEq] at h
  exact ⟨h.1,h.2.1.symm,h.2.2.symm⟩

theorem deliver_eq_some {α : Type} [DecidableEq α] {found rows : List α}
    {a : Option (List α)} (h : x.deliver found rows = some (y,a)) :
    found.Perm rows ∧ y = x ∧ a = some found := by
  simp only [Shared.deliver,Option.ite_none_right_eq_some,Option.some.injEq,Prod.mk.injEq] at h
  exact ⟨h.1,h.2.1.symm,h.2.2.symm⟩

theorem perform_isReady {b : Bool} (h : perform mayFail x .isReady c = some (y,b)) :
    c = .ready b ∧ y = x := by
  cases c <;> cases h
  exact ⟨rfl,rfl⟩

theorem perform_getOrCreate {jobId : ℤ} {a : Option Model}
    (h : perform mayFail x (.getOrCreateByJobId jobId) c = some (y,a)) : y = x ∧
      ((∃ id job, c = .row id ∧ x.table.getOrCreateByJobId jobId id = some job ∧ a = some job) ∨
        (c = .failed ∧ mayFail .getJobByJobId = true ∧ a = none)) := by
  cases c with
  | row id =>
    obtain ⟨job,hjob,hy⟩ := Option.map_eq_some_iff.mp h
    cases hy
    exact ⟨rfl,.inl ⟨id,job,rfl,hjob,rfl⟩⟩
  | failed =>
    obtain ⟨hfail,rfl,rfl⟩ := refuse_eq_some h
    exact ⟨rfl,.inr ⟨rfl,hfail,rfl⟩⟩
  | _ => cases h

theorem perform_getJobById {id : ℤ} {a : Option (Option Model)}
    (h : perform mayFail x (.getJobById id) c = some (y,a)) : y = x ∧
      ((c = .go ∧ a = some (x.table.row? (wireUlong id))) ∨
        (c = .failed ∧ mayFail .getJobById = true ∧ a = none)) := by
  cases c with
  | go =>
    cases h
    exact ⟨rfl,.inl ⟨rfl,rfl⟩⟩
  | failed =>
    obtain ⟨hfail,rfl,rfl⟩ := refuse_eq_some h
    exact ⟨rfl,.inr ⟨rfl,hfail,rfl⟩⟩
  | _ => cases h

theorem perform_getRunningJobs {a : Option (List Model)}
    (h : perform mayFail x .getRunningJobs c = some (y,a)) : y = x ∧
      ((∃ found, c = .rows found ∧ found.Perm x.runningJobs ∧ a = some found) ∨
        (c = .failed ∧ mayFail .getRunningJobs = true ∧ a = none)) := by
  cases c with
  | rows found =>
    obtain ⟨hperm,rfl,rfl⟩ := deliver_eq_some h
    exact ⟨rfl,.inl ⟨found,rfl,hperm,rfl⟩⟩
  | failed =>
    obtain ⟨hfail,rfl,rfl⟩ := refuse_eq_some h
    exact ⟨rfl,.inr ⟨rfl,hfail,rfl⟩⟩
  | _ => cases h

theorem perform_saveJob {job : Model} {a : Option Model}
    (h : perform mayFail x (.saveJob job) c = some (y,a)) :
    (∃ id table, c = .saved id ∧ x.table.saveJob job id = some table ∧ y = { x with table } ∧
      a = some { job with id }) ∨
    (c = .failed ∧ mayFail .saveJob = true ∧ y = x ∧ a = none) := by
  cases c with
  | saved id =>
    obtain ⟨table,htable,hy⟩ := Option.map_eq_some_iff.mp h
    cases hy
    exact .inl ⟨id,table,rfl,htable,rfl,rfl⟩
  | failed =>
    obtain ⟨hfail,rfl,rfl⟩ := refuse_eq_some h
    exact .inr ⟨rfl,hfail,rfl,rfl⟩
  | _ => cases h

theorem perform_byWhat {jobId : ℤ} {what : String} {a : Option (List Status)}
    (h : perform mayFail x (.getJobStatusByJobIdAndWhat jobId what) c = some (y,a)) : y = x ∧
      ((∃ found, c = .statuses found ∧ found.Perm (x.statuses.byWhat jobId what) ∧
          a = some found) ∨
        (c = .failed ∧ mayFail .getJobStatusByJobIdAndWhat = true ∧ a = none)) := by
  cases c with
  | statuses found =>
    obtain ⟨hperm,rfl,rfl⟩ := deliver_eq_some h
    exact ⟨rfl,.inl ⟨found,rfl,hperm,rfl⟩⟩
  | failed =>
    obtain ⟨hfail,rfl,rfl⟩ := refuse_eq_some h
    exact ⟨rfl,.inr ⟨rfl,hfail,rfl⟩⟩
  | _ => cases h

theorem perform_byJob {jobId : ℤ} {a : Option (List Status)}
    (h : perform mayFail x (.getJobStatusByJobId jobId) c = some (y,a)) : y = x ∧
      ((∃ found, c = .statuses found ∧ found.Perm (x.statuses.byJob jobId) ∧ a = some found) ∨
        (c = .failed ∧ mayFail .getJobStatusByJobId = true ∧ a = none)) := by
  cases c with
  | statuses found =>
    obtain ⟨hperm,rfl,rfl⟩ := deliver_eq_some h
    exact ⟨rfl,.inl ⟨found,rfl,hperm,rfl⟩⟩
  | failed =>
    obtain ⟨hfail,rfl,rfl⟩ := refuse_eq_some h
    exact ⟨rfl,.inr ⟨rfl,hfail,rfl⟩⟩
  | _ => cases h

theorem perform_deleteStatuses {ids : List ℤ} {a : Option Unit}
    (h : perform mayFail x (.deleteStatusByIdList ids) c = some (y,a)) :
    (c = .go ∧ y = { x with statuses := x.statuses.delete ids }) ∨
    (c = .failed ∧ mayFail .deleteStatusByIdList = true ∧ y = x) := by
  cases c with
  | go =>
    cases h
    exact .inl ⟨rfl,rfl⟩
  | failed =>
    obtain ⟨hfail,rfl,-⟩ := refuse_eq_some h
    exact .inr ⟨rfl,hfail,rfl⟩
  | _ => cases h

theorem perform_saveStatus {status : Status} {a : Option Status}
    (h : perform mayFail x (.saveStatus status) c = some (y,a)) :
    (∃ id statuses, c = .saved id ∧ x.statuses.save status id = some statuses ∧
      y = { x with statuses }) ∨
    (c = .failed ∧ mayFail .saveStatus = true ∧ y = x) := by
  cases c with
  | saved id =>
    obtain ⟨statuses,hsave,hy⟩ := Option.map_eq_some_iff.mp h
    cases hy
    exact .inl ⟨id,statuses,rfl,hsave,rfl⟩
  | failed =>
    obtain ⟨hfail,rfl,-⟩ := refuse_eq_some h
    exact .inr ⟨rfl,hfail,rfl⟩
  | _ => cases h

theorem perform_bundleStatus {bundleHash : String} {details : Details} {j : Json}
    (h : perform mayFail x (.bundleStatus bundleHash details) c = some (y,j)) :
    c = .json j ∧ y = x := by
  cases c <;> cases h
  exact ⟨rfl,rfl⟩

theorem perform_bundleBool {function : BundleFunction} {bundleHash : String} {details : Details}
    {b : Bool} (h : perform mayFail x (.bundleBool function bundleHash details) c = some (y,b)) :
    c = .answered b ∧ y = x := by
  cases c <;> cases h
  exact ⟨rfl,rfl⟩

theorem perform_archive {workingDirectory : String} {a : Option Unit}
    (h : perform mayFail x (.archive workingDirectory) c = some (y,a)) :
    (∃ b, c = .archived b) ∧ y = x := by
  cases c <;> cases h
  exact ⟨⟨_,rfl⟩,rfl⟩

theorem perform_queueUpdate {update : JobSubmit.JobUpdate} {a : Unit}
    (h : perform mayFail x (.queueUpdate update) c = some (y,a)) :
    c = .go ∧ y = { x with updates := x.updates ++ [update] } := by
  cases c <;> cases h
  exact ⟨rfl,rfl⟩

theorem perform_table {r : Request} {a : Answer r} (h : perform mayFail x r c = some (y,a))
    (hr : ∀ job, r ≠ .saveJob job) : y.table = x.table := by
  cases r with
  | saveJob job => exact absurd rfl (hr job)
  | getOrCreateByJobId jobId => rw [(perform_getOrCreate h).1]
  | getJobById id => rw [(perform_getJobById h).1]
  | getRunningJobs => rw [(perform_getRunningJobs h).1]
  | getJobStatusByJobIdAndWhat jobId what => rw [(perform_byWhat h).1]
  | getJobStatusByJobId jobId => rw [(perform_byJob h).1]
  | deleteStatusByIdList ids => obtain ⟨-,rfl⟩ | ⟨-,-,rfl⟩ := perform_deleteStatuses h <;> rfl
  | saveStatus status => obtain ⟨_,_,-,-,rfl⟩ | ⟨-,-,rfl⟩ := perform_saveStatus h <;> rfl
  | isReady => rw [(perform_isReady h).2]
  | bundleStatus bundleHash details => rw [(perform_bundleStatus h).2]
  | bundleBool function bundleHash details => rw [(perform_bundleBool h).2]
  | archive workingDirectory => rw [(perform_archive h).2]
  | queueUpdate update => rw [(perform_queueUpdate h).2]

theorem perform_of_call {mayFail' : DbCall → Bool} {r : Request} {z : Shared × Answer r}
    (hle : ∀ call, failure r c = some call → mayFail call = true → mayFail' call = true)
    (h : perform mayFail x r c = some z) : perform mayFail' x r c = some z := by
  have hrefuse {α : Type} {call : DbCall} {w : Shared × Option α}
      (hcall : failure r c = some call) (hw : x.refuse (mayFail call) = some w) :
      x.refuse (mayFail' call) = some w := by
    have hfail := (refuse_eq_some hw).1
    rw [hfail] at hw
    rw [hle call hcall hfail]
    exact hw
  cases c with
  | failed =>
    cases r <;> first
      | exact hrefuse rfl h
      | cases h
  | _ => cases r <;> exact h

theorem exists_perform (mayFail : DbCall → Bool) (x : Shared) (r : Request) :
    ∃ c y, perform mayFail x r c = some y := by
  cases r with
  | isReady => exact ⟨.ready true,_,rfl⟩
  | getOrCreateByJobId jobId =>
    obtain ⟨choice,job,hjob⟩ := x.table.exists_getOrCreate jobId
    exact ⟨.row choice,_,Option.map_eq_some_iff.mpr ⟨job,hjob,rfl⟩⟩
  | getJobById id => exact ⟨.go,_,rfl⟩
  | getRunningJobs => exact ⟨.rows x.runningJobs,_,if_pos (List.Perm.refl _)⟩
  | saveJob job =>
    obtain ⟨id,table,hsave⟩ := x.table.exists_saveJob job
    exact ⟨.saved id,_,Option.map_eq_some_iff.mpr ⟨table,hsave,rfl⟩⟩
  | getJobStatusByJobIdAndWhat jobId what =>
    exact ⟨.statuses (x.statuses.byWhat jobId what),_,if_pos (List.Perm.refl _)⟩
  | getJobStatusByJobId jobId =>
    exact ⟨.statuses (x.statuses.byJob jobId),_,if_pos (List.Perm.refl _)⟩
  | deleteStatusByIdList ids => exact ⟨.go,_,rfl⟩
  | saveStatus status =>
    obtain ⟨id,statuses,hsave⟩ := x.statuses.exists_save status
    exact ⟨.saved id,_,Option.map_eq_some_iff.mpr ⟨statuses,hsave,rfl⟩⟩
  | bundleStatus bundleHash details => exact ⟨.json .null,_,rfl⟩
  | bundleBool function bundleHash details => exact ⟨.answered true,_,rfl⟩
  | archive workingDirectory => exact ⟨.archived true,_,rfl⟩
  | queueUpdate update => exact ⟨.go,_,rfl⟩

/-- Every handler that runs alone can come to its end. -/
theorem handler_ends (mayFail : DbCall → Bool) {α : Type} (p : Async α) (x : Shared) :
    ∃ cs a x', Program.exec (perform mayFail) p x cs = some (a,x',[]) :=
  Program.exists_exec (exists_perform mayFail) p x

end Inversion

/-- The copy of the row a handler has after an answer: what it read or saved last. -/
def Request.copied : (r : Request) → Answer r → Option Model → Option Model
  | .getOrCreateByJobId _, some job, _ => some job
  | .getJobById _, some (some job), _ => some job
  | .saveJob _, some job, _ => some job
  | _, _, copy => copy

/-- A submit handler, a message that has arrived, or a handler with what is left of its
program. The copy of the row is recorded for the reader only. -/
inductive Task
  | submit (handler : JobSubmit.Handler)
  | cancel (jobId : ℤ)
  | delete (jobId : ℤ)
  | checkAll
  | sweeping (rest : Async (List Model))
  | running (copy : Option Model) (rest : Async Unit)

/-- The status check that a submit handler spawns for a known job notifies in any case. -/
def spawned : JobSubmit.Handler → Task
  | .checking job => .running (some job) (checkJobStatus job true)
  | handler => .submit handler

def submitCall : JobSubmit.Handler → DbCall
  | .getting _ _ => .getJobByJobId
  | .rejected _ _ => .deleteJob
  | _ => .saveJob

/-- The sweep over the running jobs goes on, or spawns its checks and ends. -/
def swept : Async (List Model) → Task × List Task
  | .done jobs =>
    (.running none (.done ()),jobs.map fun job => .running (some job) (checkJobStatus job false))
  | rest => (.sweeping rest,[])

def exec (mayFail : DbCall → Bool) (x : Shared) (i : ℕ) :
    Task → Choice → Option (Shared × Task × List Task)
  | .submit handler, .submit c =>
    if c = .failed ∧ mayFail (submitCall handler) = false then none
    else (JobSubmit.exec x.toShared i handler c).map fun r =>
      ({ x with toShared := r.1 },.submit r.2.1,r.2.2.map spawned)
  | .cancel jobId, .go => some (x,.running none (handleJobCancel jobId),[])
  | .delete jobId, .go => some (x,.running none (handleJobDelete jobId),[])
  | .checkAll, .go => some (x,.sweeping checkAllJobsStatus,[])
  | .sweeping (.ask r resume), c =>
    (perform mayFail x r c).map fun y => (y.1,swept (resume y.2))
  | .running copy (.ask r resume), c =>
    (perform mayFail x r c).map fun y => (y.1,.running (r.copied y.2 copy) (resume y.2),[])
  | _, _ => none

def Task.waitsFor : Task → Option Request
  | .running _ rest => rest.next?
  | _ => none

def Task.finished : Task → Bool
  | .submit .done => true
  | .running _ (.done _) => true
  | _ => false

def entry : Task → Bool
  | .submit handler => JobSubmit.entry handler
  | .cancel _ => true
  | .delete _ => true
  | .checkAll => true
  | _ => false

theorem exec_running {mayFail : DbCall → Bool} {x x' : Shared} {i : ℕ} {copy : Option Model}
    {p : Async Unit} {c : Choice} {t' : Task} {new : List Task}
    (h : exec mayFail x i (.running copy p) c = some (x',t',new)) :
    ∃ r resume a, p = .ask r resume ∧ perform mayFail x r c = some (x',a) ∧
      t' = .running (r.copied a copy) (resume a) ∧ new = [] := by
  cases p with
  | done a => cases c <;> cases h
  | ask r resume =>
    obtain ⟨⟨y,a⟩,hperform,hy⟩ := Option.map_eq_some_iff.mp h
    obtain ⟨rfl,rfl,rfl⟩ : y = x' ∧ Task.running (r.copied a copy) (resume a) = t' ∧ [] = new := by
      simpa using hy
    exact ⟨r,resume,a,rfl,hperform,rfl,rfl⟩

/-- Any number of handlers of all kinds over one pair of tables. -/
def system (mayFail : DbCall → Bool) : Interleaving Shared Task Choice := ⟨entry,exec mayFail⟩

def initial (table : JobTable) (statuses : StatusTable) : Interleaving.State Shared Task :=
  ⟨⟨⟨none,table,[]⟩,statuses⟩,[]⟩

/-- A job that has ended, alone in its table; concrete runs start from it. -/
def endedJob : Model := { id := 1, jobId := some 7, schedulerId := some 3, bundleHash := "bundle" }

def endedTable : JobTable := JobTable.empty.insert 1 endedJob

/-- The same job while it is running, without any status. -/
def runningJob : Model := { endedJob with running := true }

def runningShared : Shared := ⟨⟨none,JobTable.empty.insert 1 runningJob,[]⟩,.empty⟩

end JobHandlers
end JobControllerClient
