import JobControllerClient.JobSystem

/-! `check_job_status` running alone. A report that is stored replaces what the status
table shows under its `what`; the final decision looks at the rows read back, and a read
that fails counts as an empty table. -/
namespace JobControllerClient
namespace StatusCheck

open JobHandlers Program
open JobTable (Model wireUlong i32Max)
open DbRecords (Status)

/-- The state under which a reported status is read back. -/
def recorded (status : ℕ) : ℕ := stateToU32 (statusToI32 status)

/-- Nothing changes for the other `what`s of the job. -/
def SameOthers (jobId : ℤ) (what : String) (t t' : StatusTable) : Prop :=
  ∀ row : Status, row.what ≠ what → (row ∈ t'.byJob jobId ↔ row ∈ t.byJob jobId)

/-- Every row is kept, except those of the job under one of the given `what`s. -/
def SameOutside (jobId : ℤ) (whats : List String) (t t' : StatusTable) : Prop :=
  ∀ row : Status, ¬ (row.jobId = wireUlong jobId ∧ row.what ∈ whats) →
    (t'.row? row.id = some row ↔ t.row? row.id = some row)

theorem SameOutside.others {jobId : ℤ} {what : String} {t t' : StatusTable}
    (h : SameOutside jobId [what] t t') : SameOthers jobId what t t' := by
  intro row hwhat
  rw [StatusTable.mem_byJob,StatusTable.mem_byJob]
  exact and_congr_left fun _ => h row fun hin => hwhat (List.mem_singleton.mp hin.2)

def Has (t : StatusTable) (jobId : ℤ) (what : String) (state : ℕ) : Prop :=
  ∃ row ∈ t.byJob jobId, row.what = what ∧ stateToU32 row.state = state

def Only (t : StatusTable) (jobId : ℤ) (what : String) (state : ℕ) : Prop :=
  ∀ row ∈ t.byJob jobId, row.what = what → stateToU32 row.state = state

/-- The rows a check goes on with after the read and the removal of duplicates. -/
structure Prepared (mayFail : DbCall → Bool) (jobId : ℤ) (what : String) (t t' : StatusTable)
    (vStatus : List Status) : Prop where
  others : SameOthers jobId what t t'
  found : vStatus = [] ∨ ∃ row ∈ t'.byWhat jobId what, vStatus = [row]
  complete : (∀ call, mayFail call = false) → ∀ row ∈ t'.byWhat jobId what, row ∈ vStatus

section Report

variable {mayFail : DbCall → Bool} {t t' : StatusTable} {jobId : ℤ} {what : String}
  {found vStatus : List Status} {job : Model} {report : Report}

def Read (mayFail : DbCall → Bool) (t : StatusTable) (jobId : ℤ) (what : String)
    (found : List Status) : Prop :=
  found.Perm (t.byWhat jobId what) ∨
    (mayFail .getJobStatusByJobIdAndWhat = true ∧ found = [])

theorem Read.mem (h : Read mayFail t jobId what found) {row : Status} (hrow : row ∈ found) :
    row ∈ t.byWhat jobId what := by
  rcases h with hperm | ⟨-,rfl⟩
  · exact hperm.mem_iff.mp hrow
  · cases hrow

theorem Read.complete (h : Read mayFail t jobId what found)
    (hsafe : ∀ call, mayFail call = false) {row : Status} (hrow : row ∈ t.byWhat jobId what) :
    row ∈ found := by
  rcases h with hperm | ⟨hfail,-⟩
  · exact hperm.mem_iff.mpr hrow
  · rw [hsafe] at hfail
    cases hfail

theorem prepared_single (h : Read mayFail t jobId what found) (hlength : ¬ 1 < found.length) :
    Prepared mayFail jobId what t t found := by
  refine ⟨fun _ _ => Iff.rfl,?_,fun hsafe row => h.complete hsafe⟩
  match found, hlength with
  | [], _ => exact .inl rfl
  | [row], _ => exact .inr ⟨row,h.mem (List.mem_singleton_self row),rfl⟩
  | _ :: _ :: _, hlength => simp at hlength

theorem sameOutside_deleted (h : Read mayFail t jobId what found) :
    SameOutside jobId [what] t (t.delete (found.map (·.id))) := by
  intro row houtside
  rw [StatusTable.row?_delete]
  split
  · rename_i hmem
    simp only [List.map_map,List.mem_map,Function.comp_apply] at hmem
    obtain ⟨other,hother,hid⟩ := hmem
    obtain ⟨hjob,hwhat⟩ := StatusTable.mem_byWhat.mp (h.mem hother)
    obtain ⟨hrow,hkey⟩ := StatusTable.mem_byJob.mp hjob
    rw [StatusTable.wireUlong_id hjob] at hid
    rw [← hid,hrow]
    simp only [reduceCtorEq,false_iff]
    rintro hsame
    obtain rfl := Option.some.inj hsame
    exact houtside ⟨hkey,List.mem_singleton.mpr hwhat⟩
  · exact Iff.rfl

theorem prepared_deleted (h : Read mayFail t jobId what found) :
    Prepared mayFail jobId what t (t.delete (found.map (·.id))) [] := by
  refine ⟨(sameOutside_deleted h).others,.inl rfl,fun hsafe row hrow => ?_⟩
  obtain ⟨hjob,hwhat⟩ := StatusTable.mem_byWhat.mp hrow
  obtain ⟨hjob,hid⟩ := StatusTable.mem_byJob_delete.mp hjob
  have hfound := h.complete hsafe (StatusTable.mem_byWhat.mpr ⟨hjob,hwhat⟩)
  refine (hid ?_).elim
  rw [← StatusTable.wireUlong_id hjob,List.map_map]
  exact List.mem_map_of_mem hfound

theorem prepared_kept (hfail : mayFail .deleteStatusByIdList = true) :
    Prepared mayFail jobId what t t [] := by
  refine ⟨fun _ _ => Iff.rfl,.inl rfl,fun hsafe => ?_⟩
  rw [hsafe] at hfail
  cases hfail

theorem statusToI32_nonneg (status : ℕ) : 0 ≤ statusToI32 status := by
  simp only [statusToI32,le_min_iff]
  exact ⟨Int.natCast_nonneg _,by decide⟩

theorem asRead_stateItem_state (savedId : ℤ) :
    (StatusTable.asRead (stateItem job report vStatus) savedId).state =
      statusToI32 report.status := by
  have hstate : (stateItem job report vStatus).state = statusToI32 report.status := rfl
  have hnonneg : ¬ (stateItem job report vStatus).state < 0 := by
    rw [hstate]
    exact not_lt.mpr (statusToI32_nonneg report.status)
  rw [StatusTable.asRead,Status.stored]
  simp only [if_neg hnonneg]
  exact min_eq_left (min_le_right _ _)

/-- A state that equals the reported status needs no save. -/
theorem statusToI32_of_eq {row : Status} (hrow : row ∈ t.byJob jobId)
    (hstate : report.status = stateToU32 row.state) : statusToI32 report.status = row.state := by
  have hstored := StatusTable.stored_of_mem hrow
  have hnonneg := hstored.nonneg
  have hnat : stateToU32 row.state = row.state.toNat := if_neg (by omega)
  rw [statusToI32,hstate,hnat,Int.toNat_of_nonneg hnonneg,min_eq_left hstored.bounded]

theorem recorded_of_eq {row : Status} (hrow : row ∈ t.byJob jobId)
    (hstate : report.status = stateToU32 row.state) :
    stateToU32 row.state = recorded report.status := by
  rw [recorded,statusToI32_of_eq hrow hstate]

theorem asRead_stateItem_jobId (hfound : vStatus = [] ∨
      ∃ row ∈ t.byWhat job.id report.what, vStatus = [row]) (savedId : ℤ) :
    (StatusTable.asRead (stateItem job report vStatus) savedId).jobId = wireUlong job.id := by
  rcases hfound with rfl | ⟨row,hrow,rfl⟩
  · rfl
  · have hjob := (StatusTable.mem_byJob.mp (StatusTable.mem_byWhat.mp hrow).1).2
    show wireUlong row.jobId = wireUlong job.id
    rw [hjob]
    simp only [wireUlong]
    split <;> simp_all

theorem savedId_single {row : Status} {savedId : ℤ} (hrow : row ∈ t.byJob jobId)
    (hsave : t.save (stateItem job report [row]) savedId = some t') : savedId = row.id := by
  have hkey := (StatusTable.save_eq_some hsave).2
  have hitem : (stateItem job report [row]).id = row.id := rfl
  rwa [hitem,StatusTable.wireUlong_id hrow,
    if_neg (StatusTable.stored_of_mem hrow).positive.ne'] at hkey

/-- The saved row belongs to the job and the report, and it takes the place of such a row. -/
theorem sameOutside_saved (hfound : vStatus = [] ∨
      ∃ row ∈ t.byWhat job.id report.what, vStatus = [row]) {savedId : ℤ}
    (hsave : t.save (stateItem job report vStatus) savedId = some t') :
    SameOutside job.id [report.what] t t' := by
  intro row houtside
  rw [(StatusTable.save_eq_some hsave).1]
  split
  · rename_i hid
    constructor
    · intro hnew
      obtain rfl := Option.some.inj hnew
      exact (houtside ⟨asRead_stateItem_jobId hfound savedId,List.mem_singleton.mpr rfl⟩).elim
    · intro hold
      rcases hfound with rfl | ⟨first,hfirst,rfl⟩
      · have hkey := (StatusTable.save_eq_some hsave).2
        rw [if_pos (show wireUlong (stateItem job report []).id = 0 from rfl),← hid,hold] at hkey
        cases hkey
      · obtain ⟨hjob,hwhat⟩ := StatusTable.mem_byWhat.mp hfirst
        obtain ⟨hrow,hkey⟩ := StatusTable.mem_byJob.mp hjob
        rw [hid,savedId_single hjob hsave,hrow] at hold
        obtain rfl := Option.some.inj hold
        exact (houtside ⟨hkey,List.mem_singleton.mpr hwhat⟩).elim
  · exact Iff.rfl

/-- If no other row of the `what` was left, the saved row is the only one. -/
theorem eq_of_saved (hfound : vStatus = [] ∨
      ∃ row ∈ t.byWhat job.id report.what, vStatus = [row]) {savedId : ℤ}
    (hsave : t.save (stateItem job report vStatus) savedId = some t')
    (hcomplete : ∀ row ∈ t.byWhat job.id report.what, row ∈ vStatus) {row : Status}
    (hrow : row ∈ t'.byJob job.id) (hwhat : row.what = report.what) :
    row = StatusTable.asRead (stateItem job report vStatus) savedId := by
  rcases (StatusTable.mem_byJob_save hsave).mp hrow with ⟨-,rfl,-⟩ | ⟨hid,hold⟩
  · rfl
  · have hmem := hcomplete row (StatusTable.mem_byWhat.mpr ⟨hold,hwhat⟩)
    rcases hfound with rfl | ⟨first,hfirst,rfl⟩
    · cases hmem
    · obtain rfl := List.mem_singleton.mp hmem
      exact (hid (savedId_single hold hsave).symm).elim

theorem mem_of_saved (hfound : vStatus = [] ∨
      ∃ row ∈ t.byWhat job.id report.what, vStatus = [row]) {savedId : ℤ}
    (hsave : t.save (stateItem job report vStatus) savedId = some t') :
    StatusTable.asRead (stateItem job report vStatus) savedId ∈ t'.byJob job.id :=
  (StatusTable.mem_byJob_save hsave).mpr (.inl ⟨rfl,rfl,asRead_stateItem_jobId hfound savedId⟩)

theorem save_stateItem (hfound : vStatus = [] ∨
      ∃ row ∈ t.byWhat job.id report.what, vStatus = [row]) {savedId : ℤ}
    (hsave : t.save (stateItem job report vStatus) savedId = some t') :
    SameOthers job.id report.what t t' ∧
      Has t' job.id report.what (recorded report.status) ∧
      ((∀ row ∈ t.byWhat job.id report.what, row ∈ vStatus) →
        Only t' job.id report.what (recorded report.status)) := by
  have hstate : stateToU32 (StatusTable.asRead (stateItem job report vStatus) savedId).state =
      recorded report.status := by rw [asRead_stateItem_state,recorded]
  refine ⟨(sameOutside_saved hfound hsave).others,
    ⟨_,mem_of_saved hfound hsave,rfl,hstate⟩,fun hcomplete row hrow hwhat => ?_⟩
  rw [eq_of_saved hfound hsave hcomplete hrow hwhat]
  exact hstate

end Report

/-- What the environment lets a check see: that it is disconnected, or a status answer. -/
def seen : Choice → Option (Option Json)
  | .ready false => some none
  | .json value => some (some value)
  | _ => none

def observed (log : List Choice) : List (Option Json) := log.filterMap seen

theorem observed_push {l : List Choice} {c : Choice} (h : seen c = none) :
    observed (l ++ [c]) = observed l := by
  simp [observed,h]

/-- The effect of one report; it is stored unless its save fails, and it is the only row
of its `what` unless some request fails. -/
structure Updated (mayFail : DbCall → Bool) (job : Model) (report : Report) (x y : Shared) :
    Prop where
  table : y.table = x.table
  updates : ∃ new, y.updates = x.updates ++ new ∧
    ∀ u ∈ new, u.source = report.what
  others : SameOthers job.id report.what x.statuses y.statuses
  has : mayFail .saveStatus = false → Has y.statuses job.id report.what (recorded report.status)
  only : (∀ call, mayFail call = false) →
    Only y.statuses job.id report.what (recorded report.status)

/-- Requests that store a status or report one to the server. -/
def noisy : Request → Bool
  | .saveStatus _ => true
  | .queueUpdate update => update.source ≠ JobSubmit.jobCompletionSource
  | _ => false

def noise (log : List (Request × Choice)) : Bool := log.any fun step => noisy step.1

/-- The log goes on without a status answer, with noise or without. -/
structure Longer (log log' : List (Request × Choice)) (b : Bool) : Prop where
  noise : noise log' = (noise log || b)
  observed : observed (log'.map Prod.snd) = observed (log.map Prod.snd)

theorem longer_refl (log : List (Request × Choice)) : Longer log log false := ⟨by simp,rfl⟩

theorem Longer.push {log log' : List (Request × Choice)} {b : Bool} (h : Longer log log' b)
    {r : Request} {c : Choice} (hc : seen c = none) : Longer log (log' ++ [(r,c)]) (b || noisy r) := by
  refine ⟨?_,?_⟩
  · rw [StatusCheck.noise,List.any_append,← StatusCheck.noise,h.noise]
    simp [Bool.or_assoc]
  · rw [List.map_append,List.map_singleton,observed_push hc,h.observed]

theorem Longer.trans {log log' log'' : List (Request × Choice)} {b b' : Bool}
    (h : Longer log log' b) (h' : Longer log' log'' b') : Longer log log'' (b || b') :=
  ⟨by rw [h'.noise,h.noise,Bool.or_assoc],h'.observed.trans h.observed⟩

/-- What the removal of duplicates leaves of the rows found and of the table. -/
inductive Cleared (mayFail : DbCall → Bool) (t : StatusTable) (found : List Status) :
    List Status → StatusTable → Prop
  | single (hlength : ¬ 1 < found.length) : Cleared mayFail t found found t
  | deleted (hlength : 1 < found.length) :
      Cleared mayFail t found [] (t.delete (found.map (·.id)))
  | kept (hfail : mayFail .deleteStatusByIdList = true) : Cleared mayFail t found [] t

/-- A report has to be stored and notified. -/
def due (force : Bool) (report : Report) (vStatus : List Status) : Bool :=
  force || vStatus.head?.all (fun row => report.status ≠ stateToU32 row.state)

def statusUpdate (job : Model) (report : Report) : JobSubmit.JobUpdate :=
  ⟨JobSubmit.capJobIdForWire (job.jobId.getD 0),report.what,report.status,report.info⟩

/-- All that one report can do, and whether it makes noise. -/
inductive Effect (mayFail : DbCall → Bool) (job : Model) (force : Bool) (report : Report)
    (x : Shared) : Shared → Bool → Prop
  | saved {found vStatus : List Status} {t t' : StatusTable} {savedId : ℤ}
      (hread : Read mayFail x.statuses job.id report.what found)
      (hcleared : Cleared mayFail x.statuses found vStatus t) (hdue : due force report vStatus = true)
      (hsave : t.save (stateItem job report vStatus) savedId = some t') :
      Effect mayFail job force report x
        { x with statuses := t', updates := x.updates ++ [statusUpdate job report] } true
  | unsaved {found vStatus : List Status} {t : StatusTable}
      (hread : Read mayFail x.statuses job.id report.what found)
      (hcleared : Cleared mayFail x.statuses found vStatus t)
      (hfail : mayFail .saveStatus = true) :
      Effect mayFail job force report x
        { x with statuses := t, updates := x.updates ++ [statusUpdate job report] } true
  | same {found vStatus : List Status} {t : StatusTable}
      (hread : Read mayFail x.statuses job.id report.what found)
      (hcleared : Cleared mayFail x.statuses found vStatus t)
      (hdue : due force report vStatus = false) :
      Effect mayFail job force report x { x with statuses := t } false

section Update

variable {mayFail : DbCall → Bool} {x : Shared} {job : Model}

theorem dropDuplicates_spec {found : List Status} {log : List (Request × Choice)} :
    wp (transcript (perform mayFail)) (dropDuplicates found) (fun vStatus s =>
      ∃ statuses, s.1 = { x with statuses } ∧
        Cleared mayFail x.statuses found vStatus statuses ∧ Longer log s.2 false) (x,log) := by
  rw [dropDuplicates]
  split
  · rename_i hlength
    refine wp_transcript fun c y a hperform => ?_
    rcases perform_deleteStatuses hperform with ⟨rfl,hx⟩ | ⟨rfl,hfail,hx⟩
    · exact ⟨_,hx,.deleted hlength,(longer_refl log).push rfl⟩
    · exact ⟨x.statuses,hx,.kept hfail,(longer_refl log).push rfl⟩
  · rename_i hlength
    exact ⟨x.statuses,rfl,.single hlength,longer_refl log⟩

theorem updateStatus_effect (force : Bool) (report : Report) {log : List (Request × Choice)} :
    wp (transcript (perform mayFail)) (updateStatus job force report) (fun _ s =>
      ∃ b, Effect mayFail job force report x s.1 b ∧ Longer log s.2 b) (x,log) := by
  refine wp_transcript fun c y found hperform => ?_
  obtain ⟨rfl,hfound⟩ := perform_byWhat hperform
  have hread : Read mayFail y.statuses job.id report.what (found.getD []) := by
    rcases hfound with ⟨rows,-,hperm,rfl⟩ | ⟨-,hfail,rfl⟩
    · exact .inl hperm
    · exact .inr ⟨hfail,rfl⟩
  have hseen : seen c = none := by
    rcases hfound with ⟨rows,rfl,-⟩ | ⟨rfl,-⟩ <;> rfl
  refine wp_then dropDuplicates_spec ?_
  rintro vStatus ⟨_,l⟩ ⟨statuses,rfl,hcleared,hl⟩
  have hlonger := ((longer_refl log).push hseen).trans hl
  split
  · rename_i hdue
    refine wp_transcript fun c z a hsave => wp_transcript_last fun d w b hqueue => ?_
    obtain ⟨rfl,rfl⟩ := perform_queueUpdate hqueue
    obtain ⟨savedId,saved,rfl,hsaved,rfl⟩ | ⟨rfl,hfail,rfl⟩ := perform_saveStatus hsave
    · exact ⟨true,.saved hread hcleared hdue hsaved,(hlonger.push rfl).push rfl⟩
    · exact ⟨true,.unsaved hread hcleared hfail,(hlonger.push rfl).push rfl⟩
  · rename_i hdue
    exact ⟨false,.same hread hcleared (Bool.not_eq_true _ ▸ hdue),hlonger⟩

theorem SameOthers.trans {jobId : ℤ} {what : String} {t t' t'' : StatusTable}
    (h : SameOthers jobId what t t') (h' : SameOthers jobId what t' t'') :
    SameOthers jobId what t t'' :=
  fun row hwhat => (h' row hwhat).trans (h row hwhat)

section Outcomes

variable {report : Report} {statuses statuses' : StatusTable} {vStatus : List Status}
  (hprepared : Prepared mayFail job.id report.what x.statuses statuses vStatus)

include hprepared

theorem updated_saved {savedId : ℤ} {u : JobSubmit.JobUpdate} (hu : u.source = report.what)
    (hsave : statuses.save (stateItem job report vStatus) savedId = some statuses') :
    Updated mayFail job report x
      { x with statuses := statuses', updates := x.updates ++ [u] } := by
  obtain ⟨hothers,hhas,honly⟩ := save_stateItem hprepared.found hsave
  refine ⟨rfl,⟨[u],rfl,fun v hv => ?_⟩,hprepared.others.trans hothers,fun _ => hhas,
    fun hsafe => honly (hprepared.complete hsafe)⟩
  rw [List.mem_singleton.mp hv]
  exact hu

theorem updated_unsaved {u : JobSubmit.JobUpdate} (hu : u.source = report.what)
    (hfail : mayFail .saveStatus = true) :
    Updated mayFail job report x { x with statuses, updates := x.updates ++ [u] } := by
  refine ⟨rfl,⟨[u],rfl,fun v hv => ?_⟩,hprepared.others,fun hsafe => ?_,fun hsafe => ?_⟩
  · rw [List.mem_singleton.mp hv]
    exact hu
  · rw [hsafe] at hfail
    cases hfail
  · rw [hsafe] at hfail
    cases hfail

theorem updated_same (hhead : vStatus.head?.all
      (fun row => report.status ≠ stateToU32 row.state) = false) :
    Updated mayFail job report x { x with statuses } := by
  rcases hprepared.found with rfl | ⟨row,hrow,rfl⟩
  · cases hhead
  · have hstate : report.status = stateToU32 row.state := by simpa using hhead
    obtain ⟨hjob,hwhat⟩ := StatusTable.mem_byWhat.mp hrow
    have hrecorded := recorded_of_eq hjob hstate
    refine ⟨rfl,⟨[],by simp,by simp⟩,hprepared.others,fun _ => ⟨row,hjob,hwhat,hrecorded⟩,?_⟩
    intro hsafe other hother hsame
    have hmem := hprepared.complete hsafe other (StatusTable.mem_byWhat.mpr ⟨hother,hsame⟩)
    rw [List.mem_singleton.mp hmem]
    exact hrecorded

end Outcomes

theorem Cleared.prepared {report : Report} {found vStatus : List Status} {t t' : StatusTable}
    (h : Cleared mayFail t found vStatus t') (hread : Read mayFail t job.id report.what found) :
    Prepared mayFail job.id report.what t t' vStatus := by
  cases h with
  | single hlength => exact prepared_single hread hlength
  | deleted _ => exact prepared_deleted hread
  | kept hfail => exact prepared_kept hfail

theorem Effect.updated {force : Bool} {report : Report} {y : Shared} {b : Bool}
    (h : Effect mayFail job force report x y b) : Updated mayFail job report x y := by
  cases h with
  | saved hread hcleared _ hsave => exact updated_saved (hcleared.prepared hread) rfl hsave
  | unsaved hread hcleared hfail => exact updated_unsaved (hcleared.prepared hread) rfl hfail
  | same hread hcleared hdue =>
    exact updated_same (hcleared.prepared hread) (Bool.or_eq_false_iff.mp hdue).2

end Update

/-- What the status table shows for a job. -/
def board (t : StatusTable) (jobId : ℤ) : Finset (String × ℕ) :=
  ((t.byJob jobId).map fun row => (row.what,stateToU32 row.state)).toFinset

/-- A report replaces what was shown under its `what`. -/
def record (b : Finset (String × ℕ)) (report : Report) : Finset (String × ℕ) :=
  insert (report.what,recorded report.status) (b.filter fun e => e.1 ≠ report.what)

theorem mem_board {t : StatusTable} {jobId : ℤ} {what : String} {state : ℕ} :
    (what,state) ∈ board t jobId ↔ Has t jobId what state := by
  simp [board,Has]

theorem mem_record {b : Finset (String × ℕ)} {report : Report} {what : String} {state : ℕ} :
    (what,state) ∈ record b report ↔
      (what = report.what ∧ state = recorded report.status) ∨
        ((what,state) ∈ b ∧ what ≠ report.what) := by
  simp [record]

def reports (statusJson : Json) : List Report := (statusList statusJson).filterMap report?

def lastStatus (all : List Report) (what : String) : Option ℕ :=
  (all.filter fun report => report.what = what).getLast?.map (·.status)

theorem lastStatus_push (all : List Report) (report : Report) (what : String) :
    lastStatus (all ++ [report]) what =
      if report.what = what then some report.status else lastStatus all what := by
  by_cases h : report.what = what <;> simp [lastStatus,h]

/-- The effect of a list of reports. -/
structure Recorded (mayFail : DbCall → Bool) (job : Model) (all : List Report) (x y : Shared) :
    Prop where
  table : y.table = x.table
  updates : ∃ new, y.updates = x.updates ++ new ∧
    ∀ u ∈ new, ∃ report ∈ all, u.source = report.what
  last : mayFail .saveStatus = false → ∀ what status, lastStatus all what = some status →
    Has y.statuses job.id what (recorded status)
  shown : (∀ call, mayFail call = false) →
    board y.statuses job.id = all.foldl record (board x.statuses job.id)

section List

variable {mayFail : DbCall → Bool} {x y z : Shared} {log : List Choice} {job : Model}
  {all : List Report} {report : Report}

theorem has_of_others {t t' : StatusTable} {jobId : ℤ} {what what' : String} {state : ℕ}
    (h : SameOthers jobId what t t') (hne : what' ≠ what) :
    Has t' jobId what' state ↔ Has t jobId what' state := by
  constructor
  · rintro ⟨row,hrow,rfl,hstate⟩
    exact ⟨row,(h row hne).mp hrow,rfl,hstate⟩
  · rintro ⟨row,hrow,rfl,hstate⟩
    exact ⟨row,(h row hne).mpr hrow,rfl,hstate⟩

theorem Updated.board (h : Updated mayFail job report x y) (hsafe : ∀ call, mayFail call = false) :
    board y.statuses job.id = record (board x.statuses job.id) report := by
  ext ⟨what,state⟩
  rw [mem_board,mem_record,mem_board]
  by_cases hwhat : what = report.what
  · subst hwhat
    simp only [true_and,ne_eq,not_true,and_false,or_false]
    constructor
    · rintro ⟨row,hrow,hrowWhat,rfl⟩
      exact h.only hsafe row hrow hrowWhat
    · rintro rfl
      exact h.has (hsafe _)
  · simp [hwhat,has_of_others h.others hwhat]

theorem recorded_nil : Recorded mayFail job [] x x := by
  refine ⟨rfl,⟨[],by simp,by simp⟩,?_,fun _ => rfl⟩
  intro _ what status hlast
  cases hlast

theorem Recorded.push (h : Recorded mayFail job all x y) (hupdated : Updated mayFail job report y z) :
    Recorded mayFail job (all ++ [report]) x z := by
  obtain ⟨new,hnew,hsources⟩ := h.updates
  obtain ⟨more,hmore,hsource⟩ := hupdated.updates
  refine ⟨hupdated.table.trans h.table,⟨new ++ more,?_,?_⟩,?_,?_⟩
  · rw [hmore,hnew,List.append_assoc]
  · intro u hu
    rcases List.mem_append.mp hu with hu | hu
    · obtain ⟨r,hr,hu⟩ := hsources u hu
      exact ⟨r,List.mem_append_left _ hr,hu⟩
    · exact ⟨report,by simp,hsource u hu⟩
  · intro hsafe what status hlast
    rw [lastStatus_push] at hlast
    split at hlast
    · rename_i hwhat
      obtain rfl := Option.some.inj hlast
      rw [← hwhat]
      exact hupdated.has hsafe
    · rename_i hwhat
      exact (has_of_others hupdated.others (Ne.symm hwhat)).mpr (h.last hsafe what status hlast)
  · intro hsafe
    rw [hupdated.board hsafe,h.shown hsafe,List.foldl_append]
    rfl

inductive Effects (mayFail : DbCall → Bool) (job : Model) (force : Bool) (x : Shared) :
    List Report → Shared → Bool → Prop
  | nil : Effects mayFail job force x [] x false
  | push {all : List Report} {report : Report} {y z : Shared} {b b' : Bool}
      (h : Effects mayFail job force x all y b) (heffect : Effect mayFail job force report y z b') :
      Effects mayFail job force x (all ++ [report]) z (b || b')

theorem Effects.recorded {force b : Bool} (h : Effects mayFail job force x all y b) :
    Recorded mayFail job all x y := by
  induction h with
  | nil => exact recorded_nil
  | push _ heffect ih => exact ih.push heffect.updated

theorem checkStatus_spec (force : Bool) (stat : Json) {log log' : List (Request × Choice)}
    {b : Bool} (h : Effects mayFail job force x all y b) (hl : Longer log log' b) :
    wp (transcript (perform mayFail)) (checkStatus job force stat) (fun _ s =>
      ∃ b, Effects mayFail job force x (all ++ (report? stat).toList) s.1 b ∧ Longer log s.2 b)
      (y,log') := by
  rw [checkStatus]
  cases report? stat with
  | none => exact ⟨b,by simpa using h,hl⟩
  | some report =>
    refine wp_mono (updateStatus_effect force report) ?_
    rintro - s ⟨b',heffect,hlonger⟩
    exact ⟨b || b',h.push heffect,hl.trans hlonger⟩

theorem statusList_spec (force : Bool) (statusJson : Json) {log : List (Request × Choice)} :
    wp (transcript (perform mayFail)) (each (checkStatus job force) (statusList statusJson))
      (fun _ s => ∃ b, Effects mayFail job force x (reports statusJson) s.1 b ∧ Longer log s.2 b)
      (x,log) := by
  have hloop := wp_each (o := transcript (perform mayFail)) (f := checkStatus job force)
    (I := fun visited s => ∃ b, Effects mayFail job force x (visited.filterMap report?) s.1 b ∧
      Longer log s.2 b) (s := (x,log)) ?_ (statusList statusJson) []
      ⟨false,.nil,longer_refl log⟩
  · simpa [reports] using hloop
  · rintro visited stat ⟨y,l⟩ ⟨b,heffects,hl⟩
    have hall : (visited ++ [stat]).filterMap report? =
        visited.filterMap report? ++ (report? stat).toList := by
      cases hreport : report? stat <;> simp [hreport]
    rw [hall]
    exact checkStatus_spec force stat heffects hl

end List

def Finishes (statusJson : Json) (vStatus : List Status) : Prop :=
  jobError vStatus ≠ 0 ∨ (saysComplete statusJson ∧ jobComplete vStatus)

def finalStatus (vStatus : List Status) : ℕ :=
  if jobError vStatus ≠ 0 then jobError vStatus else statusCompleted

theorem jobError_mem {vStatus : List Status} (h : jobError vStatus ≠ 0) :
    isError (jobError vStatus) = true ∧ ∃ row ∈ vStatus, stateToU32 row.state = jobError vStatus := by
  rw [jobError] at h ⊢
  cases hlast : ((vStatus.map fun row => stateToU32 row.state).filter isError).getLast? with
  | none =>
    rw [hlast] at h
    exact (h rfl).elim
  | some status =>
    obtain ⟨hmem,herror⟩ := List.mem_filter.mp (List.mem_of_getLast? hlast)
    exact ⟨herror,List.mem_map.mp hmem⟩

theorem jobError_ne_zero_iff {vStatus : List Status} :
    jobError vStatus ≠ 0 ↔ ∃ row ∈ vStatus, isError (stateToU32 row.state) = true := by
  constructor
  · intro h
    obtain ⟨herror,row,hrow,hstate⟩ := jobError_mem h
    exact ⟨row,hrow,by rw [hstate]; exact herror⟩
  · rintro ⟨row,hrow,herror⟩ hzero
    have hmem : stateToU32 row.state ∈
        (vStatus.map fun row => stateToU32 row.state).filter isError :=
      List.mem_filter.mpr ⟨List.mem_map.mpr ⟨row,hrow,rfl⟩,herror⟩
    rw [jobError] at hzero
    cases hlast : ((vStatus.map fun row => stateToU32 row.state).filter isError).getLast? with
    | none =>
      rw [List.getLast?_eq_none_iff.mp hlast] at hmem
      cases hmem
    | some status =>
      have hstatus := (List.mem_filter.mp (List.mem_of_getLast? hlast)).2
      rw [hlast] at hzero
      rw [show status = 0 from hzero] at hstatus
      cases hstatus

def completionUpdate (job : Model) (status : ℕ) : JobSubmit.JobUpdate :=
  ⟨JobSubmit.capJobIdForWire (job.jobId.getD 0),JobSubmit.jobCompletionSource,status,
    "Job has completed"⟩

/-- The row is saved as not running, and the completion is queued even if the save fails. -/
structure Completed (mayFail : DbCall → Bool) (job : Model) (status : ℕ) (y z : Shared) :
    Prop where
  statuses : z.statuses = y.statuses
  updates : z.updates = y.updates ++ [completionUpdate job status]
  table : (∃ id, y.table.saveJob { job with running := false } id = some z.table) ∨
    (mayFail .saveJob = true ∧ z.table = y.table)

def ReadAll (mayFail : DbCall → Bool) (t : StatusTable) (jobId : ℤ) (vStatus : List Status) :
    Prop :=
  vStatus.Perm (t.byJob jobId) ∨ (mayFail .getJobStatusByJobId = true ∧ vStatus = [])

def Concluded (mayFail : DbCall → Bool) (job : Model) (statusJson : Json) (y z : Shared) :
    Prop :=
  ∃ vStatus, ReadAll mayFail y.statuses job.id vStatus ∧
    ((Finishes statusJson vStatus ∧ Completed mayFail job (finalStatus vStatus) y z) ∨
      (¬ Finishes statusJson vStatus ∧ z = y))

/-- A check that is disconnected does nothing; otherwise it records the reports and decides. -/
def Checked (mayFail : DbCall → Bool) (job : Model) (x z : Shared) : Option Json → Prop
  | none => z = x
  | some statusJson => ∃ y, Recorded mayFail job (reports statusJson) x y ∧
    Concluded mayFail job statusJson y z

section Decision

variable {mayFail : DbCall → Bool} {x y : Shared} {job : Model}

theorem completeJob_spec (status : ℕ) {log : List (Request × Choice)} :
    wp (transcript (perform mayFail)) (completeJob job status) (fun _ s =>
      Completed mayFail job status y s.1 ∧ Longer log s.2 false) (y,log) := by
  refine wp_transcript fun c z saved hsave => wp_transcript fun d z' archived harchive =>
    wp_transcript_last fun e w _ hqueue => ?_
  obtain ⟨rfl,rfl⟩ := perform_queueUpdate hqueue
  obtain ⟨⟨b,rfl⟩,rfl⟩ := perform_archive harchive
  have hl := longer_refl log
  obtain ⟨id,table,rfl,htable,rfl,-⟩ | ⟨rfl,hfail,rfl,-⟩ := perform_saveJob hsave
  · exact ⟨⟨rfl,rfl,.inl ⟨id,htable⟩⟩,((hl.push rfl).push rfl).push rfl⟩
  · exact ⟨⟨rfl,rfl,.inr ⟨hfail,rfl⟩⟩,((hl.push rfl).push rfl).push rfl⟩

theorem decideCheck_spec {statusJson : Json} {vStatus : List Status}
    {log : List (Request × Choice)} (h : ReadAll mayFail y.statuses job.id vStatus) :
    wp (transcript (perform mayFail)) (decideCheck job statusJson vStatus) (fun _ s =>
      Concluded mayFail job statusJson y s.1 ∧ Longer log s.2 false) (y,log) := by
  rw [decideCheck]
  split
  · rename_i hfinishes
    exact wp_mono (completeJob_spec _) fun _ s hs =>
      ⟨⟨vStatus,h,.inl ⟨hfinishes,hs.1⟩⟩,hs.2⟩
  · rename_i hfinishes
    exact ⟨⟨vStatus,h,.inr ⟨hfinishes,rfl⟩⟩,longer_refl log⟩

theorem concludeCheck_spec (statusJson : Json) {log : List (Request × Choice)} :
    wp (transcript (perform mayFail)) (concludeCheck job statusJson) (fun _ s =>
      Concluded mayFail job statusJson y s.1 ∧ Longer log s.2 false) (y,log) := by
  refine wp_transcript fun c z found hread => ?_
  obtain ⟨rfl,⟨rows,rfl,hperm,rfl⟩ | ⟨rfl,hfail,rfl⟩⟩ := perform_byJob hread
  · exact wp_mono (decideCheck_spec (.inl hperm)) fun _ s hs =>
      ⟨hs.1,((longer_refl log).push rfl).trans hs.2⟩
  · exact wp_mono (decideCheck_spec (.inr ⟨hfail,rfl⟩)) fun _ s hs =>
      ⟨hs.1,((longer_refl log).push rfl).trans hs.2⟩

/-- What a check does in between, given what it sees: nothing, or the reports one by one
and then the decision. -/
def Course (mayFail : DbCall → Bool) (job : Model) (force : Bool) (x z : Shared) (b : Bool) :
    Option Json → Prop
  | none => z = x ∧ b = false
  | some statusJson => ∃ y, Effects mayFail job force x (reports statusJson) y b ∧
    Concluded mayFail job statusJson y z

theorem checkJobStatus_course (force : Bool) {log : List (Request × Choice)} :
    wp (transcript (perform mayFail)) (checkJobStatus job force) (fun _ s =>
      ∃ outcome b, observed (s.2.map Prod.snd) = observed (log.map Prod.snd) ++ [outcome] ∧
        noise s.2 = (noise log || b) ∧ Course mayFail job force x s.1 b outcome) (x,log) := by
  refine wp_transcript fun c y ready hready => ?_
  obtain ⟨rfl,rfl⟩ := perform_isReady hready
  cases ready with
  | false => exact ⟨none,false,by simp [observed,seen],by simp [noise,noisy],rfl,rfl⟩
  | true =>
    refine wp_transcript fun c z statusJson hjson => ?_
    obtain ⟨rfl,rfl⟩ := perform_bundleStatus hjson
    refine wp_then (statusList_spec force statusJson) ?_
    rintro - ⟨y,l⟩ ⟨b,heffects,hl⟩
    refine wp_mono (concludeCheck_spec statusJson) ?_
    rintro - s ⟨hconcluded,hs⟩
    have hlonger := hl.trans hs
    refine ⟨some statusJson,b,?_,?_,y,heffects,hconcluded⟩
    · rw [hlonger.observed,observed,observed]
      simp only [List.map_append,List.filterMap_append,List.append_assoc]
      rfl
    · rw [hlonger.noise]
      simp [noise,noisy]

theorem Course.checked {force b : Bool} {outcome : Option Json}
    (h : Course mayFail job force x y b outcome) : Checked mayFail job x y outcome := by
  cases outcome with
  | none => exact h.1
  | some statusJson =>
    obtain ⟨z,heffects,hconcluded⟩ := h
    exact ⟨z,heffects.recorded,hconcluded⟩

theorem checkJobStatus_spec (force : Bool) {log : List Choice} :
    wp (choices (perform mayFail)) (checkJobStatus job force) (fun _ s =>
      ∃ outcome, observed s.2 = observed log ++ [outcome] ∧ Checked mayFail job x s.1 outcome)
      (x,log) := by
  have hlog : log = (log.map fun c => (Request.isReady,c)).map Prod.snd := by simp
  rw [hlog]
  refine choices_of_transcript (wp_mono (checkJobStatus_course force) ?_)
  rintro - s ⟨outcome,b,hobserved,-,hcourse⟩
  exact ⟨outcome,hobserved,hcourse.checked⟩

theorem checked_of_exec {force : Bool} {x' : Shared} {cs : List Choice}
    (h : exec (perform mayFail) (checkJobStatus job force) x cs = some ((),x',[])) :
    ∃ outcome, observed cs = [outcome] ∧ Checked mayFail job x x' outcome := by
  have hspec : wp (choices (perform mayFail)) (checkJobStatus job force) _ (x,[]) :=
    checkJobStatus_spec force
  obtain ⟨used,hused,outcome,hobserved,hchecked⟩ := exec_of_wp hspec h
  rw [List.append_nil] at hused
  exact ⟨outcome,by rw [hused]; simpa [observed] using hobserved,hchecked⟩

theorem mem_observed {statusJson : Json} (h : .json statusJson ∈ log) :
    some statusJson ∈ observed log :=
  List.mem_filterMap.mpr ⟨_,h,rfl⟩

end Decision

end StatusCheck
end JobControllerClient
