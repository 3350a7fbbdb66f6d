import JobControllerClient.StatusCheck

/-! `handle_job_cancel` running alone, all requests succeeding. The handler reports the
end of the job itself unless the second check has found a cancelled status; that check
may have ended the job on its own, or it may not have. -/
namespace JobControllerClient
namespace CancelOnce

open JobHandlers StatusCheck Program
open JobTable (Model hasJobId)
open JobSubmit (jobCompletionSource)
open DbRecords (Status)

def noFailure : DbCall → Bool := fun _ => false

def completions (x : Shared) : ℕ := x.updates.countP fun u => u.source = jobCompletionSource

def boardAfter (b : Finset (String × ℕ)) : Option Json → Finset (String × ℕ)
  | none => b
  | some statusJson => (reports statusJson).foldl record b

/-- Whether a check that leaves the board `b` ends the job. -/
def endsJob (b : Finset (String × ℕ)) : Option Json → Bool
  | none => false
  | some statusJson => (∃ e ∈ b, isError e.2 = true) ∨
    (saysComplete statusJson = true ∧ ∀ e ∈ b, e.2 = statusCompleted)

def showsCancelled (b : Finset (String × ℕ)) : Bool := ∃ e ∈ b, e.2 = statusCancelled

/-- No report of the answer poses as the end of the job. -/
def Plain (outcome : Option Json) : Prop :=
  ∀ statusJson, outcome = some statusJson →
    ∀ report ∈ reports statusJson, report.what ≠ jobCompletionSource

/-- What a check has done, by the board it leaves. -/
structure Summary (job : Model) (x z : Shared) (outcome : Option Json) : Prop where
  shown : board z.statuses job.id = boardAfter (board x.statuses job.id) outcome
  table : z.table = if endsJob (board z.statuses job.id) outcome then
    x.table.insert job.id { job with running := false } else x.table
  completions : Plain outcome → completions z = completions x +
    if endsJob (board z.statuses job.id) outcome then 1 else 0

section Check

variable {x y z : Shared} {job : Model} {statusJson : Json} {outcome : Option Json}
  {t : StatusTable} {jobId : ℤ} {vStatus : List Status}

theorem exists_mem_board {P : ℕ → Prop} :
    (∃ e ∈ board t jobId, P e.2) ↔ ∃ row ∈ t.byJob jobId, P (stateToU32 row.state) := by
  simp [board]

theorem forall_mem_board {P : ℕ → Prop} :
    (∀ e ∈ board t jobId, P e.2) ↔ ∀ row ∈ t.byJob jobId, P (stateToU32 row.state) := by
  simp [board]

theorem finishes_iff (h : vStatus.Perm (t.byJob jobId)) :
    Finishes statusJson vStatus ↔ endsJob (board t jobId) (some statusJson) = true := by
  have hcomplete : jobComplete vStatus = true ↔ ∀ e ∈ board t jobId, e.2 = statusCompleted := by
    rw [forall_mem_board (P := (· = statusCompleted)),jobComplete,List.all_eq_true]
    simp only [h.mem_iff,decide_eq_true_eq]
  have herror : jobError vStatus ≠ 0 ↔ ∃ e ∈ board t jobId, isError e.2 = true := by
    rw [exists_mem_board (P := (isError · = true)),jobError_ne_zero_iff]
    simp only [h.mem_iff]
  rw [Finishes,herror,hcomplete,endsJob,decide_eq_true_eq]

theorem hasCancelled_iff (h : vStatus.Perm (t.byJob jobId)) :
    hasCancelled vStatus = showsCancelled (board t jobId) := by
  rw [Bool.eq_iff_iff,hasCancelled,List.any_eq_true,showsCancelled,decide_eq_true_eq,
    exists_mem_board (P := (· = statusCancelled))]
  simp only [h.mem_iff,decide_eq_true_eq]

theorem completions_of_updates {new : List JobSubmit.JobUpdate}
    (h : z.updates = x.updates ++ new) :
    completions z = completions x + new.countP fun u => u.source = jobCompletionSource := by
  rw [completions,h,List.countP_append]
  rfl

theorem Recorded.completions (h : Recorded noFailure job (reports statusJson) x y)
    (hplain : Plain (some statusJson)) : completions y = completions x := by
  obtain ⟨new,hnew,hsources⟩ := h.updates
  have hnone : new.countP (fun u => u.source = jobCompletionSource) = 0 := by
    rw [List.countP_eq_zero]
    intro u hu hsource
    obtain ⟨report,hreport,hwhat⟩ := hsources u hu
    exact hplain statusJson rfl report hreport (hwhat.symm.trans (of_decide_eq_true hsource))
  rw [completions_of_updates hnew,hnone,Nat.add_zero]

theorem summary_of_checked (hpos : 0 < job.id) (h : Checked noFailure job x z outcome) :
    Summary job x z outcome := by
  cases outcome with
  | none =>
    obtain rfl : z = x := h
    exact ⟨rfl,rfl,fun _ => rfl⟩
  | some statusJson =>
    obtain ⟨y,hrecorded,vStatus,hperm | ⟨hfail,-⟩,hdecision⟩ := h
    · have hboard := hrecorded.shown fun _ => rfl
      have hiff : Finishes statusJson vStatus ↔ _ := finishes_iff hperm
      rcases hdecision with ⟨hfinishes,hdone⟩ | ⟨hfinishes,rfl⟩
      · have hends := hiff.mp hfinishes
        rw [← hdone.statuses] at hboard hends
        refine ⟨hboard,?_,fun hplain => ?_⟩
        · rw [if_pos hends,← hrecorded.table]
          rcases hdone.table with ⟨id,hsave⟩ | ⟨hfail,-⟩
          · rw [JobTable.saveJob_eq_insert hsave,JobTable.saveJob_savedId hsave hpos]
          · cases hfail
        · rw [if_pos hends,← Recorded.completions hrecorded hplain,
            completions_of_updates hdone.updates]
          rfl
      · have hends : endsJob (board z.statuses job.id) (some statusJson) = false := by
          rw [← Bool.not_eq_true]
          exact fun h => hfinishes (hiff.mpr h)
        refine ⟨hboard,?_,fun hplain => ?_⟩
        · rw [hends]
          exact hrecorded.table
        · rw [hends]
          exact Recorded.completions hrecorded hplain
    · cases hfail

end Check

/-- A running job under one primary key, without a cancelled status. -/
structure Cancellable (x : Shared) (jobId : ℤ) (row : Model) : Prop where
  positive : 0 < row.id
  stored : x.table.row? row.id = some row
  named : hasJobId jobId row = true
  sole : ∀ k r, x.table.row? k = some r → hasJobId jobId r = true → k = row.id
  running : row.running = true
  submitting : row.submitting = false
  uncancelled : ∀ status ∈ x.statuses.byJob row.id, stateToU32 status.state ≠ statusCancelled

/-- The stored row is not running, and its end has been told once more than before. -/
def FinishedOnce (id : ℤ) (x x' : Shared) : Prop :=
  (∃ row, x'.table.row? id = some row ∧ row.running = false) ∧
    completions x' = completions x + 1

/-- The handler's second check finishes the job once exactly if it ends the job where it
leaves a cancelled status, and does not where it leaves none. -/
def SecondCheck (row : Model) (x : Shared) (log : List Choice) (s : Shared × List Choice) :
    Prop :=
  ∃ outcome, observed s.2 = observed log ++ [outcome] ∧ (Plain outcome →
    (FinishedOnce row.id x s.1 ↔
      endsJob (boardAfter (board x.statuses row.id) outcome) outcome =
        showsCancelled (boardAfter (board x.statuses row.id) outcome)))

/-- The bundle refuses to cancel, the first check ends the job, or the second one decides. -/
def Ended (row : Model) (x : Shared) (log : List Choice) (s : Shared × List Choice) : Prop :=
  .answered false ∈ s.2 ∨ ∃ first,
    (observed s.2 = observed log ++ [first] ∧
      endsJob (boardAfter (board x.statuses row.id) first) first = true ∧
      (Plain first → FinishedOnce row.id x s.1)) ∨
    ∃ second, observed s.2 = observed log ++ [first,second] ∧
      endsJob (boardAfter (board x.statuses row.id) first) first = false ∧
      (Plain first → Plain second → (FinishedOnce row.id x s.1 ↔
        endsJob (boardAfter (boardAfter (board x.statuses row.id) first) second) second =
          showsCancelled (boardAfter (boardAfter (board x.statuses row.id) first) second)))

section Handler

variable {x y : Shared} {log : List Choice} {jobId : ℤ} {row : Model}

theorem check_spec (hpos : 0 < row.id) :
    wp (choices (perform noFailure)) (checkJobStatus row false) (fun _ s =>
      ∃ outcome, observed s.2 = observed log ++ [outcome] ∧ Summary row x s.1 outcome)
      (x,log) := by
  refine wp_mono (checkJobStatus_spec false) ?_
  rintro - s ⟨outcome,hobserved,hchecked⟩
  exact ⟨outcome,hobserved,summary_of_checked hpos hchecked⟩

theorem reload_spec (hpos : 0 < row.id) :
    wp (choices (perform noFailure)) (reloadJobOrAbort row) (fun found s =>
      s.1 = x ∧ found = x.table.row? row.id ∧ observed s.2 = observed log) (x,log) := by
  refine wp_perform fun c z a hget => ?_
  obtain ⟨rfl,⟨rfl,rfl⟩ | ⟨-,hfail,-⟩⟩ := perform_getJobById hget
  · have hwire : JobTable.wireUlong row.id = row.id := by
      rw [JobTable.wireUlong,if_neg (by omega)]
    exact ⟨rfl,by rw [hwire]; rfl,observed_push rfl⟩
  · cases hfail

theorem readAll_spec {β : Type} {k : Option (List Status) → Async β} {id : ℤ}
    {Q : β → Shared × List Choice → Prop}
    (h : ∀ found c, found.Perm (x.statuses.byJob id) → seen c = none →
      wp (choices (perform noFailure)) (k (some found)) Q (x,log ++ [c])) :
    wp (choices (perform noFailure)) ((getJobStatusByJobId id).bind k) Q (x,log) := by
  refine wp_perform fun c z a hget => ?_
  obtain ⟨rfl,⟨found,rfl,hperm,rfl⟩ | ⟨-,hfail,-⟩⟩ := perform_byJob hget
  · exact h found _ hperm rfl
  · cases hfail

theorem reportEnd_spec (hpos : 0 < row.id) :
    wp (choices (perform noFailure)) (do
      let _ ← saveJob { row with running := false }
      let _ ← archiveJob { row with running := false }
      reportCancelled jobId) (fun _ s => observed s.2 = observed log ∧
        s.1.table = x.table.insert row.id { row with running := false } ∧
        completions s.1 = completions x + 1) (x,log) := by
  refine wp_perform fun c y saved hsave => wp_perform fun d z archived harchive =>
    wp_perform_last fun e w _ hqueue => ?_
  obtain ⟨rfl,rfl⟩ := perform_queueUpdate hqueue
  obtain ⟨⟨b,rfl⟩,rfl⟩ := perform_archive harchive
  obtain ⟨id,table,rfl,htable,rfl,-⟩ | ⟨-,hfail,-⟩ := perform_saveJob hsave
  · refine ⟨by rw [observed_push rfl,observed_push rfl,observed_push rfl],?_,?_⟩
    · show table = _
      rw [JobTable.saveJob_eq_insert htable,JobTable.saveJob_savedId htable hpos]
    · exact List.countP_append
  · cases hfail

theorem stopped_of_insert {table : JobTable}
    (h : y.table = table.insert row.id { row with running := false }) :
    ∃ r, y.table.row? row.id = some r ∧ r.running = false :=
  ⟨_,by rw [h]; exact JobTable.row?_insert_self _ _ _,rfl⟩

theorem Summary.finishedOnce_iff {outcome : Option Json} (h : Summary row x y outcome)
    (hplain : Plain outcome) :
    FinishedOnce row.id x y ↔ endsJob (board y.statuses row.id) outcome = true := by
  have hcompletions := h.completions hplain
  have htable := h.table
  constructor
  · rintro ⟨-,honce⟩
    by_contra hends
    rw [if_neg hends] at hcompletions
    omega
  · intro hends
    rw [if_pos hends] at hcompletions htable
    exact ⟨stopped_of_insert htable,hcompletions⟩

theorem finishCancel_spec (hpos : 0 < row.id) :
    wp (choices (perform noFailure)) (finishCancel jobId row)
      (fun _ s => SecondCheck row x log s) (x,log) := by
  refine wp_then (check_spec hpos) ?_
  rintro - ⟨y,l⟩ ⟨outcome,hl,hsummary⟩
  refine readAll_spec fun found c hperm hc => ?_
  rw [Option.getD_some,hasCancelled_iff hperm,hsummary.shown]
  split
  · rename_i hcancelled
    refine ⟨outcome,(observed_push hc).trans hl,fun hplain => ?_⟩
    rw [hsummary.finishedOnce_iff hplain,hsummary.shown,hcancelled]
  · rename_i hcancelled
    refine wp_mono (reportEnd_spec hpos) ?_
    rintro - ⟨z,l'⟩ ⟨hl',htable,hcompletions⟩
    refine ⟨outcome,hl'.trans ((observed_push hc).trans hl),fun hplain => ?_⟩
    have hbefore := hsummary.completions hplain
    rw [hsummary.shown] at hbefore
    rw [Bool.not_eq_true] at hcancelled
    rw [hcancelled]
    constructor
    · rintro ⟨-,honce⟩
      by_contra hends
      rw [Bool.not_eq_false] at hends
      rw [hends,if_pos rfl] at hbefore
      simp only [hcompletions,hbefore] at honce
      omega
    · intro hends
      rw [hends] at hbefore
      refine ⟨stopped_of_insert htable,?_⟩
      simpa [hbefore] using hcompletions

theorem cancelRunning_spec (hpos : 0 < row.id) (hrow : x.table.row? row.id = some row)
    (hrunning : row.running = true) :
    wp (choices (perform noFailure)) (cancelRunning jobId row)
      (fun _ s => .answered false ∈ s.2 ∨ SecondCheck row x log s) (x,log) := by
  rw [cancelRunning,if_pos hrunning]
  refine wp_perform fun c y cancelled hcancel => ?_
  obtain ⟨rfl,rfl⟩ := perform_bundleBool hcancel
  cases cancelled with
  | false => exact .inl (by simp)
  | true =>
    refine wp_then (reload_spec hpos) ?_
    rintro found ⟨_,l⟩ ⟨rfl,rfl,hl⟩
    rw [hrow]
    refine wp_mono (finishCancel_spec hpos) ?_
    rintro - s ⟨outcome,hobserved,hiff⟩
    rw [hl,observed_push rfl] at hobserved
    exact .inr ⟨outcome,hobserved,hiff⟩

theorem cancelRead_spec (h : Cancellable x jobId row) :
    wp (choices (perform noFailure)) (cancelRead jobId row) (fun _ s => Ended row x log s)
      (x,log) := by
  have hstart : ¬ (row.id = 0 ∨ row.running = false ∨ row.submitting = true) := by
    simp [h.running,h.submitting,h.positive.ne']
  rw [cancelRead,if_neg hstart]
  refine readAll_spec fun found c hperm hc => ?_
  have huncancelled : hasCancelled found = false := by
    rw [← Bool.not_eq_true,hasCancelled,List.any_eq_true]
    rintro ⟨status,hstatus,hcancelled⟩
    exact h.uncancelled status (hperm.mem_iff.mp hstatus) (of_decide_eq_true hcancelled)
  rw [Option.getD_some,huncancelled,if_neg Bool.false_ne_true]
  refine wp_then (check_spec h.positive) ?_
  rintro - ⟨y,l⟩ ⟨first,hl,hsummary⟩
  rw [observed_push hc] at hl
  refine wp_then (reload_spec h.positive) ?_
  rintro found ⟨z,l'⟩ ⟨hz,rfl,hl'⟩
  obtain rfl : y = z := hz.symm
  rw [hl] at hl'
  cases hends : endsJob (boardAfter (board x.statuses row.id) first) first with
  | true =>
    have hshown := hsummary.shown ▸ hends
    have htable := hsummary.table
    rw [if_pos hshown] at htable
    have hrow : y.table.row? row.id = some (Model.stored { row with running := false } row.id) := by
      rw [htable]
      exact JobTable.row?_insert_self _ _ _
    rw [hrow]
    exact .inr ⟨first,.inl ⟨hl',hends,fun hplain => (hsummary.finishedOnce_iff hplain).mpr hshown⟩⟩
  | false =>
    have hshown := hsummary.shown ▸ hends
    have htable := hsummary.table
    rw [hshown] at htable
    have hrow : y.table.row? row.id = some row := by
      rw [htable]
      exact h.stored
    rw [hrow]
    refine wp_mono (cancelRunning_spec h.positive hrow h.running) ?_
    rintro - s (hfalse | ⟨second,hobserved,hiff⟩)
    · exact .inl hfalse
    · refine .inr ⟨first,.inr ⟨second,by simp [hobserved,hl'],hends,fun hplain hplain' => ?_⟩⟩
      have hcompletions := hsummary.completions hplain
      rw [hshown] at hcompletions
      have hsame : FinishedOnce row.id x s.1 ↔ FinishedOnce row.id y s.1 := by
        rw [FinishedOnce,FinishedOnce,hcompletions]
        rfl
      rw [hsame,hiff hplain',hsummary.shown]

theorem handleJobCancel_spec (h : Cancellable x jobId row) :
    wp (choices (perform noFailure)) (handleJobCancel jobId) (fun _ s => Ended row x log s)
      (x,log) := by
  refine wp_perform fun c y a hget => ?_
  obtain ⟨rfl,⟨id,job,rfl,hjob,rfl⟩ | ⟨-,hfail,-⟩⟩ := perform_getOrCreate hget
  · obtain rfl := JobTable.getOrCreate_sole h.stored h.named h.sole hjob
    refine wp_mono (cancelRead_spec h) fun _ s hs => ?_
    rwa [Ended,observed_push rfl] at hs
  · cases hfail

end Handler

/-- The first check ends the job, or the second one ends it exactly if it leaves a
cancelled status. -/
def EndsOnce (b : Finset (String × ℕ)) (first second : Option Json) : Prop :=
  endsJob (boardAfter b first) first = true ∨
    endsJob (boardAfter (boardAfter b first) second) second =
      showsCancelled (boardAfter (boardAfter b first) second)

/-- A successful cancel finishes the job exactly once if and only if the answers to the
two checks are such that it does. -/
theorem cancel_finishes_once_iff {x x' : Shared} {jobId : ℤ} {row : Model}
    (h : Cancellable x jobId row) {cs : List Choice}
    (hexec : exec (perform noFailure) (handleJobCancel jobId) x cs = some ((),x',[]))
    (hcancel : .answered false ∉ cs) {first second : Option Json}
    (hobserved : observed cs <+: [first,second]) (hfirst : Plain first) (hsecond : Plain second) :
    FinishedOnce row.id x x' ↔ EndsOnce (board x.statuses row.id) first second := by
  have hspec : wp (choices (perform noFailure)) (handleJobCancel jobId) _ (x,[]) :=
    handleJobCancel_spec h
  obtain ⟨used,hused,hpost⟩ := exec_of_wp hspec hexec
  obtain rfl : cs = used := by simpa using hused
  obtain hfalse | ⟨o,⟨ho,hends,honce⟩ | ⟨o',ho,hends,hiff⟩⟩ := hpost
  · exact (hcancel hfalse).elim
  · have ho : observed cs = [o] := ho
    rw [ho] at hobserved
    obtain ⟨rfl,-⟩ := List.cons_prefix_cons.mp hobserved
    exact iff_of_true (honce hfirst) (.inl hends)
  · have ho : observed cs = [o,o'] := ho
    rw [ho] at hobserved
    obtain ⟨rfl,hrest⟩ := List.cons_prefix_cons.mp hobserved
    obtain ⟨rfl,-⟩ := List.cons_prefix_cons.mp hrest
    rw [hiff hfirst hsecond,EndsOnce,hends]
    simp

theorem cancellable_running {statuses : StatusTable}
    (h : ∀ status ∈ statuses.byJob 1, stateToU32 status.state ≠ statusCancelled) :
    Cancellable { runningShared with statuses } 7 (runningJob.stored 1) where
  positive := by decide
  stored := JobTable.row?_insert_self _ _ _
  named := by decide
  sole k r hr _ := by
    by_contra hk
    have hother : runningShared.table.row? k = none := JobTable.row?_insert_other hk
    rw [hother] at hr
    cases hr
  running := rfl
  submitting := rfl
  uncancelled := h

def begunShared : Shared :=
  { runningShared with statuses := StatusTable.empty.insert 1 (by decide) ⟨1,"step",50,1⟩ }

/-- The first check finds a second step, the check after the cancel the end of the first one; the
job is still in progress, so the handler reports its end. -/
def quietCancel : List Choice :=
  [.row (some 1),.statuses [⟨1,"step",50,1⟩],.ready true,
    .json (.object [("status",.array [.object [("what",.string "step"),("status",.posInt 50)],
      .object [("what",.string "copy"),("status",.posInt 50)]])]),
    .statuses [⟨1,"step",50,1⟩],.statuses [],.saved 2,.go,
    .statuses [⟨2,"copy",50,1⟩,⟨1,"step",50,1⟩],.go,.answered true,.go,.ready true,
    .json (.object [("status",.array [.object [("what",.string "step"),("status",.posInt 500)]])]),
    .statuses [⟨1,"step",50,1⟩],.saved 1,.go,.statuses [⟨1,"step",500,1⟩,⟨2,"copy",50,1⟩],
    .statuses [⟨1,"step",500,1⟩,⟨2,"copy",50,1⟩],.saved 1,.archived true,.go]

theorem cancel_finishes_once_quiet : ∃ x',
    exec (perform noFailure) (handleJobCancel 7) begunShared quietCancel = some ((),x',[]) ∧
      FinishedOnce 1 begunShared x' := by
  have hsome : (exec (perform noFailure) (handleJobCancel 7) begunShared quietCancel).any
      (fun result => result.2.2.isEmpty) = true := by decide +kernel
  obtain ⟨⟨⟨⟩,x',rest⟩,hexec,hrest⟩ := (Option.any_eq_true _ _).mp hsome
  obtain rfl : rest = [] := List.isEmpty_iff.mp hrest
  have hplain : ∀ outcome ∈ observed quietCancel, Plain outcome := by
    have hall : ∀ outcome ∈ observed quietCancel, ∀ statusJson ∈ outcome,
        ∀ report ∈ reports statusJson, report.what ≠ jobCompletionSource := by decide +kernel
    exact fun outcome houtcome statusJson h => hall outcome houtcome statusJson h
  refine ⟨x',hexec,(cancel_finishes_once_iff (cancellable_running (by decide +kernel)) hexec ?_
    List.prefix_rfl (hplain _ (.head _)) (hplain _ (.tail _ (.head _)))).mpr ?_⟩
  · simp [quietCancel]
  · exact .inr (by decide +kernel)
/-- Up to the bundle's `cancel`; the first check finds the job in progress. -/
def cancelPrefix : List Choice :=
  [.row (some 1),.statuses [],.ready true,.json (.object []),.statuses [],.go,.answered true,.go]

/-- The second check stores the status CANCELLED; nobody reports the end of the job. -/
def reportedCancel : List Choice := cancelPrefix ++
  [.ready true,.json (.object [("status",.array [.object [("what",.string "step"),
      ("status",.posInt 70)]])]),.statuses [],.saved 1,.go,.statuses [⟨1,"step",70,1⟩],
    .statuses [⟨1,"step",70,1⟩]]

/-- The second check finds the job complete; both it and the handler report the end. -/
def completedCancel : List Choice := cancelPrefix ++
  [.ready true,.json (.object [("complete",.bool true)]),.statuses [],.saved 1,.archived true,.go,
    .statuses [],.saved 1,.archived true,.go]

/-- The handler comes to its end, but the end of the job is told `n` times. -/
def tells (cs : List Choice) (n : ℕ) : Bool :=
  (exec (perform noFailure) (handleJobCancel 7) runningShared cs).any fun result =>
    result.2.2.isEmpty && completions result.2.1 == n

theorem not_finishedOnce_of_tells {cs : List Choice} {n : ℕ} (h : tells cs n = true)
    (hn : n ≠ 1) : ∃ x',
      exec (perform noFailure) (handleJobCancel 7) runningShared cs = some ((),x',[]) ∧
        ¬ FinishedOnce 1 runningShared x' := by
  obtain ⟨⟨⟨⟩,x',rest⟩,hexec,hboth⟩ := (Option.any_eq_true _ _).mp h
  obtain ⟨hrest,htold⟩ := Bool.and_eq_true_iff.mp hboth
  obtain rfl : rest = [] := List.isEmpty_iff.mp hrest
  refine ⟨x',hexec,fun hfinished => hn ?_⟩
  have htold : completions x' = n := by simpa using htold
  rw [← htold,hfinished.2]
  rfl

/-- The end of the job is told by nobody in one run and twice in the other. -/
theorem cancel_not_once : Cancellable runningShared 7 (runningJob.stored 1) ∧
    ∀ cs ∈ [reportedCancel,completedCancel], .answered true ∈ cs ∧ .answered false ∉ cs ∧
      (∀ outcome ∈ observed cs, Plain outcome) ∧ ∃ x',
        exec (perform noFailure) (handleJobCancel 7) runningShared cs = some ((),x',[]) ∧
          ¬ FinishedOnce 1 runningShared x' := by
  have huncancelled : ∀ status ∈ StatusTable.empty.byJob 1,
      stateToU32 status.state ≠ statusCancelled := by
    decide +kernel
  refine ⟨cancellable_running huncancelled,fun cs hcs => ?_⟩
  have hplain (outcome : Option Json) (hall : ∀ statusJson ∈ outcome,
      ∀ report ∈ reports statusJson, report.what ≠ jobCompletionSource) : Plain outcome :=
    fun statusJson h => hall statusJson h
  rcases List.mem_pair.mp hcs with rfl | rfl
  · refine ⟨by simp [reportedCancel,cancelPrefix],by simp [reportedCancel,cancelPrefix],
      fun outcome houtcome => hplain outcome ?_,not_finishedOnce_of_tells (n := 0) ?_ ?_⟩
    · revert outcome
      decide +kernel
    · decide +kernel
    · decide
  · refine ⟨by simp [completedCancel,cancelPrefix],by simp [completedCancel,cancelPrefix],
      fun outcome houtcome => hplain outcome ?_,not_finishedOnce_of_tells (n := 2) ?_ ?_⟩
    · revert outcome
      decide +kernel
    · decide +kernel
    · decide

end CancelOnce
end JobControllerClient
