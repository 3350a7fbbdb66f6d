import JobControllerClient.CancelOnce
import JobControllerClient.FalseSuccess

/-! The status table after a check whose requests all succeed: one row for every `what`
that was reported, with the last status reported, and every other row as it was. -/
namespace JobControllerClient
namespace StatusRows

open JobHandlers StatusCheck Program
open CancelOnce (noFailure)
open JobTable (Model wireUlong)
open DbRecords (Status)

/-- The job has exactly one row under this `what`. -/
def Sole (t : StatusTable) (jobId : ℤ) (what : String) (state : ℤ) : Prop :=
  ∃ row, t.byWhat jobId what = [row] ∧ row.state = state

theorem nodup_byWhat (t : StatusTable) (jobId : ℤ) (what : String) :
    (t.byWhat jobId what).Nodup := by
  have hkeys : (t.rows.entries.map Sigma.fst).Nodup := t.rows.nodupKeys
  have hids : (t.rows.entries.map Sigma.snd).map (·.id) = t.rows.entries.map Sigma.fst := by
    rw [List.map_map]
    refine List.map_congr_left fun entry hentry => ?_
    exact (t.stored entry.1 entry.2 (AList.mem_lookup_iff.mpr hentry)).keyed
  exact ((hids ▸ hkeys).of_map _).filter _ |>.filter _

theorem byWhat_eq_singleton {t : StatusTable} {jobId : ℤ} {what : String} {row : Status}
    (h : ∀ other, other ∈ t.byWhat jobId what ↔ other = row) : t.byWhat jobId what = [row] := by
  refine List.perm_singleton.mp ?_
  refine (List.perm_ext_iff_of_nodup (nodup_byWhat t jobId what) (List.nodup_singleton row)).mpr ?_
  simpa using h

section Frame

variable {jobId : ℤ} {whats whats' : List String} {t t' t'' : StatusTable}

theorem SameOutside.trans (h : SameOutside jobId whats t t') (h' : SameOutside jobId whats' t' t'') :
    SameOutside jobId (whats ++ whats') t t'' := by
  intro row houtside
  rw [h' row fun hin => houtside ⟨hin.1,List.mem_append_right _ hin.2⟩,
    h row fun hin => houtside ⟨hin.1,List.mem_append_left _ hin.2⟩]

theorem SameOutside.sole {what : String} {state : ℤ} (h : SameOutside jobId whats t t')
    (hwhat : what ∉ whats) (hsole : Sole t jobId what state) : Sole t' jobId what state := by
  obtain ⟨row,hrow,hstate⟩ := hsole
  refine ⟨row,byWhat_eq_singleton fun other => ?_,hstate⟩
  have hother : other ∈ t.byWhat jobId what ↔ other = row := by rw [hrow,List.mem_singleton]
  rw [← hother,StatusTable.mem_byWhat,StatusTable.mem_byWhat,StatusTable.mem_byJob,
    StatusTable.mem_byJob]
  refine and_congr_left fun hw => and_congr_left fun _ => h other fun hin => hwhat ?_
  rw [← hw]
  exact hin.2

end Frame

section Effect

variable {x y : Shared} {job : Model} {force b : Bool} {report : Report}

theorem perm_of_read {t : StatusTable} {what : String} {found : List Status}
    (h : Read noFailure t job.id what found) : found.Perm (t.byWhat job.id what) := by
  rcases h with hperm | ⟨hfail,-⟩
  · exact hperm
  · cases hfail

theorem sameOutside_cleared {found vStatus : List Status} {t t' : StatusTable} {what : String}
    (hread : Read noFailure t job.id what found) (h : Cleared noFailure t found vStatus t') :
    SameOutside job.id [what] t t' := by
  cases h with
  | single _ => exact fun _ _ => Iff.rfl
  | deleted _ => exact sameOutside_deleted hread
  | kept hfail => cases hfail

theorem sole_saved {vStatus : List Status} {t t' : StatusTable} {savedId : ℤ}
    (h : Prepared noFailure job.id report.what x.statuses t vStatus)
    (hsave : t.save (stateItem job report vStatus) savedId = some t') :
    Sole t' job.id report.what (statusToI32 report.status) := by
  refine ⟨StatusTable.asRead (stateItem job report vStatus) savedId,
    byWhat_eq_singleton fun other => ?_,asRead_stateItem_state savedId⟩
  rw [StatusTable.mem_byWhat]
  constructor
  · rintro ⟨hjob,hwhat⟩
    exact eq_of_saved h.found hsave (h.complete fun _ => rfl) hjob hwhat
  · rintro rfl
    exact ⟨mem_of_saved h.found hsave,rfl⟩

theorem sole_same {found vStatus : List Status} {t : StatusTable}
    (hread : Read noFailure x.statuses job.id report.what found)
    (hcleared : Cleared noFailure x.statuses found vStatus t)
    (hdue : due force report vStatus = false) :
    Sole t job.id report.what (statusToI32 report.status) := by
  have hhead := (Bool.or_eq_false_iff.mp hdue).2
  rcases (hcleared.prepared hread).found with rfl | ⟨row,hrow,rfl⟩
  · cases hhead
  · have hstate : report.status = stateToU32 row.state := by simpa using hhead
    have hjob := (StatusTable.mem_byWhat.mp hrow).1
    refine ⟨row,byWhat_eq_singleton fun other => ?_,(statusToI32_of_eq hjob hstate).symm⟩
    constructor
    · intro hother
      exact List.mem_singleton.mp ((hcleared.prepared hread).complete (fun _ => rfl) other hother)
    · rintro rfl
      exact hrow

theorem effect_rows (h : Effect noFailure job force report x y b) :
    Sole y.statuses job.id report.what (statusToI32 report.status) ∧
      SameOutside job.id [report.what] x.statuses y.statuses := by
  cases h with
  | saved hread hcleared _ hsave =>
    have hprepared := hcleared.prepared hread
    refine ⟨sole_saved hprepared hsave,fun row houtside => ?_⟩
    rw [sameOutside_saved hprepared.found hsave row houtside,
      sameOutside_cleared hread hcleared row houtside]
  | unsaved _ _ hfail => cases hfail
  | same hread hcleared hdue =>
    exact ⟨sole_same hread hcleared hdue,sameOutside_cleared hread hcleared⟩

end Effect

theorem effects_rows {x y : Shared} {job : Model} {force b : Bool} {all : List Report}
    (h : Effects noFailure job force x all y b) :
    (∀ what status, lastStatus all what = some status →
      Sole y.statuses job.id what (statusToI32 status)) ∧
    SameOutside job.id (all.map (·.what)) x.statuses y.statuses := by
  induction h with
  | nil =>
    refine ⟨fun what status hlast => ?_,fun _ _ => Iff.rfl⟩
    cases hlast
  | push _ heffect ih =>
    obtain ⟨hsole,hsame⟩ := effect_rows heffect
    refine ⟨fun what status hlast => ?_,by simpa using SameOutside.trans ih.2 hsame⟩
    rw [lastStatus_push] at hlast
    split at hlast
    · rename_i hwhat
      obtain rfl := Option.some.inj hlast
      rw [← hwhat]
      exact hsole
    · rename_i hwhat
      exact SameOutside.sole hsame (by simpa [eq_comm] using hwhat) (ih.1 what status hlast)

theorem concluded_statuses {y z : Shared} {job : Model} {statusJson : Json}
    (h : Concluded noFailure job statusJson y z) : z.statuses = y.statuses := by
  obtain ⟨vStatus,-,⟨-,hdone⟩ | ⟨-,rfl⟩⟩ := h
  · exact hdone.statuses
  · rfl

theorem course_of_exec {mayFail : DbCall → Bool} {job : Model} {force : Bool} {x x' : Shared}
    {cs : List Choice} {statusJson : Json}
    (h : exec (perform mayFail) (checkJobStatus job force) x cs = some ((),x',[]))
    (hjson : .json statusJson ∈ cs) :
    Course mayFail job force x x' (noise (steps (perform mayFail) (checkJobStatus job force) x cs))
      (some statusJson) := by
  have hspec : wp (transcript (perform mayFail)) (checkJobStatus job force) _ (x,[]) :=
    checkJobStatus_course force
  obtain ⟨outcome,b,hobserved,hnoise,hcourse⟩ := exec_of_transcript hspec h
  rw [List.nil_append] at hobserved hnoise
  rw [steps_choices h] at hobserved
  have hmem := mem_observed hjson
  rw [hobserved] at hmem
  obtain rfl : some statusJson = outcome := by simpa [observed] using hmem
  rw [hnoise]
  exact hcourse

theorem exists_lastStatus {all : List Report} {what : String} (h : what ∈ all.map (·.what)) :
    ∃ status, lastStatus all what = some status := by
  obtain ⟨report,hreport,rfl⟩ := List.mem_map.mp h
  have hne : all.filter (fun r => r.what = report.what) ≠ [] :=
    List.ne_nil_of_mem (List.mem_filter.mpr ⟨hreport,by simp⟩)
  exact ⟨_,by rw [lastStatus,List.getLast?_eq_some_getLast hne,Option.map_some]⟩

/-- After a check without failures each reported `what` has exactly one row, with the last
status reported for it, and all rows of other `what`s and of other jobs are as before. -/
theorem status_rows_normalised (job : Model) (force : Bool) (x x' : Shared) (statusJson : Json)
    (cs : List Choice)
    (hexec : exec (perform noFailure) (checkJobStatus job force) x cs = some ((),x',[]))
    (hjson : .json statusJson ∈ cs) :
    (∀ what ∈ (reports statusJson).map (·.what), ∃ status,
      lastStatus (reports statusJson) what = some status ∧
        Sole x'.statuses job.id what (statusToI32 status)) ∧
    SameOutside job.id ((reports statusJson).map (·.what)) x.statuses x'.statuses := by
  obtain ⟨y,heffects,hconcluded⟩ := course_of_exec hexec hjson
  obtain ⟨hsole,hsame⟩ := effects_rows heffects
  rw [concluded_statuses hconcluded]
  refine ⟨fun what hwhat => ?_,hsame⟩
  obtain ⟨status,hlast⟩ := exists_lastStatus hwhat
  exact ⟨status,hlast,hsole what status hlast⟩

/-- Whatever the bundle reports, the check can see it and come to its end. -/
theorem check_completes (job : Model) (force : Bool) (x : Shared) (statusJson : Json) :
    ∃ cs x', exec (perform noFailure) (checkJobStatus job force) x cs = some ((),x',[]) ∧
      .json statusJson ∈ cs := by
  obtain ⟨cs,⟨⟩,x',hrest⟩ := handler_ends noFailure (do
    Program.each (checkStatus job force) (statusList statusJson)
    concludeCheck job statusJson) x
  exact ⟨.ready true :: .json statusJson :: cs,x',hrest,by simp⟩

/-- Two rows for one step, a row of another step and one of another job. -/
def duplicateRows : StatusTable :=
  (((StatusTable.empty.insert 1 one_pos ⟨1,"step",50,1⟩).insert 2 two_pos ⟨2,"step",60,1⟩).insert 3
    three_pos ⟨3,"other",500,1⟩).insert 4 four_pos ⟨4,"step",10,2⟩

def duplicateShared : Shared := { runningShared with statuses := duplicateRows }

/-- The step is reported twice, with a null report between. -/
def repeatedJson : Json := .object
  [("status",.array [.object [("what",.string "step"),("status",.posInt 400)],
      .object [("what",.string "queue"),("status",.null)],
      .object [("what",.string "step"),("status",.posInt 500)]]),
    ("complete",.bool true)]

def repeatedChoices : List Choice :=
  [.ready true,.json repeatedJson,.statuses [⟨2,"step",60,1⟩,⟨1,"step",50,1⟩],.go,.saved 5,.go,
    .statuses [⟨5,"step",400,1⟩],.saved 5,.go,.statuses [⟨3,"other",500,1⟩,⟨5,"step",500,1⟩],
    .saved 1,.archived true,.go]

theorem repeatedChoices_ends :
    ((exec (perform noFailure) (checkJobStatus runningJob false) duplicateShared repeatedChoices).any
      fun result => result.2.2.isEmpty) = true := by
  decide +kernel

theorem status_rows_normalised_repeated :
    ∃ x', exec (perform noFailure) (checkJobStatus runningJob false) duplicateShared repeatedChoices =
      some ((),x',[]) ∧ Sole x'.statuses 1 "step" 500 ∧
      SameOutside 1 ["step","step"] duplicateRows x'.statuses := by
  obtain ⟨⟨⟨⟩,x',rest⟩,hexec,hrest⟩ := (Option.any_eq_true _ _).mp repeatedChoices_ends
  obtain rfl : rest = [] := List.isEmpty_iff.mp hrest
  have hwhats : (reports repeatedJson).map (·.what) = ["step","step"] := by decide +kernel
  have hstatus : lastStatus (reports repeatedJson) "step" = some 500 := by decide +kernel
  obtain ⟨hrows,hsame⟩ := status_rows_normalised runningJob false duplicateShared x' repeatedJson
    repeatedChoices hexec (by simp [repeatedChoices])
  rw [hwhats] at hrows hsame
  obtain ⟨status,hlast,hsole⟩ := hrows "step" (by simp)
  obtain rfl : 500 = status := Option.some.inj (hstatus.symm.trans hlast)
  exact ⟨x',hexec,hsole,hsame⟩

end StatusRows
end JobControllerClient
