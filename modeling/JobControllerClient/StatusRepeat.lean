import JobControllerClient.StatusRows

/-! A second check with the same answer. It is silent as long as every status survives the
way into the table and back; a status above the range of `i32` comes back smaller, so the
next check takes it for a change. -/
namespace JobControllerClient
namespace StatusRepeat

open JobHandlers StatusCheck StatusRows Program
open CancelOnce (noFailure)
open JobTable (Model i32Max)

/-- The table shows the last status of every `what` reported. -/
def Shown (t : StatusTable) (jobId : ℤ) (all : List Report) : Prop :=
  ∀ what status, lastStatus all what = some status → Sole t jobId what (statusToI32 status)

/-- The report does not survive the conversion to `i32`. -/
def capped (report : Report) : Bool := i32Max < report.status

theorem lastStatus_of_mem {all : List Report} (hdistinct : (all.map (·.what)).Nodup)
    {report : Report} (h : report ∈ all) : lastStatus all report.what = some report.status := by
  have hfilter : all.filter (fun r => r.what = report.what) = [report] := by
    have hnodup := (List.Nodup.of_map _ hdistinct).filter fun r => r.what = report.what
    refine List.perm_singleton.mp ((List.perm_ext_iff_of_nodup hnodup
      (List.nodup_singleton report)).mpr fun other => ?_)
    rw [List.mem_filter,List.mem_singleton,decide_eq_true_eq]
    constructor
    · rintro ⟨hother,hwhat⟩
      exact List.inj_on_of_nodup_map hdistinct hother h hwhat
    · rintro rfl
      exact ⟨h,rfl⟩
  rw [lastStatus,hfilter]
  rfl

theorem recorded_ne_iff (status : ℕ) : status ≠ recorded status ↔ i32Max < status := by
  have hbound : ¬ statusToI32 status < 0 := not_lt.mpr (statusToI32_nonneg status)
  rw [recorded,stateToU32,if_neg hbound,statusToI32]
  simp only [i32Max]
  omega

section Second

variable {x y : Shared} {job : Model} {b : Bool} {all reported : List Report} {report : Report}

/-- Where the table shows the report, the report is repeated exactly if it is capped. -/
theorem effect_repeat (hsole : Sole x.statuses job.id report.what (statusToI32 report.status))
    (h : Effect noFailure job false report x y b) : b = capped report := by
  obtain ⟨row,hrow,hstate⟩ := hsole
  have hdue {found vStatus t} (hread : Read noFailure x.statuses job.id report.what found)
      (hcleared : Cleared noFailure x.statuses found vStatus t) :
      due false report vStatus = capped report := by
    obtain rfl : found = [row] := List.perm_singleton.mp (hrow ▸ perm_of_read hread)
    cases hcleared with
    | single _ =>
      simp only [due,Bool.false_or,List.head?_cons,Option.all_some,hstate,capped]
      exact decide_eq_decide.mpr (recorded_ne_iff report.status)
    | deleted hlength => simp at hlength
    | kept hfail => cases hfail
  cases h with
  | saved hread hcleared hd _ => exact hd.symm.trans (hdue hread hcleared)
  | unsaved _ _ hfail => cases hfail
  | same hread hcleared hd => exact hd.symm.trans (hdue hread hcleared)

theorem shown_effect {force : Bool} (hdistinct : (all.map (·.what)).Nodup)
    (hmem : report ∈ all) (hshown : Shown x.statuses job.id all)
    (h : Effect noFailure job force report x y b) : Shown y.statuses job.id all := by
  obtain ⟨hsole,hsame⟩ := effect_rows h
  intro what status hlast
  by_cases hwhat : what = report.what
  · subst hwhat
    rw [lastStatus_of_mem hdistinct hmem] at hlast
    obtain rfl := Option.some.inj hlast
    exact hsole
  · exact SameOutside.sole hsame (by simpa using hwhat) (hshown what status hlast)

theorem effects_repeat (hdistinct : (all.map (·.what)).Nodup)
    (hshown : Shown x.statuses job.id all) (hsub : reported ⊆ all)
    (h : Effects noFailure job false x reported y b) :
    Shown y.statuses job.id all ∧ b = reported.any capped := by
  induction h with
  | nil => exact ⟨hshown,rfl⟩
  | push _ heffect ih =>
    obtain ⟨hbefore,rfl⟩ := ih (List.append_subset.mp hsub).1
    have hmem := (List.append_subset.mp hsub).2 (List.mem_singleton_self _)
    refine ⟨shown_effect hdistinct hmem hbefore heffect,?_⟩
    rw [effect_repeat (hbefore _ _ (lastStatus_of_mem hdistinct hmem)) heffect]
    simp

end Second

/-- A second check with the same answer stores and reports no status exactly if no status
is above the range of `i32`. -/
theorem repeat_quiet_iff (job job' : Model) (hid : job'.id = job.id) (force : Bool)
    (x y z : Shared) (statusJson : Json) (cs cs' : List Choice)
    (hfirst : exec (perform noFailure) (checkJobStatus job force) x cs = some ((),y,[]))
    (hjson : .json statusJson ∈ cs)
    (hsecond : exec (perform noFailure) (checkJobStatus job' false) y cs' = some ((),z,[]))
    (hjson' : .json statusJson ∈ cs')
    (hdistinct : ((reports statusJson).map (·.what)).Nodup) :
    (∀ step ∈ steps (perform noFailure) (checkJobStatus job' false) y cs', noisy step.1 = false) ↔
      ∀ report ∈ reports statusJson, report.status ≤ i32Max := by
  obtain ⟨y₁,heffects,hconcluded⟩ := course_of_exec hfirst hjson
  have hshown : Shown y.statuses job'.id (reports statusJson) := by
    rw [hid,concluded_statuses hconcluded]
    exact (effects_rows heffects).1
  obtain ⟨z₁,heffects',-⟩ := course_of_exec hsecond hjson'
  have hnoise := (effects_repeat hdistinct hshown (List.Subset.refl _) heffects').2
  have hquiet : (∀ step ∈ steps (perform noFailure) (checkJobStatus job' false) y cs',
      noisy step.1 = false) ↔
      noise (steps (perform noFailure) (checkJobStatus job' false) y cs') = false := by
    simp [noise]
  rw [hquiet,hnoise]
  simp [capped]

def checkedTwice (cs cs' : List Choice) : Option (Shared × List (Request × Choice)) :=
  match exec (perform noFailure) (checkJobStatus runningJob false) runningShared cs with
  | some (_,y,[]) => match exec (perform noFailure) (checkJobStatus runningJob false) y cs' with
    | some (_,_,[]) => some (y,steps (perform noFailure) (checkJobStatus runningJob false) y cs')
    | _ => none
  | _ => none

theorem checkedTwice_eq_some {cs cs' : List Choice} {y : Shared} {log : List (Request × Choice)}
    (h : checkedTwice cs cs' = some (y,log)) : ∃ z,
      exec (perform noFailure) (checkJobStatus runningJob false) runningShared cs =
        some ((),y,[]) ∧
      exec (perform noFailure) (checkJobStatus runningJob false) y cs' = some ((),z,[]) ∧
      log = steps (perform noFailure) (checkJobStatus runningJob false) y cs' := by
  simp only [checkedTwice] at h
  split at h
  · rename_i y₁ hfirst
    split at h
    · rename_i z hsecond
      cases h
      exact ⟨z,hfirst,hsecond,rfl⟩
    · cases h
  · cases h

def firstChoices : List Choice :=
  [.ready true,.json FalseSuccess.failedJson,.statuses [],.saved 1,.go,
    .statuses [⟨1,"step",400,1⟩],.saved 1,.archived true,.go]

def secondChoices : List Choice :=
  [.ready true,.json FalseSuccess.failedJson,.statuses [⟨1,"step",400,1⟩],
    .statuses [⟨1,"step",400,1⟩],.saved 1,.archived true,.go]

theorem repeat_quiet_second : ∃ y z log,
    checkedTwice firstChoices secondChoices = some (y,log) ∧
    exec (perform noFailure) (checkJobStatus runningJob false) y secondChoices = some ((),z,[]) ∧
    ∀ step ∈ log, noisy step.1 = false := by
  have hruns : (checkedTwice firstChoices secondChoices).isSome = true := by decide +kernel
  obtain ⟨⟨y,log⟩,htwice⟩ := Option.isSome_iff_exists.mp hruns
  obtain ⟨z,hfirst,hsecond,rfl⟩ := checkedTwice_eq_some htwice
  refine ⟨y,z,_,htwice,hsecond,(repeat_quiet_iff runningJob runningJob rfl false runningShared y z
    FalseSuccess.failedJson firstChoices secondChoices hfirst (by simp [firstChoices]) hsecond
    (by simp [secondChoices]) (by decide +kernel)).mpr (by decide +kernel)⟩

/-- A step with a status above the range of `i32`. -/
def hugeJson : Json := .object
  [("status",.array [.object [("what",.string "step"),("status",.posInt 3000000000)]])]

def hugeFirst : List Choice :=
  [.ready true,.json hugeJson,.statuses [],.saved 1,.go,.statuses [⟨1,"step",2147483647,1⟩],
    .saved 1,.archived true,.go]

def hugeSecond : List Choice :=
  [.ready true,.json hugeJson,.statuses [⟨1,"step",2147483647,1⟩],.saved 1,.go,
    .statuses [⟨1,"step",2147483647,1⟩],.saved 1,.archived true,.go]

/-- The unchanged status is stored and reported again. -/
theorem hugeJson_repeated : ((reports hugeJson).map (·.what)).Nodup ∧
    ∃ y z log, checkedTwice hugeFirst hugeSecond = some (y,log) ∧
      exec (perform noFailure) (checkJobStatus runningJob false) y hugeSecond = some ((),z,[]) ∧
      ∃ step ∈ log, noisy step.1 = true := by
  refine ⟨by decide +kernel,?_⟩
  have hruns : ((checkedTwice hugeFirst hugeSecond).any fun r => noise r.2) = true := by
    decide +kernel
  obtain ⟨⟨y,log⟩,htwice,hnoise⟩ := (Option.any_eq_true _ _).mp hruns
  obtain ⟨z,-,hsecond,-⟩ := checkedTwice_eq_some htwice
  exact ⟨y,z,log,htwice,hsecond,List.any_eq_true.mp hnoise⟩

end StatusRepeat
end JobControllerClient
