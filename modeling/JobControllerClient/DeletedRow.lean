import JobControllerClient.JobSystem

/-! Every handler writes back the whole row it has read. A copy from before the deletion
takes `deleted` back; if none is around when the row is marked deleted, it stays deleted. -/
namespace JobControllerClient
namespace DeletedRow

open Interleaving hiding exec
open JobHandlers Program
open JobTable (Model)

/-- A save of `job` over an existing row keeps the `deleted` of the copy. -/
def Covers (copy : Option Model) (job : Model) : Prop :=
  0 < job.id → ∃ held, copy = some held ∧ held.id = job.id ∧
    (held.deleted = true → job.deleted = true)

/-- What a handler may assume of an answer: a saved row comes back with its id. -/
def Answers : (r : Request) → Answer r → Prop
  | .saveJob job, a => ∀ saved, a = some saved →
    saved.deleted = job.deleted ∧ (0 < job.id → saved.id = job.id)
  | _, _ => True

/-- The observer that follows the copy of the row through a handler. -/
def copies : Observer (Option Model) Answer where
  allows
    | copy, .saveJob job => Covers copy job
    | _, _ => True
  moves copy r a copy' := Answers r a ∧ copy' = r.copied a copy

variable {copy : Option Model} {job : Model}

theorem covers_self (job : Model) : Covers (some job) job := fun _ => ⟨job,rfl,rfl,id⟩

theorem covers_saved {row : Model} {a : Option Model} (h : Covers copy job)
    (ha : Answers (.saveJob row) a) (hid : row.id = job.id) (hdeleted : row.deleted = job.deleted) :
    Covers ((Request.saveJob row).copied a copy) job := by
  cases a with
  | none => exact h
  | some saved =>
    intro hpos
    obtain ⟨hsaved,hsavedId⟩ := ha saved rfl
    refine ⟨saved,rfl,(hsavedId (hid ▸ hpos)).trans hid,fun hd => ?_⟩
    rw [← hdeleted,← hsaved]
    exact hd

theorem wp_dropDuplicates (vStatus : List DbRecords.Status) :
    wp copies (dropDuplicates vStatus) (fun _ t => t = copy) copy := by
  rw [dropDuplicates]
  split
  · exact ⟨trivial,fun _ _ ht => ht.2⟩
  · rfl

theorem wp_updateStatus (force : Bool) (report : Report) :
    wp copies (updateStatus job force report) (fun _ t => t = copy) copy := by
  refine wp_ask trivial fun found t ht => ?_
  obtain ⟨-,rfl⟩ := ht
  refine wp_then (wp_dropDuplicates _) fun vStatus t ht => ?_
  obtain rfl := ht
  split
  · refine wp_ask trivial fun _ t ht => ?_
    obtain ⟨-,rfl⟩ := ht
    exact ⟨trivial,fun _ _ ht => ht.2⟩
  · rfl

theorem wp_checkStatus (force : Bool) (stat : Json) :
    wp copies (checkStatus job force stat) (fun _ t => t = copy) copy := by
  rw [checkStatus]
  cases report? stat with
  | none => rfl
  | some report => exact wp_updateStatus force report

theorem wp_completeJob (status : ℕ) (h : Covers copy job) :
    wp copies (completeJob job status) (fun _ t => Covers t job) copy := by
  refine wp_ask h fun saved t ht => ?_
  obtain ⟨hsaved,rfl⟩ := ht
  have hcovers := covers_saved h hsaved rfl rfl
  refine wp_ask trivial fun _ t ht => ?_
  obtain ⟨-,rfl⟩ := ht
  refine ⟨trivial,fun _ t ht => ?_⟩
  obtain ⟨-,rfl⟩ := ht
  exact hcovers

theorem wp_concludeCheck (statusJson : Json) (h : Covers copy job) :
    wp copies (concludeCheck job statusJson) (fun _ t => Covers t job) copy := by
  refine wp_ask trivial fun found t ht => ?_
  obtain ⟨-,rfl⟩ := ht
  rw [decideCheck]
  split
  · exact wp_completeJob _ h
  · exact h

theorem wp_checkJobStatus (force : Bool) (h : Covers copy job) :
    wp copies (checkJobStatus job force) (fun _ t => Covers t job) copy := by
  refine wp_ask trivial fun ready t ht => ?_
  obtain ⟨-,rfl⟩ := ht
  split
  · refine wp_ask trivial fun statusJson t ht => ?_
    obtain ⟨-,rfl⟩ := ht
    refine wp_then (wp_each (I := fun _ u => u = t) ?_ (statusList statusJson) [] rfl) ?_
    · rintro - stat t rfl
      exact wp_checkStatus force stat
    · rintro - t rfl
      exact wp_concludeCheck statusJson h
  · exact h

theorem wp_reloadJobOrAbort :
    wp copies (reloadJobOrAbort job) (fun row t => ∀ j, row = some j → Covers t j) copy := by
  refine wp_ask trivial fun row t ht => ?_
  obtain ⟨-,rfl⟩ := ht
  rintro j hj
  obtain rfl : row = some (some j) := Option.join_eq_some_iff.mp hj
  exact covers_self j

theorem wp_finishCancel (jobId : ℤ) (h : Covers copy job) :
    wp copies (finishCancel jobId job) (fun _ _ => True) copy := by
  refine wp_then (wp_checkJobStatus false h) fun _ t hcovers => ?_
  refine wp_ask trivial fun found t ht => ?_
  obtain ⟨-,rfl⟩ := ht
  split
  · trivial
  · exact ⟨hcovers,fun _ _ _ => ⟨trivial,fun _ _ _ => ⟨trivial,fun _ _ _ => trivial⟩⟩⟩

theorem wp_cancelRunning (jobId : ℤ) :
    wp copies (cancelRunning jobId job) (fun _ _ => True) copy := by
  rw [cancelRunning]
  split
  · refine wp_ask trivial fun cancelled t _ => ?_
    split
    · refine wp_then wp_reloadJobOrAbort fun row t hrow => ?_
      cases row with
      | none => trivial
      | some row => exact wp_finishCancel jobId (hrow row rfl)
    · trivial
  · trivial

theorem wp_cancelRead (jobId : ℤ) (job : Model) :
    wp copies (cancelRead jobId job) (fun _ _ => True) (some job) := by
  rw [cancelRead]
  split
  · split
    · trivial
    · exact ⟨trivial,fun _ _ _ => trivial⟩
  · refine wp_ask trivial fun found t ht => ?_
    obtain ⟨-,rfl⟩ := ht
    split
    · trivial
    · refine wp_then (wp_checkJobStatus false (covers_self job)) fun _ t _ => ?_
      refine wp_then wp_reloadJobOrAbort fun row t hrow => ?_
      cases row with
      | none => trivial
      | some row => exact wp_cancelRunning jobId

theorem wp_handleJobCancel (jobId : ℤ) :
    wp copies (handleJobCancel jobId) (fun _ _ => True) copy := by
  refine wp_ask trivial fun row t ht => ?_
  obtain ⟨-,rfl⟩ := ht
  cases row with
  | none => trivial
  | some job => exact wp_cancelRead jobId job

theorem wp_markDeleting (jobId : ℤ) (h : Covers copy job) :
    wp copies (markDeleting jobId job) (fun _ _ => True) copy := by
  refine wp_ask h fun saved t ht => ?_
  obtain ⟨-,rfl⟩ := ht
  cases saved with
  | none => trivial
  | some saved =>
    refine wp_ask trivial fun deleted t ht => ?_
    obtain ⟨-,rfl⟩ := ht
    cases deleted with
    | true => exact ⟨fun _ => ⟨saved,rfl,rfl,fun _ => rfl⟩,fun _ _ _ => ⟨trivial,fun _ _ _ => trivial⟩⟩
    | false => exact ⟨covers_self saved,fun _ _ _ => trivial⟩

theorem wp_deleteRead (jobId : ℤ) (job : Model) :
    wp copies (deleteRead jobId job) (fun _ _ => True) (some job) := by
  rw [deleteRead]
  split
  · split
    · exact ⟨trivial,fun _ _ _ => trivial⟩
    · trivial
  · split
    · trivial
    · exact wp_markDeleting jobId (covers_self job)

theorem wp_handleJobDelete (jobId : ℤ) :
    wp copies (handleJobDelete jobId) (fun _ _ => True) copy := by
  refine wp_ask trivial fun row t ht => ?_
  obtain ⟨-,rfl⟩ := ht
  cases row with
  | none => trivial
  | some job => exact wp_deleteRead jobId job

def submitCopy : JobSubmit.Handler → Option Model
  | .duplicate job => some job
  | .known job => some job
  | .firstSave _ job => some job
  | .unlocking _ job => some job
  | .resolving _ job => some job
  | .directorySave _ job => some job
  | .submitting _ job => some job
  | .rejected _ job => some job
  | .submitted _ _ job => some job
  | .checking job => some job
  | .completing job _ => some job
  | _ => none

def copyOf : Task → Option Model
  | .submit handler => submitCopy handler
  | .running copy (.ask _ _) => copy
  | _ => none

def deletedIn (table : JobTable) (id : ℤ) : Bool := (table.row? id).any (·.deleted)

/-- The handler has a copy of the row that says it is not deleted. -/
def live (id : ℤ) (t : Task) : Bool :=
  (copyOf t).any fun copy => 0 < copy.id ∧ copy.id = id ∧ copy.deleted = false

/-- No copy in the handler contradicts a deletion in the table. -/
def Fresh (table : JobTable) (t : Task) : Prop :=
  ∀ id, deletedIn table id = true → live id t = false

/-- What one action of a handler with copy `old` may do to the table. -/
def Effect (table table' : JobTable) (old : Option Model) : Prop :=
  table' = table ∨ (∃ job id, table.saveJob job id = some table' ∧ Covers old job) ∨
    ∃ id, table' = table.deleteJob id

/-- A copy after the action is an old one, or it does not contradict the table. -/
def Sound (table table' : JobTable) (old : Option Model) (copy : Model) : Prop :=
  (table' = table ∧ ∃ held, old = some held ∧ held.id = copy.id ∧ held.deleted = copy.deleted) ∨
    (0 < copy.id → deletedIn table' copy.id = true → copy.deleted = true)

variable {table table' : JobTable} {t u : Task} {id : ℤ}

theorem fresh_iff : Fresh table t ↔
    ∀ held, copyOf t = some held → 0 < held.id → deletedIn table held.id = true →
      held.deleted = true := by
  constructor
  · intro h held hheld hpos hdeleted
    have hlive := h held.id hdeleted
    rw [live,hheld] at hlive
    simpa [hpos] using hlive
  · intro h id hdeleted
    rw [live,Option.any_eq_false]
    intro held hheld
    simp only [decide_eq_false_iff_not,not_and,Bool.not_eq_false]
    rintro hpos rfl
    exact h held hheld hpos hdeleted

theorem Sound.fresh (h : ∀ copy, copyOf u = some copy → Sound table table' (copyOf t) copy)
    (ht : Fresh table t) : Fresh table' u := by
  rw [fresh_iff] at ht ⊢
  intro copy hcopy hpos hdeleted
  rcases h copy hcopy with ⟨rfl,held,hheld,hid,hsame⟩ | hsound
  · rw [← hsame]
    rw [← hid] at hpos hdeleted
    exact ht held hheld hpos hdeleted
  · exact hsound hpos hdeleted

theorem deletedIn_insert_self (job : Model) :
    deletedIn (table.insert id job) id = job.deleted := by
  rw [deletedIn,JobTable.row?_insert_self]
  rfl

theorem Effect.keeps (h : Effect table table' (copyOf t)) (ht : Fresh table t)
    (hdeleted : deletedIn table id = true) :
    table'.row? id = none ∨ deletedIn table' id = true := by
  rcases h with rfl | ⟨job,savedId,hsave,hcovers⟩ | ⟨k,rfl⟩
  · exact .inr hdeleted
  · have hinsert := JobTable.saveJob_eq_insert hsave
    right
    by_cases hid : id = savedId
    · subst hid
      obtain ⟨row,hrow,-⟩ := (Option.any_eq_true _ _).mp hdeleted
      have hjob := JobTable.id_of_saveJob_existing hsave hrow
      have hpos : 0 < job.id := by
        rw [hjob]
        exact JobTable.savedId_pos hsave
      obtain ⟨held,hheld,hheldId,himp⟩ := hcovers hpos
      rw [hinsert,deletedIn_insert_self]
      refine himp (fresh_iff.mp ht held hheld (by rwa [hheldId]) ?_)
      rw [hheldId,hjob]
      exact hdeleted
    · rw [hinsert,deletedIn,JobTable.row?_insert_other hid]
      exact hdeleted
  · by_cases hid : id = JobTable.wireUlong k
    · left
      rw [hid]
      simp [JobTable.row?,JobTable.deleteJob]
    · right
      rw [deletedIn,JobTable.row?_deleteJob_other hid]
      exact hdeleted

theorem sound_old {held : Model} (h : copy = some held) : Sound table table copy held :=
  .inl ⟨rfl,held,h,rfl,rfl⟩

theorem sound_row {row new : Model} (hrow : table.row? new.id = some row)
    (hdeleted : row.deleted = new.deleted) : Sound table table copy new := by
  refine .inr fun _ h => ?_
  rw [deletedIn,hrow] at h
  rw [← hdeleted]
  exact h

theorem sound_saved {new : Model} (hsave : table.saveJob job id = some table')
    (hid : new.id = id) (hdeleted : new.deleted = job.deleted) : Sound table table' copy new := by
  refine .inr fun _ h => ?_
  rwa [JobTable.saveJob_eq_insert hsave,hid,deletedIn_insert_self,← hdeleted] at h

theorem sound_read {jobId : ℤ} {k : Option ℤ} {row new : Model}
    (hget : table.getOrCreateByJobId jobId k = some row) (hid : new.id = row.id)
    (hdeleted : row.deleted = new.deleted) : Sound table table copy new := by
  cases k with
  | none =>
    simp only [JobTable.getOrCreateByJobId] at hget
    split at hget
    · cases hget
    · obtain rfl := Option.some.inj hget
      exact .inr fun hpos => absurd hpos (by rw [hid]; decide)
  | some k =>
    obtain ⟨hrow,hkey⟩ := JobTable.getOrCreate_found hget
    refine sound_row ?_ hdeleted
    rw [hid,hkey]
    exact hrow

section Perform

variable {mayFail : DbCall → Bool} {x y : Shared} {c : Choice}

theorem perform_effect {r : Request} {a : Answer r} (h : perform mayFail x r c = some (y,a))
    (hallows : copies.allows copy r) : Answers r a ∧ Effect x.table y.table copy ∧
      ∀ new, r.copied a copy = some new → Sound x.table y.table copy new := by
  cases r with
  | getOrCreateByJobId jobId =>
    obtain ⟨rfl,⟨k,job,-,hget,rfl⟩ | ⟨-,-,rfl⟩⟩ := perform_getOrCreate h
    · refine ⟨trivial,.inl rfl,fun new hnew => ?_⟩
      obtain rfl := Option.some.inj hnew
      exact sound_read hget rfl rfl
    · exact ⟨trivial,.inl rfl,fun _ => sound_old⟩
  | getJobById k =>
    obtain ⟨rfl,⟨-,rfl⟩ | ⟨-,-,rfl⟩⟩ := perform_getJobById h
    · refine ⟨trivial,.inl rfl,fun new hnew => ?_⟩
      cases hrow : y.table.row? (JobTable.wireUlong k) with
      | none =>
        rw [hrow] at hnew
        exact sound_old hnew
      | some row =>
        rw [hrow] at hnew
        obtain rfl := Option.some.inj hnew
        refine sound_row ?_ rfl
        rw [y.table.keyed _ _ hrow]
        exact hrow
    · exact ⟨trivial,.inl rfl,fun _ => sound_old⟩
  | saveJob job =>
    obtain ⟨savedId,table,-,hsave,rfl,rfl⟩ | ⟨-,-,rfl,rfl⟩ := perform_saveJob h
    · refine ⟨?_,.inr (.inl ⟨job,savedId,hsave,hallows⟩),fun new hnew => ?_⟩
      · rintro saved hsaved
        obtain rfl := Option.some.inj hsaved
        exact ⟨rfl,JobTable.saveJob_savedId hsave⟩
      · obtain rfl := Option.some.inj hnew
        exact sound_saved hsave rfl rfl
    · exact ⟨by rintro _ ⟨⟩,.inl rfl,fun _ => sound_old⟩
  | isReady | getRunningJobs | getJobStatusByJobIdAndWhat | getJobStatusByJobId
  | deleteStatusByIdList | saveStatus | bundleStatus | bundleBool | archive | queueUpdate =>
    rw [perform_table h (by simp)]
    exact ⟨trivial,.inl rfl,fun _ => sound_old⟩

end Perform

section Submit

variable {x x' : JobSubmit.Shared} {i : ℕ} {h h' : JobSubmit.Handler} {c : JobSubmit.Choice}
  {new : List JobSubmit.Handler}

theorem covers_pendingSave {row : Model} (hpending : JobSubmit.pendingSave h = some row) :
    Covers (submitCopy h) row := by
  intro _
  cases h with
  | duplicate job =>
    obtain rfl := Option.some.inj hpending
    exact ⟨job,rfl,rfl,id⟩
  | firstSave jobId job =>
    obtain rfl := Option.some.inj hpending
    exact ⟨job,rfl,rfl,id⟩
  | directorySave jobId job =>
    obtain rfl := Option.some.inj hpending
    exact ⟨job,rfl,rfl,id⟩
  | submitted jobId schedulerId job =>
    obtain rfl := Option.some.inj hpending
    exact ⟨job,rfl,rfl,id⟩
  | completing job status =>
    obtain rfl := Option.some.inj hpending
    exact ⟨job,rfl,rfl,id⟩
  | _ => cases hpending

theorem submit_effect (hexec : JobSubmit.exec x i h c = some (x',h',new)) :
    Effect x.table x'.table (submitCopy h) := by
  obtain hsame | ⟨row,id,-,hpending,hsave⟩ | ⟨row,-,-,hdelete⟩ := JobSubmit.exec_table hexec
  · exact .inl hsame
  · exact .inr (.inl ⟨row,id,hsave,covers_pendingSave hpending⟩)
  · exact .inr (.inr ⟨row.id,hdelete⟩)

theorem afterGet_copy {jobId : ℤ} {bundleHash : String} {row new : Model}
    (hnew : submitCopy (JobSubmit.afterGet jobId bundleHash row) = some new) :
    new.id = row.id ∧ row.deleted = new.deleted := by
  simp only [JobSubmit.afterGet] at hnew
  repeat' split at hnew
  all_goals
    obtain rfl := Option.some.inj hnew
    exact ⟨rfl,rfl⟩

theorem submit_sound (hexec : JobSubmit.exec x i h c = some (x',h',new)) (copy : Model)
    (hcopy : submitCopy h' = some copy) : Sound x.table x'.table (submitCopy h) copy := by
  cases JobSubmit.exec_step hexec with
  | get jobId hash id row hget hx =>
    subst hx
    obtain ⟨hid,hdeleted⟩ := afterGet_copy hcopy
    exact sound_read hget hid hdeleted
  | saveFirst _ _ _ _ hsave hx | saveDirectory _ _ _ _ hsave hx =>
    subst hx
    cases hcopy
    exact sound_saved hsave rfl rfl
  | unlock _ _ hx | submit _ _ _ _ hx | reject _ _ hx | finished _ _ hx =>
    subst hx
    exact sound_old hcopy
  | resolve jobId job dir hx =>
    subst hx
    cases hcopy
    exact .inl ⟨rfl,job,rfl,rfl,rfl⟩
  | _ => cases hcopy

theorem submit_spawned (hexec : JobSubmit.exec x i h c = some (x',h',new))
    (u : JobSubmit.Handler) (hu : u ∈ new) :
    ∃ job, u = .checking job ∧ submitCopy h = some job ∧ x'.table = x.table := by
  cases JobSubmit.exec_step hexec with
  | spawnCheck job hx =>
    subst hx
    exact ⟨job,List.mem_singleton.mp hu,rfl,rfl⟩
  | _ => cases hu

end Submit

/-- What is left of a handler's program writes back its copy only. -/
def Follows : Task → Prop
  | .running copy rest => wp copies rest (fun _ _ => True) copy
  | .sweeping rest => rest = checkAllJobsStatus ∨ rest = listRunning
  | _ => True

/-- What one action does to the table, and what the handlers it leaves behind have copied. -/
structure Acts (x x' : Shared) (t : Task) (after : List Task) : Prop where
  effect : Effect x.table x'.table (copyOf t)
  follows : ∀ u ∈ after, Follows u
  sound : ∀ u ∈ after, ∀ copy, copyOf u = some copy → Sound x.table x'.table (copyOf t) copy

section Exec

variable {mayFail : DbCall → Bool} {x x' : Shared} {i : ℕ} {c : Choice} {t' : Task}
  {new : List Task}

theorem acts_plain (hfollows : Follows t') (hcopy : copyOf t' = none) : Acts x x t [t'] := by
  refine ⟨.inl rfl,fun u hu => ?_,fun u hu copy hu' => ?_⟩
  · rw [List.mem_singleton.mp hu]
    exact hfollows
  · rw [List.mem_singleton.mp hu,hcopy] at hu'
    cases hu'

theorem acts_submit {handler : JobSubmit.Handler}
    (h : exec mayFail x i (.submit handler) c = some (x',t',new)) :
    Acts x x' (.submit handler) (t' :: new) := by
  cases c with
  | submit choice =>
    simp only [JobHandlers.exec,Option.ite_none_left_eq_some,Option.map_eq_some_iff,
      Prod.mk.injEq] at h
    obtain ⟨-,⟨y,handler',spawn⟩,hexec,rfl,rfl,rfl⟩ := h
    refine ⟨submit_effect hexec,?_,?_⟩
    · intro u hu
      rcases List.mem_cons.mp hu with rfl | hu
      · trivial
      · obtain ⟨v,hv,rfl⟩ := List.mem_map.mp hu
        obtain ⟨job,rfl,-⟩ := submit_spawned hexec v hv
        exact wp_mono (wp_checkJobStatus true (covers_self job)) fun _ _ _ => trivial
    · intro u hu copy hcopy
      rcases List.mem_cons.mp hu with rfl | hu
      · exact submit_sound hexec copy hcopy
      · obtain ⟨v,hv,rfl⟩ := List.mem_map.mp hu
        obtain ⟨job,rfl,hjob,htable⟩ := submit_spawned hexec v hv
        obtain rfl := Option.some.inj hcopy
        exact .inl ⟨htable,job,hjob,rfl,rfl⟩
  | _ => cases h

theorem acts_running {rest : Async Unit} (hfollows : Follows (.running copy rest))
    (h : exec mayFail x i (.running copy rest) c = some (x',t',new)) :
    Acts x x' (.running copy rest) (t' :: new) := by
  obtain ⟨r,resume,a,rfl,hperform,rfl,rfl⟩ := exec_running h
  obtain ⟨hanswers,heffect,hsound⟩ := perform_effect hperform hfollows.1
  refine ⟨heffect,fun u hu => ?_,fun u hu new hnew => ?_⟩
  · rw [List.mem_singleton.mp hu]
    exact hfollows.2 a _ ⟨hanswers,rfl⟩
  · obtain rfl := List.mem_singleton.mp hu
    refine hsound new ?_
    cases hrest : resume a with
    | done b =>
      rw [hrest] at hnew
      cases hnew
    | ask r resume =>
      rw [hrest] at hnew
      exact hnew

theorem acts_sweeping {rest : Async (List Model)} (hfollows : Follows (.sweeping rest))
    (h : exec mayFail x i (.sweeping rest) c = some (x',t',new)) :
    Acts x x' (.sweeping rest) (t' :: new) := by
  rcases hfollows with rfl | rfl
  · obtain ⟨⟨y,ready⟩,hperform,hy⟩ := Option.map_eq_some_iff.mp h
    obtain ⟨-,rfl⟩ := perform_isReady hperform
    cases ready with
    | true =>
      cases hy
      exact acts_plain (.inr rfl) rfl
    | false =>
      cases hy
      exact acts_plain trivial rfl
  · obtain ⟨⟨y,jobs⟩,hperform,hy⟩ := Option.map_eq_some_iff.mp h
    obtain ⟨rfl,hjobs⟩ := perform_getRunningJobs hperform
    cases hy
    refine ⟨.inl rfl,?_,?_⟩
    · intro u hu
      rcases List.mem_cons.mp hu with rfl | hu
      · trivial
      · obtain ⟨job,-,rfl⟩ := List.mem_map.mp hu
        exact wp_mono (wp_checkJobStatus false (covers_self job)) fun _ _ _ => trivial
    · intro u hu copy hcopy
      rcases List.mem_cons.mp hu with rfl | hu
      · cases hcopy
      · obtain ⟨job,hjob,rfl⟩ := List.mem_map.mp hu
        obtain rfl := Option.some.inj hcopy
        rcases hjobs with ⟨found,-,hperm,rfl⟩ | ⟨-,-,rfl⟩
        · exact sound_row (JobHandlers.row_of_runningJobs (hperm.mem_iff.mp hjob)) rfl
        · cases hjob

theorem acts_exec (hfollows : Follows t) (h : exec mayFail x i t c = some (x',t',new)) :
    Acts x x' t (t' :: new) := by
  cases t with
  | submit handler => exact acts_submit h
  | cancel jobId =>
    cases c <;> cases h
    exact acts_plain (wp_handleJobCancel jobId) rfl
  | delete jobId =>
    cases c <;> cases h
    exact acts_plain (wp_handleJobDelete jobId) rfl
  | checkAll =>
    cases c <;> cases h
    exact acts_plain (.inl rfl) rfl
  | sweeping rest => exact acts_sweeping hfollows h
  | running copy rest => exact acts_running hfollows h

end Exec

/-- A row is marked deleted only while no other handler has a live copy of it. -/
def Unobserved (mayFail : DbCall → Bool) (s : State Shared Task) : Move Task Choice → Prop
  | .arrive _ => True
  | .run i c => ((system mayFail).machine.step s (.run i c)).all fun s' =>
    s'.shared.table.rows.keys.all fun id =>
      deletedIn s.shared.table id || !deletedIn s'.shared.table id ||
        (List.range s.threads.length).all fun j => j = i || !(s.threads[j]?.any (live id))

instance (mayFail : DbCall → Bool) (s : State Shared Task) (a : Move Task Choice) :
    Decidable (Unobserved mayFail s a) :=
  match a with
  | .arrive _ => .isTrue trivial
  | .run _ _ => inferInstanceAs (Decidable (_ = true))

/-- No handler can take back a deletion. -/
def Guarded (s : State Shared Task) : Prop :=
  ∀ (i : ℕ) t, s.threads[i]? = some t → Follows t ∧ Fresh s.shared.table t

section Runs

variable {mayFail : DbCall → Bool} {s s' : State Shared Task}

theorem fresh_other {i j : ℕ} {c : Choice} (ht : s.threads[j]? = some t) (hj : j ≠ i)
    (hfresh : Fresh s.shared.table t) (hunobserved : Unobserved mayFail s (.run i c))
    (hstep : (system mayFail).machine.step s (.run i c) = some s') :
    Fresh s'.shared.table t := by
  intro id hdeleted
  by_cases hbefore : deletedIn s.shared.table id = true
  · exact hfresh id hbefore
  · have hkey : id ∈ s'.shared.table.rows.keys := by
      obtain ⟨row,hrow,-⟩ := (Option.any_eq_true _ _).mp hdeleted
      exact AList.lookup_isSome.mp (by rw [JobTable.row?] at hrow; rw [hrow]; rfl)
    have hlt := (List.getElem?_eq_some_iff.mp ht).1
    simp only [Unobserved,hstep,Option.all_some,List.all_eq_true] at hunobserved
    have hlive := hunobserved id hkey
    simp only [hbefore,hdeleted,Bool.not_true,Bool.or_false,Bool.false_or,List.all_eq_true] at hlive
    have hother := hlive j (List.mem_range.mpr hlt)
    simpa [hj,ht] using hother

theorem entry_plain (h : entry t = true) : Follows t ∧ copyOf t = none := by
  cases t with
  | submit handler =>
    cases handler with
    | arrived => exact ⟨trivial,rfl⟩
    | _ => cases h
  | sweeping => cases h
  | running => cases h
  | _ => exact ⟨trivial,rfl⟩

theorem guarded_step (s : State Shared Task) (a : Move Task Choice) (s' : State Shared Task)
    (h : Guarded s) (hunobserved : Unobserved mayFail s a)
    (hstep : (system mayFail).machine.step s a = some s') : Guarded s' := by
  cases a with
  | arrive u =>
    obtain ⟨hentry,rfl⟩ := step_arrive hstep
    intro i t ht
    rcases arrive_cases ht with hold | ⟨-,rfl⟩
    · exact h i t hold
    · obtain ⟨hfollows,hcopy⟩ := entry_plain hentry
      refine ⟨hfollows,fresh_iff.mpr fun held hheld => ?_⟩
      rw [hcopy] at hheld
      cases hheld
  | run i c =>
    obtain ⟨u,u',new,hturn⟩ := step_run hstep
    obtain ⟨hfollows,hfresh⟩ := h i u hturn.thread
    have hacts : Acts s.shared s'.shared u (u' :: new) := acts_exec hfollows hturn.exec
    have hafter (v : Task) (hv : v ∈ u' :: new) : Follows v ∧ Fresh s'.shared.table v :=
      ⟨hacts.follows v hv,Sound.fresh (hacts.sound v hv) hfresh⟩
    intro j t ht
    rcases hturn.thread_cases ht with ⟨-,rfl⟩ | ⟨hji,hold⟩ | ⟨-,hnew⟩
    · exact hafter _ List.mem_cons_self
    · obtain ⟨hfollows,hfresh⟩ := h j t hold
      exact ⟨hfollows,fresh_other hold hji hfresh hunobserved hstep⟩
    · exact hafter t (List.mem_cons_of_mem _ hnew)

theorem guarded_initial (table : JobTable) (statuses : StatusTable) :
    Guarded (initial table statuses) := by
  intro i t ht
  cases ht

theorem Guarded.keeps (h : Guarded s) {a : Move Task Choice}
    (hstep : (system mayFail).machine.step s a = some s') {row row' : Model}
    (hrow : s.shared.table.row? id = some row) (hdeleted : row.deleted = true)
    (hrow' : s'.shared.table.row? id = some row') : row'.deleted = true := by
  cases a with
  | arrive u =>
    obtain ⟨-,rfl⟩ := step_arrive hstep
    rw [hrow,Option.some.injEq] at hrow'
    rw [← hrow']
    exact hdeleted
  | run i c =>
    obtain ⟨u,u',new,hturn⟩ := step_run hstep
    obtain ⟨hfollows,hfresh⟩ := h i u hturn.thread
    have hacts : Acts s.shared s'.shared u (u' :: new) := acts_exec hfollows hturn.exec
    have hbefore : deletedIn s.shared.table id = true := by
      rw [deletedIn,hrow]
      exact hdeleted
    rcases hacts.effect.keeps hfresh hbefore with hnone | hafter
    · rw [hnone] at hrow'
      cases hrow'
    · rw [deletedIn,hrow'] at hafter
      exact hafter

end Runs

/-- In a run that marks rows deleted only while no other handler has a live copy of them,
no step stores `deleted = false` in a deleted row. -/
theorem deleted_stays {mayFail : DbCall → Bool} {table : JobTable} {statuses : StatusTable}
    {moves : List (Move Task Choice)} {s s' : State Shared Task} {move : Move Task Choice}
    (hrun : (system mayFail).machine.run (initial table statuses) moves = some s)
    (hmeets : (system mayFail).machine.Meets (Unobserved mayFail) (initial table statuses) moves)
    (hstep : (system mayFail).machine.step s move = some s') {id : ℤ} {row row' : Model}
    (hrow : s.shared.table.row? id = some row) (hdeleted : row.deleted = true)
    (hrow' : s'.shared.table.row? id = some row') : row'.deleted = true := by
  have hguarded := StepMachine.invariant guarded_step (guarded_initial table statuses) hmeets hrun
  exact hguarded.keeps hstep hrow hdeleted hrow'

/-- A submit message for the known job, up to the spawned check. -/
def resubmission (i : ℕ) : List (Move Task Choice) :=
  [.arrive (.submit (.arrived 7 "bundle")),.run i (.submit (.connected true)),.run i (.submit .go),
    .run i (.submit (.row (some 1))),.run i (.submit .go)]

def deletion (i : ℕ) : List (Move Task Choice) :=
  [.arrive (.delete 7),.run i .go,.run i (.row (some 1)),.run i (.saved 1),
    .run i (.answered true),.run i (.saved 1)]

/-- The bundle says that the job is complete; next the check saves its copy of the row. -/
def completion (i : ℕ) : List (Move Task Choice) :=
  [.run i (.ready true),.run i (.json (.object [("complete",.bool true)])),.run i (.statuses [])]

/-- The check starts after the deletion, so it saves a deleted row. -/
theorem deleted_stays_lateCheck : ∃ s s' row',
    (system fun _ => false).machine.run (initial endedTable .empty)
        (deletion 0 ++ resubmission 1 ++ completion 2) = some s ∧
      (system fun _ => false).machine.step s (.run 2 (.saved 1)) = some s' ∧
      s'.shared.table.row? 1 = some row' ∧ row'.deleted = true := by
  have hrun : ((system fun _ => false).machine.run (initial endedTable .empty)
      (deletion 0 ++ resubmission 1 ++ completion 2)).any (fun s => deletedIn s.shared.table 1 ∧
        ((system fun _ => false).machine.step s (.run 2 (.saved 1))).any
          fun s' => (s'.shared.table.row? 1).isSome) = true := by
    decide +kernel
  obtain ⟨s,hs,hboth⟩ := (Option.any_eq_true _ _).mp hrun
  obtain ⟨hdeleted,hstep⟩ := of_decide_eq_true hboth
  obtain ⟨row,hrow,hdeleted⟩ := (Option.any_eq_true _ _).mp hdeleted
  obtain ⟨s',hs',hsome⟩ := (Option.any_eq_true _ _).mp hstep
  obtain ⟨row',hrow'⟩ := Option.isSome_iff_exists.mp hsome
  exact ⟨s,s',row',hs,hs',hrow',
    deleted_stays hs (by decide +kernel) hs' hrow hdeleted hrow'⟩

/-- The check has copied the row before the deletion and takes it back. -/
theorem staleCheck_undeletes : ∃ s s' row row',
    (system fun _ => false).machine.run (initial endedTable .empty)
        (resubmission 0 ++ deletion 2 ++ completion 1) = some s ∧
      (system fun _ => false).machine.step s (.run 1 (.saved 1)) = some s' ∧
      s.shared.table.row? 1 = some row ∧ row.deleted = true ∧
      s'.shared.table.row? 1 = some row' ∧ row'.deleted = false := by
  have hrun : ((system fun _ => false).machine.run (initial endedTable .empty)
      (resubmission 0 ++ deletion 2 ++ completion 1)).any (fun s => deletedIn s.shared.table 1 ∧
        ((system fun _ => false).machine.step s (.run 1 (.saved 1))).any
          fun s' => (s'.shared.table.row? 1).any fun row => !row.deleted) = true := by
    decide +kernel
  obtain ⟨s,hs,hboth⟩ := (Option.any_eq_true _ _).mp hrun
  obtain ⟨hdeleted,hstep⟩ := of_decide_eq_true hboth
  obtain ⟨row,hrow,hdeleted⟩ := (Option.any_eq_true _ _).mp hdeleted
  obtain ⟨s',hs',hlive⟩ := (Option.any_eq_true _ _).mp hstep
  obtain ⟨row',hrow',hlive⟩ := (Option.any_eq_true _ _).mp hlive
  exact ⟨s,s',row,row',hs,hs',hrow,hdeleted,hrow',by simpa using hlive⟩

end DeletedRow
end JobControllerClient
