import JobControllerClient.JobSystem

/-! Any number of `handle_job_delete` handlers for one job. The `deleting` flag is read
and written in two requests: two handlers that both read before either writes both call
the bundle. Without such a pair the flag is a lock and the job is deleted once. -/
namespace JobControllerClient
namespace DeleteOnce

open Interleaving hiding exec
open JobHandlers
open JobTable (Model hasJobId)

/-- Only delete handlers for the job arrive, and every request succeeds. -/
def deletes (jobId : ℤ) : Interleaving Shared Task Choice where
  entry
    | .delete k => k = jobId
    | _ => false
  exec := exec fun _ => false

/-- Where a delete handler stands, with its copy of the row. -/
inductive Phase
  | arrived
  | reading
  | marking (job : Model)
  | calling (job : Model)
  | releasing (job : Model) (deleted : Bool)
  | reporting
  | ended

namespace Phase

variable (jobId : ℤ)

def task (copy : Option Model) : Phase → Task
  | .arrived => .delete jobId
  | .reading => .running copy (handleJobDelete jobId)
  | .marking job => .running copy (markDeleting jobId job)
  | .calling job => .running copy (deleteMarked jobId job)
  | .releasing job deleted => .running copy (finishDelete jobId job deleted)
  | .reporting => .running copy (reportDeleted jobId)
  | .ended => .running copy (.done ())

def afterRead (job : Model) : Phase :=
  if job.id = 0 ∨ job.running ∨ job.submitting ∨ job.deleted then
    if job.id = 0 ∨ job.deleted then .reporting else .ended
  else if job.deleting then .ended
  else .marking job

def released (job : Model) (deleted : Bool) : Model :=
  if deleted then { job with deleting := false, deleted := true }
  else { job with deleting := false }

theorem task_afterRead (copy : Option Model) (job : Model) :
    (afterRead job).task jobId copy = .running copy (deleteRead jobId job) := by
  simp only [afterRead,deleteRead]
  repeat' split
  all_goals rfl

end Phase

/-- What one action of a delete handler does to the job table. -/
inductive Advance (jobId : ℤ) (table : JobTable) : Phase → Choice → JobTable → Phase → Prop
  | start : Advance jobId table .arrived .go table .reading
  | read {id : Option ℤ} {job : Model} (h : table.getOrCreateByJobId jobId id = some job) :
      Advance jobId table .reading (.row id) table (.afterRead job)
  | mark {job : Model} {id : ℤ} {table' : JobTable}
      (h : table.saveJob { job with deleting := true } id = some table') :
      Advance jobId table (.marking job) (.saved id) table'
        (.calling { job with deleting := true, id })
  | answer {job : Model} (deleted : Bool) :
      Advance jobId table (.calling job) (.answered deleted) table (.releasing job deleted)
  | release {job : Model} {deleted : Bool} {id : ℤ} {table' : JobTable}
      (h : table.saveJob (Phase.released job deleted) id = some table') :
      Advance jobId table (.releasing job deleted) (.saved id) table'
        (if deleted then .reporting else .ended)
  | report : Advance jobId table .reporting .go table .ended

theorem advance_of_exec {jobId : ℤ} {x x' : Shared} {i : ℕ} {phase : Phase}
    {copy : Option Model} {c : Choice} {t' : Task} {new : List Task}
    (h : exec (fun _ => false) x i (phase.task jobId copy) c = some (x',t',new)) :
    new = [] ∧ ∃ phase' copy', t' = phase'.task jobId copy' ∧
      Advance jobId x.table phase c x'.table phase' := by
  cases phase with
  | arrived =>
    cases c <;> cases h
    exact ⟨rfl,.reading,none,rfl,.start⟩
  | reading =>
    obtain ⟨r,resume,a,⟨⟩,hperform,rfl,rfl⟩ := exec_running h
    obtain ⟨rfl,⟨id,job,rfl,hget,rfl⟩ | ⟨-,hfail,-⟩⟩ := perform_getOrCreate hperform
    · exact ⟨rfl,.afterRead job,_,(Phase.task_afterRead jobId _ job).symm,.read hget⟩
    · cases hfail
  | marking job =>
    obtain ⟨r,resume,a,⟨⟩,hperform,rfl,rfl⟩ := exec_running h
    obtain ⟨id,table,rfl,hsave,rfl,rfl⟩ | ⟨-,hfail,-⟩ := perform_saveJob hperform
    · exact ⟨rfl,.calling _,_,rfl,.mark hsave⟩
    · cases hfail
  | calling job =>
    obtain ⟨r,resume,a,⟨⟩,hperform,rfl,rfl⟩ := exec_running h
    obtain ⟨rfl,rfl⟩ := perform_bundleBool hperform
    exact ⟨rfl,.releasing job a,_,rfl,.answer a⟩
  | releasing job deleted =>
    cases deleted with
    | true =>
      obtain ⟨r,resume,a,⟨⟩,hperform,rfl,rfl⟩ := exec_running h
      obtain ⟨id,table,rfl,hsave,rfl,rfl⟩ | ⟨-,hfail,-⟩ := perform_saveJob hperform
      · exact ⟨rfl,.reporting,_,rfl,.release hsave⟩
      · cases hfail
    | false =>
      obtain ⟨r,resume,a,⟨⟩,hperform,rfl,rfl⟩ := exec_running h
      obtain ⟨id,table,rfl,hsave,rfl,rfl⟩ | ⟨-,hfail,-⟩ := perform_saveJob hperform
      · exact ⟨rfl,.ended,_,rfl,.release hsave⟩
      · cases hfail
  | reporting =>
    obtain ⟨r,resume,a,⟨⟩,hperform,rfl,rfl⟩ := exec_running h
    obtain ⟨rfl,rfl⟩ := perform_queueUpdate hperform
    exact ⟨rfl,.ended,_,rfl,.report⟩
  | ended => cases c <;> cases h

def calls (t : Task) : Bool :=
  match t.waitsFor with
  | some (.bundleBool .delete _ _) => true
  | _ => false

def reads (t : Task) : Bool :=
  match t.waitsFor with
  | some (.getOrCreateByJobId _) => true
  | _ => false

/-- The handler has read the row and is about to set `deleting`. -/
def marks (t : Task) : Bool :=
  match t.waitsFor with
  | some (.saveJob job) => job.deleting
  | _ => false

/-- No handler reads the row between another handler's read and its mark. -/
def Undisturbed (s : State Shared Task) : Move Task Choice → Prop
  | .run i _ => s.threads[i]?.any reads = true → s.threads.all fun t => !marks t
  | .arrive _ => True

instance (s : State Shared Task) (a : Move Task Choice) : Decidable (Undisturbed s a) :=
  match a with
  | .run _ _ => inferInstanceAs (Decidable (_ → _))
  | .arrive _ => .isTrue trivial

inductive Event
  | started
  | returned (deleted : Bool)
  deriving DecidableEq

def returns : Choice → List Event
  | .answered deleted => [.returned deleted]
  | _ => []

def events (jobId : ℤ) (s : State Shared Task) : Move Task Choice → List Event
  | .run i c =>
    if s.threads[i]?.any calls then returns c
    else if ((deletes jobId).machine.step s (.run i c)).any fun t => t.threads[i]?.any calls then
      [.started]
    else []
  | .arrive _ => []

/-- No call starts after one has returned true. -/
def Settled (log : List Event) : Prop :=
  log.Pairwise fun e f => e = .returned true → f ≠ .started

instance (log : List Event) : Decidable (Settled log) :=
  inferInstanceAs (Decidable (log.Pairwise _))

structure RunsOnce (id : ℤ) (s : State Shared Task) (log : List Event) : Prop where
  exclusive : ∀ (i j : ℕ) t u, s.threads[i]? = some t → s.threads[j]? = some u →
    calls t = true → calls u = true → i = j
  settled : Settled log
  unlocked : (∀ t ∈ s.threads, t.finished = true) →
    ∃ row, s.shared.table.row? id = some row ∧ row.deleting = false

/-- The job exists under one primary key and nothing is going on with it. -/
structure Existing (table : JobTable) (jobId id : ℤ) (row : Model) : Prop where
  positive : 0 < id
  stored : table.row? id = some row
  named : hasJobId jobId row = true
  sole : ∀ k r, table.row? k = some r → hasJobId jobId r = true → k = id
  running : row.running = false
  submitting : row.submitting = false
  deleting : row.deleting = false
  deleted : row.deleted = false

namespace Phase

/-- The phases from the read of an idle row to the last save. -/
def active : Phase → Bool
  | .marking _ => true
  | .calling _ => true
  | .releasing _ _ => true
  | _ => false

def isCalling : Phase → Bool
  | .calling _ => true
  | _ => false

def isMarking : Phase → Bool
  | .marking _ => true
  | _ => false

variable (jobId : ℤ) (copy : Option Model) (phase : Phase)

theorem calls_task : calls (phase.task jobId copy) = phase.isCalling := by
  cases phase with
  | releasing job deleted => cases deleted <;> rfl
  | _ => rfl

theorem marks_task : marks (phase.task jobId copy) = phase.isMarking := by
  cases phase with
  | releasing job deleted => cases deleted <;> rfl
  | _ => rfl

theorem active_of_finished (h : (phase.task jobId copy).finished = true) :
    phase.active = false := by
  cases phase with
  | releasing job deleted => cases deleted <;> cases h
  | ended => rfl
  | reporting => rfl
  | _ => cases h

theorem afterRead_isCalling (job : Model) : (afterRead job).isCalling = false := by
  simp only [afterRead]
  repeat' split
  all_goals rfl

/-- What the row and the log show while the owner of the row is in this phase. -/
def Shows (row : Model) (log : List Event) : Phase → Prop
  | .marking job => job.id = row.id ∧ row.deleting = false ∧ .returned true ∉ log
  | .calling job => job.id = row.id ∧ row.deleting = true ∧ .returned true ∉ log
  | .releasing job deleted =>
    job.id = row.id ∧ row.deleting = true ∧ (.returned true ∈ log → deleted = true)
  | _ => row.deleting = false ∧ (.returned true ∈ log → row.deleted = true)

variable {phase}

theorem Shows.idle {row : Model} {log : List Event} (h : phase.active = false) :
    phase.Shows row log ↔ row.deleting = false ∧ (.returned true ∈ log → row.deleted = true) := by
  cases phase with
  | marking => cases h
  | calling => cases h
  | releasing => cases h
  | _ => exact Iff.rfl

theorem Shows.deleting {row : Model} {log : List Event} (h : phase.Shows row log)
    (hactive : phase.active = true) (hmarking : phase.isMarking = false) : row.deleting = true := by
  cases phase with
  | marking => cases hmarking
  | calling => exact h.2.1
  | releasing => exact h.2.1
  | _ => cases hactive

theorem afterRead_active {job : Model} (h : (afterRead job).active = true) :
    afterRead job = .marking job ∧ job.id ≠ 0 ∧ job.deleting = false ∧ job.deleted = false := by
  by_cases hstop : job.id = 0 ∨ job.running ∨ job.submitting ∨ job.deleted
  · rw [afterRead,if_pos hstop] at h
    split at h <;> cases h
  · by_cases hdeleting : job.deleting
    · rw [afterRead,if_neg hstop,if_pos hdeleting] at h
      cases h
    · simp only [not_or,Bool.not_eq_true] at hstop hdeleting
      exact ⟨by simp [afterRead,hstop,hdeleting],hstop.1,hdeleting,hstop.2.2.2⟩

end Phase

section Invariant

variable {jobId id : ℤ}

/-- `phases` tells where each handler stands; a position without thread has ended. -/
def Standing (jobId : ℤ) (threads : List Task) (phases : ℕ → Phase) : Prop :=
  ∀ i : ℕ, match threads[i]? with
    | none => phases i = .ended
    | some t => ∃ copy, t = (phases i).task jobId copy

/-- At most one handler, the owner, is between its read of the idle row and its last save. -/
structure Owned (jobId id : ℤ) (table : JobTable) (phases : ℕ → Phase) (log : List Event) :
    Prop where
  positive : 0 < id
  sole : ∀ k r, table.row? k = some r → hasJobId jobId r = true → k = id
  owner : ∃ row i, table.row? id = some row ∧ (∀ j ≠ i, (phases j).active = false) ∧
    (phases i).Shows row log
  settled : Settled log

def happened (before : Phase) (c : Choice) (after : Phase) : List Event :=
  if before.isCalling then returns c else if after.isCalling then [.started] else []

theorem happened_nil {before after : Phase} {c : Choice} (hbefore : before.isCalling = false)
    (hafter : after.isCalling = false) : happened before c after = [] := by
  simp [happened,hbefore,hafter]

variable {table table' : JobTable} {phases : ℕ → Phase} {log : List Event} {row : Model}

theorem settled_returned {b : Bool} (h : Settled log) : Settled (log ++ [.returned b]) := by
  refine List.pairwise_append.mpr ⟨h,List.pairwise_singleton _ _,?_⟩
  intro e _ f hf _
  rw [List.mem_singleton.mp hf]
  exact Event.noConfusion

theorem settled_started (h : Settled log) (hlog : .returned true ∉ log) :
    Settled (log ++ [.started]) := by
  refine List.pairwise_append.mpr ⟨h,List.pairwise_singleton _ _,?_⟩
  rintro e he f - rfl
  exact (hlog he).elim

theorem Owned.read (h : Owned jobId id table phases log) (hrow : table.row? id = some row)
    {k : Option ℤ} {job : Model} (hget : table.getOrCreateByJobId jobId k = some job)
    (hid : job.id ≠ 0) : job = row := by
  cases k with
  | none =>
    simp only [JobTable.getOrCreateByJobId] at hget
    split at hget
    · cases hget
    · obtain rfl := Option.some.inj hget
      exact (hid rfl).elim
  | some k =>
    have hfound := Option.filter_eq_some_iff.mp hget
    obtain rfl := h.sole k job hfound.1 hfound.2
    exact Option.some.inj (hfound.1.symm.trans hrow)

theorem update_inactive {i j : ℕ} {phase : Phase} (h : ∀ k ≠ i, (phases k).active = false)
    (hphase : phase.active = false) (k : ℕ) (hk : k ≠ i) :
    (Function.update phases j phase k).active = false := by
  by_cases hkj : k = j
  · rw [hkj,Function.update_self]
    exact hphase
  · rw [Function.update_of_ne hkj]
    exact h k hk

theorem Owned.pass (h : Owned jobId id table phases log) {i : ℕ} {phase : Phase}
    (hbefore : (phases i).active = false) (hafter : phase.active = false) :
    Owned jobId id table (Function.update phases i phase) log := by
  obtain ⟨row,j,hrow,hothers,hshows⟩ := h.owner
  refine ⟨h.positive,h.sole,⟨row,j,hrow,update_inactive hothers hafter,?_⟩,h.settled⟩
  by_cases hij : j = i
  · subst hij
    rw [Function.update_self]
    exact (Phase.Shows.idle hafter).mpr ((Phase.Shows.idle hbefore).mp hshows)
  · rw [Function.update_of_ne hij]
    exact hshows

theorem Owned.own (h : Owned jobId id table phases log) {i : ℕ}
    (hactive : (phases i).active = true) : ∃ row, table.row? id = some row ∧
      (∀ j ≠ i, (phases j).active = false) ∧ (phases i).Shows row log := by
  obtain ⟨row,j,hrow,hothers,hshows⟩ := h.owner
  have hij : i = j := by
    by_contra hne
    rw [hothers i hne] at hactive
    cases hactive
  subst hij
  exact ⟨row,hrow,hothers,hshows⟩

theorem update_others {i : ℕ} {phase : Phase} (h : ∀ j ≠ i, (phases j).active = false)
    (j : ℕ) (hj : j ≠ i) : (Function.update phases i phase j).active = false := by
  rw [Function.update_of_ne hj]
  exact h j hj

theorem Owned.next (h : Owned jobId id table phases log) {i : ℕ} {phase : Phase}
    {log' : List Event} (hrow : table.row? id = some row)
    (hothers : ∀ j ≠ i, (phases j).active = false) (hshows : phase.Shows row log')
    (hsettled : Settled log') : Owned jobId id table (Function.update phases i phase) log' := by
  refine ⟨h.positive,h.sole,⟨row,i,hrow,update_others hothers,?_⟩,hsettled⟩
  rw [Function.update_self]
  exact hshows

theorem Owned.save (h : Owned jobId id table phases log) {i : ℕ} {phase : Phase}
    {log' : List Event} {job : Model} {savedId : ℤ}
    (hsave : table.saveJob job savedId = some table') (hid : job.id = id)
    (hothers : ∀ j ≠ i, (phases j).active = false)
    (hshows : phase.Shows (job.stored id) log') (hsettled : Settled log') :
    Owned jobId id table' (Function.update phases i phase) log' := by
  have hsaved : savedId = id := by
    rw [← hid]
    exact JobTable.saveJob_savedId hsave (by rw [hid]; exact h.positive)
  subst hsaved
  obtain rfl := JobTable.saveJob_eq_insert hsave
  refine ⟨h.positive,?_,⟨_,i,JobTable.row?_insert_self _ _ _,update_others hothers,?_⟩,hsettled⟩
  · intro k r hr hnamed
    by_contra hk
    rw [JobTable.row?_insert_other hk] at hr
    exact hk (h.sole k r hr hnamed)
  · rw [Function.update_self]
    exact hshows

/-- A read outside every other handler's window takes the lock or stays outside. -/
theorem Owned.afterRead (h : Owned jobId id table phases log) {i : ℕ} {k : Option ℤ}
    {job : Model} (hget : table.getOrCreateByJobId jobId k = some job)
    (hphase : (phases i).active = false) (hfree : ∀ j, (phases j).isMarking = false) :
    Owned jobId id table (Function.update phases i (.afterRead job)) log := by
  cases hactive : (Phase.afterRead job).active with
  | false => exact h.pass hphase hactive
  | true =>
    obtain ⟨hmarking,hid,hdeleting,hdeleted⟩ := Phase.afterRead_active hactive
    obtain ⟨row,j,hrow,hothers,hshows⟩ := h.owner
    obtain rfl := h.read hrow hget hid
    have hidle : (phases j).active = false := by
      by_contra hj
      rw [hshows.deleting (by simpa using hj) (hfree j)] at hdeleting
      cases hdeleting
    have hall (k : ℕ) (_ : k ≠ i) : (phases k).active = false := by
      by_cases hk : k = j
      · rw [hk]
        exact hidle
      · exact hothers k hk
    have hlog : .returned true ∉ log := by
      intro hmem
      rw [((Phase.Shows.idle hidle).mp hshows).2 hmem] at hdeleted
      cases hdeleted
    rw [hmarking]
    exact h.next hrow hall ⟨rfl,hdeleting,hlog⟩ h.settled

theorem Owned.advance (h : Owned jobId id table phases log) {i : ℕ} {phase phase' : Phase}
    {c : Choice} (hphase : phases i = phase) (hstep : Advance jobId table phase c table' phase')
    (hfree : phase = .reading → ∀ j, (phases j).isMarking = false) :
    Owned jobId id table' (Function.update phases i phase') (log ++ happened phase c phase') := by
  cases hstep with
  | start =>
    rw [happened_nil rfl rfl,List.append_nil]
    exact h.pass (by rw [hphase]; rfl) rfl
  | report =>
    rw [happened_nil rfl rfl,List.append_nil]
    exact h.pass (by rw [hphase]; rfl) rfl
  | @read k job hget =>
    rw [happened_nil rfl (Phase.afterRead_isCalling job),List.append_nil]
    exact h.afterRead hget (by rw [hphase]; rfl) (hfree rfl)
  | @mark job savedId _ hsave =>
    obtain ⟨row,hrow,hothers,hshows⟩ := h.own (i := i) (by rw [hphase]; rfl)
    rw [hphase] at hshows
    obtain ⟨hid,-,hlog⟩ := hshows
    rw [table.keyed id row hrow] at hid
    have hsaved := JobTable.saveJob_savedId hsave (by rw [hid]; exact h.positive)
    have hlog' : .returned true ∉ log ++ [.started] := by simpa using hlog
    exact h.save hsave hid hothers ⟨hsaved.trans hid,rfl,hlog'⟩ (settled_started h.settled hlog)
  | @answer job deleted =>
    obtain ⟨row,hrow,hothers,hshows⟩ := h.own (i := i) (by rw [hphase]; rfl)
    rw [hphase] at hshows
    obtain ⟨hid,hdeleting,hlog⟩ := hshows
    rw [show happened (.calling job) (.answered deleted) _ = [.returned deleted] from rfl]
    refine h.next hrow hothers ⟨hid,hdeleting,?_⟩ (settled_returned h.settled)
    intro hmem
    simpa [hlog,eq_comm] using hmem
  | @release job deleted savedId _ hsave =>
    obtain ⟨row,hrow,hothers,hshows⟩ := h.own (i := i) (by rw [hphase]; rfl)
    rw [hphase] at hshows
    obtain ⟨hid,-,hlog⟩ := hshows
    rw [table.keyed id row hrow] at hid
    have hafter : (if deleted then Phase.reporting else .ended).isCalling = false := by
      cases deleted <;> rfl
    rw [happened_nil rfl hafter,List.append_nil]
    cases deleted with
    | true => exact h.save hsave hid hothers ⟨rfl,fun _ => rfl⟩ h.settled
    | false =>
      exact h.save hsave hid hothers ⟨rfl,fun hmem => Bool.noConfusion (hlog hmem)⟩ h.settled

theorem Standing.get {threads : List Task} (h : Standing jobId threads phases) {i : ℕ}
    {t : Task} (ht : threads[i]? = some t) : ∃ copy, t = (phases i).task jobId copy := by
  have hi := h i
  rw [ht] at hi
  exact hi

theorem Standing.arrive {threads : List Task} (h : Standing jobId threads phases) :
    Standing jobId (threads ++ [.delete jobId])
      (Function.update phases threads.length .arrived) := by
  intro i
  rcases lt_trichotomy i threads.length with hlt | rfl | hgt
  · rw [List.getElem?_append_left hlt,Function.update_of_ne hlt.ne]
    exact h i
  · simpa using ⟨none,rfl⟩
  · have hi := h i
    rw [List.getElem?_eq_none hgt.le] at hi
    rw [List.getElem?_eq_none (by simpa using hgt),Function.update_of_ne hgt.ne']
    exact hi

theorem Standing.turn {s s' : State Shared Task} {i : ℕ} {t : Task} {c : Choice}
    {phase : Phase} {copy : Option Model} (h : Standing jobId s.threads phases)
    (hturn : Turn (deletes jobId) s s' i t c (phase.task jobId copy) []) :
    Standing jobId s'.threads (Function.update phases i phase) := by
  intro j
  by_cases hji : j = i
  · rw [hji,hturn.self,Function.update_self]
    exact ⟨copy,rfl⟩
  · have hj := h j
    rw [Function.update_of_ne hji]
    rcases lt_or_ge j s.threads.length with hlt | hge
    · rw [hturn.other hji hlt]
      exact hj
    · rw [List.getElem?_eq_none hge] at hj
      rw [hturn.fresh hge]
      exact hj

/-- The handlers and the row of a state, with the calls that were made so far. -/
def Locked (jobId id : ℤ) (s : State Shared Task) (log : List Event) : Prop :=
  ∃ phases, Standing jobId s.threads phases ∧ Owned jobId id s.shared.table phases log

theorem events_turn {s s' : State Shared Task} {i : ℕ} {c : Choice} {before after : Phase}
    {copy copy' : Option Model}
    (hturn : Turn (deletes jobId) s s' i (before.task jobId copy) c (after.task jobId copy') []) :
    events jobId s (.run i c) = happened before c after := by
  simp only [events,hturn.step,hturn.thread,Option.any_some,hturn.self,Phase.calls_task,happened]

theorem isMarking_of_undisturbed {s : State Shared Task} {i : ℕ} {c : Choice}
    {copy : Option Model} (hstanding : Standing jobId s.threads phases)
    (hthread : s.threads[i]? = some (Phase.reading.task jobId copy))
    (hfree : Undisturbed s (.run i c)) (j : ℕ) : (phases j).isMarking = false := by
  have hall := hfree (by rw [hthread]; rfl)
  cases hj : s.threads[j]? with
  | none =>
    have hended := hstanding j
    rw [hj] at hended
    rw [hended]
    rfl
  | some t =>
    obtain ⟨copy,rfl⟩ := hstanding.get hj
    have hmark := List.all_eq_true.mp hall _ (List.mem_of_getElem? hj)
    rwa [Phase.marks_task,Bool.not_eq_true'] at hmark

theorem locked_step (s : State Shared Task) (a : Move Task Choice) (s' : State Shared Task)
    (log : List Event) (h : Locked jobId id s log) (hfree : Undisturbed s a)
    (hstep : (deletes jobId).machine.step s a = some s') :
    Locked jobId id s' (log ++ events jobId s a) := by
  obtain ⟨phases,hstanding,howned⟩ := h
  cases a with
  | arrive t =>
    obtain ⟨hentry,rfl⟩ := step_arrive hstep
    cases t with
    | delete k =>
      obtain rfl : k = jobId := by simpa [deletes] using hentry
      refine ⟨_,hstanding.arrive,?_⟩
      have hended := hstanding s.threads.length
      rw [List.getElem?_eq_none le_rfl] at hended
      rw [show events k s (.arrive (.delete k)) = [] from rfl,List.append_nil]
      exact howned.pass (by rw [hended]; rfl) rfl
    | _ => cases hentry
  | run i c =>
    obtain ⟨t,t',new,hturn⟩ := step_run hstep
    obtain ⟨copy,rfl⟩ := hstanding.get hturn.thread
    obtain ⟨rfl,phase,copy',rfl,hadvance⟩ := advance_of_exec hturn.exec
    refine ⟨_,hstanding.turn hturn,?_⟩
    rw [events_turn hturn]
    refine howned.advance rfl hadvance fun hreading => ?_
    have hthread := hturn.thread
    rw [hreading] at hthread
    exact isMarking_of_undisturbed hstanding hthread hfree

theorem Locked.runsOnce {s : State Shared Task} (h : Locked jobId id s log) :
    RunsOnce id s log := by
  obtain ⟨phases,hstanding,howned⟩ := h
  obtain ⟨row,k,hrow,hothers,hshows⟩ := howned.owner
  have howner {i : ℕ} {t : Task} (ht : s.threads[i]? = some t) (hcalls : calls t = true) :
      i = k := by
    obtain ⟨copy,rfl⟩ := hstanding.get ht
    rw [Phase.calls_task] at hcalls
    by_contra hi
    have hinactive := hothers i hi
    cases hphase : phases i with
    | calling job =>
      rw [hphase] at hinactive
      cases hinactive
    | _ =>
      rw [hphase] at hcalls
      cases hcalls
  refine ⟨fun i j t u ht hu hti hui => (howner ht hti).trans (howner hu hui).symm,
    howned.settled,fun hfinished => ⟨row,hrow,?_⟩⟩
  have hidle : (phases k).active = false := by
    cases ht : s.threads[k]? with
    | none =>
      have hended := hstanding k
      rw [ht] at hended
      rw [hended]
      rfl
    | some t =>
      obtain ⟨copy,rfl⟩ := hstanding.get ht
      exact Phase.active_of_finished jobId copy _ (hfinished _ (List.mem_of_getElem? ht))
  exact ((Phase.Shows.idle hidle).mp hshows).1

theorem locked_initial {table : JobTable} {row : Model} (h : Existing table jobId id row)
    (statuses : StatusTable) : Locked jobId id (initial table statuses) [] := by
  refine ⟨fun _ => .ended,fun _ => rfl,h.positive,h.sole,⟨row,0,h.stored,fun _ _ => rfl,?_⟩,
    List.Pairwise.nil⟩
  exact ⟨h.deleting,fun hmem => absurd hmem List.not_mem_nil⟩

end Invariant

/-- If no handler reads the row between another's read and its mark, one bundle call runs
at a time, none starts after a successful one, and the flag is cleared in the end. -/
theorem delete_runs_once {table : JobTable} {statuses : StatusTable} {jobId id : ℤ}
    {row : Model} (hexists : Existing table jobId id row) {moves : List (Move Task Choice)}
    {s : State Shared Task}
    (hrun : (deletes jobId).machine.run (initial table statuses) moves = some s)
    (hmeets : (deletes jobId).machine.Meets Undisturbed (initial table statuses) moves) :
    RunsOnce id s ((deletes jobId).machine.log (events jobId) (initial table statuses) moves) := by
  have hlocked := StepMachine.log_invariant locked_step (locked_initial hexists statuses) hmeets hrun
  exact hlocked.runsOnce

theorem existing_ended : Existing endedTable 7 1 (endedJob.stored 1) where
  positive := by decide
  stored := JobTable.row?_insert_self _ _ _
  named := by decide
  sole k r hr _ := by
    by_contra hk
    rw [endedTable,JobTable.row?_insert_other hk] at hr
    cases hr
  running := rfl
  submitting := rfl
  deleting := rfl
  deleted := rfl

/-- One handler deletes the job while another reads the marked row and gives up. -/
def overlappingDeletes : List (Move Task Choice) :=
  [.arrive (.delete 7),.arrive (.delete 7),.run 0 .go,.run 1 .go,.run 0 (.row (some 1)),
    .run 0 (.saved 1),.run 1 (.row (some 1)),.run 0 (.answered true),.run 0 (.saved 1),.run 0 .go]

theorem delete_runs_once_overlapping : ∃ s,
    (deletes 7).machine.run (initial endedTable .empty) overlappingDeletes = some s ∧
      RunsOnce 1 s
        ((deletes 7).machine.log (events 7) (initial endedTable .empty) overlappingDeletes) := by
  have hsome : ((deletes 7).machine.run (initial endedTable .empty) overlappingDeletes).isSome =
      true := by decide +kernel
  obtain ⟨s,hs⟩ := Option.isSome_iff_exists.mp hsome
  exact ⟨s,hs,delete_runs_once existing_ended hs (by decide +kernel)⟩

/-- Both handlers read the row before either marks it; the second calls the bundle after
the first call has deleted the job. -/
def racingDeletes : List (Move Task Choice) :=
  [.arrive (.delete 7),.arrive (.delete 7),.run 0 .go,.run 1 .go,.run 0 (.row (some 1)),
    .run 1 (.row (some 1)),.run 0 (.saved 1),.run 0 (.answered true),.run 1 (.saved 1)]

theorem racingDeletes_not_once : Existing endedTable 7 1 (endedJob.stored 1) ∧ ∃ s,
    (deletes 7).machine.run (initial endedTable .empty) racingDeletes = some s ∧
      ¬ RunsOnce 1 s
        ((deletes 7).machine.log (events 7) (initial endedTable .empty) racingDeletes) := by
  have hsome : ((deletes 7).machine.run (initial endedTable .empty) racingDeletes).isSome =
      true := by decide +kernel
  obtain ⟨s,hs⟩ := Option.isSome_iff_exists.mp hsome
  refine ⟨existing_ended,s,hs,fun h => ?_⟩
  have hlog : ¬ Settled
      ((deletes 7).machine.log (events 7) (initial endedTable .empty) racingDeletes) := by
    decide +kernel
  exact hlog h.settled

end DeleteOnce
end JobControllerClient
