import JobControllerClient.JobSubmit

/-! What becomes of a successful submission: the row its handler saves last, and the
handlers of repeated `SUBMIT_JOB` messages that save the row after it. -/
namespace JobControllerClient
namespace JobSubmission

open JobTable (Model i64Max wireUlong wireOptionalId)
open JobSubmit Interleaving

/-- The row says that the job runs under the scheduler id the bundle returned. -/
def Recorded (schedulerId : UInt64) (row : Model) : Prop :=
  row.submitting = false ∧ row.running = true ∧ row.schedulerId = some (capSchedulerId schedulerId)

def RowRecorded (x : Shared) (r : ℤ) (schedulerId : UInt64) : Prop :=
  ∃ row, x.table.row? r = some row ∧ Recorded schedulerId row

/-- Handler `t` writes row `r` with choice `c`, and not in the duplicate branch. -/
def actsOn (r : ℤ) : Handler → Choice → Bool
  | .duplicate _, _ => false
  | t, .saved id => (pendingSave t).isSome && decide (id = r)
  | t, .deleted => (pendingDelete t).any fun job => decide (wireUlong job.id = r)
  | _, _ => false

def onlyDuplicates (r : ℤ) (s : State Shared Handler) : Move Handler Choice → Bool
  | .arrive _ => true
  | .run i c => s.threads[i]?.all fun t => !actsOn r t c

def NoDuplicate (r : ℤ) (_ : Shared) (_ : ℕ) (t : Option Handler) : Prop :=
  ∀ job, t = some (.duplicate job) → job.id ≠ r

/-- A row in the duplicate branch was read while it was being submitted. -/
def DuplicateSubmitting (_ : Shared) (_ : ℕ) (t : Option Handler) : Prop :=
  ∀ job, t = some (.duplicate job) → job.submitting = true

section Step

variable {r : ℤ} {schedulerId : UInt64} {s s' : State Shared Handler}
variable {i : ℕ} {t t' : Handler} {c : Choice} {new : List Handler}

theorem spawned_not_duplicate (h : exec s.shared i t c = some (s'.shared,t',new)) {u : Handler}
    (hu : u ∈ new) (job : Model) : some u ≠ some (.duplicate job) := by
  obtain ⟨checked,rfl⟩ := exec_spawned h u hu
  intro heq
  cases heq

theorem recorded_turn (h : RowRecorded s.shared r schedulerId) (hno : Each (NoDuplicate r) s)
    (hm : onlyDuplicates r s (.run i c) = true) (ht : Turn system s s' i t c t' new) :
    RowRecorded s'.shared r schedulerId := by
  obtain ⟨row,hrow,hrec⟩ := h
  simp only [onlyDuplicates,ht.thread,Option.all_some,Bool.not_eq_true'] at hm
  have hkeep : s'.shared.table.row? r = s.shared.table.row? r := by
    rcases exec_table ht.exec with htable | ⟨job,id,rfl,hjob,hsave⟩ | ⟨job,rfl,hjob,hdel⟩
    · rw [htable]
    · rw [JobTable.saveJob_eq_insert hsave]
      refine JobTable.row?_insert_other fun hr => ?_
      subst hr
      have hid := JobTable.id_of_saveJob_existing hsave hrow
      cases t with
      | duplicate dup =>
        obtain rfl := Option.some.inj hjob
        exact hno i dup ht.thread hid
      | _ => simp [actsOn,hjob] at hm
    · rw [hdel]
      refine JobTable.row?_deleteJob_other fun hr => ?_
      cases t with
      | rejected jobId job' =>
        obtain rfl := Option.some.inj hjob
        simp [actsOn,pendingDelete,hr] at hm
      | _ => cases hjob
  exact ⟨row,by rw [hkeep]; exact hrow,hrec⟩

theorem noDuplicate_turn (h : RowRecorded s.shared r schedulerId) (hno : Each (NoDuplicate r) s)
    (ht : Turn system s s' i t c t' new) : Each (NoDuplicate r) s' := by
  refine hno.turn ht ?_ (fun j o _ _ ho => ho) ?_
  · rintro - job heq hid
    obtain rfl := Option.some.inj heq
    obtain ⟨-,-,row',hrow',hsub⟩ := exec_duplicate ht.exec
    obtain ⟨row,hrow,hrec⟩ := h
    rw [hid,hrow] at hrow'
    obtain rfl := Option.some.inj hrow'
    cases hsub.symm.trans hrec.1
  · intro j u hu _ job heq
    exact (spawned_not_duplicate ht.exec hu job heq).elim

/-- As long as only duplicates act on the row and none of them is armed, the result stays. -/
theorem recorded_step {move : Move Handler Choice}
    (h : RowRecorded s.shared r schedulerId ∧ Each (NoDuplicate r) s)
    (hm : onlyDuplicates r s move = true) (hs : system.machine.step s move = some s') :
    RowRecorded s'.shared r schedulerId ∧ Each (NoDuplicate r) s' := by
  cases move with
  | arrive t =>
    obtain ⟨hentry,rfl⟩ := step_arrive hs
    refine ⟨h.1,h.2.arrive fun j _ job heq => ?_⟩
    obtain rfl := Option.some.inj heq
    cases hentry
  | run i c =>
    obtain ⟨t,t',new,ht⟩ := step_run hs
    exact ⟨recorded_turn h.1 h.2 hm ht,noDuplicate_turn h.1 h.2 ht⟩

theorem duplicateSubmitting_step {move : Move Handler Choice} (h : Each DuplicateSubmitting s)
    (hs : system.machine.step s move = some s') : Each DuplicateSubmitting s' := by
  cases move with
  | arrive t =>
    obtain ⟨hentry,rfl⟩ := step_arrive hs
    refine h.arrive fun j _ job heq => ?_
    obtain rfl := Option.some.inj heq
    cases hentry
  | run i c =>
    obtain ⟨t,t',new,ht⟩ := step_run hs
    refine h.turn ht ?_ (fun j o _ _ ho => ho) ?_
    · rintro - job heq
      obtain rfl := Option.some.inj heq
      exact (exec_duplicate ht.exec).2.1
    · intro j u hu _ job heq
      exact (spawned_not_duplicate ht.exec hu job heq).elim

end Step

theorem duplicateSubmitting_run {table : JobTable} {moves : List (Move Handler Choice)}
    {s : State Shared Handler} (hrun : system.machine.run (initial table) moves = some s) :
    Each DuplicateSubmitting s :=
  StepMachine.invariant_of_step (fun _ _ _ h hs => duplicateSubmitting_step h hs)
    (fun j job heq => by simp [initial] at heq) hrun

theorem capSchedulerId_pos {schedulerId : UInt64} (h : schedulerId ≠ 0) :
    0 < capSchedulerId schedulerId := by
  have hpos : 0 < schedulerId.toNat := Nat.pos_of_ne_zero fun h0 => h (UInt64.toNat_inj.mp h0)
  simp only [capSchedulerId,i64Max]
  omega

theorem recorded_submittedRow {schedulerId : UInt64} (h : schedulerId ≠ 0) (job : Model) (r : ℤ) :
    Recorded schedulerId ((submittedRow schedulerId job).stored r) := by
  have hpos := capSchedulerId_pos h
  have hwire : wireUlong (capSchedulerId schedulerId) = capSchedulerId schedulerId := by
    rw [wireUlong,if_neg (by omega)]
  refine ⟨rfl,rfl,?_⟩
  simp only [Model.stored,submittedRow,wireOptionalId,Option.getD_some,hwire]
  rw [if_neg (by omega)]

theorem recorded_finalSave {s s' : State Shared Handler} {i : ℕ} {jobId r : ℤ}
    {schedulerId : UInt64} {job : Model}
    (hi : s.threads[i]? = some (.submitted jobId schedulerId job)) (hne : schedulerId ≠ 0)
    (hsave : system.machine.step s (.run i (.saved r)) = some s') :
    0 < r ∧ RowRecorded s'.shared r schedulerId ∧ s'.threads[i]? = some .done ∧
      ∀ j, j ≠ i → s'.threads[j]? = s.threads[j]? := by
  obtain ⟨t,t',new,ht⟩ := step_run hsave
  obtain rfl := Option.some.inj (hi.symm.trans ht.thread)
  have hexec := ht.exec
  simp only [system,JobSubmit.exec,Option.map_eq_some_iff,Prod.mk.injEq] at hexec
  obtain ⟨table,htable,hx,rfl,rfl⟩ := hexec
  refine ⟨JobTable.savedId_pos htable,?_,ht.self,fun j hj => ?_⟩
  · refine ⟨_,?_,recorded_submittedRow hne job r⟩
    rw [← hx,Shared.reportSuccess_table,JobTable.saveJob_eq_insert htable]
    exact JobTable.row?_insert_self _ r _
  · rw [ht.threads,List.append_nil,List.getElem?_set_ne (Ne.symm hj)]

theorem duplicate_overwrites {s : State Shared Handler} {j : ℕ} {dup : Model}
    (hj : s.threads[j]? = some (.duplicate dup)) (hid : 0 < dup.id) :
    ∃ s', system.machine.step s (.run j (.saved dup.id)) = some s' ∧
      s'.shared.table.row? dup.id = some (dup.stored dup.id) := by
  have hsave := JobTable.saveJob_existing (t := s.shared.table) dup hid
  refine ⟨⟨{ s.shared with table := s.shared.table.insert dup.id dup },s.threads.set j .leaving⟩,
    ?_,JobTable.row?_insert_self _ _ _⟩
  simp [machine,step,hj,system,JobSubmit.exec,hsave]

/-- After the final save of a handler whose submission returned a scheduler id, the row holds
the result; it keeps it through every later run in which only duplicates write the row if and
only if no handler was already armed to save that row as a duplicate. -/
theorem submission_kept_iff (table : JobTable) (moves : List (Move Handler Choice))
    (s s' : State Shared Handler) (i : ℕ) (jobId r : ℤ) (schedulerId : UInt64) (job : Model)
    (hrun : system.machine.run (initial table) moves = some s)
    (hi : s.threads[i]? = some (.submitted jobId schedulerId job)) (hne : schedulerId ≠ 0)
    (hsave : system.machine.step s (.run i (.saved r)) = some s') :
    RowRecorded s'.shared r schedulerId ∧
    ((∀ later s'', system.machine.Meets (fun s move => onlyDuplicates r s move = true) s' later →
        system.machine.run s' later = some s'' → RowRecorded s''.shared r schedulerId) ↔
      ∀ (j : ℕ) (dup : Model), s.threads[j]? = some (.duplicate dup) → dup.id ≠ r) := by
  obtain ⟨hpos,hrec,hdone,hothers⟩ := recorded_finalSave hi hne hsave
  refine ⟨hrec,fun hkept j dup hj hid => ?_,fun hno later s'' hm hlater => ?_⟩
  · subst hid
    have hji : j ≠ i := by
      rintro rfl
      cases hi.symm.trans hj
    have hj' : s'.threads[j]? = some (.duplicate dup) := (hothers j hji).trans hj
    obtain ⟨u,hu,hrow⟩ := duplicate_overwrites hj' hpos
    have hmeets : system.machine.Meets (fun s move => onlyDuplicates dup.id s move = true) s'
        [.run j (.saved dup.id)] := ⟨by simp [onlyDuplicates,hj',actsOn],by simp [hu,StepMachine.Meets]⟩
    obtain ⟨row,hrow',hsub,-⟩ := hkept _ u hmeets
      ((StepMachine.run_cons_eq_some _).mpr ⟨u,hu,rfl⟩)
    have hsubmitting := duplicateSubmitting_run hrun j dup hj
    obtain rfl := Option.some.inj (hrow.symm.trans hrow')
    cases hsub.symm.trans hsubmitting
  · have hnone : Each (NoDuplicate r) s' := by
      intro j dup hj
      by_cases hji : j = i
      · subst hji
        cases hdone.symm.trans hj
      · exact hno j dup ((hothers j hji).symm.trans hj)
    exact (StepMachine.invariant (fun _ _ _ h hm hs => recorded_step h hm hs)
      ⟨hrec,hnone⟩ hm hlater).1

/-- One handler runs alone up to the answer of the bundle. -/
def soloSubmission : List (Move Handler Choice) :=
  [.arrive (.arrived 5 "bundle"),.run 0 (.connected true),.run 0 .go,.run 0 (.row none),
    .run 0 (.saved 1),.run 0 .go,.run 0 (.workingDirectory "/work"),.run 0 (.saved 1),
    .run 0 (.scheduler 42)]

theorem submission_kept_solo :
    ∃ s s', system.machine.run (initial JobTable.empty) soloSubmission = some s ∧
      system.machine.step s (.run 0 (.saved 1)) = some s' ∧
      ∀ later s'', system.machine.Meets (fun s move => onlyDuplicates 1 s move = true) s' later →
        system.machine.run s' later = some s'' → RowRecorded s''.shared 1 42 := by
  refine ⟨_,_,rfl,rfl,(submission_kept_iff JobTable.empty soloSubmission _ _ 0 5 1 42 _
    rfl rfl (by decide) rfl).2.mpr fun j dup hj => ?_⟩
  cases j with
  | zero => cases hj
  | succ j => cases hj

/-- A second message for the job is handled up to its save while the first is submitting. -/
def racedSubmission : List (Move Handler Choice) :=
  [.arrive (.arrived 5 "bundle"),.run 0 (.connected true),.run 0 .go,.run 0 (.row none),
    .run 0 (.saved 1),.run 0 .go,.run 0 (.workingDirectory "/work"),.run 0 (.saved 1),
    .arrive (.arrived 5 "bundle"),.run 1 (.connected true),.run 1 .go,.run 1 (.row (some 1)),
    .run 0 (.scheduler 42)]

/-- The duplicate's save restores the row it had read, and the scheduler id is lost. -/
theorem racedSubmission_loses_result :
    ∃ s s' s'' job, system.machine.run (initial JobTable.empty) racedSubmission = some s ∧
      s.threads[0]? = some (.submitted 5 42 job) ∧
      system.machine.step s (.run 0 (.saved 1)) = some s' ∧
      onlyDuplicates 1 s' (.run 1 (.saved 1)) = true ∧
      system.machine.step s' (.run 1 (.saved 1)) = some s'' ∧
      s''.shared.table.row? 1 = some
        { id := 1, jobId := some 5, schedulerId := none, submitting := true, submittingCount := 1,
          bundleHash := "bundle", workingDirectory := "/work", running := false } :=
  ⟨_,_,_,_,rfl,rfl,rfl,rfl,rfl,rfl⟩

end JobSubmission
end JobControllerClient
