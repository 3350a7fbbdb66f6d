import Mathlib.Data.List.AList
import Mathlib.Tactic

/-! The remote job table as `db/mod.rs` sees it: whole rows, read by job id and
overwritten by `save_job`. Each request is one atomic action on the table. -/
namespace JobControllerClient
namespace JobTable

def i64Max : ℤ := 2^63 - 1
def i32Max : ℤ := 2^31 - 1

/-- `job::Model`, with its derived default. -/
structure Model where
  id : ℤ := 0
  jobId : Option ℤ := none
  schedulerId : Option ℤ := none
  submitting : Bool := false
  submittingCount : ℤ := 0
  bundleHash : String := ""
  workingDirectory : String := ""
  running : Bool := false
  deleted : Bool := false
  deleting : Bool := false
  deriving DecidableEq

/-- `u64::try_from(..).unwrap_or(0)`. -/
def wireUlong (v : ℤ) : ℤ := if v < 0 then 0 else v

/-- A missing id travels as zero, and zero is read back as missing. -/
def wireOptionalId (v : Option ℤ) : Option ℤ :=
  if wireUlong (v.getD 0) = 0 then none else some (wireUlong (v.getD 0))

/-- The row that a save of `job` leaves under `savedId`, as the next read returns it. -/
def Model.stored (job : Model) (savedId : ℤ) : Model := { job with
  id := savedId
  jobId := wireOptionalId job.jobId
  schedulerId := wireOptionalId job.schedulerId
  submittingCount := if job.submittingCount < 0 then i32Max else job.submittingCount }

end JobTable

/-- Every row is filed under its own primary key. -/
structure JobTable where
  rows : AList fun _ : ℤ => JobTable.Model
  keyed : ∀ id row, rows.lookup id = some row → row.id = id

namespace JobTable

def empty : JobTable := ⟨∅,by simp⟩

def row? (t : JobTable) (id : ℤ) : Option Model := t.rows.lookup id

def insert (t : JobTable) (id : ℤ) (job : Model) : JobTable where
  rows := t.rows.insert id (job.stored id)
  keyed k row h := by
    by_cases hk : k = id
    · subst hk
      rw [AList.lookup_insert,Option.some.injEq] at h
      rw [← h]
      rfl
    · rw [AList.lookup_insert_ne hk] at h
      exact t.keyed k row h

/-- `save_job`: a zero id asks for a fresh row, any other id overwrites its row. -/
def saveJob (t : JobTable) (job : Model) (savedId : ℤ) : Option JobTable :=
  if wireUlong job.id = 0 then
    if 0 < savedId ∧ t.row? savedId = none then some (t.insert savedId job) else none
  else if savedId = job.id then some (t.insert savedId job) else none

def deleteJob (t : JobTable) (id : ℤ) : JobTable where
  rows := t.rows.erase (wireUlong id)
  keyed k row h := by
    by_cases hk : k = wireUlong id
    · rw [hk,AList.lookup_erase] at h
      cases h
    · rw [AList.lookup_erase_ne hk] at h
      exact t.keyed k row h

def hasJobId (jobId : ℤ) (row : Model) : Bool := row.jobId.getD 0 = wireUlong jobId

/-- `get_or_create_by_job_id`, where the server names one of the rows that match. -/
def getOrCreateByJobId (t : JobTable) (jobId : ℤ) : Option ℤ → Option Model
  | some id => (t.row? id).filter (hasJobId jobId)
  | none => if t.rows.entries.any (fun e => hasJobId jobId e.2) then none else some {}

variable {t t' : JobTable} {job row : Model} {id savedId : ℤ}

theorem row?_insert_self (t : JobTable) (id : ℤ) (job : Model) :
    (t.insert id job).row? id = some (job.stored id) := by
  simp [row?,insert]

theorem row?_insert_other {k : ℤ} (h : k ≠ id) : (t.insert id job).row? k = t.row? k := by
  simp [row?,insert,h]

theorem row?_deleteJob_other {k : ℤ} (h : k ≠ wireUlong id) :
    (t.deleteJob id).row? k = t.row? k := by
  simp [row?,deleteJob,h]

theorem saveJob_eq_insert (h : t.saveJob job savedId = some t') : t' = t.insert savedId job := by
  simp only [saveJob] at h
  split at h <;> split at h <;> simp_all

/-- A fresh row never takes the place of an existing one. -/
theorem id_of_saveJob_existing (h : t.saveJob job savedId = some t')
    (hrow : t.row? savedId = some row) : job.id = savedId := by
  simp only [saveJob] at h
  split at h <;> split at h <;> simp_all

theorem savedId_pos (h : t.saveJob job savedId = some t') : 0 < savedId := by
  simp only [saveJob] at h
  by_cases hfresh : wireUlong job.id = 0
  · rw [if_pos hfresh] at h
    split at h
    · rename_i hid
      exact hid.1
    · cases h
  · rw [if_neg hfresh] at h
    split at h
    · rename_i hid
      simp only [wireUlong] at hfresh
      omega
    · cases h

theorem saveJob_existing (job : Model) (hid : 0 < job.id) :
    t.saveJob job job.id = some (t.insert job.id job) := by
  have hwire : wireUlong job.id ≠ 0 := by
    rw [wireUlong,if_neg (by omega)]
    omega
  simp [saveJob,hwire]

theorem saveJob_savedId (h : t.saveJob job savedId = some t') (hid : 0 < job.id) :
    savedId = job.id := by
  have hwire : wireUlong job.id ≠ 0 := by
    rw [wireUlong,if_neg (by omega)]
    omega
  simp only [saveJob,if_neg hwire] at h
  split at h
  · assumption
  · cases h

theorem getOrCreate_found (h : t.getOrCreateByJobId id (some savedId) = some job) :
    t.row? savedId = some job ∧ job.id = savedId := by
  have hrow := (Option.filter_eq_some_iff.mp h).1
  exact ⟨hrow,t.keyed _ _ hrow⟩

theorem getOrCreate_sole {jobId : ℤ} {choice : Option ℤ} (hrow : t.row? id = some row)
    (hnamed : hasJobId jobId row = true)
    (hsole : ∀ k r, t.row? k = some r → hasJobId jobId r = true → k = id)
    (hget : t.getOrCreateByJobId jobId choice = some job) : job = row := by
  cases choice with
  | none =>
    have hany : t.rows.entries.any (fun e => hasJobId jobId e.2) = true :=
      List.any_eq_true.mpr ⟨⟨id,row⟩,AList.mem_lookup_iff.mp hrow,hnamed⟩
    rw [getOrCreateByJobId,if_pos hany] at hget
    cases hget
  | some k =>
    have hfound := Option.filter_eq_some_iff.mp hget
    obtain rfl := hsole k job hfound.1 hfound.2
    exact Option.some.inj (hfound.1.symm.trans hrow)

theorem exists_fresh {β : ℤ → Type} (rows : AList β) : ∃ id, 0 < id ∧ rows.lookup id = none := by
  obtain ⟨id,hpos,hid⟩ := (Set.Ioi_infinite (0 : ℤ)).exists_notMem_finset rows.keys.toFinset
  exact ⟨id,hpos,AList.lookup_eq_none.mpr fun hmem => hid (List.mem_toFinset.mpr hmem)⟩

theorem pos_of_wireUlong (h : wireUlong id ≠ 0) : 0 < id := by
  simp only [wireUlong] at h
  split at h <;> omega

theorem exists_saveJob (t : JobTable) (job : Model) : ∃ id t', t.saveJob job id = some t' := by
  by_cases hfresh : wireUlong job.id = 0
  · obtain ⟨id,hid⟩ := exists_fresh t.rows
    have hfree : 0 < id ∧ t.row? id = none := hid
    exact ⟨id,_,by rw [saveJob,if_pos hfresh,if_pos hfree]⟩
  · exact ⟨job.id,_,saveJob_existing job (pos_of_wireUlong hfresh)⟩

/-- The server can always answer: with a matching row, or with none if there is none. -/
theorem exists_getOrCreate (t : JobTable) (jobId : ℤ) :
    ∃ choice job, t.getOrCreateByJobId jobId choice = some job := by
  by_cases hany : t.rows.entries.any (fun e => hasJobId jobId e.2) = true
  · obtain ⟨⟨id,row⟩,hmem,hnamed⟩ := List.any_eq_true.mp hany
    have hrow : t.row? id = some row := AList.mem_lookup_iff.mpr hmem
    exact ⟨some id,row,Option.filter_eq_some_iff.mpr ⟨hrow,hnamed⟩⟩
  · exact ⟨none,{},by rw [getOrCreateByJobId,if_neg hany]⟩

end JobTable
end JobControllerClient
