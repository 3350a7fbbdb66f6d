import JobControllerClient.DbRecords
import Mathlib.Data.List.AList

/-! The remote status table as `db/mod.rs` sees it: rows read by job, or by job and `what`,
saved one by one and deleted by a list of ids. Every row is in the range of the parser. -/
namespace JobControllerClient
namespace StatusTable

open JobTable DbRecords

def u32Max : ℕ := 2^32 - 1

/-- The row that a save of the status leaves, read back through `parse_status`. -/
def asRead (status : Status) (savedId : ℤ) : Status := { status.stored savedId with
  state := min (status.stored savedId).state i32Max }

/-- What every row read from the server satisfies. -/
structure Stored (id : ℤ) (row : Status) : Prop where
  keyed : row.id = id
  positive : 0 < id
  nonneg : 0 ≤ row.state
  bounded : row.state ≤ i32Max

theorem stored_asRead (status : Status) {id : ℤ} (hid : 0 < id) : Stored id (asRead status id) := by
  refine ⟨rfl,hid,?_,min_le_right _ _⟩
  simp only [asRead,Status.stored,le_min_iff]
  constructor
  · split
    · decide
    · omega
  · decide

end StatusTable

structure StatusTable where
  rows : AList fun _ : ℤ => DbRecords.Status
  stored : ∀ id row, rows.lookup id = some row → StatusTable.Stored id row

namespace StatusTable

open JobTable DbRecords

def empty : StatusTable := ⟨∅,by simp⟩

def row? (t : StatusTable) (id : ℤ) : Option Status := t.rows.lookup id

def insert (t : StatusTable) (id : ℤ) (hid : 0 < id) (status : Status) : StatusTable where
  rows := t.rows.insert id (asRead status id)
  stored k row h := by
    by_cases hk : k = id
    · subst hk
      rw [AList.lookup_insert,Option.some.injEq] at h
      rw [← h]
      exact stored_asRead status hid
    · rw [AList.lookup_insert_ne hk] at h
      exact t.stored k row h

/-- `save_status`: a zero id asks for a fresh row, any other id overwrites its row. -/
def save (t : StatusTable) (status : Status) (savedId : ℤ) : Option StatusTable :=
  if h : 0 < savedId ∧ if wireUlong status.id = 0 then t.row? savedId = none
      else savedId = status.id then
    some (t.insert savedId h.1 status)
  else none

def erase (t : StatusTable) (id : ℤ) : StatusTable where
  rows := t.rows.erase (wireUlong id)
  stored k row h := by
    by_cases hk : k = wireUlong id
    · rw [hk,AList.lookup_erase] at h
      cases h
    · rw [AList.lookup_erase_ne hk] at h
      exact t.stored k row h

/-- `delete_status_by_id_list`. -/
def delete (t : StatusTable) (ids : List ℤ) : StatusTable := ids.foldl erase t

/-- The rows that `get_job_status_by_job_id` asks for. -/
def byJob (t : StatusTable) (jobId : ℤ) : List Status :=
  (t.rows.entries.map Sigma.snd).filter fun row => row.jobId = wireUlong jobId

/-- The rows that `get_job_status_by_job_id_and_what` asks for. -/
def byWhat (t : StatusTable) (jobId : ℤ) (what : String) : List Status :=
  (t.byJob jobId).filter fun row => row.what = what

variable {t t' : StatusTable} {row : Status} {id jobId savedId : ℤ} {status : Status}

theorem mem_byJob : row ∈ t.byJob jobId ↔ t.row? row.id = some row ∧ row.jobId = wireUlong jobId := by
  simp only [byJob,List.mem_filter,List.mem_map,decide_eq_true_eq]
  refine and_congr_left fun _ => ⟨?_,?_⟩
  · rintro ⟨⟨id,r⟩,hmem,hr⟩
    obtain rfl : r = row := hr
    have hrow : t.rows.lookup id = some r := AList.mem_lookup_iff.mpr hmem
    rw [(t.stored id r hrow).keyed]
    exact hrow
  · intro hrow
    exact ⟨⟨row.id,row⟩,AList.mem_lookup_iff.mp hrow,rfl⟩

theorem mem_byWhat {what : String} :
    row ∈ t.byWhat jobId what ↔ row ∈ t.byJob jobId ∧ row.what = what := by
  simp [byWhat]

theorem stored_of_mem (h : row ∈ t.byJob jobId) : Stored row.id row :=
  t.stored _ _ (mem_byJob.mp h).1

theorem row?_insert {hid : 0 < savedId} : (t.insert savedId hid status).row? id =
    if id = savedId then some (asRead status savedId) else t.row? id := by
  by_cases h : id = savedId
  · subst h
    simp [row?,insert]
  · simp [row?,insert,h]

theorem save_eq_some (h : t.save status savedId = some t') :
    (∀ id, t'.row? id = if id = savedId then some (asRead status savedId) else t.row? id) ∧
      if wireUlong status.id = 0 then t.row? savedId = none else savedId = status.id := by
  by_cases hid : 0 < savedId ∧ if wireUlong status.id = 0 then t.row? savedId = none
      else savedId = status.id
  · rw [save,dif_pos hid,Option.some.injEq] at h
    rw [← h]
    exact ⟨fun id => row?_insert,hid.2⟩
  · rw [save,dif_neg hid] at h
    cases h

theorem exists_save (t : StatusTable) (status : Status) :
    ∃ id t', t.save status id = some t' := by
  by_cases hfresh : wireUlong status.id = 0
  · obtain ⟨id,hid⟩ := exists_fresh t.rows
    exact ⟨id,_,by rw [save,dif_pos (by rw [if_pos hfresh]; exact hid)]⟩
  · have hpos := pos_of_wireUlong hfresh
    exact ⟨status.id,_,by rw [save,dif_pos (by rw [if_neg hfresh]; exact ⟨hpos,rfl⟩)]⟩

theorem row?_erase : (t.erase savedId).row? id =
    if id = wireUlong savedId then none else t.row? id := by
  by_cases h : id = wireUlong savedId
  · subst h
    simp [row?,erase]
  · simp [row?,erase,h]

theorem row?_delete (ids : List ℤ) : (t.delete ids).row? id =
    if id ∈ ids.map wireUlong then none else t.row? id := by
  induction ids generalizing t with
  | nil => simp [delete]
  | cons first ids ih =>
    have herase : t.delete (first :: ids) = (t.erase first).delete ids := rfl
    rw [herase,ih,row?_erase]
    by_cases hid : id = wireUlong first <;> simp [hid]

theorem mem_byJob_delete {ids : List ℤ} : row ∈ (t.delete ids).byJob jobId ↔
    row ∈ t.byJob jobId ∧ row.id ∉ ids.map wireUlong := by
  rw [mem_byJob,mem_byJob,row?_delete]
  split <;> simp_all

theorem mem_byJob_save (h : t.save status savedId = some t') : row ∈ t'.byJob jobId ↔
    (row.id = savedId ∧ row = asRead status savedId ∧ row.jobId = wireUlong jobId) ∨
      (row.id ≠ savedId ∧ row ∈ t.byJob jobId) := by
  rw [mem_byJob,mem_byJob,(save_eq_some h).1]
  split <;> simp_all [eq_comm]

theorem wireUlong_id (h : row ∈ t.byJob jobId) : wireUlong row.id = row.id := by
  have hpos := (stored_of_mem h).positive
  rw [wireUlong,if_neg (by omega)]

end StatusTable
end JobControllerClient
