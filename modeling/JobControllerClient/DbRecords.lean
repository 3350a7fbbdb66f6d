import JobControllerClient.JobTable
import JobControllerClient.WireRoundTrip

/-! The records of `db/mod.rs` on the wire. The parsers clamp what they read into the
ranges of `i64` and `i32`, the savers clamp what they write into unsigned fields; a
record that came from a parser is in the common range and survives the trip. -/
namespace JobControllerClient
namespace DbRecords

open Messaging WireRoundTrip JobTable

def parseResponse (resp : Message) : Message := resp.cloneForPayloadReading

/-- `jobstatus::Model`. -/
structure Status where
  id : ℤ
  what : String
  state : ℤ
  jobId : ℤ
  deriving DecidableEq

/-- The row that a save of the status leaves, as the next read returns it. -/
def Status.stored (status : Status) (savedId : ℤ) : Status := { status with
  id := savedId
  jobId := wireUlong status.jobId
  state := if status.state < 0 then i32Max else status.state }

/-- `i64::try_from(..).unwrap_or(i64::MAX)`. -/
def capUlong (v : UInt64) : ℤ := min v.toNat i64Max

/-- `i32::try_from(..).unwrap_or(i32::MAX)`. -/
def capUint (v : UInt32) : ℤ := min v.toNat i32Max

def popOptionalId : StateM Message (Option ℤ) := do
  let v ← Message.popUlong
  return if capUlong v ≠ 0 then some (capUlong v) else none

def popCount : StateM Message ℕ := do
  let count ← Message.popUint
  return min count.toNat (← get).remainingLen

def parseJob : StateM Message Model := do
  let id ← Message.popUlong
  let jobId ← popOptionalId
  let schedulerId ← popOptionalId
  let submitting ← Message.popBool
  let submittingCount ← Message.popUint
  let bundleHash ← Message.popString
  let workingDirectory ← Message.popString
  let running ← Message.popBool
  let deleting ← Message.popBool
  let deleted ← Message.popBool
  return ⟨capUlong id,jobId,schedulerId,submitting,capUint submittingCount,bundleHash,
    workingDirectory,running,deleted,deleting⟩

def parseStatus : StateM Message Status := do
  let id ← Message.popUlong
  let jobId ← Message.popUlong
  let what ← Message.popString
  let state ← Message.popUint
  return ⟨capUlong id,what,capUint state,capUlong jobId⟩

def parseMany {α : Type} (parse : StateM Message α) : ℕ → StateM Message (List α)
  | 0 => return []
  | n + 1 => do
    let first ← parse
    let rest ← parseMany parse n
    return first :: rest

/-- `pop_count` and the loop of `get_running_jobs` and `get_job_statuses`. -/
def parseList {α : Type} (parse : StateM Message α) : StateM Message (List α) := do
  let count ← popCount
  parseMany parse count

def getRunningJobs (raw : Message) : List Model := (parseList parseJob (parseResponse raw)).1

def getJobStatuses (raw : Message) : List Status := (parseList parseStatus (parseResponse raw)).1

/-- `u64::try_from(..).unwrap_or(0)`. -/
def sendUlong (v : ℤ) : UInt64 := UInt64.ofNat (wireUlong v).toNat

/-- `u32::try_from(..).unwrap_or(u32::MAX)`. -/
def sendUint (v : ℤ) : UInt32 := if v < 0 then UInt32.ofNat (2^32 - 1) else UInt32.ofNat v.toNat

def jobFields (job : Model) : List Value :=
  [.ulong (sendUlong job.id),.ulong (sendUlong (job.jobId.getD 0)),
    .ulong (sendUlong (job.schedulerId.getD 0)),.bool job.submitting,
    .uint (sendUint job.submittingCount),.string job.bundleHash,.string job.workingDirectory,
    .bool job.running,.bool job.deleting,.bool job.deleted]

def statusFields (status : Status) : List Value :=
  [.ulong (sendUlong status.id),.ulong (sendUlong status.jobId),.string status.what,
    .uint (sendUint status.state)]

def databaseSource : String := "database"

def saveJobMessage (job : Model) : Message :=
  pushAll (.new MessageId.dbJobSave .medium databaseSource) (jobFields job)

def saveStatusMessage (status : Status) : Message :=
  pushAll (.new MessageId.dbJobstatusSave .medium databaseSource) (statusFields status)

section Fields

variable {v : ℤ} {m : Message}

theorem capUlong_nonneg (v : UInt64) : 0 ≤ capUlong v := by
  simp only [capUlong,i64Max]
  omega

theorem capUlong_le (v : UInt64) : capUlong v ≤ i64Max := by
  simp only [capUlong]
  omega

theorem capUint_nonneg (v : UInt32) : 0 ≤ capUint v := by
  simp only [capUint,i32Max]
  omega

theorem capUint_le (v : UInt32) : capUint v ≤ i32Max := by
  simp only [capUint]
  omega

/-- An id that fits `i64` is read back as the wire carries it. -/
theorem capUlong_sendUlong (h : v ≤ i64Max) : capUlong (sendUlong v) = wireUlong v := by
  simp only [capUlong,sendUlong,wireUlong,i64Max] at h ⊢
  rw [UInt64.toNat_ofNat']
  split <;> omega

/-- A negative count is sent as `u32::MAX` and read back as `i32::MAX`. -/
theorem capUint_sendUint (h : v ≤ i32Max) :
    capUint (sendUint v) = if v < 0 then i32Max else v := by
  simp only [capUint,sendUint,i32Max] at h ⊢
  split
  · simp
  · rw [UInt32.toNat_ofNat']
    omega

theorem reads_optionalId {id : Option ℤ} (h : id.getD 0 ≤ i64Max) :
    Reads popOptionalId (Value.ulong (sendUlong (id.getD 0))).block (wireOptionalId id) := by
  have hpop := (reads_ulong (sendUlong (id.getD 0))).map fun v =>
    if capUlong v ≠ 0 then some (capUlong v) else none
  rw [capUlong_sendUlong h] at hpop
  have hid : wireOptionalId id =
      if wireUlong (id.getD 0) ≠ 0 then some (wireUlong (id.getD 0)) else none := by
    simp only [wireOptionalId,ne_eq,ite_not]
  rw [hid]
  exact hpop

end Fields

section Records

variable {job : Model} {status : Status} {m : Message}

/-- The numbers fit their Rust types and the strings exist in memory. -/
structure JobFits (job : Model) : Prop where
  id : job.id ≤ i64Max
  jobId : job.jobId.getD 0 ≤ i64Max
  schedulerId : job.schedulerId.getD 0 ≤ i64Max
  submittingCount : job.submittingCount ≤ i32Max
  bundleHash : (utf8 job.bundleHash).length ≤ allocationMax
  workingDirectory : (utf8 job.workingDirectory).length ≤ allocationMax

theorem reads_job (h : JobFits job) :
    Reads parseJob ((jobFields job).flatMap Value.block) (job.stored (wireUlong job.id)) := by
  have hcount := capUint_sendUint h.submittingCount
  have hid := capUlong_sendUlong h.id
  simp only [Model.stored,← hcount,← hid]
  refine (reads_ulong _).bind ((reads_optionalId h.jobId).bind
    ((reads_optionalId h.schedulerId).bind ((reads_bool _).bind ((reads_uint _).bind
      ((reads_string h.bundleHash).bind ((reads_string h.workingDirectory).bind
        ((reads_bool _).bind ((reads_bool _).bind ?_))))))))
  exact (reads_bool _).bind (Reads.value _)

theorem reads_status (hid : status.id ≤ i64Max) (hjob : status.jobId ≤ i64Max)
    (hstate : status.state ≤ i32Max) (hwhat : (utf8 status.what).length ≤ allocationMax) :
    Reads parseStatus ((statusFields status).flatMap Value.block)
      (status.stored (wireUlong status.id)) := by
  simp only [Status.stored,← capUlong_sendUlong hid,← capUlong_sendUlong hjob,
    ← capUint_sendUint hstate]
  exact (reads_ulong _).bind ((reads_ulong _).bind ((reads_string hwhat).bind
    ((reads_uint _).bind (Reads.value _))))

theorem bind_result {α β : Type} {first : StateM Message α} {next : α → StateM Message β}
    {P : α → Prop} {Q : β → Prop} (h : ∀ m, P (first m).1)
    (hnext : ∀ v, P v → ∀ m, Q (next v m).1) (m : Message) : Q ((first >>= next) m).1 :=
  hnext _ (h m) _

/-- A missing id is never written as zero. -/
def LoadedId (id : Option ℤ) : Prop := ∀ v ∈ id, 0 < v ∧ v ≤ i64Max

structure Loaded (job : Model) : Prop where
  id : 0 ≤ job.id ∧ job.id ≤ i64Max
  jobId : LoadedId job.jobId
  schedulerId : LoadedId job.schedulerId
  submittingCount : 0 ≤ job.submittingCount ∧ job.submittingCount ≤ i32Max

theorem popOptionalId_loaded (m : Message) : LoadedId (popOptionalId m).1 := by
  intro v hv
  have hv : v ∈ if capUlong m.popUlong.1 ≠ 0 then some (capUlong m.popUlong.1) else none := hv
  have hnonneg := capUlong_nonneg m.popUlong.1
  have hle := capUlong_le m.popUlong.1
  split at hv
  · cases hv
    omega
  · cases hv

theorem parseJob_loaded : ∀ m, Loaded (parseJob m).1 := by
  refine bind_result (P := fun _ => True) (fun _ => trivial) fun id _ => ?_
  refine bind_result popOptionalId_loaded fun jobId hjob => ?_
  refine bind_result popOptionalId_loaded fun schedulerId hscheduler m => ?_
  exact ⟨⟨capUlong_nonneg id,capUlong_le id⟩,hjob,hscheduler,⟨capUint_nonneg _,capUint_le _⟩⟩

theorem wireUlong_eq {v : ℤ} (h : 0 ≤ v) : wireUlong v = v := by
  simp only [wireUlong,ite_eq_right_iff]
  omega

theorem wireOptionalId_eq {id : Option ℤ} (h : LoadedId id) :
    wireOptionalId id = id := by
  cases id with
  | none => rfl
  | some v =>
    have hpos := (h v rfl).1
    simp only [wireOptionalId,Option.getD_some,wireUlong_eq hpos.le,ite_eq_right_iff]
    omega

theorem getD_le {id : Option ℤ} (h : LoadedId id) : id.getD 0 ≤ i64Max := by
  cases id with
  | none => simp [i64Max]
  | some v => exact (h v rfl).2

/-- Saving a record as it was loaded stores the same record. -/
theorem Loaded.stored_eq (h : Loaded job) : job.stored (wireUlong job.id) = job := by
  have hcount : ¬ job.submittingCount < 0 := not_lt.mpr h.submittingCount.1
  simp only [Model.stored,wireUlong_eq h.id.1,wireOptionalId_eq h.jobId,wireOptionalId_eq h.schedulerId,
    if_neg hcount]

def JobAllocated (job : Model) : Prop :=
  (utf8 job.bundleHash).length ≤ allocationMax ∧
    (utf8 job.workingDirectory).length ≤ allocationMax

theorem reads_loaded_job (h : Loaded job) (ha : JobAllocated job) :
    Reads parseJob ((jobFields job).flatMap Value.block) job := by
  have hread := reads_job ⟨h.id.2,getD_le h.jobId,getD_le h.schedulerId,h.submittingCount.2,
    ha.1,ha.2⟩
  rwa [h.stored_eq] at hread

structure StatusLoaded (status : Status) : Prop where
  id : 0 ≤ status.id ∧ status.id ≤ i64Max
  jobId : 0 ≤ status.jobId ∧ status.jobId ≤ i64Max
  state : 0 ≤ status.state ∧ status.state ≤ i32Max

theorem parseStatus_loaded (m : Message) : StatusLoaded (parseStatus m).1 :=
  ⟨⟨capUlong_nonneg _,capUlong_le _⟩,⟨capUlong_nonneg _,capUlong_le _⟩,
    ⟨capUint_nonneg _,capUint_le _⟩⟩

theorem StatusLoaded.stored_eq (h : StatusLoaded status) :
    status.stored (wireUlong status.id) = status := by
  have hstate : ¬ status.state < 0 := not_lt.mpr h.state.1
  simp only [Status.stored,wireUlong_eq h.id.1,wireUlong_eq h.jobId.1,if_neg hstate]

def StatusAllocated (status : Status) : Prop := (utf8 status.what).length ≤ allocationMax

theorem reads_loaded_status (h : StatusLoaded status) (ha : StatusAllocated status) :
    Reads parseStatus ((statusFields status).flatMap Value.block) status := by
  have hread := reads_status h.id.2 h.jobId.2 h.state.2 ha
  rwa [h.stored_eq] at hread

end Records

section Lists

variable {α : Type} {parse : StateM Message α} {block : α → List UInt8} {L : List α}

theorem reads_many (h : ∀ v ∈ L, Reads parse (block v) v) :
    Reads (parseMany parse L.length) (L.flatMap block) L := by
  induction L with
  | nil => exact Reads.value []
  | cons v L ih =>
    have hfirst := h v List.mem_cons_self
    have hrest := ih fun u hu => h u (List.mem_cons_of_mem v hu)
    have htail : Reads (parseMany parse L.length >>= fun rest => pure (v :: rest))
        (L.flatMap block ++ []) (v :: L) := hrest.bind (Reads.value (v :: L))
    rw [List.append_nil] at htail
    exact hfirst.bind htail

theorem length_le_flatMap (h : ∀ v ∈ L, 0 < (block v).length) :
    L.length ≤ (L.flatMap block).length := by
  induction L with
  | nil => simp
  | cons v L ih =>
    have hfirst := h v List.mem_cons_self
    have hrest := ih fun u hu => h u (List.mem_cons_of_mem v hu)
    simp only [List.flatMap_cons,List.length_append,List.length_cons]
    omega

/-- The clamp of the count to the bytes that are left never cuts a list short. -/
theorem parseList_eq (h : ∀ v ∈ L, Reads parse (block v) v)
    (hpos : ∀ v ∈ L, 0 < (block v).length) (hlength : L.length < 2^32) {m : Message}
    (hm : m.unread = LittleEndian.encode 4 L.length ++ L.flatMap block) :
    (parseList parse m).1 = L := by
  have hunread : m.unread.length = 4 + (L.flatMap block).length := by simp [hm]
  simp only [Message.unread,List.length_drop] at hunread
  have hcount := reads_uint (UInt32.ofNat L.length)
  rw [UInt32.toNat_ofNat_of_lt' hlength] at hcount
  have hpop := hcount.unread (by omega) hm
  set m' : Message := { m with index := m.index + (LittleEndian.encode 4 L.length).length }
    with hm'
  have hmin : min (UInt32.ofNat L.length).toNat m'.remainingLen = L.length := by
    have hle := length_le_flatMap hpos
    simp only [UInt32.toNat_ofNat_of_lt' hlength,hm',Message.remainingLen,
      LittleEndian.encode_length]
    omega
  have hrest : m'.unread = L.flatMap block ++ [] := by
    have hdrop := congrArg (List.drop 4) hm
    simpa [Message.unread,hm',List.drop_append] using hdrop
  have hmany := (reads_many h).unread (by simp [hm']; omega) hrest
  have hlist : (parseList parse m).1 = (parseMany parse
      (min m.popUint.1.toNat m.popUint.2.remainingLen) m.popUint.2).1 := rfl
  rw [hlist,hpop,hmin,hmany]

end Lists

theorem saveJob_payload (job : Model) :
    (saveJobMessage job).clonePayloadBytes = (jobFields job).flatMap Value.block :=
  clonePayloadBytes_pushAll _ _ (by decide) _

theorem saveStatus_payload (status : Status) :
    (saveStatusMessage status).clonePayloadBytes = (statusFields status).flatMap Value.block :=
  clonePayloadBytes_pushAll _ _ (by decide) _

/-- A record that was loaded survives a save and the next load, wherever its field bytes
stand, and a counted list of such records is returned as it is. -/
theorem records_survive :
    (∀ m, JobAllocated (parseJob m).1 →
      Reads parseJob (saveJobMessage (parseJob m).1).clonePayloadBytes (parseJob m).1) ∧
    (∀ m, StatusAllocated (parseStatus m).1 →
      Reads parseStatus (saveStatusMessage (parseStatus m).1).clonePayloadBytes
        (parseStatus m).1) ∧
    (∀ (L : List Model) (raw : Message), L.length < 2^32 →
      (∀ job ∈ L, JobAllocated job ∧ ∃ m, (parseJob m).1 = job) →
      (parseResponse raw).unread = LittleEndian.encode 4 L.length ++
        L.flatMap (fun job => (saveJobMessage job).clonePayloadBytes) →
      getRunningJobs raw = L) ∧
    ∀ (L : List Status) (raw : Message), L.length < 2^32 →
      (∀ status ∈ L, StatusAllocated status ∧ ∃ m, (parseStatus m).1 = status) →
      (parseResponse raw).unread = LittleEndian.encode 4 L.length ++
        L.flatMap (fun status => (saveStatusMessage status).clonePayloadBytes) →
      getJobStatuses raw = L := by
  simp only [saveJob_payload,saveStatus_payload]
  refine ⟨fun m ha => reads_loaded_job (parseJob_loaded m) ha,
    fun m ha => reads_loaded_status (parseStatus_loaded m) ha,?_,?_⟩
  · intro L raw hlength hL hraw
    refine parseList_eq (fun job hjob => ?_) (fun job _ => ?_) hlength hraw
    · obtain ⟨ha,m,rfl⟩ := hL job hjob
      exact reads_loaded_job (parseJob_loaded m) ha
    · simp [jobFields,Value.block]
  · intro L raw hlength hL hraw
    refine parseList_eq (fun status hstatus => ?_) (fun status _ => ?_) hlength hraw
    · obtain ⟨ha,m,rfl⟩ := hL status hstatus
      exact reads_loaded_status (parseStatus_loaded m) ha
    · simp [statusFields,Value.block]

def runningJob : Model :=
  { id := 11, jobId := some 22, schedulerId := some 33, submittingCount := 4,
    bundleHash := "hash", workingDirectory := "/w", running := true }

def runningJobsResponse : Message :=
  pushAll (.new MessageId.dbResponse .highest databaseSource) (.uint 1 :: jobFields runningJob)

theorem records_survive_runningJob : getRunningJobs runningJobsResponse = [runningJob] := by
  have ha : JobAllocated runningJob := ⟨by decide,by decide⟩
  have hloaded : Loaded runningJob := by
    refine ⟨by decide,?_,?_,by decide⟩ <;>
    · intro v hv
      cases hv
      decide
  have hread := reads_loaded_job hloaded ha
    ⟨0,"",.lowest,(jobFields runningJob).flatMap Value.block,0⟩ [] [] (by simp) rfl
  have hraw : (parseResponse runningJobsResponse).unread = LittleEndian.encode 4 1 ++
      (saveJobMessage runningJob).clonePayloadBytes := by
    have hsource : (utf8 databaseSource).length ≤ allocationMax := by decide
    have hparsed := clonePayloadBytes_pushAll MessageId.dbResponse .highest hsource
      (.uint 1 :: jobFields runningJob)
    rw [List.flatMap_cons,← saveJob_payload] at hparsed
    exact hparsed
  refine records_survive.2.2.1 [runningJob] _ (by decide) ?_ (by simpa using hraw)
  intro job hjob
  rw [List.mem_singleton] at hjob
  rw [hjob]
  exact ⟨ha,_,congrArg Prod.fst hread⟩

end DbRecords
end JobControllerClient
