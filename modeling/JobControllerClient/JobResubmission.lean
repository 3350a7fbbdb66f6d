import JobControllerClient.JobSubmission

/-! How often `handle_job_submit` calls the bundle for one job. The count of duplicates in
the stored row never runs ahead of the messages handled since the last submission, so each
further submission has been paid for by `MAX_SUBMIT_COUNT` messages. -/
namespace JobControllerClient
namespace JobResubmission

open JobTable (Model hasJobId wireUlong wireOptionalId i32Max)
open JobSubmit Interleaving

def handles (jobId : ℤ) : Move Handler Choice → Bool
  | .arrive (.arrived id _) => id = jobId
  | .arrive _ => false
  | .run _ (.scheduler id) => id ≠ 0
  | .run _ _ => true

def preparing : Handler → Bool
  | .unlocking .. | .resolving .. | .directorySave .. => true
  | _ => false

def unread : Handler → Bool
  | .arrived .. | .locking .. | .getting .. => true
  | _ => false

inductive Event
  | message
  | submitCall
  deriving DecidableEq

def reads : Handler → Choice → Bool
  | .getting .., .row _ => true
  | _, _ => false

def begins : Handler → Choice → Bool
  | .firstSave .., .saved _ => true
  | _, _ => false

def calls : Handler → Choice → Bool
  | .directorySave .., .saved _ => true
  | _, _ => false

/-- A step delivers a message, or begins a call of the bundle's `submit`. -/
def events (s : State Shared Handler) : Move Handler Choice → List Event
  | .arrive _ => [.message]
  | .run i c => if s.threads[i]?.any (calls · c) then [.submitCall] else []

/-- `M` rows have been read and `k` submissions have been begun: the first is paid for by
one message and each further one by sixty, and the count of duplicates by the rest. -/
def Paid (k M : ℕ) (count : ℤ) : Prop := 0 ≤ count ∧ 60 * k + count ≤ M + 59

/-- The row is being submitted only with a count that is paid for. -/
def RowPaid (k M : ℕ) (row : Model) : Prop :=
  0 < k ∧ 0 ≤ row.submittingCount ∧ (row.submitting = true → Paid k M row.submittingCount)

/-- The job is the row `r` that the first submission created. -/
def Mine (jobId r : ℤ) (k : ℕ) (job : Model) : Prop :=
  0 < k ∧ job.id = r ∧ job.jobId = some jobId

def Carries (jobId r : ℤ) (k M : ℕ) (x : Shared) (j : ℕ) : Handler → Prop
  | .arrived id _ | .locking id _ => id = jobId
  | .getting id _ => id = jobId ∧ x.submitMutex = some j
  | .duplicate job => Mine jobId r k job ∧ Paid k M job.submittingCount ∧ x.submitMutex = some j
  | .known job => Mine jobId r k job ∧ 0 ≤ job.submittingCount ∧ job.submitting = false ∧
      x.submitMutex = some j
  | .firstSave _ job => (job.id = if k = 0 then 0 else r) ∧ job.jobId = some jobId ∧
      job.submittingCount = 0 ∧ Paid (k + 1) M 0 ∧ x.submitMutex = some j
  | .unlocking _ job => Mine jobId r k job ∧ job.submittingCount = 0 ∧ x.submitMutex = some j
  | .resolving _ job | .directorySave _ job | .submitting _ job | .submitted _ _ job =>
    Mine jobId r k job ∧ job.submittingCount = 0
  | .rejected .. => False
  | .leaving => x.submitMutex = some j
  | .checking job | .completing job _ => Mine jobId r k job ∧ 0 ≤ job.submittingCount ∧
      job.submitting = false
  | .done => True

structure Budget (jobId r : ℤ) (k M : ℕ) (s : State Shared Handler) : Prop where
  paid : Paid k M 0
  positive : 0 < k → 0 < r
  stored : 0 < k → ∃ row, s.shared.table.row? r = some row ∧ hasJobId jobId row = true
  rows : ∀ id row, s.shared.table.row? id = some row → hasJobId jobId row = true →
    id = r ∧ RowPaid k M row
  threads : ∀ (j : ℕ) t, s.threads[j]? = some t → Carries jobId r k M s.shared j t

variable {jobId r count : ℤ} {k k' M M' : ℕ} {s s' : State Shared Handler} {x x' : Shared}
  {i j : ℕ} {t t' : Handler} {c : Choice} {new : List Handler} {job row : Model}
  {bundleHash : String}

theorem Paid.mono (h : Paid k M count) (hM : M ≤ M') : Paid k M' count := by
  simp only [Paid] at h ⊢
  omega

theorem RowPaid.mono (h : RowPaid k M row) (hM : M ≤ M') : RowPaid k M' row :=
  ⟨h.1,h.2.1,fun hs => (h.2.2 hs).mono hM⟩

theorem hasJobId_iff (hpos : 0 < jobId) : hasJobId jobId row = true ↔ row.jobId = some jobId := by
  have hwire : wireUlong jobId = jobId := by
    rw [wireUlong,if_neg (by omega)]
  simp only [hasJobId,hwire,decide_eq_true_eq]
  cases row.jobId with
  | none =>
    simp only [Option.getD_none,reduceCtorEq,iff_false]
    omega
  | some id => simp

theorem stored_hasJobId (hpos : 0 < jobId) (h : job.jobId = some jobId) (id : ℤ) :
    hasJobId jobId (job.stored id) = true := by
  have hwire : wireUlong jobId = jobId := by
    rw [wireUlong,if_neg (by omega)]
  rw [hasJobId_iff hpos]
  simp only [Model.stored,h,wireOptionalId,Option.getD_some,hwire]
  rw [if_neg (by omega)]

theorem afterGet_found (hpos : 0 < jobId) (hrow : RowPaid k M row) (hid : row.id = r)
    (hjob : row.jobId = some jobId) (hmutex : x.submitMutex = some j) :
    Carries jobId r k (M + 1) x j (afterGet jobId bundleHash row) := by
  obtain ⟨hk,hcount,hpaid⟩ := hrow
  simp only [afterGet]
  split
  · rename_i hsub
    have hp := hpaid hsub.1
    refine ⟨⟨hk,hid,hjob⟩,?_,hmutex⟩
    simp only [Paid,saturatingIncrementSubmitCount,i32Max] at hp ⊢
    omega
  · rename_i hnot
    cases hsub : row.submitting with
    | true =>
      have hp := hpaid hsub
      simp only [hsub,true_and,not_lt] at hnot
      simp only [if_true,Option.some.injEq]
      rw [if_neg (by omega)]
      refine ⟨by rw [if_neg (by omega)]; exact hid,rfl,rfl,?_,hmutex⟩
      simp only [Paid,saturatingIncrementSubmitCount,i32Max,maxSubmitCount] at hp hnot ⊢
      omega
    | false =>
      simp only [Bool.false_eq_true,if_false,hjob,and_true]
      rw [if_pos (by omega)]
      exact ⟨⟨hk,hid,hjob⟩,hcount,hsub,hmutex⟩

theorem afterGet_fresh (hmutex : x.submitMutex = some j) :
    Carries jobId r 0 (M + 1) x j (afterGet jobId bundleHash {}) := by
  have hfirst : afterGet jobId bundleHash {} = .firstSave jobId
      { jobId := some jobId, bundleHash := bundleHash, submitting := true } := by
    simp [afterGet]
  rw [hfirst]
  refine ⟨rfl,rfl,rfl,?_,hmutex⟩
  simp only [Paid]
  omega

theorem Carries.mono (h : Carries jobId r k M x j t) (hM : M ≤ M')
    (hmutex : x.submitMutex = some j → x'.submitMutex = some j) :
    Carries jobId r k M' x' j t := by
  cases t <;> simp only [Carries] at h ⊢
  case getting => exact ⟨h.1,hmutex h.2⟩
  case duplicate => exact ⟨h.1,h.2.1.mono hM,hmutex h.2.2⟩
  case known => exact ⟨h.1,h.2.1,h.2.2.1,hmutex h.2.2.2⟩
  case firstSave => exact ⟨h.1,h.2.1,h.2.2.1,h.2.2.2.1.mono hM,hmutex h.2.2.2.2⟩
  case unlocking => exact ⟨h.1,h.2.1,hmutex h.2.2⟩
  case leaving => exact hmutex h
  all_goals exact h

theorem budget_kept (h : Budget jobId r k M s) (ht : Turn system s s' i t c t' new)
    (hM : M ≤ M') (htable : s'.shared.table = s.shared.table)
    (hmutex : ∀ j, j ≠ i → s.shared.submitMutex = some j → s'.shared.submitMutex = some j)
    (hself : Carries jobId r k M' s'.shared i t')
    (hnew : ∀ u ∈ new, ∀ j, Carries jobId r k M' s'.shared j u) : Budget jobId r k M' s' := by
  refine ⟨h.paid.mono hM,h.positive,by rw [htable]; exact h.stored,fun id row hrow hjob => ?_,
    fun j u hj => ?_⟩
  · rw [htable] at hrow
    obtain ⟨hid,hpaid⟩ := h.rows id row hrow hjob
    exact ⟨hid,hpaid.mono hM⟩
  · rcases ht.thread_cases hj with ⟨rfl,rfl⟩ | ⟨hji,hold⟩ | ⟨-,hmem⟩
    · exact hself
    · exact (h.threads j u hold).mono hM (hmutex j hji)
    · exact hnew u hmem j

theorem budget_same (h : Budget jobId r k M s) (ht : Turn system s s' i t c t' [])
    (hx : s'.shared = s.shared) (hself : Carries jobId r k M s.shared i t') :
    Budget jobId r k M s' := by
  rw [← hx] at hself
  exact budget_kept h ht le_rfl (by rw [hx]) (fun j _ h => by rwa [hx]) hself (by simp)

theorem budget_save (hpos : 0 < jobId) (h : Budget jobId r k M s)
    (ht : Turn system s s' i t c t' []) {id : ℤ}
    (hsave : s.shared.table.saveJob job id = some s'.shared.table) (hmine : Mine jobId r k job)
    (hpaid : RowPaid k M job) (hmutex : s'.shared.submitMutex = s.shared.submitMutex)
    (hself : id = r → Carries jobId r k M s'.shared i t') : Budget jobId r k M s' := by
  obtain ⟨hk,hid,hjob⟩ := hmine
  have hsaved : id = r := (JobTable.saveJob_savedId hsave (hid ▸ h.positive hk)).trans hid
  subst hsaved
  have htable := JobTable.saveJob_eq_insert hsave
  have hcount : ¬ job.submittingCount < 0 := not_lt.mpr hpaid.2.1
  refine ⟨h.paid,h.positive,fun _ => ⟨_,by rw [htable]; exact JobTable.row?_insert_self _ _ _,
    stored_hasJobId hpos hjob id⟩,fun id' row hrow hjob' => ?_,fun j u hj => ?_⟩
  · rw [htable] at hrow
    by_cases hid' : id' = id
    · subst hid'
      rw [JobTable.row?_insert_self,Option.some.injEq] at hrow
      subst hrow
      refine ⟨rfl,?_⟩
      simpa only [RowPaid,Model.stored,if_neg hcount] using hpaid
    · rw [JobTable.row?_insert_other hid'] at hrow
      exact h.rows id' row hrow hjob'
  · rcases ht.thread_cases hj with ⟨rfl,rfl⟩ | ⟨-,hold⟩ | ⟨-,hmem⟩
    · exact hself rfl
    · exact (h.threads j u hold).mono le_rfl (by rw [hmutex]; exact fun h => h)
    · cases hmem

theorem Carries.next {r' : ℤ} (h : Carries jobId r k M x j t) (hmutex : x.submitMutex ≠ some j)
    (hr : 0 < k → r' = r) : Carries jobId r' (k + 1) M x' j t := by
  have hmine : ∀ {job}, Mine jobId r k job → Mine jobId r' (k + 1) job :=
    fun h => ⟨Nat.succ_pos k,by rw [h.2.1,hr h.1],h.2.2⟩
  cases t <;> simp only [Carries] at h ⊢
  case getting => exact absurd h.2 hmutex
  case duplicate => exact absurd h.2.2 hmutex
  case known => exact absurd h.2.2.2 hmutex
  case firstSave => exact absurd h.2.2.2.2 hmutex
  case unlocking => exact absurd h.2.2 hmutex
  case leaving => exact absurd h hmutex
  case resolving | directorySave | submitting | submitted | checking | completing =>
    exact ⟨hmine h.1,h.2⟩
  all_goals exact h

/-- The save that begins a submission; it is paid for by the messages read so far. -/
theorem budget_firstSave (hpos : 0 < jobId) (h : Budget jobId r k M s) {id jid : ℤ}
    (ht : Turn system s s' i (.firstSave jid job) (.saved id) t' []) :
    Budget jobId id (k + 1) M s' := by
  obtain ⟨hid,hjob,hcount,hpaid,hmutex⟩ := h.threads i _ ht.thread
  have hexec := ht.exec
  simp only [system,JobSubmit.exec,Option.map_eq_some_iff,Prod.mk.injEq] at hexec
  obtain ⟨table,hsave,hx,rfl,-⟩ := hexec
  have hr : 0 < k → id = r := by
    intro hk
    rw [if_neg (by omega)] at hid
    exact (JobTable.saveJob_savedId hsave (hid ▸ h.positive hk)).trans hid
  have htable : s'.shared.table = s.shared.table.insert id job := by
    rw [← hx]
    exact JobTable.saveJob_eq_insert hsave
  refine ⟨hpaid,fun _ => JobTable.savedId_pos hsave,
    fun _ => ⟨_,by rw [htable]; exact JobTable.row?_insert_self _ _ _,stored_hasJobId hpos hjob id⟩,
    fun id' row hrow hjob' => ?_,fun j u hj => ?_⟩
  · rw [htable] at hrow
    by_cases hid' : id' = id
    · subst hid'
      rw [JobTable.row?_insert_self,Option.some.injEq] at hrow
      subst hrow
      refine ⟨rfl,?_⟩
      simp only [RowPaid,Model.stored,hcount]
      exact ⟨Nat.succ_pos k,le_rfl,fun _ => hpaid⟩
    · rw [JobTable.row?_insert_other hid'] at hrow
      obtain ⟨hold,hk,-⟩ := h.rows id' row hrow hjob'
      exact absurd (hold.trans (hr hk).symm) hid'
  · rcases ht.thread_cases hj with ⟨rfl,rfl⟩ | ⟨hji,hold⟩ | ⟨-,hmem⟩
    · exact ⟨⟨Nat.succ_pos k,rfl,hjob⟩,hcount,by rw [← hx]; exact hmutex⟩
    · refine (h.threads j u hold).next ?_ hr
      rw [hmutex,ne_eq,Option.some.injEq]
      exact Ne.symm hji
    · cases hmem

theorem afterGet_busy (jobId : ℤ) (bundleHash : String) (job : Model) :
    preparing (afterGet jobId bundleHash job) = false ∧
      unread (afterGet jobId bundleHash job) = false := by
  simp only [afterGet]
  (repeat' split) <;> exact ⟨rfl,rfl⟩

theorem count_preparing (h : exec x i t c = some (x',t',new)) :
    (if preparing t' then 1 else 0) + new.countP preparing + (if calls t c then 1 else 0) ≤
      (if preparing t then 1 else 0) + if begins t c then 1 else 0 := by
  cases JobSubmit.exec_step h with
  | get jobId hash id job hget hx =>
    rw [(afterGet_busy jobId hash job).1]
    simp [calls]
  | _ => simp [preparing,calls,begins]

theorem count_unread (h : exec x i t c = some (x',t',new)) :
    (if unread t' then 1 else 0) + new.countP unread + (if reads t c then 1 else 0) ≤
      if unread t then 1 else 0 := by
  cases JobSubmit.exec_step h with
  | get jobId hash id job hget hx =>
    rw [(afterGet_busy jobId hash job).2]
    simp [reads,unread]
  | _ => simp [unread,reads]

theorem budget_get (hpos : 0 < jobId) (h : Budget jobId r k M s) {hash : String} {id : Option ℤ}
    (ht : Turn system s s' i (.getting jobId hash) (.row id) t' new) :
    Budget jobId r k (M + 1) s' := by
  obtain ⟨-,hmutex⟩ := h.threads i _ ht.thread
  have hexec := ht.exec
  simp only [system,JobSubmit.exec,Option.map_eq_some_iff,Prod.mk.injEq] at hexec
  obtain ⟨row,hget,hx,rfl,rfl⟩ := hexec
  rw [hx] at hmutex
  refine budget_kept h ht (Nat.le_succ M) (by rw [hx]) (fun j _ h => by rwa [← hx]) ?_ (by simp)
  cases id with
  | some id =>
    obtain ⟨hrow,hid⟩ := JobTable.getOrCreate_found hget
    have hjob := (Option.filter_eq_some_iff.mp hget).2
    obtain ⟨hr,hpaid⟩ := h.rows id row hrow hjob
    exact afterGet_found hpos hpaid (hid.trans hr) ((hasJobId_iff hpos).mp hjob) hmutex
  | none =>
    simp only [JobTable.getOrCreateByJobId] at hget
    split at hget
    · cases hget
    · rename_i hnone
      obtain rfl := Option.some.inj hget
      obtain rfl : k = 0 := by
        by_contra hk
        obtain ⟨row,hrow,hjob⟩ := h.stored (Nat.pos_of_ne_zero hk)
        exact hnone (List.any_eq_true.mpr ⟨⟨r,row⟩,AList.mem_lookup_iff.mp hrow,hjob⟩)
      exact afterGet_fresh hmutex

theorem budget_other (hpos : 0 < jobId) (h : Budget jobId r k M s)
    (hm : handles jobId (.run i c) = true) (ht : Turn system s s' i t c t' new)
    (hbegins : begins t c = false) (hreads : reads t c = false) : Budget jobId r k M s' := by
  have hcarries := h.threads i t ht.thread
  have hstep := JobSubmit.exec_step ht.exec
  cases hstep with
  | get => cases hreads
  | saveFirst => cases hbegins
  | connected _ _ hx | resolve _ _ _ hx | submit _ _ _ _ hx | finished _ _ hx =>
    exact budget_same h ht hx hcarries
  | lock jobId hash hfree hx =>
    refine budget_kept h ht le_rfl (by rw [hx]) ?_ ⟨hcarries,by rw [hx]⟩ (by simp)
    intro j hji hj
    rw [hfree] at hj
    cases hj
  | getFailed jobId hash hx => exact budget_same h ht hx hcarries.2
  | saveDuplicate job id table hsave hx =>
    obtain ⟨hmine,hpaid,hmutex⟩ := hcarries
    refine budget_save hpos h ht (by rw [hx]; exact hsave) hmine ⟨hmine.1,hpaid.1,fun _ => hpaid⟩
      (by rw [hx]) fun _ => ?_
    rw [hx]
    exact hmutex
  | duplicateFailed job hx => exact budget_same h ht hx hcarries.2.2
  | spawnCheck job hx =>
    obtain ⟨hmine,hcount,hsubmitting,hmutex⟩ := hcarries
    refine budget_kept h ht le_rfl (by rw [hx]) (fun j _ h => by rwa [hx]) (hx ▸ hmutex) ?_
    intro u hu j
    rw [List.mem_singleton.mp hu]
    exact ⟨hmine,hcount,hsubmitting⟩
  | firstFailed jobId job hx => exact budget_same h ht hx hcarries.2.2.2.2
  | unlock jobId job hx =>
    obtain ⟨hmine,hcount,hmutex⟩ := hcarries
    refine budget_kept h ht le_rfl (by rw [hx]; rfl) ?_ ⟨hmine,hcount⟩ (by simp)
    intro j hji hj
    rw [hmutex,Option.some.injEq] at hj
    exact absurd hj.symm hji
  | saveDirectory jobId job id table hsave hx =>
    obtain ⟨⟨hk,hid,hjob⟩,hcount⟩ := hcarries
    refine budget_save hpos h ht (by rw [hx]; exact hsave) ⟨hk,hid,hjob⟩ ?_ (by rw [hx])
      fun hr => ⟨⟨hk,hr,hjob⟩,hcount⟩
    rw [RowPaid,hcount]
    exact ⟨hk,le_rfl,fun _ => h.paid⟩
  | reject => simp [handles] at hm
  | delete | deleteFailed => exact hcarries.elim
  | saveSubmitted jobId schedulerId job id table hsave hx =>
    obtain ⟨hmine,hcount⟩ := hcarries
    have hsubmitted : Mine _ r k (submittedRow schedulerId job) := hmine
    refine budget_save hpos h ht (by rw [hx]; exact hsave) hsubmitted ?_ (by rw [hx]; rfl)
      fun _ => trivial
    exact ⟨hmine.1,hcount.ge,fun hs => by cases hs⟩
  | leave hx =>
    refine budget_kept h ht le_rfl (by rw [hx]; rfl) ?_ trivial (by simp)
    intro j hji hj
    rw [Carries.eq_def] at hcarries
    rw [hcarries,Option.some.injEq] at hj
    exact absurd hj.symm hji
  | saveCompleted job status id table hsave hx =>
    obtain ⟨hmine,hcount,hsubmitting⟩ := hcarries
    have hcompleted : Mine _ r k { job with running := false } := hmine
    refine budget_save hpos h ht (by rw [hx]; exact hsave) hcompleted ?_ (by rw [hx]; rfl)
      fun _ => trivial
    refine ⟨hmine.1,hcount,fun hs => ?_⟩
    rw [hsubmitting] at hs
    cases hs
  | disconnected _ _ hx | directoryFailed _ _ hx | submittedFailed _ _ _ hx | unfinished _ hx
  | completedFailed _ _ hx =>
    exact budget_kept h ht le_rfl (hx ▸ rfl) (fun j _ h => by rw [hx]; exact h) trivial (by simp)

theorem budget_turn (hpos : 0 < jobId) (h : Budget jobId r k M s)
    (hm : handles jobId (.run i c) = true) (ht : Turn system s s' i t c t' new) :
    ∃ r', Budget jobId r' (k + if begins t c then 1 else 0) (M + if reads t c then 1 else 0) s' := by
  cases hbegins : begins t c with
  | true =>
    unfold begins at hbegins
    split at hbegins
    · obtain rfl : new = [] := by
        have hexec := ht.exec
        simp only [system,JobSubmit.exec,Option.map_eq_some_iff,Prod.mk.injEq] at hexec
        obtain ⟨-,-,-,-,rfl⟩ := hexec
        rfl
      exact ⟨_,budget_firstSave hpos h ht⟩
    · cases hbegins
  | false =>
    cases hreads : reads t c with
    | true =>
      unfold reads at hreads
      split at hreads
      · obtain ⟨rfl,-⟩ := h.threads i _ ht.thread
        exact ⟨r,budget_get hpos h ht⟩
      · cases hreads
    | false => exact ⟨r,budget_other hpos h hm ht hbegins hreads⟩

/-- The submissions begun and the calls they have led to, and the messages used up. -/
def Ledger (jobId : ℤ) (calls messages : ℕ) (s : State Shared Handler) : Prop :=
  ∃ r k M, Budget jobId r k M s ∧ calls + s.threads.countP preparing ≤ k ∧
    M + s.threads.countP unread ≤ messages

theorem ledger_step (hpos : 0 < jobId) {move : Move Handler Choice} {log : List Event}
    (h : Ledger jobId (log.count .submitCall) (log.count .message) s)
    (hm : handles jobId move = true) (hs : system.machine.step s move = some s') :
    Ledger jobId ((log ++ events s move).count .submitCall)
      ((log ++ events s move).count .message) s' := by
  obtain ⟨r,k,M,hb,hcalls,hmessages⟩ := h
  cases move with
  | arrive t =>
    obtain ⟨hentry,rfl⟩ := step_arrive hs
    cases t with
    | arrived id hash =>
      obtain rfl : id = jobId := by simpa [handles] using hm
      refine ⟨r,k,M,⟨hb.paid,hb.positive,hb.stored,hb.rows,fun j u hj => ?_⟩,?_,?_⟩
      · rcases arrive_cases hj with hold | ⟨-,rfl⟩
        · exact hb.threads j u hold
        · rfl
      · simpa [events,preparing] using hcalls
      · simp only [events,List.count_append,List.countP_append]
        have hone : List.countP unread [Handler.arrived id hash] = 1 := rfl
        have hmessage : List.count Event.message [Event.message] = 1 := rfl
        omega
    | _ => cases hentry
  | run i c =>
    obtain ⟨t,t',new,ht⟩ := step_run hs
    obtain ⟨r',hb'⟩ := budget_turn hpos hb hm ht
    have hprepared := count_preparing ht.exec
    have hread := count_unread ht.exec
    have hpreparing := ht.countP preparing
    have hunread := ht.countP unread
    have hevents : events s (.run i c) = if calls t c then [.submitCall] else [] := by
      simp [events,ht.thread]
    refine ⟨r',_,_,hb',?_,?_⟩
    · rw [List.count_append,hevents]
      have hcount : (if calls t c then [Event.submitCall] else []).count .submitCall =
          if calls t c then 1 else 0 := by split <;> rfl
      omega
    · rw [List.count_append,hevents]
      have hcount : (if calls t c then [Event.submitCall] else []).count .message = 0 := by
        split <;> rfl
      omega

theorem ledger_initial {table : JobTable} (hnone : ∀ id row, table.row? id = some row →
    hasJobId jobId row = false) : Ledger jobId 0 0 (initial table) := by
  refine ⟨0,0,0,⟨?_,by simp,by simp,fun id row hrow hjob => ?_,fun j t hj => ?_⟩,le_rfl,le_rfl⟩
  · simp [Paid]
  · rw [hnone id row hrow] at hjob
    cases hjob
  · simp [initial] at hj

/-- The bundle's `submit` is called at most once and once more for every `MAX_SUBMIT_COUNT`
messages after the first. -/
theorem resubmission_bounded (jobId : UInt32) (hne : jobId ≠ 0) (table : JobTable)
    (hnone : ∀ id row, table.row? id = some row → hasJobId jobId.toNat row = false)
    (moves : List (Move Handler Choice)) (s : State Shared Handler)
    (hrun : system.machine.run (initial table) moves = some s)
    (hmoves : ∀ move ∈ moves, handles jobId.toNat move = true) :
    let log := system.machine.log events (initial table) moves
    log.count .submitCall ≤ 1 + (log.count .message - 1) / maxSubmitCount.toNat := by
  intro log
  have hpos : (0 : ℤ) < jobId.toNat := by
    have hnat : jobId.toNat ≠ 0 := fun h => hne (UInt32.toNat_inj.mp h)
    omega
  have hmeets : system.machine.Meets (fun _ move => handles jobId.toNat move = true)
      (initial table) moves := by
    refine StepMachine.meets_iff.mpr fun before move after _ hsplit _ => hmoves move ?_
    rw [hsplit]
    exact List.mem_append_right before List.mem_cons_self
  have hledger := StepMachine.log_invariant
    (I := fun s (l : List Event) => Ledger jobId.toNat (l.count .submitCall) (l.count .message) s)
    (fun _ _ _ _ h hm hs => ledger_step hpos h hm hs) (l := []) (ledger_initial hnone) hmeets hrun
  rw [List.nil_append] at hledger
  obtain ⟨r,k,M,hb,hcalls,hmessages⟩ : Ledger jobId.toNat (log.count .submitCall)
    (log.count .message) s := hledger
  have hpaid := hb.paid
  simp only [Paid] at hpaid
  have hmax : maxSubmitCount.toNat = 60 := rfl
  rw [hmax]
  omega

/-- Two messages for one job lead to a single call. -/
theorem resubmission_bounded_raced :
    let log := system.machine.log events (initial .empty) JobSubmission.racedSubmission
    log.count .message = 2 ∧ log.count .submitCall = 1 ∧
      log.count .submitCall ≤ 1 + (log.count .message - 1) / maxSubmitCount.toNat := by
  have hnone : ∀ id row, JobTable.empty.row? id = some row →
      hasJobId ((5 : UInt32).toNat : ℤ) row = false := by
    intro id row hrow
    simp [JobTable.row?,JobTable.empty] at hrow
  exact ⟨by decide,by decide,resubmission_bounded 5 (by decide) .empty hnone
    JobSubmission.racedSubmission _ rfl (by decide)⟩

end JobResubmission
end JobControllerClient
