import JobControllerClient.ConnectionTasks
import JobControllerClient.QueueLocks

/-! The wake-ups of the scheduler. All generations of schedulers wait on one `Notify`,
and one that is superseded exits without passing its wake-up on. As long as no wake-up
goes to a superseded scheduler, the current one never sleeps on queued data. -/
namespace JobControllerClient
namespace SchedulerWakeup

open Interleaving Websocket

/-- The task has queued a message or set the ready flag and will call `notify_one`. -/
def notifying : Task → Bool
  | .queueing (.unlock _) _ | .queueing .notify _ | .reader _ .readyNotify => true
  | _ => false

def Pending (s : State) : Prop := ∃ t ∈ s.threads, notifying t = true

def Below (s : State) (p : ℕ) : Prop := ∃ q < p, (s.shared.queue q).hasData = true

/-- There is something to send and the server takes it. -/
def Loaded (s : State) : Prop := s.shared.serverReady = true ∧ Below s priorityLevels

/-- The calls of `notify_one` that are still to come. -/
def pendingCalls (s : State) : ℕ := s.threads.countP notifying

/-- Waiter `j` has been woken, or it will have been once the calls that are still to come are
made: each of them wakes the longest-waiting waiter. -/
def Reached (s : State) (j : ℕ) : Prop :=
  j ∈ (Notify.notifyOne^[pendingCalls s] s.shared.dataReady).woken

/-- The scheduler of the current connection, when it is parked while there is something
to send, has a permit or a wake-up that reaches it. -/
def NoLostWakeup (s : State) : Prop :=
  ∀ j : ℕ, s.threads[j]? = some (.scheduler s.shared.connectionId .parked) →
    s.shared.connectionClosed = false → Loaded s →
    s.shared.dataReady.permit = true ∨ Reached s j

def superseded (s : State) (w : ℕ) : Bool := s.threads[w]?.any fun
  | .scheduler conn _ => conn ≠ s.shared.connectionId
  | _ => false

/-- The next call of `notify_one` would wake a superseded scheduler. -/
def overtaken (s : State) : Bool := s.shared.dataReady.waiters.head?.any (superseded s)

/-- The step gives a wake-up or the stored permit to a superseded scheduler. -/
def swallows (s : State) : Move → Bool
  | .run i _ => s.threads[i]?.any fun
    | .queueing .notify _ | .reader _ .readyNotify => overtaken s
    | .scheduler conn .poll => s.shared.dataReady.permit && conn ≠ s.shared.connectionId
    | _ => false
  | _ => false

instance (s : State) : Decidable (Pending s) :=
  inferInstanceAs (Decidable (∃ t ∈ s.threads, notifying t = true))

instance (s : State) (p : ℕ) : Decidable (Below s p) :=
  inferInstanceAs (Decidable (∃ q < p, (s.shared.queue q).hasData = true))

instance (s : State) : Decidable (Loaded s) :=
  inferInstanceAs (Decidable (_ ∧ _))

variable {s s' : State} {x x' : Client} {i j p : ℕ} {t t' : Task} {c : Choice} {n : Next}
  {new : List Task} {move : Move}

def onNotify : Action → Bool
  | .notifyOne | .pollNotified | .resumeNotified => true
  | _ => false

theorem perform_dataReady {a : Action} {r : a.Answer} (h : x.perform i a = some (x',r)) :
    (onNotify a = false ∧ x'.dataReady = x.dataReady) ∨
      (a = .notifyOne ∧ x'.dataReady = x.dataReady.notifyOne) ∨
      (a = .pollNotified ∧ x'.dataReady = (x.dataReady.poll i).2) ∨
      (a = .resumeNotified ∧ x.dataReady.resume i = some x'.dataReady) := by
  cases a <;> simp only [Client.perform] at h <;> (repeat' split at h) <;>
    simp only [Option.some.injEq,Prod.mk.injEq,Option.map_eq_some_iff,reduceCtorEq] at h
  case resumeNotified =>
    obtain ⟨y,hy,rfl,-⟩ := h
    exact .inr (.inr (.inr ⟨rfl,hy⟩))
  case notifyOne =>
    obtain ⟨rfl,-⟩ := h
    exact .inr (.inl ⟨rfl,rfl⟩)
  case pollNotified =>
    obtain ⟨rfl,-⟩ := h
    exact .inr (.inr (.inl ⟨rfl,rfl⟩))
  all_goals first
    | (obtain ⟨rfl,-⟩ := h; exact .inl ⟨rfl,rfl⟩)
    | (obtain ⟨_,-,rfl,-⟩ := h; exact .inl ⟨rfl,rfl⟩)

/-- The parked schedulers are those that wait on `data_ready` or have been woken there. -/
structure Parked (s : State) : Prop where
  nodup : s.shared.dataReady.sleepers.Nodup
  parked : ∀ w ∈ s.shared.dataReady.sleepers, ∃ conn, s.threads[w]? = some (.scheduler conn .parked)
  asleep : ∀ (w : ℕ) conn, s.threads[w]? = some (.scheduler conn .parked) →
    w ∈ s.shared.dataReady.sleepers

theorem parked_of_perm (hs : Parked s)
    (hperm : s'.shared.dataReady.sleepers.Perm s.shared.dataReady.sleepers)
    (hkept : ∀ (w : ℕ) conn, s.threads[w]? = some (.scheduler conn .parked) →
      s'.threads[w]? = some (.scheduler conn .parked))
    (hback : ∀ (w : ℕ) conn, s'.threads[w]? = some (.scheduler conn .parked) →
      s.threads[w]? = some (.scheduler conn .parked)) : Parked s' := by
  refine ⟨hperm.nodup_iff.mpr hs.nodup,fun w hw => ?_,fun w conn hw => ?_⟩
  · obtain ⟨conn,hc⟩ := hs.parked w (hperm.mem_iff.mp hw)
    exact ⟨conn,hkept w conn hc⟩
  · exact hperm.mem_iff.mpr (hs.asleep w conn (hback w conn hw))

theorem nextLevel_awake (scan : Scan) : scan.nextLevel ≠ .parked := by
  unfold Scan.nextLevel
  split
  · simp
  · split <;> simp

theorem probe_awake (scan : Scan) (q : ℕ) : scan.probe q ≠ .parked := by
  unfold Scan.probe
  split <;> simp

theorem parks_inv {conn : ℕ} {pc : SchedulerPc} (h : schedule conn pc c = some n)
    {r : n.action.Answer} (hr : n.resume r = .scheduler conn .parked) :
    pc = .poll ∧ n.action = .pollNotified := by
  cases pc with
  | poll =>
    cases c <;> cases h
    exact ⟨rfl,rfl⟩
  | popped scan found =>
    cases found <;> cases c <;> cases h
    · exact absurd (Task.scheduler.inj hr).2 (nextLevel_awake scan)
    · cases hr
  | top scan =>
    cases c <;> cases h
    have hpc := (Task.scheduler.inj hr).2
    split at hpc
    · split at hpc
      · exact absurd hpc (nextLevel_awake scan)
      · cases hpc
    · cases hpc
  | sending scan item =>
    cases c <;> cases h
    have hpc := (Task.scheduler.inj hr).2
    split at hpc
    · exact absurd hpc (probe_awake _ _)
    · cases hpc
  | probe scan q =>
    cases c <;> cases h
    dsimp only at hr
    split at hr <;> cases hr
  | peeked scan q higher =>
    cases c <;> cases h
    have hpc := (Task.scheduler.inj hr).2
    split at hpc
    · cases hpc
    · exact absurd hpc (probe_awake _ _)
  | checkId | checkReady | checkClosed =>
    cases c <;> cases h
    have hpc := (Task.scheduler.inj hr).2
    split at hpc <;> cases hpc
  | parked | pop | leaving =>
    cases c <;> cases h
    cases hr
  | done => cases c <;> cases h

theorem parked_back (ht : Turn system s s' i t c t' new) {w conn : ℕ}
    (hpoll : t ≠ .scheduler conn .poll ∨ w ≠ i)
    (hw : s'.threads[w]? = some (.scheduler conn .parked)) :
    s.threads[w]? = some (.scheduler conn .parked) ∧ w ≠ i := by
  obtain ⟨n,r,hact,hperf,hr,hnew⟩ := turn_access ht
  rcases ht.thread_cases hw with ⟨rfl,hself⟩ | ⟨hwi,hold⟩ | ⟨-,hspawned⟩
  · have hkind := act_kind hact r
    rw [← hr,← hself] at hkind
    obtain ⟨pc,rfl⟩ : ∃ pc, t = .scheduler conn pc := scheduler_of_kind hkind.symm
    have hact : schedule conn pc c = some n := hact
    obtain ⟨rfl,-⟩ := parks_inv hact (hr.symm.trans hself.symm)
    exact absurd rfl (hpoll.resolve_right (not_not.mpr rfl))
  · exact ⟨hold,hwi⟩
  · rw [hnew] at hspawned
    obtain ⟨conn',role,rest,-,hu,-⟩ := act_spawned hact (by simpa using hspawned)
    cases role <;> cases hu

theorem parked_poll {conn : ℕ} (hs : Parked s)
    (ht : Turn system s s' i (.scheduler conn .poll) c t' new)
    (hpoll : s'.shared.dataReady = (s.shared.dataReady.poll i).2)
    (hkept : ∀ (w : ℕ) conn, s.threads[w]? = some (.scheduler conn .parked) →
      s'.threads[w]? = some (.scheduler conn .parked)) : Parked s' := by
  cases hpermit : s.shared.dataReady.permit with
  | true =>
    refine parked_of_perm hs (by rw [hpoll,Notify.sleepers_poll_permit hpermit]) hkept
      fun w conn' hw => (parked_back ht (.inr ?_) hw).1
    rintro rfl
    obtain ⟨n,r,hact,hperf,rfl,-⟩ := turn_access ht
    cases c <;> cases hact
    simp only [Client.perform,Notify.poll_permit hpermit,Option.some.injEq,Prod.mk.injEq] at hperf
    obtain ⟨-,rfl⟩ := hperf
    rw [ht.self] at hw
    cases hw
  | false =>
    have hperm := Notify.sleepers_poll_wait (i := i) hpermit
    rw [← hpoll] at hperm
    have hout : i ∉ s.shared.dataReady.sleepers := by
      intro hmem
      obtain ⟨conn',hc⟩ := hs.parked i hmem
      rw [ht.thread] at hc
      cases hc
    refine ⟨hperm.nodup_iff.mpr (List.nodup_cons.mpr ⟨hout,hs.nodup⟩),fun w hmem => ?_,
      fun w conn' hw => ?_⟩
    · rcases List.mem_cons.mp (hperm.mem_iff.mp hmem) with rfl | hold
      · obtain ⟨n,r,hact,hperf,rfl,-⟩ := turn_access ht
        cases c <;> cases hact
        simp only [Client.perform,Notify.poll_wait hpermit,Option.some.injEq,Prod.mk.injEq] at hperf
        obtain ⟨-,rfl⟩ := hperf
        exact ⟨conn,ht.self⟩
      · obtain ⟨conn',hc⟩ := hs.parked w hold
        exact ⟨conn',hkept w conn' hc⟩
    · refine hperm.mem_iff.mpr (List.mem_cons.mpr ?_)
      by_cases hwi : w = i
      · exact .inl hwi
      · exact .inr (hs.asleep w conn' (parked_back ht (.inr hwi) hw).1)

theorem parked_step (hs : Parked s) (h : system.machine.step s move = some s') : Parked s' := by
  cases move with
  | arrive t =>
    obtain ⟨he,rfl⟩ := step_arrive h
    refine parked_of_perm hs (.refl _) (fun w conn hw => arrive_kept hw) fun w conn hw => ?_
    rcases arrive_cases hw with hold | ⟨-,rfl⟩
    · exact hold
    · cases he
  | run i c =>
    obtain ⟨t,t',new,ht⟩ := step_run h
    obtain ⟨n,r,hact,hperf,rfl,-⟩ := turn_access ht
    have hperfs := act_performs hact
    have hkept : (∀ conn, t ≠ .scheduler conn .parked) → ∀ (w : ℕ) conn,
        s.threads[w]? = some (.scheduler conn .parked) →
        s'.threads[w]? = some (.scheduler conn .parked) := by
      intro hne w conn hw
      refine ht.kept ?_ hw
      rintro rfl
      exact hne conn (Option.some.inj (ht.thread.symm.trans hw))
    rcases perform_dataReady hperf with ⟨hne,hsame⟩ | ⟨ha,hnotify⟩ | ⟨ha,hpoll⟩ | ⟨ha,hresume⟩
    · refine parked_of_perm hs (by rw [hsame]) (hkept ?_)
        fun w conn hw => (parked_back ht (.inl ?_) hw).1
      · rintro conn rfl
        cases c <;> cases hact
        cases hne
      · rintro rfl
        cases c <;> cases hact
        cases hne
    · refine parked_of_perm hs (by rw [hnotify]; exact Notify.sleepers_notifyOne _) (hkept ?_)
        fun w conn hw => (parked_back ht (.inl ?_) hw).1
      all_goals
        rw [ha] at hperfs
        rcases hperfs with ⟨key,rfl⟩ | ⟨conn',rfl⟩ <;> simp
    · rw [ha] at hperfs
      obtain ⟨conn,rfl⟩ := hperfs
      exact parked_poll hs ht hpoll (hkept (by simp))
    · obtain ⟨hsub,hout,hstay⟩ := Notify.sleepers_resume hresume hs.nodup
      rw [ha] at hperfs
      obtain ⟨conn₀,rfl⟩ := hperfs
      refine ⟨hs.nodup.sublist hsub,fun w hw => ?_,fun w conn hw => ?_⟩
      · obtain ⟨conn,hc⟩ := hs.parked w (hsub.subset hw)
        refine ⟨conn,ht.kept ?_ hc⟩
        rintro rfl
        exact hout hw
      · obtain ⟨hold,hwi⟩ := parked_back ht (.inl (by simp)) hw
        exact hstay w (hs.asleep w conn hold) hwi

/-- A wake-up is stored or will be issued. -/
def Armed (s : State) : Prop := s.shared.dataReady.permit = true ∨ Pending s

theorem pending_self (ht : Turn system s s' i t c t' new) (h : notifying t' = true) : Pending s' :=
  ⟨t',List.mem_of_getElem? ht.self,h⟩

theorem pending_turn (ht : Turn system s s' i t c t' new) (h : Pending s) :
    Pending s' ∨ notifying t = true := by
  obtain ⟨u,hu,hn⟩ := h
  obtain ⟨k,hk⟩ := List.mem_iff_getElem?.mp hu
  by_cases hki : k = i
  · subst hki
    rw [ht.thread,Option.some.injEq] at hk
    exact .inr (hk ▸ hn)
  · exact .inl ⟨u,List.mem_of_getElem? (ht.kept hki hk),hn⟩

/-- What becomes of a stored or coming wake-up in a step that wastes none: it is kept,
it wakes the current scheduler, or the current scheduler takes it. -/
theorem armed_turn (hparked : Parked s) (hwaste : swallows s (.run i c) = false)
    (ht : Turn system s s' i t c t' new) (h : Armed s) :
    Armed s' ∨
      (∃ w, s.threads[w]? = some (.scheduler s.shared.connectionId .parked) ∧
        w ∈ s'.shared.dataReady.woken) ∨
      t = .scheduler s.shared.connectionId .poll := by
  obtain ⟨n,r,hact,hperf,rfl,-⟩ := turn_access ht
  have hperfs := act_performs hact
  rcases perform_dataReady hperf with ⟨hne,hsame⟩ | ⟨ha,hnotify⟩ | ⟨ha,hpoll⟩ | ⟨ha,hresume⟩
  · rcases h with hpermit | hpending
    · exact .inl (.inl (by rw [hsame]; exact hpermit))
    · rcases pending_turn ht hpending with hkept | hself
      · exact .inl (.inr hkept)
      · unfold notifying at hself
        split at hself
        · cases c <;> cases hact
          exact .inl (.inr (pending_self ht rfl))
        · cases c <;> cases hact
          cases hne
        · cases c <;> cases hact
          cases hne
        · cases hself
  · cases hw : s.shared.dataReady.waiters with
    | nil =>
      rw [Notify.notifyOne_nil hw] at hnotify
      exact .inl (.inl (by rw [hnotify]))
    | cons w ws =>
      rw [Notify.notifyOne_cons hw] at hnotify
      obtain ⟨conn,hc⟩ := hparked.parked w (by simp [Notify.sleepers,hw])
      rw [ha] at hperfs
      have hcurrent : conn = s.shared.connectionId := by
        rcases hperfs with ⟨key,rfl⟩ | ⟨conn',rfl⟩ <;>
          simpa [swallows,overtaken,ht.thread,hw,superseded,hc] using hwaste
      exact .inr (.inl ⟨w,by rw [← hcurrent]; exact hc,by rw [hnotify]; exact List.mem_cons_self⟩)
  · rw [ha] at hperfs
    obtain ⟨conn,rfl⟩ := hperfs
    cases hpermit : s.shared.dataReady.permit with
    | true =>
      have hcurrent : conn = s.shared.connectionId := by
        simpa [swallows,ht.thread,hpermit] using hwaste
      exact .inr (.inr (by rw [hcurrent]))
    | false =>
      rcases h with hp | hpending
      · rw [hpermit] at hp
        cases hp
      · rcases pending_turn ht hpending with hkept | hself
        · exact .inl (.inr hkept)
        · cases hself
  · obtain ⟨-,hnew⟩ := Notify.resume_eq_some.mp hresume
    rw [ha] at hperfs
    obtain ⟨conn,rfl⟩ := hperfs
    rcases h with hpermit | hpending
    · exact .inl (.inl (by rw [hnew]; exact hpermit))
    · rcases pending_turn ht hpending with hkept | hself
      · exact .inl (.inr hkept)
      · cases hself

theorem below_turn (ht : Turn system s s' i t c t' new) (h : Below s' p) :
    Below s p ∨ Pending s' := by
  obtain ⟨q,hq,hdata⟩ := h
  obtain ⟨n,r,hact,hperf,rfl,-⟩ := turn_access ht
  have hold : (∃ item, item ∈ (s.shared.queue q).items) → Below s p :=
    fun hitem => ⟨q,hq,Level.hasData_iff.mpr hitem⟩
  have hchange := level_perform hperf q
  obtain ⟨item,hitem⟩ := Level.hasData_iff.mp hdata
  generalize s'.shared.queue q = l at hchange hitem
  cases hchange with
  | kept | peeked | unlocked => exact .inl (hold ⟨item,hitem⟩)
  | pushed pushed ha =>
    have hperfs := act_performs hact
    rw [ha] at hperfs
    obtain ⟨key,rfl⟩ := hperfs
    cases c <;> cases hact
    exact .inr (pending_self ht rfl)
  | popped source found l ha hfree hpop =>
    cases found with
    | none =>
      obtain ⟨rfl,-⟩ := Level.pop_none hpop
      exact .inl (hold ⟨item,hitem⟩)
    | some first => exact .inl (hold ⟨item,(Level.pop_some hpop).2 item hitem⟩)
  | cleared => simp at hitem
  | pruned => exact .inl (hold ⟨item,Level.mem_items_prune.mp hitem⟩)

theorem loaded_turn (ht : Turn system s s' i t c t' new) (h : Loaded s') :
    Loaded s ∨ Pending s' := by
  obtain ⟨n,r,hact,hperf,rfl,-⟩ := turn_access ht
  rcases below_turn ht h.2 with hbelow | hpending
  · rcases perform_serverReady hperf h.1 with hready | ha
    · exact .inl ⟨hready,hbelow⟩
    · have hperfs := act_performs hact
      rw [ha] at hperfs
      obtain ⟨conn,rfl⟩ := hperfs
      cases c <;> cases hact
      exact .inr (pending_self ht rfl)
  · exact .inr hpending

/-- What holds at each place of the current scheduler. In a pass that has found nothing
so far, data on a level already passed comes with a wake-up. -/
def SchedulerOk (s : State) (j : ℕ) : SchedulerPc → Prop
  | .poll => Loaded s → Armed s
  | .parked => j ∈ s.shared.dataReady.woken ∨ (Loaded s → Armed s)
  | .top scan | .pop scan =>
    scan.hadAnyData = false → scan.consecutive = 0 ∧ (Below s scan.level → Armed s)
  | .popped scan none => scan.hadAnyData = false →
    (Below s scan.level → Armed s) ∧ (s.shared.queue scan.level).hasData = false
  | .probe scan _ | .peeked scan .. => scan.hadAnyData = true
  | _ => True

theorem scan_start_ok : SchedulerOk s j (.top .start) := by
  refine fun _ => ⟨rfl,?_⟩
  rintro ⟨q,hq,-⟩
  exact absurd hq (Nat.not_lt_zero q)

theorem nextLevel_ok {scan : Scan}
    (h : scan.hadAnyData = false → Below s (scan.level + 1) → Armed s) :
    SchedulerOk s j scan.nextLevel := by
  simp only [Scan.nextLevel]
  split
  · exact fun hhad => ⟨rfl,h hhad⟩
  · rename_i hlast
    split
    · exact scan_start_ok
    · rename_i hhad
      rintro ⟨-,q,hq,hdata⟩
      exact h (by simpa using hhad) ⟨q,by omega,hdata⟩

theorem probe_ok {scan : Scan} {q : ℕ} (h : scan.hadAnyData = true) :
    SchedulerOk s j (scan.probe q) := by
  simp only [Scan.probe]
  split
  · exact h
  · intro hnot
    rw [h] at hnot
    cases hnot

variable {pc : SchedulerPc}

theorem armed_kept (hlayout : Layout s) (hparked : Parked s)
    (hwaste : swallows s (.run i c) = false) (ht : Turn system s s' i t c t' new)
    (hj : s.threads[j]? = some (.scheduler s.shared.connectionId pc)) (hpc : pc ≠ .parked)
    (hpoll : j ≠ i ∨ pc ≠ .poll) (h : Armed s) : Armed s' := by
  have hsame : ∀ {w : ℕ} {pc' : SchedulerPc},
      s.threads[w]? = some (.scheduler s.shared.connectionId pc') → w = j ∧ pc' = pc := by
    intro w pc' hw
    obtain rfl := hlayout.unique w j _ _ s.shared.connectionId .scheduler hw hj rfl rfl
    rw [hj] at hw
    cases hw
    exact ⟨rfl,rfl⟩
  rcases armed_turn hparked hwaste ht h with hkept | ⟨w,hw,-⟩ | rfl
  · exact hkept
  · exact absurd (hsame hw).2.symm hpc
  · obtain ⟨rfl,rfl⟩ := hsame ht.thread
    rcases hpoll with hne | hne <;> exact absurd rfl hne

theorem woken_kept (ht : Turn system s s' i t c t' new) (hji : j ≠ i)
    (h : j ∈ s.shared.dataReady.woken) : j ∈ s'.shared.dataReady.woken := by
  obtain ⟨n,r,hact,hperf,-,-⟩ := turn_access ht
  rcases perform_dataReady hperf with ⟨-,hsame⟩ | ⟨-,hnotify⟩ | ⟨-,hpoll⟩ | ⟨-,hresume⟩
  · rwa [hsame]
  · rw [hnotify,Notify.notifyOne]
    split
    · exact h
    · exact List.mem_cons_of_mem _ h
  · rw [hpoll,Notify.poll]
    split <;> exact h
  · obtain ⟨-,hnew⟩ := Notify.resume_eq_some.mp hresume
    rw [hnew]
    exact (List.mem_erase_of_ne hji).mpr h

theorem schedulerOk_other (hlayout : Layout s) (hlocks : Each Locks s) (hparked : Parked s)
    (hwaste : swallows s (.run i c) = false) (ht : Turn system s s' i t c t' new) (hji : j ≠ i)
    (hj : s.threads[j]? = some (.scheduler s.shared.connectionId pc)) (hok : SchedulerOk s j pc) :
    SchedulerOk s' j pc := by
  have hkept : pc ≠ .parked → Armed s → Armed s' := fun hpc =>
    armed_kept hlayout hparked hwaste ht hj hpc (.inl hji)
  have hbelow : pc ≠ .parked → ∀ p, (Below s p → Armed s) → Below s' p → Armed s' := by
    intro hpc p h hb
    rcases below_turn ht hb with hold | hpending
    · exact hkept hpc (h hold)
    · exact .inr hpending
  cases pc
  case poll =>
    intro hloaded
    rcases loaded_turn ht hloaded with hold | hpending
    · exact hkept (by simp) (hok hold)
    · exact .inr hpending
  case parked =>
    rcases hok with hwoken | harmed
    · exact .inl (woken_kept ht hji hwoken)
    · by_cases hw : j ∈ s'.shared.dataReady.woken
      · exact .inl hw
      · refine .inr fun hloaded => ?_
        rcases loaded_turn ht hloaded with hold | hpending
        · rcases armed_turn hparked hwaste ht (harmed hold) with hk | ⟨w,hw',hwoken⟩ | rfl
          · exact hk
          · obtain rfl := hlayout.unique w j _ _ s.shared.connectionId .scheduler hw' hj rfl rfl
            exact absurd hwoken hw
          · exact absurd (hlayout.unique j i _ _ s.shared.connectionId .scheduler hj ht.thread
              rfl rfl) hji
        · exact .inr hpending
  case top scan => exact fun hhad => ⟨(hok hhad).1,hbelow (by simp) _ (hok hhad).2⟩
  case pop scan => exact fun hhad => ⟨(hok hhad).1,hbelow (by simp) _ (hok hhad).2⟩
  case popped scan found =>
    cases found with
    | some item => trivial
    | none =>
      refine fun hhad => ⟨hbelow (by simp) _ (hok hhad).1,?_⟩
      obtain ⟨n,r,hact,hperf,-,-⟩ := turn_access ht
      have hi : Locks s.shared i (some t) := by
        rw [← ht.thread]
        exact hlocks i
      rw [level_held hi hact hperf hji (hlocks j _ _ hj rfl)]
      exact (hok hhad).2
  case probe scan q => exact hok
  case peeked scan q higher => exact hok
  all_goals trivial

theorem schedulerOk_self (hlayout : Layout s) (hparked : Parked s)
    (hwaste : swallows s (.run i c) = false)
    (ht : Turn system s s' i (.scheduler s.shared.connectionId pc) c t' new)
    (hok : SchedulerOk s i pc) {pc' : SchedulerPc}
    (hpc : t' = .scheduler s.shared.connectionId pc') : SchedulerOk s' i pc' := by
  have hbelow : pc ≠ .parked → pc ≠ .poll → ∀ p, (Below s p → Armed s) → Below s' p → Armed s' := by
    intro hne hpoll p h hb
    rcases below_turn ht hb with hold | hpending
    · exact armed_kept hlayout hparked hwaste ht ht.thread hne (.inr hpoll) (h hold)
    · exact .inr hpending
  obtain ⟨n,r,hact,hperf,rfl,-⟩ := turn_access ht
  cases pc with
  | poll =>
    cases c <;> cases hact
    obtain ⟨-,hr⟩ := Prod.mk.inj (Option.some.inj hperf)
    cases hpermit : s.shared.dataReady.permit with
    | true =>
      rw [Notify.poll_permit hpermit] at hr
      subst hr
      cases hpc
      trivial
    | false =>
      rw [Notify.poll_wait hpermit] at hr
      subst hr
      cases hpc
      refine .inr fun hloaded => .inr ?_
      rcases loaded_turn ht hloaded with hold | hpending
      · rcases hok hold with hp | hpending
        · rw [hpermit] at hp
          cases hp
        · rcases pending_turn ht hpending with hkept | hself
          · exact hkept
          · cases hself
      · exact hpending
  | parked | leaving =>
    cases c <;> cases hact
    cases hpc
    trivial
  | checkId =>
    cases c <;> cases hact
    obtain rfl := (Task.scheduler.inj hpc).2
    split <;> trivial
  | checkReady =>
    cases c <;> cases hact
    obtain ⟨hx,hr⟩ := Prod.mk.inj (Option.some.inj hperf)
    obtain rfl := (Task.scheduler.inj hpc).2
    split
    · trivial
    · rename_i hready
      rintro ⟨hready',-⟩
      rw [← hx,hr] at hready'
      exact absurd hready' hready
  | checkClosed =>
    cases c <;> cases hact
    obtain rfl := (Task.scheduler.inj hpc).2
    split
    · trivial
    · exact scan_start_ok
  | top scan =>
    cases c <;> cases hact
    obtain rfl := (Task.scheduler.inj hpc).2
    split
    · split
      · rename_i hcap
        refine nextLevel_ok fun hhad _ => ?_
        -- the cap is only reached after a message has been sent
        rw [(hok hhad).1] at hcap
        exact absurd hcap (by decide)
      · exact fun hhad => ⟨(hok hhad).1,hbelow (by simp) (by simp) _ (hok hhad).2⟩
    · trivial
  | pop scan =>
    cases c <;> cases hact
    simp only [Client.perform,Option.ite_none_right_eq_some,Option.map_eq_some_iff,
      Prod.mk.injEq] at hperf
    obtain ⟨-,⟨found,l⟩,hpop,hx,rfl⟩ := hperf
    cases hpc
    cases found with
    | some item => trivial
    | none =>
      obtain ⟨rfl,hempty⟩ := Level.pop_none hpop
      refine fun hhad => ⟨hbelow (by simp) (by simp) _ (hok hhad).2,?_⟩
      rw [← hx]
      simpa [Client.setLevel] using hempty
  | popped scan found =>
    cases found with
    | some item =>
      cases c <;> cases hact
      cases hpc
      trivial
    | none =>
      cases c <;> cases hact
      obtain ⟨hx,-⟩ := Prod.mk.inj (Option.some.inj hperf)
      cases hpc
      refine nextLevel_ok fun hhad => ?_
      rintro ⟨q,hq,hdata⟩
      by_cases hlevel : q = scan.level
      · subst hlevel
        rw [← hx] at hdata
        simp only [Client.setLevel,Function.update_self,Level.hasData_holder,(hok hhad).2] at hdata
        cases hdata
      · exact hbelow (by simp) (by simp) _ (hok hhad).1 ⟨q,by omega,hdata⟩
  | sending scan item =>
    cases c <;> cases hact
    obtain rfl := (Task.scheduler.inj hpc).2
    split
    · exact probe_ok rfl
    · trivial
  | probe scan q =>
    cases c <;> cases hact
    dsimp only at hpc
    split at hpc <;> cases hpc
    · exact scan_start_ok
    · exact hok
  | peeked scan q higher =>
    cases c <;> cases hact
    obtain rfl := (Task.scheduler.inj hpc).2
    split
    · exact scan_start_ok
    · exact probe_ok hok
  | done => cases c <;> cases hact

/-- Past its two flag stores, `run_connection` has the connection open but may not have
spawned the scheduler yet. -/
def opened : SupervisorPc → Bool
  | .openPing _ | .openPong _ | .openWriter _ | .spawning .. => true
  | _ => false

/-- The current scheduler keeps up with the data; until it is spawned, data comes with a
wake-up. -/
structure Wakes (s : State) : Prop where
  scheduler : ∀ (j : ℕ) pc, s.threads[j]? = some (.scheduler s.shared.connectionId pc) →
    SchedulerOk s j pc
  unspawned : ∀ pc, s.threads[0]? = some (.supervisor pc) → opened pc = true →
    Role.scheduler ∈ pc.unspawned → Loaded s → Armed s

theorem schedulerOk_arrive {u : Task} (hok : SchedulerOk s j pc) :
    SchedulerOk ⟨s.shared,s.threads ++ [u]⟩ j pc := by
  have harmed : Armed s → Armed ⟨s.shared,s.threads ++ [u]⟩ := by
    rintro (hpermit | ⟨v,hv,hn⟩)
    · exact .inl hpermit
    · exact .inr ⟨v,List.mem_append_left _ hv,hn⟩
  cases pc
  case poll => exact fun hloaded => harmed (hok hloaded)
  case parked => exact hok.imp_right fun h hloaded => harmed (h hloaded)
  case top scan => exact fun hhad => ⟨(hok hhad).1,fun hb => harmed ((hok hhad).2 hb)⟩
  case pop scan => exact fun hhad => ⟨(hok hhad).1,fun hb => harmed ((hok hhad).2 hb)⟩
  case popped scan found =>
    cases found with
    | some item => trivial
    | none => exact fun hhad => ⟨fun hb => harmed ((hok hhad).1 hb),(hok hhad).2⟩
  case probe scan q => exact hok
  case peeked scan q higher => exact hok
  all_goals trivial

theorem armed_unspawned (hlayout : Layout s) (hparked : Parked s)
    (hwaste : swallows s (.run i c) = false) (ht : Turn system s s' i t c t' new)
    {pc : SupervisorPc} (h0 : s.threads[0]? = some (.supervisor pc))
    (hun : Role.scheduler ∈ pc.unspawned) (h : Armed s) : Armed s' := by
  have hnone : ∀ {w : ℕ} {pc' : SchedulerPc},
      s.threads[w]? ≠ some (.scheduler s.shared.connectionId pc') := by
    intro w pc' hw
    obtain ⟨pc₀,hpc₀,-,-,hout⟩ := hlayout.supervisor
    obtain rfl : pc = pc₀ := by simpa [h0] using hpc₀
    exact hout w _ .scheduler hw rfl hun
  rcases armed_turn hparked hwaste ht h with hkept | ⟨w,hw,-⟩ | rfl
  · exact hkept
  · exact absurd hw hnone
  · exact absurd ht.thread hnone

theorem opened_inv {pc pc' : SupervisorPc} {a : Action} {r : a.Answer}
    (hstep : SupervisorStep pc a r pc') (hopened : opened pc' = true) :
    a = .storeReady false ∨ (opened pc = true ∧ pc'.unspawned ⊆ pc.unspawned) := by
  cases hstep with
  | openReady => exact .inl rfl
  | openPing | openPong | openWriter => exact .inr ⟨rfl,List.Subset.refl _⟩
  | spawn conn role rest => exact .inr ⟨rfl,List.subset_cons_self role rest⟩
  | _ => cases hopened

theorem wakes_unspawned (hlayout : Layout s) (hparked : Parked s)
    (hwaste : swallows s (.run i c) = false) (ht : Turn system s s' i t c t' new) (hs : Wakes s)
    {pc : SupervisorPc} (h0 : s'.threads[0]? = some (.supervisor pc)) (hopened : opened pc = true)
    (hun : Role.scheduler ∈ pc.unspawned) (hloaded : Loaded s') : Armed s' := by
  have hkept : ∀ {pc₀}, s.threads[0]? = some (.supervisor pc₀) → opened pc₀ = true →
      Role.scheduler ∈ pc₀.unspawned → Armed s' := by
    intro pc₀ h0' hopened' hun'
    rcases loaded_turn ht hloaded with hold | hpending
    · exact armed_unspawned hlayout hparked hwaste ht h0' hun' (hs.unspawned _ h0' hopened' hun' hold)
    · exact .inr hpending
  obtain ⟨pc₀,h0',-⟩ := hlayout.supervisor
  by_cases hi : i = 0
  · subst hi
    obtain rfl : t = .supervisor pc₀ := Option.some.inj (ht.thread.symm.trans h0')
    obtain ⟨n,r,hact,hperf,rfl,-⟩ := turn_access ht
    rw [ht.self,Option.some.injEq] at h0
    rcases opened_inv (supervisorStep_of_resume hact h0) hopened with ha | ⟨hopened',hsub⟩
    · have hready := hloaded.1
      rcases n with ⟨a,resume,spawned⟩
      obtain rfl : a = .storeReady false := ha
      simp only [Client.perform,Option.some.injEq,Prod.mk.injEq] at hperf
      rw [← hperf.1] at hready
      cases hready
    · exact hkept h0' hopened' (hsub hun)
  · have hsame := ht.kept (Ne.symm hi) h0'
    rw [h0,Option.some.injEq,Task.supervisor.injEq] at hsame
    subst hsame
    exact hkept h0' hopened hun

theorem wakes_turn (hlayout : Layout s) (hlocks : Each Locks s) (hparked : Parked s) (hs : Wakes s)
    (hwaste : swallows s (.run i c) = false) (ht : Turn system s s' i t c t' new)
    (hid : s'.shared.connectionId = s.shared.connectionId) : Wakes s' := by
  refine ⟨fun j pc hj => ?_,fun pc h0 hopened hun => wakes_unspawned hlayout hparked hwaste ht hs
    h0 hopened hun⟩
  rw [hid] at hj
  rcases ht.thread_cases hj with ⟨rfl,hself⟩ | ⟨hji,hold⟩ | ⟨-,hnew⟩
  · obtain ⟨n,r,hact,-,hr,-⟩ := turn_access ht
    have hkind := act_kind hact r
    rw [← hr,← hself] at hkind
    obtain ⟨pc₀,rfl⟩ : ∃ pc₀, t = .scheduler s.shared.connectionId pc₀ := scheduler_of_kind hkind.symm
    exact schedulerOk_self hlayout hparked hwaste ht (hs.scheduler j pc₀ ht.thread) hself.symm
  · exact schedulerOk_other hlayout hlocks hparked hwaste ht hji hold (hs.scheduler j pc hold)
  · obtain ⟨n,r,hact,hperf,-,rfl⟩ := turn_access ht
    obtain ⟨conn,role,rest,rfl,hu,ha,-⟩ := act_spawned hact (by simpa using hnew)
    obtain ⟨rfl,rfl⟩ : role = .scheduler ∧ pc = .poll := by
      cases role <;> cases hu
      exact ⟨rfl,rfl⟩
    have h0 := ht.thread
    rw [hlayout.only i _ h0] at h0
    intro hloaded
    rcases loaded_turn ht hloaded with hold | hpending
    · exact armed_unspawned hlayout hparked hwaste ht h0 List.mem_cons_self
        (hs.unspawned _ h0 rfl List.mem_cons_self hold)
    · exact .inr hpending

theorem wakes_step (hlayout : Layout s) (hlocks : Each Locks s) (hparked : Parked s) (hs : Wakes s)
    (hwaste : swallows s move = false) (h : system.machine.step s move = some s') : Wakes s' := by
  cases move with
  | arrive u =>
    obtain ⟨he,rfl⟩ := step_arrive h
    refine ⟨fun j pc hj => ?_,fun pc h0 hopened hun hloaded => ?_⟩
    · rcases arrive_cases hj with hold | ⟨-,hu⟩
      · exact schedulerOk_arrive (hs.scheduler j pc hold)
      · rw [← hu] at he
        cases he
    · rcases arrive_cases h0 with hold | ⟨-,rfl⟩
      · have hpoll : SchedulerOk s 0 .poll := hs.unspawned pc hold hopened hun
        exact schedulerOk_arrive hpoll hloaded
      · cases he
  | run i c =>
    obtain ⟨t,t',new,ht⟩ := step_run h
    obtain ⟨n,r,hact,hperf,hr,hnew⟩ := turn_access ht
    by_cases ha : n.action = .nextConnection
    · -- no task of the new connection exists yet
      have hlayout' := layout_step hlayout h
      have hperfs := act_performs hact
      rw [ha] at hperfs
      subst hperfs
      obtain rfl := hlayout.only i _ ht.thread
      cases c <;> cases hact
      have h0 := ht.self
      rw [hr] at h0
      obtain ⟨pc',h0',-,-,hout⟩ := hlayout'.supervisor
      rw [h0,Option.some.injEq,Task.supervisor.injEq] at h0'
      subst h0'
      refine ⟨fun j pc hj => ?_,fun pc hpc hopened => ?_⟩
      · exact absurd (by simp [SupervisorPc.unspawned]) (hout j _ .scheduler hj rfl)
      · rw [h0,Option.some.injEq,Task.supervisor.injEq] at hpc
        subst hpc
        cases hopened
    · exact wakes_turn hlayout hlocks hparked hs hwaste ht (perform_connectionId hperf ha)

theorem pending_iff : Pending s ↔ 0 < pendingCalls s := by
  simp only [Pending,pendingCalls,List.countP_pos_iff]

/-- A pending call reaches the current scheduler when no superseded one waits ahead of it. -/
theorem reached_of_pending (hlayout : Layout s) (hparked : Parked s) (hfirst : overtaken s = false)
    (hj : s.threads[j]? = some (.scheduler s.shared.connectionId .parked)) (h : Pending s) :
    Reached s j := by
  rcases List.mem_append.mp (hparked.asleep j _ hj) with hwaits | hwoken
  · obtain ⟨w,ws,hw⟩ := List.exists_cons_of_ne_nil (List.ne_nil_of_mem hwaits)
    obtain ⟨conn,hc⟩ := hparked.parked w (by simp [Notify.sleepers,hw])
    have hcurrent : conn = s.shared.connectionId := by
      simpa [overtaken,hw,superseded,hc] using hfirst
    subst hcurrent
    obtain rfl := hlayout.unique w j _ _ s.shared.connectionId .scheduler hc hj rfl rfl
    exact Notify.woken_of_first hw (pending_iff.mp h)
  · exact Notify.woken_iterate hwoken _

/-- If no wake-up goes to a superseded scheduler, the current scheduler never stays parked
while there is something to send and the server is ready for it, unless a superseded one
waits ahead of it. -/
theorem no_lost_wakeup {reconnectable : Bool} {moves : List Move}
    (hrun : system.machine.run (initial reconnectable) moves = some s)
    (hmeets : system.machine.Meets (fun s move => swallows s move = false)
      (initial reconnectable) moves) (hfirst : overtaken s = false) : NoLostWakeup s := by
  have hinitial : Wakes (initial reconnectable) := by
    refine ⟨fun j pc hj => ?_,fun pc h0 hopened => ?_⟩
    · cases j <;> simp [initial] at hj
    · cases h0
      cases hopened
  have hstart : Parked (initial reconnectable) :=
    ⟨List.nodup_nil,fun w hw => absurd hw List.not_mem_nil,fun w conn hw => by
      cases w <;> simp [initial] at hw⟩
  obtain ⟨hlayout,-,hparked,hwakes⟩ := StepMachine.invariant
    (I := fun s => Layout s ∧ Each Locks s ∧ Parked s ∧ Wakes s)
    (by
      rintro s move s' ⟨hlayout,hlocks,hparked,hwakes⟩ hwaste hstep
      exact ⟨layout_step hlayout hstep,locks_step hlocks hstep,parked_step hparked hstep,
        wakes_step hlayout hlocks hparked hwakes hwaste hstep⟩)
    ⟨layout_initial reconnectable,locks_initial reconnectable,hstart,hinitial⟩ hmeets hrun
  intro j hj _ hloaded
  rcases hwakes.scheduler j _ hj with hwoken | harmed
  · exact .inr (Notify.woken_iterate hwoken _)
  · exact (harmed hloaded).imp_right (reached_of_pending hlayout hparked hfirst hj)

def parkedCurrent (s : State) (j : ℕ) : Bool := s.threads[j]?.any fun
  | .scheduler conn .parked => conn = s.shared.connectionId
  | _ => false

theorem thread_of_parkedCurrent (h : parkedCurrent s j = true) :
    s.threads[j]? = some (.scheduler s.shared.connectionId .parked) := by
  obtain ⟨t,ht,hparked⟩ := (Option.any_eq_true _ _).mp h
  split at hparked
  · rw [ht,of_decide_eq_true hparked]
  · cases hparked

def queueCall : Task := .queueing (.called "s" [1] .medium) none

/-- The scheduler parks, the server gets ready, and a message is queued. -/
def oneConnection : List Move :=
  opening ++ going 3 1 ++ readying 1 ++ [.arrive queueCall] ++ going 6 5

theorem no_lost_wakeup_oneConnection :
    system.machine.Meets (fun s move => swallows s move = false) (initial true) oneConnection ∧
      ∃ s, system.machine.run (initial true) oneConnection = some s ∧
        (parkedCurrent s 3 = true ∧ Loaded s ∧ overtaken s = false) ∧ NoLostWakeup s := by
  have hmeets : system.machine.Meets (fun s move => swallows s move = false) (initial true)
      oneConnection := by decide +kernel
  have hany : (system.machine.run (initial true) oneConnection).any
      (fun s => decide (parkedCurrent s 3 = true ∧ Loaded s ∧ overtaken s = false)) = true := by
    decide +kernel
  obtain ⟨s,hs,hstate⟩ := (Option.any_eq_true _ _).mp hany
  have hstate := of_decide_eq_true hstate
  exact ⟨hmeets,s,hs,hstate,no_lost_wakeup hs hmeets hstate.2.2⟩

/-- Three connections in a row. When a message is queued on the third, the first
scheduler has used up the wake-up of the ready flag, and the second still waits ahead of
the third. -/
def threeConnections : List Move :=
  opening ++ going 3 1 ++ closing 1 ++ opening ++ going 8 1 ++ closing 6 ++ opening ++ going 13 1 ++
    readying 11 ++ going 3 2 ++ [.arrive queueCall] ++ going 16 5

theorem threeConnections_loses_wakeup : ∃ s,
    system.machine.run (initial true) threeConnections = some s ∧ ¬ NoLostWakeup s := by
  have hany : (system.machine.run (initial true) threeConnections).any (fun s =>
      decide (parkedCurrent s 13 = true ∧ s.shared.connectionClosed = false ∧ Loaded s ∧
        s.shared.dataReady.permit = false ∧ 13 ∉ s.shared.dataReady.woken ∧ pendingCalls s = 0)) =
          true := by
    decide +kernel
  obtain ⟨s,hs,hstate⟩ := (Option.any_eq_true _ _).mp hany
  obtain ⟨hparked,hopen,hloaded,hpermit,hwoken,hnone⟩ := of_decide_eq_true hstate
  refine ⟨s,hs,fun hno => ?_⟩
  rcases hno 13 (thread_of_parkedCurrent hparked) hopen hloaded with hp | hw
  · rw [hpermit] at hp
    cases hp
  · rw [Reached,hnone] at hw
    exact hwoken hw

end SchedulerWakeup
end JobControllerClient
