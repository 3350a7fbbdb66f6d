import JobControllerClient.DisconnectMarks

/-! How `run_connection` learns that its connection has ended. It creates its `Notified`
only after its tasks are running, and a mark set by a superseded call is announced to the
`Notify` of the old connection; both leave it waiting for ever. Without such a step it is
woken, or will be by the call that set the mark. -/
namespace JobControllerClient
namespace SupervisorWakeup

open Interleaving Websocket DisconnectMarks

def supervisorPc (s : State) : Option SupervisorPc := s.threads[0]?.bind fun
  | .supervisor pc => some pc
  | _ => none

/-- A call of `handle_disconnect` is going to notify the current connection. -/
def notifying (s : State) : Bool := s.threads.any fun
  | .disconnecting conn pc _ => conn = s.shared.connectionId && notifies pc
  | _ => false

def woken (x : Client) : SupervisorPc → Bool
  | .waiting conn generation => generation < x.disconnectNotify conn
  | _ => false

/-- The current connection is marked closed, but `run_connection`, which waits or is about
to, has not been woken and no call is left that will wake it. -/
def missed (s : State) : Bool := (supervisorPc s).any fun pc =>
  serving pc && s.shared.connectionClosed && !woken s.shared pc && !notifying s

def waits : SupervisorPc → Bool
  | .waiting .. => true
  | _ => false

/-- The step marks an open connection on behalf of a superseded one, or notifies the
current connection before `run_connection` waits. -/
def misses (s : State) : Move → Bool
  | .run i _ => s.threads[i]?.any fun
    | .disconnecting conn .swap _ => conn ≠ s.shared.connectionId && !s.shared.connectionClosed &&
      (supervisorPc s).any serving
    | .disconnecting conn .notify _ => conn = s.shared.connectionId &&
      (supervisorPc s).any fun pc => serving pc && !waits pc
    | _ => false
  | _ => false

variable {s s' : State} {x x' : Client} {i j conn : ℕ} {t t' : Task} {c : Choice} {n : Next}
  {new : List Task} {move : Move} {caller : Caller} {pc : SupervisorPc} {d : DisconnectPc}

theorem supervisorPc_eq (h : s.threads[0]? = some (.supervisor pc)) : supervisorPc s = some pc := by
  simp [supervisorPc,h]

theorem notifying_iff : notifying s = true ↔ ∃ (j : ℕ) (pc : DisconnectPc) (caller : Caller),
    s.threads[j]? = some (.disconnecting s.shared.connectionId pc caller) ∧ notifies pc = true := by
  simp only [notifying,List.any_eq_true,List.mem_iff_getElem?]
  constructor
  · rintro ⟨t,⟨j,hj⟩,ht⟩
    split at ht
    · simp only [Bool.and_eq_true,decide_eq_true_eq] at ht
      obtain ⟨rfl,hpc⟩ := ht
      exact ⟨j,_,_,hj,hpc⟩
    · cases ht
  · rintro ⟨j,pc,caller,hj,hpc⟩
    exact ⟨_,⟨j,hj⟩,by simp [hpc]⟩

theorem missed_eq (h : s.threads[0]? = some (.supervisor pc)) : missed s =
    (serving pc && s.shared.connectionClosed && !woken s.shared pc && !notifying s) := by
  simp [missed,supervisorPc_eq h]

theorem notifies_next {pc : DisconnectPc} (h : handleDisconnect conn caller pc c = some n)
    (hpc : notifies pc = true) (hne : pc ≠ .notify) (r : n.action.Answer) :
    ∃ pc', n.resume r = .disconnecting conn pc' caller ∧ notifies pc' = true := by
  have hnext : ∀ {was p}, was = false → notifies (nextClear was p) = true := by
    rintro was p rfl
    simp only [nextClear]
    split <;> rfl
  cases pc <;> cases c <;> cases h <;> simp only [notifies,Bool.not_eq_true',reduceCtorEq] at hpc
  case storeReady.go.refl => exact ⟨_,rfl,by simpa [notifies] using hpc⟩
  case clear.go.refl =>
    refine ⟨_,rfl,?_⟩
    split
    · simpa [notifies] using hpc
    · exact hnext hpc
  case cleared.go.refl => exact ⟨_,rfl,hnext hpc⟩
  case take.go.refl => exact ⟨_,rfl,by simpa [notifies] using hpc⟩
  case dropping.go.refl =>
    exact ⟨.notify,by simp [hpc],rfl⟩
  case notify.go.refl => exact absurd rfl hne

theorem notifying_turn (ht : Turn system s s' i t c t' new)
    (hid : s'.shared.connectionId = s.shared.connectionId)
    (hswap : ∀ caller, t = .disconnecting s.shared.connectionId .swap caller →
      s.shared.connectionClosed = true)
    (hnotify : ∀ caller, t ≠ .disconnecting s.shared.connectionId .notify caller) :
    notifying s' = notifying s := by
  rw [Bool.eq_iff_iff,notifying_iff,notifying_iff,hid]
  constructor
  · rintro ⟨j,pc,caller,hj,hpc⟩
    rcases disconnecting_turn ht hj (marked_of_notifies hpc) with ⟨-,hold⟩ | ⟨-,rfl,rfl⟩ |
      ⟨rfl,pc₀,rfl,-,hpc₀⟩
    · exact ⟨j,pc,caller,hold,hpc⟩
    · rw [hswap caller rfl] at hpc
      cases hpc
    · exact ⟨j,pc₀,caller,ht.thread,hpc₀ hpc⟩
  · rintro ⟨j,pc,caller,hj,hpc⟩
    by_cases hji : j = i
    · subst hji
      obtain rfl := Option.some.inj (hj.symm.trans ht.thread)
      obtain ⟨n,r,hact,-,rfl,-⟩ := turn_access ht
      have hne : pc ≠ .notify := by
        rintro rfl
        exact hnotify caller rfl
      obtain ⟨pc',hr,hpc'⟩ := notifies_next hact hpc hne r
      exact ⟨j,pc',caller,by rw [ht.self,hr],hpc'⟩
    · exact ⟨j,pc,caller,ht.kept hji hj,hpc⟩

/-- What `run_connection` has seen of its `Notify` is not more than what happened. -/
def Seen (s : State) : Prop := ∀ conn generation,
  s.threads[0]? = some (.supervisor (.waiting conn generation)) →
    generation ≤ s.shared.disconnectNotify conn

theorem perform_disconnectNotify {a : Action} {r : a.Answer} (h : x.perform i a = some (x',r))
    (conn : ℕ) : x.disconnectNotify conn ≤ x'.disconnectNotify conn := by
  cases ha : onMarks a with
  | false => rw [(perform_marks h ha).2.2.2]
  | true =>
    cases a <;> simp only [onMarks,reduceCtorEq] at ha <;>
      simp only [Client.perform,Option.some.injEq,Prod.mk.injEq] at h <;> obtain ⟨rfl,-⟩ := h
    case notifyDisconnect conn' =>
      by_cases hconn : conn = conn'
      · simp [hconn]
      · simp [hconn]
    all_goals exact le_rfl

theorem waiting_inv {generation : ℕ} {a : Action} {r : a.Answer}
    (hstep : SupervisorStep pc a r (.waiting conn generation))
    (hperf : x.perform i a = some (x',r)) : generation = x.disconnectNotify conn := by
  cases hstep with
  | staffed =>
    simp only [Client.perform,Option.some.injEq,Prod.mk.injEq] at hperf
    exact hperf.2.symm

theorem seen_step (hlayout : Layout s) (hs : Seen s)
    (h : system.machine.step s move = some s') : Seen s' := by
  intro conn generation h0
  cases move with
  | arrive u =>
    obtain ⟨he,rfl⟩ := step_arrive h
    exact hs conn generation (arrive_old he h0 rfl)
  | run i c =>
    obtain ⟨t,t',new,ht⟩ := step_run h
    obtain ⟨n,r,hact,hperf,rfl,-⟩ := turn_access ht
    have hmono := perform_disconnectNotify hperf conn
    rcases supervisor_turn hlayout ht h0 with hold | ⟨rfl,ht',pc₀,rfl⟩
    · exact (hs conn generation hold).trans hmono
    · rw [waiting_inv (supervisorStep_of_resume hact ht') hperf]
      exact hmono

theorem supervisor_unwoken {pc' : SupervisorPc} {a : Action} {r : a.Answer}
    (hstep : SupervisorStep pc a r pc') (hperf : x.perform i a = some (x',r)) :
    (serving pc' && x'.connectionClosed && !woken x' pc') =
      (serving pc && x.connectionClosed && !woken x pc) := by
  cases hstep with
  | notified conn generation =>
    simp only [Client.perform] at hperf
    split at hperf
    · rename_i hlt
      simp [serving,woken,hlt]
    · cases hperf
  | staffed conn generation =>
    simp only [Client.perform,Option.some.injEq,Prod.mk.injEq] at hperf
    obtain ⟨rfl,rfl⟩ := hperf
    simp [serving,woken]
  | openClosed | openReady | openPing | openPong | openWriter | spawn =>
    simp only [Client.perform,Option.some.injEq,Prod.mk.injEq] at hperf
    obtain ⟨rfl,-⟩ := hperf
    simp [serving,woken,Client.setWriter]
  | _ => rfl

theorem serving_connectionId {pc' : SupervisorPc} {a : Action} {r : a.Answer}
    (hstep : SupervisorStep pc a r pc') (h : serving pc = true)
    (hperf : x.perform i a = some (x',r)) : x'.connectionId = x.connectionId := by
  refine perform_connectionId hperf ?_
  rintro rfl
  cases hstep
  cases h

theorem missed_supervisor (hlayout : Layout s) (ht : Turn system s s' i (.supervisor pc) c t' new) :
    missed s' = missed s := by
  obtain rfl := hlayout.only i _ ht.thread
  obtain ⟨n,r,hact,hperf,rfl,rfl⟩ := turn_access ht
  obtain ⟨pc',hr,hstep⟩ := superviseConnections_step hact r
  have hself := ht.self
  rw [hr] at hself
  rw [missed_eq ht.thread,missed_eq hself,supervisor_unwoken hstep hperf]
  cases hserving : serving pc with
  | false => simp
  | true =>
    have hid := serving_connectionId hstep hserving hperf
    rw [notifying_turn ht hid (by simp) (by simp)]

section Others

variable (h0 : s.threads[0]? = some (.supervisor pc))
  (hconn : ∀ conn, pc.conn = some conn → conn = s.shared.connectionId)

include h0

theorem missed_kept (ht : Turn system s s' i t c t' new) (hi : i ≠ 0)
    (hid : s'.shared.connectionId = s.shared.connectionId)
    (hclosed : s'.shared.connectionClosed = s.shared.connectionClosed)
    (hcount : woken s'.shared pc = woken s.shared pc)
    (hswap : ∀ caller, t = .disconnecting s.shared.connectionId .swap caller →
      s.shared.connectionClosed = true)
    (hnotify : ∀ caller, t ≠ .disconnecting s.shared.connectionId .notify caller) :
    missed s' = missed s := by
  rw [missed_eq h0,missed_eq (ht.kept hi.symm h0),hclosed,hcount,
    notifying_turn ht hid hswap hnotify]

theorem not_supervisor (ht : Turn system s s' i (.disconnecting conn d caller) c t' new) : i ≠ 0 := by
  rintro rfl
  cases h0.symm.trans ht.thread

include hconn

theorem woken_false (h : s.shared.disconnectNotify s.shared.connectionId = 0) :
    woken s.shared pc = false := by
  cases pc <;> try rfl
  case waiting conn generation =>
    obtain rfl := hconn conn rfl
    simp [woken,h]

theorem missed_swap (hs : Calls s)
    (ht : Turn system s s' i (.disconnecting conn .swap caller) c t' new) :
    missed s' = (missed s || misses s (.run i c)) := by
  have hi := not_supervisor h0 ht
  have h0' := ht.kept hi.symm h0
  obtain ⟨n,r,hact,hperf,rfl,rfl⟩ := turn_access ht
  cases c <;> cases hact
  simp only [Client.perform,Option.some.injEq,Prod.mk.injEq] at hperf
  obtain ⟨hx,rfl⟩ := hperf
  have hmisses : misses s (.run i .go) = (decide (conn ≠ s.shared.connectionId) &&
      !s.shared.connectionClosed && serving pc) := by
    simp [misses,ht.thread,supervisorPc_eq h0]
  have hwoken : woken s'.shared pc = woken s.shared pc := by
    cases pc <;> simp [woken,← hx]
  cases hclosed : s.shared.connectionClosed with
  | true =>
    rw [hmisses,hclosed,missed_kept h0 ht hi (by rw [← hx]) (by rw [← hx,hclosed]) hwoken
      (fun _ _ => hclosed) (by simp)]
    simp
  | false =>
    have hunwoken := woken_false h0 hconn (by
      by_contra hcount
      rw [hs.notified hcount] at hclosed
      cases hclosed)
    have hnotifying : notifying s' = decide (conn = s.shared.connectionId) := by
      rw [Bool.eq_iff_iff,notifying_iff,decide_eq_true_eq]
      constructor
      · rintro ⟨j,pc,caller',hj,hpc⟩
        rw [← hx] at hj
        rcases disconnecting_turn ht hj (marked_of_notifies hpc) with ⟨-,hold⟩ | ⟨-,hswap,-⟩ |
          ⟨-,pc₀,hswap,-⟩
        · rw [hs.open hclosed hold] at hpc
          cases hpc
        · exact (Task.disconnecting.inj hswap).1
        · exact (Task.disconnecting.inj hswap).1
      · rintro rfl
        exact ⟨i,_,caller,by rw [ht.self,← hx],by simp [notifies,hclosed]⟩
    rw [hmisses,missed_eq h0,missed_eq h0',hwoken,hunwoken,hclosed,hnotifying]
    simp [← hx,Bool.and_comm]

theorem missed_notify (hs : Calls s) (hseen : Seen s)
    (ht : Turn system s s' i (.disconnecting conn .notify caller) c t' new) :
    missed s' = (missed s || misses s (.run i c)) := by
  have hi := not_supervisor h0 ht
  have h0' := ht.kept hi.symm h0
  obtain ⟨n,r,hact,hperf,rfl,rfl⟩ := turn_access ht
  cases c <;> cases hact
  simp only [Client.perform,Option.some.injEq,Prod.mk.injEq] at hperf
  obtain ⟨hx,-⟩ := hperf
  have hmisses : misses s (.run i .go) = (decide (conn = s.shared.connectionId) &&
      (serving pc && !waits pc)) := by
    simp [misses,ht.thread,supervisorPc_eq h0]
  by_cases hcurrent : conn = s.shared.connectionId
  · subst hcurrent
    have hbefore : notifying s = true := notifying_iff.mpr ⟨i,_,_,ht.thread,rfl⟩
    have hafter : notifying s' = false := by
      rw [Bool.eq_false_iff,ne_eq,notifying_iff]
      rintro ⟨j,pc,caller',hj,hpc⟩
      rw [← hx] at hj
      obtain ⟨pc₀,hj₀,-,hpc₀⟩ := marked_turn ht (by simp) hj (marked_of_notifies hpc)
      obtain rfl := hs.single j i _ _ _ _ hj₀ (hpc₀ hpc) ht.thread rfl
      rw [ht.self] at hj
      cases hj
      cases hpc
    have hclosed := hs.marked i _ _ ht.thread rfl
    have hwoken : woken s'.shared pc = waits pc := by
      cases pc <;> try rfl
      case waiting conn generation =>
        have hle := hseen _ _ h0
        obtain rfl := hconn conn rfl
        simp only [woken,waits,← hx,Function.update_self,decide_eq_true_eq]
        omega
    rw [hmisses,missed_eq h0,missed_eq h0',hbefore,hafter,hwoken]
    simp [← hx,hclosed]
  · have hwoken : woken s'.shared pc = woken s.shared pc := by
      cases pc <;> try rfl
      case waiting conn' generation =>
        obtain rfl := hconn conn' rfl
        simp [woken,← hx,Ne.symm hcurrent]
    rw [hmisses,missed_kept h0 ht hi (by rw [← hx]) (by rw [← hx]) hwoken (by simp)
      (by simpa using hcurrent)]
    simp [hcurrent]

end Others

/-- The flag is raised by the steps that miss a disconnect, and never lowered. -/
theorem missed_step (hlayout : Layout s) (hs : Calls s) (hseen : Seen s)
    (h : system.machine.step s move = some s') : missed s' = (missed s || misses s move) := by
  obtain ⟨pc,h0,hconn,-⟩ := hlayout.supervisor
  cases move with
  | arrive u =>
    obtain ⟨he,rfl⟩ := step_arrive h
    have hnotifying : notifying ⟨s.shared,s.threads ++ [u]⟩ = notifying s := by
      rcases entry_cases he with ⟨_,_,_,rfl⟩ | ⟨_,rfl⟩ <;> simp [notifying]
    rw [missed_eq h0,missed_eq (arrive_kept h0),hnotifying]
    simp [misses]
  | run i c =>
    obtain ⟨t,t',new,ht⟩ := step_run h
    by_cases hi : i = 0
    · subst hi
      obtain rfl := Option.some.inj (h0.symm.trans ht.thread)
      rw [missed_supervisor hlayout ht]
      simp [misses,h0]
    · have hsupervisor : ∀ pc, t ≠ .supervisor pc := by
        rintro pc rfl
        exact hi (hlayout.only i pc ht.thread)
      rcases marks_cases ht with ⟨n,r,hact,hperf,ha⟩ | ⟨conn,rfl⟩ | rfl | ⟨conn,caller,rfl⟩ | rfl |
        ⟨conn,caller,rfl⟩
      · obtain ⟨hclosed,hid,-,hcount⟩ := perform_marks hperf ha
        have hwoken : woken s'.shared pc = woken s.shared pc := by
          cases pc <;> simp [woken,hcount]
        have hnotify : ∀ conn caller, t ≠ .disconnecting conn .notify caller := by
          rintro conn caller rfl
          cases c <;> cases hact
          cases ha
        have hswap := not_swap_of_onMarks hact ha
        rw [missed_kept h0 ht hi hid hclosed hwoken (fun caller h => absurd h (hswap _ _))
          (hnotify _)]
        have hmisses : misses s (.run i c) = false := by
          simp only [misses,ht.thread,Option.any_some]
        simp [hmisses]
      · exact absurd rfl (hsupervisor _)
      · exact absurd rfl (hsupervisor _)
      · exact missed_swap h0 hconn hs ht
      · exact absurd rfl (hsupervisor _)
      · exact missed_notify h0 hconn hs hseen ht

/-- Everything the flag depends on. -/
structure Supervised (s : State) : Prop where
  layout : Layout s
  calls : Calls s
  seen : Seen s

theorem supervised_step (hs : Supervised s) (h : system.machine.step s move = some s') :
    Supervised s' :=
  ⟨layout_step hs.layout h,calls_step hs.layout hs.calls h,seen_step hs.layout hs.seen h⟩

theorem supervised_initial (reconnectable : Bool) : Supervised (initial reconnectable) :=
  ⟨layout_initial reconnectable,calls_initial reconnectable,
    fun conn generation h => by cases initial_thread h⟩

theorem missed_run (hs : Supervised s) {moves : List Move}
    (hrun : system.machine.run s moves = some s') :
    missed s' = false ↔
      missed s = false ∧ system.machine.Meets (fun s a => misses s a = false) s moves :=
  StepMachine.flag_run (fun _ _ _ hs h => supervised_step hs h)
    (fun _ _ _ hs h => missed_step hs.layout hs.calls hs.seen h) hs hrun

section Progress

def remaining : SupervisorPc → ℕ
  | .openReady _ => 10
  | .openPing _ => 9
  | .openPong _ => 8
  | .openWriter _ => 7
  | .spawning _ rest => rest.length + 1
  | _ => 0

/-- A bound on the steps of a call of `handle_disconnect` until it notifies. -/
def unannounced : DisconnectPc → ℕ
  | .storeReady _ => 2 * priorityLevels + 5
  | .clear _ p => 2 * (priorityLevels - p) + 4
  | .cleared _ p => 2 * (priorityLevels - p) + 3
  | .take _ => 2
  | .dropping _ _ => 1
  | _ => 0

theorem supervisor_go (h : serving pc = true) (hw : waits pc = false) (x : Client) :
    ∃ n x' r pc', superviseConnections pc .go = some n ∧ x.perform 0 n.action = some (x',r) ∧
      n.resume r = .supervisor pc' ∧ serving pc' = true ∧ remaining pc' < remaining pc ∧
      x'.connectionClosed = x.connectionClosed := by
  cases pc <;> first | (cases h; done) | (cases hw; done) | skip
  case spawning conn rest =>
    cases rest with
    | nil => exact ⟨_,_,_,_,rfl,rfl,rfl,rfl,by simp [remaining],rfl⟩
    | cons role rest => exact ⟨_,_,_,_,rfl,rfl,rfl,rfl,by simp [remaining],rfl⟩
  all_goals exact ⟨_,_,_,_,rfl,rfl,rfl,rfl,by simp [remaining],rfl⟩

theorem unannounced_nextClear (was : Bool) (p : ℕ) :
    unannounced (nextClear was p) ≤ 2 * (priorityLevels - p) + 2 := by
  simp only [nextClear]
  split <;> simp only [unannounced] <;> omega

theorem disconnect_go (h : notifies d = true) (hne : d ≠ .notify) (x : Client) (i : ℕ) :
    ∃ n x' r, handleDisconnect conn caller d .go = some n ∧
      x.perform i n.action = some (x',r) ∧
      ∀ d', n.resume r = .disconnecting conn d' caller → unannounced d' < unannounced d := by
  have hnext (was : Bool) (p : ℕ) := unannounced_nextClear was p
  cases d <;> simp only [notifies,reduceCtorEq,Bool.not_eq_true'] at h
  case notify => exact absurd rfl hne
  case clear was p =>
    refine ⟨_,(if (x.queue p).holder = none then
      x.setLevel p { (x.queue p).clear with holder := some i } else x),
      decide ((x.queue p).holder = none),rfl,?_,?_⟩
    · simp only [Client.perform]
      split <;> simp_all
    · intro d' hd
      cases hd
      split
      · simp [unannounced]
      · exact (hnext was p).trans_lt (by simp [unannounced])
  case cleared was p =>
    refine ⟨_,_,_,rfl,rfl,fun d' hd => ?_⟩
    cases hd
    exact (hnext was p).trans_lt (by simp [unannounced])
  case dropping was taken =>
    subst h
    refine ⟨_,_,_,rfl,rfl,fun d' hd => ?_⟩
    cases hd
    simp [unannounced]
  all_goals
    refine ⟨_,_,_,rfl,rfl,fun d' hd => ?_⟩
    cases hd
    simp [unannounced]

/-- The current connection `conn` is marked closed, and `run_connection` will hear of it. -/
structure Closing (s : State) (conn : ℕ) : Prop where
  supervised : Supervised s
  heard : missed s = false
  closed : s.shared.connectionClosed = true
  current : s.shared.connectionId = conn

theorem reaches_waiting (hs : Closing s conn)
    (h0 : ∃ pc, s.threads[0]? = some (.supervisor pc) ∧ serving pc = true) :
    ∃ moves s', system.machine.run s moves = some s' ∧ Closing s' conn ∧
      ∃ generation, s'.threads[0]? = some (.supervisor (.waiting conn generation)) := by
  have hstep : ∀ s, (Closing s conn ∧
      ∃ pc, s.threads[0]? = some (.supervisor pc) ∧ serving pc = true) →
      (supervisorPc s).any waits = true ∨ ∃ move s', system.machine.step s move = some s' ∧
        (Closing s' conn ∧ ∃ pc, s'.threads[0]? = some (.supervisor pc) ∧ serving pc = true) ∧
        (supervisorPc s').elim 0 remaining < (supervisorPc s).elim 0 remaining := by
    rintro s ⟨hs,pc,h0,hserving⟩
    rw [supervisorPc_eq h0]
    cases hwaits : waits pc with
    | true => exact .inl hwaits
    | false =>
      obtain ⟨n,x',r,pc',hact,hperf,hr,hserving',hlt,hclosed⟩ :=
        supervisor_go hserving hwaits s.shared
      obtain ⟨s',rfl,ht⟩ := turn_of_access h0 hact hperf
      have hself := ht.self
      rw [hr] at hself
      refine .inr ⟨_,_,ht.step,⟨⟨supervised_step hs.supervised ht.step,?_,?_,?_⟩,pc',hself,
        hserving'⟩,?_⟩
      · rw [missed_supervisor hs.supervised.layout ht,hs.heard]
      · exact hclosed.trans hs.closed
      · exact (serving_connectionId (supervisorStep_of_resume hact hr) hserving hperf).trans hs.current
      · rw [supervisorPc_eq hself]
        exact hlt
  obtain ⟨moves,s',hrun,⟨hs',pc,h0,-⟩,hwaits⟩ := StepMachine.exists_run _ hstep ⟨hs,h0⟩
  rw [supervisorPc_eq h0,Option.any_some] at hwaits
  cases pc <;> cases hwaits
  case waiting conn' generation =>
    obtain ⟨pc,hpc,hconn,-⟩ := hs'.supervised.layout.supervisor
    obtain rfl : pc = .waiting conn' generation := by simpa using hpc.symm.trans h0
    obtain rfl : conn' = conn := (hconn conn' rfl).trans hs'.current
    exact ⟨moves,s',hrun,hs',generation,h0⟩

theorem reaches_notify {supervisor : Task} (h0 : s.threads[0]? = some supervisor) (h0j : j ≠ 0)
    (hj : s.threads[j]? = some (.disconnecting conn d caller)) (hd : notifies d = true) :
    ∃ moves s', system.machine.run s moves = some s' ∧ s'.threads[0]? = some supervisor ∧
      s'.threads[j]? = some (.disconnecting conn .notify caller) := by
  let μ (s : State) : ℕ := s.threads[j]?.elim 0 fun
    | .disconnecting _ d _ => unannounced d
    | _ => 0
  have hstep : ∀ s, (s.threads[0]? = some supervisor ∧
      ∃ d, s.threads[j]? = some (.disconnecting conn d caller) ∧ notifies d = true) →
      s.threads[j]? = some (.disconnecting conn .notify caller) ∨
        ∃ move s', system.machine.step s move = some s' ∧ (s'.threads[0]? = some supervisor ∧
          ∃ d, s'.threads[j]? = some (.disconnecting conn d caller) ∧ notifies d = true) ∧
          μ s' < μ s := by
    rintro s ⟨h0,d,hj,hd⟩
    by_cases hne : d = .notify
    · exact .inl (hne ▸ hj)
    · obtain ⟨n,x',r,hact,hperf,hlt⟩ := disconnect_go hd hne s.shared j
      obtain ⟨d',hr,hd'⟩ := notifies_next hact hd hne r
      obtain ⟨s',rfl,ht⟩ := turn_of_access hj hact hperf
      have hself := ht.self
      rw [hr] at hself
      refine .inr ⟨_,s',ht.step,⟨ht.kept h0j.symm h0,d',hself,hd'⟩,?_⟩
      simp only [μ,hself,hj,Option.elim_some]
      exact hlt d' hr
  obtain ⟨moves,s',hrun,⟨h0',-⟩,hgoal⟩ := StepMachine.exists_run μ hstep ⟨h0,d,hj,hd⟩
  exact ⟨moves,s',hrun,h0',hgoal⟩

theorem woken_returns {generation : ℕ}
    (h0 : s.threads[0]? = some (.supervisor (.waiting conn generation)))
    (hlt : generation < s.shared.disconnectNotify conn) :
    ∃ s', system.machine.step s (.run 0 .go) = some s' ∧
      s'.threads[0]? = some (.supervisor (.leaving conn)) := by
  have hperf : s.shared.perform 0 (.awaitNotified conn generation) = some (s.shared,()) := by
    simp [Client.perform,hlt]
  let n : Next := ⟨.awaitNotified conn generation,fun _ => .supervisor (.leaving conn),none⟩
  obtain ⟨s',-,ht⟩ := turn_of_access (n := n) (c := .go) h0 rfl hperf
  exact ⟨s',ht.step,ht.self⟩

theorem notify_returns {generation : ℕ} (hs : Supervised s) (hj0 : j ≠ 0)
    (h0 : s.threads[0]? = some (.supervisor (.waiting conn generation)))
    (hj : s.threads[j]? = some (.disconnecting conn .notify caller)) :
    ∃ s', system.machine.run s [.run j .go,.run 0 .go] = some s' ∧
      s'.threads[0]? = some (.supervisor (.leaving conn)) := by
  let n : Next := ⟨.notifyDisconnect conn,fun _ => .disconnecting conn .checkReconnect caller,none⟩
  obtain ⟨s',hx,ht⟩ := turn_of_access (n := n) (c := .go) hj rfl rfl
  have hlt : generation < s'.shared.disconnectNotify conn := by
    rw [hx]
    simpa using Nat.lt_succ_of_le (hs.seen conn generation h0)
  obtain ⟨s'',hstep,hleaving⟩ := woken_returns (ht.kept hj0.symm h0) hlt
  exact ⟨s'',(StepMachine.run_cons_eq_some _).mpr
    ⟨s',ht.step,(StepMachine.run_cons_eq_some _).mpr ⟨s'',hstep,rfl⟩⟩,hleaving⟩

theorem returns (hs : Closing s conn)
    (h0 : ∃ pc, s.threads[0]? = some (.supervisor pc) ∧ serving pc = true) :
    ∃ moves s', system.machine.run s moves = some s' ∧
      s'.threads[0]? = some (.supervisor (.leaving conn)) := by
  obtain ⟨moves₁,s₁,hrun₁,hs₁,generation,hwaiting⟩ := reaches_waiting hs h0
  have hheard := hs₁.heard
  rw [missed_eq hwaiting,hs₁.closed] at hheard
  by_cases hlt : generation < s₁.shared.disconnectNotify conn
  · obtain ⟨s₂,hstep,hleaving⟩ := woken_returns hwaiting hlt
    exact ⟨moves₁ ++ [.run 0 .go],s₂,(StepMachine.run_append_eq_some _).mpr
      ⟨s₁,hrun₁,(StepMachine.run_cons_eq_some _).mpr ⟨s₂,hstep,rfl⟩⟩,hleaving⟩
  · have hnotifying : notifying s₁ = true := by simpa [serving,woken,hlt] using hheard
    obtain ⟨j,d,caller,hj,hd⟩ := notifying_iff.mp hnotifying
    rw [hs₁.current] at hj
    have hj0 : j ≠ 0 := by
      rintro rfl
      cases hj.symm.trans hwaiting
    obtain ⟨moves₂,s₂,hrun₂,hwaiting₂,hnotify⟩ := reaches_notify hwaiting hj0 hj hd
    have hs₂ : Supervised s₂ := StepMachine.invariant_of_step
      (fun _ _ _ hs h => supervised_step hs h) hs₁.supervised hrun₂
    obtain ⟨s₃,hrun₃,hleaving⟩ := notify_returns hs₂ hj0 hwaiting₂ hnotify
    exact ⟨moves₁ ++ (moves₂ ++ _),s₃,(StepMachine.run_append_eq_some _).mpr
      ⟨s₁,hrun₁,(StepMachine.run_append_eq_some _).mpr ⟨s₂,hrun₂,hrun₃⟩⟩,hleaving⟩

end Progress

/-- In a run without a step that misses it, a disconnect of the current connection is not
missed, and `run_connection` can return; after such a step it never does. -/
theorem supervisor_hears_disconnect (reconnectable : Bool) (moves : List Move) (s : State)
    (hrun : system.machine.run (initial reconnectable) moves = some s) :
    (system.machine.Meets (fun s move => misses s move = false) (initial reconnectable) moves →
      missed s = false ∧
      (s.shared.connectionClosed = true → (supervisorPc s).any serving = true →
        ∃ rest s', system.machine.run s rest = some s' ∧
          supervisorPc s' = some (.leaving s.shared.connectionId))) ∧
    (¬ system.machine.Meets (fun s move => misses s move = false) (initial reconnectable) moves →
      ∀ rest s', system.machine.run s rest = some s' →
        missed s' = true ∧ (supervisorPc s').any serving = true) := by
  have hinitial := supervised_initial reconnectable
  have hs : Supervised s := StepMachine.invariant_of_step
    (fun _ _ _ hs h => supervised_step hs h) hinitial hrun
  have hiff := missed_run hinitial hrun
  constructor
  · intro hmeets
    have hheard := hiff.mpr ⟨rfl,hmeets⟩
    refine ⟨hheard,fun hclosed hserving => ?_⟩
    obtain ⟨pc,h0,-⟩ := hs.layout.supervisor
    rw [supervisorPc_eq h0,Option.any_some] at hserving
    obtain ⟨rest,s',hrest,hleaving⟩ := returns ⟨hs,hheard,hclosed,rfl⟩ ⟨pc,h0,hserving⟩
    exact ⟨rest,s',hrest,supervisorPc_eq hleaving⟩
  · intro hmeets rest s' hrest
    have hmissed : missed s' = true := by
      by_contra hfalse
      have hheard := (missed_run hs hrest).mp (by simpa using hfalse)
      exact hmeets (hiff.mp hheard.1).2
    refine ⟨hmissed,?_⟩
    simp only [missed,Option.any_eq_true,Bool.and_eq_true] at hmissed ⊢
    obtain ⟨pc,hpc,⟨⟨hserving,-⟩,-⟩,-⟩ := hmissed
    exact ⟨pc,hpc,hserving⟩

theorem supervisor_hears_disconnect_waiting :
    ∃ s, system.machine.run (initial true) (opening ++ .run 1 (.event .ended) :: going 1 2) = some s ∧
      s.shared.connectionClosed = true ∧ missed s = false ∧
      ∃ rest s', system.machine.run s rest = some s' ∧
        supervisorPc s' = some (.leaving s.shared.connectionId) := by
  have hlast : (system.machine.run (initial true)
      (opening ++ .run 1 (.event .ended) :: going 1 2)).any (fun s =>
        s.shared.connectionClosed && (supervisorPc s).any serving) = true := by decide +kernel
  obtain ⟨s,hrun,hs⟩ := (Option.any_eq_true _ _).mp hlast
  rw [Bool.and_eq_true] at hs
  have hmeets : system.machine.Meets (fun s move => misses s move = false) (initial true)
      (opening ++ .run 1 (.event .ended) :: going 1 2) := by decide +kernel
  obtain ⟨hheard,hreturns⟩ := (supervisor_hears_disconnect true _ s hrun).1 hmeets
  exact ⟨s,hrun,hs.1,hheard,hreturns hs.1 hs.2⟩

/-- The reader is spawned first and may run `handle_disconnect` to its end before
`run_connection` creates its `Notified`. -/
def hangingUp : List Move :=
  going 0 1 ++ [.run 0 .ok] ++ going 0 6 ++ [.run 1 (.event .ended)] ++ going 1 47 ++ going 0 5

def disconnects : Task → Bool
  | .disconnecting .. => true
  | _ => false

/-- The disconnect of the first connection is missed, and `run_connection` waits for ever. -/
theorem hangingUp_missed :
    ∃ s, system.machine.run (initial true) hangingUp = some s ∧
      s.shared.connectionClosed = true ∧ s.threads.all (fun t => !disconnects t) = true ∧
      (supervisorPc s).any (fun pc => waits pc && !woken s.shared pc) = true ∧
      ∀ rest s', system.machine.run s rest = some s' → missed s' = true := by
  have hlast : (system.machine.run (initial true) hangingUp).any (fun s =>
      s.shared.connectionClosed && (s.threads.all (fun t => !disconnects t) &&
        ((supervisorPc s).any (fun pc => waits pc && !woken s.shared pc) && missed s))) = true := by
    decide +kernel
  obtain ⟨s,hrun,hs⟩ := (Option.any_eq_true _ _).mp hlast
  simp only [Bool.and_eq_true] at hs
  obtain ⟨hclosed,hidle,hwaiting,hmissed⟩ := hs
  refine ⟨s,hrun,hclosed,hidle,hwaiting,fun rest s' hrest => ?_⟩
  have hsupervised : Supervised s := StepMachine.invariant_of_step
    (fun _ _ _ hs h => supervised_step hs h) (supervised_initial true) hrun
  by_contra hfalse
  have hheard := (missed_run hsupervised hrest).mp (by simpa using hfalse)
  rw [hmissed] at hheard
  cases hheard.1

end SupervisorWakeup
end JobControllerClient
