import JobControllerClient.DisconnectRequests
import JobControllerClient.QueueHandoff

/-! `supervise_connections` under the two kinds of tokens. With a persistent one it never gives
up; with a one-shot one it connects once, and the end of that connection is final. -/
namespace JobControllerClient
namespace ConnectionSupervision

open Interleaving Websocket DisconnectMarks
open DisconnectRequests (perform_closed)

variable {s s' : State} {x x' : Client} {i j conn : ℕ} {t t' : Task} {c : Choice} {n : Next}
  {new : List Task} {move : Move}

section Access

variable {a : Action} {r : a.Answer}

theorem perform_reconnectable (h : x.perform i a = some (x',r)) :
    x'.reconnectable = x.reconnectable := by
  cases a <;> simp only [Client.perform] at h <;> (repeat' split at h) <;>
    simp only [Option.some.injEq,Prod.mk.injEq,Option.map_eq_some_iff,reduceCtorEq] at h <;>
    first
    | (obtain ⟨rfl,-⟩ := h; rfl)
    | (obtain ⟨_,-,rfl,-⟩ := h; rfl)

theorem perform_shutdown (h : x.perform i a = some (x',r)) :
    x'.shutdown = x.shutdown ∨ a = .signalShutdown ∧ x'.shutdown = true := by
  cases a <;> simp only [Client.perform] at h <;> (repeat' split at h) <;>
    simp only [Option.some.injEq,Prod.mk.injEq,Option.map_eq_some_iff,reduceCtorEq] at h
  case signalShutdown =>
    obtain ⟨rfl,-⟩ := h
    exact .inr ⟨rfl,rfl⟩
  all_goals first
    | (obtain ⟨rfl,-⟩ := h; exact .inl rfl)
    | (obtain ⟨_,-,rfl,-⟩ := h; exact .inl rfl)

end Access

theorem perform_loadReconnectable {value : Bool}
    (h : x.perform i .loadReconnectable = some (x',value)) : x.reconnectable = value := by
  simp only [Client.perform,Option.some.injEq,Prod.mk.injEq] at h
  exact h.2

def unopened : SupervisorPc → Bool
  | .start | .connecting _ | .openClosed _ => true
  | _ => false

def Notified (x : Client) : Prop := ∃ conn, x.disconnectNotify conn ≠ 0

/-- What the supervisor of a one-shot token knows at each place. -/
def Known (x : Client) : SupervisorPc → Prop
  | .start => x.connectionId = 0
  | .sleeping => False
  | .leaving _ | .checkReconnect => x.connectionId = 1 ∧ Notified x
  | .failReady | .failReconnect | .stopping => x.connectionId = 1 ∧ x.connectionClosed = true
  | .done => x.connectionId = 1 ∧ (Notified x ∨ x.shutdown = true ∧ x.connectionClosed = true)
  | _ => x.connectionId = 1

/-- A call that has notified the supervisor is about to ask the main loop to stop. -/
def Signalling (s : State) : Prop := ∃ (j : ℕ) (conn : ℕ) (pc : DisconnectPc) (caller : Caller),
  s.threads[j]? = some (.disconnecting conn pc caller) ∧ (pc = .checkReconnect ∨ pc = .shutdown)

structure OneShot (s : State) : Prop where
  token : s.shared.reconnectable = false
  supervisor : ∀ pc, s.threads[0]? = some (.supervisor pc) → Known s.shared pc
  unopened : ∀ pc, s.threads[0]? = some (.supervisor pc) → unopened pc = true → ¬ Opened s
  opened : s.shared.disconnects ≠ [] → Opened s
  marked : ∀ (j : ℕ) conn pc caller, s.threads[j]? = some (.disconnecting conn pc caller) →
    marked pc = true → s.shared.disconnects ≠ []
  notified : Notified s.shared → s.shared.disconnects ≠ []
  closed : s.shared.disconnects ≠ [] → s.shared.connectionClosed = true
  signalled : Notified s.shared → s.shared.shutdown = true ∨ Signalling s

section Grow

variable {a : Action} {r : a.Answer}

theorem perform_notified (h : x.perform i a = some (x',r)) (hx : Notified x) : Notified x' := by
  obtain ⟨conn,hconn⟩ := hx
  by_cases hmarks : onMarks a = true
  · cases a <;> simp only [onMarks,reduceCtorEq] at hmarks <;>
      simp only [Client.perform,Option.some.injEq,Prod.mk.injEq] at h <;> rw [← h.1]
    case notifyDisconnect conn' =>
      refine ⟨conn',?_⟩
      simp
    all_goals exact ⟨conn,hconn⟩
  · exact ⟨conn,by rwa [(perform_marks h (by simpa using hmarks)).2.2.2]⟩

theorem perform_notified_inv (h : x.perform i a = some (x',r)) (hx : Notified x') :
    Notified x ∨ ∃ conn, a = .notifyDisconnect conn := by
  by_cases hmarks : onMarks a = true
  · cases a <;> simp only [onMarks,reduceCtorEq] at hmarks <;>
      simp only [Client.perform,Option.some.injEq,Prod.mk.injEq] at h
    case notifyDisconnect conn => exact .inr ⟨conn,rfl⟩
    all_goals exact .inl (by rw [← h.1] at hx; exact hx)
  · obtain ⟨conn,hconn⟩ := hx
    exact .inl ⟨conn,by rwa [(perform_marks h (by simpa using hmarks)).2.2.2] at hconn⟩

theorem perform_signalled (h : x.perform i a = some (x',r)) (hx : x.shutdown = true) :
    x'.shutdown = true := by
  rcases perform_shutdown h with hsame | ⟨-,hset⟩
  · exact hsame.trans hx
  · exact hset

theorem perform_disconnects (h : x.perform i a = some (x',r)) (hx : x.disconnects ≠ []) :
    x'.disconnects ≠ [] := by
  have hle := QueueHandoff.disconnects_le h
  have hpos := List.length_pos_iff.mpr hx
  exact List.length_pos_iff.mp (hpos.trans_le hle)

theorem perform_disconnects_inv (h : x.perform i a = some (x',r)) (hx : x'.disconnects ≠ []) :
    x.disconnects ≠ [] ∨ ∃ conn, a = .swapClosed conn := by
  by_cases hmarks : onMarks a = true
  · cases a <;> simp only [onMarks,reduceCtorEq] at hmarks <;>
      simp only [Client.perform,Option.some.injEq,Prod.mk.injEq] at h
    case swapClosed conn => exact .inr ⟨conn,rfl⟩
    all_goals exact .inl (by rw [← h.1] at hx; exact hx)
  · exact .inl (by rwa [(perform_marks h (by simpa using hmarks)).2.2.1] at hx)

theorem known_kept (pc : SupervisorPc) (h : x.perform i a = some (x',r))
    (hnext : a ≠ .nextConnection) (hopen : a ≠ .storeClosed false) (hpc : Known x pc) :
    Known x' pc := by
  have hid := perform_connectionId h hnext
  have hclosed := perform_closed h hopen
  have hnotified := perform_notified h
  have hshutdown := perform_signalled h
  cases pc with
  | sleeping => exact hpc
  | start => exact hid.trans hpc
  | leaving _ | checkReconnect => exact ⟨hid.trans hpc.1,hnotified hpc.2⟩
  | failReady | failReconnect | stopping => exact ⟨hid.trans hpc.1,hclosed hpc.2⟩
  | done => exact ⟨hid.trans hpc.1,hpc.2.imp hnotified fun hend => ⟨hshutdown hend.1,hclosed hend.2⟩⟩
  | _ => exact hid.trans hpc

/-- The supervisor's own steps, the connection being neither renewed nor numbered twice. -/
theorem known_self {pc pc' : SupervisorPc} (hstep : SupervisorStep pc a r pc')
    (h : x.perform i a = some (x',r)) (htoken : x.reconnectable = false) (hpc : Known x pc) :
    Known x' pc' := by
  cases hstep with
  | start conn =>
    simp only [Client.perform,Option.some.injEq,Prod.mk.injEq] at h
    rw [← h.1]
    exact congrArg (· + 1) (show x.connectionId = 0 from hpc)
  | reconnect => cases htoken.symm.trans (perform_loadReconnectable h)
  | retry => cases htoken.symm.trans (perform_loadReconnectable h)
  | wake => exact hpc.elim
  | openClosed conn =>
    simp only [Client.perform,Option.some.injEq,Prod.mk.injEq] at h
    rw [← h.1]
    exact hpc
  | failClosed =>
    simp only [Client.perform,Option.some.injEq,Prod.mk.injEq] at h
    rw [← h.1]
    exact ⟨hpc,rfl⟩
  | notified conn generation =>
    have hnotify := perform_awaitNotified h rfl
    exact known_kept (.leaving conn) h (by simp) (by simp) ⟨hpc,conn,hnotify⟩
  | stop =>
    simp only [Client.perform,Option.some.injEq,Prod.mk.injEq] at h
    rw [← h.1]
    exact ⟨hpc.1,.inr ⟨rfl,hpc.2⟩⟩
  | leave conn => exact known_kept .checkReconnect h (by simp) (by simp) hpc
  | finish => exact known_kept .done h (by simp) (by simp) ⟨hpc.1,.inl hpc.2⟩
  | failReady => exact known_kept .failReconnect h (by simp) (by simp) hpc
  | giveUp => exact known_kept .stopping h (by simp) (by simp) hpc
  | connected | refused | openReady | openPing | openPong | openWriter | spawn | staffed =>
    exact (perform_connectionId h (by simp)).trans hpc

end Grow

theorem unopened_inv {pc pc' : SupervisorPc} {a : Action} {r : a.Answer}
    (hstep : SupervisorStep pc a r pc') (hpc : unopened pc' = true) :
    unopened pc = true ∨ pc = .sleeping := by
  cases hstep with
  | start | connected => exact .inl rfl
  | wake => exact .inr rfl
  | _ => cases hpc

section Turn

variable (hlayout : Layout s) (hs : OneShot s) (ht : Turn system s s' i t c t' new)

include hlayout hs ht

theorem known_turn {pc : SupervisorPc} (h0 : s'.threads[0]? = some (.supervisor pc)) :
    Known s'.shared pc := by
  obtain ⟨n,r,hact,hperf,rfl,-⟩ := turn_access ht
  obtain ⟨pc₀,hpc₀,-⟩ := hlayout.supervisor
  by_cases hi : i = 0
  · subst hi
    obtain rfl : t = .supervisor pc₀ := Option.some.inj (ht.thread.symm.trans hpc₀)
    rw [ht.self,Option.some.injEq] at h0
    exact known_self (supervisorStep_of_resume hact h0) hperf hs.token (hs.supervisor pc₀ hpc₀)
  · have hnot : ∀ pc, t ≠ .supervisor pc := by
      rintro pc rfl
      exact hi (hlayout.only i pc ht.thread)
    have hperforms := act_performs hact
    rw [ht.kept (Ne.symm hi) hpc₀] at h0
    cases h0
    refine known_kept pc hperf (fun ha => ?_) (fun ha => ?_) (hs.supervisor pc hpc₀)
    · rw [ha] at hperforms
      exact hnot _ hperforms
    · rw [ha] at hperforms
      obtain ⟨conn,hopen⟩ := hperforms
      exact hnot _ hopen

theorem unopened_turn {pc : SupervisorPc} (h0 : s'.threads[0]? = some (.supervisor pc))
    (hpc : unopened pc = true) : ¬ Opened s' := by
  intro hopened
  have hidle : serving pc = false := by cases pc <;> first | rfl | cases hpc
  have hold := opened_of_idle hlayout ht h0 hidle hopened
  rcases supervisor_turn hlayout ht h0 with hkept | ⟨rfl,ht',pc₀,rfl⟩
  · exact hs.unopened pc hkept hpc hold
  · obtain ⟨n,r,hact,-,rfl,-⟩ := turn_access ht
    rcases unopened_inv (supervisorStep_of_resume hact ht') hpc with hpc₀ | rfl
    · exact hs.unopened pc₀ ht.thread hpc₀ hold
    · exact hs.supervisor .sleeping ht.thread

theorem closed_turn (hmarked : s'.shared.disconnects ≠ []) : s'.shared.connectionClosed = true := by
  obtain ⟨n,r,hact,hperf,-,-⟩ := turn_access ht
  have hperforms := act_performs hact
  rcases perform_disconnects_inv hperf hmarked with hold | ⟨conn,ha⟩
  · refine perform_closed hperf (fun ha => ?_) (hs.closed hold)
    -- the flag is lowered once, before any task could mark the connection
    rw [ha] at hperforms
    obtain ⟨conn,rfl⟩ := hperforms
    obtain rfl := hlayout.only i _ ht.thread
    exact hs.unopened _ ht.thread rfl (hs.opened hold)
  · rw [ha] at hperforms
    obtain ⟨caller,rfl⟩ := hperforms
    cases c <;> cases hact
    simp only [Client.perform,Option.some.injEq,Prod.mk.injEq] at hperf
    rw [← hperf.1]

omit hlayout in
theorem signalled_turn (hnotified : Notified s'.shared) :
    s'.shared.shutdown = true ∨ Signalling s' := by
  obtain ⟨n,r,hact,hperf,rfl,-⟩ := turn_access ht
  rcases perform_notified_inv hperf hnotified with hold | ⟨conn,ha⟩
  · rcases hs.signalled hold with hdone | ⟨j,conn,pc,caller,hj,hpc⟩
    · exact .inl (perform_signalled hperf hdone)
    · by_cases hji : j = i
      · subst hji
        obtain rfl : t = .disconnecting conn pc caller := Option.some.inj (ht.thread.symm.trans hj)
        rcases hpc with rfl | rfl
        · cases c <;> cases hact
          have hvalue := perform_loadReconnectable hperf
          rw [hs.token] at hvalue
          subst hvalue
          exact .inr ⟨j,conn,.shutdown,caller,ht.self,.inr rfl⟩
        · cases c <;> cases hact
          simp only [Client.perform,Option.some.injEq,Prod.mk.injEq] at hperf
          exact .inl (by rw [← hperf.1])
      · exact .inr ⟨j,conn,pc,caller,ht.kept hji hj,hpc⟩
  · have hperforms := act_performs hact
    rw [ha] at hperforms
    obtain ⟨caller,rfl⟩ := hperforms
    cases c <;> cases hact
    exact .inr ⟨i,conn,.checkReconnect,caller,ht.self,.inl rfl⟩

theorem oneShot_turn : OneShot s' := by
  obtain ⟨n,r,hact,hperf,rfl,-⟩ := turn_access ht
  have hperforms := act_performs hact
  refine ⟨(perform_reconnectable hperf).trans hs.token,fun pc => known_turn hlayout hs ht,
    fun pc => unopened_turn hlayout hs ht,fun hmarked => ?_,fun j conn pc caller hj hpc => ?_,
    fun hnotified => ?_,closed_turn hlayout hs ht,signalled_turn hs ht⟩
  · rcases perform_disconnects_inv hperf hmarked with hold | ⟨conn,ha⟩
    · exact opened_step ht.step (hs.opened hold)
    · rw [ha] at hperforms
      obtain ⟨caller,rfl⟩ := hperforms
      exact opened_step ht.step ⟨conn,staffed_disconnecting ht.thread⟩
  · rcases disconnecting_turn ht hj hpc with ⟨-,hold⟩ | ⟨rfl,rfl,-⟩ | ⟨rfl,pc₀,rfl,hpc₀,-⟩
    · exact perform_disconnects hperf (hs.marked j conn pc caller hold hpc)
    · cases c <;> cases hact
      simp only [Client.perform,Option.some.injEq,Prod.mk.injEq] at hperf
      simp [← hperf.1]
    · exact perform_disconnects hperf (hs.marked j conn pc₀ caller ht.thread hpc₀)
  · rcases perform_notified_inv hperf hnotified with hold | ⟨conn,ha⟩
    · exact perform_disconnects hperf (hs.notified hold)
    · rw [ha] at hperforms
      obtain ⟨caller,rfl⟩ := hperforms
      exact perform_disconnects hperf (hs.marked i conn .notify caller ht.thread rfl)

end Turn

theorem oneShot_step (hlayout : Layout s) (hs : OneShot s)
    (h : system.machine.step s move = some s') : OneShot s' := by
  cases move with
  | arrive u =>
    obtain ⟨hu,rfl⟩ := step_arrive h
    have hopened : Opened s → Opened ⟨s.shared,s.threads ++ [u]⟩ := opened_step h
    refine ⟨hs.token,fun pc h0 => hs.supervisor pc (arrive_old hu h0 rfl),
      fun pc h0 hpc hnow => hs.unopened pc (arrive_old hu h0 rfl) hpc (opened_arrive hu hnow),
      fun hmarked => hopened (hs.opened hmarked),
      fun j conn pc caller hj => hs.marked j conn pc caller (arrive_old hu hj rfl),
      hs.notified,hs.closed,fun hnotified => ?_⟩
    rcases hs.signalled hnotified with hdone | ⟨j,conn,pc,caller,hj,hpc⟩
    · exact .inl hdone
    · exact .inr ⟨j,conn,pc,caller,arrive_kept hj,hpc⟩
  | run i c =>
    obtain ⟨t,t',new,ht⟩ := step_run h
    exact oneShot_turn hlayout hs ht

theorem oneShot_initial : OneShot (initial false) := by
  refine ⟨rfl,fun pc h0 => ?_,fun pc h0 hpc => unopened_initial false,fun hmarked => ?_,
    fun j conn pc caller hj => ?_,fun hnotified => ?_,fun hmarked => ?_,fun hnotified => ?_⟩
  · cases initial_thread h0
    rfl
  · exact (hmarked rfl).elim
  · cases initial_thread hj
  · obtain ⟨conn,hconn⟩ := hnotified
    exact (hconn rfl).elim
  · exact (hmarked rfl).elim
  · obtain ⟨conn,hconn⟩ := hnotified
    exact (hconn rfl).elim

end ConnectionSupervision
end JobControllerClient
