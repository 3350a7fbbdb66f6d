import JobControllerClient.ConnectionTasks

/-! The life of a connection as the flags show it: it is open while `run_connection`
serves it and no call of `handle_disconnect` has marked it, and the supervisor goes on
only after the call that found it open has notified it. -/
namespace JobControllerClient
namespace DisconnectMarks

open Interleaving Websocket

/-- The call of `handle_disconnect` has marked the connection closed. -/
def marked : DisconnectPc → Bool
  | .checkId | .swap => false
  | _ => true

/-- The call found the connection open and has not notified the supervisor yet. -/
def notifies : DisconnectPc → Bool
  | .storeReady was | .clear was _ | .cleared was _ | .take was | .dropping was _ => !was
  | .notify => true
  | _ => false

/-- `run_connection` has opened its connection and has not returned. -/
def serving : SupervisorPc → Bool
  | .openReady _ | .openPing _ | .openPong _ | .openWriter _ | .spawning .. | .waiting .. => true
  | _ => false

/-- A task of the connection has been spawned. -/
def Staffed (s : State) (conn : ℕ) : Prop :=
  ∃ (j : ℕ) (t : Task) (role : Role), s.threads[j]? = some t ∧ t.kind = .worker conn role

def Opened (s : State) : Prop := ∃ conn, Staffed s conn

/-- A superseded call of `handle_disconnect` is about to mark the connection closed. -/
def staleMark (s : State) : Move → Bool
  | .run i _ => s.threads[i]?.any fun
    | .disconnecting conn .swap _ => conn ≠ s.shared.connectionId
    | _ => false
  | _ => false

/-- What the calls for the current connection have done so far. -/
structure Calls (s : State) : Prop where
  marked : ∀ (j : ℕ) pc caller,
    s.threads[j]? = some (.disconnecting s.shared.connectionId pc caller) → marked pc = true →
      s.shared.connectionClosed = true
  notified : s.shared.disconnectNotify s.shared.connectionId ≠ 0 → s.shared.connectionClosed = true
  staffed : ∀ conn, s.shared.disconnectNotify conn ≠ 0 → Staffed s conn
  silent : ∀ (j : ℕ) pc caller,
    s.threads[j]? = some (.disconnecting s.shared.connectionId pc caller) → notifies pc = true →
      s.shared.disconnectNotify s.shared.connectionId = 0
  single : ∀ (j j' : ℕ) pc pc' caller caller',
    s.threads[j]? = some (.disconnecting s.shared.connectionId pc caller) → notifies pc = true →
      s.threads[j']? = some (.disconnecting s.shared.connectionId pc' caller') →
        notifies pc' = true → j = j'

structure Marks (s : State) : Prop extends Calls s where
  idle : ∀ pc, s.threads[0]? = some (.supervisor pc) → serving pc = false → Opened s →
    s.shared.connectionClosed = true
  serving : ∀ pc, s.threads[0]? = some (.supervisor pc) → serving pc = true →
    s.shared.connectionClosed = true → Opened s
  disconnected : s.shared.disconnects ≠ [] → Opened s
  ready : s.shared.serverReady = true → Opened s

variable {s s' : State} {x x' : Client} {i j conn : ℕ} {t t' : Task} {c : Choice} {n : Next}
  {new : List Task} {move : Move} {caller : Caller}

theorem marked_of_notifies {pc : DisconnectPc} (h : notifies pc = true) : marked pc = true := by
  cases pc <;> first | rfl | cases h

/-- The accesses that the marks depend on. -/
def onMarks : Action → Bool
  | .storeClosed _ | .swapClosed _ | .nextConnection | .notifyDisconnect _ => true
  | _ => false

theorem perform_marks {a : Action} {r : a.Answer} (h : x.perform i a = some (x',r))
    (ha : onMarks a = false) : x'.connectionClosed = x.connectionClosed ∧
      x'.connectionId = x.connectionId ∧ x'.disconnects = x.disconnects ∧
      x'.disconnectNotify = x.disconnectNotify := by
  cases a <;> simp only [onMarks,reduceCtorEq] at ha <;>
    simp only [Client.perform] at h <;> (repeat' split at h) <;>
    simp only [Option.some.injEq,Prod.mk.injEq,Option.map_eq_some_iff,reduceCtorEq] at h <;>
    first
    | (obtain ⟨rfl,-⟩ := h; exact ⟨rfl,rfl,rfl,rfl⟩)
    | (obtain ⟨_,-,rfl,-⟩ := h; exact ⟨rfl,rfl,rfl,rfl⟩)

theorem staffed_step (h : system.machine.step s move = some s') (hs : Staffed s conn) :
    Staffed s' conn := by
  obtain ⟨j,t,role,hj,hk⟩ := hs
  cases move with
  | arrive u =>
    obtain ⟨-,rfl⟩ := step_arrive h
    exact ⟨j,t,role,arrive_kept hj,hk⟩
  | run i c =>
    obtain ⟨u,u',new,ht⟩ := step_run h
    obtain ⟨n,r,hact,-,rfl,-⟩ := turn_access ht
    by_cases hji : j = i
    · subst hji
      rw [ht.thread,Option.some.injEq] at hj
      subst hj
      exact ⟨j,_,role,ht.self,by rw [act_kind hact r,hk]⟩
    · exact ⟨j,t,role,ht.kept hji hj,hk⟩

theorem opened_step (h : system.machine.step s move = some s') (hs : Opened s) : Opened s' := by
  obtain ⟨conn,hconn⟩ := hs
  exact ⟨conn,staffed_step h hconn⟩

theorem arrive_old {u v : Task} (hu : entry u = true) (hj : (s.threads ++ [u])[j]? = some v)
    (hv : entry v = false) : s.threads[j]? = some v := by
  rcases arrive_cases hj with hold | ⟨-,rfl⟩
  · exact hold
  · rw [hu] at hv
    cases hv

theorem staffed_arrive {u : Task} (hu : entry u = true)
    (h : Staffed ⟨s.shared,s.threads ++ [u]⟩ conn) : Staffed s conn := by
  obtain ⟨j,v,role,hj,hk⟩ := h
  rcases arrive_cases hj with hold | ⟨-,rfl⟩
  · exact ⟨j,v,role,hold,hk⟩
  · rcases entry_cases hu with ⟨_,_,_,rfl⟩ | ⟨_,rfl⟩ <;> cases hk

theorem opened_arrive {u : Task} (hu : entry u = true)
    (h : Opened ⟨s.shared,s.threads ++ [u]⟩) : Opened s := by
  obtain ⟨conn,hconn⟩ := h
  exact ⟨conn,staffed_arrive hu hconn⟩

theorem staffed_turn (ht : Turn system s s' i t c t' new) (hs : Staffed s' conn) :
    Staffed s conn ∨ ∃ role rest, t = .supervisor (.spawning conn (role :: rest)) := by
  obtain ⟨j,u,role,hj,hk⟩ := hs
  rcases kind_cases ht hj with ⟨v,hv,hvk⟩ | ⟨conn',role',rest,hspawn,-,rfl⟩
  · exact .inl ⟨j,v,role,hv,by rw [← hvk,hk]⟩
  · rw [role_kind] at hk
    cases hk
    exact .inr ⟨role,rest,hspawn⟩

theorem disconnecting_turn {pc : DisconnectPc} (ht : Turn system s s' i t c t' new)
    (hj : s'.threads[j]? = some (.disconnecting conn pc caller)) (hpc : marked pc = true) :
    (j ≠ i ∧ s.threads[j]? = some (.disconnecting conn pc caller)) ∨
      (j = i ∧ t = .disconnecting conn .swap caller ∧
        pc = .storeReady s.shared.connectionClosed) ∨
      (j = i ∧ ∃ pc₀, t = .disconnecting conn pc₀ caller ∧ marked pc₀ = true ∧
        (notifies pc = true → notifies pc₀ = true)) := by
  obtain ⟨n,r,hact,hperf,rfl,rfl⟩ := turn_access ht
  rcases ht.thread_cases hj with ⟨rfl,hself⟩ | hold | ⟨-,hnew⟩
  · rcases disconnecting_inv hact hself.symm with rfl | ⟨pc₀,rfl,hdisc⟩
    · cases hpc
    · refine .inr ?_
      have hnext : ∀ {was p}, Task.disconnecting conn (nextClear was p) caller =
          .disconnecting conn pc caller → notifies pc = !was := by
        intro was p h
        simp only [nextClear] at h
        split at h <;> cases h <;> rfl
      have hafter : afterDisconnect conn caller ≠ .disconnecting conn pc caller := by
        cases caller <;> simp [afterDisconnect]
      cases pc₀ <;> cases c <;> cases hdisc <;> dsimp only at hself
      case checkId.go.refl =>
        split at hself
        · cases hself
          cases hpc
        · exact absurd hself.symm hafter
      case swap.go.refl =>
        simp only [Client.perform,Option.some.injEq,Prod.mk.injEq] at hperf
        cases hself
        exact .inl ⟨rfl,rfl,by rw [hperf.2]⟩
      case storeReady.go.refl was =>
        cases hself
        exact .inr ⟨rfl,_,rfl,rfl,id⟩
      case clear.go.refl was p =>
        refine .inr ⟨rfl,_,rfl,rfl,fun hn => ?_⟩
        split at hself
        · cases hself
          exact hn
        · rwa [hnext hself.symm] at hn
      case cleared.go.refl was p =>
        refine .inr ⟨rfl,_,rfl,rfl,fun hn => ?_⟩
        rwa [hnext hself.symm] at hn
      case take.go.refl was =>
        cases hself
        exact .inr ⟨rfl,_,rfl,rfl,id⟩
      case dropping.go.refl was taken =>
        split at hself
        · exact absurd hself.symm hafter
        · rename_i hwas
          cases hself
          exact .inr ⟨rfl,_,rfl,rfl,fun _ => by simpa [notifies] using hwas⟩
      case notify.go.refl =>
        cases hself
        exact .inr ⟨rfl,_,rfl,rfl,fun _ => rfl⟩
      case checkReconnect.go.refl =>
        split at hself
        · exact absurd hself.symm hafter
        · cases hself
          exact .inr ⟨rfl,_,rfl,rfl,fun hn => by cases hn⟩
      case shutdown.go.refl => exact absurd hself.symm hafter
  · exact .inl hold
  · obtain ⟨conn',role,rest,rfl,hu,-⟩ := act_spawned hact (by simpa using hnew)
    cases role <;> cases hu

theorem serving_inv {pc pc' : SupervisorPc} {a : Action} {r : a.Answer}
    (hstep : SupervisorStep pc a r pc') (h : serving pc' = true) :
    serving pc = true ∨ a = .storeClosed false := by
  cases hstep with
  | openClosed => exact .inr rfl
  | openReady | openPing | openPong | openWriter | spawn | staffed => exact .inl rfl
  | _ => cases h

theorem idle_inv {pc pc' : SupervisorPc} {a : Action} {r : a.Answer}
    (hstep : SupervisorStep pc a r pc') (h : serving pc' = false) :
    serving pc = false ∨
      ∃ conn generation, pc = .waiting conn generation ∧ a = .awaitNotified conn generation := by
  cases hstep with
  | notified conn generation => exact .inr ⟨conn,generation,rfl,rfl⟩
  | openReady | openPing | openPong | openWriter | spawn | staffed => cases h
  | _ => exact .inl rfl

theorem perform_awaitNotified {generation : ℕ} {a : Action} {r : a.Answer}
    (h : x.perform i a = some (x',r)) (ha : a = .awaitNotified conn generation) :
    x.disconnectNotify conn ≠ 0 := by
  subst ha
  simp only [Client.perform] at h
  split at h
  · omega
  · cases h

theorem ready_turn (hs : Marks s) (ht : Turn system s s' i t c t' new)
    (hready : s'.shared.serverReady = true) : Opened s' := by
  obtain ⟨n,r,hact,hperf,-,-⟩ := turn_access ht
  rcases perform_serverReady hperf hready with hold | ha
  · exact opened_step ht.step (hs.ready hold)
  · have hperfs := act_performs hact
    rw [ha] at hperfs
    obtain ⟨conn,rfl⟩ := hperfs
    exact opened_step ht.step ⟨conn,i,_,.reader,ht.thread,rfl⟩

theorem supervisor_turn {pc : SupervisorPc} (hlayout : Layout s)
    (ht : Turn system s s' i t c t' new) (h0 : s'.threads[0]? = some (.supervisor pc)) :
    s.threads[0]? = some (.supervisor pc) ∨
      (i = 0 ∧ t' = .supervisor pc ∧ ∃ pc₀, t = .supervisor pc₀) := by
  obtain ⟨pc₀,hpc₀,-⟩ := hlayout.supervisor
  by_cases hi : i = 0
  · subst hi
    rw [ht.self,Option.some.injEq] at h0
    exact .inr ⟨rfl,h0,pc₀,Option.some.inj (ht.thread.symm.trans hpc₀)⟩
  · rw [ht.kept (Ne.symm hi) hpc₀] at h0
    exact .inl (hpc₀.trans h0)

theorem opened_of_idle {pc : SupervisorPc} (hlayout : Layout s)
    (ht : Turn system s s' i t c t' new) (h0 : s'.threads[0]? = some (.supervisor pc))
    (hidle : serving pc = false) (hopened : Opened s') : Opened s := by
  obtain ⟨conn,hstaffed⟩ := hopened
  rcases staffed_turn ht hstaffed with hold | ⟨role,rest,rfl⟩
  · exact ⟨conn,hold⟩
  · obtain rfl := hlayout.only i _ ht.thread
    obtain ⟨n,r,hact,-,rfl,-⟩ := turn_access ht
    cases c <;> cases hact
    rw [ht.self] at h0
    cases h0
    cases hidle

theorem idle_cases {pc : SupervisorPc} (hlayout : Layout s) (ht : Turn system s s' i t c t' new)
    (h0 : s'.threads[0]? = some (.supervisor pc)) (hidle : serving pc = false) :
    (∃ pc₀, s.threads[0]? = some (.supervisor pc₀) ∧ serving pc₀ = false) ∨
      s.shared.disconnectNotify s.shared.connectionId ≠ 0 := by
  rcases supervisor_turn hlayout ht h0 with hkept | ⟨rfl,ht',pc₀,rfl⟩
  · exact .inl ⟨pc,hkept,hidle⟩
  · obtain ⟨n,r,hact,hperf,rfl,-⟩ := turn_access ht
    rcases idle_inv (supervisorStep_of_resume hact ht') hidle with hidle₀ | ⟨conn,generation,rfl,ha⟩
    · exact .inl ⟨pc₀,ht.thread,hidle₀⟩
    · obtain ⟨pc₁,hpc₁,hconn,-⟩ := hlayout.supervisor
      rw [ht.thread,Option.some.injEq,Task.supervisor.injEq] at hpc₁
      subst hpc₁
      have hcurrent := hconn conn rfl
      subst hcurrent
      exact .inr (perform_awaitNotified hperf ha)

theorem idle_turn {pc : SupervisorPc} (hlayout : Layout s) (hs : Marks s)
    (ht : Turn system s s' i t c t' new) (h0 : s'.threads[0]? = some (.supervisor pc))
    (hidle : serving pc = false) (hopened : Opened s') : s.shared.connectionClosed = true := by
  rcases idle_cases hlayout ht h0 hidle with ⟨pc₀,h0',hidle₀⟩ | hcount
  · exact hs.idle pc₀ h0' hidle₀ (opened_of_idle hlayout ht h0 hidle hopened)
  · exact hs.notified hcount

theorem serving_turn {pc : SupervisorPc} (hlayout : Layout s) (hs : Marks s)
    (ht : Turn system s s' i t c t' new) (h0 : s'.threads[0]? = some (.supervisor pc))
    (hserving : serving pc = true) (hne : ∀ conn, t ≠ .supervisor (.openClosed conn))
    (hclosed : s.shared.connectionClosed = true) : Opened s' := by
  rcases supervisor_turn hlayout ht h0 with hold | ⟨rfl,ht',pc₀,rfl⟩
  · exact opened_step ht.step (hs.serving pc hold hserving hclosed)
  · obtain ⟨n,r,hact,hperf,rfl,-⟩ := turn_access ht
    rcases serving_inv (supervisorStep_of_resume hact ht') hserving with hserving₀ | ha
    · exact opened_step ht.step (hs.serving pc₀ ht.thread hserving₀ hclosed)
    · have hperfs := act_performs hact
      rw [ha] at hperfs
      obtain ⟨conn,hopen⟩ := hperfs
      exact absurd hopen (hne conn)

theorem unstaffed {pc : SupervisorPc} (hlayout : Layout s)
    (h0 : s.threads[0]? = some (.supervisor pc))
    (hall : pc.unspawned = [.reader,.writer,.scheduler,.pinger,.pruner]) :
    ¬ Staffed s s.shared.connectionId := by
  rintro ⟨j,t,role,hj,hk⟩
  obtain ⟨pc₀,hpc₀,-,-,hout⟩ := hlayout.supervisor
  rw [h0,Option.some.injEq,Task.supervisor.injEq] at hpc₀
  subst hpc₀
  refine hout j t role hj hk ?_
  rw [hall]
  cases role <;> decide

theorem staffed_disconnecting {pc : DisconnectPc}
    (h : s.threads[j]? = some (.disconnecting conn pc caller)) : Staffed s conn :=
  ⟨j,_,caller.role,h,rfl⟩

theorem marked_turn {pc : DisconnectPc} (ht : Turn system s s' i t c t' new)
    (hne : ∀ conn caller, t ≠ .disconnecting conn .swap caller)
    (hj : s'.threads[j]? = some (.disconnecting conn pc caller)) (hpc : marked pc = true) :
    ∃ pc₀, s.threads[j]? = some (.disconnecting conn pc₀ caller) ∧ marked pc₀ = true ∧
      (notifies pc = true → notifies pc₀ = true) := by
  rcases disconnecting_turn ht hj hpc with ⟨-,hold⟩ | ⟨-,hswap,-⟩ | ⟨rfl,pc₀,rfl,hpc₀⟩
  · exact ⟨pc,hold,hpc,id⟩
  · exact absurd hswap (hne _ _)
  · exact ⟨pc₀,ht.thread,hpc₀⟩

section Calls

theorem calls_kept (hs : Calls s) (ht : Turn system s s' i t c t' new)
    (hne : ∀ conn caller, t ≠ .disconnecting conn .swap caller)
    (hid : s'.shared.connectionId = s.shared.connectionId)
    (hclosed : s.shared.connectionClosed = true → s'.shared.connectionClosed = true)
    (hnotify : s'.shared.disconnectNotify = s.shared.disconnectNotify) : Calls s' := by
  constructor <;> (try rw [hid]) <;> try rw [hnotify]
  case marked =>
    intro j pc caller hj hpc
    obtain ⟨pc₀,hj₀,hpc₀,-⟩ := marked_turn ht hne hj hpc
    exact hclosed (hs.marked j pc₀ caller hj₀ hpc₀)
  case notified => exact fun hcount => hclosed (hs.notified hcount)
  case staffed => exact fun conn hcount => staffed_step ht.step (hs.staffed conn hcount)
  case silent =>
    intro j pc caller hj hpc
    obtain ⟨pc₀,hj₀,-,hpc₀⟩ := marked_turn ht hne hj (marked_of_notifies hpc)
    exact hs.silent j pc₀ caller hj₀ (hpc₀ hpc)
  case single =>
    intro j j' pc pc' caller caller' hj hpc hj' hpc'
    obtain ⟨pc₀,hj₀,-,hpc₀⟩ := marked_turn ht hne hj (marked_of_notifies hpc)
    obtain ⟨pc₁,hj₁,-,hpc₁⟩ := marked_turn ht hne hj' (marked_of_notifies hpc')
    exact hs.single j j' pc₀ pc₁ caller caller' hj₀ (hpc₀ hpc) hj₁ (hpc₁ hpc')

theorem calls_unstaffed (hstaffed : ∀ conn, s.shared.disconnectNotify conn ≠ 0 → Staffed s conn)
    (hnone : ¬ Staffed s s.shared.connectionId) : Calls s where
  marked _ _ _ hj _ := absurd (staffed_disconnecting hj) hnone
  notified hcount := absurd (hstaffed _ hcount) hnone
  staffed := hstaffed
  silent _ _ _ hj _ := absurd (staffed_disconnecting hj) hnone
  single _ _ _ _ _ _ hj _ _ _ := absurd (staffed_disconnecting hj) hnone

theorem calls_notify (hs : Calls s)
    (ht : Turn system s s' i (.disconnecting conn .notify caller) c t' new) : Calls s' := by
  have hback : ∀ {j : ℕ} {conn' pc caller'},
      s'.threads[j]? = some (.disconnecting conn' pc caller') → marked pc = true →
      ∃ pc₀, s.threads[j]? = some (.disconnecting conn' pc₀ caller') ∧ marked pc₀ = true ∧
        (notifies pc = true → notifies pc₀ = true) := marked_turn ht (by simp)
  obtain ⟨n,r,hact,hperf,rfl,-⟩ := turn_access ht
  cases c <;> cases hact
  simp only [Client.perform,Option.some.injEq,Prod.mk.injEq] at hperf
  have hx := hperf.1.symm
  constructor <;> simp only [hx]
  case marked =>
    intro j pc caller hj hpc
    obtain ⟨pc₀,hj₀,hpc₀,-⟩ := hback hj hpc
    exact hs.marked j pc₀ caller hj₀ hpc₀
  case notified =>
    intro hcount
    by_cases hcurrent : s.shared.connectionId = conn
    · subst hcurrent
      exact hs.marked i _ _ ht.thread rfl
    · rw [Function.update_of_ne hcurrent] at hcount
      exact hs.notified hcount
  case staffed =>
    intro conn' hcount
    by_cases hconn : conn' = conn
    · subst hconn
      exact staffed_step ht.step (staffed_disconnecting ht.thread)
    · rw [Function.update_of_ne hconn] at hcount
      exact staffed_step ht.step (hs.staffed conn' hcount)
  case silent =>
    intro j pc caller' hj hpc
    obtain ⟨pc₀,hj₀,-,hpc₀⟩ := hback hj (marked_of_notifies hpc)
    by_cases hcurrent : s.shared.connectionId = conn
    · -- the notifying call is the only one, and it is past its notification now
      subst hcurrent
      obtain rfl := hs.single j i _ _ _ _ hj₀ (hpc₀ hpc) ht.thread rfl
      rw [ht.self] at hj
      cases hj
      cases hpc
    · rw [Function.update_of_ne hcurrent]
      exact hs.silent j pc₀ caller' hj₀ (hpc₀ hpc)
  case single =>
    intro j j' pc pc' caller caller' hj hpc hj' hpc'
    obtain ⟨pc₀,hj₀,-,hpc₀⟩ := hback hj (marked_of_notifies hpc)
    obtain ⟨pc₁,hj₁,-,hpc₁⟩ := hback hj' (marked_of_notifies hpc')
    exact hs.single j j' pc₀ pc₁ caller caller' hj₀ (hpc₀ hpc) hj₁ (hpc₁ hpc')

theorem Calls.open (hs : Calls s) (hopen : s.shared.connectionClosed = false)
    {pc : DisconnectPc}
    (hj : s.threads[j]? = some (.disconnecting s.shared.connectionId pc caller)) :
    notifies pc = false := by
  by_contra hpc
  have hclosed := hs.marked j pc caller hj (marked_of_notifies (by simpa using hpc))
  rw [hopen] at hclosed
  cases hclosed

theorem calls_swap (hs : Calls s)
    (ht : Turn system s s' i (.disconnecting conn .swap caller) c t' new) : Calls s' := by
  have hback : ∀ {j : ℕ} {pc caller'},
      s'.threads[j]? = some (.disconnecting s.shared.connectionId pc caller') →
      notifies pc = true → (j ≠ i ∧ s.threads[j]? = some (.disconnecting s.shared.connectionId pc
        caller')) ∨ (j = i ∧ s.shared.connectionClosed = false) := by
    intro j pc caller' hj hpc
    rcases disconnecting_turn ht hj (marked_of_notifies hpc) with hold | ⟨hji,-,rfl⟩ |
      ⟨-,pc₀,hswap,hpc₀,-⟩
    · exact .inl hold
    · exact .inr ⟨hji,by simpa [notifies] using hpc⟩
    · cases hswap
      cases hpc₀
  obtain ⟨n,r,hact,hperf,rfl,-⟩ := turn_access ht
  cases c <;> cases hact
  simp only [Client.perform,Option.some.injEq,Prod.mk.injEq] at hperf
  have hx := hperf.1.symm
  constructor <;> simp only [hx]
  case marked => simp
  case notified => simp
  case staffed => exact fun conn hcount => staffed_step ht.step (hs.staffed conn hcount)
  case silent =>
    intro j pc caller' hj hpc
    rcases hback hj hpc with ⟨-,hold⟩ | ⟨-,hfalse⟩
    · exact hs.silent j pc caller' hold hpc
    · by_contra hcount
      have hclosed := hs.notified hcount
      rw [hfalse] at hclosed
      cases hclosed
  case single =>
    intro j j' pc pc' caller₁ caller₂ hj hpc hj' hpc'
    rcases hback hj hpc with ⟨-,hold⟩ | ⟨rfl,hfalse⟩
    · rcases hback hj' hpc' with ⟨-,hold'⟩ | ⟨-,hfalse⟩
      · exact hs.single j j' pc pc' caller₁ caller₂ hold hpc hold' hpc'
      · rw [hs.open hfalse hold] at hpc
        cases hpc
    · rcases hback hj' hpc' with ⟨-,hold'⟩ | ⟨rfl,-⟩
      · rw [hs.open hfalse hold'] at hpc'
        cases hpc'
      · rfl

theorem marks_cases (ht : Turn system s s' i t c t' new) :
    (∃ n r, act t c = some n ∧ s.shared.perform i n.action = some (s'.shared,r) ∧
      onMarks n.action = false) ∨
    (∃ conn, t = .supervisor (.openClosed conn)) ∨ t = .supervisor .failClosed ∨
    (∃ conn caller, t = .disconnecting conn .swap caller) ∨ t = .supervisor .start ∨
    ∃ conn caller, t = .disconnecting conn .notify caller := by
  obtain ⟨n,r,hact,hperf,-,-⟩ := turn_access ht
  have hperfs := act_performs hact
  cases ha : onMarks n.action with
  | false => exact .inl ⟨n,r,hact,hperf,ha⟩
  | true =>
    generalize n.action = a at ha hperfs
    cases a <;> simp only [onMarks,reduceCtorEq] at ha
    case storeClosed value =>
      cases value with
      | false => exact .inr (.inl hperfs)
      | true => exact .inr (.inr (.inl hperfs))
    case swapClosed conn => exact .inr (.inr (.inr (.inl ⟨conn,hperfs⟩)))
    case nextConnection => exact .inr (.inr (.inr (.inr (.inl hperfs))))
    case notifyDisconnect conn => exact .inr (.inr (.inr (.inr (.inr ⟨conn,hperfs⟩))))

theorem not_swap_of_onMarks (hact : act t c = some n) (ha : onMarks n.action = false) :
    ∀ conn caller, t ≠ .disconnecting conn .swap caller := by
  rintro conn caller rfl
  cases c <;> cases hact
  cases ha

theorem calls_step (hlayout : Layout s) (hs : Calls s)
    (h : system.machine.step s move = some s') : Calls s' := by
  cases move with
  | arrive u =>
    obtain ⟨he,rfl⟩ := step_arrive h
    have hold : ∀ {j : ℕ} {v : Task}, (s.threads ++ [u])[j]? = some v → entry v = false →
        s.threads[j]? = some v := arrive_old he
    exact ⟨fun j pc caller hj => hs.marked j pc caller (hold hj rfl),hs.notified,
      fun conn hcount => staffed_step h (hs.staffed conn hcount),
      fun j pc caller hj => hs.silent j pc caller (hold hj rfl),
      fun j j' pc pc' caller caller' hj hpc hj' => hs.single j j' pc pc' caller caller'
        (hold hj rfl) hpc (hold hj' rfl)⟩
  | run i c =>
    obtain ⟨t,t',new,ht⟩ := step_run h
    have hstaffed : ∀ conn, s.shared.disconnectNotify conn ≠ 0 → Staffed s' conn :=
      fun conn hcount => staffed_step h (hs.staffed conn hcount)
    rcases marks_cases ht with ⟨n,r,hact,hperf,ha⟩ | ⟨conn,rfl⟩ | rfl | ⟨conn,caller,rfl⟩ | rfl |
      ⟨conn,caller,rfl⟩
    · obtain ⟨hclosed,hid,-,hnotify⟩ := perform_marks hperf ha
      exact calls_kept hs ht (not_swap_of_onMarks hact ha) hid (by rw [hclosed]; exact id) hnotify
    · -- `run_connection` opens a connection that has no task yet
      obtain rfl := hlayout.only i _ ht.thread
      have hlayout' := layout_step hlayout h
      obtain ⟨n,r,hact,hperf,rfl,-⟩ := turn_access ht
      cases c <;> cases hact
      simp only [Client.perform,Option.some.injEq,Prod.mk.injEq] at hperf
      exact calls_unstaffed (by simpa only [← hperf.1] using hstaffed)
        (unstaffed hlayout' ht.self rfl)
    · obtain ⟨n,r,hact,hperf,-,-⟩ := turn_access ht
      cases c <;> cases hact
      simp only [Client.perform,Option.some.injEq,Prod.mk.injEq] at hperf
      have hx := hperf.1.symm
      exact calls_kept hs ht (by simp) (by rw [hx]) (fun _ => by rw [hx]) (by rw [hx])
    · exact calls_swap hs ht
    · obtain rfl := hlayout.only i _ ht.thread
      have hlayout' := layout_step hlayout h
      obtain ⟨n,r,hact,hperf,rfl,-⟩ := turn_access ht
      cases c <;> cases hact
      have hnone := unstaffed hlayout' ht.self rfl
      simp only [Client.perform,Option.some.injEq,Prod.mk.injEq] at hperf
      exact calls_unstaffed (by simpa only [← hperf.1] using hstaffed) hnone
    · exact calls_notify hs ht

theorem initial_thread {reconnectable : Bool} (h : (initial reconnectable).threads[j]? = some t) :
    t = .supervisor .start := by
  cases j <;> simp_all [initial]

theorem unopened_initial (reconnectable : Bool) : ¬ Opened (initial reconnectable) := by
  rintro ⟨conn,j,t,role,hj,hk⟩
  rw [initial_thread hj] at hk
  cases hk

theorem calls_initial (reconnectable : Bool) : Calls (initial reconnectable) :=
  calls_unstaffed (fun _ h => absurd rfl h) fun h => unopened_initial reconnectable ⟨_,h⟩

end Calls

/-- The marks after a turn, from the calls and what the turn does to the flags. -/
theorem marks_of_calls (hs : Marks s) (ht : Turn system s s' i t c t' new) (hcalls : Calls s')
    (hidle : ∀ pc, s'.threads[0]? = some (.supervisor pc) → serving pc = false → Opened s' →
      s'.shared.connectionClosed = true)
    (hserving : ∀ pc, s'.threads[0]? = some (.supervisor pc) → serving pc = true →
      s'.shared.connectionClosed = true → Opened s')
    (hdisconnects : s'.shared.disconnects ≠ [] → Opened s') : Marks s' :=
  ⟨hcalls,hidle,hserving,hdisconnects,ready_turn hs ht⟩

theorem marks_step (hlayout : Layout s) (hs : Marks s) (hstale : staleMark s move = false)
    (h : system.machine.step s move = some s') : Marks s' := by
  have hcalls := calls_step hlayout hs.toCalls h
  cases move with
  | arrive u =>
    obtain ⟨he,rfl⟩ := step_arrive h
    have hopened : Opened s → Opened ⟨s.shared,s.threads ++ [u]⟩ := opened_step h
    have hold : ∀ {j : ℕ} {v : Task}, (s.threads ++ [u])[j]? = some v → entry v = false →
        s.threads[j]? = some v := arrive_old he
    exact ⟨hcalls,fun pc h0 hidle ho => hs.idle pc (hold h0 rfl) hidle (opened_arrive he ho),
      fun pc h0 hserving hclosed => hopened (hs.serving pc (hold h0 rfl) hserving hclosed),
      fun hne => hopened (hs.disconnected hne),fun hready => hopened (hs.ready hready)⟩
  | run i c =>
    obtain ⟨t,t',new,ht⟩ := step_run h
    have hidle : ∀ pc, s'.threads[0]? = some (.supervisor pc) → serving pc = false → Opened s' →
        s.shared.connectionClosed = true := fun pc => idle_turn hlayout hs ht
    have hopened : s.shared.disconnects ≠ [] → Opened s' :=
      fun hne => opened_step h (hs.disconnected hne)
    rcases marks_cases ht with ⟨n,r,hact,hperf,ha⟩ | ⟨conn,rfl⟩ | rfl | ⟨conn,caller,rfl⟩ | rfl |
      ⟨conn,caller,rfl⟩
    · obtain ⟨hclosed,-,hdisconnects,-⟩ := perform_marks hperf ha
      rw [← hclosed] at hidle
      refine marks_of_calls hs ht hcalls hidle (fun pc h0 hserving => ?_)
        (by rwa [hdisconnects])
      rw [hclosed]
      refine serving_turn hlayout hs ht h0 hserving ?_
      rintro conn rfl
      cases c <;> cases hact
      cases ha
    · obtain rfl := hlayout.only i _ ht.thread
      obtain ⟨n,r,hact,hperf,rfl,-⟩ := turn_access ht
      cases c <;> cases hact
      simp only [Client.perform,Option.some.injEq,Prod.mk.injEq] at hperf
      refine marks_of_calls hs ht hcalls (fun pc h0 hidle => ?_) ?_ ?_
      · rw [ht.self] at h0
        cases h0
        cases hidle
      · simp [← hperf.1]
      · rwa [← hperf.1]
    · obtain rfl := hlayout.only i _ ht.thread
      obtain ⟨n,r,hact,hperf,rfl,-⟩ := turn_access ht
      cases c <;> cases hact
      simp only [Client.perform,Option.some.injEq,Prod.mk.injEq] at hperf
      refine marks_of_calls hs ht hcalls (fun _ _ _ _ => by rw [← hperf.1])
        (fun pc h0 hserving => ?_) (by rwa [← hperf.1])
      rw [ht.self] at h0
      cases h0
      cases hserving
    · obtain rfl : conn = s.shared.connectionId := by simpa [staleMark,ht.thread] using hstale
      have hmarked : Opened s' := ⟨_,staffed_step h (staffed_disconnecting ht.thread)⟩
      obtain ⟨n,r,hact,hperf,-,-⟩ := turn_access ht
      cases c <;> cases hact
      simp only [Client.perform,Option.some.injEq,Prod.mk.injEq] at hperf
      exact marks_of_calls hs ht hcalls (fun _ _ _ _ => by rw [← hperf.1])
        (fun _ _ _ _ => hmarked) fun _ => hmarked
    · obtain rfl := hlayout.only i _ ht.thread
      obtain ⟨n,r,hact,hperf,rfl,-⟩ := turn_access ht
      cases c <;> cases hact
      simp only [Client.perform,Option.some.injEq,Prod.mk.injEq] at hperf
      refine marks_of_calls hs ht hcalls (by simpa only [← hperf.1] using hidle)
        (fun pc h0 hserving => ?_) (by rwa [← hperf.1])
      rw [ht.self] at h0
      cases h0
      cases hserving
    · have hserving : ∀ pc, s'.threads[0]? = some (.supervisor pc) → serving pc = true →
          s.shared.connectionClosed = true → Opened s' :=
        fun pc h0 h => serving_turn hlayout hs ht h0 h (by simp)
      obtain ⟨n,r,hact,hperf,-,-⟩ := turn_access ht
      cases c <;> cases hact
      simp only [Client.perform,Option.some.injEq,Prod.mk.injEq] at hperf
      have hx := hperf.1.symm
      exact marks_of_calls hs ht hcalls (by rwa [hx]) (by rwa [hx]) (by rwa [hx])

theorem marks_initial (reconnectable : Bool) : Marks (initial reconnectable) := by
  refine ⟨calls_initial reconnectable,
    fun pc _ _ hopened => absurd hopened (unopened_initial reconnectable),fun pc h0 hserving => ?_,
    fun h => absurd rfl h,fun h => by cases h⟩
  cases initial_thread h0
  cases hserving

theorem closed_turn (hlayout : Layout s) (hs : Marks s) (ht : Turn system s s' i t c t' new)
    (hne : ∀ conn caller, t ≠ .disconnecting conn .swap caller)
    (hclosed : s'.shared.connectionClosed = true) (hopened : Opened s') :
    s.shared.connectionClosed = true ∧ Opened s := by
  obtain ⟨n,r,hact,hperf,rfl,-⟩ := turn_access ht
  have hperfs := act_performs hact
  obtain ⟨conn,hstaffed⟩ := hopened
  rcases staffed_turn ht hstaffed with hold | ⟨role,rest,rfl⟩
  · refine ⟨?_,conn,hold⟩
    cases ha : onMarks n.action with
    | false => rwa [(perform_marks hperf ha).1] at hclosed
    | true =>
      rcases n with ⟨a,resume,spawned⟩
      cases a <;> simp only [onMarks,reduceCtorEq] at ha <;>
        simp only [Client.perform,Option.some.injEq,Prod.mk.injEq] at hperf <;>
        rw [← hperf.1] at hclosed
      case storeClosed value =>
        obtain rfl : value = true := hclosed
        obtain rfl : t = .supervisor .failClosed := hperfs
        obtain rfl := hlayout.only i _ ht.thread
        exact hs.idle _ ht.thread rfl ⟨conn,hold⟩
      case swapClosed conn =>
        obtain ⟨caller,hswap⟩ := hperfs
        exact absurd hswap (hne conn caller)
      case nextConnection => exact hclosed
      case notifyDisconnect conn => exact hclosed
  · obtain rfl := hlayout.only i _ ht.thread
    cases c <;> cases hact
    rw [(perform_marks hperf rfl).1] at hclosed
    exact ⟨hclosed,hs.serving _ ht.thread rfl hclosed⟩

end DisconnectMarks
end JobControllerClient
