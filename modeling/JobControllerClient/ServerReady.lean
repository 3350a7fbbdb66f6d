import JobControllerClient.QueueHandoff
import JobControllerClient.ResponseCorrelation

/-! The gate of `SERVER_READY`: a message is handed to the writer of a connection only after the
server has announced itself on that very connection. The flag is shared by all connections, and
a superseded reader that has passed its check may still set it. -/
namespace JobControllerClient
namespace ServerReady

open Interleaving Websocket Messaging DisconnectMarks
open QueueHandoff (perform_handed)
open ResponseCorrelation (perform_received connectionId_le)

def Announced (x : Client) (conn : ℕ) : Prop :=
  ∃ r ∈ x.received, r.conn = conn ∧ (Message.fromData r.data).id = MessageId.serverReady

/-- A superseded reader is about to set the flag. -/
def staleReady (s : State) : Move → Bool
  | .run i _ => s.threads[i]?.any fun
    | .reader conn .ready => conn ≠ s.shared.connectionId
    | _ => false
  | _ => false

/-- The flag may still be the one of the connection before. -/
def renewing : SupervisorPc → Bool
  | .connecting _ | .openClosed _ | .openReady _ | .failClosed | .failReady => true
  | _ => false

def ReaderGate (x : Client) (conn : ℕ) : ReaderPc → Prop
  | .dataCheck _ bytes => (Message.fromData bytes).id = MessageId.serverReady → Announced x conn
  | .handleCheck _ message => message.id = MessageId.serverReady → Announced x conn
  | .ready => Announced x conn
  | _ => True

/-- A scheduler has seen the flag, and later its own connection id once more. -/
def SchedulerGate (x : Client) (conn : ℕ) : SchedulerPc → Prop
  | .checkClosed | .top _ => conn = x.connectionId → Announced x conn
  | .pop _ | .popped .. | .sending .. | .probe .. | .peeked .. => Announced x conn
  | _ => True

def TaskGate (x : Client) : Task → Prop
  | .reader conn pc => ReaderGate x conn pc
  | .scheduler conn pc => SchedulerGate x conn pc
  | _ => True

structure Gate (s : State) : Prop where
  tasks : ∀ (j : ℕ) t, s.threads[j]? = some t → TaskGate s.shared t
  flag : ∀ pc, s.threads[0]? = some (.supervisor pc) → renewing pc = false →
    s.shared.serverReady = true → Announced s.shared s.shared.connectionId
  unstaffed : ∀ pc, s.threads[0]? = some (.supervisor pc) → renewing pc = true →
    ¬ Staffed s s.shared.connectionId
  handed : ∀ item conn, (item,conn) ∈ s.shared.handed → Announced s.shared conn

variable {s s' : State} {x x' : Client} {i j conn : ℕ} {t t' : Task} {c : Choice} {n : Next}
  {new : List Task} {move : Move}

section Access

variable {a : Action} {r : a.Answer}

theorem announced_kept (h : x.perform i a = some (x',r)) (hx : Announced x conn) :
    Announced x' conn := by
  obtain ⟨f,hf,hconn⟩ := hx
  rcases perform_received h with hsame | ⟨_,_,-,happend⟩
  · exact ⟨f,hsame ▸ hf,hconn⟩
  · exact ⟨f,happend ▸ List.mem_append_left _ hf,hconn⟩

theorem perform_nextConnection (h : x.perform i a = some (x',r)) (ha : a = .nextConnection) :
    x'.connectionId = x.connectionId + 1 := by
  subst ha
  simp only [Client.perform,Option.some.injEq,Prod.mk.injEq] at h
  rw [← h.1]

theorem perform_storeReady {value : Bool} (h : x.perform i a = some (x',r))
    (ha : a = .storeReady value) : x'.serverReady = value := by
  subst ha
  simp only [Client.perform,Option.some.injEq,Prod.mk.injEq] at h
  rw [← h.1]

theorem taskGate_kept (h : x.perform i a = some (x',r))
    (hbound : ∀ conn role, t.kind = .worker conn role → conn ≤ x.connectionId)
    (ht : TaskGate x t) : TaskGate x' t := by
  have hle := connectionId_le h
  cases t with
  | reader conn pc =>
    cases pc with
    | dataCheck frame bytes => exact fun hid => announced_kept h (ht hid)
    | handleCheck frame message => exact fun hid => announced_kept h (ht hid)
    | ready => exact announced_kept h ht
    | _ => trivial
  | scheduler conn pc =>
    -- the id has only grown, so a current scheduler was current before
    have hcurrent : conn = x'.connectionId → conn = x.connectionId := by
      intro hconn
      have := hbound conn .scheduler rfl
      omega
    cases pc with
    | checkClosed | top scan => exact fun hconn => announced_kept h (ht (hcurrent hconn))
    | pop _ | popped _ _ | sending _ _ | probe _ _ | peeked _ _ _ => exact announced_kept h ht
    | _ => trivial
  | _ => trivial

end Access

theorem schedulerGate_of_announced (h : Announced x conn) (pc : SchedulerPc) :
    SchedulerGate x conn pc := by
  cases pc <;> first | exact h | exact fun _ => h | trivial

theorem scheduler_self {pc pc' : SchedulerPc} {r : n.action.Answer}
    (hact : schedule conn pc c = some n) (h : x.perform i n.action = some (x',r))
    (hflag : conn = x.connectionId → x.serverReady = true → Announced x conn)
    (hpc : SchedulerGate x conn pc) (hr : n.resume r = .scheduler conn pc') :
    SchedulerGate x conn pc' := by
  cases pc with
  | pop _ | sending _ _ | probe _ _ | peeked _ _ _ => exact schedulerGate_of_announced hpc pc'
  | popped scan found => exact schedulerGate_of_announced hpc pc'
  | checkReady =>
    cases c <;> cases hact
    simp only [Client.perform,Option.some.injEq,Prod.mk.injEq] at h
    obtain ⟨-,rfl⟩ := h
    dsimp only at hr
    split at hr <;> cases hr
    · rename_i hready
      exact fun hconn => hflag hconn hready
    · trivial
  | checkClosed =>
    cases c <;> cases hact
    dsimp only at hr
    split at hr <;> cases hr
    · trivial
    · exact hpc
  | top scan =>
    cases c <;> cases hact
    simp only [Client.perform,Option.some.injEq,Prod.mk.injEq] at h
    obtain ⟨-,rfl⟩ := h
    dsimp only at hr
    by_cases hid : x.connectionId = conn
    · exact schedulerGate_of_announced (hpc hid.symm) pc'
    · rw [if_neg hid] at hr
      cases hr
      trivial
  | poll | checkId =>
    cases c <;> cases hact
    dsimp only at hr
    split at hr <;> cases hr <;> trivial
  | parked | leaving =>
    cases c <;> cases hact
    cases hr
    trivial
  | done => cases c <;> cases hact

theorem reader_self {pc pc' : ReaderPc} {r : n.action.Answer} (hact : readLoop conn pc c = some n)
    (h : x.perform i n.action = some (x',r)) (hpc : ReaderGate x conn pc)
    (hr : n.resume r = .reader conn pc') : ReaderGate x' conn pc' := by
  have hevent : ∀ event, handleEvent conn event = .reader conn pc' → ReaderGate x' conn pc' := by
    intro event he
    cases event <;> cases he <;> trivial
  cases pc with
  | next =>
    cases c <;> cases hact
    case data.refl bytes =>
      cases hr
      simp only [Client.perform,Option.some.injEq,Prod.mk.injEq] at h
      obtain ⟨rfl,-⟩ := h
      exact fun hid => ⟨_,List.mem_append_right _ List.mem_cons_self,rfl,hid⟩
    case event.refl event =>
      dsimp only at hr
      split at hr
      · exact hevent event hr
      · cases hr
        trivial
  | dataCheck frame bytes =>
    cases c <;> cases hact
    dsimp only at hr
    split at hr <;> cases hr
    · exact fun hid => announced_kept h (hpc hid)
    · trivial
  | eventCheck event =>
    cases c <;> cases hact
    dsimp only at hr
    split at hr
    · exact hevent event hr
    · cases hr
      trivial
  | handleCheck frame message =>
    cases c <;> cases hact
    dsimp only at hr
    split at hr
    · cases hr
      unfold dispatch
      split
      · rename_i hid
        exact announced_kept h (hpc hid)
      · split <;> trivial
    · cases hr
      trivial
  | pongCheck =>
    cases c <;> cases hact
    dsimp only at hr
    split at hr <;> cases hr <;> trivial
  | ready | readyNotify | respond _ _ | pongStore =>
    cases c <;> cases hact
    cases hr
    trivial
  | done => cases c <;> cases hact

theorem renewing_inv {pc pc' : SupervisorPc} {a : Action} {r : a.Answer}
    (hstep : SupervisorStep pc a r pc') (h : renewing pc' = false) :
    renewing pc = false ∨ a = .storeReady false := by
  cases hstep with
  | openReady | failReady => exact .inr rfl
  | start | connected | refused | openClosed | failClosed => cases h
  | _ => exact .inl rfl

theorem renewing_cases {pc pc' : SupervisorPc} {a : Action} {r : a.Answer}
    (hstep : SupervisorStep pc a r pc') (h : renewing pc' = true) :
    renewing pc = true ∨ a = .nextConnection := by
  cases hstep with
  | start => exact .inr rfl
  | connected | refused | openClosed | failClosed => exact .inl rfl
  | _ => cases h

section Turn

theorem unstaffed_turn (hlayout : Layout s) (hs : Gate s) (ht : Turn system s s' i t c t' new)
    {pc : SupervisorPc} (h0 : s'.threads[0]? = some (.supervisor pc)) (hpc : renewing pc = true) :
    ¬ Staffed s' s'.shared.connectionId := by
  intro hstaffed
  obtain ⟨n,r,hact,hperf,rfl,-⟩ := turn_access ht
  have hperforms := act_performs hact
  by_cases hnext : n.action = .nextConnection
  · rw [hnext] at hperforms
    have hid := perform_nextConnection hperf hnext
    rcases staffed_turn ht hstaffed with ⟨j,u,role,hj,hk⟩ | ⟨role,rest,hspawn⟩
    · have hbound := hlayout.bound j u _ role hj hk
      omega
    · rw [hspawn] at hperforms
      cases hperforms
  · have hid := perform_connectionId hperf hnext
    obtain ⟨pc₀,h0',hpc₀⟩ : ∃ pc₀, s.threads[0]? = some (.supervisor pc₀) ∧ renewing pc₀ = true := by
      rcases supervisor_turn hlayout ht h0 with hkept | ⟨rfl,ht',pc₀,rfl⟩
      · exact ⟨pc,hkept,hpc⟩
      · rcases renewing_cases (supervisorStep_of_resume hact ht') hpc with hpc₀ | ha
        · exact ⟨pc₀,ht.thread,hpc₀⟩
        · exact absurd ha hnext
    rcases staffed_turn ht hstaffed with hold | ⟨role,rest,rfl⟩
    · exact hs.unstaffed pc₀ h0' hpc₀ (hid ▸ hold)
    · obtain rfl := hlayout.only i _ ht.thread
      rw [ht.thread] at h0'
      cases h0'
      cases hpc₀

/-- The flag belongs to the current connection, unless a superseded reader sets it. -/
theorem flag_turn (hlayout : Layout s) (hs : Gate s) (ht : Turn system s s' i t c t' new)
    (hstale : staleReady s (.run i c) = false) {pc : SupervisorPc}
    (h0 : s'.threads[0]? = some (.supervisor pc)) (hpc : renewing pc = false)
    (hready : s'.shared.serverReady = true) : Announced s'.shared s'.shared.connectionId := by
  obtain ⟨n,r,hact,hperf,rfl,-⟩ := turn_access ht
  have hperforms := act_performs hact
  have hnext : n.action ≠ .nextConnection := by
    intro ha
    rw [ha] at hperforms
    subst hperforms
    obtain rfl := hlayout.only i _ ht.thread
    cases c <;> cases hact
    rw [ht.self] at h0
    cases h0
    cases hpc
  rw [perform_connectionId hperf hnext]
  rcases perform_serverReady hperf hready with hold | ha
  · refine announced_kept hperf ?_
    rcases supervisor_turn hlayout ht h0 with hkept | ⟨rfl,ht',pc₀,rfl⟩
    · exact hs.flag pc hkept hpc hold
    · rcases renewing_inv (supervisorStep_of_resume hact ht') hpc with hpc₀ | ha
      · exact hs.flag pc₀ ht.thread hpc₀ hold
      · cases (perform_storeReady hperf ha).symm.trans hready
  · rw [ha] at hperforms
    obtain ⟨conn,rfl⟩ := hperforms
    have hconn : conn = s.shared.connectionId := by
      simpa [staleReady,ht.thread] using hstale
    exact announced_kept hperf (hconn ▸ hs.tasks i _ ht.thread)

theorem tasks_turn (hlayout : Layout s) (hs : Gate s) (ht : Turn system s s' i t c t' new)
    {u : Task} (hu : s'.threads[j]? = some u) : TaskGate s'.shared u := by
  obtain ⟨n,r,hact,hperf,rfl,rfl⟩ := turn_access ht
  rcases ht.thread_cases hu with ⟨rfl,rfl⟩ | ⟨-,hold⟩ | ⟨-,hnew⟩
  · have hkind := act_kind hact r
    have hgate := hs.tasks j t ht.thread
    cases hr : n.resume r with
    | reader conn pc' =>
      rw [hr] at hkind
      cases t with
      | reader conn' pc =>
        cases hkind
        exact reader_self hact hperf hgate hr
      | disconnecting conn' pc caller =>
        rcases handleDisconnect_shape hact r with ⟨pc₁,hr'⟩ | hr'
        · cases hr'.symm.trans hr
        · rw [hr] at hr'
          cases caller <;> cases hr'
          trivial
      | queueing pc key => cases key <;> cases hkind
      | _ => cases hkind
    | scheduler conn pc' =>
      rw [hr] at hkind
      obtain ⟨pc,rfl⟩ := scheduler_of_kind hkind.symm
      have hflag : conn = s.shared.connectionId → s.shared.serverReady = true →
          Announced s.shared conn := by
        rintro rfl hready
        obtain ⟨spc,h0,-⟩ := hlayout.supervisor
        have hspc : renewing spc = false := by
          by_contra hrenewing
          exact hs.unstaffed spc h0 (by simpa using hrenewing) ⟨j,_,.scheduler,ht.thread,rfl⟩
        exact hs.flag spc h0 hspc hready
      have hbound : ∀ conn' role, (Task.scheduler conn pc').kind = .worker conn' role →
          conn' ≤ s.shared.connectionId := by
        rintro conn' role ⟨⟩
        exact hlayout.bound j _ conn .scheduler ht.thread rfl
      have hself : TaskGate s.shared (.scheduler conn pc') :=
        scheduler_self hact hperf hflag hgate hr
      exact taskGate_kept hperf hbound hself
    | _ => trivial
  · exact taskGate_kept hperf (fun conn role hk => hlayout.bound j u conn role hold hk)
      (hs.tasks j u hold)
  · obtain ⟨conn,role,rest,-,rfl,-⟩ := act_spawned hact (by simpa using hnew)
    cases role <;> trivial

theorem handed_turn (hs : Gate s) (ht : Turn system s s' i t c t' new) {item : Item}
    (h : (item,conn) ∈ s'.shared.handed) : Announced s'.shared conn := by
  obtain ⟨n,r,hact,hperf,rfl,-⟩ := turn_access ht
  rcases perform_handed hperf with hsame | ⟨conn',item',ha,happend⟩
  · exact announced_kept hperf (hs.handed item conn (hsame ▸ h))
  · rw [happend,List.mem_append,List.mem_singleton] at h
    rcases h with hold | hlast
    · exact announced_kept hperf (hs.handed item conn hold)
    · cases hlast
      have hperforms := act_performs hact
      rw [ha] at hperforms
      obtain ⟨scan,rfl⟩ := hperforms
      exact announced_kept hperf (hs.tasks i _ ht.thread)

end Turn

theorem gate_step (hlayout : Layout s) (hs : Gate s) (hstale : staleReady s move = false)
    (h : system.machine.step s move = some s') : Gate s' := by
  cases move with
  | arrive u =>
    obtain ⟨hu,rfl⟩ := step_arrive h
    refine ⟨fun j t hj => ?_,fun pc h0 => ?_,fun pc h0 hpc hstaffed => ?_,hs.handed⟩
    · rcases arrive_cases hj with hold | ⟨-,rfl⟩
      · exact hs.tasks j t hold
      · rcases entry_cases hu with ⟨_,_,_,rfl⟩ | ⟨_,rfl⟩ <;> trivial
    · exact hs.flag pc (arrive_old hu h0 rfl)
    · exact hs.unstaffed pc (arrive_old hu h0 rfl) hpc (staffed_arrive hu hstaffed)
  | run i c =>
    obtain ⟨t,t',new,ht⟩ := step_run h
    exact ⟨fun j u hu => tasks_turn hlayout hs ht hu,fun pc => flag_turn hlayout hs ht hstale,
      fun pc => unstaffed_turn hlayout hs ht,fun item conn => handed_turn hs ht⟩

theorem gate_initial (reconnectable : Bool) : Gate (initial reconnectable) where
  tasks j t hj := by
    cases j <;> simp_all [initial]
    subst hj
    trivial
  flag pc h0 hpc hready := by cases hready
  unstaffed pc h0 hpc := by
    cases h0
    cases hpc
  handed item conn h := by cases h

/-- In every interleaving in which no superseded reader sets the flag, a message is handed to the
writer of a connection only after the server has announced itself on that connection. -/
theorem ready_before_messages (reconnectable : Bool) (moves : List Move) (s : State)
    (hrun : system.machine.run (initial reconnectable) moves = some s)
    (hcurrent : system.machine.Meets (fun s move => staleReady s move = false)
      (initial reconnectable) moves) (item : Item) (conn : ℕ)
    (hmem : (item,conn) ∈ s.shared.handed) : Announced s.shared conn := by
  have hboth : Layout s ∧ Gate s :=
    StepMachine.invariant (I := fun s => Layout s ∧ Gate s)
      (fun _ _ _ hs hstale hstep => ⟨layout_step hs.1 hstep,gate_step hs.1 hs.2 hstale hstep⟩)
      ⟨layout_initial reconnectable,gate_initial reconnectable⟩ hcurrent hrun
  exact hboth.2.handed item conn hmem

/-- The server announces itself, and a database request is handed to the writer. -/
def announcedRequest : List Move := opening ++ readying 1 ++ requesting 6 ++ QueueHandoff.handing 3

theorem ready_before_messages_announcedRequest : ∃ s,
    system.machine.run (initial true) announcedRequest = some s ∧
      ∃ item, (item,1) ∈ s.shared.handed ∧ Announced s.shared 1 := by
  have hrun : (system.machine.run (initial true) announcedRequest).any
      (fun s => s.shared.handed.map Prod.snd = [1]) = true := by
    decide +kernel
  obtain ⟨s,hs,hhanded⟩ := (Option.any_eq_true _ _).mp hrun
  obtain ⟨⟨item,conn⟩,hmem,rfl⟩ : ∃ e ∈ s.shared.handed, e.2 = 1 := by
    rw [← List.mem_map (f := Prod.snd),of_decide_eq_true hhanded]
    exact List.mem_cons_self
  exact ⟨s,hs,item,hmem,
    ready_before_messages true announcedRequest s hs (by decide +kernel) item 1 hmem⟩

/-- The reader of the first connection has passed its checks when the writer finds that
connection broken; it sets the flag when the second connection is open. -/
def lateReady : List Move :=
  opening ++ [.run 1 (.data (frame MessageId.serverReady []))] ++ going 1 2 ++
    going 2 2 ++ [.run 2 .tick,.run 2 .failed] ++ going 2 47 ++ going 0 4 ++ opening ++ going 1 2 ++
    requesting 11 ++ QueueHandoff.handing 8

/-- The request goes out on the second connection, on which nothing has come in. -/
theorem lateReady_unannounced : ∃ s, system.machine.run (initial true) lateReady = some s ∧
    s.shared.handed.map Prod.snd = [2] ∧ s.shared.received.map Received.conn = [1] := by
  have hrun : (system.machine.run (initial true) lateReady).any (fun s =>
      s.shared.handed.map Prod.snd = [2] ∧ s.shared.received.map Received.conn = [1]) = true := by
    decide +kernel
  obtain ⟨s,hs,hboth⟩ := (Option.any_eq_true _ _).mp hrun
  exact ⟨s,hs,of_decide_eq_true hboth⟩

end ServerReady
end JobControllerClient
