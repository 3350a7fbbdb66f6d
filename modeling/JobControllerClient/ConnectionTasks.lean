import JobControllerClient.WebsocketTasks

/-! Which tasks exist: one supervisor, and for every connection up to the current one
at most one task of each role, spawned in the order of `run_connection`. -/
namespace JobControllerClient
namespace Websocket

open Interleaving

/-- The connection that `run_connection` is working on. -/
def SupervisorPc.conn : SupervisorPc → Option ℕ
  | .connecting conn | .openClosed conn | .openReady conn | .openPing conn | .openPong conn
  | .openWriter conn | .spawning conn _ | .waiting conn _ | .leaving conn => some conn
  | _ => none

/-- The tasks of the current connection that are still to be spawned. -/
def SupervisorPc.unspawned : SupervisorPc → List Role
  | .connecting _ | .openClosed _ | .openReady _ | .openPing _ | .openPong _ | .openWriter _ =>
    [.reader,.writer,.scheduler,.pinger,.pruner]
  | .spawning _ rest => rest
  | _ => []

structure Layout (s : State) : Prop where
  supervisor : ∃ pc, s.threads[0]? = some (.supervisor pc) ∧
    (∀ conn, pc.conn = some conn → conn = s.shared.connectionId) ∧ pc.unspawned.Nodup ∧
    ∀ (j : ℕ) t role, s.threads[j]? = some t → t.kind = .worker s.shared.connectionId role →
      role ∉ pc.unspawned
  only : ∀ (j : ℕ) pc, s.threads[j]? = some (.supervisor pc) → j = 0
  bound : ∀ (j : ℕ) t conn role, s.threads[j]? = some t → t.kind = .worker conn role →
    conn ≤ s.shared.connectionId
  unique : ∀ (j j' : ℕ) t t' conn role, s.threads[j]? = some t → s.threads[j']? = some t' →
    t.kind = .worker conn role → t'.kind = .worker conn role → j = j'

variable {s s' : State} {x x' : Client} {i j : ℕ} {t : Task} {c : Choice} {n : Next} {move : Move}

theorem perform_connectionId {a : Action} {r : a.Answer} (h : x.perform i a = some (x',r))
    (ha : a ≠ .nextConnection) : x'.connectionId = x.connectionId := by
  cases a <;> simp only [Client.perform] at h <;> (repeat' split at h) <;>
    simp only [Option.some.injEq,Prod.mk.injEq,Option.map_eq_some_iff,reduceCtorEq] at h
  case nextConnection => exact absurd rfl ha
  all_goals first
    | (obtain ⟨rfl,-⟩ := h; rfl)
    | (obtain ⟨_,-,rfl,-⟩ := h; rfl)

theorem perform_serverReady {a : Action} {r : a.Answer} (h : x.perform i a = some (x',r))
    (hr : x'.serverReady = true) : x.serverReady = true ∨ a = .storeReady true := by
  cases a <;> simp only [Client.perform] at h <;> (repeat' split at h) <;>
    simp only [Option.some.injEq,Prod.mk.injEq,Option.map_eq_some_iff,reduceCtorEq] at h
  case storeReady value =>
    obtain ⟨rfl,-⟩ := h
    exact .inr (congrArg _ hr)
  all_goals first
    | (obtain ⟨rfl,-⟩ := h; exact .inl hr)
    | (obtain ⟨_,-,rfl,-⟩ := h; exact .inl hr)

theorem role_kind (conn : ℕ) (role : Role) : (role.task conn).kind = .worker conn role := by
  cases role <;> rfl

theorem supervisor_of_kind (h : t.kind = .supervisor) : ∃ pc, t = .supervisor pc := by
  cases t
  case supervisor pc => exact ⟨pc,rfl⟩
  case queueing pc key => cases key <;> cases h
  all_goals cases h

theorem scheduler_of_kind {conn : ℕ} (h : t.kind = .worker conn .scheduler) :
    ∃ pc, t = .scheduler conn pc := by
  cases t
  case scheduler conn' pc =>
    cases h
    exact ⟨pc,rfl⟩
  case queueing pc key => cases key <;> cases h
  case disconnecting conn' pc caller => cases caller <;> cases h
  all_goals cases h

theorem kind_cases {new : List Task} {t' u : Task} (ht : Turn system s s' i t c t' new)
    (hu : s'.threads[j]? = some u) :
    (∃ v, s.threads[j]? = some v ∧ u.kind = v.kind) ∨
      ∃ conn role rest, t = .supervisor (.spawning conn (role :: rest)) ∧
        j = s.threads.length ∧ u = role.task conn := by
  obtain ⟨n,r,hact,-,rfl,rfl⟩ := turn_access ht
  rcases ht.thread_cases hu with ⟨rfl,rfl⟩ | ⟨-,hold⟩ | ⟨hlen,hnew⟩
  · exact .inl ⟨t,ht.thread,act_kind hact r⟩
  · exact .inl ⟨u,hold,rfl⟩
  · have hsome : n.spawned = some u := by simpa using hnew
    obtain ⟨conn,role,rest,rfl,rfl,-⟩ := act_spawned hact hsome
    refine .inr ⟨conn,role,rest,rfl,?_,rfl⟩
    rw [ht.fresh hlen,hsome] at hu
    have hzero : j - s.threads.length = 0 := by
      by_contra hne
      rw [List.getElem?_eq_none (by simp; omega)] at hu
      cases hu
    omega

/-- What the supervisor's own steps do to its position: it starts a new connection,
spawns the next task, or leaves the tasks as they are. -/
theorem supervisor_self {pc pc' : SupervisorPc} {a : Action} {r : a.Answer}
    (hstep : SupervisorStep pc a r pc') (h : x.perform i a = some (x',r))
    (hconn : ∀ conn, pc.conn = some conn → conn = x.connectionId) :
    (∀ conn, pc'.conn = some conn → conn = x'.connectionId) ∧
      ((x'.connectionId = x.connectionId + 1 ∧
          pc'.unspawned = [.reader,.writer,.scheduler,.pinger,.pruner]) ∨
        (x'.connectionId = x.connectionId ∧
          ∃ conn role rest, pc = .spawning conn (role :: rest) ∧ pc'.unspawned = rest) ∨
        (x'.connectionId = x.connectionId ∧ (∀ conn role rest, pc ≠ .spawning conn (role :: rest)) ∧
          (pc'.unspawned = pc.unspawned ∨ pc'.unspawned = []))) := by
  by_cases ha : a = .nextConnection
  · subst ha
    cases hstep with
    | start conn =>
      simp only [Client.perform,Option.some.injEq,Prod.mk.injEq] at h
      obtain ⟨rfl,rfl⟩ := h
      simp [SupervisorPc.conn,SupervisorPc.unspawned]
  have hid := perform_connectionId h ha
  rw [hid]
  cases hstep with
  | start => exact absurd rfl ha
  | spawn conn role rest => exact ⟨hconn,.inr (.inl ⟨rfl,conn,role,rest,rfl,rfl⟩)⟩
  | connected | openClosed | openReady | openPing | openPong | openWriter | staffed | notified =>
    exact ⟨hconn,.inr (.inr ⟨rfl,by simp,.inl rfl⟩)⟩
  | refused | leave | reconnect | finish | failClosed | failReady | retry | giveUp | stop | wake =>
    exact ⟨by simp [SupervisorPc.conn],.inr (.inr ⟨rfl,by simp,.inr rfl⟩)⟩

theorem layout_arrive {u : Task} (hs : Layout s) (hu : entry u = true) :
    Layout ⟨s.shared,s.threads ++ [u]⟩ := by
  have hkind : ∀ conn role, u.kind ≠ .worker conn role := by
    intro conn role
    rcases entry_cases hu with ⟨_,_,_,rfl⟩ | ⟨_,rfl⟩ <;> simp [Task.kind]
  obtain ⟨pc,h0,hconn,hnodup,hun⟩ := hs.supervisor
  refine ⟨⟨pc,arrive_kept h0,hconn,hnodup,fun j t role hj hk => ?_⟩,fun j pc' hj => ?_,
    fun j t conn role hj hk => ?_,fun j j' t t' conn role hj hj' hk hk' => ?_⟩
  · rcases arrive_cases hj with hold | ⟨-,rfl⟩
    · exact hun j t role hold hk
    · exact absurd hk (hkind _ _)
  · rcases arrive_cases hj with hold | ⟨-,rfl⟩
    · exact hs.only j pc' hold
    · cases hu
  · rcases arrive_cases hj with hold | ⟨-,rfl⟩
    · exact hs.bound j t conn role hold hk
    · exact absurd hk (hkind _ _)
  · rcases arrive_cases hj with hold | ⟨-,rfl⟩
    · rcases arrive_cases hj' with hold' | ⟨-,rfl⟩
      · exact hs.unique j j' t t' conn role hold hold' hk hk'
      · exact absurd hk' (hkind _ _)
    · exact absurd hk (hkind _ _)

theorem layout_other {new : List Task} {t' : Task} (hs : Layout s)
    (ht : Turn system s s' i t c t' new) (hi : i ≠ 0) : Layout s' := by
  obtain ⟨pc,h0,hconn,hnodup,hun⟩ := hs.supervisor
  have hnot : ∀ pc, t ≠ .supervisor pc := by
    rintro pc rfl
    exact hi (hs.only i pc ht.thread)
  have hold : ∀ {j : ℕ} {u : Task}, s'.threads[j]? = some u →
      ∃ v, s.threads[j]? = some v ∧ u.kind = v.kind := by
    intro j u hu
    rcases kind_cases ht hu with hv | ⟨conn,role,rest,hspawn,-,-⟩
    · exact hv
    · exact absurd hspawn (hnot _)
  have hid : s'.shared.connectionId = s.shared.connectionId := by
    obtain ⟨n,r,hact,hperf,-,-⟩ := turn_access ht
    refine perform_connectionId hperf fun ha => ?_
    have hp := act_performs hact
    rw [ha] at hp
    exact hnot _ hp
  refine ⟨⟨pc,ht.kept (Ne.symm hi) h0,by rwa [hid],hnodup,fun j u role hj hk => ?_⟩,
    fun j pc' hj => ?_,fun j u conn role hj hk => ?_,fun j j' u u' conn role hj hj' hk hk' => ?_⟩
  · obtain ⟨v,hv,hvk⟩ := hold hj
    exact hun j v role hv (by rw [← hvk,hk,hid])
  · obtain ⟨v,hv,hvk⟩ := hold hj
    obtain ⟨pc'',rfl⟩ := supervisor_of_kind hvk.symm
    exact hs.only j pc'' hv
  · obtain ⟨v,hv,hvk⟩ := hold hj
    rw [hid]
    exact hs.bound j v conn role hv (by rw [← hvk,hk])
  · obtain ⟨v,hv,hvk⟩ := hold hj
    obtain ⟨v',hv',hvk'⟩ := hold hj'
    exact hs.unique j j' v v' conn role hv hv' (by rw [← hvk,hk]) (by rw [← hvk',hk'])

theorem layout_supervisor {new : List Task} {t' : Task} (hs : Layout s)
    (ht : Turn system s s' 0 t c t' new) : Layout s' := by
  obtain ⟨pc,h0,hconn,hnodup,hun⟩ := hs.supervisor
  obtain rfl : t = .supervisor pc := Option.some.inj (ht.thread.symm.trans h0)
  obtain ⟨n,r,hact,hperf,rfl,rfl⟩ := turn_access ht
  obtain ⟨pc',hr,hpc'⟩ := superviseConnections_step hact r
  obtain ⟨hconn',hcases⟩ := supervisor_self hpc' hperf hconn
  have hspawn : ∀ {j : ℕ} {u : Task} {conn : ℕ} {role : Role}, s'.threads[j]? = some u →
      u.kind = .worker conn role → (∃ v, s.threads[j]? = some v ∧ v.kind = .worker conn role) ∨
        (j = s.threads.length ∧ conn = s.shared.connectionId ∧
          ∃ rest, pc = .spawning conn (role :: rest)) := by
    intro j u conn role hj hk
    rcases kind_cases ht hj with ⟨v,hv,hvk⟩ | ⟨conn',role',rest,hpc,hlen,rfl⟩
    · exact .inl ⟨v,hv,by rw [← hvk,hk]⟩
    · obtain ⟨rfl,rfl⟩ : conn' = conn ∧ role' = role := by simpa [role_kind] using hk
      cases hpc
      exact .inr ⟨hlen,hconn _ rfl,rest,rfl⟩
  have hle : s.shared.connectionId ≤ s'.shared.connectionId := by
    rcases hcases with h | h | h <;> omega
  refine ⟨⟨pc',by rw [ht.self,hr],hconn',?_,fun j u role hj hk => ?_⟩,fun j pc'' hj => ?_,
    fun j u conn role hj hk => ?_,fun j j' u u' conn role hj hj' hk hk' => ?_⟩
  · rcases hcases with ⟨-,hall⟩ | ⟨-,conn,role,rest,rfl,hrest⟩ | ⟨-,-,hsame | hnil⟩
    · rw [hall]
      decide
    · rw [hrest]
      exact (List.nodup_cons.mp hnodup).2
    · rwa [hsame]
    · simp [hnil]
  · rcases hspawn hj hk with ⟨v,hv,hvk⟩ | ⟨-,hid,rest',hpc⟩
    · rcases hcases with ⟨hid,-⟩ | ⟨hid,conn,role',rest,rfl,hrest⟩ | ⟨hid,-,hsame | hnil⟩
      · have hbound := hs.bound j v _ role hv hvk
        omega
      · have hnot := hun j v role hv (by rw [hvk,hid])
        rw [hrest]
        exact fun hmem => hnot (List.mem_cons_of_mem _ hmem)
      · rw [hsame]
        exact hun j v role hv (by rw [hvk,hid])
      · simp [hnil]
    · rcases hcases with ⟨hid',-⟩ | ⟨-,conn,role',rest,hpc',hrest⟩ | ⟨-,hne,-⟩
      · omega
      · rw [hpc] at hpc'
        cases hpc'
        rw [hrest]
        rw [hpc] at hnodup
        exact (List.nodup_cons.mp hnodup).1
      · exact absurd hpc (hne _ _ _)
  · rcases kind_cases ht hj with ⟨v,hv,hvk⟩ | ⟨conn,role,rest,-,-,hrole⟩
    · obtain ⟨pc₀,rfl⟩ := supervisor_of_kind hvk.symm
      exact hs.only j pc₀ hv
    · cases role <;> cases hrole
  · rcases hspawn hj hk with ⟨v,hv,hvk⟩ | ⟨-,hid,-⟩
    · exact (hs.bound j v conn role hv hvk).trans hle
    · omega
  · rcases hspawn hj hk with ⟨v,hv,hvk⟩ | ⟨hlen,hid,rest,hpc⟩
    · rcases hspawn hj' hk' with ⟨v',hv',hvk'⟩ | ⟨-,hid,rest,hpc⟩
      · exact hs.unique j j' v v' conn role hv hv' hvk hvk'
      · subst hpc
        exact absurd List.mem_cons_self (hun j v role hv (by rw [hvk,hid]))
    · rcases hspawn hj' hk' with ⟨v',hv',hvk'⟩ | ⟨hlen',-,-⟩
      · subst hpc
        exact absurd List.mem_cons_self (hun j' v' role hv' (by rw [hvk',hid]))
      · omega

theorem layout_step (hs : Layout s) (h : system.machine.step s move = some s') : Layout s' := by
  cases move with
  | arrive t =>
    obtain ⟨he,rfl⟩ := step_arrive h
    exact layout_arrive hs he
  | run i c =>
    obtain ⟨t,t',new,ht⟩ := step_run h
    by_cases hi : i = 0
    · subst hi
      exact layout_supervisor hs ht
    · exact layout_other hs ht hi

theorem layout_initial (reconnectable : Bool) : Layout (initial reconnectable) := by
  have hthread : ∀ (j : ℕ) t, (initial reconnectable).threads[j]? = some t →
      j = 0 ∧ t = .supervisor .start := by
    intro j t hj
    cases j <;> simp_all [initial]
  refine ⟨⟨.start,rfl,by simp [SupervisorPc.conn],List.nodup_nil,fun j t role hj hk => ?_⟩,
    fun j pc hj => (hthread j _ hj).1,fun j t conn role hj hk => ?_,
    fun j j' t t' conn role hj hj' hk hk' => ?_⟩
  · simp [SupervisorPc.unspawned]
  · obtain ⟨-,rfl⟩ := hthread j t hj
    cases hk
  · rw [(hthread j t hj).1,(hthread j' t' hj').1]

end Websocket
end JobControllerClient
