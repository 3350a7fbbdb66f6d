import JobControllerClient.QueueHandoff

/-! The order of the outgoing messages while no disconnect has been marked. Then there is
at most one connection, its writer takes whatever the scheduler sends, and nothing is
cleared: of every source and priority, what was enqueued has been handed to the writer, is
in the hands of the scheduler, or is still queued, in this order. -/
namespace JobControllerClient
namespace QueueOrder

open Interleaving Websocket DisconnectMarks QueueHandoff

/-- The connection whose tasks `run_connection` has begun to spawn. -/
def staffing : SupervisorPc → Option ℕ
  | .spawning conn _ | .waiting conn _ => some conn
  | _ => none

def working : Task → Bool
  | .writer _ .leaving | .writer _ .done | .scheduler _ .leaving | .scheduler _ .done
  | .pinger _ .leaving | .pinger _ .done => false
  | _ => true

/-- A state before the first disconnect. -/
structure Unbroken (s : State) : Prop where
  calls : ∀ (j : ℕ) conn pc caller, s.threads[j]? = some (.disconnecting conn pc caller) →
    marked pc = false
  silent : ∀ conn, s.shared.disconnectNotify conn = 0
  staffed : ∀ conn, Staffed s conn →
    ∃ pc, s.threads[0]? = some (.supervisor pc) ∧ staffing pc = some conn
  opened : ∀ pc, s.threads[0]? = some (.supervisor pc) → serving pc = true →
    s.shared.connectionClosed = false
  channel : ∀ pc conn, s.threads[0]? = some (.supervisor pc) → staffing pc = some conn →
    (s.shared.writers conn).receiver = true ∧ (s.shared.writers conn).senders = 3
  working : ∀ t ∈ s.threads, working t = true

variable {s s' : State} {x x' : Client} {i j p conn : ℕ} {t t' : Task} {c : Choice} {n : Next}
  {new : List Task} {move : Move} {item : Item} {pc : SupervisorPc}

theorem serving_of_staffing (h : staffing pc = some conn) : serving pc = true := by
  cases pc <;> first | rfl | cases h

theorem conn_of_staffing (h : staffing pc = some conn) : pc.conn = some conn := by
  cases pc <;> first | exact h | cases h

theorem working_reader (h : t.kind = .worker conn .reader) : working t = true := by
  cases t <;> first | rfl | cases h

section Current

variable (hs : Unbroken s)

include hs

theorem unmarked (h : Staffed s conn) : s.shared.connectionClosed = false := by
  obtain ⟨pc,h0,hpc⟩ := hs.staffed conn h
  exact hs.opened pc h0 (serving_of_staffing hpc)

theorem receiver (h : Staffed s conn) :
    (s.shared.writers conn).receiver = true ∧ (s.shared.writers conn).senders = 3 := by
  obtain ⟨pc,h0,hpc⟩ := hs.staffed conn h
  exact hs.channel pc conn h0 hpc

variable (hlayout : Layout s)

include hlayout

theorem current (h : Staffed s conn) : conn = s.shared.connectionId := by
  obtain ⟨pc,h0,hpc⟩ := hs.staffed conn h
  obtain ⟨pc',h0',hconn,-⟩ := hlayout.supervisor
  obtain rfl : pc = pc' := by simpa using h0.symm.trans h0'
  exact hconn conn (conn_of_staffing hpc)

theorem working_disconnecting {d : DisconnectPc} {caller : Caller}
    (hi : s.threads[i]? = some (.disconnecting conn d caller))
    (hact : handleDisconnect conn caller d c = some n) {r : n.action.Answer}
    (hperf : s.shared.perform i n.action = some (x',r)) :
    QueueOrder.working (n.resume r) = true := by
  have hmarked := hs.calls i conn d caller hi
  have hid := current hs hlayout ⟨i,_,caller.role,hi,rfl⟩
  cases d <;> cases c <;> cases hact <;> simp only [marked,reduceCtorEq] at hmarked
  case checkId.go.refl =>
    simp only [Client.perform,Option.some.injEq,Prod.mk.injEq] at hperf
    simp [← hperf.2,hid,QueueOrder.working]
  case swap.go.refl => rfl

theorem working_writer {pc : WriterPc} (hi : s.threads[i]? = some (.writer conn pc))
    (hact : writeLoop conn pc c = some n) {r : n.action.Answer}
    (hperf : s.shared.perform i n.action = some (x',r)) :
    QueueOrder.working (n.resume r) = true := by
  have hstaffed : Staffed s conn := ⟨i,_,.writer,hi,rfl⟩
  have hid := current hs hlayout hstaffed
  have hworking := hs.working _ (List.mem_of_getElem? hi)
  cases pc <;> cases c <;> cases hact
  case checkId.go.refl =>
    simp only [Client.perform,Option.some.injEq,Prod.mk.injEq] at hperf
    simp [← hperf.2,hid,QueueOrder.working]
  case checkClosed.go.refl =>
    simp only [Client.perform,Option.some.injEq,Prod.mk.injEq] at hperf
    simp [← hperf.2,unmarked hs hstaffed,QueueOrder.working]
  case select.recvClosed.refl => simp [Client.perform,(receiver hs hstaffed).2] at hperf
  case leaving.go.refl => cases hworking
  all_goals rfl

theorem working_scheduler {pc : SchedulerPc} (hi : s.threads[i]? = some (.scheduler conn pc))
    (hact : schedule conn pc c = some n) {r : n.action.Answer}
    (hperf : s.shared.perform i n.action = some (x',r)) :
    QueueOrder.working (n.resume r) = true := by
  have hstaffed : Staffed s conn := ⟨i,_,.scheduler,hi,rfl⟩
  have hid := current hs hlayout hstaffed
  have hworking := hs.working _ (List.mem_of_getElem? hi)
  have hnextLevel : ∀ scan : Scan, QueueOrder.working (.scheduler conn scan.nextLevel) = true := by
    intro scan
    simp only [Scan.nextLevel]
    (repeat' split) <;> rfl
  have hprobe : ∀ (scan : Scan) q, QueueOrder.working (.scheduler conn (scan.probe q)) = true := by
    intro scan q
    simp only [Scan.probe]
    split <;> rfl
  cases pc
  case' popped scan found => cases found
  all_goals cases c <;> cases hact
  case checkId.go.refl =>
    simp only [Client.perform,Option.some.injEq,Prod.mk.injEq] at hperf
    simp [← hperf.2,hid,QueueOrder.working]
  case checkClosed.go.refl =>
    simp only [Client.perform,Option.some.injEq,Prod.mk.injEq] at hperf
    simp [← hperf.2,unmarked hs hstaffed,QueueOrder.working]
  case top.go.refl scan =>
    simp only [Client.perform,Option.some.injEq,Prod.mk.injEq] at hperf
    simp only [← hperf.2,hid,if_true]
    split
    · exact hid ▸ hnextLevel scan
    · rfl
  case sending.go.refl scan item =>
    simp only [Client.perform,(receiver hs hstaffed).1,if_true,Option.some.injEq,
      Prod.mk.injEq] at hperf
    rw [← hperf.2]
    exact hprobe _ _
  case popped.none.go.refl => exact hnextLevel _
  case leaving.go.refl => cases hworking
  all_goals dsimp only
  all_goals (try split) <;> first | rfl | exact hprobe _ _

theorem working_pinger {pc : PingerPc} (hi : s.threads[i]? = some (.pinger conn pc))
    (hact : pingLoop conn pc c = some n) {r : n.action.Answer}
    (hperf : s.shared.perform i n.action = some (x',r)) :
    QueueOrder.working (n.resume r) = true := by
  have hstaffed : Staffed s conn := ⟨i,_,.pinger,hi,rfl⟩
  have hid := current hs hlayout hstaffed
  have hworking := hs.working _ (List.mem_of_getElem? hi)
  cases pc <;> cases c <;> cases hact
  case checkId.go.refl =>
    simp only [Client.perform,Option.some.injEq,Prod.mk.injEq] at hperf
    simp [← hperf.2,hid,QueueOrder.working]
  case checkClosed.go.refl =>
    simp only [Client.perform,Option.some.injEq,Prod.mk.injEq] at hperf
    simp [← hperf.2,unmarked hs hstaffed,QueueOrder.working]
  case leaving.go.refl => cases hworking
  all_goals dsimp only
  all_goals (try split) <;> rfl

theorem working_self (hi : s.threads[i]? = some t) (hact : act t c = some n)
    {r : n.action.Answer} (hperf : s.shared.perform i n.action = some (x',r)) :
    QueueOrder.working (n.resume r) = true := by
  cases t with
  | queueing pc key =>
    rcases queueMessage_shape hact r with ⟨pc',hr⟩ | hr <;> rw [hr]
    · rfl
    · cases key <;> rfl
  | queued => cases hact
  | request pc =>
    simp only [act] at hact
    unfold sendDbRequest at hact
    split at hact <;> cases hact <;> rfl
  | disconnecting conn d caller => exact working_disconnecting hs hlayout hi hact hperf
  | supervisor pc =>
    obtain ⟨pc',hr,-⟩ := superviseConnections_step hact r
    rw [hr]
    rfl
  | reader conn pc => exact working_reader (readLoop_kind hact r)
  | writer conn pc => exact working_writer hs hlayout hi hact hperf
  | scheduler conn pc => exact working_scheduler hs hlayout hi hact hperf
  | pinger conn pc => exact working_pinger hs hlayout hi hact hperf
  | pruner conn pc =>
    obtain ⟨pc',hr⟩ := pruneLoop_shape hact r
    rw [hr]
    rfl

end Current

def onChannel : Action → Bool
  | .openWriter _ | .dropReceiver _ | .dropSender _ => true
  | _ => false

theorem act_channel (hact : act t c = some n) (ha : onChannel n.action = true) :
    working t = false ∨ t.kind = .supervisor := by
  cases t <;> simp only [act,reduceCtorEq] at hact
  case' queueing => unfold queueMessage at hact
  case' request => unfold sendDbRequest at hact
  case' disconnecting => unfold handleDisconnect at hact
  case' reader => unfold readLoop at hact
  case' writer => unfold writeLoop at hact
  case' scheduler => unfold schedule at hact
  case' pinger => unfold pingLoop at hact
  case' pruner => unfold pruneLoop at hact
  case supervisor => exact .inr rfl
  all_goals split at hact <;> cases hact <;> first | (cases ha; done) | exact .inl rfl

theorem perform_writers {a : Action} {r : a.Answer} (h : x.perform i a = some (x',r))
    (ha : onChannel a = false) (conn : ℕ) :
    (x'.writers conn).receiver = (x.writers conn).receiver ∧
      (x'.writers conn).senders = (x.writers conn).senders := by
  have hset : ∀ (conn' : ℕ) (w : WriterChannel), w.receiver = (x.writers conn').receiver →
      w.senders = (x.writers conn').senders →
      ((x.setWriter conn' w).writers conn).receiver = (x.writers conn).receiver ∧
        ((x.setWriter conn' w).writers conn).senders = (x.writers conn).senders := by
    intro conn' w hr hsend
    by_cases hconn : conn = conn'
    · subst hconn
      simp [Client.setWriter,hr,hsend]
    · simp [Client.setWriter,hconn]
  cases a <;> simp only [Client.perform] at h <;> (repeat' split at h) <;>
    simp only [Option.some.injEq,Prod.mk.injEq,Option.map_eq_some_iff,reduceCtorEq] at h
  case dropReceiver | dropSender | openWriter => cases ha
  all_goals first
    | (obtain ⟨rfl,-⟩ := h; first | exact ⟨rfl,rfl⟩ | exact hset _ _ rfl rfl)
    | (obtain ⟨_,-,rfl,-⟩ := h; exact ⟨rfl,rfl⟩)

section Step

theorem disconnects_nil {a : Action} {r : a.Answer} (h : x.perform i a = some (x',r))
    (hnil : x'.disconnects = []) : x.disconnects = [] ∧ ∀ conn, a ≠ .swapClosed conn := by
  cases ha : onMarks a with
  | false =>
    rw [(perform_marks h ha).2.2.1] at hnil
    refine ⟨hnil,?_⟩
    rintro conn rfl
    cases ha
  | true =>
    cases a <;> simp only [onMarks,reduceCtorEq] at ha <;>
      simp only [Client.perform,Option.some.injEq,Prod.mk.injEq] at h <;>
      obtain ⟨rfl,-⟩ := h
    case swapClosed conn => simp at hnil
    all_goals exact ⟨hnil,by simp⟩

theorem staffing_channel {pc' : SupervisorPc} {a : Action} {r : a.Answer}
    (hstep : SupervisorStep pc a r pc') (hpc : staffing pc' = some conn)
    (h : x.perform i a = some (x',r))
    (hold : staffing pc = some conn →
      (x.writers conn).receiver = true ∧ (x.writers conn).senders = 3) :
    (x'.writers conn).receiver = true ∧ (x'.writers conn).senders = 3 := by
  cases hstep with
  | openWriter =>
    cases hpc
    simp only [Client.perform,Option.some.injEq,Prod.mk.injEq] at h
    simp [← h.1,Client.setWriter]
  | spawn | staffed =>
    rw [(perform_writers h rfl conn).1,(perform_writers h rfl conn).2]
    exact hold hpc
  | _ => cases hpc

variable (hs : Unbroken s) (ht : Turn system s s' i t c t' new)

include hs ht

theorem calls_turn (hnil : s'.shared.disconnects = []) {d : DisconnectPc} {caller : Caller}
    (hj : s'.threads[j]? = some (.disconnecting conn d caller)) : marked d = false := by
  by_contra hd
  rcases disconnecting_turn ht hj (by simpa using hd) with ⟨-,hold⟩ | ⟨-,rfl,-⟩ | ⟨-,d₀,rfl,hd₀,-⟩
  · exact hd (hs.calls j conn d caller hold)
  · obtain ⟨n,r,hact,hperf,-,-⟩ := turn_access ht
    cases c <;> cases hact
    exact (disconnects_nil hperf hnil).2 conn rfl
  · rw [hs.calls i conn d₀ caller ht.thread] at hd₀
    cases hd₀

theorem silent_turn (conn : ℕ) : s'.shared.disconnectNotify conn = 0 := by
  rcases marks_cases ht with ⟨n,r,hact,hperf,ha⟩ | ⟨conn',rfl⟩ | rfl | ⟨conn',caller,rfl⟩ | rfl |
    ⟨conn',caller,rfl⟩
  · rw [(perform_marks hperf ha).2.2.2]
    exact hs.silent conn
  case inr.inr.inr.inr.inr =>
    have hmarked := hs.calls i conn' .notify caller ht.thread
    cases hmarked
  all_goals
    obtain ⟨n,r,hact,hperf,-,-⟩ := turn_access ht
    cases c <;> cases hact
    simp only [Client.perform,Option.some.injEq,Prod.mk.injEq] at hperf
    rw [← hperf.1]
    exact hs.silent conn

theorem staffing_turn (h0 : s.threads[0]? = some (.supervisor pc))
    (hpc : staffing pc = some conn) :
    ∃ pc', s'.threads[0]? = some (.supervisor pc') ∧ staffing pc' = some conn := by
  by_cases hi : i = 0
  · subst hi
    obtain rfl := Option.some.inj (h0.symm.trans ht.thread)
    obtain ⟨n,r,hact,hperf,rfl,-⟩ := turn_access ht
    cases pc with
    | spawning conn' rest =>
      cases rest <;> cases c <;> cases hact <;> exact ⟨_,ht.self,hpc⟩
    | waiting conn' generation =>
      cases c <;> cases hact
      simp [Client.perform,hs.silent conn'] at hperf
    | _ => cases hpc
  · exact ⟨pc,ht.kept (Ne.symm hi) h0,hpc⟩

theorem channel_turn (hlayout : Layout s) (h0 : s'.threads[0]? = some (.supervisor pc))
    (hpc : staffing pc = some conn) :
    (s'.shared.writers conn).receiver = true ∧ (s'.shared.writers conn).senders = 3 := by
  obtain ⟨pc₀,hpc₀,-⟩ := hlayout.supervisor
  obtain ⟨n,r,hact,hperf,rfl,-⟩ := turn_access ht
  by_cases hi : i = 0
  · subst hi
    obtain rfl := Option.some.inj (hpc₀.symm.trans ht.thread)
    rw [ht.self,Option.some.injEq] at h0
    exact staffing_channel (supervisorStep_of_resume hact h0) hpc hperf
      fun h => hs.channel _ conn ht.thread h
  · have hold : s.threads[0]? = some (.supervisor pc) := by
      rwa [← ht.other (Ne.symm hi) (List.getElem?_eq_some_iff.mp hpc₀).1]
    have ha : onChannel n.action = false := by
      by_contra ha
      rcases act_channel hact (by simpa using ha) with hleaving | hkind
      · rw [hs.working t (List.mem_of_getElem? ht.thread)] at hleaving
        cases hleaving
      · obtain ⟨pc',rfl⟩ := supervisor_of_kind hkind
        exact hi (hlayout.only i pc' ht.thread)
    rw [(perform_writers hperf ha conn).1,(perform_writers hperf ha conn).2]
    exact hs.channel pc conn hold hpc

theorem opened_turn (hlayout : Layout s) (hnil : s'.shared.disconnects = [])
    (h0 : s'.threads[0]? = some (.supervisor pc)) (hserving : serving pc = true) :
    s'.shared.connectionClosed = false := by
  rcases marks_cases ht with ⟨n,r,hact,hperf,ha⟩ | ⟨conn',rfl⟩ | rfl | ⟨conn',caller,rfl⟩ | rfl |
    ⟨conn',caller,rfl⟩
  case inr.inr.inr.inr.inr =>
    have hmarked := hs.calls i conn' .notify caller ht.thread
    cases hmarked
  case inl =>
    rw [(perform_marks hperf ha).1]
    rcases supervisor_turn hlayout ht h0 with hold | ⟨rfl,ht',pc₀,rfl⟩
    · exact hs.opened pc hold hserving
    · obtain ⟨n',r',hact',-,rfl,-⟩ := turn_access ht
      obtain rfl := Option.some.inj (hact.symm.trans hact')
      rcases serving_inv (supervisorStep_of_resume hact ht') hserving with hserving₀ | hopen
      · exact hs.opened pc₀ ht.thread hserving₀
      · rw [hopen] at ha
        cases ha
  all_goals obtain ⟨n,r,hact,hperf,rfl,-⟩ := turn_access ht
  case inr.inr.inr.inl =>
    cases c <;> cases hact
    exact absurd rfl ((disconnects_nil hperf hnil).2 conn')
  all_goals
    obtain rfl := hlayout.only i _ ht.thread
    cases c <;> cases hact
    rw [ht.self] at h0
    cases h0
    simp only [Client.perform,Option.some.injEq,Prod.mk.injEq] at hperf
    first | (cases hserving; done) | rw [← hperf.1]

end Step

theorem unbroken_step (hlayout : Layout s) (hs : Unbroken s)
    (h : system.machine.step s move = some s') (hnil : s'.shared.disconnects = []) :
    Unbroken s' := by
  cases move with
  | arrive u =>
    obtain ⟨he,rfl⟩ := step_arrive h
    have hold : ∀ {j : ℕ} {v : Task}, (s.threads ++ [u])[j]? = some v → entry v = false →
        s.threads[j]? = some v := arrive_old he
    refine ⟨fun j conn d caller hj => hs.calls j conn d caller (hold hj rfl),hs.silent,
      fun conn hstaffed => ?_,fun pc h0 => hs.opened pc (hold h0 rfl),
      fun pc conn h0 => hs.channel pc conn (hold h0 rfl),fun t ht => ?_⟩
    · obtain ⟨pc,h0,hpc⟩ := hs.staffed conn (staffed_arrive he hstaffed)
      exact ⟨pc,arrive_kept h0,hpc⟩
    · rcases List.mem_append.mp ht with hmem | hmem
      · exact hs.working t hmem
      · obtain rfl := List.mem_singleton.mp hmem
        rcases entry_cases he with ⟨_,_,_,rfl⟩ | ⟨_,rfl⟩ <;> rfl
  | run i c =>
    obtain ⟨t,t',new,ht⟩ := step_run h
    refine ⟨fun j conn d caller => calls_turn hs ht hnil,silent_turn hs ht,fun conn hstaffed => ?_,
      fun pc => opened_turn hs ht hlayout hnil,fun pc conn => channel_turn hs ht hlayout,fun u hu => ?_⟩
    · rcases staffed_turn ht hstaffed with hold | ⟨role,rest,rfl⟩
      · obtain ⟨pc,h0,hpc⟩ := hs.staffed conn hold
        exact staffing_turn hs ht h0 hpc
      · exact staffing_turn hs ht (hlayout.only i _ ht.thread ▸ ht.thread) rfl
    · obtain ⟨n,r,hact,hperf,rfl,rfl⟩ := turn_access ht
      rcases mem_turn ht hu with rfl | hold | hnew
      · exact working_self hs hlayout ht.thread hact hperf
      · exact hs.working u hold
      · obtain ⟨conn,role,rest,-,rfl,-⟩ := act_spawned hact (by simpa using hnew)
        cases role <;> rfl

section Levels

variable {l l' : Level} {source : String}

def queueOf (l : Level) (source : String) : List Item := (l.sources.lookup source).getD []

theorem queueOf_push (l : Level) (item : Item) (source : String) :
    queueOf (l.push item) source = queueOf l source ++ if item.source = source then [item] else [] := by
  by_cases h : item.source = source
  · subst h
    simp [queueOf,Level.push]
  · simp [queueOf,Level.push,h,Ne.symm h]

/-- A pop takes the front of one source and leaves the others alone. -/
theorem queueOf_pop {choice : Option String} (h : l.pop choice = some (some item,l')) :
    ∃ source, choice = some source ∧ queueOf l source = item :: queueOf l' source ∧
      ∀ other, other ≠ source → queueOf l' other = queueOf l other := by
  cases choice with
  | none =>
    simp only [Level.pop] at h
    split at h <;> simp at h
  | some source =>
    simp only [Level.pop] at h
    split at h
    · rename_i first rest hlookup
      simp only [Option.some.injEq,Prod.mk.injEq] at h
      obtain ⟨rfl,rfl⟩ := h
      exact ⟨source,rfl,by simp [queueOf,hlookup],fun other hne => by simp [queueOf,hne]⟩
    · cases h

theorem queueOf_prune : queueOf l.prune source = queueOf l source := by
  have hmem : ∀ q, l.prune.sources.lookup source = some q ↔
      l.sources.lookup source = some q ∧ q ≠ [] := by
    intro q
    have hentry := AList.mem_lookup_iff (s := l.sources) (a := source) (b := q)
    have hpruned := AList.mem_lookup_iff (s := l.prune.sources) (a := source) (b := q)
    rw [Option.mem_def] at hentry hpruned
    rw [hentry,hpruned]
    simp [Level.prune]
  cases h : l.sources.lookup source with
  | none =>
    have hnone : l.prune.sources.lookup source = none := by
      by_contra hsome
      obtain ⟨q,hq⟩ := Option.ne_none_iff_exists'.mp hsome
      rw [h] at hmem
      cases ((hmem q).mp hq).1
    simp [queueOf,h,hnone]
  | some q =>
    by_cases hq : q = []
    · subst hq
      have hnone : l.prune.sources.lookup source = none := by
        by_contra hsome
        obtain ⟨q,hq⟩ := Option.ne_none_iff_exists'.mp hsome
        obtain ⟨hsome,hne⟩ := (hmem q).mp hq
        rw [h,Option.some.injEq] at hsome
        exact hne hsome.symm
      simp [queueOf,h,hnone]
    · have hsome := (hmem q).mpr ⟨h,hq⟩
      simp [queueOf,h,hsome]

end Levels

def belongs (p : ℕ) (source : String) (item : Item) : Bool :=
  item.priority.level = p && item.source = source

/-- The messages of one priority and source that are still queued. -/
def queued (x : Client) (p : ℕ) (source : String) : List Item := queueOf (x.queue p) source

theorem queued_setLevel (q : ℕ) (l : Level) (source : String) : queued (x.setLevel q l) p source =
    if p = q then queueOf l source else queued x p source := by
  by_cases h : p = q
  · subst h
    simp [queued,Client.setLevel]
  · simp [queued,Client.setLevel,h]

theorem queued_setLevel_same {q : ℕ} {l : Level} {holder : Option ℕ}
    (hl : ∀ source, queueOf l source = queued x q source) (p : ℕ) (source : String) :
    queued (x.setLevel q ⟨holder,l.sources⟩) p source = queued x p source := by
  rw [queued_setLevel]
  split
  · rename_i hp
    rw [hp]
    exact hl source
  · rfl

/-- What one access can do to the queues when nothing is cleared. -/
theorem perform_queued {a : Action} {r : a.Answer} (h : x.perform i a = some (x',r))
    (hclear : ∀ p, a ≠ .tryClear p) :
    (∃ item, a = .lockPush item ∧ ∀ p source, queued x' p source =
      queued x p source ++ if belongs p source item then [item] else []) ∨
    (∃ q source item l, a = .lockPop q (some source) ∧
      (x.queue q).pop (some source) = some (some item,l) ∧
      queued x q source = item :: queued x' q source ∧
      ∀ p other, (p ≠ q ∨ other ≠ source) → queued x' p other = queued x p other) ∨
    ((∀ p source, queued x' p source = queued x p source) ∧ (∀ item, a ≠ .lockPush item) ∧
      ∀ q source item l, a = .lockPop q source → (x.queue q).pop source ≠ some (some item,l)) := by
  cases ha : a.onQueue with
  | false =>
    refine .inr (.inr ⟨fun p source => by rw [queued,perform_queue h ha]; rfl,?_,?_⟩)
    · rintro item rfl
      cases ha
    · rintro q source item l rfl
      cases ha
  | true =>
    cases a <;> simp only [Action.onQueue,reduceCtorEq] at ha <;>
      simp only [Client.perform] at h <;> (try split at h) <;>
      simp only [Option.some.injEq,Prod.mk.injEq,Option.map_eq_some_iff,reduceCtorEq] at h
    case lockPush.isTrue item hfree =>
      obtain ⟨rfl,-⟩ := h
      refine .inl ⟨item,rfl,fun p source => ?_⟩
      rw [queued_setLevel]
      split
      · rename_i hp
        have hpush := queueOf_push (x.queue item.priority.level) item source
        simp only [queueOf] at hpush ⊢
        rw [hpush]
        simp [queued,queueOf,belongs,hp]
      · rename_i hp
        simp [belongs,Ne.symm hp]
    case lockPop.isTrue q choice hfree =>
      obtain ⟨⟨found,l⟩,hpop,rfl,-⟩ := h
      cases found with
      | none =>
        obtain ⟨rfl,-⟩ := Level.pop_none hpop
        refine .inr (.inr ⟨queued_setLevel_same (l := x.queue q) fun _ => rfl,by simp,?_⟩)
        rintro q' source item l' hq hpop'
        cases hq
        rw [hpop] at hpop'
        cases hpop'
      | some item =>
        obtain ⟨source,rfl,hfront,hother⟩ := queueOf_pop hpop
        refine .inr (.inl ⟨q,source,item,l,rfl,hpop,?_,fun p other hne => ?_⟩)
        · rw [queued_setLevel,if_pos rfl]
          exact hfront
        · rw [queued_setLevel]
          split
          · rename_i hp
            subst hp
            exact hother other (by simpa using hne)
          · rfl
    case tryClear.isTrue q _ | tryClear.isFalse q _ => exact absurd rfl (hclear q)
    all_goals obtain ⟨rfl,-⟩ := h
    case tryPrune.isTrue q hfree =>
      exact .inr (.inr ⟨queued_setLevel_same (l := (x.queue q).prune) fun _ => queueOf_prune,
        by simp,by simp⟩)
    case tryPeek.isTrue q hfree | unlock q =>
      exact .inr (.inr ⟨queued_setLevel_same (l := x.queue q) fun _ => rfl,
        by simp,by simp⟩)
    all_goals exact .inr (.inr ⟨fun _ _ => rfl,by simp,by simp⟩)

section Sent

/-- The message that the scheduler has popped and not yet sent. -/
def popped (s : State) : Option Item := s.threads.findSome? fun t => (inHand t).map Prod.fst

def sent (s : State) : List Item := s.shared.handed.map Prod.fst ++ (popped s).toList

theorem inHand_scheduler {conn : ℕ} (h : inHand t = some (item,conn)) :
    ∃ pc, t = .scheduler conn pc := by
  unfold inHand at h
  split at h <;> cases h <;> exact ⟨_,rfl⟩

theorem single_scheduler (hlayout : Layout s) (hs : Unbroken s) {conn' : ℕ} {pc pc' : SchedulerPc}
    (hi : s.threads[i]? = some (.scheduler conn pc))
    (hj : s.threads[j]? = some (.scheduler conn' pc')) : i = j := by
  have hconn := current hs hlayout ⟨i,_,.scheduler,hi,rfl⟩
  have hconn' := current hs hlayout ⟨j,_,.scheduler,hj,rfl⟩
  exact hlayout.unique i j _ _ conn .scheduler hi hj rfl (by rw [hconn,← hconn']; rfl)

theorem popped_iff (hlayout : Layout s) (hs : Unbroken s) : popped s = some item ↔
    ∃ (j : ℕ) (t : Task) (conn : ℕ), s.threads[j]? = some t ∧ inHand t = some (item,conn) := by
  constructor
  · intro h
    obtain ⟨t,ht,hitem⟩ := List.exists_of_findSome?_eq_some h
    obtain ⟨j,hj⟩ := List.mem_iff_getElem?.mp ht
    obtain ⟨⟨item',conn⟩,hhand,rfl⟩ := Option.map_eq_some_iff.mp hitem
    exact ⟨j,t,conn,hj,hhand⟩
  · rintro ⟨j,t,conn,hj,hhand⟩
    cases h : popped s with
    | none =>
      have hnone := List.findSome?_eq_none_iff.mp h t (List.mem_of_getElem? hj)
      simp [hhand] at hnone
    | some item' =>
      obtain ⟨t',ht',hitem'⟩ := List.exists_of_findSome?_eq_some h
      obtain ⟨j',hj'⟩ := List.mem_iff_getElem?.mp ht'
      obtain ⟨⟨item'',conn'⟩,hhand',rfl⟩ := Option.map_eq_some_iff.mp hitem'
      obtain ⟨pc,rfl⟩ := inHand_scheduler hhand
      obtain ⟨pc',rfl⟩ := inHand_scheduler hhand'
      obtain rfl := single_scheduler hlayout hs hj hj'
      rw [hj,Option.some.injEq] at hj'
      rw [← hj',hhand,Option.some.injEq,Prod.mk.injEq] at hhand'
      rw [hhand'.1]

theorem popped_scheduler (hlayout : Layout s) (hs : Unbroken s) {pc : SchedulerPc}
    (hi : s.threads[i]? = some (.scheduler conn pc)) :
    popped s = (inHand (.scheduler conn pc)).map Prod.fst := by
  ext item
  rw [popped_iff hlayout hs,Option.map_eq_some_iff]
  constructor
  · rintro ⟨j,t,conn',hj,hhand⟩
    obtain ⟨pc',rfl⟩ := inHand_scheduler hhand
    obtain rfl := single_scheduler hlayout hs hi hj
    rw [hi,Option.some.injEq] at hj
    exact ⟨_,hj ▸ hhand,rfl⟩
  · rintro ⟨⟨item',conn'⟩,hhand,rfl⟩
    exact ⟨i,_,conn',hi,hhand⟩

variable (hlayout : Layout s) (hs : Unbroken s) (hlayout' : Layout s') (hs' : Unbroken s')
  (ht : Turn system s s' i t c t' new)

include hlayout hs hlayout' hs' ht

theorem popped_kept (h : ∀ item conn, inHand t' = some (item,conn) ↔ inHand t = some (item,conn)) :
    popped s' = popped s := by
  ext item
  rw [popped_iff hlayout hs,popped_iff hlayout' hs']
  constructor
  · rintro ⟨j,u,conn,hj,hhand⟩
    rcases ht.thread_cases hj with ⟨rfl,rfl⟩ | ⟨-,hold⟩ | ⟨-,hnew⟩
    · exact ⟨j,t,conn,ht.thread,(h item conn).mp hhand⟩
    · exact ⟨j,u,conn,hold,hhand⟩
    · obtain ⟨n,r,hact,-,-,rfl⟩ := turn_access ht
      rw [(spawned_idle hact hnew).2.2] at hhand
      cases hhand
  · rintro ⟨j,u,conn,hj,hhand⟩
    by_cases hji : j = i
    · subst hji
      obtain rfl := Option.some.inj (hj.symm.trans ht.thread)
      exact ⟨j,t',conn,ht.self,(h item conn).mpr hhand⟩
    · exact ⟨j,u,conn,ht.kept hji hj,hhand⟩

theorem sent_pop {scan : Scan} (hpop : t = .scheduler conn (.pop scan)) :
    ∃ source found l, c = .pop source ∧
      (s.shared.queue scan.level).pop source = some (found,l) ∧
      sent s' = sent s ++ found.toList := by
  subst hpop
  obtain ⟨n,r,hact,hperf,rfl,-⟩ := turn_access ht
  cases c <;> cases hact
  case pop source =>
    have hself := popped_scheduler hlayout' hs' ht.self
    have hbefore := popped_scheduler hlayout hs ht.thread
    simp only [Client.perform] at hperf
    split at hperf <;> simp only [Option.map_eq_some_iff,Prod.mk.injEq,reduceCtorEq] at hperf
    obtain ⟨⟨found,l⟩,hpop,hx,rfl⟩ := hperf
    refine ⟨source,found,l,rfl,hpop,?_⟩
    cases found with
    | none => simp [sent,hself,hbefore,inHand,← hx,Client.setLevel]
    | some item => simp [sent,hself,hbefore,inHand,← hx,Client.setLevel]

theorem sent_handOver {scan : Scan} (hsend : t = .scheduler conn (.sending scan item)) :
    sent s' = sent s := by
  subst hsend
  have hreceiver := receiver hs ⟨i,_,.scheduler,ht.thread,rfl⟩
  obtain ⟨n,r,hact,hperf,rfl,-⟩ := turn_access ht
  cases c <;> cases hact
  have hself := popped_scheduler hlayout' hs' ht.self
  have hbefore := popped_scheduler hlayout hs ht.thread
  simp only [Client.perform,hreceiver.1,if_true,Option.some.injEq,Prod.mk.injEq] at hperf
  obtain ⟨hx,rfl⟩ := hperf
  have hprobe : inHand (.scheduler conn (scan.taken.probe 0)) = none := by
    simp only [Scan.probe]
    split <;> rfl
  rw [if_pos rfl,hprobe] at hself
  simp [sent,hself,hbefore,inHand,← hx,Client.setWriter]

theorem sent_kept (hpop : ∀ conn scan, t ≠ .scheduler conn (.pop scan))
    (hsend : ∀ conn scan item, t ≠ .scheduler conn (.sending scan item)) : sent s' = sent s := by
  obtain ⟨n,r,hact,hperf,hr,-⟩ := turn_access ht
  have hhanded : s'.shared.handed = s.shared.handed := by
    rcases perform_handed hperf with hsame | ⟨conn,item,ha,-⟩
    · exact hsame
    · have hperfs := act_performs hact
      rw [ha] at hperfs
      obtain ⟨scan,rfl⟩ := hperfs
      exact absurd rfl (hsend conn scan item)
  have hhand : ∀ item conn, inHand t' = some (item,conn) ↔ inHand t = some (item,conn) := by
    intro item conn
    constructor
    · intro h
      rw [hr] at h
      rcases inHand_self hact hperf h with hold | ⟨⟨scan,rfl⟩,-⟩
      · exact hold
      · exact absurd rfl (hpop conn scan)
    · intro h
      unfold inHand at h
      split at h <;> cases h
      · cases c <;> cases hact
        rw [hr]
        rfl
      · exact absurd rfl (hsend _ _ _)
  rw [sent,sent,hhanded,popped_kept hlayout hs hlayout' hs' ht hhand]

end Sent

def enqueued (s : State) : Move → List Item
  | .run i _ => (s.threads[i]?.bind pushing).toList
  | .arrive _ => []

/-- For every priority and source, what was enqueued is what has left the queue followed
by what is still in it. -/
def Ordered (s : State) (l : List Item) : Prop :=
  ∀ p source, l.filter (belongs p source) =
    (sent s).filter (belongs p source) ++ queued s.shared p source

theorem enqueued_lock {key : Option UInt32}
    (hi : s.threads[i]? = some (.queueing (.lock item) key)) : enqueued s (.run i c) = [item] := by
  simp [enqueued,hi,pushing]

theorem enqueued_nil (hi : s.threads[i]? = some t) (hact : act t c = some n)
    (ha : ∀ item, n.action ≠ .lockPush item) : enqueued s (.run i c) = [] := by
  have hpushing : pushing t = none := by
    by_contra hsome
    obtain ⟨item,hitem⟩ := Option.ne_none_iff_exists'.mp hsome
    unfold pushing at hitem
    split at hitem <;> cases hitem
    cases c <;> cases hact
    exact ha item rfl
  simp [enqueued,hi,hpushing]

section Order

variable (hlayout : Layout s) (hs : Unbroken s) (hlayout' : Layout s') (hs' : Unbroken s')
  (ht : Turn system s s' i t c t' new) {l : List Item} (hl : Ordered s l)

include hlayout hs hlayout' hs' ht

theorem sent_unpopped (hact : act t c = some n)
    (ha : ∀ q source item l, n.action = .lockPop q source →
      (s.shared.queue q).pop source ≠ some (some item,l)) : sent s' = sent s := by
  by_cases hpop : ∃ conn scan, t = .scheduler conn (.pop scan)
  · obtain ⟨conn,scan,rfl⟩ := hpop
    obtain ⟨source,found,l,rfl,hfound,hsent⟩ := sent_pop hlayout hs hlayout' hs' ht rfl
    cases hact
    cases found with
    | none => simpa using hsent
    | some item => exact absurd hfound (ha scan.level source item l rfl)
  · by_cases hsend : ∃ conn scan item, t = .scheduler conn (.sending scan item)
    · obtain ⟨conn,scan,item,hsend⟩ := hsend
      exact sent_handOver hlayout hs hlayout' hs' ht hsend
    · exact sent_kept hlayout hs hlayout' hs' ht (fun conn scan h => hpop ⟨conn,scan,h⟩)
        fun conn scan item h => hsend ⟨conn,scan,item,h⟩

include hl

theorem ordered_turn : Ordered s' (l ++ enqueued s (.run i c)) := by
  obtain ⟨n,r,hact,hperf,-,-⟩ := turn_access ht
  have hperfs := act_performs hact
  have hclear : ∀ p, n.action ≠ .tryClear p := by
    intro p ha
    rw [ha] at hperfs
    obtain ⟨conn,was,caller,rfl⟩ := hperfs
    have hmarked := hs.calls i conn _ caller ht.thread
    cases hmarked
  intro p source
  have hbefore := hl p source
  rcases perform_queued hperf hclear with ⟨item,ha,hqueued⟩ |
    ⟨q,front,item,rest,ha,hpop,hfront,hother⟩ | ⟨hqueued,hpush,hpop⟩
  · have hsent := sent_unpopped hlayout hs hlayout' hs' ht hact (by simp [ha])
    rw [ha] at hperfs
    obtain ⟨key,rfl⟩ := hperfs
    rw [enqueued_lock ht.thread,List.filter_append,hbefore,hsent,hqueued,List.append_assoc]
    simp [List.filter_cons]
  · rw [enqueued_nil ht.thread hact (by simp [ha]),List.append_nil,hbefore]
    rw [ha] at hperfs
    obtain ⟨conn,scan,rfl,rfl⟩ := hperfs
    obtain ⟨choice,found,rest',rfl,hfound,hsent⟩ := sent_pop hlayout hs hlayout' hs' ht rfl
    cases hact
    cases ha
    rw [hpop,Option.some.injEq,Prod.mk.injEq] at hfound
    rw [hsent,← hfound.1,Option.toList_some,List.filter_append]
    -- the message at the front was enqueued with this priority and source
    have hitem : belongs scan.level front item = true := by
      have hmem : item ∈ l.filter (belongs scan.level front) := by
        rw [hl scan.level front,hfront]
        simp
      exact (List.mem_filter.mp hmem).2
    by_cases hsame : p = scan.level ∧ source = front
    · obtain ⟨rfl,rfl⟩ := hsame
      rw [hfront,List.filter_cons_of_pos hitem,List.filter_nil,List.append_assoc]
      rfl
    · have hout : belongs p source item = false := by
        simp only [belongs,Bool.and_eq_true,decide_eq_true_eq] at hitem
        rw [← hitem.1,← hitem.2] at hsame
        by_contra hin
        simp only [belongs,Bool.not_eq_false,Bool.and_eq_true,decide_eq_true_eq] at hin
        exact hsame ⟨hin.1.symm,hin.2.symm⟩
      rw [hother p source (not_and_or.mp hsame)]
      simp [hout]
  · have hsent := sent_unpopped hlayout hs hlayout' hs' ht hact hpop
    rw [enqueued_nil ht.thread hact hpush,List.append_nil,hbefore,hsent,hqueued]

end Order

/-- The order holds as long as no disconnect has been marked. -/
def OrderedOpen (s : State) (l : List Item) : Prop :=
  Layout s ∧ (s.shared.disconnects = [] → Unbroken s ∧ Ordered s l)

theorem orderedOpen_step {l : List Item} (hs : OrderedOpen s l)
    (h : system.machine.step s move = some s') : OrderedOpen s' (l ++ enqueued s move) := by
  have hlayout' := layout_step hs.1 h
  refine ⟨hlayout',fun hnil => ?_⟩
  cases move with
  | arrive u =>
    have hkept := (step_arrive h).2
    rw [hkept] at hnil
    obtain ⟨hunbroken,hordered⟩ := hs.2 hnil
    refine ⟨unbroken_step hs.1 hunbroken h (by rw [hkept]; exact hnil),?_⟩
    have hsent : sent s' = sent s := by
      rw [hkept]
      rcases entry_cases (step_arrive h).1 with ⟨_,_,_,rfl⟩ | ⟨_,rfl⟩ <;>
        simp [sent,popped,List.findSome?_append,inHand]
    intro p source
    rw [enqueued,List.append_nil,hordered p source,hsent,hkept]
  | run i c =>
    obtain ⟨t,t',new,ht⟩ := step_run h
    obtain ⟨n,r,-,hperf,-,-⟩ := turn_access ht
    obtain ⟨hunbroken,hordered⟩ := hs.2 (disconnects_nil hperf hnil).1
    have hunbroken' := unbroken_step hs.1 hunbroken h hnil
    exact ⟨hunbroken',ordered_turn hs.1 hunbroken hlayout' hunbroken' ht hordered⟩

theorem orderedOpen_initial (reconnectable : Bool) : OrderedOpen (initial reconnectable) [] := by
  refine ⟨layout_initial reconnectable,fun _ => ⟨⟨fun j conn d caller hj => ?_,fun _ => rfl,
    fun conn h => ?_,fun pc h0 hserving => ?_,fun pc conn h0 hpc => ?_,fun t ht => ?_⟩,?_⟩⟩
  · cases initial_thread hj
  · exact absurd ⟨conn,h⟩ (unopened_initial reconnectable)
  · cases initial_thread h0
    cases hserving
  · cases initial_thread h0
    cases hpc
  · obtain ⟨j,hj⟩ := List.mem_iff_getElem?.mp ht
    rw [initial_thread hj]
    rfl
  · intro p source
    simp [sent,popped,initial,inHand,Client.startWithToken,Client.new,queued,queueOf,Level.new]

/-- The messages enqueued for a priority and source are those handed to the writer, then
the one that the scheduler has popped and not yet sent, then those still queued. -/
theorem queue_order (reconnectable : Bool) (moves : List Move) (s : State)
    (hrun : system.machine.run (initial reconnectable) moves = some s)
    (hopen : s.shared.disconnects = []) (p : ℕ) (source : String) :
    (system.machine.log enqueued (initial reconnectable) moves).filter (belongs p source) =
      (s.shared.handed.map Prod.fst).filter (belongs p source) ++
        (popped s).toList.filter (belongs p source) ++ queued s.shared p source := by
  have hordered := StepMachine.log_invariant (P := fun _ _ => True)
    (fun _ _ _ _ hs _ h => orderedOpen_step hs h) (orderedOpen_initial reconnectable)
    (StepMachine.meets_true _ moves) hrun
  have hfinal := (hordered.2 hopen).2 p source
  rwa [List.nil_append,sent,List.filter_append] at hfinal

def urgentCall : Task := .queueing (.called "s" [1] .highest) none

/-- One message is queued, and the scheduler has popped it. -/
def popping : List Move :=
  opening ++ readying 1 ++ [.arrive urgentCall] ++ going 6 5 ++ going 3 5 ++
    [.run 3 (.pop (some "s"))]

theorem queue_order_popping : ∃ s, system.machine.run (initial true) popping = some s ∧
    (system.machine.log enqueued (initial true) popping).filter (belongs 0 "s") =
      (s.shared.handed.map Prod.fst).filter (belongs 0 "s") ++
        (popped s).toList.filter (belongs 0 "s") ++ queued s.shared 0 "s" := by
  have hlast : (system.machine.run (initial true) popping).any (fun s =>
      s.shared.disconnects.isEmpty) = true := by decide +kernel
  obtain ⟨s,hrun,hopen⟩ := (Option.any_eq_true _ _).mp hlast
  exact ⟨s,hrun,queue_order true popping s hrun (by simpa using hopen) 0 "s"⟩

/-- Between its pop and its send, the message is neither queued nor handed over. -/
theorem popping_in_hand : ∃ s, system.machine.run (initial true) popping = some s ∧
    s.shared.disconnects = [] ∧
    (system.machine.log enqueued (initial true) popping).filter (belongs 0 "s") ≠
      (s.shared.handed.map Prod.fst).filter (belongs 0 "s") ++ queued s.shared 0 "s" := by
  have hlast : (system.machine.run (initial true) popping).any (fun s =>
      decide (s.shared.disconnects = [] ∧
        (system.machine.log enqueued (initial true) popping).filter (belongs 0 "s") ≠
          (s.shared.handed.map Prod.fst).filter (belongs 0 "s") ++
            queued s.shared 0 "s")) = true := by decide +kernel
  obtain ⟨s,hrun,hs⟩ := (Option.any_eq_true _ _).mp hlast
  exact ⟨s,hrun,of_decide_eq_true hs⟩

end QueueOrder
end JobControllerClient
