import JobControllerClient.DisconnectMarks
import JobControllerClient.QueueLocks

/-! Messages and disconnects. A message belongs to the connection whose disconnect is
the first one marked after its `queue_message` call began. It goes to another one when the
call is overtaken by a disconnect, when the clearing of a queue is skipped, or when a
superseded task acts; without these, no message crosses a disconnect. -/
namespace JobControllerClient
namespace QueueHandoff

open Interleaving Websocket DisconnectMarks

/-- A message goes to the connection it belongs to or nowhere, and a request that was
refused has left nothing behind for a later connection. -/
def NoCrossing (s : State) : Prop :=
  (∀ item conn conn', (item,conn) ∈ s.shared.handed →
    s.shared.disconnects[item.born]? = some conn' → conn = conn') ∧
  ∀ (j : ℕ) item conn, s.threads[j]? = some (.request (.done .refused)) →
    (item,conn) ∈ s.shared.handed → item.caller = j →
      s.shared.disconnects[item.born]? = some conn

/-- The steps that can carry a message over a disconnect: the push of a call that began
before the last mark, a mark by a superseded call, a clear that finds its mutex held, and
a pop by a superseded scheduler. -/
def crosses (s : State) : Move → Bool
  | .run i _ => s.threads[i]?.any fun
    | .queueing (.lock item) _ => item.born ≠ s.shared.disconnects.length
    | .disconnecting conn .swap _ => conn ≠ s.shared.connectionId
    | .disconnecting _ (.clear false p) _ => (s.shared.queue p).holder ≠ none
    | .scheduler conn (.pop _) => conn ≠ s.shared.connectionId
    | _ => false
  | _ => false

def pushing : Task → Option Item
  | .queueing (.lock item) _ => some item
  | _ => none

def unpushed : Task → Option Item
  | .queueing (.check item) _ | .queueing (.lock item) _ => some item
  | _ => none

def inHand : Task → Option (Item × ℕ)
  | .scheduler conn (.popped _ (some item)) | .scheduler conn (.sending _ item) => some (item,conn)
  | _ => none

def Taken (s : State) (item : Item) (conn : ℕ) : Prop :=
  (∃ t ∈ s.threads, inHand t = some (item,conn)) ∨ (item,conn) ∈ s.shared.handed

/-- The message got past the closed flag; it is about to be queued, queued, or taken. -/
def Live (s : State) (item : Item) : Prop :=
  (∃ t ∈ s.threads, pushing t = some item) ∨ (∃ p, item ∈ (s.shared.queue p).items) ∨
    ∃ conn, Taken s item conn

variable {s s' : State} {x x' : Client} {i j p conn : ℕ} {t t' : Task} {c : Choice} {n : Next}
  {new : List Task} {move : Move} {item : Item}

section Flow

theorem perform_handed {a : Action} {r : a.Answer} (h : x.perform i a = some (x',r)) :
    x'.handed = x.handed ∨
      ∃ conn item, a = .handOver conn item ∧ x'.handed = x.handed ++ [(item,conn)] := by
  cases a <;> simp only [Client.perform] at h <;> (repeat' split at h) <;>
    simp only [Option.some.injEq,Prod.mk.injEq,Option.map_eq_some_iff,reduceCtorEq] at h
  case handOver.isTrue conn item _ =>
    obtain ⟨rfl,-⟩ := h
    exact .inr ⟨conn,item,rfl,rfl⟩
  all_goals first
    | (obtain ⟨rfl,-⟩ := h; exact .inl rfl)
    | (obtain ⟨_,-,rfl,-⟩ := h; exact .inl rfl)

theorem mem_turn {u : Task} (ht : Turn system s s' i t c t' new) (hu : u ∈ s'.threads) :
    u = t' ∨ u ∈ s.threads ∨ u ∈ new := by
  obtain ⟨j,hj⟩ := List.mem_iff_getElem?.mp hu
  rcases ht.thread_cases hj with ⟨-,hself⟩ | ⟨-,hold⟩ | ⟨-,hnew⟩
  · exact .inl hself
  · exact .inr (.inl (List.mem_of_getElem? hold))
  · exact .inr (.inr hnew)

theorem pushing_self {r : n.action.Answer} (hact : act t c = some n)
    (h : x.perform i n.action = some (x',r)) (hp : pushing (n.resume r) = some item) :
    (∃ key, t = .queueing (.check item) key) ∧ x.connectionClosed = false := by
  have hkind := act_kind hact r
  obtain ⟨key,hr⟩ : ∃ key, n.resume r = .queueing (.lock item) key := by
    unfold pushing at hp
    split at hp <;> cases hp
    exact ⟨_,by assumption⟩
  rw [hr] at hkind
  cases t
  case queueing pc key' =>
    cases pc <;> cases c <;> cases hact <;> dsimp only at hr
    case check.go.refl item' =>
      simp only [Client.perform,Option.some.injEq,Prod.mk.injEq] at h
      obtain ⟨-,rfl⟩ := h
      split at hr
      · cases key' <;> cases hr
      · rename_i hopen
        cases hr
        exact ⟨⟨_,rfl⟩,by simpa using hopen⟩
    case notify.go.refl => cases key' <;> cases hr
    all_goals cases hr
  case request pc =>
    simp only [act] at hact
    unfold sendDbRequest at hact
    split at hact <;> cases hact <;> cases hr
  case queued => cases hact
  all_goals cases key <;> cases hkind

theorem inHand_self {r : n.action.Answer} (hact : act t c = some n)
    (h : x.perform i n.action = some (x',r)) (hh : inHand (n.resume r) = some (item,conn)) :
    inHand t = some (item,conn) ∨
      (∃ scan, t = .scheduler conn (.pop scan)) ∧ ∃ p, item ∈ (x.queue p).items := by
  have hkind := act_kind hact r
  have hscheduler : (n.resume r).kind = .worker conn .scheduler := by
    unfold inHand at hh
    split at hh <;> cases hh <;> rename_i hr <;> rw [hr] <;> rfl
  rw [hscheduler] at hkind
  obtain ⟨pc,rfl⟩ := scheduler_of_kind hkind.symm
  cases pc
  case' popped scan found => cases found
  all_goals cases c <;> cases hact <;> dsimp only at hh
  case pop.pop.refl scan source =>
    simp only [Client.perform] at h
    split at h <;> simp only [Option.map_eq_some_iff,Prod.mk.injEq,reduceCtorEq] at h
    obtain ⟨⟨found,l⟩,hpop,-,rfl⟩ := h
    cases found with
    | none => cases hh
    | some first =>
      cases hh
      exact .inr ⟨⟨scan,rfl⟩,scan.level,(Level.pop_some hpop).1⟩
  case popped.some.go.refl =>
    cases hh
    exact .inl rfl
  case top.go.refl | popped.none.go.refl =>
    simp only [Scan.nextLevel] at hh
    (repeat' split at hh) <;> cases hh
  case sending.go.refl | peeked.go.refl =>
    simp only [Scan.probe] at hh
    (repeat' split at hh) <;> cases hh
  all_goals (repeat' split at hh) <;> cases hh

theorem spawned_idle {u : Task} (hact : act t c = some n) (hu : u ∈ n.spawned.toList) :
    unpushed u = none ∧ pushing u = none ∧ inHand u = none := by
  obtain ⟨conn,role,rest,-,rfl,-⟩ := act_spawned hact (by simpa using hu)
  cases role <;> exact ⟨rfl,rfl,rfl⟩

theorem taken_turn (ht : Turn system s s' i t c t' new) (h : Taken s' item conn) :
    Taken s item conn ∨
      (∃ scan, t = .scheduler conn (.pop scan)) ∧ ∃ p, item ∈ (s.shared.queue p).items := by
  obtain ⟨n,r,hact,hperf,rfl,rfl⟩ := turn_access ht
  rcases h with ⟨u,hu,hhand⟩ | hhanded
  · rcases mem_turn ht hu with rfl | hold | hnew
    · rcases inHand_self hact hperf hhand with hself | hpop
      · exact .inl (.inl ⟨t,List.mem_of_getElem? ht.thread,hself⟩)
      · exact .inr hpop
    · exact .inl (.inl ⟨u,hold,hhand⟩)
    · rw [(spawned_idle hact hnew).2.2] at hhand
      cases hhand
  · rcases perform_handed hperf with hsame | ⟨conn',item',ha,happend⟩
    · exact .inl (.inr (by rwa [hsame] at hhanded))
    · rw [happend,List.mem_append,List.mem_singleton,Prod.mk.injEq] at hhanded
      rcases hhanded with hold | ⟨rfl,rfl⟩
      · exact .inl (.inr hold)
      · have hperfs := act_performs hact
        rw [ha] at hperfs
        obtain ⟨scan,rfl⟩ := hperfs
        exact .inl (.inl ⟨_,List.mem_of_getElem? ht.thread,rfl⟩)

theorem queued_turn (ht : Turn system s s' i t c t' new) (h : item ∈ (s'.shared.queue p).items) :
    item ∈ (s.shared.queue p).items ∨
      (∃ key, t = .queueing (.lock item) key) ∧ item.priority.level = p := by
  obtain ⟨n,r,hact,hperf,-,-⟩ := turn_access ht
  have hchange := level_perform hperf p
  generalize s'.shared.queue p = l at hchange h
  cases hchange with
  | kept | peeked | unlocked => exact .inl h
  | pushed pushed ha hlevel =>
    rcases Level.mem_items_push.mp h with rfl | hold
    · have hperfs := act_performs hact
      rw [ha] at hperfs
      exact .inr ⟨hperfs,hlevel⟩
    · exact .inl hold
  | popped source found l ha hfree hpop =>
    cases found with
    | none =>
      obtain ⟨rfl,-⟩ := Level.pop_none hpop
      exact .inl h
    | some first => exact .inl ((Level.pop_some hpop).2 item h)
  | cleared => simp at h
  | pruned => exact .inl (Level.mem_items_prune.mp h)

theorem live_turn (ht : Turn system s s' i t c t' new) (h : Live s' item) :
    Live s item ∨
      (∃ key, t = .queueing (.check item) key) ∧ s.shared.connectionClosed = false := by
  obtain ⟨n,r,hact,hperf,hr,hnew⟩ := turn_access ht
  rcases h with ⟨u,hu,hpush⟩ | ⟨p,hqueued⟩ | ⟨conn,htaken⟩
  · rcases mem_turn ht hu with rfl | hold | hspawned
    · rw [hr] at hpush
      exact .inr (pushing_self hact hperf hpush)
    · exact .inl (.inl ⟨u,hold,hpush⟩)
    · rw [hnew] at hspawned
      rw [(spawned_idle hact hspawned).2.1] at hpush
      cases hpush
  · rcases queued_turn ht hqueued with hold | ⟨⟨key,rfl⟩,-⟩
    · exact .inl (.inr (.inl ⟨p,hold⟩))
    · exact .inl (.inl ⟨_,List.mem_of_getElem? ht.thread,rfl⟩)
  · rcases taken_turn ht htaken with hold | ⟨-,hqueued⟩
    · exact .inl (.inr (.inr ⟨conn,hold⟩))
    · exact .inl (.inr (.inl hqueued))

theorem unpushed_self {r : n.action.Answer} (hact : act t c = some n)
    (h : x.perform i n.action = some (x',r)) (hu : unpushed (n.resume r) = some item) :
    unpushed t = some item ∨ (item.caller = i ∧ item.born = x.disconnects.length) := by
  have hkind := act_kind hact r
  obtain ⟨pc',key,hr⟩ : ∃ pc key, n.resume r = .queueing pc key := by
    unfold unpushed at hu
    split at hu <;> cases hu <;> exact ⟨_,_,by assumption⟩
  cases t
  case queueing pc key' =>
    cases pc <;> cases c <;> cases hact <;> dsimp only at hu
    case called.go.refl source data priority =>
      simp only [Client.perform,Option.some.injEq,Prod.mk.injEq] at h
      obtain ⟨-,rfl⟩ := h
      cases hu
      exact .inr ⟨rfl,rfl⟩
    case check.go.refl item' =>
      split at hu
      · cases key' <;> cases hu
      · cases hu
        exact .inl rfl
    case notify.go.refl => cases key' <;> cases hu
    all_goals cases hu
  case request pc =>
    simp only [act] at hact
    unfold sendDbRequest at hact
    split at hact <;> cases hact <;> cases hu
  case queued => cases hact
  all_goals
    rw [hr] at hkind
    cases key <;> cases hkind

end Flow

/-- The call that found the connection open has still to clear level `p`. -/
def uncleared (p : ℕ) : DisconnectPc → Bool
  | .storeReady was => !was
  | .clear was q => !was && decide (q ≤ p)
  | .cleared was q => !was && decide (q < p)
  | _ => false

theorem notifies_of_uncleared {pc : DisconnectPc} (h : uncleared p pc = true) :
    notifies pc = true := by
  cases pc <;> simp_all [uncleared,notifies]

theorem uncleared_nextClear {q : ℕ} (hp : p < priorityLevels) (hq : q < p) :
    uncleared p (nextClear false q) = true := by
  have hlast : q + 1 < priorityLevels := by omega
  simp only [nextClear,hlast,if_true,uncleared]
  simpa using hq

/-- The call keeps level `p` on its list until it has emptied it. -/
theorem uncleared_self {pc : DisconnectPc} {caller : Caller} {r : n.action.Answer}
    (hact : handleDisconnect conn caller pc c = some n) (h : x.perform i n.action = some (x',r))
    (hp : p < priorityLevels) (hpc : uncleared p pc = true)
    (hfree : ∀ q, pc = .clear false q → (x.queue q).holder = none) :
    (∃ pc', n.resume r = .disconnecting conn pc' caller ∧ uncleared p pc' = true) ∨
      (x'.queue p).items = [] := by
  cases pc <;> cases c <;> cases hact <;> simp only [uncleared,reduceCtorEq] at hpc
  case storeReady.go.refl was =>
    obtain rfl : was = false := by simpa using hpc
    exact .inl ⟨_,rfl,by simp [uncleared]⟩
  case clear.go.refl was q =>
    obtain ⟨rfl,hq⟩ : was = false ∧ q ≤ p := by simpa using hpc
    have hholder := hfree q rfl
    simp only [Client.perform,hholder,if_true,Option.some.injEq,Prod.mk.injEq] at h
    obtain ⟨rfl,rfl⟩ := h
    by_cases hqp : q = p
    · subst hqp
      exact .inr (by simp [Client.setLevel])
    · exact .inl ⟨_,rfl,by simp [uncleared]; omega⟩
  case cleared.go.refl was q =>
    obtain ⟨rfl,hq⟩ : was = false ∧ q < p := by simpa using hpc
    exact .inl ⟨_,rfl,uncleared_nextClear hp hq⟩

/-- The message belongs to connection `conn`: it is the one of the first mark after the
call began, or the current one while there is no such mark. -/
def Destined (x : Client) (item : Item) (conn : ℕ) : Prop :=
  (x.disconnects ++ [x.connectionId])[item.born]? = some conn

theorem Destined.born_le (h : Destined x item conn) : item.born ≤ x.disconnects.length := by
  have hlt := (List.getElem?_eq_some_iff.mp h).1
  simp only [List.length_append,List.length_singleton] at hlt
  omega

theorem destined_current (h : item.born = x.disconnects.length) :
    Destined x item x.connectionId := by
  simp [Destined,h]

theorem Destined.past (h : Destined x item conn) (hb : item.born < x.disconnects.length) :
    x.disconnects[item.born]? = some conn := by
  rwa [Destined,List.getElem?_append_left hb] at h

theorem Destined.of_past (h : x.disconnects[item.born]? = some conn) : Destined x item conn := by
  rw [Destined,List.getElem?_append_left (List.getElem?_eq_some_iff.mp h).1,h]

theorem Destined.mark (h : Destined x item conn)
    (hmark : x'.disconnects = x.disconnects ++ [x.connectionId]) : Destined x' item conn := by
  refine .of_past ?_
  rw [hmark]
  exact h

theorem Destined.congr (h : Destined x item conn) (hd : x'.disconnects = x.disconnects)
    (hid : x'.connectionId = x.connectionId) : Destined x' item conn := by
  rwa [Destined,hd,hid]

structure Handoff (s : State) : Prop where
  closed : s.shared.connectionClosed = true → Opened s → ∀ item, Live s item →
    item.born < s.shared.disconnects.length
  idle : ∀ pc, s.threads[0]? = some (.supervisor pc) → serving pc = false → Opened s →
    ∀ p item, item ∉ (s.shared.queue p).items
  queued : ∀ p, ∀ item ∈ (s.shared.queue p).items, p < priorityLevels ∧
    Destined s.shared item s.shared.connectionId ∧
    (item.born < s.shared.disconnects.length → ∃ (j : ℕ) (pc : DisconnectPc) (caller : Caller),
      s.threads[j]? = some (.disconnecting s.shared.connectionId pc caller) ∧
        uncleared p pc = true)
  taken : ∀ item conn, Taken s item conn → Opened s ∧ Destined s.shared item conn
  unpushed : ∀ (j : ℕ) t item, s.threads[j]? = some t → unpushed t = some item →
    item.caller = j ∧ item.born ≤ s.shared.disconnects.length

theorem born_le (hs : Handoff s) (h : Live s item) :
    item.born ≤ s.shared.disconnects.length := by
  rcases h with ⟨u,hu,hpush⟩ | ⟨p,hqueued⟩ | ⟨conn,htaken⟩
  · obtain ⟨j,hj⟩ := List.mem_iff_getElem?.mp hu
    refine (hs.unpushed j u item hj ?_).2
    unfold pushing at hpush
    split at hpush <;> cases hpush
    rfl
  · exact (hs.queued p item hqueued).2.1.born_le
  · exact (hs.taken item conn htaken).2.born_le

theorem unpushed_turn {u : Task} (hs : Handoff s) (ht : Turn system s s' i t c t' new)
    (hle : s.shared.disconnects.length ≤ s'.shared.disconnects.length)
    (hj : s'.threads[j]? = some u) (hu : unpushed u = some item) :
    item.caller = j ∧ item.born ≤ s'.shared.disconnects.length := by
  obtain ⟨n,r,hact,hperf,rfl,rfl⟩ := turn_access ht
  rcases ht.thread_cases hj with ⟨rfl,rfl⟩ | ⟨-,hold⟩ | ⟨-,hnew⟩
  · rcases unpushed_self hact hperf hu with hself | ⟨hcaller,hborn⟩
    · have hold := hs.unpushed j t item ht.thread hself
      exact ⟨hold.1,hold.2.trans hle⟩
    · exact ⟨hcaller,by omega⟩
  · have hold := hs.unpushed j u item hold hu
    exact ⟨hold.1,hold.2.trans hle⟩
  · rw [(spawned_idle hact hnew).1] at hu
    cases hu

theorem born_of_push (hcross : crosses s (.run i c) = false) {key : Option UInt32}
    (hi : s.threads[i]? = some (.queueing (.lock item) key)) :
    item.born = s.shared.disconnects.length := by
  simpa [crosses,hi] using hcross

/-- Between two connections the queues are empty. -/
theorem idle_empty (hlayout : Layout s) (hmarks : Marks s) (hs : Handoff s)
    (hcross : crosses s (.run i c) = false) (ht : Turn system s s' i t c t' new)
    {pc : SupervisorPc} (h0 : s'.threads[0]? = some (.supervisor pc)) (hidle : serving pc = false)
    (hopened : Opened s') (p : ℕ) (item : Item) : item ∉ (s'.shared.queue p).items := by
  intro hitem
  have hopened' := opened_of_idle hlayout ht h0 hidle hopened
  have hclosed := idle_turn hlayout hmarks ht h0 hidle hopened
  rcases queued_turn ht hitem with hold | ⟨⟨key,rfl⟩,-⟩
  · rcases idle_cases hlayout ht h0 hidle with ⟨pc₀,h0',hidle₀⟩ | hcount
    · exact hs.idle pc₀ h0' hidle₀ hopened' p item hold
    · -- the notified call has cleared every level
      have hborn := hs.closed hclosed hopened' item (.inr (.inl ⟨p,hold⟩))
      obtain ⟨j,pc',caller,hj,huncleared⟩ := (hs.queued p item hold).2.2 hborn
      exact hcount (hmarks.silent j pc' caller hj (notifies_of_uncleared huncleared))
  · have hborn := hs.closed hclosed hopened' item (.inl ⟨_,List.mem_of_getElem? ht.thread,rfl⟩)
    have hcurrent := born_of_push hcross ht.thread
    omega

theorem uncleared_turn (hcross : crosses s (.run i c) = false)
    (ht : Turn system s s' i t c t' new) (hp : p < priorityLevels)
    (hitem : item ∈ (s'.shared.queue p).items)
    (h : ∃ (j : ℕ) (pc : DisconnectPc) (caller : Caller),
      s.threads[j]? = some (.disconnecting conn pc caller) ∧ uncleared p pc = true) :
    ∃ (j : ℕ) (pc : DisconnectPc) (caller : Caller),
      s'.threads[j]? = some (.disconnecting conn pc caller) ∧ uncleared p pc = true := by
  obtain ⟨j,pc,caller,hj,hpc⟩ := h
  by_cases hji : j = i
  · subst hji
    obtain rfl : t = .disconnecting conn pc caller := Option.some.inj (ht.thread.symm.trans hj)
    obtain ⟨n,r,hact,hperf,rfl,-⟩ := turn_access ht
    have hfree : ∀ q, pc = .clear false q → (s.shared.queue q).holder = none := by
      rintro q rfl
      simpa [crosses,ht.thread] using hcross
    rcases uncleared_self hact hperf hp hpc hfree with ⟨pc',hr,hpc'⟩ | hempty
    · exact ⟨j,pc',caller,by rw [ht.self,hr],hpc'⟩
    · rw [hempty] at hitem
      exact absurd hitem List.not_mem_nil
  · exact ⟨j,pc,caller,ht.kept hji hj,hpc⟩

/-- A pop of the current scheduler takes a message that belongs to its connection. -/
theorem taken_destined (hs : Handoff s) (hcross : crosses s (.run i c) = false)
    (ht : Turn system s s' i t c t' new) (h : Taken s' item conn) :
    Taken s item conn ∨
      (Opened s ∧ conn = s.shared.connectionId ∧ Destined s.shared item conn) := by
  rcases taken_turn ht h with hold | ⟨⟨scan,rfl⟩,p,hqueued⟩
  · exact .inl hold
  · have hcurrent : conn = s.shared.connectionId := by simpa [crosses,ht.thread] using hcross
    subst hcurrent
    exact .inr ⟨⟨_,i,_,.scheduler,ht.thread,rfl⟩,rfl,(hs.queued p item hqueued).2.1⟩

theorem handoff_kept (hlayout : Layout s) (hmarks : Marks s) (hs : Handoff s)
    (hcross : crosses s (.run i c) = false) (ht : Turn system s s' i t c t' new)
    (hne : ∀ conn caller, t ≠ .disconnecting conn .swap caller)
    (hd : s'.shared.disconnects = s.shared.disconnects)
    (hid : s'.shared.connectionId = s.shared.connectionId) : Handoff s' := by
  refine ⟨fun hclosed hopened item hlive => ?_,
    fun pc h0 hidle hopened => idle_empty hlayout hmarks hs hcross ht h0 hidle hopened,
    fun p item hitem => ?_,fun item conn htaken => ?_,
    fun j u item => unpushed_turn hs ht (by rw [hd])⟩
  · obtain ⟨hclosed',hopened'⟩ := closed_turn hlayout hmarks ht hne hclosed hopened
    rw [hd]
    rcases live_turn ht hlive with hold | ⟨-,hopen⟩
    · exact hs.closed hclosed' hopened' item hold
    · rw [hopen] at hclosed'
      cases hclosed'
  · rw [hd,hid]
    rcases queued_turn ht hitem with hold | ⟨⟨key,rfl⟩,hlevel⟩
    · obtain ⟨hp,hdestined,hclear⟩ := hs.queued p item hold
      exact ⟨hp,hdestined.congr hd hid,fun hborn => uncleared_turn hcross ht hp hitem (hclear hborn)⟩
    · have hborn := born_of_push hcross ht.thread
      refine ⟨?_,(destined_current hborn).congr hd hid,fun hlt => by omega⟩
      rw [← hlevel]
      cases item.priority <;> decide
  · rcases taken_destined hs hcross ht htaken with hold | ⟨hopened,-,hdestined⟩
    · obtain ⟨hopened,hdestined⟩ := hs.taken item conn hold
      exact ⟨opened_step ht.step hopened,hdestined.congr hd hid⟩
    · exact ⟨opened_step ht.step hopened,hdestined.congr hd hid⟩

theorem handoff_swap (hlayout : Layout s) (hmarks : Marks s) (hs : Handoff s) {caller : Caller}
    (hcross : crosses s (.run i c) = false)
    (ht : Turn system s s' i (.disconnecting s.shared.connectionId .swap caller) c t' new) :
    Handoff s' := by
  have hopened : Opened s := ⟨_,staffed_disconnecting ht.thread⟩
  have hnext := ht.self
  obtain ⟨n,r,hact,hperf,rfl,-⟩ := turn_access ht
  cases c <;> cases hact
  simp only [Client.perform,Option.some.injEq,Prod.mk.injEq] at hperf
  obtain ⟨hx,rfl⟩ := hperf
  have hd : s'.shared.disconnects = s.shared.disconnects ++ [s.shared.connectionId] := by rw [← hx]
  have hid : s'.shared.connectionId = s.shared.connectionId := by rw [← hx]
  refine ⟨fun _ _ item hlive => ?_,
    fun pc h0 hidle hopened => idle_empty hlayout hmarks hs hcross ht h0 hidle hopened,
    fun p item hitem => ?_,fun item conn htaken => ?_,
    fun j u item => unpushed_turn hs ht (by simp [hd])⟩
  · rcases live_turn ht hlive with hold | ⟨⟨key,hcheck⟩,-⟩
    · have hborn := born_le hs hold
      rw [hd,List.length_append,List.length_singleton]
      omega
    · cases hcheck
  · rcases queued_turn ht hitem with hold | ⟨⟨key,hlock⟩,-⟩
    · obtain ⟨hp,hdestined,hclear⟩ := hs.queued p item hold
      rw [hid]
      refine ⟨hp,hdestined.mark hd,fun _ => ?_⟩
      cases hclosed : s.shared.connectionClosed with
      | false =>
        rw [hclosed] at hnext
        exact ⟨i,_,caller,hnext,rfl⟩
      | true =>
        have hborn := hs.closed hclosed hopened item (.inr (.inl ⟨p,hold⟩))
        exact uncleared_turn hcross ht hp hitem (hclear hborn)
    · cases hlock
  · rcases taken_destined hs hcross ht htaken with hold | ⟨-,-,hdestined⟩
    · exact ⟨opened_step ht.step hopened,(hs.taken item conn hold).2.mark hd⟩
    · exact ⟨opened_step ht.step hopened,hdestined.mark hd⟩

theorem handoff_next (hlayout : Layout s) (hmarks : Marks s) (hs : Handoff s)
    (hcross : crosses s (.run i c) = false)
    (ht : Turn system s s' i (.supervisor .start) c t' new) : Handoff s' := by
  obtain rfl := hlayout.only i _ ht.thread
  obtain ⟨n,r,hact,hperf,rfl,-⟩ := turn_access ht
  cases c <;> cases hact
  simp only [Client.perform,Option.some.injEq,Prod.mk.injEq] at hperf
  have hd : s'.shared.disconnects = s.shared.disconnects := by rw [← hperf.1]
  have hlive : ∀ {item}, Live s' item → Live s item := by
    intro item h
    rcases live_turn ht h with hold | ⟨⟨key,hcheck⟩,-⟩
    · exact hold
    · cases hcheck
  refine ⟨fun hclosed hopened item h => ?_,
    fun pc h0 hidle hopened => idle_empty hlayout hmarks hs hcross ht h0 hidle hopened,
    fun p item hitem => ?_,fun item conn htaken => ?_,
    fun j u item => unpushed_turn hs ht (by rw [hd])⟩
  · obtain ⟨hclosed',hopened'⟩ := closed_turn hlayout hmarks ht (by simp) hclosed hopened
    rw [hd]
    exact hs.closed hclosed' hopened' item (hlive h)
  · rcases queued_turn ht hitem with hold | ⟨⟨key,hlock⟩,-⟩
    · by_cases hopened : Opened s
      · exact absurd hold (hs.idle _ ht.thread rfl hopened p item)
      · -- nothing has been disconnected yet, and the message waits for the first connection
        have hnil : s.shared.disconnects = [] := by
          by_contra hne
          exact hopened (hmarks.disconnected hne)
        obtain ⟨hp,hdestined,-⟩ := hs.queued p item hold
        have hborn := hdestined.born_le
        rw [hnil] at hborn
        have hzero : item.born = s'.shared.disconnects.length := by
          rw [hd,hnil]
          exact Nat.le_zero.mp hborn
        exact ⟨hp,destined_current hzero,fun hlt => by omega⟩
    · cases hlock
  · rcases taken_turn ht htaken with hold | ⟨⟨scan,hpop⟩,-⟩
    · obtain ⟨hopened,hdestined⟩ := hs.taken item conn hold
      have hclosed := hmarks.idle _ ht.thread rfl hopened
      have hborn := hs.closed hclosed hopened item (.inr (.inr ⟨conn,hold⟩))
      refine ⟨opened_step ht.step hopened,.of_past ?_⟩
      rw [hd]
      exact hdestined.past hborn
    · cases hpop

theorem perform_ledger {a : Action} {r : a.Answer} (h : x.perform i a = some (x',r))
    (hswap : ∀ conn, a ≠ .swapClosed conn) (hnext : a ≠ .nextConnection) :
    x'.disconnects = x.disconnects ∧ x'.connectionId = x.connectionId := by
  cases ha : onMarks a with
  | false =>
    obtain ⟨-,hid,hd,-⟩ := perform_marks h ha
    exact ⟨hd,hid⟩
  | true =>
    cases a <;> simp only [onMarks,reduceCtorEq] at ha <;>
      simp only [Client.perform,Option.some.injEq,Prod.mk.injEq] at h
    case swapClosed conn => exact absurd rfl (hswap conn)
    case nextConnection => exact absurd rfl hnext
    all_goals
      obtain ⟨rfl,-⟩ := h
      exact ⟨rfl,rfl⟩

theorem taken_arrive {u : Task} (hu : entry u = true)
    (h : Taken ⟨s.shared,s.threads ++ [u]⟩ item conn) : Taken s item conn := by
  rcases h with ⟨v,hv,hhand⟩ | hhanded
  · rcases List.mem_append.mp hv with hold | hnew
    · exact .inl ⟨v,hold,hhand⟩
    · rw [List.mem_singleton.mp hnew] at hhand
      rcases entry_cases hu with ⟨_,_,_,rfl⟩ | ⟨_,rfl⟩ <;> cases hhand
  · exact .inr hhanded

theorem live_arrive {u : Task} (hu : entry u = true)
    (h : Live ⟨s.shared,s.threads ++ [u]⟩ item) : Live s item := by
  rcases h with ⟨v,hv,hpush⟩ | hqueued | ⟨conn,htaken⟩
  · rcases List.mem_append.mp hv with hold | hnew
    · exact .inl ⟨v,hold,hpush⟩
    · rw [List.mem_singleton.mp hnew] at hpush
      rcases entry_cases hu with ⟨_,_,_,rfl⟩ | ⟨_,rfl⟩ <;> cases hpush
  · exact .inr (.inl hqueued)
  · exact .inr (.inr ⟨conn,taken_arrive hu htaken⟩)

theorem handoff_arrive {u : Task} (hs : Handoff s) (hu : entry u = true) :
    Handoff ⟨s.shared,s.threads ++ [u]⟩ := by
  refine ⟨fun hclosed hopened item hlive => ?_,fun pc h0 hidle hopened => ?_,
    fun p item hitem => ?_,fun item conn htaken => ?_,fun j v item hj hv => ?_⟩
  · exact hs.closed hclosed (opened_arrive hu hopened) item (live_arrive hu hlive)
  · exact hs.idle pc (arrive_old hu h0 rfl) hidle (opened_arrive hu hopened)
  · obtain ⟨hp,hdestined,hclear⟩ := hs.queued p item hitem
    refine ⟨hp,hdestined,fun hborn => ?_⟩
    obtain ⟨j,pc,caller,hj,hpc⟩ := hclear hborn
    exact ⟨j,pc,caller,arrive_kept hj,hpc⟩
  · obtain ⟨⟨conn',j,v,role,hj,hk⟩,hdestined⟩ := hs.taken item conn (taken_arrive hu htaken)
    exact ⟨⟨conn',j,v,role,arrive_kept hj,hk⟩,hdestined⟩
  · rcases arrive_cases hj with hold | ⟨-,rfl⟩
    · exact hs.unpushed j v item hold hv
    · rcases entry_cases hu with ⟨_,_,_,rfl⟩ | ⟨_,rfl⟩ <;> cases hv

theorem handoff_step (hlayout : Layout s) (hmarks : Marks s) (hs : Handoff s)
    (hcross : crosses s move = false) (h : system.machine.step s move = some s') : Handoff s' := by
  cases move with
  | arrive u =>
    obtain ⟨he,rfl⟩ := step_arrive h
    exact handoff_arrive hs he
  | run i c =>
    obtain ⟨t,t',new,ht⟩ := step_run h
    obtain ⟨n,r,hact,hperf,-,-⟩ := turn_access ht
    have hperfs := act_performs hact
    by_cases hnext : n.action = .nextConnection
    · rw [hnext] at hperfs
      obtain rfl : t = .supervisor .start := hperfs
      exact handoff_next hlayout hmarks hs hcross ht
    by_cases hswap : ∃ conn, n.action = .swapClosed conn
    · obtain ⟨conn,hswap⟩ := hswap
      rw [hswap] at hperfs
      obtain ⟨caller,rfl⟩ := hperfs
      obtain rfl : conn = s.shared.connectionId := by simpa [crosses,ht.thread] using hcross
      exact handoff_swap hlayout hmarks hs hcross ht
    obtain ⟨hd,hid⟩ := perform_ledger hperf (fun conn ha => hswap ⟨conn,ha⟩) hnext
    refine handoff_kept hlayout hmarks hs hcross ht ?_ hd hid
    rintro conn caller rfl
    cases c <;> cases hact
    exact hswap ⟨conn,rfl⟩

theorem handoff_initial (reconnectable : Bool) : Handoff (initial reconnectable) := by
  have hmem : ∀ {t : Task}, t ∈ (initial reconnectable).threads → t = .supervisor .start := by
    simp [initial]
  have hqueue : ∀ p, ((initial reconnectable).shared.queue p).items = [] := fun p => rfl
  have htaken : ∀ {item conn}, ¬ Taken (initial reconnectable) item conn := by
    rintro item conn (⟨t,ht,hhand⟩ | hhanded)
    · rw [hmem ht] at hhand
      cases hhand
    · exact absurd hhanded List.not_mem_nil
  refine ⟨fun hclosed => (by cases hclosed),fun _ _ _ _ p item hitem => ?_,fun p item hitem => ?_,
    fun item conn h => absurd h htaken,fun j t item hj hu => ?_⟩
  · rw [hqueue] at hitem
    exact absurd hitem List.not_mem_nil
  · rw [hqueue] at hitem
    exact absurd hitem List.not_mem_nil
  · rw [hmem (List.mem_of_getElem? hj)] at hu
    cases hu

def admitted : Task → Bool
  | .request (.fetchId _) | .request (.register ..) | .queueing _ (some _)
  | .request (.recheck _) => true
  | _ => false

/-- The request has not called `queue_message` yet, or has found the connection closed
after the call. -/
def settled : Task → Bool
  | .request (.called _) | .request (.checkReady _) | .request (.fetchId _)
  | .request (.register ..) | .queueing (.called ..) (some _) | .request (.withdraw _)
  | .request (.done .refused) => true
  | _ => false

theorem admitted_self {r : n.action.Answer} (hact : act t c = some n)
    (h : x.perform i n.action = some (x',r)) (ha : admitted (n.resume r) = true) :
    admitted t = true ∨ x.serverReady = true := by
  have hkind := act_kind hact r
  cases t
  case request pc =>
    cases pc <;> cases c <;> cases hact <;> dsimp only at ha
    case checkReady.go.refl message =>
      simp only [Client.perform,Option.some.injEq,Prod.mk.injEq] at h
      obtain ⟨-,rfl⟩ := h
      split at ha
      · rename_i hready
        exact .inr hready
      · cases ha
    all_goals first
      | exact .inl rfl
      | cases ha
      | (split at ha <;> cases ha)
  case queueing pc key =>
    cases key with
    | some k => exact .inl rfl
    | none => rcases queueMessage_shape hact r with ⟨pc',hr⟩ | hr <;> rw [hr] at ha <;> cases ha
  all_goals
    generalize n.resume r = u at ha hkind
    cases u <;> simp_all [Task.kind,admitted]
    try (rename_i key; cases key <;> simp_all)

theorem settled_self {r : n.action.Answer} (hact : act t c = some n)
    (h : x.perform i n.action = some (x',r)) (hr : settled (n.resume r) = true) :
    settled t = true ∨ (∃ k, t = .request (.recheck k)) ∧ x.connectionClosed = true := by
  have hkind := act_kind hact r
  cases t
  case request pc =>
    cases pc <;> cases c <;> cases hact <;> dsimp only at hr
    case recheck.go.refl k =>
      simp only [Client.perform,Option.some.injEq,Prod.mk.injEq] at h
      obtain ⟨-,rfl⟩ := h
      split at hr
      · rename_i hclosed
        exact .inr ⟨⟨k,rfl⟩,hclosed⟩
      · cases hr
    case awaiting.go.refl k => rcases r with _ | ⟨message,frame⟩ <;> cases hr
    all_goals first | exact .inl rfl | cases hr
  case queueing pc key =>
    simp only [act] at hact
    unfold queueMessage at hact
    split at hact <;> cases hact <;> dsimp only at hr <;> (try split at hr) <;> cases key <;> cases hr
  all_goals
    generalize n.resume r = u at hr hkind
    cases u <;> simp_all [Task.kind,settled]
    try (rename_i key; cases key <;> simp_all)

/-- A message of a refused request was marked before the refusal. -/
structure Refusals (s : State) : Prop where
  admitted : ∀ (j : ℕ) t, s.threads[j]? = some t → admitted t = true → Opened s
  settled : ∀ (j : ℕ) t, s.threads[j]? = some t → settled t = true →
    ∀ item, Live s item → item.caller = j → item.born < s.shared.disconnects.length
  callers : ∀ item, Live s item → item.caller < s.threads.length

theorem disconnects_le {a : Action} {r : a.Answer} (h : x.perform i a = some (x',r)) :
    x.disconnects.length ≤ x'.disconnects.length := by
  by_cases hswap : ∃ conn, a = .swapClosed conn
  · obtain ⟨conn,rfl⟩ := hswap
    simp only [Client.perform,Option.some.injEq,Prod.mk.injEq] at h
    simp [← h.1]
  by_cases hnext : a = .nextConnection
  · subst hnext
    simp only [Client.perform,Option.some.injEq,Prod.mk.injEq] at h
    simp [← h.1]
  · rw [(perform_ledger h (fun conn ha => hswap ⟨conn,ha⟩) hnext).1]

theorem refusals_arrive {u : Task} (hs : Refusals s) (hu : entry u = true) :
    Refusals ⟨s.shared,s.threads ++ [u]⟩ := by
  refine ⟨fun j v hj hv => ?_,fun j v hj hv item hlive hcaller => ?_,fun item hlive => ?_⟩
  · rcases arrive_cases hj with hold | ⟨-,rfl⟩
    · obtain ⟨conn,k,w,role,hk,hkind⟩ := hs.admitted j v hold hv
      exact ⟨conn,k,w,role,arrive_kept hk,hkind⟩
    · rcases entry_cases hu with ⟨_,_,_,rfl⟩ | ⟨_,rfl⟩ <;> cases hv
  · rcases arrive_cases hj with hold | ⟨rfl,-⟩
    · exact hs.settled j v hold hv item (live_arrive hu hlive) hcaller
    · have hlt := hs.callers item (live_arrive hu hlive)
      omega
  · have hlt := hs.callers item (live_arrive hu hlive)
    simp only [List.length_append,List.length_singleton]
    omega

theorem refusals_turn (hmarks : Marks s) (hhandoff : Handoff s) (hs : Refusals s)
    (ht : Turn system s s' i t c t' new) : Refusals s' := by
  have hlive : ∀ {item}, Live s' item → Live s item ∨
      (item.caller = i ∧ ∃ key, t = .queueing (.check item) key) := by
    intro item h
    rcases live_turn ht h with hold | ⟨⟨key,rfl⟩,-⟩
    · exact .inl hold
    · exact .inr ⟨(hhandoff.unpushed i _ item ht.thread rfl).1,key,rfl⟩
  obtain ⟨n,r,hact,hperf,rfl,rfl⟩ := turn_access ht
  have hle := disconnects_le hperf
  refine ⟨fun j u hj hu => ?_,fun j u hj hu item h hcaller => ?_,fun item h => ?_⟩
  · refine opened_step ht.step ?_
    rcases ht.thread_cases hj with ⟨rfl,rfl⟩ | ⟨-,hold⟩ | ⟨-,hnew⟩
    · rcases admitted_self hact hperf hu with hself | hready
      · exact hs.admitted j t ht.thread hself
      · exact hmarks.ready hready
    · exact hs.admitted j u hold hu
    · obtain ⟨conn,role,rest,-,rfl,-⟩ := act_spawned hact (by simpa using hnew)
      cases role <;> cases hu
  · refine lt_of_lt_of_le ?_ hle
    rcases ht.thread_cases hj with ⟨rfl,rfl⟩ | ⟨hji,hold⟩ | ⟨-,hnew⟩
    · rcases settled_self hact hperf hu with hself | ⟨⟨k,rfl⟩,hclosed⟩
      · rcases hlive h with hold | ⟨-,key,rfl⟩
        · exact hs.settled j t ht.thread hself item hold hcaller
        · cases hself
      · rcases hlive h with hold | ⟨-,key,hcheck⟩
        · exact hhandoff.closed hclosed (hs.admitted j _ ht.thread rfl) item hold
        · cases hcheck
    · rcases hlive h with hold' | ⟨hi,-⟩
      · exact hs.settled j u hold hu item hold' hcaller
      · exact absurd (hcaller.symm.trans hi) hji
    · obtain ⟨conn,role,rest,-,rfl,-⟩ := act_spawned hact (by simpa using hnew)
      cases role <;> cases hu
  · have hlength : s.threads.length ≤ s'.threads.length := by simp [ht.threads]
    rcases hlive h with hold | ⟨rfl,-⟩
    · exact (hs.callers item hold).trans_le hlength
    · exact ht.lt.trans_le hlength

theorem refusals_step (hmarks : Marks s) (hhandoff : Handoff s) (hs : Refusals s)
    (h : system.machine.step s move = some s') : Refusals s' := by
  cases move with
  | arrive u =>
    obtain ⟨he,rfl⟩ := step_arrive h
    exact refusals_arrive hs he
  | run i c =>
    obtain ⟨t,t',new,ht⟩ := step_run h
    exact refusals_turn hmarks hhandoff hs ht

theorem staleMark_of_crosses (h : crosses s move = false) : staleMark s move = false := by
  cases move with
  | arrive u => rfl
  | run i c =>
    simp only [staleMark,crosses] at h ⊢
    cases hi : s.threads[i]? with
    | none => rfl
    | some t =>
      rw [hi] at h
      simp only [Option.any_some] at h ⊢
      split
      · exact h
      · rfl

/-- If no step of the run crosses, no message crosses a disconnect. -/
theorem no_message_crosses {reconnectable : Bool} {moves : List Move}
    (hrun : system.machine.run (initial reconnectable) moves = some s)
    (hmeets : system.machine.Meets (fun s move => crosses s move = false)
      (initial reconnectable) moves) : NoCrossing s := by
  have hlive : ∀ {item}, ¬ Live (initial reconnectable) item := by
    rintro item (⟨t,ht,hpush⟩ | ⟨p,hqueued⟩ | ⟨conn,⟨t,ht,hhand⟩ | hhanded⟩)
    · obtain rfl : t = .supervisor .start := by simpa [initial] using ht
      cases hpush
    · exact absurd hqueued List.not_mem_nil
    · obtain rfl : t = .supervisor .start := by simpa [initial] using ht
      cases hhand
    · exact absurd hhanded List.not_mem_nil
  have hrefusals : Refusals (initial reconnectable) := by
    refine ⟨fun j t hj ht => ?_,fun _ _ _ _ item h => absurd h hlive,fun item h => absurd h hlive⟩
    obtain rfl : t = .supervisor .start := by simpa [initial] using List.mem_of_getElem? hj
    cases ht
  obtain ⟨-,-,hhandoff,hrefused⟩ := StepMachine.invariant
    (I := fun s => Layout s ∧ Marks s ∧ Handoff s ∧ Refusals s)
    (by
      rintro s move s' ⟨hlayout,hmarks,hhandoff,hrefused⟩ hcross hstep
      exact ⟨layout_step hlayout hstep,marks_step hlayout hmarks (staleMark_of_crosses hcross) hstep,
        handoff_step hlayout hmarks hhandoff hcross hstep,
        refusals_step hmarks hhandoff hrefused hstep⟩)
    ⟨layout_initial reconnectable,marks_initial reconnectable,handoff_initial reconnectable,
      hrefusals⟩ hmeets hrun
  refine ⟨fun item conn conn' hhanded hmark => ?_,fun j item conn hj hhanded hcaller => ?_⟩
  · have hborn := (List.getElem?_eq_some_iff.mp hmark).1
    have hpast := (hhandoff.taken item conn (.inr hhanded)).2.past hborn
    rw [hmark,Option.some.injEq] at hpast
    exact hpast.symm
  · have hborn := hrefused.settled j _ hj rfl item (.inr (.inr ⟨conn,.inr hhanded⟩)) hcaller
    exact (hhandoff.taken item conn (.inr hhanded)).2.past hborn

def handing (i : ℕ) : List Move := going i 5 ++ [.run i (.pop (some dbSource))] ++ going i 2

/-- A request is sent, the connection ends, and a second request is refused. -/
def sentAndRefused : List Move :=
  opening ++ readying 1 ++ requesting 6 ++ handing 3 ++ closing 1 ++ [.arrive dbRequest] ++ going 7 1

theorem no_message_crosses_sentAndRefused :
    system.machine.Meets (fun s move => crosses s move = false) (initial true) sentAndRefused ∧
      ∃ s, system.machine.run (initial true) sentAndRefused = some s ∧
        (s.shared.disconnects = [1] ∧ s.shared.handed.length = 1) ∧ NoCrossing s := by
  have hmeets : system.machine.Meets (fun s move => crosses s move = false) (initial true)
      sentAndRefused := by decide +kernel
  have hany : (system.machine.run (initial true) sentAndRefused).any (fun s =>
      decide (s.shared.disconnects = [1] ∧ s.shared.handed.length = 1)) = true := by decide +kernel
  obtain ⟨s,hs,hstate⟩ := (Option.any_eq_true _ _).mp hany
  exact ⟨hmeets,s,hs,of_decide_eq_true hstate,no_message_crosses hs hmeets⟩

/-- A request passes the closed check, the disconnect runs to its end, the request is
pushed and refused, and the next connection sends it. -/
def overtaken : List Move :=
  opening ++ readying 1 ++ [.arrive dbRequest] ++ going 6 6 ++ closing 1 ++ going 6 5 ++ opening ++
    readying 7 ++ handing 9

def refusedAt (s : State) (j : ℕ) : Bool := s.threads[j]?.any fun
  | .request (.done .refused) => true
  | _ => false

/-- The refused request of thread 6 began before the disconnect of connection 1 and was
handed to the writer of connection 2. -/
theorem overtaken_crosses : ∃ s, system.machine.run (initial true) overtaken = some s ∧
    refusedAt s 6 = true ∧
    (∃ item, (item,2) ∈ s.shared.handed ∧ item.caller = 6 ∧
      s.shared.disconnects[item.born]? = some 1) ∧ ¬ NoCrossing s := by
  have hany : (system.machine.run (initial true) overtaken).any (fun s =>
      decide (refusedAt s 6 = true ∧ ∃ e ∈ s.shared.handed, e.2 = 2 ∧ e.1.caller = 6 ∧
        s.shared.disconnects[e.1.born]? = some 1)) = true := by decide +kernel
  obtain ⟨s,hs,hstate⟩ := (Option.any_eq_true _ _).mp hany
  obtain ⟨hrefused,⟨item,conn⟩,hhanded,rfl,hcaller,hmark⟩ := of_decide_eq_true hstate
  refine ⟨s,hs,hrefused,⟨item,hhanded,hcaller,hmark⟩,fun hno => ?_⟩
  have hsame := hno.1 item 2 1 hhanded hmark
  cases hsame

end QueueHandoff
end JobControllerClient
