import JobControllerClient.RequestPromises

/-! A disconnect fails every database request in flight: from the moment
`handle_disconnect` has marked the connection closed until a new one opens, an entry of
the promise map that was not taken is removed by the call that inserted it. -/
namespace JobControllerClient
namespace DisconnectRequests

open Interleaving Websocket

/-- A call of `send_db_request` that has not returned. -/
def executing : Task → Bool
  | .queueing _ (some _) => true
  | .request (.awaiting _) | .request (.expired _) | .request (.done _) => false
  | .request _ => true
  | _ => false

def insideDisconnect : Task → Bool
  | .disconnecting _ .checkId _ => false
  | .disconnecting .. => true
  | _ => false

def marking : Task → Bool
  | .disconnecting _ .swap _ => true
  | _ => false

def opens (s : State) : Move → Bool
  | .run i _ => s.threads[i]?.any fun
    | .supervisor (.openClosed _) => true
    | _ => false
  | _ => false

/-- The places of `handle_disconnect` between the mark and the take of the promises. -/
def beforeTake : Task → Bool
  | .disconnecting _ (.storeReady _) _ | .disconnecting _ (.clear ..) _
  | .disconnecting _ (.cleared ..) _ | .disconnecting _ (.take _) _ => true
  | _ => false

variable {s s' : State} {x x' : Client} {i j N : ℕ} {k : UInt32} {t : Task} {c : Choice}
  {n : Next} {move : Move}

/-- Every entry belongs to a call that will still look at the closed flag. -/
def Executes (s : State) : Prop :=
  ∀ k o, s.shared.dbRequestPromises.lookup k = some o →
    ∃ t, s.threads[o]? = some t ∧ t.receiving = some k ∧ executing t = true

theorem perform_closed {a : Action} {r : a.Answer} (h : x.perform i a = some (x',r))
    (ha : a ≠ .storeClosed false) (hx : x.connectionClosed = true) :
    x'.connectionClosed = true := by
  cases a <;> simp only [Client.perform] at h <;> (repeat' split at h) <;>
    simp only [Option.some.injEq,Prod.mk.injEq,Option.map_eq_some_iff,reduceCtorEq] at h
  case storeClosed value =>
    obtain ⟨rfl,-⟩ := h
    cases value
    · exact absurd rfl ha
    · rfl
  all_goals first
    | (obtain ⟨rfl,-⟩ := h; exact hx)
    | (obtain ⟨rfl,-⟩ := h; rfl)
    | (obtain ⟨_,-,rfl,-⟩ := h; exact hx)

theorem closed_step (hs : s.shared.connectionClosed = true) (ho : opens s move = false)
    (h : system.machine.step s move = some s') : s'.shared.connectionClosed = true := by
  cases move with
  | arrive t =>
    obtain ⟨-,rfl⟩ := step_arrive h
    exact hs
  | run i c =>
    obtain ⟨t,t',new,ht⟩ := step_run h
    obtain ⟨n,r,hact,hperf,-,-⟩ := turn_access ht
    refine perform_closed hperf (fun ha => ?_) hs
    have hp := act_performs hact
    rw [ha] at hp
    obtain ⟨conn,rfl⟩ := hp
    simp [opens,ht.thread] at ho

/-- On a closed connection the re-check never lets a request through. -/
theorem executes_self {r : n.action.Answer} (hact : act t c = some n)
    (h : x.perform i n.action = some (x',r)) (hclosed : x.connectionClosed = true)
    (hl : x'.dbRequestPromises.lookup k = some i) (hk : t.receiving = some k)
    (he : executing t = true) :
    (n.resume r).receiving = some k ∧ executing (n.resume r) = true := by
  cases t
  case queueing pc key =>
    obtain rfl : key = some k := hk
    rcases queueMessage_shape hact r with ⟨pc',hr⟩ | hr <;> rw [hr] <;> exact ⟨rfl,rfl⟩
  case request pc =>
    cases pc <;> cases c <;> cases hact <;> cases hk <;> cases he
    case recheck.go.refl.refl.refl =>
      simp only [Client.perform,Option.some.injEq,Prod.mk.injEq,hclosed] at h
      obtain ⟨-,rfl⟩ := h
      exact ⟨rfl,rfl⟩
    case withdraw.go.refl.refl.refl =>
      simp only [Client.perform,Option.some.injEq,Prod.mk.injEq] at h
      rw [← h.1] at hl
      simp [Client.unregister] at hl
  all_goals cases hk

theorem executes_step (hclosed : s.shared.connectionClosed = true) (hs : Executes s)
    (h : system.machine.step s move = some s') : Executes s' := by
  intro k o hl
  cases move with
  | arrive t =>
    obtain ⟨-,rfl⟩ := step_arrive h
    obtain ⟨u,hu,hk⟩ := hs k o hl
    exact ⟨u,arrive_kept hu,hk⟩
  | run i c =>
    obtain ⟨t,t',new,ht⟩ := step_run h
    obtain ⟨n,r,hact,hperf,rfl,-⟩ := turn_access ht
    rcases lookup_perform hperf hl with hold | ⟨ha,rfl⟩
    · obtain ⟨u,hu,hk,he⟩ := hs k o hold
      by_cases hoi : o = i
      · subst hoi
        rw [ht.thread,Option.some.injEq] at hu
        subst hu
        exact ⟨_,ht.self,executes_self hact hperf hclosed hl hk he⟩
      · exact ⟨u,ht.kept hoi hu,hk,he⟩
    · have hp := act_performs hact
      rw [ha] at hp
      obtain ⟨message,rfl⟩ := hp
      refine ⟨_,ht.self,?_⟩
      simp only [act] at hact
      unfold sendDbRequest at hact
      split at hact <;> cases hact <;> cases ha
      exact ⟨rfl,rfl⟩

/-- Thread `i` has marked the connection closed and will take the promises, or has. -/
def Draining (i : ℕ) (s : State) : Prop :=
  s.shared.connectionClosed = true ∧ (s.threads[i]?.any beforeTake = true ∨ Executes s)

theorem beforeTake_self {r : n.action.Answer} (hact : act t c = some n)
    (h : x.perform i n.action = some (x',r)) (hb : beforeTake t = true) :
    beforeTake (n.resume r) = true ∨ x'.dbRequestPromises = ∅ := by
  have hnext : ∀ conn was p caller,
      beforeTake (.disconnecting conn (nextClear was p) caller) = true := by
    intro conn was p caller
    simp only [nextClear]
    split <;> rfl
  cases t
  case disconnecting conn pc caller =>
    cases pc <;> cases c <;> cases hact <;> cases hb
    case storeReady.go.refl.refl => exact .inl rfl
    case clear.go.refl.refl =>
      dsimp only
      split
      · exact .inl rfl
      · exact .inl (hnext ..)
    case cleared.go.refl.refl => exact .inl (hnext ..)
    case take.go.refl.refl =>
      simp only [Client.perform,Option.some.injEq,Prod.mk.injEq] at h
      obtain ⟨rfl,-⟩ := h
      exact .inr rfl
  all_goals cases hb

theorem draining_step (hs : Draining i s) (ho : opens s move = false)
    (h : system.machine.step s move = some s') : Draining i s' := by
  refine ⟨closed_step hs.1 ho h,?_⟩
  rcases hs.2 with hb | he
  · obtain ⟨u,hu,hbu⟩ := (Option.any_eq_true _ _).mp hb
    cases move with
    | arrive t =>
      obtain ⟨-,rfl⟩ := step_arrive h
      exact .inl (by simpa [arrive_kept hu] using hbu)
    | run j c =>
      obtain ⟨t,t',new,ht⟩ := step_run h
      obtain ⟨n,r,hact,hperf,rfl,-⟩ := turn_access ht
      by_cases hij : i = j
      · subst hij
        rw [ht.thread,Option.some.injEq] at hu
        subst hu
        rcases beforeTake_self hact hperf hbu with hb' | hempty
        · exact .inl (by simpa [ht.self] using hb')
        · refine .inr fun k o hl => ?_
          simp [hempty] at hl
      · exact .inl (by simpa [ht.kept hij hu] using hbu)
  · exact .inr (executes_step hs.1 he h)

/-- The calls that began as thread `N` or later have not passed their first check. -/
def LateCallsWait (N : ℕ) (s : State) : Prop :=
  ∀ j t, N ≤ j → s.threads[j]? = some t → executing t = true →
    ∃ message, t = .request (.called message)

theorem executing_self {r : n.action.Answer} (hact : act t c = some n)
    (he : executing (n.resume r) = true) : executing t = true := by
  have hkind := act_kind hact r
  cases t
  case request pc =>
    simp only [act] at hact
    unfold sendDbRequest at hact
    split at hact <;> cases hact <;> first | rfl | cases he
  case queueing pc key =>
    cases key with
    | some k => rfl
    | none =>
      rcases queueMessage_shape hact r with ⟨pc',hr⟩ | hr <;> rw [hr] at he <;> cases he
  all_goals
    generalize n.resume r = u at he hkind
    cases u <;> simp_all [Task.kind,executing]
    try (rename_i key; cases key <;> simp_all)

theorem lateCallsWait_step (hclosed : s.shared.connectionClosed = true) (hs : LateCallsWait N s)
    (h : system.machine.step s move = some s') : LateCallsWait N s' := by
  intro j u hj hu he
  cases move with
  | arrive t =>
    obtain ⟨hentry,rfl⟩ := step_arrive h
    rcases arrive_cases hu with hold | ⟨-,rfl⟩
    · exact hs j u hj hold he
    · rcases entry_cases hentry with ⟨source,data,priority,rfl⟩ | ⟨message,rfl⟩
      · cases he
      · exact ⟨message,rfl⟩
  | run i c =>
    obtain ⟨t,t',new,ht⟩ := step_run h
    obtain ⟨n,r,hact,hperf,rfl,rfl⟩ := turn_access ht
    rcases ht.thread_cases hu with ⟨rfl,rfl⟩ | ⟨-,hold⟩ | ⟨-,hnew⟩
    · obtain ⟨message,rfl⟩ := hs j t hj ht.thread (executing_self hact he)
      cases c <;> cases hact
      simp only [Client.perform,Option.some.injEq,Prod.mk.injEq,hclosed] at hperf
      obtain ⟨-,rfl⟩ := hperf
      cases he
    · exact hs j u hj hold he
    · obtain ⟨conn,role,_,_,rfl,_⟩ := act_spawned hact (by simpa using hnew)
      cases role <;> cases he

/-- A `handle_disconnect` call is about to drop the sender of request thread `j`. -/
def Dropping (s : State) (j : ℕ) : Prop :=
  ∃ (i conn : ℕ) (was : Bool) (taken : List ℕ) (caller : Caller),
    s.threads[i]? = some (.disconnecting conn (.dropping was taken) caller) ∧ j ∈ taken

/-- A request that waits has its sender in the map or in the hands of a disconnect. -/
def SendersKept (s : State) : Prop :=
  ∀ j, s.shared.channels j = .waiting →
    (∃ k, s.shared.dbRequestPromises.lookup k = some j) ∨ Dropping s j

/-- An entry of a request that still waits stays until the map is taken as a whole. -/
theorem lookup_kept {a : Action} {r : a.Answer} (h : x.perform i a = some (x',r))
    (hk : x.dbRequestPromises.lookup k = some j) (hw : x'.channels j = .waiting) :
    x'.dbRequestPromises.lookup k = some j ∨ a = .takePromises := by
  have hdrop : ∀ c : Oneshot, c.dropSender ≠ .waiting := by
    intro c
    cases c <;> simp [Oneshot.dropSender]
  have hsend : ∀ (c : Oneshot) m f, c.send m f ≠ .waiting := by
    intro c m f
    cases c <;> simp [Oneshot.send]
  cases ha : a.onRequests with
  | false => exact .inl (by rw [(perform_requests h ha).1]; exact hk)
  | true =>
    cases a <;> simp only [Action.onRequests,reduceCtorEq] at ha <;>
      simp only [Client.perform] at h <;> (repeat' split at h) <;>
      simp only [Option.some.injEq,Prod.mk.injEq,reduceCtorEq] at h <;> obtain ⟨rfl,-⟩ := h
    case takePromises => exact .inr rfl
    case register k' =>
      by_cases hkk : k' = k
      · subst hkk
        by_cases hji : j = i
        · subst hji
          exact .inl (AList.lookup_insert _)
        · simp only [Client.register,Client.onOwner,Function.update_of_ne hji,hk,if_true] at hw
          exact absurd hw (hdrop _)
      · exact .inl (by simpa [Client.register,Ne.symm hkk] using hk)
    case unregister k' =>
      by_cases hkk : k' = k
      · subst hkk
        simp only [Client.unregister,Client.onOwner,hk,if_true] at hw
        exact absurd hw (hdrop _)
      · exact .inl (by simpa [Client.unregister,Ne.symm hkk] using hk)
    case respond message frame =>
      by_cases hkk : message.popUint.1 = k
      · simp only [Client.respond,Client.onOwner,hkk,hk,if_true] at hw
        exact absurd hw (hsend _ _ _)
      · exact .inl (by simpa [Client.respond,Ne.symm hkk] using hk)
    all_goals exact .inl hk

theorem sendersKept_step (hs : SendersKept s) (h : system.machine.step s move = some s') :
    SendersKept s' := by
  intro j hw
  cases move with
  | arrive t =>
    obtain ⟨-,rfl⟩ := step_arrive h
    rcases hs j hw with hk | ⟨i,conn,was,taken,caller,hi,hj⟩
    · exact .inl hk
    · exact .inr ⟨i,conn,was,taken,caller,arrive_kept hi,hj⟩
  | run i c =>
    obtain ⟨t,t',new,ht⟩ := step_run h
    obtain ⟨n,r,hact,hperf,rfl,-⟩ := turn_access ht
    rcases waiting_perform hperf hw with hold | ⟨k,ha,rfl⟩
    · rcases hs j hold with ⟨k,hk⟩ | ⟨i',conn,was,taken,caller,hi,hj⟩
      · rcases lookup_kept hperf hk hw with hk' | ha
        · exact .inl ⟨k,hk'⟩
        · have hp := act_performs hact
          rw [ha] at hp
          obtain ⟨conn,was,caller,rfl⟩ := hp
          cases c <;> cases hact
          simp only [Client.perform,Option.some.injEq,Prod.mk.injEq] at hperf
          obtain ⟨-,rfl⟩ := hperf
          exact .inr ⟨i,conn,was,_,caller,ht.self,mem_owners.mpr ⟨k,hk⟩⟩
      · by_cases hii : i' = i
        · subst hii
          rw [ht.thread,Option.some.injEq] at hi
          subst hi
          cases c <;> cases hact
          simp only [Client.perform,Option.some.injEq,Prod.mk.injEq] at hperf
          obtain ⟨hx,-⟩ := hperf
          rw [← hx] at hw
          simp [Client.dropSenders,hj,hold,Oneshot.dropSender] at hw
        · exact .inr ⟨i',conn,was,taken,caller,ht.kept hii hi,hj⟩
    · exact .inl ⟨k,(perform_register hperf ha).2⟩

theorem draining_of_mark (hmark : s.threads[i]?.any marking = true)
    (h : system.machine.step s (.run i c) = some s') : Draining i s' := by
  obtain ⟨u,hu,hm⟩ := (Option.any_eq_true _ _).mp hmark
  obtain ⟨t,t',new,ht⟩ := step_run h
  obtain ⟨n,r,hact,hperf,rfl,-⟩ := turn_access ht
  rw [ht.thread,Option.some.injEq] at hu
  subst hu
  unfold marking at hm
  split at hm
  · cases c <;> cases hact
    simp only [Client.perform,Option.some.injEq,Prod.mk.injEq] at hperf
    obtain ⟨hx,-⟩ := hperf
    exact ⟨by rw [← hx],.inl (by simp [ht.self,beforeTake])⟩
  · cases hm

theorem inside_of_beforeTake (h : beforeTake t = true) : insideDisconnect t = true := by
  unfold beforeTake at h
  split at h <;> first | rfl | cases h

theorem executes_of_returned (hs : Draining i s)
    (hreturned : s.threads[i]?.any insideDisconnect = false) : Executes s := by
  rcases hs.2 with hb | he
  · obtain ⟨t,ht,hbt⟩ := (Option.any_eq_true _ _).mp hb
    simp [ht,inside_of_beforeTake hbt] at hreturned
  · exact he

theorem promises_empty (hs : Executes s) (hlate : LateCallsWait N s)
    (hcalls : ∀ t ∈ s.threads.take N, executing t = false) : s.shared.dbRequestPromises = ∅ := by
  apply AList.ext
  refine List.eq_nil_iff_forall_not_mem.mpr ?_
  rintro ⟨k,o⟩ he
  obtain ⟨t,ht,hk,hexec⟩ := hs k o (AList.mem_lookup_iff.mpr he)
  rcases lt_or_ge o N with hlt | hge
  · have hmem : t ∈ s.threads.take N := by
      refine List.mem_of_getElem? (i := o) ?_
      rw [List.getElem?_take_of_lt hlt,ht]
    rw [hcalls t hmem] at hexec
    cases hexec
  · obtain ⟨message,rfl⟩ := hlate o t hge ht hexec
    cases hk

theorem sendersKept_run {reconnectable : Bool} {moves : List Move}
    (h : system.machine.run (initial reconnectable) moves = some s) : SendersKept s := by
  refine StepMachine.invariant_of_step (fun _ _ _ hs hstep => sendersKept_step hs hstep) ?_ h
  intro j hw
  cases hw

/-- After `handle_disconnect` has marked the connection closed and returned, once every
call begun before its return has returned, and until a connection opens, no promise is
left: each future that is still polled finds its response or a dropped sender, or its
sender is being dropped by another call of `handle_disconnect`. -/
theorem disconnect_fails_requests {reconnectable : Bool} {before during after : List Move}
    {s₀ s₁ s₂ : State} (hbefore : system.machine.run (initial reconnectable) before = some s₀)
    (hmark : s₀.threads[i]?.any marking = true)
    (hduring : system.machine.run s₀ (.run i .go :: during) = some s₁)
    (hreturned : s₁.threads[i]?.any insideDisconnect = false)
    (hafter : system.machine.run s₁ after = some s₂)
    (hopen : system.machine.Meets (fun s move => opens s move = false) s₀
      (.run i .go :: during ++ after))
    (hcalls : ∀ t ∈ s₂.threads.take s₁.threads.length, executing t = false) :
    s₂.shared.dbRequestPromises = ∅ ∧
      ∀ j k, s₂.threads[j]? = some (.request (.awaiting k)) →
        (∃ message frame, s₂.shared.channels j = .answered message frame) ∨
          s₂.shared.channels j = .senderDropped ∨ Dropping s₂ j := by
  obtain ⟨hopen₁,hopen₂⟩ := (StepMachine.meets_append hduring).mp hopen
  obtain ⟨s,hstep,hrest⟩ := (StepMachine.run_cons_eq_some _).mp hduring
  have hdraining : Draining i s₁ :=
    StepMachine.invariant (fun _ _ _ hs ho h => draining_step hs ho h)
      (draining_of_mark hmark hstep) (hopen₁.tail hstep) hrest
  have hlate : LateCallsWait s₁.threads.length s₁ := by
    intro j t hj ht
    rw [List.getElem?_eq_none hj] at ht
    cases ht
  have hend : s₂.shared.connectionClosed = true ∧ Executes s₂ ∧
      LateCallsWait s₁.threads.length s₂ :=
    StepMachine.invariant (I := fun s => s.shared.connectionClosed = true ∧ Executes s ∧
        LateCallsWait s₁.threads.length s)
      (fun s move s' hs ho h => ⟨closed_step hs.1 ho h,executes_step hs.1 hs.2.1 h,
        lateCallsWait_step hs.1 hs.2.2 h⟩)
      ⟨hdraining.1,executes_of_returned hdraining hreturned,hlate⟩ hopen₂ hafter
  have hempty := promises_empty hend.2.1 hend.2.2 hcalls
  refine ⟨hempty,fun j k hj => ?_⟩
  have hall : system.machine.run (initial reconnectable)
      (before ++ ((.run i .go :: during) ++ after)) = some s₂ := by
    refine (StepMachine.run_append_eq_some _).mpr ⟨s₀,hbefore,?_⟩
    exact (StepMachine.run_append_eq_some _).mpr ⟨s₁,hduring,hafter⟩
  obtain ⟨hused,hheld⟩ := (promise_run hall j).receiving _ k hj rfl
  cases hc : s₂.shared.channels j with
  | unused => exact absurd hc hused
  | receiverDropped => exact absurd hc hheld
  | answered message frame => exact .inl ⟨message,frame,rfl⟩
  | senderDropped => exact .inr (.inl rfl)
  | waiting =>
    rcases sendersKept_run hall j hc with ⟨k',hk'⟩ | hdrop
    · simp [hempty] at hk'
    · exact .inr (.inr hdrop)

/-- A request waits for its response and a second one stands before its re-check. -/
def twoRequests : List Move :=
  opening ++ readying 1 ++ requesting 6 ++ [.arrive dbRequest] ++ going 7 9 ++
    [.run 1 (.event .ended)] ++ going 1 1

theorem disconnect_fails_twoRequests :
    ∃ s₀ s₁ s₂, system.machine.run (initial true) twoRequests = some s₀ ∧
      system.machine.run s₀ (going 1 46) = some s₁ ∧
      system.machine.run s₁ (going 7 2) = some s₂ ∧
      s₀.shared.dbRequestPromises.entries.length = 2 ∧ s₂.shared.dbRequestPromises = ∅ := by
  obtain ⟨s₀,h₀,hs₀⟩ := (Option.any_eq_true _ _).mp (show
    (system.machine.run (initial true) twoRequests).any (fun s =>
      decide (s.shared.dbRequestPromises.entries.length = 2) && s.threads[1]?.any marking &&
      decide (system.machine.Meets (fun s move => opens s move = false) s
        (going 1 46 ++ going 7 2)) &&
      (system.machine.run s (going 1 46)).any fun s₁ =>
        !(s₁.threads[1]?.any insideDisconnect) &&
        (system.machine.run s₁ (going 7 2)).any fun s₂ =>
          decide (∀ t ∈ s₂.threads.take s₁.threads.length, executing t = false)) = true by
    decide +kernel)
  simp only [Bool.and_eq_true,decide_eq_true_eq,Option.any_eq_true,Bool.not_eq_true'] at hs₀
  obtain ⟨⟨⟨hlen,hmark⟩,hopen⟩,s₁,h₁,hreturned,s₂,h₂,hcalls⟩ := hs₀
  exact ⟨s₀,s₁,s₂,h₀,h₁,h₂,hlen,
    (disconnect_fails_requests h₀ ((Option.any_eq_true _ _).mpr hmark) h₁ hreturned h₂ hopen hcalls).1⟩

end DisconnectRequests
end JobControllerClient
