import JobControllerClient.WebsocketTasks

/-! Who owns the entries of `db_request_promises`: an entry belongs to the call that
inserted it, and its sender is alive as long as the receiver is. -/
namespace JobControllerClient
namespace Websocket

open Interleaving

def Action.onRequests : Action → Bool
  | .register _ | .unregister _ | .takePromises | .dropSenders _ | .respond .. | .pollResponse
  | .elapse | .abandon => true
  | _ => false

variable {x x' : Client} {i j o : ℕ} {a : Action} {r : a.Answer} {k : UInt32}

theorem perform_requests (h : x.perform i a = some (x',r)) (ha : a.onRequests = false) :
    x'.dbRequestPromises = x.dbRequestPromises ∧ x'.channels = x.channels := by
  cases a <;> simp only [Action.onRequests,reduceCtorEq] at ha <;>
    simp only [Client.perform] at h <;> (repeat' split at h) <;>
    simp only [Option.some.injEq,Prod.mk.injEq,Option.map_eq_some_iff,reduceCtorEq] at h <;>
    (first
      | (obtain ⟨rfl,-⟩ := h; exact ⟨rfl,rfl⟩)
      | (obtain ⟨_,-,rfl,-⟩ := h; exact ⟨rfl,rfl⟩))

theorem lookup_erase_eq_some {m : AList fun _ : UInt32 => ℕ} {k' : UInt32} :
    (m.erase k').lookup k = some o ↔ k ≠ k' ∧ m.lookup k = some o := by
  by_cases hk : k = k'
  · subst hk
    simp
  · simp [hk]

/-- Only `register` adds an entry, and it adds its own. -/
theorem lookup_perform (h : x.perform i a = some (x',r))
    (hl : x'.dbRequestPromises.lookup k = some o) :
    x.dbRequestPromises.lookup k = some o ∨ (a = .register k ∧ o = i) := by
  cases ha : a.onRequests with
  | false =>
    rw [(perform_requests h ha).1] at hl
    exact .inl hl
  | true =>
    cases a <;> simp only [Action.onRequests,reduceCtorEq] at ha <;>
      simp only [Client.perform] at h <;> (repeat' split at h) <;>
      simp only [Option.some.injEq,Prod.mk.injEq,reduceCtorEq] at h <;> obtain ⟨rfl,-⟩ := h
    case register k' =>
      by_cases hk : k = k'
      · subst hk
        rw [Client.register,AList.lookup_insert,Option.some.injEq] at hl
        exact .inr ⟨rfl,hl.symm⟩
      · rw [Client.register,AList.lookup_insert_ne hk] at hl
        exact .inl hl
    case unregister k' => exact .inl (lookup_erase_eq_some.mp hl).2
    case respond message frame => exact .inl (lookup_erase_eq_some.mp hl).2
    case takePromises => simp at hl
    all_goals exact .inl hl

/-- All that one access of thread `i` can do to the channel of request thread `j`. -/
inductive ChannelChange (x : Client) (i : ℕ) (a : Action) (j : ℕ) : Oneshot → Prop
  | kept : ChannelChange x i a j (x.channels j)
  | opened (k : UInt32) (ha : a = .register k) (hj : j = i) : ChannelChange x i a j .waiting
  | replaced (k : UInt32) (ha : a = .register k) (hk : x.dbRequestPromises.lookup k = some j) :
    ChannelChange x i a j (x.channels j).dropSender
  | removed (k : UInt32) (ha : a = .unregister k) (hk : x.dbRequestPromises.lookup k = some j) :
    ChannelChange x i a j (x.channels j).dropSender
  | dropped (taken : List ℕ) (ha : a = .dropSenders taken) (hj : j ∈ taken) :
    ChannelChange x i a j (x.channels j).dropSender
  | answered (message : Messaging.Message) (frame : ℕ) (ha : a = .respond message frame)
    (hk : x.dbRequestPromises.lookup message.popUint.1 = some j) :
    ChannelChange x i a j ((x.channels j).send message.popUint.2 frame)
  | closed (ha : a = .pollResponse ∨ a = .elapse ∨ a = .abandon) (hj : j = i) :
    ChannelChange x i a j .receiverDropped

theorem channel_perform (h : x.perform i a = some (x',r)) (j : ℕ) :
    ChannelChange x i a j (x'.channels j) := by
  cases ha : a.onRequests with
  | false =>
    rw [(perform_requests h ha).2]
    exact .kept
  | true =>
    cases a <;> simp only [Action.onRequests,reduceCtorEq] at ha <;>
      simp only [Client.perform] at h <;> (repeat' split at h) <;>
      simp only [Option.some.injEq,Prod.mk.injEq,reduceCtorEq] at h <;> obtain ⟨rfl,-⟩ := h
    case register k =>
      simp only [Client.register,Client.onOwner,Function.update_apply]
      split
      · exact .opened k rfl ‹_›
      · split
        · exact .replaced k rfl ‹_›
        · exact .kept
    case unregister k =>
      simp only [Client.unregister,Client.onOwner]
      split
      · exact .removed k rfl ‹_›
      · exact .kept
    case takePromises => exact .kept
    case dropSenders taken =>
      simp only [Client.dropSenders]
      split
      · exact .dropped taken rfl ‹_›
      · exact .kept
    case respond message frame =>
      simp only [Client.respond,Client.onOwner]
      split
      · exact .answered message frame rfl ‹_›
      · exact .kept
    all_goals
      simp only [Client.setChannel,Function.update_apply]
      split
      · exact .closed (by simp) ‹_›
      · exact .kept

theorem perform_register (h : x.perform i a = some (x',r)) (ha : a = .register k) :
    x'.channels i = .waiting ∧ x'.dbRequestPromises.lookup k = some i := by
  subst ha
  simp only [Client.perform,Option.some.injEq,Prod.mk.injEq] at h
  simp [← h.1,Client.register]

/-- Only its own registration makes a request wait. -/
theorem waiting_perform (h : x.perform i a = some (x',r)) (hw : x'.channels j = .waiting) :
    x.channels j = .waiting ∨ ∃ k, a = .register k ∧ j = i := by
  have hchange := channel_perform h j
  generalize x'.channels j = c at hchange hw
  cases hchange with
  | kept => exact .inl hw
  | opened k ha hj => exact .inr ⟨k,ha,hj⟩
  | replaced | removed | dropped => cases hx : x.channels j <;> simp [hx,Oneshot.dropSender] at hw
  | answered => cases hx : x.channels j <;> simp [hx,Oneshot.send] at hw
  | closed => cases hw

theorem dropSender_cases (c : Oneshot) :
    (c = .waiting ∧ c.dropSender = .senderDropped) ∨ (c ≠ .waiting ∧ c.dropSender = c) := by
  cases c <;> simp [Oneshot.dropSender]

theorem send_cases (c : Oneshot) (message : Messaging.Message) (frame : ℕ) :
    (c = .waiting ∧ c.send message frame = .answered message frame) ∨
      (c ≠ .waiting ∧ c.send message frame = c) := by
  cases c <;> simp [Oneshot.send]

theorem channel_ne_unused (h : x.perform i a = some (x',r)) (hc : x.channels j ≠ .unused) :
    x'.channels j ≠ .unused := by
  have hdrop : (x.channels j).dropSender ≠ .unused := by
    rcases dropSender_cases (x.channels j) with ⟨-,h⟩ | ⟨-,h⟩ <;> simp [h,hc]
  have hchange := channel_perform h j
  generalize x'.channels j = c at hchange ⊢
  cases hchange with
  | kept => exact hc
  | replaced | removed | dropped => exact hdrop
  | opened | closed => simp
  | answered message frame =>
    rcases send_cases (x.channels j) message.popUint.2 frame with ⟨-,h⟩ | ⟨-,h⟩ <;> simp [h,hc]

theorem channel_unused (h : x.perform i a = some (x',r)) (hji : j ≠ i)
    (hc : x.channels j = .unused) : x'.channels j = .unused := by
  have hchange := channel_perform h j
  generalize x'.channels j = c at hchange ⊢
  cases hchange with
  | kept => exact hc
  | replaced | removed | dropped | answered => simp [hc,Oneshot.dropSender,Oneshot.send]
  | opened _ _ hj | closed _ hj => exact absurd hj hji

theorem channel_ne_receiverDropped (h : x.perform i a = some (x',r)) (hji : j ≠ i)
    (hc : x.channels j ≠ .receiverDropped) : x'.channels j ≠ .receiverDropped := by
  have hdrop : (x.channels j).dropSender ≠ .receiverDropped := by
    rcases dropSender_cases (x.channels j) with ⟨-,h⟩ | ⟨-,h⟩ <;> simp [h,hc]
  have hchange := channel_perform h j
  generalize x'.channels j = c at hchange ⊢
  cases hchange with
  | kept => exact hc
  | replaced | removed | dropped => exact hdrop
  | opened _ _ hj | closed _ hj => exact absurd hj hji
  | answered message frame =>
    rcases send_cases (x.channels j) message.popUint.2 frame with ⟨-,h⟩ | ⟨-,h⟩ <;> simp [h,hc]

/-- The request whose receiver the task holds. -/
def Task.receiving : Task → Option UInt32
  | .queueing _ key => key
  | .request (.recheck k) | .request (.withdraw k) | .request (.awaiting k) => some k
  | _ => none

/-- The task has dropped its receiver without removing the entry itself. -/
def Task.gaveUp (k : UInt32) : Task → Prop
  | .request (.expired k') => k' = k
  | .request (.done .abandoned) => True
  | _ => False

/-- A thread that has not registered a sender. -/
def Fresh : Option Task → Prop
  | none => True
  | some (.request (.called _)) | some (.request (.checkReady _)) | some (.request (.fetchId _))
  | some (.request (.register ..)) => True
  | _ => False

def Owner (x : Client) (j : ℕ) (k : UInt32) (t : Task) : Prop :=
  (t.receiving = some k ∧ x.channels j = .waiting) ∨
    (t.gaveUp k ∧ x.channels j = .receiverDropped)

structure Promise (x : Client) (j : ℕ) (ot : Option Task) : Prop where
  owner : ∀ k, x.dbRequestPromises.lookup k = some j → ∃ t, ot = some t ∧ Owner x j k t
  fresh : Fresh ot → x.channels j = .unused
  receiving : ∀ t k, ot = some t → t.receiving = some k →
    x.channels j ≠ .unused ∧ x.channels j ≠ .receiverDropped
  taken : ∀ conn was taken caller, ot = some (.disconnecting conn (.dropping was taken) caller) →
    ∀ o ∈ taken, x.channels o ≠ .unused ∧ ∀ k, x.dbRequestPromises.lookup k ≠ some o

variable {s s' : State} {t t' : Task} {c : Choice} {new : List Task} {n : Next}

theorem owner_unique {k' : UInt32} (h : Owner x j k t) (h' : Owner x j k' t) :
    k' = k ∨ x.channels j ≠ .waiting := by
  rcases h with ⟨hk,-⟩ | ⟨-,hc⟩
  · rcases h' with ⟨hk',-⟩ | ⟨-,hc'⟩
    · rw [hk,Option.some.injEq] at hk'
      exact .inl hk'.symm
    · exact .inr (by simp [hc'])
  · exact .inr (by simp [hc])

theorem owner_self {r : n.action.Answer} (hact : act t c = some n)
    (h : x.perform i n.action = some (x',r)) (hl : x'.dbRequestPromises.lookup k = some i)
    (ho : Owner x i k t) : Owner x' i k (n.resume r) := by
  have hgone : ∀ y : Client, (y.unregister k).dbRequestPromises.lookup k ≠ some i := by
    intro y
    simp [Client.unregister]
  cases t
  case queueing pc request =>
    obtain ⟨hk,hc⟩ | ⟨hk,-⟩ := ho
    · obtain rfl : request = some k := hk
      have hshape := queueMessage_shape hact r
      have hkept : x'.channels = x.channels := by
        simp only [act] at hact
        unfold queueMessage at hact
        split at hact <;> cases hact <;> exact (perform_requests h rfl).2
      refine .inl ⟨?_,by rw [hkept]; exact hc⟩
      rcases hshape with ⟨pc',hr⟩ | hr <;> rw [hr] <;> rfl
    · exact hk.elim
  case request pc =>
    cases pc <;> cases c <;> cases hact <;> rcases ho with ⟨hk,hc⟩ | ⟨hk,hc⟩ <;>
      simp only [Task.receiving,Task.gaveUp,reduceCtorEq,Option.some.injEq] at hk
    case recheck.go.refl.inl =>
      subst hk
      refine .inl ⟨?_,by rw [(perform_requests h rfl).2]; exact hc⟩
      dsimp only
      split <;> rfl
    case withdraw.go.refl.inl | expired.go.refl.inr =>
      subst hk
      simp only [Client.perform,Option.some.injEq,Prod.mk.injEq] at h
      rw [← h.1] at hl
      exact (hgone x hl).elim
    case awaiting.go.refl.inl =>
      simp [Client.perform,hc] at h
    case awaiting.elapse.refl.inl =>
      simp only [Client.perform,hc,Option.some.injEq,Prod.mk.injEq] at h
      refine .inr ⟨hk,?_⟩
      simp [← h.1,Client.setChannel]
    case awaiting.abandon.refl.inl =>
      simp only [Client.perform,Option.some.injEq,Prod.mk.injEq] at h
      refine .inr ⟨trivial,?_⟩
      simp [← h.1,Client.setChannel]
  all_goals rcases ho with ⟨hk,-⟩ | ⟨hk,-⟩ <;> simp [Task.receiving,Task.gaveUp] at hk

/-- A task that holds a receiver after its step has just opened the channel, or held
the receiver before and left the channel alone. -/
theorem receiving_self {r : n.action.Answer} (hact : act t c = some n)
    (hr : (n.resume r).receiving = some k) :
    n.action = .register k ∨ (t.receiving = some k ∧ n.action.onRequests = false) := by
  have hkind := act_kind hact r
  cases t <;> simp only [Task.kind] at hkind
  case request pc =>
    simp only [act] at hact
    unfold sendDbRequest at hact
    split at hact <;> cases hact <;> dsimp only at hr <;> (try split at hr) <;> cases hr <;>
      first | exact .inl rfl | exact .inr ⟨rfl,rfl⟩
  case queueing pc key =>
    have hkept : n.action.onRequests = false := by
      simp only [act] at hact
      unfold queueMessage at hact
      split at hact <;> cases hact <;> rfl
    refine .inr ⟨?_,hkept⟩
    rcases queueMessage_shape hact r with ⟨pc',hr'⟩ | hr' <;> rw [hr'] at hr
    · exact hr
    · cases key <;> exact hr
  all_goals
    generalize n.resume r = u at hr hkind
    cases u <;> simp_all [Task.receiving]

theorem fresh_kind (h : Fresh (some t)) : t.kind = .dbCall := by
  cases t
  case request => rfl
  all_goals exact h.elim

theorem fresh_self {r : n.action.Answer} (hact : act t c = some n)
    (hf : Fresh (some (n.resume r))) : Fresh (some t) ∧ n.action.onRequests = false := by
  have hkind : t.kind = .dbCall := by rw [← act_kind hact r,fresh_kind hf]
  cases t <;> simp only [Task.kind,reduceCtorEq] at hkind
  case request pc =>
    simp only [act] at hact
    unfold sendDbRequest at hact
    split at hact <;> cases hact <;> dsimp only at hf <;> (try split at hf) <;>
      first | exact ⟨trivial,rfl⟩ | exact hf.elim
  case queueing pc request =>
    rcases queueMessage_shape hact r with ⟨pc',hr⟩ | hr <;> rw [hr] at hf
    · exact hf.elim
    · cases request <;> exact hf.elim

/-- The senders about to be dropped are all those the map held. -/
theorem dropping_self {r : n.action.Answer} (hact : act t c = some n)
    (h : x.perform i n.action = some (x',r)) {conn : ℕ} {was : Bool} {taken : List ℕ}
    {caller : Caller} (hr : n.resume r = .disconnecting conn (.dropping was taken) caller) :
    x' = { x with dbRequestPromises := ∅ } ∧
      taken = x.dbRequestPromises.entries.map fun e => e.2 := by
  obtain hpc | ⟨pc,rfl,hpc⟩ := disconnecting_inv hact hr
  · cases hpc
  cases pc <;> cases c <;> cases hpc <;> dsimp only at hr <;> (try split at hr)
  case take.go.refl =>
    cases hr
    simp only [Client.perform,Option.some.injEq,Prod.mk.injEq] at h
    exact ⟨h.1.symm,h.2.symm⟩
  all_goals (try cases caller) <;> (try simp only [nextClear] at hr) <;> (try split at hr) <;> cases hr

theorem mem_owners {m : AList fun _ : UInt32 => ℕ} :
    o ∈ m.entries.map (fun e => e.2) ↔ ∃ k, m.lookup k = some o := by
  simp only [List.mem_map]
  constructor
  · rintro ⟨⟨k,v⟩,he,rfl⟩
    exact ⟨k,AList.mem_lookup_iff.mpr he⟩
  · rintro ⟨k,hk⟩
    exact ⟨⟨k,o⟩,AList.mem_lookup_iff.mp hk,rfl⟩

theorem owner_other (h : x.perform i a = some (x',r)) (hji : j ≠ i)
    (hl : x'.dbRequestPromises.lookup k = some j) (ho : Owner x j k t)
    (hall : ∀ k', x.dbRequestPromises.lookup k' = some j → Owner x j k' t)
    (htaken : ∀ taken, a = .dropSenders taken → j ∉ taken) : Owner x' j k t := by
  have hchannel : x'.channels j = x.channels j := by
    have hchange := channel_perform h j
    have hdrop : ∀ k', x.dbRequestPromises.lookup k' = some j → k' ≠ k →
        (x.channels j).dropSender = x.channels j := by
      intro k' hk' hne
      obtain hkey | hwait := owner_unique ho (hall k' hk')
      · exact absurd hkey hne
      · rcases dropSender_cases (x.channels j) with ⟨hw,-⟩ | ⟨-,hd⟩
        · exact absurd hw hwait
        · exact hd
    generalize x'.channels j = y at hchange ⊢
    cases hchange with
    | kept => rfl
    | opened k' ha hj | closed ha hj => exact absurd hj hji
    | replaced k' ha hk =>
      subst ha
      refine hdrop k' hk ?_
      rintro rfl
      simp only [Client.perform,Option.some.injEq,Prod.mk.injEq] at h
      rw [← h.1,Client.register,AList.lookup_insert,Option.some.injEq] at hl
      exact hji hl.symm
    | removed k' ha hk =>
      subst ha
      refine hdrop k' hk ?_
      rintro rfl
      simp only [Client.perform,Option.some.injEq,Prod.mk.injEq] at h
      rw [← h.1,Client.unregister,AList.lookup_erase] at hl
      cases hl
    | dropped taken ha hj => exact absurd hj (htaken taken ha)
    | answered message frame ha hk =>
      subst ha
      by_cases hkey : message.popUint.1 = k
      · simp only [Client.perform,Option.some.injEq,Prod.mk.injEq] at h
        rw [← h.1,Client.respond,hkey,AList.lookup_erase] at hl
        cases hl
      · obtain hkey' | hwait := owner_unique ho (hall _ hk)
        · exact absurd hkey' hkey
        · rcases send_cases (x.channels j) message.popUint.2 frame with ⟨hw,-⟩ | ⟨-,hs⟩
          · exact absurd hw hwait
          · exact hs
  simpa only [Owner,hchannel] using ho

theorem promise_self (hs : Each Promise s) (ht : s.threads[i]? = some t) (hact : act t c = some n)
    {r : n.action.Answer} (h : s.shared.perform i n.action = some (x',r)) :
    Promise x' i (some (n.resume r)) := by
  have hi : Promise s.shared i (some t) := by
    rw [← ht]
    exact hs i
  have hopened : ∀ k, n.action = .register k → x'.channels i = .waiting :=
    fun k ha => (perform_register h ha).1
  refine ⟨fun k hl => ⟨_,rfl,?_⟩,fun hf => ?_,fun u k hu hk => ?_,
    fun conn was taken caller hr o ho => ?_⟩
  · rcases lookup_perform h hl with hold | ⟨ha,-⟩
    · obtain ⟨u,hu,howner⟩ := hi.owner k hold
      cases hu
      exact owner_self hact h hl howner
    · refine .inl ⟨?_,hopened k ha⟩
      have hperf := act_performs hact
      rw [ha] at hperf
      obtain ⟨message,rfl⟩ := hperf
      simp only [act] at hact
      unfold sendDbRequest at hact
      split at hact <;> cases hact <;> cases ha
      rfl
  · obtain ⟨hfresh,hreq⟩ := fresh_self hact hf
    rw [(perform_requests h hreq).2]
    exact hi.fresh hfresh
  · cases hu
    rcases receiving_self hact hk with ha | ⟨hold,hreq⟩
    · simp [hopened k ha]
    · rw [(perform_requests h hreq).2]
      exact hi.receiving t k rfl hold
  · obtain ⟨rfl,rfl⟩ := dropping_self hact h (Option.some.inj hr)
    obtain ⟨k,hk⟩ := mem_owners.mp ho
    refine ⟨?_,by simp⟩
    obtain ⟨u,-,⟨-,hc⟩ | ⟨-,hc⟩⟩ := (hs o).owner k hk <;> simp [hc]

theorem promise_other (hs : Each Promise s) (ht : s.threads[i]? = some t) (hact : act t c = some n)
    {r : n.action.Answer} (h : s.shared.perform i n.action = some (x',r)) {ot : Option Task}
    (hji : j ≠ i) (hj : Promise s.shared j ot) : Promise x' j ot := by
  have hi : Promise s.shared i (some t) := by
    rw [← ht]
    exact hs i
  refine ⟨fun k hl => ?_,fun hf => channel_unused h hji (hj.fresh hf),fun u k hu hk => ?_,
    fun conn was taken caller hot o ho => ?_⟩
  · rcases lookup_perform h hl with hold | ⟨-,hjo⟩
    · obtain ⟨u,hu,howner⟩ := hj.owner k hold
      refine ⟨u,hu,owner_other h hji hl howner (fun k' hk' => ?_) fun taken ha hmem => ?_⟩
      · obtain ⟨u',hu',howner'⟩ := hj.owner k' hk'
        rw [hu,Option.some.injEq] at hu'
        exact hu' ▸ howner'
      · have hperf := act_performs hact
        rw [ha] at hperf
        obtain ⟨conn,was,caller,rfl⟩ := hperf
        exact (hi.taken conn was taken caller rfl j hmem).2 k hold
    · exact absurd hjo hji
  · obtain ⟨hused,hheld⟩ := hj.receiving u k hu hk
    exact ⟨channel_ne_unused h hused,channel_ne_receiverDropped h hji hheld⟩
  · obtain ⟨hused,hnone⟩ := hj.taken conn was taken caller hot o ho
    refine ⟨channel_ne_unused h hused,fun k hl => ?_⟩
    rcases lookup_perform h hl with hold | ⟨ha,rfl⟩
    · exact hnone k hold
    · have hperf := act_performs hact
      rw [ha] at hperf
      obtain ⟨message,rfl⟩ := hperf
      exact hused (hi.fresh trivial)

theorem promise_new {u : Task} (hu : ∀ conn was taken caller,
    u ≠ .disconnecting conn (.dropping was taken) caller) (hreceiving : u.receiving = none)
    (h : Promise x j none) : Promise x j (some u) := by
  refine ⟨fun k hl => ?_,fun _ => h.fresh trivial,fun t k ht hk => ?_,
    fun conn was taken caller hr => ?_⟩
  · obtain ⟨t,ht,-⟩ := h.owner k hl
    cases ht
  · cases ht
    rw [hreceiving] at hk
    cases hk
  · exact absurd (Option.some.inj hr) (hu conn was taken caller)

theorem entry_receiving {u : Task} (h : entry u = true) : u.receiving = none := by
  rcases entry_cases h with ⟨source,data,priority,rfl⟩ | ⟨message,rfl⟩ <;> rfl

theorem promise_step {move : Move} (hs : Each Promise s)
    (h : system.machine.step s move = some s') : Each Promise s' := by
  cases move with
  | arrive t =>
    obtain ⟨he,rfl⟩ := step_arrive h
    refine hs.arrive fun j hj => promise_new ?_ (entry_receiving he) hj
    rintro conn was taken caller rfl
    cases he
  | run i c =>
    obtain ⟨t,t',new,ht⟩ := step_run h
    obtain ⟨n,r,hact,hp,rfl,rfl⟩ := turn_access ht
    refine hs.turn ht (fun _ => promise_self hs ht.thread hact hp)
      (fun j o hji _ hj => promise_other hs ht.thread hact hp hji hj) fun j u hu hj => ?_
    obtain ⟨conn,role,_,_,rfl,_⟩ := act_spawned hact (by simpa using hu)
    refine promise_new ?_ (by cases role <;> rfl) hj
    rintro _ was taken caller hrole
    cases role <;> cases hrole

theorem promise_run {reconnectable : Bool} {moves : List Move}
    (h : system.machine.run (initial reconnectable) moves = some s) : Each Promise s := by
  refine StepMachine.invariant_of_step (fun _ _ _ hs hstep => promise_step hs hstep) ?_ h
  intro j
  refine ⟨fun k hl => by simp [initial,Client.startWithToken,Client.new] at hl,fun _ => rfl,?_,?_⟩
  · intro t k ht hk
    cases j <;> simp [initial] at ht
    subst ht
    cases hk
  · intro conn was taken caller hr
    cases j <;> simp [initial] at hr

end Websocket
end JobControllerClient
