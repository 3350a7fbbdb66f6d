import JobControllerClient.ConnectionTasks
import JobControllerClient.RequestPromises

/-! A database request resolves with the message of its own response frame. The id in
a response is read by `pop_uint`, which yields zero on a short payload, so request zero
needs the payload to be long enough. -/
namespace JobControllerClient
namespace ResponseCorrelation

open Interleaving Websocket Messaging

/-- `message` comes from a `DB_RESPONSE` frame for request `k`, received on the
connection that was current at that time. -/
structure Answers (k : UInt32) (message : Message) (received : Received) : Prop where
  current : received.conn = received.current
  response : (Message.fromData received.data).id = MessageId.dbResponse
  decoded : message = (Message.fromData received.data).popUint.2
  key : LittleEndian.encode 4 k.toNat <+: (Message.fromData received.data).unread

def Answered (x : Client) (k : UInt32) (message : Message) (frame : ℕ) : Prop :=
  ∃ received, x.received[frame]? = some received ∧ Answers k message received

def Reads (x : Client) (conn : ℕ) : ReaderPc → Prop
  | .dataCheck frame data => ∃ received, x.received[frame]? = some received ∧
      received.conn = conn ∧ received.data = data ∧ conn ≤ received.current ∧
      received.current ≤ x.connectionId
  | .handleCheck frame message => ∃ received, x.received[frame]? = some received ∧
      received.conn = received.current ∧ message = Message.fromData received.data
  | .respond frame message => ∃ received, x.received[frame]? = some received ∧
      received.conn = received.current ∧ message = Message.fromData received.data ∧
      message.id = MessageId.dbResponse
  | _ => True

structure Correct (x : Client) (j : ℕ) (ot : Option Task) : Prop where
  reads : ∀ conn pc, ot = some (.reader conn pc) → Reads x conn pc
  answered : ∀ t k message frame, ot = some t → t.receiving = some k →
    x.channels j = .answered message frame → Answered x k message frame
  done : ∀ k message frame, ot = some (.request (.done (.response k message frame))) →
    Answered x k message frame

/-- A response shorter than a request id is handled while request zero is registered. -/
def truncated (s : State) : Move → Bool
  | .run i _ => s.threads[i]?.any fun
    | .reader _ (.respond _ message) =>
      decide (message.remainingLen < 4) && (s.shared.dbRequestPromises.lookup 0).isSome
    | _ => false
  | _ => false

variable {s s' : State} {x x' : Client} {i j : ℕ} {k : UInt32} {t : Task} {c : Choice} {n : Next}
  {move : Move}

theorem perform_received {a : Action} {r : a.Answer} (h : x.perform i a = some (x',r)) :
    x'.received = x.received ∨ ∃ conn data, a = .receive conn data ∧
      x'.received = x.received ++ [⟨conn,x.connectionId,data⟩] := by
  cases a <;> simp only [Client.perform] at h <;> (repeat' split at h) <;>
    simp only [Option.some.injEq,Prod.mk.injEq,Option.map_eq_some_iff,reduceCtorEq] at h
  case receive conn data =>
    obtain ⟨rfl,-⟩ := h
    exact .inr ⟨conn,data,rfl,rfl⟩
  all_goals first
    | (obtain ⟨rfl,-⟩ := h; exact .inl rfl)
    | (obtain ⟨_,-,rfl,-⟩ := h; exact .inl rfl)

theorem received_kept {a : Action} {r : a.Answer} (h : x.perform i a = some (x',r)) {f : ℕ}
    {received : Received} (hf : x.received[f]? = some received) :
    x'.received[f]? = some received := by
  rcases perform_received h with hsame | ⟨conn,data,-,happend⟩
  · rwa [hsame]
  · rw [happend]
    exact arrive_kept hf

theorem connectionId_le {a : Action} {r : a.Answer} (h : x.perform i a = some (x',r)) :
    x.connectionId ≤ x'.connectionId := by
  by_cases ha : a = .nextConnection
  · subst ha
    simp only [Client.perform,Option.some.injEq,Prod.mk.injEq] at h
    rw [← h.1]
    exact Nat.le_succ _
  · exact (perform_connectionId h ha).ge

theorem answered_kept {a : Action} {r : a.Answer} (h : x.perform i a = some (x',r))
    {message : Message} {frame : ℕ} (ha : Answered x k message frame) :
    Answered x' k message frame := by
  obtain ⟨received,hf,hans⟩ := ha
  exact ⟨received,received_kept h hf,hans⟩

theorem reads_kept {a : Action} {r : a.Answer} (h : x.perform i a = some (x',r)) {conn : ℕ}
    {pc : ReaderPc} (hr : Reads x conn pc) : Reads x' conn pc := by
  cases pc
  case dataCheck frame data =>
    obtain ⟨received,hf,hc,hd,hlow,hhigh⟩ := hr
    exact ⟨received,received_kept h hf,hc,hd,hlow,hhigh.trans (connectionId_le h)⟩
  case handleCheck frame message =>
    obtain ⟨received,hf,hrest⟩ := hr
    exact ⟨received,received_kept h hf,hrest⟩
  case respond frame message =>
    obtain ⟨received,hf,hrest⟩ := hr
    exact ⟨received,received_kept h hf,hrest⟩
  all_goals trivial

/-- Only the response section puts a message into a channel. -/
theorem answered_perform {a : Action} {r : a.Answer} (h : x.perform i a = some (x',r))
    {message : Message} {frame : ℕ} (hc : x'.channels j = .answered message frame) :
    x.channels j = .answered message frame ∨ ∃ m, a = .respond m frame ∧
      x.dbRequestPromises.lookup m.popUint.1 = some j ∧ x.channels j = .waiting ∧
      message = m.popUint.2 := by
  have hdrop : (x.channels j).dropSender = .answered message frame →
      x.channels j = .answered message frame := by
    cases x.channels j <;> simp [Oneshot.dropSender]
  have hchange := channel_perform h j
  generalize x'.channels j = y at hchange hc
  cases hchange with
  | kept => exact .inl hc
  | opened k ha hj => cases hc
  | closed ha hj => cases hc
  | replaced | removed | dropped => exact .inl (hdrop hc)
  | answered m f ha hkey =>
    rcases send_cases (x.channels j) m.popUint.2 f with ⟨hw,hsend⟩ | ⟨-,hsend⟩
    · rw [hsend,Oneshot.answered.injEq] at hc
      obtain ⟨rfl,rfl⟩ := hc
      exact .inr ⟨m,ha,hkey,hw,rfl⟩
    · rw [hsend] at hc
      exact .inl hc

/-- The reader passes a frame on only while its connection is current. -/
theorem reads_self {conn : ℕ} {pc pc' : ReaderPc} {r : n.action.Answer}
    (hact : readLoop conn pc c = some n) (h : x.perform i n.action = some (x',r))
    (hbound : conn ≤ x.connectionId) (hreads : Reads x conn pc)
    (hr : n.resume r = .reader conn pc') : Reads x' conn pc' := by
  have hevent : ∀ event, handleEvent conn event = .reader conn pc' → Reads x' conn pc' := by
    intro event he
    cases event <;> cases he <;> trivial
  cases pc <;> cases c <;> cases hact <;> dsimp only at hr
  case next.data.refl bytes =>
    cases hr
    simp only [Client.perform,Option.some.injEq,Prod.mk.injEq] at h
    obtain ⟨rfl,rfl⟩ := h
    exact ⟨⟨conn,x.connectionId,bytes⟩,by simp,rfl,rfl,hbound,le_rfl⟩
  case next.event.refl event =>
    split at hr
    · exact hevent event hr
    · cases hr
      trivial
  case dataCheck.go.refl frame bytes =>
    cases hr
    simp only [Client.perform,Option.some.injEq,Prod.mk.injEq] at h
    obtain ⟨rfl,rfl⟩ := h
    split
    · rename_i hcurrent
      have hid : x.connectionId = conn := hcurrent
      obtain ⟨received,hf,hc,rfl,hlow,hhigh⟩ := hreads
      exact ⟨received,hf,by omega,rfl⟩
    · trivial
  case eventCheck.go.refl event =>
    split at hr
    · exact hevent event hr
    · cases hr
      trivial
  case handleCheck.go.refl frame message =>
    cases hr
    simp only [Client.perform,Option.some.injEq,Prod.mk.injEq] at h
    obtain ⟨rfl,rfl⟩ := h
    split
    · simp only [dispatch]
      split
      · trivial
      · split
        · rename_i hid
          obtain ⟨received,hf,hc,hm⟩ := hreads
          exact ⟨received,hf,hc,hm,hid⟩
        · trivial
    · trivial
  all_goals
    cases hr
    try split
    all_goals trivial

/-- A response that reaches a waiting request carries that request's id. -/
theorem answered_respond {conn : ℕ} {message : Message} {frame : ℕ} (hs : Each Promise s)
    (htrunc : message.remainingLen < 4 → s.shared.dbRequestPromises.lookup 0 = none)
    (hreads : Reads s.shared conn (.respond frame message))
    (hj : s.shared.dbRequestPromises.lookup message.popUint.1 = some j)
    (hw : s.shared.channels j = .waiting) (ht : s.threads[j]? = some t)
    (hk : t.receiving = some k) : Answered s.shared k message.popUint.2 frame := by
  obtain ⟨received,hf,hc,rfl,hid⟩ := hreads
  have hlong : 4 ≤ (Message.fromData received.data).remainingLen := by
    by_contra hshort
    have hnone := htrunc (by omega)
    rw [Message.popUint_short (by omega)] at hj
    rw [hnone] at hj
    cases hj
  obtain ⟨u,hu,howner⟩ := (hs j).owner _ hj
  rw [ht,Option.some.injEq] at hu
  subst hu
  rcases howner with ⟨hkey,-⟩ | ⟨-,hdropped⟩
  · obtain rfl : k = (Message.fromData received.data).popUint.1 :=
      Option.some.inj (hk.symm.trans hkey)
    exact ⟨received,hf,hc,hid,rfl,Message.popUint_unread hlong⟩
  · rw [hw] at hdropped
    cases hdropped

theorem reader_of_act {conn : ℕ} {pc' : ReaderPc} {r : n.action.Answer} (hact : act t c = some n)
    (hr : n.resume r = .reader conn pc') :
    pc' = .done ∨ ∃ pc, t = .reader conn pc ∧ readLoop conn pc c = some n := by
  have hkind := act_kind hact r
  rw [hr] at hkind
  cases t <;> simp only [Task.kind,reduceCtorEq,Kind.worker.injEq,and_false] at hkind
  case reader conn' pc =>
    obtain ⟨rfl,-⟩ := hkind
    exact .inr ⟨pc,rfl,hact⟩
  case disconnecting conn' pc caller =>
    rcases handleDisconnect_shape hact r with ⟨pc₀,hr'⟩ | hr'
    · rw [hr] at hr'
      cases hr'
    · rw [hr] at hr'
      cases caller <;> cases hr'
      exact .inl rfl
  case queueing pc key => cases key <;> simp at hkind

theorem response_of_act {message : Message} {frame : ℕ} {r : n.action.Answer}
    (hact : act t c = some n) (h : x.perform i n.action = some (x',r))
    (hr : n.resume r = .request (.done (.response k message frame))) :
    t = .request (.awaiting k) ∧ x.channels i = .answered message frame := by
  have hkind := act_kind hact r
  rw [hr] at hkind
  cases t <;> simp only [Task.kind,reduceCtorEq] at hkind
  case request pc =>
    cases pc <;> cases c <;> cases hact <;> dsimp only at hr
    case awaiting.go.refl k' =>
      simp only [Client.perform] at h
      split at h <;> simp only [Option.some.injEq,Prod.mk.injEq,reduceCtorEq] at h
      · rename_i m f hc
        obtain ⟨-,rfl⟩ := h
        simp only [afterPoll,Task.request.injEq,RequestPc.done.injEq,Outcome.response.injEq] at hr
        obtain ⟨rfl,rfl,rfl⟩ := hr
        exact ⟨rfl,hc⟩
      · obtain ⟨-,rfl⟩ := h
        simp [afterPoll] at hr
    all_goals (try split at hr) <;> cases hr
  case queueing pc key =>
    rcases queueMessage_shape hact r with ⟨pc',hr'⟩ | hr' <;> rw [hr'] at hr
    · cases hr
    · cases key <;> cases hr

theorem correct_self (hlayout : Layout s) (hs : Each Correct s) (ht : s.threads[i]? = some t)
    (hact : act t c = some n) {r : n.action.Answer}
    (h : s.shared.perform i n.action = some (x',r)) : Correct x' i (some (n.resume r)) := by
  have hi : Correct s.shared i (some t) := by
    rw [← ht]
    exact hs i
  refine ⟨fun conn pc' hr => ?_,fun u k message frame hu hk hc => ?_,fun k message frame hr => ?_⟩
  · rcases reader_of_act hact (Option.some.inj hr) with rfl | ⟨pc,rfl,hread⟩
    · trivial
    · exact reads_self hread h (hlayout.bound i _ conn .reader ht rfl) (hi.reads conn pc rfl)
        (Option.some.inj hr)
  · cases hu
    rcases receiving_self hact hk with hreg | ⟨hold,hreq⟩
    · rw [(perform_register h hreg).1] at hc
      cases hc
    · rw [(perform_requests h hreq).2] at hc
      exact answered_kept h (hi.answered t k message frame rfl hold hc)
  · obtain ⟨rfl,hc⟩ := response_of_act hact h (Option.some.inj hr)
    exact answered_kept h (hi.answered _ k message frame rfl rfl hc)

theorem correct_other (hpromise : Each Promise s) (hs : Each Correct s)
    (htrunc : truncated s (.run i c) = false) (ht : s.threads[i]? = some t)
    (hact : act t c = some n) {r : n.action.Answer}
    (h : s.shared.perform i n.action = some (x',r)) (hj : Correct s.shared j s.threads[j]?) :
    Correct x' j s.threads[j]? := by
  have hi : Correct s.shared i (some t) := by
    rw [← ht]
    exact hs i
  refine ⟨fun conn pc hr => reads_kept h (hj.reads conn pc hr),
    fun u k message frame hu hk hc => ?_,
    fun k message frame hr => answered_kept h (hj.done k message frame hr)⟩
  rcases answered_perform h hc with hold | ⟨m,ha,hkey,hw,rfl⟩
  · exact answered_kept h (hj.answered u k _ _ hu hk hold)
  · have hp := act_performs hact
    rw [ha] at hp
    obtain ⟨conn,rfl⟩ := hp
    refine answered_kept h (answered_respond hpromise ?_ (hi.reads conn _ rfl) hkey hw hu hk)
    intro hshort
    simpa [truncated,ht,hshort] using htrunc

theorem correct_step (hlayout : Layout s) (hpromise : Each Promise s) (hs : Each Correct s)
    (htrunc : truncated s move = false) (h : system.machine.step s move = some s') :
    Each Correct s' := by
  cases move with
  | arrive t =>
    obtain ⟨he,rfl⟩ := step_arrive h
    refine hs.arrive fun j _ => ⟨fun conn pc hr => ?_,fun u k m f hu hk => ?_,fun k m f hr => ?_⟩
    · cases hr
      cases he
    · cases hu
      rw [entry_receiving he] at hk
      cases hk
    · cases hr
      cases he
  | run i c =>
    obtain ⟨t,t',new,ht⟩ := step_run h
    obtain ⟨n,r,hact,hp,rfl,rfl⟩ := turn_access ht
    refine hs.turn ht (fun _ => correct_self hlayout hs ht.thread hact hp) ?_ fun j u hu _ => ?_
    · rintro j o - rfl hj
      exact correct_other hpromise hs htrunc ht.thread hact hp hj
    · obtain ⟨conn,role,_,_,rfl,_⟩ := act_spawned hact (by simpa using hu)
      refine ⟨fun conn' pc hr => ?_,fun u k m f hu hk => ?_,fun k m f hr => ?_⟩
      · cases role <;> cases hr
        trivial
      · cases hu
        cases role <;> cases hk
      · cases role <;> cases hr

def frameOf : Task → Option ℕ
  | .reader _ (.dataCheck frame _) | .reader _ (.handleCheck frame _)
  | .reader _ (.respond frame _) => some frame
  | .request (.done (.response _ _ frame)) => some frame
  | _ => none

/-- Thread `j` has frame `f`, in its own hands or in the channel it still reads. -/
def Holds (s : State) (j f : ℕ) : Prop :=
  ∃ t, s.threads[j]? = some t ∧
    (frameOf t = some f ∨ ∃ k m, t.receiving = some k ∧ s.shared.channels j = .answered m f)

structure Exclusive (s : State) : Prop where
  bound : ∀ j f, Holds s j f → f < s.shared.received.length
  unique : ∀ i j f, Holds s i f → Holds s j f → i = j

theorem readLoop_frame {f conn : ℕ} {pc pc' : ReaderPc} {r : n.action.Answer}
    (hread : readLoop conn pc c = some n) (h : x.perform i n.action = some (x',r))
    (hr : n.resume r = .reader conn pc') (hf : frameOf (.reader conn pc') = some f) :
    frameOf (.reader conn pc) = some f ∨
      (f = x.received.length ∧ x'.received.length = f + 1) := by
  cases pc <;> cases c <;> cases hread <;> dsimp only at hr
  case next.data.refl bytes =>
    cases hr
    simp only [Client.perform,Option.some.injEq,Prod.mk.injEq] at h
    obtain ⟨rfl,rfl⟩ := h
    obtain rfl : x.received.length = f := Option.some.inj hf
    exact .inr ⟨rfl,by simp⟩
  case next.event.refl event | eventCheck.go.refl event =>
    split at hr
    · cases event <;> cases hr <;> cases hf
    · cases hr
      cases hf
  case dataCheck.go.refl frame bytes =>
    cases hr
    split at hf
    · exact .inl hf
    · cases hf
  case handleCheck.go.refl frame message =>
    cases hr
    simp only [dispatch] at hf
    repeat' split at hf
    all_goals first | exact .inl hf | cases hf
  all_goals
    cases hr
    try split at hf
    all_goals cases hf

theorem frameOf_self {f : ℕ} {r : n.action.Answer} (hact : act t c = some n)
    (h : x.perform i n.action = some (x',r)) (hf : frameOf (n.resume r) = some f) :
    frameOf t = some f ∨ (f = x.received.length ∧ x'.received.length = f + 1) ∨
      ∃ k m, t.receiving = some k ∧ x.channels i = .answered m f := by
  generalize hr : n.resume r = u at hf
  cases u
  case reader conn pc' =>
    rcases reader_of_act hact hr with rfl | ⟨pc,rfl,hread⟩
    · cases hf
    · rcases readLoop_frame hread h hr hf with hold | hnew
      · exact .inl hold
      · exact .inr (.inl hnew)
  case request pc =>
    unfold frameOf at hf
    split at hf <;> cases hf
    case h_1 heq | h_2 heq | h_3 heq => cases heq
    case h_4 k m heq =>
      cases heq
      obtain ⟨rfl,hc⟩ := response_of_act hact h hr
      exact .inr (.inr ⟨k,m,rfl,hc⟩)
  all_goals cases hf

/-- A frame changes hands only by being received or by answering a request. -/
theorem holds_turn {new : List Task} {t' : Task} (ht : Turn system s s' i t c t' new) {f : ℕ}
    (hj : Holds s' j f) :
    Holds s j f ∨
      (j = i ∧ f = s.shared.received.length ∧ s'.shared.received.length = f + 1) ∨
      ∃ conn m, t = .reader conn (.respond f m) ∧ t' = .reader conn .next ∧
        s.shared.dbRequestPromises.lookup m.popUint.1 = some j := by
  obtain ⟨n,r,hact,hp,rfl,rfl⟩ := turn_access ht
  obtain ⟨u,hu,hheld⟩ := hj
  rcases ht.thread_cases hu with ⟨rfl,rfl⟩ | ⟨hji,hold⟩ | ⟨-,hnew⟩
  · rcases hheld with hf | ⟨k,m,hk,hc⟩
    · rcases frameOf_self hact hp hf with hf' | ⟨hlen,hgrow⟩ | hch
      · exact .inl ⟨t,ht.thread,.inl hf'⟩
      · exact .inr (.inl ⟨rfl,hlen,hgrow⟩)
      · exact .inl ⟨t,ht.thread,.inr hch⟩
    · rcases receiving_self hact hk with hreg | ⟨hk',hreq⟩
      · rw [(perform_register hp hreg).1] at hc
        cases hc
      · rw [(perform_requests hp hreq).2] at hc
        exact .inl ⟨t,ht.thread,.inr ⟨k,m,hk',hc⟩⟩
  · rcases hheld with hf | ⟨k,m,hk,hc⟩
    · exact .inl ⟨u,hold,.inl hf⟩
    · have hkept : s.shared.channels j = .answered m f → Holds s j f :=
        fun hc => ⟨u,hold,.inr ⟨k,m,hk,hc⟩⟩
      rcases answered_perform hp hc with hc' | ⟨message,ha,hkey,-⟩
      · exact .inl (hkept hc')
      · have hperf := act_performs hact
        rw [ha] at hperf
        obtain ⟨conn,rfl⟩ := hperf
        refine .inr (.inr ⟨conn,message,rfl,?_,hkey⟩)
        cases c <;> cases hact
        rfl
  · obtain ⟨conn,role,_,_,rfl,_⟩ := act_spawned hact (by simpa using hnew)
    rcases hheld with hf | ⟨k,m,hk,-⟩
    · cases role <;> cases hf
    · cases role <;> cases hk

theorem exclusive_step (hs : Exclusive s) (h : system.machine.step s move = some s') :
    Exclusive s' := by
  cases move with
  | arrive t =>
    obtain ⟨he,rfl⟩ := step_arrive h
    have hold : ∀ {j f}, Holds ⟨s.shared,s.threads ++ [t]⟩ j f → Holds s j f := by
      rintro j f ⟨u,hu,hheld⟩
      rcases arrive_cases hu with hu' | ⟨-,rfl⟩
      · exact ⟨u,hu',hheld⟩
      · rcases hheld with hf | ⟨k,m,hk,-⟩
        · rcases entry_cases he with ⟨_,_,_,rfl⟩ | ⟨_,rfl⟩ <;> cases hf
        · rw [entry_receiving he] at hk
          cases hk
    exact ⟨fun j f hj => hs.bound j f (hold hj),fun i j f hi hj => hs.unique i j f (hold hi) (hold hj)⟩
  | run i c =>
    obtain ⟨t,t',new,ht⟩ := step_run h
    obtain ⟨n,r,hact,hp,-,-⟩ := turn_access ht
    have hgrow : s.shared.received.length ≤ s'.shared.received.length := by
      rcases perform_received hp with hsame | ⟨_,_,-,happend⟩
      · rw [hsame]
      · rw [happend]
        simp
    have hreader : ∀ {conn f m}, t = .reader conn (.respond f m) → Holds s i f :=
      fun hread => ⟨t,ht.thread,.inl (by rw [hread]; rfl)⟩
    refine ⟨fun j f hj => ?_,fun a b f ha hb => ?_⟩
    · rcases holds_turn ht hj with hold | ⟨-,-,hlen⟩ | ⟨conn,m,hread,-,-⟩
      · exact (hs.bound j f hold).trans_le hgrow
      · omega
      · exact (hs.bound i f (hreader hread)).trans_le hgrow
    · have hgone : ∀ {conn m}, t = .reader conn (.respond f m) → t' = .reader conn .next →
          ¬ Holds s' i f := by
        rintro conn m - rfl ⟨u,hu,hheld⟩
        rw [ht.self,Option.some.injEq] at hu
        subst hu
        rcases hheld with hf | ⟨k,m',hk,-⟩
        · cases hf
        · cases hk
      rcases holds_turn ht ha with holda | ⟨rfl,hfa,-⟩ | ⟨conn,m,hread,hnext,hkey⟩
      · rcases holds_turn ht hb with holdb | ⟨rfl,hfb,-⟩ | ⟨conn,m,hread,hnext,hkey⟩
        · exact hs.unique a b f holda holdb
        · exact absurd (hs.bound a f holda) (by omega)
        · obtain rfl := hs.unique a i f holda (hreader hread)
          exact absurd ha (hgone hread hnext)
      · rcases holds_turn ht hb with holdb | ⟨rfl,-,-⟩ | ⟨conn,m,hread,hnext,hkey⟩
        · exact absurd (hs.bound b f holdb) (by omega)
        · rfl
        · exact absurd (hs.bound a f (hreader hread)) (by omega)
      · rcases holds_turn ht hb with holdb | ⟨rfl,hfb,-⟩ | ⟨conn',m',hread',-,hkey'⟩
        · obtain rfl := hs.unique b i f holdb (hreader hread)
          exact absurd hb (hgone hread hnext)
        · exact absurd (hs.bound b f (hreader hread)) (by omega)
        · rw [hread] at hread'
          cases hread'
          exact Option.some.inj (hkey.symm.trans hkey')

theorem resolved_step {outcome : Outcome} (hi : s.threads[i]? = some (.request (.done outcome)))
    (h : system.machine.step s move = some s') :
    s'.threads[i]? = some (.request (.done outcome)) := by
  cases move with
  | arrive t =>
    obtain ⟨-,rfl⟩ := step_arrive h
    exact arrive_kept hi
  | run j c =>
    obtain ⟨t,t',new,ht⟩ := step_run h
    by_cases hij : i = j
    · subst hij
      obtain ⟨n,r,hact,-⟩ := turn_access ht
      rw [ht.thread,Option.some.injEq] at hi
      subst hi
      cases c <;> cases hact
    · exact ht.kept hij hi

theorem correct_run {reconnectable : Bool} {moves : List Move}
    (hlong : system.machine.Meets (fun s move => truncated s move = false) (initial reconnectable)
      moves)
    (hrun : system.machine.run (initial reconnectable) moves = some s) :
    Each Correct s ∧ Exclusive s := by
  have hstart : ∀ (j : ℕ) t, (initial reconnectable).threads[j]? = some t →
      t = .supervisor .start := by
    intro j t hj
    cases j <;> simp_all [initial]
  have hinv := StepMachine.invariant
    (I := fun s => (Layout s ∧ Each Promise s) ∧ Each Correct s ∧ Exclusive s)
    (fun s move s' hs htrunc hstep => ⟨⟨layout_step hs.1.1 hstep,promise_step hs.1.2 hstep⟩,
      correct_step hs.1.1 hs.1.2 hs.2.1 htrunc hstep,exclusive_step hs.2.2 hstep⟩)
    ⟨⟨layout_initial reconnectable,promise_run (StepMachine.run_nil _ _)⟩,fun j => ?_,?_⟩
    hlong hrun
  · exact hinv.2
  · refine ⟨fun conn pc hr => ?_,fun t k m f _ _ hc => ?_,fun k m f hr => ?_⟩
    · cases hstart j _ hr
    · cases hc
    · cases hstart j _ hr
  · have hnone : ∀ j f, ¬ Holds (initial reconnectable) j f := by
      rintro j f ⟨t,ht,hf | ⟨k,m,-,hc⟩⟩
      · rw [hstart j t ht] at hf
        cases hf
      · cases hc
    exact ⟨fun j f hj => absurd hj (hnone j f),fun i j f hi => absurd hi (hnone i f)⟩

/-- In every run in which no response shorter than a request id meets a registered
request zero: a request resolves only with the message of a response frame that carries
its id and came in on the current connection, no two requests resolve with the same
frame, and a resolved request stays as it is. -/
theorem responses_correlated {reconnectable : Bool} {moves : List Move}
    (hlong : system.machine.Meets (fun s move => truncated s move = false) (initial reconnectable)
      moves)
    (hrun : system.machine.run (initial reconnectable) moves = some s) :
    (∀ (i : ℕ) k message frame,
        s.threads[i]? = some (.request (.done (.response k message frame))) →
        Answered s.shared k message frame) ∧
      (∀ (i j : ℕ) k k' message message' frame,
        s.threads[i]? = some (.request (.done (.response k message frame))) →
        s.threads[j]? = some (.request (.done (.response k' message' frame))) → i = j) ∧
      ∀ (i : ℕ) k message frame later s',
        s.threads[i]? = some (.request (.done (.response k message frame))) →
        system.machine.run s later = some s' →
        s'.threads[i]? = some (.request (.done (.response k message frame))) := by
  obtain ⟨hcorrect,hexclusive⟩ := correct_run hlong hrun
  refine ⟨fun i k message frame hi => (hcorrect i).done k message frame hi,
    fun i j k k' message message' frame hi hj => ?_,fun i k message frame later s' hi hlater => ?_⟩
  · exact hexclusive.unique i j frame ⟨_,hi,.inl rfl⟩ ⟨_,hj,.inl rfl⟩
  · exact StepMachine.invariant_of_step (fun _ _ _ hs hstep => resolved_step hs hstep) hi hlater

/-- A response with the given payload comes in while request zero waits. -/
def responseRun (payload : List UInt8) : List Move :=
  opening ++ readying 1 ++ requesting 6 ++
    [.run 1 (.data (frame MessageId.dbResponse payload))] ++ going 1 3 ++ going 6 1

def resolvedZero (s : State) : Bool := s.threads[6]?.any fun
  | .request (.done (.response k _ f)) => k == 0 && f == 1
  | _ => false

theorem thread_of_resolvedZero (h : resolvedZero s = true) :
    ∃ message, s.threads[6]? = some (.request (.done (.response 0 message 1))) := by
  obtain ⟨t,ht,hdone⟩ := (Option.any_eq_true _ _).mp h
  split at hdone
  · simp only [Bool.and_eq_true,beq_iff_eq] at hdone
    obtain ⟨rfl,rfl⟩ := hdone
    exact ⟨_,ht⟩
  · cases hdone

theorem responses_correlated_full : ∃ s message received,
    system.machine.run (initial true) (responseRun [0,0,0,0,9]) = some s ∧
      s.threads[6]? = some (.request (.done (.response 0 message 1))) ∧
      s.shared.received[1]? = some received ∧ Answers 0 message received := by
  have hany : (system.machine.run (initial true) (responseRun [0,0,0,0,9])).any resolvedZero = true := by
    decide +kernel
  obtain ⟨s,hrun,hs⟩ := (Option.any_eq_true _ _).mp hany
  obtain ⟨message,ht⟩ := thread_of_resolvedZero hs
  obtain ⟨received,hf,hans⟩ := (responses_correlated (by decide +kernel) hrun).1 6 _ _ _ ht
  exact ⟨s,message,received,hrun,ht,hf,hans⟩

/-- A response without payload resolves request zero. -/
theorem emptyResponse_resolves_zero : ∃ s message,
    system.machine.run (initial true) (responseRun []) = some s ∧
      s.threads[6]? = some (.request (.done (.response 0 message 1))) ∧
      ¬ Answered s.shared 0 message 1 := by
  have hany : (system.machine.run (initial true) (responseRun [])).any (fun s =>
      (s.shared.received[1]?.any fun received =>
        (Message.fromData received.data).unread.isEmpty) && resolvedZero s) = true := by
    decide +kernel
  obtain ⟨s,hrun,hs⟩ := (Option.any_eq_true _ _).mp hany
  obtain ⟨hreceived,hresolved⟩ := Bool.and_eq_true_iff.mp hs
  obtain ⟨received,hf,hempty⟩ := (Option.any_eq_true _ _).mp hreceived
  obtain ⟨message,ht⟩ := thread_of_resolvedZero hresolved
  refine ⟨s,message,hrun,ht,?_⟩
  rintro ⟨received',hf',hans⟩
  obtain rfl : received = received' := Option.some.inj (hf.symm.trans hf')
  have hlen := hans.key.length_le
  rw [List.isEmpty_iff.mp hempty] at hlen
  simp at hlen

end ResponseCorrelation
end JobControllerClient
