import JobControllerClient.Foundation.Interleaving
import JobControllerClient.Messaging

/-! `db_bridge.rs`: blocking callers of `DbBridge::send` and the one thread that serves them.
The requests stand in a bounded channel; every request carries the channel of its response,
which is named by the caller. -/
namespace JobControllerClient
namespace DbBridge

open Messaging Interleaving

def channelCapacity : ℕ := 128

/-- In seconds. -/
def requestTimeout : ℕ := 30

abbrev Reply := Except String Message

structure DbRequest where
  caller : ℕ
  msg : Message

inductive ResponseChannel
  | empty
  | sent (reply : Reply)
  | closed

/-- Where the thread of the bridge is in its loop; `gone` means that the receiver is dropped. -/
inductive Worker
  | starting
  | receiving
  | counting (req : DbRequest)
  | checkClosed (req : DbRequest)
  | checkReady (req : DbRequest)
  | requesting (req : DbRequest)
  | responding (req : DbRequest) (reply : Reply)
  | gone

/-- `panicked` means that the thread unwinds from where `worker` stands. `entered` and `served`
are the histories of the request channel and of the responses. -/
structure Bridge where
  channel : List DbRequest
  queueDepth : ℕ
  worker : Worker
  panicked : Bool
  responses : ℕ → ResponseChannel
  entered : List DbRequest
  served : List (DbRequest × Reply)

def initial : Bridge := ⟨[],0,.starting,false,fun _ => .empty,[],[]⟩

/-- A call of `send`; the message stays known after it was handed over. -/
inductive Caller
  | called (msg : Message)
  | sending (msg : Message)
  | rejected (msg : Message)
  | waiting (msg : Message)
  | returned (msg : Message) (reply : Reply)

/-- How `timeout(send_db_request)` ends. -/
inductive Outcome
  | ok (msg : Message)
  | error (e : String)
  | elapsed

def Outcome.reply : Outcome → Reply
  | .ok msg => .ok msg
  | .error e => .error s!"DB request error: {e}"
  | .elapsed => .error s!"DB request timed out after {requestTimeout}s"

def disconnected : Reply := .error "DB request error: WebSocket is disconnected"

def channelClosed : Reply := .error "DbBridge channel closed — bridge thread may have panicked"

def responseClosed : Reply := .error "DbBridge response channel closed"

inductive Choice
  | go
  | flag (b : Bool)
  | outcome (o : Outcome)
  | panic

/-- `AtomicUsize::fetch_add(1)` and `fetch_sub(1)` wrap. -/
def fetchAdd (n : ℕ) : ℕ := (n + 1) % UInt64.size

def fetchSub (n : ℕ) : ℕ := if n = 0 then UInt64.size - 1 else n - 1

def Worker.held : Worker → List DbRequest
  | .counting req | .checkClosed req | .checkReady req | .requesting req | .responding req _ => [req]
  | _ => []

namespace Bridge

def withWorker (x : Bridge) (worker : Worker) : Bridge := { x with worker }

/-- The requests that have no response yet. -/
def pending (x : Bridge) : List DbRequest := x.worker.held ++ x.channel

/-- Those whose response channel is still there. -/
def awaited (x : Bridge) : List DbRequest :=
  (if x.panicked then [] else x.worker.held) ++ x.channel

def drop (x : Bridge) (reqs : List DbRequest) : Bridge :=
  { x with responses := fun j =>
      if j ∈ reqs.map DbRequest.caller then .closed else x.responses j }

/-- The request at hand is dropped first, while the receiver is still there. -/
def panic (x : Bridge) : Bridge := { x.drop x.worker.held with panicked := true }

/-- The receiver is dropped, with the requests in it. -/
def abandon (x : Bridge) : Bridge := { x.drop x.channel with channel := [], worker := .gone }

def respond (x : Bridge) (req : DbRequest) (reply : Reply) : Bridge :=
  { x with
    worker := .receiving
    responses := Function.update x.responses req.caller (.sent reply)
    served := x.served ++ [(req,reply)] }

def enter (x : Bridge) (req : DbRequest) : Bridge :=
  { x with channel := x.channel ++ [req], entered := x.entered ++ [req] }

end Bridge

/-- The loop of the thread that `start` spawns. -/
def loop (x : Bridge) : Worker → Choice → Option Bridge
  | .gone, _ => none
  | _, .panic => some x.panic
  | .starting, .go => some (x.withWorker .receiving)
  | .receiving, .go =>
    match x.channel with
    | [] => none
    | req :: rest => some { x with channel := rest, worker := .counting req }
  | .counting req, .go =>
    some { x with queueDepth := fetchSub x.queueDepth, worker := .checkClosed req }
  | .checkClosed req, .flag closed =>
    some (x.withWorker (if closed then .responding req disconnected else .checkReady req))
  | .checkReady req, .flag ready =>
    some (x.withWorker (if ready then .requesting req else .responding req disconnected))
  | .requesting req, .outcome o => some (x.withWorker (.responding req o.reply))
  | .responding req reply, .go => some (x.respond req reply)
  | _, _ => none

def unwind (x : Bridge) : Worker → Choice → Option Bridge
  | .gone, _ => none
  | _, .go => some x.abandon
  | _, _ => none

def workerStep (x : Bridge) (c : Choice) : Option Bridge :=
  if x.panicked then unwind x x.worker c else loop x x.worker c

def send (x : Bridge) (i : ℕ) : Caller → Option (Bridge × Caller)
  | .called msg => some ({ x with queueDepth := fetchAdd x.queueDepth },.sending msg)
  | .sending msg =>
    match x.worker with
    | .gone => some (x,.rejected msg)
    | _ =>
      -- A full channel blocks.
      if x.channel.length < channelCapacity then some (x.enter ⟨i,msg⟩,.waiting msg) else none
  | .rejected msg =>
    some ({ x with queueDepth := fetchSub x.queueDepth },.returned msg channelClosed)
  | .waiting msg =>
    match x.responses i with
    | .empty => none
    | .sent reply => some (x,.returned msg reply)
    | .closed => some (x,.returned msg responseClosed)
  | .returned _ _ => none

inductive Task
  | bridge
  | caller (pc : Caller)

def exec (x : Bridge) (i : ℕ) : Task → Choice → Option (Bridge × Task × List Task)
  | .bridge, c => (workerStep x c).map fun y => (y,.bridge,[])
  | .caller pc, .go => (send x i pc).map fun r => (r.1,.caller r.2,[])
  | .caller _, _ => none

def entry : Task → Bool
  | .caller (.called _) => true
  | _ => false

def system : Interleaving Bridge Task Choice := ⟨entry,exec⟩

def start : State Bridge Task := ⟨initial,[.bridge]⟩

/-- How far the thread is from its next request. -/
def Worker.stage : Worker → ℕ
  | .starting => 7
  | .receiving => 6
  | .counting _ => 5
  | .checkClosed _ => 4
  | .checkReady _ => 3
  | .requesting _ => 2
  | .responding _ _ => 1
  | .gone => 0

/-- A request was taken and is still counted. -/
def Worker.uncounted : Worker → ℕ
  | .counting _ => 1
  | _ => 0

inductive WorkerStep (x : Bridge) : Bridge → Prop
  | advance {x' : Bridge} (w : Worker) (hcalm : x.panicked = false) (hgone : x.worker ≠ .gone)
      (hw : w ≠ .gone) (hheld : w.held = x.worker.held)
      (hcount : w.uncounted = x.worker.uncounted) (hstage : w.stage < x.worker.stage)
      (hx : x' = x.withWorker w) : WorkerStep x x'
  | receive {x' : Bridge} (req : DbRequest) (rest : List DbRequest) (hcalm : x.panicked = false)
      (hw : x.worker = .receiving) (hchannel : x.channel = req :: rest)
      (hx : x' = { x with channel := rest, worker := .counting req }) : WorkerStep x x'
  | count {x' : Bridge} (req : DbRequest) (hcalm : x.panicked = false)
      (hw : x.worker = .counting req)
      (hx : x' = { x with queueDepth := fetchSub x.queueDepth, worker := .checkClosed req }) :
      WorkerStep x x'
  | respond {x' : Bridge} (req : DbRequest) (reply : Reply) (hcalm : x.panicked = false)
      (hw : x.worker = .responding req reply) (hx : x' = x.respond req reply) : WorkerStep x x'
  | panic {x' : Bridge} (hcalm : x.panicked = false) (hgone : x.worker ≠ .gone)
      (hx : x' = x.panic) : WorkerStep x x'
  | abandon {x' : Bridge} (hpanicked : x.panicked = true) (hgone : x.worker ≠ .gone)
      (hx : x' = x.abandon) : WorkerStep x x'

inductive CallerStep (x : Bridge) (i : ℕ) : Caller → Bridge → Caller → Prop
  | call {x' : Bridge} (msg : Message) (hx : x' = { x with queueDepth := fetchAdd x.queueDepth }) :
      CallerStep x i (.called msg) x' (.sending msg)
  | enter {x' : Bridge} (msg : Message) (hgone : x.worker ≠ .gone)
      (hroom : x.channel.length < channelCapacity) (hx : x' = x.enter ⟨i,msg⟩) :
      CallerStep x i (.sending msg) x' (.waiting msg)
  | reject (msg : Message) (hgone : x.worker = .gone) :
      CallerStep x i (.sending msg) x (.rejected msg)
  | giveUp {x' : Bridge} (msg : Message) (hx : x' = { x with queueDepth := fetchSub x.queueDepth }) :
      CallerStep x i (.rejected msg) x' (.returned msg channelClosed)
  | answered (msg : Message) (reply : Reply) (hreply : x.responses i = .sent reply) :
      CallerStep x i (.waiting msg) x (.returned msg reply)
  | dropped (msg : Message) (hclosed : x.responses i = .closed) :
      CallerStep x i (.waiting msg) x (.returned msg responseClosed)

section Steps

variable {x x' : Bridge} {i : ℕ} {c : Choice}

theorem WorkerStep.goOn {v w : Worker} (hcalm : x.panicked = false) (hv : x.worker = v)
    (h : v ≠ .gone ∧ w ≠ .gone ∧ w.held = v.held ∧ w.uncounted = v.uncounted ∧ w.stage < v.stage) :
    WorkerStep x (x.withWorker w) := by
  subst hv
  exact .advance w hcalm h.1 h.2.1 h.2.2.1 h.2.2.2.1 h.2.2.2.2 rfl

theorem loop_step (hcalm : x.panicked = false) (h : loop x x.worker c = some x') :
    WorkerStep x x' := by
  cases hw : x.worker with
  | gone => rw [hw] at h; cases h
  | starting =>
    rw [hw] at h
    cases c <;> cases h
    · exact .goOn hcalm hw (by simp [Worker.held,Worker.uncounted,Worker.stage])
    · exact .panic hcalm (by simp [hw]) rfl
  | receiving =>
    rw [hw] at h
    cases c <;> try cases h
    · cases hchannel : x.channel with
      | nil => simp [loop,hchannel] at h
      | cons req rest =>
        simp only [loop,hchannel,Option.some.injEq] at h
        exact .receive req rest hcalm hw hchannel h.symm
    · exact .panic hcalm (by simp [hw]) rfl
  | counting req =>
    rw [hw] at h
    cases c <;> cases h
    · exact .count req hcalm hw rfl
    · exact .panic hcalm (by simp [hw]) rfl
  | checkClosed req =>
    rw [hw] at h
    cases c with
    | flag closed =>
      cases h
      cases closed <;> exact .goOn hcalm hw (by simp [Worker.held,Worker.uncounted,Worker.stage])
    | panic => cases h; exact .panic hcalm (by simp [hw]) rfl
    | _ => cases h
  | checkReady req =>
    rw [hw] at h
    cases c with
    | flag ready =>
      cases h
      cases ready <;> exact .goOn hcalm hw (by simp [Worker.held,Worker.uncounted,Worker.stage])
    | panic => cases h; exact .panic hcalm (by simp [hw]) rfl
    | _ => cases h
  | requesting req =>
    rw [hw] at h
    cases c <;> cases h
    · exact .goOn hcalm hw (by simp [Worker.held,Worker.uncounted,Worker.stage])
    · exact .panic hcalm (by simp [hw]) rfl
  | responding req reply =>
    rw [hw] at h
    cases c <;> cases h
    · exact .respond req reply hcalm hw rfl
    · exact .panic hcalm (by simp [hw]) rfl

theorem workerStep_step (h : workerStep x c = some x') : WorkerStep x x' := by
  unfold workerStep at h
  split at h
  · rename_i hpanicked
    unfold unwind at h
    split at h
    · cases h
    · rename_i hgone
      cases h
      exact .abandon hpanicked hgone rfl
    · cases h
  · rename_i hcalm
    exact loop_step (Bool.eq_false_of_not_eq_true hcalm) h

theorem send_step {pc pc' : Caller} (h : send x i pc = some (x',pc')) :
    CallerStep x i pc x' pc' := by
  cases pc with
  | called msg => cases h; exact .call msg rfl
  | rejected msg => cases h; exact .giveUp msg rfl
  | returned msg reply => cases h
  | waiting msg =>
    rw [send] at h
    cases hresponse : x.responses i <;> rw [hresponse] at h <;> cases h
    · exact .answered msg _ hresponse
    · exact .dropped msg hresponse
  | sending msg =>
    by_cases hw : x.worker = .gone
    · simp only [send,hw,Option.some.injEq,Prod.mk.injEq] at h
      obtain ⟨rfl,rfl⟩ := h
      exact .reject msg hw
    · have hsend : send x i (.sending msg) = if x.channel.length < channelCapacity then
          some (x.enter ⟨i,msg⟩,.waiting msg) else none := by
        cases hworker : x.worker <;> simp_all [send]
      rw [hsend] at h
      split at h
      · rename_i hroom
        cases h
        exact .enter msg hw hroom rfl
      · cases h

theorem exec_cases {t t' : Task} {new : List Task} (h : system.exec x i t c = some (x',t',new)) :
    new = [] ∧ ((t = .bridge ∧ t' = .bridge ∧ WorkerStep x x') ∨
      ∃ pc pc', t = .caller pc ∧ t' = .caller pc' ∧ CallerStep x i pc x' pc') := by
  cases t with
  | bridge =>
    simp only [system,exec,Option.map_eq_some_iff,Prod.mk.injEq] at h
    obtain ⟨y,hy,rfl,rfl,rfl⟩ := h
    exact ⟨rfl,.inl ⟨rfl,rfl,workerStep_step hy⟩⟩
  | caller pc =>
    cases c <;> try cases h
    simp only [system,exec,Option.map_eq_some_iff,Prod.mk.injEq] at h
    obtain ⟨⟨y,pc'⟩,hy,rfl,rfl,rfl⟩ := h
    exact ⟨rfl,.inr ⟨pc,pc',rfl,rfl,send_step hy⟩⟩

end Steps

/-- The channel is first in, first out: what has entered it was served, or is pending. -/
structure Ordered (x : Bridge) : Prop where
  served : x.served.map Prod.fst <+: x.entered
  fifo : x.worker ≠ .gone → x.entered = x.served.map Prod.fst ++ x.pending
  room : x.channel.length ≤ channelCapacity
  once : (x.entered.map DbRequest.caller).Nodup

def Absent (x : Bridge) (i : ℕ) : Prop :=
  i ∉ x.entered.map DbRequest.caller ∧ x.responses i = .empty

/-- Caller `i` has entered it. Without a response its request is there, and so is the bridge. -/
def Awaits (x : Bridge) (i : ℕ) (msg : Message) : Prop :=
  ⟨i,msg⟩ ∈ x.entered ∧
    (x.responses i = .empty → x.worker ≠ .gone ∧ ⟨i,msg⟩ ∈ x.awaited) ∧
    ∀ reply, x.responses i = .sent reply → (⟨i,msg⟩,reply) ∈ x.served

/-- The reply is the one to the caller's own request, or an error of the bridge itself. -/
def Got (x : Bridge) (i : ℕ) (msg : Message) (reply : Reply) : Prop :=
  (⟨i,msg⟩,reply) ∈ x.served ∨ reply = channelClosed ∨ reply = responseClosed

def Knows (x : Bridge) (i : ℕ) : Option Task → Prop
  | some (.caller (.waiting msg)) => Awaits x i msg
  | some (.caller (.returned msg reply)) => Got x i msg reply
  | _ => Absent x i

structure Sound (s : State Bridge Task) : Prop where
  ordered : Ordered s.shared
  threads : Each Knows s

section Invariant

variable {x x' : Bridge} {i j : ℕ}

theorem drop_empty {reqs : List DbRequest} : (x.drop reqs).responses j = .empty ↔
    j ∉ reqs.map DbRequest.caller ∧ x.responses j = .empty := by
  simp only [Bridge.drop]
  split <;> simp_all

theorem drop_sent {reqs : List DbRequest} {reply : Reply}
    (h : (x.drop reqs).responses j = .sent reply) : x.responses j = .sent reply := by
  simp only [Bridge.drop] at h
  split at h
  · cases h
  · exact h

theorem awaited_calm (hcalm : x.panicked = false) : x.awaited = x.pending := by
  simp [Bridge.awaited,Bridge.pending,hcalm]

theorem awaited_panicked (hpanicked : x.panicked = true) : x.awaited = x.channel := by
  simp [Bridge.awaited,hpanicked]

theorem Ordered.pending_sub (hx : Ordered x) (hgone : x.worker ≠ .gone) {req : DbRequest}
    (h : req ∈ x.pending) : req ∈ x.entered := by
  rw [hx.fifo hgone]
  exact List.mem_append_right _ h

theorem Ordered.unique (hx : Ordered x) {a b : DbRequest} (ha : a ∈ x.entered) (hb : b ∈ x.entered)
    (h : a.caller = b.caller) : a = b :=
  List.inj_on_of_nodup_map hx.once ha hb h

theorem ordered_worker (hx : Ordered x) (h : WorkerStep x x') : Ordered x' := by
  obtain ⟨hserved,hfifo,hroom,honce⟩ := hx
  cases h with
  | advance w hcalm hgone hw hheld hcount hstage hx =>
    subst hx
    refine ⟨hserved,fun _ => ?_,hroom,honce⟩
    rw [Bridge.pending,Bridge.withWorker,hheld]
    exact hfifo hgone
  | receive req rest hcalm hw hchannel hx =>
    subst hx
    have hall := hfifo (by simp [hw])
    refine ⟨hserved,fun _ => ?_,?_,honce⟩
    · simpa [Bridge.pending,hw,hchannel,Worker.held] using hall
    · rw [hchannel] at hroom
      exact Nat.le_of_succ_le hroom
  | count req hcalm hw hx =>
    subst hx
    have hall := hfifo (by simp [hw])
    refine ⟨hserved,fun _ => ?_,hroom,honce⟩
    simpa [Bridge.pending,hw,Worker.held] using hall
  | respond req reply hcalm hw hx =>
    subst hx
    have hall := hfifo (by simp [hw])
    have hmore : x.entered = (x.served ++ [(req,reply)]).map Prod.fst ++ x.channel := by
      simpa [Bridge.pending,hw,Worker.held] using hall
    exact ⟨⟨x.channel,hmore.symm⟩,fun _ => hmore,hroom,honce⟩
  | panic hcalm hgone hx =>
    subst hx
    exact ⟨hserved,hfifo,hroom,honce⟩
  | abandon hpanicked hgone hx =>
    subst hx
    exact ⟨hserved,fun h => absurd rfl h,Nat.zero_le channelCapacity,honce⟩

theorem ordered_caller {pc pc' : Caller} (hx : Ordered x) (hi : Knows x i (some (.caller pc)))
    (h : CallerStep x i pc x' pc') : Ordered x' := by
  obtain ⟨hserved,hfifo,hroom,honce⟩ := hx
  cases h with
  | call msg hx => subst hx; exact ⟨hserved,hfifo,hroom,honce⟩
  | giveUp msg hx => subst hx; exact ⟨hserved,hfifo,hroom,honce⟩
  | reject | answered | dropped => exact ⟨hserved,hfifo,hroom,honce⟩
  | enter msg hgone hlt hx =>
    subst hx
    refine ⟨hserved.trans (List.prefix_append _ _),fun _ => ?_,?_,?_⟩
    · simp [Bridge.enter,hfifo hgone,Bridge.pending]
    · simpa [Bridge.enter] using hlt
    · simp only [Bridge.enter,List.map_append,List.map_cons,List.map_nil]
      exact List.nodup_append.mpr ⟨honce,by simp,by
        intro a ha b hb
        rw [List.mem_singleton] at hb
        rintro rfl
        exact hi.1 (hb ▸ ha)⟩

theorem Knows.imp {o : Option Task} (hj : Knows x j o) (habsent : Absent x j → Absent x' j)
    (hawaits : ∀ msg, Awaits x j msg → Awaits x' j msg)
    (hgot : ∀ msg reply, Got x j msg reply → Got x' j msg reply) : Knows x' j o := by
  cases o with
  | none => exact habsent hj
  | some t =>
    cases t with
    | bridge => exact habsent hj
    | caller pc =>
      cases pc with
      | waiting msg => exact hawaits msg hj
      | returned msg reply => exact hgot msg reply hj
      | called | sending | rejected => exact habsent hj

theorem served_worker (h : WorkerStep x x') {e : DbRequest × Reply} (he : e ∈ x.served) :
    e ∈ x'.served := by
  cases h with
  | advance w hcalm hgone hw hheld hcount hstage hx => subst hx; exact he
  | receive req rest hcalm hw hchannel hx => subst hx; exact he
  | count req hcalm hw hx => subst hx; exact he
  | respond req reply hcalm hw hx => subst hx; exact List.mem_append_left _ he
  | panic hcalm hgone hx => subst hx; exact he
  | abandon hpanicked hgone hx => subst hx; exact he

theorem absent_worker (hx : Ordered x) (h : WorkerStep x x') (hj : Absent x j) : Absent x' j := by
  have hpending : x.worker ≠ .gone → j ∉ x.pending.map DbRequest.caller := by
    intro hgone hmem
    obtain ⟨req,hreq,rfl⟩ := List.mem_map.mp hmem
    exact hj.1 (List.mem_map_of_mem (hx.pending_sub hgone hreq))
  cases h with
  | advance w hcalm hgone hw hheld hcount hstage hx => subst hx; exact hj
  | receive req rest hcalm hw hchannel hx => subst hx; exact hj
  | count req hcalm hw hx => subst hx; exact hj
  | respond req reply hcalm hw hx =>
    subst hx
    have hne : j ≠ req.caller := by
      rintro rfl
      exact hpending (by simp [hw]) (by simp [Bridge.pending,hw,Worker.held])
    exact ⟨hj.1,by simp [Bridge.respond,Function.update_of_ne hne,hj.2]⟩
  | panic hcalm hgone hx =>
    subst hx
    refine ⟨hj.1,drop_empty.mpr ⟨fun hmem => hpending hgone ?_,hj.2⟩⟩
    rw [Bridge.pending,List.map_append]
    exact List.mem_append_left _ hmem
  | abandon hpanicked hgone hx =>
    subst hx
    refine ⟨hj.1,drop_empty.mpr ⟨fun hmem => hpending hgone ?_,hj.2⟩⟩
    rw [Bridge.pending,List.map_append]
    exact List.mem_append_right _ hmem

theorem awaits_worker (hx : Ordered x) (h : WorkerStep x x') {msg : Message} (hj : Awaits x j msg) :
    Awaits x' j msg := by
  obtain ⟨hin,hempty,hsent⟩ := hj
  cases h with
  | advance w hcalm hgone hw hheld hcount hstage hx =>
    subst hx
    refine ⟨hin,fun he => ⟨hw,?_⟩,hsent⟩
    simpa only [Bridge.awaited,Bridge.withWorker,hheld] using (hempty he).2
  | receive req rest hcalm hw hchannel hx =>
    subst hx
    refine ⟨hin,fun he => ⟨by simp,?_⟩,hsent⟩
    simpa [Bridge.awaited,hcalm,hw,hchannel,Worker.held] using (hempty he).2
  | count req hcalm hw hx =>
    subst hx
    refine ⟨hin,fun he => ⟨by simp,?_⟩,hsent⟩
    simpa [Bridge.awaited,hw,Worker.held] using (hempty he).2
  | respond req reply hcalm hw hx =>
    subst hx
    have hreq : req ∈ x.entered :=
      hx.pending_sub (by simp [hw]) (by simp [Bridge.pending,hw,Worker.held])
    by_cases hj : j = req.caller
    · obtain rfl : req = ⟨j,msg⟩ := hx.unique hreq hin hj.symm
      refine ⟨hin,fun he => ?_,fun reply' hr => ?_⟩
      · simp [Bridge.respond] at he
      · obtain rfl : reply = reply' := by simpa [Bridge.respond] using hr
        exact List.mem_append_right _ (by simp)
    · have hresponse : (x.respond req reply).responses j = x.responses j :=
        Function.update_of_ne hj _ _
      refine ⟨hin,fun he => ⟨by simp [Bridge.respond],?_⟩,fun reply' hr => ?_⟩
      · have hmem := (hempty (by rwa [hresponse] at he)).2
        rw [awaited_calm hcalm,Bridge.pending,hw] at hmem
        rcases List.mem_append.mp hmem with hheld | hchannel
        · cases List.mem_singleton.mp hheld
          exact absurd rfl hj
        · exact List.mem_append_right _ hchannel
      · exact List.mem_append_left _ (hsent reply' (by rwa [hresponse] at hr))
  | panic hcalm hgone hx =>
    subst hx
    refine ⟨hin,fun he => ⟨hgone,?_⟩,fun reply hr => hsent reply (drop_sent hr)⟩
    obtain ⟨hout,he⟩ := drop_empty.mp he
    have hmem := (hempty he).2
    rw [awaited_calm hcalm] at hmem
    rcases List.mem_append.mp hmem with hheld | hchannel
    · exact absurd (List.mem_map_of_mem hheld) hout
    · exact List.mem_append_right _ hchannel
  | abandon hpanicked hgone hx =>
    subst hx
    refine ⟨hin,fun he => ?_,fun reply hr => hsent reply (drop_sent hr)⟩
    obtain ⟨hout,he⟩ := drop_empty.mp he
    have hmem := (hempty he).2
    rw [awaited_panicked hpanicked] at hmem
    exact absurd (List.mem_map_of_mem hmem) hout

theorem knows_worker {o : Option Task} (hx : Ordered x) (h : WorkerStep x x') (hj : Knows x j o) :
    Knows x' j o :=
  hj.imp (absent_worker hx h) (fun _ => awaits_worker hx h)
    (fun _ _ hgot => hgot.imp_left (served_worker h))

theorem knows_caller {pc pc' : Caller} {o : Option Task} (h : CallerStep x i pc x' pc')
    (hne : j ≠ i) (hj : Knows x j o) : Knows x' j o := by
  cases h with
  | call msg hx => subst hx; exact hj.imp id (fun _ => id) (fun _ _ => id)
  | giveUp msg hx => subst hx; exact hj.imp id (fun _ => id) (fun _ _ => id)
  | reject | answered | dropped => exact hj
  | enter msg hgone hlt hx =>
    subst hx
    refine hj.imp ?_ ?_ (fun _ _ => id)
    · intro habsent
      refine ⟨?_,habsent.2⟩
      simp only [Bridge.enter,List.map_append,List.mem_append]
      rintro (hold | hnew)
      · exact habsent.1 hold
      · exact hne (by simpa using hnew)
    · rintro msg' ⟨hin,hempty,hsent⟩
      refine ⟨List.mem_append_left _ hin,fun he => ⟨hgone,?_⟩,hsent⟩
      have hmem := (hempty he).2
      simp only [Bridge.awaited,Bridge.enter,← List.append_assoc]
      exact List.mem_append_left _ hmem

theorem knows_self {pc pc' : Caller} (h : CallerStep x i pc x' pc')
    (hi : Knows x i (some (.caller pc))) : Knows x' i (some (.caller pc')) := by
  cases h with
  | call msg hx => subst hx; exact hi
  | reject msg hgone => exact hi
  | giveUp msg hx => exact .inr (.inl rfl)
  | answered msg reply hreply => exact .inl (hi.2.2 reply hreply)
  | dropped msg hclosed => exact .inr (.inr rfl)
  | enter msg hgone hlt hx =>
    subst hx
    refine ⟨by simp [Bridge.enter],fun _ => ⟨hgone,by simp [Bridge.awaited,Bridge.enter]⟩,?_⟩
    intro reply hr
    exact absurd (hi.2.symm.trans hr) (by simp)

theorem sound_step {s s' : State Bridge Task} {a : Move Task Choice} (hs : Sound s)
    (h : system.machine.step s a = some s') : Sound s' := by
  cases a with
  | arrive t =>
    obtain ⟨hentry,rfl⟩ := step_arrive h
    refine ⟨hs.ordered,hs.threads.arrive ?_⟩
    intro j hj
    cases t with
    | bridge => exact hj
    | caller pc =>
      cases pc with
      | called msg => exact hj
      | _ => cases hentry
  | run i c =>
    obtain ⟨t,t',new,hturn⟩ := step_run h
    obtain ⟨rfl,⟨rfl,rfl,hstep⟩ | ⟨pc,pc',rfl,rfl,hstep⟩⟩ := exec_cases hturn.exec
    · refine ⟨ordered_worker hs.ordered hstep,hs.threads.turn hturn ?_ ?_ (by simp)⟩
      · exact knows_worker hs.ordered hstep
      · exact fun j o _ _ => knows_worker hs.ordered hstep
    · have hi : Knows s.shared i (some (.caller pc)) := by
        rw [← hturn.thread]
        exact hs.threads i
      refine ⟨ordered_caller hs.ordered hi hstep,hs.threads.turn hturn ?_ ?_ (by simp)⟩
      · exact knows_self hstep
      · exact fun j o hne _ => knows_caller hstep hne

theorem sound_start : Sound start := by
  refine ⟨⟨by simp [start,initial],fun _ => rfl,by simp [start,initial],by simp [start,initial]⟩,?_⟩
  intro j
  have habsent : Absent start.shared j := ⟨by simp [start,initial],rfl⟩
  cases j with
  | zero => exact habsent
  | succ j => exact habsent

theorem sound_of_run {s : State Bridge Task} {moves : List (Move Task Choice)}
    (h : system.machine.run start moves = some s) : Sound s :=
  StepMachine.invariant_of_step (fun _ _ _ hs hstep => sound_step hs hstep) sound_start h

/-- Every caller gets the reply to its own request, or is told that the bridge is gone. The
requests are served once each and in the order in which they entered the channel. -/
theorem bridge_replies (moves : List (Move Task Choice)) (s : State Bridge Task)
    (h : system.machine.run start moves = some s) :
    (∀ i msg reply, s.threads[i]? = some (.caller (.returned msg reply)) →
      (⟨i,msg⟩,reply) ∈ s.shared.served ∨ reply = channelClosed ∨ reply = responseClosed) ∧
    (s.shared.worker ≠ .gone →
      s.shared.entered = s.shared.served.map Prod.fst ++ s.shared.pending) ∧
    s.shared.served.map Prod.fst <+: s.shared.entered ∧
    (s.shared.entered.map DbRequest.caller).Nodup ∧ s.shared.channel.length ≤ channelCapacity := by
  obtain ⟨⟨hserved,hfifo,hroom,honce⟩,hthreads⟩ := sound_of_run h
  refine ⟨?_,hfifo,hserved,honce,hroom⟩
  intro i msg reply hi
  have hknows := hthreads i
  rw [hi] at hknows
  exact hknows

def first : Message := Message.new 8001 .medium "database"

def second : Message := Message.new 8002 .medium "database"

/-- Two callers raise the counter; the later one enters first and the bridge takes its request. -/
def racing : List (Move Task Choice) :=
  [.arrive (.caller (.called first)),.arrive (.caller (.called second)),.run 1 .go,.run 2 .go,
    .run 2 .go,.run 0 .go,.run 0 .go]

/-- The other one enters, the bridge answers the first request and loses the connection. -/
def settling : List (Move Task Choice) :=
  [.run 1 .go,.run 0 .go,.run 0 (.flag false),.run 0 (.flag true),.run 0 (.outcome (.ok second)),
    .run 0 .go,.run 2 .go,.run 0 .go,.run 0 .go,.run 0 (.flag true),.run 0 .go,.run 1 .go]

def raced : State Bridge Task :=
  ⟨⟨[],2,.counting ⟨2,second⟩,false,fun _ => .empty,[⟨2,second⟩],[]⟩,
    [.bridge,.caller (.sending first),.caller (.waiting second)]⟩

def settled : State Bridge Task :=
  ⟨⟨[],0,.receiving,false,Function.update (Function.update (fun _ => .empty) 2 (.sent (.ok second))) 1
    (.sent disconnected),[⟨2,second⟩,⟨1,first⟩],[(⟨2,second⟩,.ok second),(⟨1,first⟩,disconnected)]⟩,
    [.bridge,.caller (.returned first disconnected),.caller (.returned second (.ok second))]⟩

theorem bridge_replies_racing : system.machine.run start (racing ++ settling) = some settled ∧
    ((⟨1,first⟩,disconnected) ∈ settled.shared.served ∨ disconnected = channelClosed ∨
      disconnected = responseClosed) ∧
    ((⟨2,second⟩,.ok second) ∈ settled.shared.served ∨ .ok second = channelClosed ∨
      .ok second = responseClosed) :=
  ⟨rfl,(bridge_replies (racing ++ settling) settled rfl).1 1 first disconnected rfl,
    (bridge_replies (racing ++ settling) settled rfl).1 2 second (.ok second) rfl⟩

end Invariant

/-- A caller that has raised the counter and is not in the channel. -/
def counted : Task → Bool
  | .caller (.sending _) | .caller (.rejected _) => true
  | _ => false

def depth (s : State Bridge Task) : ℕ :=
  s.threads.countP counted + s.shared.channel.length + s.shared.worker.uncounted

def Counted (s : State Bridge Task) : Prop :=
  s.shared.worker ≠ .gone → s.shared.queueDepth = depth s % UInt64.size

section Depth

theorem fetchAdd_mod (n : ℕ) : fetchAdd (n % UInt64.size) = (n + 1) % UInt64.size := by
  simp only [fetchAdd,UInt64.size]
  omega

theorem fetchSub_mod {n : ℕ} (h : 0 < n) : fetchSub (n % UInt64.size) = (n - 1) % UInt64.size := by
  simp only [fetchSub,UInt64.size]
  split <;> omega

variable {s s' : State Bridge Task}

theorem counted_worker (hs : Counted s)
    (hthreads : s'.threads.countP counted = s.threads.countP counted)
    (h : WorkerStep s.shared s'.shared) : Counted s' := by
  intro halive
  rw [depth,hthreads]
  cases h with
  | advance w hcalm hgone hw hheld huncounted hstage hx =>
    rw [hx]
    simpa [depth,Bridge.withWorker,huncounted] using hs hgone
  | receive req rest hcalm hw hchannel hx =>
    rw [hx]
    have hold := hs (by simp [hw])
    simpa [depth,hw,hchannel,Worker.uncounted,Nat.add_assoc] using hold
  | count req hcalm hw hx =>
    rw [hx]
    have hold := hs (by simp [hw])
    rw [depth,hw] at hold
    simp only [hold]
    rw [fetchSub_mod (by simp [Worker.uncounted])]
    rfl
  | respond req reply hcalm hw hx =>
    rw [hx]
    have hold := hs (by simp [hw])
    simpa [depth,hw,Bridge.respond,Worker.uncounted] using hold
  | panic hcalm hgone hx =>
    rw [hx]
    exact hs hgone
  | abandon hpanicked hgone hx =>
    rw [hx] at halive
    exact absurd rfl halive

theorem counted_caller {i : ℕ} {pc pc' : Caller} (hs : Counted s)
    (hthreads : s'.threads.countP counted + (if counted (.caller pc) then 1 else 0) =
      s.threads.countP counted + (if counted (.caller pc') then 1 else 0))
    (h : CallerStep s.shared i pc s'.shared pc') : Counted s' := by
  obtain ⟨x',threads'⟩ := s'
  intro halive
  cases h with
  | call msg hx =>
    subst hx
    have hmore : threads'.countP counted = s.threads.countP counted + 1 := hthreads
    simp only [hs halive,fetchAdd_mod,depth,hmore]
    congr 1
    omega
  | enter msg hgone hlt hx =>
    subst hx
    have hfewer : threads'.countP counted + 1 = s.threads.countP counted := hthreads
    have hsame : depth ⟨s.shared.enter ⟨i,msg⟩,threads'⟩ = depth s := by
      simp only [depth,Bridge.enter,List.length_append,List.length_singleton]
      omega
    rw [hsame]
    exact hs hgone
  | reject msg hgone => exact absurd hgone halive
  | giveUp msg hx =>
    subst hx
    have hfewer : threads'.countP counted + 1 = s.threads.countP counted := hthreads
    simp only [hs halive]
    rw [fetchSub_mod (by simp only [depth]; omega)]
    congr 1
    simp only [depth]
    omega
  | answered msg reply hreply =>
    have hsame : threads'.countP counted = s.threads.countP counted := hthreads
    simpa [depth,hsame] using hs halive
  | dropped msg hclosed =>
    have hsame : threads'.countP counted = s.threads.countP counted := hthreads
    simpa [depth,hsame] using hs halive

theorem counted_step {a : Move Task Choice} (hs : Counted s)
    (h : system.machine.step s a = some s') : Counted s' := by
  cases a with
  | arrive t =>
    obtain ⟨hentry,rfl⟩ := step_arrive h
    have hnot : counted t = false := by
      cases t with
      | bridge => cases hentry
      | caller pc => cases pc <;> first | rfl | cases hentry
    intro halive
    simpa [depth,List.countP_append,hnot] using hs halive
  | run i c =>
    obtain ⟨t,t',new,hturn⟩ := step_run h
    obtain ⟨rfl,hcases⟩ := exec_cases hturn.exec
    have hcount := hturn.countP counted
    rcases hcases with ⟨rfl,rfl,hstep⟩ | ⟨pc,pc',rfl,rfl,hstep⟩
    · exact counted_worker hs (by simpa [counted] using hcount) hstep
    · exact counted_caller hs (by simpa using hcount) hstep

/-- While the bridge lives, the counter is the number of requests that are on their way: it is
never off by one, and the bridge never lowers it below zero. -/
theorem bridge_depth (moves : List (Move Task Choice)) (s : State Bridge Task)
    (h : system.machine.run start moves = some s) (halive : s.shared.worker ≠ .gone)
    (hfew : s.threads.length + 129 < UInt64.size) :
    s.shared.queueDepth = depth s ∧
      ∀ req, s.shared.worker = .counting req → 0 < s.shared.queueDepth := by
  have hcounted : Counted s :=
    StepMachine.invariant_of_step (fun _ _ _ hs hstep => counted_step hs hstep) (fun _ => rfl) h
  have hroom : s.shared.channel.length ≤ 128 := (sound_of_run h).ordered.room
  have hthreads := List.countP_le_length (p := counted) (l := s.threads)
  have huncounted : s.shared.worker.uncounted ≤ 1 := by
    cases s.shared.worker <;> simp [Worker.uncounted]
  have hsmall : depth s < UInt64.size := by
    simp only [depth]
    omega
  have hdepth : s.shared.queueDepth = depth s := by
    rw [hcounted halive,Nat.mod_eq_of_lt hsmall]
  refine ⟨hdepth,?_⟩
  intro req hw
  rw [hdepth,depth,hw]
  simp [Worker.uncounted]

theorem bridge_depth_racing : raced.shared.queueDepth = depth raced ∧ 0 < raced.shared.queueDepth :=
  have h := bridge_depth racing raced rfl (by simp [raced]) (by decide)
  ⟨h.1,h.2 ⟨2,second⟩ rfl⟩

end Depth

/-- The steps of the bridge until the response of caller `j`. -/
def rank (x : Bridge) (j : ℕ) : ℕ :=
  if x.panicked then 1 else 1 + x.worker.stage + 6 * x.pending.findIdx fun req => req.caller = j

def isBridgeTurn : Move Task Choice → Bool
  | .run 0 _ => true
  | _ => false

section Waiting

variable {x x' : Bridge} {i j : ℕ} {msg : Message}

theorem response_worker (h : WorkerStep x x') (hj : x'.responses j = .empty) :
    x.responses j = .empty := by
  cases h with
  | advance w hcalm hgone hw hheld hcount hstage hx => subst hx; exact hj
  | receive req rest hcalm hw hchannel hx => subst hx; exact hj
  | count req hcalm hw hx => subst hx; exact hj
  | respond req reply hcalm hw hx =>
    subst hx
    by_cases hne : j = req.caller
    · simp [Bridge.respond,hne] at hj
    · have hkept : (x.respond req reply).responses j = x.responses j := Function.update_of_ne hne _ _
      rwa [hkept] at hj
  | panic hcalm hgone hx => subst hx; exact (drop_empty.mp hj).2
  | abandon hpanicked hgone hx => subst hx; exact (drop_empty.mp hj).2

theorem responses_caller {pc pc' : Caller} (h : CallerStep x i pc x' pc') :
    x'.responses = x.responses := by
  cases h with
  | call msg hx => subst hx; rfl
  | enter msg hgone hlt hx => subst hx; rfl
  | giveUp msg hx => subst hx; rfl
  | reject | answered | dropped => rfl

theorem waiting_step {pc' : Caller} (h : CallerStep x i (.waiting msg) x' pc') :
    x.responses i ≠ .empty := by
  cases h with
  | answered msg reply hreply => simp [hreply]
  | dropped msg hclosed => simp [hclosed]

theorem stage_pos (h : x.worker ≠ .gone) : 0 < x.worker.stage := by
  cases hw : x.worker <;> simp_all [Worker.stage]

/-- Each step of the bridge brings a waiting caller nearer to its response. -/
theorem rank_worker (hj : Awaits x j msg) (h : WorkerStep x x') (hempty : x'.responses j = .empty) :
    rank x' j < rank x j := by
  have hold := response_worker h hempty
  obtain ⟨-,hmem⟩ := hj.2.1 hold
  cases h with
  | advance w hcalm hgone hw hheld hcount hstage hx =>
    subst hx
    simp only [rank,Bridge.pending,Bridge.withWorker,hcalm,hheld,Bool.false_eq_true,if_false]
    omega
  | receive req rest hcalm hw hchannel hx =>
    subst hx
    simp [rank,Bridge.pending,hcalm,hw,hchannel,Worker.held,Worker.stage]
  | count req hcalm hw hx =>
    subst hx
    simp [rank,Bridge.pending,hcalm,hw,Worker.held,Worker.stage]
  | respond req reply hcalm hw hx =>
    subst hx
    have hne : req.caller ≠ j := by
      intro heq
      simp [Bridge.respond,heq] at hempty
    simp only [rank,Bridge.pending,hcalm,hw,Bridge.respond,Worker.held,Worker.stage,List.nil_append,
      List.singleton_append,List.findIdx_cons,hne,decide_false,cond_false,Bool.false_eq_true,
      if_false]
    omega
  | panic hcalm hgone hx =>
    subst hx
    have hpos := stage_pos hgone
    simp only [rank,Bridge.panic,hcalm,Bool.false_eq_true,if_true,if_false]
    omega
  | abandon hpanicked hgone hx =>
    subst hx
    rw [awaited_panicked hpanicked] at hmem
    exact absurd (List.mem_map_of_mem hmem) (drop_empty.mp hempty).1

theorem awaited_sub {req : DbRequest} (h : req ∈ x.awaited) : req ∈ x.pending := by
  cases hpanicked : x.panicked with
  | false => rwa [awaited_calm hpanicked] at h
  | true =>
    rw [awaited_panicked hpanicked] at h
    exact List.mem_append_right _ h

theorem findIdx_lt (h : ⟨j,msg⟩ ∈ x.pending) :
    x.pending.findIdx (fun req => req.caller = j) < x.pending.length :=
  List.findIdx_lt_length_of_exists ⟨_,h,by simp⟩

theorem rank_caller {pc pc' : Caller} (hj : Awaits x j msg) (h : CallerStep x i pc x' pc')
    (hempty : x.responses j = .empty) : rank x' j = rank x j := by
  obtain ⟨-,hmem⟩ := hj.2.1 hempty
  cases h with
  | call msg hx => subst hx; rfl
  | giveUp msg hx => subst hx; rfl
  | reject | answered | dropped => rfl
  | enter msg hgone hlt hx =>
    subst hx
    have hfound := findIdx_lt (awaited_sub hmem)
    have hpending : (x.enter ⟨i,msg⟩).pending = x.pending ++ [⟨i,msg⟩] := by
      simp [Bridge.pending,Bridge.enter]
    rw [rank,rank,hpending,List.findIdx_append,if_pos hfound]
    rfl

theorem rank_le (hx : Ordered x) (hj : Awaits x j msg) (hempty : x.responses j = .empty) :
    rank x j ≤ 775 := by
  have hfound := findIdx_lt (awaited_sub (hj.2.1 hempty).2)
  have hroom : x.channel.length ≤ 128 := hx.room
  -- With a request at hand the thread is at its fifth last step already.
  have hheld : x.worker.stage + 6 * x.worker.held.length ≤ 11 := by
    cases x.worker <;> simp [Worker.held,Worker.stage]
  rw [Bridge.pending,List.length_append] at hfound
  rw [rank]
  split
  · omega
  · simp only [Bridge.pending]
    omega

theorem loop_enabled (hgone : x.worker ≠ .gone) (h : x.pending ≠ []) :
    ∃ c y, c ≠ .panic ∧ loop x x.worker c = some y := by
  cases hw : x.worker with
  | gone => exact absurd hw hgone
  | starting => exact ⟨.go,_,by simp,rfl⟩
  | receiving =>
    cases hchannel : x.channel with
    | nil => exact absurd (by simp [Bridge.pending,hw,hchannel,Worker.held]) h
    | cons req rest => exact ⟨.go,_,by simp,by rw [loop,hchannel]⟩
  | counting req => exact ⟨.go,_,by simp,rfl⟩
  | checkClosed req => exact ⟨.flag true,_,by simp,rfl⟩
  | checkReady req => exact ⟨.flag true,_,by simp,rfl⟩
  | requesting req => exact ⟨.outcome .elapsed,_,by simp,rfl⟩
  | responding req reply => exact ⟨.go,_,by simp,rfl⟩

theorem workerStep_enabled (hgone : x.worker ≠ .gone) (h : x.pending ≠ []) :
    ∃ c y, c ≠ .panic ∧ workerStep x c = some y := by
  unfold workerStep
  split
  · refine ⟨.go,x.abandon,by simp,?_⟩
    cases hw : x.worker with
    | gone => exact absurd hw hgone
    | _ => rfl
  · exact loop_enabled hgone h

variable {s s' : State Bridge Task}

theorem response_step {a : Move Task Choice} (h : system.machine.step s a = some s')
    (hempty : s'.shared.responses j = .empty) : s.shared.responses j = .empty := by
  cases a with
  | arrive t =>
    obtain ⟨-,rfl⟩ := step_arrive h
    exact hempty
  | run i c =>
    obtain ⟨t,t',new,hturn⟩ := step_run h
    obtain ⟨rfl,⟨rfl,rfl,hstep⟩ | ⟨pc,pc',rfl,rfl,hstep⟩⟩ := exec_cases hturn.exec
    · exact response_worker hstep hempty
    · rwa [responses_caller hstep] at hempty

theorem response_run {moves : List (Move Task Choice)} (h : system.machine.run s moves = some s')
    (hempty : s'.shared.responses j = .empty) : s.shared.responses j = .empty := by
  induction moves generalizing s with
  | nil =>
    obtain rfl : s = s' := by simpa using h
    exact hempty
  | cons a moves ih =>
    obtain ⟨t,ht,hrest⟩ := (StepMachine.run_cons_eq_some _).mp h
    exact response_step ht (ih hrest)

theorem rank_step {a : Move Task Choice} (hs : Sound s) (hbridge : s.threads[0]? = some .bridge)
    (hj : s.threads[j]? = some (.caller (.waiting msg))) (h : system.machine.step s a = some s')
    (hempty : s'.shared.responses j = .empty) :
    s'.threads[j]? = some (.caller (.waiting msg)) ∧
      rank s'.shared j + (if isBridgeTurn a then 1 else 0) ≤ rank s.shared j := by
  have hawaits : Awaits s.shared j msg := by
    have hknows := hs.threads j
    rwa [hj] at hknows
  cases a with
  | arrive t =>
    obtain ⟨-,rfl⟩ := step_arrive h
    exact ⟨arrive_kept hj,le_rfl⟩
  | run i c =>
    obtain ⟨t,t',new,hturn⟩ := step_run h
    obtain ⟨rfl,⟨rfl,rfl,hstep⟩ | ⟨pc,pc',rfl,rfl,hstep⟩⟩ := exec_cases hturn.exec
    · have hne : j ≠ i := by
        rintro rfl
        have hsame := hturn.thread.symm.trans hj
        cases hsame
      have hlt := rank_worker hawaits hstep hempty
      refine ⟨hturn.kept hne hj,?_⟩
      split <;> omega
    · rw [responses_caller hstep] at hempty
      have hnot : isBridgeTurn (.run i c) = false := by
        cases i with
        | zero => cases hturn.thread.symm.trans hbridge
        | succ i => rfl
      have hne : j ≠ i := by
        rintro rfl
        obtain rfl : pc = .waiting msg := by simpa using hturn.thread.symm.trans hj
        exact waiting_step hstep hempty
      rw [rank_caller hawaits hstep hempty,hnot]
      exact ⟨hturn.kept hne hj,le_rfl⟩

theorem bridge_stays {a : Move Task Choice} (hbridge : s.threads[0]? = some .bridge)
    (h : system.machine.step s a = some s') : s'.threads[0]? = some .bridge := by
  cases a with
  | arrive t =>
    obtain ⟨-,rfl⟩ := step_arrive h
    exact arrive_kept hbridge
  | run i c =>
    obtain ⟨t,t',new,hturn⟩ := step_run h
    by_cases hi : i = 0
    · subst hi
      obtain rfl : t = .bridge := by simpa using hturn.thread.symm.trans hbridge
      obtain ⟨-,⟨-,rfl,-⟩ | ⟨pc,pc',hpc,-,-⟩⟩ := exec_cases hturn.exec
      · exact hturn.self
      · cases hpc
    · exact hturn.kept (Ne.symm hi) hbridge

theorem rank_run {more : List (Move Task Choice)} (hs : Sound s)
    (hbridge : s.threads[0]? = some .bridge)
    (hj : s.threads[j]? = some (.caller (.waiting msg))) (h : system.machine.run s more = some s')
    (hempty : s'.shared.responses j = .empty) :
    s'.threads[j]? = some (.caller (.waiting msg)) ∧
      more.countP isBridgeTurn + rank s'.shared j ≤ rank s.shared j := by
  induction more generalizing s with
  | nil =>
    obtain rfl : s = s' := by simpa using h
    exact ⟨hj,by simp⟩
  | cons a more ih =>
    obtain ⟨t,ht,hrest⟩ := (StepMachine.run_cons_eq_some _).mp h
    obtain ⟨hwaiting,hrank⟩ := rank_step hs hbridge hj ht (response_run hrest hempty)
    obtain ⟨hlast,hlater⟩ := ih (sound_step hs ht) (bridge_stays hbridge ht) hwaiting hrest
    refine ⟨hlast,?_⟩
    rw [List.countP_cons]
    omega

/-- A caller whose request is in the channel never waits in vain: the bridge can always go on,
and after 775 of its steps at the latest the caller has a response or the bridge is gone. -/
theorem bridge_bounded_wait (moves : List (Move Task Choice)) (s : State Bridge Task)
    (h : system.machine.run start moves = some s) (j : ℕ) (msg : Message)
    (hj : s.threads[j]? = some (.caller (.waiting msg))) (hempty : s.shared.responses j = .empty) :
    (∃ c, c ≠ .panic ∧ (system.machine.step s (.run 0 c)).isSome) ∧
      ∀ more s', system.machine.run s more = some s' → 775 ≤ more.countP isBridgeTurn →
        s'.shared.responses j ≠ .empty := by
  have hs := sound_of_run h
  have hbridge : s.threads[0]? = some .bridge :=
    StepMachine.invariant_of_step (I := fun s : State Bridge Task => s.threads[0]? = some .bridge)
      (fun _ _ _ hs hstep => bridge_stays hs hstep) rfl h
  have hawaits : Awaits s.shared j msg := by
    have hknows := hs.threads j
    rwa [hj] at hknows
  obtain ⟨hgone,hmem⟩ := hawaits.2.1 hempty
  constructor
  · obtain ⟨c,y,hc,hy⟩ := workerStep_enabled hgone (List.ne_nil_of_mem (awaited_sub hmem))
    refine ⟨c,hc,?_⟩
    simp [machine,step,hbridge,system,exec,hy]
  · intro more s' hmore hturns hstill
    obtain ⟨hwaiting,hbound⟩ := rank_run hs hbridge hj hmore hstill
    have hle := rank_le hs.ordered hawaits hempty
    have hlater : Awaits s'.shared j msg := by
      have hsound := sound_of_run ((StepMachine.run_append_eq_some _).mpr ⟨s,h,hmore⟩)
      have hknows := hsound.threads j
      rwa [hwaiting] at hknows
    have hpos : 0 < rank s'.shared j := by
      rw [rank]
      split <;> omega
    omega

theorem bridge_bounded_wait_racing : system.machine.run start racing = some raced ∧
    ∃ c, c ≠ .panic ∧ (system.machine.step raced (.run 0 c)).isSome :=
  ⟨rfl,(bridge_bounded_wait racing raced rfl 2 second rfl rfl).1⟩

end Waiting

end DbBridge
end JobControllerClient
