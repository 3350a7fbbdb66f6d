import JobControllerClient.Foundation.Interleaving
import JobControllerClient.WebsocketClient

/-! The tasks around `TungsteniteWebsocketClient`: callers of `queue_message` and
`send_db_request`, the supervisor with `run_connection`, and the five tasks of every
connection. A task stands before its next atomic access; frames, timers, map orders
and I/O results are choices. -/
namespace JobControllerClient
namespace Websocket

open Messaging

def maxConsecutivePriorityItems : ℕ := 16

/-- What the socket yields besides data frames; the end of the stream is `ended`. -/
inductive Event
  | ping | pong | close | error | other | ended
  deriving DecidableEq

inductive Choice
  | go
  | ok
  | failed
  | tick
  | data (bytes : List UInt8)
  | event (event : Event)
  | recv
  | recvClosed
  | pop (source : Option String)
  | now (millis : ℤ)
  | elapse
  | abandon
  deriving DecidableEq

inductive Outcome
  | refused
  | response (k : UInt32) (message : Message) (frame : ℕ)
  | failed
  | timedOut
  | abandoned

inductive QueuePc
  | called (source : String) (data : List UInt8) (priority : Priority)
  | check (item : Item)
  | lock (item : Item)
  | unlock (p : ℕ)
  | notify

inductive RequestPc
  | called (message : Message)
  | checkReady (message : Message)
  | fetchId (message : Message)
  | register (k : UInt32) (message : Message)
  | recheck (k : UInt32)
  | withdraw (k : UInt32)
  | awaiting (k : UInt32)
  | expired (k : UInt32)
  | done (outcome : Outcome)

inductive DisconnectPc
  | checkId
  | swap
  | storeReady (was : Bool)
  | clear (was : Bool) (p : ℕ)
  | cleared (was : Bool) (p : ℕ)
  | take (was : Bool)
  | dropping (was : Bool) (taken : List ℕ)
  | notify
  | checkReconnect
  | shutdown

/-- The places that call `handle_disconnect`; the reader calls it in its loop and once
more after it. -/
inductive Caller
  | readLoop | reader | writer | pinger
  deriving DecidableEq

inductive Role
  | reader | writer | scheduler | pinger | pruner
  deriving DecidableEq

inductive SupervisorPc
  | start
  | connecting (conn : ℕ)
  | openClosed (conn : ℕ)
  | openReady (conn : ℕ)
  | openPing (conn : ℕ)
  | openPong (conn : ℕ)
  | openWriter (conn : ℕ)
  | spawning (conn : ℕ) (rest : List Role)
  | waiting (conn generation : ℕ)
  | leaving (conn : ℕ)
  | checkReconnect
  | failClosed
  | failReady
  | failReconnect
  | stopping
  | sleeping
  | done

inductive ReaderPc
  | next
  | dataCheck (frame : ℕ) (data : List UInt8)
  | eventCheck (event : Event)
  | handleCheck (frame : ℕ) (message : Message)
  | ready
  | readyNotify
  | respond (frame : ℕ) (message : Message)
  | pongCheck
  | pongStore
  | done

inductive WriterPc
  | checkId | checkClosed | select | output | leaving | done

structure Scan where
  level : ℕ
  consecutive : ℕ
  hadAnyData : Bool

inductive SchedulerPc
  | poll
  | parked
  | checkId
  | checkReady
  | checkClosed
  | top (scan : Scan)
  | pop (scan : Scan)
  | popped (scan : Scan) (found : Option Item)
  | sending (scan : Scan) (item : Item)
  | probe (scan : Scan) (q : ℕ)
  | peeked (scan : Scan) (q : ℕ) (higher : Bool)
  | leaving
  | done

inductive PingerPc
  | tick | checkId | checkClosed | loadPing | loadPong (ping : ℤ) | resetPong | stampPing | sendPing
  | leaving | done

inductive PrunerPc
  | tick
  | checkId
  | checkClosed
  | prune (p : ℕ)
  | pruned (p : ℕ)
  | done

/-- `queueing pc (some k)` is the `queue_message` call inside `send_db_request` for
request `k`, `queueing pc none` a call from outside. -/
inductive Task
  | queueing (pc : QueuePc) (request : Option UInt32)
  | queued
  | request (pc : RequestPc)
  | disconnecting (conn : ℕ) (pc : DisconnectPc) (caller : Caller)
  | supervisor (pc : SupervisorPc)
  | reader (conn : ℕ) (pc : ReaderPc)
  | writer (conn : ℕ) (pc : WriterPc)
  | scheduler (conn : ℕ) (pc : SchedulerPc)
  | pinger (conn : ℕ) (pc : PingerPc)
  | pruner (conn : ℕ) (pc : PrunerPc)

/-- What a thread is for; this never changes. -/
inductive Kind
  | queueCall
  | dbCall
  | supervisor
  | worker (conn : ℕ) (role : Role)
  deriving DecidableEq

def Caller.role : Caller → Role
  | .readLoop | .reader => .reader
  | .writer => .writer
  | .pinger => .pinger

def Task.kind : Task → Kind
  | .queueing _ none | .queued => .queueCall
  | .queueing _ (some _) | .request _ => .dbCall
  | .disconnecting conn _ caller => .worker conn caller.role
  | .supervisor _ => .supervisor
  | .reader conn _ => .worker conn .reader
  | .writer conn _ => .worker conn .writer
  | .scheduler conn _ => .worker conn .scheduler
  | .pinger conn _ => .worker conn .pinger
  | .pruner conn _ => .worker conn .pruner

/-- The next access of a task, what it does with the answer, and what it spawns. -/
structure Next where
  action : Action
  resume : action.Answer → Task
  spawned : Option Task

def access (action : Action) (resume : action.Answer → Task) : Option Next :=
  some ⟨action,resume,none⟩

def afterQueue : Option UInt32 → Task
  | none => .queued
  | some k => .request (.recheck k)

def queueMessage (request : Option UInt32) : QueuePc → Choice → Option Next
  | .called source data priority, .go =>
    access (.begin source data priority) fun item => .queueing (.check item) request
  | .check item, .go => access .loadClosed fun closed =>
    if closed then afterQueue request else .queueing (.lock item) request
  | .lock item, .go => access (.lockPush item) fun _ =>
    .queueing (.unlock item.priority.level) request
  | .unlock p, .go => access (.unlock p) fun _ => .queueing .notify request
  | .notify, .go => access .notifyOne fun _ => afterQueue request
  | _, _ => none

/-- The frame that carries request `k`. -/
def wrap (message : Message) (k : UInt32) : List UInt8 :=
  (((Message.new message.id message.priority message.source).pushUint k).appendRawBytes
    message.clonePayloadBytes).data

def dbSource : String := "db"

def afterPoll (k : UInt32) : Option (Message × ℕ) → Outcome
  | none => .failed
  | some (message,frame) => .response k message frame

def sendDbRequest : RequestPc → Choice → Option Next
  | .called message, .go => access .loadClosed fun closed =>
    .request (if closed then .done .refused else .checkReady message)
  | .checkReady message, .go => access .loadReady fun ready =>
    .request (if ready then .fetchId message else .done .refused)
  | .fetchId message, .go => access .nextRequest fun k => .request (.register k message)
  | .register k message, .go => access (.register k) fun _ =>
    .queueing (.called dbSource (wrap message k) .highest) (some k)
  | .recheck k, .go => access .loadClosed fun closed =>
    .request (if closed then .withdraw k else .awaiting k)
  | .withdraw k, .go => access (.unregister k) fun _ => .request (.done .refused)
  | .awaiting k, .go => access .pollResponse fun r => .request (.done (afterPoll k r))
  | .awaiting k, .elapse => access .elapse fun _ => .request (.expired k)
  | .awaiting _, .abandon => access .abandon fun _ => .request (.done .abandoned)
  | .expired k, .go => access (.unregister k) fun _ => .request (.done .timedOut)
  | _, _ => none

def afterDisconnect (conn : ℕ) : Caller → Task
  | .readLoop => .disconnecting conn .checkId .reader
  | .reader => .reader conn .done
  | .writer => .writer conn .leaving
  | .pinger => .pinger conn .leaving

def nextClear (was : Bool) (p : ℕ) : DisconnectPc :=
  if p + 1 < priorityLevels then .clear was (p + 1) else .take was

def handleDisconnect (conn : ℕ) (caller : Caller) : DisconnectPc → Choice → Option Next
  | .checkId, .go => access .loadId fun id =>
    if id = conn then .disconnecting conn .swap caller else afterDisconnect conn caller
  | .swap, .go => access (.swapClosed conn) fun was => .disconnecting conn (.storeReady was) caller
  | .storeReady was, .go => access (.storeReady false) fun _ =>
    .disconnecting conn (.clear was 0) caller
  | .clear was p, .go => access (.tryClear p) fun locked =>
    .disconnecting conn (if locked then .cleared was p else nextClear was p) caller
  | .cleared was p, .go => access (.unlock p) fun _ => .disconnecting conn (nextClear was p) caller
  | .take was, .go => access .takePromises fun taken =>
    .disconnecting conn (.dropping was taken) caller
  | .dropping was taken, .go => access (.dropSenders taken) fun _ =>
    if was then afterDisconnect conn caller else .disconnecting conn .notify caller
  | .notify, .go => access (.notifyDisconnect conn) fun _ =>
    .disconnecting conn .checkReconnect caller
  | .checkReconnect, .go => access .loadReconnectable fun reconnectable =>
    if reconnectable then afterDisconnect conn caller else .disconnecting conn .shutdown caller
  | .shutdown, .go => access .signalShutdown fun _ => afterDisconnect conn caller
  | _, _ => none

/-- The first access of each task that `run_connection` spawns. -/
def Role.task (conn : ℕ) : Role → Task
  | .reader => .reader conn .next
  | .writer => .writer conn .checkId
  | .scheduler => .scheduler conn .poll
  | .pinger => .pinger conn .tick
  | .pruner => .pruner conn .tick

/-- `supervise_connections` with `run_connection` inlined. `check_for_updates_on_reconnect`, awaited
before the sleep, does not touch the client and stands in `Daemon`. -/
def superviseConnections : SupervisorPc → Choice → Option Next
  | .start, .go => access .nextConnection fun conn => .supervisor (.connecting conn)
  | .connecting conn, .ok => access .skip fun _ => .supervisor (.openClosed conn)
  | .connecting _, .failed => access .skip fun _ => .supervisor .failClosed
  | .openClosed conn, .go => access (.storeClosed false) fun _ => .supervisor (.openReady conn)
  | .openReady conn, .go => access (.storeReady false) fun _ => .supervisor (.openPing conn)
  | .openPing conn, .go => access (.storePing 0) fun _ => .supervisor (.openPong conn)
  | .openPong conn, .go => access (.storePong 0) fun _ => .supervisor (.openWriter conn)
  | .openWriter conn, .go => access (.openWriter conn) fun _ =>
    .supervisor (.spawning conn [.reader,.writer,.scheduler,.pinger,.pruner])
  | .spawning conn (role :: rest), .go =>
    some ⟨.skip,fun _ => .supervisor (.spawning conn rest),some (role.task conn)⟩
  | .spawning conn [], .go => access (.createNotified conn) fun generation =>
    .supervisor (.waiting conn generation)
  | .waiting conn generation, .go => access (.awaitNotified conn generation) fun _ =>
    .supervisor (.leaving conn)
  | .leaving conn, .go => access (.dropSender conn) fun _ => .supervisor .checkReconnect
  | .checkReconnect, .go => access .loadReconnectable fun reconnectable =>
    .supervisor (if reconnectable then .sleeping else .done)
  | .failClosed, .go => access (.storeClosed true) fun _ => .supervisor .failReady
  | .failReady, .go => access (.storeReady false) fun _ => .supervisor .failReconnect
  | .failReconnect, .go => access .loadReconnectable fun reconnectable =>
    .supervisor (if reconnectable then .sleeping else .stopping)
  | .stopping, .go => access .signalShutdown fun _ => .supervisor .done
  | .sleeping, .go => access .skip fun _ => .supervisor .start
  | _, _ => none

/-- The read loop's reaction to a frame without data. -/
def handleEvent (conn : ℕ) : Event → Task
  | .ping | .other => .reader conn .next
  | .pong => .reader conn .pongCheck
  | .close | .error => .disconnecting conn .checkId .readLoop
  | .ended => .disconnecting conn .checkId .reader

/-- The dispatch of `handle_message`; jobs and files work outside the client. -/
def dispatch (frame : ℕ) (message : Message) : ReaderPc :=
  if message.id = MessageId.serverReady then .ready
  else if message.id = MessageId.dbResponse then .respond frame message
  else .next

def readLoop (conn : ℕ) : ReaderPc → Choice → Option Next
  | .next, .data bytes => access (.receive conn bytes) fun frame =>
    .reader conn (.dataCheck frame bytes)
  | .next, .event event => access .skip fun _ =>
    if event = .ended then handleEvent conn event else .reader conn (.eventCheck event)
  | .dataCheck frame bytes, .go => access .loadId fun id =>
    .reader conn (if id = conn then .handleCheck frame (Message.fromData bytes) else .done)
  | .eventCheck event, .go => access .loadId fun id =>
    if id = conn then handleEvent conn event else .reader conn .done
  | .handleCheck frame message, .go => access .loadId fun id =>
    .reader conn (if id = conn then dispatch frame message else .next)
  | .ready, .go => access (.storeReady true) fun _ => .reader conn .readyNotify
  | .readyNotify, .go => access .notifyOne fun _ => .reader conn .next
  | .respond frame message, .go => access (.respond message frame) fun _ => .reader conn .next
  | .pongCheck, .go => access .loadId fun id => .reader conn (if id = conn then .pongStore else .next)
  | .pongStore, .now millis => access (.storePong millis) fun _ => .reader conn .next
  | _, _ => none

def writeLoop (conn : ℕ) : WriterPc → Choice → Option Next
  | .checkId, .go => access .loadId fun id =>
    .writer conn (if id = conn then .checkClosed else .leaving)
  | .checkClosed, .go => access .loadClosed fun closed =>
    .writer conn (if closed then .leaving else .select)
  | .select, .recv => access (.recv conn) fun _ => .writer conn .output
  | .select, .recvClosed => access (.recvClosed conn) fun _ => .writer conn .leaving
  | .select, .tick => access .skip fun _ => .writer conn .output
  | .output, .ok => access .skip fun _ => .writer conn .checkId
  | .output, .failed => access .skip fun _ => .disconnecting conn .checkId .writer
  | .leaving, .go => access (.dropReceiver conn) fun _ => .writer conn .done
  | _, _ => none

def Scan.start : Scan := ⟨0,0,false⟩

def Scan.taken (scan : Scan) : Scan := ⟨scan.level,scan.consecutive + 1,true⟩

/-- The end of one level: the next one, the next pass, or back to `notified`. -/
def Scan.nextLevel (scan : Scan) : SchedulerPc :=
  if scan.level + 1 < priorityLevels then .top ⟨scan.level + 1,0,scan.hadAnyData⟩
  else if scan.hadAnyData then .top .start
  else .poll

/-- `does_higher_priority_data_exist` from level `q` on. -/
def Scan.probe (scan : Scan) (q : ℕ) : SchedulerPc :=
  if q < scan.level then .probe scan q else .top scan

def schedule (conn : ℕ) : SchedulerPc → Choice → Option Next
  | .poll, .go => access .pollNotified fun taken =>
    .scheduler conn (if taken then .checkId else .parked)
  | .parked, .go => access .resumeNotified fun _ => .scheduler conn .checkId
  | .checkId, .go => access .loadId fun id =>
    .scheduler conn (if id = conn then .checkReady else .leaving)
  | .checkReady, .go => access .loadReady fun ready =>
    .scheduler conn (if ready then .checkClosed else .poll)
  | .checkClosed, .go => access .loadClosed fun closed =>
    .scheduler conn (if closed then .leaving else .top .start)
  | .top scan, .go => access .loadId fun id =>
    .scheduler conn (if id = conn then
      if maxConsecutivePriorityItems ≤ scan.consecutive then scan.nextLevel else .pop scan
    else .leaving)
  | .pop scan, .pop source => access (.lockPop scan.level source) fun found =>
    .scheduler conn (.popped scan found)
  | .popped scan none, .go => access (.unlock scan.level) fun _ => .scheduler conn scan.nextLevel
  | .popped scan (some item), .go => access (.unlock scan.level) fun _ =>
    .scheduler conn (.sending scan item)
  | .sending scan item, .go => access (.handOver conn item) fun sent =>
    .scheduler conn (if sent then scan.taken.probe 0 else .leaving)
  | .probe scan q, .go => access (.tryPeek q) fun
    | none => .scheduler conn (.top .start)
    | some higher => .scheduler conn (.peeked scan q higher)
  | .peeked scan q higher, .go => access (.unlock q) fun _ =>
    .scheduler conn (if higher then .top .start else scan.probe (q + 1))
  | .leaving, .go => access (.dropSender conn) fun _ => .scheduler conn .done
  | _, _ => none

def pingLoop (conn : ℕ) : PingerPc → Choice → Option Next
  | .tick, .tick => access .skip fun _ => .pinger conn .checkId
  | .checkId, .go => access .loadId fun id =>
    .pinger conn (if id = conn then .checkClosed else .leaving)
  | .checkClosed, .go => access .loadClosed fun closed =>
    .pinger conn (if closed then .leaving else .loadPing)
  | .loadPing, .go => access .loadPing fun ping => .pinger conn (.loadPong ping)
  | .loadPong ping, .go => access .loadPong fun pong =>
    if ping ≠ 0 ∧ pong = 0 then .disconnecting conn .checkId .pinger else .pinger conn .resetPong
  | .resetPong, .go => access (.storePong 0) fun _ => .pinger conn .stampPing
  | .stampPing, .now millis => access (.storePing millis) fun _ => .pinger conn .sendPing
  | .sendPing, .go => access (.sendPing conn) fun sent =>
    if sent then .pinger conn .tick else .disconnecting conn .checkId .pinger
  | .leaving, .go => access (.dropSender conn) fun _ => .pinger conn .done
  | _, _ => none

def nextPrune (p : ℕ) : PrunerPc := if p + 1 < priorityLevels then .prune (p + 1) else .tick

def pruneLoop (conn : ℕ) : PrunerPc → Choice → Option Next
  | .tick, .tick => access .skip fun _ => .pruner conn .checkId
  | .checkId, .go => access .loadId fun id =>
    .pruner conn (if id = conn then .checkClosed else .done)
  | .checkClosed, .go => access .loadClosed fun closed =>
    .pruner conn (if closed then .done else .prune 0)
  | .prune p, .go => access (.tryPrune p) fun locked =>
    .pruner conn (if locked then .pruned p else nextPrune p)
  | .pruned p, .go => access (.unlock p) fun _ => .pruner conn (nextPrune p)
  | _, _ => none

def act : Task → Choice → Option Next
  | .queueing pc request, c => queueMessage request pc c
  | .queued, _ => none
  | .request pc, c => sendDbRequest pc c
  | .disconnecting conn pc caller, c => handleDisconnect conn caller pc c
  | .supervisor pc, c => superviseConnections pc c
  | .reader conn pc, c => readLoop conn pc c
  | .writer conn pc, c => writeLoop conn pc c
  | .scheduler conn pc, c => schedule conn pc c
  | .pinger conn pc, c => pingLoop conn pc c
  | .pruner conn pc, c => pruneLoop conn pc c

/-- Calls of `queue_message` and `send_db_request` come from outside. -/
def entry : Task → Bool
  | .queueing (.called ..) none => true
  | .request (.called _) => true
  | _ => false

def exec (x : Client) (i : ℕ) (t : Task) (c : Choice) : Option (Client × Task × List Task) :=
  (act t c).bind fun n => (x.perform i n.action).map fun r => (r.1,n.resume r.2,n.spawned.toList)

def system : Interleaving Client Task Choice := ⟨entry,exec⟩

abbrev State := Interleaving.State Client Task

abbrev Move := Interleaving.Move Task Choice

/-- `start_with_token` has just spawned the supervisor. -/
def initial (reconnectable : Bool) : State :=
  ⟨Client.new.startWithToken reconnectable,[.supervisor .start]⟩

def going (i n : ℕ) : List Move := List.replicate n (.run i .go)

/-- The supervisor opens a connection and spawns its five tasks. -/
def opening : List Move := going 0 1 ++ [.run 0 .ok] ++ going 0 11

/-- The stream of reader `i` ends; the supervisor notices it and goes on. -/
def closing (i : ℕ) : List Move := [.run i (.event .ended)] ++ going i 47 ++ going 0 4

def frame (id : UInt32) (payload : List UInt8) : List UInt8 :=
  (Message.new id .lowest "").data ++ payload

/-- Reader `i` handles a `SERVER_READY` frame. -/
def readying (i : ℕ) : List Move :=
  [.run i (.data (frame MessageId.serverReady []))] ++ going i 4

def dbRequest : Task := .request (.called (.new MessageId.dbJobGetById .highest ""))

/-- Thread `i` calls `send_db_request` and gets as far as the returned future. -/
def requesting (i : ℕ) : List Move := [.arrive dbRequest] ++ going i 10

variable {s s' : State} {i : ℕ} {t t' : Task} {c : Choice} {new : List Task}

theorem turn_access (h : Interleaving.Turn system s s' i t c t' new) :
    ∃ n r, act t c = some n ∧ s.shared.perform i n.action = some (s'.shared,r) ∧
      t' = n.resume r ∧ new = n.spawned.toList := by
  have he := h.exec
  simp only [system,exec,Option.bind_eq_some_iff,Option.map_eq_some_iff,Prod.mk.injEq] at he
  obtain ⟨n,hn,⟨x,r⟩,hr,hx,ht,hnew⟩ := he
  obtain rfl : x = s'.shared := hx
  exact ⟨n,r,hn,hr,ht.symm,hnew.symm⟩

theorem turn_of_access {n : Next} {x : Client} {r : n.action.Answer}
    (hi : s.threads[i]? = some t) (hact : act t c = some n)
    (h : s.shared.perform i n.action = some (x,r)) :
    ∃ s', s'.shared = x ∧
      Interleaving.Turn system s s' i t c (n.resume r) n.spawned.toList :=
  ⟨⟨x,s.threads.set i (n.resume r) ++ n.spawned.toList⟩,rfl,hi,by simp [system,exec,hact,h],rfl⟩

theorem entry_cases {u : Task} (h : entry u = true) :
    (∃ source data priority, u = .queueing (.called source data priority) none) ∨
      ∃ message, u = .request (.called message) := by
  unfold entry at h
  split at h
  · exact .inl ⟨_,_,_,rfl⟩
  · exact .inr ⟨_,rfl⟩
  · cases h

section Shapes

variable {conn : ℕ} {n : Next}

theorem queueMessage_shape {request : Option UInt32} {pc : QueuePc}
    (h : queueMessage request pc c = some n) (r : n.action.Answer) :
    (∃ pc', n.resume r = .queueing pc' request) ∨ n.resume r = afterQueue request := by
  cases pc <;> cases c <;> cases h
  case check.go.refl =>
    dsimp only
    split
    · exact .inr rfl
    · exact .inl ⟨_,rfl⟩
  all_goals first | exact .inl ⟨_,rfl⟩ | exact .inr rfl

theorem handleDisconnect_shape {caller : Caller} {pc : DisconnectPc}
    (h : handleDisconnect conn caller pc c = some n) (r : n.action.Answer) :
    (∃ pc', n.resume r = .disconnecting conn pc' caller) ∨
      n.resume r = afterDisconnect conn caller := by
  unfold handleDisconnect at h
  split at h <;> cases h <;> dsimp only <;> (try split) <;>
    first | exact .inl ⟨_,rfl⟩ | exact .inr rfl

/-- The steps of `supervise_connections`: the place, the access with its answer, and the
place after it. -/
inductive SupervisorStep : SupervisorPc → (a : Action) → a.Answer → SupervisorPc → Prop
  | start (conn : ℕ) : SupervisorStep .start .nextConnection conn (.connecting conn)
  | connected (conn : ℕ) : SupervisorStep (.connecting conn) .skip () (.openClosed conn)
  | refused (conn : ℕ) : SupervisorStep (.connecting conn) .skip () .failClosed
  | openClosed (conn : ℕ) :
      SupervisorStep (.openClosed conn) (.storeClosed false) () (.openReady conn)
  | openReady (conn : ℕ) : SupervisorStep (.openReady conn) (.storeReady false) () (.openPing conn)
  | openPing (conn : ℕ) : SupervisorStep (.openPing conn) (.storePing 0) () (.openPong conn)
  | openPong (conn : ℕ) : SupervisorStep (.openPong conn) (.storePong 0) () (.openWriter conn)
  | openWriter (conn : ℕ) : SupervisorStep (.openWriter conn) (.openWriter conn) ()
      (.spawning conn [.reader,.writer,.scheduler,.pinger,.pruner])
  | spawn (conn : ℕ) (role : Role) (rest : List Role) :
      SupervisorStep (.spawning conn (role :: rest)) .skip () (.spawning conn rest)
  | staffed (conn generation : ℕ) :
      SupervisorStep (.spawning conn []) (.createNotified conn) generation (.waiting conn generation)
  | notified (conn generation : ℕ) :
      SupervisorStep (.waiting conn generation) (.awaitNotified conn generation) () (.leaving conn)
  | leave (conn : ℕ) : SupervisorStep (.leaving conn) (.dropSender conn) () .checkReconnect
  | reconnect : SupervisorStep .checkReconnect .loadReconnectable true .sleeping
  | finish : SupervisorStep .checkReconnect .loadReconnectable false .done
  | failClosed : SupervisorStep .failClosed (.storeClosed true) () .failReady
  | failReady : SupervisorStep .failReady (.storeReady false) () .failReconnect
  | retry : SupervisorStep .failReconnect .loadReconnectable true .sleeping
  | giveUp : SupervisorStep .failReconnect .loadReconnectable false .stopping
  | stop : SupervisorStep .stopping .signalShutdown () .done
  | wake : SupervisorStep .sleeping .skip () .start

theorem superviseConnections_step {pc : SupervisorPc} (h : superviseConnections pc c = some n)
    (r : n.action.Answer) : ∃ pc', n.resume r = .supervisor pc' ∧ SupervisorStep pc n.action r pc' := by
  unfold superviseConnections at h
  split at h <;> cases h
  case h_13 =>
    cases r with
    | false => exact ⟨_,rfl,.finish⟩
    | true => exact ⟨_,rfl,.reconnect⟩
  case h_16 =>
    cases r with
    | false => exact ⟨_,rfl,.giveUp⟩
    | true => exact ⟨_,rfl,.retry⟩
  all_goals exact ⟨_,rfl,by constructor⟩

theorem supervisorStep_of_resume {pc pc' : SupervisorPc} (h : superviseConnections pc c = some n)
    {r : n.action.Answer} (hr : n.resume r = .supervisor pc') : SupervisorStep pc n.action r pc' := by
  obtain ⟨pc'',hr',hstep⟩ := superviseConnections_step h r
  obtain rfl : pc'' = pc' := Task.supervisor.inj (hr'.symm.trans hr)
  exact hstep

theorem readLoop_kind {pc : ReaderPc} (h : readLoop conn pc c = some n) (r : n.action.Answer) :
    (n.resume r).kind = .worker conn .reader := by
  have hevent : ∀ event, (handleEvent conn event).kind = .worker conn .reader := by
    intro event
    cases event <;> rfl
  unfold readLoop at h
  split at h <;> cases h <;> dsimp only <;> (try split) <;> first | exact hevent _ | rfl

theorem writeLoop_kind {pc : WriterPc} (h : writeLoop conn pc c = some n) (r : n.action.Answer) :
    (n.resume r).kind = .worker conn .writer := by
  unfold writeLoop at h
  split at h <;> cases h <;> rfl

theorem schedule_shape {pc : SchedulerPc} (h : schedule conn pc c = some n)
    (r : n.action.Answer) : ∃ pc', n.resume r = .scheduler conn pc' := by
  unfold schedule at h
  split at h <;> cases h <;> dsimp only <;> (try split) <;> exact ⟨_,rfl⟩

theorem pingLoop_kind {pc : PingerPc} (h : pingLoop conn pc c = some n) (r : n.action.Answer) :
    (n.resume r).kind = .worker conn .pinger := by
  unfold pingLoop at h
  split at h <;> cases h <;> dsimp only <;> (try split) <;> rfl

theorem pruneLoop_shape {pc : PrunerPc} (h : pruneLoop conn pc c = some n) (r : n.action.Answer) :
    ∃ pc', n.resume r = .pruner conn pc' := by
  unfold pruneLoop at h
  split at h <;> cases h <;> exact ⟨_,rfl⟩

theorem act_kind (h : act t c = some n) (r : n.action.Answer) : (n.resume r).kind = t.kind := by
  cases t
  case queued => cases h
  case queueing pc request =>
    rcases queueMessage_shape h r with ⟨pc',hr⟩ | hr <;> rw [hr] <;> cases request <;> rfl
  case request pc =>
    simp only [act] at h
    unfold sendDbRequest at h
    split at h <;> cases h <;> rfl
  case disconnecting conn pc caller =>
    rcases handleDisconnect_shape h r with ⟨pc',hr⟩ | hr <;> rw [hr] <;> cases caller <;> rfl
  case supervisor pc =>
    obtain ⟨pc',hr,-⟩ := superviseConnections_step h r
    rw [hr]
    rfl
  case reader conn pc => exact readLoop_kind h r
  case writer conn pc => exact writeLoop_kind h r
  case pinger conn pc => exact pingLoop_kind h r
  case scheduler conn pc =>
    obtain ⟨pc',hr⟩ := schedule_shape h r
    rw [hr]
    rfl
  case pruner conn pc =>
    obtain ⟨pc',hr⟩ := pruneLoop_shape h r
    rw [hr]
    rfl

/-- Every call of `handle_disconnect` starts with its check of the connection id. -/
theorem disconnecting_inv (h : act t c = some n) {r : n.action.Answer} {conn : ℕ}
    {pc : DisconnectPc} {caller : Caller} (hr : n.resume r = .disconnecting conn pc caller) :
    pc = .checkId ∨
      ∃ pc₀, t = .disconnecting conn pc₀ caller ∧ handleDisconnect conn caller pc₀ c = some n := by
  have hevent : ∀ conn' event, handleEvent conn' event = .disconnecting conn pc caller →
      pc = .checkId := by
    intro conn' event hr
    cases event <;> cases hr <;> rfl
  have hkind := act_kind h r
  rw [hr] at hkind
  cases t <;> simp only [Task.kind,reduceCtorEq,Kind.worker.injEq] at hkind
  case queueing pc' request => cases request <;> simp at hkind
  case disconnecting conn' pc₀ caller' =>
    rcases handleDisconnect_shape h r with ⟨pc',hr'⟩ | hr'
    · rw [hr] at hr'
      cases hr'
      exact .inr ⟨pc₀,rfl,h⟩
    · rw [hr] at hr'
      cases caller' <;> cases hr'
      exact .inl rfl
  case reader conn' pc' =>
    simp only [act] at h
    unfold readLoop at h
    split at h <;> cases h <;> dsimp only at hr <;> (try split at hr) <;>
      first | exact .inl (hevent _ _ hr) | cases hr
  case writer conn' pc' =>
    simp only [act] at h
    unfold writeLoop at h
    split at h <;> cases h <;> cases hr
    exact .inl rfl
  case pinger conn' pc' =>
    simp only [act] at h
    unfold pingLoop at h
    split at h <;> cases h <;> dsimp only at hr <;> (try split at hr) <;> cases hr <;>
      exact .inl rfl
  all_goals cases caller <;> simp [Caller.role] at hkind

theorem act_spawned (h : act t c = some n) {u : Task} (hu : n.spawned = some u) :
    ∃ conn role rest, t = .supervisor (.spawning conn (role :: rest)) ∧ u = role.task conn ∧
      n.action = .skip ∧ ∀ r, n.resume r = .supervisor (.spawning conn rest) := by
  cases t <;> simp only [act,reduceCtorEq] at h
  case supervisor pc =>
    unfold superviseConnections at h
    split at h <;> cases h <;> simp only [reduceCtorEq,Option.some.injEq] at hu
    exact ⟨_,_,_,rfl,hu.symm,rfl,fun _ => rfl⟩
  case queueing => unfold queueMessage at h; split at h <;> cases h <;> cases hu
  case request => unfold sendDbRequest at h; split at h <;> cases h <;> cases hu
  case disconnecting => unfold handleDisconnect at h; split at h <;> cases h <;> cases hu
  case reader => unfold readLoop at h; split at h <;> cases h <;> cases hu
  case writer => unfold writeLoop at h; split at h <;> cases h <;> cases hu
  case scheduler => unfold schedule at h; split at h <;> cases h <;> cases hu
  case pinger => unfold pingLoop at h; split at h <;> cases h <;> cases hu
  case pruner => unfold pruneLoop at h; split at h <;> cases h <;> cases hu

/-- The place in the tasks from which each access that changes the state is made. -/
def Performs (t : Task) : Action → Prop
  | .begin source data priority => ∃ key, t = .queueing (.called source data priority) key
  | .storeClosed false => ∃ conn, t = .supervisor (.openClosed conn)
  | .storeClosed true => t = .supervisor .failClosed
  | .storeReady true => ∃ conn, t = .reader conn .ready
  | .swapClosed conn => ∃ caller, t = .disconnecting conn .swap caller
  | .nextConnection => t = .supervisor .start
  | .nextRequest => ∃ message, t = .request (.fetchId message)
  | .register k => ∃ message, t = .request (.register k message)
  | .unregister k => t = .request (.withdraw k) ∨ t = .request (.expired k)
  | .takePromises => ∃ conn was caller, t = .disconnecting conn (.take was) caller
  | .dropSenders taken => ∃ conn was caller, t = .disconnecting conn (.dropping was taken) caller
  | .respond message frame => ∃ conn, t = .reader conn (.respond frame message)
  | .pollResponse | .elapse | .abandon => ∃ k, t = .request (.awaiting k)
  | .lockPush item => ∃ key, t = .queueing (.lock item) key
  | .lockPop p _ => ∃ conn scan, t = .scheduler conn (.pop scan) ∧ scan.level = p
  | .tryClear p => ∃ conn was caller, t = .disconnecting conn (.clear was p) caller
  | .tryPrune p => ∃ conn, t = .pruner conn (.prune p)
  | .tryPeek p => ∃ conn scan, t = .scheduler conn (.probe scan p)
  | .unlock p => (∃ key, t = .queueing (.unlock p) key) ∨
      (∃ conn was caller, t = .disconnecting conn (.cleared was p) caller) ∨
      (∃ conn scan found, t = .scheduler conn (.popped scan found) ∧ scan.level = p) ∨
      (∃ conn scan higher, t = .scheduler conn (.peeked scan p higher)) ∨
      ∃ conn, t = .pruner conn (.pruned p)
  | .notifyOne => (∃ key, t = .queueing .notify key) ∨ ∃ conn, t = .reader conn .readyNotify
  | .pollNotified => ∃ conn, t = .scheduler conn .poll
  | .resumeNotified => ∃ conn, t = .scheduler conn .parked
  | .notifyDisconnect conn => ∃ caller, t = .disconnecting conn .notify caller
  | .handOver conn item => ∃ scan, t = .scheduler conn (.sending scan item)
  | .receive conn _ => t = .reader conn .next
  | _ => True

theorem act_performs (h : act t c = some n) : Performs t n.action := by
  cases t <;> simp only [act,reduceCtorEq] at h
  case' queueing => unfold queueMessage at h
  case' request => unfold sendDbRequest at h
  case' disconnecting => unfold handleDisconnect at h
  case' supervisor => unfold superviseConnections at h
  case' reader => unfold readLoop at h
  case' writer => unfold writeLoop at h
  case' scheduler => unfold schedule at h
  case' pinger => unfold pingLoop at h
  case' pruner => unfold pruneLoop at h
  all_goals split at h <;> cases h <;> simp [Performs]

end Shapes

end Websocket
end JobControllerClient
