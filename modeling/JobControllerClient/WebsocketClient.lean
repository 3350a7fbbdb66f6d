import Mathlib.Data.List.AList
import JobControllerClient.Foundation.Notify
import JobControllerClient.Messaging

/-! The state that the tasks of `TungsteniteWebsocketClient` share, and the atomic
accesses they make to it: one access is one load, store or exchange of an atomic, one
acquire, `try_lock` or release of a queue mutex, one section of the promise map, or
one operation on a channel or `Notify`. -/
namespace JobControllerClient
namespace Websocket

open Messaging

def priorityLevels : ℕ := 20

/-- A queued message. `caller` made the `queue_message` call, and `born` disconnects
had been marked when that call began. -/
structure Item where
  source : String
  data : List UInt8
  priority : Priority
  caller : ℕ
  born : ℕ
  deriving DecidableEq

/-- One bucket of the priority queue with the thread that holds its mutex. -/
structure Level where
  holder : Option ℕ
  sources : AList fun _ : String => List Item

namespace Level

def new : Level := ⟨none,∅⟩

def items (l : Level) : List Item := l.sources.entries.flatMap fun e => e.2

def hasData (l : Level) : Bool := l.sources.entries.any fun e => !e.2.isEmpty

def push (l : Level) (item : Item) : Level :=
  ⟨l.holder,l.sources.insert item.source ((l.sources.lookup item.source).getD [] ++ [item])⟩

/-- The scheduler takes the front of the first non-empty source it meets; the order of
the map is arbitrary, so the source is a choice. -/
def pop (l : Level) : Option String → Option (Option Item × Level)
  | none => if l.hasData then none else some (none,l)
  | some source => match l.sources.lookup source with
    | some (item :: rest) => some (some item,⟨l.holder,l.sources.insert source rest⟩)
    | _ => none

def clear (l : Level) : Level := { l with sources := ∅ }

def prune (l : Level) : Level where
  holder := l.holder
  sources := ⟨l.sources.entries.filter fun e => !e.2.isEmpty,
    l.sources.nodupKeys.sublist List.filter_sublist⟩

variable {l l' : Level} {item other : Item}

theorem mem_items : item ∈ l.items ↔ ∃ source q, l.sources.lookup source = some q ∧ item ∈ q := by
  simp only [items,List.mem_flatMap]
  constructor
  · rintro ⟨⟨source,q⟩,he,hq⟩
    exact ⟨source,q,AList.mem_lookup_iff.mpr he,hq⟩
  · rintro ⟨source,q,hl,hq⟩
    exact ⟨⟨source,q⟩,AList.mem_lookup_iff.mp hl,hq⟩

theorem hasData_iff : l.hasData = true ↔ ∃ item, item ∈ l.items := by
  simp only [hasData,items,List.any_eq_true,List.mem_flatMap,Bool.not_eq_true',
    List.isEmpty_eq_false_iff_exists_mem]
  constructor
  · rintro ⟨e,he,item,hi⟩
    exact ⟨item,e,he,hi⟩
  · rintro ⟨item,e,he,hi⟩
    exact ⟨e,he,item,hi⟩

theorem mem_items_insert {source : String} {q : List Item} {holder : Option ℕ} :
    other ∈ (⟨holder,l.sources.insert source q⟩ : Level).items ↔
      other ∈ q ∨ ∃ s r, s ≠ source ∧ l.sources.lookup s = some r ∧ other ∈ r := by
  rw [mem_items]
  constructor
  · rintro ⟨s,r,hs,hr⟩
    by_cases hsource : s = source
    · subst hsource
      rw [AList.lookup_insert,Option.some.injEq] at hs
      exact .inl (hs ▸ hr)
    · rw [AList.lookup_insert_ne hsource] at hs
      exact .inr ⟨s,r,hsource,hs,hr⟩
  · rintro (hq | ⟨s,r,hsource,hs,hr⟩)
    · exact ⟨source,q,AList.lookup_insert _,hq⟩
    · exact ⟨s,r,by rwa [AList.lookup_insert_ne hsource],hr⟩

theorem mem_items_push : other ∈ (l.push item).items ↔ other = item ∨ other ∈ l.items := by
  rw [push,mem_items_insert,mem_items,List.mem_append,List.mem_singleton]
  constructor
  · rintro ((hold | hnew) | ⟨s,r,-,hs,hr⟩)
    · cases hl : l.sources.lookup item.source with
      | none => simp [hl] at hold
      | some q => exact .inr ⟨_,q,hl,by simpa [hl] using hold⟩
    · exact .inl hnew
    · exact .inr ⟨s,r,hs,hr⟩
  · rintro (hnew | ⟨s,q,hs,hq⟩)
    · exact .inl (.inr hnew)
    · by_cases hsource : s = item.source
      · subst hsource
        exact .inl (.inl (by simpa [hs] using hq))
      · exact .inr ⟨s,q,hsource,hs,hq⟩

theorem exists_pop (l : Level) : ∃ source r, l.pop source = some r := by
  by_cases hdata : l.hasData = true
  · obtain ⟨item,hitem⟩ := hasData_iff.mp hdata
    obtain ⟨source,q,hlookup,hmem⟩ := mem_items.mp hitem
    cases q with
    | nil => cases hmem
    | cons first rest => exact ⟨some source,_,by rw [pop,hlookup]⟩
  · exact ⟨none,_,if_neg hdata⟩

theorem pop_none {source : Option String} (h : l.pop source = some (none,l')) :
    l' = l ∧ l.hasData = false := by
  cases source with
  | none =>
    simp only [pop] at h
    split at h
    · cases h
    · rename_i hdata
      simp only [Option.some.injEq,Prod.mk.injEq,true_and] at h
      exact ⟨h.symm,by simpa using hdata⟩
  | some source =>
    simp only [pop] at h
    split at h <;> simp at h

theorem pop_some {source : Option String} (h : l.pop source = some (some item,l')) :
    item ∈ l.items ∧ ∀ other ∈ l'.items, other ∈ l.items := by
  cases source with
  | none =>
    simp only [pop] at h
    split at h <;> simp at h
  | some source =>
    simp only [pop] at h
    split at h
    · rename_i first rest hs
      simp only [Option.some.injEq,Prod.mk.injEq] at h
      obtain ⟨rfl,rfl⟩ := h
      refine ⟨mem_items.mpr ⟨source,_,hs,by simp⟩,fun other ho => mem_items.mpr ?_⟩
      rcases mem_items_insert.mp ho with hr | ⟨s,r,-,hl,hr⟩
      · exact ⟨source,_,hs,by simp [hr]⟩
      · exact ⟨s,r,hl,hr⟩
    · cases h

theorem pop_perm {source : Option String} (h : l.pop source = some (some item,l')) :
    l.items.Perm (item :: l'.items) := by
  cases source with
  | none =>
    simp only [pop] at h
    split at h <;> simp at h
  | some source =>
    simp only [pop] at h
    split at h
    · rename_i first rest hs
      simp only [Option.some.injEq,Prod.mk.injEq] at h
      obtain ⟨rfl,rfl⟩ := h
      have hkey : source ∈ l.sources.entries.keys := AList.lookup_isSome.mp (hs ▸ rfl)
      obtain ⟨q,before,after,-,hentries,herase⟩ := List.exists_of_kerase hkey
      have hq : q = first :: rest := by
        have hmem : (⟨source,q⟩ : Sigma fun _ : String => List Item) ∈ l.sources.entries := by
          rw [hentries]
          exact List.mem_append_right _ List.mem_cons_self
        exact Option.some.inj ((AList.mem_lookup_iff.mpr hmem).symm.trans hs)
      have hinsert : (l.sources.insert source rest).entries = ⟨source,rest⟩ :: (before ++ after) := by
        rw [AList.entries_insert,herase]
      simp only [items,hinsert,hentries,hq,List.flatMap_cons,List.flatMap_append,List.cons_append]
      exact List.perm_middle.trans (.cons _ (List.perm_append_comm_assoc _ _ _))
    · cases h

theorem hasData_eq_false : l.hasData = false ↔ l.items = [] := by
  rw [← Bool.not_eq_true,hasData_iff,List.eq_nil_iff_forall_not_mem,not_exists]

@[simp] theorem hasData_holder (h : Option ℕ) :
    ({ l with holder := h } : Level).hasData = l.hasData := rfl

@[simp] theorem items_clear : l.clear.items = [] := rfl

@[simp] theorem items_holder (h : Option ℕ) : ({ l with holder := h } : Level).items = l.items :=
  rfl

theorem mem_items_prune : item ∈ l.prune.items ↔ item ∈ l.items := by
  simp only [prune,items,List.mem_flatMap,List.mem_filter,Bool.not_eq_true',
    List.isEmpty_eq_false_iff_exists_mem]
  constructor
  · rintro ⟨e,⟨he,-⟩,hi⟩
    exact ⟨e,he,hi⟩
  · rintro ⟨e,he,hi⟩
    exact ⟨e,⟨he,item,hi⟩,hi⟩

end Level

/-- The channel of one database request: the sender lies in the promise map, the
receiver in the future that `send_db_request` returns. -/
inductive Oneshot
  | unused
  | waiting
  | answered (message : Message) (frame : ℕ)
  | senderDropped
  | receiverDropped

namespace Oneshot

/-- `tx.send`, which fails when the receiver is gone. -/
def send (message : Message) (frame : ℕ) : Oneshot → Oneshot
  | .waiting => .answered message frame
  | c => c

def dropSender : Oneshot → Oneshot
  | .waiting => .senderDropped
  | c => c

end Oneshot

inductive Outgoing
  | binary (item : Item)
  | ping
  deriving DecidableEq

/-- The channel to the writer of one connection; `senders` counts its live handles. -/
structure WriterChannel where
  pending : List Outgoing
  receiver : Bool
  senders : ℕ

/-- A data frame as it came in: `current` is the connection id at that moment. -/
structure Received where
  conn : ℕ
  current : ℕ
  data : List UInt8

/-- The shared state. `disconnectNotify n` counts the `notify_waiters` calls on the
`Notify` of connection `n`; the last three fields only record what has happened. -/
structure Client where
  serverReady : Bool
  connectionClosed : Bool
  reconnectable : Bool
  connectionId : ℕ
  pingTimestamp : ℤ
  pongTimestamp : ℤ
  dbRequestCounter : UInt32
  dbRequestPromises : AList fun _ : UInt32 => ℕ
  channels : ℕ → Oneshot
  queue : ℕ → Level
  dataReady : Notify
  disconnectNotify : ℕ → ℕ
  writers : ℕ → WriterChannel
  shutdown : Bool
  received : List Received
  disconnects : List ℕ
  handed : List (Item × ℕ)

namespace Client

/-- `new_internal`. -/
def new : Client where
  serverReady := false
  connectionClosed := false
  reconnectable := false
  connectionId := 0
  pingTimestamp := 0
  pongTimestamp := 0
  dbRequestCounter := 0
  dbRequestPromises := ∅
  channels := fun _ => .unused
  queue := fun _ => .new
  dataReady := .new
  disconnectNotify := fun _ => 0
  writers := fun _ => ⟨[],false,0⟩
  shutdown := false
  received := []
  disconnects := []
  handed := []

/-- `start_with_token`, called once before any task exists. -/
def startWithToken (x : Client) (reconnectable : Bool) : Client :=
  { x with reconnectable, connectionClosed := false, serverReady := false }

def setLevel (x : Client) (p : ℕ) (l : Level) : Client :=
  { x with queue := Function.update x.queue p l }

def setChannel (x : Client) (i : ℕ) (c : Oneshot) : Client :=
  { x with channels := Function.update x.channels i c }

def setWriter (x : Client) (conn : ℕ) (w : WriterChannel) : Client :=
  { x with writers := Function.update x.writers conn w }

/-- Apply `f` to the channel whose sender is registered under `k`. -/
def onOwner (x : Client) (k : UInt32) (f : Oneshot → Oneshot) (j : ℕ) : Oneshot :=
  if x.dbRequestPromises.lookup k = some j then f (x.channels j) else x.channels j

/-- `promises.insert`, which drops the sender it replaces. -/
def register (x : Client) (k : UInt32) (i : ℕ) : Client :=
  { x with
    dbRequestPromises := x.dbRequestPromises.insert k i
    channels := Function.update (x.onOwner k .dropSender) i .waiting }

/-- `promises.remove`, whose result is dropped. -/
def unregister (x : Client) (k : UInt32) : Client :=
  { x with
    dbRequestPromises := x.dbRequestPromises.erase k
    channels := x.onOwner k .dropSender }

/-- The `DB_RESPONSE` section of `handle_message`. -/
def respond (x : Client) (message : Message) (frame : ℕ) : Client :=
  { x with
    dbRequestPromises := x.dbRequestPromises.erase message.popUint.1
    channels := x.onOwner message.popUint.1 (.send message.popUint.2 frame) }

def dropSenders (x : Client) (taken : List ℕ) : Client :=
  { x with channels := fun j => if j ∈ taken then (x.channels j).dropSender else x.channels j }

end Client

/-- The atomic accesses. `begin` only names the moment a `queue_message` call starts. -/
inductive Action
  | skip
  | begin (source : String) (data : List UInt8) (priority : Priority)
  | loadClosed
  | loadReady
  | loadReconnectable
  | loadId
  | storeClosed (value : Bool)
  | storeReady (value : Bool)
  | swapClosed (conn : ℕ)
  | nextConnection
  | loadPing
  | loadPong
  | storePing (value : ℤ)
  | storePong (value : ℤ)
  | nextRequest
  | register (k : UInt32)
  | unregister (k : UInt32)
  | takePromises
  | dropSenders (taken : List ℕ)
  | respond (message : Message) (frame : ℕ)
  | pollResponse
  | elapse
  | abandon
  | lockPush (item : Item)
  | lockPop (p : ℕ) (source : Option String)
  | tryClear (p : ℕ)
  | tryPrune (p : ℕ)
  | tryPeek (p : ℕ)
  | unlock (p : ℕ)
  | notifyOne
  | pollNotified
  | resumeNotified
  | notifyDisconnect (conn : ℕ)
  | createNotified (conn : ℕ)
  | awaitNotified (conn generation : ℕ)
  | openWriter (conn : ℕ)
  | handOver (conn : ℕ) (item : Item)
  | sendPing (conn : ℕ)
  | recv (conn : ℕ)
  | recvClosed (conn : ℕ)
  | dropReceiver (conn : ℕ)
  | dropSender (conn : ℕ)
  | receive (conn : ℕ) (data : List UInt8)
  | signalShutdown

@[reducible] def Action.Answer : Action → Type
  | .begin .. => Item
  | .loadClosed | .loadReady | .loadReconnectable | .swapClosed _ => Bool
  | .loadId | .nextConnection | .createNotified _ | .receive .. => ℕ
  | .loadPing | .loadPong => ℤ
  | .nextRequest => UInt32
  | .takePromises => List ℕ
  | .pollResponse => Option (Message × ℕ)
  | .lockPop .. => Option Item
  | .tryClear _ | .tryPrune _ => Bool
  | .tryPeek _ => Option Bool
  | .pollNotified | .handOver .. | .sendPing _ => Bool
  | .recv _ => Outgoing
  | _ => Unit

namespace Client

/-- Thread `i` performs one access; `none` while it has to wait. -/
def perform (x : Client) (i : ℕ) : (a : Action) → Option (Client × a.Answer)
  | .skip => some (x,())
  | .begin source data priority => some (x,⟨source,data,priority,i,x.disconnects.length⟩)
  | .loadClosed => some (x,x.connectionClosed)
  | .loadReady => some (x,x.serverReady)
  | .loadReconnectable => some (x,x.reconnectable)
  | .loadId => some (x,x.connectionId)
  | .storeClosed value => some ({ x with connectionClosed := value },())
  | .storeReady value => some ({ x with serverReady := value },())
  | .swapClosed conn => some ({ x with
      connectionClosed := true
      disconnects := x.disconnects ++ [conn] },x.connectionClosed)
  | .nextConnection => some ({ x with connectionId := x.connectionId + 1 },x.connectionId + 1)
  | .loadPing => some (x,x.pingTimestamp)
  | .loadPong => some (x,x.pongTimestamp)
  | .storePing value => some ({ x with pingTimestamp := value },())
  | .storePong value => some ({ x with pongTimestamp := value },())
  | .nextRequest => some ({ x with dbRequestCounter := x.dbRequestCounter + 1 },x.dbRequestCounter)
  | .register k => some (x.register k i,())
  | .unregister k => some (x.unregister k,())
  | .takePromises =>
    some ({ x with dbRequestPromises := ∅ },x.dbRequestPromises.entries.map fun e => e.2)
  | .dropSenders taken => some (x.dropSenders taken,())
  | .respond message frame => some (x.respond message frame,())
  | .pollResponse => match x.channels i with
    | .answered message frame => some (x.setChannel i .receiverDropped,some (message,frame))
    | .senderDropped => some (x.setChannel i .receiverDropped,none)
    | _ => none
  | .elapse => match x.channels i with
    | .waiting => some (x.setChannel i .receiverDropped,())
    | _ => none
  | .abandon => some (x.setChannel i .receiverDropped,())
  | .lockPush item =>
    let l := x.queue item.priority.level
    if l.holder = none then
      some (x.setLevel item.priority.level { l.push item with holder := some i },())
    else none
  | .lockPop p source =>
    if (x.queue p).holder = none then ((x.queue p).pop source).map fun r =>
      (x.setLevel p { r.2 with holder := some i },r.1)
    else none
  | .tryClear p =>
    if (x.queue p).holder = none then
      some (x.setLevel p { (x.queue p).clear with holder := some i },true)
    else some (x,false)
  | .tryPrune p =>
    if (x.queue p).holder = none then
      some (x.setLevel p { (x.queue p).prune with holder := some i },true)
    else some (x,false)
  | .tryPeek p =>
    if (x.queue p).holder = none then
      some (x.setLevel p { x.queue p with holder := some i },some (x.queue p).hasData)
    else some (x,none)
  | .unlock p => some (x.setLevel p { x.queue p with holder := none },())
  | .notifyOne => some ({ x with dataReady := x.dataReady.notifyOne },())
  | .pollNotified =>
    some ({ x with dataReady := (x.dataReady.poll i).2 },(x.dataReady.poll i).1)
  | .resumeNotified => (x.dataReady.resume i).map fun dataReady => ({ x with dataReady },())
  | .notifyDisconnect conn => some ({ x with
      disconnectNotify := Function.update x.disconnectNotify conn
        (x.disconnectNotify conn + 1) },())
  | .createNotified conn => some (x,x.disconnectNotify conn)
  | .awaitNotified conn generation =>
    if generation < x.disconnectNotify conn then some (x,()) else none
  | .openWriter conn => some (x.setWriter conn ⟨[],true,3⟩,())
  | .handOver conn item =>
    let w := x.writers conn
    if w.receiver then some ({ x.setWriter conn { w with pending := w.pending ++ [.binary item] } with
      handed := x.handed ++ [(item,conn)] },true)
    else some (x,false)
  | .sendPing conn =>
    let w := x.writers conn
    if w.receiver then some (x.setWriter conn { w with pending := w.pending ++ [.ping] },true)
    else some (x,false)
  | .recv conn => match (x.writers conn).pending with
    | [] => none
    | first :: rest => some (x.setWriter conn { x.writers conn with pending := rest },first)
  | .recvClosed conn =>
    if (x.writers conn).pending = [] ∧ (x.writers conn).senders = 0 then some (x,()) else none
  | .dropReceiver conn => some (x.setWriter conn { x.writers conn with receiver := false },())
  | .dropSender conn =>
    some (x.setWriter conn { x.writers conn with senders := (x.writers conn).senders - 1 },())
  | .receive conn data =>
    some ({ x with received := x.received ++ [⟨conn,x.connectionId,data⟩] },x.received.length)
  | .signalShutdown => some ({ x with shutdown := true },())

end Client

end Websocket
end JobControllerClient
