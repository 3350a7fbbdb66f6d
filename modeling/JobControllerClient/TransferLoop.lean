import JobControllerClient.Foundation.StepMachine
import JobControllerClient.Messaging

/-! The download supervisor of `files/mod.rs` as a machine over poll results.
One label is the outcome of one poll of a future: the WebSocket receive half,
the file read, the chunk send or the resume notification. The `select!`s only
decide which of these polls a phase makes. -/
namespace JobControllerClient
namespace TransferLoop

open Messaging

inductive AuthoritativeResult
  | pending
  | primaryError (msg : String)
  | peerTerminal (msg : String)
  | cleanEof
  deriving DecidableEq

def AuthoritativeResult.isPrimary : AuthoritativeResult → Bool
  | .primaryError _ => true
  | _ => false

inductive ChunkState
  | reading | sending
  deriving DecidableEq

inductive LoopStep
  | next
  | setState (state : ChunkState)
  | finish (result : AuthoritativeResult)
  deriving DecidableEq

/-- Received frames; `frame` is the raw frame tungstenite never yields on read. -/
inductive WsMessage
  | binary (data : List UInt8)
  | text (data : String)
  | ping | pong | close | frame

/-- The item type of `ws_receiver.next()`. -/
abbrev Incoming := Option (Except String WsMessage)

inductive IncomingEvent
  | pause | resume | close | eof
  | error (msg : String)
  | ignored
  deriving DecidableEq

def classifyIncoming : Incoming → IncomingEvent
  | none => .eof
  | some (.ok .close) => .close
  | some (.ok (.binary data)) =>
    let msg := Message.fromData data
    if msg.id = MessageId.pauseFileChunkStream then .pause
    else if msg.id = MessageId.resumeFileChunkStream then .resume
    else .ignored
  | some (.ok _) => .ignored
  | some (.error e) => .error e

/-- A control frame as the server builds it: a header and no payload. -/
def controlFrame (id : UInt32) : Incoming :=
  some (.ok (.binary (Message.new id .highest "").data))

structure TransferState where
  authoritative : AuthoritativeResult
  transmittedBytes : ℕ
  expectedSize : ℕ
  pendingChunkBytes : Option (List UInt8)
  pendingChunkLen : ℕ
  deriving DecidableEq

namespace TransferState

def new (expectedSize : ℕ) : TransferState := ⟨.pending,0,expectedSize,none,0⟩

/-- A primary error is only replaced by another primary error. -/
def setAuthoritative (s : TransferState) (result : AuthoritativeResult) : TransferState :=
  if s.authoritative.isPrimary && !result.isPrimary then s
  else { s with authoritative := result }

def primary (s : TransferState) (msg : String) : AuthoritativeResult × TransferState :=
  (.primaryError msg,s.setAuthoritative (.primaryError msg))

def peerTerminal (s : TransferState) (msg : String) : AuthoritativeResult × TransferState :=
  if s.authoritative.isPrimary then (s.authoritative,s)
  else (.peerTerminal msg,{ s with authoritative := .peerTerminal msg })

end TransferState

/-- A Rust allocation never holds more than `isize::MAX` bytes. -/
structure TransferContext where
  uuid : String
  uuid_fits : (utf8 uuid).length < 2^63

def downloadChunkSize : ℕ := 64*1024

/-- What an observer of the transfer can see, oldest first. -/
inductive Event
  | read (bytes : List UInt8)
  | pause
  | resume
  | sendStarted (frame : List UInt8)
  | accepted (frame : List UInt8)
  deriving DecidableEq

/-- The suspension points of the loop. In `sending`, `accepted` tells whether the
sink has taken the item over; in `reporting` an error frame is being sent. -/
inductive Phase
  | drain
  | waiting
  | reading
  | boundary
  | sending (bytes : List UInt8) (chunkLen : ℕ) (accepted : Bool)
  | reporting (frame : List UInt8) (result : AuthoritativeResult)
  | panicked
  | done
  deriving DecidableEq

structure Supervisor where
  state : TransferState
  chunkState : ChunkState
  phase : Phase
  isPaused : Bool
  resumePermit : Bool
  fileOffset : ℕ
  log : List Event
  deriving DecidableEq

/-- The result of one poll. `idle` is a receive half without a ready item, `accept`
is `start_send` inside the chunk send, `flushed` is its successful end. -/
inductive Poll
  | incoming (item : Incoming)
  | idle
  | notified
  | read (bytes : List UInt8)
  | readFailed
  | accept
  | flushed
  | sendFailed
  | reported (accepted : Bool)

namespace Supervisor

def start (fileSize : ℕ) : Supervisor :=
  ⟨.new fileSize,.reading,.drain,false,false,0,[]⟩

def advance (s : Supervisor) : LoopStep → Supervisor
  | .next => { s with phase := .drain }
  | .setState next => { s with chunkState := next, phase := .drain }
  | .finish result => { s with state := s.state.setAuthoritative result, phase := .done }

/-- `notify_one` finds no waiter, since `select!` has dropped the losing futures. -/
def handleIncomingEvent (s : Supervisor) (item : Incoming) : LoopStep × Supervisor :=
  match classifyIncoming item with
  | .pause => (.next,{ s with isPaused := true, log := s.log ++ [.pause] })
  | .resume => (.next,{ s with isPaused := false, resumePermit := true, log := s.log ++ [.resume] })
  | .close =>
    let r := s.state.peerTerminal "peer Close"
    (.finish r.1,{ s with state := r.2 })
  | .eof =>
    let r := s.state.peerTerminal "peer EOF"
    (.finish r.1,{ s with state := r.2 })
  | .error msg =>
    let r := s.state.peerTerminal ("peer receive error: " ++ msg)
    (.finish r.1,{ s with state := r.2 })
  | .ignored => (.next,s)

def dispatch (s : Supervisor) (item : Incoming) : Supervisor :=
  let r := s.handleIncomingEvent item
  r.2.advance r.1

end Supervisor

def chunkMessage (ctx : TransferContext) (bytes : List UInt8) : List UInt8 :=
  ((Message.new MessageId.fileChunk .highest ctx.uuid).pushBytes bytes).data

def errorMessage (ctx : TransferContext) (msg : String) : List UInt8 :=
  ((Message.new MessageId.fileDownloadError .highest ctx.uuid).pushString msg).data

namespace Supervisor

/-- After `drain_pending_incoming` found nothing more: the pause guard shared by
both phases, then the read is armed or the pending chunk is taken for sending. -/
def afterDrain (s : Supervisor) : Supervisor :=
  if s.isPaused then { s with phase := .waiting }
  else match s.chunkState with
  | .reading => { s with phase := .reading }
  | .sending => match s.state.pendingChunkBytes with
    | none => { s with phase := .panicked }
    | some bytes => { s with
        state := { s.state with pendingChunkBytes := none }
        phase := .sending bytes s.state.pendingChunkLen false
        log := s.log ++ [.sendStarted bytes] }

/-- The zero-byte read: a clean boundary, or a size mismatch to report. -/
def endOfFile (ctx : TransferContext) (s : Supervisor) : Supervisor :=
  let expected := s.state.expectedSize
  let transmitted := s.state.transmittedBytes
  if transmitted = expected ∧ !s.state.authoritative.isPrimary then { s with phase := .boundary }
  else
    let frame := errorMessage ctx s!"File size mismatch: expected {expected}, got {transmitted}"
    let msg := s!"unexpected EOF: transmitted {transmitted} of {expected} bytes"
    { s with phase := .reporting frame (.primaryError msg) }

def chunkRead (ctx : TransferContext) (s : Supervisor) (bytes : List UInt8) : Supervisor :=
  let armed : Supervisor := { s with
    state := { s.state with
      pendingChunkBytes := some (chunkMessage ctx bytes)
      pendingChunkLen := bytes.length }
    fileOffset := s.fileOffset + bytes.length
    log := s.log ++ [.read bytes] }
  armed.advance (.setState .sending)

/-- The send resolved: the only place where transmitted bytes are counted. -/
def chunkSent (s : Supervisor) (chunkLen : ℕ) : Supervisor :=
  let counted : Supervisor := { s with state := { s.state with
    pendingChunkBytes := none
    pendingChunkLen := 0
    transmittedBytes := (s.state.transmittedBytes + chunkLen) % 2^64 } }
  counted.advance (.setState .reading)

def chunkFailed (s : Supervisor) : Supervisor :=
  let cleared : TransferState := { s.state with pendingChunkBytes := none, pendingChunkLen := 0 }
  let r := cleared.primary "chunk send failed"
  { s with state := r.2 }.advance (.finish r.1)

/-- The single poll at the clean boundary; a control frame does not fail the transfer. -/
def atBoundary (s : Supervisor) : Option Incoming → Supervisor
  | some (some (.ok .close)) =>
    let r := s.state.peerTerminal "peer Close"
    { s with state := r.2 }.advance (.finish r.1)
  | some (some (.error _)) | some none =>
    let r := s.state.peerTerminal "peer EOF"
    { s with state := r.2 }.advance (.finish r.1)
  | some (some (.ok _)) | none => s.advance (.finish .cleanEof)

/-- One poll result. A read fills at most the buffer, and file offsets are `i64`. -/
def step (ctx : TransferContext) (s : Supervisor) (p : Poll) : Option Supervisor :=
  match s.phase, p with
  | .drain, .incoming item =>
    let r := s.handleIncomingEvent item
    some (if r.1 = .next then r.2 else r.2.advance r.1)
  | .drain, .idle => some s.afterDrain
  | .waiting, .incoming item => some (s.dispatch item)
  | .waiting, .notified =>
    if s.resumePermit && s.isPaused then
      some ({ s with resumePermit := false, isPaused := false }.advance .next)
    else none
  | .reading, .incoming item => some (s.dispatch item)
  | .reading, .read bytes =>
    if bytes = [] then some (s.endOfFile ctx)
    else if bytes.length ≤ downloadChunkSize ∧ s.fileOffset + bytes.length < 2^63 then
      some (s.chunkRead ctx bytes)
    else none
  | .reading, .readFailed =>
    let frame := errorMessage ctx "Exception reading file"
    some { s with phase := .reporting frame (.primaryError "file read failed") }
  | .boundary, .incoming item => some (s.atBoundary (some item))
  | .boundary, .idle => some (s.atBoundary none)
  | .sending bytes chunkLen false, .accept =>
    some { s with phase := .sending bytes chunkLen true, log := s.log ++ [.accepted bytes] }
  | .sending _ chunkLen true, .flushed => some (s.chunkSent chunkLen)
  | .sending _ _ _, .sendFailed => some s.chunkFailed
  | .sending bytes _ _, .incoming item =>
    some ({ s with state := { s.state with pendingChunkBytes := some bytes } }.dispatch item)
  | .reporting frame result, .reported accepted =>
    let log := if accepted then s.log ++ [.accepted frame] else s.log
    some ({ s with log := log }.advance (.finish result))
  | _, _ => none

end Supervisor

/-- `run_transfer_loop`, one poll a step. -/
def machine (ctx : TransferContext) : StepMachine Supervisor Poll := ⟨Supervisor.step ctx⟩

def terminal : IncomingEvent → Bool
  | .close | .eof | .error _ => true
  | _ => false

theorem handleIncomingEvent_phase (s : Supervisor) (item : Incoming) :
    (s.handleIncomingEvent item).2.phase = s.phase := by
  unfold Supervisor.handleIncomingEvent
  split <;> rfl

theorem advance_next {s : Supervisor} (h : s.phase = .drain) : s.advance .next = s := by
  rw [Supervisor.advance,← h]

theorem drain_incoming (ctx : TransferContext) (s : Supervisor) (item : Incoming)
    (h : s.phase = .drain) : (machine ctx).step s (.incoming item) = some (s.dispatch item) := by
  have hphase := (handleIncomingEvent_phase s item).trans h
  obtain ⟨state,chunkState,phase,isPaused,resumePermit,fileOffset,log⟩ := s
  subst h
  change some (if _ = LoopStep.next then _ else _) = _
  rw [Supervisor.dispatch]
  split
  · rename_i hn
    rw [hn,advance_next hphase]
  · rfl

theorem dispatch_phase (s : Supervisor) (item : Incoming) :
    (s.dispatch item).phase = if terminal (classifyIncoming item) then .done else .drain := by
  unfold Supervisor.dispatch Supervisor.handleIncomingEvent
  cases classifyIncoming item <;> rfl

theorem step_sending {ctx : TransferContext} {s t : Supervisor} {frame : List UInt8} {len : ℕ}
    {taken : Bool} {poll : Poll}
    (hp : s.phase = .sending frame len taken) (hs : (machine ctx).step s poll = some t) :
    (poll = .accept ∧ taken = false ∧
      t = { s with phase := .sending frame len true, log := s.log ++ [.accepted frame] }) ∨
    (poll = .flushed ∧ taken = true ∧ t = s.chunkSent len) ∨
    (poll = .sendFailed ∧ t = s.chunkFailed) ∨
    (∃ item, poll = .incoming item ∧
      t = { s with state := { s.state with pendingChunkBytes := some frame } }.dispatch item) := by
  obtain ⟨state,chunkState,phase,isPaused,resumePermit,fileOffset,log⟩ := s
  subst hp
  cases poll with
  | accept =>
    cases taken
    · cases hs
      exact .inl ⟨rfl,rfl,rfl⟩
    · cases hs
  | flushed =>
    cases taken
    · cases hs
    · cases hs
      exact .inr (.inl ⟨rfl,rfl,rfl⟩)
  | sendFailed =>
    cases taken <;> cases hs <;> exact .inr (.inr (.inl ⟨rfl,rfl⟩))
  | incoming item =>
    cases taken <;> cases hs <;> exact .inr (.inr (.inr ⟨item,rfl,rfl⟩))
  | _ => cases taken <;> cases hs

theorem step_drain {ctx : TransferContext} {s t : Supervisor} {poll : Poll}
    (hp : s.phase = .drain) (hs : (machine ctx).step s poll = some t) :
    (∃ item, poll = .incoming item ∧ t = s.dispatch item) ∨ (poll = .idle ∧ t = s.afterDrain) := by
  have hitem := fun item => drain_incoming ctx s item hp
  obtain ⟨state,chunkState,phase,isPaused,resumePermit,fileOffset,log⟩ := s
  subst hp
  cases poll with
  | incoming item =>
    rw [hitem] at hs
    exact .inl ⟨item,rfl,(Option.some.inj hs).symm⟩
  | idle => exact .inr ⟨rfl,(Option.some.inj hs).symm⟩
  | _ => cases hs

theorem step_waiting {ctx : TransferContext} {s t : Supervisor} {poll : Poll}
    (hp : s.phase = .waiting) (hs : (machine ctx).step s poll = some t) :
    (∃ item, poll = .incoming item ∧ t = s.dispatch item) ∨
    (poll = .notified ∧ t = { s with resumePermit := false, isPaused := false }.advance .next) := by
  obtain ⟨state,chunkState,phase,isPaused,resumePermit,fileOffset,log⟩ := s
  subst hp
  cases poll with
  | incoming item => exact .inl ⟨item,rfl,(Option.some.inj hs).symm⟩
  | notified =>
    change (if _ then some _ else none) = some t at hs
    split at hs
    · exact .inr ⟨rfl,(Option.some.inj hs).symm⟩
    · cases hs
  | _ => cases hs

theorem step_reading {ctx : TransferContext} {s t : Supervisor} {poll : Poll}
    (hp : s.phase = .reading) (hs : (machine ctx).step s poll = some t) :
    (∃ item, poll = .incoming item ∧ t = s.dispatch item) ∨
    (poll = .read [] ∧ t = s.endOfFile ctx) ∨
    (∃ bytes, poll = .read bytes ∧ bytes ≠ [] ∧ bytes.length ≤ downloadChunkSize ∧
      s.fileOffset + bytes.length < 2^63 ∧ t = s.chunkRead ctx bytes) ∨
    (poll = .readFailed ∧ t = { s with
      phase := .reporting (errorMessage ctx "Exception reading file")
        (.primaryError "file read failed") }) := by
  obtain ⟨state,chunkState,phase,isPaused,resumePermit,fileOffset,log⟩ := s
  subst hp
  cases poll with
  | incoming item => exact .inl ⟨item,rfl,(Option.some.inj hs).symm⟩
  | read bytes =>
    change (if _ then some _ else if _ then some _ else none) = some t at hs
    split at hs
    · rename_i he
      exact .inr (.inl ⟨by rw [he],(Option.some.inj hs).symm⟩)
    · rename_i hne
      split at hs
      · rename_i hfit
        exact .inr (.inr (.inl ⟨bytes,rfl,hne,hfit.1,hfit.2,(Option.some.inj hs).symm⟩))
      · cases hs
  | readFailed => exact .inr (.inr (.inr ⟨rfl,(Option.some.inj hs).symm⟩))
  | _ => cases hs

theorem step_boundary {ctx : TransferContext} {s t : Supervisor} {poll : Poll}
    (hp : s.phase = .boundary) (hs : (machine ctx).step s poll = some t) :
    ∃ item, t = s.atBoundary item := by
  obtain ⟨state,chunkState,phase,isPaused,resumePermit,fileOffset,log⟩ := s
  subst hp
  cases poll with
  | incoming item => exact ⟨some item,(Option.some.inj hs).symm⟩
  | idle => exact ⟨none,(Option.some.inj hs).symm⟩
  | _ => cases hs

theorem step_reporting {ctx : TransferContext} {s t : Supervisor} {frame : List UInt8}
    {result : AuthoritativeResult} {poll : Poll} (hp : s.phase = .reporting frame result)
    (hs : (machine ctx).step s poll = some t) :
    ∃ log, t = { s with log := log }.advance (.finish result) := by
  obtain ⟨state,chunkState,phase,isPaused,resumePermit,fileOffset,log⟩ := s
  subst hp
  cases poll with
  | reported accepted => exact ⟨_,(Option.some.inj hs).symm⟩
  | _ => cases hs

theorem step_done (ctx : TransferContext) {s : Supervisor} (h : s.phase = .done) (poll : Poll) :
    (machine ctx).step s poll = none := by
  obtain ⟨state,chunkState,phase,isPaused,resumePermit,fileOffset,log⟩ := s
  subst h
  cases poll <;> rfl

theorem atBoundary_phase (s : Supervisor) (item : Option Incoming) :
    (s.atBoundary item).phase = .done := by
  unfold Supervisor.atBoundary
  split <;> rfl

/-- A terminal item ends the loop at once, wherever it is received. -/
theorem step_terminal {ctx : TransferContext} {s t : Supervisor} {item : Incoming}
    (hs : (machine ctx).step s (.incoming item) = some t)
    (hterm : terminal (classifyIncoming item) = true) : t.phase = .done := by
  have hdone : ∀ s : Supervisor, (s.dispatch item).phase = .done := fun s => by
    simp [dispatch_phase,hterm]
  cases hp : s.phase with
  | drain =>
    rw [drain_incoming ctx s item hp] at hs
    exact Option.some.inj hs ▸ hdone s
  | sending frame len taken =>
    obtain ⟨h,-⟩ | ⟨h,-⟩ | ⟨h,-⟩ | ⟨item',h,rfl⟩ := step_sending hp hs <;> cases h
    exact hdone _
  | boundary =>
    obtain ⟨item',rfl⟩ := step_boundary hp hs
    exact atBoundary_phase s item'
  | waiting =>
    obtain ⟨item',h,rfl⟩ | ⟨h,-⟩ := step_waiting hp hs <;> cases h
    exact hdone s
  | reading =>
    obtain ⟨item',h,rfl⟩ | ⟨h,-⟩ | ⟨bytes,h,-⟩ | ⟨h,-⟩ := step_reading hp hs <;> cases h
    exact hdone s
  | reporting frame result =>
    obtain ⟨log,rfl⟩ := step_reporting hp hs
    rfl
  | panicked =>
    obtain ⟨state,chunkState,phase,isPaused,resumePermit,fileOffset,log⟩ := s
    subst hp
    cases hs
  | done =>
    rw [step_done ctx hp] at hs
    cases hs

end TransferLoop
end JobControllerClient
