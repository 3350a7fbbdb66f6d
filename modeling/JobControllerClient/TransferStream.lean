import JobControllerClient.TransferLoop

/-! Exactness of the download byte stream: which chunk payloads the sink has
accepted, compared with the bytes the file reads returned. -/
namespace JobControllerClient
namespace TransferStream

open Messaging TransferLoop

/-- The payload of a `FILE_CHUNK` frame, as its receiver decodes it. -/
def chunkPayload? (frame : List UInt8) : Option (List UInt8) :=
  let msg := Message.fromData frame
  if msg.id = MessageId.fileChunk then some msg.popBytes.1 else none

def readBytes : Event → Option (List UInt8)
  | .read bytes => some bytes
  | _ => none

def acceptedPayload : Event → Option (List UInt8)
  | .accepted frame => chunkPayload? frame
  | _ => none

def reads (log : List Event) : List (List UInt8) := log.filterMap readBytes

def payloads (log : List Event) : List (List UInt8) := log.filterMap acceptedPayload

@[simp] theorem reads_append (l : List Event) (e : Event) :
    reads (l ++ [e]) = reads l ++ (readBytes e).toList := by
  cases e <;> simp [reads,readBytes]

@[simp] theorem payloads_append (l : List Event) (e : Event) :
    payloads (l ++ [e]) = payloads l ++ (acceptedPayload e).toList := by
  simp only [payloads,List.filterMap_append]
  cases h : acceptedPayload e <;> simp [h]

theorem chunkPayload_chunkMessage (ctx : TransferContext) (bytes : List UInt8)
    (hb : bytes.length < 2^64) : chunkPayload? (chunkMessage ctx bytes) = some bytes := by
  have hu : (utf8 ctx.uuid).length < 2^64 := ctx.uuid_fits.trans (by norm_num)
  have hd : chunkMessage ctx bytes = Message.block (utf8 ctx.uuid) ++
      LittleEndian.encode 4 MessageId.fileChunk.toNat ++ Message.block bytes := by
    simp [chunkMessage]
  have hp := Message.fromData_header MessageId.fileChunk ctx.uuid (Message.block bytes) hu
  rw [← hd] at hp
  have hpop := Message.popBytes_append (b := bytes) (r := [])
    (p := Message.block (utf8 ctx.uuid) ++ LittleEndian.encode 4 MessageId.fileChunk.toNat)
    (m := Message.fromData (chunkMessage ctx bytes)) (by rw [hp]; simp [hd]) (by rw [hp]; simp) hb
  rw [chunkPayload?,hpop,hp]
  simp

/-- From here the loop cannot end with a clean end of file any more. -/
def Stopped (s : Supervisor) : Prop :=
  (∃ frame msg, s.phase = .reporting frame (.primaryError msg)) ∨ s.phase = .panicked ∨
    (s.phase = .done ∧ s.state.authoritative ≠ .cleanEof)

/-- The two supervisors differ at most in flow control and in the phase. -/
structure Quiet (s t : Supervisor) : Prop where
  state : t.state = s.state
  chunkState : t.chunkState = s.chunkState
  fileOffset : t.fileOffset = s.fileOffset
  reads : reads t.log = reads s.log
  payloads : payloads t.log = payloads s.log

theorem peerTerminal_finish (s : TransferState) (msg : String) :
    ((s.peerTerminal msg).2.setAuthoritative (s.peerTerminal msg).1).authoritative ≠ .cleanEof := by
  cases ha : s.authoritative <;>
    simp [TransferState.peerTerminal,TransferState.setAuthoritative,
      AuthoritativeResult.isPrimary,ha]

theorem dispatch_cases (s : Supervisor) (item : Incoming) :
    (terminal (classifyIncoming item) = true ∧ Stopped (s.dispatch item)) ∨
    (terminal (classifyIncoming item) = false ∧ (s.dispatch item).phase = .drain ∧
      Quiet s (s.dispatch item)) := by
  unfold Supervisor.dispatch Supervisor.handleIncomingEvent
  cases classifyIncoming item with
  | pause =>
    exact .inr ⟨rfl,rfl,⟨rfl,rfl,rfl,by simp [Supervisor.advance,readBytes],
      by simp [Supervisor.advance,acceptedPayload]⟩⟩
  | resume =>
    exact .inr ⟨rfl,rfl,⟨rfl,rfl,rfl,by simp [Supervisor.advance,readBytes],
      by simp [Supervisor.advance,acceptedPayload]⟩⟩
  | ignored => exact .inr ⟨rfl,rfl,⟨rfl,rfl,rfl,rfl,rfl⟩⟩
  | close => exact .inl ⟨rfl,.inr (.inr ⟨rfl,peerTerminal_finish _ _⟩)⟩
  | eof => exact .inl ⟨rfl,.inr (.inr ⟨rfl,peerTerminal_finish _ _⟩)⟩
  | error msg => exact .inl ⟨rfl,.inr (.inr ⟨rfl,peerTerminal_finish _ _⟩)⟩

theorem afterDrain_reading {s : Supervisor} (h : s.chunkState = .reading) :
    s.afterDrain = { s with phase := if s.isPaused then .waiting else .reading } := by
  unfold Supervisor.afterDrain
  split
  · rfl
  · simp only [h]

def total (chunks : List (List UInt8)) : ℕ := chunks.flatten.length

@[simp] theorem total_append (a b : List (List UInt8)) : total (a ++ b) = total a + total b := by
  simp [total]

@[simp] theorem total_singleton (p : List UInt8) : total [p] = p.length := by simp [total]

/-- No chunk is outstanding: every read so far has been sent and counted. -/
structure Settled (fileSize : ℕ) (s : Supervisor) : Prop where
  phase : s.phase = .drain ∨ s.phase = .waiting ∨ s.phase = .reading ∨ s.phase = .boundary
  reading : s.chunkState = .reading
  nothingPending : s.state.pendingChunkBytes = none
  expected : s.state.expectedSize = fileSize
  counted : s.state.transmittedBytes = total (reads s.log)
  offset : s.fileOffset = total (reads s.log)
  small : s.fileOffset < 2^63
  complete : s.phase = .boundary → s.state.transmittedBytes = fileSize

/-- The chunk with payload `p` has been read and not been counted; `done` are the
reads before it, and `taken` tells whether the sink holds the armed send's item. -/
structure Armed (ctx : TransferContext) (fileSize : ℕ) (s : Supervisor)
    (done : List (List UInt8)) (p : List UInt8) (taken : Bool) : Prop where
  place : (taken = false ∧ (s.phase = .drain ∨ s.phase = .waiting) ∧
      s.state.pendingChunkBytes = some (chunkMessage ctx p)) ∨
    (s.phase = .sending (chunkMessage ctx p) p.length taken)
  sending : s.chunkState = .sending
  len : s.state.pendingChunkLen = p.length
  nonempty : p ≠ []
  fits : p.length ≤ downloadChunkSize
  reads : reads s.log = done ++ [p]
  expected : s.state.expectedSize = fileSize
  counted : s.state.transmittedBytes = total done
  offset : s.fileOffset = total done + p.length
  small : s.fileOffset < 2^63

structure Finished (fileSize : ℕ) (s : Supervisor) : Prop where
  phase : s.phase = .done
  complete : total (reads s.log) = fileSize

/-- A relation `Q` between accepted payloads and reads, carried through the loop. -/
inductive Tracked (ctx : TransferContext) (fileSize : ℕ)
    (Q : List (List UInt8) → List (List UInt8) → Prop) (s : Supervisor) : Prop
  | settled (h : Settled fileSize s) (hq : Q (payloads s.log) (reads s.log))
  | armed (done : List (List UInt8)) (p : List UInt8) (taken : Bool)
      (h : Armed ctx fileSize s done p taken)
      (hq : Q (payloads s.log) (if taken then done ++ [p] else done))
  | finished (h : Finished fileSize s) (hq : Q (payloads s.log) (reads s.log))
  | stopped (h : Stopped s)

def itemTaken : Phase → Bool
  | .sending _ _ taken => taken
  | _ => false

/-- A frame that does not end the transfer wins the send's `select!` although the sink
already holds the item. -/
def rearms (s : Supervisor) : Poll → Bool
  | .incoming item => itemTaken s.phase && !terminal (classifyIncoming item)
  | _ => false

theorem rearms_iff {s : Supervisor} {poll : Poll} : rearms s poll = true ↔
    ∃ frame len item, s.phase = .sending frame len true ∧ poll = .incoming item ∧
      terminal (classifyIncoming item) = false := by
  cases poll with
  | incoming item => cases hp : s.phase <;> simp [rearms,itemTaken,hp]
  | _ => simp [rearms]

section Step

variable {ctx : TransferContext} {fileSize : ℕ} {Q : List (List UInt8) → List (List UInt8) → Prop}
variable {s t : Supervisor} {done : List (List UInt8)} {p : List UInt8} {taken : Bool}

theorem Settled.rest (h : Settled fileSize s) (q : Quiet s t)
    (hp : t.phase = .drain ∨ t.phase = .waiting ∨ t.phase = .reading) : Settled fileSize t where
  phase := by tauto
  reading := q.chunkState ▸ h.reading
  nothingPending := q.state ▸ h.nothingPending
  expected := q.state ▸ h.expected
  counted := by rw [q.state,q.reads]; exact h.counted
  offset := by rw [q.fileOffset,q.reads]; exact h.offset
  small := q.fileOffset ▸ h.small
  complete hb := by rcases hp with hp | hp | hp <;> rw [hp] at hb <;> cases hb

theorem Armed.rest (h : Armed ctx fileSize s done p taken)
    (q : Quiet { s with state := { s.state with pendingChunkBytes := some (chunkMessage ctx p) } } t)
    (hp : t.phase = .drain ∨ t.phase = .waiting) : Armed ctx fileSize t done p false where
  place := .inl ⟨rfl,hp,by rw [q.state]⟩
  sending := q.chunkState ▸ h.sending
  len := by rw [q.state]; exact h.len
  nonempty := h.nonempty
  fits := h.fits
  reads := by rw [q.reads]; exact h.reads
  expected := by rw [q.state]; exact h.expected
  counted := by rw [q.state]; exact h.counted
  offset := q.fileOffset ▸ h.offset
  small := q.fileOffset ▸ h.small

theorem Quiet.restored {frame : List UInt8} (q : Quiet s t)
    (h : s.state.pendingChunkBytes = some frame) :
    Quiet { s with state := { s.state with pendingChunkBytes := some frame } } t where
  state := by rw [q.state,← h]
  chunkState := q.chunkState
  fileOffset := q.fileOffset
  reads := q.reads
  payloads := q.payloads

theorem tracked_settled_dispatch (h : Settled fileSize s)
    (hq : Q (payloads s.log) (reads s.log)) (item : Incoming) :
    Tracked ctx fileSize Q (s.dispatch item) := by
  rcases dispatch_cases s item with ⟨_,hstop⟩ | ⟨_,hphase,q⟩
  · exact .stopped hstop
  · exact .settled (h.rest q (.inl hphase)) (by rw [q.reads,q.payloads]; exact hq)

theorem tracked_chunkRead (h : Settled fileSize s) (hq : Q (payloads s.log) (reads s.log))
    (hne : p ≠ []) (hfit : p.length ≤ downloadChunkSize) (hoff : s.fileOffset + p.length < 2^63) :
    Tracked ctx fileSize Q (s.chunkRead ctx p) := by
  refine .armed (reads s.log) p false ?_ ?_
  · refine ⟨.inl ⟨rfl,.inl rfl,rfl⟩,rfl,rfl,hne,hfit,?_,h.expected,h.counted,?_,hoff⟩
    · simp [Supervisor.chunkRead,Supervisor.advance,readBytes]
    · simp [Supervisor.chunkRead,Supervisor.advance,h.offset]
  · simpa [Supervisor.chunkRead,Supervisor.advance,acceptedPayload] using hq

theorem atBoundary_cases (h : Settled fileSize s) (hb : s.phase = .boundary)
    (hq : Q (payloads s.log) (reads s.log)) (item : Option Incoming) :
    Tracked ctx fileSize Q (s.atBoundary item) := by
  have hpeer : ∀ msg, Stopped ({ s with state := (s.state.peerTerminal msg).2 }.advance
      (.finish (s.state.peerTerminal msg).1)) :=
    fun msg => .inr (.inr ⟨rfl,peerTerminal_finish _ _⟩)
  have hclean : Tracked ctx fileSize Q (s.advance (.finish .cleanEof)) :=
    .finished ⟨rfl,by rw [← h.complete hb,h.counted]; rfl⟩ hq
  unfold Supervisor.atBoundary
  split
  · exact .stopped (hpeer _)
  · exact .stopped (hpeer _)
  · exact .stopped (hpeer _)
  · exact hclean
  · exact hclean

theorem tracked_endOfFile (h : Settled fileSize s) (hq : Q (payloads s.log) (reads s.log)) :
    Tracked ctx fileSize Q (s.endOfFile ctx) := by
  simp only [Supervisor.endOfFile]
  split
  · rename_i he
    refine .settled ⟨by simp,h.reading,h.nothingPending,h.expected,h.counted,h.offset,h.small,
      fun _ => ?_⟩ hq
    exact he.1.trans h.expected
  · exact .stopped (.inl ⟨_,_,rfl⟩)

theorem tracked_step_settled (h : Settled fileSize s) (hq : Q (payloads s.log) (reads s.log))
    {poll : Poll} (hs : (machine ctx).step s poll = some t) : Tracked ctx fileSize Q t := by
  rcases h.phase with hp | hp | hp | hp
  · rcases step_drain hp hs with ⟨item,_,rfl⟩ | ⟨_,rfl⟩
    · exact tracked_settled_dispatch h hq item
    · rw [afterDrain_reading h.reading]
      exact .settled (h.rest ⟨rfl,rfl,rfl,rfl,rfl⟩ (by dsimp only; split <;> simp)) hq
  · rcases step_waiting hp hs with ⟨item,_,rfl⟩ | ⟨_,rfl⟩
    · exact tracked_settled_dispatch h hq item
    · exact .settled (h.rest ⟨rfl,rfl,rfl,rfl,rfl⟩ (.inl rfl)) hq
  · rcases step_reading hp hs with ⟨item,_,rfl⟩ | ⟨_,rfl⟩ | ⟨bytes,_,hne,hfit,hoff,rfl⟩ | ⟨_,rfl⟩
    · exact tracked_settled_dispatch h hq item
    · exact tracked_endOfFile h hq
    · exact tracked_chunkRead h hq hne hfit hoff
    · exact .stopped (.inl ⟨_,_,rfl⟩)
  · obtain ⟨item,rfl⟩ := step_boundary hp hs
    exact atBoundary_cases h hp hq item

theorem tracked_parked_dispatch (h : Armed ctx fileSize s done p false)
    (hb : s.state.pendingChunkBytes = some (chunkMessage ctx p)) (hq : Q (payloads s.log) done)
    (item : Incoming) : Tracked ctx fileSize Q (s.dispatch item) := by
  rcases dispatch_cases s item with ⟨_,hstop⟩ | ⟨_,hphase,q⟩
  · exact .stopped hstop
  · exact .armed done p false (h.rest (q.restored hb) (.inl hphase)) (by rw [q.payloads]; exact hq)

theorem tracked_parked_afterDrain (h : Armed ctx fileSize s done p false)
    (hb : s.state.pendingChunkBytes = some (chunkMessage ctx p)) (hq : Q (payloads s.log) done) :
    Tracked ctx fileSize Q s.afterDrain := by
  unfold Supervisor.afterDrain
  split
  · exact .armed done p false (h.rest (Quiet.restored ⟨rfl,rfl,rfl,rfl,rfl⟩ hb) (.inr rfl)) hq
  · simp only [h.sending,hb]
    refine .armed done p false ⟨.inr (by simp [h.len]),rfl,h.len,h.nonempty,h.fits,?_,h.expected,
      h.counted,h.offset,h.small⟩ ?_
    · simpa [readBytes] using h.reads
    · simpa [acceptedPayload] using hq

/-- The armed chunk waits for the sink, at a place where its bytes are stored. -/
theorem tracked_step_parked (h : Armed ctx fileSize s done p false)
    (hp : s.phase = .drain ∨ s.phase = .waiting)
    (hb : s.state.pendingChunkBytes = some (chunkMessage ctx p)) (hq : Q (payloads s.log) done)
    {poll : Poll} (hs : (machine ctx).step s poll = some t) : Tracked ctx fileSize Q t := by
  rcases hp with hp | hp
  · rcases step_drain hp hs with ⟨item,_,rfl⟩ | ⟨_,rfl⟩
    · exact tracked_parked_dispatch h hb hq item
    · exact tracked_parked_afterDrain h hb hq
  · rcases step_waiting hp hs with ⟨item,_,rfl⟩ | ⟨_,rfl⟩
    · exact tracked_parked_dispatch h hb hq item
    · exact .armed done p false
        (h.rest (Quiet.restored (s := s) ⟨rfl,rfl,rfl,rfl,rfl⟩ hb) (.inl rfl)) hq

theorem tracked_accept (h : Armed ctx fileSize s done p false)
    (hgrow : ∀ accepted sent q, Q accepted sent → Q (accepted ++ [q]) (sent ++ [q]))
    (hq : Q (payloads s.log) done) :
    Tracked ctx fileSize Q { s with
      phase := .sending (chunkMessage ctx p) p.length true
      log := s.log ++ [.accepted (chunkMessage ctx p)] } := by
  have hlt : p.length < 2^64 := h.fits.trans_lt (by norm_num [downloadChunkSize])
  refine .armed done p true ⟨.inr rfl,h.sending,h.len,h.nonempty,h.fits,?_,h.expected,h.counted,
    h.offset,h.small⟩ ?_
  · simpa [readBytes] using h.reads
  · simpa [acceptedPayload,chunkPayload_chunkMessage ctx p hlt] using hgrow _ _ p hq

theorem tracked_chunkSent (h : Armed ctx fileSize s done p true)
    (hq : Q (payloads s.log) (done ++ [p])) : Tracked ctx fileSize Q (s.chunkSent p.length) := by
  have hsum : total (reads s.log) = total done + p.length := by simp [h.reads]
  have hlt : total done + p.length < 2^64 := by
    have := h.small
    rw [h.offset] at this
    omega
  refine .settled ⟨.inl rfl,rfl,rfl,h.expected,?_,?_,h.small,fun hb => by cases hb⟩
    (by rw [← h.reads] at hq; exact hq)
  · simp only [Supervisor.chunkSent,Supervisor.advance]
    rw [h.counted,Nat.mod_eq_of_lt hlt,hsum]
  · simp only [Supervisor.chunkSent,Supervisor.advance]
    rw [h.offset,hsum]

theorem chunkFailed_stopped (s : Supervisor) : Stopped s.chunkFailed := by
  refine .inr (.inr ⟨rfl,?_⟩)
  simp [Supervisor.chunkFailed,Supervisor.advance,TransferState.primary,
    TransferState.setAuthoritative,AuthoritativeResult.isPrimary]

theorem tracked_step_armed (h : Armed ctx fileSize s done p taken)
    (hgrow : ∀ accepted sent q, Q accepted sent → Q (accepted ++ [q]) (sent ++ [q]))
    (hq : Q (payloads s.log) (if taken then done ++ [p] else done))
    {poll : Poll} (hr : rearms s poll = false) (hs : (machine ctx).step s poll = some t) :
    Tracked ctx fileSize Q t := by
  rcases h.place with ⟨rfl,hp,hb⟩ | hp
  · exact tracked_step_parked h hp hb (by simpa using hq) hs
  · rcases step_sending hp hs with ⟨_,rfl,rfl⟩ | ⟨_,rfl,rfl⟩ | ⟨_,rfl⟩ | ⟨item,rfl,rfl⟩
    · exact tracked_accept h hgrow (by simpa using hq)
    · exact tracked_chunkSent h (by simpa using hq)
    · exact .stopped (chunkFailed_stopped s)
    · rcases dispatch_cases _ item with ⟨_,hstop⟩ | ⟨hquiet,hphase,q⟩
      · exact .stopped hstop
      · cases taken with
        | false =>
          exact .armed done p false (h.rest q (.inl hphase))
            (by rw [q.payloads]; simpa using hq)
        | true => cases hr.symm.trans (rearms_iff.mpr ⟨_,_,item,hp,rfl,hquiet⟩)

theorem Stopped.step (h : Stopped s) {poll : Poll} (hs : (machine ctx).step s poll = some t) :
    Stopped t := by
  rcases h with ⟨frame,msg,hp⟩ | hp | ⟨hp,_⟩
  · obtain ⟨log,rfl⟩ := step_reporting hp hs
    refine .inr (.inr ⟨rfl,?_⟩)
    simp [Supervisor.advance,TransferState.setAuthoritative,AuthoritativeResult.isPrimary]
  · cases poll <;> simp [machine,Supervisor.step,hp] at hs
  · rw [step_done ctx hp] at hs
    cases hs

/-- As long as no accepted chunk is armed again, accepted payloads and reads move in step. -/
theorem tracked_step (h : Tracked ctx fileSize Q s)
    (hgrow : ∀ accepted sent q, Q accepted sent → Q (accepted ++ [q]) (sent ++ [q]))
    {poll : Poll} (hr : rearms s poll = false) (hs : (machine ctx).step s poll = some t) :
    Tracked ctx fileSize Q t := by
  cases h with
  | settled h hq => exact tracked_step_settled h hq hs
  | armed done p taken h hq => exact tracked_step_armed h hgrow hq hr hs
  | finished h _ => rw [step_done ctx h.phase] at hs; cases hs
  | stopped h => exact .stopped (h.step hs)

/-- Arming an accepted chunk again forgets that its payload has been accepted. -/
theorem tracked_rearm {R : List (List UInt8) → List (List UInt8) → Prop}
    (h : Tracked ctx fileSize Q s)
    (hforget : ∀ accepted sent q, q ≠ [] → Q accepted (sent ++ [q]) → R accepted sent)
    {poll : Poll} (hr : rearms s poll = true) (hs : (machine ctx).step s poll = some t) :
    Tracked ctx fileSize R t := by
  obtain ⟨frame,len,item,hp,rfl,hquiet⟩ := rearms_iff.mp hr
  cases h with
  | settled h _ => rcases h.phase with h | h | h | h <;> rw [hp] at h <;> cases h
  | finished h _ => cases hp.symm.trans h.phase
  | stopped h => exact .stopped (h.step hs)
  | armed done p taken h hq =>
    rcases h.place with ⟨_,hpark | hpark,_⟩ | hsend
    · cases hp.symm.trans hpark
    · cases hp.symm.trans hpark
    · cases hp.symm.trans hsend
      obtain ⟨hf,_⟩ | ⟨hf,_⟩ | ⟨hf,_⟩ | ⟨_,hitem,rfl⟩ := step_sending hp hs
      all_goals try cases hf
      cases hitem
      rcases dispatch_cases _ item with ⟨hterm,_⟩ | ⟨_,hphase,q⟩
      · rw [hquiet] at hterm
        cases hterm
      · refine .armed done p false (h.rest q (.inl hphase)) ?_
        rw [q.payloads]
        exact hforget _ _ p h.nonempty (by simpa using hq)

end Step

/-- More payload bytes have been accepted than bytes have been read. -/
def Excess (accepted sent : List (List UInt8)) : Prop := total sent < total accepted

theorem tracked_start (ctx : TransferContext) (fileSize : ℕ) :
    Tracked ctx fileSize Eq (Supervisor.start fileSize) :=
  .settled ⟨.inl rfl,rfl,rfl,rfl,rfl,rfl,by norm_num [Supervisor.start],fun hb => by cases hb⟩ rfl

theorem tracked_eq_run {ctx : TransferContext} {fileSize : ℕ} {s t : Supervisor} {polls : List Poll}
    (h : Tracked ctx fileSize Eq s)
    (hm : (machine ctx).Meets (fun s poll => rearms s poll = false) s polls)
    (hrun : (machine ctx).run s polls = some t) : Tracked ctx fileSize Eq t :=
  StepMachine.invariant
    (fun _ _ _ h hr hs => tracked_step h (fun _ _ _ he => by rw [he]) hr hs) h hm hrun

theorem tracked_excess_step {ctx : TransferContext} {fileSize : ℕ} {s t : Supervisor} {poll : Poll}
    (h : Tracked ctx fileSize Excess s) (hs : (machine ctx).step s poll = some t) :
    Tracked ctx fileSize Excess t := by
  cases hr : rearms s poll with
  | false =>
    refine tracked_step h (fun accepted sent q hlt => ?_) hr hs
    simp only [Excess,total_append] at hlt ⊢
    omega
  | true =>
    refine tracked_rearm h (fun accepted sent q _ hlt => ?_) hr hs
    simp only [Excess,total_append] at hlt ⊢
    omega

/-- The first chunk that is armed again makes the stream too long for good. -/
theorem tracked_excess_of_rearm {ctx : TransferContext} {fileSize : ℕ} {s t u : Supervisor}
    {poll : Poll} {polls : List Poll} (h : Tracked ctx fileSize Eq s) (hr : rearms s poll = true)
    (hs : (machine ctx).step s poll = some t) (hrun : (machine ctx).run t polls = some u) :
    Tracked ctx fileSize Excess u := by
  refine StepMachine.invariant_of_step (fun _ _ _ => tracked_excess_step)
    (tracked_rearm h (fun accepted sent q hne he => ?_) hr hs) hrun
  have := List.length_pos_iff.mpr hne
  simp only [Excess,he,total_append,total_singleton]
  omega

theorem tracked_cleanEof {ctx : TransferContext} {fileSize : ℕ} {t : Supervisor}
    {Q : List (List UInt8) → List (List UInt8) → Prop} (h : Tracked ctx fileSize Q t)
    (hdone : t.phase = .done) (hclean : t.state.authoritative = .cleanEof) :
    Q (payloads t.log) (reads t.log) ∧ total (reads t.log) = fileSize := by
  cases h with
  | finished h hq => exact ⟨hq,h.complete⟩
  | settled h _ => rcases h.phase with h | h | h | h <;> cases hdone.symm.trans h
  | armed _ _ _ h _ =>
    rcases h.place with ⟨_,h | h,_⟩ | h <;> cases hdone.symm.trans h
  | stopped h =>
    rcases h with ⟨_,_,h⟩ | h | ⟨_,h⟩
    · cases hdone.symm.trans h
    · cases hdone.symm.trans h
    · exact (h hclean).elim

/-- A download that ends with a clean end of file delivered exactly the bytes read,
as many as announced, if and only if no accepted chunk was armed a second time. -/
theorem download_exact_iff (ctx : TransferContext) (fileSize : ℕ) (polls : List Poll)
    (t : Supervisor) (hrun : (machine ctx).run (Supervisor.start fileSize) polls = some t)
    (hdone : t.phase = .done) (hclean : t.state.authoritative = .cleanEof) :
    ((payloads t.log).flatten = (reads t.log).flatten ∧
      (payloads t.log).flatten.length = fileSize) ↔
    (machine ctx).Meets (fun s poll => rearms s poll = false) (Supervisor.start fileSize) polls := by
  constructor
  · rintro ⟨hexact,_⟩
    by_contra hm
    obtain ⟨polls₁,poll,polls₂,u,v,rfl,hu,hbefore,hr,hv,ht⟩ :=
      StepMachine.exists_first_failure hrun hm
    have heq := tracked_eq_run (tracked_start ctx fileSize) hbefore hu
    have hexcess := tracked_excess_of_rearm heq (by simpa using hr) hv ht
    have hlt := (tracked_cleanEof hexcess hdone hclean).1
    simp only [Excess,total,hexact,lt_irrefl] at hlt
  · intro hm
    obtain ⟨heq,hsize⟩ :=
      tracked_cleanEof (tracked_eq_run (tracked_start ctx fileSize) hm hrun) hdone hclean
    rw [heq]
    exact ⟨rfl,hsize⟩

def idContext : TransferContext := ⟨"id",by decide⟩

/-- Two chunks are read, sent and flushed; between them the peer pings, pauses and resumes. -/
def plainDownload : List Poll :=
  [.idle,.read [7,8],.idle,.accept,.flushed,.incoming (some (.ok .ping)),
    .incoming (controlFrame MessageId.pauseFileChunkStream),.idle,
    .incoming (controlFrame MessageId.resumeFileChunkStream),.idle,.read [9],.idle,.accept,.flushed,
    .idle,.read [],.idle]

theorem plainDownload_run : ((machine idContext).run (Supervisor.start 3) plainDownload).any
    (fun t => t.phase = .done ∧ t.state.authoritative = .cleanEof) = true := by
  decide +kernel

theorem download_exact_plainDownload :
    ∃ t, (machine idContext).run (Supervisor.start 3) plainDownload = some t ∧
      (payloads t.log).flatten = (reads t.log).flatten ∧ (payloads t.log).flatten.length = 3 := by
  obtain ⟨t,hrun,hends⟩ := (Option.any_eq_true _ _).mp plainDownload_run
  obtain ⟨hdone,hclean⟩ := of_decide_eq_true hends
  exact ⟨t,hrun,(download_exact_iff idContext 3 plainDownload t hrun hdone hclean).mpr
    (by decide +kernel)⟩

/-- A ping wins the send's `select!` while the flush is pending, and the chunk is sent again. -/
def duplicatedDownload : List Poll :=
  [.idle,.read [7],.idle,.accept,.incoming (some (.ok .ping)),.idle,.accept,.flushed,
    .idle,.read [],.idle]

theorem duplicatedDownload_not_exact :
    ∃ t, (machine idContext).run (Supervisor.start 1) duplicatedDownload = some t ∧
      t.phase = .done ∧ t.state.authoritative = .cleanEof ∧
      (reads t.log).flatten = [7] ∧ (payloads t.log).flatten = [7,7] := by
  let chunk := chunkMessage idContext [7]
  refine ⟨⟨⟨.cleanEof,1,1,none,0⟩,.reading,.done,false,false,1,
    [.read [7],.sendStarted chunk,.accepted chunk,.sendStarted chunk,.accepted chunk]⟩,
    rfl,rfl,rfl,rfl,?_⟩
  simp [payloads,List.filterMap_cons,acceptedPayload,chunk,chunkPayload_chunkMessage]

end TransferStream
end JobControllerClient
