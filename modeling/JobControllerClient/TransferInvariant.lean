import JobControllerClient.TransferStream

/-! The invariant of the download loop. A ledger of the results the loop has
seen runs beside it: which sends returned, which reads and sends failed, and
how much had been counted at the zero-byte read. -/
namespace JobControllerClient
namespace TransferInvariant

open TransferLoop TransferStream

inductive Outcome
  | sent (frame : List UInt8)
  | sendFailed
  | readFailed
  | endOfFile (transmitted : ℕ)
  deriving DecidableEq

/-- The result a poll hands to the loop, if it is one of a read or of a send. -/
def outcome (s : Supervisor) (poll : Poll) : List Outcome :=
  match s.phase, poll with
  | .sending frame _ true, .flushed => [.sent frame]
  | .sending _ _ _, .sendFailed => [.sendFailed]
  | .reading, .readFailed => [.readFailed]
  | .reading, .read [] => [.endOfFile s.state.transmittedBytes]
  | _, _ => []

/-- A failed read, a failed send, or a size that differs at the zero-byte read. -/
def failure (fileSize : ℕ) : Outcome → Bool
  | .sent _ => false
  | .sendFailed | .readFailed => true
  | .endOfFile transmitted => transmitted ≠ fileSize

def failed (fileSize : ℕ) (ledger : List Outcome) : Bool := ledger.any (failure fileSize)

def sentPayload : Outcome → List UInt8
  | .sent frame => (chunkPayload? frame).getD []
  | _ => []

def sentBytes (ledger : List Outcome) : ℕ := (ledger.map fun o => (sentPayload o).length).sum

@[simp] theorem failed_append (fileSize : ℕ) (l k : List Outcome) :
    failed fileSize (l ++ k) = (failed fileSize l || failed fileSize k) := by
  simp [failed]

@[simp] theorem failed_nil (fileSize : ℕ) : failed fileSize [] = false := rfl

@[simp] theorem failed_singleton (fileSize : ℕ) (o : Outcome) :
    failed fileSize [o] = failure fileSize o := by
  simp [failed]

@[simp] theorem sentBytes_append (l k : List Outcome) :
    sentBytes (l ++ k) = sentBytes l + sentBytes k := by
  simp [sentBytes]

@[simp] theorem sentBytes_nil : sentBytes [] = 0 := rfl

@[simp] theorem sentBytes_singleton (o : Outcome) : sentBytes [o] = (sentPayload o).length := by
  simp [sentBytes]

def streaming : Phase → Bool
  | .drain | .waiting | .reading | .sending _ _ _ => true
  | _ => false

/-- How the ledger determines what the loop has decided. -/
inductive Course (fileSize : ℕ) (s : Supervisor) (ledger : List Outcome) : Prop
  | streaming (hp : streaming s.phase = true) (ha : s.state.authoritative = .pending)
      (hf : failed fileSize ledger = false)
  | boundary (hp : s.phase = .boundary) (ha : s.state.authoritative = .pending)
      (hf : failed fileSize ledger = false) (he : .endOfFile fileSize ∈ ledger)
      (hsize : s.state.transmittedBytes = fileSize)
  | reporting (frame : List UInt8) (msg : String) (hp : s.phase = .reporting frame (.primaryError msg))
      (hf : failed fileSize ledger = true)
  | primary (msg : String) (hp : s.phase = .done) (ha : s.state.authoritative = .primaryError msg)
      (hf : failed fileSize ledger = true)
  | peer (msg : String) (hp : s.phase = .done) (ha : s.state.authoritative = .peerTerminal msg)
      (hf : failed fileSize ledger = false)
  | clean (hp : s.phase = .done) (ha : s.state.authoritative = .cleanEof)
      (hf : failed fileSize ledger = false) (he : .endOfFile fileSize ∈ ledger)
      (hsize : s.state.transmittedBytes = fileSize)

/-- The accounting and the course of a loop, beside the position of its chunk. -/
structure Accounted (ctx : TransferContext) (fileSize : ℕ) (s : Supervisor)
    (ledger : List Outcome) : Prop where
  tracked : Tracked ctx fileSize (fun _ _ => True) s
  expected : s.state.expectedSize = fileSize
  counted : s.state.transmittedBytes = sentBytes ledger
  course : Course fileSize s ledger

theorem tracked_any_step {ctx : TransferContext} {fileSize : ℕ} {s t : Supervisor} {poll : Poll}
    (h : Tracked ctx fileSize (fun _ _ => True) s) (hs : (machine ctx).step s poll = some t) :
    Tracked ctx fileSize (fun _ _ => True) t := by
  cases hr : rearms s poll with
  | false => exact tracked_step h (fun _ _ _ _ => trivial) hr hs
  | true => exact tracked_rearm h (fun _ _ _ _ _ => trivial) hr hs

section Step

variable {ctx : TransferContext} {fileSize : ℕ} {s t : Supervisor} {ledger : List Outcome}

theorem peerTerminal_pending {st : TransferState} (h : st.authoritative = .pending) (msg : String) :
    (st.peerTerminal msg).2.setAuthoritative (st.peerTerminal msg).1 =
      { st with authoritative := .peerTerminal msg } := by
  simp [TransferState.peerTerminal,TransferState.setAuthoritative,h,AuthoritativeResult.isPrimary]

/-- A peer event either ends the undecided loop with `PeerTerminal` or changes flow control. -/
theorem dispatch_undecided (h : s.state.authoritative = .pending) (item : Incoming) :
    ((s.dispatch item).phase = .drain ∧ (s.dispatch item).state = s.state) ∨
    ∃ msg, (s.dispatch item).phase = .done ∧
      (s.dispatch item).state = { s.state with authoritative := .peerTerminal msg } := by
  unfold Supervisor.dispatch Supervisor.handleIncomingEvent
  cases classifyIncoming item with
  | pause => exact .inl ⟨rfl,rfl⟩
  | resume => exact .inl ⟨rfl,rfl⟩
  | ignored => exact .inl ⟨rfl,rfl⟩
  | close => exact .inr ⟨_,rfl,peerTerminal_pending h _⟩
  | eof => exact .inr ⟨_,rfl,peerTerminal_pending h _⟩
  | error msg => exact .inr ⟨_,rfl,peerTerminal_pending h _⟩

structure Kept (fileSize : ℕ) (s t : Supervisor) (ledger : List Outcome) : Prop where
  expected : t.state.expectedSize = s.state.expectedSize
  transmitted : t.state.transmittedBytes = s.state.transmittedBytes
  course : Course fileSize t ledger

theorem kept_dispatch (ha : s.state.authoritative = .pending) (hf : failed fileSize ledger = false)
    (item : Incoming) : Kept fileSize s (s.dispatch item) ledger := by
  rcases dispatch_undecided ha item with ⟨hp,hst⟩ | ⟨msg,hp,hst⟩
  · exact ⟨by rw [hst],by rw [hst],.streaming (by rw [hp]; rfl) (by rw [hst]; exact ha) hf⟩
  · exact ⟨by rw [hst],by rw [hst],.peer msg hp (by rw [hst]) hf⟩

/-- With a stored chunk whenever the Sending phase is entered, its `expect` succeeds. -/
theorem kept_afterDrain (ha : s.state.authoritative = .pending)
    (hf : failed fileSize ledger = false)
    (hb : s.chunkState = .sending → s.state.pendingChunkBytes ≠ none) :
    Kept fileSize s s.afterDrain ledger := by
  unfold Supervisor.afterDrain
  split
  · exact ⟨rfl,rfl,.streaming rfl ha hf⟩
  · cases hc : s.chunkState with
    | reading => exact ⟨rfl,rfl,.streaming rfl ha hf⟩
    | sending =>
      obtain ⟨bytes,hbytes⟩ := Option.ne_none_iff_exists'.mp (hb hc)
      simp only [hbytes]
      exact ⟨rfl,rfl,.streaming rfl ha hf⟩

theorem kept_endOfFile (ha : s.state.authoritative = .pending)
    (hf : failed fileSize ledger = false) (hexp : s.state.expectedSize = fileSize) :
    Kept fileSize s (s.endOfFile ctx)
      (ledger ++ [.endOfFile s.state.transmittedBytes]) := by
  simp only [Supervisor.endOfFile,ha,AuthoritativeResult.isPrimary,hexp]
  split
  · rename_i h
    refine ⟨rfl,rfl,.boundary rfl ha ?_ ?_ h.1⟩
    · simp [hf,failure,h.1]
    · simp [h.1]
  · rename_i h
    refine ⟨rfl,rfl,.reporting _ _ rfl ?_⟩
    have hne : s.state.transmittedBytes ≠ fileSize := fun he => h ⟨he,rfl⟩
    simp [failure,hne]

theorem kept_atBoundary (ha : s.state.authoritative = .pending)
    (hf : failed fileSize ledger = false) (he : .endOfFile fileSize ∈ ledger)
    (hsize : s.state.transmittedBytes = fileSize) (item : Option Incoming) :
    Kept fileSize s (s.atBoundary item) ledger := by
  have hpeer : ∀ msg, Kept fileSize s ({ s with state := (s.state.peerTerminal msg).2 }.advance
      (.finish (s.state.peerTerminal msg).1)) ledger := by
    intro msg
    have hst := peerTerminal_pending ha msg
    refine ⟨?_,?_,.peer msg rfl ?_ hf⟩ <;> simp only [Supervisor.advance,hst]
  have hclean : Kept fileSize s (s.advance (.finish .cleanEof)) ledger := by
    have hst : s.state.setAuthoritative .cleanEof = { s.state with authoritative := .cleanEof } := by
      simp [TransferState.setAuthoritative,ha,AuthoritativeResult.isPrimary]
    refine ⟨?_,?_,.clean rfl ?_ hf he ?_⟩ <;> simp only [Supervisor.advance,hst]
    exact hsize
  unfold Supervisor.atBoundary
  split
  · exact hpeer _
  · exact hpeer _
  · exact hpeer _
  · exact hclean
  · exact hclean

theorem tracked_sending {Q : List (List UInt8) → List (List UInt8) → Prop} {frame : List UInt8}
    {len : ℕ} {taken : Bool} (h : Tracked ctx fileSize Q s)
    (hp : s.phase = .sending frame len taken) :
    ∃ p, frame = chunkMessage ctx p ∧ len = p.length ∧ chunkPayload? frame = some p ∧
      s.state.transmittedBytes + len < 2^64 := by
  cases h with
  | settled h _ => rcases h.phase with h | h | h | h <;> cases hp.symm.trans h
  | finished h _ => cases hp.symm.trans h.phase
  | stopped h => rcases h with ⟨_,_,h⟩ | h | ⟨h,_⟩ <;> cases hp.symm.trans h
  | armed done p taken' h _ =>
    rcases h.place with ⟨_,h' | h',_⟩ | h'
    · cases hp.symm.trans h'
    · cases hp.symm.trans h'
    · cases hp.symm.trans h'
      have hlt : p.length < 2^64 := h.fits.trans_lt (by norm_num [downloadChunkSize])
      have hsmall := h.small
      rw [h.offset,← h.counted] at hsmall
      exact ⟨p,rfl,rfl,chunkPayload_chunkMessage ctx p hlt,by omega⟩

/-- At the start of a phase, Sending and a stored chunk go together, and the stored
length is that of the stored payload. -/
theorem tracked_entry {Q : List (List UInt8) → List (List UInt8) → Prop}
    (h : Tracked ctx fileSize Q s) (hp : s.phase = .drain) :
    (s.chunkState = .reading ∧ s.state.pendingChunkBytes = none) ∨
    ∃ frame p, s.chunkState = .sending ∧ s.state.pendingChunkBytes = some frame ∧
      chunkPayload? frame = some p ∧ s.state.pendingChunkLen = p.length := by
  cases h with
  | settled h _ => exact .inl ⟨h.reading,h.nothingPending⟩
  | finished h _ => cases hp.symm.trans h.phase
  | stopped h => rcases h with ⟨_,_,h⟩ | h | ⟨h,_⟩ <;> cases hp.symm.trans h
  | armed done p taken h _ =>
    rcases h.place with ⟨_,_,hb⟩ | h'
    · have hlt : p.length < 2^64 := h.fits.trans_lt (by norm_num [downloadChunkSize])
      exact .inr ⟨_,p,h.sending,hb,chunkPayload_chunkMessage ctx p hlt,h.len⟩
    · cases hp.symm.trans h'

/-- The one step that counts: the send of the pending chunk returned `Ok`. -/
theorem accounted_chunkSent {frame : List UInt8} {len : ℕ} (h : Accounted ctx fileSize s ledger)
    (ha : s.state.authoritative = .pending) (hf : failed fileSize ledger = false)
    (hp : s.phase = .sending frame len true)
    (ht : Tracked ctx fileSize (fun _ _ => True) (s.chunkSent len)) :
    Accounted ctx fileSize (s.chunkSent len) (ledger ++ [.sent frame]) := by
  obtain ⟨p,_,hlen,hpay,hlt⟩ := tracked_sending h.tracked hp
  refine ⟨ht,h.expected,?_,.streaming rfl ha (by simp [hf,failure])⟩
  have hsum : (s.state.transmittedBytes + len) % 2^64 = s.state.transmittedBytes + len :=
    Nat.mod_eq_of_lt hlt
  simp only [Supervisor.chunkSent,Supervisor.advance,hsum,sentBytes_append,sentBytes_singleton,
    sentPayload,hpay,Option.getD_some]
  rw [h.counted,hlen]

theorem kept_chunkFailed (ha : s.state.authoritative = .pending) :
    Kept fileSize s s.chunkFailed (ledger ++ [.sendFailed]) := by
  refine ⟨?_,?_,.primary "chunk send failed" rfl ?_ (by simp [failure])⟩ <;>
    simp [Supervisor.chunkFailed,Supervisor.advance,TransferState.primary,
      TransferState.setAuthoritative,AuthoritativeResult.isPrimary,ha]

theorem Accounted.add {more : List Outcome} (h : Accounted ctx fileSize s ledger)
    (k : Kept fileSize s t (ledger ++ more)) (hmore : sentBytes more = 0)
    (ht : Tracked ctx fileSize (fun _ _ => True) t) : Accounted ctx fileSize t (ledger ++ more) :=
  ⟨ht,k.expected.trans h.expected,by rw [k.transmitted,h.counted,sentBytes_append,hmore]; rfl,
    k.course⟩

theorem Accounted.keep (h : Accounted ctx fileSize s ledger) (k : Kept fileSize s t ledger)
    (ht : Tracked ctx fileSize (fun _ _ => True) t) : Accounted ctx fileSize t (ledger ++ []) :=
  h.add (by simpa using k) rfl ht

theorem accounted_step_streaming (h : Accounted ctx fileSize s ledger)
    (hp : streaming s.phase = true) (ha : s.state.authoritative = .pending)
    (hf : failed fileSize ledger = false) {poll : Poll}
    (hs : (machine ctx).step s poll = some t) :
    Accounted ctx fileSize t (ledger ++ outcome s poll) := by
  have ht := tracked_any_step h.tracked hs
  cases hphase : s.phase with
  | drain =>
    simp only [outcome,hphase]
    rcases step_drain hphase hs with ⟨item,_,rfl⟩ | ⟨_,rfl⟩
    · exact h.keep (kept_dispatch ha hf item) ht
    · refine h.keep (kept_afterDrain ha hf fun hc hb => ?_) ht
      rcases tracked_entry h.tracked hphase with ⟨hr,_⟩ | ⟨_,_,_,hb',_⟩
      · cases hc.symm.trans hr
      · cases hb.symm.trans hb'
  | waiting =>
    simp only [outcome,hphase]
    rcases step_waiting hphase hs with ⟨item,_,rfl⟩ | ⟨_,rfl⟩
    · exact h.keep (kept_dispatch ha hf item) ht
    · exact h.keep ⟨rfl,rfl,.streaming rfl ha hf⟩ ht
  | reading =>
    rcases step_reading hphase hs with ⟨item,rfl,rfl⟩ | ⟨rfl,rfl⟩ | ⟨bytes,rfl,hne,_,_,rfl⟩ | ⟨rfl,rfl⟩
    · simp only [outcome,hphase]
      exact h.keep (kept_dispatch ha hf item) ht
    · simp only [outcome,hphase]
      exact h.add (kept_endOfFile ha hf h.expected) rfl ht
    · obtain ⟨b,bs,rfl⟩ := List.exists_cons_of_ne_nil hne
      simp only [outcome,hphase]
      exact h.keep ⟨rfl,rfl,.streaming rfl ha hf⟩ ht
    · simp only [outcome,hphase]
      exact h.add ⟨rfl,rfl,.reporting _ _ rfl (by simp [failure])⟩ rfl ht
  | sending frame len taken =>
    rcases step_sending hphase hs with ⟨rfl,rfl,rfl⟩ | ⟨rfl,rfl,rfl⟩ | ⟨rfl,rfl⟩ | ⟨item,rfl,rfl⟩
    · simp only [outcome,hphase]
      exact h.keep ⟨rfl,rfl,.streaming rfl ha hf⟩ ht
    · simp only [outcome,hphase]
      exact accounted_chunkSent h ha hf hphase ht
    · simp only [outcome,hphase]
      exact h.add (kept_chunkFailed ha) rfl ht
    · -- the chunk is restored before the item is handled
      have k := kept_dispatch
        (s := { s with state := { s.state with pendingChunkBytes := some frame } }) ha hf item
      have hout : outcome s (.incoming item) = [] := by simp only [outcome,hphase]
      rw [hout]
      exact h.keep ⟨k.expected,k.transmitted,k.course⟩ ht
  | _ => rw [hphase] at hp; cases hp

theorem accounted_step (h : Accounted ctx fileSize s ledger) {poll : Poll}
    (hs : (machine ctx).step s poll = some t) :
    Accounted ctx fileSize t (ledger ++ outcome s poll) := by
  have ht := tracked_any_step h.tracked hs
  cases h.course with
  | streaming hp ha hf => exact accounted_step_streaming h hp ha hf hs
  | boundary hp ha hf he hsize =>
    obtain ⟨item,rfl⟩ := step_boundary hp hs
    simp only [outcome,hp]
    exact h.keep (kept_atBoundary ha hf he hsize item) ht
  | reporting frame msg hp hf =>
    obtain ⟨log,rfl⟩ := step_reporting hp hs
    simp only [outcome,hp]
    refine h.keep ⟨?_,?_,.primary msg rfl ?_ hf⟩ ht <;>
      simp [Supervisor.advance,TransferState.setAuthoritative,AuthoritativeResult.isPrimary]
  | primary _ hp _ _ => rw [step_done ctx hp] at hs; cases hs
  | peer _ hp _ _ => rw [step_done ctx hp] at hs; cases hs
  | clean hp _ _ _ _ => rw [step_done ctx hp] at hs; cases hs

end Step

theorem accounted_run {ctx : TransferContext} {fileSize : ℕ} {polls : List Poll} {t : Supervisor}
    (hrun : (machine ctx).run (Supervisor.start fileSize) polls = some t) :
    Accounted ctx fileSize t ((machine ctx).log outcome (Supervisor.start fileSize) polls) := by
  have hstart : Accounted ctx fileSize (Supervisor.start fileSize) [] :=
    ⟨.settled ⟨.inl rfl,rfl,rfl,rfl,rfl,rfl,by norm_num [Supervisor.start],fun hb => by cases hb⟩
      trivial,rfl,rfl,.streaming rfl rfl rfl⟩
  simpa using StepMachine.log_invariant (P := fun _ _ => True) (I := Accounted ctx fileSize)
    (fun s poll t l h _ hs => accounted_step h hs) hstart (StepMachine.meets_true _ polls) hrun

/-- In every state the loop reaches: Sending and a stored chunk of the stored length go
together at the start of a phase, the `expect` does not panic, the counter is the number
of payload bytes whose send returned `Ok`, and the ledger decides the final result. -/
theorem transfer_loop_invariant (ctx : TransferContext) (fileSize : ℕ) (polls : List Poll)
    (t : Supervisor) (hrun : (machine ctx).run (Supervisor.start fileSize) polls = some t) :
    (t.phase = .drain →
      (t.chunkState = .sending ↔ t.state.pendingChunkBytes.isSome) ∧
      ∀ frame, t.state.pendingChunkBytes = some frame →
        ∃ p, chunkPayload? frame = some p ∧ t.state.pendingChunkLen = p.length) ∧
    t.phase ≠ .panicked ∧
    t.state.transmittedBytes =
      sentBytes ((machine ctx).log outcome (Supervisor.start fileSize) polls) ∧
    (t.phase = .done →
      let ledger := (machine ctx).log outcome (Supervisor.start fileSize) polls
      t.state.authoritative ≠ .pending ∧
      (t.state.authoritative = .cleanEof →
        .endOfFile fileSize ∈ ledger ∧ t.state.transmittedBytes = t.state.expectedSize) ∧
      (t.state.authoritative.isPrimary = true ↔ failed fileSize ledger = true) ∧
      (failed fileSize ledger = false → t.state.authoritative ≠ .cleanEof →
        ∃ msg, t.state.authoritative = .peerTerminal msg)) := by
  have h := accounted_run hrun
  refine ⟨fun hp => ?_,?_,h.counted,fun hdone => ?_⟩
  · rcases tracked_entry h.tracked hp with ⟨hc,hb⟩ | ⟨frame,p,hc,hb,hpay,hlen⟩
    · simp [hc,hb]
    · refine ⟨by simp [hc,hb],fun frame' hb' => ?_⟩
      obtain rfl := Option.some.inj (hb.symm.trans hb')
      exact ⟨p,hpay,hlen⟩
  · intro hp
    cases h.course with
    | streaming hp' _ _ => rw [hp] at hp'; cases hp'
    | _ => simp_all
  · dsimp only
    cases h.course with
    | streaming hp _ _ => rw [hdone] at hp; cases hp
    | boundary hp _ _ _ _ => cases hdone.symm.trans hp
    | reporting _ _ hp _ => cases hdone.symm.trans hp
    | primary msg _ ha hf => simp [ha,hf,AuthoritativeResult.isPrimary]
    | peer msg _ ha hf => simp [ha,hf,AuthoritativeResult.isPrimary]
    | clean _ ha hf he hsize => simp [ha,hf,he,hsize,h.expected,AuthoritativeResult.isPrimary]

theorem transfer_loop_invariant_plainDownload :
    ∃ t, (machine idContext).run (Supervisor.start 3) plainDownload = some t ∧
      t.phase = .done ∧ t.state.authoritative = .cleanEof ∧
      t.state.transmittedBytes = t.state.expectedSize := by
  obtain ⟨t,hrun,hends⟩ := (Option.any_eq_true _ _).mp plainDownload_run
  obtain ⟨hdone,hclean⟩ := of_decide_eq_true hends
  have hresult := (transfer_loop_invariant idContext 3 plainDownload t hrun).2.2.2 hdone
  exact ⟨t,hrun,hdone,hclean,(hresult.2.1 hclean).2⟩

end TransferInvariant
end JobControllerClient
