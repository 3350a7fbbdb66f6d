import JobControllerClient.TransferStream

/-! The frames that the transfer loop of a download hands to the sink: chunks with bytes of the
file, and at most one report behind them. -/
namespace JobControllerClient
namespace DownloadSession

open Messaging TransferLoop TransferStream

/-- The frames that the sink took over in the transfer loop. -/
def acceptedFrames (log : List Event) : List (List UInt8) := log.filterMap fun
  | .accepted frame => some frame
  | _ => none

def arrives : Poll → Bool
  | .sendFailed => false
  | .reported accepted => accepted
  | _ => true

/-- A `FILE_CHUNK` frame with bytes of the file. -/
def IsChunk (ctx : TransferContext) (content frame : List UInt8) : Prop :=
  ∃ bytes, frame = chunkMessage ctx bytes ∧ bytes ≠ [] ∧ bytes <:+: content

/-- The error frames that go with a result: at most one, and only with a primary error. -/
def Reported (told : Prop) (ctx : TransferContext) (result : AuthoritativeResult)
    (errors : List (List UInt8)) : Prop :=
  (errors = [] ∨ (∃ msg, errors = [errorMessage ctx msg]) ∧ result.isPrimary = true) ∧
    (told → result.isPrimary = true → errors ≠ [])

/-- Whatever is waiting to be sent is a chunk of the file, or a report. -/
structure Streaming (told : Prop) (ctx : TransferContext) (content : List UInt8) (s : Supervisor) :
    Prop where
  undecided : s.phase ≠ .done → s.state.authoritative = .pending
  pending : ∀ f, s.state.pendingChunkBytes = some f → IsChunk ctx content f
  sending : ∀ f n taken, s.phase = .sending f n taken → IsChunk ctx content f
  reporting : ∀ f r, s.phase = .reporting f r →
    (∃ msg, f = errorMessage ctx msg) ∧ ∃ msg, r = .primaryError msg
  chunks : s.phase ≠ .done → ∀ f ∈ acceptedFrames s.log, IsChunk ctx content f
  decided : s.phase = .done → s.state.authoritative ≠ .pending
  ended : s.phase = .done → ∃ chunks errors, acceptedFrames s.log = chunks ++ errors ∧
    (∀ f ∈ chunks, IsChunk ctx content f) ∧ Reported told ctx s.state.authoritative errors
  reads : (reads s.log).flatten = content.take s.fileOffset

/-- A step that neither reads nor sends. -/
structure Still (s t : Supervisor) : Prop where
  pending : t.state.pendingChunkBytes = s.state.pendingChunkBytes ∨
    t.state.pendingChunkBytes = none
  frames : acceptedFrames t.log = acceptedFrames s.log
  reads : reads t.log = reads s.log
  offset : t.fileOffset = s.fileOffset

def idle : Phase → Bool
  | .sending _ _ _ | .reporting _ _ | .done => false
  | _ => true

section Stream

variable {told : Prop} {ctx : TransferContext} {content : List UInt8} {s t : Supervisor}

@[simp] theorem acceptedFrames_append (log : List Event) (e : Event) :
    acceptedFrames (log ++ [e]) = acceptedFrames log ++ acceptedFrames [e] :=
  List.filterMap_append

theorem Streaming.pending_still (h : Streaming told ctx content s) (q : Still s t) (f : List UInt8)
    (hf : t.state.pendingChunkBytes = some f) : IsChunk ctx content f := by
  rcases q.pending with heq | hnone
  · exact h.pending f (heq ▸ hf)
  · cases hnone.symm.trans hf

theorem Streaming.moved (h : Streaming told ctx content s) (hs : s.phase ≠ .done) (q : Still s t)
    (hp : idle t.phase = true) (ha : t.state.authoritative = s.state.authoritative) :
    Streaming told ctx content t where
  undecided _ := ha.trans (h.undecided hs)
  pending := h.pending_still q
  sending f n taken hphase := by
    rw [hphase] at hp
    cases hp
  reporting f r hphase := by
    rw [hphase] at hp
    cases hp
  chunks _ f hf := h.chunks hs f (q.frames ▸ hf)
  decided hdone := by
    rw [hdone] at hp
    cases hp
  ended hdone := by
    rw [hdone] at hp
    cases hp
  reads := by rw [q.reads,q.offset,h.reads]

theorem Streaming.finished (h : Streaming told ctx content s) (hs : s.phase ≠ .done) (q : Still s t)
    (hp : t.phase = .done) (hr : t.state.authoritative ≠ .pending)
    (htold : told → t.state.authoritative.isPrimary = false) : Streaming told ctx content t where
  undecided hne := (hne hp).elim
  pending := h.pending_still q
  sending f n taken hphase := by cases hp.symm.trans hphase
  reporting f r hphase := by cases hp.symm.trans hphase
  chunks hne := (hne hp).elim
  decided _ := hr
  ended _ := by
    refine ⟨acceptedFrames t.log,[],by simp,fun f hf => h.chunks hs f (q.frames ▸ hf),.inl rfl,?_⟩
    intro ht hprimary
    cases (htold ht).symm.trans hprimary
  reads := by rw [q.reads,q.offset,h.reads]

theorem Streaming.peer (h : Streaming told ctx content s) (hs : s.phase ≠ .done) (msg : String) :
    Streaming told ctx content ({ s with state := (s.state.peerTerminal msg).2 }.advance
      (.finish (s.state.peerTerminal msg).1)) := by
  have hpending := h.undecided hs
  have hpeer : s.state.peerTerminal msg =
      (.peerTerminal msg,{ s.state with authoritative := .peerTerminal msg }) := by
    simp [TransferState.peerTerminal,hpending,AuthoritativeResult.isPrimary]
  have hset : ∀ state : TransferState, state.authoritative = .peerTerminal msg →
      state.setAuthoritative (.peerTerminal msg) = state := by
    intro state ha
    simp [TransferState.setAuthoritative,AuthoritativeResult.isPrimary,← ha]
  rw [hpeer,Supervisor.advance,hset _ rfl]
  exact h.finished hs ⟨.inl rfl,rfl,rfl,rfl⟩ rfl (by simp) (fun _ => rfl)

theorem Streaming.dispatch (h : Streaming told ctx content s) (hs : s.phase ≠ .done)
    (item : Incoming) : Streaming told ctx content (s.dispatch item) := by
  unfold Supervisor.dispatch Supervisor.handleIncomingEvent
  cases classifyIncoming item with
  | pause =>
    refine h.moved hs ⟨.inl rfl,?_,?_,rfl⟩ rfl rfl
    · simp [Supervisor.advance,acceptedFrames]
    · simp [Supervisor.advance,readBytes]
  | resume =>
    refine h.moved hs ⟨.inl rfl,?_,?_,rfl⟩ rfl rfl
    · simp [Supervisor.advance,acceptedFrames]
    · simp [Supervisor.advance,readBytes]
  | ignored => exact h.moved hs ⟨.inl rfl,rfl,rfl,rfl⟩ rfl rfl
  | close => exact h.peer hs _
  | eof => exact h.peer hs _
  | error msg => exact h.peer hs _

theorem Streaming.afterDrain (h : Streaming told ctx content s) (hs : s.phase ≠ .done) :
    Streaming told ctx content s.afterDrain := by
  unfold Supervisor.afterDrain
  split
  · exact h.moved hs ⟨.inl rfl,rfl,rfl,rfl⟩ rfl rfl
  split
  · exact h.moved hs ⟨.inl rfl,rfl,rfl,rfl⟩ rfl rfl
  split
  · exact h.moved hs ⟨.inl rfl,rfl,rfl,rfl⟩ rfl rfl
  · rename_i bytes hb
    have hlog : acceptedFrames (s.log ++ [.sendStarted bytes]) = acceptedFrames s.log := by
      simp [acceptedFrames]
    exact {
      undecided := fun _ => h.undecided hs
      pending := by simp
      sending := by
        rintro f n taken ⟨⟩
        exact h.pending bytes hb
      reporting := by simp
      chunks := fun _ f hf => h.chunks hs f (hlog ▸ hf)
      decided := by simp
      ended := by simp
      reads := by simpa [readBytes] using h.reads }

theorem Streaming.report (h : Streaming told ctx content s) (hs : s.phase ≠ .done)
    (msg primary : String) : Streaming told ctx content
      { s with phase := .reporting (errorMessage ctx msg) (.primaryError primary) } where
  undecided _ := h.undecided hs
  pending := h.pending
  sending := by simp
  reporting := by
    rintro f r ⟨⟩
    exact ⟨⟨msg,rfl⟩,primary,rfl⟩
  chunks _ := h.chunks hs
  decided := by simp
  ended := by simp
  reads := h.reads

theorem Streaming.endOfFile (h : Streaming told ctx content s) (hs : s.phase ≠ .done) :
    Streaming told ctx content (s.endOfFile ctx) := by
  simp only [Supervisor.endOfFile]
  split
  · exact h.moved hs ⟨.inl rfl,rfl,rfl,rfl⟩ rfl rfl
  · exact h.report hs _ _

theorem Streaming.chunkRead (h : Streaming told ctx content s) (hs : s.phase ≠ .done)
    {bytes : List UInt8} (hne : bytes ≠ []) (hread : bytes <+: content.drop s.fileOffset) :
    Streaming told ctx content (s.chunkRead ctx bytes) where
  undecided _ := h.undecided hs
  pending := by
    rintro f ⟨⟩
    exact ⟨bytes,rfl,hne,hread.isInfix.trans (List.drop_suffix _ _).isInfix⟩
  sending := by simp [Supervisor.chunkRead,Supervisor.advance]
  reporting := by simp [Supervisor.chunkRead,Supervisor.advance]
  chunks _ := by
    simpa [Supervisor.chunkRead,Supervisor.advance,acceptedFrames] using h.chunks hs
  decided := by simp [Supervisor.chunkRead,Supervisor.advance]
  ended := by simp [Supervisor.chunkRead,Supervisor.advance]
  reads := by
    have htake := List.prefix_iff_eq_take.mp hread
    simp only [Supervisor.chunkRead,Supervisor.advance,reads_append,readBytes,Option.toList_some,
      List.flatten_append,List.flatten_singleton,h.reads,List.take_add]
    rw [← htake]

theorem Streaming.atBoundary (h : Streaming told ctx content s) (hs : s.phase ≠ .done)
    (item : Option Incoming) : Streaming told ctx content (s.atBoundary item) := by
  have hclean : Streaming told ctx content (s.advance (.finish .cleanEof)) := by
    have hset : s.state.setAuthoritative .cleanEof = { s.state with authoritative := .cleanEof } := by
      simp [TransferState.setAuthoritative,h.undecided hs,AuthoritativeResult.isPrimary]
    rw [Supervisor.advance,hset]
    exact h.finished hs ⟨.inl rfl,rfl,rfl,rfl⟩ rfl (by simp) (fun _ => rfl)
  unfold Supervisor.atBoundary
  split
  · exact h.peer hs _
  · exact h.peer hs _
  · exact h.peer hs _
  · exact hclean
  · exact hclean

theorem Streaming.accept (h : Streaming told ctx content s) {frame : List UInt8} {len : ℕ}
    (hp : s.phase = .sending frame len false) : Streaming told ctx content
      { s with phase := .sending frame len true, log := s.log ++ [.accepted frame] } where
  undecided _ := h.undecided (by simp [hp])
  pending := h.pending
  sending := by
    rintro f n taken ⟨⟩
    exact h.sending frame len false hp
  reporting := by simp
  chunks _ f hf := by
    rcases List.mem_append.mp (acceptedFrames_append _ _ ▸ hf) with hf | hf
    · exact h.chunks (by simp [hp]) f hf
    · obtain rfl : f = frame := by simpa [acceptedFrames] using hf
      exact h.sending f len false hp
  decided := by simp
  ended := by simp
  reads := by simpa [readBytes] using h.reads

theorem Streaming.chunkFailed (h : Streaming told ctx content s) (hs : s.phase ≠ .done)
    (hlost : ¬ told) : Streaming told ctx content s.chunkFailed := by
  refine h.finished hs ⟨.inr ?_,rfl,rfl,rfl⟩ rfl ?_ (fun ht => (hlost ht).elim)
  all_goals simp [Supervisor.chunkFailed,Supervisor.advance,TransferState.primary,
    TransferState.setAuthoritative,AuthoritativeResult.isPrimary]

theorem Streaming.reported (h : Streaming told ctx content s) {frame : List UInt8}
    {result : AuthoritativeResult} (hp : s.phase = .reporting frame result) (accepted : Bool)
    (htold : told → accepted = true) : Streaming told ctx content
      ({ s with log := if accepted then s.log ++ [Event.accepted frame] else s.log }.advance
        (.finish result)) := by
  have hs : s.phase ≠ .done := by simp [hp]
  obtain ⟨⟨msg,rfl⟩,primary,rfl⟩ := h.reporting frame result hp
  have hset : s.state.setAuthoritative (.primaryError primary) =
      { s.state with authoritative := .primaryError primary } := by
    simp [TransferState.setAuthoritative,AuthoritativeResult.isPrimary]
  rw [Supervisor.advance,hset]
  cases accepted with
  | false =>
    refine h.finished hs ⟨.inl rfl,rfl,rfl,rfl⟩ rfl (by simp) fun ht => ?_
    cases htold ht
  | true =>
    refine ⟨by simp,h.pending,by simp,by simp,by simp,by simp,fun _ => ?_,?_⟩
    · refine ⟨acceptedFrames s.log,[errorMessage ctx msg],?_,h.chunks hs,.inr ⟨⟨msg,rfl⟩,rfl⟩,
        by simp⟩
      simp [acceptedFrames]
    · simpa [readBytes] using h.reads

theorem step_reported {poll : Poll} {frame : List UInt8} {result : AuthoritativeResult}
    (hp : s.phase = .reporting frame result) (hs : (machine ctx).step s poll = some t) :
    ∃ accepted, poll = .reported accepted ∧
      t = { s with log := if accepted then s.log ++ [Event.accepted frame] else s.log }.advance
        (.finish result) := by
  obtain ⟨state,chunkState,phase,isPaused,resumePermit,fileOffset,log⟩ := s
  subst hp
  cases poll with
  | reported accepted => exact ⟨accepted,rfl,(Option.some.inj hs).symm⟩
  | _ => cases hs

theorem Streaming.step {poll : Poll} (h : Streaming told ctx content s)
    (hread : ∀ bytes, poll = .read bytes → bytes <+: content.drop s.fileOffset)
    (harrives : told → arrives poll = true) (hs : (machine ctx).step s poll = some t) :
    Streaming told ctx content t := by
  cases hp : s.phase with
  | drain =>
    rcases step_drain hp hs with ⟨item,_,rfl⟩ | ⟨_,rfl⟩
    · exact h.dispatch (by simp [hp]) item
    · exact h.afterDrain (by simp [hp])
  | waiting =>
    rcases step_waiting hp hs with ⟨item,_,rfl⟩ | ⟨_,rfl⟩
    · exact h.dispatch (by simp [hp]) item
    · exact h.moved (by simp [hp]) ⟨.inl rfl,rfl,rfl,rfl⟩ rfl rfl
  | reading =>
    rcases step_reading hp hs with ⟨item,_,rfl⟩ | ⟨_,rfl⟩ | ⟨bytes,hb,hne,_,_,rfl⟩ | ⟨_,rfl⟩
    · exact h.dispatch (by simp [hp]) item
    · exact h.endOfFile (by simp [hp])
    · exact h.chunkRead (by simp [hp]) hne (hread bytes hb)
    · exact h.report (by simp [hp]) _ _
  | boundary =>
    obtain ⟨item,rfl⟩ := step_boundary hp hs
    exact h.atBoundary (by simp [hp]) item
  | sending frame len taken =>
    have hne : s.phase ≠ .done := by simp [hp]
    rcases step_sending hp hs with ⟨_,rfl,rfl⟩ | ⟨_,_,rfl⟩ | ⟨hpoll,rfl⟩ | ⟨item,_,rfl⟩
    · exact h.accept hp
    · exact h.moved hne ⟨.inr rfl,rfl,rfl,rfl⟩ rfl rfl
    · refine h.chunkFailed hne fun ht => ?_
      rw [hpoll] at harrives
      cases harrives ht
    · -- the bytes are put back before the item is handled
      have hback : Streaming told ctx content
          { s with state := { s.state with pendingChunkBytes := some frame } } := by
        refine ⟨h.undecided,?_,h.sending,h.reporting,h.chunks,h.decided,h.ended,h.reads⟩
        rintro f ⟨⟩
        exact h.sending frame len taken hp
      exact hback.dispatch hne item
  | reporting frame result =>
    obtain ⟨accepted,rfl,rfl⟩ := step_reported hp hs
    exact h.reported hp accepted harrives
  | panicked =>
    obtain ⟨state,chunkState,phase,isPaused,resumePermit,fileOffset,log⟩ := s
    subst hp
    cases hs
  | done =>
    rw [step_done ctx hp] at hs
    cases hs

theorem streaming_start (told : Prop) (ctx : TransferContext) (content : List UInt8) (n : ℕ) :
    Streaming told ctx content (Supervisor.start n) := by
  constructor <;> simp [Supervisor.start,TransferState.new,acceptedFrames,TransferStream.reads]

end Stream

end DownloadSession
end JobControllerClient
