import JobControllerClient.TransferLoop

/-! Flow control over whole transfers: which chunk sends start between a `Pause`
frame and the `Resume` frame after it. -/
namespace JobControllerClient
namespace TransferPause

open Messaging TransferLoop

/-- No chunk send starts between a pause and the next resume. -/
def Honoured (log : List Event) : Prop :=
  ∀ before between after frame,
    log = before ++ .pause :: between ++ .sendStarted frame :: after → .resume ∈ between

/-- The flow-control state that the frames of a log ask for. -/
def pausedAfter (log : List Event) : Bool :=
  log.foldl (fun paused e => match e with
    | .pause => true
    | .resume => false
    | _ => paused) false

theorem pausedAfter_append (l : List Event) (e : Event) : pausedAfter (l ++ [e]) = match e with
    | .pause => true
    | .resume => false
    | _ => pausedAfter l := by
  cases e <;> simp [pausedAfter]

theorem pausedAfter_of_no_resume {l between : List Event} (h : pausedAfter l = true)
    (hr : .resume ∉ between) : pausedAfter (l ++ between) = true := by
  induction between using List.reverseRecOn with
  | nil => simpa using h
  | append_singleton between e ih =>
    simp only [List.mem_append,List.mem_singleton,not_or] at hr
    rw [← List.append_assoc,pausedAfter_append]
    cases e with
    | resume => exact (hr.2 rfl).elim
    | pause => rfl
    | _ => exact ih hr.1

def SendsAllowed (log : List Event) : Prop :=
  ∀ before after frame, log = before ++ .sendStarted frame :: after → pausedAfter before = false

theorem SendsAllowed.append {log : List Event} {e : Event} (h : SendsAllowed log)
    (he : ∀ frame, e = .sendStarted frame → pausedAfter log = false) :
    SendsAllowed (log ++ [e]) := by
  intro before after frame heq
  rcases List.eq_nil_or_concat' after with rfl | ⟨rest,last,rfl⟩
  · obtain ⟨rfl,hlast⟩ := List.append_inj' heq rfl
    exact he frame (List.singleton_inj.mp hlast)
  · rw [← List.cons_append,← List.append_assoc] at heq
    exact h before rest frame (List.append_inj' heq rfl).1

theorem SendsAllowed.honoured {log : List Event} (h : SendsAllowed log) : Honoured log := by
  intro before between after frame heq
  by_contra hr
  have hpause : pausedAfter (before ++ [.pause]) = true := by rw [pausedAfter_append]
  have hstill := pausedAfter_of_no_resume hpause hr
  rw [List.append_assoc,List.singleton_append] at hstill
  cases (h _ after frame heq).symm.trans hstill

def neutral : Event → Bool
  | .read _ | .accepted _ => true
  | _ => false

/-- What one poll does to the pause flag, the stored permit and the log. -/
inductive FlowStep (s t : Supervisor) : Poll → Prop
  | neutral {poll : Poll} (e : Option Event) (he : ∀ a ∈ e, TransferPause.neutral a = true)
      (hp : t.isPaused = s.isPaused) (hr : t.resumePermit = s.resumePermit)
      (hl : t.log = s.log ++ e.toList) : FlowStep s t poll
  | pause {item : Incoming} (hi : classifyIncoming item = .pause)
      (hp : t.isPaused = true) (hr : t.resumePermit = s.resumePermit)
      (hl : t.log = s.log ++ [.pause]) : FlowStep s t (.incoming item)
  | resume {item : Incoming} (hi : classifyIncoming item = .resume)
      (hp : t.isPaused = false) (hr : t.resumePermit = true)
      (hl : t.log = s.log ++ [.resume]) : FlowStep s t (.incoming item)
  | notified (hs : s.isPaused = true) (hperm : s.resumePermit = true)
      (hp : t.isPaused = false) (hr : t.resumePermit = false)
      (hl : t.log = s.log) : FlowStep s t .notified
  | sendStarted {poll : Poll} (frame : List UInt8) (hs : s.isPaused = false)
      (hp : t.isPaused = false) (hr : t.resumePermit = s.resumePermit)
      (hl : t.log = s.log ++ [.sendStarted frame]) : FlowStep s t poll

theorem FlowStep.unchanged {s t : Supervisor} {poll : Poll} (hp : t.isPaused = s.isPaused)
    (hr : t.resumePermit = s.resumePermit) (hl : t.log = s.log) : FlowStep s t poll :=
  .neutral none (by simp) hp hr (by simp [hl])

theorem flowStep_dispatch (s : Supervisor) (item : Incoming) :
    FlowStep s (s.dispatch item) (.incoming item) := by
  cases hi : classifyIncoming item with
  | pause =>
    refine .pause hi ?_ ?_ ?_ <;>
      simp [Supervisor.dispatch,Supervisor.handleIncomingEvent,hi,Supervisor.advance]
  | resume =>
    refine .resume hi ?_ ?_ ?_ <;>
      simp [Supervisor.dispatch,Supervisor.handleIncomingEvent,hi,Supervisor.advance]
  | _ =>
    refine .unchanged ?_ ?_ ?_ <;>
      simp [Supervisor.dispatch,Supervisor.handleIncomingEvent,hi,Supervisor.advance]

theorem flowStep_afterDrain (s : Supervisor) (poll : Poll) : FlowStep s s.afterDrain poll := by
  unfold Supervisor.afterDrain
  split
  · exact .unchanged rfl rfl rfl
  · rename_i hp
    cases s.chunkState with
    | reading => exact .unchanged rfl rfl rfl
    | sending =>
      cases s.state.pendingChunkBytes with
      | none => exact .unchanged rfl rfl rfl
      | some bytes => exact .sendStarted bytes (by simpa using hp) (by simpa using hp) rfl rfl

theorem flowStep_atBoundary (s : Supervisor) (item : Option Incoming) (poll : Poll) :
    FlowStep s (s.atBoundary item) poll := by
  unfold Supervisor.atBoundary
  split <;> exact .unchanged rfl rfl rfl

theorem flowStep_of_step {ctx : TransferContext} {s t : Supervisor} {poll : Poll}
    (hs : (machine ctx).step s poll = some t) : FlowStep s t poll := by
  cases hp : s.phase with
  | drain =>
    cases poll with
    | incoming item =>
      rw [drain_incoming ctx s item hp] at hs
      exact Option.some.inj hs ▸ flowStep_dispatch s item
    | idle =>
      simp only [machine,Supervisor.step,hp,Option.some.injEq] at hs
      exact hs ▸ flowStep_afterDrain s _
    | _ => simp [machine,Supervisor.step,hp] at hs
  | waiting =>
    cases poll with
    | incoming item =>
      simp only [machine,Supervisor.step,hp,Option.some.injEq] at hs
      exact hs ▸ flowStep_dispatch s item
    | notified =>
      simp only [machine,Supervisor.step,hp,Bool.and_eq_true] at hs
      split at hs
      · rename_i hflags
        obtain rfl := Option.some.inj hs
        exact .notified hflags.2 hflags.1 rfl rfl rfl
      · cases hs
    | _ => simp [machine,Supervisor.step,hp] at hs
  | reading =>
    cases poll with
    | incoming item =>
      simp only [machine,Supervisor.step,hp,Option.some.injEq] at hs
      exact hs ▸ flowStep_dispatch s item
    | read bytes =>
      simp only [machine,Supervisor.step,hp] at hs
      split at hs
      · obtain rfl := Option.some.inj hs
        simp only [Supervisor.endOfFile]
        split <;> exact .unchanged rfl rfl rfl
      · split at hs
        · obtain rfl := Option.some.inj hs
          exact .neutral (some (.read bytes)) (by simp [neutral]) rfl rfl rfl
        · cases hs
    | readFailed =>
      simp only [machine,Supervisor.step,hp,Option.some.injEq] at hs
      subst hs
      exact .unchanged rfl rfl rfl
    | _ => simp [machine,Supervisor.step,hp] at hs
  | boundary =>
    cases poll with
    | incoming item =>
      simp only [machine,Supervisor.step,hp,Option.some.injEq] at hs
      exact hs ▸ flowStep_atBoundary s _ _
    | idle =>
      simp only [machine,Supervisor.step,hp,Option.some.injEq] at hs
      exact hs ▸ flowStep_atBoundary s _ _
    | _ => simp [machine,Supervisor.step,hp] at hs
  | sending frame len taken =>
    rcases step_sending hp hs with ⟨rfl,_,rfl⟩ | ⟨rfl,_,rfl⟩ | ⟨rfl,rfl⟩ | ⟨item,rfl,rfl⟩
    · exact .neutral (some (.accepted frame)) (by simp [neutral]) rfl rfl rfl
    · exact .unchanged rfl rfl rfl
    · exact .unchanged rfl rfl rfl
    · cases flowStep_dispatch { s with
          state := { s.state with pendingChunkBytes := some frame } } item with
      | neutral e he hp hr hl => exact .neutral e he hp hr hl
      | pause hi hp hr hl => exact .pause hi hp hr hl
      | resume hi hp hr hl => exact .resume hi hp hr hl
      | sendStarted frame hs hp hr hl => exact .sendStarted frame hs hp hr hl
  | reporting frame result =>
    cases poll with
    | reported accepted =>
      simp only [machine,Supervisor.step,hp,Option.some.injEq] at hs
      subst hs
      cases accepted with
      | false => exact .unchanged rfl rfl rfl
      | true => exact .neutral (some (.accepted frame)) (by simp [neutral]) rfl rfl rfl
    | _ => simp [machine,Supervisor.step,hp] at hs
  | panicked => cases poll <;> simp [machine,Supervisor.step,hp] at hs
  | done => cases poll <;> simp [machine,Supervisor.step,hp] at hs

/-- A pause is handled while the permit of an earlier resume is still stored. -/
def stalePermit (s : Supervisor) : Poll → Bool
  | .incoming item => decide (classifyIncoming item = .pause) && s.resumePermit
  | _ => false

/-- The flag and the permit agree with the frames handled so far. -/
structure Flow (s : Supervisor) : Prop where
  agrees : s.isPaused = pausedAfter s.log
  permit : s.resumePermit = true → s.isPaused = false
  allowed : SendsAllowed s.log

theorem Flow.start (fileSize : ℕ) : Flow (Supervisor.start fileSize) where
  agrees := rfl
  permit h := by cases h
  allowed before after frame h := by simp [Supervisor.start] at h

theorem Flow.step {s t : Supervisor} {poll : Poll} (h : Flow s) (hstale : stalePermit s poll = false)
    (hs : FlowStep s t poll) : Flow t := by
  cases hs with
  | neutral e he hp hr hl =>
    cases e with
    | none =>
      rw [Option.toList_none,List.append_nil] at hl
      exact ⟨by rw [hp,hl,h.agrees],by rw [hp,hr]; exact h.permit,by rw [hl]; exact h.allowed⟩
    | some e =>
      have hne : neutral e = true := he e rfl
      have hsame : pausedAfter (s.log ++ [e]) = pausedAfter s.log := by
        rw [pausedAfter_append]
        cases e <;> first | rfl | cases hne
      refine ⟨by rw [hp,hl,h.agrees]; exact hsame.symm,by rw [hp,hr]; exact h.permit,?_⟩
      rw [hl]
      refine h.allowed.append fun frame heq => ?_
      rw [heq] at hne
      cases hne
  | pause hi hp hr hl =>
    refine ⟨by rw [hp,hl,pausedAfter_append],fun hperm => ?_,?_⟩
    · simp only [stalePermit,hi,decide_true,Bool.true_and] at hstale
      rw [hr,hstale] at hperm
      cases hperm
    · rw [hl]
      exact h.allowed.append fun frame heq => by cases heq
  | resume hi hp hr hl =>
    refine ⟨by rw [hp,hl,pausedAfter_append],fun _ => hp,?_⟩
    rw [hl]
    exact h.allowed.append fun frame heq => by cases heq
  | notified hs hperm hp hr hl => cases hs.symm.trans (h.permit hperm)
  | sendStarted frame hs hp hr hl =>
    refine ⟨?_,fun _ => hp,?_⟩
    · rw [hp,hl,pausedAfter_append,← h.agrees,hs]
    · rw [hl]
      exact h.allowed.append fun _ _ => by rw [← h.agrees,hs]

def items (polls : List Poll) : List Incoming :=
  polls.filterMap fun
    | .incoming item => some item
    | _ => none

@[simp] theorem items_incoming (item : Incoming) (polls : List Poll) :
    items (.incoming item :: polls) = item :: items polls := rfl

theorem items_append (as bs : List Poll) : items (as ++ bs) = items as ++ items bs :=
  List.filterMap_append

theorem permit_needs_resume {ctx : TransferContext} {fileSize : ℕ} {polls : List Poll}
    {t : Supervisor} (hrun : (machine ctx).run (Supervisor.start fileSize) polls = some t)
    (hperm : t.resumePermit = true) : .resume ∈ t.log := by
  refine StepMachine.invariant_of_step (I := fun s => s.resumePermit = true → .resume ∈ s.log)
    (fun s poll u hs hstep => ?_) (fun h => by cases h) hrun hperm
  cases flowStep_of_step hstep with
  | neutral e _ _ hr hl => rw [hr,hl]; exact fun h => List.mem_append_left _ (hs h)
  | pause _ _ hr hl => rw [hr,hl]; exact fun h => List.mem_append_left _ (hs h)
  | resume _ _ _ hl => rw [hl]; exact fun _ => by simp
  | notified _ _ _ hr _ => rw [hr]; exact fun h => by cases h
  | sendStarted _ _ _ hr hl => rw [hr,hl]; exact fun h => List.mem_append_left _ (hs h)

theorem resume_delivered {ctx : TransferContext} {s t : Supervisor} {polls : List Poll}
    (hrun : (machine ctx).run s polls = some t) (hr : .resume ∈ t.log) :
    .resume ∈ s.log ∨ IncomingEvent.resume ∈ (items polls).map classifyIncoming := by
  induction polls generalizing s with
  | nil =>
    obtain rfl : s = t := by simpa using hrun
    exact .inl hr
  | cons poll polls ih =>
    obtain ⟨u,hu,hrest⟩ := (StepMachine.run_cons_eq_some _).mp hrun
    rcases ih hrest with hlog | hlater
    · cases flowStep_of_step hu with
      | neutral e he _ _ hl =>
        rw [hl,List.mem_append,Option.mem_toList] at hlog
        exact .inl (hlog.resolve_right fun h => by cases he _ h)
      | pause _ _ _ hl => exact .inl (by simpa [hl] using hlog)
      | resume hi _ _ _ => exact .inr (by simp [hi])
      | notified _ _ _ _ hl => exact .inl (by simpa [hl] using hlog)
      | sendStarted _ _ _ _ hl => exact .inl (by simpa [hl] using hlog)
    · have hitems : items (poll :: polls) = items [poll] ++ items polls := items_append [poll] polls
      rw [hitems,List.map_append]
      exact .inr (List.mem_append_right _ hlater)

theorem items_not_terminal {ctx : TransferContext} {s t : Supervisor} {polls : List Poll}
    (hrun : (machine ctx).run s polls = some t) (ht : t.phase ≠ .done) :
    ∀ item ∈ items polls, terminal (classifyIncoming item) = false := by
  induction polls generalizing s with
  | nil => simp [items]
  | cons poll polls ih =>
    obtain ⟨u,hu,hrest⟩ := (StepMachine.run_cons_eq_some _).mp hrun
    cases poll with
    | incoming item =>
      rw [items_incoming,List.forall_mem_cons]
      refine ⟨Bool.eq_false_iff.mpr fun hterm => ?_,ih hrest⟩
      have hdone := step_terminal hu hterm
      cases polls with
      | nil =>
        obtain rfl : u = t := by simpa using hrest
        exact ht hdone
      | cons next polls =>
        obtain ⟨v,hv,_⟩ := (StepMachine.run_cons_eq_some _).mp hrest
        cases (step_done ctx hdone next).symm.trans hv
    | _ => exact ih hrest

/-- The events of a frame sequence up to the one that ends the transfer. -/
def handled (frames : List Incoming) : List IncomingEvent :=
  (frames.map classifyIncoming).takeWhile fun e => !terminal e

theorem handled_append {as bs : List Incoming}
    (h : ∀ item ∈ as, terminal (classifyIncoming item) = false) :
    handled (as ++ bs) = as.map classifyIncoming ++ handled bs := by
  rw [handled,List.map_append,List.takeWhile_append_of_pos]
  · rfl
  · simpa using h

/-- The frames ask for a pause after a resume. -/
def PauseAfterResume (frames : List Incoming) : Prop :=
  [IncomingEvent.resume,.pause].Sublist (handled frames)

theorem pauseAfterResume_of_stalePermit {ctx : TransferContext} {fileSize : ℕ}
    {polls : List Poll} {t : Supervisor} {frames : List Incoming}
    (hrun : (machine ctx).run (Supervisor.start fileSize) polls = some t)
    (hitems : items polls <+: frames)
    (hm : ¬ (machine ctx).Meets (fun s poll => stalePermit s poll = false)
      (Supervisor.start fileSize) polls) : PauseAfterResume frames := by
  obtain ⟨as,poll,bs,u,v,rfl,hu,_,hstale,hv,_⟩ := StepMachine.exists_first_failure hrun hm
  cases poll with
  | incoming item =>
    simp only [stalePermit,Bool.and_eq_false_iff,not_or,Bool.not_eq_false,decide_eq_true_eq]
      at hstale
    have hresume := (resume_delivered hu (permit_needs_resume hu hstale.2)).resolve_left (by
      simp [Supervisor.start])
    have hlive : u.phase ≠ .done := fun h => by cases (step_done ctx h _).symm.trans hv
    obtain ⟨rest,rfl⟩ := hitems
    have hpause : handled (item :: (items bs ++ rest)) =
        .pause :: handled (items bs ++ rest) := by simp [handled,hstale.1,terminal]
    rw [PauseAfterResume,items_append,items_incoming,List.append_assoc,List.cons_append,
      handled_append (items_not_terminal hu hlive),hpause]
    exact List.Sublist.append (List.singleton_sublist.mpr hresume) (by simp)
  | _ => exact (hstale rfl).elim

theorem handled_cons (item : Incoming) (frames : List Incoming) :
    handled (item :: frames) = if terminal (classifyIncoming item) then []
      else classifyIncoming item :: handled frames := by
  cases h : terminal (classifyIncoming item) <;> simp [handled,h]

theorem split_of_mem_handled {e : IncomingEvent} {frames : List Incoming} (h : e ∈ handled frames) :
    ∃ as item rest, frames = as ++ item :: rest ∧ classifyIncoming item = e ∧
      ∀ a ∈ as, terminal (classifyIncoming a) = false := by
  induction frames with
  | nil => cases h
  | cons f fs ih =>
    cases hf : terminal (classifyIncoming f) with
    | true => simp [handled_cons,hf] at h
    | false =>
      simp only [handled_cons,hf,Bool.false_eq_true,if_false,List.mem_cons] at h
      rcases h with rfl | h
      · exact ⟨[],f,fs,rfl,rfl,by simp⟩
      · obtain ⟨as,item,rest,rfl,he,has⟩ := ih h
        exact ⟨f :: as,item,rest,rfl,he,List.forall_mem_cons.mpr ⟨hf,has⟩⟩

theorem PauseAfterResume.split {frames : List Incoming} (h : PauseAfterResume frames) :
    ∃ as item rest, frames = as ++ item :: rest ∧ classifyIncoming item = .pause ∧
      IncomingEvent.resume ∈ as.map classifyIncoming ∧
      ∀ a ∈ as, terminal (classifyIncoming a) = false := by
  induction frames with
  | nil => cases h
  | cons f fs ih =>
    cases hf : terminal (classifyIncoming f) with
    | true => simp [PauseAfterResume,handled_cons,hf] at h
    | false =>
      simp only [PauseAfterResume,handled_cons,hf,Bool.false_eq_true,if_false] at h
      rcases List.sublist_cons_iff.mp h with hlater | ⟨_,heq,hpause⟩
      · obtain ⟨as,item,rest,rfl,he,hr,has⟩ := ih hlater
        exact ⟨f :: as,item,rest,rfl,he,by simp_all,List.forall_mem_cons.mpr ⟨hf,has⟩⟩
      · obtain ⟨hfe,rfl⟩ := List.cons.inj heq
        obtain ⟨as,item,rest,rfl,he,has⟩ := split_of_mem_handled (List.singleton_sublist.mp hpause)
        exact ⟨f :: as,item,rest,rfl,he,by simp [← hfe],List.forall_mem_cons.mpr ⟨hf,has⟩⟩

/-- Frames handled in one drain only touch the flow control; no permit is consumed. -/
theorem drain_run (ctx : TransferContext) {s : Supervisor} {as : List Incoming}
    (hs : s.phase = .drain) (has : ∀ a ∈ as, terminal (classifyIncoming a) = false) :
    ∃ t, (machine ctx).run s (as.map .incoming) = some t ∧ t.phase = .drain ∧
      t.chunkState = s.chunkState ∧ t.fileOffset = s.fileOffset ∧
      (s.resumePermit = true ∨ IncomingEvent.resume ∈ as.map classifyIncoming →
        t.resumePermit = true) := by
  induction as generalizing s with
  | nil => exact ⟨s,rfl,hs,rfl,rfl,by simp⟩
  | cons a as ih =>
    rw [List.forall_mem_cons] at has
    have hphase : (s.dispatch a).phase = .drain := by simp [dispatch_phase,has.1]
    obtain ⟨t,ht,hp,hc,ho,hr⟩ := ih hphase has.2
    have hflow : (s.dispatch a).chunkState = s.chunkState ∧
        (s.dispatch a).fileOffset = s.fileOffset ∧
        (s.resumePermit = true ∨ classifyIncoming a = .resume →
          (s.dispatch a).resumePermit = true) := by
      unfold Supervisor.dispatch Supervisor.handleIncomingEvent
      cases classifyIncoming a <;> simp [Supervisor.advance]
    refine ⟨t,?_,hp,hc.trans hflow.1,ho.trans hflow.2.1,fun h => hr ?_⟩
    · exact (StepMachine.run_cons_eq_some _).mpr ⟨_,drain_incoming ctx s a hs,ht⟩
    · rw [List.map_cons,List.mem_cons,← or_assoc] at h
      exact h.imp_left fun h => hflow.2.2 (h.imp_right Eq.symm)

/-- The paused loop finds the permit, goes round and sends its next chunk. -/
def resending : List Poll := [.idle,.notified,.idle,.read [7],.idle]

/-- A pause that meets a stored permit is lifted at once, and the next chunk is sent. -/
theorem resend_run (ctx : TransferContext) {s : Supervisor} (hs : s.phase = .drain)
    (hc : s.chunkState = .reading) (ho : s.fileOffset = 0) (hp : s.isPaused = true)
    (hr : s.resumePermit = true) :
    ∃ t, (machine ctx).run s resending = some t ∧
      t.log = s.log ++ [.read [7],.sendStarted (chunkMessage ctx [7])] := by
  simp [resending,StepMachine.run,machine,Supervisor.step,Supervisor.afterDrain,
    Supervisor.advance,Supervisor.chunkRead,downloadChunkSize,hs,hc,ho,hp,hr]

theorem unpaused_run (ctx : TransferContext) (fileSize : ℕ) {frames : List Incoming}
    (h : PauseAfterResume frames) :
    ∃ polls t, (machine ctx).run (Supervisor.start fileSize) polls = some t ∧
      items polls <+: frames ∧ ¬ Honoured t.log := by
  obtain ⟨as,item,rest,rfl,hpause,hresume,has⟩ := h.split
  obtain ⟨u,hu,hphase,hc,ho,hperm⟩ := drain_run ctx (s := Supervisor.start fileSize) rfl has
  have hitem : (u.dispatch item) = { u with isPaused := true, log := u.log ++ [.pause] } := by
    simp [Supervisor.dispatch,Supervisor.handleIncomingEvent,hpause,Supervisor.advance,hphase]
  obtain ⟨t,ht,hlog⟩ := resend_run ctx (s := u.dispatch item)
    (by simp [hitem,hphase]) (by rw [hitem]; exact hc) (by rw [hitem]; exact ho)
    (by rw [hitem]) (by rw [hitem]; exact hperm (.inr hresume))
  refine ⟨as.map Poll.incoming ++ Poll.incoming item :: resending,t,?_,?_,?_⟩
  · refine (StepMachine.run_append_eq_some _).mpr ⟨u,hu,?_⟩
    exact (StepMachine.run_cons_eq_some _).mpr ⟨_,drain_incoming ctx u item hphase,ht⟩
  · refine ⟨rest,?_⟩
    have hmap : items (as.map .incoming) = as := by simp [items,List.filterMap_map]
    rw [items_append,items_incoming,hmap]
    simp [items,resending]
  · intro hhon
    have := hhon u.log [.read [7]] [] (chunkMessage ctx [7]) (by rw [hlog,hitem]; simp)
    simp at this

/-- Every transfer over the given frames honours the pauses if and only if the frames
ask for no pause after a resume. -/
theorem pause_honoured_iff (ctx : TransferContext) (fileSize : ℕ) (frames : List Incoming) :
    (∀ polls t, (machine ctx).run (Supervisor.start fileSize) polls = some t →
      items polls <+: frames → Honoured t.log) ↔ ¬ PauseAfterResume frames := by
  constructor
  · intro h hpr
    obtain ⟨polls,t,hrun,hitems,hnot⟩ := unpaused_run ctx fileSize hpr
    exact hnot (h polls t hrun hitems)
  · intro hpr polls t hrun hitems
    have hm := not_not.mp fun hm => hpr (pauseAfterResume_of_stalePermit hrun hitems hm)
    exact (StepMachine.invariant (fun s poll u h hstale hs => h.step hstale (flowStep_of_step hs))
      (Flow.start fileSize) hm hrun).allowed.honoured

theorem classify_controlFrame_pause :
    classifyIncoming (controlFrame MessageId.pauseFileChunkStream) = .pause := by
  have h := Message.fromData_header MessageId.pauseFileChunkStream "" [] (by decide)
  rw [List.append_nil] at h
  simp only [classifyIncoming,controlFrame,Message.new_data,h,if_true]

theorem classify_controlFrame_resume :
    classifyIncoming (controlFrame MessageId.resumeFileChunkStream) = .resume := by
  have h := Message.fromData_header MessageId.resumeFileChunkStream "" [] (by decide)
  rw [List.append_nil] at h
  simp only [classifyIncoming,controlFrame,Message.new_data,h,if_true]
  rw [if_neg (by decide)]

def resumeThenPause : List Incoming :=
  [controlFrame MessageId.resumeFileChunkStream,controlFrame MessageId.pauseFileChunkStream]

/-- The resume stores a permit, which ends the wait of the pause that follows it. -/
theorem resumeThenPause_not_honoured :
    ∃ polls t, (machine ⟨"id",by decide⟩).run (Supervisor.start 1) polls = some t ∧
      items polls = resumeThenPause ∧ t.log = [.resume,.pause,.read [7],
        .sendStarted (chunkMessage ⟨"id",by decide⟩ [7])] ∧ ¬ Honoured t.log := by
  have hresume : (Supervisor.start 1).dispatch (controlFrame MessageId.resumeFileChunkStream) =
      { Supervisor.start 1 with resumePermit := true, log := [.resume] } := by
    simp only [Supervisor.dispatch,Supervisor.handleIncomingEvent,classify_controlFrame_resume]
    rfl
  have hpause : Supervisor.dispatch { Supervisor.start 1 with resumePermit := true, log := [.resume] }
      (controlFrame MessageId.pauseFileChunkStream) =
        { Supervisor.start 1 with
          isPaused := true, resumePermit := true, log := [.resume,.pause] } := by
    simp only [Supervisor.dispatch,Supervisor.handleIncomingEvent,classify_controlFrame_pause]
    rfl
  obtain ⟨t,ht,hlog⟩ := resend_run ⟨"id",by decide⟩ (s := { Supervisor.start 1 with
    isPaused := true, resumePermit := true, log := [.resume,.pause] }) rfl rfl rfl rfl rfl
  refine ⟨resumeThenPause.map Poll.incoming ++ resending,t,?_,rfl,hlog,?_⟩
  · refine (StepMachine.run_append_eq_some _).mpr ⟨_,?_,ht⟩
    refine (StepMachine.run_cons_eq_some _).mpr ⟨_,drain_incoming _ _ _ rfl,?_⟩
    rw [hresume]
    exact (StepMachine.run_cons_eq_some _).mpr ⟨_,drain_incoming _ _ _ rfl,by rw [hpause]; rfl⟩
  · intro h
    simpa using h [.resume] [.read [7]] [] _ hlog

end TransferPause
end JobControllerClient
