import JobControllerClient.ConnectionSupervision

/-! The main loop of `main.rs` next to the client it watches: the wait for the server, then the
`select!` over the timer, the two notifications and the signals. A `Notified` is created when a
round of the `select!` begins, so a notification during a status check is lost. The supervisor
looks for an update of the program before it waits to reconnect, and installing one ends all. -/
namespace JobControllerClient
namespace Daemon

open Interleaving Websocket ConnectionSupervision

inductive Exit
  | closedDuringStartup
  | notReady
  | closedWithoutLtk
  | shutdownRequested
  | signal
  | updated
  deriving DecidableEq

/-- The places of the main task before its next access or await; `select` remembers how often
each `Notify` had been used when its `Notified` was created. -/
inductive MainPc
  | checkReady
  | checkClosed
  | checkDeadline
  | sleeping
  | arming
  | select (shutdowns reconnects : ℕ)
  | ticked
  | reconnected
  | checking
  | stopped (exit : Exit)
  deriving DecidableEq

inductive MainChoice
  | go
  | late (passed : Bool)
  | tick
  | reconnect
  | shutdown
  | signal
  deriving DecidableEq

def updateCheckIntervalMs : ℤ := 300000

structure Process where
  client : State
  main : MainPc
  shutdowns : ℕ
  reconnects : ℕ
  lastUpdateCheck : ℤ

/-- An update check reads the clock, and may find a release that it installs. -/
inductive ProcessMove
  | client (move : Move)
  | main (choice : MainChoice)
  | updateCheck (now : ℤ) (installs : Bool)

/-- The main task, `reconnectable` being the kind of its token. -/
def mainStep (reconnectable : Bool) (p : Process) : MainPc → MainChoice → Option MainPc
  | .checkReady, .go => some (if p.client.shared.serverReady then .arming else .checkClosed)
  | .checkClosed, .go => some (if !reconnectable && p.client.shared.connectionClosed then
      .stopped .closedDuringStartup else .checkDeadline)
  | .checkDeadline, .late passed => some (if !reconnectable && passed then
      .stopped .notReady else .sleeping)
  | .sleeping, .go => some .checkReady
  | .arming, .go => some (.select p.shutdowns p.reconnects)
  | .select _ _, .tick => some .ticked
  | .select _ reconnects, .reconnect => if reconnects < p.reconnects then some .reconnected else none
  | .select shutdowns _, .shutdown =>
    if shutdowns < p.shutdowns then some (.stopped .shutdownRequested) else none
  | .select _ _, .signal => some (.stopped .signal)
  | .ticked, .go => some (if p.client.shared.connectionClosed then
      if reconnectable then .arming else .stopped .closedWithoutLtk else .checking)
  | .reconnected, .go => some (if p.client.shared.connectionClosed then .arming else .checking)
  | .checking, .go => some .arming
  | _, _ => none

def signalsShutdown (s : State) : Move → Bool
  | .run i .go => s.threads[i]?.any fun
    | .disconnecting _ .shutdown _ | .supervisor .stopping => true
    | _ => false
  | _ => false

/-- The step uses `get_reconnect_notify`, right after the one of the scheduler. -/
def signalsReconnect (s : State) : Move → Bool
  | .run i .go => s.threads[i]?.any fun
    | .reader _ .readyNotify => true
    | _ => false
  | _ => false

/-- After an installation `perform_update` ends in `exec` or in `exit(0)`. -/
def checkForUpdatesOnReconnect (p : Process) (now : ℤ) (installs : Bool) : Process :=
  if p.client.shared.reconnectable ∧ updateCheckIntervalMs ≤ now - p.lastUpdateCheck then
    { p with lastUpdateCheck := now, main := if installs then .stopped .updated else p.main }
  else p

def reconnecting (p : Process) : Bool :=
  p.client.threads[0]?.any fun
    | .supervisor .sleeping => true
    | _ => false

def move (reconnectable : Bool) (p : Process) : ProcessMove → Option Process
  | .client move => (system.machine.step p.client move).map fun s =>
    ⟨s,p.main,p.shutdowns + (signalsShutdown p.client move).toNat,
      p.reconnects + (signalsReconnect p.client move).toNat,p.lastUpdateCheck⟩
  | .main choice => (mainStep reconnectable p p.main choice).map fun pc => { p with main := pc }
  | .updateCheck now installs =>
    if reconnecting p then some (checkForUpdatesOnReconnect p now installs) else none

def process (reconnectable : Bool) : StepMachine Process ProcessMove :=
  ⟨fun p m => if p.main = .stopped .updated then none else move reconnectable p m⟩

def start (reconnectable : Bool) : Process := ⟨initial reconnectable,.checkReady,0,0,0⟩

variable {reconnectable : Bool} {p p' : Process} {m : ProcessMove}

theorem process_step (h : (process reconnectable).step p m = some p') :
    p.main ≠ .stopped .updated ∧ move reconnectable p m = some p' := by
  simp only [process] at h
  split at h
  · cases h
  · rename_i hlive
    exact ⟨hlive,h⟩

theorem process_client {move : Move} (h : (process reconnectable).step p (.client move) = some p') :
    system.machine.step p.client move = some p'.client ∧ p'.main = p.main ∧
      p'.shutdowns = p.shutdowns + (signalsShutdown p.client move).toNat := by
  obtain ⟨s,hs,rfl⟩ := Option.map_eq_some_iff.mp (process_step h).2
  exact ⟨hs,rfl,rfl⟩

theorem process_main {choice : MainChoice}
    (h : (process reconnectable).step p (.main choice) = some p') :
    ∃ pc, mainStep reconnectable p p.main choice = some pc ∧ p' = { p with main := pc } := by
  obtain ⟨pc,hpc,rfl⟩ := Option.map_eq_some_iff.mp (process_step h).2
  exact ⟨pc,hpc,rfl⟩

theorem sleeping_of_reconnecting (h : reconnecting p = true) :
    p.client.threads[0]? = some (.supervisor .sleeping) := by
  obtain ⟨t,ht,hmatch⟩ := (Option.any_eq_true _ _).mp h
  split at hmatch
  · exact ht
  · cases hmatch

theorem process_updateCheck {now : ℤ} {installs : Bool}
    (h : (process reconnectable).step p (.updateCheck now installs) = some p') :
    p.client.threads[0]? = some (.supervisor .sleeping) ∧ p'.client = p.client ∧
      p'.shutdowns = p.shutdowns ∧ (p'.main = p.main ∨ p'.main = .stopped .updated) := by
  have hmove := (process_step h).2
  simp only [move] at hmove
  split at hmove
  · rename_i hsleeping
    cases hmove
    refine ⟨sleeping_of_reconnecting hsleeping,?_⟩
    unfold checkForUpdatesOnReconnect
    split
    · cases installs
      · exact ⟨rfl,rfl,.inl rfl⟩
      · exact ⟨rfl,rfl,.inr rfl⟩
    · exact ⟨rfl,rfl,.inl rfl⟩
  · cases hmove

theorem client_invariant {I : State → Prop}
    (hstep : ∀ s m s', I s → system.machine.step s m = some s' → I s')
    (hp : I p.client) (h : (process reconnectable).step p m = some p') : I p'.client := by
  cases m with
  | client move => exact hstep _ move _ hp (process_client h).1
  | main choice =>
    obtain ⟨pc,-,rfl⟩ := process_main h
    exact hp
  | updateCheck now installs =>
    obtain ⟨-,hclient,-⟩ := process_updateCheck h
    exact hclient ▸ hp

structure Once (p : Process) : Prop where
  layout : Layout p.client
  client : OneShot p.client

theorem once_step (hp : Once p) (h : (process false).step p m = some p') : Once p' where
  layout := client_invariant (fun _ _ _ hs hstep => layout_step hs hstep) hp.layout h
  client := by
    have hboth : Layout p'.client ∧ OneShot p'.client :=
      client_invariant (I := fun s => Layout s ∧ OneShot s)
        (fun _ _ _ hs hstep => ⟨layout_step hs.1 hstep,oneShot_step hs.1 hs.2 hstep⟩)
        ⟨hp.layout,hp.client⟩ h
    exact hboth.2

/-- The connection is over for good. -/
structure Over (p : Process) : Prop where
  once : Once p
  marked : p.client.shared.disconnects ≠ []

theorem over_step (hp : Over p) (h : (process false).step p m = some p') : Over p' := by
  refine ⟨once_step hp.once h,?_⟩
  refine client_invariant (I := fun s => s.shared.disconnects ≠ []) ?_ hp.marked h
  intro s move s' hs hstep
  cases move with
  | arrive u =>
    obtain ⟨-,rfl⟩ := step_arrive hstep
    exact hs
  | run i c =>
    obtain ⟨t,t',new,ht⟩ := step_run hstep
    obtain ⟨n,r,-,hperf,-,-⟩ := turn_access ht
    exact perform_disconnects hperf hs

/-- A set of places that the main task does not leave once the connection is over. -/
theorem main_stays {R : MainPc → Prop}
    (hstays : ∀ (q : Process) pc choice pc', q.client.shared.connectionClosed = true → R pc →
      mainStep false q pc choice = some pc' → R pc')
    {moves : List ProcessMove} (hp : Over p) (hR : R p.main)
    (hrun : (process false).run p moves = some p') : R p'.main := by
  have hboth : Over p' ∧ R p'.main := by
    refine StepMachine.invariant_of_step (I := fun q => Over q ∧ R q.main) ?_ ⟨hp,hR⟩ hrun
    rintro q m q' ⟨hq,hqR⟩ hstep
    refine ⟨over_step hq hstep,?_⟩
    cases m with
    | client move => rwa [(process_client hstep).2.1]
    | main choice =>
      obtain ⟨pc,hpc,rfl⟩ := process_main hstep
      exact hstays q q.main choice pc (hq.once.client.closed hq.marked) hqR hpc
    | updateCheck now installs =>
      -- the supervisor of a one-shot token never waits to reconnect
      exact (hq.once.client.supervisor .sleeping (process_updateCheck hstep).1).elim
  exact hboth.2

theorem unchecked_stays (q : Process) (pc : MainPc) (choice : MainChoice) (pc' : MainPc)
    (hclosed : q.client.shared.connectionClosed = true) (hpc : pc ≠ .checking)
    (h : mainStep false q pc choice = some pc') : pc' ≠ .checking := by
  rintro rfl
  cases pc <;> cases choice <;> simp only [mainStep,Option.some.injEq,reduceCtorEq] at h
  case checkReady.go => split at h <;> cases h
  case checkClosed.go => split at h <;> cases h
  case checkDeadline.late passed => split at h <;> cases h
  case select.shutdown a b => split at h <;> simp at h
  case select.reconnect a b => split at h <;> simp at h
  case ticked.go => simp [hclosed] at h
  case reconnected.go => simp [hclosed] at h

/-- The main task has seen the timer, or has ended. -/
def Leaving (pc : MainPc) : Prop := pc = .ticked ∨ ∃ exit, pc = .stopped exit

theorem leaving_stays (q : Process) (pc : MainPc) (choice : MainChoice) (pc' : MainPc)
    (hclosed : q.client.shared.connectionClosed = true) (hpc : Leaving pc)
    (h : mainStep false q pc choice = some pc') : Leaving pc' := by
  rcases hpc with rfl | ⟨exit,rfl⟩
  · cases choice <;> simp only [mainStep,Option.some.injEq,reduceCtorEq] at h
    rw [if_pos hclosed] at h
    exact .inr ⟨_,h.symm⟩
  · cases choice <;> cases h

theorem leaving_of_tick (h : (process false).step p (.main .tick) = some p') : p'.main = .ticked := by
  obtain ⟨pc,hpc,rfl⟩ := process_main h
  cases hmain : p.main <;> rw [hmain] at hpc <;> cases hpc
  rfl

theorem once_of_run {moves : List ProcessMove}
    (hrun : (process false).run (start false) moves = some p) : Once p :=
  StepMachine.invariant_of_step (fun _ _ _ hp hstep => once_step hp hstep)
    ⟨layout_initial false,oneShot_initial⟩ hrun

theorem connectionId_le_one (hp : Once p) : p.client.shared.connectionId ≤ 1 := by
  obtain ⟨pc,h0,-⟩ := hp.layout.supervisor
  have hknown := hp.client.supervisor pc h0
  cases pc with
  | sleeping => exact hknown.elim
  | start => exact (show p.client.shared.connectionId = 0 from hknown).le.trans zero_le_one
  | leaving _ | checkReconnect | failReady | failReconnect | stopping | done => exact hknown.1.le
  | _ => exact (show p.client.shared.connectionId = 1 from hknown).le

/-- With a one-shot token there is one attempt to connect. Once its connection is marked closed it
stays closed, no status check begins any more, and the first tick of the timer ends the main
loop; when the supervisor has ended, the main loop has been asked to stop or is about to be. -/
theorem one_shot_daemon (moves : List ProcessMove) (p : Process)
    (hrun : (process false).run (start false) moves = some p) :
    p.client.shared.connectionId ≤ 1 ∧
    (p.client.threads[0]? = some (.supervisor .done) → p.client.shared.connectionClosed = true ∧
      (p.client.shared.shutdown = true ∨ Signalling p.client)) ∧
    (p.client.shared.disconnects ≠ [] → ∀ more p', (process false).run p more = some p' →
      p'.client.shared.connectionClosed = true ∧
      (p.main ≠ .checking → p'.main ≠ .checking) ∧
      (ProcessMove.main .tick ∈ more → Leaving p'.main)) := by
  have honce := once_of_run hrun
  refine ⟨connectionId_le_one honce,fun hdone => ?_,fun hmarked more p' hmore => ?_⟩
  · obtain ⟨-,hnotified | ⟨hshutdown,hclosed⟩⟩ := honce.client.supervisor .done hdone
    · exact ⟨honce.client.closed (honce.client.notified hnotified),honce.client.signalled hnotified⟩
    · exact ⟨hclosed,.inl hshutdown⟩
  · have hover : Over p := ⟨honce,hmarked⟩
    have hover' : ∀ {q q' : Process} {moves : List ProcessMove}, Over q →
        (process false).run q moves = some q' → Over q' := fun hq =>
      StepMachine.invariant_of_step (fun _ _ _ hp hstep => over_step hp hstep) hq
    have hend := hover' hover hmore
    refine ⟨hend.once.client.closed hend.marked,fun hmain => main_stays unchecked_stays hover hmain hmore,
      fun htick => ?_⟩
    obtain ⟨before,after,rfl⟩ := List.append_of_mem htick
    obtain ⟨q,hbefore,hrest⟩ := (StepMachine.run_append_eq_some _).mp hmore
    obtain ⟨q',htick',hafter⟩ := (StepMachine.run_cons_eq_some _).mp hrest
    exact main_stays leaving_stays (over_step (hover' hover hbefore) htick')
      (.inl (leaving_of_tick htick')) hafter

/-- The stream of the only connection ends; the reader and the supervisor run to their ends. -/
def closingForGood : List Move := [.run 1 (.event .ended)] ++ going 1 48 ++ going 0 3

/-- The connection becomes ready, the main loop starts, and the stream ends. -/
def oneShotRun : List ProcessMove :=
  let before : List ProcessMove := (opening ++ readying 1).map ProcessMove.client
  before ++ [.main .go,.main .go] ++ closingForGood.map ProcessMove.client

theorem one_shot_daemon_closing : ∃ p p',
    (process false).run (start false) oneShotRun = some p ∧ p.client.shared.disconnects = [1] ∧
      (process false).run p [.main .tick,.main .go] = some p' ∧ Leaving p'.main := by
  have hrun : ((process false).run (start false) oneShotRun).any (fun p =>
      decide (p.client.shared.disconnects = [1]) &&
        ((process false).run p [.main .tick,.main .go]).isSome) = true := by
    decide +kernel
  obtain ⟨p,hp,hboth⟩ := (Option.any_eq_true _ _).mp hrun
  rw [Bool.and_eq_true,decide_eq_true_eq] at hboth
  obtain ⟨p',hp'⟩ := Option.isSome_iff_exists.mp hboth.2
  have hmarked : p.client.shared.disconnects ≠ [] := by simp [hboth.1]
  obtain ⟨-,-,hleaving⟩ := (one_shot_daemon oneShotRun p hp).2.2 hmarked _ p' hp'
  exact ⟨p,p',hp,hboth.1,hp',hleaving List.mem_cons_self⟩

end Daemon
end JobControllerClient
