import JobControllerClient.WebsocketTasks

/-! What one access can do to a bucket of the priority queue, and the discipline of
the queue mutexes: only the thread that holds a bucket releases or changes it. -/
namespace JobControllerClient
namespace Websocket

open Interleaving

def Action.onQueue : Action → Bool
  | .lockPush _ | .lockPop .. | .tryClear _ | .tryPrune _ | .tryPeek _ | .unlock _ => true
  | _ => false

/-- All that one access of thread `i` can do to level `p`. -/
inductive LevelChange (x : Client) (i : ℕ) (a : Action) (p : ℕ) : Level → Prop
  | kept : LevelChange x i a p (x.queue p)
  | pushed (item : Item) (ha : a = .lockPush item) (hp : item.priority.level = p)
    (hfree : (x.queue p).holder = none) :
    LevelChange x i a p { (x.queue p).push item with holder := some i }
  | popped (source : Option String) (found : Option Item) (l : Level) (ha : a = .lockPop p source)
    (hfree : (x.queue p).holder = none) (hpop : (x.queue p).pop source = some (found,l)) :
    LevelChange x i a p { l with holder := some i }
  | cleared (ha : a = .tryClear p) (hfree : (x.queue p).holder = none) :
    LevelChange x i a p { (x.queue p).clear with holder := some i }
  | pruned (ha : a = .tryPrune p) (hfree : (x.queue p).holder = none) :
    LevelChange x i a p { (x.queue p).prune with holder := some i }
  | peeked (ha : a = .tryPeek p) (hfree : (x.queue p).holder = none) :
    LevelChange x i a p { x.queue p with holder := some i }
  | unlocked (ha : a = .unlock p) : LevelChange x i a p { x.queue p with holder := none }

variable {x x' : Client} {i j p : ℕ} {a : Action} {r : a.Answer}

theorem perform_queue (h : x.perform i a = some (x',r)) (ha : a.onQueue = false) :
    x'.queue = x.queue := by
  cases a <;> simp only [Action.onQueue,reduceCtorEq] at ha <;>
    simp only [Client.perform] at h <;> (repeat' split at h) <;>
    simp only [Option.some.injEq,Prod.mk.injEq,Option.map_eq_some_iff,reduceCtorEq] at h <;>
    (first
      | (obtain ⟨rfl,-⟩ := h; rfl)
      | (obtain ⟨_,-,rfl,-⟩ := h; rfl))

theorem LevelChange.set {q : ℕ} {l : Level} (h : LevelChange x i a q l) (p : ℕ) :
    LevelChange x i a p ((x.setLevel q l).queue p) := by
  simp only [Client.setLevel,Function.update_apply]
  split
  · rename_i hp
    exact hp ▸ h
  · exact .kept

theorem level_perform (h : x.perform i a = some (x',r)) (p : ℕ) :
    LevelChange x i a p (x'.queue p) := by
  cases ha : a.onQueue with
  | false =>
    rw [perform_queue h ha]
    exact .kept
  | true =>
    cases a <;> simp only [Action.onQueue,reduceCtorEq] at ha <;>
      simp only [Client.perform] at h <;> (try split at h) <;>
      simp only [Option.some.injEq,Prod.mk.injEq,Option.map_eq_some_iff,reduceCtorEq] at h
    case lockPop.isTrue q source hfree =>
      obtain ⟨⟨found,l⟩,hpop,rfl,-⟩ := h
      exact (LevelChange.popped source found l rfl hfree hpop).set p
    all_goals obtain ⟨rfl,-⟩ := h
    case lockPush.isTrue item hfree => exact (LevelChange.pushed item rfl rfl hfree).set p
    case tryClear.isTrue q hfree => exact (LevelChange.cleared rfl hfree).set p
    case tryPrune.isTrue q hfree => exact (LevelChange.pruned rfl hfree).set p
    case tryPeek.isTrue q hfree => exact (LevelChange.peeked rfl hfree).set p
    case unlock q => exact (LevelChange.unlocked rfl).set p
    all_goals exact .kept

/-- The level whose mutex the task holds. -/
def Task.holding : Task → Option ℕ
  | .queueing (.unlock p) _ => some p
  | .disconnecting _ (.cleared _ p) _ => some p
  | .scheduler _ (.popped scan _) => some scan.level
  | .scheduler _ (.peeked _ q _) => some q
  | .pruner _ (.pruned p) => some p
  | _ => none

def Locks (x : Client) (j : ℕ) (ot : Option Task) : Prop :=
  ∀ t p, ot = some t → t.holding = some p → (x.queue p).holder = some j

variable {s s' : State} {t : Task} {c : Choice} {n : Next} {move : Move}

theorem holding_of_unlock (hact : act t c = some n) (ha : n.action = .unlock p) :
    t.holding = some p := by
  have hp := act_performs hact
  rw [ha] at hp
  rcases hp with ⟨key,rfl⟩ | ⟨conn,was,caller,rfl⟩ | ⟨conn,scan,found,rfl,rfl⟩ |
    ⟨conn,scan,higher,rfl⟩ | ⟨conn,rfl⟩ <;> rfl

/-- A level that another thread holds is left alone. -/
theorem level_held (hi : Locks x i (some t)) (hact : act t c = some n) {r : n.action.Answer}
    (h : x.perform i n.action = some (x',r)) (hji : j ≠ i) (hj : (x.queue p).holder = some j) :
    x'.queue p = x.queue p := by
  have hchange := level_perform h p
  generalize x'.queue p = l at hchange ⊢
  cases hchange with
  | kept => rfl
  | pushed _ _ _ hfree | popped _ _ _ _ hfree | cleared _ hfree | pruned _ hfree
  | peeked _ hfree =>
    rw [hj] at hfree
    cases hfree
  | unlocked ha =>
    have hself := hi t p rfl (holding_of_unlock hact ha)
    rw [hj,Option.some.injEq] at hself
    exact absurd hself hji

theorem nextClear_holding {conn : ℕ} {was : Bool} {q : ℕ} {caller : Caller} :
    (Task.disconnecting conn (nextClear was q) caller).holding = none := by
  simp only [nextClear]
  split <;> rfl

theorem afterDisconnect_holding {conn : ℕ} {caller : Caller} :
    (afterDisconnect conn caller).holding = none := by
  cases caller <;> rfl

theorem handleEvent_holding {conn : ℕ} {event : Event} : (handleEvent conn event).holding = none := by
  cases event <;> rfl

theorem nextLevel_holding {conn : ℕ} {scan : Scan} :
    (Task.scheduler conn scan.nextLevel).holding = none := by
  simp only [Scan.nextLevel]
  split
  · rfl
  · split <;> rfl

theorem probe_holding {conn q : ℕ} {scan : Scan} :
    (Task.scheduler conn (scan.probe q)).holding = none := by
  simp only [Scan.probe]
  split <;> rfl

theorem holding_self {r : n.action.Answer} (hact : act t c = some n)
    (h : x.perform i n.action = some (x',r)) (hp : (n.resume r).holding = some p) :
    (x'.queue p).holder = some i := by
  cases t <;> simp only [act,reduceCtorEq] at hact
  case queueing pc key =>
    cases pc <;> cases c <;> cases hact <;> dsimp only at hp
    case lock.go.refl item =>
      cases hp
      simp only [Client.perform] at h
      split at h <;> simp only [Option.some.injEq,Prod.mk.injEq,reduceCtorEq] at h
      simp [← h.1,Client.setLevel]
    case check.go.refl item =>
      split at hp
      · cases key <;> cases hp
      · cases hp
    case notify.go.refl => cases key <;> cases hp
    all_goals cases hp
  case request pc =>
    unfold sendDbRequest at hact
    split at hact <;> cases hact <;> cases hp
  case disconnecting conn pc caller =>
    cases pc <;> cases c <;> cases hact <;> dsimp only at hp
    case clear.go.refl was q =>
      simp only [Client.perform] at h
      split at h <;> simp only [Option.some.injEq,Prod.mk.injEq] at h <;> obtain ⟨rfl,rfl⟩ := h
      · cases hp
        simp [Client.setLevel]
      · simp [nextClear_holding] at hp
    all_goals (try split at hp) <;>
      first | cases hp | (simp [nextClear_holding,afterDisconnect_holding] at hp)
  case supervisor pc =>
    obtain ⟨pc',hr,-⟩ := superviseConnections_step hact r
    rw [hr] at hp
    cases hp
  case reader conn pc =>
    unfold readLoop at hact
    split at hact <;> cases hact <;> dsimp only at hp <;> (try split at hp) <;>
      first | cases hp | (simp [handleEvent_holding] at hp)
  case writer conn pc =>
    unfold writeLoop at hact
    split at hact <;> cases hact <;> cases hp
  case scheduler conn pc =>
    cases pc
    case' popped scan found => cases found
    all_goals cases c <;> cases hact <;> dsimp only at hp
    case pop.pop.refl scan source =>
      cases hp
      simp only [Client.perform] at h
      split at h <;> simp only [Option.map_eq_some_iff,Prod.mk.injEq,reduceCtorEq] at h
      obtain ⟨⟨found,l⟩,-,rfl,-⟩ := h
      simp [Client.setLevel]
    case probe.go.refl scan q =>
      simp only [Client.perform] at h
      split at h <;> simp only [Option.some.injEq,Prod.mk.injEq] at h <;> obtain ⟨rfl,rfl⟩ := h
      · cases hp
        simp [Client.setLevel]
      · cases hp
    all_goals (repeat' split at hp) <;>
      first | cases hp | (simp [nextLevel_holding,probe_holding] at hp)
  case pinger conn pc =>
    unfold pingLoop at hact
    split at hact <;> cases hact <;> dsimp only at hp <;> (try split at hp) <;> cases hp
  case pruner conn pc =>
    cases pc <;> cases c <;> cases hact <;> dsimp only at hp
    case prune.go.refl q =>
      simp only [Client.perform] at h
      split at h <;> simp only [Option.some.injEq,Prod.mk.injEq] at h <;> obtain ⟨rfl,rfl⟩ := h
      · cases hp
        simp [Client.setLevel]
      · simp only [nextPrune,Bool.false_eq_true,if_false] at hp
        split at hp <;> cases hp
    all_goals
      try simp only [nextPrune] at hp
      try split at hp
      all_goals cases hp

theorem locks_step (hs : Each Locks s) (h : system.machine.step s move = some s') :
    Each Locks s' := by
  cases move with
  | arrive t =>
    obtain ⟨he,rfl⟩ := step_arrive h
    refine hs.arrive fun j _ u p hu hp => ?_
    cases hu
    rcases entry_cases he with ⟨_,_,_,rfl⟩ | ⟨_,rfl⟩ <;> cases hp
  | run i c =>
    obtain ⟨t,t',new,ht⟩ := step_run h
    obtain ⟨n,r,hact,hperf,rfl,rfl⟩ := turn_access ht
    refine hs.turn ht (fun hi u p hu hp => ?_) (fun j o hji _ hj u p hu hp => ?_)
      fun j u hu _ v p hv hp => ?_
    · cases hu
      exact holding_self hact hperf hp
    · have hheld := hj u p hu hp
      have hi : Locks s.shared i (some t) := by
        rw [← ht.thread]
        exact hs i
      rw [level_held hi hact hperf hji hheld]
      exact hheld
    · obtain ⟨conn,role,_,_,rfl,_⟩ := act_spawned hact (by simpa using hu)
      cases hv
      cases role <;> cases hp

theorem locks_initial (reconnectable : Bool) : Each Locks (initial reconnectable) := by
  intro j t p hj hp
  cases j <;> simp [initial] at hj
  subst hj
  cases hp

end Websocket
end JobControllerClient
