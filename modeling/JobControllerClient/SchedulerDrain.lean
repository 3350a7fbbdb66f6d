import JobControllerClient.QueueLocks

/-! The `'reset` loop of the scheduler while nobody else is active: it ends, it emits every
queued message, and it passes a level that still holds messages only after a full burst of
them. The steps of the loop are first reduced to what they do to the contents of the levels. -/
namespace JobControllerClient
namespace SchedulerDrain

open Websocket

/-- The loop of thread `i`; it ends where the scheduler goes back to wait for data. -/
def resetLoop (i : ℕ) : StepMachine (Client × Task) Choice where
  step s c := match s.2 with
    | .scheduler _ .poll => none
    | t => (exec s.1 i t c).map fun r => (r.1,r.2.1)

/-- The message that is handed to the writer next, with the level it comes from. -/
def emits : SchedulerPc → List (ℕ × Item)
  | .sending scan item => [(scan.level,item)]
  | _ => []

def emitted (s : Client × Task) (_ : Choice) : List (ℕ × Item) :=
  match s.2 with
  | .scheduler _ pc => emits pc
  | _ => []

def content (x : Client) (p : ℕ) : List Item := (x.queue p).items

def queued (content : ℕ → List Item) : List (ℕ × Item) :=
  (List.range priorityLevels).flatMap fun p => (content p).map fun item => (p,item)

/-- What one access of the loop does to the contents of the levels. -/
inductive Turn : (ℕ → List Item) → SchedulerPc → (ℕ → List Item) → SchedulerPc → Prop
  | top (Q : ℕ → List Item) (scan : Scan) : Turn Q (.top scan) Q
    (if maxConsecutivePriorityItems ≤ scan.consecutive then scan.nextLevel else .pop scan)
  | vacant (Q : ℕ → List Item) (scan : Scan) (h : Q scan.level = []) :
    Turn Q (.pop scan) Q (.popped scan none)
  | found (Q Q' : ℕ → List Item) (scan : Scan) (item : Item)
    (h : (Q scan.level).Perm (item :: Q' scan.level)) (hother : ∀ p, p ≠ scan.level → Q' p = Q p) :
    Turn Q (.pop scan) Q' (.popped scan (some item))
  | passed (Q : ℕ → List Item) (scan : Scan) : Turn Q (.popped scan none) Q scan.nextLevel
  | taken (Q : ℕ → List Item) (scan : Scan) (item : Item) :
    Turn Q (.popped scan (some item)) Q (.sending scan item)
  | sent (Q : ℕ → List Item) (scan : Scan) (item : Item) :
    Turn Q (.sending scan item) Q (scan.taken.probe 0)
  | probe (Q : ℕ → List Item) (scan : Scan) (q : ℕ) :
    Turn Q (.probe scan q) Q (.peeked scan q (Q q ≠ []))
  | peeked (Q : ℕ → List Item) (scan : Scan) (q : ℕ) (higher : Bool) :
    Turn Q (.peeked scan q higher) Q (if higher then .top .start else scan.probe (q + 1))

/-- The accesses of the loop, and its end. -/
def scanning : SchedulerPc → Bool
  | .poll | .top _ | .pop _ | .popped .. | .sending .. | .probe .. | .peeked .. => true
  | _ => false

/-- The connection is the current one, its writer is alive, and no other thread holds a level. -/
structure Quiet (conn : ℕ) (x : Client) (pc : SchedulerPc) : Prop where
  current : x.connectionId = conn
  receiver : (x.writers conn).receiver = true
  free : ∀ p, (Task.scheduler conn pc).holding ≠ some p → (x.queue p).holder = none
  scanning : scanning pc = true

section Refinement

variable {i conn : ℕ} {x y : Client} {pc : SchedulerPc} {scan : Scan} {c : Choice}
  {t : Client × Task}

theorem step_eq_some (hstep : (resetLoop i).step (x,.scheduler conn pc) c = some t) :
    ∃ n r, schedule conn pc c = some n ∧ x.perform i n.action = some r ∧ t = (r.1,n.resume r.2) := by
  simp only [resetLoop] at hstep
  split at hstep
  · cases hstep
  · simp only [exec,act,Option.map_eq_some_iff,Option.bind_eq_some_iff] at hstep
    obtain ⟨_,⟨n,hn,r,hr,rfl⟩,rfl⟩ := hstep
    exact ⟨n,r,hn,hr,rfl⟩

theorem scanning_nextLevel (scan : Scan) : scanning scan.nextLevel = true := by
  unfold Scan.nextLevel
  split
  · rfl
  · split <;> rfl

theorem scanning_probe (scan : Scan) (q : ℕ) : scanning (scan.probe q) = true := by
  unfold Scan.probe
  split <;> rfl

theorem content_setLevel {p : ℕ} {l : Level} (h : l.items = content x p) :
    content (x.setLevel p l) = content x := by
  funext q
  by_cases hq : q = p
  · subst hq
    simpa [content,Client.setLevel] using h
  · simp [content,Client.setLevel,hq]

theorem perform_unlock {p : ℕ} (hp : (Task.scheduler conn pc).holding = some p)
    (hq : Quiet conn x pc) : content (x.setLevel p { x.queue p with holder := none }) = content x ∧
      ∀ r, ((x.setLevel p { x.queue p with holder := none }).queue r).holder = none := by
  refine ⟨content_setLevel rfl,fun r => ?_⟩
  by_cases hr : r = p
  · subst hr
    simp [Client.setLevel]
  · have hfree := hq.free r (by rw [hp]; simpa using Ne.symm hr)
    simpa [Client.setLevel,hr] using hfree

theorem free_setLevel {p : ℕ} {l : Level} {pc' : SchedulerPc} (hfree : ∀ r, (x.queue r).holder = none)
    (hp : (Task.scheduler conn pc').holding = some p) (r : ℕ)
    (hr : (Task.scheduler conn pc').holding ≠ some r) : ((x.setLevel p l).queue r).holder = none := by
  have hne : r ≠ p := fun h => hr (h ▸ hp)
  simpa [Client.setLevel,hne] using hfree r

theorem Quiet.free_all (hq : Quiet conn x pc) (h : (Task.scheduler conn pc).holding = none) (p : ℕ) :
    (x.queue p).holder = none := hq.free p (by simp [h])

theorem step_turn (hq : Quiet conn x pc)
    (hstep : (resetLoop i).step (x,.scheduler conn pc) c = some t) :
    ∃ pc', t.2 = .scheduler conn pc' ∧ Turn (content x) pc (content t.1) pc' ∧
      Quiet conn t.1 pc' ∧ t.1.handed = x.handed ++ (emits pc).map fun e => (e.2,conn) := by
  obtain ⟨n,⟨y,a⟩,hn,hr,rfl⟩ := step_eq_some hstep
  have hscan := hq.scanning
  cases pc with
  | poll => simp [resetLoop] at hstep
  | parked | checkId | checkReady | checkClosed | leaving | done => cases hscan
  | top scan =>
    cases c <;> cases hn
    cases hr
    have hcurrent := hq.current
    refine ⟨_,?_,.top _ scan,⟨hq.current,hq.receiver,fun p _ => hq.free_all rfl p,?_⟩,by simp [emits]⟩
    · simp [hcurrent]
    · split
      · exact scanning_nextLevel scan
      · rfl
  | pop scan =>
    cases c <;> cases hn
    rename_i source
    simp only [Client.perform,hq.free_all rfl,if_true,Option.map_eq_some_iff] at hr
    obtain ⟨⟨found,l⟩,hpop,heq⟩ := hr
    cases heq
    have hquiet : Quiet conn (x.setLevel scan.level { l with holder := some i })
        (.popped scan found) :=
      ⟨hq.current,hq.receiver,free_setLevel (hq.free_all rfl) rfl,rfl⟩
    refine ⟨.popped scan found,rfl,?_,hquiet,by simp [emits,Client.setLevel]⟩
    cases found with
    | none =>
      obtain ⟨rfl,hdata⟩ := Level.pop_none hpop
      rw [content_setLevel (by rfl)]
      exact .vacant _ scan (Level.hasData_eq_false.mp hdata)
    | some item =>
      refine .found _ _ scan item ?_ fun p hp => ?_
      · simpa [content,Client.setLevel] using Level.pop_perm hpop
      · simp [content,Client.setLevel,hp]
  | popped scan found =>
    obtain ⟨hcontent,hfree⟩ := perform_unlock (p := scan.level) rfl hq
    cases found with
    | none =>
      cases c <;> cases hn
      cases hr
      refine ⟨scan.nextLevel,rfl,?_,⟨hq.current,hq.receiver,fun p _ => hfree p,
        scanning_nextLevel scan⟩,by simp [emits,Client.setLevel]⟩
      rw [hcontent]
      exact .passed _ scan
    | some item =>
      cases c <;> cases hn
      cases hr
      refine ⟨.sending scan item,rfl,?_,⟨hq.current,hq.receiver,fun p _ => hfree p,rfl⟩,
        by simp [emits,Client.setLevel]⟩
      rw [hcontent]
      exact .taken _ scan item
  | sending scan item =>
    cases c <;> cases hn
    simp only [Client.perform,hq.receiver,if_true,Option.some.injEq] at hr
    cases hr
    refine ⟨scan.taken.probe 0,rfl,.sent _ scan item,⟨hq.current,?_,fun p _ => hq.free_all rfl p,
      scanning_probe _ _⟩,by simp [emits]⟩
    simp [Client.setWriter]
  | probe scan q =>
    cases c <;> cases hn
    simp only [Client.perform,hq.free_all rfl,if_true,Option.some.injEq] at hr
    cases hr
    have hquiet : Quiet conn (x.setLevel q { x.queue q with holder := some i })
        (.peeked scan q (x.queue q).hasData) :=
      ⟨hq.current,hq.receiver,free_setLevel (hq.free_all rfl) rfl,rfl⟩
    refine ⟨.peeked scan q (x.queue q).hasData,rfl,?_,hquiet,by simp [emits,Client.setLevel]⟩
    have hdata : (x.queue q).hasData = decide (content x q ≠ []) := by
      rw [Bool.eq_iff_iff,decide_eq_true_eq,content,← not_iff_not,Bool.not_eq_true,
        Level.hasData_eq_false,not_not]
    rw [content_setLevel (by rfl),hdata]
    exact .probe _ scan q
  | peeked scan q higher =>
    obtain ⟨hcontent,hfree⟩ := perform_unlock (p := q) rfl hq
    cases c <;> cases hn
    cases hr
    refine ⟨_,rfl,?_,⟨hq.current,hq.receiver,fun p _ => hfree p,?_⟩,by simp [emits,Client.setLevel]⟩
    · rw [hcontent]
      exact .peeked _ scan q higher
    · split
      · rfl
      · exact scanning_probe scan _

end Refinement

/-- The last `k` messages came from level `p`. -/
def Burst (log : List (ℕ × Item)) (p k : ℕ) : Prop :=
  ∃ before burst, log = before ++ burst ∧ burst.length = k ∧ ∀ e ∈ burst, e.1 = p

/-- Level `q` is passed over on the way to level `p`: it has had its burst, and it is the
only level on the way that still holds messages. -/
structure PassedOver (Q : ℕ → List Item) (log : List (ℕ × Item)) (p q : ℕ) : Prop where
  burst : Burst log q maxConsecutivePriorityItems
  only : ∀ r < p, r ≠ q → Q r = []

structure Scanned (Q : ℕ → List Item) (scan : Scan) (log : List (ℕ × Item)) : Prop where
  level : scan.level < priorityLevels
  burst : Burst log scan.level scan.consecutive
  idle : scan.hadAnyData = false → scan.consecutive = 0 ∧ ∀ q < scan.level, Q q = []
  going : scan.consecutive ≠ 0 → ∀ q < scan.level, Q q = []
  passed : ∀ q < scan.level, Q q ≠ [] → PassedOver Q log scan.level q

/-- A message has just been sent, and the levels before `q` are known to be empty. -/
structure Probing (Q : ℕ → List Item) (scan : Scan) (log : List (ℕ × Item)) (q : ℕ) : Prop where
  level : scan.level < priorityLevels
  data : scan.hadAnyData = true
  capped : scan.consecutive ≤ maxConsecutivePriorityItems
  burst : Burst log scan.level scan.consecutive
  above : ∀ r < q, Q r = []

/-- What holds at each access. -/
def Stage (Q : ℕ → List Item) (log : List (ℕ × Item)) : SchedulerPc → Prop
  | .poll => ∀ p < priorityLevels, Q p = []
  | .top scan => Scanned Q scan log ∧ scan.consecutive ≤ maxConsecutivePriorityItems
  | .pop scan => Scanned Q scan log ∧ scan.consecutive < maxConsecutivePriorityItems
  | .popped scan none => Scanned Q scan log ∧ Q scan.level = []
  | .popped scan (some _) => Scanned Q scan log ∧ scan.consecutive < maxConsecutivePriorityItems
  | .sending scan _ => Scanned Q scan log ∧ scan.consecutive < maxConsecutivePriorityItems
  | .probe scan q => q < scan.level ∧ Probing Q scan log q
  | .peeked scan q higher => q < scan.level ∧ Probing Q scan log q ∧ higher = decide (Q q ≠ [])
  | _ => False

section Discipline

variable {Q Q' : ℕ → List Item} {log : List (ℕ × Item)} {scan : Scan} {pc pc' : SchedulerPc}

theorem burst_zero (log : List (ℕ × Item)) (p : ℕ) : Burst log p 0 :=
  ⟨log,[],by simp,rfl,by simp⟩

theorem Burst.snoc {p k : ℕ} (h : Burst log p k) (item : Item) : Burst (log ++ [(p,item)]) p (k + 1) := by
  obtain ⟨before,burst,rfl,rfl,hlevel⟩ := h
  refine ⟨before,burst ++ [(p,item)],by simp,by simp,fun e he => ?_⟩
  rcases List.mem_append.mp he with he | he
  · exact hlevel e he
  · rw [List.mem_singleton.mp he]

theorem scanned_start (Q : ℕ → List Item) (log : List (ℕ × Item)) : Scanned Q .start log where
  level := by decide
  burst := burst_zero log 0
  idle _ := ⟨rfl,fun q hq => absurd hq (Nat.not_lt_zero q)⟩
  going h := absurd rfl h
  passed q hq := absurd hq (Nat.not_lt_zero q)

theorem Scanned.nextLevel (h : Scanned Q scan log)
    (hend : scan.consecutive = maxConsecutivePriorityItems ∨ Q scan.level = []) :
    Stage Q log scan.nextLevel := by
  have hidle (hdata : scan.hadAnyData = false) (q : ℕ) (hq : q < scan.level + 1) : Q q = [] := by
    obtain ⟨hzero,hempty⟩ := h.idle hdata
    rcases Nat.lt_succ_iff_lt_or_eq.mp hq with hq | rfl
    · exact hempty q hq
    · refine hend.resolve_left fun hcap => ?_
      cases hzero.symm.trans hcap
  unfold Scan.nextLevel
  split
  · rename_i hlevel
    refine ⟨⟨hlevel,burst_zero log _,fun hdata => ⟨rfl,hidle hdata⟩,fun hk => absurd rfl hk,?_⟩,
      Nat.zero_le _⟩
    intro q hq hne
    rcases Nat.lt_succ_iff_lt_or_eq.mp hq with hq | rfl
    · have hpassed := h.passed q hq hne
      have hvacant : Q scan.level = [] := by
        refine hend.resolve_left fun hcap => hne (h.going ?_ q hq)
        rw [hcap]
        decide
      refine ⟨hpassed.burst,fun r hr hrq => ?_⟩
      rcases Nat.lt_succ_iff_lt_or_eq.mp hr with hr | rfl
      · exact hpassed.only r hr hrq
      · exact hvacant
    · have hcap := hend.resolve_right hne
      refine ⟨hcap ▸ h.burst,fun r hr hrq => h.going ?_ r ?_⟩
      · rw [hcap]
        decide
      · exact (Nat.lt_succ_iff_lt_or_eq.mp hr).resolve_right hrq
  · split
    · exact ⟨scanned_start Q log,Nat.zero_le _⟩
    · rename_i hlast hdata
      intro p hp
      exact hidle (by simpa using hdata) p (by omega)

theorem Probing.next {q : ℕ} (h : Probing Q scan log q) (hq : q ≤ scan.level) :
    Stage Q log (scan.probe q) := by
  unfold Scan.probe
  split
  · rename_i hlt
    exact ⟨hlt,h⟩
  · obtain rfl : q = scan.level := by omega
    refine ⟨⟨h.level,h.burst,fun hdata => ?_,fun _ => h.above,fun r hr hne => ?_⟩,h.capped⟩
    · cases hdata.symm.trans h.data
    · exact absurd (h.above r hr) hne

theorem Probing.pass {q : ℕ} (h : Probing Q scan log q) (hvacant : Q q = []) :
    Probing Q scan log (q + 1) where
  level := h.level
  data := h.data
  capped := h.capped
  burst := h.burst
  above r hr := by
    rcases Nat.lt_succ_iff_lt_or_eq.mp hr with hr | rfl
    · exact h.above r hr
    · exact hvacant

theorem Scanned.found (h : Scanned Q scan log) (hother : ∀ p, p ≠ scan.level → Q' p = Q p) :
    Scanned Q' scan log := by
  have hsame (q : ℕ) (hq : q < scan.level) : Q' q = Q q := hother q hq.ne
  refine ⟨h.level,h.burst,fun hdata => ?_,fun hk q hq => ?_,fun q hq hne => ?_⟩
  · exact ⟨(h.idle hdata).1,fun q hq => (hsame q hq).trans ((h.idle hdata).2 q hq)⟩
  · exact (hsame q hq).trans (h.going hk q hq)
  · rw [hsame q hq] at hne
    have hpassed := h.passed q hq hne
    exact ⟨hpassed.burst,fun r hr hrq => (hsame r hr).trans (hpassed.only r hr hrq)⟩

theorem Scanned.sent (h : Scanned Q scan log) (hk : scan.consecutive < maxConsecutivePriorityItems)
    (item : Item) : Probing Q scan.taken (log ++ [(scan.level,item)]) 0 where
  level := h.level
  data := rfl
  capped := hk
  burst := h.burst.snoc item
  above r hr := absurd hr (Nat.not_lt_zero r)

theorem Stage.turn (h : Stage Q log pc) (hturn : Turn Q pc Q' pc') :
    Stage Q' (log ++ emits pc) pc' := by
  cases hturn with
  | top scan =>
    simp only [emits,List.append_nil]
    split
    · rename_i hcap
      exact h.1.nextLevel (.inl (h.2.antisymm hcap))
    · rename_i hcap
      exact ⟨h.1,not_le.mp hcap⟩
  | vacant scan hvacant =>
    simp only [emits,List.append_nil]
    exact ⟨h.1,hvacant⟩
  | found _ scan item hitem hother =>
    simp only [emits,List.append_nil]
    exact ⟨h.1.found hother,h.2⟩
  | passed scan =>
    simp only [emits,List.append_nil]
    exact h.1.nextLevel (.inr h.2)
  | taken scan item =>
    simp only [emits,List.append_nil]
    exact h
  | sent scan item => exact (h.1.sent h.2 item).next (Nat.zero_le _)
  | probe scan q =>
    simp only [emits,List.append_nil]
    exact ⟨h.1,h.2,rfl⟩
  | peeked scan q higher =>
    simp only [emits,List.append_nil]
    obtain ⟨hq,hprobing,hhigher⟩ := h
    cases higher with
    | true => exact ⟨scanned_start Q log,Nat.zero_le _⟩
    | false =>
      have hvacant : Q q = [] := by simpa using hhigher.symm
      exact (hprobing.pass hvacant).next hq

def inHand : SchedulerPc → List (ℕ × Item)
  | .popped scan (some item) => [(scan.level,item)]
  | .sending scan item => [(scan.level,item)]
  | _ => []

theorem queued_found {p : ℕ} {item : Item} (hp : p < priorityLevels)
    (hitem : (Q p).Perm (item :: Q' p)) (hother : ∀ r, r ≠ p → Q' r = Q r) :
    (queued Q).Perm ((p,item) :: queued Q') := by
  obtain ⟨before,after,hrange⟩ := List.append_of_mem (List.mem_range.mpr hp)
  have hnodup : (before ++ p :: after).Nodup := hrange ▸ List.nodup_range
  rw [List.nodup_middle,List.nodup_cons,List.mem_append,not_or] at hnodup
  have hsame (ps : List ℕ) (hps : p ∉ ps) :
      (ps.flatMap fun r => (Q r).map fun item => (r,item)) =
        ps.flatMap fun r => (Q' r).map fun item => (r,item) := by
    refine List.flatMap_congr fun r hr => ?_
    rw [hother r fun h => hps (h ▸ hr)]
  simp only [queued,hrange,List.flatMap_append,List.flatMap_cons,hsame before hnodup.1.1,
    hsame after hnodup.1.2]
  have hlevel := hitem.map fun item => (p,item)
  rw [List.map_cons] at hlevel
  exact ((hlevel.append_right _).append_left _).trans List.perm_middle

theorem inHand_nextLevel (scan : Scan) : inHand scan.nextLevel = [] := by
  unfold Scan.nextLevel
  split
  · rfl
  · split <;> rfl

theorem inHand_probe (scan : Scan) (q : ℕ) : inHand (scan.probe q) = [] := by
  unfold Scan.probe
  split <;> rfl

/-- A turn moves messages from the queue to the hand and from the hand to the writer. -/
theorem Stage.conserves (h : Stage Q log pc) (hturn : Turn Q pc Q' pc') :
    (inHand pc ++ queued Q).Perm (emits pc ++ inHand pc' ++ queued Q') := by
  cases hturn with
  | top scan =>
    split
    · rw [inHand_nextLevel]
      exact .refl _
    · exact .refl _
  | vacant scan => exact .refl _
  | found _ scan item hitem hother => exact queued_found h.1.level hitem hother
  | passed scan =>
    rw [inHand_nextLevel]
    exact .refl _
  | taken scan item => exact .refl _
  | sent scan item =>
    rw [inHand_probe]
    exact .refl _
  | probe scan q => exact .refl _
  | peeked scan q higher =>
    cases higher with
    | true => exact .refl _
    | false =>
      simp only [Bool.false_eq_true,if_false,inHand_probe]
      exact .refl _

/-- What a pass from here on can still cost, without the messages it finds. -/
def Scan.cost (scan : Scan) : ℕ :=
  3 * (priorityLevels - scan.level) + if scan.hadAnyData then 3 * priorityLevels + 1 else 0

def cost : SchedulerPc → ℕ
  | .top scan => Scan.cost scan
  | .pop scan => Scan.cost scan - 1
  | .popped scan none => Scan.cost scan - 2
  | .popped scan (some _) => 2 * scan.level + 125
  | .sending scan _ => 2 * scan.level + 124
  | .probe scan q => 2 * (scan.level - q) + 122
  | .peeked scan q _ => 2 * (scan.level - q) + 121
  | _ => 0

/-- Every queued message pays for a complete pass. -/
def potential (Q : ℕ → List Item) (pc : SchedulerPc) : ℕ := 165 * (queued Q).length + cost pc

theorem cost_nextLevel (hlevel : scan.level < priorityLevels) :
    cost scan.nextLevel + 3 ≤ Scan.cost scan := by
  unfold Scan.nextLevel
  split
  · simp only [cost,Scan.cost]
    omega
  · split
    · rename_i hdata
      simp only [cost,Scan.cost,Scan.start,hdata,priorityLevels] at hlevel ⊢
      simp
      omega
    · simp only [cost,Scan.cost]
      omega

theorem cost_probe {q : ℕ} (h : Probing Q scan log q) (hq : q ≤ scan.level) :
    cost (scan.probe q) ≤ 2 * (scan.level - q) + 122 := by
  have hlevel := h.level
  unfold Scan.probe
  split
  · exact le_rfl
  · simp only [cost,Scan.cost,h.data,if_true,priorityLevels] at hlevel ⊢
    omega

theorem le_cost (hlevel : scan.level < priorityLevels) : 3 ≤ Scan.cost scan := by
  unfold Scan.cost
  omega

theorem Stage.potential_lt (h : Stage Q log pc) (hturn : Turn Q pc Q' pc') :
    1 + potential Q' pc' ≤ potential Q pc := by
  unfold potential
  cases hturn with
  | top scan =>
    have hnext := cost_nextLevel h.1.level
    have htop : cost (.top scan) = Scan.cost scan := rfl
    have hpop : cost (.pop scan) = Scan.cost scan - 1 := rfl
    split <;> omega
  | vacant scan =>
    have hcost := le_cost h.1.level
    simp only [cost]
    omega
  | found _ scan item hitem hother =>
    have hlength := (queued_found h.1.level hitem hother).length_eq
    have hcost := le_cost h.1.level
    have hlevel := h.1.level
    simp only [cost,List.length_cons,priorityLevels] at hlength hlevel ⊢
    omega
  | passed scan =>
    have hnext := cost_nextLevel h.1.level
    have hpopped : cost (.popped scan none) = Scan.cost scan - 2 := rfl
    omega
  | taken scan item =>
    simp only [cost]
    omega
  | sent scan item =>
    have hprobe := cost_probe (h.1.sent h.2 item) (Nat.zero_le _)
    simp only [cost,Scan.taken] at hprobe ⊢
    omega
  | probe scan q =>
    simp only [cost]
    omega
  | peeked scan q higher =>
    obtain ⟨hq,hprobing,hhigher⟩ := h
    cases higher with
    | true =>
      have hstart : cost (.top .start) = 60 := rfl
      have hpeeked : cost (.peeked scan q true) = 2 * (scan.level - q) + 121 := rfl
      rw [if_pos rfl]
      omega
    | false =>
      have hvacant : Q q = [] := by simpa using hhigher.symm
      have hprobe := cost_probe (hprobing.pass hvacant) hq
      have hpeeked : cost (.peeked scan q false) = 2 * (scan.level - q) + 121 := rfl
      rw [if_neg Bool.false_ne_true]
      omega

/-- A level above still holds messages, and it will be found. -/
def Returning (Q : ℕ → List Item) : SchedulerPc → Prop
  | .probe scan r => ∃ q, r ≤ q ∧ q < scan.level ∧ Q q ≠ []
  | .peeked scan r higher => higher = decide (Q r ≠ []) ∧ ∃ q, r ≤ q ∧ q < scan.level ∧ Q q ≠ []
  | .top scan => scan = .start
  | _ => False

def isTop : SchedulerPc → Bool
  | .top _ => true
  | _ => false

theorem returning_probe {q r : ℕ} (hr : r ≤ q) (hq : q < scan.level) (hne : Q q ≠ []) :
    Returning Q (scan.probe r) := by
  rw [Scan.probe,if_pos (by omega)]
  exact ⟨q,hr,hq,hne⟩

theorem Returning.turn (h : Returning Q pc) (htop : isTop pc = false) (hturn : Turn Q pc Q' pc') :
    Returning Q' pc' := by
  cases hturn with
  | top scan => cases htop
  | probe scan r => exact ⟨rfl,h⟩
  | peeked scan r higher =>
    obtain ⟨hhigher,q,hr,hq,hne⟩ := h
    cases higher with
    | true => exact rfl
    | false =>
      have hvacant : Q r = [] := by simpa using hhigher.symm
      have hrq : r ≠ q := fun heq => hne (heq ▸ hvacant)
      exact returning_probe (by omega) hq hne
  | vacant | found | passed | taken | sent => exact h.elim

end Discipline

section Runs

variable {i conn : ℕ} {x x₀ : Client} {pc : SchedulerPc} {log : List (ℕ × Item)} {c : Choice}
  {s t : Client × Task} {cs : List Choice}

/-- What holds of the loop and of what it has emitted, from contents `x₀` on. -/
structure Draining (conn : ℕ) (x₀ x : Client) (pc : SchedulerPc) (log : List (ℕ × Item)) : Prop where
  quiet : Quiet conn x pc
  stage : Stage (content x) log pc
  conserved : (log ++ inHand pc ++ queued (content x)).Perm (queued (content x₀))
  handed : x.handed = x₀.handed ++ log.map fun e => (e.2,conn)

def DrainingAt (conn : ℕ) (x₀ : Client) (s : Client × Task) (log : List (ℕ × Item)) : Prop :=
  ∃ pc, s.2 = .scheduler conn pc ∧ Draining conn x₀ s.1 pc log

theorem Draining.step (h : Draining conn x₀ x pc log)
    (hstep : (resetLoop i).step (x,.scheduler conn pc) c = some t) :
    DrainingAt conn x₀ t (log ++ emits pc) := by
  obtain ⟨pc',ht,hturn,hquiet,hhanded⟩ := step_turn h.quiet hstep
  refine ⟨pc',ht,hquiet,h.stage.turn hturn,?_,?_⟩
  · have hmoved := (h.stage.conserves hturn).append_left log
    simp only [← List.append_assoc] at hmoved
    exact hmoved.symm.trans h.conserved
  · rw [hhanded,h.handed,List.map_append,List.append_assoc]

theorem draining_run (h : Draining conn x₀ x pc log)
    (hrun : (resetLoop i).run (x,.scheduler conn pc) cs = some t) :
    DrainingAt conn x₀ t (log ++ (resetLoop i).log emitted (x,.scheduler conn pc) cs) := by
  refine StepMachine.log_invariant (I := DrainingAt conn x₀) (P := fun _ _ => True) ?_ ⟨pc,rfl,h⟩
    (StepMachine.meets_true _ _) hrun
  rintro ⟨y,_⟩ c u l ⟨pc,rfl,hdraining⟩ - hstep
  exact hdraining.step hstep

theorem step_isSome (hpc : pc ≠ .poll) {n : Next} {r : Client × n.action.Answer}
    (hn : schedule conn pc c = some n) (hr : x.perform i n.action = some r) :
    ((resetLoop i).step (x,.scheduler conn pc) c).isSome := by
  have hexec : (exec x i (.scheduler conn pc) c).isSome := by simp [exec,act,hn,hr]
  simp only [resetLoop]
  split
  next heq =>
    cases heq
    exact absurd rfl hpc
  next => rwa [Option.isSome_map]

theorem exists_step (hq : Quiet conn x pc) (hpc : pc ≠ .poll) :
    ∃ c, ((resetLoop i).step (x,.scheduler conn pc) c).isSome := by
  have hscan := hq.scanning
  cases pc with
  | poll => exact absurd rfl hpc
  | parked | checkId | checkReady | checkClosed | leaving | done => cases hscan
  | top scan => exact ⟨.go,rfl⟩
  | pop scan =>
    obtain ⟨source,r,hpop⟩ := (x.queue scan.level).exists_pop
    have hlock : x.perform i (.lockPop scan.level source) =
        some (x.setLevel scan.level { r.2 with holder := some i },r.1) := by
      rw [Client.perform,if_pos (hq.free_all rfl scan.level),hpop]
      rfl
    exact ⟨.pop source,step_isSome hpc rfl hlock⟩
  | popped scan found => cases found <;> exact ⟨.go,rfl⟩
  | sending scan item => exact ⟨.go,step_isSome hpc rfl (if_pos hq.receiver)⟩
  | probe scan q => exact ⟨.go,step_isSome hpc rfl (if_pos (hq.free_all rfl q))⟩
  | peeked scan q higher => exact ⟨.go,rfl⟩

def remaining (s : Client × Task) : ℕ :=
  match s.2 with
  | .scheduler _ pc => potential (content s.1) pc
  | _ => 0

theorem length_run (h : Draining conn x₀ x pc log)
    (hrun : (resetLoop i).run (x,.scheduler conn pc) cs = some t) :
    cs.length ≤ potential (content x) pc := by
  have hbound := StepMachine.length_run_le (I := fun s => ∃ log, DrainingAt conn x₀ s log)
    (m := resetLoop i) ?_ remaining (fun _ => false) 0 ?_ ⟨log,pc,rfl,h⟩ hrun
  · exact (Nat.le_add_right _ _).trans (by simpa [remaining] using hbound)
  · rintro ⟨y,_⟩ c u ⟨l,pc,rfl,hdraining⟩ hstep
    exact ⟨_,hdraining.step hstep⟩
  · rintro ⟨y,_⟩ c ⟨z,_⟩ ⟨l,pc,rfl,hdraining⟩ hstep
    obtain ⟨pc',rfl,hturn,-⟩ := step_turn hdraining.quiet hstep
    exact hdraining.stage.potential_lt hturn

def topOf (s : Client × Task) : Bool :=
  match s.2 with
  | .scheduler _ pc => isTop pc
  | _ => false

theorem returning_run (hq : Quiet conn x pc) (hreturning : Returning (content x) pc)
    (hm : (resetLoop i).Meets (fun s _ => topOf s = false) (x,.scheduler conn pc) cs)
    (hrun : (resetLoop i).run (x,.scheduler conn pc) cs = some t) :
    ∃ pc', t.2 = .scheduler conn pc' ∧ Returning (content t.1) pc' := by
  have hend := StepMachine.invariant (m := resetLoop i) (P := fun s _ => topOf s = false)
    (I := fun s => ∃ pc, s.2 = .scheduler conn pc ∧ Quiet conn s.1 pc ∧ Returning (content s.1) pc)
    ?_ ⟨pc,rfl,hq,hreturning⟩ hm hrun
  · obtain ⟨pc',ht,-,hreturning'⟩ := hend
    exact ⟨pc',ht,hreturning'⟩
  · rintro ⟨y,_⟩ c u ⟨pc,rfl,hquiet,hreturning⟩ htop hstep
    obtain ⟨pc',hu,hturn,hquiet',-⟩ := step_turn hquiet hstep
    exact ⟨pc',hu,hquiet',hreturning.turn htop hturn⟩

end Runs

def begun (conn : ℕ) (x : Client) : Client × Task := (x,.scheduler conn (.top .start))

/-- The loop looks at the levels above, or it has begun again with the first level. -/
def Rescanning : Task → Prop
  | .scheduler _ (.probe ..) => True
  | .scheduler _ (.peeked ..) => True
  | .scheduler _ (.top scan) => scan = .start
  | _ => False

/-- After the next access and up to the next scan, the loop is on its way to the first level. -/
def Restarts (i : ℕ) (s : Client × Task) : Prop :=
  ∀ c cs t, (resetLoop i).run s (c :: cs) = some t →
    (resetLoop i).Meets (fun s _ => topOf s = false) s (c :: cs) → Rescanning t.2

theorem rescanning_of_returning {conn : ℕ} {Q : ℕ → List Item} {pc : SchedulerPc}
    (h : Returning Q pc) : Rescanning (.scheduler conn pc) := by
  cases pc with
  | probe | peeked => trivial
  | top scan => exact h
  | poll | parked | checkId | checkReady | checkClosed | pop | sending | leaving | done => exact h.elim
  | popped scan found => cases found <;> exact h.elim

theorem restarts_of_sending {i conn q : ℕ} {x : Client} {scan : Scan} {item : Item}
    (hquiet : Quiet conn x (.sending scan item)) (hq : q < scan.level) (hne : content x q ≠ []) :
    Restarts i (x,.scheduler conn (.sending scan item)) := by
  intro c cs t hrun hmeets
  obtain ⟨⟨y,_⟩,hstep,hrest⟩ := (StepMachine.run_cons_eq_some _).mp hrun
  obtain ⟨pc,rfl,hturn,hquiet',-⟩ := step_turn hquiet hstep
  have hreturning : Returning (content y) pc := by
    generalize content x = Q at hturn hne
    generalize content y = Q' at hturn ⊢
    cases hturn with
    | sent => exact returning_probe (Nat.zero_le _) hq hne
  obtain ⟨pc',ht,hreturning'⟩ := returning_run hquiet' hreturning (hmeets.tail hstep) hrest
  rw [ht]
  exact rescanning_of_returning hreturning'

/-- Alone, the `'reset` loop ends and has then emitted every queued message, and it takes a
message past a level that holds some only after a full burst of that level, which is the
only such level, and then begins again with the first level. -/
theorem scheduler_drains (i conn : ℕ) (x : Client) (hcurrent : x.connectionId = conn)
    (hreceiver : (x.writers conn).receiver = true) (hfree : ∀ p, (x.queue p).holder = none)
    (cs : List Choice) (t : Client × Task)
    (hrun : (resetLoop i).run (begun conn x) cs = some t) :
    let log := (resetLoop i).log emitted (begun conn x) cs
    cs.length ≤ 165 * (queued (content x)).length + 60 ∧
    t.1.handed = x.handed ++ log.map (fun e => (e.2,conn)) ∧
    (t.2 = .scheduler conn .poll ∧ log.Perm (queued (content x)) ∨
      ∃ c, ((resetLoop i).step t c).isSome) ∧
    ∀ scan item q, t.2 = .scheduler conn (.sending scan item) → q < scan.level →
      (t.1.queue q).hasData = true →
        Burst log q maxConsecutivePriorityItems ∧
        (∀ r < scan.level, r ≠ q → (t.1.queue r).hasData = false) ∧ Restarts i t := by
  intro log
  have hstart : Draining conn x x (.top .start) [] :=
    ⟨⟨hcurrent,hreceiver,fun p _ => hfree p,rfl⟩,⟨scanned_start _ _,Nat.zero_le _⟩,
      by simp [inHand],by simp⟩
  obtain ⟨pc,hpc,hdraining⟩ := draining_run hstart hrun
  rw [List.nil_append] at hdraining
  refine ⟨length_run hstart hrun,hdraining.handed,?_,?_⟩
  · obtain ⟨y,_⟩ := t
    obtain rfl : _ = Task.scheduler conn pc := hpc
    by_cases hpoll : pc = .poll
    · subst hpoll
      have hempty : queued (content y) = [] := by
        refine List.flatMap_eq_nil_iff.mpr fun p hp => ?_
        rw [hdraining.stage p (List.mem_range.mp hp),List.map_nil]
      have hconserved := hdraining.conserved
      simp only [hempty,inHand,List.append_nil] at hconserved
      exact .inl ⟨rfl,hconserved⟩
    · exact .inr (exists_step hdraining.quiet hpoll)
  · intro scan item q hsending hq hdata
    obtain ⟨y,_⟩ := t
    obtain rfl : _ = Task.scheduler conn (.sending scan item) := hsending
    obtain rfl : SchedulerPc.sending scan item = pc := by simpa using hpc
    have hne : content y q ≠ [] := by
      intro hempty
      rw [Level.hasData_eq_false.mpr hempty] at hdata
      cases hdata
    have hpassed := hdraining.stage.1.passed q hq hne
    exact ⟨hpassed.burst,fun r hr hrq => Level.hasData_eq_false.mpr (hpassed.only r hr hrq),
      restarts_of_sending hdraining.quiet hq hne⟩

def message (priority : Messaging.Priority) : Item := ⟨"a",[],priority,0,0⟩

def busy : Client :=
  ({ Client.new with connectionId := 1 }.setWriter 1 ⟨[],true,3⟩).setLevel 0
      ⟨none,AList.singleton "a" (List.replicate 17 (message .highest))⟩ |>.setLevel 10
      ⟨none,AList.singleton "a" [message .medium]⟩

/-- Sixteen messages are sent, and the levels below are searched for another one. -/
def firstBurst : List Choice :=
  (List.replicate 16 [Choice.go,.pop (some "a"),.go,.go]).flatten ++ [Choice.go] ++
    (List.replicate 9 [Choice.go,.pop none,.go]).flatten ++ [Choice.go,.pop (some "a"),.go]

def sendsAt (level : ℕ) : Task → Bool
  | .scheduler 1 (.sending scan _) => scan.level = level
  | _ => false

theorem scheduler_drains_busy : ∃ t, (resetLoop 0).run (begun 1 busy) firstBurst = some t ∧
    sendsAt 10 t.2 = true ∧ (t.1.queue 0).hasData = true ∧
      Burst ((resetLoop 0).log emitted (begun 1 busy) firstBurst) 0 16 := by
  have hrun : ((resetLoop 0).run (begun 1 busy) firstBurst).any (fun t =>
      sendsAt 10 t.2 && (t.1.queue 0).hasData) = true := by decide +kernel
  obtain ⟨t,ht,hprops⟩ := (Option.any_eq_true _ _).mp hrun
  obtain ⟨hsends,hdata⟩ := (Bool.and_eq_true _ _).mp hprops
  obtain ⟨scan,item,hsending,hlevel⟩ : ∃ scan item, t.2 = .scheduler 1 (.sending scan item) ∧
      scan.level = 10 := by
    unfold sendsAt at hsends
    split at hsends
    · exact ⟨_,_,by assumption,of_decide_eq_true hsends⟩
    · cases hsends
  have hfree (p : ℕ) : (busy.queue p).holder = none := by
    simp only [busy,Client.setLevel,Function.update_apply]
    split
    · rfl
    · split <;> rfl
  exact ⟨t,ht,hsends,hdata,((scheduler_drains 0 1 busy rfl rfl hfree firstBurst t ht).2.2.2 scan item
    0 hsending (by omega) hdata).1⟩

end SchedulerDrain
end JobControllerClient
