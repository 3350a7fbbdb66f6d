import JobControllerClient.BundleLocks

/-! Deadlocks of the bundle locks. A cold load takes the cache lock before
`PYTHON_MUTEX`, a callback from Python code the other way round; apart from that
overlap the waits-for relation is ranked. -/
namespace JobControllerClient
namespace BundleDeadlock

open Interleaving BundleLocks

def inCallback (t : Thread) : Bool := t.tail.any pythonFrame

/-- A callback starts while the cache is locked for writing, or the cache is locked
for writing while a callback is in progress. -/
def overlaps (s : State Locks Thread) : Move Thread Choice → Bool
  | .run _ .callback => s.shared.writer.isSome
  | .run i .go => match s.threads[i]? with
    | some (.load _ .write :: _) => s.threads.any inCallback
    | _ => false
  | _ => false

/-- Callbacks and cold loads exclude each other. -/
def Apart (x : Locks) (_ : ℕ) (t : Option Thread) : Prop :=
  x.writer.isSome = true → inCallback (t.getD []) = false

section Step

variable {s s' : State Locks Thread}

theorem held_step {move : Move Thread Choice} (h : Each HeldAt s)
    (hs : system.machine.step s move = some s') : Each HeldAt s' := by
  cases move with
  | arrive t =>
    obtain ⟨hentry,rfl⟩ := step_arrive hs
    refine h.arrive fun j hj => ?_
    simp only [system,BundleLocks.entry] at hentry
    split at hentry
    · exact ⟨by simp,by simp,hj.readers,hj.writer,hj.python⟩
    · exact ⟨by simp [suspended],by simp [loadFrame],hj.readers,hj.writer,hj.python⟩
    · cases hentry
  | run i c =>
    obtain ⟨t,t',new,ht⟩ := step_run hs
    have hi : Held s.shared i t := by simpa [HeldAt,ht.thread] using h i
    obtain ⟨hstep,rfl⟩ := exec_step ht.exec
    exact h.turn ht (fun _ => held_exec hi hstep) (fun j o hj _ ho => held_other hi hstep hj ho)
      fun j u hu => absurd hu List.not_mem_nil

theorem apart_step {move : Move Thread Choice} (h : Each Apart s)
    (hno : overlaps s move = false) (hs : system.machine.step s move = some s') :
    Each Apart s' := by
  cases move with
  | arrive t =>
    obtain ⟨hentry,rfl⟩ := step_arrive hs
    refine h.arrive fun j _ _ => ?_
    simp only [system,BundleLocks.entry] at hentry
    split at hentry
    · rfl
    · rfl
    · cases hentry
  | run i c =>
    obtain ⟨t,t',new,ht⟩ := step_run hs
    obtain ⟨hstep,rfl⟩ := exec_step ht.exec
    have hidle : s'.shared.writer.isSome = true →
        c ≠ .callback ∧ ∀ j : ℕ, inCallback (s.threads[j]?.getD []) = false := by
      intro hw
      rcases exec_writer hstep hw with hold | ⟨rfl,hash,rest,rfl⟩
      · refine ⟨?_,fun j => h j hold⟩
        rintro rfl
        cases hno.symm.trans hold
      · refine ⟨by simp,fun j => ?_⟩
        simp only [overlaps,ht.thread] at hno
        cases hj : s.threads[j]? with
        | none => rfl
        | some u => simpa using List.any_eq_false.mp hno u (List.mem_of_getElem? hj)
    refine h.turn ht ?_ ?_ fun j u hu => ?_
    · rintro - hw
      obtain ⟨hc,hall⟩ := hidle hw
      have hi : inCallback t = false := by simpa [ht.thread] using hall i
      rw [inCallback,List.any_eq_false] at hi ⊢
      exact fun f hf => hi f (exec_tail hstep hc f hf)
    · rintro j o _ rfl - hw
      exact (hidle hw).2 j
    · exact absurd hu List.not_mem_nil

end Step

def waiting : Thread → Bool
  | .load _ .read :: _ | .load _ .write :: _ | .load _ .python :: _ | .run _ .python :: _ => true
  | _ => false

/-- Threads that run, holders that wait, and the other waiting threads. -/
def rank (s : State Locks Thread) (i : ℕ) : ℕ :=
  if waiting (s.threads[i]?.getD []) then
    if s.shared.writer = some i ∨ s.shared.python = some i then 1 else 2
  else 0

section Rank

variable {x : Locks} {i : ℕ} {t : Thread} {f : Frame} {rest : Thread}

theorem countP_eq_zero_of_tail {q : Frame → Bool} (h : Held x i (f :: rest))
    (hidle : inCallback (f :: rest) = false) (hload : ∀ hash, q (.run hash .loading) = false) :
    rest.countP q = 0 := by
  rw [List.countP_eq_zero]
  intro g hg
  have hsus := h.tail g hg
  have hpy := List.any_eq_false.mp hidle g hg
  cases g with
  | load hash pc => cases pc <;> simp_all [suspended,pythonFrame]
  | run hash pc => cases pc <;> simp_all [suspended,pythonFrame]

theorem not_holder {hash : String} {pc : LoadPc} (hpc : pc = .read ∨ pc = .write)
    (h : Held x i (.load hash pc :: rest)) (hidle : inCallback (.load hash pc :: rest) = false) :
    x.writer ≠ some i ∧ x.python ≠ some i := by
  obtain ⟨-,-,-,hw,hp⟩ := held_cons.mp h
  rw [countP_eq_zero_of_tail h hidle fun _ => rfl] at hw hp
  constructor
  · intro heq
    rcases hpc with rfl | rfl <;> simp [heq,writeFrame] at hw
  · intro heq
    rcases hpc with rfl | rfl <;> simp [heq,pythonFrame] at hp

theorem not_waiting_of_reader (h : Held x i t) (hr : i ∈ x.readers) : waiting t = false := by
  have hpos : 0 < t.countP readFrame := h.readers ▸ List.count_pos_iff.mpr hr
  cases t with
  | nil => rfl
  | cons f rest =>
    have hrest : rest.countP readFrame = 0 := by
      rw [List.countP_eq_zero]
      intro g hg
      have hsus := h.tail g hg
      cases g with
      | load hash pc => cases pc <;> simp_all [suspended,readFrame]
      | run hash pc => simp [readFrame]
    rw [List.countP_cons,hrest] at hpos
    cases f with
    | load hash pc => cases pc <;> simp_all [readFrame,waiting]
    | run hash pc => simp [readFrame] at hpos

theorem not_waiting_of_python (h : Held x i t) (hp : x.python = some i)
    (hidle : inCallback t = false) : waiting t = false := by
  have hpos : 0 < t.countP pythonFrame := by
    rw [← h.python,hp]
    simp
  cases t with
  | nil => rfl
  | cons f rest =>
    have hrest : rest.countP pythonFrame = 0 :=
      List.countP_eq_zero.mpr fun g hg => List.any_eq_false.mp hidle g hg
    rw [List.countP_cons,hrest] at hpos
    cases f with
    | load hash pc => cases pc <;> simp_all [pythonFrame,waiting]
    | run hash pc => cases pc <;> simp_all [pythonFrame,waiting]

end Rank

theorem rank_le_one {s : State Locks Thread} {j : ℕ}
    (h : s.shared.writer = some j ∨ s.shared.python = some j) : rank s j ≤ 1 := by
  rw [rank,if_pos h]
  split <;> omega

theorem rank_lt_of_waits {s : State Locks Thread} (hheld : Each HeldAt s) (hapart : Each Apart s)
    {i j : ℕ} (h : Waits s i j) : rank s j < rank s i := by
  obtain ⟨t,ht,hb⟩ := h
  have hi : Held s.shared i t := by simpa [HeldAt,ht] using hheld i
  have hj : Held s.shared j (s.threads[j]?.getD []) := hheld j
  have hidle : s.shared.writer.isSome = true → inCallback t = false := by
    simpa [Apart,ht] using hapart i
  have hpos : waiting t = true → 0 < rank s i := by
    intro hw
    simp only [rank,ht,Option.getD_some,hw,if_true]
    split <;> omega
  have hcache : ∀ hash pc rest, t = .load hash pc :: rest → pc = .read ∨ pc = .write →
      s.shared.writer = some j → rank s j < rank s i := by
    rintro hash pc rest rfl hpc hw
    obtain ⟨hnw,hnp⟩ := not_holder hpc hi (hidle (by simp [hw]))
    have hrank : rank s i = 2 := by
      rcases hpc with rfl | rfl <;> simp [rank,ht,waiting,hnw,hnp]
    have hle := rank_le_one (s := s) (.inl hw)
    omega
  unfold BlockedBy at hb
  split at hb
  · exact hcache _ _ _ rfl (.inl rfl) hb
  · rcases hb with hb | hb
    · exact hcache _ _ _ rfl (.inr rfl) hb
    · have hzero : rank s j = 0 := by simp [rank,not_waiting_of_reader hj hb]
      rw [hzero]
      exact hpos rfl
  · have hw : 0 < s.shared.writer.toList.count i := by
      rw [(held_cons.mp hi).2.2.2.1]
      simp [writeFrame]
    have hsome : s.shared.writer.isSome = true := by
      cases hwr : s.shared.writer <;> simp_all
    have hzero : rank s j = 0 := by simp [rank,not_waiting_of_python hj hb (hapart j hsome)]
    rw [hzero]
    exact hpos rfl
  · rename_i hash rest
    have hrest : rest = [] := by
      cases rest with
      | nil => rfl
      | cons g rest => cases (List.pairwise_cons.mp hi.outermost).1 g (by simp)
    subst hrest
    have hnw : s.shared.writer ≠ some i := fun heq => by
      simpa [heq,writeFrame] using hi.writer
    have hnp : s.shared.python ≠ some i := fun heq => by
      simpa [heq,pythonFrame] using hi.python
    have hrank : rank s i = 2 := by simp [rank,ht,waiting,hnw,hnp]
    have hle := rank_le_one (s := s) (.inr hb)
    omega
  · exact hb.elim

theorem not_deadlock_of_rank {s : State Locks Thread}
    (h : ∀ i j, Waits s i j → rank s j < rank s i) : ¬ Deadlock s := by
  rintro ⟨i,hcycle⟩
  have hlt : ∀ j, Relation.TransGen (Waits s) i j → rank s j < rank s i := by
    intro j hj
    induction hj with
    | single hw => exact h _ _ hw
    | tail _ hw ih => exact (h _ _ hw).trans ih
  exact lt_irrefl _ (hlt i hcycle)

theorem heldAt_initial (bundles : List String) : Each HeldAt (initial bundles) := by
  intro j
  exact ⟨by simp [initial],by simp [initial],rfl,rfl,rfl⟩

theorem apart_initial (bundles : List String) : Each Apart (initial bundles) :=
  fun _ h => by cases h

/-- In a run in which cold loads and callbacks never overlap, no set of threads deadlocks. -/
theorem deadlock_free (bundles : List String) (moves : List (Move Thread Choice))
    (s : State Locks Thread) (hrun : system.machine.run (initial bundles) moves = some s)
    (hno : system.machine.Meets (fun s move => overlaps s move = false) (initial bundles) moves) :
    ¬ Deadlock s := by
  have hheld : Each HeldAt s :=
    StepMachine.invariant_of_step (fun _ _ _ h hs => held_step h hs) (heldAt_initial bundles) hrun
  have hapart : Each Apart s :=
    StepMachine.invariant (fun _ _ _ h hno hs => apart_step h hno hs) (apart_initial bundles)
      hno hrun
  exact not_deadlock_of_rank fun _ _ => rank_lt_of_waits hheld hapart

/-- Two threads call a cold bundle, and neither finds it in the cache. The first one loads it, the
second one finds it then and waits for Python, while the code of the first one calls back. -/
def racingCalls : List (Move Thread Choice) :=
  [.arrive [.load "a" .read,.run "a" .loading],.arrive [.load "a" .read,.run "a" .loading],
    .run 0 .go,.run 1 .go,.run 1 .go,.run 0 .go,.run 0 .go,.run 0 .go,.run 0 .go,
    .run 0 (.finished true),.run 0 .go,.run 1 .go,.run 1 .go,.run 0 .go,.run 0 .callback,.run 0 .go]

theorem deadlock_free_racingCalls :
    ∃ s, system.machine.run (initial []) racingCalls = some s ∧
      s.threads = [[.load "a" .lookup,.run "a" .running],[.run "a" .python]] ∧
      Waits s 1 0 ∧ ¬ Deadlock s :=
  ⟨_,rfl,rfl,⟨_,rfl,rfl⟩,deadlock_free [] racingCalls _ rfl (by decide)⟩

/-- While bundle `a` runs, a second thread starts to load bundle `b`; then `a` calls back. -/
def callbackDuringColdLoad : List (Move Thread Choice) :=
  [.arrive [.load "a" .read,.run "a" .loading],.run 0 .go,.run 0 .go,.run 0 .go,.run 0 .go,
    .run 0 .go,.run 0 (.finished true),.run 0 .go,.run 0 .go,.arrive [.load "b" .read],
    .run 1 .go,.run 1 .go,.run 1 .go,.run 1 .go,.run 0 .callback]

/-- Thread 0 holds `PYTHON_MUTEX` and waits for the cache, thread 1 the other way round. -/
theorem callbackDuringColdLoad_deadlocks :
    ∃ s, system.machine.run (initial []) callbackDuringColdLoad = some s ∧
      s.threads = [[.load "a" .read,.run "a" .running],[.load "b" .python]] ∧
      s.shared.writer = some 1 ∧ s.shared.python = some 0 ∧ Deadlock s := by
  refine ⟨⟨⟨[],some 1,some 0,["a"]⟩,[[.load "a" .read,.run "a" .running],[.load "b" .python]]⟩,
    rfl,rfl,rfl,rfl,0,?_⟩
  exact .tail (.single (b := 1) ⟨_,rfl,rfl⟩) ⟨_,rfl,rfl⟩

end BundleDeadlock
end JobControllerClient
