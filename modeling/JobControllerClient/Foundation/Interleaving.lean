import JobControllerClient.Foundation.StepMachine

/-! Threads over a shared state, one atomic action at a time. A thread is named by
its position, so the list of threads only grows. The invariant rule asks what the
acting thread establishes, what it leaves to the others, and what a new thread finds. -/

structure Interleaving (X T C : Type*) where
  /-- The local states in which a thread may arrive from outside. -/
  entry : T → Bool
  /-- The next action of thread `i`: new shared state, new local state, spawned threads. -/
  exec : X → ℕ → T → C → Option (X × T × List T)

namespace Interleaving

variable {X T C : Type*}

structure State (X T : Type*) where
  shared : X
  threads : List T

inductive Move (T C : Type*)
  | arrive (t : T)
  | run (i : ℕ) (choice : C)

def step (p : Interleaving X T C) (s : State X T) : Move T C → Option (State X T)
  | .arrive t => if p.entry t then some ⟨s.shared,s.threads ++ [t]⟩ else none
  | .run i choice => s.threads[i]?.bind fun t => (p.exec s.shared i t choice).map fun r =>
    ⟨r.1,s.threads.set i r.2.1 ++ r.2.2⟩

def machine (p : Interleaving X T C) : StepMachine (State X T) (Move T C) := ⟨p.step⟩

variable {p : Interleaving X T C} {s s' : State X T}

/-- Thread `i` acts from local state `t`, choosing `c`. -/
structure Turn (p : Interleaving X T C) (s s' : State X T) (i : ℕ) (t : T) (c : C) (t' : T)
    (new : List T) : Prop where
  thread : s.threads[i]? = some t
  exec : p.exec s.shared i t c = some (s'.shared,t',new)
  threads : s'.threads = s.threads.set i t' ++ new

theorem step_arrive {t : T} (h : p.machine.step s (.arrive t) = some s') :
    p.entry t = true ∧ s' = ⟨s.shared,s.threads ++ [t]⟩ := by
  simp only [machine,step] at h
  split at h
  · rename_i he
    exact ⟨he,(Option.some.inj h).symm⟩
  · cases h

theorem arrive_kept {threads : List T} {t u : T} {j : ℕ} (h : threads[j]? = some u) :
    (threads ++ [t])[j]? = some u := by
  rw [List.getElem?_append_left (List.getElem?_eq_some_iff.mp h).1,h]

theorem arrive_cases {threads : List T} {t u : T} {j : ℕ} (h : (threads ++ [t])[j]? = some u) :
    threads[j]? = some u ∨ (j = threads.length ∧ u = t) := by
  rcases lt_trichotomy j threads.length with hlt | rfl | hgt
  · rw [List.getElem?_append_left hlt] at h
    exact .inl h
  · exact .inr ⟨rfl,by simpa using h.symm⟩
  · rw [List.getElem?_eq_none (by simpa using hgt)] at h
    cases h

theorem step_run {i : ℕ} {c : C} (h : p.machine.step s (.run i c) = some s') :
    ∃ t t' new, Turn p s s' i t c t' new := by
  simp only [machine,step,Option.bind_eq_some_iff,Option.map_eq_some_iff] at h
  obtain ⟨t,ht,⟨x,t',new⟩,hx,rfl⟩ := h
  exact ⟨t,t',new,ht,hx,rfl⟩

theorem Turn.step {i : ℕ} {t t' : T} {c : C} {new : List T} (h : Turn p s s' i t c t' new) :
    p.machine.step s (.run i c) = some s' := by
  cases s'
  simp only [machine,Interleaving.step,h.thread,Option.bind_some,h.exec,Option.map_some]
  rw [← h.threads]

theorem Turn.lt {i : ℕ} {t t' : T} {c : C} {new : List T} (h : Turn p s s' i t c t' new) :
    i < s.threads.length := (List.getElem?_eq_some_iff.mp h.thread).1

theorem Turn.self {i : ℕ} {t t' : T} {c : C} {new : List T} (h : Turn p s s' i t c t' new) :
    s'.threads[i]? = some t' := by
  rw [h.threads,List.getElem?_append_left (by simpa using h.lt)]
  simp [h.lt]

theorem Turn.other {i j : ℕ} {t t' : T} {c : C} {new : List T} (h : Turn p s s' i t c t' new)
    (hj : j ≠ i) (hlt : j < s.threads.length) : s'.threads[j]? = s.threads[j]? := by
  rw [h.threads,List.getElem?_append_left (by simpa using hlt)]
  simp [Ne.symm hj]

theorem Turn.fresh {i j : ℕ} {t t' : T} {c : C} {new : List T} (h : Turn p s s' i t c t' new)
    (hj : s.threads.length ≤ j) : s'.threads[j]? = new[j - s.threads.length]? := by
  rw [h.threads,List.getElem?_append_right (by simpa using hj)]
  simp

/-- A thread after the action is the actor, one of the others, or new. -/
theorem Turn.thread_cases {i j : ℕ} {t t' u : T} {c : C} {new : List T}
    (h : Turn p s s' i t c t' new) (hu : s'.threads[j]? = some u) :
    (j = i ∧ u = t') ∨ (j ≠ i ∧ s.threads[j]? = some u) ∨ (s.threads.length ≤ j ∧ u ∈ new) := by
  by_cases hji : j = i
  · subst hji
    rw [h.self,Option.some.injEq] at hu
    exact .inl ⟨rfl,hu.symm⟩
  · rcases lt_or_ge j s.threads.length with hlt | hge
    · rw [h.other hji hlt] at hu
      exact .inr (.inl ⟨hji,hu⟩)
    · rw [h.fresh hge] at hu
      exact .inr (.inr ⟨hge,List.mem_of_getElem? hu⟩)

theorem Turn.kept {i j : ℕ} {t t' u : T} {c : C} {new : List T}
    (h : Turn p s s' i t c t' new) (hj : j ≠ i) (hu : s.threads[j]? = some u) :
    s'.threads[j]? = some u := by
  rw [h.other hj (List.getElem?_eq_some_iff.mp hu).1,hu]

/-- How many threads have a property changes with the actor and the new threads only. -/
theorem Turn.countP {i : ℕ} {t t' : T} {c : C} {new : List T} (h : Turn p s s' i t c t' new)
    (P : T → Bool) : s'.threads.countP P + (if P t then 1 else 0) =
      s.threads.countP P + (if P t' then 1 else 0) + new.countP P := by
  have hlt := h.lt
  have hi : s.threads[i] = t := by
    have hthread := h.thread
    rwa [List.getElem?_eq_getElem hlt,Option.some.injEq] at hthread
  have hpos : (if P t then 1 else 0) ≤ s.threads.countP P := by
    split
    · rename_i ht
      exact List.countP_pos_iff.mpr ⟨t,List.mem_of_getElem? h.thread,ht⟩
    · exact Nat.zero_le _
  rw [h.threads,List.countP_append,List.countP_set hlt,hi]
  omega

/-- What its own actions keep of a thread is kept in every run. -/
theorem thread_along {R : T → Prop} {i : ℕ} {moves : List (Move T C)}
    (hexec : ∀ x t c x' t' new, R t → p.exec x i t c = some (x',t',new) → R t')
    (hs : ∃ t, s.threads[i]? = some t ∧ R t) (hrun : p.machine.run s moves = some s') :
    ∃ t, s'.threads[i]? = some t ∧ R t := by
  refine StepMachine.invariant_of_step (I := fun s => ∃ t, s.threads[i]? = some t ∧ R t)
    ?_ hs hrun
  rintro s a s' ⟨t,ht,hR⟩ hstep
  cases a with
  | arrive u =>
    obtain ⟨-,rfl⟩ := step_arrive hstep
    exact ⟨t,arrive_kept ht,hR⟩
  | run j c =>
    obtain ⟨u,u',new,hturn⟩ := step_run hstep
    by_cases hij : i = j
    · subst hij
      obtain rfl : u = t := Option.some.inj (hturn.thread.symm.trans ht)
      exact ⟨u',hturn.self,hexec _ _ _ _ _ _ hR hturn.exec⟩
    · exact ⟨t,hturn.kept hij ht,hR⟩

/-- Every position satisfies `J`; `none` is a position that has no thread yet. -/
def Each (J : X → ℕ → Option T → Prop) (s : State X T) : Prop :=
  ∀ j, J s.shared j s.threads[j]?

theorem Each.arrive {J : X → ℕ → Option T → Prop} {t : T} (h : Each J s)
    (hnew : ∀ j, J s.shared j none → J s.shared j (some t)) :
    Each J ⟨s.shared,s.threads ++ [t]⟩ := by
  intro j
  rcases lt_trichotomy j s.threads.length with hlt | rfl | hgt
  · rw [List.getElem?_append_left hlt]
    exact h j
  · have hlast := h s.threads.length
    rw [List.getElem?_eq_none le_rfl] at hlast
    simpa using hnew _ hlast
  · have hout := h j
    rw [List.getElem?_eq_none hgt.le] at hout
    rw [List.getElem?_eq_none (by simpa using hgt)]
    exact hout

/-- The rule for one action: the actor, the others, and the spawned threads. -/
theorem Each.turn {J : X → ℕ → Option T → Prop} {i : ℕ} {t t' : T} {c : C} {new : List T}
    (h : Each J s) (ht : Turn p s s' i t c t' new)
    (hself : J s.shared i (some t) → J s'.shared i (some t'))
    (hother : ∀ j o, j ≠ i → s.threads[j]? = o → J s.shared j o → J s'.shared j o)
    (hnew : ∀ j u, u ∈ new → J s'.shared j none → J s'.shared j (some u)) :
    Each J s' := by
  intro j
  by_cases hji : j = i
  · subst hji
    rw [ht.self]
    exact hself (by rw [← ht.thread]; exact h j)
  · have hkept := hother j _ hji rfl (h j)
    rcases lt_or_ge j s.threads.length with hlt | hge
    · rw [ht.other hji hlt]
      exact hkept
    · rw [List.getElem?_eq_none hge] at hkept
      rw [ht.fresh hge]
      cases hu : new[j - s.threads.length]? with
      | none => exact hkept
      | some u => exact hnew j u (List.mem_of_getElem? hu) hkept

end Interleaving
