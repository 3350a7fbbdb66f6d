import Mathlib.Tactic

/-! Labelled machines given by a partial step function, their finite runs, and
the induction rules that turn a property of one step into one of every run.
A label carries every choice the environment makes in that step. -/

/-- A label without successor is not enabled in that state. -/
structure StepMachine (S A : Type*) where
  step : S → A → Option S

namespace StepMachine

variable {S A : Type*} (m : StepMachine S A)

/-- Execute a whole list of labels; one label that is not enabled ends in `none`. -/
def run : S → List A → Option S
  | s, [] => some s
  | s, a :: as => (m.step s a).bind fun t => run t as

@[simp] theorem run_nil (s : S) : m.run s [] = some s := rfl

theorem run_cons_eq_some {s u : S} {a : A} {as : List A} :
    m.run s (a :: as) = some u ↔ ∃ t, m.step s a = some t ∧ m.run t as = some u := by
  simp [run,Option.bind_eq_some_iff]

theorem run_append_eq_some {s u : S} {as bs : List A} :
    m.run s (as ++ bs) = some u ↔ ∃ t, m.run s as = some t ∧ m.run t bs = some u := by
  induction as generalizing s with
  | nil => simp
  | cons a as ih =>
    simp only [List.cons_append,run_cons_eq_some,ih]
    constructor
    · rintro ⟨t,ht,v,hv,hu⟩
      exact ⟨v,⟨t,ht,hv⟩,hu⟩
    · rintro ⟨v,⟨t,ht,hv⟩,hu⟩
      exact ⟨t,ht,v,hv,hu⟩

/-- Every label of the run satisfies `P` together with the state it is executed in. -/
def Meets (P : S → A → Prop) : S → List A → Prop
  | _, [] => True
  | s, a :: as => P s a ∧ match m.step s a with
    | none => True
    | some t => Meets P t as

instance decidableMeets (P : S → A → Prop) [∀ s a, Decidable (P s a)] :
    (s : S) → (as : List A) → Decidable (m.Meets P s as)
  | _, [] => .isTrue trivial
  | s, a :: as =>
    match h : m.step s a with
    | none => decidable_of_iff (P s a) (by simp [Meets,h])
    | some t =>
      have := decidableMeets P t as
      decidable_of_iff (P s a ∧ m.Meets P t as) (by simp [Meets,h])

variable {m}

theorem Meets.head {P : S → A → Prop} {s : S} {a : A} {as : List A}
    (h : m.Meets P s (a :: as)) : P s a := h.1

theorem Meets.tail {P : S → A → Prop} {s t : S} {a : A} {as : List A}
    (h : m.Meets P s (a :: as)) (ht : m.step s a = some t) : m.Meets P t as := by
  have h2 := h.2
  rw [ht] at h2
  exact h2

theorem meets_append {P : S → A → Prop} {s t : S} {as bs : List A}
    (hrun : m.run s as = some t) :
    m.Meets P s (as ++ bs) ↔ m.Meets P s as ∧ m.Meets P t bs := by
  induction as generalizing s with
  | nil =>
    obtain rfl : s = t := by simpa using hrun
    simp [Meets]
  | cons a as ih =>
    obtain ⟨v,hv,hrest⟩ := (run_cons_eq_some m).mp hrun
    simp [Meets,hv,ih hrest,and_assoc]

/-- The invariant rule: what every admissible step keeps, every admissible run keeps. -/
theorem invariant {P : S → A → Prop} {I : S → Prop}
    (hstep : ∀ s a t, I s → P s a → m.step s a = some t → I t)
    {s t : S} {as : List A} (hs : I s) (hm : m.Meets P s as) (hrun : m.run s as = some t) :
    I t := by
  induction as generalizing s with
  | nil =>
    obtain rfl : s = t := by simpa using hrun
    exact hs
  | cons a as ih =>
    obtain ⟨v,hv,hrest⟩ := (run_cons_eq_some m).mp hrun
    exact ih (hstep s a v hs hm.head hv) (hm.tail hv) hrest

/-- A completed run that breaks a step condition has a first step that breaks it. -/
theorem exists_first_failure {P : S → A → Prop} {s t : S} {as : List A}
    (hrun : m.run s as = some t) (hm : ¬ m.Meets P s as) :
    ∃ as₁ a as₂ u v, as = as₁ ++ a :: as₂ ∧ m.run s as₁ = some u ∧ m.Meets P s as₁ ∧
      ¬ P u a ∧ m.step u a = some v ∧ m.run v as₂ = some t := by
  induction as generalizing s with
  | nil => exact (hm trivial).elim
  | cons a as ih =>
    obtain ⟨v,hv,hrest⟩ := (run_cons_eq_some m).mp hrun
    by_cases hp : P s a
    · have htail : ¬ m.Meets P v as := fun h => hm ⟨hp,by rw [hv]; exact h⟩
      obtain ⟨as₁,b,as₂,u,w,rfl,hu,hmeets,hb,hw,ht⟩ := ih hrest htail
      refine ⟨a :: as₁,b,as₂,u,w,rfl,?_,⟨hp,?_⟩,hb,hw,ht⟩
      · exact (run_cons_eq_some m).mpr ⟨v,hv,hu⟩
      · rw [hv]
        exact hmeets
    · exact ⟨[],a,as,s,v,rfl,rfl,trivial,hp,hv,hrest⟩

theorem meets_iff {P : S → A → Prop} {s : S} {as : List A} :
    m.Meets P s as ↔
      ∀ as₁ a as₂ u, as = as₁ ++ a :: as₂ → m.run s as₁ = some u → P u a := by
  induction as generalizing s with
  | nil => simp [Meets]
  | cons b as ih =>
    constructor
    · rintro h as₁ a as₂ u has hu
      cases as₁ with
      | nil =>
        obtain ⟨rfl,rfl⟩ : b = a ∧ as = as₂ := by simpa using has
        obtain rfl : s = u := by simpa using hu
        exact h.head
      | cons b' as₁ =>
        obtain ⟨rfl,hrest⟩ : b = b' ∧ as = as₁ ++ a :: as₂ := by simpa using has
        obtain ⟨t,ht,hrun⟩ := (run_cons_eq_some m).mp hu
        exact ih.mp (h.tail ht) as₁ a as₂ u hrest hrun
    · intro h
      refine ⟨h [] b as s rfl rfl,?_⟩
      cases ht : m.step s b with
      | none => trivial
      | some t =>
        refine ih.mpr fun as₁ a as₂ u has hu => h (b :: as₁) a as₂ u (by rw [has]; rfl) ?_
        exact (run_cons_eq_some m).mpr ⟨t,ht,hu⟩

/-- A flag that some steps raise and none lowers is up after a run exactly if it was up
before or one of the steps raised it. -/
theorem flag_run {f : S → Bool} {g : S → A → Bool} {I : S → Prop}
    (hinv : ∀ s a t, I s → m.step s a = some t → I t)
    (hflag : ∀ s a t, I s → m.step s a = some t → f t = (f s || g s a))
    {s t : S} {as : List A} (hs : I s) (hrun : m.run s as = some t) :
    f t = false ↔ f s = false ∧ m.Meets (fun s a => g s a = false) s as := by
  induction as generalizing s with
  | nil =>
    obtain rfl : s = t := by simpa using hrun
    simp [Meets]
  | cons a as ih =>
    obtain ⟨v,hv,hrest⟩ := (run_cons_eq_some m).mp hrun
    rw [ih (hinv s a v hs hv) hrest,hflag s a v hs hv,Bool.or_eq_false_iff]
    simp [Meets,hv,and_assoc]

/-- The progress rule: a step that lowers a measure as long as the goal is not reached. -/
theorem exists_run {I G : S → Prop} (μ : S → ℕ)
    (hstep : ∀ s, I s → G s ∨ ∃ a t, m.step s a = some t ∧ I t ∧ μ t < μ s) {s : S}
    (hs : I s) : ∃ as t, m.run s as = some t ∧ I t ∧ G t := by
  induction hμ : μ s using Nat.strong_induction_on generalizing s with
  | _ n ih =>
    rcases hstep s hs with hgoal | ⟨a,t,ht,hI,hlt⟩
    · exact ⟨[],s,rfl,hs,hgoal⟩
    · obtain ⟨as,u,hu,hIu,hgoal⟩ := ih (μ t) (hμ ▸ hlt) hI rfl
      exact ⟨a :: as,u,(run_cons_eq_some m).mpr ⟨t,ht,hu⟩,hIu,hgoal⟩

theorem meets_true (s : S) (as : List A) : m.Meets (fun _ _ => True) s as := by
  induction as generalizing s with
  | nil => trivial
  | cons a as ih =>
    refine ⟨trivial,?_⟩
    cases m.step s a with
    | none => trivial
    | some t => exact ih t

theorem invariant_of_step {I : S → Prop}
    (hstep : ∀ s a t, I s → m.step s a = some t → I t)
    {s t : S} {as : List A} (hs : I s) (hrun : m.run s as = some t) : I t :=
  invariant (fun s a t h _ => hstep s a t h) hs (meets_true s as) hrun

/-- The budget rule: a potential that every step lowers, except that some labels add to it. -/
theorem length_run_le {I : S → Prop} (hinv : ∀ s a t, I s → m.step s a = some t → I t)
    (φ : S → ℕ) (grants : A → Bool) (k : ℕ)
    (hstep : ∀ s a t, I s → m.step s a = some t → 1 + φ t ≤ φ s + if grants a then k else 0)
    {s t : S} {as : List A} (hs : I s) (hrun : m.run s as = some t) :
    as.length + φ t ≤ φ s + k * as.countP grants := by
  induction as generalizing s with
  | nil =>
    obtain rfl : s = t := by simpa using hrun
    simp
  | cons a as ih =>
    obtain ⟨v,hv,hrest⟩ := (run_cons_eq_some m).mp hrun
    have hhead := hstep s a v hs hv
    have htail := ih (hinv s a v hs hv) hrest
    rw [List.length_cons,List.countP_cons,mul_add]
    cases hg : grants a <;> simp [hg] at hhead ⊢ <;> omega

section Log

variable {B : Type*} (m)

def log (f : S → A → List B) : S → List A → List B
  | _, [] => []
  | s, a :: as => f s a ++ match m.step s a with
    | none => []
    | some t => log f t as

variable {m}

/-- The invariant rule for a state together with the log of the steps before it. -/
theorem log_invariant {f : S → A → List B} {P : S → A → Prop} {I : S → List B → Prop}
    (hstep : ∀ s a t l, I s l → P s a → m.step s a = some t → I t (l ++ f s a))
    {s t : S} {as : List A} {l : List B} (hs : I s l) (hm : m.Meets P s as)
    (hrun : m.run s as = some t) : I t (l ++ m.log f s as) := by
  induction as generalizing s l with
  | nil =>
    obtain rfl : s = t := by simpa using hrun
    simpa [log] using hs
  | cons a as ih =>
    obtain ⟨v,hv,hrest⟩ := (run_cons_eq_some m).mp hrun
    have hnext := ih (hstep s a v l hs hm.head hv) (hm.tail hv) hrest
    simpa [log,hv] using hnext

theorem log_of_label {g : A → List B} {s t : S} {as : List A} (hrun : m.run s as = some t) :
    m.log (fun _ a => g a) s as = as.flatMap g := by
  induction as generalizing s with
  | nil => rfl
  | cons a as ih =>
    obtain ⟨v,hv,hrest⟩ := (run_cons_eq_some m).mp hrun
    simp [log,hv,ih hrest]

end Log

end StepMachine
