import Mathlib.Tactic

/-! Sequential programs that ask their environment one request at a time, as trees over
the answers. An observer walks such a tree with a state of its own; its weakest
preconditions compose along `bind` and loops, and they bound every execution. -/

/-- `A r` is the type of the answers to request `r`. -/
inductive Program {R : Type*} (A : R → Type*) (α : Type*)
  | done (a : α)
  | ask (r : R) (resume : A r → Program A α)

namespace Program

variable {R : Type*} {A : R → Type*} {α β : Type*}

def bind : Program A α → (α → Program A β) → Program A β
  | .done a, k => k a
  | .ask r resume, k => .ask r fun a => (resume a).bind k

instance : Monad (Program A) where
  pure := .done
  bind := bind

def next? : Program A α → Option R
  | .done _ => none
  | .ask r _ => some r

def each (f : β → Program A PUnit) : List β → Program A PUnit
  | [] => .done ⟨⟩
  | b :: bs => (f b).bind fun _ => each f bs

section Observer

variable {S : Type*}

/-- What an observer allows a program to ask, and how an answer changes its state. -/
structure Observer (S : Type*) {R : Type*} (A : R → Type*) where
  allows : S → R → Prop
  moves : S → (r : R) → A r → S → Prop

/-- Every request is allowed, and every result is in `Q` with the state observed last. -/
def wp (o : Observer S A) : Program A α → (α → S → Prop) → S → Prop
  | .done a, Q, s => Q a s
  | .ask r resume, Q, s => o.allows s r ∧ ∀ a t, o.moves s r a t → wp o (resume a) Q t

variable {o : Observer S A} {s : S}

@[simp] theorem wp_done {a : α} {Q : α → S → Prop} : wp o (.done a) Q s ↔ Q a s := Iff.rfl

theorem wp_bind {p : Program A α} {k : α → Program A β} {Q : β → S → Prop} :
    wp o (p.bind k) Q s ↔ wp o p (fun a t => wp o (k a) Q t) s := by
  induction p generalizing s with
  | done a => exact Iff.rfl
  | ask r resume ih => simp only [bind,wp,ih]

theorem wp_mono {p : Program A α} {Q Q' : α → S → Prop} (h : wp o p Q s)
    (hq : ∀ a t, Q a t → Q' a t) : wp o p Q' s := by
  induction p generalizing s with
  | done a => exact hq a s h
  | ask r resume ih => exact ⟨h.1,fun a t ht => ih a (h.2 a t ht)⟩

theorem wp_and {p : Program A α} {Q Q' : α → S → Prop} (h : wp o p Q s) (h' : wp o p Q' s) :
    wp o p (fun a t => Q a t ∧ Q' a t) s := by
  induction p generalizing s with
  | done a => exact ⟨h,h'⟩
  | ask r resume ih => exact ⟨h.1,fun a t ht => ih a (h.2 a t ht) (h'.2 a t ht)⟩

theorem wp_ask {r : R} {k : A r → Program A β} {Q : β → S → Prop}
    (hr : o.allows s r) (hk : ∀ a t, o.moves s r a t → wp o (k a) Q t) :
    wp o ((Program.ask r .done).bind k) Q s := ⟨hr,hk⟩

theorem wp_then {p : Program A α} {k : α → Program A β} {P : α → S → Prop}
    {Q : β → S → Prop} (hp : wp o p P s) (hk : ∀ a t, P a t → wp o (k a) Q t) :
    wp o (p.bind k) Q s := wp_bind.mpr (wp_mono hp hk)

/-- The loop rule: the invariant speaks about the elements already visited. -/
theorem wp_each {f : β → Program A PUnit} {I : List β → S → Prop}
    (hf : ∀ visited b s, I visited s → wp o (f b) (fun _ t => I (visited ++ [b]) t) s)
    (bs visited : List β) (hs : I visited s) :
    wp o (each f bs) (fun _ t => I (visited ++ bs) t) s := by
  induction bs generalizing visited s with
  | nil => simpa [each] using hs
  | cons b bs ih =>
    refine wp_then (hf visited b s hs) fun _ t ht => ?_
    simpa using ih (visited ++ [b]) ht

/-- What one observer sees of a program, another one sees up to `J` if it does so request by
request. -/
theorem wp_simulates {T : Type*} {o' : Observer T A} {J : S → T → Prop}
    (hsim : ∀ s t r, J s t → o.allows s r → o'.allows t r ∧
      ∀ a t', o'.moves t r a t' → ∃ s', o.moves s r a s' ∧ J s' t')
    {p : Program A α} {Q : α → S → Prop} {t : T} (hJ : J s t) (h : wp o p Q s) :
    wp o' p (fun a t' => ∃ s', Q a s' ∧ J s' t') t := by
  induction p generalizing s t with
  | done a => exact ⟨s,h,hJ⟩
  | ask r resume ih =>
    obtain ⟨hallows,hmoves⟩ := hsim s t r hJ h.1
    refine ⟨hallows,fun a t' ht => ?_⟩
    obtain ⟨s',hs,hJ'⟩ := hmoves a t' ht
    exact ih a hJ' (h.2 a s' hs)

def logged (o : Observer S A) : Observer (S × List (Σ r, A r)) A where
  allows s r := o.allows s.1 r
  moves s r a t := o.moves s.1 r a t.1 ∧ t.2 = s.2 ++ [⟨r,a⟩]

def requests : Observer (List (Σ r, A r)) A where
  allows _ _ := True
  moves l r a m := m = l ++ [⟨r,a⟩]

/-- The requests are those that the program makes with these answers, whatever the state is. -/
theorem wp_logged_and {p : Program A α} {Q : α → S × List (Σ r, A r) → Prop}
    {Q' : α → List (Σ r, A r) → Prop} {l : List (Σ r, A r)} (h : wp (logged o) p Q (s,l))
    (h' : wp requests p Q' l) : wp (logged o) p (fun a t => Q a t ∧ Q' a t.2) (s,l) := by
  induction p generalizing s l with
  | done a => exact ⟨h,h'⟩
  | ask r resume ih =>
    refine ⟨h.1,?_⟩
    rintro a ⟨t,m⟩ ⟨ht,hm⟩
    obtain rfl : m = l ++ [⟨r,a⟩] := hm
    exact ih a (h.2 a _ ⟨ht,rfl⟩) (h'.2 a _ rfl)

theorem wp_requests_extend (p : Program A α) (l : List (Σ r, A r)) :
    wp requests p (fun _ m => l <+: m) l := by
  induction p generalizing l with
  | done a => exact List.prefix_rfl
  | ask r resume ih =>
    refine ⟨trivial,?_⟩
    rintro a m rfl
    exact wp_mono (ih a _) fun _ _ h => (List.prefix_append l _).trans h

theorem wp_requests_ask {r : R} {k : A r → Program A β} {Q : β → List (Σ r, A r) → Prop}
    {l : List (Σ r, A r)} (hk : ∀ a, wp requests (k a) Q (l ++ [⟨r,a⟩])) :
    wp requests ((Program.ask r .done).bind k) Q l := by
  refine wp_ask trivial ?_
  rintro a m rfl
  exact hk a

theorem wp_requests_then {p : Program A α} {k : α → Program A β}
    {Q : β → List (Σ r, A r) → Prop} {l : List (Σ r, A r)}
    (hk : ∀ a m, l <+: m → wp requests (k a) Q m) : wp requests (p.bind k) Q l :=
  wp_then (wp_requests_extend p l) hk

end Observer

section Execution

variable {X C : Type*} (perform : X → (r : R) → C → Option (X × A r))

/-- Execute a program alone; the choices of the environment are taken from a list. -/
def exec : Program A α → X → List C → Option (α × X × List C)
  | .done a, x, cs => some (a,x,cs)
  | .ask _ _, _, [] => none
  | .ask r resume, x, c :: cs => (perform x r c).bind fun y => exec (resume y.2) y.1 cs

/-- The observer of an execution sees its state and the choices made so far. -/
def choices : Observer (X × List C) A where
  allows _ _ := True
  moves s r a t := ∃ c, perform s.1 r c = some (t.1,a) ∧ t.2 = s.2 ++ [c]

/-- The requests of an execution, each with the choice that answered it. -/
def steps : Program A α → X → List C → List (R × C)
  | .done _, _, _ => []
  | .ask _ _, _, [] => []
  | .ask r resume, x, c :: cs =>
    (r,c) :: (perform x r c).elim [] fun y => steps (resume y.2) y.1 cs

def transcript : Observer (X × List (R × C)) A where
  allows _ _ := True
  moves s r a t := ∃ c, perform s.1 r c = some (t.1,a) ∧ t.2 = s.2 ++ [(r,c)]

def answers : Program A α → X → List C → List (Σ r, A r)
  | .done _, _, _ => []
  | .ask _ _, _, [] => []
  | .ask r resume, x, c :: cs =>
    (perform x r c).elim [] fun y => ⟨r,y.2⟩ :: answers (resume y.2) y.1 cs

variable {perform}

/-- Executions end in the postconditions of an observer that sees all their steps. -/
theorem exec_of_logged {o : Observer X A}
    (hsound : ∀ x r c y a, o.allows x r → perform x r c = some (y,a) → o.moves x r a y)
    {p : Program A α} {Q : α → X × List (Σ r, A r) → Prop} {x x' : X} {l : List (Σ r, A r)}
    {cs rest : List C} {a : α} (hp : wp (logged o) p Q (x,l))
    (h : exec perform p x cs = some (a,x',rest)) : Q a (x',l ++ answers perform p x cs) := by
  induction p generalizing x l cs with
  | done b =>
    simp only [exec,Option.some.injEq,Prod.mk.injEq] at h
    obtain ⟨rfl,rfl,-⟩ := h
    simpa [answers] using hp
  | ask r resume ih =>
    cases cs with
    | nil => simp [exec] at h
    | cons c cs =>
      simp only [exec,Option.bind_eq_some_iff] at h
      obtain ⟨y,hy,hrest⟩ := h
      have hmove := hsound x r c y.1 y.2 hp.1 hy
      have hQ := ih y.2 (hp.2 y.2 (y.1,l ++ [⟨r,y.2⟩]) ⟨hmove,rfl⟩) hrest
      simpa [answers,hy] using hQ

theorem wp_perform {r : R} {k : A r → Program A β} {Q : β → X × List C → Prop} {x : X}
    {l : List C} (h : ∀ c y a, perform x r c = some (y,a) →
      wp (choices perform) (k a) Q (y,l ++ [c])) :
    wp (choices perform) ((Program.ask r .done).bind k) Q (x,l) := by
  refine wp_ask trivial ?_
  rintro a ⟨y,m⟩ ⟨c,hy,hm⟩
  obtain rfl : m = l ++ [c] := hm
  exact h c y a hy

theorem wp_perform_last {r : R} {Q : A r → X × List C → Prop} {x : X} {l : List C}
    (h : ∀ c y a, perform x r c = some (y,a) → Q a (y,l ++ [c])) :
    wp (choices perform) (Program.ask r .done) Q (x,l) := by
  refine ⟨trivial,?_⟩
  rintro a ⟨y,m⟩ ⟨c,hy,hm⟩
  obtain rfl : m = l ++ [c] := hm
  exact h c y a hy

theorem wp_choices_extend (p : Program A α) (x : X) (l : List C) :
    wp (choices perform) p (fun _ s => l <+: s.2) (x,l) := by
  induction p generalizing x l with
  | done a => exact List.prefix_rfl
  | ask r resume ih =>
    refine ⟨trivial,?_⟩
    rintro a ⟨y,m⟩ ⟨c,-,hm⟩
    obtain rfl : m = l ++ [c] := hm
    exact wp_mono (ih a y (l ++ [c])) fun _ _ h => (List.prefix_append l [c]).trans h

theorem exec_of_wp {p : Program A α} {Q : α → X × List C → Prop} {x x' : X}
    {l cs rest : List C} {a : α} (hp : wp (choices perform) p Q (x,l))
    (h : exec perform p x cs = some (a,x',rest)) :
    ∃ used, cs = used ++ rest ∧ Q a (x',l ++ used) := by
  induction p generalizing x l cs with
  | done b =>
    simp only [exec,Option.some.injEq,Prod.mk.injEq] at h
    obtain ⟨rfl,rfl,rfl⟩ := h
    exact ⟨[],rfl,by simpa using hp⟩
  | ask r resume ih =>
    cases cs with
    | nil => simp [exec] at h
    | cons c cs =>
      simp only [exec,Option.bind_eq_some_iff] at h
      obtain ⟨y,hy,hrest⟩ := h
      obtain ⟨used,rfl,hQ⟩ := ih y.2 (hp.2 y.2 (y.1,l ++ [c]) ⟨c,hy,rfl⟩) hrest
      exact ⟨c :: used,rfl,by simpa using hQ⟩

theorem wp_transcript {r : R} {k : A r → Program A β} {Q : β → X × List (R × C) → Prop} {x : X}
    {l : List (R × C)} (h : ∀ c y a, perform x r c = some (y,a) →
      wp (transcript perform) (k a) Q (y,l ++ [(r,c)])) :
    wp (transcript perform) ((Program.ask r .done).bind k) Q (x,l) := by
  refine wp_ask trivial ?_
  rintro a ⟨y,m⟩ ⟨c,hy,hm⟩
  obtain rfl : m = l ++ [(r,c)] := hm
  exact h c y a hy

theorem wp_transcript_last {r : R} {Q : A r → X × List (R × C) → Prop} {x : X}
    {l : List (R × C)} (h : ∀ c y a, perform x r c = some (y,a) → Q a (y,l ++ [(r,c)])) :
    wp (transcript perform) (Program.ask r .done) Q (x,l) := by
  refine ⟨trivial,?_⟩
  rintro a ⟨y,m⟩ ⟨c,hy,hm⟩
  obtain rfl : m = l ++ [(r,c)] := hm
  exact h c y a hy

theorem exec_of_transcript {p : Program A α} {Q : α → X × List (R × C) → Prop} {x x' : X}
    {l : List (R × C)} {cs : List C} {a : α} (hp : wp (transcript perform) p Q (x,l))
    (h : exec perform p x cs = some (a,x',[])) : Q a (x',l ++ steps perform p x cs) := by
  induction p generalizing x l cs with
  | done b =>
    simp only [exec,Option.some.injEq,Prod.mk.injEq] at h
    obtain ⟨rfl,rfl,-⟩ := h
    simpa [steps] using hp
  | ask r resume ih =>
    cases cs with
    | nil => simp [exec] at h
    | cons c cs =>
      simp only [exec,Option.bind_eq_some_iff] at h
      obtain ⟨y,hy,hrest⟩ := h
      have hQ := ih y.2 (hp.2 y.2 (y.1,l ++ [(r,c)]) ⟨c,hy,rfl⟩) hrest
      simpa [steps,hy] using hQ

theorem steps_choices {p : Program A α} {x x' : X} {cs : List C} {a : α}
    (h : exec perform p x cs = some (a,x',[])) : (steps perform p x cs).map Prod.snd = cs := by
  induction p generalizing x cs with
  | done b =>
    simp only [exec,Option.some.injEq,Prod.mk.injEq] at h
    simp [steps,h.2.2]
  | ask r resume ih =>
    cases cs with
    | nil => simp [exec] at h
    | cons c cs =>
      simp only [exec,Option.bind_eq_some_iff] at h
      obtain ⟨y,hy,hrest⟩ := h
      simp [steps,hy,ih y.2 hrest]

theorem choices_of_transcript {p : Program A α} {Q : α → X × List C → Prop} {x : X}
    {l : List (R × C)}
    (hp : wp (transcript perform) p (fun a t => Q a (t.1,t.2.map Prod.snd)) (x,l)) :
    wp (choices perform) p Q (x,l.map Prod.snd) := by
  induction p generalizing x l with
  | done a => exact hp
  | ask r resume ih =>
    refine ⟨trivial,?_⟩
    rintro a ⟨y,m⟩ ⟨c,hy,hm⟩
    obtain rfl : m = l.map Prod.snd ++ [c] := hm
    have hrest := ih a (hp.2 a (y,l ++ [(r,c)]) ⟨c,hy,rfl⟩)
    simpa using hrest

/-- An environment that can always answer brings every program to its end. -/
theorem exists_exec (henabled : ∀ x r, ∃ c y, perform x r c = some y) (p : Program A α) (x : X) :
    ∃ cs a x', exec perform p x cs = some (a,x',[]) := by
  induction p generalizing x with
  | done a => exact ⟨[],a,x,rfl⟩
  | ask r resume ih =>
    obtain ⟨c,y,hy⟩ := henabled x r
    obtain ⟨cs,a,x',hrest⟩ := ih y.2 y.1
    exact ⟨c :: cs,a,x',by simpa [exec,hy] using hrest⟩

/-- An environment that can do what happens in an execution of the other one has it too. -/
theorem exec_of_steps {perform' : X → (r : R) → C → Option (X × A r)} {p : Program A α}
    {x : X} {cs : List C} {result : α × X × List C} (h : exec perform p x cs = some result)
    (hle : ∀ r c, (r,c) ∈ steps perform p x cs →
      ∀ x y, perform x r c = some y → perform' x r c = some y) :
    exec perform' p x cs = some result := by
  induction p generalizing x cs with
  | done a => exact h
  | ask r resume ih =>
    cases cs with
    | nil => cases h
    | cons c cs =>
      simp only [exec,Option.bind_eq_some_iff] at h ⊢
      obtain ⟨y,hy,hrest⟩ := h
      simp only [steps,hy,Option.elim,List.mem_cons] at hle
      exact ⟨y,hle r c (.inl rfl) x y hy,ih y.2 hrest fun r c hrc => hle r c (.inr hrc)⟩

end Execution

end Program
