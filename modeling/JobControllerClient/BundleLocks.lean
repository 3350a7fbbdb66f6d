import JobControllerClient.Foundation.Interleaving

/-! The locks around the embedded interpreter: the `bundles` cache lock of
`bundle_manager.rs` and `PYTHON_MUTEX`. A thread is a stack of calls, since Python
code may call back into `load_bundle` through `_bundledb`. Neither lock is reentrant. -/
namespace JobControllerClient
namespace BundleLocks

open Interleaving

/-- `load_bundle`: the lock it is acquiring next, or what it does under its locks.
`importing` is the Python code run by `BundleInterface::new`. -/
inductive LoadPc
  | read | lookup | write | recheck | python | importing | insert | giveUp
  deriving DecidableEq

/-- `run_bundle_*`; `running` is the Python code run by `BundleInterface::run`. -/
inductive RunPc
  | loading | python | running
  deriving DecidableEq

inductive Frame
  | load (hash : String) (pc : LoadPc)
  | run (hash : String) (pc : RunPc)
  deriving DecidableEq

/-- The innermost call comes first. -/
abbrev Thread := List Frame

inductive Choice
  | go
  | callback
  | finished (ok : Bool)
  deriving DecidableEq

structure Locks where
  readers : List ℕ
  writer : Option ℕ
  python : Option ℕ
  bundles : List String
  deriving DecidableEq

/-- `load_bundle` returns; Python code goes on whatever the result of its callback is. -/
def returnTo (ok : Bool) : Thread → Thread
  | .run hash .loading :: rest => if ok then .run hash .python :: rest else rest
  | rest => rest

def exec (x : Locks) (i : ℕ) : Thread → Choice → Option (Locks × Thread × List Thread)
  | .load hash .read :: rest, .go =>
    if x.writer = none then some ({ x with readers := i :: x.readers },.load hash .lookup :: rest,[])
    else none
  | .load hash .lookup :: rest, .go =>
    some ({ x with readers := x.readers.erase i },
      if hash ∈ x.bundles then returnTo true rest else .load hash .write :: rest,[])
  | .load hash .write :: rest, .go =>
    if x.writer = none ∧ x.readers = [] then
      some ({ x with writer := some i },.load hash .recheck :: rest,[])
    else none
  | .load hash .recheck :: rest, .go =>
    some (if hash ∈ x.bundles then ({ x with writer := none },returnTo true rest,[])
      else (x,.load hash .python :: rest,[]))
  | .load hash .python :: rest, .go =>
    if x.python = none then some ({ x with python := some i },.load hash .importing :: rest,[])
    else none
  | .load hash .importing :: rest, .callback =>
    some (x,.load hash .read :: .load hash .importing :: rest,[])
  | .load hash .importing :: rest, .finished ok =>
    some ({ x with python := none },.load hash (if ok then .insert else .giveUp) :: rest,[])
  | .load hash .insert :: rest, .go =>
    some ({ x with writer := none, bundles := hash :: x.bundles },returnTo true rest,[])
  | .load _ .giveUp :: rest, .go => some ({ x with writer := none },returnTo false rest,[])
  | .run hash .python :: rest, .go =>
    if x.python = none then some ({ x with python := some i },.run hash .running :: rest,[])
    else none
  | .run hash .running :: rest, .callback =>
    some (x,.load hash .read :: .run hash .running :: rest,[])
  | .run _ .running :: rest, .finished _ => some ({ x with python := none },rest,[])
  | _, _ => none

def entry : Thread → Bool
  | [.load _ .read] => true
  | [.load hash .read,.run hash' .loading] => decide (hash = hash')
  | _ => false

def system : Interleaving Locks Thread Choice := ⟨entry,exec⟩

def initial (bundles : List String) : State Locks Thread := ⟨⟨[],none,none,bundles⟩,[]⟩

/-- Thread `j` holds a lock that blocks the acquisition thread `t` is at. -/
def BlockedBy (x : Locks) (j : ℕ) : Thread → Prop
  | .load _ .read :: _ => x.writer = some j
  | .load _ .write :: _ => x.writer = some j ∨ j ∈ x.readers
  | .load _ .python :: _ => x.python = some j
  | .run _ .python :: _ => x.python = some j
  | _ => False

def Waits (s : State Locks Thread) (i j : ℕ) : Prop :=
  ∃ t, s.threads[i]? = some t ∧ BlockedBy s.shared j t

/-- A cycle of threads each of which waits for a lock held by the next. -/
def Deadlock (s : State Locks Thread) : Prop := ∃ i, Relation.TransGen (Waits s) i i

def readFrame : Frame → Bool
  | .load _ .lookup => true
  | _ => false

def writeFrame : Frame → Bool
  | .load _ .recheck | .load _ .python | .load _ .importing | .load _ .insert
  | .load _ .giveUp => true
  | _ => false

def pythonFrame : Frame → Bool
  | .load _ .importing | .run _ .running => true
  | _ => false

/-- The frames that may wait below another one. -/
def suspended : Frame → Bool
  | .load _ .importing | .run _ .running | .run _ .loading => true
  | _ => false

def loadFrame : Frame → Bool
  | .load _ _ => true
  | .run _ _ => false

/-- The locks held are exactly those of the frames on the stack, whose lower frames
are suspended calls and whose `run_bundle_*` call, if any, is the outermost. -/
structure Held (x : Locks) (i : ℕ) (t : Thread) : Prop where
  tail : ∀ f ∈ t.tail, suspended f = true
  outermost : t.Pairwise fun f _ => loadFrame f = true
  readers : x.readers.count i = t.countP readFrame
  writer : x.writer.toList.count i = t.countP writeFrame
  python : x.python.toList.count i = t.countP pythonFrame

def HeldAt (x : Locks) (i : ℕ) (t : Option Thread) : Prop := Held x i (t.getD [])

theorem returnTo_tail_subset {ok : Bool} {rest : Thread} {f : Frame}
    (hf : f ∈ (returnTo ok rest).tail) : f ∈ rest := by
  unfold returnTo at hf
  split at hf
  · split at hf
    · exact List.mem_cons_of_mem _ hf
    · exact List.mem_cons_of_mem _ (List.mem_of_mem_tail hf)
  · exact List.mem_of_mem_tail hf

theorem returnTo_outermost {ok : Bool} {rest : Thread}
    (h : rest.Pairwise fun f _ => loadFrame f = true) :
    (returnTo ok rest).Pairwise fun f _ => loadFrame f = true := by
  unfold returnTo
  split
  · split
    · exact List.pairwise_cons.mpr (List.pairwise_cons.mp h)
    · exact (List.pairwise_cons.mp h).2
  · exact h

theorem returnTo_countP {q : Frame → Bool} (hload : ∀ hash, q (.run hash .loading) = false)
    (hpython : ∀ hash, q (.run hash .python) = false) (ok : Bool) (rest : Thread) :
    (returnTo ok rest).countP q = rest.countP q := by
  unfold returnTo
  split
  · split <;> simp [hload,hpython]
  · rfl

theorem count_toList_le_one (o : Option ℕ) (i : ℕ) : o.toList.count i ≤ 1 := by
  cases o with
  | none => simp
  | some j => exact List.count_le_length

theorem held_cons {x : Locks} {i : ℕ} {f : Frame} {rest : Thread} : Held x i (f :: rest) ↔
    (∀ g ∈ rest, suspended g = true) ∧ (f :: rest).Pairwise (fun f _ => loadFrame f = true) ∧
    x.readers.count i = rest.countP readFrame + (readFrame f).toNat ∧
    x.writer.toList.count i = rest.countP writeFrame + (writeFrame f).toNat ∧
    x.python.toList.count i = rest.countP pythonFrame + (pythonFrame f).toNat := by
  have hcount : ∀ q : Frame → Bool, (f :: rest).countP q = rest.countP q + (q f).toNat := by
    intro q
    rw [List.countP_cons]
    cases q f <;> rfl
  constructor
  · rintro ⟨htail,hout,hr,hw,hp⟩
    exact ⟨htail,hout,hr.trans (hcount _),hw.trans (hcount _),hp.trans (hcount _)⟩
  · rintro ⟨htail,hout,hr,hw,hp⟩
    exact ⟨htail,hout,hr.trans (hcount _).symm,hw.trans (hcount _).symm,hp.trans (hcount _).symm⟩

theorem held_returnTo {x : Locks} {i : ℕ} {ok : Bool} {rest : Thread}
    (htail : ∀ g ∈ rest, suspended g = true)
    (hout : rest.Pairwise fun f _ => loadFrame f = true)
    (hr : x.readers.count i = rest.countP readFrame)
    (hw : x.writer.toList.count i = rest.countP writeFrame)
    (hp : x.python.toList.count i = rest.countP pythonFrame) : Held x i (returnTo ok rest) :=
  ⟨fun f hf => htail f (returnTo_tail_subset hf),returnTo_outermost hout,
    hr.trans (returnTo_countP (fun _ => rfl) (fun _ => rfl) ok rest).symm,
    hw.trans (returnTo_countP (fun _ => rfl) (fun _ => rfl) ok rest).symm,
    hp.trans (returnTo_countP (fun _ => rfl) (fun _ => rfl) ok rest).symm⟩

theorem held_push {x : Locks} {i : ℕ} {f : Frame} {rest : Thread} {hash : String}
    (h : Held x i (f :: rest)) (hf : suspended f = true) :
    Held x i (.load hash .read :: f :: rest) :=
  held_cons.mpr ⟨List.forall_mem_cons.mpr ⟨hf,h.tail⟩,
    List.pairwise_cons.mpr ⟨fun _ _ => rfl,h.outermost⟩,h.readers,h.writer,h.python⟩

inductive LockStep (x : Locks) (i : ℕ) (x' : Locks) : Thread → Choice → Thread → Prop
  | read (hash : String) (rest : Thread) (hfree : x.writer = none)
      (hx : x' = { x with readers := i :: x.readers }) :
      LockStep x i x' (.load hash .read :: rest) .go (.load hash .lookup :: rest)
  | hit (hash : String) (rest : Thread) (hin : hash ∈ x.bundles)
      (hx : x' = { x with readers := x.readers.erase i }) :
      LockStep x i x' (.load hash .lookup :: rest) .go (returnTo true rest)
  | miss (hash : String) (rest : Thread) (hout : hash ∉ x.bundles)
      (hx : x' = { x with readers := x.readers.erase i }) :
      LockStep x i x' (.load hash .lookup :: rest) .go (.load hash .write :: rest)
  | write (hash : String) (rest : Thread) (hfree : x.writer = none) (hempty : x.readers = [])
      (hx : x' = { x with writer := some i }) :
      LockStep x i x' (.load hash .write :: rest) .go (.load hash .recheck :: rest)
  | hitAgain (hash : String) (rest : Thread) (hin : hash ∈ x.bundles)
      (hx : x' = { x with writer := none }) :
      LockStep x i x' (.load hash .recheck :: rest) .go (returnTo true rest)
  | missAgain (hash : String) (rest : Thread) (hout : hash ∉ x.bundles) (hx : x' = x) :
      LockStep x i x' (.load hash .recheck :: rest) .go (.load hash .python :: rest)
  | loadPython (hash : String) (rest : Thread) (hfree : x.python = none)
      (hx : x' = { x with python := some i }) :
      LockStep x i x' (.load hash .python :: rest) .go (.load hash .importing :: rest)
  | loadCallback (hash : String) (rest : Thread) (hx : x' = x) :
      LockStep x i x' (.load hash .importing :: rest) .callback
        (.load hash .read :: .load hash .importing :: rest)
  | imported (hash : String) (rest : Thread) (ok : Bool) (hx : x' = { x with python := none }) :
      LockStep x i x' (.load hash .importing :: rest) (.finished ok)
        (.load hash (if ok then .insert else .giveUp) :: rest)
  | insert (hash : String) (rest : Thread)
      (hx : x' = { x with writer := none, bundles := hash :: x.bundles }) :
      LockStep x i x' (.load hash .insert :: rest) .go (returnTo true rest)
  | giveUp (hash : String) (rest : Thread) (hx : x' = { x with writer := none }) :
      LockStep x i x' (.load hash .giveUp :: rest) .go (returnTo false rest)
  | runPython (hash : String) (rest : Thread) (hfree : x.python = none)
      (hx : x' = { x with python := some i }) :
      LockStep x i x' (.run hash .python :: rest) .go (.run hash .running :: rest)
  | runCallback (hash : String) (rest : Thread) (hx : x' = x) :
      LockStep x i x' (.run hash .running :: rest) .callback
        (.load hash .read :: .run hash .running :: rest)
  | ran (hash : String) (rest : Thread) (ok : Bool) (hx : x' = { x with python := none }) :
      LockStep x i x' (.run hash .running :: rest) (.finished ok) rest

theorem exec_step {x x' : Locks} {i : ℕ} {t t' : Thread} {c : Choice} {new : List Thread}
    (he : exec x i t c = some (x',t',new)) : LockStep x i x' t c t' ∧ new = [] := by
  unfold exec at he
  split at he <;> simp only [Option.some.injEq,Prod.mk.injEq,Option.ite_none_right_eq_some,
    reduceCtorEq] at he
  case h_2 hash rest =>
    obtain ⟨rfl,rfl,rfl⟩ := he
    split
    · rename_i hin
      exact ⟨.hit hash rest hin rfl,rfl⟩
    · rename_i hout
      exact ⟨.miss hash rest hout rfl,rfl⟩
  case h_3 hash rest =>
    obtain ⟨⟨hfree,hempty⟩,rfl,rfl,rfl⟩ := he
    exact ⟨.write hash rest hfree hempty rfl,rfl⟩
  case h_4 hash rest =>
    split at he <;> obtain ⟨rfl,rfl,rfl⟩ := he
    · rename_i hin
      exact ⟨.hitAgain hash rest hin rfl,rfl⟩
    · rename_i hout
      exact ⟨.missAgain hash rest hout rfl,rfl⟩
  all_goals first
    | (obtain ⟨hx,rfl,rfl⟩ := he; refine ⟨?_,rfl⟩; constructor; exact hx.symm)
    | (obtain ⟨hfree,hx,rfl,rfl⟩ := he; refine ⟨?_,rfl⟩; constructor; exacts [hfree,hx.symm])

section Step

variable {x x' : Locks} {i j : ℕ} {t t' u : Thread} {c : Choice}

theorem held_exec (h : Held x i t) (hstep : LockStep x i x' t c t') : Held x' i t' := by
  have hw1 := count_toList_le_one x.writer i
  have hp1 := count_toList_le_one x.python i
  cases hstep
  all_goals
    obtain ⟨htail,hout,hr,hw,hp⟩ := held_cons.mp h
    have hrest := (List.pairwise_cons.mp hout).2
    have htop : ∀ hash pc, (Frame.load hash pc :: _).Pairwise fun f _ => loadFrame f = true :=
      fun hash pc => List.pairwise_cons.mpr ⟨fun _ _ => rfl,hrest⟩
    simp only [readFrame,writeFrame,pythonFrame,Bool.toNat_true,Bool.toNat_false,add_zero] at hr hw hp
  case read hash rest hfree hx =>
    subst hx
    exact held_cons.mpr ⟨htail,htop _ _,by simp [readFrame,hr],hw,hp⟩
  case hit hash rest hin hx =>
    subst hx
    exact held_returnTo htail hrest (by rw [List.count_erase_self,hr,Nat.add_sub_cancel]) hw hp
  case miss hash rest hnot hx =>
    subst hx
    exact held_cons.mpr ⟨htail,htop _ _,by rw [List.count_erase_self,hr,Nat.add_sub_cancel]; rfl,
      hw,hp⟩
  case write hash rest hfree hempty hx =>
    subst hx
    rw [hfree] at hw
    exact held_cons.mpr ⟨htail,htop _ _,hr,by rw [← hw]; simp [writeFrame],hp⟩
  case missAgain hash rest hnot hx =>
    subst hx
    exact held_cons.mpr ⟨htail,htop _ _,hr,hw,hp⟩
  case loadPython hash rest hfree hx =>
    subst hx
    rw [hfree] at hp
    exact held_cons.mpr ⟨htail,htop _ _,hr,hw,by rw [← hp]; simp [pythonFrame]⟩
  case imported hash rest ok hx =>
    subst hx
    refine held_cons.mpr ⟨htail,htop _ _,?_,?_,?_⟩ <;> cases ok <;>
      simp [readFrame,writeFrame,pythonFrame] <;> omega
  case runPython hash rest hfree hx =>
    subst hx
    rw [hfree] at hp
    exact held_cons.mpr ⟨htail,List.pairwise_cons.mpr (List.pairwise_cons.mp hout),hr,hw,
      by rw [← hp]; simp [pythonFrame]⟩
  case loadCallback hx | runCallback hx =>
    subst hx
    exact held_push h rfl
  case ran hash ok hx =>
    subst hx
    exact ⟨fun f hf => htail f (List.mem_of_mem_tail hf),hrest,hr,hw,by simp; omega⟩
  all_goals
    subst_vars
    exact held_returnTo htail hrest hr (by simp; omega) hp

theorem count_other_of_held {o : Option ℕ} {i j : ℕ} (h : 0 < o.toList.count i) (hj : j ≠ i) :
    o.toList.count j = 0 := by
  cases o with
  | none => rfl
  | some k =>
    have hk : i = k := by simpa using List.count_pos_iff.mp h
    simp [← hk,Ne.symm hj]

theorem held_other (h : Held x i t) (hstep : LockStep x i x' t c t') (hj : j ≠ i) (hu : Held x j u) :
    Held x' j u := by
  obtain ⟨htail,hout,hr,hw,hp⟩ := hu
  cases hstep with
  | read hash rest hfree hx =>
    subst hx
    exact ⟨htail,hout,by rw [List.count_cons_of_ne hj.symm]; exact hr,hw,hp⟩
  | hit _ _ _ hx | miss _ _ _ hx =>
    subst hx
    exact ⟨htail,hout,by rw [List.count_erase_of_ne hj]; exact hr,hw,hp⟩
  | write hash rest hfree hempty hx =>
    subst hx
    rw [hfree] at hw
    exact ⟨htail,hout,hr,by rw [← hw]; simp [hj.symm],hp⟩
  | hitAgain _ _ _ hx | insert _ _ hx | giveUp _ _ hx =>
    subst hx
    have hheld : 0 < x.writer.toList.count i := by simp [h.writer,writeFrame]
    exact ⟨htail,hout,hr,(count_other_of_held hheld hj).symm.trans hw,hp⟩
  | loadPython _ _ hfree hx | runPython _ _ hfree hx =>
    subst hx
    rw [hfree] at hp
    exact ⟨htail,hout,hr,hw,by rw [← hp]; simp [hj.symm]⟩
  | imported _ _ _ hx | ran _ _ _ hx =>
    subst hx
    have hheld : 0 < x.python.toList.count i := by simp [h.python,pythonFrame]
    exact ⟨htail,hout,hr,hw,(count_other_of_held hheld hj).symm.trans hp⟩
  | missAgain _ _ _ hx | loadCallback _ _ hx | runCallback _ _ hx =>
    subst hx
    exact ⟨htail,hout,hr,hw,hp⟩

/-- Only the acquisition itself makes a thread the writer, and only a callback makes a
thread run `load_bundle` above Python code. -/
theorem exec_writer (hstep : LockStep x i x' t c t') (hw : x'.writer.isSome = true) :
    x.writer.isSome = true ∨ c = .go ∧ ∃ hash rest, t = .load hash .write :: rest := by
  cases hstep with
  | write hash rest => exact .inr ⟨rfl,hash,rest,rfl⟩
  | hitAgain _ _ _ hx | insert _ _ hx | giveUp _ _ hx =>
    rw [hx] at hw
    cases hw
  | _ =>
    subst_vars
    exact .inl hw

theorem exec_tail (hstep : LockStep x i x' t c t') (hc : c ≠ .callback) :
    ∀ f ∈ t'.tail, f ∈ t.tail := by
  intro f hf
  cases hstep with
  | loadCallback | runCallback => exact (hc rfl).elim
  | hit | hitAgain | insert | giveUp => exact returnTo_tail_subset hf
  | ran => exact List.mem_of_mem_tail hf
  | _ => exact hf

end Step

end BundleLocks
end JobControllerClient
