import JobControllerClient.PythonApi

/-! Python code that calls back. Before a call into the interpreter answers, it may run any
number of functions of the embedding code, and those make calls of their own. What they leave
behind is a growth of the state, and what is proved of code that nobody disturbs holds up to
such a growth. -/
namespace JobControllerClient
namespace PythonApi

open Messaging Python

abbrev Methods := Native → Obj → Py (Option Obj)

section Perform

variable (methods : Methods) (inner : Python → (r : Call) → Choice → Option (Python × Answer r))

/-- Python takes the result over, and the exception that was pending is so again. -/
def Python.handBack (x : Python) (r : Option Obj) (y : Python) : Python :=
  { r.elim y y.release with error := x.error }

/-- The arguments are borrowed from Python. -/
def callback (x : Python) (c : Native × Obj × List Choice) : Option Python :=
  (Program.exec inner (methods c.1 c.2.1) (x.lends {c.2.1}).clear c.2.2).bind fun s =>
    if s.2.2.isEmpty then some (x.handBack s.1 s.2.1) else none

def callbacks (calls : List (Native × Obj × List Choice)) (x : Python) : Option Python :=
  calls.foldlM (callback methods inner) x

/-- The calls of the callbacks are those of `inner`. -/
def reentrant (x : Python) (r : Call) : Choice → Option (Python × Answer r)
  | .python calls c =>
    if r.inPython && x.gil && x.current.isSome then
      (callbacks methods inner calls x).bind fun y => respond y r c
    else none
  | c => respond x r c

/-- Callbacks within callbacks, up to a depth. -/
def perform : ℕ → (x : Python) → (r : Call) → Choice → Option (Python × Answer r)
  | 0 => respond
  | n + 1 => reentrant methods (perform n)

end Perform

/-- `made` are the exceptions that `get_bundle_db_error` creates, `noted` the new entries of the
table, those of `PyInit_bundledb` included. -/
structure Growth where
  lent : Finset Obj
  made : List (String × Obj)
  noted : List (String × Obj)

namespace Growth

def empty : Growth := ⟨∅,[],[]⟩

def after (g' g : Growth) : Growth :=
  ⟨g'.lent ∪ g.lent,g'.made ++ g.made,g'.noted ++ g.noted⟩

/-- A hash gets an exception only if the table has none, and nobody writes while the table is
locked. -/
structure Fits (g : Growth) (x : Python) : Prop where
  nodup : (g.made.map Prod.fst).Nodup
  fresh : ∀ e ∈ g.made, e.1 ∉ x.errorObjects.map Prod.fst
  made : g.made ⊆ g.noted
  noted : ∀ e ∈ g.noted, e ∈ g.made ∨ e.2 ∈ g.lent ∪ x.lent
  locked : x.errorsLocked = true → g.noted = []

end Growth

def Python.grow (x : Python) (g : Growth) : Python :=
  { x with
    kept := (g.made.map Prod.snd : List Obj) + x.kept
    lent := g.lent ∪ x.lent
    errorObjects := g.noted ++ x.errorObjects }

/-- Callbacks lead from `x` to `y`. -/
def Ran (x y : Python) : Prop := ∃ g : Growth, g.Fits x ∧ y = x.grow g

section Grow

variable {x y z : Python} {g g' : Growth} {o : Obj}

theorem grow_empty : x.grow .empty = x := by
  apply Python.ext <;> simp [grow,Growth.empty]

theorem grow_grow : (x.grow g).grow g' = x.grow (g'.after g) := by
  apply Python.ext <;> simp [grow,Growth.after,← Multiset.coe_add,add_assoc]

theorem fits_empty : Growth.empty.Fits x :=
  ⟨List.nodup_nil,by simp [Growth.empty],List.nil_subset _,by simp [Growth.empty],fun _ => rfl⟩

theorem Growth.Fits.after (h' : g'.Fits (x.grow g)) (h : g.Fits x) : (g'.after g).Fits x := by
  refine ⟨?_,?_,?_,?_,?_⟩
  · rw [Growth.after,List.map_append,List.nodup_append]
    refine ⟨h'.nodup,h.nodup,?_⟩
    rintro k hk k' hk' rfl
    obtain ⟨e,he,rfl⟩ := List.mem_map.mp hk
    obtain ⟨e',he',heq⟩ := List.mem_map.mp hk'
    refine h'.fresh e he (List.mem_map.mpr ⟨e',?_,heq⟩)
    exact List.mem_append_left _ (h.made he')
  · intro e he hmem
    rcases List.mem_append.mp he with hlast | hfirst
    · refine h'.fresh e hlast ?_
      rw [grow,List.map_append]
      exact List.mem_append_right _ hmem
    · exact h.fresh e hfirst hmem
  · exact List.append_subset.mpr ⟨List.Subset.trans h'.made (List.subset_append_left _ _),
      List.Subset.trans h.made (List.subset_append_right _ _)⟩
  · intro e he
    rcases List.mem_append.mp he with hlast | hfirst
    · refine (h'.noted e hlast).imp (List.mem_append_left _) fun hlent => ?_
      simpa [grow,Growth.after] using hlent
    · refine (h.noted e hfirst).imp (List.mem_append_right _) fun hlent => ?_
      rcases Finset.mem_union.mp hlent with hlent | hlent <;> simp [Growth.after,hlent]
  · intro hlocked
    rw [Growth.after,h.locked hlocked,h'.locked hlocked,List.append_nil]

theorem Ran.refl (x : Python) : Ran x x := ⟨.empty,fits_empty,grow_empty.symm⟩

theorem Ran.trans (h : Ran x y) (h' : Ran y z) : Ran x z := by
  obtain ⟨g,hg,rfl⟩ := h
  obtain ⟨g',hg',rfl⟩ := h'
  exact ⟨g'.after g,hg'.after hg,grow_grow⟩

theorem ran_lends (objs : Finset Obj) : Ran x (x.lends objs) := by
  refine ⟨⟨objs,[],[]⟩,⟨List.nodup_nil,by simp,List.nil_subset _,by simp,fun _ => rfl⟩,?_⟩
  apply Python.ext <;> simp [grow,lends]

theorem Ran.live (h : Ran x y) (ho : x.Live o) : y.Live o := by
  obtain ⟨g,-,rfl⟩ := h
  rcases ho with ho | ho | ho | ho | ho <;> simp [Live,grow,ho]

theorem Ran.stored (h : Ran x y) (hx : Stored x) : Stored y := by
  obtain ⟨g,hg,rfl⟩ := h
  refine ⟨?_,?_⟩
  · intro e he
    obtain ⟨hmodule,hjson,htraceback⟩ := hx.modules e he
    simp [grow,hmodule,hjson,htraceback]
  · intro e he
    rcases List.mem_append.mp he with hnew | hold
    · refine (hg.noted e hnew).imp_left fun hmade => ?_
      exact Multiset.mem_add.mpr (.inl (List.mem_map.mpr ⟨e,hmade,rfl⟩))
    · exact (hx.errors e hold).imp (fun h => Multiset.mem_add.mpr (.inr h))
        (Finset.mem_union_right _)

theorem Ran.cache (h : Ran x y) : y.cache = x.cache := by
  obtain ⟨g,-,rfl⟩ := h
  rfl

theorem Ran.bundle (h : Ran x y) : y.bundle = x.bundle := by
  obtain ⟨g,-,rfl⟩ := h
  rfl

theorem Ran.running (h : Ran x y) (hx : x.Running) : y.Running := by
  have hstored := h.stored hx.stored
  obtain ⟨g,-,rfl⟩ := h
  exact ⟨hstored,hx.current,hx.gil,hx.mutex⟩

theorem Ran.ready (h : Ran x y) (hx : x.Ready) : y.Ready := by
  have hrunning := h.running hx.1
  obtain ⟨g,-,rfl⟩ := h
  exact ⟨hrunning,hx.error⟩

/-- The table of exceptions is as it was. -/
structure SameTable (x y : Python) : Prop where
  objects : y.errorObjects = x.errorObjects
  locked : y.errorsLocked = x.errorsLocked
  lent : x.lent ⊆ y.lent

theorem Growth.Fits.mono (h : g.Fits x) (hy : SameTable x y) : g.Fits y :=
  ⟨h.nodup,hy.objects ▸ h.fresh,h.made,
    fun e he => (h.noted e he).imp_right fun hl => Finset.union_subset_union_right hy.lent hl,
    fun hl => h.locked (hy.locked ▸ hl)⟩

theorem sameTable_self : SameTable x x := ⟨rfl,rfl,subset_rfl⟩

theorem sameTable_release : SameTable x (x.release o) := by
  unfold release
  split <;> exact ⟨rfl,rfl,subset_rfl⟩

theorem sameTable_lends {objs : Finset Obj} (h : SameTable x y) : SameTable x (y.lends objs) :=
  ⟨h.objects,h.locked,h.lent.trans Finset.subset_union_right⟩

theorem sameTable_withBundle {hash : String} {b : Bundle} : SameTable x (x.withBundle hash b) := by
  have hkeep : ∀ (y : Python) (o : Obj), SameTable x y → SameTable x (y.keep o) := by
    intro y o hy
    have hrelease : SameTable y (y.release o) := sameTable_release
    exact ⟨hrelease.1.trans hy.1,hrelease.2.trans hy.2,hy.3.trans hrelease.3⟩
  have hkept := hkeep _ b.tracebackModule (hkeep _ b.jsonModule (hkeep _ b.bundleModule sameTable_self))
  exact ⟨hkept.1,hkept.2,hkept.3⟩

theorem grow_lends {objs : Finset Obj} : (x.grow g).lends objs = (x.lends objs).grow g := by
  apply Python.ext <;> simp [grow,lends,Finset.union_left_comm]

theorem grow_release : (x.grow g).release o = (x.release o).grow g := by
  by_cases ho : o ∈ x.owned
  · have hgrown : o ∈ (x.grow g).owned := ho
    simp only [release,if_pos ho,if_pos hgrown]
    rfl
  · have hgrown : o ∉ (x.grow g).owned := ho
    simp only [release,if_neg ho,if_neg hgrown]
    rfl

theorem grow_pin : (x.grow g).pin o = (x.pin o).grow g := by
  apply Python.ext <;> simp [grow,pin]

theorem grow_withBundle {hash : String} {b : Bundle} :
    (x.grow g).withBundle hash b = (x.withBundle hash b).grow g := by
  have hkeep : ∀ (y : Python) (o : Obj), (y.grow g).keep o = (y.keep o).grow g := by
    intro y o
    rw [keep,grow_release,grow_pin,keep]
  rw [withBundle,hkeep,hkeep,hkeep]
  rfl

theorem grow_ownSome {r : Option Obj} : (x.grow g).ownSome r = (x.ownSome r).grow g := by
  cases r <;> rfl

theorem grow_fetch {f : Fetched} : (x.grow g).fetch f = (x.fetch f).grow g := by
  have hclear : (x.grow g).clear = x.clear.grow g := rfl
  rw [fetch,hclear,grow_ownSome,grow_ownSome,grow_ownSome,fetch]

theorem grow_check {uses : List Obj} (hu : ∀ o ∈ uses, x.Live o) :
    (x.grow g).check uses = (x.check uses).grow g := by
  have hdead : ∀ y : Python, (∀ o ∈ uses, y.Live o) →
      (uses.filter fun o => !decide (y.Live o)) = [] := by
    intro y hy
    rw [List.filter_eq_nil_iff]
    intro o ho
    simpa using hy o ho
  have hgrown : ∀ o ∈ uses, (x.grow g).Live o := by
    intro o ho
    rcases hu o ho with ho | ho | ho | ho | ho <;> simp [Live,grow,ho]
  rw [check,check,hdead x hu,hdead (x.grow g) hgrown]
  rfl

end Grow

section Effect

variable {x y : Python} {r : Call} {c : Choice} {a : Answer r} {g : Growth}

/-- The answers do not depend on what callbacks left behind. -/
theorem effect_grow (hown : r.ofCallbacks = false) :
    effect (x.grow g) r c = (effect x r c).map fun s => (s.1.grow g,s.2) := by
  have herror : (x.grow g).error = x.error := rfl
  have hstates : (x.grow g).states = x.states := rfl
  have hmutex : (x.grow g).mutex = x.mutex := rfl
  cases r <;> cases c <;> try first | rfl | cases hown
  case put.flag f b => cases b <;> rfl
  case iterNext.quiet iter left => cases left <;> rfl
  case iterNext.obj iter left o => cases left <;> rfl
  case tupleGetItem.obj tuple pos o =>
    simp only [effect,herror,grow_lends]
    split <;> rfl
  case sysGetObject.obj name o => simp only [effect,grow_lends,Option.map_some]
  case getBuiltins.obj o => simp only [effect,grow_lends,Option.map_some]
  case tupleSetItem.flag tuple pos item b =>
    simp only [effect,grow_release,Option.map_some]
    cases b <;> rfl
  case moduleAddObject.flag module name value b =>
    simp only [effect,grow_release,grow_lends,Option.map_some]
    cases b <;> rfl
  case errFetch.quiet =>
    simp only [effect,herror]
    split <;> rfl
  case errFetch.fetched e v t =>
    simp only [effect,herror,grow_fetch]
    split <;> rfl
  case decRef.go o => simp only [effect,grow_release,Option.map_some]
  case newInterpreter.state ts =>
    simp only [effect,hstates]
    split <;> rfl
  case threadStateNew.state interp ts =>
    simp only [effect,hstates]
    split <;> rfl
  case lockPython.go =>
    simp only [effect,hmutex]
    split <;> rfl
  case insertBundle.go hash b => simp only [effect,grow_withBundle,Option.map_some]

theorem respond_grow (hr : x.Allows r) :
    respond (x.grow g) r c = (respond x r c).map fun s => (s.1.grow g,s.2) := by
  unfold respond
  cases r.inPython with
  | true =>
    rw [cond_true,cond_true,grow_check hr.uses]
    exact effect_grow hr.own
  | false => exact effect_grow hr.own

/-- Only the callbacks touch the table of exceptions. -/
theorem effect_sameTable (hown : r.ofCallbacks = false) (h : effect x r c = some (y,a)) :
    SameTable x y := by
  cases r <;> cases c <;> try cases h
  all_goals try exact ⟨rfl,rfl,subset_rfl⟩
  case put.flag.refl f =>
    split <;> exact ⟨rfl,rfl,subset_rfl⟩
  case iterNext.quiet iter left =>
    cases left <;> cases h
    exact sameTable_self
  case iterNext.obj iter left o =>
    cases left <;> cases h
    exact ⟨rfl,rfl,subset_rfl⟩
  case tupleGetItem.obj tuple pos o =>
    simp only [effect,Option.ite_none_right_eq_some,Option.some.injEq] at h
    obtain ⟨-,rfl,-⟩ := h
    exact sameTable_lends sameTable_self
  case sysGetObject.obj.refl name o => exact sameTable_lends sameTable_self
  case getBuiltins.obj.refl => exact sameTable_lends sameTable_self
  case tupleSetItem.flag.refl tuple pos item =>
    have hrelease : SameTable x (x.release item) := sameTable_release
    split
    · exact hrelease
    · exact ⟨hrelease.1,hrelease.2,hrelease.3⟩
  case moduleAddObject.flag.refl module name value =>
    split
    · exact sameTable_lends sameTable_release
    · exact ⟨rfl,rfl,subset_rfl⟩
  case decRef.go.refl o => exact sameTable_release
  case insertBundle.go.refl hash b => exact sameTable_withBundle
  case unlockErrors.go.refl => cases hown
  case insertError.go.refl => cases hown
  case lockErrors.go => cases hown
  case errFetch.quiet =>
    simp only [effect,Option.ite_none_right_eq_some,Option.some.injEq] at h
    obtain ⟨-,rfl,-⟩ := h
    exact sameTable_self
  case errFetch.fetched e v t =>
    simp only [effect,Option.ite_none_left_eq_some,Option.some.injEq] at h
    obtain ⟨-,rfl,-⟩ := h
    cases v <;> cases t <;> exact ⟨rfl,rfl,subset_rfl⟩
  case newInterpreter.state ts =>
    simp only [effect,Option.ite_none_left_eq_some,Option.some.injEq] at h
    obtain ⟨-,rfl,-⟩ := h
    exact ⟨rfl,rfl,subset_rfl⟩
  case threadStateNew.state interp ts =>
    simp only [effect,Option.ite_none_left_eq_some,Option.some.injEq] at h
    obtain ⟨-,rfl,-⟩ := h
    exact ⟨rfl,rfl,subset_rfl⟩
  case lockPython.go =>
    simp only [effect,Option.ite_none_left_eq_some,Option.some.injEq] at h
    obtain ⟨-,rfl,-⟩ := h
    exact ⟨rfl,rfl,subset_rfl⟩

theorem respond_sameTable (hown : r.ofCallbacks = false) (h : respond x r c = some (y,a)) :
    SameTable x y := by
  unfold respond at h
  have hsame := effect_sameTable hown h
  cases hr : r.inPython <;> rw [hr] at hsame <;> exact ⟨hsame.1,hsame.2,hsame.3⟩

end Effect

abbrev Entry := Σ r, Answer r

def Call.message? : Call → Option Message
  | .sendAndWait msg => some msg
  | _ => none

def sends (log : List Entry) : List Message := log.filterMap fun e => e.1.message?

/-- The log goes on without a request to the server. -/
def Silent (l m : List Entry) : Prop := l <+: m ∧ sends m = sends l

section Logs

variable {l m n : List Entry}

theorem Silent.refl (l : List Entry) : Silent l l := ⟨List.prefix_rfl,rfl⟩

theorem Silent.trans (h : Silent l m) (h' : Silent m n) : Silent l n :=
  ⟨h.1.trans h'.1,h'.2.trans h.2⟩

theorem silent_append {e : Entry} (he : e.1.message? = none) : Silent l (l ++ [e]) :=
  ⟨List.prefix_append l _,by simp [sends,he]⟩

end Logs

/-- The observer of executions with callbacks. -/
def visited : Program.Observer Python Answer where
  allows x r := r.inPython = true → x.gil = true → x.Running
  moves x r a y := ∃ z c, Ran x z ∧ (r.inPython = false → z = x) ∧ respond z r c = some (y,a)

/-- Every execution with callbacks ends with a result, a state and a log in `Q`. -/
def Serves {α : Type} (p : Py α) (Q : α → Python → List Entry → Prop) (x : Python)
    (l : List Entry) : Prop :=
  Program.wp (Program.logged visited) p (fun a s => Q a s.1 s.2) (x,l)

section Serves

variable {α β : Type} {Q : α → Python → List Entry → Prop} {x y : Python} {l : List Entry}

theorem Serves.mono {p : Py α} {Q' : α → Python → List Entry → Prop} (h : Serves p Q x l)
    (hq : ∀ a y m, Q a y m → Q' a y m) : Serves p Q' x l :=
  Program.wp_mono h fun a s => hq a s.1 s.2

theorem Serves.bind {p : Py β} {k : β → Py α} {P : β → Python → List Entry → Prop}
    (h : Serves p P x l) (hk : ∀ b y m, P b y m → Serves (k b) Q y m) : Serves (p >>= k) Q x l :=
  Program.wp_then h fun b s => hk b s.1 s.2

theorem visited_step {s t : Python} {r : Call} (hR : Ran s t) (hr : s.Allows r) :
    visited.allows t r ∧
      ∀ a t', visited.moves t r a t' → ∃ s', alone.moves s r a s' ∧ Ran s' t' := by
  constructor
  · intro hin hgil
    have hsame : t.gil = s.gil := by
      obtain ⟨g,-,rfl⟩ := hR
      rfl
    exact hR.running (hr.running hin (hsame ▸ hgil))
  · rintro a t' ⟨z,c,hz,-,hstep⟩
    obtain ⟨g,hg,rfl⟩ := hR.trans hz
    rw [respond_grow hr,Option.map_eq_some_iff] at hstep
    obtain ⟨⟨s',a'⟩,hs,heq⟩ := hstep
    cases heq
    exact ⟨s',⟨c,hs⟩,g,hg.mono (respond_sameTable hr.own hs),rfl⟩

/-- What holds without callbacks holds with them, up to a growth. -/
theorem Ensures.serves {p : Py α} {Q : α → Python → Prop} (h : Ensures p Q x) (hy : Ran x y) :
    Serves p (fun a z m => ∃ w, Q a w ∧ Ran w z ∧ Silent l m) y l := by
  have hmessage : ∀ r : Call, r.ofCallbacks = false → r.message? = none := by
    intro r hr
    cases r <;> first | rfl | cases hr
  refine Program.wp_mono (Program.wp_simulates (o := alone)
    (J := fun s t => Ran s t.1 ∧ Silent l t.2) ?_ ⟨hy,.refl l⟩ h) ?_
  · rintro s ⟨t,m⟩ r ⟨hR,hm⟩ hr
    obtain ⟨hallows,hmoves⟩ := visited_step hR hr
    refine ⟨hallows,?_⟩
    rintro a ⟨t',m'⟩ ⟨ht,hm'⟩
    obtain ⟨s',hs,hR'⟩ := hmoves a t' ht
    refine ⟨s',hs,hR',?_⟩
    rw [hm']
    exact hm.trans (silent_append (hmessage r hr.own))
  · rintro a ⟨z,m⟩ ⟨w,hw,hR,hm⟩
    exact ⟨w,hw,hR,hm⟩

/-- The rule for a part that is specified without callbacks. -/
theorem Ensures.serve {p : Py β} {k : β → Py α} {P : β → Python → Prop} (h : Ensures p P x)
    (hy : Ran x y)
    (hk : ∀ b w z m, P b w → Ran w z → Silent l m → Serves (k b) Q z m) :
    Serves (p >>= k) Q y l := by
  refine (h.serves hy).bind ?_
  rintro b z m ⟨w,hw,hR,hm⟩
  exact hk b w z m hw hR hm

/-- The log is that of the program, whatever the callbacks do. -/
theorem Serves.and {p : Py α} {Q' : α → List Entry → Prop} (h : Serves p Q x l)
    (h' : Program.wp Program.requests p Q' l) : Serves p (fun a y m => Q a y m ∧ Q' a m) x l :=
  Program.wp_logged_and h h'

theorem serves_call {r : Call} {k : Answer r → Py α} (hr : visited.allows x r)
    (hk : ∀ z c y a, Ran x z → (r.inPython = false → z = x) → respond z r c = some (y,a) →
      Serves (k a) Q y (l ++ [⟨r,a⟩])) : Serves (call r >>= k) Q x l := by
  refine ⟨hr,?_⟩
  rintro a ⟨y,m⟩ ⟨⟨z,c,hz,hsame,hstep⟩,hm⟩
  obtain rfl : m = l ++ [⟨r,a⟩] := hm
  exact hk z c y a hz hsame hstep

theorem serves_static {r : Call} {k : Answer r → Py α} (hin : r.inPython = false)
    (hk : ∀ c y a, effect x r c = some (y,a) → Serves (k a) Q y (l ++ [⟨r,a⟩])) :
    Serves (call r >>= k) Q x l := by
  refine serves_call (fun h => by rw [hin] at h; cases h) ?_
  intro z c y a _ hsame hstep
  obtain rfl := hsame hin
  rw [respond,hin] at hstep
  exact hk c y a hstep

theorem serves_api {r : Call} {k : Answer r → Py α} (hx : x.Running)
    (hu : ∀ o ∈ r.uses, x.Live o)
    (hk : ∀ z c y a, Ran x z → effect z r c = some (y,a) → Serves (k a) Q y (l ++ [⟨r,a⟩])) :
    Serves (call r >>= k) Q x l := by
  refine serves_call (fun _ _ => hx) ?_
  intro z c y a hz _ hstep
  rw [respond_eq (hz.running hx) fun o ho => hz.live (hu o ho)] at hstep
  exact hk z c y a hz hstep

theorem serves_new {f : New} {k : Option Obj → Py α} (hx : x.Running)
    (hu : ∀ o ∈ f.uses, x.Live o)
    (hnull : ∀ z m, Ran x z → Silent l m → Serves (k none) Q z.raise m)
    (hobj : ∀ o z m, Ran x z → Silent l m → Serves (k (some o)) Q (z.own o) m) :
    Serves (call (.new f) >>= k) Q x l := by
  refine serves_api hx hu ?_
  intro z c y a hz h
  cases c <;> cases h
  · exact hnull z _ hz (silent_append rfl)
  · exact hobj _ z _ hz (silent_append rfl)

theorem serves_tupleGetItem {tuple : Obj} {pos : ℕ} {k : Option Obj → Py α} (hx : x.Running)
    (ht : x.Live tuple) (hnull : ∀ y m, Ran x y → Silent l m → Serves (k none) Q y.raise m)
    (hobj : ∀ o y, Ran x y → y.Live o →
      Serves (k (some o)) Q y (l ++ [⟨.tupleGetItem tuple pos,some o⟩])) :
    Serves (tupleGetItem tuple pos >>= k) Q x l := by
  refine serves_api hx (by simp [Call.uses,ht]) ?_
  intro z c y a hz h
  cases c <;> try cases h
  case null.refl => exact hnull z _ hz (silent_append rfl)
  case obj o =>
    simp only [effect,Option.ite_none_right_eq_some,Option.some.injEq] at h
    obtain ⟨-,rfl,rfl⟩ := h
    exact hobj o _ (hz.trans (ran_lends {o})) (by simp)

theorem serves_longAsUnsignedLongLong {o : Obj} {k : UInt64 → Py α} (hx : x.Running)
    (ho : x.Live o) (hk : ∀ n z y, Ran x z → y = z ∨ y = z.raise →
      Serves (k n) Q y (l ++ [⟨.longAsUnsignedLongLong o,n⟩])) :
    Serves (longAsUnsignedLongLong o >>= k) Q x l := by
  refine serves_api hx (by simp [Call.uses,ho]) ?_
  intro z c y a hz h
  cases c <;> cases h
  · exact hk _ z _ hz (.inr rfl)
  · exact hk _ z _ hz (.inl rfl)

theorem serves_getCurrentThreadBundle {k : Option String → Py α}
    (hk : ∀ m, Silent l m → Serves (k x.bundle) Q x m) :
    Serves (getCurrentThreadBundle >>= k) Q x l := by
  refine serves_static rfl ?_
  intro c y a h
  cases c <;> cases h
  exact hk _ (silent_append rfl)

/-- A thread that holds the lock of the table waits for ever. -/
theorem serves_lockErrors {k : Unit → Py α}
    (hk : ∀ m, Silent l m → x.errorsLocked = false →
      Serves (k ()) Q (x.withErrorsLocked true) m) : Serves (lockErrors >>= k) Q x l := by
  refine serves_static rfl ?_
  intro c y a h
  cases c <;> try cases h
  simp only [effect,Option.ite_none_left_eq_some,Option.some.injEq] at h
  obtain ⟨hfree,rfl,rfl⟩ := h
  exact hk _ (silent_append rfl) (by simpa using hfree)

theorem serves_unlockErrors {k : Unit → Py α}
    (hk : ∀ m, Silent l m → Serves (k ()) Q (x.withErrorsLocked false) m) :
    Serves (unlockErrors >>= k) Q x l := by
  refine serves_static rfl ?_
  intro c y a h
  cases c <;> cases h
  exact hk _ (silent_append rfl)

theorem serves_lookupError {hash : String} {k : Option Obj → Py α}
    (hk : ∀ m, Silent l m → Serves (k (x.errorObjects.lookup hash)) Q x m) :
    Serves (lookupError hash >>= k) Q x l := by
  refine serves_static rfl ?_
  intro c y a h
  cases c <;> cases h
  exact hk _ (silent_append rfl)

theorem serves_insertError {hash : String} {exc : Obj} {takes : Bool} {k : Unit → Py α}
    (hk : ∀ m, Silent l m → Serves (k ()) Q ((cond takes (x.keep exc) x).withError hash exc) m) :
    Serves (insertError hash exc takes >>= k) Q x l := by
  refine serves_static rfl ?_
  intro c y a h
  cases c <;> cases h
  exact hk _ (silent_append rfl)

theorem serves_sendAndWait {msg : Message} {k : Except String Message → Py α}
    (hk : ∀ answer m, l <+: m → sends m = sends l ++ [msg] → Serves (k answer) Q x m) :
    Serves (sendAndWait msg >>= k) Q x l := by
  refine serves_static rfl ?_
  intro c y a h
  cases c <;> cases h
  refine hk _ _ (List.prefix_append l _) ?_
  rw [sends,List.filterMap_append]
  rfl

end Serves

def Python.withRaised (x : Python) (e : Raised) : Python := { x with error := some e }

/-- NULL comes with an exception, and a result is a new reference. -/
def Returned (x : Python) : Option Obj → Python → Prop
  | none, y => ∃ z e, Ran x z ∧ y = z.withRaised e
  | some o, y => ∃ z, Ran x z ∧ y = z.own o

section Returned

variable {x y z : Python} {r : Option Obj} {o : Obj}

theorem ran_own (h : Ran (x.own o) z) : ∃ w, Ran x w ∧ z = w.own o := by
  obtain ⟨g,hg,rfl⟩ := h
  exact ⟨x.grow g,⟨g,⟨hg.1,hg.2,hg.3,hg.4,hg.5⟩,rfl⟩,rfl⟩

theorem ran_withRaised {e : Raised} (h : Ran (x.withRaised e) z) :
    ∃ w, Ran x w ∧ z = w.withRaised e := by
  obtain ⟨g,hg,rfl⟩ := h
  exact ⟨x.grow g,⟨g,⟨hg.1,hg.2,hg.3,hg.4,hg.5⟩,rfl⟩,rfl⟩

theorem returned_raised {e : Raised} (h : Ran x z) : Returned x none (z.withRaised e) :=
  ⟨z,e,h,rfl⟩

theorem returned_own (h : Ran x z) : Returned x (some o) (z.own o) := ⟨z,h,rfl⟩

theorem Returned.after (hx : Ran x y) (h : Returned y r z) : Returned x r z := by
  cases r with
  | none =>
    obtain ⟨w,e,hw,rfl⟩ := h
    exact returned_raised (hx.trans hw)
  | some o =>
    obtain ⟨w,hw,rfl⟩ := h
    exact returned_own (hx.trans hw)

theorem Returned.ran (h : Returned x r y) (hz : Ran y z) : Returned x r z := by
  cases r with
  | none =>
    obtain ⟨w,e,hw,rfl⟩ := h
    obtain ⟨v,hv,rfl⟩ := ran_withRaised hz
    exact returned_raised (hw.trans hv)
  | some o =>
    obtain ⟨w,hw,rfl⟩ := h
    obtain ⟨v,hv,rfl⟩ := ran_own hz
    exact returned_own (hw.trans hv)

/-- The table is locked while `get_bundle_db_error` makes an exception. -/
theorem ran_unlocked (hx : x.errorsLocked = false) (h : Ran (x.withErrorsLocked true) z) :
    Ran x (z.withErrorsLocked false) ∧ z.errorObjects = x.errorObjects := by
  obtain ⟨g,hg,rfl⟩ := h
  refine ⟨⟨g,⟨hg.1,hg.2,hg.3,hg.4,fun _ => hg.locked rfl⟩,?_⟩,?_⟩
  · apply Python.ext <;> simp [Python.grow,withErrorsLocked,hx]
  · simp [Python.grow,hg.locked rfl,withErrorsLocked]

/-- The exception object that `PyInit_bundledb` notes belongs to the module. -/
theorem ran_noted {hash : String} {exc : Obj} (hx : x.errorsLocked = false) (hexc : exc ∈ x.lent) :
    Ran x (x.withError hash exc) := by
  refine ⟨⟨∅,[],[(hash,exc)]⟩,⟨List.nodup_nil,by simp,List.nil_subset _,by simp [hexc],?_⟩,?_⟩
  · intro hlocked
    rw [hx] at hlocked
    cases hlocked
  · apply Python.ext <;> simp [Python.grow,withError]

/-- The one that `get_bundle_db_error` notes is kept by the table. -/
theorem ran_made {hash : String} {exc : Obj} (hx : x.errorsLocked = false)
    (hfresh : x.errorObjects.lookup hash = none) : Ran x ((x.pin exc).withError hash exc) := by
  refine ⟨⟨∅,[(hash,exc)],[(hash,exc)]⟩,⟨by simp,?_,by simp,by simp,?_⟩,?_⟩
  · intro e he hmem
    obtain rfl := List.mem_singleton.mp he
    obtain ⟨e',he',heq⟩ := List.mem_map.mp hmem
    have hne := List.lookup_eq_none_iff.mp hfresh e' he'
    simp [heq] at hne
  · intro hlocked
    rw [hx] at hlocked
    cases hlocked
  · apply Python.ext <;> simp [Python.grow,withError,pin]

end Returned

def Methods.Sound (methods : Methods) : Prop :=
  ∀ native args x, x.Ready → x.Live args →
    Serves (methods native args) (fun r y _ => Returned x r y) x []

section Soundness

variable {methods : Methods}
  {inner : Python → (r : Call) → Choice → Option (Python × Answer r)} {x y : Python}

/-- The observer sees every step. -/
def Observed (inner : Python → (r : Call) → Choice → Option (Python × Answer r)) : Prop :=
  ∀ x r c y a, visited.allows x r → inner x r c = some (y,a) → visited.moves x r a y

theorem handBack_ran {args : Obj} {r : Option Obj}
    (h : Returned (x.lends {args}).clear r y) : Ran x (x.handBack r y) := by
  have hback : ∀ g : Growth, { ((x.lends {args}).clear.grow g) with error := x.error } =
      (x.lends {args}).grow g := fun g => rfl
  have hgrown : ∀ z, Ran (x.lends {args}).clear z → Ran x { z with error := x.error } := by
    rintro z ⟨g,hg,rfl⟩
    rw [hback]
    exact (ran_lends {args}).trans ⟨g,⟨hg.1,hg.2,hg.3,hg.4,hg.5⟩,rfl⟩
  cases r with
  | none =>
    obtain ⟨z,e,hz,rfl⟩ := h
    exact hgrown z hz
  | some o =>
    obtain ⟨z,hz,rfl⟩ := h
    have hreleased : x.handBack (some o) (z.own o) = { z with error := x.error } := by
      simp [handBack]
    rw [hreleased]
    exact hgrown z hz

theorem callback_ran (hm : methods.Sound) (hinner : Observed inner) (hx : x.Running)
    {c : Native × Obj × List Choice} (h : callback methods inner x c = some y) : Ran x y := by
  obtain ⟨⟨r,z,rest⟩,hexec,hy⟩ := Option.bind_eq_some_iff.mp h
  rw [Option.ite_none_right_eq_some] at hy
  obtain ⟨-,hy⟩ := hy
  cases hy
  have hready : (x.lends {c.2.1}).clear.Ready := by simp [hx]
  have hargs : (x.lends {c.2.1}).clear.Live c.2.1 := by simp
  exact handBack_ran (Program.exec_of_logged hinner (hm c.1 c.2.1 _ hready hargs) hexec)

theorem callbacks_ran (hm : methods.Sound) (hinner : Observed inner) (hx : x.Running)
    (calls : List (Native × Obj × List Choice)) (h : callbacks methods inner calls x = some y) :
    Ran x y := by
  induction calls generalizing x with
  | nil =>
    cases h
    exact .refl _
  | cons c calls ih =>
    rw [callbacks,List.foldlM_cons] at h
    obtain ⟨z,hz,hrest⟩ := Option.bind_eq_some_iff.mp h
    have hfirst := callback_ran hm hinner hx hz
    exact hfirst.trans (ih (hfirst.running hx) hrest)

theorem respond_observed : Observed respond :=
  fun x _ c _ _ _ h => ⟨x,c,.refl x,fun _ => rfl,h⟩

theorem reentrant_observed (hm : methods.Sound) (hinner : Observed inner) :
    Observed (reentrant methods inner) := by
  intro x r c y a hallows h
  cases c with
  | python calls c =>
    rw [reentrant,Option.ite_none_right_eq_some] at h
    obtain ⟨hin,hstep⟩ := h
    simp only [Bool.and_eq_true] at hin
    obtain ⟨z,hz,hresponse⟩ := Option.bind_eq_some_iff.mp hstep
    have hx := hallows hin.1.1 hin.1.2
    refine ⟨z,c,callbacks_ran hm hinner hx calls hz,?_,hresponse⟩
    intro hout
    rw [hin.1.1] at hout
    cases hout
  | _ => exact respond_observed _ _ _ _ _ hallows h

theorem perform_observed (hm : methods.Sound) (n : ℕ) : Observed (perform methods n) := by
  induction n with
  | zero => exact respond_observed
  | succ n ih => exact reentrant_observed hm ih

/-- Executions end in the postconditions, whatever calls back and how deep. -/
theorem Serves.exec {α : Type} {Q : α → Python → List Entry → Prop} {p : Py α} {l : List Entry}
    {n : ℕ} {cs rest : List Choice} {a : α} (hm : methods.Sound) (h : Serves p Q x l)
    (hexec : Program.exec (perform methods n) p x cs = some (a,y,rest)) :
    Q a y (l ++ Program.answers (perform methods n) p x cs) :=
  Program.exec_of_logged (perform_observed hm n) h hexec

theorem Ensures.exec {α : Type} {Q : α → Python → Prop} {p : Py α} {n : ℕ} {cs rest : List Choice}
    {a : α} (hm : methods.Sound) (h : Ensures p Q x)
    (hexec : Program.exec (perform methods n) p x cs = some (a,y,rest)) : ∃ z, Q a z ∧ Ran z y := by
  obtain ⟨z,hz,hR,-⟩ := (h.serves (l := []) (.refl x)).exec hm hexec
  exact ⟨z,hz,hR⟩

end Soundness

end PythonApi
end JobControllerClient
