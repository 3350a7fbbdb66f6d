import JobControllerClient.Foundation.FileSystem

/-! What the creation of a directory with all its ancestors does to a file system: it
leaves existing directories alone, fails below anything that is not a directory, and
otherwise makes fresh directories inside an existing one. -/

namespace TreePath

/-- The path with further names below it. -/
def extend (p : TreePath) (names : List String) : TreePath :=
  ⟨p.anchor,p.comps ++ names.map .normal,false⟩

theorem extend_extend (p : TreePath) (a b : List String) :
    (p.extend a).extend b = p.extend (a ++ b) := by
  simp [extend]

theorem hasNul_extend {p : TreePath} (h : p.hasNul = true) (names : List String) :
    (p.extend names).hasNul = true := by
  simp only [hasNul,extend,List.any_append,Bool.or_eq_true] at h ⊢
  exact .inl h

end TreePath

namespace FileSystem

variable {fs : FileSystem} {p : TreePath}

/-- The plain resolution of a path, without the checks of the system call. -/
def reach (fs : FileSystem) (p : TreePath) : Resolved :=
  fs.walk maxLinks false (p.start fs.cwd) p.comps

theorem start_dir (fs : FileSystem) (p : TreePath) : fs.node (p.start fs.cwd) = some .dir :=
  node_start fs.cwd_dir p

theorem resolve_eq_walk (hn : p.hasNul = false) (hc : p.comps ≠ []) :
    fs.resolve p = fs.walk maxLinks p.trailing (p.start fs.cwd) p.comps := by
  simp [resolve,hn,TreePath.isEmpty,hc]

/-- The resolution of a longer path goes on where a first part of it ends. -/
theorem resolve_append {d : Location} {links : ℕ} {trailing : Bool} {rest : List Component}
    (hreach : fs.reach p = .existing d links) (hdir : fs.node d = some .dir) (hrest : rest ≠ [])
    (hn : TreePath.hasNul ⟨p.anchor,p.comps ++ rest,trailing⟩ = false) :
    fs.resolve ⟨p.anchor,p.comps ++ rest,trailing⟩ = fs.walk links trailing d rest := by
  have hstart : fs.walk maxLinks false
      (TreePath.start ⟨p.anchor,p.comps ++ rest,trailing⟩ fs.cwd) p.comps =
      .existing d links := hreach
  rw [resolve_eq_walk hn (by simp [hrest]),walk_append (start_dir fs _) false p.comps hrest,hstart]
  simp [Resolved.andThen,hdir]

theorem reach_extend (fs : FileSystem) (p : TreePath) {names : List String} (h : names ≠ []) :
    fs.reach (p.extend names) = Resolved.andThen fs (fs.reach p) fun links loc =>
      fs.walk links false loc (names.map .normal) :=
  walk_append (start_dir fs p) false p.comps (by simpa using h)

/-- Nothing can be created below `p` as it stands. -/
def Closed (fs : FileSystem) (p : TreePath) : Prop :=
  p.hasNul = true ∨ ∀ loc links, fs.reach p = .existing loc links → fs.node loc ≠ some .dir

theorem Closed.extend (h : fs.Closed p) (names : List String) : fs.Closed (p.extend names) := by
  rcases h with hnul | hreach
  · exact .inl (TreePath.hasNul_extend hnul names)
  · refine .inr fun loc links hx => ?_
    cases names with
    | nil => exact hreach loc links (by simpa [TreePath.extend,reach,TreePath.start] using hx)
    | cons name names =>
      rw [reach_extend fs p (by simp)] at hx
      cases hr : fs.reach p with
      | existing d left => simp [hr,Resolved.andThen,hreach d left hr] at hx
      | absent d => simp [hr,Resolved.andThen] at hx
      | failed e => simp [hr,Resolved.andThen] at hx

theorem Closed.isDir_eq_false (h : fs.Closed p) (ht : p.trailing = false) (hc : p.comps ≠ []) :
    fs.isDir p = false := by
  rcases h with hnul | hreach
  · simp [isDir,canonicalize,resolve,hnul]
  · cases hn : p.hasNul with
    | true => simp [isDir,canonicalize,resolve,hn]
    | false =>
      rw [isDir,canonicalize,resolve_eq_walk hn hc,ht]
      cases hr : fs.walk maxLinks false (p.start fs.cwd) p.comps with
      | existing loc links => simp [hreach loc links hr]
      | absent loc => rfl
      | failed e => rfl

theorem mkdir_snoc (fs : FileSystem) (anchor : Anchor) (init : List Component) (last : Component)
    (hn : TreePath.hasNul ⟨anchor,init ++ [last],false⟩ = false) :
    fs.mkdir ⟨anchor,init ++ [last],false⟩ = fs.mkdirAt last (fs.reach ⟨anchor,init,false⟩) := by
  simp only [mkdir,hn,Bool.false_eq_true,if_false,List.getLast?_concat,List.dropLast_concat]
  rfl

theorem Closed.mkdir (h : fs.Closed p) (name : String) :
    ∃ e, fs.mkdir (p.extend [name]) = .error e := by
  cases hn : (p.extend [name]).hasNul with
  | true => exact ⟨.invalidInput,by simp [FileSystem.mkdir,hn]⟩
  | false =>
    have hopen : ∀ loc links, fs.reach p = .existing loc links → fs.node loc ≠ some .dir := by
      rcases h with hnul | hreach
      · rw [TreePath.hasNul_extend hnul] at hn
        cases hn
      · exact hreach
    rw [TreePath.extend,List.map_singleton] at hn ⊢
    rw [mkdir_snoc fs _ _ _ hn]
    have hp : fs.reach ⟨p.anchor,p.comps,false⟩ = fs.reach p := rfl
    rw [hp]
    cases hr : fs.reach p with
    | existing loc links => exact ⟨.notADirectory,by simp [mkdirAt,hopen loc links hr]⟩
    | absent loc => exact ⟨.notFound,rfl⟩
    | failed e => exact ⟨e,rfl⟩

theorem createDirAll_snoc (fs : FileSystem) (anchor : Anchor) (init : List Component)
    (last : Component) :
    fs.createDirAll ⟨anchor,init ++ [last],false⟩ =
      match fs.mkdir ⟨anchor,init ++ [last],false⟩ with
      | .ok (fs',loc) => ⟨fs',[loc],.ok ()⟩
      | .error .notFound =>
        makeLast (fs.createDirAll ⟨anchor,init,false⟩) ⟨anchor,init ++ [last],false⟩
      | .error e => ⟨fs,[],if fs.isDir ⟨anchor,init ++ [last],false⟩ then .ok () else .error e⟩ := by
  have hreverse : (init ++ [last]).reverse = last :: init.reverse := List.reverse_concat
  have hpath : (last :: init.reverse).reverse = init ++ [last] := by simp
  rw [createDirAll,hreverse,makeAll,hpath]
  rfl

theorem snoc_of_comps (ht : p.trailing = false) (hc : p.comps ≠ []) :
    ∃ init last, p = ⟨p.anchor,init ++ [last],false⟩ := by
  refine ⟨p.comps.dropLast,p.comps.getLast hc,?_⟩
  rw [List.dropLast_append_getLast,← ht]

theorem createDirAll_closed (h : fs.Closed p) (ht : p.trailing = false) (hc : p.comps ≠ [])
    {e₀ : IoError} (hmk : fs.mkdir p = .error e₀) (he : e₀ ≠ .notFound) (names : List String) :
    ∃ e, fs.createDirAll (p.extend names) = ⟨fs,[],.error e⟩ := by
  induction names using List.reverseRecOn with
  | nil =>
    have hdir := h.isDir_eq_false ht hc
    obtain ⟨init,last,hp⟩ := snoc_of_comps ht hc
    have hext : p.extend [] = p := by
      cases p
      simp_all [TreePath.extend]
    rw [hext]
    rw [hp] at hmk hdir ⊢
    refine ⟨e₀,?_⟩
    rw [createDirAll_snoc,hmk]
    simp [hdir]
  | append_singleton names name ih =>
    obtain ⟨e,hpar⟩ := ih
    obtain ⟨e',hmk'⟩ := (h.extend names).mkdir name
    have hdir := (h.extend (names ++ [name])).isDir_eq_false rfl (by simp [TreePath.extend])
    have hsnoc : p.extend (names ++ [name]) =
        ⟨p.anchor,(p.extend names).comps ++ [.normal name],false⟩ := by simp [TreePath.extend]
    rw [TreePath.extend_extend,hsnoc] at hmk'
    rw [hsnoc] at hdir ⊢
    rw [createDirAll_snoc,hmk']
    cases e' with
    | notFound =>
      have hinit : (⟨p.anchor,(p.extend names).comps,false⟩ : TreePath) = p.extend names := rfl
      exact ⟨e,by simp only [hinit,hpar,makeLast]⟩
    | _ => exact ⟨_,by simp only [hdir]; rfl⟩

theorem hasNul_eq_false_of_resolve {loc : Location} {links : ℕ}
    (h : fs.resolve p = .existing loc links) : p.hasNul = false := by
  unfold resolve at h
  split at h
  · cases h
  · rename_i hn
    simpa using hn

theorem mkdir_existing {anchor : Anchor} {init : List Component} {last : Component}
    {loc : Location} {links : ℕ} (h : fs.resolve ⟨anchor,init ++ [last],false⟩ = .existing loc links) :
    fs.mkdir ⟨anchor,init ++ [last],false⟩ = .error .alreadyExists := by
  have hn := hasNul_eq_false_of_resolve h
  rw [resolve_eq_walk hn (by simp),
    walk_append (start_dir fs _) false init (List.cons_ne_nil last [])] at h
  rw [mkdir_snoc fs _ _ _ hn]
  have hreach : fs.walk maxLinks false (TreePath.start ⟨anchor,init ++ [last],false⟩ fs.cwd) init =
      fs.reach ⟨anchor,init,false⟩ := rfl
  rw [hreach] at h
  cases hr : fs.reach ⟨anchor,init,false⟩ with
  | absent d => simp [hr,Resolved.andThen] at h
  | failed e => simp [hr,Resolved.andThen] at h
  | existing d left =>
    rw [hr,Resolved.andThen] at h
    split at h
    · rename_i hdir
      cases last with
      | parentDir => simp [mkdirAt,hdir]
      | normal name =>
        have hex : fs.node (d ++ [name]) ≠ none := by
          intro hnone
          simp [walk_normal,hnone] at h
        simp [mkdirAt,hdir,hex]
    · cases h

theorem createDirAll_isDir (ht : p.trailing = false) (h : fs.isDir p = true) :
    fs.createDirAll p = ⟨fs,[],.ok ()⟩ := by
  by_cases hc : p.comps = []
  · simp [createDirAll,hc,makeAll]
  · have hres : ∃ loc links, fs.resolve p = .existing loc links := by
      simp only [isDir,canonicalize] at h
      cases hr : fs.resolve p with
      | existing loc links => exact ⟨loc,links,rfl⟩
      | absent loc => simp [hr] at h
      | failed e => simp [hr] at h
    obtain ⟨loc,links,hres⟩ := hres
    obtain ⟨init,last,hp⟩ := snoc_of_comps ht hc
    rw [hp] at h hres ⊢
    rw [createDirAll_snoc,mkdir_existing hres]
    simp [h]

theorem node_add {loc : Location} {name : String} {n : Node} (hdir : fs.node loc = some .dir)
    (hfree : fs.node (loc ++ [name]) = none) (l : Location) :
    (fs.add loc name n hdir hfree).node l = if l = loc ++ [name] then some n else fs.node l := by
  by_cases hl : l = loc ++ [name]
  · subst hl
    simp [node,add]
  · simp [node,add,hl]

theorem walk_dirs {links : ℕ} {trailing : Bool} {cur : Location} {names : List String}
    (h : ∀ ns, ns ≠ [] → ns <+: names → fs.node (cur ++ ns) = some .dir) (rest : List Component) :
    fs.walk links trailing cur (names.map .normal ++ rest) =
      fs.walk links trailing (cur ++ names) rest := by
  induction names generalizing cur with
  | nil => simp
  | cons name names ih =>
    have hname : fs.node (cur ++ [name]) = some .dir := h [name] (by simp) (by simp)
    rw [List.map_cons,List.cons_append,walk_normal,hname]
    simp only
    rw [ih,List.append_assoc,List.singleton_append]
    intro ns hne hpre
    have hlong := h (name :: ns) (by simp) (by simpa using hpre)
    rwa [List.append_assoc,List.singleton_append]

/-- What the creation of fresh directories `names` below directory `d` leaves behind. -/
structure Fresh (fs : FileSystem) (d : Location) (names : List String) (m : Made) : Prop where
  ok : m.result = .ok ()
  cwd : m.fs.cwd = fs.cwd
  keep : ∀ l n, fs.node l = some n → m.fs.node l = some n
  inside : ∀ l ∈ m.dirs, d <+: l
  made : ∀ ns, ns ≠ [] → ns <+: names → m.fs.node (d ++ ns) = some .dir
  below : names ≠ [] → ∀ name, m.fs.node (d ++ names ++ [name]) = none

section Fresh

variable {d : Location} {names : List String} {m : Made} {name : String} {links : ℕ}

theorem Fresh.nil (fs : FileSystem) (d : Location) : Fresh fs d [] ⟨fs,[],.ok ()⟩ where
  ok := rfl
  cwd := rfl
  keep _ _ h := h
  inside l hl := by cases hl
  made ns hne hpre := (hne (List.prefix_nil.mp hpre)).elim
  below h := (h rfl).elim

theorem Fresh.dir (h : Fresh fs d names m) (hdir : fs.node d = some .dir) :
    m.fs.node (d ++ names) = some .dir := by
  by_cases hne : names = []
  · rw [hne,List.append_nil]
    exact h.keep d _ hdir
  · exact h.made names hne (List.prefix_refl names)

theorem Fresh.reach (h : Fresh fs d names m) (hreach : fs.reach p = .existing d links)
    (hdir : fs.node d = some .dir) : m.fs.reach (p.extend names) = .existing (d ++ names) links := by
  have hp : m.fs.reach p = .existing d links := by
    rw [FileSystem.reach,h.cwd]
    exact walk_keeps (fun l n hn => .inl (h.keep l n hn)) hreach
  by_cases hne : names = []
  · subst hne
    simpa [TreePath.extend,FileSystem.reach,TreePath.start] using hp
  · rw [reach_extend m.fs p hne,hp]
    simp only [Resolved.andThen,h.keep d _ hdir,if_true]
    have hwalk : m.fs.walk links false d (names.map .normal ++ []) =
        m.fs.walk links false (d ++ names) [] := walk_dirs h.made []
    rwa [List.append_nil,walk_nil] at hwalk

theorem Fresh.snoc (h : Fresh fs d names m) (hdir : m.fs.node (d ++ names) = some .dir)
    (hfree : m.fs.node (d ++ names ++ [name]) = none) :
    Fresh fs d (names ++ [name]) ⟨m.fs.add (d ++ names) name .dir hdir hfree,
      m.dirs ++ [d ++ names ++ [name]],.ok ()⟩ where
  ok := rfl
  cwd := h.cwd
  keep l n hl := by
    rw [node_add,if_neg,h.keep l n hl]
    rintro rfl
    cases hfree.symm.trans (h.keep _ n hl)
  inside l hl := by
    rcases List.mem_append.mp hl with hl | hl
    · exact h.inside l hl
    · rw [List.mem_singleton.mp hl,List.append_assoc]
      exact List.prefix_append _ _
  made ns hne hpre := by
    rw [node_add]
    split
    · rfl
    · rename_i hns
      rcases List.prefix_concat_iff.mp hpre with heq | hpre
      · exact (hns (by rw [heq,List.append_assoc])).elim
      · exact h.made ns hne hpre
  below _ next := by
    rw [node_add,if_neg (by simp)]
    simpa using node_below hfree [next]

theorem Fresh.mkdir (h : Fresh fs d names m) (hreach : fs.reach p = .existing d links)
    (hdir : fs.node d = some .dir) (hn : (p.extend (names ++ [name])).hasNul = false)
    (hfree : m.fs.node (d ++ names ++ [name]) = none) :
    m.fs.mkdir (p.extend (names ++ [name])) =
      .ok (m.fs.add (d ++ names) name .dir (h.dir hdir) hfree,d ++ names ++ [name]) := by
  have hsnoc : p.extend (names ++ [name]) =
      ⟨p.anchor,(p.extend names).comps ++ [.normal name],false⟩ := by simp [TreePath.extend]
  have hinit : (⟨p.anchor,(p.extend names).comps,false⟩ : TreePath) = p.extend names := rfl
  rw [hsnoc] at hn ⊢
  rw [mkdir_snoc m.fs _ _ _ hn,hinit,h.reach hreach hdir]
  simp only [mkdirAt,h.dir hdir,hfree,dif_pos]

/-- Below a directory that lacks the first name, all the directories are made inside it. -/
theorem createDirAll_fresh {first : String} (hreach : fs.reach p = .existing d links)
    (hdir : fs.node d = some .dir) (hfree : fs.node (d ++ [first]) = none) (names : List String)
    (hn : (p.extend (first :: names)).hasNul = false) :
    Fresh fs d (first :: names) (fs.createDirAll (p.extend (first :: names))) := by
  induction names using List.reverseRecOn with
  | nil =>
    have hnil := Fresh.nil fs d
    have hfree' : fs.node (d ++ [] ++ [first]) = none := by simpa using hfree
    have hmk := hnil.mkdir hreach hdir hn hfree'
    have hsnoc : p.extend [first] = ⟨p.anchor,p.comps ++ [.normal first],false⟩ := by
      simp [TreePath.extend]
    have hfresh := hnil.snoc (hnil.dir hdir) hfree'
    rw [List.nil_append,hsnoc] at hmk
    rw [hsnoc,createDirAll_snoc,hmk]
    exact hfresh
  | append_singleton names name ih =>
    have hsnoc : p.extend (first :: names ++ [name]) =
        ⟨p.anchor,(p.extend (first :: names)).comps ++ [.normal name],false⟩ := by
      simp [TreePath.extend]
    have hinit : (⟨p.anchor,(p.extend (first :: names)).comps,false⟩ : TreePath) =
        p.extend (first :: names) := rfl
    rw [← List.cons_append] at hn ⊢
    have hn' : (p.extend (first :: names)).hasNul = false := by
      rw [Bool.eq_false_iff] at hn ⊢
      intro hnul
      exact hn (by simpa [TreePath.extend_extend] using TreePath.hasNul_extend hnul [name])
    have hm := ih hn'
    have hmiss : fs.mkdir (p.extend (first :: names ++ [name])) = .error .notFound := by
      rw [hsnoc] at hn ⊢
      rw [mkdir_snoc fs _ _ _ hn,hinit,reach_extend fs p (by simp),hreach]
      simp only [Resolved.andThen,hdir,if_true,List.map_cons,walk_normal,hfree]
      split <;> rfl
    have hbelow := hm.below (by simp) name
    have hmk := hm.mkdir hreach hdir hn hbelow
    have hfresh := hm.snoc (hm.dir hdir) hbelow
    rw [hsnoc] at hmiss hmk ⊢
    rw [createDirAll_snoc,hmiss]
    simp only [hinit,makeLast,hm.ok,hmk]
    exact hfresh

end Fresh

end FileSystem
