import JobControllerClient.Foundation.DirectoryCreation

/-! Where an upload may write: `validate_path_is_within` and the creation of the target
in `handle_file_upload_internal`, on a file system that does not change in between. -/
namespace JobControllerClient
namespace UploadPath

open FileSystem

/-- `working_directory.join(target_path)`, the target's leading slashes being trimmed. -/
def fullPath (workingDirectory targetPath : String) : TreePath :=
  .parse (TreePath.join workingDirectory.toList (targetPath.toList.dropWhile (· = '/')))

def validatePathIsWithin (fs : FileSystem) (target : TreePath) (workingDirectory : TreePath) : Bool :=
  match fs.canonicalize workingDirectory with
  | .error _ => false
  | .ok canonicalWorking => match fs.canonicalize target with
    | .ok canonicalTarget => canonicalWorking <+: canonicalTarget
    | .error _ => match fs.existingPrefix target with
      | none => false
      | some current => match fs.canonicalize current with
        | .error _ => false
        | .ok canonicalPrefix =>
          decide (canonicalWorking <+: canonicalPrefix) &&
            !(target.comps.drop current.comps.length).contains .parentDir

def openTarget (fs : FileSystem) (full : TreePath) : List Location × Except IoError Location :=
  let made := match full.parent with
    | some parent => fs.createDirAll parent
    | none => ⟨fs,[],.ok ()⟩
  match made.result with
  | .error e => (made.dirs,.error e)
  | .ok () => (made.dirs,made.fs.createFile full)

/-- The directories created and the file created or truncated. -/
def touched (fs : FileSystem) (full : TreePath) : List Location :=
  let r := openTarget fs full
  r.1 ++ r.2.toOption.toList

/-- The last component is a link to a missing entry of a directory outside of `working`. -/
def DanglingEscape (fs : FileSystem) (full : TreePath) (working : Location) : Prop :=
  ∃ init name d links target loc, full.comps = init ++ [.normal name] ∧
    fs.reach ⟨full.anchor,init,false⟩ = .existing d links ∧
    fs.node (d ++ [name]) = some (.link target) ∧
    fs.resolve full = .absent loc ∧ ¬ working <+: loc

variable {fs : FileSystem} {q full : TreePath} {working d : Location} {links : ℕ}

theorem resolve_of_canonicalize {p : TreePath} {loc : Location}
    (h : fs.canonicalize p = .ok loc) : ∃ links, fs.resolve p = .existing loc links := by
  unfold canonicalize at h
  split at h
  · rename_i links hr
    obtain rfl := Except.ok.inj h
    exact ⟨links,hr⟩
  · cases h
  · cases h

theorem reach_of_resolve {p : TreePath} {loc : Location} (ht : p.trailing = false)
    (h : fs.resolve p = .existing loc links) : fs.reach p = .existing loc links := by
  unfold resolve at h
  split at h
  · cases h
  · split at h
    · cases h
    · rw [ht] at h
      exact h

theorem popToExisting_spec {anchor : Anchor} {comps : List Component} {p : TreePath}
    (h : fs.popToExisting anchor comps = some p) :
    p.anchor = anchor ∧ p.trailing = false ∧ fs.pathExists p = true ∧
      ∃ rest, comps.reverse = p.comps ++ rest ∧
        ∀ c cs, rest = c :: cs → fs.pathExists ⟨anchor,p.comps ++ [c],false⟩ = false := by
  induction comps with
  | nil =>
    simp only [popToExisting] at h
    split at h
    · rename_i hex
      obtain rfl := Option.some.inj h
      exact ⟨rfl,rfl,hex,[],rfl,by simp⟩
    · cases h
  | cons c comps ih =>
    simp only [popToExisting] at h
    split at h
    · rename_i hex
      obtain rfl := Option.some.inj h
      exact ⟨rfl,rfl,hex,[],by simp,by simp⟩
    · rename_i hex
      obtain ⟨ha,ht,hp,rest,hcomps,hnext⟩ := ih h
      refine ⟨ha,ht,hp,rest ++ [c],by rw [List.reverse_cons,hcomps,List.append_assoc],?_⟩
      intro x xs hx
      cases rest with
      | nil =>
        obtain ⟨rfl,-⟩ := List.cons.inj hx
        rw [List.reverse_cons,hcomps,List.append_nil] at hex
        simpa using hex
      | cons y ys =>
        obtain ⟨rfl,-⟩ := List.cons.inj hx
        exact hnext y ys rfl

/-- The target's parent is created inside `d`, or nothing is created. -/
inductive ParentMade (fs : FileSystem) (q : TreePath) (d : Location) (names : List String) : Prop
  | failed (e : IoError) (h : fs.createDirAll (q.extend names) = ⟨fs,[],.error e⟩)
  | there (hnil : names = []) (hdir : fs.node d = some .dir)
      (h : fs.createDirAll (q.extend names) = ⟨fs,[],.ok ()⟩)
  | fresh (hne : names ≠ []) (hdir : fs.node d = some .dir) (first : String)
      (hfirst : names.head? = some first) (hfree : fs.node (d ++ [first]) = none)
      (h : Fresh fs d names (fs.createDirAll (q.extend names)))

theorem extend_nil (hq : q.trailing = false) : q.extend [] = q := by
  cases q
  simp_all [TreePath.extend]

theorem pathExists_of_reach {p : TreePath} {loc : Location} (ht : p.trailing = false)
    (hc : p.comps ≠ []) (hn : p.hasNul = false) (h : fs.reach p = .existing loc links) :
    fs.pathExists p = true := by
  have hres : fs.resolve p = .existing loc links := by
    rw [resolve_eq_walk hn hc,ht]
    exact h
  simp [pathExists,canonicalize,hres,Except.isOk,Except.toBool]

theorem reach_name (hreach : fs.reach q = .existing d links) (hdir : fs.node d = some .dir)
    (name : String) :
    fs.reach (q.extend [name]) = fs.walk links false d [.normal name] := by
  rw [reach_extend fs q (by simp),hreach]
  simp [Resolved.andThen,hdir]

theorem createDirAll_nul {p : TreePath} (ht : p.trailing = false) (hn : p.hasNul = true)
    (hc : p.comps ≠ []) : ∃ e, fs.createDirAll p = ⟨fs,[],.error e⟩ := by
  have hmk : fs.mkdir p = .error .invalidInput := by simp [mkdir,hn]
  simpa [extend_nil ht] using createDirAll_closed (.inl hn) ht hc hmk (by simp) []

theorem parentMade (hq : q.trailing = false) (hres : fs.resolve q = .existing d links)
    (names : List String)
    (hnext : ∀ first rest, names = first :: rest → fs.pathExists (q.extend [first]) = false) :
    ParentMade fs q d names := by
  have hreach := reach_of_resolve hq hres
  by_cases hdir : fs.node d = some .dir
  · cases names with
    | nil =>
      have hisDir : fs.isDir q = true := by simp [isDir,canonicalize,hres,hdir]
      refine .there rfl hdir ?_
      rw [extend_nil hq]
      exact createDirAll_isDir hq hisDir
    | cons first rest =>
      cases hn : (q.extend (first :: rest)).hasNul with
      | true =>
        have hmade : ∃ e, fs.createDirAll (q.extend (first :: rest)) = ⟨fs,[],.error e⟩ :=
          createDirAll_nul rfl hn (by simp [TreePath.extend])
        obtain ⟨e,he⟩ := hmade
        exact .failed e he
      | false =>
        have hn₁ : (q.extend [first]).hasNul = false := by
          rw [Bool.eq_false_iff] at hn ⊢
          intro h
          exact hn (by simpa [TreePath.extend_extend] using TreePath.hasNul_extend h rest)
        have habsent : ∀ loc left, fs.reach (q.extend [first]) ≠ .existing loc left := by
          intro loc left h
          have hex := pathExists_of_reach rfl (by simp [TreePath.extend]) hn₁ h
          cases (hnext first rest rfl).symm.trans hex
        have hname := reach_name hreach hdir first
        rw [walk_normal] at hname
        cases hnode : fs.node (d ++ [first]) with
        | none =>
          exact .fresh (by simp) hdir first rfl hnode (createDirAll_fresh hreach hdir hnode rest hn)
        | some n =>
          rw [hnode] at hname
          cases n with
          | dir => exact (habsent _ _ (by simpa using hname)).elim
          | file content => exact (habsent _ _ (by simpa using hname)).elim
          | link target =>
            have hsnoc : q.extend [first] = ⟨q.anchor,q.comps ++ [.normal first],false⟩ := by
              simp [TreePath.extend]
            have hmk : fs.mkdir (q.extend [first]) = .error .alreadyExists := by
              rw [hsnoc] at hn₁ ⊢
              rw [mkdir_snoc fs _ _ _ hn₁]
              have hinit : fs.reach ⟨q.anchor,q.comps,false⟩ = .existing d links := hreach
              simp [mkdirAt,hinit,hdir,hnode]
            obtain ⟨e,he⟩ := createDirAll_closed (p := q.extend [first])
              (.inr fun loc left h => (habsent loc left h).elim) rfl (by simp [TreePath.extend])
              hmk (by simp) rest
            rw [TreePath.extend_extend] at he
            exact .failed e he
  · have hc : q.comps ≠ [] := by
      intro hnil
      have hstart : fs.reach q = .existing (q.start fs.cwd) maxLinks := by simp [reach,hnil]
      cases hreach.symm.trans hstart
      exact hdir (start_dir fs q)
    have hclosed : fs.Closed q := .inr fun loc left h => by
      cases hreach.symm.trans h
      exact hdir
    obtain ⟨init,last,hsnoc⟩ := snoc_of_comps hq hc
    have hmk : fs.mkdir q = .error .alreadyExists := by
      rw [hsnoc] at hres ⊢
      exact mkdir_existing hres
    obtain ⟨e,he⟩ := createDirAll_closed hclosed hq hc hmk (by simp) names
    exact .failed e he

theorem createDirAll_reached {anchor : Anchor} {init : List Component}
    (hreach : fs.reach ⟨anchor,init,false⟩ = .existing d links) (hdir : fs.node d = some .dir)
    (hn : TreePath.hasNul ⟨anchor,init,false⟩ = false) :
    fs.createDirAll ⟨anchor,init,false⟩ = ⟨fs,[],.ok ()⟩ := by
  by_cases hc : init = []
  · simp [createDirAll,hc,makeAll]
  · have hres : fs.resolve ⟨anchor,init,false⟩ = .existing d links := by
      rw [resolve_eq_walk hn hc]
      exact hreach
    exact createDirAll_isDir rfl (by simp [isDir,canonicalize,hres,hdir])

theorem parent_snoc (anchor : Anchor) (init : List Component) (last : Component)
    (trailing : Bool) :
    TreePath.parent ⟨anchor,init ++ [last],trailing⟩ = some ⟨anchor,init,false⟩ := by
  unfold TreePath.parent
  split
  · rename_i h
    simp at h
  · rename_i h
    simp

theorem touched_eq (anchor : Anchor) (init : List Component) (last : Component) (trailing : Bool)
    {m : Made} (hm : fs.createDirAll ⟨anchor,init,false⟩ = m) :
    touched fs ⟨anchor,init ++ [last],trailing⟩ = match m.result with
      | .error _ => m.dirs
      | .ok () =>
        m.dirs ++ (m.fs.createFile ⟨anchor,init ++ [last],trailing⟩).toOption.toList := by
  simp only [touched,openTarget,parent_snoc,hm]
  cases m.result with
  | error e => simp [Except.toOption]
  | ok u => rfl

theorem hasNul_init {anchor : Anchor} {init : List Component} {last : Component} {trailing : Bool}
    (h : TreePath.hasNul ⟨anchor,init ++ [last],trailing⟩ = false) :
    TreePath.hasNul ⟨anchor,init,false⟩ = false := by
  simp only [TreePath.hasNul,List.any_append,Bool.or_eq_false_iff] at h ⊢
  exact h.1

theorem hasNul_of_absent {p : TreePath} {loc : Location} (h : fs.resolve p = .absent loc) :
    p.hasNul = false := by
  unfold resolve at h
  split at h
  · cases h
  · rename_i hn
    simpa using hn

theorem touched_existing {loc : Location} (h : fs.resolve full = .existing loc links) :
    ∀ l ∈ touched fs full, l = loc := by
  have hcreate : ∀ l ∈ (fs.createFile full).toOption.toList, l = loc := by
    intro l hl
    simp only [createFile,h] at hl
    split at hl <;> simp_all [Except.toOption]
  have hn := hasNul_eq_false_of_resolve h
  obtain ⟨anchor,comps,trailing⟩ := full
  rcases List.eq_nil_or_concat' comps with rfl | ⟨init,last,rfl⟩
  · have hparent : touched fs ⟨anchor,[],trailing⟩ =
        (fs.createFile ⟨anchor,[],trailing⟩).toOption.toList := by
      cases anchor <;> simp [touched,openTarget,TreePath.parent,createDirAll,makeAll]
    rw [hparent]
    exact hcreate
  · rw [resolve_eq_walk hn (by simp),
      walk_append (start_dir fs _) false init (List.cons_ne_nil last [])] at h
    have hreach : fs.walk maxLinks false
        (TreePath.start ⟨anchor,init ++ [last],trailing⟩ fs.cwd) init =
        fs.reach ⟨anchor,init,false⟩ := rfl
    rw [hreach] at h
    cases hr : fs.reach ⟨anchor,init,false⟩ with
    | absent d => simp [hr,Resolved.andThen] at h
    | failed e => simp [hr,Resolved.andThen] at h
    | existing d left =>
      have hdir : fs.node d = some .dir := by
        by_contra hdir
        simp [hr,Resolved.andThen,hdir] at h
      rw [touched_eq _ _ _ _ (createDirAll_reached hr hdir (hasNul_init hn))]
      exact hcreate

section Missing

variable {names : List String} {last : String} {trailing : Bool}

theorem createFile_free (hreach : fs.reach q = .existing d links) (hdir : fs.node d = some .dir)
    (hfree : fs.node (d ++ [last]) = none) :
    ∀ loc ∈ (fs.createFile ⟨q.anchor,q.comps ++ [.normal last],trailing⟩).toOption.toList,
      loc = d ++ [last] := by
  intro loc hloc
  cases hn : TreePath.hasNul ⟨q.anchor,q.comps ++ [.normal last],trailing⟩ with
  | true => simp [createFile,resolve,hn,Except.toOption] at hloc
  | false =>
    rw [createFile,resolve_append hreach hdir (by simp) hn,walk_normal,hfree] at hloc
    cases trailing with
    | false => simpa [Except.toOption] using hloc
    | true => simp [Except.toOption] at hloc

theorem contained_there (hreach : fs.reach q = .existing d links) (hdir : fs.node d = some .dir)
    (hq : q.trailing = false) (hm : fs.createDirAll q = ⟨fs,[],.ok ()⟩) (hwork : working <+: d)
    (hfull : full = ⟨q.anchor,q.comps ++ [.normal last],trailing⟩)
    (hmissing : ∀ loc left, fs.resolve full ≠ .existing loc left) :
    (∀ loc ∈ touched fs full, working <+: loc) ↔ ¬ DanglingEscape fs full working := by
  have hinit : (⟨q.anchor,q.comps,false⟩ : TreePath) = q := by rw [← hq]
  have htouched : touched fs full = (fs.createFile full).toOption.toList := by
    rw [hfull,touched_eq _ _ _ _ (hinit.symm ▸ hm)]
    rfl
  rw [htouched]
  cases hres : fs.resolve full with
  | existing loc left => exact (hmissing loc left hres).elim
  | failed e =>
    refine iff_of_true (by simp [createFile,hres,Except.toOption]) ?_
    rintro ⟨_,_,_,_,_,loc,_,_,_,habs,_⟩
    cases hres.symm.trans habs
  | absent loc =>
    have hopened : (∀ l ∈ (fs.createFile full).toOption.toList, working <+: l) ↔
        working <+: loc := by simp [createFile,hres,Except.toOption]
    refine hopened.trans ⟨?_,fun hno => ?_⟩
    · rintro hin ⟨_,_,_,_,_,loc',_,_,_,habs,hout⟩
      cases hres.symm.trans habs
      exact hout hin
    · by_contra hout
      have hwalk := hres
      rw [hfull] at hwalk
      rw [resolve_append hreach hdir (by simp) (hasNul_of_absent hwalk),walk_normal] at hwalk
      cases hnode : fs.node (d ++ [last]) with
      | none =>
        have hmem : loc ∈ (fs.createFile
            ⟨q.anchor,q.comps ++ [.normal last],trailing⟩).toOption.toList := by
          rw [← hfull]
          simp [createFile,hres,Except.toOption]
        have hloc := createFile_free hreach hdir hnode loc hmem
        exact hout (hloc ▸ hwork.trans (List.prefix_append _ _))
      | some n =>
        rw [hnode] at hwalk
        cases n with
        | dir => simp at hwalk
        | file content => cases trailing <;> simp at hwalk
        | link target =>
          exact hno ⟨q.comps,last,d,links,target,loc,by rw [hfull],
            by rw [hfull]; exact hinit.symm ▸ hreach,hnode,hres,hout⟩

theorem contained_fresh {first : String} (hreach : fs.reach q = .existing d links)
    (hdir : fs.node d = some .dir) (hfirst : names.head? = some first)
    (hfree : fs.node (d ++ [first]) = none)
    (hm : Fresh fs d names (fs.createDirAll (q.extend names))) (hwork : working <+: d)
    (hfull : full = ⟨q.anchor,(q.extend names).comps ++ [.normal last],trailing⟩) :
    (∀ loc ∈ touched fs full, working <+: loc) ∧ ¬ DanglingEscape fs full working := by
  obtain ⟨rest,rfl⟩ : ∃ rest, names = first :: rest := by
    cases names with
    | nil => cases hfirst
    | cons x xs => exact ⟨xs,by rw [Option.some.inj hfirst]⟩
  constructor
  · intro loc hloc
    have hinit : (⟨q.anchor,(q.extend (first :: rest)).comps,false⟩ : TreePath) =
        q.extend (first :: rest) := rfl
    rw [hfull,touched_eq _ _ _ _ rfl,hinit,hm.ok,List.mem_append] at hloc
    rcases hloc with hloc | hloc
    · exact hwork.trans (hm.inside loc hloc)
    · have hopened := createFile_free (hm.reach hreach hdir) (hm.dir hdir)
        (hm.below (by simp) last) loc hloc
      rw [hopened,List.append_assoc]
      exact hwork.trans (List.prefix_append _ _)
  · rintro ⟨_,_,_,_,_,loc,_,_,_,habs,_⟩
    have hcomps : (q.extend (first :: rest)).comps ++ [.normal last] =
        q.comps ++ .normal first :: (rest.map .normal ++ [.normal last]) := by
      simp [TreePath.extend]
    rw [hfull,hcomps] at habs
    rw [resolve_append hreach hdir (by simp) (hasNul_of_absent habs),walk_normal,hfree] at habs
    simp at habs

theorem contained_failed {e : IoError}
    (hm : fs.createDirAll (q.extend names) = ⟨fs,[],.error e⟩)
    (hfull : full = ⟨q.anchor,(q.extend names).comps ++ [.normal last],trailing⟩) :
    (∀ loc ∈ touched fs full, working <+: loc) ∧ ¬ DanglingEscape fs full working := by
  constructor
  · intro loc hloc
    have hmade : fs.createDirAll ⟨q.anchor,(q.extend names).comps,false⟩ = ⟨fs,[],.error e⟩ := hm
    rw [hfull,touched_eq _ _ _ _ hmade] at hloc
    cases hloc
  · rintro ⟨init,name,d,links,target,loc,hcomps,hreach,hlink,habs,_⟩
    rw [hfull] at hcomps hreach habs
    obtain ⟨rfl,-⟩ := List.append_inj' hcomps rfl
    have hok := createDirAll_reached hreach (fs.parent_dir d name _ hlink)
      (hasNul_init (hasNul_of_absent habs))
    cases congrArg Made.result (hm.symm.trans hok)

end Missing

theorem names_of_no_parentDir {comps : List Component} (h : comps.contains .parentDir = false) :
    ∃ names : List String, comps = names.map .normal := by
  induction comps with
  | nil => exact ⟨[],rfl⟩
  | cons c comps ih =>
    simp only [List.contains_cons,Bool.or_eq_false_iff] at h
    obtain ⟨names,rfl⟩ := ih h.2
    cases c with
    | parentDir => simp at h
    | normal name => exact ⟨name :: names,rfl⟩

theorem contained_missing (hmissing : ∀ loc left, fs.resolve full ≠ .existing loc left)
    {current : TreePath} (hcurrent : fs.existingPrefix full = some current)
    {canonicalPrefix : Location} (hcan : fs.canonicalize current = .ok canonicalPrefix)
    (hwork : working <+: canonicalPrefix)
    (hlex : (full.comps.drop current.comps.length).contains .parentDir = false) :
    (∀ loc ∈ touched fs full, working <+: loc) ↔ ¬ DanglingEscape fs full working := by
  have hnot : fs.pathExists full = false := by
    simp only [pathExists,canonicalize]
    cases hres : fs.resolve full with
    | existing loc left => exact (hmissing loc left hres).elim
    | absent loc => rfl
    | failed e => rfl
  obtain ⟨anchor,comps,trailing⟩ := full
  rcases List.eq_nil_or_concat' comps with rfl | ⟨init,final,rfl⟩
  · exfalso
    rw [existingPrefix,hnot] at hcurrent
    cases anchor <;> simp [TreePath.parent,popToExisting,pathExists,canonicalize,resolve,
      TreePath.hasNul,TreePath.isEmpty,Except.isOk,Except.toBool] at hcurrent
  · simp only [existingPrefix,hnot,Bool.false_eq_true,if_false,parent_snoc,
      Option.bind_some] at hcurrent
    obtain ⟨hanchor,hqt,-,rest,hcomps,hnext⟩ := popToExisting_spec hcurrent
    rw [List.reverse_reverse] at hcomps
    subst hcomps
    rw [List.append_assoc,List.drop_left] at hlex
    obtain ⟨names,hnames⟩ := names_of_no_parentDir hlex
    obtain ⟨front,last,rfl⟩ : ∃ front last, names = front ++ [last] := by
      rcases List.eq_nil_or_concat' names with rfl | ⟨front,last,rfl⟩
      · simp at hnames
      · exact ⟨front,last,rfl⟩
    rw [List.map_append,List.map_singleton] at hnames
    obtain ⟨rfl,hfinal⟩ := List.append_inj' hnames rfl
    obtain rfl := List.singleton_inj.mp hfinal
    subst hanchor
    obtain ⟨links,hres⟩ := resolve_of_canonicalize hcan
    have hreach := reach_of_resolve hqt hres
    have hmade := parentMade hqt hres front fun first tail hfront => by
      have hout := hnext (.normal first) (tail.map .normal) (by rw [hfront,List.map_cons])
      simpa [TreePath.extend] using hout
    cases hmade with
    | failed e hm => exact iff_of_true (contained_failed hm rfl).1 (contained_failed hm rfl).2
    | there hnil hdir hm =>
      subst hnil
      rw [extend_nil hqt] at hm
      have hfull : (⟨current.anchor,current.comps ++ List.map .normal [] ++ [.normal last],trailing⟩ :
          TreePath) = ⟨current.anchor,current.comps ++ [.normal last],trailing⟩ := by simp
      exact contained_there hreach hdir hqt hm hwork hfull hmissing
    | fresh hne hdir first hfirst hfree hm =>
      obtain ⟨hin,hno⟩ := contained_fresh hreach hdir hfirst hfree hm hwork rfl
      exact iff_of_true hin hno

/-- An accepted upload touches only locations under the canonical working directory, unless
its target is a dangling link that leads out of it; and then it does not. -/
theorem upload_contained_iff (fs : FileSystem) (workingDirectory targetPath : String)
    (hvalid : validatePathIsWithin fs (fullPath workingDirectory targetPath)
      (.parse workingDirectory.toList) = true) :
    ∃ working, fs.canonicalize (.parse workingDirectory.toList) = .ok working ∧
      ((∀ loc ∈ touched fs (fullPath workingDirectory targetPath), working <+: loc) ↔
        ¬ DanglingEscape fs (fullPath workingDirectory targetPath) working) := by
  unfold validatePathIsWithin at hvalid
  cases hw : fs.canonicalize (.parse workingDirectory.toList) with
  | error e => simp [hw] at hvalid
  | ok working =>
    refine ⟨working,rfl,?_⟩
    simp only [hw] at hvalid
    cases hres : fs.resolve (fullPath workingDirectory targetPath) with
    | existing loc links =>
      simp only [canonicalize,hres,decide_eq_true_eq] at hvalid
      refine iff_of_true (fun l hl => touched_existing hres l hl ▸ hvalid) ?_
      rintro ⟨_,_,_,_,_,loc',_,_,_,habs,_⟩
      cases hres.symm.trans habs
    | _ =>
      have hmissing : ∀ loc left,
          fs.resolve (fullPath workingDirectory targetPath) ≠ .existing loc left := by
        simp [hres]
      have hcan : ∃ e, fs.canonicalize (fullPath workingDirectory targetPath) = .error e := by
        simp [canonicalize,hres]
      obtain ⟨e,hcan⟩ := hcan
      simp only [hcan] at hvalid
      split at hvalid
      · cases hvalid
      · rename_i current hcurrent
        split at hvalid
        · cases hvalid
        · rename_i canonicalPrefix hprefix
          simp only [Bool.and_eq_true,decide_eq_true_eq,Bool.not_eq_true'] at hvalid
          exact contained_missing hmissing hcurrent hprefix hvalid.1 hvalid.2

def emptyWork : FileSystem := bare.add [] "w" .dir (by decide) (by decide)

theorem upload_contained_emptyWork :
    ∃ working, emptyWork.canonicalize (.parse "/w".toList) = .ok working ∧
      ∀ loc ∈ touched emptyWork (fullPath "/w" "new/file"), working <+: loc := by
  obtain ⟨working,hw,hiff⟩ := upload_contained_iff emptyWork "/w" "new/file" (by decide)
  refine ⟨working,hw,hiff.mpr ?_⟩
  rintro ⟨_,_,_,_,_,loc,_,_,_,habs,_⟩
  have hres : emptyWork.resolve (fullPath "/w" "new/file") = .failed .notFound := by decide
  cases hres.symm.trans habs

/-- The working directory holds a link to a missing file of another directory. -/
def danglingWork : FileSystem :=
  ((emptyWork.add [] "out" .dir (by decide) (by decide)).add ["w"] "link"
    (.link ⟨.root,[.normal "out",.normal "new"],false⟩) (by decide) (by decide))

theorem danglingWork_escapes :
    validatePathIsWithin danglingWork (fullPath "/w" "link") (.parse "/w".toList) = true ∧
      danglingWork.canonicalize (.parse "/w".toList) = .ok ["w"] ∧
      touched danglingWork (fullPath "/w" "link") = [["out","new"]] ∧
      ¬ ["w"] <+: ["out","new"] := by
  decide

end UploadPath
end JobControllerClient
