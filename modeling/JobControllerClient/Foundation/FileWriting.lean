import JobControllerClient.Foundation.DirectoryCreation

/-! What the operations on a tree change: a directory with its ancestors, the content of a file,
and the removal of an entry. Opening a file for writing follows a link at the end of its path,
and removing it does not. -/

namespace FileSystem

variable {fs fs' : FileSystem} {p : TreePath} {loc cur l : Location} {links : ℕ} {trailing : Bool}
  {content : List UInt8}

/-- An entry may be put here: its directory is there, and no directory is in the way. -/
def writable (fs : FileSystem) (loc : Location) : Bool :=
  loc ≠ [] && fs.node loc.dropLast = some .dir && fs.node loc ≠ some .dir

theorem writable_iff : fs.writable loc = true ↔
    loc ≠ [] ∧ fs.node loc.dropLast = some .dir ∧ fs.node loc ≠ some .dir := by
  simp [writable,and_assoc]

/-- Put an entry at `loc`; where none may stand, nothing changes. -/
def put (fs : FileSystem) (loc : Location) (n : Node) : FileSystem :=
  if h : fs.writable loc = true then
    have hkeep : ∀ l, fs.node l = some .dir → (fs.nodes.insert loc n).lookup l = some .dir := by
      intro l hl
      rw [AList.lookup_insert_ne]
      · exact hl
      · rintro rfl
        exact (writable_iff.mp h).2.2 hl
    { nodes := fs.nodes.insert loc n
      cwd := fs.cwd
      root_dir := hkeep [] fs.root_dir
      parent_dir := by
        intro d name n' hn
        by_cases heq : d ++ [name] = loc
        · have hdir := (writable_iff.mp h).2.1
          rw [← heq,List.dropLast_concat] at hdir
          exact hkeep d hdir
        · rw [AList.lookup_insert_ne heq] at hn
          exact hkeep d (fs.parent_dir d name n' hn)
      cwd_dir := hkeep fs.cwd fs.cwd_dir }
  else fs

def write (fs : FileSystem) (loc : Location) (content : List UInt8) : FileSystem :=
  fs.put loc (.file content)

def makeDir (fs : FileSystem) (loc : Location) : FileSystem :=
  if fs.node loc = none then fs.put loc .dir else fs

def remove (fs : FileSystem) (loc : Location) : FileSystem :=
  if h : fs.node loc ≠ some .dir then
    have hkeep : ∀ l, fs.node l = some .dir → (fs.nodes.erase loc).lookup l = some .dir := by
      intro l hl
      rw [AList.lookup_erase_ne]
      · exact hl
      · rintro rfl
        exact h hl
    { nodes := fs.nodes.erase loc
      cwd := fs.cwd
      root_dir := hkeep [] fs.root_dir
      parent_dir := by
        intro d name n hn
        by_cases heq : d ++ [name] = loc
        · rw [heq,AList.lookup_erase] at hn
          cases hn
        · rw [AList.lookup_erase_ne heq] at hn
          exact hkeep d (fs.parent_dir d name n hn)
      cwd_dir := hkeep fs.cwd fs.cwd_dir }
  else fs

def removeAt (fs : FileSystem) (last : Component) (trailing : Bool) :
    Resolved → Except IoError FileSystem
  | .absent _ => .error .notFound
  | .failed e => .error e
  | .existing d _ =>
    if fs.node d = some .dir then match last with
      | .parentDir => .error .isADirectory
      | .normal name => match fs.node (d ++ [name]) with
        | none => .error .notFound
        | some .dir => .error .isADirectory
        | some _ => if trailing then .error .notADirectory else .ok (fs.remove (d ++ [name]))
    else .error .notADirectory

/-- Remove one entry that is not a directory; a final link is not followed. -/
def removeFile (fs : FileSystem) (p : TreePath) : Except IoError FileSystem :=
  if p.hasNul then .error .invalidInput
  else match p.comps.getLast? with
  | none => .error (if p.anchor = .here then .notFound else .isADirectory)
  | some last =>
    fs.removeAt last p.trailing (fs.walk maxLinks false (p.start fs.cwd) p.comps.dropLast)

/-- The entry that the last component of a path names, whether or not it is a link. -/
def entryOf (fs : FileSystem) (p : TreePath) : Option Location :=
  match p.comps.getLast?, fs.walk maxLinks false (p.start fs.cwd) p.comps.dropLast with
  | some (.normal name), .existing d _ => some (d ++ [name])
  | _, _ => none

theorem node_put {n : Node} (h : fs.writable loc = true) (l : Location) :
    (fs.put loc n).node l = if l = loc then some n else fs.node l := by
  rw [put,dif_pos h]
  by_cases hl : l = loc
  · subst hl
    simp [node]
  · simp [node,hl]

theorem node_write (h : fs.writable loc = true) (l : Location) :
    (fs.write loc content).node l = if l = loc then some (.file content) else fs.node l :=
  node_put h l

theorem cwd_write (fs : FileSystem) (loc : Location) (content : List UInt8) :
    (fs.write loc content).cwd = fs.cwd := by
  unfold write put
  split <;> rfl

theorem node_makeDirs {dirs : List Location} (h : (dirs.foldl makeDir fs).node l ≠ fs.node l) :
    l ∈ dirs := by
  induction dirs generalizing fs with
  | nil => exact absurd rfl h
  | cons loc dirs ih =>
    rw [List.foldl_cons] at h
    by_cases heq : l = loc
    · rw [heq]
      exact List.mem_cons_self
    · have hsame : (fs.makeDir loc).node l = fs.node l := by
        unfold makeDir
        split
        · by_cases hw : fs.writable loc = true
          · rw [node_put hw,if_neg heq]
          · rw [put,dif_neg hw]
        · rfl
      rw [← hsame] at h
      exact List.mem_cons_of_mem _ (ih h)

theorem node_remove (h : fs.node loc ≠ some .dir) (l : Location) :
    (fs.remove loc).node l = if l = loc then none else fs.node l := by
  rw [remove,dif_pos h]
  by_cases hl : l = loc
  · subst hl
    simp [node]
  · simp [node,hl]

section Directories

theorem mkdir_node (h : fs.mkdir p = .ok (fs',loc)) :
    fs.node loc = none ∧ fs'.cwd = fs.cwd ∧
      ∀ l, fs'.node l = if l = loc then some .dir else fs.node l := by
  unfold mkdir at h
  split at h
  · cases h
  · split at h
    · cases h
    · unfold mkdirAt at h
      split at h
      · cases h
      · cases h
      · split at h
        · rename_i hdir
          split at h
          · cases h
          · split at h
            · rename_i hfree
              cases h
              exact ⟨hfree,rfl,node_add hdir hfree⟩
            · cases h
        · cases h

/-- Only directories have been added, where nothing was. -/
structure Adds (fs : FileSystem) (m : Made) : Prop where
  free : ∀ l ∈ m.dirs, fs.node l = none
  cwd : m.fs.cwd = fs.cwd
  node : ∀ l, m.fs.node l = if l ∈ m.dirs then some .dir else fs.node l

theorem adds_nil (fs : FileSystem) (r : Except IoError Unit) : Adds fs ⟨fs,[],r⟩ :=
  ⟨by simp,rfl,by simp⟩

theorem makeLast_adds {m : Made} (hm : Adds fs m) (p : TreePath) : Adds fs (makeLast m p) := by
  unfold makeLast
  split
  · exact ⟨hm.free,hm.cwd,hm.node⟩
  · split
    · rename_i fs' loc hmk
      obtain ⟨hfree,hcwd,hnode⟩ := mkdir_node hmk
      have hout : loc ∉ m.dirs := by
        intro hmem
        rw [hm.node,if_pos hmem] at hfree
        cases hfree
      rw [hm.node,if_neg hout] at hfree
      refine ⟨fun l hl => ?_,hcwd.trans hm.cwd,fun l => ?_⟩
      · rcases List.mem_append.mp hl with hold | hlast
        · exact hm.free l hold
        · rw [List.mem_singleton.mp hlast]
          exact hfree
      · rw [hnode,hm.node]
        by_cases heq : l = loc
        · simp [heq]
        · simp [heq]
    · exact ⟨hm.free,hm.cwd,hm.node⟩

theorem createDirAll_adds (fs : FileSystem) (p : TreePath) : Adds fs (fs.createDirAll p) := by
  have hall : ∀ comps, Adds fs (fs.makeAll p.anchor comps) := by
    intro comps
    induction comps with
    | nil => exact adds_nil fs _
    | cons c comps ih =>
      rw [makeAll]
      split
      · rename_i fs' loc hmk
        obtain ⟨hfree,hcwd,hnode⟩ := mkdir_node hmk
        exact ⟨by simpa using hfree,hcwd,by simpa using hnode⟩
      · exact makeLast_adds ih _
      · exact adds_nil fs _
  exact hall _

end Directories

section Walk

/-- Where a resolution can end: at a directory, at a file, or at a free name in a directory. -/
def Ends (fs : FileSystem) (trailing : Bool) : Resolved → Prop
  | .existing loc _ => fs.node loc = some .dir ∨
      (trailing = false ∧ fs.writable loc = true ∧ ∃ content, fs.node loc = some (.file content))
  | .absent loc => trailing = false ∧ fs.writable loc = true ∧ fs.node loc = none
  | .failed _ => True

theorem Ends.of_or {also : Bool} {r : Resolved} (h : Ends fs (trailing || also) r) :
    Ends fs trailing r := by
  cases r with
  | existing loc left =>
    rcases h with hdir | ⟨hor,hfile⟩
    · exact .inl hdir
    · exact .inr ⟨(Bool.or_eq_false_iff.mp hor).1,hfile⟩
  | absent loc => exact ⟨(Bool.or_eq_false_iff.mp h.1).1,h.2⟩
  | failed e => trivial

theorem ends_walk (hcur : fs.node cur = some .dir) (comps : List Component) :
    Ends fs trailing (fs.walk links trailing cur comps) := by
  induction links using Nat.strong_induction_on generalizing cur trailing comps with
  | _ links ihl =>
    induction comps generalizing cur with
    | nil =>
      rw [walk_nil]
      exact .inl hcur
    | cons c comps ih =>
      cases c with
      | parentDir =>
        rw [walk_parentDir]
        exact ih (node_dropLast hcur)
      | normal name =>
        have hwritable : fs.node (cur ++ [name]) ≠ some .dir → fs.writable (cur ++ [name]) = true := by
          intro hne
          exact writable_iff.mpr ⟨by simp,by rwa [List.dropLast_concat],hne⟩
        rw [walk_normal]
        cases hn : fs.node (cur ++ [name]) with
        | none =>
          simp only
          split
          · rename_i hlast
            exact ⟨hlast.2,hwritable (by simp [hn]),hn⟩
          · trivial
        | some n =>
          cases n with
          | dir => exact ih hn
          | file content =>
            simp only
            split
            · rename_i hlast
              exact .inr ⟨hlast.2,hwritable (by simp [hn]),content,hn⟩
            · trivial
          | link target =>
            cases links with
            | zero => trivial
            | succ links =>
              simp only [follow]
              split
              · trivial
              · exact (ihl links (Nat.lt_succ_self _) (node_start hcur target) _).of_or

theorem ends_resolve (fs : FileSystem) (p : TreePath) : Ends fs p.trailing (fs.resolve p) := by
  unfold resolve
  split
  · trivial
  · split
    · trivial
    · exact ends_walk (start_dir fs p) p.comps

end Walk

/-- Where a file has been opened for writing: at the entry that its path names, or where a link
at that entry leads. -/
structure Target (fs : FileSystem) (p : TreePath) (loc : Location) : Prop where
  hasNul : p.hasNul = false
  trailing : p.trailing = false
  writable : fs.writable loc = true
  content : fs.node loc = none ∨ ∃ content, fs.node loc = some (.file content)
  entry : ∃ init name d links, p.comps = init ++ [.normal name] ∧
    fs.walk maxLinks false (p.start fs.cwd) init = .existing d links ∧ fs.node d = some .dir ∧
    (loc = d ++ [name] ∨ ∃ target, fs.node (d ++ [name]) = some (.link target))

/-- A file, or a name where one can be created. -/
def Leads (loc : Location) (r : Resolved) : Prop := (∃ left, r = .existing loc left) ∨ r = .absent loc

theorem not_leads_failed {e : IoError} : ¬ Leads loc (.failed e) := by
  rintro (⟨left,h⟩ | h) <;> cases h

theorem entry_of_walk (hfile : fs.node loc ≠ some .dir) (hcur : fs.node cur = some .dir)
    {comps : List Component} (h : Leads loc (fs.walk links false cur comps)) :
    ∃ init name d left, comps = init ++ [.normal name] ∧
      fs.walk links false cur init = .existing d left ∧ fs.node d = some .dir ∧
      (loc = d ++ [name] ∨ ∃ target, fs.node (d ++ [name]) = some (.link target)) := by
  have hdir : ∀ {d left}, fs.node d = some .dir → ¬ Leads loc (.existing d left) := by
    rintro d left hd (⟨_,heq⟩ | heq) <;> cases heq
    exact hfile hd
  rcases List.eq_nil_or_concat' comps with rfl | ⟨init,last,rfl⟩
  · rw [walk_nil] at h
    exact absurd h (hdir hcur)
  rw [walk_append hcur false init (List.cons_ne_nil last [])] at h
  cases hinit : fs.walk links false cur init with
  | absent d =>
    rw [hinit] at h
    exact absurd h not_leads_failed
  | failed e =>
    rw [hinit] at h
    exact absurd h not_leads_failed
  | existing d left =>
    rw [hinit,Resolved.andThen] at h
    split at h
    · rename_i hd
      cases last with
      | parentDir =>
        rw [walk_parentDir,walk_nil] at h
        exact absurd h (hdir (node_dropLast hd))
      | normal name =>
        refine ⟨init,name,d,left,rfl,hinit,hd,?_⟩
        rw [walk_normal] at h
        cases hnode : fs.node (d ++ [name]) with
        | none =>
          rw [hnode] at h
          rcases h with ⟨_,heq⟩ | heq <;> cases heq
          exact .inl rfl
        | some n =>
          rw [hnode] at h
          cases n with
          | dir =>
            rw [walk_nil] at h
            exact absurd h (hdir hnode)
          | file content =>
            rcases h with ⟨_,heq⟩ | heq <;> cases heq
            exact .inl rfl
          | link target => exact .inr ⟨target,rfl⟩
    · exact absurd h not_leads_failed

theorem leads_of_createFile (h : fs.createFile p = .ok loc) :
    Leads loc (fs.resolve p) ∧ fs.node loc ≠ some .dir := by
  unfold createFile at h
  split at h
  · rename_i left hr
    split at h
    · cases h
    · rename_i hdir
      cases h
      exact ⟨.inl ⟨left,hr⟩,hdir⟩
  · rename_i hr
    cases h
    have hends := ends_resolve fs p
    rw [hr] at hends
    exact ⟨.inr hr,by simp [hends.2.2]⟩
  · cases h

theorem target_of_createFile (h : fs.createFile p = .ok loc) : Target fs p loc := by
  obtain ⟨hleads,hfile⟩ := leads_of_createFile h
  have hn : p.hasNul = false := by
    by_contra hnul
    rw [resolve,if_pos (by simpa using hnul)] at hleads
    exact not_leads_failed hleads
  have hwalk : Leads loc (fs.walk maxLinks p.trailing (p.start fs.cwd) p.comps) := by
    unfold resolve at hleads
    rw [hn] at hleads
    simp only [Bool.false_eq_true,if_false] at hleads
    split at hleads
    · exact absurd hleads not_leads_failed
    · exact hleads
  obtain ⟨htrailing,hwritable,hcontent⟩ : p.trailing = false ∧ fs.writable loc = true ∧
      (fs.node loc = none ∨ ∃ content, fs.node loc = some (.file content)) := by
    have hends := ends_resolve fs p
    rcases hleads with ⟨left,hr⟩ | hr
    · rw [hr] at hends
      rcases hends with hdir | ⟨ht,hw,hc⟩
      · exact absurd hdir hfile
      · exact ⟨ht,hw,.inr hc⟩
    · rw [hr] at hends
      exact ⟨hends.1,hends.2.1,.inl hends.2.2⟩
  rw [htrailing] at hwalk
  exact ⟨hn,htrailing,hwritable,hcontent,entry_of_walk hfile (start_dir fs p) hwalk⟩

section Opened

/-- The tree with the file at `loc` open, `content` being what it holds. -/
def Opened (fs fs' : FileSystem) (loc : Location) (content : List UInt8) : Prop :=
  fs'.cwd = fs.cwd ∧ ∀ l, fs'.node l = if l = loc then some (.file content) else fs.node l

theorem opened_write (h : Target fs p loc) (content : List UInt8) :
    Opened fs (fs.write loc content) loc content :=
  ⟨cwd_write fs loc content,node_write h.writable⟩

theorem Opened.writable (h : Opened fs fs' loc content) (hw : fs.writable loc = true) :
    fs'.writable loc = true := by
  obtain ⟨hne,hdir,-⟩ := writable_iff.mp hw
  refine writable_iff.mpr ⟨hne,?_,by simp [h.2]⟩
  rw [h.2,if_neg,hdir]
  intro heq
  have hlen := congrArg List.length heq
  rw [List.length_dropLast] at hlen
  have := List.length_pos_iff.mpr hne
  omega

theorem Opened.rewrite (h : Opened fs fs' loc content) (hw : fs.writable loc = true)
    (content' : List UInt8) : Opened fs (fs'.write loc content') loc content' := by
  refine ⟨(cwd_write fs' loc content').trans h.1,fun l => ?_⟩
  rw [node_write (h.writable hw),h.2]
  split <;> rfl

theorem Opened.keeps (h : Opened fs fs' loc content) (ht : Target fs p loc) : Keeps fs fs' := by
  intro l n hn
  rw [h.2]
  split
  · rename_i heq
    subst heq
    rcases ht.content with hnone | ⟨old,hfile⟩
    · cases hnone.symm.trans hn
    · cases hfile.symm.trans hn
      exact .inr ⟨old,content,rfl,rfl⟩
  · exact .inl hn

/-- The removal of an open file takes away the entry of its path, and nothing else. -/
theorem Opened.removeFile (h : Opened fs fs' loc content) (ht : Target fs p loc) :
    ∃ fs'' entry, fs'.removeFile p = .ok fs'' ∧ fs.entryOf p = some entry ∧
      (entry = loc ∨ ∃ target, fs.node entry = some (.link target)) ∧
      ∀ l, fs''.node l = if l = entry then none else fs'.node l := by
  obtain ⟨init,name,d,left,hcomps,hwalk,hdir,hentry⟩ := ht.entry
  have hwalk' : fs'.walk maxLinks false (p.start fs'.cwd) init = .existing d left := by
    rw [h.1]
    exact walk_keeps (h.keeps ht) hwalk
  have hdir' : fs'.node d = some .dir := by
    rcases h.keeps ht d _ hdir with hsame | ⟨_,_,hfile,-⟩
    · exact hsame
    · cases hfile
  have hthere : ∃ n, fs'.node (d ++ [name]) = some n ∧ n ≠ .dir := by
    rw [h.2]
    rcases hentry with rfl | ⟨target,hlink⟩
    · exact ⟨_,if_pos rfl,by simp⟩
    · by_cases heq : d ++ [name] = loc
      · exact ⟨_,if_pos heq,by simp⟩
      · exact ⟨_,by rw [if_neg heq,hlink],by simp⟩
  obtain ⟨n,hn,hne⟩ := hthere
  have hremove : fs'.removeFile p = .ok (fs'.remove (d ++ [name])) := by
    simp only [FileSystem.removeFile,ht.hasNul,hcomps,List.getLast?_concat,List.dropLast_concat,
      hwalk',removeAt,hdir',hn,ht.trailing]
    cases n with
    | dir => exact absurd rfl hne
    | _ => rfl
  refine ⟨_,d ++ [name],hremove,?_,?_,?_⟩
  · simp only [entryOf,hcomps,List.getLast?_concat,List.dropLast_concat,hwalk]
  · rcases hentry with rfl | hlink
    · exact .inl rfl
    · exact .inr hlink
  · refine node_remove ?_
    rw [hn]
    simpa using hne

end Opened

end FileSystem
