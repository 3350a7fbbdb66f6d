import Mathlib.Data.List.AList
import Mathlib.Tactic

/-! Finite trees of directories, files and symbolic links, and the resolution of paths
in them: relative to a current directory, through links, with a bound on the number of
links followed. A location is a resolved path; a path is what a program passes to the
operating system. -/

abbrev Location := List String

inductive Component
  | parentDir
  | normal (name : String)
  deriving DecidableEq

/-- How a path begins: with a slash, with a `.` component, or with neither. -/
inductive Anchor
  | root | dot | here
  deriving DecidableEq

/-- `trailing` paths end in a slash or in a `.` component, so they name directories only. -/
structure TreePath where
  anchor : Anchor
  comps : List Component
  trailing : Bool
  deriving DecidableEq

namespace TreePath

def isEmpty (p : TreePath) : Bool := p.anchor = .here ∧ p.comps = []

def hasNul (p : TreePath) : Bool :=
  p.comps.any fun
    | .normal name => name.toList.contains (Char.ofNat 0)
    | .parentDir => false

def start (p : TreePath) (cur : Location) : Location := if p.anchor = .root then [] else cur

def parent (p : TreePath) : Option TreePath :=
  match p.comps with
  | [] => if p.anchor = .dot then some ⟨.here,[],false⟩ else none
  | comps => some ⟨p.anchor,comps.dropLast,false⟩

/-- The components of a path text: repeated slashes and inner `.` components do not count. -/
def parse (text : List Char) : TreePath :=
  let pieces := text.splitOn '/'
  { anchor :=
      if text.head? = some '/' then .root
      else if pieces.head? = some ['.'] then .dot
      else .here
    comps := pieces.filterMap fun piece =>
      if piece = [] ∨ piece = ['.'] then none
      else if piece = ['.', '.'] then some .parentDir
      else some (.normal (String.ofList piece))
    trailing := decide (1 < pieces.length) &&
      decide (pieces.getLast? = some [] ∨ pieces.getLast? = some ['.']) }

/-- The text of a path joined to a base; an absolute path replaces the base. -/
def join (base text : List Char) : List Char :=
  if text.head? = some '/' then text
  else if base = [] ∨ base.getLast? = some '/' then base ++ text
  else base ++ '/' :: text

end TreePath

inductive Node
  | dir
  | file (content : List UInt8)
  | link (target : TreePath)
  deriving DecidableEq

structure FileSystem where
  nodes : AList fun _ : Location => Node
  cwd : Location
  root_dir : nodes.lookup [] = some .dir
  parent_dir : ∀ loc name n, nodes.lookup (loc ++ [name]) = some n → nodes.lookup loc = some .dir
  cwd_dir : nodes.lookup cwd = some .dir

inductive IoError
  | notFound | notADirectory | isADirectory | alreadyExists | filesystemLoop | invalidInput
  deriving DecidableEq

/-- `existing` keeps the number of links that may still be followed; `absent` is a free
name in an existing directory. -/
inductive Resolved
  | existing (loc : Location) (links : ℕ)
  | absent (loc : Location)
  | failed (e : IoError)
  deriving DecidableEq

namespace FileSystem

def maxLinks : ℕ := 40

def node (fs : FileSystem) (loc : Location) : Option Node := fs.nodes.lookup loc

/-- One pass over the components, up to the first link, which is left to `follow`. -/
def walkComps (fs : FileSystem) (follow : Location → TreePath → List Component → Resolved)
    (links : ℕ) (trailing : Bool) : Location → List Component → Resolved
  | cur, [] => .existing cur links
  | cur, .parentDir :: rest => walkComps fs follow links trailing cur.dropLast rest
  | cur, .normal name :: rest =>
    match fs.node (cur ++ [name]) with
    | none => if rest = [] ∧ trailing = false then .absent (cur ++ [name]) else .failed .notFound
    | some .dir => walkComps fs follow links trailing (cur ++ [name]) rest
    | some (.file _) =>
      if rest = [] ∧ trailing = false then .existing (cur ++ [name]) links
      else .failed .notADirectory
    | some (.link target) => follow cur target rest

/-- Resolve the components from directory `cur`, following at most `links` links. -/
def walk (fs : FileSystem) : ℕ → Bool → Location → List Component → Resolved
  | 0, trailing => walkComps fs (fun _ _ _ => .failed .filesystemLoop) 0 trailing
  | links + 1, trailing => walkComps fs (fun cur target rest =>
      if target.isEmpty then .failed .notFound
      else walk fs links (trailing || (rest.isEmpty && target.trailing)) (target.start cur)
        (target.comps ++ rest)) (links + 1) trailing

def resolve (fs : FileSystem) (p : TreePath) : Resolved :=
  if p.hasNul then .failed .invalidInput
  else if p.isEmpty then .failed .notFound
  else fs.walk maxLinks p.trailing (p.start fs.cwd) p.comps

def canonicalize (fs : FileSystem) (p : TreePath) : Except IoError Location :=
  match fs.resolve p with
  | .existing loc _ => .ok loc
  | .absent _ => .error .notFound
  | .failed e => .error e

def pathExists (fs : FileSystem) (p : TreePath) : Bool := (fs.canonicalize p).isOk

/-- The first of these reversed components' paths that exists, popping one at a time. -/
def popToExisting (fs : FileSystem) (anchor : Anchor) : List Component → Option TreePath
  | [] => if fs.pathExists ⟨anchor,[],false⟩ then some ⟨anchor,[],false⟩ else none
  | c :: cs =>
    if fs.pathExists ⟨anchor,(c :: cs).reverse,false⟩ then some ⟨anchor,(c :: cs).reverse,false⟩
    else popToExisting fs anchor cs

def existingPrefix (fs : FileSystem) (p : TreePath) : Option TreePath :=
  if fs.pathExists p then some p
  else p.parent.bind fun q => fs.popToExisting q.anchor q.comps.reverse

def isDir (fs : FileSystem) (p : TreePath) : Bool :=
  match fs.canonicalize p with
  | .ok loc => fs.node loc = some .dir
  | .error _ => false

def bare : FileSystem where
  nodes := AList.singleton [] .dir
  cwd := []
  root_dir := rfl
  parent_dir loc name n h := by
    rw [AList.lookup_eq_none.mpr] at h
    · cases h
    · simp [AList.mem_keys]
  cwd_dir := rfl

def add (fs : FileSystem) (loc : Location) (name : String) (n : Node)
    (hdir : fs.node loc = some .dir) (hfree : fs.node (loc ++ [name]) = none) : FileSystem where
  nodes := fs.nodes.insert (loc ++ [name]) n
  cwd := fs.cwd
  root_dir := by
    rw [AList.lookup_insert_ne (by simp)]
    exact fs.root_dir
  parent_dir loc' name' n' h := by
    have hkeep : ∀ l, fs.nodes.lookup l = some .dir →
        (fs.nodes.insert (loc ++ [name]) n).lookup l = some .dir := by
      intro l hl
      rw [AList.lookup_insert_ne]
      · exact hl
      · rintro rfl
        cases hfree.symm.trans hl
    by_cases heq : loc' ++ [name'] = loc ++ [name]
    · obtain ⟨rfl,-⟩ := List.append_inj' heq rfl
      exact hkeep loc' hdir
    · rw [AList.lookup_insert_ne heq] at h
      exact hkeep loc' (fs.parent_dir loc' name' n' h)
  cwd_dir := by
    rw [AList.lookup_insert_ne]
    · exact fs.cwd_dir
    · intro h
      have hcwd := fs.cwd_dir
      rw [h] at hcwd
      cases hfree.symm.trans hcwd

def mkdirAt (fs : FileSystem) (last : Component) : Resolved → Except IoError (FileSystem × Location)
  | .absent _ => .error .notFound
  | .failed e => .error e
  | .existing loc _ =>
    if hdir : fs.node loc = some .dir then match last with
      | .parentDir => .error .alreadyExists
      | .normal name =>
        if hfree : fs.node (loc ++ [name]) = none then
          .ok (fs.add loc name .dir hdir hfree,loc ++ [name])
        else .error .alreadyExists
    else .error .notADirectory

/-- Create one directory; a final link is not followed. -/
def mkdir (fs : FileSystem) (p : TreePath) : Except IoError (FileSystem × Location) :=
  if p.hasNul then .error .invalidInput
  else match p.comps.getLast? with
  | none => .error (if p.anchor = .here then .notFound else .alreadyExists)
  | some last => fs.mkdirAt last (fs.walk maxLinks false (p.start fs.cwd) p.comps.dropLast)

/-- What an operation that makes several directories leaves behind, in success and in failure. -/
structure Made where
  fs : FileSystem
  dirs : List Location
  result : Except IoError Unit

/-- The tail of the recursion: `p` itself, its ancestors being there. -/
def makeLast (m : Made) (p : TreePath) : Made :=
  match m.result with
  | .error e => ⟨m.fs,m.dirs,.error e⟩
  | .ok () => match m.fs.mkdir p with
    | .ok (fs,loc) => ⟨fs,m.dirs ++ [loc],.ok ()⟩
    | .error e => ⟨m.fs,m.dirs,if m.fs.isDir p then .ok () else .error e⟩

/-- Create the directory with these reversed components and all its ancestors. -/
def makeAll (fs : FileSystem) (anchor : Anchor) : List Component → Made
  | [] => ⟨fs,[],.ok ()⟩
  | c :: cs =>
    let p : TreePath := ⟨anchor,(c :: cs).reverse,false⟩
    match fs.mkdir p with
    | .ok (fs',loc) => ⟨fs',[loc],.ok ()⟩
    | .error .notFound => makeLast (makeAll fs anchor cs) p
    | .error e => ⟨fs,[],if fs.isDir p then .ok () else .error e⟩

def createDirAll (fs : FileSystem) (p : TreePath) : Made := fs.makeAll p.anchor p.comps.reverse

/-- Open for writing, creating or truncating; a final link is followed. -/
def createFile (fs : FileSystem) (p : TreePath) : Except IoError Location :=
  match fs.resolve p with
  | .existing loc _ => if fs.node loc = some .dir then .error .isADirectory else .ok loc
  | .absent loc => .ok loc
  | .failed e => .error e

/-- What happens at a link with `links` links left. -/
def follow (fs : FileSystem) (links : ℕ) (trailing : Bool) (cur : Location) (target : TreePath)
    (rest : List Component) : Resolved :=
  match links with
  | 0 => .failed .filesystemLoop
  | links + 1 =>
    if target.isEmpty then .failed .notFound
    else fs.walk links (trailing || (rest.isEmpty && target.trailing)) (target.start cur)
      (target.comps ++ rest)

variable {fs : FileSystem} {links : ℕ} {trailing : Bool} {cur loc : Location}

@[simp] theorem walk_nil (fs : FileSystem) (links : ℕ) (trailing : Bool) (cur : Location) :
    fs.walk links trailing cur [] = .existing cur links := by
  cases links <;> rfl

@[simp] theorem walk_parentDir (fs : FileSystem) (links : ℕ) (trailing : Bool) (cur : Location)
    (rest : List Component) : fs.walk links trailing cur (.parentDir :: rest) =
      fs.walk links trailing cur.dropLast rest := by
  cases links <;> rfl

theorem walk_normal (fs : FileSystem) (links : ℕ) (trailing : Bool) (cur : Location)
    (name : String) (rest : List Component) :
    fs.walk links trailing cur (.normal name :: rest) = match fs.node (cur ++ [name]) with
      | none => if rest = [] ∧ trailing = false then .absent (cur ++ [name]) else .failed .notFound
      | some .dir => fs.walk links trailing (cur ++ [name]) rest
      | some (.file _) =>
        if rest = [] ∧ trailing = false then .existing (cur ++ [name]) links
        else .failed .notADirectory
      | some (.link target) => fs.follow links trailing cur target rest := by
  cases links <;> rfl

theorem node_dropLast (h : fs.node cur = some .dir) : fs.node cur.dropLast = some .dir := by
  rcases List.eq_nil_or_concat' cur with rfl | ⟨d,name,rfl⟩
  · exact h
  · rw [List.dropLast_concat]
    exact fs.parent_dir d name _ h

theorem node_start (h : fs.node cur = some .dir) (p : TreePath) :
    fs.node (p.start cur) = some .dir := by
  unfold TreePath.start
  split
  · exact fs.root_dir
  · exact h

theorem node_below (h : fs.node loc = none) (names : List String) : fs.node (loc ++ names) = none := by
  induction names using List.reverseRecOn with
  | nil => simpa using h
  | append_singleton names name ih =>
    cases hn : fs.node (loc ++ names ++ [name]) with
    | none => rwa [← List.append_assoc]
    | some n => cases ih.symm.trans (fs.parent_dir _ name n hn)

theorem node_above {names : List String} {n : Node} (h : fs.node (loc ++ names) = some n)
    (hne : names ≠ []) : fs.node loc = some .dir := by
  induction names using List.reverseRecOn generalizing n with
  | nil => exact absurd rfl hne
  | append_singleton names name ih =>
    rw [← List.append_assoc] at h
    have hparent : fs.node (loc ++ names) = some .dir := fs.parent_dir _ name n h
    by_cases hnil : names = []
    · rwa [hnil,List.append_nil] at hparent
    · exact ih hparent hnil

/-- The continuation of a resolution in the directory reached so far. -/
def Resolved.andThen (fs : FileSystem) (r : Resolved) (k : ℕ → Location → Resolved) : Resolved :=
  match r with
  | .existing loc links =>
    if fs.node loc = some .dir then k links loc else .failed .notADirectory
  | .absent _ => .failed .notFound
  | .failed e => .failed e

/-- A path is resolved by resolving a first part of it and going on from there. -/
theorem walk_append (hcur : fs.node cur = some .dir) (first : Bool) (a : List Component)
    {b : List Component} (hb : b ≠ []) :
    fs.walk links trailing cur (a ++ b) =
      Resolved.andThen fs (fs.walk links first cur a) fun links loc =>
        fs.walk links trailing loc b := by
  induction links using Nat.strong_induction_on generalizing cur first trailing a with
  | _ links ihl =>
    induction a generalizing cur with
    | nil => simp [Resolved.andThen,hcur]
    | cons c a ih =>
      cases c with
      | parentDir =>
        rw [List.cons_append,walk_parentDir,walk_parentDir]
        exact ih (node_dropLast hcur)
      | normal name =>
        rw [List.cons_append,walk_normal,walk_normal]
        have hab : a ++ b ≠ [] := by simp [hb]
        cases hn : fs.node (cur ++ [name]) with
        | none =>
          simp only [hab,false_and,if_false]
          split <;> rfl
        | some n =>
          cases n with
          | dir => exact ih hn
          | file content =>
            simp only [hab,false_and,if_false]
            split
            · simp [Resolved.andThen,hn]
            · rfl
          | link target =>
            cases links with
            | zero => rfl
            | succ links =>
              simp only [follow]
              split
              · rfl
              · have hrest : (a ++ b).isEmpty = false := by simpa using fun _ => hb
                rw [hrest,Bool.false_and,Bool.or_false,← List.append_assoc]
                exact ihl links (Nat.lt_succ_self _) (node_start hcur target) _ _

/-- What is there in `fs` is there in `fs'`, files with another content perhaps. -/
def Keeps (fs fs' : FileSystem) : Prop :=
  ∀ l n, fs.node l = some n → fs'.node l = some n ∨
    ∃ content content', n = .file content ∧ fs'.node l = some (.file content')

/-- Neither more entries nor other contents disturb a resolution that succeeds. -/
theorem walk_keeps (hkeep : Keeps fs fs') {comps : List Component} {left : ℕ}
    (h : fs.walk links trailing cur comps = .existing loc left) :
    fs'.walk links trailing cur comps = .existing loc left := by
  induction links using Nat.strong_induction_on generalizing cur trailing comps with
  | _ links ihl =>
    induction comps generalizing cur with
    | nil => simpa using h
    | cons c comps ih =>
      cases c with
      | parentDir =>
        rw [walk_parentDir] at h ⊢
        exact ih h
      | normal name =>
        rw [walk_normal] at h ⊢
        cases hn : fs.node (cur ++ [name]) with
        | none =>
          rw [hn] at h
          simp only at h
          split at h <;> cases h
        | some n =>
          rw [hn] at h
          rcases hkeep _ n hn with hsame | ⟨content,content',rfl,hfile⟩
          · rw [hsame]
            cases n with
            | dir => exact ih h
            | file content => exact h
            | link target =>
              cases links with
              | zero => cases h
              | succ links =>
                simp only [follow] at h ⊢
                split at h
                · cases h
                · rename_i hempty
                  rw [if_neg hempty]
                  exact ihl links (Nat.lt_succ_self _) h
          · rw [hfile]
            exact h

/-- Something there that is not a link. -/
def isEntry (fs : FileSystem) (loc : Location) : Bool :=
  match fs.node loc with
  | some .dir => true
  | some (.file _) => true
  | _ => false

theorem isEntry_of_dir (h : fs.node loc = some .dir) : fs.isEntry loc = true := by
  simp [isEntry,h]

theorem node_of_isEntry (h : fs.isEntry loc = true) :
    fs.node loc = some .dir ∨ ∃ content, fs.node loc = some (.file content) := by
  unfold isEntry at h
  split at h
  · exact .inl (by assumption)
  · rename_i content hn
    exact .inr ⟨content,hn⟩
  · cases h

theorem exists_node_of_isEntry (h : fs.isEntry loc = true) : ∃ n, fs.node loc = some n := by
  obtain hn | ⟨content,hn⟩ := node_of_isEntry h
  · exact ⟨.dir,hn⟩
  · exact ⟨.file content,hn⟩

theorem isEntry_of_prefix {above : Location} (h : fs.isEntry loc = true) (habove : above <+: loc) :
    fs.isEntry above = true := by
  obtain ⟨names,rfl⟩ := habove
  by_cases hnil : names = []
  · rwa [hnil,List.append_nil] at h
  · obtain ⟨n,hn⟩ := exists_node_of_isEntry h
    exact isEntry_of_dir (node_above hn hnil)

theorem isEntry_of_walk {comps : List Component} {left : ℕ} (hcur : fs.node cur = some .dir)
    (h : fs.walk links trailing cur comps = .existing loc left) : fs.isEntry loc = true := by
  induction links using Nat.strong_induction_on generalizing cur trailing comps with
  | _ links ihl =>
    induction comps generalizing cur with
    | nil =>
      rw [walk_nil] at h
      cases h
      exact isEntry_of_dir hcur
    | cons c comps ih =>
      cases c with
      | parentDir =>
        rw [walk_parentDir] at h
        exact ih (node_dropLast hcur) h
      | normal name =>
        rw [walk_normal] at h
        cases hn : fs.node (cur ++ [name]) with
        | none =>
          simp only [hn] at h
          split at h <;> cases h
        | some n =>
          rw [hn] at h
          cases n with
          | dir => exact ih hn h
          | file content =>
            simp only at h
            split at h
            · cases h
              simp [isEntry,hn]
            · cases h
          | link target =>
            cases links with
            | zero => cases h
            | succ links =>
              simp only [follow] at h
              split at h
              · cases h
              · exact ihl links (Nat.lt_succ_self _) (node_start hcur target) h

/-- The names of an entry lead to it, no link being met. -/
theorem walk_names {names : List String} (h : fs.isEntry (cur ++ names) = true) :
    fs.walk links false cur (names.map .normal) = .existing (cur ++ names) links := by
  induction names generalizing cur with
  | nil => simp
  | cons name names ih =>
    rw [List.append_cons] at h ⊢
    rw [List.map_cons,walk_normal]
    by_cases hnil : names = []
    · subst hnil
      rw [List.append_nil] at h ⊢
      obtain hn | ⟨content,hn⟩ := node_of_isEntry h
      · simp [hn]
      · simp [hn]
    · obtain ⟨n,hn⟩ := exists_node_of_isEntry h
      simp only [node_above hn hnil]
      exact ih h

def absolute (loc : Location) : TreePath := ⟨.root,loc.map .normal,false⟩

theorem isEntry_of_canonicalize {p : TreePath} (h : fs.canonicalize p = .ok loc) :
    fs.isEntry loc = true := by
  unfold canonicalize at h
  split at h
  · rename_i links hr
    cases h
    unfold resolve at hr
    split at hr
    · cases hr
    · split at hr
      · cases hr
      · exact isEntry_of_walk (node_start fs.cwd_dir p) hr
  · cases h
  · cases h

theorem canonicalize_absolute (hloc : fs.isEntry loc = true) {found : Location}
    (h : fs.canonicalize (absolute loc) = .ok found) : found = loc := by
  have hwalk : fs.walk maxLinks false [] (loc.map .normal) = .existing ([] ++ loc) maxLinks :=
    walk_names hloc
  unfold canonicalize resolve at h
  split at h
  · rename_i l links hr
    cases h
    split at hr
    · cases hr
    · split at hr
      · cases hr
      · have heq := hwalk.symm.trans hr
        cases heq
        rfl
  · cases h
  · cases h

end FileSystem
