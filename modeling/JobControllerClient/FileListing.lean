import JobControllerClient.Foundation.TreeWalk
import JobControllerClient.Messaging
import JobControllerClient.UploadPath

/-! The file listing of `handle_file_list`, on a file system that does not change meanwhile:
the checks of the path, the two traversals and the reply. -/
namespace JobControllerClient
namespace FileListing

open FileSystem Messaging
open UploadPath (validatePathIsWithin popToExisting_spec)

inductive JobLookupError
  | notSubmitted
  | notFound
  | database (e : String)

def JobLookupError.clientMessage : JobLookupError → String
  | .notSubmitted => "Job is not submitted"
  | .notFound => "Job does not exist"
  | .database e => s!"Database error: {e}"

structure Entry where
  path : String
  isDir : Bool
  size : ℕ
  deriving DecidableEq

inductive Reply
  | fileListError (msg : String)
  | fileList (files : List Entry)
  deriving DecidableEq

def capFileCount (len : ℕ) : UInt32 := if len < 2^32 then UInt32.ofNat len else UInt32.ofNat (2^32 - 1)

def sent (files : List Entry) : List Entry := files.take (capFileCount files.length).toNat

def pushEntry (m : Message) (e : Entry) : Message :=
  ((m.pushString e.path).pushBool e.isDir).pushUlong (UInt64.ofNat e.size)

def Reply.message (uuid : String) : Reply → Message
  | .fileListError msg =>
    ((Message.new MessageId.fileListError .highest uuid).pushString uuid).pushString msg
  | .fileList files => (sent files).foldl pushEntry
    (((Message.new MessageId.fileList .highest uuid).pushString uuid).pushUint
      (capFileCount files.length))

/-- `strip_prefix`, with the whole path where it does not apply. -/
def relativePath (working path : Location) : String :=
  if working <+: path then "/".intercalate (path.drop working.length)
  else "/" ++ "/".intercalate path

/-- The working directory joined with the requested path, whose leading slashes are trimmed. -/
def listPath (working : Location) (dirPath : String) : TreePath :=
  let p := TreePath.parse (dirPath.toList.dropWhile (· = '/'))
  ⟨.root,working.map .normal ++ p.comps,p.trailing || p.comps.isEmpty⟩

/-- The checks before the traversal: the canonical working directory and the directory to list. -/
def listTarget (fs : FileSystem) (lookup : Except JobLookupError String) (dirPath : String) :
    Except String (Location × Location) :=
  match lookup with
  | .error e => .error e.clientMessage
  | .ok workingDirectory => match fs.canonicalize (.parse workingDirectory.toList) with
    | .error _ => .error "Path to list files does not exist"
    | .ok working => match fs.canonicalize (listPath working dirPath) with
      | .error _ => .error "Path to list files does not exist"
      | .ok absPath =>
        if !validatePathIsWithin fs (absolute absPath) (absolute working) then
          .error "Path to list files is outside the working directory"
        else if fs.node absPath ≠ some .dir then .error "Path to list files is not a directory"
        else .ok (working,absPath)

section Traversal

-- `dirLen` is the size that the file system reports for a directory
variable (fs : FileSystem) (order : ReadDir fs) (dirLen : Location → ℕ) (working : Location)

def collectDirEntry (path : Location) : Option Entry :=
  match fs.node path with
  | none => none
  | some (.link _) => none
  | some .dir => some ⟨relativePath working path,true,dirLen path⟩
  | some (.file content) => some ⟨relativePath working path,false,content.length⟩

/-- `RecursiveFileListHandler` on the list and the stack. -/
def recursiveHandle (s : List Entry × List Location) (path : Location) : List Entry × List Location :=
  match collectDirEntry fs dirLen working path with
  | none => s
  | some e => (s.1 ++ [e],if e.isDir then path :: s.2 else s.2)

def handle (files : List Entry) (path : Location) : List Entry :=
  match collectDirEntry fs dirLen working path with
  | none => files
  | some e => files ++ [e]

variable {fs} in
def readDirInto {S : Type} (dir : Location) (handler : S → Location → S) (s : S) : S :=
  ((order.names dir).map fun name => dir ++ [name]).foldl handler s

def listAll : ℕ → List Location → List Entry → Option (List Entry)
  | _, [], files => some files
  | 0, _ :: _, _ => none
  | fuel + 1, dir :: stack, files =>
    let s := readDirInto order dir (recursiveHandle fs dirLen working) (files,stack)
    listAll fuel s.2 s.1

def handleFileList (lookup : Except JobLookupError String) (dirPath : String) (isRecursive : Bool)
    (fuel : ℕ) : Option Reply :=
  match listTarget fs lookup dirPath with
  | .error msg => some (.fileListError msg)
  | .ok (working,absPath) =>
    if isRecursive then (listAll fs order dirLen working fuel [absPath] []).map .fileList
    else some (.fileList (readDirInto order absPath (handle fs dirLen working) []))

end Traversal

/-- A non-link entry below a directory, reached through directories that are no links. -/
inductive Reachable (fs : FileSystem) (top : Location) : Location → Prop
  | child {name : String} : fs.isEntry (top ++ [name]) = true → Reachable fs top (top ++ [name])
  | deeper {dir : Location} {name : String} : Reachable fs top dir → fs.node dir = some .dir →
    fs.isEntry (dir ++ [name]) = true → Reachable fs top (dir ++ [name])

def sizeAt (fs : FileSystem) (dirLen : Location → ℕ) (loc : Location) : ℕ :=
  match fs.node loc with
  | some (.file content) => content.length
  | _ => dirLen loc

def described (fs : FileSystem) (dirLen : Location → ℕ) (working loc : Location) : Entry :=
  ⟨"/".intercalate (loc.drop working.length),fs.node loc = some .dir,sizeAt fs dirLen loc⟩

section Checks

variable {fs : FileSystem} {working absPath : Location}

/-- Where the canonical working directory is above a canonical path that passes the check. -/
theorem prefix_of_canonicalize {p : TreePath} (hworking : fs.canonicalize p = .ok working)
    (habs : fs.isEntry absPath = true) (h : validatePathIsWithin fs (absolute absPath) p = true) :
    working <+: absPath := by
  unfold validatePathIsWithin at h
  simp only [hworking] at h
  split at h
  · rename_i target htarget
    obtain rfl := canonicalize_absolute habs htarget
    simpa using h
  -- a name that the system call refuses: some directory above it is within
  rename_i e herror
  split at h
  · cases h
  rename_i current hcurrent
  have hmissing : fs.pathExists (absolute absPath) = false := by
    simp [pathExists,herror,Except.isOk,Except.toBool]
  rw [existingPrefix,hmissing] at hcurrent
  simp only [Bool.false_eq_true,if_false,Option.bind_eq_some_iff] at hcurrent
  obtain ⟨parent,hparent,hpop⟩ := hcurrent
  obtain ⟨hanchor,htrailing,-,rest,hcomps,-⟩ := popToExisting_spec hpop
  obtain ⟨names,habove,rfl⟩ : ∃ names, names <+: absPath ∧ absolute names = current := by
    cases absPath with
    | nil => simp [absolute,TreePath.parent] at hparent
    | cons name rest =>
      obtain rfl : ⟨.root,((name :: rest).map .normal).dropLast,false⟩ = parent := by
        simpa [absolute,TreePath.parent] using hparent
      rw [List.reverse_reverse,← List.map_dropLast,List.map_eq_append_iff] at hcomps
      obtain ⟨names,others,hnames,hcurrent,-⟩ := hcomps
      refine ⟨names,(hnames ▸ List.prefix_append _ _).trans (List.dropLast_prefix _),?_⟩
      cases current
      simp_all [absolute]
  have hnames : fs.isEntry names = true := isEntry_of_prefix habs habove
  split at h
  · cases h
  rename_i found hfound
  obtain rfl := canonicalize_absolute hnames hfound
  simp only [Bool.and_eq_true,decide_eq_true_eq] at h
  exact h.1.trans habove

theorem prefix_of_validatePathIsWithin (hworking : fs.isEntry working = true)
    (habs : fs.isEntry absPath = true)
    (h : validatePathIsWithin fs (absolute absPath) (absolute working) = true) :
    working <+: absPath := by
  cases hfound : fs.canonicalize (absolute working) with
  | error e => simp [validatePathIsWithin,hfound] at h
  | ok found =>
    obtain rfl := canonicalize_absolute hworking hfound
    exact prefix_of_canonicalize hfound habs h

theorem listTarget_spec {lookup : Except JobLookupError String} {dirPath : String}
    (h : listTarget fs lookup dirPath = .ok (working,absPath)) :
    working <+: absPath ∧ fs.node absPath = some .dir := by
  unfold listTarget at h
  split at h
  · cases h
  split at h
  · cases h
  rename_i w hw
  split at h
  · cases h
  rename_i a ha
  split at h
  · cases h
  rename_i hvalid
  split at h
  · cases h
  rename_i hdir
  cases h
  have hwithin := prefix_of_validatePathIsWithin (isEntry_of_canonicalize hw)
    (isEntry_of_canonicalize ha) (by simpa using hvalid)
  exact ⟨hwithin,not_not.mp hdir⟩

end Checks

section Proofs

variable {fs : FileSystem} (order : ReadDir fs) (dirLen : Location → ℕ) {working top dir : Location}

def isDirAt (fs : FileSystem) (loc : Location) : Bool := fs.node loc = some .dir

theorem collectDirEntry_eq {path : Location} (hpath : working <+: path) :
    collectDirEntry fs dirLen working path =
      if fs.isEntry path then some (described fs dirLen working path) else none := by
  unfold collectDirEntry isEntry described sizeAt relativePath
  cases hn : fs.node path with
  | none => rfl
  | some n => cases n <;> simp [hpath]

def paths (dir : Location) : List Location := (order.names dir).map fun name => dir ++ [name]

theorem prefix_paths (hdir : working <+: dir) (path : Location) (h : path ∈ paths order dir) :
    working <+: path := by
  obtain ⟨name,-,rfl⟩ := List.mem_map.mp h
  exact hdir.trans (List.prefix_append _ _)

theorem foldl_handle {ps : List Location} (hps : ∀ path ∈ ps, working <+: path) (files : List Entry) :
    ps.foldl (handle fs dirLen working) files =
      files ++ (ps.filter fs.isEntry).map (described fs dirLen working) := by
  induction ps generalizing files with
  | nil => simp
  | cons path ps ih =>
    rw [List.foldl_cons,ih fun p hp => hps p (List.mem_cons_of_mem _ hp),handle,
      collectDirEntry_eq dirLen (hps path List.mem_cons_self)]
    cases hentry : fs.isEntry path <;> simp [hentry]

theorem foldl_recursiveHandle {ps : List Location} (hps : ∀ path ∈ ps, working <+: path)
    (files : List Entry) (stack : List Location) :
    ps.foldl (recursiveHandle fs dirLen working) (files,stack) =
      (files ++ (ps.filter fs.isEntry).map (described fs dirLen working),
        (ps.filter (isDirAt fs)).reverse ++ stack) := by
  induction ps generalizing files stack with
  | nil => simp
  | cons path ps ih =>
    have hrest (p : Location) (hp : p ∈ ps) : working <+: p := hps p (List.mem_cons_of_mem _ hp)
    rw [List.foldl_cons,recursiveHandle,collectDirEntry_eq dirLen (hps path List.mem_cons_self)]
    cases hentry : fs.isEntry path with
    | false =>
      have hdir : isDirAt fs path = false := by
        unfold isDirAt
        rw [decide_eq_false_iff_not]
        intro hdir
        rw [isEntry_of_dir hdir] at hentry
        cases hentry
      simp [ih hrest,hentry,hdir]
    | true =>
      by_cases hdir : fs.node path = some .dir
      · simp [ih hrest,hentry,isDirAt,described,hdir]
      · simp [ih hrest,hentry,isDirAt,described,hdir]

def listed (working dir : Location) : List Entry :=
  (order.entries fs.isEntry dir).map (described fs dirLen working)

theorem listAll_eq_drain (fuel : ℕ) (stack : List Location) (files : List Entry)
    (hstack : ∀ dir ∈ stack, working <+: dir) :
    listAll fs order dirLen working fuel stack files =
      TreeWalk.drain (order.entries (isDirAt fs)) (listed order dirLen working) fuel stack files := by
  induction fuel generalizing stack files with
  | zero => cases stack <;> rfl
  | succ fuel ih =>
    cases stack with
    | nil => rfl
    | cons dir stack =>
      have hps := prefix_paths order (hstack dir List.mem_cons_self)
      have hread : readDirInto order dir (recursiveHandle fs dirLen working) (files,stack) =
          (files ++ listed order dirLen working dir,(order.entries (isDirAt fs) dir).reverse ++ stack) :=
        foldl_recursiveHandle dirLen hps files stack
      rw [listAll,hread,TreeWalk.drain]
      refine ih _ _ fun d hd => ?_
      rcases List.mem_append.mp hd with hd | hd
      · exact hps d (List.mem_of_mem_filter (List.mem_reverse.mp hd))
      · exact hstack d (List.mem_cons_of_mem _ hd)

theorem reachable_of_descendant {d : Location}
    (h : TreeWalk.Descendant (order.entries (isDirAt fs)) top d) :
    d = top ∨ (Reachable fs top d ∧ fs.node d = some .dir) := by
  induction h with
  | refl => exact .inl rfl
  | tail _ hstep ih =>
    obtain ⟨name,rfl,-,hdir⟩ := (order.mem_entries _).mp hstep
    replace hdir := of_decide_eq_true hdir
    rcases ih with rfl | ⟨hreach,hparent⟩
    · exact .inr ⟨.child (isEntry_of_dir hdir),hdir⟩
    · exact .inr ⟨.deeper hreach hparent (isEntry_of_dir hdir),hdir⟩

def located (top : Location) : List Location :=
  (order.walk (isDirAt fs) top).flatMap (order.entries fs.isEntry)

theorem mem_located {loc : Location} : loc ∈ located order top ↔ Reachable fs top loc := by
  have hwalk {d : Location} : d ∈ order.walk (isDirAt fs) top ↔
      TreeWalk.Descendant (order.entries (isDirAt fs)) top d :=
    TreeWalk.mem_tree (order.rank_entries (isDirAt fs))
  simp only [located,List.mem_flatMap,hwalk]
  constructor
  · rintro ⟨d,hd,hloc⟩
    obtain ⟨name,rfl,-,hentry⟩ := (order.mem_entries _).mp hloc
    rcases reachable_of_descendant order hd with rfl | ⟨hreach,hdir⟩
    · exact .child hentry
    · exact .deeper hreach hdir hentry
  · intro h
    induction h with
    | child hentry =>
      exact ⟨top,.refl,(order.mem_entries _).mpr ⟨_,rfl,exists_node_of_isEntry hentry,hentry⟩⟩
    | deeper _ hdir hentry ih =>
      obtain ⟨d,hd,hmem⟩ := ih
      obtain ⟨name,rfl,hnode,-⟩ := (order.mem_entries _).mp hmem
      refine ⟨d ++ [name],hd.tail ?_,?_⟩
      · exact (order.mem_entries _).mpr ⟨name,rfl,hnode,decide_eq_true hdir⟩
      · exact (order.mem_entries _).mpr ⟨_,rfl,exists_node_of_isEntry hentry,hentry⟩

theorem nodup_located (top : Location) : (located order top).Nodup := by
  refine List.nodup_flatMap.mpr ⟨fun d _ => order.nodup_entries _ d,?_⟩
  refine (order.nodup_walk (isDirAt fs) top).imp fun {a b} hne x ha hb => hne ?_
  exact order.entries_parent _ a b ha hb

theorem prefix_of_reachable {loc : Location} (h : Reachable fs top loc) : top <+: loc := by
  induction h with
  | child => exact List.prefix_append _ _
  | deeper _ _ _ ih => exact ih.trans (List.prefix_append _ _)

theorem entries_perm_filter (top : Location) :
    (order.entries fs.isEntry top).Perm ((located order top).filter fun loc => loc.dropLast = top) := by
  refine (List.perm_ext_iff_of_nodup (order.nodup_entries _ top)
    ((nodup_located order top).filter _)).mpr fun loc => ?_
  rw [List.mem_filter,mem_located,decide_eq_true_eq,order.mem_entries]
  constructor
  · rintro ⟨name,rfl,-,hentry⟩
    exact ⟨.child hentry,List.dropLast_concat⟩
  · rintro ⟨hreach,hparent⟩
    cases hreach with
    | child hentry => exact ⟨_,rfl,exists_node_of_isEntry hentry,hentry⟩
    | deeper _ _ hentry =>
      rw [List.dropLast_concat] at hparent
      subst hparent
      exact ⟨_,rfl,exists_node_of_isEntry hentry,hentry⟩

theorem length_le_keys {locs : List Location} (hnodup : locs.Nodup)
    (h : ∀ loc ∈ locs, ∃ n, fs.node loc = some n) : locs.length ≤ fs.nodes.keys.length :=
  (List.subperm_of_subset hnodup fun loc hloc => mem_keys_iff.mpr (h loc hloc)).length_le

/-- The loop ends, and it has listed the entries below the directory. -/
theorem listAll_spec (hwithin : working <+: top) (htop : fs.node top = some .dir) {fuel : ℕ}
    (hfuel : fs.nodes.keys.length ≤ fuel) :
    ∃ files, listAll fs order dirLen working fuel [top] [] = some files ∧
      files.Perm ((located order top).map (described fs dirLen working)) := by
  have hdirs (d : Location) (hd : d ∈ order.walk (isDirAt fs) top) : ∃ n, fs.node d = some n := by
    have hmem := (TreeWalk.mem_tree (order.rank_entries (isDirAt fs))).mp hd
    rcases reachable_of_descendant order hmem with rfl | ⟨-,hdir⟩
    · exact ⟨.dir,htop⟩
    · exact ⟨.dir,hdir⟩
  have hlength := length_le_keys (order.nodup_walk (isDirAt fs) top) hdirs
  obtain ⟨files,hrun,hfiles⟩ := TreeWalk.drain_spec (order.rank_entries (isDirAt fs))
    (listed order dirLen working) fuel [top] [] (by
      rw [List.flatMap_singleton]
      exact hlength.trans hfuel)
  refine ⟨files,?_,?_⟩
  · rw [listAll_eq_drain order dirLen fuel [top] [] (by simpa using hwithin)]
    exact hrun
  · rw [List.flatMap_singleton,List.nil_append] at hfiles
    rwa [located,List.map_flatMap]

theorem sent_eq {files : List Entry} (h : files.length < 2^32) :
    (capFileCount files.length).toNat = files.length ∧ sent files = files := by
  have hcount : (capFileCount files.length).toNat = files.length := by
    rw [capFileCount,if_pos h,UInt32.toNat_ofNat_of_lt' h]
  exact ⟨hcount,by rw [sent,hcount,List.take_length]⟩

end Proofs

/-- An accepted request is answered with exactly the entries that are reachable below the
directory, all of them within the working directory, and the flat listing is the part of
them that lies directly in it. -/
theorem listing_exact (fs : FileSystem) (order : ReadDir fs) (dirLen : Location → ℕ)
    (lookup : Except JobLookupError String) (dirPath : String) (working top : Location) (fuel : ℕ)
    (haccepted : listTarget fs lookup dirPath = .ok (working,top))
    (hcount : fs.nodes.keys.length < 2^32) (hfuel : fs.nodes.keys.length ≤ fuel) :
    ∃ (all flat : List Entry) (locs : List Location),
      handleFileList fs order dirLen lookup dirPath true fuel = some (.fileList all) ∧
      handleFileList fs order dirLen lookup dirPath false fuel = some (.fileList flat) ∧
      locs.Nodup ∧ (∀ loc, loc ∈ locs ↔ Reachable fs top loc) ∧ (∀ loc ∈ locs, working <+: loc) ∧
      all.Perm (locs.map (described fs dirLen working)) ∧
      flat.Perm ((locs.filter fun loc => loc.dropLast = top).map (described fs dirLen working)) ∧
      sent all = all ∧ sent flat = flat := by
  obtain ⟨hwithin,htop⟩ := listTarget_spec haccepted
  obtain ⟨all,hall,hperm⟩ := listAll_spec order dirLen hwithin htop hfuel
  have hflat : readDirInto order top (handle fs dirLen working) [] = listed order dirLen working top :=
    foldl_handle dirLen (prefix_paths order hwithin) []
  have hlength : (located order top).length < 2^32 := by
    refine (length_le_keys (nodup_located order top) fun loc hloc => ?_).trans_lt hcount
    obtain ⟨d,-,hmem⟩ := List.mem_flatMap.mp hloc
    obtain ⟨name,-,hnode,-⟩ := (order.mem_entries _).mp hmem
    exact hnode
  have hdirect := (entries_perm_filter order top).map (described fs dirLen working)
  refine ⟨all,listed order dirLen working top,located order top,?_,?_,nodup_located order top,
    fun loc => mem_located order,?_,hperm,hdirect,(sent_eq ?_).2,(sent_eq ?_).2⟩
  · simp [handleFileList,haccepted,hall]
  · simp [handleFileList,haccepted,hflat]
  · intro loc hloc
    exact hwithin.trans (prefix_of_reachable ((mem_located order).mp hloc))
  · rw [hperm.length_eq,List.length_map]
    exact hlength
  · have hle := (List.filter_sublist (l := located order top)
      (p := fun loc => loc.dropLast = top)).length_le
    rw [listed,hdirect.length_eq,List.length_map]
    omega

/-- A file, and a directory with a file and a link back to the top. -/
def cyclic : FileSystem :=
  (((UploadPath.emptyWork.add ["w"] "data" (.file [1,2]) rfl rfl).add ["w"] "sub" .dir rfl rfl).add
    ["w","sub"] "more" (.file [3]) rfl rfl).add ["w","sub"] "loop" (.link (absolute ["w"])) rfl rfl

theorem listing_exact_cyclic : ∃ all flat,
    handleFileList cyclic cyclic.readDir (fun _ => 4096) (.ok "/w") "" true 6 = some (.fileList all) ∧
      handleFileList cyclic cyclic.readDir (fun _ => 4096) (.ok "/w") "" false 6 =
        some (.fileList flat) ∧
      all.Perm [⟨"data",false,2⟩,⟨"sub",true,4096⟩,⟨"sub/more",false,1⟩] ∧
      flat.Perm [⟨"data",false,2⟩,⟨"sub",true,4096⟩] ∧ sent all = all ∧ sent flat = flat := by
  have haccepted : listTarget cyclic (.ok "/w") "" = .ok (["w"],["w"]) := by decide +kernel
  obtain ⟨all,flat,-,hall,hflat,-,-,-,-,-,hsent,hsentFlat⟩ := listing_exact cyclic cyclic.readDir
    (fun _ => 4096) (.ok "/w") "" ["w"] ["w"] 6 haccepted (by decide) (by decide)
  refine ⟨all,flat,hall,hflat,?_,?_,hsent,hsentFlat⟩
  · have hrun : handleFileList cyclic cyclic.readDir (fun _ => 4096) (.ok "/w") "" true 6 =
        some (.fileList [⟨"sub",true,4096⟩,⟨"data",false,2⟩,⟨"sub/more",false,1⟩]) := by
      decide +kernel
    rw [hrun] at hall
    cases hall
    decide
  · have hrun : handleFileList cyclic cyclic.readDir (fun _ => 4096) (.ok "/w") "" false 6 =
        some (.fileList [⟨"sub",true,4096⟩,⟨"data",false,2⟩]) := by
      decide +kernel
    rw [hrun] at hflat
    cases hflat
    decide

end FileListing
end JobControllerClient
