import JobControllerClient.Foundation.TreeWalk

/-! Which entries `archive_dir_with_limit` puts into the archive: the walk over the working
directory with its filter by file name, and the first item that is skipped. -/
namespace JobControllerClient
namespace ArchiveWalk

open FileSystem

def archiveFileName : String := "archive.tar.gz"

/-- The directory to archive: where its path leads, the last name of the path, and
whether the path itself is a link. -/
structure Root where
  loc : Location
  fileName : Option String
  isLink : Bool

structure TarEntry where
  name : Location
  node : Node
  deriving DecidableEq

/-- The predicate of `filter_entry` below the root. -/
def keeps (loc : Location) : Bool := loc.getLast? ≠ some archiveFileName

/-- `File::create(archive_path)`; the old content of an archive is not read any more. -/
def createArchive (fs : FileSystem) (dir : Location) : Except IoError FileSystem :=
  if hdir : fs.node dir = some .dir then
    match hnode : fs.node (dir ++ [archiveFileName]) with
    | none => .ok (fs.add dir archiveFileName (.file []) hdir hnode)
    | some .dir => .error .isADirectory
    | some _ => .ok fs
  else .error .notADirectory

def belowRoot {fs : FileSystem} (order : ReadDir fs) (dir : Location) : List Location :=
  (order.entries keeps dir).flatMap (order.walk keeps)

/-- The items of the filtered walk. A root that is a link is no directory to the filter,
which then does not skip what is below it. -/
def walkDir {fs : FileSystem} (order : ReadDir fs) (root : Root) : List Location :=
  if root.fileName ≠ some archiveFileName then root.loc :: belowRoot order root.loc
  else if root.isLink then belowRoot order root.loc
  else []

def tarEntry (fs : FileSystem) (dir loc : Location) : Option TarEntry :=
  (fs.node loc).map fun node => ⟨loc.drop dir.length,node⟩

def archiveDir (fs : FileSystem) (order : (fs : FileSystem) → ReadDir fs) (root : Root) :
    Except IoError (List TarEntry) :=
  (createArchive fs root.loc).map fun fs =>
    ((walkDir (order fs) root).drop 1).filterMap (tarEntry fs root.loc)

/-- Every entry strictly below the directory except the archive, and nothing twice. -/
def Complete (fs : FileSystem) (dir : Location) (entries : List TarEntry) : Prop :=
  (entries.map TarEntry.name).Nodup ∧ ∀ names node, ⟨names,node⟩ ∈ entries ↔
    names ≠ [] ∧ names ≠ [archiveFileName] ∧ fs.node (dir ++ names) = some node

/-- The archive would be empty anyway. -/
def NothingElse (fs : FileSystem) (dir : Location) : Prop :=
  ∀ names node, names ≠ [] → fs.node (dir ++ names) = some node → names = [archiveFileName]

variable {fs fs' : FileSystem} {dir : Location} {names : List String} {node : Node}

structure Created (fs fs' : FileSystem) (dir : Location) : Prop where
  archive : ∃ content, fs'.node (dir ++ [archiveFileName]) = some (.file content)
  others : ∀ names, names ≠ [archiveFileName] → fs'.node (dir ++ names) = fs.node (dir ++ names)

theorem created_of_createArchive
    (hlinks : ∀ target, fs.node (dir ++ [archiveFileName]) ≠ some (.link target))
    (h : createArchive fs dir = .ok fs') : Created fs fs' dir := by
  unfold createArchive at h
  split at h
  · split at h
    · rename_i hfree
      cases h
      refine ⟨⟨[],AList.lookup_insert _⟩,fun names hne => ?_⟩
      exact AList.lookup_insert_ne (by simpa using hne)
    · cases h
    · rename_i n hdir hnode
      cases h
      cases n with
      | dir => exact absurd rfl hdir
      | file content => exact ⟨⟨content,hnode⟩,fun _ _ => rfl⟩
      | link target => exact absurd hnode (hlinks target)
  · cases h

/-- No component below the directory is filtered out. -/
def Kept (names : List String) : Prop := ∀ name ∈ names, name ≠ archiveFileName

theorem keeps_iff {name : String} : keeps (dir ++ names ++ [name]) = true ↔ name ≠ archiveFileName := by
  simp [keeps]

theorem mem_walk_keeps (order : ReadDir fs) (dir : Location) (names : List String) :
    dir ++ names ∈ order.walk keeps dir ↔
      Kept names ∧ (names ≠ [] → ∃ node, fs.node (dir ++ names) = some node) := by
  rw [ReadDir.mem_walk]
  constructor
  · rintro ⟨names',heq,hnames⟩
    obtain rfl := List.append_cancel_left heq
    refine ⟨fun name hname => ?_,fun hne => (hnames names List.prefix_rfl hne).1⟩
    obtain ⟨init,rest,rfl⟩ := List.append_of_mem hname
    have hkeep := (hnames (init ++ [name]) ⟨rest,by simp⟩ (by simp)).2
    rw [← List.append_assoc] at hkeep
    exact keeps_iff.mp hkeep
  · rintro ⟨hkept,hnode⟩
    refine ⟨names,rfl,fun init hinit hne => ?_⟩
    obtain ⟨rest,rfl⟩ := hinit
    obtain ⟨before,name,rfl⟩ := List.eq_nil_or_concat' init |>.resolve_left hne
    refine ⟨?_,?_⟩
    · obtain ⟨node,hnode⟩ := hnode (by simp)
      cases hx : fs.node (dir ++ (before ++ [name])) with
      | some n => exact ⟨n,rfl⟩
      | none =>
        have hbelow := node_below hx rest
        rw [List.append_assoc] at hbelow
        cases hbelow.symm.trans hnode
    · rw [← List.append_assoc]
      exact keeps_iff.mpr (hkept name (by simp))

section Entries

variable {locs : List Location} (hbelow : ∀ loc ∈ locs, dir <+: loc)

include hbelow

theorem mem_tarEntries : ⟨names,node⟩ ∈ locs.filterMap (tarEntry fs dir) ↔
    dir ++ names ∈ locs ∧ fs.node (dir ++ names) = some node := by
  simp only [List.mem_filterMap,tarEntry,Option.map_eq_some_iff,TarEntry.mk.injEq]
  constructor
  · rintro ⟨loc,hloc,n,hn,rfl,rfl⟩
    obtain ⟨names,rfl⟩ := hbelow loc hloc
    rw [List.drop_left]
    exact ⟨hloc,hn⟩
  · rintro ⟨hloc,hnode⟩
    exact ⟨dir ++ names,hloc,node,hnode,List.drop_left,rfl⟩

theorem nodup_tarEntries (hnodup : locs.Nodup) :
    ((locs.filterMap (tarEntry fs dir)).map TarEntry.name).Nodup := by
  rw [List.map_filterMap,List.Nodup,List.pairwise_filterMap]
  refine hnodup.imp_of_mem fun {a b} ha hb hne x hx y hy hxy => hne ?_
  obtain ⟨names,rfl⟩ := hbelow a ha
  obtain ⟨names',rfl⟩ := hbelow b hb
  simp only [tarEntry,Option.map_map,Option.map_eq_some_iff,Function.comp_apply,
    List.drop_left] at hx hy
  obtain ⟨_,-,rfl⟩ := hx
  obtain ⟨_,-,rfl⟩ := hy
  rw [hxy]

end Entries

section Walk

variable (order : ReadDir fs')

theorem nodup_belowRoot (dir : Location) : (belowRoot order dir).Nodup := by
  have h := order.nodup_walk keeps dir
  rw [ReadDir.walk_eq] at h
  exact (List.nodup_cons.mp h).2

theorem mem_belowRoot : dir ++ names ∈ belowRoot order dir ↔
    names ≠ [] ∧ Kept names ∧ ∃ node, fs'.node (dir ++ names) = some node := by
  have hnodup := order.nodup_walk keeps dir
  have hmem := mem_walk_keeps order dir names
  rw [ReadDir.walk_eq] at hnodup hmem
  have hroot : dir ∉ belowRoot order dir := (List.nodup_cons.mp hnodup).1
  rw [List.mem_cons] at hmem
  by_cases hnil : names = []
  · subst hnil
    simpa using hroot
  · have hne : dir ++ names ≠ dir := by simpa using hnil
    rw [or_iff_right hne] at hmem
    exact hmem.trans ⟨fun h => ⟨hnil,h.1,h.2 hnil⟩,fun h => ⟨h.2.1,fun _ => h.2.2⟩⟩

theorem below_belowRoot (dir loc : Location) (h : loc ∈ belowRoot order dir) : dir <+: loc := by
  have hwalk : loc ∈ order.walk keeps dir := by
    rw [ReadDir.walk_eq]
    exact List.mem_cons_of_mem _ h
  obtain ⟨names,rfl,-⟩ := (order.mem_walk keeps).mp hwalk
  exact List.prefix_append _ _

variable {order} (hcreated : Created fs fs' dir)

include hcreated

theorem Created.node_kept (hkept : Kept names) : fs'.node (dir ++ names) = fs.node (dir ++ names) :=
  hcreated.others names fun h => hkept archiveFileName (by simp [h]) rfl

theorem Created.kept (honce : ∀ names node, fs.node (dir ++ names ++ [archiveFileName]) = some node →
    names = []) (hne : names ≠ [archiveFileName]) (hnode : fs.node (dir ++ names) = some node) :
    Kept names := by
  rintro name hname rfl
  obtain ⟨before,rest,rfl⟩ := List.append_of_mem hname
  rw [List.append_cons,← List.append_assoc] at hnode
  cases rest with
  | nil =>
    rw [List.append_nil,← List.append_assoc] at hnode
    obtain rfl := honce before node hnode
    exact hne rfl
  | cons name rest =>
    have habove := node_above hnode (by simp)
    rw [← List.append_assoc] at habove
    obtain rfl := honce before .dir habove
    -- something below the archive, which is a regular file
    obtain ⟨content,harchive⟩ := hcreated.archive
    have hnode' := hcreated.others ([archiveFileName] ++ name :: rest) (by simp)
    simp only [List.nil_append,List.append_assoc] at hnode hnode'
    have hdir := node_above (List.append_assoc dir _ _ ▸ hnode'.trans hnode) (by simp)
    cases harchive.symm.trans hdir

/-- The root itself is kept. -/
theorem complete_iff_once : Complete fs dir ((belowRoot order dir).filterMap (tarEntry fs' dir)) ↔
    ∀ names node, fs.node (dir ++ names ++ [archiveFileName]) = some node → names = [] := by
  have hbelow := below_belowRoot order dir
  constructor
  · rintro ⟨-,hcomplete⟩ names node hnode
    by_contra hne
    rw [List.append_assoc] at hnode
    have hmem := (hcomplete (names ++ [archiveFileName]) node).mpr ⟨by simp,by simpa using hne,hnode⟩
    obtain ⟨-,hkept,-⟩ := (mem_belowRoot order).mp ((mem_tarEntries hbelow).mp hmem).1
    exact hkept archiveFileName (by simp) rfl
  · intro honce
    refine ⟨nodup_tarEntries hbelow (nodup_belowRoot order dir),fun names node => ?_⟩
    rw [mem_tarEntries hbelow,mem_belowRoot]
    constructor
    · rintro ⟨⟨hne,hkept,-⟩,hnode⟩
      refine ⟨hne,fun h => hkept archiveFileName (by simp [h]) rfl,?_⟩
      rwa [hcreated.node_kept hkept] at hnode
    · rintro ⟨hnil,hne,hnode⟩
      have hkept := hcreated.kept honce hne hnode
      rw [← hcreated.node_kept hkept] at hnode
      exact ⟨⟨hnil,hkept,node,hnode⟩,hnode⟩

/-- An archive that loses the first entry of the walk, or all of them. -/
theorem complete_iff_nothingElse {locs : List Location} (hsub : locs ⊆ belowRoot order dir)
    (hnodup : locs.Nodup) (hlost : belowRoot order dir ≠ [] → ∃ loc ∈ belowRoot order dir, loc ∉ locs) :
    Complete fs dir (locs.filterMap (tarEntry fs' dir)) ↔ NothingElse fs dir := by
  have hbelow (loc : Location) (h : loc ∈ locs) : dir <+: loc :=
    below_belowRoot order dir loc (hsub h)
  constructor
  · rintro ⟨-,hcomplete⟩ names node hnil hnode
    by_contra hne
    have hmem := (mem_tarEntries hbelow).mp ((hcomplete names node).mpr ⟨hnil,hne,hnode⟩)
    obtain ⟨loc,hloc,hnot⟩ := hlost (List.ne_nil_of_mem (hsub hmem.1))
    obtain ⟨lost,rfl⟩ := below_belowRoot order dir loc hloc
    obtain ⟨hlnil,hkept,n,hn⟩ := (mem_belowRoot order).mp hloc
    rw [hcreated.node_kept hkept] at hn
    have hback := (hcomplete lost n).mpr
      ⟨hlnil,fun h => hkept archiveFileName (by simp [h]) rfl,hn⟩
    exact hnot ((mem_tarEntries hbelow).mp hback).1
  · intro hnothing
    refine ⟨nodup_tarEntries hbelow hnodup,fun names node => ?_⟩
    rw [mem_tarEntries hbelow]
    constructor
    · rintro ⟨hloc,hnode⟩
      obtain ⟨hnil,hkept,-⟩ := (mem_belowRoot order).mp (hsub hloc)
      rw [hcreated.node_kept hkept] at hnode
      exact absurd rfl (hkept archiveFileName (by simp [hnothing names node hnil hnode]))
    · rintro ⟨hnil,hne,hnode⟩
      exact absurd (hnothing names node hnil hnode) hne

end Walk

theorem exists_not_mem_drop {locs : List Location} (hnodup : locs.Nodup) (hne : locs ≠ []) :
    ∃ loc ∈ locs, loc ∉ locs.drop 1 := by
  cases locs with
  | nil => exact absurd rfl hne
  | cons loc rest => exact ⟨loc,List.mem_cons_self,(List.nodup_cons.mp hnodup).1⟩

/-- The archive is complete exactly where the archive's name occurs nowhere else: not as
the name of the directory, and not deeper in the tree. -/
theorem archive_complete_iff (fs : FileSystem) (order : (fs : FileSystem) → ReadDir fs) (root : Root)
    (entries : List TarEntry) (hlinks : ∀ names target, fs.node (root.loc ++ names) ≠ some (.link target))
    (hok : archiveDir fs order root = .ok entries) :
    Complete fs root.loc entries ↔
      (root.fileName ≠ some archiveFileName ∨ NothingElse fs root.loc) ∧
        ∀ names node, fs.node (root.loc ++ names ++ [archiveFileName]) = some node → names = [] := by
  obtain ⟨fs',hfs',rfl⟩ : ∃ fs', createArchive fs root.loc = .ok fs' ∧
      ((walkDir (order fs') root).drop 1).filterMap (tarEntry fs' root.loc) = entries := by
    unfold archiveDir at hok
    cases hc : createArchive fs root.loc with
    | error e => simp [hc,Except.map] at hok
    | ok fs' =>
      rw [hc] at hok
      exact ⟨fs',rfl,Except.ok.inj hok⟩
  have hcreated := created_of_createArchive (fun target => hlinks [archiveFileName] target) hfs'
  have honce (hnothing : NothingElse fs root.loc) (names : List String) (node : Node)
      (hnode : fs.node (root.loc ++ names ++ [archiveFileName]) = some node) : names = [] := by
    rw [List.append_assoc] at hnode
    simpa using hnothing _ node (by simp) hnode
  by_cases hname : root.fileName = some archiveFileName
  · rw [or_iff_right (not_not.mpr hname),and_iff_left_of_imp honce]
    by_cases hlink : root.isLink = true
    · have hwalk : walkDir (order fs') root = belowRoot (order fs') root.loc := by
        simp [walkDir,hname,hlink]
      rw [hwalk]
      have hnodup := nodup_belowRoot (order fs') root.loc
      exact complete_iff_nothingElse hcreated (List.drop_subset 1 _)
        (hnodup.sublist (List.drop_sublist 1 _)) (exists_not_mem_drop hnodup)
    · have hwalk : walkDir (order fs') root = [] := by simp [walkDir,hname,hlink]
      rw [hwalk]
      exact complete_iff_nothingElse hcreated (List.nil_subset (belowRoot (order fs') root.loc))
        List.nodup_nil
        fun hne => (List.exists_mem_of_ne_nil _ hne).imp fun loc h => ⟨h,by simp⟩
  · have hwalk : walkDir (order fs') root = root.loc :: belowRoot (order fs') root.loc := by
      simp [walkDir,hname]
    rw [hwalk,List.drop_one,List.tail_cons]
    exact (complete_iff_once hcreated).trans (iff_and_self.mpr fun _ => .inl hname)

/-- A job directory that holds the archive of an earlier run in a directory of its own. -/
def earlierRun : FileSystem :=
  (bare.add [] "earlier" .dir rfl rfl).add ["earlier"] archiveFileName (.file [1]) rfl rfl

theorem earlierRun_incomplete : ∃ entries,
    archiveDir earlierRun readDir ⟨[],some "job",false⟩ = .ok entries ∧
      ¬ Complete earlierRun [] entries := by
  refine ⟨[⟨["earlier"],.dir⟩],by decide +kernel,fun h => ?_⟩
  have hmem := (h.2 ["earlier",archiveFileName] (.file [1])).mpr ⟨by decide,by decide,by decide⟩
  revert hmem
  decide

def oneResult : FileSystem :=
  ((bare.add [] "out" .dir rfl rfl).add ["out"] "result" (.file [7]) rfl rfl).add [] archiveFileName
    (.file []) rfl rfl

theorem archive_complete_oneResult : ∃ entries,
    archiveDir oneResult readDir ⟨[],some "job",false⟩ = .ok entries ∧
      entries = [⟨["out"],.dir⟩,⟨["out","result"],.file [7]⟩] ∧ Complete oneResult [] entries := by
  have hkeys (names : List String) (node : Node) (h : oneResult.node ([] ++ names) = some node) :
      names ∈ [[archiveFileName],["out","result"],["out"],[]] :=
    mem_keys_iff.mpr ⟨node,h⟩
  refine ⟨_,by decide +kernel,rfl,
    (archive_complete_iff oneResult readDir ⟨[],some "job",false⟩ _ ?_ (by decide +kernel)).mpr
      ⟨.inl (by decide),?_⟩⟩
  · intro names target h
    have hnodes : ∀ names ∈ [[archiveFileName],["out","result"],["out"],[]],
        oneResult.node names ∈ [some .dir,some (.file []),some (.file [7])] := by decide
    have hmem := hnodes names (hkeys names _ h)
    rw [show oneResult.node names = some (.link target) from h] at hmem
    simp at hmem
  · intro names node h
    rw [List.append_assoc] at h
    have hmem := hkeys (names ++ [archiveFileName]) node h
    have hlast (others : List String) (hne : others.getLast? ≠ some archiveFileName) :
        names ++ [archiveFileName] ≠ others := by
      rintro rfl
      simp at hne
    simp only [List.mem_cons,List.not_mem_nil,or_false] at hmem
    rcases hmem with hmem | hmem | hmem | hmem
    · simpa using hmem
    · exact absurd hmem (hlast _ (by decide))
    · exact absurd hmem (hlast _ (by decide))
    · exact absurd hmem (hlast _ (by decide))

end ArchiveWalk
end JobControllerClient
