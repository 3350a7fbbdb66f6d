import Mathlib.Data.List.Perm.Basic
import Mathlib.Logic.Relation
import JobControllerClient.Foundation.FileSystem

/-! Walks over a finite tree that is given by the successors of its nodes: in preorder by
recursion, and with an explicit stack. A rank that falls from a node to its successors
bounds both. The directories below a location are such a tree. -/

namespace TreeWalk

variable {α β : Type*} (next : α → List α)

/-- The nodes down to some depth, every node before the ones below it. -/
def preorder : ℕ → α → List α
  | 0, a => [a]
  | depth + 1, a => a :: (next a).flatMap (preorder depth)

/-- Take the top of a stack, emit for it and push its successors, the last one on top. -/
def drain (emit : α → List β) : ℕ → List α → List β → Option (List β)
  | _, [], out => some out
  | 0, _ :: _, _ => none
  | fuel + 1, a :: stack, out => drain emit fuel ((next a).reverse ++ stack) (out ++ emit a)

/-- `b` is `a` or below it. -/
def Descendant : α → α → Prop := Relation.ReflTransGen fun a b => b ∈ next a

def tree (rank : α → ℕ) (a : α) : List α := preorder next (rank a) a

section Ranked

variable {next} {rank : α → ℕ} (hrank : ∀ a, ∀ b ∈ next a, rank b < rank a) {a b : α}

include hrank

theorem next_eq_nil (h : rank a = 0) : next a = [] := by
  refine List.eq_nil_iff_forall_not_mem.mpr fun b hb => ?_
  have hlt := hrank a b hb
  omega

theorem preorder_stable {n m : ℕ} (hn : rank a ≤ n) (hm : rank a ≤ m) :
    preorder next n a = preorder next m a := by
  induction n generalizing a m with
  | zero =>
    have hnil := next_eq_nil hrank (a := a) (by omega)
    cases m <;> simp [preorder,hnil]
  | succ n ih =>
    cases m with
    | zero =>
      have hnil := next_eq_nil hrank (a := a) (by omega)
      simp [preorder,hnil]
    | succ m =>
      simp only [preorder,List.cons.injEq,true_and]
      refine List.flatMap_congr fun b hb => ih ?_ ?_
      · have hlt := hrank a b hb
        omega
      · have hlt := hrank a b hb
        omega

theorem tree_eq (a : α) : tree next rank a = a :: (next a).flatMap (tree next rank) := by
  unfold tree
  cases h : rank a with
  | zero => simp [preorder,next_eq_nil hrank h]
  | succ n =>
    simp only [preorder,List.cons.injEq,true_and]
    refine List.flatMap_congr fun b hb => preorder_stable hrank ?_ le_rfl
    have hlt := hrank a b hb
    omega

theorem rank_le_of_descendant (h : Descendant next a b) : rank b ≤ rank a := by
  induction h with
  | refl => exact le_rfl
  | tail _ hstep ih => exact (hrank _ _ hstep).le.trans ih

theorem mem_tree : b ∈ tree next rank a ↔ Descendant next a b := by
  constructor
  · intro h
    induction hn : rank a using Nat.strong_induction_on generalizing a with
    | _ n ih =>
      rw [tree_eq hrank,List.mem_cons,List.mem_flatMap] at h
      rcases h with rfl | ⟨c,hc,hb⟩
      · exact .refl
      · exact .head hc (ih (rank c) (hn ▸ hrank a c hc) hb rfl)
  · intro h
    induction h using Relation.ReflTransGen.head_induction_on with
    | refl =>
      rw [tree_eq hrank]
      exact List.mem_cons_self
    | head hstep _ ih =>
      rw [tree_eq hrank]
      exact List.mem_cons_of_mem _ (List.mem_flatMap.mpr ⟨_,hstep,ih⟩)

/-- Where every node has one parent, different successors have nothing below them in common. -/
theorem disjoint_descendants (hparent : ∀ a a' b, b ∈ next a → b ∈ next a' → a = a') {c c' x : α}
    (hc : c ∈ next a) (hc' : c' ∈ next a) (hx : Descendant next c x)
    (hx' : Descendant next c' x) : c = c' := by
  have hmeet {c c' : α} (hc : c ∈ next a) (hc' : c' ∈ next a) (h : Descendant next c c') :
      c = c' := by
    cases h.cases_tail with
    | inl heq => exact heq.symm
    | inr hstep =>
      obtain ⟨d,hd,hcd⟩ := hstep
      obtain rfl := hparent _ _ _ hcd hc'
      have hle := rank_le_of_descendant hrank hd
      have hlt := hrank _ _ hc
      omega
  have hunique : Relator.RightUnique (Function.swap fun a b => b ∈ next a) :=
    fun x a a' h h' => hparent a a' x h h'
  rcases Relation.ReflTransGen.total_of_right_unique hunique
    (Relation.reflTransGen_swap.mpr hx) (Relation.reflTransGen_swap.mpr hx') with h | h
  · exact (hmeet hc' hc (Relation.reflTransGen_swap.mp h)).symm
  · exact hmeet hc hc' (Relation.reflTransGen_swap.mp h)

theorem nodup_tree (hnodup : ∀ a, (next a).Nodup)
    (hparent : ∀ a a' b, b ∈ next a → b ∈ next a' → a = a') (a : α) :
    (tree next rank a).Nodup := by
  induction hn : rank a using Nat.strong_induction_on generalizing a with
  | _ n ih =>
    rw [tree_eq hrank,List.nodup_cons,List.nodup_flatMap]
    refine ⟨fun h => ?_,fun c hc => ih _ (hn ▸ hrank a c hc) c rfl,?_⟩
    · obtain ⟨c,hc,hac⟩ := List.mem_flatMap.mp h
      have hle := rank_le_of_descendant hrank ((mem_tree hrank).mp hac)
      have hlt := hrank a c hc
      omega
    · refine (hnodup a).imp_of_mem fun {c c'} hc hc' hne x hx hx' => hne ?_
      exact disjoint_descendants hrank hparent hc hc' ((mem_tree hrank).mp hx)
        ((mem_tree hrank).mp hx')

/-- The stack is emptied, and what is emitted is what the trees on it hold. -/
theorem drain_spec (emit : α → List β) (fuel : ℕ) (stack : List α) (out : List β)
    (hfuel : (stack.flatMap (tree next rank)).length ≤ fuel) :
    ∃ result, drain next emit fuel stack out = some result ∧
      result.Perm (out ++ (stack.flatMap (tree next rank)).flatMap emit) := by
  induction fuel generalizing stack out with
  | zero =>
    cases stack with
    | nil => exact ⟨out,rfl,by simp⟩
    | cons a stack =>
      rw [List.flatMap_cons,tree_eq hrank] at hfuel
      simp at hfuel
  | succ fuel ih =>
    cases stack with
    | nil => exact ⟨out,rfl,by simp⟩
    | cons a stack =>
      have hperm : (((next a).reverse ++ stack).flatMap (tree next rank)).Perm
          ((next a).flatMap (tree next rank) ++ stack.flatMap (tree next rank)) := by
        rw [List.flatMap_append]
        exact ((List.reverse_perm _).flatMap_right _).append_right _
      have hlength := hperm.length_eq
      obtain ⟨result,hrun,hresult⟩ := ih ((next a).reverse ++ stack) (out ++ emit a) (by
        rw [List.flatMap_cons,tree_eq hrank] at hfuel
        simp only [List.cons_append,List.length_cons,List.length_append] at hfuel hlength
        omega)
      refine ⟨result,hrun,hresult.trans ?_⟩
      rw [List.flatMap_cons,tree_eq hrank,List.cons_append,List.flatMap_cons,List.append_assoc]
      exact ((hperm.flatMap_right emit).append_left _).append_left _

end Ranked

end TreeWalk

namespace FileSystem

/-- The names of the entries of every directory, in the order in which it is read. -/
structure ReadDir (fs : FileSystem) where
  names : Location → List String
  nodup : ∀ loc, (names loc).Nodup
  mem_names : ∀ loc name, name ∈ names loc ↔ ∃ n, fs.node (loc ++ [name]) = some n

def height (fs : FileSystem) : ℕ := (fs.nodes.keys.map List.length).foldr max 0

def rank (fs : FileSystem) (loc : Location) : ℕ := fs.height - loc.length

variable {fs : FileSystem}

theorem mem_keys_iff {loc : Location} : loc ∈ fs.nodes.keys ↔ ∃ n, fs.node loc = some n := by
  rw [← AList.mem_keys,← AList.lookup_isSome,Option.isSome_iff_exists]
  rfl

theorem length_le_height {loc : Location} {n : Node} (h : fs.node loc = some n) :
    loc.length ≤ fs.height := by
  have hmem : loc ∈ fs.nodes.keys := mem_keys_iff.mpr ⟨n,h⟩
  have hle (ls : List ℕ) (x : ℕ) (hx : x ∈ ls) : x ≤ ls.foldr max 0 := by
    induction ls with
    | nil => cases hx
    | cons y ls ih =>
      rcases List.mem_cons.mp hx with rfl | hx
      · exact le_max_left _ _
      · exact (ih hx).trans (le_max_right _ _)
  exact hle _ _ (List.mem_map_of_mem hmem)

def entryName (loc key : Location) : Option String :=
  if key.dropLast = loc then key.getLast? else none

theorem entryName_eq_some {loc key : Location} {name : String} :
    entryName loc key = some name ↔ key = loc ++ [name] := by
  unfold entryName
  constructor
  · intro h
    split at h
    · rename_i hloc
      rw [← hloc]
      exact (List.dropLast_append_getLast? name h).symm
    · cases h
  · rintro rfl
    simp

/-- One order in which the directories can be read. -/
def readDir (fs : FileSystem) : ReadDir fs where
  names loc := fs.nodes.keys.filterMap (entryName loc)
  nodup loc := by
    refine fs.nodes.nodupKeys.filterMap fun a b name ha hb => ?_
    exact (entryName_eq_some.mp ha).trans (entryName_eq_some.mp hb).symm
  mem_names loc name := by
    rw [List.mem_filterMap]
    constructor
    · rintro ⟨key,hkey,hname⟩
      obtain rfl := entryName_eq_some.mp hname
      exact mem_keys_iff.mp hkey
    · intro hn
      exact ⟨loc ++ [name],mem_keys_iff.mpr hn,entryName_eq_some.mpr rfl⟩

namespace ReadDir

variable (order : ReadDir fs) (keep : Location → Bool) {loc top c : Location}

def entries (loc : Location) : List Location :=
  ((order.names loc).map fun name => loc ++ [name]).filter keep

theorem mem_entries : c ∈ order.entries keep loc ↔
    ∃ name, c = loc ++ [name] ∧ (∃ n, fs.node c = some n) ∧ keep c = true := by
  simp only [entries,List.mem_filter,List.mem_map]
  constructor
  · rintro ⟨⟨name,hname,rfl⟩,hkeep⟩
    exact ⟨name,rfl,(order.mem_names loc name).mp hname,hkeep⟩
  · rintro ⟨name,rfl,hn,hkeep⟩
    exact ⟨⟨name,(order.mem_names loc name).mpr hn,rfl⟩,hkeep⟩

theorem nodup_entries (loc : Location) : (order.entries keep loc).Nodup := by
  refine List.Nodup.filter _ ((order.nodup loc).map fun a b h => ?_)
  simpa using h

theorem entries_parent (a a' : Location) (h : c ∈ order.entries keep a)
    (h' : c ∈ order.entries keep a') : a = a' := by
  obtain ⟨name,rfl,-⟩ := (order.mem_entries keep).mp h
  obtain ⟨name',heq,-⟩ := (order.mem_entries keep).mp h'
  exact (List.append_inj' heq rfl).1

theorem rank_entries (a c : Location) (h : c ∈ order.entries keep a) : fs.rank c < fs.rank a := by
  obtain ⟨name,rfl,⟨n,hn⟩,-⟩ := (order.mem_entries keep).mp h
  have hle := length_le_height hn
  simp only [rank,List.length_append,List.length_singleton] at hle ⊢
  omega

/-- A location and everything below it, where what is not kept hides what is below. -/
def walk (top : Location) : List Location := TreeWalk.tree (order.entries keep) fs.rank top

theorem walk_eq (top : Location) :
    order.walk keep top = top :: (order.entries keep top).flatMap (order.walk keep) :=
  TreeWalk.tree_eq (order.rank_entries keep) top

theorem nodup_walk (top : Location) : (order.walk keep top).Nodup :=
  TreeWalk.nodup_tree (order.rank_entries keep) (order.nodup_entries keep)
    (fun a a' _ => order.entries_parent keep a a') top

theorem mem_walk : loc ∈ order.walk keep top ↔ ∃ names, loc = top ++ names ∧
    ∀ init, init <+: names → init ≠ [] →
      (∃ n, fs.node (top ++ init) = some n) ∧ keep (top ++ init) = true := by
  rw [walk,TreeWalk.mem_tree (order.rank_entries keep)]
  constructor
  · intro h
    induction h with
    | refl => exact ⟨[],by simp,fun init hinit hne => absurd (List.prefix_nil.mp hinit) hne⟩
    | tail _ hstep ih =>
      obtain ⟨names,rfl,hnames⟩ := ih
      obtain ⟨name,rfl,hnode,hkeep⟩ := (order.mem_entries keep).mp hstep
      refine ⟨names ++ [name],by simp,fun init hinit hne => ?_⟩
      rcases List.prefix_concat_iff.mp hinit with rfl | hinit
      · rw [← List.append_assoc]
        exact ⟨hnode,hkeep⟩
      · exact hnames init hinit hne
  · rintro ⟨names,rfl,hnames⟩
    induction names using List.reverseRecOn with
    | nil =>
      rw [List.append_nil]
      exact .refl
    | append_singleton names name ih =>
      have hlast := hnames (names ++ [name]) List.prefix_rfl (by simp)
      refine (ih fun init hinit => hnames init (hinit.trans (List.prefix_append _ _))).tail ?_
      exact (order.mem_entries keep).mpr ⟨name,by simp,hlast⟩

end ReadDir

end FileSystem
