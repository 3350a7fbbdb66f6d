import JobControllerClient.BundleDeadlock

/-! The cache of loaded bundles under its locks: a bundle is loaded once, one import runs at a
time, and a bundle function runs only on a bundle that is loaded. -/
namespace JobControllerClient
namespace BundleLocks

open Interleaving

def Accurate (bundles : List String) : Frame → Prop
  | .load hash .python | .load hash .importing | .load hash .insert => hash ∉ bundles
  | .run hash .python | .run hash .running => hash ∈ bundles
  | _ => True

/-- A `run_bundle_*` call waits for the load of its own bundle. -/
def Calls (f g : Frame) : Prop := ∀ hash, g = .run hash .loading → ∃ pc, f = .load hash pc

structure Cached (x : Locks) (i : ℕ) (t : Thread) : Prop where
  held : Held x i t
  accurate : ∀ f ∈ t, Accurate x.bundles f
  calls : t.IsChain Calls

def CachedAt (x : Locks) (i : ℕ) (t : Option Thread) : Prop := Cached x i (t.getD [])

/-- The bundle whose import ends well. -/
def importedBy : Thread → Choice → List String
  | .load hash .importing :: _, .finished true => [hash]
  | _, _ => []

def imported (s : State Locks Thread) : Move Thread Choice → List String
  | .arrive _ => []
  | .run i c => (s.threads[i]?.map (importedBy · c)).getD []

def inserting : Thread → List String
  | .load hash .insert :: _ => [hash]
  | _ => []

def Available (s : State Locks Thread) (hash : String) : Prop :=
  hash ∈ s.shared.bundles ∨ ∃ t ∈ s.threads, hash ∈ inserting t

section Stack

variable {x x' : Locks} {i j : ℕ} {t t' u : Thread} {c : Choice} {f g : Frame} {rest : Thread}

theorem isChain_replace (hfg : ∀ hash pc, f = .load hash pc → ∃ pc', g = .load hash pc')
    (h : (f :: rest).IsChain Calls) : (g :: rest).IsChain Calls := by
  cases rest with
  | nil => exact .singleton g
  | cons e rest =>
    obtain ⟨hfe,hrest⟩ := List.isChain_cons_cons.mp h
    refine List.isChain_cons_cons.mpr ⟨?_,hrest⟩
    intro hash he
    obtain ⟨pc,hf⟩ := hfe hash he
    exact hfg hash pc hf

theorem isChain_push (hf : ∀ hash, f ≠ .run hash .loading) (h : (f :: rest).IsChain Calls) :
    (g :: f :: rest).IsChain Calls :=
  List.isChain_cons_cons.mpr ⟨fun hash he => absurd he (hf hash),h⟩

theorem Accurate.mono {bundles : List String} {hash : String} (h : Accurate bundles f)
    (hf : writeFrame f = false) : Accurate (hash :: bundles) f := by
  cases f with
  | load h' pc => cases pc <;> trivial
  | run h' pc => cases pc <;> first | trivial | exact List.mem_cons_of_mem _ h

theorem cached_return {ok : Bool} {hash : String} {pc : LoadPc} (hin : ok = true → hash ∈ x.bundles)
    (hheld : Held x i (returnTo ok rest)) (haccurate : ∀ f ∈ rest, Accurate x.bundles f)
    (hcalls : (.load hash pc :: rest).IsChain Calls) : Cached x i (returnTo ok rest) := by
  refine ⟨hheld,?_,?_⟩
  · intro f hf
    unfold returnTo at hf
    split at hf
    · rename_i hash' r
      split at hf
      · rename_i hok
        obtain ⟨pc',hpc⟩ := (List.isChain_cons_cons.mp hcalls).1 hash' rfl
        cases hpc
        rcases List.mem_cons.mp hf with rfl | hold
        · exact hin hok
        · exact haccurate f (List.mem_cons_of_mem _ hold)
      · exact haccurate f (List.mem_cons_of_mem _ hf)
    · exact haccurate f hf
  · have hrest := hcalls.tail
    unfold returnTo
    split
    · split
      · exact isChain_replace (fun _ _ h => by cases h) hrest
      · exact hrest.tail
    · exact hrest

theorem cached_exec (h : Cached x i t) (hstep : LockStep x i x' t c t') : Cached x' i t' := by
  have hheld := held_exec h.held hstep
  obtain ⟨hold,haccurate,hcalls⟩ := h
  have htail : ∀ f ∈ t.tail, Accurate x.bundles f := fun f hf => haccurate f (List.mem_of_mem_tail hf)
  -- The frame on top moves on within the same load.
  have hmove : ∀ hash pc pc' (rest : Thread), t = .load hash pc :: rest →
      t' = .load hash pc' :: rest → x'.bundles = x.bundles → Accurate x.bundles (.load hash pc') →
      Cached x' i t' := by
    rintro hash pc pc' rest rfl rfl hb htop
    refine ⟨hheld,?_,isChain_replace (fun h p hp => ⟨pc',by cases hp; rfl⟩) hcalls⟩
    rw [hb]
    exact List.forall_mem_cons.mpr ⟨htop,htail⟩
  cases hstep with
  | read hash rest hfree hx => exact hmove _ _ _ _ rfl rfl (by rw [hx]) trivial
  | miss hash rest hout hx => exact hmove _ _ _ _ rfl rfl (by rw [hx]) trivial
  | write hash rest hfree hempty hx => exact hmove _ _ _ _ rfl rfl (by rw [hx]) trivial
  | missAgain hash rest hout hx => exact hmove _ _ _ _ rfl rfl (by rw [hx]) hout
  | loadPython hash rest hfree hx =>
    exact hmove _ _ _ _ rfl rfl (by rw [hx]) (haccurate (.load hash .python) List.mem_cons_self)
  | imported hash rest ok hx =>
    refine hmove _ _ _ _ rfl rfl (by rw [hx]) ?_
    cases ok with
    | true => exact haccurate (.load hash .importing) List.mem_cons_self
    | false => trivial
  | hit hash rest hin hx =>
    subst hx
    exact cached_return (fun _ => hin) hheld htail hcalls
  | hitAgain hash rest hin hx =>
    subst hx
    exact cached_return (fun _ => hin) hheld htail hcalls
  | giveUp hash rest hx =>
    subst hx
    exact cached_return (fun h => by cases h) hheld htail hcalls
  | insert hash rest hx =>
    subst hx
    refine cached_return (fun _ => List.mem_cons_self) hheld ?_ hcalls
    intro f hf
    refine (htail f hf).mono ?_
    -- The writer lock is held once, by the frame on top.
    have hw1 := count_toList_le_one x.writer i
    have hcount := (held_cons.mp hold).2.2.2.1
    have hnone : rest.countP writeFrame = 0 := by
      simp only [writeFrame,Bool.toNat_true] at hcount
      omega
    simpa using List.countP_eq_zero.mp hnone f hf
  | loadCallback hash rest hx =>
    subst hx
    refine ⟨hheld,List.forall_mem_cons.mpr ⟨trivial,haccurate⟩,isChain_push (by simp) hcalls⟩
  | runCallback hash rest hx =>
    subst hx
    refine ⟨hheld,List.forall_mem_cons.mpr ⟨trivial,haccurate⟩,isChain_push (by simp) hcalls⟩
  | runPython hash rest hfree hx =>
    subst hx
    refine ⟨hheld,List.forall_mem_cons.mpr ⟨haccurate (.run hash .python) List.mem_cons_self,htail⟩,
      isChain_replace (fun _ _ h => by cases h) hcalls⟩
  | ran hash rest ok hx =>
    subst hx
    exact ⟨hheld,htail,hcalls.tail⟩

/-- The cache grows with an insertion only. -/
theorem bundles_step (hstep : LockStep x i x' t c t') : x'.bundles = x.bundles ∨
    ∃ hash rest, t = .load hash .insert :: rest ∧ x'.bundles = hash :: x.bundles := by
  cases hstep with
  | insert hash rest hx =>
    subst hx
    exact .inr ⟨hash,rest,rfl,rfl⟩
  | _ =>
    subst_vars
    exact .inl rfl

theorem cached_other (h : Cached x i t) (hstep : LockStep x i x' t c t') (hj : j ≠ i)
    (hu : Cached x j u) : Cached x' j u := by
  refine ⟨held_other h.held hstep hj hu.held,?_,hu.calls⟩
  rcases bundles_step hstep with hb | ⟨hash,rest,rfl,hb⟩
  · rw [hb]
    exact hu.accurate
  · rw [hb]
    intro f hf
    refine (hu.accurate f hf).mono ?_
    have hmine : 0 < x.writer.toList.count i := by simp [h.held.writer,writeFrame]
    have hnone : u.countP writeFrame = 0 :=
      hu.held.writer.symm.trans (count_other_of_held hmine hj)
    simpa using List.countP_eq_zero.mp hnone f hf

theorem mem_inserting {hash : String} : hash ∈ inserting t ↔ ∃ rest, t = .load hash .insert :: rest := by
  unfold inserting
  split <;> simp_all [eq_comm]

theorem inserting_suspended (h : ∀ f ∈ t, suspended f = true) : inserting t = [] := by
  unfold inserting
  split
  · cases h _ List.mem_cons_self
  · rfl

theorem inserting_returnTo {ok : Bool} (h : ∀ f ∈ rest, suspended f = true) :
    inserting (returnTo ok rest) = [] := by
  unfold returnTo
  split
  · split
    · rfl
    · exact inserting_suspended fun f hf => h f (List.mem_cons_of_mem _ hf)
  · exact inserting_suspended h

/-- What an import adds, its thread puts into the cache. -/
theorem available_exec (h : Held x i t) (hstep : LockStep x i x' t c t') (hash : String) :
    hash ∈ x'.bundles ∨ hash ∈ inserting t' ↔
      (hash ∈ x.bundles ∨ hash ∈ inserting t) ∨ hash ∈ importedBy t c := by
  cases hstep with
  | imported own rest ok hx =>
    subst hx
    cases ok <;> simp [inserting,importedBy]
  | insert own rest hx =>
    subst hx
    have htail : ∀ f ∈ rest, suspended f = true := h.tail
    rw [inserting_returnTo htail]
    simp [inserting,importedBy,or_comm]
  | hit own rest hin hx | hitAgain own rest hin hx | giveUp own rest hx =>
    subst hx
    have htail : ∀ f ∈ rest, suspended f = true := h.tail
    rw [inserting_returnTo htail]
    simp [inserting,importedBy]
  | ran own rest ok hx =>
    subst hx
    rw [inserting_suspended (t := t') h.tail]
    simp [inserting,importedBy]
  | _ =>
    subst_vars
    simp [inserting,importedBy]

end Stack

section Runs

variable {s s' : State Locks Thread} {bundles : List String}

/-- The cache has no entry twice, and the calls are right about it. -/
structure Loaded (s : State Locks Thread) : Prop where
  once : s.shared.bundles.Nodup
  calls : Each CachedAt s

theorem Loaded.cached {i : ℕ} {t : Thread} (h : Loaded s) (ht : s.threads[i]? = some t) :
    Cached s.shared i t := by
  simpa [CachedAt,ht] using h.calls i

theorem Loaded.writers_eq {i j : ℕ} {t u : Thread} {f g : Frame} (h : Loaded s)
    (ht : s.threads[i]? = some t) (hu : s.threads[j]? = some u) (hf : f ∈ t) (hg : g ∈ u)
    (hwf : writeFrame f = true) (hwg : writeFrame g = true) : i = j := by
  have hcount : ∀ (k : ℕ) (v : Thread) (e : Frame), s.threads[k]? = some v → e ∈ v →
      writeFrame e = true → 0 < s.shared.writer.toList.count k := by
    intro k v e hv he hw
    rw [(h.cached hv).held.writer]
    exact List.countP_pos_iff.mpr ⟨e,he,hw⟩
  by_contra hne
  have hzero := count_other_of_held (hcount i t f ht hf hwf) (Ne.symm hne)
  exact (hcount j u g hu hg hwg).ne' hzero

theorem loaded_step {move : Move Thread Choice} (h : Loaded s)
    (hs : system.machine.step s move = some s') : Loaded s' := by
  cases move with
  | arrive t =>
    obtain ⟨hentry,rfl⟩ := step_arrive hs
    refine ⟨h.once,h.calls.arrive fun j hj => ?_⟩
    simp only [system,BundleLocks.entry] at hentry
    have hheld := hj.held
    split at hentry
    · rename_i hash
      refine ⟨⟨by simp,by simp,hheld.readers,hheld.writer,hheld.python⟩,?_,.singleton _⟩
      simp [Accurate]
    · rename_i hash hash'
      obtain rfl : hash = hash' := of_decide_eq_true hentry
      refine ⟨⟨by simp [suspended],by simp [loadFrame],hheld.readers,hheld.writer,hheld.python⟩,?_,?_⟩
      · simp [Accurate]
      · exact List.isChain_pair.mpr fun h he => by cases he; exact ⟨_,rfl⟩
    · cases hentry
  | run i c =>
    obtain ⟨t,t',new,ht⟩ := step_run hs
    have hi := h.cached ht.thread
    obtain ⟨hstep,rfl⟩ := exec_step ht.exec
    have hcalls := h.calls.turn ht (fun _ => cached_exec hi hstep)
      (fun j o hj _ ho => cached_other hi hstep hj ho) fun j u hu => absurd hu List.not_mem_nil
    rcases bundles_step hstep with hb | ⟨hash,rest,rfl,hb⟩
    · exact ⟨hb ▸ h.once,hcalls⟩
    · have hnew : hash ∉ s.shared.bundles := hi.accurate _ List.mem_cons_self
      exact ⟨hb ▸ List.nodup_cons.mpr ⟨hnew,h.once⟩,hcalls⟩

theorem loaded_initial (hb : bundles.Nodup) : Loaded (initial bundles) := by
  refine ⟨hb,fun j => ?_⟩
  exact ⟨BundleDeadlock.heldAt_initial bundles j,by simp [initial],by simp [initial]⟩

theorem available_step {move : Move Thread Choice} (h : Loaded s)
    (hs : system.machine.step s move = some s') (hash : String) :
    Available s' hash ↔ Available s hash ∨ hash ∈ imported s move := by
  cases move with
  | arrive t =>
    obtain ⟨hentry,rfl⟩ := step_arrive hs
    have hnone : inserting t = [] := by
      simp only [system,BundleLocks.entry] at hentry
      split at hentry <;> first | rfl | cases hentry
    simp [Available,imported,hnone]
  | run i c =>
    obtain ⟨t,t',new,ht⟩ := step_run hs
    obtain ⟨hstep,rfl⟩ := exec_step ht.exec
    have hmine := available_exec (h.cached ht.thread).held hstep hash
    have himported : imported s (.run i c) = importedBy t c := by simp [imported,ht.thread]
    rw [himported]
    constructor
    · rintro (hin | ⟨u,hu,hin⟩)
      · exact (hmine.mp (.inl hin)).imp_left fun h =>
          h.imp_right fun h => ⟨t,List.mem_of_getElem? ht.thread,h⟩
      · obtain ⟨j,hj⟩ := List.mem_iff_getElem?.mp hu
        rcases ht.thread_cases hj with ⟨-,rfl⟩ | ⟨-,hold⟩ | ⟨-,hnew⟩
        · exact (hmine.mp (.inr hin)).imp_left fun h =>
            h.imp_right fun h => ⟨t,List.mem_of_getElem? ht.thread,h⟩
        · exact .inl (.inr ⟨u,List.mem_of_getElem? hold,hin⟩)
        · cases hnew
    · have hself : hash ∈ s'.shared.bundles ∨ hash ∈ inserting t' → Available s' hash :=
        fun h => h.imp_right fun h => ⟨t',List.mem_of_getElem? ht.self,h⟩
      rintro ((hin | ⟨u,hu,hin⟩) | hin)
      · exact hself (hmine.mpr (.inl (.inl hin)))
      · obtain ⟨j,hj⟩ := List.mem_iff_getElem?.mp hu
        by_cases hji : j = i
        · subst hji
          obtain rfl : u = t := Option.some.inj (hj.symm.trans ht.thread)
          exact hself (hmine.mpr (.inl (.inr hin)))
        · exact .inr ⟨u,List.mem_of_getElem? (ht.kept hji hj),hin⟩
      · exact hself (hmine.mpr (.inr hin))

/-- A bundle whose import ends is neither in the cache nor on its way there. -/
theorem not_available_of_imported {move : Move Thread Choice} {hash : String} (h : Loaded s)
    (hin : hash ∈ imported s move) : imported s move = [hash] ∧ ¬ Available s hash := by
  cases move with
  | arrive t => cases hin
  | run i c =>
    cases ht : s.threads[i]? with
    | none => simp [imported,ht] at hin
    | some t =>
      simp only [imported,ht,Option.map_some,Option.getD_some] at hin ⊢
      unfold importedBy at hin ⊢
      split at hin
      · rename_i own rest
        obtain rfl : hash = own := List.mem_singleton.mp hin
        refine ⟨rfl,?_⟩
        rintro (hcached | ⟨u,hu,hins⟩)
        · exact (h.cached ht).accurate (.load hash .importing) List.mem_cons_self hcached
        · obtain ⟨rest',rfl⟩ := mem_inserting.mp hins
          obtain ⟨j,hj⟩ := List.mem_iff_getElem?.mp hu
          obtain rfl := h.writers_eq ht hj List.mem_cons_self List.mem_cons_self rfl rfl
          cases ht.symm.trans hj
      · cases hin

/-- The bundles available are those of the start and those imported since. -/
structure Counted (bundles : List String) (s : State Locks Thread) (loaded : List String) :
    Prop where
  calls : Loaded s
  once : (bundles ++ loaded).Nodup
  available : ∀ hash, Available s hash ↔ hash ∈ bundles ++ loaded

theorem counted_step {move : Move Thread Choice} {loaded : List String}
    (h : Counted bundles s loaded) (hs : system.machine.step s move = some s') :
    Counted bundles s' (loaded ++ imported s move) := by
  refine ⟨loaded_step h.calls hs,?_,fun hash => ?_⟩
  · rcases List.eq_nil_or_concat (imported s move) with hnone | ⟨front,hash,hsome⟩
    · simpa [hnone] using h.once
    · have hin : hash ∈ imported s move := by simp [hsome]
      obtain ⟨hone,hnew⟩ := not_available_of_imported h.calls hin
      rw [hone,← List.append_assoc,← List.concat_eq_append,List.nodup_concat]
      exact ⟨fun hin => hnew ((h.available hash).mpr hin),h.once⟩
  · rw [available_step h.calls hs,h.available,← List.append_assoc,List.mem_append (s := bundles ++ loaded)]

theorem cached_along {moves : List (Move Thread Choice)}
    (hrun : system.machine.run s moves = some s') : s.shared.bundles <:+ s'.shared.bundles := by
  refine StepMachine.invariant_of_step (I := fun u => s.shared.bundles <:+ u.shared.bundles)
    ?_ (List.suffix_refl _) hrun
  intro u move u' hu hs
  cases move with
  | arrive t =>
    obtain ⟨-,rfl⟩ := step_arrive hs
    exact hu
  | run i c =>
    obtain ⟨t,t',new,ht⟩ := step_run hs
    rcases bundles_step (exec_step ht.exec).1 with hb | ⟨hash,rest,-,hb⟩
    · exact hb ▸ hu
    · exact hb ▸ hu.trans (List.suffix_cons _ _)

/-- In every interleaving of loads, calls and callbacks no bundle of the start is loaded again
and none is loaded twice; the cache holds loaded bundles only, none twice, and drops none. One
thread at a time imports, and only a bundle that is not cached; a bundle function runs only on a
cached one. -/
theorem bundle_loaded_once (bundles : List String) (hb : bundles.Nodup)
    (moves moves' : List (Move Thread Choice)) (s s' : State Locks Thread)
    (h : system.machine.run (initial bundles) moves = some s)
    (h' : system.machine.run s moves' = some s') :
    let loaded := system.machine.log imported (initial bundles) moves
    (bundles ++ loaded).Nodup ∧ s.shared.bundles ⊆ bundles ++ loaded ∧
    s.shared.bundles.Nodup ∧ s.shared.bundles <:+ s'.shared.bundles ∧
    (∀ (i : ℕ) t hash, s.threads[i]? = some t → Frame.load hash .importing ∈ t → hash ∉ s.shared.bundles) ∧
    (∀ (i j : ℕ) t u hash hash', s.threads[i]? = some t → s.threads[j]? = some u →
      Frame.load hash .importing ∈ t → Frame.load hash' .importing ∈ u → i = j) ∧
    ∀ (i : ℕ) t hash, s.threads[i]? = some t → Frame.run hash .running ∈ t → hash ∈ s.shared.bundles := by
  have hstart : Counted bundles (initial bundles) [] :=
    ⟨loaded_initial hb,by simpa using hb,fun hash => by simp [Available,initial]⟩
  have hcounted := StepMachine.log_invariant (P := fun _ _ => True)
    (fun _ _ _ _ hs _ hstep => counted_step hs hstep) hstart (StepMachine.meets_true _ moves) h
  rw [List.nil_append] at hcounted
  refine ⟨hcounted.once,fun hash hin => (hcounted.available hash).mp (.inl hin),
    hcounted.calls.once,cached_along h',?_,?_,?_⟩
  · exact fun i t hash ht hin => (hcounted.calls.cached ht).accurate _ hin
  · exact fun i j t u hash hash' ht hu hin hin' => hcounted.calls.writers_eq ht hu hin hin' rfl rfl
  · exact fun i t hash ht hin => (hcounted.calls.cached ht).accurate _ hin

/-- Both threads have missed the bundle in the cache, and the import of one serves both. -/
theorem bundle_loaded_once_racingCalls :
    ∃ s, system.machine.run (initial []) BundleDeadlock.racingCalls = some s ∧
      system.machine.log imported (initial []) BundleDeadlock.racingCalls = ["a"] ∧
      (system.machine.log imported (initial []) BundleDeadlock.racingCalls).Nodup ∧
      s.shared.bundles = ["a"] :=
  ⟨_,rfl,rfl,(bundle_loaded_once [] List.nodup_nil BundleDeadlock.racingCalls [] _ _ rfl rfl).1,rfl⟩

end Runs

end BundleLocks
end JobControllerClient
