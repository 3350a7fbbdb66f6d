import JobControllerClient.BundleDb

/-! Whole loads and calls, with Python code that calls back while they run. -/
namespace JobControllerClient
namespace BundleCalls

open PythonApi PythonApi.Python BundleManager BundleDb

variable {fromStr : String → Option Json} {toText : Json → String} {root : String} {x y : Python}

/-- A failed load keeps nothing of its own. A successful one has the sub-interpreter, the three
modules and the dictionary of globals. What callbacks noted stays. -/
theorem load_effect (fromStr : String → Option Json) (toText : Json → String) (root hash : String)
    (n : ℕ) (hx : Idle x) (cs rest : List Choice) (r : Except String Bundle) (y : Python)
    (h : Program.exec (perform (methods fromStr toText root) n) (new root hash) x cs =
      some (r,y,rest)) : ∃ z, LoadEffect x r z ∧ Ran z y :=
  (new_spec hx).exec methods_sound h

/-- What Python answers to a load that succeeds; `bundle` imports `_bundledb` and prints a line. -/
def loadAnswers : List Choice :=
  [.go,.go,.go,.go,.go,.go,.go,.state 11,.go,.go,.go,.go,.state 16,.go,.obj 18,.obj 19,.flag true,
    .obj 21,.obj 22,.go,.go,.obj 25,.flag true,.obj 27,.obj 28,.obj 29,.flag true,.go,
    .python [(.pyInitBundledb,0,[.obj 70,.obj 71,.flag true,.go,.go,.go,.go]),
      (.writeLog,90,[.obj 1,.obj 91,.text "ready",.go])] (.obj 32),.go,.go,.go,.go,.go]

theorem load_effect_initial : ∃ b z y, LoadEffect (initial 1) (.ok b) z ∧ Ran z y ∧
    y.states = [11,1] ∧ Multiset.card y.owned = 4 ∧ y.errorObjects = [("h",71)] := by
  have hrun : (Program.exec (perform (methods sampleJob (fun _ => "job") "bundles") 1)
      (new "bundles" "h") (initial 1) loadAnswers).any (fun s => s.1.isOk && decide
        (s.2.1.states = [11,1] ∧ Multiset.card s.2.1.owned = 4 ∧ s.2.1.errorObjects = [("h",71)])) =
      true := by
    decide +kernel
  obtain ⟨⟨r,y,rest⟩,hexec,hy⟩ := (Option.any_eq_true _ _).mp hrun
  obtain ⟨z,hz,hR⟩ := load_effect sampleJob (fun _ => "job") "bundles" "h" 1 (idle_initial 1)
    loadAnswers rest r y hexec
  cases r with
  | error e => cases hy
  | ok b => exact ⟨b,z,y,hz,hR,of_decide_eq_true (Bool.and_eq_true_iff.mp hy).2⟩

theorem settled_ran (hx : Settled x) (h : Ran x y) : Settled y := by
  have hstored := h.stored hx.idle.stored
  obtain ⟨g,hg,rfl⟩ := h
  obtain ⟨hidle,hhashes,hinterps,hstates,howned,⟨made,hmade,hsub,hkept⟩,hunlocked,hfaults⟩ := hx
  refine ⟨⟨hstored,hidle.current,hidle.gil,hidle.error,hidle.bundle,hidle.mutex,hidle.saved,hidle.main⟩,
    hhashes,hinterps,hstates,howned,⟨g.made ++ made,?_,?_,?_⟩,hunlocked,hfaults⟩
  · rw [List.map_append,List.nodup_append]
    refine ⟨hg.nodup,hmade,?_⟩
    rintro k hk k' hk' rfl
    obtain ⟨e,he,rfl⟩ := List.mem_map.mp hk
    obtain ⟨e',he',heq⟩ := List.mem_map.mp hk'
    exact hg.fresh e he (List.mem_map.mpr ⟨e',hsub he',heq⟩)
  · exact List.append_subset.mpr ⟨List.Subset.trans hg.made (List.subset_append_left _ _),
      List.Subset.trans hsub (List.subset_append_right _ _)⟩
  · simp [Python.grow,hkept,← Multiset.coe_add,add_assoc]

/-- Whatever Python answers and calls back, any sequence of calls ends with the interpreter idle,
one sub-interpreter per cached bundle, and the references of the cached bundles and of the table of
exceptions; the only breaches of the rules of the C API are a tear-down without the GIL and an
exception printed where there is none. -/
theorem bundle_calls_settled (fromStr : String → Option Json) (toText : Json → String)
    (root : String) (n : ℕ) (mainTs : ThreadState) (calls : List BundleCall)
    (cs rest : List Choice) (y : Python)
    (h : Program.exec (perform (methods fromStr toText root) n)
      (Program.each (BundleCall.perform fromStr root) calls) (initial mainTs) cs =
      some ((),y,rest)) :
    Settled y := by
  have hcall : ∀ (c : BundleCall) (z : Python) (l : List Entry), Settled z →
      Serves (c.perform fromStr root) (fun _ w _ => Settled w) z l := by
    intro c z l hz
    refine ((c.perform_spec hz).serves (.refl z)).mono ?_
    rintro _ v m ⟨w,hw,hR,-⟩
    exact settled_ran hw.1 hR
  have hall : Serves (Program.each (BundleCall.perform fromStr root) calls) (fun _ z _ => Settled z)
      (initial mainTs) [] :=
    Program.wp_each (I := fun _ (s : Python × List Entry) => Settled s.1)
      (fun _ c s hs => hcall c s.1 s.2 hs) calls [] (settled_initial mainTs)
  exact hall.exec methods_sound h

/-- What Python answers to a call that returns an object, with a job saved on the way. -/
def callAnswers (table : List Choice) : List Choice :=
  [.go,.state 40,.go,.obj 42,.obj 43,.obj 44,.flag true,.obj 46,.go,.go,.go,.obj 50,.flag true,
    .obj 52,.flag true,.obj 54,.flag true,.go,
    .python [(.createOrUpdateJob,60,createAnswers table)] (.obj 57),.go,.go,.go,.go,.go,.go,.go,.go]

theorem bundle_calls_settled_twice : ∃ y, Settled y ∧ y.states = [11,1] ∧ y.cache.length = 1 ∧
    y.errorObjects = [("h",71)] := by
  let calls : List BundleCall := [⟨.bool,"status","h","[]",""⟩,⟨.bool,"cancel","h","[]",""⟩]
  -- The exception object is the one that the import noted.
  let answers : List Choice :=
    .go :: .go :: loadAnswers ++ .go :: callAnswers [.go] ++ .go :: callAnswers [.go]
  have hrun : (Program.exec (perform (methods sampleJob (fun _ => "job") "bundles") 2)
      (Program.each (BundleCall.perform sampleJob "bundles") calls) (initial 1) answers).any
        (fun s : Unit × Python × List Choice => decide (s.2.1.states = [11,1] ∧
          s.2.1.cache.length = 1 ∧ s.2.1.errorObjects = [("h",71)])) = true := by
    decide +kernel
  obtain ⟨⟨_,y,rest⟩,hexec,hy⟩ := (Option.any_eq_true _ _).mp hrun
  exact ⟨y,bundle_calls_settled sampleJob (fun _ => "job") "bundles" 2 1 calls answers rest y hexec,
    of_decide_eq_true hy⟩

/-- A call of a cached bundle leaves the interpreter as it was, up to what its callbacks noted,
whatever Python answers. -/
theorem cached_call_unchanged (fromStr : String → Option Json) (toText : Json → String)
    (root : String) (n : ℕ) (c : BundleCall) (hx : Settled x) (hc : c.hash ∈ x.cache.map Prod.fst)
    (cs rest : List Choice) (y : Python)
    (h : Program.exec (perform (methods fromStr toText root) n) (c.perform fromStr root) x cs =
      some ((),y,rest)) : Ran x y := by
  obtain ⟨z,hz,hR⟩ := (c.perform_spec hx).exec methods_sound h
  rwa [hz.2 hc] at hR

theorem settled_oneBundle : Settled oneBundle where
  idle := ⟨⟨by decide,by decide⟩,rfl,rfl,rfl,rfl,rfl,.inr rfl,by decide⟩
  hashes := by decide
  interps := by decide
  states := rfl
  owned := rfl
  kept := ⟨[],by decide,by decide,by decide⟩
  unlocked := rfl
  faults := by decide

theorem cached_call_unchanged_cancel : ∃ y, Ran oneBundle y ∧ y.errorObjects = [("h",75)] ∧
    y.kept = 75 ::ₘ oneBundle.kept ∧ y.owned = oneBundle.owned := by
  let c : BundleCall := ⟨.bool,"cancel","h","[]",""⟩
  let answers : List Choice := .go :: callAnswers newException75
  have hrun : (Program.exec (perform (methods sampleJob (fun _ => "job") "bundles") 2)
      (c.perform sampleJob "bundles") oneBundle answers).any
        (fun s : Unit × Python × List Choice => decide (s.2.1.errorObjects = [("h",75)] ∧
          s.2.1.kept = 75 ::ₘ oneBundle.kept ∧ s.2.1.owned = oneBundle.owned)) = true := by
    decide +kernel
  obtain ⟨⟨_,y,rest⟩,hexec,hy⟩ := (Option.any_eq_true _ _).mp hrun
  exact ⟨y,cached_call_unchanged sampleJob (fun _ => "job") "bundles" 2 c settled_oneBundle
    (by decide) answers rest y hexec,of_decide_eq_true hy⟩

end BundleCalls
end JobControllerClient
