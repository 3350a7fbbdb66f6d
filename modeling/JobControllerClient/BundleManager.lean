import JobControllerClient.BundleInterface
import JobControllerClient.Foundation.FileSystem
import JobControllerClient.Values

/-! `bundle_manager.rs` with the constructor of `bundle_interface.rs`: sub-interpreters,
thread scopes and the cache. Between two calls nothing of the interpreter is attached to the
calling thread. -/
namespace JobControllerClient
namespace BundleManager

open PythonApi PythonApi.Python BundleInterface

def threadScopeNew (interp : ThreadState) : Py (Except String ThreadState) := do
  match ← threadStateNew interp with
  | none => return .error "PyThreadState_New failed"
  | some ts =>
    restoreThread ts
    return .ok ts

def threadScopeDrop (ts : ThreadState) : Py Unit := do
  threadStateClear ts
  threadStateDeleteCurrent
  return

def creationFailed : String := "Py_NewInterpreter failed"

/-- The thread state that was current is restored in both cases. -/
def subInterpreterNew : Py (Except String ThreadState) := do
  let savedTs ← threadStateGet
  match ← newInterpreter with
  | none =>
    let _ ← threadStateSwap savedTs
    return .error creationFailed
  | some ts =>
    let _ ← threadStateSwap savedTs
    return .ok ts

def subInterpreterDrop (ts : ThreadState) : Py Unit := do
  let oldTs ← threadStateSwap (some ts)
  endInterpreter ts
  let _ ← threadStateSwap oldTs
  return

def restoreMain : Py Unit := do
  match ← getState with
  | none =>
    let ts ← getMainTs
    restoreThread ts
    setState none
    return
  | some ts =>
    restoreThread ts
    setState none
    return

def saveMain : Py Unit := do
  match ← getState with
  | none =>
    let ts ← saveThread
    setState ts
    return
  | some _ => return

def pathMissing : String := "Failed to get sys.path"

def appendBundlePathToSysPath (pPath : Option Obj) (bundlePath : String) : Py (Except String Unit) :=
  match pPath with
  | none => do
    errPrint
    return .error pathMissing
  | some pPath =>
    match cString bundlePath with
    | none => return .error "Bundle path contains NUL byte"
    | some cBundlePath => do
      match ← unicodeFromString cBundlePath with
      | none =>
        errPrint
        return .error "Failed to create bundle path string"
      | some pBundlePath =>
        if ← listAppend pPath pBundlePath then
          decRef pBundlePath
          return .ok ()
        else
          errPrint
          decRef pBundlePath
          return .error "Failed to append bundle path to sys.path"

/-- The references that a `BundleInterface` keeps. -/
structure Modules where
  bundle : Obj
  json : Obj
  traceback : Obj

/-- The last import; `p_global` is not released when it succeeds. -/
def importBundleModule (pGlobal jsonModule tracebackModule : Obj) :
    Py (Except String Modules) := do
  let pBundleModule ← importModule "bundle"
  if ← failed pBundleModule then
    errPrint
    decRef pGlobal
    decRef jsonModule
    decRef tracebackModule
    xdecRef pBundleModule
    return .error "Failed to load bundle module"
  else return .ok ⟨pBundleModule.getD 0,jsonModule,tracebackModule⟩

def importFromPath (bundlePath : String) (pGlobal jsonModule tracebackModule : Obj)
    (pPath : Option Obj) : Py (Except String Modules) := do
  match ← appendBundlePathToSysPath pPath bundlePath with
  | .error e =>
    decRef pGlobal
    decRef jsonModule
    decRef tracebackModule
    return .error e
  | .ok _ => importBundleModule pGlobal jsonModule tracebackModule

def importModules (bundlePath : String) (pGlobal : Obj) : Py (Except String Modules) := do
  match ← importModule "json" with
  | none =>
    errPrint
    decRef pGlobal
    return .error "Failed to import json module"
  | some jsonModule =>
    if ← dictSetItemString pGlobal "json" jsonModule then
      match ← importModule "traceback" with
      | none =>
        errPrint
        decRef jsonModule
        decRef pGlobal
        return .error "Failed to import traceback module"
      | some tracebackModule =>
        let pPath ← sysGetObject "path"
        importFromPath bundlePath pGlobal jsonModule tracebackModule pPath
    else
      errPrint
      decRef jsonModule
      decRef pGlobal
      return .error "Failed to set json module in globals dict"

def importBundle (bundlePath : String) : Py (Except String Modules) := do
  match ← dictNew with
  | none =>
    errPrint
    return .error "Failed to create global dict"
  | some pGlobal =>
    let builtins ← getBuiltins
    if ← dictSetItemString pGlobal "__builtins__" builtins then
      match ← dictNew with
      | none =>
        errPrint
        decRef pGlobal
        return .error "Failed to create local dict"
      | some pLocal =>
        match ← runString pGlobal pLocal with
        | none =>
          errPrint
          decRef pGlobal
          decRef pLocal
          return .error "Failed to install stdout/stderr redirection"
        | some result =>
          decRef result
          decRef pLocal
          importModules bundlePath pGlobal
    else
      errPrint
      decRef pGlobal
      return .error "Failed to set __builtins__ in globals dict"

/-- The scope is dropped before the interpreter. -/
def loadInScope (bundlePath hash : String) (interp : ThreadState) : Py (Except String Bundle) := do
  match ← threadScopeNew interp with
  | .error e =>
    subInterpreterDrop interp
    return .error e
  | .ok scope =>
    match ← importBundle bundlePath with
    | .error e =>
      threadScopeDrop scope
      subInterpreterDrop interp
      return .error e
    | .ok modules =>
      threadScopeDrop scope
      return .ok ⟨interp,modules.bundle,modules.json,modules.traceback,hash⟩

def loadInterpreter (bundlePath hash : String) : Py (Except String Bundle) := do
  restoreMain
  match ← subInterpreterNew with
  | .error e =>
    saveMain
    return .error e
  | .ok interp =>
    saveMain
    loadInScope bundlePath hash interp

/-- `Path::new(root).join(hash)` -/
def joinPath (root hash : String) : String :=
  String.ofList (TreePath.join root.toList hash.toList)

/-- `BundleInterface::new`, under `PYTHON_MUTEX` and a `ThreadBundleGuard`. -/
def new (root hash : String) : Py (Except String Bundle) := do
  lockPython
  setCurrentThreadBundle hash
  let result ← loadInterpreter (joinPath root hash) hash
  clearCurrentThreadBundle
  unlockPython
  return result

def loadBundle (root hash : String) : Py (Except String Bundle) := do
  match ← lookupBundle hash with
  | some bundle => return .ok bundle
  | none =>
    match ← lookupBundle hash with
    | some bundle => return .ok bundle
    | none =>
      match ← new root hash with
      | .error e => return .error e
      | .ok bundle =>
        insertBundle hash bundle
        return .ok bundle

/-- What distinguishes the `run_bundle_*` functions. -/
structure Conversion (β : Type) where
  error : String → β
  none : β
  convert : Bundle → Obj → Py β

def finish {β : Type} (conversion : Conversion β) (b : Bundle) : Option Obj → Py β
  | none => return conversion.none
  | some obj => do
    let result ← conversion.convert b obj
    disposeObject (some obj)
    return result

/-- A call of a loaded bundle, under `PYTHON_MUTEX`. -/
def runLoaded {β : Type} (conversion : Conversion β) (functionName details jobData : String)
    (b : Bundle) : Py β := do
  lockPython
  match ← threadScopeNew b.interp with
  | .error e =>
    unlockPython
    return conversion.error s!"Failed to create thread scope: {e}"
  | .ok scope =>
    let obj ← run b functionName details jobData
    let result ← finish conversion b obj
    threadScopeDrop scope
    unlockPython
    return result

def runBundle {β : Type} (conversion : Conversion β) (root functionName hash details jobData : String) :
    Py β := do
  match ← loadBundle root hash with
  | .error e => return conversion.error s!"Failed to load bundle {hash}: {e}"
  | .ok b => runLoaded conversion functionName details jobData b

/-- The escapes of `serde_json` in a string. -/
def escape (c : Char) : String :=
  if c = '"' then "\\\""
  else if c = '\\' then "\\\\"
  else if c = Char.ofNat 8 then "\\b"
  else if c = Char.ofNat 9 then "\\t"
  else if c = Char.ofNat 10 then "\\n"
  else if c = Char.ofNat 12 then "\\f"
  else if c = Char.ofNat 13 then "\\r"
  else if c.toNat < 32 then
    "\\u00" ++ String.ofList [Nat.digitChar (c.toNat / 16),Nat.digitChar (c.toNat % 16)]
  else String.singleton c

/-- `serde_json::json!({ "error": msg }).to_string()` -/
def errorText (msg : String) : String :=
  "\x7b\"error\":\"" ++ String.join (msg.toList.map escape) ++ "\"\x7d"

def runBundleString : (root functionName hash details jobData : String) → Py String :=
  runBundle ⟨errorText,"",fun _ obj => toStringPy (some obj)⟩

def runBundleUint64 : (root functionName hash details jobData : String) → Py UInt64 :=
  runBundle ⟨fun _ => 0,0,fun _ obj => toUint64 (some obj)⟩

def runBundleBool : (root functionName hash details jobData : String) → Py Bool :=
  runBundle ⟨fun _ => false,false,fun _ obj => return BundleInterface.toBool (some obj)⟩

/-- `fromStr` is the JSON parser. -/
def dumpResult (fromStr : String → Option Json) (b : Bundle) (obj : Obj) : Py Json := do
  match ← jsonDumps b (some obj) with
  | .ok s => return (fromStr s).getD .null
  | .error e => return .object [("error",.string s!"Failed to serialize result: {e}")]

def runBundleJson (fromStr : String → Option Json) :
    (root functionName hash details jobData : String) → Py Json :=
  runBundle ⟨fun _ => .null,.null,dumpResult fromStr⟩

section Import

variable {x : Python}

/-- `PySys_GetObject` gives NULL without an exception. -/
def printFaults (e : String) : List Fault := if e = pathMissing then [.noException] else []

def Abandoned (x : Python) (e : String) (y : Python) : Prop :=
  e ≠ creationFailed ∧ y = x.blame (printFaults e)

theorem abandoned_self {e : String} (he : e ≠ creationFailed) (hpath : e ≠ pathMissing) :
    Abandoned x e x := ⟨he,by rw [printFaults,if_neg hpath,blame_nil]⟩

def Appended (x : Python) : Except String Unit → Python → Prop
  | .error e, y => Abandoned x e y
  | .ok _, y => y = x

theorem appendBundlePathToSysPath_spec {pPath : Option Obj} {bundlePath : String} (hx : x.Ready)
    (hpath : ∀ o ∈ pPath, x.Live o) :
    Ensures (appendBundlePathToSysPath pPath bundlePath) (Appended x) x := by
  have hclear := clear_of_none hx.error
  cases pPath with
  | none => exact (ensures_errPrint_none hx).mpr ⟨by decide,by simp [printFaults]⟩
  | some pPath =>
    rw [appendBundlePathToSysPath]
    cases cString bundlePath with
    | none => exact abandoned_self (by decide) (by decide)
    | some cBundlePath =>
      refine ensures_new hx.1 (by simp [New.uses]) ?_ ?_
      · refine (ensures_errPrint (by simp [hx.1]) (by simp)).mpr ?_
        rw [raise_clear,hclear]
        exact abandoned_self (by decide) (by decide)
      intro pBundlePath
      refine ensures_put (by simp [hx.1]) (by simp [Put.uses,hpath pPath rfl]) ?_ ?_
      · refine (ensures_errPrint (by simp [hx.1]) (by simp)).mpr ?_
        refine (ensures_decRef (by simp [hx.1]) (by simp)).mpr ?_
        simp only [own_raise,own_clear,raise_clear,release_own_self,hclear]
        exact abandoned_self (by decide) (by decide)
      · exact (ensures_decRef (by simp [hx.1]) (by simp)).mpr release_own_self

/-- A failed import owns nothing. A successful one owns the three modules and the dictionary
of globals, which nothing keeps. -/
def Imported (x : Python) : Except String Modules → Python → Prop
  | .error e, y => ∃ objs, Abandoned (x.lends objs) e y
  | .ok m, y => ∃ objs pGlobal,
    y = ((((x.lends objs).own pGlobal).own m.json).own m.traceback).own m.bundle

@[simp] theorem imported_error {e : String} {objs : Finset Obj} :
    Imported x (.error e) (x.lends objs) ↔ e ≠ creationFailed ∧ e ≠ pathMissing := by
  constructor
  · rintro ⟨objs',he,hy⟩
    refine ⟨he,?_⟩
    rintro rfl
    have hfaults : x.faults = x.faults ++ [.noException] := congrArg Python.faults hy
    simp at hfaults
  · rintro ⟨he,hpath⟩
    exact ⟨objs,abandoned_self he hpath⟩

theorem importBundleModule_spec {pGlobal jsonModule tracebackModule : Obj} {objs : Finset Obj}
    (hx : x.Ready) :
    Ensures (importBundleModule pGlobal jsonModule tracebackModule) (Imported x)
      ((((x.lends objs).own pGlobal).own jsonModule).own tracebackModule) := by
  have hclear := clear_of_none hx.error
  refine ensures_new (by simp [hx.1]) (by simp [New.uses]) ?_ ?_
  · refine (ensures_errPrint (by simp [hx.1]) (by simp)).mpr ?_
    simp [hx.1,hclear,creationFailed,pathMissing]
  · intro pBundleModule
    refine (ensures_errOccurred (by simp [hx.1])).mpr ?_
    have hquiet : ((((((x.lends objs).own pGlobal).own jsonModule).own tracebackModule).own
        pBundleModule).error.isSome) = false := by
      simp only [own_error]
      exact congrArg Option.isSome hx.error
    rw [hquiet]
    exact ⟨objs,pGlobal,rfl⟩

theorem importFromPath_spec {bundlePath : String} {pGlobal jsonModule tracebackModule : Obj}
    {pPath : Option Obj} {objs : Finset Obj} (hx : x.Ready) (hpath : ∀ o ∈ pPath, o ∈ objs) :
    Ensures (importFromPath bundlePath pGlobal jsonModule tracebackModule pPath) (Imported x)
      ((((x.lends objs).own pGlobal).own jsonModule).own tracebackModule) := by
  refine (appendBundlePathToSysPath_spec (by simp [hx]) ?_).bind ?_
  · intro o ho
    simp [hpath o ho]
  intro r y hy
  cases r with
  | error e =>
    obtain ⟨he,rfl⟩ := hy
    have hgone : Imported x (.error e) ((x.lends objs).blame (printFaults e)) := ⟨objs,he,rfl⟩
    simpa [own_blame,hx.1] using hgone
  | ok u =>
    obtain rfl := hy
    exact importBundleModule_spec hx

theorem importModules_spec {bundlePath : String} {pGlobal : Obj} {objs : Finset Obj} (hx : x.Ready) :
    Ensures (importModules bundlePath pGlobal) (Imported x) ((x.lends objs).own pGlobal) := by
  have hclear := clear_of_none hx.error
  refine ensures_new (by simp [hx.1]) (by simp [New.uses]) ?_ ?_
  · simp [hx.1,hclear,creationFailed,pathMissing]
  intro jsonModule
  refine ensures_put (by simp [hx.1]) (by simp [Put.uses]) ?_ ?_
  · simp [hx.1,hclear,creationFailed,pathMissing]
  refine ensures_new (by simp [hx.1]) (by simp [New.uses]) ?_ ?_
  · simp [hx.1,hclear,creationFailed,pathMissing]
  intro tracebackModule
  refine ensures_sysGetObject (by simp [hx.1]) ?_ ?_
  · exact importFromPath_spec hx (by simp)
  · intro pPath
    simp only [own_lends,lends_lends]
    exact importFromPath_spec hx (by simp)

theorem importBundle_spec {bundlePath : String} (hx : x.Ready) :
    Ensures (importBundle bundlePath) (Imported x) x := by
  have hclear := clear_of_none hx.error
  refine ensures_new hx.1 (by simp [New.uses]) ?_ ?_
  · refine (ensures_errPrint (by simp [hx.1]) (by simp)).mpr ?_
    have hnone : x.lends ∅ = x.raise.clear := by
      rw [raise_clear,hclear]
      simp [lends]
    rw [← hnone]
    simp [creationFailed,pathMissing]
  intro pGlobal
  refine ensures_getBuiltins (by simp [hx.1]) fun builtins => ?_
  rw [own_lends]
  refine ensures_put (by simp [hx.1]) (by simp [Put.uses]) ?_ ?_
  · simp [hx.1,hclear,creationFailed,pathMissing]
  refine ensures_new (by simp [hx.1]) (by simp [New.uses]) ?_ ?_
  · simp [hx.1,hclear,creationFailed,pathMissing]
  intro pLocal
  refine ensures_new (by simp [hx.1]) (by simp [New.uses]) ?_ ?_
  · simp [hx.1,hclear,creationFailed,pathMissing]
  intro result
  refine (ensures_decRef (by simp [hx.1]) (by simp)).mpr ?_
  refine (ensures_decRef (by simp [hx.1]) (by simp)).mpr ?_
  rw [release_own_self,release_own_self]
  exact importModules_spec hx

end Import

section Threads

variable {x : Python}

theorem restoreMain_spec (hgil : x.gil = false) (hsaved : x.saved = none ∨ x.saved = some x.mainTs)
    (hmain : x.mainTs ∈ x.states) :
    Ensures restoreMain (fun _ y => y = (x.on x.mainTs).withSaved none) x := by
  refine ensures_getState.mpr ?_
  rcases hsaved with hs | hs <;> rw [hs]
  · refine ensures_getMainTs.mpr ((ensures_restoreThread hgil hmain).mpr ?_)
    exact ensures_setState.mpr rfl
  · exact (ensures_restoreThread hgil hmain).mpr (ensures_setState.mpr rfl)

theorem saveMain_spec (hx : x.Running) (hsaved : x.saved = none) :
    Ensures saveMain (fun _ y => y = x.off.withSaved x.current) x := by
  refine ensures_getState.mpr ?_
  rw [hsaved]
  exact (ensures_saveThread hx).mpr (ensures_setState.mpr rfl)

def Created (x : Python) : Except String ThreadState → Python → Prop
  | .error e, y => e = creationFailed ∧ y = x
  | .ok ts, y => ts ∉ x.states ∧ y = x.withStates (ts :: x.states)

theorem subInterpreterNew_spec (hx : x.Running) : Ensures subInterpreterNew (Created x) x := by
  refine (ensures_threadStateGet hx).mpr ?_
  have hback : ∀ y : Python, y.gil = true →
      (y.blame (if y.gil then [] else [.noGil])).withCurrent x.current = y.withCurrent x.current := by
    intro y hy
    simp [hy]
  refine ensures_newInterpreter hx ?_ ?_
  · intro y hy
    refine ensures_threadStateSwap.mpr ⟨rfl,?_⟩
    rcases hy with rfl | rfl
    · exact hback y hx.gil
    · exact hback (x.withCurrent none) hx.gil
  · intro ts hts
    refine ensures_threadStateSwap.mpr ⟨hts,?_⟩
    exact hback ((x.withStates (ts :: x.states)).withCurrent (some ts)) hx.gil

/-- Tearing down an interpreter after the GIL was given up. -/
theorem subInterpreterDrop_spec (ts : ThreadState) (rest : List ThreadState) (hgil : x.gil = false)
    (hcurrent : x.current = none) :
    Ensures (subInterpreterDrop ts)
      (fun _ y => y = (x.withStates rest).blame [.noGil,.noGil,.noGil])
      (x.withStates (ts :: rest)) := by
  refine ensures_threadStateSwap.mpr ?_
  refine (ensures_endInterpreter ?_ ?_).mpr ?_
  · exact rfl
  · exact hgil
  refine ensures_threadStateSwap.mpr ?_
  apply Python.ext <;> simp [withStates,blame,withCurrent,off,hgil,hcurrent]

def Entered (x : Python) : Except String ThreadState → Python → Prop
  | .error e, y => e ≠ creationFailed ∧ e ≠ pathMissing ∧ y = x
  | .ok ts, y => ts ∉ x.states ∧ y = (x.withStates (ts :: x.states)).on ts

theorem threadScopeNew_spec {interp : ThreadState} (hgil : x.gil = false)
    (hi : interp ∈ x.states) : Ensures (threadScopeNew interp) (Entered x) x := by
  refine ensures_threadStateNew hi ⟨by decide,by decide,rfl⟩ ?_
  intro ts hts
  have hself : ts ∈ (x.withStates (ts :: x.states)).states := List.mem_cons_self
  exact (ensures_restoreThread (x := x.withStates (ts :: x.states)) hgil hself).mpr ⟨hts,rfl⟩

/-- The scope's thread state goes, and with it an exception that was left pending. -/
theorem threadScopeDrop_spec (ts : ThreadState) (rest : List ThreadState) (hx : x.Running)
    (hcurrent : x.current = some ts) (hts : ts ∉ rest) (hstates : x.states = ts :: rest) :
    Ensures (threadScopeDrop ts) (fun _ y => y = x.clear.off.withStates rest) x := by
  refine (ensures_threadStateClear hx (by simp [hstates])).mpr ?_
  refine (ensures_threadStateDeleteCurrent (running_clear.mpr hx)).mpr ?_
  have hfilter : (x.clear.states.filter fun t => some t ≠ x.clear.current) = rest := by
    change (x.states.filter fun t => some t ≠ x.current) = rest
    rw [hstates,hcurrent]
    simp only [ne_eq,Option.some.injEq,decide_not,List.filter_cons,decide_true,Bool.not_true,
      Bool.false_eq_true,if_false]
    rw [List.filter_eq_self]
    intro t ht
    simpa using fun h : t = ts => hts (h ▸ ht)
  rw [hfilter]
  exact rfl

end Threads

/-- Nothing of the interpreter is attached to the calling thread. -/
structure Idle (x : Python) : Prop where
  stored : Stored x
  current : x.current = none
  gil : x.gil = false
  error : x.error = none
  bundle : x.bundle = none
  mutex : x.mutex = false
  saved : x.saved = none ∨ x.saved = some x.mainTs
  main : x.mainTs ∈ x.states

/-- An interpreter that exists when the load fails is torn down without the GIL. -/
def teardown (e : String) : List Fault :=
  if e = creationFailed then [] else [.noGil,.noGil,.noGil]

/-- What a load leaves behind, next to borrowed references and the saved main state. -/
def LoadEffect (x : Python) (r : Except String Bundle) (y : Python) : Prop :=
  match r with
  | .error e => ∃ objs,
    y = ((x.lends objs).withSaved (some x.mainTs)).blame (printFaults e ++ teardown e)
  | .ok b => b.interp ∉ x.states ∧ ∃ objs pGlobal,
    y = ((((((x.lends objs).withSaved (some x.mainTs)).withStates (b.interp :: x.states)).own
      pGlobal).own b.jsonModule).own b.tracebackModule).own b.bundleModule

section Load

variable {x : Python}

structure Outside (x : Python) : Prop where
  stored : Stored x
  current : x.current = none
  gil : x.gil = false
  error : x.error = none
  mutex : x.mutex = true

theorem Outside.ready (hx : Outside x) (states : List ThreadState) (ts : ThreadState) :
    ((x.withStates states).on ts).Ready :=
  ⟨⟨⟨hx.stored.1,hx.stored.2⟩,by simp [on],rfl,hx.mutex⟩,rfl⟩

theorem scope_closed (scope : ThreadState) (states : List ThreadState) (hx : Outside x) :
    ((x.withStates states).on scope).clear.off.withStates x.states = x := by
  apply Python.ext <;> simp [withStates,on,clear,off,hx.current,hx.gil,hx.error]

def ScopeEffect (x : Python) (interp : ThreadState) (rest : List ThreadState) :
    Except String Bundle → Python → Prop
  | .error e, y => e ≠ creationFailed ∧ ∃ objs,
    y = ((x.withStates rest).lends objs).blame (printFaults e ++ [.noGil,.noGil,.noGil])
  | .ok b, y => b.interp = interp ∧ ∃ objs pGlobal, y =
    ((((x.lends objs).own pGlobal).own b.jsonModule).own b.tracebackModule).own b.bundleModule

theorem loadInScope_spec {bundlePath hash : String} {interp : ThreadState} {rest : List ThreadState}
    (hx : Outside x) (hstates : x.states = interp :: rest) :
    Ensures (loadInScope bundlePath hash interp) (ScopeEffect x interp rest) x := by
  have hsame : x.withStates (interp :: rest) = x := by rw [withStates,← hstates]
  refine (threadScopeNew_spec hx.gil (by simp [hstates])).bind ?_
  intro r y hy
  cases r with
  | error e =>
    obtain ⟨he,hpath,rfl⟩ := hy
    have hdrop := subInterpreterDrop_spec (x := y) interp rest hx.gil hx.current
    rw [hsame] at hdrop
    refine hdrop.then fun _ => ⟨he,∅,?_⟩
    simp [printFaults,hpath,lends]
  | ok scope =>
    obtain ⟨hfresh,rfl⟩ := hy
    have hready := hx.ready (scope :: x.states) scope
    have hback := scope_closed scope (scope :: x.states) hx
    refine (importBundle_spec hready).bind ?_
    intro r y hy
    cases r with
    | error e =>
      obtain ⟨objs,he,rfl⟩ := hy
      refine (threadScopeDrop_spec scope x.states (by simp [hready.1]) rfl hfresh rfl).then fun _ => ?_
      have hidle : ((((x.withStates (scope :: x.states)).on scope).lends objs).blame
          (printFaults e)).clear.off.withStates x.states =
          ((x.lends objs).blame (printFaults e)).withStates (interp :: rest) := by
        rw [← hstates]
        exact congrArg (fun z : Python => (z.lends objs).blame (printFaults e)) hback
      rw [hidle]
      refine (subInterpreterDrop_spec (x := (x.lends objs).blame (printFaults e)) interp rest hx.gil
        hx.current).then fun _ => ?_
      refine ⟨he,objs,?_⟩
      rw [← blame_blame]
      rfl
    | ok m =>
      obtain ⟨objs,pGlobal,rfl⟩ := hy
      refine (threadScopeDrop_spec scope x.states (by simp [hready.1]) rfl hfresh rfl).then fun _ => ?_
      refine ⟨rfl,objs,pGlobal,?_⟩
      exact congrArg (fun z : Python => ((((z.lends objs).own pGlobal).own m.json).own
        m.traceback).own m.bundle) hback

/-- The main state is saved again before anything else can fail. -/
theorem loadInterpreter_spec {bundlePath hash : String} (hx : Outside x)
    (hsaved : x.saved = none ∨ x.saved = some x.mainTs) (hmain : x.mainTs ∈ x.states) :
    Ensures (loadInterpreter bundlePath hash) (LoadEffect x) x := by
  have hback : ((x.on x.mainTs).withSaved none).off.withSaved (some x.mainTs) =
      x.withSaved (some x.mainTs) := by
    apply Python.ext <;> simp [withSaved,on,off,hx.current,hx.gil,hx.error]
  have hrunning : ((x.on x.mainTs).withSaved none).Running :=
    ⟨⟨hx.stored.1,hx.stored.2⟩,by simp [on,withSaved],rfl,hx.mutex⟩
  refine (restoreMain_spec hx.gil hsaved hmain).then fun _ => ?_
  refine (subInterpreterNew_spec hrunning).bind ?_
  intro r y hy
  cases r with
  | error e =>
    obtain ⟨rfl,rfl⟩ := hy
    refine (saveMain_spec hrunning rfl).then fun _ => ?_
    refine ⟨∅,hback.trans ?_⟩
    simp [teardown,printFaults,creationFailed,pathMissing,lends]
  | ok interp =>
    obtain ⟨hfresh,rfl⟩ := hy
    have hmore : (((x.on x.mainTs).withSaved none).withStates (interp :: x.states)).Running :=
      ⟨⟨hx.stored.1,hx.stored.2⟩,hrunning.2,rfl,hx.mutex⟩
    refine (saveMain_spec hmore rfl).then fun _ => ?_
    have hidle : (((x.on x.mainTs).withSaved none).withStates (interp :: x.states)).off.withSaved
        (some x.mainTs) = (x.withSaved (some x.mainTs)).withStates (interp :: x.states) :=
      congrArg (fun z : Python => z.withStates (interp :: x.states)) hback
    change Ensures _ _ ((((x.on x.mainTs).withSaved none).withStates (interp :: x.states)).off.withSaved
      (some x.mainTs))
    rw [hidle]
    have houtside : Outside ((x.withSaved (some x.mainTs)).withStates (interp :: x.states)) :=
      ⟨⟨hx.stored.1,hx.stored.2⟩,hx.current,hx.gil,hx.error,hx.mutex⟩
    refine (loadInScope_spec houtside rfl).mono ?_
    intro r y hy
    cases r with
    | error e =>
      obtain ⟨he,objs,rfl⟩ := hy
      refine ⟨objs,?_⟩
      rw [teardown,if_neg he]
      rfl
    | ok b =>
      obtain ⟨rfl,objs,pGlobal,rfl⟩ := hy
      exact ⟨hfresh,objs,pGlobal,rfl⟩

theorem Idle.outside (hx : Idle x) : Outside (x.withMutex true) :=
  ⟨⟨hx.stored.1,hx.stored.2⟩,hx.current,hx.gil,hx.error,rfl⟩

theorem new_spec {root hash : String} (hx : Idle x) : Ensures (new root hash) (LoadEffect x) x := by
  refine ensures_lockPython fun _ => ensures_setCurrentThreadBundle.mpr ?_
  have houtside : Outside ((x.withMutex true).inBundle (some hash)) :=
    ⟨⟨hx.stored.1,hx.stored.2⟩,hx.current,hx.gil,hx.error,rfl⟩
  refine (loadInterpreter_spec houtside hx.saved hx.main).bind ?_
  intro r y hy
  refine ensures_clearCurrentThreadBundle.mpr (ensures_unlockPython.mpr ?_)
  have hback : (((x.withMutex true).inBundle (some hash)).inBundle none).withMutex false = x := by
    apply Python.ext <;> simp [withMutex,inBundle,hx.bundle,hx.mutex]
  cases r with
  | error e =>
    obtain ⟨objs,rfl⟩ := hy
    refine ⟨objs,?_⟩
    exact congrArg (fun z : Python => ((z.lends objs).withSaved (some x.mainTs)).blame
      (printFaults e ++ teardown e)) hback
  | ok b =>
    obtain ⟨hfresh,objs,pGlobal,rfl⟩ := hy
    refine ⟨hfresh,objs,pGlobal,?_⟩
    exact congrArg (fun z : Python => ((((((z.lends objs).withSaved (some x.mainTs)).withStates
      (b.interp :: x.states)).own pGlobal).own b.jsonModule).own b.tracebackModule).own
      b.bundleModule) hback

end Load

def modules (b : Bundle) : Multiset Obj := {b.bundleModule,b.jsonModule,b.tracebackModule}

/-- Between calls: nothing attached, one interpreter for each cached bundle next to the main
one, and no references but those of the cached bundles, of one dictionary for each and of at
most one exception for each hash in the table. -/
structure Settled (x : Python) : Prop where
  idle : Idle x
  hashes : (x.cache.map Prod.fst).Nodup
  interps : ∀ e ∈ x.cache, e.2.interp ∈ x.states
  states : x.states.length = x.cache.length + 1
  owned : Multiset.card x.owned = x.cache.length
  kept : ∃ made : List (String × Obj), (made.map Prod.fst).Nodup ∧ made ⊆ x.errorObjects ∧
    x.kept = (made.map Prod.snd : Multiset Obj) + (x.cache.map fun e => modules e.2).sum
  unlocked : x.errorsLocked = false
  faults : ∀ f ∈ x.faults, f = .noGil ∨ f = .noException

/-- The interpreter after `init_python`. -/
def initial (mainTs : ThreadState) : Python :=
  ⟨0,0,∅,none,none,false,[mainTs],mainTs,none,false,none,[],false,[],[]⟩

section Runs

variable {x : Python} {root hash : String} {β : Type}

theorem idle_initial (mainTs : ThreadState) : Idle (initial mainTs) :=
  ⟨⟨by simp [initial],by simp [initial]⟩,rfl,rfl,rfl,rfl,rfl,.inl rfl,List.mem_singleton_self mainTs⟩

theorem settled_initial (mainTs : ThreadState) : Settled (initial mainTs) where
  idle := idle_initial mainTs
  hashes := List.nodup_nil
  interps := by simp [initial]
  states := rfl
  owned := rfl
  kept := ⟨[],List.nodup_nil,List.nil_subset _,rfl⟩
  unlocked := rfl
  faults := by simp [initial]

theorem stored_lends (hx : Stored x) (objs : Finset Obj) : Stored (x.lends objs) :=
  ⟨hx.1,fun e he => (hx.2 e he).imp_right (Finset.mem_union_right objs)⟩

theorem settled_failed {e : String} {y : Python} (hx : Settled x)
    (hy : LoadEffect x (.error e) y) : Settled y := by
  obtain ⟨objs,rfl⟩ := hy
  obtain ⟨hidle,hhashes,hinterps,hstates,howned,hkept,hunlocked,hfaults⟩ := hx
  have hstored := stored_lends hidle.stored objs
  refine ⟨⟨⟨hstored.1,hstored.2⟩,hidle.current,hidle.gil,hidle.error,hidle.bundle,hidle.mutex,.inr rfl,
    hidle.main⟩,hhashes,hinterps,hstates,howned,hkept,hunlocked,?_⟩
  intro f hf
  rcases List.mem_append.mp hf with hold | hnew
  · exact hfaults f hold
  · rcases List.mem_append.mp hnew with hprint | hdown
    · rw [printFaults] at hprint
      split at hprint
      · exact .inr (List.mem_singleton.mp hprint)
      · cases hprint
    · rw [teardown] at hdown
      split at hdown
      · cases hdown
      · exact .inl (by simpa using hdown)

/-- The cache takes the three modules over, and the globals stay. -/
theorem withBundle_loaded {b : Bundle} {pGlobal : Obj} :
    ((((x.own pGlobal).own b.jsonModule).own b.tracebackModule).own b.bundleModule).withBundle hash b =
      { (((x.pin b.bundleModule).pin b.jsonModule).pin b.tracebackModule).own pGlobal with
        cache := (hash,b) :: x.cache } := by
  have hjson : (((((x.pin b.bundleModule).own pGlobal).own b.jsonModule).own
      b.tracebackModule).keep b.jsonModule).keep b.tracebackModule =
      (((x.pin b.bundleModule).pin b.jsonModule).pin b.tracebackModule).own pGlobal := by
    simp [keep]
  rw [withBundle,keep_own_self]
  simp only [own_pin,hjson]
  rfl

theorem settled_loaded {b : Bundle} {y : Python} (hx : Settled x)
    (hnew : hash ∉ x.cache.map Prod.fst) (hy : LoadEffect x (.ok b) y) :
    Settled (y.withBundle hash b) := by
  obtain ⟨hfresh,objs,pGlobal,rfl⟩ := hy
  obtain ⟨hidle,hhashes,hinterps,hstates,howned,⟨made,hmade,hsub,hkept⟩,hunlocked,hfaults⟩ := hx
  rw [withBundle_loaded]
  have hstored := stored_lends hidle.stored objs
  refine ⟨⟨⟨?_,?_⟩,hidle.current,hidle.gil,hidle.error,hidle.bundle,hidle.mutex,.inr rfl,
    List.mem_cons_of_mem _ hidle.main⟩,List.nodup_cons.mpr ⟨hnew,hhashes⟩,?_,?_,?_,?_,hunlocked,hfaults⟩
  · intro e he
    rcases List.mem_cons.mp he with rfl | hold
    · simp [own,pin]
    · obtain ⟨hmodule,hjson,htraceback⟩ := hstored.1 e hold
      exact ⟨by simpa [own,pin] using .inr (.inr (.inr hmodule)),
        by simpa [own,pin] using .inr (.inr (.inr hjson)),
        by simpa [own,pin] using .inr (.inr (.inr htraceback))⟩
  · intro e he
    refine (hstored.2 e he).imp_left fun h => ?_
    simpa [own,pin] using .inr (.inr (.inr h))
  · intro e he
    rcases List.mem_cons.mp he with rfl | hold
    · exact List.mem_cons_self
    · exact List.mem_cons_of_mem _ (hinterps e hold)
  · exact congrArg (· + 1) hstates
  · simpa [own,pin,withStates,withSaved,lends] using howned
  · refine ⟨made,hmade,hsub,?_⟩
    simp only [own,pin,withStates,withSaved,lends,hkept,List.map_cons,List.sum_cons,modules,
      Multiset.insert_eq_cons]
    simp only [← Multiset.singleton_add]
    abel

theorem loadBundle_spec (hx : Settled x) :
    Ensures (loadBundle root hash) (fun r y => Settled y ∧ (∀ b, r = .ok b → ∃ h, (h,b) ∈ y.cache) ∧
      (hash ∈ x.cache.map Prod.fst → y = x)) x := by
  refine ensures_lookupBundle.mpr ?_
  cases hlookup : x.cache.lookup hash with
  | some b =>
    obtain ⟨before,after,hcache,-⟩ := List.lookup_eq_some_iff.mp hlookup
    refine ⟨hx,?_,fun _ => rfl⟩
    rintro b' hb
    cases hb
    exact ⟨hash,by simp [hcache]⟩
  | none =>
    have hnew : hash ∉ x.cache.map Prod.fst := by
      intro hmem
      obtain ⟨e,he,rfl⟩ := List.mem_map.mp hmem
      simpa using List.lookup_eq_none_iff.mp hlookup e he
    refine ensures_lookupBundle.mpr ?_
    rw [hlookup]
    refine (new_spec hx.idle).bind ?_
    intro r y hy
    cases r with
    | error e => exact ⟨settled_failed hx hy,by simp,fun h => absurd h hnew⟩
    | ok b =>
      have hholds : ∀ o ∈ [b.bundleModule,b.jsonModule,b.tracebackModule], y.Holds o := by
        obtain ⟨-,objs,pGlobal,rfl⟩ := hy
        simp
      refine (ensures_insertBundle hholds).mpr ⟨settled_loaded hx hnew hy,?_,fun h => absurd h hnew⟩
      rintro b' hb
      cases hb
      exact ⟨hash,List.mem_cons_self⟩

def Conversion.Reads (conversion : Conversion β) : Prop :=
  ∀ (b : Bundle) (obj : Obj) (y : Python), y.Ready → y.Live b.jsonModule →
    y.Live b.tracebackModule → y.Live obj → Ensures (conversion.convert b obj) (fun _ z => z = y) y

theorem finish_spec {conversion : Conversion β} (hc : conversion.Reads) {b : Bundle}
    (hx : x.Ready) (hjson : x.Live b.jsonModule) (hb : x.Live b.tracebackModule) (r : Option Obj) :
    Ensures (finish conversion b r) (fun _ y => y = x) (x.ownSome r) := by
  cases r with
  | none => exact rfl
  | some obj =>
    have hready : (x.own obj).Ready := by simp [hx]
    refine (hc b obj (x.own obj) hready (by simp [hjson]) (by simp [hb]) (by simp)).then fun _ => ?_
    simp [disposeObject,xdecRef,hx.1]

theorem Python.Stored.live {b : Bundle} {h : String} (hx : Stored x) (hmem : (h,b) ∈ x.cache) :
    x.Live b.bundleModule ∧ x.Live b.jsonModule ∧ x.Live b.tracebackModule := by
  obtain ⟨hmodule,hjson,htraceback⟩ := hx.modules _ hmem
  exact ⟨.inr (.inr (.inr (.inl hmodule))),.inr (.inr (.inr (.inl hjson))),
    .inr (.inr (.inr (.inl htraceback)))⟩

theorem runLoaded_spec {conversion : Conversion β} (hc : conversion.Reads) (hx : Settled x)
    {h : String} {b : Bundle} (hmem : (h,b) ∈ x.cache) {functionName details jobData : String} :
    Ensures (runLoaded conversion functionName details jobData b) (fun _ y => y = x) x := by
  obtain ⟨hmodule,hjson,htraceback⟩ := Python.Stored.live hx.idle.stored hmem
  have houtside := hx.idle.outside
  have hunlocked : (x.withMutex true).withMutex false = x := by
    rw [withMutex,withMutex,← hx.idle.mutex]
  refine ensures_lockPython fun _ => ?_
  refine (threadScopeNew_spec (x := x.withMutex true) hx.idle.gil (hx.interps _ hmem)).bind ?_
  intro r y hy
  cases r with
  | error e =>
    obtain ⟨-,-,rfl⟩ := hy
    exact ensures_unlockPython.mpr hunlocked
  | ok scope =>
    obtain ⟨hfresh,rfl⟩ := hy
    have hback := scope_closed scope (scope :: x.states) houtside
    have hready := houtside.ready (scope :: x.states) scope
    refine (run_spec hready hmodule hjson htraceback hx.idle.bundle).bind ?_
    intro r y hy
    -- The scope ends in both cases; an exception left pending ends with it.
    rcases hy with ⟨rfl,-⟩ | ⟨rfl,rfl⟩
    · refine (finish_spec hc hready hjson htraceback r).then fun _ => ?_
      refine (threadScopeDrop_spec scope x.states hready.1 rfl hfresh rfl).then fun _ => ?_
      refine ensures_unlockPython.mpr ?_
      exact (congrArg (fun z : Python => z.withMutex false) hback).trans hunlocked
    · refine (threadScopeDrop_spec scope x.states (by simp [hready.1]) rfl hfresh rfl).then fun _ => ?_
      refine ensures_unlockPython.mpr ?_
      exact (congrArg (fun z : Python => z.withMutex false) hback).trans hunlocked

/-- The next state is idle again, and it is the same one for a bundle that was loaded. -/
def AfterCall (x : Python) (hash : String) (y : Python) : Prop :=
  Settled y ∧ (hash ∈ x.cache.map Prod.fst → y = x)

theorem runBundle_spec {conversion : Conversion β} (hc : conversion.Reads) (hx : Settled x)
    {functionName details jobData : String} :
    Ensures (runBundle conversion root functionName hash details jobData)
      (fun _ y => AfterCall x hash y) x := by
  refine (loadBundle_spec hx).bind ?_
  rintro r y ⟨hy,hmem,hsame⟩
  cases r with
  | error e => exact ⟨hy,hsame⟩
  | ok b =>
    obtain ⟨h,hb⟩ := hmem b rfl
    refine (runLoaded_spec hc hy hb).mono ?_
    rintro _ z rfl
    exact ⟨hy,hsame⟩

theorem dumpResult_spec {fromStr : String → Option Json} {b : Bundle} {obj : Obj} (hx : x.Ready)
    (hjson : x.Live b.jsonModule) (hb : x.Live b.tracebackModule) (ho : x.Live obj) :
    Ensures (dumpResult fromStr b obj) (fun _ y => y = x) x := by
  refine (jsonDumps_spec hx hjson hb (by simpa using ho)).then fun r => ?_
  cases r with
  | ok s => exact rfl
  | error e => exact rfl

end Runs

inductive ResultKind
  | string
  | uint64
  | bool
  | json

structure BundleCall where
  kind : ResultKind
  functionName : String
  hash : String
  details : String
  jobData : String

def BundleCall.perform (fromStr : String → Option Json) (root : String) (c : BundleCall) : Py Unit :=
  match c.kind with
  | .string => do
    let _ ← runBundleString root c.functionName c.hash c.details c.jobData
    return
  | .uint64 => do
    let _ ← runBundleUint64 root c.functionName c.hash c.details c.jobData
    return
  | .bool => do
    let _ ← runBundleBool root c.functionName c.hash c.details c.jobData
    return
  | .json => do
    let _ ← runBundleJson fromStr root c.functionName c.hash c.details c.jobData
    return

theorem BundleCall.perform_spec {fromStr : String → Option Json} {root : String} {x : Python}
    (c : BundleCall) (hx : Settled x) :
    Ensures (c.perform fromStr root) (fun _ y => AfterCall x c.hash y) x := by
  rw [BundleCall.perform]
  cases c.kind with
  | string =>
    refine (runBundle_spec ?_ hx).bind fun _ _ hy => hy
    intro _ obj y hready _ _ ho
    have hobj : ∀ o ∈ some obj, y.Live o := by simpa using ho
    exact toStringPy_spec hready hobj
  | uint64 =>
    refine (runBundle_spec ?_ hx).bind fun _ _ hy => hy
    intro _ obj y hready _ _ ho
    have hobj : ∀ o ∈ some obj, y.Live o := by simpa using ho
    exact toUint64_spec hready hobj
  | bool =>
    refine (runBundle_spec ?_ hx).bind fun _ _ hy => hy
    exact fun _ _ _ _ _ _ _ => rfl
  | json =>
    refine (runBundle_spec ?_ hx).bind fun _ _ hy => hy
    exact fun _ _ _ hready hjson hb ho => dumpResult_spec hready hjson hb ho

end BundleManager
end JobControllerClient
