import JobControllerClient.PythonApi

/-! `bundle_interface.rs` on a bundle that is loaded: calling one of its functions, JSON in
both directions, and printing an exception. Every function says what it leaves in the
interpreter; all of them leave the references as they found them, up to the one returned. -/
namespace JobControllerClient
namespace BundleInterface

open PythonApi PythonApi.Python

/-- `CString::new`, which refuses a NUL inside the text. -/
def cString (s : String) : Option String := if Char.ofNat 0 ∈ s.toList then none else some s

/-- `result.is_null() || !PyErr_Occurred().is_null()` -/
def failed : Option Obj → Py Bool
  | none => return true
  | some _ => errOccurred

def swallowPythonError : Py Unit := do
  let f ← errFetch
  xdecRef f.extype
  xdecRef f.value
  xdecRef f.traceback
  errClear

def takeText (obj : Obj) (fallback : String) : Py String := do
  match ← unicodeAsUtf8 obj with
  | none =>
    errClear
    decRef obj
    return fallback
  | some s =>
    decRef obj
    return s

def extractTypeName (extype : Obj) : Py String := do
  match ← getAttrString extype "__name__" with
  | none =>
    swallowPythonError
    return "unknown"
  | some typeStr => takeText typeStr "unknown"

def extractValueString (converter : Obj → Py (Option Obj)) : Option Obj → Py String
  | none => return ""
  | some value => do
    match ← converter value with
    | none =>
      swallowPythonError
      return ""
    | some strObj => takeText strObj ""

def fallbackValueText (display repr : String) : String := if display = "" then repr else display

def logText (item : Obj) : Py Unit := do
  match ← unicodeAsUtf8 item with
  | none => swallowPythonError
  | some s => log s

def swallowIfOccurred : Py Unit := do
  if ← errOccurred then swallowPythonError else return

def logItems (iter : Obj) : ℕ → Py Unit
  | 0 => do
    let _ ← iterNext iter 0
    swallowIfOccurred
  | left + 1 => do
    match ← iterNext iter (left + 1) with
    | none => swallowIfOccurred
    | some item =>
      logText item
      decRef item
      logItems iter left

def logPythonLines : Option Obj → Py Unit
  | none => return
  | some lines => do
    match ← getIter lines with
    | none => swallowPythonError
    | some (iter,count) =>
      logItems iter count
      decRef iter

/-- `PyTuple_SetItem` takes the item over in both cases. -/
def setSlot (eoArgs item eoFunc : Obj) : Py Bool := do
  if ← tupleSetItem eoArgs 1 item then return true
  else
    log "Error setting exception value in args tuple"
    errPrint
    decRef eoArgs
    decRef eoFunc
    return false

def setExceptionValueSlot (eoArgs : Obj) (value : Option Obj) (eoFunc : Obj) : Py Bool :=
  match value with
  | none => do
    incRef pyNone
    setSlot eoArgs pyNone eoFunc
  | some value => setSlot eoArgs value eoFunc

def logTraceback (typeName : String) (tbLines : Option Obj) : Py Unit := do
  if ← failed tbLines then
    log s!"Error formatting python traceback frames (type was {typeName})"
    xdecRef tbLines
    swallowPythonError
  else
    log "Traceback (most recent call last):"
    logPythonLines tbLines
    xdecRef tbLines

def formatTraceback (b : Bundle) (typeName : String) (traceback : Obj) : Py Unit := do
  match ← getAttrString b.tracebackModule "format_tb" with
  | none =>
    decRef traceback
    swallowPythonError
  | some tbFunc =>
    match ← tupleNew 1 with
    | none =>
      decRef traceback
      decRef tbFunc
      swallowPythonError
      log s!"Error formatting python traceback frames (type was {typeName})"
    | some tbArgs =>
      if ← tupleSetItem tbArgs 0 traceback then
        let tbLines ← callObject tbFunc tbArgs
        logTraceback typeName tbLines
        decRef tbArgs
        decRef tbFunc
      else
        log "Error setting traceback in args tuple"
        errPrint
        decRef tbArgs
        decRef tbFunc

def logHeader (fallback typeName : String) (eoLines : Option Obj) : Py Unit := do
  if ← failed eoLines then
    log fallback
    log s!"Falling back to synthesized python exception header (type was {typeName})"
    xdecRef eoLines
    swallowPythonError
  else
    logPythonLines eoLines
    xdecRef eoLines

def formatHeader (b : Bundle) (fallback typeName : String) (extype : Obj) (value : Option Obj) :
    Py Unit := do
  match ← getAttrString b.tracebackModule "format_exception_only" with
  | none =>
    decRef extype
    xdecRef value
    swallowPythonError
    log fallback
  | some eoFunc =>
    match ← tupleNew 2 with
    | none =>
      decRef extype
      xdecRef value
      decRef eoFunc
      swallowPythonError
      log fallback
    | some eoArgs =>
      if ← tupleSetItem eoArgs 0 extype then
        if ← setExceptionValueSlot eoArgs value eoFunc then
          let eoLines ← callObject eoFunc eoArgs
          logHeader fallback typeName eoLines
          decRef eoArgs
          decRef eoFunc
        else return
      else
        log "Error setting exception type in args tuple"
        errPrint
        decRef eoArgs
        xdecRef value
        decRef eoFunc

def formatTracebackIfAny (b : Bundle) (typeName : String) : Option Obj → Py Unit
  | none => return
  | some traceback => formatTraceback b typeName traceback

def printLastPythonException (b : Bundle) : Py Unit := do
  let f ← errFetch
  match f.extype with
  | none => return
  | some extype =>
    let typeName ← extractTypeName extype
    let valueStr ← extractValueString objectRepr f.value
    let valueDisplay ← extractValueString objectStr f.value
    log s!"Python exception: type={typeName} value=\"{valueStr}\""
    formatTracebackIfAny b typeName f.traceback
    let text := fallbackValueText valueDisplay valueStr
    formatHeader b s!"{typeName}: {text}" typeName extype f.value

def toStringPy : Option Obj → Py String
  | none => return ""
  | some obj => do
    match ← unicodeAsUtf8 obj with
    | none =>
      errClear
      return ""
    | some s => return s

def toUint64 : Option Obj → Py UInt64
  | none => return 0
  | some obj => do
    let result ← longAsUnsignedLongLong obj
    if ← errOccurred then
      errClear
      return 0
    else return result

def toBool (obj : Option Obj) : Bool := obj = some pyTrue

def disposeObject (obj : Option Obj) : Py Unit := xdecRef obj

def jsonDumps (b : Bundle) : Option Obj → Py (Except String String)
  | none => return .ok "null"
  | some obj => do
    match ← getAttrString b.jsonModule "dumps" with
    | none =>
      errClear
      return .error "Failed to get json.dumps function"
    | some pFunc =>
      match ← tupleNew 1 with
      | none =>
        decRef pFunc
        errClear
        return .error "Failed to allocate argument tuple"
      | some pArgs =>
        incRef obj
        if ← tupleSetItem pArgs 0 obj then
          let pValue ← callObject pFunc pArgs
          if ← failed pValue then
            printLastPythonException b
            decRef pArgs
            decRef pFunc
            xdecRef pValue
            return .error "Error calling json.dumps"
          else
            let result ← toStringPy pValue
            decRef pArgs
            decRef pFunc
            xdecRef pValue
            return .ok result
        else
          errPrint
          decRef pArgs
          decRef pFunc
          return .error "Error calling json.dumps"

def jsonLoads (b : Bundle) (content : String) : Py (Option Obj) := do
  match ← getAttrString b.jsonModule "loads" with
  | none =>
    errClear
    return none
  | some pFunc =>
    match ← tupleNew 1 with
    | none =>
      decRef pFunc
      errClear
      return none
    | some pArgs =>
      match cString content with
      | none =>
        decRef pArgs
        decRef pFunc
        return none
      | some cContent =>
        match ← unicodeFromString cContent with
        | none =>
          decRef pArgs
          decRef pFunc
          errClear
          return none
        | some pValue =>
          if ← tupleSetItem pArgs 0 pValue then
            let result ← callObject pFunc pArgs
            if ← failed result then
              printLastPythonException b
              decRef pArgs
              decRef pFunc
              xdecRef result
              return none
            else
              decRef pArgs
              decRef pFunc
              return result
          else
            errPrint
            decRef pArgs
            decRef pFunc
            return none

/-- The call itself, under a `ThreadBundleGuard`; `None` counts as no result. -/
def callFunction (b : Bundle) (pFunc pArgs : Obj) : Py (Option Obj) := do
  setCurrentThreadBundle b.bundleHash
  let pResult ← callObject pFunc pArgs
  if ← failed pResult then
    printLastPythonException b
    decRef pArgs
    decRef pFunc
    xdecRef pResult
    clearCurrentThreadBundle
    return none
  else
    clearCurrentThreadBundle
    decRef pArgs
    decRef pFunc
    if pResult = some pyNone then
      xdecRef pResult
      return none
    else return pResult

def addJobData (b : Bundle) (pFunc pArgs : Obj) (jobData : String) : Py (Option Obj) := do
  match cString jobData with
  | none =>
    decRef pArgs
    decRef pFunc
    return none
  | some cJobData =>
    match ← unicodeFromString cJobData with
    | none =>
      swallowPythonError
      decRef pArgs
      decRef pFunc
      return none
    | some pJobData =>
      if ← tupleSetItem pArgs 1 pJobData then callFunction b pFunc pArgs
      else
        errPrint
        decRef pArgs
        decRef pFunc
        return none

/-- `run`; `NoneException` is `none`, and `details` is the text of the JSON value. -/
def run (b : Bundle) (func details jobData : String) : Py (Option Obj) := do
  match ← jsonLoads b details with
  | none => return none
  | some jsonObj =>
    match cString func with
    | none =>
      decRef jsonObj
      return none
    | some sFunc =>
      match ← getAttrString b.bundleModule sFunc with
      | none =>
        swallowPythonError
        decRef jsonObj
        return none
      | some pFunc =>
        if ← callableCheck pFunc then
          match ← tupleNew 2 with
          | none =>
            decRef pFunc
            decRef jsonObj
            return none
          | some pArgs =>
            if ← tupleSetItem pArgs 0 jsonObj then addJobData b pFunc pArgs jobData
            else
              errPrint
              decRef pArgs
              decRef pFunc
              return none
        else
          decRef pFunc
          decRef jsonObj
          return none

section Helpers

variable {x : Python}

theorem swallowPythonError_spec (hx : x.Running) :
    Ensures swallowPythonError (fun _ y => y = x.clear) x := by
  refine ensures_errFetch hx ?_ ?_
  · intro he
    simp [hx]
  · intro e v t
    cases v <;> cases t <;> simp [fetch,ownSome,hx]

theorem takeText_spec {o : Obj} {fallback : String} (hx : x.Ready) :
    Ensures (takeText o fallback) (fun _ y => y = x) (x.own o) := by
  have hclear := clear_of_none hx.error
  refine ensures_unicodeAsUtf8 (running_own.mpr hx.1) (by simp) ?_ ?_
  · simp [hx.1,hclear]
  · intro s
    simp [hx.1]

theorem extractTypeName_spec {extype : Obj} (hx : x.Ready) (he : x.Live extype) :
    Ensures (extractTypeName extype) (fun _ y => y = x) x := by
  have hclear := clear_of_none hx.error
  refine ensures_new hx.1 (by simpa [New.uses] using he) ?_ ?_
  · refine (swallowPythonError_spec (running_raise.mpr hx.1)).then fun _ => ?_
    exact hclear
  · intro typeStr
    exact takeText_spec hx

theorem extractValueString_spec {f : Obj → New} {value : Option Obj} (hx : x.Ready)
    (hv : ∀ o ∈ value, x.Live o) (hf : ∀ o, (f o).uses = [o]) :
    Ensures (extractValueString (fun o => call (.new (f o))) value) (fun _ y => y = x) x := by
  have hclear := clear_of_none hx.error
  cases value with
  | none => exact rfl
  | some o =>
    refine ensures_new hx.1 (by simpa [hf] using hv o rfl) ?_ ?_
    · refine (swallowPythonError_spec (running_raise.mpr hx.1)).then fun _ => ?_
      exact hclear
    · intro strObj
      exact takeText_spec hx

theorem logText_spec {item : Obj} (hx : x.Ready) (hi : x.Live item) :
    Ensures (logText item) (fun _ y => y = x) x := by
  have hclear := clear_of_none hx.error
  refine ensures_unicodeAsUtf8 hx.1 hi ?_ ?_
  · refine (swallowPythonError_spec (running_raise.mpr hx.1)).mono ?_
    rintro - y rfl
    exact hclear
  · intro s
    simp

theorem swallowIfOccurred_spec {y : Python} (hx : x.Ready) (hy : y = x ∨ y = x.raise) :
    Ensures swallowIfOccurred (fun _ z => z = x) y := by
  have hclear := clear_of_none hx.error
  rcases hy with rfl | rfl
  · simp [swallowIfOccurred,hx.1,hx.error]
  · refine (ensures_errOccurred (running_raise.mpr hx.1)).mpr ?_
    refine (swallowPythonError_spec (running_raise.mpr hx.1)).mono ?_
    rintro - z rfl
    exact hclear

theorem logItems_spec {iter : Obj} (n : ℕ) (hx : x.Ready) (hi : x.Live iter) :
    Ensures (logItems iter n) (fun _ y => y = x) x := by
  induction n with
  | zero =>
    refine ensures_iterNext hx.1 hi ?_ ?_
    · intro y hy
      exact swallowIfOccurred_spec hx hy
    · intro o h
      cases h
  | succ n ih =>
    refine ensures_iterNext hx.1 hi ?_ ?_
    · intro y hy
      exact swallowIfOccurred_spec hx hy
    · intro item _
      refine (logText_spec (ready_own.mpr hx) (by simp)).then fun _ => ?_
      refine (ensures_decRef (running_own.mpr hx.1) (by simp)).mpr ?_
      rw [release_own_self]
      exact ih

theorem logPythonLines_spec {lines : Option Obj} (hx : x.Ready) (hl : ∀ o ∈ lines, x.Live o) :
    Ensures (logPythonLines lines) (fun _ y => y = x) x := by
  have hclear := clear_of_none hx.error
  cases lines with
  | none => exact rfl
  | some lines =>
    refine ensures_getIter hx.1 (hl lines rfl) ?_ ?_
    · refine (swallowPythonError_spec (running_raise.mpr hx.1)).mono ?_
      rintro - y rfl
      exact hclear
    · intro iter n
      refine (logItems_spec n (ready_own.mpr hx) (by simp)).then fun _ => ?_
      simp [hx.1]

theorem ensures_failed {α : Type} {Q : α → Python → Prop} {k : Bool → Py α} {r : Option Obj}
    {y : Python} (hx : x.Ready) (hy : y = x.ownSome r ∨ y = (x.ownSome r).raise)
    (hfail : Ensures (k true) Q y) (hok : ∀ o, r = some o → Ensures (k false) Q (x.own o)) :
    Ensures (failed r >>= k) Q y := by
  cases r with
  | none => exact hfail
  | some o =>
    have hrun : y.Running := by
      rcases hy with rfl | rfl <;> simp [ownSome,hx.1]
    refine (ensures_errOccurred hrun).mpr ?_
    rcases hy with rfl | rfl
    · have herror : ((x.ownSome (some o)).error.isSome) = false := by simp [ownSome,hx.error]
      rw [herror]
      exact hok o rfl
    · exact hfail

theorem clear_result {r : Option Obj} {y : Python} (hx : x.Ready)
    (hy : y = x.ownSome r ∨ y = (x.ownSome r).raise) : y.clear = x.ownSome r := by
  have hclear := clear_of_none hx.error
  rcases hy with rfl | rfl
  · rw [clear_ownSome,hclear]
  · rw [raise_clear,clear_ownSome,hclear]

theorem running_result {r : Option Obj} {y : Python} (hx : x.Ready)
    (hy : y = x.ownSome r ∨ y = (x.ownSome r).raise) : y.Running := by
  rcases hy with rfl | rfl <;> simp [hx.1]

/-- The rule of a call of Python code, whose result is reported in one of these states. -/
theorem ensures_callPython {α : Type} {Q : α → Python → Prop} {k : Option Obj → Py α}
    {f args : Obj} (hx : x.Ready) (hf : x.Live f) (hargs : x.Live args)
    (hk : ∀ r y, y = x.ownSome r ∨ y = (x.ownSome r).raise → Ensures (k r) Q y) :
    Ensures (callObject f args >>= k) Q x := by
  refine ensures_callObject hx.1 hf hargs ?_ ?_
  · intro y hy
    exact hk none y hy
  · intro o y hy
    exact hk (some o) y hy

theorem xdecRef_last {r : Option Obj} (hx : x.Running) :
    Ensures (xdecRef r) (fun _ z => z = x) (x.ownSome r) := by
  cases r with
  | none => exact rfl
  | some o => simp [ownSome,hx]

theorem discard_result {r : Option Obj} {y : Python} (hx : x.Ready)
    (hy : y = x.ownSome r ∨ y = (x.ownSome r).raise) :
    Ensures (xdecRef r >>= fun _ => swallowPythonError) (fun _ z => z = x) y := by
  have hrun := running_result hx hy
  cases r with
  | none =>
    refine (swallowPythonError_spec hrun).mono ?_
    rintro - z rfl
    exact clear_result hx hy
  | some o =>
    have hholds : y.Holds o := by
      rcases hy with rfl | rfl <;> simp [ownSome]
    refine (ensures_decRef hrun hholds).mpr ?_
    have hreleased : (y.release o).Running ∧ (y.release o).clear = x := by
      have hclear := clear_of_none hx.error
      rcases hy with rfl | rfl <;> simp [ownSome,hx.1,hclear]
    refine (swallowPythonError_spec hreleased.1).mono ?_
    rintro - z rfl
    exact hreleased.2

theorem logTraceback_spec {typeName : String} {r : Option Obj} {y : Python} (hx : x.Ready)
    (hy : y = x.ownSome r ∨ y = (x.ownSome r).raise) :
    Ensures (logTraceback typeName r) (fun _ z => z = x) y := by
  refine ensures_failed hx hy ?_ ?_
  · exact ensures_log.mpr (discard_result hx hy)
  · rintro o rfl
    refine ensures_log.mpr ?_
    refine (logPythonLines_spec (ready_own.mpr hx) (by simp)).then fun _ => ?_
    exact xdecRef_last hx.1

theorem logHeader_spec {fallback typeName : String} {r : Option Obj} {y : Python} (hx : x.Ready)
    (hy : y = x.ownSome r ∨ y = (x.ownSome r).raise) :
    Ensures (logHeader fallback typeName r) (fun _ z => z = x) y := by
  refine ensures_failed hx hy ?_ ?_
  · exact ensures_log.mpr (ensures_log.mpr (discard_result hx hy))
  · rintro o rfl
    refine (logPythonLines_spec (ready_own.mpr hx) (by simp)).then fun _ => ?_
    exact xdecRef_last hx.1

theorem formatTraceback_spec {b : Bundle} {typeName : String} {traceback : Obj} (hx : x.Ready)
    (hb : x.Live b.tracebackModule) :
    Ensures (formatTraceback b typeName traceback) (fun _ y => y = x) (x.own traceback) := by
  have hclear := clear_of_none hx.error
  refine ensures_new (running_own.mpr hx.1) (by simp [New.uses,hb]) ?_ ?_
  · refine (ensures_decRef (by simp [hx.1]) (by simp)).mpr ?_
    refine (swallowPythonError_spec (by simp [hx.1])).mono ?_
    rintro - y rfl
    simpa using hclear
  intro tbFunc
  refine ensures_new (by simp [hx.1]) (by simp [New.uses]) ?_ ?_
  · refine (ensures_decRef (by simp [hx.1]) (by simp)).mpr ?_
    refine (ensures_decRef (by simp [hx.1]) (by simp)).mpr ?_
    refine (swallowPythonError_spec (by simp [hx.1])).then fun _ => ?_
    simpa using hclear
  intro tbArgs
  refine ensures_tupleSetItem (by simp [hx.1]) (by simp) (by simp) ?_ ?_
  · simp [hx.1,hclear]
  · refine ensures_callPython (by simp [hx]) (by simp) (by simp) ?_
    intro r y hy
    refine (logTraceback_spec (by simp [hx]) hy).then fun _ => ?_
    simp [hx.1]

theorem setSlot_spec {eoArgs item eoFunc : Obj} (hx : x.Ready) :
    Ensures (setSlot eoArgs item eoFunc)
      (fun ok y => y = if ok then (x.own eoFunc).own eoArgs else x)
      (((x.own item).own eoFunc).own eoArgs) := by
  have hclear := clear_of_none hx.error
  refine ensures_tupleSetItem (by simp [hx.1]) (by simp) (by simp) ?_ ?_
  · simp [hx.1,hclear]
  · simp

theorem setExceptionValueSlot_spec {eoArgs eoFunc : Obj} {value : Option Obj} (hx : x.Ready) :
    Ensures (setExceptionValueSlot eoArgs value eoFunc)
      (fun ok y => y = if ok then (x.own eoFunc).own eoArgs else x)
      (((x.ownSome value).own eoFunc).own eoArgs) := by
  cases value with
  | none =>
    refine (ensures_incRef (by simp [ownSome,hx.1]) (.inl rfl)).mpr ?_
    have hswap : (((x.ownSome none).own eoFunc).own eoArgs).own pyNone =
        ((x.own pyNone).own eoFunc).own eoArgs := own_rotate x pyNone eoFunc eoArgs
    rw [hswap]
    exact setSlot_spec hx
  | some value => exact setSlot_spec hx

theorem formatHeader_spec {b : Bundle} {fallback typeName : String} {extype : Obj}
    {value : Option Obj} (hx : x.Ready) (hb : x.Live b.tracebackModule) :
    Ensures (formatHeader b fallback typeName extype value) (fun _ y => y = x)
      ((x.own extype).ownSome value) := by
  have hclear := clear_of_none hx.error
  have hlive : ((x.own extype).ownSome value).Live b.tracebackModule :=
    live_ownSome (by simp [hb])
  refine ensures_new (by simp [hx.1]) (by simpa [New.uses] using hlive) ?_ ?_
  · refine (ensures_decRef (by simp [hx.1]) (by simp)).mpr ?_
    simp only [raise_ownSome,own_raise,release_ownSome,holds_own,true_or,release_own_self]
    refine (ensures_xdecRef (by simp [hx.1])).mpr ?_
    refine (swallowPythonError_spec (by simp [hx.1])).then fun _ => ?_
    simpa using hclear
  intro eoFunc
  refine ensures_new (by simp [hx.1]) (by simp [New.uses]) ?_ ?_
  · refine (ensures_decRef (by simp [hx.1]) (by simp)).mpr ?_
    have hreleased : ((((x.own extype).ownSome value).own eoFunc).raise.release extype) =
        (x.raise.own eoFunc).ownSome value := by
      simp [ownSome_own]
    rw [hreleased]
    refine (ensures_xdecRef (by simp [hx.1])).mpr ?_
    refine (ensures_decRef (by simp [hx.1]) (by simp)).mpr ?_
    refine (swallowPythonError_spec (by simp [hx.1])).then fun _ => ?_
    simpa using hclear
  intro eoArgs
  have htaken : ((((x.own extype).ownSome value).own eoFunc).own eoArgs).release extype =
      ((x.ownSome value).own eoFunc).own eoArgs := by simp
  refine ensures_tupleSetItem (by simp [hx.1]) (by simp) (by simp) ?_ ?_
  · rw [htaken]
    refine ensures_log.mpr ((ensures_errPrint (by simp [hx.1]) (by simp)).mpr ?_)
    refine (ensures_decRef (by simp [hx.1]) (by simp)).mpr ?_
    have hvalue : (((x.ownSome value).own eoFunc).own eoArgs).raise.clear.release eoArgs =
        (x.own eoFunc).ownSome value := by
      simp [ownSome_own,hclear]
    rw [hvalue]
    refine (ensures_xdecRef (by simp [hx.1])).mpr ?_
    simp [hx.1]
  · rw [htaken]
    refine (setExceptionValueSlot_spec hx).then fun ok => ?_
    cases ok
    · exact rfl
    · refine ensures_callPython (by simp [hx]) (by simp) (by simp) ?_
      intro r y hy
      refine (logHeader_spec (by simp [hx]) hy).then fun _ => ?_
      simp [hx.1]

/-- Whatever exception was pending is gone, with its three references. -/
theorem printLastPythonException_spec {b : Bundle} (hx : x.Running)
    (hb : x.Live b.tracebackModule) :
    Ensures (printLastPythonException b) (fun _ y => y = x.clear) x := by
  refine ensures_errFetch hx ?_ ?_
  · intro he
    exact (clear_of_none he).symm
  intro e v t
  have hv : ((x.clear.own e).ownSome v).Ready := by simp [hx]
  have hvt : (x.fetch ⟨some e,v,t⟩).Ready := ready_ownSome.mpr hv
  have hlive : ∀ o ∈ v, (x.fetch ⟨some e,v,t⟩).Live o := by
    rintro o rfl
    exact live_ownSome (by simp [ownSome])
  refine (extractTypeName_spec hvt ?_).then fun typeName => ?_
  · exact live_ownSome (live_ownSome (by simp [ownSome]))
  refine (extractValueString_spec (f := .repr) hvt hlive fun _ => rfl).then fun valueStr => ?_
  refine (extractValueString_spec (f := .str) hvt hlive fun _ => rfl).then fun display => ?_
  refine ensures_log.mpr ?_
  have htraceback : Ensures (formatTracebackIfAny b typeName t)
      (fun _ y => y = (x.clear.own e).ownSome v) (x.fetch ⟨some e,v,t⟩) := by
    cases t with
    | none => exact rfl
    | some t => exact formatTraceback_spec hv (live_ownSome (by simp [hb]))
  refine htraceback.then fun _ => ?_
  exact formatHeader_spec (ready_clear.mpr hx) hb

theorem toStringPy_spec {obj : Option Obj} (hx : x.Ready) (ho : ∀ o ∈ obj, x.Live o) :
    Ensures (toStringPy obj) (fun _ y => y = x) x := by
  have hclear := clear_of_none hx.error
  cases obj with
  | none => exact rfl
  | some obj =>
    refine ensures_unicodeAsUtf8 hx.1 (ho obj rfl) ?_ ?_
    · simp [hx.1,hclear]
    · intro s
      exact rfl

theorem toUint64_spec {obj : Option Obj} (hx : x.Ready) (ho : ∀ o ∈ obj, x.Live o) :
    Ensures (toUint64 obj) (fun _ y => y = x) x := by
  have hclear := clear_of_none hx.error
  cases obj with
  | none => exact rfl
  | some obj =>
    refine ensures_longAsUnsignedLongLong hx.1 (ho obj rfl) ?_
    rintro n y (rfl | rfl)
    · simp [hx.1,hx.error]
    · simp [hx.1,hclear]

end Helpers

section Calls

variable {x : Python} {b : Bundle}

/-- The error exit shared by the calls of Python code: print, then release tuple, function
and result. -/
theorem giveUp_spec {α : Type} {Q : α → Python → Prop} {k : Unit → Py α} {pFunc pArgs : Obj}
    {r : Option Obj} {y : Python} (hx : x.Ready) (hb : x.Live b.tracebackModule)
    (hy : y = ((x.own pFunc).own pArgs).ownSome r ∨ y = (((x.own pFunc).own pArgs).ownSome r).raise)
    (hk : Ensures (k ()) Q x) :
    Ensures (printLastPythonException b >>= fun _ => decRef pArgs >>= fun _ => decRef pFunc >>=
      fun _ => xdecRef r >>= k) Q y := by
  have hready : ((x.own pFunc).own pArgs).Ready := by simp [hx]
  have hlive : y.Live b.tracebackModule := by
    have hbelow : (((x.own pFunc).own pArgs).ownSome r).Live b.tracebackModule :=
      live_ownSome (by simp [hb])
    rcases hy with rfl | rfl <;> exact hbelow
  refine (printLastPythonException_spec (running_result hready hy) hlive).then fun _ => ?_
  rw [clear_result hready hy]
  refine (ensures_decRef (by simp [hx.1]) (by simp)).mpr ?_
  refine (ensures_decRef (by simp [hx.1]) (by simp)).mpr ?_
  have hreleased : ((((x.own pFunc).own pArgs).ownSome r).release pArgs).release pFunc =
      x.ownSome r := by simp
  rw [hreleased]
  exact (ensures_xdecRef hx.1).mpr hk

theorem jsonDumps_spec {obj : Option Obj} (hx : x.Ready) (hjson : x.Live b.jsonModule)
    (hb : x.Live b.tracebackModule) (ho : ∀ o ∈ obj, x.Live o) :
    Ensures (jsonDumps b obj) (fun _ y => y = x) x := by
  have hclear := clear_of_none hx.error
  cases obj with
  | none => exact rfl
  | some obj =>
    refine ensures_new hx.1 (by simpa [New.uses] using hjson) ?_ ?_
    · simp [hx.1,hclear]
    intro pFunc
    refine ensures_new (by simp [hx.1]) (by simp [New.uses]) ?_ ?_
    · simp [hx.1,hclear]
    intro pArgs
    refine (ensures_incRef (by simp [hx.1]) (by simp [ho obj rfl])).mpr ?_
    refine ensures_tupleSetItem (by simp [hx.1]) (by simp) (by simp) ?_ ?_
    · simp [hx.1,hclear]
    · rw [release_own_self]
      refine ensures_callPython (by simp [hx]) (by simp) (by simp) ?_
      intro r y hy
      refine ensures_failed (by simp [hx]) hy ?_ ?_
      · exact giveUp_spec hx hb hy rfl
      · rintro o rfl
        refine (toStringPy_spec (by simp [hx]) (by simp)).then fun result => ?_
        simp [hx.1]

/-- NULL leaves nothing behind, a result is the only new reference. -/
theorem jsonLoads_spec {content : String} (hx : x.Ready) (hjson : x.Live b.jsonModule)
    (hb : x.Live b.tracebackModule) :
    Ensures (jsonLoads b content) (fun r y => y = x.ownSome r) x := by
  have hclear := clear_of_none hx.error
  refine ensures_new hx.1 (by simpa [New.uses] using hjson) ?_ ?_
  · simp [hx.1,hclear,ownSome]
  intro pFunc
  refine ensures_new (by simp [hx.1]) (by simp [New.uses]) ?_ ?_
  · simp [hx.1,hclear,ownSome]
  intro pArgs
  cases cString content with
  | none => simp [hx.1,ownSome]
  | some cContent =>
    refine ensures_new (by simp [hx.1]) (by simp [New.uses]) ?_ ?_
    · simp [hx.1,hclear,ownSome]
    intro pValue
    refine ensures_tupleSetItem (by simp [hx.1]) (by simp) (by simp) ?_ ?_
    · simp [hx.1,hclear,ownSome]
    · rw [release_own_self]
      refine ensures_callPython (by simp [hx]) (by simp) (by simp) ?_
      intro r y hy
      refine ensures_failed (by simp [hx]) hy ?_ ?_
      · exact giveUp_spec hx hb hy rfl
      · rintro o rfl
        simp [hx.1,ownSome]

/-- The guard is dropped on both ways out, and `None` is no result. -/
theorem callFunction_spec {pFunc pArgs : Obj} (hx : x.Ready) (hb : x.Live b.tracebackModule)
    (hbundle : x.bundle = none) :
    Ensures (callFunction b pFunc pArgs) (fun r y => y = x.ownSome r ∧ r ≠ some pyNone)
      ((x.own pFunc).own pArgs) := by
  have hback : (x.inBundle (some b.bundleHash)).inBundle none = x := by
    rw [inBundle_inBundle,inBundle_of_eq hbundle]
  refine ensures_setCurrentThreadBundle.mpr ?_
  rw [own_inBundle,own_inBundle]
  refine ensures_callPython (by simp [hx]) (by simp) (by simp) ?_
  intro r y hy
  refine ensures_failed (by simp [hx]) hy ?_ ?_
  · refine giveUp_spec (by simp [hx]) (by simp [hb]) hy ?_
    refine ensures_clearCurrentThreadBundle.mpr ?_
    exact ⟨hback,by simp⟩
  · rintro o rfl
    refine ensures_clearCurrentThreadBundle.mpr ?_
    rw [own_inBundle,own_inBundle,own_inBundle,hback]
    refine (ensures_decRef (by simp [hx.1]) (by simp)).mpr ?_
    refine (ensures_decRef (by simp [hx.1]) (by simp)).mpr ?_
    by_cases ho : o = pyNone
    · simp [ho,hx.1,ownSome]
    · simp [ho,ownSome]

theorem addJobData_spec {pFunc pArgs : Obj} {jobData : String} (hx : x.Ready)
    (hb : x.Live b.tracebackModule) (hbundle : x.bundle = none) :
    Ensures (addJobData b pFunc pArgs jobData) (fun r y => y = x.ownSome r ∧ r ≠ some pyNone)
      ((x.own pFunc).own pArgs) := by
  have hclear := clear_of_none hx.error
  rw [addJobData]
  cases cString jobData with
  | none => simp [hx.1,ownSome]
  | some cJobData =>
    refine ensures_new (by simp [hx.1]) (by simp [New.uses]) ?_ ?_
    · refine (swallowPythonError_spec (by simp [hx.1])).then fun _ => ?_
      simp [hx.1,hclear,ownSome]
    intro pJobData
    refine ensures_tupleSetItem (by simp [hx.1]) (by simp) (by simp) ?_ ?_
    · simp [hx.1,hclear,ownSome]
    · rw [release_own_self]
      exact callFunction_spec hx hb hbundle

/-- The references are as before, up to the result; the one exception left behind is that of
an argument tuple that could not be allocated. -/
theorem run_spec {func details jobData : String} (hx : x.Ready) (hmodule : x.Live b.bundleModule)
    (hjson : x.Live b.jsonModule) (hb : x.Live b.tracebackModule) (hbundle : x.bundle = none) :
    Ensures (run b func details jobData)
      (fun r y => (y = x.ownSome r ∧ r ≠ some pyNone) ∨ (r = none ∧ y = x.raise)) x := by
  have hclear := clear_of_none hx.error
  refine (jsonLoads_spec hx hjson hb).then fun json => ?_
  cases json with
  | none => exact .inl ⟨rfl,by simp⟩
  | some jsonObj =>
    change Ensures (match cString func with | none => _ | some sFunc => _) _ (x.own jsonObj)
    cases cString func with
    | none => simp [hx.1,ownSome]
    | some sFunc =>
      refine ensures_new (by simp [hx.1]) (by simp [New.uses,hmodule]) ?_ ?_
      · refine (swallowPythonError_spec (by simp [hx.1])).then fun _ => ?_
        simp [hx.1,hclear,ownSome]
      intro pFunc
      refine ensures_callableCheck (by simp [hx.1]) (by simp) fun callable => ?_
      cases callable
      · simp [hx.1,ownSome]
      refine ensures_new (by simp [hx.1]) (by simp [New.uses]) ?_ ?_
      · simp [hx.1,ownSome]
      intro pArgs
      refine ensures_tupleSetItem (by simp [hx.1]) (by simp) (by simp) ?_ ?_
      · simp [hx.1,hclear,ownSome]
      · have htaken : (((x.own jsonObj).own pFunc).own pArgs).release jsonObj =
            (x.own pFunc).own pArgs := by simp
        rw [htaken]
        exact (addJobData_spec hx hb hbundle).mono fun r y h => .inl h

end Calls

end BundleInterface
end JobControllerClient
