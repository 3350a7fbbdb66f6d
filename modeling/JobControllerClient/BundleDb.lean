import JobControllerClient.BundleManager
import JobControllerClient.PythonCallbacks

/-! `bundle_db.rs` and the modules it is registered with: the functions that Python calls back.
The GIL and `PYTHON_MUTEX` are held by the caller, and while a callback talks to Python, other
callbacks may run in it. -/
namespace JobControllerClient
namespace BundleDb

open Messaging PythonApi PythonApi.Python BundleInterface BundleManager

def dbBundleCreateOrUpdateJob : UInt32 := 8000

def dbBundleGetJobById : UInt32 := 8001

def dbBundleDeleteJob : UInt32 := 8002

/-- The first exception object of a bundle is kept for the later calls. -/
def getBundleDbError (bundleHash : String) : Py (Option Obj) := do
  lockErrors
  match ← lookupError bundleHash with
  | some exc =>
    unlockErrors
    return some exc
  | none =>
    match ← newException "_bundledb.error" with
    | none =>
      unlockErrors
      return none
    | some err =>
      insertError bundleHash err true
      unlockErrors
      return some err

/-- `get_bundle_db_error_or_abort`, which only adds a log line. -/
def getBundleDbErrorOrAbort : String → Py (Option Obj) := getBundleDbError

/-- The module keeps the exception object alive. -/
def setBundleDbError (bundleHash : String) (exc : Obj) : Py Unit := do
  lockErrors
  insertError bundleHash exc false
  unlockErrors
  return

def errCstring (msg : String) : String := (cString msg).getD "Internal error"

def setPyError (errorObj : Obj) (msg : String) : Py Unit := do
  errSetString errorObj (errCstring msg)
  return

def setDbErrorAndReturnNull (errorObj : Obj) (msg : String) : Py (Option Obj) := do
  setPyError errorObj msg
  return none

def reportDbError (bundleHash msg : String) : Py (Option Obj) := do
  match ← getBundleDbErrorOrAbort bundleHash with
  | none => return none
  | some errorObj => setDbErrorAndReturnNull errorObj msg

def getJobByIdLoadFailure (bundleHash : String) : Py (Option Obj) :=
  reportDbError bundleHash "Bundle not found in cache"

def loadBundleFailure (bundleHash : String) : Py Unit := do
  let _ ← reportDbError bundleHash "Bundle not found in cache"
  return

def parseResponse (response : Message) : Message := response.cloneForPayloadReading

def buildBundleCreateOrUpdateMessage (bundleHash : String) (jobId : UInt64) (jobDataJson : String) :
    Message :=
  (((Message.new dbBundleCreateOrUpdateJob .medium "database").pushUlong jobId).pushString
    jobDataJson).pushString bundleHash

def buildBundleIdMessage (msgId : UInt32) (jobId : UInt64) : Message :=
  (Message.new msgId .medium "database").pushUlong jobId

def buildBundleGetByIdMessage : UInt64 → Message := buildBundleIdMessage dbBundleGetJobById

def buildBundleDeleteMessage : UInt64 → Message := buildBundleIdMessage dbBundleDeleteJob

def parseCreateOrUpdateResponse (response : Message) : Except String UInt64 :=
  let newJobId := (parseResponse response).popUlong.1
  if newJobId = 0 then .error "Job was unable to be created or updated." else .ok newJobId

def parseGetJobByIdResponse (response : Message) (requestedJobId : UInt64) : Except String String :=
  let (count,resp) := (parseResponse response).popUint
  if count = 0 then .error s!"Job with ID {requestedJobId} does not exist."
  else .ok resp.popUlong.2.popString.1

def jobIdOf (jobData : Json) : UInt64 := (jobData.index "job_id").asU64.getD 0

def withoutJobId : Json → Json
  | .object fields => .object (fields.filter fun field => field.1 ≠ "job_id")
  | jobData => jobData

def returnPyNone : Py (Option Obj) := do
  incRef pyNone
  return some pyNone

def setJobIdInDict (dict : Obj) (value : Option Obj) (errorObj : Obj) : Py Bool :=
  match value with
  | none => do
    setPyError errorObj "Failed to allocate job_id"
    return false
  | some value => do
    if ← dictSetItemString dict "job_id" value then
      decRef value
      return true
    else
      decRef value
      setPyError errorObj "Failed to set job_id in dict"
      return false

/-- The id as a Python integer, put into the dictionary. -/
def storeJobId (dict : Obj) (jobId : UInt64) (errorObj : Obj) : Py Bool := do
  let value ← longFromUnsignedLongLong jobId
  setJobIdInDict dict value errorObj

section Callbacks

-- `serde_json::from_str`, `serde_json::to_string` and the bundle path
variable (fromStr : String → Option Json) (toText : Json → String) (root : String)

def loadBundleAndJobId (dict : Obj) : Py (Option (String × UInt64 × Json)) := do
  let bundleHash := (← getCurrentThreadBundle).getD "unknown"
  match ← loadBundle root bundleHash with
  | .error _ =>
    loadBundleFailure bundleHash
    return none
  | .ok bundle =>
    match ← jsonDumps bundle (some dict) with
    | .error _ =>
      let _ ← reportDbError bundleHash "Failed to serialize job data"
      return none
    | .ok jsonStr =>
      let jobData := (fromStr jsonStr).getD .null
      return some (bundleHash,jobIdOf jobData,jobData)

def finishCreate (dict errorObj : Obj) : Except String Message → Py (Option Obj)
  | .error e => setDbErrorAndReturnNull errorObj s!"DB error: {e}"
  | .ok response =>
    match parseCreateOrUpdateResponse response with
    | .error message => setDbErrorAndReturnNull errorObj message
    | .ok newJobId => do
      if ← storeJobId dict newJobId errorObj then returnPyNone else return none

def createOrUpdateJob (args : Obj) : Py (Option Obj) := do
  match ← tupleGetItem args 0 with
  | none => return none
  | some dict =>
    match ← loadBundleAndJobId fromStr root dict with
    | none => return none
    | some (bundleHash,jobId,jobData) =>
      let msg := buildBundleCreateOrUpdateMessage bundleHash jobId (toText (withoutJobId jobData))
      match ← getBundleDbErrorOrAbort bundleHash with
      | none => return none
      | some errorObj =>
        let answer ← sendAndWait msg
        finishCreate dict errorObj answer

def finishGet (bundle : Bundle) (jobId : UInt64) (errorObj : Obj) :
    Except String Message → Py (Option Obj)
  | .error e => setDbErrorAndReturnNull errorObj s!"DB error: {e}"
  | .ok response =>
    match parseGetJobByIdResponse response jobId with
    | .error message => setDbErrorAndReturnNull errorObj message
    | .ok jobDataJson => do
      match ← jsonLoads bundle jobDataJson with
      | none => setDbErrorAndReturnNull errorObj "Failed to parse job data JSON"
      | some dict =>
        if ← storeJobId dict jobId errorObj then return some dict
        else
          decRef dict
          return none

def getJobById (args : Obj) : Py (Option Obj) := do
  match ← tupleGetItem args 0 with
  | none => return none
  | some jobIdObj =>
    let bundleHash := (← getCurrentThreadBundle).getD "unknown"
    let jobId ← longAsUnsignedLongLong jobIdObj
    if ← errOccurred then
      errClear
      reportDbError bundleHash "Job ID must be an integer"
    else
      match ← loadBundle root bundleHash with
      | .error _ => getJobByIdLoadFailure bundleHash
      | .ok bundle =>
        match ← getBundleDbErrorOrAbort bundleHash with
        | none => return none
        | some errorObj =>
          let answer ← sendAndWait (buildBundleGetByIdMessage jobId)
          finishGet bundle jobId errorObj answer

def deleteJob (args : Obj) : Py (Option Obj) := do
  match ← tupleGetItem args 0 with
  | none => return none
  | some dict =>
    match ← loadBundleAndJobId fromStr root dict with
    | none => return none
    | some (bundleHash,jobId,_) =>
      if jobId = 0 then reportDbError bundleHash "Job ID must be provided."
      else
        match ← sendAndWait (buildBundleDeleteMessage jobId) with
        | .ok _ => returnPyNone
        | .error e => reportDbError bundleHash s!"DB error: {e}"

end Callbacks

/-- The module with its exception, which `PyModule_AddObject` steals. -/
def createModule : Py (Option (Obj × Obj)) := do
  match ← moduleCreate "_bundledb" with
  | none => return none
  | some module =>
    match ← newException "_bundledb.error" with
    | none =>
      decRef module
      return none
    | some exc =>
      if ← moduleAddObject module "error" exc then return some (module,exc)
      else
        decRef exc
        decRef module
        return none

def pyInitBundledb : Py (Option Obj) := do
  match ← createModule with
  | none => return none
  | some (module,exc) =>
    match ← getCurrentThreadBundle with
    | none => return some module
    | some bundleHash =>
      setBundleDbError bundleHash exc
      return some module

/-- `write_log` of `bundle_logging.rs`; the lines it puts together are those of `BundleLogging`. -/
def writeLog (args : Obj) : Py (Option Obj) := do
  let _ ← tupleGetItem args 0
  match ← tupleGetItem args 1 with
  | none =>
    errClear
    returnPyNone
  | some argMsg =>
    match ← unicodeAsUtf8 argMsg with
    | none =>
      errClear
      returnPyNone
    | some _ => returnPyNone

def pyInitBundlelogging : Py (Option Obj) := moduleCreate "_bundlelogging"

def methods (fromStr : String → Option Json) (toText : Json → String) (root : String) : Methods
  | .createOrUpdateJob => createOrUpdateJob fromStr toText root
  | .getJobById => getJobById root
  | .deleteJob => deleteJob fromStr root
  | .pyInitBundledb => fun _ => pyInitBundledb
  | .writeLog => writeLog
  | .pyInitBundlelogging => fun _ => pyInitBundlelogging

/-- `get_current_thread_bundle().unwrap_or("unknown")` -/
def bundleHash (x : Python) : String := x.bundle.getD "unknown"

/-- In the log, `json.dumps` of the bundle was called with the object, and gave the text. -/
def Dumped (b : Bundle) (obj : Obj) (text : String) (log : List Entry) : Prop :=
  ∃ (pFunc pArgs pValue : Obj) (utf8 : Option String), text = utf8.getD "" ∧
    List.Sublist [⟨.new (.getAttrString b.jsonModule "dumps"),some pFunc⟩,
      ⟨.tupleSetItem pArgs 0 obj,true⟩,⟨.callObject pFunc pArgs,some pValue⟩,
      ⟨.unicodeAsUtf8 pValue,utf8⟩] log

/-- In the log, the dictionary is the first argument, and `jobData` the JSON value of its text. -/
def JobData (fromStr : String → Option Json) (x : Python) (args : Obj) (log : List Entry)
    (jobData : Json) : Prop :=
  ∃ (dict : Obj) (b : Bundle) (text : String), ⟨.tupleGetItem args 0,some dict⟩ ∈ log ∧
    (bundleHash x,b) ∈ x.cache ∧ Dumped b dict text log ∧ jobData = (fromStr text).getD .null

/-- The request that the arguments and the bundle of a callback determine. -/
def Request (fromStr : String → Option Json) (toText : Json → String) (x : Python) (args : Obj)
    (log : List Entry) (msg : Message) : Native → Prop
  | .createOrUpdateJob => ∃ jobData, JobData fromStr x args log jobData ∧
    msg = buildBundleCreateOrUpdateMessage (bundleHash x) (jobIdOf jobData)
      (toText (withoutJobId jobData))
  | .getJobById => ∃ (jobIdObj : Obj) (jobId : UInt64),
    ⟨.tupleGetItem args 0,some jobIdObj⟩ ∈ log ∧ ⟨.longAsUnsignedLongLong jobIdObj,jobId⟩ ∈ log ∧
    msg = buildBundleGetByIdMessage jobId
  | .deleteJob => ∃ jobData, JobData fromStr x args log jobData ∧ jobIdOf jobData ≠ 0 ∧
    msg = buildBundleDeleteMessage (jobIdOf jobData)
  | _ => False

section Logs

variable {b : Bundle} {obj : Obj} {text : String} {l m : List Entry}

theorem Dumped.mono (h : Dumped b obj text l) (hm : l <+: m) : Dumped b obj text m := by
  obtain ⟨pFunc,pArgs,pValue,utf8,htext,hsub⟩ := h
  exact ⟨pFunc,pArgs,pValue,utf8,htext,hsub.trans hm.sublist⟩

theorem JobData.mono {fromStr : String → Option Json} {x : Python} {args : Obj} {jobData : Json}
    (h : JobData fromStr x args l jobData) (hm : l <+: m) : JobData fromStr x args m jobData := by
  obtain ⟨dict,b,text,hdict,hb,hdumped,hdata⟩ := h
  exact ⟨dict,b,text,hm.subset hdict,hb,hdumped.mono hm,hdata⟩

def DumpedIfOk (b : Bundle) (obj : Obj) (r : Except String String) (log : List Entry) : Prop :=
  ∀ text, r = .ok text → Dumped b obj text log

theorem dumped_error {p : Py Unit} {e : String} :
    Program.wp Program.requests (p >>= fun _ => pure (Except.error e)) (DumpedIfOk b obj) l := by
  refine Program.wp_requests_then fun _ m _ text ht => ?_
  cases ht

theorem dumped_givenUp {pArgs pFunc : Obj} {pValue : Option Obj} {e : String} :
    Program.wp Program.requests (do
      printLastPythonException b
      decRef pArgs
      decRef pFunc
      xdecRef pValue
      return .error e) (DumpedIfOk b obj) l :=
  Program.wp_requests_then fun _ _ _ => Program.wp_requests_then fun _ _ _ =>
    Program.wp_requests_then fun _ _ _ => dumped_error

theorem dumped_finished {pArgs pFunc pValue : Obj} {text : String} (h : Dumped b obj text l) :
    Program.wp Program.requests (do
      decRef pArgs
      decRef pFunc
      decRef pValue
      return .ok text) (DumpedIfOk b obj) l := by
  refine Program.wp_requests_then fun _ m hm => ?_
  refine Program.wp_requests_then fun _ m' hm' => ?_
  refine Program.wp_requests_then fun _ m'' hm'' => ?_
  intro text' ht
  cases ht
  exact h.mono (hm.trans (hm'.trans hm''))

theorem dumped_calls {pFunc pArgs pValue : Obj} {new own check : Entry} (utf8 : Option String) :
    Dumped b obj (utf8.getD "") (((((((l ++ [⟨.new (.getAttrString b.jsonModule "dumps"),some pFunc⟩]) ++
      [new]) ++ [own]) ++ [⟨.tupleSetItem pArgs 0 obj,true⟩]) ++
      [⟨.callObject pFunc pArgs,some pValue⟩]) ++ [check]) ++ [⟨.unicodeAsUtf8 pValue,utf8⟩]) := by
  refine ⟨pFunc,pArgs,pValue,utf8,rfl,?_⟩
  simp only [List.append_assoc,List.singleton_append]
  refine List.Sublist.trans ?_ (List.sublist_append_right l _)
  exact .cons_cons _ (.cons _ (.cons _ (.cons_cons _ (.cons_cons _ (.cons _ (.cons_cons _ .slnil))))))

theorem jsonDumps_requests :
    Program.wp Program.requests (jsonDumps b (some obj)) (DumpedIfOk b obj) l := by
  refine Program.wp_requests_ask ?_
  intro pFunc
  cases pFunc with
  | none => exact dumped_error
  | some pFunc =>
    refine Program.wp_requests_ask ?_
    intro pArgs
    cases pArgs with
    | none => exact Program.wp_requests_then fun _ _ _ => dumped_error
    | some pArgs =>
      refine Program.wp_requests_ask fun _ => ?_
      refine Program.wp_requests_ask ?_
      intro (ok : Bool)
      cases ok with
      | false =>
        exact Program.wp_requests_then fun _ _ _ => Program.wp_requests_then fun _ _ _ => dumped_error
      | true =>
        refine Program.wp_requests_ask ?_
        intro pValue
        cases pValue with
        | none => exact dumped_givenUp
        | some pValue =>
          refine Program.wp_requests_ask ?_
          intro (raised : Bool)
          cases raised with
          | true => exact dumped_givenUp
          | false =>
            refine Program.wp_requests_ask ?_
            intro utf8
            cases utf8 with
            | none =>
              refine Program.wp_requests_ask fun _ => ?_
              exact dumped_finished ((dumped_calls none).mono (List.prefix_append _ _))
            | some s => exact dumped_finished (dumped_calls (some s))

end Logs

section Contract

variable {x y : Python} {hash : String} {l : List Entry}

theorem serves_returned {p : Py (Option Obj)} (hp : Ensures p (Returned x) x) (hy : Ran x y) :
    Serves p (fun r z m => Returned x r z ∧ Silent l m) y l := by
  refine (hp.serves hy).mono ?_
  rintro r z m ⟨w,hw,hR,hm⟩
  exact ⟨hw.ran hR,hm⟩

theorem stored_lookup {exc : Obj} (hx : Stored x) (h : x.errorObjects.lookup hash = some exc) :
    x.Live exc := by
  obtain ⟨before,after,hmem,-⟩ := List.lookup_eq_some_iff.mp h
  rcases hx.errors (hash,exc) (by simp [hmem]) with hkept | hlent
  · exact .inr (.inr (.inr (.inl hkept)))
  · exact .inr (.inr (.inl hlent))

/-- NULL leaves an exception, and an exception object is alive. -/
def Found (x : Python) (l : List Entry) (r : Option Obj) (y : Python) (m : List Entry) : Prop :=
  Silent l m ∧ ((r = none ∧ Returned x none y) ∨ ∃ exc, r = some exc ∧ Ran x y ∧ y.Live exc)

theorem getBundleDbErrorOrAbort_spec (hx : x.Ready) :
    Serves (getBundleDbErrorOrAbort hash) (Found x l) x l := by
  refine serves_lockErrors fun m hm hfree => ?_
  refine serves_lookupError fun m' hm' => ?_
  have hback : (x.withErrorsLocked true).withErrorsLocked false = x := by
    rw [withErrorsLocked,withErrorsLocked,← hfree]
  have hrunning : (x.withErrorsLocked true).Running :=
    ⟨⟨hx.stored.1,hx.stored.2⟩,hx.current,hx.gil,hx.mutex⟩
  have hsame : (x.withErrorsLocked true).errorObjects = x.errorObjects := rfl
  rw [hsame]
  cases hlookup : x.errorObjects.lookup hash with
  | some exc =>
    refine serves_unlockErrors fun n hn => ?_
    rw [hback]
    exact ⟨(hm.trans hm').trans hn,.inr ⟨exc,rfl,.refl x,stored_lookup hx.stored hlookup⟩⟩
  | none =>
    refine serves_new hrunning (by simp [New.uses]) ?_ ?_
    · intro z n hz hn
      obtain ⟨hran,-⟩ := ran_unlocked hfree hz
      refine serves_unlockErrors fun n' hn' => ?_
      exact ⟨((hm.trans hm').trans hn).trans hn',.inl ⟨rfl,z.withErrorsLocked false,.python,hran,rfl⟩⟩
    · intro exc z n hz hn
      obtain ⟨hran,htable⟩ := ran_unlocked hfree hz
      refine serves_insertError fun n' hn' => ?_
      refine serves_unlockErrors fun n'' hn'' => ?_
      rw [cond_true,keep_own_self]
      have hmade : Ran (z.withErrorsLocked false)
          (((z.withErrorsLocked false).pin exc).withError hash exc) :=
        ran_made rfl (by rw [← hlookup,← htable]; rfl)
      refine ⟨(((hm.trans hm').trans hn).trans hn').trans hn'',.inr ⟨exc,rfl,hran.trans hmade,?_⟩⟩
      simp [Live,pin,withError,withErrorsLocked]

theorem setDbErrorAndReturnNull_spec {errorObj : Obj} {msg : String} (hx : x.Running)
    (he : x.Live errorObj) : Ensures (setDbErrorAndReturnNull errorObj msg) (Returned x) x :=
  (ensures_errSetString hx he).mpr (returned_raised (.refl x))

theorem setDbErrorAndReturnNull_none {errorObj : Obj} {msg : String} (hx : x.Running)
    (he : x.Live errorObj) :
    Serves (setDbErrorAndReturnNull errorObj msg)
      (fun r y m => r = none ∧ Returned x r y ∧ Silent l m) x l := by
  have hnone : Ensures (setDbErrorAndReturnNull errorObj msg)
      (fun r y => r = none ∧ Returned x r y) x :=
    (ensures_errSetString hx he).mpr ⟨rfl,returned_raised (.refl x)⟩
  refine (hnone.serves (.refl x)).mono ?_
  rintro r z m ⟨w,⟨rfl,hw⟩,hR,hm⟩
  exact ⟨rfl,hw.ran hR,hm⟩

theorem reportDbError_spec {msg : String} (hx : x.Ready) :
    Serves (reportDbError hash msg) (fun r y m => r = none ∧ Returned x r y ∧ Silent l m) x l := by
  refine (getBundleDbErrorOrAbort_spec hx).bind ?_
  rintro r y m ⟨hm,⟨rfl,hy⟩ | ⟨exc,rfl,hR,hlive⟩⟩
  · exact ⟨rfl,hy,hm⟩
  · refine (setDbErrorAndReturnNull_none (hR.running hx.1) hlive).mono ?_
    rintro r z m' ⟨rfl,hz,hm'⟩
    exact ⟨rfl,hz.after hR,hm.trans hm'⟩

/-- With the mutex held only a cached bundle is returned; another load waits for ever. -/
theorem loadBundle_held {root : String} (hx : x.mutex = true) :
    Ensures (loadBundle root hash) (fun r y => y = x ∧ ∃ b, r = .ok b ∧ (hash,b) ∈ x.cache) x := by
  refine ensures_lookupBundle.mpr ?_
  cases hlookup : x.cache.lookup hash with
  | some b =>
    obtain ⟨before,after,hmem,-⟩ := List.lookup_eq_some_iff.mp hlookup
    exact ⟨rfl,b,rfl,by simp [hmem]⟩
  | none =>
    refine ensures_lookupBundle.mpr ?_
    rw [hlookup]
    refine ensures_lockPython fun hfree => ?_
    rw [hx] at hfree
    cases hfree

/-- The value is given back in every case. -/
theorem storeJobId_spec {dict errorObj : Obj} (hx : x.Ready) (hdict : x.Live dict)
    (he : x.Live errorObj) (jobId : UInt64) :
    Ensures (storeJobId dict jobId errorObj)
      (fun b y => if b then y = x else ∃ e, y = x.withRaised e) x := by
  refine ensures_new hx.1 (by simp [New.uses]) ?_ ?_
  · exact (ensures_errSetString (by simp [hx.1]) (by simp [he])).mpr ⟨_,rfl⟩
  intro value
  refine ensures_put (by simp [hx.1]) (by simp [Put.uses,hdict]) ?_ ?_
  · refine (ensures_decRef (by simp [hx.1]) (by simp)).mpr ?_
    simp only [own_raise,release_own_self]
    exact (ensures_errSetString (by simp [hx.1]) (by simp [he])).mpr ⟨_,rfl⟩
  · simp [hx.1]

theorem returnPyNone_spec (hx : x.Running) : Ensures returnPyNone (Returned x) x :=
  (ensures_incRef hx (.inl rfl)).mpr (returned_own (.refl x))

theorem finishCreate_spec {dict errorObj : Obj} (hx : x.Ready) (hdict : x.Live dict)
    (he : x.Live errorObj) (answer : Except String Message) :
    Ensures (finishCreate dict errorObj answer) (Returned x) x := by
  have hfail : ∀ msg, Ensures (setDbErrorAndReturnNull errorObj msg) (Returned x) x :=
    fun msg => setDbErrorAndReturnNull_spec hx.1 he
  cases answer with
  | error e => exact hfail _
  | ok response =>
    rw [finishCreate]
    cases parseCreateOrUpdateResponse response with
    | error message => exact hfail message
    | ok newJobId =>
      refine (storeJobId_spec hx hdict he newJobId).bind ?_
      intro b y hy
      cases b with
      | true =>
        obtain rfl : y = x := hy
        exact returnPyNone_spec hx.1
      | false =>
        obtain ⟨e,rfl⟩ := hy
        exact returned_raised (.refl x)

theorem finishGet_spec {b : Bundle} {jobId : UInt64} {errorObj : Obj} (hx : x.Ready)
    (hjson : x.Live b.jsonModule) (htraceback : x.Live b.tracebackModule) (he : x.Live errorObj)
    (answer : Except String Message) :
    Ensures (finishGet b jobId errorObj answer) (Returned x) x := by
  have hfail : ∀ msg, Ensures (setDbErrorAndReturnNull errorObj msg) (Returned x) x :=
    fun msg => setDbErrorAndReturnNull_spec hx.1 he
  cases answer with
  | error e => exact hfail _
  | ok response =>
    rw [finishGet]
    cases parseGetJobByIdResponse response jobId with
    | error message => exact hfail message
    | ok jobDataJson =>
      refine (jsonLoads_spec hx hjson htraceback).then fun r => ?_
      cases r with
      | none => exact hfail _
      | some dict =>
        have hready : (x.own dict).Ready := ready_own.mpr hx
        have hdict : (x.own dict).Live dict := live_own.mpr (.inl rfl)
        refine (storeJobId_spec hready hdict (live_own.mpr (.inr he)) jobId).bind ?_
        intro b y hy
        cases b with
        | true =>
          obtain rfl : y = x.own dict := hy
          exact returned_own (.refl x)
        | false =>
          obtain ⟨e,rfl⟩ := hy
          have hback : ((x.own dict).withRaised e).release dict = x.withRaised e :=
            release_own_self (x := x.withRaised e)
          have hrunning : ((x.own dict).withRaised e).Running :=
            ⟨⟨hx.stored.1,hx.stored.2⟩,hx.current,hx.gil,hx.mutex⟩
          rw [if_neg Bool.false_ne_true]
          refine (ensures_decRef hrunning (Multiset.mem_cons_self _ _)).mpr ?_
          rw [hback]
          exact returned_raised (.refl x)

/-- What a callback does: it returns as Python expects, and it fails or makes one request. -/
structure Contract (x : Python) (l : List Entry) (request : Message → List Entry → Prop)
    (r : Option Obj) (y : Python) (m : List Entry) : Prop where
  returned : Returned x r y
  logged : l <+: m
  sent : (sends m = sends l ∧ r = none) ∨ ∃ msg, sends m = sends l ++ [msg] ∧ request msg m

variable {request : Message → List Entry → Prop}

theorem contract_failed {m : List Entry} (h : Returned x none y) (hm : Silent l m) :
    Contract x l request none y m := ⟨h,hm.1,.inl ⟨hm.2,rfl⟩⟩

theorem Contract.after {m n : List Entry} {r : Option Obj} {z : Python} (hx : Ran x y)
    (hm : Silent l m) (h : Contract y m request r z n) : Contract x l request r z n := by
  refine ⟨h.returned.after hx,hm.1.trans h.logged,?_⟩
  rw [← hm.2]
  exact h.sent

theorem loadBundleAndJobId_spec {fromStr : String → Option Json} {root : String} {dict : Obj}
    (hx : x.Ready) (hdict : x.Live dict) :
    Serves (loadBundleAndJobId fromStr root dict) (fun r y m => Silent l m ∧
      ((r = none ∧ Returned x none y) ∨ ∃ b text, Ran x y ∧ (bundleHash x,b) ∈ x.cache ∧
        Dumped b dict text m ∧ r = some (bundleHash x,jobIdOf ((fromStr text).getD .null),
          (fromStr text).getD .null))) x l := by
  refine serves_getCurrentThreadBundle fun m hm => ?_
  refine (loadBundle_held hx.mutex).serve (.refl x) ?_
  rintro _ w y m' ⟨rfl,b,rfl,hmem⟩ hR hm'
  obtain ⟨-,hjson,htraceback⟩ := Python.Stored.live hx.stored hmem
  have hobj : ∀ o ∈ some dict, w.Live o := by simpa using hdict
  refine (((jsonDumps_spec hx hjson htraceback hobj).serves hR).and jsonDumps_requests).bind ?_
  rintro r z n ⟨⟨w,rfl,hR',hn⟩,hdumped⟩
  have hsilent := (hm.trans hm').trans hn
  cases r with
  | error e =>
    refine (reportDbError_spec (hR'.ready hx)).bind ?_
    rintro r z' n' ⟨rfl,hz,hn'⟩
    exact ⟨hsilent.trans hn',.inl ⟨rfl,hz.after hR'⟩⟩
  | ok text => exact ⟨hsilent,.inr ⟨b,text,hR',hmem,hdumped text rfl,rfl⟩⟩

theorem request_spec {msg : Message} {finish : Obj → Except String Message → Py (Option Obj)}
    (hx : x.Ready) (hmsg : ∀ m, l <+: m → request msg m)
    (hfinish : ∀ y errorObj answer, Ran x y → y.Live errorObj →
      Ensures (finish errorObj answer) (Returned y) y) :
    Serves (getBundleDbErrorOrAbort hash >>= fun
      | none => return none
      | some errorObj => do
        let answer ← sendAndWait msg
        finish errorObj answer) (Contract x l request) x l := by
  refine (getBundleDbErrorOrAbort_spec hx).bind ?_
  rintro r y m ⟨hm,⟨rfl,hy⟩ | ⟨exc,rfl,hR,hlive⟩⟩
  · exact contract_failed hy hm
  · refine serves_sendAndWait fun answer m' hm' hsent => ?_
    refine (serves_returned (hfinish y exc answer hR hlive) (.refl y)).mono ?_
    rintro r z n ⟨hz,hn⟩
    have hlog := (hm.1.trans hm').trans hn.1
    refine ⟨hz.after hR,hlog,.inr ⟨msg,?_,hmsg n hlog⟩⟩
    rw [hn.2,hsent,hm.2]

theorem argument_spec {args : Obj} {body : Obj → Py (Option Obj)} (hx : x.Ready)
    (hargs : x.Live args)
    (hbody : ∀ o y m, Ran x y → y.Live o → Silent l m → ⟨.tupleGetItem args 0,some o⟩ ∈ m →
      Serves (body o) (Contract y m request) y m) :
    Serves (tupleGetItem args 0 >>= fun
      | none => return none
      | some o => body o) (Contract x l request) x l := by
  refine serves_tupleGetItem hx.1 hargs ?_ ?_
  · intro y m hR hm
    exact contract_failed (returned_raised hR) hm
  · intro o y hR hlive
    have hm : Silent l (l ++ [⟨.tupleGetItem args 0,some o⟩]) := silent_append rfl
    refine (hbody o y _ hR hlive hm (by simp)).mono ?_
    intro r z n hz
    exact hz.after hR hm

end Contract

section Callbacks

variable {fromStr : String → Option Json} {toText : Json → String} {root : String}
  {x y : Python} {args : Obj} {l m : List Entry}

theorem JobData.of_ran {dict : Obj} {b : Bundle} {text : String} (hR : Ran x y)
    (hdict : ⟨.tupleGetItem args 0,some dict⟩ ∈ m) (hb : (bundleHash y,b) ∈ y.cache)
    (hdumped : Dumped b dict text m) : JobData fromStr x args m ((fromStr text).getD .null) := by
  rw [hR.cache,bundleHash,hR.bundle] at hb
  exact ⟨dict,b,text,hdict,hb,hdumped,rfl⟩

theorem createOrUpdateJob_spec (hx : x.Ready) (hargs : x.Live args) :
    Serves (createOrUpdateJob fromStr toText root args)
      (Contract x l fun msg m => Request fromStr toText x args m msg .createOrUpdateJob) x l := by
  refine argument_spec hx hargs fun dict y m hR hdict hm hmem => ?_
  refine (loadBundleAndJobId_spec (hR.ready hx) hdict).bind ?_
  rintro r z n ⟨hn,⟨rfl,hz⟩ | ⟨b,text,hR',hb,hdumped,rfl⟩⟩
  · exact contract_failed hz hn
  · have hdata : JobData fromStr x args n ((fromStr text).getD .null) :=
      .of_ran hR (hn.1.subset hmem) hb hdumped
    have hhash : bundleHash y = bundleHash x := by rw [bundleHash,hR.bundle,bundleHash]
    refine (request_spec (hR'.ready (hR.ready hx)) ?_ ?_).mono fun r w n' hw => hw.after hR' hn
    · intro n' hn'
      exact ⟨_,hdata.mono hn',by rw [hhash]⟩
    · intro w errorObj answer hw he
      exact finishCreate_spec (hw.ready (hR'.ready (hR.ready hx))) (hw.live (hR'.live hdict)) he answer

theorem getJobById_spec (hx : x.Ready) (hargs : x.Live args) :
    Serves (getJobById root args)
      (Contract x l fun msg m => Request fromStr toText x args m msg .getJobById) x l := by
  refine argument_spec hx hargs fun jobIdObj y m hR hobj hm hmem => ?_
  have hy := hR.ready hx
  refine serves_getCurrentThreadBundle fun n hn => ?_
  refine serves_longAsUnsignedLongLong hy.1 hobj ?_
  intro jobId z w hz hw
  have hn : Silent m (n ++ [⟨.longAsUnsignedLongLong jobIdObj,jobId⟩]) := hn.trans (silent_append rfl)
  have hready := hz.ready hy
  rcases hw with rfl | rfl
  · refine (errOccurred_spec hready.1).serve (.refl w) ?_
    rintro _ _ u n' ⟨rfl,rfl⟩ hu hn'
    rw [hready.error]
    refine (loadBundle_held (hu.ready hready).mutex).serve (.refl u) ?_
    rintro _ _ v n'' ⟨rfl,b,rfl,hmem'⟩ hv hn''
    have hstored := (hu.ready hready).stored
    obtain ⟨-,hjson,htraceback⟩ := Python.Stored.live hstored hmem'
    have hsilent := (hn.trans hn').trans hn''
    have hran := (hz.trans hu).trans hv
    refine (request_spec (hran.ready hy) ?_ ?_).mono fun r t k ht => ht.after hran hsilent
    · intro k hk
      refine ⟨jobIdObj,jobId,((hsilent.1.trans hk).subset hmem),?_,rfl⟩
      exact ((hn'.1.trans hn''.1).trans hk).subset (by simp)
    · intro t errorObj answer ht he
      have hlive := hv.trans ht
      exact finishGet_spec (ht.ready (hran.ready hy)) (hlive.live hjson) (hlive.live htraceback) he answer
  · -- The exception of the conversion is replaced.
    refine (errOccurred_spec (running_raise.mpr hready.1)).serve (.refl z.raise) ?_
    rintro _ _ u n' ⟨rfl,rfl⟩ hu hn'
    refine (errClear_spec (running_raise.mpr hready.1)).serve hu ?_
    rintro _ _ v n'' rfl hv hn''
    rw [raise_clear,clear_of_none hready.error] at hv
    refine (reportDbError_spec (hv.ready hready)).mono ?_
    rintro r t k ⟨rfl,ht,hk⟩
    exact contract_failed (ht.after (hz.trans hv)) (((hn.trans hn').trans hn'').trans hk)

theorem deleteJob_spec (hx : x.Ready) (hargs : x.Live args) :
    Serves (deleteJob fromStr root args)
      (Contract x l fun msg m => Request fromStr toText x args m msg .deleteJob) x l := by
  refine argument_spec hx hargs fun dict y m hR hdict hm hmem => ?_
  refine (loadBundleAndJobId_spec (hR.ready hx) hdict).bind ?_
  rintro r z n ⟨hn,⟨rfl,hz⟩ | ⟨b,text,hR',hb,hdumped,rfl⟩⟩
  · exact contract_failed hz hn
  have hready := hR'.ready (hR.ready hx)
  have hdata : JobData fromStr x args n ((fromStr text).getD .null) :=
    .of_ran hR (hn.1.subset hmem) hb hdumped
  change Serves (if jobIdOf ((fromStr text).getD .null) = 0 then _ else _) _ _ _
  split
  · refine (reportDbError_spec hready).mono ?_
    rintro r w k ⟨rfl,hw,hk⟩
    exact contract_failed (hw.after hR') (hn.trans hk)
  · rename_i hid
    refine serves_sendAndWait fun answer n' hn' hsent => ?_
    have hdone : ∀ r w k, Returned z r w → Silent n' k → Contract y m
        (fun msg m => Request fromStr toText x args m msg .deleteJob) r w k := by
      intro r w k hw hk
      refine ⟨hw.after hR',(hn.1.trans hn').trans hk.1,.inr ⟨_,?_,_,hdata.mono (hn'.trans hk.1),hid,rfl⟩⟩
      rw [hk.2,hsent,hn.2]
    cases answer with
    | ok response =>
      refine (serves_returned (returnPyNone_spec hready.1) (.refl z)).mono ?_
      rintro r w k ⟨hw,hk⟩
      exact hdone r w k hw hk
    | error e =>
      refine (reportDbError_spec hready).mono ?_
      rintro r w k ⟨-,hw,hk⟩
      exact hdone r w k hw hk

theorem createModule_spec (hx : x.Ready) :
    Ensures createModule (fun r y => (r = none ∧ y = x.withRaised .python) ∨
      ∃ module exc, r = some (module,exc) ∧ y = (x.lends {exc}).own module) x := by
  refine ensures_new hx.1 (by simp [New.uses]) (.inl ⟨rfl,rfl⟩) ?_
  intro module
  refine ensures_new (by simp [hx.1]) (by simp [New.uses]) ?_ ?_
  · refine (ensures_decRef (by simp [hx.1]) (by simp)).mpr ?_
    rw [own_raise,release_own_self]
    exact .inl ⟨rfl,rfl⟩
  intro exc
  refine ensures_moduleAddObject (by simp [hx.1]) (by simp) (by simp) ?_ ?_
  · refine (ensures_decRef (by simp [hx.1]) (by simp)).mpr ?_
    rw [own_raise,release_own_self]
    refine (ensures_decRef (by simp [hx.1]) (by simp)).mpr ?_
    rw [own_raise,release_own_self]
    exact .inl ⟨rfl,rfl⟩
  · rw [release_own_self]
    exact .inr ⟨module,exc,rfl,rfl⟩

theorem pyInitBundledb_spec (hx : x.Ready) :
    Serves pyInitBundledb (fun r y m => Returned x r y ∧ Silent l m) x l := by
  refine (createModule_spec hx).serve (.refl x) ?_
  rintro _ w y m (⟨rfl,rfl⟩ | ⟨module,exc,rfl,rfl⟩) hR hm
  · exact ⟨(returned_raised (.refl x)).ran hR,hm⟩
  obtain ⟨z,hz,rfl⟩ := ran_own hR
  refine serves_getCurrentThreadBundle fun n hn => ?_
  cases (z.own module).bundle with
  | none => exact ⟨returned_own ((ran_lends {exc}).trans hz),hm.trans hn⟩
  | some hash =>
    refine serves_lockErrors fun k hk hfree => ?_
    refine serves_insertError fun k' hk' => ?_
    refine serves_unlockErrors fun k'' hk'' => ?_
    have hexc : exc ∈ z.lent := by
      obtain ⟨g,-,rfl⟩ := hz
      simp [Python.grow,lends]
    have hstate : ((((z.own module).withErrorsLocked true).withError hash exc).withErrorsLocked false) =
        (z.withError hash exc).own module := by
      apply Python.ext <;> simp [withErrorsLocked,withError,own]
      exact hfree
    have hnoted : Ran z (z.withError hash exc) := ran_noted hfree hexc
    change Returned x (some module) ((((z.own module).withErrorsLocked true).withError hash
      exc).withErrorsLocked false) ∧ _
    rw [hstate]
    exact ⟨returned_own (((ran_lends {exc}).trans hz).trans hnoted),
      (((hm.trans hn).trans hk).trans hk').trans hk''⟩

theorem writeLog_spec (hx : x.Ready) (hargs : x.Live args) : Ensures (writeLog args) (Returned x) x := by
  have hclear := clear_of_none hx.error
  have hnone : ∀ objs : Finset Obj, Ensures returnPyNone (Returned x) (x.lends objs) := by
    intro objs
    refine (returnPyNone_spec (running_lends hx.1)).mono ?_
    intro r y hy
    exact hy.after (ran_lends objs)
  refine ensures_tupleGetItem hx.1 hargs ?_ ?_
  · refine ensures_tupleGetItem (running_raise.mpr hx.1) hargs ?_ ?_
    · refine (ensures_errClear (running_raise.mpr (running_raise.mpr hx.1))).mpr ?_
      rw [raise_clear,raise_clear,hclear]
      exact returnPyNone_spec hx.1
    · intro o he
      cases he
  · intro isStdout _
    have hready : (x.lends {isStdout}).Ready := ready_lends hx
    refine ensures_tupleGetItem hready.1 (by simp [hargs]) ?_ ?_
    · refine (ensures_errClear (running_raise.mpr hready.1)).mpr ?_
      rw [raise_clear,clear_of_none hready.error]
      exact hnone {isStdout}
    · intro argMsg _
      rw [lends_lends]
      have hmore : (x.lends ({argMsg} ∪ {isStdout})).Ready := ready_lends hx
      refine ensures_unicodeAsUtf8 hmore.1 (by simp) ?_ ?_
      · refine (ensures_errClear (running_raise.mpr hmore.1)).mpr ?_
        rw [raise_clear,clear_of_none hmore.error]
        exact hnone _
      · intro s
        exact hnone _

theorem pyInitBundlelogging_spec (hx : x.Ready) : Ensures pyInitBundlelogging (Returned x) x :=
  ensures_new (k := pure) hx.1 (by simp [New.uses]) (returned_raised (.refl x))
    fun _ => returned_own (.refl x)

def asks : Native → Bool
  | .createOrUpdateJob | .getJobById | .deleteJob => true
  | _ => false

/-- A callback of `_bundledb` that makes no request fails; otherwise it makes one. -/
def Asked (fromStr : String → Option Json) (toText : Json → String) (x : Python) (native : Native)
    (args : Obj) (r : Option Obj) (log : List Entry) : Prop :=
  (sends log = [] ∧ (asks native = true → r = none)) ∨
    ∃ msg, sends log = [msg] ∧ Request fromStr toText x args log msg native

theorem methods_spec (native : Native) (hx : x.Ready) (hargs : x.Live args) :
    Serves (methods fromStr toText root native args)
      (fun r y m => Returned x r y ∧ Asked fromStr toText x native args r m) x [] := by
  have hasked : ∀ {request : Message → List Entry → Prop} {r y m}, Contract x [] request r y m →
      (∀ msg, request msg m → Request fromStr toText x args m msg native) →
      Returned x r y ∧ Asked fromStr toText x native args r m := by
    intro request r y m h hrequest
    refine ⟨h.returned,?_⟩
    rcases h.sent with ⟨hsent,rfl⟩ | ⟨msg,hsent,hmsg⟩
    · exact .inl ⟨hsent,fun _ => rfl⟩
    · exact .inr ⟨msg,hsent,hrequest msg hmsg⟩
  cases native with
  | createOrUpdateJob =>
    exact (createOrUpdateJob_spec hx hargs).mono fun r y m h => hasked h fun _ hmsg => hmsg
  | getJobById =>
    exact (getJobById_spec hx hargs).mono fun r y m h => hasked h fun _ hmsg => hmsg
  | deleteJob =>
    exact (deleteJob_spec hx hargs).mono fun r y m h => hasked h fun _ hmsg => hmsg
  | pyInitBundledb =>
    exact (pyInitBundledb_spec hx).mono fun r y m h => ⟨h.1,.inl ⟨h.2.2,fun hasks => nomatch hasks⟩⟩
  | writeLog =>
    exact (serves_returned (writeLog_spec hx hargs) (.refl x)).mono fun r y m h =>
      ⟨h.1,.inl ⟨h.2.2,fun hasks => nomatch hasks⟩⟩
  | pyInitBundlelogging =>
    exact (serves_returned (pyInitBundlelogging_spec hx) (.refl x)).mono fun r y m h =>
      ⟨h.1,.inl ⟨h.2.2,fun hasks => nomatch hasks⟩⟩

theorem methods_sound : (methods fromStr toText root).Sound :=
  fun native _ _ hx hargs => (methods_spec native hx hargs).mono fun _ _ _ h => h.1

/-- The interpreter with one cached bundle. -/
def oneBundle : Python :=
  { initial 1 with
    owned := {18}
    kept := {32,25,27}
    states := [11,1]
    saved := some 1
    cache := [("h",⟨11,32,25,27,"h"⟩)] }

/-- A function of the cached bundle is running, with one tuple of arguments. -/
def running : Python :=
  { oneBundle with
    lent := {60}
    current := some 40
    gil := true
    states := [40,11,1]
    mutex := true
    bundle := some "h" }

def sampleJob (_ : String) : Option Json := some (.object [("job_id",.posInt 7)])

def created : Message := (Message.new 7000 .highest "system").pushUlong 7

/-- The answers to a creation, in which `json.dumps` prints a line; `table` are those of the
exception object, which is new or already there. -/
def createAnswers (table : List Choice) : List Choice :=
  [.obj 61,.go,.go,.obj 64,.obj 65,.go,.flag true,
    .python [(.writeLog,90,[.obj 1,.obj 91,.text "saving",.go])] (.obj 68),
    .go,.text "job",.go,.go,.go,.go,.go] ++ table ++ [.answer (.ok created),.obj 78,.flag true,.go,.go]

def newException75 : List Choice := [.obj 75,.go,.go]

theorem Request.congr {msg : Message} {native : Native} {log : List Entry}
    (hbundle : y.bundle = x.bundle) (hcache : y.cache = x.cache)
    (h : Request fromStr toText y args log msg native) :
    Request fromStr toText x args log msg native := by
  have hhash : bundleHash y = bundleHash x := by rw [bundleHash,hbundle,bundleHash]
  cases native <;> first | exact h | simpa only [Request,JobData,hhash,hcache] using h

end Callbacks

end BundleDb
end JobControllerClient
