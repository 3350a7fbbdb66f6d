import JobControllerClient.Values

/-! The configuration: `config.rs` and the choice of the token in `main.rs`. What passes the
validation is all that the start of the daemon asks for; next to it only a request for help on the
command line decides. -/
namespace JobControllerClient
namespace Configuration

/-- `config.get(key)`. -/
def field? : Json → String → Option Json
  | .object fields, key => fields.lookup key
  | _, _ => none

def trimmed (s : String) : String := String.ofList (trim s.toList)

def validLogLevels : List String := ["trace","debug","info","warn","error","off"]

def validateStringField (config : Json) (key : String) (required : Bool) : List String :=
  match field? config key with
  | none | some .null => if required then [s!"{key} is missing or null"] else []
  | some (.string s) => if trimmed s = "" then [s!"{key} is empty"] else []
  | some _ => [s!"{key} must be a string"]

def getNonEmptyStr (config : Json) (key : String) : Option String :=
  (((field? config key).bind Json.asStr).map trimmed).filter (· ≠ "")

def validateLogLevel (config : Json) : List String :=
  match getNonEmptyStr config "logLevel" with
  | some level =>
    let levels := ", ".intercalate validLogLevels
    if validLogLevels.contains level then [] else [s!"logLevel must be one of: {levels}"]
  | none => []

def configErrors (config : Json) : List String :=
  validateStringField config "pythonLibrary" true ++
    validateStringField config "websocketEndpoint" true ++
    validateStringField config "logLevel" false ++ validateStringField config "ltk" false ++
    validateLogLevel config

def validateConfig (config : Json) : Except (List String) Unit :=
  if configErrors config = [] then .ok () else .error (configErrors config)

def getLtkFromConfig (config : Json) : Option String := getNonEmptyStr config "ltk"

/-- `none` ends the process; `env` is the value of `PYTHON_LIB_PATH`. -/
def getPythonLibraryPath (env : Option String) (config : Json) : Option String :=
  ((env.map trimmed).filter (· ≠ "")).or (getNonEmptyStr config "pythonLibrary")

def ensureWebsocketEndpointTrailingSlash (endpoint : String) : String :=
  if endpoint.toList.getLast? = some '/' then endpoint else endpoint ++ "/"

def getWebsocketEndpoint (config : Json) : String :=
  ensureWebsocketEndpointTrailingSlash
    ((getNonEmptyStr config "websocketEndpoint").getD "ws://127.0.0.1:8001/ws/")

def getLogLevel (config : Json) : String := (getNonEmptyStr config "logLevel").getD "info"

def cliToken (args : List String) : Option String := ((args[1]?).map trimmed).filter (· ≠ "")

/-- The token, and whether it is persistent. -/
def resolveWebsocketToken (args : List String) (config : Json) : Except String (String × Bool) :=
  match getLtkFromConfig config, cliToken args with
  | some _, some _ =>
    .error "Both config.json 'ltk' and a CLI WebSocket token were provided. Remove one."
  | some token, none => .ok (token,true)
  | none, some token => .ok (token,false)
  | none, none =>
    .error "No WebSocket token configured. Set config.json 'ltk' or pass a CLI token."

/-- What `main` has in hand when it connects. -/
structure Launch where
  pythonLibrary : String
  token : String
  reconnectable : Bool
  endpoint : String
  logLevel : String

/-- How far `main` gets: it prints its usage and exits, it exits with errors, or it connects. -/
inductive Start
  | usage
  | refused (errors : List String)
  | launched (l : Launch)

def helpRequested (args : List String) : Bool :=
  args[1]? = some "--help" || args[1]? = some "-h"

/-- `main` up to `start_with_token`, apart from the update check. -/
def launch (env : Option String) (args : List String) (config : Json) : Start :=
  if helpRequested args then .usage
  else match validateConfig config with
  | .error errors => .refused errors
  | .ok () => match getPythonLibraryPath env config with
    | none => .refused ["Error: pythonLibrary not found in config.json and " ++
        "PYTHON_LIB_PATH environment variable is not set"]
    | some pythonLibrary => match resolveWebsocketToken args config with
      | .error message => .refused [message]
      | .ok (token,reconnectable) => .launched ⟨pythonLibrary,token,reconnectable,
        getWebsocketEndpoint config,getLogLevel config⟩

def Absent (config : Json) (key : String) : Prop :=
  field? config key = none ∨ field? config key = some .null

def Filled (config : Json) (key : String) : Prop :=
  ∃ s, field? config key = some (.string s) ∧ trimmed s ≠ ""

/-- What the configuration has to be, in its own terms. -/
structure Acceptable (config : Json) : Prop where
  pythonLibrary : Filled config "pythonLibrary"
  websocketEndpoint : Filled config "websocketEndpoint"
  ltk : Absent config "ltk" ∨ Filled config "ltk"
  logLevel : Absent config "logLevel" ∨
    ∃ s, field? config "logLevel" = some (.string s) ∧ trimmed s ∈ validLogLevels

variable {config : Json} {key : String} {required : Bool}

theorem getNonEmptyStr_eq_some {value : String} : getNonEmptyStr config key = some value ↔
    ∃ s, field? config key = some (.string s) ∧ trimmed s = value ∧ value ≠ "" := by
  unfold getNonEmptyStr
  simp only [Option.filter_eq_some_iff,Option.map_eq_some_iff,Option.bind_eq_some_iff,
    decide_eq_true_eq]
  constructor
  · rintro ⟨⟨s,⟨value',hfield,hs⟩,rfl⟩,hne⟩
    cases value' with
    | string s' =>
      cases hs
      exact ⟨s,hfield,rfl,hne⟩
    | _ => cases hs
  · rintro ⟨s,hfield,rfl,hne⟩
    exact ⟨⟨s,⟨_,hfield,rfl⟩,rfl⟩,hne⟩

theorem filled_iff : Filled config key ↔ (getNonEmptyStr config key).isSome = true := by
  rw [Option.isSome_iff_exists]
  constructor
  · rintro ⟨s,hfield,hne⟩
    exact ⟨_,getNonEmptyStr_eq_some.mpr ⟨s,hfield,rfl,hne⟩⟩
  · rintro ⟨value,hvalue⟩
    obtain ⟨s,hfield,rfl,hne⟩ := getNonEmptyStr_eq_some.mp hvalue
    exact ⟨s,hfield,hne⟩

theorem validateStringField_eq_nil : validateStringField config key required = [] ↔
    (required = false ∧ Absent config key) ∨ Filled config key := by
  unfold validateStringField Absent Filled
  cases hfield : field? config key with
  | none => cases required <;> simp
  | some value =>
    cases value with
    | null => cases required <;> simp
    | string s => by_cases hs : trimmed s = "" <;> simp [hs]
    | _ => simp

theorem validateLogLevel_eq_nil : validateLogLevel config = [] ↔
    ∀ level, getNonEmptyStr config "logLevel" = some level → level ∈ validLogLevels := by
  unfold validateLogLevel
  cases getNonEmptyStr config "logLevel" with
  | none => simp
  | some level =>
    by_cases hlevel : level ∈ validLogLevels <;> simp [hlevel]

theorem validateConfig_iff : validateConfig config = .ok () ↔ Acceptable config := by
  have herrors : validateConfig config = .ok () ↔
      Filled config "pythonLibrary" ∧ Filled config "websocketEndpoint" ∧
        (Absent config "logLevel" ∨ Filled config "logLevel") ∧
        (Absent config "ltk" ∨ Filled config "ltk") ∧
        ∀ level, getNonEmptyStr config "logLevel" = some level → level ∈ validLogLevels := by
    have hnil : validateConfig config = .ok () ↔ configErrors config = [] := by
      unfold validateConfig
      split <;> simp_all
    rw [hnil]
    simp [configErrors,validateStringField_eq_nil,validateLogLevel_eq_nil]
  rw [herrors]
  constructor
  · rintro ⟨hlibrary,hendpoint,hlevel,hltk,hvalid⟩
    refine ⟨hlibrary,hendpoint,hltk,hlevel.imp_right ?_⟩
    rintro ⟨s,hfield,hne⟩
    exact ⟨s,hfield,hvalid _ (getNonEmptyStr_eq_some.mpr ⟨s,hfield,rfl,hne⟩)⟩
  · rintro ⟨hlibrary,hendpoint,hltk,hlevel⟩
    refine ⟨hlibrary,hendpoint,hlevel.imp_right ?_,hltk,fun level hsome => ?_⟩
    · rintro ⟨s,hfield,hvalid⟩
      refine ⟨s,hfield,fun hempty => ?_⟩
      rw [hempty] at hvalid
      exact absurd hvalid (by decide)
    · obtain ⟨s,hfield,rfl,-⟩ := getNonEmptyStr_eq_some.mp hsome
      rcases hlevel with (hnone | hnull) | ⟨s',hfield',hvalid⟩
      · cases hnone.symm.trans hfield
      · cases hnull.symm.trans hfield
      · cases hfield'.symm.trans hfield
        exact hvalid

theorem endpoint_slash (endpoint : String) :
    (ensureWebsocketEndpointTrailingSlash endpoint).toList.getLast? = some '/' := by
  unfold ensureWebsocketEndpointTrailingSlash
  split
  · assumption
  · simp

theorem resolve_iff {args : List String} : (∃ r, resolveWebsocketToken args config = .ok r) ↔
    (Filled config "ltk" ↔ cliToken args = none) := by
  rw [filled_iff,← getLtkFromConfig]
  unfold resolveWebsocketToken
  cases getLtkFromConfig config <;> cases cliToken args <;> simp

theorem resolve_ok {args : List String} {token : String} {reconnectable : Bool}
    (h : resolveWebsocketToken args config = .ok (token,reconnectable)) :
    token ≠ "" ∧ (reconnectable = true ↔ Filled config "ltk") := by
  rw [filled_iff,← getLtkFromConfig]
  unfold resolveWebsocketToken at h
  split at h
  · cases h
  · rename_i hltk _
    cases h
    obtain ⟨-,-,-,hne⟩ := getNonEmptyStr_eq_some.mp hltk
    exact ⟨hne,by simp [hltk]⟩
  · rename_i hltk hcli
    cases h
    have hne := (Option.filter_eq_some_iff.mp hcli).2
    exact ⟨by simpa using hne,by simp [hltk]⟩
  · cases h

theorem getLogLevel_mem (h : Acceptable config) : getLogLevel config ∈ validLogLevels := by
  unfold getLogLevel
  cases hlevel : getNonEmptyStr config "logLevel" with
  | none => decide
  | some level =>
    obtain ⟨s,hfield,rfl,-⟩ := getNonEmptyStr_eq_some.mp hlevel
    rcases h.logLevel with (hnone | hnull) | ⟨s',hfield',hvalid⟩
    · cases hnone.symm.trans hfield
    · cases hnull.symm.trans hfield
    · cases hfield'.symm.trans hfield
      exact hvalid

theorem getPythonLibraryPath_some (env : Option String) (h : Acceptable config) :
    ∃ path, getPythonLibraryPath env config = some path ∧ path ≠ "" := by
  unfold getPythonLibraryPath
  cases henv : (env.map trimmed).filter (· ≠ "") with
  | some path => exact ⟨path,rfl,by simpa using (Option.filter_eq_some_iff.mp henv).2⟩
  | none =>
    obtain ⟨s,hfield,hne⟩ := h.pythonLibrary
    exact ⟨trimmed s,getNonEmptyStr_eq_some.mpr ⟨s,hfield,rfl,hne⟩,hne⟩

theorem launch_eq {env : Option String} {args : List String} {l : Launch} :
    launch env args config = .launched l ↔ helpRequested args = false ∧ Acceptable config ∧
      getPythonLibraryPath env config = some l.pythonLibrary ∧
      resolveWebsocketToken args config = .ok (l.token,l.reconnectable) ∧
      l.endpoint = getWebsocketEndpoint config ∧ l.logLevel = getLogLevel config := by
  rw [← validateConfig_iff]
  unfold launch
  constructor
  · intro h
    split at h
    · cases h
    · rename_i hhelp
      split at h
      · cases h
      · rename_i hvalid
        split at h
        · cases h
        · rename_i path hpath
          split at h
          · cases h
          · rename_i token reconnectable hresolve
            cases h
            exact ⟨by simpa using hhelp,hvalid,hpath,hresolve,rfl,rfl⟩
  · rintro ⟨hhelp,hvalid,hpath,hresolve,hendpoint,hlevel⟩
    simp only [hhelp,hvalid,hpath,hresolve]
    cases l
    simp_all

theorem launch_usage {env : Option String} {args : List String} :
    launch env args config = .usage ↔ helpRequested args = true := by
  unfold launch
  cases helpRequested args with
  | true => simp
  | false =>
    simp only [Bool.false_eq_true,if_false,iff_false]
    intro h
    repeat' split at h
    all_goals cases h

/-- The usage is printed exactly on request. Otherwise the daemon starts exactly with an acceptable
configuration and one token, from the configuration or from the command line but not from both.
Then it has a Python library, a token, an endpoint that ends in a slash and a valid log level, and
the token is persistent exactly if it comes from the configuration. -/
theorem launch_decided (env : Option String) (args : List String) (config : Json) :
    (launch env args config = .usage ↔ helpRequested args = true) ∧
    ((∃ l, launch env args config = .launched l) ↔ helpRequested args = false ∧
      Acceptable config ∧ (Filled config "ltk" ↔ cliToken args = none)) ∧
    ∀ l, launch env args config = .launched l →
      l.pythonLibrary ≠ "" ∧ l.token ≠ "" ∧ l.endpoint.toList.getLast? = some '/' ∧
      l.logLevel ∈ validLogLevels ∧ (l.reconnectable = true ↔ Filled config "ltk") := by
  refine ⟨launch_usage,?_,?_⟩
  · constructor
    · rintro ⟨l,hl⟩
      obtain ⟨hhelp,haccept,-,hresolve,-⟩ := launch_eq.mp hl
      exact ⟨hhelp,haccept,resolve_iff.mp ⟨_,hresolve⟩⟩
    · rintro ⟨hhelp,haccept,htoken⟩
      obtain ⟨path,hpath,-⟩ := getPythonLibraryPath_some env haccept
      obtain ⟨⟨token,reconnectable⟩,hresolve⟩ := resolve_iff.mpr htoken
      exact ⟨⟨path,token,reconnectable,getWebsocketEndpoint config,getLogLevel config⟩,
        launch_eq.mpr ⟨hhelp,haccept,hpath,hresolve,rfl,rfl⟩⟩
  · intro l hl
    obtain ⟨-,haccept,hpath,hresolve,hendpoint,hlevel⟩ := launch_eq.mp hl
    obtain ⟨path,hpath',hne⟩ := getPythonLibraryPath_some env haccept
    obtain rfl : path = l.pythonLibrary := Option.some.inj (hpath'.symm.trans hpath)
    obtain ⟨htoken,hkind⟩ := resolve_ok hresolve
    refine ⟨hne,htoken,?_,?_,hkind⟩
    · rw [hendpoint]
      exact endpoint_slash _
    · rw [hlevel]
      exact getLogLevel_mem haccept

def Start.launched? : Start → Option Launch
  | .launched l => some l
  | _ => none

-- a configuration with a persistent token and no log level
example : (launch none ["client"] (.object [("pythonLibrary",.string "lib.so"),
    ("websocketEndpoint",.string " ws://host "),("ltk",.string "t")])).launched?.map
      (fun l => (l.endpoint,l.logLevel,l.reconnectable)) = some ("ws://host/","info",true) := by
  decide +kernel

end Configuration
end JobControllerClient
