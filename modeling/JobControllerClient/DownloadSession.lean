import JobControllerClient.DownloadFrames
import JobControllerClient.FileListing

/-! A whole download of `files/mod.rs`: `run_download_supervisor` around the transfer loop, from
the connection to the release of both halves, on a file system that does not change meanwhile. -/
namespace JobControllerClient
namespace DownloadSession

open Messaging FileSystem TransferLoop TransferStream
open UploadPath (fullPath validatePathIsWithin popToExisting_spec)
open FileListing (JobLookupError)

def fileDownloadDetails : UInt32 := 4001

/-- In seconds. -/
def serverReadyTimeout : ℕ := 10

inductive Handshake
  | item (i : Incoming)
  | elapsed

def validateServerReady : Handshake → Except String Message
  | .item (some (.ok (.binary data))) =>
    let msg := Message.fromData data
    let id := msg.id
    if id = MessageId.serverReady then .ok msg else .error s!"expected SERVER_READY, got {id}"
  | .item (some (.ok _)) => .error "expected binary SERVER_READY, got unexpected frame"
  | .item (some (.error e)) => .error s!"handshake error: {e}"
  | .item none => .error "server closed connection before sending SERVER_READY"
  | .elapsed => .error s!"timeout waiting for SERVER_READY after {serverReadyTimeout}s"

/-- What the sink of the file connection takes over. -/
inductive Out
  | binary (frame : List UInt8)
  | close
  deriving DecidableEq

/-- The suspension points of the supervisor; `released none` never had a connection. -/
inductive Stage
  | connecting
  | handshake
  | lookup
  | locate (workingDirectory : String)
  | inspect (absPath : Location)
  | details (absPath : Location) (fileSize : ℕ)
  | opening (absPath : Location) (fileSize : ℕ)
  | transfer (absPath : Location) (s : Supervisor)
  | report (errorMsg primaryMsg : String)
  | closing (primary : AuthoritativeResult)
  | acknowledge (primary : AuthoritativeResult)
  | released (result : Option AuthoritativeResult)

/-- `sent` are the frames on the file connection, `queued` those on the main one. -/
structure Session where
  stage : Stage
  sent : List Out
  queued : List (List UInt8)

def start : Session := ⟨.connecting,[],[]⟩

/-- The results of the awaited operations. A send that fails may have been taken over. -/
inductive Label
  | connected (ok : Bool)
  | handshake (h : Handshake)
  | looked
  | located
  | metadata (r : Except String Unit)
  | sent (accepted ok : Bool)
  | opened (ok : Bool)
  | poll (p : Poll)
  | incoming (item : Incoming)
  | elapsed (accepted : Bool)

def detailsMessage (ctx : TransferContext) (fileSize : ℕ) : List UInt8 :=
  ((Message.new fileDownloadDetails .highest ctx.uuid).pushUlong (UInt64.ofNat fileSize)).data

/-- A read returns the bytes at the offset, and nothing only at the end. -/
def readable (fs : FileSystem) (absPath : Location) (s : Supervisor) : Poll → Bool
  | .read bytes =>
    match fs.node absPath with
    | some (.file content) => decide (bytes <+: content.drop s.fileOffset) &&
      (bytes ≠ [] || content.length ≤ s.fileOffset)
    | _ => false
  | _ => true

namespace Session

def enter (x : Session) (stage : Stage) : Session := { x with stage }

def emit (x : Session) (accepted : Bool) (out : Out) : Session :=
  { x with sent := if accepted then x.sent ++ [out] else x.sent }

/-- `fail_download` up to its first suspension point. -/
def failDownload (x : Session) (errorMsg : Option String) (primaryMsg : String) : Session :=
  match errorMsg with
  | some msg => x.enter (.report msg primaryMsg)
  | none => x.enter (.closing (.primaryError primaryMsg))

def handshaken (x : Session) : Except String Message → Session
  | .ok _ => x.enter .lookup
  | .error reason => x.failDownload (some s!"SERVER_READY validation failed: {reason}")
      s!"SERVER_READY validation failed: {reason}"

def locate (fs : FileSystem) (filePath : String) (x : Session) (workingDirectory : String) : Session :=
  match fs.canonicalize (fullPath workingDirectory filePath) with
  | .error _ => x.failDownload (some "Path to file download does not exist") "canonicalize failed"
  | .ok absPath =>
    if validatePathIsWithin fs (absolute absPath) (.parse workingDirectory.toList) then
      x.enter (.inspect absPath)
    else x.failDownload (some "Path to file download is outside the working directory")
      "path outside working directory"

def inspect (fs : FileSystem) (x : Session) (absPath : Location) : Except String Unit → Session
  | .error e => x.failDownload (some s!"Failed to get file metadata: {e}") "metadata read failed"
  | .ok () =>
    match fs.node absPath with
    | some (.file content) => x.enter (.details absPath content.length)
    | _ => x.failDownload (some "Path to file download is not a file") "path is not a file"

/-- The transfer loop goes on, or its frames and its result are handed to the clean-up. -/
def transferred (x : Session) (absPath : Location) (t : Supervisor) : Session :=
  if t.phase = .done then
    ⟨.closing t.state.authoritative,x.sent ++ (acceptedFrames t.log).map .binary,x.queued⟩
  else x.enter (.transfer absPath t)

def step (fs : FileSystem) (ctx : TransferContext) (lookup : Except JobLookupError String)
    (filePath : String) (x : Session) : Stage → Label → Option Session
  | .connecting, .connected true => some (x.enter .handshake)
  | .connecting, .connected false => some { x with
      stage := .released none
      queued := x.queued ++ [errorMessage ctx "Failed to connect to file websocket"] }
  | .handshake, .handshake h => some (x.handshaken (validateServerReady h))
  | .lookup, .looked =>
    match lookup with
    | .ok workingDirectory => some (x.enter (.locate workingDirectory))
    | .error e =>
      let msg := e.clientMessage
      some (x.failDownload (some msg) s!"job lookup failed: {msg}")
  | .locate workingDirectory, .located => some (x.locate fs filePath workingDirectory)
  | .inspect absPath, .metadata r => some (x.inspect fs absPath r)
  | .details absPath fileSize, .sent accepted ok =>
    let y := x.emit accepted (.binary (detailsMessage ctx fileSize))
    if ok then if accepted then some (y.enter (.opening absPath fileSize)) else none
    else some (y.failDownload none "details send failed")
  | .opening absPath fileSize, .opened true =>
    some (x.enter (.transfer absPath (Supervisor.start fileSize)))
  | .opening _ _, .opened false =>
    some (x.failDownload (some "Failed to open file for download") "file open failed")
  | .transfer absPath s, .poll p =>
    if readable fs absPath s p then ((machine ctx).step s p).map (x.transferred absPath) else none
  | .report errorMsg primaryMsg, .sent accepted _ =>
    some ((x.emit accepted (.binary (errorMessage ctx errorMsg))).enter
      (.closing (.primaryError primaryMsg)))
  | .closing primary, .sent accepted ok =>
    let y := x.emit accepted .close
    if ok then if accepted then some (y.enter (.acknowledge primary)) else none
    else some (y.enter (.released (some primary)))
  | .closing primary, .elapsed accepted =>
    some ((x.emit accepted .close).enter (.released (some primary)))
  | .acknowledge primary, .incoming (some (.ok .close)) => some (x.enter (.released (some primary)))
  | .acknowledge primary, .incoming (some (.ok _)) => some (x.enter (.acknowledge primary))
  | .acknowledge primary, .incoming (some (.error _)) => some (x.enter (.released (some primary)))
  | .acknowledge primary, .incoming none => some (x.enter (.released (some primary)))
  | .acknowledge primary, .elapsed _ => some (x.enter (.released (some primary)))
  | _, _ => none

/-- What has gone out on the file connection so far. -/
def wire (x : Session) : List Out :=
  match x.stage with
  | .transfer _ s => x.sent ++ (acceptedFrames s.log).map .binary
  | _ => x.sent

def chosen (x : Session) : Option AuthoritativeResult :=
  match x.stage with
  | .closing r | .acknowledge r => some r
  | .released r => r
  | _ => none

end Session

/-- `run_download_supervisor`, one awaited result a step. -/
def session (fs : FileSystem) (ctx : TransferContext) (lookup : Except JobLookupError String)
    (filePath : String) : StepMachine Session Label :=
  ⟨fun x => x.step fs ctx lookup filePath x.stage⟩

def lossless : Label → Bool
  | .sent accepted ok => accepted && ok
  | .poll p => arrives p
  | _ => true

/-- A chunk that the sink holds is armed again. -/
def duplicates (x : Session) (a : Label) : Bool :=
  match x.stage, a with
  | .transfer _ s, .poll p => rearms s p
  | _, _ => false

section Session

variable (told exact : Prop) (fs : FileSystem) (ctx : TransferContext)
variable (lookup : Except JobLookupError String) (filePath : String)

/-- The canonical path of the request lies below the canonical working directory of the job. -/
def Within (absPath : Location) : Prop :=
  ∃ workingDirectory working, lookup = .ok workingDirectory ∧
    fs.canonicalize (.parse workingDirectory.toList) = .ok working ∧
    fs.canonicalize (fullPath workingDirectory filePath) = .ok absPath ∧ working <+: absPath

/-- Nothing of a file, or the size of one file of the job and then chunks of it. -/
inductive Served (chosen : Option AuthoritativeResult) : List (List UInt8) → List (List UInt8) → Prop
  | nothing (hr : ∀ r, chosen = some r → r.isPrimary = true) : Served chosen [] []
  | file (absPath : Location) (content : List UInt8) (chunks : List (List UInt8))
      (hw : Within fs lookup filePath absPath) (hn : fs.node absPath = some (.file content))
      (hc : ∀ f ∈ chunks, IsChunk ctx content f)
      (he : exact → chosen = some .cleanEof → (chunks.filterMap chunkPayload?).flatten = content) :
      Served chosen [detailsMessage ctx content.length] chunks

/-- The frames before the Close, `chosen` being the result that is already known. -/
def Wrote (chosen : Option AuthoritativeResult) (out : List Out) : Prop :=
  ∃ details chunks errors, out = (details ++ chunks ++ errors).map .binary ∧
    Served exact fs ctx lookup filePath chosen details chunks ∧
    (chosen = none → errors = []) ∧
    ∀ r, chosen = some r → r ≠ .pending ∧ Reported told ctx r errors

/-- What is known at each suspension point. -/
def At (sent : List Out) : Stage → Prop
  | .connecting | .handshake | .lookup => sent = []
  | .locate workingDirectory => lookup = .ok workingDirectory ∧ sent = []
  | .inspect absPath => Within fs lookup filePath absPath ∧ sent = []
  | .details absPath fileSize => ∃ content, Within fs lookup filePath absPath ∧
      fs.node absPath = some (.file content) ∧ fileSize = content.length ∧ sent = []
  | .opening absPath fileSize => ∃ content, Within fs lookup filePath absPath ∧
      fs.node absPath = some (.file content) ∧ fileSize = content.length ∧
      sent = [.binary (detailsMessage ctx content.length)]
  | .transfer absPath s => ∃ content, Within fs lookup filePath absPath ∧
      fs.node absPath = some (.file content) ∧
      sent = [.binary (detailsMessage ctx content.length)] ∧ s.phase ≠ .done ∧
      Streaming told ctx content s ∧ (exact → Tracked ctx content.length Eq s)
  | .report _ _ => Wrote told exact fs ctx lookup filePath none sent
  | .closing r => Wrote told exact fs ctx lookup filePath (some r) sent
  | .acknowledge r => ∃ body, sent = body ++ [.close] ∧
      Wrote told exact fs ctx lookup filePath (some r) body
  | .released none => sent = []
  | .released (some r) => ∃ body closes, sent = body ++ closes ∧ (closes = [] ∨ closes = [.close]) ∧
      Wrote told exact fs ctx lookup filePath (some r) body

def refusable : Stage → Bool
  | .handshake | .lookup | .locate _ | .inspect _ | .opening _ _ => true
  | _ => false

/-- What one awaited result can do. -/
inductive SessionStep (x : Session) : Label → Session → Prop
  | unconnected {a : Label} {y : Session} (hx : x.stage = .connecting)
      (hy : y = { x with
        stage := .released none
        queued := x.queued ++ [errorMessage ctx "Failed to connect to file websocket"] }) :
      SessionStep x a y
  | prepared {a : Label} {y : Session} (stage : Stage)
      (hx : x.stage = .connecting ∨ x.stage = .handshake ∨ x.stage = .lookup)
      (hstage : stage = .handshake ∨ stage = .lookup ∨
        ∃ workingDirectory, lookup = .ok workingDirectory ∧ stage = .locate workingDirectory)
      (hy : y = x.enter stage) : SessionStep x a y
  | refused {a : Label} {y : Session} (msg primary : String) (hx : refusable x.stage = true)
      (hy : y = x.enter (.report msg primary)) : SessionStep x a y
  | located {a : Label} {y : Session} (workingDirectory : String) (absPath : Location)
      (hx : x.stage = .locate workingDirectory)
      (hpath : fs.canonicalize (fullPath workingDirectory filePath) = .ok absPath)
      (hwithin : validatePathIsWithin fs (absolute absPath) (.parse workingDirectory.toList) = true)
      (hy : y = x.enter (.inspect absPath)) : SessionStep x a y
  | inspected {a : Label} {y : Session} (absPath : Location) (content : List UInt8)
      (hx : x.stage = .inspect absPath) (hfile : fs.node absPath = some (.file content))
      (hy : y = x.enter (.details absPath content.length)) : SessionStep x a y
  | announced {y : Session} (absPath : Location) (fileSize : ℕ)
      (hx : x.stage = .details absPath fileSize)
      (hy : y = (x.emit true (.binary (detailsMessage ctx fileSize))).enter
        (.opening absPath fileSize)) : SessionStep x (.sent true true) y
  | unannounced {y : Session} (absPath : Location) (fileSize : ℕ) (accepted : Bool)
      (hx : x.stage = .details absPath fileSize)
      (hy : y = (x.emit accepted (.binary (detailsMessage ctx fileSize))).enter
        (.closing (.primaryError "details send failed"))) : SessionStep x (.sent accepted false) y
  | opened {a : Label} {y : Session} (absPath : Location) (fileSize : ℕ)
      (hx : x.stage = .opening absPath fileSize)
      (hy : y = x.enter (.transfer absPath (Supervisor.start fileSize))) : SessionStep x a y
  | polled {y : Session} (absPath : Location) (s t : Supervisor) (poll : Poll)
      (hx : x.stage = .transfer absPath s) (hread : readable fs absPath s poll = true)
      (hs : (machine ctx).step s poll = some t) (hy : y = x.transferred absPath t) :
      SessionStep x (.poll poll) y
  | reported {y : Session} (msg primary : String) (accepted ok : Bool)
      (hx : x.stage = .report msg primary)
      (hy : y = (x.emit accepted (.binary (errorMessage ctx msg))).enter
        (.closing (.primaryError primary))) : SessionStep x (.sent accepted ok) y
  | closed {a : Label} {y : Session} (r : AuthoritativeResult) (accepted : Bool) (stage : Stage)
      (hx : x.stage = .closing r)
      (hstage : stage = .acknowledge r ∧ accepted = true ∨ stage = .released (some r))
      (hy : y = (x.emit accepted .close).enter stage) : SessionStep x a y
  | awaited {a : Label} {y : Session} (r : AuthoritativeResult) (stage : Stage)
      (hx : x.stage = .acknowledge r)
      (hstage : stage = .acknowledge r ∨ stage = .released (some r)) (hy : y = x.enter stage) :
      SessionStep x a y

variable {told exact fs ctx lookup filePath}

theorem handshaken_cases (x : Session) (r : Except String Message) (a : Label)
    (hx : x.stage = .handshake) : SessionStep fs ctx lookup filePath x a (x.handshaken r) := by
  cases r with
  | ok msg => exact .prepared _ (.inr (.inl hx)) (.inr (.inl rfl)) rfl
  | error reason => exact .refused _ _ (by rw [hx]; rfl) rfl

theorem locate_cases (x : Session) (workingDirectory : String) (a : Label)
    (hx : x.stage = .locate workingDirectory) :
    SessionStep fs ctx lookup filePath x a (x.locate fs filePath workingDirectory) := by
  have hrefusable : refusable x.stage = true := by rw [hx]; rfl
  unfold Session.locate
  split
  · exact .refused _ _ hrefusable rfl
  · rename_i absPath hpath
    split
    · rename_i hwithin
      exact .located workingDirectory absPath hx hpath hwithin rfl
    · exact .refused _ _ hrefusable rfl

theorem inspect_cases (x : Session) (absPath : Location) (r : Except String Unit) (a : Label)
    (hx : x.stage = .inspect absPath) :
    SessionStep fs ctx lookup filePath x a (x.inspect fs absPath r) := by
  have hrefusable : refusable x.stage = true := by rw [hx]; rfl
  unfold Session.inspect
  split
  · exact .refused _ _ hrefusable rfl
  · split
    · rename_i content hfile
      exact .inspected absPath content hx hfile rfl
    · exact .refused _ _ hrefusable rfl

theorem session_step {x y : Session} {a : Label}
    (h : (session fs ctx lookup filePath).step x a = some y) :
    SessionStep fs ctx lookup filePath x a y := by
  obtain ⟨stage,sent,queued⟩ := x
  cases stage with
  | connecting =>
    cases a with
    | connected ok =>
      cases ok <;> cases h
      · exact .unconnected rfl rfl
      · exact .prepared _ (.inl rfl) (.inl rfl) rfl
    | _ => cases h
  | handshake =>
    cases a with
    | handshake first =>
      cases h
      exact handshaken_cases _ _ _ rfl
    | _ => cases h
  | lookup =>
    cases a with
    | looked =>
      cases lookup with
      | ok workingDirectory =>
        cases h
        exact .prepared _ (.inr (.inr rfl)) (.inr (.inr ⟨workingDirectory,rfl,rfl⟩)) rfl
      | error e =>
        cases h
        exact .refused _ _ rfl rfl
    | _ => cases h
  | locate workingDirectory =>
    cases a with
    | located =>
      cases h
      exact locate_cases _ workingDirectory _ rfl
    | _ => cases h
  | inspect absPath =>
    cases a with
    | metadata r =>
      cases h
      exact inspect_cases _ absPath r _ rfl
    | _ => cases h
  | details absPath fileSize =>
    cases a with
    | sent accepted ok =>
      cases ok with
      | false =>
        cases h
        exact .unannounced absPath fileSize accepted rfl rfl
      | true =>
        cases accepted <;> cases h
        exact .announced absPath fileSize rfl rfl
    | _ => cases h
  | opening absPath fileSize =>
    cases a with
    | opened ok =>
      cases ok <;> cases h
      · exact .refused _ _ rfl rfl
      · exact .opened absPath fileSize rfl rfl
    | _ => cases h
  | transfer absPath s =>
    cases a with
    | poll p =>
      change (if _ then Option.map _ _ else none) = _ at h
      split at h
      · rename_i hread
        obtain ⟨t,hs,rfl⟩ := Option.map_eq_some_iff.mp h
        exact .polled absPath s t p rfl hread hs rfl
      · cases h
    | _ => cases h
  | report msg primary =>
    cases a with
    | sent accepted ok =>
      cases h
      exact .reported msg primary accepted ok rfl rfl
    | _ => cases h
  | closing r =>
    cases a with
    | sent accepted ok =>
      cases ok with
      | false =>
        cases h
        exact .closed r accepted _ rfl (.inr rfl) rfl
      | true =>
        cases accepted <;> cases h
        exact .closed r true _ rfl (.inl ⟨rfl,rfl⟩) rfl
    | elapsed accepted =>
      cases h
      exact .closed r accepted _ rfl (.inr rfl) rfl
    | _ => cases h
  | acknowledge r =>
    cases a with
    | incoming item =>
      rcases item with _ | (e | msg)
      · cases h
        exact .awaited r _ rfl (.inr rfl) rfl
      · cases h
        exact .awaited r _ rfl (.inr rfl) rfl
      · cases msg with
        | close =>
          cases h
          exact .awaited r _ rfl (.inr rfl) rfl
        | _ =>
          cases h
          exact .awaited r _ rfl (.inl rfl) rfl
    | elapsed accepted =>
      cases h
      exact .awaited r _ rfl (.inr rfl) rfl
    | _ => cases h
  | released r => cases a <;> cases h

theorem wrote_nil : Wrote told exact fs ctx lookup filePath none [] :=
  ⟨[],[],[],rfl,.nothing (by simp),by simp,by simp⟩

theorem Served.fail {details chunks : List (List UInt8)} (msg : String)
    (h : Served exact fs ctx lookup filePath none details chunks) :
    Served exact fs ctx lookup filePath (some (.primaryError msg)) details chunks := by
  cases h with
  | nothing _ =>
    refine .nothing ?_
    rintro r ⟨⟩
    rfl
  | file absPath content chunks hw hn hc _ => exact .file absPath content chunks hw hn hc (by simp)

theorem Wrote.fail {out : List Out} {errors : List (List UInt8)} {primary : String}
    (h : Wrote told exact fs ctx lookup filePath none out)
    (hr : Reported told ctx (.primaryError primary) errors) :
    Wrote told exact fs ctx lookup filePath (some (.primaryError primary))
      (out ++ errors.map .binary) := by
  obtain ⟨details,chunks,none,rfl,hserved,hnone,-⟩ := h
  obtain rfl := hnone rfl
  refine ⟨details,chunks,errors,by simp,hserved.fail primary,by simp,?_⟩
  rintro r ⟨⟩
  exact ⟨by simp,hr⟩

theorem wrote_details {absPath : Location} {content : List UInt8}
    (hw : Within fs lookup filePath absPath) (hn : fs.node absPath = some (.file content)) :
    Wrote told exact fs ctx lookup filePath none [.binary (detailsMessage ctx content.length)] :=
  ⟨_,[],[],by simp,.file absPath content [] hw hn (by simp) (by simp),by simp,by simp⟩

theorem wrote_of_refusable {sent : List Out} {stage : Stage} (hrefusable : refusable stage = true)
    (h : At told exact fs ctx lookup filePath sent stage) :
    Wrote told exact fs ctx lookup filePath none sent := by
  cases stage with
  | handshake =>
    obtain rfl := h
    exact wrote_nil
  | lookup =>
    obtain rfl := h
    exact wrote_nil
  | locate workingDirectory =>
    obtain ⟨-,rfl⟩ := h
    exact wrote_nil
  | inspect absPath =>
    obtain ⟨-,rfl⟩ := h
    exact wrote_nil
  | opening absPath fileSize =>
    obtain ⟨content,hw,hn,-,rfl⟩ := h
    exact wrote_details hw hn
  | _ => cases hrefusable

theorem payloads_eq (log : List Event) :
    payloads log = (acceptedFrames log).filterMap chunkPayload? := by
  induction log with
  | nil => rfl
  | cons e log ih =>
    cases e <;> simp_all [payloads,acceptedFrames,acceptedPayload,List.filterMap_cons]

theorem cleanEof_payloads {content : List UInt8} {t : Supervisor} {chunks errors : List (List UInt8)}
    (h : Streaming told ctx content t) (htracked : Tracked ctx content.length Eq t)
    (hdone : t.phase = .done) (hclean : t.state.authoritative = .cleanEof)
    (hframes : acceptedFrames t.log = chunks ++ errors)
    (hreported : Reported told ctx t.state.authoritative errors) :
    (chunks.filterMap chunkPayload?).flatten = content := by
  obtain rfl : errors = [] := by
    rcases hreported.1 with hnil | ⟨-,hprimary⟩
    · exact hnil
    · rw [hclean] at hprimary
      cases hprimary
  obtain ⟨heq,htotal⟩ := tracked_cleanEof htracked hdone hclean
  have hlength : content.length ≤ t.fileOffset := by
    have := congrArg List.length h.reads
    rw [List.length_take] at this
    simp only [total] at htotal
    omega
  calc (chunks.filterMap chunkPayload?).flatten
      = (payloads t.log).flatten := by rw [payloads_eq,hframes,List.append_nil]
    _ = (reads t.log).flatten := by rw [heq]
    _ = content := by rw [h.reads,List.take_of_length_le hlength]

theorem read_of_readable {absPath : Location} {content bytes : List UInt8} {s : Supervisor}
    (hn : fs.node absPath = some (.file content)) (h : readable fs absPath s (.read bytes) = true) :
    bytes <+: content.drop s.fileOffset := by
  simp only [readable,hn,Bool.and_eq_true,decide_eq_true_eq] at h
  exact h.1

theorem at_polled {x : Session} {absPath : Location} {s t : Supervisor} {poll : Poll}
    (hread : readable fs absPath s poll = true) (hs : (machine ctx).step s poll = some t)
    (htold : told → lossless (.poll poll) = true) (hexact : exact → rearms s poll = false)
    (h : At told exact fs ctx lookup filePath x.sent (.transfer absPath s)) :
    At told exact fs ctx lookup filePath (x.transferred absPath t).sent
      (x.transferred absPath t).stage := by
  obtain ⟨content,hw,hn,hsent,-,hstream,htracked⟩ := h
  have hstream' := hstream.step
    (fun bytes hb => read_of_readable hn (by rw [← hb]; exact hread)) htold hs
  have htracked' : exact → Tracked ctx content.length Eq t := fun he =>
    tracked_step (htracked he) (fun _ _ _ heq => by rw [heq]) (hexact he) hs
  unfold Session.transferred
  split
  · rename_i hdone
    obtain ⟨chunks,errors,hframes,hchunks,hreported⟩ := hstream'.ended hdone
    refine ⟨_,chunks,errors,?_,.file absPath content chunks hw hn hchunks fun he hclean => ?_,
      by simp,?_⟩
    · simp [hsent,hframes]
    · exact cleanEof_payloads hstream' (htracked' he) hdone (Option.some.inj hclean) hframes hreported
    · rintro r ⟨⟩
      exact ⟨hstream'.decided hdone,hreported⟩
  · rename_i hdone
    exact ⟨content,hw,hn,hsent,hdone,hstream',htracked'⟩

theorem at_step {x y : Session} {a : Label} (htold : told → lossless a = true)
    (hexact : exact → duplicates x a = false)
    (hs : (session fs ctx lookup filePath).step x a = some y)
    (h : At told exact fs ctx lookup filePath x.sent x.stage) :
    At told exact fs ctx lookup filePath y.sent y.stage := by
  obtain ⟨stage,sent,queued⟩ := x
  cases session_step hs with
  | unconnected hx hy =>
    subst hx hy
    exact h
  | prepared stage hx hstage hy =>
    subst hy
    obtain rfl : sent = [] := by rcases hx with rfl | rfl | rfl <;> exact h
    rcases hstage with rfl | rfl | ⟨workingDirectory,hlookup,rfl⟩
    · rfl
    · rfl
    · exact ⟨hlookup,rfl⟩
  | refused msg primary hx hy =>
    subst hy
    exact wrote_of_refusable hx h
  | located workingDirectory absPath hx hpath hwithin hy =>
    subst hx hy
    obtain ⟨hlookup,hsent⟩ := h
    cases hworking : fs.canonicalize (.parse workingDirectory.toList) with
    | error e => simp [validatePathIsWithin,hworking] at hwithin
    | ok working =>
      have habove := FileListing.prefix_of_canonicalize hworking (isEntry_of_canonicalize hpath)
        hwithin
      exact ⟨⟨workingDirectory,working,hlookup,hworking,hpath,habove⟩,hsent⟩
  | inspected absPath content hx hfile hy =>
    subst hx hy
    exact ⟨content,h.1,hfile,rfl,h.2⟩
  | announced absPath fileSize hx hy =>
    subst hx hy
    obtain ⟨content,hw,hn,rfl,rfl⟩ := h
    exact ⟨content,hw,hn,rfl,rfl⟩
  | unannounced absPath fileSize accepted hx hy =>
    subst hx hy
    obtain ⟨content,hw,hn,rfl,rfl⟩ := h
    have hlost : Reported told ctx (.primaryError "details send failed") [] := by
      refine ⟨.inl rfl,fun ht => ?_⟩
      cases accepted <;> cases htold ht
    cases accepted with
    | false => exact wrote_nil.fail hlost
    | true => exact (wrote_details hw hn).fail hlost
  | opened absPath fileSize hx hy =>
    subst hx hy
    obtain ⟨content,hw,hn,rfl,rfl⟩ := h
    exact ⟨content,hw,hn,rfl,by simp [Supervisor.start],streaming_start told ctx content _,
      fun _ => tracked_start ctx _⟩
  | polled absPath s t poll hx hread hpoll hy =>
    subst hx hy
    exact at_polled hread hpoll htold hexact h
  | reported msg primary accepted ok hx hy =>
    subst hx hy
    cases accepted with
    | false =>
      have hlost : Reported told ctx (.primaryError primary) [] :=
        ⟨.inl rfl,fun ht => by cases htold ht⟩
      have hfail := Wrote.fail h hlost
      rw [List.map_nil,List.append_nil] at hfail
      exact hfail
    | true => exact Wrote.fail h ⟨.inr ⟨⟨msg,rfl⟩,rfl⟩,by simp⟩
  | closed r accepted stage hx hstage hy =>
    subst hx hy
    rcases hstage with ⟨rfl,rfl⟩ | rfl
    · exact ⟨sent,rfl,h⟩
    · cases accepted with
      | false => exact ⟨sent,[],by simp [Session.emit,Session.enter],.inl rfl,h⟩
      | true => exact ⟨sent,[.close],rfl,.inr rfl,h⟩
  | awaited r stage hx hstage hy =>
    subst hx hy
    obtain ⟨body,rfl,hbody⟩ := h
    rcases hstage with rfl | rfl
    · exact ⟨body,rfl,hbody⟩
    · exact ⟨body,[.close],rfl,.inr rfl,hbody⟩

/-- At every suspension point the frames on the wire are a transcript. -/
theorem wrote_of_at {x : Session} (h : At told exact fs ctx lookup filePath x.sent x.stage) :
    ∃ body closes, x.wire = body ++ closes ∧
      (closes = [] ∨ closes = [.close] ∧ x.chosen.isSome = true) ∧
      Wrote told exact fs ctx lookup filePath x.chosen body := by
  obtain ⟨stage,sent,queued⟩ := x
  cases stage with
  | connecting | handshake | lookup =>
    obtain rfl := h
    exact ⟨[],[],rfl,.inl rfl,wrote_nil⟩
  | locate _ | inspect _ =>
    obtain ⟨-,rfl⟩ := h
    exact ⟨[],[],rfl,.inl rfl,wrote_nil⟩
  | details _ _ =>
    obtain ⟨content,-,-,-,rfl⟩ := h
    exact ⟨[],[],rfl,.inl rfl,wrote_nil⟩
  | opening absPath fileSize =>
    obtain ⟨content,hw,hn,-,rfl⟩ := h
    exact ⟨_,[],(List.append_nil _).symm,.inl rfl,wrote_details hw hn⟩
  | transfer absPath s =>
    obtain ⟨content,hw,hn,rfl,hdone,hstream,-⟩ := h
    refine ⟨_,[],(List.append_nil _).symm,.inl rfl,_,acceptedFrames s.log,[],?_,
      .file absPath content _ hw hn (hstream.chunks hdone) ?_,fun _ => rfl,?_⟩
    · simp [Session.wire]
    · simp [Session.chosen]
    · simp [Session.chosen]
  | report _ _ => exact ⟨sent,[],(List.append_nil _).symm,.inl rfl,h⟩
  | closing r => exact ⟨sent,[],(List.append_nil _).symm,.inl rfl,h⟩
  | acknowledge r =>
    obtain ⟨body,rfl,hbody⟩ := h
    exact ⟨body,[.close],rfl,.inr ⟨rfl,rfl⟩,hbody⟩
  | released r =>
    cases r with
    | none =>
      obtain rfl := h
      exact ⟨[],[],rfl,.inl rfl,wrote_nil⟩
    | some r =>
      obtain ⟨body,closes,rfl,hcloses,hbody⟩ := h
      refine ⟨body,closes,rfl,?_,hbody⟩
      rcases hcloses with rfl | rfl
      · exact .inl rfl
      · exact .inr ⟨rfl,rfl⟩

end Session

section Results

variable (fs : FileSystem) (ctx : TransferContext) (lookup : Except JobLookupError String)
variable (filePath : String)

theorem at_run {told exact : Prop} {labels : List Label} {x : Session}
    (hrun : (session fs ctx lookup filePath).run start labels = some x)
    (htold : told → (session fs ctx lookup filePath).Meets (fun _ a => lossless a = true) start labels)
    (hexact : exact →
      (session fs ctx lookup filePath).Meets (fun x a => duplicates x a = false) start labels) :
    At told exact fs ctx lookup filePath x.sent x.stage := by
  have hmeets : (session fs ctx lookup filePath).Meets
      (fun x a => (told → lossless a = true) ∧ (exact → duplicates x a = false)) start labels := by
    rw [StepMachine.meets_iff]
    intro before a after y hlabels hbefore
    exact ⟨fun ht => StepMachine.meets_iff.mp (htold ht) before a after y hlabels hbefore,
      fun he => StepMachine.meets_iff.mp (hexact he) before a after y hlabels hbefore⟩
  have hstart : At told exact fs ctx lookup filePath start.sent start.stage := rfl
  exact StepMachine.invariant (I := fun x => At told exact fs ctx lookup filePath x.sent x.stage)
    (fun _ _ _ h hp hs => at_step hp.1 hp.2 hs h) hstart hmeets hrun

def Out.payload? : Out → Option (List UInt8)
  | .binary frame => chunkPayload? frame
  | .close => none

/-- The bytes of the file as the client puts them together. -/
def received (out : List Out) : List UInt8 := (out.filterMap Out.payload?).flatten

theorem received_frames (frames : List (List UInt8)) :
    received (frames.map .binary) = (frames.filterMap chunkPayload?).flatten := by
  rw [received,List.filterMap_map]
  rfl

theorem received_close (out : List Out) : received (out ++ [.close]) = received out := by
  rw [received,List.filterMap_append,List.flatten_append]
  exact List.append_nil _

theorem chunkPayload_detailsMessage (n : ℕ) : chunkPayload? (detailsMessage ctx n) = none := by
  have hu : (utf8 ctx.uuid).length < 2^64 := ctx.uuid_fits.trans (by norm_num)
  have hd : detailsMessage ctx n = Message.block (utf8 ctx.uuid) ++
      LittleEndian.encode 4 fileDownloadDetails.toNat ++
      LittleEndian.encode 8 (UInt64.ofNat n).toNat := by
    simp [detailsMessage,Message.pushUlong,Message.pushFixed]
  have hp := Message.fromData_header fileDownloadDetails ctx.uuid
    (LittleEndian.encode 8 (UInt64.ofNat n).toNat) hu
  rw [← hd] at hp
  rw [chunkPayload?,hp]
  rfl

/-- A download that ends with a clean end of file, no chunk having been armed twice, has given
the client the size and the bytes of the file, whatever was paused, read short or ignored. -/
theorem download_delivers (labels : List Label) (x : Session)
    (hrun : (session fs ctx lookup filePath).run start labels = some x)
    (honce : (session fs ctx lookup filePath).Meets (fun x a => duplicates x a = false) start labels)
    (hclean : x.chosen = some .cleanEof) :
    ∃ absPath content, Within fs lookup filePath absPath ∧
      fs.node absPath = some (.file content) ∧
      x.wire.head? = some (.binary (detailsMessage ctx content.length)) ∧
      received x.wire = content := by
  have hat : At False True fs ctx lookup filePath x.sent x.stage :=
    at_run fs ctx lookup filePath hrun False.elim fun _ => honce
  obtain ⟨body,closes,hwire,hcloses,details,chunks,errors,rfl,hserved,-,hresult⟩ := wrote_of_at hat
  obtain rfl : errors = [] := by
    rcases (hresult _ hclean).2.1 with hnil | ⟨-,hprimary⟩
    · exact hnil
    · cases hprimary
  cases hserved with
  | nothing hr => cases hr _ hclean
  | file absPath content chunks hw hn _ he =>
    refine ⟨absPath,content,hw,hn,by simp [hwire],?_⟩
    have hcloses : received x.wire =
        received (([detailsMessage ctx content.length] ++ chunks ++ []).map .binary) := by
      rcases hcloses with rfl | ⟨rfl,-⟩
      · rw [hwire,List.append_nil]
      · rw [hwire,received_close]
    rw [hcloses,received_frames,List.append_nil,List.singleton_append,List.filterMap_cons,
      chunkPayload_detailsMessage]
    exact he trivial hclean

end Results

def oneFile : FileSystem :=
  UploadPath.emptyWork.add ["w"] "f" (.file [7,8,9]) (by decide) (by decide)

def readyFrame : List UInt8 := (Message.new MessageId.serverReady .highest "id").data

/-- The whole of a download of this file, and the peer answers the Close. -/
def wholeDownload : List Label :=
  [.connected true,.handshake (.item (some (.ok (.binary readyFrame)))),.looked,.located,
    .metadata (.ok ()),.sent true true,.opened true] ++ plainDownload.map .poll ++
    [.sent true true,.incoming (some (.ok .close))]

theorem wholeDownload_run :
    ((session oneFile idContext (.ok "/w") "f").run start wholeDownload).any
      (fun x => x.chosen = some .cleanEof) = true := by
  decide +kernel

theorem download_delivers_wholeDownload : ∃ x,
    (session oneFile idContext (.ok "/w") "f").run start wholeDownload = some x ∧
      ∃ absPath content, Within oneFile (.ok "/w") "f" absPath ∧
        oneFile.node absPath = some (.file content) ∧ received x.wire = content := by
  obtain ⟨x,hrun,hclean⟩ := (Option.any_eq_true _ _).mp wholeDownload_run
  obtain ⟨absPath,content,hw,hn,-,hreceived⟩ :=
    download_delivers oneFile idContext (.ok "/w") "f" wholeDownload x hrun
      (by decide +kernel) (by simpa using hclean)
  exact ⟨x,hrun,absPath,content,hw,hn,hreceived⟩

end DownloadSession
end JobControllerClient
