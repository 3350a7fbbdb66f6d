import JobControllerClient.Foundation.FileSystem
import JobControllerClient.Foundation.Program
import JobControllerClient.Values

/-! The self-update of `update_check.rs`, from the release response to the restart. The
network and the file system answer the requests; `SHA-256` and the order of versions are
parameters. -/
namespace JobControllerClient
namespace SelfUpdate

def maxDownloadRetries : ℕ := 3
def initialRetryDelaySecs : ℕ := 1
def maxDownloadSizeBytes : ℕ := 1024 * 1024 * 1024
def updateFileName : String := "adacs_job_client.update"

structure ReleaseInfo where
  downloadUrl : String
  digest : Option String
  deriving DecidableEq

/-- The answer to one `GET`: a transport error, or a body that may break off. -/
inductive Response
  | failed (e : String)
  | body (bytes : List UInt8) (broken : Option String)
  deriving DecidableEq

inductive Request
  | get (url : String) (attempt : ℕ)
  | sleep (secs : ℕ)
  | write (path : Location) (data : List UInt8)
  | setPermissions (path : Location) (mode : ℕ)
  | rename (source target : Location)
  | removeFile (path : Location)
  deriving DecidableEq

@[reducible] def Answer : Request → Type
  | .get _ _ => Response
  | .sleep _ => Unit
  | _ => Except String Unit

abbrev Process := Program Answer

def get (url : String) (attempt : ℕ) : Process Response := .ask (.get url attempt) .done

def sleep (secs : ℕ) : Process Unit := .ask (.sleep secs) .done

def write (path : Location) (data : List UInt8) : Process (Except String Unit) :=
  .ask (.write path data) .done

def setPermissions (path : Location) (mode : ℕ) : Process (Except String Unit) :=
  .ask (.setPermissions path mode) .done

def rename (source target : Location) : Process (Except String Unit) :=
  .ask (.rename source target) .done

def removeFile (path : Location) : Process (Except String Unit) := .ask (.removeFile path) .done

/-- `with_file_name`. -/
def getUpdatePath (executablePath : Location) : Location :=
  executablePath.dropLast ++ [updateFileName]

def retryDelaySecs (attempt : ℕ) : ℕ :=
  initialRetryDelaySecs * if 2^(attempt - 1) < 2^64 then 2^(attempt - 1) else 2^64 - 1

/-- `read_bounded`: at most one byte more than allowed is read. -/
def readBounded (bytes : List UInt8) (broken : Option String) (maxBytes : ℕ) :
    Except String (List UInt8) :=
  let data := bytes.take (maxBytes + 1)
  if data.length > maxBytes then
    .error s!"Downloaded data exceeds maximum size of {maxBytes} bytes"
  else match broken with
    | some e => .error e
    | none => .ok data

def downloadAttempt (url : String) (attempt : ℕ) : Process (Except String (List UInt8)) := do
  match ← get url attempt with
  | .failed e => return .error e
  | .body bytes broken => return readBounded bytes broken maxDownloadSizeBytes

/-- `download_with_retry` from an attempt on, with so many attempts left after it. -/
def downloadFrom (url : String) (attempt : ℕ) : ℕ → Process (Except String (List UInt8))
  | 0 => do
    match ← downloadAttempt url attempt with
    | .ok data => return .ok data
    | .error e => return .error s!"Download failed after {maxDownloadRetries} attempts: {e}"
  | left + 1 => do
    match ← downloadAttempt url attempt with
    | .ok data => return .ok data
    | .error _ =>
      sleep (retryDelaySecs attempt)
      downloadFrom url (attempt + 1) left

def downloadFile (url : String) : Process (Except String (List UInt8)) :=
  downloadFrom url 1 (maxDownloadRetries - 1)

/-- A failed step of the replacement, after which the update file is cleaned up. -/
def orRemove (path : Location) (result : Except String Unit) (next : Process (Except String Unit)) :
    Process (Except String Unit) :=
  match result with
  | .ok () => next
  | .error e => do
    let _ ← removeFile path
    return .error e

def replaceBinary (executablePath : Location) (updateData : List UInt8) :
    Process (Except String Unit) :=
  if updateData = [] then return .error "Refusing to replace binary: update data is empty"
  else do
    let updatePath := getUpdatePath executablePath
    let written ← write updatePath updateData
    orRemove updatePath written do
      let permitted ← setPermissions updatePath 0o755
      orRemove updatePath permitted do
        let renamed ← rename updatePath executablePath
        orRemove updatePath renamed (return .ok ())

def stripPrefix? (p text : List Char) : Option (List Char) :=
  if p <+: text then some (text.drop p.length) else none

def expectedHex (expected : String) : List Char :=
  let trimmed := trim expected.toList
  (stripPrefix? "sha256:".toList trimmed).getD
    ((stripPrefix? "SHA256:".toList trimmed).getD trimmed)

def eqIgnoreAsciiCase (a b : List Char) : Bool := a.map Char.toLower = b.map Char.toLower

def latestVersionStr (response : Json) : String :=
  String.ofList (((response.index "tag_name").asStr.getD "").toList.dropWhile (· = 'v'))

section Parameters

-- `sha256` yields the lower-case hexadecimal digits
variable {Version : Type} [LinearOrder Version] (parseVersion : String → Except String Version)
  (sha256 : List UInt8 → String)

def parseReleaseResponse (response : Json) (currentVersion : String) :
    Except String (Option ReleaseInfo) :=
  let latestVersion := latestVersionStr response
  match parseVersion currentVersion with
  | .error e => .error s!"Failed to parse current version '{currentVersion}': {e}"
  | .ok current => match parseVersion latestVersion with
    | .error e => .error s!"Failed to parse latest version '{latestVersion}': {e}"
    | .ok latest =>
      if latest ≤ current then .ok none
      else
        let asset := (response.index "assets").item 0
        match (asset.index "browser_download_url").asStr with
        | none => .error "No download URL found in GitHub response"
        | some downloadUrl => .ok (some ⟨downloadUrl,(asset.index "digest").asStr⟩)

def verifySha256 (data : List UInt8) (expected : String) : Except String Unit :=
  let computed := sha256 data
  if eqIgnoreAsciiCase computed.toList (expectedHex expected) then .ok ()
  else .error s!"sha256 mismatch: expected {expected}, computed {computed}"

def verifyDownload (data : List UInt8) : Option String → Except String Unit
  | some expected => verifySha256 sha256 data expected
  | none => .ok ()

/-- `perform_update` up to the restart. -/
def performUpdate (executablePath : Location) (release : ReleaseInfo) :
    Process (Except String Unit) := do
  match ← downloadFile release.downloadUrl with
  | .error e => return .error e
  | .ok updateData => match verifyDownload sha256 updateData release.digest with
    | .error e => return .error e
    | .ok () => replaceBinary executablePath updateData

/-- `check_for_updates` once the release response is there. -/
def checkForUpdates (executablePath : Location) (currentVersion : String) (response : Json) :
    Process Unit :=
  match parseReleaseResponse parseVersion response currentVersion with
  | .ok (some release) => do
    let _ ← performUpdate sha256 executablePath release
    return
  | _ => return

end Parameters

/-- `inodes` tells which file a path leads to, links being followed. The executable path
is resolved by the kernel, so it is not a link itself. -/
structure Disk where
  inodes : AList fun _ : Location => ℕ
  content : ℕ → List UInt8

namespace Disk

def file? (d : Disk) (path : Location) : Option (List UInt8) := (d.inodes.lookup path).map d.content

def create (d : Disk) (path : Location) (i : ℕ) : Option Disk :=
  match d.inodes.lookup path with
  | some j => if i = j then some d else none
  | none => if i ∈ d.inodes.entries.map Sigma.snd then none
    else some { d with inodes := d.inodes.insert path i }

def store (d : Disk) (i : ℕ) (data : List UInt8) : Disk :=
  { d with content := Function.update d.content i data }

/-- The rename is atomic; the two paths lead to different files. -/
def move (d : Disk) (source target : Location) : Option Disk :=
  match d.inodes.lookup source with
  | none => none
  | some i => if d.inodes.lookup target = some i then none
    else some { d with inodes := (d.inodes.erase source).insert target i }

end Disk

/-- What the environment decides; `stopped` is a write that fails after `count` bytes. -/
inductive Choice
  | response (r : Response)
  | elapsed
  | refused (e : String)
  | written (i : ℕ)
  | stopped (i count : ℕ) (e : String)
  | done

def perform (d : Disk) : (r : Request) → Choice → Option (Disk × Answer r)
  | .get _ _, .response r => some (d,r)
  | .sleep _, .elapsed => some (d,())
  | .write _ _, .refused e => some (d,.error e)
  | .write path data, .written i => (d.create path i).map fun d => (d.store i data,.ok ())
  | .write path data, .stopped i count e =>
    (d.create path i).map fun d => (d.store i (data.take count),.error e)
  | .setPermissions _ _, .done => some (d,.ok ())
  | .setPermissions _ _, .refused e => some (d,.error e)
  | .rename source target, .done => (d.move source target).map fun d => (d,.ok ())
  | .rename _ _, .refused e => some (d,.error e)
  | .removeFile path, .done => some ({ d with inodes := d.inodes.erase path },.ok ())
  | .removeFile _, .refused e => some (d,.error e)
  | _, _ => none

/-- The update file, if there is one, is not a link to the executable. -/
def Apart (executablePath : Location) (d : Disk) : Prop :=
  ∀ i, d.inodes.lookup (getUpdatePath executablePath) = some i →
    d.inodes.lookup executablePath ≠ some i

section Proofs

open Program

variable {exe : Location} {d d' : Disk} {data : List UInt8} {c : Choice}

theorem getUpdatePath_ne (h : exe.getLast? ≠ some updateFileName) : getUpdatePath exe ≠ exe := by
  intro heq
  rw [← heq,getUpdatePath] at h
  simp at h

theorem create_apart {i : ℕ} (hname : exe.getLast? ≠ some updateFileName) (hapart : Apart exe d)
    (h : d.create (getUpdatePath exe) i = some d') :
    d'.content = d.content ∧ d'.inodes.lookup exe = d.inodes.lookup exe ∧
      d'.inodes.lookup (getUpdatePath exe) = some i ∧ d.inodes.lookup exe ≠ some i := by
  unfold Disk.create at h
  split at h
  · rename_i j hj
    split at h
    · rename_i hij
      cases h
      exact ⟨rfl,rfl,hij ▸ hj,hij ▸ hapart j hj⟩
    · cases h
  · split at h
    · cases h
    · rename_i hfresh
      cases h
      refine ⟨rfl,?_,AList.lookup_insert _,fun hexe => hfresh ?_⟩
      · exact AList.lookup_insert_ne (getUpdatePath_ne hname).symm
      · exact List.mem_map.mpr ⟨⟨exe,i⟩,AList.mem_lookup_iff.mp hexe,rfl⟩

/-- The executable is as it was, and the update file is still apart from it. -/
structure Untouched (exe : Location) (d d' : Disk) : Prop where
  file : d'.file? exe = d.file? exe
  apart : Apart exe d'

theorem untouched_refl (h : Apart exe d) : Untouched exe d d := ⟨rfl,h⟩

theorem Untouched.trans {d'' : Disk} (h : Untouched exe d d') (h' : Untouched exe d' d'') :
    Untouched exe d d'' := ⟨h'.file.trans h.file,h'.apart⟩

theorem perform_write (hname : exe.getLast? ≠ some updateFileName) (hapart : Apart exe d)
    {result : Except String Unit}
    (h : perform d (.write (getUpdatePath exe) data) c = some (d',result)) :
    Untouched exe d d' ∧ (result = .ok () → d'.file? (getUpdatePath exe) = some data) := by
  have hstore {i : ℕ} {bytes : List UInt8} {opened : Disk}
      (hcreate : d.create (getUpdatePath exe) i = some opened) :
      Untouched exe d (opened.store i bytes) ∧
        (opened.store i bytes).file? (getUpdatePath exe) = some bytes := by
    obtain ⟨hcontent,hexe,hupdate,hne⟩ := create_apart hname hapart hcreate
    refine ⟨⟨?_,fun j hj => ?_⟩,?_⟩
    · simp only [Disk.file?,Disk.store,hexe]
      cases hl : d.inodes.lookup exe with
      | none => rfl
      | some j =>
        have hij : j ≠ i := fun hij => hne (hij ▸ hl)
        simp [Function.update_of_ne hij,hcontent]
    · obtain rfl : i = j := Option.some.inj (hupdate.symm.trans hj)
      simp only [Disk.store,hexe]
      exact hne
    · simp [Disk.file?,Disk.store,hupdate]
  cases c with
  | refused e =>
    cases h
    exact ⟨untouched_refl hapart,fun hok => by cases hok⟩
  | written i =>
    obtain ⟨opened,hcreate,heq⟩ := Option.map_eq_some_iff.mp h
    cases heq
    exact ⟨(hstore hcreate).1,fun _ => (hstore hcreate).2⟩
  | stopped i count e =>
    obtain ⟨opened,hcreate,heq⟩ := Option.map_eq_some_iff.mp h
    cases heq
    exact ⟨(hstore hcreate).1,fun hok => by cases hok⟩
  | _ => cases h

theorem perform_removeFile (hname : exe.getLast? ≠ some updateFileName) (hapart : Apart exe d)
    {result : Except String Unit}
    (h : perform d (.removeFile (getUpdatePath exe)) c = some (d',result)) : Untouched exe d d' := by
  cases c with
  | done =>
    cases h
    refine ⟨?_,fun i hi => ?_⟩
    · simp [Disk.file?,AList.lookup_erase_ne (getUpdatePath_ne hname).symm]
    · simp at hi
  | refused e =>
    cases h
    exact untouched_refl hapart
  | _ => cases h

theorem perform_setPermissions {path : Location} {mode : ℕ} {result : Except String Unit}
    (h : perform d (.setPermissions path mode) c = some (d',result)) : d' = d := by
  cases c <;> cases h <;> rfl

theorem perform_rename {result : Except String Unit}
    (h : perform d (.rename (getUpdatePath exe) exe) c = some (d',result)) :
    (∃ e, result = .error e ∧ d' = d) ∨
      (result = .ok () ∧ d'.file? exe = d.file? (getUpdatePath exe)) := by
  cases c with
  | refused e =>
    cases h
    exact .inl ⟨e,rfl,rfl⟩
  | done =>
    obtain ⟨moved,hmove,heq⟩ := Option.map_eq_some_iff.mp h
    cases heq
    refine .inr ⟨rfl,?_⟩
    unfold Disk.move at hmove
    split at hmove
    · cases hmove
    · rename_i i hi
      split at hmove
      · cases hmove
      · cases hmove
        simp [Disk.file?,hi]
  | _ => cases h

theorem perform_get {url : String} {attempt : ℕ} {r : Response}
    (h : perform d (.get url attempt) c = some (d',r)) : c = .response r ∧ d' = d := by
  cases c <;> cases h
  exact ⟨rfl,rfl⟩

theorem perform_sleep {secs : ℕ} (h : perform d (.sleep secs) c = some (d',())) : d' = d := by
  cases c <;> cases h
  rfl

theorem orRemove_spec (hname : exe.getLast? ≠ some updateFileName) (hapart : Apart exe d)
    {result : Except String Unit} {next : Process (Except String Unit)} {l : List Choice}
    {Q : Except String Unit → Disk × List Choice → Prop}
    (hnext : result = .ok () → wp (choices perform) next Q (d,l))
    (herror : ∀ e d' l', Untouched exe d d' → Q (.error e) (d',l')) :
    wp (choices perform) (orRemove (getUpdatePath exe) result next) Q (d,l) := by
  cases result with
  | ok _ => exact hnext rfl
  | error e =>
    refine wp_perform fun c removed _ hremove => ?_
    exact herror e removed _ (perform_removeFile hname hapart hremove)

theorem replaceBinary_spec (hname : exe.getLast? ≠ some updateFileName) (hapart : Apart exe d)
    {l : List Choice} : wp (choices perform) (replaceBinary exe data) (fun result s =>
      (∃ e, result = .error e ∧ s.1.file? exe = d.file? exe) ∨
        (result = .ok () ∧ data ≠ [] ∧ s.1.file? exe = some data)) (d,l) := by
  unfold replaceBinary
  split
  · exact .inl ⟨_,rfl,rfl⟩
  rename_i hdata
  refine wp_perform fun c written result hwrite => ?_
  obtain ⟨huntouched,hwritten⟩ := perform_write hname hapart hwrite
  refine orRemove_spec hname huntouched.apart (fun hok => ?_)
    fun e d' _ h => .inl ⟨e,rfl,(huntouched.trans h).file⟩
  have hupdate := hwritten hok
  refine wp_perform fun c permitted result hpermit => ?_
  obtain rfl := perform_setPermissions hpermit
  refine orRemove_spec hname huntouched.apart (fun _ => ?_)
    fun e d' _ h => .inl ⟨e,rfl,(huntouched.trans h).file⟩
  refine wp_perform fun c renamed result hrename => ?_
  -- only a rename that succeeds touches the executable, and it is the last step
  obtain ⟨e,rfl,rfl⟩ | ⟨rfl,hrenamed⟩ := perform_rename hrename
  · exact orRemove_spec hname huntouched.apart (fun hok => by cases hok)
      fun e d' _ h => .inl ⟨e,rfl,(huntouched.trans h).file⟩
  · exact .inr ⟨rfl,hdata,hrenamed.trans hupdate⟩

theorem readBounded_ok {bytes : List UInt8} {broken : Option String} {maxBytes : ℕ}
    (h : readBounded bytes broken maxBytes = .ok data) :
    broken = none ∧ data = bytes ∧ data.length ≤ maxBytes := by
  simp only [readBounded] at h
  by_cases hlength : (bytes.take (maxBytes + 1)).length > maxBytes
  · rw [if_pos hlength] at h
    cases h
  rw [if_neg hlength] at h
  have hshort : bytes.length ≤ maxBytes := by
    simp only [List.length_take] at hlength
    omega
  cases broken with
  | some e => cases h
  | none =>
    obtain rfl := Except.ok.inj h
    rw [List.take_of_length_le (by omega)]
    exact ⟨rfl,rfl,hshort⟩

/-- The whole body of one of the answers, within the size limit. -/
def Downloaded (cs : List Choice) (data : List UInt8) : Prop :=
  Choice.response (.body data none) ∈ cs ∧ data.length ≤ maxDownloadSizeBytes

theorem downloadAttempt_spec {url : String} {attempt : ℕ} {l : List Choice} :
    wp (choices perform) (downloadAttempt url attempt) (fun result s =>
      s.1 = d ∧ ∀ data, result = .ok data → Downloaded s.2 data) (d,l) := by
  refine wp_perform fun c y r hget => ?_
  obtain ⟨rfl,rfl⟩ := perform_get hget
  cases r with
  | failed e => exact ⟨rfl,fun data hok => by cases hok⟩
  | body bytes broken =>
    refine ⟨rfl,fun data hok => ?_⟩
    obtain ⟨rfl,rfl,hlength⟩ := readBounded_ok hok
    exact ⟨by simp,hlength⟩

theorem downloadFrom_spec {url : String} {attempt left : ℕ} {l : List Choice} :
    wp (choices perform) (downloadFrom url attempt left) (fun result s =>
      s.1 = d ∧ ∀ data, result = .ok data → Downloaded s.2 data) (d,l) := by
  induction left generalizing attempt l with
  | zero =>
    refine wp_then downloadAttempt_spec ?_
    rintro result ⟨_,cs⟩ ⟨rfl,hresult⟩
    cases result with
    | ok data => exact ⟨rfl,hresult⟩
    | error e => exact ⟨rfl,fun data hok => by cases hok⟩
  | succ left ih =>
    refine wp_then downloadAttempt_spec ?_
    rintro result ⟨_,cs⟩ ⟨rfl,hresult⟩
    cases result with
    | ok data => exact ⟨rfl,hresult⟩
    | error e =>
      refine wp_perform fun c y _ hsleep => ?_
      obtain rfl := perform_sleep hsleep
      exact ih

variable {Version : Type} [LinearOrder Version] {parseVersion : String → Except String Version}
  {sha256 : List UInt8 → String} {response : Json} {currentVersion : String} {release : ReleaseInfo}

/-- The published version is newer, and the data is what the release announces. -/
structure Installable (parseVersion : String → Except String Version)
    (sha256 : List UInt8 → String) (response : Json) (currentVersion : String)
    (cs : List Choice) (data : List UInt8) : Prop where
  newer : ∃ current latest, parseVersion currentVersion = .ok current ∧
    parseVersion (latestVersionStr response) = .ok latest ∧ current < latest
  downloaded : Downloaded cs data
  nonempty : data ≠ []
  digest : ∀ expected, (((response.index "assets").item 0).index "digest").asStr = some expected →
    eqIgnoreAsciiCase (sha256 data).toList (expectedHex expected) = true

theorem parseReleaseResponse_some
    (h : parseReleaseResponse parseVersion response currentVersion = .ok (some release)) :
    (∃ current latest, parseVersion currentVersion = .ok current ∧
      parseVersion (latestVersionStr response) = .ok latest ∧ current < latest) ∧
      release.digest = (((response.index "assets").item 0).index "digest").asStr := by
  simp only [parseReleaseResponse] at h
  split at h
  · cases h
  rename_i current hcurrent
  split at h
  · cases h
  rename_i latest hlatest
  split at h
  · cases h
  rename_i hnewer
  split at h
  · cases h
  · cases h
    exact ⟨⟨current,latest,hcurrent,hlatest,lt_of_not_ge hnewer⟩,rfl⟩

theorem verifySha256_ok {expected : String} (h : verifySha256 sha256 data expected = .ok ()) :
    eqIgnoreAsciiCase (sha256 data).toList (expectedHex expected) = true := by
  simp only [verifySha256] at h
  split at h
  · assumption
  · cases h

theorem verifyDownload_ok {digest : Option String} (h : verifyDownload sha256 data digest = .ok ())
    {expected : String} (hdigest : digest = some expected) :
    eqIgnoreAsciiCase (sha256 data).toList (expectedHex expected) = true := by
  subst hdigest
  exact verifySha256_ok h

theorem performUpdate_spec (hname : exe.getLast? ≠ some updateFileName) (hapart : Apart exe d)
    {l : List Choice} : wp (choices perform) (performUpdate sha256 exe release) (fun _ s =>
      s.1.file? exe = d.file? exe ∨ ∃ data, verifyDownload sha256 data release.digest = .ok () ∧
        Downloaded s.2 data ∧ data ≠ [] ∧ s.1.file? exe = some data) (d,l) := by
  refine wp_then downloadFrom_spec ?_
  rintro result ⟨_,cs⟩ ⟨rfl,hdownloaded⟩
  cases result with
  | error e => exact .inl rfl
  | ok data =>
    have hdata := hdownloaded data rfl
    dsimp only
    split
    · exact .inl rfl
    rename_i hverified
    refine wp_mono (wp_and (replaceBinary_spec hname hapart) (wp_choices_extend _ _ _)) ?_
    rintro result ⟨d',cs'⟩ ⟨⟨e,-,hfile⟩ | ⟨-,hne,hfile⟩,hcs⟩
    · exact .inl hfile
    · exact .inr ⟨data,hverified,⟨hcs.subset hdata.1,hdata.2⟩,hne,hfile⟩

theorem checkForUpdates_spec (hname : exe.getLast? ≠ some updateFileName) (hapart : Apart exe d) :
    wp (choices perform) (checkForUpdates parseVersion sha256 exe currentVersion response)
      (fun _ s => s.1.file? exe = d.file? exe ∨ ∃ data,
        Installable parseVersion sha256 response currentVersion s.2 data ∧
          s.1.file? exe = some data) (d,[]) := by
  unfold checkForUpdates
  split
  · rename_i release hrelease
    obtain ⟨hnewer,hdigest⟩ := parseReleaseResponse_some hrelease
    refine wp_then (performUpdate_spec hname hapart) ?_
    rintro result ⟨d',cs⟩ (hfile | ⟨data,hverified,hdata,hne,hfile⟩)
    · exact .inl hfile
    · refine .inr ⟨data,⟨hnewer,hdata,hne,fun expected hexpected => ?_⟩,hfile⟩
      exact verifyDownload_ok hverified (hdigest.trans hexpected)
  · exact .inl rfl

/-- Whatever fails, the executable is the old one or a full download that passed every
check, and a replacement that reports an error has not changed it. -/
theorem update_keeps_binary (parseVersion : String → Except String Version)
    (sha256 : List UInt8 → String) (response : Json) (currentVersion : String)
    (exe : Location) (d : Disk) (hname : exe.getLast? ≠ some updateFileName)
    (hapart : Apart exe d) :
    (∀ cs d', exec perform (checkForUpdates parseVersion sha256 exe currentVersion response) d cs =
        some ((),d',[]) →
      d'.file? exe = d.file? exe ∨ ∃ data,
        Installable parseVersion sha256 response currentVersion cs data ∧
          d'.file? exe = some data) ∧
    (∀ data cs e d', exec perform (replaceBinary exe data) d cs = some (.error e,d',[]) →
      d'.file? exe = d.file? exe) := by
  refine ⟨fun cs d' hexec => ?_,fun data cs e d' hexec => ?_⟩
  · obtain ⟨used,rfl,hfile⟩ := exec_of_wp (checkForUpdates_spec hname hapart) hexec
    simpa using hfile
  · obtain ⟨used,-,⟨_,-,hfile⟩ | ⟨hok,-⟩⟩ := exec_of_wp (replaceBinary_spec (l := []) hname hapart) hexec
    · exact hfile
    · cases hok

/-- A release without a digest. -/
def newRelease : Json := .object [("tag_name",.string "v1.10.0"),
  ("assets",.array [.object [("browser_download_url",.string "https://download")]])]

def installed : Disk :=
  ⟨⟨[⟨["bin","client"],0⟩],List.nodupKeys_singleton _⟩,fun _ => [1]⟩

/-- A download that fails once, and a replacement that is written and renamed. -/
def secondAttempt : List Choice :=
  [.response (.failed "timeout"),.elapsed,.response (.body [2,3] none),.written 1,.done,.done]

/-- Versions without suffix: three numbers, compared one after the other. -/
def plainVersion (v : String) : Except String (List ℕ) :=
  let parts := v.toList.splitOn '.'
  if parts.length = 3 ∧ parts.all (fun part => part ≠ [] ∧ part.all Char.isDigit) then
    .ok (parts.map fun part => part.foldl (fun n c => 10 * n + (c.toNat - '0'.toNat)) 0)
  else .error "unexpected version"

def secondRun : Process Unit :=
  checkForUpdates plainVersion (fun _ => "") ["bin","client"] "1.9.0" newRelease

theorem update_keeps_binary_secondAttempt :
    ∃ d', exec perform secondRun installed secondAttempt = some ((),d',[]) ∧
      d'.file? ["bin","client"] = some [2,3] ∧
      ∃ data, Installable plainVersion (fun _ => "") newRelease "1.9.0" secondAttempt data := by
  have hrun : (exec perform secondRun installed secondAttempt).any (fun r => r.2.2.isEmpty &&
      r.2.1.file? ["bin","client"] = some [2,3]) = true := by decide +kernel
  obtain ⟨⟨_,d',rest⟩,hexec,hd⟩ := (Option.any_eq_true _ _).mp hrun
  simp only [Bool.and_eq_true,List.isEmpty_iff,decide_eq_true_eq] at hd
  obtain ⟨rfl,hfile⟩ := hd
  refine ⟨d',hexec,hfile,?_⟩
  obtain hold | ⟨data,hdata,-⟩ := (update_keeps_binary plainVersion (fun _ => "") newRelease "1.9.0"
    ["bin","client"] installed (by decide) (by intro i hi; cases hi)).1 secondAttempt d' hexec
  · have hsame : installed.file? ["bin","client"] = some [1] := by decide
    rw [hfile,hsame] at hold
    exact absurd hold (by decide)
  · exact ⟨data,hdata⟩

end Proofs

end SelfUpdate
end JobControllerClient
