import JobControllerClient.DownloadSession
import JobControllerClient.FileUpload
import JobControllerClient.Foundation.FileWriting

/-! A whole upload of `files/mod.rs`: `handle_file_upload_internal` from the connection to the end
of its task, with what it tells the client and what it does to the file system, which nobody
else changes meanwhile. -/
namespace JobControllerClient
namespace UploadSession

open Messaging FileSystem
open UploadPath (fullPath validatePathIsWithin openTarget touched)
open FileListing (JobLookupError)
open FileUpload (Upload UploadContext Effect Poll uploadError uploadComplete acceptedChunks)
open DownloadSession (Handshake validateServerReady)

def readyAck (ctx : UploadContext) : List UInt8 :=
  (Message.new MessageId.serverReady .highest ctx.uuid).data

/-- The suspension points of the task; `receiving` is everything after the creation of the file. -/
inductive Place
  | connecting
  | handshake
  | acknowledging
  | lookup
  | validating (workingDirectory : String)
  | parents (full : TreePath)
  | creating (full : TreePath)
  | receiving (full : TreePath) (loc : Location) (u : Upload)
  | reporting (msg : String)
  | released

/-- `sent` are the frames that the file connection took before there was a file, `queued` those
for the main connection. -/
structure Session where
  place : Place
  fs : FileSystem
  sent : List (List UInt8)
  queued : List (List UInt8)

def start (fs : FileSystem) : Session := ⟨.connecting,fs,[],[]⟩

/-- The results of the awaited operations. `unmade` is a failure of `create_dir_all` after some of
its directories. -/
inductive Label
  | connected (ok : Bool)
  | handshake (h : Handshake)
  | acknowledged (r : Except String Unit)
  | looked
  | validated
  | made
  | unmade (count : ℕ) (e : String)
  | opened (ok : Bool)
  | poll (p : Poll)
  | reported (ok : Bool)

def makeParents (fs : FileSystem) (full : TreePath) : Made :=
  match full.parent with
  | some parent => fs.createDirAll parent
  | none => ⟨fs,[],.ok ()⟩

namespace Session

def enter (x : Session) (place : Place) : Session := { x with place }

def send (x : Session) (frame : List UInt8) : Session := { x with sent := x.sent ++ [frame] }

/-- The client is told on the main connection. -/
def queueError (ctx : UploadContext) (x : Session) (msg : String) : Session :=
  { x with place := .released, queued := x.queued ++ [uploadError ctx msg] }

/-- `connect_file_ws` gives the same answer whether or not there was a connection. -/
def handshaken (ctx : UploadContext) (x : Session) : Except String Message → Session
  | .ok _ => x.enter .acknowledging
  | .error _ => x.queueError ctx "Failed to connect to file websocket"

/-- The tree after an awaited operation on the file, `u` being the upload after it. -/
def disk (fs : FileSystem) (full : TreePath) (loc : Location) (u : Upload) : Poll → Option FileSystem
  | .written _ | .writeFailed _ | .flushed | .flushFailed _ => some (fs.write loc u.file.passed)
  | .removed true => (fs.removeFile full).toOption
  | _ => some fs

def validate (targetPath : String) (x : Session) (workingDirectory : String) : Session :=
  let full := fullPath workingDirectory targetPath
  if validatePathIsWithin x.fs full (.parse workingDirectory.toList) then x.enter (.parents full)
  else x.enter (.reporting "Target path for file upload is outside the working directory")

def made (x : Session) (full : TreePath) : Option Session :=
  let m := makeParents x.fs full
  match m.result with
  | .ok () => some { x with place := .creating full, fs := m.fs }
  | .error _ => none

def unmade (x : Session) (full : TreePath) (count : ℕ) (e : String) : Option Session :=
  full.parent.map fun parent => { x with
    place := .reporting s!"Failed to create parent directory: {e}"
    fs := ((x.fs.createDirAll parent).dirs.take count).foldl makeDir x.fs }

def opened (x : Session) (full : TreePath) : Option Session :=
  match x.fs.createFile full with
  | .ok loc => some { x with place := .receiving full loc .start, fs := x.fs.write loc [] }
  | .error _ => none

def polled (ctx : UploadContext) (x : Session) (full : TreePath) (loc : Location) (u : Upload)
    (p : Poll) : Option Session :=
  ((FileUpload.machine ctx).step u p).bind fun u' => (disk x.fs full loc u' p).map fun fs =>
    { x with place := .receiving full loc u', fs }

def step (ctx : UploadContext) (lookup : Except JobLookupError String) (targetPath : String)
    (x : Session) : Place → Label → Option Session
  | .connecting, .connected true => some (x.enter .handshake)
  | .connecting, .connected false => some (x.queueError ctx "Failed to connect to file websocket")
  | .handshake, .handshake h => some (x.handshaken ctx (validateServerReady h))
  | .acknowledging, .acknowledged (.ok ()) => some ((x.send (readyAck ctx)).enter .lookup)
  | .acknowledging, .acknowledged (.error e) =>
    some (x.queueError ctx s!"Failed to send SERVER_READY ack: {e}")
  | .lookup, .looked => match lookup with
    | .ok workingDirectory => some (x.enter (.validating workingDirectory))
    | .error e => some (x.enter (.reporting e.clientMessage))
  | .validating workingDirectory, .validated => some (x.validate targetPath workingDirectory)
  | .parents full, .made => x.made full
  | .parents full, .unmade count e => x.unmade full count e
  | .creating full, .opened true => x.opened full
  | .creating _, .opened false => some (x.enter (.reporting "Failed to open target file for writing"))
  | .receiving full loc u, .poll p => x.polled ctx full loc u p
  | .reporting msg, .reported true => some ((x.send (uploadError ctx msg)).enter .released)
  | .reporting _, .reported false => some (x.enter .released)
  | _, _ => none

end Session

/-- `handle_file_upload_internal`, one awaited result a step. -/
def session (ctx : UploadContext) (lookup : Except JobLookupError String) (targetPath : String) :
    StepMachine Session Label :=
  ⟨fun x => x.step ctx lookup targetPath x.place⟩

/-- The frame of a reply whose send succeeded. -/
def replyFrame? : Effect → Option (List UInt8)
  | .reply frame true => some frame
  | _ => none

namespace Session

def wire (x : Session) : List (List UInt8) :=
  match x.place with
  | .receiving _ _ u => x.sent ++ u.effects.filterMap replyFrame?
  | _ => x.sent

def hasEnded (x : Session) : Bool :=
  match x.place with
  | .released => true
  | .receiving _ _ u => u.phase = .ended
  | _ => false

end Session

def pollsOf (labels : List Label) : List Poll :=
  labels.flatMap fun
    | .poll p => [p]
    | _ => []

section Session

variable (ctx : UploadContext) (lookup : Except JobLookupError String) (targetPath : String)
variable (fs : FileSystem)

def Accepted (full : TreePath) : Prop :=
  ∃ workingDirectory, lookup = .ok workingDirectory ∧ full = fullPath workingDirectory targetPath ∧
    validatePathIsWithin fs full (.parse workingDirectory.toList) = true

structure Created (full : TreePath) (loc : Location) : Prop where
  accepted : Accepted lookup targetPath fs full
  parents : (makeParents fs full).result = .ok ()
  file : (makeParents fs full).fs.createFile full = .ok loc

/-- The tree once the file is open, before and after a removal. -/
def Disk (full : TreePath) (loc : Location) (u : Upload) (now : FileSystem) : Prop :=
  ∃ open', Opened (makeParents fs full).fs open' loc u.file.passed ∧
    ((Effect.removePartialFile true ∉ u.effects ∧ now = open') ∨
      (Effect.removePartialFile true ∈ u.effects ∧
        ∃ entry, (makeParents fs full).fs.entryOf full = some entry ∧
          (entry = loc ∨ ∃ target, (makeParents fs full).fs.node entry = some (.link target)) ∧
          ∀ l, now.node l = if l = entry then none else open'.node l))

/-- Every change is a directory made for the target. -/
def Prepared (now : FileSystem) : Prop :=
  ∀ l, now.node l ≠ fs.node l → ∃ full, Accepted lookup targetPath fs full ∧ l ∈ touched fs full

/-- What is known at each suspension point; the receive loop has gone through `polls`. -/
def At (now : FileSystem) (sent queued : List (List UInt8)) (polls : List Poll) : Place → Prop
  | .connecting | .handshake | .acknowledging => now = fs ∧ sent = [] ∧ queued = [] ∧ polls = []
  | .lookup => now = fs ∧ sent = [readyAck ctx] ∧ queued = [] ∧ polls = []
  | .validating workingDirectory => lookup = .ok workingDirectory ∧ now = fs ∧
      sent = [readyAck ctx] ∧ queued = [] ∧ polls = []
  | .parents full => Accepted lookup targetPath fs full ∧ now = fs ∧
      sent = [readyAck ctx] ∧ queued = [] ∧ polls = []
  | .creating full => Accepted lookup targetPath fs full ∧
      (makeParents fs full).result = .ok () ∧ now = (makeParents fs full).fs ∧
      sent = [readyAck ctx] ∧ queued = [] ∧ polls = []
  | .receiving full loc u => Created lookup targetPath fs full loc ∧ Disk fs full loc u now ∧
      (FileUpload.machine ctx).run .start polls = some u ∧ sent = [readyAck ctx] ∧ queued = []
  | .reporting _ => Prepared lookup targetPath fs now ∧ sent = [readyAck ctx] ∧ queued = [] ∧
      polls = []
  | .released => polls = [] ∧
      ((now = fs ∧ sent = [] ∧ ∃ msg, queued = [uploadError ctx msg]) ∨
        (Prepared lookup targetPath fs now ∧ queued = [] ∧
          (sent = [readyAck ctx] ∨ ∃ msg, sent = [readyAck ctx,uploadError ctx msg])))

/-- What one awaited result can do. -/
inductive SessionStep (x : Session) : Label → Session → Prop
  | connected (hx : x.place = .connecting) : SessionStep x (.connected true) (x.enter .handshake)
  | unconnected {a : Label}
      (hx : x.place = .connecting ∨ x.place = .handshake ∨ x.place = .acknowledging)
      (ha : ∀ p, a ≠ .poll p) (msg : String) : SessionStep x a (x.queueError ctx msg)
  | ready (h : Handshake) (hx : x.place = .handshake) :
      SessionStep x (.handshake h) (x.enter .acknowledging)
  | acknowledged (hx : x.place = .acknowledging) :
      SessionStep x (.acknowledged (.ok ())) ((x.send (readyAck ctx)).enter .lookup)
  | found (workingDirectory : String) (hx : x.place = .lookup)
      (hlookup : lookup = .ok workingDirectory) :
      SessionStep x .looked (x.enter (.validating workingDirectory))
  | unfound (msg : String) (hx : x.place = .lookup) : SessionStep x .looked (x.enter (.reporting msg))
  | valid (workingDirectory : String) (hx : x.place = .validating workingDirectory)
      (hvalid : validatePathIsWithin x.fs (fullPath workingDirectory targetPath)
        (.parse workingDirectory.toList) = true) :
      SessionStep x .validated (x.enter (.parents (fullPath workingDirectory targetPath)))
  | invalid (workingDirectory msg : String) (hx : x.place = .validating workingDirectory) :
      SessionStep x .validated (x.enter (.reporting msg))
  | made (full : TreePath) (hx : x.place = .parents full)
      (hok : (makeParents x.fs full).result = .ok ()) :
      SessionStep x .made { x with place := .creating full, fs := (makeParents x.fs full).fs }
  | unmade (full parent : TreePath) (count : ℕ) (e msg : String) (hx : x.place = .parents full)
      (hparent : full.parent = some parent) :
      SessionStep x (.unmade count e) { x with
        place := .reporting msg
        fs := ((x.fs.createDirAll parent).dirs.take count).foldl makeDir x.fs }
  | opened (full : TreePath) (loc : Location) (hx : x.place = .creating full)
      (hloc : x.fs.createFile full = .ok loc) :
      SessionStep x (.opened true) { x with
        place := .receiving full loc .start
        fs := x.fs.write loc [] }
  | unopened (full : TreePath) (msg : String) (hx : x.place = .creating full) :
      SessionStep x (.opened false) (x.enter (.reporting msg))
  | polled (full : TreePath) (loc : Location) (u u' : Upload) (p : Poll) (now : FileSystem)
      (hx : x.place = .receiving full loc u) (hs : (FileUpload.machine ctx).step u p = some u')
      (hdisk : Session.disk x.fs full loc u' p = some now) :
      SessionStep x (.poll p) { x with place := .receiving full loc u', fs := now }
  | reported (msg : String) (hx : x.place = .reporting msg) :
      SessionStep x (.reported true) ((x.send (uploadError ctx msg)).enter .released)
  | unreported (msg : String) (hx : x.place = .reporting msg) :
      SessionStep x (.reported false) (x.enter .released)

variable {ctx lookup targetPath fs}

theorem session_step {x y : Session} {a : Label}
    (h : (session ctx lookup targetPath).step x a = some y) :
    SessionStep ctx lookup targetPath x a y := by
  obtain ⟨place,now,sent,queued⟩ := x
  cases place with
  | connecting =>
    cases a with
    | connected ok =>
      cases ok <;> cases h
      · exact .unconnected (.inl rfl) (by simp) _
      · exact .connected rfl
    | _ => cases h
  | handshake =>
    cases a with
    | handshake first =>
      cases h
      cases validateServerReady first with
      | ok msg => exact .ready first rfl
      | error reason => exact .unconnected (.inr (.inl rfl)) (by simp) _
    | _ => cases h
  | acknowledging =>
    cases a with
    | acknowledged r =>
      rcases r with e | _ <;> cases h
      · exact .unconnected (.inr (.inr rfl)) (by simp) _
      · exact .acknowledged rfl
    | _ => cases h
  | lookup =>
    cases a with
    | looked =>
      cases lookup <;> cases h
      · exact .unfound _ rfl
      · exact .found _ rfl rfl
    | _ => cases h
  | validating workingDirectory =>
    cases a with
    | validated =>
      cases h
      unfold Session.validate
      dsimp only
      split
      · rename_i hvalid
        exact .valid workingDirectory rfl hvalid
      · exact .invalid workingDirectory _ rfl
    | _ => cases h
  | parents full =>
    cases a with
    | made =>
      change Session.made _ full = _ at h
      unfold Session.made at h
      dsimp only at h
      split at h <;> cases h
      rename_i hok
      exact .made full rfl hok
    | unmade count e =>
      obtain ⟨parent,hparent,rfl⟩ := Option.map_eq_some_iff.mp h
      exact .unmade full parent count e _ rfl hparent
    | _ => cases h
  | creating full =>
    cases a with
    | opened ok =>
      cases ok with
      | false =>
        cases h
        exact .unopened full _ rfl
      | true =>
        change Session.opened _ full = _ at h
        unfold Session.opened at h
        split at h <;> cases h
        rename_i loc hloc
        exact .opened full loc rfl hloc
    | _ => cases h
  | receiving full loc u =>
    cases a with
    | poll p =>
      obtain ⟨u',hs,hrest⟩ := Option.bind_eq_some_iff.mp h
      obtain ⟨now',hdisk,rfl⟩ := Option.map_eq_some_iff.mp hrest
      exact .polled full loc u u' p now' rfl hs hdisk
    | _ => cases h
  | reporting msg =>
    cases a with
    | reported ok =>
      cases ok <;> cases h
      · exact .unreported msg rfl
      · exact .reported msg rfl
    | _ => cases h
  | released => cases a <;> cases h

theorem makeParents_adds (fs : FileSystem) (full : TreePath) : Adds fs (makeParents fs full) := by
  unfold makeParents
  split
  · exact createDirAll_adds fs _
  · exact adds_nil fs _

theorem openTarget_dirs (fs : FileSystem) (full : TreePath) :
    (openTarget fs full).1 = (makeParents fs full).dirs := by
  unfold openTarget makeParents
  cases full.parent with
  | none => rfl
  | some parent =>
    dsimp only
    cases (fs.createDirAll parent).result <;> rfl

theorem openTarget_file {full : TreePath} (h : (makeParents fs full).result = .ok ()) :
    (openTarget fs full).2 = (makeParents fs full).fs.createFile full := by
  unfold openTarget makeParents at *
  cases hparent : full.parent with
  | none => rfl
  | some parent =>
    rw [hparent] at h
    dsimp only at h ⊢
    rw [h]

theorem touched_parents {full : TreePath} {l : Location} (h : l ∈ (makeParents fs full).dirs) :
    l ∈ touched fs full := by
  rw [← openTarget_dirs] at h
  exact List.mem_append_left _ h

theorem Created.touched {full : TreePath} {loc : Location}
    (h : Created lookup targetPath fs full loc) : loc ∈ touched fs full := by
  refine List.mem_append_right _ ?_
  rw [openTarget_file h.parents,h.file]
  simp [Except.toOption]

theorem prepared_refl : Prepared lookup targetPath fs fs := fun _ h => absurd rfl h

section Disk

variable {full : TreePath} {loc : Location} {u u' : Upload} {now now' : FileSystem}
  {accepted : List (List UInt8)}

theorem disk_start (h : (makeParents fs full).fs.createFile full = .ok loc) :
    Disk fs full loc .start ((makeParents fs full).fs.write loc []) :=
  ⟨_,opened_write (target_of_createFile h) [],.inl ⟨by simp [Upload.start],rfl⟩⟩

theorem Disk.same (h : Disk fs full loc u now) (hfile : u'.file = u.file)
    (heffects : Effect.removePartialFile true ∈ u'.effects ↔
      Effect.removePartialFile true ∈ u.effects) : Disk fs full loc u' now := by
  unfold Disk
  rw [hfile,heffects]
  exact h

theorem Disk.opened (h : Disk fs full loc u now) (hnone : u.effects = []) :
    Opened (makeParents fs full).fs now loc u.file.passed := by
  obtain ⟨open',hopen,⟨-,rfl⟩ | ⟨hmem,-⟩⟩ := h
  · exact hopen
  · rw [hnone] at hmem
    cases hmem

theorem Disk.write (h : Disk fs full loc u now)
    (hcreate : (makeParents fs full).fs.createFile full = .ok loc) (hnone : u.effects = [])
    (hnone' : u'.effects = []) : Disk fs full loc u' (now.write loc u'.file.passed) :=
  ⟨_,(h.opened hnone).rewrite (target_of_createFile hcreate).writable _,
    .inl ⟨by simp [hnone'],rfl⟩⟩

theorem Disk.remove (h : Disk fs full loc u now)
    (hcreate : (makeParents fs full).fs.createFile full = .ok loc) (hnone : u.effects = [])
    (hfile : u'.file = u.file) (hmem : Effect.removePartialFile true ∈ u'.effects)
    (hremove : now.removeFile full = .ok now') : Disk fs full loc u' now' := by
  have hopened := h.opened hnone
  obtain ⟨after,entry,hafter,hentry,hwhere,hnode⟩ :=
    hopened.removeFile (target_of_createFile hcreate)
  obtain rfl : after = now' := Except.ok.inj (hafter.symm.trans hremove)
  rw [← hfile] at hopened
  exact ⟨now,hopened,.inr ⟨hmem,entry,hentry,hwhere,hnode⟩⟩

theorem incoming_kept (ctx : UploadContext) (u : Upload) (item : TransferLoop.Incoming) :
    (u.incoming ctx item).file = u.file ∧ (u.incoming ctx item).effects = u.effects := by
  unfold Upload.incoming
  split
  · unfold Upload.receive
    dsimp only
    split
    · split <;> exact ⟨rfl,rfl⟩
    · split
      · split <;> exact ⟨rfl,rfl⟩
      · exact ⟨rfl,rfl⟩
  · exact ⟨rfl,rfl⟩
  · exact ⟨rfl,rfl⟩
  · exact ⟨rfl,rfl⟩
  · exact ⟨rfl,rfl⟩

theorem disk_step {p : Poll} (hcreate : (makeParents fs full).fs.createFile full = .ok loc)
    (h : Disk fs full loc u now) (hsound : FileUpload.Sound ctx u accepted)
    (hs : (FileUpload.machine ctx).step u p = some u')
    (hdisk : Session.disk now full loc u' p = some now') : Disk fs full loc u' now' := by
  have hst := hsound.stage
  cases FileUpload.stepped hs with
  | incoming hp item =>
    cases hdisk
    obtain ⟨hfile,heffects⟩ := incoming_kept ctx u item
    exact h.same hfile (by rw [heffects])
  | written chunk hp count | writeFailed chunk hp count | flushed hp | flushFailed hp count =>
    cases hdisk
    simp only [FileUpload.Stage,hp] at hst
    exact h.write hcreate hst.1 hst.1
  | synced hp | syncFailed hp =>
    cases hdisk
    exact h.same rfl Iff.rfl
  | removed error hp ok =>
    simp only [FileUpload.Stage,hp] at hst
    cases ok with
    | false =>
      cases hdisk
      exact h.same rfl (by simp [Upload.removed])
    | true =>
      cases hremove : now.removeFile full with
      | error e => simp [Session.disk,hremove,Except.toOption] at hdisk
      | ok after =>
        obtain rfl : after = now' := by simpa [Session.disk,hremove,Except.toOption] using hdisk
        exact h.remove hcreate hst rfl (by simp [Upload.removed]) hremove
  | replied frame hp ok =>
    cases hdisk
    exact h.same rfl (by simp)

end Disk

theorem at_step {x y : Session} {a : Label} {polls : List Poll}
    (hs : (session ctx lookup targetPath).step x a = some y)
    (h : At ctx lookup targetPath fs x.fs x.sent x.queued polls x.place) :
    At ctx lookup targetPath fs y.fs y.sent y.queued (polls ++ pollsOf [a]) y.place := by
  obtain ⟨place,now,sent,queued⟩ := x
  cases session_step hs with
  | connected hx | ready first hx =>
    subst hx
    obtain ⟨rfl,rfl,rfl,rfl⟩ := h
    exact ⟨rfl,rfl,rfl,rfl⟩
  | unconnected hx ha msg =>
    obtain ⟨rfl,rfl,rfl,rfl⟩ : now = fs ∧ sent = [] ∧ queued = [] ∧ polls = [] := by
      rcases hx with rfl | rfl | rfl <;> exact h
    have hnone : pollsOf [a] = [] := by
      cases a with
      | poll p => exact absurd rfl (ha p)
      | _ => rfl
    exact ⟨hnone,.inl ⟨rfl,rfl,msg,rfl⟩⟩
  | acknowledged hx =>
    subst hx
    obtain ⟨rfl,rfl,rfl,rfl⟩ := h
    exact ⟨rfl,rfl,rfl,rfl⟩
  | found workingDirectory hx hlookup =>
    subst hx
    obtain ⟨rfl,rfl,rfl,rfl⟩ := h
    exact ⟨hlookup,rfl,rfl,rfl,rfl⟩
  | unfound msg hx =>
    subst hx
    obtain ⟨rfl,rfl,rfl,rfl⟩ := h
    exact ⟨prepared_refl,rfl,rfl,rfl⟩
  | valid workingDirectory hx hvalid =>
    subst hx
    obtain ⟨hlookup,rfl,rfl,rfl,rfl⟩ := h
    exact ⟨⟨workingDirectory,hlookup,rfl,hvalid⟩,rfl,rfl,rfl,rfl⟩
  | invalid workingDirectory msg hx =>
    subst hx
    obtain ⟨-,rfl,rfl,rfl,rfl⟩ := h
    exact ⟨prepared_refl,rfl,rfl,rfl⟩
  | made full hx hok =>
    subst hx
    obtain ⟨haccepted,rfl,rfl,rfl,rfl⟩ := h
    exact ⟨haccepted,hok,rfl,rfl,rfl,rfl⟩
  | unmade full parent count e msg hx hparent =>
    subst hx
    obtain ⟨haccepted,rfl,rfl,rfl,rfl⟩ := h
    refine ⟨fun l hl => ⟨full,haccepted,touched_parents ?_⟩,rfl,rfl,rfl⟩
    rw [makeParents,hparent]
    exact List.mem_of_mem_take (node_makeDirs hl)
  | opened full loc hx hloc =>
    subst hx
    obtain ⟨haccepted,hok,rfl,rfl,rfl,rfl⟩ := h
    exact ⟨⟨haccepted,hok,hloc⟩,disk_start hloc,rfl,rfl,rfl⟩
  | unopened full msg hx =>
    subst hx
    obtain ⟨haccepted,hok,rfl,rfl,rfl,rfl⟩ := h
    refine ⟨fun l hl => ⟨full,haccepted,touched_parents ?_⟩,rfl,rfl,rfl⟩
    by_contra hout
    exact hl (by rw [Session.enter,(makeParents_adds fs full).node,if_neg hout])
  | polled full loc u u' p now' hx hpoll hdisk =>
    subst hx
    obtain ⟨hcreated,hd,hrun,rfl,rfl⟩ := h
    refine ⟨hcreated,disk_step hcreated.file hd (FileUpload.sound_run hrun) hpoll hdisk,?_,rfl,rfl⟩
    exact (StepMachine.run_append_eq_some _).mpr
      ⟨u,hrun,(StepMachine.run_cons_eq_some _).mpr ⟨u',hpoll,rfl⟩⟩
  | reported msg hx =>
    subst hx
    obtain ⟨hprepared,rfl,rfl,rfl⟩ := h
    exact ⟨rfl,.inr ⟨hprepared,rfl,.inr ⟨msg,rfl⟩⟩⟩
  | unreported msg hx =>
    subst hx
    obtain ⟨hprepared,rfl,rfl,rfl⟩ := h
    exact ⟨rfl,.inr ⟨hprepared,rfl,.inl rfl⟩⟩

/-- The replies of the upload: none, the acknowledgement of a stored file, or an error. -/
theorem frames_cases {u : Upload} {accepted : List (List UInt8)}
    (h : FileUpload.Stage ctx u accepted) :
    u.effects.filterMap replyFrame? = [] ∨
      (u.effects.filterMap replyFrame? = [uploadComplete ctx] ∧
        Effect.removePartialFile true ∉ u.effects ∧ FileUpload.Stored ctx u accepted) ∨
      ∃ msg, u.effects.filterMap replyFrame? = [uploadError ctx msg] := by
  cases hp : u.phase with
  | replying frame =>
    simp only [FileUpload.Stage,hp] at h
    rcases h with ⟨-,he,-⟩ | ⟨_,_,-,he⟩ <;> exact .inl (by simp [he,replyFrame?])
  | ended =>
    simp only [FileUpload.Stage,hp] at h
    rcases h with ⟨ok,he,hstored⟩ | ⟨ok,he⟩ | ⟨msg,ok,ok',he⟩
    · cases ok
      · exact .inl (by simp [he,replyFrame?])
      · exact .inr (.inl ⟨by simp [he,replyFrame?],by simp [he],hstored⟩)
    · exact .inl (by simp [he,replyFrame?])
    · cases ok'
      · exact .inl (by simp [he,replyFrame?])
      · exact .inr (.inr ⟨msg,by rw [he]; rfl⟩)
  | removing error =>
    simp only [FileUpload.Stage,hp] at h
    exact .inl (by simp [h])
  | _ =>
    simp only [FileUpload.Stage,hp] at h
    exact .inl (by simp [h.1])

theorem uploadError_ne (ctx : UploadContext) (msg : String) :
    uploadError ctx msg ≠ uploadComplete ctx := by
  intro h
  have herror := FileUpload.isComplete_uploadError ctx msg true
  rw [h,FileUpload.isComplete_uploadComplete] at herror
  cases herror

theorem readyAck_ne (ctx : UploadContext) : readyAck ctx ≠ uploadComplete ctx := by
  intro h
  have hready := Message.fromData_header MessageId.serverReady ctx.uuid []
    (ctx.uuid_fits.trans (by norm_num))
  have hd : readyAck ctx = Message.block (utf8 ctx.uuid) ++
      LittleEndian.encode 4 MessageId.serverReady.toNat ++ [] := by simp [readyAck]
  have hcomplete := FileUpload.isComplete_uploadComplete ctx true
  rw [← h,hd] at hcomplete
  simp only [FileUpload.isComplete,hready] at hcomplete
  revert hcomplete
  decide

theorem node_of_disk {full : TreePath} {loc l : Location} {u : Upload} {now : FileSystem}
    (h : Disk fs full loc u now) (hne : now.node l ≠ fs.node l) :
    l ∈ (makeParents fs full).dirs ∨ l = loc ∨
      ∃ target, fs.node l = some (.link target) ∧
        (makeParents fs full).fs.entryOf full = some l := by
  have hadds := makeParents_adds fs full
  have hopen : ∀ {open'}, Opened (makeParents fs full).fs open' loc u.file.passed →
      open'.node l ≠ fs.node l → l ∈ (makeParents fs full).dirs ∨ l = loc := by
    intro open' hopened hopen
    by_contra hout
    obtain ⟨hdirs,hloc⟩ := not_or.mp hout
    exact hopen (by rw [hopened.2,if_neg hloc,hadds.node,if_neg hdirs])
  obtain ⟨open',hopened,⟨-,rfl⟩ | ⟨-,entry,hentry,hwhere,hnode⟩⟩ := h
  · rcases hopen hopened hne with hdirs | hloc
    · exact .inl hdirs
    · exact .inr (.inl hloc)
  · by_cases hl : l = entry
    · subst hl
      rcases hwhere with rfl | ⟨target,hlink⟩
      · exact .inr (.inl rfl)
      · refine .inr (.inr ⟨target,?_,hentry⟩)
        rw [hadds.node] at hlink
        split at hlink
        · cases hlink
        · exact hlink
    · rw [hnode,if_neg hl] at hne
      rcases hopen hopened hne with hdirs | hloc
      · exact .inl hdirs
      · exact .inr (.inl hloc)

theorem changed_of_at {x : Session} {polls : List Poll} {l : Location}
    (h : At ctx lookup targetPath fs x.fs x.sent x.queued polls x.place)
    (hne : x.fs.node l ≠ fs.node l) :
    ∃ full, Accepted lookup targetPath fs full ∧ (l ∈ touched fs full ∨
      ∃ target, fs.node l = some (.link target) ∧
        (makeParents fs full).fs.entryOf full = some l) := by
  obtain ⟨place,now,sent,queued⟩ := x
  cases place with
  | receiving full loc u =>
    obtain ⟨hcreated,hdisk,-⟩ := h
    refine ⟨full,hcreated.accepted,?_⟩
    rcases node_of_disk hdisk hne with hdirs | rfl | hlink
    · exact .inl (touched_parents hdirs)
    · exact .inl hcreated.touched
    · exact .inr hlink
  | creating full =>
    obtain ⟨haccepted,-,rfl,-⟩ := h
    refine ⟨full,haccepted,.inl (touched_parents ?_)⟩
    by_contra hout
    exact hne (by rw [(makeParents_adds fs full).node,if_neg hout])
  | reporting msg =>
    obtain ⟨full,haccepted,hl⟩ := h.1 l hne
    exact ⟨full,haccepted,.inl hl⟩
  | released =>
    obtain ⟨-,⟨rfl,-⟩ | ⟨hprepared,-⟩⟩ := h
    · exact absurd rfl hne
    · obtain ⟨full,haccepted,hl⟩ := hprepared l hne
      exact ⟨full,haccepted,.inl hl⟩
  | connecting | handshake | acknowledging | lookup =>
    obtain ⟨rfl,-⟩ := h
    exact absurd rfl hne
  | validating _ | parents _ =>
    obtain ⟨-,rfl,-⟩ := h
    exact absurd rfl hne

/-- Before the creation of the file nothing but an error is reported. -/
theorem receiving_of_complete {x : Session} {polls : List Poll}
    (h : At ctx lookup targetPath fs x.fs x.sent x.queued polls x.place)
    (hwire : uploadComplete ctx ∈ x.wire) : ∃ full loc u, x.place = .receiving full loc u := by
  have hready : uploadComplete ctx ≠ readyAck ctx := (readyAck_ne ctx).symm
  obtain ⟨place,now,sent,queued⟩ := x
  cases place with
  | receiving full loc u => exact ⟨full,loc,u,rfl⟩
  | connecting | handshake | acknowledging | lookup | reporting _ =>
    obtain ⟨-,rfl,-⟩ := h
    simp [Session.wire,hready] at hwire
  | validating _ | parents _ =>
    obtain ⟨-,-,rfl,-⟩ := h
    simp [Session.wire,hready] at hwire
  | creating _ =>
    obtain ⟨-,-,-,rfl,-⟩ := h
    simp [Session.wire,hready] at hwire
  | released =>
    obtain ⟨-,⟨-,rfl,-⟩ | ⟨-,-,rfl | ⟨msg,rfl⟩⟩⟩ := h
    · simp [Session.wire] at hwire
    · simp [Session.wire,hready] at hwire
    · simp [Session.wire,hready,(uploadError_ne ctx msg).symm] at hwire

theorem stored_of_disk {full : TreePath} {loc : Location} {u : Upload} {now : FileSystem}
    {accepted : List (List UInt8)} (h : Disk fs full loc u now)
    (hsound : FileUpload.Sound ctx u accepted) (hkept : .removePartialFile true ∉ u.effects)
    (hstored : FileUpload.Stored ctx u accepted) :
    now.node loc = some (.file accepted.flatten) ∧
      accepted.flatten.length = ctx.fileSize.toNat := by
  obtain ⟨open',hopened,⟨-,rfl⟩ | ⟨hmem,-⟩⟩ := h
  · exact ⟨by rw [hopened.2,if_pos rfl,hstored.1],hsound.received ▸ hstored.2⟩
  · exact absurd hmem hkept

theorem removed_of_disk {full : TreePath} {loc : Location} {u : Upload} {now : FileSystem}
    (h : Disk fs full loc u now) (hmem : .removePartialFile true ∈ u.effects) :
    ∃ entry, (makeParents fs full).fs.entryOf full = some entry ∧ now.node entry = none := by
  obtain ⟨open',-,⟨hnot,-⟩ | ⟨-,entry,hentry,-,hnode⟩⟩ := h
  · exact absurd hmem hnot
  · exact ⟨entry,hentry,by rw [hnode,if_pos rfl]⟩

theorem ended_of_at {x : Session} {polls : List Poll} {full : TreePath} {loc : Location}
    {u : Upload} (h : At ctx lookup targetPath fs x.fs x.sent x.queued polls x.place)
    (hplace : x.place = .receiving full loc u) (hphase : u.phase = .ended) :
    let accepted := acceptedChunks polls
    (u.effects.any FileUpload.isComplete = true ∧
        x.fs.node loc = some (.file accepted.flatten) ∧
          accepted.flatten.length = ctx.fileSize.toNat) ∨
      (u.effects.any FileUpload.isComplete = false ∧ ∃ ok, .removePartialFile ok ∈ u.effects ∧
        (ok = true → ∃ entry, (makeParents fs full).fs.entryOf full = some entry ∧
          x.fs.node entry = none)) := by
  obtain ⟨place,now,sent,queued⟩ := x
  subst hplace
  obtain ⟨-,hdisk,hrun,-,-⟩ := h
  have hsound := FileUpload.sound_run hrun
  have hst := hsound.stage
  simp only [FileUpload.Stage,hphase] at hst
  have hgone : ∀ ok, Effect.removePartialFile ok ∈ u.effects → ok = true →
      ∃ entry, (makeParents fs full).fs.entryOf full = some entry ∧ now.node entry = none := by
    rintro ok hmem rfl
    exact removed_of_disk hdisk hmem
  rcases hst with ⟨ok,he,hstored⟩ | ⟨ok,he⟩ | ⟨msg,ok,ok',he⟩
  · exact .inl ⟨by simp [he,FileUpload.isComplete_uploadComplete],
      stored_of_disk hdisk hsound (by simp [he]) hstored⟩
  · exact .inr ⟨by simp [he,FileUpload.isComplete],ok,by simp [he],hgone ok (by simp [he])⟩
  · refine .inr ⟨?_,ok,by simp [he],hgone ok (by simp [he])⟩
    simp only [he,List.any_cons,List.any_nil,FileUpload.isComplete_uploadError]
    rfl

theorem stored_of_at {x : Session} {polls : List Poll}
    (h : At ctx lookup targetPath fs x.fs x.sent x.queued polls x.place)
    (hwire : uploadComplete ctx ∈ x.wire) :
    ∃ full loc, Created lookup targetPath fs full loc ∧
      x.fs.node loc = some (.file (acceptedChunks polls).flatten) ∧
        (acceptedChunks polls).flatten.length = ctx.fileSize.toNat := by
  obtain ⟨full,loc,u,hplace⟩ := receiving_of_complete h hwire
  obtain ⟨place,now,sent,queued⟩ := x
  subst hplace
  obtain ⟨hcreated,hdisk,hrun,rfl,rfl⟩ := h
  have hsound := FileUpload.sound_run hrun
  refine ⟨full,loc,hcreated,?_⟩
  have hready : uploadComplete ctx ≠ readyAck ctx := (readyAck_ne ctx).symm
  simp only [Session.wire,List.mem_append,List.mem_singleton,hready,false_or] at hwire
  rcases frames_cases hsound.stage with hnone | ⟨-,hkept,hstored⟩ | ⟨msg,hframe⟩
  · simp [hnone] at hwire
  · exact stored_of_disk hdisk hsound hkept hstored
  · simp [hframe,(uploadError_ne ctx msg).symm] at hwire

end Session

section Results

variable (fs : FileSystem) (ctx : UploadContext) (lookup : Except JobLookupError String)
variable (targetPath : String)

theorem at_run {labels : List Label} {x : Session}
    (hrun : (session ctx lookup targetPath).run (start fs) labels = some x) :
    At ctx lookup targetPath fs x.fs x.sent x.queued (pollsOf labels) x.place := by
  have hstart : At ctx lookup targetPath fs (start fs).fs (start fs).sent (start fs).queued []
      (start fs).place := ⟨rfl,rfl,rfl,rfl⟩
  have h := StepMachine.log_invariant (P := fun _ _ => True) (f := fun _ a => pollsOf [a])
    (I := fun x polls => At ctx lookup targetPath fs x.fs x.sent x.queued polls x.place)
    (fun _ _ _ _ h _ hs => at_step hs h) hstart (StepMachine.meets_true _ labels) hrun
  rw [StepMachine.log_of_label hrun] at h
  simpa [pollsOf] using h

/-- What an upload does to the file system. Every change is at a location that the accepted target
touches, or takes away a link at the end of its path. When a client is told of success, the file
has exactly the payloads of the accepted chunk frames, with the announced size. An upload whose
file was opened ends in one of two ways: it has announced its success and left these payloads, or
it has announced none and tried to remove the entry of its path, which is gone if that worked. -/
theorem upload_disk (labels : List Label) (x : Session)
    (hrun : (session ctx lookup targetPath).run (start fs) labels = some x) :
    (∀ l, x.fs.node l ≠ fs.node l → ∃ full, Accepted lookup targetPath fs full ∧
      (l ∈ touched fs full ∨ ∃ target, fs.node l = some (.link target) ∧
        (makeParents fs full).fs.entryOf full = some l)) ∧
    let accepted := acceptedChunks (pollsOf labels)
    (uploadComplete ctx ∈ x.wire → ∃ full loc, Created lookup targetPath fs full loc ∧
      x.fs.node loc = some (.file accepted.flatten) ∧
        accepted.flatten.length = ctx.fileSize.toNat) ∧
    ∀ full loc u, x.place = .receiving full loc u → u.phase = .ended →
      (u.effects.any FileUpload.isComplete = true ∧
          x.fs.node loc = some (.file accepted.flatten) ∧
            accepted.flatten.length = ctx.fileSize.toNat) ∨
        (u.effects.any FileUpload.isComplete = false ∧ ∃ ok, .removePartialFile ok ∈ u.effects ∧
          (ok = true → ∃ entry, (makeParents fs full).fs.entryOf full = some entry ∧
            x.fs.node entry = none)) := by
  have hat := at_run fs ctx lookup targetPath hrun
  exact ⟨fun _ hne => changed_of_at hat hne,fun hwire => stored_of_at hat hwire,
    fun _ _ _ hplace hphase => ended_of_at hat hplace hphase⟩

/-- A chunk as a peer frames it. -/
def chunkFrame (ctx : UploadContext) (bytes : List UInt8) : List UInt8 :=
  ((Message.new MessageId.fileUploadChunk .lowest ctx.uuid).pushBytes bytes).data

/-- The peer sends these chunks and announces the end; every operation succeeds, and each write
puts some of the buffered bytes on disk. -/
def plainPolls (ctx : UploadContext) : List (List UInt8 × ℕ) → List Poll
  | [] => [.incoming (some (.ok (.binary (uploadComplete ctx)))),.flushed,.synced,.replied true]
  | part :: parts =>
    .incoming (some (.ok (.binary (chunkFrame ctx part.1)))) :: .written part.2 :: plainPolls ctx parts

/-- Everything before the file is open goes well. -/
def preparing (first : Handshake) : List Label :=
  [.connected true,.handshake first,.acknowledged (.ok ()),.looked,.validated,.made,.opened true]

theorem incoming_chunkFrame {u : Upload} {bytes : List UInt8}
    (hfits : u.receivedSize + bytes.length ≤ ctx.fileSize.toNat) :
    u.incoming ctx (some (.ok (.binary (chunkFrame ctx bytes)))) =
      { u with phase := .writing bytes } := by
  have hu : (utf8 ctx.uuid).length < 2^64 := ctx.uuid_fits.trans (by norm_num)
  have hb : bytes.length < 2^64 := by
    have := ctx.fileSize.toNat_lt
    omega
  have hd : chunkFrame ctx bytes = Message.block (utf8 ctx.uuid) ++
      LittleEndian.encode 4 MessageId.fileUploadChunk.toNat ++ Message.block bytes := by
    simp [chunkFrame]
  have hp := Message.fromData_header MessageId.fileUploadChunk ctx.uuid (Message.block bytes) hu
  rw [← hd] at hp
  have hpop : (Message.fromData (chunkFrame ctx bytes)).popBytes.1 = bytes := by
    rw [hp,Message.popBytes_append (b := bytes) (r := []) (by rw [hd,List.append_nil])
      (by simp) hb]
  have hsmall : ¬ bytes.length > ctx.fileSize.toNat - u.receivedSize := by omega
  simp only [Upload.incoming,Upload.receive,hpop,if_neg hsmall]
  rw [hp]
  rfl

theorem incoming_uploadComplete {u : Upload} (hsize : u.receivedSize = ctx.fileSize.toNat) :
    u.incoming ctx (some (.ok (.binary (uploadComplete ctx)))) = { u with phase := .flushing } := by
  have hid : (Message.fromData (uploadComplete ctx)).id = MessageId.fileUploadComplete := by
    simpa only [FileUpload.isComplete,decide_eq_true_eq] using
      FileUpload.isComplete_uploadComplete ctx true
  have hne : MessageId.fileUploadComplete ≠ MessageId.fileUploadChunk := by decide
  simp only [Upload.incoming,Upload.receive,hid,if_neg hne,if_true,hsize,ne_eq,not_true,if_false]

theorem plainPolls_run (parts : List (List UInt8 × ℕ)) (u : Upload) (hp : u.phase = .receiving)
    (hsize : u.receivedSize + (parts.map Prod.fst).flatten.length = ctx.fileSize.toNat) :
    ∃ u', (FileUpload.machine ctx).run u (plainPolls ctx parts) = some u' ∧
      u'.effects = u.effects ++ [.reply (uploadComplete ctx) true] ∧
      u'.file.passed = u.file.all ++ (parts.map Prod.fst).flatten := by
  have hincoming : ∀ {u : Upload} (item), u.phase = .receiving →
      (FileUpload.machine ctx).step u (.incoming item) = some (u.incoming ctx item) := by
    intro u item hp
    simp [FileUpload.machine,Upload.step,hp]
  induction parts generalizing u with
  | nil =>
    refine ⟨⟨.ended,u.receivedSize,u.file.flush,
      u.effects ++ [.reply (uploadComplete ctx) true]⟩,?_,rfl,by simp [BufferedWriter.flush]⟩
    rw [plainPolls,StepMachine.run_cons_eq_some]
    exact ⟨_,hincoming _ hp,by rw [incoming_uploadComplete ctx (by simpa using hsize)]; rfl⟩
  | cons part parts ih =>
    obtain ⟨bytes,count⟩ := part
    have hlen : u.receivedSize + (bytes.length + (parts.map Prod.fst).flatten.length) =
        ctx.fileSize.toNat := by
      simpa using hsize
    have hsum : (u.receivedSize + bytes.length) % 2^64 = u.receivedSize + bytes.length := by
      have := ctx.fileSize.toNat_lt
      exact Nat.mod_eq_of_lt (by omega)
    obtain ⟨u',hrun,heffects,hpassed⟩ := ih
      ⟨.receiving,(u.receivedSize + bytes.length) % 2^64,(u.file.hold bytes).pass count,u.effects⟩
      rfl (by dsimp only; omega)
    refine ⟨u',?_,heffects,by rw [hpassed]; simp⟩
    rw [plainPolls,StepMachine.run_cons_eq_some]
    refine ⟨_,hincoming _ hp,?_⟩
    rw [incoming_chunkFrame ctx (by dsimp only; omega),StepMachine.run_cons_eq_some]
    exact ⟨_,rfl,hrun⟩

theorem plainPolls_kept (parts : List (List UInt8 × ℕ)) :
    ∀ p ∈ plainPolls ctx parts, p ≠ .removed true := by
  induction parts with
  | nil => simp [plainPolls]
  | cons part parts ih => simpa [plainPolls] using ih

theorem polls_run {polls : List Poll} {u u' : Upload} {x : Session} {full : TreePath}
    {loc : Location} (hx : x.place = .receiving full loc u)
    (hrun : (FileUpload.machine ctx).run u polls = some u') (hkept : ∀ p ∈ polls, p ≠ .removed true) :
    ∃ y, (session ctx lookup targetPath).run x (polls.map .poll) = some y ∧
      y.place = .receiving full loc u' := by
  induction polls generalizing u x with
  | nil =>
    cases hrun
    exact ⟨x,rfl,hx⟩
  | cons p polls ih =>
    obtain ⟨v,hv,hrest⟩ := (StepMachine.run_cons_eq_some _).mp hrun
    obtain ⟨now,hnow⟩ : ∃ now, Session.disk x.fs full loc v p = some now := by
      cases p with
      | removed ok =>
        cases ok with
        | false => exact ⟨_,rfl⟩
        | true => exact absurd rfl (hkept _ List.mem_cons_self)
      | _ => exact ⟨_,rfl⟩
    have hstep : (session ctx lookup targetPath).step x (.poll p) =
        some { x with place := .receiving full loc v, fs := now } := by
      obtain ⟨place,before,sent,queued⟩ := x
      subst hx
      change Session.polled ctx _ full loc u p = _
      simp only [Session.polled,hv,Option.bind_some,hnow,Option.map_some]
    obtain ⟨y,hy,hplace⟩ := ih (x := { x with place := .receiving full loc v, fs := now }) rfl
      hrest fun q hq => hkept q (List.mem_cons_of_mem p hq)
    exact ⟨y,(StepMachine.run_cons_eq_some _).mpr ⟨_,hstep,hy⟩,hplace⟩

theorem created_of_openTarget {full : TreePath} {loc : Location}
    (h : (openTarget fs full).2 = .ok loc) :
    (makeParents fs full).result = .ok () ∧
      (makeParents fs full).fs.createFile full = .ok loc := by
  have hresult : (makeParents fs full).result = .ok () := by
    unfold openTarget at h
    unfold makeParents
    cases hparent : full.parent with
    | none => rfl
    | some parent =>
      rw [hparent] at h
      dsimp only at h ⊢
      cases hmade : (fs.createDirAll parent).result with
      | ok _ => rfl
      | error e =>
        rw [hmade] at h
        cases h
  exact ⟨hresult,openTarget_file hresult ▸ h⟩

theorem handshaken_eq {r : Except String Message} (h : r.isOk = true) (x : Session) :
    x.handshaken ctx r = x.enter .acknowledging := by
  cases r with
  | ok ready => rfl
  | error reason => cases h

theorem validate_eq {x : Session} {workingDirectory : String}
    (h : validatePathIsWithin x.fs (fullPath workingDirectory targetPath)
      (.parse workingDirectory.toList) = true) :
    x.validate targetPath workingDirectory =
      x.enter (.parents (fullPath workingDirectory targetPath)) := if_pos h

theorem made_eq {x : Session} {full : TreePath} (h : (makeParents x.fs full).result = .ok ()) :
    x.made full = some { x with place := .creating full, fs := (makeParents x.fs full).fs } := by
  simp only [Session.made,h]

theorem opened_eq {x : Session} {full : TreePath} {loc : Location}
    (h : x.fs.createFile full = .ok loc) :
    x.opened full = some { x with place := .receiving full loc .start, fs := x.fs.write loc [] } := by
  simp only [Session.opened,h]

theorem preparing_run {workingDirectory : String} {first : Handshake}
    (hready : (validateServerReady first).isOk = true)
    (hvalid : validatePathIsWithin fs (fullPath workingDirectory targetPath)
      (.parse workingDirectory.toList) = true) {loc : Location}
    (hopen : (openTarget fs (fullPath workingDirectory targetPath)).2 = .ok loc) :
    ∃ x, (session ctx (.ok workingDirectory) targetPath).run (start fs) (preparing first) = some x ∧
      x.place = .receiving (fullPath workingDirectory targetPath) loc .start := by
  obtain ⟨hresult,hcreate⟩ := created_of_openTarget fs hopen
  refine ⟨⟨.receiving (fullPath workingDirectory targetPath) loc .start,
      (makeParents fs (fullPath workingDirectory targetPath)).fs.write loc [],[readyAck ctx],[]⟩,
    (StepMachine.run_cons_eq_some _).mpr ⟨_,rfl,?_⟩,rfl⟩
  refine (StepMachine.run_cons_eq_some _).mpr ⟨_,congrArg some (handshaken_eq ctx hready _),?_⟩
  refine (StepMachine.run_cons_eq_some _).mpr ⟨_,rfl,?_⟩
  refine (StepMachine.run_cons_eq_some _).mpr ⟨_,rfl,?_⟩
  refine (StepMachine.run_cons_eq_some _).mpr ⟨_,congrArg some (validate_eq targetPath hvalid),?_⟩
  refine (StepMachine.run_cons_eq_some _).mpr ⟨_,made_eq hresult,?_⟩
  exact (StepMachine.run_cons_eq_some _).mpr ⟨_,opened_eq hcreate,rfl⟩

/-- A plain upload to an accepted path that can be opened succeeds, however the peer has cut the
file and whenever its bytes reach the disk: the file has the bytes, and the client is told. -/
theorem upload_succeeds (workingDirectory : String) (first : Handshake)
    (hready : (validateServerReady first).isOk = true)
    (hvalid : validatePathIsWithin fs (fullPath workingDirectory targetPath)
      (.parse workingDirectory.toList) = true) (loc : Location)
    (hopen : (openTarget fs (fullPath workingDirectory targetPath)).2 = .ok loc)
    (parts : List (List UInt8 × ℕ))
    (hsize : (parts.map Prod.fst).flatten.length = ctx.fileSize.toNat) :
    ∃ x, (session ctx (.ok workingDirectory) targetPath).run (start fs)
        (preparing first ++ (plainPolls ctx parts).map .poll) = some x ∧
      x.wire = [readyAck ctx,uploadComplete ctx] ∧ x.queued = [] ∧
      x.fs.node loc = some (.file (parts.map Prod.fst).flatten) := by
  obtain ⟨y,hprepared,hy⟩ := preparing_run fs ctx targetPath hready hvalid hopen
  obtain ⟨u,hpolls,heffects,hpassed⟩ :=
    plainPolls_run ctx parts .start rfl (by simpa [Upload.start] using hsize)
  obtain ⟨x,hx,hplace⟩ := polls_run ctx (.ok workingDirectory) targetPath hy hpolls
    (plainPolls_kept ctx parts)
  have hrun := (StepMachine.run_append_eq_some _).mpr ⟨_,hprepared,hx⟩
  have hat := at_run fs ctx (.ok workingDirectory) targetPath hrun
  obtain ⟨place,after,sent,queued⟩ := x
  subst hplace
  obtain ⟨-,⟨open',hopened,hcases⟩,-,rfl,rfl⟩ := hat
  refine ⟨_,hrun,by simp [Session.wire,heffects,Upload.start,replyFrame?],rfl,?_⟩
  rcases hcases with ⟨-,rfl⟩ | ⟨hmem,-⟩
  · rw [hopened.2,if_pos rfl,hpassed]
    rfl
  · simp [heffects,Upload.start] at hmem

end Results

def oneByteUpload : UploadContext := ⟨"upload",by decide,1⟩

def readyFirst : Handshake := .item (some (.ok (.binary DownloadSession.readyFrame)))

/-- One byte is uploaded into a directory that has to be made. -/
def wholeUpload : List Label :=
  preparing readyFirst ++ (plainPolls oneByteUpload [([7],0)]).map .poll

theorem wholeUpload_run :
    ((session oneByteUpload (.ok "/w") "new/f").run (start UploadPath.emptyWork) wholeUpload).any
      (fun x => x.hasEnded = true ∧ x.wire = [readyAck oneByteUpload,uploadComplete oneByteUpload]) =
        true := by
  decide +kernel

theorem upload_disk_wholeUpload : ∃ x,
    (session oneByteUpload (.ok "/w") "new/f").run (start UploadPath.emptyWork) wholeUpload =
      some x ∧ ∃ full loc, Created (.ok "/w") "new/f" UploadPath.emptyWork full loc ∧
        x.fs.node loc = some (.file [7]) := by
  obtain ⟨x,hrun,hwire⟩ := (Option.any_eq_true _ _).mp wholeUpload_run
  obtain ⟨-,hstored,-⟩ :=
    upload_disk UploadPath.emptyWork oneByteUpload (.ok "/w") "new/f" wholeUpload x hrun
  obtain ⟨full,loc,hcreated,hfile,-⟩ := hstored (by simp [(of_decide_eq_true hwire).2])
  have hpolls : acceptedChunks (pollsOf wholeUpload) = [[7]] := by decide +kernel
  rw [hpolls] at hfile
  exact ⟨x,hrun,full,loc,hcreated,hfile⟩

theorem upload_succeeds_wholeUpload : ∃ x,
    (session oneByteUpload (.ok "/w") "new/f").run (start UploadPath.emptyWork) wholeUpload =
      some x ∧ x.wire = [readyAck oneByteUpload,uploadComplete oneByteUpload] ∧
        x.fs.node ["w","new","f"] = some (.file [7]) := by
  obtain ⟨x,hrun,hwire,-,hfile⟩ :=
    upload_succeeds UploadPath.emptyWork oneByteUpload "new/f" "/w" readyFirst (by decide +kernel)
      (by decide +kernel) ["w","new","f"] (by decide +kernel) [([7],0)] (by decide)
  exact ⟨x,hrun,hwire,hfile⟩

/-- A link outside of the working directory leads back to a file in it. -/
def linkedBack : FileSystem :=
  (DownloadSession.oneFile.add [] "out" .dir (by decide) (by decide)).add ["out"] "link"
    (.link ⟨.root,[.normal "w",.normal "f"],false⟩) (by decide) (by decide)

-- the path is accepted, and the failed upload removes the link and leaves the truncated file
example : ((session oneByteUpload (.ok "/w") "../out/link").run (start linkedBack)
    (preparing readyFirst ++ [.poll (.incoming none),.poll (.removed true)])).any (fun x =>
      x.fs.node ["out","link"] = none ∧ x.fs.node ["w","f"] = some (.file [])) = true := by
  decide +kernel

end UploadSession
end JobControllerClient
