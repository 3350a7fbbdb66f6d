import JobControllerClient.Foundation.BufferedWriter
import JobControllerClient.TransferLoop

/-! The receive loop of `handle_file_upload_internal`, from the creation of the target
file to the end of the task, as a machine over the results of the awaited operations. -/
namespace JobControllerClient
namespace FileUpload

open Messaging
open TransferLoop (Incoming WsMessage)

/-- A Rust allocation never holds more than `isize::MAX` bytes. -/
structure UploadContext where
  uuid : String
  uuid_fits : (utf8 uuid).length < 2^63
  fileSize : UInt64

/-- What the task does to the target path and to the peer, oldest first. -/
inductive Effect
  | removePartialFile (ok : Bool)
  | reply (frame : List UInt8) (ok : Bool)
  deriving DecidableEq

/-- The suspension points; `removing` is `remove_partial_file`, followed by the error
message unless the connection is gone. -/
inductive Phase
  | receiving
  | writing (chunk : List UInt8)
  | flushing
  | syncing
  | removing (error : Option String)
  | replying (frame : List UInt8)
  | ended
  deriving DecidableEq

structure Upload where
  phase : Phase
  receivedSize : ℕ
  file : BufferedWriter UInt8
  effects : List Effect
  deriving DecidableEq

/-- The result of one awaited operation. A `tokio` file takes a chunk into its buffer and
writes it later, so a write or a flush also tells how many buffered bytes have reached
the disk by then, and a failing one may have written any part of them. -/
inductive Poll
  | incoming (item : Incoming)
  | written (count : ℕ)
  | writeFailed (count : ℕ)
  | flushed
  | flushFailed (count : ℕ)
  | synced
  | syncFailed
  | removed (ok : Bool)
  | replied (ok : Bool)

def uploadError (ctx : UploadContext) (msg : String) : List UInt8 :=
  ((Message.new MessageId.fileUploadError .highest ctx.uuid).pushString msg).data

def uploadComplete (ctx : UploadContext) : List UInt8 :=
  (Message.new MessageId.fileUploadComplete .highest ctx.uuid).data

namespace Upload

def start : Upload := ⟨.receiving,0,.empty,[]⟩

/-- `fail_upload` with the path of the partial file. -/
def failUpload (s : Upload) (msg : String) : Upload := { s with phase := .removing (some msg) }

/-- A binary frame. Subtraction saturates, as in the source. -/
def receive (ctx : UploadContext) (s : Upload) (data : List UInt8) : Upload :=
  let m := Message.fromData data
  let fileSize := ctx.fileSize.toNat
  if m.id = MessageId.fileUploadChunk then
    let chunk := m.popBytes.1
    if chunk.length > fileSize - s.receivedSize then
      let got := min (s.receivedSize + chunk.length) (2^64 - 1)
      s.failUpload s!"File size mismatch: expected {fileSize}, got {got}"
    else { s with phase := .writing chunk }
  else if m.id = MessageId.fileUploadComplete then
    if s.receivedSize ≠ fileSize then
      s.failUpload s!"File size mismatch: expected {fileSize}, got {s.receivedSize}"
    else { s with phase := .flushing }
  else s

/-- The item of `ws_receiver.next()`; everything that ends the loop removes the file. -/
def incoming (ctx : UploadContext) (s : Upload) : Incoming → Upload
  | some (.ok (.binary data)) => s.receive ctx data
  | some (.ok .close) | some (.error _) | none => { s with phase := .removing none }
  | some (.ok _) => s

def removed (ctx : UploadContext) (s : Upload) (error : Option String) (ok : Bool) : Upload :=
  { s with
    effects := s.effects ++ [.removePartialFile ok]
    phase := match error with
      | none => .ended
      | some msg => .replying (uploadError ctx msg) }

def step (ctx : UploadContext) (s : Upload) (p : Poll) : Option Upload :=
  match s.phase, p with
  | .receiving, .incoming item => some (s.incoming ctx item)
  | .writing chunk, .written count => some { s with
      file := (s.file.hold chunk).pass count
      receivedSize := (s.receivedSize + chunk.length) % 2^64
      phase := .receiving }
  | .writing chunk, .writeFailed count =>
    some ({ s with file := (s.file.hold chunk).pass count }.failUpload "Failed to write chunk to file")
  | .flushing, .flushed => some { s with file := s.file.flush, phase := .syncing }
  | .flushing, .flushFailed count =>
    some ({ s with file := s.file.pass count }.failUpload "Failed to finalize uploaded file")
  | .syncing, .synced => some { s with phase := .replying (uploadComplete ctx) }
  | .syncing, .syncFailed => some (s.failUpload "Failed to finalize uploaded file")
  | .removing error, .removed ok => some (s.removed ctx error ok)
  | .replying frame, .replied ok =>
    some { s with effects := s.effects ++ [.reply frame ok], phase := .ended }
  | _, _ => none

end Upload

def machine (ctx : UploadContext) : StepMachine Upload Poll := ⟨Upload.step ctx⟩

/-- The result of the awaited operation: what a poll can do in each phase. -/
inductive Stepped (ctx : UploadContext) (s : Upload) : Poll → Upload → Prop
  | incoming (hp : s.phase = .receiving) (item : Incoming) :
      Stepped ctx s (.incoming item) (s.incoming ctx item)
  | written (chunk : List UInt8) (hp : s.phase = .writing chunk) (count : ℕ) :
      Stepped ctx s (.written count) { s with
        file := (s.file.hold chunk).pass count
        receivedSize := (s.receivedSize + chunk.length) % 2^64
        phase := .receiving }
  | writeFailed (chunk : List UInt8) (hp : s.phase = .writing chunk) (count : ℕ) :
      Stepped ctx s (.writeFailed count) { s with
        file := (s.file.hold chunk).pass count
        phase := .removing (some "Failed to write chunk to file") }
  | flushed (hp : s.phase = .flushing) :
      Stepped ctx s .flushed { s with file := s.file.flush, phase := .syncing }
  | flushFailed (hp : s.phase = .flushing) (count : ℕ) :
      Stepped ctx s (.flushFailed count) { s with
        file := s.file.pass count
        phase := .removing (some "Failed to finalize uploaded file") }
  | synced (hp : s.phase = .syncing) :
      Stepped ctx s .synced { s with phase := .replying (uploadComplete ctx) }
  | syncFailed (hp : s.phase = .syncing) :
      Stepped ctx s .syncFailed { s with
        phase := .removing (some "Failed to finalize uploaded file") }
  | removed (error : Option String) (hp : s.phase = .removing error) (ok : Bool) :
      Stepped ctx s (.removed ok) (s.removed ctx error ok)
  | replied (frame : List UInt8) (hp : s.phase = .replying frame) (ok : Bool) :
      Stepped ctx s (.replied ok) { s with
        effects := s.effects ++ [.reply frame ok]
        phase := .ended }

theorem stepped {ctx : UploadContext} {s t : Upload} {poll : Poll}
    (h : (machine ctx).step s poll = some t) : Stepped ctx s poll t := by
  simp only [machine,Upload.step] at h
  split at h
  all_goals cases h
  all_goals constructor; assumption

/-- The payload of a `FILE_UPLOAD_CHUNK` frame. -/
def chunkPayload? (data : List UInt8) : Option (List UInt8) :=
  let m := Message.fromData data
  if m.id = MessageId.fileUploadChunk then some m.popBytes.1 else none

/-- The payloads of the chunk frames whose write succeeded. -/
def acceptedChunks : List Poll → List (List UInt8)
  | .incoming (some (.ok (.binary data))) :: .written _ :: polls =>
    (chunkPayload? data).toList ++ acceptedChunks polls
  | _ :: polls => acceptedChunks polls
  | [] => []

def handedOver (s : Upload) (poll : Poll) : List (List UInt8) :=
  match s.phase, poll with
  | .writing chunk, .written _ => [chunk]
  | _, _ => []

/-- The file on disk is the accepted chunks, and they have the announced size. -/
def Stored (ctx : UploadContext) (s : Upload) (accepted : List (List UInt8)) : Prop :=
  s.file.passed = accepted.flatten ∧ s.receivedSize = ctx.fileSize.toNat

/-- What is known in each phase, given the chunks accepted so far. -/
def Stage (ctx : UploadContext) (s : Upload) (accepted : List (List UInt8)) : Prop :=
  match s.phase with
  | .receiving => s.effects = [] ∧ s.file.all = accepted.flatten
  | .writing chunk => s.effects = [] ∧ s.file.all = accepted.flatten ∧
      s.receivedSize + chunk.length ≤ ctx.fileSize.toNat
  | .flushing => s.effects = [] ∧ s.file.all = accepted.flatten ∧
      s.receivedSize = ctx.fileSize.toNat
  | .syncing => s.effects = [] ∧ Stored ctx s accepted
  | .removing _ => s.effects = []
  | .replying frame =>
    (frame = uploadComplete ctx ∧ s.effects = [] ∧ Stored ctx s accepted) ∨
    ∃ msg ok, frame = uploadError ctx msg ∧ s.effects = [.removePartialFile ok]
  | .ended =>
    (∃ ok, s.effects = [.reply (uploadComplete ctx) ok] ∧ Stored ctx s accepted) ∨
    (∃ ok, s.effects = [.removePartialFile ok]) ∨
    ∃ msg ok ok', s.effects = [.removePartialFile ok,.reply (uploadError ctx msg) ok']

structure Sound (ctx : UploadContext) (s : Upload) (accepted : List (List UInt8)) : Prop where
  received : s.receivedSize = accepted.flatten.length
  bounded : s.receivedSize ≤ ctx.fileSize.toNat
  written : s.file.all.length ≤ ctx.fileSize.toNat
  stage : Stage ctx s accepted

section Step

variable {ctx : UploadContext} {s t : Upload} {accepted : List (List UInt8)}

theorem Sound.move (h : Sound ctx s accepted) (hr : t.receivedSize = s.receivedSize)
    (hf : t.file.all = s.file.all) (ht : Stage ctx t accepted) :
    Sound ctx t (accepted ++ []) := by
  rw [List.append_nil]
  exact ⟨hr ▸ h.received,hr ▸ h.bounded,hf ▸ h.written,ht⟩

theorem sound_receive (h : Sound ctx s accepted) (hp : s.phase = .receiving)
    (data : List UInt8) : Sound ctx (s.receive ctx data) (accepted ++ []) := by
  have hbound := h.bounded
  obtain ⟨he,hf⟩ : s.effects = [] ∧ s.file.all = accepted.flatten := by
    simpa only [Stage,hp] using h.stage
  unfold Upload.receive
  dsimp only
  split
  · split
    · exact h.move rfl rfl he
    · exact h.move rfl rfl ⟨he,hf,by dsimp only; omega⟩
  · split
    · split
      · exact h.move rfl rfl he
      · rename_i hsize
        exact h.move rfl rfl ⟨he,hf,not_not.mp hsize⟩
    · exact h.move rfl rfl h.stage

theorem sound_incoming (h : Sound ctx s accepted) (hp : s.phase = .receiving) (item : Incoming) :
    Sound ctx (s.incoming ctx item) (accepted ++ []) := by
  have he : s.effects = [] := by
    have hst := h.stage
    simp only [Stage,hp] at hst
    exact hst.1
  unfold Upload.incoming
  split
  · exact sound_receive h hp _
  · exact h.move rfl rfl he
  · exact h.move rfl rfl he
  · exact h.move rfl rfl he
  · exact h.move rfl rfl h.stage

/-- The guard against oversized chunks makes the addition exact. -/
theorem sound_written {chunk : List UInt8} (h : Sound ctx s accepted)
    (hp : s.phase = .writing chunk) (count : ℕ) :
    Sound ctx { s with
      file := (s.file.hold chunk).pass count
      receivedSize := (s.receivedSize + chunk.length) % 2^64
      phase := .receiving } (accepted ++ [chunk]) := by
  have hst := h.stage
  simp only [Stage,hp] at hst
  obtain ⟨he,hf,hfit⟩ := hst
  have hlt : s.receivedSize + chunk.length < 2^64 := hfit.trans_lt ctx.fileSize.toNat_lt
  have hadd := Nat.mod_eq_of_lt hlt
  have hall : ((s.file.hold chunk).pass count).all = (accepted ++ [chunk]).flatten := by simp [hf]
  have hlen : (accepted ++ [chunk]).flatten.length = s.receivedSize + chunk.length := by
    rw [List.flatten_append,List.length_append,h.received]
    simp
  refine ⟨?_,?_,?_,⟨he,hall⟩⟩
  · rw [hlen]
    exact hadd
  · dsimp only
    rw [hadd]
    exact hfit
  · dsimp only
    rw [hall,hlen]
    exact hfit

/-- A failed write may have put any part of the chunk on disk, still within the limit. -/
theorem sound_writeFailed {chunk : List UInt8} (h : Sound ctx s accepted)
    (hp : s.phase = .writing chunk) (count : ℕ) :
    Sound ctx { s with
      file := (s.file.hold chunk).pass count
      phase := .removing (some "Failed to write chunk to file") } (accepted ++ []) := by
  have hst := h.stage
  simp only [Stage,hp] at hst
  obtain ⟨he,hf,hfit⟩ := hst
  rw [List.append_nil]
  refine ⟨h.received,h.bounded,?_,he⟩
  simp only [BufferedWriter.all_pass,BufferedWriter.all_hold,List.length_append,hf,← h.received]
  exact hfit

theorem sound_step (h : Sound ctx s accepted) {poll : Poll}
    (hs : (machine ctx).step s poll = some t) :
    Sound ctx t (accepted ++ handedOver s poll) := by
  have hst := h.stage
  cases stepped hs with
  | incoming hp item =>
    simp only [handedOver,hp]
    exact sound_incoming h hp item
  | written chunk hp count =>
    simp only [handedOver,hp]
    exact sound_written h hp count
  | writeFailed chunk hp count =>
    simp only [handedOver,hp]
    exact sound_writeFailed h hp count
  | flushed hp =>
    simp only [handedOver,hp]
    simp only [Stage,hp] at hst
    exact h.move rfl (by simp) ⟨hst.1,hst.2.1,hst.2.2⟩
  | flushFailed hp count =>
    simp only [handedOver,hp]
    simp only [Stage,hp] at hst
    exact h.move rfl (by simp) hst.1
  | synced hp =>
    simp only [handedOver,hp]
    simp only [Stage,hp] at hst
    exact h.move rfl rfl (.inl ⟨rfl,hst.1,hst.2⟩)
  | syncFailed hp =>
    simp only [handedOver,hp]
    simp only [Stage,hp] at hst
    exact h.move rfl rfl hst.1
  | removed error hp ok =>
    simp only [handedOver,hp]
    simp only [Stage,hp] at hst
    cases error with
    | none => exact h.move rfl rfl (.inr (.inl ⟨ok,by simp [Upload.removed,hst]⟩))
    | some msg => exact h.move rfl rfl (.inr ⟨msg,ok,rfl,by simp [Upload.removed,hst]⟩)
  | replied frame hp ok =>
    simp only [handedOver,hp]
    simp only [Stage,hp] at hst
    rcases hst with ⟨rfl,he,hstored⟩ | ⟨msg,ok',rfl,he⟩
    · exact h.move rfl rfl (.inl ⟨ok,by simp [he],hstored⟩)
    · exact h.move rfl rfl (.inr (.inr ⟨msg,ok',ok,by simp [he]⟩))

end Step

theorem receive_writing {ctx : UploadContext} {s : Upload} {data chunk : List UInt8}
    (hp : s.phase = .receiving) (h : (s.receive ctx data).phase = .writing chunk) :
    chunkPayload? data = some chunk := by
  unfold Upload.receive at h
  dsimp only at h
  split at h
  · rename_i hid
    split at h
    · cases h
    · cases h
      simp only [chunkPayload?,hid,if_true]
  · split at h
    · split at h <;> cases h
    · rw [hp] at h
      cases h

/-- Only a chunk frame is written, and what is written is its payload. -/
theorem writing_inv {ctx : UploadContext} {s t : Upload} {poll : Poll} {chunk : List UInt8}
    (hs : (machine ctx).step s poll = some t) (ht : t.phase = .writing chunk) :
    ∃ data, poll = .incoming (some (.ok (.binary data))) ∧ chunkPayload? data = some chunk := by
  cases stepped hs with
  | incoming hp item =>
    rcases item with _ | (e | msg)
    · cases ht
    · cases ht
    · cases msg with
      | binary data => exact ⟨data,rfl,receive_writing hp ht⟩
      | close => cases ht
      | _ =>
        change s.phase = _ at ht
        rw [hp] at ht
        cases ht
  | removed error hp ok => cases error <;> cases ht
  | _ => cases ht

theorem handedOver_run {ctx : UploadContext} {polls : List Poll} {s t : Upload}
    (hrun : (machine ctx).run s polls = some t)
    (hs : ∀ chunk count rest, s.phase = .writing chunk → polls ≠ .written count :: rest) :
    (machine ctx).log handedOver s polls = acceptedChunks polls := by
  induction polls using acceptedChunks.induct generalizing s with
  | case1 data count polls ih =>
    obtain ⟨u,hu,hrest⟩ := (StepMachine.run_cons_eq_some _).mp hrun
    obtain ⟨v,hv,hlast⟩ := (StepMachine.run_cons_eq_some _).mp hrest
    have hfirst : handedOver s (.incoming (some (.ok (.binary data)))) = [] := by
      cases stepped hu with
      | incoming hp item => simp [handedOver,hp]
    cases stepped hv with
    | written chunk hp count =>
      obtain ⟨data',hdata,hpayload⟩ := writing_inv hu hp
      cases hdata
      have hsecond : handedOver u (.written count) = [chunk] := by simp [handedOver,hp]
      have htail := ih hlast (by simp)
      simp only [StepMachine.log,hu,hv,hfirst,hsecond,acceptedChunks,hpayload,htail]
      rfl
  | case2 poll polls hpair ih =>
    obtain ⟨u,hu,hrest⟩ := (StepMachine.run_cons_eq_some _).mp hrun
    have hfirst : handedOver s poll = [] := by
      cases stepped hu with
      | written chunk hp count => exact absurd rfl (hs chunk count polls hp)
      | _ => simp_all [handedOver]
    have htail := ih hrest fun chunk count rest hp hpolls => by
      obtain ⟨data,rfl,-⟩ := writing_inv hu hp
      exact hpair data count rest rfl hpolls
    rw [acceptedChunks]
    · simp only [StepMachine.log,hu,hfirst,htail,List.nil_append]
    · exact hpair
  | case3 => rfl

theorem accepted_run {ctx : UploadContext} {polls : List Poll} {t : Upload}
    (hrun : (machine ctx).run .start polls = some t) :
    (machine ctx).log handedOver .start polls = acceptedChunks polls :=
  handedOver_run hrun (by simp [Upload.start])

theorem sound_run {ctx : UploadContext} {polls : List Poll} {t : Upload}
    (hrun : (machine ctx).run .start polls = some t) :
    Sound ctx t (acceptedChunks polls) := by
  rw [← accepted_run hrun]
  have hstart : Sound ctx .start [] := ⟨rfl,Nat.zero_le _,Nat.zero_le _,⟨rfl,rfl⟩⟩
  simpa using StepMachine.log_invariant (P := fun _ _ => True) (I := Sound ctx)
    (fun s poll t accepted h _ hs => sound_step h hs) hstart (StepMachine.meets_true _ polls) hrun

def isIncoming : Poll → Bool
  | .incoming _ => true
  | _ => false

/-- How many operations may be awaited before the next frame is. -/
def ahead : Phase → ℕ
  | .writing _ | .flushing => 4
  | .receiving | .syncing => 3
  | .removing _ => 2
  | .replying _ => 1
  | .ended => 0

theorem ahead_le (p : Phase) : ahead p ≤ 4 := by
  cases p <;> simp [ahead]

theorem ahead_step {ctx : UploadContext} {s t : Upload} {poll : Poll}
    (hs : (machine ctx).step s poll = some t) :
    1 + ahead t.phase ≤ ahead s.phase + if isIncoming poll then 2 else 0 := by
  cases stepped hs with
  | incoming hp item =>
    have hthree : ahead s.phase = 3 := by rw [hp]; rfl
    have hfour := ahead_le (s.incoming ctx item).phase
    simp only [isIncoming,if_true]
    omega
  | removed error hp ok => cases error <;> simp [hp,ahead,isIncoming,Upload.removed]
  | _ => simp [*,ahead,isIncoming]

/-- The task awaits at most two operations a frame and three more at its end. -/
theorem length_le_of_run {ctx : UploadContext} {polls : List Poll} {t : Upload}
    (hrun : (machine ctx).run .start polls = some t) :
    polls.length ≤ 2 * polls.countP isIncoming + 3 := by
  have h := StepMachine.length_run_le (I := fun _ => True) (fun _ _ _ _ _ => trivial)
    (fun s => ahead s.phase) isIncoming 2 (fun s a t _ => ahead_step) trivial hrun
  have hstart : ahead Upload.start.phase = 3 := rfl
  omega

theorem exists_step (ctx : UploadContext) (s : Upload) :
    s.phase = .ended ∨ ∃ poll, ((machine ctx).step s poll).isSome := by
  cases hp : s.phase with
  | receiving => exact .inr ⟨.incoming none,by simp [machine,Upload.step,hp]⟩
  | writing chunk => exact .inr ⟨.writeFailed 0,by simp [machine,Upload.step,hp]⟩
  | flushing => exact .inr ⟨.flushed,by simp [machine,Upload.step,hp]⟩
  | syncing => exact .inr ⟨.synced,by simp [machine,Upload.step,hp]⟩
  | removing error => exact .inr ⟨.removed true,by simp [machine,Upload.step,hp]⟩
  | replying frame => exact .inr ⟨.replied true,by simp [machine,Upload.step,hp]⟩
  | ended => exact .inl rfl

def isReply : Effect → Bool
  | .reply _ _ => true
  | _ => false

def isComplete : Effect → Bool
  | .reply frame _ => (Message.fromData frame).id = MessageId.fileUploadComplete
  | _ => false

def isRemoval : Effect → Bool
  | .removePartialFile _ => true
  | _ => false

theorem isComplete_uploadComplete (ctx : UploadContext) (ok : Bool) :
    isComplete (.reply (uploadComplete ctx) ok) = true := by
  have hp := Message.fromData_header MessageId.fileUploadComplete ctx.uuid []
    (ctx.uuid_fits.trans (by norm_num))
  have hd : uploadComplete ctx = Message.block (utf8 ctx.uuid) ++
      LittleEndian.encode 4 MessageId.fileUploadComplete.toNat ++ [] := by simp [uploadComplete]
  simp only [isComplete,hd,hp,decide_true]

theorem isComplete_uploadError (ctx : UploadContext) (msg : String) (ok : Bool) :
    isComplete (.reply (uploadError ctx msg) ok) = false := by
  have hp := Message.fromData_header MessageId.fileUploadError ctx.uuid (Message.block (utf8 msg))
    (ctx.uuid_fits.trans (by norm_num))
  have hd : uploadError ctx msg = Message.block (utf8 ctx.uuid) ++
      LittleEndian.encode 4 MessageId.fileUploadError.toNat ++ Message.block (utf8 msg) := by
    simp [uploadError,Message.pushString]
  simp only [isComplete,hd,hp]
  decide

theorem Stage.replies_le {ctx : UploadContext} {s : Upload} {accepted : List (List UInt8)}
    (h : Stage ctx s accepted) : s.effects.countP isReply ≤ 1 := by
  have hnil : s.effects = [] → s.effects.countP isReply ≤ 1 := fun he => by simp [he]
  cases hp : s.phase with
  | replying frame =>
    simp only [Stage,hp] at h
    rcases h with ⟨_,he,_⟩ | ⟨_,_,_,he⟩ <;> simp [he,isReply]
  | ended =>
    simp only [Stage,hp] at h
    rcases h with ⟨_,he,_⟩ | ⟨_,he⟩ | ⟨_,_,_,he⟩ <;> simp [he,isReply]
  | removing error =>
    simp only [Stage,hp] at h
    exact hnil h
  | _ =>
    simp only [Stage,hp] at h
    exact hnil h.1

/-- However frames arrive and file operations fail: within the announced size all the
time, at most one reply, and in the end the payloads of the accepted frames with their
acknowledgement or neither. -/
theorem upload_all_or_nothing (ctx : UploadContext) (polls : List Poll) (t : Upload)
    (hrun : (machine ctx).run .start polls = some t) :
    t.receivedSize ≤ ctx.fileSize.toNat ∧ t.file.all.length ≤ ctx.fileSize.toNat ∧
    (∀ chunk, t.phase = .writing chunk → t.receivedSize + chunk.length < 2^64) ∧
    t.effects.countP isReply ≤ 1 ∧
    (t.phase = .ended →
      let accepted := acceptedChunks polls
      (t.effects.any isComplete = true ∧ t.effects.any isRemoval = false ∧
        t.file.passed = accepted.flatten ∧ accepted.flatten.length = ctx.fileSize.toNat) ∨
      (t.effects.any isComplete = false ∧ t.effects.any isRemoval = true)) ∧
    polls.length ≤ 2 * polls.countP isIncoming + 3 ∧
    (t.phase = .ended ∨ ∃ poll, ((machine ctx).step t poll).isSome) := by
  have h := sound_run hrun
  have hst := h.stage
  refine ⟨h.bounded,h.written,fun chunk hp => ?_,?_,fun hp => ?_,length_le_of_run hrun,
    exists_step ctx t⟩
  · simp only [Stage,hp] at hst
    exact hst.2.2.trans_lt ctx.fileSize.toNat_lt
  · exact hst.replies_le
  · simp only [Stage,hp] at hst
    rcases hst with ⟨ok,he,hf,hsize⟩ | ⟨ok,he⟩ | ⟨msg,ok,ok',he⟩
    · refine .inl ⟨?_,by simp [he,isRemoval],hf,h.received ▸ hsize⟩
      simp [he,isComplete_uploadComplete]
    · exact .inr (by simp [he,isComplete,isRemoval])
    · refine .inr ⟨?_,by simp [he,isRemoval]⟩
      simp only [he,List.any_cons,List.any_nil,isComplete_uploadError]
      rfl

def chunkFrom (bytes : List UInt8) : Poll :=
  .incoming (some (.ok (.binary ((Message.new MessageId.fileUploadChunk .lowest "u").pushBytes
    bytes).data)))

/-- Two chunks with a ping between them; the second write empties the buffer. -/
def twoChunks : List Poll :=
  [chunkFrom [1,2],.written 1,.incoming (some (.ok .ping)),chunkFrom [3],.written 3,
    .incoming (some (.ok (.binary (Message.new MessageId.fileUploadComplete .lowest "u").data))),
    .flushed,.synced,.replied true]

theorem upload_all_or_nothing_twoChunks :
    ∃ t, (machine ⟨"u",by decide,3⟩).run .start twoChunks = some t ∧
      t.file.passed = [1,2,3] ∧ t.effects.any isRemoval = false ∧ t.effects.countP isReply ≤ 1 := by
  have hrun : ((machine ⟨"u",by decide,3⟩).run .start twoChunks).any (fun t =>
      t.phase = .ended ∧ t.effects.any isComplete = true) = true := by
    decide +kernel
  obtain ⟨t,ht,hstate⟩ := (Option.any_eq_true _ _).mp hrun
  obtain ⟨hended,hcomplete⟩ := of_decide_eq_true hstate
  obtain ⟨-,-,-,hreplies,hcases,-⟩ := upload_all_or_nothing _ twoChunks t ht
  have haccepted : acceptedChunks twoChunks = [[1,2],[3]] := by decide +kernel
  rcases hcases hended with ⟨-,hkept,hfile,-⟩ | ⟨hnone,-⟩
  · exact ⟨t,ht,by rw [hfile,haccepted]; rfl,hkept,hreplies⟩
  · rw [hcomplete] at hnone
    cases hnone

end FileUpload
end JobControllerClient
