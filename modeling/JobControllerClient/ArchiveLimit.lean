import JobControllerClient.Foundation.StepMachine

/-! The three writers below `archive_dir_with_limit`: the size limiter on the archive file, the
gzip encoder with its buffer, and the tar builder. The result is decided while the encoder
still holds bytes, which its destructor writes; after an error the destructors of the builder and
of the encoder write as well. -/
namespace JobControllerClient
namespace ArchiveLimit

inductive FileWrite
  | wrote (n : ℕ)
  | interrupted
  | failed (e : String)
  deriving DecidableEq

inductive WriteError
  | interrupted
  | other (e : String)
  deriving DecidableEq

/-- `ArchiveSizeLimiter`; `accepted` are the bytes for which it has returned `Ok`. -/
structure ArchiveSizeLimiter where
  inner : List UInt8
  written : ℕ
  accepted : List UInt8
  deriving DecidableEq

def limitError (max written : ℕ) : WriteError :=
  .other s!"archive size limit of {max} bytes exceeded (wrote {written} bytes)"

/-- The bytes reach the file before the limit is checked. -/
def ArchiveSizeLimiter.write (max : UInt64) (l : ArchiveSizeLimiter) (buf : List UInt8) :
    FileWrite → ArchiveSizeLimiter × Except WriteError ℕ
  | .wrote n =>
    let written := min (l.written + n) (2^64 - 1)
    let inner := l.inner ++ buf.take n
    if written > max.toNat then (⟨inner,written,l.accepted⟩,.error (limitError max.toNat written))
    else (⟨inner,written,l.accepted ++ buf.take n⟩,.ok n)
  | .interrupted => (l,.error .interrupted)
  | .failed e => (l,.error (.other e))

/-- What finishing the compressor gives, and the checksum and length of what it was given. -/
structure Tail where
  finals : List (List UInt8)
  trailer : List UInt8
  deriving DecidableEq

/-- What the destructors find if the archive is given up: `closing` are the calls with which the
builder's one ends the tar stream, none once `finish` has been called. -/
structure Leftover where
  tail : Tail
  closing : List (List UInt8 × Tail)
  deriving DecidableEq

/-- One call of the compressor during a call of the tar builder, whose error text starts
with `context`, the output it puts into the empty buffer, and what is left over if it is not
reached. -/
structure Fill where
  context : String
  out : List UInt8
  leftover : Leftover
  deriving DecidableEq

/-- What the encoder makes of the tar stream of a tree: the header, the compressor calls up to
the end of `finish`, the outputs of the finishing calls, and the checksum and length. -/
structure Encoding where
  header : List UInt8
  fills : List Fill
  finals : List (List UInt8)
  trailer : List UInt8
  trailer_length : trailer.length = 8

def Encoding.stream (e : Encoding) : List UInt8 :=
  e.header ++ (e.fills.map Fill.out).flatten ++ e.finals.flatten ++ e.trailer

/-- `closing` is the destructor of the builder after an error, `finishing` that of the encoder, and
`redoing` that of the writer inside it. -/
inductive Stage
  | building | closing | finishing | redoing | ended
  deriving DecidableEq

inductive Slot
  | header | buffer | trailer
  deriving DecidableEq

structure Archiver where
  limiter : ArchiveSizeLimiter
  header : List UInt8
  buffer : List UInt8
  fills : List Fill
  closing : List (List UInt8 × Tail)
  finals : List (List UInt8)
  trailer : List UInt8
  stage : Stage
  result : Option (Except String Unit)

def start (e : Encoding) : Archiver where
  limiter := ⟨[],0,[]⟩
  header := e.header
  buffer := []
  fills := e.fills
  closing := []
  finals := e.finals
  trailer := e.trailer
  stage := .building
  result := none

namespace Archiver

def get (s : Archiver) : Slot → List UInt8
  | .header => s.header
  | .buffer => s.buffer
  | .trailer => s.trailer

def drain (s : Archiver) (n : ℕ) : Slot → Archiver
  | .header => { s with header := s.header.drop n }
  | .buffer => { s with buffer := s.buffer.drop n }
  | .trailer => { s with trailer := s.trailer.drop n }

/-- What is written next, if it is a write that comes next. -/
def pending (s : Archiver) : Option Slot :=
  match s.stage with
  | .building =>
    if s.fills = [] then none
    else if s.header ≠ [] then some .header
    else if s.buffer ≠ [] then some .buffer
    else none
  | .closing =>
    if s.closing = [] then none
    else if s.header ≠ [] then some .header
    else if s.buffer ≠ [] then some .buffer
    else none
  | .finishing =>
    if s.header ≠ [] then some .header
    else if s.buffer ≠ [] then some .buffer
    else if s.finals = [] ∧ s.trailer ≠ [] then some .trailer
    else none
  | .redoing => if s.buffer ≠ [] then some .buffer else none
  | .ended => none

def report (s : Archiver) (text : String) : String :=
  (s.fills.head?.map Fill.context).getD "" ++ ": " ++ text

def leftover (s : Archiver) : Leftover :=
  (s.fills.head?.map Fill.leftover).getD ⟨⟨s.finals,s.trailer⟩,[]⟩

/-- `write_all` tries an interrupted write again, and the destructors ignore all errors. -/
def fail (s : Archiver) (e : WriteError) : Archiver :=
  match s.stage,e with
  | .building,.interrupted => s
  | .building,.other text => { s with
      stage := .closing
      fills := []
      closing := s.leftover.closing
      finals := s.leftover.tail.finals
      trailer := s.leftover.tail.trailer
      result := some (.error (s.report text)) }
  | .closing,.interrupted => s
  | .closing,.other _ => { s with stage := .finishing, closing := [] }
  | .finishing,_ => { s with stage := .redoing }
  | _,_ => { s with stage := .ended }

/-- A write of nothing ends the dump of the buffer with an error; the other loops go on. -/
def wrote (max : UInt64) (s : Archiver) (slot : Slot) (r : FileWrite) : Archiver :=
  let w := s.limiter.write max (s.get slot) r
  let s := { s with limiter := w.1 }
  match w.2 with
  | .error e => s.fail e
  | .ok n => if n = 0 ∧ slot = .buffer then s.fail (.other "write zero") else s.drain n slot

/-- A call of the compressor, or the end of a stage. -/
def call (s : Archiver) : Option Archiver :=
  match s.stage with
  | .building => match s.fills with
    | [] => some { s with stage := .finishing, result := some (.ok ()) }
    | fill :: fills =>
      if s.header = [] ∧ s.buffer = [] then some { s with buffer := fill.out, fills := fills }
      else none
  | .closing => match s.closing with
    | [] => some { s with stage := .finishing }
    | (out,tail) :: closing =>
      if s.header = [] ∧ s.buffer = [] then some { s with
        buffer := out
        closing := closing
        finals := tail.finals
        trailer := tail.trailer }
      else none
  | .finishing =>
    if s.header = [] ∧ s.buffer = [] then match s.finals with
      | out :: finals => some { s with buffer := out, finals := finals }
      | [] => if s.trailer = [] then some { s with stage := .ended } else none
    else none
  | .redoing =>
    if s.buffer = [] then match s.finals with
      | out :: finals => some { s with buffer := out, finals := finals }
      | [] => some { s with stage := .ended }
    else none
  | .ended => none

end Archiver

inductive Action
  | call
  | write (r : FileWrite)
  deriving DecidableEq

/-- A file write never takes more bytes than it was given. -/
def fits (buf : List UInt8) : FileWrite → Bool
  | .wrote n => n ≤ buf.length
  | _ => true

def machine (max : UInt64) : StepMachine Archiver Action where
  step s
    | .call => s.call
    | .write r => match s.pending with
      | none => none
      | some slot => if fits (s.get slot) r then some (s.wrote max slot r) else none

def refuses (slot : Slot) : FileWrite → Bool
  | .wrote n => n = 0 ∧ slot = .buffer
  | _ => true

/-- A file write of the encoder's destructor that is refused. -/
def dropRefused (s : Archiver) : Action → Bool
  | .call => false
  | .write r => s.stage = .finishing && s.pending.any (refuses · r)

/-- The archive file is the whole stream, every byte of it was accepted, and it is within the limit. -/
def Complete (e : Encoding) (max : UInt64) (s : Archiver) : Prop :=
  s.limiter.accepted = e.stream ∧ s.limiter.inner = e.stream ∧ s.limiter.inner.length ≤ max.toNat

section Proofs

open Archiver

variable {e : Encoding} {max : UInt64} {s t : Archiver} {slot : Slot} {r : FileWrite} {a : Action}

def taken (s : Archiver) (slot : Slot) (n : ℕ) (accepts : Bool) : Archiver :=
  { s with limiter := {
      inner := s.limiter.inner ++ (s.get slot).take n
      written := min (s.limiter.written + n) (2^64 - 1)
      accepted := if accepts then s.limiter.accepted ++ (s.get slot).take n else s.limiter.accepted } }

/-- The three ways in which a write of the limiter ends. -/
inductive Wrote (max : UInt64) (s : Archiver) (slot : Slot) (r : FileWrite) : Archiver → Prop
  | passed (n : ℕ) (hr : refuses slot r = false) (hn : n ≤ (s.get slot).length) :
    Wrote max s slot r ((taken s slot n true).drain n slot)
  | exceeded (n : ℕ) (text : String) (hn : n ≤ (s.get slot).length)
    (hlimit : max.toNat < min (s.limiter.written + n) (2^64 - 1)) :
    Wrote max s slot r ((taken s slot n false).fail (.other text))
  | refused (limiter : ArchiveSizeLimiter) (error : WriteError) (hr : refuses slot r = true)
    (hinner : limiter.inner = s.limiter.inner) (haccepted : limiter.accepted = s.limiter.accepted)
    (hwritten : limiter.written ≤ s.limiter.written) :
    Wrote max s slot r (fail { s with limiter := limiter } error)

theorem wrote_cases (hfits : fits (s.get slot) r = true) : Wrote max s slot r (s.wrote max slot r) := by
  cases r with
  | interrupted => exact .refused s.limiter .interrupted rfl rfl rfl le_rfl
  | failed text => exact .refused s.limiter (.other text) rfl rfl rfl le_rfl
  | wrote n =>
    have hn : n ≤ (s.get slot).length := of_decide_eq_true hfits
    by_cases hlimit : max.toNat < min (s.limiter.written + n) (2^64 - 1)
    · have heq : s.wrote max slot (.wrote n) = (taken s slot n false).fail
          (limitError max.toNat (min (s.limiter.written + n) (2^64 - 1))) := by
        simp only [wrote,ArchiveSizeLimiter.write,gt_iff_lt,if_pos hlimit]
        rfl
      rw [heq]
      exact .exceeded n _ hn hlimit
    · by_cases hzero : n = 0 ∧ slot = .buffer
      · have heq : s.wrote max slot (.wrote n) = fail { s with limiter :=
            ⟨s.limiter.inner ++ (s.get slot).take n,min (s.limiter.written + n) (2^64 - 1),
              s.limiter.accepted ++ (s.get slot).take n⟩ } (.other "write zero") := by
          simp only [wrote,ArchiveSizeLimiter.write,gt_iff_lt,if_neg hlimit,if_pos hzero]
        rw [heq]
        obtain ⟨rfl,rfl⟩ := hzero
        exact .refused _ _ rfl (by simp) (by simp) (by simp)
      · have heq : s.wrote max slot (.wrote n) = (taken s slot n true).drain n slot := by
          simp only [wrote,ArchiveSizeLimiter.write,gt_iff_lt,if_neg hlimit,if_neg hzero]
          rfl
        rw [heq]
        exact .passed n (by simpa [refuses] using hzero) hn

theorem step_write (h : (machine max).step s (.write r) = some t) :
    ∃ slot, s.pending = some slot ∧ Wrote max s slot r t := by
  simp only [machine] at h
  split at h
  · cases h
  · rename_i slot hslot
    split at h
    · rename_i hfits
      cases h
      exact ⟨slot,hslot,wrote_cases hfits⟩
    · cases h

def rest (s : Archiver) : List UInt8 :=
  s.header ++ s.buffer ++ (s.fills.map Fill.out).flatten ++ s.finals.flatten ++ s.trailer

theorem length_rest_drain {n : ℕ} (hn : n ≤ (s.get slot).length) :
    n + (rest (s.drain n slot)).length = (rest s).length := by
  cases slot <;>
  · simp only [Archiver.get] at hn
    simp only [rest,drain,List.length_append,List.length_drop]
    omega

theorem pending_buffer (h : s.pending = some .buffer) (hstage : s.stage ≠ .redoing) :
    s.header = [] := by
  by_contra hne
  unfold pending at h
  split at h
  · split_ifs at h
    cases h
  · split_ifs at h
    cases h
  · rw [if_pos hne] at h
    cases h
  · contradiction
  · cases h

theorem pending_trailer (h : s.pending = some .trailer) :
    s.stage = .finishing ∧ s.header = [] ∧ s.buffer = [] ∧ s.finals = [] ∧ s.trailer ≠ [] := by
  unfold pending at h
  split at h
  · split_ifs at h <;> cases h
  · split_ifs at h <;> cases h
  · rename_i hstage
    split_ifs at h with hheader hbuffer hfinals
    · cases h
    · cases h
    · exact ⟨hstage,not_not.mp hheader,not_not.mp hbuffer,hfinals.1,hfinals.2⟩
  · split at h <;> cases h
  · cases h

/-- Away from the second destructor, writes happen in the order of the stream. -/
theorem take_rest_drain {n : ℕ} (hfills : s.stage = .finishing → s.fills = [])
    (hstage : s.stage ≠ .redoing) (h : s.pending = some slot) :
    (s.get slot).take n ++ rest (s.drain n slot) = rest s := by
  cases slot with
  | header => simp [rest,Archiver.get,drain,← List.append_assoc]
  | buffer =>
    have hheader := pending_buffer h hstage
    simp [rest,Archiver.get,drain,hheader,← List.append_assoc]
  | trailer =>
    obtain ⟨hfinishing,hheader,hbuffer,hfinals,-⟩ := pending_trailer h
    simp [rest,Archiver.get,drain,hheader,hbuffer,hfinals,hfills hfinishing]

/-- Every byte so far has been accepted, in the order of the stream. -/
structure Clean (e : Encoding) (s : Archiver) : Prop where
  stage : s.stage = .building ∨ s.stage = .finishing ∧ s.fills = []
  counted : s.limiter.written ≤ s.limiter.inner.length
  inner : s.limiter.inner = s.limiter.accepted
  stream : s.limiter.accepted ++ rest s = e.stream
  trailer : s.trailer ≠ [] ∨ s.header = [] ∧ s.buffer = [] ∧ s.fills = [] ∧ s.finals = []

/-- The file is too long, or some byte will never be accepted. -/
structure Broken (e : Encoding) (max : UInt64) (s : Archiver) : Prop where
  stage : s.stage = .redoing ∨ s.stage = .ended
  counted : s.limiter.written ≤ s.limiter.inner.length
  lost : max.toNat < s.limiter.inner.length ∨
    s.limiter.accepted.length + (rest s).length = e.stream.length ∧ s.trailer ≠ []

def Failed (s : Archiver) : Prop := s.stage ≠ .building ∧ ∃ msg, s.result = some (.error msg)

def Done (e : Encoding) (s : Archiver) : Prop :=
  s.stage = .ended ∧ s.limiter.accepted = e.stream ∧ s.limiter.inner = e.stream

theorem clean_start (e : Encoding) : Clean e (start e) where
  stage := .inl rfl
  counted := le_rfl
  inner := rfl
  stream := by simp [start,rest,Encoding.stream]
  trailer := .inl fun h => by
    have hlength := e.trailer_length
    rw [show e.trailer = [] from h] at hlength
    cases hlength

theorem Broken.not_complete (h : Broken e max s) : ¬ Complete e max s := by
  rintro ⟨haccepted,-,hlimit⟩
  rcases h.lost with hlong | ⟨hlength,htrailer⟩
  · omega
  · have hpos := List.length_pos_of_ne_nil htrailer
    rw [haccepted] at hlength
    simp only [rest,List.length_append] at hlength
    omega

theorem broken_fail {error : WriteError} (hstage : s.stage = .finishing ∨ s.stage = .redoing)
    (hcounted : s.limiter.written ≤ s.limiter.inner.length)
    (hlost : max.toNat < s.limiter.inner.length ∨
      s.limiter.accepted.length + (rest s).length = e.stream.length ∧ s.trailer ≠ []) :
    Broken e max (s.fail error) := by
  rcases hstage with hstage | hstage
  · have heq : s.fail error = { s with stage := .redoing } := by simp [fail,hstage]
    rw [heq]
    exact ⟨.inl rfl,hcounted,hlost⟩
  · have heq : s.fail error = { s with stage := .ended } := by simp [fail,hstage]
    rw [heq]
    exact ⟨.inr rfl,hcounted,hlost⟩

theorem failed_fail (s : Archiver) (hstage : s.stage = .building) (text : String) :
    Failed (s.fail (.other text)) := by
  have heq : s.fail (.other text) = { s with
      stage := .closing
      fills := []
      closing := s.leftover.closing
      finals := s.leftover.tail.finals
      trailer := s.leftover.tail.trailer
      result := some (.error (s.report text)) } := by
    simp [fail,hstage]
  rw [heq]
  exact ⟨by simp,_,rfl⟩

theorem counted_taken (h : s.limiter.written ≤ s.limiter.inner.length) {n : ℕ} (accepts : Bool)
    (hn : n ≤ (s.get slot).length) :
    (taken s slot n accepts).limiter.written ≤ (taken s slot n accepts).limiter.inner.length := by
  simp only [taken,List.length_append,List.length_take]
  omega

@[simp] theorem limiter_drain {n : ℕ} : (s.drain n slot).limiter = s.limiter := by cases slot <;> rfl

@[simp] theorem stage_drain {n : ℕ} : (s.drain n slot).stage = s.stage := by cases slot <;> rfl

@[simp] theorem fills_drain {n : ℕ} : (s.drain n slot).fills = s.fills := by cases slot <;> rfl

theorem Clean.fills (h : Clean e s) (hstage : s.stage = .finishing) : s.fills = [] := by
  rcases h.stage with hs | ⟨-,hs⟩
  · cases hs.symm.trans hstage
  · exact hs

theorem Clean.take_rest (h : Clean e s) (hpending : s.pending = some slot) (n : ℕ) :
    (s.get slot).take n ++ rest (s.drain n slot) = rest s := by
  refine take_rest_drain h.fills ?_ hpending
  rcases h.stage with hs | ⟨hs,-⟩ <;> simp [hs]

theorem Clean.trailer_ne (h : Clean e s) (hpending : s.pending = some slot) : s.trailer ≠ [] := by
  refine h.trailer.elim id fun ⟨hheader,hbuffer,hfills,_⟩ htrailer => ?_
  rcases h.stage with hs | ⟨hs,-⟩
  · simp [pending,hs,hfills] at hpending
  · simp [pending,hs,hheader,hbuffer,htrailer] at hpending

theorem Clean.passed (h : Clean e s) (hpending : s.pending = some slot) {n : ℕ}
    (hn : n ≤ (s.get slot).length) : Clean e ((taken s slot n true).drain n slot) := by
  have hrest := h.take_rest hpending n
  have hsame : rest ((taken s slot n true).drain n slot) = rest (s.drain n slot) := by
    cases slot <;> rfl
  refine ⟨by simpa [taken] using h.stage,?_,?_,?_,?_⟩
  · rw [limiter_drain]
    exact counted_taken h.counted true hn
  · rw [limiter_drain]
    simp [taken,h.inner]
  · rw [limiter_drain,hsame]
    simp only [taken,if_true,List.append_assoc,hrest]
    exact h.stream
  · cases slot with
    | header =>
      refine h.trailer.imp id fun hnil => ?_
      exact ⟨by simp [drain,taken,hnil.1],hnil.2⟩
    | buffer =>
      refine h.trailer.imp id fun hnil => ?_
      exact ⟨hnil.1,by simp [drain,taken,hnil.2.1],hnil.2.2⟩
    | trailer =>
      obtain ⟨hfinishing,hheader,hbuffer,hfinals,-⟩ := pending_trailer hpending
      exact .inr ⟨hheader,hbuffer,h.fills hfinishing,hfinals⟩

theorem Clean.length_taken_le (h : Clean e s) (hpending : s.pending = some slot) {n : ℕ} :
    (s.limiter.inner ++ (s.get slot).take n).length ≤ e.stream.length := by
  rw [← h.stream,h.inner,← h.take_rest hpending n,← List.append_assoc]
  exact (List.prefix_append _ _).length_le

theorem Clean.step_call (h : Clean e s) (hstep : s.call = some t) : Clean e t ∨ Done e t := by
  unfold call at hstep
  rcases h.stage with hstage | ⟨hstage,hfills⟩
  · simp only [hstage] at hstep
    split at hstep
    · rename_i hfills
      cases hstep
      exact .inl ⟨.inr ⟨rfl,hfills⟩,h.counted,h.inner,h.stream,h.trailer⟩
    · rename_i fill fills hfills
      split at hstep
      · rename_i hempty
        cases hstep
        refine .inl ⟨.inl rfl,h.counted,h.inner,?_,.inl ?_⟩
        · have hstream := h.stream
          simp only [rest,hempty.1,hempty.2,hfills] at hstream ⊢
          simpa using hstream
        · exact h.trailer.elim id fun hnil => by simp [hfills] at hnil
      · cases hstep
  · simp only [hstage] at hstep
    split at hstep
    · rename_i hempty
      split at hstep
      · rename_i out finals hfinals
        cases hstep
        refine .inl ⟨.inr ⟨rfl,hfills⟩,h.counted,h.inner,?_,.inl ?_⟩
        · have hstream := h.stream
          simp only [rest,hempty.1,hempty.2,hfills,hfinals] at hstream ⊢
          simpa using hstream
        · exact h.trailer.elim id fun hnil => by simp [hfinals] at hnil
      · rename_i hfinals
        split at hstep
        · rename_i htrailer
          cases hstep
          have hstream : s.limiter.accepted = e.stream := by
            have hstream := h.stream
            simpa [rest,hempty.1,hempty.2,hfills,hfinals,htrailer] using hstream
          exact .inr ⟨rfl,hstream,h.inner.trans hstream⟩
        · cases hstep
    · cases hstep

theorem Clean.step_write (h : Clean e s) (hpending : s.pending = some slot)
    (hwrote : Wrote max s slot r t) :
    dropRefused s (.write r) = false ∧ (Clean e t ∨ Failed t) ∨
      Broken e max t ∧ (dropRefused s (.write r) = true ∨ max.toNat < e.stream.length) := by
  have hdrop : dropRefused s (.write r) = (decide (s.stage = .finishing) && refuses slot r) := by
    simp [dropRefused,hpending]
  rw [hdrop]
  cases hwrote with
  | passed n hr hn =>
    rw [hr,Bool.and_false]
    exact .inl ⟨rfl,.inl (h.passed hpending hn)⟩
  | exceeded n text hn hlimit =>
    have hcounted := counted_taken h.counted false hn
    have hlong : max.toNat < (taken s slot n false).limiter.inner.length := by
      simp only [taken] at hcounted ⊢
      omega
    rcases h.stage with hstage | ⟨hstage,hfills⟩
    · exact .inl ⟨by simp [hstage],.inr (failed_fail (taken s slot n false) hstage text)⟩
    · have hle := h.length_taken_le hpending (n := n)
      exact .inr ⟨broken_fail (.inl hstage) hcounted (.inl hlong),.inr (hlong.trans_le hle)⟩
  | refused limiter error hr hinner haccepted hwritten =>
    have hcounted : limiter.written ≤ limiter.inner.length := by
      rw [hinner]
      exact hwritten.trans h.counted
    rcases h.stage with hstage | ⟨hstage,hfills⟩
    · refine .inl ⟨by simp [hstage],?_⟩
      cases error with
      | interrupted =>
        have heq : fail { s with limiter := limiter } .interrupted = { s with limiter := limiter } := by
          simp [fail,hstage]
        rw [heq]
        refine .inl ⟨h.stage,hcounted,?_,?_,h.trailer⟩
        · exact hinner.trans (h.inner.trans haccepted.symm)
        · change limiter.accepted ++ rest s = e.stream
          rw [haccepted]
          exact h.stream
      | other text => exact .inr (failed_fail { s with limiter := limiter } hstage text)
    · refine .inr ⟨broken_fail (.inl hstage) hcounted (.inr ⟨?_,?_⟩),.inl (by simp [hstage,hr])⟩
      · change limiter.accepted.length + (rest s).length = e.stream.length
        rw [haccepted,← h.stream,List.length_append]
      · exact h.trailer_ne hpending

theorem Broken.step_call (h : Broken e max s) (hstep : s.call = some t) : Broken e max t := by
  unfold call at hstep
  rcases h.stage with hstage | hstage
  · simp only [hstage] at hstep
    split at hstep
    · rename_i hbuffer
      split at hstep
      · rename_i out finals hfinals
        cases hstep
        refine ⟨.inl rfl,h.counted,h.lost.imp id fun hlost => ?_⟩
        simpa [rest,hbuffer,hfinals,Nat.add_comm,Nat.add_assoc,Nat.add_left_comm] using hlost
      · cases hstep
        exact ⟨.inr rfl,h.counted,h.lost⟩
    · cases hstep
  · simp [hstage] at hstep

theorem Broken.step_write (h : Broken e max s) (hpending : s.pending = some slot)
    (hwrote : Wrote max s slot r t) : Broken e max t := by
  have hstage : s.stage = .redoing := by
    refine h.stage.elim id fun hs => ?_
    simp [pending,hs] at hpending
  obtain rfl : slot = .buffer := by
    simp only [pending,hstage] at hpending
    split at hpending
    · exact (Option.some.inj hpending).symm
    · cases hpending
  cases hwrote with
  | passed n hr hn =>
    refine ⟨.inl hstage,counted_taken h.counted true hn,h.lost.imp (fun hlong => ?_)
      fun ⟨hlength,htrailer⟩ => ⟨?_,htrailer⟩⟩
    · simp only [limiter_drain,taken,List.length_append]
      omega
    · have hdrain := length_rest_drain hn
      have hsame : rest ((taken s .buffer n true).drain n .buffer) = rest (s.drain n .buffer) := rfl
      rw [limiter_drain,hsame]
      simp only [taken,if_true,List.length_append,List.length_take]
      omega
  | exceeded n text hn hlimit =>
    have hcounted := counted_taken h.counted false hn
    refine broken_fail (.inr hstage) hcounted (.inl ?_)
    simp only [taken] at hcounted ⊢
    omega
  | refused limiter error hr hinner haccepted hwritten =>
    refine broken_fail (.inr hstage) ?_ ?_
    · rw [hinner]
      exact hwritten.trans h.counted
    · have hlost := h.lost
      rw [← hinner,← haccepted] at hlost
      exact hlost

theorem Clean.step (h : Clean e s) (hstep : (machine max).step s a = some t) :
    dropRefused s a = false ∧ (Clean e t ∨ Failed t ∨ Done e t) ∨
      Broken e max t ∧ (dropRefused s a = true ∨ max.toNat < e.stream.length) := by
  cases a with
  | call => exact .inl ⟨rfl,(h.step_call hstep).imp id .inr⟩
  | write r =>
    obtain ⟨slot,hpending,hwrote⟩ := ArchiveLimit.step_write hstep
    refine (h.step_write hpending hwrote).imp (fun ⟨hdrop,hnext⟩ => ⟨hdrop,?_⟩) id
    exact hnext.imp id .inl

theorem Broken.step (h : Broken e max s) (hstep : (machine max).step s a = some t) :
    Broken e max t := by
  cases a with
  | call => exact h.step_call hstep
  | write r =>
    obtain ⟨slot,hpending,hwrote⟩ := ArchiveLimit.step_write hstep
    exact h.step_write hpending hwrote

theorem Failed.fail (h : Failed s) (error : WriteError) : Failed (s.fail error) := by
  unfold Archiver.fail
  split
  · exact h
  · exact absurd ‹s.stage = .building› h.1
  · exact h
  all_goals exact ⟨by simp,h.2⟩

theorem Failed.step_call (h : Failed s) (hstep : s.call = some t) : Failed t := by
  unfold call at hstep
  split at hstep
  · rename_i hstage
    exact absurd hstage h.1
  all_goals
    repeat' split at hstep
    all_goals cases hstep
    all_goals exact ⟨by simp_all,h.2⟩

theorem Failed.step (h : Failed s) (hstep : (machine max).step s a = some t) : Failed t := by
  cases a with
  | call => exact h.step_call hstep
  | write r =>
    obtain ⟨slot,-,hwrote⟩ := ArchiveLimit.step_write hstep
    cases hwrote with
    | passed n hr hn =>
      have hresult : ((taken s slot n true).drain n slot).result = s.result := by cases slot <;> rfl
      exact ⟨by simpa [taken] using h.1,by rw [hresult]; exact h.2⟩
    | exceeded n text hn hlimit => exact Failed.fail (s := taken s slot n false) h _
    | refused limiter error hr hinner haccepted hwritten =>
      exact Failed.fail (s := { s with limiter := limiter }) h _

theorem step_ended (hstage : s.stage = .ended) : (machine max).step s a = none := by
  cases a with
  | call => simp [machine,call,hstage]
  | write r => simp [machine,pending,hstage]

def Reached (e : Encoding) (max : UInt64) (s : Archiver) : Prop :=
  Clean e s ∨ Broken e max s ∨ Failed s ∨ Done e s

theorem Reached.step (h : Reached e max s) (hstep : (machine max).step s a = some t) :
    Reached e max t := by
  rcases h with h | h | h | h
  · rcases h.step hstep with ⟨-,hclean | hend⟩ | ⟨hbroken,-⟩
    · exact .inl hclean
    · exact .inr (.inr hend)
    · exact .inr (.inl hbroken)
  · exact .inr (.inl (h.step hstep))
  · exact .inr (.inr (.inl (h.step hstep)))
  · rw [step_ended h.1] at hstep
    cases hstep

variable {as : List Action}

/-- A write that the destructor of the encoder has lost is never made good. -/
theorem broken_of_refused (hrun : (machine max).run (start e) as = some s)
    (h : ¬ (machine max).Meets (fun s a => dropRefused s a = false) (start e) as) :
    Broken e max s ∨ Failed s := by
  obtain ⟨_,a,_,u,v,-,hu,-,hrefused,hv,hs⟩ := StepMachine.exists_first_failure hrun h
  have hreached : Reached e max u :=
    StepMachine.invariant_of_step (fun _ _ _ => Reached.step) (.inl (clean_start e)) hu
  have hstage : u.stage = .finishing := by
    cases a with
    | call => exact absurd rfl hrefused
    | write r =>
      simp only [dropRefused,Bool.not_eq_false,Bool.and_eq_true,decide_eq_true_eq] at hrefused
      exact hrefused.1
  rcases hreached with hclean | hbroken | hfailed | hdone
  · refine .inl (StepMachine.invariant_of_step (fun _ _ _ => Broken.step) ?_ hs)
    rcases hclean.step hv with ⟨hno,-⟩ | ⟨hbroken,-⟩
    · exact absurd hno hrefused
    · exact hbroken
  · rcases hbroken.stage with hstage' | hstage' <;> cases hstage.symm.trans hstage'
  · exact .inr (StepMachine.invariant_of_step (fun _ _ _ => Failed.step) (hfailed.step hv) hs)
  · cases hstage.symm.trans hdone.1

theorem done_of_meets (hrun : (machine max).run (start e) as = some s)
    (hlength : e.stream.length ≤ max.toNat)
    (h : (machine max).Meets (fun s a => dropRefused s a = false) (start e) as) :
    Clean e s ∨ Failed s ∨ Done e s := by
  refine StepMachine.invariant (I := fun s => Clean e s ∨ Failed s ∨ Done e s)
    (fun s a t hs hno hstep => ?_) (.inl (clean_start e)) h hrun
  rcases hs with hs | hs | hs
  · rcases hs.step hstep with ⟨-,hnext⟩ | ⟨-,hrefused | hlong⟩
    · exact hnext
    · cases hno.symm.trans hrefused
    · omega
  · exact .inr (.inl (hs.step hstep))
  · rw [step_ended hs.1] at hstep
    cases hstep

end Proofs

/-- Of an archive that is reported as written, the file is complete and within the limit exactly
if the stream fits and the encoder's destructor, which runs afterwards, has no write refused. -/
theorem archive_within_limit_iff (e : Encoding) (max : UInt64) (as : List Action) (s : Archiver)
    (hrun : (machine max).run (start e) as = some s) (hended : s.stage = .ended)
    (hok : s.result = some (.ok ())) :
    Complete e max s ↔ e.stream.length ≤ max.toNat ∧
      (machine max).Meets (fun s a => dropRefused s a = false) (start e) as := by
  have hnot : ¬ Failed s := by
    rintro ⟨-,msg,hmsg⟩
    rw [hok] at hmsg
    cases hmsg
  constructor
  · intro hcomplete
    refine ⟨hcomplete.2.1 ▸ hcomplete.2.2,?_⟩
    by_contra hrefused
    rcases broken_of_refused hrun hrefused with hbroken | hfailed
    · exact hbroken.not_complete hcomplete
    · exact hnot hfailed
  · rintro ⟨hlength,hmeets⟩
    rcases done_of_meets hrun hlength hmeets with hclean | hfailed | ⟨-,haccepted,hinner⟩
    · rcases hclean.stage with hs | ⟨hs,-⟩ <;> cases hended.symm.trans hs
    · exact (hnot hfailed).elim
    · exact ⟨haccepted,hinner,hinner ▸ hlength⟩

/-- An empty directory: the tar stream is 1024 zero bytes, which the compressor keeps until it
is finished. -/
def emptyDirectory : Encoding where
  header := [31,139,8,0,0,0,0,0,0,255]
  fills := [⟨"Failed to finish archive",[],⟨⟨[[3,0]],[0,0,0,0,0,0,0,0]⟩,[]⟩⟩]
  finals := [[237,192,1,1,0,0,0,130,32,255,175,110,72,80,192,171,1]]
  trailer := [46,175,181,239,0,4,0,0]
  trailer_length := rfl

def reported (s : Archiver) : Bool := s.result matches some (.ok ())

theorem result_of_reported {s : Archiver} (h : reported s = true) : s.result = some (.ok ()) := by
  unfold reported at h
  split at h
  · assumption
  · cases h

/-- The header fits into ten bytes; the rest is written, too much, when all is said. -/
def tooLate : List Action :=
  [.write (.wrote 10),.call,.call,.call,.write (.wrote 17),.write (.wrote 17)]

theorem tooLate_incomplete : ∃ s, (machine 10).run (start emptyDirectory) tooLate = some s ∧
    s.stage = .ended ∧ s.result = some (.ok ()) ∧ s.limiter.inner.length = 44 ∧
      ¬ Complete emptyDirectory 10 s := by
  have hrun : ((machine 10).run (start emptyDirectory) tooLate).any (fun s =>
      s.stage = .ended ∧ reported s = true ∧ s.limiter.inner.length = 44) = true := by
    decide +kernel
  obtain ⟨s,hs,hprops⟩ := (Option.any_eq_true _ _).mp hrun
  obtain ⟨hended,hok,hlength⟩ := of_decide_eq_true hprops
  refine ⟨s,hs,hended,result_of_reported hok,hlength,fun hcomplete => ?_⟩
  have hlimit : s.limiter.inner.length ≤ 10 := hcomplete.2.2
  omega

def inTime : List Action :=
  [.write (.wrote 10),.call,.call,.call,.write (.wrote 4),.write (.wrote 13),.write (.wrote 8),.call]

theorem archive_within_limit_inTime : ∃ s, (machine 35).run (start emptyDirectory) inTime = some s ∧
    Complete emptyDirectory 35 s := by
  have hrun : ((machine 35).run (start emptyDirectory) inTime).any (fun s =>
      s.stage = .ended ∧ reported s = true) = true := by
    decide +kernel
  obtain ⟨s,hs,hprops⟩ := (Option.any_eq_true _ _).mp hrun
  obtain ⟨hended,hok⟩ := of_decide_eq_true hprops
  exact ⟨s,hs,(archive_within_limit_iff emptyDirectory 35 inTime s hs hended
    (result_of_reported hok)).mpr ⟨by decide,by decide +kernel⟩⟩

/-- Nine bytes do not even hold the header: both destructors of the encoder write once more. -/
example : ((machine 9).run (start emptyDirectory) [.write (.wrote 10),.call,.write (.wrote 10),
    .call,.write (.wrote 2)]).any (fun s => s.stage = .ended ∧ reported s = false ∧
      s.limiter.inner.length = 22) = true := by
  decide +kernel

end ArchiveLimit
end JobControllerClient
