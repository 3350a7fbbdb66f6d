import JobControllerClient.Foundation.LittleEndian

/-! The binary wire format of `messaging.rs`: a growing byte buffer, a read
cursor, and fixed-width or length-prefixed fields in little-endian order. -/
namespace JobControllerClient
namespace Messaging

namespace MessageId

def serverReady : UInt32 := 1000
def fileDownloadError : UInt32 := 4002
def fileChunk : UInt32 := 4003
def pauseFileChunkStream : UInt32 := 4004
def resumeFileChunkStream : UInt32 := 4005
def fileList : UInt32 := 4006
def fileListError : UInt32 := 4007
def fileUploadChunk : UInt32 := 4501
def fileUploadError : UInt32 := 4502
def fileUploadComplete : UInt32 := 4503
def dbJobGetById : UInt32 := 5001
def dbJobSave : UInt32 := 5004
def dbJobstatusSave : UInt32 := 6003
def dbResponse : UInt32 := 7000

end MessageId

inductive Priority
  | highest | medium | lowest
  deriving DecidableEq

/-- `priority as usize`, the index of the outgoing queue. -/
def Priority.level : Priority → ℕ
  | .highest => 0
  | .medium => 10
  | .lowest => 19

structure Message where
  id : UInt32
  source : String
  priority : Priority
  data : List UInt8
  index : ℕ

/-- The bytes of a Rust string. -/
def utf8 (s : String) : List UInt8 := s.toByteArray.data.toList

def isContinuation (b : UInt8) : Bool := 0x80 ≤ b && b ≤ 0xBF

/-- The bytes that may follow the lead byte of a three- or four-byte sequence. -/
def isSecond (lead b : UInt8) : Bool :=
  if lead = 0xE0 then 0xA0 ≤ b && b ≤ 0xBF
  else if lead = 0xED then 0x80 ≤ b && b ≤ 0x9F
  else if lead = 0xF0 then 0x90 ≤ b && b ≤ 0xBF
  else if lead = 0xF4 then 0x80 ≤ b && b ≤ 0x8F
  else isContinuation b

def replacement : Char := Char.ofNat 0xFFFD

def scalar (lead : ℕ) (rest : List UInt8) : Char :=
  Char.ofNat (rest.foldl (fun n b => n * 64 + (b.toNat - 0x80)) lead)

/-- `String::from_utf8_lossy` on an ill-formed buffer: every maximal ill-formed
subsequence becomes one replacement character. -/
def decodeLossy : List UInt8 → List Char
  | [] => []
  | a :: rest =>
    if a < 0x80 then Char.ofNat a.toNat :: decodeLossy rest
    else match rest with
    | [] => [replacement]
    | b :: rest₁ =>
      if 0xC2 ≤ a && a ≤ 0xDF then
        if isContinuation b then scalar (a.toNat - 0xC0) [b] :: decodeLossy rest₁
        else replacement :: decodeLossy (b :: rest₁)
      else if 0xE0 ≤ a && a ≤ 0xF4 && isSecond a b then
        match rest₁ with
        | [] => [replacement]
        | c :: rest₂ =>
          if !isContinuation c then replacement :: decodeLossy (c :: rest₂)
          else if a < 0xF0 then scalar (a.toNat - 0xE0) [b,c] :: decodeLossy rest₂
          else match rest₂ with
          | [] => [replacement]
          | d :: rest₃ =>
            if isContinuation d then scalar (a.toNat - 0xF0) [b,c,d] :: decodeLossy rest₃
            else replacement :: decodeLossy (d :: rest₃)
      else replacement :: decodeLossy (b :: rest₁)

def fromUtf8Lossy (bytes : List UInt8) : String :=
  if h : bytes.toByteArray.IsValidUTF8 then String.fromUTF8 bytes.toByteArray h
  else String.ofList (decodeLossy bytes)

namespace Message

/-- All `push_*` of a fixed-width integer: `w` little-endian bytes. -/
def pushFixed (m : Message) (w n : ℕ) : Message :=
  { m with data := m.data ++ LittleEndian.encode w n }

def pushUbyte (m : Message) (value : UInt8) : Message := m.pushFixed 1 value.toNat

def pushBool (m : Message) (value : Bool) : Message := m.pushUbyte (if value then 1 else 0)

def pushByte (m : Message) (value : Int8) : Message := m.pushFixed 1 value.toUInt8.toNat

def pushUshort (m : Message) (value : UInt16) : Message := m.pushFixed 2 value.toNat

def pushShort (m : Message) (value : Int16) : Message := m.pushFixed 2 value.toUInt16.toNat

def pushUint (m : Message) (value : UInt32) : Message := m.pushFixed 4 value.toNat

def pushInt (m : Message) (value : Int32) : Message := m.pushFixed 4 value.toUInt32.toNat

def pushUlong (m : Message) (value : UInt64) : Message := m.pushFixed 8 value.toNat

def pushLong (m : Message) (value : Int64) : Message := m.pushFixed 8 value.toUInt64.toNat

/-- Floats travel as their bits. -/
def pushFloat (m : Message) (bits : UInt32) : Message := m.pushFixed 4 bits.toNat

def pushDouble (m : Message) (bits : UInt64) : Message := m.pushFixed 8 bits.toNat

def appendRawBytes (m : Message) (bytes : List UInt8) : Message :=
  { m with data := m.data ++ bytes }

def pushBytes (m : Message) (value : List UInt8) : Message :=
  (m.pushUlong (UInt64.ofNat value.length)).appendRawBytes value

def pushString (m : Message) (value : String) : Message := m.pushBytes (utf8 value)

/-- All `pop_*` of a fixed-width integer: a short buffer yields zero and leaves
the cursor where it is. -/
def popFixed (m : Message) (w : ℕ) : ℕ × Message :=
  if m.index + w > m.data.length then (0,m)
  else (LittleEndian.decode ((m.data.drop m.index).take w),{ m with index := m.index + w })

def popUbyte (m : Message) : UInt8 × Message :=
  (UInt8.ofNat (m.popFixed 1).1,(m.popFixed 1).2)

def popBool (m : Message) : Bool × Message := (m.popUbyte.1 == 1,m.popUbyte.2)

def popByte (m : Message) : Int8 × Message :=
  ((UInt8.ofNat (m.popFixed 1).1).toInt8,(m.popFixed 1).2)

def popUshort (m : Message) : UInt16 × Message :=
  (UInt16.ofNat (m.popFixed 2).1,(m.popFixed 2).2)

def popShort (m : Message) : Int16 × Message :=
  ((UInt16.ofNat (m.popFixed 2).1).toInt16,(m.popFixed 2).2)

def popUint (m : Message) : UInt32 × Message :=
  (UInt32.ofNat (m.popFixed 4).1,(m.popFixed 4).2)

def popInt (m : Message) : Int32 × Message :=
  ((UInt32.ofNat (m.popFixed 4).1).toInt32,(m.popFixed 4).2)

def popUlong (m : Message) : UInt64 × Message :=
  (UInt64.ofNat (m.popFixed 8).1,(m.popFixed 8).2)

def popLong (m : Message) : Int64 × Message :=
  ((UInt64.ofNat (m.popFixed 8).1).toInt64,(m.popFixed 8).2)

def popFloat (m : Message) : UInt32 × Message :=
  (UInt32.ofNat (m.popFixed 4).1,(m.popFixed 4).2)

def popDouble (m : Message) : UInt64 × Message :=
  (UInt64.ofNat (m.popFixed 8).1,(m.popFixed 8).2)

def remainingLen (m : Message) : ℕ := m.data.length - m.index

def popBytes (m : Message) : List UInt8 × Message :=
  let r := m.popUlong
  let len := r.1.toNat
  let m := r.2
  if len = 0 then ([],m)
  else if len > m.data.length - m.index then ([],m)
  else ((m.data.drop m.index).take len,{ m with index := m.index + len })

def popString (m : Message) : String × Message :=
  (fromUtf8Lossy m.popBytes.1,m.popBytes.2)

def new (id : UInt32) (priority : Priority) (source : String) : Message :=
  ((⟨id,source,priority,[],0⟩ : Message).pushString source).pushUint id

def fromData (vdata : List UInt8) : Message :=
  let source := (⟨0,"",.lowest,vdata,0⟩ : Message).popString
  let id := { source.2 with source := source.1 }.popUint
  { id.2 with id := id.1 }

/-- A message whose cursor has not moved is parsed from its header on. -/
def cloneForPayloadReading (m : Message) : Message :=
  if m.index = 0 then fromData m.data else m

/-- The payload starts where the parsed header ends. -/
def clonePayloadBytes (m : Message) : List UInt8 :=
  let parsed := fromData m.data
  parsed.data.drop parsed.index

variable {m : Message} {p r : List UInt8}

theorem popFixed_append {w n : ℕ} (hd : m.data = p ++ LittleEndian.encode w n ++ r)
    (hi : m.index = p.length) (hn : n < 256^w) :
    m.popFixed w = (n,{ m with index := p.length + w }) := by
  have hlen : ¬ m.index + w > m.data.length := by simp [hd,hi]
  have htake : (m.data.drop m.index).take w = LittleEndian.encode w n := by
    rw [hd,hi,List.append_assoc,List.drop_left,List.take_left' (by simp)]
  rw [popFixed,if_neg hlen,htake,LittleEndian.decode_encode_of_lt hn,hi]

theorem popUint_append {v : UInt32}
    (hd : m.data = p ++ LittleEndian.encode 4 v.toNat ++ r) (hi : m.index = p.length) :
    m.popUint = (v,{ m with index := p.length + 4 }) := by
  have hv : v.toNat < 256^4 := v.toNat_lt
  simp [popUint,popFixed_append hd hi hv]

theorem popUlong_append {v : UInt64}
    (hd : m.data = p ++ LittleEndian.encode 8 v.toNat ++ r) (hi : m.index = p.length) :
    m.popUlong = (v,{ m with index := p.length + 8 }) := by
  have hv : v.toNat < 256^8 := v.toNat_lt
  simp [popUlong,popFixed_append hd hi hv]

/-- The bytes from the cursor on. -/
def unread (m : Message) : List UInt8 := m.data.drop m.index

/-- Where four bytes are left, the id that `pop_uint` returns is what they encode. -/
theorem popUint_unread (h : 4 ≤ m.remainingLen) :
    LittleEndian.encode 4 m.popUint.1.toNat <+: m.unread := by
  have hfit : ¬ m.index + 4 > m.data.length := by
    simp only [remainingLen] at h
    omega
  have hlen : ((m.data.drop m.index).take 4).length = 4 := by
    simp only [remainingLen] at h
    simpa using h
  have hlt := LittleEndian.decode_lt ((m.data.drop m.index).take 4)
  have hback := LittleEndian.encode_decode ((m.data.drop m.index).take 4)
  rw [hlen] at hlt hback
  have hid : m.popUint.1.toNat = LittleEndian.decode ((m.data.drop m.index).take 4) := by
    simp only [popUint,popFixed,if_neg hfit]
    simpa using Nat.mod_eq_of_lt hlt
  rw [hid,hback]
  exact List.take_prefix 4 _

theorem popUint_short (h : m.remainingLen < 4) : m.popUint = (0,m) := by
  have hfit : m.index + 4 > m.data.length := by
    simp only [remainingLen] at h
    omega
  simp [popUint,popFixed,hfit]

/-- The block that `push_bytes` appends. -/
def block (b : List UInt8) : List UInt8 :=
  LittleEndian.encode 8 (UInt64.ofNat b.length).toNat ++ b

/-- A block shorter than `2^64` bytes is read back whole, and nothing after it is touched. -/
theorem popBytes_append {b : List UInt8} (hd : m.data = p ++ block b ++ r)
    (hi : m.index = p.length) (hb : b.length < 2^64) :
    m.popBytes = (b,{ m with index := p.length + 8 + b.length }) := by
  have hlen : (UInt64.ofNat b.length).toNat = b.length := by
    simpa using Nat.mod_eq_of_lt hb
  have hd' : m.data = p ++ LittleEndian.encode 8 (UInt64.ofNat b.length).toNat ++ (b ++ r) := by
    simp [hd,block]
  have hdrop : m.data.drop (p.length + 8) = b ++ r := by
    rw [hd',List.drop_left' (by simp)]
  simp only [popBytes,popUlong_append hd' hi,hlen]
  split
  · rename_i h0
    simp [List.length_eq_zero_iff.mp h0]
  · have hfit : ¬ b.length > m.data.length - (p.length + 8) := by
      simp only [hd',List.length_append,LittleEndian.encode_length]
      omega
    simp [hfit,hdrop]

@[simp] theorem pushBytes_data (m : Message) (b : List UInt8) :
    (m.pushBytes b).data = m.data ++ block b := by
  simp [pushBytes,pushUlong,pushFixed,appendRawBytes,block]

@[simp] theorem new_data (id : UInt32) (priority : Priority) (source : String) :
    (new id priority source).data = block (utf8 source) ++ LittleEndian.encode 4 id.toNat := by
  simp [new,pushUint,pushFixed,pushString]

/-- Parsing recovers the id of every message built by `new`, whatever follows the
header, and leaves the cursor at the first payload byte. -/
theorem fromData_header (id : UInt32) (source : String) (payload : List UInt8)
    (hs : (utf8 source).length < 2^64) :
    fromData (block (utf8 source) ++ LittleEndian.encode 4 id.toNat ++ payload) =
      ⟨id,fromUtf8Lossy (utf8 source),.lowest,
        block (utf8 source) ++ LittleEndian.encode 4 id.toNat ++ payload,
        (block (utf8 source)).length + 4⟩ := by
  have hb : (⟨0,"",.lowest,block (utf8 source) ++ LittleEndian.encode 4 id.toNat ++ payload,0⟩ :
      Message).popBytes = (utf8 source,_) :=
    popBytes_append (p := []) (r := LittleEndian.encode 4 id.toNat ++ payload)
      (by simp) rfl hs
  have hlen : (block (utf8 source)).length = 8 + (utf8 source).length := by simp [block]
  simp only [fromData,popString,hb]
  rw [popUint_append (v := id) (p := block (utf8 source)) (r := payload) rfl (by simp [hlen])]

end Message

end Messaging
end JobControllerClient
