import JobControllerClient.Messaging

/-! What is pushed into a message is read back. Every push appends a block that its pop
takes whole, wherever the cursor stands and whatever follows; sequences of pushes are
read back by the matching sequence of pops. -/
namespace JobControllerClient
namespace WireRoundTrip

open Messaging

/-- `pop` reads the block as the value `v` at every place of every message and moves the
cursor to its end. -/
def Reads {α : Type} (pop : Message → α × Message) (block : List UInt8) (v : α) : Prop :=
  ∀ (m : Message) (p r : List UInt8), m.data = p ++ block ++ r → m.index = p.length →
    pop m = (v,{ m with index := p.length + block.length })

section Reads

variable {α β : Type} {pop : Message → α × Message} {b c : List UInt8} {v : α} {u : β}

theorem Reads.map (h : Reads pop b v) (f : α → β) :
    Reads (fun m => (f (pop m).1,(pop m).2)) b (f v) := by
  intro m p r hd hi
  simp only [h m p r hd hi]

theorem Reads.andThen (h : Reads pop b v) (next : α → Message → β × Message)
    (hnext : Reads (next v) c u) :
    Reads (fun m => next (pop m).1 (pop m).2) (b ++ c) u := by
  intro m p r hd hi
  have hfirst := h m p (c ++ r) (by simpa using hd) hi
  have hrest := hnext { m with index := p.length + b.length } (p ++ b) r (by simpa using hd)
    (by simp)
  simp only [hfirst,hrest,List.length_append,Nat.add_assoc]

theorem Reads.bind {first : StateM Message α} {next : α → StateM Message β}
    (h : Reads first b v) (hnext : Reads (next v) c u) : Reads (first >>= next) (b ++ c) u :=
  h.andThen next hnext

theorem Reads.unread (h : Reads pop b v) {m : Message} {r : List UInt8}
    (hindex : m.index ≤ m.data.length) (hm : m.unread = b ++ r) :
    pop m = (v,{ m with index := m.index + b.length }) := by
  have hlength : (m.data.take m.index).length = m.index := by simpa using hindex
  have hdata : m.data = m.data.take m.index ++ b ++ r := by
    rw [List.append_assoc,← hm]
    exact (List.take_append_drop m.index m.data).symm
  have hpop := h m _ r hdata hlength.symm
  rwa [hlength] at hpop

theorem Reads.value (u : β) : Reads (fun m => (u,m)) [] u := by
  intro m p r _ hi
  simp [← hi]

theorem reads_fixed {w n : ℕ} (hn : n < 256^w) :
    Reads (fun m => m.popFixed w) (LittleEndian.encode w n) n := by
  intro m p r hd hi
  have hpop := Message.popFixed_append hd hi hn
  simpa using hpop

end Reads

section Fields

theorem reads_ubyte (v : UInt8) : Reads Message.popUbyte (LittleEndian.encode 1 v.toNat) v := by
  have h := (reads_fixed (w := 1) v.toNat_lt).map UInt8.ofNat
  rwa [UInt8.ofNat_toNat] at h

theorem reads_bool (v : Bool) :
    Reads Message.popBool (LittleEndian.encode 1 (if v then 1 else 0 : UInt8).toNat) v := by
  have h := (reads_ubyte (if v then 1 else 0)).map (· == 1)
  cases v <;> exact h

theorem reads_byte (v : Int8) :
    Reads Message.popByte (LittleEndian.encode 1 v.toUInt8.toNat) v := by
  have h := (reads_ubyte v.toUInt8).map UInt8.toInt8
  rwa [Int8.toInt8_toUInt8] at h

theorem reads_ushort (v : UInt16) : Reads Message.popUshort (LittleEndian.encode 2 v.toNat) v := by
  have h := (reads_fixed (w := 2) v.toNat_lt).map UInt16.ofNat
  rwa [UInt16.ofNat_toNat] at h

theorem reads_short (v : Int16) :
    Reads Message.popShort (LittleEndian.encode 2 v.toUInt16.toNat) v := by
  have h := (reads_ushort v.toUInt16).map UInt16.toInt16
  rwa [Int16.toInt16_toUInt16] at h

theorem reads_uint (v : UInt32) : Reads Message.popUint (LittleEndian.encode 4 v.toNat) v := by
  have h := (reads_fixed (w := 4) v.toNat_lt).map UInt32.ofNat
  rwa [UInt32.ofNat_toNat] at h

theorem reads_int (v : Int32) :
    Reads Message.popInt (LittleEndian.encode 4 v.toUInt32.toNat) v := by
  have h := (reads_uint v.toUInt32).map UInt32.toInt32
  rwa [Int32.toInt32_toUInt32] at h

theorem reads_ulong (v : UInt64) : Reads Message.popUlong (LittleEndian.encode 8 v.toNat) v := by
  have h := (reads_fixed (w := 8) v.toNat_lt).map UInt64.ofNat
  rwa [UInt64.ofNat_toNat] at h

theorem reads_long (v : Int64) :
    Reads Message.popLong (LittleEndian.encode 8 v.toUInt64.toNat) v := by
  have h := (reads_ulong v.toUInt64).map UInt64.toInt64
  rwa [Int64.toInt64_toUInt64] at h

/-- Rust allocates at most `isize::MAX` bytes for a string or a vector. -/
def allocationMax : ℕ := 2^63 - 1

theorem reads_bytes {b : List UInt8} (hb : b.length ≤ allocationMax) :
    Reads Message.popBytes (Message.block b) b := by
  intro m p r hd hi
  have hlt : b.length < 2^64 := by
    simp only [allocationMax] at hb
    omega
  rw [Message.popBytes_append hd hi hlt]
  simp [Message.block,Nat.add_assoc]

/-- The lossy decoder returns the string whose bytes it is given. -/
theorem fromUtf8Lossy_utf8 (s : String) : fromUtf8Lossy (utf8 s) = s := by
  have hbytes : (utf8 s).toByteArray = s.toByteArray := by
    apply ByteArray.ext
    simp [utf8]
  have hvalid : (utf8 s).toByteArray.IsValidUTF8 := by
    rw [hbytes]
    exact s.isValidUTF8
  rw [fromUtf8Lossy,dif_pos hvalid]
  simp [hbytes,String.fromUTF8]

theorem reads_string {s : String} (hs : (utf8 s).length ≤ allocationMax) :
    Reads Message.popString (Message.block (utf8 s)) s := by
  have h := (reads_bytes hs).map fromUtf8Lossy
  rwa [fromUtf8Lossy_utf8] at h

end Fields

inductive Kind
  | bool | ubyte | byte | ushort | short | uint | int | ulong | long | float | double
  | string | bytes
  deriving DecidableEq

/-- A typed value; floats are given by their bits. -/
inductive Value
  | bool (value : Bool)
  | ubyte (value : UInt8)
  | byte (value : Int8)
  | ushort (value : UInt16)
  | short (value : Int16)
  | uint (value : UInt32)
  | int (value : Int32)
  | ulong (value : UInt64)
  | long (value : Int64)
  | float (bits : UInt32)
  | double (bits : UInt64)
  | string (value : String)
  | bytes (value : List UInt8)
  deriving DecidableEq

namespace Value

def kind : Value → Kind
  | .bool _ => .bool
  | .ubyte _ => .ubyte
  | .byte _ => .byte
  | .ushort _ => .ushort
  | .short _ => .short
  | .uint _ => .uint
  | .int _ => .int
  | .ulong _ => .ulong
  | .long _ => .long
  | .float _ => .float
  | .double _ => .double
  | .string _ => .string
  | .bytes _ => .bytes

def push (m : Message) : Value → Message
  | .bool v => m.pushBool v
  | .ubyte v => m.pushUbyte v
  | .byte v => m.pushByte v
  | .ushort v => m.pushUshort v
  | .short v => m.pushShort v
  | .uint v => m.pushUint v
  | .int v => m.pushInt v
  | .ulong v => m.pushUlong v
  | .long v => m.pushLong v
  | .float v => m.pushFloat v
  | .double v => m.pushDouble v
  | .string v => m.pushString v
  | .bytes v => m.pushBytes v

def block : Value → List UInt8
  | .bool v => LittleEndian.encode 1 (if v then 1 else 0 : UInt8).toNat
  | .ubyte v => LittleEndian.encode 1 v.toNat
  | .byte v => LittleEndian.encode 1 v.toUInt8.toNat
  | .ushort v => LittleEndian.encode 2 v.toNat
  | .short v => LittleEndian.encode 2 v.toUInt16.toNat
  | .uint v => LittleEndian.encode 4 v.toNat
  | .int v => LittleEndian.encode 4 v.toUInt32.toNat
  | .ulong v => LittleEndian.encode 8 v.toNat
  | .long v => LittleEndian.encode 8 v.toUInt64.toNat
  | .float v => LittleEndian.encode 4 v.toNat
  | .double v => LittleEndian.encode 8 v.toNat
  | .string v => Message.block (utf8 v)
  | .bytes v => Message.block v

def Allocated : Value → Prop
  | .string v => (utf8 v).length ≤ allocationMax
  | .bytes v => v.length ≤ allocationMax
  | _ => True

end Value

def Kind.pop : Kind → Message → Value × Message
  | .bool, m => (.bool m.popBool.1,m.popBool.2)
  | .ubyte, m => (.ubyte m.popUbyte.1,m.popUbyte.2)
  | .byte, m => (.byte m.popByte.1,m.popByte.2)
  | .ushort, m => (.ushort m.popUshort.1,m.popUshort.2)
  | .short, m => (.short m.popShort.1,m.popShort.2)
  | .uint, m => (.uint m.popUint.1,m.popUint.2)
  | .int, m => (.int m.popInt.1,m.popInt.2)
  | .ulong, m => (.ulong m.popUlong.1,m.popUlong.2)
  | .long, m => (.long m.popLong.1,m.popLong.2)
  | .float, m => (.float m.popFloat.1,m.popFloat.2)
  | .double, m => (.double m.popDouble.1,m.popDouble.2)
  | .string, m => (.string m.popString.1,m.popString.2)
  | .bytes, m => (.bytes m.popBytes.1,m.popBytes.2)

def pushAll (m : Message) (values : List Value) : Message := values.foldl Value.push m

def popAll : List Kind → Message → List Value × Message
  | [], m => ([],m)
  | kind :: kinds, m =>
    let first := kind.pop m
    let rest := popAll kinds first.2
    (first.1 :: rest.1,rest.2)

theorem push_eq (m : Message) (v : Value) : v.push m = { m with data := m.data ++ v.block } := by
  cases v <;> simp [Value.push,Value.block,Message.pushBool,Message.pushUbyte,Message.pushByte,
    Message.pushUshort,Message.pushShort,Message.pushUint,Message.pushInt,Message.pushUlong,
    Message.pushLong,Message.pushFloat,Message.pushDouble,Message.pushString,Message.pushBytes,
    Message.pushFixed,Message.appendRawBytes,Message.block]

theorem pushAll_eq (m : Message) (values : List Value) :
    pushAll m values = { m with data := m.data ++ values.flatMap Value.block } := by
  induction values generalizing m with
  | nil => simp [pushAll]
  | cons v values ih =>
    have hrest := ih (v.push m)
    simp only [pushAll,List.foldl_cons] at hrest ⊢
    rw [hrest,push_eq]
    simp

theorem reads_value (v : Value) (hv : v.Allocated) : Reads v.kind.pop v.block v := by
  cases v with
  | bool v => exact (reads_bool v).map Value.bool
  | ubyte v => exact (reads_ubyte v).map Value.ubyte
  | byte v => exact (reads_byte v).map Value.byte
  | ushort v => exact (reads_ushort v).map Value.ushort
  | short v => exact (reads_short v).map Value.short
  | uint v => exact (reads_uint v).map Value.uint
  | int v => exact (reads_int v).map Value.int
  | ulong v => exact (reads_ulong v).map Value.ulong
  | long v => exact (reads_long v).map Value.long
  | float v => exact (reads_uint v).map Value.float
  | double v => exact (reads_ulong v).map Value.double
  | string v => exact (reads_string hv).map Value.string
  | bytes v => exact (reads_bytes hv).map Value.bytes

theorem reads_all (values : List Value) (h : ∀ v ∈ values, v.Allocated) :
    Reads (popAll (values.map Value.kind)) (values.flatMap Value.block) values := by
  induction values with
  | nil => exact Reads.value []
  | cons v values ih =>
    have hfirst := reads_value v (h v List.mem_cons_self)
    have hrest := ih fun u hu => h u (List.mem_cons_of_mem v hu)
    exact hfirst.andThen (fun u m =>
      (u :: (popAll (values.map Value.kind) m).1,(popAll (values.map Value.kind) m).2))
      (hrest.map (v :: ·))

/-- Parsing recovers the header and leaves exactly what follows it unread. -/
theorem fromData_new (id : UInt32) (priority : Priority) {source : String}
    (hs : (utf8 source).length ≤ allocationMax) (rest : List UInt8) :
    Message.fromData ((Message.new id priority source).data ++ rest) =
      ⟨id,source,.lowest,(Message.new id priority source).data ++ rest,
        (Message.new id priority source).data.length⟩ := by
  have hlt : (utf8 source).length < 2^64 := by
    simp only [allocationMax] at hs
    omega
  have hheader := Message.fromData_header id source rest hlt
  rw [fromUtf8Lossy_utf8] at hheader
  simpa using hheader

theorem fromData_pushAll (id : UInt32) (priority : Priority) {source : String}
    (hs : (utf8 source).length ≤ allocationMax) (values : List Value) :
    Message.fromData (pushAll (.new id priority source) values).data =
      ⟨id,source,.lowest,(Message.new id priority source).data ++ values.flatMap Value.block,
        (Message.new id priority source).data.length⟩ := by
  rw [pushAll_eq,fromData_new id priority hs]

theorem clonePayloadBytes_pushAll (id : UInt32) (priority : Priority) {source : String}
    (hs : (utf8 source).length ≤ allocationMax) (values : List Value) :
    (pushAll (.new id priority source) values).clonePayloadBytes =
      values.flatMap Value.block := by
  simp [Message.clonePayloadBytes,fromData_pushAll id priority hs values]

/-- Every id, source and sequence of typed values is read back as it was pushed. -/
theorem wire_round_trip (id : UInt32) (priority : Priority) (source : String)
    (values : List Value) (hsource : (utf8 source).length ≤ allocationMax)
    (hvalues : ∀ v ∈ values, v.Allocated) :
    let m := Message.fromData (pushAll (.new id priority source) values).data
    m.id = id ∧ m.source = source ∧ (popAll (values.map Value.kind) m).1 = values ∧
      (popAll (values.map Value.kind) m).2.remainingLen = 0 := by
  intro m
  have hm : m = _ := fromData_pushAll id priority hsource values
  have hread := reads_all values hvalues m (Message.new id priority source).data []
    (by simp [hm]) (by simp [hm])
  refine ⟨by rw [hm],by rw [hm],by rw [hread],?_⟩
  rw [hread,hm]
  simp only [Message.remainingLen,List.length_append]
  omega

theorem wire_round_trip_mixed :
    (popAll [.bool,.long,.string,.bytes] (Message.fromData (pushAll (.new 7 .medium "src")
      [.bool true,.long (-1),.string "ab",.bytes [0,255]]).data)).1 =
        [.bool true,.long (-1),.string "ab",.bytes [0,255]] := by
  have hsource : (utf8 "src").length ≤ allocationMax := by decide
  have hvalues : ∀ v ∈ [Value.bool true,.long (-1),.string "ab",.bytes [0,255]], v.Allocated := by
    have hab : (utf8 "ab").length ≤ allocationMax := by decide
    simpa [Value.Allocated,allocationMax] using hab
  exact (wire_round_trip 7 .medium "src" _ hsource hvalues).2.2.1

end WireRoundTrip
end JobControllerClient
