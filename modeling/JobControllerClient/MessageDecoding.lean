import JobControllerClient.Foundation.CheckedSlice
import JobControllerClient.WireRoundTrip

/-! Decoding of arbitrary bytes. The `pop_*` functions of `messaging.rs` are given again with
every addition, subtraction, index and slice checked as Rust checks them; on every buffer
that memory can hold none of the checks fails, and the results are those of `Messaging`. -/
namespace JobControllerClient
namespace MessageDecoding

open CheckedSlice Messaging
open WireRoundTrip (Kind Value allocationMax)

/-- `pop_ubyte`, with the subtraction of its trace line. -/
def popUbyte (m : Message) : Except Panic (UInt8 × Message) := do
  if (← add m.index 1) > m.data.length then
    return (0,m)
  else
    let value ← item m.data m.index
    let index ← add m.index 1
    let _ ← sub index 1
    return (value,{ m with index := index })

def popBool (m : Message) : Except Panic (Bool × Message) := do
  let r ← popUbyte m
  return (r.1 == 1,r.2)

def popByte (m : Message) : Except Panic (Int8 × Message) := do
  if (← add m.index 1) > m.data.length then
    return (0,m)
  else
    let value ← item m.data m.index
    let index ← add m.index 1
    return (value.toInt8,{ m with index := index })

/-- The pops of two bytes and more: a cursor over the unread bytes is read once. Some of
them trace the index they started from. -/
def popCursor (w : ℕ) (traced : Bool) (m : Message) : Except Panic (ℕ × Message) := do
  if (← add m.index w) > m.data.length then
    return (0,m)
  else
    let bytes ← sliceFrom m.data m.index >>= fun rest => readExact rest w
    let index ← add m.index w
    let _ ← if traced then sub index w else pure index
    return (LittleEndian.decode bytes,{ m with index := index })

def popUshort (m : Message) : Except Panic (UInt16 × Message) := do
  let r ← popCursor 2 false m
  return (UInt16.ofNat r.1,r.2)

def popShort (m : Message) : Except Panic (Int16 × Message) := do
  let r ← popCursor 2 false m
  return ((UInt16.ofNat r.1).toInt16,r.2)

def popUint (m : Message) : Except Panic (UInt32 × Message) := do
  let r ← popCursor 4 true m
  return (UInt32.ofNat r.1,r.2)

def popInt (m : Message) : Except Panic (Int32 × Message) := do
  let r ← popCursor 4 false m
  return ((UInt32.ofNat r.1).toInt32,r.2)

def popUlong (m : Message) : Except Panic (UInt64 × Message) := do
  let r ← popCursor 8 true m
  return (UInt64.ofNat r.1,r.2)

def popLong (m : Message) : Except Panic (Int64 × Message) := do
  let r ← popCursor 8 false m
  return ((UInt64.ofNat r.1).toInt64,r.2)

def popFloat (m : Message) : Except Panic (UInt32 × Message) := do
  let r ← popCursor 4 false m
  return (UInt32.ofNat r.1,r.2)

def popDouble (m : Message) : Except Panic (UInt64 × Message) := do
  let r ← popCursor 8 false m
  return (UInt64.ofNat r.1,r.2)

def popBytes (m : Message) : Except Panic (List UInt8 × Message) := do
  let r ← popUlong m
  let len := r.1.toNat
  let m := r.2
  if len = 0 then
    return ([],m)
  else if len > m.data.length - m.index then
    return ([],m)
  else
    let stop ← add m.index len
    let value ← slice m.data m.index stop
    let index ← add m.index len
    return (value,{ m with index := index })

def popString (m : Message) : Except Panic (String × Message) := do
  let r ← popBytes m
  return (fromUtf8Lossy r.1,r.2)

/-- `Message::from_data`, with the subtraction of its debug line. -/
def fromData (vdata : List UInt8) : Except Panic Message := do
  let source ← popString ⟨0,"",.lowest,vdata,0⟩
  let id ← popUint { source.2 with source := source.1 }
  let _ ← sub id.2.data.length id.2.index
  return { id.2 with id := id.1 }

def pop (kind : Kind) (m : Message) : Except Panic (Value × Message) :=
  match kind with
  | .bool => do let r ← popBool m; return (.bool r.1,r.2)
  | .ubyte => do let r ← popUbyte m; return (.ubyte r.1,r.2)
  | .byte => do let r ← popByte m; return (.byte r.1,r.2)
  | .ushort => do let r ← popUshort m; return (.ushort r.1,r.2)
  | .short => do let r ← popShort m; return (.short r.1,r.2)
  | .uint => do let r ← popUint m; return (.uint r.1,r.2)
  | .int => do let r ← popInt m; return (.int r.1,r.2)
  | .ulong => do let r ← popUlong m; return (.ulong r.1,r.2)
  | .long => do let r ← popLong m; return (.long r.1,r.2)
  | .float => do let r ← popFloat m; return (.float r.1,r.2)
  | .double => do let r ← popDouble m; return (.double r.1,r.2)
  | .string => do let r ← popString m; return (.string r.1,r.2)
  | .bytes => do let r ← popBytes m; return (.bytes r.1,r.2)

def popAll : List Kind → Message → Except Panic (List Value × Message)
  | [], m => return ([],m)
  | kind :: kinds, m => do
    let first ← pop kind m
    let rest ← popAll kinds first.2
    return (first.1 :: rest.1,rest.2)

/-- The bytes of a `Vec<u8>`. -/
structure Buffer where
  bytes : List UInt8
  length_le : bytes.length ≤ allocationMax

/-- The message is held in memory and its cursor has not passed the end. -/
structure Reading (m : Message) : Prop where
  length_le : m.data.length ≤ allocationMax
  index_le : m.index ≤ m.data.length

/-- What a pop of `w` bytes at `i` returns, and where it leaves the cursor: the number that
the bytes encode and the place after them, or zero and the same place. -/
inductive Fixed (data : List UInt8) (w i : ℕ) : ℕ → ℕ → Prop
  | read (n : ℕ) (hlt : n < 256^w) (hfit : i + w ≤ data.length)
      (hbytes : (data.drop i).take w = LittleEndian.encode w n) : Fixed data w i n (i + w)
  | short (hshort : data.length < i + w) : Fixed data w i 0 i

/-- The same for `pop_bytes`. The length `n` is any number of eight bytes; only where that
many bytes follow are they returned. -/
inductive Counted (data : List UInt8) (i : ℕ) : List UInt8 → ℕ → Prop
  | slice (n : ℕ) (hlen : Fixed data 8 i n (i + 8)) (hfit : i + 8 + n ≤ data.length) :
      Counted data i ((data.drop (i + 8)).take n) (i + 8 + n)
  | tooLong (n : ℕ) (hlen : Fixed data 8 i n (i + 8)) (hlong : data.length < i + 8 + n) :
      Counted data i [] (i + 8)
  | short (hshort : data.length < i + 8) : Counted data i [] i

/-- How a value of some kind is laid out in the buffer. -/
inductive Layout
  | fixed (w : ℕ) (value : ℕ → Value)
  | counted (value : List UInt8 → Value)

def layout : Kind → Layout
  | .bool => .fixed 1 fun n => .bool (UInt8.ofNat n == 1)
  | .ubyte => .fixed 1 fun n => .ubyte (UInt8.ofNat n)
  | .byte => .fixed 1 fun n => .byte (UInt8.ofNat n).toInt8
  | .ushort => .fixed 2 fun n => .ushort (UInt16.ofNat n)
  | .short => .fixed 2 fun n => .short (UInt16.ofNat n).toInt16
  | .uint => .fixed 4 fun n => .uint (UInt32.ofNat n)
  | .int => .fixed 4 fun n => .int (UInt32.ofNat n).toInt32
  | .ulong => .fixed 8 fun n => .ulong (UInt64.ofNat n)
  | .long => .fixed 8 fun n => .long (UInt64.ofNat n).toInt64
  | .float => .fixed 4 fun n => .float (UInt32.ofNat n)
  | .double => .fixed 8 fun n => .double (UInt64.ofNat n)
  | .string => .counted fun bytes => .string (fromUtf8Lossy bytes)
  | .bytes => .counted .bytes

/-- A pop at `i` returns `v` and leaves the cursor at `j`. -/
def Popped (data : List UInt8) (kind : Kind) (i : ℕ) (v : Value) (j : ℕ) : Prop :=
  match layout kind with
  | .fixed w value => ∃ n, Fixed data w i n j ∧ v = value n
  | .counted value => ∃ bytes, Counted data i bytes j ∧ v = value bytes

/-- A sequence of pops; the cursor only moves forward and stays inside the buffer. -/
inductive Run (data : List UInt8) : ℕ → List Kind → List Value → ℕ → Prop
  | nil (i : ℕ) : Run data i [] [] i
  | cons {i j k : ℕ} {kind : Kind} {v : Value} {kinds : List Kind} {values : List Value}
      (hpop : Popped data kind i v j) (hforward : i ≤ j) (hinside : j ≤ data.length)
      (hrest : Run data j kinds values k) : Run data i (kind :: kinds) (v :: values) k

section Positions

variable {data : List UInt8} {w i j k n : ℕ} {bytes : List UInt8} {kind : Kind} {v : Value}

theorem Fixed.bounds (h : Fixed data w i n j) (hi : i ≤ data.length) :
    i ≤ j ∧ j ≤ data.length := by
  cases h with
  | read _ hlt hfit hbytes => exact ⟨Nat.le_add_right i w,hfit⟩
  | short hshort => exact ⟨le_rfl,hi⟩

theorem Counted.bounds (h : Counted data i bytes j) (hi : i ≤ data.length) :
    i ≤ j ∧ j ≤ data.length := by
  cases h with
  | slice n hlen hfit => exact ⟨by omega,hfit⟩
  | tooLong n hlen hlong => exact hlen.bounds hi
  | short hshort => exact ⟨le_rfl,hi⟩

theorem Popped.bounds (h : Popped data kind i v j) (hi : i ≤ data.length) :
    i ≤ j ∧ j ≤ data.length := by
  rw [Popped] at h
  split at h
  · obtain ⟨n,hfixed,-⟩ := h
    exact hfixed.bounds hi
  · obtain ⟨bytes,hcounted,-⟩ := h
    exact hcounted.bounds hi

theorem Run.bounds {kinds : List Kind} {values : List Value} (h : Run data i kinds values k)
    (hi : i ≤ data.length) : i ≤ k ∧ k ≤ data.length := by
  induction h with
  | nil i => exact ⟨le_rfl,hi⟩
  | cons hpop hforward hinside hrest ih =>
    obtain ⟨hle,hend⟩ := ih hinside
    exact ⟨hforward.trans hle,hend⟩

end Positions

section Plain

variable (m : Message)

theorem popFixed_spec (w : ℕ) :
    ∃ n j, m.popFixed w = (n,{ m with index := j }) ∧ Fixed m.data w m.index n j := by
  rw [Message.popFixed]
  split
  next hshort => exact ⟨0,m.index,rfl,.short hshort⟩
  next hfits =>
    have hfit : m.index + w ≤ m.data.length := Nat.le_of_not_gt hfits
    have hlength : ((m.data.drop m.index).take w).length = w := by
      rw [List.length_take,List.length_drop]
      omega
    have hlt := LittleEndian.decode_lt ((m.data.drop m.index).take w)
    have hback := LittleEndian.encode_decode ((m.data.drop m.index).take w)
    rw [hlength] at hlt hback
    exact ⟨_,_,rfl,.read _ hlt hfit hback.symm⟩

theorem popBytes_spec :
    ∃ bytes j, m.popBytes = (bytes,{ m with index := j }) ∧ Counted m.data m.index bytes j := by
  obtain ⟨n,j,hpop,hfixed⟩ := popFixed_spec m 8
  cases hfixed with
  | short hshort =>
    refine ⟨[],m.index,?_,.short hshort⟩
    simp [Message.popBytes,Message.popUlong,hpop]
  | read _ hlt hfit hbytes =>
    have hlen : (UInt64.ofNat n).toNat = n := by simpa using Nat.mod_eq_of_lt hlt
    have hprefix := Fixed.read n hlt hfit hbytes
    simp only [Message.popBytes,Message.popUlong,hpop,hlen]
    split
    next hzero =>
      subst hzero
      exact ⟨_,_,rfl,.slice 0 hprefix hfit⟩
    next =>
      split
      next hlong => exact ⟨_,_,rfl,.tooLong n hprefix (by omega)⟩
      next hfits => exact ⟨_,_,rfl,.slice n hprefix (by omega)⟩

theorem kind_pop_eq (kind : Kind) :
    kind.pop m = match layout kind with
      | .fixed w value => (value (m.popFixed w).1,(m.popFixed w).2)
      | .counted value => (value m.popBytes.1,m.popBytes.2) := by
  cases kind <;> rfl

theorem kind_pop_spec (kind : Kind) :
    ∃ v j, kind.pop m = (v,{ m with index := j }) ∧ Popped m.data kind m.index v j := by
  rw [kind_pop_eq]
  simp only [Popped]
  cases layout kind with
  | fixed w value =>
    obtain ⟨n,j,hpop,hfixed⟩ := popFixed_spec m w
    exact ⟨value n,j,by simp only [hpop],n,hfixed,rfl⟩
  | counted value =>
    obtain ⟨bytes,j,hpop,hcounted⟩ := popBytes_spec m
    exact ⟨value bytes,j,by simp only [hpop],bytes,hcounted,rfl⟩

/-- The header is popped like any other string and number. -/
theorem fromData_spec (data : List UInt8) :
    ∃ id source j, Message.fromData data = ⟨id,source,.lowest,data,j⟩ ∧
      Run data 0 [.string,.uint] [.string source,.uint id] j := by
  obtain ⟨bytes,i,hbytes,hcounted⟩ := popBytes_spec ⟨0,"",.lowest,data,0⟩
  obtain ⟨n,j,hn,hfixed⟩ := popFixed_spec ⟨0,fromUtf8Lossy bytes,.lowest,data,i⟩ 4
  have hi := hcounted.bounds (Nat.zero_le _)
  have hj := hfixed.bounds hi.2
  have hid : Run data i [.uint] [.uint (UInt32.ofNat n)] j :=
    .cons ⟨n,hfixed,rfl⟩ hj.1 hj.2 (.nil j)
  refine ⟨UInt32.ofNat n,fromUtf8Lossy bytes,j,?_,.cons ⟨bytes,hcounted,rfl⟩ hi.1 hi.2 hid⟩
  simp only [Message.fromData,Message.popString,hbytes,Message.popUint,hn]

end Plain

section NoPanic

variable {m : Message}

/-- Positions inside the buffer are 64-bit numbers, and so are those a few bytes past it. -/
theorem Reading.add_ok (hm : Reading m) {w : ℕ} (hw : w ≤ 8) :
    add m.index w = .ok (m.index + w) := by
  have hmax := hm.length_le
  have hindex := hm.index_le
  apply CheckedSlice.add_ok
  simp only [allocationMax] at hmax
  simp only [sizeBound]
  omega

theorem popCursor_ok (hm : Reading m) {w : ℕ} (hw : w ≤ 8) (traced : Bool) :
    popCursor w traced m = .ok (m.popFixed w) := by
  simp only [popCursor,Message.popFixed,hm.add_ok hw,ok_bind]
  split
  next => rfl
  next hfits =>
    have hread := readExact_sliceFrom_ok (Nat.le_of_not_gt hfits)
    have htrace := sub_ok (Nat.le_add_left w m.index)
    simp only [hread,ok_bind,htrace]
    cases traced <;> rfl

theorem popUbyte_ok (hm : Reading m) : popUbyte m = .ok m.popUbyte := by
  simp only [popUbyte,Message.popUbyte,Message.popFixed,hm.add_ok (show 1 ≤ 8 by decide),ok_bind]
  split
  next => rfl
  next hfits =>
    obtain ⟨x,htake,hitem⟩ := item_ok (Nat.le_of_not_gt hfits)
    have htrace := sub_ok (Nat.le_add_left 1 m.index)
    simp only [hitem,ok_bind,htrace,htake,LittleEndian.decode_singleton,UInt8.ofNat_toNat]
    rfl

theorem popByte_ok (hm : Reading m) : popByte m = .ok m.popByte := by
  simp only [popByte,Message.popByte,Message.popFixed,hm.add_ok (show 1 ≤ 8 by decide),ok_bind]
  split
  next => rfl
  next hfits =>
    obtain ⟨x,htake,hitem⟩ := item_ok (Nat.le_of_not_gt hfits)
    simp only [hitem,ok_bind,htake,LittleEndian.decode_singleton,UInt8.ofNat_toNat]
    rfl

theorem popBytes_ok (hm : Reading m) : popBytes m = .ok m.popBytes := by
  have hulong : popUlong m = .ok m.popUlong := by
    rw [popUlong,popCursor_ok hm le_rfl]
    rfl
  obtain ⟨n,j,hpop,hfixed⟩ := popFixed_spec m 8
  have hbounds := hfixed.bounds hm.index_le
  have hmax := hm.length_le
  simp only [allocationMax] at hmax
  rw [popBytes,hulong,ok_bind,Message.popBytes,Message.popUlong,hpop]
  dsimp only
  split
  next => rfl
  next =>
    split
    next => rfl
    next hfits =>
      have hfit : j + (UInt64.ofNat n).toNat ≤ m.data.length := by omega
      have hadd : add j (UInt64.ofNat n).toNat = .ok (j + (UInt64.ofNat n).toNat) := by
        apply add_ok
        simp only [sizeBound]
        omega
      simp only [hadd,ok_bind,slice_ok hfit]
      rfl

/-- On a message in memory no check of a pop fails, and the pop does what `Messaging` says. -/
theorem pop_ok (hm : Reading m) (kind : Kind) : pop kind m = .ok (kind.pop m) := by
  cases kind with
  | bool => simp only [pop,popBool,popUbyte_ok hm,ok_bind]; rfl
  | ubyte => simp only [pop,popUbyte_ok hm,ok_bind]; rfl
  | byte => simp only [pop,popByte_ok hm,ok_bind]; rfl
  | ushort => simp only [pop,popUshort,popCursor_ok hm (show 2 ≤ 8 by decide),ok_bind]; rfl
  | short => simp only [pop,popShort,popCursor_ok hm (show 2 ≤ 8 by decide),ok_bind]; rfl
  | uint => simp only [pop,popUint,popCursor_ok hm (show 4 ≤ 8 by decide),ok_bind]; rfl
  | int => simp only [pop,popInt,popCursor_ok hm (show 4 ≤ 8 by decide),ok_bind]; rfl
  | ulong => simp only [pop,popUlong,popCursor_ok hm le_rfl,ok_bind]; rfl
  | long => simp only [pop,popLong,popCursor_ok hm le_rfl,ok_bind]; rfl
  | float => simp only [pop,popFloat,popCursor_ok hm (show 4 ≤ 8 by decide),ok_bind]; rfl
  | double => simp only [pop,popDouble,popCursor_ok hm le_rfl,ok_bind]; rfl
  | string => simp only [pop,popString,popBytes_ok hm,ok_bind]; rfl
  | bytes => simp only [pop,popBytes_ok hm,ok_bind]; rfl

theorem pop_spec (hm : Reading m) (kind : Kind) :
    ∃ v j, pop kind m = .ok (v,{ m with index := j }) ∧ Popped m.data kind m.index v j ∧
      m.index ≤ j ∧ j ≤ m.data.length := by
  obtain ⟨v,j,hpop,hpopped⟩ := kind_pop_spec m kind
  exact ⟨v,j,by rw [pop_ok hm,hpop],hpopped,hpopped.bounds hm.index_le⟩

theorem popAll_spec (hm : Reading m) (kinds : List Kind) :
    ∃ values k, popAll kinds m = .ok (values,{ m with index := k }) ∧
      Run m.data m.index kinds values k := by
  induction kinds generalizing m with
  | nil => exact ⟨[],m.index,rfl,.nil m.index⟩
  | cons kind kinds ih =>
    obtain ⟨v,j,hpop,hpopped,hforward,hinside⟩ := pop_spec hm kind
    obtain ⟨values,k,hrest,hrun⟩ := ih (m := { m with index := j }) ⟨hm.length_le,hinside⟩
    refine ⟨v :: values,k,?_,.cons hpopped hforward hinside hrun⟩
    simp only [popAll,hpop,ok_bind,hrest]
    rfl

theorem fromData_ok (b : Buffer) : fromData b.bytes = .ok (Message.fromData b.bytes) := by
  have hm : Reading ⟨0,"",.lowest,b.bytes,0⟩ := ⟨b.length_le,Nat.zero_le _⟩
  obtain ⟨bytes,i,hbytes,hcounted⟩ := popBytes_spec ⟨0,"",.lowest,b.bytes,0⟩
  have hi := (hcounted.bounds hm.index_le).2
  have hm' : Reading ⟨0,fromUtf8Lossy bytes,.lowest,b.bytes,i⟩ := ⟨b.length_le,hi⟩
  obtain ⟨n,j,hn,hfixed⟩ := popFixed_spec ⟨0,fromUtf8Lossy bytes,.lowest,b.bytes,i⟩ 4
  have hsource : popString ⟨0,"",.lowest,b.bytes,0⟩ =
      .ok (fromUtf8Lossy bytes,⟨0,"",.lowest,b.bytes,i⟩) := by
    rw [popString,popBytes_ok hm,ok_bind,hbytes]
    rfl
  have hid : popUint ⟨0,fromUtf8Lossy bytes,.lowest,b.bytes,i⟩ =
      .ok (UInt32.ofNat n,⟨0,fromUtf8Lossy bytes,.lowest,b.bytes,j⟩) := by
    rw [popUint,popCursor_ok hm' (by decide),ok_bind,hn]
    rfl
  -- the remaining length in the debug line does not underflow
  have hleft : sub b.bytes.length j = .ok (b.bytes.length - j) := sub_ok (hfixed.bounds hi).2
  simp only [fromData,hsource,ok_bind,hid,hleft]
  simp only [Message.fromData,Message.popString,hbytes,Message.popUint,hn]
  rfl

end NoPanic

/-- Decoding arbitrary bytes is safe: parsing any buffer and then popping any sequence of
values returns, with every value the one its place in the buffer gives it, the buffer as it
was, and the cursor between where it was and the end. -/
theorem decoding_safe (b : Buffer) (kinds : List Kind) :
    ∃ start values final, fromData b.bytes = .ok start ∧
      popAll kinds start = .ok (values,final) ∧
      Run b.bytes 0 [.string,.uint] [.string start.source,.uint start.id] start.index ∧
      Run b.bytes start.index kinds values final.index ∧
      start.data = b.bytes ∧ final.data = b.bytes ∧
      start.index ≤ final.index ∧ final.index ≤ b.bytes.length ∧
      final.remainingLen + final.index = b.bytes.length := by
  obtain ⟨id,source,i,hparsed,hheader⟩ := fromData_spec b.bytes
  have hstart := fromData_ok b
  rw [hparsed] at hstart
  have hi := (hheader.bounds (Nat.zero_le _)).2
  obtain ⟨values,k,hall,hrun⟩ :=
    popAll_spec (m := ⟨id,source,.lowest,b.bytes,i⟩) ⟨b.length_le,hi⟩ kinds
  have hk := hrun.bounds hi
  exact ⟨_,values,_,hstart,hall,hheader,hrun,rfl,rfl,hk.1,hk.2,Nat.sub_add_cancel hk.2⟩

/-- The largest length prefix is refused without an overflow. -/
example : (pop .bytes ⟨0,"",.lowest,List.replicate 8 255,0⟩).map (fun r => (r.1,r.2.index)) =
    .ok (.bytes [],8) := by decide

end MessageDecoding
end JobControllerClient
