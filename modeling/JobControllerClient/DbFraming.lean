import JobControllerClient.DbRecords
import JobControllerClient.WebsocketTasks

/-! The frames of the database protocol: a request id stands between the header and the
payload, and both sides find the payload again whatever the header and the payload are. -/
namespace JobControllerClient
namespace DbFraming

open Messaging WireRoundTrip Websocket DbRecords

/-- A header, a request id, and a payload of raw bytes. -/
def framed (id : UInt32) (priority : Priority) (source : String) (k : UInt32)
    (payload : List UInt8) : Message :=
  ((Message.new id priority source).pushUint k).appendRawBytes payload

variable {id k : UInt32} {priority : Priority} {source : String} {payload : List UInt8}

theorem framed_data : (framed id priority source k payload).data =
    (Message.new id priority source).data ++ (LittleEndian.encode 4 k.toNat ++ payload) := by
  simp [framed,Message.pushUint,Message.pushFixed,Message.appendRawBytes]

theorem fromData_framed (id : UInt32) (priority : Priority)
    (hs : (utf8 source).length ≤ allocationMax) (k : UInt32) (payload : List UInt8) :
    let d := Message.fromData (framed id priority source k payload).data
    d.id = id ∧ d.source = source ∧ d.popUint.1 = k ∧ d.popUint.2.unread = payload ∧
      d.popUint.2.index ≠ 0 := by
  have hparsed := fromData_new id priority hs (LittleEndian.encode 4 k.toNat ++ payload)
  rw [← framed_data] at hparsed
  rw [hparsed]
  intro d
  have hd : d.data = (Message.new id priority source).data ++
    (LittleEndian.encode 4 k.toNat ++ payload) := framed_data
  have hpop := reads_uint k d (Message.new id priority source).data payload
    (by simp [hd]) rfl
  refine ⟨rfl,rfl,by rw [hpop],?_,?_⟩
  · have hlength : (Message.new id priority source).data.length + 4 =
        ((Message.new id priority source).data ++ LittleEndian.encode 4 k.toNat).length := by simp
    simp only [hpop,Message.unread,hd,LittleEndian.encode_length]
    rw [hlength,← List.append_assoc,List.drop_left]
  · rw [hpop]
    simp

/-- The thread is in a call of `send_db_request` for `message`. -/
def Requests (message : Message) : Task → Prop
  | .request (.called m) | .request (.checkReady m) | .request (.fetchId m)
  | .request (.register _ m) => m = message
  | .request _ => True
  | .queueing (.called source data priority) (some k) =>
    source = dbSource ∧ data = wrap message k ∧ priority = .highest
  | .queueing (.check item) (some k) | .queueing (.lock item) (some k) =>
    item.source = dbSource ∧ item.data = wrap message k ∧ item.priority = .highest
  | .queueing _ (some _) => True
  | _ => False

theorem requests_exec {message : Message} {x x' : Client} {i : ℕ} {t t' : Task} {c : Choice}
    {new : List Task} (h : Requests message t) (he : system.exec x i t c = some (x',t',new)) :
    Requests message t' := by
  simp only [system,exec,Option.bind_eq_some_iff,Option.map_eq_some_iff,Prod.mk.injEq] at he
  obtain ⟨n,hn,⟨y,r⟩,hr,rfl,rfl,-⟩ := he
  cases t <;> simp only [Requests] at h
  case queueing pc key =>
    cases key with
    | none => cases pc <;> exact h.elim
    | some k =>
      cases pc <;> cases c <;> cases hn
      case called.go.refl =>
        cases hr
        exact h
      case check.go.refl =>
        dsimp only
        split
        · trivial
        · exact h
      all_goals trivial
  case request pc =>
    cases pc <;> cases c <;> cases hn
    case register.go.refl => exact ⟨rfl,congrArg (wrap · _) h,rfl⟩
    all_goals
      dsimp only
      (try split) <;> trivial

theorem wrap_framed {values : List Value} (hs : (utf8 source).length ≤ allocationMax) :
    wrap (pushAll (.new id priority source) values) k =
      (framed id priority source k (values.flatMap Value.block)).data := by
  have hpayload := clonePayloadBytes_pushAll id priority hs values
  rw [wrap,hpayload,pushAll_eq]
  rfl

theorem respond_exec {m : Message} (hid : m.id = MessageId.dbResponse) {x : Client} {j : ℕ}
    (hj : x.dbRequestPromises.lookup m.popUint.1 = some j) (hwaiting : x.channels j = .waiting)
    (i conn f : ℕ) :
    exec x i (.reader conn (dispatch f m)) .go = some (x.respond m f,.reader conn .next,[]) ∧
      (x.respond m f).channels j = .answered m.popUint.2 f := by
  have hdispatch : dispatch f m = .respond f m := by
    rw [dispatch,hid,if_neg (by decide),if_pos rfl]
  refine ⟨by rw [hdispatch]; rfl,?_⟩
  simp only [Client.respond,Client.onOwner,hj,if_true,hwaiting,Oneshot.send]

theorem parseResponse_unread {m : Message} (h : m.index ≠ 0) :
    (parseResponse m).unread = m.unread := by
  rw [parseResponse,Message.cloneForPayloadReading,if_neg h]

/-- The bytes that a call of `send_db_request` is about to queue decode to the message's
header, the request id and the message's payload; and a response is delivered to its
request such that `parse_response` leaves exactly its payload unread. -/
theorem framing_preserves_payload (source : String)
    (hs : (utf8 source).length ≤ allocationMax) (k : UInt32) :
    (∀ (id : UInt32) (priority : Priority) (values : List Value) (s s' : State)
        (moves : List Move) (i : ℕ) (item : Item),
      let m := pushAll (.new id priority source) values
      s.threads[i]? = some (.request (.called m)) → system.machine.run s moves = some s' →
      s'.threads[i]? = some (.queueing (.lock item) (some k)) →
      let d := Message.fromData item.data
      d.id = id ∧ d.source = source ∧ d.popUint.1 = k ∧
        (Message.new id priority source).data ++ d.popUint.2.unread = m.data) ∧
    ∀ (priority : Priority) (payload : List UInt8) (x : Client) (i conn f j : ℕ),
      x.dbRequestPromises.lookup k = some j → x.channels j = .waiting →
      ∃ x' d, exec x i (.reader conn (dispatch f
          (.fromData (framed MessageId.dbResponse priority source k payload).data))) .go =
            some (x',.reader conn .next,[]) ∧
        x'.channels j = .answered d f ∧ (parseResponse d).unread = payload := by
  constructor
  case right =>
    intro priority payload x i conn f j hj hwaiting
    obtain ⟨hid,-,hk,hunread,hindex⟩ :=
      fromData_framed MessageId.dbResponse priority hs k payload
    rw [← hk] at hj
    obtain ⟨hexec,hchannel⟩ := respond_exec hid hj hwaiting i conn f
    exact ⟨_,_,hexec,hchannel,(parseResponse_unread hindex).trans hunread⟩
  intro id priority values s s' moves i item m hs₀ hrun hs'
  obtain ⟨t,ht,hR⟩ := Interleaving.thread_along (R := Requests m)
    (fun _ _ _ _ _ _ h he => requests_exec h he) ⟨_,hs₀,rfl⟩ hrun
  obtain rfl := Option.some.inj (ht.symm.trans hs')
  rw [hR.2.1,wrap_framed hs]
  obtain ⟨hid,hsource,hk,hunread,-⟩ :=
    fromData_framed id priority hs k (values.flatMap Value.block)
  refine ⟨hid,hsource,hk,?_⟩
  rw [hunread]
  exact congrArg Message.data (pushAll_eq _ values).symm

def rowSeven : Message :=
  pushAll (.new MessageId.dbJobGetById .highest databaseSource) [.ulong 7]

theorem framing_preserves_payload_rowSeven :
    (∃ (s s' : State) (item : Item), s.threads[0]? = some (.request (.called rowSeven)) ∧
      system.machine.run s (going 0 6) = some s' ∧
      s'.threads[0]? = some (.queueing (.lock item) (some 0)) ∧
      (Message.new MessageId.dbJobGetById .highest databaseSource).data ++
        (Message.fromData item.data).popUint.2.unread = rowSeven.data) ∧
    ∃ (x : Client) (d : Message), x.channels 0 = .answered d 0 ∧ (parseResponse d).unread = [1,2] := by
  have hs : (utf8 databaseSource).length ≤ allocationMax := by decide
  constructor
  · let s : State := ⟨{ Client.new with serverReady := true },[.request (.called rowSeven)]⟩
    let item : Item := ⟨dbSource,wrap rowSeven 0,.highest,0,0⟩
    let s' : State := ⟨{ Client.new.register 0 0 with serverReady := true, dbRequestCounter := 1 },
      [.queueing (.lock item) (some 0)]⟩
    have hrun : system.machine.run s (going 0 6) = some s' := rfl
    obtain ⟨-,-,-,hpayload⟩ := (framing_preserves_payload databaseSource hs 0).1
      MessageId.dbJobGetById .highest [.ulong 7] s s' _ 0 item rfl hrun rfl
    exact ⟨s,s',item,rfl,hrun,rfl,hpayload⟩
  · obtain ⟨x,d,-,hx,hd⟩ := (framing_preserves_payload databaseSource hs 0).2 .lowest [1,2]
      (Client.new.register 0 0) 1 1 0 0 rfl rfl
    exact ⟨x,d,hx,hd⟩

end DbFraming
end JobControllerClient
