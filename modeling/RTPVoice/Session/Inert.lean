import RTPVoice.Framework.Purge
import RTPVoice.Json.Conversions
import RTPVoice.Session.Refinement

namespace RTPVoice.Session

open Framework Json ClientObj

/-- What a client's message says; each kind has the members of its name. -/
structure ClientMessage where
  identifier : String
  type : String
  name : String
  key : String
  channel1 : Int16
  channel2 : Int16
  src : Int32
  dst : Int32
  channel : String
  deriving DecidableEq

def ClientMessage.isRequest (m : ClientMessage) : Bool := m.type = "Request"

/-- `val` is a well-typed document of the message. -/
structure Tells (val : Value) (m : ClientMessage) : Prop where
  identifier : val.Has "identifier" (.stringValue m.identifier)
  type : val.Has "type" (.stringValue m.type)
  name : val.Has "name" (.stringValue m.name)
  connect : m.name = "Connect" →
    val.Has "key" (.stringValue m.key) ∨ val.Lacks "key" ∧ m.key = ""
  listening : m.name = "Listening" → ∃ param listening, val.Has "param" param ∧
    param.Has "listening" listening ∧ listening.Has "channel1" (.intValue m.channel1.toInt) ∧
    listening.Has "channel2" (.intValue m.channel2.toInt)
  call : m.name ∈ callNames → ∃ param, val.Has "param" param ∧
    param.Has "src" (.intValue m.src.toInt) ∧ param.Has "dst" (.intValue m.dst.toInt) ∧
    param.Has "channel" (.stringValue m.channel)

/-- A packet, with what it says. -/
abbrev Received := List UInt8 × ClientMessage

def Received.WellTyped (lib : Library) (x : Received) : Prop :=
  ∃ val, lib.parse (cString (jsonData x.1)) = some val ∧ Tells val x.2

/-- The invocations of `RequestCallBackFunc` for the packets taken, up to the first packet that
does not come to its end. -/
def callbacks (lib : Library) (c : ProtocolCtrlr) :
    List (List UInt8) → List (ProtocolNames × ResponeData)
  | [] => []
  | slot :: slots =>
    match c.takePacket lib slot with
    | none => []
    | some (c, none) => callbacks lib c slots
    | some (c, some call) => call :: callbacks lib c slots

/-! ### The values of the latest messages -/

def latest (names : List String) (ms : List ClientMessage) : Option ClientMessage :=
  (ms.filter fun m => m.name ∈ names).getLast?

def latestKey (ms : List ClientMessage) : String :=
  (latest ["Connect"] ms).elim "" ClientMessage.key

def latestChannels (ms : List ClientMessage) : Int16 × Int16 :=
  (latest ["Listening"] ms).elim (0, 0) fun m => (m.channel1, m.channel2)

def latestCall (ms : List ClientMessage) : Int32 × Int32 × String :=
  (latest callNames ms).elim (9, 65536, "") fun m => (m.src, m.dst, m.channel)

/-- The latest values of each kind are those of requests. -/
structure Undisturbed (ms : List ClientMessage) : Prop where
  key : latestKey ms = latestKey (ms.filter ClientMessage.isRequest)
  channels : latestChannels ms = latestChannels (ms.filter ClientMessage.isRequest)
  call : latestCall ms = latestCall (ms.filter ClientMessage.isRequest)

/-! ### What is remembered of the messages -/

/-- The fields of `thePROTOCOL_Ctrlr` that outlive a message. -/
structure Memory where
  key : String
  channels : Int16 × Int16
  call : Int32 × Int32 × String
  deriving DecidableEq

def Memory.initial : Memory := ⟨"", (0, 0), (9, 65536, "")⟩

def Memory.next (μ : Memory) (m : ClientMessage) : Memory :=
  if m.name = "Connect" then { μ with key := m.key }
  else if m.name = "Listening" then { μ with channels := (m.channel1, m.channel2) }
  else if m.name ∈ callNames then { μ with call := (m.src, m.dst, m.channel) }
  else μ

/-- What `RequestCallBackFunc` is called with for the request `x`. -/
def Memory.answer (μ : Memory) (x : Received) : Option (ProtocolNames × ResponeData) :=
  (statemap.lookup x.2.name).map fun command => (command, {
    socketFd := clientFd x.1
    identifier := x.2.identifier
    key := μ.key
    channelId := μ.call.2.2
    channel1GroupId := μ.channels.1
    channel2GroupId := μ.channels.2
    srcId := μ.call.1
    dstId := μ.call.2.1
    status := ""
    reason := "" })

theorem latest_snoc {names : List String} {ms : List ClientMessage} {m : ClientMessage} :
    latest names (ms ++ [m]) = if m.name ∈ names then some m else latest names ms := by
  unfold latest
  rw [List.filter_append]
  split
  · next h => simp [h]
  · next h => simp [h]

/-- After any messages the memory has the latest values. -/
theorem foldl_next (ms : List ClientMessage) :
    ms.foldl Memory.next .initial = ⟨latestKey ms, latestChannels ms, latestCall ms⟩ := by
  induction ms using List.reverseRecOn with
  | nil => rfl
  | append_singleton ms m ih =>
    rw [List.foldl_append, ih]
    simp only [List.foldl_cons, List.foldl_nil, Memory.next, latestKey, latestChannels, latestCall,
      latest_snoc]
    split
    · next h => simp [h, callNames]
    · next hconnect =>
      split
      · next h => simp [h, callNames]
      · next hlistening =>
        split
        · next h => simp [hconnect, hlistening]
        · next h => simp [hconnect, hlistening]

/-! ### The program's memory -/

/-- `thePROTOCOL_Ctrlr` has what is remembered. -/
structure Remembers (c : ProtocolCtrlr) (μ : Memory) : Prop where
  key : c.key = μ.key
  channel1 : c.channel1GroupId = μ.channels.1.toInt32.toUInt32
  channel2 : c.channel2GroupId = μ.channels.2.toInt32.toUInt32
  src : c.src = μ.call.1.toUInt32
  dst : c.dst = μ.call.2.1.toUInt32
  channel : c.channel = μ.call.2.2

theorem remembers_initial : Remembers .initial .initial := ⟨rfl, rfl, rfl, rfl, rfl, rfl⟩

theorem intMember_has_int16 {lib : Library} (hlib : lib.Documented) {val : Value} {key : String}
    {n : Int16} (h : val.Has key (.intValue n.toInt)) :
    intMember lib val key = some n.toInt32 := by
  rw [← Int16.toInt_toInt32] at h
  exact intMember_has hlib h

/-- A message sets its own values, whatever its type, and keeps the rest. -/
theorem read_tells {lib : Library} (hlib : lib.Documented) {val : Value} {m : ClientMessage}
    (h : Tells val m) {c : ProtocolCtrlr} {μ : Memory} (hc : Remembers c μ) (fd : HSocket) :
    ∃ c', c.read lib fd val = some c' ∧ c'.clientfd = fd ∧ c'.identifier = m.identifier ∧
      c'.type = m.type ∧ c'.name = m.name ∧ Remembers c' (μ.next m) := by
  obtain ⟨hkey, hchannel1, hchannel2, hsrc, hdst, hchannel⟩ := hc
  have hcall : m.name = "CallRequest" ∨ m.name = "CallRelease" ∨ m.name = "CallStart" ∨
      m.name = "CallEnd" ↔ m.name ∈ callNames := by simp [callNames]
  simp only [ProtocolCtrlr.read, stringMember_has hlib h.identifier, stringMember_has hlib h.type,
    stringMember_has hlib h.name, Option.bind_eq_bind, Option.bind_some, Memory.next, hcall]
  split
  · next hname =>
    have hread : stringMember lib val "key" = some m.key := by
      cases h.connect hname with
      | inl hkey => exact stringMember_has hlib hkey
      | inr hlacks => rw [stringMember_lacks hlib hlacks.1, hlacks.2]
    rw [hread]
    exact ⟨_, rfl, rfl, rfl, rfl, rfl, rfl, hchannel1, hchannel2, hsrc, hdst, hchannel⟩
  · split
    · next hname =>
      obtain ⟨param, listening, hparam, hlistening, h₁, h₂⟩ := h.listening hname
      rw [hlib.member_has hparam, Option.bind_some, hlib.member_has hlistening, Option.bind_some,
        intMember_has_int16 hlib h₁, Option.bind_some, intMember_has_int16 hlib h₂]
      exact ⟨_, rfl, rfl, rfl, rfl, rfl, hkey, rfl, rfl, hsrc, hdst, hchannel⟩
    · split
      · next hname =>
        have hnot : m.name ∉ callNames := by simp [hname, callNames]
        rw [if_neg hnot]
        exact ⟨_, rfl, rfl, rfl, rfl, rfl, hkey, hchannel1, hchannel2, hsrc, hdst, hchannel⟩
      · split
        · next hname =>
          obtain ⟨param, hparam, hmsrc, hmdst, hmchannel⟩ := h.call hname
          rw [hlib.member_has hparam, Option.bind_some, intMember_has hlib hmsrc, Option.bind_some,
            intMember_has hlib hmdst, Option.bind_some, stringMember_has hlib hmchannel]
          exact ⟨_, rfl, rfl, rfl, rfl, rfl, hkey, hchannel1, hchannel2, rfl, rfl, rfl⟩
        · exact ⟨_, rfl, rfl, rfl, rfl, rfl, hkey, hchannel1, hchannel2, hsrc, hdst, hchannel⟩

theorem toInt16_groupId (n : Int16) : n.toInt32.toUInt32.toUInt16.toInt16 = n := by
  rw [← Int16.toInt_inj, toInt_groupId, signed16, Int16.toInt_toInt32]
  have hlo := n.le_toInt
  have hhi := n.toInt_lt
  exact Int.bmod_eq_of_le (by omega) (by omega)

/-- The callback's data are the message's own identifier and handle, and what is remembered. -/
theorem dataProcessFunc_answer {c : ProtocolCtrlr} {μ : Memory} {x : Received}
    (hc : Remembers c μ) (hfd : c.clientfd = clientFd x.1) (hid : c.identifier = x.2.identifier)
    (hname : c.name = x.2.name) : c.dataProcessFunc = μ.answer x := by
  rw [ProtocolCtrlr.dataProcessFunc, Memory.answer, hname, hfd, hid, hc.key, hc.channel,
    hc.channel1, hc.channel2, hc.src, hc.dst, toInt16_groupId, toInt16_groupId]
  cases statemap.lookup x.2.name <;> rfl

/-- The callbacks are the answers to the requests, from what is remembered of all messages. -/
theorem callbacks_eq {lib : Library} (hlib : lib.Documented) {received : List Received}
    (h : ∀ x ∈ received, x.WellTyped lib) {c : ProtocolCtrlr} {μ : Memory} (hc : Remembers c μ) :
    callbacks lib c (received.map Prod.fst) =
      Purge.outputs (fun μ x => μ.next x.2) (fun x => x.2.isRequest) Memory.answer μ received := by
  induction received generalizing c μ with
  | nil => rfl
  | cons x received ih =>
    obtain ⟨hx, hrest⟩ := List.forall_mem_cons.mp h
    obtain ⟨val, hparse, htells⟩ := hx
    obtain ⟨c', hread, hfd, hid, htype, hname, hc'⟩ := read_tells hlib htells hc (clientFd x.1)
    have hanswer := dataProcessFunc_answer hc' hfd hid hname
    rw [List.map_cons, callbacks, Purge.outputs]
    simp only [ProtocolCtrlr.takePacket, hparse, hread, htype, hanswer, Option.bind_eq_bind,
      Option.bind_some]
    by_cases hrequest : x.2.type = "Request"
    · have hvisible : x.2.isRequest = true := by simpa [ClientMessage.isRequest] using hrequest
      rw [if_pos hrequest, if_pos hvisible]
      cases (μ.next x.2).answer x with
      | none => rfl
      | some call => exact congrArg _ (ih hrest hc')
    · have hhidden : ¬ x.2.isRequest = true := by simpa [ClientMessage.isRequest] using hrequest
      rw [if_neg hrequest, if_neg hhidden]
      exact ih hrest hc'

/-! ### Deleting what is not a request -/

/-- A message of a name that `statemap` has. -/
def ClientMessage.known (m : ClientMessage) : Bool := (statemap.lookup m.name).isSome

/-- Without the messages that are not requests the callbacks are the same, and a query reports the
channels of the latest listening request. -/
def Inert (lib : Library) (received : List Received) : Prop :=
  callbacks lib .initial (received.map Prod.fst) =
    callbacks lib .initial ((received.filter fun x => x.2.isRequest).map Prod.fst) ∧
  ∀ k x call, (received.filter fun x => x.2.isRequest)[k]? = some x → x.2.name = "Query" →
    (callbacks lib .initial (received.map Prod.fst))[k]? = some call →
    (call.2.channel1GroupId, call.2.channel2GroupId) =
      latestChannels (((received.filter fun x => x.2.isRequest).take k).map Prod.snd)

/-- At every request that is answered, the latest values are those of requests. -/
def UndisturbedThroughout (received : List Received) : Prop :=
  Purge.AtAnswers (fun x : Received => x.2.isRequest) (fun x => x.2.known) received fun seen =>
    Undisturbed (seen.map Prod.snd)

theorem foldl_received (seen : List Received) :
    seen.foldl (fun μ x => μ.next x.2) Memory.initial =
      ⟨latestKey (seen.map Prod.snd), latestChannels (seen.map Prod.snd),
        latestCall (seen.map Prod.snd)⟩ := by
  rw [← foldl_next, List.foldl_map]

theorem map_filter_received (seen : List Received) :
    (seen.filter fun x => x.2.isRequest).map Prod.snd =
      (seen.map Prod.snd).filter ClientMessage.isRequest := by
  rw [List.filter_map]
  rfl

theorem undisturbed_iff (seen : List Received) :
    seen.foldl (fun μ x => μ.next x.2) Memory.initial =
      (seen.filter fun x => x.2.isRequest).foldl (fun μ x => μ.next x.2) Memory.initial ↔
    Undisturbed (seen.map Prod.snd) := by
  rw [foldl_received, foldl_received, map_filter_received, Memory.mk.injEq]
  exact ⟨fun h => ⟨h.1, h.2.1, h.2.2⟩, fun h => ⟨h.key, h.channels, h.call⟩⟩

theorem answer_inj {μ μ' : Memory} {x : Received} {call : ProtocolNames × ResponeData}
    (h : μ.answer x = some call) (h' : μ'.answer x = some call) : μ = μ' := by
  obtain ⟨command, -, rfl⟩ := Option.map_eq_some_iff.mp h
  obtain ⟨command', -, he⟩ := Option.map_eq_some_iff.mp h'
  obtain ⟨key, ⟨c₁, c₂⟩, src, dst, channel⟩ := μ
  obtain ⟨key', ⟨c₁', c₂'⟩, src', dst', channel'⟩ := μ'
  simp only [Prod.mk.injEq, ResponeData.mk.injEq] at he
  simp [he]

/-- The callbacks to requests alone report the channels of the latest listening request. -/
theorem requests_report {lib : Library} (hlib : lib.Documented) {requests : List Received}
    (h : ∀ x ∈ requests, x.WellTyped lib) (hall : ∀ x ∈ requests, x.2.isRequest = true) {k : Nat}
    {x : Received} {call : ProtocolNames × ResponeData} (hx : requests[k]? = some x)
    (hquery : x.2.name = "Query")
    (hcall : (callbacks lib .initial (requests.map Prod.fst))[k]? = some call) :
    (call.2.channel1GroupId, call.2.channel2GroupId) =
      latestChannels ((requests.take k).map Prod.snd) := by
  rw [callbacks_eq hlib h remembers_initial] at hcall
  obtain ⟨x', hx', hanswer⟩ := Purge.outputs_getElem? hall hcall
  obtain rfl : x = x' := Option.some.inj (hx.symm.trans hx')
  obtain ⟨hk, rfl⟩ := List.getElem?_eq_some_iff.mp hx
  obtain ⟨command, -, rfl⟩ := Option.map_eq_some_iff.mp hanswer
  rw [foldl_received, List.take_succ_eq_append_getElem hk, List.map_append]
  simp [latestChannels, latest_snoc, hquery]

/-- Which values the callbacks have decides whether deleting changes them. -/
theorem callbacks_filter_iff {lib : Library} (hlib : lib.Documented) {received : List Received}
    (h : ∀ x ∈ received, x.WellTyped lib) :
    callbacks lib .initial (received.map Prod.fst) =
      callbacks lib .initial ((received.filter fun x => x.2.isRequest).map Prod.fst) ↔
    UndisturbedThroughout received := by
  have hpurge := @Purge.outputs_filter_iff Memory Received _ (fun μ x => μ.next x.2)
    (fun x => x.2.isRequest) Memory.answer (fun x => x.2.known) received
    (fun μ x _ => by simp [Memory.answer, ClientMessage.known])
    (fun μ μ' x y => answer_inj) .initial .initial
  simp only [undisturbed_iff] at hpurge
  rw [UndisturbedThroughout, ← hpurge, callbacks_eq hlib h remembers_initial,
    callbacks_eq hlib (fun x hx => h x (List.mem_of_mem_filter hx)) remembers_initial]

/-- Messages that are not requests are inert exactly when no request is answered with a value that
one of them has left. -/
theorem inert_iff (lib : Library) (received : List Received) (hlib : lib.Documented)
    (h : ∀ x ∈ received, x.WellTyped lib) :
    Inert lib received ↔ UndisturbedThroughout received := by
  rw [← callbacks_filter_iff hlib h]
  constructor
  · exact fun hinert => hinert.1
  · intro he
    refine ⟨he, fun k x call hx hquery hcall => ?_⟩
    rw [he] at hcall
    refine requests_report hlib (fun y hy => h y (List.mem_of_mem_filter hy)) (fun y hy => ?_) hx
      hquery hcall
    exact (List.mem_filter.mp hy).2

/-! ### Two messages -/

private def replyText : List UInt8 :=
  asciiBytes ("\x7b\"identifier\":\"1\",\"name\":\"Listening\",\"param\":" ++
    "\x7b\"listening\":\x7b\"channel1\":5,\"channel2\":6\x7d\x7d,\"type\":\"Reply\"\x7d")

private def replyValue : Value :=
  .objectValue [("identifier", .stringValue "1"), ("name", .stringValue "Listening"),
    ("param", .objectValue
      [("listening", .objectValue [("channel1", .intValue 5), ("channel2", .intValue 6)])]),
    ("type", .stringValue "Reply")]

private def reply : ClientMessage := ⟨"1", "Reply", "Listening", "", 5, 6, 0, 0, ""⟩

private def requestText : List UInt8 :=
  asciiBytes "\x7b\"identifier\":\"2\",\"name\":\"Query\",\"type\":\"Request\"\x7d"

private def requestValue : Value :=
  .objectValue [("identifier", .stringValue "2"), ("name", .stringValue "Query"),
    ("type", .stringValue "Request")]

private def request : ClientMessage := ⟨"2", "Request", "Query", "", 0, 0, 0, 0, ""⟩

private def twoTexts : Library :=
  .withParser fun text => [(replyText, replyValue), (requestText, requestValue)].lookup text

private theorem reply_wellTyped :
    Received.WellTyped twoTexts ([0x35, 0, 0, 0] ++ replyText, reply) := by
  refine ⟨replyValue, ?_, ⟨_, rfl, rfl⟩, ⟨_, rfl, rfl⟩, ⟨_, rfl, rfl⟩, ?_, ?_, ?_⟩
  · rw [cString_jsonData rfl (by decide +kernel) (by decide +kernel)]
    rfl
  · exact fun h => absurd h (by decide)
  · exact fun _ => ⟨_, _, ⟨_, rfl, rfl⟩, ⟨_, rfl, rfl⟩, ⟨_, rfl, rfl⟩, ⟨_, rfl, rfl⟩⟩
  · exact fun h => absurd h (by decide)

private theorem request_wellTyped :
    Received.WellTyped twoTexts ([0x35, 0, 0, 0] ++ requestText, request) := by
  refine ⟨requestValue, ?_, ⟨_, rfl, rfl⟩, ⟨_, rfl, rfl⟩, ⟨_, rfl, rfl⟩, ?_, ?_, ?_⟩
  · rw [cString_jsonData rfl (by decide +kernel) (by decide +kernel)]
    rfl
  · exact fun h => absurd h (by decide)
  · exact fun h => absurd h (by decide)
  · exact fun h => absurd h (by decide)

/-- A query behind a message of type "Reply" reports the channels of that message. -/
theorem reply_not_inert : ∃ (lib : Library) (received : List Received), lib.Documented ∧
    (∀ x ∈ received, x.WellTyped lib) ∧
    received.map Prod.snd = [⟨"1", "Reply", "Listening", "", 5, 6, 0, 0, ""⟩,
      ⟨"2", "Request", "Query", "", 0, 0, 0, 0, ""⟩] ∧
    ¬ Inert lib received := by
  have hwell : ∀ x ∈ [([0x35, 0, 0, 0] ++ replyText, reply),
      ([0x35, 0, 0, 0] ++ requestText, request)], Received.WellTyped twoTexts x :=
    List.forall_mem_cons.mpr ⟨reply_wellTyped, List.forall_mem_singleton.mpr request_wellTyped⟩
  refine ⟨twoTexts, _, Library.withParser_documented _, hwell, rfl, fun hinert => ?_⟩
  have hall := (callbacks_filter_iff (Library.withParser_documented _) hwell).mp hinert.1
  rw [UndisturbedThroughout, Purge.atAnswers_cons_hidden rfl,
    Purge.atAnswers_cons_visible rfl rfl] at hall
  exact absurd hall.1.channels (by decide)

/-- A query in front of the reply. -/
theorem inert_iff_query_first : ∃ lib : Library, Inert lib
    [([0x35, 0, 0, 0] ++ requestText, request), ([0x35, 0, 0, 0] ++ replyText, reply)] := by
  refine ⟨twoTexts, (inert_iff twoTexts _ (Library.withParser_documented _)
    (List.forall_mem_cons.mpr
      ⟨request_wellTyped, List.forall_mem_singleton.mpr reply_wellTyped⟩)).mpr ?_⟩
  rw [UndisturbedThroughout, Purge.atAnswers_cons_visible rfl rfl,
    Purge.atAnswers_cons_hidden rfl]
  exact ⟨⟨rfl, rfl, rfl⟩, Purge.atAnswers_nil⟩

end RTPVoice.Session
