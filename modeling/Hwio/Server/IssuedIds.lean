import Hwio.Server.DeviceIds

/-!
Contract: what the handlers make of the ids that a connection was given.

Owns the acceptance of an id by the five handlers that resolve one, and when all
of them accept an id from an earlier reply.

Does not own how ids are given.
-/

namespace Hwio

open Library

variable {World : Type}

/-! ## Requests that name a device -/

/-- The device that a request names: every handler that resolves an id accepts
it in a request that is long enough, and acts on that device if on any.  An
unknown function is reported as such, and not as a wrong id. -/
structure Addressed (tables : Tables World) (ctx : Ctx World) (dev : DevPtr) : Prop where
  read : ∀ header : HwioPacketHeader, header.bodyLen.toNat = sizeofRdReq →
    (handleRead tables header ctx).2.calls =
      ctx.calls ++ [.read dev (loadU32 ctx.rx 2) (loadU16 ctx.rx 6).toNat]
  write : ∀ header : HwioPacketHeader, sizeofWrReq ≤ header.bodyLen.toNat →
    (handleWrite tables header ctx).2.calls =
      ctx.calls ++
        [.write dev (loadU32 ctx.rx 2) (load ctx.rx sizeofWrReq (loadU16 ctx.rx 6).toNat)]
  remoteCall : ∀ header : HwioPacketHeader, sizeofRemoteCall - 1 ≤ header.bodyLen.toNat →
    match tables.findPlugin (cstr (ctx.rx.drop 2)) with
    | some plugin => (handleRemoteCall tables header ctx).2.calls =
        ctx.calls ++ [.plugin (.name (cstr (ctx.rx.drop 2))) dev
          (load ctx.rx sizeofRemoteCall plugin.argsSize)]
    | none => handleRemoteCall tables header ctx =
        ctx.sendErr .malformedPacket (text "REMOTE CALL: RPC function " ++
          cstr (ctx.rx.drop 2) ++ text " not registered on server")
  fastRemoteCall : ∀ header : HwioPacketHeader,
    sizeofRemoteCallFast - 1 ≤ header.bodyLen.toNat →
      match tables.pluginsFast[(loadU32 ctx.rx 2).toNat]? with
      | some plugin => (handleFastRemoteCall tables header ctx).2.calls =
          ctx.calls ++ [.plugin (.id (loadU32 ctx.rx 2)) dev
            (load ctx.rx sizeofRemoteCallFast plugin.argsSize)]
      | none => handleFastRemoteCall tables header ctx =
          ctx.sendErr .malformedPacket (text "REMOTE CALL: RPC function with id " ++
            decimal (loadU32 ctx.rx 2).toNat ++ text " is not registered on server")
  getRpcFnId : ∀ header : HwioPacketHeader, sizeofGetRemoteCallId ≤ header.bodyLen.toNat →
    handleGetRpcFnId tables header ctx =
      (.ok ⟨false, sizeofHeader + sizeofGetRemoteCallIdResp⟩,
        { ctx with
          tx := getRpcFnIdReply ctx.tx
            (tables.pluginsFastNames.findIdx? fun name => cstr (ctx.rx.drop 2) = name) })

theorem handleRead_addresses {tables : Tables World} {header : HwioPacketHeader}
    {ctx : Ctx World} {dev : DevPtr} (size : header.bodyLen.toNat = sizeofRdReq)
    (resolved : clientGetDev ctx.devices (loadU16 ctx.rx 0) = some dev) :
    (handleRead tables header ctx).2.calls =
      ctx.calls ++ [.read dev (loadU32 ctx.rx 2) (loadU16 ctx.rx 6).toNat] := by
  unfold handleRead
  rw [if_neg (not_not.mpr size)]
  simp only [resolved]
  split
  · rfl
  · split
    · rfl
    · rfl

/-- WRITE alone also compares the id with a constant. -/
theorem handleWrite_addresses_iff {tables : Tables World} {header : HwioPacketHeader}
    {ctx : Ctx World} {dev : DevPtr} (size : sizeofWrReq ≤ header.bodyLen.toNat)
    (resolved : clientGetDev ctx.devices (loadU16 ctx.rx 0) = some dev) :
    (handleWrite tables header ctx).2.calls =
        ctx.calls ++
          [.write dev (loadU32 ctx.rx 2) (load ctx.rx sizeofWrReq (loadU16 ctx.rx 6).toNat)] ↔
      (loadU16 ctx.rx 0).toNat < maxDevices := by
  unfold handleWrite
  rw [if_neg (Nat.not_lt.mpr size)]
  by_cases beyond : maxDevices ≤ (loadU16 ctx.rx 0).toNat
  · simp only [if_pos beyond]
    constructor
    · intro same
      have shorter := congrArg List.length same
      rw [List.length_append, List.length_singleton] at shorter
      exact absurd shorter (Nat.ne_of_lt (Nat.lt_succ_self _))
    · intro below
      exact absurd beyond (Nat.not_le.mpr below)
  · simp only [if_neg beyond, resolved]
    constructor
    · intro _
      exact Nat.lt_of_not_le beyond
    · intro _
      split
      · rfl
      · rfl

/-- The id of a device of the client is accepted by all handlers exactly when
WRITE accepts it. -/
theorem addressed_iff {tables : Tables World} {ctx : Ctx World} {dev : DevPtr}
    (resolved : clientGetDev ctx.devices (loadU16 ctx.rx 0) = some dev) :
    Addressed tables ctx dev ↔ (loadU16 ctx.rx 0).toNat < maxDevices := by
  constructor
  · intro addressed
    let header : HwioPacketHeader := ⟨HwioCmd.write.code, UInt16.ofNat sizeofWrReq⟩
    have size : sizeofWrReq ≤ header.bodyLen.toNat := by decide
    exact (handleWrite_addresses_iff size resolved).mp (addressed.write header size)
  · intro below
    refine ⟨?_, ?_, ?_, ?_, ?_⟩
    · intro header size
      exact handleRead_addresses size resolved
    · intro header size
      exact (handleWrite_addresses_iff size resolved).mpr below
    · intro header size
      unfold handleRemoteCall
      simp only [if_neg (Nat.not_lt.mpr size), resolved]
      split
      · next plugin found => simp only [found, callPlugin_calls]
      · next missing => simp only [missing]
    · intro header size
      unfold handleFastRemoteCall
      simp only [if_neg (Nat.not_lt.mpr size), resolved]
      split
      · next plugin found => simp only [found, callPlugin_calls]
      · next missing => simp only [missing]
    · intro header size
      exact handleGetRpcFnId_resolved tables ctx size resolved

/-- The first devices of a table are those with a small number. -/
theorem mem_take_iff_of_nodup {table : List (Option DevPtr)} (distinct : table.Nodup)
    {number : Nat} {dev : DevPtr} (entry : table[number]? = some (some dev)) (count : Nat) :
    some dev ∈ table.take count ↔ number < count := by
  constructor
  · intro member
    obtain ⟨other, below⟩ := List.mem_iff_getElem?.mp member
    rw [List.getElem?_take] at below
    split at below
    · next small =>
      have same := (number_eq_iff distinct below entry).mpr rfl
      exact Nat.lt_of_le_of_lt (Nat.le_of_eq same.symm) small
    · cases below
  · intro small
    apply List.mem_of_getElem?
    rw [List.getElem?_take, if_pos small]
    exact entry

namespace HwioServer

/-! ## A run with one request -/

/-- `loneClient` takes a whole reply at once. -/
theorem loneClient_sends (bytes : List Byte) (fd : Fd) (client : ClientPtr) {fuel : Nat}
    {reply : List Byte} (enough : reply.length ≤ fuel) (trace : List Event) :
    (sendReply (loneClient bytes) fd client fuel reply trace).1 = true := by
  cases reply with
  | nil => simp [sendReply]
  | cons byte rest =>
      cases fuel with
      | zero => exact absurd enough (by simp)
      | succ fuel => simp [sendReply, loneClient]

theorem handleFrame_loneClient (tables : Tables World) (bytes : List Byte) (client : ClientPtr)
    (session : Session World) {res : PProcRes}
    (answered : (handleMsg tables (HwioPacketHeader.at session.client.rxBuffer.buffer
      session.client.rxBuffer.currPtr) session.request).1 = .ok res)
    (stays : res.disconnect = false) :
    (handleFrame tables (loneClient bytes) client session).1 = .ok false := by
  unfold handleFrame
  rcases handling : handleMsg tables (HwioPacketHeader.at session.client.rxBuffer.buffer
    session.client.rxBuffer.currPtr) session.request with ⟨result, after⟩
  rw [handling] at answered
  simp only at answered
  subst answered
  have sent := loneClient_sends bytes session.client.fd client
    (Nat.le_of_eq (load_length after.tx 0 res.txSize)) (session.afterMsg client after).trace
  simp only [handling, stays, Bool.false_or, sent]
  rfl

/-- The loop over a buffer that holds one frame. -/
theorem parseLoop_one (tables : Tables World) (sys : Sys) (client : ClientPtr)
    {session : Session World} (whole : session.client.rxBuffer.currLen =
      session.client.rxBuffer.msgLen)
    (handled : (handleFrame tables sys client session).1 = .ok false) :
    parseLoop tables sys client session.client.rxBuffer.currLen session =
      (.waiting, (handleFrame tables sys client session).2) := by
  have emptied := handleFrame_currLen tables sys client session handled
  have header : ¬session.client.rxBuffer.msgLen < sizeofHeader :=
    Nat.not_lt.mpr (Nat.le_add_right _ _)
  have some := msgLen_pos session.client.rxBuffer
  rcases handling : handleFrame tables sys client session with ⟨result, after⟩
  rw [handling] at handled emptied
  simp only at handled
  subst handled
  simp only [whole, Nat.sub_self] at emptied
  obtain ⟨fuel, more⟩ : ∃ fuel, session.client.rxBuffer.msgLen = fuel + 1 :=
    ⟨session.client.rxBuffer.msgLen - 1, (Nat.sub_add_cancel some).symm⟩
  rw [whole, more, parseLoop, whole, if_neg header, if_neg (Nat.lt_irrefl _), handling]
  cases fuel with
  | zero => rfl
  | succ fuel =>
      simp only
      rw [parseLoop, emptied]
      rfl

/-- The lone client makes a request, and the devices it has afterwards are
those that the request leaves. -/
theorem loneRun_answers (tables : Tables World) (tx : List Byte) (world : World)
    {bytes : List Byte} (fits : bytes.length ≤ rxBufferSize)
    (whole : bytes.length = sizeofHeader + (HwioPacketHeader.at bytes 0).bodyLen.toNat)
    {res : PProcRes}
    (answered : (handleMsg tables (HwioPacketHeader.at bytes 0)
      ⟨bytes.drop sizeofHeader, tx, [], world, []⟩).1 = .ok res)
    (stays : res.disconnect = false) :
    let server := loneRun tables tx world bytes
    let ctx : Ctx World := ⟨bytes.drop sizeofHeader, tx, [], world, []⟩
    Requested tables (prepared tables 3 tx world).service server.trace 0
        (HwioPacketHeader.at bytes 0) ctx ∧
      ∃ record, server.heap 0 = some record ∧
        record.devices = (handleMsg tables (HwioPacketHeader.at bytes 0) ctx).2.devices := by
  have some : bytes ≠ [] := by
    intro empty
    rw [empty, sizeofHeader, List.length_nil] at whole
    omega
  intro server ctx
  have parsed := parseLoop_one tables (loneClient bytes) 0 whole
    (handleFrame_loneClient tables bytes 0 (loneSession tx world bytes) answered stays)
  have final : server = _ := loneRun_parsed tables tx world some fits parsed
  obtain ⟨events, rxBuffer, left, _⟩ := handleFrame_session tables (loneClient bytes) 0
    (loneSession tx world bytes)
  rw [final, left]
  exact ⟨⟨(loneSession tx world bytes).trace, 0, ctx.rx, _, rfl, rfl⟩, _, rfl, rfl⟩

/-! ## Issued ids -/

theorem addressed_iff_early {tables : Tables World} {start : Service World}
    {history : List Event} {client : ClientPtr} {table : List DevPtr}
    (registry : Registry tables start history client table) {id : UInt16} {dev : DevPtr}
    (issued : Issued tables start history client id dev) {ctx : Ctx World}
    (listed : ctx.devices = table.map some) (named : loadU16 ctx.rx 0 = id) :
    Addressed tables ctx dev ↔ some dev ∈ ctx.devices.take maxDevices := by
  obtain ⟨_, distinct, leads⟩ := registry.listed
  have resolved : clientGetDev ctx.devices (loadU16 ctx.rx 0) = some dev := by
    rw [listed, named]
    exact leads id dev issued
  rw [← listed] at distinct
  rw [addressed_iff resolved,
    mem_take_iff_of_nodup distinct (clientGetDev_eq_some.mp resolved) maxDevices]

/-- In every run: an id that a connection was given works in all requests for
its device, in every request it makes and as long as it lives, exactly when the
device is among the first 256 of the connection. -/
theorem issued_id_works_iff {tables : Tables World} {master : Fd} {tx : List Byte}
    {world : World} {server : HwioServer World}
    (reached : Reached (prepared tables master tx world) server) (client : ClientPtr)
    (id : UInt16) (dev : DevPtr) :
    let start := (prepared tables master tx world).service
    (∀ front offset header rx back,
      server.trace = front ++ .dispatched client offset header rx :: back →
        Issued tables start front client id dev → loadU16 rx 0 = id →
          let ctx := (start.after tables front).request client rx
          (Addressed tables ctx dev ↔ some dev ∈ ctx.devices.take maxDevices)) ∧
      ∀ record, server.heap client = some record →
        Issued tables start server.trace client id dev →
          ∀ ctx : Ctx World, ctx.devices = record.devices → loadU16 ctx.rx 0 = id →
            (Addressed tables ctx dev ↔ some dev ∈ ctx.devices.take maxDevices) := by
  intro start
  have interned := reached.interned
  constructor
  · intro front offset header rx back split issued named
    obtain ⟨table, listed, registry⟩ := interned.request_listed split
    exact addressed_iff_early registry issued listed named
  · intro record live issued ctx same named
    exact addressed_iff_early (interned.registry client) issued
      (same.trans (interned.live client record live)) named

/-- A READ or WRITE of no bytes at offset 0 of the device with an id. -/
def bareRequest (id : UInt16) (devices : List (Option DevPtr)) : Ctx Unit where
  rx := u16Bytes id ++ List.replicate 6 0
  tx := []
  devices := devices
  world := ()
  calls := []

theorem bareRequest_id (id : UInt16) (devices : List (Option DevPtr)) :
    loadU16 (bareRequest id devices).rx 0 = id := by
  apply loadU16_of_load
  exact (load_append_left _ (Nat.le_of_eq (u16Bytes_length id).symm)).trans (load_whole _)

theorem queryFrame_header : HwioPacketHeader.at queryFrame 0 = ⟨6, 396⟩ := by decide +kernel

theorem only_device_works :
    ∃ record, (loneRun oneDevice [] () queryFrame).heap 0 = some record ∧
      Addressed oneDevice (bareRequest 0 record.devices) 0 := by
  have answered : (handleMsg oneDevice (HwioPacketHeader.at queryFrame 0)
      ⟨queryFrame.drop sizeofHeader, [], [], (), []⟩).1 = .ok ⟨false, 5⟩ := by
    decide +kernel
  obtain ⟨requested, record, live, left⟩ := @loneRun_answers _ oneDevice [] () queryFrame
    (by decide +kernel) (by decide +kernel) _ answered rfl
  have devices : record.devices = [some 0] := by
    rw [left]
    decide +kernel
  have issued : Issued oneDevice (prepared oneDevice 3 [] ()).service
      (loneRun oneDevice [] () queryFrame).trace 0 0 0 :=
    ⟨_, _, requested, _, 0, answered, by decide +kernel, by decide +kernel⟩
  refine ⟨record, live, ?_⟩
  apply ((issued_id_works_iff (loneRun_reached oneDevice [] () queryFrame) 0 0 0).2 record live
    issued (bareRequest 0 record.devices) rfl (bareRequest_id 0 _)).mpr
  show some 0 ∈ record.devices.take maxDevices
  rw [devices]
  decide

/-- A server with a bus that finds 257 devices for every query. -/
def manyDevices : Tables Unit :=
  { bareTables with buses := [⟨fun _ world => (.ok (List.range 257), world)⟩] }

/-- Whatever the query asks for, the devices are numbered as they are found. -/
theorem manyDevices_query {ctx : Ctx Unit} (fresh : ctx.calls = []) (listed : ctx.devices = []) :
    (∃ size, (handleMsg manyDevices ⟨6, 396⟩ ctx).1 = .ok ⟨false, size⟩) ∧
      (handleMsg manyDevices ⟨6, 396⟩ ctx).2.devices = (List.range 257).map some ∧
      Gives manyDevices ⟨6, 396⟩ ctx 256 256 := by
  have table : internAll [] (List.range 257) = List.range 257 := by
    rw [internAll_of_fresh List.nodup_range fun _ _ => List.not_mem_nil, List.nil_append]
  have query : handleMsg manyDevices ⟨6, 396⟩ ctx = deviceLookupResp manyDevices 1 ctx := by
    rw [handleMsg_query manyDevices (by decide)]
    exact handleQuery_allowed manyDevices ctx (by decide) (by decide) (by decide)
  have looked : (findOnBuses (extractSpecFromClientQuery ctx.rx 1) manyDevices.buses 0 ctx).1 =
      .ok (List.range 257) := by
    simp only [manyDevices, findOnBuses, List.append_nil]
  have room : (internAll [] (List.range 257)).length ≤ 65536 := by
    rw [table, List.length_range]
    decide
  have attaches : Attaches manyDevices (List.range 257) := fun _ _ _ => rfl
  obtain ⟨⟨size, answered⟩, found⟩ :=
    @deviceLookupResp_returns _ manyDevices 1 ctx fresh [] _ listed looked room attaches
  rw [← query] at answered found
  obtain ⟨registered, interning⟩ :=
    @handleMsg_interning _ manyDevices ⟨6, 396⟩ ctx [] fresh listed
  rw [← interning.result _ answered, found] at interning
  have last : (List.range 257)[256]? = some 256 := List.getElem?_range (by decide)
  have number := interning.numbers _ answered 256 256 last
  have place : (List.range 257).idxOf 256 = 256 := by decide +kernel
  rw [table, place] at number
  rw [← found] at last
  refine ⟨⟨size, answered⟩, ?_, _, 256, answered, last, number.symm⟩
  rw [interning.devices, table]

/-- The last of 257 devices can be read by its id, and not written. -/
theorem last_device_not_written :
    Reached (prepared manyDevices 3 [] ()) (loneRun manyDevices [] () queryFrame) ∧
      Issued manyDevices (prepared manyDevices 3 [] ()).service
        (loneRun manyDevices [] () queryFrame).trace 0 256 256 ∧
      ∃ record, (loneRun manyDevices [] () queryFrame).heap 0 = some record ∧
        let ctx := bareRequest 256 record.devices
        (handleRead manyDevices ⟨HwioCmd.read.code, 8⟩ ctx).2.calls = [.read 256 0 0] ∧
          handleWrite manyDevices ⟨HwioCmd.write.code, 8⟩ ctx =
            ctx.sendErr .malformedPacket (text "WRITE: wrong device id") := by
  obtain ⟨⟨size, answered⟩, devices, gives⟩ :=
    @manyDevices_query ⟨queryFrame.drop sizeofHeader, [], [], (), []⟩ rfl rfl
  rw [← queryFrame_header] at answered devices gives
  obtain ⟨requested, record, live, left⟩ := @loneRun_answers _ manyDevices [] ()
    queryFrame (by decide +kernel) (by decide +kernel) _ answered rfl
  rw [devices] at left
  refine ⟨loneRun_reached manyDevices [] () queryFrame, ⟨_, _, requested, gives⟩, record, live,
    ?_, ?_⟩
  · have resolved : clientGetDev (bareRequest 256 record.devices).devices
        (loadU16 (bareRequest 256 record.devices).rx 0) = some 256 := by
      rw [bareRequest_id, clientGetDev_eq_some]
      show record.devices[256]? = some (some 256)
      rw [left, List.getElem?_map, List.getElem?_range (by decide)]
      rfl
    exact handleRead_addresses (by decide) resolved
  · unfold handleWrite
    rw [bareRequest_id]
    rfl

end HwioServer

end Hwio
