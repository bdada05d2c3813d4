import Hwio.Client.RequestSizes
import Hwio.Client.Returning

/-!
Contract: device lookups of a client, from `hwio_bus_remote.cpp` and
`hwio_server_query.cpp`.

Owns the query that is decoded to the specifications it was built of, the
proxies that a client keeps for the ids it was given, and that in every run the
proxies of a client stand for the devices that the server found for it.

Does not own how the buses match devices.
-/

namespace Hwio

open Library HwioServer

variable {World : Type}

/-! ## The specifications of a query -/

/-- A text that an item of a query has room for with its terminator. -/
def FitsName (name : Text) : Prop := 0 ∉ name ∧ name.length < maxNameLen

/-- A specification of such texts. -/
structure HwioCompSpec.Encodable (spec : HwioCompSpec) : Prop where
  name : FitsName spec.name
  vendor : FitsName spec.vendor
  type : FitsName spec.type

theorem cstr_of_load {memory : List Byte} {offset : Nat} {name : Text} (fits : FitsName name)
    (field : load memory offset maxNameLen = copyStrToResp name) :
    cstr (memory.drop offset) = name := by
  have ends : 0 ∈ copyStrToResp name := by
    rw [copyStrToResp, strncpy_of_le fits.1 (Nat.le_of_lt fits.2)]
    apply List.mem_append_right
    exact List.mem_replicate.mpr ⟨Nat.sub_ne_zero_of_lt fits.2, rfl⟩
  have copied := cstr_strncpy fits.1 fits.2 []
  rw [List.append_nil] at copied
  rw [cstr_drop_of_load (field ▸ ends), field]
  exact copied

theorem loadI32_of_load {memory : List Byte} {offset : Nat} {value : Int32}
    (bytes : load memory offset 4 = u32Bytes value.toUInt32) : loadI32 memory offset = value := by
  rw [loadI32, loadU32_of_load bytes]
  rfl

theorem HwioVersion.at_of_load {memory : List Byte} {offset : Nat} {version : HwioVersion}
    (bytes : load memory offset 12 = version.bytes) : HwioVersion.at memory offset = version := by
  have ⟨major, rest⟩ := @load_parts memory offset 4 8 _ _ bytes (u32Bytes_length _)
  have ⟨minor, subminor⟩ := @load_parts memory (offset + 4) 4 4 _ _ rest (u32Bytes_length _)
  rw [HwioVersion.at, loadI32_of_load major, loadI32_of_load minor, loadI32_of_load subminor]

/-- An item is decoded to the specification it was made of. -/
theorem HwioCompSpec.at_of_load {memory : List Byte} {offset : Nat} {spec : HwioCompSpec}
    (encodable : spec.Encodable)
    (item : load memory offset sizeofDevQueryItem = spec.queryItem) :
    HwioCompSpec.at memory offset = spec := by
  have ⟨name, rest⟩ := @load_parts memory offset maxNameLen (2 * maxNameLen + 12) _ _ item
    (strncpy_length _ _)
  have ⟨vendor, rest⟩ := @load_parts memory (offset + maxNameLen) maxNameLen (maxNameLen + 12)
    _ _ rest (strncpy_length _ _)
  have ⟨type, version⟩ := @load_parts memory (offset + maxNameLen + maxNameLen) maxNameLen 12
    _ _ rest (strncpy_length _ _)
  rw [HwioCompSpec.at, cstr_of_load encodable.name name, cstr_of_load encodable.vendor vendor,
    show offset + 2 * maxNameLen = offset + maxNameLen + maxNameLen by omega,
    cstr_of_load encodable.type type,
    show offset + 3 * maxNameLen = offset + maxNameLen + maxNameLen + maxNameLen by omega,
    HwioVersion.at_of_load version]

theorem decoded_items (memory : List Byte) {specs : List HwioCompSpec} {offset : Nat}
    (encodable : ∀ spec ∈ specs, spec.Encodable)
    (items : load memory offset (sizeofDevQueryItem * specs.length) =
      specs.flatMap HwioCompSpec.queryItem) :
    (List.range specs.length).map (fun item =>
      HwioCompSpec.at memory (offset + item * sizeofDevQueryItem)) = specs := by
  induction specs generalizing offset with
  | nil => rfl
  | cons spec rest inductionHypothesis =>
      rw [List.length_cons, Nat.mul_succ, Nat.add_comm, List.flatMap_cons] at items
      have ⟨first, later⟩ := load_parts items (Op.queryItem_length spec)
      have behind := inductionHypothesis
        (fun other member => encodable other (List.mem_cons_of_mem spec member)) later
      rw [List.length_cons, List.range_succ_eq_map, List.map_cons, List.map_map, Nat.zero_mul,
        Nat.add_zero, HwioCompSpec.at_of_load (encodable spec List.mem_cons_self) first]
      congr 1
      apply Eq.trans _ behind
      apply List.map_congr_left
      intro item _
      show HwioCompSpec.at memory (offset + (item + 1) * sizeofDevQueryItem) = _
      rw [Nat.succ_mul, Nat.add_comm (item * sizeofDevQueryItem), Nat.add_assoc]

/-- The server decodes the specifications that the client encoded. -/
theorem extractSpec_of_load {memory : List Byte} {specs : List HwioCompSpec}
    (encodable : ∀ spec ∈ specs, spec.Encodable)
    (items : load memory 0 (sizeofDevQueryItem * specs.length) =
      specs.flatMap HwioCompSpec.queryItem) :
    extractSpecFromClientQuery memory specs.length = specs := by
  have decoded := decoded_items memory encodable items
  simp only [Nat.zero_add] at decoded
  exact decoded

/-! ## The proxies of a bus -/

/-- The ids of the proxies that a bus has made. -/
def proxyIds (seenDevices : List HwioDeviceRemote) : List UInt16 :=
  seenDevices.map HwioDeviceRemote.id

/-- A proxy is found by its id, or made behind the others. -/
theorem hwioDevFromId_interns (spec : List HwioCompSpec) (id : UInt16)
    {seenDevices : List HwioDeviceRemote} (distinct : (proxyIds seenDevices).Nodup) :
    proxyIds (hwioDevFromId spec id seenDevices).2 = intern (proxyIds seenDevices) id ∧
      (hwioDevFromId spec id seenDevices).1 =
        (intern (proxyIds seenDevices) id).idxOf id := by
  unfold hwioDevFromId
  cases found : seenDevices.findIdx? (fun d => d.id = id) with
  | some place =>
      have ⟨inside, same, _⟩ := List.findIdx?_eq_some_iff_getElem.mp found
      have entry : (proxyIds seenDevices)[place]? = some id := by
        rw [proxyIds, List.getElem?_map, List.getElem?_eq_getElem inside]
        exact congrArg some (of_decide_eq_true same)
      have known := List.mem_of_getElem? entry
      rw [intern_of_mem known]
      exact ⟨rfl, (number_eq_iff distinct entry (List.getElem?_idxOf known)).mpr rfl⟩
  | none =>
      have unknown : id ∉ proxyIds seenDevices := by
        intro member
        obtain ⟨proxy, among, same⟩ := List.mem_map.mp member
        have other := List.findIdx?_eq_none_iff.mp found proxy among
        exact absurd same (of_decide_eq_false other)
      rw [intern_of_not_mem unknown, List.idxOf_append_of_notMem unknown, List.idxOf_cons_self,
        Nat.add_zero]
      exact ⟨List.map_append .., (List.length_map _).symm⟩

/-- The proxies of the ids of a reply are those of the table of all ids. -/
theorem devicesFromIds_interns (spec : List HwioCompSpec) (ids : List UInt16)
    {seenDevices : List HwioDeviceRemote} (distinct : (proxyIds seenDevices).Nodup) :
    proxyIds (devicesFromIds spec ids seenDevices).2 = internAll (proxyIds seenDevices) ids ∧
      (devicesFromIds spec ids seenDevices).1 =
        ids.map (internAll (proxyIds seenDevices) ids).idxOf := by
  induction ids generalizing seenDevices with
  | nil => exact ⟨rfl, rfl⟩
  | cons id ids inductionHypothesis =>
      have ⟨first, place⟩ := hwioDevFromId_interns spec id distinct
      have distinct' : (proxyIds (hwioDevFromId spec id seenDevices).2).Nodup := by
        rw [first]
        exact intern_nodup distinct id
      have ⟨later, places⟩ := inductionHypothesis distinct'
      rw [first] at later places
      refine ⟨later, ?_⟩
      show (hwioDevFromId spec id seenDevices).1 ::
        (devicesFromIds spec ids (hwioDevFromId spec id seenDevices).2).1 = _
      rw [List.map_cons, internAll_cons, places, place,
        idxOf_of_prefix (prefix_internAll _ ids) (mem_intern_self _ id)]

/-- A call adds the proxies of some ids. -/
theorem finish_seen (op : Op) (h : HwioPacketHeader) (rxBuffer : List Byte)
    {seenDevices : List HwioDeviceRemote} (distinct : (proxyIds seenDevices).Nodup) :
    ∃ ids, proxyIds (op.finish h rxBuffer seenDevices).2 =
      internAll (proxyIds seenDevices) ids := by
  cases op with
  | findDevices spec =>
      unfold Op.finish
      simp only
      split
      · exact ⟨[], rfl⟩
      · exact ⟨_, (devicesFromIds_interns spec (replyIds h rxBuffer) distinct).1⟩
  | ping =>
      simp only [Op.finish]
      split
      · exact ⟨[], rfl⟩
      · exact ⟨[], rfl⟩
  | _ => exact ⟨[], rfl⟩

/-- No two proxies have the same id. -/
theorem seenAfter_distinct (calls : List Done) : (proxyIds (seenAfter calls)).Nodup := by
  induction calls using List.reverseRecOn with
  | nil => exact List.nodup_nil
  | append_singleton calls call inductionHypothesis =>
      rw [seenAfter_snoc]
      cases call.frame with
      | none => exact inductionHypothesis
      | some frame =>
          obtain ⟨ids, seen⟩ := finish_seen call.op frame.header call.rx inductionHypothesis
          show (proxyIds (call.op.finish _ _ _).2).Nodup
          rw [seen]
          exact internAll_nodup inductionHypothesis ids

/-- A proxy keeps its place. -/
theorem seenAfter_prefix (calls more : List Done) :
    proxyIds (seenAfter calls) <+: proxyIds (seenAfter (calls ++ more)) := by
  induction more using List.reverseRecOn with
  | nil =>
      rw [List.append_nil]
  | append_singleton more call inductionHypothesis =>
      rw [← List.append_assoc, seenAfter_snoc]
      cases call.frame with
      | none => exact inductionHypothesis
      | some frame =>
          obtain ⟨ids, seen⟩ := finish_seen call.op frame.header call.rx
            (seenAfter_distinct (calls ++ more))
          show _ <+: proxyIds (call.op.finish _ _ _).2
          rw [seen]
          exact inductionHypothesis.trans (prefix_internAll _ ids)

/-! ## One lookup -/

theorem findDevices_frame_body {spec : List HwioCompSpec}
    (few : spec.length ≤ maxItemsPerQuery) :
    (Op.findDevices spec).frame.body = spec.flatMap HwioCompSpec.queryItem := by
  have counted : (Op.findDevices spec).bodyLen = (Op.findDevices spec).fields.length :=
    Op.bulk_bodyLen rfl
  have fits : (Op.findDevices spec).Fits := by
    rw [Op.Fits, ← counted, Op.bodyLen]
    simp only [maxItemsPerQuery, sizeofHeader, bufferSize, sizeofDevQueryItem, maxNameLen] at few ⊢
    omega
  rw [Op.frame_body fits, counted, List.take_length]
  rfl

/-- The request of a lookup makes the server look up what the client asked for. -/
theorem lookup_request (tables : Tables World) {header : HwioPacketHeader} {ctx : Ctx World}
    {spec : List HwioCompSpec} (encodable : ∀ item ∈ spec, item.Encodable) (some : spec ≠ [])
    (few : spec.length ≤ maxItemsPerQuery)
    (asked : Frame.received header ctx.rx = (Op.findDevices spec).frame) :
    handleMsg tables header ctx = deviceLookupResp tables spec.length ctx ∧
      extractSpecFromClientQuery ctx.rx spec.length = spec := by
  have body := findDevices_frame_body few
  have same : header = (Op.findDevices spec).frame.header := by
    rw [← asked, Frame.received_header]
  have items : (spec.flatMap HwioCompSpec.queryItem).length = sizeofDevQueryItem * spec.length := by
    have counted : (Op.findDevices spec).bodyLen = (Op.findDevices spec).fields.length :=
      Op.bulk_bodyLen rfl
    exact counted.symm
  have size : header.bodyLen.toNat = spec.length * sizeofDevQueryItem := by
    rw [same, Frame.header_bodyLen_toNat, body, items, Nat.mul_comm]
  constructor
  · have query : HwioCmd.ofCode header.command = .some .query := by
      rw [same]
      exact Op.ofCode_frame (.findDevices spec)
    rw [handleMsg_query tables query]
    exact handleQuery_allowed tables ctx size (List.length_pos_iff.mpr some) few
  · apply extractSpec_of_load encodable
    rw [← body, ← asked, Frame.received_body, size, Nat.mul_comm]

/-- A lookup that returns has a reply of the ids of what was found. -/
theorem deviceLookupResp_reply {tables : Tables World} {count : Nat} {ctx : Ctx World}
    (fresh : ctx.calls = []) {res : PProcRes}
    (ok : (deviceLookupResp tables count ctx).1 = .ok res) :
    let answer := deviceLookupResp tables count ctx
    (replyHeader answer.2.tx).command = HwioCmd.queryResp.code ∧
      res.txSize = sizeofHeader + (replyHeader answer.2.tx).bodyLen.toNat ∧
      (findOnBuses (extractSpecFromClientQuery ctx.rx count) tables.buses 0 ctx).1 =
        .ok (foundIn answer.2.calls) := by
  intro answer
  obtain ⟨result, world, finds, looking, _, ⟨exn, _, left⟩ | ⟨found, same, results, left⟩⟩ :=
    deviceLookupResp_cases tables count ctx
  · rw [left] at ok
    cases ok
  obtain ⟨_, _, _, _, _, spec, _, _, command, _, _⟩ := registerDevices_spec tables found 0
    (ctx.registering world finds) (registering_room ctx world finds)
  have lookedUp := registering_found tables found ctx world finds
  rw [fresh, List.nil_append, results] at lookedUp
  unfold answer
  rw [left] at ok ⊢
  rcases registering : registerDevices tables found 0 (ctx.registering world finds) with
    ⟨ended, final⟩
  rw [registering] at ok spec lookedUp
  cases ended with
  | error stop => cases ok
  | ok done =>
      cases ok
      refine ⟨?_, rfl, ?_⟩
      · rw [show final.tx = _ from congrArg Ctx.tx spec, command]
        exact command_replied _ _ _
      · rw [looking, same, lookedUp]

/-- The ids of a reply are read where they were written. -/
theorem replyIds_of_load {header : HwioPacketHeader} {rx tx : List Byte} {count : Nat}
    (size : header.bodyLen.toNat = sizeofDevId * count)
    (body : load rx 0 header.bodyLen.toNat = load tx sizeofHeader header.bodyLen.toNat) :
    replyIds header rx = (List.range count).map fun k => loadU16 tx (idOffset k) := by
  rw [replyIds, size, Nat.mul_div_cancel_left count (by decide)]
  apply List.map_congr_left
  intro k below
  have inside := List.mem_range.mp below
  have fits : k * sizeofDevId + 2 ≤ header.bodyLen.toNat := by
    rw [size, sizeofDevId]
    omega
  have same := congrArg (fun bytes => load bytes (k * sizeofDevId) 2) body
  simp only [load_load _ fits, Nat.zero_add] at same
  rw [loadU16, loadU16, same, idOffset, Nat.mul_comm]

/-- A list of specifications that a query has room for. -/
structure Carried (spec : List HwioCompSpec) : Prop where
  some : spec ≠ []
  few : spec.length ≤ maxItemsPerQuery
  encodable : ∀ item ∈ spec, item.Encodable

/-- The ids that an answer gives for the devices found. -/
def givenIds (answer : Handled World) : List UInt16 :=
  (List.range (foundIn answer.2.calls).length).map fun k => loadU16 answer.2.tx (idOffset k)

/-- A lookup that returns is answered with the ids of all that was found. -/
theorem lookup_replied {tables : Tables World} {header : HwioPacketHeader} {ctx : Ctx World}
    {spec : List HwioCompSpec} (fresh : ctx.calls = []) (carried : Carried spec)
    (asked : Frame.received header ctx.rx = (Op.findDevices spec).frame)
    (fits : sizeofHeader + sizeofDevId * (foundIn (handleMsg tables header ctx).2.calls).length ≤
      bufferSize)
    {res : PProcRes} (answered : (handleMsg tables header ctx).1 = .ok res) :
    let reply := replyHeader (handleMsg tables header ctx).2.tx
    (findOnBuses spec tables.buses 0 ctx).1 =
        .ok (foundIn (handleMsg tables header ctx).2.calls) ∧
      reply.command = HwioCmd.queryResp.code ∧
      reply.bodyLen.toNat = sizeofDevId * (foundIn (handleMsg tables header ctx).2.calls).length ∧
      replyBytes (handleMsg tables header ctx) = reply.bytes ++
        load (handleMsg tables header ctx).2.tx sizeofHeader reply.bodyLen.toNat := by
  obtain ⟨lookup, decoded⟩ := lookup_request tables carried.encodable carried.some carried.few asked
  have query : HwioCmd.ofCode header.command = .some .query := by
    rw [show header = (Op.findDevices spec).frame.header by rw [← asked, Frame.received_header]]
    exact Op.ofCode_frame (.findDevices spec)
  have ok := answered
  rw [lookup] at ok
  obtain ⟨command, txSize, found⟩ := deviceLookupResp_reply fresh ok
  rw [decoded] at found
  rw [← lookup] at command txSize found
  have small : sizeofDevId * (foundIn (handleMsg tables header ctx).2.calls).length < 65536 := by
    simp only [sizeofHeader, bufferSize] at fits
    omega
  have bodyLen := queryResp_bodyLen query fresh answered command
  rw [Nat.mod_eq_of_lt small] at bodyLen
  refine ⟨found, command, bodyLen, ?_⟩
  rw [replyBytes_of_ok answered, txSize, load_add, Nat.zero_add, ← HwioPacketHeader.bytes_at]
  rfl

/-- A call that takes the answer to its lookup has the ids of all that was found. -/
theorem lookup_taken {tables : Tables World} {header : HwioPacketHeader} {ctx : Ctx World}
    {spec : List HwioCompSpec} (fresh : ctx.calls = []) (carried : Carried spec)
    (asked : Frame.received header ctx.rx = (Op.findDevices spec).frame)
    (fits : sizeofHeader + sizeofDevId * (foundIn (handleMsg tables header ctx).2.calls).length ≤
      bufferSize)
    {frame : Frame} (taken : frame.bytes = replyBytes (handleMsg tables header ctx))
    {rx : List Byte} (held : load rx 0 frame.body.length = frame.body) :
    (∃ res, (handleMsg tables header ctx).1 = .ok res) ∧
      (findOnBuses spec tables.buses 0 ctx).1 =
        .ok (foundIn (handleMsg tables header ctx).2.calls) ∧
      frame.header.command = HwioCmd.queryResp.code ∧
      replyIds frame.header rx = givenIds (handleMsg tables header ctx) := by
  cases answered : (handleMsg tables header ctx).1 with
  | error stop =>
      have length := congrArg List.length (taken.trans (replyBytes_of_error answered))
      rw [Frame.bytes_length, sizeofHeader, List.length_nil] at length
      omega
  | ok res =>
      obtain ⟨found, command, bodyLen, bytes⟩ := lookup_replied fresh carried asked fits answered
      rw [bytes, Frame.bytes] at taken
      obtain ⟨headers, bodies⟩ := List.append_inj taken (by
        rw [HwioPacketHeader.bytes_length, HwioPacketHeader.bytes_length])
      have same := HwioPacketHeader.bytes_injective headers
      refine ⟨⟨res, rfl⟩, found, by rw [same, command], ?_⟩
      apply replyIds_of_load
      · rw [same]
        exact bodyLen
      · rw [← Frame.header_bodyLen_toNat] at held
        rw [held, bodies, same]

/-- A request of a lookup is in turn. -/
theorem lookup_inTurn (tables : Tables World) {header : HwioPacketHeader} {ctx : Ctx World}
    {spec : List HwioCompSpec} (carried : Carried spec)
    (asked : Frame.received header ctx.rx = (Op.findDevices spec).frame) :
    InTurn tables header ctx (.findDevices spec) := by
  obtain ⟨lookup, _⟩ := lookup_request tables carried.encodable carried.some carried.few asked
  have framed : OneFrame (handleMsg tables header ctx) := by
    rw [lookup]
    exact deviceLookupResp_oneFrame tables spec.length ctx
  exact (handleMsg_oneFrame_iff tables header ctx).mp framed

/-! ## A session of lookups -/

namespace Joint

variable {tables : Tables World} {master : Fd} {tx : List Byte} {world : World}
variable {owner : ClientPtr} {txBuffer rxBuffer : List Byte}
variable {lookups : List (List HwioCompSpec)} {joint : Joint World}

/-- A call returned the proxy at a place for a device that the server found for
it. -/
def Proxied (tables : Tables World) (start : HwioServer World) (owner : ClientPtr)
    (joint : Joint World) (place : Nat) (dev : DevPtr) : Prop :=
  ∃ (k i : Nat) (call : Done) (places : List Nat) (header : HwioPacketHeader) (ctx : Ctx World),
    joint.client.done[k]? = some call ∧ call.result = .ok (.devices places) ∧
      (joint.requests tables start owner)[k]? = some (header, ctx) ∧
      places[i]? = some place ∧ (foundIn (handleMsg tables header ctx).2.calls)[i]? = some dev

/-- The `k`-th request is that of the `k`-th lookup. -/
theorem Linked.lookup_asked
    (linked : Linked tables (prepared tables master tx world) owner
      (lookups.map .findDevices) joint) {k : Nat} {header : HwioPacketHeader} {ctx : Ctx World}
    (request : (joint.requests tables (prepared tables master tx world) owner)[k]? =
      some (header, ctx)) :
    ∃ spec, lookups[k]? = some spec ∧
      Frame.received header ctx.rx = (Op.findDevices spec).frame := by
  obtain ⟨op, listed, asked⟩ := linked.request_op request
  rw [List.getElem?_map, Option.map_eq_some_iff] at listed
  obtain ⟨spec, found, rfl⟩ := listed
  exact ⟨spec, found, asked⟩

theorem Linked.lookup_done
    (linked : Linked tables (prepared tables master tx world) owner
      (lookups.map .findDevices) joint) {k : Nat} {call : Done}
    (done : joint.client.done[k]? = some call) :
    ∃ spec, lookups[k]? = some spec ∧ call.op = .findDevices spec := by
  have listed := linked.done_op done
  rw [List.getElem?_map, Option.map_eq_some_iff] at listed
  obtain ⟨spec, found, same⟩ := listed
  exact ⟨spec, found, same.symm⟩

/-- The replies to the requests of the client fit the buffer. -/
def RepliesFit (tables : Tables World) (start : HwioServer World) (owner : ClientPtr)
    (joint : Joint World) : Prop :=
  ∀ header ctx, (header, ctx) ∈ joint.requests tables start owner →
    sizeofHeader + sizeofDevId * (foundIn (handleMsg tables header ctx).2.calls).length ≤ bufferSize

/-- What a lookup that returned was: the server found devices on its buses, and
the call returned the proxies of the ids it gave for them. -/
structure LookedUp (tables : Tables World) (joint : Joint World) (k : Nat) (call : Done)
    (spec : List HwioCompSpec) (header : HwioPacketHeader) (ctx : Ctx World) : Prop where
  op : call.op = .findDevices spec
  answered : ∃ res, (handleMsg tables header ctx).1 = .ok res
  found : (findOnBuses spec tables.buses 0 ctx).1 = .ok (foundIn (handleMsg tables header ctx).2.calls)
  seen : proxyIds (seenAfter (joint.client.done.take (k + 1))) =
    internAll (proxyIds (seenAfter (joint.client.done.take k))) (givenIds (handleMsg tables header ctx))
  result : call.result = .ok (.devices ((givenIds (handleMsg tables header ctx)).map
    (proxyIds (seenAfter (joint.client.done.take (k + 1)))).idxOf))

theorem Linked.lookups_inTurn
    (linked : Linked tables (prepared tables master tx world) owner
      (lookups.map .findDevices) joint)
    (carried : ∀ spec ∈ lookups, Carried spec) (k : Nat) :
    joint.InTurnBefore tables (prepared tables master tx world) owner k := by
  intro earlier call header ctx _ done request
  obtain ⟨spec, listed, op⟩ := linked.lookup_done done
  have asked := linked.request_frame done request
  rw [op] at asked ⊢
  exact lookup_inTurn tables (carried spec (List.mem_of_getElem? listed)) asked

theorem Reached.lookedUp
    (reached : Reached (prepared tables master tx world) owner
      (Client.connect txBuffer rxBuffer (lookups.map .findDevices)) joint)
    (carried : ∀ spec ∈ lookups, Carried spec)
    (fits : joint.RepliesFit tables (prepared tables master tx world) owner) {k : Nat}
    {call : Done} (done : joint.client.done[k]? = some call) :
    ∃ spec header ctx, lookups[k]? = some spec ∧
      (joint.requests tables (prepared tables master tx world) owner)[k]? = some (header, ctx) ∧
      LookedUp tables joint k call spec header ctx := by
  have linked := reached.linked
  obtain ⟨spec, listed, op⟩ := linked.lookup_done done
  have able := carried spec (List.mem_of_getElem? listed)
  have waited := linked.consistent.waits done
  rw [show call.op.waits = true by rw [op]; rfl, Option.isSome_iff_exists] at waited
  obtain ⟨frame, taken⟩ := waited
  obtain ⟨⟨header, ctx, request, asked, _⟩, whole⟩ :=
    replies_matched reached done taken (linked.lookups_inTurn carried k)
  rw [op] at asked
  have reply := whole header ctx request (by
    rw [op]
    exact lookup_inTurn tables able asked)
  have member := List.mem_of_getElem? request
  have fresh := calls_eq_nil_of_mem member
  obtain ⟨held, result⟩ := (linked.consistent.concluded_at done).2 frame taken
  obtain ⟨answered, found, command, ids⟩ :=
    lookup_taken fresh able asked (fits header ctx member) reply held
  have distinct := seenAfter_distinct (joint.client.done.take k)
  obtain ⟨seen, places⟩ := devicesFromIds_interns spec (replyIds frame.header call.rx) distinct
  have finished : call.op.finish frame.header call.rx (seenAfter (joint.client.done.take k)) =
      (.ok (.devices (devicesFromIds spec (replyIds frame.header call.rx)
        (seenAfter (joint.client.done.take k))).1),
        (devicesFromIds spec (replyIds frame.header call.rx)
          (seenAfter (joint.client.done.take k))).2) := by
    rw [op, Op.finish, if_neg (not_not.mpr command)]
  have last : joint.client.done.take (k + 1) = joint.client.done.take k ++ [call] := by
    rw [List.take_add_one, done]
    rfl
  have after : proxyIds (seenAfter (joint.client.done.take (k + 1))) =
      internAll (proxyIds (seenAfter (joint.client.done.take k)))
        (givenIds (handleMsg tables header ctx)) := by
    rw [last, seenAfter_snoc, taken, Option.elim_some, finished, seen, ids]
  refine ⟨spec, header, ctx, listed, request, op, answered, found, after, ?_⟩
  rw [result, finished, places, ids, after]

/-- A lookup that is answered can return. -/
theorem Reached.lookup_returns
    (reached : Reached (prepared tables master tx world) owner
      (Client.connect txBuffer rxBuffer (lookups.map .findDevices)) joint)
    (carried : ∀ spec ∈ lookups, Carried spec)
    (fits : joint.RepliesFit tables (prepared tables master tx world) owner)
    {op : Op} {waitingFor : Option HwioPacketHeader} {bytesRead : Nat}
    (phase : joint.client.phase = .receiving op waitingFor bytesRead)
    {header : HwioPacketHeader} {ctx : Ctx World}
    (request : (joint.requests tables (prepared tables master tx world)
      owner)[joint.client.done.length]? = some (header, ctx))
    {res : PProcRes} (answered : (handleMsg tables header ctx).1 = .ok res)
    (sent : ((joint.requests tables (prepared tables master tx world) owner).map
      (answerTo tables)).flatten <+: sentTo owner joint.server.trace) :
    joint.Returns (prepared tables master tx world) owner
      (Client.connect txBuffer rxBuffer (lookups.map .findDevices)) := by
  have linked := reached.linked
  have member := List.mem_of_getElem? request
  have fresh := calls_eq_nil_of_mem member
  obtain ⟨spec, listed, asked⟩ := linked.lookup_asked request
  have able := carried spec (List.mem_of_getElem? listed)
  have small := fits header ctx member
  obtain ⟨_, _, bodyLen, bytes⟩ := lookup_replied fresh able asked small answered
  let frame : Frame := {
    command := (replyHeader (handleMsg tables header ctx).2.tx).command
    body := load (handleMsg tables header ctx).2.tx sizeofHeader
      (replyHeader (handleMsg tables header ctx).2.tx).bodyLen.toNat
    fits := by
      rw [load_length]
      exact UInt16.toNat_lt _ }
  have same : frame.header = replyHeader (handleMsg tables header ctx).2.tx := by
    rw [Frame.header, load_length]
    simp [frame]
  have replied : replyBytes (handleMsg tables header ctx) = frame.bytes := by
    rw [bytes, Frame.bytes, same]
  apply reached.returns (linked.lookups_inTurn carried _) phase request replied _ sent
  rw [load_length, bodyLen]
  exact Nat.le_trans (Nat.le_add_left _ _) small

/-- A proxy has an id that the server gave for its device. -/
theorem Reached.proxied_issued
    (reached : Reached (prepared tables master tx world) owner
      (Client.connect txBuffer rxBuffer (lookups.map .findDevices)) joint)
    (carried : ∀ spec ∈ lookups, Carried spec)
    (fits : joint.RepliesFit tables (prepared tables master tx world) owner) {place : Nat}
    {dev : DevPtr} (proxied : joint.Proxied tables (prepared tables master tx world) owner place dev) :
    ∃ id, (proxyIds joint.client.seenDevices)[place]? = some id ∧
      Issued tables (prepared tables master tx world).service joint.server.trace owner id dev := by
  obtain ⟨k, i, call, places, header, ctx, done, result, request, at_place, at_dev⟩ := proxied
  obtain ⟨spec, header', ctx', _, request', looked⟩ := reached.lookedUp carried fits done
  cases request.symm.trans request'
  have whole := looked.result
  rw [result] at whole
  have listed : places = _ := Result.devices.inj (Except.ok.inj whole)
  rw [listed, List.getElem?_map, Option.map_eq_some_iff] at at_place
  obtain ⟨id, given, rfl⟩ := at_place
  have known : id ∈ proxyIds (seenAfter (joint.client.done.take (k + 1))) := by
    rw [looked.seen]
    exact mem_internAll.mpr (Or.inr (List.mem_of_getElem? given))
  obtain ⟨res, answered⟩ := looked.answered
  refine ⟨id, ?_, header, ctx, ?_, res, i, answered, at_dev, ?_⟩
  · rw [reached.linked.consistent.seen]
    have later := seenAfter_prefix (joint.client.done.take (k + 1)) (joint.client.done.drop (k + 1))
    rw [List.take_append_drop] at later
    exact getElem?_of_isPrefix later (List.getElem?_idxOf known)
  · exact mem_requestsOf_iff.mp (List.mem_of_getElem? request)
  · rw [givenIds, List.getElem?_map, Option.map_eq_some_iff] at given
    obtain ⟨index, at_index, rfl⟩ := given
    obtain ⟨_, same⟩ := List.getElem?_eq_some_iff.mp at_index
    rw [List.getElem_range] at same
    rw [same]

end Joint

/-- In every state of every run of a server, with any clients, and of one of its
clients that only looks devices up: each request is decoded to the specification
list of its call, and is answered when the buses find devices that attach and
can be numbered; a call whose answer was sent can return; a call that returned
has as many proxies as the buses of the server found devices, and in their
order; the ids of the proxies lead the server to these devices as long as the
connection lives; and two proxies of the session are the same exactly when their
devices are. -/
theorem remote_lookup_refines {tables : Tables World} {master : Fd} {tx : List Byte}
    {world : World} {owner : ClientPtr} {txBuffer rxBuffer : List Byte}
    {lookups : List (List HwioCompSpec)} {joint : Joint World}
    (reached : Joint.Reached (prepared tables master tx world) owner
      (Client.connect txBuffer rxBuffer (lookups.map .findDevices)) joint)
    (carried : ∀ spec ∈ lookups, Carried spec)
    (fits : joint.RepliesFit tables (prepared tables master tx world) owner) :
    let start := prepared tables master tx world
    (∀ (k : Nat) header ctx, (joint.requests tables start owner)[k]? = some (header, ctx) →
      ∃ spec, lookups[k]? = some spec ∧
        handleMsg tables header ctx = deviceLookupResp tables spec.length ctx ∧
        extractSpecFromClientQuery ctx.rx spec.length = spec ∧
        ∀ found, (findOnBuses spec tables.buses 0 ctx).1 = .ok found → Attaches tables found →
          ctx.devices.length + found.length ≤ 65536 →
            ∃ size, (handleMsg tables header ctx).1 = .ok ⟨false, size⟩) ∧
      (∀ op waitingFor bytesRead header ctx res,
        joint.client.phase = .receiving op waitingFor bytesRead →
        (joint.requests tables start owner)[joint.client.done.length]? = some (header, ctx) →
        (handleMsg tables header ctx).1 = .ok res →
        ((joint.requests tables start owner).map (answerTo tables)).flatten <+:
            sentTo owner joint.server.trace →
          joint.Returns start owner
            (Client.connect txBuffer rxBuffer (lookups.map .findDevices))) ∧
      (∀ (k : Nat) call, joint.client.done[k]? = some call →
        ∃ spec header ctx, ∃ (found : List DevPtr) (places : List Nat), lookups[k]? = some spec ∧
          (joint.requests tables start owner)[k]? = some (header, ctx) ∧
          (findOnBuses spec tables.buses 0 ctx).1 = .ok found ∧
          call.result = .ok (.devices places) ∧ places.length = found.length ∧
          ∀ (i : Nat) place dev, places[i]? = some place → found[i]? = some dev →
            joint.Proxied tables start owner place dev) ∧
      (∀ place dev, joint.Proxied tables start owner place dev →
        ∃ proxy, joint.client.seenDevices[place]? = some proxy ∧
          ∀ record, joint.server.heap owner = some record →
            clientGetDev record.devices proxy.id = some dev) ∧
      ∀ place dev place' dev', joint.Proxied tables start owner place dev →
        joint.Proxied tables start owner place' dev' → (place = place' ↔ dev = dev') := by
  intro start
  have linked := reached.linked
  have interned := linked.reached.interned
  refine ⟨?_, ?_, ?_, ?_, ?_⟩
  · intro k header ctx request
    obtain ⟨spec, listed, asked⟩ := linked.lookup_asked request
    have able := carried spec (List.mem_of_getElem? listed)
    obtain ⟨lookup, decoded⟩ := lookup_request tables able.encodable able.some able.few asked
    refine ⟨spec, listed, lookup, decoded, fun found looked attaches room => ?_⟩
    obtain ⟨front, offset, rx, back, split, rfl⟩ :=
      mem_requestsOf_iff.mp (List.mem_of_getElem? request)
    obtain ⟨table, tabled, registry⟩ := interned.request_listed split
    rw [tabled, List.length_map] at room
    rw [← decoded] at looked
    obtain ⟨answered, _⟩ := @deviceLookupResp_returns _ tables spec.length _ rfl table found tabled
      looked (Nat.le_trans (internAll_length_le table found) room) attaches
    rw [lookup]
    exact answered
  · intro op waitingFor bytesRead header ctx res phase request answered sent
    exact reached.lookup_returns carried fits phase request answered sent
  · intro k call done
    obtain ⟨spec, header, ctx, listed, request, looked⟩ := reached.lookedUp carried fits done
    refine ⟨spec, header, ctx, _, _, listed, request, looked.found, looked.result, ?_, ?_⟩
    · rw [List.length_map, givenIds, List.length_map, List.length_range]
    · intro i place dev at_place at_dev
      exact ⟨k, i, call, _, header, ctx, done, looked.result, request, at_place, at_dev⟩
  · intro place dev proxied
    obtain ⟨id, at_place, issued⟩ := reached.proxied_issued carried fits proxied
    rw [proxyIds, List.getElem?_map, Option.map_eq_some_iff] at at_place
    obtain ⟨proxy, at_place, rfl⟩ := at_place
    refine ⟨proxy, at_place, fun record live => ?_⟩
    rw [interned.live owner record live]
    exact (interned.registry owner).listed.2.2 proxy.id dev issued
  · intro place dev place' dev' proxied proxied'
    obtain ⟨id, at_place, issued⟩ := reached.proxied_issued carried fits proxied
    obtain ⟨id', at_place', issued'⟩ := reached.proxied_issued carried fits proxied'
    have registry := interned.registry owner
    have distinct : (proxyIds joint.client.seenDevices).Nodup := by
      rw [linked.consistent.seen]
      exact seenAfter_distinct _
    rw [number_eq_iff distinct at_place at_place', ← UInt16.toNat_inj]
    exact number_eq_iff registry.distinct (registry.issued id dev issued)
      (registry.issued id' dev' issued')

/-- Any name, vendor and type, in version 0.0.0. -/
def anySpec : HwioCompSpec := ⟨[], [], [], ⟨0, 0, 0⟩⟩

theorem anySpec_carried : Carried [anySpec] where
  some := nofun
  few := by decide
  encodable := by
    intro item member
    obtain rfl := List.mem_singleton.mp member
    have short : FitsName [] := ⟨List.not_mem_nil, by decide⟩
    exact ⟨short, short, short⟩

/-- A client that looked up any device twice, and its server. -/
def lookedTwice : Joint Unit where
  server := (poolClientMsgs (loneClient queryFrame) (loneRun oneDevice [] () queryFrame)).2
  running := true
  client :=
    ((((Client.connect [] [] [.findDevices [anySpec], .findDevices [anySpec]]).waiting
      (.findDevices [anySpec]) [.findDevices [anySpec]]).took (.findDevices [anySpec])
      ⟨7, [0, 0], by decide⟩).waiting (.findDevices [anySpec]) []).took (.findDevices [anySpec])
      ⟨7, [0, 0], by decide⟩

theorem lookedTwice_reached : Joint.Reached (prepared oneDevice 3 [] ()) 0
    (Client.connect [] [] [.findDevices [anySpec], .findDevices [anySpec]]) lookedTwice := by
  have asked := (Joint.Reached.start : Joint.Reached (prepared oneDevice 3 [] ()) 0
    (Client.connect [] [] [.findDevices [anySpec], .findDevices [anySpec]]) _).waits rfl rfl trivial
      (by decide +kernel) rfl
  have served := asked.served queryFrame (by decide +kernel)
    (by decide +kernel) (by decide +kernel) (by decide +kernel)
  have answered := served.takes rfl ⟨7, [0, 0], by decide⟩ (by decide) (by decide +kernel)
  have again := (answered.waits rfl rfl trivial (by decide +kernel) rfl).passes
    (loneClient queryFrame) (by decide +kernel) (by decide +kernel)
  exact again.takes rfl ⟨7, [0, 0], by decide⟩ (by decide) (by decide +kernel)

theorem looked_up_twice :
    (lookedTwice.client.done.map Done.result).map Except.toOption =
        [some (.devices [0]), some (.devices [0])] ∧
      ∃ proxy, lookedTwice.client.seenDevices[0]? = some proxy ∧
        ∀ record, lookedTwice.server.heap 0 = some record →
          clientGetDev record.devices proxy.id = some 0 := by
  have carried : ∀ spec ∈ [[anySpec], [anySpec]], Carried spec := by
    intro spec member
    obtain rfl : spec = [anySpec] := by simpa using member
    exact anySpec_carried
  have fits : lookedTwice.RepliesFit oneDevice (prepared oneDevice 3 [] ()) 0 := by
    have each : ∀ request ∈ lookedTwice.requests oneDevice (prepared oneDevice 3 [] ()) 0,
        sizeofHeader + sizeofDevId * (foundIn (handleMsg oneDevice request.1 request.2).2.calls).length ≤
          bufferSize := by decide +kernel
    exact fun header ctx member => each (header, ctx) member
  obtain ⟨_, _, returned, resolved, _⟩ :=
    @remote_lookup_refines Unit oneDevice 3 [] () 0 [] [] [[anySpec], [anySpec]] lookedTwice
      lookedTwice_reached carried fits
  have results : (lookedTwice.client.done.map Done.result).map Except.toOption =
      [some (.devices [0]), some (.devices [0])] := by decide +kernel
  refine ⟨results, ?_⟩
  obtain ⟨call, more, done⟩ : ∃ call more, lookedTwice.client.done = call :: more := ⟨_, _, rfl⟩
  obtain ⟨spec, header, ctx, found, places, _, _, looked, result, _, proxied⟩ :=
    returned 0 call (by rw [done]; rfl)
  have all : found = [0] := (Except.ok.inj looked).symm
  have first : some (Result.devices places) = some (.devices [0]) := by
    rw [done, List.map_cons, List.map_cons, result] at results
    exact (List.cons.inj results).1
  have here : places = [0] := Result.devices.inj (Option.some.inj first)
  exact resolved 0 0 (proxied 0 0 0 (by rw [here]; rfl) (by rw [all]; rfl))

end Hwio
