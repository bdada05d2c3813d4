import Hwio.Client.Lookups
import Hwio.Client.RemoteDevice
import Hwio.Server.SoleClient
import Hwio.Server.Windows

/-!
Contract: accesses of a mapped device through its proxy.

Owns what the server does for the READ and WRITE requests of a proxy, and that
in every run of a server and its single client the calls on the proxy do on the
device what they would do if they were made there.

Does not own what the loads and stores on the mapping of the device do.
-/

namespace Hwio

open Library HwioServer

variable {World : Type}

/-! ## One request -/

/-- The fields of a `RdReq` in the memory from its start on. -/
theorem rdReq_of_load {memory : List Byte} {id : UInt16} {addr : UInt32} {size : Nat}
    (small : size < 65536) (whole : load memory 0 sizeofRdReq = rdReq id addr size) :
    loadU16 memory 0 = id ∧ loadU32 memory 2 = addr ∧ (loadU16 memory 6).toNat = size := by
  have ⟨first, rest⟩ := @load_parts memory 0 2 6 _ _ whole (u16Bytes_length id)
  have ⟨second, third⟩ := @load_parts memory 2 4 2 _ _ rest (u32Bytes_length addr)
  refine ⟨loadU16_of_load first, loadU32_of_load second, ?_⟩
  rw [loadU16_toNat, third, leNat_leBytes]
  exact Nat.mod_eq_of_lt small

/-- The parts of the body of a frame that a request came in. -/
theorem load_of_received {header : HwioPacketHeader} {rx : List Byte} {frame : Frame}
    (asked : Frame.received header rx = frame) :
    header = frame.header ∧ load rx 0 frame.body.length = frame.body := by
  subst asked
  rw [Frame.received_header, Frame.received_body, load_length]
  exact ⟨rfl, rfl⟩

/-- What is sent of a buffer in which a frame was put together. -/
theorem load_storedReply (tx : List Byte) {cmd : HwioCmd} {frame : Frame}
    (command : frame.command = cmd.code) :
    load (storedReply tx cmd frame.body.length frame.body) 0 (sizeofHeader + frame.body.length) =
      frame.bytes := by
  have header : HwioPacketHeader.at (storedReply tx cmd frame.body.length frame.body) 0 =
      frame.header := by
    rw [Frame.header, command]
    exact replyHeader_storedReply tx cmd frame.body.length frame.body
  rw [load_add, Nat.zero_add, ← HwioPacketHeader.bytes_at, header, storedReply, load_store_same,
    Frame.bytes]

/-- A request was done on a device, and is answered with the bytes that its call
waits for. -/
structure DoneOn (tables : Tables World) (device : IhwioDev World) (op : Op)
    (header : HwioPacketHeader) (ctx : Ctx World) : Prop where
  answered : ∃ size, (handleMsg tables header ctx).1 = .ok ⟨false, size⟩
  world : (handleMsg tables header ctx).2.world = (device.does op ctx.world).2
  reply : op.waits = true → ∃ frame : Frame,
    replyBytes (handleMsg tables header ctx) = frame.bytes ∧
      frame.command = HwioCmd.readResp.code ∧ frame.body = (device.does op ctx.world).1
  inTurn : InTurn tables header ctx op

section Mapped

variable {tables : Tables (Observed World)} {dev : DevPtr} {mmap : HwioDeviceMmap}
  {sys : MmapSys World} {memory : MappedMemory World}
  (mapped : tables.device dev = mmap.served sys memory dev)
  {header : HwioPacketHeader} {ctx : Ctx (Observed World)} {id : UInt16}
  (resolved : clientGetDev ctx.devices id = some dev)

include mapped resolved

theorem read_doneOn {offset : UInt32} {n : Nat} (short : sizeofHeader + n ≤ bufferSize)
    (asked : Frame.received header ctx.rx = (Op.read id offset n).frame) :
    DoneOn tables (mmap.device memory dev) (.read id offset n) header ctx := by
  obtain ⟨same, body⟩ := load_of_received asked
  rw [read_frame_body, Op.rdReq_length] at body
  have small : n < 65536 := by
    simp only [sizeofHeader, bufferSize] at short
    omega
  obtain ⟨named, addr, count⟩ := rdReq_of_load small body
  rw [← named] at resolved
  have size : header.bodyLen.toNat = sizeofRdReq := by
    rw [same, Frame.header_bodyLen_toNat, read_frame_body, Op.rdReq_length]
  have command : HwioCmd.ofCode header.command = some .read := by
    rw [same]
    exact Op.ofCode_frame (.read id offset n)
  have length := (mmap.device memory dev).read_length n offset ctx.world
  let frame : Frame := {
    command := HwioCmd.readResp.code
    body := ((mmap.device memory dev).read n offset ctx.world).1
    fits := by
      rw [length]
      exact small }
  have handled : handleMsg tables header ctx = (.ok ⟨false, sizeofHeader + frame.body.length⟩,
      { ctx with
        tx := storedReply ctx.tx .readResp frame.body.length frame.body
        world := ((mmap.device memory dev).read n offset ctx.world).2
        calls := ctx.calls ++ [.read dev offset n] }) := by
    rw [show frame.body.length = n from length, handleMsg, command]
    simp only
    unfold handleRead
    rw [if_neg (not_not.mpr size)]
    simp only [resolved, addr, count, mapped]
    rfl
  have reply : replyBytes (handleMsg tables header ctx) = frame.bytes := by
    rw [handled]
    exact load_storedReply ctx.tx rfl
  have framed : RequestFramed tables header ctx :=
    (handleMsg_oneFrame_iff tables header ctx).mp (Or.inr ⟨frame, reply⟩)
  exact
    { answered := ⟨_, congrArg Prod.fst handled⟩
      world := by rw [handled]; rfl
      reply := fun _ => ⟨frame, reply, rfl, rfl⟩
      inTurn := framed }

theorem write_doneOn {offset : UInt32} {data : List Byte} (bounded : id.toNat < maxDevices)
    (short : sizeofHeader + sizeofWrReq + data.length ≤ bufferSize)
    (asked : Frame.received header ctx.rx = (Op.write id offset data).frame) :
    DoneOn tables (mmap.device memory dev) (.write id offset data) header ctx := by
  obtain ⟨same, body⟩ := load_of_received asked
  have fields : (Op.write id offset data).frame.body = rdReq id offset data.length ++ data := by
    have accesses : (Op.write id offset data).Accesses id := ⟨rfl, short⟩
    have counted : (Op.write id offset data).bodyLen = (Op.write id offset data).fields.length :=
      Op.bulk_bodyLen rfl
    rw [Op.frame_body accesses.fits, counted, List.take_length]
    rfl
  have small : data.length < 65536 := by
    simp only [sizeofHeader, sizeofWrReq, bufferSize] at short
    omega
  rw [fields, List.length_append, Op.rdReq_length] at body
  obtain ⟨request, payload⟩ := load_parts body (Op.rdReq_length id offset data.length)
  obtain ⟨named, addr, count⟩ := rdReq_of_load small request
  rw [Nat.zero_add] at payload
  rw [← named] at resolved bounded
  have size : sizeofWrReq ≤ header.bodyLen.toNat := by
    rw [same, Frame.header_bodyLen_toNat, fields, List.length_append, Op.rdReq_length]
    exact Nat.le_add_right _ _
  have command : HwioCmd.ofCode header.command = some .write := by
    rw [same]
    exact Op.ofCode_frame (.write id offset data)
  have handled : handleMsg tables header ctx = (.ok ⟨false, 0⟩,
      { ctx with
        world := (mmap.device memory dev).write data offset ctx.world
        calls := ctx.calls ++ [.write dev offset data] }) := by
    rw [handleMsg, command]
    simp only
    unfold handleWrite
    rw [if_neg (Nat.not_lt.mpr size)]
    simp only
    rw [if_neg (Nat.not_le.mpr bounded)]
    simp only [resolved, addr, count, sizeofWrReq, payload, mapped]
    rfl
  exact
    { answered := ⟨0, congrArg Prod.fst handled⟩
      world := by rw [handled]; rfl
      reply := fun waits => by cases waits
      inTurn := ⟨size, bounded, dev, resolved⟩ }

/-- What an operation on a device of the client asks for is done on it. -/
theorem accesses_doneOn {op : Op} (accesses : op.Accesses id) (bounded : id.toNat < maxDevices)
    (asked : Frame.received header ctx.rx = op.frame) :
    DoneOn tables (mmap.device memory dev) op header ctx := by
  cases op with
  | read other offset n =>
      obtain ⟨rfl, short⟩ := accesses
      exact read_doneOn mapped resolved short asked
  | write other offset data =>
      obtain ⟨rfl, short⟩ := accesses
      exact write_doneOn mapped resolved bounded short asked
  | _ => cases accesses

end Mapped

/-- A call that took the answer to its read returns the bytes of the device. -/
theorem read_finish {device : IhwioDev World} {op : Op} {id : UInt16} (accesses : op.Accesses id)
    (waits : op.waits = true) {frame : Frame} (command : frame.command = HwioCmd.readResp.code)
    {world : World} (body : frame.body = (device.does op world).1) {rx : List Byte}
    (held : load rx 0 frame.body.length = frame.body) (seenDevices : List HwioDeviceRemote) :
    (op.finish frame.header rx seenDevices).1 = .ok (.bytes (device.does op world).1) := by
  cases op with
  | read other offset n =>
      have length : frame.body.length = n := by
        rw [body]
        exact device.read_length n offset world
      have expected : frame.header.command = HwioCmd.readResp.code := command
      rw [length] at held
      rw [Op.finish, deviceReply, assertResponse, if_neg (not_not.mpr expected), held, body]
  | write other offset data => cases waits
  | _ => cases accesses

/-! ## Before the accesses -/

/-- The calls by which a client gets to its proxies. -/
def Op.Prepares : Op → Prop
  | .ping => True
  | .findDevices spec => Carried spec
  | _ => False

theorem Op.Prepares.inTurn {op : Op} (prepares : op.Prepares) (tables : Tables World)
    {header : HwioPacketHeader} {ctx : Ctx World}
    (asked : Frame.received header ctx.rx = op.frame) : InTurn tables header ctx op := by
  cases op with
  | ping =>
      have same := (load_of_received asked).1
      show RequestFramed tables header ctx
      rw [same]
      exact show UInt16.ofNat 0 = 0 from rfl
  | findDevices spec => exact lookup_inTurn tables prepares asked
  | _ => cases prepares

/-! ## A run -/

namespace Joint

variable {tables : Tables (Observed World)} {master : Fd} {tx : List Byte}
variable {world : Observed World} {owner : ClientPtr} {txBuffer rxBuffer : List Byte}
variable {setup accesses : List Op} {remote : HwioDeviceRemote} {mmap : HwioDeviceMmap}
variable {sys : MmapSys World} {memory : MappedMemory World} {dev : DevPtr}
variable {joint : Joint (Observed World)}

/-- A single client obtained a proxy of a mapped device by its first calls. -/
structure Obtained (tables : Tables (Observed World)) (start : HwioServer (Observed World))
    (owner : ClientPtr) (setup : List Op) (remote : HwioDeviceRemote) (mmap : HwioDeviceMmap)
    (sys : MmapSys World) (memory : MappedMemory World) (dev : DevPtr)
    (joint : Joint (Observed World)) : Prop where
  mapped : tables.device dev = mmap.served sys memory dev
  prepares : ∀ op ∈ setup, op.Prepares
  small : remote.id.toNat < maxDevices
  sole : Sole owner joint.server.trace
  given : ∃ header ctx, (header, ctx) ∈ (joint.requests tables start owner).take setup.length ∧
    Gives tables header ctx remote.id dev

/-- The world that the first requests of the client left. -/
def met (tables : Tables World) (start : HwioServer World) (owner : ClientPtr)
    (joint : Joint World) (count : Nat) : World :=
  worldAfter tables ((joint.requests tables start owner).take count) start.world

theorem met_succ {tables : Tables World} {start : HwioServer World} {joint : Joint World}
    {k : Nat} {header : HwioPacketHeader} {ctx : Ctx World}
    (request : (joint.requests tables start owner)[k]? = some (header, ctx)) :
    joint.met tables start owner (k + 1) = (handleMsg tables header ctx).2.world := by
  rw [met, List.take_add_one, request, worldAfter, Option.toList_some, List.getLast?_concat]
  rfl

/-- A request of a single client meets what the one before it left. -/
theorem request_world {tables : Tables World} {start : HwioServer World} {joint : Joint World}
    (sole : Sole owner joint.server.trace) {k : Nat} {header : HwioPacketHeader} {ctx : Ctx World}
    (request : (joint.requests tables start owner)[k]? = some (header, ctx)) :
    ctx.world = joint.met tables start owner k := by
  obtain ⟨front, offset, rx, back, split, asked, rfl⟩ := requestsOf_split request
  have part : Sole owner front := sole.mono (split ▸ List.subset_append_left _ _)
  show (start.service.after tables front).world = _
  rw [part.world, asked]
  rfl

/-- The server of a single client is in the world that the last request left. -/
theorem Reached.world_eq {ops : List Op}
    (reached : Reached (prepared tables master tx world) owner
      (Client.connect txBuffer rxBuffer ops) joint)
    (sole : Sole owner joint.server.trace) :
    joint.server.world = joint.met tables (prepared tables master tx world) owner
      (joint.requests tables (prepared tables master tx world) owner).length := by
  have service := reached.linked.reached.interned.service
  have same := congrArg Service.world service
  rw [met, List.take_length]
  exact same.trans sole.world

section Obtained

variable (reached : Reached (prepared tables master tx world) owner
    (Client.connect txBuffer rxBuffer (setup ++ accesses)) joint)
  (obtained : Obtained tables (prepared tables master tx world) owner setup remote mmap sys memory
    dev joint)
  (each : ∀ op ∈ accesses, op.Accesses remote.id)

include reached obtained each

/-- The requests behind the first ones are those of the accesses, and are done on
the device. -/
theorem Reached.access_doneOn {i : Nat} {header : HwioPacketHeader} {ctx : Ctx (Observed World)}
    (request : (joint.requests tables (prepared tables master tx world)
      owner)[setup.length + i]? = some (header, ctx)) :
    ∃ op, accesses[i]? = some op ∧
      DoneOn tables (mmap.device memory dev) op header ctx := by
  have linked := reached.linked
  obtain ⟨op, listed, asked⟩ := linked.request_op request
  rw [List.getElem?_append_right (Nat.le_add_right _ _), Nat.add_sub_cancel_left] at listed
  have resolved := linked.reached.interned.resolved (Nat.le_add_right setup.length i)
    obtained.given request
  exact ⟨op, listed, accesses_doneOn obtained.mapped resolved
    (each op (List.mem_of_getElem? listed)) obtained.small asked⟩

/-- All requests are answered as their calls expect. -/
theorem Reached.accesses_inTurn (k : Nat) :
    joint.InTurnBefore tables (prepared tables master tx world) owner k := by
  intro earlier call header ctx _ done request
  have linked := reached.linked
  have listed := linked.done_op done
  by_cases first : earlier < setup.length
  · rw [List.getElem?_append_left first] at listed
    exact (obtained.prepares call.op (List.mem_of_getElem? listed)).inTurn tables
      (linked.request_frame done request)
  · obtain ⟨i, rfl⟩ := Nat.exists_eq_add_of_le (Nat.le_of_not_lt first)
    obtain ⟨op, at_op, doneOn⟩ := reached.access_doneOn obtained each request
    rw [List.getElem?_append_right (Nat.le_add_right _ _), Nat.add_sub_cancel_left, at_op] at listed
    obtain rfl := Option.some.inj listed
    exact doneOn.inTurn

/-- The requests of the accesses change the world as the accesses do when they
are made on the device. -/
theorem Reached.met_accesses {i : Nat}
    (asked : setup.length + i ≤
      (joint.requests tables (prepared tables master tx world) owner).length) :
    joint.met tables (prepared tables master tx world) owner (setup.length + i) =
      (runAll (mmap.device memory dev).does (accesses.take i)
        (joint.met tables (prepared tables master tx world) owner setup.length)).2 := by
  induction i with
  | zero => rfl
  | succ i before =>
      have inside : setup.length + i <
          (joint.requests tables (prepared tables master tx world) owner).length := asked
      have request := List.getElem?_eq_getElem inside
      obtain ⟨op, listed, doneOn⟩ := reached.access_doneOn obtained each request
      rw [← Nat.add_assoc, met_succ request, doneOn.world,
        request_world obtained.sole request, before (Nat.le_of_lt inside), List.take_add_one,
        listed, Option.toList_some, runAll_snoc]

/-- A read that returned gives the bytes that it gives when it is made on the
device. -/
theorem Reached.access_result {i : Nat} {call : Done}
    (done : joint.client.done[setup.length + i]? = some call) (waits : call.op.waits = true) :
    accesses[i]? = some call.op ∧ call.result = .ok (.bytes ((mmap.device memory dev).does call.op
      (runAll (mmap.device memory dev).does (accesses.take i)
        (joint.met tables (prepared tables master tx world) owner setup.length)).2).1) := by
  have linked := reached.linked
  have listed := linked.done_op done
  rw [List.getElem?_append_right (Nat.le_add_right _ _), Nat.add_sub_cancel_left] at listed
  refine ⟨listed, ?_⟩
  have received := linked.consistent.waits done
  rw [waits, Option.isSome_iff_exists] at received
  obtain ⟨frame, taken⟩ := received
  obtain ⟨⟨header, ctx, request, _⟩, whole⟩ :=
    replies_matched reached done taken (reached.accesses_inTurn obtained each _)
  obtain ⟨op, at_op, doneOn⟩ := reached.access_doneOn obtained each request
  obtain rfl := Option.some.inj (listed.symm.trans at_op)
  have bytes := whole header ctx request doneOn.inTurn
  obtain ⟨sent, reply, command, body⟩ := doneOn.reply waits
  obtain rfl : frame = sent := Frame.selfDelimiting.injective (bytes.trans reply)
  have inside := (List.getElem?_eq_some_iff.mp request).1
  rw [← reached.met_accesses obtained each (Nat.le_of_lt inside),
    ← request_world obtained.sole request]
  obtain ⟨held, result⟩ := (linked.consistent.concluded_at done).2 frame taken
  rw [result]
  exact read_finish (each _ (List.mem_of_getElem? listed)) waits command body held _

/-- An access can return when it is answered. -/
theorem Reached.access_returns {op : Op} {waitingFor : Option HwioPacketHeader} {bytesRead : Nat}
    (phase : joint.client.phase = .receiving op waitingFor bytesRead)
    (past : setup.length ≤ joint.client.done.length)
    (asked : joint.client.done.length <
      (joint.requests tables (prepared tables master tx world) owner).length)
    (sent : ((joint.requests tables (prepared tables master tx world) owner).map
      (answerTo tables)).flatten <+: sentTo owner joint.server.trace) :
    joint.Returns (prepared tables master tx world) owner
      (Client.connect txBuffer rxBuffer (setup ++ accesses)) := by
  have linked := reached.linked
  have inTurn := reached.accesses_inTurn obtained each joint.client.done.length
  obtain ⟨i, place⟩ := Nat.exists_eq_add_of_le past
  obtain ⟨⟨header, ctx⟩, request⟩ : ∃ request, (joint.requests tables
      (prepared tables master tx world) owner)[joint.client.done.length]? = some request :=
    ⟨_, List.getElem?_eq_getElem asked⟩
  have begun : joint.client.started[joint.client.done.length]? = some op := by
    rw [Client.started, phase, List.getElem?_append_right (by simp), List.length_map, Nat.sub_self]
    rfl
  have listed := linked.started_op begun
  rw [place, List.getElem?_append_right (Nat.le_add_right _ _), Nat.add_sub_cancel_left] at listed
  have there := request
  rw [place] at there
  obtain ⟨other, at_op, doneOn⟩ := reached.access_doneOn obtained each there
  obtain rfl := Option.some.inj (listed.symm.trans at_op)
  have waits := linked.consistent.waiting op waitingFor bytesRead phase
  obtain ⟨frame, reply, _, body⟩ := doneOn.reply waits
  apply reached.returns inTurn phase request reply _ sent
  have short := each op (List.mem_of_getElem? listed)
  rw [body]
  cases op with
  | read id offset n =>
      have length := (mmap.device memory dev).read_length n offset ctx.world
      exact Nat.le_trans (Nat.le_of_eq length) (Nat.le_trans (Nat.le_add_left n _) short.2)
  | write id offset data => cases waits
  | _ => cases short

end Obtained

end Joint

/-- The accesses of an operation are recorded behind the ones before it. -/
theorem HwioDeviceMmap.does_prefix (mmap : HwioDeviceMmap) (memory : MappedMemory World)
    (dev : DevPtr) (op : Op) (observed : Observed World) :
    observed.accesses <+: ((mmap.device memory dev).does op observed).2.accesses := by
  cases op with
  | read id offset n =>
      obtain ⟨accesses, appended, _⟩ := mmap.read_accessed memory dev n offset observed
      exact ⟨_, appended.symm⟩
  | write id offset data =>
      obtain ⟨accesses, appended, _⟩ := mmap.write_accessed memory dev data offset observed
      exact ⟨_, appended.symm⟩
  | _ => exact List.prefix_rfl

/-- In every state of every run of a server and of its single client, which
obtained a proxy of a mapped device by its first calls and then calls it: when
the server is done with the requests of some of these calls, it has made the
accesses that making the calls on the device makes, and no others before that; a
read that returned gives the same bytes; every frame that a call took is all of
the answer to the request of that call; and every call can be sent, is answered,
and can return when all of its answer was sent. -/
theorem remote_access_refines {tables : Tables (Observed World)} {master : Fd} {tx : List Byte}
    {world : Observed World} {owner : ClientPtr} {txBuffer rxBuffer : List Byte}
    {setup : List Op} {remote : HwioDeviceRemote} {calls : List DevCall} {mmap : HwioDeviceMmap}
    {sys : MmapSys World} {memory : MappedMemory World} {dev : DevPtr}
    {joint : Joint (Observed World)}
    (reached : Joint.Reached (prepared tables master tx world) owner
      (Client.connect txBuffer rxBuffer (setup ++ calls.flatMap remote.call)) joint)
    (obtained : joint.Obtained tables (prepared tables master tx world) owner setup remote mmap sys
      memory dev)
    (allowed : ∀ call ∈ calls, call.Allowed) :
    let start := prepared tables master tx world
    let device := mmap.device memory dev
    let begun := joint.met tables start owner setup.length
    let requests := joint.requests tables start owner
    (∀ before after, calls = before ++ after →
      requests.length = setup.length + (before.flatMap remote.call).length →
        joint.server.world = (runAll device.call before begun).2) ∧
      (setup.length ≤ requests.length →
        begun.accesses <+: joint.server.world.accesses ∧
          joint.server.world.accesses <+: (runAll device.call calls begun).2.accesses) ∧
      (∀ before call after, calls = before ++ call :: after → call.reads = true →
        ∀ done, joint.client.done[setup.length + (before.flatMap remote.call).length]? = some done →
          done.result = .ok (.bytes (device.call call (runAll device.call before begun).2).1)) ∧
      (∀ (k : Nat) done frame, joint.client.done[k]? = some done → done.frame = some frame →
        ∃ header ctx, requests[k]? = some (header, ctx) ∧
          Frame.received header ctx.rx = done.op.frame ∧
          frame.bytes = replyBytes (handleMsg tables header ctx)) ∧
      (∀ op ∈ calls.flatMap remote.call, op.Asserted ∧ op.Fits) ∧
      (∀ (k : Nat) header ctx, setup.length ≤ k → requests[k]? = some (header, ctx) →
        ∃ size, (handleMsg tables header ctx).1 = .ok ⟨false, size⟩) ∧
      ∀ op waitingFor bytesRead, joint.client.phase = .receiving op waitingFor bytesRead →
        setup.length ≤ joint.client.done.length → joint.client.done.length < requests.length →
        (requests.map (answerTo tables)).flatten <+: sentTo owner joint.server.trace →
          joint.Returns start owner
            (Client.connect txBuffer rxBuffer (setup ++ calls.flatMap remote.call)) := by
  intro start device begun requests
  have halves := mmap.device_inHalves memory dev
  have each : ∀ op ∈ calls.flatMap remote.call, op.Accesses remote.id := by
    intro op member
    obtain ⟨call, among, made⟩ := List.mem_flatMap.mp member
    exact remote.call_accesses (allowed call among) op made
  have some_calls : ∀ before ⊆ calls, ∀ observed, (runAll device.does (before.flatMap remote.call)
      observed).2 = (runAll device.call before observed).2 := by
    intro before part observed
    exact runAll_flatMap before
      (fun call member => halves.does_call remote (allowed call (part member))) observed
  have now := reached.world_eq obtained.sole
  refine ⟨?_, ?_, ?_, ?_, ?_, ?_, ?_⟩
  · rintro before after rfl handled
    have made := reached.met_accesses obtained each (Nat.le_of_eq handled.symm)
    rw [List.flatMap_append, List.take_left] at made
    rw [now, handled, made]
    exact some_calls before (List.subset_append_left _ _) begun
  · intro past
    obtain ⟨i, handled⟩ := Nat.exists_eq_add_of_le past
    have made := reached.met_accesses obtained each (Nat.le_of_eq handled.symm)
    have grows : ∀ ops observed, observed.accesses <+: (runAll device.does ops observed).2.accesses := by
      intro ops
      exact @runAll_related _ _ _ device.does (fun first second => first.accesses <+: second.accesses)
        (fun _ => List.prefix_rfl) (fun _ _ _ => List.IsPrefix.trans) ops
        fun op _ => mmap.does_prefix memory dev op
    rw [now, handled, made, ← some_calls calls (List.Subset.refl _)]
    refine ⟨grows _ begun, ?_⟩
    have rest := grows ((calls.flatMap remote.call).drop i)
      (runAll device.does ((calls.flatMap remote.call).take i) begun).2
    have whole := congrArg Prod.snd (runAll_append device.does ((calls.flatMap remote.call).take i)
      ((calls.flatMap remote.call).drop i) begun)
    rw [List.take_append_drop] at whole
    rw [whole]
    exact rest
  · rintro before call after rfl reads done returned
    have inside : call ∈ before ++ call :: after :=
      List.mem_append_right _ List.mem_cons_self
    have returns := halves.does_returns remote (allowed call inside)
      (runAll device.call before begun).2
    rw [if_pos reads] at returns
    obtain ⟨op, one, waits, bytes⟩ := returns
    have listed : ((before ++ call :: after).flatMap remote.call)[(before.flatMap
        remote.call).length]? = some op := by
      rw [List.flatMap_append, List.getElem?_append_right (Nat.le_refl _), Nat.sub_self,
        List.flatMap_cons, one]
      rfl
    have first : done.op = op := by
      have program := reached.linked.done_op returned
      rw [List.getElem?_append_right (Nat.le_add_right _ _), Nat.add_sub_cancel_left, listed]
        at program
      exact (Option.some.inj program).symm
    obtain ⟨_, result⟩ := reached.access_result obtained each returned (by rw [first, waits])
    have early : ((before ++ call :: after).flatMap remote.call).take
        (before.flatMap remote.call).length = before.flatMap remote.call := by
      rw [List.flatMap_append, List.take_left]
    rw [result, first, early, some_calls before (List.subset_append_left _ _)]
    exact congrArg (fun bytes => Except.ok (Result.bytes bytes)) bytes
  · intro k done frame returned taken
    have inTurn := reached.accesses_inTurn obtained each
    obtain ⟨⟨header, ctx, request, asked, _⟩, whole⟩ :=
      replies_matched reached returned taken (inTurn k)
    exact ⟨header, ctx, request, asked, whole header ctx request
      (inTurn (k + 1) k done header ctx (Nat.lt_succ_self k) returned request)⟩
  · intro op member
    exact ⟨(each op member).asserted, (each op member).fits⟩
  · intro k header ctx past request
    obtain ⟨i, rfl⟩ := Nat.exists_eq_add_of_le past
    obtain ⟨_, _, doneOn⟩ := reached.access_doneOn obtained each request
    exact doneOn.answered
  · intro op waitingFor bytesRead phase past asked sent
    exact reached.access_returns obtained each phase past asked sent

/-- Every file is opened and mapped. -/
def openSys : MmapSys UInt8 where
  openFile world := ((3, []), world)
  mmap _ _ _ world := (true, world)

/-- A mapping that holds one byte. -/
def byteMemory : MappedMemory UInt8 where
  load8 _ world := (world, world)
  load32 _ world := (world.toUInt32, world)
  store8 _ value _ := value
  store32 _ value _ := value.toUInt8

/-- A server with a bus that finds a page of this memory for every query. -/
def registerTables : Tables (Observed UInt8) where
  device := onePage.served openSys byteMemory
  buses := [⟨fun _ world => (.ok [0], world)⟩]
  plugins := ∅
  pluginsFast := []
  pluginsFastNames := []

/-- The byte is zero, and no device is open. -/
def closedRegister : Observed UInt8 := ⟨0, fun _ => ⟨-1, false⟩, []⟩

/-- The proxy of the page. -/
def pageProxy : HwioDeviceRemote := ⟨[anySpec], 0⟩

theorem page_id_fits : ([0, 0] : List Byte).length < 65536 := by decide

theorem page_byte_fits : ([7] : List Byte).length < 65536 := by decide

/-- A client that looked up the page, wrote the register and read it, and its
server; the write and the read arrived at once. -/
def wroteAndRead : Joint (Observed UInt8) where
  server := (poolClientMsgs
    (loneClient ((pageProxy.write8 8 7).frame.bytes ++ (pageProxy.read8 8).frame.bytes))
    (loneRun registerTables [] closedRegister queryFrame)).2
  running := true
  client :=
    (((((Client.connect [] [] [.findDevices [anySpec], pageProxy.write8 8 7, pageProxy.read8 8]).waiting
      (.findDevices [anySpec]) [pageProxy.write8 8 7, pageProxy.read8 8]).took
      (.findDevices [anySpec]) ⟨7, [0, 0], page_id_fits⟩).told (pageProxy.write8 8 7)
      [pageProxy.read8 8]).waiting (pageProxy.read8 8) []).took (pageProxy.read8 8)
      ⟨2, [7], page_byte_fits⟩

theorem wroteAndRead_reached : Joint.Reached (prepared registerTables 3 [] closedRegister) 0
    (Client.connect [] [] ([.findDevices [anySpec]] ++
      [DevCall.write8 8 7, .read8 8].flatMap pageProxy.call)) wroteAndRead := by
  have asked := (Joint.Reached.start : Joint.Reached
    (prepared registerTables 3 [] closedRegister) 0
    (Client.connect [] [] [.findDevices [anySpec], pageProxy.write8 8 7, pageProxy.read8 8]) _).waits
      rfl rfl trivial (by decide +kernel) rfl
  have served := asked.served queryFrame (by decide +kernel)
    (by decide +kernel) (by decide +kernel) (by decide +kernel)
  have found := served.takes rfl ⟨7, [0, 0], by decide⟩ (by decide) (by decide +kernel)
  have told := found.tells rfl rfl (by decide) (by decide +kernel) rfl
  have both := (told.waits rfl rfl (by decide) (by decide +kernel) rfl).passes
    (loneClient ((pageProxy.write8 8 7).frame.bytes ++ (pageProxy.read8 8).frame.bytes))
    (by decide +kernel) (by decide +kernel)
  exact both.takes rfl ⟨2, [7], by decide⟩ (by decide) (by decide +kernel)

theorem wroteAndRead_obtained : wroteAndRead.Obtained registerTables
    (prepared registerTables 3 [] closedRegister) 0 [.findDevices [anySpec]] pageProxy onePage
    openSys byteMemory 0 where
  mapped := rfl
  prepares op member := by
    obtain rfl := List.mem_singleton.mp member
    exact anySpec_carried
  small := by decide
  sole other offset header rx member := by
    have all : ∀ event ∈ wroteAndRead.server.trace, actor event = none ∨ actor event = some 0 := by
      decide +kernel
    rcases all _ member with nobody | client
    · cases nobody
    · exact Option.some.inj client
  given := by
    have each : ∀ request ∈ (wroteAndRead.requests registerTables
        (prepared registerTables 3 [] closedRegister) 0).take 1,
        (handleMsg registerTables request.1 request.2).1 = .ok ⟨false, 5⟩ ∧
          (foundIn (handleMsg registerTables request.1 request.2).2.calls)[0]? = some 0 ∧
            loadU16 (handleMsg registerTables request.1 request.2).2.tx (idOffset 0) = 0 := by
      decide +kernel
    have count : ((wroteAndRead.requests registerTables
        (prepared registerTables 3 [] closedRegister) 0).take 1).length = 1 := by decide +kernel
    obtain ⟨⟨header, ctx⟩, one⟩ := List.length_eq_one_iff.mp count
    have member : (header, ctx) ∈ (wroteAndRead.requests registerTables
        (prepared registerTables 3 [] closedRegister) 0).take 1 := one ▸ List.mem_cons_self
    obtain ⟨answered, found, id⟩ := each _ member
    exact ⟨header, ctx, member, _, 0, answered, found, id.symm⟩

/-- The write and the read behind it are done on the device in this order. -/
theorem register_read_back :
    wroteAndRead.server.world.accesses = [(0, .store8 8 7), (0, .load8 8 7)] ∧
      ∀ done, wroteAndRead.client.done[2]? = some done → done.result = .ok (.bytes [7]) := by
  have allowed : ∀ call ∈ [DevCall.write8 8 7, .read8 8], call.Allowed := by
    intro call member
    rcases List.mem_cons.mp member with rfl | member
    · exact ⟨by decide, nofun, nofun⟩
    · obtain rfl := List.mem_singleton.mp member
      exact ⟨by decide, nofun, nofun⟩
  obtain ⟨worlds, _, reads, _⟩ :=
    remote_access_refines wroteAndRead_reached wroteAndRead_obtained allowed
  have both : ∀ begun : Observed UInt8, begun.accesses = [] →
      (runAll (onePage.device byteMemory 0).call [.write8 8 7, .read8 8] begun).2.accesses =
        [(0, .store8 8 7), (0, .load8 8 7)] := by
    intro begun none
    show begun.accesses ++ [(0, .store8 8 7)] ++ [(0, .load8 8 7)] = _
    rw [none]
    rfl
  have none : (wroteAndRead.met registerTables (prepared registerTables 3 [] closedRegister) 0
      1).accesses = [] := by decide +kernel
  have made := worlds [.write8 8 7, .read8 8] [] rfl (by decide +kernel)
  constructor
  · exact (congrArg Observed.accesses made).trans (both _ none)
  · intro done returned
    exact reads [.write8 8 7] (.read8 8) [] rfl rfl done returned

end Hwio
