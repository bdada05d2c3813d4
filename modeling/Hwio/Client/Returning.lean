import Hwio.Client.Matching

/-!
Contract: the calls of a client return.

Owns that a call which waits can take the answer to its request and return when
all of this answer was sent, wherever `recv` split what came of it so far.

Does not own whether the server answers.
-/

namespace Hwio

open Library HwioServer

variable {World : Type}

/-- No more was read than `rx_bytes` was asked for. -/
def Phase.Bounded : Phase → Prop
  | .receiving _ header bytesRead => bytesRead ≤ rxSize header
  | _ => True

theorem ClientStep.bounded {client after : Client} {available : List Byte}
    (step : ClientStep available client after) : after.phase.Bounded := by
  cases step with
  | starts op rest phase next asserted fits => trivial
  | sends op bytesWr count phase some atMost => trivial
  | unanswered op phase waits => trivial
  | awaits op phase waits => exact Nat.zero_le _
  | receives op header bytesRead chunk phase some atMost arrived => exact atMost
  | header op phase asserted => exact Nat.zero_le _
  | returns op header phase => trivial

namespace Joint

variable {start server : HwioServer World} {owner : ClientPtr} {running : Bool}
variable {connected client : Client} {op : Op} {joint : Joint World}

/-- The call that a client waits in can return. -/
def Returns (start : HwioServer World) (owner : ClientPtr) (connected : Client)
    (joint : Joint World) : Prop :=
  ∃ after call, Reached start owner connected { joint with client := after } ∧
    after.done = joint.client.done ++ [call] ∧ joint.client.phase.op = [call.op]

theorem Reached.bounded (reached : Reached start owner connected joint)
    (begun : connected.phase.Bounded) : joint.client.phase.Bounded := by
  induction reached with
  | start => exact begun
  | pass before sys running delivered kept => exact kept
  | call before step kept => exact step.bounded

/-! ## The rest of a frame -/

/-- A call that has the header returns with the rest of the body. -/
theorem Reached.returns_body (before : Reached start owner connected ⟨server, running, client⟩)
    {header : HwioPacketHeader} {bytesRead : Nat}
    (phase : client.phase = .receiving op (some header) bytesRead) {rest : List Byte}
    (whole : bytesRead + rest.length = header.bodyLen.toNat)
    (arrived : client.received ++ rest <+: sentTo owner server.trace) :
    Returns start owner connected ⟨server, running, client⟩ := by
  by_cases empty : rest = []
  · have read : bytesRead = header.bodyLen.toNat := by
      rw [← whole, empty]
      rfl
    rw [read] at phase
    exact ⟨_, _, before.call (.returns op header phase), rfl, congrArg Phase.op phase⟩
  · have came := before.call (.receives op (some header) bytesRead rest phase empty
      (Nat.le_of_eq whole) arrived)
    have returned := came.call (.returns op header (by rw [whole]))
    exact ⟨_, _, returned, rfl, congrArg Phase.op phase⟩

/-- A call that has all bytes of the header returns with the body. -/
theorem Reached.returns_header (before : Reached start owner connected ⟨server, running, client⟩)
    (phase : client.phase = .receiving op none sizeofHeader) {frame : Frame}
    (short : frame.body.length ≤ bufferSize)
    (read : load client.rxBuffer 0 sizeofHeader = frame.header.bytes)
    (arrived : client.received ++ frame.body <+: sentTo owner server.trace) :
    Returns start owner connected ⟨server, running, client⟩ := by
  have header := HwioPacketHeader.at_of_load read
  have known := before.call (.header op phase (by
    rw [header, Frame.header_bodyLen_toNat]
    exact short))
  obtain ⟨after, call, reached, done, same⟩ := known.returns_body rfl (by
    rw [header, Frame.header_bodyLen_toNat, Nat.zero_add]) arrived
  exact ⟨after, call, reached, done, (congrArg Phase.op phase).trans same⟩

/-- A call that waits returns with the rest of a frame that has its place in
`rx_buffer`. -/
theorem Reached.returns_frame (before : Reached start owner connected ⟨server, running, client⟩)
    {header : Option HwioPacketHeader} {bytesRead : Nat}
    (phase : client.phase = .receiving op header bytesRead) (bounded : client.phase.Bounded)
    {frame : Frame} (short : frame.body.length ≤ bufferSize) {rest : List Byte}
    (whole : client.phase.received client.rxBuffer ++ rest = frame.bytes)
    (arrived : client.received ++ rest <+: sentTo owner server.trace) :
    Returns start owner connected ⟨server, running, client⟩ := by
  rw [phase] at bounded whole
  cases header with
  | some header =>
      rw [Phase.received, Frame.bytes, List.append_assoc] at whole
      obtain ⟨headers, bodies⟩ := List.append_inj whole (by
        rw [HwioPacketHeader.bytes_length, HwioPacketHeader.bytes_length])
      have counted := congrArg List.length bodies
      rw [List.length_append, load_length, ← Frame.header_bodyLen_toNat,
        ← HwioPacketHeader.bytes_injective headers] at counted
      exact before.returns_body phase counted arrived
  | none =>
      -- the rest is that of the header and the body behind it
      have few : bytesRead ≤ sizeofHeader := bounded
      have length : (load client.rxBuffer 0 bytesRead ++ rest.take (sizeofHeader - bytesRead)).length =
          frame.header.bytes.length := by
        have all := congrArg List.length whole
        rw [Phase.received, List.length_append, load_length, Frame.bytes_length] at all
        rw [List.length_append, load_length, List.length_take, HwioPacketHeader.bytes_length]
        omega
      rw [Phase.received, ← List.take_append_drop (sizeofHeader - bytesRead) rest,
        ← List.append_assoc, Frame.bytes] at whole
      obtain ⟨headers, bodies⟩ := List.append_inj whole length
      rw [← List.take_append_drop (sizeofHeader - bytesRead) rest, bodies, ← List.append_assoc]
        at arrived
      by_cases read : bytesRead = sizeofHeader
      · rw [read, Nat.sub_self, List.take_zero, List.append_nil] at headers arrived
        rw [read] at phase
        exact before.returns_header phase short headers arrived
      · generalize rest.take (sizeofHeader - bytesRead) = first at length headers arrived
        rw [List.length_append, load_length, HwioPacketHeader.bytes_length] at length
        have some : first ≠ [] := by
          intro none
          rw [none, List.length_nil] at length
          omega
        have came := before.call (.receives op none bytesRead first phase some
          (Nat.le_of_eq length) ((List.prefix_append _ _).trans arrived))
        have bytes := Consistent.receiving_append client.rxBuffer op none bytesRead first
        rw [length] at came bytes
        obtain ⟨after, call, reached, done, same⟩ :=
          came.returns_header rfl short (bytes.trans headers) arrived
        exact ⟨after, call, reached, done, (congrArg Phase.op phase).trans same⟩

end Joint

/-! ## The answer to a call -/

namespace Joint

variable {tables : Tables World} {master : Fd} {tx : List Byte} {world : World}
variable {owner : ClientPtr} {txBuffer rxBuffer : List Byte} {ops : List Op} {joint : Joint World}

/-- The calls that returned took all answers to their requests. -/
theorem Linked.all_taken
    (linked : Linked tables (prepared tables master tx world) owner ops joint)
    (matched : Matched tables (prepared tables master tx world) owner joint)
    (inTurn : joint.InTurnBefore tables (prepared tables master tx world) owner
      joint.client.done.length)
    (enough : joint.client.done.length ≤
      (joint.requests tables (prepared tables master tx world) owner).length) :
    ((joint.requests tables (prepared tables master tx world) owner).map
      (answerTo tables)).take joint.client.done.length = joint.client.done.map Done.received := by
  apply List.ext_getElem
  · rw [List.length_take, List.length_map, List.length_map, Nat.min_eq_left enough]
  · intro k inside here
    rw [List.length_map] at here
    have taken := linked.taken matched (List.getElem?_eq_getElem here)
      fun earlier call header ctx before => inTurn earlier call header ctx (by omega)
    rw [List.getD_eq_getElem _ _ (by rw [List.length_map]; omega)] at taken
    rw [List.getElem_take, taken, List.getElem_map]

/-- What a call that waits still misses of the answer to its request has come
when this answer was sent with those of the calls before it. -/
theorem Reached.missing_came
    (reached : Reached (prepared tables master tx world) owner
      (Client.connect txBuffer rxBuffer ops) joint)
    (inTurn : joint.InTurnBefore tables (prepared tables master tx world) owner
      joint.client.done.length)
    {op : Op} {waitingFor : Option HwioPacketHeader} {bytesRead : Nat}
    (phase : joint.client.phase = .receiving op waitingFor bytesRead)
    {header : HwioPacketHeader} {ctx : Ctx World}
    (request : (joint.requests tables (prepared tables master tx world)
      owner)[joint.client.done.length]? = some (header, ctx))
    {frame : Frame} (answer : replyBytes (handleMsg tables header ctx) = frame.bytes)
    (sent : ((joint.requests tables (prepared tables master tx world) owner).map
      (answerTo tables)).flatten <+: sentTo owner joint.server.trace) :
    ∃ rest, joint.client.phase.received joint.client.rxBuffer ++ rest = frame.bytes ∧
      joint.client.received ++ rest <+: sentTo owner joint.server.trace := by
  have linked := reached.linked
  have front := linked.receiving reached.matched (congrArg Phase.op phase) inTurn
  have inside := (List.getElem?_eq_some_iff.mp request).1
  have all := linked.all_taken reached.matched inTurn (Nat.le_of_lt inside)
  have now : ((joint.requests tables (prepared tables master tx world) owner).map
      (answerTo tables))[joint.client.done.length]? = some frame.bytes := by
    rw [List.getElem?_map, request]
    exact congrArg some answer
  rw [List.getD_eq_getElem?_getD, now] at front
  obtain ⟨rest, whole⟩ := front
  refine ⟨rest, whole, ?_⟩
  apply List.IsPrefix.trans _ sent
  generalize (joint.requests tables (prepared tables master tx world) owner).map
    (answerTo tables) = answers at all now
  have more := (List.getElem?_eq_some_iff.mp now).1
  have split : answers.flatten = (answers.take joint.client.done.length).flatten ++
      (frame.bytes ++ (answers.drop (joint.client.done.length + 1)).flatten) := by
    rw [← (List.getElem?_eq_some_iff.mp now).2, ← List.flatten_cons, List.getElem_cons_drop,
      ← List.flatten_append, List.take_append_drop]
  rw [split, all, ← List.flatMap_def, linked.consistent.received, List.append_assoc, whole,
    ← List.append_assoc]
  exact List.prefix_append _ _

/-- A call that waits can return when the answer to its request, which has its
place in `rx_buffer`, was sent with those of the calls before it. -/
theorem Reached.returns
    (reached : Reached (prepared tables master tx world) owner
      (Client.connect txBuffer rxBuffer ops) joint)
    (inTurn : joint.InTurnBefore tables (prepared tables master tx world) owner
      joint.client.done.length)
    {op : Op} {waitingFor : Option HwioPacketHeader} {bytesRead : Nat}
    (phase : joint.client.phase = .receiving op waitingFor bytesRead)
    {header : HwioPacketHeader} {ctx : Ctx World}
    (request : (joint.requests tables (prepared tables master tx world)
      owner)[joint.client.done.length]? = some (header, ctx))
    {frame : Frame} (answer : replyBytes (handleMsg tables header ctx) = frame.bytes)
    (short : frame.body.length ≤ bufferSize)
    (sent : ((joint.requests tables (prepared tables master tx world) owner).map
      (answerTo tables)).flatten <+: sentTo owner joint.server.trace) :
    joint.Returns (prepared tables master tx world) owner
      (Client.connect txBuffer rxBuffer ops) := by
  obtain ⟨rest, whole, arrived⟩ := reached.missing_came inTurn phase request answer sent
  exact reached.returns_frame phase (reached.bounded trivial) short whole arrived

end Joint

end Hwio
