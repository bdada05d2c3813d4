import Hwio.Client.Joint
import Hwio.Library.Interning

/-!
Contract: which reply a call takes from the connection.

Owns the requests after which a client and its server are in step, and that as
long as they are, every frame that a call takes is the answer to the request of
that call.

Does not own what the calls make of the replies.
-/

namespace Hwio

open Library HwioServer

variable {World : Type}

/-! ## Requests that are not answered -/

theorem replyBytes_ok_eq_nil_iff (res : PProcRes) (ctx : Ctx World) :
    replyBytes (.ok res, ctx) = [] ↔ res.txSize = 0 := by
  rw [replyBytes, ← List.length_eq_zero_iff, load_length]

theorem replyBytes_sendErr_ne (ctx : Ctx World) (errCode : HwioServerError) (msg : Text) :
    replyBytes (ctx.sendErr errCode msg) ≠ [] := by
  intro none
  have empty := (replyBytes_ok_eq_nil_iff _ _).mp none
  cases empty

/-- A plugin call is not answered when the plugin has no result, or throws
something other than a run-time error. -/
def PluginSilent (plugin : PluginInfo World) (dev : DevPtr) (argsOffset : Nat)
    (ctx : Ctx World) : Prop :=
  match (plugin.fn dev (load ctx.rx argsOffset plugin.argsSize) ctx.world).1.thrown with
  | none => plugin.retSize = 0
  | some exn => exn.isRuntimeError = false

theorem callPlugin_silent_iff (plugin : PluginInfo World) (key : PluginKey) (dev : DevPtr)
    (argsOffset : Nat) (ctx : Ctx World) :
    replyBytes (callPlugin plugin key dev argsOffset ctx) = [] ↔
      PluginSilent plugin dev argsOffset ctx := by
  unfold callPlugin PluginSilent
  simp only
  cases (plugin.fn dev (load ctx.rx argsOffset plugin.argsSize) ctx.world).1.thrown with
  | none =>
      simp only
      by_cases empty : plugin.retSize = 0
      · rw [if_neg (not_not_intro empty), replyBytes_ok_eq_nil_iff]
        exact iff_of_true rfl empty
      · rw [if_pos empty, replyBytes_ok_eq_nil_iff]
        exact iff_of_false (Nat.ne_of_gt (Nat.add_pos_left (by decide) plugin.retSize)) empty
  | some exn =>
      simp only
      cases exn.isRuntimeError with
      | true =>
          rw [if_pos rfl]
          exact iff_of_false (replyBytes_sendErr_ne _ _ _) (by simp)
      | false =>
          rw [if_neg Bool.false_ne_true]
          exact iff_of_true rfl rfl

def RemoteCallSilent (tables : Tables World) (header : HwioPacketHeader) (ctx : Ctx World) :
    Prop :=
  sizeofRemoteCall - 1 ≤ header.bodyLen.toNat ∧
    ∃ dev, clientGetDev ctx.devices (loadU16 ctx.rx 0) = some dev ∧
      ∃ plugin, tables.findPlugin (cstr (ctx.rx.drop 2)) = some plugin ∧
        PluginSilent plugin dev sizeofRemoteCall ctx

theorem handleRemoteCall_silent_iff (tables : Tables World) (header : HwioPacketHeader)
    (ctx : Ctx World) :
    replyBytes (handleRemoteCall tables header ctx) = [] ↔ RemoteCallSilent tables header ctx := by
  unfold handleRemoteCall RemoteCallSilent
  by_cases size : header.bodyLen.toNat < sizeofRemoteCall - 1
  · rw [if_pos size]
    exact iff_of_false (replyBytes_sendErr_ne _ _ _) fun silent =>
      absurd size (Nat.not_lt.mpr silent.1)
  rw [if_neg size]
  simp only [Nat.le_of_not_lt size, true_and]
  cases clientGetDev ctx.devices (loadU16 ctx.rx 0) with
  | none => exact iff_of_false (replyBytes_sendErr_ne _ _ _) nofun
  | some dev =>
      simp only [Option.some.injEq, exists_eq_left']
      cases tables.findPlugin (cstr (ctx.rx.drop 2)) with
      | none => exact iff_of_false (replyBytes_sendErr_ne _ _ _) nofun
      | some plugin =>
          simp only [Option.some.injEq, exists_eq_left']
          exact callPlugin_silent_iff plugin _ dev _ ctx

def FastRemoteCallSilent (tables : Tables World) (header : HwioPacketHeader) (ctx : Ctx World) :
    Prop :=
  sizeofRemoteCallFast - 1 ≤ header.bodyLen.toNat ∧
    ∃ dev, clientGetDev ctx.devices (loadU16 ctx.rx 0) = some dev ∧
      ∃ plugin, tables.pluginsFast[(loadU32 ctx.rx 2).toNat]? = some plugin ∧
        PluginSilent plugin dev sizeofRemoteCallFast ctx

theorem handleFastRemoteCall_silent_iff (tables : Tables World) (header : HwioPacketHeader)
    (ctx : Ctx World) :
    replyBytes (handleFastRemoteCall tables header ctx) = [] ↔
      FastRemoteCallSilent tables header ctx := by
  unfold handleFastRemoteCall FastRemoteCallSilent
  by_cases size : header.bodyLen.toNat < sizeofRemoteCallFast - 1
  · rw [if_pos size]
    exact iff_of_false (replyBytes_sendErr_ne _ _ _) fun silent =>
      absurd size (Nat.not_lt.mpr silent.1)
  rw [if_neg size]
  simp only [Nat.le_of_not_lt size, true_and]
  cases clientGetDev ctx.devices (loadU16 ctx.rx 0) with
  | none => exact iff_of_false (replyBytes_sendErr_ne _ _ _) nofun
  | some dev =>
      simp only [Option.some.injEq, exists_eq_left']
      cases tables.pluginsFast[(loadU32 ctx.rx 2).toNat]? with
      | none => exact iff_of_false (replyBytes_sendErr_ne _ _ _) nofun
      | some plugin =>
          simp only [Option.some.injEq, exists_eq_left']
          exact callPlugin_silent_iff plugin _ dev _ ctx

/-- WRITE is answered just when it is not accepted. -/
theorem handleWrite_silent_iff (tables : Tables World) (header : HwioPacketHeader)
    (ctx : Ctx World) :
    replyBytes (handleWrite tables header ctx) = [] ↔ WriteFramed header ctx := by
  constructor
  · intro silent
    exact (handleWrite_oneFrame_iff tables header ctx).mp (Or.inl silent)
  · rintro ⟨size, limit, dev, resolved⟩
    unfold handleWrite
    rw [if_neg (Nat.not_lt.mpr size)]
    simp only
    rw [if_neg (Nat.not_le.mpr limit), resolved]
    simp only
    split
    · exact (replyBytes_ok_eq_nil_iff _ _).mpr rfl
    · rfl

/-! ## Being in step -/

/-- A request is answered as its call expects: in one frame or not yet when the
call waits for a reply, and not at all when it does not. -/
def InTurn (tables : Tables World) (header : HwioPacketHeader) (ctx : Ctx World) : Op → Prop
  | .write _ _ _ => WriteFramed header ctx
  | .remoteCall _ _ _ none => RemoteCallSilent tables header ctx
  | .remoteCallFast _ _ _ none => FastRemoteCallSilent tables header ctx
  | _ => RequestFramed tables header ctx

theorem InTurn.reply {tables : Tables World} {header : HwioPacketHeader} {ctx : Ctx World}
    {op : Op} (inTurn : InTurn tables header ctx op) (asked : header.command = op.command.code) :
    if op.waits then OneFrame (handleMsg tables header ctx)
    else replyBytes (handleMsg tables header ctx) = [] := by
  have framed : InTurn tables header ctx op = RequestFramed tables header ctx →
      OneFrame (handleMsg tables header ctx) := by
    intro same
    rw [handleMsg_oneFrame_iff, ← same]
    exact inTurn
  have command := HwioCmd.ofCode_code op.command
  rw [← asked] at command
  cases op with
  | write id offset data =>
      rw [handleMsg, command]
      exact (handleWrite_silent_iff tables header ctx).mpr inTurn
  | remoteCall id fnName args retSize =>
      cases retSize with
      | none =>
          rw [handleMsg, command]
          exact (handleRemoteCall_silent_iff tables header ctx).mpr inTurn
      | some size => exact framed rfl
  | remoteCallFast id fnId args retSize =>
      cases retSize with
      | none =>
          rw [handleMsg, command]
          exact (handleFastRemoteCall_silent_iff tables header ctx).mpr inTurn
      | some size => exact framed rfl
  | ping => exact framed rfl
  | findDevices spec => exact framed rfl
  | read id offset n => exact framed rfl
  | getRpcFnId id fnName => exact framed rfl
  | isRpcAvailable id fnName => exact framed rfl

/-! ## The replies of a run -/

/-- The calls before the `k`-th one were in step. -/
def Joint.InTurnBefore (tables : Tables World) (start : HwioServer World) (owner : ClientPtr)
    (joint : Joint World) (k : Nat) : Prop :=
  ∀ earlier call header ctx, earlier < k → joint.client.done[earlier]? = some call →
    (joint.requests tables start owner)[earlier]? = some (header, ctx) →
      InTurn tables header ctx call.op

/-- The frame that a call took begins the answer to the request of that call. -/
def Joint.Answered (tables : Tables World) (start : HwioServer World) (owner : ClientPtr)
    (joint : Joint World) (k : Nat) (call : Done) (frame : Frame) : Prop :=
  ∃ header ctx, (joint.requests tables start owner)[k]? = some (header, ctx) ∧
    Frame.received header ctx.rx = call.op.frame ∧
    frame.bytes <+: replyBytes (handleMsg tables header ctx)

/-- Every frame that was taken is an answer of its own call when the calls
before it were in step. -/
def Joint.Matched (tables : Tables World) (start : HwioServer World) (owner : ClientPtr)
    (joint : Joint World) : Prop :=
  ∀ (k : Nat) call frame, joint.client.done[k]? = some call → call.frame = some frame →
    joint.InTurnBefore tables start owner k → joint.Answered tables start owner k call frame

theorem Consistent.waits {ops : List Op} {client : Client} (consistent : Consistent ops client)
    {k : Nat} {call : Done} (done : client.done[k]? = some call) :
    call.frame.isSome = call.op.waits := (consistent.concluded_at done).1

namespace Joint

variable {tables : Tables World} {master : Fd} {tx : List Byte} {world : World}
variable {owner : ClientPtr} {txBuffer rxBuffer : List Byte} {ops : List Op} {joint : Joint World}

/-- The calls that were begun are the first of the program. -/
theorem Linked.started_op
    (linked : Linked tables (prepared tables master tx world) owner ops joint) {k : Nat} {op : Op}
    (begun : joint.client.started[k]? = some op) : ops[k]? = some op := by
  rw [← linked.consistent.program]
  exact getElem?_of_isPrefix (List.prefix_append _ _) begun

theorem Linked.done_op
    (linked : Linked tables (prepared tables master tx world) owner ops joint) {k : Nat}
    {call : Done} (done : joint.client.done[k]? = some call) : ops[k]? = some call.op := by
  apply linked.started_op
  apply getElem?_of_isPrefix (List.prefix_append _ _)
  rw [List.getElem?_map, done]
  rfl

/-- The `k`-th request is that of the `k`-th call of the program. -/
theorem Linked.request_op
    (linked : Linked tables (prepared tables master tx world) owner ops joint) {k : Nat}
    {header : HwioPacketHeader} {ctx : Ctx World}
    (request : (joint.requests tables (prepared tables master tx world) owner)[k]? =
      some (header, ctx)) :
    ∃ op, ops[k]? = some op ∧ Frame.received header ctx.rx = op.frame := by
  have begun : (joint.client.started.map Op.frame)[k]? = some (frameOf (header, ctx)) := by
    apply getElem?_of_isPrefix linked.requests_prefix
    rw [List.getElem?_map, request]
    rfl
  rw [List.getElem?_map, Option.map_eq_some_iff] at begun
  obtain ⟨op, started, same⟩ := begun
  exact ⟨op, linked.started_op started, same.symm⟩

/-- The `k`-th request is that of the `k`-th call that returned. -/
theorem Linked.request_frame
    (linked : Linked tables (prepared tables master tx world) owner ops joint) {k : Nat}
    {call : Done} (done : joint.client.done[k]? = some call) {header : HwioPacketHeader}
    {ctx : Ctx World}
    (request : (joint.requests tables (prepared tables master tx world) owner)[k]? =
      some (header, ctx)) : Frame.received header ctx.rx = call.op.frame := by
  obtain ⟨op, listed, asked⟩ := linked.request_op request
  rw [asked, Option.some.inj (listed.symm.trans (linked.done_op done))]

/-- A call that was in step took exactly what was sent for it. -/
theorem Linked.taken
    (linked : Linked tables (prepared tables master tx world) owner ops joint)
    (matched : Matched tables (prepared tables master tx world) owner joint) {k : Nat}
    {call : Done} (done : joint.client.done[k]? = some call)
    (inTurn : joint.InTurnBefore tables (prepared tables master tx world) owner (k + 1)) :
    ((joint.requests tables (prepared tables master tx world) owner).map
      (answerTo tables)).getD k [] = call.received := by
  have waits := linked.consistent.waits done
  have replied : ∀ header ctx,
      (joint.requests tables (prepared tables master tx world) owner)[k]? = some (header, ctx) →
        if call.op.waits then OneFrame (handleMsg tables header ctx)
        else replyBytes (handleMsg tables header ctx) = [] := by
    intro header ctx request
    apply (inTurn k call header ctx (Nat.lt_succ_self k) done request).reply
    exact congrArg Frame.command (linked.request_frame done request)
  rw [List.getD_eq_getElem?_getD, List.getElem?_map]
  cases taken : call.frame with
  | none =>
      rw [taken] at waits
      rw [← waits] at replied
      rw [Done.received, taken]
      cases request : (joint.requests tables (prepared tables master tx world) owner)[k]? with
      | none => rfl
      | some request' => exact replied _ _ request
  | some frame =>
      rw [taken] at waits
      rw [← waits] at replied
      obtain ⟨header, ctx, request, _, front⟩ := matched k call frame done taken
        fun earlier other header ctx before => inTurn earlier other header ctx (Nat.lt_succ_of_lt before)
      rw [Done.received, taken, request]
      show replyBytes (handleMsg tables header ctx) = frame.bytes
      rcases replied header ctx request with none | ⟨other, same⟩
      · rw [none, List.prefix_nil] at front
        rw [none, front]
      · rw [same, ← List.append_nil frame.bytes, ← List.append_nil other.bytes] at front
        rw [same, (Frame.selfDelimiting.head_eq front).1]

/-- While a call waits, what it received comes from the answer to its request,
when all calls before it were in step. -/
theorem Linked.receiving
    (linked : Linked tables (prepared tables master tx world) owner ops joint)
    (matched : Matched tables (prepared tables master tx world) owner joint) {op : Op}
    (phase : joint.client.phase.op = [op])
    (inTurn : joint.InTurnBefore tables (prepared tables master tx world) owner
      joint.client.done.length) :
    joint.client.phase.received joint.client.rxBuffer <+:
      ((joint.requests tables (prepared tables master tx world) owner).map
        (answerTo tables)).getD joint.client.done.length [] := by
  have arrived := linked.received_prefix
  rw [linked.consistent.received, List.flatMap_def] at arrived
  have rest := rest_prefix_of_taken arrived (by
    intro k inside
    rw [List.length_map] at inside
    have done := List.getElem?_eq_getElem inside
    rw [linked.taken matched done fun earlier call header ctx before =>
      inTurn earlier call header ctx (by omega), List.getD_eq_getElem?_getD, List.getElem?_map, done]
    rfl)
  rw [List.length_map] at rest
  -- no request behind that of the waiting call was made
  have few : ((joint.requests tables (prepared tables master tx world) owner).map
      (answerTo tables)).length ≤ joint.client.done.length + 1 := by
    have requests := linked.requests_prefix.length_le
    rw [List.length_map, List.length_map, Client.started, phase, List.length_append,
      List.length_map] at requests
    rw [List.length_map]
    exact requests
  generalize (joint.requests tables (prepared tables master tx world) owner).map
    (answerTo tables) = answers at rest few
  by_cases more : joint.client.done.length < answers.length
  · rw [List.drop_eq_getElem_cons more, List.drop_of_length_le few, List.flatten_cons,
      List.flatten_nil, List.append_nil] at rest
    rw [List.getD_eq_getElem _ _ more]
    exact rest
  · rw [List.drop_of_length_le (Nat.le_of_not_lt more)] at rest
    rw [List.prefix_nil.mp rest]
    exact List.nil_prefix

/-- More requests and calls leave the earlier ones as they are. -/
theorem InTurnBefore.mono {start : HwioServer World} {after : Joint World} {k : Nat}
    (inTurn : after.InTurnBefore tables start owner k)
    (done : joint.client.done <+: after.client.done)
    (requests : joint.requests tables start owner <+: after.requests tables start owner) :
    joint.InTurnBefore tables start owner k :=
  fun earlier call header ctx before old request =>
    inTurn earlier call header ctx before (getElem?_of_isPrefix done old)
      (getElem?_of_isPrefix requests request)

theorem Answered.mono {start : HwioServer World} {after : Joint World} {k : Nat} {call : Done}
    {frame : Frame} (answered : joint.Answered tables start owner k call frame)
    (requests : joint.requests tables start owner <+: after.requests tables start owner) :
    after.Answered tables start owner k call frame := by
  have ⟨header, ctx, request, asked, front⟩ := answered
  exact ⟨header, ctx, getElem?_of_isPrefix requests request, asked, front⟩

/-- A step adds at most one call, and one that took a frame has received it
before. -/
theorem ClientStep.done {client after : Client} {available : List Byte}
    (step : ClientStep available client after) :
    ∃ calls, after.done = client.done ++ calls ∧
      ∀ call ∈ calls, calls = [call] ∧ ∀ frame, call.frame = some frame →
        client.phase.op = [call.op] ∧ client.phase.received client.rxBuffer = frame.bytes := by
  cases step with
  | unanswered op phase waits =>
      refine ⟨_, rfl, fun call member => ?_⟩
      obtain rfl := List.mem_singleton.mp member
      exact ⟨rfl, fun frame none => by cases none⟩
  | returns op header phase =>
      refine ⟨_, rfl, fun call member => ?_⟩
      obtain rfl := List.mem_singleton.mp member
      refine ⟨rfl, fun frame taken => ?_⟩
      obtain rfl := Option.some.inj taken
      rw [phase, Frame.bytes, Frame.received_header, Frame.received_body]
      exact ⟨rfl, rfl⟩
  | _ => exact ⟨[], (List.append_nil _).symm, by simp⟩

theorem Reached.matched
    (reached : Reached (prepared tables master tx world) owner
      (Client.connect txBuffer rxBuffer ops) joint) :
    Matched tables (prepared tables master tx world) owner joint := by
  induction reached with
  | start =>
      intro k call frame done
      cases done
  | @pass joint before sys running delivered kept =>
      intro k call frame done taken inTurn
      obtain ⟨events, trace⟩ := Moves.appends (poolClientMsgs_moves sys joint.server)
      have more : joint.requests tables (prepared tables master tx world) owner <+:
          requestsOf tables (prepared tables master tx world).service owner
            (poolClientMsgs sys joint.server).2.trace := by
        rw [trace, requestsOf_append]
        exact List.prefix_append _ _
      exact (kept k call frame done taken (inTurn.mono List.prefix_rfl more)).mono more
  | @call joint before after step kept =>
      obtain ⟨calls, split, new⟩ := ClientStep.done step
      have longer : joint.client.done <+: after.done := split ▸ List.prefix_append _ _
      intro k call frame done taken inTurn
      have earlier : joint.InTurnBefore tables (prepared tables master tx world) owner k :=
        inTurn.mono longer List.prefix_rfl
      have called : after.done[k]? = some call := done
      change after.done[k]? = some call at done
      rw [split] at done
      by_cases old : k < joint.client.done.length
      · rw [List.getElem?_append_left old] at done
        exact kept k call frame done taken earlier
      · rw [List.getElem?_append_right (Nat.le_of_not_lt old)] at done
        obtain ⟨only, received⟩ := new call (List.mem_of_getElem? done)
        obtain ⟨phase, bytes⟩ := received frame taken
        have last : k = joint.client.done.length := by
          rw [only] at done
          have inside := (List.getElem?_eq_some_iff.mp done).1
          rw [List.length_singleton] at inside
          omega
        subst last
        have front := before.linked.receiving kept phase earlier
        rw [bytes, List.getD_eq_getElem?_getD, List.getElem?_map] at front
        cases request : (joint.requests tables (prepared tables master tx world)
            owner)[joint.client.done.length]? with
        | none =>
            rw [request] at front
            have empty := congrArg List.length (List.prefix_nil.mp front)
            rw [Frame.bytes_length] at empty
            simp [sizeofHeader] at empty
        | some asked =>
            rw [request] at front
            exact ⟨asked.1, asked.2, request,
              (before.call step).linked.request_frame called request, front⟩

end Joint

/-- In every state of every run of a server, with any clients, and of one of its
clients: a frame that a call took begins the answer to the request of that very
call, and is all of it when this request is in turn, as long as the requests of
the calls before it were: a WRITE is accepted, a plugin called for no result has
none and throws no run-time error, and everything else is answered in one frame
or not yet. -/
theorem replies_matched {tables : Tables World} {master : Fd} {tx : List Byte} {world : World}
    {owner : ClientPtr} {txBuffer rxBuffer : List Byte} {ops : List Op} {joint : Joint World}
    (reached : Joint.Reached (prepared tables master tx world) owner
      (Client.connect txBuffer rxBuffer ops) joint) {k : Nat} {call : Done} {frame : Frame}
    (done : joint.client.done[k]? = some call) (taken : call.frame = some frame)
    (inTurn : joint.InTurnBefore tables (prepared tables master tx world) owner k) :
    joint.Answered tables (prepared tables master tx world) owner k call frame ∧
      ∀ header ctx, (joint.requests tables (prepared tables master tx world) owner)[k]? =
          some (header, ctx) → InTurn tables header ctx call.op →
        frame.bytes = replyBytes (handleMsg tables header ctx) := by
  have matched := reached.matched
  refine ⟨matched k call frame done taken inTurn, fun header ctx request now => ?_⟩
  have whole := reached.linked.taken matched done (by
    intro earlier other otherHeader otherCtx before old asked
    by_cases same : earlier = k
    · subst same
      obtain rfl := Option.some.inj (done.symm.trans old)
      obtain ⟨rfl, rfl⟩ := Prod.mk.inj (Option.some.inj (request.symm.trans asked))
      exact now
    · exact inTurn earlier other otherHeader otherCtx (by omega) old asked)
  rw [List.getD_eq_getElem?_getD, List.getElem?_map, request, Done.received, taken] at whole
  exact whole.symm

/-- A server on which one client connected while it made its first request, and
whose bytes were read once since. -/
theorem Joint.Reached.served {tables : Tables World} {tx : List Byte} {world : World}
    {connected client : Client}
    (before : Reached (prepared tables 3 tx world) 0 connected
      ⟨prepared tables 3 tx world, true, client⟩) (bytes : List Byte)
    (accepted : (poolClientMsgs (loneClient bytes) (prepared tables 3 tx world)).1.isOk = true)
    (returned : (poolClientMsgs (loneClient bytes)
      (poolClientMsgs (loneClient bytes) (prepared tables 3 tx world)).2).1.isOk = true)
    (quiet : receivedBy 0
      (poolClientMsgs (loneClient bytes) (prepared tables 3 tx world)).2.trace = [])
    (delivered : receivedBy 0 (loneRun tables tx world bytes).trace <+: client.sent) :
    Reached (prepared tables 3 tx world) 0 connected ⟨loneRun tables tx world bytes, true, client⟩ := by
  have first := before.passes (loneClient bytes) accepted (quiet ▸ List.nil_prefix)
  exact first.passes (loneClient bytes) returned delivered

theorem ping_reply_fits : ([] : List Byte).length < 65536 := by decide

/-- A client that pinged twice, and its server. -/
def pingedTwice : Joint Unit where
  server := (poolClientMsgs (loneClient Op.ping.frame.bytes)
    (loneRun bareTables [] () Op.ping.frame.bytes)).2
  running := true
  client :=
    ((((Client.connect [] [] [.ping, .ping]).waiting .ping [.ping]).took .ping
      ⟨5, [], ping_reply_fits⟩).waiting .ping []).took .ping ⟨5, [], ping_reply_fits⟩

theorem pingedTwice_reached : Joint.Reached (prepared bareTables 3 [] ()) 0
    (Client.connect [] [] [.ping, .ping]) pingedTwice := by
  have asked := (Joint.Reached.start : Joint.Reached (prepared bareTables 3 [] ()) 0
    (Client.connect [] [] [.ping, .ping]) _).waits rfl rfl trivial (by decide) rfl
  have served := asked.served Op.ping.frame.bytes (by decide +kernel)
    (by decide +kernel) (by decide +kernel) (by decide +kernel)
  have answered := served.takes rfl ⟨5, [], by decide⟩ (by decide) (by decide +kernel)
  have again := (answered.waits rfl rfl trivial (by decide) rfl).passes
    (loneClient Op.ping.frame.bytes) (by decide +kernel) (by decide +kernel)
  exact again.takes rfl ⟨5, [], by decide⟩ (by decide) (by decide +kernel)

/-- The second ping takes its own answer. -/
theorem second_ping_matched :
    pingedTwice.Answered bareTables (prepared bareTables 3 [] ()) 0 1
      ⟨.ping, some ⟨5, [], by decide⟩, [5, 0, 0], .ok (.pinged 0)⟩ ⟨5, [], by decide⟩ := by
  have headers : (pingedTwice.requests bareTables (prepared bareTables 3 [] ()) 0).map Prod.fst =
      [⟨4, 0⟩, ⟨4, 0⟩] := by decide +kernel
  refine (replies_matched pingedTwice_reached rfl rfl ?_).1
  intro earlier call header ctx first old request
  obtain rfl := Nat.lt_one_iff.mp first
  obtain rfl := Option.some.inj (show some _ = some call from old)
  have asked := congrArg (·[0]?) headers
  simp only [List.getElem?_map, request] at asked
  obtain rfl := Option.some.inj asked
  exact rfl

/-- A WRITE to a device that the client does not have, and a ping behind it. -/
def badWriteThenPing : List Op := [.write 0 0 [7], .ping]

/-- `tx_buffer` before anything was sent. -/
def blankTx : List Byte := List.replicate bufferSize 0

/-- The frame that the error of the WRITE begins with. -/
def notAllocated : Frame := ⟨9, u32Bytes 4 ++ text "WRITE: device is not allocated", by decide⟩

/-- Their client, and its server. -/
def refusedThenPinged : Joint Unit where
  server := loneRun bareTables blankTx ()
    ((badWriteThenPing.map Op.frame).flatMap Frame.bytes)
  running := true
  client :=
    (((Client.connect [] [] badWriteThenPing).told (.write 0 0 [7]) [.ping]).waiting .ping []).took
      .ping notAllocated

/-- The ping takes the error of the WRITE. -/
theorem write_error_taken_by_ping :
    Joint.Reached (prepared bareTables 3 blankTx ()) 0
        (Client.connect [] [] badWriteThenPing) refusedThenPinged ∧
      ∃ call frame, refusedThenPinged.client.done[1]? = some call ∧ call.frame = some frame ∧
        ¬ refusedThenPinged.Answered bareTables
          (prepared bareTables 3 blankTx ()) 0 1 call frame := by
  have started : Joint.Reached (prepared bareTables 3 blankTx ()) 0
      (Client.connect [] [] badWriteThenPing)
      ⟨prepared bareTables 3 blankTx (), true, Client.connect [] [] badWriteThenPing⟩ := .start
  have told : Joint.Reached (prepared bareTables 3 blankTx ()) 0
      (Client.connect [] [] badWriteThenPing)
      ⟨prepared bareTables 3 blankTx (), true,
        (Client.connect [] [] badWriteThenPing).told (.write 0 0 [7]) [.ping]⟩ :=
    started.tells rfl rfl (by decide) (by decide) rfl
  have asked : Joint.Reached (prepared bareTables 3 blankTx ()) 0
      (Client.connect [] [] badWriteThenPing)
      ⟨prepared bareTables 3 blankTx (), true,
        ((Client.connect [] [] badWriteThenPing).told (.write 0 0 [7]) [.ping]).waiting .ping []⟩ :=
    told.waits rfl rfl trivial (by decide) rfl
  have served := asked.served ((badWriteThenPing.map Op.frame).flatMap Frame.bytes)
    (by decide +kernel) (by decide +kernel) (by decide +kernel) (by decide +kernel)
  have taken := served.takes rfl notAllocated (by decide) (by decide +kernel)
  refine ⟨taken, _, _, rfl, rfl, ?_⟩
  rintro ⟨header, ctx, request, _⟩
  have single : (refusedThenPinged.requests bareTables
      (prepared bareTables 3 blankTx ()) 0).map Prod.fst = [⟨3, 9⟩] := by
    decide +kernel
  have second := congrArg (·[1]?) single
  simp only [List.getElem?_map, request] at second
  cases second

end Hwio
