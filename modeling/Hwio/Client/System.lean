import Hwio.Client.Finding

/-!
Contract: a server and all of its clients.

Owns the runs in which the passes of a server and the steps of any number of
clients take turns, the order in which the calls of the clients take effect, and
that every call that returns gives what the hub gives when the calls are made on
it in this order.

Every connection delivers bytes in order.  No more passes are made when one is
left by an exception, which nothing catches.
-/

namespace Hwio

open Library HwioServer

variable {World : Type}

/-- `running` tells whether the passes returned so far; each connection has its
own client. -/
structure System (World : Type) where
  server : HwioServer World
  running : Bool
  clients : ClientPtr → Client

namespace System

/-- A pass of the server, or a step of one of the clients. -/
inductive Step (system : System World) : System World → Prop
  | pass (sys : Sys) (running : system.running = true)
      (delivered : ∀ owner, receivedBy owner (poolClientMsgs sys system.server).2.trace <+:
        (system.clients owner).sent) :
      Step system
        { system with
          server := (poolClientMsgs sys system.server).2
          running := (poolClientMsgs sys system.server).1.isOk }
  | call (owner : ClientPtr) {after : Client}
      (step : ClientStep (sentTo owner system.server.trace) (system.clients owner) after) :
      Step system { system with clients := Function.update system.clients owner after }

abbrev Steps : System World → System World → Prop := Relation.ReflTransGen Step

/-- A server without connections, and clients with their programs. -/
def begin (tables : Tables World) (master : Fd) (tx : List Byte) (world : World)
    (buffers : ClientPtr → List Byte × List Byte) (programs : ClientPtr → List Op) :
    System World where
  server := prepared tables master tx world
  running := true
  clients owner := Client.connect (buffers owner).1 (buffers owner).2 (programs owner)

/-- What a client sees of the system. -/
def joint (system : System World) (owner : ClientPtr) : Joint World :=
  ⟨system.server, system.running, system.clients owner⟩

/-! ## The order of the calls -/

/-- The client whose request an event dispatches. -/
def turnOf : Event → Option ClientPtr
  | .dispatched client _ _ _ => some client
  | _ => none

/-- The order in which the calls take effect: the one in which the server gets
to their requests. -/
def order (programs : ClientPtr → List Op) (system : System World) : List (ClientPtr × Op) :=
  schedule programs (system.server.trace.filterMap turnOf)

end System

/-- The hub of a server without connections. -/
def Hub.start (world : World) : Hub World := ⟨world, fun _ => []⟩

namespace System

/-- What the hub answers to the calls of a client. -/
def answers (tables : Tables World) (world : World) (programs : ClientPtr → List Op)
    (owner : ClientPtr) (system : System World) : List Upshot :=
  answersIn (Hub.perform tables) owner (system.order programs) (Hub.start world)

/-- No call of a client before the `k`-th one came to anything but a result. -/
def Unfailed (tables : Tables World) (world : World) (programs : ClientPtr → List Op)
    (owner : ClientPtr) (system : System World) (k : Nat) : Prop :=
  ∀ (j : Nat) upshot, j < k → (system.answers tables world programs owner)[j]? = some upshot →
    ∃ result, upshot = .returned result

end System

/-- A call gives what the hub promises. -/
def Upshot.Gives : Upshot → Except Exn Result → Prop
  | .returned result, given => given = .ok result
  | .refused, given => ∃ exn, given = .error exn
  | .unpromised, _ => True

namespace System

section

variable {tables : Tables World} {master : Fd} {tx : List Byte} {world : World}
variable {buffers : ClientPtr → List Byte × List Byte} {programs : ClientPtr → List Op}
variable {system later : System World}

/-! ## What each client sees -/

theorem joint_reached (steps : Steps (begin tables master tx world buffers programs) system)
    (owner : ClientPtr) :
    Joint.Reached (prepared tables master tx world) owner
      (Client.connect (buffers owner).1 (buffers owner).2 (programs owner))
      (system.joint owner) := by
  induction steps with
  | refl => exact .start
  | tail _ step before =>
      cases step with
      | pass sys running delivered => exact before.pass sys running (delivered owner)
      | @call other after step =>
          by_cases own : owner = other
          · subst own
            have called := before.call step
            simp only [joint, Function.update_self] at called ⊢
            exact called
          · simp only [joint, Function.update_of_ne own]
            exact before

theorem linked (steps : Steps (begin tables master tx world buffers programs) system)
    (owner : ClientPtr) :
    Joint.Linked tables (prepared tables master tx world) owner (programs owner)
      (system.joint owner) :=
  (joint_reached steps owner).linked

theorem server_reached (steps : Steps (begin tables master tx world buffers programs) system) :
    HwioServer.Reached (prepared tables master tx world) system.server :=
  (linked steps 0).reached

/-- What happened stays, and what was sent and received. -/
theorem trace_prefix (steps : Steps system later) :
    system.server.trace <+: later.server.trace := by
  induction steps with
  | refl => exact List.prefix_rfl
  | tail _ step before =>
      cases step with
      | @pass sys running delivered =>
          obtain ⟨events, trace⟩ := Moves.appends (poolClientMsgs_moves sys _)
          apply before.trans
          simp only
          rw [trace]
          exact List.prefix_append _ _
      | call owner step => exact before

/-- The order only grows at its end. -/
theorem order_prefix (steps : Steps system later) :
    system.order programs <+: later.order programs := by
  obtain ⟨events, trace⟩ := trace_prefix steps
  rw [order, order, ← trace, List.filterMap_append, schedule_append]
  exact List.prefix_append _ _

/-! ## Requests in their order -/

/-- A client takes as many turns as it makes requests. -/
theorem count_turns (tables : Tables World) (service : Service World) (owner : ClientPtr)
    (history : List Event) :
    (history.filterMap turnOf).count owner =
      (requestsOf tables service owner history).length := by
  induction history generalizing service with
  | nil => rfl
  | cons event rest inductionHypothesis =>
      rw [requestsOf, List.length_append, ← inductionHypothesis, Nat.add_comm]
      cases event with
      | dispatched client offset header rx =>
          have turn : turnOf (.dispatched client offset header rx) = some client := rfl
          rw [List.filterMap_cons_some turn, requestOf]
          by_cases own : client = owner
          · rw [own, List.count_cons_self, if_pos rfl]
            rfl
          · rw [List.count_cons_of_ne own, if_neg own]
            rfl
      | _ => rfl

/-- The request that an event dispatches. -/
theorem request_at {start : HwioServer World} {joint : Joint World} {front back : List Event}
    {owner : ClientPtr} {offset : Nat} {header : HwioPacketHeader} {rx : List Byte}
    (split : joint.server.trace = front ++ .dispatched owner offset header rx :: back) :
    (joint.requests tables start owner)[(front.filterMap turnOf).count owner]? =
      some (header, (start.service.after tables front).request owner rx) := by
  rw [count_turns tables start.service, Joint.requests, split, requestsOf_append,
    List.getElem?_append_right (Nat.le_refl _), Nat.sub_self, requestsOf, requestOf, if_pos rfl]
  rfl

/-- The request that an event dispatches is that of the next call of its client. -/
theorem next_call (steps : Steps (begin tables master tx world buffers programs) system)
    {front back : List Event} {owner : ClientPtr} {offset : Nat} {header : HwioPacketHeader}
    {rx : List Byte}
    (split : system.server.trace = front ++ .dispatched owner offset header rx :: back) :
    ∃ op, (programs owner)[(front.filterMap turnOf).count owner]? = some op ∧ op.Fits ∧
      Frame.received header rx = op.frame := by
  have linked := linked steps owner
  have request := @request_at World tables (prepared tables master tx world) (system.joint owner)
    front back owner offset header rx split
  have begun := getElem?_of_isPrefix linked.requests_prefix
    (show (((system.joint owner).requests tables (prepared tables master tx world) owner).map
      frameOf)[(front.filterMap turnOf).count owner]? = some (Frame.received header rx) by
        rw [List.getElem?_map, request]
        rfl)
  rw [List.getElem?_map, Option.map_eq_some_iff] at begun
  obtain ⟨op, started, asked⟩ := begun
  exact ⟨op, linked.started_op started,
    linked.consistent.fits op (List.mem_of_getElem? started), asked.symm⟩

/-- The requests of a client are those of the first calls of its program, which
it has begun. -/
theorem callsOf_order (steps : Steps (begin tables master tx world buffers programs) system)
    (owner : ClientPtr) :
    callsOf owner (system.order programs) <+: (system.clients owner).started ∧
      (callsOf owner (system.order programs)).length =
        ((system.joint owner).requests tables (prepared tables master tx world) owner).length := by
  have linked := linked steps owner
  have few := linked.requests_prefix.length_le
  rw [List.length_map, List.length_map] at few
  have program := linked.consistent.program
  have all : callsOf owner (system.order programs) = (system.clients owner).started.take
      ((system.joint owner).requests tables (prepared tables master tx world) owner).length := by
    rw [order, callsOf_schedule, count_turns tables (prepared tables master tx world).service,
      ← program]
    exact List.take_append_of_le_length few
  rw [all]
  exact ⟨List.take_prefix _ _, List.length_take_of_le few⟩

/-! ## The server and the hub -/

/-- After a history the server is where the hub is. -/
structure Tracks (tables : Tables World) (start : Service World) (history : List Event)
    (hub : Hub World) : Prop where
  world : (start.after tables history).world = hub.world
  devices : ∀ owner devices, (start.after tables history).devices owner = some devices →
    devices = (hub.held owner).map some
  room : ∀ owner, (hub.held owner).length ≤ 65536
  unborn : ∀ owner, (∀ event ∈ history, actor event ≠ some owner) → hub.held owner = []

/-- Events that dispatch nothing leave the hub alone. -/
theorem Tracks.silent {start : Service World} {front : List Event} {event : Event}
    {hub : Hub World} (tracks : Tracks tables start front hub) (quiet : turnOf event = none)
    (made : MadeFirst front event) : Tracks tables start (front ++ [event]) hub where
  world := by
    rw [Service.after_append]
    cases event with
    | dispatched client offset header rx => cases quiet
    | _ => exact tracks.world
  devices owner devices listed := by
    rw [Service.after_append] at listed
    cases event with
    | dispatched client offset header rx => cases quiet
    | created client fd =>
        change Function.update (start.after tables front).devices client (some []) owner = _
          at listed
        by_cases own : owner = client
        · subst own
          rw [Function.update_self] at listed
          cases listed
          rw [tracks.unborn owner made]
          rfl
        · rw [Function.update_of_ne own] at listed
          exact tracks.devices owner devices listed
    | removed client =>
        change Function.update (start.after tables front).devices client none owner = _ at listed
        by_cases own : owner = client
        · rw [own, Function.update_self] at listed
          cases listed
        · rw [Function.update_of_ne own] at listed
          exact tracks.devices owner devices listed
    | _ => exact tracks.devices owner devices listed
  room := tracks.room
  unborn owner quiet := tracks.unborn owner fun event member =>
    quiet event (List.mem_append_left _ member)

/-- A request meets what the hub is. -/
theorem Tracks.meets {start : Service World} {front : List Event} {hub : Hub World}
    (tracks : Tracks tables start front hub) {owner : ClientPtr} {offset : Nat}
    {header : HwioPacketHeader} {rx : List Byte}
    (met : Met tables start front (.dispatched owner offset header rx)) :
    hub.Meets owner ((start.after tables front).request owner rx) where
  world := tracks.world
  devices := by
    obtain ⟨table, listed, _⟩ := met
    have same := tracks.devices owner _ listed
    rw [← same]
    show ((start.after tables front).devices owner).getD [] = _
    rw [listed]
    rfl
  fresh := rfl
  room := tracks.room owner

/-- A request does on the hub what its call does. -/
theorem Tracks.turned {start : Service World} {front : List Event} {hub : Hub World}
    (tracks : Tracks tables start front hub) {owner : ClientPtr} {offset : Nat}
    {header : HwioPacketHeader} {rx : List Byte}
    (met : Met tables start front (.dispatched owner offset header rx)) {op : Op}
    (intact : op.Intact tables) (fits : op.Fits) (asked : Frame.received header rx = op.frame) :
    Tracks tables start (front ++ [.dispatched owner offset header rx])
      (hub.perform tables (owner, op)).2 := by
  have performed := (tracks.meets met).performed intact fits asked
  obtain ⟨held, updated, room⟩ := hub.perform_updates tables owner op
  exact {
    world := by
      rw [Service.after_append]
      exact performed.world
    devices := by
      intro other devices listed
      rw [Service.after_append] at listed
      change Function.update (start.after tables front).devices owner
        (some (handleMsg tables header ((start.after tables front).request owner rx)).2.devices)
          other = _ at listed
      by_cases own : other = owner
      · subst own
        rw [Function.update_self] at listed
        exact (Option.some.inj listed).symm.trans performed.devices
      · rw [Function.update_of_ne own] at listed
        rw [hub.perform_other tables owner own]
        exact tracks.devices other devices listed
    room := by
      intro other
      rw [updated]
      by_cases own : other = owner
      · subst own
        rw [Function.update_self]
        exact room (tracks.room other)
      · rw [Function.update_of_ne own]
        exact tracks.room other
    unborn := by
      intro other quiet
      have apart : other ≠ owner := by
        rintro rfl
        exact quiet _ (List.mem_append_right _ List.mem_cons_self) rfl
      rw [hub.perform_other tables owner apart]
      exact tracks.unborn other fun event member => quiet event (List.mem_append_left _ member) }

/-- After all of its history the server is where the hub is when the calls were
made on it in their order. -/
theorem tracks (steps : Steps (begin tables master tx world buffers programs) system)
    (intact : ∀ owner, ∀ op ∈ programs owner, op.Intact tables) {front : List Event}
    (part : front <+: system.server.trace) :
    Tracks tables (prepared tables master tx world).service front
      (runAll (Hub.perform tables) (schedule programs (front.filterMap turnOf))
        (Hub.start world)).2 := by
  have reached := server_reached steps
  apply related_after_turns (Hub.perform tables) _ _ _ part
  · exact {
      world := rfl
      devices := fun owner devices listed => by cases listed
      room := fun owner => Nat.zero_le _
      unborn := fun owner _ => rfl }
  · intro front event back split quiet hub tracks
    exact tracks.silent quiet (reached.interned.numbered.madeFirst front event back split)
  · intro front event back owner split turn
    cases event with
    | dispatched client offset header rx =>
        obtain rfl := Option.some.inj turn
        obtain ⟨op, next, fits, asked⟩ := next_call steps split
        refine ⟨op, next, fun hub tracks => ?_⟩
        exact tracks.turned (reached.interned.met front _ back split)
          (intact client op (List.mem_of_getElem? next)) fits asked
    | _ => cases turn

/-- A request stands in the order as its call, and does what the hub then does. -/
theorem request_performed (steps : Steps (begin tables master tx world buffers programs) system)
    (intact : ∀ owner, ∀ op ∈ programs owner, op.Intact tables) {owner : ClientPtr} {k : Nat}
    {header : HwioPacketHeader} {ctx : Ctx World}
    (request : ((system.joint owner).requests tables (prepared tables master tx world) owner)[k]? =
      some (header, ctx)) :
    ∃ op front back, (programs owner)[k]? = some op ∧
      system.order programs = front ++ (owner, op) :: back ∧ (callsOf owner front).length = k ∧
      let hub := (runAll (Hub.perform tables) front (Hub.start world)).2
      let done := hub.perform tables (owner, op)
      Performed tables op header ctx (hub.held owner) done.1 done.2.world (done.2.held owner) ∧
        (system.answers tables world programs owner)[k]? = some done.1 := by
  obtain ⟨front, offset, rx, back, split, asked, rfl⟩ := requestsOf_split request
  change system.server.trace = _ at split
  obtain ⟨op, next, fits, same⟩ := next_call steps split
  have inside := Nat.le_of_lt (List.getElem?_eq_some_iff.mp request).1
  have count : (front.filterMap turnOf).count owner = k := by
    rw [count_turns tables (prepared tables master tx world).service, asked]
    exact List.length_take_of_le inside
  have ordered : system.order programs = schedule programs (front.filterMap turnOf) ++
      (owner, op) :: schedule (fun process => (programs process).drop
        ((front.filterMap turnOf ++ [owner]).count process)) (back.filterMap turnOf) := by
    have turn : turnOf (.dispatched owner offset header rx) = some owner := rfl
    rw [order, split, List.filterMap_append, List.filterMap_cons_some turn, ← List.singleton_append,
      ← List.append_assoc, schedule_append, schedule_snoc next, List.append_assoc]
    rfl
  have calls : (callsOf owner (schedule programs (front.filterMap turnOf))).length = k := by
    rw [callsOf_schedule, count]
    rw [count] at next
    exact List.length_take_of_le (Nat.le_of_lt (List.getElem?_eq_some_iff.mp next).1)
  have tracked := tracks steps intact (split ▸ List.prefix_append front _)
  have performed := (tracked.meets ((server_reached steps).interned.met front _ back split)).performed
    (intact owner op (List.mem_of_getElem? next)) fits same
  refine ⟨op, _, _, count ▸ next, ordered, calls, performed, ?_⟩
  have answer := answersIn_at (Hub.perform tables) owner op
    (schedule programs (front.filterMap turnOf)) (schedule (fun process => (programs process).drop
      ((front.filterMap turnOf ++ [owner]).count process)) (back.filterMap turnOf))
    (Hub.start world)
  rw [calls, ← ordered] at answer
  exact answer

/-! ## What the calls return -/

section

variable (steps : Steps (begin tables master tx world buffers programs) system)
  (intact : ∀ owner, ∀ op ∈ programs owner, op.Intact tables) {owner : ClientPtr} {k : Nat}

include steps intact

/-- The request of a call that returned is in the order as this call. -/
theorem done_performed {call : Done} (done : (system.clients owner).done[k]? = some call)
    {header : HwioPacketHeader} {ctx : Ctx World}
    (request : ((system.joint owner).requests tables (prepared tables master tx world) owner)[k]? =
      some (header, ctx)) :
    ∃ front back, system.order programs = front ++ (owner, call.op) :: back ∧
      (callsOf owner front).length = k ∧
      let hub := (runAll (Hub.perform tables) front (Hub.start world)).2
      let done := hub.perform tables (owner, call.op)
      Performed tables call.op header ctx (hub.held owner) done.1 done.2.world
          (done.2.held owner) ∧
        (system.answers tables world programs owner)[k]? = some done.1 := by
  obtain ⟨op, front, back, listed, ordered, length, performed⟩ :=
    request_performed steps intact request
  obtain rfl := Option.some.inj (listed.symm.trans ((linked steps owner).done_op done))
  exact ⟨front, back, ordered, length, performed⟩

/-- As long as no call failed, the client and the server are in step. -/
theorem inTurnBefore (unfailed : system.Unfailed tables world programs owner k) :
    (system.joint owner).InTurnBefore tables (prepared tables master tx world) owner k := by
  intro earlier call header ctx before done request
  obtain ⟨front, back, _, _, performed, answer⟩ := done_performed steps intact done request
  obtain ⟨result, returned⟩ := unfailed earlier _ before answer
  exact performed.inTurn result returned

/-- A call took all of the answer to its request when it did not fail either. -/
theorem taken_whole {call : Done} (done : (system.clients owner).done[k]? = some call)
    (unfailed : system.Unfailed tables world programs owner (k + 1)) {frame : Frame}
    (taken : call.frame = some frame) :
    ∃ front back, system.order programs = front ++ (owner, call.op) :: back ∧
      (callsOf owner front).length = k ∧
      let hub := (runAll (Hub.perform tables) front (Hub.start world)).2
      let done := hub.perform tables (owner, call.op)
      ∃ result, done.1 = .returned result ∧ ∀ seen, proxyIds seen = Hub.numbers (hub.held owner) →
        (call.op.finish frame.header call.rx seen).1 = .ok result ∧
          proxyIds (call.op.finish frame.header call.rx seen).2 =
            Hub.numbers (done.2.held owner) := by
  have earlier := inTurnBefore steps intact
    (k := k) fun j upshot before => unfailed j upshot (Nat.lt_succ_of_lt before)
  obtain ⟨⟨header, ctx, request, _⟩, whole⟩ :=
    replies_matched (joint_reached steps owner) done taken earlier
  obtain ⟨front, back, ordered, length, performed, answer⟩ :=
    done_performed steps intact done request
  obtain ⟨result, returned⟩ := unfailed k _ (Nat.lt_succ_self k) answer
  refine ⟨front, back, ordered, length, result, returned, fun seen known => ?_⟩
  have linked := linked steps owner
  have waits := linked.consistent.waits done
  rw [taken] at waits
  have held := ((linked.consistent.concluded_at done).2 frame taken).1
  exact performed.returned result returned waits.symm frame call.rx seen
    (whole header ctx request (performed.inTurn result returned)) held known

/-- The proxies of a client are those of the devices that it holds on the hub
after its first calls. -/
theorem proxies_numbered (enough : k ≤ (system.clients owner).done.length)
    (unfailed : system.Unfailed tables world programs owner k)
    {front back : List (ClientPtr × Op)} (ordered : system.order programs = front ++ back)
    (calls : (callsOf owner front).length = k) :
    proxyIds (seenAfter ((system.clients owner).done.take k)) =
      Hub.numbers ((runAll (Hub.perform tables) front (Hub.start world)).2.held owner) := by
  induction k generalizing front back with
  | zero =>
      rw [Hub.held_of_others tables _ owner (List.eq_nil_of_length_eq_zero calls)]
      rfl
  | succ k inductionHypothesis =>
      have linked := linked steps owner
      obtain ⟨op, last⟩ : ∃ op, (callsOf owner front)[k]? = some op :=
        ⟨_, List.getElem?_eq_getElem (calls ▸ Nat.lt_succ_self k)⟩
      obtain ⟨early, late, rfl, length⟩ := callsOf_split last
      have others : callsOf owner late = [] := by
        rw [callsOf_append, callsOf_cons_self, List.length_append, List.length_cons, length] at calls
        exact List.eq_nil_of_length_eq_zero (by omega)
      obtain ⟨call, done⟩ : ∃ call, (system.clients owner).done[k]? = some call :=
        ⟨_, List.getElem?_eq_getElem enough⟩
      have same : call.op = op := by
        have begun := getElem?_of_isPrefix (callsOf_order steps owner).1 (by
          rw [ordered, callsOf_append]
          exact getElem?_of_isPrefix (List.prefix_append _ _) last)
        exact Option.some.inj ((linked.done_op done).symm.trans (linked.started_op begun))
      subst same
      rw [List.append_assoc, List.cons_append] at ordered
      have before := inductionHypothesis (Nat.le_of_succ_le enough)
        (fun j upshot before => unfailed j upshot (Nat.lt_succ_of_lt before)) ordered length
      have untilLast : (runAll (Hub.perform tables) (early ++ (owner, call.op) :: late)
          (Hub.start world)).2.held owner = ((runAll (Hub.perform tables) early
            (Hub.start world)).2.perform tables (owner, call.op)).2.held owner := by
        rw [runAll_append]
        exact Hub.held_of_others tables _ owner others
      have takenLast : (system.clients owner).done.take (k + 1) =
          (system.clients owner).done.take k ++ [call] := by
        rw [List.take_add_one, done]
        rfl
      rw [untilLast, takenLast, seenAfter_snoc]
      have waits := linked.consistent.waits done
      cases taken : call.frame with
      | none =>
          rw [taken] at waits
          rw [Hub.perform_held tables _ owner (by
            intro spec lookup
            rw [lookup] at waits
            cases waits)]
          exact before
      | some frame =>
          obtain ⟨front, behind, ordered', length', result, _, finished⟩ :=
            taken_whole steps intact done unfailed taken
          obtain rfl := front_unique (ordered'.symm.trans ordered) (length'.trans length.symm)
          exact (finished _ before).2

/-- A call that waited and returned is in the order, and gave what the hub does. -/
theorem awaited_gives {call : Done} (done : (system.clients owner).done[k]? = some call)
    (waits : call.op.waits = true) (unfailed : system.Unfailed tables world programs owner k) :
    ∃ upshot, (system.answers tables world programs owner)[k]? = some upshot ∧
      upshot.Gives call.result := by
  have linked := linked steps owner
  have received := linked.consistent.waits done
  rw [waits, Option.isSome_iff_exists] at received
  obtain ⟨frame, taken⟩ := received
  obtain ⟨⟨header, ctx, request, asked, front⟩, _⟩ := replies_matched (joint_reached steps owner)
    done taken (inTurnBefore steps intact unfailed)
  obtain ⟨early, late, ordered, length, performed, answer⟩ :=
    done_performed steps intact done request
  have concluded := ((linked.consistent.concluded_at done).2 frame taken).2
  refine ⟨_, answer, ?_⟩
  rw [concluded]
  cases upshot : ((runAll (Hub.perform tables) early (Hub.start world)).2.perform tables
      (owner, call.op)).1 with
  | unpromised => trivial
  | refused => exact performed.refused upshot waits frame call.rx _ front
  | returned result =>
      have unfailed' : system.Unfailed tables world programs owner (k + 1) := by
        intro j other before found
        by_cases last : j = k
        · subst last
          obtain rfl := Option.some.inj (answer.symm.trans found)
          exact ⟨result, upshot⟩
        · exact unfailed j other (by omega) found
      obtain ⟨early', late', ordered', length', result', same, finished⟩ :=
        taken_whole steps intact done unfailed' taken
      obtain rfl := front_unique (ordered'.symm.trans ordered) (length'.trans length.symm)
      obtain rfl := Upshot.returned.inj (upshot.symm.trans same)
      exact (finished _ (proxies_numbered steps intact
        (Nat.le_of_lt (List.getElem?_eq_some_iff.mp done).1) unfailed ordered' length')).1

end

/-- The answer to a call that returned is that of the hub in the state that the
calls before it left. -/
theorem answer_placed (steps : Steps (begin tables master tx world buffers programs) system)
    {owner : ClientPtr} {k : Nat} {call : Done} {upshot : Upshot}
    (done : (system.clients owner).done[k]? = some call)
    (answer : (system.answers tables world programs owner)[k]? = some upshot) :
    ∃ front back, system.order programs = front ++ (owner, call.op) :: back ∧
      (callsOf owner front).length = k ∧
      upshot = ((runAll (Hub.perform tables) front (Hub.start world)).2.perform tables
        (owner, call.op)).1 := by
  have listed : (callsOf owner (system.order programs))[k]? = some call.op := by
    have within := (List.getElem?_eq_some_iff.mp answer).1
    rw [answers, answersIn_length] at within
    have begun := getElem?_of_isPrefix (callsOf_order steps owner).1
      (List.getElem?_eq_getElem within)
    have linked := linked steps owner
    rw [List.getElem?_eq_getElem within]
    exact (linked.started_op begun).symm.trans (linked.done_op done)
  obtain ⟨front, back, ordered, length⟩ := callsOf_split listed
  refine ⟨front, back, ordered, length, ?_⟩
  have placed := answersIn_at (Hub.perform tables) owner call.op front back (Hub.start world)
  rw [← ordered, length] at placed
  exact Option.some.inj (answer.symm.trans placed)

end

end System

/-- In every state of every run of a server and any number of clients, whose
calls reach it as they are made: the server is where the hub is when the calls
whose requests it got to are made on the hub one after the other; each client has
begun all of its calls among them, in the order of its program; a call that waited
and returned is among them, and it gave what the hub does, unless a call before it
on the same connection failed; and in all later states the order goes on from
there, so that every call that is begun only later comes behind it. -/
theorem calls_serialized {tables : Tables World} {master : Fd} {tx : List Byte} {world : World}
    {buffers : ClientPtr → List Byte × List Byte} {programs : ClientPtr → List Op}
    {system : System World}
    (steps : System.Steps (System.begin tables master tx world buffers programs) system)
    (intact : ∀ owner, ∀ op ∈ programs owner, op.Intact tables) :
    let hub := (runAll (Hub.perform tables) (system.order programs) (Hub.start world)).2
    (system.server.world = hub.world ∧ ∀ owner record, system.server.heap owner = some record →
        record.devices = (hub.held owner).map some) ∧
      (∀ owner, callsOf owner (system.order programs) <+: (system.clients owner).started) ∧
      (∀ (owner : ClientPtr) (k : Nat) call, (system.clients owner).done[k]? = some call →
        call.op.waits = true → system.Unfailed tables world programs owner k →
          ∃ upshot, (system.answers tables world programs owner)[k]? = some upshot ∧
            upshot.Gives call.result) ∧
      ∀ later, System.Steps system later →
        system.order programs <+: later.order programs ∧
          ∀ (first : ClientPtr) (k : Nat) call (second : ClientPtr) (j : Nat),
            (system.clients first).done[k]? = some call → call.op.waits = true →
            system.Unfailed tables world programs first k →
            (system.clients second).started.length ≤ j →
              Precedes (later.order programs) (first, k) (second, j) := by
  intro hub
  have gives := fun (owner : ClientPtr) (k : Nat) call =>
    @System.awaited_gives World tables master tx world buffers programs system steps intact owner k
      call
  refine ⟨?_, fun owner => (System.callsOf_order steps owner).1, gives, fun later further => ?_⟩
  · have reached := System.server_reached steps
    have tracked := System.tracks steps intact List.prefix_rfl
    have service := reached.service_prepared
    constructor
    · rw [show system.server.world = system.server.service.world from rfl, service]
      exact tracked.world
    · intro owner record live
      apply tracked.devices owner
      rw [← service]
      show (system.server.heap owner).map ClientInfo.devices = _
      rw [live]
      rfl
  · have grown := @System.order_prefix World programs system later further
    refine ⟨grown, ?_⟩
    intro first k call second j done waits unfailed missing
    obtain ⟨more, whole⟩ := grown
    refine ⟨system.order programs, more, whole.symm, ?_, ?_⟩
    · obtain ⟨upshot, answer, _⟩ := gives first k call done waits unfailed
      have inside := (List.getElem?_eq_some_iff.mp answer).1
      rwa [System.answers, answersIn_length] at inside
    · exact Nat.le_trans (System.callsOf_order steps second).1.length_le missing

/-- Nothing is received from a client that does not act. -/
theorem receivedBy_of_strangers {owner : ClientPtr} {history : List Event}
    (strangers : ∀ event ∈ history, actor event ≠ some owner) : receivedBy owner history = [] := by
  apply List.flatMap_eq_nil_iff.mpr
  intro event member
  cases event with
  | received client offset room bytes =>
      exact if_neg fun same => strangers _ member (congrArg some same)
  | _ => rfl

/-- Nothing comes from clients other than those that act. -/
theorem receivedBy_of_known (known : List ClientPtr) {history : List Event}
    (acts : ∀ event ∈ history, (actor event).all (fun client => client ∈ known) = true)
    {other : ClientPtr} (stranger : other ∉ known) : receivedBy other history = [] := by
  apply receivedBy_of_strangers
  intro event member own
  have there := acts event member
  rw [own, Option.all_some, decide_eq_true_eq] at there
  exact stranger there

/-- A run of the server and one client is a run of the system in which the others
do nothing. -/
theorem Joint.Reached.stepsFrom {system : System World} {owner : ClientPtr} {joint : Joint World}
    (reached : Joint.Reached system.server owner (system.clients owner) joint)
    (running : system.running = true)
    (delivered : ∀ other, other ≠ owner →
      receivedBy other joint.server.trace <+: (system.clients other).sent) :
    System.Steps system
      ⟨joint.server, joint.running, Function.update system.clients owner joint.client⟩ := by
  induction reached with
  | start =>
      rw [Function.update_eq_self, ← running]
  | @pass joint before sys running delivered' inductionHypothesis =>
      obtain ⟨events, trace⟩ := Moves.appends (poolClientMsgs_moves sys joint.server)
      apply (inductionHypothesis fun other apart => ?_).tail
      · apply System.Step.pass sys running
        intro other
        by_cases own : other = owner
        · subst own
          simp only [Function.update_self]
          exact delivered'
        · simp only [Function.update_of_ne own]
          exact delivered other own
      · have more := delivered other apart
        simp only at more
        rw [trace, receivedBy_append] at more
        exact (List.prefix_append _ _).trans more
  | @call joint before after step inductionHypothesis =>
      have known : ClientStep (sentTo owner joint.server.trace) (Function.update
          system.clients owner joint.client owner) after := by
        rw [Function.update_self]
        exact step
      have called : System.Step ⟨joint.server, joint.running, Function.update
          system.clients owner joint.client⟩ _ := .call owner known
      rw [Function.update_idem] at called
      exact (inductionHypothesis delivered).tail called

/-- Such a run from the start. -/
theorem Joint.Reached.steps {tables : Tables World} {master : Fd} {tx : List Byte} {world : World}
    {buffers : ClientPtr → List Byte × List Byte} {programs : ClientPtr → List Op}
    {owner : ClientPtr} {joint : Joint World}
    (reached : Joint.Reached (prepared tables master tx world) owner
      (Client.connect (buffers owner).1 (buffers owner).2 (programs owner)) joint)
    (quiet : ∀ other, other ≠ owner → receivedBy other joint.server.trace = []) :
    System.Steps (System.begin tables master tx world buffers programs)
      ⟨joint.server, joint.running, Function.update
        (System.begin tables master tx world buffers programs).clients owner joint.client⟩ := by
  apply @Joint.Reached.stepsFrom World (System.begin tables master tx world buffers programs) owner
    joint reached rfl
  intro other apart
  rw [quiet other apart]
  exact List.nil_prefix

/-! ## Two clients -/

/-- The system in which the listening socket is ready and another client connects. -/
def joiningClient : Sys :=
  { secondClient with ppoll := fun _ _ => .ready fun index => if index = 0 then 1 else 0 }

/-- The system in which the first of two clients is heard. -/
def earlierClient (bytes : List Byte) : Sys :=
  { loneClient bytes with ppoll := fun _ _ => .ready fun index => if index = 1 then 1 else 0 }

/-- A device that is a register of one byte, one of the two of the world. -/
def oneRegister (second : Bool) : ServedDevice (Byte × Byte) where
  attach world := (none, world)
  read _ count world :=
    (⟨List.replicate count (if second then world.2 else world.1), none⟩, world)
  write _ data world :=
    (none, if second then (world.1, data.headD world.2) else (data.headD world.1, world.2))
  read_le _ _ _ := by simp
  read_all _ _ _ _ := by simp

/-- A server with both; its bus has the second one for queries of the type "b". -/
def twoRegisters : Tables (Byte × Byte) where
  device dev := oneRegister (dev ≠ 0)
  buses := [⟨fun specs world =>
    (.ok [if specs.map HwioCompSpec.type = [text "b"] then 1 else 0], world)⟩]
  plugins := ∅
  pluginsFast := []
  pluginsFastNames := []

def registerSpec (second : Bool) : HwioCompSpec :=
  ⟨[], [], if second then text "b" else text "a", ⟨1, 0, 0⟩⟩

/-- One client keeps a byte in the first register, the other one, in two ways,
in the second. -/
def registerUsers (variant : Bool) (owner : ClientPtr) : List Op :=
  if owner = 0 then [.findDevices [registerSpec false], .write 0 0 [7], .read 0 0 1]
  else if owner = 1 then
    [.findDevices [registerSpec true], .write 0 0 [if variant then 9 else 5]]
  else []

/-- The second register is different at the start, too. -/
def registersAtStart (variant : Bool) : Byte × Byte := (0, if variant then 0 else 3)

/-- The answer to a lookup of one device. -/
def placeZero : Frame := ⟨7, List.replicate 2 0, by decide⟩

/-- The first client has written. -/
def firstWritten (variant : Bool) : Joint (Byte × Byte) where
  server := (poolClientMsgs (loneClient (Op.write 0 0 [7]).frame.bytes)
    (loneRun twoRegisters [] (registersAtStart variant)
      (Op.findDevices [registerSpec false]).frame.bytes)).2
  running := true
  client :=
    (((Client.connect [] [] (registerUsers variant 0)).waiting
      (.findDevices [registerSpec false]) [.write 0 0 [7], .read 0 0 1]).took
        (.findDevices [registerSpec false]) placeZero).told (.write 0 0 [7])
          [.read 0 0 1]

theorem firstWritten_reached (variant : Bool) :
    Joint.Reached (prepared twoRegisters 3 [] (registersAtStart variant)) 0
      (Client.connect [] [] (registerUsers variant 0)) (firstWritten variant) := by
  have asked := (Joint.Reached.start :
    Joint.Reached (prepared twoRegisters 3 [] (registersAtStart variant)) 0
      (Client.connect [] [] (registerUsers variant 0)) _).waits rfl rfl trivial (by decide +kernel) rfl
  have served := asked.served (Op.findDevices [registerSpec false]).frame.bytes
    (by cases variant <;> decide +kernel) (by cases variant <;> decide +kernel)
    (by cases variant <;> decide +kernel) (by cases variant <;> decide +kernel)
  have found := served.takes rfl placeZero (by decide)
    (by cases variant <;> decide +kernel)
  have told := found.tells rfl rfl (by decide) (by decide +kernel) rfl
  exact told.passes (loneClient (Op.write 0 0 [7]).frame.bytes)
    (by cases variant <;> decide +kernel) (by cases variant <;> decide +kernel)

/-- The second client has come and written. -/
def secondWritten (variant : Bool) : Joint (Byte × Byte) where
  server := (poolClientMsgs
    (loneClient (Op.write 0 0 [if variant then 9 else 5]).frame.bytes)
    (poolClientMsgs (loneClient (Op.findDevices [registerSpec true]).frame.bytes)
      (poolClientMsgs joiningClient (firstWritten variant).server).2).2).2
  running := true
  client :=
    (((Client.connect [] [] (registerUsers variant 1)).waiting
      (.findDevices [registerSpec true]) [.write 0 0 [if variant then 9 else 5]]).took
        (.findDevices [registerSpec true]) placeZero).told
          (.write 0 0 [if variant then 9 else 5]) []

theorem secondWritten_reached (variant : Bool) :
    Joint.Reached (firstWritten variant).server 1
      (Client.connect [] [] (registerUsers variant 1)) (secondWritten variant) := by
  have asked := (Joint.Reached.start : Joint.Reached (firstWritten variant).server 1
    (Client.connect [] [] (registerUsers variant 1)) _).waits rfl rfl trivial
      (by cases variant <;> decide +kernel) rfl
  have joined := asked.passes joiningClient
    (by cases variant <;> decide +kernel) (by cases variant <;> decide +kernel)
  have served := joined.passes (loneClient (Op.findDevices [registerSpec true]).frame.bytes)
    (by cases variant <;> decide +kernel) (by cases variant <;> decide +kernel)
  have found := served.takes rfl placeZero (by decide)
    (by cases variant <;> decide +kernel)
  have told := found.tells rfl rfl (by cases variant <;> decide)
    (by cases variant <;> decide +kernel) rfl
  exact told.passes (loneClient (Op.write 0 0 [if variant then 9 else 5]).frame.bytes)
    (by cases variant <;> decide +kernel) (by cases variant <;> decide +kernel)

/-- The first client has read. -/
def firstRead (variant : Bool) : Joint (Byte × Byte) where
  server := (poolClientMsgs (earlierClient (Op.read 0 0 1).frame.bytes)
    (secondWritten variant).server).2
  running := true
  client := ((firstWritten variant).client.waiting (.read 0 0 1) []).took (.read 0 0 1)
    ⟨2, [7], by decide⟩

theorem firstRead_reached (variant : Bool) :
    Joint.Reached (secondWritten variant).server 0 (firstWritten variant).client
      (firstRead variant) := by
  have asked := (Joint.Reached.start : Joint.Reached (secondWritten variant).server 0
    (firstWritten variant).client ⟨(secondWritten variant).server, true, _⟩).waits rfl rfl
      (by decide) (by decide +kernel) rfl
  have read := asked.passes (earlierClient (Op.read 0 0 1).frame.bytes)
    (by cases variant <;> decide +kernel) (by cases variant <;> decide +kernel)
  exact read.takes rfl ⟨2, [7], by decide⟩ (by decide) (by cases variant <;> decide +kernel)

/-- The server and its clients at these three places. -/
def afterFirst (variant : Bool) : System (Byte × Byte) :=
  ⟨(firstWritten variant).server, true, Function.update
    (System.begin twoRegisters 3 [] (registersAtStart variant) (fun _ => ([], []))
      (registerUsers variant)).clients 0 (firstWritten variant).client⟩

def afterSecond (variant : Bool) : System (Byte × Byte) :=
  ⟨(secondWritten variant).server, true,
    Function.update (afterFirst variant).clients 1 (secondWritten variant).client⟩

def registersUsed (variant : Bool) : System (Byte × Byte) :=
  ⟨(firstRead variant).server, true,
    Function.update (afterSecond variant).clients 0 (firstRead variant).client⟩

theorem registersUsed_steps (variant : Bool) :
    System.Steps (System.begin twoRegisters 3 [] (registersAtStart variant) (fun _ => ([], []))
      (registerUsers variant)) (registersUsed variant) := by
  have first : System.Steps (System.begin twoRegisters 3 [] (registersAtStart variant)
      (fun _ => ([], [])) (registerUsers variant)) (afterFirst variant) := by
    apply Joint.Reached.steps (firstWritten_reached variant)
    intro other apart
    by_cases one : other = 1
    · subst one
      cases variant <;> decide +kernel
    · exact receivedBy_of_known [0, 1] (by cases variant <;> decide +kernel) (by simp [apart, one])
  have second : System.Steps (afterFirst variant) (afterSecond variant) := by
    have reached : Joint.Reached (afterFirst variant).server 1 ((afterFirst variant).clients 1)
        (secondWritten variant) := by
      simp only [afterFirst]
      rw [Function.update_of_ne (by decide)]
      exact secondWritten_reached variant
    apply reached.stepsFrom rfl
    intro other apart
    by_cases zero : other = 0
    · subst zero
      cases variant <;> decide +kernel
    · rw [receivedBy_of_known [0, 1] (by cases variant <;> decide +kernel) (by simp [zero, apart])]
      exact List.nil_prefix
  have third : System.Steps (afterSecond variant) (registersUsed variant) := by
    have reached : Joint.Reached (afterSecond variant).server 0 ((afterSecond variant).clients 0)
        (firstRead variant) := by
      simp only [afterSecond, afterFirst]
      rw [Function.update_of_ne (by decide), Function.update_self]
      exact firstRead_reached variant
    apply reached.stepsFrom rfl
    intro other apart
    by_cases one : other = 1
    · subst one
      cases variant <;> decide +kernel
    · rw [receivedBy_of_known [0, 1] (by cases variant <;> decide +kernel) (by simp [apart, one])]
      exact List.nil_prefix
  exact (first.trans second).trans third

theorem registerSpec_carried (second : Bool) : Carried [registerSpec second] where
  some := nofun
  few := Nat.succ_le_succ (Nat.zero_le _)
  encodable := by
    intro item member
    obtain rfl := List.mem_singleton.mp member
    have empty : FitsName [] := ⟨List.not_mem_nil, by decide⟩
    refine ⟨empty, empty, ?_⟩
    cases second <;> exact ⟨by decide, by decide⟩

theorem registerUsers_intact (variant : Bool) (owner : ClientPtr) :
    ∀ op ∈ registerUsers variant owner, op.Intact twoRegisters := by
  intro op member
  unfold registerUsers at member
  split at member
  · simp only [List.mem_cons, List.not_mem_nil, or_false] at member
    rcases member with rfl | rfl | rfl
    · exact registerSpec_carried false
    · trivial
    · exact (by decide : sizeofHeader + 1 ≤ bufferSize)
  · split at member
    · simp only [List.mem_cons, List.not_mem_nil, or_false] at member
      rcases member with rfl | rfl
      · exact registerSpec_carried true
      · trivial
    · cases member

theorem registersUsed_answers (variant : Bool) :
    (registersUsed variant).answers twoRegisters (registersAtStart variant)
      (registerUsers variant) 0 =
        [.returned (.devices [0]), .returned (.bytes []), .returned (.bytes [7])] := by
  cases variant <;> decide +kernel

/-- No call of the first client fails. -/
theorem registersUsed_unfailed (variant : Bool) (k : Nat) :
    (registersUsed variant).Unfailed twoRegisters (registersAtStart variant)
      (registerUsers variant) 0 k := by
  intro j upshot _ found
  rw [registersUsed_answers] at found
  have member := List.mem_of_getElem? found
  simp only [List.mem_cons, List.not_mem_nil, or_false] at member
  rcases member with rfl | rfl | rfl <;> exact ⟨_, rfl⟩

theorem registers_serialized :
    (registersUsed true).server.world = (7, 9) ∧
      ∃ call, ((registersUsed true).clients 0).done[2]? = some call ∧
        call.result = .ok (.bytes [7]) := by
  obtain ⟨⟨world, _⟩, _, gives, _⟩ :=
    calls_serialized (registersUsed_steps true) (registerUsers_intact true)
  obtain ⟨call, done⟩ : ∃ call, ((registersUsed true).clients 0).done[2]? = some call := ⟨_, rfl⟩
  have waits : call.op.waits = true := by
    obtain rfl := Option.some.inj (show some _ = some call from done)
    rfl
  obtain ⟨upshot, answer, given⟩ := gives 0 2 call done waits (registersUsed_unfailed true 2)
  rw [registersUsed_answers] at answer
  obtain rfl := Option.some.inj (show some _ = some upshot from answer)
  exact ⟨world.trans (by decide +kernel), call, done, given⟩

end Hwio
