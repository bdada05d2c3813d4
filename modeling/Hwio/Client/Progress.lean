import Hwio.Client.System
import Hwio.Client.Returning
import Hwio.Server.Serving

/-!
Contract: the calls of a connected client can all be made.

Owns that a client whose connection is open is never stuck, whatever the others
have done and wherever the bytes between it and the server are cut, when the hub
returns to the rest of its calls: some steps of it and passes of the server bring
it to the end of its program.

Does not own that these steps are taken.
-/

namespace Hwio

open Library HwioServer

variable {World : Type}

/-! ## What a client has sent -/

/-- No more of a request was sent than there is of it. -/
def Client.SentWithin (client : Client) : Prop :=
  ∀ op bytesWr, client.phase = .sending op bytesWr → bytesWr ≤ client.txSize

theorem ClientStep.sentWithin {client after : Client} {available : List Byte}
    (step : ClientStep available client after) : after.SentWithin := by
  intro other bytesWr' phase'
  cases step with
  | starts op rest phase next asserted fits =>
      obtain ⟨rfl, rfl⟩ := Phase.sending.inj phase'
      exact Nat.zero_le _
  | sends op bytesWr count phase some atMost =>
      obtain ⟨rfl, rfl⟩ := Phase.sending.inj phase'
      exact atMost
  | unanswered op phase waits => cases phase'
  | awaits op phase waits => cases phase'
  | receives op header bytesRead chunk phase some atMost arrived => cases phase'
  | header op phase asserted => cases phase'
  | returns op header phase => cases phase'

theorem Joint.Reached.sentWithin {start : HwioServer World} {owner : ClientPtr} {connected : Client}
    {joint : Joint World} (reached : Joint.Reached start owner connected joint)
    (begun : connected.SentWithin) : joint.client.SentWithin := by
  induction reached with
  | start => exact begun
  | pass before sys running delivered kept => exact kept
  | call before step kept => exact step.sentWithin

/-- All requests that were begun were sent, when the last of them was. -/
theorem Consistent.sent_all {ops : List Op} {client : Client} (consistent : Consistent ops client)
    (whole : client.phase.sent = client.phase.op.flatMap fun op => op.frame.bytes) :
    client.sent = (client.started.map Op.frame).flatMap Frame.bytes := by
  rw [consistent.sent, whole, ← List.flatMap_append, Client.started, List.flatMap_map]

namespace System

/-- The order in which the calls take effect when one client makes the rest of
its program, and the others make no more calls. -/
def outlook (programs : ClientPtr → List Op) (owner : ClientPtr) (system : System World) :
    List (ClientPtr × Op) :=
  completed programs owner (system.server.trace.filterMap turnOf)

section

variable {tables : Tables World} {master : Fd} {tx : List Byte} {world : World}
variable {buffers : ClientPtr → List Byte × List Byte} {programs : ClientPtr → List Op}
variable {owner : ClientPtr} {system later : System World}

/-- Events of one client do not change its outlook. -/
theorem outlook_kept {events : List Event}
    (trace : later.server.trace = system.server.trace ++ events)
    (own : ∀ event ∈ events, ∀ other, turnOf event = some other → other = owner) :
    later.outlook programs owner = system.outlook programs owner := by
  rw [outlook, outlook, trace, List.filterMap_append]
  apply completed_append
  intro turn member
  obtain ⟨event, among, same⟩ := List.mem_filterMap.mp member
  exact own event among turn same

/-- Steps of one client, and passes that serve it. -/
structure Advances (programs : ClientPtr → List Op) (owner : ClientPtr)
    (system later : System World) : Prop where
  steps : Steps system later
  others : ∀ other, other ≠ owner → later.clients other = system.clients other
  outlook : later.outlook programs owner = system.outlook programs owner

theorem Advances.refl : Advances programs owner system system := ⟨.refl, fun _ _ => rfl, rfl⟩

theorem Advances.trans {between : System World} (first : Advances programs owner system between)
    (second : Advances programs owner between later) : Advances programs owner system later where
  steps := first.steps.trans second.steps
  others other apart := (second.others other apart).trans (first.others other apart)
  outlook := second.outlook.trans first.outlook

/-- A connected client, on which the hub will not fail. -/
structure Promising (tables : Tables World) (master : Fd) (tx : List Byte) (world : World)
    (buffers : ClientPtr → List Byte × List Byte) (programs : ClientPtr → List Op)
    (owner : ClientPtr) (system : System World) : Prop where
  steps : Steps (begin tables master tx world buffers programs) system
  served : Served (prepared tables master tx world) system.server
  running : system.running = true
  live : ∃ record, system.server.heap owner = some record
  promised : ∀ upshot ∈ answersIn (Hub.perform tables) owner (system.outlook programs owner)
    (Hub.start world), ∃ result, upshot = .returned result

/-! ## The requests that the server gets to -/

/-- The server answers a request on which the hub does not fail, and keeps the
connection. -/
theorem answered_of_promised
    (steps : Steps (begin tables master tx world buffers programs) system)
    (intact : ∀ owner, ∀ op ∈ programs owner, op.Intact tables)
    (promised : ∀ upshot ∈ answersIn (Hub.perform tables) owner (system.outlook programs owner)
      (Hub.start world), ∃ result, upshot = .returned result)
    {k : Nat} {header : HwioPacketHeader} {ctx : Ctx World}
    (request : ((system.joint owner).requests tables (prepared tables master tx world) owner)[k]? =
      some (header, ctx)) :
    ∃ op, (programs owner)[k]? = some op ∧ InTurn tables header ctx op ∧
      ∃ txSize, (handleMsg tables header ctx).1 = .ok ⟨false, txSize⟩ ∧ txSize ≤ bufferSize ∧
        (op.waits = true → txSize ≠ 0) := by
  obtain ⟨op, front, back, listed, _, _, performed, answer⟩ :=
    request_performed steps intact request
  have member := List.mem_of_getElem? answer
  have grown : system.answers tables world programs owner <+: _ :=
    answersIn_prefix (Hub.perform tables) owner
      (schedule_prefix_completed programs owner _) (Hub.start world)
  obtain ⟨result, returned⟩ := promised _ (grown.subset member)
  exact ⟨op, listed, performed.inTurn result returned, performed.answered result returned⟩

/-- Every request of the client stays. -/
theorem stays_of_promised
    (steps : Steps (begin tables master tx world buffers programs) system)
    (intact : ∀ owner, ∀ op ∈ programs owner, op.Intact tables)
    (promised : ∀ upshot ∈ answersIn (Hub.perform tables) owner (system.outlook programs owner)
      (Hub.start world), ∃ result, upshot = .returned result)
    {front back : List Event} {event : Event}
    (split : system.server.trace = front ++ event :: back)
    (own : ∀ other, turnOf event = some other → other = owner) :
    Stays tables (prepared tables master tx world).service front event := by
  cases event with
  | dispatched client offset header rx =>
      obtain rfl := own client rfl
      have request := @request_at World tables (prepared tables master tx world)
        (system.joint client) front back client offset header rx split
      obtain ⟨_, _, _, txSize, answered, _⟩ := answered_of_promised steps intact promised request
      exact ⟨txSize, answered⟩
  | _ => trivial

namespace Promising

/-- The client alone goes on. -/
theorem calls (promising : Promising tables master tx world buffers programs owner system)
    {after : Client} (reached : Joint.Reached system.server owner (system.clients owner)
      ⟨system.server, true, after⟩) :
    Advances programs owner system
        ⟨system.server, true, Function.update system.clients owner after⟩ ∧
      Promising tables master tx world buffers programs owner
        ⟨system.server, true, Function.update system.clients owner after⟩ := by
  have steps := reached.stepsFrom promising.running fun other _ =>
    (System.linked promising.steps other).delivered
  exact ⟨⟨steps, fun other apart => Function.update_of_ne apart .., rfl⟩,
    promising.steps.trans steps, promising.served, rfl, promising.live, promising.promised⟩

section

variable (promising : Promising tables master tx world buffers programs owner system)
  (intact : ∀ owner, ∀ op ∈ programs owner, op.Intact tables)

include promising intact

/-- The bytes of the client make up its first requests and a part of the next
one. -/
theorem settled :
    Settled tables (prepared tables master tx world).service owner .idle system.server := by
  have linked := linked promising.steps owner
  apply linked.reached.settled
  have spares : ∀ frame ∈ (system.clients owner).started.map Op.frame, Spares frame := by
    intro frame member
    obtain ⟨op, _, rfl⟩ := List.mem_map.mp member
    exact op.frame_spares
  apply tame_of_sent spares
  · exact linked.delivered.trans linked.consistent.sent_prefix
  · intro front event back split
    cases event with
    | dispatched client offset header rx =>
        rintro rfl
        obtain ⟨txSize, answered⟩ := stays_of_promised promising.steps intact promising.promised
          split fun other same => (Option.some.inj same).symm
        exact ⟨_, answered⟩
    | _ => trivial

/-- There is room for more bytes. -/
theorem room {record : ClientInfo} (live : system.server.heap owner = some record) :
    record.rxBuffer.currLen < rxBufferSize := by
  have settled := promising.settled intact
  have linked := linked promising.steps owner
  have waiting := settled.waiting record live
  have incomplete : Incomplete sizeofHeader Frame.size record.rxBuffer.window := by
    rcases waiting.stage with ⟨handled, _⟩ | ⟨_, serving | incomplete⟩
    · exact absurd handled (settled.opened live (by simp))
    · cases serving
    · exact incomplete
  have sent := linked.delivered.trans linked.consistent.sent_prefix
  change receivedBy owner system.server.trace <+: _ at sent
  rw [waiting.stream] at sent
  obtain ⟨later, split, behind⟩ := Frame.selfDelimiting.words_eq sent
  have length : record.rxBuffer.currLen = record.rxBuffer.window.length := by
    rw [RxBuffer.window_length]
  rcases Frame.selfDelimiting.pending_lt behind incomplete with none | ⟨next, more, same, _, less⟩
  · rw [length, none]
    decide
  · have member : next ∈ (system.clients owner).started.map Op.frame := by
      change next ∈ (system.joint owner).client.started.map Op.frame
      rw [split, same]
      simp
    obtain ⟨op, begun, rfl⟩ := List.mem_map.mp member
    have fits := linked.consistent.fits op begun
    have counted := op.bodyLen_le
    rw [Frame.bytes_length, Op.frame_body_length fits] at less
    unfold Op.Fits sizeofHeader bufferSize at fits
    unfold sizeofHeader at less
    unfold rxBufferSize
    omega

/-! ## The passes that it needs -/

/-- A pass that takes some of the bytes which the client has sent. -/
theorem pass (more : receivedBy owner system.server.trace ≠ (system.clients owner).sent) :
    ∃ later, Advances programs owner system later ∧
      Promising tables master tx world buffers programs owner later ∧
      later.clients = system.clients ∧
      (receivedBy owner system.server.trace).length <
        (receivedBy owner later.server.trace).length := by
  have linked := linked promising.steps owner
  obtain ⟨record, live⟩ := promising.live
  obtain ⟨rest, consistent⟩ := promising.served.consistent
  obtain ⟨bytes, sent⟩ := linked.delivered
  change receivedBy owner system.server.trace ++ bytes = (system.clients owner).sent at sent
  have waiting : bytes ≠ [] := by
    rintro rfl
    rw [List.append_nil] at sent
    exact more sent
  have room := promising.room intact live
  have taken : 0 < (bytes.take (rxBufferSize - record.rxBuffer.currLen)).length := by
    have positive := List.length_pos_iff.mpr waiting
    rw [List.length_take]
    omega
  obtain ⟨events, trace, concern, received, returns⟩ := consistent.delivers linked.known live
    (List.length_pos_iff.mp taken)
  have turns : ∀ event ∈ .visited record.fd :: events, ∀ other, turnOf event = some other →
      other = owner := by
    intro event member other turn
    rcases List.mem_cons.mp member with rfl | inside
    · cases turn
    cases event with
    | dispatched client offset header rx =>
        obtain rfl := Option.some.inj turn
        rcases concern _ inside with own | closed | freed
        · exact Option.some.inj own
        · cases closed
        · cases freed
    | _ => cases turn
  have idle : ∀ event ∈ .visited record.fd :: events, Idle event ∨ actor event = some owner := by
    intro event member
    rcases List.mem_cons.mp member with rfl | inside
    · exact Or.inl trivial
    rcases concern event inside with own | rfl | rfl
    · exact Or.inr own
    · exact Or.inl trivial
    · exact Or.inl trivial
  have whole : (poolClientMsgs (delivering record.fd bytes) system.server).2.trace =
      system.server.trace ++ .visited record.fd :: events := trace.trans (List.append_assoc ..)
  have grown : receivedBy owner (poolClientMsgs (delivering record.fd bytes) system.server).2.trace =
      receivedBy owner system.server.trace ++
        bytes.take (rxBufferSize - record.rxBuffer.currLen) := by
    rw [whole, receivedBy_append, ← received]
    rfl
  have step : Step system
      { system with
        server := (poolClientMsgs (delivering record.fd bytes) system.server).2
        running := (poolClientMsgs (delivering record.fd bytes) system.server).1.isOk } := by
    apply Step.pass _ promising.running
    intro other
    by_cases own : other = owner
    · subst own
      rw [grown, ← sent, List.prefix_append_right_inj]
      exact List.take_prefix _ _
    · have apart : ∀ event ∈ .visited record.fd :: events,
          Idle event ∨ actor event ≠ some other := fun event member =>
        (idle event member).imp_right fun acts same =>
          own (Option.some.inj (same.symm.trans acts))
      rw [whole, (stream_unchanged system.server.trace apart).1]
      exact (System.linked promising.steps other).delivered
  have kept := @outlook_kept World programs owner system
    { system with
      server := (poolClientMsgs (delivering record.fd bytes) system.server).2
      running := (poolClientMsgs (delivering record.fd bytes) system.server).1.isOk }
    _ whole turns
  have promised := promising.promised
  rw [← kept] at promised
  have steps := promising.steps.tail step
  obtain ⟨returned, left⟩ := returns (by
    intro front event back split
    rw [split, ← List.append_assoc] at trace
    apply stays_of_promised steps intact promised trace
    apply turns event
    rw [split]
    exact List.mem_cons_of_mem _ (List.mem_append_right _ List.mem_cons_self))
  refine ⟨_, ⟨.single step, fun _ _ => rfl, kept⟩, ⟨steps, ?_, ?_, left, promised⟩, rfl, ?_⟩
  · exact promising.served.pass (delivering record.fd bytes) (fun history fd => rfl)
      (Prod.ext returned rfl)
  · show (poolClientMsgs (delivering record.fd bytes) system.server).1.isOk = true
    rw [returned]
    rfl
  · show _ < (receivedBy owner (poolClientMsgs _ system.server).2.trace).length
    rw [grown, List.length_append]
    exact Nat.lt_add_of_pos_right taken

/-- Passes that take all that the client has sent. -/
theorem passes : ∃ later, Advances programs owner system later ∧
    Promising tables master tx world buffers programs owner later ∧
    later.clients = system.clients ∧
    receivedBy owner later.server.trace = (system.clients owner).sent := by
  generalize missing : (system.clients owner).sent.length -
    (receivedBy owner system.server.trace).length = count
  induction count using Nat.strong_induction_on generalizing system with
  | h count inductionHypothesis =>
      by_cases more : receivedBy owner system.server.trace = (system.clients owner).sent
      · exact ⟨system, .refl, promising, rfl, more⟩
      obtain ⟨between, step, promising', same, grown⟩ := promising.pass intact more
      have delivered := (System.linked promising'.steps owner).delivered.length_le
      change (receivedBy owner between.server.trace).length ≤ (between.clients owner).sent.length
        at delivered
      rw [same] at delivered
      obtain ⟨later, steps, promising'', same', all⟩ := inductionHypothesis _
        (by rw [← missing, same]; omega) promising' rfl
      exact ⟨later, step.trans steps, promising'', same'.trans same, same ▸ all⟩

/-- When all requests came whole, the server got to all of them. -/
theorem asked_all (whole : receivedBy owner system.server.trace =
      ((system.clients owner).started.map Op.frame).flatMap Frame.bytes) :
    ((system.joint owner).requests tables (prepared tables master tx world) owner).map frameOf =
      (system.clients owner).started.map Op.frame := by
  have settled := promising.settled intact
  obtain ⟨record, live⟩ := promising.live
  obtain ⟨rest, stream, incomplete⟩ := settled.streamed
  have pending := incomplete (settled.opened live (by simp)) (by simp)
  rw [stream] at whole
  obtain ⟨later, split, behind⟩ := Frame.selfDelimiting.words_eq
    ⟨[], (List.append_nil _).trans whole⟩
  rw [split, List.flatMap_append, List.append_cancel_left_eq] at whole
  have last : later = [] := by
    rcases Frame.selfDelimiting.pending_lt behind pending with none | ⟨next, more, rfl, _, less⟩
    · rw [none] at whole
      cases later with
      | nil => rfl
      | cons frame more =>
          have length := congrArg List.length whole
          rw [List.length_nil, List.flatMap_cons, List.length_append, Frame.bytes_length,
            sizeofHeader] at length
          omega
    · rw [whole, List.flatMap_cons, List.length_append] at less
      omega
  rw [split, last, List.append_nil, dispatchedTo_eq tables (prepared tables master tx world).service]
  rfl

/-- The answer to the call that the client waits in, when the server got to its
request. -/
theorem answer {op : Op} {waitingFor : Option HwioPacketHeader} {bytesRead : Nat}
    (phase : (system.clients owner).phase = .receiving op waitingFor bytesRead)
    (asked : ((system.joint owner).requests tables (prepared tables master tx world)
      owner).map frameOf = (system.clients owner).started.map Op.frame) :
    ∃ header ctx, ((system.joint owner).requests tables (prepared tables master tx world)
        owner)[(system.clients owner).done.length]? = some (header, ctx) ∧
      ∃ frame : Frame, replyBytes (handleMsg tables header ctx) = frame.bytes ∧
        frame.body.length ≤ bufferSize := by
  have linked := System.linked promising.steps owner
  have begun : (system.clients owner).started[(system.clients owner).done.length]? = some op := by
    rw [Client.started, phase, List.getElem?_append_right (by simp), List.length_map, Nat.sub_self]
    rfl
  have there := congrArg (fun frames => frames[(system.clients owner).done.length]?) asked
  simp only [List.getElem?_map, begun, Option.map_some, Option.map_eq_some_iff] at there
  obtain ⟨⟨header, ctx⟩, request, same⟩ := there
  refine ⟨header, ctx, request, ?_⟩
  obtain ⟨other, listed, inTurn, txSize, answered, small, some⟩ :=
    answered_of_promised promising.steps intact promising.promised request
  obtain rfl := Option.some.inj (listed.symm.trans (linked.started_op begun))
  have waits : other.waits = true := linked.consistent.waiting other waitingFor bytesRead phase
  have reply := inTurn.reply (congrArg (fun frame => frame.header.command) same)
  have bytes := replyBytes_of_ok answered
  rw [if_pos waits] at reply
  rcases reply with none | ⟨frame, whole⟩
  · rw [bytes, ← List.length_eq_zero_iff, load_length] at none
    exact absurd none (some waits)
  · have length := congrArg List.length (bytes.symm.trans whole)
    rw [load_length, Frame.bytes_length] at length
    refine ⟨frame, whole, Nat.le_trans (Nat.le_add_left _ sizeofHeader) ?_⟩
    rw [← length]
    exact small

/-- A call that waits can return. -/
theorem returns {op : Op} {waitingFor : Option HwioPacketHeader} {bytesRead : Nat}
    (phase : (system.clients owner).phase = .receiving op waitingFor bytesRead) :
    ∃ later, Advances programs owner system later ∧
      Promising tables master tx world buffers programs owner later ∧
      ∃ call, (later.clients owner).done = (system.clients owner).done ++ [call] := by
  obtain ⟨between, steps, promising', same, all⟩ := promising.passes intact
  rw [← same] at phase all
  have linked := System.linked promising'.steps owner
  have reached := joint_reached promising'.steps owner
  have asked := promising'.asked_all intact (by
    rw [all]
    apply linked.consistent.sent_all
    show (between.clients owner).phase.sent = (between.clients owner).phase.op.flatMap _
    rw [phase, Phase.op, List.flatMap_singleton]
    rfl)
  obtain ⟨header, ctx, request, frame, reply, short⟩ := promising'.answer intact phase asked
  have settled := promising'.settled intact
  obtain ⟨record, live⟩ := promising'.live
  obtain ⟨unsent, replies, none⟩ := linked.reached.replied owner
  rw [none (settled.opened live (by simp)), List.append_nil, repliesTo_eq, List.flatMap_def]
    at replies
  have inTurn : (between.joint owner).InTurnBefore tables (prepared tables master tx world) owner
      (between.clients owner).done.length := by
    intro earlier call header ctx _ done request
    obtain ⟨other, listed, inTurn, _⟩ :=
      answered_of_promised promising'.steps intact promising'.promised request
    obtain rfl := Option.some.inj (listed.symm.trans (linked.done_op done))
    exact inTurn
  obtain ⟨rest, whole, arrived⟩ := reached.missing_came inTurn phase request reply
    (replies ▸ List.prefix_rfl)
  have here : Joint.Reached between.server owner (between.clients owner)
    ⟨between.server, true, between.clients owner⟩ := .start
  obtain ⟨after, call, reached', done, _⟩ :=
    here.returns_frame phase (reached.bounded trivial) short whole arrived
  obtain ⟨steps', promising''⟩ := promising'.calls reached'
  refine ⟨_, steps.trans steps', promising'', call, ?_⟩
  show (Function.update between.clients owner after owner).done = _
  rw [Function.update_self, ← same]
  exact done

/-- A call that was sent can return. -/
theorem concludes {op : Op}
    (phase : (system.clients owner).phase = .sending op (system.clients owner).txSize) :
    ∃ later, Advances programs owner system later ∧
      Promising tables master tx world buffers programs owner later ∧
      ∃ call, (later.clients owner).done = (system.clients owner).done ++ [call] := by
  have here : Joint.Reached system.server owner (system.clients owner)
    ⟨system.server, true, system.clients owner⟩ := .start
  cases waits : op.waits with
  | false =>
      obtain ⟨steps, promising'⟩ := promising.calls (here.call (.unanswered op phase waits))
      refine ⟨_, steps, promising', ?_⟩
      simp only [Function.update_self]
      exact ⟨_, rfl⟩
  | true =>
      obtain ⟨steps, promising'⟩ := promising.calls (here.call (.awaits op phase waits))
      have waiting : (Function.update system.clients owner { system.clients owner with
          phase := .receiving op none 0 } owner).phase = .receiving op none 0 := by
        rw [Function.update_self]
      obtain ⟨later, steps', promising'', call, done⟩ := promising'.returns intact waiting
      refine ⟨later, steps.trans steps', promising'', call, ?_⟩
      rw [done]
      simp only [Function.update_self]

/-- A client that has not made all of its program can make its next call. -/
theorem advances (asserted : ∀ op ∈ programs owner, op.Asserted)
    (fits : ∀ op ∈ programs owner, op.Fits)
    (unfinished : (system.clients owner).done.length < (programs owner).length) :
    ∃ later, Advances programs owner system later ∧
      Promising tables master tx world buffers programs owner later ∧
      ∃ call, (later.clients owner).done = (system.clients owner).done ++ [call] := by
  have linked := System.linked promising.steps owner
  have here : Joint.Reached system.server owner (system.clients owner)
    ⟨system.server, true, system.clients owner⟩ := .start
  cases phase : (system.clients owner).phase with
  | receiving op waitingFor bytesRead => exact promising.returns intact phase
  | ready =>
      have program := linked.consistent.program
      change (system.clients owner).started ++ (system.clients owner).todo = _ at program
      rw [Client.started, phase, Phase.op, List.append_nil] at program
      cases next : (system.clients owner).todo with
      | nil =>
          rw [← program, next, List.append_nil, List.length_map] at unfinished
          exact absurd unfinished (Nat.lt_irrefl _)
      | cons op rest =>
          have member : op ∈ programs owner := by
            rw [← program, next]
            simp
          obtain ⟨steps, promising'⟩ := promising.calls
            (here.asks phase next (asserted op member) (fits op member))
          have sent : (Function.update system.clients owner
              ((system.clients owner).asked op rest) owner).phase = .sending op
                (Function.update system.clients owner
                  ((system.clients owner).asked op rest) owner).txSize := by
            rw [Function.update_self]
            exact congrArg (Phase.sending op) (Op.size_build (fits op member) _).symm
          obtain ⟨later, steps', promising'', call, done⟩ := promising'.concludes intact sent
          refine ⟨later, steps.trans steps', promising'', call, ?_⟩
          rw [done]
          simp only [Function.update_self]
          rfl
  | sending op bytesWr =>
      have within := (joint_reached promising.steps owner).sentWithin
        (by simp [Client.SentWithin, Client.connect]) op bytesWr phase
      change bytesWr ≤ (system.clients owner).txSize at within
      rcases Nat.lt_or_eq_of_le within with more | rfl
      · have sends := here.call (.sends op bytesWr ((system.clients owner).txSize - bytesWr) phase
          (Nat.sub_pos_of_lt more) (Nat.le_of_eq (Nat.add_sub_of_le within)))
        rw [Nat.add_sub_of_le within] at sends
        obtain ⟨steps, promising'⟩ := promising.calls sends
        have sent : ∀ after : Client, after.phase = .sending op after.txSize →
            (Function.update system.clients owner after owner).phase =
              .sending op (Function.update system.clients owner after owner).txSize := by
          intro after phase
          rw [Function.update_self]
          exact phase
        obtain ⟨later, steps', promising'', call, done⟩ :=
          promising'.concludes intact (sent _ rfl)
        refine ⟨later, steps.trans steps', promising'', call, ?_⟩
        rw [done]
        simp only [Function.update_self]
      · exact promising.concludes intact phase

/-- A client can make its whole program. -/
theorem completes (asserted : ∀ op ∈ programs owner, op.Asserted)
    (fits : ∀ op ∈ programs owner, op.Fits) :
    ∃ later, Advances programs owner system later ∧
      Promising tables master tx world buffers programs owner later ∧
      (later.clients owner).done.length = (programs owner).length := by
  generalize missing : (programs owner).length - (system.clients owner).done.length = count
  induction count generalizing system with
  | zero =>
      have linked := System.linked promising.steps owner
      have all := congrArg List.length linked.consistent.program
      change ((system.clients owner).started ++ (system.clients owner).todo).length = _ at all
      rw [Client.started, List.length_append, List.length_append, List.length_map] at all
      exact ⟨system, .refl, promising, by omega⟩
  | succ count inductionHypothesis =>
      obtain ⟨between, steps, promising', call, done⟩ :=
        promising.advances intact asserted fits (by omega)
      obtain ⟨later, steps', promising'', all⟩ := inductionHypothesis promising' (by
        rw [done, List.length_append, List.length_singleton]
        omega)
      exact ⟨later, steps.trans steps', promising'', all⟩

end

end Promising

/-- When the server got to all calls of a client, nothing of it is left. -/
theorem order_eq_outlook (asked : (programs owner).length ≤
      ((system.joint owner).requests tables (prepared tables master tx world) owner).length) :
    system.order programs = system.outlook programs owner := by
  have past : (programs owner).length ≤ (system.server.trace.filterMap turnOf).count owner := by
    rw [count_turns tables (prepared tables master tx world).service]
    exact asked
  rw [outlook, completed, List.drop_eq_nil_of_le past]
  exact (List.append_nil _).symm

end

end System

/-- In every state of every run of a server and any number of clients, in which
all passes returned: when the hub returns to all calls of a connected client,
those that it made before the ones that are left of its program included, then,
wherever it and the bytes between it and the server are, steps of this client and
passes of the server bring it to the end of its program while the others do
nothing, and its calls take effect, in this order behind those before, and return
what the hub returns. -/
theorem connected_client_completes {tables : Tables World} {master : Fd} {tx : List Byte}
    {world : World} {buffers : ClientPtr → List Byte × List Byte}
    {programs : ClientPtr → List Op} {system : System World}
    (steps : System.Steps (System.begin tables master tx world buffers programs) system)
    (intact : ∀ other, ∀ op ∈ programs other, op.Intact tables)
    (served : Served (prepared tables master tx world) system.server)
    (running : system.running = true) {owner : ClientPtr} {record : ClientInfo}
    (live : system.server.heap owner = some record)
    (asserted : ∀ op ∈ programs owner, op.Asserted) (fits : ∀ op ∈ programs owner, op.Fits)
    (promised : ∀ upshot ∈ answersIn (Hub.perform tables) owner (system.outlook programs owner)
      (Hub.start world), ∃ result, upshot = .returned result) :
    ∃ later, System.Steps system later ∧ later.running = true ∧
      (∀ other, other ≠ owner → later.clients other = system.clients other) ∧
      (later.clients owner).done.map Done.op = programs owner ∧
      later.order programs = system.outlook programs owner ∧
      ∀ (k : Nat) call, (later.clients owner).done[k]? = some call → call.op.waits = true →
        ∃ result, (answersIn (Hub.perform tables) owner (system.outlook programs owner)
          (Hub.start world))[k]? = some (.returned result) ∧ call.result = .ok result := by
  have promising : System.Promising tables master tx world buffers programs owner system :=
    ⟨steps, served, running, ⟨record, live⟩, promised⟩
  obtain ⟨between, advanced, promising', all⟩ := promising.completes intact asserted fits
  obtain ⟨later, advanced', promising'', same, came⟩ := promising'.passes intact
  have whole := advanced.trans advanced'
  have linked := System.linked promising''.steps owner
  have program := linked.consistent.program
  change (later.clients owner).started ++ (later.clients owner).todo = _ at program
  rw [← same] at all
  have counted := congrArg List.length program
  rw [Client.started, List.length_append, List.length_append, List.length_map, all] at counted
  have idle : (later.clients owner).phase.op = [] := List.eq_nil_of_length_eq_zero (by omega)
  have none : (later.clients owner).todo = [] := List.eq_nil_of_length_eq_zero (by omega)
  rw [Client.started, idle, none, List.append_nil, List.append_nil] at program
  have asked := promising''.asked_all intact (by
    rw [came, ← same]
    apply linked.consistent.sent_all
    show (later.clients owner).phase.sent = (later.clients owner).phase.op.flatMap _
    rw [idle]
    cases phase : (later.clients owner).phase with
    | ready => rfl
    | _ => rw [phase] at idle; cases idle)
  have ordered : later.order programs = later.outlook programs owner := by
    apply @System.order_eq_outlook World tables master tx world
    have length := congrArg List.length asked
    rw [List.length_map, List.length_map, Client.started, idle, List.append_nil, List.length_map,
      all] at length
    exact Nat.le_of_eq length.symm
  have answers : later.answers tables world programs owner =
      answersIn (Hub.perform tables) owner (system.outlook programs owner) (Hub.start world) := by
    rw [System.answers, ordered, whole.outlook]
  refine ⟨later, whole.steps, promising''.running, whole.others, program,
    ordered.trans whole.outlook, ?_⟩
  intro k call done waits
  obtain ⟨upshot, answer, given⟩ := System.awaited_gives promising''.steps intact done waits (by
    intro j other _ found
    rw [answers] at found
    exact promised other (List.mem_of_getElem? found))
  rw [answers] at answer
  obtain ⟨result, rfl⟩ := promised upshot (List.mem_of_getElem? answer)
  exact ⟨result, answer, given⟩

/-- The programs of a client that looks a device up twice, and of others that do
nothing. -/
def lookTwice (owner : ClientPtr) : List Op :=
  if owner = 0 then [.findDevices [anySpec], .findDevices [anySpec]] else []

theorem lookTwice_intact (owner : ClientPtr) : ∀ op ∈ lookTwice owner, op.Intact oneDevice := by
  intro op member
  unfold lookTwice at member
  split at member
  · obtain rfl : op = .findDevices [anySpec] := by simpa using member
    exact anySpec_carried
  · cases member

/-- A server that accepted a client, which has sent the first of its two lookups
to a server that has not read it. -/
def pendingLookup : System Unit where
  server := (poolClientMsgs (loneClient []) (prepared oneDevice 3 [] ())).2
  running := true
  clients := Function.update
    (System.begin oneDevice 3 [] () (fun _ => ([], [])) lookTwice).clients 0
    ((Client.connect [] [] [.findDevices [anySpec], .findDevices [anySpec]]).asked
      (.findDevices [anySpec]) [.findDevices [anySpec]])

theorem pendingLookup_completes : ∃ later, System.Steps pendingLookup later ∧
    (later.clients 0).done.map Done.op = [.findDevices [anySpec], .findDevices [anySpec]] ∧
      ∃ call, (later.clients 0).done[1]? = some call ∧ call.result = .ok (.devices [0]) := by
  have reached : Joint.Reached (prepared oneDevice 3 [] ()) 0
      (Client.connect [] [] [.findDevices [anySpec], .findDevices [anySpec]])
      ⟨pendingLookup.server, true, (Client.connect [] []
        [.findDevices [anySpec], .findDevices [anySpec]]).asked (.findDevices [anySpec])
          [.findDevices [anySpec]]⟩ :=
    (Joint.Reached.start.passes (loneClient []) (by decide +kernel) (by decide +kernel)).asks
      rfl rfl trivial (by decide +kernel)
  have quiet : ∀ other, other ≠ 0 → receivedBy other pendingLookup.server.trace = [] := by
    intro other _
    rfl
  have started : System.Steps (System.begin oneDevice 3 [] () (fun _ => ([], [])) lookTwice)
      pendingLookup :=
    @Joint.Reached.steps Unit oneDevice 3 [] () (fun _ => ([], [])) lookTwice 0 _ reached quiet
  have returned : (poolClientMsgs (loneClient []) (prepared oneDevice 3 [] ())).1 = .ok () := by
    decide +kernel
  have served : Served (prepared oneDevice 3 [] ()) pendingLookup.server :=
    Served.start.pass (loneClient []) (fun history fd => rfl) (Prod.ext returned rfl)
  have answers : answersIn (Hub.perform oneDevice) 0 (pendingLookup.outlook lookTwice 0)
      (Hub.start ()) = [.returned (.devices [0]), .returned (.devices [0])] := by
    decide +kernel
  have asserted : ∀ op ∈ lookTwice 0, op.Asserted := by
    intro op member
    obtain rfl : op = .findDevices [anySpec] := by simpa [lookTwice] using member
    trivial
  have fits : ∀ op ∈ lookTwice 0, op.Fits := by
    intro op member
    obtain rfl : op = .findDevices [anySpec] := by simpa [lookTwice] using member
    decide +kernel
  obtain ⟨record, live⟩ : ∃ record, pendingLookup.server.heap 0 = some record := ⟨_, rfl⟩
  obtain ⟨later, steps, _, _, program, _, given⟩ := connected_client_completes started
    lookTwice_intact served rfl live asserted fits (by
      rw [answers]
      intro upshot member
      simp only [List.mem_cons, List.not_mem_nil, or_false, or_self] at member
      exact ⟨_, member⟩)
  refine ⟨later, steps, program, ?_⟩
  have length := congrArg List.length program
  rw [List.length_map] at length
  obtain ⟨call, done⟩ : ∃ call, (later.clients 0).done[1]? = some call :=
    ⟨_, List.getElem?_eq_getElem (by rw [length]; decide)⟩
  have op : call.op = .findDevices [anySpec] := by
    have there := congrArg (fun ops => ops[1]?) program
    simp only [List.getElem?_map, done, Option.map_some] at there
    exact Option.some.inj there
  obtain ⟨result, answer, same⟩ := given 1 call done (by rw [op]; rfl)
  rw [answers] at answer
  obtain rfl := Upshot.returned.inj (Option.some.inj answer)
  exact ⟨call, done, same⟩

end Hwio
