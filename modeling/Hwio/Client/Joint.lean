import Hwio.Client.Connection
import Hwio.Server.Endings
import Hwio.Server.Exchanges

/-!
Contract: a server and one of its clients.

Owns the runs in which the passes of a server, with all its clients, and the
steps of one client take turns, and what every run keeps of the bytes between
the two.

The connection delivers bytes in order.  No more passes are made when one is
left by an exception, which nothing catches.
-/

namespace Hwio

open Library HwioServer

variable {World : Type}

/-- `running` tells whether the passes returned so far. -/
structure Joint (World : Type) where
  server : HwioServer World
  running : Bool
  client : Client

/-- The states that a server and its client over the connection `owner` go
through. -/
inductive Joint.Reached (start : HwioServer World) (owner : ClientPtr) (connected : Client) :
    Joint World → Prop
  | start : Reached start owner connected ⟨start, true, connected⟩
  | pass {joint : Joint World} (before : Reached start owner connected joint) (sys : Sys)
      (running : joint.running = true)
      (delivered : receivedBy owner (poolClientMsgs sys joint.server).2.trace <+:
        joint.client.sent) :
      Reached start owner connected
        { joint with
          server := (poolClientMsgs sys joint.server).2
          running := (poolClientMsgs sys joint.server).1.isOk }
  | call {joint : Joint World} (before : Reached start owner connected joint) {after : Client}
      (step : ClientStep (sentTo owner joint.server.trace) joint.client after) :
      Reached start owner connected { joint with client := after }

/-- A client that sent the request of its next call. -/
def Client.asked (client : Client) (op : Op) (rest : List Op) : Client :=
  { client with
    txBuffer := op.build client.txBuffer
    sent := client.sent ++ op.frame.bytes
    phase := .sending op op.frame.bytes.length
    todo := rest }

/-- A client whose call waits for a reply. -/
def Client.waiting (client : Client) (op : Op) (rest : List Op) : Client :=
  { client.asked op rest with phase := .receiving op none 0 }

/-- A client whose call does not wait for a reply. -/
def Client.told (client : Client) (op : Op) (rest : List Op) : Client :=
  { client.asked op rest with
    phase := .ready
    done := client.done ++ [⟨op, none, client.rxBuffer, .ok (.bytes [])⟩] }

/-- A client whose call took a frame. -/
def Client.took (client : Client) (op : Op) (frame : Frame) : Client :=
  let rxBuffer := store (store client.rxBuffer 0 frame.header.bytes) 0 frame.body
  let result := op.finish frame.header rxBuffer client.seenDevices
  { client with
    rxBuffer := rxBuffer
    seenDevices := result.2
    received := client.received ++ frame.bytes
    phase := .ready
    done := client.done ++ [⟨op, some frame, rxBuffer, result.1⟩] }

/-! ## The bytes between the two -/

namespace ClientStep

variable {client after : Client} {available : List Byte}

/-- Nothing that was sent is taken back. -/
theorem sent (step : ClientStep available client after) : client.sent <+: after.sent := by
  cases step with
  | sends op bytesWr count phase some atMost => exact List.prefix_append _ _
  | _ => exact List.prefix_rfl

theorem received (step : ClientStep available client after)
    (arrived : client.received <+: available) : after.received <+: available := by
  cases step with
  | receives op header bytesRead chunk phase some atMost arrived => exact arrived
  | _ => exact arrived

end ClientStep

theorem Op.frame_spares (op : Op) : Spares op.frame := by
  have other : op.command ≠ .msg := by cases op <;> nofun
  left
  intro same
  apply other
  have known := congrArg HwioCmd.ofCode same
  rw [Op.frame, HwioCmd.ofCode_code, HwioCmd.ofCode_code] at known
  exact Option.some.inj known

/-- All requests of a history returned, but perhaps the last one. -/
theorem returned_of_closes {Result : Type} {tables : Tables World} {start : Service World}
    {history : List Event} {ran : Except Stop Result} (closes : Closes tables start ran history)
    (client : ClientPtr) :
    ∀ request ∈ (requestsOf tables start client history).dropLast, Returned tables request := by
  have returned : ∀ front, Faultless tables start front →
      ∀ request ∈ requestsOf tables start client front, Returned tables request := by
    rintro front faultless ⟨header, ctx⟩ member
    obtain ⟨earlier, offset, rx, back, split, rfl⟩ := mem_requestsOf_iff.mp member
    exact faultless earlier _ back split client rfl
  intro request member
  rcases closes with faultless | ⟨_, front, event, back, rfl, faultless, quiet⟩
  · exact returned history faultless request (List.dropLast_subset _ member)
  · apply returned front faultless
    have none : requestsOf tables ((start.after tables front).after tables [event]) client back =
        [] := by
      apply List.map_eq_nil_iff.mp
      rw [← dispatchedTo_eq]
      exact dispatchedTo_eq_nil quiet
    rw [← List.singleton_append, requestsOf_append, requestsOf_append, none, List.append_nil,
      requestsOf, requestsOf, List.append_nil] at member
    rcases requestOf_cases (start.after tables front) client event with none | ⟨last, one⟩
    · rw [none, List.append_nil] at member
      exact List.dropLast_subset _ member
    · rwa [one, List.dropLast_concat] at member

/-- What every run keeps of the bytes between a server and its client. -/
structure Joint.Linked (tables : Tables World) (start : HwioServer World) (owner : ClientPtr)
    (ops : List Op) (joint : Joint World) : Prop where
  reached : HwioServer.Reached start joint.server
  known : Known tables start.service joint.server
  consistent : Consistent ops joint.client
  delivered : receivedBy owner joint.server.trace <+: joint.client.sent
  arrived : joint.client.received <+: sentTo owner joint.server.trace
  closes : Closes tables start.service
    (if joint.running then .ok () else .error .dangling : Except Stop Unit) joint.server.trace

namespace Joint

variable {tables : Tables World} {master : Fd} {tx : List Byte} {world : World}
variable {owner : ClientPtr} {txBuffer rxBuffer : List Byte} {ops : List Op} {joint : Joint World}

/-- The requests of the client, with the states that they met. -/
def requests (tables : Tables World) (start : HwioServer World) (owner : ClientPtr)
    (joint : Joint World) : List (HwioPacketHeader × Ctx World) :=
  requestsOf tables start.service owner joint.server.trace

theorem Reached.linked
    (reached : Reached (prepared tables master tx world) owner
      (Client.connect txBuffer rxBuffer ops) joint) :
    Linked tables (prepared tables master tx world) owner ops joint := by
  induction reached with
  | start =>
      exact {
        reached := .start
        known := Reached.known .start
        consistent := connect_consistent txBuffer rxBuffer ops
        delivered := List.nil_prefix
        arrived := List.nil_prefix
        closes := .of_faultless (justified_singleton fun client => trivial) }
  | @pass joint before sys running delivered kept =>
      have closes := kept.closes
      rw [running] at closes
      obtain ⟨events, trace⟩ := Moves.appends (poolClientMsgs_moves sys joint.server)
      have ended := @poolClientMsgs_closes _ _ _ sys _ kept.known closes.faultless
      exact {
        reached := kept.reached.pass sys
        known := Moves.known (poolClientMsgs_moves sys joint.server) kept.known
        consistent := kept.consistent
        delivered
        arrived := by
          show joint.client.received <+: sentTo owner (poolClientMsgs sys joint.server).2.trace
          rw [trace, sentTo_append]
          exact kept.arrived.trans (List.prefix_append _ _)
        closes := by
          show Closes tables _ (if (poolClientMsgs sys joint.server).1.isOk then _ else _) _
          cases result : (poolClientMsgs sys joint.server).1 with
          | ok done =>
              rw [result] at ended
              exact .of_faultless ended.faultless
          | error stop =>
              rw [result] at ended
              exact Closes.error .dangling ended }
  | call before step kept =>
      exact {
        reached := kept.reached
        known := kept.known
        consistent := kept.consistent.step step
        delivered := kept.delivered.trans step.sent
        arrived := step.received kept.arrived
        closes := kept.closes }

/-- The requests are the first of the calls that were begun. -/
theorem Linked.requests_prefix
    (linked : Linked tables (prepared tables master tx world) owner ops joint) :
    (joint.requests tables (prepared tables master tx world) owner).map frameOf <+:
      joint.client.started.map Op.frame := by
  apply linked.reached.dispatched_prefix owner
  · intro frame member
    obtain ⟨op, _, rfl⟩ := List.mem_map.mp member
    exact op.frame_spares
  · exact linked.delivered.trans linked.consistent.sent_prefix
  · exact returned_of_closes linked.closes owner

/-- What the client received are the first of the answers to its requests. -/
theorem Linked.received_prefix
    (linked : Linked tables (prepared tables master tx world) owner ops joint) :
    joint.client.received <+:
      ((joint.requests tables (prepared tables master tx world) owner).map
        (answerTo tables)).flatten := by
  apply linked.arrived.trans
  rw [← List.flatMap_def]
  exact (linked.reached.replied owner).prefix_sentTo

/-! ## Whole calls -/

variable {start server : HwioServer World} {running : Bool} {connected client : Client}
variable {op : Op} {rest : List Op}

/-- A pass that returns leaves the client alone. -/
theorem Reached.passes (before : Reached start owner connected ⟨server, true, client⟩) (sys : Sys)
    (returned : (poolClientMsgs sys server).1.isOk = true)
    (delivered : receivedBy owner (poolClientMsgs sys server).2.trace <+: client.sent) :
    Reached start owner connected ⟨(poolClientMsgs sys server).2, true, client⟩ := by
  have passed := before.pass sys rfl delivered
  rw [returned] at passed
  exact passed

/-- A client that was ready can send the request of its next call. -/
theorem Reached.asks (before : Reached start owner connected ⟨server, running, client⟩)
    (ready : client.phase = .ready) (next : client.todo = op :: rest)
    (asserted : op.Asserted) (fits : op.Fits) :
    Reached start owner connected ⟨server, running, client.asked op rest⟩ := by
  have size := Op.size_build fits client.txBuffer
  have whole := Op.load_build fits client.txBuffer
  have length : sizeofHeader + op.bodyLen = op.frame.bytes.length := by
    rw [Frame.bytes_length, Op.frame_body_length fits]
  rw [length] at whole
  have started := before.call (.starts op rest ready next asserted fits)
  have sent := started.call (.sends op 0 op.frame.bytes.length rfl
    (by rw [← length]; exact Nat.add_pos_left (by decide) _)
    (Nat.le_of_eq ((Nat.zero_add _).trans size.symm)))
  rw [Nat.zero_add, whole] at sent
  exact sent

theorem Reached.waits (before : Reached start owner connected ⟨server, running, client⟩)
    (ready : client.phase = .ready) (next : client.todo = op :: rest)
    (asserted : op.Asserted) (fits : op.Fits) (waits : op.waits = true) :
    Reached start owner connected ⟨server, running, client.waiting op rest⟩ :=
  (before.asks ready next asserted fits).call (.awaits op
    (congrArg (Phase.sending op) (Op.size_build fits client.txBuffer).symm) waits)

theorem Reached.tells (before : Reached start owner connected ⟨server, running, client⟩)
    (ready : client.phase = .ready) (next : client.todo = op :: rest)
    (asserted : op.Asserted) (fits : op.Fits) (waits : op.waits = false) :
    Reached start owner connected ⟨server, running, client.told op rest⟩ :=
  (before.asks ready next asserted fits).call (.unanswered op
    (congrArg (Phase.sending op) (Op.size_build fits client.txBuffer).symm) waits)

/-- A call that waits can take a frame that has come, when the frame has its
place in `rx_buffer`. -/
theorem Reached.takes (before : Reached start owner connected ⟨server, running, client⟩)
    (phase : client.phase = .receiving op none 0) (frame : Frame)
    (short : frame.body.length ≤ bufferSize)
    (arrived : client.received ++ frame.bytes <+: sentTo owner server.trace) :
    Reached start owner connected ⟨server, running, client.took op frame⟩ := by
  have header : HwioPacketHeader.at (store client.rxBuffer 0 frame.header.bytes) 0 =
      frame.header := by
    apply HwioPacketHeader.at_of_load
    rw [← HwioPacketHeader.bytes_length frame.header]
    exact load_store_same _ _ _
  rw [Frame.bytes, ← List.append_assoc] at arrived
  have first := before.call (.receives op none 0 frame.header.bytes phase
    (List.ne_nil_of_length_pos (by rw [HwioPacketHeader.bytes_length]; decide))
    (by rw [HwioPacketHeader.bytes_length]; exact Nat.le_refl _)
    ((List.prefix_append _ _).trans arrived))
  rw [HwioPacketHeader.bytes_length] at first
  have known := first.call (.header op rfl (by
    show (HwioPacketHeader.at (store client.rxBuffer 0 frame.header.bytes) 0).bodyLen.toNat ≤ _
    rw [header, Frame.header_bodyLen_toNat]
    exact short))
  simp only [header] at known
  have body := load_store_same (store client.rxBuffer 0 frame.header.bytes) 0 frame.body
  by_cases empty : frame.body = []
  · have done := known.call (.returns op frame.header (by simp [empty]))
    have same : store (store client.rxBuffer 0 frame.header.bytes) 0 frame.body =
        store client.rxBuffer 0 frame.header.bytes := by
      rw [empty]
      simp [store]
    have whole : client.received ++ frame.header.bytes =
        client.received ++ frame.bytes := by
      rw [Frame.bytes, empty, List.append_nil]
    rw [same] at body
    rw [Client.took, same]
    simp only [Frame.received_of_load body, whole] at done
    exact done
  · have came := known.call (.receives op (some frame.header) 0 frame.body rfl empty
      (by rw [Nat.zero_add]; exact Nat.le_of_eq frame.header_bodyLen_toNat.symm) arrived)
    have done := came.call (.returns op frame.header (by simp))
    simp only [Frame.received_of_load body, List.append_assoc] at done
    exact done

end Joint

end Hwio
