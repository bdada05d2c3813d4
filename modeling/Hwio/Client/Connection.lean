import Hwio.Client.Operations
import Hwio.Library.History

/-!
Contract: one connection of a client, from `hwio_client_to_server_con.cpp`.

Owns the loops of `tx_pckt` and `rx_pckt` around `send` and `recv`, the calls
that a client makes one after the other, and what every connection keeps of the
bytes that went through it.

A `send` or `recv` transfers some of the bytes it is given; the ones that
transfer nothing are repeated.
-/

namespace Hwio

open Library

/-! ## The client -/

/-- Where a client is: between two calls, in `tx_pckt`, or in `rx_pckt` before
or after it has the header. -/
inductive Phase where
  | ready
  | sending (op : Op) (bytesWr : Nat)
  | receiving (op : Op) (header : Option HwioPacketHeader) (bytesRead : Nat)
deriving DecidableEq, Repr

/-- A call that returned: the frame it took from the server, `rx_buffer` at that
time, and its result. -/
structure Done where
  op : Op
  frame : Option Frame
  rx : List Byte
  result : Except Exn Result

/-- `hwio_client_to_server_con` and the `seen_devices` of its bus, with the
bytes that were sent and received so far and the calls to be made. -/
structure Client where
  txBuffer : List Byte
  rxBuffer : List Byte
  seenDevices : List HwioDeviceRemote
  sent : List Byte
  received : List Byte
  phase : Phase
  todo : List Op
  done : List Done

/-- A new connection. -/
def Client.connect (txBuffer rxBuffer : List Byte) (ops : List Op) : Client where
  txBuffer := txBuffer
  rxBuffer := rxBuffer
  seenDevices := []
  sent := []
  received := []
  phase := .ready
  todo := ops
  done := []

/-- The `size` of `tx_pckt`. -/
def Client.txSize (client : Client) : Nat :=
  sizeofHeader + (HwioPacketHeader.at client.txBuffer 0).bodyLen.toNat

/-- The `size` that `rx_pckt` gives to `rx_bytes`. -/
def rxSize : Option HwioPacketHeader → Nat
  | none => sizeofHeader
  | some header => header.bodyLen.toNat

/-- One step of a client for which `available` is what the server has sent it
so far. -/
inductive ClientStep (available : List Byte) (client : Client) : Client → Prop
  | starts (op : Op) (rest : List Op) (phase : client.phase = .ready)
      (next : client.todo = op :: rest) (asserted : op.Asserted) (fits : op.Fits) :
      ClientStep available client
        { client with
          txBuffer := op.build client.txBuffer, phase := .sending op 0, todo := rest }
  | sends (op : Op) (bytesWr count : Nat) (phase : client.phase = .sending op bytesWr)
      (some : 0 < count) (atMost : bytesWr + count ≤ client.txSize) :
      ClientStep available client
        { client with
          sent := client.sent ++ load client.txBuffer bytesWr count
          phase := .sending op (bytesWr + count) }
  | unanswered (op : Op) (phase : client.phase = .sending op client.txSize)
      (waits : op.waits = false) :
      ClientStep available client
        { client with
          phase := .ready
          done := client.done ++ [⟨op, none, client.rxBuffer, .ok (.bytes [])⟩] }
  | awaits (op : Op) (phase : client.phase = .sending op client.txSize)
      (waits : op.waits = true) :
      ClientStep available client { client with phase := .receiving op none 0 }
  | receives (op : Op) (header : Option HwioPacketHeader) (bytesRead : Nat) (chunk : List Byte)
      (phase : client.phase = .receiving op header bytesRead) (some : chunk ≠ [])
      (atMost : bytesRead + chunk.length ≤ rxSize header)
      (arrived : client.received ++ chunk <+: available) :
      ClientStep available client
        { client with
          rxBuffer := store client.rxBuffer bytesRead chunk
          received := client.received ++ chunk
          phase := .receiving op header (bytesRead + chunk.length) }
  | header (op : Op) (phase : client.phase = .receiving op none sizeofHeader)
      (asserted : (HwioPacketHeader.at client.rxBuffer 0).bodyLen.toNat ≤ bufferSize) :
      ClientStep available client
        { client with
          phase := .receiving op (some (HwioPacketHeader.at client.rxBuffer 0)) 0 }
  | returns (op : Op) (header : HwioPacketHeader)
      (phase : client.phase = .receiving op (some header) header.bodyLen.toNat) :
      ClientStep available client
        { client with
          seenDevices := (op.finish header client.rxBuffer client.seenDevices).2
          phase := .ready
          done := client.done ++ [⟨op, some (Frame.received header client.rxBuffer),
            client.rxBuffer, (op.finish header client.rxBuffer client.seenDevices).1⟩] }

/-! ## What went through the connection -/

/-- The call that a client is in. -/
def Phase.op : Phase → List Op
  | .ready => []
  | .sending op _ | .receiving op _ _ => [op]

/-- What a call has sent of its request. -/
def Phase.sent : Phase → List Byte
  | .ready => []
  | .sending op bytesWr => op.frame.bytes.take bytesWr
  | .receiving op _ _ => op.frame.bytes

/-- What a call has received of its reply. -/
def Phase.received (rxBuffer : List Byte) : Phase → List Byte
  | .receiving _ none bytesRead => load rxBuffer 0 bytesRead
  | .receiving _ (some header) bytesRead => header.bytes ++ load rxBuffer 0 bytesRead
  | _ => []

/-- What a call that returned has received. -/
def Done.received (call : Done) : List Byte := call.frame.elim [] Frame.bytes

/-- The calls that were begun, in their order. -/
def Client.started (client : Client) : List Op := client.done.map Done.op ++ client.phase.op

/-- `seen_devices` after some calls. -/
def seenAfter (calls : List Done) : List HwioDeviceRemote :=
  calls.foldl (fun seenDevices call =>
    call.frame.elim seenDevices fun frame =>
      (call.op.finish frame.header call.rx seenDevices).2) []

/-- A call waited for a frame just when it is one that does, and made its result
of it. -/
def Concluded (earlier : List Done) (call : Done) : Prop :=
  call.frame.isSome = call.op.waits ∧
    ∀ frame, call.frame = some frame →
      load call.rx 0 frame.body.length = frame.body ∧
        call.result = (call.op.finish frame.header call.rx (seenAfter earlier)).1

/-- What a connection keeps. -/
structure Consistent (ops : List Op) (client : Client) : Prop where
  program : client.started ++ client.todo = ops
  fits : ∀ op ∈ client.started, op.Fits
  sent : client.sent =
    (client.done.map Done.op).flatMap (fun op => op.frame.bytes) ++ client.phase.sent
  received : client.received =
    client.done.flatMap Done.received ++ client.phase.received client.rxBuffer
  built : ∀ op bytesWr, client.phase = .sending op bytesWr →
    load client.txBuffer 0 (sizeofHeader + op.bodyLen) = op.frame.bytes ∧
      client.txSize = op.frame.bytes.length
  waiting : ∀ op header bytesRead, client.phase = .receiving op header bytesRead →
    op.waits = true
  concluded : Justified Concluded client.done
  seen : client.seenDevices = seenAfter client.done

theorem connect_consistent (txBuffer rxBuffer : List Byte) (ops : List Op) :
    Consistent ops (Client.connect txBuffer rxBuffer ops) where
  program := rfl
  fits _ member := nomatch member
  sent := rfl
  received := rfl
  built _ _ phase := nomatch phase
  waiting _ _ _ phase := nomatch phase
  concluded := justified_nil
  seen := rfl

theorem seenAfter_snoc (calls : List Done) (call : Done) :
    seenAfter (calls ++ [call]) = call.frame.elim (seenAfter calls) fun frame =>
      (call.op.finish frame.header call.rx (seenAfter calls)).2 := by
  rw [seenAfter, List.foldl_append]
  rfl

namespace Consistent

variable {ops : List Op} {client after : Client} {available : List Byte}

/-- The buffer holds the whole request while it is sent. -/
theorem sending_take (consistent : Consistent ops client) {op : Op} {bytesWr : Nat}
    (phase : client.phase = .sending op bytesWr) {count : Nat}
    (atMost : bytesWr + count ≤ client.txSize) :
    op.frame.bytes.take bytesWr ++ load client.txBuffer bytesWr count =
      op.frame.bytes.take (bytesWr + count) := by
  have ⟨whole, size⟩ := consistent.built op bytesWr phase
  have fits := consistent.fits op (by
    rw [Client.started, phase]
    exact List.mem_append_right _ List.mem_cons_self)
  rw [size, Frame.bytes_length, Op.frame_body_length fits] at atMost
  rw [← whole, load_take _ _ (by omega), load_take _ _ atMost, load_add, Nat.zero_add]

end Consistent

namespace ClientStep

variable {client after : Client} {available : List Byte}

/-- The calls are made in their order. -/
theorem program (step : ClientStep available client after) :
    after.started ++ after.todo = client.started ++ client.todo := by
  cases step with
  | starts op rest phase next asserted fits => simp [Client.started, phase, next, Phase.op]
  | sends op bytesWr count phase some atMost => simp [Client.started, phase, Phase.op]
  | unanswered op phase waits => simp [Client.started, phase, Phase.op]
  | awaits op phase waits => simp [Client.started, phase, Phase.op]
  | receives op header bytesRead chunk phase some atMost arrived =>
      simp [Client.started, phase, Phase.op]
  | header op phase asserted => simp [Client.started, phase, Phase.op]
  | returns op header phase => simp [Client.started, phase, Phase.op]

theorem fits (step : ClientStep available client after)
    (before : ∀ op ∈ client.started, op.Fits) : ∀ op ∈ after.started, op.Fits := by
  cases step with
  | starts op rest phase next asserted fits =>
      rw [Client.started, phase, Phase.op, List.append_nil] at before
      intro other member
      rcases List.mem_append.mp member with earlier | now
      · exact before other earlier
      · exact List.mem_singleton.mp now ▸ fits
  | sends op bytesWr count phase some atMost => simpa [Client.started, phase, Phase.op] using before
  | unanswered op phase waits => simpa [Client.started, phase, Phase.op] using before
  | awaits op phase waits => simpa [Client.started, phase, Phase.op] using before
  | receives op header bytesRead chunk phase some atMost arrived =>
      simpa [Client.started, phase, Phase.op] using before
  | header op phase asserted => simpa [Client.started, phase, Phase.op] using before
  | returns op header phase => simpa [Client.started, phase, Phase.op] using before

end ClientStep

namespace Consistent

variable {ops : List Op} {client after : Client} {available : List Byte}

/-- All of a request is sent when the loop of `tx_pckt` ends. -/
theorem sending_whole (consistent : Consistent ops client) {op : Op}
    (phase : client.phase = .sending op client.txSize) : client.phase.sent = op.frame.bytes := by
  have ⟨_, size⟩ := consistent.built op client.txSize phase
  rw [phase, Phase.sent, size, List.take_length]

/-- What was sent are requests of calls that were begun. -/
theorem sent_prefix (consistent : Consistent ops client) :
    client.sent <+: (client.started.map Op.frame).flatMap Frame.bytes := by
  have bytes : (client.started.map Op.frame).flatMap Frame.bytes =
      client.started.flatMap fun op => op.frame.bytes := List.flatMap_map ..
  rw [bytes, consistent.sent, Client.started, List.flatMap_append, List.prefix_append_right_inj]
  cases client.phase with
  | ready => exact List.nil_prefix
  | sending op bytesWr =>
      rw [Phase.op, List.flatMap_singleton]
      exact List.take_prefix _ _
  | receiving op header bytesRead =>
      rw [Phase.op, List.flatMap_singleton]
      exact List.prefix_rfl

/-- A chunk goes behind what was received before. -/
theorem receiving_append (rx : List Byte) (op : Op) (header : Option HwioPacketHeader)
    (bytesRead : Nat) (chunk : List Byte) :
    (Phase.receiving op header (bytesRead + chunk.length)).received (store rx bytesRead chunk) =
      (Phase.receiving op header bytesRead).received rx ++ chunk := by
  have bytes : load (store rx bytesRead chunk) 0 (bytesRead + chunk.length) =
      load rx 0 bytesRead ++ chunk := by
    rw [load_add, Nat.zero_add, load_store_same,
      load_store_apart _ (Or.inl (Nat.le_of_eq (Nat.zero_add _)))]
  cases header with
  | none => exact bytes
  | some header =>
      rw [Phase.received, Phase.received, bytes, List.append_assoc]

theorem concluded_at (consistent : Consistent ops client) {k : Nat} {call : Done}
    (done : client.done[k]? = some call) : Concluded (client.done.take k) call := by
  obtain ⟨inside, same⟩ := List.getElem?_eq_some_iff.mp done
  apply consistent.concluded (client.done.take k) call (client.done.drop (k + 1))
  rw [← same, List.getElem_cons_drop, List.take_append_drop]

/-- What every step keeps. -/
theorem step (consistent : Consistent ops client) (step : ClientStep available client after) :
    Consistent ops after := by
  have program := step.program.trans consistent.program
  have fits := step.fits consistent.fits
  have sent := consistent.sent
  have received := consistent.received
  cases step with
  | starts op rest phase next asserted inside =>
      rw [phase] at sent received
      exact
        { program, fits, sent, received
          built := by
            intro other bytesWr same
            obtain ⟨rfl, _⟩ := Phase.sending.inj same
            exact ⟨Op.load_build inside client.txBuffer, Op.size_build inside client.txBuffer⟩
          waiting := fun _ _ _ same => nomatch same
          concluded := consistent.concluded
          seen := consistent.seen }
  | sends op bytesWr count phase some atMost =>
      have more := consistent.sending_take phase atMost
      rw [phase] at sent received
      exact
        { program, fits, received
          sent := by
            show client.sent ++ _ = _
            rw [sent, List.append_assoc]
            exact congrArg _ more
          built := by
            intro other written same
            obtain ⟨rfl, _⟩ := Phase.sending.inj same
            exact consistent.built op bytesWr phase
          waiting := fun _ _ _ same => nomatch same
          concluded := consistent.concluded
          seen := consistent.seen }
  | unanswered op phase waits =>
      have whole := consistent.sending_whole phase
      rw [whole] at sent
      rw [phase] at received
      exact
        { program, fits
          sent := by simpa [Phase.sent] using sent
          received := by simpa [Phase.received, Done.received] using received
          built := fun _ _ same => nomatch same
          waiting := fun _ _ _ same => nomatch same
          concluded := consistent.concluded.snoc ⟨waits.symm, fun _ none => nomatch none⟩
          seen := by
            rw [seenAfter_snoc]
            exact consistent.seen }
  | awaits op phase waits =>
      have whole := consistent.sending_whole phase
      rw [whole] at sent
      rw [phase] at received
      exact
        { program, fits, sent, received
          built := fun _ _ same => nomatch same
          waiting := by
            intro other header bytesRead same
            obtain ⟨rfl, _⟩ := Phase.receiving.inj same
            exact waits
          concluded := consistent.concluded
          seen := consistent.seen }
  | receives op header bytesRead chunk phase some atMost arrived =>
      rw [phase] at sent received
      exact
        { program, fits, sent
          received := by
            show client.received ++ chunk = _ ++ Phase.received _ (.receiving _ _ _)
            rw [receiving_append, received, List.append_assoc]
          built := fun _ _ same => nomatch same
          waiting := by
            intro other other' read same
            obtain ⟨rfl, _⟩ := Phase.receiving.inj same
            exact consistent.waiting op header bytesRead phase
          concluded := consistent.concluded
          seen := consistent.seen }
  | header op phase asserted =>
      rw [phase] at sent received
      exact
        { program, fits, sent
          received := by
            rw [received]
            show _ = _ ++ ((HwioPacketHeader.at client.rxBuffer 0).bytes ++ load client.rxBuffer 0 0)
            rw [HwioPacketHeader.bytes_at, load_zero, List.append_nil]
            rfl
          built := fun _ _ same => nomatch same
          waiting := by
            intro other header read same
            obtain ⟨rfl, _⟩ := Phase.receiving.inj same
            exact consistent.waiting op none sizeofHeader phase
          concluded := consistent.concluded
          seen := consistent.seen }
  | returns op header phase =>
      have waits := consistent.waiting op _ _ phase
      rw [phase] at sent received
      exact
        { program, fits
          sent := by simpa [Phase.sent] using sent
          received := by
            rw [received]
            simp [Phase.received, Done.received, Frame.bytes]
          built := fun _ _ same => nomatch same
          waiting := fun _ _ _ same => nomatch same
          concluded := by
            apply consistent.concluded.snoc
            refine ⟨waits.symm, fun frame same => ?_⟩
            obtain rfl := Option.some.inj same
            rw [Frame.received_header, ← consistent.seen]
            exact ⟨by rw [Frame.received_body, load_length], rfl⟩
          seen := by
            rw [seenAfter_snoc, ← consistent.seen]
            show _ = (op.finish (Frame.received header client.rxBuffer).header _ _).2
            rw [Frame.received_header] }

end Consistent

end Hwio
