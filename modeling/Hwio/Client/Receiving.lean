import Hwio.Client.Operations

/-!
Contract: the receive loop of `hwio_client_to_server_con.cpp`, for every
sequence of results of `recv`.

Owns `rx_bytes`, `rx_pckt` and the wait of a call for its reply, and when they
come to an end.

Does not own what the server sends. A `recv` gives what has arrived, is
interrupted, or fails; when nothing is left, the server has closed the
connection.
-/

namespace Hwio

open Library

/-! ## Deliveries -/

/-- What comes from the connection next. -/
inductive Delivery where
  | chunk (first : Byte) (rest : List Byte)
  | interrupted
  | failed (strerror : Text)
deriving DecidableEq, Repr

/-- The result of `recv`; a closed connection gives no bytes. -/
inductive Recv where
  | bytes (received : List Byte)
  | interrupted
  | failed (strerror : Text)
deriving DecidableEq, Repr

/-- `recv` of `len` bytes at most -/
def recv : List Delivery → Nat → Recv × List Delivery
  | [], _ => (.bytes [], [])
  | .interrupted :: deliveries, _ => (.interrupted, deliveries)
  | .failed strerror :: deliveries, _ => (.failed strerror, deliveries)
  | .chunk first rest :: deliveries, len =>
      match (first :: rest).drop len with
      | [] => (.bytes (first :: rest), deliveries)
      | next :: left => (.bytes ((first :: rest).take len), .chunk next left :: deliveries)

/-- How a call stops short. -/
inductive RxFailure where
  | assertion (expression : Text)
  | thrown (exn : Exn)
deriving DecidableEq, Repr

/-! ## Receiving -/

/-- The loop of `rx_bytes`; `none` is no result within `fuel` rounds. -/
def rxBytesLoop (size : Nat) : Nat → Nat → List Byte → List Delivery →
    Option (Except RxFailure (List Byte × List Delivery))
  | 0, _, _, _ => none
  | fuel + 1, bytesRead, rxBuffer, deliveries =>
      if bytesRead < size then
        match recv deliveries (size - bytesRead) with
        | (.interrupted, deliveries) => rxBytesLoop size fuel bytesRead rxBuffer deliveries
        | (.failed strerror, _) => some (.error (.thrown ⟨true, text "rx_bytes: " ++ strerror⟩))
        | (.bytes result, deliveries) =>
            rxBytesLoop size fuel (bytesRead + result.length) (store rxBuffer bytesRead result)
              deliveries
      else some (.ok (rxBuffer, deliveries))

/-- `rx_bytes`, which returns nothing but 0 -/
def rxBytes (fuel size : Nat) (rxBuffer : List Byte) (deliveries : List Delivery) :
    Option (Except RxFailure (List Byte × List Delivery)) :=
  if size ≤ bufferSize then rxBytesLoop size fuel 0 rxBuffer deliveries
  else some (.error (.assertion (text "size <= BUFFER_SIZE")))

/-- `rx_pckt` -/
def rxPckt (fuel : Nat) (rxBuffer : List Byte) (deliveries : List Delivery) :
    Option (Except RxFailure (HwioPacketHeader × List Byte × List Delivery)) :=
  match rxBytes fuel sizeofHeader rxBuffer deliveries with
  | none => none
  | some (.error failure) => some (.error failure)
  | some (.ok (rxBuffer, deliveries)) =>
      let header := HwioPacketHeader.at rxBuffer 0
      if header.bodyLen ≠ 0 then
        match rxBytes fuel header.bodyLen.toNat rxBuffer deliveries with
        | none => none
        | some (.error failure) => some (.error failure)
        | some (.ok (rxBuffer, deliveries)) => some (.ok (header, rxBuffer, deliveries))
      else some (.ok (header, rxBuffer, deliveries))

/-- `-EBUSY` -/
def ebusy : Int := -16

/-- The part of a call behind `tx_pckt`; `ping` catches what `rx_pckt` throws. -/
def awaitReply (fuel : Nat) (op : Op) (rxBuffer : List Byte) (deliveries : List Delivery)
    (seenDevices : List HwioDeviceRemote) :
    Option (Except RxFailure (Result × List HwioDeviceRemote)) :=
  match rxPckt fuel rxBuffer deliveries with
  | none => none
  | some (.error (.assertion expression)) => some (.error (.assertion expression))
  | some (.error (.thrown exn)) =>
      if op = .ping ∧ exn.isRuntimeError then some (.ok (.pinged ebusy, seenDevices))
      else some (.error (.thrown exn))
  | some (.ok (header, rxBuffer, _)) =>
      match op.finish header rxBuffer seenDevices with
      | (.ok result, seenDevices) => some (.ok (result, seenDevices))
      | (.error exn, _) => some (.error (.thrown exn))

/-! ## What arrives -/

/-- The bytes that arrive before `recv` fails or the connection is closed. -/
def arriving : List Delivery → List Byte
  | [] => []
  | .chunk first rest :: deliveries => first :: rest ++ arriving deliveries
  | .interrupted :: deliveries => arriving deliveries
  | .failed _ :: _ => []

/-- `recv` fails before the connection is closed. -/
def Fails (deliveries : List Delivery) : Prop := ∃ strerror, Delivery.failed strerror ∈ deliveries

/-- So many bytes arrive, or `recv` fails. -/
def Supplies (deliveries : List Delivery) (size : Nat) : Prop :=
  size ≤ (arriving deliveries).length ∨ Fails deliveries

/-- Rounds that `recv` is good for. -/
def rounds : List Delivery → Nat
  | [] => 0
  | .chunk _ rest :: deliveries => rest.length + 1 + rounds deliveries
  | _ :: deliveries => 1 + rounds deliveries

@[simp] theorem fails_chunk (first : Byte) (rest : List Byte) (deliveries : List Delivery) :
    Fails (.chunk first rest :: deliveries) ↔ Fails deliveries := by
  simp [Fails]

@[simp] theorem fails_interrupted (deliveries : List Delivery) :
    Fails (.interrupted :: deliveries) ↔ Fails deliveries := by
  simp [Fails]

/-- Bytes that are received are the first ones of those that arrive. -/
theorem recv_bytes {deliveries left : List Delivery} {len : Nat} {received : List Byte}
    (some : 0 < len) (result : recv deliveries len = (.bytes received, left)) :
    received.length ≤ len ∧ arriving deliveries = received ++ arriving left ∧
      (Fails left ↔ Fails deliveries) ∧
      (deliveries = [] ∧ left = [] ∨ rounds left < rounds deliveries) := by
  cases deliveries with
  | nil =>
      cases result
      exact ⟨Nat.zero_le _, rfl, Iff.rfl, Or.inl ⟨rfl, rfl⟩⟩
  | cons delivery deliveries =>
      cases delivery with
      | interrupted => cases result
      | failed strerror => cases result
      | chunk first rest =>
          have whole := @List.take_append_drop _ len (first :: rest)
          rw [recv] at result
          cases behind : (first :: rest).drop len with
          | nil =>
              rw [behind] at result
              cases result
              have short := List.drop_eq_nil_iff.mp behind
              refine ⟨short, rfl, (fails_chunk ..).symm, Or.inr ?_⟩
              rw [rounds]
              omega
          | cons next others =>
              rw [behind] at result whole
              cases result
              have length := congrArg List.length behind
              rw [List.length_drop, List.length_cons, List.length_cons] at length
              refine ⟨List.length_take_le _ _, ?_, ?_, Or.inr ?_⟩
              · rw [arriving, arriving, ← List.append_assoc, whole]
              · rw [fails_chunk, fails_chunk]
              · rw [rounds, rounds]
                omega

theorem recv_interrupted {deliveries left : List Delivery} {len : Nat}
    (result : recv deliveries len = (.interrupted, left)) :
    deliveries = .interrupted :: left := by
  cases deliveries with
  | nil => cases result
  | cons delivery deliveries =>
      cases delivery with
      | interrupted =>
          cases result
          rfl
      | failed strerror => cases result
      | chunk first rest =>
          rw [recv] at result
          split at result
          · cases result
          · cases result

theorem recv_failed {deliveries left : List Delivery} {len : Nat} {strerror : Text}
    (result : recv deliveries len = (.failed strerror, left)) :
    deliveries = .failed strerror :: left := by
  cases deliveries with
  | nil => cases result
  | cons delivery deliveries =>
      cases delivery with
      | interrupted => cases result
      | failed strerror =>
          cases result
          rfl
      | chunk first rest =>
          rw [recv] at result
          split at result
          · cases result
          · cases result

/-! ## The loop -/

/-- A result of the loop for the `missing` bytes behind those in front. -/
def Received (front : List Byte) (missing : Nat) (deliveries : List Delivery) :
    Except RxFailure (List Byte × List Delivery) → Prop
  | .ok (rxBuffer, left) =>
      missing ≤ (arriving deliveries).length ∧
        load rxBuffer 0 (front.length + missing) = front ++ (arriving deliveries).take missing ∧
        arriving left = (arriving deliveries).drop missing ∧ (Fails left ↔ Fails deliveries) ∧
        rounds left ≤ rounds deliveries
  | .error (.thrown _) => (arriving deliveries).length < missing ∧ Fails deliveries
  | .error (.assertion _) => False

/-- Some more bytes do not change a result. -/
theorem Received.prepend {front received : List Byte} {missing : Nat}
    {deliveries left : List Delivery} {result : Except RxFailure (List Byte × List Delivery)}
    (arrived : arriving deliveries = received ++ arriving left)
    (same : Fails left ↔ Fails deliveries) (fewer : rounds left ≤ rounds deliveries)
    (later : Received (front ++ received) missing left result) :
    Received front (received.length + missing) deliveries result := by
  match result, later with
  | .ok (rxBuffer, rest), ⟨enough, loaded, behind, fails, less⟩ =>
      refine ⟨?_, ?_, ?_, fails.trans same, Nat.le_trans less fewer⟩
      · rw [arrived, List.length_append]
        omega
      · rw [List.length_append, Nat.add_assoc] at loaded
        rw [loaded, arrived, List.take_length_add_append, List.append_assoc]
      · rw [behind, arrived, List.drop_length_add_append]
  | .error (.thrown exn), ⟨short, fails⟩ =>
      refine ⟨?_, same.mp fails⟩
      rw [arrived, List.length_append]
      omega

/-- Whatever the loop returns is right. -/
theorem rxBytesLoop_sound {size : Nat} {fuel bytesRead : Nat} {rxBuffer : List Byte}
    {deliveries : List Delivery} (below : bytesRead ≤ size)
    {result : Except RxFailure (List Byte × List Delivery)}
    (returned : rxBytesLoop size fuel bytesRead rxBuffer deliveries = some result) :
    Received (load rxBuffer 0 bytesRead) (size - bytesRead) deliveries result := by
  induction fuel generalizing bytesRead rxBuffer deliveries with
  | zero => cases returned
  | succ fuel before =>
      rw [rxBytesLoop] at returned
      by_cases more : bytesRead < size
      · rw [if_pos more] at returned
        rcases got : recv deliveries (size - bytesRead) with ⟨received | _ | strerror, left⟩
        · have ⟨atMost, arrived, same, used⟩ := recv_bytes (by omega) got
          have fewer : rounds left ≤ rounds deliveries := by
            rcases used with ⟨rfl, rfl⟩ | less
            · exact Nat.le_refl _
            · exact Nat.le_of_lt less
          rw [got] at returned
          have later := before (by omega) returned
          have front : load (store rxBuffer bytesRead received) 0 (bytesRead + received.length) =
              load rxBuffer 0 bytesRead ++ received := by
            rw [load_add, Nat.zero_add, load_store_same,
              load_store_apart _ (Or.inl (Nat.le_of_eq (Nat.zero_add _)))]
          rw [front] at later
          have count : size - bytesRead =
              received.length + (size - (bytesRead + received.length)) := by omega
          rw [count]
          exact later.prepend arrived same fewer
        · obtain rfl := recv_interrupted got
          rw [got] at returned
          have later := before below returned
          have result := @Received.prepend _ [] _ (.interrupted :: left) left _ rfl
            (fails_interrupted left).symm (Nat.le_add_left _ _) (by rw [List.append_nil]; exact later)
          rw [List.length_nil, Nat.zero_add] at result
          exact result
        · obtain rfl := recv_failed got
          rw [got] at returned
          cases returned
          refine ⟨?_, strerror, List.mem_cons_self⟩
          rw [arriving, List.length_nil]
          omega
      · rw [if_neg more] at returned
        cases returned
        have none : size - bytesRead = 0 := by omega
        rw [none]
        refine ⟨Nat.zero_le _, ?_, ?_, Iff.rfl, Nat.le_refl _⟩
        · rw [load_length, Nat.add_zero, List.take_zero, List.append_nil]
        · rw [List.drop_zero]

/-- The loop comes to an end when all of its bytes arrive or `recv` fails: each
round uses up a part of what arrives. -/
theorem rxBytesLoop_returns {size : Nat} {fuel bytesRead : Nat} {rxBuffer : List Byte}
    {deliveries : List Delivery} (supplies : Supplies deliveries (size - bytesRead))
    (enough : rounds deliveries < fuel) :
    ∃ result, rxBytesLoop size fuel bytesRead rxBuffer deliveries = some result := by
  induction fuel generalizing bytesRead rxBuffer deliveries with
  | zero => omega
  | succ fuel before =>
      rw [rxBytesLoop]
      by_cases more : bytesRead < size
      · rw [if_pos more]
        rcases got : recv deliveries (size - bytesRead) with ⟨received | _ | strerror, left⟩
        · have ⟨atMost, arrived, same, used⟩ := recv_bytes (by omega) got
          simp only
          rcases used with ⟨rfl, rfl⟩ | less
          · -- a closed connection supplies nothing
            rcases supplies with all | ⟨_, member⟩
            · rw [arriving, List.length_nil] at all
              omega
            · cases member
          · apply before
            · apply supplies.imp
              · intro all
                rw [arrived, List.length_append] at all
                omega
              · exact same.mpr
            · omega
        · obtain rfl := recv_interrupted got
          apply before
          · exact supplies.imp id (fails_interrupted left).mp
          · rw [rounds] at enough
            · omega
            · exact fun _ _ => nofun
        · exact ⟨_, rfl⟩
      · rw [if_neg more]
        exact ⟨_, rfl⟩

/-! ## Receiving some bytes -/

/-- `rx_bytes` returns with the next bytes in their order, or throws. -/
def RxBytesEnds (size : Nat) (rxBuffer : List Byte) (deliveries : List Delivery) : Prop :=
  ∃ fuel, (∃ rxBuffer' left, rxBytes fuel size rxBuffer deliveries = some (.ok (rxBuffer', left)) ∧
      load rxBuffer' 0 size = (arriving deliveries).take size ∧
      arriving left = (arriving deliveries).drop size) ∨
    ∃ exn, rxBytes fuel size rxBuffer deliveries = some (.error (.thrown exn))

theorem rxBytes_sound {size fuel : Nat} {rxBuffer : List Byte} {deliveries : List Delivery}
    {result : Except RxFailure (List Byte × List Delivery)} (asserted : size ≤ bufferSize)
    (returned : rxBytes fuel size rxBuffer deliveries = some result) :
    Received [] size deliveries result := by
  rw [rxBytes, if_pos asserted] at returned
  exact rxBytesLoop_sound (Nat.zero_le _) returned

/-- A closed connection without the bytes keeps the loop going for ever. -/
theorem rxBytes_forever {size : Nat} {deliveries : List Delivery} (asserted : size ≤ bufferSize)
    (stuck : ¬ Supplies deliveries size) (fuel : Nat) (rxBuffer : List Byte) :
    rxBytes fuel size rxBuffer deliveries = none := by
  cases returned : rxBytes fuel size rxBuffer deliveries with
  | none => rfl
  | some result =>
      match result, rxBytes_sound asserted returned with
      | .ok (_, _), ⟨enough, _⟩ => exact absurd (Or.inl enough) stuck
      | .error (.thrown _), ⟨_, fails⟩ => exact absurd (Or.inr fails) stuck

theorem rxBytes_returns {size : Nat} {deliveries : List Delivery} (supplies : Supplies deliveries size)
    (rxBuffer : List Byte) {fuel : Nat} (enough : rounds deliveries < fuel) :
    ∃ result, rxBytes fuel size rxBuffer deliveries = some result := by
  rw [rxBytes]
  split
  · exact rxBytesLoop_returns supplies enough
  · exact ⟨_, rfl⟩

theorem rxBytesEnds_iff (size : Nat) (rxBuffer : List Byte) (deliveries : List Delivery) :
    RxBytesEnds size rxBuffer deliveries ↔ size ≤ bufferSize ∧ Supplies deliveries size := by
  constructor
  · intro ⟨fuel, ends⟩
    have asserted : size ≤ bufferSize := by
      by_contra large
      rw [rxBytes, if_neg large] at ends
      rcases ends with ⟨_, _, returned, _⟩ | ⟨_, thrown⟩
      · cases returned
      · cases thrown
    refine ⟨asserted, ?_⟩
    by_contra stuck
    rw [rxBytes_forever asserted stuck] at ends
    rcases ends with ⟨_, _, returned, _⟩ | ⟨_, thrown⟩
    · cases returned
    · cases thrown
  · intro ⟨asserted, supplies⟩
    have ⟨result, returned⟩ := rxBytes_returns supplies rxBuffer (Nat.lt_succ_self _)
    refine ⟨rounds deliveries + 1, ?_⟩
    match result, returned, rxBytes_sound asserted returned with
    | .ok (rxBuffer', left), returned, ⟨_, loaded, behind, _⟩ =>
        rw [List.length_nil, Nat.zero_add, List.nil_append] at loaded
        exact Or.inl ⟨rxBuffer', left, returned, loaded, behind⟩
    | .error (.thrown exn), returned, _ => exact Or.inr ⟨exn, returned⟩

/-! ## Receiving a packet -/

/-- The header that arrives first. -/
def arrivingHeader (deliveries : List Delivery) : HwioPacketHeader :=
  HwioPacketHeader.at (arriving deliveries) 0

/-- A header arrives, and a body of its length that `rx_buffer` can hold; `recv`
may fail before. -/
structure SuppliesPacket (deliveries : List Delivery) : Prop where
  header : Supplies deliveries sizeofHeader
  fits : sizeofHeader ≤ (arriving deliveries).length →
    (arrivingHeader deliveries).bodyLen.toNat ≤ bufferSize
  body : sizeofHeader ≤ (arriving deliveries).length →
    Supplies deliveries (sizeofHeader + (arrivingHeader deliveries).bodyLen.toNat)

/-- `rx_pckt` returns with the next packet, or throws. -/
def RxPcktEnds (rxBuffer : List Byte) (deliveries : List Delivery) : Prop :=
  ∃ fuel, (∃ header rxBuffer' left,
      rxPckt fuel rxBuffer deliveries = some (.ok (header, rxBuffer', left)) ∧
      header.bytes ++ load rxBuffer' 0 header.bodyLen.toNat =
        (arriving deliveries).take (sizeofHeader + header.bodyLen.toNat) ∧
      arriving left = (arriving deliveries).drop (sizeofHeader + header.bodyLen.toNat)) ∨
    ∃ exn, rxPckt fuel rxBuffer deliveries = some (.error (.thrown exn))

/-- A result of `rx_pckt`. -/
def ReceivedPacket (deliveries : List Delivery) :
    Except RxFailure (HwioPacketHeader × List Byte × List Delivery) → Prop
  | .ok (header, rxBuffer, left) =>
      header = arrivingHeader deliveries ∧ header.bodyLen.toNat ≤ bufferSize ∧
        sizeofHeader + header.bodyLen.toNat ≤ (arriving deliveries).length ∧
        header.bytes ++ load rxBuffer 0 header.bodyLen.toNat =
          (arriving deliveries).take (sizeofHeader + header.bodyLen.toNat) ∧
        arriving left = (arriving deliveries).drop (sizeofHeader + header.bodyLen.toNat)
  | .error (.thrown _) =>
      Fails deliveries ∧ (sizeofHeader ≤ (arriving deliveries).length →
        (arrivingHeader deliveries).bodyLen.toNat ≤ bufferSize)
  | .error (.assertion _) =>
      sizeofHeader ≤ (arriving deliveries).length ∧
        bufferSize < (arrivingHeader deliveries).bodyLen.toNat

/-- The header in the buffer is the one that arrived. -/
theorem header_received {rxBuffer : List Byte} {deliveries left : List Delivery}
    (received : Received [] sizeofHeader deliveries (.ok (rxBuffer, left))) :
    HwioPacketHeader.at rxBuffer 0 = arrivingHeader deliveries ∧
      (arrivingHeader deliveries).bytes = (arriving deliveries).take sizeofHeader := by
  have ⟨whole, loaded, _⟩ := received
  rw [List.length_nil, Nat.zero_add, List.nil_append] at loaded
  have bytes : (arrivingHeader deliveries).bytes = (arriving deliveries).take sizeofHeader := by
    rw [arrivingHeader, HwioPacketHeader.bytes_at, load_eq_take_drop (by omega), List.drop_zero]
  exact ⟨HwioPacketHeader.at_of_load (loaded.trans bytes.symm), bytes⟩

/-- Whatever `rx_pckt` returns is right. -/
theorem rxPckt_sound {fuel : Nat} {rxBuffer : List Byte} {deliveries : List Delivery}
    {result : Except RxFailure (HwioPacketHeader × List Byte × List Delivery)}
    (returned : rxPckt fuel rxBuffer deliveries = some result) :
    ReceivedPacket deliveries result := by
  rw [rxPckt] at returned
  cases first : rxBytes fuel sizeofHeader rxBuffer deliveries with
  | none =>
      rw [first] at returned
      cases returned
  | some got =>
      have sound := rxBytes_sound (by decide) first
      rw [first] at returned
      match got, sound, returned with
      | .error (.thrown exn), ⟨short, fails⟩, returned =>
          cases returned
          exact ⟨fails, fun whole => absurd whole (Nat.not_le.mpr short)⟩
      | .ok (rxBuffer', left), sound, returned =>
          have ⟨whole, _, behind, fails, _⟩ := sound
          have ⟨header, bytes⟩ := header_received sound
          simp only [header] at returned
          by_cases empty : (arrivingHeader deliveries).bodyLen = 0
          · rw [if_neg (not_not.mpr empty)] at returned
            cases returned
            have none : (arrivingHeader deliveries).bodyLen.toNat = 0 := by rw [empty]; rfl
            refine ⟨rfl, ?_, ?_, ?_, ?_⟩
            · rw [none]
              exact Nat.zero_le _
            · rw [none]
              exact whole
            · rw [none, load_zero, List.append_nil]
              exact bytes
            · rw [none]
              exact behind
          · rw [if_pos empty] at returned
            by_cases fits : (arrivingHeader deliveries).bodyLen.toNat ≤ bufferSize
            · cases second : rxBytes fuel (arrivingHeader deliveries).bodyLen.toNat rxBuffer' left with
              | none =>
                  rw [second] at returned
                  cases returned
              | some body =>
                  rw [second] at returned
                  match body, rxBytes_sound fits second, returned with
                  | .error (.thrown exn), ⟨_, failed⟩, returned =>
                      cases returned
                      exact ⟨fails.mp failed, fun _ => fits⟩
                  | .ok (rxBuffer'', rest), ⟨enough, loaded, after, _⟩, returned =>
                      cases returned
                      rw [behind, List.length_drop] at enough
                      rw [List.length_nil, Nat.zero_add, List.nil_append, behind] at loaded
                      refine ⟨rfl, fits, ?_, ?_, ?_⟩
                      · omega
                      · rw [loaded, bytes, List.take_add]
                      · rw [after, behind, List.drop_drop]
            · rw [rxBytes, if_neg fits] at returned
              cases returned
              exact ⟨whole, Nat.lt_of_not_le fits⟩

theorem rxPckt_returns {deliveries : List Delivery} (supplies : SuppliesPacket deliveries)
    (rxBuffer : List Byte) {fuel : Nat} (enough : rounds deliveries < fuel) :
    ∃ result, rxPckt fuel rxBuffer deliveries = some result := by
  have ⟨first, returned⟩ := rxBytes_returns supplies.header rxBuffer enough
  have sound := rxBytes_sound (by decide) returned
  rw [rxPckt, returned]
  match first, sound with
  | .error (.thrown exn), _ => exact ⟨_, rfl⟩
  | .ok (rxBuffer', left), sound =>
      have ⟨whole, _, behind, fails, fewer⟩ := sound
      have ⟨header, _⟩ := header_received sound
      simp only [header]
      split
      · have rest : Supplies left (arrivingHeader deliveries).bodyLen.toNat := by
          apply (supplies.body whole).imp
          · intro all
            rw [behind, List.length_drop]
            omega
          · exact fails.mpr
        have ⟨second, returned⟩ := rxBytes_returns rest rxBuffer' (Nat.lt_of_le_of_lt fewer enough)
        rw [returned]
        match second with
        | .error failure => exact ⟨_, rfl⟩
        | .ok (_, _) => exact ⟨_, rfl⟩
      · exact ⟨_, rfl⟩

/-- What `rx_pckt` returns was supplied. -/
theorem ReceivedPacket.supplies {deliveries : List Delivery}
    {result : Except RxFailure (HwioPacketHeader × List Byte × List Delivery)}
    (received : ReceivedPacket deliveries result)
    (returns : ∀ expression, result ≠ .error (.assertion expression)) :
    SuppliesPacket deliveries := by
  match result, received with
  | .ok (header, rxBuffer, left), ⟨same, fits, whole, _⟩ =>
      subst same
      exact
        { header := Or.inl (by omega), fits := fun _ => fits, body := fun _ => Or.inl whole }
  | .error (.thrown exn), ⟨fails, fits⟩ =>
      exact { header := Or.inr fails, fits := fits, body := fun _ => Or.inr fails }
  | .error (.assertion expression), _ => exact absurd rfl (returns expression)

theorem rxPcktEnds_iff (rxBuffer : List Byte) (deliveries : List Delivery) :
    RxPcktEnds rxBuffer deliveries ↔ SuppliesPacket deliveries := by
  constructor
  · intro ⟨fuel, ends⟩
    rcases ends with ⟨header, rxBuffer', left, returned, _⟩ | ⟨exn, thrown⟩
    · exact (rxPckt_sound returned).supplies nofun
    · exact (rxPckt_sound thrown).supplies nofun
  · intro supplies
    have ⟨result, returned⟩ := rxPckt_returns supplies rxBuffer (Nat.lt_succ_self _)
    refine ⟨rounds deliveries + 1, ?_⟩
    match result, returned, rxPckt_sound returned with
    | .ok (header, rxBuffer', left), returned, ⟨_, _, _, bytes, behind⟩ =>
        exact Or.inl ⟨header, rxBuffer', left, returned, bytes, behind⟩
    | .error (.thrown exn), returned, _ => exact Or.inr ⟨exn, returned⟩
    | .error (.assertion _), _, ⟨whole, large⟩ =>
        exact absurd (supplies.fits whole) (Nat.not_le.mpr large)

/-! ## Waiting for a reply -/

/-- A call that waits for its reply returns or throws. -/
def AwaitEnds (op : Op) (rxBuffer : List Byte) (deliveries : List Delivery)
    (seenDevices : List HwioDeviceRemote) : Prop :=
  ∃ fuel, (∃ result, awaitReply fuel op rxBuffer deliveries seenDevices = some (.ok result)) ∨
    ∃ exn, awaitReply fuel op rxBuffer deliveries seenDevices = some (.error (.thrown exn))

theorem awaitEnds_iff (op : Op) (rxBuffer : List Byte) (deliveries : List Delivery)
    (seenDevices : List HwioDeviceRemote) :
    AwaitEnds op rxBuffer deliveries seenDevices ↔ SuppliesPacket deliveries := by
  rw [← rxPcktEnds_iff rxBuffer]
  constructor
  · intro ⟨fuel, ends⟩
    rw [awaitReply] at ends
    cases returned : rxPckt fuel rxBuffer deliveries with
    | none =>
        rw [returned] at ends
        rcases ends with ⟨_, none⟩ | ⟨_, none⟩
        · cases none
        · cases none
    | some result =>
        refine ⟨fuel, ?_⟩
        match result, rxPckt_sound returned with
        | .ok (header, rxBuffer', left), ⟨_, _, _, bytes, behind⟩ =>
            exact Or.inl ⟨header, rxBuffer', left, returned, bytes, behind⟩
        | .error (.thrown exn), _ => exact Or.inr ⟨exn, returned⟩
        | .error (.assertion _), _ =>
            rw [returned] at ends
            rcases ends with ⟨_, none⟩ | ⟨_, none⟩
            · cases none
            · cases none
  · intro ⟨fuel, ends⟩
    refine ⟨fuel, ?_⟩
    rw [awaitReply]
    rcases ends with ⟨header, rxBuffer', left, returned, _⟩ | ⟨exn, thrown⟩
    · rw [returned]
      simp only
      rcases op.finish header rxBuffer' seenDevices with ⟨_ | _, _⟩
      · exact Or.inr ⟨_, rfl⟩
      · exact Or.inl ⟨_, rfl⟩
    · rw [thrown]
      simp only
      split
      · exact Or.inl ⟨_, rfl⟩
      · exact Or.inr ⟨_, rfl⟩

/-! ## The end of a receive -/

/-- Receiving comes to an end, with the bytes in their order or by an exception,
just when what is asked for fits the buffer and arrives before the connection is
closed, or `recv` fails. -/
theorem client_receive_ends_iff (rxBuffer : List Byte) (deliveries : List Delivery) :
    (∀ size, RxBytesEnds size rxBuffer deliveries ↔
        size ≤ bufferSize ∧ Supplies deliveries size) ∧
      (RxPcktEnds rxBuffer deliveries ↔ SuppliesPacket deliveries) ∧
      ∀ op : Op, op.waits = true → ∀ seenDevices,
        (AwaitEnds op rxBuffer deliveries seenDevices ↔ SuppliesPacket deliveries) :=
  ⟨fun size => rxBytesEnds_iff size rxBuffer deliveries, rxPcktEnds_iff rxBuffer deliveries,
    fun op _ => awaitEnds_iff op rxBuffer deliveries⟩

/-- When the server has closed the connection, `rx_bytes` loops for ever. -/
theorem closed_connection_loops :
    (∀ fuel, rxBytes fuel sizeofHeader [] [] = none) ∧ ¬ RxBytesEnds sizeofHeader [] [] ∧
      ¬ RxPcktEnds [] [] ∧ ¬ AwaitEnds .ping [] [] [] := by
  have stuck : ¬ Supplies [] sizeofHeader := by
    intro supplies
    rcases supplies with all | ⟨_, member⟩
    · cases all
    · cases member
  refine ⟨fun fuel => rxBytes_forever (by decide) stuck fuel [], ?_, ?_, ?_⟩
  · rw [rxBytesEnds_iff]
    exact fun ends => stuck ends.2
  · rw [rxPcktEnds_iff]
    exact fun ends => stuck ends.header
  · rw [awaitEnds_iff]
    exact fun ends => stuck ends.header

end Hwio
