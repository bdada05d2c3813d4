import Hwio.Client.Address
import Hwio.Client.Receiving

/-!
Contract: the life of a connection, from `hwio_client_to_server_con.cpp` and the
constructor and destructor of `hwio_bus_remote`.

Owns the loop of `tx_pckt` for every sequence of results of `send`, the
constructors, `connect_to_server`, `ping`, `bye` and the destructors, how making
a remote bus ends, and what is released then.

Does not own the calls that are made in between.  An exception that leaves a
destructor terminates the program.
-/

namespace Hwio

open Library

/-! ## Sending -/

/-- What `send` does next.  When nothing is left, it takes all that it is given. -/
inductive Sending where
  | accepted (count : Nat)
  | interrupted
  | failed (strerror : Text)
deriving DecidableEq, Repr

def txError (strerror : Text) : Exn :=
  ⟨true, text "hwio_client_to_server_con::tx_pckt, Unable to send message to server," ++ strerror⟩

/-- The loop of `tx_pckt`: how it ends, what was sent, and what `send` does behind
it. -/
def txLoop : List Sending → List Byte → Except Exn Unit × List Byte × List Sending
  | [], bytes => (.ok (), bytes, [])
  | next :: sends, bytes =>
      if bytes.isEmpty then (.ok (), [], next :: sends)
      else
        match next with
        | .interrupted => txLoop sends bytes
        | .failed strerror => (.error (txError strerror), [], sends)
        | .accepted count =>
          let (result, sent, left) := txLoop sends (bytes.drop count)
          (result, bytes.take count ++ sent, left)

/-- What a connection does with the system. -/
inductive LinkEvent where
  | resolved
  | freed
  | opened (fd : Fd)
  | closed (fd : Fd)
  | sent (bytes : List Byte)
deriving DecidableEq, Repr

/-- What the calls return by which a connection is made, and what `send` and
`recv` do on it. -/
structure Network where
  getaddrinfo : Text → Text → Except Text Unit
  socket : Fd
  connect : Int
  strerror : Int → Text
  sends : List Sending
  deliveries : List Delivery
  newBuffers : List Byte × List Byte

/-- `hwio_client_to_server_con`; `addr` is known by the host and the port that it
was found for. -/
structure HwioClientToServerCon where
  origAddr : Text
  addr : Option (Text × Text)
  sockfd : Fd
  txBuffer : List Byte
  rxBuffer : List Byte
  sends : List Sending
  deliveries : List Delivery
  trace : List LinkEvent

namespace HwioClientToServerCon

/-- `hwio_client_to_server_con::hwio_client_to_server_con` -/
def construct (network : Network) (host : Text) : Except Exn HwioClientToServerCon :=
  let (ip, port) := parseIpAndPort host []
  match network.getaddrinfo ip port with
  | .error message => .error ⟨true, text "[HWIO] " ++ message⟩
  | .ok () =>
    .ok
      { origAddr := host
        addr := some (ip, port)
        sockfd := -1
        txBuffer := network.newBuffers.1
        rxBuffer := network.newBuffers.2
        sends := network.sends
        deliveries := network.deliveries
        trace := [.resolved] }

/-- `tx_pckt` -/
def txPckt (con : HwioClientToServerCon) : Except Exn Unit × HwioClientToServerCon :=
  let size := sizeofHeader + (HwioPacketHeader.at con.txBuffer 0).bodyLen.toNat
  let (result, sent, left) := txLoop con.sends (load con.txBuffer 0 size)
  (result, { con with sends := left, trace := con.trace ++ [.sent sent] })

/-- A request without a body in `tx_buffer` -/
def bare (cmd : HwioCmd) (con : HwioClientToServerCon) : HwioClientToServerCon :=
  { con with txBuffer := store con.txBuffer 0 (HwioPacketHeader.mk cmd.code 0).bytes }

/-- `ping`; it stops only by a failed assertion. -/
def ping (fuel : Nat) (con : HwioClientToServerCon) :
    Option (Except Text Int × HwioClientToServerCon) :=
  match (con.bare .pingRequest).txPckt with
  | (.error _, con) => some (.ok ebusy, con)
  | (.ok (), con) =>
    match rxPckt fuel con.rxBuffer con.deliveries with
    | none => none
    | some (.error (.assertion expression)) => some (.error expression, con)
    | some (.error (.thrown _)) => some (.ok ebusy, con)
    | some (.ok (resp, rxBuffer, deliveries)) =>
      let con := { con with rxBuffer := rxBuffer, deliveries := deliveries }
      if resp.bodyLen ≠ 0 ∨ resp.command ≠ HwioCmd.pingReply.code then
        some (.ok enavail, con)
      else some (.ok 0, con)

/-- `bye` -/
def bye (con : HwioClientToServerCon) : Except Exn Unit × HwioClientToServerCon :=
  (con.bare .bye).txPckt

def closeSocket (con : HwioClientToServerCon) : HwioClientToServerCon :=
  { con with trace := con.trace ++ [.closed con.sockfd] }

def freeAddr (con : HwioClientToServerCon) : HwioClientToServerCon :=
  if con.addr ≠ none then { con with trace := con.trace ++ [.freed] } else con

/-- `hwio_client_to_server_con::~hwio_client_to_server_con`, and what leaves it -/
def destroy (con : HwioClientToServerCon) : Except Exn Unit × HwioClientToServerCon :=
  if 0 ≤ con.sockfd then
    match con.bye with
    | (.error exn, con) => (.error exn, con)
    | (.ok (), con) => (.ok (), con.closeSocket.freeAddr)
  else (.ok (), con.freeAddr)

end HwioClientToServerCon

/-- How an expression ends; `terminated` is by what left a destructor. -/
inductive Ended (Value : Type) where
  | returned (value : Value)
  | thrown (exn : Exn)
  | aborted (expression : Text)
  | terminated (exn : Exn)
deriving DecidableEq, Repr

namespace HwioClientToServerCon

/-! ## What is sent -/

end HwioClientToServerCon

/-! ## The answer to the ping -/

def pingReply : HwioPacketHeader := ⟨HwioCmd.pingReply.code, 0⟩

/-- The first packet that arrives is the reply to a ping. -/
def AnswersPing (deliveries : List Delivery) : Prop := pingReply.bytes <+: arriving deliveries

theorem answersPing_iff (deliveries : List Delivery) : AnswersPing deliveries ↔
    sizeofHeader ≤ (arriving deliveries).length ∧ arrivingHeader deliveries = pingReply := by
  have loads : sizeofHeader ≤ (arriving deliveries).length →
      load (arriving deliveries) 0 sizeofHeader = (arriving deliveries).take sizeofHeader :=
    fun whole => by rw [load_eq_take_drop (by rwa [Nat.zero_add]), List.drop_zero]
  constructor
  · intro answers
    have whole := answers.length_le
    rw [HwioPacketHeader.bytes_length] at whole
    refine ⟨whole, HwioPacketHeader.at_of_load ?_⟩
    rw [loads whole, ← HwioPacketHeader.bytes_length pingReply]
    exact (List.prefix_iff_eq_take.mp answers).symm
  · rintro ⟨whole, header⟩
    rw [AnswersPing, ← header, arrivingHeader, HwioPacketHeader.bytes_at, loads whole]
    exact List.take_prefix _ _

theorem AnswersPing.supplies {deliveries : List Delivery} (answers : AnswersPing deliveries) :
    SuppliesPacket deliveries := by
  obtain ⟨whole, same⟩ := (answersPing_iff deliveries).mp answers
  exact
    { header := Or.inl whole
      fits := fun _ => by rw [same]; decide
      body := fun _ => Or.inl (by rw [same]; exact whole) }

namespace HwioClientToServerCon

def openedBy (fd : Fd) : List LinkEvent := if 0 ≤ fd then [.opened fd] else []

end HwioClientToServerCon

/-! ## The life of a remote bus -/

namespace HwioClientToServerCon

end HwioClientToServerCon

section

open HwioClientToServerCon

variable {network : Network} {host : Text}

end

/-- A host whose server does not listen: `connect` fails, and so does `send`. -/
def refused : Network where
  getaddrinfo _ _ := .ok ()
  socket := 3
  connect := -1
  strerror _ := text "Unknown error -1"
  sends := [.failed (text "Broken pipe")]
  deliveries := []
  newBuffers := ([], [])

end Hwio
