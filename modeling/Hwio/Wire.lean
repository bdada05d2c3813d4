import Hwio.Library.Framing
import Hwio.Library.Memory

/-!
Contract: the packet format of `hwio_remote.h` and the component
specifications that travel in it.

Owns the protocol constants, the packed sizes, command and error codes, packet
headers and whole frames, and the data of `hwio_version` and `hwio_comp_spec`.

Does not own matching or parsing of specifications, nor any handler.
-/

namespace Hwio

open Library

/-! ## Limits and packed sizes -/

def maxDevices : Nat := 256
def bufferSize : Nat := 2048
def maxNameLen : Nat := 128
def maxItemsPerQuery : Nat := 5
def maxErrMsgLen : Nat := 1024

/-- `sizeof(Hwio_packet_header)`: one command byte and the 16-bit body length. -/
def sizeofHeader : Nat := 1 + 2

/-- `sizeof(RdReq)`, which is also `sizeof(WrReq)`: device id, address, size. -/
def sizeofRdReq : Nat := 8
def sizeofWrReq : Nat := sizeofRdReq
def sizeofRemoteCall : Nat := 2 + maxNameLen
def sizeofRemoteCallFast : Nat := 6
def sizeofGetRemoteCallId : Nat := 2 + maxNameLen
def sizeofGetRemoteCallIdResp : Nat := 5
def sizeofDevQueryItem : Nat := 3 * maxNameLen + 12
def sizeofErrMsg : Nat := 4 + maxErrMsgLen
def sizeofDevId : Nat := 2

/-! ## Texts -/

abbrev Text := List Byte

/-- Whether a name is listed. -/
instance decidableNamed (name : Text) (names : List Text) : Decidable (name ∈ names) :=
  inferInstance

/-- The bytes of a literal of the source (ASCII). -/
def text (literal : String) : Text := literal.toList.map fun char => UInt8.ofNat char.toNat

/-- Decimal digits, as `operator<<` and `std::to_string` print an unsigned number. -/
def decimal (value : Nat) : Text :=
  (Nat.toDigits 10 value).map fun char => UInt8.ofNat char.toNat

private theorem digit_range {char : Char} (digit : char.isDigit) :
    48 ≤ char.toNat ∧ char.toNat ≤ 57 := by
  simp only [Char.isDigit, Bool.and_eq_true, decide_eq_true_eq] at digit
  exact ⟨UInt32.le_iff_toNat_le.mp digit.1, UInt32.le_iff_toNat_le.mp digit.2⟩

theorem decimal_length_le {value digits : Nat} (positive : 0 < digits)
    (below : value < 10 ^ digits) : (decimal value).length ≤ digits := by
  rw [decimal, List.length_map]
  exact (Nat.length_toDigits_le_iff (by decide) positive).mpr below

private theorem digit_byte {value : Nat} {char : Char} (digit : char ∈ Nat.toDigits 10 value) :
    (UInt8.ofNat char.toNat).toNat = char.toNat ∧ 48 ≤ char.toNat := by
  have range := digit_range (Nat.isDigit_of_mem_toDigits (by decide) (by decide) digit)
  refine ⟨UInt8.toNat_ofNat_of_lt' ?_, range.1⟩
  show char.toNat < 256
  omega

theorem zero_not_mem_decimal (value : Nat) : 0 ∉ decimal value := by
  intro member
  obtain ⟨char, digit, zero⟩ := List.mem_map.mp member
  have byte := digit_byte digit
  rw [zero] at byte
  have : (0 : UInt8).toNat = 0 := rfl
  omega

/-- Different numbers have different digits. -/
theorem decimal_injective : Function.Injective decimal := by
  have decode : ∀ value, (decimal value).map (fun byte => Char.ofNat byte.toNat) =
      Nat.toDigits 10 value := by
    intro value
    rw [decimal, List.map_map]
    conv_rhs => rw [← List.map_id (Nat.toDigits 10 value)]
    refine List.map_congr_left fun char digit => ?_
    rw [Function.comp_apply, (digit_byte digit).1, Char.ofNat_toNat, id_eq]
  intro left right same
  have digits : Nat.toDigits 10 left = Nat.toDigits 10 right := by
    rw [← decode left, ← decode right, same]
  rw [← Nat.ofDigitChars_toDigits (b := 10) (n := left) (by decide) (by decide), digits,
    Nat.ofDigitChars_toDigits (by decide) (by decide)]

/-! ## Command and error codes -/

/-- `HWIO_CMD`.  `GET_REMOTE_CALL_ID` and its response share code 17. -/
inductive HwioCmd where
  | read | readResp | write | pingRequest | pingReply | query | queryResp | bye | msg
  | remoteCall | remoteCallRet | remoteCallFast | getRemoteCallId
deriving DecidableEq, Repr

def HwioCmd.code : HwioCmd → UInt8
  | .read => 1
  | .readResp => 2
  | .write => 3
  | .pingRequest => 4
  | .pingReply => 5
  | .query => 6
  | .queryResp => 7
  | .bye => 8
  | .msg => 9
  | .remoteCall => 10
  | .remoteCallRet => 11
  | .remoteCallFast => 16
  | .getRemoteCallId => 17

/-- `HWIO_CMD_GET_REMOTE_CALL_ID_RESP` -/
def HwioCmd.getRemoteCallIdResp : HwioCmd := .getRemoteCallId

/-- The `static_cast` of a command byte; `none` for a code no case label names. -/
def HwioCmd.ofCode (code : UInt8) : Option HwioCmd :=
  [read, readResp, write, pingRequest, pingReply, query, queryResp, bye, msg,
    remoteCall, remoteCallRet, remoteCallFast, getRemoteCallId].find? fun cmd => cmd.code = code

@[simp] theorem HwioCmd.ofCode_code (cmd : HwioCmd) : HwioCmd.ofCode cmd.code = some cmd := by
  cases cmd <;> rfl

theorem HwioCmd.code_of_ofCode {code : UInt8} {cmd : HwioCmd}
    (decoded : HwioCmd.ofCode code = some cmd) : cmd.code = code := by
  have found := List.find?_some decoded
  exact of_decide_eq_true found

/-- `HWIO_SERVER_ERROR` -/
inductive HwioServerError where
  | unknownCommand | malformedPacket | devCntExceeded | accessDenied | ioError
deriving DecidableEq, Repr

def HwioServerError.code : HwioServerError → UInt32
  | .unknownCommand => 1
  | .malformedPacket => 2
  | .devCntExceeded => 3
  | .accessDenied => 4
  | .ioError => 5

/-! ## Headers and frames -/

structure HwioPacketHeader where
  command : UInt8
  bodyLen : UInt16
deriving DecidableEq, Repr

def HwioPacketHeader.bytes (header : HwioPacketHeader) : List Byte :=
  header.command :: u16Bytes header.bodyLen

/-- The header whose bytes lie at an offset of a buffer. -/
def HwioPacketHeader.at (memory : List Byte) (offset : Nat) : HwioPacketHeader where
  command := memory.getD offset 0
  bodyLen := loadU16 memory (offset + 1)

@[simp] theorem HwioPacketHeader.bytes_length (header : HwioPacketHeader) :
    header.bytes.length = sizeofHeader := by
  simp [HwioPacketHeader.bytes, sizeofHeader]

/-- The bytes of a header are those it was read from. -/
theorem HwioPacketHeader.bytes_at (memory : List Byte) (offset : Nat) :
    (HwioPacketHeader.at memory offset).bytes = load memory offset sizeofHeader := by
  rw [sizeofHeader, Nat.add_comm 2 1, load_add, load_one]
  simp only [HwioPacketHeader.bytes, HwioPacketHeader.at, u16Bytes_loadU16, List.singleton_append]

theorem HwioPacketHeader.bytes_injective : Function.Injective HwioPacketHeader.bytes := by
  intro left right same
  obtain ⟨command, bodyLen⟩ := List.cons.inj same
  have lengths := congrArg leNat bodyLen
  rw [leNat_u16Bytes, leNat_u16Bytes] at lengths
  cases left
  cases right
  rw [HwioPacketHeader.mk.injEq]
  exact ⟨command, UInt16.toNat_inj.mp lengths⟩

/-- A header is read back from where its bytes lie. -/
theorem HwioPacketHeader.at_of_load {memory : List Byte} {offset : Nat}
    {header : HwioPacketHeader} (bytes : load memory offset sizeofHeader = header.bytes) :
    HwioPacketHeader.at memory offset = header :=
  HwioPacketHeader.bytes_injective ((HwioPacketHeader.bytes_at memory offset).trans bytes)

/-- A whole frame: a command and a body whose length fits the header. -/
structure Frame where
  command : UInt8
  body : List Byte
  fits : body.length < 65536
deriving DecidableEq, Repr

namespace Frame

def header (frame : Frame) : HwioPacketHeader where
  command := frame.command
  bodyLen := UInt16.ofNat frame.body.length

def bytes (frame : Frame) : List Byte := frame.header.bytes ++ frame.body

@[simp] theorem header_bodyLen_toNat (frame : Frame) :
    frame.header.bodyLen.toNat = frame.body.length := by
  simp only [header]
  exact UInt16.toNat_ofNat_of_lt' frame.fits

@[simp] theorem bytes_length (frame : Frame) :
    frame.bytes.length = sizeofHeader + frame.body.length := by
  simp [bytes]

/-- The length of the frame that some bytes begin. -/
def size (bytes : List Byte) : Nat :=
  sizeofHeader + (HwioPacketHeader.at bytes 0).bodyLen.toNat

/-- The header of a frame tells where it ends. -/
theorem selfDelimiting : SelfDelimiting Frame.bytes sizeofHeader Frame.size where
  header_pos := by decide
  header_le frame := by
    rw [bytes_length]
    exact Nat.le_add_right _ _
  size_eq frame := by
    have front : frame.bytes.take sizeofHeader = frame.header.bytes := by
      rw [bytes, ← HwioPacketHeader.bytes_length frame.header, List.take_left]
    have read : HwioPacketHeader.at frame.header.bytes 0 = frame.header := by
      apply HwioPacketHeader.at_of_load
      rw [← HwioPacketHeader.bytes_length frame.header]
      exact load_whole _
    rw [size, front, read, header_bodyLen_toNat, bytes_length]
  injective := by
    intro left right same
    obtain ⟨headers, bodies⟩ := List.append_inj same (by simp)
    have commands := congrArg HwioPacketHeader.command (HwioPacketHeader.bytes_injective headers)
    cases left
    cases right
    simp only [header] at commands
    simp only [mk.injEq]
    exact ⟨commands, bodies⟩

/-- The frame with the given header whose body lies at the front of the memory. -/
def received (header : HwioPacketHeader) (memory : List Byte) : Frame where
  command := header.command
  body := load memory 0 header.bodyLen.toNat
  fits := by
    rw [load_length]
    exact header.bodyLen.toNat_lt

@[simp] theorem received_body (header : HwioPacketHeader) (memory : List Byte) :
    (received header memory).body = load memory 0 header.bodyLen.toNat := rfl

@[simp] theorem received_header (header : HwioPacketHeader) (memory : List Byte) :
    (received header memory).header = header := by
  simp [received, Frame.header]

/-- A frame is received from where its body lies. -/
theorem received_of_load {frame : Frame} {memory : List Byte}
    (body : load memory 0 frame.body.length = frame.body) :
    received frame.header memory = frame := by
  apply selfDelimiting.injective
  rw [bytes, received_header, received_body, header_bodyLen_toNat, body]
  rfl

end Frame

/-! ## Specifications -/

/-- `hwio_version`; `-1` is `HWIO_VERSION_NA`. -/
structure HwioVersion where
  major : Int32
  minor : Int32
  subminor : Int32
deriving DecidableEq, Repr

/-- `hwio_comp_spec` -/
structure HwioCompSpec where
  name : Text
  vendor : Text
  type : Text
  version : HwioVersion
deriving DecidableEq, Repr

end Hwio
