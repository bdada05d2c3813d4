import Mathlib.Data.List.AList
import Hwio.Wire

/-!
Contract: the data of `hwio_server.h` and the outside calls a request makes.

Owns the device, bus and plugin interfaces as the server uses them, the tables
a request is looked up in, the part of the server that `handle_msg` reads and
changes, and the history of events of a run.

Devices, buses and plugins act on a world of an arbitrary type.  Logging
(`log_level` and every print) is left out: nothing reads it back.
-/

namespace Hwio

open Library

/-! ## Exceptions and failing assertions -/

/-- A C++ exception: whether `catch (std::runtime_error &)` takes it, and `what()`. -/
structure Exn where
  isRuntimeError : Bool
  what : Text
deriving DecidableEq, Repr

/-- The assertions of the server. -/
inductive Assertion where
  | deviceLookupResp | addNewClient | removeClient | handleMultipleClientRequests | getClientCnt
deriving DecidableEq, Repr

/-- How a call ends when it does not return. -/
inductive Stop where
  | thrown (exn : Exn)
  | aborted (assertion : Assertion)
  /-- a pointer to a deleted client record is followed -/
  | dangling
deriving DecidableEq, Repr

/-! ## Devices, buses and plugins -/

abbrev DevPtr := Nat
abbrev ClientPtr := Nat
abbrev Fd := Int

/-- What a bulk read stored at its destination, and how it ended. -/
structure ReadOut where
  bytes : List Byte
  thrown : Option Exn

/-- The virtual functions of `ihwio_dev` that the server calls.  A bulk read
stores at most the bytes it was asked for, and all of them when it returns. -/
structure ServedDevice (World : Type) where
  attach : World → Option Exn × World
  read : UInt32 → Nat → World → ReadOut × World
  write : UInt32 → List Byte → World → Option Exn × World
  read_le : ∀ offset count world, (read offset count world).1.bytes.length ≤ count
  read_all : ∀ offset count world, (read offset count world).1.thrown = none →
    (read offset count world).1.bytes.length = count

/-- `ihwio_bus` -/
structure IhwioBus (World : Type) where
  findDevices : List HwioCompSpec → World → Except Exn (List DevPtr) × World

/-- What a plugin stored at its result, and how it ended. -/
structure PluginOut where
  ret : List Byte
  thrown : Option Exn

/-- `plugin_info_s`.  A plugin reads the argument bytes it is given and stores
at most `ret_size` bytes, since it is called through pointers to its types. -/
structure PluginInfo (World : Type) where
  fn : DevPtr → List Byte → World → PluginOut × World
  argsSize : Nat
  retSize : Nat
  ret_le : ∀ dev args world, (fn dev args world).1.ret.length ≤ retSize

/-- The part of the server that no request changes. -/
structure Tables (World : Type) where
  device : DevPtr → ServedDevice World
  buses : List (IhwioBus World)
  plugins : AList (fun _ : Text => PluginInfo World)
  pluginsFast : List (PluginInfo World)
  pluginsFastNames : List Text

/-- `plugins.find(fn_name)` -/
def Tables.findPlugin {World : Type} (tables : Tables World) (name : Text) :
    Option (PluginInfo World) :=
  tables.plugins.lookup name

/-- How the plugin of a remote call was chosen. -/
inductive PluginKey where
  | name (name : Text)
  | id (id : UInt32)
deriving DecidableEq, Repr

/-- A call that a request makes on a bus, a device or a plugin. -/
inductive Call where
  | find (bus : Nat) (specs : List HwioCompSpec) (found : Option (List DevPtr))
  | attach (dev : DevPtr)
  | read (dev : DevPtr) (addr : UInt32) (count : Nat)
  | write (dev : DevPtr) (addr : UInt32) (bytes : List Byte)
  | plugin (key : PluginKey) (dev : DevPtr) (args : List Byte)
deriving DecidableEq, Repr

/-! ## One request -/

/-- `PProcRes` -/
structure PProcRes where
  disconnect : Bool
  txSize : Nat
deriving DecidableEq, Repr

/-- What `handle_msg` reads and changes: the memory from `rx_buffer` on,
`tx_buffer`, the device list of the client, the world behind the devices, and
the calls made so far. -/
structure Ctx (World : Type) where
  rx : List Byte
  tx : List Byte
  devices : List (Option DevPtr)
  world : World
  calls : List Call

/-- The outcome of a handler. -/
abbrev Handled (World : Type) := Except Stop PProcRes × Ctx World

/-! ## Clients and the run -/

/-- `RxBuffer`; `currPtr` is the distance of `curr_ptr` from `buffer`. -/
structure RxBuffer where
  buffer : List Byte
  currPtr : Nat
  currLen : Nat
deriving DecidableEq, Repr

def rxBufferSize : Nat := 65536

/-- `ClientInfo` -/
structure ClientInfo where
  id : Nat
  fd : Fd
  rxBuffer : RxBuffer
  devices : List (Option DevPtr)
deriving DecidableEq, Repr

/-- The history of a run.  `copied` is the `memcpy` of a receive buffer,
`received` a `recv` of some bytes with the window it was given, `dispatched` a
frame passed to `handle_msg` with the place of its header in the buffer and the
memory from its body on, and `readFreed` a field read from a deleted record. -/
inductive Event where
  | opened (fd : Fd)
  | accepted (fd : Fd)
  | created (client : ClientPtr) (fd : Fd)
  | visited (fd : Fd)
  | copied (client : ClientPtr) (source count : Nat)
  | received (client : ClientPtr) (offset room : Nat) (bytes : List Byte)
  | dispatched (client : ClientPtr) (offset : Nat) (header : HwioPacketHeader) (rx : List Byte)
  | called (client : ClientPtr) (call : Call)
  | sent (client : ClientPtr) (bytes : List Byte)
  | handled (client : ClientPtr) (disconnect : Bool)
  | removed (client : ClientPtr)
  | closed (fd : Fd)
  | readFreed (client : ClientPtr)
deriving DecidableEq, Repr

/-- `HwioServer`.  `heap` holds the live client records and `nextClient` is
the next record `new` returns. -/
structure HwioServer (World : Type) where
  tables : Tables World
  masterSocket : Fd
  txBuffer : List Byte
  pollFds : List Fd
  removedPollFds : List Fd
  fdToClient : AList (fun _ : Fd => ClientPtr)
  clients : List (Option ClientPtr)
  heap : ClientPtr → Option ClientInfo
  nextClient : ClientPtr
  world : World
  trace : List Event

end Hwio
