import Hwio.Server.Utils

/-!
Contract: `hwio_server_query.cpp`, the decoding of a device query and the
registration of the devices it finds.
-/

namespace Hwio

open Library

variable {World : Type}

/-! ## Decoding -/

/-- The signed 32-bit word at an offset. -/
def loadI32 (memory : List Byte) (offset : Nat) : Int32 := (loadU32 memory offset).toInt32

def HwioVersion.at (memory : List Byte) (offset : Nat) : HwioVersion where
  major := loadI32 memory offset
  minor := loadI32 memory (offset + 4)
  subminor := loadI32 memory (offset + 8)

/-- One `Dev_query_item`; each text is read up to the first zero after its start. -/
def HwioCompSpec.at (memory : List Byte) (offset : Nat) : HwioCompSpec where
  name := cstr (memory.drop offset)
  vendor := cstr (memory.drop (offset + maxNameLen))
  type := cstr (memory.drop (offset + 2 * maxNameLen))
  version := HwioVersion.at memory (offset + 3 * maxNameLen)

/-- `HwioServer::extractSpecFromClientQuery` -/
def extractSpecFromClientQuery (memory : List Byte) (count : Nat) : List HwioCompSpec :=
  (List.range count).map fun item => HwioCompSpec.at memory (item * sizeofDevQueryItem)

/-! ## Registration -/

/-- What the loop over `client->devices` leaves in its variables. -/
structure SlotSearch where
  devId : UInt16
  firtsEmpty : Option UInt16
  alreadyRegistered : Bool

/-- `for (auto cdev : client->devices)` -/
def searchSlot (dev : DevPtr) : List (Option DevPtr) → UInt16 → Option UInt16 → SlotSearch
  | [], devId, firtsEmpty => ⟨devId, firtsEmpty, false⟩
  | cdev :: rest, devId, firtsEmpty =>
      if cdev = some dev then ⟨devId, firtsEmpty, true⟩
      else
        searchSlot dev rest (devId + 1)
          (if cdev = none ∧ firtsEmpty = none then some devId else firtsEmpty)

/-- The id and the device list with a new device: in the first empty slot, or
behind the last, where the assertion may fail. -/
def placeDevice (dev : DevPtr) (devices : List (Option DevPtr)) (search : SlotSearch) :
    Option (UInt16 × List (Option DevPtr)) :=
  match search.firtsEmpty with
  | some firtsEmpty => some (firtsEmpty, devices.set firtsEmpty.toNat (some dev))
  | none =>
    if devices.length = search.devId.toNat then some (search.devId, devices ++ [some dev])
    else none

/-- Registration and attachment of one device of the result; the id it has for
the client. -/
def registerDevice (tables : Tables World) (dev : DevPtr) (ctx : Ctx World) :
    Except Stop UInt16 × Ctx World :=
  let search := searchSlot dev ctx.devices 0 none
  if search.alreadyRegistered then (.ok search.devId, ctx)
  else
    match placeDevice dev ctx.devices search with
    | none => (.error (.aborted .deviceLookupResp), ctx)
    | some (devId, devices) =>
      let result := (tables.device dev).attach ctx.world
      let ctx := { ctx with
        devices := devices, world := result.2, calls := ctx.calls ++ [.attach dev] }
      match result.1 with
      | none => (.ok devId, ctx)
      | some exn => (.error (.thrown exn), ctx)

/-- `for (auto dev : result)`, from the `i`-th id of the reply on. -/
def registerDevices (tables : Tables World) : List DevPtr → Nat → Ctx World →
    Except Stop Unit × Ctx World
  | [], _, ctx => (.ok (), ctx)
  | dev :: rest, i, ctx =>
      match registerDevice tables dev ctx with
      | (.error stop, ctx) => (.error stop, ctx)
      | (.ok devId, ctx) =>
        let tx := setBodyLen ctx.tx ((replyHeader ctx.tx).bodyLen.toNat + sizeofDevId)
        let tx := store tx (sizeofHeader + sizeofDevId * i) (u16Bytes devId)
        registerDevices tables rest (i + 1) { ctx with tx := tx }

/-- The lookup on every bus in turn, from bus number `bus` on. -/
def findOnBuses (specs : List HwioCompSpec) : List (IhwioBus World) → Nat → Ctx World →
    Except Stop (List DevPtr) × Ctx World
  | [], _, ctx => (.ok [], ctx)
  | bus :: rest, index, ctx =>
      match bus.findDevices specs ctx.world with
      | (.error exn, world) =>
        (.error (.thrown exn),
          { ctx with world := world, calls := ctx.calls ++ [.find index specs none] })
      | (.ok found, world) =>
        match findOnBuses specs rest (index + 1)
          { ctx with world := world, calls := ctx.calls ++ [.find index specs (some found)] } with
        | (.error stop, ctx) => (.error stop, ctx)
        | (.ok more, ctx) => (.ok (found ++ more), ctx)

/-- `HwioServer::device_lookup_resp` -/
def deviceLookupResp (tables : Tables World) (count : Nat) (ctx : Ctx World) : Handled World :=
  let specs := extractSpecFromClientQuery ctx.rx count
  match findOnBuses specs tables.buses 0 { ctx with tx := setCommand ctx.tx .queryResp } with
  | (.error stop, ctx) => (.error stop, ctx)
  | (.ok result, ctx) =>
    match registerDevices tables result 0 { ctx with tx := setBodyLen ctx.tx 0 } with
    | (.error stop, ctx) => (.error stop, ctx)
    | (.ok (), ctx) =>
      (.ok ⟨false, sizeofHeader + (replyHeader ctx.tx).bodyLen.toNat⟩, ctx)

end Hwio
