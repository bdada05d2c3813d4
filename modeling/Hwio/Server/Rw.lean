import Hwio.Server.Utils

/-!
Contract: `hwio_server_rw.cpp`, the handlers of READ and WRITE requests.
-/

namespace Hwio

open Library

variable {World : Type}

/-- `HwioServer::handle_read` -/
def handleRead (tables : Tables World) (header : HwioPacketHeader) (ctx : Ctx World) :
    Handled World :=
  if header.bodyLen.toNat ≠ sizeofRdReq then
    ctx.sendErr .malformedPacket (text "READ: size too small")
  else
    let devId := loadU16 ctx.rx 0
    let addr := loadU32 ctx.rx 2
    let size := (loadU16 ctx.rx 6).toNat
    match clientGetDev ctx.devices devId with
    | none => ctx.sendErr .accessDenied (text "READ: device is not allocated")
    | some dev =>
      let tx := setBodyLen (setCommand ctx.tx .readResp) size
      let result := (tables.device dev).read addr size ctx.world
      let ctx := { ctx with
        tx := store tx sizeofHeader result.1.bytes
        world := result.2
        calls := ctx.calls ++ [.read dev addr size] }
      match result.1.thrown with
      | none => (.ok ⟨false, sizeofHeader + size⟩, ctx)
      | some exn =>
        if exn.isRuntimeError then ctx.sendErr .ioError (text "Can not read from device")
        else (.error (.thrown exn), ctx)

/-- `HwioServer::handle_write`; the payload is read from behind the request. -/
def handleWrite (tables : Tables World) (header : HwioPacketHeader) (ctx : Ctx World) :
    Handled World :=
  if header.bodyLen.toNat < sizeofWrReq then
    ctx.sendErr .malformedPacket (text "WRITE: size too small")
  else
    let devId := loadU16 ctx.rx 0
    let addr := loadU32 ctx.rx 2
    let size := (loadU16 ctx.rx 6).toNat
    if maxDevices ≤ devId.toNat then
      ctx.sendErr .malformedPacket (text "WRITE: wrong device id")
    else
      match clientGetDev ctx.devices devId with
      | none => ctx.sendErr .accessDenied (text "WRITE: device is not allocated")
      | some dev =>
        let data := load ctx.rx sizeofWrReq size
        let result := (tables.device dev).write addr data ctx.world
        let ctx := { ctx with world := result.2, calls := ctx.calls ++ [.write dev addr data] }
        match result.1 with
        | none => (.ok ⟨false, 0⟩, ctx)
        | some exn => (.error (.thrown exn), ctx)

end Hwio
