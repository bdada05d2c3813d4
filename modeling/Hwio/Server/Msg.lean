import Hwio.Server.Rw
import Hwio.Server.RemoteCall
import Hwio.Server.Query

/-!
Contract: `HwioServer::handle_msg`, the dispatch of one request.
-/

namespace Hwio

open Library

variable {World : Type}

/-- `case HWIO_CMD_PING_REQUEST` -/
def handlePing (header : HwioPacketHeader) (ctx : Ctx World) : Handled World :=
  if header.bodyLen ≠ 0 then
    ctx.sendErr .malformedPacket (text "ECHO_REQUEST: size has to be 0")
  else
    (.ok ⟨false, sizeofHeader⟩, { ctx with tx := setBodyLen (setCommand ctx.tx .pingReply) 0 })

/-- `case HWIO_CMD_QUERY` -/
def handleQuery (tables : Tables World) (header : HwioPacketHeader) (ctx : Ctx World) :
    Handled World :=
  let bodyLen := header.bodyLen.toNat
  let cnt := bodyLen / sizeofDevQueryItem
  if bodyLen ≠ cnt * sizeofDevQueryItem then
    ctx.sendErr .malformedPacket
      (text "QUERY: wrong size of packet " ++ decimal bodyLen ++ text "(not divisible by " ++
        decimal sizeofDevQueryItem ++ text ")")
  else if cnt = 0 ∨ maxItemsPerQuery < cnt then
    ctx.sendErr .unknownCommand
      (text "Unsupported number of queries (" ++ decimal cnt ++ text ")\n")
  else deviceLookupResp tables cnt ctx

/-- `case HWIO_CMD_MSG`; the terminator is stored at a fixed place of the
receive buffer, whatever the length of the frame.  Where that place lies behind
`RxBuffer::buffer`, the program stores into what follows it, while the memory
here only grows: such a request is not enclosed in the buffer. -/
def handleErrMsg (ctx : Ctx World) : Handled World :=
  (.ok ⟨false, 0⟩, { ctx with rx := store ctx.rx (4 + (maxNameLen - 1)) [0] })

/-- `HwioServer::handle_msg` -/
def handleMsg (tables : Tables World) (header : HwioPacketHeader) (ctx : Ctx World) :
    Handled World :=
  match HwioCmd.ofCode header.command with
  | some .remoteCallFast => handleFastRemoteCall tables header ctx
  | some .read => handleRead tables header ctx
  | some .write => handleWrite tables header ctx
  | some .remoteCall => handleRemoteCall tables header ctx
  | some .pingRequest => handlePing header ctx
  | some .query => handleQuery tables header ctx
  | some .getRemoteCallId => handleGetRpcFnId tables header ctx
  | some .bye => (.ok ⟨true, 0⟩, ctx)
  | some .msg => handleErrMsg ctx
  | _ => ctx.sendErr .unknownCommand []

end Hwio
