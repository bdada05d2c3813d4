import Hwio.Client.Lookups

/-!
Contract: what a server is for, as an object that its clients call.

Owns the hub, on which every call takes effect at once, with the devices that
each client holds, and that `handle_msg` does for the request of a call what the
call does on the hub.

Does not own when the requests arrive.
-/

namespace Hwio

open Library HwioServer

variable {World : Type}

/-! ## The hub -/

/-- The world, and the devices that each client holds, in the order in which it
found them; its ids are their places. -/
structure Hub (World : Type) where
  world : World
  held : ClientPtr → List DevPtr

/-- What comes of a call.  Nothing is promised when a device, a bus or a plugin
throws what the server does not catch, or has more to return than a frame holds. -/
inductive Upshot where
  | returned (result : Result)
  | refused
  | unpromised
deriving DecidableEq, Repr

namespace Hub

def device (hub : Hub World) (owner : ClientPtr) (id : UInt16) : Option DevPtr :=
  (hub.held owner)[id.toNat]?

/-- What all buses find, one after the other. -/
def findOnAll (spec : List HwioCompSpec) :
    List (IhwioBus World) → World → Option (List DevPtr) × World
  | [], world => (some [], world)
  | bus :: rest, world =>
      match bus.findDevices spec world with
      | (.error _, world) => (none, world)
      | (.ok found, world) =>
        let (more, world) := findOnAll spec rest world
        (more.map (found ++ ·), world)

/-- Devices that a client finds are held, and attached when they are new to it. -/
def hold (tables : Tables World) :
    List DevPtr → List DevPtr → World → Bool × List DevPtr × World
  | [], held, world => (true, held, world)
  | dev :: rest, held, world =>
      if dev ∈ held then hold tables rest held world
      else if held.length < 65536 then
        match (tables.device dev).attach world with
        | (none, world) => hold tables rest (held ++ [dev]) world
        | (some _, world) => (false, held ++ [dev], world)
      else (false, held, world)

def lookUp (tables : Tables World) (owner : ClientPtr) (spec : List HwioCompSpec)
    (hub : Hub World) : Upshot × Hub World :=
  match findOnAll spec tables.buses hub.world with
  | (none, world) => (.unpromised, { hub with world := world })
  | (some found, world) =>
    let (all, held, world) := hold tables found (hub.held owner) world
    (if all ∧ sizeofHeader + sizeofDevId * found.length ≤ bufferSize then
        .returned (.devices (found.map held.idxOf))
      else .unpromised,
      ⟨world, Function.update hub.held owner held⟩)

/-- An act on the world, and what is made of it. -/
def acting {Value : Type} (hub : Hub World) (act : World → Value × World)
    (judge : Value → Upshot) : Upshot × Hub World :=
  (judge (act hub.world).1, { hub with world := (act hub.world).2 })

/-- A thrown run-time error is answered, others are not. -/
def thrownUpshot (exn : Exn) : Upshot := if exn.isRuntimeError then .refused else .unpromised

def readUpshot (out : ReadOut) : Upshot :=
  match out.thrown with
  | none => .returned (.bytes out.bytes)
  | some exn => thrownUpshot exn

def writeUpshot (thrown : Option Exn) : Upshot :=
  match thrown with
  | none => .returned (.bytes [])
  | some _ => .unpromised

/-- A plugin returns all bytes of its result, as many as its caller expects. -/
def Returns (plugin : PluginInfo World) (retSize : Option Nat) (out : PluginOut) : Prop :=
  out.ret.length = plugin.retSize ∧ retSize.getD 0 = plugin.retSize ∧ retSize ≠ some 0 ∧
    sizeofHeader + plugin.retSize ≤ bufferSize

instance (plugin : PluginInfo World) (retSize : Option Nat) (out : PluginOut) :
    Decidable (Returns plugin retSize out) := inferInstanceAs (Decidable (_ ∧ _))

def pluginUpshot (plugin : PluginInfo World) (retSize : Option Nat) (out : PluginOut) : Upshot :=
  match out.thrown with
  | none => if Returns plugin retSize out then .returned (.bytes out.ret) else .unpromised
  | some exn => thrownUpshot exn

/-- The place of a function among those that have an id. -/
def position (tables : Tables World) (fnName : Text) : Option Nat :=
  tables.pluginsFastNames.findIdx? fun name => fnName = name

/-- What is done with a device that the client holds. -/
def onDevice (hub : Hub World) (owner : ClientPtr) (id : UInt16)
    (act : DevPtr → Upshot × Hub World) : Upshot × Hub World :=
  match hub.device owner id with
  | none => (.refused, hub)
  | some dev => act dev

/-- A call, all at once. -/
def perform (tables : Tables World) (entry : ClientPtr × Op) (hub : Hub World) :
    Upshot × Hub World :=
  match entry.2 with
  | .ping => (.returned (.pinged 0), hub)
  | .findDevices spec => hub.lookUp tables entry.1 spec
  | .read id offset n =>
      hub.onDevice entry.1 id fun dev =>
        hub.acting ((tables.device dev).read offset n) readUpshot
  | .write id offset data =>
      if maxDevices ≤ id.toNat then (.refused, hub)
      else
        hub.onDevice entry.1 id fun dev =>
          hub.acting ((tables.device dev).write offset data) writeUpshot
  | .remoteCall id fnName args retSize =>
      hub.onDevice entry.1 id fun dev =>
        match tables.findPlugin fnName with
        | none => (.refused, hub)
        | some plugin => hub.acting (plugin.fn dev args) (pluginUpshot plugin retSize)
  | .remoteCallFast id fnId args retSize =>
      hub.onDevice entry.1 id fun dev =>
        match tables.pluginsFast[fnId.toNat]? with
        | none => (.refused, hub)
        | some plugin => hub.acting (plugin.fn dev args) (pluginUpshot plugin retSize)
  | .getRpcFnId id fnName =>
      hub.onDevice entry.1 id fun _ =>
        (.returned (.fnId (rpcFnId (position tables fnName)).toInt32), hub)
  | .isRpcAvailable id fnName =>
      hub.onDevice entry.1 id fun _ =>
        (.returned (.available (position tables fnName).isSome), hub)

/-- The numbers of some devices, as ids. -/
def numbers (held : List DevPtr) : List UInt16 := (List.range held.length).map UInt16.ofNat

end Hub

/-- The server gets from the request all that the call was made with. -/
def Op.Intact (tables : Tables World) : Op → Prop
  | .ping | .write _ _ _ => True
  | .findDevices spec => Carried spec
  | .read _ _ n => sizeofHeader + n ≤ bufferSize
  | .remoteCall _ fnName args _ =>
      args = [] ∧ 0 ∉ fnName ∧ fnName.length < maxNameLen - 1 ∧
        ∀ plugin, tables.findPlugin fnName = some plugin → plugin.argsSize = 0
  | .remoteCallFast _ fnId args _ =>
      ∀ plugin, tables.pluginsFast[fnId.toNat]? = some plugin → plugin.argsSize = args.length
  | .getRpcFnId _ fnName | .isRpcAvailable _ fnName => FitsName fnName

/-- A request of a client meets what the hub is. -/
structure Hub.Meets (hub : Hub World) (owner : ClientPtr) (ctx : Ctx World) : Prop where
  world : ctx.world = hub.world
  devices : ctx.devices = (hub.held owner).map some
  fresh : ctx.calls = []
  room : (hub.held owner).length ≤ 65536

/-- The server did for a request what the hub does for its call: a call that is
in turn is answered, and one that waits makes of the reply what the hub returns,
and keeps the proxies of all devices of the client at their ids. -/
structure Performed (tables : Tables World) (op : Op) (header : HwioPacketHeader)
    (ctx : Ctx World) (held : List DevPtr) (upshot : Upshot) (world : World)
    (held' : List DevPtr) : Prop where
  world : (handleMsg tables header ctx).2.world = world
  devices : (handleMsg tables header ctx).2.devices = held'.map some
  inTurn : ∀ result, upshot = .returned result → InTurn tables header ctx op
  answered : ∀ result, upshot = .returned result → ∃ txSize,
    (handleMsg tables header ctx).1 = .ok ⟨false, txSize⟩ ∧ txSize ≤ bufferSize ∧
      (op.waits = true → txSize ≠ 0)
  returned : ∀ result, upshot = .returned result → op.waits = true →
    ∀ (frame : Frame) rx seen, frame.bytes = replyBytes (handleMsg tables header ctx) →
      load rx 0 frame.body.length = frame.body → proxyIds seen = Hub.numbers held →
      (op.finish frame.header rx seen).1 = .ok result ∧
        proxyIds (op.finish frame.header rx seen).2 = Hub.numbers held'
  refused : upshot = .refused → op.waits = true →
    ∀ (frame : Frame) rx seen, frame.bytes <+: replyBytes (handleMsg tables header ctx) →
      ∃ exn, (op.finish frame.header rx seen).1 = .error exn

end Hwio
