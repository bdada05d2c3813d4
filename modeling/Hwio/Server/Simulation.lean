import Hwio.Bus.Matching
import Hwio.Library.Simulation
import Hwio.Server.Steps

/-!
Contract: servers that cannot be told apart by their clients.

Owns when devices, buses and plugins over one world do what others do over another
world, and that servers with them then have the same runs but for the lookups on
single buses.

Does not own the worlds.
-/

namespace Hwio

open Library

variable {World World' : Type}

/-! ## Devices, buses and plugins -/

/-- A plugin that can be called, by its name or by an id. -/
def Tables.Registers (tables : Tables World) (plugin : PluginInfo World) : Prop :=
  (∃ name, tables.findPlugin name = some plugin) ∨ plugin ∈ tables.pluginsFast

/-- A plugin does what another does. -/
structure PluginInfo.Refines (plugin : PluginInfo World) (other : PluginInfo World')
    (Same : World → World' → Prop) : Prop where
  argsSize : plugin.argsSize = other.argsSize
  retSize : plugin.retSize = other.retSize
  fn : ∀ dev args, Respects Same (plugin.fn dev args) (other.fn dev args)

theorem PluginInfo.refines_self (plugin : PluginInfo World) : plugin.Refines plugin Eq :=
  ⟨rfl, rfl, fun _ _ => respects_eq _⟩

/-- All that the requests of clients reach does what is done elsewhere, for all
buses together. -/
structure Tables.Refines (tables : Tables World) (spec : Tables World')
    (Same : World → World' → Prop) : Prop where
  find : ∀ specs, Respects Same ((HwioBusComposite tables.buses).findDevices specs)
    ((HwioBusComposite spec.buses).findDevices specs)
  attach : ∀ dev, Respects Same (tables.device dev).attach (spec.device dev).attach
  read : ∀ dev addr size,
    Respects Same ((tables.device dev).read addr size) ((spec.device dev).read addr size)
  write : ∀ dev addr bytes,
    Respects Same ((tables.device dev).write addr bytes) ((spec.device dev).write addr bytes)
  plugins : ∀ name, Option.Rel (fun plugin other => plugin.Refines other Same)
    (tables.findPlugin name) (spec.findPlugin name)
  pluginsFast : List.Forall₂ (fun plugin other => plugin.Refines other Same)
    tables.pluginsFast spec.pluginsFast
  pluginsFastNames : tables.pluginsFastNames = spec.pluginsFastNames

/-! ## What is heard of a run -/

def Call.isFind : Call → Bool
  | .find _ _ _ => true
  | _ => false

def Event.isFind : Event → Bool
  | .called _ call => call.isFind
  | _ => false

/-- A history without the lookups on single buses. -/
def heard (history : List Event) : List Event := history.filter (!·.isFind)

def heardCalls (calls : List Call) : List Call := calls.filter (!·.isFind)

theorem heard_append (early late : List Event) : heard (early ++ late) = heard early ++ heard late :=
  List.filter_append ..

theorem heardCalls_append (early late : List Call) :
    heardCalls (early ++ late) = heardCalls early ++ heardCalls late :=
  List.filter_append ..

theorem heard_called (client : ClientPtr) (calls : List Call) :
    heard (calls.map (.called client)) = (heardCalls calls).map (.called client) := by
  rw [heard, heardCalls, List.filter_map]
  rfl

/-! ## Requests -/

/-- Two requests in progress that cannot be told apart. -/
structure Ctx.Alike (Same : World → World' → Prop) (ctx : Ctx World) (other : Ctx World') :
    Prop where
  rx : ctx.rx = other.rx
  tx : ctx.tx = other.tx
  devices : ctx.devices = other.devices
  world : Same ctx.world other.world
  calls : heardCalls ctx.calls = heardCalls other.calls

section Requests

variable {tables : Tables World} {spec : Tables World'} {Same : World → World' → Prop}
  {ctx : Ctx World} {other : Ctx World'}

theorem Ctx.Alike.with_tx (alike : ctx.Alike Same other) (tx : List Byte) :
    Ctx.Alike Same { ctx with tx := tx } { other with tx := tx } :=
  { alike with tx := rfl }

theorem Ctx.Alike.with_devices (alike : ctx.Alike Same other) (devices : List (Option DevPtr)) :
    Ctx.Alike Same { ctx with devices := devices } { other with devices := devices } :=
  { alike with devices := rfl }

/-- One more call is made, which is the same. -/
theorem Ctx.Alike.called (alike : ctx.Alike Same other) {world : World} {world' : World'}
    (same : Same world world') (call : Call) :
    Ctx.Alike Same { ctx with world := world, calls := ctx.calls ++ [call] }
      { other with world := world', calls := other.calls ++ [call] } :=
  { alike with
    world := same
    calls := by rw [heardCalls_append, heardCalls_append, alike.calls] }

theorem sendErr_respects (errCode : HwioServerError) (msg : Text) :
    Respects (Ctx.Alike Same) (·.sendErr errCode msg) (·.sendErr errCode msg) := by
  intro ctx other alike
  simp only [Ctx.sendErr, alike.tx]
  exact ⟨rfl, alike.with_tx _⟩

theorem handlePing_respects (header : HwioPacketHeader) :
    Respects (Ctx.Alike Same) (handlePing header) (handlePing header) := by
  intro ctx other alike
  unfold handlePing
  by_cases bodied : header.bodyLen ≠ 0
  · rw [if_pos bodied, if_pos bodied]
    exact sendErr_respects _ _ ctx other alike
  · rw [if_neg bodied, if_neg bodied, alike.tx]
    exact ⟨rfl, alike.with_tx _⟩

theorem handleErrMsg_respects : Respects (Ctx.Alike Same) handleErrMsg handleErrMsg := by
  intro ctx other alike
  unfold handleErrMsg
  rw [alike.rx]
  exact ⟨rfl, { alike with rx := rfl }⟩

theorem handleRead_respects (refines : tables.Refines spec Same) (header : HwioPacketHeader) :
    Respects (Ctx.Alike Same) (handleRead tables header) (handleRead spec header) := by
  intro ctx other alike
  unfold handleRead
  by_cases sized : header.bodyLen.toNat ≠ sizeofRdReq
  · rw [if_pos sized, if_pos sized]
    exact sendErr_respects _ _ ctx other alike
  · rw [if_neg sized, if_neg sized]
    obtain ⟨rx, tx, devices, world, calls⟩ := ctx
    obtain ⟨_, _, _, world', calls'⟩ := other
    obtain ⟨rfl, rfl, rfl, same, _⟩ := id alike
    simp only
    cases clientGetDev devices (loadU16 rx 0) with
    | none => exact sendErr_respects _ _ _ _ alike
    | some dev =>
        have reads := refines.read dev (loadU32 rx 2) (loadU16 rx 6).toNat _ _ same
        have done := (alike.called reads.state (.read dev (loadU32 rx 2)
          (loadU16 rx 6).toNat)).with_tx (store (setBodyLen (setCommand tx .readResp)
            (loadU16 rx 6).toNat) sizeofHeader
              ((spec.device dev).read (loadU32 rx 2) (loadU16 rx 6).toNat world').1.bytes)
        simp only [reads.value]
        cases ((spec.device dev).read (loadU32 rx 2) (loadU16 rx 6).toNat world').1.thrown with
        | none => exact ⟨rfl, done⟩
        | some exn =>
            by_cases caught : exn.isRuntimeError = true
            · simp only [caught, if_true]
              exact sendErr_respects _ _ _ _ done
            · simp only [caught]
              exact ⟨rfl, done⟩

theorem handleWrite_respects (refines : tables.Refines spec Same) (header : HwioPacketHeader) :
    Respects (Ctx.Alike Same) (handleWrite tables header) (handleWrite spec header) := by
  intro ctx other alike
  unfold handleWrite
  by_cases small : header.bodyLen.toNat < sizeofWrReq
  · rw [if_pos small, if_pos small]
    exact sendErr_respects _ _ ctx other alike
  · rw [if_neg small, if_neg small]
    obtain ⟨rx, tx, devices, world, calls⟩ := ctx
    obtain ⟨_, _, _, world', calls'⟩ := other
    obtain ⟨rfl, rfl, rfl, same, _⟩ := id alike
    simp only
    by_cases wrong : maxDevices ≤ (loadU16 rx 0).toNat
    · rw [if_pos wrong, if_pos wrong]
      exact sendErr_respects _ _ _ _ alike
    · rw [if_neg wrong, if_neg wrong]
      cases clientGetDev devices (loadU16 rx 0) with
      | none => exact sendErr_respects _ _ _ _ alike
      | some dev =>
          have writes := refines.write dev (loadU32 rx 2)
            (load rx sizeofWrReq (loadU16 rx 6).toNat) _ _ same
          have done := alike.called writes.state (.write dev (loadU32 rx 2)
            (load rx sizeofWrReq (loadU16 rx 6).toNat))
          simp only [writes.value]
          cases ((spec.device dev).write (loadU32 rx 2)
            (load rx sizeofWrReq (loadU16 rx 6).toNat) world').1 with
          | none => exact ⟨rfl, done⟩
          | some exn => exact ⟨rfl, done⟩

theorem callPlugin_respects {plugin : PluginInfo World} {plugin' : PluginInfo World'}
    (refines : plugin.Refines plugin' Same) (key : PluginKey) (dev : DevPtr) (argsOffset : Nat) :
    Respects (Ctx.Alike Same) (callPlugin plugin key dev argsOffset)
      (callPlugin plugin' key dev argsOffset) := by
  intro ctx other alike
  obtain ⟨rx, tx, devices, world, calls⟩ := ctx
  obtain ⟨_, _, _, world', calls'⟩ := other
  obtain ⟨rfl, rfl, rfl, same, _⟩ := id alike
  unfold callPlugin
  simp only [refines.argsSize, refines.retSize]
  have runs := refines.fn dev (load rx argsOffset plugin'.argsSize) _ _ same
  have done := (alike.called runs.state (.plugin key dev
    (load rx argsOffset plugin'.argsSize))).with_tx (store (setBodyLen (setCommand tx
      .remoteCallRet) plugin'.retSize) sizeofHeader
        (plugin'.fn dev (load rx argsOffset plugin'.argsSize) world').1.ret)
  simp only [runs.value]
  cases (plugin'.fn dev (load rx argsOffset plugin'.argsSize) world').1.thrown with
  | none =>
      by_cases returns : plugin'.retSize ≠ 0
      · simp only [returns, ne_eq, not_false_eq_true, if_true]
        exact ⟨rfl, done⟩
      · simp only [returns, if_false]
        exact ⟨rfl, done⟩
  | some exn =>
      by_cases caught : exn.isRuntimeError = true
      · simp only [caught, if_true]
        exact sendErr_respects _ _ _ _ done
      · simp only [caught]
        exact ⟨rfl, done⟩

theorem handleRemoteCall_respects (refines : tables.Refines spec Same)
    (header : HwioPacketHeader) :
    Respects (Ctx.Alike Same) (handleRemoteCall tables header) (handleRemoteCall spec header) := by
  intro ctx other alike
  unfold handleRemoteCall
  by_cases small : header.bodyLen.toNat < sizeofRemoteCall - 1
  · rw [if_pos small, if_pos small]
    exact sendErr_respects _ _ ctx other alike
  · rw [if_neg small, if_neg small, alike.rx, alike.devices]
    cases clientGetDev other.devices (loadU16 other.rx 0) with
    | none => exact sendErr_respects _ _ ctx other alike
    | some dev =>
        have found := refines.plugins (cstr (other.rx.drop 2))
        simp only
        generalize tables.findPlugin (cstr (other.rx.drop 2)) = plugin at found ⊢
        generalize spec.findPlugin (cstr (other.rx.drop 2)) = plugin' at found ⊢
        cases found with
        | none => exact sendErr_respects _ _ ctx other alike
        | some refines => exact callPlugin_respects refines _ _ _ ctx other alike

theorem pluginsFast_related (refines : tables.Refines spec Same) (index : Nat) :
    Option.Rel (fun plugin other => plugin.Refines other Same)
      tables.pluginsFast[index]? spec.pluginsFast[index]? := by
  have listed := refines.pluginsFast
  generalize tables.pluginsFast = plugins at listed ⊢
  generalize spec.pluginsFast = plugins' at listed ⊢
  induction listed generalizing index with
  | nil => exact .none
  | cons first _ inductionHypothesis =>
      cases index with
      | zero => exact .some first
      | succ index => exact inductionHypothesis index

theorem handleFastRemoteCall_respects (refines : tables.Refines spec Same)
    (header : HwioPacketHeader) :
    Respects (Ctx.Alike Same) (handleFastRemoteCall tables header)
      (handleFastRemoteCall spec header) := by
  intro ctx other alike
  unfold handleFastRemoteCall
  by_cases small : header.bodyLen.toNat < sizeofRemoteCallFast - 1
  · rw [if_pos small, if_pos small]
    exact sendErr_respects _ _ ctx other alike
  · rw [if_neg small, if_neg small, alike.rx, alike.devices]
    cases clientGetDev other.devices (loadU16 other.rx 0) with
    | none => exact sendErr_respects _ _ ctx other alike
    | some dev =>
        have found := pluginsFast_related refines (loadU32 other.rx 2).toNat
        simp only
        generalize tables.pluginsFast[(loadU32 other.rx 2).toNat]? = plugin at found ⊢
        generalize spec.pluginsFast[(loadU32 other.rx 2).toNat]? = plugin' at found ⊢
        cases found with
        | none => exact sendErr_respects _ _ ctx other alike
        | some refines => exact callPlugin_respects refines _ _ _ ctx other alike

theorem handleGetRpcFnId_respects (refines : tables.Refines spec Same)
    (header : HwioPacketHeader) :
    Respects (Ctx.Alike Same) (handleGetRpcFnId tables header) (handleGetRpcFnId spec header) := by
  intro ctx other alike
  unfold handleGetRpcFnId
  by_cases small : header.bodyLen.toNat < sizeofGetRemoteCallId
  · rw [if_pos small, if_pos small]
    exact sendErr_respects _ _ ctx other alike
  · rw [if_neg small, if_neg small, refines.pluginsFastNames]
    obtain ⟨rx, tx, devices, world, calls⟩ := ctx
    obtain ⟨_, _, _, world', calls'⟩ := other
    obtain ⟨rfl, rfl, rfl, _, _⟩ := id alike
    simp only
    cases clientGetDev devices (loadU16 rx 0) with
    | none => exact sendErr_respects _ _ _ _ (alike.with_tx _)
    | some dev =>
        cases spec.pluginsFastNames.findIdx? fun name => cstr (rx.drop 2) = name with
        | none => exact ⟨rfl, alike.with_tx _⟩
        | some index => exact ⟨rfl, alike.with_tx _⟩

/-! ## Queries -/

theorem registerDevice_respects (refines : tables.Refines spec Same) (dev : DevPtr) :
    Respects (Ctx.Alike Same) (registerDevice tables dev) (registerDevice spec dev) := by
  intro ctx other alike
  obtain ⟨rx, tx, devices, world, calls⟩ := ctx
  obtain ⟨_, _, _, world', calls'⟩ := other
  obtain ⟨rfl, rfl, rfl, same, _⟩ := id alike
  unfold registerDevice
  simp only
  by_cases registered : (searchSlot dev devices 0 none).alreadyRegistered = true
  · rw [if_pos registered, if_pos registered]
    exact ⟨rfl, alike⟩
  · rw [if_neg registered, if_neg registered]
    cases placeDevice dev devices (searchSlot dev devices 0 none) with
    | none => exact ⟨rfl, alike⟩
    | some placed =>
        obtain ⟨devId, devices'⟩ := placed
        have attaches := refines.attach dev _ _ same
        have done := (alike.called attaches.state (.attach dev)).with_devices devices'
        simp only [attaches.value]
        cases ((spec.device dev).attach world').1 with
        | none => exact ⟨rfl, done⟩
        | some exn => exact ⟨rfl, done⟩

theorem registerDevices_respects (refines : tables.Refines spec Same) (devs : List DevPtr)
    (i : Nat) :
    Respects (Ctx.Alike Same) (registerDevices tables devs i) (registerDevices spec devs i) := by
  induction devs generalizing i with
  | nil => exact fun ctx other alike => ⟨rfl, alike⟩
  | cons dev rest inductionHypothesis =>
      intro ctx other alike
      rw [registerDevices, registerDevices]
      rcases (registerDevice_respects refines dev ctx other alike).cases with
        ⟨stop, after, after', ran, ran', kept⟩ | ⟨devId, after, after', ran, ran', kept⟩
      · rw [ran, ran']
        exact ⟨rfl, kept⟩
      · rw [ran, ran']
        simp only [kept.tx]
        exact inductionHypothesis (i + 1) _ _ (kept.with_tx _)

theorem compositeLoop_append (specs : List HwioCompSpec) (buses : List (IhwioBus World))
    (front res : List DevPtr) (world : World) :
    compositeLoop specs buses (front ++ res) world =
      ((compositeLoop specs buses res world).1.map (front ++ ·),
        (compositeLoop specs buses res world).2) := by
  induction buses generalizing res world with
  | nil => rfl
  | cons bus rest inductionHypothesis =>
      rw [compositeLoop, compositeLoop]
      rcases bus.findDevices specs world with ⟨exn | found, after⟩
      · rfl
      · simp only [List.append_assoc, inductionHypothesis]

/-- The lookup on every bus in turn is that of the composite bus, with a call noted
for each. -/
theorem findOnBuses_composite (specs : List HwioCompSpec) (buses : List (IhwioBus World))
    (index : Nat) (ctx : Ctx World) :
    ∃ calls, heardCalls calls = heardCalls ctx.calls ∧ findOnBuses specs buses index ctx =
      (((HwioBusComposite buses).findDevices specs ctx.world).1.mapError .thrown,
        { ctx with
          world := ((HwioBusComposite buses).findDevices specs ctx.world).2
          calls := calls }) := by
  induction buses generalizing index ctx with
  | nil => exact ⟨ctx.calls, rfl, rfl⟩
  | cons bus rest inductionHypothesis =>
      have unheard : ∀ found, heardCalls (ctx.calls ++ [.find index specs found]) =
          heardCalls ctx.calls := by
        intro found
        rw [heardCalls_append]
        exact List.append_nil _
      simp only [HwioBusComposite, compositeLoop, findOnBuses, List.nil_append]
      rcases bus.findDevices specs ctx.world with ⟨exn | first, world⟩
      · exact ⟨_, unheard none, rfl⟩
      · obtain ⟨calls, silent, ran⟩ := inductionHypothesis (index + 1)
          { ctx with world := world, calls := ctx.calls ++ [.find index specs (some first)] }
        refine ⟨calls, silent.trans (unheard _), ?_⟩
        have appended := compositeLoop_append specs rest first [] world
        rw [List.append_nil] at appended
        simp only [ran, appended, HwioBusComposite]
        rcases compositeLoop specs rest [] world with ⟨exn | more, after⟩
        · rfl
        · rfl

theorem deviceLookupResp_respects (refines : tables.Refines spec Same) (count : Nat) :
    Respects (Ctx.Alike Same) (deviceLookupResp tables count) (deviceLookupResp spec count) := by
  intro ctx other alike
  obtain ⟨rx, tx, devices, world, calls⟩ := ctx
  obtain ⟨_, _, _, world', calls'⟩ := other
  obtain ⟨rfl, rfl, rfl, same, called⟩ := id alike
  unfold deviceLookupResp
  simp only
  have finds := refines.find (extractSpecFromClientQuery rx count) _ _ same
  obtain ⟨_, silent, ran⟩ := findOnBuses_composite (extractSpecFromClientQuery rx count)
    tables.buses 0 ⟨rx, setCommand tx .queryResp, devices, world, calls⟩
  obtain ⟨_, silent', ran'⟩ := findOnBuses_composite (extractSpecFromClientQuery rx count)
    spec.buses 0 ⟨rx, setCommand tx .queryResp, devices, world', calls'⟩
  rw [ran, ran', finds.value]
  have done : Ctx.Alike Same ⟨rx, setCommand tx .queryResp, devices, _, _⟩
      ⟨rx, setCommand tx .queryResp, devices, _, _⟩ :=
    ⟨rfl, rfl, rfl, finds.state, silent.trans (called.trans silent'.symm)⟩
  cases ((HwioBusComposite spec.buses).findDevices (extractSpecFromClientQuery rx count)
    world').1 with
  | error exn => exact ⟨rfl, done⟩
  | ok result =>
      simp only [Except.mapError]
      rcases (registerDevices_respects refines result 0 _ _ (done.with_tx
          (setBodyLen (setCommand tx .queryResp) 0))).cases with
        ⟨stop, after, after', ran, ran', kept⟩ | ⟨registered, after, after', ran, ran', kept⟩
      · rw [ran, ran']
        exact ⟨rfl, kept⟩
      · rw [ran, ran']
        simp only [kept.tx]
        exact ⟨rfl, kept⟩

theorem handleQuery_respects (refines : tables.Refines spec Same) (header : HwioPacketHeader) :
    Respects (Ctx.Alike Same) (handleQuery tables header) (handleQuery spec header) := by
  intro ctx other alike
  unfold handleQuery
  simp only
  split
  · exact sendErr_respects _ _ ctx other alike
  · split
    · exact sendErr_respects _ _ ctx other alike
    · exact deviceLookupResp_respects refines _ ctx other alike

/-- A request is handled in the same way. -/
theorem handleMsg_respects (refines : tables.Refines spec Same) (header : HwioPacketHeader) :
    Respects (Ctx.Alike Same) (handleMsg tables header) (handleMsg spec header) := by
  intro ctx other alike
  unfold handleMsg
  split
  next => exact handleFastRemoteCall_respects refines header ctx other alike
  next => exact handleRead_respects refines header ctx other alike
  next => exact handleWrite_respects refines header ctx other alike
  next => exact handleRemoteCall_respects refines header ctx other alike
  next => exact handlePing_respects header ctx other alike
  next => exact handleQuery_respects refines header ctx other alike
  next => exact handleGetRpcFnId_respects refines header ctx other alike
  next => exact ⟨rfl, alike⟩
  next => exact handleErrMsg_respects ctx other alike
  next => exact sendErr_respects _ _ ctx other alike

end Requests

/-! ## Connections -/

/-- A system that does not notice lookups. -/
structure Sys.Deaf (sys : Sys) : Prop where
  ppoll : ∀ {history history'}, heard history = heard history' →
    sys.ppoll history = sys.ppoll history'
  accept : ∀ {history history'}, heard history = heard history' →
    sys.accept history = sys.accept history'
  recv : ∀ {history history'}, heard history = heard history' →
    sys.recv history = sys.recv history'
  send : ∀ {history history'}, heard history = heard history' →
    sys.send history = sys.send history'
  newBuffer : ∀ {history history'}, heard history = heard history' →
    sys.newBuffer history = sys.newBuffer history'
  freedFd : ∀ {history history'}, heard history = heard history' →
    sys.freedFd history = sys.freedFd history'

/-- Two histories with the same but lookups. -/
def HeardAlike (history history' : List Event) : Prop := heard history = heard history'

theorem HeardAlike.append {history history' : List Event} (alike : HeardAlike history history')
    (events : List Event) : HeardAlike (history ++ events) (history' ++ events) := by
  rw [HeardAlike, heard_append, heard_append, alike]

/-- Two connections that cannot be told apart. -/
structure Session.Alike (Same : World → World' → Prop) (session : Session World)
    (other : Session World') : Prop where
  client : session.client = other.client
  txBuffer : session.txBuffer = other.txBuffer
  world : Same session.world other.world
  trace : HeardAlike session.trace other.trace

section Connections

variable {tables : Tables World} {spec : Tables World'} {Same : World → World' → Prop} {sys : Sys}

theorem readFromSocket_respects (deaf : sys.Deaf) (ptr : ClientPtr) :
    Respects (Session.Alike Same) (readFromSocket sys ptr) (readFromSocket sys ptr) := by
  intro session other alike
  obtain ⟨client, tx, world, trace⟩ := session
  obtain ⟨_, _, world', trace'⟩ := other
  obtain ⟨rfl, rfl, same, told⟩ := alike
  unfold readFromSocket
  simp only
  by_cases moved : (decide (0 < client.rxBuffer.currLen) && decide (client.rxBuffer.currPtr ≠ 0)) =
      true
  · have copied := told.append [.copied ptr client.rxBuffer.currPtr client.rxBuffer.currLen]
    rw [if_pos moved, if_pos moved, if_pos moved, deaf.recv copied]
    cases sys.recv (trace' ++ [.copied ptr client.rxBuffer.currPtr client.rxBuffer.currLen])
      client.fd (rxBufferSize - client.rxBuffer.currLen) with
    | data bytes => exact ⟨rfl, rfl, rfl, same, copied.append _⟩
    | _ => exact ⟨rfl, rfl, rfl, same, copied⟩
  · rw [if_neg moved, if_neg moved, if_neg moved, deaf.recv told]
    cases sys.recv trace' client.fd (rxBufferSize - client.rxBuffer.currLen) with
    | data bytes => exact ⟨rfl, rfl, rfl, same, told.append _⟩
    | _ => exact ⟨rfl, rfl, rfl, same, told⟩

theorem sendReply_respects (deaf : sys.Deaf) (fd : Fd) (ptr : ClientPtr) (fuel : Nat)
    (reply : List Byte) :
    Respects HeardAlike (sendReply sys fd ptr fuel reply) (sendReply sys fd ptr fuel reply) := by
  induction fuel generalizing reply with
  | zero =>
      intro trace trace' told
      cases reply with
      | nil | cons byte rest => exact ⟨rfl, told⟩
  | succ fuel inductionHypothesis =>
      intro trace trace' told
      cases reply with
      | nil => exact ⟨rfl, told⟩
      | cons byte rest =>
          rw [sendReply, sendReply, deaf.send told]
          cases sys.send trace' fd (byte :: rest) with
          | failed => exact ⟨rfl, told⟩
          | sent count => exact inductionHypothesis _ _ _ (told.append _)

theorem handleFrame_respects (refines : tables.Refines spec Same) (deaf : sys.Deaf)
    (ptr : ClientPtr) :
    Respects (Session.Alike Same) (handleFrame tables sys ptr) (handleFrame spec sys ptr) := by
  intro session other alike
  obtain ⟨client, tx, world, trace⟩ := session
  obtain ⟨_, _, world', trace'⟩ := other
  obtain ⟨rfl, rfl, same, told⟩ := alike
  unfold handleFrame
  simp only
  have handles := handleMsg_respects refines
    (HwioPacketHeader.at client.rxBuffer.buffer client.rxBuffer.currPtr)
    (Session.request ⟨client, tx, world, trace⟩) (Session.request ⟨client, tx, world', trace'⟩)
    ⟨rfl, rfl, rfl, same, rfl⟩
  have put : ∀ {ctx : Ctx World} {ctx' : Ctx World'}, ctx.Alike Same ctx' →
      Session.Alike Same (Session.afterMsg ptr ⟨client, tx, world, trace⟩ ctx)
        (Session.afterMsg ptr ⟨client, tx, world', trace'⟩ ctx') := by
    intro ctx ctx' kept
    constructor
    · simp only [Session.afterMsg, kept.rx, kept.devices]
    · exact kept.tx
    · exact kept.world
    · have calls : HeardAlike (ctx.calls.map (.called ptr)) (ctx'.calls.map (.called ptr)) := by
        rw [HeardAlike, heard_called, heard_called, kept.calls]
      simp only [Session.afterMsg]
      rw [← List.singleton_append, ← List.singleton_append, HeardAlike, heard_append, heard_append,
        heard_append, heard_append, calls, show heard trace = heard trace' from told]
      rfl
  rcases handles.cases with
    ⟨stop, ctx, ctx', ran, ran', kept⟩ | ⟨res, ctx, ctx', ran, ran', kept⟩
  · rw [ran, ran']
    exact ⟨rfl, put kept⟩
  · rw [ran, ran']
    have after := put kept
    have sends := sendReply_respects deaf client.fd ptr res.txSize (load ctx'.tx 0 res.txSize)
      _ _ after.trace
    simp only [kept.tx, sends.value]
    refine ⟨rfl, ?_, after.txBuffer, after.world, sends.state.append _⟩
    simp only [after.client]

theorem parseLoop_respects (refines : tables.Refines spec Same) (deaf : sys.Deaf)
    (ptr : ClientPtr) (fuel : Nat) :
    Respects (Session.Alike Same) (parseLoop tables sys ptr fuel)
      (parseLoop spec sys ptr fuel) := by
  induction fuel with
  | zero => exact fun session other alike => ⟨rfl, alike⟩
  | succ fuel inductionHypothesis =>
      intro session other alike
      rw [parseLoop, parseLoop, alike.client]
      split
      · exact ⟨rfl, alike⟩
      · split
        · exact ⟨rfl, alike⟩
        · rcases (handleFrame_respects refines deaf ptr session other alike).cases with
            ⟨stop, after, after', ran, ran', kept⟩ | ⟨gone, after, after', ran, ran', kept⟩
          · rw [ran, ran']
            exact ⟨rfl, kept⟩
          · rw [ran, ran']
            cases gone with
            | true => exact ⟨rfl, kept⟩
            | false => exact inductionHypothesis after after' kept

end Connections

/-! ## The server -/

namespace HwioServer

/-- Two servers that cannot be told apart. -/
structure Alike (Same : World → World' → Prop) (server : HwioServer World)
    (other : HwioServer World') : Prop where
  tables : server.tables.Refines other.tables Same
  masterSocket : server.masterSocket = other.masterSocket
  txBuffer : server.txBuffer = other.txBuffer
  pollFds : server.pollFds = other.pollFds
  removedPollFds : server.removedPollFds = other.removedPollFds
  fdToClient : server.fdToClient = other.fdToClient
  clients : server.clients = other.clients
  heap : server.heap = other.heap
  nextClient : server.nextClient = other.nextClient
  world : Same server.world other.world
  trace : HeardAlike server.trace other.trace

section Passes

variable {Same : World → World' → Prop} {sys : Sys} {server : HwioServer World}
  {other : HwioServer World'}

theorem Alike.note (alike : Alike Same server other) (event : Event) :
    Alike Same (note event server) (note event other) :=
  { alike with trace := alike.trace.append [event] }

theorem Alike.pushRemoved (alike : Alike Same server other) (fd : Fd) :
    Alike Same (pushRemoved fd server) (pushRemoved fd other) :=
  { alike with removedPollFds := congrArg (· ++ [fd]) alike.removedPollFds }

theorem Alike.session (alike : Alike Same server other) (record : ClientInfo) :
    Session.Alike Same (server.session record) (other.session record) :=
  ⟨rfl, alike.txBuffer, alike.world, alike.trace⟩

theorem Alike.putSession (alike : Alike Same server other) (client : ClientPtr)
    {session : Session World} {session' : Session World'}
    (same : Session.Alike Same session session') :
    Alike Same (server.putSession client session) (other.putSession client session') :=
  { alike with
    heap := by simp only [HwioServer.putSession, alike.heap, same.client]
    txBuffer := same.txBuffer
    world := same.world
    trace := same.trace }

theorem Alike.allocClient (alike : Alike Same server other) (deaf : sys.Deaf) (socket : Fd) :
    Alike Same (allocClient sys socket server) (allocClient sys socket other) :=
  { alike with
    clients := by simp only [HwioServer.allocClient, alike.clients, alike.nextClient]
    heap := by
      simp only [HwioServer.allocClient, alike.clients, alike.nextClient, alike.heap,
        deaf.newBuffer alike.trace]
    nextClient := congrArg (· + 1) alike.nextClient
    trace := by
      simp only [HwioServer.allocClient, alike.nextClient]
      exact alike.trace.append _ }

theorem addNewClient_respects (deaf : sys.Deaf) (socket : Fd) :
    Respects (Alike Same) (addNewClient sys socket) (addNewClient sys socket) := by
  intro server other alike
  have made := alike.allocClient deaf socket
  unfold addNewClient
  simp only
  rw [made.fdToClient, alike.nextClient]
  by_cases free : (allocClient sys socket other).fdToClient.lookup socket = none
  · rw [if_pos free, if_pos free]
    refine ⟨rfl, { made with pollFds := ?_, fdToClient := ?_ }⟩
    · exact congrArg (· ++ [socket]) made.pollFds
    · exact congrArg (·.insert socket other.nextClient) made.fdToClient
  · rw [if_neg free, if_neg free]
    exact ⟨rfl, made⟩

theorem removeClient_respects (socket : Fd) :
    Respects (Alike Same) (removeClient socket) (removeClient socket) := by
  intro server other alike
  unfold removeClient
  rw [alike.fdToClient]
  cases other.fdToClient.lookup socket with
  | none => exact ⟨rfl, alike⟩
  | some client =>
      simp only [alike.heap]
      cases other.heap client with
      | none => exact ⟨rfl, alike⟩
      | some record =>
          by_cases listed : record.fd = socket
          · simp only [if_pos listed]
            refine ⟨rfl, { alike with fdToClient := ?_, clients := ?_, heap := ?_, trace := ?_ }⟩
            · exact congrArg (·.erase record.fd) alike.fdToClient
            · exact congrArg (·.set record.id none) alike.clients
            · exact congrArg (Function.update · client none) alike.heap
            · exact alike.trace.append _
          · simp only [if_neg listed]
            exact ⟨rfl, alike⟩

theorem parseMsgs_respects (deaf : sys.Deaf) (client : ClientPtr) {session : Session World}
    {session' : Session World'} (same : Session.Alike Same session session')
    (alike : Alike Same server other) :
    Agreeing (Alike Same) (parseMsgs sys client session server)
      (parseMsgs sys client session' other) := by
  unfold parseMsgs
  have parsed := parseLoop_respects alike.tables deaf client session'.client.rxBuffer.currLen _ _
    same
  simp only [same.client, parsed.value]
  have put := alike.putSession client parsed.state
  generalize parseLoop server.tables sys client session'.client.rxBuffer.currLen session = ran
    at put parsed ⊢
  generalize parseLoop other.tables sys client session'.client.rxBuffer.currLen session' = ran'
    at put parsed ⊢
  cases ran'.1 with
  | waiting => exact ⟨rfl, put⟩
  | stopped stop => exact ⟨rfl, put⟩
  | disconnect =>
      simp only [parsed.state.client]
      rcases (removeClient_respects ran'.2.client.fd _ _ put).cases with
        ⟨stop, after, after', ran, ran', kept⟩ | ⟨removed, after, after', ran, ran', kept⟩
      · rw [ran, ran']
        exact ⟨rfl, kept⟩
      · rw [ran, ran']
        simp only [deaf.freedFd kept.trace]
        exact ⟨rfl, (kept.note (.readFreed client)).pushRemoved _⟩

theorem clientOf_respects (deaf : sys.Deaf) (socket : Fd) :
    Respects (Alike Same) (clientOf sys socket) (clientOf sys socket) := by
  intro server other alike
  unfold clientOf
  rw [alike.fdToClient]
  cases other.fdToClient.lookup socket with
  | none => exact addNewClient_respects deaf socket _ _ alike
  | some client => exact ⟨rfl, alike⟩

theorem handleMultipleClientRequests_respects (deaf : sys.Deaf) (socket : Fd) :
    Respects (Alike Same) (handleMultipleClientRequests sys socket)
      (handleMultipleClientRequests sys socket) := by
  intro server other alike
  unfold handleMultipleClientRequests
  rcases (clientOf_respects deaf socket _ _ alike).cases with
    ⟨stop, after, after', ran, ran', kept⟩ | ⟨client, after, after', ran, ran', kept⟩
  · rw [ran, ran']
    exact ⟨rfl, kept⟩
  · rw [ran, ran']
    simp only [kept.heap]
    cases after'.heap client with
    | none => exact ⟨rfl, kept⟩
    | some record =>
        by_cases listed : record.fd = socket
        · simp only [if_pos listed]
          have reads := readFromSocket_respects deaf client _ _ (kept.session record)
          generalize readFromSocket sys client (after.session record) = got at reads ⊢
          generalize readFromSocket sys client (after'.session record) = got' at reads ⊢
          obtain ⟨came, session⟩ := got
          obtain ⟨came', session'⟩ := got'
          obtain ⟨rfl, read⟩ : came = came' ∧ Session.Alike Same session session' :=
            ⟨reads.value, reads.state⟩
          have put := kept.putSession client read
          cases came with
          | true => exact parseMsgs_respects deaf client read put
          | false =>
              rcases (removeClient_respects socket _ _ put).cases with
                ⟨stop, last, last', ran, ran', gone⟩ | ⟨removed, last, last', ran, ran', gone⟩
              · simp only [ran, ran']
                exact ⟨rfl, gone⟩
              · simp only [ran, ran']
                exact ⟨rfl, gone.pushRemoved socket⟩
        · simp only [if_neg listed]
          exact ⟨rfl, kept⟩

/-! ## Passes -/

theorem visit_respects (deaf : sys.Deaf) (fd : Fd) (revents : UInt16) :
    Respects (Alike Same) (visit sys fd revents) (visit sys fd revents) := by
  intro server other alike
  unfold visit
  by_cases quiet : fd < 0 ∨ revents = 0
  · rw [if_pos quiet, if_pos quiet]
    exact ⟨rfl, alike⟩
  · rw [if_neg quiet, if_neg quiet]
    have visited := alike.note (.visited fd)
    simp only [visited.masterSocket]
    split
    · split
      · exact ⟨rfl, visited⟩
      · rcases (removeClient_respects fd _ _ visited).cases with
          ⟨stop, after, after', ran, ran', kept⟩ | ⟨removed, after, after', ran, ran', kept⟩
        · rw [ran, ran']
          exact ⟨rfl, kept⟩
        · rw [ran, ran']
          exact ⟨rfl, kept.pushRemoved fd⟩
    · split
      · rw [deaf.accept visited.trace]
        cases sys.accept (note (.visited fd) other).trace with
        | none => exact ⟨rfl, visited⟩
        | some socket =>
            simp only
            rcases (addNewClient_respects deaf socket _ _ (visited.note (.accepted socket))).cases
              with ⟨stop, after, after', ran, ran', kept⟩ | ⟨client, after, after', ran, ran', kept⟩
            · rw [ran, ran']
              exact ⟨rfl, kept⟩
            · rw [ran, ran']
              exact ⟨rfl, kept⟩
      · exact handleMultipleClientRequests_respects deaf fd _ _ visited

theorem visitAll_eq_chain (polled : List (Fd × UInt16)) (server : HwioServer World) :
    visitAll sys polled server = chain (polled.map fun entry => visit sys entry.1 entry.2) server := by
  induction polled generalizing server with
  | nil => rfl
  | cons entry rest inductionHypothesis =>
      obtain ⟨fd, revents⟩ := entry
      rw [visitAll, List.map_cons, chain]
      rcases visit sys fd revents server with ⟨stop | done, after⟩
      · rfl
      · exact inductionHypothesis after

theorem visitAll_respects (deaf : sys.Deaf) (polled : List (Fd × UInt16)) :
    Respects (Alike Same) (visitAll sys polled) (visitAll sys polled) := by
  intro server other alike
  rw [visitAll_eq_chain, visitAll_eq_chain]
  refine chain_respects ?_ server other alike
  rw [List.forall₂_map_left_iff, List.forall₂_map_right_iff, List.forall₂_same]
  exact fun entry _ => visit_respects deaf entry.1 entry.2

/-- A pass. -/
theorem poolClientMsgs_respects (deaf : sys.Deaf) :
    Respects (Alike Same) (poolClientMsgs sys) (poolClientMsgs sys) := by
  intro server other alike
  unfold poolClientMsgs
  rw [deaf.ppoll alike.trace, alike.pollFds]
  cases sys.ppoll other.trace other.pollFds with
  | timeout => exact ⟨rfl, alike⟩
  | interrupted => exact ⟨rfl, alike⟩
  | failed errno => exact ⟨rfl, alike⟩
  | ready revents =>
      simp only
      rcases (visitAll_respects deaf _ _ _ alike).cases with
        ⟨stop, after, after', ran, ran', kept⟩ | ⟨done, after, after', ran, ran', kept⟩
      · rw [ran, ran']
        exact ⟨rfl, kept⟩
      · rw [ran, ran']
        refine ⟨rfl, { kept with pollFds := ?_, removedPollFds := rfl }⟩
        simp only [cleanup, kept.pollFds, kept.removedPollFds]

end Passes

/-! ## Runs -/

/-- Passes one after another, as a server is run, until one does not return. -/
def serve (systems : List Sys) : HwioServer World → Ran World Unit :=
  chain (systems.map fun sys => poolClientMsgs sys)

variable {tables : Tables World} {spec : Tables World'} {Same : World → World' → Prop}

theorem prepared_alike (refines : tables.Refines spec Same) {world : World} {world' : World'}
    (same : Same world world') (master : Fd) (tx : List Byte) :
    Alike Same (prepared tables master tx world) (prepared spec master tx world') :=
  { tables := refines
    masterSocket := rfl
    txBuffer := rfl
    pollFds := rfl
    removedPollFds := rfl
    fdToClient := rfl
    clients := rfl
    heap := rfl
    nextClient := rfl
    world := same
    trace := rfl }

theorem serve_respects {systems : List Sys} (deaf : ∀ sys ∈ systems, sys.Deaf) :
    Respects (Alike Same) (serve systems) (serve systems) := by
  refine chain_respects ?_
  rw [List.forall₂_map_left_iff, List.forall₂_map_right_iff, List.forall₂_same]
  exact fun sys member => poolClientMsgs_respects (deaf sys member)

/-- Whatever the clients and the operating system do: a server whose devices,
buses and plugins do what others do runs as it runs with those.  Its passes end in
the same way, with the same records and buffers, and its history is the same but
for the lookups on single buses. -/
theorem servers_refine (refines : tables.Refines spec Same) {world : World} {world' : World'}
    (same : Same world world') (master : Fd) (tx : List Byte) {systems : List Sys}
    (deaf : ∀ sys ∈ systems, sys.Deaf) :
    Agreeing (Alike Same) (serve systems (prepared tables master tx world))
      (serve systems (prepared spec master tx world')) :=
  serve_respects deaf _ _ (prepared_alike refines same master tx)

/-! ## Composite buses -/

/-- The same devices and plugins, and composite buses of some groups of buses. -/
def regrouped (tables : Tables World) (groups : List (List (IhwioBus World))) : Tables World :=
  { tables with buses := groups.map HwioBusComposite }

/-- The devices of buses are found before those of the buses behind them. -/
theorem compositeLoop_front {specs : List HwioCompSpec} {front : List (IhwioBus World)}
    (rest : List (IhwioBus World)) {res : List DevPtr} {world after : World} :
    (∀ exn, compositeLoop specs front res world = (.error exn, after) →
      compositeLoop specs (front ++ rest) res world = (.error exn, after)) ∧
    ∀ found, compositeLoop specs front res world = (.ok found, after) →
      compositeLoop specs (front ++ rest) res world = compositeLoop specs rest found after := by
  induction front generalizing res world with
  | nil =>
      constructor
      · intro exn thrown
        cases thrown
      · intro found returned
        cases returned
        rfl
  | cons bus front inductionHypothesis =>
      rw [List.cons_append, compositeLoop, compositeLoop]
      rcases bus.findDevices specs world with ⟨exn | devs, between⟩
      · constructor
        · intro exn thrown
          exact thrown
        · intro found returned
          cases returned
      · exact inductionHypothesis

theorem compositeLoop_groups (specs : List HwioCompSpec) (groups : List (List (IhwioBus World)))
    (res : List DevPtr) (world : World) :
    compositeLoop specs (groups.map HwioBusComposite) res world =
      compositeLoop specs groups.flatten res world := by
  induction groups generalizing res world with
  | nil => rfl
  | cons group groups inductionHypothesis =>
      have appended := compositeLoop_append specs group res [] world
      have front := @compositeLoop_front _ specs group groups.flatten res world
        (compositeLoop specs group [] world).2
      rw [List.append_nil] at appended
      rw [List.map_cons, compositeLoop, List.flatten_cons]
      simp only [HwioBusComposite]
      generalize compositeLoop specs group [] world = looked at appended front ⊢
      rcases looked with ⟨exn | found, after⟩
      · exact (front.1 exn appended).symm
      · rw [front.2 _ appended]
        exact inductionHypothesis _ _

theorem regrouped_refines (tables : Tables World) {groups : List (List (IhwioBus World))}
    (same : groups.flatten = tables.buses) : (regrouped tables groups).Refines tables Eq where
  find specs := by
    rintro world _ rfl
    have found : (HwioBusComposite (regrouped tables groups).buses).findDevices specs world =
        (HwioBusComposite tables.buses).findDevices specs world := by
      rw [← same]
      exact compositeLoop_groups specs groups [] world
    rw [found]
    exact ⟨rfl, rfl⟩
  attach _ := respects_eq _
  read _ _ _ := respects_eq _
  write _ _ _ := respects_eq _
  plugins name := by
    show Option.Rel _ (tables.findPlugin name) (tables.findPlugin name)
    cases tables.findPlugin name with
    | none => exact .none
    | some plugin => exact .some plugin.refines_self
  pluginsFast := by
    show List.Forall₂ _ tables.pluginsFast tables.pluginsFast
    exact List.forall₂_same.mpr fun plugin _ => plugin.refines_self
  pluginsFastNames := rfl

/-- Merging the buses of a server into composite buses, in whatever groups,
changes nothing in any run but the lookups on single buses. -/
theorem buses_regrouped (tables : Tables World) {groups : List (List (IhwioBus World))}
    (same : groups.flatten = tables.buses) (world : World) (master : Fd) (tx : List Byte)
    {systems : List Sys} (deaf : ∀ sys ∈ systems, sys.Deaf) :
    Agreeing (Alike Eq) (serve systems (prepared (regrouped tables groups) master tx world))
      (serve systems (prepared tables master tx world)) :=
  serve_respects deaf _ _ (prepared_alike (regrouped_refines tables same) rfl master tx)

/-! ## Two buses -/

theorem openFds_heard (history : List Event) : openFds (heard history) = openFds history := by
  have steps : ∀ fds, (heard history).foldl openFdsStep fds = history.foldl openFdsStep fds := by
    induction history with
    | nil => exact fun _ => rfl
    | cons event rest inductionHypothesis =>
        intro fds
        by_cases lookup : event.isFind = true
        · have unheard : heard (event :: rest) = heard rest :=
            List.filter_cons_of_neg (by simp [lookup])
          have open' : openFdsStep fds event = fds := by
            cases event with
            | called client call => rfl
            | _ => cases lookup
          rw [unheard, inductionHypothesis, List.foldl_cons, open']
        · have told : heard (event :: rest) = event :: heard rest :=
            List.filter_cons_of_pos (by simp [lookup])
          rw [told, List.foldl_cons, inductionHypothesis, List.foldl_cons]
  exact steps []

theorem loneClient_deaf (bytes : List Byte) : (loneClient bytes).Deaf where
  ppoll _ := rfl
  accept told := by
    show (if _ then _ else _) = if _ then _ else _
    rw [← openFds_heard, told, openFds_heard]
  recv _ := rfl
  send _ := rfl
  newBuffer _ := rfl
  freedFd _ := rfl

/-- A bus that finds one device for every query. -/
def busOf (dev : DevPtr) : IhwioBus Unit := ⟨fun _ world => (.ok [dev], world)⟩

def twoBuses : Tables Unit := { bareTables with buses := [busOf 0, busOf 1] }

/-- A client that connects and queries gets the same answer of two buses and of
their composite bus. -/
theorem two_buses_in_one :
    Agreeing (Alike Eq)
      (serve [loneClient queryFrame, loneClient queryFrame]
        (prepared (regrouped twoBuses [[busOf 0, busOf 1]]) 3 [] ()))
      (serve [loneClient queryFrame, loneClient queryFrame] (prepared twoBuses 3 [] ())) :=
  servers_refine (regrouped_refines twoBuses rfl) rfl 3 [] fun sys member => by
    have lone : sys = loneClient queryFrame := by simpa using member
    exact lone ▸ loneClient_deaf queryFrame

/-- So it does when each bus is in a composite bus of its own. -/
theorem two_buses_apart :
    Agreeing (Alike Eq)
      (serve [loneClient queryFrame, loneClient queryFrame]
        (prepared (regrouped twoBuses [[busOf 0], [busOf 1]]) 3 [] ()))
      (serve [loneClient queryFrame, loneClient queryFrame] (prepared twoBuses 3 [] ())) :=
  buses_regrouped twoBuses rfl () 3 [] fun sys member => by
    have lone : sys = loneClient queryFrame := by simpa using member
    exact lone ▸ loneClient_deaf queryFrame

end HwioServer

end Hwio
