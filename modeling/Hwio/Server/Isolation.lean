import Hwio.Library.History
import Hwio.Server.Registration
import Hwio.Server.Requests

/-!
Contract: which devices the requests of a connection reach.

Owns the effect of one request on devices, and the isolation of connections in
every run, however its passes end and whichever descriptors are reused.

Does not own the consistency of the client tables.
-/

namespace Hwio

open Library

variable {World : Type}

/-! ## One request -/

/-- The device that a call reads, writes or hands to a plugin. -/
def Call.target : Call → Option DevPtr
  | .read dev _ _ => some dev
  | .write dev _ _ => some dev
  | .plugin _ dev _ => some dev
  | _ => none

/-- A request reaches only devices of the client, and the client gains only
devices that the request found. -/
structure Confined (ctx : Ctx World) (left : Ctx World) : Prop where
  targets : ∀ call ∈ left.calls, ∀ dev, call.target = some dev → some dev ∈ ctx.devices
  gains : ∀ dev, some dev ∈ left.devices → some dev ∈ ctx.devices ∨ dev ∈ foundIn left.calls

/-- A request that keeps the device list and makes at most one call, on a
device of the client. -/
structure OnOwn (ctx : Ctx World) (left : Ctx World) : Prop where
  devices : left.devices = ctx.devices
  calls : left.calls = [] ∨
    ∃ call dev, left.calls = [call] ∧ call.target = some dev ∧ some dev ∈ ctx.devices

theorem OnOwn.confined {ctx left : Ctx World} (own : OnOwn ctx left) : Confined ctx left where
  targets call member dev target := by
    rcases own.calls with none | ⟨made, dev', one, target', owned⟩
    · rw [none] at member
      cases member
    · rw [one, List.mem_singleton] at member
      rw [member, target'] at target
      cases target
      exact owned
  gains dev member := by
    rw [own.devices] at member
    exact Or.inl member

theorem onOwn_quiet {ctx left : Ctx World} (calls : left.calls = [])
    (devices : left.devices = ctx.devices) : OnOwn ctx left :=
  ⟨devices, Or.inl calls⟩

theorem onOwn_one {ctx left : Ctx World} {call : Call} {dev : DevPtr}
    (calls : left.calls = [call]) (target : call.target = some dev)
    (owned : some dev ∈ ctx.devices) (devices : left.devices = ctx.devices) : OnOwn ctx left :=
  ⟨devices, Or.inr ⟨call, dev, calls, target, owned⟩⟩

theorem handleRead_onOwn (tables : Tables World) (header : HwioPacketHeader)
    {ctx : Ctx World} (fresh : ctx.calls = []) :
    OnOwn ctx (handleRead tables header ctx).2 := by
  unfold handleRead
  split
  · exact onOwn_quiet fresh rfl
  simp only
  split
  · exact onOwn_quiet fresh rfl
  next dev resolved =>
    have one : ∀ left : Ctx World, left.calls = ctx.calls ++ [.read dev (loadU32 ctx.rx 2)
        (loadU16 ctx.rx 6).toNat] → left.devices = ctx.devices → OnOwn ctx left := by
      intro left calls devices
      rw [fresh, List.nil_append] at calls
      exact onOwn_one calls rfl (clientGetDev_mem resolved) devices
    split
    · exact one _ rfl rfl
    · split
      · exact one _ rfl rfl
      · exact one _ rfl rfl

theorem handleWrite_onOwn (tables : Tables World) (header : HwioPacketHeader)
    {ctx : Ctx World} (fresh : ctx.calls = []) :
    OnOwn ctx (handleWrite tables header ctx).2 := by
  unfold handleWrite
  split
  · exact onOwn_quiet fresh rfl
  simp only
  split
  · exact onOwn_quiet fresh rfl
  split
  · exact onOwn_quiet fresh rfl
  next dev resolved =>
    have one : ∀ left : Ctx World, left.calls = ctx.calls ++ [.write dev (loadU32 ctx.rx 2)
        (load ctx.rx sizeofWrReq (loadU16 ctx.rx 6).toNat)] → left.devices = ctx.devices →
          OnOwn ctx left := by
      intro left calls devices
      rw [fresh, List.nil_append] at calls
      exact onOwn_one calls rfl (clientGetDev_mem resolved) devices
    split
    · exact one _ rfl rfl
    · exact one _ rfl rfl

theorem callPlugin_onOwn (plugin : PluginInfo World) (key : PluginKey) {dev : DevPtr}
    (argsOffset : Nat) {ctx : Ctx World} (fresh : ctx.calls = [])
    (owned : some dev ∈ ctx.devices) :
    OnOwn ctx (callPlugin plugin key dev argsOffset ctx).2 := by
  have one : ∀ left : Ctx World, left.calls = ctx.calls ++ [.plugin key dev
      (load ctx.rx argsOffset plugin.argsSize)] → left.devices = ctx.devices →
        OnOwn ctx left := by
    intro left calls devices
    rw [fresh, List.nil_append] at calls
    exact onOwn_one calls rfl owned devices
  unfold callPlugin
  simp only
  split
  · split
    · exact one _ rfl rfl
    · exact one _ rfl rfl
  · split
    · exact one _ rfl rfl
    · exact one _ rfl rfl

theorem handleRemoteCall_onOwn (tables : Tables World) (header : HwioPacketHeader)
    {ctx : Ctx World} (fresh : ctx.calls = []) :
    OnOwn ctx (handleRemoteCall tables header ctx).2 := by
  unfold handleRemoteCall
  split
  · exact onOwn_quiet fresh rfl
  split
  · exact onOwn_quiet fresh rfl
  next dev resolved =>
    simp only
    split
    · exact onOwn_quiet fresh rfl
    · exact callPlugin_onOwn _ _ _ fresh (clientGetDev_mem resolved)

theorem handleFastRemoteCall_onOwn (tables : Tables World) (header : HwioPacketHeader)
    {ctx : Ctx World} (fresh : ctx.calls = []) :
    OnOwn ctx (handleFastRemoteCall tables header ctx).2 := by
  unfold handleFastRemoteCall
  split
  · exact onOwn_quiet fresh rfl
  split
  · exact onOwn_quiet fresh rfl
  next dev resolved =>
    simp only
    split
    · exact onOwn_quiet fresh rfl
    · exact callPlugin_onOwn _ _ _ fresh (clientGetDev_mem resolved)

theorem handleGetRpcFnId_onOwn (tables : Tables World) (header : HwioPacketHeader)
    {ctx : Ctx World} (fresh : ctx.calls = []) :
    OnOwn ctx (handleGetRpcFnId tables header ctx).2 := by
  unfold handleGetRpcFnId
  split
  · exact onOwn_quiet fresh rfl
  simp only
  split
  · exact onOwn_quiet fresh rfl
  · split
    · exact onOwn_quiet fresh rfl
    · exact onOwn_quiet fresh rfl

/-- Registration adds only devices of the result. -/
theorem registerDevice_gains (tables : Tables World) (dev : DevPtr) (ctx : Ctx World)
    {other : DevPtr} (member : some other ∈ (registerDevice tables dev ctx).2.devices) :
    some other ∈ ctx.devices ∨ other = dev := by
  have placed : ∀ devId devices, placeDevice dev ctx.devices
      (searchSlot dev ctx.devices 0 none) = some (devId, devices) → some other ∈ devices →
        some other ∈ ctx.devices ∨ other = dev := by
    intro devId devices place member
    unfold placeDevice at place
    split at place
    · cases place
      rcases List.mem_or_eq_of_mem_set member with old | new
      · exact Or.inl old
      · exact Or.inr (Option.some.inj new)
    · split at place
      · cases place
        rcases List.mem_append.mp member with old | new
        · exact Or.inl old
        · exact Or.inr (Option.some.inj (List.mem_singleton.mp new))
      · cases place
  unfold registerDevice at member
  simp only at member
  split at member
  · exact Or.inl member
  · split at member
    · exact Or.inl member
    · next devId devices place =>
      split at member
      · exact placed devId devices place member
      · exact placed devId devices place member

theorem registerDevices_gains (tables : Tables World) (devs : List DevPtr) (i : Nat)
    (ctx : Ctx World) {other : DevPtr}
    (member : some other ∈ (registerDevices tables devs i ctx).2.devices) :
    some other ∈ ctx.devices ∨ other ∈ devs := by
  induction devs generalizing i ctx with
  | nil => exact Or.inl member
  | cons dev rest inductionHypothesis =>
      rw [registerDevices] at member
      have first : ∀ left, left = (registerDevice tables dev ctx).2 → some other ∈ left.devices →
          some other ∈ ctx.devices ∨ other ∈ dev :: rest := by
        rintro left rfl inside
        rcases registerDevice_gains tables dev ctx inside with old | same
        · exact Or.inl old
        · exact Or.inr (same ▸ List.mem_cons_self)
      rcases registering : registerDevice tables dev ctx with ⟨result, left⟩
      rw [registering] at member first
      cases result with
      | error stop => exact first left rfl member
      | ok devId =>
          rcases inductionHypothesis (i + 1) _ member with old | new
          · exact first left rfl old
          · exact Or.inr (List.mem_cons_of_mem _ new)

/-- The registration of what was found gains no other device. -/
theorem registering_confined (tables : Tables World) {ctx : Ctx World} (fresh : ctx.calls = [])
    {world : World} {finds : List Call} {found : List DevPtr} (onlyFind : OnlyFind finds)
    (results : foundIn finds = found) :
    Confined ctx (registerDevices tables found 0 (ctx.registering world finds)).2 := by
  obtain ⟨attached, onlyAttach, calls⟩ := registering_calls tables found ctx world finds
  rw [fresh, List.nil_append] at calls
  refine ⟨fun call member dev target => ?_, fun dev member => ?_⟩
  · rw [calls] at member
    rcases List.mem_append.mp member with lookup | attach
    · obtain ⟨bus, specs, result, rfl⟩ := onlyFind call lookup
      cases target
    · obtain ⟨other, rfl⟩ := onlyAttach call attach
      cases target
  · rcases registerDevices_gains tables found 0 (ctx.registering world finds) member with old | new
    · exact Or.inl old
    · right
      rw [calls, foundIn_append, results]
      exact List.mem_append_left _ new

theorem handleQuery_confined (tables : Tables World) (header : HwioPacketHeader)
    {ctx : Ctx World} (fresh : ctx.calls = []) :
    Confined ctx (handleQuery tables header ctx).2 := by
  have queried := handleQuery_queried tables header ctx
  generalize handleQuery tables header ctx = answer at queried ⊢
  cases queried with
  | refused code message early =>
      apply OnOwn.confined
      exact onOwn_quiet fresh rfl
  | @thrown exn world finds onlyFind looking =>
      refine ⟨fun call member dev target => ?_, fun dev member => Or.inl member⟩
      rw [fresh, List.nil_append] at member
      obtain ⟨bus, specs, result, rfl⟩ := onlyFind call member
      cases target
  | @stopped world finds found stop last onlyFind looking results registered =>
      have confined := @registering_confined _ tables ctx fresh world _ _ onlyFind results
      rw [registered] at confined
      exact confined
  | @answered world finds found last onlyFind looking results registered =>
      have confined := @registering_confined _ tables ctx fresh world _ _ onlyFind results
      rw [registered] at confined
      exact confined

theorem handlePing_onOwn (header : HwioPacketHeader) {ctx : Ctx World} (fresh : ctx.calls = []) :
    OnOwn ctx (handlePing header ctx).2 := by
  unfold handlePing
  split
  · exact onOwn_quiet fresh rfl
  · exact onOwn_quiet fresh rfl

/-- Every request but a query only works on devices that the client has. -/
theorem handleMsg_onOwn (tables : Tables World) {header : HwioPacketHeader}
    (noQuery : HwioCmd.ofCode header.command ≠ some .query) {ctx : Ctx World}
    (fresh : ctx.calls = []) : OnOwn ctx (handleMsg tables header ctx).2 := by
  unfold handleMsg
  rcases command : HwioCmd.ofCode header.command with _ | cmd
  · exact onOwn_quiet fresh rfl
  cases cmd with
  | remoteCallFast => exact handleFastRemoteCall_onOwn tables header fresh
  | read => exact handleRead_onOwn tables header fresh
  | write => exact handleWrite_onOwn tables header fresh
  | remoteCall => exact handleRemoteCall_onOwn tables header fresh
  | pingRequest => exact handlePing_onOwn header fresh
  | query => exact absurd command noQuery
  | getRemoteCallId => exact handleGetRpcFnId_onOwn tables header fresh
  | bye | msg => exact onOwn_quiet fresh rfl
  | readResp | pingReply | queryResp | remoteCallRet => exact onOwn_quiet fresh rfl

theorem handleMsg_query (tables : Tables World) {header : HwioPacketHeader}
    (query : HwioCmd.ofCode header.command = some .query) (ctx : Ctx World) :
    handleMsg tables header ctx = handleQuery tables header ctx := by
  unfold handleMsg
  rw [query]

theorem handleMsg_confined (tables : Tables World) (header : HwioPacketHeader)
    {ctx : Ctx World} (fresh : ctx.calls = []) :
    Confined ctx (handleMsg tables header ctx).2 := by
  by_cases query : HwioCmd.ofCode header.command = some .query
  · rw [handleMsg_query tables query]
    exact handleQuery_confined tables header fresh
  · exact (handleMsg_onOwn tables query fresh).confined

/-! ## Runs -/

/-- The connection was made in the history. -/
def Connected (history : List Event) (client : ClientPtr) : Prop :=
  ∃ earlier middle fd, history = earlier ++ .created client fd :: middle

/-- Since the connection was made, one of its requests found the device. -/
def Matched (history : List Event) (client : ClientPtr) (dev : DevPtr) : Prop :=
  ∃ earlier middle fd, history = earlier ++ .created client fd :: middle ∧
    ∃ bus specs found, .called client (.find bus specs (some found)) ∈ middle ∧ dev ∈ found

/-- A device is reached only after it was matched. -/
def Permitted (front : List Event) : Event → Prop
  | .called client call => ∀ dev, call.target = some dev → Matched front client dev
  | _ => True

theorem Connected.append {history : List Event} {client : ClientPtr}
    (connected : Connected history client) (later : List Event) :
    Connected (history ++ later) client := by
  obtain ⟨earlier, middle, fd, rfl⟩ := connected
  exact ⟨earlier, middle ++ later, fd, by simp⟩

theorem Matched.append {history : List Event} {client : ClientPtr} {dev : DevPtr}
    (matched : Matched history client dev) (later : List Event) :
    Matched (history ++ later) client dev := by
  obtain ⟨earlier, middle, fd, rfl, bus, specs, found, member, inside⟩ := matched
  exact ⟨earlier, middle ++ later, fd, by simp, bus, specs, found,
    List.mem_append_left _ member, inside⟩

/-- A lookup of a connection matches its result. -/
theorem Connected.matched {history : List Event} {client : ClientPtr}
    (connected : Connected history client) {later : List Event} {bus : Nat}
    {specs : List HwioCompSpec} {found : List DevPtr} {dev : DevPtr}
    (looked : .called client (.find bus specs (some found)) ∈ later) (inside : dev ∈ found) :
    Matched (history ++ later) client dev := by
  obtain ⟨earlier, middle, fd, rfl⟩ := connected
  exact ⟨earlier, middle ++ later, fd, by simp, bus, specs, found,
    List.mem_append_right _ looked, inside⟩

theorem permitted_monotone (front more : List Event) (event : Event)
    (permitted : Permitted front event) : Permitted (front ++ more) event := by
  cases event with
  | called client call => exact fun dev target => (permitted dev target).append more
  | _ => exact trivial

theorem mem_foundIn {calls : List Call} {dev : DevPtr} (member : dev ∈ foundIn calls) :
    ∃ bus specs found, .find bus specs (some found) ∈ calls ∧ dev ∈ found := by
  obtain ⟨call, inside, result⟩ := List.mem_flatMap.mp member
  cases call with
  | find bus specs found =>
      cases found with
      | none => cases result
      | some found => exact ⟨bus, specs, found, inside, result⟩
  | _ => cases result

namespace HwioServer

/-- The live connections were made in the run, have only devices that they
found, and no device was reached before it was found. -/
structure Isolated (server : HwioServer World) : Prop where
  connected : ∀ client record, server.heap client = some record → Connected server.trace client
  matched : ∀ client record, server.heap client = some record →
    ∀ dev, some dev ∈ record.devices → Matched server.trace client dev
  permitted : Justified Permitted server.trace

/-- The invariant is kept by events that reach no device, when the live records
keep their devices or start with none. -/
theorem Isolated.extend {before after : HwioServer World} (isolated : Isolated before)
    {events : List Event} (trace : after.trace = before.trace ++ events)
    (quiet : ∀ event ∈ events, Permitted before.trace event)
    (records : ∀ client record, after.heap client = some record →
      (∃ old, before.heap client = some old ∧ record.devices = old.devices) ∨
        (∃ fd, .created client fd ∈ events) ∧ record.devices = []) :
    Isolated after := by
  refine ⟨fun client record live => ?_, fun client record live dev member => ?_, ?_⟩
  · rw [trace]
    rcases records client record live with ⟨old, same, _⟩ | ⟨⟨fd, made⟩, _⟩
    · exact (isolated.connected client old same).append events
    · obtain ⟨front, back, split⟩ := List.append_of_mem made
      exact ⟨before.trace ++ front, back, fd, by rw [split, List.append_assoc]⟩
  · rw [trace]
    rcases records client record live with ⟨old, same, devices⟩ | ⟨_, devices⟩
    · rw [devices] at member
      exact (isolated.matched client old same dev member).append events
    · rw [devices] at member
      cases member
  · rw [trace]
    exact isolated.permitted.append permitted_monotone quiet

theorem Step.isolated {sys : Sys} {before after : HwioServer World} (step : Step sys before after)
    (isolated : Isolated before) : Isolated after := by
  cases step with
  | noted event notice =>
      apply isolated.extend (show _ = before.trace ++ [event] from rfl)
      · intro other member
        rw [List.mem_singleton.mp member]
        cases event <;> first | exact trivial | exact absurd notice id
      · exact fun client record live => Or.inl ⟨record, live, rfl⟩
  | allocated socket =>
      apply isolated.extend (show _ = before.trace ++ [.created before.nextClient socket] from rfl)
      · intro other member
        rw [List.mem_singleton.mp member]
        exact trivial
      · intro client record live
        rcases allocClient_live live with ⟨rfl, rfl⟩ | ⟨_, there⟩
        · exact Or.inr ⟨⟨socket, List.mem_singleton.mpr rfl⟩, rfl⟩
        · exact Or.inl ⟨record, there, rfl⟩
  | listed socket client => exact ⟨isolated.connected, isolated.matched, isolated.permitted⟩
  | deleted client record live =>
      apply isolated.extend
        (show _ = before.trace ++ .removed client :: closeOnDelete record.fd from rfl)
      · intro event member
        rcases mem_deletion member with rfl | rfl
        · exact trivial
        · exact trivial
      · exact fun other left there => Or.inl ⟨left, (deleteClient_live there).2, rfl⟩
  | received client record live =>
      obtain ⟨events, rxBuffer, session, progress⟩ :=
        readFromSocket_session sys client (before.session record)
      rw [session]
      apply isolated.extend (show _ = before.trace ++ events from rfl)
      · intro event member
        cases progress event member <;> exact trivial
      · intro other left live'
        rcases putSession_live live' with ⟨rfl, rfl⟩ | ⟨_, there⟩
        · exact Or.inl ⟨record, live, rfl⟩
        · exact Or.inl ⟨left, there, rfl⟩
  | answered client record live complete =>
      obtain ⟨events, rxBuffer, session, progress⟩ :=
        handleFrame_session before.tables sys client (before.session record)
      have confined := handleMsg_confined before.tables
        (HwioPacketHeader.at (before.session record).client.rxBuffer.buffer
          (before.session record).client.rxBuffer.currPtr)
        (show (before.session record).request.calls = [] from rfl)
      rw [session]
      generalize (handleMsg before.tables (HwioPacketHeader.at
        (before.session record).client.rxBuffer.buffer
        (before.session record).client.rxBuffer.currPtr) (before.session record).request).2 =
          left at confined
      have calls : ∀ call ∈ left.calls, Permitted before.trace (.called client call) :=
        fun call member dev target =>
          isolated.matched client record live dev (confined.targets call member dev target)
      have connected := isolated.connected client record live
      refine ⟨fun other record' live' => ?_, fun other record' live' dev member => ?_, ?_⟩
      · rcases putSession_live live' with ⟨rfl, _⟩ | ⟨_, there⟩
        · exact connected.append _
        · exact (isolated.connected other record' there).append _
      · rcases putSession_live live' with ⟨rfl, rfl⟩ | ⟨_, there⟩
        · rcases confined.gains dev member with old | new
          · exact (isolated.matched other record live dev old).append _
          · obtain ⟨bus, specs, found, made, inside⟩ := mem_foundIn new
            have looked : Event.called other (.find bus specs (some found)) ∈
                left.calls.map (.called other) ++ events :=
              List.mem_append_left _ (List.mem_map_of_mem made)
            exact connected.matched (List.mem_cons_of_mem _ looked) inside
        · exact (isolated.matched other record' there dev member).append _
      · apply isolated.permitted.append permitted_monotone
        intro event member
        rcases List.mem_cons.mp member with rfl | later
        · exact trivial
        · rcases List.mem_append.mp later with call | last
          · obtain ⟨made, inside, rfl⟩ := List.mem_map.mp call
            exact calls made inside
          · cases progress event last <;> exact trivial
  | queued fd => exact ⟨isolated.connected, isolated.matched, isolated.permitted⟩
  | cleaned => exact ⟨isolated.connected, isolated.matched, isolated.permitted⟩

/-- A connection does nothing before it is made. -/
def MadeFirst (front : List Event) : Event → Prop
  | .created client _ => ∀ event ∈ front, actor event ≠ some client
  | _ => True

/-- Connections are numbered in the order in which they are made. -/
structure Numbered (server : HwioServer World) : Prop where
  live : ∀ client record, server.heap client = some record → client < server.nextClient
  acted : ∀ event ∈ server.trace, ∀ client, actor event = some client →
    client < server.nextClient
  madeFirst : Justified MadeFirst server.trace

/-- The numbering is kept by acts of live connections. -/
theorem Numbered.extend {before after : HwioServer World} (numbered : Numbered before)
    {events : List Event} (trace : after.trace = before.trace ++ events)
    (next : after.nextClient = before.nextClient)
    (acts : ∀ event ∈ events, (∀ client fd, event ≠ .created client fd) ∧
      ∀ client, actor event = some client → ∃ record, before.heap client = some record)
    (records : ∀ client record, after.heap client = some record →
      ∃ old, before.heap client = some old) : Numbered after := by
  refine ⟨fun client record live => ?_, fun event member client acting => ?_, ?_⟩
  · rw [next]
    obtain ⟨old, same⟩ := records client record live
    exact numbered.live client old same
  · rw [next]
    rw [trace] at member
    rcases List.mem_append.mp member with old | new
    · exact numbered.acted event old client acting
    · obtain ⟨record, live⟩ := (acts event new).2 client acting
      exact numbered.live client record live
  · rw [trace]
    apply numbered.madeFirst.append_free
    intro event member front
    have other := (acts event member).1
    cases event with
    | created client fd => exact absurd rfl (other client fd)
    | _ => exact trivial

theorem Step.numbered {sys : Sys} {before after : HwioServer World} (step : Step sys before after)
    (numbered : Numbered before) : Numbered after := by
  have progressed : ∀ {client : ClientPtr} {record : ClientInfo} {event : Event},
      before.heap client = some record → Progress client event →
        (∀ client fd, event ≠ .created client fd) ∧
          ∀ client, actor event = some client → ∃ record, before.heap client = some record := by
    intro client record event live progress
    cases progress <;> exact ⟨(fun _ _ impossible => by cases impossible),
      (fun other same => by cases same; exact ⟨record, live⟩)⟩
  have updated : ∀ {client other : ClientPtr} {record left : ClientInfo} {info : Option ClientInfo},
      before.heap client = some record → Function.update before.heap client info other = some left →
        ∃ old, before.heap other = some old := by
    intro client other record left info live found
    by_cases same : other = client
    · exact ⟨record, same ▸ live⟩
    · rw [Function.update_of_ne same] at found
      exact ⟨left, found⟩
  cases step with
  | noted event notice =>
      apply numbered.extend (show (note event before).trace = before.trace ++ [event] from rfl) rfl
      · intro other member
        rw [List.mem_singleton.mp member]
        cases event <;> first
          | exact absurd notice id
          | exact ⟨(fun _ _ impossible => by cases impossible), (fun _ same => by cases same)⟩
      · exact fun client record live => ⟨record, live⟩
  | allocated socket =>
      refine ⟨fun client record live => ?_, fun event member client acting => ?_, ?_⟩
      · show client < before.nextClient + 1
        rcases allocClient_live live with ⟨same, _⟩ | ⟨_, there⟩
        · rw [same]
          exact Nat.lt_succ_self _
        · exact Nat.lt_succ_of_lt (numbered.live client record there)
      · show client < before.nextClient + 1
        rcases List.mem_append.mp member with old | new
        · exact Nat.lt_succ_of_lt (numbered.acted event old client acting)
        · rw [List.mem_singleton.mp new] at acting
          cases acting
          exact Nat.lt_succ_self _
      · apply numbered.madeFirst.snoc
        intro event member acting
        exact Nat.lt_irrefl _ (numbered.acted event member _ acting)
  | deleted client record live =>
      apply numbered.extend
        (show (deleteClient client record before).trace =
          before.trace ++ .removed client :: closeOnDelete record.fd from rfl) rfl
      · intro event member
        rcases mem_deletion member with rfl | rfl
        · exact ⟨(fun _ _ impossible => by cases impossible),
            (fun other same => by cases same; exact ⟨record, live⟩)⟩
        · exact ⟨(fun _ _ impossible => by cases impossible), (fun _ same => by cases same)⟩
      · exact fun other left found => updated live found
  | received client record live =>
      obtain ⟨events, rxBuffer, session, progress⟩ :=
        readFromSocket_session sys client (before.session record)
      rw [session]
      apply numbered.extend (show (before.putSession client _).trace = before.trace ++ events from rfl) rfl
      · exact fun event member => progressed live (progress event member)
      · exact fun other left found => updated live found
  | answered client record live complete =>
      obtain ⟨events, rxBuffer, session, progress⟩ :=
        handleFrame_session before.tables sys client (before.session record)
      rw [session]
      apply numbered.extend (show (before.putSession client _).trace = before.trace ++ _ from rfl) rfl
      · intro event member
        have live' : ∀ other, some client = some other →
            ∃ record, before.heap other = some record := by
          intro other same
          cases same
          exact ⟨record, live⟩
        rcases List.mem_cons.mp member with rfl | later
        · exact ⟨(fun _ _ impossible => by cases impossible), live'⟩
        · rcases List.mem_append.mp later with call | last
          · obtain ⟨made, _, rfl⟩ := List.mem_map.mp call
            exact ⟨(fun _ _ impossible => by cases impossible), live'⟩
          · exact progressed live (progress event last)
      · exact fun other left found => updated live found
  | listed socket client => exact ⟨numbered.live, numbered.acted, numbered.madeFirst⟩
  | queued fd => exact ⟨numbered.live, numbered.acted, numbered.madeFirst⟩
  | cleaned => exact ⟨numbered.live, numbered.acted, numbered.madeFirst⟩

theorem Reached.numbered {tables : Tables World} {master : Fd} {tx : List Byte} {world : World}
    {server : HwioServer World} (reached : Reached (prepared tables master tx world) server) :
    Numbered server := by
  apply reached.invariant
  · refine ⟨fun client record live => ?_, fun event member client acting => ?_, ?_⟩
    · cases live
    · rw [List.mem_singleton.mp member] at acting
      cases acting
    · exact justified_singleton trivial
  · exact fun sys before after step numbered => step.numbered numbered

theorem Reached.isolated {tables : Tables World} {master : Fd} {tx : List Byte} {world : World}
    {server : HwioServer World} (reached : Reached (prepared tables master tx world) server) :
    Isolated server := by
  apply reached.invariant
  · refine ⟨fun client record live => ?_, fun client record live => ?_, ?_⟩
    · cases live
    · cases live
    · apply justified_nil.append permitted_monotone
      intro event member
      rw [List.mem_singleton.mp member]
      exact trivial
  · exact fun sys before after step isolated => step.isolated isolated

/-- In every run: a read, a write or a plugin call for a connection is on a
device that a lookup for that connection returned after it was made; a new
connection has done nothing before and has no device, whatever slot or
descriptor it got; and a request leaves the device lists of all other
connections as they are.  Replies are taken to fit `tx_buffer`. -/
theorem connections_isolated {tables : Tables World} {master : Fd} {tx : List Byte}
    {world : World} {server : HwioServer World}
    (reached : Reached (prepared tables master tx world) server) :
    let state := (prepared tables master tx world).service.after tables
    server.service = state server.trace ∧
      (∀ front client call back dev, server.trace = front ++ .called client call :: back →
        call.target = some dev →
          ∃ earlier middle fd, front = earlier ++ .created client fd :: middle ∧
            ∃ bus specs found, .called client (.find bus specs (some found)) ∈ middle ∧
              dev ∈ found) ∧
      (∀ front client fd back, server.trace = front ++ .created client fd :: back →
        (∀ event ∈ front, actor event ≠ some client) ∧
          (state (front ++ [.created client fd])).devices client = some []) ∧
      ∀ front client offset header rx back other,
        server.trace = front ++ .dispatched client offset header rx :: back → other ≠ client →
          (state (front ++ [.dispatched client offset header rx])).devices other =
            (state front).devices other := by
  intro state
  refine ⟨reached.service_prepared, ?_, ?_, ?_⟩
  · intro front client call back dev split target
    exact reached.isolated.permitted front _ back split dev target
  · intro front client fd back split
    refine ⟨reached.numbered.madeFirst front _ back split, ?_⟩
    show ((prepared tables master tx world).service.after tables _).devices client = some []
    rw [Service.after_append]
    exact Function.update_self ..
  · intro front client offset header rx back other _ apart
    show ((prepared tables master tx world).service.after tables _).devices other = _
    rw [Service.after_append]
    exact Function.update_of_ne apart _ _

theorem queried_read_isolated :
    let server := loneRun oneDevice [] () (queryFrame ++ [1, 8, 0, 0, 0, 0, 0, 0, 0, 4, 0])
    ∃ earlier middle fd, server.trace.take 12 = earlier ++ .created 0 fd :: middle ∧
      ∃ bus specs found, Event.called 0 (.find bus specs (some found)) ∈ middle ∧ 0 ∈ found := by
  intro server
  have split : server.trace = server.trace.take 12 ++ .called 0 (.read 0 0 4) ::
      server.trace.drop 13 := by decide +kernel
  exact (connections_isolated (loneRun_reached ..)).2.1 _ 0 (.read 0 0 4) _ 0 split rfl

end HwioServer

end Hwio
