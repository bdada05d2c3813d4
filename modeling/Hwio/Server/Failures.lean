import Hwio.Server.Registration
import Hwio.Server.ReplyFrame

/-!
Contract: which call of a request throws, and what becomes of the exception.

Owns the replay of the calls of a request on the devices, and the two ways in
which a request ends whose call threw: with an error reply, or with the
exception.

Does not own passes.
-/

namespace Hwio

open Library

variable {World : Type}

/-! ## Calls made again -/

/-- The calls that are made under `catch (std::runtime_error &)`. -/
def Call.caught : Call → Bool
  | .read .. | .plugin .. => true
  | .find .. | .attach _ | .write .. => false

/-- The plugin that was called. -/
def Tables.pluginOf (tables : Tables World) : PluginKey → Option (PluginInfo World)
  | .name name => tables.findPlugin name
  | .id id => tables.pluginsFast[id.toNat]?

/-- What a call throws, and the world it leaves. -/
def Call.run (tables : Tables World) (world : World) : Call → Option Exn × World
  | .find index specs _ =>
    match tables.buses[index]? with
    | none => (none, world)
    | some bus =>
      match bus.findDevices specs world with
      | (.error exn, world) => (some exn, world)
      | (.ok _, world) => (none, world)
  | .attach dev => (tables.device dev).attach world
  | .read dev addr count =>
    let result := (tables.device dev).read addr count world
    (result.1.thrown, result.2)
  | .write dev addr bytes => (tables.device dev).write addr bytes world
  | .plugin key dev args =>
    match tables.pluginOf key with
    | none => (none, world)
    | some info =>
      let result := info.fn dev args world
      (result.1.thrown, result.2)

/-- The first of some calls that throws, and the world that the calls leave. -/
def runCalls (tables : Tables World) : List Call → World → Option (Call × Exn) × World
  | [], world => (none, world)
  | call :: rest, world =>
      match call.run tables world with
      | (some exn, world) => (some (call, exn), world)
      | (none, world) => runCalls tables rest world

/-- The call that throws when calls are made in turn, and its exception. -/
def failing (tables : Tables World) (calls : List Call) (world : World) : Option (Call × Exn) :=
  (runCalls tables calls world).1

theorem runCalls_append (tables : Tables World) (first second : List Call) {world between : World}
    (quiet : runCalls tables first world = (none, between)) :
    runCalls tables (first ++ second) world = runCalls tables second between := by
  induction first generalizing world with
  | nil =>
      cases quiet
      rfl
  | cons call rest inductionHypothesis =>
      rw [runCalls] at quiet
      rw [List.cons_append, runCalls]
      rcases ran : call.run tables world with ⟨exn, left⟩
      rw [ran] at quiet
      cases exn with
      | none => exact inductionHypothesis quiet
      | some exn => cases quiet

theorem runCalls_singleton (tables : Tables World) (call : Call) (world : World) :
    runCalls tables [call] world =
      ((call.run tables world).1.map (call, ·), (call.run tables world).2) := by
  rw [runCalls]
  rcases call.run tables world with ⟨exn, left⟩
  cases exn <;> rfl

/-- The calls tell how a computation without `catch` ends: with the exception of
the call that throws, or without exception in the world that the calls leave. -/
structure Uncaught {α : Type} (tables : Tables World) (world : World) (calls : List Call)
    (result : Except Stop α) (left : World) : Prop where
  quiet : (∀ exn, result ≠ .error (.thrown exn)) → runCalls tables calls world = (none, left)
  thrown : ∀ exn, result = .error (.thrown exn) →
    ∃ call, call.caught = false ∧ failing tables calls world = some (call, exn)

theorem Uncaught.nil {α : Type} (tables : Tables World) (world : World) (result : α) :
    Uncaught tables world [] (.ok result) world where
  quiet _ := rfl
  thrown := nofun

/-- Another result with the same exception. -/
theorem Uncaught.map {α β : Type} {tables : Tables World} {world left : World} {calls : List Call}
    {result : Except Stop α} {other : Except Stop β} (uncaught : Uncaught tables world calls result left)
    (same : ∀ exn, other = .error (.thrown exn) ↔ result = .error (.thrown exn)) :
    Uncaught tables world calls other left where
  quiet returns := uncaught.quiet fun exn threw => returns exn ((same exn).mpr threw)
  thrown exn threw := uncaught.thrown exn ((same exn).mp threw)

/-- A call and what is done after it returned. -/
theorem Uncaught.append {α β : Type} {tables : Tables World} {world between left : World}
    {first second : List Call} {result : α} {other : Except Stop β}
    (earlier : Uncaught tables world first (.ok result) between)
    (later : Uncaught tables between second other left) :
    Uncaught tables world (first ++ second) other left := by
  have quiet : runCalls tables first world = (none, between) := earlier.quiet nofun
  constructor
  · intro returns
    rw [runCalls_append tables first second quiet]
    exact later.quiet returns
  · intro exn threw
    obtain ⟨call, caught, failed⟩ := later.thrown exn threw
    refine ⟨call, caught, ?_⟩
    rw [failing, runCalls_append tables first second quiet]
    exact failed

/-- A single call. -/
theorem Uncaught.single {α : Type} {tables : Tables World} {world : World} {call : Call}
    (uncaught : call.caught = false) {result : Except Stop α}
    (same : ∀ exn, result = .error (.thrown exn) ↔ (call.run tables world).1 = some exn) :
    Uncaught tables world [call] result (call.run tables world).2 where
  quiet returns := by
    have returned : (call.run tables world).1 = none := by
      cases threw : (call.run tables world).1 with
      | none => rfl
      | some exn => exact absurd ((same exn).mpr threw) (returns exn)
    rw [runCalls_singleton, returned]
    rfl
  thrown exn threw := by
    refine ⟨call, uncaught, ?_⟩
    rw [failing, runCalls_singleton, (same exn).mp threw]
    rfl

/-! ## The lookup and the registration -/

theorem findOnBuses_uncaught (tables : Tables World) (specs : List HwioCompSpec)
    (earlier buses : List (IhwioBus World)) (all : tables.buses = earlier ++ buses)
    (ctx : Ctx World) :
    ∃ calls, (findOnBuses specs buses earlier.length ctx).2.calls = ctx.calls ++ calls ∧
      Uncaught tables ctx.world calls (findOnBuses specs buses earlier.length ctx).1
        (findOnBuses specs buses earlier.length ctx).2.world := by
  induction buses generalizing earlier ctx with
  | nil => exact ⟨[], (List.append_nil _).symm, .nil tables ctx.world []⟩
  | cons bus rest inductionHypothesis =>
      have here : tables.buses[earlier.length]? = some bus := by
        rw [all, List.getElem?_append_right (Nat.le_refl _), Nat.sub_self]
        rfl
      rw [findOnBuses]
      rcases looking : bus.findDevices specs ctx.world with ⟨result, world⟩
      cases result with
      | error exn =>
          have ran : (Call.find earlier.length specs none).run tables ctx.world =
              (some exn, world) := by
            simp only [Call.run, here, looking]
          have single := @Uncaught.single World (List DevPtr) tables ctx.world
            (.find earlier.length specs none) rfl (.error (.thrown exn)) (by simp [ran])
          rw [ran] at single
          exact ⟨_, rfl, single⟩
      | ok found =>
          have ran : (Call.find earlier.length specs (some found)).run tables ctx.world =
              (none, world) := by
            simp only [Call.run, here, looking]
          have single := @Uncaught.single World Unit tables ctx.world
            (.find earlier.length specs (some found)) rfl (.ok ()) (by simp [ran])
          rw [ran] at single
          have going := inductionHypothesis (earlier ++ [bus]) (by rw [all, List.append_cons])
            ⟨ctx.rx, ctx.tx, ctx.devices, world,
              ctx.calls ++ [.find earlier.length specs (some found)]⟩
          rw [List.length_append, List.length_singleton] at going
          obtain ⟨calls, trace, later⟩ := going
          simp only
          rcases lookingOn : findOnBuses specs rest (earlier.length + 1)
            ⟨ctx.rx, ctx.tx, ctx.devices, world,
              ctx.calls ++ [.find earlier.length specs (some found)]⟩ with ⟨result, last⟩
          rw [lookingOn] at trace later ⊢
          refine ⟨.find earlier.length specs (some found) :: calls, ?_, ?_⟩
          · cases result with
            | error stop => exact trace.trans (List.append_assoc ..)
            | ok more => exact trace.trans (List.append_assoc ..)
          · have both := single.append later
            cases result with
            | error stop => exact both.map fun exn => by simp
            | ok more => exact both.map fun exn => by simp

theorem registerDevice_uncaught (tables : Tables World) (dev : DevPtr) (ctx : Ctx World) :
    ∃ calls, (registerDevice tables dev ctx).2.calls = ctx.calls ++ calls ∧
      Uncaught tables ctx.world calls (registerDevice tables dev ctx).1
        (registerDevice tables dev ctx).2.world := by
  have none : ∀ result : Except Stop UInt16, (∀ exn, result ≠ .error (.thrown exn)) →
      ∃ calls, ctx.calls = ctx.calls ++ calls ∧
        Uncaught tables ctx.world calls result ctx.world := by
    intro result quiet
    exact ⟨[], (List.append_nil _).symm, fun _ => rfl, fun exn threw => absurd threw (quiet exn)⟩
  unfold registerDevice
  simp only
  split
  · exact none _ nofun
  split
  · exact none _ nofun
  · rename_i devId devices place
    have same : ∀ (result : Except Stop UInt16), (∀ exn, result = .error (.thrown exn) ↔
        ((tables.device dev).attach ctx.world).1 = some exn) →
        Uncaught tables ctx.world [.attach dev] result ((tables.device dev).attach ctx.world).2 :=
      fun result same => @Uncaught.single _ _ tables ctx.world (.attach dev) rfl result same
    split
    next returned => exact ⟨_, rfl, same _ (by simp [returned])⟩
    next exn threw => exact ⟨_, rfl, same _ (by simp [threw])⟩

theorem registerDevices_uncaught (tables : Tables World) (devs : List DevPtr) (i : Nat)
    (ctx : Ctx World) :
    ∃ calls, (registerDevices tables devs i ctx).2.calls = ctx.calls ++ calls ∧
      Uncaught tables ctx.world calls (registerDevices tables devs i ctx).1
        (registerDevices tables devs i ctx).2.world := by
  induction devs generalizing i ctx with
  | nil => exact ⟨[], (List.append_nil _).symm, .nil tables ctx.world ()⟩
  | cons dev rest inductionHypothesis =>
      obtain ⟨first, trace, earlier⟩ := registerDevice_uncaught tables dev ctx
      rw [registerDevices]
      rcases registering : registerDevice tables dev ctx with ⟨result, left⟩
      rw [registering] at trace earlier
      cases result with
      | error stop => exact ⟨first, trace, earlier.map fun exn => by simp⟩
      | ok devId =>
          obtain ⟨more, trace', later⟩ := inductionHypothesis (i + 1) { left with
            tx := store (setBodyLen left.tx ((replyHeader left.tx).bodyLen.toNat + sizeofDevId))
              (sizeofHeader + sizeofDevId * i) (u16Bytes devId) }
          refine ⟨first ++ more, ?_, earlier.append later⟩
          rw [trace', show left.calls = _ from trace, List.append_assoc]

theorem deviceLookupResp_uncaught (tables : Tables World) (count : Nat) {ctx : Ctx World}
    (fresh : ctx.calls = []) :
    Uncaught tables ctx.world (deviceLookupResp tables count ctx).2.calls
      (deviceLookupResp tables count ctx).1 (deviceLookupResp tables count ctx).2.world := by
  unfold deviceLookupResp
  simp only
  generalize extractSpecFromClientQuery ctx.rx count = specs
  obtain ⟨first, trace, earlier⟩ := findOnBuses_uncaught tables specs [] tables.buses rfl
    { ctx with tx := setCommand ctx.tx .queryResp }
  rw [show ([] : List (IhwioBus World)).length = 0 from rfl] at trace earlier
  rcases looking : findOnBuses specs tables.buses 0
    { ctx with tx := setCommand ctx.tx .queryResp } with ⟨result, left⟩
  rw [looking] at trace earlier
  simp only [fresh, List.nil_append] at trace
  subst trace
  cases result with
  | error stop => exact earlier.map fun exn => by simp
  | ok devs =>
      simp only
      obtain ⟨more, trace, later⟩ := registerDevices_uncaught tables devs 0
        { left with tx := setBodyLen left.tx 0 }
      rcases registering : registerDevices tables devs 0
        { left with tx := setBodyLen left.tx 0 } with ⟨result, last⟩
      rw [registering] at trace later
      simp only at trace
      have both := earlier.append later
      rw [← trace] at both
      cases result with
      | error stop => exact both.map fun exn => by simp
      | ok done => exact both.map fun exn => by simp

/-! ## Requests -/

/-- What becomes of the call of a request that throws: a run-time error of a
call under `catch` is answered with an error; anything else leaves the request. -/
def Handles (tables : Tables World) (world : World) (answer : Handled World) : Prop :=
  match failing tables answer.2.calls world with
  | none => ∀ exn, answer.1 ≠ .error (.thrown exn)
  | some (call, exn) =>
    if call.caught ∧ exn.isRuntimeError then
      ∃ (left : Ctx World) (msg : Text), answer = left.sendErr .ioError msg
    else answer.1 = .error (.thrown exn)

theorem Uncaught.handles {tables : Tables World} {world : World} {answer : Handled World}
    (uncaught : Uncaught tables world answer.2.calls answer.1 answer.2.world) :
    Handles tables world answer := by
  unfold Handles
  by_cases thrown : ∃ exn, answer.1 = .error (.thrown exn)
  · obtain ⟨exn, threw⟩ := thrown
    obtain ⟨call, caught, failed⟩ := uncaught.thrown exn threw
    rw [failed]
    simp only [caught, Bool.false_eq_true, false_and, if_false]
    exact threw
  · have quiet : ∀ exn, answer.1 ≠ .error (.thrown exn) := fun exn threw => thrown ⟨exn, threw⟩
    rw [failing, uncaught.quiet quiet]
    exact quiet

/-- A request that makes no call. -/
theorem handles_of_no_call {tables : Tables World} {world : World} {answer : Handled World}
    (none : answer.2.calls = []) (quiet : ∀ exn, answer.1 ≠ .error (.thrown exn)) :
    Handles tables world answer := by
  unfold Handles
  rw [none]
  exact quiet

theorem handles_of_quiet {tables : Tables World} {world : World} {answer : Handled World}
    (returned : failing tables answer.2.calls world = none)
    (quiet : ∀ exn, answer.1 ≠ .error (.thrown exn)) : Handles tables world answer := by
  unfold Handles
  rw [returned]
  exact quiet

/-- An exception behind a call under `catch`. -/
theorem handles_of_caught {tables : Tables World} {world : World} {left : Ctx World} {call : Call}
    {exn : Exn} (threw : failing tables left.calls world = some (call, exn))
    (caught : call.caught) (msg : Text) :
    Handles tables world
      (if exn.isRuntimeError then left.sendErr .ioError msg else (.error (.thrown exn), left)) := by
  by_cases isRuntimeError : exn.isRuntimeError
  · rw [if_pos isRuntimeError]
    unfold Handles
    rw [show failing tables (left.sendErr .ioError msg).2.calls world = _ from threw]
    simp only [caught, isRuntimeError, and_self, if_true]
    exact ⟨left, msg, rfl⟩
  · rw [if_neg isRuntimeError]
    unfold Handles
    simp only [threw, isRuntimeError, Bool.false_eq_true, and_false, if_false]

theorem callPlugin_handles {tables : Tables World} {plugin : PluginInfo World} {key : PluginKey}
    (found : tables.pluginOf key = some plugin) (dev : DevPtr) (argsOffset : Nat) {ctx : Ctx World}
    (fresh : ctx.calls = []) :
    Handles tables ctx.world (callPlugin plugin key dev argsOffset ctx) := by
  have failed : failing tables [.plugin key dev (load ctx.rx argsOffset plugin.argsSize)]
      ctx.world = (plugin.fn dev (load ctx.rx argsOffset plugin.argsSize) ctx.world).1.thrown.map
        (.plugin key dev (load ctx.rx argsOffset plugin.argsSize), ·) := by
    rw [failing, runCalls_singleton]
    simp only [Call.run, found]
  unfold callPlugin
  simp only [fresh, List.nil_append]
  split
  next returned =>
    rw [returned] at failed
    split
    · exact handles_of_quiet failed nofun
    · exact handles_of_quiet failed nofun
  next exn threw =>
    rw [threw] at failed
    exact handles_of_caught failed rfl _

theorem handleRead_handles (tables : Tables World) (header : HwioPacketHeader) {ctx : Ctx World}
    (fresh : ctx.calls = []) : Handles tables ctx.world (handleRead tables header ctx) := by
  have refused : ∀ errCode msg, Handles tables ctx.world (ctx.sendErr errCode msg) :=
    fun errCode msg => handles_of_no_call fresh nofun
  unfold handleRead
  split
  · exact refused _ _
  simp only
  split
  · exact refused _ _
  next dev _ =>
    generalize loadU32 ctx.rx 2 = addr
    generalize (loadU16 ctx.rx 6).toNat = size
    have failed : failing tables [.read dev addr size] ctx.world =
        ((tables.device dev).read addr size ctx.world).1.thrown.map (.read dev addr size, ·) := by
      rw [failing, runCalls_singleton]
      rfl
    simp only [fresh, List.nil_append]
    split
    next returned =>
      rw [returned] at failed
      exact handles_of_quiet failed nofun
    next exn threw =>
      rw [threw] at failed
      exact handles_of_caught failed rfl _

theorem handleWrite_handles (tables : Tables World) (header : HwioPacketHeader) {ctx : Ctx World}
    (fresh : ctx.calls = []) : Handles tables ctx.world (handleWrite tables header ctx) := by
  have refused : ∀ errCode msg, Handles tables ctx.world (ctx.sendErr errCode msg) :=
    fun errCode msg => handles_of_no_call fresh nofun
  unfold handleWrite
  split
  · exact refused _ _
  simp only
  split
  · exact refused _ _
  split
  · exact refused _ _
  next dev _ =>
    have single : ∀ result : Except Stop PProcRes, (∀ exn, result = .error (.thrown exn) ↔
        ((tables.device dev).write (loadU32 ctx.rx 2)
          (load ctx.rx sizeofWrReq (loadU16 ctx.rx 6).toNat) ctx.world).1 = some exn) → _ :=
      fun result same => @Uncaught.single _ _ tables ctx.world
        (.write dev (loadU32 ctx.rx 2) (load ctx.rx sizeofWrReq (loadU16 ctx.rx 6).toNat)) rfl
        result same
    simp only [fresh, List.nil_append]
    split
    next returned => exact Uncaught.handles (single _ (by simp [returned]))
    next exn threw => exact Uncaught.handles (single _ (by simp [threw]))

/-- Every request answers a run-time error of a READ or of a plugin, and lets
every other exception of its calls out. -/
theorem handleMsg_handles (tables : Tables World) (header : HwioPacketHeader) {ctx : Ctx World}
    (fresh : ctx.calls = []) : Handles tables ctx.world (handleMsg tables header ctx) := by
  have refused : ∀ errCode msg, Handles tables ctx.world (ctx.sendErr errCode msg) :=
    fun errCode msg => handles_of_no_call fresh nofun
  unfold handleMsg
  split
  · unfold handleFastRemoteCall
    split
    · exact refused _ _
    split
    · exact refused _ _
    simp only
    split
    · exact refused _ _
    next plugin found =>
      exact callPlugin_handles (show tables.pluginOf (.id _) = _ from found) _ _ fresh
  · exact handleRead_handles tables header fresh
  · exact handleWrite_handles tables header fresh
  · unfold handleRemoteCall
    split
    · exact refused _ _
    split
    · exact refused _ _
    simp only
    split
    · exact refused _ _
    next plugin found =>
      exact callPlugin_handles (show tables.pluginOf (.name _) = _ from found) _ _ fresh
  · unfold handlePing
    split
    · exact refused _ _
    · exact handles_of_no_call fresh nofun
  · unfold handleQuery
    simp only
    split
    · exact refused _ _
    split
    · exact refused _ _
    · exact (deviceLookupResp_uncaught tables _ fresh).handles
  · by_cases size : header.bodyLen.toNat < sizeofGetRemoteCallId
    · rw [handleGetRpcFnId, if_pos size]
      exact refused _ _
    cases resolved : clientGetDev ctx.devices (loadU16 ctx.rx 0) with
    | none =>
        rw [handleGetRpcFnId, if_neg size]
        simp only [resolved]
        exact handles_of_no_call fresh nofun
    | some dev =>
        rw [handleGetRpcFnId_resolved tables ctx (Nat.le_of_not_lt size) resolved]
        exact handles_of_no_call fresh nofun
  · exact handles_of_no_call fresh nofun
  · exact handles_of_no_call fresh nofun
  · exact refused _ _

end Hwio
