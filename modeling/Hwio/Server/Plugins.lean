import Hwio.Library.Registry
import Hwio.Server.ReplyFrame

/-!
Contract: the installation of plugins, and what their names and ids select.

Owns `install_plugin_fn` of `hwio_server.h`, the tables after a sequence of
installations, and when the id of a name and the name itself select the same
plugin.

Does not own the calls of plugins.
-/

namespace Hwio

open Library

variable {World : Type}

/-! ## Installation -/

/-- `install_plugin_fn` -/
def installPluginFn (name : Text) (plugin : PluginInfo World) (tables : Tables World) :
    Tables World :=
  { tables with
    plugins := tables.plugins.insert name plugin
    pluginsFast := tables.pluginsFast ++ [plugin]
    pluginsFastNames := tables.pluginsFastNames ++ [name] }

/-- The tables that the constructor of `HwioServer` leaves. -/
def Tables.withoutPlugins (tables : Tables World) : Tables World :=
  { tables with plugins := ∅, pluginsFast := [], pluginsFastNames := [] }

/-- The tables after a sequence of installations. -/
def Tables.installed (tables : Tables World) (installs : List (Text × PluginInfo World)) :
    Tables World :=
  installs.foldl (fun tables install => installPluginFn install.1 install.2 tables)
    tables.withoutPlugins

/-- The three containers are the registry of the installations. -/
theorem installed_registry (tables : Tables World) (installs : List (Text × PluginInfo World)) :
    (tables.installed installs).plugins = (Registry.registered installs).latest ∧
      (tables.installed installs).pluginsFast = (Registry.registered installs).values ∧
      (tables.installed installs).pluginsFastNames = (Registry.registered installs).keys := by
  induction installs using List.reverseRecOn with
  | nil => exact ⟨rfl, rfl, rfl⟩
  | append_singleton installs install inductionHypothesis =>
      obtain ⟨plugins, fast, names⟩ := inductionHypothesis
      rw [Registry.registered_append_singleton, Tables.installed, List.foldl_concat]
      refine ⟨?_, ?_, ?_⟩
      · exact congrArg (AList.insert install.1 install.2) plugins
      · exact congrArg (· ++ [install.2]) fast
      · exact congrArg (· ++ [install.1]) names

/-! ## Asking for an id -/

/-- A request for the id of a name that is not refused. -/
structure AsksFor (name : Text) (header : HwioPacketHeader) (ctx : Ctx World) : Prop where
  size : sizeofGetRemoteCallId ≤ header.bodyLen.toNat
  allocated : ∃ dev, clientGetDev ctx.devices (loadU16 ctx.rx 0) = some dev
  named : cstr (ctx.rx.drop 2) = name

/-- `resp->body.found` and `resp->body.fn_id` of the reply to a request. -/
def replyFound (reply : List Byte) : Bool := reply.getD sizeofHeader 0 ≠ 0
def replyFnId (reply : List Byte) : UInt32 := loadU32 reply (sizeofHeader + 1)

/-- The reply tells the position of the name among the installed ones. -/
theorem asked_reply (tables : Tables World) {name : Text} {header : HwioPacketHeader}
    {ctx : Ctx World} (asks : AsksFor name header ctx) :
    let reply := replyBytes (handleGetRpcFnId tables header ctx)
    let position := tables.pluginsFastNames.findIdx? fun other => name = other
    replyFound reply = position.isSome ∧ replyFnId reply = rpcFnId position := by
  intro reply position
  obtain ⟨size, ⟨dev, resolved⟩, named⟩ := asks
  have bytes : reply = (HwioPacketHeader.mk HwioCmd.getRemoteCallIdResp.code
      (UInt16.ofNat sizeofGetRemoteCallIdResp)).bytes ++
        ((if position.isSome then 1 else 0) :: u32Bytes (rpcFnId position)) := by
    show replyBytes (handleGetRpcFnId tables header ctx) = _
    rw [handleGetRpcFnId_resolved tables ctx size resolved, named]
    exact load_getRpcFnIdReply ctx.tx position
  constructor
  · rw [bytes, replyFound]
    cases position <;> rfl
  · rw [bytes, replyFnId]
    apply loadU32_of_load
    have behind := load_append_right ((HwioPacketHeader.mk HwioCmd.getRemoteCallIdResp.code
      (UInt16.ofNat sizeofGetRemoteCallIdResp)).bytes ++ [if position.isSome then (1 : Byte) else 0])
        (u32Bytes (rpcFnId position)) 0 4
    rw [List.append_assoc, List.singleton_append] at behind
    have whole := load_whole (u32Bytes (rpcFnId position))
    rw [u32Bytes_length] at whole
    rw [whole] at behind
    exact behind

/-! ## Names and ids -/

/-- At every point of a sequence of installations, whoever asks for the id of a
name gets one that selects the plugin that a call by name finds, now and at the
end of the sequence, when the name is installed, and learns that it is missing,
by name and by id, when it is not. -/
def SamePlugin (tables : Tables World) (installs : List (Text × PluginInfo World)) (name : Text) :
    Prop :=
  ∀ earlier later, installs = earlier ++ later → ∀ header ctx, AsksFor name header ctx →
    let now := tables.installed earlier
    let last := tables.installed installs
    let reply := replyBytes (handleGetRpcFnId now header ctx)
    if name ∈ earlier.map Prod.fst then
      replyFound reply = true ∧
        ∃ plugin, now.pluginsFast[(replyFnId reply).toNat]? = some plugin ∧
          now.findPlugin name = some plugin ∧
          last.pluginsFast[(replyFnId reply).toNat]? = some plugin ∧
          last.findPlugin name = some plugin
    else
      replyFound reply = false ∧ now.findPlugin name = none ∧
        now.pluginsFast[(replyFnId reply).toNat]? = none

/-- A request that asks for a name. -/
def askingFor (world : World) (name : Text) : Ctx World where
  rx := [0, 0] ++ name ++ [0]
  tx := []
  devices := [some 0]
  world := world
  calls := []

theorem askingFor_asks (world : World) {name : Text} (free : 0 ∉ name) :
    AsksFor name ⟨HwioCmd.getRemoteCallId.code, 130⟩ (askingFor world name) where
  size := by decide
  allocated := ⟨0, rfl⟩
  named := by
    show cstr (name ++ [0]) = name
    rw [cstr_append_of_not_mem free, cstr_cons_zero, List.append_nil]

/-- While there are fewer than `2 ^ 32` installations, which is what an id can
count, name and id always select the same plugin just when every installation
of the name was of the same plugin. -/
theorem same_plugin_iff (tables : Tables World) (world : World)
    (installs : List (Text × PluginInfo World)) (counted : installs.length < 2 ^ 32) (name : Text)
    (free : 0 ∉ name) :
    SamePlugin tables installs name ↔
      ∀ first second, (name, first) ∈ installs → (name, second) ∈ installs → first = second := by
  rw [← Registry.agrees_iff]
  -- what a reply tells of the registry
  have asked : ∀ earlier header (ctx : Ctx World), AsksFor name header ctx →
      let reply := replyBytes (handleGetRpcFnId (tables.installed earlier) header ctx)
      replyFound reply = ((Registry.registered earlier).position name).isSome ∧
        replyFnId reply = rpcFnId ((Registry.registered earlier).position name) := by
    intro earlier header ctx asks
    have told := asked_reply (tables.installed earlier) asks
    rw [(installed_registry tables earlier).2.2] at told
    exact told
  have small : ∀ earlier later index, installs = earlier ++ later →
      (Registry.registered earlier).position name = some index →
        (rpcFnId (some index)).toNat = index := by
    intro earlier later index split place
    rw [Registry.position, Registry.registered_keys,
      List.findIdx?_eq_some_iff_getElem] at place
    obtain ⟨inside, _⟩ := place
    rw [List.length_map] at inside
    rw [split, List.length_append] at counted
    exact UInt32.toNat_ofNat_of_lt' (Nat.lt_trans inside (by
      show earlier.length < 2 ^ 32
      omega))
  unfold SamePlugin Registry.Agrees Tables.findPlugin
  simp only [installed_registry]
  constructor
  · intro same earlier later split member
    obtain ⟨found, fnId⟩ := asked earlier _ _ (askingFor_asks world free)
    have here := same earlier later split _ _ (askingFor_asks world free)
    rw [if_pos member, fnId] at here
    obtain ⟨_, plugin, now, named, last, lastNamed⟩ := here
    obtain ⟨index, value, place, _⟩ := Registry.position_of_mem member
    rw [place, small earlier later index split place] at now last
    exact ⟨index, plugin, place, now, named, last, lastNamed⟩
  · intro agrees earlier later split header ctx asks
    obtain ⟨found, fnId⟩ := asked earlier header ctx asks
    by_cases member : name ∈ earlier.map Prod.fst
    · rw [if_pos member]
      obtain ⟨index, plugin, place, now, named, last, lastNamed⟩ :=
        agrees earlier later split member
      rw [place] at found fnId
      rw [fnId, small earlier later index split place]
      exact ⟨found, plugin, now, named, last, lastNamed⟩
    · rw [if_neg member]
      have place := (Registry.position_eq_none_iff earlier name).mpr member
      rw [place] at found fnId
      refine ⟨found, Registry.latest_eq_none member, ?_⟩
      rw [fnId, Registry.registered_values, List.getElem?_eq_none_iff, List.length_map]
      rw [split, List.length_append] at counted
      show earlier.length ≤ 2 ^ 32 - 1
      omega

/-- A plugin that takes no arguments and returns some zeros. -/
def zerosPlugin (retSize : Nat) : PluginInfo Unit where
  fn _ _ world := (⟨List.replicate retSize 0, none⟩, world)
  argsSize := 0
  retSize := retSize
  ret_le _ _ _ := by simp

theorem installed_once_same_plugin :
    SamePlugin HwioServer.bareTables [([65], zerosPlugin 1), ([66], zerosPlugin 2)] [65] :=
  (same_plugin_iff _ () _ (by decide) _ (by decide)).mpr fun first second member member' => by
    simp only [List.mem_cons, Prod.mk.injEq, List.not_mem_nil, or_false] at member member'
    rcases member with ⟨_, rfl⟩ | ⟨other, _⟩
    · rcases member' with ⟨_, rfl⟩ | ⟨other, _⟩
      · rfl
      · cases other
    · cases other

/-- After a second installation the id still selects the first plugin, and the
name the second. -/
theorem installed_twice_not_same_plugin :
    ¬ SamePlugin HwioServer.bareTables [([65], zerosPlugin 1), ([65], zerosPlugin 2)] [65] := by
  rw [same_plugin_iff _ () _ (by decide) _ (by decide)]
  intro same
  have sizes := congrArg PluginInfo.retSize
    (same (zerosPlugin 1) (zerosPlugin 2) (by simp) (by simp))
  exact absurd sizes (by decide)

end Hwio
