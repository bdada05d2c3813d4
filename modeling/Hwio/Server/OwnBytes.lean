import Hwio.Server.Footprint

/-!
Contract: which requests are handled from their own bytes only.

Owns what can be observed of a request, and for every command the requests
whose handling does not depend on the bytes behind the frame.

Does not own whether a reply is well formed or fits its buffer.
-/

namespace Hwio

open Library

variable {World : Type}

/-! ## Observations -/

/-- What a request does and answers: everything but the rest of the buffers. -/
structure Observation (World : Type) where
  outcome : Except Stop PProcRes
  reply : List Byte
  devices : List (Option DevPtr)
  world : World
  calls : List Call

def observe (handled : Handled World) : Observation World where
  outcome := handled.1
  reply := replyBytes handled
  devices := handled.2.devices
  world := handled.2.world
  calls := handled.2.calls

/-- What can be observed does not show the receive buffer. -/
theorem observe_reading (handled : Handled World) (rx : List Byte) :
    observe (handled.reading rx) = observe handled := by
  rcases handled with ⟨outcome, ctx⟩
  cases outcome <;> rfl

/-- Whatever follows the frame in the receive buffer, the request behaves alike. -/
def OwnBytesOnly (tables : Tables World) (frame : Frame) (ctx : Ctx World) : Prop :=
  ∀ rest rest',
    observe (handleMsg tables frame.header (ctx.reading (frame.body ++ rest))) =
      observe (handleMsg tables frame.header (ctx.reading (frame.body ++ rest')))

/-! ## Fields inside the body -/

theorem loadU16_own {body : List Byte} {offset : Nat} (inside : offset + 2 ≤ body.length)
    (rest : List Byte) : loadU16 (body ++ rest) offset = loadU16 body offset := by
  rw [loadU16, loadU16, load_append_left rest inside]

theorem loadU32_own {body : List Byte} {offset : Nat} (inside : offset + 4 ≤ body.length)
    (rest : List Byte) : loadU32 (body ++ rest) offset = loadU32 body offset := by
  rw [loadU32, loadU32, load_append_left rest inside]

/-! ## READ and WRITE -/

theorem handleRead_own (tables : Tables World) (frame : Frame) (ctx : Ctx World)
    (rest rest' : List Byte) :
    observe (handleRead tables frame.header (ctx.reading (frame.body ++ rest))) =
      observe (handleRead tables frame.header (ctx.reading (frame.body ++ rest'))) := by
  have bodies : load (frame.body ++ rest) 0 frame.header.bodyLen.toNat =
      load (frame.body ++ rest') 0 frame.header.bodyLen.toNat := by
    rw [frame.header_bodyLen_toNat, load_append_left rest (by omega),
      load_append_left rest' (by omega)]
  have read := @handleRead_reading World frame.header (ctx.reading (frame.body ++ rest'))
    (frame.body ++ rest) tables bodies
  exact (congrArg observe read).trans (observe_reading _ _)

/-- The payload of a WRITE to a device of the client is carried by the frame. -/
def WriteCarried (frame : Frame) (ctx : Ctx World) : Prop :=
  sizeofWrReq ≤ frame.body.length → (loadU16 frame.body 0).toNat < maxDevices →
    ∀ dev, clientGetDev ctx.devices (loadU16 frame.body 0) = some dev →
      sizeofWrReq + (loadU16 frame.body 6).toNat ≤ frame.body.length

/-- A WRITE that reaches its device is its call with the payload, and what the
device makes of it. -/
theorem handleWrite_reached (tables : Tables World) {frame : Frame} {ctx : Ctx World}
    (size : sizeofWrReq ≤ frame.body.length)
    (limit : (loadU16 frame.body 0).toNat < maxDevices) {dev : DevPtr}
    (resolved : clientGetDev ctx.devices (loadU16 frame.body 0) = some dev) (rest : List Byte) :
    let data := load (frame.body ++ rest) sizeofWrReq (loadU16 frame.body 6).toNat
    observe (handleWrite tables frame.header (ctx.reading (frame.body ++ rest))) =
      let result := (tables.device dev).write (loadU32 frame.body 2) data ctx.world
      { outcome := match result.1 with
          | none => .ok ⟨false, 0⟩
          | some exn => .error (.thrown exn)
        reply := []
        devices := ctx.devices
        world := result.2
        calls := ctx.calls ++ [.write dev (loadU32 frame.body 2) data] } := by
  intro data
  have enough : 8 ≤ frame.body.length := size
  unfold handleWrite
  rw [frame.header_bodyLen_toNat, if_neg (Nat.not_lt.mpr size)]
  simp only [loadU16_own (show 0 + 2 ≤ frame.body.length by omega),
    loadU32_own (show 2 + 4 ≤ frame.body.length by omega),
    loadU16_own (show 6 + 2 ≤ frame.body.length by omega), if_neg (Nat.not_le.mpr limit),
    resolved]
  cases ((tables.device dev).write (loadU32 frame.body 2) data ctx.world).1 <;> rfl

theorem handleWrite_own_iff (tables : Tables World) (frame : Frame) (ctx : Ctx World) :
    (∀ rest rest',
      observe (handleWrite tables frame.header (ctx.reading (frame.body ++ rest))) =
        observe (handleWrite tables frame.header (ctx.reading (frame.body ++ rest')))) ↔
      WriteCarried frame ctx := by
  unfold WriteCarried
  by_cases size : sizeofWrReq ≤ frame.body.length
  case neg =>
    refine iff_of_true (fun rest rest' => ?_) fun enough => absurd enough size
    unfold handleWrite
    rw [frame.header_bodyLen_toNat, if_pos (Nat.lt_of_not_le size),
      if_pos (Nat.lt_of_not_le size)]
    rfl
  have enough : 8 ≤ frame.body.length := size
  rw [forall_prop_of_true size]
  by_cases limit : (loadU16 frame.body 0).toNat < maxDevices
  case neg =>
    refine iff_of_true (fun rest rest' => ?_) fun below => absurd below limit
    unfold handleWrite
    rw [frame.header_bodyLen_toNat, if_neg (Nat.not_lt.mpr size), if_neg (Nat.not_lt.mpr size)]
    simp only [loadU16_own (show 0 + 2 ≤ frame.body.length by omega),
      if_pos (Nat.le_of_not_lt limit)]
    rfl
  rw [forall_prop_of_true limit]
  cases resolved : clientGetDev ctx.devices (loadU16 frame.body 0) with
  | none =>
      refine iff_of_true (fun rest rest' => ?_) fun dev same => by cases same
      unfold handleWrite
      rw [frame.header_bodyLen_toNat, if_neg (Nat.not_lt.mpr size),
        if_neg (Nat.not_lt.mpr size)]
      simp only [loadU16_own (show 0 + 2 ≤ frame.body.length by omega),
        if_neg (Nat.not_le.mpr limit), resolved]
      rfl
  | some dev =>
      have reached := handleWrite_reached tables size limit resolved
      have carried := load_append_determined_iff frame.body sizeofWrReq
        (loadU16 frame.body 6).toNat
      constructor
      · intro own other same
        cases same
        have loads : ∀ rest rest',
            load (frame.body ++ rest) sizeofWrReq (loadU16 frame.body 6).toNat =
              load (frame.body ++ rest') sizeofWrReq (loadU16 frame.body 6).toNat := by
          intro rest rest'
          have calls := congrArg Observation.calls (own rest rest')
          rw [reached rest, reached rest'] at calls
          have last := List.append_cancel_left calls
          simp only [List.cons.injEq, Call.write.injEq, and_true, true_and] at last
          exact last
        rcases carried.mp loads with zero | inside
        · rw [zero]
          exact size
        · exact inside
      · intro inside rest rest'
        rw [reached rest, reached rest', carried.mpr (Or.inr (inside dev rfl)) rest rest']

/-! ## Plugin calls -/

/-- The arguments are all that a plugin call reads of the request. -/
theorem observe_callPlugin_congr (plugin : PluginInfo World) (key : PluginKey) (dev : DevPtr)
    {argsOffset : Nat} (ctx : Ctx World) {left right : List Byte}
    (same : load left argsOffset plugin.argsSize = load right argsOffset plugin.argsSize) :
    observe (callPlugin plugin key dev argsOffset (ctx.reading left)) =
      observe (callPlugin plugin key dev argsOffset (ctx.reading right)) := by
  have called := @callPlugin_reading World (ctx.reading right) left plugin key dev argsOffset same
  exact (congrArg observe called).trans (observe_reading _ left)

/-- The arguments of a plugin lie inside the frame. -/
def ArgsCarried (plugin : PluginInfo World) (argsOffset : Nat) (frame : Frame) : Prop :=
  plugin.argsSize = 0 ∨ argsOffset + plugin.argsSize ≤ frame.body.length

theorem callPlugin_own_iff (plugin : PluginInfo World) (key : PluginKey) (dev : DevPtr)
    (argsOffset : Nat) (frame : Frame) (ctx : Ctx World) :
    (∀ rest rest',
      observe (callPlugin plugin key dev argsOffset (ctx.reading (frame.body ++ rest))) =
        observe (callPlugin plugin key dev argsOffset (ctx.reading (frame.body ++ rest')))) ↔
      ArgsCarried plugin argsOffset frame := by
  have carried := load_append_determined_iff frame.body argsOffset plugin.argsSize
  constructor
  · intro own
    apply carried.mp
    intro rest rest'
    have calls := congrArg Observation.calls (own rest rest')
    change (callPlugin plugin key dev argsOffset _).2.calls =
      (callPlugin plugin key dev argsOffset _).2.calls at calls
    rw [callPlugin_calls, callPlugin_calls] at calls
    have last := List.append_cancel_left calls
    simp only [List.cons.injEq, Call.plugin.injEq, and_true, true_and] at last
    exact last
  · intro inside rest rest'
    exact observe_callPlugin_congr plugin key dev ctx (carried.mpr inside rest rest')

/-! ## The unknown-function reply -/

theorem zero_not_mem_text_front : 0 ∉ text "REMOTE CALL: RPC function " := by decide
theorem zero_not_mem_text_back : 0 ∉ text " not registered on server" := by decide

theorem zero_not_mem_notRegistered {name : Text} (free : 0 ∉ name) : 0 ∉ notRegistered name := by
  unfold notRegistered
  simp only [List.mem_append, not_or]
  exact ⟨⟨zero_not_mem_text_front, free⟩, zero_not_mem_text_back⟩

/-- What is sent for a refusal is its text up to the cut, and the length found. -/
theorem observe_sendErr_eq_iff (ctx : Ctx World) (errCode : HwioServerError)
    (left right : Text) :
    observe (ctx.sendErr errCode left) = observe (ctx.sendErr errCode right) ↔
      UInt16.ofNat (4 + errMsgLen ctx.tx left) = UInt16.ofNat (4 + errMsgLen ctx.tx right) ∧
        strncpy left (maxErrMsgLen - sizeofHeader) =
          strncpy right (maxErrMsgLen - sizeofHeader) := by
  have reply : ∀ msg, (observe (ctx.sendErr errCode msg)).reply =
      (HwioPacketHeader.mk HwioCmd.msg.code (UInt16.ofNat (4 + errMsgLen ctx.tx msg))).bytes ++
        (u32Bytes errCode.code ++ strncpy msg (maxErrMsgLen - sizeofHeader)) := by
    intro msg
    rw [← strncpy_take msg (Nat.sub_le maxErrMsgLen sizeofHeader)]
    exact sendErr_sent errCode msg ctx.tx
  constructor
  · intro same
    have replies := congrArg Observation.reply same
    rw [reply, reply] at replies
    have parts := List.append_inj replies (by simp)
    have header := HwioPacketHeader.bytes_injective parts.1
    simp only [HwioPacketHeader.mk.injEq, true_and] at header
    exact ⟨header, List.append_cancel_left parts.2⟩
  · rintro ⟨header, message⟩
    have replies : (observe (ctx.sendErr errCode left)).reply =
        (observe (ctx.sendErr errCode right)).reply := by
      rw [reply, reply, header, message]
    calc observe (ctx.sendErr errCode left) =
        { observe (ctx.sendErr errCode right) with
          reply := (observe (ctx.sendErr errCode left)).reply } := rfl
      _ = observe (ctx.sendErr errCode right) := by rw [replies]

/-- The longest name that the cut reply for an unknown function shows whole. -/
def shownName : Nat := maxErrMsgLen - sizeofHeader - (text "REMOTE CALL: RPC function ").length

/-- A name cut by the reply can not be told from one that goes on. -/
theorem observe_notRegistered_iff (ctx : Ctx World) (errCode : HwioServerError) {front : Text}
    (free : 0 ∉ front) :
    (∀ rest rest', observe (ctx.sendErr errCode (notRegistered (front ++ cstr rest))) =
      observe (ctx.sendErr errCode (notRegistered (front ++ cstr rest')))) ↔
      shownName ≤ front.length := by
  have shown : shownName = 995 := by decide
  have frontLength : (text "REMOTE CALL: RPC function ").length = 26 := by decide
  have cut : maxErrMsgLen - sizeofHeader = 1021 := rfl
  constructor
  · intro own
    refine Nat.le_of_not_lt fun short => ?_
    -- the byte after the name shows whether it goes on
    have next : ∀ rest byte, (0 : Byte) ∉ front ++ cstr rest →
        (front ++ cstr rest ++ text " not registered on server")[front.length]? = some byte →
        (strncpy (notRegistered (front ++ cstr rest)) 1021)[26 + front.length]? = some byte := by
      intro rest byte whole found
      have free' := zero_not_mem_notRegistered whole
      rw [strncpy, cstr_of_not_mem free', takeD_getElem?, if_pos (by omega),
        List.getD_eq_getElem?_getD, notRegistered, List.append_assoc,
        List.getElem?_append_right (by omega), frontLength, Nat.add_sub_cancel_left, found]
      rfl
    have same := ((observe_sendErr_eq_iff ctx errCode _ _).mp (own [] [1])).2
    rw [cut] at same
    have ends := next [] 32 (by simpa using free) (by
      rw [cstr_nil, List.append_nil, List.getElem?_append_right (Nat.le_refl _), Nat.sub_self]
      rfl)
    have goesOn := next [1] 1 (by
      simp only [cstr_cons_of_ne (show (1 : Byte) ≠ 0 by decide), cstr_nil, List.mem_append,
        not_or]
      exact ⟨free, by decide⟩) (by simp [cstr_cons_of_ne])
    rw [same, goesOn] at ends
    cases ends
  · intro long rest rest'
    have free' : ∀ rest, (0 : Byte) ∉ front ++ cstr rest := by
      intro rest
      rw [List.mem_append, not_or]
      exact ⟨free, zero_not_mem_cstr rest⟩
    have length : ∀ rest, maxErrMsgLen ≤ (cstr (notRegistered (front ++ cstr rest))).length := by
      intro rest
      rw [cstr_of_not_mem (zero_not_mem_notRegistered (free' rest))]
      have backLength : (text " not registered on server").length = 25 := by decide
      simp only [notRegistered, List.length_append, frontLength, backLength, maxErrMsgLen]
      omega
    have front' : ∀ rest, strncpy (notRegistered (front ++ cstr rest)) 1021 =
        (text "REMOTE CALL: RPC function " ++ front).take 1021 := by
      intro rest
      have bound := length rest
      rw [cstr_of_not_mem (zero_not_mem_notRegistered (free' rest))] at bound
      rw [strncpy_of_ge (zero_not_mem_notRegistered (free' rest))
        (Nat.le_trans (by decide) bound), notRegistered, List.append_assoc, ← List.append_assoc,
        ← List.append_assoc, List.append_assoc, List.take_append_of_le_length (by
          rw [List.length_append, frontLength]
          omega)]
    rw [observe_sendErr_eq_iff, errMsgLen_of_long ctx.tx (length rest),
      errMsgLen_of_long ctx.tx (length rest'), cut, front', front']
    exact ⟨rfl, rfl⟩

/-! ## REMOTE_CALL -/

/-- The name ends inside the frame and so do the arguments of its plugin; or it
does not end there, is cut by the reply, and no plugin has a name it starts. -/
def RemoteCallCarried (tables : Tables World) (frame : Frame) (ctx : Ctx World) : Prop :=
  sizeofRemoteCall - 1 ≤ frame.body.length →
    ∀ dev, clientGetDev ctx.devices (loadU16 frame.body 0) = some dev →
      if 0 ∈ frame.body.drop 2 then
        ∀ plugin, tables.findPlugin (cstr (frame.body.drop 2)) = some plugin →
          ArgsCarried plugin sizeofRemoteCall frame
      else shownName ≤ (frame.body.drop 2).length ∧
        ∀ rest, 0 ∉ rest → tables.findPlugin (frame.body.drop 2 ++ rest) = none

theorem handleRemoteCall_reached (tables : Tables World) {frame : Frame} {ctx : Ctx World}
    (size : sizeofRemoteCall - 1 ≤ frame.body.length) {dev : DevPtr}
    (resolved : clientGetDev ctx.devices (loadU16 frame.body 0) = some dev) (rest : List Byte) :
    handleRemoteCall tables frame.header (ctx.reading (frame.body ++ rest)) =
      let name := cstr (frame.body.drop 2 ++ rest)
      match tables.findPlugin name with
      | none => (ctx.reading (frame.body ++ rest)).sendErr .malformedPacket (notRegistered name)
      | some plugin =>
        callPlugin plugin (.name name) dev sizeofRemoteCall
          (ctx.reading (frame.body ++ rest)) := by
  have enough : 129 ≤ frame.body.length := size
  unfold handleRemoteCall
  rw [frame.header_bodyLen_toNat, if_neg (Nat.not_lt.mpr size)]
  simp only [loadU16_own (show 0 + 2 ≤ frame.body.length by omega), resolved,
    List.drop_append_of_le_length (show 2 ≤ frame.body.length by omega)]
  rfl

/-- The calls of a plugin call by name: the one of its plugin, if there is one. -/
theorem handleRemoteCall_calls (tables : Tables World) {frame : Frame} {ctx : Ctx World}
    (size : sizeofRemoteCall - 1 ≤ frame.body.length) {dev : DevPtr}
    (resolved : clientGetDev ctx.devices (loadU16 frame.body 0) = some dev) (rest : List Byte) :
    (handleRemoteCall tables frame.header (ctx.reading (frame.body ++ rest))).2.calls =
      match tables.findPlugin (cstr (frame.body.drop 2 ++ rest)) with
      | none => ctx.calls
      | some plugin => ctx.calls ++ [.plugin (.name (cstr (frame.body.drop 2 ++ rest))) dev
          (load (frame.body ++ rest) sizeofRemoteCall plugin.argsSize)] := by
  rw [handleRemoteCall_reached tables size resolved]
  simp only
  cases tables.findPlugin (cstr (frame.body.drop 2 ++ rest)) with
  | none => rfl
  | some plugin => exact callPlugin_calls plugin _ dev _ _

theorem handleRemoteCall_own_iff (tables : Tables World) (frame : Frame) (ctx : Ctx World) :
    (∀ rest rest',
      observe (handleRemoteCall tables frame.header (ctx.reading (frame.body ++ rest))) =
        observe (handleRemoteCall tables frame.header (ctx.reading (frame.body ++ rest')))) ↔
      RemoteCallCarried tables frame ctx := by
  unfold RemoteCallCarried
  by_cases size : sizeofRemoteCall - 1 ≤ frame.body.length
  case neg =>
    refine iff_of_true (fun rest rest' => ?_) fun enough => absurd enough size
    unfold handleRemoteCall
    rw [frame.header_bodyLen_toNat, if_pos (Nat.lt_of_not_le size),
      if_pos (Nat.lt_of_not_le size)]
    rfl
  rw [forall_prop_of_true size]
  have enough : 129 ≤ frame.body.length := size
  cases resolved : clientGetDev ctx.devices (loadU16 frame.body 0) with
  | none =>
      refine iff_of_true (fun rest rest' => ?_) fun dev same => by cases same
      unfold handleRemoteCall
      rw [frame.header_bodyLen_toNat, if_neg (Nat.not_lt.mpr size), if_neg (Nat.not_lt.mpr size)]
      simp only [loadU16_own (show 0 + 2 ≤ frame.body.length by omega), resolved]
      rfl
  | some dev =>
      simp only [Option.some.injEq, forall_eq']
      have reached := handleRemoteCall_reached tables size resolved
      by_cases ends : 0 ∈ frame.body.drop 2
      · -- the name is the same in both runs, so the arguments decide
        rw [if_pos ends]
        have name : ∀ rest, cstr (frame.body.drop 2 ++ rest) = cstr (frame.body.drop 2) :=
          cstr_append_of_mem ends
        simp only [name] at reached
        simp only [reached]
        cases tables.findPlugin (cstr (frame.body.drop 2)) with
        | none => exact iff_of_true (fun rest rest' => rfl) fun plugin same => by cases same
        | some plugin =>
            simp only [Option.some.injEq, forall_eq']
            exact callPlugin_own_iff plugin _ dev _ frame ctx
      · rw [if_neg ends]
        have name : ∀ rest, cstr (frame.body.drop 2 ++ rest) = frame.body.drop 2 ++ cstr rest :=
          cstr_append_of_not_mem ends
        have calls := handleRemoteCall_calls tables size resolved
        simp only [name] at reached calls
        constructor
        · intro own
          -- a plugin whose name the body starts would be called for some bytes only
          have missing : ∀ rest, 0 ∉ rest →
              tables.findPlugin (frame.body.drop 2 ++ rest) = none := by
            intro rest free
            cases found : tables.findPlugin (frame.body.drop 2 ++ rest) with
            | none => rfl
            | some plugin =>
                exfalso
                have same := congrArg Observation.calls (own rest (rest ++ [1]))
                change (handleRemoteCall _ _ _).2.calls = (handleRemoteCall _ _ _).2.calls at same
                have longer : cstr (rest ++ [1]) = rest ++ [1] := by
                  apply cstr_of_not_mem
                  rw [List.mem_append, not_or]
                  exact ⟨free, by decide⟩
                rw [calls, calls, cstr_of_not_mem free, longer, found] at same
                simp only at same
                split at same
                · simp at same
                · have last := List.append_cancel_left same
                  simp at last
          refine ⟨?_, missing⟩
          apply (observe_notRegistered_iff ctx .malformedPacket ends).mp
          intro rest rest'
          have same := own rest rest'
          rw [reached, reached, missing _ (zero_not_mem_cstr rest),
            missing _ (zero_not_mem_cstr rest')] at same
          exact same
        · rintro ⟨long, missing⟩ rest rest'
          rw [reached, reached, missing _ (zero_not_mem_cstr rest),
            missing _ (zero_not_mem_cstr rest')]
          exact (observe_notRegistered_iff ctx .malformedPacket ends).mpr long rest rest'

/-! ## REMOTE_CALL_FAST -/

/-- The id and the arguments of its plugin lie inside the frame. -/
def FastRemoteCallCarried (tables : Tables World) (frame : Frame) (ctx : Ctx World) : Prop :=
  sizeofRemoteCallFast - 1 ≤ frame.body.length →
    ∀ dev, clientGetDev ctx.devices (loadU16 frame.body 0) = some dev →
      sizeofRemoteCallFast ≤ frame.body.length ∧
        ∀ plugin, tables.pluginsFast[(loadU32 frame.body 2).toNat]? = some plugin →
          ArgsCarried plugin sizeofRemoteCallFast frame

/-- The message for an id that no plugin has. -/
def idNotRegistered (fnId : UInt32) : Text :=
  text "REMOTE CALL: RPC function with id " ++ decimal fnId.toNat ++
    text " is not registered on server"

theorem handleFastRemoteCall_reached (tables : Tables World) {frame : Frame} {ctx : Ctx World}
    (size : sizeofRemoteCallFast - 1 ≤ frame.body.length) {dev : DevPtr}
    (resolved : clientGetDev ctx.devices (loadU16 frame.body 0) = some dev) (rest : List Byte) :
    handleFastRemoteCall tables frame.header (ctx.reading (frame.body ++ rest)) =
      let fnId := loadU32 (frame.body ++ rest) 2
      match tables.pluginsFast[fnId.toNat]? with
      | none => (ctx.reading (frame.body ++ rest)).sendErr .malformedPacket (idNotRegistered fnId)
      | some plugin =>
        callPlugin plugin (.id fnId) dev sizeofRemoteCallFast
          (ctx.reading (frame.body ++ rest)) := by
  have enough : 5 ≤ frame.body.length := size
  unfold handleFastRemoteCall
  rw [frame.header_bodyLen_toNat, if_neg (Nat.not_lt.mpr size)]
  simp only [loadU16_own (show 0 + 2 ≤ frame.body.length by omega), resolved]
  rfl

/-- Messages for different ids differ before they are cut. -/
theorem idNotRegistered_shown {left right : UInt32}
    (same : strncpy (idNotRegistered left) (maxErrMsgLen - sizeofHeader) =
      strncpy (idNotRegistered right) (maxErrMsgLen - sizeofHeader)) : left = right := by
  have free : ∀ fnId, 0 ∉ idNotRegistered fnId := by
    intro fnId
    unfold idNotRegistered
    simp only [List.mem_append, not_or]
    exact ⟨⟨by decide, zero_not_mem_decimal _⟩, by decide⟩
  have short : ∀ fnId, (idNotRegistered fnId).length < maxErrMsgLen - sizeofHeader :=
    fastNotRegistered_short
  have messages : idNotRegistered left = idNotRegistered right := by
    have leftBack := cstr_strncpy (free left) (short left) []
    have rightBack := cstr_strncpy (free right) (short right) []
    rw [List.append_nil] at leftBack rightBack
    rw [← leftBack, ← rightBack, same]
  have digits := List.append_cancel_left (List.append_cancel_right messages)
  exact UInt32.toNat_inj.mp (decimal_injective digits)

theorem handleFastRemoteCall_own_iff (tables : Tables World) (frame : Frame) (ctx : Ctx World) :
    (∀ rest rest',
      observe (handleFastRemoteCall tables frame.header (ctx.reading (frame.body ++ rest))) =
        observe (handleFastRemoteCall tables frame.header
          (ctx.reading (frame.body ++ rest')))) ↔
      FastRemoteCallCarried tables frame ctx := by
  unfold FastRemoteCallCarried
  by_cases size : sizeofRemoteCallFast - 1 ≤ frame.body.length
  case neg =>
    refine iff_of_true (fun rest rest' => ?_) fun enough => absurd enough size
    unfold handleFastRemoteCall
    rw [frame.header_bodyLen_toNat, if_pos (Nat.lt_of_not_le size),
      if_pos (Nat.lt_of_not_le size)]
    rfl
  rw [forall_prop_of_true size]
  have enough : 5 ≤ frame.body.length := size
  cases resolved : clientGetDev ctx.devices (loadU16 frame.body 0) with
  | none =>
      refine iff_of_true (fun rest rest' => ?_) fun dev same => by cases same
      unfold handleFastRemoteCall
      rw [frame.header_bodyLen_toNat, if_neg (Nat.not_lt.mpr size), if_neg (Nat.not_lt.mpr size)]
      simp only [loadU16_own (show 0 + 2 ≤ frame.body.length by omega), resolved]
      rfl
  | some dev =>
      simp only [Option.some.injEq, forall_eq']
      have reached := handleFastRemoteCall_reached tables size resolved
      by_cases whole : sizeofRemoteCallFast ≤ frame.body.length
      · rw [and_iff_right whole]
        have fnId : ∀ rest, loadU32 (frame.body ++ rest) 2 = loadU32 frame.body 2 :=
          loadU32_own whole
        simp only [fnId] at reached
        simp only [reached]
        cases tables.pluginsFast[(loadU32 frame.body 2).toNat]? with
        | none => exact iff_of_true (fun rest rest' => rfl) fun plugin same => by cases same
        | some plugin =>
            simp only [Option.some.injEq, forall_eq']
            exact callPlugin_own_iff plugin _ dev _ frame ctx
      · -- the last byte of the id lies behind the frame
        refine iff_of_false (fun own => ?_) fun wanted => whole wanted.1
        have ids : loadU32 (frame.body ++ [0]) 2 ≠ loadU32 (frame.body ++ [1]) 2 := by
          intro same
          have five : frame.body.length = 5 := by
            simp only [sizeofRemoteCallFast] at whole
            omega
          have bytes : load (frame.body ++ [0]) 2 4 = load (frame.body ++ [1]) 2 4 := by
            rw [← u32Bytes_loadU32, ← u32Bytes_loadU32, same]
          have last := congrArg (fun bytes : List Byte => bytes[3]?) bytes
          simp only [load_getElem?] at last
          rw [if_pos (by decide), if_pos (by decide), List.getD_append_right _ _ _ _ (by omega),
            List.getD_append_right _ _ _ _ (by omega), five] at last
          cases last
        have same := own [0] [1]
        have calls := congrArg Observation.calls same
        rw [reached, reached] at same calls
        simp only at same calls
        cases first : tables.pluginsFast[(loadU32 (frame.body ++ [0]) 2).toNat]? with
        | none =>
            cases second : tables.pluginsFast[(loadU32 (frame.body ++ [1]) 2).toNat]? with
            | none =>
                rw [first, second] at same
                exact ids (idNotRegistered_shown
                  ((observe_sendErr_eq_iff ctx .malformedPacket _ _).mp same).2)
            | some plugin =>
                rw [first, second] at calls
                change ctx.calls = (callPlugin _ _ _ _ _).2.calls at calls
                rw [callPlugin_calls] at calls
                simp at calls
        | some plugin =>
            cases second : tables.pluginsFast[(loadU32 (frame.body ++ [1]) 2).toNat]? with
            | none =>
                rw [first, second] at calls
                change (callPlugin _ _ _ _ _).2.calls = ctx.calls at calls
                rw [callPlugin_calls] at calls
                simp at calls
            | some other =>
                rw [first, second] at calls
                change (callPlugin _ _ _ _ _).2.calls = (callPlugin _ _ _ _ _).2.calls at calls
                rw [callPlugin_calls, callPlugin_calls] at calls
                have last := List.append_cancel_left calls
                simp only [List.cons.injEq, Call.plugin.injEq, PluginKey.id.injEq] at last
                exact ids last.1.1

/-! ## GET_REMOTE_CALL_ID -/

/-- The name ends inside the frame, or no function has a name that it starts. -/
def GetRpcFnIdCarried (tables : Tables World) (frame : Frame) (ctx : Ctx World) : Prop :=
  sizeofGetRemoteCallId ≤ frame.body.length →
    ∀ dev, clientGetDev ctx.devices (loadU16 frame.body 0) = some dev →
      0 ∈ frame.body.drop 2 ∨
        ∀ rest, 0 ∉ rest → frame.body.drop 2 ++ rest ∉ tables.pluginsFastNames

theorem handleGetRpcFnId_reached (tables : Tables World) {frame : Frame} {ctx : Ctx World}
    (size : sizeofGetRemoteCallId ≤ frame.body.length) {dev : DevPtr}
    (resolved : clientGetDev ctx.devices (loadU16 frame.body 0) = some dev) (rest : List Byte) :
    handleGetRpcFnId tables frame.header (ctx.reading (frame.body ++ rest)) =
      (.ok ⟨false, sizeofHeader + sizeofGetRemoteCallIdResp⟩,
        { ctx.reading (frame.body ++ rest) with
          tx := getRpcFnIdReply ctx.tx
            (tables.pluginsFastNames.findIdx? fun name => cstr (frame.body.drop 2 ++ rest) = name) }) := by
  have enough : 130 ≤ frame.body.length := size
  have same : loadU16 (frame.body ++ rest) 0 = loadU16 frame.body 0 := loadU16_own (by omega) rest
  have dropped : (frame.body ++ rest).drop 2 = frame.body.drop 2 ++ rest :=
    List.drop_append_of_le_length (by omega)
  rw [← dropped]
  rw [← same] at resolved
  rw [← frame.header_bodyLen_toNat] at size
  exact handleGetRpcFnId_resolved tables (ctx.reading (frame.body ++ rest)) size resolved

theorem handleGetRpcFnId_shows (tables : Tables World) {frame : Frame} {ctx : Ctx World}
    (size : sizeofGetRemoteCallId ≤ frame.body.length) {dev : DevPtr}
    (resolved : clientGetDev ctx.devices (loadU16 frame.body 0) = some dev) (rest : List Byte) :
    (observe (handleGetRpcFnId tables frame.header
      (ctx.reading (frame.body ++ rest)))).reply[3]? =
        some (if cstr (frame.body.drop 2 ++ rest) ∈ tables.pluginsFastNames then 1 else 0) := by
  rw [handleGetRpcFnId_reached tables size resolved]
  show (load (getRpcFnIdReply ctx.tx _) 0 (sizeofHeader + sizeofGetRemoteCallIdResp))[3]? = _
  rw [load_getRpcFnIdReply]
  generalize position : (tables.pluginsFastNames.findIdx? fun name =>
    cstr (frame.body.drop 2 ++ rest) = name) = found
  show some (if found.isSome then (1 : Byte) else 0) = _
  have present : found.isSome ↔ cstr (frame.body.drop 2 ++ rest) ∈ tables.pluginsFastNames := by
    rw [← position, List.findIdx?_isSome, List.any_eq_true]
    simp
  by_cases member : cstr (frame.body.drop 2 ++ rest) ∈ tables.pluginsFastNames
  · rw [if_pos (present.mpr member), if_pos member]
  · rw [if_neg (fun some => member (present.mp some)), if_neg member]

/-- There are strings longer than every name of a list. -/
theorem exists_longer (names : List Text) (front : Text) :
    ∃ rest, 0 ∉ rest ∧ front ++ rest ∉ names := by
  refine ⟨List.replicate (names.flatten.length + 1) 1, ?_, fun member => ?_⟩
  · rw [List.mem_replicate]
    rintro ⟨_, same⟩
    cases same
  · have bound := (List.sublist_flatten_of_mem member).length_le
    rw [List.length_append, List.length_replicate] at bound
    omega

theorem handleGetRpcFnId_own_iff (tables : Tables World) (frame : Frame) (ctx : Ctx World) :
    (∀ rest rest',
      observe (handleGetRpcFnId tables frame.header (ctx.reading (frame.body ++ rest))) =
        observe (handleGetRpcFnId tables frame.header (ctx.reading (frame.body ++ rest')))) ↔
      GetRpcFnIdCarried tables frame ctx := by
  unfold GetRpcFnIdCarried
  by_cases size : sizeofGetRemoteCallId ≤ frame.body.length
  case neg =>
    refine iff_of_true (fun rest rest' => ?_) fun enough => absurd enough size
    unfold handleGetRpcFnId
    rw [frame.header_bodyLen_toNat, if_pos (Nat.lt_of_not_le size),
      if_pos (Nat.lt_of_not_le size)]
    rfl
  rw [forall_prop_of_true size]
  have enough : 130 ≤ frame.body.length := size
  cases resolved : clientGetDev ctx.devices (loadU16 frame.body 0) with
  | none =>
      refine iff_of_true (fun rest rest' => ?_) fun dev same => by cases same
      unfold handleGetRpcFnId
      rw [frame.header_bodyLen_toNat, if_neg (Nat.not_lt.mpr size), if_neg (Nat.not_lt.mpr size)]
      simp only [loadU16_own (show 0 + 2 ≤ frame.body.length by omega), resolved]
      rfl
  | some dev =>
      simp only [Option.some.injEq, forall_eq']
      have reached := handleGetRpcFnId_reached tables size resolved
      constructor
      · intro own
        by_cases ends : 0 ∈ frame.body.drop 2
        · exact Or.inl ends
        · refine Or.inr fun rest free member => ?_
          obtain ⟨other, free', absent⟩ := exists_longer tables.pluginsFastNames
            (frame.body.drop 2)
          have shown := handleGetRpcFnId_shows tables size resolved rest
          have hidden := handleGetRpcFnId_shows tables size resolved other
          rw [cstr_append_of_not_mem ends, cstr_of_not_mem free, if_pos member] at shown
          rw [cstr_append_of_not_mem ends, cstr_of_not_mem free', if_neg absent,
            own other rest, shown] at hidden
          cases hidden
      · intro carried rest rest'
        have same : (tables.pluginsFastNames.findIdx? fun name =>
              cstr (frame.body.drop 2 ++ rest) = name) =
            tables.pluginsFastNames.findIdx? fun name =>
              cstr (frame.body.drop 2 ++ rest') = name := by
          by_cases ends : 0 ∈ frame.body.drop 2
          · rw [cstr_append_of_mem ends, cstr_append_of_mem ends]
          · have absent := carried.resolve_left ends
            have none : ∀ rest, (tables.pluginsFastNames.findIdx? fun name =>
                cstr (frame.body.drop 2 ++ rest) = name) = none := by
              intro rest
              rw [List.findIdx?_eq_none_iff]
              intro name member
              rw [cstr_append_of_not_mem ends, decide_eq_false_iff_not]
              intro same
              exact absent (cstr rest) (zero_not_mem_cstr rest) (same ▸ member)
            rw [none, none]
        rw [reached, reached, same]
        rfl

/-! ## QUERY -/

/-- The last text of the last item ends inside the frame, or there is no bus. -/
def QueryCarried (tables : Tables World) (frame : Frame) : Prop :=
  QueryFramed frame.header → tables.buses = [] ∨
    0 ∈ frame.body.drop ((frame.body.length / sizeofDevQueryItem - 1) * sizeofDevQueryItem +
      2 * maxNameLen)

/-- The last text starts one item before the end, behind two other texts. -/
theorem lastText_inside {count : Nat} (positive : 0 < count) :
    (count - 1) * sizeofDevQueryItem + 2 * maxNameLen + (maxNameLen + 12) =
      count * sizeofDevQueryItem := by
  obtain ⟨fewer, rfl⟩ := Nat.exists_eq_succ_of_ne_zero (Nat.ne_of_gt positive)
  have item : 2 * maxNameLen + (maxNameLen + 12) = sizeofDevQueryItem := by decide
  rw [Nat.succ_sub_one, Nat.add_assoc, item, ← Nat.succ_mul]

theorem extractSpec_own {body : List Byte} {count : Nat} (positive : 0 < count)
    (length : body.length = count * sizeofDevQueryItem)
    (ends : 0 ∈ body.drop ((count - 1) * sizeofDevQueryItem + 2 * maxNameLen))
    (rest : List Byte) :
    extractSpecFromClientQuery (body ++ rest) count = extractSpecFromClientQuery body count := by
  -- every text starts before the last one, so it ends inside the body as well
  have string : ∀ offset, offset ≤ (count - 1) * sizeofDevQueryItem + 2 * maxNameLen →
      cstr ((body ++ rest).drop offset) = cstr (body.drop offset) := by
    intro offset before
    have inside : offset ≤ body.length := by
      rw [length, ← lastText_inside positive]
      exact Nat.le_trans before (Nat.le_add_right _ _)
    rw [List.drop_append_of_le_length inside]
    apply cstr_append_of_mem
    obtain ⟨gap, total⟩ := Nat.exists_eq_add_of_le before
    rw [total, ← List.drop_drop] at ends
    exact List.mem_of_mem_drop ends
  refine List.map_congr_left fun item member => ?_
  have below := List.mem_range.mp member
  have version : ∀ offset, offset + 4 ≤ body.length →
      loadI32 (body ++ rest) offset = loadI32 body offset := by
    intro offset inside
    rw [loadI32, loadI32, loadU32_own inside]
  have place : item * sizeofDevQueryItem ≤ (count - 1) * sizeofDevQueryItem :=
    Nat.mul_le_mul_right _ (by omega)
  have total := lastText_inside positive
  have limit : maxNameLen = 128 := rfl
  simp only [HwioCompSpec.at, HwioVersion.at, HwioCompSpec.mk.injEq, HwioVersion.mk.injEq]
  clear ends
  exact ⟨string _ (by omega), string _ (by omega), string _ (by omega),
    version _ (by omega), version _ (by omega), version _ (by omega)⟩

/-- When the last text does not end inside the body, the bytes behind it do. -/
theorem extractSpec_not_own {body : List Byte} {count : Nat} (positive : 0 < count)
    (length : body.length = count * sizeofDevQueryItem)
    (goesOn : 0 ∉ body.drop ((count - 1) * sizeofDevQueryItem + 2 * maxNameLen)) :
    extractSpecFromClientQuery (body ++ []) count ≠
      extractSpecFromClientQuery (body ++ [1]) count := by
  intro same
  have item : ∀ rest, (extractSpecFromClientQuery (body ++ rest) count)[count - 1]? =
      some (HwioCompSpec.at (body ++ rest) ((count - 1) * sizeofDevQueryItem)) := by
    intro rest
    rw [extractSpecFromClientQuery, List.getElem?_map, List.getElem?_range (by omega)]
    rfl
  have items := item []
  rw [same, item [1], Option.some.injEq] at items
  have last := congrArg HwioCompSpec.type items
  have inside : (count - 1) * sizeofDevQueryItem + 2 * maxNameLen ≤ body.length := by
    rw [length, ← lastText_inside positive]
    exact Nat.le_add_right _ _
  change cstr ((body ++ [1]).drop _) = cstr ((body ++ []).drop _) at last
  rw [List.drop_append_of_le_length inside, List.drop_append_of_le_length inside,
    cstr_append_of_not_mem goesOn, cstr_append_of_not_mem goesOn] at last
  exact absurd (List.append_cancel_left last) (by decide)

theorem observe_deviceLookupResp_congr (tables : Tables World) (count : Nat) (ctx : Ctx World)
    {left right : List Byte}
    (same : extractSpecFromClientQuery left count = extractSpecFromClientQuery right count) :
    observe (deviceLookupResp tables count (ctx.reading left)) =
      observe (deviceLookupResp tables count (ctx.reading right)) := by
  have looked := @deviceLookupResp_reading World (ctx.reading right) left tables count same
  exact (congrArg observe looked).trans (observe_reading _ left)

theorem deviceLookupResp_calls {tables : Tables World} {bus : IhwioBus World}
    {more : List (IhwioBus World)} (buses : tables.buses = bus :: more) (count : Nat)
    (ctx : Ctx World) :
    ∃ found later, (deviceLookupResp tables count ctx).2.calls =
      ctx.calls ++ .find 0 (extractSpecFromClientQuery ctx.rx count) found :: later := by
  unfold deviceLookupResp
  simp only [buses]
  obtain ⟨found, later, calls⟩ := findOnBuses_calls (extractSpecFromClientQuery ctx.rx count)
    bus more 0 { ctx with tx := setCommand ctx.tx .queryResp }
  rcases looking : findOnBuses (extractSpecFromClientQuery ctx.rx count) (bus :: more) 0
    { ctx with tx := setCommand ctx.tx .queryResp } with ⟨result, after⟩
  rw [looking] at calls
  cases result with
  | error stop => exact ⟨found, later, calls⟩
  | ok devs =>
      have framed : sizeofHeader ≤ (setBodyLen after.tx 0).length := by
        rw [setBodyLen_length]
        exact Nat.le_max_right _ _
      obtain ⟨_, _, _, _, attached, left, _⟩ := registerDevices_spec tables devs 0
        { after with tx := setBodyLen after.tx 0 } framed
      refine ⟨found, later ++ attached, ?_⟩
      simp only
      rcases registering : registerDevices tables devs 0
        { after with tx := setBodyLen after.tx 0 } with ⟨result, last⟩
      rw [registering] at left
      have all : last.calls = ctx.calls ++
          .find 0 (extractSpecFromClientQuery ctx.rx count) found :: (later ++ attached) := by
        have appended := congrArg Ctx.calls left
        simp only at appended calls
        rw [appended, calls]
        simp
      cases result <;> exact all

theorem handleQuery_own_iff (tables : Tables World) (frame : Frame) (ctx : Ctx World) :
    (∀ rest rest',
      observe (handleQuery tables frame.header (ctx.reading (frame.body ++ rest))) =
        observe (handleQuery tables frame.header (ctx.reading (frame.body ++ rest')))) ↔
      QueryCarried tables frame := by
  by_cases framed : QueryFramed frame.header
  case neg =>
    obtain ⟨code, msg, _, refusal⟩ := @handleQuery_unframed World frame.header framed
    simp only [refusal]
    exact iff_of_true (fun _ _ => rfl) fun wanted => absurd wanted framed
  simp only [handleQuery_framed tables _ framed]
  unfold QueryCarried
  rw [forall_prop_of_true framed]
  obtain ⟨exactly, positive, _⟩ := framed
  have whole := Nat.div_add_mod frame.body.length sizeofDevQueryItem
  rw [frame.header_bodyLen_toNat] at exactly positive ⊢
  rw [exactly, Nat.add_zero, Nat.mul_comm, eq_comm] at whole
  constructor
  · intro own
    cases buses : tables.buses with
    | nil => exact Or.inl rfl
    | cons bus more =>
        refine Or.inr (Decidable.byContradiction fun goesOn => ?_)
        obtain ⟨_, _, first⟩ := deviceLookupResp_calls buses
          (frame.body.length / sizeofDevQueryItem) (ctx.reading (frame.body ++ []))
        obtain ⟨_, _, second⟩ := deviceLookupResp_calls buses
          (frame.body.length / sizeofDevQueryItem) (ctx.reading (frame.body ++ [1]))
        have calls := congrArg Observation.calls (own [] [1])
        change (deviceLookupResp _ _ _).2.calls = (deviceLookupResp _ _ _).2.calls at calls
        rw [first, second] at calls
        have finds := List.append_cancel_left calls
        simp only [List.cons.injEq, Call.find.injEq] at finds
        exact extractSpec_not_own positive whole goesOn finds.1.2.1
  · rintro (none | ends) rest rest'
    · unfold deviceLookupResp
      simp only [none, findOnBuses, registerDevices]
      rfl
    · apply observe_deviceLookupResp_congr
      rw [extractSpec_own positive whole ends, extractSpec_own positive whole ends]

/-! ## All requests -/

/-- The requests that are handled from their own bytes. -/
def RequestCarried (tables : Tables World) (frame : Frame) (ctx : Ctx World) : Prop :=
  match HwioCmd.ofCode frame.command with
  | some .remoteCallFast => FastRemoteCallCarried tables frame ctx
  | some .write => WriteCarried frame ctx
  | some .remoteCall => RemoteCallCarried tables frame ctx
  | some .query => QueryCarried tables frame
  | some .getRemoteCallId => GetRpcFnIdCarried tables frame ctx
  | _ => True

theorem handleMsg_own_iff (tables : Tables World) (frame : Frame) (ctx : Ctx World) :
    OwnBytesOnly tables frame ctx ↔ RequestCarried tables frame ctx := by
  unfold OwnBytesOnly RequestCarried handleMsg
  rw [show frame.header.command = frame.command from rfl]
  cases HwioCmd.ofCode frame.command with
  | none => exact iff_true_intro fun _ _ => rfl
  | some cmd =>
      cases cmd with
      | remoteCallFast => exact handleFastRemoteCall_own_iff tables frame ctx
      | read => exact iff_true_intro (handleRead_own tables frame ctx)
      | write => exact handleWrite_own_iff tables frame ctx
      | remoteCall => exact handleRemoteCall_own_iff tables frame ctx
      | pingRequest =>
          refine iff_true_intro fun _ _ => ?_
          simp only [handlePing]
          split <;> rfl
      | query => exact handleQuery_own_iff tables frame ctx
      | getRemoteCallId => exact handleGetRpcFnId_own_iff tables frame ctx
      | bye | msg => exact iff_true_intro fun _ _ => rfl
      | readResp | pingReply | queryResp | remoteCallRet =>
          exact iff_true_intro fun _ _ => rfl

/-! ## Runs -/

theorem requestFrame_fits (header : HwioPacketHeader) (rx : List Byte) :
    (load rx 0 header.bodyLen.toNat).length < 65536 := by
  rw [load_length]
  exact header.bodyLen.toNat_lt

/-- The frame of a request in a receive buffer. -/
def requestFrame (header : HwioPacketHeader) (rx : List Byte) : Frame where
  command := header.command
  body := load rx 0 header.bodyLen.toNat
  fits := requestFrame_fits header rx

/-- In every state a frame is handled from its own bytes just when it carries
what is read of it, and so are all frames of a run just when all of them do. -/
theorem requests_own_bytes_iff (tables : Tables World) :
    (∀ frame ctx, OwnBytesOnly tables frame ctx ↔ RequestCarried tables frame ctx) ∧
      ∀ master tx world server,
        HwioServer.Reached (HwioServer.prepared tables master tx world) server →
          ((∀ client header ctx,
              Requested tables (HwioServer.prepared tables master tx world).service server.trace
                client header ctx → OwnBytesOnly tables (requestFrame header ctx.rx) ctx) ↔
            ∀ client header ctx,
              Requested tables (HwioServer.prepared tables master tx world).service server.trace
                client header ctx → RequestCarried tables (requestFrame header ctx.rx) ctx) := by
  refine ⟨handleMsg_own_iff tables, fun master tx world server _ => ?_⟩
  constructor
  · intro own client header ctx requested
    exact (handleMsg_own_iff tables _ ctx).mp (own client header ctx requested)
  · intro carried client header ctx requested
    exact (handleMsg_own_iff tables _ ctx).mpr (carried client header ctx requested)

theorem read_own_bytes :
    OwnBytesOnly HwioServer.bareTables ⟨HwioCmd.read.code, [0, 0, 0, 0, 0, 0, 4, 0], by decide⟩
      ((HwioServer.prepared HwioServer.bareTables 3 [] ()).service.request 0 []) :=
  ((requests_own_bytes_iff HwioServer.bareTables).1 _ _).mpr trivial

/-- A WRITE of one byte whose frame ends before the byte: the device gets the
first byte behind the frame. -/
theorem bare_write_not_own :
    let start := HwioServer.prepared HwioServer.oneDevice 3 (List.replicate bufferSize 0) ()
    ∃ server header ctx, HwioServer.Reached start server ∧
      Requested HwioServer.oneDevice start.service server.trace 0 header ctx ∧
      ¬ OwnBytesOnly HwioServer.oneDevice (requestFrame header ctx.rx) ctx := by
  intro start
  let server := HwioServer.loneRun HwioServer.oneDevice (List.replicate bufferSize 0) ()
    (HwioServer.queryFrame ++ [3, 8, 0, 0, 0, 0, 0, 0, 0, 1, 0])
  have dispatched : server.trace[11]? =
      some (.dispatched 0 399 ⟨3, 8⟩ [0, 0, 0, 0, 0, 0, 1, 0]) := by decide +kernel
  have resolved : clientGetDev ((start.service.after HwioServer.oneDevice
      (server.trace.take 11)).request 0 [0, 0, 0, 0, 0, 0, 1, 0]).devices 0 = some 0 := by
    decide +kernel
  refine ⟨server, _, _, HwioServer.loneRun_reached .., Requested.of_getElem? dispatched, ?_⟩
  rw [handleMsg_own_iff]
  intro carried
  have inside := (show WriteCarried _ _ from carried) (by decide) (by decide) 0 resolved
  exact absurd inside (by decide)

end Hwio
