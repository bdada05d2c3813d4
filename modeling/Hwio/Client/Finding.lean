import Hwio.Client.Performing
import Hwio.Library.Serialization

/-!
Contract: lookups, as the hub has them.

Owns that `handle_msg` does for a QUERY what the hub does for a lookup, which
numbers all devices of a client in the order in which it finds them, and so that
every request does what its call does on the hub.

Does not own when the requests arrive.
-/

namespace Hwio

open Library HwioServer

variable {World : Type}

/-! ## Searching and holding -/

theorem findOnBuses_findOnAll (spec : List HwioCompSpec) (buses : List (IhwioBus World))
    (index : Nat) (ctx : Ctx World) :
    (findOnBuses spec buses index ctx).2.world = (Hub.findOnAll spec buses ctx.world).2 ∧
      (findOnBuses spec buses index ctx).1.toOption =
        (Hub.findOnAll spec buses ctx.world).1 := by
  induction buses generalizing index ctx with
  | nil => exact ⟨rfl, rfl⟩
  | cons bus rest inductionHypothesis =>
      rw [findOnBuses, Hub.findOnAll]
      rcases bus.findDevices spec ctx.world with ⟨result, world⟩
      cases result with
      | error exn => exact ⟨rfl, rfl⟩
      | ok found =>
          obtain ⟨left, more⟩ := inductionHypothesis (index + 1)
            { ctx with world := world, calls := ctx.calls ++ [.find index spec (some found)] }
          simp only
          rcases looking : findOnBuses spec rest (index + 1)
            { ctx with world := world, calls := ctx.calls ++ [.find index spec (some found)] } with
            ⟨result, last⟩
          rw [looking] at left more
          simp only at left more ⊢
          rcases searching : Hub.findOnAll spec rest world with ⟨others, world'⟩
          rw [searching] at left more
          cases result with
          | error stop =>
              obtain rfl : others = none := more.symm
              exact ⟨left, rfl⟩
          | ok later =>
              obtain rfl : others = some later := more.symm
              exact ⟨left, rfl⟩

theorem registerDevices_hold (tables : Tables World) (found : List DevPtr) {index : Nat}
    {ctx : Ctx World} {held : List DevPtr} (listed : ctx.devices = held.map some) :
    let holding := Hub.hold tables found held ctx.world
    (registerDevices tables found index ctx).2.world = holding.2.2 ∧
      (registerDevices tables found index ctx).2.devices = holding.2.1.map some ∧
      (registerDevices tables found index ctx).1.isOk = holding.1 := by
  induction found generalizing index ctx held with
  | nil => exact ⟨rfl, listed, rfl⟩
  | cons dev rest inductionHypothesis =>
      rw [registerDevices, registerDevice_table tables dev listed, Hub.hold]
      by_cases known : dev ∈ held
      · simp only [if_pos known]
        exact inductionHypothesis listed
      simp only [if_neg known]
      by_cases below : held.length < 65536
      · simp only [if_pos below]
        rcases (tables.device dev).attach ctx.world with ⟨thrown, world⟩
        cases thrown with
        | none => exact inductionHypothesis rfl
        | some exn => exact ⟨rfl, rfl, rfl⟩
      · simp only [if_neg below, true_and]
        exact ⟨listed, rfl⟩

/-- Ids are different when they count different places. -/
theorem ofNat_inj_of_lt {first second : Nat} (left : first < 65536) (right : second < 65536)
    (same : UInt16.ofNat first = UInt16.ofNat second) : first = second := by
  have equal := congrArg UInt16.toNat same
  rwa [UInt16.toNat_ofNat_of_lt' left, UInt16.toNat_ofNat_of_lt' right] at equal

/-- The numbers of the devices found, in the order in which they get them. -/
theorem numbers_internAll {held found : List DevPtr}
    (room : (internAll held found).length ≤ 65536) :
    internAll (Hub.numbers held)
        (found.map fun dev => UInt16.ofNat ((internAll held found).idxOf dev)) =
      Hub.numbers (internAll held found) := by
  induction found generalizing held with
  | nil => rfl
  | cons dev rest inductionHypothesis =>
      have grown := prefix_internAll (intern held dev) rest
      have place := idxOf_of_prefix grown (mem_intern_self held dev)
      rw [internAll_cons, List.map_cons, internAll_cons, place, ← inductionHypothesis room]
      congr 1
      by_cases known : dev ∈ held
      · rw [intern_of_mem known, intern_of_mem]
        exact List.mem_map.mpr ⟨held.idxOf dev,
          List.mem_range.mpr (List.idxOf_lt_length_of_mem known), rfl⟩
      · have below := Nat.le_trans grown.length_le room
        rw [intern_of_not_mem known, List.length_append, List.length_singleton] at below
        rw [intern_of_not_mem known, List.idxOf_append_of_notMem known, List.idxOf_cons_self,
          Nat.add_zero, intern_of_not_mem]
        · rw [Hub.numbers, Hub.numbers, List.length_append, List.length_singleton,
            List.range_succ, List.map_append]
          rfl
        · intro member
          obtain ⟨other, inside, same⟩ := List.mem_map.mp member
          have less := List.mem_range.mp inside
          exact Nat.ne_of_lt less (ofNat_inj_of_lt (Nat.lt_trans less below) below same)

theorem numbers_nodup {held : List DevPtr} (room : held.length ≤ 65536) :
    (Hub.numbers held).Nodup := by
  apply List.Nodup.map_on _ List.nodup_range
  intro first inside second inside' same
  have left := List.mem_range.mp inside
  have right := List.mem_range.mp inside'
  exact ofNat_inj_of_lt (Nat.lt_of_lt_of_le left room) (Nat.lt_of_lt_of_le right room) same

/-- A number stands at its own place. -/
theorem numbers_idxOf {held : List DevPtr} (room : held.length ≤ 65536) {place : Nat}
    (inside : place < held.length) : (Hub.numbers held).idxOf (UInt16.ofNat place) = place := by
  have entry : (Hub.numbers held)[place]? = some (UInt16.ofNat place) := by
    rw [Hub.numbers, List.getElem?_map, List.getElem?_range inside]
    rfl
  have known := List.mem_of_getElem? entry
  exact (number_eq_iff (numbers_nodup room) (List.getElem?_idxOf known) entry).mpr rfl

/-- The ids of a reply number what was found in the table that it makes. -/
theorem givenIds_of_interning {table found : List DevPtr} {answer : Handled World} {res : PProcRes}
    (interning : Interning table found answer) (ok : answer.1 = .ok res) :
    givenIds answer = found.map fun dev => UInt16.ofNat ((internAll table found).idxOf dev) := by
  have all := interning.result res ok
  rw [givenIds, all]
  apply List.ext_getElem?
  intro k
  rw [List.getElem?_map, List.getElem?_map]
  by_cases inside : k < found.length
  · rw [List.getElem?_range inside, List.getElem?_eq_getElem inside]
    exact congrArg some (interning.numbers res ok k _ (List.getElem?_eq_getElem inside))
  · rw [List.getElem?_eq_none (by rw [List.length_range]; exact Nat.le_of_not_lt inside),
      List.getElem?_eq_none (Nat.le_of_not_lt inside)]
    rfl

/-- A call that has the ids of what was found names the devices by their places,
and makes proxies of those that are new. -/
theorem finish_findDevices {spec : List HwioCompSpec} {held found : List DevPtr}
    (room : held.length ≤ 65536) (room' : (internAll held found).length ≤ 65536)
    {h : HwioPacketHeader} {rx : List Byte} {seen : List HwioDeviceRemote}
    (known : proxyIds seen = Hub.numbers held) (command : h.command = HwioCmd.queryResp.code)
    (ids : replyIds h rx =
      found.map fun dev => UInt16.ofNat ((internAll held found).idxOf dev)) :
    ((Op.findDevices spec).finish h rx seen).1 =
        .ok (.devices (found.map (internAll held found).idxOf)) ∧
      proxyIds ((Op.findDevices spec).finish h rx seen).2 =
        Hub.numbers (internAll held found) := by
  have distinct : (proxyIds seen).Nodup := by
    rw [known]
    exact numbers_nodup room
  obtain ⟨proxies, places⟩ := devicesFromIds_interns spec (replyIds h rx) distinct
  have table := numbers_internAll room'
  rw [known, ids, table] at proxies places
  rw [Op.finish, if_neg (not_not_intro command), ids]
  refine ⟨congrArg (fun found => Except.ok (Result.devices found)) ?_, proxies⟩
  rw [places, List.map_map]
  apply List.map_congr_left
  intro dev member
  have listed : dev ∈ internAll held found := mem_internAll.mpr (Or.inr member)
  exact numbers_idxOf room' (List.idxOf_lt_length_of_mem listed)

/-! ## One lookup -/

section

variable {tables : Tables World} {hub : Hub World} {owner : ClientPtr}
  {header : HwioPacketHeader} {ctx : Ctx World} (meets : hub.Meets owner ctx)

include meets

theorem performed_findDevices {spec : List HwioCompSpec} (carried : Carried spec)
    (asked : Frame.received header ctx.rx = (Op.findDevices spec).frame) :
    let done := hub.perform tables (owner, .findDevices spec)
    Performed tables (.findDevices spec) header ctx (hub.held owner) done.1 done.2.world
      (done.2.held owner) := by
  intro done
  obtain ⟨lookup, decoded⟩ := lookup_request tables carried.encodable carried.some carried.few asked
  have turn := lookup_inTurn tables carried asked
  obtain ⟨registered, interning⟩ := handleMsg_interning tables header meets.fresh meets.devices
  obtain ⟨result, world, finds, looking, _, ended⟩ := deviceLookupResp_cases tables spec.length ctx
  obtain ⟨left, searched⟩ := findOnBuses_findOnAll spec tables.buses 0 ctx
  rw [decoded] at looking
  rw [looking, meets.world] at left searched
  simp only at left searched
  simp only [done, Hub.perform, Hub.lookUp]
  rcases searching : Hub.findOnAll spec tables.buses hub.world with ⟨all, world'⟩
  rw [searching] at left searched
  obtain rfl : world = world' := left
  rcases ended with ⟨exn, rfl, handled⟩ | ⟨found, rfl, results, handled⟩
  · obtain rfl : all = none := searched.symm
    exact performed_unpromised (by rw [lookup, handled]) (by
      rw [lookup, handled]
      exact meets.devices)
  obtain rfl : all = some found := searched.symm
  have found' := registering_found tables found ctx world finds
  rw [meets.fresh, List.nil_append, results] at found'
  have holds := @registerDevices_hold _ tables found 0 (ctx.registering world finds)
    (hub.held owner) meets.devices
  rcases registering : registerDevices tables found 0 (ctx.registering world finds) with
    ⟨result, last⟩
  rw [registering] at handled found' holds
  simp only
  rcases holding : Hub.hold tables found (hub.held owner) world with ⟨all, held, world'⟩
  obtain ⟨left, devices, ended⟩ := holds
  rw [show (ctx.registering world finds).world = world from rfl, holding] at left devices ended
  simp only at left devices ended
  cases result with
  | error stop =>
      obtain rfl : false = all := ended
      rw [if_neg (by simp)]
      simp only [Function.update_self]
      exact performed_unpromised (by rw [lookup, handled]; exact left) (by
        rw [lookup, handled]
        exact devices)
  | ok done =>
  obtain rfl : true = all := ended
  simp only at handled
  simp only [Function.update_self, true_and]
  by_cases fits : sizeofHeader + sizeofDevId * found.length ≤ bufferSize
  case neg =>
    rw [if_neg fits]
    exact performed_unpromised (by rw [lookup, handled]; exact left) (by
      rw [lookup, handled]
      exact devices)
  rw [if_pos fits]
  rw [lookup, handled] at interning
  obtain rfl : found = registered := by
    have same := interning.result _ rfl
    exact found'.symm.trans same
  have table : held = internAll (hub.held owner) found := by
    have same := devices.symm.trans interning.devices
    exact List.map_injective_iff.mpr (Option.some_injective _) same
  have short : sizeofHeader + sizeofDevId * (foundIn (handleMsg tables header ctx).2.calls).length ≤
      bufferSize := by
    rw [lookup, handled, found']
    exact fits
  exact {
    world := by rw [lookup, handled]; exact left
    devices := by rw [lookup, handled]; exact devices
    inTurn := fun _ _ => turn
    answered := by
      intro _ _
      have ok : (handleMsg tables header ctx).1 =
          .ok ⟨false, sizeofHeader + (replyHeader last.tx).bodyLen.toNat⟩ := by
        rw [lookup, handled]
      obtain ⟨_, _, bodyLen, _⟩ := lookup_replied meets.fresh carried asked short ok
      rw [lookup, handled, found'] at bodyLen
      exact ⟨_, ok, bodyLen ▸ fits, fun _ => by simp [sizeofHeader]⟩
    returned := by
      intro other same _ frame rx seen bytes taken known
      obtain rfl := Upshot.returned.inj same
      obtain ⟨_, _, command, ids⟩ := lookup_taken meets.fresh carried asked short bytes taken
      rw [lookup, handled, givenIds_of_interning interning rfl] at ids
      rw [table]
      exact finish_findDevices meets.room (interning.room meets.room) known command ids
    refused := fun impossible => by cases impossible }

/-- The request of a call does on the server what the call does on the hub. -/
theorem Hub.Meets.performed {op : Op} (intact : op.Intact tables) (fits : op.Fits)
    (asked : Frame.received header ctx.rx = op.frame) :
    let done := hub.perform tables (owner, op)
    Performed tables op header ctx (hub.held owner) done.1 done.2.world (done.2.held owner) := by
  cases op with
  | ping => exact performed_ping meets asked
  | findDevices spec => exact performed_findDevices meets intact asked
  | read id offset n => exact performed_read meets intact asked
  | write id offset data => exact performed_write meets fits asked
  | remoteCall id fnName args retSize => exact performed_remoteCall meets intact asked
  | remoteCallFast id fnId args retSize => exact performed_remoteCallFast meets intact fits asked
  | getRpcFnId id fnName => exact performed_getRpcFnId meets intact asked
  | isRpcAvailable id fnName => exact performed_isRpcAvailable meets intact asked

end

/-! ## What a call leaves to the others -/

namespace Hub

variable (tables : Tables World) (hub : Hub World) (owner : ClientPtr)

theorem hold_room (found : List DevPtr) {held : List DevPtr} (room : held.length ≤ 65536)
    (world : World) : (hold tables found held world).2.1.length ≤ 65536 := by
  induction found generalizing held world with
  | nil => exact room
  | cons dev rest inductionHypothesis =>
      rw [hold]
      by_cases known : dev ∈ held
      · rw [if_pos known]
        exact inductionHypothesis room world
      rw [if_neg known]
      by_cases below : held.length < 65536
      · rw [if_pos below]
        have more : (held ++ [dev]).length ≤ 65536 := by
          rw [List.length_append]
          exact below
        rcases (tables.device dev).attach world with ⟨thrown, world⟩
        cases thrown with
        | none => exact inductionHypothesis more world
        | some exn => exact more
      · rw [if_neg below]
        exact room

theorem onDevice_held {id : UInt16} {act : DevPtr → Upshot × Hub World}
    (keeps : ∀ dev, (act dev).2.held = hub.held) :
    (hub.onDevice owner id act).2.held = hub.held := by
  unfold onDevice
  cases hub.device owner id with
  | none => rfl
  | some dev => exact keeps dev

/-- Only a lookup changes what is held. -/
theorem perform_held {op : Op} (other : ∀ spec, op ≠ .findDevices spec) :
    (hub.perform tables (owner, op)).2.held = hub.held := by
  cases op with
  | ping => rfl
  | findDevices spec => exact absurd rfl (other spec)
  | read id offset n => exact hub.onDevice_held owner fun _ => rfl
  | write id offset data =>
      by_cases limit : maxDevices ≤ id.toNat
      · simp only [perform, if_pos limit]
      · simp only [perform, if_neg limit]
        exact hub.onDevice_held owner fun _ => rfl
  | remoteCall id fnName args retSize =>
      apply hub.onDevice_held owner
      intro dev
      cases tables.findPlugin fnName with
      | none => rfl
      | some plugin => rfl
  | remoteCallFast id fnId args retSize =>
      apply hub.onDevice_held owner
      intro dev
      cases tables.pluginsFast[fnId.toNat]? with
      | none => rfl
      | some plugin => rfl
  | getRpcFnId id fnName => exact hub.onDevice_held owner fun _ => rfl
  | isRpcAvailable id fnName => exact hub.onDevice_held owner fun _ => rfl

/-- A call changes at most what its own client holds, within the room there is. -/
theorem perform_updates (op : Op) :
    ∃ held, (hub.perform tables (owner, op)).2.held = Function.update hub.held owner held ∧
      ((hub.held owner).length ≤ 65536 → held.length ≤ 65536) := by
  by_cases lookup : ∃ spec, op = .findDevices spec
  · obtain ⟨spec, rfl⟩ := lookup
    simp only [perform, lookUp]
    rcases findOnAll spec tables.buses hub.world with ⟨all, world⟩
    cases all with
    | none => exact ⟨hub.held owner, (Function.update_eq_self ..).symm, id⟩
    | some found =>
        exact ⟨_, rfl, fun room => hold_room tables found room world⟩
  · refine ⟨hub.held owner, ?_, id⟩
    rw [Function.update_eq_self]
    exact hub.perform_held tables owner fun spec same => lookup ⟨spec, same⟩

theorem perform_other {other : ClientPtr} (apart : other ≠ owner) (op : Op) :
    (hub.perform tables (owner, op)).2.held other = hub.held other := by
  obtain ⟨held, same, _⟩ := hub.perform_updates tables owner op
  rw [same, Function.update_of_ne apart]

/-- Calls of others leave alone what a client holds. -/
theorem held_of_others {order : List (ClientPtr × Op)} (others : callsOf owner order = []) :
    (runAll (perform tables) order hub).2.held owner = hub.held owner := by
  induction order generalizing hub with
  | nil => rfl
  | cons entry rest inductionHypothesis =>
      obtain ⟨other, op⟩ := entry
      by_cases own : other = owner
      · subst own
        rw [callsOf_cons_self] at others
        cases others
      · rw [callsOf_cons_other own] at others
        rw [runAll]
        exact (inductionHypothesis _ others).trans
          (hub.perform_other tables other (Ne.symm own) op)

end Hub

end Hwio
