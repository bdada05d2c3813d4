import Hwio.Library.History
import Hwio.Library.Interning
import Hwio.Server.Isolation

/-!
Contract: the ids under which a connection knows its devices.

Owns the table that the registration of devices keeps for a connection, the ids
of a reply to a query, and their stability in every run.

Does not own what the buses find.
-/

namespace Hwio

open Library

variable {World : Type}

/-! ## The search for a slot -/

theorem searchSlot_of_mem {dev : DevPtr} {table : List DevPtr} (known : dev ∈ table)
    (devId : UInt16) :
    searchSlot dev (table.map some) devId none =
      ⟨devId + UInt16.ofNat (table.idxOf dev), none, true⟩ := by
  induction table generalizing devId with
  | nil => cases known
  | cons head rest inductionHypothesis =>
      rw [List.map_cons, searchSlot]
      by_cases same : head = dev
      · rw [if_pos (congrArg some same), same, List.idxOf_cons_self]
        simp
      · have later : dev ∈ rest := (List.mem_cons.mp known).resolve_left (Ne.symm same)
        rw [if_neg (fun equal => same (Option.some.inj equal)), if_neg (by simp),
          inductionHypothesis later, List.idxOf_cons_ne rest same, Nat.succ_eq_add_one,
          Nat.add_comm (rest.idxOf dev) 1, UInt16.ofNat_add, ← UInt16.add_assoc]
        rfl

theorem searchSlot_of_not_mem {dev : DevPtr} {table : List DevPtr} (unknown : dev ∉ table)
    (devId : UInt16) :
    searchSlot dev (table.map some) devId none =
      ⟨devId + UInt16.ofNat table.length, none, false⟩ := by
  induction table generalizing devId with
  | nil => simp [searchSlot]
  | cons head rest inductionHypothesis =>
      have apart : ¬(some head = some dev) := by
        intro equal
        exact unknown (List.mem_cons.mpr (Or.inl (Option.some.inj equal).symm))
      rw [List.map_cons, searchSlot, if_neg apart, if_neg (by simp),
        inductionHypothesis (fun later => unknown (List.mem_cons_of_mem head later)),
        List.length_cons, Nat.add_comm rest.length 1, UInt16.ofNat_add, ← UInt16.add_assoc]
      rfl

/-! ## Registration -/

/-- The devices to be attached do attach. -/
def Attaches (tables : Tables World) (devs : List DevPtr) : Prop :=
  ∀ dev ∈ devs, ∀ world, ((tables.device dev).attach world).1 = none

/-- Registration over a table: a known device keeps its number, and a new one
is attached under the next number, if there is one. -/
theorem registerDevice_table (tables : Tables World) (dev : DevPtr) {ctx : Ctx World}
    {table : List DevPtr} (listed : ctx.devices = table.map some) :
    registerDevice tables dev ctx =
      if dev ∈ table then (.ok (UInt16.ofNat (table.idxOf dev)), ctx)
      else if table.length < 65536 then
        (match ((tables.device dev).attach ctx.world).1 with
          | none => .ok (UInt16.ofNat table.length)
          | some exn => .error (.thrown exn),
        { ctx with
          devices := (table ++ [dev]).map some
          world := ((tables.device dev).attach ctx.world).2
          calls := ctx.calls ++ [.attach dev] })
      else (.error (.aborted .deviceLookupResp), ctx) := by
  unfold registerDevice
  by_cases known : dev ∈ table
  · have search := searchSlot_of_mem known 0
    rw [← listed] at search
    simp only [search, if_true, if_pos known, UInt16.zero_add]
  have search := searchSlot_of_not_mem known 0
  rw [← listed] at search
  simp only [search, if_neg known, if_false, Bool.false_eq_true, UInt16.zero_add]
  unfold placeDevice
  simp only [listed, List.length_map]
  by_cases below : table.length < 65536
  · rw [if_pos (UInt16.toNat_ofNat_of_lt' below).symm, if_pos below, List.map_append]
    cases ((tables.device dev).attach ctx.world).1 <;> rfl
  · have wraps : table.length ≠ (UInt16.ofNat table.length).toNat := by
      intro same
      apply below
      rw [same]
      exact UInt16.toNat_lt _
    rw [if_neg wraps, if_neg below]

/-- Registering a device numbers it in the table of the connection and attaches
it when it is new there; without room for its number it is only refused. -/
theorem registerDevice_interns (tables : Tables World) (dev : DevPtr) {ctx : Ctx World}
    {table : List DevPtr} (listed : ctx.devices = table.map some) :
    registerDevice tables dev ctx = (.error (.aborted .deviceLookupResp), ctx) ∨
      ∃ result world, registerDevice tables dev ctx =
          (result,
            { ctx with
              devices := (intern table dev).map some
              world := world
              calls := ctx.calls ++ if dev ∈ table then [] else [.attach dev] }) ∧
        (table.length ≤ 65536 → (intern table dev).length ≤ 65536) ∧
        ∀ devId, result = .ok devId → devId = UInt16.ofNat ((intern table dev).idxOf dev) := by
  rw [registerDevice_table tables dev listed]
  by_cases known : dev ∈ table
  · right
    rw [if_pos known, intern_of_mem known, if_pos known, List.append_nil, ← listed]
    exact ⟨_, ctx.world, rfl, id, fun devId number => (Except.ok.inj number).symm⟩
  rw [if_neg known]
  by_cases below : table.length < 65536
  · right
    rw [if_pos below, intern_of_not_mem known, if_neg known, List.idxOf_append_of_notMem known,
      List.idxOf_cons_self, Nat.add_zero, List.length_append]
    refine ⟨_, _, rfl, fun _ => below, fun devId number => ?_⟩
    cases attached : ((tables.device dev).attach ctx.world).1 with
    | none =>
        rw [attached] at number
        exact (Except.ok.inj number).symm
    | some exn =>
        rw [attached] at number
        cases number
  · left
    rw [if_neg below]

/-- The place of an id in the reply. -/
def idOffset (k : Nat) : Nat := sizeofHeader + sizeofDevId * k

/-- Registration numbers devices from the front of its list and attaches those
that are new; when it returns it has numbered all, and their numbers are written
one behind the other. -/
theorem registerDevices_interns (tables : Tables World) (devs : List DevPtr) {i : Nat}
    {ctx : Ctx World} {table : List DevPtr} (listed : ctx.devices = table.map some) :
    let registering := registerDevices tables devs i ctx
    ∃ registered, registered <+: devs ∧
      (table.length ≤ 65536 → (internAll table registered).length ≤ 65536) ∧
      registering.2.devices = (internAll table registered).map some ∧
      registering.2.calls = ctx.calls ++ (newItems table registered).map .attach ∧
      (registering.1 = .ok () → registered = devs ∧
        (∀ k, k < i → loadU16 registering.2.tx (idOffset k) = loadU16 ctx.tx (idOffset k)) ∧
        ∀ k dev, devs[k]? = some dev →
          loadU16 registering.2.tx (idOffset (i + k)) =
            UInt16.ofNat ((internAll table devs).idxOf dev)) := by
  induction devs generalizing i ctx table with
  | nil => exact ⟨[], List.prefix_rfl, id, listed, (List.append_nil _).symm, by simp [registerDevices]⟩
  | cons dev rest inductionHypothesis =>
      have grown := prefix_internAll (intern table dev) rest
      rw [registerDevices]
      rcases registerDevice_interns tables dev listed with full | ⟨result, world, one, room, number⟩
      · rw [full]
        exact ⟨[], List.nil_prefix, id, listed, (List.append_nil _).symm, by simp⟩
      rw [one]
      have calls : ∀ registered : List DevPtr,
          (ctx.calls ++ if dev ∈ table then [] else [Call.attach dev]) ++
              (newItems (intern table dev) registered).map .attach =
            ctx.calls ++ (newItems table (dev :: registered)).map .attach := by
        intro registered
        rw [newItems, List.append_assoc]
        by_cases known : dev ∈ table
        · simp only [if_pos known, List.nil_append, intern_of_mem known]
        · simp only [if_neg known, List.singleton_append, List.map_cons, intern_of_not_mem known]
      cases result with
      | error stop =>
          refine ⟨[dev], ⟨rest, rfl⟩, room, rfl, ?_, by simp⟩
          rw [← calls [], newItems, List.map_nil, List.append_nil]
      | ok devId =>
      obtain rfl := number devId rfl
      simp only
      generalize written : store (setBodyLen ctx.tx ((replyHeader ctx.tx).bodyLen.toNat +
        sizeofDevId)) (sizeofHeader + sizeofDevId * i)
        (u16Bytes (UInt16.ofNat ((intern table dev).idxOf dev))) = tx
      have earlier : ∀ k, k < i → loadU16 tx (idOffset k) = loadU16 ctx.tx (idOffset k) := by
        intro k before
        rw [← written]
        simp only [loadU16, idOffset, setBodyLen, sizeofHeader, sizeofDevId]
        rw [load_store_apart _ (Or.inl (by omega)),
          load_store_apart _ (Or.inr (by rw [leBytes_length]; omega))]
      have here : loadU16 tx (idOffset i) = UInt16.ofNat ((intern table dev).idxOf dev) := by
        apply loadU16_of_load
        rw [← written]
        exact load_store_same _ _ (u16Bytes _)
      obtain ⟨registered, front, more, devices, called, ended⟩ := @inductionHypothesis (i + 1)
        { ctx with
          tx := tx
          devices := (intern table dev).map some
          world := world
          calls := ctx.calls ++ if dev ∈ table then [] else [.attach dev] } _ rfl
      refine ⟨dev :: registered, List.cons_prefix_cons.mpr ⟨rfl, front⟩,
        fun before => more (room before), devices, called.trans (calls registered),
        fun returned => ?_⟩
      obtain ⟨all, kept, numbers⟩ := ended returned
      refine ⟨congrArg (dev :: ·) all, fun k before => ?_, fun k other found => ?_⟩
      · rw [kept k (Nat.lt_succ_of_lt before)]
        exact earlier k before
      · cases k with
        | zero =>
            cases found
            show loadU16 _ (idOffset i) = _
            rw [kept i (Nat.lt_succ_self i), here, internAll_cons,
              idxOf_of_prefix grown (mem_intern_self table dev)]
        | succ k =>
            rw [Nat.add_comm k 1, ← Nat.add_assoc]
            exact numbers k other found

/-- A result is registered when the table has room for it and its devices
attach. -/
theorem registerDevices_returns {tables : Tables World} {devs : List DevPtr} {i : Nat}
    {ctx : Ctx World} {table : List DevPtr} (listed : ctx.devices = table.map some)
    (room : (internAll table devs).length ≤ 65536) (attaches : Attaches tables devs) :
    (registerDevices tables devs i ctx).1 = .ok () := by
  induction devs generalizing i ctx table with
  | nil => rfl
  | cons dev rest inductionHypothesis =>
      have grown := prefix_internAll (intern table dev) rest
      have returned : ∃ devId, (registerDevice tables dev ctx).1 = .ok devId := by
        rw [registerDevice_table tables dev listed]
        by_cases known : dev ∈ table
        · rw [if_pos known]
          exact ⟨_, rfl⟩
        · have below := Nat.le_trans grown.length_le room
          rw [intern_of_not_mem known, List.length_append] at below
          rw [if_neg known, if_pos (show table.length < 65536 from below),
            attaches dev List.mem_cons_self]
          exact ⟨_, rfl⟩
      obtain ⟨devId, returned⟩ := returned
      rw [registerDevices]
      rcases registerDevice_interns tables dev listed with full | ⟨result, world, one, _, _⟩
      · rw [full] at returned
        cases returned
      · rw [one] at returned
        rw [one]
        cases returned
        exact inductionHypothesis rfl room fun other member =>
          attaches other (List.mem_cons_of_mem dev member)

/-! ## One query -/

/-- The devices that some calls attach, in order. -/
def attachedIn (calls : List Call) : List DevPtr :=
  calls.filterMap fun
    | .attach dev => some dev
    | _ => none

theorem attachedIn_append (first second : List Call) :
    attachedIn (first ++ second) = attachedIn first ++ attachedIn second :=
  List.filterMap_append

theorem attachedIn_map_attach (devs : List DevPtr) : attachedIn (devs.map .attach) = devs := by
  unfold attachedIn
  rw [List.filterMap_map]
  exact List.filterMap_some

theorem OnlyFind.attachedIn {calls : List Call} (finds : OnlyFind calls) :
    attachedIn calls = [] := by
  refine List.filterMap_eq_nil_iff.mpr fun call member => ?_
  obtain ⟨bus, specs, found, rfl⟩ := finds call member
  rfl

theorem OnOwn.quiet {ctx left : Ctx World} (own : OnOwn ctx left) :
    foundIn left.calls = [] ∧ attachedIn left.calls = [] := by
  rcases own.calls with none | ⟨call, dev, one, target, _⟩
  · rw [none]
    exact ⟨rfl, rfl⟩
  · rw [one]
    cases call with
    | find bus specs found => cases target
    | attach other => cases target
    | read _ _ _ | write _ _ _ | plugin _ _ _ => exact ⟨rfl, rfl⟩

/-- What a request does to the table of its connection: devices from the front
of what it found are numbered, and the new ones attached; in a reply they are
all that was found, with their numbers. -/
structure Interning (table registered : List DevPtr) (answer : Handled World) : Prop where
  devices : answer.2.devices = (internAll table registered).map some
  attached : attachedIn answer.2.calls = newItems table registered
  room : table.length ≤ 65536 → (internAll table registered).length ≤ 65536
  found : registered <+: foundIn answer.2.calls
  result : ∀ res, answer.1 = .ok res → foundIn answer.2.calls = registered
  numbers : ∀ res, answer.1 = .ok res → ∀ k dev, registered[k]? = some dev →
    loadU16 answer.2.tx (idOffset k) = UInt16.ofNat ((internAll table registered).idxOf dev)

theorem interning_none {table : List DevPtr} {answer : Handled World}
    (devices : answer.2.devices = table.map some) (attached : attachedIn answer.2.calls = [])
    (result : ∀ res, answer.1 = .ok res → foundIn answer.2.calls = []) :
    Interning table [] answer where
  devices := devices
  attached := attached
  room := id
  found := List.nil_prefix
  result := result
  numbers res ok k dev found := by cases found

/-- The registration of what was found numbers it from the front. -/
theorem registering_interns (tables : Tables World) {ctx : Ctx World} {table : List DevPtr}
    (fresh : ctx.calls = []) (listed : ctx.devices = table.map some) {world : World}
    {finds : List Call} {found : List DevPtr} (onlyFind : OnlyFind finds)
    (results : foundIn finds = found) :
    let registering := registerDevices tables found 0 (ctx.registering world finds)
    ∃ registered, registering.2.devices = (internAll table registered).map some ∧
      attachedIn registering.2.calls = newItems table registered ∧
      (table.length ≤ 65536 → (internAll table registered).length ≤ 65536) ∧
      registered <+: foundIn registering.2.calls ∧
      (registering.1 = .ok () → foundIn registering.2.calls = registered ∧
        ∀ k dev, registered[k]? = some dev →
          loadU16 registering.2.tx (idOffset k) =
            UInt16.ofNat ((internAll table registered).idxOf dev)) := by
  intro registering
  obtain ⟨registered, front, room, devices, called, ended⟩ := @registerDevices_interns _ tables
    found 0 (ctx.registering world finds) table listed
  have lookedUp : foundIn registering.2.calls = found := by
    rw [registering_found, fresh, List.nil_append, results]
  have calls : (ctx.registering world finds).calls = finds := by
    show ctx.calls ++ finds = finds
    rw [fresh, List.nil_append]
  rw [calls] at called
  refine ⟨registered, devices, ?_, room, ?_, fun returned => ?_⟩
  · rw [called, attachedIn_append, onlyFind.attachedIn, attachedIn_map_attach, List.nil_append]
  · rw [lookedUp]
    exact front
  · obtain ⟨all, _, numbers⟩ := ended returned
    rw [all]
    refine ⟨lookedUp, fun k dev at_k => ?_⟩
    have number := numbers k dev at_k
    rw [Nat.zero_add] at number
    exact number

/-- A query numbers what it found. -/
theorem handleQuery_interning (tables : Tables World) (header : HwioPacketHeader)
    {ctx : Ctx World} {table : List DevPtr} (fresh : ctx.calls = [])
    (listed : ctx.devices = table.map some) :
    ∃ registered, Interning table registered (handleQuery tables header ctx) := by
  have queried := handleQuery_queried tables header ctx
  generalize handleQuery tables header ctx = answer at queried ⊢
  cases queried with
  | refused code message early =>
      refine ⟨[], interning_none listed ?_ fun res ok => ?_⟩
      · show attachedIn ctx.calls = []
        rw [fresh]
        rfl
      · show foundIn ctx.calls = []
        rw [fresh]
        rfl
  | @thrown exn world finds onlyFind looking =>
      refine ⟨[], interning_none listed ?_ nofun⟩
      rw [fresh, List.nil_append, onlyFind.attachedIn]
  | @stopped world finds found stop last onlyFind looking results registering =>
      obtain ⟨registered, devices, attached, room, front, _⟩ :=
        @registering_interns _ tables ctx table fresh listed world finds found onlyFind results
      rw [registering] at devices attached front
      exact ⟨registered, devices, attached, room, front, nofun, nofun⟩
  | @answered world finds found last onlyFind looking results registering =>
      obtain ⟨registered, devices, attached, room, front, ended⟩ :=
        @registering_interns _ tables ctx table fresh listed world finds found onlyFind results
      rw [registering] at devices attached front ended
      obtain ⟨all, numbers⟩ := ended rfl
      exact ⟨registered, devices, attached, room, front, fun _ _ => all, fun _ _ => numbers⟩

/-- A query is answered with all that was found, when there is room for it in
the table and the new devices attach. -/
theorem deviceLookupResp_returns {tables : Tables World} {count : Nat} {ctx : Ctx World}
    (fresh : ctx.calls = []) {table found : List DevPtr} (listed : ctx.devices = table.map some)
    (looked : (findOnBuses (extractSpecFromClientQuery ctx.rx count) tables.buses 0 ctx).1 =
      .ok found)
    (room : (internAll table found).length ≤ 65536) (attaches : Attaches tables found) :
    (∃ size, (deviceLookupResp tables count ctx).1 = .ok ⟨false, size⟩) ∧
      foundIn (deviceLookupResp tables count ctx).2.calls = found := by
  obtain ⟨result, world, finds, looking, _, ended⟩ := deviceLookupResp_cases tables count ctx
  rw [looking] at looked
  rcases ended with ⟨exn, same, _⟩ | ⟨found', same, results, left⟩
  · rw [same] at looked
    cases looked
  rw [same] at looked
  cases looked
  have returned := @registerDevices_returns _ tables found 0 (ctx.registering world finds) table
    listed room attaches
  have lookedUp := registering_found tables found ctx world finds
  rw [fresh, List.nil_append, results] at lookedUp
  rw [left]
  rcases registering : registerDevices tables found 0 (ctx.registering world finds) with
    ⟨result, final⟩
  rw [registering] at returned lookedUp
  simp only at returned
  subst returned
  exact ⟨⟨_, rfl⟩, lookedUp⟩

/-- A reply to a query counts the bytes of the ids of what was found. -/
theorem queryResp_bodyLen {tables : Tables World} {header : HwioPacketHeader}
    (query : HwioCmd.ofCode header.command = some .query) {ctx : Ctx World}
    (fresh : ctx.calls = []) {res : PProcRes} (ok : (handleMsg tables header ctx).1 = .ok res)
    (reply : (replyHeader (handleMsg tables header ctx).2.tx).command = HwioCmd.queryResp.code) :
    (replyHeader (handleMsg tables header ctx).2.tx).bodyLen.toNat =
      sizeofDevId * (foundIn (handleMsg tables header ctx).2.calls).length % 65536 := by
  rw [handleMsg_query tables query] at ok reply ⊢
  have queried := handleQuery_queried tables header ctx
  generalize handleQuery tables header ctx = answer at queried ok reply ⊢
  cases queried with
  | refused code message early =>
      have refusal : (replyHeader (sendErr code message ctx.tx).2).command = HwioCmd.msg.code := by
        rw [replyHeader_sendErr]
      exact absurd (refusal.symm.trans reply) (by decide)
  | thrown onlyFind looking => cases ok
  | stopped onlyFind looking results registered => cases ok
  | @answered world finds found last onlyFind looking results registered =>
      have lookedUp := registering_found tables found ctx world finds
      obtain ⟨_, _, _, tx, _, left, _, _, _, counted, complete⟩ := registerDevices_spec tables
        found 0 (ctx.registering world finds) (registering_room ctx world finds)
      rw [registered] at left complete lookedUp
      rw [if_pos rfl] at complete
      rw [fresh, List.nil_append, results] at lookedUp
      rw [lookedUp, show last.tx = tx from congrArg Ctx.tx left, counted, complete]
      show ((replyHeader (setBodyLen (setCommand ctx.tx .queryResp) 0)).bodyLen.toNat + _) % _ = _
      rw [replyHeader_setBodyLen]
      simp

theorem handleMsg_interning (tables : Tables World) (header : HwioPacketHeader) {ctx : Ctx World}
    {table : List DevPtr} (fresh : ctx.calls = []) (listed : ctx.devices = table.map some) :
    ∃ registered, Interning table registered (handleMsg tables header ctx) := by
  by_cases query : HwioCmd.ofCode header.command = some .query
  · rw [handleMsg_query tables query]
    exact handleQuery_interning tables header fresh listed
  · have own := handleMsg_onOwn tables query fresh
    exact ⟨[], interning_none (own.devices.trans listed) own.quiet.2 fun _ _ => own.quiet.1⟩

/-! ## Services with a bounded population -/

/-- The buses find devices of a population of less than 65536, which attach. -/
structure Serves (tables : Tables World) (population : Finset DevPtr) : Prop where
  small : population.card < 65536
  found : ∀ bus ∈ tables.buses, ∀ specs world devs,
    (bus.findDevices specs world).1 = .ok devs → ∀ dev ∈ devs, dev ∈ population
  attach : ∀ dev ∈ population, ∀ world, ((tables.device dev).attach world).1 = none

theorem findOnBuses_within {tables : Tables World} {population : Finset DevPtr}
    (serves : Serves tables population) (specs : List HwioCompSpec)
    {buses : List (IhwioBus World)} (served : ∀ bus ∈ buses, bus ∈ tables.buses) (index : Nat)
    {ctx : Ctx World} (before : ∀ dev ∈ foundIn ctx.calls, dev ∈ population) :
    ∀ dev ∈ foundIn (findOnBuses specs buses index ctx).2.calls, dev ∈ population := by
  induction buses generalizing index ctx with
  | nil => exact before
  | cons bus rest inductionHypothesis =>
      rw [findOnBuses]
      rcases looking : bus.findDevices specs ctx.world with ⟨result, world⟩
      cases result with
      | error exn =>
          simpa [foundIn] using before
      | ok here =>
          have later := @inductionHypothesis
            (fun other member => served other (List.mem_cons_of_mem bus member)) (index + 1)
            { ctx with world := world, calls := ctx.calls ++ [.find index specs (some here)] } (by
              intro dev member
              rw [foundIn_append] at member
              rcases List.mem_append.mp member with old | new
              · exact before dev old
              · apply serves.found bus (served bus List.mem_cons_self) specs ctx.world here
                · rw [looking]
                · simpa [foundIn] using new)
          simp only
          rcases goingOn : findOnBuses specs rest (index + 1)
            { ctx with world := world, calls := ctx.calls ++ [.find index specs (some here)] }
            with ⟨more, last⟩
          rw [goingOn] at later
          cases more <;> exact later

/-- Every device that a request finds is one of the population. -/
theorem Serves.found_within {tables : Tables World} {population : Finset DevPtr}
    (serves : Serves tables population) {header : HwioPacketHeader} {ctx : Ctx World}
    (fresh : ctx.calls = []) :
    ∀ dev ∈ foundIn (handleMsg tables header ctx).2.calls, dev ∈ population := by
  have before : ∀ dev ∈ foundIn ctx.calls, dev ∈ population := by
    rw [fresh]
    intro dev member
    cases member
  by_cases query : HwioCmd.ofCode header.command = some .query
  swap
  · rw [(handleMsg_onOwn tables query fresh).quiet.1]
    intro dev member
    cases member
  rw [handleMsg_query tables query]
  have queried := handleQuery_queried tables header ctx
  have within := findOnBuses_within serves
    (extractSpecFromClientQuery ctx.rx (header.bodyLen.toNat / sizeofDevQueryItem))
    (fun _ member => member) 0 before
  generalize handleQuery tables header ctx = answer at queried ⊢
  cases queried with
  | refused code message early => exact before
  | @thrown exn world finds onlyFind looking =>
      rw [looking] at within
      exact within
  | @stopped world finds found stop last onlyFind looking results registered =>
      have kept := registering_found tables found ctx world finds
      rw [registered] at kept
      rw [looking] at within
      rw [kept]
      exact within
  | @answered world finds found last onlyFind looking results registered =>
      have kept := registering_found tables found ctx world finds
      rw [registered] at kept
      rw [looking] at within
      rw [kept]
      exact within

/-- A table of a population has room for a number of each of its devices. -/
theorem internAll_room {tables : Tables World} {population : Finset DevPtr}
    (serves : Serves tables population) {table found : List DevPtr} (distinct : table.Nodup)
    (known : ∀ dev ∈ table, dev ∈ population) (within : ∀ dev ∈ found, dev ∈ population) :
    (internAll table found).length < 65536 := by
  refine Nat.lt_of_le_of_lt
    (length_le_of_population (internAll_nodup distinct found) fun dev member => ?_) serves.small
  rcases mem_internAll.mp member with old | new
  · exact known dev old
  · exact within dev new

/-- The assertion of a query holds. -/
theorem Serves.holds {tables : Tables World} {population : Finset DevPtr}
    (serves : Serves tables population) {header : HwioPacketHeader} {ctx : Ctx World}
    (fresh : ctx.calls = []) {table : List DevPtr} (listed : ctx.devices = table.map some)
    (distinct : table.Nodup) (known : ∀ dev ∈ table, dev ∈ population) :
    (handleQuery tables header ctx).1 ≠ .error (.aborted .deviceLookupResp) := by
  have before : ∀ dev ∈ foundIn ctx.calls, dev ∈ population := by
    rw [fresh]
    intro dev member
    cases member
  have within := findOnBuses_within serves
    (extractSpecFromClientQuery ctx.rx (header.bodyLen.toNat / sizeofDevQueryItem))
    (fun _ member => member) 0 before
  have queried := handleQuery_queried tables header ctx
  generalize handleQuery tables header ctx = answer at queried ⊢
  cases queried with
  | refused code message early => exact nofun
  | thrown onlyFind looking => exact nofun
  | @stopped world finds found stop last onlyFind looking results registered =>
      rw [looking, fresh, List.nil_append] at within
      simp only [results] at within
      have returned := @registerDevices_returns _ tables found 0 (ctx.registering world finds)
        table listed (Nat.le_of_lt (internAll_room serves distinct known within))
        (fun dev member => serves.attach dev (within dev member))
      rw [registered] at returned
      cases returned
  | answered onlyFind looking results registered => exact nofun

/-! ## Runs -/

/-- The devices that were attached for a connection, in order. -/
def attachedBy (client : ClientPtr) (history : List Event) : List DevPtr :=
  history.filterMap fun
    | .called owner (.attach dev) => if owner = client then some dev else none
    | _ => none

theorem attachedBy_append (client : ClientPtr) (first second : List Event) :
    attachedBy client (first ++ second) = attachedBy client first ++ attachedBy client second :=
  List.filterMap_append

theorem attachedBy_calls (client : ClientPtr) (calls : List Call) :
    attachedBy client (calls.map (.called client)) = attachedIn calls := by
  unfold attachedBy attachedIn
  rw [List.filterMap_map]
  apply List.filterMap_congr
  intro call member
  cases call <;> simp

/-- Events that are no attachments of the connection. -/
theorem attachedBy_eq_nil {client : ClientPtr} {events : List Event}
    (quiet : ∀ event ∈ events, ∀ dev, event ≠ .called client (.attach dev)) :
    attachedBy client events = [] := by
  refine List.filterMap_eq_nil_iff.mpr fun event member => ?_
  have other := quiet event member
  cases event with
  | called owner call =>
      cases call with
      | attach dev =>
          refine if_neg fun same => other dev ?_
          rw [same]
      | find _ _ _ | read _ _ _ | write _ _ _ | plugin _ _ _ => rfl
  | _ => rfl

/-- The answer to a query gives an id for a device that was found. -/
def Gives (tables : Tables World) (header : HwioPacketHeader) (ctx : Ctx World) (id : UInt16)
    (dev : DevPtr) : Prop :=
  let answer := handleMsg tables header ctx
  ∃ res k, answer.1 = .ok res ∧ (foundIn answer.2.calls)[k]? = some dev ∧
    id = loadU16 answer.2.tx (idOffset k)

/-- In the history, an answer on the connection gave the id for the device. -/
def Issued (tables : Tables World) (start : Service World) (history : List Event)
    (client : ClientPtr) (id : UInt16) (dev : DevPtr) : Prop :=
  ∃ header ctx, Requested tables start history client header ctx ∧ Gives tables header ctx id dev

/-- In the history, a request of the connection found the device. -/
def Found (tables : Tables World) (start : Service World) (history : List Event)
    (client : ClientPtr) (dev : DevPtr) : Prop :=
  ∃ header ctx, Requested tables start history client header ctx ∧
    dev ∈ foundIn (handleMsg tables header ctx).2.calls

/-- A table numbers the devices of a connection as its history told. -/
structure Registry (tables : Tables World) (start : Service World) (history : List Event)
    (client : ClientPtr) (table : List DevPtr) : Prop where
  distinct : table.Nodup
  room : table.length ≤ 65536
  found : ∀ dev ∈ table, Found tables start history client dev
  issued : ∀ id dev, Issued tables start history client id dev → table[id.toNat]? = some dev

/-- A request meets the table of its connection as its device list. -/
def Met (tables : Tables World) (start : Service World) (front : List Event) : Event → Prop
  | .dispatched client _ _ _ => ∃ table,
      (start.after tables front).devices client = some (table.map some) ∧
        Registry tables start front client table
  | _ => True

/-- The ids that an answer gives are the numbers of its table. -/
theorem Interning.gives {tables : Tables World} {table registered : List DevPtr}
    {header : HwioPacketHeader} {ctx : Ctx World}
    (interning : Interning table registered (handleMsg tables header ctx))
    (bounded : table.length ≤ 65536) {id : UInt16} {dev : DevPtr}
    (gives : Gives tables header ctx id dev) :
    (internAll table registered)[id.toNat]? = some dev := by
  obtain ⟨res, k, ok, at_k, rfl⟩ := gives
  rw [interning.result res ok] at at_k
  have member : dev ∈ internAll table registered :=
    mem_internAll.mpr (Or.inr (List.mem_of_getElem? at_k))
  have below := List.idxOf_lt_length_of_mem member
  rw [interning.numbers res ok k dev at_k,
    UInt16.toNat_ofNat_of_lt' (Nat.lt_of_lt_of_le below (interning.room bounded))]
  exact List.getElem?_idxOf member

/-- The device list of a table has neither gaps nor repetitions, and its ids
lead to the devices they were given for. -/
theorem Registry.listed {tables : Tables World} {start : Service World} {history : List Event}
    {client : ClientPtr} {table : List DevPtr}
    (registry : Registry tables start history client table) :
    none ∉ table.map some ∧ (table.map some).Nodup ∧
      ∀ id dev, Issued tables start history client id dev →
        clientGetDev (table.map some) id = some dev := by
  refine ⟨by simp, registry.distinct.map (Option.some_injective _), fun id dev issued => ?_⟩
  rw [clientGetDev_eq_some, List.getElem?_map, registry.issued id dev issued]
  rfl

/-- A table stays what it is while its connection makes no request. -/
theorem Registry.append {tables : Tables World} {start : Service World} {history : List Event}
    {client : ClientPtr} {table : List DevPtr}
    (registry : Registry tables start history client table) {later : List Event}
    (quiet : ∀ offset header rx, .dispatched client offset header rx ∉ later) :
    Registry tables start (history ++ later) client table := by
  refine ⟨registry.distinct, registry.room, fun dev member => ?_, ?_⟩
  · obtain ⟨header, ctx, requested, found⟩ := registry.found dev member
    exact ⟨header, ctx, requested.append later, found⟩
  · rintro id dev ⟨header, ctx, requested, gives⟩
    rcases requested_append_iff.mp requested with old | ⟨front, offset, rx, back, split, _⟩
    · exact registry.issued id dev ⟨header, ctx, old, gives⟩
    · exact absurd (by rw [split]; simp) (quiet offset header rx)

/-- A request of the connection numbers the devices it found. -/
theorem Registry.answer {tables : Tables World} {start : Service World} {history : List Event}
    {client : ClientPtr} {table registered : List DevPtr}
    (registry : Registry tables start history client table) {offset : Nat}
    {header : HwioPacketHeader} {rx : List Byte}
    (interning : Interning table registered
      (handleMsg tables header ((start.after tables history).request client rx)))
    {calls : List Call} {later : List Event}
    (progress : ∀ event ∈ later, HwioServer.Progress client event) :
    Registry tables start
      (history ++ HwioServer.answerEvents client offset header rx calls later) client
      (internAll table registered) := by
  have made : Requested tables start
      (history ++ HwioServer.answerEvents client offset header rx calls later) client header
      ((start.after tables history).request client rx) :=
    ⟨history, offset, rx, calls.map (.called client) ++ later, rfl, rfl⟩
  refine ⟨internAll_nodup registry.distinct registered, interning.room registry.room,
    fun dev member => ?_, ?_⟩
  · rcases mem_internAll.mp member with old | new
    · obtain ⟨header', ctx, requested, found⟩ := registry.found dev old
      exact ⟨header', ctx, requested.append _, found⟩
    · exact ⟨header, _, made, interning.found.subset new⟩
  · rintro id dev ⟨header', ctx, requested, gives⟩
    rcases requested_append_iff.mp requested with old | ⟨front, offset', rx', back, split, same⟩
    · exact getElem?_of_isPrefix (prefix_internAll _ _)
        (registry.issued id dev ⟨header', ctx, old, gives⟩)
    · obtain ⟨rfl, _, _, rfl, rfl, _⟩ := HwioServer.dispatched_in_answer progress split
      rw [List.append_nil] at same
      rw [same] at gives
      exact interning.gives registry.room gives

theorem attachedBy_count (client : ClientPtr) (dev : DevPtr) (history : List Event) :
    history.count (.called client (.attach dev)) = (attachedBy client history).count dev := by
  induction history with
  | nil => rfl
  | cons event rest inductionHypothesis =>
      have apart : ∀ events : List Event,
          attachedBy client (event :: events) = attachedBy client [event] ++ attachedBy client events :=
        fun events => attachedBy_append client [event] events
      rw [apart, List.count_append, List.count_cons, inductionHypothesis, Nat.add_comm]
      congr 1
      cases event with
      | called owner call =>
          cases call with
          | attach other =>
              by_cases mine : owner = client
              · simp [attachedBy, mine, List.count_singleton]
              · simp [attachedBy, mine]
          | find _ _ _ | read _ _ _ | write _ _ _ | plugin _ _ _ => simp [attachedBy]
      | _ => simp [attachedBy]

namespace HwioServer

/-- The live connections list the devices of their tables, which are the
devices attached for them; and so did they at every request. -/
structure Interned (tables : Tables World) (start : Service World) (server : HwioServer World) :
    Prop where
  numbered : Numbered server
  unchanged : server.tables = tables
  service : server.service = start.after tables server.trace
  live : ∀ client record, server.heap client = some record →
    record.devices = (attachedBy client server.trace).map some
  registry : ∀ client, Registry tables start server.trace client (attachedBy client server.trace)
  met : Justified (Met tables start) server.trace

/-- Nothing was attached for a connection that is not made yet. -/
theorem Numbered.attachedBy_eq_nil {server : HwioServer World} (numbered : Numbered server)
    {client : ClientPtr} (unborn : server.nextClient ≤ client) :
    attachedBy client server.trace = [] := by
  apply Hwio.attachedBy_eq_nil
  rintro event member dev rfl
  exact Nat.lt_irrefl client (Nat.lt_of_lt_of_le (numbered.acted _ member client rfl) unborn)

/-- The tables are kept by events that neither dispatch nor attach, when the
live records keep their devices or are new and have none. -/
theorem Interned.extend {tables : Tables World} {start : Service World}
    {sys : Sys} {before after : HwioServer World}
    (interned : Interned tables start before) (step : Step sys before after)
    {events : List Event} (trace : after.trace = before.trace ++ events)
    (quiet : ∀ event ∈ events, (∀ client offset header rx, event ≠ .dispatched client offset header rx) ∧
      ∀ client call, event ≠ .called client call)
    (records : ∀ client record, after.heap client = some record →
      (∃ old, before.heap client = some old ∧ record.devices = old.devices) ∨
        before.nextClient ≤ client ∧ record.devices = []) :
    Interned tables start after := by
  obtain ⟨sameTables, more, appended, followed⟩ := step.service
  have same : ∀ client, attachedBy client after.trace = attachedBy client before.trace := by
    intro client
    rw [trace, attachedBy_append,
      Hwio.attachedBy_eq_nil fun event member dev => (quiet event member).2 client _,
      List.append_nil]
  refine ⟨step.numbered interned.numbered, sameTables.trans interned.unchanged, ?_, ?_, ?_, ?_⟩
  · rw [followed, interned.service, interned.unchanged, ← Service.after_append, ← appended]
  · intro client record live
    rw [same]
    rcases records client record live with ⟨old, live', devices⟩ | ⟨unborn, devices⟩
    · rw [devices]
      exact interned.live client old live'
    · rw [devices, interned.numbered.attachedBy_eq_nil unborn]
      rfl
  · intro client
    rw [same, trace]
    exact (interned.registry client).append fun offset header rx member =>
      (quiet _ member).1 client offset header rx rfl
  · rw [trace]
    apply interned.met.append_free
    intro event member front
    have other := (quiet event member).1
    cases event with
    | dispatched client offset header rx => exact absurd rfl (other _ _ _ _)
    | _ => exact trivial

/-- A request meets its table as its device list. -/
theorem Interned.request_listed {tables : Tables World} {start : Service World}
    {server : HwioServer World} (interned : Interned tables start server) {client : ClientPtr}
    {front back : List Event} {offset : Nat} {header : HwioPacketHeader} {rx : List Byte}
    (split : server.trace = front ++ .dispatched client offset header rx :: back) :
    ∃ table : List DevPtr, ((start.after tables front).request client rx).devices = table.map some ∧
      Registry tables start front client table := by
  obtain ⟨table, devices, registry⟩ := interned.met front _ back split
  refine ⟨table, ?_, registry⟩
  show ((start.after tables front).devices client).getD [] = _
  rw [devices]
  rfl

theorem attachedBy_answer {client : ClientPtr} {later : List Event}
    (progress : ∀ event ∈ later, Progress client event) (offset : Nat)
    (header : HwioPacketHeader) (rx : List Byte) (calls : List Call) :
    attachedBy client (answerEvents client offset header rx calls later) = attachedIn calls := by
  have quiet : attachedBy client later = [] := by
    apply Hwio.attachedBy_eq_nil
    rintro event member dev rfl
    cases progress _ member
  show attachedBy client (calls.map (.called client) ++ later) = attachedIn calls
  rw [attachedBy_append, attachedBy_calls, quiet, List.append_nil]

theorem attachedBy_answer_other {client other : ClientPtr} (apart : other ≠ client)
    {later : List Event} (progress : ∀ event ∈ later, Progress client event) (offset : Nat)
    (header : HwioPacketHeader) (rx : List Byte) (calls : List Call) :
    attachedBy other (answerEvents client offset header rx calls later) = [] := by
  apply Hwio.attachedBy_eq_nil
  rintro event member dev rfl
  rcases List.mem_cons.mp member with same | rest
  · cases same
  · rcases List.mem_append.mp rest with call | last
    · obtain ⟨made, _, same⟩ := List.mem_map.mp call
      cases same
      exact apart rfl
    · cases progress _ last

/-- An answered request numbers the devices it found. -/
theorem Interned.answer {tables : Tables World} {start : Service World} {sys : Sys}
    {before : HwioServer World} (interned : Interned tables start before)
    {client : ClientPtr} {record : ClientInfo} (live : before.heap client = some record)
    (step : Step sys before (before.putSession client
      (handleFrame before.tables sys client (before.session record)).2)) :
    Interned tables start (before.putSession client
      (handleFrame before.tables sys client (before.session record)).2) := by
  obtain ⟨sameTables, more, appended, followed⟩ := step.service
  have numbered := step.numbered interned.numbered
  obtain ⟨later, rxBuffer, session, progress⟩ :=
    handleFrame_session before.tables sys client (before.session record)
  have service := interned.service
  have listed := interned.live client record live
  have registry := interned.registry client
  generalize at_header : HwioPacketHeader.at (before.session record).client.rxBuffer.buffer
    (before.session record).client.rxBuffer.currPtr = header at session
  generalize at_offset : (before.session record).client.rxBuffer.currPtr = offset at session
  obtain ⟨registered, interning⟩ := handleMsg_interning tables header
    (show (before.session record).request.calls = [] from rfl) listed
  have devices : (start.after tables before.trace).devices client = some record.devices := by
    rw [← service]
    simp [HwioServer.service, live]
  have request : (start.after tables before.trace).request client
      (before.session record).request.rx = (before.session record).request := by
    rw [Service.request, devices, ← service]
    rfl
  rw [session] at appended followed numbered ⊢
  rw [interned.unchanged] at appended followed numbered sameTables ⊢
  have mine : attachedBy client (before.trace ++ answerEvents client offset header
      (before.session record).request.rx
      (handleMsg tables header (before.session record).request).2.calls later) =
        internAll (attachedBy client before.trace) registered := by
    rw [attachedBy_append, attachedBy_answer progress, interning.attached, internAll_eq_append]
  have others : ∀ other, other ≠ client →
      attachedBy other (before.trace ++ answerEvents client offset header
        (before.session record).request.rx
        (handleMsg tables header (before.session record).request).2.calls later) =
          attachedBy other before.trace := by
    intro other apart
    rw [attachedBy_append, attachedBy_answer_other apart progress, List.append_nil]
  refine ⟨numbered, sameTables, ?_, ?_, ?_, ?_⟩
  · rw [followed, service, ← Service.after_append, ← appended]
  · intro other record' live'
    rcases putSession_live live' with ⟨rfl, rfl⟩ | ⟨apart, there⟩
    · exact interning.devices.trans (congrArg (List.map some) mine.symm)
    · refine (interned.live other record' there).trans (congrArg (List.map some) ?_)
      exact (others other apart).symm
  · intro other
    by_cases same : other = client
    · subst same
      refine (congrArg (Registry tables start _ other) mine).mpr ?_
      rw [← request] at interning
      exact registry.answer interning progress
    · refine (congrArg (Registry tables start _ other) (others other same)).mpr ?_
      apply (interned.registry other).append
      intro offset' header' rx' member
      obtain ⟨front, back, split⟩ := List.append_of_mem member
      exact same (dispatched_in_answer progress split).2.1
  · refine (justified_append_iff before.trace _).mpr ⟨interned.met, fun front event back split => ?_⟩
    cases event with
    | dispatched other offset' header' rx' =>
        obtain ⟨rfl, rfl, _, rfl, rfl, _⟩ := dispatched_in_answer progress split
        rw [List.append_nil]
        exact ⟨attachedBy other before.trace, devices.trans (congrArg some listed), registry⟩
    | _ => exact trivial

theorem Step.interned {tables : Tables World} {start : Service World} {sys : Sys}
    {before after : HwioServer World} (step : Step sys before after)
    (interned : Interned tables start before) : Interned tables start after := by
  have whole := step
  cases step with
  | noted event notice =>
      apply interned.extend whole (show (note event before).trace = before.trace ++ [event] from rfl)
      · intro other member
        rw [List.mem_singleton.mp member]
        cases event <;> first
          | exact absurd notice id
          | exact ⟨(fun _ _ _ _ impossible => by cases impossible),
              (fun _ _ impossible => by cases impossible)⟩
      · exact fun client record live => Or.inl ⟨record, live, rfl⟩
  | allocated socket =>
      apply interned.extend whole (show (allocClient sys socket before).trace =
        before.trace ++ [.created before.nextClient socket] from rfl)
      · intro other member
        rw [List.mem_singleton.mp member]
        exact ⟨(fun _ _ _ _ impossible => by cases impossible),
          (fun _ _ impossible => by cases impossible)⟩
      · intro client record live
        rcases allocClient_live live with ⟨rfl, rfl⟩ | ⟨_, there⟩
        · exact Or.inr ⟨Nat.le_refl _, rfl⟩
        · exact Or.inl ⟨record, there, rfl⟩
  | deleted client record live =>
      apply interned.extend whole (show (deleteClient client record before).trace =
        before.trace ++ .removed client :: closeOnDelete record.fd from rfl)
      · intro event member
        rcases mem_deletion member with rfl | rfl
        · exact ⟨(fun _ _ _ _ impossible => by cases impossible),
            (fun _ _ impossible => by cases impossible)⟩
        · exact ⟨(fun _ _ _ _ impossible => by cases impossible),
            (fun _ _ impossible => by cases impossible)⟩
      · exact fun other left there => Or.inl ⟨left, (deleteClient_live there).2, rfl⟩
  | received client record live =>
      obtain ⟨events, rxBuffer, session, progress⟩ :=
        readFromSocket_session sys client (before.session record)
      rw [session] at whole ⊢
      apply interned.extend whole
        (show (before.putSession client _).trace = before.trace ++ events from rfl)
      · intro event member
        cases progress event member <;> exact ⟨(fun _ _ _ _ impossible => by cases impossible),
          (fun _ _ impossible => by cases impossible)⟩
      · intro other left live'
        rcases putSession_live live' with ⟨rfl, rfl⟩ | ⟨_, there⟩
        · exact Or.inl ⟨record, live, rfl⟩
        · exact Or.inl ⟨left, there, rfl⟩
  | answered client record live complete => exact interned.answer live whole
  | listed socket client =>
      exact interned.extend whole (List.append_nil _).symm (fun event member => by cases member)
        fun other record live => Or.inl ⟨record, live, rfl⟩
  | queued fd =>
      exact interned.extend whole (List.append_nil _).symm (fun event member => by cases member)
        fun other record live => Or.inl ⟨record, live, rfl⟩
  | cleaned =>
      exact interned.extend whole (List.append_nil _).symm (fun event member => by cases member)
        fun other record live => Or.inl ⟨record, live, rfl⟩

theorem Reached.interned {tables : Tables World} {master : Fd} {tx : List Byte} {world : World}
    {server : HwioServer World} (reached : Reached (prepared tables master tx world) server) :
    Interned tables (prepared tables master tx world).service server := by
  apply reached.invariant
  · refine ⟨Reached.numbered .start, rfl, rfl, ?_, ?_, ?_⟩
    · intro client record live
      cases live
    · intro client
      refine ⟨List.nodup_nil, Nat.zero_le _, ?_, ?_⟩
      · intro dev member
        cases member
      · rintro id dev ⟨header, ctx, requested, _⟩
        obtain ⟨front, offset, rx, back, split, _⟩ := requested
        cases front with
        | nil => cases split
        | cons head tail => cases tail <;> cases split
    · exact justified_singleton trivial
  · exact fun sys before after step interned => step.interned interned

/-- In every run in which the buses find less than 65536 different devices,
these attach, and the answers of a connection fit the buffer: its device list
has neither gaps nor repetitions, the assertion of the lookup holds, the ids of
an answer lead to the devices found, in order, and go on doing so as long as
the connection lives; two ids are equal exactly when their devices are; and no
device is attached twice, nor is one given an id without it. -/
theorem device_ids_stable {tables : Tables World} {master : Fd} {tx : List Byte} {world : World}
    {server : HwioServer World} (reached : Reached (prepared tables master tx world) server)
    {population : Finset DevPtr} (serves : Serves tables population) (client : ClientPtr)
    (fits : ∀ header ctx,
      Requested tables (prepared tables master tx world).service server.trace client header ctx →
        sizeofHeader + sizeofDevId * (foundIn (handleMsg tables header ctx).2.calls).length ≤
          bufferSize) :
    let start := (prepared tables master tx world).service
    (∀ header ctx, Requested tables start server.trace client header ctx →
      HwioCmd.ofCode header.command = some .query →
        let answer := handleMsg tables header ctx
        answer.1 ≠ .error (.aborted .deviceLookupResp) ∧
          none ∉ answer.2.devices ∧ answer.2.devices.Nodup ∧
          ∀ res, answer.1 = .ok res →
            (replyHeader answer.2.tx).command = HwioCmd.queryResp.code →
              (replyHeader answer.2.tx).bodyLen.toNat =
                  sizeofDevId * (foundIn answer.2.calls).length ∧
                ∀ k dev, (foundIn answer.2.calls)[k]? = some dev →
                  clientGetDev answer.2.devices (loadU16 answer.2.tx (idOffset k)) = some dev) ∧
      (∀ front offset header rx back,
        server.trace = front ++ .dispatched client offset header rx :: back →
          let devices := ((start.after tables front).request client rx).devices
          none ∉ devices ∧ devices.Nodup ∧
            ∀ id dev, Issued tables start front client id dev →
              clientGetDev devices id = some dev) ∧
      (∀ record, server.heap client = some record →
        none ∉ record.devices ∧ record.devices.Nodup ∧
          ∀ id dev, Issued tables start server.trace client id dev →
            clientGetDev record.devices id = some dev) ∧
      (∀ id id' dev dev', Issued tables start server.trace client id dev →
        Issued tables start server.trace client id' dev' → (id = id' ↔ dev = dev')) ∧
      ∀ dev, server.trace.count (.called client (.attach dev)) ≤ 1 ∧
        ∀ id, Issued tables start server.trace client id dev →
          server.trace.count (.called client (.attach dev)) = 1 := by
  intro start
  have interned := reached.interned
  have registry := interned.registry client
  refine ⟨?_, ?_, ?_, ?_, ?_⟩
  · rintro header ctx ⟨front, offset, rx, back, split, rfl⟩ query answer
    obtain ⟨table, listed, registry⟩ := interned.request_listed split
    have known : ∀ dev ∈ table, dev ∈ population := by
      intro dev member
      obtain ⟨header', _, ⟨_, _, _, _, _, rfl⟩, found⟩ := registry.found dev member
      exact serves.found_within (by rfl) dev found
    have holds := @Serves.holds _ _ _ serves header _ (by rfl) _ listed registry.distinct known
    obtain ⟨registered, interning⟩ := handleMsg_interning tables header (by rfl) listed
    rw [← handleMsg_query tables query] at holds
    refine ⟨holds, ?_, ?_, fun res ok reply => ⟨?_, fun k dev at_k => ?_⟩⟩
    · rw [interning.devices]
      simp
    · rw [interning.devices]
      exact (internAll_nodup registry.distinct registered).map (Option.some_injective _)
    · have short : sizeofHeader + sizeofDevId * (foundIn answer.2.calls).length ≤ bufferSize :=
        fits header _ ⟨front, offset, rx, back, split, rfl⟩
      have counted : (replyHeader answer.2.tx).bodyLen.toNat =
          sizeofDevId * (foundIn answer.2.calls).length % 65536 :=
        queryResp_bodyLen query rfl ok reply
      rw [counted]
      apply Nat.mod_eq_of_lt
      simp only [sizeofHeader, sizeofDevId, bufferSize] at short ⊢
      omega
    · rw [interning.devices, clientGetDev_eq_some, List.getElem?_map,
        interning.gives registry.room ⟨res, k, ok, at_k, rfl⟩]
      rfl
  · intro front offset header rx back split devices
    obtain ⟨table, listed, registry⟩ := interned.request_listed split
    rw [show devices = table.map some from listed]
    exact registry.listed
  · intro record live
    rw [interned.live client record live]
    exact registry.listed
  · intro id id' dev dev' first second
    rw [← UInt16.toNat_inj]
    exact number_eq_iff registry.distinct (registry.issued id dev first)
      (registry.issued id' dev' second)
  · intro dev
    rw [attachedBy_count]
    refine ⟨List.nodup_iff_count_le_one.mp registry.distinct dev, fun id issued => ?_⟩
    exact List.count_eq_one_of_mem registry.distinct
      (List.mem_of_getElem? (registry.issued id dev issued))

/-- The answers to the requests of a history fit the buffer. -/
def answersFit (tables : Tables World) (start : Service World) (client : ClientPtr)
    (history : List Event) : Bool :=
  (List.range history.length).all fun index =>
    match history[index]? with
    | some (.dispatched owner _ header rx) =>
      owner ≠ client || sizeofHeader + sizeofDevId * (foundIn (handleMsg tables header
        ((start.after tables (history.take index)).request client rx)).2.calls).length ≤ bufferSize
    | _ => true

theorem fits_of_answersFit {tables : Tables World} {start : Service World} {client : ClientPtr}
    {history : List Event} (fit : answersFit tables start client history = true)
    {header : HwioPacketHeader} {ctx : Ctx World}
    (requested : Requested tables start history client header ctx) :
    sizeofHeader + sizeofDevId * (foundIn (handleMsg tables header ctx).2.calls).length ≤
      bufferSize := by
  obtain ⟨index, offset, rx, found, rfl⟩ := requested.getElem?
  have inside := List.mem_range.mpr (List.getElem?_eq_some_iff.mp found).1
  have here := List.all_eq_true.mp fit index inside
  simpa [found] using here

theorem queried_twice_ids_stable :
    let server := loneRun oneDevice [] () (queryFrame ++ queryFrame)
    server.trace.count (.called 0 (.attach 0)) = 1 := by
  intro server
  have serves : Serves oneDevice {0} := by
    refine ⟨by decide, ?_, fun _ _ _ => rfl⟩
    intro bus member specs world devs found dev inside
    rw [List.mem_singleton.mp member] at found
    cases found
    exact Finset.mem_singleton.mpr (List.mem_singleton.mp inside)
  have fits : answersFit oneDevice (prepared oneDevice 3 [] ()).service 0 server.trace = true := by
    decide +kernel
  have stable := device_ids_stable (loneRun_reached oneDevice [] () _) serves 0
    fun _ _ => fits_of_answersFit fits
  have split : server.trace = server.trace.take 6 ++
      .dispatched 0 0 ⟨6, 396⟩ ((queryFrame ++ queryFrame).drop 3) :: server.trace.drop 7 := by
    decide +kernel
  refine (stable.2.2.2.2 0).2 0 ⟨_, _, ⟨_, _, _, _, split, rfl⟩, ⟨false, 5⟩, 0, ?_, ?_, ?_⟩
  · decide +kernel
  · decide +kernel
  · decide +kernel

end HwioServer

end Hwio
