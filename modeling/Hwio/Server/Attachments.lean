import Mathlib.Data.List.Induction
import Hwio.Server.Answers
import Hwio.Server.DeviceIds

/-!
Contract: which of the registered devices were attached.

Owns the attach calls that returned in a history, when every device in the list
of a connection is one of them, and what a call that throws leaves there.

Does not own ids, or what attaching does to a device.
-/

namespace Hwio

open Library

variable {World : Type}

/-! ## One request -/

/-- The devices whose attach call returned: an exception that leaves a request
comes out of its last call. -/
def attachSuccesses : Handled World → List DevPtr
  | (.error (.thrown _), ctx) => attachedIn ctx.calls.dropLast
  | (_, ctx) => attachedIn ctx.calls

/-- The device whose attach call threw. -/
def attachFailure : Handled World → Option DevPtr
  | (.error (.thrown _), ctx) =>
    match ctx.calls.getLast? with
    | some (.attach dev) => some dev
    | _ => none
  | _ => none

/-- The new devices of a list without gaps are registered at its end, each
attached once; the last of them is left there when its attach call throws. -/
theorem registerDevice_places (tables : Tables World) (dev : DevPtr) {ctx : Ctx World}
    {table : List DevPtr} (listed : ctx.devices = table.map some) :
    ∃ made, (registerDevice tables dev ctx).2.devices = (table ++ made).map some ∧
      (registerDevice tables dev ctx).2.calls = ctx.calls ++ made.map .attach ∧
      made.Nodup ∧ (∀ other ∈ made, other ∉ table) ∧
      ∀ exn, (registerDevice tables dev ctx).1 = .error (.thrown exn) → made ≠ [] := by
  have none : ∀ result : Except Stop UInt16,
      (∀ exn, result ≠ .error (.thrown exn)) →
      ∃ made, ctx.devices = (table ++ made).map some ∧ ctx.calls = ctx.calls ++ made.map .attach ∧
        made.Nodup ∧ (∀ other ∈ made, other ∉ table) ∧
        ∀ exn, result = .error (.thrown exn) → made ≠ [] := by
    intro result quiet
    exact ⟨[], by rw [listed, List.append_nil], by simp, List.nodup_nil, by simp,
      fun exn thrown => absurd thrown (quiet exn)⟩
  unfold registerDevice
  simp only [listed]
  by_cases known : dev ∈ table
  · rw [searchSlot_of_mem known]
    exact listed ▸ none _ nofun
  · rw [searchSlot_of_not_mem known]
    simp only [Bool.false_eq_true, if_false, placeDevice, List.length_map]
    split
    · exact none _ nofun
    · rename_i devId devices place
      split at place
      · cases place
        have placed : table.map some ++ [some dev] = (table ++ [dev]).map some := by simp
        split
        · exact ⟨[dev], placed, rfl, List.nodup_singleton dev, by simpa using known, by simp⟩
        · exact ⟨[dev], placed, rfl, List.nodup_singleton dev, by simpa using known, by simp⟩
      · cases place

theorem registerDevices_places (tables : Tables World) (devs : List DevPtr) (i : Nat)
    {ctx : Ctx World} {table : List DevPtr} (listed : ctx.devices = table.map some) :
    ∃ made, (registerDevices tables devs i ctx).2.devices = (table ++ made).map some ∧
      (registerDevices tables devs i ctx).2.calls = ctx.calls ++ made.map .attach ∧
      made.Nodup ∧ (∀ other ∈ made, other ∉ table) ∧
      ∀ exn, (registerDevices tables devs i ctx).1 = .error (.thrown exn) → made ≠ [] := by
  induction devs generalizing i ctx table with
  | nil => exact ⟨[], by simp [registerDevices, listed], by simp [registerDevices],
      List.nodup_nil, by simp, nofun⟩
  | cons dev rest inductionHypothesis =>
      obtain ⟨first, devices, calls, distinct, fresh, thrown⟩ :=
        registerDevice_places tables dev listed
      rw [registerDevices]
      rcases registering : registerDevice tables dev ctx with ⟨result, left⟩
      rw [registering] at devices calls thrown
      cases result with
      | error stop =>
          refine ⟨first, devices, calls, distinct, fresh, fun exn same => thrown exn ?_⟩
          cases same
          rfl
      | ok devId =>
          simp only
          obtain ⟨more, devices', calls', distinct', fresh', thrown'⟩ :=
            @inductionHypothesis (i + 1) { left with
              tx := store (setBodyLen left.tx ((replyHeader left.tx).bodyLen.toNat + sizeofDevId))
                (sizeofHeader + sizeofDevId * i) (u16Bytes devId) } (table ++ first) devices
          refine ⟨first ++ more, ?_, ?_, ?_, ?_, ?_⟩
          · rw [devices', List.append_assoc]
          · rw [calls', show left.calls = _ from calls, List.map_append, List.append_assoc]
          · refine List.nodup_append'.mpr ⟨distinct, distinct', fun other one two => ?_⟩
            exact fresh' other two (List.mem_append_right _ one)
          · intro other member
            rcases List.mem_append.mp member with one | two
            · exact fresh other one
            · exact fun old => fresh' other two (List.mem_append_left _ old)
          · intro exn same empty
            exact thrown' exn same (List.append_eq_nil_iff.mp empty).2

/-- What a request makes of a device list without gaps: the devices it adds are
those it attached, but perhaps for the last. -/
structure Attaching (table made : List DevPtr) (answer : Handled World) : Prop where
  devices : answer.2.devices = (table ++ made).map some
  outcome : (attachSuccesses answer = made ∧ attachFailure answer = none) ∨
    ∃ earlier dev, made = earlier ++ [dev] ∧ dev ∉ table ∧ dev ∉ earlier ∧
      attachSuccesses answer = earlier ∧ attachFailure answer = some dev

/-- A request without attach calls. -/
theorem quiet_attaching {table : List DevPtr} {answer : Handled World}
    (devices : answer.2.devices = table.map some)
    (quiet : ∀ call ∈ answer.2.calls, ∀ dev, call ≠ .attach dev) : Attaching table [] answer where
  devices := by rw [devices, List.append_nil]
  outcome := by
    have none : ∀ calls : List Call, (∀ call ∈ calls, call ∈ answer.2.calls) →
        attachedIn calls = [] := by
      intro calls among
      refine List.filterMap_eq_nil_iff.mpr fun call member => ?_
      have other := quiet call (among call member)
      cases call with
      | attach dev => exact absurd rfl (other dev)
      | _ => rfl
    left
    constructor
    · unfold attachSuccesses
      split
      · exact none _ fun call member => List.dropLast_subset _ member
      · exact none _ fun call member => member
    · unfold attachFailure
      split
      · split
        · rename_i dev last
          exact absurd rfl (quiet _ (List.mem_of_getLast? last) dev)
        · rfl
      · rfl

/-- A request that looked devices up and attached some. -/
theorem registered_attaching {table made : List DevPtr} {answer : Handled World}
    {lookups : List Call} (finds : OnlyFind lookups)
    (devices : answer.2.devices = (table ++ made).map some)
    (calls : answer.2.calls = lookups ++ made.map .attach) (distinct : made.Nodup)
    (fresh : ∀ dev ∈ made, dev ∉ table)
    (thrown : ∀ exn, answer.1 = .error (.thrown exn) → made ≠ []) :
    Attaching table made answer where
  devices := devices
  outcome := by
    have attached : ∀ devs : List DevPtr, attachedIn (lookups ++ devs.map .attach) = devs := by
      intro devs
      rw [attachedIn_append, finds.attachedIn, attachedIn_map_attach, List.nil_append]
    by_cases stopped : ∃ exn, answer.1 = .error (.thrown exn)
    · right
      obtain ⟨exn, stop⟩ := stopped
      obtain ⟨earlier, dev, rfl⟩ := (List.eq_nil_or_concat' made).resolve_left (thrown exn stop)
      have split : answer.2.calls = (lookups ++ earlier.map .attach) ++ [.attach dev] := by
        rw [calls, List.map_append, List.append_assoc]
        rfl
      have apart := List.nodup_append'.mp distinct
      rcases answer with ⟨result, ctx⟩
      simp only at stop split
      subst stop
      refine ⟨earlier, dev, rfl, fresh dev (by simp),
        fun early => apart.2.2 early (List.mem_singleton.mpr rfl), ?_, ?_⟩
      · show attachedIn ctx.calls.dropLast = earlier
        rw [split, List.dropLast_concat, attached]
      · simp only [attachFailure, split, List.getLast?_concat]
    · left
      constructor
      · unfold attachSuccesses
        split
        · rename_i exn ctx
          exact absurd ⟨exn, rfl⟩ stopped
        · rw [calls, attached]
      · unfold attachFailure
        split
        · rename_i exn ctx
          exact absurd ⟨exn, rfl⟩ stopped
        · rfl

/-- A query that registered what it found. -/
theorem registering_attaching (tables : Tables World) {ctx : Ctx World} {table : List DevPtr}
    (fresh : ctx.calls = []) (listed : ctx.devices = table.map some) {world : World}
    {finds : List Call} (onlyFind : OnlyFind finds) (found : List DevPtr) {answer : Handled World}
    (left : answer.2 = (registerDevices tables found 0 (ctx.registering world finds)).2)
    (same : ∀ exn, answer.1 = .error (.thrown exn) →
      (registerDevices tables found 0 (ctx.registering world finds)).1 = .error (.thrown exn)) :
    ∃ made, Attaching table made answer := by
  obtain ⟨made, devices, calls, distinct, new, thrown⟩ :=
    @registerDevices_places _ tables found 0 (ctx.registering world finds) table listed
  have called : (ctx.registering world finds).calls = finds := by
    show ctx.calls ++ finds = finds
    rw [fresh, List.nil_append]
  rw [← left] at devices calls
  rw [called] at calls
  exact ⟨made, registered_attaching onlyFind devices calls distinct new
    fun exn stopped => thrown exn (same exn stopped)⟩

theorem handleQuery_attaching (tables : Tables World) (header : HwioPacketHeader)
    {ctx : Ctx World} {table : List DevPtr} (fresh : ctx.calls = [])
    (listed : ctx.devices = table.map some) :
    ∃ made, Attaching table made (handleQuery tables header ctx) := by
  have queried := handleQuery_queried tables header ctx
  generalize handleQuery tables header ctx = answer at queried ⊢
  cases queried with
  | refused code message early =>
      refine ⟨[], quiet_attaching listed fun call member dev same => ?_⟩
      rw [show (ctx.sendErr code message).2.calls = [] from fresh] at member
      cases member
  | @thrown exn world finds onlyFind looking =>
      refine ⟨[], quiet_attaching listed fun call member dev same => ?_⟩
      rw [fresh, List.nil_append] at member
      obtain ⟨bus, specs, found, rfl⟩ := onlyFind call member
      cases same
  | @stopped world finds found stop last onlyFind looking results registered =>
      apply registering_attaching tables fresh listed onlyFind found
      · rw [registered]
      · intro exn same
        rw [registered]
        cases same
        rfl
  | @answered world finds found last onlyFind looking results registered =>
      apply registering_attaching tables fresh listed onlyFind found
      · rw [registered]
      · intro exn same
        cases same

theorem handleMsg_attaching (tables : Tables World) (header : HwioPacketHeader)
    {ctx : Ctx World} {table : List DevPtr} (fresh : ctx.calls = [])
    (listed : ctx.devices = table.map some) :
    ∃ made, Attaching table made (handleMsg tables header ctx) := by
  by_cases query : HwioCmd.ofCode header.command = some .query
  · rw [handleMsg_query tables query]
    exact handleQuery_attaching tables header fresh listed
  · have own := handleMsg_onOwn tables query fresh
    refine ⟨[], quiet_attaching (own.devices.trans listed) fun call member dev same => ?_⟩
    rcases own.calls with none | ⟨made, target, one, reached, _⟩
    · rw [none] at member
      cases member
    · rw [one, List.mem_singleton] at member
      rw [← member, same] at reached
      cases reached

/-! ## Histories -/

/-- The devices that the handling of a dispatched frame attaches. -/
def attachedFor (tables : Tables World) (service : Service World) : Event → List DevPtr
  | .dispatched client _ header rx =>
    attachSuccesses (handleMsg tables header (service.request client rx))
  | _ => []

/-- The devices that were attached for any connection. -/
def attachedSoFar (tables : Tables World) (service : Service World) : List Event → List DevPtr
  | [] => []
  | event :: rest =>
    attachedFor tables service event ++ attachedSoFar tables (service.step tables event) rest

theorem attachedSoFar_append (tables : Tables World) (service : Service World)
    (first second : List Event) :
    attachedSoFar tables service (first ++ second) =
      attachedSoFar tables service first ++
        attachedSoFar tables (service.after tables first) second := by
  induction first generalizing service with
  | nil => rfl
  | cons event rest inductionHypothesis =>
      rw [List.cons_append, attachedSoFar, attachedSoFar, inductionHypothesis, List.append_assoc]
      rfl

/-- Every device in the list of a connection was attached. -/
def AllAttached (tables : Tables World) (start : Service World) (history : List Event) : Prop :=
  ∀ client devices dev, (start.after tables history).devices client = some devices →
    some dev ∈ devices → dev ∈ attachedSoFar tables start history

/-- The attach calls that throw in the handling of a frame are on devices that
were attached before. -/
def AttachKept (tables : Tables World) (start : Service World) (front : List Event) :
    Event → Prop
  | .dispatched client _ header rx =>
    ∀ dev ∈ attachFailure (handleMsg tables header ((start.after tables front).request client rx)),
      dev ∈ attachedSoFar tables start front
  | _ => True

/-- No attach call throws in the handling of a frame. -/
def AttachReturns (tables : Tables World) (start : Service World) (front : List Event) :
    Event → Prop
  | .dispatched client _ header rx =>
    attachFailure (handleMsg tables header ((start.after tables front).request client rx)) = none
  | _ => True

instance (tables : Tables World) (start : Service World) (front : List Event) :
    ∀ event, Decidable (AttachReturns tables start front event)
  | .dispatched .. => inferInstanceAs (Decidable (attachFailure _ = none))
  | .opened _ | .accepted _ | .created .. | .visited _ | .copied .. | .received .. | .called ..
  | .sent .. | .handled .. | .removed _ | .closed _ | .readFreed _ => isTrue trivial

theorem AttachReturns.kept {tables : Tables World} {start : Service World} {front : List Event}
    {event : Event} (returns : AttachReturns tables start front event) :
    AttachKept tables start front event := by
  cases event with
  | dispatched client offset header rx =>
      intro dev threw
      rw [show attachFailure _ = none from returns] at threw
      cases threw
  | _ => exact trivial

/-- Only attached devices are registered: at every moment the listed devices were
attached; a device whose attach call threw is in the list of its client only
when an attach call for it has returned since; and requests reach only devices
that were attached before. -/
structure OnlyAttached (tables : Tables World) (start : Service World)
    (history : List Event) : Prop where
  listed : ∀ front back, history = front ++ back → AllAttached tables start front
  again : ∀ front client offset header rx middle back,
    history = front ++ (.dispatched client offset header rx :: middle) ++ back →
      ∀ dev ∈ attachFailure (handleMsg tables header ((start.after tables front).request client rx)),
        ∀ devices,
          (start.after tables (front ++ .dispatched client offset header rx :: middle)).devices
            client = some devices → some dev ∈ devices →
              dev ∈ attachedSoFar tables
                (start.after tables (front ++ [.dispatched client offset header rx])) middle
  reached : ∀ front client offset header rx back,
    history = front ++ .dispatched client offset header rx :: back →
      ∀ call ∈ (handleMsg tables header ((start.after tables front).request client rx)).2.calls,
        ∀ dev, call.target = some dev → dev ∈ attachedSoFar tables start front

/-- No device list has an empty slot. -/
def NoGaps (service : Service World) : Prop :=
  ∀ client devices, service.devices client = some devices →
    ∃ table : List DevPtr, devices = table.map some

theorem NoGaps.request {service : Service World} (noGaps : NoGaps service) (client : ClientPtr)
    (rx : List Byte) :
    ∃ table : List DevPtr, (service.request client rx).devices = table.map some := by
  unfold Service.request
  cases listed : service.devices client with
  | none => exact ⟨[], rfl⟩
  | some devices => exact noGaps client devices listed

theorem NoGaps.step {tables : Tables World} {service : Service World} (noGaps : NoGaps service)
    (event : Event) : NoGaps (service.step tables event) := by
  cases event with
  | created made fd =>
      intro client devices listed
      by_cases same : client = made
      · simp only [Service.step, same, Function.update_self, Option.some.injEq] at listed
        exact ⟨[], listed.symm⟩
      · simp only [Service.step, Function.update_of_ne same] at listed
        exact noGaps client devices listed
  | removed gone =>
      intro client devices listed
      by_cases same : client = gone
      · simp [Service.step, same] at listed
      · simp only [Service.step, Function.update_of_ne same] at listed
        exact noGaps client devices listed
  | dispatched owner offset header rx =>
      intro client devices listed
      by_cases same : client = owner
      · subst same
        obtain ⟨table, ungapped⟩ := noGaps.request client rx
        obtain ⟨made, attaching⟩ := handleMsg_attaching tables header rfl ungapped
        simp only [Service.step, Service.answered, Function.update_self, Option.some.injEq] at listed
        exact ⟨table ++ made, listed.symm.trans attaching.devices⟩
      · simp only [Service.step, Service.answered, Function.update_of_ne same] at listed
        exact noGaps client devices listed
  | _ => exact noGaps

theorem NoGaps.after {tables : Tables World} {service : Service World} (noGaps : NoGaps service)
    (history : List Event) : NoGaps (service.after tables history) := by
  induction history generalizing service with
  | nil => exact noGaps
  | cons event rest inductionHypothesis => exact inductionHypothesis (noGaps.step event)

/-- A frame keeps that all listed devices were attached just when its attach
calls that throw are on devices that were attached before. -/
theorem allAttached_dispatched_iff {tables : Tables World} {start : Service World}
    {front : List Event} (noGaps : NoGaps (start.after tables front))
    (all : AllAttached tables start front) (client : ClientPtr) (offset : Nat)
    (header : HwioPacketHeader) (rx : List Byte) :
    AllAttached tables start (front ++ [.dispatched client offset header rx]) ↔
      AttachKept tables start front (.dispatched client offset header rx) := by
  obtain ⟨table, ungapped⟩ := noGaps.request client rx
  obtain ⟨made, attaching⟩ := handleMsg_attaching tables header rfl ungapped
  have old : ∀ dev ∈ table, dev ∈ attachedSoFar tables start front := by
    intro dev member
    have listed : some dev ∈ ((start.after tables front).devices client).getD [] := by
      show some dev ∈ ((start.after tables front).request client rx).devices
      rw [ungapped]
      exact List.mem_map_of_mem member
    cases has : (start.after tables front).devices client with
    | none =>
        rw [has] at listed
        cases listed
    | some devices =>
        rw [has] at listed
        exact all client devices dev has listed
  have soFar : attachedSoFar tables start (front ++ [.dispatched client offset header rx]) =
      attachedSoFar tables start front ++
        attachSuccesses (handleMsg tables header ((start.after tables front).request client rx)) := by
    rw [attachedSoFar_append]
    exact congrArg _ (List.append_nil _)
  have after : (start.after tables (front ++ [.dispatched client offset header rx])).devices =
      Function.update (start.after tables front).devices client
        (some ((table ++ made).map some)) := by
    rw [Service.after_append, ← attaching.devices]
    rfl
  have own : AllAttached tables start (front ++ [.dispatched client offset header rx]) ↔
      ∀ dev ∈ made, dev ∈ attachedSoFar tables start front ∨ dev ∈
        attachSuccesses (handleMsg tables header ((start.after tables front).request client rx)) := by
    unfold AllAttached
    rw [after, soFar]
    constructor
    · intro every dev member
      have here := every client _ dev (Function.update_self ..)
        (List.mem_map_of_mem (List.mem_append_right table member))
      exact List.mem_append.mp here
    · intro new other devices dev listed member
      rw [List.mem_append]
      by_cases same : other = client
      · rw [same, Function.update_self, Option.some.injEq] at listed
        rw [← listed, List.mem_map_of_injective (Option.some_injective _)] at member
        rcases List.mem_append.mp member with known | added
        · exact Or.inl (old dev known)
        · exact new dev added
      · rw [Function.update_of_ne same] at listed
        exact Or.inl (all other devices dev listed member)
  rw [own]
  simp only [AttachKept]
  rcases attaching.outcome with ⟨successes, quiet⟩ |
    ⟨earlier, last, rfl, notListed, notEarlier, successes, threw⟩
  · rw [successes, quiet]
    exact iff_of_true (fun dev member => Or.inr member) nofun
  · rw [successes, threw]
    constructor
    · intro every dev fell
      cases fell
      rcases every last (by simp) with before | now
      · exact before
      · exact absurd now notEarlier
    · intro kept dev member
      rcases List.mem_append.mp member with early | end'
      · exact Or.inr early
      · rw [List.mem_singleton.mp end']
        exact Or.inl (kept last rfl)

/-- Other events keep it. -/
theorem allAttached_other {tables : Tables World} {start : Service World} {front : List Event}
    (all : AllAttached tables start front) {event : Event}
    (other : ∀ client offset header rx, event ≠ .dispatched client offset header rx) :
    AllAttached tables start (front ++ [event]) := by
  have soFar : attachedSoFar tables start (front ++ [event]) =
      attachedSoFar tables start front := by
    rw [attachedSoFar_append, attachedSoFar, attachedSoFar, List.append_nil]
    cases event with
    | dispatched client offset header rx => exact absurd rfl (other _ _ _ _)
    | _ => exact List.append_nil _
  intro client devices dev listed member
  rw [soFar]
  rw [Service.after_append] at listed
  change ((start.after tables front).step tables event).devices client = some devices at listed
  cases event with
  | created made fd =>
      by_cases same : client = made
      · simp only [Service.step, same, Function.update_self, Option.some.injEq] at listed
        rw [← listed] at member
        cases member
      · simp only [Service.step, Function.update_of_ne same] at listed
        exact all client devices dev listed member
  | removed gone =>
      by_cases same : client = gone
      · simp [Service.step, same] at listed
      · simp only [Service.step, Function.update_of_ne same] at listed
        exact all client devices dev listed member
  | dispatched owner offset header rx => exact absurd rfl (other _ _ _ _)
  | _ => exact all client devices dev listed member

/-- All listed devices are attached at every moment of a history just when
every attach call that throws is on a device that was attached before. -/
theorem allAttached_iff {tables : Tables World} {start : Service World}
    (empty : ∀ client, start.devices client = none) (history : List Event) :
    (∀ front back, history = front ++ back → AllAttached tables start front) ↔
      Justified (AttachKept tables start) history := by
  have noGaps : NoGaps start := by
    intro client devices listed
    rw [empty] at listed
    cases listed
  have step : ∀ front event, AllAttached tables start front →
      (AllAttached tables start (front ++ [event]) ↔ AttachKept tables start front event) := by
    intro front event all
    cases event with
    | dispatched client offset header rx =>
        exact allAttached_dispatched_iff (noGaps.after front) all client offset header rx
    | _ => exact iff_of_true (allAttached_other all nofun) trivial
  constructor
  · intro all front event back split
    refine (step front event (all front _ split)).mp (all (front ++ [event]) back ?_)
    rw [split, List.append_assoc, List.singleton_append]
  · intro kept front
    induction front using List.reverseRecOn with
    | nil =>
        intro back _ client devices dev listed
        rw [show (start.after tables []).devices client = none from empty client] at listed
        cases listed
    | append_singleton front event inductionHypothesis =>
        intro back split
        rw [List.append_assoc, List.singleton_append] at split
        exact (step front event (inductionHypothesis _ split)).mpr (kept front event back split)

/-- A device whose attach call throws is left in the list of the client. -/
theorem failed_attach_stays {tables : Tables World} {service : Service World}
    (noGaps : NoGaps service) (client : ClientPtr) (header : HwioPacketHeader) (rx : List Byte)
    {dev : DevPtr} (threw : attachFailure (handleMsg tables header (service.request client rx)) =
      some dev) : some dev ∈ (handleMsg tables header (service.request client rx)).2.devices := by
  obtain ⟨table, ungapped⟩ := noGaps.request client rx
  obtain ⟨made, attaching⟩ := handleMsg_attaching tables header rfl ungapped
  rcases attaching.outcome with ⟨_, quiet⟩ | ⟨earlier, last, rfl, _, _, _, failed⟩
  · rw [threw] at quiet
    cases quiet
  · rw [threw] at failed
    cases failed
    rw [attaching.devices]
    exact List.mem_map_of_mem (by simp)

/-- Only attached devices are registered in a history just when none of its
attach calls throws. -/
theorem onlyAttached_iff {tables : Tables World} {start : Service World}
    (empty : ∀ client, start.devices client = none) (history : List Event) :
    OnlyAttached tables start history ↔ Justified (AttachReturns tables start) history := by
  have noGaps : NoGaps start := by
    intro client devices listed
    rw [empty] at listed
    cases listed
  constructor
  · intro only front event back split
    cases event with
    | dispatched client offset header rx =>
        cases threw : attachFailure
            (handleMsg tables header ((start.after tables front).request client rx)) with
        | none => exact threw
        | some dev =>
            -- the device is there at once, and nothing was attached since
            have stays := failed_attach_stays (noGaps.after front) client header rx threw
            have since := only.again front client offset header rx [] back
              (by rw [split, List.append_assoc]; rfl) dev threw _
              (by rw [Service.after_append]; exact Function.update_self ..) stays
            cases since
    | _ => exact trivial
  · intro returns
    have listed := (allAttached_iff empty history).mpr
      fun front event back split => (returns front event back split).kept
    refine ⟨listed, ?_, ?_⟩
    · intro front client offset header rx middle back split dev threw
      rw [List.append_assoc, List.cons_append] at split
      rw [show attachFailure _ = none from returns front _ _ split] at threw
      cases threw
    · intro front client offset header rx back split call member dev target
      have owned : some dev ∈ ((start.after tables front).devices client).getD [] :=
        (handleMsg_confined tables header rfl).targets call member dev target
      cases has : (start.after tables front).devices client with
      | none =>
          rw [has] at owned
          cases owned
      | some devices =>
          rw [has] at owned
          exact listed front _ split client devices dev has owned

/-! ## Runs -/

namespace HwioServer

/-- In every run: only attached devices are registered just when no attach call
of the run throws, and then the devices in the lists of all connections that are
left have had an attach call that returned. -/
theorem listed_devices_attached_iff {tables : Tables World} {master : Fd} {tx : List Byte}
    {world : World} {server : HwioServer World}
    (reached : Reached (prepared tables master tx world) server) :
    let start := (prepared tables master tx world).service
    server.service = start.after tables server.trace ∧
      (OnlyAttached tables start server.trace ↔
        Justified (AttachReturns tables start) server.trace) ∧
      (Justified (AttachReturns tables start) server.trace →
        ∀ client record dev, server.heap client = some record → some dev ∈ record.devices →
          dev ∈ attachedSoFar tables start server.trace) := by
  intro start
  have only := @onlyAttached_iff _ tables start (fun _ => rfl) server.trace
  refine ⟨reached.service_prepared, only, fun returns client record dev live listed => ?_⟩
  refine (only.mpr returns).listed server.trace [] (List.append_nil _).symm client record.devices
    dev ?_ listed
  rw [← reached.service_prepared]
  simp [HwioServer.service, live]

theorem queried_device_attached :
    let server := loneRun oneDevice [] () queryFrame
    some 0 ∈ ((server.heap 0).map ClientInfo.devices).getD [] ∧
      0 ∈ attachedSoFar oneDevice (prepared oneDevice 3 [] ()).service server.trace := by
  intro server
  have returns : Justified (AttachReturns oneDevice (prepared oneDevice 3 [] ()).service)
      server.trace := by
    decide +kernel
  have listed : some 0 ∈ ((server.heap 0).map ClientInfo.devices).getD [] := by
    decide +kernel
  have reached : Reached (prepared oneDevice 3 [] ()) server := loneRun_reached ..
  have all := (listed_devices_attached_iff reached).2.2 returns
  refine ⟨listed, ?_⟩
  cases live : server.heap 0 with
  | none =>
      rw [live] at listed
      cases listed
  | some record =>
      rw [live] at listed
      exact all 0 record 0 live listed

/-- The server of `oneDevice` when the device cannot be attached. -/
def noDevice : Tables Unit :=
  { oneDevice with
    device := fun dev => { oneDevice.device dev with
      attach := fun world => (some ⟨true, text "Can not mmap memory"⟩, world) } }

/-- The device stays in the list of the client, a second QUERY answers with its
id without an attach call, and a READ reaches it. -/
theorem failed_attach_listed :
    let server := loneRun noDevice (List.replicate bufferSize 0) () queryFrame
    let again := handleMsg noDevice ⟨6, 396⟩ (server.service.request 0 (queryFrame.drop 3))
    let read := handleMsg noDevice ⟨1, 8⟩ (server.service.request 0 [0, 0, 0, 0, 0, 0, 1, 0])
    let start := prepared noDevice 3 (List.replicate bufferSize 0) ()
    Reached start server ∧ (server.heap 0).map ClientInfo.devices = some [some 0] ∧
      attachedSoFar noDevice start.service server.trace = [] ∧
      again.1 = .ok ⟨false, 5⟩ ∧ attachedIn again.2.calls = [] ∧ read.2.calls = [.read 0 0 1] :=
  ⟨loneRun_reached .., by decide +kernel, by decide +kernel, by decide +kernel, by decide +kernel,
    by decide +kernel⟩

end HwioServer

end Hwio
