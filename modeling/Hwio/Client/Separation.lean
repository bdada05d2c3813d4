import Hwio.Client.System
import Hwio.Library.Noninterference
import Hwio.Server.Simulation

/-!
Contract: clients whose devices are apart.

Owns when the devices of a client have a part of the world to themselves, and
that what such a client gets does not depend on what the others do.

Does not own whether the buses keep the devices of the clients apart.
-/

namespace Hwio

open Library HwioServer

variable {World View : Type}

/-- What is done with some devices and what a view shows belong together: the
devices act on what is seen, and are determined by it, the others leave it alone,
and lookups do both. -/
structure Compartment (tables : Tables World) (mine : DevPtr → Prop) (see : World → View) :
    Prop where
  found : ∀ bus ∈ tables.buses, ∀ spec, Local see (bus.findDevices spec) ∧
    Blind see (bus.findDevices spec)
  attach : ∀ dev, (mine dev → Local see (tables.device dev).attach) ∧
    (¬ mine dev → Blind see (tables.device dev).attach)
  read : ∀ dev offset n, (mine dev → Local see ((tables.device dev).read offset n)) ∧
    (¬ mine dev → Blind see ((tables.device dev).read offset n))
  write : ∀ dev offset data, (mine dev → Local see ((tables.device dev).write offset data)) ∧
    (¬ mine dev → Blind see ((tables.device dev).write offset data))
  invoke : ∀ plugin, tables.Registers plugin → ∀ dev args,
    (mine dev → Local see (plugin.fn dev args)) ∧ (¬ mine dev → Blind see (plugin.fn dev args))

/-- The lookups of a client find its own devices, and those of others do not. -/
def FindsApart (tables : Tables World) (mine : DevPtr → Prop) (owner : ClientPtr)
    (entry : ClientPtr × Op) : Prop :=
  ∀ spec, entry.2 = .findDevices spec → ∀ world found,
    (Hub.findOnAll spec tables.buses world).1 = some found →
      ∀ dev ∈ found, mine dev ↔ entry.1 = owner

/-- Hubs that are the same to a client which holds its own devices. -/
structure Hub.Same (mine : DevPtr → Prop) (see : World → View) (owner : ClientPtr)
    (left right : Hub World) : Prop where
  seen : see left.world = see right.world
  held : left.held owner = right.held owner
  own : ∀ dev ∈ left.held owner, mine dev
  others : ∀ other, other ≠ owner → ∀ dev ∈ left.held other, ¬ mine dev

namespace Hub

section

variable {tables : Tables World} {mine : DevPtr → Prop} {see : World → View}
variable {owner : ClientPtr}

/-! ## Lookups -/

/-- Lookups on buses that leave alone what is seen do so together. -/
theorem findOnAll_blind {spec : List HwioCompSpec} {buses : List (IhwioBus World)}
    (blind : ∀ bus ∈ buses, Blind see (bus.findDevices spec)) :
    Blind see (findOnAll spec buses) := by
  induction buses with
  | nil => exact fun world => rfl
  | cons bus rest inductionHypothesis =>
      have later := inductionHypothesis fun other member => blind other (List.mem_cons_of_mem bus member)
      intro world
      have first := blind bus List.mem_cons_self world
      rw [findOnAll]
      rcases finding : bus.findDevices spec world with ⟨found, world'⟩
      rw [finding] at first
      cases found with
      | error exn => exact first
      | ok found => exact (later world').trans first

theorem findOnAll_local (compartment : Compartment tables mine see) (spec : List HwioCompSpec)
    {buses : List (IhwioBus World)} (part : buses ⊆ tables.buses) :
    Local see (findOnAll spec buses) := by
  induction buses with
  | nil => exact fun left right same => ⟨rfl, same⟩
  | cons bus rest inductionHypothesis =>
      obtain ⟨decided, _⟩ := compartment.found bus (part List.mem_cons_self) spec
      have later := inductionHypothesis fun other member => part (List.mem_cons_of_mem bus member)
      intro left right same
      obtain ⟨result, next⟩ := decided left right same
      rw [findOnAll, findOnAll]
      rcases first : bus.findDevices spec left with ⟨found, world⟩
      rcases second : bus.findDevices spec right with ⟨found', world'⟩
      rw [first, second] at result next
      simp only at result next
      subst result
      cases found with
      | error exn => exact ⟨rfl, next⟩
      | ok found =>
          obtain ⟨more, last⟩ := later world world' next
          exact ⟨congrArg (Option.map (found ++ ·)) more, last⟩

/-- Own devices attach alike where the same is seen. -/
theorem hold_local (compartment : Compartment tables mine see) {found : List DevPtr}
    (own : ∀ dev ∈ found, mine dev) (held : List DevPtr) {left right : World}
    (same : see left = see right) :
    (hold tables found held left).1 = (hold tables found held right).1 ∧
      (hold tables found held left).2.1 = (hold tables found held right).2.1 ∧
      see (hold tables found held left).2.2 = see (hold tables found held right).2.2 := by
  induction found generalizing held left right with
  | nil => exact ⟨rfl, rfl, same⟩
  | cons dev rest inductionHypothesis =>
      have later : ∀ dev ∈ rest, mine dev := fun other member =>
        own other (List.mem_cons_of_mem dev member)
      rw [hold, hold]
      by_cases known : dev ∈ held
      · rw [if_pos known, if_pos known]
        exact inductionHypothesis later held same
      rw [if_neg known, if_neg known]
      by_cases below : held.length < 65536
      · obtain ⟨thrown, next⟩ := (compartment.attach dev).1 (own dev List.mem_cons_self) left right
          same
        rw [if_pos below, if_pos below]
        rcases first : (tables.device dev).attach left with ⟨exn, world⟩
        rcases second : (tables.device dev).attach right with ⟨exn', world'⟩
        rw [first, second] at thrown next
        simp only at thrown next
        subst thrown
        cases exn with
        | none => exact inductionHypothesis later (held ++ [dev]) next
        | some exn => exact ⟨rfl, rfl, next⟩
      · rw [if_neg below, if_neg below]
        exact ⟨rfl, rfl, same⟩

/-- Devices attach unseen when each of them does. -/
theorem hold_blind {tables : Tables World} {found : List DevPtr}
    (blind : ∀ dev ∈ found, Blind see (tables.device dev).attach) (held : List DevPtr)
    (world : World) : see (hold tables found held world).2.2 = see world := by
  induction found generalizing held world with
  | nil => rfl
  | cons dev rest inductionHypothesis =>
      have later : ∀ dev ∈ rest, Blind see (tables.device dev).attach := fun other member =>
        blind other (List.mem_cons_of_mem dev member)
      rw [hold]
      by_cases known : dev ∈ held
      · rw [if_pos known]
        exact inductionHypothesis later held world
      rw [if_neg known]
      by_cases below : held.length < 65536
      · have kept := blind dev List.mem_cons_self world
        rw [if_pos below]
        rcases attached : (tables.device dev).attach world with ⟨exn, world'⟩
        rw [attached] at kept
        cases exn with
        | none => exact (inductionHypothesis later (held ++ [dev]) world').trans kept
        | some exn => exact kept
      · rw [if_neg below]

/-- Only what was found is added to what is held. -/
theorem mem_hold {tables : Tables World} {found held : List DevPtr} {world : World} {dev : DevPtr}
    (member : dev ∈ (hold tables found held world).2.1) : dev ∈ held ∨ dev ∈ found := by
  induction found generalizing held world with
  | nil => exact Or.inl member
  | cons first rest inductionHypothesis =>
      have added : dev ∈ held ++ [first] ∨ dev ∈ rest → dev ∈ held ∨ dev ∈ first :: rest := by
        rintro (old | later)
        · rcases List.mem_append.mp old with held | new
          · exact Or.inl held
          · exact Or.inr (List.mem_singleton.mp new ▸ List.mem_cons_self)
        · exact Or.inr (List.mem_cons_of_mem first later)
      rw [hold] at member
      by_cases known : first ∈ held
      · rw [if_pos known] at member
        exact (inductionHypothesis member).imp id (List.mem_cons_of_mem first)
      rw [if_neg known] at member
      by_cases below : held.length < 65536
      · rw [if_pos below] at member
        rcases attached : (tables.device first).attach world with ⟨exn, world'⟩
        rw [attached] at member
        cases exn with
        | none => exact added (inductionHypothesis member)
        | some exn => exact added (Or.inl member)
      · rw [if_neg below] at member
        exact Or.inl member

/-! ## Acts on devices -/

variable {left right : Hub World}

theorem Same.acting {Value : Type} (same : Same mine see owner left right)
    {act : World → Value × World} (decided : Local see act) (judge : Value → Upshot) :
    (left.acting act judge).1 = (right.acting act judge).1 ∧
      Same mine see owner (left.acting act judge).2 (right.acting act judge).2 := by
  obtain ⟨value, seen⟩ := decided left.world right.world same.seen
  exact ⟨congrArg judge value, seen, same.held, same.own, same.others⟩

theorem Same.unseen {Value : Type} (same : Same mine see owner left right)
    {act : World → Value × World} (blind : Blind see act) (judge : Value → Upshot) :
    Same mine see owner (left.acting act judge).2 right :=
  ⟨(blind left.world).trans same.seen, same.held, same.own, same.others⟩

/-- What is done with the own devices is the same. -/
theorem Same.onDevice (same : Same mine see owner left right) {id : UInt16}
    {first second : DevPtr → Upshot × Hub World}
    (each : ∀ dev, mine dev → (first dev).1 = (second dev).1 ∧
      Same mine see owner (first dev).2 (second dev).2) :
    (left.onDevice owner id first).1 = (right.onDevice owner id second).1 ∧
      Same mine see owner (left.onDevice owner id first).2 (right.onDevice owner id second).2 := by
  have resolved : right.device owner id = left.device owner id := by
    rw [device, device, same.held]
  unfold Hub.onDevice
  rw [resolved]
  cases found : left.device owner id with
  | none => exact ⟨rfl, same⟩
  | some dev => exact each dev (same.own dev (List.mem_of_getElem? found))

/-- What others do with their devices is not seen. -/
theorem Same.onOther (same : Same mine see owner left right) {other : ClientPtr}
    (apart : other ≠ owner) {id : UInt16} {act : DevPtr → Upshot × Hub World}
    (each : ∀ dev, ¬ mine dev → Same mine see owner (act dev).2 right) :
    Same mine see owner (left.onDevice other id act).2 right := by
  unfold Hub.onDevice
  cases found : left.device other id with
  | none => exact same
  | some dev => exact each dev (same.others other apart dev (List.mem_of_getElem? found))

/-- Lookups of own devices are the same. -/
theorem Same.lookUp (compartment : Compartment tables mine see)
    (same : Same mine see owner left right) {spec : List HwioCompSpec}
    (finds : FindsApart tables mine owner (owner, .findDevices spec)) :
    (left.lookUp tables owner spec).1 = (right.lookUp tables owner spec).1 ∧
      Same mine see owner (left.lookUp tables owner spec).2
        (right.lookUp tables owner spec).2 := by
  obtain ⟨result, seen⟩ := findOnAll_local compartment spec (List.Subset.refl _) left.world
    right.world same.seen
  have found := finds spec rfl left.world
  unfold Hub.lookUp
  rcases first : findOnAll spec tables.buses left.world with ⟨devs, world⟩
  rcases second : findOnAll spec tables.buses right.world with ⟨devs', world'⟩
  rw [first, second] at result seen
  rw [first] at found
  simp only at result seen
  subst result
  cases devs with
  | none => exact ⟨rfl, seen, same.held, same.own, same.others⟩
  | some devs =>
      have mineAll : ∀ dev ∈ devs, mine dev := fun dev member =>
        (found devs rfl dev member).mpr rfl
      obtain ⟨all, held, last⟩ := hold_local compartment mineAll (left.held owner) seen
      rw [same.held] at held last all
      simp only
      rw [same.held, all, held]
      refine ⟨rfl, last, ?_, ?_, ?_⟩
      · simp only [Function.update_self]
      · intro dev member
        simp only [Function.update_self] at member
        rcases mem_hold member with old | new
        · exact same.own dev (same.held ▸ old)
        · exact mineAll dev new
      · intro other apart dev member
        simp only [Function.update_of_ne apart] at member
        exact same.others other apart dev member

/-- Lookups of others are not seen. -/
theorem Same.otherLookUp (compartment : Compartment tables mine see)
    (same : Same mine see owner left right) {other : ClientPtr} (apart : other ≠ owner)
    {spec : List HwioCompSpec}
    (finds : FindsApart tables mine owner (other, .findDevices spec)) :
    Same mine see owner (left.lookUp tables other spec).2 right := by
  have kept := findOnAll_blind (fun bus member => (compartment.found bus member spec).2) left.world
  have found := finds spec rfl left.world
  unfold Hub.lookUp
  rcases finding : findOnAll spec tables.buses left.world with ⟨devs, world⟩
  rw [finding] at kept found
  cases devs with
  | none => exact ⟨kept.trans same.seen, same.held, same.own, same.others⟩
  | some devs =>
      have none : ∀ dev ∈ devs, ¬ mine dev := fun dev member own =>
        apart ((found devs rfl dev member).mp own)
      have last := hold_blind (fun dev member => (compartment.attach dev).2 (none dev member))
        (left.held other) world
      refine ⟨(last.trans kept).trans same.seen, ?_, ?_, ?_⟩
      · simp only [Function.update_of_ne (Ne.symm apart)]
        exact same.held
      · intro dev member
        simp only [Function.update_of_ne (Ne.symm apart)] at member
        exact same.own dev member
      · intro third distinct dev member
        by_cases own : third = other
        · subst own
          simp only [Function.update_self] at member
          rcases mem_hold member with old | new
          · exact same.others third distinct dev old
          · exact none dev new
        · simp only [Function.update_of_ne own] at member
          exact same.others third distinct dev member

theorem separate (compartment : Compartment tables mine see) :
    Separate (perform tables) owner (Same mine see owner) (FindsApart tables mine owner) where
  own op finds left right same := by
    cases op with
    | ping => exact ⟨rfl, same⟩
    | findDevices spec => exact same.lookUp compartment finds
    | read id offset n =>
        exact same.onDevice fun dev own => same.acting ((compartment.read dev offset n).1 own) _
    | write id offset data =>
        by_cases limit : maxDevices ≤ id.toNat
        · simp only [perform, if_pos limit, true_and]
          exact same
        · simp only [perform, if_neg limit]
          exact same.onDevice fun dev own =>
            same.acting ((compartment.write dev offset data).1 own) _
    | remoteCall id fnName args retSize =>
        apply same.onDevice
        intro dev own
        cases found : tables.findPlugin fnName with
        | none => exact ⟨rfl, same⟩
        | some plugin =>
            have registered : tables.Registers plugin := Or.inl ⟨fnName, found⟩
            exact same.acting ((compartment.invoke plugin registered dev args).1 own) _
    | remoteCallFast id fnId args retSize =>
        apply same.onDevice
        intro dev own
        cases found : tables.pluginsFast[fnId.toNat]? with
        | none => exact ⟨rfl, same⟩
        | some plugin =>
            have registered : tables.Registers plugin := Or.inr (List.mem_of_getElem? found)
            exact same.acting ((compartment.invoke plugin registered dev args).1 own) _
    | getRpcFnId id fnName => exact same.onDevice fun dev own => ⟨rfl, same⟩
    | isRpcAvailable id fnName => exact same.onDevice fun dev own => ⟨rfl, same⟩
  others entry apart finds left right same := by
    obtain ⟨other, op⟩ := entry
    cases op with
    | ping => exact same
    | findDevices spec => exact same.otherLookUp compartment apart finds
    | read id offset n =>
        exact same.onOther apart fun dev foreign =>
          same.unseen ((compartment.read dev offset n).2 foreign) _
    | write id offset data =>
        by_cases limit : maxDevices ≤ id.toNat
        · simp only [perform, if_pos limit]
          exact same
        · simp only [perform, if_neg limit]
          exact same.onOther apart fun dev foreign =>
            same.unseen ((compartment.write dev offset data).2 foreign) _
    | remoteCall id fnName args retSize =>
        apply same.onOther apart
        intro dev foreign
        cases found : tables.findPlugin fnName with
        | none => exact same
        | some plugin =>
            have registered : tables.Registers plugin := Or.inl ⟨fnName, found⟩
            exact same.unseen ((compartment.invoke plugin registered dev args).2 foreign) _
    | remoteCallFast id fnId args retSize =>
        apply same.onOther apart
        intro dev foreign
        cases found : tables.pluginsFast[fnId.toNat]? with
        | none => exact same
        | some plugin =>
            have registered : tables.Registers plugin := Or.inr (List.mem_of_getElem? found)
            exact same.unseen ((compartment.invoke plugin registered dev args).2 foreign) _
    | getRpcFnId id fnName => exact same.onOther apart fun dev foreign => same
    | isRpcAvailable id fnName => exact same.onOther apart fun dev foreign => same

end

end Hub

/-! ## Systems -/

/-- The hubs of two servers on which a client sees the same. -/
theorem Hub.Same.start {mine : DevPtr → Prop} {see : World → View} {owner : ClientPtr}
    {left right : World} (seen : see left = see right) :
    Hub.Same mine see owner (Hub.start left) (Hub.start right) where
  seen := seen
  held := rfl
  own dev member := by cases member
  others other apart dev member := by cases member

/-- The answers to the program of a client when it is alone. -/
def Hub.alone (tables : Tables World) (world : World) (owner : ClientPtr) (program : List Op) :
    List Upshot :=
  (runAll (Hub.perform tables) (program.map (Prod.mk owner)) (Hub.start world)).1

/-- A client whose devices are apart gets what it gets alone. -/
theorem System.answers_alone {tables : Tables World} {mine : DevPtr → Prop} {see : World → View}
    {owner : ClientPtr} (compartment : Compartment tables mine see)
    {programs : ClientPtr → List Op}
    (apart : ∀ other, ∀ op ∈ programs other, FindsApart tables mine owner (other, op))
    {world world' : World} (seen : see world = see world') (system : System World) :
    system.answers tables world programs owner <+:
      Hub.alone tables world' owner (programs owner) := by
  have allowed : ∀ entry ∈ system.order programs, FindsApart tables mine owner entry :=
    fun entry member => apart entry.1 entry.2 (mem_program_of_mem_schedule member)
  rw [answers, (Hub.separate compartment).answersIn_eq allowed (.start seen), ownIn_eq_map]
  apply runAll_prefix
  apply List.IsPrefix.map
  rw [order, callsOf_schedule]
  exact List.take_prefix _ _

/-- Two systems, of the same devices, in which a client has the same program and
sees the same world at the start: when its devices are apart from those of the
others, a call that waited and returned in both gave what the hub gives when this
client is alone, in both, whatever the programs of the others are and however the
steps were ordered. -/
theorem separate_clients {tables : Tables World} {master master' : Fd} {tx tx' : List Byte}
    {world world' : World} {buffers buffers' : ClientPtr → List Byte × List Byte}
    {programs programs' : ClientPtr → List Op} {left right : System World}
    (leftSteps : System.Steps (System.begin tables master tx world buffers programs) left)
    (rightSteps : System.Steps (System.begin tables master' tx' world' buffers' programs') right)
    (intact : ∀ other, ∀ op ∈ programs other, op.Intact tables)
    (intact' : ∀ other, ∀ op ∈ programs' other, op.Intact tables)
    {mine : DevPtr → Prop} {see : World → View} (compartment : Compartment tables mine see)
    {owner : ClientPtr} (program : programs' owner = programs owner)
    (apart : ∀ other, ∀ op ∈ programs other, FindsApart tables mine owner (other, op))
    (apart' : ∀ other, ∀ op ∈ programs' other, FindsApart tables mine owner (other, op))
    (seen : see world' = see world) {k : Nat} {call call' : Done}
    (done : (left.clients owner).done[k]? = some call)
    (done' : (right.clients owner).done[k]? = some call') (waits : call.op.waits = true)
    (unfailed : left.Unfailed tables world programs owner k) :
    call'.op = call.op ∧ ∃ upshot,
      (Hub.alone tables world owner (programs owner))[k]? = some upshot ∧
        upshot.Gives call.result ∧ upshot.Gives call'.result := by
  have here := @System.answers_alone _ _ tables mine see owner compartment programs apart world
    world rfl left
  have there := @System.answers_alone _ _ tables mine see owner compartment programs' apart' world'
    world seen right
  rw [program] at there
  have op : call'.op = call.op := by
    have listed := (System.linked leftSteps owner).done_op done
    have listed' := (System.linked rightSteps owner).done_op done'
    rw [program] at listed'
    exact Option.some.inj (listed'.symm.trans listed)
  obtain ⟨upshot, answer, gives⟩ := System.awaited_gives leftSteps intact done waits unfailed
  have unfailed' : right.Unfailed tables world' programs' owner k := by
    intro j other before found
    have inside := (List.getElem?_eq_some_iff.mp answer).1
    have first := List.getElem?_eq_getElem (Nat.lt_trans before inside)
    obtain ⟨result, returned⟩ := unfailed j _ before first
    have same := (getElem?_of_isPrefix here first).symm.trans (getElem?_of_isPrefix there found)
    exact ⟨result, (Option.some.inj same).symm.trans returned⟩
  obtain ⟨upshot', answer', gives'⟩ := System.awaited_gives rightSteps intact' done'
    (op ▸ waits) unfailed'
  have alone := getElem?_of_isPrefix here answer
  obtain rfl := Option.some.inj (alone.symm.trans (getElem?_of_isPrefix there answer'))
  exact ⟨op, upshot, alone, gives, gives'⟩

/-- The first register is a compartment of its own. -/
theorem twoRegisters_compartment :
    Compartment twoRegisters (fun dev => dev = 0) (Prod.fst : Byte × Byte → Byte) where
  found bus member spec := by
    obtain rfl := List.mem_singleton.mp member
    exact ⟨fun left right same => ⟨rfl, same⟩, fun state => rfl⟩
  attach dev := ⟨fun own left right same => ⟨rfl, same⟩, fun foreign state => rfl⟩
  read dev offset n := by
    refine ⟨fun own left right same => ?_, fun foreign state => rfl⟩
    subst own
    exact ⟨congrArg (fun byte => (⟨List.replicate n byte, none⟩ : ReadOut)) same, same⟩
  write dev offset data := by
    refine ⟨fun own left right same => ?_, fun foreign state => ?_⟩
    · subst own
      exact ⟨rfl, congrArg data.headD same⟩
    · simp [twoRegisters, oneRegister, foreign]
  invoke plugin registered dev args := by
    rcases registered with ⟨name, found⟩ | member
    · cases found
    · cases member

theorem registerUsers_apart (variant : Bool) (other : ClientPtr) :
    ∀ op ∈ registerUsers variant other,
      FindsApart twoRegisters (fun dev => dev = 0) 0 (other, op) := by
  rintro op member spec rfl world found looked dev held
  unfold registerUsers at member
  split at member
  · obtain rfl : spec = [registerSpec false] := by simpa using member
    obtain rfl : [0] = found := Option.some.inj looked
    rename_i own
    exact iff_of_true (List.mem_singleton.mp held) own
  · split at member
    · obtain rfl : spec = [registerSpec true] := by simpa using member
      obtain rfl : [1] = found := Option.some.inj looked
      rename_i foreign _
      exact iff_of_false (by rw [List.mem_singleton.mp held]; decide) foreign
    · cases member

/-- What the second client does and what its register holds at the start makes no
difference to the first one. -/
theorem registers_separate :
    ∃ call call', ((registersUsed true).clients 0).done[2]? = some call ∧
      ((registersUsed false).clients 0).done[2]? = some call' ∧ call'.op = call.op ∧
        ∃ upshot, (Hub.alone twoRegisters (0, 0) 0 (registerUsers true 0))[2]? = some upshot ∧
          upshot.Gives call.result ∧ upshot.Gives call'.result := by
  obtain ⟨call, done⟩ : ∃ call, ((registersUsed true).clients 0).done[2]? = some call := ⟨_, rfl⟩
  obtain ⟨call', done'⟩ : ∃ call, ((registersUsed false).clients 0).done[2]? = some call :=
    ⟨_, rfl⟩
  have waits : call.op.waits = true := by
    obtain rfl := Option.some.inj (show some _ = some call from done)
    rfl
  have given := separate_clients (registersUsed_steps true) (registersUsed_steps false)
    (registerUsers_intact true) (registerUsers_intact false) twoRegisters_compartment rfl
    (registerUsers_apart true) (registerUsers_apart false) rfl done done' waits
    (registersUsed_unfailed true 2)
  exact ⟨call, call', done, done', given⟩

end Hwio
