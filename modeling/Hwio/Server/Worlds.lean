import Hwio.Server.Requests
import Hwio.Server.Simulation
import Mathlib.Data.List.Induction

/-!
Contract: what holds of the world of a server in all of its runs.

Owns when the devices, buses and plugins of a server keep an invariant of the world,
and that its requests and its runs then keep it.

Does not own any invariant.
-/

namespace Hwio

open Library

variable {World : Type}

/-- All that the requests of clients reach keeps an invariant of the world. -/
structure Tables.Keep (tables : Tables World) (Invariant : World → Prop) : Prop where
  find : ∀ bus ∈ tables.buses, ∀ spec world, Invariant world →
    Invariant (bus.findDevices spec world).2
  attach : ∀ dev world, Invariant world → Invariant ((tables.device dev).attach world).2
  read : ∀ dev addr size world, Invariant world →
    Invariant ((tables.device dev).read addr size world).2
  write : ∀ dev addr bytes world, Invariant world →
    Invariant ((tables.device dev).write addr bytes world).2
  plugin : ∀ plugin, tables.Registers plugin → ∀ dev args world, Invariant world →
    Invariant (plugin.fn dev args world).2

theorem compositeLoop_keeps {Invariant : World → Prop} {buses : List (IhwioBus World)}
    (each : ∀ bus ∈ buses, ∀ spec world, Invariant world → Invariant (bus.findDevices spec world).2)
    (specs : List HwioCompSpec) (res : List DevPtr) {world : World} (holds : Invariant world) :
    Invariant (compositeLoop specs buses res world).2 := by
  induction buses generalizing res world with
  | nil => exact holds
  | cons bus rest inductionHypothesis =>
      have first := each bus List.mem_cons_self specs world holds
      rw [compositeLoop]
      generalize bus.findDevices specs world = looked at first ⊢
      rcases looked with ⟨exn | found, after⟩
      · exact first
      · exact inductionHypothesis (fun bus member => each bus (List.mem_cons_of_mem _ member)) _
          first

/-- A server that keeps an invariant does in a world that has it what it does there. -/
theorem Tables.Keep.refines {tables : Tables World} {Invariant : World → Prop}
    (keep : tables.Keep Invariant) :
    tables.Refines tables fun world world' => world = world' ∧ Invariant world := by
  have plugin : ∀ plugin, tables.Registers plugin →
      plugin.Refines plugin fun world world' => world = world' ∧ Invariant world :=
    fun plugin registered =>
      ⟨rfl, rfl, fun dev args => respects_kept (keep.plugin plugin registered dev args)⟩
  exact {
    find := fun specs => respects_kept fun _ holds => compositeLoop_keeps keep.find specs [] holds
    attach := fun dev => respects_kept (keep.attach dev)
    read := fun dev addr size => respects_kept (keep.read dev addr size)
    write := fun dev addr bytes => respects_kept (keep.write dev addr bytes)
    plugins := by
      intro name
      cases found : tables.findPlugin name with
      | none => exact .none
      | some known => exact .some (plugin known (Or.inl ⟨name, found⟩))
    pluginsFast := List.forall₂_same.mpr fun known member => plugin known (Or.inr member)
    pluginsFastNames := rfl }

theorem Tables.Keep.request {tables : Tables World} {Invariant : World → Prop}
    (keep : tables.Keep Invariant) (header : HwioPacketHeader) {ctx : Ctx World}
    (holds : Invariant ctx.world) : Invariant (handleMsg tables header ctx).2.world :=
  ((handleMsg_respects keep.refines header ctx ctx ⟨rfl, rfl, rfl, ⟨rfl, holds⟩, rfl⟩).state.world).2

namespace HwioServer

/-- What all devices, buses and plugins keep holds of the world in every state that
passes lead to, however these end. -/
theorem Reached.world_kept {tables : Tables World} {Invariant : World → Prop}
    (keep : tables.Keep Invariant) {master : Fd} {tx : List Byte} {world : World}
    {server : HwioServer World} (reached : Reached (prepared tables master tx world) server)
    (holds : Invariant world) : Invariant server.world := by
  have service := reached.service_prepared
  rw [show server.world = server.service.world from rfl, service]
  induction server.trace using List.reverseRecOn with
  | nil => exact holds
  | append_singleton front event inductionHypothesis =>
      rw [Service.after_append]
      cases event with
      | dispatched client offset header rx => exact keep.request header inductionHypothesis
      | _ => exact inductionHypothesis

end HwioServer

end Hwio
