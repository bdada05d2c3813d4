import Hwio.Server.DeviceIds
import Hwio.Server.Exchanges

/-!
Contract: the requests of a connection one by one, and servers with a single
client that makes requests.

Owns the history before each request of a connection, the device list that the
request meets, and that with a single client the world is changed by its
requests alone.

Does not own what a request does.
-/

namespace Hwio

open Library

variable {World : Type}

/-- The requests of a connection before the one at a place are those of the
history before it. -/
theorem requestsOf_split {tables : Tables World} {service : Service World} {client : ClientPtr}
    {history : List Event} {k : Nat} {header : HwioPacketHeader} {ctx : Ctx World}
    (request : (requestsOf tables service client history)[k]? = some (header, ctx)) :
    ∃ front offset rx back,
      history = front ++ .dispatched client offset header rx :: back ∧
        requestsOf tables service client front =
          (requestsOf tables service client history).take k ∧
        ctx = (service.after tables front).request client rx := by
  induction history using List.reverseRecOn with
  | nil => cases request
  | append_singleton earlier event before =>
      rw [requestsOf_append] at request ⊢
      by_cases old : k < (requestsOf tables service client earlier).length
      · rw [List.getElem?_append_left old] at request
        obtain ⟨front, offset, rx, back, rfl, asked, met⟩ := before request
        refine ⟨front, offset, rx, back ++ [event], by simp, ?_, met⟩
        rw [asked, List.take_append_of_le_length (Nat.le_of_lt old)]
      · rw [List.getElem?_append_right (Nat.le_of_not_lt old)] at request
        rcases requestOf_cases (service.after tables earlier) client event with none | ⟨last, one⟩
        · rw [requestsOf, none, List.nil_append, requestsOf, List.getElem?_nil] at request
          cases request
        · have place : k - (requestsOf tables service client earlier).length = 0 := by
            have inside := (List.getElem?_eq_some_iff.mp request).1
            rw [requestsOf, one, requestsOf, List.append_nil, List.length_singleton] at inside
            omega
          rw [place, requestsOf, one] at request
          obtain rfl : last = (header, ctx) := Option.some.inj request
          cases event with
          | dispatched owner offset other rx =>
              rw [requestOf] at one
              split at one
              next own =>
                obtain ⟨rfl, rfl⟩ := Prod.mk.inj (List.cons.inj one).1
                refine ⟨earlier, offset, rx, [], by rw [own], ?_, rfl⟩
                rw [List.take_append_of_le_length (by omega), List.take_of_length_le (by omega)]
              next => cases one
          | _ => cases one

/-- All requests of a history are made by one client. -/
def Sole (client : ClientPtr) (history : List Event) : Prop :=
  ∀ other offset header rx, .dispatched other offset header rx ∈ history → other = client

theorem Sole.mono {client : ClientPtr} {front history : List Event} (sole : Sole client history)
    (part : front ⊆ history) : Sole client front :=
  fun other offset header rx member => sole other offset header rx (part member)

/-- The world that the last of some requests left. -/
def worldAfter (tables : Tables World) (requests : List (HwioPacketHeader × Ctx World))
    (world : World) : World :=
  requests.getLast?.elim world fun request => (handleMsg tables request.1 request.2).2.world

/-- A single client finds the world as its last request left it. -/
theorem Sole.world {tables : Tables World} {service : Service World} {client : ClientPtr}
    {history : List Event} (sole : Sole client history) :
    (service.after tables history).world =
      worldAfter tables (requestsOf tables service client history) service.world := by
  induction history using List.reverseRecOn with
  | nil => rfl
  | append_singleton earlier event before =>
      have kept := before (sole.mono (List.subset_append_left _ _))
      rw [Service.after_append, requestsOf_append]
      cases event with
      | dispatched other offset header rx =>
          obtain rfl := sole other offset header rx (List.mem_append_right _ List.mem_cons_self)
          rw [requestsOf, requestOf, if_pos rfl, requestsOf, List.append_nil, worldAfter,
            List.getLast?_concat]
          rfl
      | _ =>
          show (service.after tables earlier).world = worldAfter tables (_ ++ []) service.world
          rw [List.append_nil]
          exact kept

namespace HwioServer

/-- In every run: an id that was given by one of the first requests of a
connection leads the later ones to its device. -/
theorem Interned.resolved {tables : Tables World} {start : Service World}
    {server : HwioServer World} (interned : Interned tables start server) {client : ClientPtr}
    {k j : Nat} (later : k ≤ j) {id : UInt16} {dev : DevPtr}
    (given : ∃ header ctx,
      (header, ctx) ∈ (requestsOf tables start client server.trace).take k ∧
        Gives tables header ctx id dev)
    {header : HwioPacketHeader} {ctx : Ctx World}
    (request : (requestsOf tables start client server.trace)[j]? = some (header, ctx)) :
    clientGetDev ctx.devices id = some dev := by
  obtain ⟨front, offset, rx, back, split, asked, rfl⟩ := requestsOf_split request
  obtain ⟨table, listed, registry⟩ := interned.request_listed split
  obtain ⟨first, met, among, gives⟩ := given
  have early : (first, met) ∈ requestsOf tables start client front := by
    rw [asked]
    exact List.take_subset_take_left _ later among
  have issued : Issued tables start front client id dev :=
    ⟨first, met, mem_requestsOf_iff.mp early, gives⟩
  rw [listed]
  exact registry.listed.2.2 id dev issued

end HwioServer

end Hwio
