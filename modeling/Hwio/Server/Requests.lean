import Hwio.Library.History
import Hwio.Server.Steps

/-!
Contract: the server as its requests see it.

Owns the state that `handle_msg` reads and changes, over all connections, as a
function of the history of a run, and the requests that were made in a run.

Does not own what a request does.
-/

namespace Hwio

open Library

variable {World : Type}

/-- `tx_buffer`, the world, and the device list of every connection. -/
structure Service (World : Type) where
  txBuffer : List Byte
  world : World
  devices : ClientPtr → Option (List (Option DevPtr))

namespace Service

/-- The request of a client, with the memory from its body on. -/
def request (service : Service World) (client : ClientPtr) (rx : List Byte) : Ctx World where
  rx := rx
  tx := service.txBuffer
  devices := (service.devices client).getD []
  world := service.world
  calls := []

/-- What a request leaves. -/
def answered (service : Service World) (client : ClientPtr) (ctx : Ctx World) :
    Service World where
  txBuffer := ctx.tx
  world := ctx.world
  devices := Function.update service.devices client (some ctx.devices)

def step (tables : Tables World) (service : Service World) : Event → Service World
  | .created client _ =>
      { service with devices := Function.update service.devices client (some []) }
  | .dispatched client _ header rx =>
      service.answered client (handleMsg tables header (service.request client rx)).2
  | .removed client => { service with devices := Function.update service.devices client none }
  | _ => service

def after (tables : Tables World) (service : Service World) (trace : List Event) :
    Service World :=
  trace.foldl (step tables) service

@[simp] theorem after_append (tables : Tables World) (service : Service World)
    (first second : List Event) :
    service.after tables (first ++ second) =
      (service.after tables first).after tables second :=
  List.foldl_append ..

/-- Events that change nothing for the requests. -/
theorem after_of_silent {tables : Tables World} {events : List Event}
    (silent : ∀ event ∈ events, ∀ service : Service World, step tables service event = service)
    (service : Service World) : service.after tables events = service := by
  induction events with
  | nil => rfl
  | cons event rest inductionHypothesis =>
      show ((step tables service event).after tables rest) = service
      rw [silent event List.mem_cons_self service]
      exact inductionHypothesis fun later member => silent later (List.mem_cons_of_mem _ member)

end Service

/-- A request made in a history: the state it met is that of the events before. -/
def Requested (tables : Tables World) (start : Service World) (trace : List Event)
    (client : ClientPtr) (header : HwioPacketHeader) (ctx : Ctx World) : Prop :=
  ∃ front offset rx back, trace = front ++ .dispatched client offset header rx :: back ∧
    ctx = (start.after tables front).request client rx

theorem Requested.of_getElem? {tables : Tables World} {start : Service World}
    {history : List Event} {client : ClientPtr} {header : HwioPacketHeader} {rx : List Byte}
    {index offset : Nat} (found : history[index]? = some (.dispatched client offset header rx)) :
    Requested tables start history client header
      ((start.after tables (history.take index)).request client rx) := by
  obtain ⟨inside, same⟩ := List.getElem?_eq_some_iff.mp found
  refine ⟨history.take index, offset, rx, history.drop (index + 1), ?_, rfl⟩
  rw [← same, ← List.drop_eq_getElem_cons inside, List.take_append_drop]

theorem Requested.getElem? {tables : Tables World} {start : Service World}
    {history : List Event} {client : ClientPtr} {header : HwioPacketHeader} {ctx : Ctx World}
    (requested : Requested tables start history client header ctx) :
    ∃ index offset rx, history[index]? = some (.dispatched client offset header rx) ∧
      ctx = (start.after tables (history.take index)).request client rx := by
  obtain ⟨front, offset, rx, back, rfl, same⟩ := requested
  refine ⟨front.length, offset, rx, ?_, ?_⟩
  · rw [List.getElem?_append_right (Nat.le_refl _), Nat.sub_self, List.getElem?_cons_zero]
  · rw [List.take_left]
    exact same

theorem Requested.append {tables : Tables World} {start : Service World}
    {trace : List Event} {client : ClientPtr} {header : HwioPacketHeader} {ctx : Ctx World}
    (requested : Requested tables start trace client header ctx) (later : List Event) :
    Requested tables start (trace ++ later) client header ctx := by
  obtain ⟨front, offset, rx, back, rfl, same⟩ := requested
  exact ⟨front, offset, rx, back ++ later, by simp, same⟩

/-- The requests of a longer history are those made before and those that are
made in its later part. -/
theorem requested_append_iff {tables : Tables World} {start : Service World}
    {trace later : List Event} {client : ClientPtr} {header : HwioPacketHeader}
    {ctx : Ctx World} :
    Requested tables start (trace ++ later) client header ctx ↔
      Requested tables start trace client header ctx ∨
        ∃ front offset rx back, later = front ++ .dispatched client offset header rx :: back ∧
          ctx = (start.after tables (trace ++ front)).request client rx := by
  constructor
  · rintro ⟨front, offset, rx, back, split, same⟩
    rcases append_eq_append_cons split with ⟨rest, trace', _⟩ | ⟨rest, front', later'⟩
    · exact Or.inl ⟨front, offset, rx, rest, trace', same⟩
    · rw [front'] at same
      exact Or.inr ⟨rest, offset, rx, back, later', same⟩
  · rintro (old | ⟨front, offset, rx, back, rfl, same⟩)
    · exact old.append later
    · exact ⟨trace ++ front, offset, rx, back, by simp, same⟩

namespace HwioServer

def service (server : HwioServer World) : Service World where
  txBuffer := server.txBuffer
  world := server.world
  devices := fun client => (server.heap client).map ClientInfo.devices

/-! ## The server follows its history -/

theorem Progress.silent {tables : Tables World} {client : ClientPtr} {events : List Event}
    (progress : ∀ event ∈ events, Progress client event) (service : Service World) :
    service.after tables events = service :=
  Service.after_of_silent (fun event member _ => by cases progress event member <;> rfl) service

/-- Every step appends events that account for its effect on the requests. -/
theorem Step.service {sys : Sys} {before after : HwioServer World}
    (step : Step sys before after) :
    after.tables = before.tables ∧ ∃ events, after.trace = before.trace ++ events ∧
      after.service = before.service.after before.tables events := by
  cases step with
  | noted event notice =>
      refine ⟨rfl, [event], rfl, ?_⟩
      have silent : Service.step before.tables before.service event = before.service := by
        cases event <;> first | rfl | exact absurd notice id
      exact silent.symm
  | allocated socket =>
      refine ⟨rfl, [.created before.nextClient socket], rfl, ?_⟩
      simp only [HwioServer.service, allocClient, Service.after, List.foldl_cons, List.foldl_nil,
        Service.step, Service.mk.injEq, true_and]
      funext client
      by_cases same : client = before.nextClient
      · simp [same]
      · simp [Function.update_of_ne same]
  | listed socket client => exact ⟨rfl, [], by simp [listClient], rfl⟩
  | deleted client record live =>
      refine ⟨rfl, _, rfl, ?_⟩
      have closing : ∀ service : Service World,
          service.after before.tables (closeOnDelete record.fd) = service := by
        intro service
        unfold closeOnDelete
        split <;> rfl
      show _ = (Service.step before.tables before.service (.removed client)).after before.tables
        (closeOnDelete record.fd)
      rw [closing]
      simp only [HwioServer.service, deleteClient, Service.step, Service.mk.injEq, true_and]
      funext other
      by_cases same : other = client
      · simp [same]
      · simp [Function.update_of_ne same]
  | received client record live =>
      obtain ⟨events, rxBuffer, session, progress⟩ :=
        readFromSocket_session sys client (before.session record)
      refine ⟨rfl, events, by rw [session]; rfl, ?_⟩
      rw [Progress.silent progress, session]
      simp only [HwioServer.service, putSession, HwioServer.session, Service.mk.injEq, true_and]
      funext other
      by_cases same : other = client
      · simp [same, live]
      · simp [Function.update_of_ne same]
  | answered client record live complete =>
      obtain ⟨events, rxBuffer, session, progress⟩ :=
        handleFrame_session before.tables sys client (before.session record)
      refine ⟨rfl, _, by rw [session]; rfl, ?_⟩
      rw [session]
      have devices : (before.service.devices client).getD [] = record.devices := by
        simp [HwioServer.service, live]
      have request : before.service.request client (before.session record).request.rx =
          (before.session record).request := by
        rw [Service.request, devices]
        rfl
      have silent : ∀ calls : List Call, ∀ service : Service World,
          service.after before.tables (calls.map (Event.called client) ++ events) = service := by
        intro calls service
        rw [Service.after_append, Progress.silent progress]
        apply Service.after_of_silent
        exact forall_called (fun _ _ => rfl) calls
      show _ = (Service.step before.tables before.service (.dispatched client _ _ _)).after
        before.tables _
      rw [silent, Service.step, request]
      simp only [HwioServer.service, putSession, Service.answered, Service.mk.injEq, true_and]
      funext other
      by_cases same : other = client
      · simp [same]
      · simp [Function.update_of_ne same]
  | queued fd => exact ⟨rfl, [], by simp [pushRemoved], rfl⟩
  | cleaned => exact ⟨rfl, [], by simp [cleanup], rfl⟩

theorem Reached.service {start server : HwioServer World} (reached : Reached start server) :
    server.tables = start.tables ∧ ∃ events, server.trace = start.trace ++ events ∧
      server.service = start.service.after start.tables events := by
  apply reached.invariant
  · exact ⟨rfl, [], (List.append_nil _).symm, rfl⟩
  rintro sys before after step ⟨sameTables, events, trace, service⟩
  obtain ⟨tables, more, appended, followed⟩ := step.service
  refine ⟨tables.trans sameTables, events ++ more, ?_, ?_⟩
  · rw [appended, trace, List.append_assoc]
  · rw [followed, service, sameTables, Service.after_append]

/-- In a run of the prepared server, the state that a request meets is decided
by the history. -/
theorem Reached.service_prepared {tables : Tables World} {master : Fd} {tx : List Byte}
    {world : World} {server : HwioServer World}
    (reached : Reached (prepared tables master tx world) server) :
    server.service = (prepared tables master tx world).service.after tables server.trace := by
  obtain ⟨_, events, trace, service⟩ := reached.service
  rw [service, trace, Service.after_append]
  rfl

end HwioServer

end Hwio
