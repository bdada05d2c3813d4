import Hwio.Library.History
import Hwio.Server.Isolation

/-!
Contract: what follows a dispatched frame in the history of a run.

Owns the calls, the reply and the end of the handling of every frame, and the
silence of a connection behind the frame that ends it.

Does not own what is asked or replied.
-/

namespace Hwio

open Library

variable {World : Type}

/-! ## Every frame is answered at once -/

/-- When `handle_msg` returns for a dispatched frame, its calls, the bytes sent
from the front of its reply and the end of the handling follow at once; the
connection goes on just if the result lets it and the whole reply was sent. -/
def Answers (tables : Tables World) (start : Service World) (front : List Event) (event : Event)
    (back : List Event) : Prop :=
  match event with
  | .dispatched client _ header rx =>
    let answer := handleMsg tables header ((start.after tables front).request client rx)
    ∀ res, answer.1 = .ok res →
      ∃ sent disconnect rest,
        back = answer.2.calls.map (.called client) ++
          (sent ++ .handled client disconnect :: rest) ∧
        (∀ event ∈ sent, ∃ part, event = .sent client part) ∧
        HwioServer.sentIn sent <+: load answer.2.tx 0 res.txSize ∧
        (disconnect = false ↔
          res.disconnect = false ∧ HwioServer.sentIn sent = load answer.2.tx 0 res.txSize)
  | _ => True

theorem answers_append {tables : Tables World} {start : Service World} {front back : List Event}
    {event : Event} (more : List Event) (answers : Answers tables start front event back) :
    Answers tables start front event (back ++ more) := by
  cases event with
  | dispatched client offset header rx =>
      intro res ok
      obtain ⟨sent, disconnect, rest, same, onlySent, sentFront, decided⟩ := answers res ok
      refine ⟨sent, disconnect, rest ++ more, ?_, onlySent, sentFront, decided⟩
      rw [same, List.append_assoc, List.append_assoc, List.cons_append]
  | _ => exact trivial

/-- The connections to be given up have done nothing since but to be removed. -/
def Silent (front : List Event) (event : Event) : Prop :=
  ∀ client, HwioServer.actor event = some client → .handled client true ∈ front →
    event = .removed client

namespace HwioServer

/-! ## Moves -/

/-- What steps keep: the numbers of the connections, and the state that the
history tells. -/
structure Known (tables : Tables World) (start : Service World) (server : HwioServer World) :
    Prop where
  numbered : Numbered server
  unchanged : server.tables = tables
  service : server.service = start.after tables server.trace

variable {tables : Tables World} {start : Service World} {sys : Sys}
variable {before after : HwioServer World} {mode mode' : Mode}

theorem Move.known (move : Move sys before mode mode' after) (known : Known tables start before) :
    Known tables start after := by
  apply Steps.invariant (Move.steps move) known
  intro before after step known
  obtain ⟨same, events, trace, service⟩ := step.service
  refine ⟨step.numbered known.numbered, same.trans known.unchanged, ?_⟩
  rw [service, trace, known.service, known.unchanged, Service.after_append]

/-- The request of a live connection is the one that the history tells. -/
theorem Known.request {server : HwioServer World} (known : Known tables start server)
    {client : ClientPtr} {record : ClientInfo} (live : server.heap client = some record)
    (rx : List Byte) :
    (start.after tables server.trace).request client rx =
      { (server.session record).request with rx := rx } := by
  have devices : (start.after tables server.trace).devices client = some record.devices := by
    rw [← known.service]
    simp [HwioServer.service, live]
  rw [Service.request, devices, ← known.service]
  rfl

/-- What the handling of a frame appends: the answer, or the calls that were
made before `handle_msg` was left. -/
theorem handleFrame_answers (sys : Sys) {client : ClientPtr} {session : Session World}
    (request : (start.after tables session.trace).request client session.request.rx =
      session.request) :
    let asked := Event.dispatched client session.client.rxBuffer.currPtr
      (HwioPacketHeader.at session.client.rxBuffer.buffer session.client.rxBuffer.currPtr)
      session.request.rx
    ∃ back, (handleFrame tables sys client session).2.trace = session.trace ++ asked :: back ∧
      Answers tables start session.trace asked back ∧
      (∀ event ∈ back, actor event = some client) ∧
      .handled client true ∉ back.dropLast ∧
      (.handled client true ∈ back ↔ (handleFrame tables sys client session).1 = .ok true) := by
  intro asked
  have noCall : ∀ calls : List Call, .handled client true ∉ calls.map (Event.called client) := by
    intro calls member
    have others : ∀ event ∈ calls.map (Event.called client), event ≠ .handled client true :=
      forall_called (by simp) calls
    exact others _ member rfl
  rcases handling : handleMsg tables (HwioPacketHeader.at session.client.rxBuffer.buffer
    session.client.rxBuffer.currPtr) session.request with ⟨result, ctx⟩
  rcases handleFrame_eq tables sys client session with
    ⟨stop, failed, left⟩ | ⟨res, sent, disconnect, ok, onlySent, sentFront, decided, left⟩
  · rw [handling] at failed left
    simp only at failed
    subst failed
    rw [left]
    refine ⟨ctx.calls.map (.called client), rfl, ?_, ?_, ?_, ?_⟩
    · intro res ok
      rw [request, handling] at ok
      cases ok
    · exact forall_called (fun _ => rfl) _
    · exact fun member => noCall _ (List.dropLast_subset _ member)
    · exact iff_of_false (noCall _) nofun
  · rw [handling] at ok left sentFront decided
    simp only at ok
    subst ok
    rw [left]
    have noPart : .handled client true ∉ sent := by
      intro member
      obtain ⟨bytes, same⟩ := onlySent _ member
      cases same
    refine ⟨ctx.calls.map (.called client) ++ (sent ++ [.handled client disconnect]), ?_,
      ?_, ?_, ?_, ?_⟩
    · simp only [Session.consumed, Session.afterMsg, List.append_assoc, List.cons_append, asked]
    · intro other ok
      rw [request, handling] at ok ⊢
      cases ok
      exact ⟨sent, disconnect, [], rfl, onlySent, sentFront, decided⟩
    · exact @forall_answer (fun event => actor event = some client) client sent disconnect
        (fun _ => rfl) (fun _ => rfl) rfl _ onlySent
    · rw [← List.append_assoc, List.dropLast_concat, List.mem_append]
      exact not_or.mpr ⟨noCall _, noPart⟩
    · rw [List.mem_append, List.mem_append, or_iff_right (noCall _), or_iff_right noPart,
        List.mem_singleton]
      cases disconnect <;> simp

/-- Moves keep that every frame is answered at once. -/
theorem Move.answers (move : Move sys before mode mode' after)
    (known : Known tables start before)
    (answers : Explained (Answers tables start) before.trace) :
    Explained (Answers tables start) after.trace := by
  obtain ⟨events, trace, asks⟩ := Move.appends move
  rw [trace]
  apply Explained.append (fun _ _ _ more => answers_append more) answers
  intro front event back split
  cases event with
  | dispatched client offset header rx =>
      obtain ⟨rfl, rfl, _⟩ := asks front back client offset header rx split
      rw [List.nil_append] at split
      subst split
      rw [List.append_nil]
      cases move with
      | waits _ record live incomplete => simp at trace
      | answered _ record live complete _ ended =>
          have unchanged := known.unchanged
          subst unchanged
          have request := known.request live (before.session record).request.rx
          obtain ⟨back', trace', answered, _⟩ := handleFrame_answers sys request
          cases List.append_cancel_left (trace'.symm.trans trace)
          exact answered
  | _ => exact trivial

/-- A connection that is to be given up has no record, but for the moment before
its removal, and does nothing more. -/
structure Ended (mode : Mode) (server : HwioServer World) : Prop where
  gone : ∀ client record, server.heap client = some record →
    .handled client true ∈ server.trace → mode = .doomed client
  silent : Justified Silent server.trace

/-- Acts may be added of connections that are not to be given up before the last
of them. -/
theorem silent_append {history events : List Event} (silent : Justified Silent history)
    (opened : ∀ event ∈ events, ∀ client, actor event = some client →
      event = .removed client ∨
        (.handled client true ∉ history ∧ .handled client true ∉ events.dropLast)) :
    Justified Silent (history ++ events) := by
  refine (justified_append_iff _ _).mpr ⟨silent, ?_⟩
  intro front event back split client acts handled
  have member : event ∈ events := by
    rw [split]
    exact List.mem_append_right _ List.mem_cons_self
  rcases opened event member client acts with removal | ⟨notOld, notNew⟩
  · exact removal
  rcases List.mem_append.mp handled with old | new
  · exact absurd old notOld
  · refine absurd ?_ notNew
    rw [split, List.dropLast_append_of_ne_nil (List.cons_ne_nil _ _)]
    exact List.mem_append_left _ new

theorem actor_closeOnDelete {client : ClientPtr} {fd : Fd} :
    ∀ event ∈ .removed client :: closeOnDelete fd, ∀ other, actor event = some other →
      event = .removed other := by
  intro event member other acts
  rcases mem_deletion member with rfl | rfl
  · cases acts
    rfl
  · cases acts

/-- Deleting the record of a connection ends it. -/
theorem Ended.delete {client : ClientPtr} (record : ClientInfo) (ended : Ended mode before)
    (only : ∀ other, mode = .doomed other → other = client) :
    Ended mode' (deleteClient client record before) where
  gone other left live handled := by
    obtain ⟨apart, there⟩ := deleteClient_live live
    rcases List.mem_append.mp handled with old | new
    · exact absurd (only other (ended.gone other left there old)) apart
    · cases actor_closeOnDelete _ new other rfl
  silent := silent_append ended.silent fun event member other acts =>
    Or.inl (actor_closeOnDelete event member other acts)

/-- Reading for an open connection. -/
theorem Ended.read {client : ClientPtr} {record : ClientInfo} (ended : Ended .idle before)
    (live : before.heap client = some record) :
    Ended mode (before.putSession client
      (readFromSocket sys client (before.session record)).2) := by
  have opened : .handled client true ∉ before.trace := fun handled => by
    cases ended.gone client record live handled
  have handled := fun other => readFromSocket_handled sys client other (before.session record) true
  obtain ⟨events, rxBuffer, session, progress⟩ :=
    readFromSocket_session sys client (before.session record)
  have trace : (readFromSocket sys client (before.session record)).2.trace =
      before.trace ++ events := congrArg Session.trace session
  exact {
    gone other left found member := by
      have old : .handled other true ∈ before.trace := (handled other).mp member
      rcases putSession_live found with ⟨same, _⟩ | ⟨_, there⟩
      · exact absurd (same ▸ old) opened
      · cases ended.gone other left there old
    silent := by
      show Justified Silent (readFromSocket sys client (before.session record)).2.trace
      rw [trace]
      refine silent_append ended.silent fun event member other acts => Or.inr ?_
      rw [(progress event member).actor_eq] at acts
      cases acts
      refine ⟨opened, fun new => opened ((handled client).mp ?_)⟩
      rw [trace]
      exact List.mem_append_right _ (List.dropLast_subset _ new) }

theorem Move.ended (move : Move sys before mode mode' after) (known : Known tables start before)
    (ended : Ended mode before) : Ended mode' after := by
  cases move with
  | noted event notice =>
      have nobody : actor event = none := by
        cases event <;> first | rfl | exact absurd notice id
      refine ⟨fun client record live member => ?_, silent_append ended.silent ?_⟩
      · rcases List.mem_append.mp member with old | new
        · exact ended.gone client record live old
        · rw [← List.mem_singleton.mp new] at nobody
          cases nobody
      · intro other member client acts
        rw [List.mem_singleton.mp member, nobody] at acts
        cases acts
  | allocated socket =>
      have unborn : .handled before.nextClient true ∉ before.trace := fun member =>
        Nat.lt_irrefl _ (known.numbered.acted _ member _ rfl)
      refine ⟨fun client record live member => ?_, silent_append ended.silent ?_⟩
      · have old : .handled client true ∈ before.trace := by
          simpa [allocClient] using member
        rcases allocClient_live live with ⟨same, _⟩ | ⟨_, there⟩
        · exact absurd (same ▸ old) unborn
        · exact ended.gone client record there old
      · intro event member client acts
        rw [List.mem_singleton.mp member] at acts
        cases acts
        exact Or.inr ⟨unborn, List.not_mem_nil⟩
  | listed socket client => exact ⟨ended.gone, ended.silent⟩
  | queued fd => exact ⟨ended.gone, ended.silent⟩
  | cleaned => exact ⟨ended.gone, ended.silent⟩
  | waits client record live incomplete =>
      refine ⟨fun other left found member => ?_, ended.silent⟩
      cases ended.gone other left found member
  | dropped client record live => exact ended.delete record (by simp)
  | removed client record live =>
      refine ended.delete record fun other doomed => ?_
      cases doomed
      rfl
  | received client record live came => exact ended.read live
  | failed client record live came => exact ended.read live
  | answered client record live complete _ result =>
      have unchanged := known.unchanged
      subst unchanged
      have opened : .handled client true ∉ before.trace := fun handled => by
        cases ended.gone client record live handled
      have request := known.request live (before.session record).request.rx
      obtain ⟨back, trace, _, own, unhandled, handled⟩ := handleFrame_answers sys request
      have acts : ∀ event ∈ Event.dispatched client record.rxBuffer.currPtr
          (HwioPacketHeader.at record.rxBuffer.buffer record.rxBuffer.currPtr)
          (before.session record).request.rx :: back, actor event = some client := by
        intro event member
        rcases List.mem_cons.mp member with rfl | later
        · rfl
        · exact own event later
      refine ⟨fun other left found member => ?_, ?_⟩
      · change .handled other true ∈ (handleFrame _ _ _ _).2.trace at member
        rw [trace] at member
        rcases putSession_live found with ⟨rfl, rfl⟩ | ⟨apart, there⟩
        · rcases List.mem_append.mp member with old | new
          · exact absurd old opened
          · rcases List.mem_cons.mp new with first | later
            · cases first
            · rw [result, handled.mp later]
        · rcases List.mem_append.mp member with old | new
          · cases ended.gone other left there old
          · have mine := acts _ new
            exact absurd (Option.some.inj mine) apart
      · show Justified Silent (handleFrame _ _ _ _).2.trace
        rw [trace]
        refine silent_append ended.silent fun event member other mine => Or.inr ?_
        rw [acts event member] at mine
        cases mine
        refine ⟨opened, fun new => ?_⟩
        cases back with
        | nil => cases new
        | cons next rest =>
            rcases List.mem_cons.mp new with first | later
            · cases first
            · exact unhandled later

/-! ## Runs -/

/-- What every run keeps of the answers. -/
theorem Reached.known {tables : Tables World} {master : Fd} {tx : List Byte} {world : World}
    {server : HwioServer World} (reached : Reached (prepared tables master tx world) server) :
    Known tables (prepared tables master tx world).service server where
  numbered := reached.numbered
  unchanged := reached.service.1
  service := reached.service_prepared

/-- Every frame of every run is answered at once, and ended connections are
silent and gone. -/
theorem Reached.answers_ended {tables : Tables World} {master : Fd} {tx : List Byte}
    {world : World} {server : HwioServer World}
    (reached : Reached (prepared tables master tx world) server) :
    Explained (Answers tables (prepared tables master tx world).service) server.trace ∧
      Ended .idle server := by
  have kept := @Reached.moving _ _ _ (fun mode server =>
    Known tables (prepared tables master tx world).service server ∧
      Explained (Answers tables (prepared tables master tx world).service) server.trace ∧
      Ended mode server) reached
  refine (kept ⟨Reached.known .start, ?_, ?_⟩ ?_).2
  · intro front event back split
    rcases List.singleton_eq_append_iff.mp split with ⟨_, same⟩ | ⟨_, none⟩
    · cases same
      exact trivial
    · cases none
  · have quiet : Silent [] (.opened master) := by
      intro client acts
      cases acts
    refine ⟨?_, justified_singleton quiet⟩
    intro client record live
    cases live
  · rintro sys before after mode mode' move ⟨known, answers, ended⟩
    exact ⟨Move.known move known, Move.answers move known answers, Move.ended move known ended⟩

end HwioServer

end Hwio
