import Hwio.Library.History
import Hwio.Library.Slots
import Hwio.Server.Poll

/-!
Contract: the agreement of the client tables with one another and with the
descriptors that are open.

Owns the life of a connection as its history tells it, the agreement of slots,
entries, records and open descriptors, and its preservation by the making and
the removal of a client.

Does not own the poll set.
-/

namespace Hwio

open Library

variable {World : Type}

/-! ## The life of a connection -/

/-- The events that begin or end a connection or open or close a descriptor. -/
def Life : Event → Prop
  | .opened _ | .accepted _ | .created _ _ | .removed _ | .closed _ => True
  | _ => False

/-- The effect of an event on the connections that are there. -/
def connectedStep (clients : List ClientPtr) : Event → List ClientPtr
  | .created client _ => client :: clients
  | .removed client => clients.filter (· ≠ client)
  | _ => clients

/-- The connections that are there after a history. -/
def connected (history : List Event) : List ClientPtr := history.foldl connectedStep []

theorem openFds_quiet (history : List Event) {events : List Event}
    (quiet : ∀ event ∈ events, ¬ Life event) : openFds (history ++ events) = openFds history := by
  unfold openFds
  rw [List.foldl_append]
  generalize history.foldl openFdsStep [] = fds
  induction events generalizing fds with
  | nil => rfl
  | cons event rest inductionHypothesis =>
      have still : openFdsStep fds event = fds := by
        cases event <;> first | rfl | exact absurd trivial (quiet _ List.mem_cons_self)
      rw [List.foldl_cons, still]
      exact inductionHypothesis (fun later member => quiet later (List.mem_cons_of_mem _ member)) fds

theorem connected_quiet (history : List Event) {events : List Event}
    (quiet : ∀ event ∈ events, ¬ Life event) :
    connected (history ++ events) = connected history := by
  unfold connected
  rw [List.foldl_append]
  generalize history.foldl connectedStep [] = clients
  induction events generalizing clients with
  | nil => rfl
  | cons event rest inductionHypothesis =>
      have still : connectedStep clients event = clients := by
        cases event <;> first | rfl | exact absurd trivial (quiet _ List.mem_cons_self)
      rw [List.foldl_cons, still]
      exact inductionHypothesis
        (fun later member => quiet later (List.mem_cons_of_mem _ member)) clients

/-- What must have happened before an event of the life of a connection. -/
def LifeBecause (front : List Event) : Event → Prop
  | .accepted fd => fd ∉ openFds front
  | .created _ fd => ∃ earlier, front = earlier ++ [.accepted fd]
  | .removed client => (∃ fd, .created client fd ∈ front) ∧ .removed client ∉ front
  | .closed fd => fd ∈ openFds front ∧
      ∃ earlier client, front = earlier ++ [.removed client] ∧ .created client fd ∈ earlier
  | _ => True

/-- What happens next in the life of a connection. -/
def LifeNeeds : Event → Event → Prop
  | .accepted fd, next => ∃ client, next = .created client fd
  | .removed _, next => ∃ fd, next = .closed fd
  | _, _ => False

/-- The events of the life of a connection that nothing has to follow. -/
def LifeLast : Event → Prop
  | .accepted _ | .removed _ => False
  | _ => True

/-! ## Agreement -/

namespace HwioServer

/-- The tables, the records and the open descriptors agree. -/
structure Agreed (master : Fd) (server : HwioServer World) : Prop where
  record_slot : ∀ client record, server.heap client = some record →
    server.clients[record.id]? = some (some client)
  record_entry : ∀ client record, server.heap client = some record →
    server.fdToClient.lookup record.fd = some client
  slot_record : ∀ (id : Nat) client, server.clients[id]? = some (some client) →
    ∃ record, server.heap client = some record ∧ record.id = id
  entry_record : ∀ fd client, server.fdToClient.lookup fd = some client →
    ∃ record, server.heap client = some record ∧ record.fd = fd
  numbered : ∀ client record, server.heap client = some record → client < server.nextClient
  made : ∀ client record, server.heap client = some record →
    .created client record.fd ∈ server.trace ∧ .removed client ∉ server.trace
  removed : ∀ client, .removed client ∈ server.trace → client < server.nextClient
  opened : ∀ fd, fd ∈ openFds server.trace ↔ fd = master ∨ fd ∈ server.fdToClient
  valid : ∀ fd ∈ server.fdToClient, 0 ≤ fd ∧ fd ≠ master
  because : Justified LifeBecause server.trace
  followed : Followed LifeNeeds LifeLast server.trace
  connected_iff : ∀ client, client ∈ connected server.trace ↔
    ∃ record, server.heap client = some record
  connected_nodup : (connected server.trace).Nodup
  peak : ∃ front, front <+: server.trace ∧ server.clients.length ≤ (connected front).length

theorem prepared_agreed (tables : Tables World) (master : Fd) (tx : List Byte) (world : World) :
    Agreed master (prepared tables master tx world) where
  record_slot client record live := by cases live
  record_entry client record live := by cases live
  slot_record id client held := by cases held
  entry_record fd client listed := by cases listed
  numbered client record live := by cases live
  made client record live := by cases live
  removed client gone := by cases List.mem_singleton.mp gone
  opened fd := by
    show fd ∈ [master] ↔ _
    rw [List.mem_singleton]
    exact ⟨Or.inl, fun known => known.resolve_right (AList.notMem_empty fd)⟩
  valid fd known := absurd known (AList.notMem_empty fd)
  because := justified_singleton trivial
  followed := by
    show Followed LifeNeeds LifeLast ([] ++ [.opened master])
    apply explained_nil.append_last
    intro event member
    rw [List.mem_singleton.mp member]
    exact trivial
  connected_iff client := by
    constructor
    · intro member
      cases member
    · rintro ⟨record, live⟩
      cases live
  connected_nodup := List.nodup_nil
  peak := ⟨[], List.nil_prefix, Nat.le_refl 0⟩

/-! ## Changes that no table sees -/

/-- Nothing that the tables hold changes: the records keep their places and
descriptors, and no connection begins or ends. -/
structure Quiet (before after : HwioServer World) : Prop where
  clients : after.clients = before.clients
  fdToClient : after.fdToClient = before.fdToClient
  nextClient : after.nextClient = before.nextClient
  pollFds : after.pollFds = before.pollFds
  heap : ∀ client, (after.heap client).map (fun record => (record.id, record.fd)) =
    (before.heap client).map fun record => (record.id, record.fd)
  trace : ∃ events, after.trace = before.trace ++ events ∧ ∀ event ∈ events, ¬ Life event

theorem Quiet.refl (server : HwioServer World) : Quiet server server :=
  ⟨rfl, rfl, rfl, rfl, fun _ => rfl, [], (List.append_nil _).symm, by simp⟩

theorem Quiet.trans {first second third : HwioServer World} (left : Quiet first second)
    (right : Quiet second third) : Quiet first third := by
  obtain ⟨early, trace, quiet⟩ := left.trace
  obtain ⟨late, trace', quiet'⟩ := right.trace
  refine ⟨right.clients.trans left.clients, right.fdToClient.trans left.fdToClient,
    right.nextClient.trans left.nextClient, right.pollFds.trans left.pollFds,
    fun client => (right.heap client).trans (left.heap client), early ++ late, ?_, ?_⟩
  · rw [trace', trace, List.append_assoc]
  · intro event member
    rcases List.mem_append.mp member with first | second
    · exact quiet event first
    · exact quiet' event second

theorem Quiet.record {before after : HwioServer World} (quiet : Quiet before after)
    {client : ClientPtr} {record : ClientInfo} (live : after.heap client = some record) :
    ∃ old, before.heap client = some old ∧ old.id = record.id ∧ old.fd = record.fd := by
  have same := quiet.heap client
  rw [live] at same
  obtain ⟨old, live', pair⟩ := Option.map_eq_some_iff.mp same.symm
  exact ⟨old, live', congrArg Prod.fst pair, congrArg Prod.snd pair⟩

theorem Quiet.record_back {before after : HwioServer World} (quiet : Quiet before after)
    {client : ClientPtr} {record : ClientInfo} (live : before.heap client = some record) :
    ∃ new, after.heap client = some new ∧ new.id = record.id ∧ new.fd = record.fd := by
  have same := quiet.heap client
  rw [live] at same
  obtain ⟨new, live', pair⟩ := Option.map_eq_some_iff.mp same
  exact ⟨new, live', congrArg Prod.fst pair, congrArg Prod.snd pair⟩

/-- A client record is replaced by one with the same place and descriptor. -/
theorem quiet_putSession {server : HwioServer World} {client : ClientPtr} {record : ClientInfo}
    (live : server.heap client = some record) {session : Session World}
    (id : session.client.id = record.id) (fd : session.client.fd = record.fd)
    (trace : ∃ events, session.trace = server.trace ++ events ∧ ∀ event ∈ events, ¬ Life event) :
    Quiet server (server.putSession client session) := by
  refine ⟨rfl, rfl, rfl, rfl, fun other => ?_, trace⟩
  by_cases same : other = client
  · subst same
    simp only [putSession, Function.update_self, live, Option.map_some, id, fd]
  · simp only [putSession, Function.update_of_ne same]

theorem quiet_note (server : HwioServer World) {event : Event} (quiet : ¬ Life event) :
    Quiet server (note event server) := by
  refine ⟨rfl, rfl, rfl, rfl, fun _ => rfl, [event], rfl, fun other member => ?_⟩
  rw [List.mem_singleton.mp member]
  exact quiet

theorem quiet_pushRemoved (server : HwioServer World) (fd : Fd) :
    Quiet server (pushRemoved fd server) :=
  ⟨rfl, rfl, rfl, rfl, fun _ => rfl, [], (List.append_nil _).symm, by simp⟩

theorem Agreed.quiet {master : Fd} {before after : HwioServer World}
    (agreed : Agreed master before) (quiet : Quiet before after) : Agreed master after := by
  obtain ⟨events, trace, silent⟩ := quiet.trace
  have fds : openFds after.trace = openFds before.trace := by
    rw [trace]
    exact openFds_quiet _ silent
  have clients : connected after.trace = connected before.trace := by
    rw [trace]
    exact connected_quiet _ silent
  have removedOld : ∀ client, .removed client ∈ after.trace → .removed client ∈ before.trace := by
    intro client member
    rw [trace] at member
    rcases List.mem_append.mp member with old | new
    · exact old
    · exact absurd trivial (silent _ new)
  exact {
    record_slot client record live := by
      obtain ⟨old, live', id, _⟩ := quiet.record live
      rw [quiet.clients, ← id]
      exact agreed.record_slot client old live'
    record_entry client record live := by
      obtain ⟨old, live', _, fd⟩ := quiet.record live
      rw [quiet.fdToClient, ← fd]
      exact agreed.record_entry client old live'
    slot_record id client held := by
      rw [quiet.clients] at held
      obtain ⟨old, live, same⟩ := agreed.slot_record id client held
      obtain ⟨new, live', id', _⟩ := quiet.record_back live
      exact ⟨new, live', id'.trans same⟩
    entry_record fd client listed := by
      rw [quiet.fdToClient] at listed
      obtain ⟨old, live, same⟩ := agreed.entry_record fd client listed
      obtain ⟨new, live', _, fd'⟩ := quiet.record_back live
      exact ⟨new, live', fd'.trans same⟩
    numbered client record live := by
      obtain ⟨old, live', _, _⟩ := quiet.record live
      rw [quiet.nextClient]
      exact agreed.numbered client old live'
    made client record live := by
      obtain ⟨old, live', _, fd⟩ := quiet.record live
      obtain ⟨made, kept⟩ := agreed.made client old live'
      refine ⟨?_, fun gone => kept (removedOld client gone)⟩
      rw [trace, ← fd]
      exact List.mem_append_left _ made
    removed client gone := by
      rw [quiet.nextClient]
      exact agreed.removed client (removedOld client gone)
    opened fd := by
      rw [fds, quiet.fdToClient]
      exact agreed.opened fd
    valid fd known := by
      rw [quiet.fdToClient] at known
      exact agreed.valid fd known
    because := by
      rw [trace]
      apply agreed.because.append_free
      intro event member front
      have noLife := silent event member
      cases event <;> first | exact trivial | exact absurd trivial noLife
    followed := by
      rw [trace]
      apply agreed.followed.append_last
      intro event member
      have noLife := silent event member
      cases event <;> first | exact trivial | exact absurd trivial noLife
    connected_iff client := by
      rw [clients, agreed.connected_iff client]
      constructor
      · rintro ⟨record, live⟩
        obtain ⟨new, live', _⟩ := quiet.record_back live
        exact ⟨new, live'⟩
      · rintro ⟨record, live⟩
        obtain ⟨old, live', _⟩ := quiet.record live
        exact ⟨old, live'⟩
    connected_nodup := by
      rw [clients]
      exact agreed.connected_nodup
    peak := by
      obtain ⟨front, early, high⟩ := agreed.peak
      refine ⟨front, ?_, ?_⟩
      · rw [trace]
        exact early.trans (List.prefix_append _ _)
      · rw [quiet.clients]
        exact high }

/-- The poll set is not seen by any table. -/
theorem Agreed.cleanup {master : Fd} {server : HwioServer World} (agreed : Agreed master server) :
    Agreed master (cleanup server) where
  record_slot := agreed.record_slot
  record_entry := agreed.record_entry
  slot_record := agreed.slot_record
  entry_record := agreed.entry_record
  numbered := agreed.numbered
  made := agreed.made
  removed := agreed.removed
  opened := agreed.opened
  valid := agreed.valid
  because := agreed.because
  followed := agreed.followed
  connected_iff := agreed.connected_iff
  connected_nodup := agreed.connected_nodup
  peak := agreed.peak

/-! ## A client is made -/

/-- `add_new_client` for an accepted descriptor that no table knows. -/
def connect (sys : Sys) (socket : Fd) (server : HwioServer World) : HwioServer World :=
  listClient socket server.nextClient (allocClient sys socket (note (.accepted socket) server))

theorem connect_clients (sys : Sys) (socket : Fd) (server : HwioServer World) :
    (connect sys socket server).clients = place server.clients server.nextClient := rfl

theorem connect_trace (sys : Sys) (socket : Fd) (server : HwioServer World) :
    (connect sys socket server).trace =
      server.trace ++ [.accepted socket, .created server.nextClient socket] :=
  List.append_assoc ..

theorem connect_heap_self (sys : Sys) (socket : Fd) (server : HwioServer World) :
    ∃ rxBuffer, (connect sys socket server).heap server.nextClient =
      some ⟨firstEmpty server.clients, socket, rxBuffer, []⟩ :=
  ⟨_, Function.update_self ..⟩

theorem connect_heap_other (sys : Sys) (socket : Fd) (server : HwioServer World)
    {client : ClientPtr} (other : client ≠ server.nextClient) :
    (connect sys socket server).heap client = server.heap client :=
  Function.update_of_ne other ..

/-- A client has the slot that its record names. -/
theorem placed_iff {server : HwioServer World}
    (slot : ∀ client record, server.heap client = some record →
      server.clients[record.id]? = some (some client))
    (record : ∀ (id : Nat) client, server.clients[id]? = some (some client) →
      ∃ record, server.heap client = some record ∧ record.id = id)
    (id : Nat) (client : ClientPtr) :
    server.clients[id]? = some (some client) ↔
      (server.heap client).map ClientInfo.id = some id := by
  rw [Option.map_eq_some_iff]
  constructor
  · exact record id client
  · rintro ⟨record, live, rfl⟩
    exact slot client record live

theorem exists_home_iff {server : HwioServer World} (client : ClientPtr) :
    (∃ id, (server.heap client).map ClientInfo.id = some id) ↔
      ∃ record, server.heap client = some record := by
  rw [← Option.isSome_iff_exists, ← Option.isSome_iff_exists, Option.isSome_map]

/-- As many slots are taken as there are connections. -/
theorem Agreed.reduceOption_length {master : Fd} {server : HwioServer World}
    (agreed : Agreed master server) :
    server.clients.reduceOption.length = (connected server.trace).length := by
  apply reduceOption_length_of_placed (placed_iff agreed.record_slot agreed.slot_record)
  · exact agreed.connected_nodup
  · intro client
    rw [agreed.connected_iff client, exists_home_iff]

theorem Agreed.connect {master : Fd} {sys : Sys} {server : HwioServer World}
    (agreed : Agreed master server) {socket : Fd} (positive : 0 ≤ socket)
    (fresh : socket ∉ openFds server.trace) : Agreed master (connect sys socket server) := by
  obtain ⟨rxBuffer, self⟩ := connect_heap_self sys socket server
  have trace := connect_trace sys socket server
  have unknown : socket ∉ server.fdToClient :=
    fun known => fresh ((agreed.opened socket).mpr (Or.inr known))
  have unborn : server.heap server.nextClient = none := by
    apply Option.eq_none_iff_forall_ne_some.mpr
    intro record live
    exact Nat.lt_irrefl _ (agreed.numbered _ record live)
  have records : ∀ client record, (HwioServer.connect sys socket server).heap client = some record →
      (client = server.nextClient ∧
        record = ⟨firstEmpty server.clients, socket, rxBuffer, []⟩) ∨
        client ≠ server.nextClient ∧ server.heap client = some record := by
    intro client record live
    by_cases same : client = server.nextClient
    · rw [same, self] at live
      exact Or.inl ⟨same, (Option.some.inj live).symm⟩
    · rw [connect_heap_other sys socket server same] at live
      exact Or.inr ⟨same, live⟩
  have kept : ∀ client record, server.heap client = some record →
      (HwioServer.connect sys socket server).heap client = some record := by
    intro client record live
    rw [connect_heap_other sys socket server ?_]
    · exact live
    · rintro rfl
      rw [unborn] at live
      cases live
  have clients : connected (HwioServer.connect sys socket server).trace =
      server.nextClient :: connected server.trace := by
    rw [trace]
    exact List.foldl_append ..
  have removedOld : ∀ client, .removed client ∈ (HwioServer.connect sys socket server).trace →
      .removed client ∈ server.trace := by
    intro client gone
    rw [trace] at gone
    rcases List.mem_append.mp gone with old | new
    · exact old
    · simp at new
  exact {
    record_slot client record live := by
      rw [connect_clients, place_getElem?_iff]
      rcases records client record live with ⟨same, rfl⟩ | ⟨_, live'⟩
      · exact Or.inl ⟨rfl, same⟩
      · exact Or.inr (agreed.record_slot client record live')
    record_entry client record live := by
      show (server.fdToClient.insert socket server.nextClient).lookup record.fd = some client
      rcases records client record live with ⟨same, rfl⟩ | ⟨_, live'⟩
      · rw [AList.lookup_insert, same]
      · have entry := agreed.record_entry client record live'
        rw [AList.lookup_insert_ne, entry]
        rintro rfl
        exact unknown (AList.lookup_isSome.mp (by rw [entry]; rfl))
    slot_record id client held := by
      rw [connect_clients, place_getElem?_iff] at held
      rcases held with ⟨rfl, rfl⟩ | old
      · exact ⟨_, self, rfl⟩
      · obtain ⟨record, live, same⟩ := agreed.slot_record id client old
        exact ⟨record, kept client record live, same⟩
    entry_record fd client listed := by
      change (server.fdToClient.insert socket server.nextClient).lookup fd = some client at listed
      by_cases same : fd = socket
      · rw [same, AList.lookup_insert] at listed
        cases listed
        exact ⟨_, self, same.symm⟩
      · rw [AList.lookup_insert_ne same] at listed
        obtain ⟨record, live, same⟩ := agreed.entry_record fd client listed
        exact ⟨record, kept client record live, same⟩
    numbered client record live := by
      show client < server.nextClient + 1
      rcases records client record live with ⟨rfl, _⟩ | ⟨_, live'⟩
      · exact Nat.lt_succ_self _
      · exact Nat.lt_succ_of_lt (agreed.numbered client record live')
    made client record live := by
      rcases records client record live with ⟨rfl, rfl⟩ | ⟨_, live'⟩
      · refine ⟨?_, fun gone => ?_⟩
        · rw [trace]
          simp
        · exact Nat.lt_irrefl _ (agreed.removed _ (removedOld _ gone))
      · obtain ⟨made, still⟩ := agreed.made client record live'
        refine ⟨?_, fun gone => still (removedOld client gone)⟩
        rw [trace]
        exact List.mem_append_left _ made
    removed client gone := Nat.lt_succ_of_lt (agreed.removed client (removedOld client gone))
    opened fd := by
      have fds : openFds (HwioServer.connect sys socket server).trace =
          socket :: openFds server.trace := by
        rw [trace]
        exact List.foldl_append ..
      show _ ↔ fd = master ∨ fd ∈ server.fdToClient.insert socket server.nextClient
      rw [fds, List.mem_cons, agreed.opened fd, AList.mem_insert]
      tauto
    valid fd known := by
      rcases (AList.mem_insert _).mp known with rfl | old
      · refine ⟨positive, fun same => fresh ?_⟩
        exact (agreed.opened fd).mpr (Or.inl same)
      · exact agreed.valid fd old
    because := by
      rw [trace]
      exact agreed.because.append_pair fresh ⟨server.trace, rfl⟩
    followed := by
      rw [trace]
      exact agreed.followed.append_pair ⟨server.nextClient, rfl⟩ trivial
    connected_iff client := by
      rw [clients, List.mem_cons, agreed.connected_iff client]
      constructor
      · rintro (rfl | ⟨record, live⟩)
        · exact ⟨_, self⟩
        · exact ⟨record, kept client record live⟩
      · rintro ⟨record, live⟩
        rcases records client record live with ⟨same, _⟩ | ⟨_, live'⟩
        · exact Or.inl same
        · exact Or.inr ⟨record, live'⟩
    connected_nodup := by
      rw [clients, List.nodup_cons, agreed.connected_iff]
      refine ⟨?_, agreed.connected_nodup⟩
      rintro ⟨record, live⟩
      rw [unborn] at live
      cases live
    peak := by
      by_cases hole : none ∈ server.clients
      · obtain ⟨front, early, high⟩ := agreed.peak
        refine ⟨front, ?_, ?_⟩
        · rw [trace]
          exact early.trans (List.prefix_append _ _)
        · rw [connect_clients, place_length_of_mem hole]
          exact high
      · refine ⟨_, List.prefix_rfl, ?_⟩
        rw [connect_clients, place_length_of_not_mem hole, clients, List.length_cons,
          ← agreed.reduceOption_length, reduceOption_length_of_not_mem hole] }

/-! ## A client is removed -/

theorem Agreed.delete {master : Fd} {server : HwioServer World} (agreed : Agreed master server)
    {client : ClientPtr} {record : ClientInfo} (live : server.heap client = some record) :
    Agreed master (deleteClient client record server) := by
  have entry := agreed.record_entry client record live
  have known : record.fd ∈ server.fdToClient := AList.lookup_isSome.mp (by rw [entry]; rfl)
  have valid := agreed.valid record.fd known
  have trace : (deleteClient client record server).trace =
      server.trace ++ [.removed client, .closed record.fd] := by
    show server.trace ++ .removed client :: closeOnDelete record.fd = _
    rw [closeOnDelete, if_pos valid.1]
  have self : (deleteClient client record server).heap client = none := Function.update_self ..
  have others : ∀ other, other ≠ client →
      (deleteClient client record server).heap other = server.heap other :=
    fun other apart => Function.update_of_ne apart ..
  have records : ∀ other left, (deleteClient client record server).heap other = some left →
      other ≠ client ∧ server.heap other = some left := by
    intro other left live'
    by_cases same : other = client
    · rw [same, self] at live'
      cases live'
    · rw [others other same] at live'
      exact ⟨same, live'⟩
  have fds : openFds (deleteClient client record server).trace =
      (openFds server.trace).filter (· ≠ record.fd) := by
    rw [trace]
    exact List.foldl_append ..
  have clients : connected (deleteClient client record server).trace =
      (connected server.trace).filter (· ≠ client) := by
    rw [trace]
    exact List.foldl_append ..
  have made := agreed.made client record live
  exact {
    record_slot other left live' := by
      obtain ⟨apart, old⟩ := records other left live'
      show (server.clients.set record.id none)[left.id]? = _
      rw [set_none_getElem?_iff]
      refine ⟨fun same => apart ?_, agreed.record_slot other left old⟩
      have mine := agreed.record_slot client record live
      have theirs := agreed.record_slot other left old
      rw [same, mine] at theirs
      exact (Option.some.inj (Option.some.inj theirs)).symm
    record_entry other left live' := by
      obtain ⟨apart, old⟩ := records other left live'
      have theirs := agreed.record_entry other left old
      show (server.fdToClient.erase record.fd).lookup left.fd = some other
      rw [AList.lookup_erase_ne, theirs]
      intro same
      rw [same, entry] at theirs
      exact apart (Option.some.inj theirs).symm
    slot_record id other held := by
      change (server.clients.set record.id none)[id]? = _ at held
      obtain ⟨elsewhere, old⟩ := (set_none_getElem?_iff _).mp held
      obtain ⟨left, live', same⟩ := agreed.slot_record id other old
      refine ⟨left, ?_, same⟩
      rw [others other ?_]
      · exact live'
      · rintro rfl
        rw [live] at live'
        cases live'
        exact elsewhere same.symm
    entry_record fd other listed := by
      change (server.fdToClient.erase record.fd).lookup fd = some other at listed
      by_cases same : fd = record.fd
      · rw [same, AList.lookup_erase] at listed
        cases listed
      · rw [AList.lookup_erase_ne same] at listed
        obtain ⟨left, live', at_fd⟩ := agreed.entry_record fd other listed
        refine ⟨left, ?_, at_fd⟩
        rw [others other ?_]
        · exact live'
        · rintro rfl
          rw [live] at live'
          cases live'
          exact same at_fd.symm
    numbered other left live' := agreed.numbered other left (records other left live').2
    made other left live' := by
      obtain ⟨apart, old⟩ := records other left live'
      obtain ⟨made, still⟩ := agreed.made other left old
      rw [trace]
      refine ⟨List.mem_append_left _ made, fun gone => ?_⟩
      rcases List.mem_append.mp gone with before | now
      · exact still before
      · simp [apart] at now
    removed other gone := by
      rw [trace] at gone
      rcases List.mem_append.mp gone with before | now
      · exact agreed.removed other before
      · have same : other = client := by simpa using now
        rw [same]
        exact agreed.numbered client record live
    opened fd := by
      show _ ↔ fd = master ∨ fd ∈ server.fdToClient.erase record.fd
      rw [fds, List.mem_filter, agreed.opened fd, AList.mem_erase, decide_eq_true_eq]
      constructor
      · rintro ⟨isMaster | old, apart⟩
        · exact Or.inl isMaster
        · exact Or.inr ⟨apart, old⟩
      · rintro (rfl | ⟨apart, old⟩)
        · exact ⟨Or.inl rfl, Ne.symm valid.2⟩
        · exact ⟨Or.inr old, apart⟩
    valid fd listed := agreed.valid fd (AList.mem_erase.mp listed).2
    because := by
      rw [trace]
      have still : openFds (server.trace ++ [.removed client]) = openFds server.trace :=
        List.foldl_append ..
      apply agreed.because.append_pair
      · exact ⟨⟨record.fd, made.1⟩, made.2⟩
      · refine ⟨?_, server.trace, client, rfl, made.1⟩
        rw [still, agreed.opened]
        exact Or.inr known
    followed := by
      rw [trace]
      exact agreed.followed.append_pair ⟨record.fd, rfl⟩ trivial
    connected_iff other := by
      rw [clients, List.mem_filter, agreed.connected_iff, decide_eq_true_eq]
      constructor
      · rintro ⟨⟨left, live'⟩, apart⟩
        refine ⟨left, ?_⟩
        rw [others other apart]
        exact live'
      · rintro ⟨left, live'⟩
        obtain ⟨apart, old⟩ := records other left live'
        exact ⟨⟨left, old⟩, apart⟩
    connected_nodup := by
      rw [clients]
      exact agreed.connected_nodup.filter _
    peak := by
      obtain ⟨front, early, high⟩ := agreed.peak
      refine ⟨front, ?_, ?_⟩
      · rw [trace]
        exact early.trans (List.prefix_append _ _)
      · show (server.clients.set record.id none).length ≤ _
        rw [List.length_set]
        exact high }

/-! ## The count of clients -/

/-- The assertion of `get_client_cnt` holds. -/
theorem Agreed.getClientCnt {master : Fd} {server : HwioServer World}
    (agreed : Agreed master server) :
    getClientCnt server = .ok (connected server.trace).length := by
  have entries : server.fdToClient.entries.length = (connected server.trace).length := by
    have distinct : (server.fdToClient.entries.map fun entry => entry.2).Nodup := by
      refine List.Nodup.map_on ?_ server.fdToClient.nodupKeys.nodup
      rintro ⟨fd, client⟩ first ⟨fd', client'⟩ second (rfl : client = client')
      obtain ⟨record, live, at_fd⟩ := agreed.entry_record fd client (AList.mem_lookup_iff.mpr first)
      obtain ⟨record', live', at_fd'⟩ :=
        agreed.entry_record fd' client (AList.mem_lookup_iff.mpr second)
      rw [live] at live'
      cases live'
      rw [← at_fd, ← at_fd']
    rw [← List.length_map fun entry => entry.2]
    apply List.Perm.length_eq
    rw [List.perm_ext_iff_of_nodup distinct agreed.connected_nodup]
    intro client
    rw [List.mem_map, agreed.connected_iff client]
    constructor
    · rintro ⟨⟨fd, other⟩, member, rfl⟩
      obtain ⟨record, live, _⟩ := agreed.entry_record fd other (AList.mem_lookup_iff.mpr member)
      exact ⟨record, live⟩
    · rintro ⟨record, live⟩
      exact ⟨⟨record.fd, client⟩,
        AList.mem_lookup_iff.mp (agreed.record_entry client record live), rfl⟩
  unfold HwioServer.getClientCnt
  simp only
  rw [countP_ne_none, agreed.reduceOption_length, entries, if_pos rfl]

end HwioServer

end Hwio
