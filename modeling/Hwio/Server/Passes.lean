import Hwio.Server.Clients
import Hwio.Server.Registration
import Hwio.Server.Requests

/-!
Contract: the poll set over whole passes.

Owns what a pass does to `poll_fds` and to the descriptors queued for removal,
how a pass can end, and the consistency of all client tables in every run of
passes that return.

Does not own the agreement of the tables with one another.
-/

namespace Hwio

open Library

variable {World : Type}

/-! ## How a request ends -/

/-- A request only ends with an exception or with the assertion of its lookup. -/
def Escapes (stop : Stop) : Prop :=
  (∃ exn, stop = .thrown exn) ∨ stop = .aborted .deviceLookupResp

theorem registerDevices_escapes (tables : Tables World) (devs : List DevPtr) (i : Nat)
    (ctx : Ctx World) (stop : Stop) (stopped : (registerDevices tables devs i ctx).1 = .error stop) :
    Escapes stop := by
  induction devs generalizing i ctx with
  | nil => cases stopped
  | cons dev rest inductionHypothesis =>
      have one : ∀ stop, (registerDevice tables dev ctx).1 = .error stop → Escapes stop := by
        intro stop stopped
        unfold registerDevice at stopped
        simp only at stopped
        split at stopped
        · cases stopped
        · split at stopped
          · cases stopped
            exact Or.inr rfl
          · split at stopped
            · cases stopped
            · cases stopped
              exact Or.inl ⟨_, rfl⟩
      rw [registerDevices] at stopped
      rcases registering : registerDevice tables dev ctx with ⟨result, left⟩
      rw [registering] at stopped one
      cases result with
      | error other =>
          cases stopped
          exact one _ rfl
      | ok devId => exact inductionHypothesis (i + 1) _ stopped

theorem handleQuery_escapes (tables : Tables World) (header : HwioPacketHeader) (ctx : Ctx World)
    (stop : Stop) (stopped : (handleQuery tables header ctx).1 = .error stop) : Escapes stop := by
  have queried := handleQuery_queried tables header ctx
  generalize handleQuery tables header ctx = answer at queried stopped
  cases queried with
  | refused code message early => cases stopped
  | @thrown exn world finds onlyFind looking =>
      cases stopped
      exact Or.inl ⟨exn, rfl⟩
  | @stopped world finds found other last onlyFind looking results registered =>
      cases stopped
      apply registerDevices_escapes tables found 0 (ctx.registering world finds)
      rw [registered]
  | answered onlyFind looking results registered => cases stopped

theorem callPlugin_escapes (plugin : PluginInfo World) (key : PluginKey) (dev : DevPtr)
    (argsOffset : Nat) (ctx : Ctx World) (stop : Stop)
    (stopped : (callPlugin plugin key dev argsOffset ctx).1 = .error stop) : Escapes stop := by
  unfold callPlugin at stopped
  simp only at stopped
  split at stopped
  · split at stopped <;> cases stopped
  · split at stopped
    · cases stopped
    · cases stopped
      exact Or.inl ⟨_, rfl⟩

theorem handleMsg_escapes (tables : Tables World) (header : HwioPacketHeader) (ctx : Ctx World)
    (stop : Stop) (stopped : (handleMsg tables header ctx).1 = .error stop) : Escapes stop := by
  unfold handleMsg at stopped
  rcases command : HwioCmd.ofCode header.command with _ | cmd
  · rw [command] at stopped
    cases stopped
  rw [command] at stopped
  cases cmd with
  | read =>
      simp only [handleRead] at stopped
      split at stopped
      · cases stopped
      split at stopped
      · cases stopped
      split at stopped
      · cases stopped
      · split at stopped
        · cases stopped
        · cases stopped
          exact Or.inl ⟨_, rfl⟩
  | write =>
      simp only [handleWrite] at stopped
      split at stopped
      · cases stopped
      split at stopped
      · cases stopped
      split at stopped
      · cases stopped
      split at stopped
      · cases stopped
      · cases stopped
        exact Or.inl ⟨_, rfl⟩
  | remoteCall =>
      simp only [handleRemoteCall] at stopped
      split at stopped
      · cases stopped
      split at stopped
      · cases stopped
      split at stopped
      · cases stopped
      · exact callPlugin_escapes _ _ _ _ _ _ stopped
  | remoteCallFast =>
      simp only [handleFastRemoteCall] at stopped
      split at stopped
      · cases stopped
      split at stopped
      · cases stopped
      split at stopped
      · cases stopped
      · exact callPlugin_escapes _ _ _ _ _ _ stopped
  | getRemoteCallId =>
      simp only [handleGetRpcFnId] at stopped
      split at stopped
      · cases stopped
      split at stopped <;> cases stopped
  | pingRequest =>
      simp only [handlePing] at stopped
      split at stopped <;> cases stopped
  | query => exact handleQuery_escapes tables header ctx stop stopped
  | bye | msg | readResp | pingReply | queryResp | remoteCallRet => cases stopped

/-! ## The traffic of one connection -/

/-- A connection keeps its place and its descriptor, and acts without
beginning or ending anything. -/
structure Traffic (client : ClientPtr) (before after : Session World) : Prop where
  id : after.client.id = before.client.id
  fd : after.client.fd = before.client.fd
  trace : ∃ events, after.trace = before.trace ++ events ∧
    ∀ event ∈ events, ¬ Life event ∧ HwioServer.actor event = some client

theorem Traffic.quiet {client : ClientPtr} {before after : Session World}
    (traffic : Traffic client before after) :
    ∃ events, after.trace = before.trace ++ events ∧ ∀ event ∈ events, ¬ Life event := by
  obtain ⟨events, trace, own⟩ := traffic.trace
  exact ⟨events, trace, fun event member => (own event member).1⟩

theorem Traffic.refl (client : ClientPtr) (session : Session World) :
    Traffic client session session :=
  ⟨rfl, rfl, [], (List.append_nil _).symm, by simp⟩

theorem Traffic.trans {client : ClientPtr} {first second third : Session World}
    (left : Traffic client first second) (right : Traffic client second third) :
    Traffic client first third := by
  obtain ⟨early, trace, quiet⟩ := left.trace
  obtain ⟨late, trace', quiet'⟩ := right.trace
  refine ⟨right.id.trans left.id, right.fd.trans left.fd, early ++ late, ?_, ?_⟩
  · rw [trace', trace, List.append_assoc]
  · intro event member
    rcases List.mem_append.mp member with first | second
    · exact quiet event first
    · exact quiet' event second

namespace HwioServer

theorem Progress.quiet {client : ClientPtr} {event : Event} (progress : Progress client event) :
    ¬ Life event := by
  cases progress <;> exact id

theorem readFromSocket_traffic (sys : Sys) (client : ClientPtr) (session : Session World) :
    Traffic client session (readFromSocket sys client session).2 := by
  obtain ⟨events, rxBuffer, left, progress⟩ := readFromSocket_session sys client session
  rw [left]
  exact ⟨rfl, rfl, events, rfl, fun event member =>
    ⟨(progress event member).quiet, (progress event member).actor_eq⟩⟩

theorem handleFrame_traffic (tables : Tables World) (sys : Sys) (client : ClientPtr)
    (session : Session World) : Traffic client session (handleFrame tables sys client session).2 := by
  obtain ⟨events, rxBuffer, left, progress⟩ := handleFrame_session tables sys client session
  rw [left]
  refine ⟨rfl, rfl, _, rfl, fun event member => ?_⟩
  rcases List.mem_cons.mp member with rfl | later
  · exact ⟨id, rfl⟩
  · rcases List.mem_append.mp later with call | last
    · obtain ⟨made, _, rfl⟩ := List.mem_map.mp call
      exact ⟨id, rfl⟩
    · exact ⟨(progress event last).quiet, (progress event last).actor_eq⟩

theorem handleFrame_escapes (tables : Tables World) (sys : Sys) (client : ClientPtr)
    (session : Session World) (stop : Stop)
    (stopped : (handleFrame tables sys client session).1 = .error stop) : Escapes stop := by
  have escapes := handleMsg_escapes tables (HwioPacketHeader.at session.client.rxBuffer.buffer
    session.client.rxBuffer.currPtr) session.request
  unfold handleFrame at stopped
  simp only at stopped
  rcases handling : handleMsg tables (HwioPacketHeader.at session.client.rxBuffer.buffer
    session.client.rxBuffer.currPtr) session.request with ⟨result, left⟩
  rw [handling] at stopped escapes
  cases result with
  | error other =>
      cases stopped
      exact escapes _ rfl
  | ok res => cases stopped

/-- The loop over the frames of a buffer is traffic, however it ends. -/
theorem parseLoop_traffic (tables : Tables World) (sys : Sys) (client : ClientPtr) (fuel : Nat)
    (session : Session World) :
    Traffic client session (parseLoop tables sys client fuel session).2 ∧
      ∀ stop, (parseLoop tables sys client fuel session).1 = .stopped stop → Escapes stop := by
  induction fuel generalizing session with
  | zero => exact ⟨.refl client session, fun stop stopped => by cases stopped⟩
  | succ fuel inductionHypothesis =>
      have traffic := handleFrame_traffic tables sys client session
      have escapes := handleFrame_escapes tables sys client session
      rw [parseLoop]
      split
      · exact ⟨.refl client session, fun stop stopped => by cases stopped⟩
      split
      · exact ⟨.refl client session, fun stop stopped => by cases stopped⟩
      rcases handling : handleFrame tables sys client session with ⟨result, left⟩
      rw [handling] at traffic escapes
      cases result with
      | error stop =>
          refine ⟨traffic, fun other stopped => ?_⟩
          cases stopped
          exact escapes stop rfl
      | ok disconnect =>
          cases disconnect with
          | true => exact ⟨traffic, fun stop stopped => by cases stopped⟩
          | false =>
              obtain ⟨later, escapes'⟩ := inductionHypothesis left
              exact ⟨traffic.trans later, escapes'⟩

/-! ## One visited descriptor -/

/-- The effect of removing the client of a descriptor. -/
structure Dropped (master fd : Fd) (before after : HwioServer World) : Prop where
  agreed : Agreed master after
  pollFds : after.pollFds = before.pollFds
  removedPollFds : after.removedPollFds = before.removedPollFds
  entries : ∀ other, other ∈ after.fdToClient ↔ other ≠ fd ∧ other ∈ before.fdToClient
  trace : ∃ events, after.trace = before.trace ++ events ∧ ∀ socket, .accepted socket ∉ events

theorem removeClient_drops {master fd : Fd} {server : HwioServer World}
    (agreed : Agreed master server) (known : fd ∈ server.fdToClient) :
    ∃ after, removeClient fd server = (.ok (), after) ∧ Dropped master fd server after := by
  obtain ⟨client, entry⟩ := Option.isSome_iff_exists.mp (AList.lookup_isSome.mpr known)
  obtain ⟨record, live, rfl⟩ := agreed.entry_record fd client entry
  refine ⟨deleteClient client record server, ?_, ?_⟩
  · simp only [removeClient, entry, live, if_pos]
  · exact {
      agreed := agreed.delete live
      pollFds := rfl
      removedPollFds := rfl
      entries other := AList.mem_erase
      trace := by
        refine ⟨_, rfl, fun socket member => ?_⟩
        rcases mem_deletion member with same | same <;> cases same }

/-- The effect of visiting the descriptor of a client: its client may be
removed, and then it is queued. -/
structure Visited (master fd : Fd) (before after : HwioServer World) : Prop where
  agreed : Agreed master after
  pollFds : after.pollFds = before.pollFds
  outcome :
    (after.removedPollFds = before.removedPollFds ∧
      ∀ other, other ∈ after.fdToClient ↔ other ∈ before.fdToClient) ∨
    (after.removedPollFds = before.removedPollFds ++ [fd] ∧
      ∀ other, other ∈ after.fdToClient ↔ other ≠ fd ∧ other ∈ before.fdToClient)
  trace : ∃ events, after.trace = before.trace ++ events ∧ ∀ socket, .accepted socket ∉ events

theorem accepted_not_mem_of_quiet {events : List Event} (quiet : ∀ event ∈ events, ¬ Life event)
    (socket : Fd) : .accepted socket ∉ events :=
  fun member => quiet _ member trivial

theorem Quiet.visited {master fd : Fd} {before after : HwioServer World}
    (agreed : Agreed master before) (quiet : Quiet before after)
    (removedPollFds : after.removedPollFds = before.removedPollFds) :
    Visited master fd before after where
  agreed := agreed.quiet quiet
  pollFds := quiet.pollFds
  outcome := Or.inl ⟨removedPollFds, fun other => by rw [quiet.fdToClient]⟩
  trace := by
    obtain ⟨events, trace, silent⟩ := quiet.trace
    exact ⟨events, trace, accepted_not_mem_of_quiet silent⟩

/-- A client is removed in the midst of quiet changes, and queued. -/
theorem Dropped.visited {master fd : Fd} {before server left after : HwioServer World}
    (quiet : Quiet before server) (kept : server.removedPollFds = before.removedPollFds)
    (dropped : Dropped master fd server left) (quiet' : Quiet left after)
    (queued : after.removedPollFds = left.removedPollFds ++ [fd]) :
    Visited master fd before after where
  agreed := dropped.agreed.quiet quiet'
  pollFds := by rw [quiet'.pollFds, dropped.pollFds, quiet.pollFds]
  outcome := by
    right
    refine ⟨by rw [queued, dropped.removedPollFds, kept], fun other => ?_⟩
    rw [quiet'.fdToClient, dropped.entries, quiet.fdToClient]
  trace := by
    obtain ⟨early, trace, silent⟩ := quiet.trace
    obtain ⟨events, trace', none⟩ := dropped.trace
    obtain ⟨late, trace'', silent'⟩ := quiet'.trace
    refine ⟨early ++ (events ++ late), ?_, fun socket member => ?_⟩
    · rw [trace'', trace', trace, List.append_assoc, List.append_assoc]
    · rcases List.mem_append.mp member with first | rest
      · exact accepted_not_mem_of_quiet silent socket first
      · rcases List.mem_append.mp rest with second | third
        · exact none socket second
        · exact accepted_not_mem_of_quiet silent' socket third

/-- A call that returns leaves a state with the property. -/
def Ends (After : HwioServer World → Prop) (ran : Ran World Unit) : Prop :=
  match ran.1 with
  | .ok () => After ran.2
  | .error stop => Escapes stop

variable {sys : Sys}

theorem parseMsgs_outcome (freed : ∀ history fd, sys.freedFd history fd = fd) {master : Fd}
    {before server : HwioServer World} (agreed : Agreed master before)
    {client : ClientPtr} {record : ClientInfo} (live : before.heap client = some record)
    (known : record.fd ∈ before.fdToClient) {session : Session World}
    (traffic : Traffic client (before.session record) session)
    (put : server = before.putSession client session) :
    Ends (Visited master record.fd before) (parseMsgs sys client session server) := by
  obtain ⟨later, escapes⟩ :=
    parseLoop_traffic server.tables sys client session.client.rxBuffer.currLen session
  unfold parseMsgs
  rcases loop : parseLoop server.tables sys client session.client.rxBuffer.currLen session with
    ⟨ended, after⟩
  rw [loop] at later escapes
  have whole := traffic.trans later
  have quiet : Quiet before (server.putSession client after) := by
    rw [put, putSession_putSession]
    exact quiet_putSession live whole.id whole.fd whole.quiet
  have kept : (server.putSession client after).removedPollFds = before.removedPollFds := by
    rw [put]
    rfl
  cases ended with
  | waiting => exact Quiet.visited agreed quiet kept
  | stopped stop => exact escapes stop rfl
  | disconnect =>
      have fd : after.client.fd = record.fd := whole.fd
      obtain ⟨left, removal, dropped⟩ := removeClient_drops (agreed.quiet quiet)
        (show record.fd ∈ _ from quiet.fdToClient ▸ known)
      simp only [fd, removal, freed]
      refine dropped.visited quiet kept ?_ rfl
      exact (quiet_note left (show ¬ Life (.readFreed client) from id)).trans
        (quiet_pushRemoved _ record.fd)

/-- Everything that a ready descriptor of a client leads to. -/
theorem handleMultipleClientRequests_outcome
    (freed : ∀ history fd, sys.freedFd history fd = fd) {master fd : Fd}
    {server : HwioServer World} (agreed : Agreed master server) (known : fd ∈ server.fdToClient) :
    Ends (Visited master fd server) (handleMultipleClientRequests sys fd server) := by
  obtain ⟨client, entry⟩ := Option.isSome_iff_exists.mp (AList.lookup_isSome.mpr known)
  obtain ⟨record, live, rfl⟩ := agreed.entry_record fd client entry
  have traffic := readFromSocket_traffic sys client (server.session record)
  have owner : clientOf sys record.fd server = (.ok client, server) := by
    simp only [clientOf, entry]
  simp only [handleMultipleClientRequests, owner, live, if_pos]
  rcases reading : readFromSocket sys client (server.session record) with ⟨came, session⟩
  rw [reading] at traffic
  cases came with
  | true => exact parseMsgs_outcome freed agreed live known traffic rfl
  | false =>
      have quiet : Quiet server (server.putSession client session) :=
        quiet_putSession live traffic.id traffic.fd traffic.quiet
      obtain ⟨left, removal, dropped⟩ := removeClient_drops (agreed.quiet quiet)
        (show record.fd ∈ _ from quiet.fdToClient ▸ known)
      simp only [removal]
      exact dropped.visited quiet rfl (quiet_pushRemoved left record.fd) rfl

theorem Quiet.outcome {master fd : Fd} {before server : HwioServer World}
    (quiet : Quiet before server) (kept : server.removedPollFds = before.removedPollFds)
    {ran : Ran World Unit} (outcome : Ends (Visited master fd server) ran) :
    Ends (Visited master fd before) ran := by
  rcases ran with ⟨result, after⟩
  cases result with
  | error stop => exact outcome
  | ok done =>
      obtain ⟨agreed, pollFds, what, events, trace, none⟩ := outcome
      obtain ⟨early, trace', silent⟩ := quiet.trace
      refine ⟨agreed, pollFds.trans quiet.pollFds, ?_, early ++ events, ?_, fun socket member => ?_⟩
      · rw [kept, quiet.fdToClient] at what
        exact what
      · rw [trace, trace', List.append_assoc]
      · rcases List.mem_append.mp member with first | second
        · exact accepted_not_mem_of_quiet silent socket first
        · exact none socket second

/-- A round of the loop for the descriptor of a client. -/
theorem visit_outcome (freed : ∀ history fd, sys.freedFd history fd = fd) {master fd : Fd}
    {server : HwioServer World} (agreed : Agreed master server)
    (isMaster : server.masterSocket = master) (known : fd ∈ server.fdToClient)
    (revents : UInt16) : Ends (Visited master fd server) (visit sys fd revents server) := by
  have quiet := quiet_note server (show ¬ Life (.visited fd) from id)
  have agreed' := agreed.quiet quiet
  have client : ¬ fd = (note (.visited fd) server).masterSocket := by
    show ¬ fd = server.masterSocket
    rw [isMaster]
    exact (agreed.valid fd known).2
  unfold visit
  split
  · exact Quiet.visited agreed (.refl server) rfl
  · simp only [if_neg client]
    apply quiet.outcome rfl
    split
    · obtain ⟨left, removal, dropped⟩ := removeClient_drops agreed'
        (show fd ∈ (note (.visited fd) server).fdToClient from known)
      simp only [removal]
      exact dropped.visited (.refl _) rfl (quiet_pushRemoved left fd) rfl
    · exact handleMultipleClientRequests_outcome freed agreed' known

/-! ## The round of all descriptors -/

theorem Step.masterSocket {before after : HwioServer World} (step : Step sys before after) :
    after.masterSocket = before.masterSocket := by
  cases step <;> rfl

theorem Steps.masterSocket {before after : HwioServer World} (steps : Steps sys before after) :
    after.masterSocket = before.masterSocket := by
  induction steps with
  | refl => rfl
  | tail _ step same => exact step.masterSocket.trans same

/-- The poll set during a pass: the master socket, and the descriptors of which
those are entries that are not queued for removal. -/
structure Polled (master : Fd) (rest : List Fd) (server : HwioServer World) : Prop where
  agreed : Agreed master server
  masterSocket : server.masterSocket = master
  pollFds : server.pollFds = master :: rest
  distinct : rest.Nodup
  apart : master ∉ rest ∧ master ∉ server.removedPollFds
  entries : ∀ fd, fd ∈ server.fdToClient ↔ fd ∈ rest ∧ fd ∉ server.removedPollFds

/-- The effect of visiting some descriptors of clients. -/
structure Rounds (master : Fd) (rest visited : List Fd) (before after : HwioServer World) :
    Prop where
  polled : Polled master rest after
  queued : ∀ fd ∈ after.removedPollFds, fd ∈ before.removedPollFds ∨ fd ∈ visited
  trace : ∃ events, after.trace = before.trace ++ events ∧ ∀ socket, .accepted socket ∉ events

/-- The visit of a descriptor keeps the poll set, but for queueing it. -/
theorem Visited.polled {master fd : Fd} {rest : List Fd} {before after : HwioServer World}
    (visited : Visited master fd before after) (polled : Polled master rest before)
    (same : after.masterSocket = before.masterSocket) (apart : fd ≠ master) :
    Polled master rest after where
  agreed := visited.agreed
  masterSocket := same.trans polled.masterSocket
  pollFds := visited.pollFds.trans polled.pollFds
  distinct := polled.distinct
  apart := by
    refine ⟨polled.apart.1, ?_⟩
    rcases visited.outcome with ⟨kept, _⟩ | ⟨queued, _⟩
    · rw [kept]
      exact polled.apart.2
    · rw [queued, List.mem_append, List.mem_singleton, not_or]
      exact ⟨polled.apart.2, Ne.symm apart⟩
  entries other := by
    rcases visited.outcome with ⟨kept, entries⟩ | ⟨queued, entries⟩
    · rw [entries, kept]
      exact polled.entries other
    · rw [entries, queued, polled.entries other, List.mem_append, List.mem_singleton, not_or]
      tauto

theorem visitAll_outcome (freed : ∀ history fd, sys.freedFd history fd = fd) {master : Fd}
    {rest : List Fd} {server : HwioServer World} (polled : Polled master rest server)
    (ready : List (Fd × UInt16)) (distinct : (ready.map Prod.fst).Nodup)
    (known : ∀ fd ∈ ready.map Prod.fst, fd ∈ server.fdToClient) :
    Ends (Rounds master rest (ready.map Prod.fst) server) (visitAll sys ready server) := by
  induction ready generalizing server with
  | nil =>
      refine ⟨polled, fun fd queued => Or.inl queued, [], (List.append_nil _).symm, ?_⟩
      intro socket member
      cases member
  | cons head later inductionHypothesis =>
      obtain ⟨fd, revents⟩ := head
      have here : fd ∈ server.fdToClient := known fd List.mem_cons_self
      have outcome := visit_outcome freed polled.agreed polled.masterSocket here revents
      have same := Steps.masterSocket (Moves.steps (visit_moves sys fd revents server))
      rw [visitAll]
      rcases visiting : visit sys fd revents server with ⟨result, left⟩
      rw [visiting] at outcome same
      cases result with
      | error stop => exact outcome
      | ok done =>
          have visited : Visited master fd server left := outcome
          have fresh := List.nodup_cons.mp distinct
          have polled' := visited.polled polled same (polled.agreed.valid fd here).2
          have known' : ∀ other ∈ later.map Prod.fst, other ∈ left.fdToClient := by
            intro other member
            have old := known other (List.mem_cons_of_mem _ member)
            rcases visited.outcome with ⟨_, entries⟩ | ⟨_, entries⟩
            · exact (entries other).mpr old
            · refine (entries other).mpr ⟨?_, old⟩
              rintro rfl
              exact fresh.1 member
          have rounds := inductionHypothesis polled' fresh.2 known'
          simp only
          rcases goingOn : visitAll sys later left with ⟨result, last⟩
          rw [goingOn] at rounds
          cases result with
          | error stop => exact rounds
          | ok done =>
              obtain ⟨polledLast, queued, events, trace, none⟩ := rounds
              obtain ⟨early, trace', none'⟩ := visited.trace
              refine ⟨polledLast, ?_, early ++ events, ?_, ?_⟩
              · intro other member
                rcases queued other member with before | after
                · rcases visited.outcome with ⟨kept, _⟩ | ⟨one, _⟩
                  · rw [kept] at before
                    exact Or.inl before
                  · rw [one, List.mem_append, List.mem_singleton] at before
                    rcases before with old | rfl
                    · exact Or.inl old
                    · exact Or.inr List.mem_cons_self
                · exact Or.inr (List.mem_cons_of_mem _ after)
              · rw [trace, trace', List.append_assoc]
              · intro socket member
                rcases List.mem_append.mp member with first | second
                · exact none' socket first
                · exact none socket second

/-- The effect of visiting the master socket: it adds the descriptors that it
accepted. -/
structure Accepted (master : Fd) (rest : List Fd) (before after : HwioServer World) : Prop where
  unqueued : after.removedPollFds = []
  grown : ∃ more events, Polled master (rest ++ more) after ∧
    after.trace = before.trace ++ events ∧ ∀ socket, .accepted socket ∈ events → socket ∈ more

/-- The error condition of a polled descriptor. -/
abbrev Broken (revents : UInt16) : Prop :=
  revents &&& pollErr ≠ 0 ∨ revents &&& pollHup ≠ 0 ∨ revents &&& pollNval ≠ 0

/-- The ways in which the visit of the master socket ends: the descriptor that
it accepts is no entry, since all entries are open. -/
theorem visit_master_cases {master : Fd} {rest : List Fd} {server : HwioServer World}
    (polled : Polled master rest server) (revents : UInt16) :
    visit sys master revents server = (.ok (), server) ∨
    (∃ exn, visit sys master revents server = (.error (.thrown exn), note (.visited master) server) ∧
      (Broken revents ∨ revents ≠ 0 ∧ sys.accept (server.trace ++ [.visited master]) = none)) ∨
    ∃ socket, sys.accept (server.trace ++ [.visited master]) = some socket ∧
      visit sys master revents server =
        (.ok (), connect sys socket (note (.visited master) server)) := by
  have isMaster : master = (note (.visited master) server).masterSocket :=
    polled.masterSocket.symm
  unfold visit
  by_cases idle : master < 0 ∨ revents = 0
  · exact Or.inl (if_pos idle)
  rw [if_neg idle]
  simp only [if_pos isMaster]
  right
  split
  next broken => exact Or.inl ⟨_, rfl, Or.inl broken⟩
  rcases accepting : sys.accept (note (.visited master) server).trace with _ | socket
  · exact Or.inl ⟨_, rfl, Or.inr ⟨fun none => idle (Or.inr none), accepting⟩⟩
  obtain ⟨positive, fresh⟩ := sys.accept_fresh _ socket accepting
  have agreed := polled.agreed.quiet (quiet_note server (show ¬ Life (.visited master) from id))
  have unknown : socket ∉ server.fdToClient :=
    fun known => fresh ((agreed.opened socket).mpr (Or.inr known))
  have added : addNewClient sys socket
      (note (.accepted socket) (note (.visited master) server)) =
        (.ok server.nextClient, connect sys socket (note (.visited master) server)) := by
    have absent : server.fdToClient.lookup socket = none := AList.lookup_eq_none.mpr unknown
    exact if_pos absent
  simp only [added]
  exact Or.inr ⟨socket, accepting, rfl⟩

/-- The descriptor that the master socket accepts is not among the others:
none of them is queued yet, so all of them are open. -/
theorem visit_master_outcome {master : Fd} {rest : List Fd} {server : HwioServer World}
    (polled : Polled master rest server) (unqueued : server.removedPollFds = [])
    (revents : UInt16) :
    Ends (Accepted master rest server) (visit sys master revents server) := by
  have agreed := polled.agreed.quiet (quiet_note server (show ¬ Life (.visited master) from id))
  rcases @visit_master_cases _ sys _ _ _ polled revents with
    idle | ⟨exn, failed, _⟩ | ⟨socket, accepting, ran⟩
  · rw [idle]
    refine ⟨unqueued, [], [], ?_, (List.append_nil _).symm, by simp⟩
    rw [List.append_nil]
    exact polled
  · rw [failed]
    exact Or.inl ⟨exn, rfl⟩
  rw [ran]
  obtain ⟨positive, fresh⟩ := sys.accept_fresh _ socket accepting
  have outside : socket ∉ rest := by
    intro inside
    refine fresh ((agreed.opened socket).mpr (Or.inr ?_))
    show socket ∈ server.fdToClient
    rw [polled.entries, unqueued]
    exact ⟨inside, List.not_mem_nil⟩
  refine ⟨unqueued, [socket], [.visited master, .accepted socket,
    .created server.nextClient socket], ?_, ?_, by simp⟩
  · exact {
      agreed := agreed.connect positive fresh
      masterSocket := polled.masterSocket
      pollFds := congrArg (· ++ [socket]) polled.pollFds
      distinct := by
        rw [List.nodup_append_comm]
        exact List.nodup_cons.mpr ⟨outside, polled.distinct⟩
      apart := by
        refine ⟨?_, polled.apart.2⟩
        rw [List.mem_append, List.mem_singleton, not_or]
        refine ⟨polled.apart.1, ?_⟩
        rintro rfl
        exact fresh ((agreed.opened master).mpr (Or.inl rfl))
      entries fd := by
        show fd ∈ server.fdToClient.insert socket server.nextClient ↔
          fd ∈ rest ++ [socket] ∧ fd ∉ server.removedPollFds
        rw [AList.mem_insert, polled.entries, unqueued, List.mem_append, List.mem_singleton]
        simp [or_comm] }
  · rw [connect_trace]
    exact List.append_assoc ..

/-- The poll set between two passes. -/
structure Consistent (master : Fd) (rest : List Fd) (server : HwioServer World) : Prop where
  polled : Polled master rest server
  unqueued : server.removedPollFds = []

/-- The effect of a pass: the descriptors that it accepted stay. -/
def Passed (master : Fd) (before after : HwioServer World) : Prop :=
  ∃ rest events, Consistent master rest after ∧ after.trace = before.trace ++ events ∧
    ∀ socket, .accepted socket ∈ events → socket ∈ rest

/-- The cleanup drops the queued descriptors, which are entries no more. -/
theorem cleanup_consistent {master : Fd} {rest : List Fd} {server : HwioServer World}
    (polled : Polled master rest server) :
    Consistent master (rest.filter (· ∉ server.removedPollFds)) (cleanup server) where
  unqueued := rfl
  polled := {
    agreed := polled.agreed.cleanup
    masterSocket := polled.masterSocket
    pollFds := by
      show server.pollFds.filter _ = _
      rw [polled.pollFds, List.filter_cons_of_pos]
      exact decide_eq_true polled.apart.2
    distinct := polled.distinct.filter _
    apart := ⟨fun member => polled.apart.1 (List.mem_of_mem_filter member), List.not_mem_nil⟩
    entries fd := by
      show fd ∈ server.fdToClient ↔ _ ∧ fd ∉ []
      rw [polled.entries, List.mem_filter, decide_eq_true_eq]
      simp }

/-- The descriptors of the elements that a pass visits. -/
theorem polled_fds (fds : List Fd) (revents : Nat → UInt16) :
    (fds.mapIdx fun index fd => (fd, revents index)).map Prod.fst = fds := by
  apply List.ext_getElem?
  intro index
  rw [List.getElem?_map, List.getElem?_mapIdx, Option.map_map]
  exact Option.map_id'

theorem poolClientMsgs_outcome (freed : ∀ history fd, sys.freedFd history fd = fd) {master : Fd}
    {rest : List Fd} {server : HwioServer World} (consistent : Consistent master rest server) :
    Ends (Passed master server) (poolClientMsgs sys server) := by
  have idle : Passed master server server :=
    ⟨rest, [], consistent, (List.append_nil _).symm, by simp⟩
  unfold poolClientMsgs
  rcases sys.ppoll server.trace server.pollFds with _ | _ | errno | revents
  · exact idle
  · exact idle
  · exact Or.inl ⟨_, rfl⟩
  have first := @visit_master_outcome _ sys _ _ _ consistent.polled consistent.unqueued (revents 0)
  simp only [consistent.polled.pollFds, List.mapIdx_cons, visitAll]
  rcases visiting : visit sys master (revents 0) server with ⟨result, left⟩
  rw [visiting] at first
  cases result with
  | error stop => exact first
  | ok done =>
      obtain ⟨unqueued, more, early, polled, trace, accepted⟩ := first
      have fds := polled_fds rest fun index => revents (index + 1)
      have rounds := visitAll_outcome freed polled
        (rest.mapIdx fun index fd => (fd, revents (index + 1)))
        (by rw [fds]; exact consistent.polled.distinct) (by
          rw [fds]
          intro fd member
          rw [polled.entries, unqueued]
          exact ⟨List.mem_append_left _ member, List.not_mem_nil⟩)
      rw [fds] at rounds
      simp only
      rcases visitingAll :
        visitAll sys (rest.mapIdx fun index fd => (fd, revents (index + 1))) left with
        ⟨result, last⟩
      rw [visitingAll] at rounds
      cases result with
      | error stop => exact rounds
      | ok done =>
          obtain ⟨polledLast, queued, events, trace', none⟩ := rounds
          refine ⟨_, early ++ events, cleanup_consistent polledLast, ?_, fun socket member => ?_⟩
          · show last.trace = _
            rw [trace', trace, List.append_assoc]
          · rcases List.mem_append.mp member with old | new
            · have inside := accepted socket old
              refine List.mem_filter.mpr ⟨List.mem_append_right _ inside, decide_eq_true ?_⟩
              -- only descriptors that were polled before are queued
              intro gone
              rcases queued socket gone with before | visited
              · rw [unqueued] at before
                cases before
              · exact (List.nodup_append.mp polled.distinct).2.2 socket visited socket inside rfl
            · exact absurd new (none socket)

/-! ## Runs -/

/-- The states that passes lead to which all return, where the descriptor
queued behind a removed client is that client's. -/
inductive Served (start : HwioServer World) : HwioServer World → Prop
  | start : Served start start
  | pass {server after : HwioServer World} (before : Served start server) (sys : Sys)
      (freed : ∀ history fd, sys.freedFd history fd = fd)
      (returned : poolClientMsgs sys server = (.ok (), after)) : Served start after

theorem Served.consistent {tables : Tables World} {master : Fd} {tx : List Byte} {world : World}
    {server : HwioServer World} (served : Served (prepared tables master tx world) server) :
    ∃ rest, Consistent master rest server := by
  induction served with
  | start =>
      refine ⟨[], ⟨prepared_agreed tables master tx world, rfl, rfl, List.nodup_nil,
        ⟨List.not_mem_nil, List.not_mem_nil⟩, fun fd => ?_⟩, rfl⟩
      simp [prepared]
  | pass before sys freed returned consistent =>
      obtain ⟨rest, consistent⟩ := consistent
      have outcome := poolClientMsgs_outcome freed consistent
      rw [returned] at outcome
      obtain ⟨left, _, consistent', _⟩ := outcome
      exact ⟨left, consistent'⟩

/-- After every run of passes that return: the poll set is the master socket
and the entries of `fd_to_client`, each once; the entries, the slots and the
records are in bijection, and the count of clients is theirs.  A record is made
exactly when a descriptor that is not open is accepted, and that descriptor is
closed exactly when the record is removed, once.  There are never more slots
than there were clients at one time.  The next pass ends with no failing
assertion but perhaps that of a lookup and follows no pointer to a removed
record; if it returns, it keeps every descriptor that it accepted.  Replies are
taken to fit `tx_buffer`, behind which these tables lie. -/
theorem client_tables_consistent {tables : Tables World} {master : Fd} {tx : List Byte}
    {world : World} {server : HwioServer World}
    (served : Served (prepared tables master tx world) server) :
    (∃ rest, server.pollFds = master :: rest ∧ rest.Nodup ∧ master ∉ rest ∧
        ∀ fd, fd ∈ rest ↔ fd ∈ server.fdToClient) ∧
      server.removedPollFds = [] ∧
      (∀ fd client, server.fdToClient.lookup fd = some client →
        ∃ record, server.heap client = some record ∧ record.fd = fd ∧
          server.clients[record.id]? = some (some client)) ∧
      (∀ (id : Nat) client, server.clients[id]? = some (some client) →
        ∃ record, server.heap client = some record ∧ record.id = id ∧
          server.fdToClient.lookup record.fd = some client) ∧
      (∃ count, getClientCnt server = .ok count) ∧
      (∀ fd, fd ∈ openFds server.trace ↔ fd = master ∨ fd ∈ server.fdToClient) ∧
      (∀ front fd back, server.trace = front ++ .accepted fd :: back →
        fd ∉ openFds front ∧ ∃ client rest, back = .created client fd :: rest) ∧
      (∀ front client fd back, server.trace = front ++ .created client fd :: back →
        ∃ earlier, front = earlier ++ [.accepted fd]) ∧
      (∀ front client back, server.trace = front ++ .removed client :: back →
        .removed client ∉ front ∧ ∃ fd rest, back = .closed fd :: rest ∧
          .created client fd ∈ front) ∧
      (∀ front fd back, server.trace = front ++ .closed fd :: back →
        fd ∈ openFds front ∧ ∃ earlier client, front = earlier ++ [.removed client] ∧
          .created client fd ∈ earlier) ∧
      (∀ most, (∀ front, front <+: server.trace → (connected front).length ≤ most) →
        server.clients.length ≤ most) ∧
      ∀ sys : Sys, (∀ history fd, sys.freedFd history fd = fd) →
        (∀ stop, (poolClientMsgs sys server).1 = .error stop →
          (∃ exn, stop = .thrown exn) ∨ stop = .aborted .deviceLookupResp) ∧
        ∀ after, poolClientMsgs sys server = (.ok (), after) →
          ∃ events, after.trace = server.trace ++ events ∧
            ∀ fd, .accepted fd ∈ events → fd ∈ after.pollFds ∧ fd ∈ after.fdToClient := by
  obtain ⟨rest, consistent⟩ := served.consistent
  have polled := consistent.polled
  have agreed := polled.agreed
  refine ⟨⟨rest, polled.pollFds, polled.distinct, polled.apart.1, fun fd => ?_⟩,
    consistent.unqueued, ?_, ?_, ⟨_, agreed.getClientCnt⟩, agreed.opened, ?_, ?_, ?_, ?_, ?_, ?_⟩
  · rw [polled.entries, consistent.unqueued]
    simp
  · intro fd client entry
    obtain ⟨record, live, same⟩ := agreed.entry_record fd client entry
    exact ⟨record, live, same, agreed.record_slot client record live⟩
  · intro id client held
    obtain ⟨record, live, same⟩ := agreed.slot_record id client held
    exact ⟨record, live, same, agreed.record_entry client record live⟩
  · intro front fd back split
    refine ⟨agreed.because front _ back split, ?_⟩
    rcases agreed.followed front _ back split with last | ⟨next, more, same, client, rfl⟩
    · exact absurd last id
    · exact ⟨client, more, same⟩
  · intro front client fd back split
    exact agreed.because front _ back split
  · intro front client back split
    refine ⟨(agreed.because front _ back split).2, ?_⟩
    rcases agreed.followed front _ back split with last | ⟨next, more, same, fd, rfl⟩
    · exact absurd last id
    · refine ⟨fd, more, same, ?_⟩
      have closing := agreed.because (front ++ [.removed client]) (.closed fd) more (by
        rw [split, same, List.append_assoc]
        rfl)
      obtain ⟨_, earlier, other, behind, made⟩ := closing
      obtain ⟨rfl, same⟩ := List.append_inj' behind rfl
      cases same
      exact made
  · intro front fd back split
    exact agreed.because front _ back split
  · intro most bound
    obtain ⟨front, early, high⟩ := agreed.peak
    exact Nat.le_trans high (bound front early)
  · intro sys freed
    have outcome := poolClientMsgs_outcome freed consistent
    constructor
    · intro stop stopped
      rcases ran : poolClientMsgs sys server with ⟨result, after⟩
      rw [ran] at outcome stopped
      cases stopped
      exact outcome
    · intro after returned
      rw [returned] at outcome
      obtain ⟨left, events, consistent', trace, kept⟩ := outcome
      refine ⟨events, trace, fun fd accepted => ?_⟩
      rw [consistent'.polled.pollFds, consistent'.polled.entries, consistent'.unqueued]
      exact ⟨List.mem_cons_of_mem _ (kept fd accepted), kept fd accepted, List.not_mem_nil⟩

theorem loneRun_served {tables : Tables World} {tx : List Byte} {world : World} {bytes : List Byte}
    (first : (poolClientMsgs (loneClient bytes) (prepared tables 3 tx world)).1 = .ok ())
    (second : (poolClientMsgs (loneClient bytes)
      (poolClientMsgs (loneClient bytes) (prepared tables 3 tx world)).2).1 = .ok ()) :
    Served (prepared tables 3 tx world) (loneRun tables tx world bytes) :=
  .pass (.pass .start (loneClient bytes) (fun _ _ => rfl) (Prod.ext first rfl))
    (loneClient bytes) (fun _ _ => rfl) (Prod.ext second rfl)

theorem left_client_closed :
    let server := loneRun bareTables [] () [8, 0, 0]
    ∃ fd rest, server.trace.drop 9 = .closed fd :: rest ∧
      .created 0 fd ∈ server.trace.take 8 := by
  intro server
  have served : Served (prepared bareTables 3 [] ()) server :=
    loneRun_served (by decide +kernel) (by decide +kernel)
  have split : server.trace = server.trace.take 8 ++ .removed 0 :: server.trace.drop 9 := by
    decide +kernel
  exact ((client_tables_consistent served).2.2.2.2.2.2.2.2.1 _ 0 _ split).2

end HwioServer

end Hwio
