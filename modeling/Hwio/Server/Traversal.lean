import Hwio.Library.RangeFor
import Hwio.Server.Passes

/-!
Contract: the traversal of `poll_fds` by `pool_client_msgs`.

Owns the loop with the memory of the vector, the descriptors that a round adds
to the vector, and the exact condition under which a pass traverses the vector
that it began with.

Does not own the cleanup, which builds another vector behind the loop.
-/

namespace Hwio

open Library

variable {World : Type}

namespace HwioServer

/-- `for (auto & fd : poll_fds)` of `pool_client_msgs`, with the memory of
`poll_fds` and the room that `push_back` leaves in a new allocation. -/
def pollLoop (sys : Sys) (revents : Nat → UInt16) (growth : Nat → Nat) (storage : Storage)
    (server : HwioServer World) : LoopExit Stop × LoopState (HwioServer World) Fd :=
  rangeFor pollFds (fun index fd server => visit sys fd (revents index) server) growth storage
    server

/-- The round of a descriptor reaches `add_new_client`: it accepts a connection
that is no entry yet, or it is no entry itself. -/
def Inserts (sys : Sys) (fd : Fd) (revents : UInt16) (server : HwioServer World) : Prop :=
  0 ≤ fd ∧ revents ≠ 0 ∧ ¬ Broken revents ∧
    ((fd = server.masterSocket ∧ ∃ socket,
        sys.accept (server.trace ++ [.visited fd]) = some socket ∧ socket ∉ server.fdToClient) ∨
      (fd ≠ server.masterSocket ∧ fd ∉ server.fdToClient))

/-- No round from an index on inserts, as far as the rounds are reached. -/
def NoneInserts (sys : Sys) (revents : Nat → UInt16) : Nat → Nat → HwioServer World → Prop
  | 0, _, _ => True
  | count + 1, index, server =>
      ∀ fd, server.pollFds[index]? = some fd →
        ¬ Inserts sys fd (revents index) server ∧
          ((visit sys fd (revents index) server).1 = .ok () →
            NoneInserts sys revents count (index + 1) (visit sys fd (revents index) server).2)

/-- A connection is pending: the master socket is reported without an error
flag, and `accept` gives a descriptor. -/
def Accepts (sys : Sys) (revents : UInt16) (server : HwioServer World) : Prop :=
  0 ≤ server.masterSocket ∧ revents ≠ 0 ∧ ¬ Broken revents ∧
    sys.accept (server.trace ++ [.visited server.masterSocket]) ≠ none

variable {sys : Sys}

/-! ## What a round does to the vector -/

theorem removeClient_pollFds (socket : Fd) (server : HwioServer World) :
    (removeClient socket server).2.pollFds = server.pollFds := by
  unfold removeClient
  split
  · rfl
  split
  · rfl
  split
  · rfl
  · rfl

theorem removeClient_others {socket other : Fd} (server : HwioServer World)
    (apart : other ≠ socket) (known : other ∈ server.fdToClient) :
    other ∈ (removeClient socket server).2.fdToClient := by
  unfold removeClient
  split
  · exact known
  split
  · exact known
  next record _ =>
    split
    next same =>
      refine AList.mem_erase.mpr ⟨?_, known⟩
      rw [same]
      exact apart
    · exact known

theorem parseMsgs_pollFds (client : ClientPtr) (session : Session World)
    (server : HwioServer World) :
    (parseMsgs sys client session server).2.pollFds = server.pollFds := by
  unfold parseMsgs
  rcases parseLoop server.tables sys client session.client.rxBuffer.currLen session with
    ⟨ended, after⟩
  cases ended with
  | waiting => rfl
  | stopped stop => rfl
  | disconnect =>
      have kept := removeClient_pollFds after.client.fd (server.putSession client after)
      simp only
      rcases removal : removeClient after.client.fd (server.putSession client after) with
        ⟨result, left⟩
      rw [removal] at kept
      cases result with
      | error stop => exact kept
      | ok done => exact kept

/-- A disconnecting frame takes the entry of its connection, and no other. -/
theorem parseMsgs_others {client : ClientPtr} {session : Session World} {socket other : Fd}
    (own : session.client.fd = socket) (server : HwioServer World) (apart : other ≠ socket)
    (known : other ∈ server.fdToClient) :
    other ∈ (parseMsgs sys client session server).2.fdToClient := by
  have fd := parseLoop_fd sys server.tables client session.client.rxBuffer.currLen session
  unfold parseMsgs
  rcases loop : parseLoop server.tables sys client session.client.rxBuffer.currLen session with
    ⟨ended, after⟩
  rw [loop] at fd
  cases ended with
  | waiting => exact known
  | stopped stop => exact known
  | disconnect =>
      have different : other ≠ after.client.fd := by
        rw [show after.client.fd = socket from fd.trans own]
        exact apart
      have kept := removeClient_others (server.putSession client after) different known
      simp only
      rcases removal : removeClient after.client.fd (server.putSession client after) with
        ⟨result, left⟩
      rw [removal] at kept
      cases result with
      | error stop => exact kept
      | ok done => exact kept

/-- The requests of a descriptor that is an entry. -/
theorem handleMultipleClientRequests_entry {socket : Fd} {server : HwioServer World}
    (known : socket ∈ server.fdToClient) :
    (handleMultipleClientRequests sys socket server).2.pollFds = server.pollFds ∧
      ∀ other ≠ socket, other ∈ server.fdToClient →
        other ∈ (handleMultipleClientRequests sys socket server).2.fdToClient := by
  obtain ⟨client, entry⟩ := Option.isSome_iff_exists.mp (AList.lookup_isSome.mpr known)
  have owner : clientOf sys socket server = (.ok client, server) := by
    simp only [clientOf, entry]
  unfold handleMultipleClientRequests
  simp only [owner]
  split
  · exact ⟨rfl, fun other _ => id⟩
  next record live =>
    by_cases same : record.fd = socket
    case neg =>
      rw [if_neg same]
      exact ⟨rfl, fun other _ => id⟩
    rw [if_pos same]
    have traffic := readFromSocket_traffic sys client (server.session record)
    rcases reading : readFromSocket sys client (server.session record) with ⟨came, session⟩
    rw [reading] at traffic
    cases came with
    | true =>
        have own : session.client.fd = socket := Eq.trans traffic.fd same
        exact ⟨parseMsgs_pollFds client session _, fun other apart listed =>
          parseMsgs_others own (server.putSession client session) apart listed⟩
    | false =>
        have kept := removeClient_pollFds socket (server.putSession client session)
        have others := fun other => @removeClient_others _ socket other
          (server.putSession client session)
        simp only
        rcases removal : removeClient socket (server.putSession client session) with
          ⟨result, left⟩
        rw [removal] at kept others
        cases result with
        | error stop => exact ⟨kept, others⟩
        | ok done => exact ⟨kept, others⟩

/-- The requests of a descriptor that is no entry: one is made, and its
descriptor is pushed behind the others. -/
theorem handleMultipleClientRequests_stranger {socket : Fd} {server : HwioServer World}
    (unknown : socket ∉ server.fdToClient) :
    (handleMultipleClientRequests sys socket server).2.pollFds = server.pollFds ++ [socket] := by
  have absent : (allocClient sys socket server).fdToClient.lookup socket = none :=
    AList.lookup_eq_none.mpr unknown
  let owned := listClient socket server.nextClient (allocClient sys socket server)
  have owner : clientOf sys socket server = (.ok server.nextClient, owned) := by
    unfold clientOf addNewClient
    rw [show server.fdToClient.lookup socket = none from absent]
    simp only [if_pos absent]
    rfl
  have found : owned.fdToClient.lookup socket = some server.nextClient := AList.lookup_insert _
  have entry : socket ∈ owned.fdToClient := AList.lookup_isSome.mp (by rw [found]; rfl)
  have again : clientOf sys socket owned = (.ok server.nextClient, owned) := by
    simp only [clientOf, found]
  have kept := (@handleMultipleClientRequests_entry _ sys _ _ entry).1
  rw [← show owned.pollFds = server.pollFds ++ [socket] from rfl, ← kept]
  unfold handleMultipleClientRequests
  rw [owner, again]

/-- An error flag leads to a removal at most. -/
theorem visit_broken {fd : Fd} {revents : UInt16} (broken : Broken revents)
    (server : HwioServer World) : (visit sys fd revents server).2.pollFds = server.pollFds := by
  unfold visit
  split
  · rfl
  simp only
  split
  · rfl
  have kept := removeClient_pollFds fd (note (.visited fd) server)
  rcases removal : removeClient fd (note (.visited fd) server) with ⟨result, left⟩
  rw [removal] at kept
  cases result with
  | error stop => exact kept
  | ok done => exact kept

/-- The round of the master socket pushes what it accepts, unless that is an
entry: then the assertion of `add_new_client` fails. -/
theorem visit_accepting {revents : UInt16} {server : HwioServer World}
    (positive : 0 ≤ server.masterSocket) (ready : revents ≠ 0) (sane : ¬ Broken revents) :
    (visit sys server.masterSocket revents server).2.pollFds =
      server.pollFds ++
        ((sys.accept (server.trace ++ [.visited server.masterSocket])).filter
          (· ∉ server.fdToClient)).toList := by
  have visited : ¬ (server.masterSocket < 0 ∨ revents = 0) :=
    not_or.mpr ⟨Int.not_lt.mpr positive, ready⟩
  unfold visit
  rw [if_neg visited]
  simp only [if_neg sane]
  rw [if_pos (show server.masterSocket = (note (.visited server.masterSocket) server).masterSocket
    from rfl)]
  show _ = server.pollFds ++ ((sys.accept (note (.visited server.masterSocket) server).trace).filter
    (· ∉ server.fdToClient)).toList
  rcases sys.accept (note (.visited server.masterSocket) server).trace with _ | socket
  · exact (List.append_nil _).symm
  by_cases known : socket ∈ server.fdToClient
  · have listed : ¬ server.fdToClient.lookup socket = none := fun absent =>
      AList.lookup_eq_none.mp absent known
    have refused : addNewClient sys socket
        (note (.accepted socket) (note (.visited server.masterSocket) server)) =
          (.error (.aborted .addNewClient), allocClient sys socket
            (note (.accepted socket) (note (.visited server.masterSocket) server))) :=
      if_neg listed
    rw [Option.filter_some_neg (by simpa using known)]
    simp only [refused]
    exact (List.append_nil _).symm
  · have listed : server.fdToClient.lookup socket = none := AList.lookup_eq_none.mpr known
    have added : addNewClient sys socket
        (note (.accepted socket) (note (.visited server.masterSocket) server)) =
          (.ok server.nextClient, connect sys socket
            (note (.visited server.masterSocket) server)) := if_pos listed
    rw [Option.filter_some_pos (by simpa using known)]
    simp only [added]
    rfl

/-- Any other ready descriptor is served. -/
theorem visit_serving {fd : Fd} {revents : UInt16} {server : HwioServer World}
    (positive : 0 ≤ fd) (ready : revents ≠ 0) (sane : ¬ Broken revents)
    (isClient : fd ≠ server.masterSocket) :
    visit sys fd revents server =
      handleMultipleClientRequests sys fd (note (.visited fd) server) := by
  have visited : ¬ (fd < 0 ∨ revents = 0) := not_or.mpr ⟨Int.not_lt.mpr positive, ready⟩
  unfold visit
  rw [if_neg visited]
  simp only [if_neg sane]
  exact if_neg isClient

/-- A round inserts one descriptor behind the others, or none. -/
theorem visit_pollFds (sys : Sys) (fd : Fd) (revents : UInt16) (server : HwioServer World) :
    (¬ Inserts sys fd revents server ∧
      (visit sys fd revents server).2.pollFds = server.pollFds) ∨
    (Inserts sys fd revents server ∧
      ∃ socket, (visit sys fd revents server).2.pollFds = server.pollFds ++ [socket]) := by
  by_cases skipped : fd < 0 ∨ revents = 0
  · have idle : visit sys fd revents server = (.ok (), server) := if_pos skipped
    rw [idle]
    refine Or.inl ⟨fun inserts => ?_, rfl⟩
    rcases skipped with negative | silent
    · exact absurd inserts.1 (Int.not_le.mpr negative)
    · exact inserts.2.1 silent
  obtain ⟨valid, ready⟩ := not_or.mp skipped
  have positive : 0 ≤ fd := Int.not_lt.mp valid
  by_cases broken : Broken revents
  · exact Or.inl ⟨fun inserts => inserts.2.2.1 broken, visit_broken broken server⟩
  by_cases isMaster : fd = server.masterSocket
  · subst isMaster
    have pushed := @visit_accepting _ sys _ _ positive ready broken
    have inserts_iff : Inserts sys server.masterSocket revents server ↔
        ∃ socket, sys.accept (server.trace ++ [.visited server.masterSocket]) = some socket ∧
          socket ∉ server.fdToClient := by
      simp [Inserts, positive, ready, broken]
    rw [inserts_iff, pushed]
    generalize sys.accept (server.trace ++ [.visited server.masterSocket]) = accepted
    rcases accepted with _ | socket
    · simp
    · by_cases known : socket ∈ server.fdToClient
      · simp [known]
      · simp [known]
  · rw [visit_serving positive ready broken isMaster]
    by_cases known : fd ∈ server.fdToClient
    · have entry : fd ∈ (note (.visited fd) server).fdToClient := known
      refine Or.inl ⟨?_, (@handleMultipleClientRequests_entry _ sys _ _ entry).1⟩
      rintro ⟨_, _, _, ⟨same, _⟩ | ⟨_, unknown⟩⟩
      · exact isMaster same
      · exact unknown known
    · have stranger : fd ∉ (note (.visited fd) server).fdToClient := known
      exact Or.inr ⟨⟨positive, ready, broken, Or.inr ⟨isMaster, known⟩⟩, fd,
        handleMultipleClientRequests_stranger stranger⟩

theorem visit_pollFds_iff (sys : Sys) (fd : Fd) (revents : UInt16) (server : HwioServer World) :
    (visit sys fd revents server).2.pollFds = server.pollFds ↔ ¬ Inserts sys fd revents server := by
  rcases visit_pollFds sys fd revents server with ⟨none, kept⟩ | ⟨inserts, socket, pushed⟩
  · exact ⟨fun _ => none, fun _ => kept⟩
  · refine ⟨fun kept => ?_, fun none => absurd inserts none⟩
    rw [pushed] at kept
    simp at kept

/-- The round of an entry takes no other entry. -/
theorem visit_others {fd other : Fd} {revents : UInt16} {server : HwioServer World}
    (entry : fd ∈ server.fdToClient) (isClient : fd ≠ server.masterSocket) (apart : other ≠ fd)
    (known : other ∈ server.fdToClient) :
    other ∈ (visit sys fd revents server).2.fdToClient := by
  have entry' : fd ∈ (note (.visited fd) server).fdToClient := entry
  unfold visit
  split
  · exact known
  simp only [if_neg (show ¬ fd = (note (.visited fd) server).masterSocket from isClient)]
  split
  · have kept := removeClient_others (note (.visited fd) server) apart known
    rcases removal : removeClient fd (note (.visited fd) server) with ⟨result, left⟩
    rw [removal] at kept
    cases result with
    | error stop => exact kept
    | ok done => exact kept
  · exact (@handleMultipleClientRequests_entry _ sys _ _ entry').2 other apart known

/-! ## The rounds of a pass -/

theorem steady_iff_noneInserts (sys : Sys) (revents : Nat → UInt16) (count index : Nat)
    (server : HwioServer World) :
    Steady pollFds (fun index fd server => visit sys fd (revents index) server) count index server ↔
      NoneInserts sys revents count index server := by
  induction count generalizing index server with
  | zero => exact Iff.rfl
  | succ count inductionHypothesis =>
      simp only [Steady, NoneInserts, visit_pollFds_iff, inductionHypothesis]

/-- Descriptors that are entries, each polled once, insert nothing. -/
theorem noneInserts_entries {revents : Nat → UInt16} {count index : Nat}
    {server : HwioServer World} (distinct : server.pollFds.Nodup)
    (entries : ∀ place fd, index ≤ place → place < index + count →
      server.pollFds[place]? = some fd → fd ∈ server.fdToClient ∧ fd ≠ server.masterSocket) :
    NoneInserts sys revents count index server := by
  induction count generalizing index server with
  | zero => trivial
  | succ count inductionHypothesis =>
      intro fd here
      obtain ⟨entry, isClient⟩ := entries index fd (Nat.le_refl _) (by omega) here
      have none : ¬ Inserts sys fd (revents index) server := by
        rintro ⟨_, _, _, ⟨isMaster, _⟩ | ⟨_, unknown⟩⟩
        · exact isClient isMaster
        · exact unknown entry
      refine ⟨none, fun _ => ?_⟩
      have kept := (visit_pollFds_iff sys fd (revents index) server).mpr none
      have same := Steps.masterSocket (Moves.steps (visit_moves sys fd (revents index) server))
      apply inductionHypothesis
      · rw [kept]
        exact distinct
      · intro place other behind inside found
        rw [kept] at found
        obtain ⟨known, apart⟩ := entries place other (by omega) (by omega) found
        rw [same]
        refine ⟨visit_others entry isClient ?_ known, apart⟩
        rintro rfl
        have twice := (List.nodup_iff_getElem?_ne_getElem?.mp distinct) index place behind
          (List.getElem?_eq_some_iff.mp found).1
        exact twice (here.trans found.symm)

theorem Polled.nodup {master : Fd} {rest : List Fd} {server : HwioServer World}
    (polled : Polled master rest server) : server.pollFds.Nodup := by
  rw [polled.pollFds]
  exact List.nodup_cons.mpr ⟨polled.apart.1, polled.distinct⟩

/-- Behind the master socket, a pass that begins with consistent tables visits entries. -/
theorem Consistent.entries {master : Fd} {rest : List Fd} {server : HwioServer World}
    (consistent : Consistent master rest server) {place : Nat} {fd : Fd}
    (behind : 1 ≤ place) (found : server.pollFds[place]? = some fd) :
    fd ∈ server.fdToClient ∧ fd ≠ server.masterSocket := by
  have polled := consistent.polled
  obtain ⟨before, rfl⟩ := Nat.exists_eq_add_of_le' behind
  rw [polled.pollFds, List.getElem?_cons_succ] at found
  have member : fd ∈ rest := List.mem_of_getElem? found
  rw [polled.entries, consistent.unqueued, polled.masterSocket]
  refine ⟨⟨member, List.not_mem_nil⟩, ?_⟩
  rintro rfl
  exact polled.apart.1 member

theorem Consistent.inserts_iff {master : Fd} {rest : List Fd} {server : HwioServer World}
    (consistent : Consistent master rest server) (sys : Sys) (revents : UInt16) :
    Inserts sys master revents server ↔ Accepts sys revents server := by
  have polled := consistent.polled
  have agreed := polled.agreed
  unfold Inserts Accepts
  rw [polled.masterSocket]
  constructor
  · rintro ⟨positive, ready, sane, ⟨_, socket, accepting, _⟩ | ⟨other, _⟩⟩
    · refine ⟨positive, ready, sane, ?_⟩
      rw [accepting]
      exact Option.some_ne_none socket
    · exact absurd rfl other
  · rintro ⟨positive, ready, sane, accepts⟩
    obtain ⟨socket, accepting⟩ := Option.ne_none_iff_exists'.mp accepts
    refine ⟨positive, ready, sane, Or.inl ⟨rfl, socket, accepting, fun known => ?_⟩⟩
    -- an entry is open, and accept gives a descriptor that is not
    have visiting := agreed.quiet (quiet_note server (show ¬ Life (.visited master) from id))
    exact (sys.accept_fresh _ socket accepting).2 ((visiting.opened socket).mpr (Or.inr known))

/-- The round of the master socket keeps the entries and what is polled, and
pushes at most a descriptor that is not polled. -/
theorem Consistent.first_round {master : Fd} {rest : List Fd} {server : HwioServer World}
    (consistent : Consistent master rest server) (sys : Sys) (revents : UInt16) :
    (∃ more, (visit sys master revents server).2.pollFds = server.pollFds ++ more) ∧
      (visit sys master revents server).2.pollFds.Nodup ∧
      ∀ fd, fd ∈ server.fdToClient → fd ∈ (visit sys master revents server).2.fdToClient := by
  have polled := consistent.polled
  have outcome := @visit_master_outcome _ sys _ _ _ polled consistent.unqueued revents
  rcases @visit_master_cases _ sys _ _ _ polled revents with
    idle | ⟨exn, failed, _⟩ | ⟨socket, accepting, ran⟩
  · rw [idle]
    exact ⟨⟨[], (List.append_nil _).symm⟩, polled.nodup, fun fd known => known⟩
  · rw [failed]
    exact ⟨⟨[], (List.append_nil _).symm⟩, polled.nodup, fun fd known => known⟩
  · rw [ran] at outcome ⊢
    obtain ⟨unqueued, more, events, polled', _⟩ := outcome
    refine ⟨⟨[socket], rfl⟩, polled'.nodup, fun fd known => ?_⟩
    show fd ∈ server.fdToClient.insert socket server.nextClient
    rw [AList.mem_insert]
    exact Or.inr known

/-- Behind the master socket no round inserts, whether a connection came or not. -/
theorem Consistent.later_rounds {master : Fd} {rest : List Fd} {server : HwioServer World}
    (consistent : Consistent master rest server) (sys : Sys) (revents : Nat → UInt16) :
    NoneInserts sys revents rest.length 1 (visit sys master (revents 0) server).2 := by
  obtain ⟨⟨more, pollFds⟩, distinct, entries⟩ := consistent.first_round sys (revents 0)
  have same := Steps.masterSocket (Moves.steps (visit_moves sys master (revents 0) server))
  apply noneInserts_entries distinct
  intro place fd behind inside found
  have old : place < server.pollFds.length := by
    rw [consistent.polled.pollFds, List.length_cons]
    omega
  rw [pollFds, List.getElem?_append_left old] at found
  obtain ⟨known, apart⟩ := consistent.entries behind found
  rw [same]
  exact ⟨entries fd known, apart⟩

/-- The pass inserts nothing just when its first round accepts no connection. -/
theorem Consistent.noneInserts_iff {master : Fd} {rest : List Fd} {server : HwioServer World}
    (consistent : Consistent master rest server) (sys : Sys) (revents : Nat → UInt16) :
    NoneInserts sys revents server.pollFds.length 0 server ↔ ¬ Accepts sys (revents 0) server := by
  have first : server.pollFds[0]? = some master := by
    rw [consistent.polled.pollFds]
    rfl
  have length : server.pollFds.length = rest.length + 1 := by
    rw [consistent.polled.pollFds]
    rfl
  rw [← consistent.inserts_iff, length]
  constructor
  · intro none
    exact (none master first).1
  · intro refused fd found
    rw [first] at found
    cases found
    exact ⟨refused, fun _ => consistent.later_rounds sys revents⟩

/-! ## The traversal of a pass -/

/-- What the loop leaves the pass with; a stale iterator has no result. -/
def leaving : LoopExit Stop → Option (Except Stop Unit)
  | .finished => some (.ok ())
  | .left stop => some (.error stop)
  | .stale => none

theorem rounds_visitAll {sys : Sys} {revents : Nat → UInt16} {growth : Nat → Nat} {began : Nat}
    {fds : List Fd} {count index : Nat} {walk : LoopState (HwioServer World) Fd}
    (counted : index + count = fds.length) (polled : fds <+: walk.state.pollFds)
    {result : Except Stop Unit}
    (left : leaving (loopRounds pollFds (fun index fd server => visit sys fd (revents index) server)
      growth began count index walk).1 = some result) :
    visitAll sys ((fds.mapIdx fun index fd => (fd, revents index)).drop index) walk.state =
      (result, (loopRounds pollFds (fun index fd server => visit sys fd (revents index) server)
        growth began count index walk).2.state) := by
  induction count generalizing index walk with
  | zero =>
      rw [List.drop_eq_nil_of_le (by rw [List.length_mapIdx]; omega)]
      cases left
      rfl
  | succ count inductionHypothesis =>
      have inside : index < fds.length := by omega
      have found : walk.state.pollFds[index]? = some fds[index] := by
        obtain ⟨more, same⟩ := polled
        rw [← same, List.getElem?_append_left inside, List.getElem?_eq_getElem inside]
      rw [List.drop_eq_getElem_cons (by rw [List.length_mapIdx]; exact inside),
        List.getElem_mapIdx, visitAll]
      rw [loopRounds] at left ⊢
      split at left
      case isFalse => cases left
      next same =>
        rw [if_pos same]
        simp only [found] at left ⊢
        have longer : fds <+: (visit sys fds[index] (revents index) walk.state).2.pollFds := by
          rcases visit_pollFds sys fds[index] (revents index) walk.state with
            ⟨_, kept⟩ | ⟨_, socket, pushed⟩
          · rw [kept]
            exact polled
          · rw [pushed]
            exact polled.trans (List.prefix_append _ _)
        rcases visiting : visit sys fds[index] (revents index) walk.state with ⟨ended, after⟩
        rw [visiting] at longer
        simp only [visiting] at left ⊢
        cases ended with
        | error stop =>
            cases left
            rfl
        | ok done => exact inductionHypothesis (by omega) longer left

/-- A pass whose iterators stay valid is the pass over the elements that
`poll_fds` held when it began. -/
theorem poolClientMsgs_eq_pollLoop {sys : Sys} {revents : Nat → UInt16} {growth : Nat → Nat}
    {storage : Storage} {server : HwioServer World}
    (ready : sys.ppoll server.trace server.pollFds = .ready revents) {result : Except Stop Unit}
    (left : leaving (pollLoop sys revents growth storage server).1 = some result) :
    poolClientMsgs sys server =
      match result with
      | .ok () => (.ok (), cleanup (pollLoop sys revents growth storage server).2.state)
      | .error stop => (.error stop, (pollLoop sys revents growth storage server).2.state) := by
  have visited := @rounds_visitAll _ sys revents growth storage.allocation server.pollFds
    server.pollFds.length 0 ⟨server, storage, [], false⟩ (Nat.zero_add _) (List.prefix_refl _)
    result left
  rw [List.drop_zero] at visited
  simp only [poolClientMsgs, ready, visited]
  cases result with
  | error stop => rfl
  | ok done => rfl

theorem Consistent.accepted {master : Fd} {rest : List Fd} {server : HwioServer World}
    (consistent : Consistent master rest server) {sys : Sys} {revents : UInt16}
    (accepts : Accepts sys revents server) :
    ∃ socket, visit sys master revents server =
      (.ok (), connect sys socket (note (.visited master) server)) := by
  have polled := consistent.polled
  have inserts := (consistent.inserts_iff sys revents).mpr accepts
  obtain ⟨_, _, sane, accepting⟩ := accepts
  rw [polled.masterSocket] at accepting
  rcases visit_pollFds sys master revents server with ⟨none, _⟩ | ⟨_, socket, pushed⟩
  · exact absurd inserts none
  rcases @visit_master_cases _ sys _ _ _ polled revents with
    idle | ⟨exn, failed, broken | refused⟩ | ⟨socket, _, ran⟩
  · rw [idle] at pushed
    simp at pushed
  · exact absurd broken sane
  · exact absurd refused.2 accepting
  · exact ⟨socket, ran⟩

/-- The loop reads an element that has moved just when a connection is accepted
into a vector without room while clients are polled. -/
theorem Consistent.stale_iff {master : Fd} {rest : List Fd} {server : HwioServer World}
    (consistent : Consistent master rest server) (sys : Sys) (revents : Nat → UInt16)
    (growth : Nat → Nat) (storage : Storage) :
    (pollLoop sys revents growth storage server).1 = .stale ↔
      Accepts sys (revents 0) server ∧ storage.spare = 0 ∧ rest ≠ [] := by
  by_cases accepts : Accepts sys (revents 0) server
  case neg =>
    have none := (consistent.noneInserts_iff sys revents).mpr accepts
    rw [← steady_iff_noneInserts, ← @rangeFor_sound_iff _ _ _ _ _ _ growth storage server] at none
    exact ⟨fun stale => absurd stale none.live, fun both => absurd both.1 accepts⟩
  obtain ⟨socket, ran⟩ := consistent.accepted accepts
  have later := consistent.later_rounds sys revents
  rw [ran, ← steady_iff_noneInserts] at later
  let opening : LoopState (HwioServer World) Fd := ⟨server, storage, [], false⟩
  let walk := opening.round pollFds growth master
    (connect sys socket (note (.visited master) server))
  have first : pollLoop sys revents growth storage server =
      loopRounds pollFds (fun index fd server => visit sys fd (revents index) server) growth
        storage.allocation rest.length 1 walk := by
    have length : server.pollFds.length = rest.length + 1 := by
      rw [consistent.polled.pollFds]
      rfl
    have found : server.pollFds[0]? = some master := by
      rw [consistent.polled.pollFds]
      rfl
    simp only [pollLoop, rangeFor, length, loopRounds, if_pos, found, ran]
    rfl
  have length : walk.state.pollFds.length = server.pollFds.length + 1 := List.length_append
  have resized : walk.storage = storage.resize growth server.pollFds.length
      (server.pollFds.length + 1) := by
    show storage.resize growth server.pollFds.length walk.state.pollFds.length = _
    rw [length]
  rw [first]
  by_cases full : storage.spare = 0
  · have moved : walk.storage.allocation ≠ storage.allocation := by
      rw [resized, Storage.resize, if_neg (by omega)]
      exact Nat.succ_ne_self _
    cases rest with
    | nil =>
        refine ⟨fun stale => ?_, fun every => absurd rfl every.2.2⟩
        cases stale
    | cons fd rest =>
        refine ⟨fun _ => ⟨accepts, full, List.cons_ne_nil fd rest⟩, fun _ => ?_⟩
        rw [List.length_cons, loopRounds, if_neg moved]
  · have stayed : walk.storage.allocation = storage.allocation := by
      rw [resized, Storage.resize, if_pos (by omega)]
    have live := (@loopRounds_of_steady _ _ _ _ pollFds _ growth _ _ walk later (by
      rw [length, consistent.polled.pollFds, List.length_cons]
      omega)).2.1
    rw [stayed] at live
    exact ⟨fun stale => absurd stale live, fun every => absurd every.2.1 full⟩

/-- A pass traverses the `poll_fds` that it began with, each element once and
none after it has moved, just when no round inserts; between two passes the
descriptors are distinct, and only the round of the master socket can insert. -/
theorem poll_traversal_sound_iff (sys : Sys) (revents : Nat → UInt16) (growth : Nat → Nat)
    (storage : Storage) (server : HwioServer World) :
    (Sound pollFds server (pollLoop sys revents growth storage server) ↔
      NoneInserts sys revents server.pollFds.length 0 server) ∧
    ∀ (tables : Tables World) (master : Fd) (tx : List Byte) (world : World),
      Served (prepared tables master tx world) server →
        server.pollFds.Nodup ∧
        (Sound pollFds server (pollLoop sys revents growth storage server) ↔
          ¬ Accepts sys (revents 0) server) := by
  have sound : Sound pollFds server (pollLoop sys revents growth storage server) ↔
      NoneInserts sys revents server.pollFds.length 0 server := by
    rw [← steady_iff_noneInserts]
    exact rangeFor_sound_iff storage server
  refine ⟨sound, fun tables master tx world served => ?_⟩
  obtain ⟨rest, consistent⟩ := served.consistent
  rw [sound]
  exact ⟨consistent.polled.nodup, consistent.noneInserts_iff sys revents⟩

/-- The server of `loneRun` when its client has connected. -/
def oneConnected : HwioServer Unit :=
  (poolClientMsgs (loneClient []) (prepared bareTables 3 [] ())).2

theorem oneConnected_served : Served (prepared bareTables 3 [] ()) oneConnected :=
  .pass .start (loneClient []) (fun _ _ => rfl) (Prod.ext (by decide +kernel) rfl)

/-- A client of two is polled when the second connects, with no room left: the
loop has visited the master socket, and reads the element of the client where
it no longer is. -/
theorem element_read_where_it_was :
    Served (prepared bareTables 3 [] ()) oneConnected ∧ oneConnected.pollFds = [3, 4] ∧
      (pollLoop secondClient (fun _ => 1) id ⟨0, 0⟩ oneConnected).2.visited = [3] ∧
      (pollLoop secondClient (fun _ => 1) id ⟨0, 0⟩ oneConnected).1 = .stale ∧
      ¬ Sound pollFds oneConnected (pollLoop secondClient (fun _ => 1) id ⟨0, 0⟩ oneConnected) := by
  have stale : (pollLoop secondClient (fun _ => 1) id ⟨0, 0⟩ oneConnected).1 = .stale := by
    decide +kernel
  exact ⟨oneConnected_served, by decide +kernel, by decide +kernel, stale,
    fun sound => sound.live stale⟩

/-- With the client alone ready, both elements are visited where they are. -/
theorem ready_client_visited :
    Sound pollFds oneConnected
      (pollLoop secondClient (fun index => if index = 1 then 1 else 0) id ⟨0, 0⟩ oneConnected) :=
  ((poll_traversal_sound_iff secondClient (fun index => if index = 1 then 1 else 0) id ⟨0, 0⟩
    oneConnected).2 bareTables 3 [] () oneConnected_served).2.mpr fun accepts =>
      accepts.2.1 rfl

end HwioServer

end Hwio
