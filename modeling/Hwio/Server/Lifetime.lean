import Mathlib.Data.List.Induction
import Hwio.Server.DeadRecords

/-!
Contract: the life of an `HwioServer`, from its constructor to its destructor.

Owns the constructor, `prepare_server_socket` with its errors, the destructor,
and what is left open when a server ends, however it ends.

An assertion that fails ends the process, and no destructor runs.
-/

namespace Hwio

open Library

variable {World : Type}

namespace HwioServer

/-! ## The beginning -/

/-- What the system calls of `prepare_server_socket` return.  Those on an invalid
descriptor fail. -/
structure SocketSetup where
  socket : Fd
  reuseAddr : Int
  keepAlive : Int
  bind : Int
  listen : Int
  gaiStrerror : Int → Text
  invalid : socket < 0 → reuseAddr < 0

/-- `HwioServer::HwioServer` -/
def construct (tables : Tables World) (txBuffer : List Byte) (world : World) :
    HwioServer World where
  tables := tables
  masterSocket := -1
  txBuffer := txBuffer
  pollFds := []
  removedPollFds := []
  fdToClient := ∅
  clients := []
  heap := fun _ => none
  nextClient := 0
  world := world
  trace := []

/-- `socket` opens a descriptor when it returns one. -/
def openedBy (fd : Fd) : List Event := if 0 ≤ fd then [.opened fd] else []

def setupError (call : String) (reason : Text) : Stop :=
  .thrown ⟨true, text "[HWIO, server]" ++ text "hwio_server " ++ text call ++ text " failed: " ++
    reason⟩

/-- `HwioServer::prepare_server_socket`.  A `socket` that fails is not 0, and the
errors of `setsockopt` are described by the descriptor. -/
def prepareServerSocket (setup : SocketSetup) (server : HwioServer World) : Ran World Unit :=
  let server :=
    { server with
      masterSocket := setup.socket
      trace := server.trace ++ openedBy setup.socket }
  if setup.socket = 0 then
    (.error (setupError "socket" (setup.gaiStrerror setup.socket)), server)
  else if setup.reuseAddr < 0 then
    (.error (setupError "setsockopt SO_REUSEADDR" (setup.gaiStrerror setup.socket)), server)
  else if setup.keepAlive < 0 then
    (.error (setupError "setsockopt SO_KEEPALIVE" (setup.gaiStrerror setup.socket)), server)
  else if setup.bind < 0 then
    (.error (setupError "bind" (setup.gaiStrerror setup.bind)), server)
  else if setup.listen < 0 then
    (.error (setupError "listen" (setup.gaiStrerror setup.listen)), server)
  else (.ok (), { server with pollFds := server.pollFds ++ [setup.socket] })

/-! ## The end -/

/-- `delete c` for every element of `clients`, of which some are null. -/
def deleteClients : List (Option ClientPtr) → HwioServer World → Ran World Unit
  | [], server => (.ok (), server)
  | none :: rest, server => deleteClients rest server
  | some client :: rest, server =>
      match server.heap client with
      | none => (.error .dangling, server)
      | some record =>
        deleteClients rest
          { server with
            heap := Function.update server.heap client none
            trace := server.trace ++ .removed client :: closeOnDelete record.fd }

/-- `HwioServer::~HwioServer` -/
def destroy (server : HwioServer World) : Ran World Unit :=
  match deleteClients server.clients server with
  | (.error stop, server) => (.error stop, server)
  | (.ok (), server) =>
    (.ok (), { server with trace := server.trace ++ closeOnDelete server.masterSocket })

/-! ## The setup -/

/-- The setup succeeds when it gets a descriptor other than 0 and no call fails. -/
def SocketSetup.Succeeds (setup : SocketSetup) : Prop :=
  0 < setup.socket ∧ 0 ≤ setup.reuseAddr ∧ 0 ≤ setup.keepAlive ∧ 0 ≤ setup.bind ∧
    0 ≤ setup.listen

/-- A setup that succeeds leaves the state from which the passes go on. -/
theorem prepareServerSocket_succeeds {setup : SocketSetup} (succeeds : setup.Succeeds)
    (tables : Tables World) (tx : List Byte) (world : World) :
    prepareServerSocket setup (construct tables tx world) =
      (.ok (), prepared tables setup.socket tx world) := by
  obtain ⟨positive, reuse, keep, bound, listening⟩ := succeeds
  have opened : openedBy setup.socket = [.opened setup.socket] := if_pos (Int.le_of_lt positive)
  unfold prepareServerSocket
  rw [if_neg (Int.ne_of_gt positive), if_neg (Int.not_lt.mpr reuse), if_neg (Int.not_lt.mpr keep),
    if_neg (Int.not_lt.mpr bound), if_neg (Int.not_lt.mpr listening), opened]
  rfl

/-- Every other setup throws, and what it opened is the master socket. -/
theorem prepareServerSocket_fails {setup : SocketSetup} (fails : ¬ setup.Succeeds)
    (tables : Tables World) (tx : List Byte) (world : World) :
    ∃ exn, exn.isRuntimeError = true ∧ prepareServerSocket setup (construct tables tx world) =
      (.error (.thrown exn),
        { construct tables tx world with
          masterSocket := setup.socket
          trace := openedBy setup.socket }) := by
  unfold prepareServerSocket
  by_cases zero : setup.socket = 0
  · rw [if_pos zero]
    exact ⟨_, rfl, rfl⟩
  rw [if_neg zero]
  by_cases reuse : setup.reuseAddr < 0
  · rw [if_pos reuse]
    exact ⟨_, rfl, rfl⟩
  rw [if_neg reuse]
  by_cases keep : setup.keepAlive < 0
  · rw [if_pos keep]
    exact ⟨_, rfl, rfl⟩
  rw [if_neg keep]
  by_cases bound : setup.bind < 0
  · rw [if_pos bound]
    exact ⟨_, rfl, rfl⟩
  rw [if_neg bound]
  by_cases listening : setup.listen < 0
  · rw [if_pos listening]
    exact ⟨_, rfl, rfl⟩
  -- an invalid descriptor is found by the first `setsockopt`
  have valid : 0 ≤ setup.socket := Int.not_lt.mp (mt setup.invalid reuse)
  have positive : 0 < setup.socket := Int.lt_iff_le_and_ne.mpr ⟨valid, Ne.symm zero⟩
  exact absurd ⟨positive, Int.not_lt.mp reuse, Int.not_lt.mp keep,
    Int.not_lt.mp bound, Int.not_lt.mp listening⟩ fails

/-! ## Passes that throw -/

/-- The tables agree after the rounds of a pass, even when one of them throws. -/
theorem Consistent.roundsOf_agreed {master : Fd} {rest : List Fd} {server : HwioServer World}
    (consistent : Consistent master rest server) (sys : Sys) :
    Agreed master (roundsOf sys server).2 := by
  have polled := consistent.polled
  unfold roundsOf
  split
  case h_2 => exact polled.agreed
  next revents _ =>
    have outcome := @visit_master_outcome _ sys _ _ _ polled consistent.unqueued (revents 0)
    have first : Agreed master (visit sys master (revents 0) server).2 := by
      have agreed := polled.agreed.quiet (quiet_note server (show ¬ Life (.visited master) from id))
      rcases @visit_master_cases _ sys _ _ _ polled (revents 0) with
        idle | ⟨exn, failed, _⟩ | ⟨socket, accepting, ran⟩
      · rw [idle]
        exact polled.agreed
      · rw [failed]
        exact agreed
      · rw [ran]
        obtain ⟨positive, fresh⟩ := sys.accept_fresh _ socket accepting
        exact agreed.connect positive fresh
    simp only [polled.pollFds, List.mapIdx_cons, visitAll]
    rcases visiting : visit sys master (revents 0) server with ⟨result, left⟩
    rw [visiting] at outcome first
    cases result with
    | error stop => exact first
    | ok done =>
        obtain ⟨unqueued, more, _, polled', _⟩ := outcome
        have fds := polled_fds rest fun index => revents (index + 1)
        refine (visitAll_uses sys first polled'.masterSocket _ ?_ ?_).2
        · rw [fds]
          exact polled.distinct
        · rw [fds]
          intro fd member
          rw [polled'.entries, unqueued]
          exact ⟨List.mem_append_left _ member, List.not_mem_nil⟩

/-- They agree after a pass that throws. -/
theorem Consistent.thrown_agreed {master : Fd} {rest : List Fd} {server after : HwioServer World}
    (consistent : Consistent master rest server) {sys : Sys} {stop : Stop}
    (thrown : poolClientMsgs sys server = (.error stop, after)) :
    Agreed master after ∧ after.masterSocket = master := by
  have rounds := consistent.roundsOf_agreed sys
  have same : after.masterSocket = server.masterSocket := by
    have kept := Steps.masterSocket (Moves.steps (poolClientMsgs_moves sys server))
    rw [thrown] at kept
    exact kept
  refine ⟨?_, same.trans consistent.polled.masterSocket⟩
  unfold poolClientMsgs at thrown
  unfold roundsOf at rounds
  cases polling : sys.ppoll server.trace server.pollFds with
  | timeout => simp [polling] at thrown
  | interrupted => simp [polling] at thrown
  | failed errno =>
      simp only [polling, Prod.mk.injEq] at thrown
      rw [← thrown.2]
      exact consistent.polled.agreed
  | ready revents =>
      simp only [polling] at thrown rounds
      rcases visiting : visitAll sys
        (server.pollFds.mapIdx fun index fd => (fd, revents index)) server with ⟨result, left⟩
      rw [visiting] at thrown rounds
      cases result with
      | error other =>
          obtain rfl := (Prod.mk.inj thrown).2
          exact rounds
      | ok done => cases (Prod.mk.inj thrown).1

/-! ## The destructor -/

/-- The destructor deletes what the tables hold: the loop goes on as the tables do
when clients are removed one after the other. -/
theorem deleteClients_agreed {master : Fd} {slots : List (Option ClientPtr)}
    {server removed : HwioServer World} (agreed : Agreed master removed)
    (heap : removed.heap = server.heap) (trace : removed.trace = server.trace)
    (held : ∀ client, some client ∈ slots ↔ ∃ record, server.heap client = some record)
    (distinct : slots.reduceOption.Nodup) :
    ∃ after removed' : HwioServer World, deleteClients slots server = (.ok (), after) ∧ Agreed master removed' ∧
      removed'.heap = after.heap ∧ removed'.trace = after.trace ∧
      after.masterSocket = server.masterSocket ∧ server.trace <+: after.trace ∧
      ∀ client, after.heap client = none := by
  induction slots generalizing server removed with
  | nil =>
      refine ⟨server, removed, rfl, agreed, heap, trace, rfl, List.prefix_rfl, fun client => ?_⟩
      apply Option.eq_none_iff_forall_ne_some.mpr
      intro record live
      cases (held client).mpr ⟨record, live⟩
  | cons slot rest inductionHypothesis =>
      cases slot with
      | none =>
          rw [List.reduceOption_cons_of_none] at distinct
          apply inductionHypothesis agreed heap trace _ distinct
          intro client
          rw [← held client, List.mem_cons]
          simp
      | some client =>
          rw [List.reduceOption_cons_of_some, List.nodup_cons, List.reduceOption_mem_iff] at distinct
          obtain ⟨record, live⟩ := (held client).mp List.mem_cons_self
          have deleted := agreed.delete (heap ▸ live)
          rw [deleteClients, live]
          obtain ⟨after, removed', ran, last⟩ := @inductionHypothesis
            { server with
              heap := Function.update server.heap client none
              trace := server.trace ++ .removed client :: closeOnDelete record.fd }
            (deleteClient client record removed) deleted (by rw [← heap]; rfl)
            (by rw [← trace]; rfl) (by
              intro other
              by_cases same : other = client
              · subst same
                exact iff_of_false distinct.1 (by simp)
              · simp only [Function.update_of_ne same]
                rw [← held other, List.mem_cons]
                simp [same]) distinct.2
          obtain ⟨agreed', heap', trace', master', longer, none⟩ := last
          exact ⟨after, removed', ran, agreed', heap', trace', master',
            (List.prefix_append _ _).trans longer, none⟩

/-! ## Whole lives -/

/-- A pass that returned leads to the server that it left. -/
theorem Served.next {start server : HwioServer World} (served : Served start server) (sys : Sys)
    (freed : ∀ history fd, sys.freedFd history fd = fd)
    (returned : (poolClientMsgs sys server).1 = .ok ()) :
    Served start (poolClientMsgs sys server).2 :=
  .pass served sys freed (Prod.ext returned rfl)

/-- The states in which a server is destroyed: when its setup threw, when it is not
needed any more after passes that all returned, and when the next pass threw. -/
inductive Ending (setup : SocketSetup) (tables : Tables World) (tx : List Byte) (world : World) :
    HwioServer World → Prop
  | unprepared {exn : Exn} {server : HwioServer World}
      (threw : prepareServerSocket setup (construct tables tx world) =
        (.error (.thrown exn), server)) : Ending setup tables tx world server
  | stopped {start server : HwioServer World}
      (ready : prepareServerSocket setup (construct tables tx world) = (.ok (), start))
      (served : Served start server) : Ending setup tables tx world server
  | threw {start before server : HwioServer World} {sys : Sys} {exn : Exn}
      (ready : prepareServerSocket setup (construct tables tx world) = (.ok (), start))
      (served : Served start before)
      (threw : poolClientMsgs sys before = (.error (.thrown exn), server)) :
      Ending setup tables tx world server

/-- A client is removed only when it was not before, and a descriptor is closed only
when it is open. -/
def EndsOnce (front : List Event) : Event → Prop
  | .removed client => .removed client ∉ front
  | .closed fd => fd ∈ openFds front
  | _ => True

/-- A history that leaves nothing behind: no descriptor is open, and every client
that was made was removed. -/
structure Clean (history : List Event) : Prop where
  closed : openFds history = []
  ended : ∀ client fd, .created client fd ∈ history → .removed client ∈ history
  once : Justified EndsOnce history

/-- A setup that returns is one that succeeds. -/
theorem prepareServerSocket_returns {setup : SocketSetup} {tables : Tables World}
    {tx : List Byte} {world : World} {start : HwioServer World}
    (ready : prepareServerSocket setup (construct tables tx world) = (.ok (), start)) :
    0 < setup.socket ∧ start = prepared tables setup.socket tx world := by
  by_cases succeeds : setup.Succeeds
  · rw [prepareServerSocket_succeeds succeeds] at ready
    exact ⟨succeeds.1, (Prod.mk.inj ready).2.symm⟩
  · obtain ⟨exn, _, fails⟩ := prepareServerSocket_fails succeeds tables tx world
    rw [fails] at ready
    cases (Prod.mk.inj ready).1

/-- A client is connected from when it is made to when it is removed. -/
theorem connected_or_removed {history : List Event} {client : ClientPtr} {fd : Fd}
    (made : .created client fd ∈ history) :
    client ∈ connected history ∨ .removed client ∈ history := by
  induction history using List.reverseRecOn with
  | nil => cases made
  | append_singleton earlier event inductionHypothesis =>
      have next : connected (earlier ++ [event]) = connectedStep (connected earlier) event :=
        List.foldl_append ..
      rw [next, List.mem_append, List.mem_singleton]
      rcases List.mem_append.mp made with old | new
      · rcases inductionHypothesis old with still | gone
        · cases event with
          | created other fd => exact Or.inl (List.mem_cons_of_mem other still)
          | removed other =>
              by_cases same : client = other
              · subst same
                exact Or.inr (Or.inr rfl)
              · exact Or.inl (List.mem_filter.mpr ⟨still, decide_eq_true same⟩)
          | _ => exact Or.inl still
        · exact Or.inr (Or.inl gone)
      · obtain rfl := List.mem_singleton.mp new
        exact Or.inl List.mem_cons_self

/-- A setup that throws leaves at most the master socket, which is closed. -/
theorem openedBy_clean (fd : Fd) : Clean (openedBy fd ++ closeOnDelete fd) := by
  unfold openedBy closeOnDelete
  by_cases valid : 0 ≤ fd
  · rw [if_pos valid, if_pos valid]
    constructor
    · show [fd].filter (· ≠ fd) = []
      simp
    · intro client other made
      simp at made
    · exact Justified.snoc (justified_singleton trivial) (List.mem_singleton_self fd)
  · rw [if_neg valid, if_neg valid]
    exact ⟨rfl, fun client fd made => absurd made List.not_mem_nil, justified_nil⟩

/-- A server whose tables agree ends clean. -/
theorem Agreed.destroyed {master : Fd} {server : HwioServer World} (agreed : Agreed master server)
    (isMaster : server.masterSocket = master) (positive : 0 < master) :
    ∃ after, destroy server = (.ok (), after) ∧ Clean after.trace ∧
      server.trace <+: after.trace ∧ ∀ client, after.heap client = none := by
  have distinct := reduceOption_nodup_of_placed (placed_iff agreed.record_slot agreed.slot_record)
  have held : ∀ client, some client ∈ server.clients ↔
      ∃ record, server.heap client = some record := by
    intro client
    rw [List.mem_iff_getElem?]
    constructor
    · rintro ⟨id, slot⟩
      obtain ⟨record, live, _⟩ := agreed.slot_record id client slot
      exact ⟨record, live⟩
    · rintro ⟨record, live⟩
      exact ⟨record.id, agreed.record_slot client record live⟩
  obtain ⟨after, removed, ran, agreed', heap, trace, master', longer, none⟩ :=
    deleteClients_agreed agreed rfl rfl held distinct
  have closing : closeOnDelete after.masterSocket = [.closed master] := by
    rw [master', isMaster]
    exact if_pos (Int.le_of_lt positive)
  have unlisted : ∀ fd, fd ∉ removed.fdToClient := by
    intro fd known
    obtain ⟨client, entry⟩ := Option.isSome_iff_exists.mp (AList.lookup_isSome.mpr known)
    obtain ⟨record, live, _⟩ := agreed'.entry_record fd client entry
    rw [heap, none client] at live
    cases live
  have opened : ∀ fd, fd ∈ openFds after.trace ↔ fd = master := by
    intro fd
    rw [← trace, agreed'.opened fd]
    exact or_iff_left (unlisted fd)
  have because := agreed'.because
  rw [trace] at because
  unfold destroy
  rw [ran]
  refine ⟨_, rfl, ?_, longer.trans (List.prefix_append _ _), none⟩
  simp only [closing]
  constructor
  · have last : openFds (after.trace ++ [.closed master]) =
        (openFds after.trace).filter (· ≠ master) := List.foldl_append ..
    rw [last, List.filter_eq_nil_iff]
    intro fd member other
    exact of_decide_eq_true other ((opened fd).mp member)
  · intro client fd made
    have before : .created client fd ∈ after.trace := by simpa using made
    rcases connected_or_removed before with still | gone
    · rw [← trace, agreed'.connected_iff client, heap, none client] at still
      obtain ⟨record, live⟩ := still
      cases live
    · exact List.mem_append_left _ gone
  · have before : Justified EndsOnce after.trace := by
      intro front event back split
      have because := agreed'.because front event back (trace ▸ split)
      cases event with
      | removed client => exact because.2
      | closed fd => exact because.1
      | _ => trivial
    exact before.snoc ((opened master).mpr rfl)

end HwioServer

/-- However the life of a server ends, its destructor returns and leaves nothing
behind: each descriptor that it opened or accepted is closed, once, and each record
that it made is deleted, once, whether the setup threw, a pass threw halfway, or
all of them returned. -/
theorem servers_end_clean {setup : HwioServer.SocketSetup} {tables : Tables World}
    {tx : List Byte} {world : World} {server : HwioServer World}
    (ending : HwioServer.Ending setup tables tx world server) :
    ∃ after, HwioServer.destroy server = (.ok (), after) ∧ HwioServer.Clean after.trace ∧
      server.trace <+: after.trace ∧ ∀ client, after.heap client = none := by
  cases ending with
  | unprepared threw =>
      by_cases succeeds : setup.Succeeds
      · rw [HwioServer.prepareServerSocket_succeeds succeeds] at threw
        cases (Prod.mk.inj threw).1
      obtain ⟨exn, _, fails⟩ := HwioServer.prepareServerSocket_fails succeeds tables tx world
      rw [fails] at threw
      obtain rfl := (Prod.mk.inj threw).2
      refine ⟨_, rfl, ?_, List.prefix_append _ _, fun client => rfl⟩
      exact HwioServer.openedBy_clean setup.socket
  | stopped ready served =>
      obtain ⟨positive, rfl⟩ := HwioServer.prepareServerSocket_returns ready
      obtain ⟨rest, consistent⟩ := served.consistent
      exact consistent.polled.agreed.destroyed consistent.polled.masterSocket positive
  | threw ready served threw =>
      obtain ⟨positive, rfl⟩ := HwioServer.prepareServerSocket_returns ready
      obtain ⟨rest, consistent⟩ := served.consistent
      obtain ⟨agreed, isMaster⟩ := consistent.thrown_agreed threw
      exact agreed.destroyed isMaster positive

namespace HwioServer

/-- A socket on which all calls succeed. -/
def goodSetup : SocketSetup := ⟨3, 0, 0, 0, 0, fun _ => [], by decide⟩

/-- A server with one client. -/
def connectedOnce : HwioServer Unit :=
  (poolClientMsgs (loneClient []) (prepared bareTables 3 [] ())).2

/-- Polling fails. -/
def unpolled : Sys := { loneClient [] with ppoll := fun _ _ => .failed 12 }

end HwioServer

open HwioServer in
theorem failed_poll_ends_clean :
    ∃ after, destroy connectedOnce = (.ok (), after) ∧ Clean after.trace ∧
      connectedOnce.trace <+: after.trace ∧ ∀ client, after.heap client = none := by
  have ready := @prepareServerSocket_succeeds Unit goodSetup
    ⟨by decide, by decide, by decide, by decide, by decide⟩ bareTables [] ()
  have served : Served (prepared bareTables 3 [] ()) connectedOnce :=
    Served.start.next (loneClient []) (fun _ _ => rfl) (by decide +kernel)
  have threw : poolClientMsgs unpolled connectedOnce =
      (.error (.thrown ⟨true, text "Error condition upon execution of ppoll()! errno = " ++
        decimal 12⟩), connectedOnce) := rfl
  exact servers_end_clean (.threw ready served threw)

end Hwio
