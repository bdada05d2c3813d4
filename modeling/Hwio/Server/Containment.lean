import Hwio.Server.Answers
import Hwio.Server.Failures
import Hwio.Server.Passes
import Hwio.Server.Rejections

/-!
Contract: what a failing call of one connection does to the rest of a pass.

Owns the reasons for which a pass is left, the visits in which connections act,
and when a run-time error of a call stays with its connection.

Does not own the agreement of the client tables.
-/

namespace Hwio

open Library

variable {World : Type}

/-! ## Frames and their failures -/

/-- The call of a dispatched frame that throws, and its exception. -/
def failingIn (tables : Tables World) (start : Service World) (front : List Event) :
    Event → Option (Call × Exn)
  | .dispatched client _ header rx =>
    let request := (start.after tables front).request client rx
    failing tables (handleMsg tables header request).2.calls request.world
  | _ => none

/-- The frame whose handling was left with a stop. -/
def LeftBy (tables : Tables World) (start : Service World) (stop : Stop) (front : List Event) :
    Event → Prop
  | .dispatched client _ header rx =>
    (handleMsg tables header ((start.after tables front).request client rx)).1 = .error stop
  | _ => False

/-- A stop left a frame that was dispatched since a history. -/
def LeftSince (tables : Tables World) (start : Service World) (stop : Stop)
    (history later : List Event) : Prop :=
  ∃ front event back, later = history ++ (front ++ event :: back) ∧
    LeftBy tables start stop (history ++ front) event

theorem LeftSince.earlier {tables : Tables World} {start : Service World} {stop : Stop}
    {history between later : List Event} (left : LeftSince tables start stop between later)
    {events : List Event} (split : between = history ++ events) :
    LeftSince tables start stop history later := by
  obtain ⟨front, event, back, same, leaves⟩ := left
  refine ⟨events ++ front, event, back, ?_, ?_⟩
  · rw [same, split, List.append_assoc, List.append_assoc]
  · rw [← List.append_assoc, ← split]
    exact leaves

namespace HwioServer

variable {tables : Tables World} {start : Service World} {sys : Sys}

/-! ## Removal at once -/

/-- A connection whose frame ended it is removed next, or about to be. -/
def RemovedNext (mode : Mode) (_ : List Event) (event : Event) (back : List Event) : Prop :=
  ∀ client, event = .handled client true →
    (back = [] ∧ mode = .doomed client) ∨ ∃ rest, back = .removed client :: rest

theorem removedNext_append {mode mode' : Mode} {earlier later : List Event}
    (old : Explained (RemovedNext mode) earlier)
    (due : ∀ client, mode = .doomed client → ∃ rest, later = .removed client :: rest)
    (new : ∀ front client back, later = front ++ .handled client true :: back →
      back = [] ∧ mode' = .doomed client) : Explained (RemovedNext mode') (earlier ++ later) := by
  intro front event back split client handled
  subst handled
  rcases append_eq_append_cons split with ⟨rest, earlier', rfl⟩ | ⟨rest, front', later'⟩
  · rcases old front _ rest earlier' client rfl with ⟨rfl, doomed⟩ | ⟨more, rfl⟩
    · exact Or.inr (due client doomed)
    · exact Or.inr ⟨more ++ later, rfl⟩
  · exact Or.inl (new rest client back later')

/-- No handling ends among other events. -/
theorem removedNext_other {mode mode' : Mode} {earlier later : List Event}
    (old : Explained (RemovedNext mode) earlier)
    (due : ∀ client, mode = .doomed client → ∃ rest, later = .removed client :: rest)
    (other : ∀ client, .handled client true ∉ later) :
    Explained (RemovedNext mode') (earlier ++ later) := by
  refine removedNext_append old due fun front client back split => ?_
  refine absurd ?_ (other client)
  rw [split]
  exact List.mem_append_right _ List.mem_cons_self

theorem handled_not_mem_deletion {client other : ClientPtr} {fd : Fd} :
    .handled other true ∉ .removed client :: closeOnDelete fd := by
  unfold closeOnDelete
  split <;> simp

theorem removedNext_read {mode : Mode} {before : HwioServer World} (sys : Sys)
    (client : ClientPtr) (record : ClientInfo)
    (old : Explained (RemovedNext .idle) before.trace) :
    Explained (RemovedNext mode) (before.putSession client
      (readFromSocket sys client (before.session record)).2).trace := by
  obtain ⟨events, trace, only⟩ := readFromSocket_events sys client (before.session record)
  show Explained _ (readFromSocket sys client (before.session record)).2.trace
  rw [trace]
  refine removedNext_other old nofun fun other member => ?_
  rcases only _ member with ⟨_, _, same⟩ | ⟨_, _, _, same⟩
  · cases same
  · cases same

theorem Move.removedNext {before after : HwioServer World} {mode mode' : Mode}
    (move : Move sys before mode mode' after) (known : Known tables start before)
    (old : Explained (RemovedNext mode) before.trace) :
    Explained (RemovedNext mode') after.trace := by
  cases move with
  | noted event notice =>
      refine removedNext_other old nofun fun client member => ?_
      rw [List.mem_singleton] at member
      subst member
      exact notice
  | allocated socket => exact removedNext_other old nofun (by simp)
  | listed socket client => exact old
  | queued fd => exact old
  | cleaned => exact old
  | waits client record live incomplete =>
      rw [← List.append_nil before.trace]
      exact removedNext_other old nofun (by simp)
  | dropped client record live =>
      exact removedNext_other old nofun fun _ => handled_not_mem_deletion
  | removed client record live =>
      refine removedNext_other old (fun other doomed => ?_) fun _ => handled_not_mem_deletion
      cases doomed
      exact ⟨_, rfl⟩
  | received client record live came => exact removedNext_read sys client record old
  | failed client record live came => exact removedNext_read sys client record old
  | answered client record live complete _ result =>
      have unchanged := known.unchanged
      subst unchanged
      have request := known.request live (before.session record).request.rx
      obtain ⟨back', trace, _, own, unhandled, handled⟩ := handleFrame_answers sys request
      show Explained _ (handleFrame _ _ _ _).2.trace
      rw [trace]
      refine removedNext_append old nofun fun front other back split => ?_
      cases front with
      | nil => cases split
      | cons head tail =>
          have later : back' = tail ++ .handled other true :: back := (List.cons.inj split).2
          have member : .handled other true ∈ back' := by
            rw [later]
            exact List.mem_append_right _ List.mem_cons_self
          cases Option.some.inj (own _ member)
          refine ⟨?_, by rw [result, handled.mp member]⟩
          cases back with
          | nil => rfl
          | cons next rest =>
              refine absurd ?_ unhandled
              rw [later, List.dropLast_append_of_ne_nil (List.cons_ne_nil _ _)]
              exact List.mem_append_right _ List.mem_cons_self

/-! ## Whole replies -/

/-- No `send` of a pass fails. -/
def Sends (sys : Sys) : Prop :=
  ∀ history fd bytes, sys.send history fd bytes ≠ .failed

/-- The calls of a dispatched frame and its whole reply follow at once. -/
def Delivered (tables : Tables World) (start : Service World) (front : List Event)
    (event : Event) (back : List Event) : Prop :=
  match event with
  | .dispatched client _ header rx =>
    let answer := handleMsg tables header ((start.after tables front).request client rx)
    ∀ res, answer.1 = .ok res →
      ∃ sent disconnect rest,
        back = answer.2.calls.map (.called client) ++
          (sent ++ .handled client disconnect :: rest) ∧
        (∀ event ∈ sent, ∃ part, event = .sent client part) ∧ sentIn sent = replyBytes answer
  | _ => True

/-- Where the parts of a reply end is told by the event behind them. -/
theorem sent_unique {client : ClientPtr} {disconnect disconnect' : Bool}
    {sent sent' rest rest' : List Event}
    (only : ∀ event ∈ sent, ∃ part, event = .sent client part)
    (only' : ∀ event ∈ sent', ∃ part, event = .sent client part)
    (same : sent ++ .handled client disconnect :: rest =
      sent' ++ .handled client disconnect' :: rest') : sent = sent' := by
  induction sent generalizing sent' with
  | nil =>
      cases sent' with
      | nil => rfl
      | cons head tail =>
          obtain ⟨part, sent⟩ := only' head List.mem_cons_self
          cases sent.symm.trans (List.cons.inj same).1.symm
  | cons head tail inductionHypothesis =>
      obtain ⟨part, sent⟩ := only head List.mem_cons_self
      cases sent' with
      | nil => cases sent.symm.trans (List.cons.inj same).1
      | cons head' tail' =>
          obtain ⟨first, later⟩ := List.cons.inj same
          rw [first, inductionHypothesis
            (fun event member => only event (List.mem_cons_of_mem _ member))
            (fun event member => only' event (List.mem_cons_of_mem _ member)) later]

theorem sendReply_whole (sends : Sends sys) (fd : Fd) (client : ClientPtr) {fuel : Nat}
    {bytes : List Byte} (enough : bytes.length ≤ fuel) (trace : List Event) :
    (sendReply sys fd client fuel bytes trace).1 = true := by
  induction fuel generalizing bytes trace with
  | zero =>
      rw [List.length_eq_zero_iff.mp (Nat.le_zero.mp enough)]
      rfl
  | succ fuel inductionHypothesis =>
      cases bytes with
      | nil => rfl
      | cons byte rest =>
          rw [sendReply]
          cases sending : sys.send trace fd (byte :: rest) with
          | failed => exact absurd sending (sends trace fd (byte :: rest))
          | sent count =>
              have positive := sys.send_pos trace fd (byte :: rest) count sending
              apply inductionHypothesis
              rw [List.length_cons] at enough
              rw [List.length_drop, List.length_cons]
              omega

theorem handleFrame_delivers (sends : Sends sys) {client : ClientPtr} {session : Session World}
    (request : (start.after tables session.trace).request client session.request.rx =
      session.request) :
    let asked := Event.dispatched client session.client.rxBuffer.currPtr
      (HwioPacketHeader.at session.client.rxBuffer.buffer session.client.rxBuffer.currPtr)
      session.request.rx
    ∃ back, (handleFrame tables sys client session).2.trace = session.trace ++ asked :: back ∧
      Delivered tables start session.trace asked back := by
  intro asked
  obtain ⟨back, trace, _⟩ := handleFrame_answers sys request
  refine ⟨back, trace, fun res ok => ?_⟩
  rw [request] at ok ⊢
  unfold handleFrame at trace
  rcases handling : handleMsg tables (HwioPacketHeader.at session.client.rxBuffer.buffer
    session.client.rxBuffer.currPtr) session.request with ⟨result, ctx⟩
  simp only [handling] at ok trace ⊢
  subst ok
  obtain ⟨sent, appended, onlySent, _, whole⟩ := sendReply_trace sys session.client.fd client
    res.txSize (load ctx.tx 0 res.txSize) (session.afterMsg client ctx).trace
  have all := @sendReply_whole sys sends session.client.fd client res.txSize
    (load ctx.tx 0 res.txSize) (Nat.le_of_eq (load_length ..)) (session.afterMsg client ctx).trace
  rcases sending : sendReply sys session.client.fd client res.txSize
    (load ctx.tx 0 res.txSize) (session.afterMsg client ctx).trace with ⟨sentAll, after⟩
  rw [sending] at appended whole all
  simp only [sending] at appended trace
  refine ⟨sent, res.disconnect || !sentAll, [], ?_, onlySent, whole.mp all⟩
  have same : session.trace ++ asked :: back = session.trace ++ asked ::
      (ctx.calls.map (.called client) ++ (sent ++ [.handled client (res.disconnect || !sentAll)])) := by
    rw [← trace, appended]
    simp [Session.afterMsg, asked]
  exact (List.cons.inj (List.append_cancel_left same)).2

/-- In a pass without a failing `send`, moves keep that every reply is whole. -/
theorem Move.delivered {before after : HwioServer World} {mode mode' : Mode}
    (sends : Sends sys) (move : Move sys before mode mode' after)
    (known : Known tables start before) {history events : List Event}
    (split : before.trace = history ++ events)
    (delivered : Explained (fun front => Delivered tables start (history ++ front)) events) :
    ∃ more, after.trace = history ++ more ∧
      Explained (fun front => Delivered tables start (history ++ front)) more := by
  obtain ⟨new, trace, asks⟩ := Move.appends move
  refine ⟨events ++ new, by rw [trace, split, List.append_assoc], ?_⟩
  apply Explained.append ?_ delivered
  · intro front event back divided
    cases event with
    | dispatched client offset header rx =>
        obtain ⟨rfl, rfl, _⟩ := asks front back client offset header rx divided
        rw [List.nil_append] at divided
        subst divided
        rw [List.append_nil, ← split]
        cases move with
        | waits _ record live incomplete => simp at trace
        | answered _ record live complete _ ended =>
            have unchanged := known.unchanged
            subst unchanged
            have request := known.request live (before.session record).request.rx
            obtain ⟨back', trace', whole⟩ := handleFrame_delivers sends request
            cases List.append_cancel_left (trace'.symm.trans trace)
            exact whole
    | _ => exact trivial
  · intro front event back more whole
    cases event with
    | dispatched client offset header rx =>
        intro res ok
        obtain ⟨sent, disconnect, rest, same, onlySent, all⟩ := whole res ok
        refine ⟨sent, disconnect, rest ++ more, ?_, onlySent, all⟩
        rw [same, List.append_assoc, List.append_assoc, List.cons_append]
    | _ => exact trivial

theorem Moves.delivered (sends : Sends sys) {before after : HwioServer World} {mode mode' : Mode}
    (moves : Moves sys (mode, before) (mode', after)) (known : Known tables start before) :
    ∃ events, after.trace = before.trace ++ events ∧
      Explained (fun front => Delivered tables start (before.trace ++ front)) events := by
  have kept := @Moves.invariant _ sys (mode, before) (mode', after)
    (fun _ server => Known tables start server ∧ ∃ events, server.trace = before.trace ++ events ∧
      Explained (fun front => Delivered tables start (before.trace ++ front)) events)
    moves ⟨known, [], (List.append_nil _).symm, explained_nil⟩ ?_
  · exact kept.2
  · intro between last _ _ move kept
    obtain ⟨known, events, split, whole⟩ := kept
    exact ⟨Move.known move known, Move.delivered sends move known split whole⟩

/-! ## Why a pass is left -/

theorem Moves.known {before after : HwioServer World} {mode mode' : Mode}
    (moves : Moves sys (mode, before) (mode', after)) (known : Known tables start before) :
    Known tables start after :=
  @Moves.invariant _ sys (mode, before) (mode', after) (fun _ server => Known tables start server)
    moves known fun _ _ _ _ move => Move.known move

/-- The loop over the frames of a buffer is only left by one of them. -/
theorem parseLoop_stopped {client : ClientPtr} {fuel : Nat} {session : Session World}
    {server : HwioServer World} (known : Known tables start (server.putSession client session))
    {stop : Stop} (stopped : (parseLoop server.tables sys client fuel session).1 = .stopped stop) :
    LeftSince tables start stop session.trace
      (parseLoop server.tables sys client fuel session).2.trace := by
  induction fuel generalizing session with
  | zero => cases stopped
  | succ fuel inductionHypothesis =>
      obtain rfl : server.tables = tables := known.unchanged
      have live := putSession_heap server client session
      rw [parseLoop] at stopped ⊢
      by_cases header : session.client.rxBuffer.currLen < sizeofHeader
      · rw [if_pos header] at stopped
        cases stopped
      rw [if_neg header] at stopped ⊢
      by_cases body : session.client.rxBuffer.currLen < session.client.rxBuffer.msgLen
      · rw [if_pos body] at stopped
        cases stopped
      rw [if_neg body] at stopped ⊢
      have request := known.request live session.request.rx
      obtain ⟨back, trace, _⟩ := handleFrame_answers sys request
      have moved : Move sys _ _ _ _ := .answered client session.client live
        ⟨Nat.le_of_not_lt header, Nat.le_of_not_lt body⟩ _ rfl
      have known' := Move.known moved known
      rw [session_putSession, putSession_putSession] at known'
      change Known server.tables start (server.putSession client
        (handleFrame server.tables sys client session).2) at known'
      have ends := handleFrame_eq server.tables sys client session
      rcases handling : handleFrame server.tables sys client session with ⟨result, after⟩
      rw [handling] at stopped trace known' ends
      cases result with
      | error other =>
          cases stopped
          refine ⟨[], _, back, trace, ?_⟩
          rcases ends with ⟨same, failed, left⟩ | ⟨res, sent, disconnect, _, _, _, _, left⟩
          · cases left
            show (handleMsg server.tables _ ((start.after server.tables (session.trace ++ [])).request
              client session.request.rx)).1 = .error _
            rw [List.append_nil]
            exact (congrArg (fun ctx => (handleMsg server.tables _ ctx).1) request).trans failed
          · cases left
      | ok disconnect =>
          cases disconnect with
          | true => cases stopped
          | false => exact (inductionHypothesis known' stopped).earlier trace

/-! ## Visits -/

/-- The events of the visit of a client's descriptor, but for the report of it. -/
def Concerns (client : ClientPtr) (fd : Fd) (event : Event) : Prop :=
  actor event = some client ∨ event = .closed fd ∨ event = .readFreed client

/-- Once made, a connection acts only while its own descriptor is visited. -/
def InOwnVisit (front : List Event) (event : Event) : Prop :=
  ∀ client, actor event = some client → (∀ fd, event ≠ .created client fd) →
    ∃ earlier fd later, front = earlier ++ .visited fd :: later ∧
      .created client fd ∈ earlier ∧ ∀ other ∈ later, Concerns client fd other

theorem inOwnVisit_of_bystander {front : List Event} {event : Event}
    (bystander : ∀ client, actor event = some client → ∃ fd, event = .created client fd) :
    InOwnVisit front event := by
  intro client acts notMade
  obtain ⟨fd, made⟩ := bystander client acts
  exact absurd made (notMade fd)

/-- The events of one visit may be added. -/
theorem inOwnVisit_append {history later : List Event} {client : ClientPtr} {fd : Fd}
    (old : Justified InOwnVisit history) (made : .created client fd ∈ history)
    (concern : ∀ event ∈ later, Concerns client fd event) :
    Justified InOwnVisit (history ++ .visited fd :: later) := by
  refine (justified_append_iff _ _).mpr ⟨old, fun front event back split => ?_⟩
  cases front with
  | nil =>
      cases split
      exact inOwnVisit_of_bystander nofun
  | cons head tail =>
      obtain ⟨rfl, rest⟩ := List.cons.inj split
      intro other acts _
      have member : event ∈ later := by
        rw [rest]
        exact List.mem_append_right _ List.mem_cons_self
      rcases concern event member with own | rfl | rfl
      · cases own.symm.trans acts
        refine ⟨history, fd, tail, rfl, made, fun earlier inside => concern earlier ?_⟩
        rw [rest]
        exact List.mem_append_left _ inside
      · cases acts
      · cases acts

/-- The visit of a ready descriptor, from the report on. -/
structure Turn (tables : Tables World) (start : Service World) (client : ClientPtr) (fd : Fd)
    (before : HwioServer World) (ran : Ran World Unit) : Prop where
  trace : ∃ events, ran.2.trace = before.trace ++ events ∧
    ∀ event ∈ events, Concerns client fd event
  stopped : ∀ stop, ran.1 = .error stop → LeftSince tables start stop before.trace ran.2.trace

theorem concerns_deletion {client : ClientPtr} {fd : Fd} :
    ∀ event ∈ .removed client :: closeOnDelete fd, Concerns client fd event := by
  intro event member
  rcases mem_deletion member with rfl | closed
  · exact Or.inl rfl
  · exact Or.inr (Or.inl closed)

theorem Agreed.removeClient {master : Fd} {server : HwioServer World}
    (agreed : Agreed master server) {client : ClientPtr} {record : ClientInfo}
    (live : server.heap client = some record) :
    removeClient record.fd server = (.ok (), deleteClient client record server) := by
  simp only [HwioServer.removeClient, agreed.record_entry client record live, live, if_pos]

theorem parseMsgs_turn {master : Fd} {before : HwioServer World} (agreed : Agreed master before)
    {client : ClientPtr} {record : ClientInfo} (live : before.heap client = some record)
    {session : Session World} (traffic : Traffic client (before.session record) session)
    (known : Known tables start (before.putSession client session)) :
    Turn tables start client record.fd before
      (parseMsgs sys client session (before.putSession client session)) := by
  obtain ⟨later, _⟩ := parseLoop_traffic before.tables sys client
    session.client.rxBuffer.currLen session
  have stops := fun stop stopped => @parseLoop_stopped _ tables start sys client
    session.client.rxBuffer.currLen session before known stop stopped
  unfold parseMsgs
  simp only [show (before.putSession client session).tables = before.tables from rfl,
    putSession_putSession]
  rcases loop : parseLoop before.tables sys client session.client.rxBuffer.currLen session with
    ⟨ended, after⟩
  rw [loop] at later stops
  have whole := traffic.trans later
  obtain ⟨events, trace, own⟩ := whole.trace
  have concern : ∀ event ∈ events, Concerns client record.fd event :=
    fun event member => Or.inl (own event member).2
  cases ended with
  | waiting => exact ⟨⟨events, trace, concern⟩, nofun⟩
  | stopped stop =>
      refine ⟨⟨events, trace, concern⟩, fun other same => ?_⟩
      cases same
      obtain ⟨early, before', _⟩ := traffic.trace
      exact (stops stop rfl).earlier before'
  | disconnect =>
      have quiet : Quiet before (before.putSession client after) :=
        quiet_putSession live whole.id whole.fd whole.quiet
      have removal := (agreed.quiet quiet).removeClient (putSession_heap before client after)
      simp only [removal]
      refine ⟨⟨events ++ (.removed client :: closeOnDelete after.client.fd ++ [.readFreed client]),
        ?_, fun event member => ?_⟩, nofun⟩
      · show (after.trace ++ _) ++ [.readFreed client] = _
        rw [trace, List.append_assoc, List.append_assoc]
        rfl
      · rcases List.mem_append.mp member with early | late
        · exact concern event early
        rcases List.mem_append.mp late with deletion | freed
        · rw [show after.client.fd = record.fd from whole.fd] at deletion
          exact concerns_deletion event deletion
        · exact Or.inr (Or.inr (List.mem_singleton.mp freed))

theorem handleMultipleClientRequests_turn {master fd : Fd} {server : HwioServer World}
    (agreed : Agreed master server) {client : ClientPtr}
    (entry : server.fdToClient.lookup fd = some client) (known : Known tables start server) :
    Turn tables start client fd server (handleMultipleClientRequests sys fd server) := by
  obtain ⟨record, live, rfl⟩ := agreed.entry_record fd client entry
  have traffic := readFromSocket_traffic sys client (server.session record)
  have owner : clientOf sys record.fd server = (.ok client, server) := by
    simp only [clientOf, entry]
  have received := @Move.received _ sys server client record live
  simp only [handleMultipleClientRequests, owner, live, if_pos]
  rcases reading : readFromSocket sys client (server.session record) with ⟨came, session⟩
  rw [reading] at traffic received
  cases came with
  | true => exact parseMsgs_turn agreed live traffic (Move.known (received rfl) known)
  | false =>
      obtain ⟨events, trace, own⟩ := traffic.trace
      have quiet : Quiet server (server.putSession client session) :=
        quiet_putSession live traffic.id traffic.fd traffic.quiet
      have removal := (agreed.quiet quiet).removeClient (putSession_heap server client session)
      rw [show session.client.fd = record.fd from traffic.fd] at removal
      simp only [removal]
      refine ⟨⟨events ++ .removed client :: closeOnDelete session.client.fd, ?_,
        fun event member => ?_⟩, by simp⟩
      · show session.trace ++ _ = _
        rw [trace, List.append_assoc]
        rfl
      · rcases List.mem_append.mp member with early | deletion
        · exact Or.inl (own event early).2
        · rw [show session.client.fd = record.fd from traffic.fd] at deletion
          exact concerns_deletion event deletion

/-- The visit of a client's descriptor: nothing, or the report and what concerns
the client alone. -/
theorem visit_turn {master fd : Fd} {server : HwioServer World} (agreed : Agreed master server)
    (isMaster : server.masterSocket = master) {client : ClientPtr}
    (entry : server.fdToClient.lookup fd = some client) (known : Known tables start server)
    (revents : UInt16) :
    (revents = 0 ∧ visit sys fd revents server = (.ok (), server)) ∨
      Turn tables start client fd (note (.visited fd) server) (visit sys fd revents server) := by
  have valid := agreed.valid fd (AList.lookup_isSome.mp (by rw [entry]; rfl))
  have agreed' := agreed.quiet (quiet_note server (show ¬ Life (.visited fd) from id))
  have other : ¬ fd = (note (.visited fd) server).masterSocket := by
    show ¬ fd = server.masterSocket
    rw [isMaster]
    exact valid.2
  unfold visit
  by_cases idle : revents = 0
  · exact Or.inl ⟨idle, if_pos (Or.inr idle)⟩
  right
  rw [if_neg (not_or.mpr ⟨Int.not_lt.mpr valid.1, idle⟩)]
  simp only [if_neg other]
  split
  · obtain ⟨record, live, rfl⟩ := agreed.entry_record fd client entry
    simp only [agreed'.removeClient live]
    exact ⟨⟨_, rfl, concerns_deletion⟩, nofun⟩
  · have moved : Move sys server .idle .idle (note (.visited fd) server) := .noted _ trivial
    exact handleMultipleClientRequests_turn agreed' entry (Move.known moved known)

/-! ## Passes -/

theorem Moves.appends {before after : HwioServer World} {mode mode' : Mode}
    (moves : Moves sys (mode, before) (mode', after)) :
    ∃ events, after.trace = before.trace ++ events := by
  refine @Moves.invariant _ sys (mode, before) (mode', after)
    (fun _ server => ∃ events, server.trace = before.trace ++ events) moves
    ⟨[], (List.append_nil _).symm⟩ ?_
  intro between last _ _ move appended
  obtain ⟨events, trace⟩ := appended
  obtain ⟨more, trace', _⟩ := Move.appends move
  exact ⟨events ++ more, by rw [trace', trace, List.append_assoc]⟩

/-- Visits of some descriptors of clients. -/
structure Visits (tables : Tables World) (start : Service World) (ready : List (Fd × UInt16))
    (before : HwioServer World) (ran : Ran World Unit) : Prop where
  own : Justified InOwnVisit ran.2.trace
  stopped : ∀ stop, ran.1 = .error stop → LeftSince tables start stop before.trace ran.2.trace
  served : ran.1 = .ok () → ∀ fd revents, (fd, revents) ∈ ready → revents ≠ 0 →
    ∃ events, ran.2.trace = before.trace ++ events ∧ .visited fd ∈ events

theorem Turn.own {client : ClientPtr} {fd : Fd} {server : HwioServer World}
    {ran : Ran World Unit} (turn : Turn tables start client fd (note (.visited fd) server) ran)
    (made : .created client fd ∈ server.trace) (own : Justified InOwnVisit server.trace) :
    Justified InOwnVisit ran.2.trace := by
  obtain ⟨events, trace, concern⟩ := turn.trace
  rw [trace, show (note (.visited fd) server).trace = server.trace ++ [.visited fd] from rfl,
    List.append_assoc, List.singleton_append]
  exact inOwnVisit_append own made concern

theorem visitAll_visits (freed : ∀ history fd, sys.freedFd history fd = fd) {master : Fd}
    {rest : List Fd} {server : HwioServer World} (polled : Polled master rest server)
    (known : Known tables start server) (own : Justified InOwnVisit server.trace)
    (ready : List (Fd × UInt16)) (distinct : (ready.map Prod.fst).Nodup)
    (entries : ∀ fd ∈ ready.map Prod.fst, fd ∈ server.fdToClient) :
    Visits tables start ready server (visitAll sys ready server) := by
  induction ready generalizing server with
  | nil =>
      refine ⟨own, fun stop stopped => ?_, fun _ fd revents member => ?_⟩
      · cases stopped
      · cases member
  | cons head later inductionHypothesis =>
      obtain ⟨fd, revents⟩ := head
      have here : fd ∈ server.fdToClient := entries fd List.mem_cons_self
      obtain ⟨client, entry⟩ := Option.isSome_iff_exists.mp (AList.lookup_isSome.mpr here)
      obtain ⟨record, live, rfl⟩ := polled.agreed.entry_record fd client entry
      have made := (polled.agreed.made client record live).1
      have outcome := visit_outcome freed polled.agreed polled.masterSocket here revents
      have moves := visit_moves sys record.fd revents server
      have turn := @visit_turn _ tables start sys _ _ _ polled.agreed polled.masterSocket client
        entry known revents
      have own' : Justified InOwnVisit (visit sys record.fd revents server).2.trace := by
        rcases turn with ⟨_, idle⟩ | turn
        · rw [idle]
          exact own
        · exact turn.own made own
      have reported : revents ≠ 0 → ∃ events,
          (visit sys record.fd revents server).2.trace = server.trace ++ events ∧
            .visited record.fd ∈ events := by
        intro ready
        rcases turn with ⟨idle, _⟩ | turn
        · exact absurd idle ready
        · obtain ⟨events, trace, _⟩ := turn.trace
          refine ⟨.visited record.fd :: events, ?_, List.mem_cons_self⟩
          rw [trace]
          exact List.append_assoc ..
      have left : ∀ stop, (visit sys record.fd revents server).1 = .error stop →
          LeftSince tables start stop server.trace
            (visit sys record.fd revents server).2.trace := by
        intro stop stopped
        rcases turn with ⟨_, idle⟩ | turn
        · rw [idle] at stopped
          cases stopped
        · exact (turn.stopped stop stopped).earlier rfl
      rw [visitAll]
      rcases visiting : visit sys record.fd revents server with ⟨result, between⟩
      rw [visiting] at outcome moves own' reported left
      cases result with
      | error stop => exact ⟨own', left, by simp⟩
      | ok done =>
          have visited : Visited master record.fd server between := outcome
          have fresh := List.nodup_cons.mp distinct
          have polled' := visited.polled polled (Steps.masterSocket (Moves.steps moves))
            (polled.agreed.valid _ here).2
          have entries' : ∀ other ∈ later.map Prod.fst, other ∈ between.fdToClient := by
            intro other member
            have old := entries other (List.mem_cons_of_mem _ member)
            rcases visited.outcome with ⟨_, kept⟩ | ⟨_, kept⟩
            · exact (kept other).mpr old
            · refine (kept other).mpr ⟨?_, old⟩
              rintro rfl
              exact fresh.1 member
          have visits := inductionHypothesis polled' (Moves.known moves known) own' fresh.2 entries'
          obtain ⟨early, trace⟩ := Moves.appends moves
          obtain ⟨late, trace'⟩ := Moves.appends (visitAll_moves sys later between)
          simp only
          refine ⟨visits.own, fun stop stopped => (visits.stopped stop stopped).earlier trace,
            fun returned other bits member ready => ?_⟩
          rcases List.mem_cons.mp member with same | behind
          · cases same
            obtain ⟨events, trace'', inside⟩ := reported ready
            refine ⟨events ++ late, ?_, List.mem_append_left _ inside⟩
            rw [trace', show between.trace = _ from trace'', List.append_assoc]
          · obtain ⟨events, trace'', inside⟩ := visits.served returned other bits behind ready
            refine ⟨early ++ events, ?_, List.mem_append_right _ inside⟩
            rw [trace'', trace, List.append_assoc]

/-- A call that the poll loop itself makes fails, or its own socket is in error. -/
def LoopFault (sys : Sys) (server : HwioServer World) : Prop :=
  (∃ errno, sys.ppoll server.trace server.pollFds = .failed errno) ∨
    ∃ revents, sys.ppoll server.trace server.pollFds = .ready revents ∧
      (Broken (revents 0) ∨
        revents 0 ≠ 0 ∧ sys.accept (server.trace ++ [.visited server.masterSocket]) = none)

/-- The visit of the master socket stops at such a fault only. -/
theorem loopFault_of_visit {master : Fd} {rest : List Fd} {server : HwioServer World}
    (polled : Polled master rest server) {revents : Nat → UInt16}
    (polling : sys.ppoll server.trace server.pollFds = .ready revents) {stop : Stop}
    (stopped : (visit sys master (revents 0) server).1 = .error stop) : LoopFault sys server := by
  rcases @visit_master_cases _ sys _ _ _ polled (revents 0) with
    idle | ⟨exn, failed, reason⟩ | ⟨socket, _, ran⟩
  · rw [idle] at stopped
    cases stopped
  · rw [← polled.masterSocket] at reason
    exact Or.inr ⟨revents, polling, reason⟩
  · rw [ran] at stopped
    cases stopped

/-- No connection acts in this visit but one that is made. -/
theorem visit_master_own {master : Fd} {rest : List Fd} {server : HwioServer World}
    (polled : Polled master rest server) (own : Justified InOwnVisit server.trace)
    (revents : UInt16) : Justified InOwnVisit (visit sys master revents server).2.trace := by
  have added : ∀ events, (∀ event ∈ events, ∀ client, actor event = some client →
      ∃ fd, event = .created client fd) → Justified InOwnVisit (server.trace ++ events) := by
    intro events bystanders
    apply own.append_free
    exact fun event member front => inOwnVisit_of_bystander (bystanders event member)
  rcases @visit_master_cases _ sys _ _ _ polled revents with
    idle | ⟨exn, failed, _⟩ | ⟨socket, _, ran⟩
  · rw [idle]
    exact own
  · rw [failed]
    refine added [.visited master] fun event member client acts => ?_
    rw [List.mem_singleton.mp member] at acts
    cases acts
  · rw [ran]
    have trace : (connect sys socket (note (.visited master) server)).trace = server.trace ++
        [.visited master, .accepted socket, .created server.nextClient socket] := by
      rw [connect_trace]
      exact List.append_assoc ..
    show Justified InOwnVisit (connect sys socket (note (.visited master) server)).trace
    rw [trace]
    refine added _ fun event member client acts => ?_
    simp only [List.mem_cons, List.not_mem_nil, or_false] at member
    rcases member with rfl | rfl | rfl
    · cases acts
    · cases acts
    · cases acts
      exact ⟨socket, rfl⟩

theorem poolClientMsgs_visits (freed : ∀ history fd, sys.freedFd history fd = fd) {master : Fd}
    {rest : List Fd} {server : HwioServer World} (consistent : Consistent master rest server)
    (known : Known tables start server) (own : Justified InOwnVisit server.trace) :
    let ran := poolClientMsgs sys server
    Justified InOwnVisit ran.2.trace ∧
      (∀ stop, ran.1 = .error stop →
        LoopFault sys server ∨ LeftSince tables start stop server.trace ran.2.trace) ∧
      (ran.1 = .ok () → ∀ revents, sys.ppoll server.trace server.pollFds = .ready revents →
        ∀ (index : Nat) fd, server.pollFds[index]? = some fd → fd ≠ master → revents index ≠ 0 →
          ∃ events, ran.2.trace = server.trace ++ events ∧ .visited fd ∈ events) := by
  have polled := consistent.polled
  intro ran
  unfold ran poolClientMsgs
  cases polling : sys.ppoll server.trace server.pollFds with
  | timeout => exact ⟨own, by simp, by simp⟩
  | interrupted => exact ⟨own, by simp, by simp⟩
  | failed errno => exact ⟨own, fun stop _ => Or.inl (Or.inl ⟨errno, polling⟩), by simp⟩
  | ready revents =>
      simp only [polled.pollFds, List.mapIdx_cons, visitAll]
      have outcome := @visit_master_outcome _ sys _ _ _ polled consistent.unqueued (revents 0)
      have moves := visit_moves sys master (revents 0) server
      have own' := @visit_master_own _ sys _ _ _ polled own (revents 0)
      have fault := @loopFault_of_visit _ sys _ _ _ polled revents polling
      rcases visiting : visit sys master (revents 0) server with ⟨result, between⟩
      rw [visiting] at outcome moves own' fault
      cases result with
      | error stop => exact ⟨own', fun other _ => Or.inl (fault rfl), by simp⟩
      | ok done =>
          obtain ⟨unqueued, more, early, polled', trace, _⟩ := outcome
          have fds := polled_fds rest fun index => revents (index + 1)
          have visits := visitAll_visits freed polled' (Moves.known moves known) own'
            (rest.mapIdx fun index fd => (fd, revents (index + 1)))
            (by rw [fds]; exact polled.distinct) (by
              rw [fds]
              intro fd member
              rw [polled'.entries, unqueued]
              exact ⟨List.mem_append_left _ member, List.not_mem_nil⟩)
          simp only
          rcases goingOn : visitAll sys (rest.mapIdx fun index fd => (fd, revents (index + 1)))
            between with ⟨result, last⟩
          rw [goingOn] at visits
          cases result with
          | error stop =>
              exact ⟨visits.own, fun other same => Or.inr ((visits.stopped other same).earlier trace),
                by simp⟩
          | ok done =>
              refine ⟨visits.own, by simp, fun _ bits same index fd listed other ready => ?_⟩
              cases same
              cases index with
              | zero => exact absurd (Option.some.inj listed).symm other
              | succ index =>
                  have member : (fd, revents (index + 1)) ∈
                      rest.mapIdx fun index fd => (fd, revents (index + 1)) := by
                    refine List.mem_of_getElem? (i := index) ?_
                    rw [List.getElem?_mapIdx, show rest[index]? = some fd from listed]
                    rfl
                  obtain ⟨events, trace', inside⟩ := visits.served rfl fd _ member ready
                  refine ⟨early ++ events, ?_, List.mem_append_right _ inside⟩
                  show last.trace = _
                  rw [trace', trace, List.append_assoc]

/-! ## Failures that stay with their connection -/

/-- The ways in which a pass is left that are not run-time errors of the calls
of a request: a call of the poll loop itself, the assertion of a lookup, and
exceptions of other types. -/
def LeftOtherwise (sys : Sys) (server : HwioServer World) (stop : Stop) : Prop :=
  LoopFault sys server ∨ stop = .aborted .deviceLookupResp ∨
    ∃ exn, stop = .thrown exn ∧ exn.isRuntimeError = false

/-- The call of a frame that throws a run-time error is made under `catch`. -/
def Caught (tables : Tables World) (start : Service World) (front : List Event) (event : Event) :
    Prop :=
  ∀ call exn, failingIn tables start front event = some (call, exn) → exn.isRuntimeError = true →
    call.caught = true

instance (tables : Tables World) (start : Service World) (front : List Event) (event : Event) :
    Decidable (Caught tables start front event) :=
  match failed : failingIn tables start front event with
  | none => isTrue fun call exn same => by
      rw [failed] at same
      cases same
  | some (call, exn) =>
    decidable_of_iff (exn.isRuntimeError = true → call.caught = true) (by
      unfold Caught
      rw [failed]
      constructor
      · intro caught other thrown same
        cases same
        exact caught
      · exact fun caught => caught call exn rfl)

/-- A frame was answered with an I/O error, and its connection removed at once. -/
structure Ejected (tables : Tables World) (start : Service World) (sys : Sys)
    (history : List Event) (client : ClientPtr) (header : HwioPacketHeader) (rx : List Byte)
    (back : List Event) (last : HwioServer World) : Prop where
  error : errorCode (replyBytes (handleMsg tables header
    ((start.after tables history).request client rx))) = some HwioServerError.ioError.code
  answered : let answer := handleMsg tables header ((start.after tables history).request client rx)
    ∃ sent rest,
      back = answer.2.calls.map (.called client) ++
        (sent ++ .handled client true :: .removed client :: rest) ∧
      (∀ event ∈ sent, ∃ part, event = .sent client part) ∧ sentIn sent <+: replyBytes answer ∧
      (Sends sys → sentIn sent = replyBytes answer) ∧
      ∀ event ∈ rest, actor event = some client → event = .removed client
  gone : last.heap client = none

/-- A pass that no run-time error of a call of a request leaves, and what
becomes of the connections of these requests and of all others. -/
structure Contained (tables : Tables World) (start : Service World) (master : Fd) (sys : Sys)
    (server : HwioServer World) : Prop where
  returns : ∀ stop, (poolClientMsgs sys server).1 = .error stop → LeftOtherwise sys server stop
  ejected : ∀ front client offset header rx back call exn,
    (poolClientMsgs sys server).2.trace =
      server.trace ++ (front ++ .dispatched client offset header rx :: back) →
    failingIn tables start (server.trace ++ front) (.dispatched client offset header rx) =
      some (call, exn) → exn.isRuntimeError = true →
    Ejected tables start sys (server.trace ++ front) client header rx back
      (poolClientMsgs sys server).2
  own : Justified InOwnVisit (poolClientMsgs sys server).2.trace
  served : (poolClientMsgs sys server).1 = .ok () → ∀ revents,
    sys.ppoll server.trace server.pollFds = .ready revents →
    ∀ (index : Nat) fd, server.pollFds[index]? = some fd → fd ≠ master → revents index ≠ 0 →
      ∃ events, (poolClientMsgs sys server).2.trace = server.trace ++ events ∧
        .visited fd ∈ events
  consistent : (poolClientMsgs sys server).1 = .ok () →
    ∃ rest, Consistent master rest (poolClientMsgs sys server).2

/-- Where the exception of a failing call is not caught, it leaves `handle_msg`. -/
theorem handles_cases {world : World} {answer : Handled World} (handles : Handles tables world answer)
    {call : Call} {exn : Exn} (failed : failing tables answer.2.calls world = some (call, exn))
    (isRuntimeError : exn.isRuntimeError = true) :
    (call.caught = true ∧ ∃ (left : Ctx World) (msg : Text), answer = left.sendErr .ioError msg) ∨
      (call.caught = false ∧ answer.1 = .error (.thrown exn)) := by
  unfold Handles at handles
  rw [failed] at handles
  cases caught : call.caught with
  | true =>
      simp only [caught, isRuntimeError, and_self, if_true] at handles
      exact Or.inl ⟨rfl, handles⟩
  | false =>
      simp only [caught, Bool.false_eq_true, false_and, if_false] at handles
      exact Or.inr ⟨rfl, handles⟩

/-- A run-time error that leaves `handle_msg` comes from a call without `catch`. -/
theorem handles_left {world : World} {answer : Handled World} (handles : Handles tables world answer)
    {exn : Exn} (left : answer.1 = .error (.thrown exn)) (isRuntimeError : exn.isRuntimeError = true) :
    ∃ call, failing tables answer.2.calls world = some (call, exn) ∧ call.caught = false := by
  unfold Handles at handles
  cases failed : failing tables answer.2.calls world with
  | none =>
      rw [failed] at handles
      exact absurd left (handles exn)
  | some threw =>
      obtain ⟨call, other⟩ := threw
      rw [failed] at handles
      simp only at handles
      split at handles
      next =>
        obtain ⟨reply, msg, rfl⟩ := handles
        cases left
      next uncaught =>
        cases handles.symm.trans left
        refine ⟨call, rfl, ?_⟩
        cases caught : call.caught with
        | false => rfl
        | true => exact absurd ⟨caught, isRuntimeError⟩ uncaught

/-- A frame that is not caught leaves nothing that an ejection could answer. -/
theorem caught_of_ejected {history : List Event} {client : ClientPtr} {offset : Nat}
    {header : HwioPacketHeader} {rx : List Byte} {back : List Event} {last : HwioServer World}
    {call : Call} {exn : Exn}
    (failed : failingIn tables start history (.dispatched client offset header rx) =
      some (call, exn)) (isRuntimeError : exn.isRuntimeError = true)
    (ejected : Ejected tables start sys history client header rx back last) :
    call.caught = true := by
  have handles := handleMsg_handles tables header
    (show ((start.after tables history).request client rx).calls = [] from rfl)
  rcases handles_cases handles failed isRuntimeError with ⟨caught, _⟩ | ⟨_, threw⟩
  · exact caught
  · have error := ejected.error
    rcases handling : handleMsg tables header ((start.after tables history).request client rx) with
      ⟨result, left⟩
    rw [handling] at error threw
    simp only at threw
    subst threw
    have none : errorCode (replyBytes ((.error (.thrown exn), left) : Handled World)) = none :=
      (by decide : errorCode [] = none)
    rw [none] at error
    cases error

/-- A frame whose failing call is caught is answered and its connection removed. -/
theorem ejected_of_caught {server last : HwioServer World}
    (moved : Moves sys (.idle, server) (.idle, last)) (known : Known tables start server)
    (answers : Explained (Answers tables start) last.trace)
    (ended : Ended .idle last) (removed : Explained (RemovedNext .idle) last.trace)
    {front back : List Event} {client : ClientPtr} {offset : Nat} {header : HwioPacketHeader}
    {rx : List Byte} {call : Call} {exn : Exn}
    (split : last.trace = server.trace ++ (front ++ .dispatched client offset header rx :: back))
    (failed : failingIn tables start (server.trace ++ front)
      (.dispatched client offset header rx) = some (call, exn))
    (isRuntimeError : exn.isRuntimeError = true) (caught : call.caught = true) :
    Ejected tables start sys (server.trace ++ front) client header rx back last := by
  have handles := handleMsg_handles tables header
    (show ((start.after tables (server.trace ++ front)).request client rx).calls = [] from rfl)
  rcases handles_cases handles failed isRuntimeError with ⟨_, left, msg, reply⟩ | ⟨uncaught, _⟩
  case inr => rw [caught] at uncaught; cases uncaught
  have whole : last.trace = (server.trace ++ front) ++ .dispatched client offset header rx :: back := by
    rw [split, List.append_assoc]
  have ok : (handleMsg tables header
      ((start.after tables (server.trace ++ front)).request client rx)).1 =
        .ok ⟨true, sizeofErrMsg⟩ := by
    rw [reply]
    rfl
  obtain ⟨sent, disconnect, rest, behind, onlySent, sentFront, decided⟩ :=
    answers _ _ _ whole _ ok
  have ends : disconnect = true := by
    cases disconnect with
    | true => rfl
    | false => cases (decided.mp rfl).1
  subst ends
  obtain ⟨before, handled⟩ : ∃ before, last.trace = before ++ .handled client true :: rest := by
    refine ⟨((server.trace ++ front) ++ .dispatched client offset header rx ::
      (handleMsg tables header ((start.after tables (server.trace ++ front)).request client
        rx)).2.calls.map (.called client)) ++ sent, ?_⟩
    rw [whole, behind]
    simp
  obtain ⟨later, rfl⟩ : ∃ later, rest = .removed client :: later := by
    rcases removed _ _ _ handled client rfl with ⟨_, doomed⟩ | next
    · cases doomed
    · exact next
  have replied : replyBytes (handleMsg tables header
      ((start.after tables (server.trace ++ front)).request client rx)) =
        load (handleMsg tables header
          ((start.after tables (server.trace ++ front)).request client rx)).2.tx 0 sizeofErrMsg := by
    rw [reply]
    rfl
  exact {
    error := by
      rw [reply]
      exact errorCode_sendErr left .ioError msg
    answered := by
      refine ⟨sent, later, behind, onlySent, replied ▸ sentFront, fun sends => ?_, ?_⟩
      · obtain ⟨events, appended, delivered⟩ := Moves.delivered sends moved known
        have same := List.append_cancel_left (appended.symm.trans split)
        obtain ⟨sent', disconnect', rest', behind', onlySent', all⟩ :=
          delivered front _ back same _ ok
        have parts := List.append_cancel_left (behind.symm.trans behind')
        rw [sent_unique onlySent onlySent' parts]
        exact all
      · intro event member acts
        obtain ⟨first, second, divided⟩ := List.append_of_mem member
        refine ended.silent (before ++ .handled client true :: .removed client :: first) event second
          ?_ client acts (by simp)
        rw [handled, divided]
        simp
    gone := by
      cases live : last.heap client with
      | none => rfl
      | some record =>
          have member : .handled client true ∈ last.trace := by
            rw [handled]
            exact List.mem_append_right _ List.mem_cons_self
          cases ended.gone client record live member }

/-- Runs whose passes are left by nothing but run-time errors of calls, where
the descriptor queued behind a removed client is that client's. -/
inductive Undisturbed (start : HwioServer World) : HwioServer World → Prop
  | start : Undisturbed start start
  | pass {server : HwioServer World} (before : Undisturbed start server) (sys : Sys)
      (freed : ∀ history fd, sys.freedFd history fd = fd)
      (undisturbed : ∀ stop, (poolClientMsgs sys server).1 = .error stop →
        ¬ LeftOtherwise sys server stop) :
      Undisturbed start (poolClientMsgs sys server).2

theorem Served.reached {start server : HwioServer World} (served : Served start server) :
    Reached start server := by
  induction served with
  | start => exact .start
  | pass _ sys _ returned reached =>
      have passed := Reached.pass reached sys
      rw [returned] at passed
      exact passed

/-- Connections act in visits of their own, in every run of passes that return. -/
theorem Served.own {tables : Tables World} {master : Fd} {tx : List Byte} {world : World}
    {server : HwioServer World} (served : Served (prepared tables master tx world) server) :
    Justified InOwnVisit server.trace := by
  induction served with
  | start => exact justified_singleton (inOwnVisit_of_bystander nofun)
  | pass before sys freed returned own =>
      obtain ⟨rest, consistent⟩ := before.consistent
      have visits := poolClientMsgs_visits freed consistent before.reached.known own
      rw [returned] at visits
      exact visits.1

theorem Reached.removedNext {tables : Tables World} {master : Fd} {tx : List Byte}
    {world : World} {server : HwioServer World}
    (reached : Reached (prepared tables master tx world) server) :
    Explained (RemovedNext .idle) server.trace := by
  have kept := @Reached.moving _ _ _ (fun mode server =>
    Known tables (prepared tables master tx world).service server ∧
      Explained (RemovedNext mode) server.trace) reached
  refine (kept ⟨Reached.known .start, ?_⟩ ?_).2
  · intro front event back split client handled
    rcases List.singleton_eq_append_iff.mp split with ⟨_, same⟩ | ⟨_, none⟩
    · rw [handled] at same
      cases same
    · cases none
  · intro sys before after mode mode' move kept
    exact ⟨Move.known move kept.1, Move.removedNext move kept.1 kept.2⟩

/-- A pass is contained just when the failing calls of its requests are caught. -/
theorem contained_iff {tables : Tables World} {master : Fd} {tx : List Byte} {world : World}
    {server : HwioServer World} (served : Served (prepared tables master tx world) server)
    {sys : Sys} (freed : ∀ history fd, sys.freedFd history fd = fd) :
    Contained tables (prepared tables master tx world).service master sys server ↔
      ∀ front event back, (poolClientMsgs sys server).2.trace =
        server.trace ++ (front ++ event :: back) →
          Caught tables (prepared tables master tx world).service (server.trace ++ front) event := by
  obtain ⟨rest, consistent⟩ := served.consistent
  have known := served.reached.known
  have reached := Reached.pass served.reached sys
  constructor
  · intro contained front event back split call exn failed isRuntimeError
    cases event with
    | dispatched client offset header rx =>
        exact caught_of_ejected failed isRuntimeError
          (contained.ejected front client offset header rx back call exn split failed isRuntimeError)
    | _ => cases failed
  · intro caught
    obtain ⟨own, left, visited⟩ := poolClientMsgs_visits freed consistent known served.own
    have ends := poolClientMsgs_outcome freed consistent
    obtain ⟨answers, ended⟩ := reached.answers_ended
    exact {
      returns := by
        intro stop stopped
        rcases left stop stopped with fault | ⟨front, event, back, split, leaves⟩
        · exact Or.inl fault
        right
        cases event with
        | dispatched client offset header rx =>
            rcases handleMsg_escapes tables header _ stop leaves with ⟨exn, rfl⟩ | assertion
            · right
              refine ⟨exn, rfl, ?_⟩
              cases isRuntimeError : exn.isRuntimeError with
              | false => rfl
              | true =>
                  have handles := handleMsg_handles tables header (show Ctx.calls
                    (((prepared tables master tx world).service.after tables
                      (server.trace ++ front)).request client rx) = [] from rfl)
                  obtain ⟨call, failed, uncaught⟩ := handles_left handles leaves isRuntimeError
                  rw [caught front _ back split call exn failed isRuntimeError] at uncaught
                  cases uncaught
            · exact Or.inl assertion
        | _ => exact absurd leaves id
      ejected := by
        intro front client offset header rx back call exn split failed isRuntimeError
        exact ejected_of_caught (poolClientMsgs_moves sys server) known answers ended
          reached.removedNext split failed isRuntimeError
          (caught front _ back split call exn failed isRuntimeError)
      own := own
      served := visited
      consistent := by
        intro returned
        unfold Ends at ends
        rw [returned] at ends
        obtain ⟨left, _, consistent', _⟩ := ends
        exact ⟨left, consistent'⟩ }

/-- In every run that is left by nothing but run-time errors of calls: when
these are caught, every pass returned.  In every state after passes that
returned: the next pass is contained just when those of its own requests are. -/
theorem failing_calls_contained_iff {tables : Tables World} {master : Fd} {tx : List Byte}
    {world : World} {server : HwioServer World} :
    let start := prepared tables master tx world
    (Undisturbed start server → Justified (Caught tables start.service) server.trace →
      Served start server) ∧
    (Served start server → ∀ sys : Sys, (∀ history fd, sys.freedFd history fd = fd) →
      (Contained tables start.service master sys server ↔
        ∀ front event back, (poolClientMsgs sys server).2.trace =
          server.trace ++ (front ++ event :: back) →
            Caught tables start.service (server.trace ++ front) event)) := by
  intro start
  refine ⟨fun undisturbed caught => ?_, fun served sys freed => contained_iff served freed⟩
  induction undisturbed with
  | start => exact .start
  | @pass server before sys freed undisturbed inductionHypothesis =>
      obtain ⟨events, trace⟩ := Moves.appends (poolClientMsgs_moves sys server)
      rw [trace] at caught
      obtain ⟨early, late⟩ := (justified_append_iff _ _).mp caught
      have served := inductionHypothesis early
      have contained := (contained_iff served freed).mpr fun front event back split =>
        late front event back (List.append_cancel_left (trace.symm.trans split))
      rcases ran : poolClientMsgs sys server with ⟨result, after⟩
      cases result with
      | error stop =>
          have stopped : (poolClientMsgs sys server).1 = .error stop := by rw [ran]
          exact absurd (contained.returns stop stopped) (undisturbed stop stopped)
      | ok done => exact .pass served sys freed ran

/-- The server of `oneDevice` when the device can be attached only. -/
def deadDevice : Tables Unit :=
  { oneDevice with
    device := fun _ =>
      { attach := fun world => (none, world)
        read := fun _ _ world => (⟨[], some ⟨true, text "bus error"⟩⟩, world)
        write := fun _ _ world => (some ⟨true, text "bus error"⟩, world)
        read_le := fun _ _ _ => Nat.zero_le _
        read_all := nofun } }

/-- The server on which the client of `loneClient` is connected. -/
def loneConnected (tables : Tables World) (tx : List Byte) (world : World) (bytes : List Byte) :
    HwioServer World :=
  (poolClientMsgs (loneClient bytes) (prepared tables 3 tx world)).2

/-- A READ of four bytes that the device fails. -/
theorem failing_read_contained :
    let bytes := queryFrame ++ [1, 8, 0, 0, 0, 0, 0, 0, 0, 4, 0]
    Contained deadDevice (prepared deadDevice 3 [] ()).service 3 (loneClient bytes)
      (loneConnected deadDevice [] () bytes) := by
  intro bytes
  have served : Served (prepared deadDevice 3 [] ()) (loneConnected deadDevice [] () bytes) :=
    .pass .start (loneClient bytes) (fun _ _ => rfl)
      (Prod.ext (by decide +kernel) rfl)
  have caught : Justified (Caught deadDevice (prepared deadDevice 3 [] ()).service)
      (poolClientMsgs (loneClient bytes) (loneConnected deadDevice [] () bytes)).2.trace := by
    decide +kernel
  refine (failing_calls_contained_iff.2 served (loneClient bytes) fun _ _ => rfl).mpr ?_
  intro front event back split
  refine caught _ event back ?_
  rw [split, List.append_assoc]

/-- A WRITE of one byte that the device fails: the exception leaves the pass,
nothing more is sent, and the client stays. -/
theorem failing_write_escapes :
    let bytes := queryFrame ++ [3, 9, 0, 0, 0, 0, 0, 0, 0, 1, 0, 7]
    let connected := loneConnected deadDevice [] () bytes
    let ran := poolClientMsgs (loneClient bytes) connected
    Served (prepared deadDevice 3 [] ()) connected ∧
      ran.1 = .error (.thrown ⟨true, text "bus error"⟩) ∧
      ran.2.trace = ran.2.trace.take 11 ++
        [.dispatched 0 399 ⟨3, 9⟩ [0, 0, 0, 0, 0, 0, 1, 0, 7], .called 0 (.write 0 0 [7])] ∧
      failingIn deadDevice (prepared deadDevice 3 [] ()).service (ran.2.trace.take 11)
        (.dispatched 0 399 ⟨3, 9⟩ [0, 0, 0, 0, 0, 0, 1, 0, 7]) =
          some (.write 0 0 [7], ⟨true, text "bus error"⟩) ∧
      (ran.2.heap 0).isSome ∧ 4 ∈ ran.2.pollFds := by
  intro bytes connected ran
  refine ⟨.pass .start (loneClient bytes) (fun _ _ => rfl) (Prod.ext (by decide +kernel) rfl), ?_,
    ?_, ?_, ?_, ?_⟩
  · decide +kernel
  · decide +kernel
  · decide +kernel
  · decide +kernel
  · decide +kernel

end HwioServer

end Hwio
