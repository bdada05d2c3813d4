import Hwio.Server.Containment

/-!
Contract: the frames that end their connection.

Owns the kinds of these frames, told from what is asked and what the system
answers, and their agreement with the handlings that a pass notes.

Does not own what a pass does to a connection that ends.
-/

namespace Hwio

open Library

variable {World : Type}

/-! ## The frames that end a connection -/

/-- Some `send` fails for what is left of a reply. -/
inductive SendFails (sys : Sys) (fd : Fd) (client : ClientPtr) : List Byte → List Event → Prop
  | now {bytes : List Byte} {history : List Event} (left : bytes ≠ [])
      (failed : sys.send history fd bytes = .failed) : SendFails sys fd client bytes history
  | later {bytes : List Byte} {history : List Event} {count : Nat} (left : bytes ≠ [])
      (accepted : sys.send history fd bytes = .sent count)
      (rest : SendFails sys fd client (bytes.drop count)
        (history ++ [.sent client (bytes.take count)])) : SendFails sys fd client bytes history

/-- A frame that ends its connection, with the history in front of it: it is
BYE, it is answered with an error, or its reply cannot be sent. -/
def EndsIn (tables : Tables World) (start : Service World) (sys : Sys) (front : List Event) :
    Event → Prop
  | .dispatched client offset header rx =>
    let answer := handleMsg tables header ((start.after tables front).request client rx)
    ∃ res, answer.1 = .ok res ∧
      (header.command = HwioCmd.bye.code ∨ errorCode (replyBytes answer) ≠ none ∨
        ∃ fd, .created client fd ∈ front ∧ SendFails sys fd client (replyBytes answer)
          (front ++ .dispatched client offset header rx :: answer.2.calls.map (.called client)))
  | _ => False

/-- An answer that asks for the disconnect reports an error. -/
def Polite (answer : Handled World) : Prop :=
  ∀ res, answer.1 = .ok res → res.disconnect = true → errorCode (replyBytes answer) ≠ none

theorem polite_sendErr (ctx : Ctx World) (errCode : HwioServerError) (msg : Text) :
    Polite (ctx.sendErr errCode msg) := by
  intro res _ _
  rw [errorCode_sendErr]
  exact Option.some_ne_none _

theorem polite_stays (txSize : Nat) (ctx : Ctx World) :
    Polite (.ok ⟨false, txSize⟩, ctx) := by
  intro res same disconnect
  cases same
  cases disconnect

theorem polite_error (stop : Stop) (ctx : Ctx World) : Polite (.error stop, ctx) := by
  intro res same
  cases same

theorem callPlugin_polite (plugin : PluginInfo World) (key : PluginKey) (dev : DevPtr)
    (argsOffset : Nat) (ctx : Ctx World) : Polite (callPlugin plugin key dev argsOffset ctx) := by
  unfold callPlugin
  simp only
  split
  · split
    · exact polite_stays _ _
    · exact polite_stays _ _
  · split
    · exact polite_sendErr _ _ _
    · exact polite_error _ _

theorem handleQuery_polite (tables : Tables World) (header : HwioPacketHeader) (ctx : Ctx World) :
    Polite (handleQuery tables header ctx) := by
  have queried := handleQuery_queried tables header ctx
  generalize handleQuery tables header ctx = answer at queried ⊢
  cases queried with
  | refused code message early => exact polite_sendErr _ _ _
  | thrown onlyFind looking => exact polite_error _ _
  | stopped onlyFind looking results registered => exact polite_error _ _
  | answered onlyFind looking results registered => exact polite_stays _ _

/-- Besides BYE, only an error ends the connection. -/
theorem handleMsg_polite (tables : Tables World) {header : HwioPacketHeader} (ctx : Ctx World)
    (other : header.command ≠ HwioCmd.bye.code) : Polite (handleMsg tables header ctx) := by
  unfold handleMsg
  split
  · unfold handleFastRemoteCall
    split
    · exact polite_sendErr _ _ _
    split
    · exact polite_sendErr _ _ _
    simp only
    split
    · exact polite_sendErr _ _ _
    · exact callPlugin_polite _ _ _ _ _
  · unfold handleRead
    split
    · exact polite_sendErr _ _ _
    simp only
    split
    · exact polite_sendErr _ _ _
    split
    · exact polite_stays _ _
    · split
      · exact polite_sendErr _ _ _
      · exact polite_error _ _
  · unfold handleWrite
    split
    · exact polite_sendErr _ _ _
    simp only
    split
    · exact polite_sendErr _ _ _
    split
    · exact polite_sendErr _ _ _
    split
    · exact polite_stays _ _
    · exact polite_error _ _
  · unfold handleRemoteCall
    split
    · exact polite_sendErr _ _ _
    split
    · exact polite_sendErr _ _ _
    simp only
    split
    · exact polite_sendErr _ _ _
    · exact callPlugin_polite _ _ _ _ _
  · unfold handlePing
    split
    · exact polite_sendErr _ _ _
    · exact polite_stays _ _
  · exact handleQuery_polite tables header ctx
  · unfold handleGetRpcFnId
    split
    · exact polite_sendErr _ _ _
    simp only
    split
    · exact polite_sendErr _ _ _
    · exact polite_stays _ _
  next bye => exact absurd (HwioCmd.code_of_ofCode bye).symm other
  · exact polite_stays _ _
  · exact polite_sendErr _ _ _

theorem handleMsg_disconnect_iff (tables : Tables World) {header : HwioPacketHeader}
    {ctx : Ctx World} {res : PProcRes} (ok : (handleMsg tables header ctx).1 = .ok res) :
    res.disconnect = true ↔ header.command = HwioCmd.bye.code ∨
      errorCode (replyBytes (handleMsg tables header ctx)) ≠ none := by
  constructor
  · intro disconnect
    by_cases bye : header.command = HwioCmd.bye.code
    · exact Or.inl bye
    · exact Or.inr (handleMsg_polite tables ctx bye res ok disconnect)
  · rintro (bye | error)
    · have parted : handleMsg tables header ctx = (.ok ⟨true, 0⟩, ctx) := by
        simp only [handleMsg, bye, HwioCmd.ofCode_code]
      rw [parted] at ok
      cases ok
      rfl
    · have outcome := handleMsg_outcome tables header ctx
      generalize handleMsg tables header ctx = answer at ok error outcome
      cases outcome with
      | refused errCode msg tx early =>
          cases ok
          rfl
      | failed left msg =>
          cases ok
          rfl
      | done other left reply => exact absurd (errorCode_done reply) error
      | stopped stop left => cases ok

namespace HwioServer

theorem sendReply_fails_iff (sys : Sys) (fd : Fd) (client : ClientPtr) {fuel : Nat}
    {bytes : List Byte} (enough : bytes.length ≤ fuel) (history : List Event) :
    (sendReply sys fd client fuel bytes history).1 = false ↔
      SendFails sys fd client bytes history := by
  induction fuel generalizing bytes history with
  | zero =>
      obtain rfl := List.length_eq_zero_iff.mp (Nat.le_zero.mp enough)
      refine iff_of_false (by simp [sendReply]) fun fails => ?_
      cases fails with
      | now left failed => exact left rfl
      | later left accepted rest => exact left rfl
  | succ fuel inductionHypothesis =>
      cases bytes with
      | nil =>
          refine iff_of_false (by simp [sendReply]) fun fails => ?_
          cases fails with
          | now left failed => exact left rfl
          | later left accepted rest => exact left rfl
      | cons byte more =>
          rw [sendReply]
          cases sending : sys.send history fd (byte :: more) with
          | failed => exact iff_of_true rfl (.now (List.cons_ne_nil _ _) sending)
          | sent count =>
              have positive := sys.send_pos history fd (byte :: more) count sending
              have shorter : ((byte :: more).drop count).length ≤ fuel := by
                rw [List.length_cons] at enough
                rw [List.length_drop, List.length_cons]
                omega
              simp only
              rw [inductionHypothesis shorter]
              refine ⟨fun rest => .later (List.cons_ne_nil _ _) sending rest, fun fails => ?_⟩
              cases fails with
              | now left failed =>
                  rw [sending] at failed
                  cases failed
              | later left accepted rest =>
                  rw [sending] at accepted
                  cases accepted
                  exact rest

/-- The handling of a frame asks for the disconnect just when the frame ends
its connection. -/
theorem handleFrame_ends_iff {tables : Tables World} {start : Service World} (sys : Sys)
    {client : ClientPtr} {session : Session World}
    (request : (start.after tables session.trace).request client session.request.rx =
      session.request)
    (made : ∀ fd, .created client fd ∈ session.trace ↔ fd = session.client.fd) :
    (handleFrame tables sys client session).1 = .ok true ↔
      EndsIn tables start sys session.trace
        (.dispatched client session.client.rxBuffer.currPtr
          (HwioPacketHeader.at session.client.rxBuffer.buffer session.client.rxBuffer.currPtr)
          session.request.rx) := by
  simp only [EndsIn, request, made, exists_eq_left]
  have decided := fun res => @handleMsg_disconnect_iff _ tables
    (HwioPacketHeader.at session.client.rxBuffer.buffer session.client.rxBuffer.currPtr)
    session.request res
  unfold handleFrame
  rcases handling : handleMsg tables (HwioPacketHeader.at session.client.rxBuffer.buffer
    session.client.rxBuffer.currPtr) session.request with ⟨result, ctx⟩
  rw [handling] at decided
  simp only [handling]
  cases result with
  | error stop => simp
  | ok res =>
      have fails := sendReply_fails_iff sys session.client.fd client
        (Nat.le_of_eq (load_length ctx.tx 0 res.txSize)) (session.afterMsg client ctx).trace
      have trace : (session.afterMsg client ctx).trace = session.trace ++
          .dispatched client session.client.rxBuffer.currPtr
            (HwioPacketHeader.at session.client.rxBuffer.buffer session.client.rxBuffer.currPtr)
            session.request.rx :: ctx.calls.map (.called client) := rfl
      have parts := decided res rfl
      rw [replyBytes_of_ok rfl] at parts ⊢
      rw [← trace]
      simp only [Except.ok.injEq, exists_eq_left']
      rw [← fails, ← or_assoc, ← parts, Bool.or_eq_true, Bool.not_eq_true']

/-! ## The frames of a pass -/

/-- No frame among some events, behind a history, ends its connection. -/
def NoneEnds (tables : Tables World) (start : Service World) (sys : Sys) (history : List Event)
    (events : List Event) : Prop :=
  Justified (fun front event => ¬ EndsIn tables start sys (history ++ front) event) events

/-- Every live record was created once, with the descriptor that it has. -/
def Described (server : HwioServer World) : Prop :=
  ∀ client record, server.heap client = some record →
    ∀ fd, .created client fd ∈ server.trace ↔ fd = record.fd

variable {tables : Tables World} {start : Service World} {sys : Sys}

theorem Described.extend {before after : HwioServer World} (described : Described before)
    {events : List Event} (trace : after.trace = before.trace ++ events)
    (uncreated : ∀ client fd, .created client fd ∉ events)
    (records : ∀ client record, after.heap client = some record →
      ∃ old, before.heap client = some old ∧ old.fd = record.fd) : Described after := by
  intro client record live fd
  obtain ⟨old, found, same⟩ := records client record live
  rw [trace, List.mem_append, or_iff_left (uncreated client fd), ← same]
  exact described client old found fd

theorem Described.delete {before : HwioServer World} (described : Described before)
    (client : ClientPtr) (record : ClientInfo) :
    Described (deleteClient client record before) := by
  apply described.extend rfl
  · intro other fd member
    rcases mem_deletion member with same | same <;> cases same
  · exact fun other left there => ⟨left, (deleteClient_live there).2, rfl⟩

theorem Described.putSession {before : HwioServer World} (described : Described before)
    {client : ClientPtr} {record : ClientInfo} (live : before.heap client = some record)
    {session : Session World} (traffic : Traffic client (before.session record) session) :
    Described (before.putSession client session) := by
  obtain ⟨events, trace, quiet⟩ := traffic.quiet
  have uncreated : ∀ other fd, .created other fd ∉ events :=
    fun other fd member => quiet _ member trivial
  refine @Described.extend _ _ (before.putSession client session) described events trace
    uncreated fun other left found => ?_
  rcases putSession_live found with ⟨rfl, rfl⟩ | ⟨_, there⟩
  · exact ⟨record, live, traffic.fd.symm⟩
  · exact ⟨left, there, rfl⟩

theorem Move.described {before after : HwioServer World} {mode mode' : Mode}
    (move : Move sys before mode mode' after) (known : Known tables start before)
    (described : Described before) : Described after := by
  cases move with
  | noted event notice =>
      apply described.extend rfl
      · intro client fd member
        rw [← List.mem_singleton.mp member] at notice
        exact notice
      · exact fun client record live => ⟨record, live, rfl⟩
  | allocated socket =>
      intro client record live fd
      show .created client fd ∈ before.trace ++ [.created before.nextClient socket] ↔ _
      rw [List.mem_append, List.mem_singleton]
      rcases allocClient_live live with ⟨rfl, rfl⟩ | ⟨other, there⟩
      · have fresh : .created before.nextClient fd ∉ before.trace := fun member =>
          Nat.lt_irrefl _ (known.numbered.acted _ member _ rfl)
        rw [or_iff_right fresh]
        simp
      · rw [← described client record there fd, or_iff_left]
        rintro ⟨⟩
        exact other rfl
  | listed socket client => exact described
  | queued fd => exact described
  | cleaned => exact described
  | waits client record live incomplete => exact described
  | dropped client record live => exact described.delete client record
  | removed client record live => exact described.delete client record
  | received client record live came =>
      exact described.putSession live (readFromSocket_traffic sys client _)
  | failed client record live ended =>
      exact described.putSession live (readFromSocket_traffic sys client _)
  | answered client record live complete _ ended =>
      exact described.putSession live (handleFrame_traffic before.tables sys client _)

/-- Events among which no frame is asked or handled end nothing. -/
theorem noneEnds_of_unasked {history events : List Event}
    (unasked : ∀ event ∈ events, ∀ client offset header rx,
      event ≠ .dispatched client offset header rx) :
    NoneEnds tables start sys history events := by
  intro front event back split ends
  have member : event ∈ events := by
    rw [split]
    exact List.mem_append_right _ List.mem_cons_self
  cases event with
  | dispatched client offset header rx => exact unasked _ member client offset header rx rfl
  | _ => exact ends

theorem noneEnds_append {history first second : List Event} :
    NoneEnds tables start sys history (first ++ second) ↔
      NoneEnds tables start sys history first ∧
        NoneEnds tables start sys (history ++ first) second := by
  unfold NoneEnds
  rw [justified_append_iff]
  simp only [Justified, List.append_assoc]

/-- The handlings that end a connection in a move are those of its frames that do. -/
theorem Move.tallied {before after : HwioServer World} {mode mode' : Mode}
    (move : Move sys before mode mode' after) (known : Known tables start before)
    (described : Described before) :
    ∃ events, after.trace = before.trace ++ events ∧
      ((∀ client, .handled client true ∉ events) ↔
        NoneEnds tables start sys before.trace events) := by
  have unasked : ∀ events : List Event, (∀ event ∈ events,
      (∀ client, event ≠ .handled client true) ∧
        ∀ client offset header rx, event ≠ .dispatched client offset header rx) →
      ((∀ client, .handled client true ∉ events) ↔
        NoneEnds tables start sys before.trace events) := fun events none =>
    iff_of_true (fun client member => (none _ member).1 client rfl)
      (noneEnds_of_unasked fun event member => (none event member).2)
  have deletion : ∀ (client : ClientPtr) (fd : Fd), ∀ event ∈ .removed client :: closeOnDelete fd,
      (∀ client, event ≠ .handled client true) ∧
        ∀ client offset header rx, event ≠ .dispatched client offset header rx := by
    intro client fd event member
    rcases mem_deletion member with rfl | rfl <;> simp
  have reading : ∀ client record, before.heap client = some record →
      ∃ events, (readFromSocket sys client (before.session record)).2.trace =
        before.trace ++ events ∧ ((∀ client, .handled client true ∉ events) ↔
          NoneEnds tables start sys before.trace events) := by
    intro client record live
    obtain ⟨events, trace, only⟩ := readFromSocket_events sys client (before.session record)
    refine ⟨events, trace, unasked events fun event member => ?_⟩
    rcases only event member with ⟨_, _, rfl⟩ | ⟨_, _, _, rfl⟩ <;> simp
  obtain ⟨events, appended, asks⟩ := Move.appends move
  cases move with
  | noted event notice =>
      refine ⟨[event], rfl, unasked _ fun other member => ?_⟩
      rw [List.mem_singleton.mp member]
      constructor
      · rintro client rfl
        exact notice
      · rintro client offset header rx rfl
        exact notice
  | allocated socket => exact ⟨[.created before.nextClient socket], rfl, unasked _ (by simp)⟩
  | listed socket client => exact ⟨[], (List.append_nil _).symm, unasked _ (by simp)⟩
  | queued fd => exact ⟨[], (List.append_nil _).symm, unasked _ (by simp)⟩
  | cleaned => exact ⟨[], (List.append_nil _).symm, unasked _ (by simp)⟩
  | waits client record live incomplete =>
      exact ⟨[], (List.append_nil _).symm, unasked _ (by simp)⟩
  | dropped client record live => exact ⟨_, rfl, unasked _ (deletion client record.fd)⟩
  | removed client record live => exact ⟨_, rfl, unasked _ (deletion client record.fd)⟩
  | received client record live came => exact reading client record live
  | failed client record live ended => exact reading client record live
  | answered client record live complete _ ended =>
      obtain rfl : before.tables = tables := known.unchanged
      have request := known.request live (before.session record).request.rx
      obtain ⟨back, trace, _, own, _, handled⟩ := handleFrame_answers sys request
      have ends := handleFrame_ends_iff sys request (described client record live)
      cases List.append_cancel_left (trace.symm.trans appended)
      refine ⟨_, trace, fun none => ?_, fun none other member => ?_⟩
      · have stays : ¬ EndsIn before.tables start sys before.trace _ := fun ending =>
          none client (List.mem_cons_of_mem _ (handled.mpr (ends.mpr ending)))
        intro front event back' split ending
        cases event with
        | dispatched other offset header rx =>
            obtain ⟨rfl, _⟩ := asks front back' other offset header rx split
            rw [List.nil_append] at split
            rw [List.append_nil] at ending
            rw [← (List.cons.inj split).1] at ending
            exact stays ending
        | _ => exact ending
      · rcases List.mem_cons.mp member with first | later
        · cases first
        · cases Option.some.inj (own _ later)
          have ending := ends.mp (handled.mp later)
          refine none [] _ back rfl ?_
          rw [List.append_nil]
          exact ending

theorem Moves.tallied {before after : HwioServer World} {mode mode' : Mode}
    (moves : Moves sys (mode, before) (mode', after)) (known : Known tables start before)
    (described : Described before) :
    ∃ events, after.trace = before.trace ++ events ∧
      ((∀ client, .handled client true ∉ events) ↔
        NoneEnds tables start sys before.trace events) := by
  have kept := @Moves.invariant _ sys (mode, before) (mode', after)
    (fun _ server => (Known tables start server ∧ Described server) ∧
      ∃ events, server.trace = before.trace ++ events ∧
        ((∀ client, .handled client true ∉ events) ↔
          NoneEnds tables start sys before.trace events))
    moves ?_ ?_
  · exact kept.2
  · refine ⟨⟨known, described⟩, [], (List.append_nil _).symm, ?_⟩
    exact iff_of_true (by simp) justified_nil
  · intro between last _ _ move kept
    obtain ⟨⟨known, described⟩, events, trace, tally⟩ := kept
    obtain ⟨more, trace', tally'⟩ := Move.tallied move known described
    refine ⟨⟨Move.known move known, Move.described move known described⟩, events ++ more, ?_, ?_⟩
    · rw [trace', trace, List.append_assoc]
    · rw [noneEnds_append, ← tally, ← trace, ← tally']
      simp only [List.mem_append, not_or, forall_and]

end HwioServer

end Hwio
