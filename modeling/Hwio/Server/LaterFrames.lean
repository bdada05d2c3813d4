import Hwio.Server.Reassembly

/-!
Contract: what the handling of a frame does to the bytes received behind it.

Owns the memory that `handle_msg` leaves in the receive buffer, and the frames
that are dispatched in a run whose frames are spared by those before them.

Does not own how the bytes of a connection are cut.
-/

namespace Hwio

open Library

variable {World : Type}

/-! ## The memory behind a request -/

/-- The frames behind which `handle_msg` stores nothing: all but a MSG that is
too short to hold the terminator. -/
def Spares (frame : Frame) : Prop :=
  frame.command ≠ HwioCmd.msg.code ∨ 4 + maxNameLen ≤ frame.body.length

instance (frame : Frame) : Decidable (Spares frame) := inferInstanceAs (Decidable (_ ∨ _))

theorem handleMsg_msg_rx (tables : Tables World) {header : HwioPacketHeader} (ctx : Ctx World)
    (msg : header.command = HwioCmd.msg.code) :
    (handleMsg tables header ctx).2.rx = store ctx.rx (4 + (maxNameLen - 1)) [0] :=
  congrArg (fun handled => handled.2.rx) (handleMsg_msg tables ctx msg)

/-- The memory behind a frame is left alone whatever it holds, just when the
frame is no short MSG. -/
theorem handleMsg_behind_iff (tables : Tables World) (frame : Frame) (ctx : Ctx World) :
    (∀ behind : List Byte,
      (handleMsg tables frame.header { ctx with rx := frame.body ++ behind }).2.rx.drop
        frame.body.length = behind) ↔ Spares frame := by
  by_cases msg : frame.command = HwioCmd.msg.code
  · have stored : ∀ behind : List Byte,
        (handleMsg tables frame.header { ctx with rx := frame.body ++ behind }).2.rx =
          store (frame.body ++ behind) (4 + (maxNameLen - 1)) [0] :=
      fun behind => handleMsg_msg_rx tables _ msg
    constructor
    · intro kept
      right
      by_contra short
      have inside : frame.body.length ≤ 4 + (maxNameLen - 1) := by
        simp only [maxNameLen] at short ⊢
        omega
      -- the terminator shows among ones behind the frame
      have ones := kept (List.replicate (4 + maxNameLen - frame.body.length) 1)
      rw [stored] at ones
      have terminator : (store (frame.body ++ List.replicate (4 + maxNameLen - frame.body.length) 1)
          (4 + (maxNameLen - 1)) [0]).getD (4 + (maxNameLen - 1)) 0 = 0 := by
        rw [store_getD, if_pos (by simp)]
        simp
      have one := congrArg (·[4 + (maxNameLen - 1) - frame.body.length]?) ones
      simp only [List.getElem?_drop, Nat.add_sub_cancel' inside] at one
      rw [List.getD_eq_getElem?_getD, one, List.getElem?_replicate, if_pos (by
        simp only [maxNameLen] at short ⊢
        omega)] at terminator
      exact absurd terminator (by decide)
    · rintro (other | long) behind
      · exact absurd msg other
      · rw [stored, store_drop_after _ long, List.drop_left]
  · refine iff_of_true (fun behind => ?_) (Or.inl msg)
    rw [handleMsg_rx _ _ _ msg, List.drop_left]

/-- The bytes behind a frame that spares them are read as before. -/
theorem handleMsg_load_behind (tables : Tables World) (header : HwioPacketHeader)
    (ctx : Ctx World) (spares : Spares (Frame.received header ctx.rx)) (count : Nat) :
    load (handleMsg tables header ctx).2.rx header.bodyLen.toNat count =
      load ctx.rx header.bodyLen.toNat count := by
  by_cases msg : header.command = HwioCmd.msg.code
  · have long : 4 + maxNameLen ≤ header.bodyLen.toNat := by
      rcases spares with other | long
      · exact absurd msg other
      · rw [Frame.received_body, load_length] at long
        exact long
    rw [handleMsg_msg_rx tables ctx msg, load_store_apart _ (Or.inr long)]
  · rw [handleMsg_rx _ _ _ msg]

/-! ## Runs -/

/-- `handle_msg` returns from the frames of a connection. -/
def Returns (tables : Tables World) (start : Service World) (client : ClientPtr)
    (front : List Event) : Event → Prop
  | .dispatched owner _ header rx => owner = client →
    ∃ res, (handleMsg tables header ((start.after tables front).request client rx)).1 = .ok res
  | _ => True

namespace HwioServer

/-- Frames that spare what is behind them are handled tamely when `handle_msg`
returns. -/
theorem tame_of_spares {tables : Tables World} {start : Service World} {client : ClientPtr}
    {front : List Event} {event : Event} (returns : Returns tables start client front event)
    (spares : ∀ offset header rx, event = .dispatched client offset header rx →
      InOrder client front event → Spares (Frame.received header rx)) :
    Tame tables start client front event := by
  cases event with
  | dispatched owner offset header rx =>
      rintro rest rfl stream
      refine ⟨returns rfl, ?_⟩
      exact handleMsg_load_behind tables header ((start.after tables front).request owner rx)
        (spares offset header rx rfl fun _ => ⟨rest, stream⟩) rest.length
  | _ => exact trivial

/-- A history whose frames all return is tame when the client sent only frames
that spare each other. -/
theorem tame_of_sent {tables : Tables World} {start : Service World} {client : ClientPtr}
    {frames : List Frame} (spares : ∀ frame ∈ frames, Spares frame) {history : List Event}
    (sent : receivedBy client history <+: frames.flatMap Frame.bytes)
    (returns : Justified (Returns tables start client) history) :
    Justified (Tame tables start client) history := by
  intro front event back split
  refine tame_of_spares (returns front event back split) ?_
  rintro offset header rx rfl inOrder
  obtain ⟨rest, stream⟩ := inOrder rfl
  rw [split, receivedBy_append, stream, List.append_assoc] at sent
  obtain ⟨later, same, _⟩ := Frame.selfDelimiting.words_eq sent
  apply spares
  rw [same]
  simp

/-- What is dispatched behind frames that all return is the next frame that the
client sent. -/
theorem Reached.dispatched_front {tables : Tables World} {master : Fd} {tx : List Byte}
    {world : World} {server : HwioServer World}
    (reached : Reached (prepared tables master tx world) server) (client : ClientPtr)
    {frames : List Frame} (spares : ∀ frame ∈ frames, Spares frame)
    (sent : receivedBy client server.trace <+: frames.flatMap Frame.bytes)
    {front back : List Event} {offset : Nat} {header : HwioPacketHeader} {rx : List Byte}
    (split : server.trace = front ++ .dispatched client offset header rx :: back)
    (returns : Justified (Returns tables (prepared tables master tx world).service client)
      front) :
    dispatchedTo client front ++ [Frame.received header rx] <+: frames := by
  have early : receivedBy client front <+: frames.flatMap Frame.bytes := by
    rw [split, receivedBy_append] at sent
    exact (List.prefix_append _ _).trans sent
  obtain ⟨rest, stream⟩ := (reached.orderly client).inOrder front _ back split
    (tame_of_sent spares early returns) rfl
  rw [stream] at early
  obtain ⟨later, same, _⟩ := Frame.selfDelimiting.words_eq early
  exact ⟨later, same.symm⟩

/-- Handling a frame leaves every byte behind it alone, whatever these are, just
when it is no MSG too short for its terminator; and in every run in which a
client sends only such frames, what is dispatched for it, as long as
`handle_msg` returns, are the frames it sent, in order and with their bytes. -/
theorem later_frames_kept_iff {tables : Tables World} {master : Fd} {tx : List Byte}
    {world : World} {server : HwioServer World}
    (reached : Reached (prepared tables master tx world) server) (client : ClientPtr) :
    (∀ record, server.heap client = some record → ∀ frame : Frame,
      (∀ behind : List Byte,
        (handleMsg tables frame.header
          { (server.session record).request with rx := frame.body ++ behind }).2.rx.drop
            frame.body.length = behind) ↔ Spares frame) ∧
    ∀ frames : List Frame, (∀ frame ∈ frames, Spares frame) →
      receivedBy client server.trace <+: frames.flatMap Frame.bytes →
        ∀ front offset header rx back,
          server.trace = front ++ .dispatched client offset header rx :: back →
          Justified (Returns tables (prepared tables master tx world).service client) front →
            dispatchedTo client front ++ [Frame.received header rx] <+: frames := by
  refine ⟨fun record _ frame => handleMsg_behind_iff tables frame _, ?_⟩
  intro frames spares sent front offset header rx back split returns
  exact reached.dispatched_front client spares sent split returns

/-- A MSG with room for its terminator, and a PING behind it. -/
def longMsgThenPing : List Frame :=
  [⟨9, List.replicate 132 1, by simp⟩, ⟨4, [], by decide⟩]

theorem long_msg_spares_ping :
    let server := loneRun bareTables [] () (longMsgThenPing.flatMap Frame.bytes)
    ∀ front offset header rx back,
      server.trace = front ++ .dispatched 0 offset header rx :: back →
      Justified (Returns bareTables (prepared bareTables 3 [] ()).service 0) front →
        dispatchedTo 0 front ++ [Frame.received header rx] <+: longMsgThenPing := by
  intro server
  have sent : receivedBy 0 server.trace <+: longMsgThenPing.flatMap Frame.bytes := by
    decide +kernel
  exact (later_frames_kept_iff (loneRun_reached bareTables [] () _) 0).2 longMsgThenPing
    (by decide +kernel) sent

/-- A MSG without a body, and one whose body is all ones behind it. -/
def shortMsgThenLong : List Frame :=
  [⟨9, [], by decide⟩, ⟨9, List.replicate 132 1, by simp⟩]

theorem short_msg_changes_next :
    let server := loneRun bareTables [] () (shortMsgThenLong.flatMap Frame.bytes)
    Reached (prepared bareTables 3 [] ()) server ∧
      receivedBy 0 server.trace = shortMsgThenLong.flatMap Frame.bytes ∧
      ¬ dispatchedTo 0 server.trace <+: shortMsgThenLong :=
  ⟨loneRun_reached .., by decide +kernel, by decide +kernel⟩

end HwioServer

end Hwio
