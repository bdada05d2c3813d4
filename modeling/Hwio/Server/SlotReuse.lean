import Hwio.Server.Passes

/-!
Contract: the slots in which `add_new_client` puts clients.

Owns that the slots are those of the connected clients in every run, which slot a
client gets, and that there are as many as the most clients that were connected at
one time.

Does not own the descriptors of the clients, nor which records passes follow.
-/

namespace Hwio

open Library

variable {World : Type}

namespace HwioServer

/-! ## The number of connections -/

/-- Only new clients make the connections more. -/
theorem connected_shrinks (history : List Event) {events : List Event}
    (unmade : ∀ client fd, .created client fd ∉ events) :
    (connected (history ++ events)).length ≤ (connected history).length := by
  unfold connected
  rw [List.foldl_append]
  generalize history.foldl connectedStep [] = clients
  induction events generalizing clients with
  | nil => exact Nat.le_refl _
  | cons event rest inductionHypothesis =>
      have later : ∀ client fd, .created client fd ∉ rest := fun client fd member =>
        unmade client fd (List.mem_cons_of_mem event member)
      rw [List.foldl_cons]
      apply Nat.le_trans (inductionHypothesis later _)
      cases event with
      | created client fd => exact absurd List.mem_cons_self (unmade client fd)
      | removed client => exact List.length_filter_le _ _
      | _ => exact Nat.le_refl _

/-- A bound on the connections at all times is kept while none is made. -/
theorem bounded_append {history events : List Event} {most : Nat}
    (bounded : ∀ front, front <+: history → (connected front).length ≤ most)
    (unmade : ∀ client fd, .created client fd ∉ events) :
    ∀ front, front <+: history ++ events → (connected front).length ≤ most := by
  intro front part
  rcases List.prefix_or_prefix_of_prefix part (List.prefix_append _ _) with early | ⟨late, rfl⟩
  · exact bounded front early
  · have inside := (List.prefix_append_right_inj history).mp part
    have fewer : ∀ client fd, .created client fd ∉ late := fun client fd member =>
      unmade client fd (inside.subset member)
    exact Nat.le_trans (connected_shrinks history fewer) (bounded history List.prefix_rfl)

/-! ## Seats -/

/-- The slots are those of the live records, and as many as the most clients that
were connected at one time. -/
structure Seated (server : HwioServer World) : Prop where
  seat : ∀ client record, server.heap client = some record →
    server.clients[record.id]? = some (some client)
  taken : ∀ (id : Nat) client, server.clients[id]? = some (some client) →
    ∃ record, server.heap client = some record ∧ record.id = id
  numbered : ∀ client record, server.heap client = some record → client < server.nextClient
  live_iff : ∀ client, client ∈ connected server.trace ↔
    ∃ record, server.heap client = some record
  distinct : (connected server.trace).Nodup
  bounded : ∀ front, front <+: server.trace → (connected front).length ≤ server.clients.length
  peak : ∃ front, front <+: server.trace ∧ (connected front).length = server.clients.length

theorem prepared_seated (tables : Tables World) (master : Fd) (tx : List Byte) (world : World) :
    Seated (prepared tables master tx world) where
  seat client record live := by cases live
  taken id client held := by cases held
  numbered client record live := by cases live
  live_iff client := iff_of_false List.not_mem_nil fun ⟨record, live⟩ => by cases live
  distinct := List.nodup_nil
  bounded := by
    have none : ∀ front, front <+: [] → (connected front).length ≤ 0 := by
      intro front none
      rw [List.prefix_nil.mp none]
      exact Nat.le_refl 0
    exact @bounded_append [] [.opened master] 0 none (by simp)
  peak := ⟨[], List.nil_prefix, rfl⟩

/-- Seats are kept while no connection begins or ends. -/
theorem Seated.quiet {before after : HwioServer World} (seated : Seated before)
    (quiet : Quiet before after) : Seated after where
  seat client record live := by
    obtain ⟨old, live', id, _⟩ := quiet.record live
    rw [quiet.clients, ← id]
    exact seated.seat client old live'
  taken id client held := by
    rw [quiet.clients] at held
    obtain ⟨record, live, rfl⟩ := seated.taken id client held
    obtain ⟨new, live', same, _⟩ := quiet.record_back live
    exact ⟨new, live', same⟩
  numbered client record live := by
    obtain ⟨old, live', _⟩ := quiet.record live
    rw [quiet.nextClient]
    exact seated.numbered client old live'
  live_iff client := by
    obtain ⟨events, trace, silent⟩ := quiet.trace
    rw [trace, connected_quiet _ silent, seated.live_iff client]
    constructor
    · rintro ⟨record, live⟩
      obtain ⟨new, live', _⟩ := quiet.record_back live
      exact ⟨new, live'⟩
    · rintro ⟨record, live⟩
      obtain ⟨old, live', _⟩ := quiet.record live
      exact ⟨old, live'⟩
  distinct := by
    obtain ⟨events, trace, silent⟩ := quiet.trace
    rw [trace, connected_quiet _ silent]
    exact seated.distinct
  bounded := by
    obtain ⟨events, trace, silent⟩ := quiet.trace
    rw [trace, quiet.clients]
    exact bounded_append seated.bounded fun client fd member => silent _ member trivial
  peak := by
    obtain ⟨events, trace, _⟩ := quiet.trace
    obtain ⟨front, early, high⟩ := seated.peak
    rw [trace, quiet.clients]
    exact ⟨front, early.trans (List.prefix_append _ _), high⟩

theorem Seated.noted {server : HwioServer World} (seated : Seated server) (event : Event)
    (same : connectedStep (connected server.trace) event = connected server.trace)
    (unmade : ∀ client fd, event ≠ .created client fd) : Seated (note event server) := by
  have trace : connected (note event server).trace = connected server.trace :=
    (List.foldl_append ..).trans same
  exact {
    seat := seated.seat
    taken := seated.taken
    numbered := seated.numbered
    live_iff := fun client => by
      rw [trace]
      exact seated.live_iff client
    distinct := by
      rw [trace]
      exact seated.distinct
    bounded := by
      apply bounded_append seated.bounded
      intro client fd member
      exact unmade client fd (List.mem_singleton.mp member).symm
    peak := by
      obtain ⟨front, early, high⟩ := seated.peak
      exact ⟨front, early.trans (List.prefix_append _ _), high⟩ }

/-- As many slots are taken as there are connections. -/
theorem Seated.reduceOption_length {server : HwioServer World} (seated : Seated server) :
    server.clients.reduceOption.length = (connected server.trace).length := by
  apply reduceOption_length_of_placed (placed_iff seated.seat seated.taken)
  · exact seated.distinct
  · intro client
    rw [seated.live_iff client, exists_home_iff]

/-- A new client takes the first empty slot; a slot is added only when all of them
are taken, and then there are as many as connections. -/
theorem Seated.alloc {server : HwioServer World} (seated : Seated server) (sys : Sys)
    (socket : Fd) : Seated (allocClient sys socket server) := by
  have clients : (allocClient sys socket server).clients =
      place server.clients server.nextClient := rfl
  have trace : (allocClient sys socket server).trace =
      server.trace ++ [.created server.nextClient socket] := rfl
  have more : connected (server.trace ++ [.created server.nextClient socket]) =
      server.nextClient :: connected server.trace := List.foldl_append ..
  have unborn : server.heap server.nextClient = none := by
    apply Option.eq_none_iff_forall_ne_some.mpr
    intro record live
    exact Nat.lt_irrefl _ (seated.numbered _ record live)
  have longer : server.clients.length ≤ (place server.clients server.nextClient).length := by
    by_cases hole : none ∈ server.clients
    · rw [place_length_of_mem hole]
    · rw [place_length_of_not_mem hole]
      exact Nat.le_succ _
  have self : (allocClient sys socket server).heap server.nextClient =
      some ⟨firstEmpty server.clients, socket, ⟨sys.newBuffer server.trace, 0, 0⟩, []⟩ :=
    Function.update_self ..
  have others : ∀ client, client ≠ server.nextClient →
      (allocClient sys socket server).heap client = server.heap client :=
    fun client apart => Function.update_of_ne apart ..
  have records : ∀ client record, (allocClient sys socket server).heap client = some record →
      (client = server.nextClient ∧ record.id = firstEmpty server.clients) ∨
        server.heap client = some record := by
    intro client record live
    by_cases own : client = server.nextClient
    · subst own
      rw [self] at live
      cases live
      exact Or.inl ⟨rfl, rfl⟩
    · rw [others client own] at live
      exact Or.inr live
  have kept : ∀ client record, server.heap client = some record →
      (allocClient sys socket server).heap client = some record := by
    intro client record live
    rw [others client]
    · exact live
    · rintro rfl
      rw [unborn] at live
      cases live
  have fewer : (connected server.trace).length + 1 ≤
      (place server.clients server.nextClient).length := by
    rw [← seated.reduceOption_length]
    by_cases hole : none ∈ server.clients
    · rw [place_length_of_mem hole]
      exact List.reduceOption_length_lt_iff.mpr hole
    · rw [place_length_of_not_mem hole, reduceOption_length_of_not_mem hole]
  exact {
    seat := by
      intro client record live
      rw [clients, place_getElem?_iff]
      rcases records client record live with ⟨rfl, id⟩ | old
      · exact Or.inl ⟨id, rfl⟩
      · exact Or.inr (seated.seat client record old)
    taken := by
      intro id client held
      rw [clients, place_getElem?_iff] at held
      rcases held with ⟨rfl, rfl⟩ | old
      · exact ⟨_, self, rfl⟩
      · obtain ⟨record, live, same⟩ := seated.taken id client old
        exact ⟨record, kept client record live, same⟩
    numbered := by
      intro client record live
      rcases records client record live with ⟨rfl, _⟩ | old
      · exact Nat.lt_succ_self _
      · exact Nat.lt_succ_of_lt (seated.numbered client record old)
    live_iff := by
      intro client
      rw [trace, more, List.mem_cons, seated.live_iff client]
      constructor
      · rintro (rfl | ⟨record, live⟩)
        · exact ⟨_, self⟩
        · exact ⟨record, kept client record live⟩
      · rintro ⟨record, live⟩
        rcases records client record live with ⟨rfl, _⟩ | old
        · exact Or.inl rfl
        · exact Or.inr ⟨record, old⟩
    distinct := by
      rw [trace, more, List.nodup_cons, seated.live_iff]
      refine ⟨?_, seated.distinct⟩
      rintro ⟨record, live⟩
      rw [unborn] at live
      cases live
    bounded := by
      intro front part
      rw [clients]
      rw [trace] at part
      rcases List.prefix_concat_iff.mp part with rfl | early
      · rw [more]
        exact fewer
      · exact Nat.le_trans (seated.bounded front early) longer
    peak := by
      rw [trace, clients]
      by_cases hole : none ∈ server.clients
      · obtain ⟨front, early, high⟩ := seated.peak
        rw [place_length_of_mem hole]
        exact ⟨front, early.trans (List.prefix_append _ _), high⟩
      · refine ⟨_, List.prefix_rfl, ?_⟩
        rw [place_length_of_not_mem hole, more, List.length_cons, ← seated.reduceOption_length,
          reduceOption_length_of_not_mem hole] }

theorem Seated.listed {server : HwioServer World} (seated : Seated server) (socket : Fd)
    (client : ClientPtr) : Seated (listClient socket client server) :=
  ⟨seated.seat, seated.taken, seated.numbered, seated.live_iff, seated.distinct, seated.bounded,
    seated.peak⟩

theorem Seated.cleaned {server : HwioServer World} (seated : Seated server) :
    Seated (cleanup server) :=
  ⟨seated.seat, seated.taken, seated.numbered, seated.live_iff, seated.distinct, seated.bounded,
    seated.peak⟩

/-- A client that is removed leaves its slot empty, and takes no other with it. -/
theorem Seated.delete {server : HwioServer World} (seated : Seated server) {client : ClientPtr}
    {record : ClientInfo} (live : server.heap client = some record) :
    Seated (deleteClient client record server) := by
  have clients : (deleteClient client record server).clients = server.clients.set record.id none :=
    rfl
  have trace : (deleteClient client record server).trace =
      server.trace ++ .removed client :: closeOnDelete record.fd := rfl
  have left : connected (server.trace ++ .removed client :: closeOnDelete record.fd) =
      (connected server.trace).filter (· ≠ client) := by
    unfold closeOnDelete
    split <;> exact List.foldl_append ..
  have self : (deleteClient client record server).heap client = none := Function.update_self ..
  have others : ∀ other, other ≠ client →
      (deleteClient client record server).heap other = server.heap other :=
    fun other apart => Function.update_of_ne apart ..
  have records : ∀ other record', (deleteClient client record server).heap other = some record' ↔
      other ≠ client ∧ server.heap other = some record' := by
    intro other record'
    by_cases own : other = client
    · rw [own, self]
      simp
    · rw [others other own]
      simp [own]
  exact {
    seat := by
      intro other record' live'
      obtain ⟨apart, old⟩ := (records other record').mp live'
      rw [clients, set_none_getElem?_iff]
      refine ⟨fun same => apart ?_, seated.seat other record' old⟩
      have theirs := seated.seat other record' old
      rw [same, seated.seat client record live] at theirs
      exact (Option.some.inj (Option.some.inj theirs)).symm
    taken := by
      intro id other held
      rw [clients, set_none_getElem?_iff] at held
      obtain ⟨record', live', same⟩ := seated.taken id other held.2
      refine ⟨record', (records other record').mpr ⟨?_, live'⟩, same⟩
      rintro rfl
      rw [live] at live'
      cases live'
      exact held.1 same.symm
    numbered := by
      intro other record' live'
      exact seated.numbered other record' ((records other record').mp live').2
    live_iff := by
      intro other
      rw [trace, left, List.mem_filter, seated.live_iff other, decide_eq_true_eq]
      constructor
      · rintro ⟨⟨record', old⟩, apart⟩
        exact ⟨record', (records other record').mpr ⟨apart, old⟩⟩
      · rintro ⟨record', live'⟩
        obtain ⟨apart, old⟩ := (records other record').mp live'
        exact ⟨⟨record', old⟩, apart⟩
    distinct := by
      rw [trace, left]
      exact seated.distinct.filter _
    bounded := by
      rw [trace, clients, List.length_set]
      apply bounded_append seated.bounded
      intro other fd member
      rcases List.mem_cons.mp member with same | later
      · cases same
      · cases eq_closed_of_mem later
    peak := by
      obtain ⟨front, early, high⟩ := seated.peak
      rw [trace, clients, List.length_set]
      exact ⟨front, early.trans (List.prefix_append _ _), high⟩ }

theorem Seated.step {sys : Sys} {before after : HwioServer World} (step : Step sys before after)
    (seated : Seated before) : Seated after := by
  cases step with
  | noted event notice =>
      apply seated.noted event
      · cases event <;> first | rfl | cases notice
      · rintro client fd rfl
        cases notice
  | allocated socket => exact seated.alloc sys socket
  | listed socket client => exact seated.listed socket client
  | deleted client record live => exact seated.delete live
  | received client record live =>
      have traffic := readFromSocket_traffic sys client (before.session record)
      exact seated.quiet (quiet_putSession live traffic.id traffic.fd traffic.quiet)
  | answered client record live complete =>
      have traffic := handleFrame_traffic before.tables sys client (before.session record)
      exact seated.quiet (quiet_putSession live traffic.id traffic.fd traffic.quiet)
  | queued fd => exact seated.quiet (quiet_pushRemoved before fd)
  | cleaned => exact seated.cleaned

theorem Reached.seated {tables : Tables World} {master : Fd} {tx : List Byte} {world : World}
    {server : HwioServer World} (reached : Reached (prepared tables master tx world) server) :
    Seated server :=
  reached.invariant (prepared_seated tables master tx world) fun _ _ _ step seated =>
    seated.step step

/-- A slot below the first empty one is taken. -/
theorem Seated.below_firstEmpty {server : HwioServer World} (seated : Seated server) {id : Nat}
    (below : id < firstEmpty server.clients) :
    ∃ client record, server.heap client = some record ∧ record.id = id := by
  have inside : id < server.clients.length := Nat.lt_of_lt_of_le below (firstEmpty_le _)
  cases held : server.clients[id] with
  | none => exact absurd held (of_decide_eq_false (List.not_of_lt_findIdx below))
  | some client =>
      obtain ⟨record, live, same⟩ := seated.taken id client
        (List.getElem?_eq_some_iff.mpr ⟨inside, held⟩)
      exact ⟨client, record, live, same⟩

end HwioServer

/-- In every state of every run, whatever is read from removed records: there are
exactly as many slots as the most clients that were connected at one time; every
connected client has a slot of its own; and the next client gets the smallest id
that none of them has. -/
theorem slots_reused {tables : Tables World} {master : Fd} {tx : List Byte} {world : World}
    {server : HwioServer World}
    (reached : HwioServer.Reached (HwioServer.prepared tables master tx world) server) :
    (∃ front, front <+: server.trace ∧ (connected front).length = server.clients.length) ∧
      (∀ front, front <+: server.trace → (connected front).length ≤ server.clients.length) ∧
      (∀ client record, server.heap client = some record → record.id < server.clients.length ∧
        ∀ other record', server.heap other = some record' → record'.id = record.id →
          other = client) ∧
      ∀ (sys : Sys) socket, ∃ record,
        (HwioServer.addNewClient sys socket server).2.heap server.nextClient = some record ∧
          (∀ other record', server.heap other = some record' → record'.id ≠ record.id) ∧
          ∀ id, id < record.id → ∃ other record', server.heap other = some record' ∧
            record'.id = id := by
  have seated := reached.seated
  refine ⟨seated.peak, seated.bounded, ?_, ?_⟩
  · intro client record live
    have held := seated.seat client record live
    refine ⟨(List.getElem?_eq_some_iff.mp held).1, ?_⟩
    intro other record' live' same
    have theirs := seated.seat other record' live'
    rw [same, held] at theirs
    exact (Option.some.inj (Option.some.inj theirs)).symm
  · intro sys socket
    refine ⟨⟨firstEmpty server.clients, socket, ⟨sys.newBuffer server.trace, 0, 0⟩, []⟩, ?_, ?_,
      fun id below => seated.below_firstEmpty below⟩
    · unfold HwioServer.addNewClient
      simp only
      split <;> exact Function.update_self ..
    · intro other record' live' same
      obtain ⟨inside, held⟩ := List.getElem?_eq_some_iff.mp (seated.seat other record' live')
      simp only [same] at held inside
      rw [firstEmpty_getElem inside] at held
      cases held

namespace HwioServer

/-- A server that one client has left, and another has joined. -/
def rejoined : HwioServer Unit :=
  (poolClientMsgs (loneClient []) (poolClientMsgs (loneClient [])
    (poolClientMsgs (loneClient []) (prepared bareTables 3 [] ())).2).2).2

end HwioServer

open HwioServer in
theorem second_client_reuses_slot :
    rejoined.nextClient = 2 ∧ rejoined.clients = [some 1] ∧
      ∀ front, front <+: rejoined.trace → (connected front).length ≤ 1 := by
  have reached : Reached (prepared bareTables 3 [] ()) rejoined :=
    .pass (.pass (.pass .start _) _) _
  have clients : rejoined.clients = [some 1] := by decide +kernel
  obtain ⟨_, bounded, _⟩ := slots_reused reached
  rw [clients] at bounded
  exact ⟨by decide +kernel, clients, bounded⟩

end Hwio
