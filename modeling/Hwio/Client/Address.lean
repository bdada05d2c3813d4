import Hwio.Wire

/-!
Contract: `hwio_remote_utils.cpp`, the address of a server as a text.

Owns `parse_ip_and_port` and the forms of addresses that it is given.

Does not own the lookup of the host.
-/

namespace Hwio

open Library

def colon : Byte := 58
def openBracket : Byte := 91
def closeBracket : Byte := 93

/-- `parse_ip_and_port`: what it leaves in `ip` and in `port`, which held `port`
before.  Iterators are their distances from `begin()`, and `std::find` is
`idxOf`. -/
def parseIpAndPort (addrString port : Text) : Text × Text :=
  if addrString.getD 0 0 = openBracket then
    let splitEnd := 1 + (addrString.drop 1).idxOf closeBracket
    let ip := addrString.take splitEnd
    let splitEnd := if splitEnd ≠ addrString.length then splitEnd + 1 else splitEnd
    if splitEnd ≠ addrString.length ∧ addrString.getD splitEnd 0 = colon then
      (ip, addrString.drop splitEnd)
    else (ip, port)
  else
    -- `base()` of a reverse iterator is one place behind what it points to
    let splitPoint := addrString.length - addrString.reverse.idxOf colon
    if splitPoint = 0 then (addrString, port)
    else (addrString.take (splitPoint - 1), addrString.drop splitPoint)

/-! ## The forms of an address -/

/-- What an address may be written from. -/
inductive Address where
  | plain (host : Text)
  | withPort (host port : Text)
  | ipv6 (ip : Text)
  | ipv6Port (ip port : Text)
deriving DecidableEq, Repr

namespace Address

/-- Delimiters are where the form has them. -/
def WellFormed : Address → Prop
  | .plain host => colon ∉ host ∧ host.head? ≠ some openBracket
  | .withPort host port => (colon ∉ host ∧ host.head? ≠ some openBracket) ∧ colon ∉ port
  | .ipv6 ip | .ipv6Port ip _ => closeBracket ∉ ip

def written : Address → Text
  | .plain host => host
  | .withPort host port => host ++ colon :: port
  | .ipv6 ip => openBracket :: (ip ++ [closeBracket])
  | .ipv6Port ip port => openBracket :: (ip ++ closeBracket :: colon :: port)

/-- The host and the port that were written. -/
def parts : Address → Text × Text
  | .plain host => (host, [])
  | .withPort host port => (host, port)
  | .ipv6 ip => (ip, [])
  | .ipv6Port ip port => (ip, port)

/-- The address is written in brackets. -/
def Bracketed : Address → Prop
  | .plain _ | .withPort _ _ => False
  | .ipv6 _ | .ipv6Port _ _ => True

end Address

/-! ## Parsing -/

theorem getD_zero_ne_bracket {host : Text} (first : host.head? ≠ some openBracket)
    {rest : Text} (other : rest.head? ≠ some openBracket) :
    (host ++ rest).getD 0 0 ≠ openBracket := by
  have either : (host ++ rest).head? ≠ some openBracket := by
    cases host with
    | nil => exact other
    | cons byte host => exact first
  intro same
  cases whole : host ++ rest with
  | nil =>
      rw [whole] at same
      exact absurd same (by decide)
  | cons byte bytes =>
      rw [whole] at same either
      exact either (congrArg some same)

theorem parse_host {host : Text} (free : colon ∉ host) (first : host.head? ≠ some openBracket) :
    parseIpAndPort host [] = (host, []) := by
  have plain := @getD_zero_ne_bracket host first [] (by decide)
  rw [List.append_nil] at plain
  have absent : host.reverse.idxOf colon = host.length := by
    rw [List.idxOf_eq_length (List.mem_reverse.not.mpr free), List.length_reverse]
  rw [parseIpAndPort, if_neg plain, absent]
  exact if_pos (Nat.sub_self _)

/-- The port is what is behind the last colon. -/
theorem parse_hostPort {host port : Text} (first : host.head? ≠ some openBracket)
    (free : colon ∉ port) :
    parseIpAndPort (host ++ colon :: port) [] = (host, port) := by
  have plain := @getD_zero_ne_bracket host first (colon :: port)
    fun same => absurd (Option.some.inj same) (by decide)
  have found : (host ++ colon :: port).reverse.idxOf colon = port.length := by
    rw [List.reverse_append, List.reverse_cons, List.append_assoc, List.idxOf_append,
      if_neg (List.mem_reverse.not.mpr free), List.singleton_append, List.idxOf_cons_self,
      Nat.zero_add, List.length_reverse]
  have split : (host ++ colon :: port).length - port.length = host.length + 1 := by
    rw [List.length_append, List.length_cons]
    omega
  rw [parseIpAndPort, if_neg plain, found, split]
  simp only [if_neg (Nat.succ_ne_zero host.length), Nat.add_sub_cancel, List.take_left]
  rw [show host ++ colon :: port = (host ++ [colon]) ++ port by simp,
    List.drop_left' (by simp)]

/-- The text in brackets keeps the opening one. -/
theorem parse_bracketed {ip : Text} (free : closeBracket ∉ ip) (rest : Text) :
    (parseIpAndPort (openBracket :: (ip ++ closeBracket :: rest)) []).1 =
      openBracket :: ip := by
  have found : (ip ++ closeBracket :: rest).idxOf closeBracket = ip.length := by
    rw [List.idxOf_append, if_neg free, List.idxOf_cons_self, Nat.zero_add]
  have taken : (openBracket :: (ip ++ closeBracket :: rest)).take (1 + ip.length) =
      openBracket :: ip := by
    rw [Nat.add_comm, List.take_succ_cons, List.take_left]
  rw [parseIpAndPort,
    if_pos (show (openBracket :: (ip ++ closeBracket :: rest)).getD 0 0 = openBracket from rfl)]
  simp only [List.drop_succ_cons, List.drop_zero, found, taken]
  rw [apply_ite Prod.fst]
  exact ite_self _

/-- An address comes back as the host and the port that it was written from just
when it is not in brackets. -/
theorem address_split_iff {address : Address} (wellFormed : address.WellFormed) :
    parseIpAndPort address.written [] = address.parts ↔ ¬ address.Bracketed := by
  have kept : ∀ {ip rest port : Text}, closeBracket ∉ ip →
      parseIpAndPort (openBracket :: (ip ++ closeBracket :: rest)) [] ≠ (ip, port) := by
    intro ip rest port free same
    have longer := (parse_bracketed free rest).symm.trans (congrArg Prod.fst same)
    exact absurd (congrArg List.length longer) (Nat.succ_ne_self ip.length)
  cases address with
  | plain host =>
      obtain ⟨free, first⟩ := wellFormed
      exact iff_of_true (parse_host free first) id
  | withPort host port =>
      obtain ⟨⟨_, first⟩, free⟩ := wellFormed
      exact iff_of_true (parse_hostPort first free) id
  | ipv6 ip => exact iff_of_false (kept wellFormed) (not_not_intro trivial)
  | ipv6Port ip port => exact iff_of_false (kept wellFormed) (not_not_intro trivial)

/-- `10.0.0.1:8896` -/
theorem host_and_port_split :
    parseIpAndPort (text "10.0.0.1:8896") [] = (text "10.0.0.1", text "8896") :=
  (@address_split_iff (.withPort (text "10.0.0.1") (text "8896"))
    ⟨⟨by decide, by decide⟩, by decide⟩).mpr id

/-- The host of `[::1]:8896` is `[::1` and its port `:8896`. -/
theorem brackets_not_split :
    (Address.ipv6Port (text "::1") (text "8896")).WellFormed ∧
      (Address.ipv6Port (text "::1") (text "8896")).written = text "[::1]:8896" ∧
      parseIpAndPort (text "[::1]:8896") [] = (text "[::1", text ":8896") :=
  ⟨(by decide : closeBracket ∉ text "::1"), by decide, by decide⟩

end Hwio
