import DnsWire.Proofs.Message.Confined
import DnsWire.Proofs.Name.Spelled

/-!
# Host names in any context

A name that was written without pointers ends where its zero octet stands, so octets in front of it
and behind it have no part in what is read. With a bound there are two outcomes
(`Name.decodeAt_encode`). From the bound on that leaves room for the name, and for two octets in any
case, the host name is read back; below it the octets run out, and no other error shows, wherever
the cut goes through the name.

The second half needs no look at the labels: reading a name is steady, so a bound nearer than its
end makes it run out of octets (`Decoder.Steady.truncated_of_begins`).
-/

namespace DnsWire.Name

/-- A name is read where it stands among other octets, if there is room for it below the bound, and
runs out of octets otherwise. -/
theorem decodeAt_wire (n : Name) (before behind : List UInt8) (stop : Nat) :
    decodeAt (before ++ n.wire ++ behind).toArray before.length stop =
      if before.length + max 2 n.wire.length ≤ min stop (before ++ n.wire ++ behind).length then
        .ok (n.text, before.length + n.wire.length)
      else .error .truncated := by
  have stands := Window.shows_between before n.wire behind
  generalize octets : before ++ n.wire ++ behind = all at stands ⊢
  have begins := Window.begins_upTo all.toArray stop
  have bound : (Window.upTo all.toArray stop).stop = min stop all.length := rfl
  by_cases two : before.length + 2 ≤ min stop all.length
  · rw [decodeAt_of_room two]
    by_cases room : before.length + n.wire.length ≤ min stop all.length
    · rw [if_pos (by omega)]
      exact decodeText_of_shows ((begins.shows room).2 stands)
    · rw [if_neg (by omega)]
      have whole := decodeText_of_shows stands
      exact steady_nameText.truncated_of_begins begins (by omega) whole (by omega)
  · rw [if_neg (by omega)]
    exact if_neg two

/-- **Host names in any context.** Let a host name be written, and let any octets stand in front of
it and behind it. Under a bound that leaves room for what was written, and for two octets at
least, it is read as the host name without its final dot, or as a dot if nothing is left of it, and
the position is the one behind it. Under every other bound the octets run out. -/
theorem decodeAt_encode {host : String} {wire : List UInt8} (written : encode host = .ok wire)
    (before behind : List UInt8) (stop : Nat) :
    decodeAt (before ++ wire ++ behind).toArray before.length stop =
      if before.length + max 2 wire.length ≤ min stop (before ++ wire ++ behind).length then
        .ok (spelling host, before.length + wire.length)
      else .error .truncated := by
  obtain ⟨n, spelled, rfl⟩ := except_map_eq_ok.1 written
  rw [← text_of_ofHostName spelled]
  exact decodeAt_wire n before behind stop

/-- The root has one octet and asks for two. A bound in the midst of `a.bc` leaves a label whole,
and the octets run out all the same. -/
theorem decodeAt_encode_samples :
    decodeAt #[9, 0, 9] 1 3 = .ok (".", 2) ∧ decodeAt #[9, 0, 9] 1 2 = .error .truncated ∧
      decodeAt #[0xC0, 0, 1, 97, 2, 98, 99, 0, 7] 2 8 = .ok ("a.bc", 8) ∧
      decodeAt #[0xC0, 0, 1, 97, 2, 98, 99, 0, 7] 2 5 = .error .truncated := by
  have root : encode "." = .ok [0] := rfl
  have two : encode "a.bc." = .ok [1, 97, 2, 98, 99, 0] := rfl
  refine ⟨?_, ?_, ?_, ?_⟩
  · exact decodeAt_encode root [9] [9] 3
  · exact decodeAt_encode root [9] [9] 2
  · exact decodeAt_encode two [0xC0, 0] [7] 8
  · exact decodeAt_encode two [0xC0, 0] [7] 5

end DnsWire.Name
