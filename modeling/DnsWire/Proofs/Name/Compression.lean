import DnsWire.Proofs.Name.Spelled

/-!
# Compression is transparent

A name may end in a pointer to another name, and then the labels of that name are read as if they
stood in place of the pointer (`Name.decodeAt_compressed`): the text is the same as that of a name
with all labels written out, wherever that stands, and the limit of 255 octets holds for all
labels together, wherever they come from.

Both names are spelled, the one by `Spells.pointer` behind its own labels and the other by
`spells_of_shows`. They have the same labels, so `decodeText_of_spells` gives the same outcome
for both.
-/

namespace DnsWire.Name

theorem spelledText_singleton (label : List UInt8) :
    spelledText [label] = String.ofList (Utf8.decode label) := by
  simp [spelledText]

/-- Texts are joined by a dot, but the root has no part in a name with labels. -/
theorem spelledText_append (front behind : List (List UInt8)) :
    spelledText (front ++ behind) =
      if front = [] then spelledText behind
      else if behind = [] then spelledText front
      else spelledText front ++ "." ++ spelledText behind := by
  by_cases first : front = []
  · simp [first]
  by_cases last : behind = []
  · simp [first, last]
  · simp [spelledText, first, last, String.intercalate_append_of_ne_nil]

/-- Labels and a pointer behind them are spelled as the labels and those of the pointer's target. -/
theorem Spells.compressed {w : Window} {start target pointers behindTarget : Nat}
    {front : List Label} {behind : List (List UInt8)} {high low : UInt8}
    (run : w.Shows start (front.flatMap Label.wire ++ [high, low])) (mark : 0xC0 ≤ high)
    (offset : target = 256 * (high.toNat % 64) + low.toNat) (backwards : target < start)
    (spells : Spells w.octets w.stop target target behind pointers behindTarget) :
    Spells w.octets w.stop start start (front.map Label.octets ++ behind) (pointers + 1)
      (start + Label.wireSizes front + 2) := by
  obtain ⟨labels, at_high, at_low, room⟩ := Window.shows_append.1 run
  rw [Label.length_flatMap_wire] at at_high at_low room
  exact .prepend labels (.pointer room at_high mark at_low offset backwards spells)

/-- Names with labels have the two octets that are asked for where a name begins. -/
theorem room_of_shows_spelledWire {w : Window} {pos : Nat} {labels : List (List UInt8)}
    (shows : w.Shows pos (spelledWire labels)) (some : labels ≠ []) : pos + 2 ≤ w.stop := by
  obtain ⟨label, rest, rfl⟩ := List.exists_cons_of_ne_nil some
  have := shows.room
  simp only [spelledWire, List.flatMap_cons, List.length_append, List.length_cons] at this
  omega

/-- **Compression is transparent.** Let a name be read at `target` with at most 127 pointers, and
let labels and a pointer to it stand further down. Then the labels are read in front of the name:
their texts are joined by dots with the text of the name, unless there are none on one of the two
sides, and the position is the one behind the pointer. If the labels of both take more than 255
octets with the root, the name is too long. The same labels written out come to the same wherever
they stand; where two octets are asked for, the root alone needs another one behind it. -/
theorem decodeAt_compressed {octets : Array UInt8} {stop target start next pointers : Nat}
    {text : String} {front : List Label} {behind : List (List UInt8)} {high low : UInt8}
    (read : decodeAt octets target stop = .ok (text, next))
    (spells : Spells octets (min stop octets.size) target target behind pointers next)
    (few : pointers ≤ 127) (backwards : target < start)
    (run : (Window.upTo octets stop).Shows start (front.flatMap Label.wire ++ [high, low]))
    (mark : 0xC0 ≤ high) (offset : target = 256 * (high.toNat % 64) + low.toNat) :
    (spelledSize (front.map Label.octets ++ behind) + 1 ≤ 255 →
      decodeAt octets start stop =
        .ok (if front = [] then text
          else if behind = [] then spelledText (front.map Label.octets)
          else spelledText (front.map Label.octets) ++ "." ++ text,
          start + Label.wireSizes front + 2)) ∧
    (255 < spelledSize (front.map Label.octets ++ behind) + 1 →
      decodeAt octets start stop = .error (.form .longName)) ∧
    ∀ (octets' : Array UInt8) (start' stop' : Nat),
      (Window.upTo octets' stop').Shows start'
        (spelledWire (front.map Label.octets ++ behind)) →
      (decodeText (Window.upTo octets' stop') start').map Prod.fst =
        (decodeAt octets start stop).map Prod.fst ∧
      (front.map Label.octets ++ behind ≠ [] ∨ start' + 2 ≤ min stop' octets'.size →
        (decodeAt octets' start' stop').map Prod.fst =
          (decodeAt octets start stop).map Prod.fst) := by
  obtain ⟨n, rfl, rfl⟩ := exists_name_of_spells read spells
  have compressed := Spells.compressed (w := Window.upTo octets stop) run mark offset backwards spells
  have two : start + 2 ≤ min stop octets.size := by
    have := run.room
    rw [List.length_append] at this
    exact Nat.le_trans (Nat.add_le_add_left (Nat.le_add_left 2 _) start) this
  have outcome := decodeText_of_spells compressed (Nat.succ_le_succ few)
  rw [← decodeAt_of_room two] at outcome
  refine ⟨?_, ?_, ?_⟩
  · intro fits
    have fits : spelledSize (front.map Label.octets ++ n.labels.map Label.octets) < maxWireSize :=
      fits
    rw [outcome, if_pos fits, spelledText_append, ← text_eq_spelledText]
    simp only [List.map_eq_nil_iff]
  · intro long
    have long : ¬ spelledSize (front.map Label.octets ++ n.labels.map Label.octets) < maxWireSize :=
      Nat.not_lt.2 (Nat.le_of_lt_succ long)
    rw [outcome, if_neg long]
  · intro octets' start' stop' shows
    have room := room_of_shows_spelledWire shows
    rw [← List.map_append, spelledWire_octets] at shows
    have plain : Spells octets' (min stop' octets'.size) start' start' _ 0 _ :=
      spells_of_shows shows
    have same : (decodeText (Window.upTo octets' stop') start').map Prod.fst =
        (decodeAt octets start stop).map Prod.fst := by
      rw [outcome, decodeText_of_spells (w := Window.upTo octets' stop') plain (Nat.zero_le _),
        ← List.map_append]
      split <;> rfl
    refine ⟨same, fun asked => ?_⟩
    rw [decodeAt_of_room (asked.elim room id), same]

/-- A message with the name `com` at its start and a name behind it that ends in a pointer. -/
def compressedSample : Array UInt8 :=
  #[3, 99, 111, 109, 0, 3, 119, 119, 119, 1, 97, 0xC0, 0]

/-- The name behind `com` is read as if `com` stood at its end. -/
theorem decodeAt_compressedSample :
    decodeAt compressedSample 5 13 = .ok ("www.a.com", 13) ∧
      (decodeAt #[3, 119, 119, 119, 1, 97, 3, 99, 111, 109, 0] 0 11).map Prod.fst =
        .ok "www.a.com" := by
  let www : Label := ⟨[119, 119, 119], by decide, by decide⟩
  let a : Label := ⟨[97], by decide, by decide⟩
  have spells : Spells compressedSample (min 13 compressedSample.size) 0 0 [[99, 111, 109]] 0 5 :=
    .label rfl (by decide) (by decide) (by decide) rfl (.root (by decide) rfl)
  have read : decodeAt compressedSample 0 13 = .ok ("com", 5) := by
    rw [decodeAt_of_room (by decide)]
    exact (decodeText_of_spells (w := Window.upTo compressedSample 13) spells (by decide)).trans rfl
  have run : (Window.upTo compressedSample 13).Shows 5
      ([www, a].flatMap Label.wire ++ [0xC0, 0]) :=
    Window.shows_iff.2 ⟨by decide, by decide⟩
  obtain ⟨fits, -, plain⟩ :=
    decodeAt_compressed read spells (by decide) (by decide) run (by decide) (by decide)
  have whole : decodeAt compressedSample 5 13 = .ok ("www.a.com", 13) := (fits (by decide)).trans rfl
  have written := (plain #[3, 119, 119, 119, 1, 97, 3, 99, 111, 109, 0] 0 11
    (Window.shows_iff.2 ⟨by decide, by decide⟩)).2 (Or.inl (by decide))
  exact ⟨whole, by rw [written, whole]; rfl⟩

end DnsWire.Name
