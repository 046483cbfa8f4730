import DnsWire.Proofs.Written.Data
import DnsWire.Text.Utf8.Lemmas

/-!
# Character strings, in octets and as one text

The data of a text record and its strings determine each other: a reader that holds the data finds
the strings of which it is the concatenation, each behind its size, and takes all of it; data that
is no such concatenation is cut short (`CharacterStrings.decode_iff_wire`).

As one text, the strings are meant to stand with a space between neighbours
(`CharacterStrings.spaced`). But the text grows string by string, and a space goes in where there is
text already, not where there is a string already. So strings without octets are passed over until
the first one with octets (`CharacterStrings.toList_joined`), and each of them takes a space along
(`CharacterStrings.joined_eq_spaced_iff`).
-/

namespace DnsWire.CharacterStrings

open Decoder

/-! ## The data and its strings -/

/-- Strings one behind the other, each behind the octet that gives its size. -/
def wire (strings : List (List UInt8)) : List UInt8 :=
  strings.flatMap fun string => UInt8.ofNat string.length :: string

theorem wire_map_octets (written : List Written.CharacterString) :
    wire (written.map Written.CharacterString.octets) =
      written.flatMap Written.CharacterString.wire := by
  rw [wire, List.flatMap_map]
  rfl

theorem split_eq_some_iff {octets : List UInt8} {strings : List (List UInt8)} :
    split octets = some strings ↔
      (∀ string ∈ strings, string.length ≤ 255) ∧ octets = wire strings := by
  rw [Written.split_eq_some_iff]
  refine ⟨fun h => ?_, fun h => ?_⟩
  · obtain ⟨written, rfl, rfl⟩ := h
    refine ⟨?_, (wire_map_octets written).symm⟩
    simp only [List.forall_mem_map]
    exact fun s _ => s.size_le
  · obtain ⟨sizes, rfl⟩ := h
    have texts : (strings.pmap .mk sizes).map Written.CharacterString.octets = strings := by
      simp [List.map_pmap]
    refine ⟨strings.pmap .mk sizes, texts, ?_⟩
    rw [← wire_map_octets, texts]

variable {w : Window} {pos : Nat}

/-- Strings fail in one way only: the last one is cut short. -/
theorem decode_apply (le : pos ≤ w.stop) :
    decode w pos =
      match split (w.octets.extract pos w.stop).toList with
      | some strings => .ok (strings, w.stop)
      | none => .error .truncated := by
  unfold decode
  rw [bind_apply, rest_apply le]
  dsimp only
  cases split (w.octets.extract pos w.stop).toList <;> rfl

theorem decode_of_shows {data : List UInt8} (shows : w.Shows pos data)
    (full : w.stop = pos + data.length) :
    decode w pos =
      match split data with
      | some strings => .ok (strings, w.stop)
      | none => .error .truncated := by
  have octets := (Window.shows_iff.1 shows).2
  rw [← full] at octets
  rw [decode_apply (by omega), octets]

/-- **Strings and their octets.** Let a reader stand in front of data that its window ends with. It
finds strings exactly if none has more than 255 octets and the data is their concatenation, each
behind its size; it then ends behind the last octet. If the data is no such concatenation, it is cut
short, and there is no other error. So no two data hold the same strings. -/
theorem decode_iff_wire {data : List UInt8} (shows : w.Shows pos data)
    (full : w.stop = pos + data.length) :
    (∀ strings next, decode w pos = .ok (strings, next) ↔
      (∀ string ∈ strings, string.length ≤ 255) ∧ data = wire strings ∧ next = w.stop) ∧
    (decode w pos = .error .truncated ↔
      ¬∃ strings, (∀ string ∈ strings, string.length ≤ 255) ∧ data = wire strings) ∧
    (∀ e, decode w pos = .error e → e = .truncated) ∧
    ∀ (v : Window) (pos' next next' : Nat) (data' : List UInt8) (strings : List (List UInt8)),
      v.Shows pos' data' → v.stop = pos' + data'.length →
        decode w pos = .ok (strings, next) → decode v pos' = .ok (strings, next') →
          data = data' := by
  -- For any reader, because the last part compares two of them.
  have same : ∀ {v : Window} {pos : Nat} {data : List UInt8}, v.Shows pos data →
      v.stop = pos + data.length → ∀ strings next, decode v pos = .ok (strings, next) ↔
        (∀ string ∈ strings, string.length ≤ 255) ∧ data = wire strings ∧ next = v.stop := by
    intro v pos data shows full strings next
    rw [← and_assoc, ← split_eq_some_iff, decode_of_shows shows full]
    cases split data <;> simp [eq_comm]
  refine ⟨same shows full, ?_, ?_, ?_⟩
  · simp only [← split_eq_some_iff, decode_of_shows shows full]
    cases split data <;> simp
  · intro e
    rw [decode_of_shows shows full]
    cases split data <;> simp [eq_comm]
  · intro v pos' next next' data' strings shows' full' read read'
    rw [((same shows full _ _).1 read).2.1, ((same shows' full' _ _).1 read').2.1]

/-- Empty strings are kept wherever they stand. A string that ends beyond the data is refused. -/
theorem decode_iff_wire_samples :
    decode (.whole #[0, 2, 104, 105, 0]) 0 = .ok ([[], [104, 105], []], 5) ∧
      decode (.whole #[9, 0, 2, 104]) 1 = .error .truncated := by
  have whole : (Window.whole #[0, 2, 104, 105, 0]).Shows 0 [0, 2, 104, 105, 0] := by
    simp [Window.Shows, Window.whole]
  have short : (Window.whole #[9, 0, 2, 104]).Shows 1 [0, 2, 104] := by
    simp [Window.Shows, Window.whole]
  refine ⟨((decode_iff_wire whole rfl).1 _ _).2 ⟨by decide, rfl, rfl⟩, ?_⟩
  refine (decode_iff_wire short rfl).2.1.2 ?_
  simp [← split_eq_some_iff, split_cons]

/-! ## One text -/

/-- The separator stands in front of every part but the first one. -/
theorem intercalate_cons_eq {α : Type} (separator first : List α) (rest : List (List α)) :
    separator.intercalate (first :: rest) = first ++ rest.flatMap (separator ++ ·) := by
  induction rest generalizing first with
  | nil => simp
  | cons second rest ih => rw [List.intercalate_cons_cons, ih, List.flatMap_cons]; simp

/-- The texts of the strings with a space between neighbours. -/
def spaced (strings : List (List UInt8)) : List Char :=
  [' '].intercalate (strings.map Utf8.decode)

theorem spaced_cons (string : List UInt8) (rest : List (List UInt8)) :
    spaced (string :: rest) =
      Utf8.decode string ++ rest.flatMap fun next => ' ' :: Utf8.decode next := by
  rw [spaced, List.map_cons, intercalate_cons_eq, List.flatMap_map]
  rfl

/-- One step of the loop. -/
theorem toList_join (text : String) (string : List UInt8) :
    (join text string).toList =
      if text.toList = [] then Utf8.decode string
      else text.toList ++ ' ' :: Utf8.decode string := by
  rw [join, String.toList_append, String.toList_ofList]
  simp only [String.isEmpty_iff, String.toList_eq_nil_iff]
  split <;> simp_all

/-- Behind a text that is not empty, every string gets its space. -/
theorem toList_foldl_join (strings : List (List UInt8)) {text : String} (some : text.toList ≠ []) :
    (strings.foldl join text).toList =
      text.toList ++ strings.flatMap fun next => ' ' :: Utf8.decode next := by
  induction strings generalizing text with
  | nil => simp
  | cons string rest ih =>
      have step := toList_join text string
      rw [if_neg some] at step
      rw [List.foldl_cons, ih (by simp [step]), step]
      simp

/-- The text is that of the strings from the first one with octets on. -/
theorem toList_joined (strings : List (List UInt8)) :
    (joined strings).toList = spaced (strings.dropWhile List.isEmpty) := by
  induction strings with
  | nil => rfl
  | cons string rest ih =>
      have step := toList_join "" string
      rw [if_pos String.toList_empty] at step
      rw [joined, List.foldl_cons]
      by_cases empty : string = []
      · -- Nothing has been written, so the next string finds the text as this one did.
        rw [empty, Utf8.decode_nil, String.toList_eq_nil_iff] at step
        rw [empty, step, ← joined, ih]
        simp
      · rw [toList_foldl_join rest (by simp [step, empty]), step, ← spaced_cons]
        simp [empty]

/-- The number of spaces that the text lacks: one for each empty string at the front, as far as
another string follows. -/
def lostSpaces (strings : List (List UInt8)) : Nat :=
  min (strings.takeWhile List.isEmpty).length (strings.length - 1)

theorem lostSpaces_eq_zero {strings : List (List UInt8)} :
    lostSpaces strings = 0 ↔ strings.length ≤ 1 ∨ strings.head? ≠ some [] := by
  cases strings with
  | nil => simp [lostSpaces]
  | cons string rest => cases string <;> simp [lostSpaces]

theorem spaced_eq_replicate_append (strings : List (List UInt8)) :
    spaced strings =
      List.replicate (lostSpaces strings) ' ' ++ spaced (strings.dropWhile List.isEmpty) := by
  induction strings with
  | nil => rfl
  | cons string rest ih =>
      cases string with
      | cons octet octets => simp [lostSpaces]
      | nil =>
          cases rest with
          | nil => rfl
          | cons next rest =>
              have lost : lostSpaces ([] :: next :: rest) = lostSpaces (next :: rest) + 1 := by
                simp [lostSpaces]
              have front : spaced ([] :: next :: rest) = ' ' :: spaced (next :: rest) := by
                simp [spaced]
              rw [lost, front, ih, List.replicate_succ]
              simp

/-- **Strings as one text.** The text of the strings is their texts with a space between neighbours,
but for the spaces behind the empty strings at the front. So it is what it is meant to be exactly
if there is at most one string or the first one has octets. -/
theorem joined_eq_spaced_iff (strings : List (List UInt8)) :
    spaced strings = List.replicate (lostSpaces strings) ' ' ++ (joined strings).toList ∧
      ((joined strings).toList = spaced strings ↔
        strings.length ≤ 1 ∨ strings.head? ≠ some []) := by
  have front := spaced_eq_replicate_append strings
  rw [← toList_joined] at front
  refine ⟨front, ?_⟩
  rw [← lostSpaces_eq_zero, front, eq_comm]
  simp

/-- The space behind an empty string is lost. -/
theorem joined_leadingEmpty :
    joined [[], [97]] = "a" ∧ (joined [[], [97]]).toList ≠ spaced [[], [97]] := by
  have text : (joined [[], [97]]).toList = ['a'] := by
    rw [toList_joined]
    rfl
  refine ⟨String.toList_inj.1 text, ?_⟩
  rw [text]
  decide

end DnsWire.CharacterStrings
