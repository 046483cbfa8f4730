import DnsWire.Proofs.Message.Wire

/-!
# Questions written one behind the other

Questions are written onto a buffer that may hold anything. A question whose name cannot be written
leaves no trace: it reports the error of its name, and the buffer is the one in front of it. The
others are read back from the buffer, in order and from the position where writing began
(`Question.writeEach_readBack`). What the buffer held before is never looked at, since names are
written without pointers.

* `append_of_ok`, `append_of_error` — what comes of one question, and `writeEach_cons`, the step of
  `writeEach`.
* `buffers`, `final` — the buffers in front of the questions, and the last one.
* `appended` — the octets that questions add to a buffer, whichever that is. `final_eq` separates
  them from the buffer, and `times_of_shows_appended` reads them.
-/

namespace DnsWire.Question

open Decoder

/-! ## One question -/

theorem append_of_ok {q : Question} {octets : List UInt8} (h : q.encode = .ok octets)
    (buffer : List UInt8) : q.append buffer = (none, buffer ++ octets) := by
  unfold append
  rw [h]

theorem append_of_error {q : Question} {e : EncodeError} (h : q.encode = .error e)
    (buffer : List UInt8) : q.append buffer = (some e, buffer) := by
  unfold append
  rw [h]

/-- A question is not written for the reason for which its name is not. -/
theorem fst_append_eq_some {q : Question} {buffer : List UInt8} {e : EncodeError} :
    (q.append buffer).1 = some e ↔ Name.encode q.name = .error e := by
  rw [← encode_eq_error]
  cases written : q.encode with
  | ok octets => simp [append_of_ok written]
  | error e' => simp [append_of_error written]

/-- A question that is not written leaves the buffer as it was. -/
theorem snd_append_of_ne_none {q : Question} {buffer : List UInt8}
    (h : (q.append buffer).1 ≠ none) : (q.append buffer).2 = buffer := by
  cases written : q.encode with
  | ok octets =>
      rw [append_of_ok written] at h
      exact absurd rfl h
  | error e => rw [append_of_error written]

theorem writeEach_cons (buffer : List UInt8) (q : Question) (others : List Question) :
    writeEach buffer (q :: others) =
      q.append buffer :: writeEach (q.append buffer).2 others := rfl

/-! ## The buffers -/

/-- The buffer in front of each question, and the one behind the last. -/
def buffers (buffer : List UInt8) (qs : List Question) : List (List UInt8) :=
  buffer :: (writeEach buffer qs).map Prod.snd

/-- The buffer behind the last question. -/
def final (buffer : List UInt8) (qs : List Question) : List UInt8 :=
  (buffers buffer qs).getLast (List.cons_ne_nil _ _)

theorem buffers_cons (buffer : List UInt8) (q : Question) (others : List Question) :
    buffers buffer (q :: others) = buffer :: buffers (q.append buffer).2 others := by
  rw [buffers, writeEach_cons]
  rfl

theorem final_cons (buffer : List UInt8) (q : Question) (others : List Question) :
    final buffer (q :: others) = final (q.append buffer).2 others := by
  simp only [final, buffers_cons]
  exact List.getLast_cons _

theorem length_writeEach (buffer : List UInt8) (qs : List Question) :
    (writeEach buffer qs).length = qs.length := by
  induction qs generalizing buffer with
  | nil => rfl
  | cons q others ih => rw [writeEach_cons, List.length_cons, List.length_cons, ih]

/-- Each question is written onto the buffer in front of it. -/
theorem writeEach_getElem? {qs : List Question} {i : Nat} {q : Question} (h : qs[i]? = some q)
    (buffer : List UInt8) :
    ∃ before, (buffers buffer qs)[i]? = some before ∧
      (writeEach buffer qs)[i]? = some (q.append before) := by
  induction qs generalizing buffer i with
  | nil => cases h
  | cons first others ih =>
      rw [buffers_cons, writeEach_cons]
      cases i with
      | zero =>
          cases h
          exact ⟨buffer, rfl, rfl⟩
      | succ i => exact ih h (first.append buffer).2

/-! ## What is written -/

/-- The questions that were written, as what came of each of them says. -/
def written (buffer : List UInt8) (qs : List Question) : List Question :=
  ((qs.zip (writeEach buffer qs)).filter fun r => r.2.1.isNone).map Prod.fst

/-- The octets that questions add to a buffer. -/
def appended (qs : List Question) : List UInt8 :=
  (qs.filterMap fun q => q.encode.toOption).flatten

/-- A question as it is read back: its name is spelled without a dot at its end. -/
def spelled (q : Question) : Question :=
  { q with name := Name.spelling q.name }

theorem written_cons_of_ok {q : Question} {octets : List UInt8} (h : q.encode = .ok octets)
    (buffer : List UInt8) (others : List Question) :
    written buffer (q :: others) = q :: written (buffer ++ octets) others := by
  simp [written, writeEach_cons, append_of_ok h]

theorem written_cons_of_error {q : Question} {e : EncodeError} (h : q.encode = .error e)
    (buffer : List UInt8) (others : List Question) :
    written buffer (q :: others) = written buffer others := by
  simp [written, writeEach_cons, append_of_error h]

theorem appended_cons_of_ok {q : Question} {octets : List UInt8} (h : q.encode = .ok octets)
    (others : List Question) : appended (q :: others) = octets ++ appended others := by
  simp [appended, h, Except.toOption]

theorem appended_cons_of_error {q : Question} {e : EncodeError} (h : q.encode = .error e)
    (others : List Question) : appended (q :: others) = appended others := by
  simp [appended, h, Except.toOption]

/-- The buffer grows at its end by octets that do not depend on it. -/
theorem final_eq (buffer : List UInt8) (qs : List Question) :
    final buffer qs = buffer ++ appended qs := by
  induction qs generalizing buffer with
  | nil => exact (List.append_nil buffer).symm
  | cons q others ih =>
      rw [final_cons, ih]
      cases encoded : q.encode with
      | ok octets =>
          rw [append_of_ok encoded, appended_cons_of_ok encoded, List.append_assoc]
      | error e => rw [append_of_error encoded, appended_cons_of_error encoded]

/-- The questions that were written are read one by one where the octets stand that they added. -/
theorem times_of_shows_appended {w : Window} {pos : Nat} {qs : List Question}
    (shows : w.Shows pos (appended qs)) (buffer : List UInt8) :
    Question.decode.times (written buffer qs).length w pos =
      .ok ((written buffer qs).map spelled, pos + (appended qs).length) := by
  induction qs generalizing pos buffer with
  | nil => rfl
  | cons q others ih =>
      cases encoded : q.encode with
      | ok octets =>
          rw [appended_cons_of_ok encoded, Window.shows_append] at shows
          have first := decode_of_encode encoded shows.1
          have rest := ih shows.2 (buffer ++ octets)
          rw [written_cons_of_ok encoded, appended_cons_of_ok encoded, List.length_cons, times_succ,
            List.length_append, ← Nat.add_assoc]
          exact bind_eq_ok.2 ⟨_, _, first, bind_eq_ok.2 ⟨_, _, rest, rfl⟩⟩
      | error e =>
          rw [appended_cons_of_error encoded] at shows
          rw [written_cons_of_error encoded, appended_cons_of_error encoded]
          exact ih shows buffer

/-- **Questions are read back, and failed ones leave no trace.** Let questions be written one behind
the other onto a buffer. Each of them fails exactly as its name does, and the buffer is then what it
was in front of it. The last buffer begins with the first one, and from where that ends as many
questions are read as were written: these, in order, each with its type and class and with its name
without a final dot. They end where the buffer does. -/
theorem writeEach_readBack (buffer : List UInt8) (qs : List Question) :
    (writeEach buffer qs).length = qs.length ∧
    (∀ (i : Nat) (q : Question), qs[i]? = some q → ∃ before outcome behind,
      (buffers buffer qs)[i]? = some before ∧
      (writeEach buffer qs)[i]? = some (outcome, behind) ∧
      (∀ e, outcome = some e ↔ Name.encode q.name = .error e) ∧
      (outcome ≠ none → behind = before)) ∧
    buffer <+: final buffer qs ∧
    Question.decode.times (written buffer qs).length (Window.whole (final buffer qs).toArray)
      buffer.length =
        .ok ((written buffer qs).map fun q => ⟨Name.spelling q.name, q.type, q.recordClass⟩,
          (final buffer qs).length) := by
  refine ⟨length_writeEach buffer qs, ?_, ?_, ?_⟩
  · intro i q at_i
    obtain ⟨before, in_front, came⟩ := writeEach_getElem? at_i buffer
    exact ⟨before, _, _, in_front, came, fun _ => fst_append_eq_some, snd_append_of_ne_none⟩
  · rw [final_eq]
    exact List.prefix_append _ _
  · have stands := Window.shows_between buffer (appended qs) []
    rw [List.append_nil, ← final_eq] at stands
    have read := times_of_shows_appended stands buffer
    rw [← List.length_append, ← final_eq] at read
    exact read

/-- Three questions, the second one with an empty label in its name, behind octets that would be a
pointer. -/
theorem writeEach_readBack_sample :
    let qs : List Question := [⟨"a.", .mx, .internet⟩, ⟨"b..c", .a, .internet⟩, ⟨"", .txt, ⟨255⟩⟩]
    (writeEach [0xC0, 12] qs)[1]? = some (some .emptyLabel, [0xC0, 12, 1, 97, 0, 0, 15, 0, 1]) ∧
      Question.decode.times 2
        (Window.whole #[0xC0, 12, 1, 97, 0, 0, 15, 0, 1, 0, 0, 16, 0, 255]) 2 =
          .ok ([⟨"a", .mx, .internet⟩, ⟨".", .txt, ⟨255⟩⟩], 14) := by
  intro qs
  obtain ⟨-, each, -, read⟩ := writeEach_readBack [0xC0, 12] qs
  obtain ⟨before, outcome, behind, in_front, came, fails, same⟩ := each 1 _ rfl
  cases in_front
  have failed : outcome = some .emptyLabel := (fails .emptyLabel).2 rfl
  rw [came, failed, same (by simp [failed])]
  exact ⟨rfl, read⟩

end DnsWire.Question
