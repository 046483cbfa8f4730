import DnsWire.Proofs.Guarded.Name
import DnsWire.Proofs.Message.Prefix

/-!
# Reading messages behind guards

A name is read for each question, for the owner of each record, and in the data of two types, there
with the bound at the end of the data. `Traced` readers do what decoders do but read names behind
guards, and hand back every call that this takes, whether the message is read in the end or not.

`Follows` says that a traced reader comes to what a decoder comes to and that all of its calls are
safe, as long as it begins inside the window. Decoders stay inside, so this is closed under
sequencing, and narrowing the window for record data leaves a window (`Follows.filling`). The main
statement is `names_safe`: in no message does a guard find anything.
-/

namespace DnsWire.Guarded

open Decoder

/-- A reader that hands back the calls of all names that it reads, with what it comes to. -/
def Traced (α : Type) : Type :=
  Window → Nat → List Call × Except Halt (α × Nat)

namespace Traced

variable {α β : Type}

instance : Monad Traced where
  pure a := fun _ pos => ([], .ok (a, pos))
  bind t f := fun w pos =>
    match t w pos with
    | (calls, .error h) => (calls, .error h)
    | (calls, .ok (a, next)) =>
      let rest := f a w next
      (calls ++ rest.1, rest.2)

theorem bind_apply (t : Traced α) (f : α → Traced β) (w : Window) (pos : Nat) :
    (t >>= f) w pos =
      match t w pos with
      | (calls, .error h) => (calls, .error h)
      | (calls, .ok (a, next)) => (calls ++ (f a w next).1, (f a w next).2) := rfl

/-- A value without names. -/
def plain (d : Decoder α) : Traced α :=
  fun w pos => ([], lift (d w pos))

/-- The text of a name. -/
def nameText (max : Nat) : Traced String := fun w pos =>
  let read := (Call.first (cursorAt w pos)).run max
  (read.1, read.2.map fun r => (r.1.finish, r.2.position))

/-- As many values as the count says, one behind the other. -/
def times (t : Traced α) : Nat → Traced (List α)
  | 0 => pure []
  | count + 1 => do
    let a ← t
    let others ← times t count
    return a :: others

/-- A value that takes up exactly the next `size` octets. -/
def filling (size : Nat) (t : Traced α) : Traced α := fun w pos =>
  if h : pos + size ≤ w.stop then
    let read := t (w.narrow (pos + size) h) pos
    (read.1, read.2.bind fun r =>
      if r.2 < pos + size then .error (.error (.form .trailingData)) else .ok r)
  else ([], .error (.error .truncated))

/-! ## Questions, records and messages -/

variable (max : Nat)

/-- Reads a question. -/
def question : Traced Question := do
  let name ← nameText max
  let type ← plain Decoder.word16
  let recordClass ← plain Decoder.word16
  return ⟨name, ⟨type⟩, ⟨recordClass⟩⟩

/-- Reads the part of a record in front of its data. -/
def recordHeader : Traced RecordHeader := do
  let owner ← nameText max
  let type ← plain Decoder.word16
  let recordClass ← plain Decoder.word16
  let ttl ← plain Decoder.word32
  let dataSize ← plain Decoder.word16
  return ⟨owner, ⟨type⟩, ⟨recordClass⟩, ttl, dataSize⟩

/-- The reader for data of a type. -/
def recordData (type : RecordType) : Traced RecordData :=
  if type = .cname then do
    let target ← nameText max
    return .cname target
  else if type = .mx then do
    let preference ← plain Decoder.word16
    let exchange ← nameText max
    return .mx preference exchange
  else plain (RecordData.reader type)

/-- Reads a record. -/
def record : Traced Record := do
  let h ← recordHeader max
  let data ← filling h.dataSize.toNat (recordData max h.type)
  return ⟨h.owner, h.recordClass, h.ttl, data⟩

/-- Reads the sections behind a header section. -/
def sections (head : HeaderSection) : Traced Message := do
  let questions ← times (question max) head.counts.questions.toNat
  let answer ← times (record max) head.counts.answer.toNat
  let authority ← times (record max) head.counts.authority.toNat
  let additional ← times (record max) head.counts.additional.toNat
  let trailing ← plain Decoder.remaining
  return { head, questions, answer, authority, additional, trailing }

/-- Reads a message whose header section is there. -/
def message : Traced Message := do
  let head ← plain HeaderSection.decode
  if Message.reportsError head.header then
    return { head, status := .serverError head.header.responseCode }
  else sections max head

end Traced

/-- Reads a message. -/
def decodeMessage (max : Nat) (octets : Array UInt8) : List Call × Except Halt Message :=
  if octets.size < HeaderSection.size then ([], .error (.error .tooShort))
  else
    let read := Traced.message max (Window.whole octets) 0
    (read.1, read.2.map Prod.fst)

/-- The octets in front of a bound, if there are two from `start` on. -/
def approach (octets : Array UInt8) (start stop : Nat) : Except Halt Window := do
  let part ← slice octets 0 (min stop octets.size)
  let here ← (cursorAt (.whole part) 0).seek start
  here.need 2
  return .whole part

/-- The text of the name at `start`, and the position behind the name. -/
def decodeAt (max : Nat) (octets : Array UInt8) (start stop : Nat) :
    List Call × Except Halt (String × Nat) :=
  match approach octets start stop with
  | .error h => ([], .error h)
  | .ok w => Traced.nameText max w start

/-! ## Traced readers and decoders -/

/-- Inside the windows of a message of `size` octets, the reader comes to what the decoder comes
to, and its calls are safe. -/
structure Follows {α : Type} (max size : Nat) (t : Traced α) (d : Decoder α) : Prop where
  stays : Stays d
  reads : ∀ ⦃w : Window⦄ ⦃pos : Nat⦄, w.octets.size ≤ size → pos ≤ w.stop →
    ∃ calls, t w pos = (calls, lift (d w pos)) ∧ ∀ c ∈ calls, c.Safe max size

namespace Follows

variable {α β : Type} {max size : Nat} {t : Traced α} {d : Decoder α}

theorem plain (stays : Stays d) : Follows max size (.plain d) d :=
  ⟨stays, fun _ _ _ _ => ⟨[], rfl, nofun⟩⟩

theorem pure (a : α) : Follows max size (Pure.pure a) (Pure.pure a) :=
  ⟨(Steady.pure a).stays, fun _ _ _ _ => ⟨[], rfl, nofun⟩⟩

/-- The first decoder ends inside the window, and the second reader begins there. -/
theorem bind {u : α → Traced β} {f : α → Decoder β} (first : Follows max size t d)
    (rest : ∀ a, Follows max size (u a) (f a)) : Follows max size (t >>= u) (d >>= f) where
  stays := first.stays.bind fun a => (rest a).stays
  reads := by
    intro w pos part le
    obtain ⟨calls, eq, safe⟩ := first.reads part le
    rw [Traced.bind_apply, Decoder.bind_apply, eq]
    cases read : d w pos with
    | error e => exact ⟨calls, rfl, safe⟩
    | ok r =>
        have inside := (first.stays le read).2
        obtain ⟨others, eq, safeOthers⟩ := (rest r.1).reads part inside
        refine ⟨calls ++ others, ?_, List.forall_mem_append.2 ⟨safe, safeOthers⟩⟩
        dsimp only [lift_ok]
        rw [eq]

theorem times (one : Follows max size t d) (count : Nat) :
    Follows max size (t.times count) (d.times count) := by
  induction count with
  | zero => exact pure []
  | succ count ih =>
      rw [times_succ]
      exact one.bind fun a => ih.bind fun others => pure (a :: others)

/-- The nearer bound is that of a window of the same message. -/
theorem filling (value : Follows max size t d) (octets : Nat) :
    Follows max size (t.filling octets) (d.filling octets) where
  stays := value.stays.filling octets
  reads := by
    intro w pos part le
    unfold Traced.filling Decoder.filling
    by_cases room : pos + octets ≤ w.stop
    · obtain ⟨calls, eq, safe⟩ :=
        value.reads (w := w.narrow (pos + octets) room) part (Nat.le_add_right pos octets)
      refine ⟨calls, ?_, safe⟩
      rw [dif_pos room, dif_pos room, eq]
      cases d (w.narrow (pos + octets) room) pos with
      | error e => rfl
      | ok r =>
          dsimp only [lift_ok, Except.bind]
          split <;> rfl
    · rw [dif_neg room, dif_neg room]
      exact ⟨[], rfl, nofun⟩

theorem nameText (words : 65535 ≤ max) (fits : size ≤ max) :
    Follows max size (.nameText max) Name.decodeText where
  stays := steady_nameText.stays
  reads := by
    intro w pos part le
    have begins : Call.first (cursorAt w pos) = .ofWalk w (.start pos) [] := rfl
    obtain ⟨safe, eq⟩ := run_ofWalk words fits part (keeps_start le)
    refine ⟨_, ?_, safe⟩
    refine congrArg (Prod.mk _) ?_
    rw [begins, eq, ← Name.decode_map]
    change _ = lift ((Name.decode >>= fun n => Pure.pure n.text) w pos)
    rw [Decoder.bind_apply]
    cases Name.decode w pos with
    | error e => rfl
    | ok r =>
        simp only [Except.map, lift_ok, List.nil_append, Spelling.finish_ofLabels,
          ← Name.text_eq_spelledText]
        rfl

/-! ### The parts of a message -/

variable (words : 65535 ≤ max) (fits : size ≤ max)

include words fits

theorem question : Follows max size (.question max) Question.decode :=
  (nameText words fits).bind fun _ => (plain steady_word16.stays).bind fun _ =>
    (plain steady_word16.stays).bind fun _ => pure _

theorem recordHeader : Follows max size (.recordHeader max) RecordHeader.decode :=
  (nameText words fits).bind fun _ => (plain steady_word16.stays).bind fun _ =>
    (plain steady_word16.stays).bind fun _ => (plain steady_word32.stays).bind fun _ =>
      (plain steady_word16.stays).bind fun _ => pure _

theorem recordData (type : RecordType) :
    Follows max size (.recordData max type) (RecordData.reader type) := by
  unfold Traced.recordData
  split
  · next isAlias =>
    subst isAlias
    exact (nameText words fits).bind fun _ => pure _
  split
  · next isMail =>
    subst isMail
    exact (plain steady_word16.stays).bind fun _ => (nameText words fits).bind fun _ => pure _
  · exact plain (confined_recordData type).stays

theorem record : Follows max size (.record max) Record.decode :=
  (recordHeader words fits).bind fun h =>
    ((recordData words fits h.type).filling h.dataSize.toNat).bind fun _ => pure _

theorem sections (head : HeaderSection) :
    Follows max size (.sections max head) (Message.decodeSections head) := by
  have remaining : Stays Decoder.remaining := by
    intro w pos next count le h
    cases h
    exact ⟨Nat.le_refl pos, le⟩
  have records := (record words fits).times
  exact ((question words fits).times _).bind fun _ => (records _).bind fun _ =>
    (records _).bind fun _ => (records _).bind fun _ => (plain remaining).bind fun _ => pure _

theorem message : Follows max size (.message max) Message.decoder := by
  refine (plain steady_headerSection.stays).bind fun head => ?_
  split
  · exact pure _
  · exact sections words fits head

end Follows

section

variable {max : Nat} {octets : Array UInt8}

theorem size_extract_bound (octets : Array UInt8) (bound : Nat) :
    (octets.extract 0 (min bound octets.size)).size = min bound octets.size := by
  rw [Array.size_extract]
  omega

theorem approach_eq (start stop : Nat) :
    approach octets start stop =
      if start + 2 ≤ min stop octets.size then
        .ok (.whole (octets.extract 0 (min stop octets.size)))
      else .error (.error .truncated) := by
  have size := size_extract_bound octets stop
  rw [approach, slice_of_le (Nat.zero_le _) (Nat.min_le_right ..), ok_bind, Cursor.seek]
  generalize octets.extract 0 (min stop octets.size) = part at size ⊢
  have there : { cursorAt (.whole part) 0 with position := start } =
      cursorAt (.whole part) start := rfl
  have bound : (Window.whole part).stop = min stop octets.size := size
  by_cases inside : start ≤ (Window.whole part).stop
  · rw [if_pos (by exact inside), ok_bind, there, need_cursorAt inside, bound]
    split <;> rfl
  · rw [if_neg (by exact inside), if_neg (by omega)]
    rfl

/-- The octets in front of the bound show what they show in the message. -/
theorem decodeAt_eq (words : 65535 ≤ max) (fits : octets.size ≤ max) (start stop : Nat) :
    ∃ calls, decodeAt max octets start stop = (calls, lift (Name.decodeAt octets start stop)) ∧
      ∀ c ∈ calls, c.Safe max octets.size := by
  unfold decodeAt Name.decodeAt
  rw [approach_eq]
  dsimp only [Window.upTo]
  by_cases room : start + 2 ≤ min stop octets.size
  · have size := size_extract_bound octets stop
    have inside : min stop octets.size ≤ octets.size := Nat.min_le_right ..
    have begins : (Window.whole (octets.extract 0 (min stop octets.size))).Begins
        (.upTo octets stop) := ⟨Nat.le_of_eq size, (Message.begins_extract inside).agree⟩
    have same := steady_nameText.confined.sees begins size start
    obtain ⟨calls, eq, safe⟩ := (Follows.nameText words fits).reads
      (w := .whole (octets.extract 0 (min stop octets.size)))
      (Nat.le_trans (Nat.le_of_eq size) inside)
      (Nat.le_trans (Nat.le_of_add_right_le room) (Nat.le_of_eq size.symm))
    rw [if_pos room, if_pos room]
    exact ⟨calls, eq.trans (congrArg _ (congrArg _ same)), safe⟩
  · rw [if_neg room, if_neg room]
    exact ⟨[], rfl, nofun⟩

theorem decodeMessage_eq (words : 65535 ≤ max) (fits : octets.size ≤ max) :
    ∃ calls, decodeMessage max octets = (calls, lift (Message.decode octets)) ∧
      ∀ c ∈ calls, c.Safe max octets.size := by
  unfold decodeMessage Message.decode
  by_cases short : octets.size < HeaderSection.size
  · rw [if_pos short, if_pos short]
    exact ⟨[], rfl, nofun⟩
  · obtain ⟨calls, eq, safe⟩ := (Follows.message words fits).reads
      (w := .whole octets) (Nat.le_refl _) (Nat.zero_le _)
    rw [if_neg short, if_neg short, eq, lift_map]
    exact ⟨calls, rfl, safe⟩

/-- **Reading names is safe.** Let a word hold the numbers of 16 bits at least, and the size of the
message. Then the guards around the reading of names change nothing, wherever a name is read from
the message and wherever reading has to stop, and in the decoding of the whole message: the outcome
is what it is without them. Each call on the way, also where an error comes out in the end, keeps
to its bounds, its limits and its text. -/
theorem names_safe (words : 65535 ≤ max) (fits : octets.size ≤ max) :
    (∀ start stop,
      (decodeAt max octets start stop).2 = lift (Name.decodeAt octets start stop) ∧
        ∀ c ∈ (decodeAt max octets start stop).1, c.Safe max octets.size) ∧
    (decodeMessage max octets).2 = lift (Message.decode octets) ∧
      ∀ c ∈ (decodeMessage max octets).1, c.Safe max octets.size := by
  constructor
  · intro start stop
    obtain ⟨calls, eq, safe⟩ := decodeAt_eq words fits start stop
    rw [eq]
    exact ⟨rfl, safe⟩
  · obtain ⟨calls, eq, safe⟩ := decodeMessage_eq words fits
    rw [eq]
    exact ⟨rfl, safe⟩

end

/-- A response with a question for the text of `a` and one mail record, whose owner points back to
that name. The host in its data is `m` with a pointer to the same name. One octet is left over. -/
def mailResponse : Array UInt8 :=
  #[0xAB, 0xCD, 0x81, 0x80, 0, 1, 0, 1, 0, 0, 0, 0, 1, 97, 0, 0, 15, 0, 1,
    0xC0, 12, 0, 15, 0, 1, 0, 0, 0, 60, 0, 6, 0, 10, 1, 109, 0xC0, 12, 9]

/-- The last name is read in four calls, with the bound at the end of the data, and the last of
them is behind the pointer and both labels. -/
theorem names_safe_mailResponse :
    65535 ≤ 65535 ∧ mailResponse.size = 38 ∧
    (decodeMessage 65535 mailResponse).1.map (fun c =>
        (c.runStart, c.cursor.position, c.cursor.stop, c.pointers, c.spelling.text)) =
      [(12, 12, 38, 0, ""), (12, 14, 38, 0, "a"),
        (19, 19, 38, 0, ""), (12, 12, 38, 1, ""), (12, 14, 38, 1, "a"),
        (33, 33, 37, 0, ""), (33, 35, 37, 0, "m"), (12, 12, 37, 1, "m"), (12, 14, 37, 1, "m.a")] ∧
    (decodeMessage 65535 mailResponse).2 = lift (Message.decode mailResponse) ∧
    ∀ c ∈ (decodeMessage 65535 mailResponse).1, c.Safe 65535 38 := by
  obtain ⟨-, eq, safe⟩ := @names_safe 65535 mailResponse (by decide) (by decide)
  exact ⟨Nat.le_refl _, by decide, by decide +kernel, eq, safe⟩

end DnsWire.Guarded
