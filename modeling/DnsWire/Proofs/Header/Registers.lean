import Mathlib.Algebra.GroupWithZero.Nat
import Mathlib.Data.List.GetD
import DnsWire.Proofs.Header.Bits
import DnsWire.Proofs.Header.Wire

/-!
# The fields of a header section are registers

Eleven fields share the third and the fourth octet of a header section, and nine of them are a
single bit. This module says what that means for whoever sets them: however often and in whatever
order fields are changed, each of them holds what was last written to it, in the section and in its
octets (`HeaderSection.registers`).

* `HeaderSection.Field`, `get` — the fields and their values, as numbers.
* `Field.place`, `Field.read` — where a field stands. The twelve octets are six words of 16 bits,
  and a field is a number of neighbouring bits of one word.
* `Write.value?` — what a change writes to a field, if anything.
* `Puts` — one field holds a number now, and no other bit is touched.

## Proof shape

What is read with a mask is what stands in the place of a field (`get_eq_read`). Each change puts
a number into one place, whatever its mask (`puts_flag`, `puts_opcode`, `puts_responseCode`), or
does so for one flag after the other, and the places lie apart (`Field.apart`). So one change gives
its fields their values and leaves all others as they are (`get_write`), and a sequence of changes
follows by induction (`get_writeAll`).
-/

namespace DnsWire

theorem Flags.get_flags (h : Header) (name : Flag) : h.flags.get name = h.flag name := by
  cases name <;> rfl

theorem Header.toNat_flag (h : Header) (name : Flag) :
    (h.flag name).toNat = (h.octet name.octet).toNat >>> name.bit.toNat % 2 := by
  have bits (x : BitVec 8) : ∀ bit ∈ Flag.all.map Flag.bit,
      (UInt8.ofBitVec x &&& (1 : UInt8) <<< bit != 0).toNat = x.toNat >>> bit.toNat % 2 := by
    revert x
    decide +kernel
  have mem : name.bit ∈ Flag.all.map Flag.bit := by cases name <;> decide
  exact bits (h.octet name.octet).toBitVec name.bit mem

theorem Header.toNat_reserved (h : Header) :
    h.reserved.toNat = (h.octet 3).toNat / 64 % 2 := by
  have bit (x : BitVec 8) :
      (UInt8.ofBitVec x &&& (1 : UInt8) <<< (6 : UInt8) != 0).toNat = x.toNat / 64 % 2 := by
    revert x
    decide +kernel
  exact bit (h.octet 3).toBitVec

theorem Header.toNat_opcode (h : Header) :
    h.opcode.code.toNat = (h.octet 2).toNat / 8 % 16 := by
  have bits (x : BitVec 8) :
      (UInt8.ofBitVec x >>> (3 : UInt8) &&& 0x0F).toNat = x.toNat / 8 % 16 := by
    revert x
    decide +kernel
  exact bits (h.octet 2).toBitVec

namespace HeaderSection

/-! ## Fields and changes -/

/-- The fields of a header section. -/
inductive Field where
  | id
  | flag (name : Flag)
  | opcode
  /-- The one bit without a meaning. No change touches it. -/
  | reserved
  | responseCode
  | questions
  | answer
  | authority
  | additional
  deriving DecidableEq

/-- The value of a field as a number. -/
def get (s : HeaderSection) : Field → Nat
  | .id => s.header.id.toNat
  | .flag name => (s.header.flag name).toNat
  | .opcode => s.header.opcode.code.toNat
  | .reserved => s.header.reserved.toNat
  | .responseCode => s.header.responseCode.code.toNat
  | .questions => s.counts.questions.toNat
  | .answer => s.counts.answer.toNat
  | .authority => s.counts.authority.toNat
  | .additional => s.counts.additional.toNat

/-- What a change writes to a field. The two codes have four bits, and a change of all flags writes
to each of them. -/
def Write.value? : Write → Field → Option Nat
  | .id value, .id => some value.toNat
  | .opcode value, .opcode => some (value.code.toNat % 16)
  | .responseCode value, .responseCode => some (value.code.toNat % 16)
  | .flag name value, .flag other => if name = other then some value.toNat else none
  | .flags value, .flag other => some (value.get other).toNat
  | .questions value, .questions => some value.toNat
  | .answer value, .answer => some value.toNat
  | .authority value, .authority => some value.toNat
  | .additional value, .additional => some value.toNat
  | _, _ => none

/-! ## Where the fields stand -/

/-- Some bits of one of the words that twelve octets make up: the number of the word, the number of
bits behind them in the word, and how many they are. -/
structure Place where
  word : Nat
  shift : Nat
  width : Nat
  deriving DecidableEq

/-- The place of a field. -/
def Field.place : Field → Place
  | .id => ⟨0, 0, 16⟩
  | .flag .qr => ⟨1, 15, 1⟩
  | .opcode => ⟨1, 11, 4⟩
  | .flag .aa => ⟨1, 10, 1⟩
  | .flag .tc => ⟨1, 9, 1⟩
  | .flag .rd => ⟨1, 8, 1⟩
  | .flag .ra => ⟨1, 7, 1⟩
  | .reserved => ⟨1, 6, 1⟩
  | .flag .ad => ⟨1, 5, 1⟩
  | .flag .cd => ⟨1, 4, 1⟩
  | .responseCode => ⟨1, 0, 4⟩
  | .questions => ⟨2, 0, 16⟩
  | .answer => ⟨3, 0, 16⟩
  | .authority => ⟨4, 0, 16⟩
  | .additional => ⟨5, 0, 16⟩

/-- All fields. -/
def Field.all : List Field :=
  Flag.all.map .flag ++
    [.id, .opcode, .reserved, .responseCode, .questions, .answer, .authority, .additional]

theorem Field.mem_all (f : Field) : f ∈ all := by
  cases f with
  | flag name => cases name <;> decide
  | _ => decide

theorem Field.fits (f : Field) : f.place.shift + f.place.width ≤ 16 := by
  have all : ∀ f ∈ all, f.place.shift + f.place.width ≤ 16 := by decide
  exact all f f.mem_all

/-- No two fields share a bit. -/
theorem Field.apart {f g : Field} (ne : f ≠ g) (same : f.place.word = g.place.word) :
    g.place.shift + g.place.width ≤ f.place.shift ∨
      f.place.shift + f.place.width ≤ g.place.shift := by
  have all : ∀ f ∈ all, ∀ g ∈ all, f ≠ g → f.place.word = g.place.word →
      g.place.shift + g.place.width ≤ f.place.shift ∨
        f.place.shift + f.place.width ≤ g.place.shift := by decide
  exact all f f.mem_all g g.mem_all ne same

/-- The word of 16 bits with this number among octets. -/
def wordAt (octets : List UInt8) (i : Nat) : UInt16 :=
  word16 (octets.getD (2 * i) 0) (octets.getD (2 * i + 1) 0)

/-- What stands in the place of a field. -/
def Field.read (f : Field) (octets : List UInt8) : Nat :=
  ((wordAt octets f.place.word).toBitVec.extractLsb' f.place.shift f.place.width).toNat

/-! ## What is read -/

section

variable (s : HeaderSection)

/-- The words of a header section are two of its header. -/
theorem wordAt_header {i : Nat} (lt : i < 2) :
    wordAt s.wire i = wordOf s.header.octets (2 * i) := by
  have length := s.header.length_wire
  rw [wordAt, wire, List.getD_append _ _ _ _ (by omega), List.getD_append _ _ _ _ (by omega),
    List.getD_eq_getElem _ _ (by omega), List.getD_eq_getElem _ _ (by omega)]
  rfl

/-- And they are four of its counts. -/
theorem wordAt_counts {i : Nat} (lt : i < 4) :
    wordAt s.wire (i + 2) = wordOf s.counts.octets (2 * i) := by
  have header := s.header.length_wire
  have counts := s.counts.length_wire
  rw [wordAt, wire, List.getD_append_right _ _ _ _ (by omega),
    List.getD_append_right _ _ _ _ (by omega), List.getD_eq_getElem _ _ (by omega),
    List.getD_eq_getElem _ _ (by omega)]
  simp only [header, Counts.wire, Vector.getElem_toList, wordOf]
  congr 2

theorem wordAt_beyond {i : Nat} (beyond : 6 ≤ i) : wordAt s.wire i = 0 := by
  have length := s.length_wire
  rw [size] at length
  rw [wordAt, List.getD_eq_default _ _ (by omega), List.getD_eq_default _ _ (by omega)]
  rfl

/-- The bits of the word of flags and codes, from its two octets. -/
theorem extract_shared (shift width : Nat) :
    ((wordAt s.wire 1).toBitVec.extractLsb' shift width).toNat =
      (256 * (s.header.octet 2).toNat + (s.header.octet 3).toNat) >>> shift % 2 ^ width := by
  rw [wordAt_header s (by omega), BitVec.extractLsb'_toNat]
  exact congrArg (· >>> shift % 2 ^ width) (toNat_word16 _ _)

theorem extract_whole (word : UInt16) : (word.toBitVec.extractLsb' 0 16).toNat = word.toNat := by
  rw [BitVec.extractLsb'_eq_self]
  rfl

/-- A field has the value that stands in its place. -/
theorem get_eq_read (f : Field) : s.get f = f.read s.wire := by
  have high := (s.header.octet 2).toNat_lt
  have low := (s.header.octet 3).toNat_lt
  unfold Field.read
  cases f with
  | flag name =>
      rw [get, Header.toNat_flag]
      cases name <;> simp only [Field.place, extract_shared, Nat.shiftRight_eq_div_pow, Flag.octet,
        Flag.bit, UInt8.reduceToNat] <;> omega
  | opcode =>
      rw [get, Header.toNat_opcode]
      simp only [Field.place, extract_shared, Nat.shiftRight_eq_div_pow]
      omega
  | reserved =>
      rw [get, Header.toNat_reserved]
      simp only [Field.place, extract_shared, Nat.shiftRight_eq_div_pow]
      omega
  | responseCode =>
      rw [get, Header.toNat_responseCode]
      simp only [Field.place, extract_shared, Nat.shiftRight_eq_div_pow]
      omega
  | id =>
      simp only [Field.place, extract_whole]
      rw [wordAt_header s (i := 0) (by omega)]
      rfl
  | questions =>
      simp only [Field.place, extract_whole]
      rw [wordAt_counts s (i := 0) (by omega)]
      rfl
  | answer =>
      simp only [Field.place, extract_whole]
      rw [wordAt_counts s (i := 1) (by omega)]
      rfl
  | authority =>
      simp only [Field.place, extract_whole]
      rw [wordAt_counts s (i := 2) (by omega)]
      rfl
  | additional =>
      simp only [Field.place, extract_whole]
      rw [wordAt_counts s (i := 3) (by omega)]
      rfl

end

/-! ## What is written -/

/-- A number has been put in the place of a field, and no other bit has been touched. -/
structure Puts (f : Field) (value : Nat) (s t : HeaderSection) : Prop where
  others : ∀ i ≠ f.place.word, wordAt t.wire i = wordAt s.wire i
  bits : PutsBits f.place.shift f.place.width value (wordAt s.wire f.place.word).toBitVec
    (wordAt t.wire f.place.word).toBitVec

section

variable {s t : HeaderSection} {f g : Field} {value : Nat}

theorem Puts.get_same (puts : Puts f value s t) : t.get f = value % 2 ^ f.place.width := by
  rw [get_eq_read]
  exact puts.bits.extract_same f.fits

/-- Fields lie apart, so no other field sees what was put into one. -/
theorem Puts.get_other (puts : Puts f value s t) (ne : f ≠ g) : t.get g = s.get g := by
  rw [get_eq_read, get_eq_read, Field.read, Field.read]
  by_cases same : f.place.word = g.place.word
  · rw [← same, puts.bits.extract_apart g.fits (Field.apart ne same)]
  · rw [puts.others _ (Ne.symm same)]

/-- A word is the same where the same octets stand. -/
theorem wordAt_congr {i : Nat}
    (header : ∀ lt : i < 2, wordOf t.header.octets (2 * i) = wordOf s.header.octets (2 * i))
    (counts : ∀ k, ∀ lt : k < 4, i = k + 2 →
      wordOf t.counts.octets (2 * k) = wordOf s.counts.octets (2 * k)) :
    wordAt t.wire i = wordAt s.wire i := by
  by_cases first : i < 2
  · rw [wordAt_header _ first, wordAt_header _ first, header first]
  by_cases beyond : 6 ≤ i
  · rw [wordAt_beyond _ beyond, wordAt_beyond _ beyond]
  · obtain ⟨k, rfl⟩ := Nat.exists_eq_add_of_le' (Nat.not_lt.1 first)
    have lt : k < 4 := by omega
    rw [wordAt_counts _ lt, wordAt_counts _ lt, counts k lt rfl]

/-- A word of the header is changed in the place of a field. -/
theorem puts_header {h : Header} (inside : f.place.word < 2)
    (others : ∀ i, ∀ lt : i < 2, i ≠ f.place.word →
      wordOf h.octets (2 * i) = wordOf s.header.octets (2 * i))
    (bits : PutsBits f.place.shift f.place.width value
      (wordOf s.header.octets (2 * f.place.word)).toBitVec
      (wordOf h.octets (2 * f.place.word)).toBitVec) :
    Puts f value s { s with header := h } where
  others := fun i ne => wordAt_congr (fun lt => others i lt ne) fun _ _ _ => rfl
  bits := by
    rw [wordAt_header _ inside, wordAt_header _ inside]
    exact bits

/-- The identifier is changed. -/
theorem puts_id (word : UInt16) :
    Puts .id word.toNat s { s with header := s.header.setId word } := by
  refine puts_header Nat.zero_lt_two ?_ ?_
  · intro i lt ne
    have apart : 0 < i := Nat.pos_of_ne_zero ne
    exact wordOf_setWord_of_apart _ _ (by omega) _ (by omega)
  · have written : wordOf (s.header.setId word).octets (2 * 0) = word := wordOf_setWord _ _ _ _
    simp only [Field.place, written]
    exact PutsBits.whole _ _

/-- A count is changed. -/
theorem puts_count (f : Field) {k : Nat} (lt : k < 4) (place : f.place = ⟨k + 2, 0, 16⟩)
    (word : UInt16) :
    Puts f word.toNat s { s with counts := ⟨setWord s.counts.octets (2 * k) word⟩ } where
  others := by
    intro i ne
    rw [place] at ne
    dsimp only at ne
    exact wordAt_congr (fun _ => rfl) fun m small eq =>
      wordOf_setWord_of_apart _ _ (by omega) _ (by omega)
  bits := by
    rw [place]
    dsimp only
    rw [wordAt_counts _ lt, wordAt_counts _ lt]
    dsimp only
    rw [wordOf_setWord]
    exact PutsBits.whole _ _

/-- An octet of the word of flags and codes is changed, which the identifier stands in front of. -/
theorem puts_octet {i : Fin 4} {octet : UInt8} (beyond : 2 ≤ i.val) (word : f.place.word = 1)
    (bits : PutsBits f.place.shift f.place.width value
      (word16 (s.header.octet 2) (s.header.octet 3)).toBitVec
      (word16 ((s.header.setOctet i octet).octet 2)
        ((s.header.setOctet i octet).octet 3)).toBitVec) :
    Puts f value s { s with header := s.header.setOctet i octet } := by
  refine puts_header (by rw [word]; exact Nat.one_lt_two) (fun k lt ne => ?_) ?_
  · obtain rfl : k = 0 := by omega
    unfold wordOf Header.setOctet
    rw [Vector.getElem_set_ne _ _ (by omega), Vector.getElem_set_ne _ _ (by omega)]
  · simp only [word]
    exact bits

/-- Bits of the third octet are changed. -/
theorem puts_high {shift width : Nat} {octet : UInt8} (place : f.place = ⟨1, shift + 8, width⟩)
    (bits : PutsBits shift width value (s.header.octet 2).toBitVec octet.toBitVec) :
    Puts f value s { s with header := s.header.setOctet 2 octet } := by
  refine puts_octet (by decide) (by rw [place]) ?_
  rw [place, Header.octet_setOctet, Header.octet_setOctet, if_pos rfl, if_neg (by decide),
    toBitVec_word16, toBitVec_word16]
  exact bits.append_left _

/-- Bits of the fourth octet are changed. -/
theorem puts_low {shift width : Nat} {octet : UInt8} (place : f.place = ⟨1, shift, width⟩)
    (fits : shift + width ≤ 8)
    (bits : PutsBits shift width value (s.header.octet 3).toBitVec octet.toBitVec) :
    Puts f value s { s with header := s.header.setOctet 3 octet } := by
  refine puts_octet (by decide) (by rw [place]) ?_
  rw [place, Header.octet_setOctet, Header.octet_setOctet, if_pos rfl, if_neg (by decide),
    toBitVec_word16, toBitVec_word16]
  exact bits.append_right fits _

/-- A flag is changed with a mask of its one bit. -/
theorem puts_flag (name : Flag) (on : Bool) :
    Puts (.flag name) on.toNat s { s with header := s.header.setFlag name on } := by
  have octet : s.header.setFlag name on = s.header.setOctet name.octet
      (if on then s.header.octet name.octet ||| (1 : UInt8) <<< name.bit
        else s.header.octet name.octet &&& ~~~((1 : UInt8) <<< name.bit)) := by
    unfold Header.setFlag Header.setBit
    split <;> rfl
  have lt : name.bit.toNat < 8 := by cases name <;> decide
  have bits := putsBits_setBit (s.header.octet name.octet) lt on
  rw [octet]
  cases name with
  | qr => exact puts_high rfl bits
  | aa => exact puts_high rfl bits
  | tc => exact puts_high rfl bits
  | rd => exact puts_high rfl bits
  | ra => exact puts_low rfl (by decide) bits
  | ad => exact puts_low rfl (by decide) bits
  | cd => exact puts_low rfl (by decide) bits

/-- The opcode is changed with a mask of four bits. -/
theorem puts_opcode (code : Opcode) :
    Puts .opcode code.code.toNat s { s with header := s.header.setOpcode code } :=
  puts_high rfl (putsBits_opcode _ _)

/-- So is the response code. -/
theorem puts_responseCode (code : ResponseCode) :
    Puts .responseCode code.code.toNat s { s with header := s.header.setResponseCode code } :=
  puts_low rfl (by decide) (putsBits_responseCode _ _)

/-! ## Changes -/

/-- What is read after a number has been put into a field. -/
theorem Puts.get_eq (puts : Puts f value s t) (g : Field) :
    t.get g = if f = g then value % 2 ^ f.place.width else s.get g := by
  split
  · next same => rw [← same, puts.get_same]
  · next other => exact puts.get_other other

theorem toNat_mod_width (on : Bool) (name : Flag) :
    on.toNat % 2 ^ (Field.flag name).place.width = on.toNat := by
  cases on <;> cases name <;> rfl

/-- Flags are changed one after the other, and each of them holds its own value. -/
theorem get_setFlags (value : Flags) (names : List Flag) (s : HeaderSection) (g : Field) :
    let changed := names.foldl (fun h name => h.setFlag name (value.get name)) s.header
    get { s with header := changed } g =
      (if g ∈ names.map .flag then Write.value? (.flags value) g else none).getD (s.get g) := by
  induction names generalizing s with
  | nil => rfl
  | cons name rest ih =>
      have step := (puts_flag (s := s) name (value.get name)).get_eq g
      rw [toNat_mod_width] at step
      rw [List.foldl_cons, List.map_cons]
      refine (ih { s with header := s.header.setFlag name (value.get name) }).trans ?_
      rw [step]
      by_cases later : g ∈ rest.map Field.flag
      · obtain ⟨other, -, rfl⟩ := List.mem_map.1 later
        rw [if_pos later, if_pos (List.mem_cons_of_mem _ later)]
        rfl
      by_cases same : Field.flag name = g
      · subst same
        rw [if_neg later, if_pos List.mem_cons_self, if_pos rfl]
        rfl
      · rw [if_neg later, if_neg same, if_neg]
        exact List.not_mem_cons_of_ne_of_not_mem (Ne.symm same) later

/-- A change of one field, by what it puts there and what of it is kept. -/
theorem get_write_of_puts {w : Write} {kept : Nat} (puts : Puts f value s (s.write w))
    (fits : value % 2 ^ f.place.width = kept)
    (only : ∀ g, w.value? g = if f = g then some kept else none) (g : Field) :
    (s.write w).get g = (w.value? g).getD (s.get g) := by
  rw [puts.get_eq, fits, only]
  split <;> rfl

/-- A change gives its own fields their value and leaves all others as they are. -/
theorem get_write (s : HeaderSection) (w : Write) (g : Field) :
    (s.write w).get g = (w.value? g).getD (s.get g) := by
  have word (value : UInt16) : value.toNat % 2 ^ 16 = value.toNat := Nat.mod_eq_of_lt value.toNat_lt
  cases w with
  | flags value =>
      refine (get_setFlags value Flag.all s g).trans ?_
      cases g with
      | flag other => cases other <;> rfl
      | _ => rfl
  | flag name value =>
      refine get_write_of_puts (puts_flag name value) (toNat_mod_width value name) (fun f => ?_) g
      cases f with
      | flag other => simp only [Write.value?, Field.flag.injEq]
      | _ => rfl
  | opcode value =>
      exact get_write_of_puts (puts_opcode value) rfl (fun f => by cases f <;> rfl) g
  | responseCode value =>
      exact get_write_of_puts (puts_responseCode value) rfl (fun f => by cases f <;> rfl) g
  | id value =>
      exact get_write_of_puts (puts_id value) (word value) (fun f => by cases f <;> rfl) g
  | questions value =>
      exact get_write_of_puts (puts_count .questions (k := 0) (by decide) rfl value) (word value)
        (fun f => by cases f <;> rfl) g
  | answer value =>
      exact get_write_of_puts (puts_count .answer (k := 1) (by decide) rfl value) (word value)
        (fun f => by cases f <;> rfl) g
  | authority value =>
      exact get_write_of_puts (puts_count .authority (k := 2) (by decide) rfl value) (word value)
        (fun f => by cases f <;> rfl) g
  | additional value =>
      exact get_write_of_puts (puts_count .additional (k := 3) (by decide) rfl value) (word value)
        (fun f => by cases f <;> rfl) g

/-- After a sequence of changes a field has the value that the last one to touch it has written. -/
theorem get_writeAll (writes : List Write) (s : HeaderSection) (f : Field) :
    (s.writeAll writes).get f =
      (writes.filterMap (·.value? f)).getLast?.getD (s.get f) := by
  unfold writeAll
  induction writes generalizing s with
  | nil => rfl
  | cons w rest ih =>
      rw [List.foldl_cons, ih, get_write]
      cases written : w.value? f with
      | none => simp [written]
      | some value => simp [written, List.getLast?_cons]

theorem reserved_writeAll (writes : List Write) (s : HeaderSection) :
    (s.writeAll writes).header.reserved = s.header.reserved := by
  have untouched : writes.filterMap (·.value? .reserved) = [] := by
    rw [List.filterMap_eq_nil_iff]
    intro w _
    cases w <;> rfl
  have same := get_writeAll writes s .reserved
  rw [untouched] at same
  have bits : (s.writeAll writes).header.reserved.toNat = s.header.reserved.toNat := same
  rw [Bool.eq_iff_iff, ← Bool.toNat_eq_one, ← Bool.toNat_eq_one, bits]

end

/-! ## Twelve octets -/

/-- Any twelve octets are those of a header section. -/
theorem exists_wire_eq (octets : Vector UInt8 12) :
    ∃ s : HeaderSection, s.wire = octets.toList := by
  refine ⟨⟨⟨octets.extract 0 4⟩, ⟨octets.extract 4 12⟩⟩, ?_⟩
  have rear : (octets.toList.drop 4).take 8 = octets.toList.drop 4 := by
    rw [List.take_of_length_le]
    simp
  show (octets.toArray.extract 0 4).toList ++ (octets.toArray.extract 4 12).toList = octets.toList
  rw [Array.toList_extract, Array.toList_extract, List.extract_eq_take_drop,
    List.extract_eq_take_drop]
  show (octets.toList.drop 0).take 4 ++ (octets.toList.drop 4).take 8 = octets.toList
  rw [rear, List.drop_zero, List.take_append_drop]

/-- A section is read back from its octets, with anything behind them. -/
theorem decode_wire_append (s : HeaderSection) (behind : List UInt8) :
    decode (Window.whole (s.wire ++ behind).toArray) 0 = .ok (s, size) :=
  decode_eq_ok.2 ⟨Window.shows_between [] s.wire behind, rfl⟩

/-- **Header fields are registers.** Any twelve octets are read as a header section, and are kept
as they are. Let fields of it be changed, any number of them in any order. Then every field has the
value that was last written to it, of the two codes the low four bits, or if there is none the one
that stood in its place among the twelve octets; and the octets of the changed section have that
value in the place of the field. Asked for all flags at once, the section gives each its value. The
reserved bit is as it was, the records are as many as the last three counts in the octets say
together, and the changed section is read back from its own twelve octets, whatever follows
them. -/
theorem registers (octets : Vector UInt8 12) :
    ∃ s, decode (Window.whole octets.toArray) 0 = .ok (s, 12) ∧ s.wire = octets.toList ∧
      ∀ writes : List Write,
        let t := s.writeAll writes
        (∀ f, t.get f = (writes.filterMap (·.value? f)).getLast?.getD (f.read octets.toList) ∧
          f.read t.wire = t.get f) ∧
        (∀ name, t.header.flags.get name = t.header.flag name) ∧
        t.header.reserved = s.header.reserved ∧
        t.counts.records = Field.answer.read t.wire + Field.authority.read t.wire +
          Field.additional.read t.wire ∧
        t.wire.length = 12 ∧
        ∀ behind, decode (Window.whole (t.wire ++ behind).toArray) 0 = .ok (t, 12) := by
  obtain ⟨s, stands⟩ := exists_wire_eq octets
  have read := decode_wire_append s []
  rw [List.append_nil, stands] at read
  refine ⟨s, read, stands, fun writes =>
    ⟨fun f => ⟨?_, ?_⟩, Flags.get_flags _, ?_, ?_, length_wire _, ?_⟩⟩
  · rw [get_writeAll, get_eq_read s, stands]
  · exact (get_eq_read _ f).symm
  · exact reserved_writeAll writes s
  · rw [← get_eq_read, ← get_eq_read, ← get_eq_read]
    rfl
  · exact decode_wire_append _

/-- All bits are set, and then some are cleared that share two octets with others. The codes lose
what does not fit into four bits, and the second write to a flag counts. -/
theorem registers_sample :
    ∃ s, decode (Window.whole (Vector.replicate 12 0xFF).toArray) 0 = .ok (s, 12) ∧
      let t := s.writeAll [.opcode ⟨0xF5⟩, .flag .tc true, .responseCode (.raw 0x2A),
        .flag .tc false]
      t.get .opcode = 5 ∧ t.get .responseCode = 10 ∧ t.get (.flag .tc) = 0 ∧
        t.get (.flag .rd) = 1 ∧ t.get (.flag .cd) = 1 ∧ t.get .reserved = 1 ∧
        t.get .id = 65535 := by
  obtain ⟨s, read, -, changed⟩ := registers (.replicate 12 0xFF)
  obtain ⟨fields, -⟩ := changed [.opcode ⟨0xF5⟩, .flag .tc true, .responseCode (.raw 0x2A),
    .flag .tc false]
  refine ⟨s, read, ?_, ?_, ?_, ?_, ?_, ?_, ?_⟩
  · exact (fields .opcode).1
  · exact (fields .responseCode).1
  · exact (fields (.flag .tc)).1
  · exact (fields (.flag .rd)).1.trans (by decide)
  · exact (fields (.flag .cd)).1.trans (by decide)
  · exact (fields .reserved).1.trans (by decide)
  · exact (fields .id).1.trans (by decide)

/-- The same changes, where no bit was set. -/
example : (writeAll {} [.opcode ⟨0xF5⟩, .flag .tc true, .responseCode (.raw 0x2A),
    .flag .tc false]).wire = [0, 0, 0x28, 0x0A, 0, 0, 0, 0, 0, 0, 0, 0] := by
  decide

end HeaderSection

end DnsWire
