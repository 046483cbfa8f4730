import Mathlib.Data.Nat.ModEq
import Mathlib.Dynamics.PeriodicPts.Defs
import DnsWire.Proofs.Message.Entries

/-!
# Where aliases lead

`Message.follow` stops after a number of steps that is counted in records, not in names. What that
number does to the result is told here by the aliases alone.

* `aliases` — what is left of the records: pairs of an owner and a target, in order.
* `advance` — one step, which leaves a name without an alias where it is. So stopping is the same
  as going on, and following aliases is iterating a function (`follow_eq_iterate`).
* `exists_isPeriodicPt` — after as many steps as there are aliases, the names recur. Each step
  leads to one of the targets or nowhere, so of one name more than there are targets two are
  equal, and from the first of them on the names go round.

A chain that ends goes round at its end, in a circle of one name, and any number of further steps
leaves it there (`canonicalName?_of_chain`). In a longer circle, the number of steps decides which
of its names comes out (`canonicalName?_eq_iff`), and records that are no aliases count.
-/

namespace DnsWire

namespace Message

open Function

/-- The aliases among records: the name that each is for, and the name that it gives. -/
def aliases (records : List Record) : List (String × String) :=
  records.filterMap fun r =>
    match r.data with
    | .cname target => some (r.owner, target)
    | _ => none

/-- What the first alias for a name gives, the case of ASCII letters aside. -/
def target? (aliases : List (String × String)) (name : String) : Option String :=
  (aliases.find? fun a => Ascii.sameText a.1 name).map Prod.snd

/-- The name behind the given number of aliases, if there are as many. -/
def behind? (aliases : List (String × String)) : Nat → String → Option String
  | 0, name => some name
  | count + 1, name => (target? aliases name).bind (behind? aliases count)

/-- The aliases lead from a name to one that has none. -/
def LeadsTo (aliases : List (String × String)) (name last : String) : Prop :=
  ∃ count, behind? aliases count name = some last ∧ target? aliases last = none

/-- One step: the name behind the alias, or the name itself if it has none. -/
def advance (aliases : List (String × String)) (name : String) : String :=
  (target? aliases name).getD name

variable {pairs : List (String × String)} {name target last : String}

/-! ## Steps -/

theorem findSome?_aliasOf? (records : List Record) (name : String) :
    records.findSome? (aliasOf? name) = target? (aliases records) name := by
  induction records with
  | nil => rfl
  | cons r records ih =>
      rw [List.findSome?_cons, ih]
      unfold aliasOf? aliases target?
      rw [List.filterMap_cons]
      cases r.data with
      | cname target =>
          dsimp only
          rw [List.find?_cons]
          cases Ascii.sameText r.owner name <;> rfl
      | _ => rfl

theorem mem_targets_of_target? (h : target? pairs name = some target) :
    target ∈ pairs.map Prod.snd := by
  obtain ⟨a, found, rfl⟩ := Option.map_eq_some_iff.1 h
  exact List.mem_map_of_mem (List.mem_of_find?_eq_some found)

theorem advance_of_some (h : target? pairs name = some target) : advance pairs name = target := by
  rw [advance, h, Option.getD_some]

theorem isFixedPt_of_none (h : target? pairs name = none) : IsFixedPt (advance pairs) name := by
  rw [IsFixedPt, advance, h, Option.getD_none]

/-- Names without an alias stay where they are, so it does not matter that following them stops. -/
theorem follow_eq_iterate (records : List Record) (steps : Nat) (name : String) :
    follow records steps name = (advance (aliases records))^[steps] name := by
  induction steps generalizing name with
  | zero => rfl
  | succ steps ih =>
      rw [follow, findSome?_aliasOf?, iterate_succ_apply]
      cases step : target? (aliases records) name with
      | some target =>
          rw [advance_of_some step]
          exact ih target
      | none =>
          have stays := isFixedPt_of_none step
          rw [stays, iterate_fixed stays]

theorem iterate_of_behind? {count : Nat} (h : behind? pairs count name = some target) :
    (advance pairs)^[count] name = target := by
  induction count generalizing name with
  | zero => exact Option.some.inj h
  | succ count ih =>
      obtain ⟨mid, step, rest⟩ := Option.bind_eq_some_iff.1 h
      rw [iterate_succ_apply, advance_of_some step]
      exact ih rest

/-- What is reached in some steps is behind as many aliases, or behind fewer if they end there. -/
theorem exists_behind?_eq (pairs : List (String × String)) (steps : Nat) (name : String) :
    ∃ count, count ≤ steps ∧ behind? pairs count name = some ((advance pairs)^[steps] name) := by
  induction steps generalizing name with
  | zero => exact ⟨0, Nat.le_refl 0, rfl⟩
  | succ steps ih =>
      cases step : target? pairs name with
      | some target =>
          obtain ⟨count, le, reached⟩ := ih target
          refine ⟨count + 1, Nat.succ_le_succ le, ?_⟩
          rw [behind?, step, iterate_succ_apply, advance_of_some step]
          exact reached
      | none =>
          refine ⟨0, Nat.zero_le _, ?_⟩
          rw [iterate_fixed (isFixedPt_of_none step)]
          rfl

/-! ## The names recur -/

/-- Equal names on the way are the two ends of a circle. -/
theorem isPeriodicPt_of_iterate_eq {α : Type} {f : α → α} {x : α} {i j bound : Nat} (lt : i < j)
    (le : i ≤ bound) (eq : f^[i] x = f^[j] x) : IsPeriodicPt f (j - i) (f^[bound] x) := by
  have first : IsPeriodicPt f (j - i) (f^[i] x) := by
    show f^[j - i] (f^[i] x) = f^[i] x
    rw [← iterate_add_apply, Nat.sub_add_cancel (Nat.le_of_lt lt), eq]
  have later := first.apply_iterate (bound - i)
  rwa [← iterate_add_apply, Nat.sub_add_cancel le] at later

/-- After as many steps as there are aliases, the names go round. -/
theorem exists_isPeriodicPt (pairs : List (String × String)) (name : String) :
    ∃ period, 0 < period ∧
      IsPeriodicPt (advance pairs) period ((advance pairs)^[pairs.length] name) := by
  by_cases ends : ∃ i, i ≤ pairs.length ∧ target? pairs ((advance pairs)^[i] name) = none
  · obtain ⟨i, le, none⟩ := ends
    have stays := isFixedPt_of_none none
    refine ⟨i + 1 - i, by omega, isPeriodicPt_of_iterate_eq (Nat.lt_succ_self i) le ?_⟩
    rw [iterate_succ_apply']
    exact stays.symm
  · -- One step more than there are targets, and each leads to a target.
    have card : (pairs.map Prod.snd).toFinset.card < (Finset.range (pairs.length + 1)).card := by
      rw [Finset.card_range]
      refine Nat.lt_succ_of_le (Nat.le_trans (List.toFinset_card_le _) ?_)
      rw [List.length_map]
    have maps : ∀ i ∈ Finset.range (pairs.length + 1),
        (advance pairs)^[i + 1] name ∈ (pairs.map Prod.snd).toFinset := by
      intro i lt
      cases step : target? pairs ((advance pairs)^[i] name) with
      | none => exact absurd ⟨i, Nat.le_of_lt_succ (Finset.mem_range.1 lt), step⟩ ends
      | some target =>
          rw [iterate_succ_apply', advance_of_some step]
          exact List.mem_toFinset.2 (mem_targets_of_target? step)
    obtain ⟨i, lt, j, lt', ne, eq⟩ := Finset.exists_ne_map_eq_of_card_lt_of_maps_to card maps
    rw [Finset.mem_range] at lt lt'
    rcases Nat.lt_or_gt_of_ne ne with first | second
    · exact ⟨j + 1 - (i + 1), by omega,
        isPeriodicPt_of_iterate_eq (Nat.succ_lt_succ first) (by omega) eq⟩
    · exact ⟨i + 1 - (j + 1), by omega,
        isPeriodicPt_of_iterate_eq (Nat.succ_lt_succ second) (by omega) eq.symm⟩

/-- A chain that ends is at its end after as many steps as there are aliases. -/
theorem LeadsTo.iterate_eq (h : LeadsTo pairs name last) {steps : Nat}
    (enough : pairs.length ≤ steps) : (advance pairs)^[steps] name = last := by
  obtain ⟨count, reached, none⟩ := h
  obtain ⟨period, pos, round⟩ := exists_isPeriodicPt pairs name
  have stays := isFixedPt_of_none none
  -- Going round often enough passes the end, where the names stay.
  have passed : count ≤ period * count + pairs.length :=
    Nat.le_trans (Nat.le_mul_of_pos_left count pos) (Nat.le_add_right _ _)
  have there : (advance pairs)^[pairs.length] name = last := by
    have rounds := round.mul_const count
    rw [IsPeriodicPt, IsFixedPt, ← iterate_add_apply] at rounds
    rw [← rounds, ← Nat.sub_add_cancel passed, iterate_add_apply, iterate_of_behind? reached,
      iterate_fixed stays]
  rw [← Nat.sub_add_cancel enough, iterate_add_apply, there, iterate_fixed stays]

/-! ## The canonical name -/

theorem length_aliases_le (records : List Record) : (aliases records).length ≤ records.length :=
  List.length_filterMap_le _ _

/-- The canonical name in terms of the aliases and the number of records. -/
theorem canonicalName?_eq (m : Message) :
    m.canonicalName? = (m.questions.head?.map Question.name).map
      (advance (aliases m.answer))^[m.answer.length] := by
  unfold canonicalName?
  rw [Option.map_map]
  exact congrArg (Option.map · m.questions.head?) (funext fun q => follow_eq_iterate _ _ _)

/-- **Aliases are followed to their end.** There is a canonical name unless there is no question.
It is behind at most as many aliases as there are records, each alias being the first for the name
in front of it, and if any number of aliases leads to a name that has none, it is that name. -/
theorem canonicalName?_of_chain (m : Message) :
    (m.canonicalName? = none ↔ m.questions = []) ∧
    ∀ q others, m.questions = q :: others →
      ∃ name, m.canonicalName? = some name ∧
        (∃ count, count ≤ m.answer.length ∧
          behind? (aliases m.answer) count q.name = some name) ∧
        ∀ last, LeadsTo (aliases m.answer) q.name last → name = last := by
  rw [canonicalName?_eq]
  refine ⟨?_, ?_⟩
  · rw [Option.map_eq_none_iff, Option.map_eq_none_iff, List.head?_eq_none_iff]
  · intro q others asked
    rw [asked]
    refine ⟨_, rfl, exists_behind?_eq _ _ _, fun last leads => ?_⟩
    exact leads.iterate_eq (length_aliases_le m.answer)

/-- A response with a question for the name `a` and a number of answer records. -/
def answering (count : UInt8) (records : List UInt8) : Array UInt8 :=
  #[0, 1, 0x81, 0x80, 0, 1, 0, count, 0, 0, 0, 0, 1, 97, 0, 0, 1, 0, 1] ++ records

/-- An alias for a name of one letter, which gives another one. -/
def aliasOctets (owner target : UInt8) : List UInt8 :=
  [1, owner, 0, 0, 5, 0, 1, 0, 0, 0, 0, 0, 3, 1, target, 0]

/-- An address of the name `a`. -/
def addressOctets : List UInt8 :=
  [1, 97, 0, 0, 1, 0, 1, 0, 0, 0, 0, 0, 4, 192, 0, 2, 1]

/-- Aliases from `a` to `c` the wrong way round, an address, and a second alias for `a`. -/
def chainSample : Array UInt8 :=
  answering 4 (aliasOctets 98 99 ++ addressOctets ++ aliasOctets 65 98 ++ aliasOctets 97 100)

theorem exists_decode_chainSample :
    ∃ m, decode chainSample = .ok m ∧ m.questions = [⟨"a", .a, .internet⟩] ∧
      aliases m.answer = [("b", "c"), ("A", "b"), ("a", "d")] := by
  have read : (decode chainSample).toOption.map (fun m => (m.questions, aliases m.answer)) =
      some ([⟨"a", .a, .internet⟩], [("b", "c"), ("A", "b"), ("a", "d")]) := by
    decide +kernel
  obtain ⟨m, decoded, parts⟩ := except_toOption_map_eq_some.1 read
  exact ⟨m, decoded, Prod.mk.inj parts⟩

theorem leadsTo_chainSample : LeadsTo [("b", "c"), ("A", "b"), ("a", "d")] "a" "c" :=
  ⟨2, by decide +kernel, by decide +kernel⟩

theorem canonicalName?_chainSample :
    ∃ m, decode chainSample = .ok m ∧ m.canonicalName? = some "c" := by
  obtain ⟨m, decoded, asked, aliases⟩ := exists_decode_chainSample
  obtain ⟨name, canonical, -, last⟩ := (canonicalName?_of_chain m).2 _ _ asked
  rw [aliases] at last
  rw [last "c" leadsTo_chainSample] at canonical
  exact ⟨m, decoded, canonical⟩

/-! ## Circles -/

/-- The number of names in the circle that the aliases run into. It is one at the end of a chain,
which is a circle of its own. -/
noncomputable def circleLength (aliases : List (String × String)) (name : String) : Nat :=
  minimalPeriod (advance aliases) ((advance aliases)^[aliases.length] name)

theorem circleLength_pos (pairs : List (String × String)) (name : String) :
    0 < circleLength pairs name := by
  obtain ⟨_, pos, round⟩ := exists_isPeriodicPt pairs name
  exact round.minimalPeriod_pos pos

theorem LeadsTo.circleLength_eq (h : LeadsTo pairs name last) : circleLength pairs name = 1 := by
  rw [circleLength, h.iterate_eq (Nat.le_refl _), minimalPeriod_eq_one_iff_isFixedPt]
  obtain ⟨_, _, none⟩ := h
  exact isFixedPt_of_none none

/-- Inside the circle, two numbers of steps lead to the same name if they differ by rounds. -/
theorem iterate_eq_iterate_iff {steps steps' : Nat} (enough : pairs.length ≤ steps)
    (enough' : pairs.length ≤ steps') :
    (advance pairs)^[steps] name = (advance pairs)^[steps'] name ↔
      steps ≡ steps' [MOD circleLength pairs name] := by
  obtain ⟨further, rfl⟩ := Nat.exists_eq_add_of_le' enough
  obtain ⟨further', rfl⟩ := Nat.exists_eq_add_of_le' enough'
  have pos := circleLength_pos pairs name
  rw [iterate_add_apply, iterate_add_apply, ← iterate_mod_minimalPeriod_eq (n := further),
    ← iterate_mod_minimalPeriod_eq (n := further'),
    iterate_eq_iterate_iff_of_lt_minimalPeriod (Nat.mod_lt _ pos) (Nat.mod_lt _ pos)]
  exact ⟨fun h => Nat.ModEq.add_right _ h, fun h => Nat.ModEq.add_right_cancel' _ h⟩

/-- **Records that are no aliases count.** Two messages that ask for one name and have the same
aliases have the same canonical name if and only if their numbers of answer records differ by whole
rounds in the circle that the aliases run into; so always if the aliases lead to an end. -/
theorem canonicalName?_eq_iff {m m' : Message} {name : String}
    (asked : m.questions.head?.map Question.name = some name)
    (asked' : m'.questions.head?.map Question.name = some name)
    (same : aliases m.answer = aliases m'.answer) :
    (m.canonicalName? = m'.canonicalName? ↔
      m.answer.length ≡ m'.answer.length [MOD circleLength (aliases m.answer) name]) ∧
    ∀ last, LeadsTo (aliases m.answer) name last →
      circleLength (aliases m.answer) name = 1 ∧ m.canonicalName? = m'.canonicalName? := by
  have enough := length_aliases_le m.answer
  have enough' := length_aliases_le m'.answer
  rw [← same] at enough'
  rw [canonicalName?_eq, canonicalName?_eq, asked, asked', ← same, Option.map_some,
    Option.map_some, Option.some.injEq]
  refine ⟨iterate_eq_iterate_iff enough enough', fun last leads => ⟨leads.circleLength_eq, ?_⟩⟩
  rw [leads.iterate_eq enough, leads.iterate_eq enough']

/-- The address does not matter to the chain. -/
theorem canonicalName?_chainSample_aliases :
    ∃ m m', decode chainSample = .ok m ∧
      decode (answering 3 (aliasOctets 98 99 ++ aliasOctets 65 98 ++ aliasOctets 97 100)) = .ok m' ∧
      m.canonicalName? = m'.canonicalName? := by
  have read : (decode (answering 3 (aliasOctets 98 99 ++ aliasOctets 65 98 ++
      aliasOctets 97 100))).toOption.map (fun m => (m.questions, aliases m.answer)) =
        some ([⟨"a", .a, .internet⟩], [("b", "c"), ("A", "b"), ("a", "d")]) := by
    decide +kernel
  obtain ⟨m', decoded', parts⟩ := except_toOption_map_eq_some.1 read
  obtain ⟨asked', aliases'⟩ := Prod.mk.inj parts
  obtain ⟨m, decoded, asked, aliases⟩ := exists_decode_chainSample
  have same : Message.aliases m.answer = Message.aliases m'.answer := aliases.trans aliases'.symm
  have first : m.questions.head?.map Question.name = some "a" := by
    rw [asked]
    rfl
  have first' : m'.questions.head?.map Question.name = some "a" := by
    rw [asked']
    rfl
  refine ⟨m, m', decoded, decoded', ((canonicalName?_eq_iff first first' same).2 "c" ?_).2⟩
  rw [aliases]
  exact leadsTo_chainSample

/-- Between two names that are aliases for each other the address decides. With it three aliases
are followed where there are two, the first of them twice. -/
theorem canonicalName?_circle :
    ∃ m m', decode (answering 2 (aliasOctets 97 98 ++ aliasOctets 98 97)) = .ok m ∧
      decode (answering 3 (aliasOctets 97 98 ++ aliasOctets 98 97 ++ addressOctets)) = .ok m' ∧
      m.status = .noError ∧ m'.status = .noError ∧ m.questions = m'.questions ∧
      aliases m.answer = aliases m'.answer ∧
      m.canonicalName? = some "a" ∧ m'.canonicalName? = some "b" := by
  have read : (decode (answering 2 (aliasOctets 97 98 ++ aliasOctets 98 97))).toOption.map
      (fun m => (m.isError, m.questions, aliases m.answer, m.canonicalName?)) =
        some (false, [⟨"a", .a, .internet⟩], [("a", "b"), ("b", "a")], some "a") := by
    decide +kernel
  have read' : (decode (answering 3 (aliasOctets 97 98 ++ aliasOctets 98 97 ++
      addressOctets))).toOption.map
        (fun m => (m.isError, m.questions, aliases m.answer, m.canonicalName?)) =
          some (false, [⟨"a", .a, .internet⟩], [("a", "b"), ("b", "a")], some "b") := by
    decide +kernel
  obtain ⟨m, decoded, parts⟩ := except_toOption_map_eq_some.1 read
  obtain ⟨m', decoded', parts'⟩ := except_toOption_map_eq_some.1 read'
  simp only [Prod.mk.injEq] at parts parts'
  obtain ⟨passed, asked, aliases, canonical⟩ := parts
  obtain ⟨passed', asked', aliases', canonical'⟩ := parts'
  exact ⟨m, m', decoded, decoded', isError_eq_false.1 passed, isError_eq_false.1 passed',
    asked.trans asked'.symm, aliases.trans aliases'.symm, canonical, canonical'⟩

end Message

end DnsWire
