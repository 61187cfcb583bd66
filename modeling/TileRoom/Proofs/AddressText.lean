import TileRoom.Proofs.AddressForms
import TileRoom.Proofs.Text.Blanks

/-! The text that is written for an address. It is canonical: the longest run of zero groups is the gap,
the first of runs equally long, and an address that maps a dotted one shows it. Read again, with
its port behind it, it gives the address it was written for. -/

namespace TileRoom

namespace Ip

/-- A run of zero groups that is the longest, and the first of those as long. -/
structure Longest (groups : List UInt16) (start length : Nat) : Prop where
  there : groups = groups.take start ++ List.replicate length 0 ++ groups.drop (start + length)
  longest : ∀ before count after, groups = before ++ List.replicate count 0 ++ after → count ≤ length
  first : 0 < length → ∀ before after, groups = before ++ List.replicate length 0 ++ after → start ≤ before.length

theorem zerosAhead_there (groups : List UInt16) :
    groups = List.replicate (zerosAhead groups) 0 ++ groups.drop (zerosAhead groups) := by
  induction groups with
  | nil => rfl
  | cons group rest ih =>
    rw [zerosAhead]
    split
    · rename_i zero
      rw [List.replicate_succ, List.cons_append, List.drop_succ_cons, ← ih, zero]
    · rfl

theorem le_zerosAhead {groups : List UInt16} {count : Nat} {after : List UInt16}
    (ahead : groups = List.replicate count 0 ++ after) : count ≤ zerosAhead groups := by
  induction count generalizing groups with
  | zero => exact Nat.zero_le _
  | succ count ih =>
    subst ahead
    rw [List.replicate_succ, List.cons_append, zerosAhead, if_pos rfl]
    exact Nat.succ_le_succ (ih rfl)

theorem longestZeros_spec (groups : List UInt16) : Longest groups (longestZeros groups).1 (longestZeros groups).2 := by
  induction groups with
  | nil =>
    refine ⟨rfl, fun before count after whole => ?_, fun positive => absurd positive (Nat.lt_irrefl 0)⟩
    have length := congrArg List.length whole
    simp only [List.length_nil, List.length_append, List.length_replicate] at length
    change count ≤ 0
    omega
  | cons group rest ih =>
    rw [longestZeros]
    generalize longestZeros rest = found at ih
    obtain ⟨start, length⟩ := found
    have ahead := zerosAhead_there (group :: rest)
    have bound {count : Nat} {after : List UInt16} (whole : group :: rest = List.replicate count 0 ++ after) :
        count ≤ zerosAhead (group :: rest) := le_zerosAhead whole
    generalize zerosAhead (group :: rest) = here at ahead bound
    dsimp only
    split
    · rename_i most
      refine ⟨by simpa using ahead, fun before count after whole => ?_, fun _ before after _ => Nat.zero_le _⟩
      cases before with
      | nil => exact bound whole
      | cons front others => exact (ih.longest others count after (List.cons.inj whole).2).trans most.1
    · rename_i fewer
      refine ⟨?_, fun before count after whole => ?_, fun positive before after whole => ?_⟩
      · have there := ih.there
        rw [List.take_succ_cons, Nat.add_right_comm, List.drop_succ_cons, List.cons_append, List.cons_append, ← there]
      · cases before with
        | nil =>
          have most := bound whole
          change count ≤ length
          omega
        | cons front others => exact ih.longest others count after (List.cons.inj whole).2
      · cases before with
        | nil =>
          have most := bound whole
          dsimp only at positive most
          omega
        | cons front others => exact Nat.succ_le_succ (ih.first positive others after (List.cons.inj whole).2)

def Maps (groups : List UInt16) : Prop :=
  ∃ high low, groups = [0, 0, 0, 0, 0, 0xFFFF, high, low]

/-- The canonical text of an address. -/
inductive Canonical : Ip → List Char → Prop where
  | v4 (a b c d : UInt8) : Canonical (.v4 a b c d) (dotted a b c d)
  | mapped {groups : Vector UInt16 8} (a b c d : UInt8) :
      groups.toList = [0, 0, 0, 0, 0, 0xFFFF, pairOctets a b, pairOctets c d] →
      Canonical (.v6 groups) ("::ffff:".toList ++ dotted a b c d)
  | gap {groups : Vector UInt16 8} {start length : Nat} : ¬Maps groups.toList → 2 ≤ length →
      Longest groups.toList start length →
      Canonical (.v6 groups)
        (joined (groups.toList.take start) ++ "::".toList ++ joined (groups.toList.drop (start + length)))
  | full {groups : Vector UInt16 8} : ¬Maps groups.toList →
      (∀ before count after, groups.toList = before ++ List.replicate count 0 ++ after → count < 2) →
      Canonical (.v6 groups) (joined groups.toList)

theorem pairOctets_halves (group : UInt16) :
    pairOctets (UInt8.ofNat (group.toNat / 256)) (UInt8.ofNat (group.toNat % 256)) = group := by
  have small := group.toNat_lt
  have size : UInt8.size = 256 := rfl
  rw [pairOctets, UInt8.toNat_ofNat_of_lt' (by omega), UInt8.toNat_ofNat_of_lt' (by omega), Nat.div_add_mod',
    UInt16.ofNat_toNat]

theorem text_canonical (ip : Ip) : Canonical ip ip.text := by
  cases ip with
  | v4 a b c d => exact .v4 a b c d
  | v6 groups =>
    rw [text]
    split
    · rename_i high low form
      apply Canonical.mapped
      rw [pairOctets_halves, pairOctets_halves]
      exact form
    · rename_i apart
      have unmapped : ¬Maps groups.toList := fun ⟨high, low, form⟩ => apart high low form
      have spec := longestZeros_spec groups.toList
      dsimp only
      split
      · rename_i several
        exact .gap unmapped several spec
      · rename_i few
        refine .full unmapped fun before count after whole => ?_
        have most := spec.longest before count after whole
        omega

theorem isGroup_lowerHex (group : UInt16) : IsGroup (Numeral.lowerHex group.toNat) group := by
  refine ⟨?_, Numeral.spells_lowerHex group.toNat⟩
  have small := group.toNat_lt
  rw [Numeral.lowerHex_length_le _ 4 (by omega)]
  omega

theorem run_joined (ends : Bool) (groups : List UInt16) : Run ends (joined groups) groups := by
  refine ⟨_, rfl, .plain ?_⟩
  induction groups with
  | nil => exact .nil
  | cons group rest ih => exact .cons (isGroup_lowerHex group) ih

theorem Canonical.spells {ip : Ip} {text : List Char} (canonical : Canonical ip text) : Spells text ip := by
  cases canonical with
  | v4 a b c d => exact .v4 a b c d
  | mapped a b c d form =>
    have ones : IsGroup "ffff".toList 0xFFFF :=
      (group?_eq_some_iff _ _).1 (by decide)
    have tail : Run true ("ffff:".toList ++ dotted a b c d) [0xFFFF, pairOctets a b, pairOctets c d] :=
      ⟨["ffff".toList] ++ [dotted a b c d], by simp [List.intercalate_cons_cons], .dotted a b c d (.cons ones .nil)⟩
    have head : Run false [] [] := ⟨[], rfl, .plain .nil⟩
    exact .gap head tail (by simp) (by rw [form]; rfl)
  | @gap groups start length _ several longest =>
    have size := congrArg List.length longest.there
    simp only [List.length_append, List.length_replicate, Vector.length_toList] at size
    refine .gap (run_joined false _) (run_joined true _) (by omega) ?_
    have count : 8 - (groups.toList.take start).length - (groups.toList.drop (start + length)).length = length := by
      omega
    rw [count]
    exact longest.there
  | full => exact .whole (run_joined true _)

theorem isBlank_of_inText {c : Char} (inside : InText c) : Blank.isBlank c = false := by
  rcases inside with digit | rfl | rfl
  · exact Numeral.isBlank_of_digit digit
  · decide
  · decide

end Ip

namespace Address

theorem form_text (address : Address) (defaultPort : UInt16) : Form defaultPort address.text address := by
  obtain ⟨ip, port⟩ := address
  have number := Numeral.spells_decimal port.toNat
  have spells := (Ip.text_canonical ip).spells
  cases ip with
  | v4 a b c d => exact .dottedPort a b c d number
  | v6 groups =>
    have closed : Form defaultPort _ ⟨.v6 groups, port⟩ := .bracketedPort spells number
    simpa [text] using closed

theorem Form.visible {defaultPort : UInt16} {text : List Char} {address : Address}
    (form : Form defaultPort text address) : ∀ c ∈ text, Blank.isBlank c = false := by
  have host {text : List Char} {ip : Ip} (spells : Ip.Spells text ip) : ∀ c ∈ text, Blank.isBlank c = false :=
    fun c member => Ip.isBlank_of_inText (spells.inText c member)
  have tail {digits : List Char} {port : UInt16} (number : Numeral.Spells 10 digits port.toNat) :
      ∀ c ∈ digits, Blank.isBlank c = false := fun c member => Numeral.isBlank_of_digit (number.isDigit c member)
  have marks : ∀ c ∈ ['[', ']', ':'], Blank.isBlank c = false := by decide
  simp only [List.forall_mem_cons] at marks
  cases form with
  | bare spells => exact host spells
  | dottedPort a b c d number =>
    exact List.forall_mem_append.2 ⟨host (.v4 a b c d), List.forall_mem_cons.2 ⟨marks.2.2.1, tail number⟩⟩
  | bracketed spells =>
    refine List.forall_mem_cons.2 ⟨marks.1, List.forall_mem_append.2 ⟨host spells, ?_⟩⟩
    exact List.forall_mem_cons.2 ⟨marks.2.1, List.forall_mem_nil _⟩
  | bracketedPort spells number =>
    refine List.forall_mem_cons.2 ⟨marks.1, List.forall_mem_append.2 ⟨host spells, ?_⟩⟩
    exact List.forall_mem_cons.2 ⟨marks.2.1, List.forall_mem_cons.2 ⟨marks.2.2.1, tail number⟩⟩

/-- The text of an address is the canonical one of its numbers with the port behind it, in brackets for
groups, and read with any default port it gives the address. -/
theorem printed_read_back (address : Address) (defaultPort : UInt16) :
    Ip.Canonical address.ip address.ip.text ∧ parse defaultPort (String.ofList address.text) = .ok address := by
  refine ⟨Ip.text_canonical address.ip, ?_⟩
  have form := address.form_text defaultPort
  rw [parse, String.toList_ofList, Blank.trim_visible _ form.visible]
  exact parseTrimmed_of_form form

end Address

end TileRoom
