import Mathlib
import Overlay.Mac
import Overlay.Proofs.Ipv4
import Overlay.Proofs.Lists

/-!
MAC addresses. A text is read as an address if it is six octets with colons or with hyphens in
between, where an octet is one or two digits of either case, or a plus sign and one digit
(`Mac.parse?_eq_some_iff`). No octet has a separator in it, so a text falls apart in one way. Of the
texts for an address one is in canonical form, and that is the one which is written
(`Mac.isCanonical_and_spelledBy_iff`). The MAC of a host tells its address (`Mac.ofHost_inj`), and
the one for routers is what the address zero would give (`Mac.ofHost_eq_nextHop_iff`).
-/

namespace Overlay

/-! ## Hexadecimal digits -/

namespace Hex

/-- The digits in the order of their values. -/
def lowerDigits : List Char :=
  ['0', '1', '2', '3', '4', '5', '6', '7', '8', '9', 'a', 'b', 'c', 'd', 'e', 'f']

def upperDigits : List Char :=
  ['0', '1', '2', '3', '4', '5', '6', '7', '8', '9', 'A', 'B', 'C', 'D', 'E', 'F']

/-- The character is the digit with value `d`, in either case. -/
def IsDigit (c : Char) (d : Nat) : Prop :=
  lowerDigits[d]? = some c ∨ upperDigits[d]? = some c

instance (c : Char) (d : Nat) : Decidable (IsDigit c d) :=
  inferInstanceAs (Decidable (_ ∨ _))

variable {a b c : Char} {d n : Nat}

theorem IsDigit.mem (h : IsDigit c d) : c ∈ lowerDigits ++ upperDigits :=
  List.mem_append.2 (h.imp List.mem_of_getElem? List.mem_of_getElem?)

theorem IsDigit.lt_sixteen (h : IsDigit c d) : d < 16 :=
  h.elim (fun h => (List.getElem?_eq_some_iff.1 h).1) fun h => (List.getElem?_eq_some_iff.1 h).1

theorem IsDigit.utf8Size_eq (h : IsDigit c d) : c.utf8Size = 1 := by
  have all : (lowerDigits ++ upperDigits).all fun c => c.utf8Size = 1 := by decide
  exact of_decide_eq_true (List.all_eq_true.1 all c h.mem)

/-- No digit is a sign or a separator. -/
theorem IsDigit.not_mem_marks (h : IsDigit c d) : c ∉ ['+', ':', '-'] := by
  have all : (lowerDigits ++ upperDigits).all fun c => c ∉ ['+', ':', '-'] := by decide
  exact of_decide_eq_true (List.all_eq_true.1 all c h.mem)

theorem digit?_eq_some_iff : digit? c = some d ↔ IsDigit c d := by
  constructor
  · intro h
    -- Digits are ASCII, and there the two agree character by character.
    have hlt : c.toNat < 128 := by
      unfold digit? at h
      split at h
      case isTrue hc => exact lt_of_le_of_lt (show c.toNat ≤ 57 from hc.2) (by decide)
      split at h
      case isTrue hc => exact lt_of_le_of_lt (show c.toNat ≤ 102 from hc.2) (by decide)
      split at h
      case isTrue hc => exact lt_of_le_of_lt (show c.toNat ≤ 70 from hc.2) (by decide)
      cases h
    have all : ∀ k ∈ List.range 128, ∀ e ∈ digit? (Char.ofNat k), IsDigit (Char.ofNat k) e := by
      decide +kernel
    have hc := all c.toNat (List.mem_range.2 hlt)
    rw [Char.ofNat_toNat] at hc
    exact hc d h
  · intro h
    have all : ∀ k ∈ List.range 16, lowerDigits[k]?.bind digit? = some k ∧
        upperDigits[k]?.bind digit? = some k := by decide
    obtain ⟨hlower, hupper⟩ := all d (List.mem_range.2 h.lt_sixteen)
    rcases h with h | h
    · rwa [h, Option.bind_some] at hlower
    · rwa [h, Option.bind_some] at hupper

theorem value?_singleton (a : Char) : value? [a] = digit? a := by
  cases h : digit? a <;> simp [value?, h]

theorem value?_pair_eq_some_iff :
    value? [a, b] = some n ↔ ∃ d e, IsDigit a d ∧ IsDigit b e ∧ n = d * 16 + e := by
  simp only [← digit?_eq_some_iff]
  cases ha : digit? a <;> cases hb : digit? b <;> simp [value?, ha, hb, eq_comm]

theorem numeral?_singleton (a : Char) : numeral? [a] = digit? a := by
  rw [numeral?, value?_singleton] <;> simp

theorem numeral?_cons_of_ne (h : c ≠ '+') (cs : List Char) :
    numeral? (c :: cs) = value? (c :: cs) := by
  rw [numeral?]
  · simp
  · rintro b bs ⟨⟩
    exact h rfl

theorem lowerDigits_digitChar {n : Nat} (h : n < 16) :
    lowerDigits[n]? = some (Nat.digitChar n) := by
  have all : ∀ k ∈ List.range 16, lowerDigits[k]? = some (Nat.digitChar k) := by decide
  exact all n (List.mem_range.2 h)

theorem isDigit_digitChar {n : Nat} (h : n < 16) : IsDigit (Nat.digitChar n) n :=
  .inl (lowerDigits_digitChar h)

theorem IsDigit.eq_digitChar (h : IsDigit c d) (hc : c ∈ lowerDigits) : c = Nat.digitChar d := by
  obtain ⟨k, hk⟩ := List.mem_iff_getElem?.1 hc
  have hdigit : IsDigit c k := .inl hk
  rw [lowerDigits_digitChar hdigit.lt_sixteen, Option.some.injEq] at hk
  rw [← digit?_eq_some_iff] at h hdigit
  rw [← hk, Option.some.inj (hdigit.symm.trans h)]

end Hex

namespace Mac

/-! ## Hosts -/

theorem ofHost_inj {a b : Ipv4.Address} : ofHost a = ofHost b ↔ a = b := by
  refine ⟨fun h => ?_, congrArg _⟩
  obtain ⟨-, -, h₃, h₂, h₁, h₀⟩ := Mac.mk.inj h
  rw [← a.ofOctets_octet, ← b.ofOctets_octet, h₃, h₂, h₁, h₀]

theorem ofHost_eq_nextHop_iff {a : Ipv4.Address} : ofHost a = nextHop ↔ a = 0 := by
  have hzero : nextHop = ofHost 0 := by decide
  rw [hzero, ofHost_inj]

theorem octets_ofHost (a : Ipv4.Address) : (ofHost a).octets = 0x08 :: 0x00 :: a.octets :=
  rfl

/-! ## Octets -/

/-- The text stands for the octet with value `n`. -/
inductive IsOctet : List Char → Nat → Prop
  | one {a : Char} {d : Nat} : Hex.IsDigit a d → IsOctet [a] d
  | two {a b : Char} {d e : Nat} :
    Hex.IsDigit a d → Hex.IsDigit b e → IsOctet [a, b] (d * 16 + e)
  | signed {a : Char} {d : Nat} : Hex.IsDigit a d → IsOctet ['+', a] d

variable {cs : List Char} {m : Mac} {n : Nat} {o : UInt8}

theorem IsOctet.lt_size (h : IsOctet cs n) : n < UInt8.size := by
  cases h with
  | one ha => exact ha.lt_sixteen.trans (by decide)
  | two ha hb =>
    have hlt : UInt8.size = 256 := rfl
    have := ha.lt_sixteen
    have := hb.lt_sixteen
    omega
  | signed ha => exact ha.lt_sixteen.trans (by decide)

theorem IsOctet.length_eq (h : IsOctet cs n) : cs.length = 1 ∨ cs.length = 2 := by
  cases h <;> simp

theorem IsOctet.utf8ByteSize_eq (h : IsOctet cs n) :
    (String.ofList cs).utf8ByteSize = cs.length := by
  rw [String.utf8ByteSize_ofList]
  cases h with
  | one ha => simp [ha.utf8Size_eq]
  | two ha hb => simp [ha.utf8Size_eq, hb.utf8Size_eq]
  | signed ha => simp [ha.utf8Size_eq, show '+'.utf8Size = 1 from rfl]

theorem IsOctet.numeral?_eq (h : IsOctet cs n) : Hex.numeral? cs = some n := by
  cases h with
  | one ha =>
    rw [Hex.numeral?_singleton]
    exact Hex.digit?_eq_some_iff.2 ha
  | two ha hb =>
    rw [Hex.numeral?_cons_of_ne]
    · exact Hex.value?_pair_eq_some_iff.2 ⟨_, _, ha, hb, rfl⟩
    · rintro rfl
      exact ha.not_mem_marks (by decide)
  | signed ha =>
    rw [Hex.numeral?, Hex.value?_singleton]
    exact Hex.digit?_eq_some_iff.2 ha

/-- A numeral of one or two characters has a value if it is an octet. -/
theorem isOctet_of_numeral? (hlen : cs.length ≤ 2) (h : Hex.numeral? cs = some n) :
    IsOctet cs n := by
  rcases cs with _ | ⟨a, _ | ⟨b, _ | ⟨c, cs⟩⟩⟩
  · cases h
  · rw [Hex.numeral?_singleton, Hex.digit?_eq_some_iff] at h
    exact .one h
  · by_cases ha : a = '+'
    · subst ha
      rw [Hex.numeral?, Hex.value?_singleton, Hex.digit?_eq_some_iff] at h
      exact .signed h
    · rw [Hex.numeral?_cons_of_ne ha, Hex.value?_pair_eq_some_iff] at h
      obtain ⟨d, e, ha, hb, rfl⟩ := h
      exact .two ha hb
  · simp at hlen

/-- Every character has a byte at least. -/
theorem length_le_utf8ByteSize (cs : List Char) :
    cs.length ≤ (String.ofList cs).utf8ByteSize := by
  rw [String.utf8ByteSize_ofList]
  induction cs with
  | nil => rfl
  | cons c cs ih =>
    have hpos := c.utf8Size_pos
    rw [List.length_cons, String.utf8Len_cons]
    omega

theorem octet?_eq_some_iff : octet? cs = some o ↔ IsOctet cs o.toNat := by
  constructor
  · intro h
    dsimp only [octet?] at h
    split at h
    case isTrue => cases h
    case isFalse hbytes =>
      obtain ⟨k, hk, rfl⟩ := Option.map_eq_some_iff.1 h
      obtain ⟨hnumeral, hlt⟩ := Option.filter_eq_some_iff.1 hk
      have hk : (UInt8.ofNat k).toNat = k := UInt8.toNat_ofNat_of_lt (by simpa using hlt)
      have hlen := length_le_utf8ByteSize cs
      rw [hk]
      exact isOctet_of_numeral? (by omega) hnumeral
  · intro h
    have hlt := h.lt_size
    have hbytes := h.utf8ByteSize_eq
    have hlen := h.length_eq
    rw [octet?, if_neg (by omega), h.numeral?_eq]
    simp [hlt]

theorem IsOctet.not_mem {c : Char} (h : IsOctet cs n) (hc : c ∈ [':', '-']) : c ∉ cs := by
  have hne : ∀ {a d}, Hex.IsDigit a d → c ≠ a := by
    rintro a d ha rfl
    exact ha.not_mem_marks (List.mem_cons_of_mem _ hc)
  have hplus : c ≠ '+' := by
    rintro rfl
    revert hc
    decide
  cases h with
  | one ha => simp [hne ha]
  | two ha hb => simp [hne ha, hne hb]
  | signed ha => simp [hne ha, hplus]

/-! ## Addresses -/

/-- The text stands for the address: it consists of texts for the octets in order, with colons in
between if it has a colon in it and with hyphens otherwise. -/
def SpelledBy (m : Mac) (cs : List Char) : Prop :=
  ∃ parts, cs = [if ':' ∈ cs then ':' else '-'].intercalate parts ∧
    List.Forall₂ (fun part (o : UInt8) => IsOctet part o.toNat) parts m.octets

theorem separator_mem (cs : List Char) : separator cs ∈ [':', '-'] := by
  unfold separator
  split <;> decide

/-- The octets of a text are what stands between its separators. -/
theorem spelledBy_iff :
    m.SpelledBy cs ↔ List.Forall₂ (fun part (o : UInt8) => IsOctet part o.toNat)
      (cs.splitOn (separator cs)) m.octets := by
  constructor
  · rintro ⟨parts, hcs, hparts⟩
    have hnot : ∀ part ∈ parts, separator cs ∉ part := by
      intro part hpart
      obtain ⟨o, -, ho⟩ := Lists.exists_left_of_forall₂ (R := flip _) hparts.flip hpart
      exact ho.not_mem (separator_mem cs)
    have hne : parts ≠ [] := by
      rintro rfl
      cases hparts
    have hsplit := List.splitOn_intercalate (separator cs) hnot hne
    rw [separator, ← hcs, ← separator] at hsplit
    rwa [hsplit]
  · intro h
    exact ⟨_, (List.intercalate_splitOn (separator cs)).symm, h⟩

theorem parse?_eq_some_iff : parse? cs = some m ↔ m.SpelledBy cs := by
  rw [spelledBy_iff, parse?]
  split
  case h_1 a b c d e f hsplit =>
    rw [hsplit]
    simp only [octets, List.forall₂_cons, List.Forall₂.nil, ← octet?_eq_some_iff]
    constructor
    · intro h
      simp only [Option.bind_eq_bind, Option.bind_eq_some_iff] at h
      obtain ⟨_, ha, _, hb, _, hc, _, hd, _, he, _, hf, ⟨⟩⟩ := h
      exact ⟨ha, hb, hc, hd, he, hf, trivial⟩
    · rintro ⟨ha, hb, hc, hd, he, hf, -⟩
      simp [ha, hb, hc, hd, he, hf]
  case h_2 hsplit =>
    refine iff_of_false nofun fun h => ?_
    simp only [octets, List.forall₂_cons_right_iff, List.forall₂_nil_right_iff] at h
    obtain ⟨a, _, -, ⟨b, _, -, ⟨c, _, -, ⟨d, _, -, ⟨e, _, -, ⟨f, _, -, rfl, hf⟩, he⟩, hd⟩, hc⟩, hb⟩,
      ha⟩ := h
    subst hf he hd hc hb
    exact hsplit a b c d e f ha

/-! ## Canonical texts -/

/-- The text is in canonical form: six pairs of lower-case digits with colons in between. -/
def IsCanonical (cs : List Char) : Prop :=
  ∃ parts : List (List Char), parts.length = 6 ∧ cs = [':'].intercalate parts ∧
    ∀ part ∈ parts, part.length = 2 ∧ ∀ c ∈ part, c ∈ Hex.lowerDigits

theorem colon_mem_of_length {parts : List (List Char)} (h : parts.length = 6) :
    ':' ∈ [':'].intercalate parts := by
  rcases parts with _ | ⟨a, _ | ⟨b, parts⟩⟩
  · cases h
  · cases h
  · simp [List.intercalate]

theorem isOctet_byte (o : UInt8) : IsOctet (Hex.byte o.toNat) o.toNat := by
  have hlt : o.toNat < 256 := o.toNat_lt
  have hoctet := IsOctet.two (Hex.isDigit_digitChar (n := o.toNat / 16) (by omega))
    (Hex.isDigit_digitChar (n := o.toNat % 16) (by omega))
  rwa [Nat.div_add_mod'] at hoctet

theorem spelledBy_render (m : Mac) : m.SpelledBy m.render := by
  have hcolon : ':' ∈ m.render := colon_mem_of_length (by simp [octets])
  refine ⟨m.octets.map fun o => Hex.byte o.toNat, by rw [if_pos hcolon, render], ?_⟩
  exact List.forall₂_map_left_iff.2 (List.forall₂_same.2 fun o _ => isOctet_byte o)

/-- The text of a MAC address reads back as it. -/
theorem parse?_render (m : Mac) : parse? m.render = some m :=
  parse?_eq_some_iff.2 m.spelledBy_render

theorem isCanonical_render (m : Mac) : IsCanonical m.render := by
  refine ⟨_, by simp [octets], rfl, fun part hpart => ?_⟩
  obtain ⟨o, -, rfl⟩ := List.mem_map.1 hpart
  have hlt : o.toNat < 256 := o.toNat_lt
  have hhigh := Hex.lowerDigits_digitChar (n := o.toNat / 16) (by omega)
  have hlow := Hex.lowerDigits_digitChar (n := o.toNat % 16) (by omega)
  simp [Hex.byte, List.mem_of_getElem? hhigh, List.mem_of_getElem? hlow]

theorem mem_of_mem_render {c : Char} (h : c ∈ m.render) : c ∈ ':' :: Hex.lowerDigits := by
  obtain ⟨parts, -, hrender, hparts⟩ := m.isCanonical_render
  rw [hrender] at h
  rcases Lists.mem_intercalate h with rfl | ⟨part, hpart, hc⟩
  · exact List.mem_cons_self
  · exact List.mem_cons_of_mem _ ((hparts part hpart).2 c hc)

/-- A pair of lower-case digits is how its value is written. -/
theorem IsOctet.eq_byte (h : IsOctet cs n) (hlen : cs.length = 2)
    (hlower : ∀ c ∈ cs, c ∈ Hex.lowerDigits) : cs = Hex.byte n := by
  cases h with
  | one ha => cases hlen
  | @two _ _ d e ha hb =>
    have hlt := hb.lt_sixteen
    have hhigh : (d * 16 + e) / 16 = d := by omega
    rw [Hex.byte, hhigh, Nat.mul_add_mod_of_lt hlt, ← ha.eq_digitChar (hlower _ (by simp)),
      ← hb.eq_digitChar (hlower _ (by simp))]
  | signed ha =>
    have hplus : '+' ∉ Hex.lowerDigits := by decide
    exact absurd (hlower '+' List.mem_cons_self) hplus

/-- Each address has one canonical text, the one that is written for it. -/
theorem isCanonical_and_spelledBy_iff : IsCanonical cs ∧ m.SpelledBy cs ↔ cs = m.render := by
  constructor
  · rintro ⟨⟨parts, hlen, rfl, hparts⟩, hspelled⟩
    have hnot : ∀ part ∈ parts, ':' ∉ part := by
      intro part hpart hmem
      exact absurd ((hparts part hpart).2 _ hmem) (by decide)
    have hne : parts ≠ [] := by
      rintro rfl
      cases hlen
    rw [spelledBy_iff, separator, if_pos (colon_mem_of_length hlen),
      List.splitOn_intercalate ':' hnot hne] at hspelled
    have hbytes : parts = m.octets.map fun o => Hex.byte o.toNat := by
      rw [← List.forall₂_eq_eq_eq, List.forall₂_map_right_iff]
      exact ((List.forall₂_and_left _ _).2 ⟨hparts, hspelled⟩).imp
        fun _ _ h => h.2.eq_byte h.1.1 h.1.2
    rw [render, hbytes]
  · rintro rfl
    exact ⟨m.isCanonical_render, m.spelledBy_render⟩

end Mac

end Overlay
