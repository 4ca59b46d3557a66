import KeyedTables.Proofs.Transfer.Writing
import KeyedTables.Proofs.Number.Digits

/-!
This module contains the grammar of decimal literals. Reading a text succeeds exactly for literals
of at most 38 places and a number of at most 38 digits, not counting leading zeros. Every other text
is turned down as no literal at all or as one that no precision holds.
-/

namespace KeyedTables

namespace Decimal

/--
How the sign of a literal is written.
-/
inductive SignMark where
  | absent
  | plus
  | minus
  deriving DecidableEq

def SignMark.chars : SignMark → List Char
  | .absent => []
  | .plus => ['+']
  | .minus => ['-']

/--
What follows the digits before the point: nothing, or the point and the places.
-/
def fractionChars : Option (List Char) → List Char
  | none => []
  | some places => '.' :: places

/--
A decimal literal: at most one sign, then digits with at most one point among them. There is at
least one digit.
-/
structure Literal where
  mark : SignMark
  whole : List Char
  places? : Option (List Char)
  isDigit : ∀ c ∈ whole ++ places?.getD [], c.isDigit = true
  nonempty : whole ++ places?.getD [] ≠ []

namespace Literal

def chars (l : Literal) : List Char :=
  l.mark.chars ++ (l.whole ++ fractionChars l.places?)

/--
The digits after the point.
-/
def places (l : Literal) : List Char :=
  l.places?.getD []

/--
The number that all digits spell without the point.
-/
def number (l : Literal) : Nat :=
  Nat.ofDigitChars 10 (l.whole ++ l.places) 0

def unscaled (l : Literal) : Int :=
  if l.mark = .minus then -(l.number : Int) else l.number

/--
The smallest precision that holds all places and all digits of the number.
-/
def precision (l : Literal) : Nat :=
  max 1 (max l.places.length (Number.digitCount l.number))

/--
The literal is read as a number of signed 128-bit integers and a number of places of 8 bits.
-/
def IsReadable (l : Literal) : Prop :=
  l.places.length ≤ maxPlaces ∧ (l.number : Int) ≤ Int128.maxValue

instance (l : Literal) : Decidable l.IsReadable :=
  inferInstanceAs (Decidable (_ ∧ _))

end Literal

/-!
# Splitting
-/

theorem splitSign_append {cs : List Char} (mark : SignMark) (hplus : cs.head? ≠ some '+')
    (hminus : cs.head? ≠ some '-') :
    splitSign (mark.chars ++ cs) = (decide (mark = .minus), cs) := by
  cases mark with
  | plus => rfl
  | minus => rfl
  | absent =>
    unfold SignMark.chars
    rw [List.nil_append]
    unfold splitSign
    split
    . exact absurd rfl hminus
    . exact absurd rfl hplus
    . rfl

theorem exists_mark (cs : List Char) :
    ∃ mark : SignMark, cs = mark.chars ++ (splitSign cs).2 := by
  unfold splitSign
  split
  . exact ⟨.minus, rfl⟩
  . exact ⟨.plus, rfl⟩
  . exact ⟨.absent, rfl⟩

theorem splitPoint_append {whole : List Char} (places? : Option (List Char))
    (h : ∀ c ∈ whole, c ≠ '.') :
    splitPoint (whole ++ fractionChars places?) = (whole, places?.getD []) := by
  have hdots : ∀ c ∈ whole, decide (c ≠ '.') = true := by
    intro c hc
    exact decide_eq_true (h c hc)
  unfold splitPoint
  rw [List.takeWhile_append_of_pos hdots, List.dropWhile_append_of_pos hdots]
  cases places? <;> simp [fractionChars]

theorem exists_places (cs : List Char) :
    ∃ places? : Option (List Char),
      cs = (splitPoint cs).1 ++ fractionChars places? ∧ (splitPoint cs).2 = places?.getD [] := by
  unfold splitPoint
  cases hrest : cs.dropWhile (· ≠ '.') with
  | nil =>
    refine ⟨none, ?_, rfl⟩
    have := List.takeWhile_append_dropWhile (p := (· ≠ '.')) (l := cs)
    rw [hrest] at this
    exact this.symm
  | cons c rest =>
    have hc : c = '.' := by
      have := List.head?_dropWhile_not (· ≠ '.') cs
      rw [hrest] at this
      simpa using this
    refine ⟨some rest, ?_, rfl⟩
    have := List.takeWhile_append_dropWhile (p := (· ≠ '.')) (l := cs)
    rw [hrest, hc] at this
    exact this.symm

/-!
# Reading the digits
-/

theorem pushDigit_eq (n : Nat) (c : Char) :
    pushDigit n c = Int128.checked ((10 * n + (c.toNat - '0'.toNat) : Nat) : Int) := by
  unfold pushDigit Int128.checkedMul Int128.checkedAdd
  by_cases h : Int128.InRange ((n : Int) * 10)
  . rw [Int128.checked_eq_some_iff.2 ⟨h, rfl⟩]
    dsimp only [bind, Option.bind]
    congr 1
    omega
  . -- the digit only adds to a number that is too large
    have hsum : ¬ Int128.InRange ((10 * n + (c.toNat - '0'.toNat) : Nat) : Int) := by
      unfold Int128.InRange Int128.minValue Int128.maxValue at *
      omega
    unfold Int128.checked
    rw [if_neg h, if_neg hsum]
    rfl

/--
Reading digits one by one fails exactly if the number that they spell is too large: it only grows.
-/
theorem foldlM_pushDigit (ds : List Char) (n : Nat) (hn : (n : Int) ≤ Int128.maxValue) :
    ds.foldlM pushDigit (n : Int) = Int128.checked (Nat.ofDigitChars 10 ds n : Int) := by
  induction ds generalizing n with
  | nil =>
    have : Int128.InRange n := by
      unfold Int128.InRange Int128.minValue
      omega
    exact (Int128.checked_eq_some_iff.2 ⟨this, rfl⟩).symm
  | cons c ds ih =>
    rw [List.foldlM_cons, pushDigit_eq, Nat.ofDigitChars_cons]
    by_cases h : ((10 * n + (c.toNat - '0'.toNat) : Nat) : Int) ≤ Int128.maxValue
    . have hrange : Int128.InRange ((10 * n + (c.toNat - '0'.toNat) : Nat) : Int) := by
        unfold Int128.InRange Int128.minValue
        omega
      rw [Int128.checked_eq_some_iff.2 ⟨hrange, rfl⟩]
      exact ih _ h
    . have hle := Number.le_ofDigitChars ds (10 * n + (c.toNat - '0'.toNat))
      unfold Int128.checked
      rw [if_neg, if_neg]
      . rfl
      . unfold Int128.InRange
        omega
      . unfold Int128.InRange
        omega

namespace Literal

variable (l : Literal)

theorem isDigit_whole {c : Char} (hc : c ∈ l.whole) : c.isDigit = true :=
  l.isDigit c (List.mem_append_left _ hc)

theorem head?_body (c : Char) (hdigit : c.isDigit = false) (hpoint : c ≠ '.') :
    (l.whole ++ fractionChars l.places?).head? ≠ some c := by
  intro h
  cases hwhole : l.whole with
  | nil =>
    rw [hwhole] at h
    cases hplaces : l.places? with
    | none => simp [hplaces, fractionChars] at h
    | some places =>
      rw [hplaces] at h
      exact hpoint (Option.some.inj h).symm
  | cons d ds =>
    have hd := l.isDigit_whole (c := d) (by simp [hwhole])
    have hcd : d = c := by simpa [hwhole] using h
    rw [hcd, hdigit] at hd
    contradiction

theorem splitSign_chars :
    splitSign l.chars = (decide (l.mark = .minus), l.whole ++ fractionChars l.places?) :=
  splitSign_append l.mark (l.head?_body '+' rfl (by decide)) (l.head?_body '-' rfl (by decide))

theorem splitPoint_body :
    splitPoint (l.whole ++ fractionChars l.places?) = (l.whole, l.places) := by
  apply splitPoint_append
  intro c hc hpoint
  have := l.isDigit_whole hc
  rw [hpoint] at this
  contradiction

theorem readLiteral_chars :
    readLiteral l.chars
      =
    if maxPlaces < l.places.length then none
    else (Int128.checked l.number).map fun n =>
      (if l.mark = .minus then -n else n, l.places.length) := by
  have hempty : (l.whole.isEmpty && l.places.isEmpty) = false := by
    have := l.nonempty
    unfold places
    cases hwhole : l.whole <;> simp_all
  have hall : (l.whole ++ l.places).all Char.isDigit = true := by
    rw [List.all_eq_true]
    exact l.isDigit
  have hfold : (l.whole ++ l.places).foldlM pushDigit 0 = Int128.checked l.number :=
    foldlM_pushDigit _ 0 (by decide)
  unfold readLiteral
  rw [l.splitSign_chars]
  dsimp only
  rw [l.splitPoint_body]
  dsimp only
  rw [hempty, hall, hfold]
  simp only [Bool.false_eq_true, Bool.not_true, if_false, decide_eq_true_eq, maxPlaces]
  cases Int128.checked l.number <;> rfl

theorem readLiteral_of_isReadable (h : l.IsReadable) :
    readLiteral l.chars = some (l.unscaled, l.places.length) := by
  have hrange : Int128.InRange l.number := ⟨by unfold Int128.minValue; omega, h.2⟩
  have hplaces := h.1
  rw [l.readLiteral_chars, if_neg (by omega), Int128.checked_eq_some_iff.2 ⟨hrange, rfl⟩]
  rfl

theorem readLiteral_of_not_isReadable (h : ¬ l.IsReadable) : readLiteral l.chars = none := by
  rw [l.readLiteral_chars]
  split
  . rfl
  . next hplaces =>
    have hrange : ¬ Int128.InRange l.number := by
      intro hrange
      exact h ⟨by omega, hrange.2⟩
    unfold Int128.checked
    rw [if_neg hrange]
    rfl

end Literal

theorem exists_literal_of_readLiteral {cs : List Char} {r : Int × Nat}
    (h : readLiteral cs = some r) : ∃ l : Literal, l.chars = cs := by
  obtain ⟨mark, hmark⟩ := exists_mark cs
  obtain ⟨places?, hbody, hplaces⟩ := exists_places (splitSign cs).2
  unfold readLiteral at h
  dsimp only at h
  rw [hplaces] at h
  split at h
  . contradiction
  . next hempty =>
    split at h
    . contradiction
    . next hall =>
      have hdigits : ((splitPoint (splitSign cs).2).1 ++ places?.getD []).all Char.isDigit = true :=
        by simpa only [Bool.not_eq_true', Bool.not_eq_false] using hall
      refine ⟨⟨mark, (splitPoint (splitSign cs).2).1, places?, List.all_eq_true.1 hdigits, ?_⟩, ?_⟩
      . intro hnil
        rw [List.append_eq_nil_iff] at hnil
        rw [hnil.1, hnil.2] at hempty
        exact hempty rfl
      . unfold Literal.chars
        rw [← hbody, ← hmark]

/-!
# Decimals
-/

theorem make_eq_ok_iff {unscaled : Int} {precision scale : Nat} {d : Decimal} :
    make unscaled precision scale = .ok d
      ↔ d.unscaled = unscaled ∧ d.precision = precision ∧ d.scale = scale := by
  constructor
  . exact make_eq_ok
  . rintro ⟨rfl, rfl, rfl⟩
    exact make_eq d

namespace Literal

variable (l : Literal)

theorem natAbs_unscaled : l.unscaled.natAbs = l.number := by
  unfold unscaled
  split
  . rw [Int.natAbs_neg, Int.natAbs_natCast]
  . exact Int.natAbs_natCast _

theorem precision_le_iff :
    l.precision ≤ maxPrecision
      ↔ l.places.length ≤ maxPrecision ∧ l.number < 10 ^ maxPrecision := by
  have hpos : 0 < maxPrecision := by decide
  rw [← Number.digitCount_le_iff hpos]
  unfold precision
  omega

theorem make_of_precision_le (h : l.precision ≤ maxPrecision) :
    ∃ d, make l.unscaled l.precision l.places.length = .ok d := by
  have hcount := l.natAbs_unscaled
  unfold make
  rw [dif_pos]
  . exact ⟨_, rfl⟩
  . rw [hcount]
    unfold precision maxPrecision at *
    omega

theorem make_of_lt_precision (h : maxPrecision < l.precision) :
    make l.unscaled l.precision l.places.length
      = .error (.decimalPrecision l.precision l.places.length) := by
  unfold make
  rw [dif_neg]
  omega

theorem isReadable_of_precision_le (h : l.precision ≤ maxPrecision) : l.IsReadable := by
  obtain ⟨hplaces, hnumber⟩ := l.precision_le_iff.1 h
  have hshort : maxPrecision ≤ maxPlaces := by decide
  have hlarge : ((10 ^ maxPrecision : Nat) : Int) ≤ Int128.maxValue := by decide
  unfold IsReadable
  omega

variable {l} {s : String}

theorem ofText_of_isReadable (hs : l.chars = s.toList) (h : l.IsReadable) :
    ofText s = make l.unscaled l.precision l.places.length := by
  have hprecision : max (max (Number.digitCount l.number) l.places.length) 1 = l.precision := by
    unfold precision
    omega
  unfold ofText
  rw [← hs, l.readLiteral_of_isReadable h]
  dsimp only
  rw [l.natAbs_unscaled, hprecision]

theorem ofText_of_not_isReadable (hs : l.chars = s.toList) (h : ¬ l.IsReadable) :
    ofText s = .error (.invalidDecimal s) := by
  unfold ofText
  rw [← hs, l.readLiteral_of_not_isReadable h]

end Literal

theorem ofText_of_no_literal {s : String} (h : ¬ ∃ l : Literal, l.chars = s.toList) :
    ofText s = .error (.invalidDecimal s) := by
  unfold ofText
  cases hread : readLiteral s.toList with
  | none => rfl
  | some r => exact absurd (exists_literal_of_readLiteral hread) h

/--
What becomes of a text. A literal that no decimal holds is turned down for its size if it is too
long to be read at all, and for its precision otherwise.
-/
inductive ReadsAs (s : String) : Except InputError Decimal → Prop where
  | decimal {l : Literal} {d : Decimal} (hs : l.chars = s.toList)
    (hplaces : l.places.length ≤ maxPrecision) (hnumber : l.number < 10 ^ maxPrecision)
    (hunscaled : d.unscaled = l.unscaled)
    (hprecision : d.precision = l.precision) (hscale : d.scale = l.places.length) :
    ReadsAs s (.ok d)
  | noLiteral (h : ¬ ∃ l : Literal, l.chars = s.toList) : ReadsAs s (.error (.invalidDecimal s))
  | tooLong {l : Literal} (hs : l.chars = s.toList)
    (h : maxPlaces < l.places.length ∨ Int128.maxValue < l.number) :
    ReadsAs s (.error (.invalidDecimal s))
  | tooPrecise {l : Literal} (hs : l.chars = s.toList) (hplaces : l.places.length ≤ maxPlaces)
    (hnumber : (l.number : Int) ≤ Int128.maxValue)
    (h : maxPrecision < l.places.length ∨ 10 ^ maxPrecision ≤ l.number) :
    ReadsAs s (.error (.decimalPrecision l.precision l.places.length))

theorem readsAs_ofText (s : String) : ReadsAs s (ofText s) := by
  by_cases hliteral : ∃ l : Literal, l.chars = s.toList
  . obtain ⟨l, hs⟩ := hliteral
    by_cases hreadable : l.IsReadable
    . rw [Literal.ofText_of_isReadable hs hreadable]
      by_cases hprecision : l.precision ≤ maxPrecision
      . obtain ⟨d, hd⟩ := l.make_of_precision_le hprecision
        obtain ⟨hplaces, hnumber⟩ := l.precision_le_iff.1 hprecision
        obtain ⟨hunscaled, hd_precision, hscale⟩ := make_eq_ok hd
        rw [hd]
        exact .decimal hs hplaces hnumber hunscaled hd_precision hscale
      . rw [l.make_of_lt_precision (by omega)]
        refine .tooPrecise hs hreadable.1 hreadable.2 ?_
        rw [l.precision_le_iff] at hprecision
        omega
    . rw [Literal.ofText_of_not_isReadable hs hreadable]
      refine .tooLong hs ?_
      unfold Literal.IsReadable at hreadable
      omega
  . rw [ofText_of_no_literal hliteral]
    exact .noLiteral hliteral

theorem ReadsAs.ofText_eq {s : String} {r : Except InputError Decimal} (h : ReadsAs s r) :
    ofText s = r := by
  cases h with
  | @decimal l d hs hplaces hnumber hunscaled hprecision hscale =>
    have hreadable := l.isReadable_of_precision_le (l.precision_le_iff.2 ⟨hplaces, hnumber⟩)
    rw [Literal.ofText_of_isReadable hs hreadable]
    exact make_eq_ok_iff.2 ⟨hunscaled, hprecision, hscale⟩
  | noLiteral h => exact ofText_of_no_literal h
  | @tooLong l hs h =>
    apply Literal.ofText_of_not_isReadable hs
    unfold Literal.IsReadable
    omega
  | @tooPrecise l hs hplaces hnumber h =>
    rw [Literal.ofText_of_isReadable hs ⟨hplaces, hnumber⟩]
    apply l.make_of_lt_precision
    have := l.precision_le_iff
    omega

/--
Reading succeeds exactly for literals of at most 38 places whose number has at most 38 digits. The
decimal has the number with its sign, the places as its scale, and the smallest precision that
holds both. Every other text has the error that its length or its precision calls for.
-/
theorem ofText_grammar (s : String) :
    ((∃ d, ofText s = .ok d) ↔
      ∃ l : Literal, l.chars = s.toList ∧ l.places.length ≤ maxPrecision
        ∧ l.number < 10 ^ maxPrecision)
      ∧ ∀ r, ofText s = r ↔ ReadsAs s r := by
  refine ⟨⟨?_, ?_⟩, fun r => ⟨?_, ReadsAs.ofText_eq⟩⟩
  . rintro ⟨d, hd⟩
    have h := readsAs_ofText s
    rw [hd] at h
    cases h with
    | @decimal l _ hs hplaces hnumber => exact ⟨l, hs, hplaces, hnumber⟩
  . rintro ⟨l, hs, hplaces, hnumber⟩
    have hprecision := l.precision_le_iff.2 ⟨hplaces, hnumber⟩
    rw [Literal.ofText_of_isReadable hs (l.isReadable_of_precision_le hprecision)]
    exact l.make_of_precision_le hprecision
  . rintro rfl
    exact readsAs_ofText s

end Decimal

end KeyedTables
