import Mathlib.Algebra.GroupWithZero.Nat
import KeyedTables.Proofs.Number.Digits
import KeyedTables.Time.Duration

/-!
This module contains the format of durations in texts, and the round trip through it. What a duration
is split into leaves nothing over, because the last unit is a nanosecond, and whoever adds up the spans
of a text comes to the duration again.
-/

namespace KeyedTables

namespace Duration

/-!
# The format
-/

/--
The names under which a unit may appear in a text.
-/
def TimeUnit.documentedNames : TimeUnit → List String
  | .nanosecond => ["nsec", "ns"]
  | .microsecond => ["usec", "us"]
  | .millisecond => ["msec", "ms"]
  | .second => ["seconds", "second", "sec", "s"]
  | .minute => ["minutes", "minute", "min", "m"]
  | .hour => ["hours", "hour", "hr", "h"]
  | .day => ["days", "day", "d"]
  | .week => ["weeks", "week", "w"]
  | .month => ["months", "month", "M"]
  | .year => ["years", "year", "y"]

/--
The text shows the parts of a duration that are not zero, from the years to the nanoseconds.
-/
def WrittenInParts (d : Duration) (text : String) : Prop :=
  ∃ spans : List Span, text = Span.textOfAll spans
    ∧ spans.map (fun s => (s.count, s.unit)) = d.parts
    ∧ ∀ s ∈ spans, s.name ∈ s.unit.documentedNames

/--
A span as every reader of durations knows it. What is counted in a unit below a second is less than a
second.
-/
structure Span.Plain (s : Span) : Prop where
  named : s.name ∈ s.unit.documentedNames
  below_second : s.unit.nanoseconds < 10 ^ 9 → s.nanoseconds < 10 ^ 9

def Span.total (spans : List Span) : Nat :=
  (spans.map Span.nanoseconds).sum

/--
The reader comes to the sum of the spans of a text, if there are any and the sum is in range.
-/
def AddsUpSpans (read? : String → Option Duration) : Prop :=
  ∀ spans : List Span, spans ≠ [] → (∀ s ∈ spans, s.Plain) →
    ∀ hrange : Span.total spans < 2 ^ 64 * 10 ^ 9,
      read? (Span.textOfAll spans) = some ⟨Span.total spans, hrange⟩

/-!
# The parts of a duration
-/

theorem TimeUnit.nanoseconds_pos (unit : TimeUnit) : 0 < unit.nanoseconds := by
  cases unit <;> decide

theorem TimeUnit.div_second_mul (unit : TimeUnit) (h : ¬ unit.nanoseconds < 10 ^ 9) :
    unit.nanoseconds / 10 ^ 9 * 10 ^ 9 = unit.nanoseconds := by
  cases unit <;> revert h <;> decide

/--
These units split up each number of nanoseconds below the limit and leave nothing over. Units below a
second only split up what is left of a second.
-/
inductive SplitUp : Nat → List TimeUnit → Prop where
  | nothing : SplitUp 1 []
  | unit {limit : Nat} {unit : TimeUnit} {shorter : List TimeUnit}
    (hlimit : unit.nanoseconds < 10 ^ 9 → limit ≤ 10 ^ 9)
    (hshorter : SplitUp unit.nanoseconds shorter) : SplitUp limit (unit :: shorter)

theorem splitUp_splitUnits : SplitUp (2 ^ 64 * 10 ^ 9) splitUnits := by
  unfold splitUnits
  repeat
    refine .unit (by decide) ?_
  exact .nothing

def nanosecondsOf (parts : List (Nat × TimeUnit)) : Nat :=
  (parts.map fun (count, unit) => count * unit.nanoseconds).sum

theorem nanosecondsOf_split {limit n : Nat} {units : List TimeUnit} (hunits : SplitUp limit units)
    (hn : n < limit) : nanosecondsOf (split units n) = n := by
  induction hunits generalizing n with
  | nothing =>
    rw [Nat.lt_one_iff.1 hn]
    rfl
  | @unit limit unit shorter hlimit hshorter ih =>
    have hdiv := Nat.div_add_mod' n unit.nanoseconds
    have hrest := ih (Nat.mod_lt n unit.nanoseconds_pos)
    dsimp only [split]
    split
    . next hcount =>
      rw [hrest]
      rwa [hcount, Nat.zero_mul, Nat.zero_add] at hdiv
    . unfold nanosecondsOf at hrest ⊢
      rw [List.map_cons, List.sum_cons, hrest, hdiv]

theorem below_second_of_mem_split {limit n : Nat} {units : List TimeUnit}
    (hunits : SplitUp limit units) (hn : n < limit) :
    ∀ p ∈ split units n, p.2.nanoseconds < 10 ^ 9 → p.1 * p.2.nanoseconds < 10 ^ 9 := by
  induction hunits generalizing n with
  | nothing => simp [split]
  | @unit limit unit shorter hlimit hshorter ih =>
    have hrest := ih (Nat.mod_lt n unit.nanoseconds_pos)
    dsimp only [split]
    split
    . exact hrest
    . intro p hp hunit
      cases List.mem_cons.1 hp with
      | inl heq =>
        subst heq
        have := Nat.div_mul_le_self n unit.nanoseconds
        have := hlimit hunit
        dsimp only
        omega
      | inr hmem => exact hrest p hmem hunit

theorem parts_of_pos {d : Duration} (h : d.nanoseconds ≠ 0) :
    d.parts = split splitUnits d.nanoseconds := by
  unfold parts
  rw [if_neg h]

theorem parts_of_zero {d : Duration} (h : d.nanoseconds = 0) : d.parts = [(0, .second)] := by
  unfold parts
  rw [if_pos h]

/--
The parts of a duration make up the duration.
-/
theorem nanosecondsOf_parts (d : Duration) : nanosecondsOf d.parts = d.nanoseconds := by
  by_cases h : d.nanoseconds = 0
  . rw [parts_of_zero h, h]
    rfl
  . rw [parts_of_pos h, nanosecondsOf_split splitUp_splitUnits d.inRange]

theorem below_second_of_mem_parts (d : Duration) :
    ∀ p ∈ d.parts, p.2.nanoseconds < 10 ^ 9 → p.1 * p.2.nanoseconds < 10 ^ 9 := by
  by_cases h : d.nanoseconds = 0
  . rw [parts_of_zero h]
    simp
  . rw [parts_of_pos h]
    exact below_second_of_mem_split splitUp_splitUnits d.inRange

theorem parts_ne_nil (d : Duration) : d.parts ≠ [] := by
  by_cases h : d.nanoseconds = 0
  . rw [parts_of_zero h]
    simp
  . intro hnil
    have htotal := d.nanosecondsOf_parts
    rw [hnil] at htotal
    exact h htotal.symm

/--
Whoever adds up the spans of a text reads a duration back that is written in its parts.
-/
theorem AddsUpSpans.read?_eq {read? : String → Option Duration} (hread : AddsUpSpans read?)
    {d : Duration} {text : String} (htext : d.WrittenInParts text) : read? text = some d := by
  obtain ⟨spans, rfl, hparts, hnamed⟩ := htext
  have htotal : Span.total spans = d.nanoseconds := by
    rw [← d.nanosecondsOf_parts, ← hparts, nanosecondsOf, List.map_map]
    rfl
  have hne : spans ≠ [] := by
    rintro rfl
    exact d.parts_ne_nil hparts.symm
  have hplain : ∀ s ∈ spans, s.Plain := by
    intro s hs
    have hmem : (s.count, s.unit) ∈ d.parts := by
      rw [← hparts]
      exact List.mem_map_of_mem hs
    exact ⟨hnamed s hs, d.below_second_of_mem_parts _ hmem⟩
  rw [hread spans hne hplain (htotal ▸ d.inRange)]
  congr 1
  cases d
  congr 1

/-!
# Adding up
-/

/--
A name under which the reader finds this unit.
-/
structure TimeUnit.IsNamed (unit : TimeUnit) (name : String) : Prop where
  ne_nil : name.toList ≠ []
  letters : name.toList.all isUnitLetter = true
  ofName?_eq : TimeUnit.ofName? name = some unit

instance (unit : TimeUnit) (name : String) : Decidable (unit.IsNamed name) :=
  decidable_of_iff
    (name.toList ≠ [] ∧ name.toList.all isUnitLetter = true ∧ TimeUnit.ofName? name = some unit)
    ⟨fun h => ⟨h.1, h.2.1, h.2.2⟩, fun h => ⟨h.1, h.2, h.3⟩⟩

theorem isNamed_of_documented {unit : TimeUnit} {name : String}
    (h : name ∈ unit.documentedNames) : unit.IsNamed name := by
  revert name
  cases unit <;> decide

theorem word?_eq {n : Nat} (h : n < 2 ^ 64) : word? n = some n := by
  unfold word?
  rw [if_pos h]

theorem addSeconds_eq {total seconds : Nat} (h : total + seconds * 10 ^ 9 < 2 ^ 64 * 10 ^ 9) :
    addSeconds total seconds = some (total + seconds * 10 ^ 9) := by
  unfold addSeconds
  rw [word?_eq (by omega)]
  dsimp only [bind, Option.bind]
  rw [word?_eq (by omega)]

theorem addNanoseconds_eq {total nanos : Nat} (hnanos : nanos < 10 ^ 9)
    (h : total + nanos < 2 ^ 64 * 10 ^ 9) :
    addNanoseconds total nanos = some (total + nanos) := by
  unfold addNanoseconds
  rw [word?_eq (by omega)]
  dsimp only [bind, Option.bind]
  rw [word?_eq (by omega)]
  dsimp only
  rw [word?_eq (by omega)]

/--
So many of a unit can be added to the total. Units below a second make up less than a second.
-/
structure Fits (total count : Nat) (unit : TimeUnit) : Prop where
  below_second : unit.nanoseconds < 10 ^ 9 → count * unit.nanoseconds < 10 ^ 9
  inRange : total + count * unit.nanoseconds < 2 ^ 64 * 10 ^ 9

variable {total count : Nat} {unit : TimeUnit} {name : String}

theorem Fits.count_lt (h : Fits total count unit) : count < 2 ^ 64 := by
  have hinRange := h.inRange
  by_cases hunit : unit.nanoseconds < 10 ^ 9
  . have := Nat.le_mul_of_pos_right count unit.nanoseconds_pos
    have := h.below_second hunit
    omega
  . have := Nat.mul_le_mul_left count (Nat.le_of_not_lt hunit)
    omega

theorem addWhole_eq (h : Fits total count unit) :
    addWhole total count unit = some (total + count * unit.nanoseconds) := by
  unfold addWhole
  split
  . next hunit => exact addNanoseconds_eq (h.below_second hunit) h.inRange
  . next hunit =>
    have hseconds : count * (unit.nanoseconds / 10 ^ 9) * 10 ^ 9 = count * unit.nanoseconds := by
      rw [Nat.mul_assoc, unit.div_second_mul hunit]
    rw [addSeconds_eq, hseconds]
    rw [hseconds]
    exact h.inRange

theorem addSpan_eq (hname : unit.IsNamed name) (h : Fits total count unit) :
    addSpan total count none name.toList = some (total + count * unit.nanoseconds) := by
  unfold addSpan
  rw [String.ofList_toList, hname.ofName?_eq]
  dsimp only [bind, Option.bind]
  rw [addWhole_eq h]

/-!
# Reading a span
-/

namespace Reader

variable {n : Nat} {started : Bool} {c : Char}

theorem digit?_eq (hc : c.isDigit = true) : digit? c = some (c.toNat - '0'.toNat) := by
  unfold digit?
  rw [if_pos]
  simpa [Char.isDigit, Char.le_def] using hc

theorem next_digit (hc : c.isDigit = true) (h : 10 * n + (c.toNat - '0'.toNat) < 2 ^ 64) :
    next ⟨total, started, .whole n⟩ c
      =
    some ⟨total, started, .whole (10 * n + (c.toNat - '0'.toNat))⟩ := by
  unfold next
  dsimp only
  rw [digit?_eq hc]
  dsimp only [pushDigit]
  rw [Nat.mul_comm n, word?_eq (by omega)]
  dsimp only [bind, Option.bind]
  rw [word?_eq h]

theorem foldlM_digits {ds : List Char} (hds : ∀ c ∈ ds, c.isDigit = true)
    (h : Nat.ofDigitChars 10 ds n < 2 ^ 64) :
    ds.foldlM next ⟨total, started, .whole n⟩
      =
    some ⟨total, started, .whole (Nat.ofDigitChars 10 ds n)⟩ := by
  induction ds generalizing n with
  | nil => rfl
  | cons c ds ih =>
    rw [Nat.ofDigitChars_cons] at h ⊢
    -- The number only grows, so that it has been within a word all along.
    have hle := Number.le_ofDigitChars ds (10 * n + (c.toNat - '0'.toNat))
    rw [List.foldlM_cons, next_digit (hds c List.mem_cons_self) (by omega)]
    exact ih (fun d hd => hds d (List.mem_cons_of_mem c hd)) h

theorem foldlM_count (h : count < 2 ^ 64) :
    (toString count).toList.foldlM next ⟨total, started, .between⟩
      =
    some ⟨total, true, .whole count⟩ := by
  rw [Nat.toString_eq_ofList_toDigits, String.toList_ofList]
  have hvalue : Nat.ofDigitChars 10 (Nat.toDigits 10 count) 0 = count :=
    Nat.ofDigitChars_ten_toDigits
  have hdigits : ∀ c ∈ Nat.toDigits 10 count, c.isDigit = true :=
    fun c hc => Nat.isDigit_of_mem_toDigits (by decide) (by decide) hc
  cases hds : Nat.toDigits 10 count with
  | nil => exact absurd hds Nat.toDigits_ne_nil
  | cons c ds =>
    rw [hds] at hvalue hdigits
    rw [Nat.ofDigitChars_cons, Nat.mul_zero, Nat.zero_add] at hvalue
    have hfirst : next ⟨total, started, .between⟩ c
        = some ⟨total, true, .whole (c.toNat - '0'.toNat)⟩ := by
      unfold next
      dsimp only
      rw [digit?_eq (hdigits c List.mem_cons_self)]
    rw [List.foldlM_cons, hfirst]
    dsimp only [bind, Option.bind]
    rw [foldlM_digits (fun d hd => hdigits d (List.mem_cons_of_mem c hd)) (by rwa [hvalue]), hvalue]

theorem toNat_of_isUnitLetter (h : isUnitLetter c = true) :
    65 ≤ c.toNat ∧ c.toNat ≤ 122 ∨ c.toNat = 181 := by
  simp only [isUnitLetter, Bool.or_eq_true, Bool.and_eq_true, decide_eq_true_eq] at h
  obtain (⟨hlow, hhigh⟩ | ⟨hlow, hhigh⟩) | rfl := h
  . have hlow : 97 ≤ c.toNat := hlow
    have hhigh : c.toNat ≤ 122 := hhigh
    omega
  . have hlow : 65 ≤ c.toNat := hlow
    have hhigh : c.toNat ≤ 90 := hhigh
    omega
  . exact .inr rfl

theorem digit?_of_isUnitLetter (h : isUnitLetter c = true) : digit? c = none := by
  have hletter := toNat_of_isUnitLetter h
  unfold digit?
  rw [if_neg]
  intro hdigit
  have hhigh : c.toNat ≤ 57 := hdigit.2
  omega

theorem isBlank_of_isUnitLetter (h : isUnitLetter c = true) : Text.isBlank c = false := by
  have hletter := toNat_of_isUnitLetter h
  simp only [Text.isBlank, Text.blankRanges, List.any_cons, List.any_nil, Bool.or_eq_false_iff,
    Bool.and_eq_false_iff, decide_eq_false_iff_not, and_true]
  omega

theorem foldlM_letters {name letters : List Char} (h : letters.all isUnitLetter = true) :
    letters.foldlM next ⟨total, started, .unit count none name⟩
      =
    some ⟨total, started, .unit count none (name ++ letters)⟩ := by
  induction letters generalizing name with
  | nil => rw [List.append_nil, List.foldlM_nil]; rfl
  | cons c letters ih =>
    rw [List.all_cons, Bool.and_eq_true] at h
    have hfirst : next ⟨total, started, .unit count none name⟩ c
        = some ⟨total, started, .unit count none (name ++ [c])⟩ := by
      unfold next
      dsimp only
      rw [digit?_of_isUnitLetter h.1]
      dsimp only
      rw [isBlank_of_isUnitLetter h.1, h.1]
      rfl
    rw [List.foldlM_cons, hfirst]
    dsimp only [bind, Option.bind]
    rw [ih h.2, List.append_assoc, List.singleton_append]

theorem foldlM_span (hname : unit.IsNamed name) (hcount : count < 2 ^ 64) :
    (toString count ++ name).toList.foldlM next ⟨total, started, .between⟩
      =
    some ⟨total, true, .unit count none name.toList⟩ := by
  rw [String.toList_append, List.foldlM_append, foldlM_count hcount]
  have hletters := hname.letters
  cases hchars : name.toList with
  | nil => exact absurd hchars hname.ne_nil
  | cons c cs =>
    rw [hchars, List.all_cons, Bool.and_eq_true] at hletters
    have hfirst : next ⟨total, true, .whole count⟩ c
        = some ⟨total, true, .unit count none [c]⟩ := by
      unfold next
      dsimp only
      rw [digit?_of_isUnitLetter hletters.1]
      dsimp only
      rw [isBlank_of_isUnitLetter hletters.1, hletters.1]
      rfl
    dsimp only [bind, Option.bind]
    rw [List.foldlM_cons, hfirst]
    exact foldlM_letters hletters.2

/--
A span that ends the text is added to the total.
-/
theorem finish_span (hname : unit.IsNamed name) (h : Fits total count unit) :
    ((toString count ++ name).toList.foldlM next ⟨total, started, .between⟩).bind finish
      =
    some (total + count * unit.nanoseconds) := by
  rw [foldlM_span hname h.count_lt]
  exact addSpan_eq hname h

/--
A blank after a span adds it to the total.
-/
theorem foldlM_span_blank (hname : unit.IsNamed name) (h : Fits total count unit) :
    ((toString count ++ name).toList ++ " ".toList).foldlM next ⟨total, started, .between⟩
      =
    some ⟨total + count * unit.nanoseconds, true, .between⟩ := by
  have hblank : next ⟨total, true, .unit count none name.toList⟩ ' '
      = some ⟨total + count * unit.nanoseconds, true, .between⟩ := by
    unfold next
    dsimp only
    rw [addSpan_eq hname h]
    rfl
  rw [List.foldlM_append, foldlM_span hname h.count_lt]
  change [' '].foldlM next _ = _
  rw [List.foldlM_cons, hblank]
  rfl

end Reader

/-!
# Reading spans
-/

theorem Span.toList_textOfAll_cons (s t : Span) (spans : List Span) :
    (Span.textOfAll (s :: t :: spans)).toList
      = (s.text.toList ++ " ".toList) ++ (Span.textOfAll (t :: spans)).toList := by
  unfold Span.textOfAll
  rw [String.toList_intercalate, String.toList_intercalate, List.map_cons, List.map_cons,
    List.map_cons, List.map_cons, List.intercalate_cons_cons]

/--
Reading spans adds their sum to the total.
-/
theorem foldlM_spans {spans : List Span} (hne : spans ≠ []) (hplain : ∀ s ∈ spans, s.Plain)
    (total : Nat) (started : Bool) (hfit : total + Span.total spans < 2 ^ 64 * 10 ^ 9) :
    ((Span.textOfAll spans).toList.foldlM Reader.next ⟨total, started, .between⟩).bind Reader.finish
      =
    some (total + Span.total spans) := by
  induction spans generalizing total started with
  | nil => exact absurd rfl hne
  | cons s spans ih =>
    have hs := hplain s List.mem_cons_self
    have htotal : Span.total (s :: spans) = s.nanoseconds + Span.total spans := List.sum_cons
    rw [htotal] at hfit ⊢
    have hfits : Fits total s.count s.unit := by
      refine ⟨hs.below_second, ?_⟩
      change total + s.nanoseconds < _
      omega
    cases spans with
    | nil =>
      unfold Span.textOfAll
      rw [List.map_singleton, String.intercalate_singleton]
      exact Reader.finish_span (isNamed_of_documented hs.named) hfits
    | cons t spans =>
      have hlater := ih (by simp) (fun u hu => hplain u (List.mem_cons_of_mem s hu))
        (total + s.nanoseconds) true (by omega)
      rw [Span.toList_textOfAll_cons, List.foldlM_append, Span.text,
        Reader.foldlM_span_blank (isNamed_of_documented hs.named) hfits, ← Nat.add_assoc]
      exact hlater

theorem parse?_of_total {s : String} {n : Nat} (hn : n < 2 ^ 64 * 10 ^ 9)
    (htotal : (s.toList.foldlM Reader.next {}).bind Reader.finish = some n) :
    parse? s = some ⟨n, hn⟩ := by
  unfold parse?
  rw [if_neg]
  . cases hreader : s.toList.foldlM Reader.next {} with
    | none =>
      rw [hreader] at htotal
      contradiction
    | some reader =>
      rw [hreader] at htotal
      dsimp only [Option.bind, bind] at htotal ⊢
      rw [htotal]
      exact dif_pos hn
  . -- The text of a lone zero has no unit, so that there is no total.
    rintro rfl
    contradiction

theorem addsUpSpans_parse? : AddsUpSpans parse? := by
  intro spans hne hplain hrange
  have htotal := foldlM_spans hne hplain 0 false (by rwa [Nat.zero_add])
  rw [Nat.zero_add] at htotal
  exact parse?_of_total hrange htotal

theorem writtenName_mem (count : Nat) (unit : TimeUnit) :
    writtenName count unit ∈ unit.documentedNames := by
  unfold writtenName
  split
  case h_7 | h_8 | h_9 | h_10 => split <;> decide
  all_goals decide

theorem writtenInParts_text (d : Duration) : d.WrittenInParts d.text := by
  refine ⟨_, rfl, ?_, ?_⟩
  . rw [List.map_map]
    exact List.map_id _
  . intro s hs
    obtain ⟨⟨count, unit⟩, -, rfl⟩ := List.mem_map.1 hs
    exact writtenName_mem count unit

end Duration

end KeyedTables
