import KeyedTables.Text.Json

/-!
This module contains the format of JSON, as far as configurations use it: null, truth values, strings
and objects. What the writer makes is such a text, and the reader comes to the value from each such
text. A character of a string may be spelled in several ways, and gaps may stand between the tokens.
-/

namespace KeyedTables

namespace Json

/-!
# The format
-/

/--
The letters of the escapes of two characters, each with the character that it stands for.
-/
def escapeLetters : List (Char × Char) :=
  [('"', '"'), ('\\', '\\'), ('/', '/'), ('b', '\x08'), ('f', '\x0c'), ('n', '\n'), ('r', '\r'),
    ('t', '\t')]

/--
The ways to spell a character in a string: escaped by a letter, escaped by its code unit or by the two
code units of a surrogate pair, or as itself.
-/
inductive Spells (c : Char) : List Char → Prop where
  | letter {e : Char} (h : (e, c) ∈ escapeLetters) : Spells c ['\\', e]
  | codeUnit {d₁ d₂ d₃ d₄ : Char} (h : codeUnit? d₁ d₂ d₃ d₄ = some c.toNat) :
    Spells c ['\\', 'u', d₁, d₂, d₃, d₄]
  | surrogates {d₁ d₂ d₃ d₄ e₁ e₂ e₃ e₄ : Char} {high low : Nat}
    (hhigh : codeUnit? d₁ d₂ d₃ d₄ = some (0xD800 + high)) (hhighRange : high < 0x400)
    (hlow : codeUnit? e₁ e₂ e₃ e₄ = some (0xDC00 + low)) (hlowRange : low < 0x400)
    (h : c.toNat = 0x10000 + high * 0x400 + low) :
    Spells c ['\\', 'u', d₁, d₂, d₃, d₄, '\\', 'u', e₁, e₂, e₃, e₄]
  | itself (hquote : c ≠ '"') (hbackslash : c ≠ '\\') (hcontrol : ¬ c.toNat < 32) : Spells c [c]

/--
The spellings of the characters of a text, one after the other.
-/
inductive SpellsAll : List Char → List Char → Prop where
  | nil : SpellsAll [] []
  | cons {c : Char} {cs text rest : List Char} (hc : Spells c cs) (hrest : SpellsAll text rest) :
    SpellsAll (c :: text) (cs ++ rest)

def Gap (cs : List Char) : Prop :=
  ∀ c ∈ cs, isGap c = true

/--
The texts of a value that is no number, no array and no object.
-/
inductive ScalarText : Json → List Char → Prop where
  | null : ScalarText .null ['n', 'u', 'l', 'l']
  | true : ScalarText (.bool .true) ['t', 'r', 'u', 'e']
  | false : ScalarText (.bool .false) ['f', 'a', 'l', 's', 'e']
  | string {s : String} {cs : List Char} (h : SpellsAll s.toList cs) :
    ScalarText (.string (some s)) ('"' :: cs ++ ['"'])

/--
The texts of a member of an object, if the values have the texts that are given.
-/
inductive MemberText (valueText : Json → List Char → Prop) :
    Option String × Json → List Char → Prop where
  | intro {name : String} {value : Json} {ns vs gap₁ gap₂ gap₃ gap₄ : List Char}
    (hname : SpellsAll name.toList ns) (hvalue : valueText value vs) (hgap₁ : Gap gap₁)
    (hgap₂ : Gap gap₂) (hgap₃ : Gap gap₃) (hgap₄ : Gap gap₄) :
    MemberText valueText (some name, value)
      (gap₁ ++ '"' :: ns ++ '"' :: gap₂ ++ ':' :: gap₃ ++ vs ++ gap₄)

/--
The texts of members with commas between them.
-/
inductive MembersText (valueText : Json → List Char → Prop) :
    List (Option String × Json) → List Char → Prop where
  | last {m : Option String × Json} {cs : List Char} (hm : MemberText valueText m cs) :
    MembersText valueText [m] cs
  | cons {m : Option String × Json} {ms : List (Option String × Json)} {cs rest : List Char}
    (hm : MemberText valueText m cs) (hms : MembersText valueText ms rest) :
    MembersText valueText (m :: ms) (cs ++ ',' :: rest)

inductive ObjectText (valueText : Json → List Char → Prop) : Json → List Char → Prop where
  | empty {gap : List Char} (hgap : Gap gap) :
    ObjectText valueText (.object []) ('\x7b' :: gap ++ ['\x7d'])
  | members {ms : List (Option String × Json)} {cs : List Char} (h : MembersText valueText ms cs) :
    ObjectText valueText (.object ms) ('\x7b' :: cs ++ ['\x7d'])

/--
The texts of a value in which objects are nested at most so deep.
-/
def TextOf : Nat → Json → List Char → Prop
  | 0, j, cs => ScalarText j cs
  | depth + 1, j, cs => ScalarText j cs ∨ ObjectText (TextOf depth) j cs

theorem ScalarText.textOf {j : Json} {cs : List Char} (h : ScalarText j cs) (depth : Nat) :
    TextOf depth j cs := by
  cases depth with
  | zero => exact h
  | succ depth => exact .inl h

/-!
# The writer
-/

/--
The code unit that four digits spell, if there are four.
-/
def unitOfDigits? : List Char → Option Nat
  | [a, b, c, d] => codeUnit? a b c d
  | _ => none

theorem unitOfDigits?_hex : ∀ n < 32,
    unitOfDigits? (List.leftpad 4 '0' (Nat.toDigits 16 n)) = some n := by
  decide

theorem codeUnit?_hex {n : Nat} (h : n < 32) :
    ∃ a b c d, (Text.hex 4 n).toList = [a, b, c, d] ∧ codeUnit? a b c d = some n := by
  have hunit := unitOfDigits?_hex n h
  unfold Text.hex
  rw [String.toList_ofList]
  unfold unitOfDigits? at hunit
  split at hunit
  . next a b c d hdigits => exact ⟨a, b, c, d, hdigits, hunit⟩
  . contradiction

theorem eq_ofNat {c : Char} {n : Nat} (h : c.toNat = n) : c = Char.ofNat n := by
  rw [← h, Char.ofNat_toNat]

theorem spells_escape (c : Char) : Spells c (escape c) := by
  unfold escape
  repeat
    split
    . next h =>
      apply Spells.letter
      first
        | rw [h]; decide
        | rw [eq_ofNat h]; decide
  split
  . next h =>
    obtain ⟨d₁, d₂, d₃, d₄, hdigits, hunit⟩ := codeUnit?_hex h
    rw [hdigits]
    exact .codeUnit hunit
  . next hquote hbackslash _ _ _ _ _ hcontrol => exact .itself hquote hbackslash hcontrol

theorem spellsAll_escape (text : List Char) : SpellsAll text (text.flatMap escape) := by
  induction text with
  | nil => exact .nil
  | cons c text ih =>
    rw [List.flatMap_cons]
    exact .cons (spells_escape c) ih

theorem scalarText_write {j : Json} {cs : List Char} (h : ScalarText j cs) :
    ScalarText j j.write := by
  cases h with
  | null => exact .null
  | true => exact .true
  | false => exact .false
  | @string s cs h => exact .string (spellsAll_escape s.toList)

theorem gap_nil : Gap [] := by
  intro c hc
  contradiction

theorem membersText_write {valueText : Json → List Char → Prop}
    (hvalue : ∀ j cs, valueText j cs → valueText j j.write) {ms : List (Option String × Json)}
    {cs : List Char} (h : MembersText valueText ms cs) : MembersText valueText ms (writeMembers ms) := by
  have hmember : ∀ m cs, MemberText valueText m cs →
      MemberText valueText m (writeString m.1 ++ ':' :: m.2.write) := by
    intro m cs hm
    cases hm with
    | @intro name value ns vs _ _ _ _ hname hvs =>
      have hwritten := MemberText.intro (spellsAll_escape name.toList) (hvalue value vs hvs) gap_nil
        gap_nil gap_nil gap_nil
      simpa [writeString] using hwritten
  induction h with
  | @last m cs hm =>
    exact .last (hmember m cs hm)
  | @cons m ms cs rest hm hms ih =>
    rw [writeMembers.eq_3]
    . exact .cons (hmember m cs hm) ih
    . rintro rfl
      contradiction

theorem textOf_write {depth : Nat} {j : Json} {cs : List Char} (h : TextOf depth j cs) :
    TextOf depth j j.write := by
  induction depth generalizing j cs with
  | zero => exact scalarText_write h
  | succ depth ih =>
    cases h with
    | inl hscalar => exact .inl (scalarText_write hscalar)
    | inr hobject =>
      right
      cases hobject with
      | empty hgap => exact .empty gap_nil
      | members hms => exact .members (membersText_write (fun _ _ h => ih h) hms)

theorem exists_scalarText_string (s : String) : ∃ cs, ScalarText (.string (some s)) cs :=
  ⟨_, .string (spellsAll_escape s.toList)⟩

theorem exists_scalarText_bool (b : Bool) : ∃ cs, ScalarText (.bool b) cs := by
  cases b with
  | false => exact ⟨_, .false⟩
  | true => exact ⟨_, .true⟩

theorem exists_membersText {valueText : Json → List Char → Prop} {m : String × Json}
    {ms : List (String × Json)} (h : ∀ n ∈ m :: ms, ∃ cs, valueText n.2 cs) :
    ∃ cs, MembersText valueText ((m :: ms).map fun n => (some n.1, n.2)) cs := by
  have hmember : ∀ n ∈ m :: ms, ∃ cs, MemberText valueText (some n.1, n.2) cs := by
    intro n hn
    obtain ⟨vs, hvs⟩ := h n hn
    exact ⟨_, .intro (spellsAll_escape n.1.toList) hvs gap_nil gap_nil gap_nil gap_nil⟩
  induction ms generalizing m with
  | nil =>
    obtain ⟨cs, hcs⟩ := hmember m List.mem_cons_self
    exact ⟨cs, .last hcs⟩
  | cons m' ms ih =>
    obtain ⟨cs, hcs⟩ := hmember m List.mem_cons_self
    obtain ⟨rest, hrest⟩ := ih (m := m') (fun n hn => h n (List.mem_cons_of_mem m hn))
      (fun n hn => hmember n (List.mem_cons_of_mem m hn))
    exact ⟨_, .cons hcs hrest⟩

theorem exists_textOf_ofMembers {depth : Nat} {ms : List (String × Json)}
    (h : ∀ m ∈ ms, ∃ cs, TextOf depth m.2 cs) : ∃ cs, TextOf (depth + 1) (.ofMembers ms) cs := by
  cases ms with
  | nil => exact ⟨_, .inr (.empty gap_nil)⟩
  | cons m ms =>
    obtain ⟨cs, hcs⟩ := exists_membersText h
    exact ⟨_, .inr (.members hcs)⟩

/-!
# The reader
-/

theorem escaped?_of_mem {e c : Char} (h : (e, c) ∈ escapeLetters) :
    e ≠ 'u' ∧ escaped? e = some c.toNat := by
  simp only [escapeLetters, List.mem_cons, Prod.mk.injEq, List.not_mem_nil, or_false] at h
  rcases h with ⟨rfl, rfl⟩ | ⟨rfl, rfl⟩ | ⟨rfl, rfl⟩ | ⟨rfl, rfl⟩ | ⟨rfl, rfl⟩ | ⟨rfl, rfl⟩
    | ⟨rfl, rfl⟩ | ⟨rfl, rfl⟩ <;> exact ⟨by decide, rfl⟩

/--
No character is half of a surrogate pair.
-/
theorem surrogates_toNat (c : Char) :
    isHighSurrogate c.toNat = false ∧ isLowSurrogate c.toNat = false := by
  have hvalid : c.toNat.isValidChar := c.valid
  unfold Nat.isValidChar at hvalid
  unfold isHighSurrogate isLowSurrogate
  rw [Bool.and_eq_false_iff, Bool.and_eq_false_iff]
  simp only [decide_eq_false_iff_not]
  omega

/--
The reader takes these characters of a string for these numbers.
-/
def ReadAs (cs : List Char) (units : List Nat) : Prop :=
  ∀ rest, readUnits (cs ++ rest)
    = (readUnits rest).map fun (later, rest) => (units ++ later, rest)

theorem readAs_codeUnit {d₁ d₂ d₃ d₄ : Char} {unit : Nat}
    (h : codeUnit? d₁ d₂ d₃ d₄ = some unit) : ReadAs ['\\', 'u', d₁, d₂, d₃, d₄] [unit] := by
  intro rest
  change readUnits ('\\' :: 'u' :: d₁ :: d₂ :: d₃ :: d₄ :: rest) = _
  rw [readUnits.eq_3, h]
  cases readUnits rest <;> rfl

theorem ReadAs.append {cs cs' : List Char} {units units' : List Nat} (h : ReadAs cs units)
    (h' : ReadAs cs' units') : ReadAs (cs ++ cs') (units ++ units') := by
  intro rest
  rw [List.append_assoc, h, h']
  cases readUnits rest <;> simp

theorem Spells.readAs {c : Char} {cs : List Char} (h : Spells c cs) :
    ∃ units, ReadAs cs units
      ∧ ∀ later text, spell later = some text → spell (units ++ later) = some (c :: text) := by
  obtain ⟨hhigh, hlow⟩ := surrogates_toNat c
  have hsingle : ∀ later text, spell later = some text →
      spell ([c.toNat] ++ later) = some (c :: text) := by
    intro later text hlater
    cases later with
    | nil =>
      cases hlater
      rw [List.append_nil, spell, hhigh, hlow, Char.ofNat_toNat]
      rfl
    | cons n later =>
      rw [List.cons_append, List.nil_append, spell, hhigh, hlow, hlater, Char.ofNat_toNat]
      rfl
  cases h with
  | @letter e he =>
    obtain ⟨hne, hescaped⟩ := escaped?_of_mem he
    refine ⟨[c.toNat], ?_, hsingle⟩
    intro rest
    change readUnits ('\\' :: e :: rest) = _
    rw [readUnits.eq_4, hescaped]
    . cases readUnits rest <;> rfl
    . rintro - - - - - rfl
      exact absurd rfl hne
  | codeUnit h => exact ⟨[c.toNat], readAs_codeUnit h, hsingle⟩
  | @surrogates d₁ d₂ d₃ d₄ e₁ e₂ e₃ e₄ high low hhigh hhighRange hlow hlowRange h =>
    refine ⟨[0xD800 + high, 0xDC00 + low], (readAs_codeUnit hhigh).append (readAs_codeUnit hlow), ?_⟩
    intro later text hlater
    have hpair : isLowSurrogate (0xD800 + high) = false ∧ isHighSurrogate (0xD800 + high) = true
        ∧ isLowSurrogate (0xDC00 + low) = true := by
      simp only [isLowSurrogate, isHighSurrogate, Bool.and_eq_false_iff, Bool.and_eq_true,
        decide_eq_false_iff_not, decide_eq_true_eq]
      omega
    rw [List.cons_append, List.cons_append, List.nil_append, spell, hpair.1, hpair.2.1, hpair.2.2,
      hlater, Nat.add_sub_cancel_left, Nat.add_sub_cancel_left, ← h, Char.ofNat_toNat]
    rfl
  | itself hquote hbackslash hcontrol =>
    refine ⟨[c.toNat], ?_, hsingle⟩
    intro rest
    change readUnits (c :: rest) = _
    rw [readUnits.eq_5, if_neg hcontrol]
    . cases readUnits rest <;> rfl
    . exact hquote
    . exact fun _ _ _ _ _ h => absurd h hbackslash
    . exact fun _ _ h => absurd h hbackslash

theorem SpellsAll.readString_eq {s : String} {cs : List Char} (h : SpellsAll s.toList cs)
    (rest : List Char) : readString (cs ++ '"' :: rest) = some (some s, rest) := by
  obtain ⟨units, hread, hspell⟩ : ∃ units,
      readUnits (cs ++ '"' :: rest) = some (units, rest) ∧ spell units = some s.toList := by
    generalize s.toList = text at h
    induction h with
    | nil => exact ⟨[], rfl, rfl⟩
    | @cons c cs text later hc hlater ih =>
      obtain ⟨units, hread, hspell⟩ := ih
      obtain ⟨first, hfirst, hspells⟩ := hc.readAs
      refine ⟨first ++ units, ?_, hspells units text hspell⟩
      rw [List.append_assoc, hfirst, hread]
      rfl
  unfold readString
  rw [hread]
  dsimp only [bind, Option.bind]
  rw [hspell, Option.map_some, String.ofList_toList]

theorem skipGap_append {gap : List Char} (hgap : Gap gap) (cs : List Char) :
    skipGap (gap ++ cs) = skipGap cs := by
  unfold skipGap
  induction gap with
  | nil => rfl
  | cons c gap ih =>
    rw [List.cons_append, List.dropWhile_cons, hgap c List.mem_cons_self]
    exact ih fun d hd => hgap d (List.mem_cons_of_mem c hd)

theorem skipGap_cons {c : Char} (h : isGap c = false) (cs : List Char) :
    skipGap (c :: cs) = c :: cs := by
  unfold skipGap
  rw [List.dropWhile_cons, h]
  rfl

/--
The reader comes from these characters to the value, whatever follows them.
-/
structure ReadsBack (j : Json) (cs : List Char) : Prop where
  noGap : ∀ rest, skipGap (cs ++ rest) = cs ++ rest
  readValue_eq : ∀ fuel rest, cs.length < fuel → readValue fuel (cs ++ rest) = some (j, rest)

/--
A value with no values inside needs one unit of fuel.
-/
theorem ReadsBack.of_succ {j : Json} {cs : List Char}
    (hgap : ∀ rest, skipGap (cs ++ rest) = cs ++ rest)
    (h : ∀ fuel rest, readValue (fuel + 1) (cs ++ rest) = some (j, rest)) : j.ReadsBack cs := by
  refine ⟨hgap, ?_⟩
  intro fuel rest hfuel
  obtain ⟨k, rfl⟩ := Nat.exists_eq_succ_of_ne_zero (Nat.ne_zero_of_lt hfuel)
  exact h k rest

theorem enclosed (first last : Char) (cs rest : List Char) :
    first :: cs ++ [last] ++ rest = first :: (cs ++ last :: rest) := by
  simp

theorem ScalarText.readsBack {j : Json} {cs : List Char} (h : ScalarText j cs) :
    j.ReadsBack cs := by
  cases h with
  | null => exact .of_succ (fun _ => rfl) (fun _ _ => rfl)
  | true => exact .of_succ (fun _ => rfl) (fun _ _ => rfl)
  | false => exact .of_succ (fun _ => rfl) (fun _ _ => rfl)
  | @string s cs h =>
    refine .of_succ (fun rest => skipGap_cons rfl _) ?_
    intro fuel rest
    have hread := h.readString_eq rest
    rw [enclosed]
    change (readString (cs ++ '"' :: rest)).bind _ = _
    rw [hread]
    rfl

/--
The reader takes these characters for a member, and goes on with what follows its value.
-/
theorem MemberText.readMembers_eq {valueText : Json → List Char → Prop}
    (hvalue : ∀ j cs, valueText j cs → j.ReadsBack cs) {m : Option String × Json} {cs : List Char}
    (h : MemberText valueText m cs) (fuel : Nat) (hfuel : cs.length ≤ fuel) (rest : List Char) :
    readMembers (fuel + 1) (cs ++ rest)
        =
      match skipGap rest with
      | '\x7d' :: rest => some ([m], rest)
      | ',' :: rest => do
        let (members, rest) ← readMembers fuel rest
        some (m :: members, rest)
      | _ => none := by
  cases h with
  | @intro name value ns vs gap₁ gap₂ gap₃ gap₄ hname hvs hgap₁ hgap₂ hgap₃ hgap₄ =>
    have hread := hvalue value vs hvs
    have hlength : vs.length < fuel := by
      simp only [List.length_append, List.length_cons] at hfuel
      omega
    have hcs : gap₁ ++ '"' :: ns ++ '"' :: gap₂ ++ ':' :: gap₃ ++ vs ++ gap₄ ++ rest
        = gap₁ ++ '"' :: (ns ++ '"' :: (gap₂ ++ ':' :: (gap₃ ++ (vs ++ (gap₄ ++ rest))))) := by
      simp
    rw [hcs, readMembers, skipGap_append hgap₁, skipGap_cons rfl]
    simp only [hname.readString_eq, Option.bind_eq_bind, Option.bind_some]
    rw [skipGap_append hgap₂, skipGap_cons rfl]
    change (readValue fuel (skipGap (gap₃ ++ (vs ++ (gap₄ ++ rest))))).bind _ = _
    rewrite [skipGap_append hgap₃, hread.noGap, hread.readValue_eq fuel _ hlength]
    rewrite [Option.bind_some, skipGap_append hgap₄]
    rfl

theorem MembersText.readMembers_eq {valueText : Json → List Char → Prop}
    (hvalue : ∀ j cs, valueText j cs → j.ReadsBack cs) {ms : List (Option String × Json)}
    {cs : List Char} (h : MembersText valueText ms cs) (fuel : Nat) (hfuel : cs.length < fuel)
    (rest : List Char) : readMembers fuel (cs ++ '\x7d' :: rest) = some (ms, rest) := by
  induction h generalizing fuel with
  | last hm =>
    obtain ⟨k, rfl⟩ := Nat.exists_eq_succ_of_ne_zero (Nat.ne_zero_of_lt hfuel)
    rw [hm.readMembers_eq hvalue k (by omega), skipGap_cons rfl]
    rfl
  | @cons m ms cs later hm hms ih =>
    obtain ⟨k, rfl⟩ := Nat.exists_eq_succ_of_ne_zero (Nat.ne_zero_of_lt hfuel)
    rw [List.length_append, List.length_cons] at hfuel
    rw [List.append_assoc, List.cons_append, hm.readMembers_eq hvalue k (by omega), skipGap_cons rfl]
    change (readMembers k (later ++ '\x7d' :: rest)).bind _ = _
    rw [ih k (by omega)]
    rfl

/--
The reader does not take the members of an object for an empty object.
-/
theorem MembersText.skipGap_eq {valueText : Json → List Char → Prop}
    {ms : List (Option String × Json)} {cs : List Char} (h : MembersText valueText ms cs)
    (rest : List Char) : ∃ later, skipGap (cs ++ rest) = '"' :: later
      ∧ ∀ fuel, readMembers fuel ('"' :: later) = readMembers fuel (cs ++ rest) := by
  have hmember : ∀ m cs rest, MemberText valueText m cs →
      ∃ later, skipGap (cs ++ rest) = '"' :: later := by
    intro m cs rest hm
    cases hm with
    | intro hname hvalue hgap₁ =>
      simp only [List.append_assoc, List.cons_append]
      rw [skipGap_append hgap₁]
      exact ⟨_, skipGap_cons rfl _⟩
  obtain ⟨later, hlater⟩ : ∃ later, skipGap (cs ++ rest) = '"' :: later := by
    cases h with
    | last hm => exact hmember _ _ _ hm
    | @cons m ms cs later hm hms =>
      rw [List.append_assoc]
      exact hmember _ _ _ hm
  refine ⟨later, hlater, ?_⟩
  intro fuel
  cases fuel with
  | zero => rfl
  | succ fuel => rw [readMembers, readMembers, hlater, skipGap_cons rfl]

theorem ObjectText.readsBack {valueText : Json → List Char → Prop}
    (hvalue : ∀ j cs, valueText j cs → j.ReadsBack cs) {j : Json} {cs : List Char}
    (h : ObjectText valueText j cs) : j.ReadsBack cs := by
  cases h with
  | empty hgap =>
    refine .of_succ (fun rest => skipGap_cons rfl _) ?_
    intro fuel rest
    rw [enclosed, readValue, skipGap_append hgap, skipGap_cons rfl]
    rfl
  | @members ms cs h =>
    refine ⟨fun rest => skipGap_cons rfl _, ?_⟩
    intro fuel rest hfuel
    obtain ⟨k, rfl⟩ := Nat.exists_eq_succ_of_ne_zero (Nat.ne_zero_of_lt hfuel)
    simp only [List.length_cons, List.length_append] at hfuel
    obtain ⟨later, hskip, hlater⟩ := h.skipGap_eq ('\x7d' :: rest)
    have hread := h.readMembers_eq hvalue k (by omega) rest
    rw [← hlater] at hread
    rw [enclosed, readValue, hskip]
    change (readMembers k ('"' :: later)).bind _ = _
    rw [hread]
    rfl

theorem TextOf.readsBack {depth : Nat} {j : Json} {cs : List Char} (h : TextOf depth j cs) :
    j.ReadsBack cs := by
  induction depth generalizing j cs with
  | zero => exact ScalarText.readsBack h
  | succ depth ih =>
    cases h with
    | inl hscalar => exact hscalar.readsBack
    | inr hobject => exact hobject.readsBack fun _ _ h => ih h

/--
The reader comes to the value from each of its texts.
-/
theorem parse?_eq {depth : Nat} {j : Json} {s : String} (h : TextOf depth j s.toList) :
    parse? s = some j := by
  have hgap := h.readsBack.noGap []
  have hread := h.readsBack.readValue_eq (s.toList.length + 1) [] (Nat.lt_succ_self _)
  rw [List.append_nil] at hgap hread
  unfold parse?
  dsimp only
  rw [hgap, hread]
  rfl

end Json

end KeyedTables
