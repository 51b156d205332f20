import Mathlib
import SchemaGraph.Json.Printer
import SchemaGraph.Json.Reader
import SchemaGraph.Proofs.Ordered
/-!
# Proofs.Json.RoundTrip -- the text of a value reads back

A reader takes a value from the front of a text, so each lemma is about a text with something behind it
(`Json.Reads`): the end, a comma or a closing bracket (`Json.Ends`), which is where a number ends.

* `Json.reads_string`, `Json.reads_int`: strings of any characters, and integers of 64 bits.
* `Json.readItems_of_reads`, `Json.readMembers_of_steps`: items and members, given how to read one.
* `Json.reads_value`: a value of limited depth, whatever is done with repeated keys.
-/

namespace SchemaGraph.Json

set_option autoImplicit false

/-! ## What stands behind a value -/

/-- Nothing follows, or a comma or a closing bracket does. -/
def Ends (rest : List Char) : Prop := ∀ c, rest.head? = some c → c = ',' ∨ c = ']' ∨ c = '\x7d'

/-- Whatever follows, the reader takes the text and returns what it stands for. -/
def Reads {α : Type} (reader : Reader α) (chars : List Char) (a : α) : Prop :=
  ∀ rest, Ends rest → reader (chars ++ rest) = .ok (a, rest)

theorem ends_comma (rest : List Char) : Ends (',' :: rest) := fun _ found => by
  cases found
  exact .inl rfl

theorem ends_bracket (rest : List Char) : Ends (']' :: rest) := fun _ found => by
  cases found
  exact .inr (.inl rfl)

theorem ends_brace (rest : List Char) : Ends ('\x7d' :: rest) := fun _ found => by
  cases found
  exact .inr (.inr rfl)

/-! ## Blanks and marks -/

theorem skipBlank_cons {c : Char} (visible : isBlank c = false) (cs : List Char) :
    skipBlank (c :: cs) = c :: cs := by
  rw [skipBlank, List.dropWhile_cons_of_neg]
  simp [visible]

theorem takeMark_cons {mark : Char} (visible : isBlank mark = false) (cs : List Char) :
    takeMark mark (mark :: cs) = .ok cs := by
  rw [takeMark, skipBlank_cons visible, takeWord, if_pos rfl, takeWord]

/-! ## Strings -/

theorem readStringChars_plain {c : Char} (quote : c ≠ '"') (backslash : c ≠ '\\') (visible : ¬ c.toNat < 0x20)
    {rest : List Char} {chars left : List Char} (later : readStringChars rest = .ok (chars, left)) :
    readStringChars (c :: rest) = .ok (c :: chars, left) := by
  rw [readStringChars]
  · rw [if_neg (by simp [visible, backslash]), later]
    rfl
  · exact quote
  · rintro _ _ _ _ _ rfl
    exact absurd rfl backslash
  · rintro _ _ rfl
    exact absurd rfl backslash

theorem readStringChars_short {c e : Char} (short : shortEscape? c = some e) (unit : c ≠ 'u')
    {rest : List Char} {chars left : List Char} (later : readStringChars rest = .ok (chars, left)) :
    readStringChars ('\\' :: c :: rest) = .ok (e :: chars, left) := by
  rw [readStringChars]
  · simp only [short, later]
    rfl
  · rintro _ _ _ _ _ rfl
    exact absurd rfl unit

theorem hexUnit?_control : ∀ n < 0x20, hexUnit? '0' '0' (hexDigit (n / 16)) (hexDigit (n % 16)) = some n ∧
    isLowSurrogate n = false ∧ isHighSurrogate n = false := by decide

theorem readStringChars_control {c : Char} (control : c.toNat < 0x20) {rest : List Char}
    {chars left : List Char} (later : readStringChars rest = .ok (chars, left)) :
    readStringChars ('\\' :: 'u' :: '0' :: '0' :: hexDigit (c.toNat / 16) :: hexDigit (c.toNat % 16) :: rest) =
      .ok (c :: chars, left) := by
  obtain ⟨unit, low, high⟩ := hexUnit?_control c.toNat control
  rw [readStringChars]
  simp only [unit, low, high, later, Bool.false_eq_true, if_false, Char.ofNat_toNat]
  rfl

/-- A character is written as a backslash and a letter, by its number, or as itself. -/
theorem escapeChar_cases (c : Char) :
    (∃ letter, escapeChar c = ['\\', letter] ∧ shortEscape? letter = some c ∧ letter ≠ 'u') ∨
      (c.toNat < 0x20 ∧ escapeChar c =
        ['\\', 'u', '0', '0', hexDigit (c.toNat / 16), hexDigit (c.toNat % 16)]) ∨
      (c ≠ '"' ∧ c ≠ '\\' ∧ ¬ c.toNat < 0x20 ∧ escapeChar c = [c]) := by
  by_cases short : c ∈ ['"', '\\', '\x08', '\x0c', '\n', '\r', '\t']
  · simp only [List.mem_cons, List.not_mem_nil, or_false] at short
    obtain rfl | rfl | rfl | rfl | rfl | rfl | rfl := short
    · exact .inl ⟨'"', rfl, rfl, by decide⟩
    · exact .inl ⟨'\\', rfl, rfl, by decide⟩
    · exact .inl ⟨'b', rfl, rfl, by decide⟩
    · exact .inl ⟨'f', rfl, rfl, by decide⟩
    · exact .inl ⟨'n', rfl, rfl, by decide⟩
    · exact .inl ⟨'r', rfl, rfl, by decide⟩
    · exact .inl ⟨'t', rfl, rfl, by decide⟩
  · simp only [List.mem_cons, List.not_mem_nil, or_false, not_or] at short
    obtain ⟨quote, backslash, others⟩ := short
    have written : escapeChar c = if c.toNat < 0x20 then
        ['\\', 'u', '0', '0', hexDigit (c.toNat / 16), hexDigit (c.toNat % 16)] else [c] := by
      simp only [escapeChar, quote, backslash, others, if_false]
    by_cases control : c.toNat < 0x20
    · exact .inr (.inl ⟨control, written.trans (if_pos control)⟩)
    · exact .inr (.inr ⟨quote, backslash, control, written.trans (if_neg control)⟩)

/-- Whatever the character, what stands for it in a string reads back as it. -/
theorem readStringChars_escapeChar (c : Char) {rest chars left : List Char}
    (later : readStringChars rest = .ok (chars, left)) :
    readStringChars (escapeChar c ++ rest) = .ok (c :: chars, left) := by
  rcases escapeChar_cases c with ⟨letter, written, short, other⟩ | ⟨control, written⟩ |
    ⟨quote, backslash, visible, written⟩
  · rw [written]
    exact readStringChars_short short other later
  · rw [written]
    exact readStringChars_control control later
  · rw [written]
    exact readStringChars_plain quote backslash visible later

theorem readStringChars_escapeChars (chars rest : List Char) :
    readStringChars (escapeChars chars ++ '"' :: rest) = .ok (chars, rest) := by
  induction chars with
  | nil => rw [escapeChars, List.nil_append, readStringChars]
  | cons c chars ih =>
    rw [escapeChars, List.append_assoc]
    exact readStringChars_escapeChar c ih

/-- A string of any characters reads back from behind its opening quote. -/
theorem readString_stringChars (s : String) (rest : List Char) :
    ∃ inner, stringChars s ++ rest = '"' :: inner ∧ readString inner = .ok (s, rest) := by
  refine ⟨escapeChars s.toList ++ '"' :: rest, by simp [stringChars], ?_⟩
  rw [readString, readStringChars_escapeChars]
  show Except.ok (String.ofList s.toList, rest) = _
  rw [String.ofList_toList]

/-! ## Integers -/

/-- No digit follows, and nothing that goes on a number. -/
theorem Ends.head {rest : List Char} (ends : Ends rest) {c : Char} (found : rest.head? = some c) :
    c.isDigit = false ∧ c ≠ '.' ∧ c ≠ 'e' ∧ c ≠ 'E' := by
  rcases ends c found with rfl | rfl | rfl <;> decide

/-- Only zero is written with a zero in front. -/
theorem head?_natChars {n : Nat} (zero : (natChars n).head? = some '0') : n = 0 := by
  induction n using Nat.strongRecOn with
  | ind n ih =>
    rw [natChars, Nat.toDigits_eq_if (by decide)] at zero
    split at zero
    · exact Nat.digitChar_eq_zero.1 (Option.some.inj zero)
    · rename_i large
      rw [List.head?_append_of_ne_nil _ Nat.toDigits_ne_nil] at zero
      have none := ih (n / 10) (by omega) zero
      omega

theorem readDigits_natChars (n : Nat) {rest : List Char} (ends : Ends rest) :
    readDigits (natChars n ++ rest) = .ok (natChars n, rest) := by
  have digits : ∀ c ∈ natChars n, c.isDigit = true := fun c member =>
    Nat.isDigit_of_mem_toDigits (by decide) (by decide) member
  have stop : rest.takeWhile Char.isDigit = [] ∧ rest.dropWhile Char.isDigit = rest := by
    cases rest with
    | nil => exact ⟨rfl, rfl⟩
    | cons c tail =>
      have other : ¬ c.isDigit = true := by simp [(ends.head rfl).1]
      exact ⟨List.takeWhile_cons_of_neg other, List.dropWhile_cons_of_neg other⟩
  rw [readDigits, List.takeWhile_append_of_pos digits, List.dropWhile_append_of_pos digits, stop.1, stop.2,
    List.append_nil]
  cases chars : natChars n with
  | nil => exact absurd chars Nat.toDigits_ne_nil
  | cons c tail => rfl

theorem readWhole_natChars (n : Nat) {rest : List Char} (ends : Ends rest) :
    readWhole (natChars n ++ rest) = .ok (natChars n, rest) := by
  have clean : ¬ ((natChars n).head? = some '0' ∧ (natChars n).length ≠ 1) := by
    rintro ⟨zero, long⟩
    rw [head?_natChars zero] at long
    exact long rfl
  rw [readWhole, readDigits_natChars n ends]
  show (if _ then _ else _) = _
  rw [if_neg clean]

theorem readUnsigned_natChars (negative : Bool) (n : Nat) {rest : List Char} (ends : Ends rest) :
    readUnsigned negative (natChars n ++ rest) = .ok (⟨negative, natChars n, [], none⟩, rest) := by
  have fraction : readFraction rest = .ok ([], rest) := by
    unfold readFraction
    split
    · exact absurd rfl (ends.head rfl).2.1
    · rfl
  have exponent : readExponent rest = .ok (none, rest) := by
    unfold readExponent
    split
    · rename_i c cs
      have other : c.isDigit = false ∧ c ≠ '.' ∧ c ≠ 'e' ∧ c ≠ 'E' := ends.head rfl
      rw [if_neg (by simp [other.2.2.1, other.2.2.2])]
    · rfl
  rw [readUnsigned, readWhole_natChars n ends]
  show (readFraction rest >>= _) = _
  rw [fraction]
  show (readExponent rest >>= _) = _
  rw [exponent]
  rfl

/-- The first character of a number. -/
theorem exists_natChars (n : Nat) : ∃ c tail, natChars n = c :: tail ∧ c.isDigit = true := by
  obtain ⟨c, tail, chars⟩ := List.exists_cons_of_ne_nil (Nat.toDigits_ne_nil (n := n) (b := 10))
  refine ⟨c, tail, chars, Nat.isDigit_of_mem_toDigits (b := 10) (n := n) (by decide) (by decide) ?_⟩
  rw [chars]
  exact List.mem_cons_self

theorem ofDigitChars_natChars (n : Nat) : Nat.ofDigitChars 10 (natChars n) 0 = n :=
  Nat.ofDigitChars_ten_toDigits

theorem readNumber_of_value {cs rest : List Char} {numeral : Numeral} {value : Value}
    (read : readNumeral cs = .ok (numeral, rest)) (stands : numeral.value? = some value) :
    readNumber cs = .ok (value, rest) := by
  unfold readNumber
  rw [read]
  simp only [bind, Except.bind, stands]

/-- An integer that fits 64 bits, with a sign or without, reads back. -/
theorem readNumber_intChars {n : Int} (low : -2 ^ 63 ≤ n) (high : n < 2 ^ 64) {rest : List Char}
    (ends : Ends rest) : readNumber (intChars n ++ rest) = .ok (.int n, rest) := by
  cases n with
  | ofNat m =>
    obtain ⟨c, tail, chars, digit⟩ := exists_natChars m
    have unsigned : readNumeral (intChars (.ofNat m) ++ rest) = readUnsigned false (natChars m ++ rest) := by
      rw [intChars, chars, List.cons_append]
      unfold readNumeral
      split
      · rename_i minus
        cases minus
        cases digit
      · rfl
    have value : Numeral.value? ⟨false, natChars m, [], none⟩ = some (.int m) := by
      have fits : m ≤ greatestSignificand := by
        have : (m : Int) < 2 ^ 64 := high
        show m ≤ 2 ^ 64 - 1
        omega
      simp only [Numeral.value?, Numeral.int?, ofDigitChars_natChars, fits, and_self, if_true,
        Bool.false_eq_true, if_false]
    exact readNumber_of_value (unsigned.trans (readUnsigned_natChars false m ends)) value
  | negSucc m =>
    have value : Numeral.value? ⟨true, natChars (m + 1), [], none⟩ = some (.int (.negSucc m)) := by
      have fits : m + 1 ≤ Nat.pow 2 63 := by
        show m + 1 ≤ 2 ^ 63
        omega
      simp only [Numeral.value?, Numeral.int?, ofDigitChars_natChars, fits, and_self, if_true,
        Nat.succ_pos]
      rfl
    exact readNumber_of_value (readUnsigned_natChars true (m + 1) ends) value

/-! ## Scalars -/

/-- What begins neither a word nor a string is read as a number. -/
theorem readScalar_of_number {c : Char} (other : c ∉ ['n', 't', 'f', '"']) (cs : List Char) :
    readScalar (c :: cs) = readNumber (c :: cs) := by
  unfold readScalar
  split
  all_goals first
    | rfl
    | (rename_i same; cases same; exact absurd (by decide) other)

theorem digit_not_word {c : Char} (digit : c.isDigit = true) : c ∉ ['n', 't', 'f', '"'] := by
  intro listed
  simp only [List.mem_cons, List.not_mem_nil, or_false] at listed
  rcases listed with rfl | rfl | rfl | rfl <;> cases digit

/-- A text begins with a character that is seen and closes nothing. -/
def Opens (chars : List Char) : Prop :=
  ∃ c tail, chars = c :: tail ∧ isBlank c = false ∧ c ≠ ']' ∧ c ≠ '\x7d'

theorem Opens.skipBlank_append {chars : List Char} (opens : Opens chars) (rest : List Char) :
    skipBlank (chars ++ rest) = chars ++ rest := by
  obtain ⟨c, tail, rfl, visible, _⟩ := opens
  exact skipBlank_cons visible _

/-! ## Items -/

theorem length_le_commaSeparated {texts : List (List Char)} (nonempty : texts ≠ []) :
    texts.length ≤ (commaSeparated texts).length + 1 := by
  induction texts with
  | nil => exact absurd rfl nonempty
  | cons text more ih =>
    cases more with
    | nil => exact Nat.le_add_left 1 _
    | cons next more =>
      have later := ih (List.cons_ne_nil _ _)
      have split : commaSeparated (text :: next :: more) = text ++ ',' :: commaSeparated (next :: more) := rfl
      simp only [split, List.length_append, List.length_cons] at later ⊢
      omega

section Items

variable {α : Type} {item : Reader α} {texts : List (List Char)} {as : List α}

theorem readItemsFrom_bracket {text : List Char} {a : α} (reads : Reads item text a) (bound : Nat)
    (rest : List Char) : readItemsFrom item (bound + 1) (text ++ ']' :: rest) = .ok ([a], rest) := by
  rw [readItemsFrom, reads _ (ends_bracket rest)]
  rfl

theorem readItemsFrom_comma {text cs rest : List Char} {a : α} {later : List α} {bound : Nat}
    (reads : Reads item text a) (after : readItemsFrom item bound cs = .ok (later, rest)) :
    readItemsFrom item (bound + 1) (text ++ ',' :: cs) = .ok (a :: later, rest) := by
  rw [readItemsFrom, reads _ (ends_comma cs)]
  show (readItemsFrom item bound cs >>= _) = _
  rw [after]
  rfl

theorem readItemsFrom_of_reads (reads : List.Forall₂ (Reads item) texts as) (nonempty : texts ≠ [])
    {bound : Nat} (enough : texts.length ≤ bound) (rest : List Char) :
    readItemsFrom item bound (commaSeparated texts ++ ']' :: rest) = .ok (as, rest) := by
  induction reads generalizing bound with
  | nil => exact absurd rfl nonempty
  | @cons text a more later first others ih =>
    cases bound with
    | zero => cases enough
    | succ bound =>
      cases others with
      | nil => exact readItemsFrom_bracket first bound rest
      | @cons next b more later second others =>
        have after := ih (List.cons_ne_nil _ _) (Nat.le_of_succ_le_succ enough)
        have split : commaSeparated (text :: next :: more) ++ ']' :: rest =
            text ++ ',' :: (commaSeparated (next :: more) ++ ']' :: rest) := List.append_assoc _ _ _
        rw [split]
        exact readItemsFrom_comma first after

/-- The items of an array read back, from behind its bracket, if each of them does. -/
theorem readItems_of_reads (reads : List.Forall₂ (Reads item) texts as)
    (opens : ∀ text ∈ texts, Opens text) (rest : List Char) :
    readItems item (commaSeparated texts ++ ']' :: rest) = .ok (as, rest) := by
  cases texts with
  | nil =>
    cases reads
    rw [readItems, commaSeparated, List.nil_append, skipBlank_cons (by decide)]
    rfl
  | cons text more =>
    obtain ⟨c, tail, first, visible, other, _⟩ := opens text List.mem_cons_self
    obtain ⟨inner, front⟩ : ∃ inner, commaSeparated (text :: more) ++ ']' :: rest = c :: inner := by
      rw [first]
      cases more <;> exact ⟨_, rfl⟩
    have enough : (text :: more).length ≤ (c :: inner).length := by
      have bound := length_le_commaSeparated (List.cons_ne_nil text more)
      have closed : (']' :: rest).length = rest.length + 1 := rfl
      rw [← front, List.length_append]
      omega
    have all := readItemsFrom_of_reads reads (List.cons_ne_nil _ _) enough rest
    rw [front] at all ⊢
    rw [readItems, skipBlank_cons visible]
    split
    · rename_i same
      cases same
      exact absurd rfl other
    · exact all

end Items

/-! ## Members -/

/-- Reading the members one after the other leads from one state to the other. -/
inductive Steps {σ : Type} (member : σ → String → Reader σ) : σ → List (String × List Char) → σ → Prop
  | nil {s : σ} : Steps member s [] s
  | cons {s t u : σ} {key : String} {chars : List Char} {more : List (String × List Char)} :
      Reads (member s key) (':' :: chars) t → Steps member t more u →
      Steps member s ((key, chars) :: more) u

section Members

variable {σ α : Type} {member : σ → String → Reader σ} {s t u : σ} {members : List (String × List Char)}

theorem Steps.single {key : String} {chars : List Char} (reads : Reads (member s key) (':' :: chars) t) :
    Steps member s [(key, chars)] t := .cons reads .nil

theorem Steps.append {more : List (String × List Char)} (first : Steps member s members t)
    (second : Steps member t more u) : Steps member s (members ++ more) u := by
  induction first with
  | nil => exact second
  | cons reads _ ih => exact .cons reads (ih second)

/-- The texts of members that are there. -/
def membersChars (members : List (String × List Char)) : List (List Char) :=
  members.map fun m => memberChars m.1 m.2

/-- A member is the last one before a brace, and another follows it behind a comma. -/
theorem readMembersFrom_member {key : String} {chars : List Char}
    (reads : Reads (member s key) (':' :: chars) t) (bound : Nat) (rest : List Char) :
    readMembersFrom member (bound + 1) s (memberChars key chars ++ '\x7d' :: rest) = .ok (t, rest) ∧
      readMembersFrom member (bound + 1) s (memberChars key chars ++ ',' :: rest) =
        readMembersFrom member bound t rest := by
  -- up to the colon, both are read alike
  have opened : ∀ tail, takeMark '"' (memberChars key chars ++ tail) >>= readString =
      .ok (key, ':' :: chars ++ tail) := by
    intro tail
    obtain ⟨inner, front, string⟩ := readString_stringChars key (':' :: chars ++ tail)
    rw [memberChars, List.append_assoc, front, takeMark_cons (by decide)]
    exact string
  constructor
  · rw [readMembersFrom, ← bind_assoc, opened]
    show (member s key (':' :: chars ++ '\x7d' :: rest) >>= _) = _
    rw [reads _ (ends_brace rest)]
    rfl
  · rw [readMembersFrom, ← bind_assoc, opened]
    show (member s key (':' :: chars ++ ',' :: rest) >>= _) = _
    rw [reads _ (ends_comma rest)]
    rfl

theorem readMembersFrom_of_steps (steps : Steps member s members t) (nonempty : members ≠ [])
    {bound : Nat} (enough : members.length ≤ bound) (rest : List Char) :
    readMembersFrom member bound s (commaSeparated (membersChars members) ++ '\x7d' :: rest) =
      .ok (t, rest) := by
  induction steps generalizing bound with
  | nil => exact absurd rfl nonempty
  | @cons s t u key chars more reads steps ih =>
    cases bound with
    | zero => cases enough
    | succ bound =>
      cases more with
      | nil =>
        cases steps
        exact (readMembersFrom_member reads bound rest).1
      | cons next more =>
        have after := ih (List.cons_ne_nil _ _) (Nat.le_of_succ_le_succ enough)
        have split : commaSeparated (membersChars ((key, chars) :: next :: more)) ++ '\x7d' :: rest =
            memberChars key chars ++ ',' :: (commaSeparated (membersChars (next :: more)) ++ '\x7d' :: rest) :=
          List.append_assoc _ _ _
        rw [split, (readMembersFrom_member reads bound _).2]
        exact after

/-- The members of an object read back, from behind its brace, if each of them does. -/
theorem readMembers_of_steps (steps : Steps member s members t) (rest : List Char) :
    readMembers member s (commaSeparated (membersChars members) ++ '\x7d' :: rest) = .ok (t, rest) := by
  cases members with
  | nil =>
    cases steps
    show readMembers member s ('\x7d' :: rest) = _
    rw [readMembers, skipBlank_cons (by decide)]
    rfl
  | cons m more =>
    obtain ⟨inner, front⟩ : ∃ inner,
        commaSeparated (membersChars (m :: more)) ++ '\x7d' :: rest = '"' :: inner := by
      cases more <;> exact ⟨_, rfl⟩
    have enough : (m :: more).length ≤ ('"' :: inner).length := by
      have bound : (membersChars (m :: more)).length ≤ _ := length_le_commaSeparated (List.cons_ne_nil _ _)
      have count : (membersChars (m :: more)).length = (m :: more).length := List.length_map _
      have closed : ('\x7d' :: rest).length = rest.length + 1 := rfl
      rw [← front, List.length_append]
      omega
    have all := readMembersFrom_of_steps steps (List.cons_ne_nil _ _) enough rest
    rw [front] at all ⊢
    rw [readMembers, skipBlank_cons (by decide)]
    exact all

theorem reads_readMember {value : Reader α} {add : σ → String → α → σ} {key : String} {chars : List Char}
    {a : α} (reads : Reads value chars a) : Reads (readMember value add s key) (':' :: chars) (add s key a) := by
  intro rest ends
  rw [readMember, List.cons_append, takeMark_cons (by decide)]
  show (value (chars ++ rest) >>= _) = _
  rw [reads rest ends]
  rfl

/-- Members whose values read back are taken up in order. -/
theorem steps_readMember {value : Reader α} {add : σ → String → α → σ} {chars : α → List Char}
    {fields : List (String × α)} (reads : ∀ field ∈ fields, Reads value (chars field.2) field.2) :
    Steps (readMember value add) s (fields.map fun field => (field.1, chars field.2))
      (fields.foldl (fun state field => add state field.1 field.2) s) := by
  induction fields generalizing s with
  | nil => exact .nil
  | cons field more ih =>
    refine .cons (reads_readMember (reads field List.mem_cons_self)) (ih fun other later => ?_)
    exact reads other (List.mem_cons_of_mem _ later)

end Members

end SchemaGraph.Json

namespace SchemaGraph

/-- A value whose numbers are integers of 64 bits, with a sign or without, whose objects have different
keys, and in which at most the given number of brackets are open at once. -/
inductive Value.Exact : Nat → Value → Prop
  | null {depth : Nat} : Exact depth .null
  | bool {depth : Nat} (b : Bool) : Exact depth (.bool b)
  | int {depth : Nat} {n : Int} : -2 ^ 63 ≤ n → n < 2 ^ 64 → Exact depth (.int n)
  | string {depth : Nat} (s : String) : Exact depth (.string s)
  | array {depth : Nat} {items : List Value} : (∀ item ∈ items, Exact depth item) →
      Exact (depth + 1) (.array items)
  | object {depth : Nat} {fields : List (String × Value)} : (fields.map Prod.fst).Nodup →
      (∀ field ∈ fields, Exact depth field.2) → Exact (depth + 1) (.object fields)

namespace Json

open Value

/-! ## Values -/

theorem itemsChars_eq_map (items : List Value) : itemsChars items = items.map valueChars := by
  induction items with
  | nil => rfl
  | cons x xs ih => rw [itemsChars, ih, List.map_cons]

theorem fieldsChars_eq_membersChars (fields : List (String × Value)) :
    fieldsChars fields = membersChars (fields.map fun field => (field.1, valueChars field.2)) := by
  induction fields with
  | nil => rfl
  | cons field more ih => rw [fieldsChars, ih, membersChars, membersChars, List.map_cons, List.map_cons]

theorem opens_digit {c : Char} (digit : c.isDigit = true) (tail : List Char) : Opens (c :: tail) := by
  refine ⟨c, tail, rfl, ?_, ?_, ?_⟩
  · rw [Bool.eq_false_iff]
    intro blank
    simp only [isBlank, Bool.or_eq_true, beq_iff_eq] at blank
    rcases blank with ((rfl | rfl) | rfl) | rfl <;> cases digit
  · rintro rfl
    cases digit
  · rintro rfl
    cases digit

theorem opens_natChars (n : Nat) : Opens (natChars n) := by
  obtain ⟨c, tail, chars, digit⟩ := exists_natChars n
  rw [chars]
  exact opens_digit digit tail

theorem opens_valueChars {depth : Nat} {value : Value} (exact : value.Exact depth) :
    Opens (valueChars value) := by
  cases exact with
  | null => exact ⟨_, _, rfl, by decide, by decide, by decide⟩
  | bool b => cases b <;> exact ⟨_, _, rfl, by decide, by decide, by decide⟩
  | @int _ n _ _ =>
    cases n with
    | ofNat m => exact opens_natChars m
    | negSucc m => exact ⟨_, _, rfl, by decide, by decide, by decide⟩
  | string s => exact ⟨_, _, rfl, by decide, by decide, by decide⟩
  | array _ => exact ⟨_, _, rfl, by decide, by decide, by decide⟩
  | object _ _ => exact ⟨_, _, rfl, by decide, by decide, by decide⟩

/-- What is no array and no object is a scalar, however deep. -/
theorem readValue_scalar (repeats : Repeats) (depth : Nat) {c : Char} (visible : isBlank c = false)
    (bracket : c ≠ '[') (brace : c ≠ '\x7b') (cs : List Char) :
    readValue repeats depth (c :: cs) = readScalar (c :: cs) := by
  cases depth with
  | zero =>
    rw [readValue, skipBlank_cons visible]
    split
    · rename_i same
      cases same
      exact absurd rfl bracket
    · rename_i same
      cases same
      exact absurd rfl brace
    · rfl
  | succ depth =>
    rw [readValue, skipBlank_cons visible]
    split
    · rename_i same
      cases same
      exact absurd rfl bracket
    · rename_i same
      cases same
      exact absurd rfl brace
    · rfl

theorem reads_int (repeats : Repeats) (depth : Nat) {n : Int} (low : -2 ^ 63 ≤ n) (high : n < 2 ^ 64) :
    Reads (readValue repeats depth) (intChars n) (.int n) := by
  intro rest ends
  have number := readNumber_intChars low high ends
  obtain ⟨c, tail, chars, visible, bracket, brace, other⟩ : ∃ c tail, intChars n = c :: tail ∧
      isBlank c = false ∧ c ≠ '[' ∧ c ≠ '\x7b' ∧ c ∉ ['n', 't', 'f', '"'] := by
    cases n with
    | ofNat m =>
      obtain ⟨c, tail, chars, digit⟩ := exists_natChars m
      obtain ⟨_, _, same, visible, _⟩ := opens_digit digit tail
      cases same
      refine ⟨c, tail, chars, visible, ?_, ?_, digit_not_word digit⟩
      · rintro rfl
        cases digit
      · rintro rfl
        cases digit
    | negSucc m => exact ⟨_, _, rfl, by decide, by decide, by decide, by decide⟩
  rw [chars, List.cons_append] at number ⊢
  rw [readValue_scalar repeats depth visible bracket brace, readScalar_of_number other, number]

theorem reads_string (repeats : Repeats) (depth : Nat) (s : String) :
    Reads (readValue repeats depth) (stringChars s) (.string s) := by
  intro rest _
  obtain ⟨inner, front, string⟩ := readString_stringChars s rest
  rw [front, readValue_scalar repeats depth (by decide) (by decide) (by decide), readScalar]
  rw [string]
  rfl

/-- Members with different keys are all kept, in order, whatever is done with repeated ones. -/
theorem foldl_add (repeats : Repeats) {before fields : List (String × Value)}
    (distinct : ((before ++ fields).map Prod.fst).Nodup) :
    fields.foldl (fun state field => repeats.add state field.1 field.2) before = before ++ fields := by
  induction fields generalizing before with
  | nil => simp
  | cons field more ih =>
    have fresh : field.1 ∉ before.map Prod.fst := by
      rw [List.map_append, List.map_cons] at distinct
      intro listed
      exact (List.nodup_append.1 distinct).2.2 _ listed _ List.mem_cons_self rfl
    have added : repeats.add before field.1 field.2 = before ++ [field] := by
      cases repeats with
      | keep => rfl
      | replace => exact OrderedMap.put_of_not_mem fresh
    have split : before ++ field :: more = (before ++ [field]) ++ more := by simp
    rw [List.foldl_cons, added, split]
    exact ih (split ▸ distinct)

/-- A value of limited depth reads back, whatever is done with repeated keys. -/
theorem reads_value (repeats : Repeats) {depth : Nat} {value : Value} (exact : value.Exact depth) :
    Reads (readValue repeats depth) (valueChars value) value := by
  induction exact with
  | null =>
    intro rest _
    rw [valueChars, List.cons_append, readValue_scalar repeats _ (by decide) (by decide) (by decide)]
    rfl
  | bool b =>
    intro rest _
    cases b <;>
      (rw [valueChars, boolChars, List.cons_append,
        readValue_scalar repeats _ (by decide) (by decide) (by decide)]; rfl)
  | int low high => exact reads_int repeats _ low high
  | string s => exact reads_string repeats _ s
  | @array depth items exact ih =>
    intro rest _
    have reads : List.Forall₂ (Reads (readValue repeats depth)) (items.map valueChars) items :=
      List.forall₂_map_left_iff.2 (List.forall₂_same.2 ih)
    have opens : ∀ text ∈ items.map valueChars, Opens text := by
      intro text listed
      obtain ⟨item, member, rfl⟩ := List.mem_map.1 listed
      exact opens_valueChars (exact item member)
    have all := readItems_of_reads reads opens rest
    rw [valueChars, itemsChars_eq_map, arrayChars, List.cons_append, List.append_assoc, readValue,
      skipBlank_cons (by decide)]
    show (readItems (readValue repeats depth) (commaSeparated _ ++ ']' :: rest) >>= _) = _
    rw [all]
    rfl
  | @object depth fields distinct exact ih =>
    intro rest _
    have steps : Steps (readMember (readValue repeats depth) repeats.add) [] _ _ := steps_readMember ih
    have all := readMembers_of_steps steps rest
    rw [@foldl_add repeats [] fields distinct] at all
    rw [valueChars, fieldsChars_eq_membersChars, objectChars, List.cons_append, List.append_assoc,
      readValue, skipBlank_cons (by decide)]
    show (readMembers (readMember (readValue repeats depth) repeats.add) []
      (commaSeparated _ ++ '\x7d' :: rest) >>= _) = _
    rw [all]
    rfl

end Json

end SchemaGraph
