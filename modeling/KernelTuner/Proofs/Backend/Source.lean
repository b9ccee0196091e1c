import KernelTuner.Backend.Source
import Mathlib.Data.List.Infix

/-!
Contract: texts that the compiler accepts.

Owns: texts in which no kernel header begins, texts without braces, balanced texts and how
all of them are put together; `rejection?_eq_none_iff`, which counts braces to say what is
accepted; and `entryName?_eq`, by which the name in a kernel header is read.
-/

set_option autoImplicit false

namespace KernelTuner.Source

/-! ### Headers -/

/-- Characters in which no kernel header begins, whatever follows them. -/
def Unheaded (characters : List Char) : Prop :=
  ∀ back ∈ characters.tails, back ≠ [] →
    ¬ Kernel.entryMark.toList <+: back ∧ ¬ back <+: Kernel.entryMark.toList

instance (characters : List Char) : Decidable (Unheaded characters) :=
  List.decidableBAll (fun back => back ≠ [] →
    ¬ Kernel.entryMark.toList <+: back ∧ ¬ back <+: Kernel.entryMark.toList) characters.tails

namespace Unheaded

variable {characters left right : List Char}

theorem nil : Unheaded [] := by decide

theorem cons_iff {character : Char} :
    Unheaded (character :: characters) ↔
      (¬ Kernel.entryMark.toList <+: character :: characters ∧
        ¬ character :: characters <+: Kernel.entryMark.toList) ∧ Unheaded characters := by
  simp [Unheaded, List.tails]

theorem append (leftUnheaded : Unheaded left) (rightUnheaded : Unheaded right) :
    Unheaded (left ++ right) := by
  induction left with
  | nil => exact rightUnheaded
  | cons character rest inductionHypothesis =>
      rw [cons_iff] at leftUnheaded
      rw [List.cons_append, cons_iff]
      obtain ⟨⟨longer, shorter⟩, restUnheaded⟩ := leftUnheaded
      refine ⟨⟨fun begins => ?_, fun begins => ?_⟩, inductionHypothesis restUnheaded⟩
      · rcases List.prefix_or_prefix_of_prefix begins
          (List.prefix_append (character :: rest) right) with within | beyond
        · exact longer within
        · exact shorter beyond
      · exact shorter ((List.prefix_append (character :: rest) right).trans begins)

/-- A header starts with an underscore. -/
theorem of_ne_underscore (free : ∀ character ∈ characters, character ≠ '_') :
    Unheaded characters := by
  have mark : Kernel.entryMark.toList = '_' :: Kernel.entryMark.toList.tail := by decide
  induction characters with
  | nil => exact nil
  | cons character rest inductionHypothesis =>
      obtain ⟨first, free⟩ := List.forall_mem_cons.1 free
      rw [cons_iff, mark]
      simp only [List.cons_prefix_cons]
      exact ⟨⟨fun same => first same.1.symm, fun same => first same.1⟩,
        inductionHypothesis free⟩

/-- What is unheaded adds no entries to what follows. -/
theorem entriesFrom_append (unheaded : Unheaded characters) (rest : List Char) :
    entriesFrom (characters ++ rest) = entriesFrom rest := by
  induction characters with
  | nil => rfl
  | cons character others inductionHypothesis =>
      rw [cons_iff] at unheaded
      obtain ⟨⟨longer, shorter⟩, othersUnheaded⟩ := unheaded
      have unmarked : ¬ Kernel.entryMark.toList.isPrefixOf (character :: (others ++ rest)) := by
        rw [List.isPrefixOf_iff_prefix]
        intro begins
        rcases List.prefix_or_prefix_of_prefix begins
          (List.prefix_append (character :: others) rest) with within | beyond
        · exact longer within
        · exact shorter beyond
      rw [List.cons_append, entriesFrom]
      simp only [unmarked, Bool.false_eq_true, ↓reduceIte]
      exact inductionHypothesis othersUnheaded

/-- A header stands behind what is unheaded. -/
theorem behind {later front back : List Char} (unheaded : Unheaded characters)
    (text : characters ++ later = front ++ (Kernel.entryMark.toList ++ back)) :
    ∃ between, front = characters ++ between ∧
      later = between ++ (Kernel.entryMark.toList ++ back) := by
  induction characters generalizing front with
  | nil => exact ⟨front, rfl, text⟩
  | cons character rest inductionHypothesis =>
      rw [cons_iff] at unheaded
      obtain ⟨⟨longer, shorter⟩, restUnheaded⟩ := unheaded
      cases front with
      | nil =>
          have begins : Kernel.entryMark.toList <+: character :: rest ++ later := ⟨back, text.symm⟩
          rcases List.prefix_or_prefix_of_prefix begins
            (List.prefix_append (character :: rest) later) with within | beyond
          · exact absurd within longer
          · exact absurd beyond shorter
      | cons first front =>
          rw [List.cons_append, List.cons_append, List.cons.injEq] at text
          obtain ⟨rfl, text⟩ := text
          obtain ⟨between, rfl, same⟩ := inductionHypothesis restUnheaded text
          exact ⟨between, rfl, same⟩

end Unheaded

/-! ### Braces -/

def NoBrace (character : Char) : Prop := character ≠ '\x7b' ∧ character ≠ '\x7d'

instance (character : Char) : Decidable (NoBrace character) :=
  inferInstanceAs (Decidable (_ ∧ _))

/-- A text without braces and headers, and without the beginning of a header at its end. -/
structure Plain (text : String) : Prop where
  braceless : ∀ character ∈ text.toList, NoBrace character
  unheaded : Unheaded text.toList

instance (text : String) : Decidable (Plain text) :=
  have : Decidable (∀ character ∈ text.toList, NoBrace character) :=
    List.decidableBAll NoBrace text.toList
  decidable_of_iff ((∀ character ∈ text.toList, NoBrace character) ∧ Unheaded text.toList)
    ⟨fun both => ⟨both.1, both.2⟩, fun plain => ⟨plain.braceless, plain.unheaded⟩⟩

/-- A text behind which as many blocks are open as in front of it, whatever follows. -/
def Balanced (text : String) : Prop :=
  ∀ (line depth : Nat) (rest : List Char),
    ∃ later, depthFrom line depth (text.toList ++ rest) = depthFrom later depth rest

namespace Plain

variable {left right : String}

theorem append (leftPlain : Plain left) (rightPlain : Plain right) : Plain (left ++ right) where
  braceless := by
    intro character member
    rw [String.toList_append, List.mem_append] at member
    exact member.elim (leftPlain.braceless character) (rightPlain.braceless character)
  unheaded := by
    rw [String.toList_append]
    exact leftPlain.unheaded.append rightPlain.unheaded

theorem join {texts : List String} (plain : ∀ text ∈ texts, Plain text) :
    Plain (String.join texts) := by
  induction texts with
  | nil => decide
  | cons text rest inductionHypothesis =>
      rw [String.join_cons]
      exact (plain text List.mem_cons_self).append
        (inductionHypothesis fun other member => plain other (List.mem_cons_of_mem text member))

theorem intercalate {separator : String} {texts : List String} (separatorPlain : Plain separator)
    (plain : ∀ text ∈ texts, Plain text) : Plain (separator.intercalate texts) := by
  induction texts with
  | nil =>
      rw [String.intercalate_nil]
      decide
  | cons text rest inductionHypothesis =>
      have textPlain := plain text List.mem_cons_self
      have restPlain := inductionHypothesis fun other member =>
        plain other (List.mem_cons_of_mem text member)
      by_cases last : rest = []
      · rw [last, String.intercalate_singleton]
        exact textPlain
      · rw [String.intercalate_cons_of_ne_nil last]
        exact (textPlain.append separatorPlain).append restPlain

/-- A character that is neither a brace nor the first of a header. -/
def Ordinary (character : Char) : Prop := NoBrace character ∧ character ≠ '_'

instance (character : Char) : Decidable (Ordinary character) :=
  inferInstanceAs (Decidable (_ ∧ _))

theorem of_ordinary {text : String} (ordinary : ∀ character ∈ text.toList, Ordinary character) :
    Plain text where
  braceless := fun character member => (ordinary character member).1
  unheaded := .of_ne_underscore fun character member => (ordinary character member).2

theorem ordinary_digitChar : (digit : Nat) → Ordinary (Nat.digitChar digit)
  | 0 | 1 | 2 | 3 | 4 | 5 | 6 | 7 | 8 | 9 | 10 | 11 | 12 | 13 | 14 | 15 => by decide
  | _ + 16 => by simp [Ordinary, NoBrace, Nat.digitChar]

theorem ordinary_toDigitsCore (base fuel value : Nat) {digits : List Char}
    (ordinary : ∀ digit ∈ digits, Ordinary digit) :
    ∀ digit ∈ Nat.toDigitsCore base fuel value digits, Ordinary digit := by
  induction fuel generalizing value digits with
  | zero => exact ordinary
  | succ fuel inductionHypothesis =>
      have grown := List.forall_mem_cons.2 ⟨ordinary_digitChar (value % base), ordinary⟩
      rw [Nat.toDigitsCore]
      split
      · exact grown
      · exact inductionHypothesis (value / base) grown

theorem digits (base value : Nat) : Plain (String.ofList (Nat.toDigits base value)) := by
  refine of_ordinary fun character member => ?_
  rw [String.toList_ofList] at member
  exact ordinary_toDigitsCore base (value + 1) value (List.forall_mem_nil _) character member

theorem number (value : Nat) : Plain (toString value) := by
  refine of_ordinary fun character member => ?_
  rw [Nat.toString_eq_repr, Nat.toList_repr] at member
  exact ordinary_toDigitsCore 10 (value + 1) value (List.forall_mem_nil _) character member

theorem depthFrom_cons (line depth : Nat) (rest : List Char) {character : Char}
    (free : NoBrace character) :
    ∃ next, depthFrom line depth (character :: rest) = depthFrom next depth rest := by
  by_cases lineEnd : character = '\n'
  · subst lineEnd
    exact ⟨line + 1, rfl⟩
  · refine ⟨line, ?_⟩
    rw [depthFrom]
    · exact lineEnd
    · exact free.1
    · exact free.2

theorem balanced {text : String} (plain : Plain text) : Balanced text := by
  intro line depth rest
  have braceless := plain.braceless
  generalize text.toList = characters at braceless ⊢
  induction characters generalizing line with
  | nil => exact ⟨line, rfl⟩
  | cons character others inductionHypothesis =>
      obtain ⟨free, othersFree⟩ := List.forall_mem_cons.1 braceless
      obtain ⟨next, moved⟩ := depthFrom_cons line depth (others ++ rest) free
      obtain ⟨later, same⟩ := inductionHypothesis next othersFree
      exact ⟨later, moved.trans same⟩

end Plain

namespace Balanced

theorem append {left right : String} (leftBalanced : Balanced left)
    (rightBalanced : Balanced right) : Balanced (left ++ right) := by
  intro line depth rest
  rw [String.toList_append, List.append_assoc]
  obtain ⟨next, leftScanned⟩ := leftBalanced line depth (right.toList ++ rest)
  obtain ⟨later, rightScanned⟩ := rightBalanced next depth rest
  exact ⟨later, leftScanned.trans rightScanned⟩

theorem join {texts : List String} (balanced : ∀ text ∈ texts, Balanced text) :
    Balanced (String.join texts) := by
  induction texts with
  | nil => exact Plain.balanced (by decide)
  | cons text rest inductionHypothesis =>
      rw [String.join_cons]
      exact (balanced text List.mem_cons_self).append (inductionHypothesis fun other member =>
        balanced other (List.mem_cons_of_mem text member))

theorem intercalate {separator : String} {texts : List String}
    (separatorPlain : Plain separator) (balanced : ∀ text ∈ texts, Balanced text) :
    Balanced (separator.intercalate texts) := by
  induction texts with
  | nil =>
      rw [String.intercalate_nil]
      exact Plain.balanced (by decide)
  | cons text rest inductionHypothesis =>
      have textBalanced := balanced text List.mem_cons_self
      have restBalanced := inductionHypothesis fun other member =>
        balanced other (List.mem_cons_of_mem text member)
      by_cases last : rest = []
      · rw [last, String.intercalate_singleton]
        exact textBalanced
      · rw [String.intercalate_cons_of_ne_nil last]
        exact (textBalanced.append separatorPlain.balanced).append restBalanced

/-- A balanced text between an opening and a closing brace. -/
theorem block {inner : String} (balanced : Balanced inner) :
    Balanced ("\x7b" ++ inner ++ "\x7d") := by
  intro line depth rest
  obtain ⟨later, scanned⟩ := balanced line (depth + 1) ('\x7d' :: rest)
  refine ⟨later, ?_⟩
  rw [String.toList_append, String.toList_append, List.append_assoc, List.append_assoc]
  exact scanned

end Balanced

/-- A text that leaves no block open and holds no kernel header. -/
structure Enclosed (text : String) : Prop where
  balanced : Balanced text
  unheaded : Unheaded text.toList

theorem Plain.enclosed {text : String} (plain : Plain text) : Enclosed text :=
  ⟨plain.balanced, plain.unheaded⟩

namespace Enclosed

theorem append {left right : String} (leftEnclosed : Enclosed left)
    (rightEnclosed : Enclosed right) : Enclosed (left ++ right) where
  balanced := leftEnclosed.balanced.append rightEnclosed.balanced
  unheaded := by
    rw [String.toList_append]
    exact leftEnclosed.unheaded.append rightEnclosed.unheaded

/-- An enclosed text between an opening and a closing brace. -/
theorem block {inner : String} (enclosed : Enclosed inner) :
    Enclosed ("\x7b" ++ inner ++ "\x7d") where
  balanced := enclosed.balanced.block
  unheaded := by
    have opening : Unheaded "\x7b".toList := by decide
    have closing : Unheaded "\x7d".toList := by decide
    rw [String.toList_append, String.toList_append]
    exact (opening.append enclosed.unheaded).append closing

end Enclosed

/-- A balanced text is rejected for no other reason than a marker. -/
theorem rejection?_eq_none {source : String} (balanced : Balanced source) :
    rejection? [] source = none := by
  obtain ⟨later, scanned⟩ := balanced 1 0 []
  rw [List.append_nil] at scanned
  have ended : depthFrom 1 0 source.toList = .ok 0 := scanned
  unfold rejection?
  rw [ended]
  rfl

/-! ### Acceptance -/

/-- Characters whose braces match when `depth` blocks are open in front of them. -/
structure MatchedFrom (depth : Nat) (characters : List Char) : Prop where
  prefixes : ∀ front, front <+: characters → front.count '\x7d' ≤ depth + front.count '\x7b'
  totals : characters.count '\x7d' = depth + characters.count '\x7b'

/-- A text no beginning of which closes more blocks than it opens, and which closes as
many as it opens. -/
def Matched (text : String) : Prop := MatchedFrom 0 text.toList

namespace MatchedFrom

variable {depth : Nat} {character : Char} {rest : List Char}

theorem nil_iff : MatchedFrom depth [] ↔ depth = 0 := by
  constructor
  · intro matched
    simpa using matched.totals.symm
  · rintro rfl
    exact ⟨fun front begins => by simp [List.prefix_nil.1 begins], rfl⟩

/-- What a first character makes of the depth, if it does not close a block in vain. -/
theorem cons_iff {inner : Nat}
    (counted : inner + [character].count '\x7d' = depth + [character].count '\x7b') :
    MatchedFrom depth (character :: rest) ↔ MatchedFrom inner rest := by
  have countCons (wanted : Char) (tail : List Char) :
      (character :: tail).count wanted = [character].count wanted + tail.count wanted := by
    rw [← List.count_append, List.singleton_append]
  have closing := countCons '\x7d'
  have opening := countCons '\x7b'
  constructor
  · rintro ⟨prefixes, totals⟩
    refine ⟨fun front begins => ?_, ?_⟩
    · have longer := prefixes (character :: front) ((List.prefix_cons_inj character).2 begins)
      rw [closing front, opening front] at longer
      omega
    · rw [closing rest, opening rest] at totals
      omega
  · rintro ⟨prefixes, totals⟩
    refine ⟨fun front begins => ?_, ?_⟩
    · rcases List.prefix_cons_iff.1 begins with rfl | ⟨tail, rfl, tailBegins⟩
      · exact Nat.zero_le _
      · have shorter := prefixes tail tailBegins
        rw [closing tail, opening tail]
        omega
    · rw [closing rest, opening rest]
      omega

theorem not_cons_close : ¬ MatchedFrom 0 ('\x7d' :: rest) := by
  intro matched
  have first := matched.prefixes ['\x7d'] (List.prefix_append ['\x7d'] rest)
  exact absurd first (by decide)

end MatchedFrom

/-- The scan ends outside of all blocks when the braces match. -/
theorem depthFrom_eq_ok_zero_iff (line depth : Nat) (characters : List Char) :
    depthFrom line depth characters = .ok 0 ↔ MatchedFrom depth characters := by
  induction characters generalizing line depth with
  | nil => rw [depthFrom, MatchedFrom.nil_iff, Except.ok.injEq]
  | cons character rest inductionHypothesis =>
      by_cases opens : character = '\x7b'
      · subst opens
        rw [depthFrom, inductionHypothesis]
        exact (MatchedFrom.cons_iff rfl).symm
      by_cases closes : character = '\x7d'
      · subst closes
        cases depth with
        | zero => exact iff_of_false nofun MatchedFrom.not_cons_close
        | succ outer =>
            rw [depthFrom, inductionHypothesis]
            exact (MatchedFrom.cons_iff rfl).symm
      obtain ⟨next, passed⟩ := Plain.depthFrom_cons line depth rest ⟨opens, closes⟩
      rw [passed, inductionHypothesis]
      refine (MatchedFrom.cons_iff ?_).symm
      rw [List.count_eq_zero_of_not_mem, List.count_eq_zero_of_not_mem]
      · exact mt List.mem_singleton.1 (Ne.symm opens)
      · exact mt List.mem_singleton.1 (Ne.symm closes)

theorem occurs_iff {marker characters : List Char} :
    occurs marker characters = true ↔ marker <:+: characters := by
  induction characters with
  | nil => rw [occurs, List.isEmpty_iff, List.infix_nil]
  | cons character rest inductionHypothesis =>
      rw [occurs, Bool.or_eq_true, List.isPrefixOf_iff_prefix, inductionHypothesis,
        List.infix_cons_iff]

/-- A source is accepted when no marker stands in it and its braces match. -/
theorem rejection?_eq_none_iff {markers : List String} {source : String} :
    rejection? markers source = none ↔
      (∀ marker ∈ markers, ¬ marker.toList <:+: source.toList) ∧ Matched source := by
  have unmarked : markers.find? (fun marker => occurs marker.toList source.toList) = none ↔
      ∀ marker ∈ markers, ¬ marker.toList <:+: source.toList := by
    rw [List.find?_eq_none]
    simp only [occurs_iff]
  rw [Matched, ← depthFrom_eq_ok_zero_iff 1, ← unmarked]
  unfold rejection?
  cases markers.find? (fun marker => occurs marker.toList source.toList) with
  | some marker => simp
  | none => cases depthFrom 1 0 source.toList with
    | error line => simp
    | ok depth => cases depth <;> simp

/-! ### Entries -/

/-- A letter, a digit or an underscore. -/
def InIdentifier (character : Char) : Prop := character.isAlphanum = true ∨ character = '_'

instance (character : Char) : Decidable (InIdentifier character) :=
  inferInstanceAs (Decidable (_ ∨ _))

def Identifier (name : String) : Prop :=
  name.toList ≠ [] ∧ ∀ character ∈ name.toList, InIdentifier character

instance (name : String) : Decidable (Identifier name) :=
  have : Decidable (∀ character ∈ name.toList, InIdentifier character) :=
    List.decidableBAll InIdentifier name.toList
  inferInstanceAs (Decidable (_ ∧ _))

namespace InIdentifier

variable {character : Char}

theorem range (isAlphanum : character.isAlphanum = true) :
    48 ≤ character.toNat ∧ character.toNat ≤ 122 := by
  have code : character.val.toNat = character.toNat := rfl
  delta Char.isAlphanum Char.isAlpha Char.isUpper Char.isLower Char.isDigit at isAlphanum
  simp only [Bool.or_eq_true, Bool.and_eq_true, decide_eq_true_eq, ge_iff_le,
    UInt32.le_iff_toNat_le] at isAlphanum
  simp [code] at isAlphanum
  omega

theorem ne_parenthesis (inIdentifier : InIdentifier character) : character ≠ '(' := by
  rintro rfl
  exact absurd inIdentifier (by decide)

theorem not_blank (inIdentifier : InIdentifier character) : Text.isBlank character = false := by
  rcases inIdentifier with isAlphanum | rfl
  · have bounds := range isAlphanum
    simp [Text.isBlank, Text.blankRanges]
    omega
  · decide

end InIdentifier

namespace Identifier

theorem append {left right : String} (leftNamed : Identifier left) (rightNamed : Identifier right) :
    Identifier (left ++ right) := by
  unfold Identifier
  rw [String.toList_append]
  refine ⟨List.append_ne_nil_of_left_ne_nil leftNamed.1 _, fun character member => ?_⟩
  exact (List.mem_append.1 member).elim (leftNamed.2 character) (rightNamed.2 character)

theorem number (value : Nat) : Identifier (toString value) := by
  unfold Identifier
  rw [Nat.toString_eq_repr, Nat.toList_repr]
  refine ⟨Nat.toDigits_ne_nil, fun character member => ?_⟩
  have digit := Nat.isDigit_of_mem_toDigits (by decide) (by decide) member
  exact .inl (by simp [Char.isAlphanum, digit])

end Identifier

theorem dropWhile_isBlank {characters : List Char}
    (named : ∀ character ∈ characters, InIdentifier character) :
    characters.dropWhile Text.isBlank = characters := by
  cases characters with
  | nil => rfl
  | cons character rest =>
      have visible := (named character List.mem_cons_self).not_blank
      rw [List.dropWhile_cons_of_neg (by simp [visible])]

/-- The name in front of an opening parenthesis is read as it stands. -/
theorem entryName?_eq {name : String} (named : Identifier name) (rest : List Char) :
    entryName? (name.toList ++ '(' :: rest) = some name := by
  obtain ⟨nonempty, named⟩ := named
  have parenthesis : (name.toList ++ '(' :: rest).contains '(' = true := by simp
  have taken : (name.toList ++ '(' :: rest).takeWhile (· ≠ '(') = name.toList := by
    have inside : ∀ character ∈ name.toList, decide (character ≠ '(') = true :=
      fun character member => decide_eq_true (named character member).ne_parenthesis
    rw [List.takeWhile_append_of_pos inside]
    simp
  have trimmed : Text.trimBlank name.toList = name.toList := by
    have reversed : ∀ character ∈ name.toList.reverse, InIdentifier character :=
      fun character member => named character (List.mem_reverse.1 member)
    rw [Text.trimBlank, dropWhile_isBlank named, dropWhile_isBlank reversed, List.reverse_reverse]
  have visible : name.toList.isEmpty = false := List.isEmpty_eq_false_iff.2 nonempty
  rw [entryName?, if_pos parenthesis, taken, trimmed]
  simp only [visible, Bool.false_eq_true, ↓reduceIte, String.ofList_toList]

theorem infix_intercalate {separator text : String} {texts : List String}
    (member : text ∈ texts) : text.toList <:+: (separator.intercalate texts).toList := by
  induction texts with
  | nil => cases member
  | cons first rest inductionHypothesis =>
      by_cases last : rest = []
      · subst last
        have same : text = first := List.mem_singleton.1 member
        simp [same]
      · rw [String.intercalate_cons_of_ne_nil last, String.append_assoc, String.toList_append,
          String.toList_append]
        rcases List.mem_cons.1 member with rfl | later
        · exact List.infix_append_left
        · exact ((inductionHypothesis later).trans List.infix_append_right).trans
            List.infix_append_right

end KernelTuner.Source
