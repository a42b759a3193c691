import Mathlib.Logic.ExistsUnique
import Prototypal.Name.StorageKey

/-!
# The shape of storage keys

A text is recognised as reserved exactly if it is `__$`, digits, `$`, digits, `$__`, and so exactly
if the pattern of storage keys, which is anchored at both ends, is found in it.  Its two runs of
digits are determined, so that a storage key tells its random part and its count.
-/

namespace Prototypal

open Text (isDecimalDigit)

/-! ## Patterns -/

/-- A part of a pattern. -/
inductive Pattern.Part where
  /-- The start of the text. -/
  | start
  /-- The end of the text, after all its characters. -/
  | stop
  | char (c : Char)
  /-- A run of decimal digits, of one at least. -/
  | digits
deriving DecidableEq, Repr

/-- A pattern: its parts, each after the other. -/
abbrev Pattern := List Pattern.Part

namespace Pattern

/-- The part matches some characters that stand between others. -/
def Part.Matches : Part → (before matched after : List Char) → Prop
  | .start, before, matched, _ => before = [] ∧ matched = []
  | .stop, _, matched, after => matched = [] ∧ after = []
  | .char c, _, matched, _ => matched = [c]
  | .digits, _, matched, _ => StorageKey.DigitRun matched

/-- The parts match some characters that stand between others. -/
inductive Matches : Pattern → (before matched after : List Char) → Prop
  | nil {before after : List Char} : Matches [] before [] after
  | cons {part : Part} {rest : Pattern} {before first second after : List Char}
      (head : part.Matches before first (second ++ after))
      (tail : Matches rest (before ++ first) second after) :
      Matches (part :: rest) before (first ++ second) after

/-- The pattern matches some part of the text, wherever that is. -/
def FoundIn (p : Pattern) (text : List Char) : Prop :=
  ∃ before matched after, text = before ++ matched ++ after ∧ p.Matches before matched after

/-- The pattern of the characters of a text. -/
def ofString (text : String) : Pattern := text.toList.map .char

variable {p q : Pattern} {part : Part} {before matched after : List Char}

theorem matches_nil_iff : Matches [] before matched after ↔ matched = [] := by
  constructor
  · rintro ⟨⟩
    rfl
  · rintro rfl
    exact .nil

theorem matches_cons_iff : Matches (part :: p) before matched after ↔
    ∃ first second, matched = first ++ second ∧ part.Matches before first (second ++ after) ∧
      p.Matches (before ++ first) second after := by
  constructor
  · rintro (_ | ⟨head, tail⟩)
    exact ⟨_, _, rfl, head, tail⟩
  · rintro ⟨first, second, rfl, head, tail⟩
    exact .cons head tail

theorem matches_append_iff : Matches (p ++ q) before matched after ↔
    ∃ first second, matched = first ++ second ∧ p.Matches before first (second ++ after) ∧
      q.Matches (before ++ first) second after := by
  induction p generalizing before matched with
  | nil =>
      constructor
      · exact fun h => ⟨[], matched, rfl, .nil, by simpa using h⟩
      · rintro ⟨_, second, rfl, ⟨⟩, tail⟩
        simpa using tail
  | cons part p ih =>
      simp only [List.cons_append, matches_cons_iff, ih]
      constructor
      · rintro ⟨a, _, rfl, head, b, c, rfl, middle, tail⟩
        exact ⟨a ++ b, c, (List.append_assoc ..).symm, ⟨a, b, rfl, by simpa using head, middle⟩,
          by simpa using tail⟩
      · rintro ⟨_, c, rfl, ⟨a, b, rfl, head, middle⟩, tail⟩
        exact ⟨a, b ++ c, List.append_assoc .., by simpa using head, b, c, rfl, middle,
          by simpa using tail⟩

theorem matches_ofString_iff {text : String} :
    (ofString text).Matches before matched after ↔ matched = text.toList := by
  unfold ofString
  generalize text.toList = chars
  induction chars generalizing before matched with
  | nil => exact matches_nil_iff
  | cons c chars ih =>
      simp only [List.map_cons, matches_cons_iff, Part.Matches, ih]
      constructor
      · rintro ⟨_, _, rfl, rfl, rfl⟩
        rfl
      · rintro rfl
        exact ⟨[c], chars, rfl, rfl, rfl⟩

end Pattern

namespace StorageKey

/-- The pattern of storage keys. -/
def pattern : Pattern :=
  [.start] ++ Pattern.ofString "__$" ++ [.digits] ++ Pattern.ofString "$" ++ [.digits] ++
    Pattern.ofString "$__" ++ [.stop]

variable {chars rest run : List Char}

/-- The shape, read from its start. -/
theorem shape_iff : Shape chars ↔ ∃ first second, DigitRun first ∧ DigitRun second ∧
    chars = "__$".toList ++ (first ++ ("$".toList ++ (second ++ "$__".toList))) := by
  simp only [Shape, List.append_assoc, List.cons_append]
  rfl

/-- The pattern is found in the texts of the shape: anchored, it matches nothing less than all. -/
theorem foundIn_pattern_iff : pattern.FoundIn chars ↔ Shape chars := by
  have anchored {before matched after : List Char} :
      pattern.Matches before matched after ↔ before = [] ∧ after = [] ∧ Shape matched := by
    simp only [pattern, List.cons_append, List.append_assoc, List.nil_append,
      Pattern.matches_cons_iff, Pattern.matches_append_iff, Pattern.matches_ofString_iff,
      Pattern.matches_nil_iff, shape_iff]
    constructor
    · rintro ⟨_, _, rfl, ⟨rfl, rfl⟩, _, _, rfl, rfl, first, _, rfl, run, _, _, rfl, rfl, second, _,
        rfl, run', _, _, rfl, rfl, _, _, rfl, ⟨rfl, stop⟩, rfl⟩
      exact ⟨rfl, stop, first, second, run, run', by simp⟩
    · rintro ⟨rfl, rfl, first, second, run, run', rfl⟩
      exact ⟨[], _, rfl, ⟨rfl, rfl⟩, _, _, rfl, rfl, first, _, rfl, run, _, _, rfl, rfl, second, _,
        rfl, run', _, [], (List.append_nil _).symm, rfl, [], [], rfl, ⟨rfl, rfl⟩, rfl⟩
  constructor
  · rintro ⟨before, matched, after, rfl, found⟩
    obtain ⟨rfl, rfl, shape⟩ := anchored.1 found
    simpa using shape
  · exact fun shape => ⟨[], chars, [], by simp, anchored.2 ⟨rfl, rfl, shape⟩⟩

/-! ## Recognition -/

theorem after?_eq_some_iff {start : String} :
    after? start chars = some rest ↔ chars = start.toList ++ rest := by
  unfold after?
  split
  · next head =>
    obtain ⟨tail, rfl⟩ := List.isPrefixOf_iff_prefix.1 head
    simp
  · next head =>
    refine iff_of_false nofun ?_
    rintro rfl
    exact head (List.isPrefixOf_iff_prefix.2 (List.prefix_append ..))

/-- What is read as digits is a run, and all the digits that stand there. -/
theorem afterDigits?_eq_some_iff : afterDigits? chars = some rest ↔
    ∃ run, DigitRun run ∧ chars = run ++ rest ∧ ∀ c ∈ rest.head?, isDecimalDigit c = false := by
  unfold afterDigits?
  constructor
  · intro h
    split at h
    · cases h
    · next nonempty =>
      cases h
      refine ⟨chars.takeWhile isDecimalDigit, ⟨by simpa using nonempty,
        List.all_eq_true.1 List.all_takeWhile⟩, List.takeWhile_append_dropWhile.symm, ?_⟩
      intro c hc
      have stop := List.head?_dropWhile_not isDecimalDigit chars
      rwa [hc] at stop
  · rintro ⟨run, ⟨nonempty, digits⟩, rfl, stop⟩
    rw [List.takeWhile_append_of_pos digits, List.dropWhile_append_of_pos digits]
    match rest, stop with
    | [], _ => simp [nonempty]
    | c :: rest, stop =>
        have other : isDecimalDigit c = false := stop c rfl
        simp [nonempty, other]

theorem isReserved_iff_shape {text : String} : isReserved text = true ↔ Shape text.toList := by
  unfold isReserved
  simp only [beq_iff_eq, bind, Option.bind_eq_some_iff, after?_eq_some_iff,
    afterDigits?_eq_some_iff, shape_iff]
  constructor
  · rintro ⟨_, shape, _, ⟨first, run, rfl, -⟩, _, rfl, _, ⟨second, run', rfl, -⟩, rfl⟩
    exact ⟨first, second, run, run', by simpa using shape⟩
  · rintro ⟨first, second, run, run', shape⟩
    have mark : isDecimalDigit '$' = false := by decide
    exact ⟨_, shape, _, ⟨first, run, rfl, by simpa using mark⟩, _, rfl, _,
      ⟨second, run', rfl, by simpa using mark⟩, (List.append_nil _).symm⟩

/-! ## The parts of a storage key -/

/-- A run of digits ends where something else stands. -/
theorem DigitRun.append_inj {run' rest' : List Char} (h : DigitRun run) (h' : DigitRun run')
    (same : run ++ '$' :: rest = run' ++ '$' :: rest') : run = run' ∧ rest = rest' := by
  have mark : isDecimalDigit '$' = false := by decide
  have taken (run rest : List Char) (h : DigitRun run) :
      (run ++ '$' :: rest).takeWhile isDecimalDigit = run := by
    rw [List.takeWhile_append_of_pos h.2, List.takeWhile_cons_of_neg (by simp [mark]),
      List.append_nil]
  have runs := congrArg (List.takeWhile isDecimalDigit) same
  rw [taken run rest h, taken run' rest' h'] at runs
  subst runs
  exact ⟨rfl, (List.cons.inj (List.append_cancel_left same)).2⟩

/-- The characters of a reserved text with the given digits. -/
def spell (first second : List Char) : List Char :=
  "__$".toList ++ first ++ '$' :: second ++ "$__".toList

theorem spell_inj {first second first' second' : List Char} (run : DigitRun first)
    (run' : DigitRun first') (same : spell first second = spell first' second') :
    first = first' ∧ second = second' := by
  simp only [spell, List.append_assoc, List.cons_append] at same
  obtain ⟨firsts, rests⟩ := run.append_inj run' (List.append_cancel_left same)
  exact ⟨firsts, List.append_cancel_right rests⟩

theorem digitRun_toDigits (n : Nat) : DigitRun (Nat.toDigits 10 n) :=
  ⟨Nat.toDigits_ne_nil, fun _ hc => Text.isDecimalDigit_of_isDigit
    (Nat.isDigit_of_mem_toDigits (by decide) (by decide) hc)⟩

theorem toList_write (random count : Nat) :
    (write random count).toList = spell (Nat.toDigits 10 random) (Nat.toDigits 10 count) :=
  String.toList_ofList

/-- What is written as a storage key is recognised as one. -/
theorem isReserved_write (random count : Nat) : isReserved (write random count) = true :=
  isReserved_iff_shape.2 ⟨_, _, digitRun_toDigits random, digitRun_toDigits count,
    toList_write random count⟩

/-- A storage key tells its random part and its count. -/
theorem write_inj {random count random' count' : Nat}
    (same : write random count = write random' count') : random = random' ∧ count = count' := by
  have spelled := congrArg String.toList same
  rw [toList_write, toList_write] at spelled
  obtain ⟨randoms, counts⟩ := spell_inj (digitRun_toDigits _) (digitRun_toDigits _) spelled
  have value {m n : Nat} (digits : Nat.toDigits 10 m = Nat.toDigits 10 n) : m = n := by
    have values := congrArg (Nat.ofDigitChars 10 · 0) digits
    simpa only [Nat.ofDigitChars_ten_toDigits] using values
  exact ⟨value randoms, value counts⟩

/-- A text is recognised as reserved if and only if it is `__$`, a run of decimal digits, `$`,
another such run and `$__`, with nothing before or after; then there is one way to read it so.
These are the texts in which the pattern of storage keys is found. -/
theorem recognised_iff (text : String) :
    (isReserved text = true ↔ ∃! parts : List Char × List Char,
      DigitRun parts.1 ∧ DigitRun parts.2 ∧ text = String.ofList (spell parts.1 parts.2)) ∧
    (isReserved text = true ↔ pattern.FoundIn text.toList) := by
  refine ⟨isReserved_iff_shape.trans ⟨?_, ?_⟩, isReserved_iff_shape.trans foundIn_pattern_iff.symm⟩
  · rintro ⟨first, second, run, run', shape⟩
    refine ⟨(first, second), ⟨run, run', ?_⟩, ?_⟩
    · rw [spell, ← shape, String.ofList_toList]
    · rintro ⟨first', second'⟩ ⟨again, -, same⟩
      have same := congrArg String.toList same
      rw [String.toList_ofList, shape] at same
      obtain ⟨rfl, rfl⟩ := spell_inj again run same.symm
      rfl
  · rintro ⟨⟨first, second⟩, ⟨run, run', rfl⟩, -⟩
    exact ⟨first, second, run, run', String.toList_ofList⟩

/-- The digits may be those of any script, but nothing stands after the end, a line break
neither. -/
example : isReserved "__$\u0661$2$__" = true ∧ isReserved "__$1$2$__\n" = false := by decide

end StorageKey

end Prototypal
