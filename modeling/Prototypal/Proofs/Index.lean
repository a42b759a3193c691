import Prototypal.Key

/-!
# Array indices as keys

Each array index has one key, its decimal form, and no other key stands for it: a private name, or a
text that is no numeral or whose number is past the range.
-/

namespace Prototypal

namespace Key

variable {chars : List Char} {s : String} {i n : Nat}

/-! ## Decimal forms -/

theorem digitChar_of_isDigit {c : Char} (h : c.isDigit = true) :
    c.toNat - '0'.toNat < 10 ∧ Nat.digitChar (c.toNat - '0'.toNat) = c := by
  obtain ⟨lower, upper⟩ := Char.isDigit_iff_toNat.1 h
  change 48 ≤ c.toNat at lower
  change c.toNat ≤ 57 at upper
  change c.toNat - 48 < 10 ∧ Nat.digitChar (c.toNat - 48) = c
  refine ⟨by omega, Char.toNat_inj.1 ?_⟩
  rw [Nat.toNat_digitChar_of_lt_ten (by omega)]
  omega

/-- Digits that follow a positive number are its further digits. -/
theorem toDigits_foldl (chars : List Char) {n : Nat} (hn : 0 < n)
    (hc : ∀ c ∈ chars, c.isDigit = true) :
    Nat.toDigits 10 (chars.foldl (fun value c => 10 * value + (c.toNat - '0'.toNat)) n) =
      Nat.toDigits 10 n ++ chars := by
  induction chars generalizing n with
  | nil => simp
  | cons c chars ih =>
      obtain ⟨bound, digit⟩ := digitChar_of_isDigit (hc c List.mem_cons_self)
      rw [List.foldl_cons, ih (by omega) fun c hc' => hc c (List.mem_cons_of_mem _ hc'),
        ← Nat.toDigits_append_toDigits (by decide) hn bound, Nat.toDigits_of_lt_base bound, digit,
        List.append_assoc, List.singleton_append]

theorem eq_toDigits_of_decimal? {chars : List Char} {n : Nat} (h : decimal? chars = some n) :
    chars = Nat.toDigits 10 n := by
  unfold decimal? at h
  split at h
  · cases h
  · cases h
    rfl
  · cases h
  · next nonempty _ leading =>
    split at h
    · next digits =>
      cases h
      rw [List.all_eq_true] at digits
      match chars, nonempty with
      | c :: chars, _ =>
          obtain ⟨bound, digit⟩ := digitChar_of_isDigit (digits c List.mem_cons_self)
          have positive : 0 < c.toNat - '0'.toNat := by
            refine Nat.pos_of_ne_zero fun zero => leading chars ?_
            rw [zero] at digit
            rw [← digit]
            rfl
          rw [List.foldl_cons, Nat.mul_zero, Nat.zero_add, toDigits_foldl chars positive fun c hc =>
            digits c (List.mem_cons_of_mem _ hc), Nat.toDigits_of_lt_base bound, digit,
            List.singleton_append]
    · cases h

theorem toDigits_ne_leading_zero {n : Nat} (hn : 0 < n) (chars : List Char) :
    Nat.toDigits 10 n ≠ '0' :: chars := by
  induction n using Nat.strongRecOn generalizing chars with
  | ind n ih =>
    intro h
    by_cases small : n < 10
    · rw [Nat.toDigits_of_lt_base small] at h
      have zero := congrArg Char.toNat (List.cons.inj h).1
      rw [Nat.toNat_digitChar_of_lt_ten small] at zero
      change 48 + n = 48 at zero
      omega
    · -- The first digit is that of a smaller number.
      rw [Nat.toDigits_of_base_le (by decide) (by omega)] at h
      match hd : Nat.toDigits 10 (n / 10) with
      | [] => exact Nat.toDigits_ne_nil hd
      | c :: digits =>
          rw [hd, List.cons_append] at h
          refine ih (n / 10) (by omega) (by omega) digits ?_
          rw [hd, (List.cons.inj h).1]

/-! ## Numerals -/

/-- Digits without a leading zero, as a number is written. -/
structure Numeral (chars : List Char) : Prop where
  nonempty : chars ≠ []
  digits : ∀ c ∈ chars, c.isDigit = true
  unpadded {rest : List Char} : chars = '0' :: rest → rest = []

theorem numeral_toDigits (n : Nat) : Numeral (Nat.toDigits 10 n) where
  nonempty := Nat.toDigits_ne_nil
  digits _ hc := Nat.isDigit_of_mem_toDigits (by decide) (by decide) hc
  unpadded {rest} h := by
    rcases Nat.eq_zero_or_pos n with rfl | hn
    · exact (List.cons.inj h).2.symm
    · exact absurd h (toDigits_ne_leading_zero hn rest)

theorem Numeral.decimal?_eq (h : Numeral chars) :
    decimal? chars = some (Nat.ofDigitChars 10 chars 0) := by
  unfold decimal?
  split
  · exact absurd rfl h.nonempty
  · rfl
  · next padded => exact absurd (h.unpadded rfl) fun none => padded (none ▸ rfl)
  · rw [if_pos (List.all_eq_true.2 h.digits), Nat.ofDigitChars_eq_foldl]

theorem decimal?_toDigits (n : Nat) : decimal? (Nat.toDigits 10 n) = some n := by
  rw [(numeral_toDigits n).decimal?_eq, Nat.ofDigitChars_ten_toDigits]

/-- The numerals are the decimal forms, each of the number that its digits give. -/
theorem numeral_iff_eq_toDigits :
    Numeral chars ∧ Nat.ofDigitChars 10 chars 0 = n ↔ chars = Nat.toDigits 10 n := by
  constructor
  · rintro ⟨h, rfl⟩
    exact eq_toDigits_of_decimal? h.decimal?_eq
  · rintro rfl
    exact ⟨numeral_toDigits n, Nat.ofDigitChars_ten_toDigits⟩

theorem text_eq_ofIndex_iff :
    text s = ofIndex i ↔ Numeral s.toList ∧ Nat.ofDigitChars 10 s.toList 0 = i := by
  rw [numeral_iff_eq_toDigits, ofIndex, text.injEq, ← String.toList_inj, Nat.toList_repr]

/-! ## Indices -/

/-- The keys of array indices are their decimal forms. -/
theorem index?_eq_some_iff {k : Key} {i : Nat} :
    k.index? = some i ↔ k = ofIndex i ∧ i ≤ maxIndex := by
  constructor
  · intro h
    obtain ⟨h, bound⟩ := Option.filter_eq_some_iff.1 h
    obtain ⟨s, hs, digits⟩ := Option.bind_eq_some_iff.1 h
    obtain ⟨hs, -⟩ := Option.filter_eq_some_iff.1 hs
    refine ⟨?_, of_decide_eq_true bound⟩
    cases k with
    | name => cases hs
    | text t =>
        cases hs
        have same := Nat.toList_repr.trans (eq_toDigits_of_decimal? digits).symm
        rw [ofIndex, String.toList_inj.1 same]
  · rintro ⟨rfl, bound⟩
    have short : (Nat.repr i).length ≤ maxIndexDigits := by
      refine (Nat.length_repr_le_iff (by decide)).2 (Nat.lt_of_le_of_lt bound ?_)
      decide
    rw [index?, show (ofIndex i).text? = some (Nat.repr i) from rfl,
      Option.filter_some_pos (by simpa using short), Option.bind_some, Nat.toList_repr,
      decimal?_toDigits, Option.filter_some_pos (by simpa using bound)]

theorem index?_text_eq_some_iff : (text s).index? = some i ↔
    Numeral s.toList ∧ Nat.ofDigitChars 10 s.toList 0 = i ∧ i ≤ maxIndex := by
  rw [index?_eq_some_iff, text_eq_ofIndex_iff, and_assoc]

theorem ofIndex_inj {i j : Nat} : ofIndex i = ofIndex j ↔ i = j := by
  refine ⟨fun h => ?_, congrArg ofIndex⟩
  have digits := congrArg (fun s => decimal? s.toList) (text.inj h)
  simpa only [Nat.toList_repr, decimal?_toDigits, Option.some.injEq] using digits

/-- The key of the length of an array is no index, however great. -/
theorem ofIndex_ne_length (i : Nat) : ofIndex i ≠ length := by
  intro h
  have digit := (text_eq_ofIndex_iff.1 h.symm).1.digits 'l' (by decide)
  revert digit
  decide

/-! ## Keys that are no index -/

/-- Why a key is no index. -/
inductive Unnumbered : Key → Prop where
  | name (n : PrivateName) : Unnumbered (.name n)
  | empty : Unnumbered (.text "")
  | sign {s : String} {c : Char} : c = '+' ∨ c = '-' → s.toList.head? = some c →
      Unnumbered (.text s)
  /-- A character is no ASCII digit; it may be a digit of another script. -/
  | foreign {s : String} {c : Char} : c ∈ s.toList → c.isDigit = false → Unnumbered (.text s)
  | leadingZero {s : String} {rest : List Char} : s.toList = '0' :: rest → rest ≠ [] →
      Unnumbered (.text s)
  /-- The digits, however many, give a number past the greatest index. -/
  | past {s : String} : (∀ c ∈ s.toList, c.isDigit = true) →
      Nat.pow 2 32 - 1 ≤ Nat.ofDigitChars 10 s.toList 0 → Unnumbered (.text s)

theorem unnumbered_of_not_numeral (h : ¬ Numeral s.toList) : Unnumbered (.text s) := by
  cases digits : s.toList.all Char.isDigit with
  | false =>
      obtain ⟨c, hc, other⟩ := List.all_eq_false.1 digits
      exact .foreign hc (Bool.not_eq_true _ ▸ other)
  | true =>
      cases same : s.toList with
      | nil => exact String.toList_eq_nil_iff.1 same ▸ .empty
      | cons c rest =>
          by_cases padded : c = '0' ∧ rest ≠ []
          · exact .leadingZero (padded.1 ▸ same) padded.2
          · refine absurd ⟨same ▸ List.cons_ne_nil c rest, List.all_eq_true.1 digits, ?_⟩ h
            intro rest' again
            obtain ⟨rfl, rfl⟩ := List.cons.inj (same.symm.trans again)
            exact Classical.not_not.1 fun more => padded ⟨rfl, more⟩

theorem index?_eq_none_of_unnumbered {k : Key} (h : k.Unnumbered) : k.index? = none := by
  refine Option.eq_none_iff_forall_ne_some.2 fun i index => ?_
  cases h with
  | name n => cases (index?_eq_some_iff.1 index).1
  | empty => cases index
  | sign hc head =>
      have digit := (index?_text_eq_some_iff.1 index).1.digits _ (List.mem_of_head? head)
      rcases hc with rfl | rfl <;> cases digit
  | foreign hc other =>
      have digit := (index?_text_eq_some_iff.1 index).1.digits _ hc
      exact Bool.noConfusion (digit.symm.trans other)
  | leadingZero same more => exact more ((index?_text_eq_some_iff.1 index).1.unpadded same)
  | past _ great =>
      obtain ⟨-, rfl, bound⟩ := index?_text_eq_some_iff.1 index
      exact absurd (Nat.le_trans great bound) (by decide)

theorem index?_eq_none_iff {k : Key} : k.index? = none ↔ k.Unnumbered := by
  refine ⟨fun none => ?_, index?_eq_none_of_unnumbered⟩
  cases k with
  | name n => exact .name n
  | text s =>
      by_cases h : Numeral s.toList
      · refine .past h.digits (Nat.lt_of_not_le fun bound => ?_)
        cases none.symm.trans (index?_text_eq_some_iff.2 ⟨h, rfl, bound⟩)
      · exact unnumbered_of_not_numeral h

end Key

end Prototypal
