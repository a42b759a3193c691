import Mathlib.Data.List.Basic
import Prototypal.Proofs.Layout

/-!
# The keys of array elements

Reading a key as an array index undoes writing the index as a key.  The digits may be read into a
word: the reading stops where the number does not fit, so none wraps around.  An element has one
key, and the own keys of an array, read as indices, are its elements in order.
-/

namespace Prototypal

variable {κ σ : Type}

namespace Key

variable {chars : List Char} {s : String} {i n : Nat}

/-! ## Reading into a word -/

/-- A number as a word, if it fits into one. -/
def word? (n : Nat) : Option UInt32 := if n < UInt32.size then some (.ofNat n) else none

/-- The word after one more digit, if its tens and then its sum with the digit fit. -/
def appendDigit? (word : UInt32) (c : Char) : Option UInt32 :=
  (word? (10 * word.toNat)).bind fun tens => word? (tens.toNat + (c.toNat - '0'.toNat))

/-- Reads digits into a word, up to the first that does not fit. -/
def readWord? (chars : List Char) : Option UInt32 := chars.foldlM appendDigit? 0

theorem word?_eq_some_iff {word : UInt32} : word? n = some word ↔ word.toNat = n := by
  unfold word?
  split
  · next fits =>
    rw [Option.some.injEq, ← UInt32.toNat_inj, UInt32.toNat_ofNat_of_lt' fits, eq_comm]
  · next great => exact iff_of_false nofun fun same => great (same ▸ word.toNat_lt)

/-- What is no greater than a word is one. -/
theorem exists_word (word : UInt32) (h : n ≤ word.toNat) :
    ∃ smaller : UInt32, smaller.toNat = n :=
  ⟨.ofNat n, UInt32.toNat_ofNat_of_lt' (Nat.lt_of_le_of_lt h word.toNat_lt)⟩

theorem appendDigit?_eq_some_iff {word word' : UInt32} {c : Char} :
    appendDigit? word c = some word' ↔
      word'.toNat = 10 * word.toNat + (c.toNat - '0'.toNat) := by
  simp only [appendDigit?, Option.bind_eq_some_iff, word?_eq_some_iff]
  constructor
  · rintro ⟨tens, ten, sum⟩
    rw [sum, ten]
  · intro sum
    obtain ⟨tens, ten⟩ := exists_word (n := 10 * word.toNat) word' (sum ▸ Nat.le_add_right ..)
    exact ⟨tens, ten, ten ▸ sum⟩

theorem le_ofDigitChars (chars : List Char) (n : Nat) : n ≤ Nat.ofDigitChars 10 chars n := by
  rw [Nat.ofDigitChars_eq_ofDigitChars_zero]
  have factor := Nat.le_mul_of_pos_left n (Nat.pow_pos (n := chars.length) (show 0 < 10 by decide))
  omega

theorem foldlM_appendDigit?_eq_some_iff {word word' : UInt32} :
    chars.foldlM appendDigit? word = some word' ↔
      word'.toNat = Nat.ofDigitChars 10 chars word.toNat := by
  induction chars generalizing word with
  | nil => simp [← UInt32.toNat_inj, eq_comm]
  | cons c chars ih =>
      simp only [List.foldlM_cons, Option.bind_eq_bind, Option.bind_eq_some_iff,
        appendDigit?_eq_some_iff, ih, Nat.ofDigitChars_cons]
      constructor
      · rintro ⟨next, value, same⟩
        rw [same, value]
      · intro same
        -- Further digits make no number smaller, so the number up to here is a word as well.
        obtain ⟨next, value⟩ := exists_word word' (same ▸ le_ofDigitChars chars _)
        exact ⟨next, value, value ▸ same⟩

/-- A word comes out exactly if the number is one, and then it is that number: none wraps around. -/
theorem readWord?_eq_some_iff {word : UInt32} :
    readWord? chars = some word ↔ word.toNat = Nat.ofDigitChars 10 chars 0 :=
  foldlM_appendDigit?_eq_some_iff

/-- The index of a text is the word that its digits are read into, the greatest word left out. -/
theorem index?_text_eq_some_iff_readWord? : (text s).index? = some i ↔
    Numeral s.toList ∧ ∃ word, readWord? s.toList = some word ∧ word.toNat = i ∧
      i ≠ Nat.pow 2 32 - 1 := by
  simp only [index?_text_eq_some_iff, readWord?_eq_some_iff]
  constructor
  · rintro ⟨numeral, rfl, bound⟩
    have bound : Nat.ofDigitChars 10 s.toList 0 < Nat.pow 2 32 - 1 :=
      Nat.lt_of_le_of_lt bound (by decide)
    obtain ⟨word, value⟩ := exists_word (.ofNat (Nat.pow 2 32 - 1)) (Nat.le_of_lt bound)
    exact ⟨numeral, word, value, value, Nat.ne_of_lt bound⟩
  · rintro ⟨numeral, word, value, rfl, other⟩
    have below : word.toNat < Nat.pow 2 32 - 1 :=
      Nat.lt_of_le_of_ne (Nat.le_sub_one_of_lt word.toNat_lt) other
    exact ⟨numeral, value.symm, Nat.le_sub_one_of_lt below⟩

end Key

/-! ## The keys of an array -/

namespace Object

variable {o : Object κ} {e : Elements} {i : Nat}

theorem eq_of_place_eq_element {j k : Key} (hj : o.place j = .element e i)
    (hk : o.place k = .element e i) : j = k := by
  have decimal {k : Key} (h : o.place k = .element e i) : k = .ofIndex i :=
    (Key.index?_eq_some_iff.1 (of_place_eq_element h).2).1
  rw [decimal hj, decimal hk]

theorem LaidOut.filterMap_index?_ownKeys (h : o.LaidOut) (ho : o.kind = .array e) :
    o.ownKeys.filterMap Key.index? = e.indices := by
  have elements : (e.indices.map Key.ofIndex).filterMap Key.index? = e.indices := by
    rw [List.filterMap_map, List.filterMap_congr (g := some), List.filterMap_some]
    exact fun i hi => h.index?_ofIndex ho hi
  have length : Key.length.index? = none := by decide
  have entries : o.table.keys.filterMap Key.index? = [] :=
    List.filterMap_eq_nil_iff.2 fun k hk =>
      (place_eq_entry_iff.1 (h.place_of_mem_keys hk) e ho).1
  simp [ownKeys, ho, elements, length, entries]

end Object

/-- A key is an index exactly if it is the decimal form of a number up to `2 ^ 32 - 2`.  Private
names are none, nor texts with a sign, a leading zero, a character that is no ASCII digit, or a
number past that, however long, and no other keys; the digits can be read into a word, where no
number wraps around.  So two keys never stand for one element.  In every reached world, the own keys
of an array, read as indices, are its elements in order, and the key that an element is listed under
leads back to it. -/
theorem World.Reached.element_keys {w : World κ σ} (hw : w.Reached) :
    (∀ (k : Key) (i : Nat), k.index? = some i ↔ k = .text (Nat.repr i) ∧ i ≤ Nat.pow 2 32 - 2) ∧
    (∀ k : Key, k.index? = none ↔ k.Unnumbered) ∧
    (∀ (s : String) (i : Nat), (Key.text s).index? = some i ↔ Key.Numeral s.toList ∧
      ∃ word, Key.readWord? s.toList = some word ∧ word.toNat = i ∧ i ≠ Nat.pow 2 32 - 1) ∧
    (∀ (j k : Key) (i : Nat), j.index? = some i → k.index? = some i → j = k) ∧
    (∀ (o : Object κ) (j k : Key) (e : Elements) (i : Nat),
      o.place j = .element e i → o.place k = .element e i → j = k) ∧
    ∀ o e, (w.heap.get o).kind = .array e →
      (w.heap.get o).ownKeys.filterMap Key.index? = e.indices ∧
      ∀ i v, e.get? i = some v → .ofIndex i ∈ (w.heap.get o).ownKeys ∧
        (Key.ofIndex i).index? = some i ∧ (w.heap.get o).place (.ofIndex i) = .element e i ∧
        (w.heap.get o).getOwn (.ofIndex i) = some (.data v) := by
  refine ⟨fun k i => Key.index?_eq_some_iff, fun k => Key.index?_eq_none_iff,
    fun s i => Key.index?_text_eq_some_iff_readWord?, fun j k i hj hk => ?_,
    fun o j k e i => Object.eq_of_place_eq_element, fun o e ho => ?_⟩
  · exact (Key.index?_eq_some_iff.1 hj).1.trans (Key.index?_eq_some_iff.1 hk).1.symm
  · have l := hw.laidOut o
    refine ⟨l.filterMap_index?_ownKeys ho, fun i v hv => ?_⟩
    have element : i ∈ e.indices := Elements.mem_indices_iff.2 (Option.isSome_of_eq_some hv)
    have bound := l.le_maxIndex ho element
    have own : (w.heap.get o).getOwn (.ofIndex i) = some (.data v) := by
      rw [Object.getOwn_ofIndex ho bound, hv, Option.map_some]
    exact ⟨l.mem_ownKeys_iff.2 (Option.isSome_of_eq_some own), l.index?_ofIndex ho element,
      Object.place_ofIndex ho bound, own⟩

/-- An array with holes up to the greatest index, and three keys that only look like indices. -/
theorem World.Reached.element_keys_sparse :
    ∃ (w : World Unit Unit) (e : Elements) (v : Value), w.Reached ∧
      (w.heap.get ⟨0⟩).kind = .array e ∧
      (w.heap.get ⟨0⟩).ownKeys =
        ["0", "4294967294", "length", "00", "+0", "4294967295"].map Key.text ∧
      e.indices = [0, 4294967294] ∧ e.get? 4294967294 = some v ∧
      (w.heap.get ⟨0⟩).getOwn (.text "4294967294") = some (.data v) ∧
      (Key.text "0").index? = some 0 ∧ (∀ k : Key, k.index? = some 0 → k = .text "0") ∧
      (∀ k, (w.heap.get ⟨0⟩).place k = .element e 4294967294 → k = .text "4294967294") ∧
      ∀ s ∈ ["00", "+0", "4294967295"], (Key.text s).Unnumbered := by
  obtain ⟨w, reached, facts⟩ := World.exists_reached (fun _ _ => .done (.ok .null)) 0
    (.ask (.newArray [.null] none) fun _ =>
      .ask (.define ⟨0⟩ (.text "00") (.data .null)) fun _ =>
      .ask (.define ⟨0⟩ (.text "+0") (.data .null)) fun _ =>
      .ask (.define ⟨0⟩ (.text "4294967295") (.data .null)) fun _ =>
      .ask (.define ⟨0⟩ (.text "4294967294") (.data (.string "last"))) fun _ =>
      .ask .newKey fun _ => .done (.ok .null))
    (.initial id) ()
    (fun w : World Unit Unit => ((w.heap.get ⟨0⟩).ownKeys,
      (w.heap.get ⟨0⟩).elements?.map (·.get? 4294967294)))
    (show _ = some (["0", "4294967294", "length", "00", "+0", "4294967295"].map Key.text,
      some (some (.string "last"))) by decide +kernel)
  simp only [Prod.mk.injEq] at facts
  obtain ⟨keys, elements⟩ := facts
  obtain ⟨e, he, last⟩ := Option.map_eq_some_iff.1 elements
  have ho := Object.elements?_eq_some_iff.1 he
  obtain ⟨-, unnumbered, -, unique, alone, arrays⟩ := reached.element_keys
  obtain ⟨indices, element⟩ := arrays ⟨0⟩ e ho
  obtain ⟨-, -, place, own⟩ := element 4294967294 _ last
  have zero : (Key.text "0").index? = some 0 := by decide
  rw [keys] at indices
  have listed : e.indices = [0, 4294967294] := indices.symm.trans (by decide +kernel)
  refine ⟨w, e, .string "last", reached, ho, keys, listed, last, own, zero,
    fun k hk => unique k _ 0 hk zero, fun k hk => alone _ k _ e _ hk place, fun s hs => ?_⟩
  refine (unnumbered (.text s)).1 ?_
  revert s
  decide +kernel

end Prototypal
