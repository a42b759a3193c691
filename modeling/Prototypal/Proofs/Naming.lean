import Mathlib.Data.List.Infix
import Mathlib.Data.List.Nodup
import Mathlib.Data.List.Pairwise
import Prototypal.Proofs.Recorder
import Prototypal.Proofs.StorageKey

/-!
# What a source of names makes

Along a run, storage keys and private names are made, each name with a key of its own, and with
another for its display if none was given.  The source counts its keys, so the strings it makes
differ until the count, a machine word, starts again, whatever their random parts are.
-/

namespace Prototypal

namespace NameSource

/-- What a source makes: a key, a name with the display that was given, or a name with one that was
made for it. -/
inductive Product where
  | key (text : String)
  | named (name : PrivateName)
  | anonymous (name : PrivateName)
deriving DecidableEq, Repr

namespace Product

/-- The strings that were generated for it, in their order. -/
def texts : Product → List String
  | key text => [text]
  | named name => [name.storageKey]
  | anonymous name => [name.display, name.storageKey]

/-- The name that was made. -/
def name? : Product → Option PrivateName
  | key _ => none
  | named name | anonymous name => some name

/-- A name that was asked for with a display, or without one. -/
def ofDisplay (display : Option String) (name : PrivateName) : Product :=
  if (display.filter (· ≠ "")).isSome then named name else anonymous name

/-- The names among what was made can be told by their storage keys, and no storage key is a display
that was made. -/
structure Apart (made : List Product) : Prop where
  once : (made.filterMap name?).Nodup
  eq_iff {a b} : a ∈ made.filterMap name? → b ∈ made.filterMap name? →
    (a = b ↔ a.storageKey = b.storageKey)
  display_ne {a b} : anonymous a ∈ made → b ∈ made.filterMap name? → a.display ≠ b.storageKey

theorem mem_texts_of_name? {product : Product} {n : PrivateName} (h : product.name? = some n) :
    n.storageKey ∈ product.texts := by
  cases product with
  | key => cases h
  | named | anonymous =>
      cases h
      simp [texts]

/-- If all the strings differ, each belongs to one product. -/
theorem eq_of_mem_texts {made : List Product} (apart : (made.flatMap texts).Nodup)
    {product other : Product} {text : String} (hp : product ∈ made) (ho : other ∈ made)
    (mem : text ∈ product.texts) (mem' : text ∈ other.texts) : product = other := by
  by_contra ne
  have : Std.Symm (Function.onFun List.Disjoint texts) := ⟨fun _ _ => List.disjoint_symm⟩
  exact (List.nodup_flatMap.1 apart).2.forall hp ho ne mem mem'

/-- Each name has a string of its own among the strings: its storage key. -/
theorem storageKeys_sublist (made : List Product) :
    ((made.filterMap name?).map (·.storageKey)).Sublist (made.flatMap texts) := by
  induction made with
  | nil => exact .slnil
  | cons product made ih =>
      cases product with
      | key text => exact ih.cons text
      | named n => exact ih.cons_cons n.storageKey
      | anonymous n => exact (ih.cons_cons n.storageKey).cons n.display

theorem apart_of_nodup {made : List Product} (h : (made.flatMap texts).Nodup) : Apart made where
  once := (h.sublist (storageKeys_sublist made)).of_map
  eq_iff ha hb :=
    ⟨congrArg _, List.inj_on_of_nodup_map (h.sublist (storageKeys_sublist made)) ha hb⟩
  display_ne {a b} ha hb same := by
    obtain ⟨product, hp, hb⟩ := List.mem_filterMap.1 hb
    have here : a.display ∈ (anonymous a).texts := by simp [texts]
    obtain rfl := eq_of_mem_texts h ha hp here (same ▸ mem_texts_of_name? hb)
    have apart : (anonymous a).texts.Nodup := (List.nodup_flatMap.1 h).1 _ ha
    cases hb
    simp [texts, same] at apart

end Product

/-! ## The count in the strings -/

/-- These are the first so many strings of a source: each has its count in it. -/
structure Counted (keys : Nat) (texts : List String) : Prop where
  length : texts.length = keys
  counts {i : Nat} {text : String} : texts[i]? = some text →
    ∃ random, text = StorageKey.write random ((i + 1) % countRange)

namespace Counted

variable {keys : Nat} {texts : List String} {source : NameSource}

theorem nextKey (h : Counted source.keys texts) :
    Counted source.nextKey.2.keys (texts ++ [source.nextKey.1]) where
  length := by simp [NameSource.nextKey, h.length]
  counts {i text} hi := by
    rw [List.getElem?_append] at hi
    split at hi
    · exact h.counts hi
    · next last =>
      obtain ⟨rfl, rfl⟩ : i = source.keys ∧ source.nextKey.1 = text := by
        rw [h.length] at last hi
        obtain ⟨here, rfl⟩ := List.getElem?_eq_some_iff.1 hi
        simp only [List.length_singleton] at here
        exact ⟨by omega, by simp⟩
      exact ⟨_, rfl⟩

theorem nextName (h : Counted source.keys texts) (display : Option String) :
    Counted (source.nextName display).2.keys
      (texts ++ (Product.ofDisplay display (source.nextName display).1).texts) := by
  unfold NameSource.nextName Product.ofDisplay
  cases display.filter (· ≠ "") with
  | none => simpa [Product.texts] using h.nextKey.nextKey
  | some => exact h.nextKey

theorem isReserved (h : Counted keys texts) {text : String} (mem : text ∈ texts) :
    StorageKey.isReserved text = true := by
  obtain ⟨i, hi⟩ := List.mem_iff_getElem?.1 mem
  obtain ⟨random, rfl⟩ := h.counts hi
  exact StorageKey.isReserved_write ..

/-- Counts below the range of the machine word tell the strings apart. -/
theorem nodup_take (h : Counted keys texts) : (texts.take (countRange - 1)).Nodup := by
  rw [List.nodup_iff_getElem?_ne_getElem?]
  intro i j before bound same
  rw [List.length_take] at bound
  rw [List.getElem?_take_of_lt (by omega), List.getElem?_take_of_lt (by omega)] at same
  obtain ⟨text, hj⟩ : ∃ text, texts[j]? = some text :=
    ⟨_, List.getElem?_eq_getElem (by omega)⟩
  obtain ⟨random, rfl⟩ := h.counts hj
  obtain ⟨random', written⟩ := h.counts (same.trans hj)
  have counts := (StorageKey.write_inj written).2
  rw [Nat.mod_eq_of_lt (by omega), Nat.mod_eq_of_lt (by omega)] at counts
  omega

end Counted

end NameSource

open NameSource (Product Counted countRange)

/-- The well-known names, as they are made. -/
def WellKnownNames.products (names : WellKnownNames) : List Product :=
  [.named names.elementGet, .named names.elementSet, .named names.elementDelete,
    .named names.iterator, .named names.generator]

/-! ## Along a run -/

variable {κ σ α : Type}

/-- What a request makes when it asks for a key or a name. -/
def Request.product? : Request κ α → NameSource → Option Product
  | .newKey, source => some (.key source.nextKey.1)
  | .newName display, source => some (.ofDisplay display (source.nextName display).1)
  | _, _ => none

namespace NameSource.Product

/-- The product is what a request for a key or a name answers: a name has the display that was
given, or one that was made for it. -/
inductive Answers : {α : Type} → Request κ α → α → Product → Prop where
  | key (text : String) : Answers .newKey text (.key text)
  | named {display : String} (given : display ≠ "") (serial : Nat) (storageKey : String) :
      Answers (.newName (some display)) ⟨serial, display, storageKey⟩
        (.named ⟨serial, display, storageKey⟩)
  | anonymous {display : Option String} (absent : ∀ text ∈ display, text = "")
      (name : PrivateName) : Answers (.newName display) name (.anonymous name)

/-- Notes what is made. -/
def recorder : Recorder κ σ (List Product) where
  asked r w made := made ++ (r.product? w.names).toList

/-- What holds of a recorded run between its steps: the strings that were noted are all that the
source made. -/
def Complete (w : World κ (σ × List Product)) : Prop :=
  Counted w.names.keys (w.notes.flatMap Product.texts)

theorem lockstep : QuietLockstep (Heap.Step fun _ _ _ => True)
    (Run.Both (Complete : World κ (σ × List Product) → Prop)) where
  heap h := by rw [h.1]
  cursors h := by rw [h.1]
  names h := by rw [h.1]
  deferreds h := by rw [h.1]
  wellKnown h := by rw [h.1]
  step h _ := ⟨by rw [h.1], h.2⟩
  switch := by
    rintro v _ on ⟨rfl, complete⟩
    exact ⟨rfl, complete⟩
  move _ h := ⟨by rw [h.1], h.2⟩
  covers := Heap.Step.covers fun _ => trivial

theorem settlingLockstep : SettlingLockstep (Heap.Step fun _ _ _ => True)
    (Run.Both (Complete : World κ (σ × List Product) → Prop)) where
  toPlainLockstep := lockstep.toPlainLockstep
  settle _ h := ⟨by rw [h.1], h.2⟩

theorem answers_newName (display : Option String) (source : NameSource) :
    Answers (.newName display : Request κ _) (source.nextName display).1
      (.ofDisplay display (source.nextName display).1) := by
  unfold ofDisplay nextName
  cases absent : display.filter (· ≠ "") with
  | none =>
      refine .anonymous (fun text given => ?_) _
      simpa using Option.filter_eq_none_iff.1 absent text given
  | some text =>
      obtain ⟨rfl, given⟩ := Option.filter_eq_some_iff.1 absent
      exact .named (by simpa using given) _ _

/-- What is noted of a request for a key or a name is what it answers. -/
theorem perform_answers {exec : Exec κ (σ × List Product)} (n : Nat) {r : Request κ α}
    (hk : r.makesKeys = true) (w : World κ (σ × List Product)) :
    ∃ a product w', recorder.perform exec n r w = .value a w' ∧
      w'.notes = w.notes ++ [product] ∧ Answers r a product := by
  cases r with
  | newKey => exact ⟨_, _, _, rfl, rfl, .key _⟩
  | newName display => exact ⟨_, _, _, rfl, rfl, answers_newName display w.names⟩
  | _ => cases hk

/-- No other request makes any. -/
theorem perform_of_not_makesKeys {exec : Exec κ (σ × List Product)} (n : Nat) {r : Request κ α}
    (hk : r.makesKeys = false) : recorder.perform exec n r = Prototypal.perform exec n r := by
  refine recorder.perform_eq_self fun w made => ?_
  cases r with
  | newKey | newName => cases hk
  | _ => exact List.append_nil made

theorem keeps_perform {exec : Exec κ (σ × List Product)}
    (he : ∀ body invocation, Run.Keeps Complete (exec body invocation)) (n : Nat)
    (r : Request κ α) : Run.Keeps Complete (recorder.perform exec n r) := by
  by_cases hk : r.makesKeys = false
  · rw [perform_of_not_makesKeys n hk]
    exact Run.keeps_iff_agree.2 <|
      settlingLockstep.perform (fun _ _ => Run.keeps_iff_agree.1 (he _ _)) n hk
        (Request.within_step (fun _ => trivial) fun _ _ _ _ => trivial)
  · intro w complete
    cases r with
    | newKey =>
        change Counted w.names.nextKey.2.keys ((w.notes ++ [key w.names.nextKey.1]).flatMap texts)
        simpa [texts] using complete.nextKey
    | newName display =>
        change Counted (w.names.nextName display).2.keys
          ((w.notes ++ [ofDisplay display (w.names.nextName display).1]).flatMap texts)
        simpa using complete.nextName display
    | _ => exact absurd rfl hk

theorem keeps_run (client : Client κ σ) (fuel : Nat) (p : Program κ σ) :
    Run.Keeps Complete (recorder.run client fuel p) :=
  recorder.keeps_run (fun _ => lockstep.toPlainLockstep) (fun _ complete => complete)
    (fun he n _ r _ => keeps_perform (he ()) n r)
    (fun hr he _ => recorder.keeps_enter lockstep (fun _ _ _ _ _ => rfl) (hr ()) (he ()))
    client fuel p ()

/-- The first world, with the names that were made for it. -/
def start (draw : Nat → Nat) (s : σ) : World κ (σ × List Product) :=
  let first : World κ σ := .boot (.initial draw) s
  first.noted first.wellKnown.products

theorem complete_start (draw : Nat → Nat) (s : σ) :
    Complete (start draw s : World κ (σ × List Product)) := by
  have none : Counted (NameSource.initial draw).keys [] := ⟨rfl, nofun⟩
  exact ((((none.nextName (some "elementGet")).nextName (some "elementSet")).nextName
    (some "elementDelete")).nextName (some "iterator")).nextName (some "generator")

end NameSource.Product

/-- Along every run, whatever the random parts are and whenever they are switched on or off, the
strings that are generated are reserved, and up to the range of the count they are different.  So
names are equal if and only if their storage keys are, and no display that was made is a storage
key.  What is noted of a run is what its requests for keys and names answer. -/
theorem Program.names_apart (client : Client κ σ) (fuel : Nat) (p : Program κ σ)
    (draw : Nat → Nat) (s : σ) :
    (Product.recorder.run client fuel p).Agree Recorder.Forgets (p.run client fuel) ∧
    (∀ w ∈ (Product.recorder.run client fuel p (Product.start draw s)).world?,
      (w.notes.flatMap Product.texts).length = w.names.keys ∧
      (∀ text ∈ w.notes.flatMap Product.texts, StorageKey.isReserved text = true) ∧
      ((w.notes.flatMap Product.texts).take (countRange - 1)).Nodup ∧
      (∀ early, early <+: w.notes → (early.flatMap Product.texts).length < countRange →
        Product.Apart early)) ∧
    ∀ (exec : Exec κ (σ × List Product)) (n : Nat) {α : Type} (r : Request κ α),
      (r.makesKeys = true → ∀ w, ∃ a product w', Product.recorder.perform exec n r w = .value a w' ∧
        w'.notes = w.notes ++ [product] ∧ product.Answers r a) ∧
      (r.makesKeys = false → Product.recorder.perform exec n r = perform exec n r) := by
  refine ⟨Product.recorder.forgets_run client fuel p, fun w hw => ?_, fun exec n _ r =>
    ⟨Product.perform_answers n, Product.perform_of_not_makesKeys n⟩⟩
  have complete : Product.Complete w :=
    (Product.keeps_run client fuel p _ (Product.complete_start draw s)).world? w hw
  refine ⟨complete.length, fun _ => complete.isReserved, complete.nodup_take, ?_⟩
  intro early before few
  refine Product.apart_of_nodup (complete.nodup_take.sublist (List.IsPrefix.sublist ?_))
  exact List.prefix_take_iff.2 ⟨before.flatMap _, by omega⟩

/-- When the count starts again, so may the strings. -/
example :
    (NameSource.mk id false 0 0).nextKey.1 = (NameSource.mk id false countRange 0).nextKey.1 := by
  decide +kernel

end Prototypal
