import Prototypal.Proofs.Blindness.Reserved
import Prototypal.Proofs.Iteration.Rounds
import Prototypal.Proofs.StoreLaws

/-!
# Spreading and visiting

A spread reads the `length` of an object once and then its elements; an iteration asks for the
length before each element.  Over an object without accessors on its chain both come to the same
values, which an array that inherits no elements has as its own.
-/

namespace Prototypal

variable {κ σ α β : Type}

/-! ## Array-like objects -/

/-- How many elements a value announces as a `length`: the whole part of a finite positive number,
and none for any other value. -/
def Value.extent (v : Value) : Nat :=
  (v.number?.bind Number.toRat?).elim 0 fun q => q.floor.toNat

/-- The value of the nearest property under a key, where that is a data property. -/
def Heap.valueAt (h : Heap κ) (o : ObjectId) (k : Key) : Value :=
  ((h.find o k).bind Property.value?).getD .undefined

/-- No accessor is on the chain of the object, and its `length`, where it is a number, is finite and
below 2⁵³. -/
structure Heap.ArrayLike (h : Heap κ) (o : ObjectId) : Prop where
  plain (k : Key) : h.PlainAt o k
  bound {x : Number} : h.valueAt o .length = .number x → ∃ q, x.toRat? = some q ∧ q < Nat.pow 2 53

/-- The values of an array-like object from its first element on. -/
def Heap.values (h : Heap κ) (o : ObjectId) : List Value :=
  (List.range (h.valueAt o .length).extent).map fun i => h.valueAt o (.ofIndex i)

/-- The length that a value announces is the one that is counted with, if it is small enough. -/
theorem Value.count_eq_extent {v : Value}
    (bound : ∀ {x}, v = .number x → ∃ q, x.toRat? = some q ∧ q < Nat.pow 2 53) :
    v.count = v.extent := by
  cases v with
  | number x =>
      obtain ⟨q, value, small⟩ := bound rfl
      have exact : (Value.number x).extent = q.floor.toNat := by
        rw [extent, number?, Option.bind_some, value]
        rfl
      rw [exact]
      cases x with
      | finite =>
          cases value
          have below : q.floor.toNat ≤ Number.maxCount := by
            have small : q.floor < (Nat.pow 2 53 : Nat) := Rat.floor_lt_iff.2 small
            have : Nat.pow 2 53 ≤ Number.maxCount := by decide
            omega
          exact Nat.min_eq_left below
      | negativeZero =>
          cases value
          rfl
      | nan => cases value
      | infinity => cases value
  | _ => rfl

theorem Heap.length_values (h : Heap κ) (o : ObjectId) :
    (h.values o).length = (h.valueAt o .length).extent := by
  rw [values, List.length_map, List.length_range]

theorem Heap.getElem_values {h : Heap κ} {o : ObjectId} {i : Nat} (hi : i < (h.values o).length) :
    (h.values o)[i] = h.valueAt o (.ofIndex i) := by
  simp only [values, List.getElem_map, List.getElem_range]

theorem Heap.ArrayLike.count_length {h : Heap κ} {o : ObjectId} (a : h.ArrayLike o) :
    (h.valueAt o .length).count = (h.values o).length := by
  rw [Value.count_eq_extent a.bound, length_values]

/-! ## Reading -/

theorem Key.isReserved_ofIndex (i : Nat) : (Key.ofIndex i).isReserved = false := by
  refine Bool.eq_false_iff.2 fun reserved => ?_
  -- A reserved text starts with an underscore, which is no digit.
  obtain ⟨rest, text⟩ := StorageKey.toList_of_isReserved reserved
  rw [Nat.toList_repr] at text
  have digit : '_'.isDigit = true :=
    Nat.isDigit_of_mem_toDigits (by decide) (by decide) (text ▸ List.mem_cons_self)
  exact absurd digit (by decide)

/-- The value that access reads in a world, whatever code there is; the world stays as it is. -/
def World.Reads (w : World κ σ) (o : ObjectId) (k : Key) (v : Value) : Prop :=
  ∀ (exec : Exec κ σ) n, perform exec n (.accessGet (.object o) k) w = .value v w

/-- A value without accessors on the chain is read wherever the key is looked up alike. -/
theorem World.reads_of_plain {h : Heap κ} {w : World κ σ} {o : ObjectId} {k : Key}
    (hk : k.isReserved = false) (plain : h.PlainAt o k) (same : w.heap.find o k = h.find o k) :
    w.Reads o k (h.valueAt o k) := by
  intro exec n
  change Access.get exec (.object o) k w = _
  rw [Access.get_of_unreserved hk, Heap.valueAt, ← same]
  exact Member.get_of_plain (fun p found => plain.find (same ▸ found)) _

namespace Heap.ArrayLike

variable {h : Heap κ} {w : World κ σ} {o : ObjectId} (a : h.ArrayLike o)
  (same : ∀ k, w.heap.find o k = h.find o k)
include a same

theorem reads_length : w.Reads o .length (h.valueAt o .length) :=
  World.reads_of_plain (by decide +kernel) (a.plain _) (same _)

theorem reads_index (i : Nat) : w.Reads o (.ofIndex i) (h.valueAt o (.ofIndex i)) :=
  World.reads_of_plain (Key.isReserved_ofIndex i) (a.plain _) (same _)

end Heap.ArrayLike

/-! ## Spreading -/

/-- The values that an item of an argument list stands for: itself, nothing where nothing is to
spread, or as many elements of an object as its `length` announces. -/
inductive SpreadItem.StandsFor (w : World κ σ) : SpreadItem → List Value → Prop
  | plain (v : Value) : StandsFor w (.plain v) [v]
  | nullish {v : Value} (none : v.isNullish = true) : StandsFor w (.spread v) []
  | elements {o : ObjectId} {length : Value} {values : List Value} (long : w.Reads o .length length)
      (count : values.length = length.extent)
      (each : ∀ i (hi : i < values.length), w.Reads o (.ofIndex i) values[i]) :
      StandsFor w (.spread (.object o)) values

/-- An item that spreads a value which is neither an object nor nothing. -/
def SpreadItem.Unspreadable : SpreadItem → Prop
  | .plain _ => False
  | .spread v => v.isNullish = false ∧ v.object? = none

instance : DecidablePred SpreadItem.Unspreadable
  | .plain _ => .isFalse id
  | .spread _ => inferInstanceAs (Decidable (_ ∧ _))

theorem Run.mapM_of_value {l : List α} {f : α → Run κ σ β} {g : α → β} {w : World κ σ}
    (h : ∀ a ∈ l, f a w = .value (g a) w) : l.mapM f w = .value (l.map g) w := by
  induction l with
  | nil => rfl
  | cons a l ih =>
      rw [List.mapM_cons, Run.bind_of_value (h a List.mem_cons_self),
        Run.bind_of_value (ih fun b hb => h b (List.mem_cons_of_mem a hb))]
      rfl

theorem SpreadItem.standsFor_values {w : World κ σ} {o : ObjectId} (a : w.heap.ArrayLike o) :
    StandsFor w (.spread (.object o)) (w.heap.values o) := by
  refine .elements (a.reads_length fun _ => rfl) (w.heap.length_values o) fun i hi => ?_
  rw [Heap.getElem_values]
  exact a.reads_index (fun _ => rfl) i

namespace Spread

variable {w : World κ σ}

theorem expand_object {o : ObjectId} (a : w.heap.ArrayLike o) (exec : Exec κ σ) :
    expand exec (.spread (.object o)) w = .value (w.heap.values o) w := by
  have long : Access.get exec (.object o) .length w = .value (w.heap.valueAt o .length) w :=
    a.reads_length (fun _ => rfl) exec 0
  change elements exec (.object o) w = _
  rw [elements_eq_mapM, Run.bind_of_value long, Value.count_eq_extent a.bound]
  exact Run.mapM_of_value fun i _ => a.reads_index (fun _ => rfl) i exec 0

/-- An item over array-like objects is expanded to what it stands for, unless it spreads a value
that is neither an object nor nothing. -/
theorem expand_cases (item : SpreadItem)
    (a : ∀ o, item = .spread (.object o) → w.heap.ArrayLike o) :
    (item.Unspreadable ∧ ∀ exec : Exec κ σ, expand exec item w = .fault .notSpreadable w) ∨
      ¬ item.Unspreadable ∧ ∃ values, SpreadItem.StandsFor w item values ∧
        ∀ exec : Exec κ σ, expand exec item w = .value values w := by
  cases item with
  | plain v => exact .inr ⟨id, _, .plain v, fun _ => rfl⟩
  | spread v =>
      cases v with
      | undefined => exact .inr ⟨nofun, _, .nullish rfl, fun _ => rfl⟩
      | null => exact .inr ⟨nofun, _, .nullish rfl, fun _ => rfl⟩
      | object o =>
          exact .inr ⟨nofun, _, SpreadItem.standsFor_values (a o rfl), expand_object (a o rfl)⟩
      | boolean => exact .inl ⟨⟨rfl, rfl⟩, fun _ => rfl⟩
      | number => exact .inl ⟨⟨rfl, rfl⟩, fun _ => rfl⟩
      | string => exact .inl ⟨⟨rfl, rfl⟩, fun _ => rfl⟩
      | name => exact .inl ⟨⟨rfl, rfl⟩, fun _ => rfl⟩

/-- The items are expanded one after the other; the first that cannot be spread is the fault. -/
theorem mapM_expand_cases (items : List SpreadItem)
    (a : ∀ o, .spread (.object o) ∈ items → w.heap.ArrayLike o) :
    ((∃ item ∈ items, item.Unspreadable) ∧
        ∀ exec : Exec κ σ, items.mapM (expand exec) w = .fault .notSpreadable w) ∨
      (¬ ∃ item ∈ items, item.Unspreadable) ∧
        ∃ lists, List.Forall₂ (SpreadItem.StandsFor w) items lists ∧
          ∀ exec : Exec κ σ, items.mapM (expand exec) w = .value lists w := by
  induction items with
  | nil => exact .inr ⟨nofun, [], .nil, fun _ => rfl⟩
  | cons item items ih =>
      rcases expand_cases item fun o ho => a o (ho ▸ List.mem_cons_self) with
        ⟨bad, fault⟩ | ⟨good, values, stands, expands⟩
      · refine .inl ⟨⟨item, List.mem_cons_self, bad⟩, fun exec => ?_⟩
        rw [List.mapM_cons, Run.bind_of_fault (fault exec)]
      · rcases ih fun o ho => a o (List.mem_cons_of_mem _ ho) with
          ⟨⟨other, mem, bad⟩, fault⟩ | ⟨rest, lists, stand, expand⟩
        · refine .inl ⟨⟨other, List.mem_cons_of_mem _ mem, bad⟩, fun exec => ?_⟩
          rw [List.mapM_cons, Run.bind_of_value (expands exec), Run.bind_of_fault (fault exec)]
        · refine .inr ⟨?_, values :: lists, .cons stands stand, fun exec => ?_⟩
          · simpa [good] using rest
          · rw [List.mapM_cons, Run.bind_of_value (expands exec), Run.bind_of_value (expand exec)]
            rfl

end Spread

/-! ## Visiting -/

theorem Run.discard_of_value {x : Run κ σ α} {w w' : World κ σ} {a : α} (h : x w = .value a w') :
    (discard x) w = .value () w' := Run.bind_of_value h

/-- The world in which an iteration moved its iterator and its visitor changed the state of the
client, and nothing else. -/
def World.during (w : World κ σ) (c : CursorId) (cursor : Cursor) (client : σ) : World κ σ :=
  { w.setCursor c cursor with client }

theorem World.setCursor_during (w : World κ σ) (c : CursorId) (cursor later : Cursor) (client : σ) :
    (w.during c cursor client).setCursor c later = w.during c later client := by
  simp [during, setCursor]

/-- A visitor that notes what it visits in the state of the client and changes nothing else. -/
def Client.Notes (client : Client κ σ) (m : Nat) (visitor : κ) (note : σ → Value → σ)
    (start : World κ σ) (c : CursorId) : Prop :=
  ∀ v cursor s, ∃ x, execute client (m + 1) (.client visitor) (.visit v) (start.during c cursor s) =
    .value x (start.during c cursor (note s v))

namespace ArrayIterator

variable {it : ArrayIterator} {start : World κ σ}

theorem Stands.during {i j : Nat} {cursor : Cursor} {s : σ} (stands : it.Stands i start)
    (next : cursor.next.toNat = j) : it.Stands j (start.during it.cursor cursor s) where
  reads := stands.reads
  moves := stands.moves
  current := stands.current
  there := by
    rw [World.during, World.setCursor, Array.size_setIfInBounds]
    exact stands.there
  next := by
    rw [← next]
    exact congrArg (·.next.toNat) (World.cursor_setCursor stands.there cursor)

/-- Where the collection stays as it is, the loop visits its values from the next index on. -/
theorem Stands.visitAll_notes (stands : it.Stands 0 start) {values : List Value} {count : Value}
    (counted : count.count = values.length)
    (counts : ∀ cursor s, (start.during it.cursor cursor s).Reads it.collection .length count)
    (each : ∀ i (hi : i < values.length) cursor s,
      (start.during it.cursor cursor s).Reads it.collection (.ofIndex i) values[i])
    {client : Client κ σ} {m : Nat} {visitor : κ} {note : σ → Value → σ}
    (notes : client.Notes m visitor note start it.cursor) {n i : Nat} {cursor : Cursor} (s : σ)
    (next : cursor.next.toNat = i) (hi : i ≤ values.length) (hn : values.length < i + n) :
    Iteration.visitAll (execute client (m + 1)) it.moveNext (.object it.object)
        (it.tour client m visitor).visit n (start.during it.cursor cursor s) =
      .value () (start.during it.cursor ⟨.ofNat values.length⟩ ((values.drop i).foldl note s)) := by
  -- The fuel is that of the rounds to come, so the index grows as it falls.
  induction n generalizing i cursor s with
  | zero => omega
  | succ n ih =>
      have stands' := stands.during (s := s) next
      have read := counts cursor s (execute client m) 0
      have moved (later : Cursor) : (start.during it.cursor cursor s).setCursor
          (it.tour client m visitor).cursor later = start.during it.cursor later s :=
        start.setCursor_during ..
      rcases Nat.lt_or_eq_of_le hi with below | rfl
      · obtain ⟨x, visits⟩ := notes values[i] ⟨.ofNat i⟩ s
        have small : i < Number.maxCount :=
          Nat.lt_of_lt_of_le below (counted ▸ Move.count_le count)
        have after := Cursor.toNat_next_ofNat small
        have element : (it.tour client m visitor).read i (start.during it.cursor ⟨.ofNat i⟩ s) =
            .value values[i] _ := each i below ⟨.ofNat i⟩ s (execute client m) 0
        have visited : (it.tour client m visitor).visit values[i] _ = .value () _ :=
          Run.discard_of_value visits
        rw [stands'.visitAll_of_below read (counted ▸ below), moved, Run.bind_of_value element,
          Run.bind_of_value visited, ih _ after below (by omega), ← List.getElem_cons_drop below,
          List.foldl_cons]
      · rw [stands'.visitAll_of_past read (Nat.le_of_eq counted), counted, moved, List.drop_length,
          List.foldl_nil]

end ArrayIterator

/-! ## Objects that an iterator does not change -/

/-- Lookup on an old chain is as it was where old objects are as they were. -/
theorem Heap.Grounded.find_of_grown {h h' : Heap κ} (g : h.Grounded) (g' : h'.Grounded)
    (same : ∀ q, h.contains q = true → h'.get q = h.get q) {o : ObjectId}
    (ho : h.contains o = true) (k : Key) : h'.find o k = h.find o k := by
  -- More objects make the search longer, so the induction is along the chain.
  induction o using g.acyclic.induction with
  | _ o ih =>
    rw [g.find_eq, g'.find_eq, same o ho]
    cases inherits : (h.get o).prototype with
    | none => rfl
    | some p => rw [Option.bind_some, Option.bind_some, ih p inherits (g.made inherits)]

theorem World.find_addIterator {w : World κ σ} (g : w.heap.Grounded) {o : ObjectId}
    (ho : w.heap.contains o = true) (k : Key) :
    (w.addIterator o).heap.find o k = w.heap.find o k :=
  g.find_of_grown (((g.allocate _).allocate _).allocate _) (fun _ hq => World.get_addIterator hq)
    ho k

theorem World.during_addIterator (w : World κ σ) (o : ObjectId) :
    (w.addIterator o).during (w.nextIterator o).cursor .start w.client = w.addIterator o := by
  have kept : (w.cursors.push Cursor.start).setIfInBounds w.cursors.size .start =
      w.cursors.push .start := by
    simp [Array.setIfInBounds, Array.set_push]
  simp [World.during, World.setCursor, World.addIterator, World.nextIterator, kept]

theorem Iteration.visitAll_values {w : World κ σ} (g : w.heap.Grounded) {o : ObjectId}
    (ho : w.heap.contains o = true) (a : w.heap.ArrayLike o) {client : Client κ σ} {m : Nat}
    {visitor : κ} {note : σ → Value → σ}
    (notes : client.Notes m visitor note (w.addIterator o) (w.nextIterator o).cursor) {n : Nat}
    (hn : (w.heap.values o).length < n) :
    visitAll (execute client (m + 1)) (w.nextIterator o).moveNext
        (.object (w.nextIterator o).object) ((w.nextIterator o).tour client m visitor).visit n
        (w.addIterator o) =
      .value () ((w.addIterator o).during (w.nextIterator o).cursor
        ⟨.ofNat (w.heap.values o).length⟩ ((w.heap.values o).foldl note w.client)) := by
  have same (cursor : Cursor) (s : σ) (k : Key) :
      ((w.addIterator o).during (w.nextIterator o).cursor cursor s).heap.find o k =
        w.heap.find o k := World.find_addIterator g ho k
  have each (i : Nat) (hi : i < (w.heap.values o).length) (cursor : Cursor) (s : σ) :
      ((w.addIterator o).during (w.nextIterator o).cursor cursor s).Reads o (.ofIndex i)
        (w.heap.values o)[i] := by
    rw [Heap.getElem_values]
    exact a.reads_index (same cursor s) i
  have first : Cursor.start.next.toNat = 0 := rfl
  have loop := (w.stands_addIterator o).visitAll_notes a.count_length
    (fun cursor s => a.reads_length (same cursor s)) each notes w.client first (Nat.zero_le _)
    (Nat.lt_of_lt_of_eq hn (Nat.zero_add n).symm)
  rwa [World.during_addIterator, List.drop_zero] at loop

/-- An array that inherits no elements has its own, and `undefined` for its holes. -/
theorem Heap.values_of_array {h : Heap κ} (g : h.Grounded) (l : h.LaidOut) {o : ObjectId}
    {e : Elements} (ho : (h.get o).kind = .array e)
    (bare : ∀ p q k, (h.get o).prototype = some p → h.Ascends p q → k.index?.isSome = true →
      (h.get q).getOwn k = none) : h.values o = e.toList := by
  have own : (h.get o).getOwn .length = some e.lengthProperty := by
    rw [Object.getOwn, Object.place_length ho]
  have long : h.valueAt o .length = .number (.ofNat e.length) := by
    rw [valueAt, find_of_own own]
    rfl
  have extent : (Value.number (.ofNat e.length)).extent = e.length := by
    simp [Value.extent, Value.number?, Number.ofNat, Number.toRat?, Rat.floor]
  rw [values, long, extent, Elements.toList]
  refine List.map_congr_left fun i hi => ?_
  have small : i ≤ Key.maxIndex :=
    Nat.le_sub_one_of_lt (Nat.lt_of_lt_of_le (List.mem_range.1 hi) ((l o).fits ho).length)
  have index : (Key.ofIndex i).index? = some i := Key.index?_eq_some_iff.2 ⟨rfl, small⟩
  rw [valueAt, g.find_eq, Object.getOwn_ofIndex ho small]
  cases e.get? i with
  | some v => rfl
  | none =>
      have above : (h.get o).prototype.bind (h.find · (.ofIndex i)) = none := by
        refine Option.bind_eq_none_iff.2 fun p inherits => ?_
        rw [find_eq_findSome?]
        exact List.findSome?_eq_none_iff.2 fun q hq =>
          bare p q _ inherits (ascends_of_mem hq) (index ▸ rfl)
      rw [above]
      rfl

/-- Spreading and visiting agree.  A spread of items over array-like objects fails exactly when an
item spreads what is neither an object nor nothing; otherwise it gives what the items stand for, one
after the other, and it changes nothing.  An array-like object that gets the built-in iterator is
visited in the values that its spread gives, by a visitor that changes nothing but what it notes;
for an array that inherits no elements these are the elements that it has. -/
theorem World.Reached.spread_eq_visited {w : World κ σ} (hw : w.Reached) :
    (∀ items : List SpreadItem, (∀ o, .spread (.object o) ∈ items → w.heap.ArrayLike o) →
      ((∃ item ∈ items, item.Unspreadable) →
        ∃ f : Fault, f.kind = .spread ∧ ∀ exec n, perform exec n (.spread items) w = .fault f w) ∧
      ((¬ ∃ item ∈ items, item.Unspreadable) →
        ∃ lists, List.Forall₂ (SpreadItem.StandsFor w) items lists ∧
          ∀ exec n, perform exec n (.spread items) w = .value lists.flatten w)) ∧
    ∀ (o method : ObjectId) (writable : Bool), w.heap.ArrayLike o →
      w.heap.findSlot o (.name w.wellKnown.iterator) = some (.data (.object method) writable) →
      (w.heap.get method).body? = some .iterate →
      w.heap.has o (.name w.wellKnown.generator) = false →
      ∃ values, (∀ exec n, perform exec n (.spread [.spread (.object o)]) w = .value values w) ∧
        (∀ (client : Client κ σ) (m : Nat) (visitor : κ) (note : σ → Value → σ),
          client.Notes m visitor note (w.addIterator o) (w.nextIterator o).cursor →
          ∀ n, values.length < n →
            perform (execute client (m + 1)) n (.forEach (.object o) visitor) w =
              .value () ((w.addIterator o).during (w.nextIterator o).cursor
                ⟨.ofNat values.length⟩ (values.foldl note w.client))) ∧
        ∀ elements, Query.answer w (.elements o) = some elements →
          (∀ p q k, (w.heap.get o).prototype = some p → w.heap.Ascends p q →
            k.index?.isSome = true → (w.heap.get q).getOwn k = none) → elements = values := by
  refine ⟨fun items a => ⟨fun bad => ?_, fun good => ?_⟩,
    fun o method writable a slot builtIn unmarked => ⟨w.heap.values o, fun exec n => ?_,
      fun client m visitor note notes n hn => ?_, fun elements listed bare => ?_⟩⟩
  · obtain ⟨-, fault⟩ := (Spread.mapM_expand_cases items a).resolve_right fun h => h.1 bad
    exact ⟨.notSpreadable, rfl, fun exec n => Run.bind_of_fault (fault exec)⟩
  · obtain ⟨-, lists, stand, expand⟩ :=
      (Spread.mapM_expand_cases items a).resolve_left fun h => good h.1
    exact ⟨lists, stand, fun exec n => Run.bind_of_value (expand exec)⟩
  · have expanded : [SpreadItem.spread (.object o)].mapM (Spread.expand exec) w =
        .value [w.heap.values o] w := by
      rw [List.mapM_cons, Run.bind_of_value (Spread.expand_object a exec)]
      rfl
    have gathered := Run.bind_of_value (f := fun lists => pure lists.flatten) expanded
    rw [List.flatten_singleton] at gathered
    exact gathered
  · have found : w.heap.has o (.name w.wellKnown.iterator) = true := by
      obtain ⟨p, found, -⟩ := Option.map_eq_some_iff.1 slot
      rw [Heap.has, found, Option.isSome_some]
    have ho := Heap.contains_of_has found
    exact (Iteration.forEach_eq_visitAll slot builtIn unmarked client m n _).trans
      (Iteration.visitAll_values hw.grounded ho a notes hn)
  · obtain ⟨e, he, rfl⟩ := Option.map_eq_some_iff.1 listed
    have ho := Object.elements?_eq_some_iff.1 he
    exact (Heap.values_of_array hw.grounded hw.laidOut ho bare).symm

/-- Whether an object is array-like can be seen from the own keys along its chain. -/
theorem Heap.Grounded.arrayLike {h : Heap κ} (g : h.Grounded) (l : h.LaidOut) {o : ObjectId}
    {q : Rat} (plain : ((h.chain o).all fun p => (h.get p).ownKeys.all fun k =>
      !((h.get p).getOwn k).any Property.isAccessor) = true)
    (long : h.valueAt o .length = .number (.finite q)) (small : q < Nat.pow 2 53) :
    h.ArrayLike o where
  plain k p property above own := by
    have listed : k ∈ (h.get p).ownKeys := (l p).mem_ownKeys_iff.2 (own ▸ rfl)
    have data := List.all_eq_true.1 (List.all_eq_true.1 plain p (g.mem_chain_iff.2 above)) k listed
    simpa [own] using data
  bound {x} hx := by
    cases long.symm.trans hx
    exact ⟨q, rfl, small⟩

/-- Client code that keeps the elements that it visits. -/
def Client.collect : Client Unit (List Value)
  | _, .visit v => .act (fun seen => ((), seen ++ [v])) fun _ => .done (.ok .null)
  | _, _ => .done (.ok .null)

/-- An array with a hole, above which an element is inherited: the hole is spread and visited as
that element.  What the other array inherits is no element. -/
theorem World.Reached.spread_eq_visited_hole :
    let array := ObjectId.mk 3
    ∃ w : World Unit (List Value), w.Reached ∧
      (∀ exec n, perform exec n
        (.spread [.plain .null, .spread .undefined, .spread (.object array)]) w =
          .value [.null, .string "a", .string "inherited", .string "c"] w) ∧
      (∃ f : Fault, f.kind = .spread ∧ ∀ exec n, perform exec n
        (.spread [.spread (.object array), .spread (.boolean true)]) w = .fault f w) ∧
      (∃ u, perform (execute Client.collect 1) 4 (.forEach (.object array) ()) w = .value () u ∧
        u.client = [.string "a", .string "inherited", .string "c"]) ∧
      ∀ exec n, perform exec n (.spread [.spread (.object ⟨4⟩)]) w = .value [.string "d"] w := by
  intro array
  let items : List SpreadItem := [.plain .null, .spread .undefined, .spread (.object array)]
  let spread (items : List SpreadItem) (w : World Unit (List Value)) :=
    (perform (fun _ _ => Run.exhausted) 0 (.spread items) w).value?
  obtain ⟨w, reached, facts⟩ := World.exists_reached .collect 0
    (.ask (.newObject none) fun _ => .ask (.installIterator ⟨0⟩) fun _ =>
      .ask (.newObject (some ⟨0⟩)) fun _ =>
      .ask (.define ⟨2⟩ (.ofIndex 1) (.data (.string "inherited"))) fun _ =>
      .ask (.newArray [.string "a"] (some ⟨2⟩)) fun _ =>
      .ask (.define ⟨3⟩ (.ofIndex 2) (.data (.string "c"))) fun _ =>
      .ask (.newArray [.string "d"] (some ⟨0⟩)) fun _ =>
      .ask .newKey fun _ => .done (.ok .null))
    (.initial id) []
    (fun w => [
      [array, ⟨4⟩].all fun o => (w.heap.chain o).all fun q => (w.heap.get q).ownKeys.all fun k =>
        !((w.heap.get q).getOwn k).any Property.isAccessor,
      decide (w.heap.valueAt array .length = .number (.finite 3) ∧
        w.heap.valueAt ⟨4⟩ .length = .number (.finite 1)),
      [array, ⟨4⟩].all fun o =>
        w.heap.findSlot o (.name w.wellKnown.iterator) = some (.data (.object ⟨1⟩) true) ∧
        w.heap.has o (.name w.wellKnown.generator) = false,
      decide ((w.heap.get ⟨1⟩).body? = some .iterate),
      decide (spread items w = some [.null, .string "a", .string "inherited", .string "c"] ∧
        spread [.spread (.object array)] w =
          some [.string "a", .string "inherited", .string "c"]),
      decide (w.client = [] ∧ Query.answer w (.elements ⟨4⟩) = some [.string "d"]),
      (w.heap.get ⟨4⟩).prototype = some ⟨0⟩ && (w.heap.chain ⟨0⟩).all fun q =>
        (w.heap.get q).ownKeys.all (·.index?.isNone)])
    (show _ = some [true, true, true, true, true, true, true] by decide +kernel)
  simp only [List.cons.injEq, and_true, decide_eq_true_eq, List.all_cons, List.all_nil,
    Bool.and_true, Bool.and_eq_true] at facts
  obtain ⟨⟨plain, plain'⟩, ⟨long, long'⟩, ⟨⟨slot, unmarked⟩, slot', unmarked'⟩, builtIn, ⟨spreads,
    alone⟩, ⟨seen, listed⟩, prototype, bare⟩ := facts
  have a : w.heap.ArrayLike array :=
    reached.grounded.arrayLike reached.laidOut plain long (by decide +kernel)
  have a' : w.heap.ArrayLike ⟨4⟩ :=
    reached.grounded.arrayLike reached.laidOut plain' long' (by decide +kernel)
  have notes : Client.collect.Notes 0 () (fun seen v => seen ++ [v]) (w.addIterator array)
      (w.nextIterator array).cursor := fun v cursor seen => ⟨.null, rfl⟩
  obtain ⟨spreading, iterating⟩ := reached.spread_eq_visited
  obtain ⟨lists, -, given⟩ := (spreading items fun o mem => by
    obtain rfl : o = array := by simpa [items] using mem
    exact a).2 (by decide)
  have fails := (spreading [.spread (.object array), .spread (.boolean true)] fun o mem => by
    obtain rfl : o = array := by simpa using mem
    exact a).1 (by decide)
  obtain ⟨values, gives, visits, -⟩ := iterating array ⟨1⟩ true a slot builtIn unmarked
  obtain ⟨values', gives', -, own⟩ := iterating ⟨4⟩ ⟨1⟩ true a' slot' builtIn unmarked'
  have unique {items : List SpreadItem} {values values' : List Value}
      (gives : ∀ exec n, perform exec n (.spread items) w = .value values w)
      (seen : spread items w = some values') : values = values' :=
    Option.some.inj ((congrArg Outcome.value? (gives _ 0)).symm.trans seen)
  have bare (p q : ObjectId) (k : Key) (inherits : (w.heap.get ⟨4⟩).prototype = some p)
      (above : w.heap.Ascends p q) (index : k.index?.isSome = true) :
      (w.heap.get q).getOwn k = none := by
    cases prototype.symm.trans inherits
    refine Option.not_isSome_iff_eq_none.1 fun own => ?_
    have listed := (reached.laidOut q).mem_ownKeys_iff.2 own
    have none := List.all_eq_true.1
      (List.all_eq_true.1 bare q (reached.grounded.mem_chain_iff.2 above)) k listed
    rw [Option.isNone_iff_eq_none.1 none] at index
    cases index
  cases unique gives alone
  cases own _ listed bare
  exact ⟨w, reached, unique given spreads ▸ given, fails,
    ⟨_, visits .collect 0 () _ notes 4 (by decide), by rw [World.during, seen]; rfl⟩, gives'⟩

end Prototypal
