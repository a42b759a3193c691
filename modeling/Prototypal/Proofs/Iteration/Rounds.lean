import Prototypal.Proofs.Arrays.Steps
import Prototypal.Proofs.Moves

/-!
# Rounds of an iteration

An iteration over an array goes by rounds.  Each compares the number of rounds before it with the
length of the array as it is by then, reads the element with that index, and visits it.  Whatever
that does to the array, the position of the iterator counts the rounds.
-/

namespace Prototypal

variable {κ σ : Type}

/-! ## Rounds -/

/-- An iteration over an array, with the position that its iterator keeps, and what it means to read
an element and to visit it. -/
structure Tour (κ σ : Type) where
  array : ObjectId
  cursor : CursorId
  read : Nat → Run κ σ Value
  visit : Value → Run κ σ Unit

namespace Tour

/-- A round: the index is below the length that the array has, and the element is read and visited,
which leaves another world. -/
structure Round (t : Tour κ σ) (i : Nat) (w : World κ σ) (v : Value) (w' : World κ σ) : Prop where
  below : ∃ length, Query.answer w (.length t.array) = some length ∧ i < length
  visits : ∃ u, t.read i (w.setCursor t.cursor ⟨.ofNat i⟩) = .value v u ∧ t.visit v u = .value () w'

theorem Round.unique {t : Tour κ σ} {i : Nat} {w u u' : World κ σ} {v v' : Value}
    (h : t.Round i w v u) (h' : t.Round i w v' u') : u = u' := by
  obtain ⟨-, _, reads, visits⟩ := h
  obtain ⟨-, _, reads', visits'⟩ := h'
  cases reads.symm.trans reads'
  cases visits.symm.trans visits'
  rfl

/-- The rounds that an iteration went through since it started: the elements that were visited, and
the world that the last visit left.  The index of a round is the number of rounds before it. -/
inductive Rounds (t : Tour κ σ) (start : World κ σ) : List Value → World κ σ → Prop
  | none : Rounds t start [] start
  | next {visited : List Value} {w w' : World κ σ} {v : Value} (past : Rounds t start visited w)
      (round : t.Round visited.length w v w') : Rounds t start (visited ++ [v]) w'

/-- How an iteration ends after the rounds that it went through: with the index of the next element
not below the length, or with the fault of a read or of a visit. -/
inductive Concludes (t : Tour κ σ) (visited : List Value) (w : World κ σ) :
    Outcome (World κ σ) Unit → Prop
  | done {length : Nat} (long : Query.answer w (.length t.array) = some length)
      (past : length ≤ visited.length) :
      Concludes t visited w (.value () (w.setCursor t.cursor ⟨.ofNat length⟩))
  | unread {length : Nat} {f : Fault} {u : World κ σ}
      (long : Query.answer w (.length t.array) = some length) (below : visited.length < length)
      (reads : t.read visited.length (w.setCursor t.cursor ⟨.ofNat visited.length⟩) = .fault f u) :
      Concludes t visited w (.fault f u)
  | refused {length : Nat} {v : Value} {f : Fault} {u u' : World κ σ}
      (long : Query.answer w (.length t.array) = some length) (below : visited.length < length)
      (reads : t.read visited.length (w.setCursor t.cursor ⟨.ofNat visited.length⟩) = .value v u)
      (visits : t.visit v u = .fault f u') : Concludes t visited w (.fault f u')

end Tour

/-! ## Array iterators -/

/-- An array iterator with its parts, and the array-like object that it is over. -/
structure ArrayIterator where
  collection : ObjectId
  cursor : CursorId
  current : ObjectId
  moveNext : ObjectId
  object : ObjectId

/-- The iterator over an object that is made next. -/
def World.nextIterator (w : World κ σ) (collection : ObjectId) : ArrayIterator where
  collection
  cursor := ⟨w.cursors.size⟩
  current := ⟨w.heap.size⟩
  moveNext := ⟨w.heap.size + 1⟩
  object := ⟨w.heap.size + 2⟩

namespace ArrayIterator

/-- The function that reads the element where the iterator stands. -/
def reader (it : ArrayIterator) : Object κ :=
  .make (.function "current" (.current it.cursor (.object it.collection))) none

/-- The function that moves the iterator. -/
def mover (it : ArrayIterator) : Object κ :=
  .make (.function "moveNext" (.moveNext it.cursor (.object it.collection))) none

/-- The iteration that the iterator makes, of client code that is run with the given fuel. -/
def tour (it : ArrayIterator) (client : Client κ σ) (m : Nat) (visitor : κ) : Tour κ σ where
  array := it.collection
  cursor := it.cursor
  read i := Access.get (execute client m) (.object it.collection) (.ofIndex i)
  visit v := discard <| execute client (m + 1) (.client visitor) (.visit v)

end ArrayIterator

/-- The world with an iterator over an object, made just now. -/
def World.addIterator (w : World κ σ) (collection : ObjectId) : World κ σ :=
  let it := w.nextIterator collection
  { w with
    heap := (((w.heap.allocate it.reader).2.allocate it.mover).2.allocate
      (.iterator w.wellKnown it.current it.moveNext)).2
    cursors := w.cursors.push .start }

theorem Iteration.makeIterator_eq (w : World κ σ) (collection : ObjectId) :
    Iteration.makeIterator (.object collection) w =
      .value (.object (w.nextIterator collection).object) (w.addIterator collection) := by
  have second (a : Object κ) : (w.heap.allocate a).2.next = ⟨w.heap.size + 1⟩ := by
    simp only [Heap.next, Heap.size_allocate]
  have third (a b : Object κ) :
      ((w.heap.allocate a).2.allocate b).2.next = ⟨w.heap.size + 2⟩ := by
    simp only [Heap.next, Heap.size_allocate]
  let it := w.nextIterator collection
  have made : Iteration.makeIterator (.object collection) w = .value
      (.object ((w.heap.allocate it.reader).2.allocate it.mover).2.next)
      { w with
        heap := (((w.heap.allocate it.reader).2.allocate it.mover).2.allocate
          (.iterator w.wellKnown w.heap.next (w.heap.allocate it.reader).2.next)).2
        cursors := w.cursors.push .start } := rfl
  rw [made, third, second]
  rfl

/-! ### The world with the iterator -/

namespace World

variable {w : World κ σ} {collection : ObjectId}

theorem get_addIterator {o : ObjectId} (ho : w.heap.contains o = true) :
    (w.addIterator collection).heap.get o = w.heap.get o := by
  have first := Heap.contains_allocate (w.nextIterator collection).reader ho
  refine (Heap.get_allocate_of_contains _ (Heap.contains_allocate _ first)).trans ?_
  exact (Heap.get_allocate_of_contains _ first).trans (Heap.get_allocate_of_contains _ ho)

theorem get_addIterator_current :
    (w.addIterator collection).heap.get (w.nextIterator collection).current =
      (w.nextIterator collection).reader := by
  have made := Heap.contains_allocate_next w.heap (w.nextIterator collection).reader
  refine (Heap.get_allocate_of_contains _ (Heap.contains_allocate _ made)).trans ?_
  exact (Heap.get_allocate_of_contains _ made).trans (Heap.get_allocate_next ..)

theorem get_addIterator_moveNext :
    (w.addIterator collection).heap.get (w.nextIterator collection).moveNext =
      (w.nextIterator collection).mover := by
  have next : (w.heap.allocate (w.nextIterator collection).reader).2.next =
      (w.nextIterator collection).moveNext := congrArg ObjectId.mk (Heap.size_allocate ..)
  have made := Heap.contains_allocate_next (w.heap.allocate (w.nextIterator collection).reader).2
    (w.nextIterator collection).mover
  rw [next] at made
  refine (Heap.get_allocate_of_contains _ made).trans ?_
  rw [← next]
  exact Heap.get_allocate_next ..

theorem get_addIterator_object :
    (w.addIterator collection).heap.get (w.nextIterator collection).object =
      .iterator w.wellKnown (w.nextIterator collection).current
        (w.nextIterator collection).moveNext := by
  have next : ((w.heap.allocate (w.nextIterator collection).reader).2.allocate
      (w.nextIterator collection).mover).2.next = (w.nextIterator collection).object := by
    rw [Heap.next, Heap.size_allocate, Heap.size_allocate]
    rfl
  rw [← next]
  exact Heap.get_allocate_next ..

end World

theorem Object.getOwn_iterator_current (names : WellKnownNames) (current moveNext : ObjectId) :
    (Object.iterator names current moveNext : Object κ).getOwn .current =
      some ⟨.accessor (some current) none, false, true⟩ := by
  rw [getOwn_of_not_array rfl]
  refine (Table.find?_put_of_ne _ _ (by nofun)).trans ?_
  refine (Table.find?_put_of_ne _ _ (by decide)).trans ?_
  exact Table.find?_put_self ..

theorem Object.getOwn_iterator_moveNext (names : WellKnownNames) (current moveNext : ObjectId) :
    (Object.iterator names current moveNext : Object κ).getOwn .moveNext =
      some (.hidden (.object moveNext)) := by
  rw [getOwn_of_not_array rfl]
  refine (Table.find?_put_of_ne _ _ (by nofun)).trans ?_
  exact Table.find?_put_self ..

namespace ArrayIterator

/-- The position of an iterator and its `current` member are left as they were. -/
structure Spared (it : ArrayIterator) (w w' : World κ σ) : Prop where
  cursor : w'.cursor it.cursor = w.cursor it.cursor
  current : ((w'.heap.get it.object).getOwn .current).map Property.slot =
    ((w.heap.get it.object).getOwn .current).map Property.slot

/-- An iterator before a round: its functions do what they were made for, and the index that it
tries next is the number of rounds. -/
structure Stands (it : ArrayIterator) (rounds : Nat) (w : World κ σ) : Prop where
  reads : (w.heap.get it.current).body? = some (.current it.cursor (.object it.collection))
  moves : (w.heap.get it.moveNext).body? = some (.moveNext it.cursor (.object it.collection))
  current : ((w.heap.get it.object).getOwn .current).map Property.slot =
    some (.accessor (some it.current) none)
  there : it.cursor.index < w.cursors.size
  next : (w.cursor it.cursor).next.toNat = rounds

end ArrayIterator

theorem World.stands_addIterator (w : World κ σ) (collection : ObjectId) :
    (w.nextIterator collection).Stands 0 (w.addIterator collection) where
  reads := by
    rw [World.get_addIterator_current]
    rfl
  moves := by
    rw [World.get_addIterator_moveNext]
    rfl
  current := by rw [World.get_addIterator_object, Object.getOwn_iterator_current, Option.map_some]
  there := by simp [World.addIterator, World.nextIterator]
  next := by simp [World.cursor, World.addIterator, World.nextIterator, Cursor.toNat_next,
    Cursor.index?]

/-! ## One round -/

theorem World.cursor_setCursor {w : World κ σ} {c : CursorId} (hc : c.index < w.cursors.size)
    (cursor : Cursor) : (w.setCursor c cursor).cursor c = cursor := by
  simp [World.cursor, World.setCursor, hc]

/-- A position after an element is one that there is. -/
theorem World.lt_size_cursors {w : World κ σ} {c : CursorId} (hc : (w.cursor c).next.toNat ≠ 0) :
    c.index < w.cursors.size := by
  refine Nat.lt_of_not_le fun none => hc ?_
  rw [World.cursor, Array.getElem?_eq_none none]
  rfl

theorem Cursor.index?_ofNat {i : Nat} (small : i < Number.maxCount) :
    (⟨.ofNat i⟩ : Cursor).index? = some i := by
  have word : (UInt64.ofNat i).toNat = i :=
    UInt64.toNat_ofNat_of_lt' (Nat.lt_of_lt_of_le small (by decide))
  rw [Cursor.index?_eq_some (word.symm ▸ small), word]

theorem Cursor.toNat_next_ofNat {i : Nat} (small : i < Number.maxCount) :
    (⟨.ofNat i⟩ : Cursor).next.toNat = i + 1 := by
  rw [Cursor.toNat_next, Cursor.index?_ofNat small]
  rfl

namespace ArrayIterator

variable {it : ArrayIterator} {i : Nat} {w : World κ σ} {count : Value} (client : Client κ σ)
  (m : Nat)

/-- A move finds an element if the number of rounds is below what the `length` of the collection
counts. -/
theorem Stands.call_moveNext (stands : it.Stands i w)
    (counts : Access.get (execute client m) (.object it.collection) .length w = .value count w) :
    call (execute client (m + 1)) it.moveNext (.object it.object) [] w =
      if i < count.count then .value (.boolean true) (w.setCursor it.cursor ⟨.ofNat i⟩)
      else .value (.boolean false) (w.setCursor it.cursor ⟨.ofNat count.count⟩) := by
  have next : (w.cursor it.cursor).next = .ofNat i := by
    rw [← stands.next, UInt64.ofNat_toNat]
  rw [call, Run.viewHeap_bind, stands.moves]
  change Iteration.moveNext (execute client m) it.cursor (.object it.collection) w = _
  rw [Iteration.moveNext, Run.bind_of_value counts, Run.view_bind, stands.next, next]
  split <;> rfl

/-- The `current` member is the element where the iterator stands, as the collection has it. -/
theorem get_current
    (reads : (w.heap.get it.current).body? = some (.current it.cursor (.object it.collection)))
    (current : ((w.heap.get it.object).getOwn .current).map Property.slot =
      some (.accessor (some it.current) none))
    (index : (w.cursor it.cursor).index? = some i) :
    Access.get (execute client (m + 1)) (.object it.object) .current w =
      Access.get (execute client m) (.object it.collection) (.ofIndex i) w := by
  obtain ⟨p, own, slot⟩ := Option.map_eq_some_iff.1 current
  rw [Access.get_of_unreserved (by decide +kernel), Member.get, Run.viewHeap_bind, Heap.findSlot,
    Heap.find_of_own own, Option.map_some, slot]
  dsimp only
  rw [call, Run.viewHeap_bind, reads]
  change Iteration.current (execute client m) it.cursor (.object it.collection) w = _
  rw [Iteration.current, Run.view_bind, index]

variable {client m} {visitor : κ} {n : Nat}

/-- A round: the loop reads the element with the number of rounds as its index, visits it, and goes
on. -/
theorem Stands.visitAll_of_below (stands : it.Stands i w)
    (counts : Access.get (execute client m) (.object it.collection) .length w = .value count w)
    (below : i < count.count) :
    Iteration.visitAll (execute client (m + 1)) it.moveNext (.object it.object)
        (it.tour client m visitor).visit (n + 1) w =
      (do
        let v ← (it.tour client m visitor).read i
        (it.tour client m visitor).visit v
        Iteration.visitAll (execute client (m + 1)) it.moveNext (.object it.object)
          (it.tour client m visitor).visit n)
        (w.setCursor (it.tour client m visitor).cursor ⟨.ofNat i⟩) := by
  have moved := stands.call_moveNext client m counts
  rw [if_pos below] at moved
  have index : ((w.setCursor it.cursor ⟨.ofNat i⟩).cursor it.cursor).index? = some i := by
    rw [World.cursor_setCursor stands.there]
    exact Cursor.index?_ofNat (Nat.lt_of_lt_of_le below (Move.count_le count))
  have read := get_current client m (w := w.setCursor it.cursor ⟨.ofNat i⟩) stands.reads
    stands.current index
  have found : (Value.boolean true).isTruthy = true := rfl
  rw [Iteration.visitAll, Run.bind_of_value moved, if_pos found, Run.bind_apply, read]
  rfl

theorem Stands.visitAll_of_past (stands : it.Stands i w)
    (counts : Access.get (execute client m) (.object it.collection) .length w = .value count w)
    (past : count.count ≤ i) :
    Iteration.visitAll (execute client (m + 1)) it.moveNext (.object it.object)
        (it.tour client m visitor).visit (n + 1) w =
      .value () (w.setCursor (it.tour client m visitor).cursor ⟨.ofNat count.count⟩) := by
  have moved := stands.call_moveNext client m counts
  rw [if_neg (Nat.not_lt.2 past)] at moved
  have missed : ¬ (Value.boolean false).isTruthy = true := Bool.false_ne_true
  rw [Iteration.visitAll, Run.bind_of_value moved, if_neg missed]
  rfl

/-- An iterator that is left alone after a move to an element stands before the next round. -/
theorem Stands.next_round (stands : it.Stands i w) (small : i < Number.maxCount) {w' : World κ σ}
    (reads : (w'.heap.get it.current).body? = some (.current it.cursor (.object it.collection)))
    (moves : (w'.heap.get it.moveNext).body? =
      some (.moveNext it.cursor (.object it.collection)))
    (spared : it.Spared (w.setCursor it.cursor ⟨.ofNat i⟩) w') : it.Stands (i + 1) w' := by
  have next : (w'.cursor it.cursor).next.toNat = i + 1 := by
    rw [spared.cursor, World.cursor_setCursor stands.there, Cursor.toNat_next_ofNat small]
  refine ⟨reads, moves, spared.current.trans stands.current, World.lt_size_cursors ?_, next⟩
  rw [next]
  exact Nat.succ_ne_zero i

end ArrayIterator

/-! ## All rounds -/

namespace ArrayIterator

/-- Before a round over an array the iterator stands, and the array is there. -/
structure Ready (it : ArrayIterator) (rounds : Nat) (w : World κ σ) : Prop
    extends it.Stands rounds w where
  laidOut : w.heap.LaidOut
  array : ∃ elements, (w.heap.get it.collection).kind = .array elements

end ArrayIterator

theorem World.ready_addIterator {w : World κ σ} (l : w.heap.LaidOut) {array : ObjectId}
    {elements : Elements} (ho : (w.heap.get array).kind = .array elements) :
    (w.nextIterator array).Ready 0 (w.addIterator array) where
  toStands := w.stands_addIterator array
  laidOut := by
    have allocate {h : Heap κ} {object : Object κ} (l : h.LaidOut) (made : object.Made) :
        (h.allocate object).2.LaidOut :=
      l.step (show Heap.Step (fun _ _ _ => True) h _ from .allocate made)
    exact allocate (allocate (allocate l (.make (by nofun) _)) (.make (by nofun) _))
      (Object.made_iterator ..)
  array := ⟨elements, by
    rw [← ho]
    exact congrArg Object.kind (World.get_addIterator (Heap.contains_of_array ho))⟩

namespace ArrayIterator

variable {it : ArrayIterator} {i length : Nat} {w w' : World κ σ} {client : Client κ σ} {m n : Nat}
  {visitor : κ} {v : Value}

theorem Ready.exists_length (ready : it.Ready i w) :
    ∃ length, Query.answer w (.length it.collection) = some length := by
  obtain ⟨e, he⟩ := ready.array
  exact ⟨e.length, by rw [Query.answer, Object.elements?_eq_some_iff.2 he, Option.map_some]⟩

theorem Ready.get_length (ready : it.Ready i w) (client : Client κ σ) (m : Nat)
    (long : Query.answer w (.length it.collection) = some length) :
    Access.get (execute client m) (.object it.collection) .length w =
        .value (.number (.ofNat length)) w ∧
      (Value.number (.ofNat length)).count = length := by
  have array : w.heap.arrayLength? (.object it.collection) = some length := long
  obtain ⟨read, bound⟩ := Move.get_length (execute client m) ready.laidOut array
  exact ⟨read, Number.count_ofNat (Nat.le_trans bound (by decide))⟩

/-- What every step of the heap keeps is kept by every round. -/
theorem keeps_of_round {P : Heap κ → Prop}
    (hP : ∀ {h h' : Heap κ}, P h → Heap.Step (fun _ _ _ => True) h h' → P h')
    (round : (it.tour client m visitor).Round i w v w') (hw : P w.heap) : P w'.heap := by
  obtain ⟨u, reads, visits⟩ := round.visits
  have read := perform_keeps hP client m 0 (.accessGet (.object it.collection) (.ofIndex i))
  have visit := Run.keeps_iff_agree.2 (Run.keeps_iff_agree.1
    (execute_keeps hP client (m + 1) (.client visitor) (.visit v))).discard
  have moved : P (w.setCursor it.cursor ⟨.ofNat i⟩).heap := hw
  exact visit.of_value (read.of_value moved reads) visits

/-- After a round that leaves the iterator alone all is ready for the next. -/
theorem Ready.round (ready : it.Ready i w) (round : (it.tour client m visitor).Round i w v w')
    (spared : it.Spared (w.setCursor it.cursor ⟨.ofNat i⟩) w') : it.Ready (i + 1) w' where
  toStands := by
    obtain ⟨length, long, below⟩ := round.below
    obtain ⟨-, counted⟩ := ready.get_length client m long
    have small : i < Number.maxCount :=
      Nat.lt_of_lt_of_le below (counted ▸ Move.count_le (.number (.ofNat length)))
    refine ready.next_round small ?_ ?_ spared
    · exact keeps_of_round (fun h s => s.body? h) round ready.reads
    · exact keeps_of_round (fun h s => s.body? h) round ready.moves
  laidOut := keeps_of_round (fun h s => h.step s) round ready.laidOut
  array := by
    -- A step keeps arrays arrays in a heap that is laid out, so both are kept together.
    obtain ⟨-, e, he⟩ := keeps_of_round
      (P := fun h => h.LaidOut ∧ ∃ e, (h.get it.collection).kind = .array e)
      (fun ⟨laidOut, e, he⟩ s => by
        obtain ⟨e', he', -⟩ := s.rewritesArrays laidOut _ e he
        exact ⟨laidOut.step s, e', he'⟩) round ⟨ready.laidOut, ready.array⟩
    exact ⟨e, he⟩

end ArrayIterator

namespace Tour

variable {it : ArrayIterator} {client : Client κ σ} {m n : Nat} {visitor : κ} {start w : World κ σ}
  {visited : List Value} {r : Outcome (World κ σ) Unit} (made : it.Ready 0 start)
  (apart : ∀ visited w v w', (it.tour client m visitor).Rounds start visited w →
    (it.tour client m visitor).Round visited.length w v w' →
    it.Spared (w.setCursor it.cursor ⟨.ofNat visited.length⟩) w')
include made apart

/-- The iterator counts the rounds. -/
theorem Rounds.ready (past : (it.tour client m visitor).Rounds start visited w) :
    it.Ready visited.length w := by
  induction past with
  | none => exact made
  | next past round ih =>
      rw [List.length_append, List.length_singleton]
      exact ih.round round (apart _ _ _ _ past round)

/-- The rounds so far are those that the loop has done. -/
theorem Rounds.visitAll_eq (past : (it.tour client m visitor).Rounds start visited w) :
    Iteration.visitAll (execute client (m + 1)) it.moveNext (.object it.object)
        (it.tour client m visitor).visit (visited.length + n) start =
      Iteration.visitAll (execute client (m + 1)) it.moveNext (.object it.object)
        (it.tour client m visitor).visit n w := by
  induction past generalizing n with
  | none => rw [List.length_nil, Nat.zero_add]
  | @next visited w w' v past round ih =>
      have ready := past.ready made apart
      obtain ⟨length, long, below⟩ := round.below
      obtain ⟨counts, counted⟩ := ready.get_length client m long
      obtain ⟨u, reads, visits⟩ := round.visits
      rw [List.length_append, List.length_singleton, Nat.add_assoc, Nat.add_comm 1 n, ih,
        ready.visitAll_of_below counts (counted.symm ▸ below), Run.bind_of_value reads,
        Run.bind_of_value visits]

theorem Concludes.visitAll_eq (past : (it.tour client m visitor).Rounds start visited w)
    (ends : (it.tour client m visitor).Concludes visited w r) :
    Iteration.visitAll (execute client (m + 1)) it.moveNext (.object it.object)
      (it.tour client m visitor).visit (n + 1) w = r := by
  have ready := past.ready made apart
  cases ends with
  | done long past =>
      obtain ⟨counts, counted⟩ := ready.get_length client m long
      rw [ready.visitAll_of_past counts (counted.symm ▸ past), counted]
  | unread long below reads =>
      obtain ⟨counts, counted⟩ := ready.get_length client m long
      rw [ready.visitAll_of_below counts (counted.symm ▸ below), Run.bind_of_fault reads]
  | refused long below reads visits =>
      obtain ⟨counts, counted⟩ := ready.get_length client m long
      rw [ready.visitAll_of_below counts (counted.symm ▸ below), Run.bind_of_value reads,
        Run.bind_of_fault visits]

/-- A loop that ends was through some rounds and then came to its end. -/
theorem exists_concludes (ended : r ≠ .exhausted)
    (past : (it.tour client m visitor).Rounds start visited w)
    (loop : Iteration.visitAll (execute client (m + 1)) it.moveNext (.object it.object)
      (it.tour client m visitor).visit n w = r) :
    ∃ visited' w', visited'.length < visited.length + n ∧
      (it.tour client m visitor).Rounds start visited' w' ∧
      (it.tour client m visitor).Concludes visited' w' r := by
  -- Each unit of fuel is for one round, which ends the loop or is added to those before it.
  induction n generalizing visited w with
  | zero => exact absurd loop.symm ended
  | succ n ih =>
      have ready := past.ready made apart
      obtain ⟨length, long⟩ := ready.exists_length
      obtain ⟨counts, counted⟩ := ready.get_length client m long
      by_cases below : visited.length < length
      · rw [ready.visitAll_of_below counts (counted.symm ▸ below), Run.bind_apply] at loop
        split at loop
        · next v u reads =>
          rw [Run.bind_apply] at loop
          split at loop
          · next u' visits =>
            obtain ⟨visited', w', fewer, rounds, ends⟩ :=
              ih (past.next ⟨⟨length, long, below⟩, u, reads, visits⟩) loop
            rw [List.length_append, List.length_singleton] at fewer
            exact ⟨visited', w', by omega, rounds, ends⟩
          · next visits =>
            subst loop
            exact ⟨visited, w, by omega, past, .refused long below reads visits⟩
          · exact absurd loop.symm ended
        · next reads =>
          subst loop
          exact ⟨visited, w, by omega, past, .unread long below reads⟩
        · exact absurd loop.symm ended
      · have past' : (Value.number (.ofNat length)).count ≤ visited.length :=
          counted.symm ▸ Nat.le_of_not_lt below
        rw [ready.visitAll_of_past counts past', counted] at loop
        subst loop
        exact ⟨visited, w, by omega, past, .done long (Nat.le_of_not_lt below)⟩

end Tour

/-! ## Whole iterations -/

section
variable {w : World κ σ} {collection method : ObjectId} {writable : Bool}
  (slot : w.heap.findSlot collection (.name w.wellKnown.iterator) =
    some (.data (.object method) writable))
  (builtIn : (w.heap.get method).body? = some .iterate)
  (unmarked : w.heap.has collection (.name w.wellKnown.generator) = false)
include slot builtIn unmarked

/-- An object without a mark of an iterator gets an iterator from the method that makes them. -/
theorem Iteration.iterator_eq (client : Client κ σ) (m : Nat) :
    Iteration.iterator (execute client (m + 1)) (.object collection) w =
      .value (.object (w.nextIterator collection).object) (w.addIterator collection) := by
  have found : w.heap.callable? (.object method) = some method :=
    Option.filter_some_pos (by rw [Object.isCallable, builtIn]; rfl)
  have read : Access.get (execute client (m + 1)) (.object collection)
      (.name w.wellKnown.iterator) w = .value (.object method) w := by
    rw [Access.get_of_unreserved rfl, Member.get, Run.viewHeap_bind, slot]
    rfl
  rw [Iteration.iterator, Run.view_bind, Run.viewHeap_bind, Value.object?, Option.any_some,
    unmarked, if_neg Bool.false_ne_true, Run.bind_of_value read, Run.viewHeap_bind, found]
  dsimp only
  rw [call, Run.viewHeap_bind, builtIn]
  exact Iteration.makeIterator_eq w collection

theorem Iteration.forEach_eq_visitAll (client : Client κ σ) (m n : Nat)
    (visit : Value → Run κ σ Unit) :
    Iteration.forEach (execute client (m + 1)) n (.object collection) visit w =
      Iteration.visitAll (execute client (m + 1)) (w.nextIterator collection).moveNext
        (.object (w.nextIterator collection).object) visit n (w.addIterator collection) := by
  let it := w.nextIterator collection
  let w' := w.addIterator collection
  have own : (w'.heap.get it.object).getOwn .moveNext = some (.hidden (.object it.moveNext)) := by
    rw [World.get_addIterator_object, Object.getOwn_iterator_moveNext]
  have read : Access.get (execute client (m + 1)) (.object it.object) .moveNext w' =
      .value (.object it.moveNext) w' := by
    rw [Access.get_of_unreserved (by decide +kernel)]
    exact Member.get_of_own (by rw [own]; rfl) _
  have callable : w'.heap.callable? (.object it.moveNext) = some it.moveNext :=
    Option.filter_some_pos (by rw [World.get_addIterator_moveNext]; rfl)
  rw [Iteration.forEach, Run.bind_of_value (iterator_eq slot builtIn unmarked client m),
    Run.bind_of_value read, Run.viewHeap_bind, callable]

end

/-- An iteration over an array goes by rounds and visits, one after the other, the elements with the
indices 0, 1, 2, … as the array has them by then.  It goes on as long as the index is below the
length that the array has by then, ends without a fault at the first index that is not, and with the
fault of a read or a visit as soon as there is one.  Visits, and what is run to read an element, may
change the array and whatever else there is, except for the iterator, which only the loop knows. -/
theorem World.Reached.forEach_rounds {w : World κ σ} (hw : w.Reached) {array method : ObjectId}
    {elements : Elements} {writable : Bool} (ho : (w.heap.get array).kind = .array elements)
    (slot : w.heap.findSlot array (.name w.wellKnown.iterator) =
      some (.data (.object method) writable))
    (builtIn : (w.heap.get method).body? = some .iterate)
    (unmarked : w.heap.has array (.name w.wellKnown.generator) = false)
    (client : Client κ σ) (m : Nat) (visitor : κ)
    (apart : ∀ visited u v u', ((w.nextIterator array).tour client m visitor).Rounds
      (w.addIterator array) visited u →
      ((w.nextIterator array).tour client m visitor).Round visited.length u v u' →
      (w.nextIterator array).Spared
        (u.setCursor (w.nextIterator array).cursor ⟨.ofNat visited.length⟩) u') :
    let t := (w.nextIterator array).tour client m visitor
    let start := w.addIterator array
    (∀ visited u, t.Rounds start visited u →
      ∃ length, Query.answer u (.length array) = some length) ∧
    ∀ n r, r ≠ .exhausted →
      (perform (execute client (m + 1)) n (.forEach (.object array) visitor) w = r ↔
        ∃ visited u, visited.length < n ∧ t.Rounds start visited u ∧ t.Concludes visited u r) := by
  intro t start
  have made := World.ready_addIterator hw.laidOut ho
  refine ⟨fun visited u past => (past.ready made apart).exists_length, fun n r ended => ?_⟩
  have loop : perform (execute client (m + 1)) n (.forEach (.object array) visitor) w =
      Iteration.visitAll (execute client (m + 1)) (w.nextIterator array).moveNext
        (.object (w.nextIterator array).object) t.visit n start :=
    Iteration.forEach_eq_visitAll slot builtIn unmarked client m n t.visit
  rw [loop]
  constructor
  · intro ran
    obtain ⟨visited, u, fewer, past, ends⟩ := Tour.exists_concludes made apart ended .none ran
    exact ⟨visited, u, by simpa using fewer, past, ends⟩
  · rintro ⟨visited, u, fewer, past, ends⟩
    obtain ⟨rest, rfl⟩ := Nat.exists_eq_add_of_lt fewer
    rw [Nat.add_assoc, past.visitAll_eq made apart, ends.visitAll_eq made apart past]

/-- The visitor of the first of two elements appends a third and then cuts the array to one, so that
the iteration ends after one round. -/
theorem World.Reached.forEach_rounds_cut :
    let array := ObjectId.mk 2
    let client : Client Unit Unit := fun _ _ => .ask (.push array .null) fun _ =>
      .ask (.define array .length (.onlyValue (.number (.ofNat 1)))) fun _ => .done (.ok .null)
    ∃ w : World Unit Unit, w.Reached ∧
      Query.answer w (.elements array) = some [.string "a", .string "b"] ∧
      ∃ u, ((w.nextIterator array).tour client 0 ()).Rounds (w.addIterator array) [.string "a"] u ∧
        Query.answer u (.length array) = some 1 ∧
        perform (execute client 1) 2 (.forEach (.object array) ()) w =
          .value () (u.setCursor (w.nextIterator array).cursor ⟨1⟩) := by
  intro array client
  let round (w : World Unit Unit) : Run Unit Unit Bool :=
    let t := (w.nextIterator array).tour client 0 ()
    do
      let v ← t.read 0
      t.visit v
      Run.view fun u => v = .string "a" ∧ Query.answer u (.length array) = some 1 ∧
        ((u.heap.get (w.nextIterator array).object).getOwn .current).map Property.slot =
          some (.accessor (some (w.nextIterator array).current) none) ∧
        u.cursor (w.nextIterator array).cursor = ⟨0⟩
  obtain ⟨w, reached, facts⟩ := World.exists_reached client 0
    (.ask (.newObject none) fun _ => .ask (.installIterator ⟨0⟩) fun _ =>
      .ask (.newArray [.string "a", .string "b"] (some ⟨0⟩)) fun _ =>
      .ask .newKey fun _ => .done (.ok .null))
    (.initial id) ()
    (fun w : World Unit Unit => (
      decide (Query.answer w (.elements array) = some [.string "a", .string "b"] ∧
        w.heap.findSlot array (.name w.wellKnown.iterator) = some (.data (.object ⟨1⟩) true) ∧
        (w.heap.get ⟨1⟩).body? = some .iterate ∧
        w.heap.has array (.name w.wellKnown.generator) = false),
      (round w ((w.addIterator array).setCursor (w.nextIterator array).cursor ⟨0⟩)).value?))
    (show _ = some (true, some true) by decide +kernel)
  simp only [Prod.mk.injEq, decide_eq_true_eq] at facts
  obtain ⟨⟨elements, slot, builtIn, unmarked⟩, ran⟩ := facts
  obtain ⟨e, kept, listed⟩ := Option.map_eq_some_iff.1 elements
  have isArray := Object.elements?_eq_some_iff.1 kept
  have long : Query.answer (w.addIterator array) (.length array) = some 2 := by
    rw [Query.answer, World.get_addIterator (Heap.contains_of_array isArray), kept,
      Option.map_some, ← e.length_toList, listed]
    rfl
  have start := w.stands_addIterator array
  let t := (w.nextIterator array).tour client 0 ()
  obtain ⟨u, cut, current, cursor, first⟩ : ∃ u, Query.answer u (.length array) = some 1 ∧
      ((u.heap.get (w.nextIterator array).object).getOwn .current).map Property.slot =
        some (.accessor (some (w.nextIterator array).current) none) ∧
      u.cursor t.cursor = ⟨0⟩ ∧ t.Round 0 (w.addIterator array) (.string "a") u := by
    obtain ⟨_, ran⟩ := Outcome.exists_value ran
    obtain ⟨v, _, reads, ran⟩ := Run.bind_eq_value ran
    obtain ⟨_, u, visits, ran⟩ := Run.bind_eq_value ran
    injection ran with seen
    obtain ⟨rfl, cut, current, cursor⟩ := of_decide_eq_true seen
    exact ⟨u, cut, current, cursor, ⟨2, long, by decide⟩, _, reads, visits⟩
  have only {visited : List Value} {u₁ u' : World Unit Unit} {v : Value}
      (past : t.Rounds (w.addIterator array) visited u₁)
      (round : t.Round visited.length u₁ v u') :
      visited = [] ∧ u₁ = w.addIterator array ∧ u' = u := by
    induction past generalizing v u' with
    | none => exact ⟨rfl, rfl, round.unique first⟩
    | next past last ih =>
        obtain ⟨rfl, rfl, rfl⟩ := ih last
        obtain ⟨⟨_, long, below⟩, -⟩ := round
        cases cut.symm.trans long
        exact absurd below (Nat.lt_irrefl 1)
  have rounds := reached.forEach_rounds isArray slot builtIn unmarked client 0 ()
    fun visited u₁ v u' past round => by
      obtain ⟨rfl, rfl, rfl⟩ := only past round
      exact ⟨cursor.trans (World.cursor_setCursor start.there _).symm,
        current.trans start.current.symm⟩
  exact ⟨w, reached, elements, u, .next .none first, cut,
    (rounds.2 2 (.value () _) (by rintro ⟨⟩)).2
      ⟨_, u, by decide, .next .none first, .done cut (by decide)⟩⟩

end Prototypal
