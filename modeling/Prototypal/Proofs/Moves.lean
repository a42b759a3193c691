import Prototypal.Proofs.DataProperty
import Prototypal.Proofs.Layout
import Prototypal.Proofs.Recorder

/-!
# Moves of array iterators

A move tries the index after the one where the last move left the iterator.  Where that is below the
length of the array the iterator stands at it; otherwise the iterator is left at the length, and
later moves go on from there, whatever was visited before.
-/

namespace Prototypal

variable {κ σ α : Type}

/-! ## Positions -/

namespace Cursor

/-- The next element is after the one where the cursor stands, or the first. -/
theorem toNat_next (c : Cursor) : c.next.toNat = c.index?.elim 0 (· + 1) := by
  obtain ⟨position⟩ := c
  unfold next index? start
  split
  · next first =>
    cases first
    rfl
  · next elsewhere =>
    have below : position.toNat ≠ UInt64.toNat (0 - 1) := fun same =>
      elsewhere (congrArg Cursor.mk (UInt64.toNat_inj.1 same))
    have bound : position.toNat < 2 ^ 64 := position.toNat_lt
    have last : UInt64.toNat (0 - 1) = 2 ^ 64 - 1 := rfl
    simp only [UInt64.toNat_add, UInt64.toNat_one, Option.elim_some]
    omega

theorem index?_eq_some {position : UInt64} (h : position.toNat < Number.maxCount) :
    (⟨position⟩ : Cursor).index? = some position.toNat := by
  unfold index? start
  refine if_neg fun first => ?_
  cases first
  exact absurd h (by decide)

end Cursor

/-- A move of an array iterator. -/
structure Move where
  cursor : CursorId
  /-- The length of the array before the move, where the iterator is over an array. -/
  length? : Option Nat
  /-- Whether the move found an element. -/
  found : Bool
  /-- Where the move left the iterator. -/
  index? : Option Nat
deriving DecidableEq, Repr

/-- The moves so far, the latest first. -/
abbrev Moves := List Move

/-- The index that the next move of an iterator tries. -/
def Moves.next (moves : Moves) (c : CursorId) : Nat :=
  ((moves.find? (·.cursor = c)).bind Move.index?).elim 0 (· + 1)

/-- A move does what the moves before it and the length of the array make it do. -/
structure Move.Follows (m : Move) (past : Moves) : Prop where
  found : m.found = true → m.index? = some (past.next m.cursor)
  array {length : Nat} : m.length? = some length →
    (m.found = true ↔ past.next m.cursor < length) ∧ (m.found = false → m.index? = some length)

namespace Moves

variable {m : Move} {moves : Moves} {c : CursorId}

theorem next_cons_self : Moves.next (m :: moves) m.cursor = m.index?.elim 0 (· + 1) := by
  simp [next]

theorem next_cons_of_ne (h : m.cursor ≠ c) : Moves.next (m :: moves) c = moves.next c := by
  simp [next, h]

theorem next_of_unmoved (h : ∀ m ∈ moves, m.cursor ≠ c) : moves.next c = 0 := by
  have absent : moves.find? (·.cursor = c) = none := by simpa using h
  rw [next, absent]
  rfl

/-- An iterator whose moves all found something stands at the number of those before the last. -/
theorem next_eq_countP (lawful : ∀ m past, m :: past <:+ moves → m.Follows past)
    (found : ∀ m ∈ moves, m.cursor = c → m.found = true) :
    moves.next c = moves.countP (·.cursor = c) := by
  induction moves with
  | nil => rfl
  | cons m moves ih =>
      have count := ih (fun x past suffix => lawful x past (suffix.trans (List.suffix_cons ..)))
        fun x hx => found x (List.mem_cons_of_mem _ hx)
      by_cases moved : m.cursor = c
      · subst moved
        have stands := (lawful m moves List.suffix_rfl).found (found m List.mem_cons_self rfl)
        rw [next_cons_self, stands, List.countP_cons_of_pos (by simp), ← count]
        rfl
      · rw [next_cons_of_ne moved, count, List.countP_cons_of_neg (by simpa using moved)]

end Moves

/-! ## Recorded moves -/

/-- The length of a value that is an array. -/
def Heap.arrayLength? (h : Heap κ) (v : Value) : Option Nat :=
  (v.object?.bind fun o => (h.get o).elements?).map Elements.length

/-- Notes the moves of the iterators that there are. -/
def Move.recorder : Recorder κ σ Moves where
  left
    | .moveNext cursor source, before, v, after, moves =>
      if cursor.index < after.cursors.size then
        ⟨cursor, before.heap.arrayLength? source, v = .boolean true,
          (after.cursor cursor).index?⟩ :: moves
      else moves
    | _, _, _, _, moves => moves

namespace Move

/-- The next move of every iterator tries the index that its moves lead to, and each move followed
from those before it. -/
structure Sound (h : Heap κ) (cursors : Array Cursor) (moves : Moves) : Prop where
  laidOut : h.LaidOut
  there {o : ObjectId} {c : CursorId} : (h.get o).cursor? = some c → c.index < cursors.size
  next {c : CursorId} (hc : c.index < cursors.size) : cursors[c.index].next.toNat = moves.next c
  noted {m : Move} : m ∈ moves → m.cursor.index < cursors.size
  follows {m : Move} {past : Moves} : m :: past <:+ moves → m.Follows past

namespace Sound

variable {h h' : Heap κ} {cursors : Array Cursor} {moves : Moves}

theorem boot : Sound (.empty : Heap κ) #[] [] where
  laidOut := Heap.laidOut_empty
  there {o c} moved := by
    rw [Heap.get_of_not_contains (by simp [Heap.contains, Heap.size, Heap.empty])] at moved
    cases moved
  next hc := absurd hc (Nat.not_lt_zero _)
  noted hm := absurd hm List.not_mem_nil
  follows suffix := by cases List.suffix_nil.1 suffix

theorem add (s : Sound h cursors moves) : Sound h (cursors.push .start) moves where
  laidOut := s.laidOut
  there moved := by
    rw [Array.size_push]
    exact Nat.lt_succ_of_lt (s.there moved)
  next {c} hc := by
    rw [Array.getElem_push]
    split
    · next old => exact s.next old
    · next new =>
      refine (Moves.next_of_unmoved fun m hm same => new ?_).symm
      exact same ▸ s.noted hm
  noted hm := by
    rw [Array.size_push]
    exact Nat.lt_succ_of_lt (s.noted hm)
  follows := s.follows

theorem move (s : Sound h cursors moves) {m : Move} {c : Cursor}
    (hm : m.cursor.index < cursors.size) (stands : m.index? = c.index?)
    (follows : m.Follows moves) :
    Sound h (cursors.setIfInBounds m.cursor.index c) (m :: moves) where
  laidOut := s.laidOut
  there moved := by
    rw [Array.size_setIfInBounds]
    exact s.there moved
  next {d} hd := by
    rw [Array.size_setIfInBounds] at hd
    rw [Array.getElem_setIfInBounds hd]
    split
    · next same =>
      have same : m.cursor = d := by
        cases hd' : m.cursor
        cases d
        simp_all
      subst same
      rw [Moves.next_cons_self, stands, Cursor.toNat_next]
    · next other =>
      rw [Moves.next_cons_of_ne fun same => other (congrArg CursorId.index same), s.next hd]
  noted {x} hx := by
    rw [Array.size_setIfInBounds]
    rcases List.mem_cons.1 hx with rfl | hx
    · exact hm
    · exact s.noted hx
  follows suffix := by
    rcases List.suffix_cons_iff.1 suffix with whole | suffix
    · cases whole
      exact follows
    · exact s.follows suffix

end Sound

end Move

/-! ## Steps that leave iterators where they are -/

/-- A step by which no object comes to move a position. -/
structure Heap.Calm (h h' : Heap κ) : Prop where
  step : Heap.Step (fun _ _ _ => True) h h'
  still {o : ObjectId} {c : CursorId} : (h'.get o).cursor? = some c →
    ∃ q, (h.get q).cursor? = some c

namespace Heap

variable {h : Heap κ} {o : ObjectId} {object : Object κ}

theorem still_set (same : object.body? = (h.get o).body?) {q : ObjectId} {c : CursorId}
    (moved : ((h.set o object).get q).cursor? = some c) : ∃ q, (h.get q).cursor? = some c := by
  rcases get_set_cases h o q object with kept | ⟨rfl, new⟩
  · exact ⟨q, kept ▸ moved⟩
  · refine ⟨q, ?_⟩
    rwa [new, Object.cursor?, same] at moved

theorem moved_allocate {q : ObjectId} {c : CursorId}
    (moved : ((h.allocate object).2.get q).cursor? = some c) :
    object.cursor? = some c ∨ (h.get q).cursor? = some c := by
  by_cases new : q = h.next
  · subst new
    rw [get_allocate_next] at moved
    exact .inl moved
  · rw [get_allocate_of_ne h object new] at moved
    exact .inr moved

theorem calm_define {k : Key} {d : Descriptor} (he : (h.get o).define k d = .ok object) :
    Calm h (h.set o object) := ⟨.define trivial he, still_set (Object.body?_define he)⟩

theorem calm_includes : Includes (Calm (κ := κ)) where
  define _ he := calm_define he
  delete he := ⟨.delete he, still_set (Object.body?_delete he)⟩
  preventExtensions {h o} := ⟨.preventExtensions, @still_set κ h o _ rfl⟩
  setPrototype {h o _} hc := ⟨.setPrototype hc, @still_set κ h o _ rfl⟩
  make ho := ⟨.allocate ho.toMade, fun moved => by
    rcases moved_allocate moved with moved | moved
    · cases ho.still.symm.trans moved
    · exact ⟨_, moved⟩⟩

end Heap

namespace Move

theorem Sound.calm {h h' : Heap κ} {cursors : Array Cursor} {moves : Moves}
    (s : Sound h cursors moves) (calm : h.Calm h') : Sound h' cursors moves where
  laidOut := s.laidOut.step calm.step
  there moved := by
    obtain ⟨q, moved⟩ := calm.still moved
    exact s.there moved
  next := s.next
  noted := s.noted
  follows := s.follows

theorem Sound.allocate {h : Heap κ} {cursors : Array Cursor} {moves : Moves} {object : Object κ}
    (s : Sound h cursors moves) (ho : object.Made)
    (there : ∀ {c}, object.cursor? = some c → c.index < cursors.size) :
    Sound (h.allocate object).2 cursors moves where
  laidOut := s.laidOut.step (show Heap.Step (fun _ _ _ => True) h _ from .allocate ho)
  there moved := by
    rcases Heap.moved_allocate moved with moved | moved
    · exact there moved
    · exact s.there moved
  next := s.next
  noted := s.noted
  follows := s.follows

/-- What holds of a recorded run between its steps. -/
def Keeping (w : World κ (σ × Moves)) : Prop := Sound w.heap w.cursors w.notes

theorem lockstep :
    SettlingLockstep Heap.Calm (Run.Both (Keeping : World κ (σ × Moves) → Prop)) where
  heap h := by rw [h.1]
  cursors h := by rw [h.1]
  names h := by rw [h.1]
  deferreds h := by rw [h.1]
  wellKnown h := by rw [h.1]
  step := by
    rintro v _ h ⟨rfl, sound⟩ calm
    exact ⟨rfl, Sound.calm sound calm⟩
  switch _ h := ⟨by rw [h.1], h.2⟩
  includes := Heap.calm_includes
  settle _ h := ⟨by rw [h.1], h.2⟩

section
variable {exec : Exec κ (σ × Moves)}
  (he : ∀ body invocation, Run.Keeps Keeping (exec body invocation))

theorem keeps_makeIterator (source : Value) :
    Run.Keeps Keeping (Iteration.makeIterator source : Run κ (σ × Moves) Value) := by
  refine Run.keeps_iff_agree.2 (lockstep.makeIteratorBy ?_ ?_ source)
  · rintro v _ ⟨rfl, sound⟩
    exact ⟨rfl, Sound.add sound⟩
  · rintro v _ object ⟨rfl, sound⟩ made - there
    exact ⟨rfl, Sound.allocate sound made there⟩

include he

theorem keeps_perform (n : Nat) (r : Request κ α) :
    Run.Keeps Keeping (Prototypal.perform exec n r) := by
  by_cases hk : r.makesKeys = false
  · refine Run.keeps_iff_agree.2
      (lockstep.perform (fun _ _ => Run.keeps_iff_agree.1 (he _ _)) n hk ?_)
    exact r.within_of_permits (fun _ _ _ {_ _} => Heap.calm_define)
      fun he => ⟨.push he, Heap.still_set (Object.body?_push he)⟩
  · cases r with
    | newKey | newName => exact fun _ sound => sound
    | _ => exact absurd rfl hk

end

/-- The length of an array is read as it is. -/
theorem get_length (exec : Exec κ σ) {w : World κ σ} (laidOut : w.heap.LaidOut)
    {source : Value} {length : Nat} (array : w.heap.arrayLength? source = some length) :
    Access.get exec source .length w = .value (.number (.ofNat length)) w ∧
      length ≤ Number.maxLength := by
  obtain ⟨e, found, rfl⟩ := Option.map_eq_some_iff.1 array
  obtain ⟨o, object, he⟩ := Option.bind_eq_some_iff.1 found
  obtain rfl : source = .object o := by
    cases source <;> cases object
    rfl
  have kind := Object.elements?_eq_some_iff.1 he
  have own : (w.heap.get o).getOwn .length = some e.lengthProperty := by
    rw [Object.getOwn, Object.place_length kind]
  refine ⟨?_, ((laidOut o).fits kind).length⟩
  rw [Access.get_of_unreserved (by decide +kernel)]
  exact Member.get_of_own (by rw [own]; rfl) _

/-- A move over an array always answers. -/
theorem moveNext_answers (exec : Exec κ σ) (c : CursorId) {w : World κ σ} (laidOut : w.heap.LaidOut)
    {source : Value} {length : Nat} (array : w.heap.arrayLength? source = some length) :
    ∃ found w', Iteration.moveNext exec c source w = .value (.boolean found) w' := by
  obtain ⟨read, -⟩ := get_length exec laidOut array
  rw [Iteration.moveNext, Run.bind_of_value read, Run.view_bind]
  split
  · exact ⟨true, _, rfl⟩
  · exact ⟨false, _, rfl⟩

/-- A move is noted together with the position that it leaves. -/
theorem keeping_setCursor {w : World κ (σ × Moves)} (keeping : Keeping w) {before : World κ σ}
    {c : CursorId} {source : Value} {cursor : Cursor} {found : Bool}
    (follows : c.index < w.cursors.size →
      Move.Follows ⟨c, before.heap.arrayLength? source, found, cursor.index?⟩ w.notes) :
    Keeping ((w.setCursor c cursor).withNotes (recorder.left (.moveNext c source) before
      (.boolean found) (w.setCursor c cursor).unnoted w.notes)) := by
  have sound : Sound w.heap w.cursors w.notes := keeping
  change Sound w.heap (w.cursors.setIfInBounds c.index cursor) (if _ then _ else _)
  by_cases hc : c.index < w.cursors.size
  · have stored : (w.setCursor c cursor).unnoted.cursor c = cursor := by
      simp [World.cursor, World.unnoted, World.setCursor, hc]
    rw [if_pos (by simpa [World.unnoted, World.setCursor] using hc), stored]
    have told : decide (Value.boolean found = .boolean true) = found := by cases found <;> rfl
    rw [told]
    exact sound.move (m := ⟨c, _, found, cursor.index?⟩) hc rfl (follows hc)
  · rw [if_neg (by simpa [World.unnoted, World.setCursor] using hc),
      Array.setIfInBounds_eq_of_size_le (Nat.le_of_not_lt hc)]
    exact sound

theorem count_le (v : Value) : v.count ≤ Number.maxCount := by
  unfold Value.count
  cases v.number? with
  | none => exact Nat.zero_le _
  | some n =>
      change n.count ≤ _
      unfold Number.count
      split
      · exact Nat.min_le_right ..
      · exact Nat.le_refl _
      all_goals exact Nat.zero_le _

section
variable {exec : Exec κ (σ × Moves)}
  (he : ∀ body invocation, Run.Keeps Keeping (exec body invocation))
include he

theorem keeps_moveNext (c : CursorId) (source : Value) :
    Run.Keeps Keeping (recorder.leave (.moveNext c source) (Iteration.moveNext exec c source)) := by
  intro w keeping
  refine recorder.keeps_leave ?_
  have kept : (Access.get exec source .length).Ends w fun _ w' => Keeping w' :=
    Run.keeps_iff_agree.2
      (lockstep.accessGet (fun _ _ => Run.keeps_iff_agree.1 (he _ _)) source .length) w keeping
  -- An array is read as it was before the move; anything else may run client code.
  have read : (Access.get exec source .length).Ends w fun r w' => Keeping w' ∧
      ∀ length, w.unnoted.heap.arrayLength? source = some length →
        ∀ v, r = .ok v → v.count = length ∧ length ≤ Number.maxLength := by
    cases array : w.unnoted.heap.arrayLength? source with
    | none => exact kept.mono fun keeping => ⟨keeping, by simp⟩
    | some length =>
        obtain ⟨result, bound⟩ := get_length exec (Sound.laidOut keeping) array
        unfold Run.Ends
        rw [result]
        refine ⟨keeping, ?_⟩
        rintro _ ⟨⟩ _ ⟨⟩
        exact ⟨Number.count_ofNat (Nat.le_trans bound (by decide)), bound⟩
  refine read.bind (fun {v w'} ended => .view ?_) fun {_ _} ended => ended.1
  obtain ⟨keeping, array⟩ := ended
  have sound : Sound w'.heap w'.cursors w'.notes := keeping
  have tried (hc : c.index < w'.cursors.size) :
      (w'.cursor c).next.toNat = Moves.next w'.notes c := by
    rw [← sound.next hc, World.cursor, Array.getElem?_eq_getElem hc, Option.getD_some]
  dsimp only
  split
  · next below =>
    refine .modify (keeping_setCursor keeping fun hc => ?_)
    have stands := Cursor.index?_eq_some (Nat.lt_of_lt_of_le below (count_le v))
    refine ⟨fun _ => stands.trans (congrArg some (tried hc)), fun {length} known => ?_⟩
    obtain ⟨count, -⟩ := array length known v rfl
    exact ⟨iff_of_true rfl (tried hc ▸ count ▸ below), by simp⟩
  · next beyond =>
    refine .modify (keeping_setCursor keeping fun hc => ?_)
    refine ⟨by simp, fun {length} known => ?_⟩
    obtain ⟨count, bound⟩ := array length known v rfl
    refine ⟨iff_of_false (by simp) (tried hc ▸ count ▸ beyond), fun _ => ?_⟩
    have small : length < Number.maxCount := Nat.lt_of_le_of_lt bound (by decide)
    have word : (UInt64.ofNat v.count).toNat = length := by
      rw [count]
      exact UInt64.toNat_ofNat_of_lt' (Nat.lt_of_lt_of_le small (by decide))
    exact (Cursor.index?_eq_some (word ▸ small)).trans (congrArg some word)

theorem keeps_leave {run : κ → Invocation → Run κ (σ × Moves) Value}
    (hr : ∀ code invocation, Run.Keeps Keeping (run code invocation)) (body : Body κ)
    (invocation : Invocation) :
    Run.Keeps Keeping (recorder.leave body (enter run exec body invocation)) := by
  have plain {body : Body κ}
      (unnoted : ∀ before v after moves,
        recorder.left body before v (after : World κ σ) moves = moves)
      {x : Run κ (σ × Moves) Value} (hx : Run.Keeps Keeping x) :
      Run.Keeps Keeping (recorder.leave body x) := by
    rw [recorder.leave_eq_self unnoted]
    exact hx
  cases body with
  | client code => exact plain (fun _ _ _ _ => rfl) (hr code invocation)
  | iterate =>
      refine plain (fun _ _ _ _ => rfl) ?_
      cases invocation with
      | call this arguments => exact keeps_makeIterator this
      | _ => exact fun _ keeping => keeping
  | current c source =>
      exact plain (fun _ _ _ _ => rfl) (Run.keeps_iff_agree.2
        (lockstep.current (fun _ _ => Run.keeps_iff_agree.1 (he _ _)) c source))
  | moveNext c source => exact keeps_moveNext he c source

end

theorem keeps_run (client : Client κ σ) (fuel : Nat) (p : Program κ σ) :
    Run.Keeps Keeping (recorder.run client fuel p) := by
  refine recorder.keeps_run (fun _ => lockstep.toPlainLockstep) (fun _ keeping => keeping) ?_
    (fun hr he _ => keeps_leave (he ()) (hr ())) client fuel p ()
  intro exec he n α r _
  rw [recorder.perform_eq_self fun _ _ => rfl]
  exact keeps_perform (he ()) n r

end Move

/-- What holds of a move, given the moves before it: it tries the index after the one where the last
move of the iterator left it, stands there if that is below the length of the array, and otherwise
at the length.  So the indices are 0, 1, 2, … as long as every move finds something. -/
structure Move.Lawful (m : Move) (past : Moves) : Prop extends m.Follows past where
  counted : (∀ x ∈ past, x.cursor = m.cursor → x.found = true) → m.found = true →
    m.index? = some (past.countP (·.cursor = m.cursor))

/-- Along every run, every move of an array iterator is lawful, and nothing else changes a position:
the next move tries what the last one leads to.  Every function that moves an iterator has its
position, and over an array it always answers. -/
theorem Program.moves_lawful (client : Client κ σ) (fuel : Nat) (p : Program κ σ)
    (source : NameSource) (s : σ) :
    (Move.recorder.run client fuel p).Agree Recorder.Forgets (p.run client fuel) ∧
    ∀ w ∈ (Move.recorder.run client fuel p ((World.boot source s).noted [])).world?,
      (∀ m past, m :: past <:+ w.notes → m.Lawful past) ∧
      (∀ c, c.index < w.cursors.size → (w.cursor c).next.toNat = w.notes.next c) ∧
      (∀ o c, (w.heap.get o).cursor? = some c → c.index < w.cursors.size) ∧
      ∀ exec c source length, w.heap.arrayLength? source = some length →
        ∃ found w', Iteration.moveNext exec c source w = .value (.boolean found) w' := by
  refine ⟨Move.recorder.forgets_run client fuel p, fun w hw => ?_⟩
  have start : Move.Keeping ((World.boot source s : World κ σ).noted []) := by
    change Move.Sound (World.boot source s : World κ σ).heap
      (World.boot source s : World κ σ).cursors []
    rw [World.heap_boot, World.cursors_boot]
    exact .boot
  have sound : Move.Sound w.heap w.cursors w.notes :=
    (Move.keeps_run client fuel p _ start).world? w hw
  refine ⟨fun m past suffix => ?_, fun c hc => ?_, fun o c => sound.there,
    fun exec c _ _ => Move.moveNext_answers exec c sound.laidOut⟩
  · refine ⟨sound.follows suffix, fun all found => ?_⟩
    have earlier (x : Move) (before : Moves) (h : x :: before <:+ past) : x.Follows before :=
      sound.follows (h.trans ((List.suffix_cons ..).trans suffix))
    rw [(sound.follows suffix).found found, Moves.next_eq_countP earlier all]
  · rw [← sound.next hc, World.cursor, Array.getElem?_eq_getElem hc, Option.getD_some]

/-- An array of one element is pushed to twice after its iterator met the end.  The second move that
finds an element then finds the third one. -/
theorem Program.moves_skip :
    let iterated := ObjectId.mk 2
    let moveNext := ObjectId.mk 4
    let iterator := Value.object ⟨5⟩
    let p : Program Unit Unit :=
      .ask (.newObject none) fun _ => .ask (.installIterator ⟨0⟩) fun _ =>
      .ask (.newArray [.null] (some ⟨0⟩)) fun _ => .ask (.iterator (.object iterated)) fun _ =>
      .ask (.call moveNext iterator []) fun _ => .ask (.call moveNext iterator []) fun _ =>
      .ask (.push iterated .null) fun _ => .ask (.push iterated .null) fun _ =>
      .ask (.call moveNext iterator []) .done
    let moves : Moves :=
      [⟨⟨0⟩, some 3, true, some 2⟩, ⟨⟨0⟩, some 1, false, some 1⟩, ⟨⟨0⟩, some 1, true, some 0⟩]
    (Move.recorder.run (fun _ _ => p) 2 p ((World.boot (.initial id) ()).noted [])).world?.map
        World.notes = some moves ∧
      ¬ ∀ m past, m :: past <:+ moves → m.found = true →
        m.index? = some (past.countP fun x => x.cursor = m.cursor ∧ x.found = true) := by
  intro iterated moveNext iterator p moves
  refine ⟨by decide +kernel, fun exact => ?_⟩
  exact absurd (exact _ _ List.suffix_rfl rfl) (by decide)

end Prototypal
