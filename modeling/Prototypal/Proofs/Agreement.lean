import Prototypal.Run

/-!
# Runs that agree

Two runs agree under a relation of worlds if from related worlds they end in the same way: with the
same result or the same fault, and again in related worlds.  What a run keeps is the special case of
a run that agrees with itself.
-/

namespace Prototypal

variable {κ σ τ α β : Type}

/-- The same end, in related worlds. -/
inductive Outcome.Agree {ω ω' : Type} (R : ω → ω' → Prop) : Outcome ω α → Outcome ω' α → Prop
  | value {a : α} {v : ω} {w : ω'} (h : R v w) : Agree R (.value a v) (.value a w)
  | fault {f : Fault} {v : ω} {w : ω'} (h : R v w) : Agree R (.fault f v) (.fault f w)
  | exhausted : Agree R .exhausted .exhausted

theorem Outcome.Agree.mono {ω ω' : Type} {R R' : ω → ω' → Prop} {x : Outcome ω α}
    {y : Outcome ω' α} (h : x.Agree R y) (hR : ∀ {v w}, R v w → R' v w) : x.Agree R' y := by
  cases h with
  | value h => exact .value (hR h)
  | fault h => exact .fault (hR h)
  | exhausted => exact .exhausted

theorem Outcome.Agree.exhausted_iff {ω ω' : Type} {R : ω → ω' → Prop} {x : Outcome ω α}
    {y : Outcome ω' α} (h : x.Agree R y) : x = .exhausted ↔ y = .exhausted := by
  cases h with
  | exhausted => exact iff_of_true rfl rfl
  | _ => exact iff_of_false nofun nofun

protected theorem Outcome.Agree.refl {ω : Type} {R : ω → ω → Prop} (hR : ∀ w, R w w)
    (x : Outcome ω α) : x.Agree R x := by
  cases x with
  | value a w => exact .value (hR w)
  | fault f w => exact .fault (hR w)
  | exhausted => exact .exhausted

protected theorem Outcome.Agree.trans {ω ω' ω'' : Type} {R : ω → ω' → Prop} {R' : ω' → ω'' → Prop}
    {S : ω → ω'' → Prop} {x : Outcome ω α} {y : Outcome ω' α} {z : Outcome ω'' α}
    (h : x.Agree R y) (h' : y.Agree R' z) (hS : ∀ {u v w}, R u v → R' v w → S u w) :
    x.Agree S z := by
  cases h with
  | value h =>
      cases h' with
      | value h' => exact .value (hS h h')
  | fault h =>
      cases h' with
      | fault h' => exact .fault (hS h h')
  | exhausted =>
      cases h'
      exact .exhausted

namespace Run

/-- From related worlds the runs have the same end, in related worlds. -/
def Agree (R : World κ σ → World κ τ → Prop) (x : Run κ σ α) (y : Run κ τ α) : Prop :=
  ∀ ⦃v w⦄, R v w → (x v).Agree R (y w)

namespace Agree

variable {R : World κ σ → World κ τ → Prop} {x : Run κ σ α} {y : Run κ τ α}

protected theorem pure (a : α) : Agree R (pure a) (pure a) := fun _ _ h => .value h

protected theorem fail (f : Fault) : Agree R (fail f : Run κ σ α) (fail f) := fun _ _ h => .fault h

protected theorem exhausted : Agree R (exhausted : Run κ σ α) exhausted := fun _ _ _ => .exhausted

protected theorem ofExcept (e : Except Fault α) : Agree R (ofExcept e) (ofExcept e) := by
  cases e with
  | ok a => exact .pure a
  | error f => exact .fail f

protected theorem bind {f : α → Run κ σ β} {g : α → Run κ τ β} (hx : Agree R x y)
    (hf : ∀ a, Agree R (f a) (g a)) : Agree R (x >>= f) (y >>= g) := by
  intro v w h
  have hx := hx h
  simp only [bind_apply]
  generalize x v = a at hx ⊢
  generalize y w = b at hx ⊢
  cases hx with
  | value h => exact hf _ h
  | fault h => exact .fault h
  | exhausted => exact .exhausted

protected theorem map (f : α → β) (hx : Agree R x y) : Agree R (f <$> x) (f <$> y) := by
  rw [map_eq_pure_bind, map_eq_pure_bind]
  exact hx.bind fun a => .pure (f a)

protected theorem attempt (hx : Agree R x y) : Agree R x.attempt y.attempt := by
  intro v w h
  have hx := hx h
  simp only [Run.attempt]
  generalize x v = a at hx ⊢
  generalize y w = b at hx ⊢
  cases hx with
  | value h => exact .value h
  | fault h => exact .value h
  | exhausted => exact .exhausted

protected theorem discard (hx : Agree R x y) : Agree R (discard x) (discard y) := hx.map _

protected theorem view {f : World κ σ → α} {g : World κ τ → α} (h : ∀ {v w}, R v w → f v = g w) :
    Agree R (view f) (view g) := by
  intro v w hvw
  rw [view, view, h hvw]
  exact .value hvw

protected theorem modify {f : World κ σ → World κ σ} {g : World κ τ → World κ τ}
    (h : ∀ {v w}, R v w → R (f v) (g w)) : Agree R (modify f) (modify g) :=
  fun _ _ hvw => .value (h hvw)

protected theorem modifyGet {f : World κ σ → α × World κ σ} {g : World κ τ → α × World κ τ}
    (h : ∀ {v w}, R v w → (f v).1 = (g w).1 ∧ R (f v).2 (g w).2) :
    Agree R (modifyGet f) (modifyGet g) := by
  intro v w hvw
  obtain ⟨ha, hw⟩ := h hvw
  simp only [modifyGet, ha]
  exact .value hw

protected theorem forM {f : β → Run κ σ Unit} {g : β → Run κ τ Unit} (l : List β)
    (h : ∀ b, Agree R (f b) (g b)) : Agree R (l.forM f) (l.forM g) := by
  induction l with
  | nil => exact .pure ()
  | cons b l ih => exact (h b).bind fun _ => ih

protected theorem mapM {f : β → Run κ σ α} {g : β → Run κ τ α} (l : List β)
    (h : ∀ b, Agree R (f b) (g b)) : Agree R (l.mapM f) (l.mapM g) := by
  induction l with
  | nil => simpa using Agree.pure (R := R) ([] : List α)
  | cons b l ih =>
      simp only [List.mapM_cons]
      exact (h b).bind fun a => ih.bind fun l => .pure (a :: l)

end Agree

end Run

/-! ## What a run ends with -/

/-- The world that a run ends in, if it ends within its fuel. -/
def Outcome.world? {ω : Type} : Outcome ω α → Option ω
  | .value _ w | .fault _ w => some w
  | .exhausted => none

/-- The result of a run that ends with one. -/
def Outcome.value? {ω : Type} : Outcome ω α → Option α
  | .value a _ => some a
  | .fault _ _ | .exhausted => none

/-- The fault of a run that ends with one. -/
def Outcome.fault? {ω : Type} : Outcome ω α → Option Fault
  | .fault f _ => some f
  | .value _ _ | .exhausted => none

theorem Outcome.exists_value {ω : Type} {x : Outcome ω α} {a : α} (h : x.value? = some a) :
    ∃ w, x = .value a w := by
  cases x with
  | value _ w => exact ⟨w, congrArg (Outcome.value · w) (Option.some.inj h)⟩
  | _ => cases h

theorem Outcome.exists_fault {ω : Type} {x : Outcome ω α} {f : Fault} (h : x.fault? = some f) :
    ∃ w, x = .fault f w := by
  cases x with
  | fault _ w => exact ⟨w, congrArg (Outcome.fault · w) (Option.some.inj h)⟩
  | _ => cases h

namespace Run

/-- Whatever the run ends with, result or fault, satisfies the condition in the world that it
leaves. -/
def Ends (x : Run κ σ α) (w : World κ σ) (Q : Except Fault α → World κ σ → Prop) : Prop :=
  match x w with
  | .value a w' => Q (.ok a) w'
  | .fault f w' => Q (.error f) w'
  | .exhausted => True

namespace Ends

variable {x : Run κ σ α} {w : World κ σ} {Q Q' : Except Fault α → World κ σ → Prop}

protected theorem mono (h : x.Ends w Q) (hQ : ∀ {r w'}, Q r w' → Q' r w') : x.Ends w Q' := by
  unfold Ends at h ⊢
  split
  · next hx => exact hQ (by simpa only [hx] using h)
  · next hx => exact hQ (by simpa only [hx] using h)
  · trivial

protected theorem bind {f : α → Run κ σ β} {Q' : Except Fault β → World κ σ → Prop}
    (h : x.Ends w Q) (hf : ∀ {a w'}, Q (.ok a) w' → (f a).Ends w' Q')
    (he : ∀ {e w'}, Q (.error e) w' → Q' (.error e) w') : (x >>= f).Ends w Q' := by
  unfold Ends at h ⊢
  rw [bind_apply]
  cases hx : x w with
  | value a w' =>
      rw [hx] at h
      exact hf h
  | fault e w' =>
      rw [hx] at h
      exact he h
  | exhausted => trivial

protected theorem view {f : World κ σ → β} {g : β → Run κ σ α} (h : (g (f w)).Ends w Q) :
    (view f >>= g).Ends w Q := h

protected theorem modify {f : World κ σ → World κ σ} {g : Unit → Run κ σ α}
    (h : (g ()).Ends (f w) Q) : (modify f >>= g).Ends w Q := h

protected theorem modifyGet {f : World κ σ → β × World κ σ} {g : β → Run κ σ α}
    (h : (g (f w).1).Ends (f w).2 Q) : (modifyGet f >>= g).Ends w Q := h

protected theorem map {f : α → β} {Q' : Except Fault β → World κ σ → Prop} (h : x.Ends w Q)
    (hf : ∀ {a w'}, Q (.ok a) w' → Q' (.ok (f a)) w')
    (he : ∀ {e w'}, Q (.error e) w' → Q' (.error e) w') : (f <$> x).Ends w Q' := by
  rw [map_eq_pure_bind]
  exact h.bind hf he

/-- Only exhaustion ends a run that attempts. -/
protected theorem attempt {f : Except Fault α → Run κ σ β}
    {Q' : Except Fault β → World κ σ → Prop} (h : x.Ends w Q)
    (hf : ∀ {r w'}, Q r w' → (f r).Ends w' Q') : (x.attempt >>= f).Ends w Q' := by
  unfold Ends at h ⊢
  rw [bind_apply, attempt]
  cases hx : x w with
  | value a w' =>
      rw [hx] at h
      exact hf h
  | fault e w' =>
      rw [hx] at h
      exact hf h
  | exhausted => trivial

protected theorem trivial : x.Ends w fun _ _ => True := by
  unfold Ends
  cases x w <;> exact True.intro

protected theorem and (h : x.Ends w Q) (h' : x.Ends w Q') :
    x.Ends w fun r w' => Q r w' ∧ Q' r w' := by
  unfold Ends at h h' ⊢
  cases hx : x w with
  | value a w' =>
      rw [hx] at h h'
      exact ⟨h, h'⟩
  | fault f w' =>
      rw [hx] at h h'
      exact ⟨h, h'⟩
  | exhausted => exact True.intro

/-- What a run ends with is what an attempt gives. -/
theorem attempt_eq : x.Ends w fun r w' => x.attempt w = .value r w' := by
  unfold Ends Run.attempt
  cases x w with
  | value | fault => rfl
  | exhausted => trivial

theorem value_eq : x.Ends w fun r w' => ∀ a, r = .ok a → x w = .value a w' := by
  unfold Ends
  cases x w with
  | value a w' =>
      intro b hb
      cases hb
      rfl
  | fault => exact nofun
  | exhausted => trivial

theorem of_fault {f : Fault} {w' : World κ σ} (h : x.Ends w Q) (hx : x w = .fault f w') :
    Q (.error f) w' := by
  unfold Ends at h
  rw [hx] at h
  exact h

theorem of_value {a : α} {w' : World κ σ} (h : x.Ends w Q) (hx : x w = .value a w') :
    Q (.ok a) w' := by
  unfold Ends at h
  rw [hx] at h
  exact h

theorem world? {P : World κ σ → Prop} (h : x.Ends w fun _ => P) : ∀ w' ∈ (x w).world?, P w' := by
  unfold Ends at h
  intro w' hw'
  cases hx : x w with
  | value a v =>
      rw [hx] at h hw'
      exact Option.some.inj hw' ▸ h
  | fault e v =>
      rw [hx] at h hw'
      exact Option.some.inj hw' ▸ h
  | exhausted =>
      rw [hx] at hw'
      cases hw'

/-- A run that agrees with another one ends as that one does, up to the relation of worlds. -/
theorem transfer {R : World κ σ → World κ τ → Prop} {y : Run κ τ α} {v : World κ τ}
    {P : Except Fault α → World κ τ → Prop} (h : x.Ends w Q) (agree : (x w).Agree R (y v))
    (hP : ∀ {r w' v'}, Q r w' → R w' v' → P r v') : y.Ends v P := by
  unfold Ends at h ⊢
  generalize x w = a at h agree
  generalize y v = b at agree ⊢
  cases agree with
  | value related => exact hP h related
  | fault related => exact hP h related
  | exhausted => trivial

end Ends

/-- The run does not fail, and its result satisfies the condition in the world that it leaves. -/
def Gives (x : Run κ σ α) (w : World κ σ) (P : α → World κ σ → Prop) : Prop :=
  x.Ends w fun r w' => ∃ a, r = .ok a ∧ P a w'

namespace Gives

variable {x : Run κ σ α} {w : World κ σ} {P P' : α → World κ σ → Prop}

protected theorem mono (h : x.Gives w P) (hP : ∀ {a w'}, P a w' → P' a w') : x.Gives w P' :=
  Ends.mono h fun ⟨a, hr, h⟩ => ⟨a, hr, hP h⟩

protected theorem bind {f : α → Run κ σ β} {Q : Except Fault β → World κ σ → Prop}
    (h : x.Gives w P) (hf : ∀ {a w'}, P a w' → (f a).Ends w' Q) : (x >>= f).Ends w Q :=
  Ends.bind h (fun ⟨_, hr, h⟩ => by cases hr; exact hf h) fun ⟨_, hr, _⟩ => by cases hr

/-- What is attempted does not fail. -/
theorem attempt {Q : Except Fault α → World κ σ → Prop} (h : x.Ends w Q) : x.attempt.Gives w Q := by
  unfold Ends at h
  unfold Gives Ends Run.attempt
  cases hx : x w with
  | value a w' =>
      rw [hx] at h
      exact ⟨_, rfl, h⟩
  | fault f w' =>
      rw [hx] at h
      exact ⟨_, rfl, h⟩
  | exhausted => trivial

protected theorem discard {Q : World κ σ → Prop} (h : x.Gives w fun _ => Q) :
    (discard x).Gives w fun _ => Q :=
  Ends.map h (fun ⟨_, _, kept⟩ => ⟨(), rfl, kept⟩) fun ⟨_, hr, _⟩ => by cases hr

end Gives

/-- The run ends with a result, which satisfies the condition in the world that it leaves. -/
def Succeeds (x : Run κ σ α) (w : World κ σ) (P : α → World κ σ → Prop) : Prop :=
  ∃ a w', x w = .value a w' ∧ P a w'

namespace Succeeds

variable {x : Run κ σ α} {w : World κ σ} {P P' : α → World κ σ → Prop}
  {Q : β → World κ σ → Prop}

protected theorem mono (h : x.Succeeds w P) (hP : ∀ {a w'}, P a w' → P' a w') :
    x.Succeeds w P' := by
  obtain ⟨a, w', hx, h⟩ := h
  exact ⟨a, w', hx, hP h⟩

protected theorem bind {f : α → Run κ σ β} (h : x.Succeeds w P)
    (hf : ∀ {a w'}, P a w' → (f a).Succeeds w' Q) : (x >>= f).Succeeds w Q := by
  obtain ⟨a, w', hx, h⟩ := h
  obtain ⟨b, w'', hb, h⟩ := hf h
  exact ⟨b, w'', (bind_of_value hx).trans hb, h⟩

protected theorem view {f : World κ σ → β} {g : β → Run κ σ α} (h : (g (f w)).Succeeds w P) :
    (Run.view f >>= g).Succeeds w P := h

protected theorem modify {f : World κ σ → World κ σ} {g : Unit → Run κ σ α}
    (h : (g ()).Succeeds (f w) P) : (Run.modify f >>= g).Succeeds w P := h

protected theorem modifyGet {f : World κ σ → β × World κ σ} {g : β → Run κ σ α}
    (h : (g (f w).1).Succeeds (f w).2 P) : (Run.modifyGet f >>= g).Succeeds w P := h

protected theorem attempt (h : x.Succeeds w P) :
    x.attempt.Succeeds w fun r w' => ∃ a, r = .ok a ∧ P a w' := by
  obtain ⟨a, w', hx, h⟩ := h
  exact ⟨.ok a, w', by rw [Run.attempt, hx], a, rfl, h⟩

protected theorem discard {P : World κ σ → Prop} (h : x.Succeeds w fun _ => P) :
    (discard x).Succeeds w fun _ => P := h.bind fun kept => ⟨(), _, rfl, kept⟩

end Succeeds

/-- A world with the property is left with it. -/
def Keeps (P : World κ σ → Prop) (x : Run κ σ α) : Prop := ∀ w, P w → x.Ends w fun _ => P

theorem Keeps.of_value {P : World κ σ → Prop} {x : Run κ σ α} (h : Keeps P x) {w w' : World κ σ}
    {a : α} (hw : P w) (hx : x w = .value a w') : P w' :=
  (h w hw).world? w' (by rw [hx]; rfl)

/-- The run fails only with certain faults. -/
def FailsWith (E : Fault → Prop) (x : Run κ σ α) : Prop := ∀ ⦃w f w'⦄, x w = .fault f w' → E f

namespace FailsWith

variable {E : Fault → Prop} {x : Run κ σ α}

protected theorem pure (a : α) : FailsWith E (pure a : Run κ σ α) := by
  intro w f w' h
  cases h

protected theorem viewHeap (f : Heap κ → α) : FailsWith E (viewHeap f : Run κ σ α) := by
  intro w f w' h
  cases h

protected theorem allocate (object : Object κ) :
    FailsWith E (allocate object : Run κ σ ObjectId) := by
  intro w f w' h
  cases h

protected theorem bind {f : α → Run κ σ β} (hx : FailsWith E x) (hf : ∀ a, FailsWith E (f a)) :
    FailsWith E (x >>= f) := by
  intro w e w' h
  rw [bind_apply] at h
  split at h
  · exact hf _ h
  · cases h
    exact hx ‹_›
  · cases h

protected theorem forM {f : β → Run κ σ Unit} (l : List β) (h : ∀ b, FailsWith E (f b)) :
    FailsWith E (l.forM f) := by
  induction l with
  | nil => exact .pure ()
  | cons b l ih => exact (h b).bind fun _ => ih

end FailsWith

/-- The relation under which a run agrees with itself if it keeps a property. -/
def Both (P : World κ σ → Prop) (v w : World κ σ) : Prop := v = w ∧ P w

theorem keeps_iff_agree {P : World κ σ → Prop} {x : Run κ σ α} :
    Keeps P x ↔ Agree (Both P) x x := by
  constructor
  · rintro h v w ⟨rfl, hw⟩
    have h := h v hw
    unfold Ends at h
    cases hx : x v with
    | value a w =>
        rw [hx] at h
        exact .value ⟨rfl, h⟩
    | fault f w =>
        rw [hx] at h
        exact .fault ⟨rfl, h⟩
    | exhausted => exact .exhausted
  · intro h w hw
    have h := h ⟨rfl, hw⟩
    unfold Ends
    generalize x w = a at h
    cases h with
    | value h => exact h.2
    | fault h => exact h.2
    | exhausted => trivial

end Run

/-! ## Runs with more fuel -/

namespace Run

/-- Where the first run ends, the second one ends in the same way. -/
def Below (x y : Run κ σ α) : Prop := ∀ w, x w = .exhausted ∨ x w = y w

namespace Below

variable {x y z : Run κ σ α}

protected theorem refl (x : Run κ σ α) : Below x x := fun _ => .inr rfl

protected theorem trans (h : Below x y) (h' : Below y z) : Below x z := by
  intro w
  rcases h w with exhausted | same
  · exact .inl exhausted
  · exact same ▸ h' w

protected theorem exhausted (x : Run κ σ α) : Below Run.exhausted x := fun _ => .inl rfl

protected theorem bind {f g : α → Run κ σ β} (hx : Below x y) (hf : ∀ a, Below (f a) (g a)) :
    Below (x >>= f) (y >>= g) := by
  intro w
  simp only [bind_apply]
  rcases hx w with exhausted | same
  · exact .inl (by rw [exhausted])
  · rw [← same]
    cases x w with
    | value a w' => exact hf a w'
    | fault => exact .inr rfl
    | exhausted => exact .inl rfl

protected theorem map (f : α → β) (hx : Below x y) : Below (f <$> x) (f <$> y) := by
  rw [map_eq_pure_bind, map_eq_pure_bind]
  exact hx.bind fun a => .refl (pure (f a))

protected theorem discard (hx : Below x y) : Below (discard x) (discard y) := hx.map _

protected theorem attempt (hx : Below x y) : Below x.attempt y.attempt := by
  intro w
  unfold Run.attempt
  rcases hx w with exhausted | same
  · exact .inl (by rw [exhausted])
  · exact .inr (by rw [same])

theorem eq_of_ne (hx : Below x y) {w : World κ σ} (h : x w ≠ .exhausted) : x w = y w :=
  (hx w).resolve_left h

end Below

end Run

end Prototypal
