import Prototypal.Machine
import Prototypal.Proofs.Deferred.Balance
import Prototypal.Proofs.Deferred.Tree

/-!
# Schedules

Registrations and the firing of the root may be interleaved as one likes.  A registration on an
unfired promise waits to be told, and one on a fired promise is told at once; either way the promise
that it gives ends with the issue that the path to it gives.
-/

namespace Prototypal

variable {κ σ : Type}

/-! ## Schedules -/

/-- What is done next. -/
inductive Action where
  /-- The root is fired. -/
  | fire
  /-- Handlers are registered on a promise, which gives the child of it with that number. -/
  | register (path : List Nat) (child : Nat)

/-- The path to the promise that an action gives. -/
def Action.path? : Action → Option (List Nat)
  | .fire => none
  | .register path child => some (child :: path)

/-- A schedule registers each promise once, after the one that it is registered on, and fires the
root once.  `known` are the promises that there are already. -/
inductive Schedule : List (List Nat) → Bool → List Action → Prop
  | done {known : List (List Nat)} : Schedule known true []
  | fire {known : List (List Nat)} {rest : List Action} (later : Schedule known true rest) :
      Schedule known false (.fire :: rest)
  | register {known : List (List Nat)} {fired : Bool} {path : List Nat} {child : Nat}
      {rest : List Action} (parent : path ∈ known) (new : child :: path ∉ known)
      (later : Schedule (known ++ [child :: path]) fired rest) :
      Schedule known fired (.register path child :: rest)

section
variable (exec : Exec κ σ) (n : Nat) (plan : List Nat → Handlers κ) (s : Settlement)

/-- Carries out actions on a tree of promises. -/
def follow (root : DeferredId) : List Action → Tree → Run κ σ Tree
  | [], tree => pure tree
  | .fire :: rest, tree => do
    perform exec n (.fire root s)
    follow root rest tree
  | .register path child :: rest, tree =>
    match tree.lookup path with
    | some d => do
      let handlers := plan (child :: path)
      let promise ← perform exec n (.listen d handlers.callback handlers.errback)
      follow root rest (tree.add (child :: path) promise.deferred)
    | none => follow root rest tree

/-- Makes a root and carries out actions on the tree that grows from it. -/
def carryOut (canceller : Option κ) (actions : List Action) : Run κ σ Tree := do
  let root ← perform exec n (.newDeferred canceller)
  follow exec n plan s root actions (.single root)

end

/-! ## While a schedule is carried out -/

/-- A tree under the loops `F`, none of which is over a promise of it.  The root fires first. -/
structure Underway (meaning : κ → Datum → Except Failure Datum) (plan : List Nat → Handlers κ)
    (start : Issue) (w₀ : World κ σ) (F : List Frame) (root : DeferredId) (fired : Bool)
    (tree : Tree) (w : World κ σ) : Prop where
  wired : Wired F w
  tended : Tended meaning plan start w₀ tree w
  free {path : List Nat} {d : DeferredId} : (path, d) ∈ tree → d ∉ F.map (·.deferred)
  planted : ([], root) ∈ tree
  rooted {d : DeferredId} : ([], d) ∈ tree → d = root
  unchained (d : DeferredId) : ¬ w.Chained root d
  waits : fired = false → ∀ {path : List Nat} {d : DeferredId}, (path, d) ∈ tree → ¬ w.Fired d
  fires : fired = true → w.Fired root

namespace Underway

variable {meaning : κ → Datum → Except Failure Datum} {plan : List Nat → Handlers κ}
  {start : Issue} {exec : Exec κ σ} {w₀ w w' : World κ σ} {F : List Frame} {root d : DeferredId}
  {fired : Bool} {tree : Tree} {path : List Nat} {n : Nat}

/-- A new root. -/
theorem plant (wired : Wired F w) {canceller : Option (Canceller κ)}
    (unchained : ∀ d, canceller ≠ some (.parent d)) :
    Underway meaning plan start w F (w.addDeferred canceller).1 false
      (.single (w.addDeferred canceller).1) (w.addDeferred canceller).2 where
  wired := wired.add unchained
  tended := .plant w canceller
  free hd framed := by
    obtain ⟨f, hf, rfl⟩ := List.mem_map.1 framed
    exact World.ne_new canceller (wired.framed hf).1 (Tree.mem_single.1 hd).2
  planted := Tree.mem_single.2 ⟨rfl, rfl⟩
  rooted hd := (Tree.mem_single.1 hd).2
  unchained d hc := by
    rw [World.Chained, World.deferred_addDeferred_self] at hc
    exact unchained d hc
  waits _ {_ _} hd fired := by
    rw [(Tree.mem_single.1 hd).2, World.Fired, World.deferred_addDeferred_self] at fired
    cases fired
  fires := nofun

theorem fire (u : Underway meaning plan start w₀ F root false tree w)
    (pure : ∀ path, (plan path).Compute meaning exec w₀) {s : Settlement}
    (shows : s.Shows w₀.heap w.heap start) (fuel : tree.length < n) :
    (perform exec n (.fire root s)).Succeeds w fun _ w' =>
      Underway meaning plan start w₀ F root true tree w' := by
  have unfired : ¬ w.Fired root := u.waits rfl u.planted
  have contained := u.tended.contained u.planted
  have fired : (w.settle root s).Fired root := (World.fired_settle contained s).2 (.inl rfl)
  have unchained : ¬ (w.deferred root).isChained = true := fun chained => by
    obtain ⟨e, hc⟩ := World.isChained_iff.1 chained
    exact u.unchained e hc
  have settled := u.tended.settle u.planted unfired shows
  refine .view ?_
  rw [if_neg unchained]
  refine .view ?_
  rw [if_neg (show ¬ (w.deferred root).isFired = true from unfired)]
  refine .modify ((Deferred.notify_tends pure n (u.wired.fire contained
    (fun e hb => u.unchained e hb.1) s) settled
    u.planted (Nat.lt_of_le_of_lt List.countP_le_length fuel)).mono ?_)
  intro _ w' ⟨wired, tended, later⟩
  exact {
    wired, tended
    free := u.free
    planted := u.planted
    rooted := u.rooted
    unchained := fun e hc => u.unchained e <|
      (((World.Later.settle unfired s).trans later).chained contained).1 hc
    waits := nofun
    fires := fun _ => later.fired (settled.contained u.planted) fired }

/-- Another promise, after whatever the registration makes happen at once. -/
theorem add (u : Underway meaning plan start w₀ F root fired tree w) (hd : (path, d) ∈ tree)
    {child : Nat} {l : Listener κ} {callback errback : Option κ}
    (hl : l = w.newListener callback errback) (wired : Wired F w')
    (tended : Tended meaning plan start w₀ (tree.add (child :: path) l.promise.deferred) w')
    (later : (w.enlist d l).Later w')
    (waits : fired = false → ∀ {e}, w'.Fired e → e ≠ l.promise.deferred ∧ w.Fired e) :
    Underway meaning plan start w₀ F root fired (tree.add (child :: path) l.promise.deferred)
      w' := by
  have later : w.Later w' := (World.Later.enlist (u.tended.contained hd) l).trans later
  have contained := u.tended.contained u.planted
  exact {
    wired, tended
    free := fun he framed => by
      rcases Tree.mem_add.1 he with he | ⟨-, rfl⟩
      · exact u.free he framed
      · obtain ⟨f, hf, same⟩ := List.mem_map.1 framed
        exact World.ne_newListener hl (u.wired.framed hf).1 same
    planted := Tree.mem_add.2 (.inl u.planted)
    rooted := fun he => by
      rcases Tree.mem_add.1 he with he | ⟨no, -⟩
      · exact u.rooted he
      · cases no
    unchained := fun e hc => u.unchained e ((later.chained contained).1 hc)
    waits := fun hf {_ _} he fired => by
      obtain ⟨old, fired⟩ := waits hf fired
      rcases Tree.mem_add.1 he with he | ⟨-, new⟩
      · exact u.waits hf he fired
      · exact old new
    fires := fun hf => later.fired contained (u.fires hf) }

theorem listen (u : Underway meaning plan start w₀ F root fired tree w)
    (pure : ∀ path, (plan path).Compute meaning exec w₀) (hd : (path, d) ∈ tree) (child : Nat)
    (fuel : tree.length + 1 < n) :
    (perform exec n (.listen d (plan (child :: path)).callback
      (plan (child :: path)).errback)).Succeeds w fun p w' =>
      Underway meaning plan start w₀ F root fired (tree.add (child :: path) p.deferred) w' := by
  have contained := u.tended.contained hd
  let l := w.newListener (plan (child :: path)).callback (plan (child :: path)).errback
  have tended := u.tended.enlist hd child (l := l) rfl
  have old : (w.addDeferred (some (.parent d))).2.deferred d = w.deferred d :=
    World.deferred_addDeferred_of_ne _ _ (World.ne_new _ contained)
  refine .view ?_
  rw [if_pos contained]
  refine .modifyGet (.view (.modify ?_))
  split
  · next hf =>
    rw [old] at hf
    -- The loop over the queue is open before the listener is in it: the wiring asks for that.
    have wired : Wired (⟨d, none⟩ :: F) (w.enlist d l) :=
      (u.wired.enter contained hf).register contained (fun _ => List.mem_cons_self ..) rfl
    have pending : (tree.add (child :: path) l.promise.deferred).pending (w.enlist d l) < n :=
      Nat.lt_of_le_of_lt List.countP_le_length (Tree.length_add ▸ fuel)
    change (do Deferred.notify exec n d; Pure.pure l.promise : Run κ σ Promise).Succeeds
      (w.enlist d l) _
    refine (Deferred.notify_tends pure n wired tended (Tree.mem_add.2 (.inl hd)) pending).bind ?_
    intro _ w' ⟨wired, tended, later⟩
    exact ⟨_, _, rfl, u.add hd rfl wired tended later fun waits => absurd hf (u.waits waits hd)⟩
  · next hf =>
    rw [old] at hf
    have wired : Wired F (w.enlist d l) := u.wired.register contained (absurd · hf) rfl
    refine ⟨_, _, rfl, u.add hd rfl wired tended (.refl _) fun _ {_} => ?_⟩
    exact (World.fired_enlist contained rfl).1

/-- When all is done, every promise has fired. -/
theorem fired_of_mem (u : Underway meaning plan start w₀ F root true tree w)
    (hd : (path, d) ∈ tree) : w.Fired d := by
  induction path generalizing d with
  | nil => exact u.rooted hd ▸ u.fires rfl
  | cons i path ih =>
      obtain ⟨e, he, chained⟩ := u.tended.chained hd
      -- What waits for a fired parent waits for an open loop over it, and there is none.
      refine Classical.byContradiction fun unfired => u.free he ?_
      rcases u.wired.waiting ⟨chained, unfired⟩ with ⟨l, hl, -⟩ | framed
      · exact u.wired.drained (ih he) (List.ne_nil_of_mem hl)
      · exact List.mem_map_of_mem (f := (·.deferred)) framed

end Underway

/-! ## Whole schedules -/

section
variable {meaning : κ → Datum → Except Failure Datum} {plan : List Nat → Handlers κ}
  {exec : Exec κ σ} {w₀ : World κ σ} {s : Settlement}
  (pure : ∀ path, (plan path).Compute meaning exec w₀)
  (given : ∀ o, s.payload = .object o → w₀.heap.contains o = true)
include pure given

theorem follow_succeeds {known : List (List Nat)} {fired : Bool} {actions : List Action}
    (schedule : Schedule known fired actions) {F : List Frame} {root : DeferredId} {tree : Tree}
    {w : World κ σ} {n : Nat} (u : Underway meaning plan s.issue w₀ F root fired tree w)
    (paths : tree.map Prod.fst = known) (fuel : tree.length + actions.length < n) :
    (follow exec n plan s root actions tree).Succeeds w fun tree' w' =>
      Underway meaning plan s.issue w₀ F root true tree' w' ∧
        tree'.map Prod.fst = known ++ actions.filterMap Action.path? := by
  induction schedule generalizing tree w with
  | done => exact ⟨tree, w, rfl, u, by simp [paths]⟩
  | fire _ ih =>
      simp only [List.length_cons] at fuel
      refine (u.fire pure (Settlement.shows_issue given) (by omega)).bind fun u => ?_
      exact ih u paths (by omega)
  | @register known fired path child rest parent _ _ ih =>
      simp only [List.length_cons] at fuel
      obtain ⟨d, found, hd⟩ := Tree.exists_lookup (paths ▸ parent)
      rw [follow, found]
      refine (u.listen pure hd child (by omega)).bind fun {p w'} u => ?_
      refine (ih u (by simp [Tree.add, paths]) (by rw [Tree.length_add]; omega)).mono ?_
      rintro tree' w' ⟨u, paths⟩
      exact ⟨u, by simpa [Action.path?] using paths⟩

end

/-- Registering handlers and firing the root commute.  If the handlers of a tree compute functions,
every schedule of its registrations comes to an end, and each promise has fired by then.  What its
outcome shows is what the functions on the path from the root give, whatever the schedule was. -/
theorem World.Reached.settles_by_path {w₀ : World κ σ} (hw : w₀.Reached) {exec : Exec κ σ}
    {meaning : κ → Datum → Except Failure Datum} {plan : List Nat → Handlers κ}
    (pure : ∀ path, (plan path).Compute meaning exec w₀) {s : Settlement}
    (given : ∀ o, s.payload = .object o → w₀.heap.contains o = true) {actions : List Action}
    (schedule : Schedule [[]] false actions) {n : Nat} (fuel : actions.length + 1 < n)
    (canceller : Option κ) :
    ∃ tree w, carryOut exec n plan s canceller actions w₀ = .value tree w ∧
      tree.map Prod.fst = [] :: actions.filterMap Action.path? ∧
      ∀ path d, (path, d) ∈ tree → ∃ s', (w.deferred d).outcome = some s' ∧
        ∀ i, s'.Shows w₀.heap w.heap i ↔ i = evaluate meaning plan s.issue path := by
  obtain ⟨F, wired⟩ := hw.wired
  have planted : Underway meaning plan s.issue w₀ F _ false _ _ :=
    .plant wired (World.map_client_ne_parent canceller)
  obtain ⟨tree, w, ran, u, paths⟩ := follow_succeeds pure given schedule planted rfl (n := n)
    (show 1 + actions.length < n by omega)
  refine ⟨tree, w, ran, paths, fun path d hd => ?_⟩
  obtain ⟨s', hs⟩ := Option.isSome_iff_exists.1 (u.fired_of_mem hd)
  have shows := u.tended.shows hd hs
  exact ⟨s', hs, fun i => ⟨fun shows' => shows'.unique shows, fun same => same ▸ shows⟩⟩

/-- A registration on a promise that has failed already gives a promise of what its errback makes of
the error. -/
theorem World.Reached.settles_by_path_late :
    ∃ (w₀ : World Bool Unit) (exec : Exec Bool Unit) (plan : List Nat → Handlers Bool), w₀.Reached ∧
      plan [0] = ⟨some false, none⟩ ∧ plan [0, 0] = ⟨none, some true⟩ ∧
      Computes exec w₀ false (fun _ => .error ⟨"Error", "no"⟩) ∧
      Computes exec w₀ true (fun _ => .ok (.plain (.string "caught"))) ∧
      ∃ tree w, carryOut exec 5 plan (.value .null) none
          [.register [] 0, .fire, .register [0] 0] w₀ = .value tree w ∧
        tree.map Prod.fst = [[], [0], [0, 0]] ∧
        (∀ d, ([0], d) ∈ tree → ∃ s, (w.deferred d).outcome = some s ∧
          s.Shows w₀.heap w.heap (.error (.error "Error" "no"))) ∧
        ∀ d, ([0, 0], d) ∈ tree → ∃ s, (w.deferred d).outcome = some s ∧
          s.Shows w₀.heap w.heap (.value (.plain (.string "caught"))) := by
  obtain ⟨w₀, reached, -⟩ := World.exists_reached (fun _ _ => .done (.ok .null)) 0
    (.ask .newKey fun _ => .done (.ok .null)) (.initial id) () (fun _ : World Bool Unit => ()) rfl
  let client : Client Bool Unit := fun catches _ =>
    if catches then .done (.ok (.string "caught")) else .done (.error (.raised .thrown "no"))
  let meaning : Bool → Datum → Except Failure Datum := fun catches _ =>
    if catches then .ok (.plain (.string "caught")) else .error ⟨"Error", "no"⟩
  let plan : List Nat → Handlers Bool := fun path =>
    if path = [0] then ⟨some false, none⟩ else ⟨none, some true⟩
  have computes (code : Bool) : Computes (execute client 1) w₀ code (meaning code) := by
    intro w p v x _ _
    cases code with
    | true => exact ⟨.ok (.string "caught"), w, rfl, ⟨rfl, by simp⟩, .refl w, rfl⟩
    | false => exact ⟨.error (.raised .thrown "no"), w, rfl, rfl, .refl w, rfl⟩
  have pure (path : List Nat) : (plan path).Compute meaning (execute client 1) w₀ :=
    fun _ code _ => computes code
  have schedule : Schedule [[]] false [.register [] 0, .fire, .register [0] 0] :=
    .register (by decide) (by decide) (.fire (.register (by decide) (by decide) .done))
  obtain ⟨tree, w, ran, paths, shown⟩ := reached.settles_by_path pure (s := .value .null)
    (by simp [Settlement.payload]) schedule (n := 5) (by decide) none
  refine ⟨w₀, execute client 1, plan, reached, rfl, rfl, computes false, computes true, tree, w,
    ran, paths, fun d hd => ?_, fun d hd => ?_⟩
  · obtain ⟨s, hs, shows⟩ := shown _ d hd
    exact ⟨s, hs, (shows _).2 rfl⟩
  · obtain ⟨s, hs, shows⟩ := shown _ d hd
    exact ⟨s, hs, (shows _).2 rfl⟩

end Prototypal
