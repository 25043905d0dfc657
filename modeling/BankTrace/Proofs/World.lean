import BankTrace.Host
import Mathlib.Tactic

/-!
# Worlds

The library is written for any effects. What is proved of it is proved for effects that only read
and change a world: there, a computation is what it gives and the world it leaves.
-/

namespace BankTrace

/-- Why an offer ends in a round that a sink answers like this, if it ends there. -/
def Sink.refusal? : Except IoError Nat → Option IoError
  | .error e => some e
  | .ok 0 => some .wroteNothing
  | .ok (_ + 1) => none

/-- Effects `m` that read and change a world `W` and do nothing else. -/
class World (m : Type → Type) [Monad m] (W : outParam Type) where
  run {α : Type} : m α → W → α × W
  run_pure {α : Type} (a : α) (w : W) : run (pure a) w = (a, w)
  run_bind {α β : Type} (x : m α) (f : α → m β) (w : W) :
    run (x >>= f) w = run (f (run x w).1) (run x w).2

namespace World

attribute [simp] run_pure run_bind

/-- No effects at all. -/
instance : World Id Unit where
  run x w := (x, w)
  run_pure _ _ := rfl
  run_bind _ _ _ := rfl

instance {S : Type} : World (StateM S) S where
  run x s := x.run s
  run_pure _ _ := rfl
  run_bind _ _ _ := rfl

variable {m : Type → Type} [Monad m] {W : Type} [World m W] {α β ε : Type}

@[simp] theorem run_map [LawfulMonad m] (f : α → β) (x : m α) (w : W) :
    run (f <$> x) w = (f (run x w).1, (run x w).2) := by
  rw [map_eq_pure_bind, run_bind, run_pure]

theorem run_discard [LawfulMonad m] (x : m α) (w : W) : run (discard x) w = ((), (run x w).2) := by
  rw [Functor.discard, map_const, Function.comp_apply, run_map]

/-! ## What a computation keeps -/

/-- Whether a computation leaves worlds of a kind in that kind. -/
def Keeps (I : W → Prop) (x : m α) : Prop := ∀ w, I w → I (run x w).2

theorem Keeps.pure {I : W → Prop} (a : α) : Keeps I (Pure.pure a : m α) := by
  intro w hw
  simpa using hw

theorem Keeps.bind {I : W → Prop} {x : m α} {f : α → m β} (hx : Keeps I x)
    (hf : ∀ a, Keeps I (f a)) : Keeps I (x >>= f) := by
  intro w hw
  rw [run_bind]
  exact hf _ _ (hx w hw)

/-! ## How a computation ends that may fail -/

/-- What follows is done in the world that is left, unless there was a failure. -/
theorem run_bind_except (x : ExceptT ε m α) (f : α → ExceptT ε m β) (w : W) :
    run (x >>= f).run w =
      match run x.run w with
      | (.ok a, w') => run (f a).run w'
      | (.error e, w') => (.error e, w') := by
  rw [ExceptT.run_bind, run_bind]
  rcases run x.run w with ⟨e | a, w'⟩
  · exact run_pure _ _
  · rfl

/-- Whether a computation ends well, with a value and a world of the first kind, or else in a world
of the second. -/
def Ends (Q : α → W → Prop) (E : W → Prop) (x : ExceptT ε m α) (w : W) : Prop :=
  match run x.run w with
  | (.ok a, w') => Q a w'
  | (.error _, w') => E w'

variable {Q : α → W → Prop} {E : W → Prop}

theorem Ends.of_run {x : ExceptT ε m α} {w : W} {result : Except ε α} {w' : W}
    (hrun : run x.run w = (result, w')) (hok : ∀ a, result = .ok a → Q a w')
    (herror : ∀ e, result = .error e → E w') : Ends Q E x w := by
  unfold Ends
  rw [hrun]
  cases result with
  | ok a => exact hok a rfl
  | error e => exact herror e rfl

theorem Ends.pure {a : α} {w : W} (h : Q a w) : Ends Q E (Pure.pure a : ExceptT ε m α) w :=
  Ends.of_run (run_pure (Except.ok a) w) (by rintro a ⟨⟩; exact h) (by simp)

theorem Ends.mono {Q' : α → W → Prop} {E' : W → Prop} {x : ExceptT ε m α} {w : W}
    (h : Ends Q E x w) (hQ : ∀ a w, Q a w → Q' a w) (hE : ∀ w, E w → E' w) : Ends Q' E' x w := by
  unfold Ends at h ⊢
  split
  next a w' hrun =>
    rw [hrun] at h
    exact hQ a w' h
  next e w' hrun =>
    rw [hrun] at h
    exact hE w' h

theorem Ends.bind {R : β → W → Prop} {x : ExceptT ε m α} {f : α → ExceptT ε m β} {w : W}
    (hx : Ends Q E x w) (hf : ∀ a w, Q a w → Ends R E (f a) w) : Ends R E (x >>= f) w := by
  unfold Ends at hx ⊢
  rw [run_bind_except]
  cases hrun : run x.run w with
  | mk result w' =>
      rw [hrun] at hx
      cases result with
      | ok a => exact hf a w' hx
      | error e => exact hx

/-! ## What a computation gives in any world -/

/-- Whether the values of a computation are all of a kind, and its errors all of another. -/
def ResultsIn (P : α → Prop) (R : ε → Prop) (x : ExceptT ε m α) : Prop :=
  ∀ w, (∀ a, (run x.run w).1 = .ok a → P a) ∧ ∀ e, (run x.run w).1 = .error e → R e

section

variable {P : α → Prop} {R : ε → Prop}

theorem ResultsIn.pure {a : α} (h : P a) : ResultsIn P R (Pure.pure a : ExceptT ε m α) := by
  intro w
  simpa using h

theorem ResultsIn.bind {P' : β → Prop} {x : ExceptT ε m α} {f : α → ExceptT ε m β}
    (hx : ResultsIn P R x) (hf : ∀ a, P a → ResultsIn P' R (f a)) : ResultsIn P' R (x >>= f) := by
  intro w
  obtain ⟨hok, herror⟩ := hx w
  rw [run_bind_except]
  rcases hrun : run x.run w with ⟨e | a, w'⟩
  · refine ⟨by simp, fun _ he => ?_⟩
    obtain rfl := Except.error.inj he
    exact herror e (by rw [hrun])
  · exact hf a (hok a (by rw [hrun])) w'

theorem ResultsIn.lift [LawfulMonad m] (x : m α) :
    ResultsIn (fun _ => True) R (ExceptT.lift x : ExceptT ε m α) := by
  intro w
  simp

end

/-! ## Rounds of an offer -/

section

variable {σ : Type} [Sink m σ] {s s' : σ} {w w' : W} {bytes : ByteArray}

theorem run_offerWithin_empty (rounds : Nat) (s : σ) (w : W) :
    run (Sink.offerWithin (m := m) rounds s .empty) w = ((.ok (), .empty, s), w) := by
  cases rounds <;> simp [Sink.offerWithin]

theorem run_offerWithin_taken (rounds : Nat) (hne : bytes.size ≠ 0) {count : Nat}
    (hrun : run (Sink.write (m := m) s bytes) w = ((.ok (count + 1), s'), w')) :
    run (Sink.offerWithin (m := m) (rounds + 1) s bytes) w =
      run (Sink.offerWithin (m := m) rounds s' (bytes.extract (count + 1) bytes.size)) w' := by
  simp [Sink.offerWithin, hne, hrun]

theorem run_offerWithin_refusal (rounds : Nat) (hne : bytes.size ≠ 0) {result : Except IoError Nat}
    {e : IoError} (hrun : run (Sink.write (m := m) s bytes) w = ((result, s'), w'))
    (hrefused : Sink.refusal? result = some e) :
    run (Sink.offerWithin (m := m) (rounds + 1) s bytes) w = ((.error e, bytes, s'), w') := by
  rcases result with cause | _ | count
  · obtain rfl := Option.some.inj hrefused
    simp [Sink.offerWithin, hne, hrun]
  · obtain rfl := Option.some.inj hrefused
    simp [Sink.offerWithin, hne, hrun]
  · simp [Sink.refusal?] at hrefused

theorem run_offerWithin_refused (rounds : Nat) (hne : bytes.size ≠ 0) {result : Except IoError Nat}
    (hrun : run (Sink.write (m := m) s bytes) w = ((result, s'), w'))
    (hrefused : result = .ok 0 ∨ ∃ e, result = .error e) :
    ∃ e, run (Sink.offerWithin (m := m) (rounds + 1) s bytes) w =
      ((.error e, bytes, s'), w') := by
  rcases hrefused with rfl | ⟨e, rfl⟩
  · exact ⟨.wroteNothing, run_offerWithin_refusal rounds hne hrun rfl⟩
  · exact ⟨e, run_offerWithin_refusal rounds hne hrun rfl⟩

/-- A sink that takes bytes as a whole is offered them once. -/
theorem run_offer_whole (hne : bytes.size ≠ 0)
    (hrun : run (Sink.write (m := m) s bytes) w = ((.ok bytes.size, s'), w')) :
    run (Sink.offer (m := m) s bytes) w = ((.ok (), .empty, s'), w') := by
  obtain ⟨size, hsize⟩ := Nat.exists_eq_succ_of_ne_zero hne
  rw [hsize] at hrun
  have hrest : bytes.extract (size + 1) bytes.size = .empty := by simp [hsize]
  unfold Sink.offer
  rw [hsize, run_offerWithin_taken size hne hrun, hrest, run_offerWithin_empty]

end

/-! ## Operations on files among others -/

theorem run_checked (x : m (Except IoError α)) (w : W) :
    run (Host.checked x).run w = ((run x w).1.mapError .io, (run x w).2) := by
  simp [Host.checked]

theorem run_during (step : String) (x : ExceptT Error m α) (w : W) :
    run (during step x).run w = (inStep step (run x.run w).1, (run x.run w).2) := by
  simp [during]

theorem run_attempt (step : String) (x : m (Except IoError α)) (w : W) :
    run (Host.attempt step x).run w = (inStep step ((run x w).1.mapError .io), (run x w).2) := by
  rw [Host.attempt, run_during, run_checked]

theorem Ends.lift [LawfulMonad m] {x : m α} {w : W} (h : Q (run x w).1 (run x w).2) :
    Ends Q E (ExceptT.lift x : ExceptT ε m α) w := by
  have hrun : run (ExceptT.lift x : ExceptT ε m α).run w = (.ok (run x w).1, (run x w).2) := by
    simp
  refine Ends.of_run hrun ?_ (by simp)
  rintro a ⟨⟩
  exact h

variable {x : m (Except IoError α)} {w w' : W} {result : Except IoError α}

theorem Ends.checked (hrun : run x w = (result, w')) (hok : ∀ a, result = .ok a → Q a w')
    (herror : ∀ e, result = .error e → E w') : Ends Q E (Host.checked x) w := by
  refine Ends.of_run (by rw [run_checked, hrun]) (fun a ha => ?_) fun e he => ?_
  · cases result with
    | ok a' => exact Except.ok.inj ha ▸ hok a' rfl
    | error e => simp [Except.mapError] at ha
  · cases result with
    | ok a => simp [Except.mapError] at he
    | error e => exact herror e rfl

theorem Ends.attempt {step : String} (hrun : run x w = (result, w'))
    (hok : ∀ a, result = .ok a → Q a w') (herror : ∀ e, result = .error e → E w') :
    Ends Q E (Host.attempt step x) w := by
  refine Ends.of_run (by rw [run_attempt, hrun]) (fun a ha => ?_) fun e he => ?_
  · cases result with
    | ok a' => exact Except.ok.inj ha ▸ hok a' rfl
    | error e => simp [inStep, Except.mapError] at ha
  · cases result with
    | ok a => simp [inStep, Except.mapError] at he
    | error e => exact herror e rfl

end World

end BankTrace
