import Mathlib

/-!
Computations that may fail: when a sequence of two succeeds and when it fails, what readings come to
that leave a state as it is (`Yields`), and what a run over a list comes to. `foldlM_eq_error_iff`
and `foldlM_eq_ok_iff`: if each step fails exactly where `failure` says so, then the run fails with
the first of these errors, or not at all.
-/

namespace Overlay.Result

variable {ε ε' α β σ : Type}

theorem bind_eq_ok_iff {x : Except ε α} {f : α → Except ε β} {b : β} :
    (x >>= f) = .ok b ↔ ∃ a, x = .ok a ∧ f a = .ok b := by
  cases x <;> simp [bind, Except.bind]

theorem bind_eq_error_iff {x : Except ε α} {f : α → Except ε β} {e : ε} :
    (x >>= f) = .error e ↔ x = .error e ∨ ∃ a, x = .ok a ∧ f a = .error e := by
  cases x <;> simp [bind, Except.bind]

theorem ok_bind (a : α) (f : α → Except ε β) : (Except.ok a >>= f) = f a := rfl

theorem error_bind (e : ε) (f : α → Except ε β) : (Except.error e >>= f) = .error e := rfl

/-- In a computation with a state that may fail, what comes second starts in the state that the
first has left. -/
theorem bind_apply {γ : Type} (x : ExceptT ε (StateM γ) α) (f : α → ExceptT ε (StateM γ) β)
    (s : γ) :
    (x >>= f) s =
      match x s with
      | (.ok a, t) => f a t
      | (.error e, t) => (.error e, t) := by
  simp only [bind, ExceptT.bind, ExceptT.mk, StateT.bind]
  rcases x s with ⟨_ | _, t⟩ <;> rfl

/-! ## Computations that only read -/

theorem run_bind_eq_ok_iff {x : ExceptT ε (StateM σ) α} {f : α → ExceptT ε (StateM σ) β}
    {s u : σ} {b : β} :
    (x >>= f) s = (.ok b, u) ↔ ∃ a t, x s = (.ok a, t) ∧ f a t = (.ok b, u) := by
  rw [bind_apply]
  rcases x s with ⟨e | a, t⟩
  · refine iff_of_false nofun ?_
    rintro ⟨a, t, h, -⟩
    cases h
  · constructor
    · intro h
      exact ⟨a, t, rfl, h⟩
    · rintro ⟨a, t, h, hf⟩
      cases h
      exact hf

/-- If the computation fails, it leaves the state as it was. -/
def FailsClean (x : ExceptT ε (StateM σ) α) : Prop :=
  ∀ s e t, x s = (.error e, t) → t = s

/-- The computation leaves the state as it is, and its values are those that `P` tells. -/
structure Yields (x : ExceptT ε (StateM σ) α) (P : σ → α → Prop) : Prop where
  failsClean : FailsClean x
  ok_iff : ∀ s t a, x s = (.ok a, t) ↔ P s a ∧ t = s

section Yields

variable {x : ExceptT ε (StateM σ) α} {P : σ → α → Prop} {f : α → ExceptT ε (StateM σ) β}

theorem yields_pure (a : α) : Yields (pure a : ExceptT ε (StateM σ) α) fun _ b => b = a where
  failsClean s e t h := by cases h
  ok_iff s t b := by
    constructor
    · intro h
      cases h
      exact ⟨rfl, rfl⟩
    · rintro ⟨rfl, rfl⟩
      rfl

theorem yields_throw_bind (e : ε) :
    Yields (throw e >>= f : ExceptT ε (StateM σ) β) fun _ _ => False where
  failsClean s e' t h := by
    cases h
    rfl
  ok_iff s t b := by
    refine iff_of_false ?_ (fun h => h.1)
    intro h
    cases h

variable (hx : Yields x P)

include hx

theorem Yields.congr {Q : σ → α → Prop} (h : ∀ s a, P s a ↔ Q s a) : Yields x Q where
  failsClean := hx.failsClean
  ok_iff s t a := by rw [hx.ok_iff, h]

/-- A condition under which the readings go on. -/
theorem Yields.guarded {y : ExceptT ε (StateM σ) α} {b : Bool} (hy : Yields y fun _ _ => False) :
    Yields (if (!b) = true then y else x) fun s a => b = true ∧ P s a := by
  cases b with
  | false => exact hy.congr fun s a => by simp
  | true => exact hx.congr fun s a => by simp

/-- What comes behind readings starts in the same state, with one of their values. -/
theorem Yields.bind_eq_ok_iff {s u : σ} {b : β} :
    (x >>= f) s = (.ok b, u) ↔ ∃ a, P s a ∧ f a s = (.ok b, u) := by
  rw [run_bind_eq_ok_iff]
  refine exists_congr fun a => ?_
  simp only [hx.ok_iff, and_assoc, exists_and_left, exists_eq_left]

/-- Behind readings a failure is one of them, or of what comes behind. -/
theorem Yields.bind_eq_error {s u : σ} {e : ε} (h : (x >>= f) s = (.error e, u)) :
    u = s ∨ ∃ a, P s a ∧ f a s = (.error e, u) := by
  rw [bind_apply] at h
  rcases hrun : x s with ⟨d | a, t⟩ <;> rw [hrun] at h
  · cases h
    exact .inl (hx.failsClean s _ _ hrun)
  · obtain ⟨ha, rfl⟩ := (hx.ok_iff s t a).1 hrun
    exact .inr ⟨a, ha, h⟩

theorem Yields.bind_failsClean (hf : ∀ a, FailsClean (f a)) : FailsClean (x >>= f) := by
  intro s e u h
  rcases hx.bind_eq_error h with hu | ⟨a, -, hu⟩
  · exact hu
  · exact hf a s e u hu

theorem Yields.bind {Q : α → σ → β → Prop} (hf : ∀ a, Yields (f a) (Q a)) :
    Yields (x >>= f) fun s b => ∃ a, P s a ∧ Q a s b where
  failsClean := hx.bind_failsClean fun a => (hf a).failsClean
  ok_iff s t b := by
    rw [hx.bind_eq_ok_iff, ← exists_and_right]
    refine exists_congr fun a => ?_
    rw [(hf a).ok_iff, and_assoc]

end Yields

theorem lift_bind_apply (x : StateM σ α) (f : α → ExceptT ε (StateM σ) β) (s : σ) :
    (ExceptT.lift x >>= f) s = f (x s).1 (x s).2 := by
  rfl

/-! ## Runs over a list -/

/-- What holds at the start and is kept by every step holds at the end of a run. The invariant may
speak of the items that are done. -/
theorem foldlM_induction {f : σ → α → Except ε σ} {l : List α} {I : List α → σ → Prop}
    (hstep : ∀ before x after s t, l = before ++ x :: after → I before s → f s x = .ok t →
      I (before ++ [x]) t)
    {start final : σ} (hstart : I [] start) (h : l.foldlM f start = .ok final) : I l final := by
  have run : ∀ (rest done : List α) (s : σ), l = done ++ rest → I done s →
      rest.foldlM f s = .ok final → I l final := by
    intro rest
    induction rest with
    | nil =>
      intro done s hl hI h
      rw [List.foldlM_nil] at h
      cases h
      rwa [hl, List.append_nil]
    | cons x rest ih =>
      intro done s hl hI h
      rw [List.foldlM_cons, bind_eq_ok_iff] at h
      obtain ⟨t, ht, h⟩ := h
      exact ih (done ++ [x]) t (by simp [hl]) (hstep done x rest s t hl hI ht) h
  exact run l [] start rfl hstart h

/-- No item fails, each seen with the items before it. -/
def NeverFails (failure : List α → α → Option ε) (l : List α) : Prop :=
  ∀ before x after, l = before ++ x :: after → failure before x = none

/-- `e` is the error at the first item that fails. -/
def FirstFailure (failure : List α → α → Option ε) (l : List α) (e : ε) : Prop :=
  ∃ before x after, l = before ++ x :: after ∧ failure before x = some e ∧
    NeverFails failure before

theorem NeverFails.concat {failure : List α → α → Option ε} {l : List α} {x : α}
    (h : NeverFails failure l) (hx : failure l x = none) : NeverFails failure (l ++ [x]) := by
  intro before y after heq
  rcases List.eq_nil_or_concat after with rfl | ⟨after, z, rfl⟩
  · obtain ⟨rfl, hxy⟩ := List.append_inj' heq rfl
    rwa [← List.singleton_inj.1 hxy]
  · rw [List.concat_eq_append, ← List.cons_append, ← List.append_assoc] at heq
    exact h before y after (List.append_inj' heq rfl).1

theorem NeverFails.not_firstFailure {failure : List α → α → Option ε} {l : List α} {e : ε}
    (h : NeverFails failure l) : ¬FirstFailure failure l e := by
  intro hex
  obtain ⟨before, x, after, hl, hx, -⟩ := hex
  rw [h before x after hl] at hx
  cases hx

/-- Where an item fails, no list that never fails goes on with it. -/
theorem NeverFails.eq_nil {failure : List α → α → Option ε} {before mid after rest : List α} {x : α}
    {e : ε} (h : NeverFails failure (before ++ mid)) (hx : failure before x = some e)
    (heq : x :: after = mid ++ rest) : mid = [] := by
  rcases mid with _ | ⟨y, mid⟩
  · rfl
  · obtain ⟨rfl, -⟩ := List.cons.inj heq
    rw [h before x mid rfl] at hx
    cases hx

theorem FirstFailure.unique {failure : List α → α → Option ε} {l : List α} {d e : ε}
    (hd : FirstFailure failure l d) (he : FirstFailure failure l e) : d = e := by
  obtain ⟨before, x, after, rfl, hx, hbefore⟩ := hd
  obtain ⟨before', x', after', hl, hx', hbefore'⟩ := he
  have hsame : before = before' := by
    rcases List.append_eq_append_iff.1 hl with ⟨mid, rfl, hmid⟩ | ⟨mid, rfl, hmid⟩
    · rw [hbefore'.eq_nil hx hmid, List.append_nil]
    · rw [hbefore.eq_nil hx' hmid, List.append_nil]
  subst hsame
  obtain ⟨rfl, -⟩ := List.cons.inj (List.append_cancel_left hl)
  exact Option.some.inj (hx.symm.trans hx')

section Outcome

variable {f : σ → α → Except ε σ} {l : List α} {failure : List α → α → Option ε}
  {I : List α → σ → Prop} {start : σ}
  (hfail : ∀ before x after s e, l = before ++ x :: after → I before s →
    failure before x = some e → f s x = .error e)
  (hok : ∀ before x after s, l = before ++ x :: after → I before s →
    failure before x = none → ∃ t, f s x = .ok t ∧ I (before ++ [x]) t)
  (hstart : I [] start)

include hfail hok hstart

/-- A run ends with the first error, or every step succeeds. -/
theorem foldlM_outcome :
    (∃ final, l.foldlM f start = .ok final ∧ I l final ∧ NeverFails failure l) ∨
      ∃ e, l.foldlM f start = .error e ∧ FirstFailure failure l e := by
  have run : ∀ (rest done : List α) (s : σ), l = done ++ rest → I done s →
      NeverFails failure done →
      (∃ final, rest.foldlM f s = .ok final ∧ I l final ∧ NeverFails failure l) ∨
        ∃ e, rest.foldlM f s = .error e ∧ FirstFailure failure l e := by
    intro rest
    induction rest with
    | nil =>
      intro done s hl hI hnever
      rw [List.append_nil] at hl
      exact .inl ⟨s, rfl, hl ▸ hI, hl ▸ hnever⟩
    | cons x rest ih =>
      intro done s hl hI hnever
      rw [List.foldlM_cons]
      rcases hx : failure done x with _ | e
      · obtain ⟨t, ht, hI'⟩ := hok done x rest s hl hI hx
        rw [ht, ok_bind]
        exact ih (done ++ [x]) t (by simp [hl]) hI' (hnever.concat hx)
      · rw [hfail done x rest s e hl hI hx, error_bind]
        exact .inr ⟨e, rfl, done, x, rest, hl, hx, hnever⟩
  exact run l [] start rfl hstart (by intro before x after h; simp at h)

theorem foldlM_eq_error_iff {e : ε} :
    l.foldlM f start = .error e ↔ FirstFailure failure l e := by
  rcases foldlM_outcome hfail hok hstart with ⟨final, hrun, -, hnever⟩ | ⟨d, hrun, hfirst⟩
  · rw [hrun]
    exact iff_of_false (by simp) hnever.not_firstFailure
  · rw [hrun, Except.error.injEq]
    constructor
    · intro heq
      subst heq
      exact hfirst
    · exact hfirst.unique

theorem foldlM_eq_ok_iff :
    (∃ final, l.foldlM f start = .ok final) ↔ NeverFails failure l := by
  rcases foldlM_outcome hfail hok hstart with ⟨final, hrun, -, hnever⟩ | ⟨d, hrun, hfirst⟩
  · exact iff_of_true ⟨final, hrun⟩ hnever
  · refine iff_of_false ?_ fun hnever => hnever.not_firstFailure hfirst
    intro hex
    obtain ⟨final, h⟩ := hex
    rw [hrun] at h
    cases h

end Outcome

end Overlay.Result
