import Mathlib.Logic.Basic
import Mathlib.Tactic.Common

/-!
# Programs that may fail half way

A `Fallible` program over a state ends with a value or with an error, and what it has changed up to
then stays changed either way. `Leaves P p s t` says what a failing run leaves behind: where `p`
fails from `s` with an error of `P`, the state is `t` afterwards; `Keeps P p s` says that it is `s`
itself. The rules below push both through a program, so that what is left behind is a condition on
the readings that succeed and on the first change that is made.
-/

namespace OnDemandVirt.Lib

/-- From a state to a value or an error, and the state afterwards. -/
def Fallible (σ ε α : Type) : Type := σ → Except ε α × σ

namespace Fallible

variable {σ τ ε α β : Type}

instance : Monad (Fallible σ ε) where
  pure a s := (.ok a, s)
  bind p f s :=
    match p s with
    | (.ok a, s') => f a s'
    | (.error e, s') => (.error e, s')

/-- A reading of the state. -/
def reads (r : σ → Except ε α) : Fallible σ ε α := fun s => (r s, s)

/-- A change of the state. -/
def modify (f : σ → σ) : Fallible σ ε Unit := fun s => (.ok (), f s)

/-- The current state. -/
def get : Fallible σ ε σ := fun s => (.ok s, s)

def throw (e : ε) : Fallible σ ε α := fun s => (.error e, s)

/-- A program over a part of the state. -/
def onPart (part : σ → τ) (set : σ → τ → σ) (p : σ → Fallible τ ε α) : Fallible σ ε α := fun s =>
  ((p s (part s)).1, set s (p s (part s)).2)

variable (P : ε → Prop)

/-- Where `p` fails from `s`, it leaves `t`. -/
def Leaves (p : Fallible σ ε α) (s t : σ) : Prop :=
  ∀ e s', P e → p s = (.error e, s') → s' = t

/-- Where `p` fails from `s`, it has changed nothing. -/
def Keeps (p : Fallible σ ε α) (s : σ) : Prop := Leaves P p s s

/-- `p` fails from `s`. -/
def Fails (p : Fallible σ ε α) (s : σ) : Prop := ∃ e s', P e ∧ p s = (.error e, s')

/-- No run of `p` fails. -/
def Total (p : Fallible σ ε α) : Prop := ∀ s, ¬ Fails P p s

/-- `p` leaves a part of the state as it is, failing or not. -/
def Frames (φ : σ → τ) (p : Fallible σ ε α) : Prop := ∀ s, φ (p s).2 = φ s

variable {P} {p : Fallible σ ε α} {f : α → Fallible σ ε β} {s t : σ}

theorem bind_ok {a : α} {s' : σ} (h : p s = (.ok a, s')) : (p >>= f) s = f a s' := by
  change (match p s with
    | (.ok a, s') => f a s'
    | (.error e, s') => (.error e, s')) = _
  rw [h]

theorem bind_error {e : ε} {s' : σ} (h : p s = (.error e, s')) : (p >>= f) s = (.error e, s') := by
  change (match p s with
    | (.ok a, s') => f a s'
    | (.error e, s') => (.error e, s')) = _
  rw [h]

/-- A run of a sequence fails in its first part or in its second. -/
theorem bind_eq_error {e : ε} {s' : σ} :
    (p >>= f) s = (.error e, s') ↔
      p s = (.error e, s') ∨ ∃ a t, p s = (.ok a, t) ∧ f a t = (.error e, s') := by
  rcases h : p s with ⟨_ | a, t⟩
  · rw [bind_error h]
    simp
  · rw [bind_ok h]
    simp

theorem Keeps.of_not_fails (h : ¬ Fails P p s) : Keeps P p s :=
  fun e s' he hp => absurd ⟨e, s', he, hp⟩ h

@[simp] theorem keeps_throw (e : ε) : Keeps P (throw e : Fallible σ ε α) s := by
  intro e' s' _ h
  cases h
  rfl

@[simp] theorem keeps_modify (g : σ → σ) : Keeps P (modify g : Fallible σ ε Unit) s := by
  intro e s' _ h
  cases h

@[simp] theorem not_fails_modify (g : σ → σ) : ¬ Fails P (modify g : Fallible σ ε Unit) s := by
  rintro ⟨e, s', -, h⟩
  cases h

@[simp] theorem not_fails_pure (a : α) : ¬ Fails P (pure a : Fallible σ ε α) s := by
  rintro ⟨e, s', -, h⟩
  cases h

theorem not_fails_throw {e : ε} (he : ¬ P e) : ¬ Fails P (throw e : Fallible σ ε α) s := by
  rintro ⟨e', s', he', h⟩
  cases h
  exact he he'

/-- A reading ahead of a program: what counts are the values that it can have. -/
theorem keeps_reads_bind {r : σ → Except ε α} :
    Keeps P (reads r >>= f) s ↔ ∀ a, r s = .ok a → Keeps P (f a) s := by
  constructor
  · intro h a ha e s' he hf
    refine h e s' he ?_
    rw [bind_ok (show reads r s = (.ok a, s) by rw [reads, ha]), hf]
  · intro h e s' he hf
    rcases bind_eq_error.1 hf with hr | ⟨a, t, hr, ht⟩
    · exact (congrArg Prod.snd hr).symm
    · cases hr' : r s with
      | error e' =>
        rw [reads, hr'] at hr
        cases hr
      | ok a' =>
        rw [reads, hr'] at hr
        cases hr
        exact h _ hr' e s' he ht

/-- A test ahead of a program. -/
theorem keeps_check_bind {r : σ → Except ε Unit} {f : Unit → Fallible σ ε β} :
    Keeps P (reads r >>= f) s ↔ (r s = .ok () → Keeps P (f ()) s) := by
  rw [keeps_reads_bind]
  exact ⟨fun h => h (), fun h _ => h⟩

theorem keeps_get_bind {f : σ → Fallible σ ε β} : Keeps P (get >>= f) s ↔ Keeps P (f s) s :=
  Iff.rfl

theorem fails_modify_bind {g : σ → σ} {f : Unit → Fallible σ ε β} :
    Fails P (modify g >>= f) s ↔ Fails P (f ()) (g s) := Iff.rfl

/-- A sequence: its second part has to undo what its first part has changed. -/
theorem keeps_bind :
    Keeps P (p >>= f) s ↔ Keeps P p s ∧ ∀ a s', p s = (.ok a, s') → Leaves P (f a) s' s := by
  constructor
  · intro h
    refine ⟨fun e s' he hp => h e s' he (bind_eq_error.2 (.inl hp)), fun a t hp e s' he hf => ?_⟩
    exact h e s' he (bind_eq_error.2 (.inr ⟨a, t, hp, hf⟩))
  · rintro ⟨hk, hl⟩ e s' he hpf
    rcases bind_eq_error.1 hpf with hp | ⟨a, t, hp, hf⟩
    · exact hk e s' he hp
    · exact hl a t hp e s' he hf

/-- A program whose rest does not fail. -/
theorem keeps_bind_of_not_fails (h : ∀ a s', p s = (.ok a, s') → ¬ Fails P (f a) s') :
    Keeps P (p >>= f) s ↔ Keeps P p s := by
  constructor
  · exact fun hk e s' he hp => hk e s' he (bind_eq_error.2 (.inl hp))
  · intro hk e s' he hpf
    rcases bind_eq_error.1 hpf with hp | ⟨a, t, hp, hf⟩
    · exact hk e s' he hp
    · exact absurd ⟨e, s', he, hf⟩ (h a t hp)

theorem not_fails_bind (hp : ¬ Fails P p s) (h : ∀ a s', p s = (.ok a, s') → ¬ Fails P (f a) s') :
    ¬ Fails P (p >>= f) s := by
  rintro ⟨e, s', he, hpf⟩
  rcases bind_eq_error.1 hpf with hp' | ⟨a, t, hp', hf⟩
  · exact hp ⟨e, s', he, hp'⟩
  · exact h a t hp' ⟨e, s', he, hf⟩

theorem not_fails_reads_bind {r : σ → Except ε α} (he : ∀ e, r s = .error e → ¬ P e)
    (h : ∀ a, r s = .ok a → ¬ Fails P (f a) s) : ¬ Fails P (reads r >>= f) s := by
  refine not_fails_bind ?_ fun a s' hr => ?_
  · rintro ⟨e, s', hP, hr⟩
    exact he e (congrArg Prod.fst hr) hP
  · obtain ⟨ha, rfl⟩ := Prod.mk.injEq .. ▸ hr
    exact h a ha

/-- Where the rest does not fail, what is left behind is what the first part leaves. -/
theorem leaves_bind_of_not_fails (h : ∀ a s', p s = (.ok a, s') → ¬ Fails P (f a) s') :
    Leaves P (p >>= f) s t ↔ Leaves P p s t := by
  constructor
  · exact fun hl e s' he hp => hl e s' he (bind_eq_error.2 (.inl hp))
  · intro hl e s' he hpf
    rcases bind_eq_error.1 hpf with hp | ⟨a, t', hp, hf⟩
    · exact hl e s' he hp
    · exact absurd ⟨e, s', he, hf⟩ (h a t' hp)

theorem total_pure (a : α) : Total P (pure a : Fallible σ ε α) := fun _ => not_fails_pure a

theorem total_modify (g : σ → σ) : Total P (modify g : Fallible σ ε Unit) :=
  fun _ => not_fails_modify g

theorem total_throw {e : ε} (he : ¬ P e) : Total P (throw e : Fallible σ ε α) :=
  fun _ => not_fails_throw he

theorem Total.bind (hp : Total P p) (hf : ∀ a, Total P (f a)) : Total P (p >>= f) :=
  fun s => not_fails_bind (hp s) fun a s' _ => hf a s'

theorem total_get : Total P (get : Fallible σ ε σ) := by
  rintro s ⟨e, s', -, h⟩
  cases h

theorem Total.keeps (hp : Total P p) : Keeps P p s := Keeps.of_not_fails (hp s)

/-! ### What stays as it is -/

variable {φ : σ → τ}

theorem frames_pure (a : α) : Frames φ (pure a : Fallible σ ε α) := fun _ => rfl

theorem frames_reads (r : σ → Except ε α) : Frames φ (reads r) := fun _ => rfl

theorem frames_modify {g : σ → σ} (h : ∀ s, φ (g s) = φ s) :
    Frames φ (modify g : Fallible σ ε Unit) := h

theorem frames_onPart {υ : Type} {part : σ → υ} {set : σ → υ → σ} {p : σ → Fallible υ ε α}
    (h : ∀ s x, φ (set s x) = φ s) : Frames φ (onPart part set p) := fun s => h s _

theorem Frames.bind (hp : Frames φ p) (hf : ∀ a, Frames φ (f a)) : Frames φ (p >>= f) := by
  intro s
  rcases h : p s with ⟨_ | a, t⟩
  · rw [bind_error h, ← hp s, h]
  · rw [bind_ok h, hf a t, ← hp s, h]

theorem Frames.eq {r : Except ε α} {s' : σ} (hp : Frames φ p) (h : p s = (r, s')) :
    φ s' = φ s := by
  rw [← hp s, h]

/-- Where `p` fails from `s`, it leaves a part of the state as it is. -/
def KeepsPart (P : ε → Prop) (φ : σ → τ) (p : Fallible σ ε α) (s : σ) : Prop :=
  ∀ e s', P e → p s = (.error e, s') → φ s' = φ s

theorem KeepsPart.of_not_fails (h : ¬ Fails P p s) : KeepsPart P φ p s :=
  fun e s' he hp => absurd ⟨e, s', he, hp⟩ h

/-- A part that the first program always leaves alone. -/
theorem keepsPart_bind (hp : Frames φ p) (h : ∀ a s', p s = (.ok a, s') → KeepsPart P φ (f a) s') :
    KeepsPart P φ (p >>= f) s := by
  intro e s' he hpf
  rcases bind_eq_error.1 hpf with hp' | ⟨a, t, hp', hf⟩
  · exact hp.eq hp'
  · calc φ s' = φ t := h a t hp' e s' he hf
      _ = φ s := hp.eq hp'

theorem keepsPart_reads_bind {r : σ → Except ε α} (h : ∀ a, r s = .ok a → KeepsPart P φ (f a) s) :
    KeepsPart P φ (reads r >>= f) s := by
  refine keepsPart_bind (frames_reads r) fun a s' hr => ?_
  obtain ⟨ha, rfl⟩ := Prod.mk.injEq .. ▸ hr
  exact h a ha

/-! ### Changes that a program does not see -/

/-- A change that can as well be made afterwards. -/
def Commutes (k : σ → σ) (p : Fallible σ ε α) : Prop := ∀ s, p (k s) = ((p s).1, k (p s).2)

variable {k : σ → σ}

theorem commutes_reads {r : σ → Except ε α} (h : ∀ s, r (k s) = r s) : Commutes k (reads r) := by
  intro s
  rw [reads, h, reads]

theorem commutes_onPart {part : σ → τ} {set : σ → τ → σ} {p : σ → Fallible τ ε α}
    (hpart : ∀ s, part (k s) = part s) (hp : ∀ s, p (k s) = p s)
    (hset : ∀ s x, set (k s) x = k (set s x)) : Commutes k (onPart part set p) := by
  intro s
  rw [onPart, hpart, hp, hset, onPart]

theorem Commutes.bind (hp : Commutes k p) (hf : ∀ a, Commutes k (f a)) :
    Commutes k (p >>= f) := by
  intro s
  have hk := hp s
  rcases h : p s with ⟨_ | a, t⟩
  · rw [h] at hk
    rw [bind_error hk, bind_error h]
  · rw [h] at hk
    rw [bind_ok hk, bind_ok h]
    exact hf a t

/-- A change ahead of a program that does not see it: it has to be none where the program fails. -/
theorem keeps_modify_bind_of_commutes {f : Unit → Fallible σ ε β} (h : Commutes k (f ())) :
    Keeps P (modify k >>= f) s ↔ ∀ e t, P e → f () s = (.error e, t) → k t = s := by
  have hrun : (modify k >>= f) s = ((f () s).1, k (f () s).2) := h s
  constructor
  · intro hk e t he ht
    refine hk e (k t) he ?_
    rw [hrun, ht]
  · intro hk e s' he hs
    rw [hrun] at hs
    rcases ht : f () s with ⟨r, t⟩
    rw [ht] at hs
    cases hs
    exact hk e t he ht

/-- A program over a part keeps the state when it keeps the part. -/
theorem keeps_onPart {part : σ → τ} {set : σ → τ → σ} {p : σ → Fallible τ ε α}
    (hset : ∀ x, set s x = s ↔ x = part s) :
    Keeps P (onPart part set p) s ↔ Keeps P (p s) (part s) := by
  constructor
  · intro h e x he hp
    refine (hset x).mp (h e (set s x) he ?_)
    rw [onPart, hp]
  · intro h e s' he hp
    rcases hx : p s (part s) with ⟨r, x⟩
    rw [onPart, hx] at hp
    cases hp
    exact (hset x).mpr (h e x he hx)

end Fallible

end OnDemandVirt.Lib
