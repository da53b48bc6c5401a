import Mathlib.Logic.Basic

/-!
# Loops that ask their environment before every pass

`while (avail ()) { body } full ()`, where each pass gets one answer of the environment: the loop
goes on while the answers let it and the body does not return. The end of the list of answers
counts as an answer that stops the loop.
-/

namespace OnDemandVirt.Lib

variable {α σ : Type*}

/-- The loop. `body` says whether the loop goes on (`true`) or the function returns. -/
def whileAvail (avail : α → Bool) (body : α → σ → σ × Bool) (full : σ → σ) : List α → σ → σ
  | [], s => full s
  | r :: rs, s =>
    if avail r then
      match body r s with
      | (s', true) => whileAvail avail body full rs s'
      | (s', false) => s'
    else full s

variable {avail : α → Bool} {body : α → σ → σ × Bool} {full : σ → σ}

/-- The rule of the loop: `P` holds before each pass, of the answers that are left and the state,
and `Q` after the function has returned. -/
theorem whileAvail_rule {P : List α → σ → Prop} {Q : σ → Prop}
    (hmore : ∀ r rs s, avail r = true → P (r :: rs) s → (body r s).2 = true → P rs (body r s).1)
    (hreturn : ∀ r rs s, avail r = true → P (r :: rs) s → (body r s).2 = false → Q (body r s).1)
    (hfull : ∀ rs s, P rs s → (∀ r ∈ rs.head?, avail r = false) → Q (full s)) :
    ∀ (rs : List α) (s : σ), P rs s → Q (whileAvail avail body full rs s) := by
  intro rs
  induction rs with
  | nil => exact fun s hP => hfull [] s hP (by simp)
  | cons r rs ih =>
    intro s hP
    rw [whileAvail]
    split
    next havail =>
      have hm := hmore r rs s havail hP
      have hq := hreturn r rs s havail hP
      generalize body r s = p at hm hq ⊢
      obtain ⟨s', _ | _⟩ := p
      · exact hq rfl
      · exact ih s' (hm rfl)
    next havail => exact hfull (r :: rs) s hP (by simpa using havail)

/-- The first pass of the loop. -/
theorem whileAvail_cons_of_more {r : α} {rs : List α} {s : σ} (havail : avail r = true)
    (hmore : (body r s).2 = true) :
    whileAvail avail body full (r :: rs) s = whileAvail avail body full rs (body r s).1 := by
  rw [whileAvail, if_pos havail]
  generalize body r s = p at hmore ⊢
  obtain ⟨s', b⟩ := p
  cases hmore
  rfl

/-- A first pass that returns. -/
theorem whileAvail_cons_of_return {r : α} {rs : List α} {s : σ} (havail : avail r = true)
    (hreturn : (body r s).2 = false) :
    whileAvail avail body full (r :: rs) s = (body r s).1 := by
  rw [whileAvail, if_pos havail]
  generalize body r s = p at hreturn ⊢
  obtain ⟨s', b⟩ := p
  cases hreturn
  rfl

end OnDemandVirt.Lib
