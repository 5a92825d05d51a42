/-! Attempts: computations on a state that may fail. A failure keeps the state that was reached. -/
namespace RowSpec

structure Attempt (σ ε α : Type) where
  run : σ → Except ε α × σ

namespace Attempt

variable {σ ε α β : Type}

protected def bind (x : Attempt σ ε α) (f : α → Attempt σ ε β) : Attempt σ ε β where
  run s := match x.run s with
    | (.ok a, s) => (f a).run s
    | (.error e, s) => (.error e, s)

instance : Monad (Attempt σ ε) where
  pure a := ⟨fun s => (.ok a, s)⟩
  bind := Attempt.bind

def fail (e : ε) : Attempt σ ε α := ⟨fun s => (.error e, s)⟩

def read : Attempt σ ε σ := ⟨fun s => (.ok s, s)⟩

def write (s : σ) : Attempt σ ε Unit := ⟨fun _ => (.ok (), s)⟩

def update (f : σ → σ) : Attempt σ ε Unit := ⟨fun s => (.ok (), f s)⟩

@[simp] theorem run_pure (a : α) (s : σ) : (pure a : Attempt σ ε α).run s = (.ok a, s) := rfl

@[simp] theorem run_fail (e : ε) (s : σ) : (fail e : Attempt σ ε α).run s = (.error e, s) := rfl

@[simp] theorem run_read (s : σ) : (read : Attempt σ ε σ).run s = (.ok s, s) := rfl

@[simp] theorem run_write (s t : σ) : (write t : Attempt σ ε Unit).run s = (.ok (), t) := rfl

@[simp] theorem run_update (f : σ → σ) (s : σ) :
    (update f : Attempt σ ε Unit).run s = (.ok (), f s) := rfl

theorem run_bind (x : Attempt σ ε α) (f : α → Attempt σ ε β) (s : σ) :
    (x >>= f).run s = match x.run s with
      | (.ok a, s) => (f a).run s
      | (.error e, s) => (.error e, s) := rfl

theorem run_bind_ok {x : Attempt σ ε α} {f : α → Attempt σ ε β} {s t : σ} {a : α}
    (h : x.run s = (.ok a, t)) : (x >>= f).run s = (f a).run t := by
  rw [run_bind, h]

theorem run_bind_error {x : Attempt σ ε α} {f : α → Attempt σ ε β} {s t : σ} {e : ε}
    (h : x.run s = (.error e, t)) : (x >>= f).run s = (.error e, t) := by
  rw [run_bind, h]

theorem run_bind_eq_ok {x : Attempt σ ε α} {f : α → Attempt σ ε β} {s u : σ} {b : β}
    (h : (x >>= f).run s = (.ok b, u)) :
    ∃ a t, x.run s = (.ok a, t) ∧ (f a).run t = (.ok b, u) := by
  rw [run_bind] at h
  split at h
  · next a t ha => exact ⟨a, t, ha, h⟩
  · cases h

theorem run_bind_eq_error {x : Attempt σ ε α} {f : α → Attempt σ ε β} {s u : σ} {e : ε}
    (h : (x >>= f).run s = (.error e, u)) :
    x.run s = (.error e, u) ∨ ∃ a t, x.run s = (.ok a, t) ∧ (f a).run t = (.error e, u) := by
  rw [run_bind] at h
  split at h
  · next a t ha => exact Or.inr ⟨a, t, ha, h⟩
  · next e' t he => cases h; exact Or.inl he

end Attempt

end RowSpec
