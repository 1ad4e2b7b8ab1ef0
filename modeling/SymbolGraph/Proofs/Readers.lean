/-!
# What readers give

A property of what a reader gives follows the structure of the reader.
-/
namespace SymbolGraph

variable {σ α β : Type} {p q : StateT σ Option α} {P Q : α → Prop} {R : β → Prop}

/-- Whatever the reader gives, from wherever it starts, has the property. -/
def Gives (p : StateT σ Option α) (P : α → Prop) : Prop := ∀ cur a next, p cur = some (a, next) → P a

theorem Gives.mono (h : Gives p P) (himp : ∀ a, P a → Q a) : Gives p Q :=
  fun cur a next heq => himp a (h cur a next heq)

theorem gives_pure {a : α} (h : P a) : Gives (pure a : StateT σ Option α) P := by
  intro cur b next heq
  obtain ⟨rfl, rfl⟩ := Prod.mk.inj (Option.some.inj heq)
  exact h

theorem gives_fail : Gives (failure : StateT σ Option α) P := fun _ _ _ heq => nomatch heq

theorem Gives.bind {f : α → StateT σ Option β} (hp : Gives p P) (hf : ∀ a, P a → Gives (f a) R) :
    Gives (p >>= f) R := by
  intro cur b next heq
  obtain ⟨⟨a, mid⟩, ha, hb⟩ := Option.bind_eq_some_iff.1 heq
  exact hf a (hp cur a mid ha) mid b next hb

/-- Nothing has to be known about what is read first. -/
theorem Gives.after {f : α → StateT σ Option β} (hf : ∀ a, Gives (f a) R) : Gives (p >>= f) R :=
  Gives.bind (P := fun _ => True) (fun _ _ _ _ => trivial) fun a _ => hf a

theorem Gives.ite {c : Prop} [Decidable c] (hp : Gives p P) (hq : Gives q P) :
    Gives (if c then p else q) P := by
  split
  · exact hp
  · exact hq

/-- What is read first depends on a condition. -/
theorem Gives.bindIte {c : Prop} [Decidable c] {f : α → StateT σ Option β} (hp : Gives p P)
    (hq : Gives q P) (hf : ∀ a, P a → Gives (f a) R) : Gives (if c then p >>= f else q >>= f) R :=
  .ite (hp.bind hf) (hq.bind hf)

theorem Gives.afterIte {c : Prop} [Decidable c] {f : α → StateT σ Option β}
    (hf : ∀ a, Gives (f a) R) : Gives (if c then p >>= f else q >>= f) R :=
  .ite (.after hf) (.after hf)

theorem Gives.orElse (hp : Gives p P) (hq : Gives q P) : Gives (p <|> q) P := by
  intro cur a next heq
  change (p cur <|> q cur) = some (a, next) at heq
  cases hfirst : p cur with
  | some r =>
    rw [hfirst] at heq
    exact hp cur a next (hfirst.trans heq)
  | none =>
    rw [hfirst] at heq
    exact hq cur a next heq

end SymbolGraph
