import OctetPattern.Cause

/-!
# Outcomes

Reading is a chain of steps of which each may fail. `bind_eq_ok` and its
companions take a chain that succeeded apart. `Agree` compares two
chains that need not succeed: either both do, with related values, or
both fail, with related errors. `Blames` says which errors a chain may
have, if it fails.
-/

namespace OctetPattern

section
variable {ε α β γ δ : Type}

/-! ## Success -/

theorem bind_eq_ok {x : Except ε α} {f : α → Except ε β} {b : β} :
    (x >>= f) = .ok b ↔ ∃ a, x = .ok a ∧ f a = .ok b := by
  cases x <;> simp [bind, Except.bind]

theorem map_eq_ok {x : Except ε α} {f : α → β} {b : β} :
    x.map f = .ok b ↔ ∃ a, x = .ok a ∧ f a = b := by
  cases x <;> simp [Except.map]

@[simp] theorem placed_eq_ok {position : Nat} {x : Except Cause α} {a : α} :
    placed position x = .ok a ↔ x = .ok a := by
  cases x <;> simp [placed]

/-! ## Failure -/

theorem bind_eq_error {x : Except ε α} {f : α → Except ε β} {e : ε} :
    (x >>= f) = .error e ↔ x = .error e ∨ ∃ a, x = .ok a ∧ f a = .error e := by
  cases x <;> simp [bind, Except.bind]

theorem map_eq_error {x : Except ε α} {f : α → β} {e : ε} :
    x.map f = .error e ↔ x = .error e := by
  cases x <;> simp [Except.map]

theorem placed_eq_error {position : Nat} {x : Except Cause α} {e : SyntaxError} :
    placed position x = .error e ↔ ∃ cause, x = .error cause ∧ e = ⟨cause, position⟩ := by
  cases x <;> simp [placed, eq_comm]

/-- If the outcome is a failure, its error satisfies the condition. -/
def Blames (P : ε → Prop) (x : Except ε α) : Prop :=
  ∀ e, x = .error e → P e

section
variable {P : ε → Prop}

theorem blames_ok (a : α) : Blames P (.ok a) :=
  nofun

theorem blames_error {e : ε} : Blames P (.error e : Except ε α) ↔ P e := by
  constructor
  · exact fun h => h e rfl
  · rintro he _ ⟨⟩
    exact he

theorem Blames.imp {Q : ε → Prop} {x : Except ε α} (h : Blames P x)
    (hPQ : ∀ e, P e → Q e) : Blames Q x :=
  fun e he => hPQ e (h e he)

/-- What comes second may rely on the success of what comes first. -/
theorem Blames.bind_of_ok {x : Except ε α} {f : α → Except ε β} (hx : Blames P x)
    (hf : ∀ a, x = .ok a → Blames P (f a)) : Blames P (x >>= f) := by
  cases x with
  | error e => exact blames_error.mpr (hx e rfl)
  | ok a => exact hf a rfl

theorem Blames.bind {x : Except ε α} {f : α → Except ε β} (hx : Blames P x)
    (hf : ∀ a, Blames P (f a)) : Blames P (x >>= f) :=
  hx.bind_of_ok fun a _ => hf a

theorem Blames.map {x : Except ε α} (hx : Blames P x) (f : α → β) : Blames P (x.map f) := by
  cases x with
  | error e => exact blames_error.mpr (hx e rfl)
  | ok a => exact blames_ok (f a)

theorem Blames.mapM {f : α → Except ε β} (hf : ∀ a, Blames P (f a)) (all : List α) :
    Blames P (all.mapM f) := by
  induction all with
  | nil => exact blames_ok []
  | cons a all ih =>
    rw [List.mapM_cons]
    exact (hf a).bind fun _ => ih.bind fun _ => blames_ok _

end

/-! ## Agreement -/

/-- Two outcomes are both successes with related values or both failures
with related errors. -/
def Agree (E : ε → ε → Prop) (R : α → β → Prop) : Except ε α → Except ε β → Prop
  | .ok a, .ok b => R a b
  | .error d, .error e => E d e
  | _, _ => False

section
variable {E : ε → ε → Prop} {R : α → β → Prop} {S : γ → δ → Prop}

theorem agree_error {e : ε} {y : Except ε β} :
    Agree E R (.error e : Except ε α) y ↔ ∃ e', y = .error e' ∧ E e e' := by
  constructor
  · intro h
    cases y with
    | error e' => exact ⟨e', rfl, h⟩
    | ok b => exact h.elim
  · rintro ⟨e', rfl, he⟩
    exact he

theorem agree_ok {a : α} {y : Except ε β} :
    Agree E R (.ok a : Except ε α) y ↔ ∃ b, y = .ok b ∧ R a b := by
  constructor
  · intro h
    cases y with
    | error e => exact h.elim
    | ok b => exact ⟨b, rfl, h⟩
  · rintro ⟨b, rfl, hab⟩
    exact hab

theorem Agree.bind {x : Except ε α} {y : Except ε β} {f : α → Except ε γ} {g : β → Except ε δ}
    (h : Agree E R x y) (hfg : ∀ a b, R a b → Agree E S (f a) (g b)) :
    Agree E S (x >>= f) (y >>= g) := by
  rcases x with e | a
  · obtain ⟨e', rfl, he⟩ := agree_error.mp h
    exact he
  · obtain ⟨b, rfl, hab⟩ := agree_ok.mp h
    exact hfg a b hab

theorem Agree.map {x : Except ε α} {y : Except ε β} {f : α → γ} {g : β → δ}
    (h : Agree E R x y) (hfg : ∀ a b, R a b → S (f a) (g b)) :
    Agree E S (x.map f) (y.map g) := by
  rcases x with e | a
  · obtain ⟨e', rfl, he⟩ := agree_error.mp h
    exact he
  · obtain ⟨b, rfl, hab⟩ := agree_ok.mp h
    exact hfg a b hab

theorem Agree.imp {T : α → β → Prop} {x : Except ε α} {y : Except ε β} (h : Agree E R x y)
    (hRT : ∀ a b, R a b → T a b) : Agree E T x y := by
  rcases x with e | a
  · obtain ⟨e', rfl, he⟩ := agree_error.mp h
    exact he
  · obtain ⟨b, rfl, hab⟩ := agree_ok.mp h
    exact hRT a b hab

theorem Agree.imp_error {F : ε → ε → Prop} {x : Except ε α} {y : Except ε β} (h : Agree E R x y)
    (hEF : ∀ d e, E d e → F d e) : Agree F R x y := by
  rcases x with d | a
  · obtain ⟨e, rfl, he⟩ := agree_error.mp h
    exact hEF d e he
  · obtain ⟨b, rfl, hab⟩ := agree_ok.mp h
    exact hab

theorem agree_refl (hE : ∀ e, E e e) (x : Except ε α) : Agree E Eq x x := by
  rcases x with e | a
  · exact hE e
  · exact rfl

theorem Agree.placed {E : Cause → Cause → Prop} {F : SyntaxError → SyntaxError → Prop}
    {x : Except Cause α} {y : Except Cause β} {i j : Nat} (h : Agree E R x y)
    (hEF : ∀ cause cause', E cause cause' → F ⟨cause, i⟩ ⟨cause', j⟩) :
    Agree F R (OctetPattern.placed i x) (OctetPattern.placed j y) := by
  rcases x with cause | a
  · obtain ⟨cause', rfl, hcause⟩ := agree_error.mp h
    exact hEF cause cause' hcause
  · obtain ⟨b, rfl, hab⟩ := agree_ok.mp h
    exact hab

/-- Two chains that begin alike agree if they agree from there on. -/
theorem agree_bind_self (hE : ∀ e, E e e) (x : Except ε α) {f : α → Except ε γ}
    {g : α → Except ε δ} (hfg : ∀ a, Agree E S (f a) (g a)) :
    Agree E S (x >>= f) (x >>= g) := by
  refine (agree_refl hE x).bind ?_
  rintro a _ rfl
  exact hfg a

end
end
end OctetPattern
