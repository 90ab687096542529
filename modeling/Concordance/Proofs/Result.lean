import Concordance.Error
import Concordance.Proofs.Sequences

/-!
# Computations that can fail

A sequence of steps succeeds if each step does, and a computation that fails with
faults alone keeps its results where it is part of one that fails with errors.
-/

namespace Concordance.Result

open Sequences

variable {ε α β : Type}

@[simp] theorem ok_bind (a : α) (f : α → Except ε β) : (Except.ok a >>= f) = f a := rfl

@[simp] theorem error_bind (e : ε) (f : α → Except ε β) :
    ((Except.error e : Except ε α) >>= f) = .error e := rfl

@[simp] theorem pure_eq_ok (a : α) : (pure a : Except ε α) = .ok a := rfl

@[simp] theorem throw_eq_error (e : ε) : (throw e : Except ε α) = .error e := rfl

theorem bind_eq_ok_iff {x : Except ε α} {f : α → Except ε β} {b : β} :
    x >>= f = .ok b ↔ ∃ a, x = .ok a ∧ f a = .ok b := by
  cases x with
  | error e => simp
  | ok a => simp

theorem map_eq_ok_iff {f : α → β} {x : Except ε α} {b : β} :
    x.map f = .ok b ↔ ∃ a, x = .ok a ∧ f a = b := by
  cases x with
  | error e => simp [Except.map]
  | ok a => simp [Except.map]

theorem map_eq_error_iff {f : α → β} {x : Except ε α} {e : ε} :
    x.map f = .error e ↔ x = .error e := by
  cases x with
  | error e => simp [Except.map]
  | ok a => simp [Except.map]

theorem ite_error_eq_ok_iff {p : Prop} [Decidable p] {e : ε} {x : Except ε α} {a : α} :
    (if p then .error e else x) = .ok a ↔ ¬ p ∧ x = .ok a := by
  split
  · next hp => simp [hp]
  · next hp => simp [hp]

/-- Every step of a run over a list succeeds, in order. -/
theorem mapM_eq_ok_iff {f : α → Except ε β} {xs : List α} {ys : List β} :
    xs.mapM f = .ok ys ↔ List.Forall₂ (fun x y => f x = .ok y) xs ys := by
  induction xs generalizing ys with
  | nil => simp [List.mapM_nil, eq_comm]
  | cons x xs ih =>
      rw [List.mapM_cons, bind_eq_ok_iff, List.forall₂_cons_left_iff]
      constructor
      · rintro ⟨y, hy, hrest⟩
        obtain ⟨rest, hrest, hys⟩ := bind_eq_ok_iff.1 hrest
        exact ⟨y, rest, hy, ih.1 hrest, (Except.ok.inj hys).symm⟩
      · rintro ⟨y, rest, hy, hrest, rfl⟩
        exact ⟨y, hy, bind_eq_ok_iff.2 ⟨rest, ih.2 hrest, rfl⟩⟩

/-- A run over a list succeeds if each step does. -/
theorem exists_mapM_iff {f : α → Except ε β} {xs : List α} :
    (∃ ys, xs.mapM f = .ok ys) ↔ ∀ x ∈ xs, ∃ y, f x = .ok y := by
  simp only [mapM_eq_ok_iff]
  constructor
  · rintro ⟨ys, h⟩ x hm
    obtain ⟨y, -, hy⟩ := exists_beside h hm
    exact ⟨y, hy⟩
  · exact exists_forall₂

/-- A run over a list that keeps something of each entry beside its result. -/
theorem mapM_pair_eq_ok_iff {γ : Type} {f : α → Except ε β} {g : α → γ} {xs : List α}
    {ys : List (γ × β)} :
    (xs.mapM fun x => do return (g x, ← f x)) = .ok ys ↔
      List.Forall₂ (fun x y => y.1 = g x ∧ f x = .ok y.2) xs ys := by
  rw [mapM_eq_ok_iff]
  have hpair (x : α) (y : γ × β) :
      (do return (g x, ← f x)) = Except.ok y ↔ y.1 = g x ∧ f x = .ok y.2 := by
    rw [bind_eq_ok_iff]
    constructor
    · rintro ⟨b, hb, hy⟩
      cases hy
      exact ⟨rfl, hb⟩
    · rintro ⟨hg, hb⟩
      exact ⟨y.2, hb, by rw [← hg]; rfl⟩
  simp only [hpair]

/-- A run over a list succeeds with results that stand beside the entries of another. -/
theorem exists_mapM {γ : Type} {R : α → γ → Prop} {S : β → γ → Prop} {f : α → Except ε β}
    {xs : List α} {zs : List γ} (h : List.Forall₂ R xs zs)
    (hf : ∀ x z, R x z → ∃ y, f x = .ok y ∧ S y z) :
    ∃ ys, xs.mapM f = .ok ys ∧ List.Forall₂ S ys zs := by
  induction h with
  | nil => exact ⟨[], rfl, .nil⟩
  | cons hp _ ih =>
      obtain ⟨y, hy, hyz⟩ := hf _ _ hp
      obtain ⟨ys, hys, hrest⟩ := ih
      refine ⟨y :: ys, ?_, .cons hyz hrest⟩
      rw [List.mapM_cons, hy, ok_bind, hys]
      rfl

/-- Runs over lists whose entries stand beside each other come to the same. -/
theorem mapM_eq_mapM {γ : Type} {f : α → Except ε γ} {g : β → Except ε γ} {xs : List α}
    {ys : List β} (h : List.Forall₂ (fun x y => f x = g y) xs ys) : xs.mapM f = ys.mapM g := by
  induction h with
  | nil => rfl
  | cons hp _ ih => rw [List.mapM_cons, List.mapM_cons, hp, ih]

@[simp] theorem liftM_malformed_eq_ok_iff {x : Except Malformed α} {a : α} :
    (liftM x : Except SearchError α) = .ok a ↔ x = .ok a := by
  cases x with
  | error cause => exact ⟨nofun, nofun⟩
  | ok b => exact ⟨fun h => congrArg Except.ok (Except.ok.inj h), fun h => h ▸ rfl⟩

@[simp] theorem liftM_corruption_eq_ok_iff {x : Except Corruption α} {a : α} :
    (liftM x : Except SearchError α) = .ok a ↔ x = .ok a := by
  cases x with
  | error cause => exact ⟨nofun, nofun⟩
  | ok b => exact ⟨fun h => congrArg Except.ok (Except.ok.inj h), fun h => h ▸ rfl⟩

@[simp] theorem liftM_fault_eq_ok_iff {x : Except Fault α} {a : α} :
    (liftM x : Except SearchError α) = .ok a ↔ x = .ok a := by
  cases x with
  | error cause => exact ⟨nofun, nofun⟩
  | ok b => exact ⟨fun h => congrArg Except.ok (Except.ok.inj h), fun h => h ▸ rfl⟩

/-- A computation that fails does so with an error of this kind. -/
def Fails (kind : ε → Prop) (x : Except ε α) : Prop :=
  ∀ error, x = .error error → kind error

namespace Fails
variable {kind : ε → Prop}

theorem ok (a : α) : Fails kind (.ok a : Except ε α) := nofun

theorem error {e : ε} (h : kind e) : Fails kind (.error e : Except ε α) := by
  rintro _ ⟨⟩
  exact h

theorem bind {x : Except ε α} {f : α → Except ε β} (hx : Fails kind x)
    (hf : ∀ a, Fails kind (f a)) : Fails kind (x >>= f) := by
  cases x with
  | error e => exact error (hx e rfl)
  | ok a => exact hf a

theorem imp {other : ε → Prop} {x : Except ε α} (hx : Fails kind x)
    (h : ∀ error, kind error → other error) : Fails other x :=
  fun error herror => h error (hx error herror)

/-- A run over a list fails as its steps do. -/
theorem mapM {f : α → Except ε β} {xs : List α} (h : ∀ x ∈ xs, Fails kind (f x)) :
    Fails kind (xs.mapM f) := by
  induction xs with
  | nil => exact .ok []
  | cons x xs ih =>
      rw [List.forall_mem_cons] at h
      rw [List.mapM_cons]
      apply h.1.bind
      intro y
      apply (ih h.2).bind
      intro ys
      exact .ok (y :: ys)

theorem ite {p : Prop} [Decidable p] {x y : Except ε α} (hx : Fails kind x)
    (hy : Fails kind y) : Fails kind (if p then x else y) := by
  split
  · exact hx
  · exact hy

end Fails

@[simp] theorem liftM_fault_ok (a : α) :
    (liftM (Except.ok a : Except Fault α) : Except SearchError α) = .ok a := rfl

@[simp] theorem liftM_fault_error (fault : Fault) :
    (liftM (Except.error fault : Except Fault α) : Except SearchError α) =
      .error (.fault fault) := rfl

@[simp] theorem liftM_refusal_ok (a : α) :
    (liftM (Except.ok a : Except Refusal α) : Except SearchError α) = .ok a := rfl

@[simp] theorem liftM_refusal_error (refusal : Refusal) :
    (liftM (Except.error refusal : Except Refusal α) : Except SearchError α) =
      .error (.construction refusal) := rfl

end Concordance.Result
