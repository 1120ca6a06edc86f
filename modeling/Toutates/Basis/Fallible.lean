/-
# Computations that may fail

`Except` chained with `?`: a chain succeeds exactly when each of its parts does
(`Fallible.bind_eq_ok_iff`), and a loop over a list exactly when each of its turns does
(`Fallible.mapM_eq_ok_iff`).
-/

import Mathlib.Data.List.Forall2

namespace Basis
namespace Fallible

universe u v w

variable {α : Type w} {β : Type u} {ε : Type v}

/-- A chain succeeds when both parts do. -/
theorem bind_eq_ok_iff {γ : Type u} {a : Except ε β} {f : β → Except ε γ} {c : γ} :
    a.bind f = .ok c ↔ ∃ b, a = .ok b ∧ f b = .ok c := by
  cases a <;> simp [Except.bind]

/-- A map succeeds when its argument does. -/
theorem map_eq_ok_iff {γ : Type*} {a : Except ε β} {f : β → γ} {c : γ} :
    a.map f = .ok c ↔ ∃ b, a = .ok b ∧ f b = c := by
  cases a <;> simp [Except.map]

/-- A map has a result when its argument has one. -/
theorem exists_map_eq_ok_iff {γ : Type*} {a : Except ε β} {f : β → γ} : (∃ c, a.map f = .ok c) ↔ ∃ b, a = .ok b := by
  cases a <;> simp [Except.map]

/-- What happens to the error does not change a success. -/
theorem mapError_eq_ok_iff {ε' : Type*} {a : Except ε α} {f : ε → ε'} {b : α} : a.mapError f = .ok b ↔ a = .ok b := by
  cases a <;> simp [Except.mapError]

/-- `ok_or_else` with `?`. -/
theorem elim_eq_ok_iff {o : Option α} {e : ε} {a : α} : o.elim (.error e) .ok = Except.ok a ↔ o = some a := by
  cases o <;> simp

/-- A map over a list succeeds when every element does. -/
theorem mapM_eq_ok_iff {f : α → Except ε β} {l : List α} {l' : List β} :
    l.mapM f = .ok l' ↔ List.Forall₂ (fun a b => f a = .ok b) l l' := by
  induction l generalizing l' with
  | nil => cases l' <;> simp [pure, Except.pure]
  | cons a l ih =>
    rw [List.mapM_cons, List.forall₂_cons_left_iff]
    constructor
    · intro h
      obtain ⟨b, hb, h⟩ := bind_eq_ok_iff.1 h
      obtain ⟨rest, hrest, h⟩ := bind_eq_ok_iff.1 h
      obtain rfl := Except.ok.inj h
      exact ⟨b, rest, hb, ih.1 hrest, rfl⟩
    · rintro ⟨b, rest, hb, hrest, rfl⟩
      exact bind_eq_ok_iff.2 ⟨b, hb, bind_eq_ok_iff.2 ⟨rest, ih.2 hrest, rfl⟩⟩

/-- Lists of results, one result for each entry. -/
theorem exists_forall₂_iff {R : α → β → Prop} {l : List α} :
    (∃ l', List.Forall₂ R l l') ↔ ∀ a ∈ l, ∃ b, R a b := by
  induction l with
  | nil => simp
  | cons a l ih =>
    rw [List.forall_mem_cons, ← ih]
    constructor
    · rintro ⟨_, h⟩
      cases h with
      | cons hab hrest => exact ⟨⟨_, hab⟩, _, hrest⟩
    · rintro ⟨⟨b, hab⟩, l', hrest⟩
      exact ⟨b :: l', .cons hab hrest⟩

/-- The result for the entry at a place. -/
theorem getElem?_of_forall₂ {R : α → β → Prop} {l : List α} {l' : List β} (h : List.Forall₂ R l l') {i : ℕ} {a : α}
    (hi : l[i]? = some a) : ∃ b, l'[i]? = some b ∧ R a b := by
  obtain ⟨hlt, rfl⟩ := List.getElem?_eq_some_iff.1 hi
  have hlt' : i < l'.length := h.length_eq ▸ hlt
  exact ⟨l'[i], List.getElem?_eq_getElem hlt', h.get hlt hlt'⟩

/-- The entry that a result is for. -/
theorem exists_mem_of_forall₂ {R : α → β → Prop} {l : List α} {l' : List β} (h : List.Forall₂ R l l') {b : β}
    (hb : b ∈ l') : ∃ a ∈ l, R a b := by
  induction h with
  | nil => cases hb
  | cons hab _ ih =>
    rcases List.mem_cons.1 hb with rfl | hb
    · exact ⟨_, List.mem_cons_self, hab⟩
    · obtain ⟨a, ha, hr⟩ := ih hb
      exact ⟨a, List.mem_cons_of_mem _ ha, hr⟩

/-- Two lists of results for the same entries agree where the results for one entry do. -/
theorem map_eq_map_of_forall₂ {γ δ : Type*} {R : α → β → Prop} {S : α → γ → Prop} {f : β → δ} {f' : γ → δ} {l : List α}
    {l₁ : List β} {l₂ : List γ} (h₁ : List.Forall₂ R l l₁) (h₂ : List.Forall₂ S l l₂)
    (h : ∀ a ∈ l, ∀ b c, R a b → S a c → f b = f' c) : l₁.map f = l₂.map f' := by
  induction h₁ generalizing l₂ with
  | nil =>
    cases h₂
    rfl
  | cons hab _ ih =>
    cases h₂ with
    | cons hac hrest =>
      rw [List.map_cons, List.map_cons, h _ List.mem_cons_self _ _ hab hac,
        ih hrest fun a ha => h a (List.mem_cons_of_mem _ ha)]

end Fallible
end Basis
