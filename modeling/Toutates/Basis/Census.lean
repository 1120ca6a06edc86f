/-
# What threads have in hand

A measure gives every local state of a thread a number, and a thread at rest has nothing in hand.
The `census` of the threads is the sum: only finitely many of them have ever moved, so it is a
finite one, and a step changes it by what it changes in the thread that moves (`census_update`).

`Reach.balance` is the rule for books that are kept in the shared state: when every step leaves
`owed` and `paid` apart by what the thread has in hand, they are apart by the census in every
world that is reached.
-/

import Mathlib.Algebra.BigOperators.Finprod
import Mathlib.Algebra.Order.BigOperators.Group.Finset
import Mathlib.Data.Set.Card
import Toutates.Basis.Interleaving

namespace Basis

variable {σ ℓ ε π α : Type*}

/-- What the threads have in hand together. -/
noncomputable def census (f : ℓ → ℕ) (threads : ℕ → ℓ) : ℕ := ∑ᶠ i, f (threads i)

/-- Only finitely many threads have something in hand. -/
def Settled (f : ℓ → ℕ) (threads : ℕ → ℓ) : Prop := (Function.support fun i => f (threads i)).Finite

section Update

variable {f : ℓ → ℕ} {threads : ℕ → ℓ}

/-- Threads at rest are settled. -/
theorem settled_of_rest {l : ℓ} (hl : f l = 0) : Settled f fun _ => l := by
  have hempty : (Function.support fun _ : ℕ => f l) = ∅ := by
    rw [hl]
    exact Function.support_zero
  rw [Settled, hempty]
  exact Set.finite_empty

/-- Threads that hold nothing have nothing. -/
theorem census_eq_zero (h : ∀ i, f (threads i) = 0) : census f threads = 0 := by
  rw [census, finsum_congr h]
  exact finsum_zero

/-- Threads at rest have nothing. -/
theorem census_of_rest {l : ℓ} (hl : f l = 0) : (census f fun _ => l) = 0 :=
  census_eq_zero fun _ => hl

/-- A thread that moves leaves the threads settled. -/
theorem Settled.update (h : Settled f threads) (i : ℕ) (l : ℓ) : Settled f (Function.update threads i l) := by
  refine (h.insert i).subset fun j hj => ?_
  by_cases hji : j = i
  · exact Set.mem_insert_iff.2 (.inl hji)
  · refine Set.mem_insert_iff.2 (.inr ?_)
    rw [Function.mem_support, Function.update_of_ne hji] at hj
    exact hj

/-- A step of one thread changes the census by what that thread takes up and puts down. -/
theorem census_update (h : Settled f threads) (i : ℕ) (l : ℓ) :
    census f (Function.update threads i l) + f (threads i) = census f threads + f l := by
  have hsub : ∀ {ts : ℕ → ℓ} (hts : Settled f ts), (Function.support fun j => f (ts j)) ⊆
      ↑(insert i hts.toFinset) := by
    intro ts hts j hj
    exact Finset.mem_coe.2 (Finset.mem_insert_of_mem (hts.mem_toFinset.2 hj))
  have hupdate : (fun j => f (Function.update threads i l j)) =
      Function.update (fun j => f (threads j)) i (f l) := by
    funext j
    exact Function.apply_update (fun _ => f) threads i l j
  have hsub' : (Function.support fun j => f (Function.update threads i l j)) ⊆ ↑(insert i h.toFinset) := by
    intro j hj
    by_cases hji : j = i
    · exact Finset.mem_coe.2 (Finset.mem_insert.2 (.inl hji))
    · rw [Function.mem_support, Function.update_of_ne hji] at hj
      exact hsub h hj
  rw [census, census, finsum_eq_sum_of_support_subset _ hsub', finsum_eq_sum_of_support_subset _ (hsub h), hupdate,
    Finset.sum_update_of_mem (Finset.mem_insert_self i _), ← Finset.add_sum_erase _ _ (Finset.mem_insert_self i _),
    Finset.sdiff_singleton_eq_erase]
  omega

/-- One thread has no more in hand than all of them. -/
theorem le_census (h : Settled f threads) (i : ℕ) : f (threads i) ≤ census f threads :=
  single_le_finsum i h fun _ => Nat.zero_le _

/-- A bound on what each thread has in hand. -/
theorem census_le_mul {f' : ℓ → ℕ} {k : ℕ} (h : Settled f threads) (h' : Settled f' threads)
    (hle : ∀ i, f (threads i) ≤ f' (threads i) * k) : census f threads ≤ census f' threads * k := by
  have hsub : (Function.support fun i => f (threads i)) ⊆ ↑(h.toFinset ∪ h'.toFinset) := fun i hi =>
    Finset.mem_coe.2 (Finset.mem_union_left _ (h.mem_toFinset.2 hi))
  have hsub' : (Function.support fun i => f' (threads i)) ⊆ ↑(h.toFinset ∪ h'.toFinset) := fun i hi =>
    Finset.mem_coe.2 (Finset.mem_union_right _ (h'.mem_toFinset.2 hi))
  rw [census, census, finsum_eq_sum_of_support_subset _ hsub, finsum_eq_sum_of_support_subset _ hsub', Finset.sum_mul]
  exact Finset.sum_le_sum fun i _ => hle i

/-- A measure that is at most one counts the threads that have something in hand. -/
theorem census_eq_ncard (h : Settled f threads) (hone : ∀ l, f l ≤ 1) :
    census f threads = {i | f (threads i) = 1}.ncard := by
  have hfin : (Function.support fun i => f (threads i)).Finite := h
  have hset : {i | f (threads i) = 1} = ↑hfin.toFinset := by
    ext i
    have := hone (threads i)
    rw [Set.Finite.coe_toFinset, Function.mem_support]
    show f (threads i) = 1 ↔ f (threads i) ≠ 0
    omega
  rw [hset, Set.ncard_coe_finset, census, finsum_eq_sum_of_support_subset _ hfin.coe_toFinset.superset,
    Finset.card_eq_sum_ones]
  refine Finset.sum_congr rfl fun i hi => ?_
  have := hone (threads i)
  have := Function.mem_support.1 (hfin.mem_toFinset.1 hi)
  omega

end Update

/-- **The balance of a run.**  What is owed is what is paid and what the threads have in hand, when
it is so at the start and every allowed step keeps it; about a step, that the thread's own part is
covered may be used. -/
theorem Reach.balance {P : Program σ ℓ ε π α} {ok : Guard σ ℓ α} {w₀ w : World σ ℓ ε} (h : Reach P ok w₀ w)
    (f : ℓ → ℕ) (owed paid : σ → List ε → ℕ) (hfin : Settled f w₀.threads)
    (h₀ : owed w₀.shared w₀.log = paid w₀.shared w₀.log + census f w₀.threads)
    (hstep : ∀ (v : World σ ℓ ε) (a : Action α) s' l' e, Reach P ok w₀ v →
      ok a.thread v.shared (v.threads a.thread) a.choice →
      P a.thread v.shared (v.threads a.thread) a.choice = .next s' l' e →
      paid v.shared v.log + f (v.threads a.thread) ≤ owed v.shared v.log →
        owed s' (e.toList ++ v.log) + paid v.shared v.log + f (v.threads a.thread) =
          owed v.shared v.log + paid s' (e.toList ++ v.log) + f l') :
    Settled f w.threads ∧ owed w.shared w.log = paid w.shared w.log + census f w.threads := by
  refine h.invariant (I := fun v => Settled f v.threads ∧
    owed v.shared v.log = paid v.shared v.log + census f v.threads) ⟨hfin, h₀⟩ fun v a v' hv hI hok hs => ?_
  obtain ⟨hset, hbal⟩ := hI
  obtain ⟨s', l', e, hP, rfl⟩ := Program.step_eq_some.1 hs
  have hle := le_census hset a.thread
  have hmove := hstep v a s' l' e hv hok hP (by omega)
  have hcensus := census_update hset a.thread l'
  refine ⟨hset.update a.thread l', ?_⟩
  show owed s' (e.toList ++ v.log) = paid s' (e.toList ++ v.log) + census f (Function.update v.threads a.thread l')
  omega

end Basis
