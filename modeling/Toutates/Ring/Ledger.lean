/-
# The ledger of positions

Two facts about the log of every run, whatever the requests.  The positions that requests
take and seals skip follow one another: laid end to end they are the positions below
`head`, each once.  And a row is counted only after its piece was copied into every input
tensor of its batch.
-/

import Toutates.Ring.Rows

namespace Toutates

open Basis

variable {g : Geometry} {α : Type}

/-- The positions by which an event moved the head. -/
def Event.span : Event g ℕ → Option (ℕ × ℕ)
  | reserved _ h n => some (h, n)
  | padded _ h d => some (h, d)
  | _ => none

/-- The rows that an event copied into input tensor `i`. -/
def Event.copying (i : ℕ) : Event g ℕ → Option (ℕ × ℕ)
  | copied h j n => if j = i then some (h, n) else none
  | _ => none

/-- The rows that have been copied into input tensor `i`. -/
abbrev copiedRows (i : ℕ) (log : List (Event g ℕ)) : Set ℕ := rowsOf (Event.copying i) log

/-- The rows that are copied after one more copy. -/
theorem mem_copiedRows_cons {log : List (Event g ℕ)} {i h j n q : ℕ} :
    q ∈ copiedRows i ((some (Event.copied h j n)).toList ++ log) ↔
      q ∈ copiedRows i log ∨ j = i ∧ h ≤ q ∧ q < h + n := by
  by_cases hj : j = i
  · rw [copiedRows, mem_rowsOf_cons (show Event.copying i (Event.copied h j n) = some (h, n) by
      simp [Event.copying, hj])]
    simp [hj]
  · simp [copiedRows, rowsOf, Event.copying, hj]

/-- How many input tensors the piece in hand has been copied into. -/
def InsertPhase.copiedInputs : InsertPhase g → ℕ
  | copyInput i => i
  | _ => g.numInputs

/-- The insertion that a client is in, and how many input tensors its piece is copied to. -/
def Pc.copying : Pc g α → Option (Insertion g α × ℕ)
  | .insert ins phase => some (ins, phase.copiedInputs)
  | _ => none

/-- The shared part of `ledger`. -/
structure Ledger.Shared (s : SuperTensorBuffer g ℕ) (log : List (Event g ℕ)) : Prop where
  stacked : Stacked (log.filterMap Event.span) s.head
  copied : ∀ i < g.numInputs, countedRows log ⊆ copiedRows i log

/-- **The ledger of positions.** -/
def ledger (g : Geometry) : RingInv g ℕ where
  shared := Ledger.Shared
  own _ log pc := ∀ ins k, pc.copying = some (ins, k) → ∀ i < k, i < g.numInputs →
    ∀ q, ins.currentHead ≤ q → q < ins.currentHead + ins.toWrite (CounterOps.unbounded g) →
      q ∈ copiedRows i log
  apart _ _ := True
  symm _ := True.intro

namespace Ledger

variable {s s' : SuperTensorBuffer g ℕ} {log : List (Event g ℕ)} {pc pc' : Pc g ℕ}
  {K : RingInv g ℕ} {e : Option (Event g ℕ)}

/-- What a step has to show: the new shared facts, and those of the thread that moves. -/
theorem kept (hs : Shared s' (e.toList ++ log)) (ho : (ledger g).own s' (e.toList ++ log) pc')
    (hsub : ∀ i, copiedRows i log ⊆ copiedRows i (e.toList ++ log)) :
    ThreadInv.Kept K (ledger g) log s pc s' pc' e :=
  ⟨hs, ho, fun _ _ _ hm _ =>
    ⟨fun ins k hk i hi hn q h₁ h₂ => hsub i (hm ins k hk i hi hn q h₁ h₂), True.intro⟩⟩

/-- A step that moves no head and copies and counts nothing. -/
theorem quiet (hs : Shared s log) (ho : (ledger g).own s log pc) (hH : s'.head = s.head)
    (hspan : (e.toList ++ log).filterMap Event.span = log.filterMap Event.span)
    (hcount : countedRows (e.toList ++ log) = countedRows log)
    (hcopy : ∀ i, copiedRows i (e.toList ++ log) = copiedRows i log)
    (hpc : ∀ ins k, pc'.copying = some (ins, k) → k = 0 ∨ pc.copying = some (ins, k)) :
    ThreadInv.Kept K (ledger g) log s pc s' pc' e := by
  refine kept ⟨by rw [hH, hspan]; exact hs.stacked, fun i hi => ?_⟩ (fun ins k hk i hi hn q h₁ h₂ => ?_)
    fun i => (hcopy i).ge
  · rw [hcount, hcopy]
    exact hs.copied i hi
  · rw [hcopy]
    rcases hpc ins k hk with rfl | hk
    · exact absurd hi (Nat.not_lt_zero i)
    · exact ho ins k hk i hi hn q h₁ h₂

end Ledger

/-- Every step keeps the ledger. -/
theorem ledger_step {K : RingInv g ℕ} {i : ℕ} {s s' : SuperTensorBuffer g ℕ} {pc pc' : Pc g ℕ}
    {c : Choice} {e : Option (Event g ℕ)} {log : List (Event g ℕ)}
    (ht : Transition (CounterOps.unbounded g) i s pc c s' pc' e) (hs : Ledger.Shared s log)
    (ho : (ledger g).own s log pc) : ThreadInv.Kept K (ledger g) log s pc s' pc' e := by
  cases ht with
  | reserve request h n hh =>
    subst hh
    refine Ledger.kept ⟨hs.stacked.cons n, hs.copied⟩ (fun ins k hk j hj => ?_) fun _ => le_rfl
    obtain ⟨-, rfl⟩ := Prod.mk.inj (Option.some.inj hk)
    exact absurd hj (Nat.not_lt_zero j)
  | copy ins j hj t hc =>
    have hsub : ∀ i, copiedRows i log ⊆ copiedRows i ((some (Event.copied ins.currentHead j
        (ins.toWrite (CounterOps.unbounded g)))).toList ++ log) := fun i q hq =>
      mem_copiedRows_cons.2 (.inl hq)
    refine Ledger.kept ⟨hs.stacked, fun i hi => (hs.copied i hi).trans (hsub i)⟩
      (fun ins' k hk i hi hn q h₁ h₂ => ?_) hsub
    obtain ⟨rfl, rfl⟩ := Prod.mk.inj (Option.some.inj hk)
    rcases Nat.lt_or_ge i j with hlt | hge
    · exact hsub i (ho ins j rfl i hlt hn q h₁ h₂)
    · have heq : j = i := by
        simp only [InsertPhase.copiedInputs] at hi
        omega
      exact mem_copiedRows_cons.2 (.inr ⟨heq, h₁, h₂⟩)
  | copiedFirst ins j hj hslot =>
    refine Ledger.kept hs (fun ins' k hk i hi hn => ?_) fun _ => le_rfl
    obtain ⟨rfl, rfl⟩ := Prod.mk.inj (Option.some.inj hk)
    exact ho ins j rfl i (by omega) hn
  | copiedLater ins j hj hslot =>
    refine Ledger.kept hs (fun ins' k hk i hi hn => ?_) fun _ => le_rfl
    obtain ⟨rfl, rfl⟩ := Prod.mk.inj (Option.some.inj hk)
    exact ho ins j rfl i (by omega) hn
  | addWritten ins o t n r hr phase hp =>
    have hown := ho ins g.numInputs rfl
    refine Ledger.kept ⟨hs.stacked, fun i hi q hq => ?_⟩ (fun ins' k hk i hi hn => ?_) fun _ => le_rfl
    · rcases (mem_rowsOf_cons rfl).1 hq with hq | hq
      · exact hs.copied i hi hq
      · exact hown i hi hi q hq.1 hq.2
    · obtain ⟨rfl, rfl⟩ := Prod.mk.inj (Option.some.inj hk)
      exact hown i hn hn
  | nextBatch ins r h =>
    refine Ledger.quiet hs ho rfl rfl rfl (fun _ => rfl) fun ins' k hk => .inl ?_
    exact (Prod.mk.inj (Option.some.inj hk)).2.symm
  | pad e h d hh =>
    subst hh
    exact Ledger.kept ⟨hs.stacked.cons d, hs.copied⟩ (fun _ _ => elim_none rfl) fun _ => le_rfl
  | _ =>
    refine Ledger.quiet hs ho rfl rfl rfl (fun _ => rfl) ?_
    first
      | exact fun _ _ => .inr
      | exact fun _ _ => elim_none rfl

/-- The ledger holds in every run. -/
theorem ledger_holds {ok : RingGuard g ℕ} {w : RingWorld g ℕ}
    (h : Runs (CounterOps.unbounded g) ok w) : (ledger g).Holds w := by
  refine h.threadInv (ThreadInv.trivial _ _ _) (fun v _ => ThreadInv.trivial_holds v)
    (fun inputTensors => ⟨⟨Stacked.nil, fun i _ q hq => ?_⟩, fun _ _ _ => elim_none rfl,
      fun _ _ _ => True.intro⟩)
    fun i s pc c s' pc' e log ht _ _ _ hs ho => ledger_step ht hs ho
  obtain ⟨a, ha, -⟩ := hq
  exact absurd ha List.not_mem_nil

end Toutates
