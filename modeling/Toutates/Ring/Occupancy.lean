/-
# How full the ring is

Three places move the distance from `tail` to `head`: the head CAS of `infer`, which
adds the rows of a whole request, the seal, which rounds the head up to the end of a
batch, and the tail CAS.

`heads` is what holds in every run: the tail never passes the head, and the seal moves
the head to the end of the batch it seals.  The full check of `infer` compares the
head and the tail before the CAS and not the rows of the request, so the distance is
bounded by the ring only in the runs whose requests fit when they are accepted (`Fits`):
`head_le` there, and a request that does not fit breaks the bound where it is accepted.
-/

import Toutates.Ring.Window

namespace Toutates

open Basis

variable {g : Geometry} {α : Type}

/-- The head that a client has loaded and not yet compared with the tail. -/
def Pc.loadedHead : Pc g α → Option α
  | .infer _ (.loadTail h) => some h
  | _ => none

/-- The head that a client has found room at. -/
def Pc.admitted : Pc g α → Option α
  | .infer _ (.casHead h _) => some h
  | _ => none

/-- The loaded tail, once the head is known to be past its batch. -/
def Pc.cleared : Pc g α → Option α
  | .moveTail _ (.loadDirty t) | .moveTail _ (.casDirty t) | .moveTail _ (.casTail t) => some t
  | _ => none

/-- The batch, the head and the open slots of a seal before its CAS. -/
def Pc.sealing : Pc g α → Option (α × α × ℕ)
  | .execute e (.sealCasHead h d) => some (e, h, d)
  | _ => none

/-- A client asks for rows, and has rows left while it is inserting. -/
def Pc.Positive : Pc g α → Prop
  | .infer _ (.casHead _ n) => 0 < n
  | .insert ins _ => 0 < ins.clientBatchSize
  | _ => True

/-- A step of a thread that asks for rows, or has rows left, keeps it so. -/
theorem Transition.positive {ops : CounterOps g α} {i : ℕ} {s s' : SuperTensorBuffer g α} {pc pc' : Pc g α}
    {c : Choice} {e : Option (Event g α)} (ht : Transition ops i s pc c s' pc' e) (hpos : pc.Positive) :
    pc'.Positive := by
  cases ht with
  | notFull request h n hfull hn => exact Request.clientBatchSize_pos hn
  | nextBatch ins r h => exact Nat.pos_of_ne_zero h
  | _ =>
    first
      | exact True.intro
      | exact hpos

/-- In every run of calls, whatever state of the ring they start from, a client asks for rows. -/
theorem positive_of_reach [DecidableEq α] {ops : CounterOps g α} {ok : RingGuard g α} {w₀ w : RingWorld g α}
    (h : Reach (program ops) ok w₀ w) (h₀ : ∀ i, w₀.threads i = .idle) (i : ℕ) : (w.threads i).Positive := by
  refine h.invariant (I := fun v => ∀ j, (v.threads j).Positive) (fun j => ?_)
    (fun v a v' _ hv _ hs j => ?_) i
  · rw [h₀ j]
    exact True.intro
  · by_cases hj : j = a.thread
    · obtain ⟨e, ht, -⟩ := transition_of_step hs
      rw [hj]
      exact ht.positive (hv a.thread)
    · rw [Program.step_threads hs hj]
      exact hv j

/-- What `heads` says about a thread. -/
structure Heads.Own (s : SuperTensorBuffer g ℕ) (pc : Pc g ℕ) : Prop where
  positive : pc.Positive
  loadedHead : ∀ h, pc.loadedHead = some h → h ≤ s.head
  admitted : ∀ h, pc.admitted = some h → h < s.tail + g.slots
  cleared : ∀ t, pc.cleared = some t → t + g.batchSize < s.head
  sealing : ∀ e h d, pc.sealing = some (e, h, d) → e ≤ h ∧ 0 < d ∧ h + d = e + g.batchSize

/-- **The tail stays behind the head.** -/
def heads (g : Geometry) : RingInv g ℕ where
  shared s _ := s.tail ≤ s.head
  own s _ := Heads.Own s
  apart _ _ := True
  symm _ := True.intro

namespace Heads

variable {s s' : SuperTensorBuffer g ℕ} {log : List (Event g ℕ)} {pc pc' m : Pc g ℕ}
  {K : RingInv g ℕ} {e : Option (Event g ℕ)}

/-- What a thread has loaded stays below the counters. -/
theorem Own.mono (ho : Own s m) (hH : s.head ≤ s'.head) (hT : s.tail ≤ s'.tail) : Own s' m :=
  ⟨ho.positive, fun x hx => (ho.loadedHead x hx).trans hH,
    fun x hx => (ho.admitted x hx).trans_le (Nat.add_le_add_right hT _),
    fun t ht => (ho.cleared t ht).trans_le hH, ho.sealing⟩

/-- Only the facts of the thread that moves are new. -/
theorem kept (hle : s'.tail ≤ s'.head) (hH : s.head ≤ s'.head) (hT : s.tail ≤ s'.tail)
    (ho : Own s' pc') : ThreadInv.Kept K (heads g) log s pc s' pc' e :=
  ⟨hle, ho, fun _ _ _ hm _ => ⟨hm.mono hH hT, True.intro⟩⟩

/-- A thread that has loaded nothing yet. -/
theorem own_none (hpos : pc.Positive) (h₁ : pc.loadedHead = none) (h₂ : pc.admitted = none)
    (h₃ : pc.cleared = none) (h₄ : pc.sealing = none) : Own s pc :=
  ⟨hpos, fun _ => elim_none h₁, fun _ => elim_none h₂,
    fun _ => elim_none h₃, fun _ _ _ => elim_none h₄⟩

end Heads

/-- Every step keeps the tail behind the head. -/
theorem heads_step {i : ℕ} {s s' : SuperTensorBuffer g ℕ} {pc pc' : Pc g ℕ} {c : Choice}
    {e : Option (Event g ℕ)} {log : List (Event g ℕ)}
    (ht : Transition (CounterOps.unbounded g) i s pc c s' pc' e) (hlo : (life g).own s log pc)
    (hw : Window.Shared s log) (hwo : Window.Own s log pc) (hs : s.tail ≤ s.head)
    (ho : Heads.Own s pc) :
    ThreadInv.Kept ((life g).and (window g)) (heads g) log s pc s' pc' e := by
  have hpos := ht.positive ho.positive
  cases ht with
  | loadHead request =>
    refine Heads.kept hs le_rfl le_rfl ⟨hpos, fun h hh => ?_, fun _ => elim_none rfl,
      fun _ => elim_none rfl, fun _ _ _ => elim_none rfl⟩
    obtain rfl := Option.some.inj hh
    exact le_rfl
  | notFull request h n hfull hn =>
    refine Heads.kept hs le_rfl le_rfl ⟨hpos, fun _ => elim_none rfl, fun h' hh => ?_,
      fun _ => elim_none rfl, fun _ _ _ => elim_none rfl⟩
    obtain rfl := Option.some.inj hh
    have hnot := of_decide_eq_false hfull
    omega
  | reserve request h n hh =>
    subst hh
    exact Heads.kept (Nat.le_add_right_of_le hs) (Nat.le_add_right _ _) le_rfl
      (Heads.own_none hpos rfl rfl rfl rfl)
  | deadlinePoll e n ticket phase hp =>
    rcases hp with rfl | rfl <;>
      exact Heads.kept hs le_rfl le_rfl (Heads.own_none hpos rfl rfl rfl rfl)
  | sealOpen e d hb hd =>
    refine Heads.kept hs le_rfl le_rfl ⟨hpos, fun _ => elim_none rfl, fun _ => elim_none rfl,
      fun _ => elim_none rfl, fun e' h d' hsome => ?_⟩
    obtain ⟨rfl, rfl, rfl⟩ : e = e' ∧ s.head = h ∧ d = d' := by simpa [Pc.sealing] using hsome
    have hle : Blocks.lower g.batchSize e ≤ s.head := of_decide_eq_true hb
    rw [Blocks.lower_eq_of_dvd (hlo e .woken rfl).dvd] at hle
    simp only [CounterOps.unbounded, Blocks.lower_eq_of_dvd (hlo e .woken rfl).dvd] at hd
    split_ifs at hd with hlt
    obtain rfl := Option.some.inj hd
    omega
  | pad e h d hh =>
    subst hh
    exact Heads.kept (Nat.le_add_right_of_le hs) (Nat.le_add_right _ _) le_rfl
      (Heads.own_none hpos rfl rfl rfl rfl)
  | moveGo items t hb =>
    refine Heads.kept hs le_rfl le_rfl ⟨hpos, fun _ => elim_none rfl, fun _ => elim_none rfl,
      fun u hu => ?_, fun _ _ _ => elim_none rfl⟩
    obtain rfl := Option.some.inj hu
    have hlt := of_decide_eq_false hb
    simp only [CounterOps.unbounded, Blocks.lower_eq_of_dvd (hwo.loadedTail t rfl).1] at hlt
    omega
  | isDirty items t hd =>
    exact Heads.kept hs le_rfl le_rfl ⟨hpos, fun _ => elim_none rfl, fun _ => elim_none rfl,
      ho.cleared, fun _ _ _ => elim_none rfl⟩
  | takeFlag items t hd =>
    exact Heads.kept hs le_rfl le_rfl ⟨hpos, fun _ => elim_none rfl, fun _ => elim_none rfl,
      ho.cleared, fun _ _ _ => elim_none rfl⟩
  | retire items t htail =>
    subst htail
    have hlt := ho.cleared _ rfl
    have hT : (CounterOps.unbounded g).higherBound s.tail = s.tail + g.batchSize := by
      simp only [CounterOps.unbounded, Blocks.lower_eq_of_dvd hw.tail_dvd]
    refine Heads.kept ?_ le_rfl ?_ (Heads.own_none hpos rfl rfl rfl rfl)
    · simp only [hT]
      exact hlt.le
    · simp only [hT]
      exact Nat.le_add_right _ _
  | _ => exact Heads.kept hs le_rfl le_rfl (Heads.own_none hpos rfl rfl rfl rfl)

/-- The tail stays behind the head, in every run. -/
theorem heads_holds {ok : RingGuard g ℕ} {w : RingWorld g ℕ}
    (h : Runs (CounterOps.unbounded g) ok w) : (heads g).Holds w := by
  refine h.threadInv ((life g).and (window g)) (fun v hv => executors_hold hv)
    (fun inputTensors =>
      ⟨le_rfl, fun i => Heads.own_none True.intro rfl rfl rfl rfl, fun _ _ _ => True.intro⟩)
    fun i s pc c s' pc' e log ht _ hsh hown hs ho => heads_step ht hown.1 hsh.2 hown.2 hs ho

/-! ### The bound -/

/-- A request that is accepted fits the free slots of the ring. -/
def Fits (g : Geometry) : RingGuard g ℕ := fun _ s pc c =>
  ∀ request h n, pc = .infer request (.casHead h n) → c = .go → s.head = h →
    h + n ≤ s.tail + g.slots

/-- `Fits`, evaluated. -/
def fits (g : Geometry) : ℕ → SuperTensorBuffer g ℕ → Pc g ℕ → Choice → Bool
  | _, s, .infer _ (.casHead h n), .go => s.head != h || decide (h + n ≤ s.tail + g.slots)
  | _, _, _, _ => true

/-- A step that is checked to fit does. -/
theorem fits_spec {i : ℕ} {s : SuperTensorBuffer g ℕ} {pc : Pc g ℕ} {c : Choice}
    (h : fits g i s pc c = true) : Fits g i s pc c := by
  rintro request hd n rfl rfl hh
  simpa [fits, hh] using h

/-- Every request has one row. -/
def OneRow : RingGuard g ℕ := fun _ _ pc _ =>
  ∀ request h n, pc = .infer request (.casHead h n) → n = 1

/-- `OneRow`, evaluated. -/
def oneRow : ℕ → SuperTensorBuffer g ℕ → Pc g ℕ → Choice → Bool
  | _, _, .infer _ (.casHead _ n), _ => n == 1
  | _, _, _, _ => true

/-- A step that is checked to be of a request of one row is. -/
theorem oneRow_spec {i : ℕ} {s : SuperTensorBuffer g ℕ} {pc : Pc g ℕ} {c : Choice}
    (h : oneRow i s pc c = true) : OneRow i s pc c := by
  rintro request hd n rfl
  simpa [oneRow] using h

/-- The check of `infer` is enough for requests of one row. -/
theorem Runs.fits_of_oneRow {w : RingWorld g ℕ} (h : Runs (CounterOps.unbounded g) OneRow w) :
    Runs (CounterOps.unbounded g) (Fits g) w := by
  refine h.strengthen fun v i c hv hone request hd n hpc _ _ => ?_
  have hlt := ((heads_holds hv).own i).admitted hd (by rw [hpc, Pc.admitted])
  rw [hone request hd n hpc]
  omega

/-- The head is at most a turn of the ring ahead of the tail. -/
def bounded (g : Geometry) : RingInv g ℕ where
  shared s _ := s.head ≤ s.tail + g.slots
  own _ _ _ := True
  apart _ _ := True
  symm _ := True.intro

/-- A step of a request that fits keeps the bound. -/
theorem bounded_step {i : ℕ} {s s' : SuperTensorBuffer g ℕ} {pc pc' : Pc g ℕ} {c : Choice}
    {e : Option (Event g ℕ)} {log : List (Event g ℕ)} {K : RingInv g ℕ}
    (ht : Transition (CounterOps.unbounded g) i s pc c s' pc' e) (hfit : Fits g i s pc c)
    (hl : Life.Shared s log) (hlo : (life g).own s log pc) (hw : Window.Shared s log)
    (ho : Heads.Own s pc) (hs : s.head ≤ s.tail + g.slots) :
    ThreadInv.Kept K (bounded g) log s pc s' pc' e := by
  refine ⟨?_, True.intro, fun _ _ _ _ _ => ⟨True.intro, True.intro⟩⟩
  cases ht with
  | reserve request h n hh => exact hfit request h n rfl rfl hh
  | pad e h d hh =>
    -- the end of the batch of a holder is not past the executor head
    have hheld := hlo e .woken rfl
    have hend := (ho.sealing e h d rfl).2.2
    have hle := Blocks.add_le_of_dvd hheld.dvd hl.executorHead_dvd hheld.lt
    have hE := hw.executorHead_le
    simp only [bounded, CounterOps.unbounded]
    omega
  | retire items t htail =>
    have hle : s.tail ≤ Blocks.lower g.batchSize t + g.batchSize := by
      have := Blocks.lt_lower_add g.batchSize_pos t
      omega
    simp only [bounded, CounterOps.unbounded]
    omega
  | _ => exact hs

/-- The invariants on the counters, together. -/
theorem heads_all {ok : RingGuard g ℕ} {w : RingWorld g ℕ}
    (h : Runs (CounterOps.unbounded g) ok w) : (((life g).and (window g)).and (heads g)).Holds w :=
  (executors_hold h).and (heads_holds h)

/-- In a run whose accepted requests fit, the ring is never more than full. -/
theorem head_le {w : RingWorld g ℕ} (h : Runs (CounterOps.unbounded g) (Fits g) w) :
    w.shared.head ≤ w.shared.tail + g.slots := by
  have hJ : (bounded g).Holds w :=
    h.threadInv (((life g).and (window g)).and (heads g)) (fun v hv => heads_all hv)
      (fun inputTensors => ⟨Nat.zero_le _, fun _ => True.intro, fun _ _ _ => True.intro⟩)
      fun i s pc c s' pc' e log ht hfit hsh hown hs _ =>
        bounded_step ht hfit hsh.1.1 hown.1.1 hsh.1.2 hown.2 hs
  exact hJ.shared

/-- Rows are reserved by the `compare_exchange` of the head. -/
theorem Transition.of_reserved {ops : CounterOps g α} {i t n : ℕ} {s s' : SuperTensorBuffer g α}
    {pc pc' : Pc g α} {c : Choice} {h : α}
    (ht : Transition ops i s pc c s' pc' (some (.reserved t h n))) :
    (∃ request, pc = .infer request (.casHead h n)) ∧ c = .go ∧ s.head = h ∧
      s' = { s with head := ops.add h n } := by
  cases ht with
  | reserve request h n hh => exact ⟨⟨request, rfl⟩, rfl, hh, rfl⟩

/-- In a run whose accepted requests fit, what a request reserves is free: an earlier
position of the same slot lies in a batch that is finished and behind the tail. -/
theorem reserved_free {w w' : RingWorld g ℕ} {a : Action Choice} {t h n : ℕ}
    (hruns : Runs (CounterOps.unbounded g) (Fits g) w)
    (hfit : Fits g a.thread w.shared (w.threads a.thread) a.choice)
    (hs : (program (CounterOps.unbounded g)).step w a = some w') (hlog : w'.log = .reserved t h n :: w.log)
    {q k : ℕ} (hq : q + (k + 1) * g.slots < h + n) :
    Reached w.log (Blocks.lower g.batchSize q) .finished ∧
      Blocks.lower g.batchSize q + g.batchSize ≤ w.shared.tail := by
  obtain ⟨⟨request, hpc⟩, hc, hh, -⟩ := (transition_of_logged hs hlog).of_reserved
  have hle := hfit request h n hpc hc hh
  have hring : g.slots ≤ (k + 1) * g.slots := Nat.le_mul_of_pos_left _ (Nat.succ_pos k)
  have hw := (window_holds hruns).shared
  have hlow := Blocks.lower_le g.batchSize q
  have hlt : Blocks.lower g.batchSize q < w.shared.tail := by omega
  exact ⟨hw.passed _ (Blocks.lower_dvd _ q) hlt,
    Blocks.add_le_of_dvd (Blocks.lower_dvd _ q) hw.tail_dvd hlt⟩

/-- A request that is accepted without fitting takes the head out of the ring. -/
theorem lt_of_not_fits {w w' : RingWorld g ℕ} {a : Action Choice} {t h n : ℕ}
    (hs : (program (CounterOps.unbounded g)).step w a = some w') (hlog : w'.log = .reserved t h n :: w.log)
    (hnot : ¬ Fits g a.thread w.shared (w.threads a.thread) a.choice) :
    g.slots < w'.shared.head - w'.shared.tail := by
  obtain ⟨⟨request, hpc⟩, hc, hh, hs'⟩ := (transition_of_logged hs hlog).of_reserved
  have hlt : w.shared.tail + g.slots < h + n := by
    by_contra hle
    refine hnot fun request' h' n' hpc' _ _ => ?_
    obtain ⟨-, hph⟩ := Pc.infer.inj (hpc.symm.trans hpc')
    obtain ⟨rfl, rfl⟩ := InferPhase.casHead.inj hph
    omega
  rw [hs']
  simp only [CounterOps.unbounded]
  omega

/-- **The ring is never more than full, in the runs whose accepted requests fit.**  The
tail is behind the head by at most the slots of the ring, and a step that reserves takes
free positions.  The condition is exact: a request accepted without fitting breaks the
bound at once. -/
theorem occupancy_bounded_when_requests_fit {w : RingWorld g ℕ}
    (hruns : Runs (CounterOps.unbounded g) (Fits g) w) :
    (w.shared.tail ≤ w.shared.head ∧ w.shared.head - w.shared.tail ≤ g.slots) ∧
    ∀ a w' t h n, (program (CounterOps.unbounded g)).step w a = some w' →
      w'.log = .reserved t h n :: w.log →
      (Fits g a.thread w.shared (w.threads a.thread) a.choice →
        w'.shared.head - w'.shared.tail ≤ g.slots ∧
        ∀ q k, h ≤ q + (k + 1) * g.slots → q + (k + 1) * g.slots < h + n →
          Reached w.log (Blocks.lower g.batchSize q) .finished ∧
            Blocks.lower g.batchSize q + g.batchSize ≤ w.shared.tail) ∧
      (¬ Fits g a.thread w.shared (w.threads a.thread) a.choice →
        g.slots < w'.shared.head - w'.shared.tail) := by
  refine ⟨⟨(heads_holds hruns).shared, ?_⟩, fun a w' t h n hs hlog => ⟨fun hfit => ⟨?_, ?_⟩, ?_⟩⟩
  · have := head_le hruns
    omega
  · have := head_le (hruns.tail hfit hs)
    omega
  · exact fun q k _ hq => reserved_free hruns hfit hs hlog hq
  · exact lt_of_not_fits hs hlog

/-- A ring of two slots that two requests of one row have filled. -/
theorem occupancy_bounded_when_requests_fit_twoByOne :
    ∃ w : RingWorld twoByOne ℕ, w.shared.head = 2 ∧
      w.shared.head - w.shared.tail ≤ twoByOne.slots := by
  have hrun : (runFresh (CounterOps.unbounded twoByOne) (fits twoByOne) (fun _ _ => byteTensor 1)
      (reserve 0 byteRequest ++ reserve 1 byteRequest)).map (fun w => w.shared.head) = some 2 := by
    decide +kernel
  obtain ⟨w, hrun, hw⟩ := world_of_runFresh _ hrun
  exact ⟨w, hw, (occupancy_bounded_when_requests_fit
    (Runs.of_runFresh (fun _ _ _ _ => fits_spec) hrun)).1.2⟩

/-- Three rows are accepted into a ring of two slots. -/
theorem occupancy_can_exceed_the_ring :
    ¬ ∀ (g : Geometry) (w : RingWorld g ℕ), Runs (CounterOps.unbounded g) anyStep w →
      w.shared.head - w.shared.tail ≤ g.slots := by
  intro hall
  have hrun : (runFresh (CounterOps.unbounded twoByOne) (fun _ _ _ _ => true)
      (fun _ _ => byteTensor 1) (reserve 0 threeRows)).map
        (fun w => w.shared.head - w.shared.tail) = some 3 := by decide +kernel
  obtain ⟨w, hrun, hw⟩ := world_of_runFresh _ hrun
  have hle := hall twoByOne w (Runs.of_runFresh (fun _ _ _ _ _ => True.intro) hrun)
  rw [hw] at hle
  exact absurd hle (by decide)

/-! ### `RingFull` -/

/-- When a client compares its loaded head with the tail, the tail has not passed it. -/
def TailNotPast (g : Geometry) : RingGuard g ℕ := fun _ s pc c =>
  ∀ request h, pc = .infer request (.loadTail h) → c = .go → s.tail ≤ h

/-- `TailNotPast`, evaluated. -/
def tailNotPast (g : Geometry) : ℕ → SuperTensorBuffer g ℕ → Pc g ℕ → Choice → Bool
  | _, s, .infer _ (.loadTail h), .go => decide (s.tail ≤ h)
  | _, _, _, _ => true

/-- A step that is checked to see the tail not past does. -/
theorem tailNotPast_spec {i : ℕ} {s : SuperTensorBuffer g ℕ} {pc : Pc g ℕ} {c : Choice}
    (h : tailNotPast g i s pc c = true) : TailNotPast g i s pc c := by
  rintro request hd rfl rfl
  simpa [tailNotPast] using h

/-- A client in `infer` is refused: the step returns `RingFull`. -/
def Refused (w w' : RingWorld g ℕ) (a : Action Choice) : Prop :=
  (∃ request phase, w.threads a.thread = .infer request phase) ∧
    (program (CounterOps.unbounded g)).step w a = some w' ∧
    w'.log = .failed a.thread .ringFull :: w.log

/-- Who is refused has seen the ring full, or the tail past. -/
theorem Refused.isFull {w w' : RingWorld g ℕ} {a : Action Choice} (h : Refused w w' a) :
    ∃ request h, w.threads a.thread = .infer request (.loadTail h) ∧ a.choice = .go ∧
      (h < w.shared.tail ∨ g.slots ≤ h - w.shared.tail) := by
  obtain ⟨⟨request, phase, hpc⟩, hs, hlog⟩ := h
  have ht := transition_of_logged hs hlog
  rw [hpc] at ht
  generalize a.choice = c at ht
  generalize w'.shared = s' at ht
  generalize w'.threads a.thread = pc' at ht
  cases ht with
  | ringFull _ hd hfull => exact ⟨request, hd, hpc, rfl, of_decide_eq_true hfull⟩

/-- A client whose loaded head looks a ring ahead of the tail, or behind it, is refused. -/
theorem refused_of_loadedHead {w : RingWorld g ℕ} {i h : ℕ} (hh : (w.threads i).loadedHead = some h)
    (hfull : h < w.shared.tail ∨ g.slots ≤ h - w.shared.tail) : ∃ w', Refused w w' ⟨i, .go⟩ := by
  unfold Pc.loadedHead at hh
  split at hh
  · rename_i request h' hpc
    obtain rfl := Option.some.inj hh
    have hisFull : (CounterOps.unbounded g).isFull h' w.shared.tail = true := decide_eq_true hfull
    have hP : program (CounterOps.unbounded g) i w.shared (w.threads i) .go =
        .next w.shared .idle (some (.failed i .ringFull)) := by
      simp only [hpc, program, stepInfer, hisFull, if_true]
    obtain ⟨w', hs, -, -, hlog⟩ := Program.step_of_next hP
    exact ⟨w', ⟨request, _, hpc⟩, hs, hlog⟩
  · cases hh

/-- **`RingFull` is honest while the tail does not pass a loaded head.**  In a run where no
client compares a loaded head with a tail that is already past it, a client is refused
only in a state whose distance from tail to head is at least the ring. -/
theorem ringFull_honest_when_tail_not_past {w w' : RingWorld g ℕ} {a : Action Choice}
    (hruns : Runs (CounterOps.unbounded g) (TailNotPast g) w)
    (hok : TailNotPast g a.thread w.shared (w.threads a.thread) a.choice) (href : Refused w w' a) :
    g.slots ≤ w.shared.head - w.shared.tail := by
  obtain ⟨request, h, hpc, hc, hfull⟩ := href.isFull
  have hT := hok request h hpc hc
  have hH := ((heads_holds hruns).own a.thread).loadedHead h (by rw [hpc, Pc.loadedHead])
  omega

/-- A full ring of two slots refuses a third request. -/
theorem ringFull_honest_when_tail_not_past_twoByOne :
    ∃ w w' : RingWorld twoByOne ℕ, Refused w w' ⟨2, .go⟩ ∧
      twoByOne.slots ≤ w.shared.head - w.shared.tail := by
  have hrun : (runFresh (CounterOps.unbounded twoByOne) (tailNotPast twoByOne) (fun _ _ => byteTensor 1)
      (reserve 0 byteRequest ++ reserve 1 byteRequest ++ ⟨2, .infer byteRequest⟩ :: go 2 1)).map
      (fun w => (w.shared.tail, (w.threads 2).loadedHead)) = some (0, some 2) := by decide +kernel
  obtain ⟨w, hrun, hw⟩ := world_of_runFresh _ hrun
  obtain ⟨htail, hhead⟩ := Prod.mk.inj hw
  obtain ⟨w', href⟩ := refused_of_loadedHead hhead (.inr (by rw [htail]; decide))
  refine ⟨w, w', href, ringFull_honest_when_tail_not_past
    (Runs.of_runFresh (fun _ _ _ _ => tailNotPast_spec) hrun) ?_ href⟩
  intro request h _ _
  rw [htail]
  exact Nat.zero_le h

/-- The distance from tail to head is less than the ring. -/
def NotFull (g : Geometry) : RingGuard g ℕ := fun _ s _ _ => s.head - s.tail < g.slots

/-- A client that loads the head of an empty ring of four slots, and then sleeps while the
first batch is filled, executed and retired, is refused, although the ring never held
more than two rows since the client called. -/
theorem ringFull_can_be_dishonest :
    ¬ ∀ (g : Geometry) (w₁ w₂ w₃ : RingWorld g ℕ) (a : Action Choice),
      Runs (CounterOps.unbounded g) anyStep w₁ → w₁.threads a.thread = .idle →
      Reach (program (CounterOps.unbounded g)) (NotFull g) w₁ w₂ → Refused w₂ w₃ a →
        g.slots ≤ w₂.shared.head - w₂.shared.tail := by
  intro hall
  have hrun : (runFresh (CounterOps.unbounded fourByOne)
      (fun _ s _ _ => decide (s.head - s.tail < fourByOne.slots)) (fun _ _ => byteTensor 1)
      (⟨2, .infer byteRequest⟩ :: go 2 1 ++ reserve 3 byteRequest ++ insertRow 3 ++
        reserve 4 byteRequest ++ insertRow 4 ++ claimBatch 0 ++ runBatch 0 ++ go 0 5)).map
      (fun w => (w.shared.head, w.shared.tail, (w.threads 2).loadedHead)) = some (2, 1, some 0) := by
    decide +kernel
  obtain ⟨w, hrun, hw⟩ := world_of_runFresh _ hrun
  obtain ⟨hhead, hw⟩ := Prod.mk.inj hw
  obtain ⟨htail, hloaded⟩ := Prod.mk.inj hw
  obtain ⟨w', href⟩ := refused_of_loadedHead hloaded (.inl (by rw [htail]; decide))
  have hle := hall fourByOne _ w w' _ ⟨_, Reach.start⟩ rfl
    (reach_of_runFresh (fun i s pc c h => by simpa [NotFull] using h) hrun) href
  rw [hhead, htail] at hle
  exact absurd hle (by decide)

end Toutates
