/-
# What a client is answered

`get_data` waits for the reservations of its response one after the other and reads each
result when it finds its cell set, while other threads move.  A cell stays as it is once it is
set, so in the runs whose requests fit the client gets what `getData` computes from the results
that stand in the cells of its response when the run ends (`answered_eq_getData`).
-/

import Mathlib.Data.List.Forall2
import Toutates.Ring.Lifecycle

namespace Toutates

open Basis

variable {g : Geometry}

/-- The slots of a reservation, and the result that is in its output cell. -/
structure Delivered (s : SuperTensorBuffer g ℕ) (r : WriteReservation g) (d : Delivery) : Prop where
  start : d.start = r.start
  stop : d.stop = r.stop
  result : (s.states r.tracker r.output).output = some d.result

/-- Thread `i` was given the response `read ++ rest`, and `ds` are the results of `read`. -/
def Responded (s : SuperTensorBuffer g ℕ) (log : List (Event g ℕ)) (i : ℕ)
    (read rest : List (WriteReservation g)) (ds : List Delivery) : Prop :=
  (∃ h n, Event.responded i h n (read ++ rest) ∈ log) ∧ List.Forall₂ (Delivered s) read ds

/-- A client has read some reservations of its response, and goes on as `getDataFrom` does after
their results. -/
def Collected (s : SuperTensorBuffer g ℕ) (log : List (Event g ℕ)) (i : ℕ) (c : Collection g) : Prop :=
  ∃ read ds, Responded s log i read c.outputs ds ∧
    ∀ rest, getDataFrom (ds ++ rest) [] none = getDataFrom rest c.data (c.metadatas.map Prod.fst)

/-- What was answered is `getData` of the results of a response. -/
def Answered (s : SuperTensorBuffer g ℕ) (log : List (Event g ℕ)) (i : ℕ) (data : List (List UInt8))
    (metadatas : List Metadata) : Prop :=
  ∃ response ds, Responded s log i response [] ds ∧ getData ds = .ok (data, metadatas)

section Frame

variable {s s' : SuperTensorBuffer g ℕ} {log log' : List (Event g ℕ)} {i : ℕ} {c : Collection g}

/-- What a request has been given stays given. -/
theorem Responded.mono {read rest : List (WriteReservation g)} {ds : List Delivery}
    (h : Responded s log i read rest ds) (hk : ∀ x n, (s.states x n).Keeps (s'.states x n))
    (hlog : ∀ ev ∈ log, ev ∈ log') : Responded s' log' i read rest ds := by
  obtain ⟨⟨hd, n, hmem⟩, hread⟩ := h
  refine ⟨⟨hd, n, hlog _ hmem⟩, hread.imp fun r d hrd => ?_⟩
  exact ⟨hrd.start, hrd.stop, (hk _ _).output _ hrd.result⟩

/-- What a client has collected stays collected. -/
theorem Collected.mono (h : Collected s log i c) (hk : ∀ x n, (s.states x n).Keeps (s'.states x n))
    (hlog : ∀ ev ∈ log, ev ∈ log') : Collected s' log' i c := by
  obtain ⟨read, ds, hresp, hgo⟩ := h
  exact ⟨read, ds, hresp.mono hk hlog, hgo⟩

/-- What a client has been answered stays answered. -/
theorem Answered.mono {data : List (List UInt8)} {metadatas : List Metadata}
    (h : Answered s log i data metadatas) (hk : ∀ x n, (s.states x n).Keeps (s'.states x n))
    (hlog : ∀ ev ∈ log, ev ∈ log') : Answered s' log' i data metadatas := by
  obtain ⟨response, ds, hresp, hgo⟩ := h
  exact ⟨response, ds, hresp.mono hk hlog, hgo⟩

/-- A client that reads the next result goes on after it. -/
theorem Collected.read (h : Collected s log i c) {r : WriteReservation g} {rest : List (WriteReservation g)}
    (hc : c.outputs = r :: rest) {result : Except InferError SessionValues}
    (hout : (s.states r.tracker r.output).output = some result) {data : List (List UInt8)}
    {metadatas : List Metadata} {trace : Fin g.capacity × ℕ}
    (hd : getDataStep r.start r.stop result c.data (c.metadatas.map Prod.fst) = .ok (data, metadatas)) :
    Collected s log i ⟨rest, data, some (metadatas, trace)⟩ := by
  obtain ⟨read, ds, ⟨⟨hh, n, hmem⟩, hread⟩, hgo⟩ := h
  rw [hc] at hmem
  refine ⟨read ++ [r], ds ++ [⟨r.start, r.stop, result⟩], ⟨⟨hh, n, ?_⟩, ?_⟩, fun rest' => ?_⟩
  · rw [List.append_assoc]
    exact hmem
  · exact List.rel_append hread (List.Forall₂.cons ⟨rfl, rfl, hout⟩ List.Forall₂.nil)
  · rw [List.append_assoc, List.singleton_append, hgo, getDataFrom]
    simp only [hd, Attempt.bind, Option.map_some]

end Frame

/-- What is kept about a thread that collects its results. -/
def Pc.Collects (s : SuperTensorBuffer g ℕ) (log : List (Event g ℕ)) (i : ℕ) (pc : Pc g ℕ) : Prop :=
  ∀ c phase, pc = .getData c phase → Collected s log i c ∧ (phase = .recordTrace → c.outputs = [])

/-- The step of a thread keeps what is known of its own collection, and what it answers is
`getData` of its results. -/
theorem Transition.collects {i : ℕ} {s s' : SuperTensorBuffer g ℕ} {pc pc' : Pc g ℕ} {c : Choice}
    {e : Option (Event g ℕ)} {log : List (Event g ℕ)}
    (ht : Transition (CounterOps.unbounded g) i s pc c s' pc' e)
    (hk : ∀ x n, (s.states x n).Keeps (s'.states x n)) (hpc : pc.Collects s log i) :
    pc'.Collects s' (e.toList ++ log) i ∧ ∀ j data metadatas, e = some (.answered j data metadatas) →
      Answered s' (e.toList ++ log) j data metadatas := by
  have hlog : ∀ ev ∈ log, ev ∈ e.toList ++ log := fun ev => List.mem_append_right _
  cases ht with
  | respond ins r h =>
    refine ⟨fun c phase hc => ?_, by rintro _ _ _ ⟨⟩⟩
    obtain ⟨rfl, rfl⟩ := Pc.getData.inj hc
    exact ⟨⟨[], [], ⟨⟨_, _, List.mem_cons_self⟩, List.Forall₂.nil⟩, fun _ => rfl⟩, by rintro ⟨⟩⟩
  | allRead c m hc hm =>
    refine ⟨fun c' phase hc' => ?_, by rintro _ _ _ ⟨⟩⟩
    obtain ⟨rfl, rfl⟩ := Pc.getData.inj hc'
    exact ⟨(hpc c _ rfl).1, fun _ => hc⟩
  | createNotified c ticket =>
    refine ⟨fun c' phase hc' => ?_, by rintro _ _ _ ⟨⟩⟩
    obtain ⟨rfl, rfl⟩ := Pc.getData.inj hc'
    exact ⟨(hpc c _ rfl).1, by rintro ⟨⟩⟩
  | notReady c ticket =>
    refine ⟨fun c' phase hc' => ?_, by rintro _ _ _ ⟨⟩⟩
    obtain ⟨rfl, rfl⟩ := Pc.getData.inj hc'
    exact ⟨(hpc c _ rfl).1, by rintro ⟨⟩⟩
  | read c ticket r rest result data metadatas hc hout hd =>
    refine ⟨fun c' phase hc' => ?_, by rintro _ _ _ ⟨⟩⟩
    obtain ⟨rfl, rfl⟩ := Pc.getData.inj hc'
    exact ⟨(hpc c _ rfl).1.read hc hout hd, by rintro ⟨⟩⟩
  | awaitResponse c ticket x n polled phase hp =>
    refine ⟨fun c' phase' hc' => ?_, by rintro _ _ _ ⟨⟩⟩
    obtain ⟨rfl, rfl⟩ := Pc.getData.inj hc'
    refine ⟨(hpc c _ rfl).1.mono hk hlog, ?_⟩
    rcases hp with rfl | rfl <;> rintro ⟨⟩
  | answer c metadatas x n hm =>
    refine ⟨by rintro _ _ ⟨⟩, ?_⟩
    rintro _ _ _ ⟨⟩
    obtain ⟨⟨read, ds, hresp, hgo⟩, hnil⟩ := hpc c _ rfl
    rw [hnil rfl] at hresp
    refine ⟨read, ds, hresp.mono hk hlog, ?_⟩
    have hlast := hgo []
    rw [List.append_nil, hm] at hlast
    exact hlast
  | _ => exact ⟨by rintro _ _ ⟨⟩, by rintro _ _ _ ⟨⟩⟩

/-- **A client is answered what its batches computed.**  In a run whose accepted requests fit,
what `get_data` returned is `getData` of the results that stand in the output cells of the
reservations that `infer` gave to the same thread, in order. -/
theorem answered_eq_getData {w : RingWorld g ℕ} (h : Runs (CounterOps.unbounded g) (Fits g) w) {i : ℕ}
    {data : List (List UInt8)} {metadatas : List Metadata}
    (hev : Event.answered i data metadatas ∈ w.log) : Answered w.shared w.log i data metadatas := by
  suffices hI : (∀ i, (w.threads i).Collects w.shared w.log i) ∧ ∀ i data metadatas,
      Event.answered i data metadatas ∈ w.log → Answered w.shared w.log i data metadatas from
    hI.2 i data metadatas hev
  obtain ⟨inputTensors, h⟩ := h
  refine h.invariant (I := fun v => (∀ i, (v.threads i).Collects v.shared v.log i) ∧
    ∀ i data metadatas, Event.answered i data metadatas ∈ v.log →
      Answered v.shared v.log i data metadatas) ⟨?_, ?_⟩ fun v a v' hv hI _ hs => ?_
  · rintro i c phase ⟨⟩
  · exact fun _ _ _ hmem => absurd hmem List.not_mem_nil
  · have hK := lifecycle_holds ⟨inputTensors, hv⟩
    obtain ⟨e, ht, hlog⟩ := transition_of_step hs
    have hk := keeps_step ht hK.shared (hK.own a.thread)
    obtain ⟨hmoved, hanswer⟩ := ht.collects hk (hI.1 a.thread)
    have hgrow : ∀ ev ∈ v.log, ev ∈ v'.log := fun ev hmem => by
      rw [hlog]
      exact List.mem_append_right _ hmem
    rw [← hlog] at hmoved hanswer
    refine ⟨fun j c phase hc => ?_, fun j data metadatas hmem => ?_⟩
    · by_cases hj : j = a.thread
      · subst hj
        exact hmoved c phase hc
      · rw [Program.step_threads hs hj] at hc
        obtain ⟨hcol, hnil⟩ := hI.1 j c phase hc
        exact ⟨hcol.mono hk hgrow, hnil⟩
    · rw [hlog] at hmem
      rcases List.mem_append.1 hmem with hmem | hmem
      · exact hanswer j data metadatas (Option.mem_toList.1 hmem)
      · exact (hI.2 j data metadatas hmem).mono hk hgrow

end Toutates
