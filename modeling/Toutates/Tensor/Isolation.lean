/-
# What a copy leaves in the tensor of a batch

A request copies its rows into the slots it reserved, in a tensor that other requests write
to as well.  Nothing but the slot says where the copy starts, and nothing but the bytes of the
request says where it ends.

`Copy.run_ok` is what a copy that returns writes, over any contents the tensor may have, and
`Copy.isolated_iff` says when these are its own rows and all of them.  `Copy.result_ok` and
`Copy.result_err` say when a copy returns and when it is refused.
-/

import Toutates.Tensor.Batched

namespace Toutates

open Basis

variable {batchSize : ℕ}

/-- The bytes of one row of a tensor that can be written. -/
def BatchableTensor.rowBytes (t : BatchableTensor batchSize) : ℕ :=
  t.tensorSize * t.dataType.copyWidth.getD 0

/-- A batch has the bytes of all of its rows. -/
theorem BatchableTensor.data_length_rowBytes (t : BatchableTensor batchSize)
    (h : t.dataType.copyWidth.isSome) : t.innerTensor.data.length = batchSize * t.rowBytes := by
  obtain ⟨w, hw⟩ := Option.isSome_iff_exists.1 h
  rw [t.data_length (TensorElementType.readWidth_of_copyWidth hw), rowBytes, hw, Option.getD_some]

/-- The request's bytes for the rows `start .. stop` of one of its tensors. -/
def TensorBytes.slice (t : TensorBytes) (dim0 start stop : ℕ) : List UInt8 :=
  segment t.data (start * t.bytesPerIndex dim0) ((stop - start) * t.bytesPerIndex dim0)

/-- A stretch of a list is one of its infixes. -/
theorem segment_isInfix (xs : List UInt8) (a n : ℕ) : segment xs a n <:+: xs :=
  (List.take_prefix _ _).isInfix.trans (List.drop_suffix _ _).isInfix

namespace BatchableTensor

variable {t t' : BatchableTensor batchSize} {slot : ℕ} {src : List UInt8}

/-- A copy that returns had whole elements to write and room for them. -/
theorem copyAtFromBytes_of_ok (h : t.copyAtFromBytes slot src = .ok t') :
    ∃ w, t.dataType.copyWidth = some w ∧
      slot * t.tensorSize + src.length / w ≤ numElements t.innerTensor.shape ∧
      src.length / w * w = src.length ∧
      t'.innerTensor.data = overwrite t.innerTensor.data (slot * t.rowBytes) src := by
  unfold copyAtFromBytes at h
  split at h
  · rename_i w hw
    unfold copyTensorSliceFromBytes at h
    split_ifs at h with h₁ h₂
    obtain rfl := Attempt.ok.inj h
    refine ⟨w, hw, Nat.le_of_not_lt h₁, not_not.1 h₂, ?_⟩
    rw [withData_data, rowBytes, hw, Option.getD_some, Nat.mul_assoc]
  · cases h

/-- Whole elements that there is room for are written. -/
theorem copyAtFromBytes_ok {w : ℕ} (hw : t.dataType.copyWidth = some w)
    (h₁ : slot * t.tensorSize + src.length / w ≤ numElements t.innerTensor.shape)
    (h₂ : src.length / w * w = src.length) : ∃ t', t.copyAtFromBytes slot src = .ok t' := by
  unfold copyAtFromBytes
  split
  · rename_i w' hw'
    obtain rfl := Option.some.inj (hw.symm.trans hw')
    unfold copyTensorSliceFromBytes
    rw [dif_neg (Nat.not_lt_of_le h₁), dif_neg (not_not.2 h₂)]
    exact ⟨_, rfl⟩
  · rename_i hw'
    exact absurd (hw.symm.trans hw') (Option.some_ne_none _)

/-- Only an element type that has no arm is refused. -/
theorem copyAtFromBytes_of_err {e : InferError} (h : t.copyAtFromBytes slot src = .err e) :
    t.dataType.copyWidth = none := by
  unfold copyAtFromBytes at h
  split at h
  · unfold copyTensorSliceFromBytes at h
    split_ifs at h
  · rename_i hw
    exact hw

/-- A type that cannot be copied is refused. -/
theorem copyAtFromBytes_err (h : t.dataType.copyWidth = none) :
    t.copyAtFromBytes slot src = .err .unsupportedDataType := by
  unfold copyAtFromBytes
  split
  · rename_i w hw
    exact absurd (h.symm.trans hw) (Option.some_ne_none _).symm
  · rfl

/-- What a copy writes ends inside the data. -/
theorem write_le (h : t.copyAtFromBytes slot src = .ok t') :
    slot * t.rowBytes + src.length ≤ t.innerTensor.data.length := by
  obtain ⟨w, hw, h₁, h₂, -⟩ := copyAtFromBytes_of_ok h
  rw [rowBytes, hw, Option.getD_some, ← Nat.mul_assoc]
  exact copy_in_data t hw (Nat.not_lt_of_le h₁) (not_not.2 h₂)

end BatchableTensor

/-- A copy of rows `start .. stop` of the `i`-th tensor of a request to the slots of the
tensor `t` from `slot` on. -/
structure Copy (batchSize : ℕ) where
  t : BatchableTensor batchSize
  data : List TensorBytes
  i : ℕ
  start : ℕ
  stop : ℕ
  slot : ℕ

namespace Copy

/-- What the copy does. -/
def result (c : Copy batchSize) : Attempt InferError (BatchableTensor batchSize) :=
  c.t.copyInput c.data c.i c.start c.stop c.slot

/-- What the copy does, over any contents that `t` may have. -/
def run (c : Copy batchSize) (d : List UInt8) (h : d.length = c.t.innerTensor.data.length) :
    Attempt InferError (BatchableTensor batchSize) :=
  (c.t.withData d h).copyInput c.data c.i c.start c.stop c.slot

/-- Whatever the tensor held before the copy, afterwards the slots of the reservation hold one
stretch of the request's own bytes, and everything else is as it was. -/
structure Isolated (c : Copy batchSize) (tensor : TensorBytes) : Prop where
  rows : ∃ src, src <:+: tensor.data ∧ ∀ d h t', c.run d h = .ok t' →
    segment t'.innerTensor.data (c.slot * c.t.rowBytes) ((c.stop - c.start) * c.t.rowBytes) = src
  others : ∀ d h t', c.run d h = .ok t' → ∀ j,
    j < c.slot * c.t.rowBytes ∨ (c.slot + (c.stop - c.start)) * c.t.rowBytes ≤ j →
      t'.innerTensor.data[j]? = d[j]?

variable {c : Copy batchSize} {tensor : TensorBytes} {dim0 : ℤ} {dims : List ℤ}
  {t' : BatchableTensor batchSize}

/-- A copy that returns had a tensor to copy, with a dimension 0. -/
theorem tensor_of_ok (hok : c.result = .ok t') :
    ∃ tensor dim0 dims, c.data[c.i]? = some tensor ∧ tensor.shape = dim0 :: dims := by
  unfold result BatchableTensor.copyInput at hok
  split at hok
  · cases hok
  · rename_i tensor hi
    split at hok
    · cases hok
    · rename_i src hsrc
      obtain ⟨dim0, dims, hshape, -⟩ := TensorBytes.length_of_sliceDim0 hsrc
      exact ⟨tensor, dim0, dims, hi, hshape⟩

/-- What a copy that returns writes, over any contents: the request's bytes for its rows, as
many as the request's own division says, from its slot on. -/
theorem run_ok (hi : c.data[c.i]? = some tensor) (hshape : tensor.shape = dim0 :: dims)
    (hok : c.result = .ok t') :
    (tensor.slice (asUsize dim0) c.start c.stop).length =
        (c.stop - c.start) * tensor.bytesPerIndex (asUsize dim0) ∧
      c.slot * c.t.rowBytes + (tensor.slice (asUsize dim0) c.start c.stop).length ≤
        c.t.innerTensor.data.length ∧
      ∀ d h, ∃ t', c.run d h = .ok t' ∧ t'.innerTensor.data =
        overwrite d (c.slot * c.t.rowBytes) (tensor.slice (asUsize dim0) c.start c.stop) := by
  unfold result BatchableTensor.copyInput at hok
  simp only [hi] at hok
  split at hok
  · cases hok
  · rename_i src hsrc
    obtain ⟨d', dims', hs', -, -, -, hseg, hlen⟩ := TensorBytes.length_of_sliceDim0 hsrc
    obtain ⟨rfl, rfl⟩ := List.cons.inj (hshape.symm.trans hs')
    have hslice : tensor.slice (asUsize dim0) c.start c.stop = src := hseg.symm
    rw [hslice]
    refine ⟨hlen, BatchableTensor.write_le hok, fun d h => ?_⟩
    obtain ⟨w, hw, h₁, h₂, -⟩ := BatchableTensor.copyAtFromBytes_of_ok hok
    have hrun : c.run d h = (c.t.withData d h).copyAtFromBytes c.slot src := by
      rw [run, BatchableTensor.copyInput]
      simp only [hi, hsrc]
    obtain ⟨t₁, ht₁⟩ := BatchableTensor.copyAtFromBytes_ok (t := c.t.withData d h) hw h₁ h₂
    obtain ⟨-, -, -, -, hdata⟩ := BatchableTensor.copyAtFromBytes_of_ok ht₁
    exact ⟨t₁, hrun.trans ht₁, hdata⟩

/-- A copy that succeeds is to a tensor of whole rows. -/
theorem data_length_of_ok (hok : c.result = .ok t') :
    c.t.innerTensor.data.length = batchSize * c.t.rowBytes := by
  unfold result BatchableTensor.copyInput at hok
  split at hok
  · cases hok
  · split at hok
    · cases hok
    · obtain ⟨w, hw, -⟩ := BatchableTensor.copyAtFromBytes_of_ok hok
      exact c.t.data_length_rowBytes (by rw [hw]; rfl)

/-- A copy that is refused is of an element type that has no arm. -/
theorem of_result_err {e : InferError} (h : c.result = .err e) : c.t.dataType.copyWidth = none := by
  unfold result BatchableTensor.copyInput at h
  split at h
  · cases h
  · split at h
    · cases h
    · exact BatchableTensor.copyAtFromBytes_of_err h

/-- A copy of declared rows to an element type that has no arm is refused. -/
theorem result_err (hi : c.data[c.i]? = some tensor) (hshape : tensor.shape = dim0 :: dims)
    (hn : c.start < c.stop) (hstop : c.stop ≤ asUsize dim0) (hw : c.t.dataType.copyWidth = none) :
    c.result = .err .unsupportedDataType := by
  obtain ⟨src, hsrc⟩ := TensorBytes.sliceDim0_ok hshape hn hstop
  simp only [result, BatchableTensor.copyInput, hi, hsrc]
  exact BatchableTensor.copyAtFromBytes_err hw

/-- A copy of declared rows that have the model's size to slots of the batch returns. -/
theorem result_ok (hi : c.data[c.i]? = some tensor) (hshape : tensor.shape = dim0 :: dims)
    (hn : c.start < c.stop) (hstop : c.stop ≤ asUsize dim0)
    (hslot : c.slot + (c.stop - c.start) ≤ batchSize) {w : ℕ} (hw : c.t.dataType.copyWidth = some w)
    (hdata : tensor.data.length = asUsize dim0 * (c.t.tensorSize * w)) : ∃ t', c.result = .ok t' := by
  obtain ⟨src, hsrc⟩ := TensorBytes.sliceDim0_ok hshape hn hstop
  obtain ⟨d', dims', hs', -, hdim, -, -, hlen⟩ := TensorBytes.length_of_sliceDim0 hsrc
  obtain ⟨rfl, rfl⟩ := List.cons.inj (hshape.symm.trans hs')
  have hwpos := TensorElementType.readWidth_pos (TensorElementType.readWidth_of_copyWidth hw)
  have hlen' : src.length = (c.stop - c.start) * c.t.tensorSize * w := by
    rw [hlen, TensorBytes.bytesPerIndex, hdata, Nat.mul_div_cancel_left _ (Nat.pos_of_ne_zero hdim),
      Nat.mul_assoc]
  simp only [result, BatchableTensor.copyInput, hi, hsrc]
  refine BatchableTensor.copyAtFromBytes_ok hw ?_ ?_
  · rw [hlen', Nat.mul_div_cancel _ hwpos, ← Nat.add_mul, c.t.numElements_inner]
    exact Nat.mul_le_mul_right _ hslot
  · rw [hlen', Nat.mul_div_cancel _ hwpos]

section Length

variable {src : List UInt8} (hlen : src.length = (c.stop - c.start) * tensor.bytesPerIndex (asUsize dim0))
  (hle : c.slot * c.t.rowBytes + src.length ≤ c.t.innerTensor.data.length)
  (hrun : ∀ d h, ∃ t', c.run d h = .ok t' ∧ t'.innerTensor.data = overwrite d (c.slot * c.t.rowBytes) src)

include hlen hle hrun

/-- Rows that are too long run over into the next slot. -/
theorem not_isolated_of_lt (hn : c.start < c.stop) (hlt : c.t.rowBytes < tensor.bytesPerIndex (asUsize dim0)) :
    ¬ c.Isolated tensor := by
  intro hiso
  have hpos : 0 < c.stop - c.start := Nat.sub_pos_of_lt hn
  have hend : (c.stop - c.start) * c.t.rowBytes < src.length := by
    rw [hlen]
    exact Nat.mul_lt_mul_of_pos_left hlt hpos
  have hsum : (c.slot + (c.stop - c.start)) * c.t.rowBytes =
      c.slot * c.t.rowBytes + (c.stop - c.start) * c.t.rowBytes := Nat.add_mul _ _ _
  -- contents that differ from what the copy writes right behind its rows
  obtain ⟨b, hb⟩ : ∃ b : UInt8, src[(c.stop - c.start) * c.t.rowBytes] ≠ b := by
    by_cases h : src[(c.stop - c.start) * c.t.rowBytes] = 0
    · exact ⟨1, by rw [h]; decide⟩
    · exact ⟨0, h⟩
  let d := List.replicate c.t.innerTensor.data.length b
  have hd : d.length = c.t.innerTensor.data.length := List.length_replicate
  obtain ⟨t', ht', hdata⟩ := hrun d hd
  have hkept := hiso.others d hd t' ht' _ (.inr le_rfl)
  rw [hdata, getElem?_overwrite (by rw [hd]; exact hle), if_pos (by omega), hsum, Nat.add_sub_cancel_left,
    List.getElem?_eq_getElem hend, List.getElem?_replicate_of_lt (by omega)] at hkept
  exact hb (Option.some.inj hkept)

/-- Rows that are too short leave what was there. -/
theorem not_isolated_of_gt (hn : c.start < c.stop)
    (hgt : tensor.bytesPerIndex (asUsize dim0) < c.t.rowBytes)
    (hend : (c.slot + (c.stop - c.start)) * c.t.rowBytes ≤ c.t.innerTensor.data.length) :
    ¬ c.Isolated tensor := by
  intro hiso
  have hpos : 0 < c.stop - c.start := Nat.sub_pos_of_lt hn
  have hlt : src.length < (c.stop - c.start) * c.t.rowBytes := by
    rw [hlen]
    exact Nat.mul_lt_mul_of_pos_left hgt hpos
  rw [Nat.add_mul] at hend
  obtain ⟨rows, -, hrows⟩ := hiso.rows
  -- the byte behind what was written is that of the contents before
  have hold : ∀ b, rows[src.length]? = some b := by
    intro b
    let d := List.replicate c.t.innerTensor.data.length b
    have hd : d.length = c.t.innerTensor.data.length := List.length_replicate
    obtain ⟨t', ht', hdata⟩ := hrun d hd
    rw [← hrows d hd t' ht', hdata, getElem?_segment, if_pos hlt,
      getElem?_overwrite (by rw [hd]; exact hle), if_neg (by omega)]
    exact List.getElem?_replicate_of_lt (by omega)
  exact absurd (Option.some.inj ((hold 0).symm.trans (hold 1))) (by decide)

/-- Rows of the model's size are the rows of the reservation. -/
theorem isolated_of_eq (hsrc : src <:+: tensor.data)
    (heq : tensor.bytesPerIndex (asUsize dim0) = c.t.rowBytes) : c.Isolated tensor := by
  rw [heq] at hlen
  have hdata : ∀ d h t', c.run d h = .ok t' →
      t'.innerTensor.data = overwrite d (c.slot * c.t.rowBytes) src := by
    intro d h t' ht'
    obtain ⟨t₁, ht₁, hdata⟩ := hrun d h
    obtain rfl := Attempt.ok.inj (ht₁.symm.trans ht')
    exact hdata
  refine ⟨⟨src, hsrc, fun d h t' ht' => ?_⟩, fun d h t' ht' j hj => ?_⟩
  · rw [hdata d h t' ht', ← hlen]
    exact segment_overwrite (by rw [h]; exact hle)
  · rw [hdata d h t' ht', getElem?_overwrite (by rw [h]; exact hle), if_neg]
    rw [Nat.add_mul] at hj
    omega

end Length

/-- **Slots are isolated exactly where the request's rows have the size of the model's.**  A
copy that returns leaves its rows, and nothing but its rows, to the request if and only if the
bytes that the request's tensor has for each of its declared rows are those of a row of the
model's tensor. -/
theorem isolated_iff (hi : c.data[c.i]? = some tensor) (hshape : tensor.shape = dim0 :: dims)
    (hn : c.start < c.stop) (hslot : c.slot + (c.stop - c.start) ≤ batchSize)
    (hok : c.result = .ok t') :
    c.Isolated tensor ↔ tensor.bytesPerIndex (asUsize dim0) = c.t.rowBytes := by
  obtain ⟨hlen, hle, hrun⟩ := run_ok hi hshape hok
  constructor
  · intro hiso
    have hend : (c.slot + (c.stop - c.start)) * c.t.rowBytes ≤ c.t.innerTensor.data.length := by
      rw [data_length_of_ok hok]
      exact Nat.mul_le_mul_right _ hslot
    rcases lt_trichotomy (tensor.bytesPerIndex (asUsize dim0)) c.t.rowBytes with hlt | heq | hgt
    · exact absurd hiso (not_isolated_of_gt hlen hle hrun hn hlt hend)
    · exact heq
    · exact absurd hiso (not_isolated_of_lt hlen hle hrun hn hgt)
  · exact isolated_of_eq hlen hle hrun (segment_isInfix _ _ _)

end Copy

end Toutates
