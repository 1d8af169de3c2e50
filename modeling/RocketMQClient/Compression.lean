import RocketMQClient.DecodedMessage
import Mathlib.Data.List.Infix

/-!
# Compressing and uncompressing a body

`StreamCodec` is zlib as `UtilAll` uses it, call by call. A call of `inflate` consumes input
and fills at most the free bytes of the buffer. It returns `Z_OK` only if it made progress,
`Z_STREAM_END` once the end of the stream is delivered and an error code otherwise. How the
output is cut into calls is left open. `deflate` is called once, with `Z_FINISH`.

The loop of `uncompress` is run for a number of calls here, and has no result if it needs
more. What is left of the input and of the output bounds the calls that it makes.

An input is complete if it begins with a stream up to its end; what follows is not read.
-/

namespace RocketMQClient

structure StreamCodec where
  State : Type
  inflateInit : List UInt8 → State
  inflate : ℕ → State → ZStatus × List UInt8 × State
  availIn : State → ℕ
  /-- What the calls still to come deliver, and whether they reach the end of the stream. -/
  rest : State → List UInt8 × Bool
  fills : ∀ availOut s, (inflate availOut s).2.1.length ≤ availOut
  consumes : ∀ {availOut s status out t}, inflate availOut s = (status, out, t) →
    availIn t ≤ availIn s
  progress : ∀ {availOut s out t}, 0 < availOut → inflate availOut s = (.ok, out, t) →
    availIn t < availIn s ∨ out ≠ []
  rest_ok : ∀ {availOut s out t}, 0 < availOut → inflate availOut s = (.ok, out, t) →
    rest s = (out ++ (rest t).1, (rest t).2)
  rest_streamEnd : ∀ {availOut s out t}, 0 < availOut →
    inflate availOut s = (.streamEnd, out, t) → rest s = (out, true)
  rest_streamError : ∀ {availOut s out t}, 0 < availOut →
    inflate availOut s = (.streamError, out, t) → rest s = ([], false)
  rest_error : ∀ {availOut s status out t}, 0 < availOut → inflate availOut s = (status, out, t) →
    status ≠ .ok → status ≠ .streamEnd → status ≠ .streamError → rest s = (out, false)
  deflateBound : ℕ → ℕ
  deflate : ℕ → List UInt8 → ZStatus × List UInt8
  deflateBound_lt : ∀ n ≤ maxMessageBodySize, deflateBound n < 2 ^ 32
  deflate_finish : ∀ src availOut, deflateBound src.length ≤ availOut →
    ∃ out, deflate availOut src = (.streamEnd, out) ∧ out.length ≤ availOut ∧
      rest (inflateInit out) = (src, true)

namespace StreamCodec
variable (z : StreamCodec)

def compress (src dst : List UInt8) : Bool × List UInt8 :=
  let bound := z.deflateBound src.length % 2 ^ 32
  match z.deflate bound (src.take (src.length % 2 ^ 32)) with
  | (.streamEnd, out) => (true, dst ++ out)
  | _ => (false, dst)

def uncompressCalls : ℕ → z.State → List UInt8 → Option (Bool × List UInt8)
  | 0, _, _ => none
  | calls + 1, s, dst =>
    match z.inflate Inflater.bufferLength s with
    | (.streamError, _, _) => some (false, dst)
    | (.streamEnd, out, _) => some (true, dst ++ out)
    | (.ok, out, t) => uncompressCalls calls t (dst ++ out)
    | (_, out, _) => some (false, dst ++ out)

def uncompress (calls : ℕ) (src dst : List UInt8) : Option (Bool × List UInt8) :=
  z.uncompressCalls calls (z.inflateInit (src.take (src.length % 2 ^ 32))) dst

def Returns (src : List UInt8) (result : Bool × List UInt8) : Prop :=
  ∃ n, ∀ calls ≥ n, z.uncompress calls src [] = some result

def Complete (src : List UInt8) : Prop :=
  ∃ stream, stream <+: src ∧ (z.rest (z.inflateInit stream)).2 = true

/-- A call that returns `Z_OK` leaves less of the input and the output than there was. -/
def toInflater : Inflater where
  State := z.State
  inflateInit := z.inflateInit
  inflate := z.inflate
  left s := z.availIn s + (z.rest s).1.length
  rest := z.rest
  length_le := z.fills
  left_lt := by
    intro availOut s out t hpos h
    have hin := z.consumes h
    rw [z.rest_ok hpos h, List.length_append]
    rcases z.progress hpos h with hlt | hne
    · omega
    · have hout := List.length_pos_iff.mpr hne
      omega
  rest_ok := z.rest_ok
  rest_streamEnd := z.rest_streamEnd
  rest_streamError := z.rest_streamError
  rest_error := z.rest_error

variable {z}

theorem uncompressCalls_eq {calls : ℕ} {s : z.State} (hcalls : z.toInflater.left s < calls)
    (dst : List UInt8) :
    z.uncompressCalls calls s dst = some ((z.rest s).2, dst ++ (z.rest s).1) := by
  induction calls generalizing s dst with
  | zero => exact absurd hcalls (Nat.not_lt_zero _)
  | succ calls ih =>
    have hpos := Inflater.bufferLength_pos
    rw [uncompressCalls]
    split
    · rename_i h
      rw [z.rest_streamError hpos h, List.append_nil]
    · rename_i h
      rw [z.rest_streamEnd hpos h]
    · rename_i out t h
      have hlt : z.toInflater.left t < z.toInflater.left s := z.toInflater.left_lt hpos h
      rw [ih (by omega), z.rest_ok hpos h, List.append_assoc]
    · rename_i hstream hend hok h
      rw [z.rest_error hpos h hok hend hstream]

theorem returns_uncompress (src : List UInt8) :
    z.Returns src (z.toInflater.uncompress src) := by
  refine ⟨z.toInflater.left (z.inflateInit (src.take (src.length % 2 ^ 32))) + 1, ?_⟩
  intro calls hcalls
  rw [uncompress, uncompressCalls_eq (by omega), Inflater.uncompress, Inflater.uncompressLoop_eq]
  rfl

theorem uncompress_of_rest {src out : List UInt8} (hsmall : src.length < 2 ^ 32)
    (h : z.rest (z.inflateInit src) = (out, true)) :
    z.toInflater.uncompress src = (true, out) := by
  rw [Inflater.uncompress, Inflater.uncompressLoop_eq, Nat.mod_eq_of_lt hsmall, List.take_length]
  change ((z.rest (z.inflateInit src)).2, [] ++ (z.rest (z.inflateInit src)).1) = _
  rw [h, List.nil_append]

theorem uncompress_of_not_complete {src : List UInt8} (h : ¬ z.Complete src) :
    (z.toInflater.uncompress src).1 = false := by
  rw [Inflater.uncompress, Inflater.uncompressLoop_eq]
  by_contra htrue
  exact h ⟨_, List.take_prefix _ _, Bool.eq_true_of_not_eq_false htrue⟩

theorem compress_spec {src : List UInt8} (h : src.length ≤ maxMessageBodySize) :
    ∃ c, z.compress src [] = (true, c) ∧ c.length < 2 ^ 32 ∧
      z.rest (z.inflateInit c) = (src, true) := by
  have hsmall : src.length < 2 ^ 32 := h.trans_lt (by decide)
  have hbound := z.deflateBound_lt _ h
  obtain ⟨c, hc, hlen, hrest⟩ := z.deflate_finish src (z.deflateBound src.length) le_rfl
  refine ⟨c, ?_, by omega, hrest⟩
  simp only [compress, Nat.mod_eq_of_lt hsmall, Nat.mod_eq_of_lt hbound, List.take_length, hc,
    List.nil_append]

end StreamCodec

/-- A body of legal size comes back from its compressed form, however the output is cut into
calls, and an input without the end of a stream is given up. -/
theorem StreamCodec.uncompress_compress_returns (z : StreamCodec) :
    (∀ s : List UInt8, s.length ≤ 4 * 1024 * 1024 →
        ∃ c, z.compress s [] = (true, c) ∧ z.Returns c (true, s)) ∧
      ∀ input, ¬ z.Complete input → ∃ out, z.Returns input (false, out) := by
  constructor
  · intro s hs
    obtain ⟨c, hc, hsmall, hrest⟩ := z.compress_spec hs
    refine ⟨c, hc, ?_⟩
    rw [← uncompress_of_rest hsmall hrest]
    exact returns_uncompress c
  · intro input hinput
    refine ⟨(z.toInflater.uncompress input).2, ?_⟩
    rw [← uncompress_of_not_complete hinput]
    exact returns_uncompress input

def StreamCodec.marked : StreamCodec where
  State := List UInt8
  inflateInit src := src
  inflate := ZStream.markedInflate
  availIn := List.length
  rest := ZStream.markedRest
  fills := ZStream.marked.length_le
  consumes := by
    intro availOut s status out t h
    rw [ZStream.markedInflate.eq_def] at h
    split at h
    · cases h
      exact le_rfl
    · cases h
      exact Nat.zero_le _
    · split_ifs at h
      · cases h
        exact Nat.le_succ _
      · cases h
        exact le_rfl
      · cases h
        exact Nat.le_add_right _ 2
  progress hpos h := Or.inl (ZStream.marked.left_lt hpos h)
  rest_ok := ZStream.marked.rest_ok
  rest_streamEnd := ZStream.marked.rest_streamEnd
  rest_streamError := ZStream.marked.rest_streamError
  rest_error := ZStream.marked.rest_error
  deflateBound n := 2 * n + 1
  deflate availOut src :=
    if (ZStream.markedDeflate src).length ≤ availOut then (.streamEnd, ZStream.markedDeflate src)
    else (.ok, (ZStream.markedDeflate src).take availOut)
  deflateBound_lt := ZStream.marked.deflateBound_lt
  deflate_finish src availOut h := by
    have hlen := (ZStream.marked.deflate_length_le src).trans h
    exact ⟨ZStream.markedDeflate src, if_pos hlen, hlen, ZStream.markedRest_deflate src⟩

theorem StreamCodec.marked_returns :
    (∃ c, StreamCodec.marked.compress [7, 0] [] = (true, c) ∧
        StreamCodec.marked.Returns c (true, [7, 0])) ∧
      ¬ StreamCodec.marked.Complete [1, 7] ∧
      ∃ out, StreamCodec.marked.Returns [1, 7] (false, out) := by
  obtain ⟨hround, hreject⟩ := StreamCodec.marked.uncompress_compress_returns
  have hcut : ¬ StreamCodec.marked.Complete [1, 7] := by
    intro hcomplete
    obtain ⟨stream, hstart, hend⟩ := hcomplete
    have hnone : ∀ stream ∈ List.inits ([1, 7] : List UInt8),
        (ZStream.markedRest stream).2 = false := by decide
    have hfalse := hnone stream ((List.mem_inits _ _).mpr hstart)
    exact absurd (hfalse.symm.trans hend) (by decide)
  exact ⟨hround _ (by decide), hcut, hreject _ hcut⟩

end RocketMQClient
