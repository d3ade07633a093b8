import K6Rs.Model.ResponseBody

/-! # Bodies and their chunks

Whatever its frames, a body is read to its end and its front is kept. -/

namespace K6Rs

/-- The body that comes in frames. -/
def bodyOf (frames : List Frame) : List UInt8 := (frames.filterMap Frame.dataRef).flatten

/-- What is kept of a body. -/
def keptBody (discard : Bool) (cap : ℕ) (body : List UInt8) : ResponseBody :=
  if discard then .discarded else .buffered (body.take cap)

/-- Both clients read all of the body and keep its front, and the reqwest client counts all of
it. -/
structure BodyRead (discard : Bool) (cap : ℕ) (reason : Str) (headers : List HeaderLine)
    (frames : List Frame) : Prop where
  hyper : readBodyWithCapAndDrain (frames.map .ok) discard cap =
    (.ok (keptBody discard cap (bodyOf frames)), [])
  reqwest : ∃ received,
    receiveBody discard cap reason headers ((frames.filterMap Frame.dataRef).map .ok) =
        (.ok (keptBody discard cap (bodyOf frames), received), []) ∧
      received = estimateResponseHeaderBytes reason headers + (bodyOf frames).length

/-! ## The front of a body -/

/-- What a capped buffer holds after more data. -/
theorem take_append_take (cap : ℕ) (front data : List UInt8) :
    (front ++ data).take cap = front.take cap ++ data.take (cap - (front.take cap).length) := by
  rw [List.take_append, List.length_take]
  congr 2
  omega

theorem appendCappedChunk_take (cap : ℕ) (front chunk : List UInt8) :
    appendCappedChunk (front.take cap) chunk cap = (front ++ chunk).take cap := by
  rw [take_append_take, appendCappedChunk]
  split
  · rename_i hfull
    rw [Nat.sub_eq_zero_of_le hfull, List.take_zero, List.append_nil]
  · exact congrArg (front.take cap ++ ·) List.take_eq_take_min.symm

/-- The front of a body that was read so far, and the data of the next frames. -/
theorem bufferFrames_take (cap : ℕ) (front : List UInt8) (frames : List Frame) :
    bufferFrames cap (front.take cap) (frames.map .ok) =
      (.ok (.buffered ((front ++ bodyOf frames).take cap)), []) := by
  induction frames generalizing front with
  | nil => simp [bufferFrames, bodyOf]
  | cons frame frames ih =>
      cases frame with
      | trailers headers => exact ih front
      | data bytes =>
          have hbody : bodyOf (.data bytes :: frames) = bytes ++ bodyOf frames := rfl
          have happend := appendCappedChunk_take cap front bytes
          rw [appendCappedChunk] at happend
          rw [hbody, ← List.append_assoc, ← ih, ← happend, List.map_cons, bufferFrames]
          simp only [Frame.dataRef]
          by_cases hfull : cap ≤ (front.take cap).length
          · rw [if_neg (Nat.not_lt.mpr hfull), if_pos hfull]
          · rw [if_pos (Nat.lt_of_not_le hfull), if_neg hfull]

theorem drainFrames_map (frames : List Frame) :
    drainFrames (frames.map .ok) = (.ok .discarded, []) := by
  induction frames with
  | nil => rfl
  | cons frame frames ih => exact ih

theorem bufferChunks_take (cap : ℕ) (front : List UInt8) (chunks : List (List UInt8)) :
    bufferChunks cap (front.take cap) (chunks.map .ok) =
      (.ok ((front ++ chunks.flatten).take cap), []) := by
  induction chunks generalizing front with
  | nil => simp [bufferChunks]
  | cons chunk chunks ih =>
      rw [List.map_cons, bufferChunks, appendCappedChunk_take, ih, List.flatten_cons,
        List.append_assoc]

theorem drainChunks_map (total : ℕ) (chunks : List (List UInt8)) :
    drainChunks total (chunks.map .ok) = (.ok (total + chunks.flatten.length), []) := by
  induction chunks generalizing total with
  | nil => rfl
  | cons chunk chunks ih =>
      rw [List.map_cons, drainChunks, ih, List.flatten_cons, List.length_append, Nat.add_assoc]

/-! ## The readers -/

theorem readBodyWithCapAndDrain_frames (discard : Bool) (cap : ℕ) (frames : List Frame) :
    readBodyWithCapAndDrain (frames.map .ok) discard cap =
      (.ok (keptBody discard cap (bodyOf frames)), []) := by
  cases discard with
  | true => exact drainFrames_map frames
  | false =>
      have h := bufferFrames_take cap [] frames
      rw [List.take_nil] at h
      exact h

/-- What the reqwest client counts: the body before it is cut when it is discarded, and after
otherwise. -/
def countedLength (discard : Bool) (cap : ℕ) (body : List UInt8) : ℕ :=
  if discard then body.length else (body.take cap).length

theorem receiveBody_chunks (discard : Bool) (cap : ℕ) (reason : Str) (headers : List HeaderLine)
    (chunks : List (List UInt8)) :
    receiveBody discard cap reason headers (chunks.map .ok) =
      (.ok (keptBody discard cap chunks.flatten,
        estimateResponseHeaderBytes reason headers + countedLength discard cap chunks.flatten),
          []) := by
  cases discard with
  | true =>
      rw [receiveBody, drainResponseBody, drainChunks_map, Nat.zero_add]
      rfl
  | false =>
      have h := bufferChunks_take cap [] chunks
      rw [List.take_nil, List.nil_append] at h
      rw [receiveBody, bufferResponseBody, h]
      rfl

/-- Everything is counted exactly when the body is discarded or fits the cap. -/
theorem bodyRead_iff (discard : Bool) (cap : ℕ) (reason : Str) (headers : List HeaderLine)
    (frames : List Frame) :
    BodyRead discard cap reason headers frames ↔
      discard = true ∨ (bodyOf frames).length ≤ cap := by
  have hreceived := receiveBody_chunks discard cap reason headers (frames.filterMap Frame.dataRef)
  have hcounted : countedLength discard cap (bodyOf frames) = (bodyOf frames).length ↔
      discard = true ∨ (bodyOf frames).length ≤ cap := by
    cases discard with
    | true => exact iff_of_true rfl (.inl rfl)
    | false =>
        rw [countedLength, if_neg Bool.false_ne_true, List.length_take]
        simp
  rw [← hcounted]
  constructor
  · rintro ⟨-, received, hread, hlength⟩
    cases hread.symm.trans hreceived
    exact Nat.add_left_cancel hlength
  · intro h
    exact ⟨readBodyWithCapAndDrain_frames discard cap frames, _, hreceived,
      congrArg (estimateResponseHeaderBytes reason headers + ·) h⟩

/-- Of two bytes that a cap of one cuts, one is counted. -/
theorem not_bodyRead : ¬BodyRead false 1 "OK".toList [] [.data [1, 2]] := by
  rintro ⟨-, received, hread, hlength⟩
  cases hread
  exact absurd hlength (by decide)

end K6Rs
