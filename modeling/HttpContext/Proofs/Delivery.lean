import HttpContext.Proofs.Copying
/-!
What arrives where nothing goes wrong. A steady source fails only by interruptions, a sound sink
takes whatever it is given; copied from the one to the other, the bytes of the source follow the
head of the response on the wire.
-/
namespace HttpContext

namespace Source

/-- The source fails only by interruptions, after which it can be read on. -/
def IsSteady (s : Source) : Prop :=
  ∀ fault, .fail fault ∈ s → fault.isInterrupted = true

variable {s : Source}

theorem IsSteady.tail {event : Event} (h : IsSteady (event :: s)) : IsSteady s :=
  fun fault hf => h fault (List.mem_cons_of_mem _ hf)

theorem IsSteady.cons_data (h : IsSteady s) (bytes : Bytes) : IsSteady (.data bytes :: s) := by
  intro fault hf
  rcases List.mem_cons.1 hf with he | hs
  · cases he
  · exact h fault hs

/-- A buffer takes the front of what a steady source has left, however that arrives. -/
theorem IsSteady.fill (h : IsSteady s) (room : Nat) :
    ∃ rest, fill room s = (.ok ((content s).take room), rest) ∧ IsSteady rest
      ∧ content rest = (content s).drop room := by
  fun_induction Source.fill room s with
  | case1 room => exact ⟨[], by simp [content], h, by simp [content]⟩
  | case2 fault tail => exact ⟨_, by simp, h, rfl⟩
  | case3 room fault tail hr hi ih => exact ih h.tail
  | case4 room fault tail hr hi => exact absurd (h fault List.mem_cons_self) hi
  | case5 room piece tail hd more left hm ih =>
    -- the whole piece finds room, and the rest of the buffer comes after it
    have hlen : piece.length ≤ room := List.drop_eq_nil_iff.1 hd
    obtain ⟨rest, hf, hrest, hleft⟩ := ih h.tail
    rw [hm] at hf
    cases hf
    refine ⟨left, ?_, hrest, ?_⟩
    · rw [content, List.take_append, List.take_of_length_le hlen]
    · rw [hleft, content, List.drop_append, hd, List.nil_append]
  | case6 room piece tail hd fault left hm ih =>
    obtain ⟨rest, hf, _⟩ := ih h.tail
    rw [hm] at hf
    cases hf
  | case7 room piece tail hd =>
    have hlen : ¬ piece.length ≤ room := fun hle => hd (List.drop_eq_nil_of_le hle)
    refine ⟨.data (piece.drop room) :: tail, ?_, h.tail.cons_data _, ?_⟩
    · rw [content, List.take_append_of_le_length (by omega)]
    · rw [content, content, List.drop_append_of_le_length (by omega)]

theorem IsSteady.skip (h : IsSteady s) {n : Nat} (hn : n ≤ (content s).length) :
    ∃ rest, skip n s = .ok rest ∧ IsSteady rest ∧ content rest = (content s).drop n := by
  fun_induction Source.skip n s with
  | case1 => exact ⟨[], rfl, h, rfl⟩
  | case2 n hz =>
    simp only [content, List.length_nil] at hn
    omega
  | case3 fault tail => exact ⟨_, rfl, h, rfl⟩
  | case4 n fault tail hz hi ih => exact ih h.tail hn
  | case5 n fault tail hz hi => exact absurd (h fault List.mem_cons_self) hi
  | case6 n piece tail hd ih =>
    -- the whole piece is skipped, and the rest of the count after it
    have hlen : piece.length ≤ n := List.drop_eq_nil_iff.1 hd
    simp only [content, List.length_append] at hn
    obtain ⟨rest, hs, hrest, hc⟩ := ih h.tail (by omega)
    refine ⟨rest, hs, hrest, ?_⟩
    rw [hc, content, List.drop_append, hd, List.nil_append]
  | case7 n piece tail hd =>
    refine ⟨_, rfl, h.tail.cons_data _, ?_⟩
    have hlen : ¬ piece.length ≤ n := fun hle => hd (List.drop_eq_nil_of_le hle)
    rw [content, content, List.drop_append_of_le_length (by omega)]

/-- Skipping in a steady source fails only beyond its end. -/
theorem IsSteady.skip_beyond (h : IsSteady s) {n : Nat} (hn : (content s).length < n) :
    Source.skip n s = .error .streamTooShort := by
  fun_induction Source.skip n s with
  | case1 => exact absurd hn (Nat.lt_irrefl 0)
  | case2 n hz => rfl
  | case3 fault tail => exact absurd hn (Nat.not_lt_zero _)
  | case4 n fault tail hz hi ih => exact ih h.tail hn
  | case5 n fault tail hz hi => exact absurd (h fault List.mem_cons_self) hi
  | case6 n piece tail hd ih =>
    have hlen : piece.length ≤ n := List.drop_eq_nil_iff.1 hd
    simp only [content, List.length_append] at hn
    exact ih h.tail (by omega)
  | case7 n piece tail hd =>
    have hlen : ¬ piece.length ≤ n := fun hle => hd (List.drop_eq_nil_of_le hle)
    simp only [content, List.length_append] at hn
    omega

theorem content_take (n : Nat) (s : Source) : content (take n s) = (content s).take n := by
  fun_induction Source.take n s with
  | case1 => simp only [content, List.take_nil]
  | case2 fault tail =>
    rw [List.take_zero]
    rfl
  | case3 n fault tail hn ih => exact ih
  | case4 bytes tail =>
    rw [List.take_zero]
    rfl
  | case5 n bytes tail hn ih => rw [content, content, ih, List.take_append]

theorem IsSteady.take (h : IsSteady s) (n : Nat) : IsSteady (take n s) := by
  fun_induction Source.take n s with
  | case1 => exact h
  | case2 => exact fun _ hf => nomatch hf
  | case3 n fault tail hn ih =>
    intro f hf
    rcases List.mem_cons.1 hf with he | hs
    · cases he
      exact h fault List.mem_cons_self
    · exact ih h.tail f hs
  | case4 => exact fun _ hf => nomatch hf
  | case5 n bytes tail hn ih => exact (ih h.tail).cons_data _

/-- A position in the source is one in its content, whatever fails before it. -/
theorem content_seek (n : Nat) (s : Source) : content (seek n s) = (content s).drop n := by
  fun_induction Source.seek n s with
  | case1 => rw [content, List.drop_nil]
  | case2 => rfl
  | case3 n fault tail hn ih => exact ih
  | case4 n piece tail hd ih => rw [content, ih, List.drop_append, hd, List.nil_append]
  | case5 n piece tail hd =>
    have hlen : ¬ piece.length ≤ n := fun hle => hd (List.drop_eq_nil_of_le hle)
    rw [content, content, List.drop_append_of_le_length (by omega)]

theorem IsSteady.seek (h : IsSteady s) (n : Nat) : IsSteady (seek n s) := by
  fun_induction Source.seek n s with
  | case1 => exact h
  | case2 => exact h
  | case3 n fault tail hn ih => exact ih h.tail
  | case4 n piece tail hd ih => exact ih h.tail
  | case5 n piece tail hd => exact h.tail.cons_data _

theorem isSteady_ofBytes (bytes : Bytes) : IsSteady (ofBytes bytes) :=
  fun _ hf => nomatch List.mem_singleton.1 hf

/-- A buffer with room stays empty only when nothing is left. -/
theorem content_of_fill_nil {room : Nat} (hr : 0 < room) {rest : Source}
    (h : fill room s = (.ok [], rest)) : content s = [] := by
  fun_induction Source.fill room s generalizing rest with
  | case1 => rfl
  | case2 => exact absurd hr (Nat.lt_irrefl 0)
  | case3 room fault tail hz hi ih => exact ih hr h
  | case4 => cases h
  | case5 room piece tail hd more left hm ih =>
    obtain ⟨rfl, rfl⟩ := List.append_eq_nil_iff.1 (Except.ok.inj (congrArg Prod.fst h))
    exact ih hr hm
  | case6 => cases h
  | case7 room piece tail hd =>
    have hnone : piece.take room = [] := Except.ok.inj (congrArg Prod.fst h)
    rcases List.take_eq_nil_iff.1 hnone with hz | rfl
    · exact absurd hr (by omega)
    · exact absurd List.drop_nil hd

end Source

/-- The file fails only by interruptions of its reads. -/
structure File.IsSteady (file : File) : Prop where
  metadataFault : file.metadataFault = none
  seekFault : file.seekFault = none
  source : file.source.IsSteady

theorem File.isSteady_ofBytes (content : Bytes) : (File.ofBytes content).IsSteady :=
  ⟨rfl, rfl, Source.isSteady_ofBytes content⟩

/-- The window of a steady file holds what the file has there. -/
theorem File.IsSteady.window {file : File} (h : file.IsSteady) (range : ByteRange) :
    ∃ window, file.window range = .ok window ∧ window.IsSteady
      ∧ window.content = (file.source.content.drop range.start).take range.window := by
  refine ⟨(file.source.seek range.start).take range.window, ?_, (h.source.seek _).take _, ?_⟩
  · simp only [File.window, File.seek, h.seekFault, Except.map]
  · rw [Source.content_take, Source.content_seek]

/-- The file has just this content, and its reads fail only by interruptions. -/
structure File.Holds (file : File) (bytes : Bytes) : Prop extends file.IsSteady where
  length : file.length = bytes.length
  content : file.source.content = bytes

theorem File.holds_ofBytes (content : Bytes) : (File.ofBytes content).Holds content :=
  ⟨isSteady_ofBytes content, rfl, Source.content_ofBytes content⟩

namespace Response

/-- The wire with the head, if that has yet to be written. -/
def sent (r : Response) : Bytes :=
  if r.isCommitted then r.wire else r.wire ++ r.head.encode

/-- The response is open, its sink is sound, and its body goes out as it is. -/
structure IsPlain (r : Response) : Prop where
  isSound : r.sink.IsSound
  isOpen : r.isClosed = false
  isWhole : r.head.isChunked = false

/-- `s` is `r` with this much more of the body. -/
structure Sends (r s : Response) (data : Bytes) : Prop where
  plain : s.IsPlain
  head : s.head = r.head
  sent : s.sent = r.sent ++ data

variable {r : Response}

theorem put_of_isSound (h : r.sink.IsSound) (bytes : Bytes) :
    r.put bytes = (.ok (), { r with sink := r.sink.accept bytes }) := by
  simp only [put, h.write]

theorem commit_of_isSound (h : r.sink.IsSound) :
    ∃ sink, sink.IsSound ∧ sink.wire = r.sent
      ∧ r.commit = (.ok (), { r with sink, isCommitted := true }) := by
  cases hc : r.isCommitted with
  | true =>
    have hsent : r.sent = r.wire := by simp only [sent, hc, ↓reduceIte]
    refine ⟨r.sink, h, hsent.symm, ?_⟩
    rw [commit_of_isCommitted hc, ← hc]
  | false =>
    have hsent : r.sent = r.wire ++ r.head.encode := by
      simp only [sent, hc, Bool.false_eq_true, ↓reduceIte]
    refine ⟨r.sink.accept r.head.encode, h.accept _, ?_, ?_⟩
    · rw [hsent, Sink.wire_accept]
      rfl
    · have hput := put_of_isSound (r := { r with isCommitted := true }) h r.head.encode
      simp only [commit, hc, Bool.false_eq_true, ↓reduceIte, hput]

theorem IsPlain.writePiece (h : IsPlain r) (data : Bytes) :
    ∃ s, r.writePiece data = (.ok (), s) ∧ Sends r s data := by
  obtain ⟨sink, hsound, hwire, hcommit⟩ := commit_of_isSound h.isSound
  have hframe : frame r.head data = data := congrFun (frame_of_not_isChunked h.isWhole) data
  refine ⟨{ r with sink := sink.accept data, isCommitted := true }, ?_, ?_⟩
  · have hput := put_of_isSound (r := { r with sink, isCommitted := true }) hsound data
    rw [writePiece_of_isOpen h.isOpen, hcommit]
    simp only [andThen, hframe]
    exact hput
  · refine ⟨⟨hsound.accept data, h.isOpen, h.isWhole⟩, rfl, ?_⟩
    rw [← hwire]
    exact sink.wire_accept data

/-- A source is copied up to its first failure, and a copy that succeeds has come to its end. -/
theorem IsPlain.copies (h : IsPlain r) (source : Source) {size : Nat} (hz : 0 < size) :
    ∃ front, front <+: source.content ∧ Sends r (writeFrom size source r).2 front
      ∧ ((writeFrom size source r).1 = .ok () → front = source.content) := by
  fun_induction Response.writeFrom size source r with
  | case1 source r fault rest hf =>
    refine ⟨[], List.nil_prefix, ⟨h, rfl, by simp⟩, fun hok => ?_⟩
    cases hok
  | case2 source r rest hf =>
    rw [flushSink_of_flushes h.isSound.flushes, Source.content_of_fill_nil hz hf]
    exact ⟨[], List.nil_prefix, ⟨h, rfl, by simp⟩, fun _ => rfl⟩
  | case3 source r b bs rest hf ih =>
    obtain ⟨s, hw, hsends⟩ := h.writePiece (b :: bs)
    obtain ⟨front, hfront, hrest, hwhole⟩ := ih s hsends.plain
    rw [hw, Source.content_fill hf]
    refine ⟨b :: bs ++ front, (List.prefix_append_right_inj _).2 hfront,
      ⟨hrest.plain, hrest.head.trans hsends.head, ?_⟩, fun hok => ?_⟩
    · rw [← List.append_assoc, ← hsends.sent]
      exact hrest.sent
    · rw [hwhole hok]

/-- A steady source fails no copy to a sound sink. -/
theorem IsPlain.copy_of_isSteady (h : IsPlain r) {source : Source} (hs : source.IsSteady)
    (size : Nat) : (writeFrom size source r).1 = .ok () := by
  fun_induction Response.writeFrom size source r with
  | case1 source r fault rest hf =>
    obtain ⟨left, hfill, _⟩ := hs.fill size
    rw [hf] at hfill
    cases hfill
  | case2 source r rest hf => rw [flushSink_of_flushes h.isSound.flushes]
  | case3 source r b bs rest hf ih =>
    obtain ⟨left, hfill, hsteady, _⟩ := hs.fill size
    rw [hf] at hfill
    obtain rfl : rest = left := congrArg Prod.snd hfill
    obtain ⟨s, hw, hsends⟩ := h.writePiece (b :: bs)
    rw [hw]
    exact ih s hsends.plain hsteady

/-- All that a steady source has to give goes out. -/
theorem IsPlain.writeFrom (h : IsPlain r) {source : Source} (hs : source.IsSteady) {size : Nat}
    (hz : 0 < size) :
    ∃ s, writeFrom size source r = (.ok (), s) ∧ Sends r s source.content := by
  obtain ⟨front, _, hsends, hwhole⟩ := h.copies source hz
  have hok := h.copy_of_isSteady hs size
  refine ⟨_, Prod.ext hok rfl, ?_⟩
  rwa [← hwhole hok]

/-- A close adds nothing but a head that is still missing. -/
theorem IsPlain.close (h : IsPlain r) (hl : r.head.contentLength.isSome = true) :
    ∃ s, r.close false = (.ok (), s) ∧ s.wire = r.sent := by
  obtain ⟨sink, hsound, hwire, hcommit⟩ :=
    commit_of_isSound (r := { r with isClosed := true }) h.isSound
  -- the announced length leaves nothing to settle
  have hsettle : { r with isClosed := true }.settleLength = { r with isClosed := true } := by
    rw [settleLength_eq, hl, Bool.or_true]
    rfl
  have hfinish : { r with isClosed := true }.finish
      = (.ok (), { r with sink, isCommitted := true, isClosed := true }) := by
    simp only [finish, hcommit, andThen, h.isWhole, Bool.false_eq_true, ↓reduceIte]
  refine ⟨{ r with sink, isCommitted := true, isClosed := true }, ?_, hwire⟩
  simp only [Response.close, h.isOpen, Bool.false_eq_true, ↓reduceIte, hsettle, hfinish, andThen]
  exact flushSink_of_flushes hsound.flushes

end Response

end HttpContext
