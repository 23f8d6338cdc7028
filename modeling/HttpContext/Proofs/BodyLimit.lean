import HttpContext.Channel.Body
import HttpContext.Proofs.Delivery
/-!
The limit of a body. However its bytes arrive and whatever buffers they are read with, the body
gives them up to the limit and no further, and once it has refused to go on it refuses every read.
Main statement: `Body.limit_exact`.
-/
namespace HttpContext

namespace Source

/-- The bytes in front of the first failure that is no interruption, and that failure. -/
def untilFailure : Source → Bytes × Option Fault
  | [] => ([], none)
  | .data bytes :: rest => (bytes ++ (untilFailure rest).1, (untilFailure rest).2)
  | .fail fault :: rest => if fault.isInterrupted then untilFailure rest else ([], some fault)

/-- The source without the failures that are mere interruptions. -/
def withoutInterruptions (s : Source) : Source :=
  s.filter fun
    | .data _ => true
    | .fail fault => !fault.isInterrupted

/-- No failure of the source says that a limit was passed. -/
def HasNoLimit (s : Source) : Prop :=
  ∀ kind limit, .fail (.tooLarge kind limit) ∉ s

variable {s rest : Source} {room : Nat} {fault : Fault} {bytes : Bytes}

theorem untilFailure_putBack (bytes : Bytes) (s : Source) :
    untilFailure (putBack bytes s) = (bytes ++ (untilFailure s).1, (untilFailure s).2) := by
  unfold putBack
  split
  · rename_i hb
    rw [List.isEmpty_iff.1 hb]
    rfl
  · rfl

/-- What a read delivers comes before any failure. -/
theorem untilFailure_read (h : read room s = (.ok bytes, rest)) :
    untilFailure s = (bytes ++ (untilFailure rest).1, (untilFailure rest).2) := by
  fun_induction Source.read room s with
  | case1 => cases h; rfl
  | case2 => cases h; rfl
  | case3 => cases h
  | case4 piece tail hb ih => rw [← ih h, List.isEmpty_iff.1 hb]; rfl
  | case5 piece tail hb =>
    cases h
    rw [untilFailure_putBack, ← List.append_assoc, List.take_append_drop]
    rfl

theorem untilFailure_read_error (h : read room s = (.error fault, rest)) :
    untilFailure s = if fault.isInterrupted then untilFailure rest else ([], some fault) := by
  fun_induction Source.read room s with
  | case1 => cases h
  | case2 => cases h
  | case3 => cases h; rfl
  | case4 piece tail hb ih => rw [← ih h, List.isEmpty_iff.1 hb]; rfl
  | case5 => cases h

/-- A buffer with room stays empty only at the end. -/
theorem untilFailure_of_read_nil (h : read (room + 1) s = (.ok [], rest)) :
    untilFailure s = ([], none) := by
  generalize hroom : room + 1 = n at h
  fun_induction Source.read n s with
  | case1 => rfl
  | case2 => omega
  | case3 => cases h
  | case4 piece tail hb ih => rw [← ih h, List.isEmpty_iff.1 hb]; rfl
  | case5 piece tail hb =>
    have htake := congrArg Prod.fst h
    rcases List.take_eq_nil_iff.1 (Except.ok.inj htake) with hzero | hpiece
    · omega
    · rw [hpiece] at hb
      exact absurd rfl hb

/-- A read that fails takes no byte away. -/
theorem content_read_error (h : read room s = (.error fault, rest)) :
    content s = content rest ∧ .fail fault ∈ s := by
  fun_induction Source.read room s with
  | case1 => cases h
  | case2 => cases h
  | case3 => cases h; exact ⟨rfl, List.mem_cons_self⟩
  | case4 piece tail hb ih =>
    obtain ⟨hcontent, hmem⟩ := ih h
    refine ⟨?_, List.mem_cons_of_mem _ hmem⟩
    rw [← hcontent, content, List.isEmpty_iff.1 hb, List.nil_append]
  | case5 => cases h

theorem fail_mem_of_read (h : .fail fault ∈ (read room s).2) : .fail fault ∈ s := by
  fun_induction Source.read room s with
  | case1 => exact h
  | case2 => exact h
  | case3 => exact List.mem_cons_of_mem _ h
  | case4 piece tail hb ih => exact List.mem_cons_of_mem _ (ih h)
  | case5 piece tail hb =>
    refine List.mem_cons_of_mem _ ?_
    simp only [putBack] at h
    split at h
    · exact h
    · exact (List.mem_cons.1 h).resolve_left (by simp)

theorem HasNoLimit.read (h : HasNoLimit s) (room : Nat) : HasNoLimit (read room s).2 :=
  fun kind limit hm => h kind limit (fail_mem_of_read hm)

/-- A steady source has all of its bytes in front of any failure. -/
theorem IsSteady.untilFailure (h : IsSteady s) : untilFailure s = (content s, none) := by
  induction s with
  | nil => rfl
  | cons event rest ih =>
    have hrest := ih h.tail
    cases event with
    | data bytes => rw [Source.untilFailure, hrest]; rfl
    | fail fault => rw [Source.untilFailure, if_pos (h fault List.mem_cons_self), hrest]; rfl

/-- Behind a steady front the next failure is the first. -/
theorem IsSteady.untilFailure_append (h : IsSteady s) (hf : fault.isInterrupted = false)
    (rest : Source) : Source.untilFailure (s ++ .fail fault :: rest) = (content s, some fault) := by
  induction s with
  | nil => simp only [List.nil_append, Source.untilFailure, hf, Bool.false_eq_true, ↓reduceIte]; rfl
  | cons event tail ih =>
    have htail := ih h.tail
    cases event with
    | data bytes => rw [List.cons_append, Source.untilFailure, htail]; rfl
    | fail first =>
      rw [List.cons_append, Source.untilFailure, if_pos (h first List.mem_cons_self), htail]
      rfl

theorem untilFailure_withoutInterruptions (s : Source) :
    untilFailure s.withoutInterruptions = untilFailure s := by
  induction s with
  | nil => rfl
  | cons event rest ih =>
    cases event with
    | data bytes =>
      rw [untilFailure, ← ih]
      rfl
    | fail fault =>
      cases hi : fault.isInterrupted with
      | true => simpa [withoutInterruptions, untilFailure, hi] using ih
      | false => simp [withoutInterruptions, untilFailure, hi]

theorem HasNoLimit.of_untilFailure (h : HasNoLimit s) (hf : (untilFailure s).2 = some fault) :
    Error.ofBodyFault fault = .io fault := by
  induction s with
  | nil => cases hf
  | cons event rest ih =>
    have hrest : HasNoLimit rest := fun kind limit hm => h kind limit (List.mem_cons_of_mem _ hm)
    cases event with
    | data bytes => exact ih hrest hf
    | fail first =>
      simp only [untilFailure] at hf
      split at hf
      · exact ih hrest hf
      · cases hf
        cases fault with
        | tooLarge kind limit => exact absurd List.mem_cons_self (h kind limit)
        | _ => rfl

end Source

namespace Body

/-! ### Single reads -/

/-- Reads with buffers of these sizes, one after the other. -/
def readEach : List Nat → Body → List (Except Fault Bytes) × Body
  | [], b => ([], b)
  | room :: sizes, b =>
    let (result, b) := b.read room
    let (results, b) := readEach sizes b
    (result :: results, b)

/-- The bytes that reads have put into their buffers. -/
def delivered (results : List (Except Fault Bytes)) : Bytes :=
  (results.filterMap Except.toOption).flatten

/-- No more may be read: the byte beyond the limit has been, or it cannot be counted at all. -/
def IsPassed (b : Body) : Prop := b.limit ≠ 0 ∧ b.allowance ≤ b.consumed

/-- A body of this size may be read under this limit: the limit is not passed, and one byte more
than it can be counted. -/
def Admits (limit : UInt64) (size : Nat) : Prop :=
  limit = 0 ∨ limit.toNat + 1 < UInt64.size ∧ size ≤ limit.toNat

/-- The body after this much has been taken from its source. -/
def taking (b : Body) (bytes : Bytes) (source : Source) : Body :=
  { b with source, consumed := b.consumed + bytes.length }

/-- What comes of a body when its source is read with room for `n` bytes: the bytes are delivered,
or the one that is too many is among them, or the source fails. -/
inductive Reads (b : Body) (n : Nat) : Except Fault Bytes × Body → Prop
  | delivers {bytes : Bytes} {source : Source} : b.source.read n = (.ok bytes, source) →
      ¬ (b.taking bytes source).IsPassed → Reads b n (.ok bytes, b.taking bytes source)
  | passes {bytes : Bytes} {source : Source} : b.source.read n = (.ok bytes, source) →
      (b.taking bytes source).IsPassed → Reads b n (.error b.limitFault, b.taking bytes source)
  | fails {fault : Fault} {source : Source} : b.source.read n = (.error fault, source) →
      Reads b n (.error fault, { b with source })

variable {b : Body}

theorem not_isPassed : ¬ b.IsPassed ↔ Admits b.limit b.consumed := by
  by_cases hzero : b.limit = 0
  · exact iff_of_true (fun hp => hp.1 hzero) (.inl hzero)
  rcases Nat.lt_or_ge (b.limit.toNat + 1) UInt64.size with hcount | hcount
  · rw [IsPassed, allowance_of_lt hcount]
    constructor
    · exact fun hp => .inr ⟨hcount, Nat.le_of_not_lt fun hlt => hp ⟨hzero, hlt⟩⟩
    · rintro (hnone | ⟨-, hle⟩)
      · exact absurd hnone hzero
      · exact fun hp => absurd hp.2 (Nat.not_le.2 (Nat.lt_succ_of_le hle))
  · have hpassed : b.IsPassed := ⟨hzero, by rw [allowance_of_le hcount]; exact Nat.zero_le _⟩
    refine iff_of_false (not_not_intro hpassed) ?_
    rintro (hnone | ⟨hlt, -⟩)
    · exact hzero hnone
    · omega

theorem IsPassed.pos (h : b.IsPassed) : 0 < b.limit.toNat :=
  Nat.pos_of_ne_zero fun hzero => h.1 (limit_eq_zero.2 hzero)

theorem isPassed_iff (hcount : b.limit.toNat + 1 < UInt64.size) :
    b.IsPassed ↔ 0 < b.limit.toNat ∧ b.limit.toNat < b.consumed := by
  have hallowance := allowance_of_lt hcount
  refine ⟨fun hp => ⟨hp.pos, ?_⟩, fun ⟨hpos, hlt⟩ => ⟨fun hzero => ?_, ?_⟩⟩
  · have hle := hp.2
    omega
  · exact Nat.ne_of_gt hpos (limit_eq_zero.1 hzero)
  · omega

/-- A body under which more may be read either has no limit or one that can be counted. -/
theorem isPassed_taking (h : ¬ b.IsPassed) (bytes : Bytes) (source : Source) :
    (b.taking bytes source).IsPassed
      ↔ 0 < b.limit.toNat ∧ b.limit.toNat < b.consumed + bytes.length := by
  rcases not_isPassed.1 h with hzero | ⟨hcount, -⟩
  · refine iff_of_false (fun hp => hp.1 hzero) fun hpos => ?_
    exact Nat.ne_of_gt hpos.1 (limit_eq_zero.1 hzero)
  · exact isPassed_iff (b := b.taking bytes source) hcount

theorem reads_advance (h : ¬ b.IsPassed) (n : Nat) : Reads b n (b.advance (b.source.read n)) := by
  rcases hr : b.source.read n with ⟨fault | bytes, source⟩
  · exact .fails hr
  · have hpassed := isPassed_taking h bytes source
    by_cases hp : (b.taking bytes source).IsPassed
    · rw [advance, if_pos (by simpa using hpassed.1 hp)]
      exact .passes hr hp
    · rw [advance, if_neg (by simpa using hp ∘ hpassed.2)]
      exact .delivers hr hp

/-- Below the limit a read is one of the source, with room when there was room. -/
theorem read_cases (h : ¬ b.IsPassed) (room : Nat) :
    ∃ n, (0 < room → 0 < n) ∧ Reads b n (b.read room) := by
  unfold Body.read
  by_cases hzero : b.limit = 0
  · rw [if_pos hzero]
    exact ⟨room, id, reads_advance h room⟩
  · have hwithin : ¬ b.allowance ≤ b.consumed := fun hle => h ⟨hzero, hle⟩
    rw [if_neg hzero, if_neg hwithin]
    exact ⟨min room (b.allowance - b.consumed), by omega, reads_advance h _⟩

theorem read_of_isPassed (h : b.IsPassed) (room : Nat) :
    b.read room = (.error b.limitFault, b) := by
  rw [Body.read, if_neg h.1, if_pos h.2]

theorem readEach_of_isPassed (h : b.IsPassed) (sizes : List Nat) :
    ∀ result ∈ (b.readEach sizes).1, result = .error b.limitFault := by
  induction sizes with
  | nil => exact fun _ hm => nomatch hm
  | cons room sizes ih =>
    rw [readEach, read_of_isPassed h]
    exact List.forall_mem_cons.2 ⟨rfl, ih⟩

/-- These results of reads keep the limit of the body: they are the front of its source, no longer
than the limit leaves, and where one of them says that the limit was passed there was more in the
source and nothing comes after. -/
structure KeepLimit (b : Body) (results : List (Except Fault Bytes)) : Prop where
  isPrefix : delivered results <+: b.source.content
  within : 0 < b.limit.toNat → b.consumed + (delivered results).length ≤ b.limit.toNat
  final : ∀ before kind limit after, results = before ++ .error (.tooLarge kind limit) :: after →
    Fault.tooLarge kind limit = b.limitFault ∧ 0 < b.limit.toNat
      ∧ b.limit.toNat < b.consumed + b.source.content.length
      ∧ ∀ result ∈ after, result = .error b.limitFault

theorem keepLimit_nil (h : ¬ b.IsPassed) : KeepLimit b [] where
  isPrefix := List.nil_prefix
  within hpos := by
    rcases not_isPassed.1 h with hzero | ⟨-, hle⟩
    · exact absurd (limit_eq_zero.1 hzero) (Nat.ne_of_gt hpos)
    · exact hle
  final := by
    intro before kind limit after he
    simp at he

/-- The bytes that a read delivers go in front of those of later reads. -/
theorem KeepLimit.cons_ok {bytes : Bytes} {source : Source} {results : List (Except Fault Bytes)}
    (h : KeepLimit (b.taking bytes source) results)
    (hcontent : b.source.content = bytes ++ source.content) :
    KeepLimit b (.ok bytes :: results) := by
  have hdelivered : delivered (.ok bytes :: results) = bytes ++ delivered results := rfl
  refine ⟨?_, fun hpos => ?_, fun before kind limit after he => ?_⟩
  · rw [hdelivered, hcontent]
    exact (List.prefix_append_right_inj bytes).2 h.isPrefix
  · have hwithin : b.consumed + bytes.length + (delivered results).length ≤ b.limit.toNat :=
      h.within hpos
    rwa [hdelivered, List.length_append, ← Nat.add_assoc]
  · cases before with
    | nil => cases he
    | cons first before =>
      obtain ⟨hfault, hpos, hmore, hafter⟩ :=
        h.final before kind limit after (List.cons.inj he).2
      refine ⟨hfault, hpos, ?_, hafter⟩
      rwa [hcontent, List.length_append, ← Nat.add_assoc]

theorem KeepLimit.cons_error {fault : Fault} {source : Source} {results : List (Except Fault Bytes)}
    (h : KeepLimit { b with source } results) (hcontent : b.source.content = source.content)
    (hf : ∀ kind limit, fault ≠ .tooLarge kind limit) : KeepLimit b (.error fault :: results) := by
  refine ⟨hcontent ▸ h.isPrefix, h.within, fun before kind limit after he => ?_⟩
  cases before with
  | nil => exact absurd (Except.error.inj (List.cons.inj he).1) (hf kind limit)
  | cons first before =>
    rw [hcontent]
    exact h.final before kind limit after (List.cons.inj he).2

/-- Behind the read that passes the limit nothing more is delivered. -/
theorem keepLimit_passed {bytes : Bytes} {source : Source} (h : ¬ b.IsPassed)
    (hp : (b.taking bytes source).IsPassed) (hcontent : b.source.content = bytes ++ source.content)
    {results : List (Except Fault Bytes)}
    (hresults : ∀ result ∈ results, result = .error b.limitFault) :
    KeepLimit b (.error b.limitFault :: results) := by
  have hall : ∀ result ∈ .error b.limitFault :: results, result = .error b.limitFault :=
    List.forall_mem_cons.2 ⟨rfl, hresults⟩
  have hnone : delivered (.error b.limitFault :: results) = [] := by
    rw [delivered, List.filterMap_eq_nil_iff.2 fun result hm => by rw [hall result hm]; rfl]
    rfl
  refine ⟨hnone ▸ List.nil_prefix, fun hpos => ?_, fun before kind limit after he => ?_⟩
  · rw [hnone]
    exact (keepLimit_nil h).within hpos
  · obtain ⟨hpos, hpassed⟩ := (isPassed_taking h bytes source).1 hp
    rw [he, List.forall_mem_append, List.forall_mem_cons] at hall
    refine ⟨Except.error.inj hall.2.1, hpos, ?_, hall.2.2⟩
    rw [hcontent, List.length_append]
    omega

theorem keepLimit_readEach (h : ¬ b.IsPassed) (hs : b.source.HasNoLimit) (sizes : List Nat) :
    KeepLimit b (b.readEach sizes).1 := by
  induction sizes generalizing b with
  | nil => exact keepLimit_nil h
  | cons room sizes ih =>
    obtain ⟨n, _, hreads⟩ := read_cases h room
    have hrest := hs.read n
    rw [readEach]
    generalize b.read room = out at hreads ⊢
    cases hreads with
    | delivers hr hp =>
      rw [hr] at hrest
      exact (ih hp hrest).cons_ok (Source.content_read hr)
    | passes hr hp =>
      exact keepLimit_passed h hp (Source.content_read hr) (readEach_of_isPassed hp sizes)
    | @fails fault source hr =>
      rw [hr] at hrest
      obtain ⟨hcontent, hmem⟩ := Source.content_read_error hr
      refine (ih (b := { b with source }) h hrest).cons_error hcontent fun kind limit he => ?_
      exact hs kind limit (he ▸ hmem)

/-! ### Reading to the end -/

/-- Reading on past interruptions, each time with a buffer that has some room, ends with this
result. -/
inductive ReadsTo : Body → Except Fault Bytes → Prop
  | ended {b rest : Body} {room : Nat} : b.read (room + 1) = (.ok [], rest) → ReadsTo b (.ok [])
  | more {b rest : Body} {room : Nat} {bytes : Bytes} {result : Except Fault Bytes} :
      b.read (room + 1) = (.ok bytes, rest) → bytes ≠ [] → ReadsTo rest result →
      ReadsTo b ((bytes ++ ·) <$> result)
  | again {b rest : Body} {room : Nat} {fault : Fault} {result : Except Fault Bytes} :
      b.read (room + 1) = (.error fault, rest) → fault.isInterrupted = true → ReadsTo rest result →
      ReadsTo b result
  | failed {b rest : Body} {room : Nat} {fault : Fault} :
      b.read (room + 1) = (.error fault, rest) → fault.isInterrupted = false →
      ReadsTo b (.error fault)

theorem readsTo_readAll (room : Nat) (b : Body) : ReadsTo b (b.readAll room) := by
  fun_induction Body.readAll room b with
  | case1 b rest hread => exact .ended hread
  | case2 b x xs rest hread ih => exact .more hread (List.cons_ne_nil x xs) ih
  | case3 b fault rest hread hi ih => exact .again hread hi ih
  | case4 b fault rest hread hi => exact .failed hread (Bool.eq_false_iff.2 hi)

/-- What there is to be read of a body: a limit that its bytes pass comes before the failure behind
them. -/
def whole (b : Body) : Except Fault Bytes :=
  if b.limit ≠ 0 ∧ b.allowance ≤ b.consumed + b.source.untilFailure.1.length then
    .error b.limitFault
  else
    match b.source.untilFailure.2 with
    | none => .ok b.source.untilFailure.1
    | some fault => .error fault

theorem whole_of_isPassed (h : b.IsPassed) : b.whole = .error b.limitFault :=
  if_pos ⟨h.1, Nat.le_add_right_of_le h.2⟩

/-- The bytes of a read stand in front of what there is to be read behind them. -/
theorem whole_of_read {bytes : Bytes} {source : Source} {n : Nat}
    (hr : b.source.read n = (.ok bytes, source)) :
    b.whole = (bytes ++ ·) <$> (b.taking bytes source).whole := by
  unfold whole taking
  rw [Source.untilFailure_read hr]
  simp only [List.length_append, Nat.add_assoc, allowance, limitFault]
  split
  · rfl
  · cases source.untilFailure.2 <;> rfl

theorem whole_of_read_error {fault : Fault} {source : Source} {n : Nat} (h : ¬ b.IsPassed)
    (hr : b.source.read n = (.error fault, source)) :
    b.whole = if fault.isInterrupted then whole { b with source } else .error fault := by
  unfold whole
  rw [Source.untilFailure_read_error hr]
  split
  · rfl
  · exact if_neg h

theorem whole_of_read_nil {source : Source} {n : Nat} (h : ¬ b.IsPassed) (hn : 0 < n)
    (hr : b.source.read n = (.ok [], source)) : b.whole = .ok [] := by
  obtain ⟨room, rfl⟩ := Nat.exists_eq_succ_of_ne_zero (Nat.ne_of_gt hn)
  unfold whole
  rw [Source.untilFailure_of_read_nil hr]
  exact if_neg h

/-- However a body is read to its end, the same comes of it. -/
theorem ReadsTo.eq_whole {result : Except Fault Bytes} (h : ReadsTo b result) :
    result = b.whole := by
  induction h with
  | @ended b rest room hread =>
    by_cases hp : b.IsPassed
    · cases (read_of_isPassed hp _).symm.trans hread
    · obtain ⟨n, hn, hreads⟩ := read_cases hp (room + 1)
      rw [hread] at hreads
      cases hreads with
      | delivers hr => exact (whole_of_read_nil hp (hn (Nat.succ_pos room)) hr).symm
  | @more b rest room bytes result hread hne hrest ih =>
    by_cases hp : b.IsPassed
    · cases (read_of_isPassed hp _).symm.trans hread
    · obtain ⟨n, hn, hreads⟩ := read_cases hp (room + 1)
      rw [hread] at hreads
      cases hreads with
      | delivers hr => rw [ih, whole_of_read hr]
  | @again b rest room fault result hread hi hrest ih =>
    by_cases hp : b.IsPassed
    · cases (read_of_isPassed hp _).symm.trans hread
      cases hi
    · obtain ⟨n, hn, hreads⟩ := read_cases hp (room + 1)
      rw [hread] at hreads
      cases hreads with
      | passes => cases hi
      | fails hr => rw [ih, whole_of_read_error hp hr, if_pos hi]
  | @failed b rest room fault hread hi =>
    by_cases hp : b.IsPassed
    · cases (read_of_isPassed hp _).symm.trans hread
      exact (whole_of_isPassed hp).symm
    · obtain ⟨n, hn, hreads⟩ := read_cases hp (room + 1)
      rw [hread] at hreads
      cases hreads with
      | passes hr hpassed => rw [whole_of_read hr, whole_of_isPassed hpassed]; rfl
      | fails hr => rw [whole_of_read_error hp hr, hi]; rfl

theorem bytes_eq_whole (b : Body) : b.bytes = b.whole.mapError Error.ofBodyFault := by
  rw [Body.bytes, (readsTo_readAll _ b).eq_whole]

theorem whole_of_admits (h : Admits b.limit (b.consumed + b.source.untilFailure.1.length)) :
    b.whole = match b.source.untilFailure.2 with
      | none => .ok b.source.untilFailure.1
      | some fault => .error fault :=
  if_neg (not_isPassed (b := b.taking b.source.untilFailure.1 []) |>.2 h)

theorem whole_of_not_admits
    (h : ¬ Admits b.limit (b.consumed + b.source.untilFailure.1.length)) :
    b.whole = .error b.limitFault :=
  if_pos (Classical.not_not.1 (h ∘ (not_isPassed (b := b.taking b.source.untilFailure.1 [])).1))

/-- A body that can be read is read under any limit that admits it. -/
theorem bytes_of_admits {data : Bytes} (hdata : bytes { b with limit := 0 } = .ok data)
    (h : Admits b.limit (b.consumed + data.length)) : b.bytes = .ok data := by
  rw [bytes_eq_whole, whole_of_admits (.inl rfl)] at hdata
  rcases huntil : b.source.untilFailure with ⟨front, _ | fault⟩
  · rw [huntil] at hdata
    cases hdata
    rw [bytes_eq_whole, whole_of_admits (by rw [huntil]; exact h), huntil]
    rfl
  · rw [huntil] at hdata
    cases hdata

/-- Under the greatest limit every body is too large, since the byte beyond it cannot be counted. -/
theorem bytes_of_le (h : UInt64.size ≤ b.limit.toNat + 1) :
    b.bytes = .error (.tooLarge b.limit.toNat) := by
  rw [bytes_eq_whole, whole_of_not_admits]
  · rfl
  · rintro (hzero | ⟨hcount, -⟩)
    · rw [limit_eq_zero.1 hzero] at h
      exact absurd h (by decide)
    · omega

end Body

/-- A body that is limited to `limit` bytes, one more than which can be counted, when no failure of
its source says that of itself. Whatever the buffers, what is delivered is the front of the source
and within the limit; a read says that the limit was passed only if there are more bytes, and so
does every read behind it. The whole body is the same for any buffers and without the interruptions:
all bytes of a source that is only interrupted, if the limit has room for them and else the error
that names the limit; and the failure of a source that fails before the limit is passed. -/
theorem Body.limit_exact {source : Source} (hs : source.HasNoLimit) (length : Option Nat)
    {limit : UInt64} (hcount : limit.toNat + 1 < UInt64.size) :
    let body : Body := limited { source, length } limit
    (∀ sizes, let results := (body.readEach sizes).1
      delivered results <+: source.content
        ∧ (0 < limit.toNat → (delivered results).length ≤ limit.toNat)
        ∧ ∀ before kind n after, results = before ++ .error (.tooLarge kind n) :: after →
          n = limit.toNat ∧ 0 < limit.toNat ∧ limit.toNat < source.content.length
            ∧ ∀ result ∈ after, result = .error (.tooLarge kind n))
      ∧ (∀ result, ReadsTo body result → body.bytes = result.mapError Error.ofBodyFault)
      ∧ body.bytes = (limited { source := source.withoutInterruptions, length } limit).bytes
      ∧ (source.IsSteady → body.bytes = if limit = 0 ∨ source.content.length ≤ limit.toNat
          then .ok source.content else .error (.tooLarge limit.toNat))
      ∧ ∀ (front : Source) fault rest, source = front ++ .fail fault :: rest → front.IsSteady →
          fault.isInterrupted = false → limit = 0 ∨ front.content.length ≤ limit.toNat →
          body.bytes = .error (.io fault) := by
  intro body
  have hadmits : ∀ size, Admits limit (0 + size) ↔ limit = 0 ∨ size ≤ limit.toNat := by
    intro size
    rw [Nat.zero_add, Admits, and_iff_right hcount]
  have hnew : ¬ body.IsPassed := not_isPassed.2 (.inr ⟨hcount, Nat.zero_le _⟩)
  refine ⟨fun sizes => ?_, fun result hresult => ?_, ?_, fun hsteady => ?_,
    fun front fault rest hsource hsteady hf hfits => ?_⟩
  · obtain ⟨hfront, hwithin, hfinal⟩ := keepLimit_readEach hnew hs sizes
    refine ⟨hfront, fun hpos => ?_, fun before kind n after he => ?_⟩
    · have hle := hwithin hpos
      simpa [body, limited] using hle
    · obtain ⟨hfault, hpos, hmore, hafter⟩ := hfinal before kind n after he
      have hn : n = limit.toNat := (Fault.tooLarge.inj hfault).2
      refine ⟨hn, hpos, by simpa [body, limited] using hmore, hfault ▸ hafter⟩
  · rw [bytes_eq_whole, hresult.eq_whole]
  · rw [bytes_eq_whole, bytes_eq_whole]
    simp only [whole, body, limited, limitFault, allowance,
      Source.untilFailure_withoutInterruptions]
  · have huntil : body.source.untilFailure = (source.content, none) := hsteady.untilFailure
    rw [bytes_eq_whole]
    split
    · rename_i hfits
      rw [whole_of_admits (by rw [huntil]; exact (hadmits _).2 hfits), huntil]
      rfl
    · rename_i hfits
      rw [whole_of_not_admits (by rw [huntil]; exact hfits ∘ (hadmits _).1)]
      rfl
  · have hfault := @Source.HasNoLimit.of_untilFailure _ fault hs
    subst hsource
    have huntil := hsteady.untilFailure_append hf rest
    have hbody : body.source.untilFailure = (front.content, some fault) := huntil
    rw [bytes_eq_whole, whole_of_admits (by rw [hbody]; exact (hadmits _).2 hfits), hbody]
    exact congrArg Except.error (hfault (by rw [huntil]))

/-- Five bytes under a limit of three. The read that would give the fourth is refused, and so is the
one behind it; the interruption counts for nothing. -/
theorem Body.limit_exact_passed :
    let interruption : Fault := .external .interrupted none
    let source : Source := [.data [1, 2], .fail interruption, .data [3, 4, 5]]
    let body : Body := limited { source, length := none } 3
    source.HasNoLimit
      ∧ (body.readEach [2, 9, 9, 1]).1 = [.ok [1, 2], .error interruption,
          .error (.tooLarge .other 3), .error (.tooLarge .other 3)]
      ∧ (delivered (body.readEach [2, 9, 9, 1]).1).length ≤ 3 ∧ 3 < source.content.length
      ∧ body.bytes = .error (.tooLarge 3) := by
  intro interruption source body
  have hs : source.HasNoLimit := by simp [Source.HasNoLimit, source, interruption]
  have hsteady : source.IsSteady := by
    simp [Source.IsSteady, source, interruption, Fault.isInterrupted, Fault.kind]
  have hresults : (body.readEach [2, 9, 9, 1]).1 = [.ok [1, 2], .error interruption,
      .error (.tooLarge .other 3), .error (.tooLarge .other 3)] := rfl
  obtain ⟨hreads, _, _, hbytes, _⟩ := @limit_exact source hs none 3 (by decide)
  obtain ⟨_, hwithin, hfinal⟩ := hreads [2, 9, 9, 1]
  obtain ⟨_, hpos, hmore, _⟩ := hfinal [.ok [1, 2], .error interruption] _ _ _ hresults
  exact ⟨hs, hresults, hwithin hpos, hmore, hbytes hsteady⟩

end HttpContext
